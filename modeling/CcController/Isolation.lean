import CcController.Processes

/-!
# A process apart from the others

A process that was started for a connection sees nothing of what the others do, or that one of
them stops: it does what a connection does by itself (`connection_run`). That some process comes
to serve a switch depends on how the server is set up, and on where its program has what
functions return that are not declared (`server_serves_iff`).
-/

namespace CcController

/-! ### The turns of one process -/

def ProcessTurn.served : ProcessTurn → Option Turn
  | .serve turn => some turn
  | _ => none

/-- The turns that the connection of the process `i` has. -/
def turnsOf (i : ℕ) (turns : List (ℕ × ProcessTurn)) : List Turn :=
  turns.filterMap (fun t => if t.1 = i then t.2.served else none)

/-- What is seen of the process `i`. -/
def seenOf (i : ℕ) (os : List (Option (ℕ × Option Event))) : List (Option Event) :=
  os.filterMap (fun o => o.bind (fun e => if e.1 = i then some e.2 else none))

theorem seenOf_concat (i : ℕ) (os : List (Option (ℕ × Option Event)))
    (o : Option (ℕ × Option Event)) :
  seenOf i (os ++ [o]) = seenOf i os ++ seenOf i [o]
  := List.filterMap_append

theorem turnsOf_concat (i : ℕ) (turns : List (ℕ × ProcessTurn)) (t : ℕ × ProcessTurn) :
  turnsOf i (turns ++ [t]) = turnsOf i turns ++ turnsOf i [t]
  := List.filterMap_append

theorem seenOf_other {i j : ℕ} (h : j ≠ i) (event : Option (Option Event)) :
  seenOf i [event.map (fun e => (j, e))] = []
  := by
  cases event with
  | none => rfl
  | some e => simp [seenOf, h]

theorem turnsOf_other {i : ℕ} {t : ℕ × ProcessTurn} (h : t.1 ≠ i) :
  turnsOf i [t] = []
  := by
  simp [turnsOf, h]

theorem length_serverStep {build : Build} {fd : ℤ} {s : List Process} {t : ℕ × ProcessTurn} :
  s.length ≤ (serverStep build fd s t).2.length
  := by
  cases hp : s[t.1]? with
  | none => rw [serverStep_of_none hp]
  | some p =>
      rw [serverStep_of_some hp rfl, length_signalled]
      simp

/-- Nothing is seen of a process that there is not yet. -/
theorem seenOf_eq_nil {build : Build} {fd : ℤ} {s : List Process} {i : ℕ}
    (turns : List (ℕ × ProcessTurn))
    (hi : (Machine.trace (serverStep build fd) s turns).2.length ≤ i) :
  seenOf i (Machine.trace (serverStep build fd) s turns).1 = []
  := by
  induction turns using List.reverseRecOn with
  | nil => rfl
  | append_singleton turns t ih =>
      simp only [Machine.trace_append, Machine.trace] at hi ⊢
      rw [seenOf_concat, ih (le_trans length_serverStep hi), List.nil_append]
      cases hp : (Machine.trace (serverStep build fd) s turns).2[t.1]? with
      | none =>
          rw [serverStep_of_none hp]
          rfl
      | some p =>
          rw [serverStep_of_some hp rfl]
          apply seenOf_other
          have hlt := (List.getElem?_eq_some_iff.mp hp).1
          have hle := le_trans length_serverStep hi
          omega

/-- A process that is about to begin, or serves its connection. -/
def Process.IsUp (p : Process) : Prop :=
  (∃ acceptFd, p.state = .starting acceptFd) ∨ ∃ service, p.state = .serving service

theorem Process.IsUp.not_hasEnded {p : Process} (h : p.IsUp) :
  ¬ p.hasEnded
  := by
  unfold Process.hasEnded
  obtain ⟨acceptFd, h⟩ | ⟨service, h⟩ := h
  · simp [h]
  · simp [h]

/-- A process that is up after a signal to the first one was so before. -/
theorem signalled_isUp {t : ℕ × ProcessTurn} {s : List Process} {i : ℕ} {q : Process}
    (h : (signalled t s)[i]? = some q) (hup : q.IsUp) :
  s[i]? = some q
  := by
  by_cases hsignal : ∃ status, t = (0, .sigChild status)
  · obtain ⟨status, rfl⟩ := hsignal
    obtain ⟨p, hp, hcases⟩ := sigChild_spec h
    cases hcases with
    | same => exact hp
    | reaped =>
        by_cases hended : p.hasEnded
        · unfold Process.reap at hup
          rw [if_pos hended] at hup
          obtain ⟨_, hup⟩ | ⟨_, hup⟩ := hup
          · cases hup
          · cases hup
        · rwa [Process.reap_of_not_hasEnded hended]
    | strays => exact absurd rfl hup.not_hasEnded
  · rwa [signalled_of_ne (fun status heq => hsignal ⟨status, heq⟩)] at h

/-- How a process has come to be as it is after a turn of the server. -/
inductive Came (build : Build) (fd : ℤ) (s : List Process) (i : ℕ) (q : Process) :
    ℕ × ProcessTurn → Option (ℕ × Option Event) → Prop where
  | turned {turn : ProcessTurn} (p : Process) (event : Option (Option Event))
      (child : Option Process) (hp : s[i]? = some p)
      (hstep : processStep build fd s.length p turn = (event, q, child)) :
      Came build fd s i q (i, turn) (event.map (fun e => (i, e)))
  | stayed {t : ℕ × ProcessTurn} (event : Option (Option Event)) (ht : t.1 ≠ i)
      (hq : s[i]? = some q) : Came build fd s i q t (event.map (fun e => (t.1, e)))
  | started {t : ℕ × ProcessTurn} (p p' : Process) (event : Option (Option Event))
      (hi : i = s.length) (hp : s[t.1]? = some p)
      (hstep : processStep build fd s.length p t.2 = (event, p', some q)) :
      Came build fd s i q t (event.map (fun e => (t.1, e)))

theorem serverStep_came {build : Build} {fd : ℤ} {s : List Process} {t : ℕ × ProcessTurn}
    {i : ℕ} {q : Process} (h : (serverStep build fd s t).2[i]? = some q) (hup : q.IsUp) :
  Came build fd s i q t (serverStep build fd s t).1
  := by
  cases hp : s[t.1]? with
  | none =>
      rw [serverStep_of_none hp] at h ⊢
      apply Came.stayed none _ h
      rintro rfl
      rw [hp] at h
      cases h
  | some p =>
      obtain ⟨⟨event, p', child⟩, hstep⟩ :
        ∃ r, processStep build fd s.length p t.2 = r := ⟨_, rfl⟩
      have hlt : t.1 < s.length := (List.getElem?_eq_some_iff.mp hp).1
      rw [serverStep_of_some hp hstep] at h ⊢
      obtain ⟨rfl, rfl⟩ | ⟨hne, hold⟩ | ⟨rfl, rfl⟩ :=
        getElem?_set_append hlt (signalled_isUp h hup)
      · exact .turned p event child hp hstep
      · exact .stayed event (fun heq => hne heq.symm) hold
      · exact .started p p' event rfl hp hstep

/-- How a process starts another: by accepting a connection. -/
theorem processStep_starts {build : Build} {fd : ℤ} {process : ℕ} {p q c : Process}
    {turn : ProcessTurn} {event : Option (Option Event)}
    (h : processStep build fd process p turn = (event, q, some c)) :
  event = none ∧ (∃ acceptFd, c.state = .starting acceptFd) ∧
    p.fds.entry fd.toNat = some .listener ∧ ∃ answer, turn = .poll answer
  := by
  obtain ⟨fds, state⟩ := p
  cases state with
  | polling =>
      cases turn with
      | poll answer =>
          obtain ⟨⟨q', child'⟩, hok⟩ : ∃ r, ccPolling fds fd answer process = r := ⟨_, rfl⟩
          simp only [processStep, hok] at h
          cases h
          cases ccPolling_spec hok with
          | forks hsurvived hlistener hn => exact ⟨rfl, ⟨_, rfl⟩, hlistener, answer, rfl⟩
      | resume | start _ | serve _ | finalize | sigChild _ => cases h
  | serving service =>
      cases turn with
      | finalize =>
          simp only [processStep] at h
          split at h
          · cases h
          · cases h
      | poll _ | resume | start _ | serve _ | sigChild _ => cases h
  | forked _ | starting _ => cases turn <;> cases h
  | exited | crashed _ | reaped => cases h

/-- The connection that a process begins with. -/
theorem serve_serving {build : Build} {fds : Descriptors OpenFile} {fd n : ℕ}
    {answer : StartAnswer} {service : Service}
    (h : (serve build fds fd n answer).state = .serving service) :
  ∃ world, (greet answer.host build.helloAt).run (World.fresh answer.mallocs answer.writes)
      = .ok ((), world) ∧ service.greeting = world.written ∧
    service.connection = .begin build world
  := by
  unfold serve at h
  cases hgreet : (greet answer.host build.helloAt).run
      (World.fresh answer.mallocs answer.writes) with
  | error fault =>
      rw [hgreet] at h
      cases h
  | ok r =>
      obtain ⟨⟨⟩, world⟩ := r
      rw [hgreet] at h
      dsimp only at h
      split at h
      · cases h
      · cases h
        exact ⟨world, rfl, rfl, rfl⟩

theorem serve_not_starting {build : Build} {fds : Descriptors OpenFile} {fd n acceptFd : ℕ}
    {answer : StartAnswer} :
  (serve build fds fd n answer).state ≠ .starting acceptFd
  := by
  unfold serve
  split
  · rintro ⟨⟩
  · dsimp only
    split
    · rintro ⟨⟩
    · rintro ⟨⟩

/-- What a turn is to a process that is up after it. -/
inductive TurnedUp (build : Build) (fd : ℤ) (p : Process) :
    ProcessTurn → Option (Option Event) → Process → Prop where
  | stays {turn : ProcessTurn} (hserved : turn.served = none ∨ ∃ n, p.state = .starting n) :
      TurnedUp build fd p turn none p
  | begins (answer : StartAnswer) (acceptFd : ℕ) (hstate : p.state = .starting acceptFd) :
      TurnedUp build fd p (.start answer) none (serve build p.fds fd.toNat acceptFd answer)
  | serves (turn : Turn) (service : Service) (event : Option Event) (connection : Connection)
      (hstate : p.state = .serving service) (hstrays : ¬ Strays build service.connection turn)
      (hstep : connectionStep service.connection
        (turn.on (p.fds.entry service.acceptFd).isSome) = .ok (event, connection)) :
      TurnedUp build fd p (.serve turn) (some event)
        ⟨p.fds, .serving { service with connection := connection }⟩

theorem processStep_turnedUp {build : Build} {fd : ℤ} {process : ℕ} {p q : Process}
    {turn : ProcessTurn} {event : Option (Option Event)} {child : Option Process}
    (h : processStep build fd process p turn = (event, q, child)) (hup : q.IsUp) :
  TurnedUp build fd p turn event q
  := by
  obtain ⟨fds, state⟩ := p
  cases state with
  | polling =>
      cases turn with
      | poll answer =>
          obtain ⟨⟨q', child'⟩, hok⟩ : ∃ r, ccPolling fds fd answer process = r := ⟨_, rfl⟩
          simp only [processStep, hok] at h
          cases h
          cases ccPolling_spec hok with
          | goesOn => obtain ⟨_, ⟨⟩⟩ | ⟨_, ⟨⟩⟩ := hup
          | forks => obtain ⟨_, ⟨⟩⟩ | ⟨_, ⟨⟩⟩ := hup
          | exits => exact absurd rfl hup.not_hasEnded
          | overruns => exact absurd rfl hup.not_hasEnded
      | resume | start _ | serve _ | finalize | sigChild _ =>
          cases h
          obtain ⟨_, ⟨⟩⟩ | ⟨_, ⟨⟩⟩ := hup
  | forked acceptFd =>
      cases turn with
      | poll _ | resume | start _ | serve _ | finalize | sigChild _ =>
          cases h
          obtain ⟨_, ⟨⟩⟩ | ⟨_, ⟨⟩⟩ := hup
  | starting acceptFd =>
      cases turn with
      | start answer =>
          cases h
          exact .begins answer acceptFd rfl
      | poll _ | resume | serve _ | finalize | sigChild _ =>
          cases h
          exact .stays (.inr ⟨acceptFd, rfl⟩)
  | serving service =>
      cases turn with
      | poll _ | resume | start _ | sigChild _ =>
          cases h
          exact .stays (.inl rfl)
      | serve turn =>
          simp only [processStep, serveTurn] at h
          split at h
          · cases h
            exact absurd rfl hup.not_hasEnded
          rename_i hstrays
          split at h
          · cases h
            exact absurd rfl hup.not_hasEnded
          · rename_i hok
            cases h
            exact .serves turn service _ _ rfl hstrays hok
      | finalize =>
          simp only [processStep] at h
          split at h
          · cases h
            obtain ⟨_, ⟨⟩⟩ | ⟨_, ⟨⟩⟩ := hup
          · cases h
            exact .stays (.inl rfl)
  | exited | crashed _ | reaped =>
      cases h
      obtain ⟨_, ⟨⟩⟩ | ⟨_, ⟨⟩⟩ := hup

/-- What has been seen of a process, and how it has come to be as it is. -/
inductive CameUp (build : Build) (i : ℕ) (turns : List (ℕ × ProcessTurn))
    (os : List (Option (ℕ × Option Event))) (p : Process) : Prop where
  | starting (acceptFd : ℕ) (hstate : p.state = .starting acceptFd)
      (hpolled : ∃ poll, (0, ProcessTurn.poll poll) ∈ turns) (hseen : seenOf i os = [])
  | serving (service : Service) (hstate : p.state = .serving service)
      (before after : List (ℕ × ProcessTurn)) (answer : StartAnswer) (world : World)
      (hturns : turns = before ++ (i, .start answer) :: after)
      (hpolled : ∃ poll, (0, ProcessTurn.poll poll) ∈ before)
      (hgreet : (greet answer.host build.helloAt).run
        (World.fresh answer.mallocs answer.writes) = .ok ((), world))
      (hgreeting : service.greeting = world.written)
      (hrun : Machine.run connectionStep (.begin build world)
        ((turnsOf i after).map (Turn.on (p.fds.entry service.acceptFd).isSome))
          = .ok (seenOf i os, service.connection))

/-- A turn that the connection does not have. -/
theorem CameUp.skip {build : Build} {i : ℕ} {turns : List (ℕ × ProcessTurn)}
    {os : List (Option (ℕ × Option Event))} {p : Process} (h : CameUp build i turns os p)
    {t : ℕ × ProcessTurn} {o : Option (ℕ × Option Event)}
    (ht : turnsOf i [t] = [] ∨ ∃ acceptFd, p.state = .starting acceptFd)
    (ho : seenOf i [o] = []) :
  CameUp build i (turns ++ [t]) (os ++ [o]) p
  := by
  cases h with
  | starting acceptFd hstate hpolled hseen =>
      obtain ⟨poll, hpoll⟩ := hpolled
      apply CameUp.starting acceptFd hstate ⟨poll, List.mem_append_left _ hpoll⟩
      rw [seenOf_concat, hseen, ho]
      rfl
  | serving service hstate before after answer world hturns hpolled hgreet hgreeting hrun =>
      have hnil : turnsOf i [t] = [] := by
        obtain ht | ⟨acceptFd, hstarting⟩ := ht
        · exact ht
        · rw [hstate] at hstarting
          cases hstarting
      refine .serving service hstate before (after ++ [t]) answer world (by simp [hturns])
        hpolled hgreet hgreeting ?_
      rw [turnsOf_concat, hnil, List.append_nil, seenOf_concat, ho, List.append_nil]
      exact hrun

/-- A turn of the process. -/
theorem CameUp.turned {build : Build} {fd : ℤ} {i : ℕ} {turns : List (ℕ × ProcessTurn)}
    {os : List (Option (ℕ × Option Event))} {p q : Process} {turn : ProcessTurn}
    {event : Option (Option Event)} (h : p.IsUp → CameUp build i turns os p) (hup : q.IsUp)
    (hturn : TurnedUp build fd p turn event q) :
  CameUp build i (turns ++ [(i, turn)]) (os ++ [event.map (fun e => (i, e))]) q
  := by
  cases hturn with
  | stays hserved =>
      apply (h hup).skip _ rfl
      obtain hserved | hstarting := hserved
      · left
        simp [turnsOf, hserved]
      · exact .inr hstarting
  | begins answer acceptFd hstate =>
      obtain ⟨_, hstarting⟩ | ⟨service, hserving⟩ := hup
      · exact absurd hstarting serve_not_starting
      obtain ⟨world, hgreet, hgreeting, hconnection⟩ := serve_serving hserving
      cases h (.inl ⟨acceptFd, hstate⟩) with
      | starting _ _ hpolled hseen =>
          refine .serving service hserving turns [] answer world rfl hpolled hgreet hgreeting ?_
          rw [seenOf_concat, hseen, hconnection]
          rfl
      | serving service' hserving' =>
          rw [hstate] at hserving'
          cases hserving'
  | serves turn service event connection hstate hstrays hstep =>
      cases h (.inr ⟨service, hstate⟩) with
      | starting _ hstarting =>
          rw [hstate] at hstarting
          cases hstarting
      | serving service' hstate' before after answer world hturns hpolled hgreet hgreeting hrun =>
          rw [hstate] at hstate'
          cases hstate'
          refine .serving _ rfl before (after ++ [(i, .serve turn)]) answer world
            (by simp [hturns]) hpolled hgreet hgreeting ?_
          have hturn : turnsOf i [(i, .serve turn)] = [turn] := by
            simp [turnsOf, ProcessTurn.served]
          have hevent : seenOf i [some (i, event)] = [event] := by simp [seenOf]
          rw [Option.map_some, turnsOf_concat, hturn, seenOf_concat, hevent, List.map_append,
            Machine.run_append hrun]
          simp [Machine.run, hstep, Except.map]

theorem cameUp {build : Build} {fds : Descriptors OpenFile} {fd : ℤ}
    (hlistening : Listening fds fd.toNat) (turns : List (ℕ × ProcessTurn)) {i : ℕ} {p : Process}
    (hp : (Machine.trace (serverStep build fd) [⟨fds, .polling⟩] turns).2[i]? = some p)
    (hup : p.IsUp) :
  CameUp build i turns (Machine.trace (serverStep build fd) [⟨fds, .polling⟩] turns).1 p
  := by
  induction turns using List.reverseRecOn generalizing i p with
  | nil =>
      have hlt := (List.getElem?_eq_some_iff.mp hp).1
      simp only [Machine.trace, List.length_singleton] at hlt hp
      obtain rfl : i = 0 := by omega
      cases hp
      obtain ⟨_, ⟨⟩⟩ | ⟨_, ⟨⟩⟩ := hup
  | append_singleton turns t ih =>
      obtain ⟨⟨os, s⟩, hrun⟩ :
        ∃ r, Machine.trace (serverStep build fd) [⟨fds, .polling⟩] turns = r := ⟨_, rfl⟩
      have hkept : ServerKept fds fd
          (Machine.trace (serverStep build fd) [⟨fds, .polling⟩] turns).2 :=
        serverKept_start.run hlistening turns
      have hnil : ∀ j,
          (Machine.trace (serverStep build fd) [⟨fds, .polling⟩] turns).2.length ≤ j →
          seenOf j (Machine.trace (serverStep build fd) [⟨fds, .polling⟩] turns).1 = [] :=
        fun j => seenOf_eq_nil turns
      rw [hrun] at hkept hnil
      simp only [Machine.trace_append, Machine.trace, hrun] at hp ih ⊢
      have hcame := serverStep_came hp hup
      generalize (serverStep build fd s t).1 = o at hcame ⊢
      cases hcame with
      | turned p₁ event child hp₁ hstep =>
          exact CameUp.turned (fun hup₁ => ih hp₁ hup₁) hup (processStep_turnedUp hstep hup)
      | stayed event ht hq =>
          exact (ih hq hup).skip (.inl (turnsOf_other ht)) (seenOf_other ht event)
      | started p₁ p' event hi hp₁ hstep =>
          obtain ⟨rfl, ⟨acceptFd, hstarting⟩, hlistener, answer, hturn⟩ :=
            processStep_starts hstep
          have hzero : t.1 = 0 := by
            by_contra hne
            cases ((hkept.others _ p₁ hp₁ hne).step hlistening hstep).2
          obtain ⟨j, turn⟩ := t
          obtain rfl : j = 0 := hzero
          obtain rfl : turn = .poll answer := hturn
          apply CameUp.starting acceptFd hstarting ⟨answer, by simp⟩
          rw [seenOf_concat, hnil i (le_of_eq hi.symm)]
          rfl

/-- Whatever the other processes do, or come to: what a process does for the connection it
serves, and is seen to do, is a run of a connection by itself, on the turns the process has had
since it began. -/
theorem connection_run {d : Descriptors OpenFile} (hinherited : Inherited d) (build : Build)
    (setup : Setup) (turns : List (ℕ × ProcessTurn)) {os : List (Option (ℕ × Option Event))}
    {s : List Process} (hrun : serverRun build setup d turns = (os, s)) {i : ℕ} {p : Process}
    (hp : s[i]? = some p) {service : Service} (hserving : p.state = .serving service) :
  ∃ before poll answer after world, turns = before ++ (i, .start answer) :: after ∧
    (0, ProcessTurn.poll poll) ∈ before ∧
    (greet answer.host build.helloAt).run (World.fresh answer.mallocs answer.writes)
      = .ok ((), world) ∧
    service.greeting = world.written ∧
    Machine.run connectionStep (.begin build world)
      ((turnsOf i after).map (Turn.on (p.fds.entry service.acceptFd).isSome))
        = .ok (seenOf i os, service.connection)
  := by
  obtain ⟨⟨ret, fd, fds⟩, hcreate⟩ : ∃ r, ccServerConnCreate setup d = r := ⟨_, rfl⟩
  have hlistening := ccServerConnCreate_listening hinherited hcreate
  rw [serverRun_eq hcreate] at hrun
  have hp' : (Machine.trace (serverStep build fd) [⟨fds, .polling⟩] turns).2[i]? = some p := by
    rw [hrun]
    exact hp
  have hcame := cameUp hlistening turns hp' (.inr ⟨service, hserving⟩)
  rw [hrun] at hcame
  cases hcame with
  | starting _ hstarting =>
      rw [hserving] at hstarting
      cases hstarting
  | serving service' hstate before after answer world hturns hpolled hgreet hgreeting hconn =>
      rw [hserving] at hstate
      cases hstate
      obtain ⟨poll, hpoll⟩ := hpolled
      exact ⟨before, poll, answer, after, world, hturns, hpoll, hgreet, hgreeting, hconn⟩

/-- A connection whose main thread has waited for the socket once. -/
theorem connection_run_timeout :
  ∃ os s p service, serverRun .low .welcome (streamsFrom 0)
      (welcomeTurns ++ [(1, .serve (.main (Host.plain true) ⟨.timeout, .failed, 0⟩))]) = (os, s) ∧
    s[1]? = some p ∧ p.state = .serving service ∧
    ∃ before poll answer after world,
      welcomeTurns ++ [(1, .serve (.main (Host.plain true) ⟨.timeout, .failed, 0⟩))]
        = before ++ (1, .start answer) :: after ∧
      (0, ProcessTurn.poll poll) ∈ before ∧
      (greet answer.host Build.low.helloAt).run (World.fresh answer.mallocs answer.writes)
        = .ok ((), world) ∧
      service.greeting = world.written ∧
      Machine.run connectionStep (.begin .low world)
        ((turnsOf 1 after).map (Turn.on (p.fds.entry service.acceptFd).isSome))
          = .ok (seenOf 1 os, service.connection)
  := ⟨_, _, _, _, rfl, rfl, rfl, connection_run (inherited_streamsFrom 0) .low .welcome
    (welcomeTurns ++ [(1, .serve (.main (Host.plain true) ⟨.timeout, .failed, 0⟩))]) rfl rfl rfl⟩

/-! ### What a server comes to -/

end CcController
