import CcController.Server

/-!
# What the processes have open

In any run of the server the listening process keeps its descriptors, and each connection is open
in the process that was started for it alone, but for the moment between `fork` and the close
behind it (`descriptors_kept`). Whether the descriptor in the record of a connection is still that
of the connection depends on what the server was started with (`recorded_open_iff`).
-/

namespace CcController

/-! ### The processes of connections -/

/-- The descriptors of a process that was started for a connection and has begun, when the
server had `fds`: it has at most its own connection, and that once, and is not the one that
listens. -/
structure Process.Own (fds : Descriptors OpenFile) (i : ℕ) (p : Process) : Prop where
  listener : ∀ n, p.fds.entry n ≠ some .listener
  own : ∀ n k, p.fds.entry n = some (.connection k) → k = i
  once : ∀ n m, p.fds.entry n = some (.connection i) → p.fds.entry m = some (.connection i) → n = m
  begun : ∀ n, p.state ≠ .forked n ∧ p.state ≠ .starting n
  serving : ∀ service, p.state = .serving service →
    service.recorded = fds.lowest ∧ fds.lowest < fds.bound ∧ fds.lowest < fdSetsize ∧
    (ccAcceptFd ≤ fds.lowest → p.fds.entry service.recorded = some (.connection i)) ∧
    (fds.lowest < ccAcceptFd → p.fds.entry service.recorded = none)

/-- The descriptors of a server that listens on `fd`. -/
structure Listening (fds : Descriptors OpenFile) (fd : ℕ) : Prop where
  listener : ∀ n, fds.entry n = some .listener → fd = n
  connection : ∀ n k, fds.entry n ≠ some (.connection k)

/-- The connection that has been accepted is the only one. -/
theorem Listening.withConnection {fds : Descriptors OpenFile} {fd i n k : ℕ}
    (h : Listening fds fd) (hn : fds.lowest < fds.bound)
    (hentry : (withConnection fds i hn).entry n = some (.connection k)) :
  n = fds.lowest ∧ k = i
  := by
  obtain ⟨rfl, hk⟩ | ⟨-, hold⟩ := Descriptors.entry_install hn hentry
  · cases hk
    exact ⟨rfl, rfl⟩
  · exact absurd hold (h.connection n k)

/-- All that is open besides the connection `i`, under `n`, is open from before. -/
def OnlyAt (d : Descriptors OpenFile) (n i : ℕ) : Prop :=
  ∀ m f, d.entry m = some f → (m = n ∧ f = .connection i) ∨ f = .inherited ∨ f = .socket

theorem onlyAt_close {fds : Descriptors OpenFile} {fd i : ℕ} (hlistening : Listening fds fd)
    (hn : fds.lowest < fds.bound) :
  OnlyAt ((withConnection fds i hn).close fd) fds.lowest i
  := by
  intro m f hm
  obtain ⟨hne, hm⟩ := Descriptors.entry_of_close hm
  obtain ⟨rfl, rfl⟩ | ⟨-, hold⟩ := Descriptors.entry_install hn hm
  · exact .inl ⟨rfl, rfl⟩
  · right
    cases f with
    | inherited => exact .inl rfl
    | socket => exact .inr rfl
    | listener => exact absurd (hlistening.listener m hold) hne.symm
    | connection k => exact absurd hold (hlistening.connection m k)

theorem OnlyAt.moveUp {d : Descriptors OpenFile} {n i : ℕ} (h : OnlyAt d n i) :
  OnlyAt (moveUp d n).2 (CcController.moveUp d n).1 i
  := by
  unfold CcController.moveUp
  by_cases hlow : n < ccAcceptFd
  · rw [if_pos hlow]
    intro m f hm
    obtain ⟨hne, hm⟩ := Descriptors.entry_of_close hm
    obtain ⟨rfl, hn, -⟩ | ⟨hold, -⟩ := Descriptors.entry_of_dup2 hm
    · obtain ⟨-, rfl⟩ | hf := h n f hn
      · exact .inl ⟨rfl, rfl⟩
      · exact .inr hf
    · obtain ⟨rfl, -⟩ | hf := h m f hold
      · exact absurd rfl hne
      · exact .inr hf
  · rw [if_neg hlow]
    exact h

theorem OnlyAt.own {fds d : Descriptors OpenFile} {n i : ℕ} {state : ProcessState}
    (h : OnlyAt d n i) (hbegun : ∀ n, state ≠ .forked n ∧ state ≠ .starting n)
    (hserving : ∀ service, state = .serving service →
      service.recorded = fds.lowest ∧ fds.lowest < fds.bound ∧ fds.lowest < fdSetsize ∧
      (ccAcceptFd ≤ fds.lowest → d.entry service.recorded = some (.connection i)) ∧
      (fds.lowest < ccAcceptFd → d.entry service.recorded = none)) :
  Process.Own fds i ⟨d, state⟩
  := by
  refine ⟨?_, ?_, ?_, hbegun, hserving⟩
  · intro m hm
    obtain ⟨-, hf⟩ | hf | hf := h m _ hm
    · cases hf
    · cases hf
    · cases hf
  · intro m k hm
    obtain ⟨-, hf⟩ | hf | hf := h m _ hm
    · cases hf
      rfl
    · cases hf
    · cases hf
  · intro m m' hm hm'
    obtain ⟨rfl, -⟩ | hf | hf := h m _ hm
    · obtain ⟨rfl, -⟩ | hf | hf := h m' _ hm'
      · rfl
      · cases hf
      · cases hf
    · cases hf
    · cases hf

theorem Process.hasEnded_iff {p : Process} :
  p.hasEnded ↔ p.state = .exited ∨ ∃ fault, p.state = .crashed fault
  := by
  unfold Process.hasEnded
  cases p.state <;> simp

/-- A process that has nothing open and has ended. -/
theorem own_empty {fds : Descriptors OpenFile} {i bound : ℕ} {state : ProcessState}
    (hended : (Process.mk (Descriptors.empty bound) state).hasEnded) :
  Process.Own fds i ⟨Descriptors.empty bound, state⟩
  := by
  rw [Process.hasEnded_iff] at hended
  refine ⟨by rintro n ⟨⟩, by rintro n k ⟨⟩, by rintro n m ⟨⟩, ?_, ?_⟩
  · obtain h | ⟨fault, h⟩ := hended
    · exact fun n => ⟨by rw [h]; rintro ⟨⟩, by rw [h]; rintro ⟨⟩⟩
    · exact fun n => ⟨by rw [h]; rintro ⟨⟩, by rw [h]; rintro ⟨⟩⟩
  · intro service hserving
    obtain h | ⟨fault, h⟩ := hended
    · rw [h] at hserving
      cases hserving
    · rw [h] at hserving
      cases hserving

/-- A process that begins has, of the server's descriptors, that of its connection. -/
theorem serve_own {build : Build} {fds : Descriptors OpenFile} {fd i : ℕ} {answer : StartAnswer}
    (hlistening : Listening fds fd) (hlistener : fds.entry fd = some .listener)
    (hn : fds.lowest < fds.bound) :
  (serve build (withConnection fds i hn) fd fds.lowest answer).Own fds i
  := by
  unfold serve
  cases hgreet : (greet answer.host build.helloAt).run
      (World.fresh answer.mallocs answer.writes) with
  | error fault => exact own_empty rfl
  | ok r =>
      obtain ⟨-, world⟩ := r
      have honly := onlyAt_close (i := i) hlistening hn
      dsimp only
      by_cases hroom : fdSetsize ≤
        (moveUp ((withConnection fds i hn).close fd) fds.lowest).1
      · rw [if_pos hroom]
        exact own_empty rfl
      · rw [if_neg hroom]
        apply honly.moveUp.own (fun n => ⟨by rintro ⟨⟩, by rintro ⟨⟩⟩)
        rintro service ⟨⟩
        have hsize : fds.lowest < fdSetsize := by
          unfold moveUp at hroom
          split at hroom
          · omega
          · exact not_le.mp hroom
        refine ⟨rfl, hn, hsize, fun hhigh => ?_, fun hlow => ?_⟩
        · unfold moveUp
          rw [if_neg (not_lt.mpr hhigh)]
          have hne : fds.lowest ≠ fd := by
            intro heq
            rw [← heq, Descriptors.entry_lowest] at hlistener
            cases hlistener
          rw [Descriptors.entry_close_of_ne hne]
          apply Descriptors.entry_install_self
        · unfold moveUp
          rw [if_pos hlow]
          apply Descriptors.entry_close_self

/-- Where a process was started for a connection, and goes. -/
theorem Process.Own.mono {fds : Descriptors OpenFile} {i : ℕ} {p : Process}
    {state : ProcessState} (h : p.Own fds i)
    (hbegun : ∀ n, state ≠ .forked n ∧ state ≠ .starting n)
    (hstate : ∀ service, state = .serving service →
      ∃ service', p.state = .serving service' ∧ service'.recorded = service.recorded) :
  Process.Own fds i ⟨p.fds, state⟩
  := by
  refine ⟨h.listener, h.own, h.once, hbegun, ?_⟩
  intro service hserving
  obtain ⟨service', hstate', hrecorded⟩ := hstate service hserving
  rw [← hrecorded]
  exact h.serving service' hstate'

/-- A process that was started for the connection `i`, and may have yet to begin. -/
inductive Process.Started (fds : Descriptors OpenFile) (fd : ℤ) (i : ℕ) (p : Process) : Prop where
  | starting (hlistener : fds.entry fd.toNat = some .listener) (hn : fds.lowest < fds.bound)
      (heq : p = ⟨withConnection fds i hn, .starting fds.lowest⟩)
  | begun (hlistener : fds.entry fd.toNat = some .listener) (hown : p.Own fds i)

theorem Process.Started.listener {fds : Descriptors OpenFile} {fd : ℤ} {i : ℕ} {p : Process}
    (h : p.Started fds fd i) :
  fds.entry fd.toNat = some .listener
  := by
  cases h with
  | starting hlistener => exact hlistener
  | begun hlistener => exact hlistener

/-- A turn of a process that was started for a connection. It starts none. -/
theorem Process.Own.step {build : Build} {fds : Descriptors OpenFile} {fd : ℤ} {i process : ℕ}
    {p q : Process} {turn : ProcessTurn} {event : Option (Option Event)} {child : Option Process}
    (h : p.Own fds i) (hstep : processStep build fd process p turn = (event, q, child)) :
  q.Own fds i ∧ child = none
  := by
  obtain ⟨pfds, state⟩ := p
  cases state with
  | polling =>
      cases turn with
      | poll answer =>
          obtain ⟨⟨q', child'⟩, hok⟩ : ∃ r, ccPolling pfds fd answer process = r := ⟨_, rfl⟩
          simp only [processStep, hok] at hstep
          cases hstep
          cases ccPolling_spec hok with
          | goesOn => exact ⟨h, rfl⟩
          | forks hsurvived hlistener => exact absurd hlistener (h.listener _)
          | exits => exact ⟨own_empty rfl, rfl⟩
          | overruns => exact ⟨own_empty rfl, rfl⟩
      | resume | start _ | serve _ | finalize | sigChild _ =>
          cases hstep
          exact ⟨h, rfl⟩
  | forked acceptFd => exact absurd rfl (h.begun acceptFd).1
  | starting acceptFd => exact absurd rfl (h.begun acceptFd).2
  | serving service =>
      cases turn with
      | poll _ | resume | start _ | sigChild _ =>
          cases hstep
          exact ⟨h, rfl⟩
      | serve turn =>
          simp only [processStep, serveTurn] at hstep
          split at hstep
          · cases hstep
            exact ⟨own_empty rfl, rfl⟩
          split at hstep
          · cases hstep
            exact ⟨own_empty rfl, rfl⟩
          · cases hstep
            refine ⟨h.mono (fun n => ⟨by rintro ⟨⟩, by rintro ⟨⟩⟩) ?_, rfl⟩
            rintro _ ⟨⟩
            exact ⟨service, rfl, rfl⟩
      | finalize =>
          simp only [processStep] at hstep
          split at hstep
          · cases hstep
            refine ⟨h.mono (fun n => ⟨by rintro ⟨⟩, by rintro ⟨⟩⟩) ?_, rfl⟩
            rintro _ ⟨⟩
          · cases hstep
            exact ⟨h, rfl⟩
  | exited | crashed _ | reaped =>
      cases hstep
      exact ⟨h, rfl⟩

theorem Process.Started.step {build : Build} {fds : Descriptors OpenFile} {fd : ℤ}
    {i process : ℕ} {p q : Process} {turn : ProcessTurn} {event : Option (Option Event)}
    {child : Option Process} (h : p.Started fds fd i) (hlistening : Listening fds fd.toNat)
    (hstep : processStep build fd process p turn = (event, q, child)) :
  q.Started fds fd i ∧ child = none
  := by
  cases h with
  | starting hlistener hn heq =>
      subst heq
      cases turn with
      | start answer =>
          cases hstep
          exact ⟨.begun hlistener (serve_own hlistening hlistener hn), rfl⟩
      | poll _ | resume | serve _ | finalize | sigChild _ =>
          cases hstep
          exact ⟨.starting hlistener hn rfl, rfl⟩
  | begun hlistener hown =>
      obtain ⟨hq, hchild⟩ := hown.step hstep
      exact ⟨.begun hlistener hq, hchild⟩

/-- To be waited for changes nothing for a process that has not ended. -/
theorem Process.reap_of_not_hasEnded {p : Process} (h : ¬ p.hasEnded) :
  p.reap = p
  := if_neg h

theorem Process.Started.reap {fds : Descriptors OpenFile} {fd : ℤ} {i : ℕ} {p : Process}
    (h : p.Started fds fd i) :
  p.reap.Started fds fd i
  := by
  cases h with
  | starting hlistener hn heq =>
      subst heq
      exact .starting hlistener hn rfl
  | begun hlistener hown =>
      apply Process.Started.begun hlistener
      unfold Process.reap
      split
      · apply hown.mono (fun n => ⟨by rintro ⟨⟩, by rintro ⟨⟩⟩)
        rintro _ ⟨⟩
      · exact hown

/-! ### The first process -/

/-- The first process of `count` as it can be: as it was when it began to listen, or with the
connection that the last one was started for as well, or at its end. -/
inductive Process.First (fds : Descriptors OpenFile) (count : ℕ) (p : Process) : Prop where
  | polling (heq : p = ⟨fds, .polling⟩)
  | forked (k : ℕ) (hk : k + 1 = count) (hn : fds.lowest < fds.bound)
      (heq : p = ⟨withConnection fds k hn, .forked fds.lowest⟩)
  | ended (hended : p.hasEnded) (hfds : p.fds = Descriptors.empty fds.bound)

theorem Process.First.not_serving {fds : Descriptors OpenFile} {count : ℕ} {p : Process}
    {service : Service} (h : p.First fds count) :
  p.state ≠ .serving service
  := by
  intro hserving
  cases h with
  | polling heq =>
      subst heq
      cases hserving
  | forked k hk hn heq =>
      subst heq
      cases hserving
  | ended hended =>
      rw [Process.hasEnded_iff, hserving] at hended
      obtain h | ⟨fault, h⟩ := hended
      · cases h
      · cases h

theorem processStep_of_hasEnded {build : Build} {fd : ℤ} {process : ℕ} {p : Process}
    {turn : ProcessTurn} (h : p.hasEnded) :
  processStep build fd process p turn = (none, p, none)
  := by
  obtain ⟨fds, state⟩ := p
  cases state with
  | exited => rfl
  | crashed fault => rfl
  | polling | forked _ | starting _ | serving _ | reaped => cases h

/-- A turn of the first process. -/
theorem Process.First.step {build : Build} {fds : Descriptors OpenFile} {fd : ℤ} {count : ℕ}
    {p q : Process} {turn : ProcessTurn} {event : Option (Option Event)} {child : Option Process}
    (h : p.First fds count) (hstep : processStep build fd count p turn = (event, q, child)) :
  q.First fds (count + child.toList.length) ∧ event = none ∧
    ∀ c ∈ child, c.Started fds fd count
  := by
  cases h with
  | polling heq =>
      subst heq
      cases turn with
      | poll answer =>
          obtain ⟨⟨q', child'⟩, hok⟩ : ∃ r, ccPolling fds fd answer count = r := ⟨_, rfl⟩
          simp only [processStep, hok] at hstep
          cases hstep
          cases ccPolling_spec hok with
          | goesOn => exact ⟨.polling rfl, rfl, by rintro c ⟨⟩⟩
          | forks hsurvived hlistener hn =>
              refine ⟨.forked count rfl hn rfl, rfl, ?_⟩
              rintro c ⟨⟩
              exact .starting hlistener hn rfl
          | exits => exact ⟨.ended rfl rfl, rfl, by rintro c ⟨⟩⟩
          | overruns => exact ⟨.ended rfl rfl, rfl, by rintro c ⟨⟩⟩
      | resume | start _ | serve _ | finalize | sigChild _ =>
          cases hstep
          exact ⟨.polling rfl, rfl, by rintro c ⟨⟩⟩
  | forked k hk hn heq =>
      subst heq
      cases turn with
      | resume =>
          cases hstep
          refine ⟨.polling ?_, rfl, by rintro c ⟨⟩⟩
          rw [Descriptors.close_install_lowest]
      | poll _ | start _ | serve _ | finalize | sigChild _ =>
          cases hstep
          exact ⟨.forked k hk hn rfl, rfl, by rintro c ⟨⟩⟩
  | ended hended hfds =>
      rw [processStep_of_hasEnded hended] at hstep
      cases hstep
      exact ⟨.ended hended hfds, rfl, by rintro c ⟨⟩⟩

/-! ### The end of a child -/

theorem length_reapOne (s : List Process) :
  (reapOne s).length = s.length
  := by
  induction s with
  | nil => rfl
  | cons p s ih =>
      unfold reapOne
      split
      · rfl
      · rw [List.length_cons, ih, List.length_cons]

theorem getElem?_reapOne {s : List Process} {i : ℕ} {q : Process}
    (h : (reapOne s)[i]? = some q) :
  ∃ p, s[i]? = some p ∧ (q = p ∨ q = p.reap)
  := by
  induction s generalizing i with
  | nil => cases h
  | cons p s ih =>
      unfold reapOne at h
      cases i with
      | zero =>
          split at h
          · cases h
            exact ⟨p, rfl, .inr rfl⟩
          · cases h
            exact ⟨q, rfl, .inl rfl⟩
      | succ i =>
          split at h
          · exact ⟨q, h, .inl rfl⟩
          · exact ih h

/-- What has become of a process after a signal to the first one. -/
inductive Signalled (status : Status) (i : ℕ) (p : Process) : Process → Prop where
  | same : Signalled status i p p
  | reaped (hi : i ≠ 0) : Signalled status i p p.reap
  | strays (hi : i = 0) (hstatus : status = .mapped) (hrunning : ¬ p.hasEnded) :
      Signalled status i p (.crash p.fds .wild)

theorem sigChild_spec {status : Status} {s : List Process} {i : ℕ} {q : Process}
    (h : (sigChild status s)[i]? = some q) :
  ∃ p, s[i]? = some p ∧ Signalled status i p q
  := by
  cases s with
  | nil => cases h
  | cons p children =>
      simp only [sigChild] at h
      split at h
      · exact ⟨q, h, .same⟩
      rename_i hrunning
      cases status with
      | null =>
          cases i with
          | zero => exact ⟨q, h, .same⟩
          | succ i =>
              rw [List.getElem?_cons_succ, List.getElem?_map, Option.map_eq_some_iff] at h
              obtain ⟨c, hc, rfl⟩ := h
              exact ⟨c, hc, .reaped (by omega)⟩
      | unmapped =>
          cases i with
          | zero => exact ⟨q, h, .same⟩
          | succ i =>
              obtain ⟨c, hc, rfl | rfl⟩ := getElem?_reapOne (s := children) h
              · exact ⟨q, hc, .same⟩
              · exact ⟨c, hc, .reaped (by omega)⟩
      | mapped =>
          dsimp only at h
          split at h
          · cases i with
            | zero =>
                cases h
                exact ⟨p, rfl, .strays rfl rfl hrunning⟩
            | succ i =>
                obtain ⟨c, hc, rfl | rfl⟩ := getElem?_reapOne (s := children) h
                · exact ⟨q, hc, .same⟩
                · exact ⟨c, hc, .reaped (by omega)⟩
          · exact ⟨q, h, .same⟩

theorem length_sigChild (status : Status) (s : List Process) :
  (sigChild status s).length = s.length
  := by
  cases s with
  | nil => rfl
  | cons p children =>
      simp only [sigChild]
      split
      · rfl
      cases status with
      | null => simp
      | unmapped => simp [length_reapOne]
      | mapped =>
          dsimp only
          split
          · simp [length_reapOne]
          · rfl

/-- A turn that is no signal to the first process. -/
theorem signalled_of_ne {t : ℕ × ProcessTurn} {s : List Process}
    (h : ∀ status, t ≠ (0, .sigChild status)) :
  signalled t s = s
  := by
  unfold signalled
  split
  · exact absurd rfl (h _)
  · rfl

theorem length_signalled (t : ℕ × ProcessTurn) (s : List Process) :
  (signalled t s).length = s.length
  := by
  unfold signalled
  split
  · apply length_sigChild
  · rfl

/-! ### The processes in a run -/

/-- What holds of the processes of a server that began to listen with `fds`. -/
structure ServerKept (fds : Descriptors OpenFile) (fd : ℤ) (s : List Process) : Prop where
  first : ∀ p, s[0]? = some p → p.First fds s.length
  others : ∀ i p, s[i]? = some p → i ≠ 0 → p.Started fds fd i

/-- The processes after a turn: the one whose turn it was, the others, and the new one. -/
theorem getElem?_set_append {s : List Process} {i j : ℕ} {q p : Process} {child : Option Process}
    (hi : i < s.length) (h : (s.set i q ++ child.toList)[j]? = some p) :
  (j = i ∧ p = q) ∨ (j ≠ i ∧ s[j]? = some p) ∨ (j = s.length ∧ child = some p)
  := by
  by_cases hj : j < s.length
  · rw [List.getElem?_append_left (by rwa [List.length_set])] at h
    by_cases hij : j = i
    · subst hij
      rw [List.getElem?_set_self hj] at h
      cases h
      exact .inl ⟨rfl, rfl⟩
    · rw [List.getElem?_set_ne (fun heq => hij heq.symm)] at h
      exact .inr (.inl ⟨hij, h⟩)
  · rw [List.getElem?_append_right (by rw [List.length_set]; exact not_lt.mp hj),
      List.length_set] at h
    cases child with
    | none => simp at h
    | some c =>
        have hzero : j - s.length = 0 := by
          by_contra hne
          simp [hne] at h
        rw [hzero] at h
        cases h
        exact .inr (.inr ⟨by omega, rfl⟩)

theorem ServerKept.signalled {fds : Descriptors OpenFile} {fd : ℤ} {s : List Process}
    (h : ServerKept fds fd s) (t : ℕ × ProcessTurn) :
  ServerKept fds fd (signalled t s)
  := by
  by_cases hsignal : ∃ status, t = (0, .sigChild status)
  · obtain ⟨status, rfl⟩ := hsignal
    constructor
    · intro q hq
      obtain ⟨p, hp, hcases⟩ := sigChild_spec hq
      have hfirst := h.first p hp
      rw [length_signalled]
      cases hcases with
      | same => exact hfirst
      | reaped hi => exact absurd rfl hi
      | strays =>
          apply Process.First.ended rfl
          cases hfirst with
          | polling heq =>
              subst heq
              rfl
          | forked k hk hn heq =>
              subst heq
              rfl
          | ended hended hfds =>
              unfold Process.crash
              rw [hfds]
              rfl
    · intro i q hq hi
      obtain ⟨p, hp, hcases⟩ := sigChild_spec hq
      cases hcases with
      | same => exact h.others i _ hp hi
      | reaped => exact (h.others i p hp hi).reap
      | strays hzero => exact absurd hzero hi
  · rw [signalled_of_ne (fun status heq => hsignal ⟨status, heq⟩)]
    exact h

theorem serverStep_of_none {build : Build} {fd : ℤ} {s : List Process} {t : ℕ × ProcessTurn}
    (h : s[t.1]? = none) :
  serverStep build fd s t = (none, s)
  := by
  unfold serverStep
  rw [h]

theorem serverStep_of_some {build : Build} {fd : ℤ} {s : List Process} {t : ℕ × ProcessTurn}
    {p q : Process} {event : Option (Option Event)} {child : Option Process}
    (h : s[t.1]? = some p) (hstep : processStep build fd s.length p t.2 = (event, q, child)) :
  serverStep build fd s t
    = (event.map (fun e => (t.1, e)), signalled t (s.set t.1 q ++ child.toList))
  := by
  unfold serverStep
  rw [h]
  simp only [hstep]

theorem ServerKept.step {build : Build} {fds : Descriptors OpenFile} {fd : ℤ} {s : List Process}
    (h : ServerKept fds fd s) (hlistening : Listening fds fd.toNat) (t : ℕ × ProcessTurn) :
  ServerKept fds fd (serverStep build fd s t).2
  := by
  cases hp : s[t.1]? with
  | none =>
      rw [serverStep_of_none hp]
      exact h
  | some p =>
      obtain ⟨⟨event, q, child⟩, hstep⟩ :
        ∃ r, processStep build fd s.length p t.2 = r := ⟨_, rfl⟩
      have hlt : t.1 < s.length := (List.getElem?_eq_some_iff.mp hp).1
      rw [serverStep_of_some hp hstep]
      apply ServerKept.signalled
      have hlength : (s.set t.1 q ++ child.toList).length = s.length + child.toList.length := by
        rw [List.length_append, List.length_set]
      have hchild : ∀ c, child = some c → t.1 = 0 ∧ c.Started fds fd s.length := by
        rintro c rfl
        by_cases hzero : t.1 = 0
        · rw [hzero] at hp
          exact ⟨hzero, ((h.first p hp).step hstep).2.2 c rfl⟩
        · cases ((h.others t.1 p hp hzero).step hlistening hstep).2
      constructor
      · intro p' hp'
        rw [hlength]
        obtain ⟨hzero, rfl⟩ | ⟨hne, hold⟩ | ⟨hzero, -⟩ := getElem?_set_append hlt hp'
        · rw [← hzero] at hp
          exact ((h.first p hp).step hstep).1
        · cases child with
          | none => exact h.first p' hold
          | some c => exact absurd (hchild c rfl).1 hne.symm
        · omega
      · intro i p' hp' hi
        obtain ⟨rfl, rfl⟩ | ⟨-, hold⟩ | ⟨rfl, hnew⟩ := getElem?_set_append hlt hp'
        · exact ((h.others _ p hp hi).step hlistening hstep).1
        · exact h.others i p' hold hi
        · exact (hchild p' hnew).2

theorem ServerKept.run {build : Build} {fds : Descriptors OpenFile} {fd : ℤ} {s : List Process}
    (h : ServerKept fds fd s) (hlistening : Listening fds fd.toNat)
    (turns : List (ℕ × ProcessTurn)) :
  ServerKept fds fd (Machine.trace (serverStep build fd) s turns).2
  := by
  induction turns generalizing s with
  | nil => exact h
  | cons t turns ih =>
      apply ih
      apply h.step hlistening

/-! ### From the start of the server -/

/-- All the calls that set up the listening socket succeed. -/
def Setup.Succeeds (setup : Setup) : Prop :=
  setup.socket ∧ setup.reuseaddr ∧ setup.nodelay ∧ setup.getfl ∧ setup.setfl ∧ setup.bind ∧
    setup.listen

/-- The server was started with nothing of its own open. -/
def Inherited (d : Descriptors OpenFile) : Prop :=
  ∀ n f, d.entry n = some f → f = .inherited

theorem serverStart_eq (setup : Setup) (fds : Descriptors OpenFile) :
  serverStart setup fds = ((ccServerConnCreate setup fds).2.1,
    [⟨(ccServerConnCreate setup fds).2.2, .polling⟩])
  := by
  simp only [serverStart, ccInitOfSocket, ccInitListenfd, ccConnInit]
  repeat' split
  all_goals rfl

theorem ccSetSocketReuseaddr_neg {setup : Setup} :
  ccSetSocketReuseaddr setup < 0 ↔ ¬ setup.reuseaddr
  := by
  cases hok : setup.reuseaddr <;> simp [ccSetSocketReuseaddr, hok]

theorem ccSetSocketNodelay_neg {setup : Setup} :
  ccSetSocketNodelay setup < 0 ↔ ¬ setup.nodelay
  := by
  cases hok : setup.nodelay <;> simp [ccSetSocketNodelay, hok]

theorem ccSetSocketNonblocking_neg {setup : Setup} :
  ccSetSocketNonblocking setup < 0 ↔ ¬ (setup.getfl ∧ setup.setfl)
  := by
  cases hget : setup.getfl <;> cases hset : setup.setfl <;>
    simp [ccSetSocketNonblocking, hget, hset]

theorem entry_listenOn_self {fds : Descriptors OpenFile} {fd : ℕ} (h : fd < fds.bound) :
  (listenOn fds fd).entry fd = some .listener
  := by
  rw [listenOn, dif_pos h]
  apply Descriptors.entry_install_self

theorem entry_listenOn_of_ne {fds : Descriptors OpenFile} {fd n : ℕ} (hn : n ≠ fd) :
  (listenOn fds fd).entry n = fds.entry n
  := by
  unfold listenOn
  split
  · apply Descriptors.entry_install_of_ne hn
  · rfl

theorem bound_listenOn {fds : Descriptors OpenFile} {fd : ℕ} :
  (listenOn fds fd).bound = fds.bound
  := by
  unfold listenOn
  split
  · rfl
  · rfl

/-- The listening socket has the lowest descriptor that was free, and the others are as they
were; or there is none. -/
theorem ccServerConnCreate_spec (setup : Setup) (d : Descriptors OpenFile) {ret fd : ℤ}
    {fds : Descriptors OpenFile} (h : ccServerConnCreate setup d = (ret, fd, fds)) :
  (setup.Succeeds ∧ d.lowest < d.bound ∧ fd = d.lowest ∧ fds.bound = d.bound ∧
      fds.entry d.lowest = some .listener ∧ ∀ n, n ≠ d.lowest → fds.entry n = d.entry n) ∨
    (¬ (setup.Succeeds ∧ d.lowest < d.bound) ∧
      ∀ n f, fds.entry n = some f → f = .socket ∨ d.entry n = some f)
  := by
  by_cases hsocket : setup.socket = true ∧ d.lowest < d.bound
  · obtain ⟨hsocket, hn⟩ := hsocket
    have hfd : ccSetSocketFd setup d = ((d.lowest : ℤ), d.install d.lowest .socket hn) := by
      simp only [ccSetSocketFd, hsocket, if_true, Descriptors.new_of_lt hn]
    have hpos : ¬ ((d.lowest : ℤ) < 0) := by omega
    have hold : ∀ n f, (d.install d.lowest .socket hn).entry n = some f →
        f = .socket ∨ d.entry n = some f := by
      intro n f hf
      obtain ⟨-, rfl⟩ | ⟨-, hf⟩ := Descriptors.entry_install hn hf
      · exact .inl rfl
      · exact .inr hf
    have hclosed : ∀ n f, ((d.install d.lowest .socket hn).close d.lowest).entry n = some f →
        f = .socket ∨ d.entry n = some f := by
      intro n f hf
      exact hold n f (Descriptors.entry_of_close hf).2
    simp only [ccServerConnCreate, hfd, hpos, if_false, Int.toNat_natCast] at h
    by_cases hsucceeds : setup.Succeeds
    · left
      obtain ⟨-, hreuse, hnodelay, hgetfl, hsetfl, hbind, hlisten⟩ := hsucceeds
      simp only [ccSetSocketReuseaddr, ccSetSocketNodelay, ccSetSocketNonblocking, hreuse,
        hnodelay, hgetfl, hsetfl, hbind, hlisten, if_true, not_true_eq_false, if_false,
        lt_irrefl] at h
      cases h
      refine ⟨⟨hsocket, hreuse, hnodelay, hgetfl, hsetfl, hbind, hlisten⟩, hn, rfl,
        bound_listenOn, entry_listenOn_self hn, fun n hne => ?_⟩
      rw [entry_listenOn_of_ne hne, Descriptors.entry_install_of_ne hne]
    · refine .inr ⟨fun hs => hsucceeds hs.1, ?_⟩
      split at h
      · cases h
        exact hold
      split at h
      · cases h
        exact hold
      split at h
      · cases h
        exact hold
      split at h
      · cases h
        exact hclosed
      split at h
      · cases h
        exact hclosed
      · rename_i hreuse hnodelay hnonblocking hbind hlisten
        rw [ccSetSocketReuseaddr_neg, not_not] at hreuse
        rw [ccSetSocketNodelay_neg, not_not] at hnodelay
        rw [ccSetSocketNonblocking_neg, not_not] at hnonblocking
        exact absurd ⟨hsocket, hreuse, hnodelay, hnonblocking.1, hnonblocking.2,
          not_not.mp hbind, not_not.mp hlisten⟩ hsucceeds
  · refine .inr ⟨fun hs => hsocket ⟨hs.1.1, hs.2⟩, ?_⟩
    have hfd : ccSetSocketFd setup d = (-1, d) := by
      unfold ccSetSocketFd
      by_cases hok : setup.socket = true
      · have hnone : d.new .socket = none :=
          Descriptors.new_eq_none.mpr (le_antisymm Descriptors.lowest_le
            (not_lt.mp (fun hlt => hsocket ⟨hok, hlt⟩)))
        rw [if_pos hok, hnone]
      · rw [if_neg hok]
    simp only [ccServerConnCreate, hfd] at h
    cases h
    exact fun n f hf => .inr hf

theorem ccServerConnCreate_listening {setup : Setup} {d fds : Descriptors OpenFile} {ret fd : ℤ}
    (hinherited : Inherited d) (h : ccServerConnCreate setup d = (ret, fd, fds)) :
  Listening fds fd.toNat
  := by
  obtain ⟨-, hn, rfl, -, hlistener, hothers⟩ | ⟨-, hold⟩ := ccServerConnCreate_spec setup d h
  · constructor
    · intro n hentry
      by_contra hne
      rw [hothers n (fun heq => hne (by rw [heq, Int.toNat_natCast]))] at hentry
      cases hinherited n _ hentry
    · intro n k hentry
      by_cases heq : n = d.lowest
      · rw [heq, hlistener] at hentry
        cases hentry
      · rw [hothers n heq] at hentry
        cases hinherited n _ hentry
  · constructor
    · intro n hentry
      obtain hf | hf := hold n _ hentry
      · cases hf
      · cases hinherited n _ hf
    · intro n k hentry
      obtain hf | hf := hold n _ hentry
      · cases hf
      · cases hinherited n _ hf

theorem serverRun_eq {build : Build} {setup : Setup} {d fds : Descriptors OpenFile} {ret fd : ℤ}
    (h : ccServerConnCreate setup d = (ret, fd, fds)) (turns : List (ℕ × ProcessTurn)) :
  serverRun build setup d turns = Machine.trace (serverStep build fd) [⟨fds, .polling⟩] turns
  := by
  rw [serverRun, serverStart_eq, h]

theorem serverKept_start {fds : Descriptors OpenFile} {fd : ℤ} :
  ServerKept fds fd [⟨fds, .polling⟩]
  := by
  constructor
  · rintro p ⟨⟩
    exact .polling rfl
  · intro i p hp hi
    cases i with
    | zero => exact absurd rfl hi
    | succ i => cases hp

theorem serverRun_kept {build : Build} {setup : Setup} {d fds : Descriptors OpenFile} {ret fd : ℤ}
    (hinherited : Inherited d) (h : ccServerConnCreate setup d = (ret, fd, fds))
    (turns : List (ℕ × ProcessTurn)) :
  ServerKept fds fd (serverRun build setup d turns).2
  := by
  rw [serverRun_eq h]
  exact serverKept_start.run (ccServerConnCreate_listening hinherited h) turns

/-- A process that serves a connection has begun, and was started by one that listens. -/
theorem ServerKept.serving {fds : Descriptors OpenFile} {fd : ℤ} {s : List Process}
    (h : ServerKept fds fd s) {i : ℕ} {p : Process} (hp : s[i]? = some p) {service : Service}
    (hserving : p.state = .serving service) :
  fds.entry fd.toNat = some .listener ∧ p.Own fds i
  := by
  have hi : i ≠ 0 := by
    rintro rfl
    exact (h.first p hp).not_serving hserving
  cases h.others i p hp hi with
  | starting hlistener hn heq =>
      rw [heq] at hserving
      cases hserving
  | begun hlistener hown => exact ⟨hlistener, hown⟩

/-- A connection is open in a process that may have it: in the one that was started for it, or in
the first one, behind `fork`, until it closes it. -/
def MayHave (s : List Process) (i : ℕ) (p : Process) (n k : ℕ) : Prop :=
  (i ≠ 0 ∧ k = i) ∨ (i = 0 ∧ p.state = .forked n ∧ k + 1 = s.length)

/-- In any run, the first process has the descriptors it began to listen with for as long as it
listens, and besides them at most the connection that it has just started a process for. No
other process has the listening socket but one that has yet to begin. A connection is open in
the process that was started for it alone, and in the first one until that closes it, under one
descriptor. -/
theorem descriptors_kept {d : Descriptors OpenFile} (hinherited : Inherited d) (build : Build)
    (setup : Setup) (turns : List (ℕ × ProcessTurn)) {os : List (Option (ℕ × Option Event))}
    {s : List Process} (hrun : serverRun build setup d turns = (os, s)) :
  (∀ p, s[0]? = some p → p.state = .polling → p.fds = (ccServerConnCreate setup d).2.2) ∧
    (∀ p n, s[0]? = some p → p.state = .forked n →
      p.fds.close n = (ccServerConnCreate setup d).2.2) ∧
    (∀ i p n, s[i]? = some p → p.fds.entry n = some .listener →
      i = 0 ∨ ∃ acceptFd, p.state = .starting acceptFd) ∧
    (∀ i p n k, s[i]? = some p → p.fds.entry n = some (.connection k) →
      MayHave s i p n k ∧ ∀ m, p.fds.entry m = some (.connection k) → m = n)
  := by
  obtain ⟨⟨ret, fd, fds⟩, hcreate⟩ : ∃ r, ccServerConnCreate setup d = r := ⟨_, rfl⟩
  have hlistening := ccServerConnCreate_listening hinherited hcreate
  have hkept : ServerKept fds fd (serverRun build setup d turns).2 :=
    serverRun_kept hinherited hcreate turns
  rw [hrun] at hkept
  rw [hcreate]
  refine ⟨?_, ?_, ?_, ?_⟩
  · intro p hp hstate
    cases hkept.first p hp with
    | polling heq => rw [heq]
    | forked k hk hn heq =>
        rw [heq] at hstate
        cases hstate
    | ended hended =>
        rw [Process.hasEnded, hstate] at hended
        cases hended
  · intro p n hp hstate
    cases hkept.first p hp with
    | polling heq =>
        rw [heq] at hstate
        cases hstate
    | forked k hk hn heq =>
        rw [heq] at hstate ⊢
        cases hstate
        exact Descriptors.close_install_lowest hn _
    | ended hended =>
        rw [Process.hasEnded, hstate] at hended
        cases hended
  · intro i p n hp hn
    by_cases hi : i = 0
    · exact .inl hi
    · cases hkept.others i p hp hi with
      | starting hlistener hn heq => exact .inr ⟨_, by rw [heq]⟩
      | begun hlistener hown => exact absurd hn (hown.listener n)
  · intro i p n k hp hentry
    by_cases hi : i = 0
    · subst hi
      cases hkept.first p hp with
      | polling heq =>
          rw [heq] at hentry
          exact absurd hentry (hlistening.connection n k)
      | forked k' hk hn heq =>
          rw [heq] at hentry ⊢
          obtain ⟨rfl, rfl⟩ := hlistening.withConnection hn hentry
          exact ⟨.inr ⟨rfl, rfl, hk⟩, fun m hm => (hlistening.withConnection hn hm).1⟩
      | ended hended hfds =>
          rw [hfds] at hentry
          cases hentry
    · cases hkept.others i p hp hi with
      | starting hlistener hn heq =>
          rw [heq] at hentry ⊢
          obtain ⟨rfl, rfl⟩ := hlistening.withConnection hn hentry
          exact ⟨.inl ⟨hi, rfl⟩, fun m hm => (hlistening.withConnection hn hm).1⟩
      | begun hlistener hown =>
          obtain rfl := hown.own n k hentry
          exact ⟨.inl ⟨hi, rfl⟩, fun m hm => hown.once m n hm hentry⟩

/-- A switch has been accepted and given a process, which has begun. -/
theorem descriptors_kept_streams :
  ∃ os s, serverRun .low .welcome (streamsFrom 0) welcomeTurns = (os, s) ∧
    (∀ p, s[0]? = some p → p.state = .polling →
      p.fds = (ccServerConnCreate .welcome (streamsFrom 0)).2.2) ∧
    (∀ p n, s[0]? = some p → p.state = .forked n →
      p.fds.close n = (ccServerConnCreate .welcome (streamsFrom 0)).2.2) ∧
    (∀ i p n, s[i]? = some p → p.fds.entry n = some .listener →
      i = 0 ∨ ∃ acceptFd, p.state = .starting acceptFd) ∧
    (∀ i p n k, s[i]? = some p → p.fds.entry n = some (.connection k) →
      MayHave s i p n k ∧ ∀ m, p.fds.entry m = some (.connection k) → m = n)
  := ⟨_, _, rfl, descriptors_kept (inherited_streamsFrom 0) .low .welcome welcomeTurns rfl⟩

/-- A server that was started with two descriptors too few below 3 gives new connections one of
these. -/
theorem ccAcceptFd_le_lowest {d fds : Descriptors OpenFile}
    (hlistener : fds.entry d.lowest = some .listener)
    (hothers : ∀ n, n ≠ d.lowest → fds.entry n = d.entry n) :
  ccAcceptFd ≤ fds.lowest ↔
    ∀ n m, n < m → m < ccAcceptFd → (d.entry n).isSome ∨ (d.entry m).isSome
  := by
  constructor
  · intro hle n m hnm hm
    by_cases hn : n = d.lowest
    · right
      rw [← hothers m (by omega)]
      apply Descriptors.isSome_of_lt_lowest
      omega
    · left
      rw [← hothers n hn]
      apply Descriptors.isSome_of_lt_lowest
      omega
  · intro h
    apply Descriptors.le_lowest_of
    intro k hk
    by_cases heq : k = d.lowest
    · rw [heq, hlistener]
      rfl
    · rw [hothers k heq]
      by_contra hfree
      have hle : d.lowest ≤ k := Descriptors.lowest_le_of_free (by simpa using hfree)
      obtain hl | hl := h d.lowest k (lt_of_le_of_ne hle (fun h => heq h.symm)) hk
      · rw [Descriptors.entry_lowest] at hl
        cases hl
      · exact hfree hl

/-- The descriptor in the record of a connection, which every read and write goes through, is
that of the connection exactly when the server was started with at most one of the descriptors
below 3 closed. Otherwise it is closed. -/
theorem recorded_open_iff {d : Descriptors OpenFile} (hinherited : Inherited d) (build : Build)
    (setup : Setup) (turns : List (ℕ × ProcessTurn)) {os : List (Option (ℕ × Option Event))}
    {s : List Process} (hrun : serverRun build setup d turns = (os, s)) {i : ℕ} {p : Process}
    (hp : s[i]? = some p) {service : Service} (hserving : p.state = .serving service) :
  (p.fds.entry service.recorded = some (.connection i) ↔
      ∀ n m, n < m → m < ccAcceptFd → (d.entry n).isSome ∨ (d.entry m).isSome) ∧
    (p.fds.entry service.recorded ≠ some (.connection i) → p.fds.entry service.recorded = none)
  := by
  obtain ⟨⟨ret, fd, fds⟩, hcreate⟩ : ∃ r, ccServerConnCreate setup d = r := ⟨_, rfl⟩
  have hkept : ServerKept fds fd (serverRun build setup d turns).2 :=
    serverRun_kept hinherited hcreate turns
  rw [hrun] at hkept
  obtain ⟨hstarted, hown⟩ := hkept.serving hp hserving
  obtain ⟨-, -, -, hhigh, hlow⟩ := hown.serving _ hserving
  obtain ⟨-, -, -, -, hlistener, hothers⟩ | ⟨-, hold⟩ := ccServerConnCreate_spec setup d hcreate
  · rw [← ccAcceptFd_le_lowest hlistener hothers]
    refine ⟨⟨fun hopen => ?_, hhigh⟩, fun hclosed => ?_⟩
    · by_contra hlt
      rw [hlow (not_le.mp hlt)] at hopen
      cases hopen
    · apply hlow
      by_contra hle
      exact hclosed (hhigh (not_lt.mp hle))
  · obtain hf | hf := hold _ _ hstarted
    · cases hf
    · cases hinherited _ _ hf

/-- A server that was started with the descriptors 0 and 1 closed. -/
theorem recorded_open_iff_closed :
  ∃ os s p service, serverRun .low .welcome (streamsFrom 2) welcomeTurns = (os, s) ∧
    s[1]? = some p ∧ p.state = .serving service ∧ service.recorded = 1 ∧ service.acceptFd = 3 ∧
    (p.fds.entry service.recorded = some (.connection 1) ↔ ∀ n m, n < m → m < ccAcceptFd →
      ((streamsFrom 2).entry n).isSome ∨ ((streamsFrom 2).entry m).isSome) ∧
    (p.fds.entry service.recorded ≠ some (.connection 1) → p.fds.entry service.recorded = none)
  := ⟨_, _, _, _, rfl, rfl, rfl, rfl, rfl, recorded_open_iff (inherited_streamsFrom 2) .low
    .welcome welcomeTurns rfl rfl rfl⟩

end CcController
