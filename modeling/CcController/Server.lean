import CcController.Lib.Descriptors
import CcController.Turns

/-!
# The server and its processes

The server listens for switches, and has a process of its own for each one that connects: it
accepts the connection, calls `fork` and closes the connection again, and the new process closes
the listening socket and goes on with the connection. So the processes of a server are a list to
which the first one adds, and a run of the server is a sequence of turns, in any order, in each
of which one of them goes on until it is next about to wait, or has called `fork`. A new process
has one turn from `fork` to its loop.

A process has its own descriptors and its own memory. The first one is sent a signal when another
has ended, and what its handler `sig_child` does then depends on a pointer that is not set.
-/

namespace CcController

/-! ### Setting up the listening socket -/

/-- What a descriptor is open on. -/
inductive OpenFile where
  /-- what the server was started with -/
  | inherited
  /-- a socket that nobody can connect to yet -/
  | socket
  | listener
  /-- the connection that the process with this number was started for -/
  | connection (process : ℕ)
  deriving DecidableEq

/-- Which of the calls that set up the listening socket succeed. -/
structure Setup where
  socket : Bool
  reuseaddr : Bool
  nodelay : Bool
  getfl : Bool
  setfl : Bool
  bind : Bool
  listen : Bool

/-- The new descriptor, or -1. -/
def ccSetSocketFd (setup : Setup) (fds : Descriptors OpenFile) : ℤ × Descriptors OpenFile :=
  match if setup.socket then fds.new .socket else none with
  | none => (-1, fds)
  | some (fd, fds) => (fd, fds)

def ccSetSocketReuseaddr (setup : Setup) : ℤ :=
  if setup.reuseaddr then ccENone else ccEErr

def ccSetSocketNodelay (setup : Setup) : ℤ :=
  if setup.nodelay then ccENone else ccEErr

def ccSetSocketNonblocking (setup : Setup) : ℤ :=
  if ¬ setup.getfl then ccEErr
  else if ¬ setup.setfl then ccEErr
  else ccENone

/-- `listen` makes a listener of the socket that is open under `fd`. -/
def listenOn (fds : Descriptors OpenFile) (fd : ℕ) : Descriptors OpenFile :=
  if h : fd < fds.bound then fds.install fd .listener h else fds

/-- What is returned, what is in `cc_socket->fd`, and the descriptors. A socket whose options
cannot be set stays open. -/
def ccServerConnCreate (setup : Setup) (fds : Descriptors OpenFile) :
    ℤ × ℤ × Descriptors OpenFile :=
  let (fd, fds) := ccSetSocketFd setup fds
  if fd < 0 then (ccEErr, fd, fds)
  else if ccSetSocketReuseaddr setup < 0 then (ccEErr, fd, fds)
  else if ccSetSocketNodelay setup < 0 then (ccEErr, fd, fds)
  else if ccSetSocketNonblocking setup < 0 then (ccEErr, fd, fds)
  else if ¬ setup.bind then (ccEErr, fd, fds.close fd.toNat)
  else if ¬ setup.listen then (ccEErr, fd, fds.close fd.toNat)
  else (fd, fd, listenOn fds fd.toNat)

def ccConnInit (setup : Setup) (fds : Descriptors OpenFile) : ℤ × ℤ × Descriptors OpenFile :=
  let (ret, fd, fds) := ccServerConnCreate setup fds
  if ret < 0 then (ccEErr, fd, fds) else (ccENone, fd, fds)

def ccInitListenfd (setup : Setup) (fds : Descriptors OpenFile) : ℤ × ℤ × Descriptors OpenFile :=
  let (ret, fd, fds) := ccConnInit setup fds
  if ret < 0 then (ccEErr, fd, fds) else (ccENone, fd, fds)

def ccInitOfSocket (setup : Setup) (fds : Descriptors OpenFile) : ℤ × ℤ × Descriptors OpenFile :=
  let (ret, fd, fds) := ccInitListenfd setup fds
  if ret < 0 then (ccEErr, fd, fds) else (ccENone, fd, fds)

/-! ### The processes -/

/-- What a process goes on with in the loop of `cc_conn_accept`. -/
structure Service where
  /-- the descriptor in the record of the connection -/
  recorded : ℕ
  /-- the descriptor that the loop waits on -/
  acceptFd : ℕ
  /-- the bytes that the switch has been greeted with -/
  greeting : List UInt8
  connection : Connection

/-- Where a process is. -/
inductive ProcessState where
  /-- in the loop of `cc_polling` -/
  | polling
  /-- behind `fork` in `cc_conn_accept`, where it has yet to close the connection -/
  | forked (acceptFd : ℕ)
  /-- behind `fork` in `cc_conn_accept`, as the new process -/
  | starting (acceptFd : ℕ)
  /-- in the loop of `cc_conn_accept` -/
  | serving (service : Service)
  | exited
  | crashed (fault : Fault)
  /-- ended, and waited for by the process that started it -/
  | reaped

structure Process where
  fds : Descriptors OpenFile
  state : ProcessState

/-- A process that has ended leaves nothing open. -/
def Process.exit (fds : Descriptors OpenFile) : Process where
  fds := Descriptors.empty fds.bound
  state := .exited

def Process.crash (fds : Descriptors OpenFile) (fault : Fault) : Process where
  fds := Descriptors.empty fds.bound
  state := .crashed fault

/-- Where a program has what `cc_init_of.c` is told about by functions it does not declare. -/
structure Build where
  /-- the greeting of a new process -/
  helloAt : UInt64
  /-- the table of handlers -/
  ccRecvOpsAt : UInt64

/-- An address that a function returns which has not been declared: it is taken for an `int`. -/
def viaInt (address : UInt64) : UInt64 :=
  address.toUInt32.toInt32.toInt64.toUInt64

/-- A heap that begins in the first 2 GiB is found again, and one that does not is not. -/
example : viaInt 0x00602010 = 0x00602010 ∧ viaInt 0x555555559010 ≠ 0x555555559010 := by decide

/-- What a round of the loop of `cc_polling` finds. -/
structure PollAnswer where
  select : SelectResult
  /-- whether there is a switch to accept -/
  accepts : Bool
  forks : Bool

/-- What a new process finds before its loop. -/
structure StartAnswer where
  host : Host
  mallocs : ℕ → Bool
  writes : ℕ → WriteResult

/-- What the pointer `status` of `sig_child`, which is not set, points to. -/
inductive Status where
  /-- it is null -/
  | null
  /-- no memory that can be written to -/
  | unmapped
  /-- some memory of the process -/
  | mapped
  deriving DecidableEq

/-- Descriptors that a set for `select` has room for. -/
abbrev fdSetsize : ℕ := 1024

abbrev ccAcceptFd : ℕ := 3

/-- What a call of `select` for one descriptor comes to. It fails if that is not open. -/
def selectFd (fds : Descriptors OpenFile) (fd : ℕ) (select : SelectResult) : SelectResult :=
  if (fds.entry fd).isSome then select else .failed

/-- The descriptor of a new connection, if there is one to be had from `fd`. -/
def accept (fds : Descriptors OpenFile) (fd : ℕ) (accepts : Bool) (process : ℕ) :
    Option (ℕ × Descriptors OpenFile) :=
  if accepts ∧ fds.entry fd = some .listener then fds.new (.connection process) else none

/-- The blocks of `create_message_queue`. -/
def allocMessageQueue : Action Unit := do
  mallocUnchecked
  mallocUnchecked
  mallocUnchecked

/-- The blocks of `pool_init`. -/
def allocPool : Action Unit := do
  mallocUnchecked
  mallocUnchecked
  mallocUnchecked

/-- The blocks of `cc_init_xid_table`. Without them the process would stop when it first uses
the table; here it does so at once. -/
def allocXidTable : Action Unit := do
  mallocUnchecked
  mallocUnchecked

/-- The memory a connection starts with. -/
def ccInitSwInfo : Action Unit := do
  allocMessageQueue
  allocMessageQueue
  allocPool
  allocXidTable

/-- What a new process does before its loop, apart from its descriptors: it greets the switch,
and sets up the connection. The greeting is looked at through an address that was an `int`. -/
def greet (host : Host) (helloAt : UInt64) : Action Unit := do
  let ofph ← ccCreateHello host 1
  match ofph with
  | none => Program.stop .null
  | some ofph =>
    if viaInt helloAt ≠ helloAt then Program.stop .wild else do
    let bytes ← look host ofph (bcopy 0 8)
    let _ ← writeSocket bytes
    mallocUnchecked
    ccInitSwInfo

/-- What a new process does with its descriptors. -/
def moveUp (fds : Descriptors OpenFile) (acceptFd : ℕ) : ℕ × Descriptors OpenFile :=
  if acceptFd < ccAcceptFd then (ccAcceptFd, (fds.dup2 acceptFd ccAcceptFd).close acceptFd)
  else (acceptFd, fds)

/-- The table of handlers is registered under an address that was an `int`. -/
def Connection.register (connection : Connection) (ccRecvOpsAt : UInt64) : Connection :=
  { connection with world :=
    { connection.world with recvHandler := decide (viaInt ccRecvOpsAt ≠ 0) } }

/-- The connection that a new process goes on with. -/
def Connection.begin (build : Build) (world : World) : Connection :=
  (Connection.start world.mallocs world.writes).register build.ccRecvOpsAt

/-- A new process, from `fork` to its loop. -/
def serve (build : Build) (fds : Descriptors OpenFile) (fd acceptFd : ℕ) (answer : StartAnswer) :
    Process :=
  match (greet answer.host build.helloAt).run (World.fresh answer.mallocs answer.writes) with
  | .error fault => .crash fds fault
  | .ok (_, world) =>
    let (acceptFd', fds) := moveUp (fds.close fd) acceptFd
    if fdSetsize ≤ acceptFd' then .crash fds .overrun
    else {
      fds := fds
      state := .serving {
        recorded := acceptFd
        acceptFd := acceptFd'
        greeting := world.written
        connection := .begin build world } }

/-- What `cc_conn_accept` comes to: it returns, or it has started a process. -/
inductive Accepted where
  | returned (ret : ℤ)
  | forked (acceptFd : ℕ)

def ccConnAccept (fds : Descriptors OpenFile) (fd : ℕ) (answer : PollAnswer) (process : ℕ) :
    Accepted × Descriptors OpenFile :=
  match accept fds fd answer.accepts process with
  | none => (.returned ccEErr, fds)
  | some (acceptFd, fds) =>
    -- the last descriptor that is let through has no room in a set
    if acceptFd > fdSetsize then (.returned ccENone, fds.close acceptFd)
    else if ¬ answer.forks then (.returned ccEErr, fds.close acceptFd)
    else (.forked acceptFd, fds)

/-- A round of the loop of `cc_polling`, up to `fork` if it comes to that. When it returns, so
does `main`. A process that is started has the descriptors of the one that starts it. -/
def ccPolling (fds : Descriptors OpenFile) (fd : ℤ) (answer : PollAnswer) (process : ℕ) :
    Process × Option Process :=
  if fd < 0 ∨ fdSetsize ≤ fd then (.crash fds .overrun, none)
  else
    match selectFd fds fd.toNat answer.select with
    | .failed => (.exit fds, none)
    | .interrupted => (⟨fds, .polling⟩, none)
    | .timeout => (⟨fds, .polling⟩, none)
    | .readable =>
      match ccConnAccept fds fd.toNat answer process with
      | (.returned ret, fds) => (if ret < 0 then .exit fds else ⟨fds, .polling⟩, none)
      | (.forked acceptFd, fds) => (⟨fds, .forked acceptFd⟩, some ⟨fds, .starting acceptFd⟩)

/-- A turn, as it is when the descriptor that the main thread waits on may be closed. -/
def Turn.on (isOpen : Bool) : Turn → Turn
  | .main host answer =>
    .main host { answer with select := if isOpen then answer.select else .failed }
  | .worker host => .worker host

/-- The switch over the type has a case for it, in which it looks at the table of handlers. -/
def HasCase (type : UInt8) : Prop :=
  type ∈ [ofptHello, ofptEchoRequest, ofptEchoReply, ofptError, ofptPacketIn, ofptVendor,
    ofptPortStatus, ofptFlowRemoved, ofptStatsReply, ofptGetConfigReply]

instance {type : UInt8} : Decidable (HasCase type) :=
  inferInstanceAs (Decidable (type ∈ _))

/-- The type of the message that is to be handled in the turn. -/
def Connection.typeInHand (connection : Connection) : Turn → Option UInt8
  | .main _ _ => none
  | .worker host =>
    match connection.worker with
    | .atHandler recvBuf => if recvBuf.data.isSome then some (recvBuf.memory host 1) else none
    | _ => none

/-- The turn looks at the table of handlers, to which the address does not lead. -/
def Strays (build : Build) (connection : Connection) (turn : Turn) : Prop :=
  viaInt build.ccRecvOpsAt ≠ build.ccRecvOpsAt ∧ ∃ type ∈ connection.typeInHand turn, HasCase type

instance {build : Build} {connection : Connection} {turn : Turn} :
    Decidable (Strays build connection turn) :=
  inferInstanceAs (Decidable (_ ∧ _))

/-- A turn of a process that serves a connection. -/
def serveTurn (build : Build) (fds : Descriptors OpenFile) (service : Service) (turn : Turn) :
    Option (Option Event) × Process :=
  if Strays build service.connection turn then (none, .crash fds .wild)
  else
    match connectionStep service.connection (turn.on (fds.entry service.acceptFd).isSome) with
    | .error fault => (none, .crash fds fault)
    | .ok (event, connection) =>
      (some event, ⟨fds, .serving { service with connection := connection }⟩)

/-- What a process finds when it is its turn. -/
inductive ProcessTurn where
  | poll (answer : PollAnswer)
  /-- close the connection behind `fork` -/
  | resume
  /-- begin behind `fork` -/
  | start (answer : StartAnswer)
  | serve (turn : Turn)
  /-- `cc_finalize_sw_info`, after the loop -/
  | finalize
  /-- a signal that a child has ended -/
  | sigChild (status : Status)

def Connection.isEnded (connection : Connection) : Bool :=
  match connection.main with
  | .ended => true
  | _ => false

/-- A turn of a process, with what it lets be seen and the process it starts. A turn that does
not fit where the process is changes nothing. When the main thread of a connection has left its
loop, it goes back to that of `cc_polling`. -/
def processStep (build : Build) (fd : ℤ) (process : ℕ) (p : Process) (turn : ProcessTurn) :
    Option (Option Event) × Process × Option Process :=
  match p.state, turn with
  | .polling, .poll answer => (none, ccPolling p.fds fd answer process)
  | .forked acceptFd, .resume => (none, ⟨p.fds.close acceptFd, .polling⟩, none)
  | .starting acceptFd, .start answer => (none, serve build p.fds fd.toNat acceptFd answer, none)
  | .serving service, .serve turn =>
    let (event, p') := serveTurn build p.fds service turn
    (event, p', none)
  | .serving service, .finalize =>
    if service.connection.isEnded then (none, ⟨p.fds, .polling⟩, none) else (none, p, none)
  | _, _ => (none, p, none)

/-- The process has ended, and has not been waited for. -/
def Process.hasEnded (p : Process) : Bool :=
  match p.state with
  | .exited => true
  | .crashed _ => true
  | _ => false

def Process.reap (p : Process) : Process :=
  if p.hasEnded then { p with state := .reaped } else p

/-- What a call of `waitpid` does that finds a process which has ended. -/
def reapOne : List Process → List Process
  | [] => []
  | p :: s => if p.hasEnded then p.reap :: s else p :: reapOne s

/-- `sig_child` in the first process, of which the others are the children. The loop goes on for
as long as `waitpid` finds a process that has ended and can store what has become of it. What it
stores through a pointer that is not set may be anything of the program. -/
def sigChild (status : Status) : List Process → List Process
  | [] => []
  | p :: children =>
    if p.hasEnded then p :: children
    else
      match status with
      | .null => p :: children.map Process.reap
      | .unmapped => p :: reapOne children
      | .mapped =>
        if children.any Process.hasEnded then .crash p.fds .wild :: reapOne children
        else p :: children

/-- What a signal that comes in the turn does. Only the first process has children. -/
def signalled (t : ℕ × ProcessTurn) (s : List Process) : List Process :=
  match t with
  | (0, .sigChild status) => sigChild status s
  | _ => s

/-- A turn of the process `t.1` of a server that listens on `fd`. -/
def serverStep (build : Build) (fd : ℤ) (s : List Process) (t : ℕ × ProcessTurn) :
    Option (ℕ × Option Event) × List Process :=
  match s[t.1]? with
  | none => (none, s)
  | some p =>
    let (event, p', child) := processStep build fd s.length p t.2
    (event.map (fun e => (t.1, e)), signalled t (s.set t.1 p' ++ child.toList))

/-- What a server started with the descriptors `fds` listens on, and its processes, when it
calls `cc_polling`. What setting up the socket comes to is not looked at. -/
def serverStart (setup : Setup) (fds : Descriptors OpenFile) : ℤ × List Process :=
  let (_, fd, fds) := ccInitOfSocket setup fds
  (fd, [⟨fds, .polling⟩])

/-- What is seen of the processes in a run of the server, and what they are after it. -/
def serverRun (build : Build) (setup : Setup) (fds : Descriptors OpenFile)
    (turns : List (ℕ × ProcessTurn)) : List (Option (ℕ × Option Event)) × List Process :=
  Machine.trace (serverStep build (serverStart setup fds).1) (serverStart setup fds).2 turns

/-- A switch that can be accepted and given a process. -/
def PollAnswer.welcome : PollAnswer where
  select := .readable
  accepts := true
  forks := true

/-- All that a process needs to start succeeds. -/
def StartAnswer.welcome : StartAnswer where
  host := Host.plain true
  mallocs := fun _ => true
  writes := fun _ => .wrote 8

/-- A program whose heap and data are in the first 2 GiB. -/
def Build.low : Build where
  helloAt := 0x00602010
  ccRecvOpsAt := 0x00601080

/-- A switch is accepted and given a process. -/
def welcomeTurns : List (ℕ × ProcessTurn) :=
  [(0, .poll .welcome), (1, .start .welcome), (0, .resume)]

def Setup.welcome : Setup where
  socket := true
  reuseaddr := true
  nodelay := true
  getfl := true
  setfl := true
  bind := true
  listen := true

/-- The descriptors of a server that is started with those from `low` to 2 open. -/
def streamsFrom (low : ℕ) : Descriptors OpenFile where
  entry n := if low ≤ n ∧ n < 3 then some .inherited else none
  bound := 8
  closed n hn := if_neg (by omega)

theorem inherited_streamsFrom (low : ℕ) :
  ∀ n f, (streamsFrom low).entry n = some f → f = .inherited
  := by
  intro n f h
  simp only [streamsFrom] at h
  split at h
  · cases h
    rfl
  · cases h

/-! ### What a turn does to the descriptors -/

/-- A new connection is given the lowest descriptor that is free. -/
theorem accept_eq_some {fds fds' : Descriptors OpenFile} {fd process n : ℕ} {accepts : Bool}
    (h : accept fds fd accepts process = some (n, fds')) :
  accepts ∧ fds.entry fd = some .listener ∧
    ∃ hn : n < fds.bound, n = fds.lowest ∧ fds' = fds.install n (.connection process) hn
  := by
  unfold accept at h
  by_cases haccepts : accepts ∧ fds.entry fd = some .listener
  · rw [if_pos haccepts] at h
    exact ⟨haccepts.1, haccepts.2, Descriptors.new_eq_some h⟩
  · rw [if_neg haccepts] at h
    cases h

/-- The descriptors of a server that has accepted a connection for the process `i`. -/
abbrev withConnection (fds : Descriptors OpenFile) (i : ℕ) (hn : fds.lowest < fds.bound) :
    Descriptors OpenFile :=
  fds.install fds.lowest (.connection i) hn

/-- When a process is started for a connection, both have it, under the lowest descriptor that
was free. Otherwise the connection is closed again. -/
theorem ccConnAccept_spec {fds fds' : Descriptors OpenFile} {fd process : ℕ} {answer : PollAnswer}
    {r : Accepted} (h : ccConnAccept fds fd answer process = (r, fds')) :
  (∃ ret, r = .returned ret ∧ fds' = fds ∧
      (0 ≤ ret ↔ answer.accepts ∧ fds.entry fd = some .listener ∧ fds.lowest < fds.bound ∧
        (fds.lowest ≤ fdSetsize → answer.forks))) ∨
    (∃ hn, r = .forked fds.lowest ∧ fds' = withConnection fds process hn ∧ answer.accepts ∧
      fds.entry fd = some .listener ∧ answer.forks)
  := by
  unfold ccConnAccept at h
  cases haccept : accept fds fd answer.accepts process with
  | none =>
      rw [haccept] at h
      cases h
      refine .inl ⟨_, rfl, rfl, fun hret => absurd hret (by decide), ?_⟩
      rintro ⟨haccepts, hlistener, hlowest, -⟩
      unfold accept at haccept
      rw [if_pos ⟨haccepts, hlistener⟩, Descriptors.new_of_lt hlowest] at haccept
      cases haccept
  | some r =>
      obtain ⟨n, fds₁⟩ := r
      rw [haccept] at h
      obtain ⟨haccepts, hlistener, hn, rfl, rfl⟩ := accept_eq_some haccept
      have hclose := Descriptors.close_install_lowest hn (.connection process)
      simp only [hclose, gt_iff_lt] at h
      by_cases hlarge : fdSetsize < fds.lowest
      · rw [if_pos hlarge] at h
        cases h
        refine .inl ⟨_, rfl, rfl, fun _ => ⟨haccepts, hlistener, hn, fun hle => ?_⟩,
          fun _ => le_refl _⟩
        exact absurd hle (not_le.mpr hlarge)
      · rw [if_neg hlarge] at h
        cases hforks : answer.forks with
        | false =>
            rw [hforks, if_pos (by decide)] at h
            cases h
            refine .inl ⟨_, rfl, rfl, fun hret => absurd hret (by decide), ?_⟩
            rintro ⟨-, -, -, hfork⟩
            cases hfork (not_lt.mp hlarge)
        | true =>
            rw [hforks, if_neg (by decide)] at h
            cases h
            exact .inr ⟨hn, rfl, rfl, haccepts, hlistener, rfl⟩

/-- What it takes for `cc_polling` to go on after a round. -/
structure PollAnswer.Survived (fds : Descriptors OpenFile) (fd : ℤ) (answer : PollAnswer) :
    Prop where
  listening : 0 ≤ fd ∧ fd < fdSetsize ∧ (fds.entry fd.toNat).isSome
  select : answer.select ≠ .failed
  accepted : answer.select = .readable → answer.accepts ∧
    fds.entry fd.toNat = some .listener ∧ fds.lowest < fds.bound ∧
    (fds.lowest ≤ fdSetsize → answer.forks)

theorem PollAnswer.survived_of_idle {fds : Descriptors OpenFile} {fd : ℤ} {answer : PollAnswer}
    (hlistening : 0 ≤ fd ∧ fd < fdSetsize ∧ (fds.entry fd.toNat).isSome)
    (hfailed : answer.select ≠ .failed) (hidle : answer.select ≠ .readable) :
  answer.Survived fds fd
  := ⟨hlistening, hfailed, fun hreadable => absurd hreadable hidle⟩

/-- What a round of `cc_polling` comes to. -/
inductive Polled (fds : Descriptors OpenFile) (fd : ℤ) (answer : PollAnswer) (process : ℕ) :
    Process → Option Process → Prop where
  | goesOn (hsurvived : answer.Survived fds fd) :
      Polled fds fd answer process ⟨fds, .polling⟩ none
  | forks (hsurvived : answer.Survived fds fd) (hlistener : fds.entry fd.toNat = some .listener)
      (hn : fds.lowest < fds.bound) :
      Polled fds fd answer process ⟨withConnection fds process hn, .forked fds.lowest⟩
        (some ⟨withConnection fds process hn, .starting fds.lowest⟩)
  | exits (hends : ¬ answer.Survived fds fd) : Polled fds fd answer process (.exit fds) none
  | overruns (hends : ¬ answer.Survived fds fd) :
      Polled fds fd answer process (.crash fds .overrun) none

theorem ccPolling_spec {fds : Descriptors OpenFile} {fd : ℤ} {process : ℕ} {answer : PollAnswer}
    {p : Process} {child : Option Process}
    (h : ccPolling fds fd answer process = (p, child)) :
  Polled fds fd answer process p child
  := by
  unfold ccPolling at h
  by_cases hroom : fd < 0 ∨ fdSetsize ≤ fd
  · rw [if_pos hroom] at h
    cases h
    apply Polled.overruns
    intro hs
    obtain ⟨hpos, hlt, -⟩ := hs.listening
    omega
  rw [if_neg hroom] at h
  obtain ⟨hpos, hlt⟩ : 0 ≤ fd ∧ fd < fdSetsize := by omega
  cases hopen : (fds.entry fd.toNat).isSome with
  | false =>
      simp only [selectFd, hopen] at h
      cases h
      apply Polled.exits
      intro hs
      have hopen' := hs.listening.2.2
      rw [hopen] at hopen'
      cases hopen'
  | true =>
      simp only [selectFd, hopen, if_true] at h
      cases hselect : answer.select with
      | failed =>
          rw [hselect] at h
          cases h
          exact .exits (fun hs => hs.select hselect)
      | interrupted =>
          rw [hselect] at h
          cases h
          apply Polled.goesOn
          apply PollAnswer.survived_of_idle ⟨hpos, hlt, hopen⟩
          · simp [hselect]
          · simp [hselect]
      | timeout =>
          rw [hselect] at h
          cases h
          apply Polled.goesOn
          apply PollAnswer.survived_of_idle ⟨hpos, hlt, hopen⟩
          · simp [hselect]
          · simp [hselect]
      | readable =>
          rw [hselect] at h
          dsimp only at h
          obtain ⟨⟨r, fds'⟩, hok⟩ :
            ∃ r, ccConnAccept fds fd.toNat answer process = r := ⟨_, rfl⟩
          rw [hok] at h
          obtain ⟨ret, rfl, rfl, hret⟩ | ⟨hn, rfl, rfl, haccepts, hlistener, hforks⟩ :=
            ccConnAccept_spec hok
          · by_cases hneg : ret < 0
            · simp only [hneg, if_true] at h
              cases h
              apply Polled.exits
              intro hs
              exact absurd (hret.mpr (hs.accepted hselect)) (not_le.mpr hneg)
            · simp only [hneg, if_false] at h
              cases h
              apply Polled.goesOn
              exact ⟨⟨hpos, hlt, hopen⟩, by rw [hselect]; decide, fun _ => hret.mp (not_lt.mp hneg)⟩
          · cases h
            apply Polled.forks _ hlistener hn
            exact ⟨⟨hpos, hlt, hopen⟩, by rw [hselect]; decide,
              fun _ => ⟨haccepts, hlistener, hn, fun _ => hforks⟩⟩

end CcController
