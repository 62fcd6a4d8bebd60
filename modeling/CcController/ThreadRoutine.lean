import CcController.Lib.Run
import CcController.ThreadPool
import CcController.Xid
import Mathlib.Data.List.ReduceOption

/-!
# The threads of a pool

The jobs of a pool lie in memory as a singly linked list. A call adds one behind the others,
following the links from the head, and a thread of the pool takes one from the front when the
count says that there is one. The two hold `queue_lock` while they do so, so the calls and the
threads take turns: a run is a sequence of such steps, in any order.

The jobs that the threads have taken, and behind them those that are still queued, are the
jobs added, in that order, as long as the count does not overflow and every job finds room
(`jobs_inOrder_iff`).
-/

namespace CcController

variable {J T : Type}

/-- A job in memory. -/
structure CThreadWorker (J : Type) where
  job : J
  next : Option ℕ

/-- A pool together with the memory its jobs lie in. -/
structure LinkedPool (J : Type) where
  workers : Heap (CThreadWorker J)
  queueHead : Option ℕ
  shutdown : Bool
  curQueueSize : Int32

/-- What a thread of the pool is about to do. -/
inductive ThreadState where
  /-- take the lock -/
  | atLock
  /-- wake up; until then it has released the lock -/
  | waiting
  /-- do the job it has taken, and release its memory -/
  | working (worker : Option ℕ)
  | exited

namespace LinkedPool

/-- The pool when its allocations succeed. -/
def poolInit : LinkedPool J where
  workers := Heap.empty
  queueHead := none
  shutdown := false
  curQueueSize := 0

/-- `malloc` is what the allocation of the job comes to; its result is used unchecked. -/
def poolAddWorker (pool : LinkedPool J) (job : J) (malloc : Bool) :
    Except Fault (LinkedPool J) :=
  if malloc then do
    let newworker := pool.workers.limit
    let workers := pool.workers.alloc ⟨job, none⟩
    match pool.queueHead with
    | some member => do
      let last ← workers.toLast CThreadWorker.next (workers.limit + 1) (some member)
      let worker ← workers.read (some last)
      let workers ← workers.write (some last) { worker with next := some newworker }
      .ok { pool with workers := workers, curQueueSize := pool.curQueueSize + 1 }
    | none =>
      .ok { pool with
        workers := workers
        queueHead := some newworker
        curQueueSize := pool.curQueueSize + 1 }
  else
    .error .null

/-- What a thread does from when it has the lock until it releases it, and the job it takes.
A thread that waits comes back here when it wakes up, with or without a signal. -/
def takeWorker (pool : LinkedPool J) : Except Fault (Option J × ThreadState × LinkedPool J) :=
  if pool.curQueueSize = 0 ∧ ¬ pool.shutdown then .ok (none, .waiting, pool)
  else if pool.shutdown then .ok (none, .exited, pool)
  else do
    let worker ← pool.workers.read pool.queueHead
    .ok (some worker.job, .working pool.queueHead,
      { pool with queueHead := worker.next, curQueueSize := pool.curQueueSize - 1 })

/-- Do the job and release its memory, which needs no lock. What the job itself does is left
to the steps that follow. -/
def finishWorker (pool : LinkedPool J) (worker : Option ℕ) : Except Fault (LinkedPool J) := do
  let _ ← pool.workers.read worker
  let workers ← pool.workers.free worker
  .ok { pool with workers := workers }

/-- The next step of a thread. -/
def threadRoutine (pool : LinkedPool J) :
    ThreadState → Except Fault (Option J × ThreadState × LinkedPool J)
  | .atLock => pool.takeWorker
  | .waiting => pool.takeWorker
  | .working worker => do
    let pool ← pool.finishWorker worker
    .ok (none, .atLock, pool)
  | .exited => .ok (none, .exited, pool)

end LinkedPool

/-- A pool and its threads. -/
structure PoolState (T J : Type) where
  pool : LinkedPool J
  threads : T → ThreadState

def PoolState.start : PoolState T J where
  pool := LinkedPool.poolInit
  threads _ := .atLock

/-- A call that adds a job, or the next step of a thread. No step shuts the pool down. -/
inductive PoolStep (T J : Type) where
  | poolAddWorker (job : J) (malloc : Bool)
  | threadRoutine (thread : T)

/-- What a step puts out is the job that a thread takes. -/
def poolStep [DecidableEq T] (s : PoolState T J) :
    PoolStep T J → Except Fault (Option J × PoolState T J)
  | .poolAddWorker job malloc => do
    let pool ← s.pool.poolAddWorker job malloc
    .ok (none, { s with pool := pool })
  | .threadRoutine thread => do
    let (job, state, pool) ← s.pool.threadRoutine (s.threads thread)
    .ok (job, ⟨pool, Function.update s.threads thread state⟩)

/-- The job that a step adds. -/
def PoolStep.added : PoolStep T J → Option J
  | .poolAddWorker job _ => some job
  | .threadRoutine _ => none

/-- A job is added only if there is room for it in memory and in the count. -/
def PoolStep.Fits (s : PoolState T J) : PoolStep T J → Prop
  | .poolAddWorker _ malloc => malloc = true ∧ s.pool.curQueueSize ≠ Int32.maxValue
  | .threadRoutine _ => True

/-! ### The jobs queued -/

/-- Jobs as entries of a linked list: their address and the job. -/
def workerLayout : Layout (ℕ × J) (CThreadWorker J) where
  addr := Prod.fst
  cell e next _ := ⟨e.2, next⟩

namespace LinkedPool

/-- The jobs `es` are linked from the head on. -/
structure Lies (pool : LinkedPool J) (es : List (ℕ × J)) : Prop where
  head : pool.queueHead = workerLayout.head es none
  seg : workerLayout.Seg pool.workers.cells none es none
  nodup : (es.map Prod.fst).Nodup

/-- The jobs queued, first to last, are `jobs`. -/
def Holds (pool : LinkedPool J) (jobs : List J) : Prop :=
  ∃ es, pool.Lies es ∧ es.map Prod.snd = jobs

section

variable {pool : LinkedPool J} {es : List (ℕ × J)}

theorem Lies.lt_limit (h : pool.Lies es) {e : ℕ × J} (he : e ∈ es) :
  e.1 < pool.workers.limit
  := h.seg.lt_limit he

/-- The jobs lie where they did when nothing but memory that is not theirs has changed. -/
theorem Lies.congr (h : pool.Lies es) (pool' : LinkedPool J)
    (hhead : pool'.queueHead = pool.queueHead)
    (hcells : ∀ e ∈ es, pool'.workers.cells e.1 = pool.workers.cells e.1) :
  pool'.Lies es
  := by
  constructor
  · rw [hhead]
    apply h.head
  · apply h.seg.congr hcells
  · apply h.nodup

/-! ### Adding a job -/

/-- A job is linked in behind the others, and memory that is not theirs stays as it is. -/
theorem Lies.poolAddWorker (h : pool.Lies es) (job : J) :
  ∃ pool', pool.poolAddWorker job true = .ok pool' ∧
    pool'.Lies (es ++ [(pool.workers.limit, job)]) ∧ pool'.shutdown = pool.shutdown ∧
    pool'.curQueueSize = pool.curQueueSize + 1 ∧
    ∀ a < pool.workers.limit, a ∉ es.map Prod.fst →
      pool'.workers.cells a = pool.workers.cells a
  := by
  have hne : ∀ e ∈ es, e.1 ≠ pool.workers.limit := fun e he => Nat.ne_of_lt (h.lt_limit he)
  have hnodup : ((es ++ [(pool.workers.limit, job)]).map Prod.fst).Nodup := by
    rw [List.map_append, List.nodup_append]
    refine ⟨h.nodup, by simp, ?_⟩
    intro a ha b hb
    obtain ⟨e, he, rfl⟩ := List.mem_map.mp ha
    obtain rfl : b = pool.workers.limit := by simpa using hb
    apply hne e he
  let workers := pool.workers.alloc ⟨job, none⟩
  have hold : ∀ a, a ≠ pool.workers.limit → workers.cells a = pool.workers.cells a :=
    fun a ha => Heap.alloc_cells_of_ne _ ha
  have hnew : workers.cells pool.workers.limit = some ⟨job, none⟩ := Heap.alloc_cells_limit _ _
  cases es using List.reverseRecOn with
  | nil =>
      have hhead : pool.queueHead = none := h.head
      use { pool with
        workers := workers
        queueHead := some pool.workers.limit
        curQueueSize := pool.curQueueSize + 1 }
      refine ⟨?_, ⟨rfl, ⟨hnew, trivial⟩, hnodup⟩, rfl, rfl, ?_⟩
      · simp only [LinkedPool.poolAddWorker, if_true, hhead, workers]
      · intro a ha _
        apply hold a (Nat.ne_of_lt ha)
  | append_singleton init l =>
      -- the walk from the head ends at the old last job, which is linked to the new one
      obtain ⟨member, hmember⟩ :
          ∃ member, ∀ q, workerLayout.head (init ++ [l]) q = some member := by
        cases init with
        | nil => exact ⟨_, fun _ => rfl⟩
        | cons e init => exact ⟨_, fun _ => rfl⟩
      have hhead : pool.queueHead = some member := h.head.trans (hmember none)
      have hseg : workerLayout.Seg workers.cells none (init ++ [l]) none :=
        h.seg.congr (fun e he => hold e.1 (hne e he))
      have hlen := hseg.length_le h.nodup
      have hlast : workers.toLast CThreadWorker.next (workers.limit + 1) (some member)
          = .ok l.1 := by
        rw [← hmember none]
        apply hseg.toLast _ (fun _ _ _ => rfl)
        rw [List.length_append] at hlen
        omega
      have hl : workers.cells l.1 = some ⟨l.2, none⟩ := ((Layout.seg_append _ _ _ _).mp hseg).2.1
      let linked := workers.set l.1 ⟨l.2, some pool.workers.limit⟩
      have hother : ∀ a, a ≠ l.1 → linked.cells a = workers.cells a :=
        fun a ha => Heap.set_cells_of_ne _ ha
      use { pool with workers := linked, curQueueSize := pool.curQueueSize + 1 }
      refine ⟨?_, ⟨?_, ?_, hnodup⟩, rfl, rfl, ?_⟩
      · simp only [LinkedPool.poolAddWorker, if_true, hhead, hlast, ok_bind, Heap.read_some hl,
          Heap.write_some _ hl, workers, linked]
      · rw [Layout.head_append, hmember]
        apply hhead
      · rw [List.append_assoc]
        apply hseg.snoc
        · intro e he
          apply hother
          have hapart := h.nodup
          rw [List.map_append, List.nodup_append] at hapart
          apply hapart.2.2 e.1 (List.mem_map_of_mem he) l.1 (by simp)
        · apply Heap.set_cells_self _ hl
        · exact (hother _ (hne l (by simp)).symm).trans hnew
      · intro a ha hapart
        rw [hother a, hold a (Nat.ne_of_lt ha)]
        rintro rfl
        apply hapart
        simp

/-! ### Taking a job -/

/-- The first job is taken when the count says that there is one. -/
theorem Lies.takeWorker {e : ℕ × J} (h : pool.Lies (e :: es)) (hrunning : pool.shutdown = false)
    (hsize : pool.curQueueSize ≠ 0) :
  ∃ pool', pool.takeWorker = .ok (some e.2, .working (some e.1), pool') ∧ pool'.Lies es ∧
    pool'.workers = pool.workers ∧ pool'.shutdown = false ∧
    pool'.curQueueSize = pool.curQueueSize - 1
  := by
  obtain ⟨hcell, hseg⟩ := h.seg
  have hhead : pool.queueHead = some e.1 := h.head
  have hread : pool.workers.read (some e.1) = .ok ⟨e.2, workerLayout.head es none⟩ :=
    Heap.read_some hcell
  use { pool with
    queueHead := workerLayout.head es none
    curQueueSize := pool.curQueueSize - 1 }
  refine ⟨?_, ⟨rfl, ?_, (List.nodup_cons.mp h.nodup).2⟩, rfl, hrunning, rfl⟩
  · simp [LinkedPool.takeWorker, hsize, hrunning, hhead, hread]
  · exact hseg.after (fun _ _ _ => rfl)

theorem takeWorker_waits (hrunning : pool.shutdown = false) (hsize : pool.curQueueSize = 0) :
  pool.takeWorker = .ok (none, .waiting, pool)
  := by
  simp [takeWorker, hsize, hrunning]

end

/-! ### The pool as a list -/

/-- The jobs in memory are those of the pool `p`, with the same count. -/
def Represents (pool : LinkedPool J) (p : CThreadPool J) : Prop :=
  pool.Holds p.queue ∧ pool.curQueueSize = p.curQueueSize

/-- Adding a job in memory comes to adding it to the list. -/
theorem Represents.poolAddWorker {pool : LinkedPool J} {p : CThreadPool J}
    (h : pool.Represents p) (job : J) (malloc : Bool) :
  (∀ p', CcController.poolAddWorker p job malloc = .ok p' →
    ∃ pool', pool.poolAddWorker job malloc = .ok pool' ∧ pool'.Represents p') ∧
  (∀ f, CcController.poolAddWorker p job malloc = .error f →
    pool.poolAddWorker job malloc = .error f)
  := by
  obtain ⟨⟨es, hlies, hqueue⟩, hsize⟩ := h
  cases malloc with
  | false =>
      constructor
      · rintro p' ⟨⟩
      · rintro f ⟨⟩
        rfl
  | true =>
      constructor
      · rintro p' ⟨⟩
        obtain ⟨pool', hadd, hlies', -, hcount, -⟩ := hlies.poolAddWorker job
        use pool', hadd, ⟨_, hlies', by rw [List.map_append, hqueue]; rfl⟩
        rw [hcount, hsize]
      · rintro f ⟨⟩

end LinkedPool

/-! ### The pool and its threads -/

namespace PoolState

/-- The jobs `es` lie in memory and are counted. Every thread that works has a job of its own,
which is not one of them. -/
structure Kept (s : PoolState T J) (es : List (ℕ × J)) : Prop where
  lies : s.pool.Lies es
  running : s.pool.shutdown = false
  size : s.pool.curQueueSize.toInt = es.length
  owned : ∀ t worker, s.threads t = .working worker →
    ∃ a, worker = some a ∧ a ∉ es.map Prod.fst ∧ (s.pool.workers.cells a).isSome
  apart : ∀ t t' worker, s.threads t = .working worker → s.threads t' = .working worker → t = t'

theorem kept_start :
  (start : PoolState T J).Kept []
  := by
  constructor
  · exact ⟨rfl, trivial, List.nodup_nil⟩
  · rfl
  · rfl
  · intro t worker hworking
    cases hworking
  · intro t t' worker hworking
    cases hworking

section

variable {s : PoolState T J} {es es' : List (ℕ × J)}

/-- A job for which there is room comes last. -/
theorem Kept.poolAddWorker (h : s.Kept es) (job : J)
    (hsize : s.pool.curQueueSize ≠ Int32.maxValue) :
  ∃ pool', s.pool.poolAddWorker job true = .ok pool' ∧
    Kept { s with pool := pool' } (es ++ [(s.pool.workers.limit, job)])
  := by
  obtain ⟨pool', hadd, hlies, hshutdown, hcount, hcells⟩ := h.lies.poolAddWorker job
  have hmax : s.pool.curQueueSize.toInt + 1 < 2 ^ 31 := by
    have hlt := s.pool.curQueueSize.toInt_lt
    have hne : s.pool.curQueueSize.toInt ≠ 2 ^ 31 - 1 := by
      rw [← Int32.toInt_maxValue]
      exact fun heq => hsize (Int32.toInt_inj.mp heq)
    omega
  use pool', hadd
  refine ⟨hlies, hshutdown.trans h.running, ?_, ?_, h.apart⟩
  · rw [hcount, toInt_add_one hmax, h.size, List.length_append]
    rfl
  · intro t worker hworking
    obtain ⟨a, rfl, hapart, hsome⟩ := h.owned t worker hworking
    obtain ⟨v, hv⟩ := Option.isSome_iff_exists.mp hsome
    have hlt := Heap.lt_limit hv
    refine ⟨a, rfl, ?_, ?_⟩
    · rw [List.map_append, List.mem_append, not_or]
      use hapart
      simp only [List.map_cons, List.map_nil, List.mem_singleton]
      omega
    · rw [hcells a hlt hapart]
      exact hsome

variable [DecidableEq T] {t : T} {pool' : LinkedPool J} {state : ThreadState}

/-- The thread `t` takes a step: the other threads keep their jobs, and it has one, if any,
that no other thread has. -/
theorem Kept.thread (h : s.Kept es) (hlies : pool'.Lies es') (hrunning : pool'.shutdown = false)
    (hsize : pool'.curQueueSize.toInt = es'.length)
    (hothers : ∀ t' a, t' ≠ t → s.threads t' = .working (some a) →
      a ∉ es'.map Prod.fst ∧ (pool'.workers.cells a).isSome)
    (hstate : ∀ worker, state = .working worker → (∃ a, worker = some a ∧
      a ∉ es'.map Prod.fst ∧ (pool'.workers.cells a).isSome) ∧
        ∀ t', t' ≠ t → s.threads t' ≠ .working worker) :
  Kept ⟨pool', Function.update s.threads t state⟩ es'
  := by
  have hcases : ∀ t₁ worker, Function.update s.threads t state t₁ = .working worker →
      t₁ = t ∧ state = .working worker ∨ t₁ ≠ t ∧ s.threads t₁ = .working worker := by
    intro t₁ worker hworking
    by_cases heq : t₁ = t
    · rw [heq, Function.update_self] at hworking
      exact .inl ⟨heq, hworking⟩
    · rw [Function.update_of_ne heq] at hworking
      exact .inr ⟨heq, hworking⟩
  refine ⟨hlies, hrunning, hsize, ?_, ?_⟩
  · intro t₁ worker hworking
    rcases hcases t₁ worker hworking with ⟨-, hworking⟩ | ⟨hne, hworking⟩
    · exact (hstate worker hworking).1
    · obtain ⟨a, rfl, -, -⟩ := h.owned t₁ worker hworking
      exact ⟨a, rfl, hothers t₁ a hne hworking⟩
  · intro t₁ t₂ worker hworking₁ hworking₂
    rcases hcases t₁ worker hworking₁ with ⟨rfl, hnew⟩ | ⟨hne₁, hold₁⟩
    · rcases hcases t₂ worker hworking₂ with ⟨rfl, -⟩ | ⟨hne₂, hold₂⟩
      · rfl
      · exact absurd hold₂ ((hstate worker hnew).2 t₂ hne₂)
    · rcases hcases t₂ worker hworking₂ with ⟨rfl, hnew⟩ | ⟨-, hold₂⟩
      · exact absurd hold₁ ((hstate worker hnew).2 t₁ hne₁)
      · exact h.apart t₁ t₂ worker hold₁ hold₂

/-- A thread that has the lock takes the first job, or waits when there is none. -/
theorem Kept.takeWorker (h : s.Kept es) :
  ∃ job state pool' es', s.pool.takeWorker = .ok (job, state, pool') ∧
    Kept ⟨pool', Function.update s.threads t state⟩ es' ∧
    job.toList ++ es'.map Prod.snd = es.map Prod.snd
  := by
  cases es with
  | nil =>
      have hzero : s.pool.curQueueSize = 0 := Int32.toInt_inj.mp h.size
      use none, .waiting, s.pool, [], LinkedPool.takeWorker_waits h.running hzero
      constructor
      · apply h.thread h.lies h.running h.size
        · intro t' a _ hworking
          obtain ⟨_, hworker, hapart⟩ := h.owned t' _ hworking
          cases hworker
          exact hapart
        · intro worker hworking
          cases hworking
      · rfl
  | cons e es =>
      have hcount := h.size
      rw [List.length_cons] at hcount
      have hpos : 0 < s.pool.curQueueSize.toInt := by omega
      have hne : s.pool.curQueueSize ≠ 0 := by
        intro hzero
        rw [hzero, Int32.toInt_zero] at hpos
        exact absurd hpos (lt_irrefl 0)
      obtain ⟨pool', htake, hlies, hworkers, hrunning, hsize⟩ := h.lies.takeWorker h.running hne
      have hnodup := h.lies.nodup
      rw [List.map_cons, List.nodup_cons] at hnodup
      use some e.2, .working (some e.1), pool', es, htake
      constructor
      · apply h.thread hlies hrunning
        · rw [hsize, toInt_sub_one hpos, hcount]
          omega
        · intro t' a _ hworking
          obtain ⟨_, hworker, hapart, hsome⟩ := h.owned t' _ hworking
          cases hworker
          rw [List.map_cons, List.mem_cons, not_or] at hapart
          rw [hworkers]
          exact ⟨hapart.2, hsome⟩
        · rintro _ ⟨⟩
          constructor
          · use e.1, rfl, hnodup.1
            rw [hworkers]
            exact h.lies.seg.isSome (List.mem_cons_self ..)
          · intro t' _ hworking
            obtain ⟨_, hworker, hapart, -⟩ := h.owned t' _ hworking
            cases hworker
            exact hapart (by simp)
      · rfl

/-- A thread releases the memory of its own job. -/
theorem Kept.finishWorker (h : s.Kept es) {worker : Option ℕ}
    (hworking : s.threads t = .working worker) :
  ∃ pool', s.pool.finishWorker worker = .ok pool' ∧
    Kept ⟨pool', Function.update s.threads t .atLock⟩ es
  := by
  obtain ⟨a, rfl, hapart, hsome⟩ := h.owned t worker hworking
  obtain ⟨v, hv⟩ := Option.isSome_iff_exists.mp hsome
  let pool' : LinkedPool J := { s.pool with workers := s.pool.workers.erase a }
  use pool'
  constructor
  · simp only [LinkedPool.finishWorker, Heap.read_some hv, Heap.free_some hv, ok_bind, pool']
  · have hlies : pool'.Lies es := by
      apply h.lies.congr pool' rfl
      intro e he
      apply Heap.erase_cells_of_ne
      rintro rfl
      exact hapart (List.mem_map_of_mem he)
    apply h.thread hlies h.running h.size
    · intro t' a' hne hworking'
      obtain ⟨_, hworker, hapart', hsome'⟩ := h.owned t' _ hworking'
      cases hworker
      use hapart'
      have hother : a' ≠ a := by
        rintro rfl
        exact hne (h.apart t' t _ hworking' hworking)
      change ((s.pool.workers.erase a).cells a').isSome = true
      rw [Heap.erase_cells_of_ne hother]
      exact hsome'
    · intro _ hatLock
      cases hatLock

/-- What a step takes, and then what it leaves, is what there was, and then what it adds. -/
theorem Kept.step (h : s.Kept es) {step : PoolStep T J} (hfits : step.Fits s) :
  ∃ job s' es', poolStep s step = .ok (job, s') ∧ s'.Kept es' ∧
    job.toList ++ es'.map Prod.snd = es.map Prod.snd ++ step.added.toList
  := by
  cases step with
  | poolAddWorker job malloc =>
      obtain ⟨rfl, hsize⟩ := hfits
      obtain ⟨pool', hadd, hkept⟩ := h.poolAddWorker job hsize
      use none, { s with pool := pool' }, es ++ [(s.pool.workers.limit, job)]
      refine ⟨?_, hkept, ?_⟩
      · simp only [poolStep, hadd, ok_bind]
      · simp [PoolStep.added]
  | threadRoutine t =>
      have htake : ∀ state, s.threads t = state → s.pool.threadRoutine state = s.pool.takeWorker →
          ∃ job s' es', poolStep s (.threadRoutine t) = .ok (job, s') ∧ s'.Kept es' ∧
            job.toList ++ es'.map Prod.snd = es.map Prod.snd ++ [] := by
        intro state hstate hroutine
        obtain ⟨job, state', pool', es', htake, hkept, hjobs⟩ := h.takeWorker (t := t)
        use job, ⟨pool', Function.update s.threads t state'⟩, es'
        refine ⟨?_, hkept, ?_⟩
        · simp only [poolStep, hstate, hroutine, htake, ok_bind]
        · rw [hjobs, List.append_nil]
      cases hstate : s.threads t with
      | atLock => exact htake _ hstate rfl
      | waiting => exact htake _ hstate rfl
      | working worker =>
          obtain ⟨pool', hfinish, hkept⟩ := h.finishWorker hstate
          use none, ⟨pool', Function.update s.threads t .atLock⟩, es
          refine ⟨?_, hkept, ?_⟩
          · simp only [poolStep, hstate, LinkedPool.threadRoutine, hfinish, ok_bind]
          · simp [PoolStep.added]
      | exited =>
          use none, s, es
          refine ⟨?_, h, ?_⟩
          · simp only [poolStep, hstate, LinkedPool.threadRoutine, ok_bind]
            rw [← hstate, Function.update_eq_self]
          · simp [PoolStep.added]

/-- A job without room is not added, or the count becomes negative. -/
theorem Kept.miscounts (h : s.Kept es) {step : PoolStep T J} (hfits : ¬ step.Fits s)
    {job : Option J} {s' : PoolState T J} (hstep : poolStep s step = .ok (job, s')) :
  s'.pool.curQueueSize.toInt < 0
  := by
  cases step with
  | threadRoutine t => exact absurd trivial hfits
  | poolAddWorker new malloc =>
      cases malloc with
      | false => cases hstep
      | true =>
          have hmax : s.pool.curQueueSize = Int32.maxValue := by
            by_contra hne
            exact hfits ⟨rfl, hne⟩
          obtain ⟨pool', hadd, -, -, hcount, -⟩ := h.lies.poolAddWorker new
          simp only [poolStep, hadd, ok_bind] at hstep
          cases hstep
          change pool'.curQueueSize.toInt < 0
          rw [hcount, hmax]
          decide

end

end PoolState

/-! ### Runs -/

/-- After the steps `steps`, in which the threads took the jobs `taken`: the count is the
number of the jobs queued, and the jobs taken and then those queued are the jobs added. -/
def InOrder (steps : List (PoolStep T J)) (taken : List (Option J)) (s : PoolState T J) :
    Prop :=
  ∃ jobs, s.pool.Holds jobs ∧ s.pool.curQueueSize.toInt = jobs.length ∧
    taken.reduceOption ++ jobs = steps.filterMap PoolStep.added

/-- Whatever the calls and the threads do, and in whatever order, no step stops, the count is
right and no job is lost, taken twice or taken before an earlier one, exactly if every job added
finds room. A thread that took a job from an empty list would stop at the null head. -/
theorem jobs_inOrder_iff [DecidableEq T] (steps : List (PoolStep T J)) :
  Machine.Upholds poolStep InOrder (PoolState.start : PoolState T J) steps ↔
    Machine.Throughout poolStep (fun s step => step.Fits s) PoolState.start steps
  := by
  apply Machine.upholds_iff (P := fun steps taken s => ∃ es, s.Kept es ∧
    taken.reduceOption ++ es.map Prod.snd = steps.filterMap PoolStep.added)
  · exact ⟨[], PoolState.kept_start, rfl⟩
  · rintro steps taken s ⟨es, hkept, hjobs⟩
    use es.map Prod.snd, ⟨es, hkept.lies, rfl⟩
    rw [List.length_map]
    exact ⟨hkept.size, hjobs⟩
  · rintro steps taken s step ⟨es, hkept, hjobs⟩ hfits
    obtain ⟨job, s', es', hstep, hkept', hjobs'⟩ := hkept.step hfits
    use job, s', hstep, es', hkept'
    have hadded : [step].filterMap PoolStep.added = step.added.toList := by
      cases step with
      | poolAddWorker new malloc => rfl
      | threadRoutine t => rfl
    rw [List.reduceOption_append, List.reduceOption_singleton, List.filterMap_append, hadded,
      ← hjobs, List.append_assoc, List.append_assoc, hjobs']
  · rintro steps taken s step job s' ⟨es, hkept, -⟩ hfits hstep ⟨jobs, -, hsize, -⟩
    have hneg := hkept.miscounts hfits hstep
    omega

/-- Adding jobs takes none. -/
theorem adds_take_nothing [DecidableEq T] {steps : List (PoolStep T J)}
    (hadds : ∀ step ∈ steps, step.added ≠ none) {s s' : PoolState T J} {taken : List (Option J)}
    (hrun : Machine.run poolStep s steps = .ok (taken, s')) :
  taken.reduceOption = []
  := by
  induction steps generalizing s taken with
  | nil =>
      obtain ⟨rfl, -⟩ : [] = taken ∧ s = s' := by simpa [Machine.run] using hrun
      rfl
  | cons step steps ih =>
      obtain ⟨job, s₁, taken', hstep, hrun', rfl⟩ := Machine.run_cons_ok hrun
      have hrest := ih (fun step hmem => hadds step (List.mem_cons_of_mem _ hmem)) hrun'
      cases step with
      | threadRoutine t => exact absurd rfl (hadds (.threadRoutine t) List.mem_cons_self)
      | poolAddWorker new malloc =>
          cases hadd : s.pool.poolAddWorker new malloc with
          | error f => simp [poolStep, hadd] at hstep
          | ok pool =>
              simp only [poolStep, hadd, ok_bind] at hstep
              cases hstep
              rw [List.reduceOption_cons_of_none]
              exact hrest

/-- Jobs that are only added are counted as long as an `int` can count them. -/
theorem adds_inOrder_lt {n : ℕ} {job : J} [DecidableEq T]
    (h : Machine.Upholds poolStep InOrder (PoolState.start : PoolState T J)
      (List.replicate n (.poolAddWorker job true))) :
  n < 2 ^ 31
  := by
  obtain ⟨taken, s, hrun, jobs, -, hsize, hjobs⟩ := h _ (List.prefix_refl _)
  have hadds : ∀ step ∈ List.replicate n (PoolStep.poolAddWorker (T := T) job true),
      step.added ≠ none := by
    intro step hmem
    rw [List.eq_of_mem_replicate hmem]
    simp [PoolStep.added]
  rw [adds_take_nothing hadds hrun, List.nil_append] at hjobs
  have hadded : (PoolStep.poolAddWorker (T := T) job true).added = some job := rfl
  have hlen : jobs.length = n := by
    rw [hjobs, List.filterMap_replicate_of_some hadded, List.length_replicate]
  have hlt := s.pool.curQueueSize.toInt_lt
  rw [hsize, hlen] at hlt
  omega

/-- Of as many jobs as an `int` cannot count, added while no thread takes one, the count is
wrong. -/
theorem jobs_miscounted :
  ¬ ∀ steps : List (PoolStep Unit Unit),
    (∀ job malloc, .poolAddWorker job malloc ∈ steps → malloc = true) →
    Machine.Upholds poolStep InOrder PoolState.start steps
  := by
  intro h
  have hlt := adds_inOrder_lt (h (List.replicate (2 ^ 31) (.poolAddWorker () true)) ?_)
  · exact absurd hlt (lt_irrefl _)
  · intro job malloc hmem
    cases List.eq_of_mem_replicate hmem
    rfl

end CcController
