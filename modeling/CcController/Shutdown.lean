import CcController.Lib.Release
import CcController.ThreadRoutine

/-!
# Shutting a pool down

`pool_destroy` releases the jobs that are still queued while it holds `queue_lock`, and the pool
once it has released the lock. A thread that takes the lock in between exits; one that takes it
later follows a pointer to released memory. The threads are detached, so `pthread_join` waits for
none of them, and whether there is such a thread depends on how often the threads have taken turns
in between (`destroy_safe_iff`).

Whatever the order of turns, a job that has been added is taken by one thread, dropped by
`pool_destroy` or still queued, and its memory is released at most once and never forgotten
(`jobs_accounted`).
-/

namespace CcController

variable {J T : Type}

/-! ### The life of a pool -/

/-- From when `pool_destroy` has the lock until it releases it: the jobs that it drops. Joining a
detached thread fails at once, and the result is not looked at. -/
def LinkedPool.poolDestroy (pool : LinkedPool J) : Except Fault (List J × LinkedPool J) := do
  let (dropped, workers) ←
    pool.workers.freeAll CThreadWorker.next (pool.workers.limit + 1) pool.queueHead
  .ok (dropped.map CThreadWorker.job,
    { pool with workers := workers, queueHead := none, shutdown := true })

/-- The thread reads the pool when it goes on. -/
def ThreadState.usesPool : ThreadState → Bool
  | .atLock => true
  | .waiting => true
  | .working _ => false
  | .exited => false

/-- How far `pool_destroy` has come. -/
inductive DestroyState where
  | atCall
  /-- it has released the lock and is to release the pool -/
  | atFree
  deriving DecidableEq

/-- A pool from `pool_init` on, with its threads and the thread that shuts it down, and which of
its own three blocks are allocated. -/
structure PoolLife (T J : Type) where
  state : PoolState T J
  destroyer : DestroyState
  allocated : Bool
  threadid : Bool
  attr : Bool

def PoolLife.start : PoolLife T J where
  state := PoolState.start
  destroyer := .atCall
  allocated := true
  threadid := true
  attr := true

/-- A call that adds a job, the next step of a thread, or what `pool_destroy` does until it next
gives up the lock or returns. -/
inductive LifeStep (T J : Type) where
  | poolAddWorker (job : J) (malloc : Bool)
  | threadRoutine (thread : T)
  | poolDestroy

inductive LifeEvent (J : Type) where
  | took (job : J)
  | dropped (jobs : List J)
  | returned (ret : ℤ)

/-- Only `pool_destroy` sets `shutdown`, so its test before it takes the lock belongs to the step
that it takes then. -/
def lifeStep [DecidableEq T] (s : PoolLife T J) :
    LifeStep T J → Except Fault (Option (LifeEvent J) × PoolLife T J)
  | .poolAddWorker job malloc =>
    if s.allocated then do
      let pool ← s.state.pool.poolAddWorker job malloc
      .ok (none, { s with state := { s.state with pool := pool } })
    else .error .dangling
  | .threadRoutine thread =>
    if s.allocated ∨ (s.state.threads thread).usesPool = false then do
      let (job, state, pool) ← s.state.pool.threadRoutine (s.state.threads thread)
      .ok (job.map LifeEvent.took,
        { s with state := ⟨pool, Function.update s.state.threads thread state⟩ })
    else .error .dangling
  | .poolDestroy =>
    match s.destroyer with
    | .atCall =>
      if s.allocated then
        if s.state.pool.shutdown then .ok (some (.returned (-1)), s) else do
        let (jobs, pool) ← s.state.pool.poolDestroy
        .ok (some (.dropped jobs), { s with
          state := { s.state with pool := pool }
          destroyer := .atFree
          threadid := false })
      else .error .dangling
    | .atFree =>
      .ok (some (.returned ccENone), { s with destroyer := .atCall, allocated := false })

def LifeStep.added : LifeStep T J → Option J
  | .poolAddWorker job _ => some job
  | .threadRoutine _ => none
  | .poolDestroy => none

def LifeEvent.taken : LifeEvent J → List J
  | .took job => [job]
  | .dropped _ => []
  | .returned _ => []

def LifeEvent.released : LifeEvent J → List J
  | .took _ => []
  | .dropped jobs => jobs
  | .returned _ => []

/-- What the steps of a run have taken or dropped. -/
def jobsOf (f : LifeEvent J → List J) (es : List (Option (LifeEvent J))) : List J :=
  es.flatMap (fun e => (e.map f).getD [])

@[simp]
theorem jobsOf_concat (f : LifeEvent J → List J) (es : List (Option (LifeEvent J)))
    (e : Option (LifeEvent J)) :
  jobsOf f (es ++ [e]) = jobsOf f es ++ (e.map f).getD []
  := by
  rw [jobsOf, List.flatMap_append, List.flatMap_singleton]
  rfl

/-! ### The memory of the jobs -/

namespace PoolState

/-- The jobs `es` are queued, every thread that works has a job of its own, which is not one of
them, and no other job is in memory. -/
structure Tidy (s : PoolState T J) (es : List (ℕ × J)) : Prop where
  lies : s.pool.Lies es
  owned : ∀ t worker, s.threads t = .working worker →
    ∃ a, worker = some a ∧ a ∉ es.map Prod.fst ∧ (s.pool.workers.cells a).isSome
  apart : ∀ t t' worker, s.threads t = .working worker → s.threads t' = .working worker → t = t'
  covered : s.pool.workers.CoveredBy
    {a | a ∈ es.map Prod.fst ∨ ∃ t, s.threads t = .working (some a)}

theorem tidy_start :
  (start : PoolState T J).Tidy []
  := by
  constructor
  · exact ⟨rfl, trivial, List.nodup_nil⟩
  · intro t worker hworking
    cases hworking
  · intro t t' worker hworking
    cases hworking
  · exact Heap.coveredBy_empty.mono (Set.empty_subset _)

end PoolState

/-- Adding a job allocates the memory for one. -/
theorem LinkedPool.poolAddWorker_covered {pool pool' : LinkedPool J} {job : J} {malloc : Bool}
    {A : Set ℕ} (hcovered : pool.workers.CoveredBy A)
    (hadd : pool.poolAddWorker job malloc = .ok pool') :
  pool'.workers.CoveredBy (insert pool.workers.limit A)
  := by
  have hnew := hcovered.alloc ⟨job, none⟩
  cases malloc with
  | false => cases hadd
  | true =>
      simp only [LinkedPool.poolAddWorker, if_true] at hadd
      cases hhead : pool.queueHead with
      | none =>
          rw [hhead] at hadd
          cases hadd
          exact hnew
      | some member =>
          simp only [hhead, bind_eq_ok] at hadd
          obtain ⟨last, -, worker, -, workers, hwrite, hpool⟩ := hadd
          cases hpool
          exact hnew.write hwrite

/-- What a thread does when it gets the lock. -/
theorem LinkedPool.Lies.takeWorker_cases {pool pool' : LinkedPool J} {es : List (ℕ × J)}
    (h : pool.Lies es) {job : Option J} {state : ThreadState}
    (htake : pool.takeWorker = .ok (job, state, pool')) :
  job = none ∧ pool' = pool ∧
      state = (if pool.shutdown then ThreadState.exited else ThreadState.waiting) ∨
    pool.shutdown = false ∧ ∃ e es', es = e :: es' ∧ job = some e.2 ∧
      state = .working (some e.1) ∧ pool'.Lies es' ∧ pool'.workers = pool.workers ∧
      pool'.shutdown = false
  := by
  cases hshutdown : pool.shutdown with
  | true =>
      simp only [LinkedPool.takeWorker, hshutdown, not_true_eq_false, and_false, if_false,
        if_true] at htake
      cases htake
      exact .inl ⟨rfl, rfl, rfl⟩
  | false =>
      by_cases hsize : pool.curQueueSize = 0
      · rw [LinkedPool.takeWorker_waits hshutdown hsize] at htake
        cases htake
        exact .inl ⟨rfl, rfl, rfl⟩
      · cases es with
        | nil =>
            have hhead : pool.queueHead = none := h.head
            simp [LinkedPool.takeWorker, hshutdown, hsize, hhead] at htake
        | cons e es =>
            obtain ⟨pool'', hok, hlies, hworkers, hrunning, -⟩ := h.takeWorker hshutdown hsize
            rw [hok] at htake
            cases htake
            exact .inr ⟨rfl, e, es, rfl, rfl, rfl, hlies, hworkers, hrunning⟩

namespace PoolState

section

variable {s : PoolState T J} {es es' : List (ℕ × J)} {pool' : LinkedPool J}

/-- A job that is added comes last. -/
theorem Tidy.poolAddWorker (h : s.Tidy es) {job : J} {malloc : Bool}
    (hadd : s.pool.poolAddWorker job malloc = .ok pool') :
  Tidy { s with pool := pool' } (es ++ [(s.pool.workers.limit, job)]) ∧
    pool'.shutdown = s.pool.shutdown
  := by
  have hcovered := LinkedPool.poolAddWorker_covered h.covered hadd
  cases malloc with
  | false => cases hadd
  | true =>
      obtain ⟨pool'', hok, hlies, hshutdown, -, hcells⟩ := h.lies.poolAddWorker job
      rw [hok] at hadd
      cases hadd
      refine ⟨⟨hlies, ?_, h.apart, ?_⟩, hshutdown⟩
      · intro t worker hworking
        obtain ⟨a, rfl, hapart, hsome⟩ := h.owned t worker hworking
        obtain ⟨v, hv⟩ := Option.isSome_iff_exists.mp hsome
        have hlt := Heap.lt_limit hv
        refine ⟨a, rfl, ?_, ?_⟩
        · rw [List.map_append, List.mem_append, not_or]
          use hapart
          simp only [List.map_cons, List.map_nil, List.mem_singleton]
          omega
        · rw [hcells a hlt hapart]
          exact hsome
      · apply hcovered.mono
        rintro a (rfl | ha | ha)
        · exact .inl (by simp)
        · exact .inl (by simp [ha])
        · exact .inr ha

variable [DecidableEq T] {t : T} {state : ThreadState}

/-- The thread `t` takes a step, and keeps or takes a job that no other thread has. -/
theorem Tidy.thread (h : s.Tidy es) (hlies : pool'.Lies es')
    (hothers : ∀ t' a, t' ≠ t → s.threads t' = .working (some a) →
      a ∉ es'.map Prod.fst ∧ (pool'.workers.cells a).isSome)
    (hstate : ∀ worker, state = .working worker → (∃ a, worker = some a ∧
      a ∉ es'.map Prod.fst ∧ (pool'.workers.cells a).isSome) ∧
        ∀ t', t' ≠ t → s.threads t' ≠ .working worker)
    (hcovered : pool'.workers.CoveredBy {a | a ∈ es'.map Prod.fst ∨ state = .working (some a) ∨
      ∃ t', t' ≠ t ∧ s.threads t' = .working (some a)}) :
  Tidy ⟨pool', Function.update s.threads t state⟩ es'
  := by
  have hcases : ∀ t₁ worker, Function.update s.threads t state t₁ = .working worker →
      t₁ = t ∧ state = .working worker ∨ t₁ ≠ t ∧ s.threads t₁ = .working worker := by
    intro t₁ worker hworking
    by_cases heq : t₁ = t
    · rw [heq, Function.update_self] at hworking
      exact .inl ⟨heq, hworking⟩
    · rw [Function.update_of_ne heq] at hworking
      exact .inr ⟨heq, hworking⟩
  constructor
  · exact hlies
  · intro t₁ worker hworking
    rcases hcases t₁ worker hworking with ⟨-, hworking⟩ | ⟨hne, hworking⟩
    · exact (hstate worker hworking).1
    · obtain ⟨a, rfl, -, -⟩ := h.owned t₁ worker hworking
      exact ⟨a, rfl, hothers t₁ a hne hworking⟩
  · intro t₁ t₂ worker hworking₁ hworking₂
    rcases hcases t₁ worker hworking₁ with ⟨rfl, hnew⟩ | ⟨hne₁, hold₁⟩
    · rcases hcases t₂ worker hworking₂ with ⟨rfl, -⟩ | ⟨hne₂, hold₂⟩
      · rfl
      · exact absurd hold₂ ((hstate worker hnew).2 t₂ hne₂)
    · rcases hcases t₂ worker hworking₂ with ⟨rfl, hnew⟩ | ⟨-, hold₂⟩
      · exact absurd hold₁ ((hstate worker hnew).2 t₁ hne₁)
      · exact h.apart t₁ t₂ worker hold₁ hold₂
  · apply hcovered.mono
    rintro a (ha | ha | ⟨t', hne, ha⟩)
    · exact .inl ha
    · exact .inr ⟨t, (Function.update_self ..).trans ha⟩
    · exact .inr ⟨t', (Function.update_of_ne hne ..).trans ha⟩

/-- A thread that has the lock and no job takes the first one, waits or exits. -/
theorem Tidy.takeWorker (h : s.Tidy es) (hidle : (s.threads t).usesPool = true) {job : Option J}
    (htake : s.pool.takeWorker = .ok (job, state, pool')) :
  ∃ es', Tidy ⟨pool', Function.update s.threads t state⟩ es' ∧
    job.toList ++ es'.map Prod.snd = es.map Prod.snd ∧ pool'.shutdown = s.pool.shutdown ∧
    (s.pool.shutdown = true → job = none ∧ state = .exited ∧ es' = es) ∧
    (state = .exited → s.pool.shutdown = true)
  := by
  have hother : ∀ t' a, s.threads t' = .working (some a) → t' ≠ t := by
    rintro t' a hworking rfl
    rw [hworking] at hidle
    cases hidle
  have howned : ∀ t' a, s.threads t' = .working (some a) →
      a ∉ es.map Prod.fst ∧ (s.pool.workers.cells a).isSome := by
    intro t' a hworking
    obtain ⟨_, hworker, hapart⟩ := h.owned t' _ hworking
    cases hworker
    exact hapart
  rcases h.lies.takeWorker_cases htake with
    ⟨rfl, rfl, hstate⟩ | ⟨hrunning, e, es', rfl, rfl, rfl, hlies, hworkers, hrunning'⟩
  · have hnotWorking : ∀ worker, state ≠ .working worker := by
      intro worker heq
      rw [heq] at hstate
      split at hstate <;> cases hstate
    refine ⟨es, ?_, rfl, rfl, ?_, ?_⟩
    · apply h.thread h.lies
      · intro t' a _ hworking
        exact howned t' a hworking
      · intro worker heq
        exact absurd heq (hnotWorking worker)
      · apply h.covered.mono
        rintro a (ha | ⟨t', hworking⟩)
        · exact .inl ha
        · exact .inr (.inr ⟨t', hother t' a hworking, hworking⟩)
    · intro hshutdown
      rw [if_pos hshutdown] at hstate
      exact ⟨rfl, hstate, rfl⟩
    · intro hexited
      by_contra hshutdown
      rw [if_neg hshutdown, hexited] at hstate
      cases hstate
  · have hnodup := h.lies.nodup
    rw [List.map_cons, List.nodup_cons] at hnodup
    refine ⟨es', ?_, rfl, hrunning'.trans hrunning.symm, ?_, nofun⟩
    · apply h.thread hlies
      · intro t' a _ hworking
        obtain ⟨hapart, hsome⟩ := howned t' a hworking
        rw [List.map_cons, List.mem_cons, not_or] at hapart
        rw [hworkers]
        exact ⟨hapart.2, hsome⟩
      · rintro _ ⟨⟩
        constructor
        · use e.1, rfl, hnodup.1
          rw [hworkers]
          exact h.lies.seg.isSome (List.mem_cons_self ..)
        · intro t' _ hworking
          exact (howned t' _ hworking).1 (by simp)
      · rw [hworkers]
        apply h.covered.mono
        rintro a (ha | ⟨t', hworking⟩)
        · rw [List.map_cons, List.mem_cons] at ha
          rcases ha with rfl | ha
          · exact .inr (.inl rfl)
          · exact .inl ha
        · exact .inr (.inr ⟨t', hother t' a hworking, hworking⟩)
    · intro hshutdown
      rw [hrunning] at hshutdown
      cases hshutdown

/-- A thread releases the memory of its own job. -/
theorem Tidy.finishWorker (h : s.Tidy es) {worker : Option ℕ}
    (hworking : s.threads t = .working worker) :
  ∃ pool', s.pool.finishWorker worker = .ok pool' ∧
    Tidy ⟨pool', Function.update s.threads t .atLock⟩ es ∧ pool'.shutdown = s.pool.shutdown
  := by
  obtain ⟨a, rfl, hapart, hsome⟩ := h.owned t worker hworking
  obtain ⟨v, hv⟩ := Option.isSome_iff_exists.mp hsome
  let pool' : LinkedPool J := { s.pool with workers := s.pool.workers.erase a }
  refine ⟨pool', ?_, ?_, rfl⟩
  · simp only [LinkedPool.finishWorker, Heap.read_some hv, Heap.free_some hv, ok_bind, pool']
  · have hlies : pool'.Lies es := by
      apply h.lies.congr pool' rfl
      intro e he
      apply Heap.erase_cells_of_ne
      rintro rfl
      exact hapart (List.mem_map_of_mem he)
    apply h.thread hlies
    · intro t' a' hne hworking'
      obtain ⟨_, hworker, hapart', hsome'⟩ := h.owned t' _ hworking'
      cases hworker
      use hapart'
      have hother : a' ≠ a := by
        rintro rfl
        exact hne (h.apart t' t _ hworking' hworking)
      change ((s.pool.workers.erase a).cells a').isSome = true
      rw [Heap.erase_cells_of_ne hother]
      exact hsome'
    · intro _ hatLock
      cases hatLock
    · apply (h.covered.erase a).mono
      rintro a' ⟨ha | ⟨t', hworking'⟩, hne⟩
      · exact .inl ha
      · refine .inr (.inr ⟨t', ?_, hworking'⟩)
        rintro rfl
        rw [hworking'] at hworking
        cases hworking
        exact hne rfl

omit [DecidableEq T] in
/-- `pool_destroy` drops the jobs that are queued, and releases their memory. -/
theorem Tidy.poolDestroy (h : s.Tidy es) :
  ∃ pool', s.pool.poolDestroy = .ok (es.map Prod.snd, pool') ∧
    Tidy { s with pool := pool' } [] ∧ pool'.shutdown = true
  := by
  have hlen := h.lies.seg.length_le h.lies.nodup
  obtain ⟨dropped, workers, hfree, hjobs, -, hreleased, hkept⟩ :=
    h.lies.seg.freeAll CThreadWorker.next (fun _ _ _ => rfl) CThreadWorker.job Prod.snd
      (fun _ _ _ => rfl) h.lies.nodup (s.pool.workers.limit + 1) (by omega)
  use { s.pool with workers := workers, queueHead := none, shutdown := true }
  refine ⟨?_, ⟨⟨rfl, trivial, List.nodup_nil⟩, ?_, h.apart, ?_⟩, rfl⟩
  · simp only [LinkedPool.poolDestroy, h.lies.head, hfree, ok_bind, hjobs]
  · intro t worker hworking
    obtain ⟨a, rfl, hapart, hsome⟩ := h.owned t worker hworking
    refine ⟨a, rfl, List.not_mem_nil, ?_⟩
    change (workers.cells a).isSome = true
    rw [hkept a hapart]
    exact hsome
  · intro a ha
    change (workers.cells a).isSome = true at ha
    by_cases hin : a ∈ es.map workerLayout.addr
    · rw [hreleased a hin] at ha
      cases ha
    · rw [hkept a hin] at ha
      rcases h.covered a ha with hmem | hworking
      · exact absurd hmem hin
      · exact .inr hworking

end

end PoolState

/-! ### Every life of a pool -/

namespace PoolLife

/-- The jobs `es` are queued; a pool that is released, or about to be, has been shut down; and
no thread exits before. -/
structure Kept (s : PoolLife T J) (es : List (ℕ × J)) : Prop where
  tidy : s.state.Tidy es
  shutdown : s.destroyer = .atFree ∨ s.allocated = false → s.state.pool.shutdown = true
  allocated : s.destroyer = .atFree → s.allocated = true
  exited : ∀ t, s.state.threads t = .exited → s.state.pool.shutdown = true
  attr : s.attr = true

theorem kept_start :
  (start : PoolLife T J).Kept []
  := by
  constructor
  · exact PoolState.tidy_start
  · rintro (h | h) <;> cases h
  · rintro ⟨⟩
  · rintro t ⟨⟩
  · rfl

section

variable [DecidableEq T] {s s' : PoolLife T J} {es : List (ℕ × J)}

/-- What a step takes, drops and leaves is what there was and what it adds. Once the pool has been
shut down it stays so, and nothing is taken. -/
structure Passes (s : PoolLife T J) (es : List (ℕ × J)) (step : LifeStep T J)
    (e : Option (LifeEvent J)) (s' : PoolLife T J) (es' : List (ℕ × J)) : Prop where
  kept : s'.Kept es'
  jobs : (e.map LifeEvent.taken).getD [] ++ ((e.map LifeEvent.released).getD [] ++ es'.map Prod.snd)
    = es.map Prod.snd ++ step.added.toList
  shutdown : s.state.pool.shutdown = true →
    s'.state.pool.shutdown = true ∧ (e.map LifeEvent.taken).getD [] = []
  running : s'.state.pool.shutdown = false → (e.map LifeEvent.released).getD [] = []

theorem Kept.poolAddWorker (h : s.Kept es) {job : J} {malloc : Bool} {e : Option (LifeEvent J)}
    (hstep : lifeStep s (.poolAddWorker job malloc) = .ok (e, s')) :
  ∃ es', Passes s es (.poolAddWorker job malloc) e s' es'
  := by
  cases hallocated : s.allocated with
  | false => simp [lifeStep, hallocated] at hstep
  | true =>
      simp only [lifeStep, hallocated, if_true, bind_eq_ok] at hstep
      obtain ⟨pool', hadd, hok⟩ := hstep
      cases hok
      obtain ⟨htidy, hshutdown⟩ := h.tidy.poolAddWorker hadd
      refine ⟨_, ⟨htidy, ?_, fun _ => rfl, ?_, h.attr⟩, ?_, ?_, fun _ => rfl⟩
      · rintro (hlate | hlate)
        · exact hshutdown.trans (h.shutdown (.inl hlate))
        · cases hlate
      · intro t hexited
        exact hshutdown.trans (h.exited t hexited)
      · simp [LifeStep.added]
      · intro hshut
        exact ⟨hshutdown.trans hshut, rfl⟩

/-- A thread that can go on does its job, or takes one if the pool has not been shut down. -/
theorem Kept.threadRoutine (h : s.Kept es) {t : T} {e : Option (LifeEvent J)}
    (hstep : lifeStep s (.threadRoutine t) = .ok (e, s')) :
  ∃ es', Passes s es (.threadRoutine t) e s' es'
  := by
  have htakes : (s.state.threads t).usesPool = true →
      s.state.pool.threadRoutine (s.state.threads t) = s.state.pool.takeWorker →
      ∃ es', Passes s es (.threadRoutine t) e s' es' := by
    intro huses hroutine
    cases hallocated : s.allocated with
    | false => simp [lifeStep, hallocated, huses] at hstep
    | true =>
        simp only [lifeStep, hallocated, true_or, if_true, hroutine, bind_eq_ok] at hstep
        obtain ⟨⟨job, state, pool'⟩, htake, hok⟩ := hstep
        cases hok
        obtain ⟨es', htidy, hjobs, hshutdown, hdown, hexits⟩ := h.tidy.takeWorker huses htake
        refine ⟨es', ⟨htidy, ?_, fun _ => rfl, ?_, h.attr⟩, ?_, ?_, ?_⟩
        · rintro (hlate | hlate)
          · exact hshutdown.trans (h.shutdown (.inl hlate))
          · cases hlate
        · intro t' hexited
          apply hshutdown.trans
          by_cases heq : t' = t
          · subst heq
            exact hexits ((Function.update_self ..).symm.trans hexited)
          · exact h.exited t' ((Function.update_of_ne heq ..).symm.trans hexited)
        · rw [LifeStep.added, Option.toList_none, List.append_nil, ← hjobs]
          cases job with
          | none => rfl
          | some job => rfl
        · intro hshut
          obtain ⟨rfl, -, -⟩ := hdown hshut
          exact ⟨hshutdown.trans hshut, rfl⟩
        · intro _
          cases job with
          | none => rfl
          | some job => rfl
  cases hstate : s.state.threads t with
  | atLock => exact htakes (by rw [hstate]; rfl) (by rw [hstate]; rfl)
  | waiting => exact htakes (by rw [hstate]; rfl) (by rw [hstate]; rfl)
  | working worker =>
      obtain ⟨pool', hfinish, htidy, hshutdown⟩ := h.tidy.finishWorker hstate
      simp only [lifeStep, hstate, ThreadState.usesPool, or_true, if_true,
        LinkedPool.threadRoutine, hfinish, ok_bind] at hstep
      cases hstep
      refine ⟨es, ⟨htidy, ?_, h.allocated, ?_, h.attr⟩, ?_, ?_, fun _ => rfl⟩
      · intro hlate
        exact hshutdown.trans (h.shutdown hlate)
      · intro t' hexited
        apply hshutdown.trans
        by_cases heq : t' = t
        · subst heq
          cases (Function.update_self ..).symm.trans hexited
        · exact h.exited t' ((Function.update_of_ne heq ..).symm.trans hexited)
      · simp [LifeStep.added]
      · intro hshut
        exact ⟨hshutdown.trans hshut, rfl⟩
  | exited =>
      simp only [lifeStep, hstate, ThreadState.usesPool, or_true, if_true,
        LinkedPool.threadRoutine, ok_bind] at hstep
      rw [← hstate, Function.update_eq_self] at hstep
      cases hstep
      refine ⟨es, h, ?_, ?_, fun _ => rfl⟩
      · simp [LifeStep.added]
      · intro hshut
        exact ⟨hshut, rfl⟩

theorem Kept.poolDestroy (h : s.Kept es) {e : Option (LifeEvent J)}
    (hstep : lifeStep s .poolDestroy = .ok (e, s')) :
  ∃ es', Passes s es .poolDestroy e s' es'
  := by
  cases hdestroyer : s.destroyer with
  | atFree =>
      simp only [lifeStep, hdestroyer] at hstep
      cases hstep
      have hshut := h.shutdown (.inl hdestroyer)
      refine ⟨es, ⟨h.tidy, fun _ => hshut, nofun, h.exited, h.attr⟩, ?_, ?_, fun _ => rfl⟩
      · simp [LifeEvent.taken, LifeEvent.released, LifeStep.added]
      · intro _
        exact ⟨hshut, rfl⟩
  | atCall =>
      cases hallocated : s.allocated with
      | false => simp [lifeStep, hdestroyer, hallocated] at hstep
      | true =>
          cases hshut : s.state.pool.shutdown with
          | true =>
              simp only [lifeStep, hdestroyer, hallocated, hshut, if_true] at hstep
              cases hstep
              refine ⟨es, h, ?_, ?_, fun _ => rfl⟩
              · simp [LifeEvent.taken, LifeEvent.released, LifeStep.added]
              · intro _
                exact ⟨hshut, rfl⟩
          | false =>
              obtain ⟨pool', hdestroy, htidy, hdown⟩ := h.tidy.poolDestroy
              simp only [lifeStep, hdestroyer, hallocated, hshut, if_true, Bool.false_eq_true,
                if_false, hdestroy, ok_bind] at hstep
              cases hstep
              refine ⟨[], ⟨htidy, fun _ => hdown, fun _ => rfl, fun _ _ => hdown, h.attr⟩,
                ?_, ?_, ?_⟩
              · simp [LifeEvent.taken, LifeEvent.released, LifeStep.added]
              · intro hshut'
                exact absurd (hshut.symm.trans hshut') (by simp)
              · intro hrunning
                exact absurd (hdown.symm.trans hrunning) (by simp)

theorem Kept.step (h : s.Kept es) {step : LifeStep T J} {e : Option (LifeEvent J)}
    (hstep : lifeStep s step = .ok (e, s')) :
  ∃ es', Passes s es step e s' es'
  := by
  cases step with
  | poolAddWorker job malloc => exact h.poolAddWorker hstep
  | threadRoutine t => exact h.threadRoutine hstep
  | poolDestroy => exact h.poolDestroy hstep

/-- The jobs taken, those dropped and those queued are the jobs added, and none is dropped before
the pool is shut down. -/
theorem kept_run {steps : List (LifeStep T J)} {events : List (Option (LifeEvent J))}
    (hrun : Machine.run lifeStep (start : PoolLife T J) steps = .ok (events, s)) :
  ∃ es, s.Kept es ∧
    jobsOf LifeEvent.taken events ++ (jobsOf LifeEvent.released events ++ es.map Prod.snd)
      = steps.filterMap LifeStep.added ∧
    (s.state.pool.shutdown = false → jobsOf LifeEvent.released events = [])
  := by
  induction steps using List.reverseRecOn generalizing events s with
  | nil =>
      obtain ⟨rfl, rfl⟩ : [] = events ∧ start = s := by simpa [Machine.run] using hrun
      exact ⟨[], kept_start, rfl, fun _ => rfl⟩
  | append_singleton steps step ih =>
      obtain ⟨events', s₁, e, hrun', hstep, rfl⟩ := Machine.run_concat_ok hrun
      obtain ⟨es₁, hkept, hjobs, hrunning⟩ := ih hrun'
      obtain ⟨es, hpasses⟩ := hkept.step hstep
      have hadded : [step].filterMap LifeStep.added = step.added.toList := by
        cases step <;> rfl
      have hpassed := hpasses.jobs
      refine ⟨es, hpasses.kept, ?_, ?_⟩
      · rw [jobsOf_concat, jobsOf_concat, List.filterMap_append, hadded, ← hjobs]
        cases hshut : s₁.state.pool.shutdown with
        | true =>
            -- nothing is taken any more
            rw [(hpasses.shutdown hshut).2, List.nil_append] at hpassed
            rw [(hpasses.shutdown hshut).2, List.append_nil, List.append_assoc, hpassed]
            simp only [List.append_assoc]
        | false =>
            rw [hrunning hshut, List.nil_append, List.nil_append, List.append_assoc,
              List.append_assoc, hpassed]
      · intro hstays
        rw [jobsOf_concat, hpasses.running hstays, List.append_nil]
        apply hrunning
        by_contra hshut
        exact absurd ((hpasses.shutdown (by simpa using hshut)).1.symm.trans hstays) (by simp)

end

end PoolLife

/-- In every run in which the calls that add jobs, the threads of the pool and `pool_destroy`
take turns: the jobs that the threads have taken, then those that `pool_destroy` has dropped, then
those that are queued are the jobs added, in that order; and the memory of a job is allocated
exactly as long as the job is queued or a thread is doing it. -/
theorem jobs_accounted [DecidableEq T] (steps : List (LifeStep T J))
    (events : List (Option (LifeEvent J))) (s : PoolLife T J)
    (hrun : Machine.run lifeStep PoolLife.start steps = .ok (events, s)) :
  ∃ queued : List (ℕ × J), s.state.Tidy queued ∧
    jobsOf LifeEvent.taken events ++ jobsOf LifeEvent.released events ++ queued.map Prod.snd
      = steps.filterMap LifeStep.added
  := by
  obtain ⟨queued, hkept, hjobs, -⟩ := PoolLife.kept_run hrun
  use queued, hkept.tidy
  rw [List.append_assoc]
  exact hjobs

/-- Two threads; one job is taken, the other is dropped, and both threads exit. -/
def twoThreads : List (LifeStep Bool ℕ) :=
  [.poolAddWorker 1 true, .poolAddWorker 2 true, .threadRoutine true, .poolDestroy,
    .threadRoutine false, .threadRoutine true, .threadRoutine true, .poolDestroy]

theorem jobs_accounted_twoThreads :
  ∃ (events : List (Option (LifeEvent ℕ))) (s : PoolLife Bool ℕ),
    Machine.run lifeStep PoolLife.start twoThreads = .ok (events, s) ∧
    ∃ queued : List (ℕ × ℕ), s.state.Tidy queued ∧
      jobsOf LifeEvent.taken events ++ jobsOf LifeEvent.released events ++ queued.map Prod.snd
        = twoThreads.filterMap LifeStep.added
  := ⟨_, _, rfl, jobs_accounted twoThreads _ _ rfl⟩

/-! ### Threads that are left -/

/-- What a thread comes to in a turn when the pool has been shut down. -/
def ThreadState.leaves : ThreadState → ThreadState
  | .atLock => .exited
  | .waiting => .exited
  | .working _ => .atLock
  | .exited => .exited

/-- How many turns a thread needs until it exits when the pool has been shut down. -/
def ThreadState.turnsToExit : ThreadState → ℕ
  | .atLock => 1
  | .waiting => 1
  | .working _ => 2
  | .exited => 0

theorem ThreadState.leaves_iterate_iff (state : ThreadState) (n : ℕ) :
  leaves^[n] state = .exited ↔ state.turnsToExit ≤ n
  := by
  induction n generalizing state with
  | zero => cases state <;> simp [turnsToExit]
  | succ n ih =>
      rw [Function.iterate_succ_apply, ih]
      cases state <;> simp [leaves, turnsToExit]

namespace PoolLife

section

variable [DecidableEq T] {s : PoolLife T J} {es : List (ℕ × J)}

/-- A thread that can go on when the pool has been shut down. -/
theorem Kept.turn (h : s.Kept es) (hshut : s.state.pool.shutdown = true) {t : T}
    (hgoes : s.allocated = true ∨ (s.state.threads t).usesPool = false) :
  ∃ pool', lifeStep s (.threadRoutine t) = .ok (none, { s with
      state := ⟨pool', Function.update s.state.threads t (s.state.threads t).leaves⟩ }) ∧
    pool'.shutdown = true
  := by
  have hexits : s.state.pool.takeWorker = .ok (none, .exited, s.state.pool) := by
    simp [LinkedPool.takeWorker, hshut]
  cases hstate : s.state.threads t with
  | atLock =>
      rw [hstate] at hgoes
      use s.state.pool
      simp only [lifeStep, hgoes, if_true, hstate, LinkedPool.threadRoutine, hexits, ok_bind]
      exact ⟨rfl, hshut⟩
  | waiting =>
      rw [hstate] at hgoes
      use s.state.pool
      simp only [lifeStep, hgoes, if_true, hstate, LinkedPool.threadRoutine, hexits, ok_bind]
      exact ⟨rfl, hshut⟩
  | working worker =>
      obtain ⟨pool', hfinish, -, hshutdown⟩ := h.tidy.finishWorker hstate
      rw [hstate] at hgoes
      use pool'
      simp only [lifeStep, hgoes, if_true, hstate, LinkedPool.threadRoutine, hfinish, ok_bind]
      exact ⟨rfl, hshutdown.trans hshut⟩
  | exited =>
      rw [hstate] at hgoes
      use s.state.pool
      simp only [lifeStep, hgoes, if_true, hstate, LinkedPool.threadRoutine, ok_bind]
      exact ⟨rfl, hshut⟩

/-- Turns of the threads when the pool has been shut down, as long as it is allocated or there is
no thread left. -/
theorem Kept.turns (h : s.Kept es) (hshut : s.state.pool.shutdown = true) (turns : List T)
    (hgoes : s.allocated = true ∨ ∀ t, s.state.threads t = .exited) :
  ∃ (events : List (Option (LifeEvent J))) (s' : PoolLife T J) (es' : List (ℕ × J)),
    Machine.run lifeStep s (turns.map LifeStep.threadRoutine) = .ok (events, s') ∧
    s'.Kept es' ∧ s'.destroyer = s.destroyer ∧ s'.allocated = s.allocated ∧
    s'.state.pool.shutdown = true ∧
    (∀ t, s'.state.threads t = ThreadState.leaves^[turns.count t] (s.state.threads t)) ∧
    es'.map Prod.snd = es.map Prod.snd
  := by
  induction turns generalizing s es with
  | nil => exact ⟨[], s, es, rfl, h, rfl, rfl, hshut, fun _ => rfl, rfl⟩
  | cons t turns ih =>
      have hcan : s.allocated = true ∨ (s.state.threads t).usesPool = false := by
        rcases hgoes with hallocated | hexited
        · exact .inl hallocated
        · exact .inr (by rw [hexited t]; rfl)
      obtain ⟨pool', hstep, hshut'⟩ := h.turn hshut hcan
      obtain ⟨es₁, hpasses⟩ := h.threadRoutine hstep
      have hgoes' : s.allocated = true ∨ ∀ t',
          Function.update s.state.threads t (s.state.threads t).leaves t' = .exited := by
        rcases hgoes with hallocated | hexited
        · exact .inl hallocated
        · right
          intro t'
          by_cases heq : t' = t
          · rw [heq, Function.update_self, hexited t]
            rfl
          · rw [Function.update_of_ne heq, hexited t']
      obtain ⟨events, s', es', hrun, hkept, hdestroyer, hallocated, hshut'', hthreads, hjobs⟩ :=
        ih hpasses.kept hshut' hgoes'
      refine ⟨none :: events, s', es', ?_, hkept, hdestroyer, hallocated, hshut'', ?_, ?_⟩
      · rw [List.map_cons, Machine.run_cons hstep, hrun]
        rfl
      · intro t'
        rw [hthreads t']
        by_cases heq : t' = t
        · rw [heq, List.count_cons_self, Function.iterate_succ_apply]
          dsimp only
          rw [Function.update_self]
        · rw [List.count_cons_of_ne (Ne.symm heq)]
          dsimp only
          rw [Function.update_of_ne heq]
      · have hpassed := hpasses.jobs
        simp only [Option.map_none, Option.getD_none, List.nil_append, LifeStep.added,
          Option.toList_none, List.append_nil] at hpassed
        rw [hjobs, hpassed]

/-- A thread that has not exited follows a pointer to the released pool. -/
theorem turns_fault (hallocated : s.allocated = false) {t : T}
    (ht : s.state.threads t ≠ .exited) (events : List (Option (LifeEvent J)))
    (s' : PoolLife T J) :
  Machine.run lifeStep s ([t, t].map LifeStep.threadRoutine) ≠ .ok (events, s')
  := by
  intro hrun
  obtain ⟨e, s₁, events', hstep, hrun', -⟩ := Machine.run_cons_ok hrun
  obtain ⟨e', s₂, events'', hstep', -, -⟩ := Machine.run_cons_ok hrun'
  cases hstate : s.state.threads t with
  | atLock => simp [lifeStep, hallocated, hstate, ThreadState.usesPool] at hstep
  | waiting => simp [lifeStep, hallocated, hstate, ThreadState.usesPool] at hstep
  | working worker =>
      simp only [lifeStep, hstate, ThreadState.usesPool, or_true, if_true,
        LinkedPool.threadRoutine, bind_eq_ok] at hstep
      obtain ⟨_, ⟨pool', -, hok⟩, hok'⟩ := hstep
      cases hok
      cases hok'
      simp [lifeStep, hallocated, ThreadState.usesPool] at hstep'
  | exited => exact absurd hstate ht

end

end PoolLife

/-- When `pool_destroy` is called on a pool that has not been shut down, whatever has been done
with the pool before and in whatever order its threads then take turns: the call returns, and no
thread ever follows a pointer to the released pool, however the threads go on, exactly if each
thread has taken the turns that it needs to exit while `pool_destroy` has released the lock and
not yet the pool. All the memory of the jobs is then released. -/
theorem destroy_safe_iff [DecidableEq T] (steps : List (LifeStep T J))
    (events : List (Option (LifeEvent J))) (s : PoolLife T J)
    (hrun : Machine.run lifeStep PoolLife.start steps = .ok (events, s))
    (hrunning : s.state.pool.shutdown = false) (turns : List T) :
  ∃ (events' : List (Option (LifeEvent J))) (s' : PoolLife T J),
    Machine.run lifeStep s (.poolDestroy :: turns.map LifeStep.threadRoutine ++ [.poolDestroy])
      = .ok (events', s') ∧
    events'.getLast? = some (some (.returned ccENone)) ∧
    ((∀ later : List T, ∃ events'' s'',
        Machine.run lifeStep s' (later.map LifeStep.threadRoutine) = .ok (events'', s'')) ↔
      ∀ t, (s.state.threads t).turnsToExit ≤ turns.count t) ∧
    ((∀ t, (s.state.threads t).turnsToExit ≤ turns.count t) →
      ∀ a, s'.state.pool.workers.cells a = none)
  := by
  obtain ⟨es, hkept, -, -⟩ := PoolLife.kept_run hrun
  have hdestroyer : s.destroyer = .atCall := by
    cases hlate : s.destroyer with
    | atCall => rfl
    | atFree => exact absurd ((hkept.shutdown (.inl hlate)).symm.trans hrunning) (by simp)
  have hallocated : s.allocated = true := by
    by_contra hfreed
    have hshut := hkept.shutdown (.inr (by simpa using hfreed))
    exact absurd (hshut.symm.trans hrunning) (by simp)
  obtain ⟨pool₁, hdestroy, htidy, hshut⟩ := hkept.tidy.poolDestroy
  let s₁ : PoolLife T J := { s with
    state := { s.state with pool := pool₁ }
    destroyer := .atFree
    threadid := false }
  have hstep : lifeStep s .poolDestroy
      = .ok (some (LifeEvent.dropped (es.map Prod.snd)), s₁) := by
    simp [lifeStep, hdestroyer, hallocated, hrunning, hdestroy, s₁]
  have hkept₁ : s₁.Kept [] :=
    ⟨htidy, fun _ => hshut, fun _ => hallocated, fun _ _ => hshut, hkept.attr⟩
  obtain ⟨events₂, s₂, es₂, hturns, hkept₂, hdestroyer₂, -, hshut₂, hthreads, hjobs⟩ :=
    hkept₁.turns hshut turns (.inl hallocated)
  obtain rfl : es₂ = [] := by simpa using hjobs
  let s₃ : PoolLife T J := { s₂ with destroyer := .atCall, allocated := false }
  have hfree : lifeStep s₂ .poolDestroy = .ok (some (LifeEvent.returned ccENone), s₃) := by
    simp only [lifeStep, hdestroyer₂, s₁, s₃]
  have hkept₃ : s₃.Kept [] := ⟨hkept₂.tidy, fun _ => hshut₂, nofun, hkept₂.exited, hkept₂.attr⟩
  have hexited : (∀ t, s₃.state.threads t = .exited) ↔
      ∀ t, (s.state.threads t).turnsToExit ≤ turns.count t := by
    apply forall_congr'
    intro t
    rw [← ThreadState.leaves_iterate_iff]
    exact iff_of_eq (congrArg (· = _) (hthreads t))
  refine ⟨some (.dropped (es.map Prod.snd)) :: (events₂ ++ [some (.returned ccENone)]), s₃,
    ?_, ?_, ?_, ?_⟩
  · rw [List.cons_append, Machine.run_cons hstep, Machine.run_append hturns,
      Machine.run_cons hfree]
    rfl
  · rw [← List.cons_append, List.getLast?_concat]
  · rw [← hexited]
    constructor
    · intro hlater
      by_contra hleft
      push Not at hleft
      obtain ⟨t, ht⟩ := hleft
      obtain ⟨events'', s'', hfaults⟩ := hlater [t, t]
      exact PoolLife.turns_fault rfl ht events'' s'' hfaults
    · intro hall later
      obtain ⟨events'', s'', -, hrun'', -⟩ := hkept₃.turns hshut₂ later (.inr hall)
      exact ⟨events'', s'', hrun''⟩
  · intro hcounts a
    apply Heap.CoveredBy.cells_eq_none
    apply hkept₃.tidy.covered.mono
    rintro b (hb | ⟨t, ht⟩)
    · cases hb
    · rw [hexited.mpr hcounts t] at ht
      cases ht

/-- Both threads exit in between, one of them when it has done its job. -/
theorem destroy_safe_twoThreads :
  ∃ (events : List (Option (LifeEvent ℕ))) (s : PoolLife Bool ℕ),
    Machine.run lifeStep PoolLife.start (twoThreads.take 3) = .ok (events, s) ∧
    s.state.pool.shutdown = false ∧
    ∃ (events' : List (Option (LifeEvent ℕ))) (s' : PoolLife Bool ℕ),
      Machine.run lifeStep s (.poolDestroy :: [false, true, true].map LifeStep.threadRoutine
        ++ [.poolDestroy]) = .ok (events', s') ∧
      events'.getLast? = some (some (.returned ccENone)) ∧
      ((∀ later : List Bool, ∃ events'' s'',
          Machine.run lifeStep s' (later.map LifeStep.threadRoutine) = .ok (events'', s'')) ↔
        ∀ t, (s.state.threads t).turnsToExit ≤ [false, true, true].count t) ∧
      ((∀ t, (s.state.threads t).turnsToExit ≤ [false, true, true].count t) →
        ∀ a, s'.state.pool.workers.cells a = none)
  := ⟨_, _, rfl, rfl, destroy_safe_iff (twoThreads.take 3) _ _ rfl rfl [false, true, true]⟩

end CcController
