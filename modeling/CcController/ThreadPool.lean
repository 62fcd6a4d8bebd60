import CcController.Lib.Heap

/-!
# The thread pool

A thread pool is a list of jobs that its threads take from the front. A job is a function and
its argument; here `J` stands for the two.
-/

namespace CcController

variable {J : Type}

/-- The jobs queued, and how many there are by the count of the pool, which is an `int`. -/
structure CThreadPool (J : Type) where
  queue : List J
  curQueueSize : Int32

/-- Queue a job behind the others. `malloc` is what the allocation of its element comes to;
its result is used unchecked. -/
def poolAddWorker (pool : CThreadPool J) (job : J) (malloc : Bool) :
    Except Fault (CThreadPool J) :=
  if malloc then
    .ok ⟨pool.queue ++ [job], pool.curQueueSize + 1⟩
  else
    .error .null

end CcController
