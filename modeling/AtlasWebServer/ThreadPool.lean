/-
`threadpool` (`infra/threadpool/threadpool.h`): producers inside `threadpool::enqueue` and
workers inside `threadpool::run`, in both queue modes. The lock-free mode is over the ring of
`MpmcQueue` and one counting semaphore; the mutex mode is over a `std::queue`, a lock and a
condition variable.

Each access to a shared variable is one step: the loads and read-modify-writes of
the atomic counters, the semaphore's post and wait, the steps of the ring, and the
lock, `pthread_create`, count and unlock of `spawn_worker_unlocked`. What the
environment decides -- a spurious exchange failure, an interrupted or timed-out
wait, a failed thread creation -- is the event of the step. `execute` runs the
request's own code and touches no variable of the pool, so it is a step without
effect. No step sets `m_stop`: only the destructor does.

In the mutex mode the queue, `m_threadlocker` and `m_current_thread_number` are only touched by
the thread that has `m_queuelocker`. What it does between two accesses to the other variables
is one step there.

The counters are integers, not 32-bit words: `m_pending_task_number` may well be
negative for a moment, but it never comes near a bound.

The result is about **tokens**. A producer posts one token for each task it put
into the ring, and a worker gives one token for one dequeue attempt. If every
attempt that spent a token took a task, the tokens left and the tasks left would
agree. `balance_run` says by how much they can differ: by the number of attempts
that spent a token and came back with nothing.
-/
import AtlasWebServer.MpmcQueue

set_option autoImplicit false

namespace AtlasWebServer.ThreadPool

open StepSystem MpmcQueue

variable {T : Type}

/-! ## The pool's variables -/

/-- `task`; a null request is `none`. -/
structure Task (T : Type) where
  request : Option T
  state : ℤ
  use_state : Bool
  deriving DecidableEq

/-- The variables of `threadpool`; of a lock, whether somebody has it. -/
structure Pool (T : Type) where
  m_min_thread_number : ℤ
  m_max_thread_number : ℤ
  m_current_thread_number : ℤ
  m_busy_thread_number : ℤ
  m_pending_task_number : ℤ
  m_max_requests : ℤ
  m_stop : Bool
  m_mutex_workqueue : List (Task T)
  m_queuelocker : Bool
  m_workqueue : Queue (Task T)
  m_queued_tasks : ℕ
  m_threadlocker : Bool

/-- Where a call of `threadpool::enqueue` stands, with the locals of
`maybe_grow_unlocked` while it is in there. -/
inductive ProducerPc
  | load_stop
  | queue (pc : EnqueuePc)
  | add_pending
  | grow_stop
  | grow_pending
  | grow_current (pending_tasks : ℤ)
  | grow_busy (pending_tasks current : ℤ)
  | grow_loop (pending_tasks idle_threads : ℤ)
  | spawn_lock (pending_tasks : ℤ)
  | spawn_create (pending_tasks : ℤ)
  | spawn_count (pending_tasks : ℤ)
  | spawn_unlock (pending_tasks : ℤ) (ok : Bool)
  | post
  | returned (ok : Bool)
  deriving DecidableEq

/-- Where a worker stands in `threadpool::run`. -/
inductive WorkerPc (T : Type)
  | load_stop
  | load_pending
  | choose_wait
  | timed_wait
  | wait
  | idle_pending
  | idle_current
  | dequeue (pc : DequeuePc (Task T))
  | stop_again
  | sub_pending (current_task : Task T)
  | add_busy (current_task : Task T)
  | execute (current_task : Task T)
  | sub_busy
  | leave
  | exited
  deriving DecidableEq

/-- What the environment decides about a step; `go` is the ordinary outcome. -/
inductive Event
  | go
  | spurious
  | interrupted
  | timed_out
  | create_failed
  deriving DecidableEq

/-! ## `threadpool::enqueue` -/

/-- Back from a step of `m_workqueue.enqueue`. -/
def after_enqueue : EnqueuePc → ProducerPc
  | .returned true => .add_pending
  | .returned false => .returned false
  | pc => .queue pc

/-- One step of `threadpool::enqueue` in the lock-free mode, with
`maybe_grow_unlocked` and `spawn_worker_unlocked` in line. -/
def producer_step (s : Pool T) (current_task : Task T) (e : Event) :
    ProducerPc → Option (Pool T × ProducerPc)
  | .load_stop => some (s, if s.m_stop then .returned false else .queue .load_pos)
  | .queue pc =>
      (enqueue_step s.m_workqueue current_task (e = .spurious) pc).map fun r =>
        ({ s with m_workqueue := r.1 }, after_enqueue r.2)
  | .add_pending =>
      some ({ s with m_pending_task_number := s.m_pending_task_number + 1 }, .grow_stop)
  | .grow_stop => some (s, if s.m_stop then .post else .grow_pending)
  | .grow_pending => some (s, .grow_current s.m_pending_task_number)
  | .grow_current pending_tasks => some (s, .grow_busy pending_tasks s.m_current_thread_number)
  | .grow_busy pending_tasks current =>
      some (s, .grow_loop pending_tasks (current - s.m_busy_thread_number))
  | .grow_loop pending_tasks idle_threads =>
      if pending_tasks > idle_threads ∧ s.m_current_thread_number < s.m_max_thread_number then
        some (s, .spawn_lock pending_tasks)
      else some (s, .post)
  | .spawn_lock pending_tasks =>
      if s.m_threadlocker then none
      else some ({ s with m_threadlocker := true }, .spawn_create pending_tasks)
  | .spawn_create pending_tasks =>
      if e = .create_failed then some (s, .spawn_unlock pending_tasks false)
      else some (s, .spawn_count pending_tasks)
  | .spawn_count pending_tasks =>
      some ({ s with m_current_thread_number := s.m_current_thread_number + 1 },
        .spawn_unlock pending_tasks true)
  | .spawn_unlock pending_tasks ok =>
      some ({ s with m_threadlocker := false }, if ok then .grow_current pending_tasks else .post)
  | .post => some ({ s with m_queued_tasks := s.m_queued_tasks + 1 }, .returned true)
  | .returned _ => none

def creates (e : Event) : ProducerPc → Bool
  | .spawn_create _ => decide (e ≠ .create_failed)
  | _ => false

/-! ## `threadpool::run` -/

/-- Back from a step of `m_workqueue.dequeue`. -/
def after_dequeue : DequeuePc (Task T) → WorkerPc T
  | .returned (some current_task) => .sub_pending current_task
  | .returned none => .stop_again
  | pc => .dequeue pc

/-- A semaphore wait: it takes a token when there is one, and fails with
`ETIMEDOUT` or `EINTR` when the event says so. -/
def wait_step (s : Pool T) (timed : Bool) : Event → Option (Pool T × WorkerPc T)
  | .interrupted => some (s, .load_stop)
  | .timed_out => if timed then some (s, .idle_pending) else none
  | _ =>
      if 0 < s.m_queued_tasks then
        some ({ s with m_queued_tasks := s.m_queued_tasks - 1 }, .dequeue .load_pos)
      else none

/-- One step of `threadpool::run` in the lock-free mode. -/
def worker_step (s : Pool T) (e : Event) : WorkerPc T → Option (Pool T × WorkerPc T)
  | .load_stop => some (s, if s.m_stop then .load_pending else .choose_wait)
  | .load_pending => some (s, if s.m_pending_task_number = 0 then .leave else .choose_wait)
  | .choose_wait =>
      some (s, if s.m_current_thread_number > s.m_min_thread_number then .timed_wait else .wait)
  | .timed_wait => wait_step s true e
  | .wait => wait_step s false e
  | .idle_pending => some (s, if s.m_pending_task_number = 0 then .idle_current else .load_stop)
  | .idle_current =>
      some (s, if s.m_current_thread_number > s.m_min_thread_number then .leave else .load_stop)
  | .dequeue pc =>
      (dequeue_step s.m_workqueue (e = .spurious) pc).map fun r =>
        ({ s with m_workqueue := r.1 }, after_dequeue r.2)
  | .stop_again => some (s, if s.m_stop then .leave else .load_stop)
  | .sub_pending current_task =>
      some ({ s with m_pending_task_number := s.m_pending_task_number - 1 }, .add_busy current_task)
  | .add_busy current_task =>
      some ({ s with m_busy_thread_number := s.m_busy_thread_number + 1 }, .execute current_task)
  | .execute _ => some (s, .sub_busy)
  | .sub_busy => some ({ s with m_busy_thread_number := s.m_busy_thread_number - 1 }, .load_stop)
  | .leave =>
      some ({ s with m_current_thread_number := s.m_current_thread_number - 1 }, .exited)
  | .exited => none

/-! ## Any number of producers and workers -/

/-- A thread of the process: a caller of `threadpool::enqueue` with the task it
brings, or a worker. -/
inductive Thread (T : Type)
  | producer (current_task : Task T) (pc : ProducerPc)
  | worker (pc : WorkerPc T)
  deriving DecidableEq

/-- The pool and its threads. -/
structure World (T : Type) where
  pool : Pool T
  threads : List (Thread T)

/-- `append` or `append_p` is called, or thread `i` makes its next step. -/
inductive Label (T : Type)
  | append (request : Option T) (state : ℤ)
  | append_p (request : Option T)
  | step (i : ℕ) (e : Event)

def spawned (T : Type) (e : Event) (pc : ProducerPc) : List (Thread T) :=
  if creates e pc then [.worker .load_stop] else []

def step (w : World T) : Label T → Option (World T)
  | .append request state =>
      some { w with threads := w.threads ++ [.producer ⟨request, state, true⟩ .load_stop] }
  | .append_p request =>
      some { w with threads := w.threads ++ [.producer ⟨request, 0, false⟩ .load_stop] }
  | .step i e =>
      match w.threads[i]? with
      | none => none
      | some (.producer current_task pc) =>
          (producer_step w.pool current_task e pc).map fun r =>
            { pool := r.1
              threads := w.threads.set i (.producer current_task r.2) ++ spawned T e pc }
      | some (.worker pc) =>
          (worker_step w.pool e pc).map fun r =>
            { pool := r.1, threads := w.threads.set i (.worker r.2) }

/-- The variables after the constructor; `none` where it throws. -/
def construct_pool (thread_number max_requests max_thread_number : ℤ) (garbage : ℕ → Task T) :
    Option (Pool T) :=
  let wanted := if max_thread_number > 0 then max_thread_number else thread_number * 2
  if thread_number ≤ 0 ∨ max_requests ≤ 0 then none
  else some
    { m_min_thread_number := thread_number
      m_max_thread_number := if wanted < thread_number then thread_number else wanted
      m_current_thread_number := thread_number
      m_busy_thread_number := 0
      m_pending_task_number := 0
      m_max_requests := max_requests
      m_stop := false
      m_mutex_workqueue := []
      m_queuelocker := false
      m_workqueue := Queue.fresh max_requests.toNat garbage
      m_queued_tasks := 0
      m_threadlocker := false }

/-- The constructor. Its workers are still at the start of `run`: while it counts them they can
only reach the semaphore, or the condition variable. -/
def construct (thread_number max_requests max_thread_number : ℤ) (garbage : ℕ → Task T) :
    Option (World T) :=
  (construct_pool thread_number max_requests max_thread_number garbage).map fun pool =>
    ⟨pool, List.replicate thread_number.toNat (.worker .load_stop)⟩

/-- The lock-free pool with the given constructor arguments. -/
def system (T : Type) (thread_number max_requests max_thread_number : ℤ) :
    System (World T) (Label T) where
  init w := ∃ garbage, construct thread_number max_requests max_thread_number garbage = some w
  step := step

/-! ## The mutex mode -/

/-- Where a call of `threadpool::enqueue` stands, with the local of `maybe_grow_unlocked`. -/
inductive MutexProducerPc
  | load_stop
  | lock
  | push
  | grow (pending_tasks : ℤ)
  | spawn (pending_tasks : ℤ)
  | unlock (ok : Bool)
  | returned (ok : Bool)
  deriving DecidableEq

/-- Where a worker stands in `threadpool::run`. -/
inductive MutexWorkerPc (T : Type)
  | lock
  | check
  | sleep
  | wait (timed : Bool)
  | timed_out
  | leave
  | unlock_leave
  | take
  | unlock (current_task : Task T)
  | execute (current_task : Task T)
  | sub_busy
  | exited
  deriving DecidableEq

def mutex_producer_step (s : Pool T) (current_task : Task T) (e : Event) :
    MutexProducerPc → Option (Pool T × MutexProducerPc)
  | .load_stop => some (s, if s.m_stop then .returned false else .lock)
  | .lock => if s.m_queuelocker then none else some ({ s with m_queuelocker := true }, .push)
  | .push =>
      if s.m_stop ∨ (s.m_mutex_workqueue.length : ℤ) ≥ s.m_max_requests then
        some (s, .unlock false)
      else
        some ({ s with m_mutex_workqueue := s.m_mutex_workqueue ++ [current_task] },
          .grow (s.m_mutex_workqueue.length + 1))
  | .grow pending_tasks =>
      let idle_threads := s.m_current_thread_number - s.m_busy_thread_number
      if pending_tasks > idle_threads ∧ s.m_current_thread_number < s.m_max_thread_number then
        some (s, .spawn pending_tasks)
      else some (s, .unlock true)
  | .spawn pending_tasks =>
      if e = .create_failed then some (s, .unlock true)
      else some ({ s with m_current_thread_number := s.m_current_thread_number + 1 },
        .grow pending_tasks)
  -- a signal wakes nobody who could not wake on its own
  | .unlock ok => some ({ s with m_queuelocker := false }, .returned ok)
  | .returned _ => none

/-- One step of `threadpool::run`. A wait gives up the lock and takes it again, after a
signal, spuriously, or after the timeout. -/
def mutex_worker_step (s : Pool T) (e : Event) :
    MutexWorkerPc T → Option (Pool T × MutexWorkerPc T)
  | .lock => if s.m_queuelocker then none else some ({ s with m_queuelocker := true }, .check)
  | .check =>
      some (s, if s.m_mutex_workqueue = [] ∧ s.m_stop = false then .sleep else .take)
  | .sleep =>
      some ({ s with m_queuelocker := false },
        .wait (decide (s.m_current_thread_number > s.m_min_thread_number)))
  | .wait timed =>
      if s.m_queuelocker then none
      else some ({ s with m_queuelocker := true },
        if timed ∧ e = .timed_out then .timed_out else .check)
  | .timed_out =>
      some (s, if s.m_mutex_workqueue = [] ∧ s.m_current_thread_number > s.m_min_thread_number
        then .leave else .check)
  | .leave =>
      some ({ s with m_current_thread_number := s.m_current_thread_number - 1 }, .unlock_leave)
  | .unlock_leave => some ({ s with m_queuelocker := false }, .exited)
  | .take =>
      match s.m_mutex_workqueue with
      | [] => if s.m_stop then some (s, .leave) else none
      | current_task :: queue =>
          some ({ s with
            m_mutex_workqueue := queue
            m_busy_thread_number := s.m_busy_thread_number + 1 }, .unlock current_task)
  | .unlock current_task => some ({ s with m_queuelocker := false }, .execute current_task)
  | .execute _ => some (s, .sub_busy)
  | .sub_busy => some ({ s with m_busy_thread_number := s.m_busy_thread_number - 1 }, .lock)
  | .exited => none

/-- A thread of the process. -/
inductive MutexThread (T : Type)
  | producer (current_task : Task T) (pc : MutexProducerPc)
  | worker (pc : MutexWorkerPc T)
  deriving DecidableEq

/-- The pool and its threads. -/
structure MutexWorld (T : Type) where
  pool : Pool T
  threads : List (MutexThread T)

def mutex_spawned (T : Type) (e : Event) : MutexProducerPc → List (MutexThread T)
  | .spawn _ => if e = .create_failed then [] else [.worker .lock]
  | _ => []

def mutex_step (w : MutexWorld T) : Label T → Option (MutexWorld T)
  | .append request state =>
      some { w with threads := w.threads ++ [.producer ⟨request, state, true⟩ .load_stop] }
  | .append_p request =>
      some { w with threads := w.threads ++ [.producer ⟨request, 0, false⟩ .load_stop] }
  | .step i e =>
      match w.threads[i]? with
      | none => none
      | some (.producer current_task pc) =>
          (mutex_producer_step w.pool current_task e pc).map fun r =>
            ⟨r.1, w.threads.set i (.producer current_task r.2) ++ mutex_spawned T e pc⟩
      | some (.worker pc) =>
          (mutex_worker_step w.pool e pc).map fun r => ⟨r.1, w.threads.set i (.worker r.2)⟩

def mutex_construct (thread_number max_requests max_thread_number : ℤ) (garbage : ℕ → Task T) :
    Option (MutexWorld T) :=
  (construct_pool thread_number max_requests max_thread_number garbage).map fun pool =>
    ⟨pool, List.replicate thread_number.toNat (.worker .lock)⟩

/-- The pool of the mutex mode with the given constructor arguments. -/
def mutex_system (T : Type) (thread_number max_requests max_thread_number : ℤ) :
    System (MutexWorld T) (Label T) where
  init w := ∃ garbage, mutex_construct thread_number max_requests max_thread_number garbage = some w
  step := mutex_step

end AtlasWebServer.ThreadPool
