/-
Tokens and tasks of the lock-free `threadpool`: when a task is left in the ring
with nobody to wake up for it.

The semaphore of the pool counts tokens. The accounts are kept over the whole
list of threads:

* a producer is **inside** from the exchange that wins it a ticket until its post;
* a worker **holds** a token from its wait until its dequeue attempt wins a
  ticket, or fails.

Every step but one moves a unit from one account to another. The exception is the
sequence load that finds the head cell's number below `pos + 1`: `dequeue` returns
false, the worker goes back to wait, and the token it held is gone. That happens
while a producer has taken the ticket at the head and not yet published it, when
a faster producer behind it has already posted.
-/
import AtlasWebServer.ThreadPool

set_option autoImplicit false

namespace AtlasWebServer.ThreadPool

open StepSystem MpmcQueue List

variable {T : Type}

/-! ## The accounts -/

/-- A producer that has a ticket and has not posted its token yet. -/
def inside_pc : ProducerPc → Bool
  | .load_stop => false
  | .queue (.write _) => true
  | .queue (.store _) => true
  | .queue _ => false
  | .returned _ => false
  | _ => true

/-- A worker whose token has neither become a ticket nor been lost. -/
def holds_pc : WorkerPc T → Bool
  | .dequeue .load_pos => true
  | .dequeue (.load_seq _) => true
  | .dequeue (.cas _) => true
  | _ => false

def inside : Thread T → Bool
  | .producer _ pc => inside_pc pc
  | .worker _ => false

def holds : Thread T → Bool
  | .producer _ _ => false
  | .worker pc => holds_pc pc

/-- The step that loses a token: a sequence load of `dequeue` that finds a number
below the one that says "published". -/
def misses_pc (s : Pool T) : WorkerPc T → Bool
  | .dequeue (.load_seq pos) => decide ((s.m_workqueue.current pos).sequence < pos + 1)
  | _ => false

def misses (w : World T) : Label T → Bool
  | .step i _ =>
      match w.threads[i]? with
      | some (.worker pc) => misses_pc w.pool pc
      | _ => false
  | _ => false

/-- Tickets handed out to producers are those handed out to workers, the tokens
not taken, the tokens held, the tokens still to be posted, and the tokens lost. -/
def Balance (lost : ℕ) (w : World T) : Prop :=
  w.pool.m_workqueue.m_enqueue_pos = w.pool.m_workqueue.m_dequeue_pos + w.pool.m_queued_tasks
    + w.threads.countP holds + w.threads.countP inside + lost

/-! ## One step of a producer, one step of a worker -/

variable {t : Task T} {spurious : Bool} {s : Pool T} {e : Event} {r : Pool T × WorkerPc T}
  {thread_number max_requests max_thread_number : ℤ} {w : World T}

theorem enqueue_step_ticket {q : Queue (Task T)} {pc : EnqueuePc} {r : Queue (Task T) × EnqueuePc}
    (hr : enqueue_step q t spurious pc = some r) :
    r.1.m_enqueue_pos + (inside_pc (.queue pc)).toNat
      = q.m_enqueue_pos + (inside_pc (after_enqueue r.2)).toNat ∧
    r.1.m_dequeue_pos = q.m_dequeue_pos := by
  cases pc with
  | load_seq pos =>
    simp only [enqueue_step] at hr
    split_ifs at hr with h0 h1 <;> cases hr <;> exact ⟨rfl, rfl⟩
  | cas pos =>
    simp only [enqueue_step] at hr
    by_cases hwin : q.m_enqueue_pos = pos ∧ spurious = false
    · rw [if_pos hwin] at hr
      cases hr
      rw [hwin.1]
      exact ⟨rfl, rfl⟩
    · rw [if_neg hwin] at hr
      cases hr
      exact ⟨rfl, rfl⟩
  | returned ok => cases hr
  | _ => cases hr; exact ⟨rfl, rfl⟩

theorem dequeue_step_ticket {pc : DequeuePc (Task T)} {r : Queue (Task T) × DequeuePc (Task T)}
    (hr : dequeue_step s.m_workqueue spurious pc = some r) :
    r.1.m_dequeue_pos + (holds_pc (after_dequeue r.2)).toNat + (misses_pc s (.dequeue pc)).toNat
      = s.m_workqueue.m_dequeue_pos + (holds_pc (.dequeue pc)).toNat ∧
    r.1.m_enqueue_pos = s.m_workqueue.m_enqueue_pos := by
  cases pc with
  | load_seq pos =>
    simp only [dequeue_step] at hr
    by_cases hmiss : (s.m_workqueue.current pos).sequence < pos + 1
    · -- the number is too small: nothing was taken, and the caller leaves the loop
      rw [if_neg (by omega), if_pos (by omega)] at hr
      cases hr
      refine ⟨?_, rfl⟩
      simp only [after_dequeue, holds_pc, misses_pc, decide_eq_true hmiss, Bool.toNat_true,
        Bool.toNat_false]
    have hkeep : misses_pc s (.dequeue (.load_seq pos)) = false := decide_eq_false hmiss
    rw [hkeep]
    split_ifs at hr with h0 h1
    · cases hr; exact ⟨rfl, rfl⟩
    · omega
    · cases hr; exact ⟨rfl, rfl⟩
  | cas pos =>
    simp only [dequeue_step] at hr
    by_cases hwin : s.m_workqueue.m_dequeue_pos = pos ∧ spurious = false
    · rw [if_pos hwin] at hr
      cases hr
      rw [hwin.1]
      exact ⟨rfl, rfl⟩
    · rw [if_neg hwin] at hr
      cases hr
      exact ⟨rfl, rfl⟩
  | returned result => cases hr
  | _ => cases hr; exact ⟨rfl, rfl⟩

theorem producer_step_balance {pc : ProducerPc} {r : Pool T × ProducerPc}
    (hr : producer_step s t e pc = some r) :
    r.1.m_workqueue.m_enqueue_pos + s.m_queued_tasks + (inside_pc pc).toNat
      = s.m_workqueue.m_enqueue_pos + r.1.m_queued_tasks + (inside_pc r.2).toNat ∧
    r.1.m_workqueue.m_dequeue_pos = s.m_workqueue.m_dequeue_pos := by
  cases pc with
  | queue pc =>
    obtain ⟨q, hq, rfl⟩ := Option.map_eq_some_iff.mp hr
    obtain ⟨hE, hD⟩ := enqueue_step_ticket hq
    refine ⟨?_, hD⟩
    dsimp only
    omega
  | load_stop => simp only [producer_step] at hr; cases hr; cases s.m_stop <;> exact ⟨rfl, rfl⟩
  | grow_stop => simp only [producer_step] at hr; cases hr; cases s.m_stop <;> exact ⟨rfl, rfl⟩
  | grow_loop pending idle =>
    simp only [producer_step] at hr
    split_ifs at hr <;> cases hr <;> exact ⟨rfl, rfl⟩
  | spawn_lock pending =>
    simp only [producer_step] at hr; split_ifs at hr; cases hr; exact ⟨rfl, rfl⟩
  | spawn_create pending =>
    simp only [producer_step] at hr
    split_ifs at hr <;> cases hr <;> exact ⟨rfl, rfl⟩
  | spawn_unlock pending ok => cases hr; cases ok <;> exact ⟨rfl, rfl⟩
  | post =>
    -- the token leaves the producer and enters the semaphore
    cases hr
    refine ⟨?_, rfl⟩
    show s.m_workqueue.m_enqueue_pos + s.m_queued_tasks + 1
      = s.m_workqueue.m_enqueue_pos + (s.m_queued_tasks + 1) + 0
    omega
  | returned ok => cases hr
  | _ => cases hr; exact ⟨rfl, rfl⟩

theorem wait_step_balance {timed : Bool} (hr : wait_step s timed e = some r) :
    r.1.m_queued_tasks + (holds_pc r.2).toNat = s.m_queued_tasks ∧
    r.1.m_workqueue = s.m_workqueue := by
  have htake : ∀ {r : Pool T × WorkerPc T},
      (if 0 < s.m_queued_tasks then
        some ({ s with m_queued_tasks := s.m_queued_tasks - 1 }, WorkerPc.dequeue .load_pos)
      else none) = some r →
      r.1.m_queued_tasks + (holds_pc r.2).toNat = s.m_queued_tasks ∧
      r.1.m_workqueue = s.m_workqueue := by
    intro r hr
    split_ifs at hr with hpos
    cases hr
    refine ⟨?_, rfl⟩
    show s.m_queued_tasks - 1 + 1 = s.m_queued_tasks
    omega
  cases e with
  | interrupted => cases hr; exact ⟨rfl, rfl⟩
  | timed_out => simp only [wait_step] at hr; split_ifs at hr; cases hr; exact ⟨rfl, rfl⟩
  | _ => exact htake hr

theorem worker_step_balance {pc : WorkerPc T} (hr : worker_step s e pc = some r) :
    r.1.m_workqueue.m_dequeue_pos + r.1.m_queued_tasks + (holds_pc r.2).toNat
        + (misses_pc s pc).toNat
      = s.m_workqueue.m_dequeue_pos + s.m_queued_tasks + (holds_pc pc).toNat ∧
    r.1.m_workqueue.m_enqueue_pos = s.m_workqueue.m_enqueue_pos := by
  have hwait : ∀ {timed : Bool}, wait_step s timed e = some r →
      r.1.m_workqueue.m_dequeue_pos + r.1.m_queued_tasks + (holds_pc r.2).toNat
        = s.m_workqueue.m_dequeue_pos + s.m_queued_tasks ∧
      r.1.m_workqueue.m_enqueue_pos = s.m_workqueue.m_enqueue_pos := by
    intro timed hw
    obtain ⟨htokens, hq⟩ := wait_step_balance hw
    rw [hq]
    exact ⟨by omega, rfl⟩
  cases pc with
  | dequeue pc =>
    obtain ⟨q, hq, rfl⟩ := Option.map_eq_some_iff.mp hr
    obtain ⟨hD, hE⟩ := dequeue_step_ticket hq
    refine ⟨?_, hE⟩
    dsimp only
    omega
  | timed_wait => exact hwait hr
  | wait => exact hwait hr
  | load_stop => simp only [worker_step] at hr; cases hr; cases s.m_stop <;> exact ⟨rfl, rfl⟩
  | stop_again => simp only [worker_step] at hr; cases hr; cases s.m_stop <;> exact ⟨rfl, rfl⟩
  | load_pending => simp only [worker_step] at hr; cases hr; split_ifs <;> exact ⟨rfl, rfl⟩
  | choose_wait => simp only [worker_step] at hr; cases hr; split_ifs <;> exact ⟨rfl, rfl⟩
  | idle_pending => simp only [worker_step] at hr; cases hr; split_ifs <;> exact ⟨rfl, rfl⟩
  | idle_current => simp only [worker_step] at hr; cases hr; split_ifs <;> exact ⟨rfl, rfl⟩
  | exited => cases hr
  | _ => cases hr; exact ⟨rfl, rfl⟩

/-! ## The accounts over a run -/

theorem countP_spawned (p : Thread T → Bool) (hp : p (.worker .load_stop) = false)
    (l : List (Thread T)) (e : Event) (pc : ProducerPc) :
    (l ++ spawned T e pc).countP p = l.countP p := by
  unfold spawned
  by_cases hc : creates e pc = true
  · rw [if_pos hc, countP_append_singleton, one, hp]
    simp
  · rw [if_neg hc, append_nil]

theorem one_eq_toNat {τ : Type} (p : τ → Bool) (x : τ) : one p x = (p x).toNat := by
  unfold one
  cases p x <;> rfl

theorem balance_step (n : ℕ) (w : World T) (l : Label T) (w' : World T) (h : Balance n w)
    (hl : step w l = some w') : Balance (n + (misses w l).toNat) w' := by
  unfold Balance at h ⊢
  cases l with
  | step i e =>
    simp only [step] at hl
    unfold misses
    split at hl
    · cases hl
    · rename_i t pc hi
      obtain ⟨r, hr, rfl⟩ := Option.map_eq_some_iff.mp hl
      obtain ⟨hE, hD⟩ := producer_step_balance hr
      have hin := countP_set_add inside w.threads i _ (.producer t r.2) hi
      have hho := countP_set_add holds w.threads i _ (.producer t r.2) hi
      rw [one_eq_toNat, one_eq_toNat] at hin hho
      simp only [inside, holds] at hin hho
      simp only [countP_spawned inside rfl, countP_spawned holds rfl, hi, hD, Bool.toNat_false]
      omega
    · rename_i pc hi
      obtain ⟨r, hr, rfl⟩ := Option.map_eq_some_iff.mp hl
      obtain ⟨hD, hE⟩ := worker_step_balance hr
      have hin := countP_set_add inside w.threads i _ (.worker r.2) hi
      have hho := countP_set_add holds w.threads i _ (.worker r.2) hi
      rw [one_eq_toNat, one_eq_toNat] at hin hho
      simp only [inside, holds] at hin hho
      simp only [hi, hE]
      omega
  | _ =>
    cases hl
    simp only [countP_append_singleton, misses]
    exact h

theorem balance_init (hw : (system T thread_number max_requests max_thread_number).init w) :
    Balance 0 w := by
  obtain ⟨garbage, hw⟩ := hw
  obtain ⟨pool, hpool, rfl⟩ := Option.map_eq_some_iff.mp hw
  unfold construct_pool at hpool
  split_ifs at hpool with hthrow
  all_goals
    cases hpool
    unfold Balance
    simp only [Queue.fresh, countP_replicate, holds, holds_pc, inside]
    simp

theorem balance_run {w₀ : World T} {ls : List (Label T)}
    (h₀ : (system T thread_number max_requests max_thread_number).init w₀)
    (hrun : (system T thread_number max_requests max_thread_number).exec w₀ ls = some w) :
    Balance ((system T thread_number max_requests max_thread_number).occurrences misses w₀ ls)
      w := by
  have h := (system T thread_number max_requests max_thread_number).exec_count_induction
    balance_step ls 0 w₀ w (balance_init h₀) hrun
  rw [Nat.zero_add] at h
  exact h

/-! ## Stranded tasks -/

/-- A caller that has returned, or a worker waiting on the semaphore or gone. -/
def settled : Thread T → Bool
  | .producer _ (.returned _) => true
  | .worker .wait => true
  | .worker .timed_wait => true
  | .worker .exited => true
  | _ => false

/-- No producer is inside `enqueue`, and every worker is blocked on the semaphore
with count 0. -/
def Blocked (w : World T) : Prop := w.threads.all settled = true ∧ w.pool.m_queued_tasks = 0

def NoTask (w : World T) : Prop :=
  w.pool.m_workqueue.m_dequeue_pos = w.pool.m_workqueue.m_enqueue_pos

instance (w : World T) : Decidable (Blocked w) := inferInstanceAs (Decidable (_ ∧ _))

instance (w : World T) : Decidable (NoTask w) := inferInstanceAs (Decidable (_ = _))

theorem settled_accounts {x : Thread T} (hx : settled x = true) :
    holds x = false ∧ inside x = false := by
  rcases x with ⟨_, pc⟩ | pc <;> cases pc <;> first | exact ⟨rfl, rfl⟩ | cases hx

theorem tasks_eq_lost {n : ℕ} (h : Balance n w) (hb : Blocked w) :
    w.pool.m_workqueue.m_enqueue_pos = w.pool.m_workqueue.m_dequeue_pos + n := by
  obtain ⟨hall, hsem⟩ := hb
  have hset := all_eq_true.mp hall
  have hho : w.threads.countP holds = 0 := by
    rw [countP_eq_zero]
    intro x hx
    rw [(settled_accounts (hset x hx)).1]
    exact Bool.false_ne_true
  have hin : w.threads.countP inside = 0 := by
    rw [countP_eq_zero]
    intro x hx
    rw [(settled_accounts (hset x hx)).2]
    exact Bool.false_ne_true
  unfold Balance at h
  omega

/-- **No stranded task, exactly when no token was lost.** Whatever run led to a
state in which no producer is inside `enqueue` and every worker is blocked with no
token to take: the queue is empty there if and only if no sequence load of a
worker's `dequeue` along the run found a number below `pos + 1`. -/
theorem no_stranded_task_iff {thread_number max_requests max_thread_number : ℤ} {w₀ w : World T}
    {ls : List (Label T)} (h₀ : (system T thread_number max_requests max_thread_number).init w₀)
    (hrun : (system T thread_number max_requests max_thread_number).exec w₀ ls = some w)
    (hb : Blocked w) :
    NoTask w ↔ (system T thread_number max_requests max_thread_number).Along
      (fun w l => misses w l = false) w₀ ls := by
  rw [← System.occurrences_eq_zero_iff]
  have htasks := tasks_eq_lost (balance_run h₀ hrun) hb
  unfold NoTask
  omega

/-- One task appended to a pool with one worker, taken and executed. -/
def served_run : List (Label ℕ) :=
  [.append_p (some 7)] ++ List.replicate 13 (.step 1 .go) ++ List.replicate 14 (.step 0 .go)

/-- The pool of these runs: one worker, never more than one, two cells. -/
def small_pool : World ℕ :=
  (construct 1 2 1 fun _ => ⟨none, 0, false⟩).get rfl

theorem small_pool_init : (system ℕ 1 2 1).init small_pool := ⟨fun _ => ⟨none, 0, false⟩, rfl⟩

/-- A run without a miss ends with an empty queue. -/
theorem served_run_drains :
    ∃ w, (system ℕ 1 2 1).exec small_pool served_run = some w ∧ Blocked w ∧ NoTask w ∧
      (system ℕ 1 2 1).Along (fun w l => misses w l = false) small_pool served_run := by
  have hrun : ((system ℕ 1 2 1).exec small_pool served_run).any
      (fun w => decide (Blocked w ∧ NoTask w)) = true := by decide +kernel
  obtain ⟨w, hw, hp⟩ := (Option.any_eq_true _ _).mp hrun
  obtain ⟨hb, hn⟩ := of_decide_eq_true hp
  exact ⟨w, hw, hb, hn, (no_stranded_task_iff small_pool_init hw hb).mp hn⟩

/-- Two producers and one worker. Producer 1 takes the first ticket and is held
up; producer 2 publishes the second one and posts; the worker spends that token on
the head cell, which is not published yet; then producer 1 publishes and posts, and
the worker takes the first task with the only token there is. -/
def stranding_run : List (Label ℕ) :=
  [.append_p (some 7), .append_p (some 8)] ++ List.replicate 4 (.step 1 .go) ++
    List.replicate 13 (.step 2 .go) ++ List.replicate 8 (.step 0 .go) ++
    List.replicate 9 (.step 1 .go) ++ List.replicate 12 (.step 0 .go)

/-- The second task stays in the queue with everybody asleep. -/
theorem stranded_task : ¬ ∀ w, (system ℕ 1 2 1).Reachable w → Blocked w → NoTask w := by
  intro hall
  obtain ⟨w, hw, hp⟩ := System.Reachable.of_run (system ℕ 1 2 1) small_pool_init stranding_run
    (fun w => decide (Blocked w ∧ ¬ NoTask w)) (by decide +kernel)
  obtain ⟨hb, hn⟩ := of_decide_eq_true hp
  exact hn (hall w hw hb)

end AtlasWebServer.ThreadPool
