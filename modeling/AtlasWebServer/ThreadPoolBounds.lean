/-
How many workers the `threadpool` has.

A producer that finds fewer than `m_max_thread_number` workers starts one; an idle worker that
finds more than `m_min_thread_number` leaves. Both look at the number first and change it later.
While only one thread at a time is between the two, the number stays in its range
(`Sound.thread`). In the mutex mode that is always so: such a thread has `m_queuelocker`
(`Locked`). In the lock-free mode nothing keeps two threads from looking at the same number
(`one_worker_too_many`).
-/
import AtlasWebServer.ThreadPool

set_option autoImplicit false

namespace AtlasWebServer.ThreadPool

open StepSystem MpmcQueue List

variable {T τ : Type} {s s' : Pool T} {e : Event}

/-- The number of workers is in its range. -/
def InRange (s : Pool T) : Prop :=
  s.m_min_thread_number ≤ s.m_current_thread_number ∧
    s.m_current_thread_number ≤ s.m_max_thread_number

/-! ## Looking at the number and changing it -/

/-- Which threads have found room for a worker and not counted it yet, and which have found that
they may leave. -/
structure Looks (τ : Type) where
  growing : τ → Bool
  leaving : τ → Bool

section Looking

variable (k : Looks τ) {x y : τ}

/-- Between looking at the number of workers and changing it. -/
def Looks.deciding (x : τ) : Bool := k.growing x || k.leaving x

def Looks.Fresh (s : Pool T) (x : τ) : Prop :=
  (k.growing x = true → s.m_current_thread_number < s.m_max_thread_number) ∧
    (k.leaving x = true → s.m_min_thread_number < s.m_current_thread_number)

/-- What a step of a thread can do: it looks at the number, or it changes it. -/
structure Moves (s : Pool T) (x : τ) (s' : Pool T) (y : τ) : Prop where
  stop : s'.m_stop = s.m_stop
  lower : s'.m_min_thread_number = s.m_min_thread_number
  upper : s'.m_max_thread_number = s.m_max_thread_number
  number : s'.m_current_thread_number = s.m_current_thread_number ∧ (k.Fresh s x → k.Fresh s' y) ∨
    k.deciding x = true ∧ k.deciding y = false ∧ (InRange s → k.Fresh s x → InRange s')

/-- The number is in its range, and what the threads have found is still so. -/
structure Sound (s : Pool T) (threads : List τ) : Prop where
  stop : s.m_stop = false
  range : InRange s
  fresh : ∀ x ∈ threads, k.Fresh s x

variable {k}

theorem fresh_of_not_deciding (hy : k.deciding y = false) : k.Fresh s y := by
  obtain ⟨hgrowing, hleaving⟩ := Bool.or_eq_false_iff.mp hy
  simp [Looks.Fresh, hgrowing, hleaving]

theorem Sound.append {threads : List τ} (h : Sound k s threads) (hy : k.deciding y = false) :
    Sound k s (threads ++ [y]) := by
  refine ⟨h.stop, h.range, forall_mem_append.mpr ⟨h.fresh, ?_⟩⟩
  exact forall_mem_singleton.mpr (fresh_of_not_deciding hy)

theorem Sound.thread {threads : List τ} (h : Sound k s threads)
    (hone : threads.countP k.deciding ≤ 1) {i : ℕ} (hi : threads[i]? = some x)
    (hmoves : Moves k s x s' y) (new : List τ) (hnew : ∀ z ∈ new, k.deciding z = false) :
    Sound k s' (threads.set i y ++ new) := by
  obtain ⟨hstop, hlower, hupper, ⟨hsame, hfresh⟩ | ⟨hx, hy, hrange⟩⟩ := hmoves
  · refine ⟨hstop.trans h.stop, ?_, fun z hz => ?_⟩
    · unfold InRange
      rw [hlower, hupper, hsame]
      exact h.range
    rcases mem_append.mp hz with hz | hz
    · rcases mem_or_eq_of_mem_set hz with hz | rfl
      · unfold Looks.Fresh
        rw [hlower, hupper, hsame]
        exact h.fresh z hz
      · exact hfresh (h.fresh x (mem_of_getElem? hi))
    · exact fresh_of_not_deciding (hnew z hz)
  · -- nobody else has looked at the number
    refine ⟨hstop.trans h.stop, hrange h.range (h.fresh x (mem_of_getElem? hi)), fun z hz => ?_⟩
    apply fresh_of_not_deciding
    rcases mem_append.mp hz with hz | hz
    · have hcount := countP_set_add k.deciding threads i x y hi
      have hzero : (threads.set i y).countP k.deciding = 0 := by
        rw [one, if_pos hx, one, hy] at hcount
        simp at hcount
        omega
      simpa using countP_eq_zero.mp hzero z hz
    · exact hnew z hz

theorem Sound.construct {thread_number max_requests max_thread_number : ℤ} {garbage : ℕ → Task T}
    (hpool : construct_pool thread_number max_requests max_thread_number garbage = some s)
    (n : ℕ) (hx : k.deciding x = false) : Sound k s (replicate n x) := by
  unfold construct_pool at hpool
  split_ifs at hpool <;> cases hpool <;>
    exact ⟨rfl, ⟨le_rfl, by dsimp only; omega⟩, fun z hz =>
      fresh_of_not_deciding (by rw [eq_of_mem_replicate hz]; exact hx)⟩

end Looking

/-! ## The lock-free mode -/

/-- `load_pending` of a worker comes after `m_stop`. -/
def lockfree : Looks (Thread T) where
  growing
    | .producer _ (.spawn_lock _) => true
    | .producer _ (.spawn_create _) => true
    | .producer _ (.spawn_count _) => true
    | _ => false
  leaving
    | .worker .leave => true
    | .worker .load_pending => true
    | _ => false

theorem producer_step_moves {t : Task T} {pc : ProducerPc} {r : Pool T × ProducerPc}
    (hr : producer_step s t e pc = some r) :
    Moves lockfree s (.producer t pc) r.1 (.producer t r.2) := by
  cases pc with
  | queue pc =>
    obtain ⟨q, -, rfl⟩ := Option.map_eq_some_iff.mp hr
    refine ⟨rfl, rfl, rfl, .inl ⟨rfl, fun _ => fresh_of_not_deciding ?_⟩⟩
    unfold after_enqueue
    split <;> rfl
  | _ =>
    simp only [producer_step] at hr
    (try split_ifs at hr) <;> cases hr <;> refine ⟨rfl, rfl, rfl, ?_⟩ <;>
      grind [Looks.Fresh, InRange, lockfree, Looks.deciding]

theorem worker_step_moves (hstop : s.m_stop = false) {pc : WorkerPc T} {r : Pool T × WorkerPc T}
    (hr : worker_step s e pc = some r) : Moves lockfree s (.worker pc) r.1 (.worker r.2) := by
  cases pc with
  | dequeue pc =>
    obtain ⟨q, -, rfl⟩ := Option.map_eq_some_iff.mp hr
    refine ⟨rfl, rfl, rfl, .inl ⟨rfl, fun _ => fresh_of_not_deciding ?_⟩⟩
    unfold after_dequeue
    split <;> rfl
  | _ =>
    simp only [worker_step, wait_step] at hr
    (try split at hr) <;> (try split_ifs at hr) <;> cases hr <;>
      refine ⟨rfl, rfl, rfl, ?_⟩ <;> grind [Looks.Fresh, InRange, lockfree, Looks.deciding]

theorem Sound.step {w w' : World T} {l : Label T} (h : Sound lockfree w.pool w.threads)
    (hone : w.threads.countP lockfree.deciding ≤ 1) (hl : step w l = some w') :
    Sound lockfree w'.pool w'.threads := by
  cases l with
  | step i e =>
    simp only [ThreadPool.step] at hl
    split at hl
    · cases hl
    · rename_i t pc hi
      obtain ⟨r, hr, rfl⟩ := Option.map_eq_some_iff.mp hl
      apply h.thread hone hi (producer_step_moves hr)
      unfold spawned
      split <;> simp [Looks.deciding, lockfree]
    · rename_i pc hi
      obtain ⟨r, hr, rfl⟩ := Option.map_eq_some_iff.mp hl
      have hsound := h.thread hone hi (worker_step_moves h.stop hr) [] (by simp)
      rwa [append_nil] at hsound
  | _ =>
    cases hl
    exact h.append rfl

/-! ## The mutex mode -/

def mutex : Looks (MutexThread T) where
  growing
    | .producer _ (.spawn _) => true
    | _ => false
  leaving
    | .worker .leave => true
    | _ => false

/-- The threads that have `m_queuelocker`. -/
def has_lock : MutexThread T → Bool
  | .producer _ pc => match pc with
    | .push | .grow _ | .spawn _ | .unlock _ => true
    | .load_stop | .lock | .returned _ => false
  | .worker pc => match pc with
    | .check | .sleep | .timed_out | .leave | .unlock_leave | .take | .unlock _ => true
    | .lock | .wait _ | .execute _ | .sub_busy | .exited => false

/-- A thread takes the lock if nobody has it, and gives up the one it has. -/
def Passes (s : Pool T) (x : MutexThread T) (s' : Pool T) (y : MutexThread T) : Prop :=
  s'.m_queuelocker.toNat + one has_lock x = s.m_queuelocker.toNat + one has_lock y

theorem moves_of_same {x y : MutexThread T} (hstop : s'.m_stop = s.m_stop)
    (hlower : s'.m_min_thread_number = s.m_min_thread_number)
    (hupper : s'.m_max_thread_number = s.m_max_thread_number)
    (hnumber : s'.m_current_thread_number = s.m_current_thread_number)
    (hy : mutex.deciding y = false) : Moves mutex s x s' y :=
  ⟨hstop, hlower, hupper, .inl ⟨hnumber, fun _ => fresh_of_not_deciding hy⟩⟩

theorem mutex_producer_moves {t : Task T} {pc : MutexProducerPc} {r : Pool T × MutexProducerPc}
    (hr : mutex_producer_step s t e pc = some r)
    (hlock : has_lock (.producer t pc) = true → s.m_queuelocker = true) :
    Moves mutex s (.producer t pc) r.1 (.producer t r.2) ∧
      Passes s (.producer t pc) r.1 (.producer t r.2) := by
  cases pc with
  | load_stop =>
    rw [mutex_producer_step] at hr
    split_ifs at hr <;> cases hr <;> exact ⟨moves_of_same rfl rfl rfl rfl rfl, rfl⟩
  | lock =>
    rw [mutex_producer_step] at hr
    split_ifs at hr with hfree
    cases hr
    rw [Bool.not_eq_true] at hfree
    exact ⟨moves_of_same rfl rfl rfl rfl rfl, by rw [Passes, hfree]; rfl⟩
  | push =>
    rw [mutex_producer_step] at hr
    split_ifs at hr <;> cases hr <;> exact ⟨moves_of_same rfl rfl rfl rfl rfl, rfl⟩
  | grow pending_tasks =>
    rw [mutex_producer_step] at hr
    split_ifs at hr with hroom
    · -- it has looked: there is room for a worker
      cases hr
      exact ⟨⟨rfl, rfl, rfl, .inl ⟨rfl, fun _ => ⟨fun _ => hroom.2, by simp [mutex]⟩⟩⟩, rfl⟩
    · cases hr
      exact ⟨moves_of_same rfl rfl rfl rfl rfl, rfl⟩
  | spawn pending_tasks =>
    rw [mutex_producer_step] at hr
    split_ifs at hr
    · cases hr
      exact ⟨moves_of_same rfl rfl rfl rfl rfl, rfl⟩
    · cases hr
      refine ⟨⟨rfl, rfl, rfl, .inr ⟨rfl, rfl, fun hrange hfresh => ?_⟩⟩, rfl⟩
      have hroom := hfresh.1 rfl
      exact ⟨by have := hrange.1; dsimp only; omega, by dsimp only; omega⟩
  | unlock ok =>
    cases hr
    exact ⟨moves_of_same rfl rfl rfl rfl rfl, by rw [Passes, hlock rfl]; rfl⟩
  | returned ok => cases hr

theorem mutex_worker_moves (hstop : s.m_stop = false) {pc : MutexWorkerPc T}
    {r : Pool T × MutexWorkerPc T} (hr : mutex_worker_step s e pc = some r)
    (hlock : has_lock (.worker pc : MutexThread T) = true → s.m_queuelocker = true) :
    Moves mutex s (.worker pc) r.1 (.worker r.2) ∧ Passes s (.worker pc) r.1 (.worker r.2) := by
  cases pc with
  | lock =>
    rw [mutex_worker_step] at hr
    split_ifs at hr with hfree
    cases hr
    rw [Bool.not_eq_true] at hfree
    exact ⟨moves_of_same rfl rfl rfl rfl rfl, by rw [Passes, hfree]; rfl⟩
  | check =>
    rw [mutex_worker_step] at hr
    split_ifs at hr <;> cases hr <;> exact ⟨moves_of_same rfl rfl rfl rfl rfl, rfl⟩
  | sleep =>
    cases hr
    exact ⟨moves_of_same rfl rfl rfl rfl rfl, by rw [Passes, hlock rfl]; rfl⟩
  | wait timed =>
    rw [mutex_worker_step] at hr
    split_ifs at hr with hfree <;> cases hr <;> rw [Bool.not_eq_true] at hfree <;>
      exact ⟨moves_of_same rfl rfl rfl rfl rfl, by rw [Passes, hfree]; rfl⟩
  | timed_out =>
    rw [mutex_worker_step] at hr
    split_ifs at hr with hidle
    · -- it has looked: there are more workers than the least number
      cases hr
      exact ⟨⟨rfl, rfl, rfl, .inl ⟨rfl, fun _ => ⟨by simp [mutex], fun _ => hidle.2⟩⟩⟩, rfl⟩
    · cases hr
      exact ⟨moves_of_same rfl rfl rfl rfl rfl, rfl⟩
  | leave =>
    cases hr
    refine ⟨⟨rfl, rfl, rfl, .inr ⟨rfl, rfl, fun hrange hfresh => ?_⟩⟩, rfl⟩
    have hmore := hfresh.2 rfl
    exact ⟨by dsimp only; omega, by have := hrange.2; dsimp only; omega⟩
  | take =>
    rw [mutex_worker_step] at hr
    split at hr
    · rw [hstop] at hr
      cases hr
    · cases hr
      exact ⟨moves_of_same rfl rfl rfl rfl rfl, rfl⟩
  | exited => cases hr
  | unlock_leave =>
    cases hr
    exact ⟨moves_of_same rfl rfl rfl rfl rfl, by rw [Passes, hlock rfl]; rfl⟩
  | unlock current_task =>
    cases hr
    exact ⟨moves_of_same rfl rfl rfl rfl rfl, by rw [Passes, hlock rfl]; rfl⟩
  | execute current_task =>
    cases hr
    exact ⟨moves_of_same rfl rfl rfl rfl rfl, rfl⟩
  | sub_busy =>
    cases hr
    exact ⟨moves_of_same rfl rfl rfl rfl rfl, rfl⟩

/-- **The lock.** One thread has it, or nobody. -/
structure Locked (w : MutexWorld T) : Prop extends Sound mutex w.pool w.threads where
  lock : w.threads.countP has_lock = w.pool.m_queuelocker.toNat

variable {w w' : MutexWorld T}

theorem Locked.deciding (h : Locked w) : w.threads.countP mutex.deciding ≤ 1 := by
  have hle : w.threads.countP mutex.deciding ≤ w.threads.countP has_lock := by
    apply countP_mono_left
    rintro (⟨t, pc⟩ | pc) - hx <;> cases pc <;> first | rfl | cases hx
  rw [h.lock] at hle
  exact hle.trans (Bool.toNat_le _)

theorem Locked.of_has_lock (h : Locked w) {x : MutexThread T} (hx : x ∈ w.threads)
    (hlock : has_lock x = true) : w.pool.m_queuelocker = true := by
  have hpos : 0 < w.threads.countP has_lock := countP_pos_iff.mpr ⟨x, hx, hlock⟩
  rw [h.lock] at hpos
  cases hlocker : w.pool.m_queuelocker with
  | true => rfl
  | false =>
    rw [hlocker] at hpos
    exact absurd hpos (lt_irrefl 0)

theorem Locked.thread (h : Locked w) {x y : MutexThread T} {i : ℕ} (hi : w.threads[i]? = some x)
    (hmoves : Moves mutex w.pool x s' y) (hpasses : Passes w.pool x s' y)
    (new : List (MutexThread T)) (hnew : ∀ z ∈ new, mutex.deciding z = false ∧ has_lock z = false) :
    Locked ⟨s', w.threads.set i y ++ new⟩ := by
  refine ⟨h.toSound.thread h.deciding hi hmoves new fun z hz => (hnew z hz).1, ?_⟩
  have hzero : new.countP has_lock = 0 := by
    rw [countP_eq_zero]
    intro z hz
    rw [(hnew z hz).2]
    exact Bool.false_ne_true
  have hcount := countP_set_add has_lock w.threads i x y hi
  have hlock := h.lock
  rw [Passes] at hpasses
  rw [countP_append, hzero]
  dsimp only
  omega

theorem Locked.step {l : Label T} (h : Locked w) (hl : mutex_step w l = some w') : Locked w' := by
  cases l with
  | step i e =>
    simp only [mutex_step] at hl
    split at hl
    · cases hl
    · rename_i t pc hi
      obtain ⟨r, hr, rfl⟩ := Option.map_eq_some_iff.mp hl
      obtain ⟨hmoves, hpasses⟩ := mutex_producer_moves hr (h.of_has_lock (mem_of_getElem? hi))
      refine h.thread hi hmoves hpasses _ fun z hz => ?_
      unfold mutex_spawned at hz
      split at hz
      · split_ifs at hz
        · cases hz
        · rw [mem_singleton.mp hz]
          exact ⟨rfl, rfl⟩
      · cases hz
    · rename_i pc hi
      obtain ⟨r, hr, rfl⟩ := Option.map_eq_some_iff.mp hl
      obtain ⟨hmoves, hpasses⟩ := mutex_worker_moves h.stop hr (h.of_has_lock (mem_of_getElem? hi))
      have hlocked := h.thread hi hmoves hpasses [] (by simp)
      rwa [append_nil] at hlocked
  | _ =>
    cases hl
    refine ⟨h.toSound.append rfl, ?_⟩
    rw [countP_append_singleton]
    exact h.lock

/-! ## Both modes -/

/-- **The number of workers stays in its range**: in the lock-free mode while at most one thread
decides on it, in the mutex mode always. -/
theorem workers_in_range (thread_number max_requests max_thread_number : ℤ) :
    (∀ w : World T, (system T thread_number max_requests max_thread_number).ReachableVia
      (fun w _ => w.threads.countP lockfree.deciding ≤ 1) w → InRange w.pool) ∧
    ∀ w : MutexWorld T, (mutex_system T thread_number max_requests max_thread_number).Reachable w →
      InRange w.pool := by
  constructor
  · intro w h
    suffices hsound : Sound lockfree w.pool w.threads from hsound.range
    apply System.ReachableVia.invariant _ _ (fun _ _ _ hone hw hl => Sound.step hw hone hl) h
    rintro w ⟨garbage, hw⟩
    obtain ⟨pool, hpool, rfl⟩ := Option.map_eq_some_iff.mp hw
    exact .construct hpool _ rfl
  · intro w h
    suffices hlocked : Locked w from hlocked.range
    apply System.Reachable.invariant _ _ (fun _ _ _ hw hl => Locked.step hw hl) h
    rintro w ⟨garbage, hw⟩
    obtain ⟨pool, hpool, rfl⟩ := Option.map_eq_some_iff.mp hw
    refine ⟨.construct hpool _ rfl, ?_⟩
    unfold construct_pool at hpool
    split_ifs at hpool <;> cases hpool <;> simp [countP_replicate, has_lock]

def two_pool : World ℕ := (construct 1 4 2 fun _ => ⟨none, 0, false⟩).get rfl

def two_mutex_pool : MutexWorld ℕ := (mutex_construct 1 4 2 fun _ => ⟨none, 0, false⟩).get rfl

theorem two_pool_init : (system ℕ 1 4 2).init two_pool := ⟨fun _ => ⟨none, 0, false⟩, rfl⟩

/-- Two calls of `append_p`, one after the other. -/
def one_after_the_other : List (Label ℕ) :=
  [.append_p (some 7), .append_p (some 8)] ++ replicate 13 (.step 1 .go) ++
    replicate 15 (.step 2 .go)

/-- In the mutex mode. The first worker takes both tasks, and the other one leaves. -/
def one_leaves : List (Label ℕ) :=
  [.append_p (some 7), .append_p (some 8)] ++ replicate 5 (.step 1 .go) ++
    replicate 7 (.step 2 .go) ++ replicate 12 (.step 0 .go) ++ replicate 3 (.step 3 .go) ++
    .step 3 .timed_out :: replicate 3 (.step 3 .go)

/-- The second of two tasks starts a worker; and a worker that is not needed goes. -/
theorem second_worker_in_range :
    (∃ w, (system ℕ 1 4 2).exec two_pool one_after_the_other = some w ∧
      w.pool.m_current_thread_number = 2 ∧ InRange w.pool) ∧
    ∃ w, (mutex_system ℕ 1 4 2).exec two_mutex_pool one_leaves = some w ∧
      .worker .exited ∈ w.threads ∧ InRange w.pool := by
  obtain ⟨hlockfree, hmutex⟩ := workers_in_range (T := ℕ) 1 4 2
  constructor
  · obtain ⟨w, hrun, hw, htest⟩ := System.ReachableVia.of_run (system ℕ 1 4 2)
      (fun w _ => w.threads.countP lockfree.deciding ≤ 1) two_pool_init one_after_the_other
      (by decide +kernel) (fun w => w.pool.m_current_thread_number = 2) (by decide +kernel)
    exact ⟨w, hrun, of_decide_eq_true htest, hlockfree w hw⟩
  · obtain ⟨w, hrun, hw, htest⟩ := System.ReachableVia.of_run (mutex_system ℕ 1 4 2)
      (fun _ _ => True) ⟨fun _ => ⟨none, 0, false⟩, rfl⟩ one_leaves (by decide +kernel)
      (fun w => decide (.worker .exited ∈ w.threads)) (by decide +kernel)
    exact ⟨w, hrun, of_decide_eq_true htest, hmutex w hw⟩

/-- Both producers see two tasks and one worker, and each starts another one. -/
theorem one_worker_too_many :
    ¬ ∀ w : World ℕ, (system ℕ 1 4 2).Reachable w → InRange w.pool := by
  intro hall
  obtain ⟨w, hw, htest⟩ := System.Reachable.of_run (system ℕ 1 4 2) two_pool_init
    ([.append_p (some 7), .append_p (some 8)] ++ replicate 7 (.step 1 .go) ++
      replicate 12 (.step 2 .go) ++ replicate 5 (.step 1 .go) ++ replicate 4 (.step 2 .go) ++
      replicate 3 (.step 1 .go))
    (fun w => w.pool.m_max_thread_number < w.pool.m_current_thread_number) (by decide +kernel)
  exact (of_decide_eq_true htest).not_ge (hall w hw).2

end AtlasWebServer.ThreadPool
