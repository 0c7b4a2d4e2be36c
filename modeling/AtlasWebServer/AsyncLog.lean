/-
The asynchronous log of `infra/log/log.cpp`: callers queue their lines, a worker writes them in
batches.

Every section under a mutex is one step. A line is in the files, in the worker's hands or in the
queue, and the worker is never more than a bounded number of its own steps away from writing it
(`Due`), whatever the other threads do meanwhile. `m_pending_logs` counts the lines that
are queued or in the worker's hands; so `flush`, which waits for zero, finds all lines written
that were there before it (`no_line_lost`). Only at the end of `shutdown_async` a caller can
come too late: the queue is open again and nobody reads it (`late_line_lost`).
-/
import AtlasWebServer.StepSystem
import Mathlib.Data.List.Count

set_option autoImplicit false

namespace AtlasWebServer.AsyncLog

open StepSystem List Function

/-! ## The code -/

/-- A call of `write_log` before it reads `m_is_async`, before its section on the queue, before
the one on the file, and after it. -/
inductive WritePc
  | idle
  | queue
  | file
  | returned
  deriving DecidableEq

/-- A call of `flush`, with the lines of the calls of `write_log` that had returned before it. -/
inductive FlushPc
  | idle
  | load (before : ℕ → Bool)
  | drain (before : ℕ → Bool)
  | file (before : ℕ → Bool)
  | returned (before : ℕ → Bool)

/-- `worker_loop` before each of its sections. -/
inductive WorkerPc
  | wait
  | write (batch : List ℕ)
  | count (batch : List ℕ)
  | last
  | ended
  deriving DecidableEq

/-- `shutdown_async`: not called, before the join, before the reset, before `m_is_async`. -/
inductive ShutdownPc
  | idle
  | join
  | reset
  | clear

/-- The log and its threads. Line `i` is that of call `i`; `written` are the lines in the files. -/
structure Log where
  m_is_async : Bool
  m_stop_requested : Bool
  m_max_queue_size : ℕ
  m_log_queue : List ℕ
  m_pending_logs : ℕ
  written : List ℕ
  worker : WorkerPc
  shutdown : ShutdownPc
  calls : ℕ → WritePc
  flushes : ℕ → FlushPc

/-- Which thread makes its next step. -/
inductive Label
  | write_log (i : ℕ)
  | flush (j : ℕ)
  | worker_loop
  | shutdown_async
  deriving DecidableEq

def accepts (w : Log) : Bool :=
  !w.m_stop_requested && 0 < w.m_max_queue_size && w.m_log_queue.length < w.m_max_queue_size

/-- `write_log`, for a line at or above the log level: to the queue, or to the file if the log is
synchronous or the queue is full or closed. -/
def write_log (w : Log) (i : ℕ) : WritePc → Option Log
  | .idle => some { w with calls := update w.calls i (if w.m_is_async then .queue else .file) }
  | .queue =>
      if accepts w then
        some { w with
          m_log_queue := w.m_log_queue ++ [i]
          m_pending_logs := w.m_pending_logs + 1
          calls := update w.calls i .returned }
      else some { w with calls := update w.calls i .file }
  | .file => some { w with written := w.written ++ [i], calls := update w.calls i .returned }
  | .returned => none

/-- `flush`: it waits for `m_pending_logs == 0` if the log is asynchronous. -/
def flush (w : Log) (j : ℕ) : FlushPc → Option Log
  | .idle => some { w with
      flushes := update w.flushes j (.load fun i => w.calls i = .returned) }
  | .load before => some { w with
      flushes := update w.flushes j (if w.m_is_async then .drain before else .file before) }
  | .drain before =>
      if w.m_pending_logs = 0 then some { w with flushes := update w.flushes j (.file before) }
      else none
  | .file before => some { w with flushes := update w.flushes j (.returned before) }
  | .returned _ => none

/-- `worker_loop`: a batch of at most 64 lines is taken, written and counted. -/
def worker_loop (w : Log) : WorkerPc → Option Log
  | .wait =>
      if w.m_log_queue = [] then
        if w.m_stop_requested then some { w with worker := .last } else none
      else some { w with
        m_log_queue := w.m_log_queue.drop 64
        worker := .write (w.m_log_queue.take 64) }
  | .write batch => some { w with written := w.written ++ batch, worker := .count batch }
  | .count batch => some { w with
      m_pending_logs := w.m_pending_logs - batch.length
      worker := .wait }
  | .last => some { w with worker := .ended }
  | .ended => none

/-- `shutdown_async`, with `reset_queue_locked`. -/
def shutdown_async (w : Log) : ShutdownPc → Option Log
  | .idle => some { w with m_stop_requested := true, shutdown := .join }
  | .join => if w.worker = .ended then some { w with shutdown := .reset } else none
  | .reset => some { w with
      m_log_queue := []
      m_pending_logs := 0
      m_stop_requested := false
      shutdown := .clear }
  | .clear => some { w with m_is_async := false, shutdown := .idle }

/-- The step of the thread that the label names. -/
def step (w : Log) : Label → Option Log
  | .write_log i => write_log w i (w.calls i)
  | .flush j => flush w j (w.flushes j)
  | .worker_loop => worker_loop w w.worker
  | .shutdown_async => shutdown_async w w.shutdown

/-- What `init` leaves; a queue of no lines is the synchronous log. -/
def start (max_queue_size : ℕ) : Log :=
  let async := decide (0 < max_queue_size)
  ⟨async, false, max_queue_size, [], 0, [], if async then .wait else .ended, .idle,
    fun _ => .idle, fun _ => .idle⟩

/-- Any number of calls of `write_log` and `flush`, the worker and `shutdown_async`. -/
def system : System Log Label where
  init w := ∃ max_queue_size, w = start max_queue_size
  step := step

/-- A line is queued after the worker has ended. -/
def late (w : Log) : Label → Bool
  | .write_log i => w.calls i = .queue && w.worker = .ended && accepts w
  | _ => false

/-! ## Where the lines are -/

def taken : WorkerPc → List ℕ
  | .write batch => batch
  | _ => []

/-- The worker's batch, until it is counted. -/
def batch : WorkerPc → List ℕ
  | .write batch => batch
  | .count batch => batch
  | _ => []

/-- Every line is in one place, and the counter is right. -/
structure LinesPlaced (w : Log) : Prop where
  once : ∀ i, (w.written ++ taken w.worker ++ w.m_log_queue).count i =
    if w.calls i = .returned then 1 else 0
  pending : w.m_pending_logs = w.m_log_queue.length + (batch w.worker).length

/-- **What the log promises.** A `flush` that has returned has found the lines before it in
the files. When the worker can make no step, because it waits for lines or has ended, every line
whose `write_log` has returned is in the files, once; and so it is after every run in
which the worker has made enough steps for the lines that are queued now. -/
structure LinesKept (w : Log) : Prop extends LinesPlaced w where
  flushed : ∀ j before, w.flushes j = .returned before → ∀ i, before i = true → i ∈ w.written
  idle : worker_loop w w.worker = none → ∀ i, w.calls i = .returned → w.written.count i = 1
  settles : ∀ ls w', system.Along (fun w l => late w l = false) w ls →
    system.exec w ls = some w' → 3 * w.m_log_queue.length + 4 ≤ ls.count .worker_loop →
    ∀ i, w.calls i = .returned → w'.written.count i = 1

/-- What a call of `flush` knows of the lines before it. -/
def Knows (w : Log) : FlushPc → Prop
  | .idle => True
  | .load before | .drain before => ∀ i, before i = true → w.calls i = .returned
  | .file before | .returned before => ∀ i, before i = true → i ∈ w.written

/-- The inductive invariant. -/
structure Inv (w : Log) : Prop extends LinesPlaced w where
  last : w.worker = .last → w.m_stop_requested = true
  ended : w.worker = .last ∨ w.worker = .ended → w.m_log_queue = []
  shutdown : w.shutdown = .reset ∨ w.shutdown = .clear ∨ w.m_is_async = false → w.worker = .ended
  flushes : ∀ j, Knows w (w.flushes j)

variable {w w' : Log} {i j : ℕ}

theorem LinesPlaced.somewhere (h : LinesPlaced w) (hi : w.calls i = .returned) :
    i ∈ w.written ∨ i ∈ taken w.worker ∨ i ∈ w.m_log_queue := by
  have honce := h.once i
  rw [if_pos hi] at honce
  have hmem : i ∈ w.written ++ taken w.worker ++ w.m_log_queue :=
    count_pos_iff.mp (honce ▸ Nat.one_pos)
  rwa [mem_append, mem_append, or_assoc] at hmem

theorem LinesPlaced.count_written (h : LinesPlaced w) (hi : w.calls i = .returned)
    (hmem : i ∈ w.written) :
    w.written.count i = 1 := by
  have honce := h.once i
  rw [if_pos hi, count_append, count_append] at honce
  have hpos : 0 < w.written.count i := count_pos_iff.mpr hmem
  omega

theorem LinesPlaced.all_written (h : LinesPlaced w) (htaken : taken w.worker = [])
    (hqueue : w.m_log_queue = [])
    (hi : w.calls i = .returned) : i ∈ w.written := by
  rcases h.somewhere hi with hwritten | hheld | hqueued
  · exact hwritten
  · rw [htaken] at hheld
    cases hheld
  · rw [hqueue] at hqueued
    cases hqueued

theorem Knows.mono {pc : FlushPc} (h : Knows w pc)
    (hcalls : ∀ i, w.calls i = .returned → w'.calls i = .returned)
    (hwritten : w.written ⊆ w'.written) :
    Knows w' pc := by
  cases pc with
  | idle => trivial
  | load before => exact fun i hi => hcalls i (h i hi)
  | drain before => exact fun i hi => hcalls i (h i hi)
  | file before => exact fun i hi => hwritten (h i hi)
  | returned before => exact fun i hi => hwritten (h i hi)

/-! ## One step -/

section WriteLog

theorem Inv.moves {pc : WritePc} (h : Inv w) (hcall : w.calls i ≠ .returned)
    (hpc : pc ≠ .returned) : Inv { w with calls := update w.calls i pc } := by
  have hsame : ∀ k, update w.calls i pc k = .returned ↔ w.calls k = .returned := by
    intro k
    rcases eq_or_ne k i with rfl | hk
    · rw [update_self]
      exact iff_of_false hpc hcall
    · rw [update_of_ne hk]
  exact { h with
    once := fun k => (h.once k).trans (if_congr (hsame k) rfl rfl).symm
    flushes := fun j => (h.flushes j).mono (fun k => (hsame k).mpr) (Subset.refl _) }

theorem once_of_new {places places' : List ℕ} {calls : ℕ → WritePc} (hcall : calls i ≠ .returned)
    (hold : ∀ k, places.count k = if calls k = .returned then 1 else 0)
    (hnew : ∀ k, places'.count k = places.count k + [i].count k) (k : ℕ) :
    places'.count k = if update calls i .returned k = .returned then 1 else 0 := by
  rw [hnew, hold]
  rcases eq_or_ne k i with rfl | hk
  · rw [if_neg hcall, update_self, count_singleton_self, if_pos rfl]
  · rw [update_of_ne hk, count_eq_zero_of_not_mem (by simpa using hk), Nat.add_zero]

theorem returned_update {calls : ℕ → WritePc} (k : ℕ) (h : calls k = .returned) :
    update calls i .returned k = .returned := by
  rcases eq_or_ne k i with rfl | hk
  · exact update_self _ _ _
  · rw [update_of_ne hk]
    exact h

theorem Inv.write_log (h : Inv w) (hlate : late w (.write_log i) = false)
    (hstep : write_log w i (w.calls i) = some w') : Inv w' := by
  cases hpc : w.calls i with
  | idle =>
    rw [hpc] at hstep
    cases hstep
    refine h.moves (by simp [hpc]) ?_
    split <;> simp
  | queue =>
    have hcall : w.calls i ≠ .returned := by simp [hpc]
    rw [hpc, AsyncLog.write_log] at hstep
    split_ifs at hstep with haccepts
    · cases hstep
      have hopen : w.m_stop_requested = false := by
        simp only [accepts, Bool.and_eq_true, Bool.not_eq_true'] at haccepts
        exact haccepts.1.1
      exact { h with
        once := once_of_new hcall h.once fun k => by
          rw [← append_assoc, count_append]
        pending := by
          have hpending := h.pending
          simp only [length_append, length_singleton]
          omega
        -- the worker has not ended, since the line is not late, and will see it before it does
        ended := by
          rintro (hlast | hended)
          · rw [h.last hlast] at hopen
            cases hopen
          · change w.worker = .ended at hended
            simp [late, hpc, hended, haccepts] at hlate
        flushes := fun j => (h.flushes j).mono returned_update (Subset.refl _) }
    · cases hstep
      exact h.moves hcall (by simp)
  | file =>
    rw [hpc] at hstep
    cases hstep
    exact { h with
      once := once_of_new (by simp [hpc]) h.once fun k => by
        simp only [count_append]
        omega
      flushes := fun j => (h.flushes j).mono returned_update (subset_append_left _ _) }
  | returned =>
    rw [hpc] at hstep
    cases hstep

end WriteLog

section Flush

theorem Inv.flushes_update {pc : FlushPc} (h : Inv w) (hpc : Knows w pc) :
    Inv { w with flushes := update w.flushes j pc } := by
  refine { h with flushes := fun k => ?_ }
  change Knows w (update w.flushes j pc k)
  rcases eq_or_ne k j with rfl | hk
  · rwa [update_self]
  · rw [update_of_ne hk]
    exact h.flushes k

theorem Inv.drained (h : Inv w) (hzero : w.m_pending_logs = 0) (hi : w.calls i = .returned) :
    i ∈ w.written := by
  have hpending := h.pending
  have hqueue : w.m_log_queue = [] := length_eq_zero_iff.mp (by omega)
  have hbatch : batch w.worker = [] := length_eq_zero_iff.mp (by omega)
  refine h.all_written ?_ hqueue hi
  cases hworker : w.worker with
  | write lines =>
    rw [hworker] at hbatch
    exact hbatch
  | _ => rfl

theorem Inv.flush (h : Inv w) (hstep : flush w j (w.flushes j) = some w') : Inv w' := by
  have hknows := h.flushes j
  cases hpc : w.flushes j with
  | idle =>
    rw [hpc] at hstep
    cases hstep
    exact h.flushes_update fun i hi => of_decide_eq_true hi
  | load lines =>
    rw [hpc] at hstep hknows
    cases hstep
    refine h.flushes_update ?_
    split_ifs with hasync
    · exact hknows
    · -- the worker has ended, with an empty queue
      have hended := h.shutdown (.inr (.inr (Bool.eq_false_iff.mpr hasync)))
      refine fun i hi => h.drained ?_ (hknows i hi)
      rw [h.pending, h.ended (.inr hended), hended]
      rfl
  | drain lines =>
    rw [hpc] at hknows
    rw [hpc, AsyncLog.flush] at hstep
    split_ifs at hstep with hzero
    cases hstep
    exact h.flushes_update fun i hi => h.drained hzero (hknows i hi)
  | file lines =>
    rw [hpc] at hstep hknows
    cases hstep
    exact h.flushes_update hknows
  | returned lines =>
    rw [hpc] at hstep
    cases hstep

end Flush

section Worker

theorem Inv.worker_loop (h : Inv w) (hstep : worker_loop w w.worker = some w') : Inv w' := by
  -- no shutdown is past its join while the worker runs
  have hrunning : w.worker ≠ .ended → ¬ (w.shutdown = .reset ∨ w.shutdown = .clear ∨
      w.m_is_async = false) := fun hne hs => hne (h.shutdown hs)
  obtain ⟨⟨honce, hpending⟩, -, hended, -, hflushes⟩ := h
  cases hpc : w.worker with
  | wait =>
    have hnot := hrunning (by simp [hpc])
    rw [hpc, AsyncLog.worker_loop] at hstep
    rw [hpc] at honce hpending
    split_ifs at hstep with hempty hstop
    · cases hstep
      exact ⟨⟨honce, hpending⟩, fun _ => hstop, fun _ => hempty, fun hs => absurd hs hnot,
        hflushes⟩
    · cases hstep
      refine ⟨⟨fun i => ?_, ?_⟩, by simp, by simp, fun hs => absurd hs hnot, hflushes⟩
      · rw [← honce i]
        simp only [taken, append_nil, append_assoc, take_append_drop]
      · rw [hpending]
        simp only [batch, length_drop, length_take, length_nil]
        omega
  | write lines =>
    have hnot := hrunning (by simp [hpc])
    rw [hpc] at hstep honce hpending
    cases hstep
    refine ⟨⟨fun i => ?_, hpending⟩, by simp, by simp, fun hs => absurd hs hnot, fun j => ?_⟩
    · rw [← honce i]
      simp only [taken, append_nil]
    · exact (hflushes j).mono (fun _ => id) (subset_append_left _ _)
  | count lines =>
    have hnot := hrunning (by simp [hpc])
    rw [hpc] at hstep honce hpending
    cases hstep
    refine ⟨⟨honce, ?_⟩, by simp, by simp, fun hs => absurd hs hnot, hflushes⟩
    simp only [batch, length_nil] at hpending ⊢
    omega
  | last =>
    rw [hpc] at hstep honce hpending
    cases hstep
    exact ⟨⟨honce, hpending⟩, by simp, fun _ => hended (.inl hpc), fun _ => rfl, hflushes⟩
  | ended =>
    rw [hpc] at hstep
    cases hstep

theorem Inv.shutdown_async (h : Inv w) (hstep : shutdown_async w w.shutdown = some w') :
    Inv w' := by
  cases hpc : w.shutdown with
  | idle =>
    rw [hpc] at hstep
    cases hstep
    refine { h with last := fun _ => rfl, shutdown := ?_ }
    rintro (hne | hne | hsync)
    · cases hne
    · cases hne
    · exact h.shutdown (.inr (.inr hsync))
  | join =>
    rw [hpc, AsyncLog.shutdown_async] at hstep
    split_ifs at hstep with hended
    cases hstep
    exact { h with shutdown := fun _ => hended }
  | reset =>
    rw [hpc] at hstep
    cases hstep
    -- the worker has ended, so the queue that is cleared is empty
    have hended := h.shutdown (.inl hpc)
    have hempty := h.ended (.inr hended)
    exact { h with
      once := fun i => by rw [← h.once i, hempty]
      pending := by
        rw [hended]
        rfl
      last := fun hlast => absurd (hended.symm.trans hlast) (by simp)
      ended := fun _ => rfl
      shutdown := fun _ => hended }
  | clear =>
    rw [hpc] at hstep
    cases hstep
    exact { h with shutdown := fun _ => h.shutdown (.inr (.inl hpc)) }

end Worker

theorem Inv.start (max_queue_size : ℕ) : Inv (start max_queue_size) := by
  unfold AsyncLog.start
  rcases Nat.eq_zero_or_pos max_queue_size with rfl | hpos
  · exact ⟨⟨fun _ => rfl, rfl⟩, by simp, fun _ => rfl, fun _ => rfl, fun _ => trivial⟩
  · rw [decide_eq_true hpos]
    exact ⟨⟨fun _ => rfl, rfl⟩, by simp, fun _ => rfl, by simp, fun _ => trivial⟩

theorem Inv.step {l : Label} (h : Inv w) (hlate : late w l = false)
    (hstep : system.step w l = some w') : Inv w' := by
  cases l with
  | write_log i => exact h.write_log hlate hstep
  | flush j => exact h.flush hstep
  | worker_loop => exact h.worker_loop hstep
  | shutdown_async => exact h.shutdown_async hstep

/-! ## The worker comes to every line -/

/-- The steps of the worker from here to the end of its next batch. -/
def ahead : WorkerPc → ℕ
  | .write _ => 4
  | .count _ => 3
  | _ => 2

/-- The worker writes the line with its next `k` steps: it has done so, or holds it, or takes it
with the batch after `m` others. -/
def Due (w : Log) (i k : ℕ) : Prop :=
  i ∈ w.written ∨ i ∈ taken w.worker ∧ 1 ≤ k ∨
    ∃ m, i ∈ w.m_log_queue.take (64 * (m + 1)) ∧ 3 * m + ahead w.worker ≤ k

variable {k : ℕ}

theorem due_of_returned (h : LinesPlaced w) (hi : w.calls i = .returned) :
    Due w i (3 * w.m_log_queue.length + 4) := by
  rcases h.somewhere hi with hwritten | hheld | hqueued
  · exact .inl hwritten
  · exact .inr (.inl ⟨hheld, by omega⟩)
  · refine .inr (.inr ⟨w.m_log_queue.length, ?_, ?_⟩)
    · rwa [take_of_length_le (by omega)]
    · cases w.worker <;> simp [ahead]

theorem Due.worker_loop (h : Due w i k) (hinv : Inv w)
    (hstep : worker_loop w w.worker = some w') : Due w' i (k - 1) := by
  cases hpc : w.worker with
  | wait =>
    rw [hpc, AsyncLog.worker_loop] at hstep
    rw [Due, hpc] at h
    split_ifs at hstep with hempty hstop
    · cases hstep
      rcases h with hwritten | ⟨hheld, -⟩ | ⟨m, hm, -⟩
      · exact .inl hwritten
      · cases hheld
      · rw [hempty, take_nil] at hm
        cases hm
    · cases hstep
      rcases h with hwritten | ⟨hheld, -⟩ | ⟨m, hm, hk⟩
      · exact .inl hwritten
      · cases hheld
      simp only [ahead] at hk
      -- the line is in the batch, or one batch closer
      rw [show 64 * (m + 1) = 64 + 64 * m by omega, take_add, mem_append] at hm
      rcases hm with htaken | hlater
      · exact .inr (.inl ⟨htaken, by omega⟩)
      · cases m with
        | zero => cases hlater
        | succ m => exact .inr (.inr ⟨m, hlater, by simp only [ahead]; omega⟩)
  | write lines =>
    rw [hpc] at hstep
    rw [Due, hpc] at h
    cases hstep
    rcases h with hwritten | ⟨hheld, -⟩ | ⟨m, hm, hk⟩
    · exact .inl (mem_append_left _ hwritten)
    · exact .inl (mem_append_right _ hheld)
    · exact .inr (.inr ⟨m, hm, by simp only [ahead] at hk ⊢; omega⟩)
  | count lines =>
    rw [hpc] at hstep
    rw [Due, hpc] at h
    cases hstep
    rcases h with hwritten | ⟨hheld, -⟩ | ⟨m, hm, hk⟩
    · exact .inl hwritten
    · cases hheld
    · exact .inr (.inr ⟨m, hm, by simp only [ahead] at hk ⊢; omega⟩)
  | last =>
    rw [hpc] at hstep
    rw [Due, hpc, hinv.ended (.inl hpc)] at h
    cases hstep
    rcases h with hwritten | ⟨hheld, -⟩ | ⟨m, hm, -⟩
    · exact .inl hwritten
    · cases hheld
    · rw [take_nil] at hm
      cases hm
  | ended =>
    rw [hpc] at hstep
    cases hstep

/-- What the other threads may do. -/
structure Grows (w w' : Log) : Prop where
  worker : w'.worker = w.worker
  written : w.written ⊆ w'.written
  queue : w.m_log_queue <+: w'.m_log_queue
  calls : ∀ i, w.calls i = .returned → w'.calls i = .returned

theorem Grows.refl (w : Log) : Grows w w :=
  ⟨rfl, Subset.refl _, List.prefix_refl _, fun _ => id⟩

theorem Grows.step {l : Label} (hinv : Inv w) (hl : l ≠ .worker_loop)
    (hstep : system.step w l = some w') : Grows w w' := by
  cases l with
  | worker_loop => exact absurd rfl hl
  | write_log n =>
    change AsyncLog.write_log w n (w.calls n) = some w' at hstep
    have hgoes : ∀ pc, w.calls n ≠ .returned →
        Grows w { w with calls := update w.calls n pc } := by
      refine fun pc hn => { Grows.refl w with calls := fun i hi => ?_ }
      rcases eq_or_ne i n with rfl | hne
      · exact absurd hi hn
      · exact (update_of_ne hne _ _).trans hi
    cases hpc : w.calls n with
    | idle =>
      rw [hpc] at hstep
      cases hstep
      exact hgoes _ (by simp [hpc])
    | queue =>
      rw [hpc, AsyncLog.write_log] at hstep
      split_ifs at hstep
      · cases hstep
        exact ⟨rfl, Subset.refl _, prefix_append _ _, returned_update⟩
      · cases hstep
        exact hgoes _ (by simp [hpc])
    | file =>
      rw [hpc] at hstep
      cases hstep
      exact ⟨rfl, subset_append_left _ _, List.prefix_refl _, returned_update⟩
    | returned =>
      rw [hpc] at hstep
      cases hstep
  | flush j =>
    change AsyncLog.flush w j (w.flushes j) = some w' at hstep
    have hgoes : ∃ flushes, w' = { w with flushes } := by
      unfold AsyncLog.flush at hstep
      split at hstep
      · exact ⟨_, (Option.some.inj hstep).symm⟩
      · exact ⟨_, (Option.some.inj hstep).symm⟩
      · split_ifs at hstep
        exact ⟨_, (Option.some.inj hstep).symm⟩
      · exact ⟨_, (Option.some.inj hstep).symm⟩
      · cases hstep
    obtain ⟨flushes, rfl⟩ := hgoes
    exact { Grows.refl w with }
  | shutdown_async =>
    change AsyncLog.shutdown_async w w.shutdown = some w' at hstep
    cases hpc : w.shutdown with
    | idle =>
      rw [hpc] at hstep
      cases hstep
      exact { Grows.refl w with }
    | join =>
      rw [hpc, AsyncLog.shutdown_async] at hstep
      split_ifs at hstep
      cases hstep
      exact { Grows.refl w with }
    | reset =>
      -- the queue that is cleared is empty
      rw [hpc] at hstep
      cases hstep
      have hempty := hinv.ended (.inr (hinv.shutdown (.inl hpc)))
      exact { Grows.refl w with queue := hempty ▸ List.prefix_refl _ }
    | clear =>
      rw [hpc] at hstep
      cases hstep
      exact { Grows.refl w with }

theorem Due.mono (h : Due w i k) (hgrows : Grows w w') : Due w' i k := by
  rcases h with hin | hheld | ⟨m, hm, hk⟩
  · exact .inl (hgrows.written hin)
  · rw [← hgrows.worker] at hheld
    exact .inr (.inl hheld)
  · obtain ⟨more, hmore⟩ := hgrows.queue
    rw [← hgrows.worker] at hk
    refine .inr (.inr ⟨m, ?_, hk⟩)
    rw [← hmore, take_append]
    exact mem_append_left _ hm

theorem worker_loop_calls (hstep : worker_loop w w.worker = some w') : w'.calls = w.calls := by
  unfold worker_loop at hstep
  split at hstep
  · split_ifs at hstep
    · cases hstep
      rfl
    · cases hstep
      rfl
  · cases hstep
    rfl
  · cases hstep
    rfl
  · cases hstep
    rfl
  · cases hstep

theorem Due.step {l : Label} (h : Due w i k) (hinv : Inv w) (hi : w.calls i = .returned)
    (hstep : system.step w l = some w') :
    Due w' i (k - [l].count .worker_loop) ∧ w'.calls i = .returned := by
  by_cases hl : l = .worker_loop
  · subst hl
    exact ⟨h.worker_loop hinv hstep, by rw [worker_loop_calls hstep]; exact hi⟩
  · have hgrows := Grows.step hinv hl hstep
    rw [count_eq_zero_of_not_mem (by simpa using fun heq => hl heq.symm)]
    exact ⟨h.mono hgrows, hgrows.calls i hi⟩

theorem Due.run (ls : List Label) (h : Due w i k) (hinv : Inv w) (hi : w.calls i = .returned)
    (halong : system.Along (fun w l => late w l = false) w ls) (hrun : system.exec w ls = some w') :
    Due w' i (k - ls.count .worker_loop) ∧ Inv w' ∧ w'.calls i = .returned := by
  induction ls generalizing w k with
  | nil =>
    cases hrun
    exact ⟨h, hinv, hi⟩
  | cons l ls ih =>
    obtain ⟨hlate, halong⟩ := halong
    rw [System.exec_cons, Option.bind_eq_some_iff] at hrun
    obtain ⟨w₁, hstep, hrun⟩ := hrun
    obtain ⟨hdue₁, hi₁⟩ := h.step hinv hi hstep
    obtain ⟨hdue, hrest⟩ := ih hdue₁ (hinv.step hlate hstep) hi₁ (halong w₁ hstep) hrun
    rw [Nat.sub_sub, ← count_append, singleton_append] at hdue
    exact ⟨hdue, hrest⟩

/-- **No line is lost or written twice**, unless one is queued after the worker has ended. -/
theorem no_line_lost (h : system.ReachableVia (fun w l => late w l = false) w) : LinesKept w := by
  have hinv : Inv w := by
    apply System.ReachableVia.invariant system _
      (fun w l w' hlate hw hstep => hw.step hlate hstep) h
    rintro _ ⟨max_queue_size, rfl⟩
    exact Inv.start max_queue_size
  refine { hinv with flushed := ?_, idle := ?_, settles := ?_ }
  · intro j before hflush
    have hknows := hinv.flushes j
    rw [hflush] at hknows
    exact hknows
  · -- the worker waits, or has ended, with an empty queue
    intro hnone i hi
    refine hinv.count_written hi ?_
    cases hpc : w.worker with
    | wait =>
      rw [hpc, worker_loop] at hnone
      split_ifs at hnone with hempty
      exact hinv.all_written (by rw [hpc]; rfl) hempty hi
    | ended => exact hinv.all_written (by rw [hpc]; rfl) (hinv.ended (.inr hpc)) hi
    | _ =>
      rw [hpc] at hnone
      cases hnone
  · intro ls w' halong hrun hsteps i hi
    obtain ⟨hdue, hinv', hi'⟩ := (due_of_returned hinv.toLinesPlaced hi).run ls hinv hi halong hrun
    refine hinv'.count_written hi' ?_
    rw [Nat.sub_eq_zero_of_le hsteps] at hdue
    rcases hdue with hwritten | ⟨-, hfalse⟩ | ⟨m, -, hfalse⟩
    · exact hwritten
    · cases hfalse
    · exact absurd hfalse (by cases w'.worker <;> simp [ahead])

/-- A line is queued, written and flushed. -/
theorem one_line_kept : ∃ w, system.exec (start 8) [.write_log 0, .write_log 0, .flush 0, .flush 0,
      .worker_loop, .worker_loop, .worker_loop, .flush 0, .flush 0] = some w ∧
    w.written = [0] ∧ LinesKept w := by
  obtain ⟨w, hrun, hw, htest⟩ := System.ReachableVia.of_run system (fun w l => late w l = false)
    ⟨8, rfl⟩ [.write_log 0, .write_log 0, .flush 0, .flush 0, .worker_loop, .worker_loop,
      .worker_loop, .flush 0, .flush 0] (by decide) (fun w => w.written = [0]) (by decide)
  exact ⟨w, hrun, of_decide_eq_true htest, no_line_lost hw⟩

/-- The queue is open again after the reset, and the worker is gone. -/
theorem late_line_lost : ¬ ∀ w, system.Reachable w → LinesKept w := by
  intro hall
  obtain ⟨w, hw, htest⟩ := System.Reachable.of_run system ⟨8, rfl⟩
    [.write_log 0, .shutdown_async, .worker_loop, .worker_loop, .shutdown_async, .shutdown_async,
      .write_log 0, .shutdown_async, .flush 0, .flush 0, .flush 0]
    (fun w => match w.flushes 0 with
      | .returned before => before 0 && w.written = []
      | _ => false) (by decide)
  split at htest
  · rename_i before hflush
    obtain ⟨hbefore, hwritten⟩ := Bool.and_eq_true_iff.mp htest
    have hmem := (hall w hw).flushed 0 before hflush 0 hbefore
    rw [of_decide_eq_true hwritten] at hmem
    cases hmem
  · cases htest

end AtlasWebServer.AsyncLog
