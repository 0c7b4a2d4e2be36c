/-
`threadpool::bounded_mpmc_queue` (`infra/threadpool/threadpool.h`): the bounded
multi-producer multi-consumer ring of the lock-free mode, as interleaved steps.

Every shared access of `enqueue` and `dequeue` is a step of its own: the load
of the position, the load of the cell's sequence number, the compare-and-swap
on the position, the copy of the payload, and the store of the sequence number.
The steps are `enqueue_step` and `dequeue_step`; a call is a program counter
plus the locals the source keeps across the steps, and a label picks the call
that moves and says whether its `compare_exchange_weak` failed spuriously.

Memory is sequentially consistent. Positions and sequence numbers are `ℕ`, so
`diff` is a difference of integers and no `size_t` wraps. The result about the ring
says how many tickets it has handed out before one would.

`enqueue_tickets` and `dequeue_tickets` are history variables: entry `k` is the
call whose compare-and-swap was the `k`-th successful one. No step reads them.
-/
import Mathlib.Data.Nat.Bits
import Mathlib.Tactic
import AtlasWebServer.StepSystem

set_option autoImplicit false

namespace AtlasWebServer.MpmcQueue

open StepSystem

/-! ## `normalize_capacity` -/

/-- The doubling loop. `fuel` bounds its passes; `normalize_capacity_loop_spec`
shows that `capacity` passes are always enough. -/
def normalize_capacity_loop (capacity : ℕ) : ℕ → ℕ → ℕ
  | 0, normalized => normalized
  | fuel + 1, normalized =>
      if normalized < capacity then normalize_capacity_loop capacity fuel (normalized <<< 1)
      else normalized

/-- `normalize_capacity`: the least power of two that is at least `capacity`. -/
def normalize_capacity (capacity : ℕ) : ℕ := normalize_capacity_loop capacity capacity 1

theorem normalize_capacity_loop_spec (capacity : ℕ) :
    ∀ fuel k : ℕ, capacity ≤ fuel + 2 ^ k → 2 ^ k < 2 * capacity →
      ∃ m, normalize_capacity_loop capacity fuel (2 ^ k) = 2 ^ m ∧ capacity ≤ 2 ^ m ∧
        2 ^ m < 2 * capacity := by
  intro fuel
  induction fuel with
  | zero =>
    intro k hfuel hlt
    exact ⟨k, rfl, by simpa using hfuel, hlt⟩
  | succ fuel ih =>
    intro k hfuel hlt
    unfold normalize_capacity_loop
    by_cases hk : 2 ^ k < capacity
    · rw [if_pos hk, Nat.shiftLeft_eq, pow_one, ← pow_succ]
      have hpos : 0 < 2 ^ k := by positivity
      refine ih (k + 1) ?_ ?_
      · rw [pow_succ]; omega
      · rw [pow_succ]; omega
    · rw [if_neg hk]
      exact ⟨k, rfl, by omega, hlt⟩

theorem normalize_capacity_spec {capacity : ℕ} (h : 1 ≤ capacity) :
    ∃ m, normalize_capacity capacity = 2 ^ m ∧ capacity ≤ 2 ^ m ∧ 2 ^ m < 2 * capacity :=
  normalize_capacity_loop_spec capacity capacity 0 (by omega) (by simpa using by omega)

theorem normalize_capacity_even {max_requests : ℕ} (h : 2 ≤ max_requests) :
    ∃ k, normalize_capacity max_requests = 2 ^ (k + 1) := by
  have h1 : 1 ≤ max_requests := by omega
  obtain ⟨m, hm, hle, -⟩ := normalize_capacity_spec h1
  cases m with
  | zero => simp only [pow_zero] at hle; omega
  | succ k => exact ⟨k, hm⟩

/-! ## The ring -/

variable {α : Type}

/-- `cell`: a sequence number and a payload. -/
structure Cell (α : Type) where
  sequence : ℕ
  payload : α

/-- `bounded_mpmc_queue`. The buffer is only indexed below `m_capacity`. -/
structure Queue (α : Type) where
  m_capacity : ℕ
  m_buffer : ℕ → Cell α
  m_enqueue_pos : ℕ
  m_dequeue_pos : ℕ

def Queue.m_mask (q : Queue α) : ℕ := q.m_capacity - 1

/-- The index of the cell of a position, `pos & m_mask`. -/
def Queue.slot (q : Queue α) (pos : ℕ) : ℕ := pos &&& q.m_mask

def Queue.current (q : Queue α) (pos : ℕ) : Cell α := q.m_buffer (q.slot pos)

def Queue.set_payload (q : Queue α) (pos : ℕ) (value : α) : Queue α :=
  let updated := { q.current pos with payload := value }
  { q with m_buffer := Function.update q.m_buffer (q.slot pos) updated }

def Queue.store_sequence (q : Queue α) (pos seq : ℕ) : Queue α :=
  let updated := { q.current pos with sequence := seq }
  { q with m_buffer := Function.update q.m_buffer (q.slot pos) updated }

/-- The constructor: cell `i` starts with sequence number `i`; its payload is
whatever the fresh allocation holds. -/
def Queue.fresh (max_requests : ℕ) (garbage : ℕ → α) : Queue α where
  m_capacity := normalize_capacity max_requests
  m_buffer i := { sequence := i, payload := garbage i }
  m_enqueue_pos := 0
  m_dequeue_pos := 0

/-! ## `enqueue` and `dequeue`, one shared access a step -/

/-- Where an `enqueue` call stands, with its local `pos`. -/
inductive EnqueuePc
  | load_pos
  | load_seq (pos : ℕ)
  | cas (pos : ℕ)
  | write (pos : ℕ)
  | store (pos : ℕ)
  | returned (ok : Bool)
  deriving DecidableEq

/-- Where a `dequeue` call stands, with its locals `pos` and `value`. A call
that returned `false` is `returned none`. -/
inductive DequeuePc (α : Type)
  | load_pos
  | load_seq (pos : ℕ)
  | cas (pos : ℕ)
  | copy (pos : ℕ)
  | store (pos : ℕ) (value : α)
  | returned (result : Option α)
  deriving DecidableEq

def enqueue_step (q : Queue α) (value : α) (spurious : Bool) :
    EnqueuePc → Option (Queue α × EnqueuePc)
  | .load_pos => some (q, .load_seq q.m_enqueue_pos)
  | .load_seq pos =>
      let diff : ℤ := ((q.current pos).sequence : ℤ) - (pos : ℤ)
      if diff = 0 then some (q, .cas pos)
      else if diff < 0 then some (q, .returned false)
      else some (q, .load_pos)
  | .cas pos =>
      if q.m_enqueue_pos = pos ∧ spurious = false then
        some ({ q with m_enqueue_pos := pos + 1 }, .write pos)
      else
        -- a failed exchange leaves the current position in `pos`, and the loop
        -- goes straight back to the sequence load
        some (q, .load_seq q.m_enqueue_pos)
  | .write pos => some (q.set_payload pos value, .store pos)
  | .store pos => some (q.store_sequence pos (pos + 1), .returned true)
  | .returned _ => none

def dequeue_step (q : Queue α) (spurious : Bool) :
    DequeuePc α → Option (Queue α × DequeuePc α)
  | .load_pos => some (q, .load_seq q.m_dequeue_pos)
  | .load_seq pos =>
      let diff : ℤ := ((q.current pos).sequence : ℤ) - ((pos + 1 : ℕ) : ℤ)
      if diff = 0 then some (q, .cas pos)
      else if diff < 0 then some (q, .returned none)
      else some (q, .load_pos)
  | .cas pos =>
      if q.m_dequeue_pos = pos ∧ spurious = false then
        some ({ q with m_dequeue_pos := pos + 1 }, .copy pos)
      else some (q, .load_seq q.m_dequeue_pos)
  | .copy pos => some (q, .store pos (q.current pos).payload)
  | .store pos value => some (q.store_sequence pos (pos + q.m_mask + 1), .returned (some value))
  | .returned _ => none

/-! ## Any number of concurrent calls -/

/-- A call in flight or finished; an `enqueue` keeps its argument. -/
inductive Call (α : Type)
  | enq (value : α) (pc : EnqueuePc)
  | deq (pc : DequeuePc α)
  deriving DecidableEq

/-- The shared ring, every call ever made, and the two ticket histories. -/
structure World (α : Type) where
  queue : Queue α
  calls : List (Call α)
  enqueue_tickets : List ℕ
  dequeue_tickets : List ℕ

/-- A new call starts, or call `i` makes its next step. -/
inductive Label (α : Type)
  | enqueue (value : α)
  | dequeue
  | step (i : ℕ) (spurious : Bool)

/-- The history entry of a step: call `i` is recorded when it leaves `cas` with
a ticket. -/
def record (i : ℕ) (tickets : List ℕ) (won : Bool) : List ℕ :=
  if won then tickets ++ [i] else tickets

def enqueue_won : EnqueuePc → Bool
  | .write _ => true
  | _ => false

def dequeue_won : DequeuePc α → Bool
  | .copy _ => true
  | _ => false

def step (w : World α) : Label α → Option (World α)
  | .enqueue value => some { w with calls := w.calls ++ [.enq value .load_pos] }
  | .dequeue => some { w with calls := w.calls ++ [.deq .load_pos] }
  | .step i spurious =>
      match w.calls[i]? with
      | none => none
      | some (.enq value pc) =>
          (enqueue_step w.queue value spurious pc).map fun r =>
            { w with
              queue := r.1
              calls := w.calls.set i (.enq value r.2)
              enqueue_tickets := record i w.enqueue_tickets (enqueue_won r.2) }
      | some (.deq pc) =>
          (dequeue_step w.queue spurious pc).map fun r =>
            { w with
              queue := r.1
              calls := w.calls.set i (.deq r.2)
              dequeue_tickets := record i w.dequeue_tickets (dequeue_won r.2) }

/-- The queue of a pool built with `max_requests`, before its first call. -/
def system (α : Type) (max_requests : ℕ) : System (World α) (Label α) where
  init w := ∃ garbage, w = ⟨Queue.fresh max_requests garbage, [], [], []⟩
  step := step

end AtlasWebServer.MpmcQueue
