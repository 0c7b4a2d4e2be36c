/-
A ring buffer over an array: a head, a tail and a size. Writing copies at most two
stretches, up to the end of the array and from its start; so does reading.

`contents` is what the ring holds, oldest first, and every operation is described
by what it does to the contents. The array is a function, so that slots outside the
contents keep whatever they held.
-/
import Mathlib.Data.List.GetD
import Mathlib.Data.Nat.ModEq

set_option autoImplicit false

namespace AtlasWebServer.RingBuffer

open List

variable {α : Type}

/-- A ring. The tail is where the next element goes. -/
structure RingBuf (α : Type) where
  buffer : ℕ → α
  capacity : ℕ
  head : ℕ
  tail : ℕ
  size : ℕ
  size_le : size ≤ capacity
  head_lt : 0 < capacity → head < capacity
  tail_eq : tail = (head + size) % capacity

def blit (buffer : ℕ → α) (start : ℕ) (xs : List α) : ℕ → α :=
  fun i => if start ≤ i then xs.getD (i - start) (buffer i) else buffer i

def slice (buffer : ℕ → α) (start len : ℕ) : List α :=
  (List.range len).map fun i => buffer (start + i)

namespace RingBuf

def contents (r : RingBuf α) : List α :=
  (List.range r.size).map fun k => r.buffer ((r.head + k) % r.capacity)

def writable (r : RingBuf α) : ℕ := r.capacity - r.size

def reset (r : RingBuf α) : RingBuf α :=
  { r with
    head := 0
    tail := 0
    size := 0
    size_le := Nat.zero_le _
    head_lt := id
    tail_eq := (Nat.zero_mod _).symm }

/-- Appends a list, in two copies if it wraps; a list that does not fit is refused. -/
def append (r : RingBuf α) (xs : List α) : RingBuf α :=
  if h : xs.length ≤ r.writable then
    let first := min (r.capacity - r.tail) xs.length
    { r with
      buffer := blit (blit r.buffer r.tail (xs.take first)) 0 (xs.drop first)
      tail := (r.tail + xs.length) % r.capacity
      size := r.size + xs.length
      size_le := by
        have := r.size_le
        unfold writable at h
        omega
      tail_eq := by rw [r.tail_eq, Nat.mod_add_mod, Nat.add_assoc] }
  else r

/-- The first `len` elements, in two copies if they wrap. -/
def peek (r : RingBuf α) (len : ℕ) : List α :=
  let len := min len r.size
  let first := min (r.capacity - r.head) len
  slice r.buffer r.head first ++ slice r.buffer 0 (len - first)

/-- The elements up to the end of the array: what can be read without a copy. -/
def front (r : RingBuf α) : List α := slice r.buffer r.head (min (r.capacity - r.head) r.size)

/-- Takes elements off the front. A ring that becomes empty starts over. -/
def advance (r : RingBuf α) (n : ℕ) : RingBuf α :=
  if h : n < r.size then
    { r with
      head := (r.head + n) % r.capacity
      size := r.size - n
      size_le := Nat.le_trans (Nat.sub_le _ _) r.size_le
      head_lt := fun hpos => Nat.mod_lt _ hpos
      tail_eq := by
        rw [r.tail_eq, Nat.mod_add_mod]
        congr 1
        omega }
  else r.reset

def ofList (fill : α) (xs : List α) (capacity : ℕ) (h : xs.length < capacity) : RingBuf α where
  buffer := blit (fun _ => fill) 0 xs
  capacity := capacity
  head := 0
  tail := xs.length
  size := xs.length
  size_le := Nat.le_of_lt h
  head_lt := id
  tail_eq := by rw [Nat.zero_add, Nat.mod_eq_of_lt h]

/-! ## What the operations do to the contents -/

@[simp] theorem length_contents (r : RingBuf α) : r.contents.length = r.size := by
  unfold contents
  rw [length_map, length_range]

@[simp] theorem contents_reset (r : RingBuf α) : r.reset.contents = [] := rfl

theorem getElem_contents (r : RingBuf α) (k : ℕ) (h : k < r.contents.length) :
    r.contents[k] = r.buffer ((r.head + k) % r.capacity) := by
  simp only [contents, getElem_map, getElem_range]

theorem wrap_of_le {a n : ℕ} (h : n ≤ a) (h' : a < 2 * n) : a % n = a - n := by
  rw [Nat.mod_eq_sub_mod h, Nat.mod_eq_of_lt (by omega)]

theorem blit_below (buffer : ℕ → α) (xs : List α) {start i : ℕ} (h : i < start) :
    blit buffer start xs i = buffer i :=
  if_neg (by omega)

theorem blit_above (buffer : ℕ → α) (xs : List α) {start i : ℕ} (h : start + xs.length ≤ i) :
    blit buffer start xs i = buffer i := by
  unfold blit
  rw [if_pos (by omega), getD_eq_default _ _ (by omega)]

theorem blit_inside (buffer : ℕ → α) (xs : List α) (start k : ℕ) (h : k < xs.length) :
    blit buffer start xs (start + k) = xs[k] := by
  unfold blit
  rw [if_pos (by omega), Nat.add_sub_cancel_left, getD_eq_getElem _ _ h]

theorem buffer_append_old (r : RingBuf α) (xs : List α) (h : xs.length ≤ r.writable) {k : ℕ}
    (hk : k < r.size) :
    (r.append xs).buffer ((r.head + k) % r.capacity) = r.buffer ((r.head + k) % r.capacity) := by
  have hsize := r.size_le
  have hhead := r.head_lt (by omega)
  have htail := r.tail_eq
  have hroom := h
  unfold writable at hroom
  unfold append
  rw [dif_pos h]
  dsimp only
  -- whether the contents wrap decides where the copies go
  by_cases hq : r.head + r.size < r.capacity
  · rw [Nat.mod_eq_of_lt hq] at htail
    rw [Nat.mod_eq_of_lt (by omega : r.head + k < r.capacity)]
    rw [blit_above _ _ (by rw [length_drop]; omega), blit_below _ _ (by omega)]
  rw [wrap_of_le (by omega) (by omega)] at htail
  rw [blit_above _ _ (by rw [length_drop]; omega)]
  by_cases hk' : r.head + k < r.capacity
  · rw [Nat.mod_eq_of_lt hk', blit_above _ _ (by rw [length_take]; omega)]
  · rw [wrap_of_le (by omega) (by omega), blit_below _ _ (by omega)]

theorem buffer_append_new (r : RingBuf α) (xs : List α) (h : xs.length ≤ r.writable) {m : ℕ}
    (hm : m < xs.length) :
    (r.append xs).buffer ((r.head + (r.size + m)) % r.capacity) = xs[m] := by
  have htail := r.tail_eq
  have hroom := h
  unfold writable at hroom
  have hhead := r.head_lt (by omega)
  unfold append
  rw [dif_pos h]
  dsimp only
  by_cases hq : r.head + r.size < r.capacity
  · rw [Nat.mod_eq_of_lt hq] at htail
    by_cases hm' : r.head + (r.size + m) < r.capacity
    · -- the first copy
      rw [Nat.mod_eq_of_lt hm', blit_above _ _ (by rw [length_drop]; omega)]
      have hpos : r.head + (r.size + m) = r.tail + m := by omega
      rw [hpos, blit_inside _ _ _ _ (by rw [length_take]; omega), getElem_take]
    -- the second copy
    rw [wrap_of_le (by omega) (by omega)]
    have hfirst : min (r.capacity - r.tail) xs.length = r.capacity - r.tail := by omega
    have hpos : r.head + (r.size + m) - r.capacity = 0 + (m - (r.capacity - r.tail)) := by omega
    rw [hfirst, hpos, blit_inside _ _ _ _ (by rw [length_drop]; omega), getElem_drop]
    congr 1
    omega
  · rw [wrap_of_le (by omega) (by omega)] at htail
    have hpos : (r.head + (r.size + m)) % r.capacity = r.tail + m := by
      rw [wrap_of_le (by omega) (by omega)]
      omega
    rw [hpos, blit_above _ _ (by rw [length_drop]; omega),
      blit_inside _ _ _ _ (by rw [length_take]; omega), getElem_take]

@[simp] theorem capacity_append (r : RingBuf α) (xs : List α) :
    (r.append xs).capacity = r.capacity := by
  unfold append
  split <;> rfl

@[simp] theorem head_append (r : RingBuf α) (xs : List α) : (r.append xs).head = r.head := by
  unfold append
  split <;> rfl

theorem size_append (r : RingBuf α) {xs : List α} (h : xs.length ≤ r.writable) :
    (r.append xs).size = r.size + xs.length := by
  unfold append
  rw [dif_pos h]

theorem contents_append (r : RingBuf α) {xs : List α} (h : xs.length ≤ r.writable) :
    (r.append xs).contents = r.contents ++ xs := by
  refine ext_getElem ?_ fun k hk hk' => ?_
  · rw [length_contents, size_append r h, length_append, length_contents]
  rw [getElem_contents, head_append, capacity_append]
  rw [length_contents, size_append r h] at hk
  by_cases hold : k < r.size
  · rw [getElem_append_left (by rw [length_contents]; exact hold), getElem_contents,
      buffer_append_old r xs h hold]
  rw [getElem_append_right (by rw [length_contents]; omega)]
  obtain ⟨m, rfl⟩ : ∃ m, k = r.size + m := ⟨k - r.size, by omega⟩
  rw [buffer_append_new r xs h (by omega)]
  congr 1
  rw [length_contents]
  omega

theorem peek_eq (r : RingBuf α) (len : ℕ) : r.peek len = r.contents.take len := by
  unfold peek
  have hsize := r.size_le
  refine ext_getElem ?_ fun k hk hk' => ?_
  · simp only [slice, length_append, length_map, length_range, length_take, length_contents]
    omega
  rw [length_take, length_contents] at hk'
  have hhead := r.head_lt (by omega)
  rw [getElem_take, getElem_contents]
  by_cases hfirst : r.head + k < r.capacity
  · rw [getElem_append_left (by
      simp only [slice, length_map, length_range]; omega)]
    simp only [slice, getElem_map, getElem_range]
    rw [Nat.mod_eq_of_lt hfirst]
  rw [getElem_append_right (by
    simp only [slice, length_map, length_range]; omega)]
  simp only [slice, getElem_map, getElem_range, length_map, length_range]
  rw [wrap_of_le (by omega) (by omega)]
  congr 1
  omega

theorem front_eq (r : RingBuf α) :
    r.front = r.contents.take (min (r.capacity - r.head) r.size) := by
  rw [← peek_eq]
  unfold peek front
  simp only [slice, Nat.min_assoc, Nat.min_self]
  simp

theorem length_front (r : RingBuf α) : r.front.length = min (r.capacity - r.head) r.size := by
  simp only [front, slice, length_map, length_range]

theorem contents_advance (r : RingBuf α) {n : ℕ} (h : n ≤ r.size) :
    (r.advance n).contents = r.contents.drop n := by
  unfold advance
  by_cases hn : n < r.size
  · rw [dif_pos hn]
    refine ext_getElem ?_ fun k hk hk' => ?_
    · rw [length_contents, length_drop, length_contents]
    · rw [getElem_contents, getElem_drop, getElem_contents]
      simp only [Nat.mod_add_mod, Nat.add_assoc]
  · rw [dif_neg hn, contents_reset, drop_eq_nil_of_le]
    rw [length_contents]
    omega

@[simp] theorem contents_ofList (fill : α) (xs : List α) (capacity : ℕ)
    (h : xs.length < capacity) : (ofList fill xs capacity h).contents = xs := by
  refine ext_getElem (by rw [length_contents]; rfl) fun k hk hk' => ?_
  rw [getElem_contents]
  show blit (fun _ => fill) 0 xs ((0 + k) % capacity) = xs[k]
  rw [Nat.mod_eq_of_lt (by omega), blit_inside _ _ _ _ hk']

end RingBuf

end AtlasWebServer.RingBuffer
