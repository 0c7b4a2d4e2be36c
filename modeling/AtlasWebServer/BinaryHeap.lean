/-
Binary heaps in an array, for a state that need not be an array.

A state has a size, a key at every place and a way to exchange two places; `Ops` names the
three and `Lawful` says what an exchange does to the keys. What else an exchange does -- a
table of positions it keeps in step -- is the state's own affair: a property that an exchange
preserves is preserved by the sifts (`sift_up_preserves`, `sift_down_preserves`).

The order is a property of the keys alone, a function and a size. `UpOrdered` and
`DownOrdered` are the orders with one place out of order that the two sifts repair, and
`Displaced` is the one of a place whose key was replaced: it may have to move either way, and
`settle` tries up first.
-/
import Mathlib.Logic.Equiv.Basic
import Mathlib.Order.Lattice
import Mathlib.Order.Nat
import Mathlib.Tactic.Common

set_option autoImplicit false

namespace AtlasWebServer.BinaryHeap

/-! ## The operations -/

def parent (i : ℕ) : ℕ := (i - 1) / 2

variable {i j : ℕ}

theorem parent_lt (h : 0 < i) : parent i < i := by unfold parent; omega

theorem parent_eq_iff (h : 0 < j) : parent j = i ↔ j = i * 2 + 1 ∨ j = i * 2 + 2 := by
  unfold parent
  omega

/-- What a heap is kept in. -/
structure Ops (σ κ : Type*) where
  size : σ → ℕ
  key : σ → ℕ → κ
  swap : σ → ℕ → ℕ → σ

section Sifting

variable {σ κ : Type*} [LinearOrder κ] (ops : Ops σ κ)

/-- Up from `index`, and whether anything moved. There is fuel for every place on the way. -/
def Ops.sift_up_loop : ℕ → σ → ℕ → Bool → σ × Bool
  | 0, s, _, moved => (s, moved)
  | fuel + 1, s, index, moved =>
      if index > 0 then
        if ops.key s (parent index) ≤ ops.key s index then (s, moved)
        else sift_up_loop fuel (ops.swap s (parent index) index) (parent index) true
      else (s, moved)

def Ops.sift_up (s : σ) (index : ℕ) : σ × Bool := ops.sift_up_loop index s index false

/-- The place with the smallest key among `index` and the two below it. -/
def Ops.smallest (s : σ) (index : ℕ) : ℕ :=
  let left := index * 2 + 1
  let right := left + 1
  let smallest := if left < ops.size s ∧ ops.key s left < ops.key s index then left else index
  if right < ops.size s ∧ ops.key s right < ops.key s smallest then right else smallest

def Ops.sift_down_loop : ℕ → σ → ℕ → σ
  | 0, s, _ => s
  | fuel + 1, s, index =>
      let smallest := ops.smallest s index
      if smallest = index then s
      else sift_down_loop fuel (ops.swap s index smallest) smallest

def Ops.sift_down (s : σ) (index : ℕ) : σ := ops.sift_down_loop (ops.size s) s index

def Ops.settle (s : σ) (index : ℕ) : σ :=
  match ops.sift_up s index with
  | (s, true) => s
  | (s, false) => ops.sift_down s index

/-- An exchange of two places exchanges their keys and does nothing else to them. -/
structure Ops.Lawful : Prop where
  size_swap : ∀ s i j, ops.size (ops.swap s i j) = ops.size s
  key_swap : ∀ s i j, i < ops.size s → j < ops.size s →
    ops.key (ops.swap s i j) = ops.key s ∘ Equiv.swap i j

end Sifting

/-! ## Orders with one place out of order -/

section Order

variable {κ : Type*} [LinearOrder κ] {f : ℕ → κ} {n c : ℕ}

/-- No key is smaller than the one above it. -/
def Ordered (f : ℕ → κ) (n : ℕ) : Prop := ∀ j, 0 < j → j < n → f (parent j) ≤ f j

/-- The places below `i` are in order with the one above `i`. -/
def Bridged (f : ℕ → κ) (n i : ℕ) : Prop :=
  0 < i → ∀ j, 0 < j → j < n → parent j = i → f (parent i) ≤ f j

/-- `i` may be too small for its parent. -/
structure UpOrdered (f : ℕ → κ) (n i : ℕ) : Prop where
  off : ∀ j, 0 < j → j < n → j ≠ i → f (parent j) ≤ f j
  bridged : Bridged f n i

/-- `i` may be too large for what is below it. -/
structure DownOrdered (f : ℕ → κ) (n i : ℕ) : Prop where
  off : ∀ j, 0 < j → j < n → parent j ≠ i → f (parent j) ≤ f j
  bridged : Bridged f n i

/-- `i` may be out of order either way. -/
structure Displaced (f : ℕ → κ) (n i : ℕ) : Prop where
  off : ∀ j, 0 < j → j < n → j ≠ i → parent j ≠ i → f (parent j) ≤ f j
  bridged : Bridged f n i

theorem Ordered.root_le (h : Ordered f n) : ∀ j, j < n → f 0 ≤ f j := by
  intro j
  -- by induction up the path from `j`
  induction j using Nat.strong_induction_on with
  | _ j ih =>
    intro hj
    rcases Nat.eq_zero_or_pos j with rfl | hpos
    · exact le_refl _
    · have hlt := parent_lt hpos
      exact (ih (parent j) hlt (hlt.trans hj)).trans (h j hpos hj)

theorem Ordered.mono (h : Ordered f n) {m : ℕ} (hm : m ≤ n) : Ordered f m :=
  fun j hpos hj => h j hpos (hj.trans_le hm)

theorem Ordered.bridged (h : Ordered f n) (i : ℕ) (hi : i < n) : Bridged f n i := by
  intro hpos j hj hjn hp
  calc f (parent i) ≤ f i := h i hpos hi
    _ = f (parent j) := by rw [hp]
    _ ≤ f j := h j hj hjn

variable {g : ℕ → κ}

theorem Ordered.push (h : Ordered f n) (hg : ∀ j, j < n → g j = f j) : UpOrdered g (n + 1) n := by
  constructor
  · intro j hpos hj hne
    have hlt := parent_lt hpos
    rw [hg j (by omega), hg _ (by omega)]
    exact h j hpos (by omega)
  · intro _ j hpos hj hp
    have hlt := parent_lt hpos
    omega

theorem Ordered.replace (h : Ordered f n) (hi : i < n) (hg : ∀ j, j < n → j ≠ i → g j = f j) :
    Displaced g n i := by
  constructor
  · intro j hpos hj hne hp
    have hlt := parent_lt hpos
    rw [hg j hj hne, hg _ (hlt.trans hj) hp]
    exact h j hpos hj
  intro hpos j hj hjn hp
  have hlt := parent_lt hpos
  have hlt' := parent_lt hj
  rw [hg j hjn (by omega), hg _ (hlt.trans hi) (by omega)]
  exact h.bridged i hi hpos j hj hjn hp

theorem UpOrdered.finish (h : UpOrdered f n i) (hi : 0 < i → f (parent i) ≤ f i) : Ordered f n := by
  intro j hpos hj
  by_cases hji : j = i
  · subst hji
    exact hi hpos
  · exact h.off j hpos hj hji

theorem UpOrdered.move (h : UpOrdered f n i) (hpos : 0 < i) (hi : i < n)
    (hlt : f i < f (parent i)) : UpOrdered (f ∘ Equiv.swap (parent i) i) n (parent i) := by
  have hp := parent_lt hpos
  constructor
  · intro j hj hjn hne
    have hjp := parent_lt hj
    simp only [Function.comp_apply, Equiv.swap_apply_def, hne, if_false]
    -- `j` is `i`, another place below `parent i`, a place below `i`, or none of these
    split_ifs with h1 h2 h2 h3 h4
    · exact hlt.le
    · exact hlt.le.trans (h1 ▸ h.off j hj hjn h2)
    · omega
    · exact h.bridged hpos j hj hjn h2
    · subst h4
      exact absurd rfl h1
    · exact h.off j hj hjn h4
  · intro hpp j hj hjn hpj
    have hpplt := parent_lt hpp
    have hup := h.off (parent i) hpp (hp.trans hi) hp.ne
    have hjp := parent_lt hj
    have hne : parent (parent i) ≠ parent i ∧ parent (parent i) ≠ i := by omega
    simp only [Function.comp_apply, Equiv.swap_apply_def, hne.1, hne.2, if_false]
    split_ifs with h1 h2
    · omega
    · exact hup
    · exact hup.trans (hpj ▸ h.off j hj hjn h2)

theorem DownOrdered.finish (h : DownOrdered f n i)
    (hi : ∀ j, 0 < j → j < n → parent j = i → f i ≤ f j) : Ordered f n := by
  intro j hpos hj
  by_cases hji : parent j = i
  · rw [hji]
    exact hi j hpos hj hji
  · exact h.off j hpos hj hji

theorem DownOrdered.move (h : DownOrdered f n i) (hpos : 0 < c) (hc : c < n) (hci : parent c = i)
    (hlt : f c < f i) (hmin : ∀ j, 0 < j → j < n → parent j = i → f c ≤ f j) :
    DownOrdered (f ∘ Equiv.swap i c) n c := by
  have hic : i < c := hci ▸ parent_lt hpos
  constructor
  · intro j hj hjn hne
    have hjp := parent_lt hj
    simp only [Function.comp_apply, Equiv.swap_apply_def, hne, if_false]
    -- `j` is `i`, `c`, another place below `i`, or none of these
    split_ifs with h1 h2 h3 h4 h5
    · omega
    · exact hlt.le
    · exact hmin j hj hjn h1
    · subst h4
      exact h.bridged hj c hpos hc hci
    · subst h5
      exact absurd hci h1
    · exact h.off j hj hjn h1
  · intro _ j hj hjn hpj
    have hjp := parent_lt hj
    rw [hci]
    simp only [Function.comp_apply, Equiv.swap_apply_left]
    rw [Equiv.swap_apply_of_ne_of_ne (by omega) (by omega)]
    have hoff := h.off j hj hjn (by omega)
    rwa [hpj] at hoff

theorem Displaced.down (h : Displaced f n i) (hi : 0 < i → f (parent i) ≤ f i) :
    DownOrdered f n i := by
  refine ⟨fun j hpos hj hp => ?_, h.bridged⟩
  by_cases hji : j = i
  · subst hji
    exact hi hpos
  · exact h.off j hpos hj hji hp

theorem Displaced.up (h : Displaced f n i) (hpos : 0 < i) (hlt : f i < f (parent i)) :
    UpOrdered f n i := by
  refine ⟨fun j hj hjn hne => ?_, h.bridged⟩
  by_cases hp : parent j = i
  · rw [hp]
    exact hlt.le.trans (h.bridged hpos j hj hjn hp)
  · exact h.off j hj hjn hne hp

end Order

/-! ## What the sifts do -/

section Correct

variable {σ κ : Type*} [LinearOrder κ] {ops : Ops σ κ} {s : σ}

def Ops.IsHeap (ops : Ops σ κ) (s : σ) : Prop := Ordered (ops.key s) (ops.size s)

/-- The sifts exchange places of the heap only. -/
structure Ops.Stable (ops : Ops σ κ) (P : σ → Prop) : Prop where
  swap : ∀ s i j, i < ops.size s → j < ops.size s → P s → P (ops.swap s i j)

variable {P : σ → Prop}

theorem Ops.sift_up_loop_preserves (hops : ops.Lawful) (hP : ops.Stable P) (fuel : ℕ) :
    ∀ (s : σ) (i : ℕ) (moved : Bool), i < ops.size s → P s →
      P (ops.sift_up_loop fuel s i moved).1 := by
  induction fuel with
  | zero => exact fun s i moved _ hs => hs
  | succ fuel ih =>
    intro s i moved hi hs
    rw [sift_up_loop]
    split_ifs with hpos hle
    · exact hs
    · have hp := (parent_lt hpos).trans hi
      exact ih _ _ _ (by rwa [hops.size_swap]) (hP.swap s _ _ hp hi hs)
    · exact hs

theorem Ops.smallest_cases (ops : Ops σ κ) (s : σ) (i : ℕ) :
    ops.smallest s i = i ∨
      (0 < ops.smallest s i ∧ ops.smallest s i < ops.size s ∧ parent (ops.smallest s i) = i ∧
        ops.key s (ops.smallest s i) < ops.key s i) := by
  have hl : parent (i * 2 + 1) = i := by unfold parent; omega
  have hr : parent (i * 2 + 1 + 1) = i := by unfold parent; omega
  unfold smallest
  dsimp only
  split_ifs with hleft hright hright
  · exact .inr ⟨by omega, hright.1, hr, hright.2.trans hleft.2⟩
  · exact .inr ⟨by omega, hleft.1, hl, hleft.2⟩
  · exact .inr ⟨by omega, hright.1, hr, hright.2⟩
  · exact .inl rfl

theorem Ops.smallest_le (ops : Ops σ κ) (s : σ) (i : ℕ) (hpos : 0 < j) (hj : j < ops.size s)
    (hp : parent j = i) : ops.key s (ops.smallest s i) ≤ ops.key s j := by
  unfold smallest
  dsimp only
  rcases (parent_eq_iff hpos).mp hp with rfl | rfl
  · split_ifs with hleft hright hright
    · exact hright.2.le
    · exact le_refl _
    · exact hright.2.le.trans (not_lt.mp fun h => hleft ⟨hj, h⟩)
    · exact not_lt.mp fun h => hleft ⟨hj, h⟩
  split_ifs with hleft hright hright
  · exact le_refl _
  · exact not_lt.mp fun h => hright ⟨hj, h⟩
  · exact le_refl _
  · exact not_lt.mp fun h => hright ⟨hj, h⟩

theorem Ops.sift_down_loop_preserves (hops : ops.Lawful) (hP : ops.Stable P) (fuel : ℕ) :
    ∀ (s : σ) (i : ℕ), i < ops.size s → P s → P (ops.sift_down_loop fuel s i) := by
  induction fuel with
  | zero => exact fun s i _ hs => hs
  | succ fuel ih =>
    intro s i hi hs
    rw [sift_down_loop]
    split_ifs with hstop
    · exact hs
    · obtain ⟨-, hlt, -⟩ := (ops.smallest_cases s i).resolve_left hstop
      exact ih _ _ (by rwa [hops.size_swap]) (hP.swap s _ _ hi hlt hs)

theorem Ops.sift_up_preserves (hops : ops.Lawful) (hP : ops.Stable P) (hi : i < ops.size s)
    (hs : P s) : P (ops.sift_up s i).1 :=
  sift_up_loop_preserves hops hP i s i false hi hs

omit [LinearOrder κ] in
theorem Ops.stable_size (hops : ops.Lawful) (n : ℕ) : ops.Stable fun s => ops.size s = n :=
  ⟨fun s i j _ _ hs => (hops.size_swap s i j).trans hs⟩

theorem Ops.settle_preserves (hops : ops.Lawful) (hP : ops.Stable P) (hi : i < ops.size s)
    (hs : P s) : P (ops.settle s i) := by
  have hup := sift_up_preserves hops hP hi hs
  have hsize := sift_up_preserves hops (stable_size hops _) hi rfl
  unfold settle
  generalize hpair : ops.sift_up s i = pair at hup hsize
  obtain ⟨s', moved⟩ := pair
  cases moved with
  | true => exact hup
  | false => exact sift_down_loop_preserves hops hP _ s' i (by rwa [hsize]) hup

theorem Ops.sift_up_loop_isHeap (hops : ops.Lawful) (fuel : ℕ) :
    ∀ (s : σ) (i : ℕ) (moved : Bool), i ≤ fuel → i < ops.size s →
      UpOrdered (ops.key s) (ops.size s) i → ops.IsHeap (ops.sift_up_loop fuel s i moved).1 := by
  induction fuel with
  | zero =>
    intro s i moved hfuel _ h
    exact h.finish fun hpos => absurd hpos (by omega)
  | succ fuel ih =>
    intro s i moved hfuel hi h
    rw [sift_up_loop]
    split_ifs with hpos hle
    · exact h.finish fun _ => hle
    · have hp := parent_lt hpos
      apply ih _ _ _ (by omega)
      · rw [hops.size_swap]
        exact hp.trans hi
      · rw [hops.size_swap, hops.key_swap s _ _ (hp.trans hi) hi]
        exact h.move hpos hi (not_le.mp hle)
    · exact h.finish fun hpos' => absurd hpos' hpos

/-- **`sift_up` repairs a place that may be too small.** -/
theorem Ops.sift_up_isHeap (hops : ops.Lawful) (hi : i < ops.size s)
    (h : UpOrdered (ops.key s) (ops.size s) i) : ops.IsHeap (ops.sift_up s i).1 :=
  sift_up_loop_isHeap hops i s i false le_rfl hi h

theorem Ops.sift_down_loop_isHeap (hops : ops.Lawful) (fuel : ℕ) :
    ∀ (s : σ) (i : ℕ), ops.size s ≤ i + fuel →
      i < ops.size s → DownOrdered (ops.key s) (ops.size s) i →
        ops.IsHeap (ops.sift_down_loop fuel s i) := by
  induction fuel with
  | zero =>
    intro s i hfuel hi _
    exact absurd hi (by omega)
  | succ fuel ih =>
    intro s i hfuel hi h
    rw [sift_down_loop]
    split_ifs with hstop
    · apply h.finish
      intro j hpos hj hp
      have hle := ops.smallest_le s i hpos hj hp
      rwa [hstop] at hle
    obtain ⟨hpos, hlt, hp, hkey⟩ := (ops.smallest_cases s i).resolve_left hstop
    have hbelow := parent_lt hpos
    apply ih
    · rw [hops.size_swap]
      omega
    · rwa [hops.size_swap]
    · rw [hops.size_swap, hops.key_swap s _ _ hi hlt]
      exact h.move hpos hlt hp hkey fun j hj hjn hjp => ops.smallest_le s i hj hjn hjp

/-- **`sift_down` repairs a place that may be too large.** -/
theorem Ops.sift_down_isHeap (hops : ops.Lawful) (hi : i < ops.size s)
    (h : DownOrdered (ops.key s) (ops.size s) i) : ops.IsHeap (ops.sift_down s i) :=
  sift_down_loop_isHeap hops _ s i (by omega) hi h

theorem Ops.sift_up_loop_moved (fuel : ℕ) : ∀ (s : σ) (i : ℕ),
    (ops.sift_up_loop fuel s i true).2 = true := by
  induction fuel with
  | zero => exact fun s i => rfl
  | succ fuel ih =>
    intro s i
    rw [sift_up_loop]
    split_ifs
    · rfl
    · exact ih _ _
    · rfl

theorem Ops.sift_up_still (h : 0 < i → ops.key s (parent i) ≤ ops.key s i) :
    ops.sift_up s i = (s, false) := by
  unfold sift_up
  cases i with
  | zero => rfl
  | succ i =>
    rw [sift_up_loop, if_pos (Nat.succ_pos i), if_pos (h (Nat.succ_pos i))]

theorem Ops.sift_up_moves (hpos : 0 < i) (h : ops.key s i < ops.key s (parent i)) :
    (ops.sift_up s i).2 = true := by
  unfold sift_up
  cases i with
  | zero => exact absurd hpos (lt_irrefl 0)
  | succ i =>
    rw [sift_up_loop, if_pos hpos, if_neg (not_le.mpr h)]
    exact sift_up_loop_moved _ _ _

/-- **`settle` repairs a place whose key was replaced.** -/
theorem Ops.settle_isHeap (hops : ops.Lawful) (hi : i < ops.size s)
    (h : Displaced (ops.key s) (ops.size s) i) : ops.IsHeap (ops.settle s i) := by
  unfold settle
  by_cases hle : 0 < i → ops.key s (parent i) ≤ ops.key s i
  · rw [sift_up_still hle]
    exact sift_down_isHeap hops hi (h.down hle)
  push Not at hle
  have hheap := sift_up_isHeap hops hi (h.up hle.1 hle.2)
  have hmoved := sift_up_moves hle.1 hle.2
  generalize ops.sift_up s i = pair at hheap hmoved
  obtain ⟨s', moved⟩ := pair
  subst hmoved
  exact hheap

end Correct

end AtlasWebServer.BinaryHeap
