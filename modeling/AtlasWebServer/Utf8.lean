/-
UTF-8, by the grammar of RFC 3629: which byte strings are texts, and where a text can be
cut.

The first byte of a character says how long it is (`Character.shape`), so a text is cut
into characters in one way only, and a cut leaves a text exactly if the byte behind it does
not belong to a character that has started before (`Valid.take_iff`). What takes ASCII
bytes out of a text, or off its ends, leaves a text.

Nothing here names this repository.
-/
import AtlasWebServer.Bytes
import Mathlib.Data.List.TakeWhile

set_option autoImplicit false

namespace AtlasWebServer.Utf8

open Bytes List

variable {c s t : Bytes} {a : UInt8} {p : UInt8 → Bool}

/-! ## Characters -/

def continuation (b : UInt8) : Bool := 0x80 ≤ b && b ≤ 0xBF

/-- The characters: one to four bytes, no longer than needed, no surrogates and none
above `U+10FFFF`. -/
inductive Character : Bytes → Prop
  | one {a : UInt8} (ha : a ≤ 0x7F) : Character [a]
  | two {a b : UInt8} (ha : 0xC2 ≤ a ∧ a ≤ 0xDF) (hb : continuation b = true) : Character [a, b]
  | three {a b c : UInt8} (ha : 0xE0 ≤ a ∧ a ≤ 0xEF) (hb : continuation b = true)
      (hc : continuation c = true) (hlong : a = 0xE0 → 0xA0 ≤ b)
        (hsurrogate : a = 0xED → b ≤ 0x9F) :
      Character [a, b, c]
  | four {a b c d : UInt8} (ha : 0xF0 ≤ a ∧ a ≤ 0xF4) (hb : continuation b = true)
      (hc : continuation c = true) (hd : continuation d = true) (hlong : a = 0xF0 → 0x90 ≤ b)
      (hmax : a = 0xF4 → b ≤ 0x8F) : Character [a, b, c, d]

/-- The length of the character that a byte starts. -/
def char_length (a : UInt8) : ℕ :=
  if a ≤ 0x7F then 1 else if a ≤ 0xDF then 2 else if a ≤ 0xEF then 3 else 4

/-- The first byte of a character and the others. -/
structure Shape (c : Bytes) (a : UInt8) (tail : Bytes) : Prop where
  eq : c = a :: tail
  length : c.length = char_length a
  first : a ≤ 0x7F ∨ 0xC2 ≤ a ∧ a ≤ 0xF4
  others : ∀ b ∈ tail, continuation b = true

theorem Character.shape (h : Character c) : ∃ a tail, Shape c a tail := by
  cases h with
  | @one a ha => exact ⟨a, [], rfl, by simp [char_length, ha], .inl ha, by simp⟩
  | @two a b ha hb =>
    refine ⟨a, [b], rfl, ?_, .inr ⟨ha.1, UInt8.le_trans ha.2 (by decide)⟩, by simp [hb]⟩
    simp only [char_length, length_cons, length_nil, UInt8.le_iff_toNat_le,
      UInt8.reduceToNat] at ha ⊢
    split_ifs <;> omega
  | @three a b c ha hb hc _ _ =>
    refine ⟨a, [b, c], rfl, ?_, .inr ⟨UInt8.le_trans (by decide) ha.1,
      UInt8.le_trans ha.2 (by decide)⟩, by simp [hb, hc]⟩
    simp only [char_length, length_cons, length_nil, UInt8.le_iff_toNat_le,
      UInt8.reduceToNat] at ha ⊢
    split_ifs <;> omega
  | @four a b c d ha hb hc hd _ _ =>
    refine ⟨a, [b, c, d], rfl, ?_, .inr ⟨UInt8.le_trans (by decide) ha.1, ha.2⟩,
      by simp [hb, hc, hd]⟩
    simp only [char_length, length_cons, length_nil, UInt8.le_iff_toNat_le,
      UInt8.reduceToNat] at ha ⊢
    split_ifs <;> omega

theorem Shape.not_continuation {tail : Bytes} (h : Shape c a tail) : continuation a = false := by
  have hfirst := h.first
  simp only [continuation, Bool.and_eq_false_iff, decide_eq_false_iff_not,
    UInt8.le_iff_toNat_le, UInt8.reduceToNat] at hfirst ⊢
  omega

theorem Character.eq_or_high (h : Character c) : (∃ a, c = [a] ∧ a < 0x80) ∨ ∀ b ∈ c, 0x80 ≤ b := by
  have hhigh : ∀ b, continuation b = true → 0x80 ≤ b := by
    intro b hb
    simp only [continuation, Bool.and_eq_true, decide_eq_true_eq] at hb
    exact hb.1
  cases h with
  | @one a ha =>
    refine .inl ⟨a, rfl, ?_⟩
    exact Nat.lt_succ_of_le ha
  | @two a b ha hb =>
    have hfirst : 0x80 ≤ a := UInt8.le_trans (by decide) ha.1
    exact .inr (by simp [hfirst, hhigh _ hb])
  | @three a b c ha hb hc _ _ =>
    have hfirst : 0x80 ≤ a := UInt8.le_trans (by decide) ha.1
    exact .inr (by simp [hfirst, hhigh _ hb, hhigh _ hc])
  | @four a b c d ha hb hc hd _ _ =>
    have hfirst : 0x80 ≤ a := UInt8.le_trans (by decide) ha.1
    exact .inr (by simp [hfirst, hhigh _ hb, hhigh _ hc, hhigh _ hd])

/-! ## Texts -/

/-- A text: characters, one after the other. -/
inductive Valid : Bytes → Prop
  | nil : Valid []
  | append {c s : Bytes} (hc : Character c) (hs : Valid s) : Valid (c ++ s)

theorem Character.valid (h : Character c) : Valid c := by
  rw [← append_nil c]
  exact .append h .nil

theorem valid_of_ascii (hs : ∀ a ∈ s, a < 0x80) : Valid s := by
  induction s with
  | nil => exact .nil
  | cons a s ih =>
    rw [forall_mem_cons] at hs
    have ha : a ≤ 0x7F := by
      have hlt := hs.1
      exact Nat.le_of_lt_succ hlt
    exact .append (.one ha) (ih hs.2)

theorem Valid.head (hs : Valid s) (ha : s.head? = some a) :
    ∃ c t, Character c ∧ Valid t ∧ s = c ++ t ∧ c.length = char_length a := by
  cases hs with
  | nil => cases ha
  | @append c t hc ht =>
    obtain ⟨a', tail, hshape⟩ := hc.shape
    have hsame : a' = a := by
      rw [hshape.eq] at ha
      simpa using ha
    exact ⟨c, t, hc, ht, rfl, hsame ▸ hshape.length⟩

theorem Valid.add (hs : Valid s) (ht : Valid t) : Valid (s ++ t) := by
  induction hs with
  | nil => exact ht
  | append hc hs ih =>
    rw [append_assoc]
    exact .append hc ih

theorem Valid.cancel (hc : Character c) (h : Valid (c ++ s)) : Valid s := by
  obtain ⟨a, tail, hshape⟩ := hc.shape
  have hhead : (c ++ s).head? = some a := by rw [hshape.eq]; rfl
  obtain ⟨c', t, -, ht, heq, hlength⟩ := h.head hhead
  rw [← hshape.length] at hlength
  rw [(append_inj heq hlength.symm).2]
  exact ht

theorem Valid.of_append (hs : Valid s) (h : Valid (s ++ t)) : Valid t := by
  induction hs with
  | nil => exact h
  | append hc hs ih =>
    rw [append_assoc] at h
    exact ih (h.cancel hc)

/-! ## Cuts -/

def Boundary (n : ℕ) (s : Bytes) : Prop := ∀ b, s[n]? = some b → continuation b = false

theorem Valid.take_iff (hs : Valid s) (n : ℕ) : Valid (s.take n) ↔ Boundary n s := by
  induction hs generalizing n with
  | nil => simp [Boundary, Valid.nil]
  | @append x s hc hs ih =>
    rcases Nat.lt_or_ge n x.length with hlt | hge
    · obtain ⟨a, tail, hshape⟩ := hc.shape
      have htake : (x ++ s).take n = x.take n := take_append_of_le_length hlt.le
      have hget : (x ++ s)[n]? = x[n]? := getElem?_append_left hlt
      unfold Boundary
      rw [htake, hget]
      rcases n with _ | n
      · simp [hshape.eq, hshape.not_continuation, Valid.nil]
      -- the character has begun, and its first byte says that more is to come
      have hcut : ¬ Valid (x.take (n + 1)) := by
        intro hvalid
        have hhead : (x.take (n + 1)).head? = some a := by rw [hshape.eq]; rfl
        obtain ⟨c', t, -, -, heq, hlength⟩ := hvalid.head hhead
        have hlengths := congrArg List.length heq
        rw [length_take, length_append, hlength, ← hshape.length] at hlengths
        omega
      have hget' : x[n + 1]? = tail[n]? := by rw [hshape.eq, getElem?_cons_succ]
      rw [getElem?_eq_getElem hlt] at hget'
      have hmem := mem_of_getElem? hget'.symm
      simp only [hcut, false_iff, not_forall]
      refine ⟨x[n + 1], getElem?_eq_getElem hlt, ?_⟩
      simp [hshape.others _ hmem]
    · have htake : (x ++ s).take n = x ++ s.take (n - x.length) := by
        rw [take_append, take_of_length_le hge]
      have hget : (x ++ s)[n]? = s[n - x.length]? := getElem?_append_right hge
      unfold Boundary
      rw [htake, hget]
      exact ⟨fun h => (ih _).mp (h.cancel hc), fun h => .append hc ((ih _).mpr h)⟩

theorem boundary_of_length_le {n : ℕ} (h : s.length ≤ n) : Boundary n s := by
  intro b hb
  rw [getElem?_eq_none h] at hb
  contradiction

theorem Valid.split (h : Valid (s ++ a :: t)) (ha : a < 0x80) : Valid s ∧ Valid (a :: t) := by
  have hs : Valid s := by
    have htake : (s ++ a :: t).take s.length = s := take_left
    rw [← htake, h.take_iff]
    intro b hb
    rw [getElem?_append_right (le_refl _), Nat.sub_self] at hb
    cases hb
    simp only [continuation, Bool.and_eq_false_iff, decide_eq_false_iff_not,
      UInt8.le_iff_toNat_le, UInt8.lt_iff_toNat_lt, UInt8.reduceToNat] at ha ⊢
    omega
  exact ⟨hs, hs.of_append h⟩

/-! ## Taking ASCII bytes out -/

theorem Valid.filter (hs : Valid s) (hp : ∀ b, 0x80 ≤ b → p b = true) : Valid (s.filter p) := by
  induction hs with
  | nil => exact .nil
  | @append c s hc hs ih =>
    rw [filter_append]
    rcases hc.eq_or_high with ⟨a, rfl, ha⟩ | hhigh
    · by_cases hkeep : p a = true
      · rw [filter_cons_of_pos hkeep]
        exact .append hc ih
      · rw [filter_cons_of_neg hkeep]
        exact ih
    · rw [filter_eq_self.mpr fun b hb => hp b (hhigh b hb)]
      exact .append hc ih

theorem Valid.dropWhile (hs : Valid s) (hp : ∀ b, p b = true → b < 0x80) :
    Valid (s.dropWhile p) := by
  induction hs with
  | nil => exact .nil
  | @append c s hc hs ih =>
    obtain ⟨a, tail, hshape⟩ := hc.shape
    by_cases ha : p a = true
    · rcases hc.eq_or_high with ⟨a', rfl, -⟩ | hhigh
      · obtain rfl : a' = a := (List.cons.inj hshape.eq).1
        rw [singleton_append, dropWhile_cons_of_pos ha]
        exact ih
      have hmem : a ∈ c := by
        rw [hshape.eq]
        exact mem_cons_self
      exact absurd (hp a ha) (UInt8.not_lt.mpr (hhigh a hmem))
    · rw [hshape.eq, cons_append, dropWhile_cons_of_neg ha, ← cons_append, ← hshape.eq]
      exact .append hc hs

theorem Valid.dropWhile_end (hs : Valid s) (hp : ∀ b, p b = true → b < 0x80) :
    Valid (s.reverse.dropWhile p).reverse := by
  have hsplit : (s.reverse.dropWhile p).reverse ++ (s.reverse.takeWhile p).reverse = s := by
    rw [← reverse_append, takeWhile_append_dropWhile, reverse_reverse]
  cases hend : (s.reverse.takeWhile p).reverse with
  | nil =>
    rw [hend, append_nil] at hsplit
    rw [hsplit]
    exact hs
  | cons a t =>
    have hmem : a ∈ s.reverse.takeWhile p := by
      rw [← mem_reverse, hend]
      exact mem_cons_self
    rw [hend] at hsplit
    rw [← hsplit] at hs
    exact (hs.split (hp a (mem_takeWhile_imp hmem))).1

end AtlasWebServer.Utf8
