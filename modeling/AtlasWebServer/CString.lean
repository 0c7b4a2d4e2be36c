/-
C strings and characters: what `<cstring>`, `<strings.h>`, `<cctype>` and
`<cstdlib>` do, over a memory that is a list of bytes. A pointer is a position in
the memory, and a string runs to the first NUL. The character classes are those of
the C locale.

Nothing here names this repository.
-/
import AtlasWebServer.Bytes
import Mathlib.Data.List.TakeWhile

set_option autoImplicit false

namespace AtlasWebServer.CString

open Bytes List

/-! ## Characters -/

def isalnum (ch : UInt8) : Bool :=
  (48 ≤ ch && ch ≤ 57) || (65 ≤ ch && ch ≤ 90) || (97 ≤ ch && ch ≤ 122)

def isspace (ch : UInt8) : Bool := ch = 32 || (9 ≤ ch && ch ≤ 13)

def isdigit (ch : UInt8) : Bool := 48 ≤ ch && ch ≤ 57

def isxdigit (ch : UInt8) : Bool :=
  isdigit ch || (65 ≤ ch && ch ≤ 70) || (97 ≤ ch && ch ≤ 102)

def tolower (ch : UInt8) : UInt8 := if 65 ≤ ch && ch ≤ 90 then ch + 32 else ch

def lowercase (s : Bytes) : Bytes := s.map tolower

/-! ## Strings in memory -/

def cstr (mem : Bytes) (p : ℕ) : Bytes := (mem.drop p).takeWhile (· ≠ 0)

/-- `strpbrk`: the first character of the string that is one of `accept`. -/
def strpbrk (mem : Bytes) (p : ℕ) (accept : Bytes) : Option ℕ :=
  let n := ((cstr mem p).takeWhile (· ∉ accept)).length
  if n < (cstr mem p).length then some (p + n) else none

/-- `strchr` of a character that is not NUL. -/
def strchr (mem : Bytes) (p : ℕ) (ch : UInt8) : Option ℕ := strpbrk mem p [ch]

def strspn (mem : Bytes) (p : ℕ) (accept : Bytes) : ℕ :=
  ((cstr mem p).takeWhile (· ∈ accept)).length

def poke (mem : Bytes) (p : ℕ) : Bytes → Bytes
  | [] => mem
  | b :: bs => poke (mem.set p b) (p + 1) bs

def strcat (mem : Bytes) (p : ℕ) (s : Bytes) : Bytes :=
  poke mem (p + (cstr mem p).length) (s ++ [0])

/-! ## Comparing and reading numbers -/

def strcasecmp (s t : Bytes) : Bool := lowercase s = lowercase t

/-- `strncasecmp(s, t, n) == 0` with `n` the length of `t`. -/
def strncasecmp (s t : Bytes) : Bool := lowercase (s.take t.length) = lowercase t

def LONG_MAX : ℤ := 2 ^ 63 - 1

/-- The sum of two `long`s, as the machine forms it. -/
def long_add (a b : ℤ) : ℤ := Int.bmod (a + b) (2 ^ 64)

def decimal (digits : Bytes) : ℕ := digits.foldl (fun n d => n * 10 + (d.toNat - 48)) 0

/-- `atol`: it stops at the first byte that is no digit, and saturates. -/
def atol (s : Bytes) : ℤ :=
  let s := s.dropWhile isspace
  match s with
  | 45 :: s => max (-(decimal (s.takeWhile isdigit) : ℤ)) (-LONG_MAX - 1)
  | 43 :: s => min (decimal (s.takeWhile isdigit) : ℤ) LONG_MAX
  | s => min (decimal (s.takeWhile isdigit) : ℤ) LONG_MAX

/-- The digits `strtol` reads after the sign: the value, which saturates, and the rest. -/
def read_digits (negative : Bool) (s : Bytes) : Option (ℤ × Bytes) :=
  let digits := s.takeWhile isdigit
  if digits = [] then none
  else
    some (if negative then max (-(decimal digits : ℤ)) (-LONG_MAX - 1)
      else min (decimal digits : ℤ) LONG_MAX, s.dropWhile isdigit)

/-- `strtol(s, &endptr, 10)`: the value and what `endptr` points at, and nothing when
`endptr` is `s`. -/
def strtol (s : Bytes) : Option (ℤ × Bytes) :=
  match s.dropWhile isspace with
  | 45 :: s => read_digits true s
  | 43 :: s => read_digits false s
  | s => read_digits false s

def strstr (s needle : Bytes) : Bool := needle <:+: s

def hex_digit (ch : UInt8) : ℕ :=
  if isdigit ch then ch.toNat - 48 else (tolower ch).toNat - 87

def hexadecimal (digits : Bytes) : ℕ := digits.foldl (fun n d => n * 16 + hex_digit d) 0

/-! ## Reading after writing -/

section Lemmas

variable {mem : Bytes} {p q i : ℕ}

theorem cstr_add (h : i ≤ (cstr mem p).length) : cstr mem (p + i) = (cstr mem p).drop i := by
  unfold cstr at h ⊢
  rw [← drop_drop]
  generalize mem.drop p = s at h ⊢
  induction s generalizing i with
  | nil => simp
  | cons b s ih =>
    cases i with
    | zero => rfl
    | succ i =>
      by_cases hb : b = 0
      · -- the string is empty, so there is no room for the pointer
        rw [takeWhile_cons_of_neg (by simpa using hb)] at h
        simp at h
      · rw [takeWhile_cons_of_pos (by simpa using hb)] at h ⊢
        exact ih (by simpa using h)

theorem cstr_length_le : (cstr mem p).length ≤ mem.length - p := by
  refine le_trans (IsPrefix.length_le <| takeWhile_prefix _) ?_
  rw [length_drop]

theorem cstr_eq {text rest : Bytes} (htext : ∀ b ∈ text, b ≠ 0)
    (hmem : mem.drop p = text ++ 0 :: rest) : cstr mem p = text := by
  unfold cstr
  rw [hmem, takeWhile_append_of_pos (by simpa using htext),
    takeWhile_cons_of_neg (by simp), append_nil]

theorem cstr_set_before (b : UInt8) (h : q < p) : cstr (mem.set q b) p = cstr mem p := by
  unfold cstr
  rw [drop_set, if_pos h]

theorem cstr_set_within (h : i < (cstr mem p).length) :
    cstr (mem.set (p + i) 0) p = (cstr mem p).take i := by
  unfold cstr at h ⊢
  rw [drop_set, if_neg (by omega), Nat.add_sub_cancel_left]
  generalize mem.drop p = s at h ⊢
  induction s generalizing i with
  | nil => simp at h
  | cons b s ih =>
    by_cases hb : b = 0
    · rw [takeWhile_cons_of_neg (by simpa using hb)] at h
      simp at h
    rw [takeWhile_cons_of_pos (by simpa using hb)] at h ⊢
    cases i with
    | zero => simp
    | succ i =>
      rw [set_cons_succ, takeWhile_cons_of_pos (by simpa using hb),
        take_succ_cons, ih (by simpa using h)]

@[simp] theorem poke_length (mem : Bytes) (p : ℕ) (bs : Bytes) :
    (poke mem p bs).length = mem.length := by
  induction bs generalizing mem p with
  | nil => rfl
  | cons b bs ih => rw [poke, ih, length_set]

theorem poke_outside (bs : Bytes) (h : i < p ∨ p + bs.length ≤ i) :
    (poke mem p bs)[i]? = mem[i]? := by
  induction bs generalizing mem p with
  | nil => rfl
  | cons b bs ih =>
    rw [length_cons] at h
    rw [poke, ih (by omega), getElem?_set_ne (by omega)]

theorem drop_poke (bs : Bytes) (h : p + bs.length ≤ mem.length) :
    (poke mem p bs).drop p = bs ++ mem.drop (p + bs.length) := by
  induction bs generalizing mem p with
  | nil => rfl
  | cons b bs ih =>
    rw [List.length_cons] at h
    have hrest : (poke (mem.set p b) (p + 1) bs).drop (p + 1)
        = bs ++ (mem.set p b).drop (p + 1 + bs.length) := ih (by rw [List.length_set]; omega)
    have hhead : (poke (mem.set p b) (p + 1) bs)[p]? = some b := by
      rw [poke_outside bs (by omega), List.getElem?_set_self (by omega)]
    obtain ⟨hp, hget⟩ := List.getElem?_eq_some_iff.mp hhead
    rw [poke, List.drop_eq_getElem_cons hp, hget, hrest, List.drop_set, if_pos (by omega)]
    rw [List.length_cons, List.cons_append, Nat.add_assoc, Nat.add_comm 1]

end Lemmas

/-! ## Trimming -/

theorem strip_of_ends {p : UInt8 → Bool} {a b : UInt8} (ha : p a = false) (hb : p b = false)
    (s : Bytes) :
    (((a :: (s ++ [b])).dropWhile p).reverse.dropWhile p).reverse = a :: (s ++ [b]) := by
  rw [dropWhile_cons_of_neg (by simp [ha]), ← cons_append, reverse_append,
    reverse_singleton, singleton_append, dropWhile_cons_of_neg (by simp [hb]),
    reverse_cons, reverse_reverse]

/-! ## Numerals -/

theorem read_digits_spec {negative : Bool} {s rest : Bytes} {n : ℤ}
    (h : read_digits negative s = some (n, rest)) :
    ∃ digit digits, s = (digit :: digits) ++ rest ∧ isdigit digit = true ∧
      read_digits negative (digit :: digits) = some (n, []) := by
  unfold read_digits at h
  by_cases hnone : s.takeWhile isdigit = []
  · rw [if_pos hnone] at h
    contradiction
  obtain ⟨digit, digits, hdigits⟩ := exists_cons_of_ne_nil hnone
  have hall : ∀ b ∈ digit :: digits, isdigit b = true := by
    intro b hb
    rw [← hdigits] at hb
    exact mem_takeWhile_imp hb
  have hsame : (digit :: digits).takeWhile isdigit = digit :: digits :=
    takeWhile_eq_self_iff.mpr hall
  have hnil : (digit :: digits).dropWhile isdigit = [] := dropWhile_eq_nil_iff.mpr hall
  rw [hdigits] at h
  obtain ⟨hvalue, hrest⟩ := Prod.mk.inj (Option.some.inj h)
  refine ⟨digit, digits, ?_, hall digit mem_cons_self, ?_⟩
  · rw [← hdigits, ← hrest, takeWhile_append_dropWhile]
  · unfold read_digits
    rw [hsame, hnil]
    rw [if_neg (cons_ne_nil _ _), hvalue]

theorem strtol_blanks (s t : Bytes) (hs : ∀ b ∈ s, isspace b = true) :
    strtol (s ++ t) = strtol t := by
  unfold strtol
  rw [dropWhile_append_of_pos hs]

theorem strtol_numeral {s rest : Bytes} {n : ℤ} (h : strtol s = some (n, rest)) :
    ∃ numeral, s = numeral ++ rest ∧ strtol numeral = some (n, []) := by
  have hblanks : ∀ b ∈ s.takeWhile isspace, isspace b = true := fun b hb => mem_takeWhile_imp hb
  suffices hmain : ∃ t, s.dropWhile isspace = t ++ rest ∧ strtol t = some (n, []) by
    obtain ⟨t, ht, hvalue⟩ := hmain
    refine ⟨s.takeWhile isspace ++ t, ?_, ?_⟩
    · rw [append_assoc, ← ht, takeWhile_append_dropWhile]
    · rw [strtol_blanks _ _ hblanks, hvalue]
  unfold strtol at h
  split at h
  · rename_i t ht
    obtain ⟨digit, digits, hsplit, hdigit, hvalue⟩ := read_digits_spec h
    refine ⟨45 :: digit :: digits, by rw [ht, hsplit]; rfl, hvalue⟩
  · rename_i t ht
    obtain ⟨digit, digits, hsplit, hdigit, hvalue⟩ := read_digits_spec h
    refine ⟨43 :: digit :: digits, by rw [ht, hsplit]; rfl, hvalue⟩
  · rename_i t hminus hplus
    obtain ⟨digit, digits, hsplit, hdigit, hvalue⟩ := read_digits_spec h
    refine ⟨digit :: digits, hsplit, ?_⟩
    -- a digit is neither a blank nor a sign
    have hplain : ∀ b, isdigit b = true → ¬ isspace b = true ∧ b ≠ 45 ∧ b ≠ 43 := by
      apply forall_byte
      decide +kernel
    obtain ⟨hspace, hsign⟩ := hplain digit hdigit
    unfold strtol
    rw [dropWhile_cons_of_neg hspace]
    split
    · rename_i heq
      exact absurd (List.cons.inj heq).1 hsign.1
    · rename_i heq
      exact absurd (List.cons.inj heq).1 hsign.2
    · exact hvalue

end AtlasWebServer.CString
