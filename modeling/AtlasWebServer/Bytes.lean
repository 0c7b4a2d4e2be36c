/-
Byte strings: the values of `std::string` and of the buffers, as lists of bytes.

Nothing here names this repository.
-/
import Mathlib.Data.List.Basic
import Mathlib.Tactic

set_option autoImplicit false

abbrev AtlasWebServer.Bytes := List UInt8

namespace AtlasWebServer.Bytes

open List

def lit (s : String) : Bytes := s.toUTF8.data.toList

def to_string (n : ℤ) : Bytes := lit (toString n)

theorem forall_byte {P : UInt8 → Prop} (h : ∀ i : Fin 256, P (UInt8.ofFin i)) (b : UInt8) : P b :=
  h b.toFin

theorem lookup_cons_filter {α β : Type} [BEq α] [LawfulBEq α] [DecidableEq α]
    (map : List (α × β)) (key other : α) (value : β) :
    ((key, value) :: map.filter fun entry => entry.1 ≠ key).lookup other
      = ((key, value) :: map).lookup other := by
  rw [lookup_cons, lookup_cons]
  by_cases h : other = key
  · rw [beq_iff_eq.mpr h]
  induction map with
  | nil => rfl
  | cons entry map ih =>
    by_cases hentry : entry.1 = key
    · have hother : (other == entry.1) = false := by rw [hentry, beq_eq_false_iff_ne.mpr h]
      rw [filter_cons_of_neg (by simpa using hentry), lookup_cons, hother]
      exact ih
    rw [filter_cons_of_pos (by simpa using hentry), lookup_cons, lookup_cons]
    cases other == entry.1
    · exact ih
    · rfl

/-! ## Printed numbers -/

theorem lit_injective {s t : String} (h : lit s = lit t) : s = t := by
  apply String.toByteArray_inj.mp
  apply ByteArray.ext
  apply Array.toList_inj.mp
  exact h

theorem lit_ofList {cs : List Char} (h : ∀ c ∈ cs, c.val ≤ 127) :
    lit (String.ofList cs) = cs.map fun c => c.val.toUInt8 := by
  induction cs with
  | nil => rfl
  | cons c cs ih =>
    have hc : String.utf8EncodeChar c = [c.val.toUInt8] :=
      String.utf8EncodeChar_eq_singleton (Char.utf8Size_eq_one_iff.mpr (h c mem_cons_self))
    have hcs := ih fun c' hc' => h c' (mem_cons_of_mem c hc')
    unfold lit at hcs ⊢
    rw [String.toUTF8_eq_toByteArray, String.toByteArray_ofList] at hcs ⊢
    rw [utf8Encode_cons, utf8Encode_singleton, hc, ByteArray.data_append, Array.toList_append, hcs]
    rfl

theorem repr_injective {m n : ℕ} (h : m.repr = n.repr) : m = n := by
  have hdigits : Nat.toDigits 10 m = Nat.toDigits 10 n := by
    have hlists := congrArg String.toList h
    simpa [Nat.repr] using hlists
  have hvalues := congrArg (fun cs => Nat.ofDigitChars 10 cs 0) hdigits
  simpa [Nat.ofDigitChars_ten_toDigits] using hvalues

theorem digit_bounds {c : Char} (h : c.isDigit = true) :
    c.val ≤ 127 ∧ 48 ≤ c.val.toUInt8.toNat ∧ c.val.toUInt8.toNat ≤ 57 := by
  simp only [Char.isDigit, Bool.and_eq_true, decide_eq_true_eq, UInt32.le_iff_toNat_le] at h
  have hlow : 48 ≤ c.val.toNat := h.1
  have hhigh : c.val.toNat ≤ 57 := h.2
  have hbyte : c.val.toUInt8.toNat = c.val.toNat := by
    rw [UInt32.toNat_toUInt8, Nat.mod_eq_of_lt (by omega)]
  rw [hbyte, UInt32.le_iff_toNat_le]
  exact ⟨le_trans hhigh (by decide), hlow, hhigh⟩

theorem mem_repr_bounds {n : ℕ} {b : UInt8} (hb : b ∈ lit n.repr) :
    48 ≤ b.toNat ∧ b.toNat ≤ 57 := by
  have hdigit : ∀ c ∈ Nat.toDigits 10 n, c.isDigit = true :=
    fun c hc => Nat.isDigit_of_mem_toDigits (by omega) (by omega) hc
  rw [Nat.repr, lit_ofList fun c hc => (digit_bounds (hdigit c hc)).1] at hb
  obtain ⟨c, hc, rfl⟩ := mem_map.mp hb
  exact (digit_bounds (hdigit c hc)).2

theorem to_string_negSucc (n : ℕ) : to_string (.negSucc n) = 45 :: lit (n + 1).repr := by
  have hrepr : toString (Int.negSucc n) = "-" ++ (n + 1).repr := rfl
  rw [to_string, hrepr, lit, String.toUTF8_eq_toByteArray, String.toByteArray_append,
    ByteArray.data_append, Array.toList_append]
  rfl

theorem mem_to_string_bounds {n : ℤ} {b : UInt8} (hb : b ∈ to_string n) :
    45 ≤ b.toNat ∧ b.toNat ≤ 57 := by
  cases n with
  | ofNat n =>
    have hbounds := mem_repr_bounds hb
    omega
  | negSucc n =>
    rw [to_string_negSucc, mem_cons] at hb
    rcases hb with rfl | hb
    · decide
    · have hbounds := mem_repr_bounds hb
      omega

theorem length_repr_le {n k : ℕ} (hk : 0 < k) (h : n < 10 ^ k) : (lit n.repr).length ≤ k := by
  have hdigit : ∀ c ∈ Nat.toDigits 10 n, c.isDigit = true :=
    fun c hc => Nat.isDigit_of_mem_toDigits (by omega) (by omega) hc
  rw [Nat.repr, lit_ofList fun c hc => (digit_bounds (hdigit c hc)).1, length_map]
  exact (Nat.length_toDigits_le_iff (by omega) hk).mpr h

theorem length_to_string_le {n : ℤ} {k : ℕ} (hk : 0 < k) (h : n.natAbs < 10 ^ k) :
    (to_string n).length ≤ k + 1 := by
  cases n with
  | ofNat n =>
    exact le_trans (length_repr_le hk h) (Nat.le_succ k)
  | negSucc n =>
    exact Nat.succ_le_succ (length_repr_le hk h)

theorem repr_ne_minus {n : ℕ} {s : Bytes} (h : lit n.repr = 45 :: s) : False := by
  have hmem : (45 : UInt8) ∈ lit n.repr := h ▸ mem_cons_self
  exact absurd (mem_repr_bounds hmem).1 (by decide)

theorem to_string_injective {m n : ℤ} (h : to_string m = to_string n) : m = n := by
  cases m with
  | ofNat m =>
    cases n with
    | ofNat n => rw [repr_injective (lit_injective h)]
    | negSucc n =>
      exact (repr_ne_minus h).elim
  | negSucc m =>
    cases n with
    | ofNat n =>
      exact (repr_ne_minus h.symm).elim
    | negSucc n =>
      have hrepr := repr_injective (lit_injective (List.cons.inj h).2)
      rw [Nat.succ.inj hrepr]

end AtlasWebServer.Bytes
