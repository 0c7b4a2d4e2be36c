/-
File names of uploads: `sanitize_filename` and `file_extension`
(`http/files/file_helpers.cpp`), `duplicate_filename_candidate`
(`service/files/file_service.cpp`).

`isalnum` and `isspace` are those of the C locale. Sizes are `size_t`: the one
subtraction that can go below zero wraps as it does there.
-/
import AtlasWebServer.CString

set_option autoImplicit false

namespace AtlasWebServer.FileNames

open Bytes CString List

/-- `find_last_of`: the last position whose byte is one of the wanted ones. -/
def find_last_of (wanted : UInt8 → Bool) : Bytes → Option ℕ
  | [] => none
  | ch :: value =>
      match find_last_of wanted value with
      | some i => some (i + 1)
      | none => if wanted ch then some 0 else none

/-- The ASCII bytes `sanitize_filename` keeps. -/
def keeps (ch : UInt8) : Bool :=
  isalnum ch || ch = 46 || ch = 95 || ch = 45 || ch = 40 || ch = 41 || ch = 91 || ch = 93

/-- The byte loop of `sanitize_filename`; `value.size()` passes are enough. -/
def sanitize_filename_loop : ℕ → Bytes → Bytes → Bool → Bytes
  | 0, _, cleaned, _ => cleaned
  | _, [], cleaned, _ => cleaned
  | fuel + 1, ch :: value, cleaned, previous_space =>
      if ch < 0x80 then
        if keeps ch then sanitize_filename_loop fuel value (cleaned ++ [ch]) false
        else if isspace ch ∧ cleaned ≠ [] ∧ previous_space = false then
          sanitize_filename_loop fuel value (cleaned ++ [32]) true
        else sanitize_filename_loop fuel value cleaned previous_space
      else if ch &&& 0xE0 = 0xC0 ∧ 1 ≤ value.length then
        sanitize_filename_loop fuel (value.drop 1) (cleaned ++ ch :: value.take 1) false
      else if ch &&& 0xF0 = 0xE0 ∧ 2 ≤ value.length then
        sanitize_filename_loop fuel (value.drop 2) (cleaned ++ ch :: value.take 2) false
      else if ch &&& 0xF8 = 0xF0 ∧ 3 ≤ value.length then
        sanitize_filename_loop fuel (value.drop 3) (cleaned ++ ch :: value.take 3) false
      else sanitize_filename_loop fuel value cleaned previous_space

/-- `while (!cleaned.empty() && cleaned.back() == ' ') cleaned.pop_back()`. -/
def pop_spaces (cleaned : Bytes) : Bytes := (cleaned.reverse.dropWhile (· = 32)).reverse

def sanitize_filename (value : Bytes) : Bytes :=
  let cleaned := pop_spaces (sanitize_filename_loop value.length value [] false)
  let cleaned :=
    if cleaned = [] ∨ cleaned = lit "." ∨ cleaned = lit ".." then lit "file.txt" else cleaned
  cleaned.take 80

def file_extension (value : Bytes) : Bytes :=
  let slash := find_last_of (fun ch => ch = 47 || ch = 92) value
  let dot := find_last_of (fun ch => ch = 46) value
  match dot with
  | none => []
  | some dot =>
      match slash with
      | some slash => if dot < slash + 1 then [] else value.drop dot
      | none => value.drop dot

theorem find_last_of_none {wanted : UInt8 → Bool} {value : Bytes}
    (h : find_last_of wanted value = none) : ∀ b ∈ value, wanted b = false := by
  induction value with
  | nil => simp
  | cons ch value ih =>
    rw [find_last_of] at h
    cases hlast : find_last_of wanted value with
    | some i => simp [hlast] at h
    | none =>
      simp only [hlast, ite_eq_right_iff, reduceCtorEq, imp_false, Bool.not_eq_true] at h
      exact forall_mem_cons.mpr ⟨h, ih hlast⟩

theorem find_last_of_some {wanted : UInt8 → Bool} {value : Bytes} {i : ℕ}
    (h : find_last_of wanted value = some i) :
    ∃ before ch after, value = before ++ ch :: after ∧ before.length = i ∧ wanted ch = true ∧
      ∀ b ∈ after, wanted b = false := by
  induction value generalizing i with
  | nil => contradiction
  | cons ch value ih =>
    rw [find_last_of] at h
    cases hlast : find_last_of wanted value with
    | some j =>
      rw [hlast] at h
      obtain ⟨before, c, after, rfl, hlength, hc, hafter⟩ := ih hlast
      refine ⟨ch :: before, c, after, rfl, ?_, hc, hafter⟩
      rw [← Option.some.inj h, length_cons, hlength]
    | none =>
      simp only [hlast, Option.ite_none_right_eq_some] at h
      exact ⟨[], ch, value, rfl, Option.some.inj h.2, h.1, find_last_of_none hlast⟩

theorem file_extension_spec (value : Bytes) :
    file_extension value = [] ∨
      ∃ stem rest, value = stem ++ 46 :: rest ∧ file_extension value = 46 :: rest ∧
        ∀ b ∈ rest, b ≠ 46 ∧ b ≠ 47 ∧ b ≠ 92 := by
  unfold file_extension
  cases hdot : find_last_of (fun ch => decide (ch = 46)) value with
  | none => exact .inl rfl
  | some dot =>
    obtain ⟨stem, ch, rest, hvalue, hlength, hch, hrest⟩ := find_last_of_some hdot
    obtain rfl : ch = 46 := of_decide_eq_true hch
    have hdrop : value.drop dot = 46 :: rest := by
      rw [hvalue, ← hlength, drop_left]
    cases hslash : find_last_of (fun ch => decide (ch = 47) || decide (ch = 92)) value with
    | none =>
      have hnone := find_last_of_none hslash
      refine .inr ⟨stem, rest, hvalue, hdrop, fun b hb => ?_⟩
      have hb' := hnone b (by rw [hvalue]; simp [hb])
      simp only [Bool.or_eq_false_iff, decide_eq_false_iff_not] at hb'
      exact ⟨of_decide_eq_false (hrest b hb), hb'.1, hb'.2⟩
    | some slash =>
      dsimp only
      by_cases hlt : dot < slash + 1
      · exact .inl (if_pos hlt)
      rw [if_neg hlt]
      refine .inr ⟨stem, rest, hvalue, hdrop, fun b hb => ?_⟩
      -- the last separator is before the dot, so there is none behind it
      obtain ⟨before, c, after, hvalue', hlength', -, hafter⟩ := find_last_of_some hslash
      have hmem : b ∈ after := by
        have hdrops := congrArg (List.drop (slash + 1)) (hvalue.symm.trans hvalue')
        rw [← hlength', drop_length_add_append, drop_succ_cons, drop_zero,
          hlength', drop_append_of_le_length (by omega)] at hdrops
        rw [← hdrops]
        simp [hb]
      have hb' := hafter b hmem
      simp only [Bool.or_eq_false_iff, decide_eq_false_iff_not] at hb'
      exact ⟨of_decide_eq_false (hrest b hb), hb'.1, hb'.2⟩

theorem file_extension_suffix (value : Bytes) : file_extension value <:+ value := by
  rcases file_extension_spec value with hnone | ⟨stem, rest, hvalue, hext, -⟩
  · rw [hnone]
    exact nil_suffix
  · exact ⟨stem, by rw [hext, ← hvalue]⟩

def kFilenameMaxLength : ℕ := 80

def duplicate_filename_candidate (name : Bytes) (index : ℕ) : Bytes :=
  if index = 0 then name
  else
    let ext := file_extension name
    let stem := name.take (name.length - ext.length)
    let suffix := lit " (" ++ to_string index ++ lit ")"
    if stem.length + suffix.length + ext.length > kFilenameMaxLength then
      let max_stem :=
        (((kFilenameMaxLength : ℤ) - suffix.length - ext.length) % 2 ^ 64).toNat
      stem.take max_stem ++ suffix ++ ext
    else stem ++ suffix ++ ext

def name_stem (name : Bytes) : Bytes := name.take (name.length - (file_extension name).length)

/-- What stands between the stem and the extension. -/
def candidate_suffix (index : ℕ) : Bytes := lit " (" ++ to_string index ++ lit ")"

/-- The candidate would be too long, so its stem is cut. -/
def CutsStem (name : Bytes) (index : ℕ) : Prop :=
  (name_stem name).length + (candidate_suffix index).length + (file_extension name).length >
    kFilenameMaxLength

def max_stem (name : Bytes) (index : ℕ) : ℕ :=
  (((kFilenameMaxLength : ℤ) - (candidate_suffix index).length - (file_extension name).length) %
    2 ^ 64).toNat

instance (name : Bytes) (index : ℕ) : Decidable (CutsStem name index) :=
  inferInstanceAs (Decidable (_ > _))

theorem duplicate_filename_candidate_eq {name : Bytes} {index : ℕ} (hindex : 0 < index) :
    duplicate_filename_candidate name index =
      (if CutsStem name index then (name_stem name).take (max_stem name index)
        else name_stem name) ++ (candidate_suffix index ++ file_extension name) := by
  rw [duplicate_filename_candidate, if_neg (by omega)]
  change (if CutsStem name index then (name_stem name).take (max_stem name index) ++
    candidate_suffix index ++ file_extension name
    else name_stem name ++ candidate_suffix index ++ file_extension name) = _
  split_ifs <;> rw [append_assoc]

theorem name_stem_append (name : Bytes) : name_stem name ++ file_extension name = name := by
  obtain ⟨stem, hstem⟩ := file_extension_suffix name
  have hlength := congrArg List.length hstem
  rw [length_append] at hlength
  have htake : name_stem name = stem := by
    rw [name_stem, ← hlength, Nat.add_sub_cancel]
    conv_lhs => rw [← hstem]
    exact take_left
  rw [htake, hstem]

theorem length_candidate_suffix {index : ℕ} (hindex : index ≤ 1000) :
    (candidate_suffix index).length ≤ 7 := by
  have hdigits : (to_string index).length ≤ 4 := by
    exact length_repr_le (by decide) (by omega)
  have hopen : (lit " (").length = 2 := by decide
  have hclose : (lit ")").length = 1 := by decide
  simp only [candidate_suffix, length_append]
  omega

example : sanitize_filename (lit "  a  b/../c.txt ") = lit "a b..c.txt" := by decide

example : duplicate_filename_candidate (lit "a.tar.gz") 2 = lit "a.tar (2).gz" := by decide

end AtlasWebServer.FileNames
