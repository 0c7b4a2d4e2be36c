/-
The names `ensure_unique_owned_filename` tries.

A candidate is the stem, a number in parentheses and the extension. The number can be
read off its end, so no two numbers give the same candidate, however much of the stem is
cut off, and a thousand candidates are more than the names that are taken. The cut itself
is only right as long as the number and the extension leave room for a stem.
-/
import AtlasWebServer.FileNamePieces
import AtlasWebServer.FileStore

set_option autoImplicit false

namespace AtlasWebServer.FileStore

open Bytes FileNames Tables List

variable {name : Bytes} {i j index : ℕ}

/-! ## The length of a candidate -/

/-- The candidate is no longer than a name may be, and the subtraction in `max_stem` does
not wrap. -/
structure CandidateFits (name : Bytes) (index : ℕ) : Prop where
  length : (duplicate_filename_candidate name index).length ≤ kFilenameMaxLength
  no_wrap : 0 < index → CutsStem name index →
    (candidate_suffix index).length + (file_extension name).length ≤ kFilenameMaxLength

/-- **Candidates fit** unless the number and the extension are too long by themselves. -/
theorem candidate_fits_iff (value : Bytes) (index : ℕ) (hindex : index ≤ 1000) :
    CandidateFits (sanitize_filename value) index ↔ index = 0 ∨
      (candidate_suffix index).length + (file_extension (sanitize_filename value)).length ≤
        kFilenameMaxLength := by
  have hname := length_sanitize_filename value
  generalize sanitize_filename value = name at hname ⊢
  have hmax : kFilenameMaxLength = 80 := rfl
  rcases Nat.eq_zero_or_pos index with rfl | hpos
  · exact iff_of_true ⟨hname, nofun⟩ (.inl rfl)
  rw [or_iff_right (by omega)]
  constructor
  · intro h
    by_contra hlong
    exact hlong (h.no_wrap hpos (by unfold CutsStem; omega))
  intro hfits
  refine ⟨?_, fun _ _ => hfits⟩
  rw [duplicate_filename_candidate_eq hpos, length_append, length_append]
  split_ifs with hcut
  · have hstem : max_stem name index = kFilenameMaxLength - (candidate_suffix index).length -
        (file_extension name).length := by
      unfold max_stem
      omega
    rw [length_take, hstem]
    omega
  · unfold CutsStem at hcut
    omega

theorem short_candidate_fits : CandidateFits (sanitize_filename (lit "a.txt")) 1000 :=
  (candidate_fits_iff (lit "a.txt") 1000 (by decide)).mpr (.inr (by decide +kernel))

/-- An extension of eighty bytes: `max_stem` wraps, and the candidate has 84 bytes. -/
theorem long_extension_overruns :
    (duplicate_filename_candidate (sanitize_filename (46 :: List.replicate 79 97)) 1).length = 84 ∧
      ¬ CandidateFits (sanitize_filename (46 :: List.replicate 79 97)) 1 := by
  have hlength : (duplicate_filename_candidate
      (sanitize_filename (46 :: List.replicate 79 97)) 1).length = 84 := by
    decide +kernel
  exact ⟨hlength, fun h => absurd (hlength ▸ h.length) (by decide)⟩

/-! ## A free name -/

theorem number_of_candidate (stem : Bytes) (index : ℕ) :
    ((stem ++ candidate_suffix index).reverse.drop 1).takeWhile (· ≠ 40) =
      (to_string index).reverse := by
  have hdigits : ∀ b ∈ (to_string index).reverse, decide (b ≠ 40) = true := by
    intro b hb
    have hbounds := mem_to_string_bounds (mem_reverse.mp hb)
    simp only [decide_eq_true_eq]
    rintro rfl
    exact absurd hbounds.1 (by decide)
  have hsuffix : (stem ++ candidate_suffix index).reverse =
      41 :: ((to_string index).reverse ++ 40 :: 32 :: stem.reverse) := by
    have hopen : lit " (" = [32, 40] := by decide
    have hclose : lit ")" = [41] := by decide
    simp [candidate_suffix, hopen, hclose]
  rw [hsuffix, drop_one, tail_cons, takeWhile_append_of_pos hdigits,
    takeWhile_cons_of_neg (by simp), append_nil]

theorem candidate_injective (hi : 0 < i) (hj : 0 < j)
    (h : duplicate_filename_candidate name i = duplicate_filename_candidate name j) : i = j := by
  rw [duplicate_filename_candidate_eq hi, duplicate_filename_candidate_eq hj, ← append_assoc,
    ← append_assoc, append_cancel_right_eq] at h
  have hnumber := congrArg (fun s : Bytes => (s.reverse.drop 1).takeWhile (· ≠ 40)) h
  rw [number_of_candidate, number_of_candidate, reverse_inj] at hnumber
  exact Int.ofNat.inj (to_string_injective hnumber)

theorem candidate_ne_nil (hname : name ≠ []) (index : ℕ) :
    duplicate_filename_candidate name index ≠ [] := by
  rcases Nat.eq_zero_or_pos index with rfl | hpos
  · exact hname
  · rw [duplicate_filename_candidate_eq hpos]
    have hopen : lit " (" ≠ [] := by decide
    simp [candidate_suffix, hopen]

section Names

variable {K : Type} [DecidableEq K] (key : Bytes → K) (db : Db) (owner : Bytes)
  (folder_id ignore_file_id : ℤ)

/-- The names of the owner's active files in the folder, but for the file to ignore. -/
def taken_names : List Bytes :=
  (db.files.filter fun f =>
    decide (some f.user_id = user_id_subquery key db owner) &&
    decide (f.folder_id = nullable_id_value folder_id) &&
    decide (f.deleted_at = none) &&
    (decide (ignore_file_id ≤ 0) || decide (f.id ≠ ignore_file_id))).map FileRow.original_name

variable {key db owner folder_id ignore_file_id}

theorem original_name_exists_iff (hkey : Function.Injective key) (name : Bytes) :
    original_name_exists key db owner name folder_id ignore_file_id = true ↔
      name ∈ taken_names key db owner folder_id ignore_file_id := by
  unfold original_name_exists taken_names
  simp only [any_eq_true, mem_map, mem_filter, Bool.and_eq_true, decide_eq_true_eq, hkey.eq_iff]
  grind

theorem unique_filename_loop_free (hkey : Function.Injective key) (howner : owner ≠ [])
    (hname : name ≠ []) (fuel index : ℕ) :
    unique_filename_loop key db owner name folder_id ignore_file_id (fun _ => true) fuel index ∉
        taken_names key db owner folder_id ignore_file_id ∨
      unique_filename_loop key db owner name folder_id ignore_file_id (fun _ => true) fuel index =
        duplicate_filename_candidate name 1000 ∧
      ∀ i, index ≤ i → i < index + fuel → duplicate_filename_candidate name i ∈
        taken_names key db owner folder_id ignore_file_id := by
  induction fuel generalizing index with
  | zero => exact .inr ⟨rfl, fun i hle hlt => by omega⟩
  | succ fuel ih =>
    have hno_error :
        ¬ (owner = [] ∨ duplicate_filename_candidate name index = [] ∨ true = false) := by
      simp [howner, candidate_ne_nil hname]
    rw [unique_filename_loop]
    rw [if_neg hno_error]
    split_ifs with hexists
    · rcases ih (index + 1) with hfree | ⟨hlast, htaken⟩
      · exact .inl hfree
      refine .inr ⟨hlast, fun i hle hlt => ?_⟩
      rcases Nat.eq_or_lt_of_le hle with rfl | hnext
      · exact (original_name_exists_iff hkey _).mp hexists
      · exact htaken i hnext (by omega)
    · exact .inl fun hmem => hexists ((original_name_exists_iff hkey _).mpr hmem)

/-- **A free name is found** if at most 999 names are taken. -/
theorem unique_name_free (hkey : Function.Injective key) (howner : owner ≠ [])
    (requested_name : Bytes)
    (hfew : (taken_names key db owner folder_id ignore_file_id).toFinset.card ≤ 999) :
    ensure_unique_owned_filename key db owner requested_name folder_id ignore_file_id
      (fun _ => true) ∉ taken_names key db owner folder_id ignore_file_id := by
  have hname : sanitized_or_default requested_name ≠ [] := by
    unfold sanitized_or_default
    dsimp only
    split_ifs with hnil
    · decide
    · exact hnil
  unfold ensure_unique_owned_filename
  generalize sanitized_or_default requested_name = name at hname ⊢
  rcases (unique_filename_loop_free hkey howner hname 1000 0 :
    _ ∉ taken_names key db owner folder_id ignore_file_id ∨ _) with hfree | ⟨hlast, htaken⟩
  · exact hfree
  rw [hlast]
  intro hmem
  -- the candidates 1 to 1000 are different names, and all of them are taken
  have hall : ∀ i ∈ Finset.Icc 1 1000, duplicate_filename_candidate name i ∈
      (taken_names key db owner folder_id ignore_file_id).toFinset := by
    intro i hi
    rw [Finset.mem_Icc] at hi
    rw [mem_toFinset]
    rcases Nat.eq_or_lt_of_le hi.2 with rfl | hlt
    · exact hmem
    · exact htaken i (Nat.zero_le i) (by omega)
  have hcard := Finset.card_le_card_of_injOn _ hall fun i hi j hj heq =>
    candidate_injective (Finset.mem_Icc.mp hi).1 (Finset.mem_Icc.mp hj).1 heq
  rw [Nat.card_Icc] at hcard
  omega

end Names

def one_file : Db :=
  ⟨[⟨1, lit "u", false⟩], [],
    [⟨1, 1, [], 1, lit "a.txt", [], none, 0, false, [], 0, none, 0⟩], [], 2, 2⟩

theorem second_file_renamed :
    taken_names (id : Bytes → Bytes) one_file (lit "u") 0 0 = [lit "a.txt"] ∧
      ensure_unique_owned_filename (id : Bytes → Bytes) one_file (lit "u") (lit "a.txt") 0 0
        (fun _ => true) ∉ taken_names (id : Bytes → Bytes) one_file (lit "u") 0 0 :=
  ⟨by decide +kernel, unique_name_free Function.injective_id (by decide) _ (by decide +kernel)⟩

end AtlasWebServer.FileStore
