/-
File and folder names as texts: whether the names that `sanitize_filename`
(`http/files/file_helpers.cpp`), `duplicate_filename_candidate` and
`sanitize_folder_name` (`service/files/file_service.cpp`) make of a UTF-8 name are UTF-8
again, as the columns they go to require.

Everything these functions do to a text leaves a text, but for the cuts: they take
ASCII bytes out, copy characters as a whole, split a name at a dot and put an ASCII
suffix between the parts. The cuts count bytes. So the names are texts exactly if no cut
falls into a character (`file_names_valid_iff`).
-/
import AtlasWebServer.Drive
import AtlasWebServer.FileNamePieces
import AtlasWebServer.Utf8

set_option autoImplicit false

namespace AtlasWebServer.FileNames

open Bytes CString Utf8 List
open Drive (sanitize_folder_name)

/-! ## `sanitize_filename` -/

theorem followers_lead (ch : UInt8) :
    0xC2 ≤ ch → ch ≤ 0xF4 → 0 < followers ch ∧ followers ch + 1 = char_length ch := by
  revert ch
  apply forall_byte
  decide +kernel

theorem ascii_iff (ch : UInt8) : ch < 0x80 ↔ ch ≤ 0x7F := by
  exact Nat.lt_succ_iff

theorem valid_pieces {value : Bytes} (h : Valid value) {fuel : ℕ} (hfuel : value.length ≤ fuel)
    (blocked : Bool) : Valid (pieces fuel value blocked).flatten := by
  induction h generalizing fuel blocked with
  | nil => cases fuel <;> exact .nil
  | @append c s hc hs ih =>
    obtain ⟨ch, tail, hshape⟩ := hc.shape
    rw [hshape.eq, cons_append, length_cons, length_append] at hfuel
    obtain ⟨fuel, rfl⟩ := Nat.exists_eq_succ_of_ne_zero (by omega : fuel ≠ 0)
    have hlength := hshape.length
    rw [hshape.eq, length_cons] at hlength
    rw [hshape.eq, cons_append, pieces]
    by_cases hch : ch < 0x80
    · have hone : char_length ch = 1 := by
        rw [char_length, if_pos ((ascii_iff ch).mp hch)]
      obtain rfl : tail = [] := eq_nil_of_length_eq_zero (by omega)
      split_ifs
      · exact (valid_of_ascii (by simpa using hch)).add (ih (by omega) _)
      · exact (valid_of_ascii (by simp)).add (ih (by omega) _)
      · exact ih (by omega) _
    · -- a whole character is copied
      have hlead := hshape.first.resolve_left fun hle => hch ((ascii_iff ch).mpr hle)
      have hcount := followers_lead ch hlead.1 hlead.2
      have hfollowers : tail.length = followers ch := by omega
      have hcopy : 0 < followers ch ∧ followers ch ≤ (tail ++ s).length := by
        rw [length_append]
        omega
      rw [if_neg hch, if_pos hcopy, ← hfollowers, take_left, drop_left, ← hshape.eq]
      exact .append hc (ih (by omega) _)

theorem valid_cleaned_name {name : Bytes} (h : Valid name) : Valid (cleaned_name name) := by
  apply (valid_pieces h (le_refl _) true).dropWhile_end
  intro b hb
  rw [of_decide_eq_true hb]
  decide

theorem valid_sanitize_filename_iff {name : Bytes} (h : Valid name) :
    Valid (sanitize_filename name) ↔ Boundary 80 (cleaned_name name) := by
  rw [sanitize_filename_eq]
  split_ifs with hnone
  · have hshort : (cleaned_name name).length ≤ 80 := by
      rcases hnone with h | h | h <;> rw [h] <;> decide
    refine iff_of_true (valid_of_ascii ?_) (boundary_of_length_le hshort)
    decide +kernel
  · exact (valid_cleaned_name h).take_iff 80

/-! ## `duplicate_filename_candidate` -/

theorem valid_stem {name : Bytes} (h : Valid name) :
    Valid (name_stem name) ∧ Valid (file_extension name) := by
  have hsplit := name_stem_append name
  rcases file_extension_spec name with hnone | ⟨stem, rest, -, hext, -⟩
  · rw [hnone, append_nil] at hsplit
    rw [hsplit, hnone]
    exact ⟨h, .nil⟩
  · rw [hext] at hsplit ⊢
    rw [← hsplit] at h
    exact h.split (by decide)

theorem candidate_suffix_ascii (index : ℕ) : ∀ b ∈ candidate_suffix index, b < 0x80 := by
  intro b hb
  simp only [candidate_suffix, mem_append] at hb
  rcases hb with (hb | hb) | hb
  · revert b
    decide +kernel
  · have hbounds := mem_to_string_bounds hb
    exact lt_of_le_of_lt hbounds.2 (by decide)
  · revert b
    decide +kernel

theorem valid_candidate_iff {name : Bytes} (h : Valid name) {index : ℕ} (hindex : 0 < index) :
    Valid (duplicate_filename_candidate name index) ↔
      (CutsStem name index → Boundary (max_stem name index) (name_stem name)) := by
  obtain ⟨hstem, hext⟩ := valid_stem h
  have hsuffix : Valid (candidate_suffix index) := valid_of_ascii (candidate_suffix_ascii index)
  have hbehind := hsuffix.add hext
  -- the suffix starts with a space, so the stem can be told from it
  have hstem_iff : ∀ stem : Bytes,
      Valid (stem ++ (candidate_suffix index ++ file_extension name)) ↔ Valid stem := by
    intro stem
    refine ⟨fun hvalid => ?_, fun hvalid => hvalid.add hbehind⟩
    exact (hvalid.split (by decide)).1
  rw [duplicate_filename_candidate_eq hindex, hstem_iff]
  split_ifs with hcut
  · rw [hstem.take_iff]
    simp [hcut]
  · simp [hcut, hstem]

/-! ## `sanitize_folder_name` -/

def folder_bytes (name : Bytes) : Bytes :=
  (((name.dropWhile isspace).reverse.dropWhile isspace).reverse).filter
    fun ch => !(ch = 47 || ch = 92 || ch < 0x20)

theorem ascii_of_isspace (ch : UInt8) : isspace ch = true → ch < 0x80 := by
  revert ch
  apply forall_byte
  decide +kernel

theorem kept_in_folder (ch : UInt8) :
    0x80 ≤ ch → (!(decide (ch = 47) || decide (ch = 92) || decide (ch < 0x20))) = true := by
  revert ch
  apply forall_byte
  decide +kernel

theorem valid_sanitize_folder_name_iff {name : Bytes} (h : Valid name) :
    Valid (sanitize_folder_name name) ↔ Boundary 80 (folder_bytes name) := by
  have htrimmed := (h.dropWhile ascii_of_isspace).dropWhile_end ascii_of_isspace
  have hkept : Valid (folder_bytes name) := htrimmed.filter kept_in_folder
  exact hkept.take_iff 80

/-! ## All names -/

/-- **Names stay texts.** The names that are made of a UTF-8 name are UTF-8 exactly if no
cut falls into a character: the two at 80 bytes, and that of the stem of a candidate. -/
theorem file_names_valid_iff (name : Bytes) (hname : Valid name) :
    (Valid (sanitize_filename name) ∧
        (∀ index ≤ 1000, Valid (duplicate_filename_candidate (sanitize_filename name) index)) ∧
          Valid (sanitize_folder_name name)) ↔
      Boundary 80 (cleaned_name name) ∧
        (∀ index, 0 < index → index ≤ 1000 → CutsStem (sanitize_filename name) index →
          Boundary (max_stem (sanitize_filename name) index) (name_stem (sanitize_filename name))) ∧
        Boundary 80 (folder_bytes name) := by
  rw [valid_sanitize_filename_iff hname, valid_sanitize_folder_name_iff hname]
  refine and_congr_right fun hcut => and_congr_left fun _ => ?_
  have hvalid := (valid_sanitize_filename_iff hname).mpr hcut
  constructor
  · intro h index hpos hle
    exact (valid_candidate_iff hvalid hpos).mp (h index hle)
  intro h index hle
  rcases Nat.eq_zero_or_pos index with rfl | hpos
  · exact hvalid
  · exact (valid_candidate_iff hvalid hpos).mpr (h index hpos hle)

/-- Two characters of three bytes and `.txt`. -/
def report_name : Bytes := [0xE6, 0x8A, 0xA5, 0xE5, 0x91, 0x8A, 46, 116, 120, 116]

/-- A short name: none of the cuts is made. -/
theorem report_names_valid :
    Valid report_name ∧ Valid (duplicate_filename_candidate (sanitize_filename report_name) 7) := by
  have hchars : Character [0xE6, 0x8A, 0xA5] ∧ Character [0xE5, 0x91, 0x8A] := by
    constructor <;> exact .three (by decide) (by decide) (by decide) (by decide) (by decide)
  have hvalid : Valid report_name :=
    .append hchars.1
      (.append hchars.2 (valid_of_ascii (s := [46, 116, 120, 116]) (by decide +kernel)))
  have hall := (file_names_valid_iff report_name hvalid).mpr ⟨?_, ?_, ?_⟩
  · exact ⟨hvalid, hall.2.1 7 (by omega)⟩
  · exact boundary_of_length_le (by decide +kernel)
  · intro index _ hle hcut
    have hsuffix := length_candidate_suffix hle
    have hlength : (name_stem (sanitize_filename report_name)).length +
        (file_extension (sanitize_filename report_name)).length = 10 := by
      decide +kernel
    unfold CutsStem kFilenameMaxLength at hcut
    omega
  · exact boundary_of_length_le (by decide +kernel)

/-- A cut through a character of two bytes. -/
theorem cut_character :
    Valid (List.replicate 79 97 ++ [0xC3, 0xA9]) ∧
      sanitize_filename (List.replicate 79 97 ++ [0xC3, 0xA9]) = List.replicate 79 97 ++ [0xC3] ∧
      ¬ Valid (sanitize_filename (List.replicate 79 97 ++ [0xC3, 0xA9])) := by
  have hletters : Valid (List.replicate 79 97) := by
    apply valid_of_ascii
    intro a ha
    rw [eq_of_mem_replicate ha]
    decide
  have hname : sanitize_filename (List.replicate 79 97 ++ [0xC3, 0xA9]) =
      List.replicate 79 97 ++ [0xC3] := by decide +kernel
  have hchar : Character [0xC3, 0xA9] := .two (by decide) (by decide)
  refine ⟨hletters.add hchar.valid, hname, fun hvalid => ?_⟩
  rw [hname] at hvalid
  obtain ⟨c, t, -, -, heq, hlength⟩ := (hletters.of_append hvalid).head rfl
  have hlengths := congrArg List.length heq
  rw [length_append, hlength] at hlengths
  exact absurd hlengths (by simp [char_length]; omega)

end AtlasWebServer.FileNames
