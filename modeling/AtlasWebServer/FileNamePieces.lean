/-
`sanitize_filename` (`http/files/file_helpers.cpp`), byte by byte.

The loop makes the name out of pieces: a byte it keeps, one space for a run of blanks, or
a lead byte with the one to three bytes behind it, which it copies without a look at them
(`pieces`). A name that is made of pieces is read as the same pieces again
(`Pieces.fixed`), and what the loop itself puts into a name is harmless. So what the
function promises can fail in two places. A copied piece can hold any bytes. And the end
of the name is made by dropping spaces and then cutting at 80 bytes, which is not looked at
again: it can leave a space at the end, or a part of a copied piece.

`sanitize_filename_safe_iff` and `sanitize_filename_idempotent_iff` say that nothing else
can go wrong.
-/
import AtlasWebServer.FileNames

set_option autoImplicit false

namespace AtlasWebServer.FileNames

open Bytes CString List

variable {blocked : Bool} {ps : List Bytes}

/-! ## The pieces of a name -/

/-- How many bytes the loop copies behind a byte that is not ASCII. -/
def followers (ch : UInt8) : ℕ :=
  if ch &&& 0xE0 = 0xC0 then 1
  else if ch &&& 0xF0 = 0xE0 then 2
  else if ch &&& 0xF8 = 0xF0 then 3
  else 0

/-- What the loop appends, pass by pass. `blocked` says that a space would be the first
byte or the second space in a row. -/
def pieces : ℕ → Bytes → Bool → List Bytes
  | 0, _, _ => []
  | _, [], _ => []
  | fuel + 1, ch :: value, blocked =>
      if ch < 0x80 then
        if keeps ch then [ch] :: pieces fuel value false
        else if isspace ch ∧ blocked = false then [32] :: pieces fuel value true
        else pieces fuel value blocked
      else if 0 < followers ch ∧ followers ch ≤ value.length then
        (ch :: value.take (followers ch)) :: pieces fuel (value.drop (followers ch)) false
      else pieces fuel value blocked

def name_pieces (value : Bytes) : List Bytes := pieces value.length value true

theorem followers_ascii (ch : UInt8) : ch < 0x80 → followers ch = 0 := by
  revert ch
  apply forall_byte
  decide +kernel

theorem lead_disjoint (ch : UInt8) :
    (ch &&& 0xE0 = 0xC0 → ¬ ch &&& 0xF0 = 0xE0 ∧ ¬ ch &&& 0xF8 = 0xF0) ∧
      (ch &&& 0xF0 = 0xE0 → ¬ ch &&& 0xF8 = 0xF0) := by
  revert ch
  apply forall_byte
  decide +kernel

theorem sanitize_filename_loop_high {ch : UInt8} (hch : ¬ ch < 0x80) (fuel : ℕ)
    (value cleaned : Bytes) (previous_space : Bool) :
    sanitize_filename_loop (fuel + 1) (ch :: value) cleaned previous_space =
      if 0 < followers ch ∧ followers ch ≤ value.length then
        sanitize_filename_loop fuel (value.drop (followers ch))
          (cleaned ++ ch :: value.take (followers ch)) false
      else sanitize_filename_loop fuel value cleaned previous_space := by
  have hdisjoint := lead_disjoint ch
  rw [sanitize_filename_loop, if_neg hch]
  unfold followers
  by_cases htwo : ch &&& 0xE0 = 0xC0
  · simp [htwo, hdisjoint.1 htwo]
  by_cases hthree : ch &&& 0xF0 = 0xE0
  · simp [htwo, hthree, hdisjoint.2 hthree]
  · by_cases hfour : ch &&& 0xF8 = 0xF0 <;> simp [htwo, hthree, hfour]

theorem sanitize_filename_loop_eq (fuel : ℕ) (value cleaned : Bytes) (previous_space : Bool) :
    sanitize_filename_loop fuel value cleaned previous_space =
      cleaned ++ (pieces fuel value (decide (cleaned = []) || previous_space)).flatten := by
  induction fuel generalizing value cleaned previous_space with
  | zero => simp [sanitize_filename_loop, pieces]
  | succ fuel ih =>
    cases value with
    | nil => simp [sanitize_filename_loop, pieces]
    | cons ch value =>
      by_cases hch : ch < 0x80
      · rw [sanitize_filename_loop, pieces, if_pos hch, if_pos hch]
        by_cases hkeeps : keeps ch = true
        · rw [if_pos hkeeps, if_pos hkeeps, ih]
          simp
        rw [if_neg hkeeps, if_neg hkeeps]
        by_cases hspace : isspace ch = true ∧ cleaned ≠ [] ∧ previous_space = false
        · rw [if_pos hspace, if_pos (by simpa using hspace), ih]
          simp
        · rw [if_neg hspace, if_neg (by simpa using hspace), ih]
      · rw [sanitize_filename_loop_high hch, pieces, if_neg hch]
        split_ifs with hcopy
        · rw [ih]
          simp
        · rw [ih]

/-! ## Names that are made of pieces -/

/-- Pieces as the loop makes them. -/
inductive Pieces : Bool → List Bytes → Prop
  | nil {blocked : Bool} : Pieces blocked []
  | kept {blocked : Bool} {ch : UInt8} {ps : List Bytes} (hch : keeps ch = true)
      (hps : Pieces false ps) : Pieces blocked ([ch] :: ps)
  | space {ps : List Bytes} (hps : Pieces true ps) : Pieces false ([32] :: ps)
  | copied {blocked : Bool} {ch : UInt8} {tail : Bytes} {ps : List Bytes} (hch : 0 < followers ch)
      (htail : tail.length = followers ch) (hps : Pieces false ps) :
        Pieces blocked ((ch :: tail) :: ps)

theorem pieces_made (fuel : ℕ) (value : Bytes) (blocked : Bool) :
    Pieces blocked (pieces fuel value blocked) := by
  induction fuel generalizing value blocked with
  | zero => exact .nil
  | succ fuel ih =>
    cases value with
    | nil => exact .nil
    | cons ch value =>
      rw [pieces]
      split_ifs with hch hkeeps hspace hcopy
      · exact .kept hkeeps (ih _ _)
      · rw [hspace.2]
        exact .space (ih _ _)
      · exact ih _ _
      · exact .copied hcopy.1 (length_take_of_le hcopy.2) (ih _ _)
      · exact ih _ _

theorem ascii_of_keeps (ch : UInt8) : keeps ch = true → ch < 0x80 := by
  revert ch
  apply forall_byte
  decide +kernel

theorem Pieces.fixed (h : Pieces blocked ps) {fuel : ℕ} (hfuel : ps.flatten.length ≤ fuel) :
    pieces fuel ps.flatten blocked = ps := by
  induction h generalizing fuel with
  | nil => cases fuel <;> rfl
  | @kept blocked ch ps hch hps ih =>
    rw [flatten_cons, singleton_append, length_cons] at hfuel
    obtain ⟨fuel, rfl⟩ := Nat.exists_eq_succ_of_ne_zero (by omega : fuel ≠ 0)
    rw [flatten_cons, singleton_append, pieces, if_pos (ascii_of_keeps ch hch),
      if_pos hch, ih (by omega)]
  | @space ps hps ih =>
    rw [flatten_cons, singleton_append, length_cons] at hfuel
    obtain ⟨fuel, rfl⟩ := Nat.exists_eq_succ_of_ne_zero (by omega : fuel ≠ 0)
    rw [flatten_cons, singleton_append, pieces, if_pos (by decide),
      if_neg (by decide), if_pos ⟨by decide, rfl⟩, ih (by omega)]
  | @copied blocked ch tail ps hch htail hps ih =>
    rw [flatten_cons, cons_append, length_cons, length_append] at hfuel
    obtain ⟨fuel, rfl⟩ := Nat.exists_eq_succ_of_ne_zero (by omega : fuel ≠ 0)
    have hhigh : ¬ ch < 0x80 := by
      intro hascii
      rw [followers_ascii ch hascii] at hch
      exact absurd hch (lt_irrefl 0)
    rw [flatten_cons, cons_append, pieces, if_neg hhigh,
      if_pos ⟨hch, by rw [length_append]; omega⟩, ← htail, take_left, drop_left,
      ih (by omega)]

theorem Pieces.take (h : Pieces blocked ps) (n : ℕ) : Pieces blocked (ps.take n) := by
  induction h generalizing n with
  | nil => simpa using Pieces.nil
  | kept hch hps ih =>
    cases n with
    | zero => exact .nil
    | succ n => exact .kept hch (ih n)
  | space hps ih =>
    cases n with
    | zero => exact .nil
    | succ n => exact .space (ih n)
  | copied hch htail hps ih =>
    cases n with
    | zero => exact .nil
    | succ n => exact .copied hch htail (ih n)

variable {p s : Bytes} {qs : List Bytes} {i : ℕ} {b : UInt8}

theorem Pieces.head (h : Pieces blocked (p :: ps)) :
    ∃ ch tail, p = ch :: tail ∧ tail.length = followers ch ∧ ∃ blocked', Pieces blocked' ps := by
  cases h with
  | @kept _ ch _ hch hps =>
    exact ⟨ch, [], rfl, (followers_ascii ch (ascii_of_keeps ch hch)).symm, false, hps⟩
  | space hps => exact ⟨32, [], rfl, by decide, true, hps⟩
  | @copied _ ch tail _ hch htail hps => exact ⟨ch, tail, rfl, htail, false, hps⟩

theorem Pieces.initial_of_flatten {b b' : Bool} (hqs : Pieces b qs) (hps : Pieces b' ps)
    (h : qs.flatten <+: ps.flatten) : qs <+: ps := by
  induction qs generalizing b b' ps with
  | nil => exact nil_prefix
  | cons q qs ih =>
    obtain ⟨ch, tail, rfl, htail, c, hqs'⟩ := hqs.head
    cases ps with
    | nil =>
      simp at h
    | cons p ps =>
      obtain ⟨ch', tail', rfl, htail', c', hps'⟩ := hps.head
      rw [flatten_cons, flatten_cons, cons_append, cons_append, cons_prefix_cons] at h
      obtain ⟨rfl, hrest⟩ := h
      obtain ⟨rest, hrest⟩ := hrest
      rw [append_assoc] at hrest
      obtain ⟨rfl, hmore⟩ := append_inj hrest (htail.trans htail'.symm)
      exact cons_prefix_cons.mpr ⟨rfl, ih hqs' hps' ⟨rest, hmore⟩⟩

theorem length_pieces_le (fuel : ℕ) (value : Bytes) (blocked : Bool) :
    (pieces fuel value blocked).flatten.length ≤ value.length := by
  induction fuel generalizing value blocked with
  | zero => exact Nat.zero_le _
  | succ fuel ih =>
    cases value with
    | nil => exact Nat.zero_le _
    | cons ch value =>
      rw [pieces, length_cons]
      split_ifs with hch hkeeps hspace hcopy
      · simpa using ih value false
      · simpa using ih value true
      · exact Nat.le_succ_of_le (ih value blocked)
      · have hdrop := ih (value.drop (followers ch)) false
        rw [length_drop] at hdrop
        rw [flatten_cons, cons_append, length_cons, length_append, length_take_of_le hcopy.2]
        omega
      · exact Nat.le_succ_of_le (ih value blocked)

/-! ## The end of a name -/

theorem pop_spaces_split (s : Bytes) : ∃ n, s = pop_spaces s ++ replicate n 32 := by
  refine ⟨(s.reverse.takeWhile (· = 32)).length, ?_⟩
  have hspaces : (s.reverse.takeWhile (· = 32)).reverse =
      replicate (s.reverse.takeWhile (· = 32)).length 32 := by
    rw [eq_replicate_iff]
    refine ⟨length_reverse, fun b hb => ?_⟩
    have hb' := mem_takeWhile_imp (mem_reverse.mp hb)
    simpa using hb'
  rw [← hspaces, pop_spaces, ← reverse_append, takeWhile_append_dropWhile, reverse_reverse]

theorem getLast_pop_spaces (s : Bytes) : (pop_spaces s).getLast? ≠ some 32 := by
  rw [pop_spaces, getLast?_reverse]
  have hhead := head?_dropWhile_not (fun b : UInt8 => decide (b = 32)) s.reverse
  intro h
  rw [h] at hhead
  simp at hhead

theorem pop_spaces_eq_self_iff : pop_spaces s = s ↔ s.getLast? ≠ some 32 := by
  constructor
  · intro h
    rw [← h]
    exact getLast_pop_spaces s
  intro h
  obtain ⟨n, hn⟩ := pop_spaces_split s
  cases n with
  | zero => simpa using hn.symm
  | succ n =>
    rw [hn, replicate_succ', ← append_assoc, getLast?_concat] at h
    exact absurd rfl h

theorem getElem_pop_spaces (h : s[i]? = some b) (hb : b ≠ 32) : (pop_spaces s)[i]? = some b := by
  obtain ⟨n, hn⟩ := pop_spaces_split s
  rw [hn] at h
  rcases Nat.lt_or_ge i (pop_spaces s).length with hlt | hge
  · rwa [getElem?_append_left hlt] at h
  · rw [getElem?_append_right hge] at h
    exact absurd (eq_of_mem_replicate (mem_of_getElem? h)) hb

/-! ## The name -/

/-- The name before the default and the cut. -/
def cleaned_name (value : Bytes) : Bytes := pop_spaces (name_pieces value).flatten

theorem cleaned_name_initial (value : Bytes) :
    cleaned_name value <+: (name_pieces value).flatten := by
  obtain ⟨n, hn⟩ := pop_spaces_split (name_pieces value).flatten
  exact ⟨_, hn.symm⟩

/-- Nothing is left, or what is left names a directory. -/
def NoName (value : Bytes) : Prop :=
  cleaned_name value = [] ∨ cleaned_name value = lit "." ∨ cleaned_name value = lit ".."

instance (value : Bytes) : Decidable (NoName value) := inferInstanceAs (Decidable (_ ∨ _ ∨ _))

theorem sanitize_filename_eq (value : Bytes) :
    sanitize_filename value =
      if NoName value then lit "file.txt" else (cleaned_name value).take 80 := by
  have hloop : sanitize_filename_loop value.length value [] false =
    (name_pieces value).flatten := by
    rw [sanitize_filename_loop_eq, nil_append]
    rfl
  unfold sanitize_filename
  rw [hloop]
  change List.take 80 (if NoName value then lit "file.txt" else cleaned_name value) = _
  split_ifs
  · decide
  · rfl

theorem length_sanitize_filename (value : Bytes) : (sanitize_filename value).length ≤ 80 := by
  exact length_take_le _ _

theorem sanitize_filename_ne (value : Bytes) :
    sanitize_filename value ≠ [] ∧ sanitize_filename value ≠ lit "." ∧
      sanitize_filename value ≠ lit ".." := by
  rw [sanitize_filename_eq]
  split_ifs with hnone
  · decide
  -- a cut at 80 bytes does not make a short name
  have hshort : ∀ t : Bytes, t.length < 80 → (cleaned_name value).take 80 = t →
      cleaned_name value = t := by
    intro t ht htake
    have hlength := congrArg length htake
    rw [length_take] at hlength
    rw [← htake, take_of_length_le (by omega)]
  refine ⟨fun h => hnone (.inl ?_), fun h => hnone (.inr (.inl ?_)),
    fun h => hnone (.inr (.inr ?_))⟩ <;> exact hshort _ (by decide) h

/-! ## Sanitising again -/

theorem sanitize_filename_fixed (hqs : Pieces true qs) (hlast : qs.flatten.getLast? ≠ some 32)
    (hlength : qs.flatten.length ≤ 80)
    (hname : qs.flatten ≠ [] ∧ qs.flatten ≠ lit "." ∧ qs.flatten ≠ lit "..") :
    sanitize_filename qs.flatten = qs.flatten := by
  have hcleaned : cleaned_name qs.flatten = qs.flatten := by
    rw [cleaned_name, name_pieces, hqs.fixed (le_refl _)]
    exact pop_spaces_eq_self_iff.mpr hlast
  have hnone : ¬ NoName qs.flatten := by
    unfold NoName
    rw [hcleaned]
    simp [hname]
  rw [sanitize_filename_eq, if_neg hnone, hcleaned, take_of_length_le hlength]

theorem pieces_of_fixed {value : Bytes} (h : sanitize_filename value = value)
    (hnone : ¬ NoName value) :
    (name_pieces value).flatten = value ∧ value.getLast? ≠ some 32 := by
  rw [sanitize_filename_eq, if_neg hnone] at h
  have hpieces := length_pieces_le value.length value true
  have hlength := congrArg length h
  rw [length_take] at hlength
  -- no step has made it shorter, so none has done anything
  obtain ⟨n, hn⟩ := pop_spaces_split (name_pieces value).flatten
  have hlengths := congrArg length hn
  rw [length_append, length_replicate] at hlengths
  unfold cleaned_name at h hlength
  unfold name_pieces at *
  obtain rfl : n = 0 := by omega
  rw [replicate_zero, append_nil] at hn
  rw [take_of_length_le (by omega)] at h
  rw [← hn] at h
  refine ⟨h, ?_⟩
  rw [← pop_spaces_eq_self_iff]
  rw [h] at hn
  exact hn.symm

/-- The cut, if there is one, is not behind a space. -/
def CutSafe (value : Bytes) : Prop :=
  80 < (cleaned_name value).length → (cleaned_name value)[79]? ≠ some 32

theorem getLast_cut_iff (value : Bytes) :
    ((cleaned_name value).take 80).getLast? ≠ some 32 ↔ CutSafe value := by
  unfold CutSafe
  rcases Nat.lt_or_ge 80 (cleaned_name value).length with hlong | hshort
  · rw [getLast?_eq_getElem?, length_take_of_le hlong.le,
      getElem?_take_of_lt (by omega)]
    exact ⟨fun h _ => h, fun h => h hlong⟩
  · rw [take_of_length_le hshort]
    exact iff_of_true (getLast_pop_spaces _) fun hlong => absurd hlong (by omega)

/-- What is left of the pieces after the spaces and the cut ends where a piece ends, and the cut
is not behind a space. -/
def EndsWell (value : Bytes) : Prop :=
  NoName value ∨
    ((∃ n, (cleaned_name value).take 80 = ((name_pieces value).take n).flatten) ∧ CutSafe value)

/-- **Sanitising twice.** The second time changes nothing exactly if the first name ends
where a piece ends and not with a space, or is the default. -/
theorem sanitize_filename_idempotent_iff (value : Bytes) :
    sanitize_filename (sanitize_filename value) = sanitize_filename value ↔ EndsWell value := by
  by_cases hnone : NoName value
  · have hdefault : sanitize_filename value = lit "file.txt" := by
      rw [sanitize_filename_eq, if_pos hnone]
    rw [hdefault]
    exact iff_of_true (by decide) (.inl hnone)
  have hmade : Pieces true (name_pieces value) := pieces_made _ _ _
  have hname : sanitize_filename value = (cleaned_name value).take 80 := by
    rw [sanitize_filename_eq, if_neg hnone]
  constructor
  · intro hfixed
    have hnone' : ¬ NoName (sanitize_filename value) := by
      intro h
      rw [sanitize_filename_eq (sanitize_filename value), if_pos h] at hfixed
      rw [← hfixed] at h
      exact absurd h (by decide)
    obtain ⟨hflatten, hlast⟩ := pieces_of_fixed hfixed hnone'
    have hagain : Pieces true (name_pieces (sanitize_filename value)) := pieces_made _ _ _
    -- the second reading finds pieces of the first, up to the cut
    have hstart : (name_pieces (sanitize_filename value)).flatten <+:
        (name_pieces value).flatten := by
      rw [hflatten, hname]
      exact (IsPrefix.trans <| take_prefix _ _) (cleaned_name_initial value)
    have htake := prefix_iff_eq_take.mp (hagain.initial_of_flatten hmade hstart)
    rw [hname] at hlast
    refine .inr ⟨⟨(name_pieces (sanitize_filename value)).length, ?_⟩,
      (getLast_cut_iff value).mp hlast⟩
    rw [← htake, hflatten, hname]
  · rintro (hnone' | ⟨⟨n, hn⟩, hcut⟩)
    · exact absurd hnone' hnone
    have hlast := (getLast_cut_iff value).mpr hcut
    have hlength := length_sanitize_filename value
    have hproper := sanitize_filename_ne value
    rw [hname, hn] at hlength hproper ⊢
    rw [hn] at hlast
    exact sanitize_filename_fixed (hmade.take n) hlast hlength hproper

/-- A cut behind a space leaves a name that the next call makes shorter. -/
theorem space_at_cut_dropped :
    sanitize_filename (replicate 79 97 ++ [32, 98]) = replicate 79 97 ++ [32] ∧
      sanitize_filename (replicate 79 97 ++ [32]) = replicate 79 97 ∧
      sanitize_filename (sanitize_filename (replicate 79 97 ++ [32, 98])) ≠
        sanitize_filename (replicate 79 97 ++ [32, 98]) := by
  refine ⟨?_, ?_, ?_⟩ <;> decide +kernel

/-! ## Harmless names -/

/-- What `sanitize_filename` is for. -/
structure SafeName (name : Bytes) : Prop where
  nonempty : name ≠ []
  length : name.length ≤ 80
  no_directory : name ≠ lit "." ∧ name ≠ lit ".."
  no_leading_space : name.head? ≠ some 32
  no_trailing_space : name.getLast? ≠ some 32
  bytes : ∀ b ∈ name, b < 0x80 → keeps b = true ∨ b = 32

/-- Among the first 80 bytes, no copied piece has an ASCII byte that would not be kept. -/
def CopiesSafe (value : Bytes) : Prop :=
  ∀ (before : List Bytes) (p : Bytes) (after : List Bytes),
    name_pieces value = before ++ p :: after → 1 < p.length →
      ∀ (j : ℕ) (b : UInt8), p[j]? = some b → before.flatten.length + j < 80 → b < 0x80 →
        keeps b = true ∨ b = 32

theorem exists_piece (h : ps.flatten[i]? = some b) :
    ∃ before p after j, ps = before ++ p :: after ∧ p[j]? = some b ∧
      before.flatten.length + j = i := by
  induction ps generalizing i with
  | nil => simp at h
  | cons p ps ih =>
    rw [flatten_cons] at h
    rcases Nat.lt_or_ge i p.length with hlt | hge
    · rw [getElem?_append_left hlt] at h
      exact ⟨[], p, ps, i, rfl, h, by simp⟩
    rw [getElem?_append_right hge] at h
    obtain ⟨before, q, after, j, rfl, hj, hsum⟩ := ih h
    refine ⟨p :: before, q, after, j, rfl, hj, ?_⟩
    rw [flatten_cons, length_append]
    omega

theorem Pieces.short (h : Pieces blocked ps) (hp : p ∈ ps) (hshort : ¬ 1 < p.length) :
    ∀ b ∈ p, keeps b = true ∨ b = 32 := by
  induction h with
  | nil => exact absurd hp not_mem_nil
  | kept hch hps ih =>
    rcases mem_cons.mp hp with rfl | hp
    · simp [hch]
    · exact ih hp
  | space hps ih =>
    rcases mem_cons.mp hp with rfl | hp
    · simp
    · exact ih hp
  | copied hch htail hps ih =>
    rcases mem_cons.mp hp with rfl | hp
    · rw [length_cons] at hshort
      omega
    · exact ih hp

theorem Pieces.head_ne_space (h : Pieces true ps) : ps.flatten.head? ≠ some 32 := by
  cases h with
  | nil => simp
  | @kept _ ch ps hch hps =>
    intro heq
    rw [Option.some.inj heq] at hch
    exact absurd hch (by decide)
  | @copied _ ch tail ps hch htail hps =>
    intro heq
    rw [Option.some.inj heq] at hch
    exact absurd hch (by decide)

theorem safeName_default : SafeName (lit "file.txt") := by
  refine ⟨by decide, by decide, by decide, by decide, by decide, ?_⟩
  decide +kernel

/-- **Harmless names.** The name is harmless exactly if the copied pieces are, as far as the
cut leaves them, and the cut is not behind a space. The rest of what is asked of a name is
always so. -/
theorem sanitize_filename_safe_iff (value : Bytes) :
    SafeName (sanitize_filename value) ↔ CopiesSafe value ∧ CutSafe value := by
  have hmade : Pieces true (name_pieces value) := pieces_made _ _ _
  constructor
  · intro hsafe
    constructor
    · intro before p after hsplit hlong j b hj hpos hascii
      by_cases hspace : b = 32
      · exact .inr hspace
      have hget : (name_pieces value).flatten[before.flatten.length + j]? = some b := by
        rw [hsplit, flatten_append, getElem?_append_right (by omega),
          Nat.add_sub_cancel_left, List.flatten_cons,
          List.getElem?_append_left (List.getElem?_eq_some_iff.mp hj).1]
        exact hj
      have hcleaned : (cleaned_name value)[before.flatten.length + j]? = some b :=
        getElem_pop_spaces hget hspace
      by_cases hnone : NoName value
      · -- the name would have been a dot or two
        have hmem := mem_of_getElem? hcleaned
        rcases hnone with h | h | h <;> rw [h] at hmem
        · exact absurd hmem not_mem_nil
        · obtain rfl := mem_singleton.mp hmem
          exact .inl (by decide)
        · have hdot : b = 46 := by
            simpa [show lit ".." = [46, 46] by decide] using hmem
          rw [hdot]
          exact .inl (by decide)
      · have hbytes := hsafe.bytes b
        rw [sanitize_filename_eq, if_neg hnone] at hbytes
        refine hbytes (mem_of_getElem? (i := before.flatten.length + j) ?_) hascii
        rw [getElem?_take_of_lt hpos]
        exact hcleaned
    · intro hlong hspace
      have hnone : ¬ NoName value := by
        rintro (h | h | h) <;> rw [h] at hlong <;> exact absurd hlong (by decide)
      have hlast := hsafe.no_trailing_space
      rw [sanitize_filename_eq, if_neg hnone] at hlast
      exact (getLast_cut_iff value).mp hlast hlong hspace
  · rintro ⟨hcopies, hcut⟩
    by_cases hnone : NoName value
    · rw [sanitize_filename_eq, if_pos hnone]
      exact safeName_default
    have heq : sanitize_filename value = (cleaned_name value).take 80 := by
      rw [sanitize_filename_eq, if_neg hnone]
    have hname := sanitize_filename_ne value
    have hinitial : sanitize_filename value <+: (name_pieces value).flatten := by
      rw [heq]
      exact (List.take_prefix _ _).trans (cleaned_name_initial value)
    refine ⟨hname.1, length_sanitize_filename value, hname.2, ?_, ?_, ?_⟩
    · obtain ⟨ch, tail, hcons⟩ := exists_cons_of_ne_nil hname.1
      obtain ⟨rest, hrest⟩ := hinitial
      have hfirst := hmade.head_ne_space
      rw [← hrest, hcons] at hfirst
      rw [hcons]
      exact hfirst
    · rw [heq]
      exact (getLast_cut_iff value).mpr hcut
    · intro b hb hascii
      obtain ⟨i, hi⟩ := List.mem_iff_getElem?.mp hb
      have hlt := (List.getElem?_eq_some_iff.mp hi).1
      have hlength := length_sanitize_filename value
      have hget : (name_pieces value).flatten[i]? = some b := by
        obtain ⟨rest, hrest⟩ := hinitial
        rw [← hrest, getElem?_append_left hlt]
        exact hi
      obtain ⟨before, p, after, j, hsplit, hj, hsum⟩ := exists_piece hget
      by_cases hlong : 1 < p.length
      · exact hcopies before p after hsplit hlong j b hj (by omega) hascii
      have hp : p ∈ name_pieces value := by
        rw [hsplit]
        simp
      exact hmade.short hp hlong b (mem_of_getElem? hj)

/-- A byte behind a lead byte is copied whatever it is. -/
theorem slash_copied :
    sanitize_filename [0xC3, 47] = [0xC3, 47] ∧ ¬ SafeName (sanitize_filename [0xC3, 47]) := by
  have hname : sanitize_filename [0xC3, 47] = [0xC3, 47] := by decide
  refine ⟨hname, fun hsafe => ?_⟩
  rw [hname] at hsafe
  exact absurd (hsafe.bytes 47 (by simp) (by decide)) (by decide)

end AtlasWebServer.FileNames
