/-
The first occurrence of a pattern in a list.

What is here is for patterns whose first element does not occur again in them. Such a
pattern cannot overlap itself, so its first occurrence in `text ++ pattern ++ rest` is the
one that is written there, if the text has none of its own (`find_first`); and as long as
only a part of it is there, it is not found (`find_short`). A text with an element that
the pattern does not have is searched in two halves (`infix_split_iff`, `find_split`). A
pattern that ends with an element of its own is found where that element is, behind the rest of
the pattern (`find_terminated`).

Nothing here names this repository.
-/
import Mathlib.Data.List.Infix

set_option autoImplicit false

namespace AtlasWebServer.Search

open List Option

variable {α : Type} [DecidableEq α]

/-- The first position at which the pattern occurs. -/
def find (pattern : List α) : List α → Option ℕ
  | [] => if pattern = [] then some 0 else none
  | a :: s => if pattern.isPrefixOf (a :: s) then some 0 else (find pattern s).map (· + 1)

variable {pattern s text t : List α} {i : ℕ} {c x : α}

theorem find_of_start (h : pattern <+: s) : find pattern s = some 0 := by
  cases s with
  | nil => exact if_pos (prefix_nil.mp h)
  | cons a s => exact if_pos <| isPrefixOf_iff_prefix.mpr h

theorem find_of_not_start {a : α} (h : ¬ pattern <+: a :: s) :
    find pattern (a :: s) = (find pattern s).map (· + 1) :=
  if_neg fun hstart => h (List.isPrefixOf_iff_prefix.mp hstart)

theorem find_eq_none_iff (pattern s : List α) : find pattern s = none ↔ ¬ pattern <:+: s := by
  induction s with
  | nil =>
    rw [infix_nil, find]
    split <;> simp_all
  | cons a s ih =>
    rw [infix_cons_iff, not_or]
    by_cases hstart : pattern <+: a :: s
    · rw [find_of_start hstart]
      simp [hstart]
    · rw [find_of_not_start hstart, map_eq_none_iff, ih]
      simp [hstart]

theorem find_le (h : find pattern s = some i) : i + pattern.length ≤ s.length := by
  induction s generalizing i with
  | nil =>
    rw [find] at h
    split_ifs at h with hnil
    rw [← some.inj h, hnil]
    rfl
  | cons a s ih =>
    by_cases hstart : pattern <+: a :: s
    · rw [find_of_start hstart] at h
      rw [← some.inj h, Nat.zero_add]
      exact hstart.length_le
    rw [find_of_not_start hstart] at h
    obtain ⟨j, hj, rfl⟩ := map_eq_some_iff.mp h
    have := ih hj
    rw [length_cons]
    omega

theorem find_append (h : find pattern s = some i) (t : List α) :
    find pattern (s ++ t) = some i := by
  induction s generalizing i with
  | nil =>
    rw [find] at h
    split_ifs at h with hnil
    rw [← some.inj h, hnil]
    exact find_of_start nil_prefix
  | cons a s ih =>
    by_cases hstart : pattern <+: a :: s
    · rw [find_of_start hstart] at h
      rw [← h]
      exact find_of_start (hstart.trans (prefix_append _ _))
    have hlater : find pattern (a :: s) = (find pattern s).map (· + 1) :=
      find_of_not_start hstart
    rw [hlater] at h
    obtain ⟨j, hj, rfl⟩ := map_eq_some_iff.mp h
    have hend := find_le hj
    have hstart' : ¬ pattern <+: a :: (s ++ t) := by
      intro hlong
      -- the pattern fits into `s`, so it would have started there
      refine hstart (prefix_of_prefix_length_le hlong ⟨t, rfl⟩ ?_)
      rw [length_cons]
      omega
    rw [cons_append, find_of_not_start hstart', ih hj]
    rfl

theorem find_drop (h : ¬ pattern <:+: s) {k : ℕ} (hk : k + pattern.length ≤ s.length) :
    find pattern (s ++ t) = (find pattern ((s ++ t).drop k)).map (· + k) := by
  induction k generalizing s with
  | zero => simp
  | succ k ih =>
    cases s with
    | nil => simp at hk
    | cons a s =>
      rw [length_cons] at hk
      rw [infix_cons_iff, not_or] at h
      have hstart : ¬ pattern <+: a :: (s ++ t) := by
        intro hlong
        refine h.1 (prefix_of_prefix_length_le hlong ⟨t, rfl⟩ ?_)
        rw [length_cons]
        omega
      rw [cons_append, find_of_not_start hstart, ih h.2 (by omega), drop_succ_cons,
        Option.map_map]
      rfl

theorem find_first (hc : c ∉ pattern) (htext : ¬ c :: pattern <:+: text) (rest : List α) :
    find (c :: pattern) (text ++ (c :: pattern ++ rest)) = some text.length := by
  induction text with
  | nil => exact find_of_start (prefix_append _ _)
  | cons a text ih =>
    rw [infix_cons_iff, not_or] at htext
    have hstart : ¬ c :: pattern <+: a :: (text ++ (c :: pattern ++ rest)) := by
      intro hlong
      obtain ⟨rfl, htail⟩ := cons_prefix_cons.mp hlong
      by_cases hshort : pattern.length ≤ text.length
      · apply htext.1
        rw [cons_prefix_cons]
        exact ⟨rfl, prefix_of_prefix_length_le htail (prefix_append _ _) hshort⟩
      -- the start of the written pattern lies inside the other one
      apply hc
      have hover : text <+: pattern :=
        prefix_of_prefix_length_le (prefix_append _ _) htail (by omega)
      obtain ⟨u, rfl⟩ := hover
      rw [prefix_append_right_inj] at htail
      cases u with
      | nil =>
        rw [append_nil] at hshort
        exact absurd (le_refl _) hshort
      | cons b u =>
        obtain ⟨rfl, -⟩ := cons_prefix_cons.mp htail
        exact mem_append_right _ (mem_cons_self)
    rw [cons_append, find_of_not_start hstart, ih htext.2]
    rfl

theorem find_short (hc : c ∉ pattern) {rest buffer : List α} (htext : ¬ c :: pattern <:+: text)
    (hbuffer : buffer <+: text ++ (c :: pattern ++ rest))
    (hshort : buffer.length < text.length + (c :: pattern).length) :
    find (c :: pattern) buffer = none := by
  cases hfind : find (c :: pattern) buffer with
  | none => rfl
  | some i =>
    obtain ⟨t, ht⟩ := hbuffer
    have hfirst := find_first hc htext rest
    rw [← ht, find_append hfind t] at hfirst
    have hend := find_le hfind
    rw [some.inj hfirst] at hend
    omega

theorem find_element (htext : c ∉ text) (rest : List α) :
    find [c] (text ++ c :: rest) = some text.length := by
  have hinfix : ¬ [c] <:+: text := fun h => htext (h.subset (mem_singleton_self c))
  exact find_first (not_mem_nil) hinfix rest

theorem find_element_eq (h : find [c] s = some i) :
    s = s.take i ++ c :: s.drop (i + 1) ∧ c ∉ s.take i := by
  have hmem : c ∈ s := by
    by_contra hnone
    have hfind : find [c] s = none := by
      rw [find_eq_none_iff]
      exact fun hfound => hnone (hfound.subset (mem_singleton_self c))
    rw [hfind] at h
    contradiction
  obtain ⟨before, after, rfl, hbefore⟩ := eq_append_cons_of_mem hmem
  rw [find_element hbefore] at h
  rw [← some.inj h, take_left, drop_length_add_append, drop_succ_cons, drop_zero]
  exact ⟨rfl, hbefore⟩

omit [DecidableEq α] in
theorem start_of_not_mem (hx : x ∉ pattern) (h : pattern <+: s ++ x :: t) : pattern <+: s := by
  by_cases hlen : pattern.length ≤ s.length
  · exact prefix_of_prefix_length_le h (prefix_append s (x :: t)) hlen
  have hover : s ++ [x] <+: pattern := by
    refine prefix_of_prefix_length_le ⟨t, by simp⟩ h ?_
    rw [length_append, length_singleton]
    omega
  exact absurd (hover.subset (by simp)) hx

theorem find_split (hne : pattern ≠ []) (hx : x ∉ pattern) (t : List α) :
    find pattern (s ++ x :: t) =
      (find pattern s).or ((find pattern t).map (· + (s.length + 1))) := by
  induction s with
  | nil =>
    have hstart : ¬ pattern <+: [] ++ x :: t := fun h =>
      hne (prefix_nil.mp (start_of_not_mem hx h))
    rw [nil_append, find_of_not_start hstart, find, if_neg hne]
    rfl
  | cons a s ih =>
    by_cases hstart : pattern <+: a :: s
    · rw [find_of_start hstart]
      exact find_of_start (hstart.trans (prefix_append _ _))
    have hlong : ¬ pattern <+: a :: (s ++ x :: t) := fun h =>
      hstart (start_of_not_mem (s := a :: s) hx h)
    rw [cons_append, find_of_not_start hlong, find_of_not_start hstart, ih]
    cases find pattern s <;> simp [Function.comp_def, Nat.add_assoc]

theorem infix_split_iff (hne : pattern ≠ []) (hx : x ∉ pattern) :
    pattern <:+: s ++ x :: t ↔ pattern <:+: s ∨ pattern <:+: t := by
  rw [← not_iff_not, not_or, ← find_eq_none_iff, ← find_eq_none_iff, ← find_eq_none_iff,
    find_split hne hx, or_eq_none_iff, map_eq_none_iff]

theorem find_terminated {key : List α} (hkey : c ∉ key) (hs : c ∉ s) (t : List α) :
    find (key ++ [c]) (s ++ c :: t) =
      if key <:+ s then some (s.length - key.length)
      else (find (key ++ [c]) t).map (· + (s.length + 1)) := by
  induction s with
  | nil =>
    by_cases hnil : key = []
    · rw [if_pos (suffix_nil.mpr hnil), hnil]
      exact find_of_start (prefix_append [c] t)
    rw [if_neg fun h => hnil (suffix_nil.mp h)]
    apply find_of_not_start
    intro h
    exact hnil (prefix_nil.mp (start_of_not_mem hkey ((prefix_append key [c]).trans h)))
  | cons a s ih =>
    have hrest : c ∉ s := fun h => hs (mem_cons_of_mem a h)
    by_cases hwhole : key = a :: s
    · -- the pattern starts here
      rw [if_pos (hwhole ▸ suffix_refl _), hwhole, Nat.sub_self]
      apply find_of_start
      exact ⟨t, by simp⟩
    have hstart : ¬ key ++ [c] <+: a :: (s ++ c :: t) := by
      intro h
      -- `c` ends both the key and `a :: s`
      have hfirst : key <+: a :: s :=
        start_of_not_mem (s := a :: s) hkey ((prefix_append key [c]).trans h)
      obtain ⟨u, hu⟩ := h
      have hback : a :: s <+: key := by
        apply start_of_not_mem hs (t := u)
        exact ⟨c :: t, by rw [cons_append, ← hu, ← append_cons]⟩
      exact hwhole (hfirst.eq_of_length_le hback.length_le)
    have hsuffix : key <:+ a :: s ↔ key <:+ s := by
      rw [suffix_cons_iff]
      exact or_iff_right hwhole
    rw [cons_append, find_of_not_start hstart, ih hrest]
    by_cases hend : key <:+ s
    · rw [if_pos hend, if_pos (hsuffix.mpr hend)]
      have hle := hend.length_le
      rw [Option.map_some, length_cons, Nat.succ_sub hle]
    · rw [if_neg hend, if_neg (fun h => hend (hsuffix.mp h)), Option.map_map]
      rfl

end AtlasWebServer.Search
