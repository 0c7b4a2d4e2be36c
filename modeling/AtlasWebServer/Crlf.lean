/-
Texts whose lines end in CRLF.

`split_crlf` cuts a text at every CRLF and `unlines` ends every line with one. A text
that is cut and joined again is itself (`unlines_split`), and a text that is joined from
lines without a CRLF is cut into them (`split_unlines`). A lone CR or LF ends no line, also
when the text before a CRLF ends in a CR.

A head is the lines up to the first empty one.

Nothing here names this repository.
-/
import AtlasWebServer.Bytes

set_option autoImplicit false

namespace AtlasWebServer.Crlf

open Bytes List

def crlf : Bytes := [13, 10]

/-- The pieces of a text between its line endings. -/
def split_crlf : Bytes → List Bytes
  | [] => [[]]
  | 13 :: 10 :: s => [] :: split_crlf s
  | b :: s => (split_crlf s).modifyHead (b :: ·)

def unlines (lines : List Bytes) : Bytes := lines.flatMap (· ++ crlf)

def OneLine (s : Bytes) : Prop := split_crlf s = [s]

instance (s : Bytes) : Decidable (OneLine s) := inferInstanceAs (Decidable (_ = _))

variable {s t : Bytes}

variable {b : UInt8} {lines : List Bytes}

theorem split_cons_of_ne (h : ∀ t, ¬ (b = 13 ∧ s = 10 :: t)) :
    split_crlf (b :: s) = (split_crlf s).modifyHead (b :: ·) := by
  rw [split_crlf]
  rintro t rfl rfl
  exact h t ⟨rfl, rfl⟩

theorem split_ne_nil (s : Bytes) : split_crlf s ≠ [] := by
  fun_induction split_crlf s with
  | case1 => simp
  | case2 s ih => simp
  | case3 b s hne ih =>
    intro hnil
    apply ih
    simpa [modifyHead_eq_nil_iff] using hnil

theorem split_append (s t : Bytes) :
    split_crlf (s ++ 13 :: 10 :: t) = split_crlf s ++ split_crlf t := by
  fun_induction split_crlf s with
  | case1 => rfl
  | case2 s ih =>
    rw [cons_append, cons_append, split_crlf, ih]
    rfl
  | case3 b s hne ih =>
    rw [cons_append, split_cons_of_ne, ih]
    · obtain ⟨first, rest, hsplit⟩ := exists_cons_of_ne_nil (split_ne_nil s)
      rw [hsplit]
      rfl
    -- the byte after `b` is one of `s`, or the CR of the line ending
    rintro t' ⟨rfl, htail⟩
    cases s with
    | nil => simp at htail
    | cons c s =>
      obtain ⟨rfl, -⟩ := List.cons.inj htail
      exact hne s rfl rfl

theorem split_plain_append (h : ∀ b ∈ s, b ≠ 13) (t : Bytes) :
    split_crlf (s ++ t) = (split_crlf t).modifyHead (s ++ ·) := by
  induction s with
  | nil =>
    obtain ⟨first, rest, hsplit⟩ := exists_cons_of_ne_nil (split_ne_nil t)
    rw [nil_append, hsplit]
    rfl
  | cons b s ih =>
    rw [cons_append, split_cons_of_ne, ih fun c hc => h c (mem_cons_of_mem b hc)]
    · obtain ⟨first, rest, hsplit⟩ := exists_cons_of_ne_nil (split_ne_nil t)
      rw [hsplit]
      rfl
    · rintro t' ⟨hb, -⟩
      exact h b mem_cons_self hb

theorem oneLine_of_plain (h : ∀ b ∈ s, b ≠ 13) : OneLine s := by
  have hsplit := split_plain_append h []
  rw [append_nil] at hsplit
  rw [OneLine, hsplit]
  simp [split_crlf]

theorem head_of_split {rest : List Bytes} (h : split_crlf s = (b :: t) :: rest) :
    ∃ s', s = b :: s' := by
  fun_cases split_crlf s with
  | case1 => simp [split_crlf] at h
  | case2 s => simp [split_crlf] at h
  | case3 c s hne =>
    obtain ⟨first, pieces, hsplit⟩ := exists_cons_of_ne_nil (split_ne_nil s)
    rw [split_crlf, hsplit] at h
    · simp only [modifyHead_cons, List.cons.injEq] at h
      exact ⟨s, by rw [h.1.1]⟩
    · exact hne

theorem oneLine_of_mem_split {line : Bytes} (h : line ∈ split_crlf s) : OneLine line := by
  fun_induction split_crlf s generalizing line with
  | case1 =>
    rw [mem_singleton] at h
    rw [h]
    rfl
  | case2 s ih =>
    rcases mem_cons.mp h with rfl | h
    · rfl
    · exact ih h
  | case3 b s hne ih =>
    obtain ⟨first, rest, hsplit⟩ := exists_cons_of_ne_nil (split_ne_nil s)
    rw [hsplit] at h ih
    rcases mem_cons.mp h with rfl | h
    · have hfirst : OneLine first := ih mem_cons_self
      rw [OneLine, split_cons_of_ne, hfirst]
      · rfl
      · rintro t ⟨rfl, rfl⟩
        obtain ⟨s', rfl⟩ := head_of_split hsplit
        exact hne s' rfl rfl
    · exact ih (mem_cons_of_mem first h)

/-! ## Lines -/

@[simp] theorem unlines_nil : unlines [] = [] := rfl

@[simp] theorem unlines_cons (line : Bytes) (lines : List Bytes) :
    unlines (line :: lines) = line ++ (crlf ++ unlines lines) := by
  rw [unlines, flatMap_cons, append_assoc, unlines]

@[simp] theorem unlines_append (lines lines' : List Bytes) :
    unlines (lines ++ lines') = unlines lines ++ unlines lines' :=
  List.flatMap_append

theorem unlines_split (s : Bytes) : unlines (split_crlf s) = s ++ crlf := by
  fun_induction split_crlf s with
  | case1 => rfl
  | case2 s ih =>
    rw [unlines_cons, ih]
    rfl
  | case3 b s hne ih =>
    obtain ⟨first, rest, hsplit⟩ := exists_cons_of_ne_nil (split_ne_nil s)
    rw [hsplit, unlines_cons] at ih
    rw [hsplit, modifyHead_cons, unlines_cons, cons_append, ih]
    rfl

theorem split_unlines (h : ∀ line ∈ lines, OneLine line) (s : Bytes) :
    split_crlf (unlines lines ++ s) = lines ++ split_crlf s := by
  induction lines with
  | nil => rfl
  | cons line lines ih =>
    have hline : split_crlf line = [line] := h line mem_cons_self
    have hrest := ih fun line' hmem => h line' (mem_cons_of_mem line hmem)
    rw [unlines_cons, append_assoc, append_assoc]
    refine (split_append line (unlines lines ++ s)).trans ?_
    rw [hline, hrest]
    rfl

/-! ## Heads -/

def HeadLines (lines : List Bytes) : Prop := ∀ line ∈ lines, line ≠ [] ∧ OneLine line

theorem takeWhile_lines (h : ∀ line ∈ lines, line ≠ []) (rest : List Bytes) :
    (lines ++ [] :: rest).takeWhile (· ≠ []) = lines := by
  rw [takeWhile_append_of_pos fun line hline => by simpa using h line hline,
    takeWhile_cons_of_neg (by simp), append_nil]

theorem split_at_empty (h : [] ∈ lines) :
    ∃ before after, lines = before ++ [] :: after ∧ ∀ line ∈ before, line ≠ [] := by
  induction lines with
  | nil => exact absurd h not_mem_nil
  | cons line lines ih =>
    by_cases hline : line = []
    · rw [hline]
      exact ⟨[], lines, rfl, fun _ hmem => absurd hmem not_mem_nil⟩
    have hmem : [] ∈ lines := (mem_cons.mp h).resolve_left fun heq => hline heq.symm
    obtain ⟨before, after, hsplit, hbefore⟩ := ih hmem
    refine ⟨line :: before, after, by rw [hsplit]; rfl, ?_⟩
    intro line' hline'
    rcases mem_cons.mp hline' with rfl | hline'
    · exact hline
    · exact hbefore line' hline'

end AtlasWebServer.Crlf
