/-
What a `Transfer-Encoding` line says.

The list of codings is scanned by hand: separators are skipped, the end of a token is found and
the blanks before it are cut off. That is splitting at the commas (`chunked_exactly`).
-/
import AtlasWebServer.FormDecoding
import AtlasWebServer.HttpChunks

set_option autoImplicit false

namespace AtlasWebServer.TransferCoding

open Bytes CString Http Forms List

/-! ## The list of codings -/

/-- An element without the blanks around it. -/
def stripped (element : Bytes) : Bytes :=
  ((element.dropWhile (· ∈ blank)).reverse.dropWhile (· ∈ blank)).reverse

/-- One of the elements between commas is `chunked`. -/
def NamesChunked (text : Bytes) : Prop :=
  ∃ element ∈ text.splitOn 44, lowercase (stripped element) = lit "chunked"

theorem not_namesChunked_nil : ¬ NamesChunked [] := by
  unfold NamesChunked
  decide

theorem namesChunked_cons {b : UInt8} (hb : b = 32 ∨ b = 9 ∨ b = 44) (text : Bytes) :
    NamesChunked (b :: text) ↔ NamesChunked text := by
  unfold NamesChunked
  by_cases hcomma : b = 44
  · rw [hcomma, ← nil_append (44 :: text), splitOn_append_cons not_mem_nil, exists_mem_cons_iff]
    exact or_iff_right (by decide)
  -- the blank belongs to the first element
  obtain ⟨first, elements, hsplit⟩ := exists_cons_of_ne_nil (splitOn_ne_nil 44 text)
  have hblank : b ∈ blank := by
    rcases hb with rfl | rfl | rfl <;> simp_all [blank]
  have hcons : (b :: text).splitOn 44 = (b :: first) :: elements := by
    rw [splitOn, splitOnP_cons_eq_if_modifyHead, if_neg (by simpa using hcomma)]
    exact congrArg (modifyHead (cons b)) hsplit
  have hfirst : stripped (b :: first) = stripped first := by
    rw [stripped, dropWhile_cons_of_pos (by simpa using hblank)]
    rfl
  rw [hcons, hsplit, exists_mem_cons_iff, exists_mem_cons_iff, hfirst]

theorem namesChunked_dropWhile (text : Bytes) :
    NamesChunked (text.dropWhile fun b => b = 32 ∨ b = 9 ∨ b = 44) ↔ NamesChunked text := by
  induction text with
  | nil => exact Iff.rfl
  | cons b text ih =>
    by_cases hb : b = 32 ∨ b = 9 ∨ b = 44
    · rw [dropWhile_cons_of_pos (by simpa using hb), ih, namesChunked_cons hb]
    · rw [dropWhile_cons_of_neg (by simpa using hb)]

theorem namesChunked_token (cursor : Bytes) :
    NamesChunked cursor ↔ lowercase (stripped (cursor.takeWhile (· ≠ 44))) = lit "chunked" ∨
      NamesChunked (cursor.drop (cursor.takeWhile (· ≠ 44)).length) := by
  have hsplit := takeWhile_append_dropWhile (p := (· ≠ (44 : UInt8))) (l := cursor)
  have hcomma : 44 ∉ cursor.takeWhile (· ≠ 44) := fun h => by simpa using mem_takeWhile_imp h
  generalize htoken : cursor.takeWhile (· ≠ 44) = token at hsplit hcomma ⊢
  have hrest := congrArg (drop token.length) hsplit
  rw [drop_left] at hrest
  rw [← hrest]
  have hhead := head?_dropWhile_not (· ≠ (44 : UInt8)) cursor
  cases hdrop : cursor.dropWhile (· ≠ 44) with
  | nil =>
    rw [hdrop, append_nil] at hsplit
    rw [← hsplit, or_iff_left not_namesChunked_nil, NamesChunked, splitOn_of_not_mem hcomma]
    simp
  | cons b rest =>
    rw [hdrop] at hsplit hhead
    obtain rfl : b = 44 := by simpa using hhead
    rw [← hsplit, namesChunked_cons (by simp), NamesChunked, splitOn_append_cons hcomma,
      exists_mem_cons_iff]
    rfl

theorem token_test {token : Bytes} (hhead : ∀ b ∈ token.head?, b ∉ blank) :
    ((token.reverse.dropWhile (· ∈ blank)).reverse.length = 7 ∧
        strncasecmp (token.reverse.dropWhile (· ∈ blank)).reverse (lit "chunked") = true) ↔
      lowercase (stripped token) = lit "chunked" := by
  have hfront : token.dropWhile (· ∈ blank) = token := by
    cases token with
    | nil => rfl
    | cons b token => exact dropWhile_cons_of_neg (by simpa using hhead b rfl)
  unfold stripped strncasecmp
  rw [hfront]
  generalize (token.reverse.dropWhile (· ∈ blank)).reverse = trimmed
  have hseven : (lit "chunked").length = 7 := by decide
  have hlower : lowercase (lit "chunked") = lit "chunked" := by decide
  rw [hseven, hlower, decide_eq_true_eq]
  constructor
  · rintro ⟨hlength, heq⟩
    rwa [take_of_length_le hlength.le] at heq
  · intro heq
    have hlength := congrArg length heq
    rw [lowercase, length_map, hseven] at hlength
    exact ⟨hlength, by rwa [take_of_length_le hlength.le]⟩

theorem pass_shorter (b : UInt8) (text : Bytes) :
    let cursor := (b :: text).dropWhile fun b => b = 32 ∨ b = 9 ∨ b = 44
    (cursor.drop (cursor.takeWhile (· ≠ 44)).length).length ≤ text.length := by
  dsimp only
  rw [length_drop]
  by_cases hb : b = 32 ∨ b = 9 ∨ b = 44
  · rw [dropWhile_cons_of_pos (by simpa using hb)]
    exact (Nat.sub_le _ _).trans (dropWhile_suffix _).length_le
  · have hcomma : b ≠ 44 := fun h => hb (.inr (.inr h))
    rw [dropWhile_cons_of_neg (by simpa using hb), takeWhile_cons_of_pos (by simpa using hcomma),
      length_cons, length_cons]
    omega

theorem chunked_loop_spec {fuel : ℕ} {text : Bytes} (hfuel : text.length ≤ fuel) :
    ∃ found, chunked_loop fuel text = some found ∧ (found = true ↔ NamesChunked text) := by
  induction fuel generalizing text with
  | zero =>
    obtain rfl := length_eq_zero_iff.mp (Nat.le_zero.mp hfuel)
    exact ⟨false, rfl, iff_of_false Bool.false_ne_true not_namesChunked_nil⟩
  | succ fuel ih =>
    cases text with
    | nil => exact ⟨false, rfl, iff_of_false Bool.false_ne_true not_namesChunked_nil⟩
    | cons b text =>
      have hshorter := pass_shorter b text
      have hhead := head?_dropWhile_not (fun b => b = 32 ∨ b = 9 ∨ b = (44 : UInt8)) (b :: text)
      rw [← namesChunked_dropWhile, namesChunked_token]
      unfold chunked_loop
      dsimp only at hshorter ⊢
      generalize (b :: text).dropWhile (fun b => b = 32 ∨ b = 9 ∨ b = 44) = cursor
        at hshorter hhead ⊢
      rw [← token_test]
      · split_ifs with htest
        · exact ⟨true, rfl, iff_of_true rfl (.inl htest)⟩
        · rw [or_iff_right htest]
          exact ih (by rw [length_cons] at hfuel; omega)
      · -- the separators are behind
        cases cursor with
        | nil => simp
        | cons a cursor =>
          simp only [head?_cons, decide_eq_false_iff_not, not_or] at hhead
          simp [hhead, blank]

/-- **Codings are found exactly**: the scan is splitting at the commas. It ends after at most one
pass for every byte. -/
theorem chunked_exactly (text : Bytes) :
    (∀ fuel ≥ text.length,
      chunked_loop fuel text = some (contains_chunked_transfer_encoding text)) ∧
      (contains_chunked_transfer_encoding text = true ↔ NamesChunked text) := by
  obtain ⟨found, hloop, hfound⟩ := chunked_loop_spec (le_refl text.length)
  have hcontains : contains_chunked_transfer_encoding text = found := by
    rw [contains_chunked_transfer_encoding, hloop, Option.getD_some]
  rw [hcontains]
  refine ⟨fun fuel hfuel => ?_, hfound⟩
  obtain ⟨found', hloop', hfound'⟩ := chunked_loop_spec hfuel
  rw [hloop', Option.some.injEq, Bool.eq_iff_iff, hfound', hfound]

end AtlasWebServer.TransferCoding
