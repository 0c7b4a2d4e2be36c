/-
Framing and the header map.

`parse_headers` reads each line twice: trimmed and in lower case into `m_headers`, and by
`strncasecmp` on the text as it is into `m_chunked` and `m_content_length`. What either
makes of the lines of a head is said by `FramedBy`; the two agree exactly if the lines do
(`framing_agrees_iff`). They need not: a blank before the colon hides a `Content-Length`
from the second reading only, and of two `Transfer-Encoding` lines the first reading keeps
the last one and the second any that says chunked.
-/
import AtlasWebServer.HttpHeadReads

set_option autoImplicit false

namespace AtlasWebServer.Http

open Bytes CString List Option

/-! ## What one line says -/

/-- The line is spelled `Transfer-Encoding:` and says chunked. -/
def spelled_chunked (text : Bytes) : Bool :=
  strncasecmp text (lit "Transfer-Encoding:") &&
    contains_chunked_transfer_encoding (after_blanks text 18)

/-- The length in a line that is spelled `Content-Length:`. -/
def spelled_length (text : Bytes) : Option ℤ :=
  if strncasecmp text (lit "Content-length:") then some (atol (after_blanks text 15)) else none

/-- What the line enters in `m_headers` under a name. -/
def entry (name text : Bytes) : Option Bytes := (record_header [] text).lookup name

theorem lookup_record (headers : List (Bytes × Bytes)) (name text : Bytes) :
    (record_header headers text).lookup name = (entry name text).or (headers.lookup name) := by
  unfold entry record_header
  split
  · simp
  dsimp only
  split_ifs
  · simp
  · rw [set_header, set_header, lookup_cons_filter, lookup_cons_filter, lookup_cons, lookup_cons]
    split <;> simp

theorem strncasecmp_unlike {text a b : Bytes} (n : ℕ) (ha : n ≤ a.length) (hb : n ≤ b.length)
    (hne : lowercase (a.take n) ≠ lowercase (b.take n)) (h : strncasecmp text a = true) :
    strncasecmp text b = false := by
  have hfirst : ∀ t : Bytes, n ≤ t.length → strncasecmp text t = true →
      lowercase (text.take n) = lowercase (t.take n) := by
    intro t ht heq
    have htake := congrArg (List.take n) (of_decide_eq_true heq)
    simpa only [lowercase, ← map_take, take_take, Nat.min_eq_left ht] using htake
  rw [Bool.eq_false_iff]
  exact fun h' => hne ((hfirst a ha h).symm.trans (hfirst b hb h'))

theorem parse_header_line_framing (h : Head) (pos : ℕ) (text : Bytes) :
    (parse_header_line h pos text).1.m_headers = record_header h.m_headers text ∧
      (parse_header_line h pos text).1.m_chunked = (h.m_chunked || spelled_chunked text) ∧
      (parse_header_line h pos text).1.m_content_length_seen
        = ((spelled_length text).isSome || h.m_content_length_seen) ∧
      (parse_header_line h pos text).1.m_content_length
        = (spelled_length text).getD h.m_content_length := by
  -- the names exclude each other
  have hlength : strncasecmp text (lit "Connection:") = true →
      strncasecmp text (lit "Content-length:") = false :=
    strncasecmp_unlike 4 (by decide) (by decide) (by decide)
  have hchunked : ∀ name : Bytes, name ≠ [] → tolower (name.headD 0) ≠ 116 →
      strncasecmp text name = true → strncasecmp text (lit "Transfer-Encoding:") = false := by
    intro name hname hhead
    refine strncasecmp_unlike 1 (length_pos_iff.mpr hname) (by decide) ?_
    cases name with
    | nil => exact absurd rfl hname
    | cons b name => exact fun heq => hhead (head_eq_of_cons_eq heq)
  unfold parse_header_line spelled_chunked spelled_length
  dsimp only
  by_cases hc : strncasecmp text (lit "Connection:") = true
  · rw [if_pos hc, hlength hc, if_neg Bool.false_ne_true, hchunked _ (by decide) (by decide) hc]
    split_ifs <;> simp
  rw [if_neg hc]
  by_cases hl : strncasecmp text (lit "Content-length:") = true
  · simp [hl, hchunked _ (by decide) (by decide) hl]
  by_cases hh : strncasecmp text (lit "Host:") = true
  · simp [hl, hh, hchunked _ (by decide) (by decide) hh]
  by_cases ht : strncasecmp text (lit "Content-Type:") = true
  · simp [hl, hh, ht, hchunked _ (by decide) (by decide) ht]
  by_cases he : strncasecmp text (lit "Transfer-Encoding:") = true
  · simp [hl, hh, ht, he]
  · rw [if_neg hl, if_neg hh, if_neg ht, if_neg he, Bool.eq_false_iff.mpr he]
    split_ifs <;> simp

/-! ## What the lines of a head say -/

/-- The fields are what the lines say: the map has the last entry of a name. -/
structure FramedBy (lines : List Bytes) (h : Head) : Prop where
  headers : ∀ name, h.m_headers.lookup name = (lines.filterMap (entry name)).getLast?
  chunked : h.m_chunked = lines.any spelled_chunked
  seen : h.m_content_length_seen = (lines.filterMap spelled_length).getLast?.isSome
  length : h.m_content_length = (lines.filterMap spelled_length).getLast?.getD 0

theorem getLast?_filterMap_concat {α β : Type} (f : α → Option β) (xs : List α) (x : α) :
    ((xs ++ [x]).filterMap f).getLast? = (f x).or (xs.filterMap f).getLast? := by
  cases h : f x <;> simp [h]

theorem FramedBy.line {lines : List Bytes} {h : Head} (hf : FramedBy lines h) (pos : ℕ)
    (text : Bytes) : FramedBy (lines ++ [text]) (parse_header_line h pos text).1 := by
  obtain ⟨hheaders, hchunked, hseen, hlength⟩ := parse_header_line_framing h pos text
  refine ⟨fun name => ?_, ?_, ?_, ?_⟩
  · rw [hheaders, lookup_record, hf.headers, getLast?_filterMap_concat]
  · rw [hchunked, hf.chunked]
    simp
  · rw [hseen, hf.seen, getLast?_filterMap_concat, isSome_or]
  · rw [hlength, hf.length, getLast?_filterMap_concat]
    cases spelled_length text <;> simp

theorem request_line_framing (text : Bytes) : FramedBy [] (request_line Head.init text).1 := by
  unfold request_line absolute_of target_of
  dsimp only
  split_ifs <;> (repeat' split) <;> exact ⟨fun _ => rfl, rfl, rfl, rfl⟩

def texts (lines : List Bytes) : List Bytes := lines.map fun l => l.takeWhile (· ≠ 0)

theorem head_run_framed (lines : List Bytes) (hlines : ∀ l ∈ lines, IsLine l) {before : List Bytes}
    {h h' : Head} {pos p : ℕ} (hf : FramedBy before h)
    (hrun : head_run h .HEADER pos (lines_text lines ++ CRLF) = .complete h' p) :
    FramedBy (before ++ texts lines) h' := by
  -- on the lines to come; `before` are those that were read
  induction lines generalizing before h pos with
  | nil =>
    obtain ⟨rfl, -⟩ := hrun
    simpa [texts] using hf
  | cons l lines ih =>
    rw [show lines_text (l :: lines) ++ CRLF = l ++ CRLF ++ (lines_text lines ++ CRLF) by
      simp [lines_text]] at hrun
    obtain ⟨h₁, hline, hrest⟩ := head_run_line (hlines l mem_cons_self) hrun
    have hparse : parse_header_line h pos (l.takeWhile (· ≠ 0)) = (h₁, .NO_REQUEST) :=
      (head_line_inl hline).elim (fun hst => absurd hst.1 (by decide)) And.right
    have hstep := hf.line pos (l.takeWhile (· ≠ 0))
    rw [hparse] at hstep
    have hgo := ih (fun l hl => hlines l (mem_cons_of_mem _ hl)) hstep hrest
    simpa [texts] using hgo

theorem head_after_framed {first : Bytes} {lines : List Bytes} (hfirst : IsLine first)
    (hlines : ∀ l ∈ lines, IsLine l) {h : Head} {p : ℕ}
    (hrun : head_after (lines_text (first :: lines) ++ CRLF) = .complete h p) :
    FramedBy (texts lines) h := by
  rw [show lines_text (first :: lines) ++ CRLF = first ++ CRLF ++ (lines_text lines ++ CRLF) by
    simp [lines_text]] at hrun
  obtain ⟨h₁, hline, hrest⟩ := head_run_line hfirst hrun
  have hparse : request_line Head.init (first.takeWhile (· ≠ 0)) = (h₁, .code .NO_REQUEST) :=
    (head_line_inl hline).elim And.right (fun hst => absurd rfl hst.1)
  have hf := request_line_framing (first.takeWhile (· ≠ 0))
  rw [hparse] at hf
  exact head_run_framed lines hlines hf hrest

/-! ## The two readings -/

/-- **Framing and header map agree.** -/
structure FramingAgrees (h : Head) : Prop where
  chunked : ((h.m_headers.lookup (lit "transfer-encoding")).any contains_chunked_transfer_encoding
    = true) ↔ h.m_chunked = true
  seen : (h.m_headers.lookup (lit "content-length")).isSome = true ↔ h.m_content_length_seen = true
  length : ∀ value, h.m_headers.lookup (lit "content-length") = some value →
    h.m_content_length = atol value
  both : (h.m_headers.lookup (lit "transfer-encoding")).any contains_chunked_transfer_encoding
      = true → (h.m_headers.lookup (lit "content-length")).isSome = true →
    ∀ env byte b, (blank_line env h byte b).2 = .BAD_REQUEST

/-- The lines read either way say the same: the last entry for `transfer-encoding` says
chunked if any line spelled so does, and the last entry for `content-length` has the length
of the last line spelled so. -/
structure LinesAgree (lines : List Bytes) : Prop where
  chunked : ((lines.filterMap (entry (lit "transfer-encoding"))).getLast?.any
    contains_chunked_transfer_encoding = true) ↔ lines.any spelled_chunked = true
  length : (lines.filterMap (entry (lit "content-length"))).getLast?.map atol
    = (lines.filterMap spelled_length).getLast?

/-- **A head that is accepted is framed as its header map says** exactly if its lines read
either way say the same. -/
theorem framing_agrees_iff {first : Bytes} {lines : List Bytes} (hfirst : IsLine first)
    (hlines : ∀ l ∈ lines, IsLine l) {h : Head} {p : ℕ}
    (hrun : head_after (lines_text (first :: lines) ++ CRLF) = .complete h p) :
    FramingAgrees h ↔ LinesAgree (texts lines) := by
  have hf := head_after_framed hfirst hlines hrun
  constructor
  · intro ha
    refine ⟨?_, ?_⟩
    · rw [← hf.headers, ← hf.chunked]
      exact ha.chunked
    have hseen := ha.seen
    have hlength := ha.length
    rw [hf.headers, hf.seen] at hseen
    rw [hf.headers, hf.length] at hlength
    cases hlast : ((texts lines).filterMap spelled_length).getLast? with
    | none => simp_all
    | some n =>
      rw [hlast] at hseen
      obtain ⟨value, hvalue⟩ := isSome_iff_exists.mp (hseen.mpr rfl)
      rw [hvalue, map_some, ← hlength value hvalue, hlast, getD_some]
  · intro ha
    have hchunked : (h.m_headers.lookup (lit "transfer-encoding")).any
        contains_chunked_transfer_encoding = true ↔ h.m_chunked = true := by
      rw [hf.headers, hf.chunked]
      exact ha.chunked
    have hseen : (h.m_headers.lookup (lit "content-length")).isSome = true ↔
        h.m_content_length_seen = true := by
      rw [hf.headers, hf.seen, ← ha.length, isSome_map]
    refine ⟨hchunked, hseen, ?_, ?_⟩
    · intro value hvalue
      rw [hf.headers] at hvalue
      rw [hf.length, ← ha.length, hvalue, map_some, getD_some]
    · intro hc hl env byte b
      unfold blank_line
      simp [hchunked.mp hc, hseen.mp hl]

theorem isLine_of_no_cr {l : Bytes} (h : l.head? ≠ none ∧ l.head? ≠ some 0 ∧ CR ∉ l) : IsLine l :=
  ⟨h.1, h.2.1, fun _ hi => h.2.2 (List.mem_of_getElem? hi.1)⟩

def head_with (line : Bytes) : Bytes :=
  lines_text [lit "POST / HTTP/1.1", lit "Host: a", line] ++ CRLF

theorem length_line_agrees :
    FramingAgrees (head_after (head_with (lit "content-LENGTH: 5"))).head ∧
      (head_after (head_with (lit "content-LENGTH: 5"))).head.m_content_length = 5 := by
  have hlines : ∀ l ∈ [lit "Host: a", lit "content-LENGTH: 5"], IsLine l := by
    simp only [forall_mem_cons, not_mem_nil, false_implies, implies_true, and_true]
    exact ⟨isLine_of_no_cr (by decide), isLine_of_no_cr (by decide)⟩
  have hrun : head_after (head_with (lit "content-LENGTH: 5"))
      = .complete (head_after (head_with (lit "content-LENGTH: 5"))).head 47 := rfl
  exact ⟨(framing_agrees_iff (isLine_of_no_cr (by decide)) hlines hrun).mpr
    ⟨by decide +kernel, by decide +kernel⟩, by decide +kernel⟩

/-- **A blank before the colon** hides the length: the map has it, and the request is framed
as one without a body. -/
theorem blank_before_colon_disagrees :
    head_after (head_with (lit "Content-Length : 5"))
        = .complete (head_after (head_with (lit "Content-Length : 5"))).head 48 ∧
      (head_after (head_with (lit "Content-Length : 5"))).head.m_headers.lookup
        (lit "content-length") = some (lit "5") ∧
      ¬ FramingAgrees (head_after (head_with (lit "Content-Length : 5"))).head := by
  refine ⟨rfl, by decide +kernel, fun h => ?_⟩
  exact absurd h.seen (by decide +kernel)

end AtlasWebServer.Http
