/-
The framing of responses: a head with one `Content-Length` line and a body of that many
bytes, and no body in a response to `HEAD`.

`Framed` says it of the bytes on the wire, and a text has at most one head, so there is
no choice in it. `framed_lines_iff` reads it off the lines of a head, and the three kinds
of results follow. A response to `HEAD` has its body whenever it has one, since only a
file is special-cased. A content type with an empty line or a `Content-Length` of its own
after a CRLF moves the end of the head or its length. And the write ring ends at
2 ^ 30 bytes.

`Produced` is what the router hands over. Bodies are texts of the code and results of
`json_escape`, which leaves no NUL, so `%s` prints all of them.
-/
import AtlasWebServer.ResponseSplitting
import AtlasWebServer.RouterAuth

set_option autoImplicit false

namespace AtlasWebServer.Http

open Bytes CString RingBuffer Crlf List Option

variable {body download_name path : Bytes} {code : HttpCode} {response : HttpResponse}

open AtlasWebServer.Downloads

/-! ## Framing -/

def is_length (line : Bytes) : Bool := strncasecmp line (lit "Content-Length:")

/-- A head with one `Content-Length` line, of value `c`, and `c` bytes after it; for
`HEAD` none. -/
def Framed (method : Method) (bytes : Bytes) : Prop :=
  ∃ lines body, ∃ c : ℕ, bytes = unlines lines ++ crlf ++ body ∧ HeadLines lines ∧
    lines.filter is_length = [length_line c] ∧ body.length = if method = .HEAD then 0 else c

theorem is_length_length_line (n : ℤ) : is_length (length_line n) = true := by
  unfold is_length strncasecmp length_line
  rw [take_left, decide_eq_true_eq]

variable {start content_type title s : Bytes} {method : Method} {n status : ℤ} {extra : List Bytes}

theorem not_is_length (hlong : 9 ≤ start.length)
    (hother : lowercase (start.take 9) ≠ lit "content-l") (rest : Bytes) :
    is_length (start ++ rest) = false := by
  unfold is_length strncasecmp
  rw [decide_eq_false_iff_not]
  intro hsame
  apply hother
  have hlength : (lit "Content-Length:").length = 15 := by decide
  have htake := congrArg (List.take 9) hsame
  rw [hlength, lowercase, ← map_take, take_take, min_eq_left (by omega),
    take_append_of_le_length hlong] at htake
  rw [lowercase, htake]
  decide

/-- A line that can stand beside the `Content-Length` line. -/
def Other (line : Bytes) : Prop := line ≠ [] ∧ is_length line = false

instance (line : Bytes) : Decidable (Other line) := inferInstanceAs (Decidable (_ ∧ _))

theorem other_append (hlong : 9 ≤ start.length)
    (hother : lowercase (start.take 9) ≠ lit "content-l") (rest : Bytes) :
    Other (start ++ rest) := by
  refine ⟨?_, not_is_length hlong hother rest⟩
  intro hnil
  have hlength := congrArg List.length hnil
  rw [length_append, length_nil] at hlength
  omega

theorem other_status_line (status : ℤ) (title : Bytes) : Other (status_line status title) := by
  unfold status_line
  rw [append_assoc, append_assoc]
  exact other_append (by decide) (by decide) _

theorem other_connection_lines (linger : Bool) : ∀ line ∈ connection_lines linger, Other line := by
  cases linger <;> decide

theorem other_content_disposition (name : Bytes) : Other (content_disposition name) := by
  unfold content_disposition
  rw [append_assoc, append_assoc]
  exact other_append (by decide) (by decide) _

theorem framed_lines_iff {first : Bytes} {others : List Bytes}
    (hone : ∀ line ∈ first :: length_line n :: others, OneLine line) (hfirst : Other first)
    (hn : method ≠ .HEAD → n ≤ body.length) :
    Framed method (unlines (first :: length_line n :: others) ++ crlf ++ body) ↔
      (∀ line ∈ others, Other line) ∧ 0 ≤ n ∧
        (body.length : ℤ) = if method = .HEAD then 0 else n := by
  have hlength : length_line n ≠ [] := by
    intro hnil
    have hlong := congrArg List.length hnil
    rw [length_line, length_append] at hlong
    have hname : (lit "Content-Length:").length = 15 := by decide
    rw [hname, length_nil] at hlong
    omega
  constructor
  · rintro ⟨lines, rest, c, hbytes, hlines, hfilter, hrest⟩
    -- the lines of the head are those before the first empty one
    have hsplit := congrArg split_crlf hbytes
    rw [append_assoc, split_unlines hone, append_assoc,
      split_unlines fun line hline => (hlines line hline).2] at hsplit
    have hhead := congrArg (takeWhile (· ≠ [])) hsplit
    rw [show split_crlf (crlf ++ rest) = [] :: split_crlf rest from rfl,
      takeWhile_lines fun line hline => (hlines line hline).1, cons_append, cons_append,
      takeWhile_cons_of_pos (by simpa using hfirst.1),
      takeWhile_cons_of_pos (by simpa using hlength)] at hhead
    rw [← hhead, filter_cons_of_neg (by simp [hfirst.2]),
      filter_cons_of_pos (is_length_length_line n)] at hfilter
    obtain ⟨hvalue, hnone⟩ := List.cons.inj hfilter
    have hc : n = c := to_string_injective (append_cancel_left hvalue)
    have hlengths := congrArg List.length hbytes
    rw [← hhead] at hlengths
    by_cases hempty : [] ∈ others
    · -- an early end: what follows is longer than the length says
      exfalso
      obtain ⟨before, after, rfl, hbefore⟩ := split_at_empty hempty
      have hearly : (before ++ [] :: after ++ split_crlf (crlf ++ body)).takeWhile (· ≠ []) =
          before := by
        rw [append_assoc, cons_append]
        exact takeWhile_lines hbefore _
      rw [hearly] at hlengths
      have hcrlf : crlf.length = 2 := rfl
      simp only [unlines_cons, unlines_append, length_append, length_nil, hcrlf]
        at hlengths
      by_cases hmethod : method = .HEAD
      · rw [if_pos hmethod] at hrest
        omega
      · rw [if_neg hmethod] at hrest
        have hbody := hn hmethod
        omega
    · have hwhole : (others ++ split_crlf (crlf ++ body)).takeWhile (· ≠ []) = others := by
        rw [takeWhile_append_of_pos fun line hline => by
          simpa using fun heq : line = [] => hempty (heq ▸ hline)]
        simp [crlf, split_crlf]
      rw [hwhole] at hnone hlengths
      simp only [unlines_cons, length_append] at hlengths
      refine ⟨?_, by omega, ?_⟩
      · intro line hline
        refine ⟨fun heq => hempty (heq ▸ hline), ?_⟩
        simpa using filter_eq_nil_iff.mp hnone line hline
      · have hsame : body.length = rest.length := by omega
        rw [hsame, hrest, hc]
        split <;> rfl
  · rintro ⟨hothers, hpositive, hbody⟩
    have hc : ((n.toNat : ℕ) : ℤ) = n := Int.toNat_of_nonneg hpositive
    refine ⟨first :: length_line n :: others, body, n.toNat, rfl, ?_, ?_, ?_⟩
    · intro line hline
      refine ⟨?_, hone line hline⟩
      rcases mem_cons.mp hline with rfl | hline
      · exact hfirst.1
      · rcases mem_cons.mp hline with rfl | hline
        · exact hlength
        · exact (hothers line hline).1
    · have hnone : others.filter is_length = [] :=
        filter_eq_nil_iff.mpr fun line hline => by simp [(hothers line hline).2]
      rw [filter_cons_of_neg (by simp [hfirst.2]),
        filter_cons_of_pos (is_length_length_line n), hnone, hc]
    · by_cases hmethod : method = .HEAD
      · rw [if_pos hmethod] at hbody ⊢
        exact_mod_cast hbody
      · rw [if_neg hmethod] at hbody ⊢
        omega

/-- A content type that leaves the head as it is: no empty line and no length after its
first CRLF. -/
def TypeFrames (content_type : Bytes) : Prop :=
  ∀ piece ∈ (split_crlf content_type).tail, Other piece

instance (content_type : Bytes) : Decidable (TypeFrames content_type) :=
  inferInstanceAs (Decidable (∀ piece ∈ _, _))

theorem typeFrames_of_oneLine (h : OneLine content_type) : TypeFrames content_type := by
  unfold TypeFrames
  rw [h]
  exact fun _ hpiece => absurd hpiece not_mem_nil

theorem framed_response_iff {linger : Bool} (htitle : Printable title)
    (hextra : ∀ line ∈ extra, Printable line ∧ Other line) (hn : method ≠ .HEAD → n ≤ body.length) :
    Framed method
        (unlines (head_lines linger status title n content_type extra) ++ crlf ++ body) ↔
      TypeFrames content_type ∧ 0 ≤ n ∧ (body.length : ℤ) = if method = .HEAD then 0 else n := by
  have hone := oneLine_head_lines htitle (fun line hline => (hextra line hline).1) linger status n
    content_type
  have htype : (∀ line ∈ split_crlf (type_line content_type) ++ (connection_lines linger ++ extra),
      Other line) ↔ TypeFrames content_type := by
    unfold TypeFrames
    obtain ⟨piece, pieces, hsplit⟩ := exists_cons_of_ne_nil (split_ne_nil content_type)
    rw [split_type_line, hsplit, modifyHead_cons, tail_cons]
    constructor
    · intro hall line hline
      exact hall line (mem_append_left _ (mem_cons_of_mem _ hline))
    intro hpieces line hline
    simp only [mem_append, mem_cons] at hline
    rcases hline with (rfl | hline) | hline | hline
    · exact other_append (by decide) (by decide) _
    · exact hpieces line hline
    · exact other_connection_lines linger line hline
    · exact (hextra line hline).2
  rw [head_lines] at hone ⊢
  rw [framed_lines_iff hone (other_status_line status title) hn, htype]

/-! ## What the router hands over -/

/-- Bodies: texts of the code, which have no NUL, and escaped values. -/
inductive JsonText : Bytes → Prop
  | text {s : Bytes} (h : (0 : UInt8) ∉ s) : JsonText s
  | escaped (value : Bytes) : JsonText (json_escape value)
  | append {s t : Bytes} (hs : JsonText s) (ht : JsonText t) : JsonText (s ++ t)

theorem zero_notMem_json_escape (value : Bytes) : (0 : UInt8) ∉ json_escape value := by
  unfold json_escape
  rw [mem_flatMap]
  rintro ⟨b, -, hzero⟩
  unfold json_escape_byte at hzero
  repeat' split at hzero
  all_goals simp only [mem_cons, not_mem_nil, or_false] at hzero
  case isFalse hnot =>
    rw [← hzero] at hnot
    exact hnot (by decide)
  all_goals revert hzero; decide

theorem JsonText.zero_notMem (h : JsonText s) : (0 : UInt8) ∉ s := by
  induction h with
  | text h => exact h
  | escaped value => exact zero_notMem_json_escape value
  | append _ _ ihs iht =>
    rw [mem_append]
    exact fun hzero => hzero.elim ihs iht

/-- The lines of `response_headers_to_wire`. -/
def header_lines (headers : List (Bytes × Bytes)) : List Bytes :=
  (headers.filter fun header => header.1 ≠ []).map fun header => header.1 ++ lit ": " ++ header.2

theorem headers_to_wire (headers : List (Bytes × Bytes)) :
    response_headers_to_wire headers = unlines (header_lines headers) := by
  unfold response_headers_to_wire header_lines
  induction headers with
  | nil => rfl
  | cons header headers ih =>
    rw [flatMap_cons, ih]
    by_cases hname : header.1 = []
    · rw [if_pos hname, filter_cons_of_neg (by simpa using hname), nil_append]
    · rw [if_neg hname, filter_cons_of_pos (by simpa using hname), map_cons, unlines_cons]
      simp only [append_assoc]
      rfl

/-- A memory response of the router: a printable title and content type, a JSON body and,
after too many logins, a few printable headers. -/
structure IsMemory (response : HttpResponse) : Prop where
  options : response.options_response = false
  file : response.file.enabled = false
  status : IsInt response.status
  title : Printable response.title
  content_type : Printable response.content_type
  body : JsonText response.body
  headers : ∀ line ∈ header_lines response.headers, Printable line ∧ Other line
  headers_size : (unlines (header_lines response.headers)).length ≤ 4096

/-- The results of the router: a memory response, a file under a stored name of up to 128
characters of four bytes, the answer to `OPTIONS`, an error. -/
inductive Produced : HttpCode → HttpResponse → Prop
  | memory (response : HttpResponse) (h : IsMemory response) : Produced .MEMORY_REQUEST response
  | file (path content_type download_name : Bytes) (hname : download_name.length ≤ 512) :
      Produced .FILE_REQUEST (.set_file path content_type download_name)
  | options : Produced .OPTIONS_REQUEST .set_options
  | error (code : HttpCode) (response : HttpResponse) (h : (error_page code).isSome = true) :
      Produced code response

/-! ## What is on the wire -/

theorem scheduled_bytes {text file : Bytes} (h : text.length + file.length < 2 ^ 31) :
    (Scheduled.mk text (to_int (text.length + file.length)) file).bytes = text ++ file := by
  have hsum : ((text.length : ℤ) + file.length) = ((text.length + file.length : ℕ) : ℤ) := by
    rfl
  unfold Scheduled.bytes
  rw [hsum, to_int_of_lt h, Int.toNat_natCast, ← length_append, take_length]

section Written

variable {r : Reply} {ring : Ring}

theorem response_written (hextra : r.m_extra_headers = unlines extra)
    (hnul : (0 : UInt8) ∉ unlines extra) (content : Option Bytes)
    (hsize : (unlines (head_lines r.m_linger status title n content_type extra) ++ crlf ++
      content.getD []).length ≤ WRITE_LIMIT) (hring : Fresh ring) :
    ∃ s, schedule (write_response r status title n content_type content) 0 [] ring =
        some (some s) ∧
      s.bytes = unlines (head_lines r.m_linger status title n content_type extra) ++ crlf ++
        content.getD [] := by
  have hwrite := appends_response hextra hnul status title n content_type content
  refine ⟨_, schedule_appends hwrite hring hsize 0 [], ?_⟩
  have hint : WRITE_LIMIT < 2 ^ 31 := by decide
  have hbytes := scheduled_bytes (lt_of_le_of_lt (by rwa [length_nil, Nat.add_zero]) hint :
    (unlines (head_lines r.m_linger status title n content_type extra) ++ crlf ++
      content.getD []).length + ([] : Bytes).length < 2 ^ 31)
  rw [append_nil] at hbytes
  exact hbytes

theorem response_overflow (hextra : r.m_extra_headers = unlines extra)
    (hnul : (0 : UInt8) ∉ unlines extra) {content : Bytes}
    (hhead : (unlines (head_lines r.m_linger status title n content_type extra) ++ crlf).length ≤
      WRITE_LIMIT)
    (hover : WRITE_LIMIT < (unlines (head_lines r.m_linger status title n content_type extra) ++
      crlf).length + content.length) (hring : Fresh ring) (more : ℕ) (file : Bytes)
        (s : Scheduled) :
    schedule (write_response r status title n content_type (some content)) more file ring ≠
      some (some s) := by
  -- the head is in the ring when the content is written
  have hstart := (appends_add_response (status_line status title ++ CRLF)).next
    (appends_headers hextra hnul n content_type)
  have htext : status_line status title ++ CRLF ++
      (unlines (length_line n :: (split_crlf (type_line content_type) ++
        (connection_lines r.m_linger ++ extra))) ++ crlf) =
      unlines (head_lines r.m_linger status title n content_type extra) ++ crlf := by
    rw [head_lines, unlines_cons (status_line status title)]
    simp only [append_assoc]
    rfl
  rw [htext] at hstart
  obtain ⟨ring', hwritten, hgrown, hcontents⟩ := hstart ring hring.grown (by
    rw [hring.empty, length_nil, Nat.zero_add]
    exact hhead)
  rw [hring.empty, nil_append] at hcontents
  have hsame : write_response r status title n content_type (some content) ring =
      add_response content ring' := by
    unfold Writes.next at hwritten
    unfold write_response Writes.next add_status_line
    cases hfirst : add_response (status_line status title ++ CRLF) ring with
    | none => simp [hfirst] at hwritten
    | some written =>
      simp only [hfirst] at hwritten
      have hfirst' : add_response (lit "HTTP/1.1 " ++ to_string status ++ lit " " ++ title ++ CRLF)
          ring = some written := hfirst
      simp only [hfirst', hwritten]
  rw [schedule, hsame]
  rcases add_response_overflow hgrown (by rw [hcontents]; exact hover) with hnone | hfalse
  · rw [hnone]
    simp
  · rw [hfalse]
    simp

end Written

/-! ## The kinds of results -/

theorem printable_c_str_take (h : Printable s) (n : ℕ) : Printable ((c_str s).take n) := by
  intro b hb
  apply h
  have hmem : b ∈ c_str s := mem_of_mem_take hb
  unfold c_str cstr at hmem
  exact (IsPrefix.subset <| takeWhile_prefix _) hmem

theorem printable_zero_notMem_unlines {lines : List Bytes} (h : ∀ line ∈ lines, Printable line) :
    (0 : UInt8) ∉ unlines lines := by
  unfold unlines
  rw [mem_flatMap]
  rintro ⟨line, hline, hzero⟩
  rcases mem_append.mp hzero with hzero | hzero
  · exact printable_ne_zero (h line hline) hzero
  · exact absurd hzero (by decide)

def memory_head (linger : Bool) (response : HttpResponse) : Bytes :=
  unlines (head_lines linger response.status ((c_str response.title).take 63)
    (to_int response.body.length) ((c_str response.content_type).take 255)
    (header_lines response.headers)) ++ crlf

def FramesWell (files : Bytes → Option Bytes) (method : Method) (linger : Bool)
    (response : HttpResponse) : HttpCode → Prop
  | .OPTIONS_REQUEST => True
  | .MEMORY_REQUEST =>
      to_int response.body.length = 0 ∨ (method ≠ .HEAD ∧
        (memory_head linger response).length + response.body.length ≤ WRITE_LIMIT)
  | .FILE_REQUEST =>
      match files ((c_str response.file.path).take (FILENAME_LEN - 1)) with
      | none => method ≠ .HEAD
      | some content =>
          (method ≠ .HEAD ∧ content = []) ∨
            TypeFrames ((c_str response.file.content_type).take 255)
  | _ => method ≠ .HEAD

section Kinds

variable {files : Bytes → Option Bytes} {linger : Bool} {ring : Ring}

theorem scheduled_iff {x : Option (Option Scheduled)} {s : Scheduled} (hx : x = some (some s))
    {p : Bytes → Prop} {q : Prop} (h : p s.bytes ↔ q) :
    (∃ s, x = some (some s) ∧ p s.bytes) ↔ q := by
  rw [hx]
  constructor
  · rintro ⟨s', hsame, hs'⟩
    obtain rfl : s = s' := Option.some.inj (Option.some.inj hsame)
    exact h.mp hs'
  · intro hq
    exact ⟨s, rfl, h.mpr hq⟩

theorem content_framed_iff (htitle : Printable title) (htype : OneLine content_type)
    (hextra : ∀ line ∈ extra, Printable line ∧ Other line) (hbody : body ≠ []) :
    Framed method
      (unlines (head_lines linger status title body.length content_type extra) ++ crlf ++
        body) ↔ method ≠ .HEAD := by
  have hpositive : 0 < body.length := length_pos_of_ne_nil hbody
  rw [framed_response_iff htitle hextra fun _ => le_refl _]
  constructor
  · rintro ⟨-, -, hlength⟩ hhead
    rw [if_pos hhead] at hlength
    omega
  · intro hhead
    rw [if_neg hhead]
    exact ⟨typeFrames_of_oneLine htype, Int.natCast_nonneg _, rfl⟩

variable {form : Bytes}

theorem error_page_ok (h : error_page code = some (status, title, content_type, form)) :
    IsInt status ∧ Printable title ∧ title.length ≤ 63 ∧ Printable content_type ∧
      content_type.length ≤ 255 ∧ form ≠ [] ∧ form.length ≤ 100 := by
  have hall : ∀ page ∈ error_page code, IsInt page.1 ∧ Printable page.2.1 ∧ page.2.1.length ≤ 63 ∧
      Printable page.2.2.1 ∧ page.2.2.1.length ≤ 255 ∧ page.2.2.2 ≠ [] ∧
      page.2.2.2.length ≤ 100 := by
    cases code <;> decide
  exact hall _ h

theorem process_write_error {r : Reply}
    (h : error_page code = some (status, title, content_type, form)) :
    process_write r code ring =
      schedule (write_response r status title form.length content_type (some form)) 0 [] ring := by
  unfold process_write
  split
  · contradiction
  · contradiction
  · contradiction
  · rw [h]

theorem error_framed_iff (hring : Fresh ring) (h : (error_page code).isSome = true) :
    (∃ s, respond files method linger ring code response = some (some s) ∧ Framed method s.bytes) ↔
      method ≠ .HEAD := by
  obtain ⟨⟨status, title, content_type, form⟩, hpage⟩ := isSome_iff_exists.mp h
  obtain ⟨hstatus, htitle, htitle_length, htype, htype_length, hform, hform_length⟩ :=
    error_page_ok hpage
  have hrespond : respond files method linger ring code response =
      schedule (write_response (Reply.init method linger) status title form.length content_type
        (some form)) 0 [] ring := by
    rw [respond, finish_request, if_neg (by rintro (rfl | rfl | rfl) <;> cases hpage)]
    exact process_write_error hpage
  have hlength : IsInt form.length := by
    unfold IsInt
    omega
  have hhead := length_head_le hstatus hlength linger title content_type []
  have hlimit : 10000 ≤ WRITE_LIMIT := by decide
  have hsize : (unlines (head_lines linger status title form.length content_type []) ++ crlf ++
      (some form).getD []).length ≤ WRITE_LIMIT := by
    rw [length_append, getD_some]
    rw [unlines_nil, length_nil] at hhead
    omega
  have hextra : (Reply.init method linger).m_extra_headers = unlines [] := rfl
  obtain ⟨s, hwritten, hbytes⟩ := response_written hextra not_mem_nil (some form) hsize hring
  refine scheduled_iff (hrespond.trans hwritten) ?_
  rw [hbytes]
  exact content_framed_iff htitle (oneLine_of_printable htype)
    (fun _ hline => absurd hline not_mem_nil) hform

theorem options_framed (hring : Fresh ring) :
    ∃ s, respond files method linger ring .OPTIONS_REQUEST .set_options = some (some s) ∧
      Framed method s.bytes := by
  let r : Reply := { Reply.init method linger with m_response_body := [], m_response_body_len := 0 }
  have hextra : r.m_extra_headers = unlines [] := rfl
  have hok : Printable (lit "OK") := by decide
  have hsize : (unlines (head_lines r.m_linger 204 (lit "OK") 0 (lit "text/plain") []) ++ crlf ++
      (none : Option Bytes).getD []).length ≤ WRITE_LIMIT := by
    have hhead := length_head_le (by decide : IsInt 204) (by decide : IsInt 0) r.m_linger (lit "OK")
      (lit "text/plain") []
    have htext : (lit "OK").length + (lit "text/plain").length + (unlines []).length + 300 ≤
        WRITE_LIMIT := by decide
    rw [getD_none, append_nil]
    exact le_trans hhead htext
  obtain ⟨s, hwritten, hbytes⟩ := response_written hextra not_mem_nil none hsize hring
  refine ⟨s, hwritten, ?_⟩
  rw [hbytes, framed_response_iff hok (fun _ hline => absurd hline not_mem_nil) (by simp)]
  refine ⟨by decide, le_refl 0, ?_⟩
  split <;> rfl

/-- The connection after `set_memory_response` with the response's headers. -/
def remembered (method : Method) (linger : Bool) (response : HttpResponse) : Reply :=
  { set_memory_response (Reply.init method linger) response.status response.title response.body
      response.content_type with
    m_extra_headers := response_headers_to_wire response.headers }

theorem finish_memory (hoptions : response.options_response = false)
    (hfile : response.file.enabled = false) :
    finish_request files (Reply.init method linger) .MEMORY_REQUEST response =
      (remembered method linger response, .MEMORY_REQUEST) := by
  simp [finish_request, apply_application_response, hoptions, hfile, remembered]

theorem respond_memory (hoptions : response.options_response = false)
    (hfile : response.file.enabled = false) :
    respond files method linger ring .MEMORY_REQUEST response =
      schedule (write_response (remembered method linger response) response.status
        ((c_str response.title).take 63) (to_int response.body.length)
        ((c_str response.content_type).take 255)
        (if to_int response.body.length > 0 then some (c_str response.body)
          else none)) 0 [] ring := by
  have hlength : (remembered method linger response).m_response_body_len =
      to_int response.body.length := by
    rw [remembered, set_memory_response]
  rw [respond, finish_memory hoptions hfile]
  unfold process_write
  rw [hlength]
  rfl

theorem memory_written (hring : Fresh ring) (h : IsMemory response)
    (hpositive : to_int response.body.length > 0)
    (hfits : (memory_head linger response).length + response.body.length ≤ WRITE_LIMIT) :
    ∃ s, respond files method linger ring .MEMORY_REQUEST response = some (some s) ∧
      s.bytes = memory_head linger response ++ response.body := by
  have hextra : (remembered method linger response).m_extra_headers =
      unlines (header_lines response.headers) := headers_to_wire response.headers
  have hnul := printable_zero_notMem_unlines fun line hline => (h.headers line hline).1
  obtain ⟨s, hwritten, hbytes⟩ := response_written hextra hnul (some response.body)
    (by rw [length_append]; exact hfits) hring
  refine ⟨s, ?_, hbytes⟩
  rw [respond_memory h.options h.file, if_pos hpositive, c_str_eq h.body.zero_notMem]
  exact hwritten

theorem length_memory_head_le (h : IsMemory response) (linger : Bool) :
    (memory_head linger response).length ≤ 5000 := by
  have hle := length_head_le h.status (isInt_to_int response.body.length) linger
    ((c_str response.title).take 63) ((c_str response.content_type).take 255)
    (header_lines response.headers)
  have htitle : ((c_str response.title).take 63).length ≤ 63 := length_take_le _ _
  have htype : ((c_str response.content_type).take 255).length ≤ 255 := length_take_le _ _
  have hheaders := h.headers_size
  unfold memory_head
  omega

theorem memory_framed_iff (hring : Fresh ring) (h : IsMemory response) :
    (∃ s, respond files method linger ring .MEMORY_REQUEST response = some (some s) ∧
      Framed method s.bytes) ↔
      to_int response.body.length = 0 ∨ (method ≠ .HEAD ∧
        (memory_head linger response).length + response.body.length ≤ WRITE_LIMIT) := by
  have hextra : (remembered method linger response).m_extra_headers =
      unlines (header_lines response.headers) := headers_to_wire response.headers
  have hnul := printable_zero_notMem_unlines fun line hline => (h.headers line hline).1
  have htitle := printable_c_str_take h.title 63
  have htype := oneLine_of_printable (printable_c_str_take h.content_type 255)
  have hhead := length_memory_head_le h linger
  have hlimit : 10000 ≤ WRITE_LIMIT := by decide
  have hint : WRITE_LIMIT < 2 ^ 31 := by decide
  by_cases hpositive : to_int response.body.length > 0
  · have hnonzero : ¬ to_int response.body.length = 0 := by omega
    by_cases hfits : (memory_head linger response).length + response.body.length ≤ WRITE_LIMIT
    · -- the body is written, and its length is what the head says
      have hlength : to_int response.body.length = response.body.length := to_int_of_lt (by omega)
      have hnonempty : response.body ≠ [] := by
        intro hnil
        rw [hnil] at hnonzero
        exact hnonzero rfl
      obtain ⟨s, hwritten, hbytes⟩ := memory_written hring h hpositive hfits
      simp only [hnonzero, hfits, false_or, and_true]
      refine scheduled_iff hwritten ?_
      rw [hbytes, memory_head, hlength]
      exact content_framed_iff htitle htype h.headers hnonempty
    · -- the ring cannot hold the body
      simp only [hnonzero, hfits, and_false, or_false, iff_false]
      rintro ⟨s, hs, -⟩
      rw [respond_memory h.options h.file, if_pos hpositive, c_str_eq h.body.zero_notMem] at hs
      exact response_overflow hextra hnul (le_trans hhead (by omega)) (not_le.mp hfits) hring 0 [] s
        hs
  · -- no body is written, and the head must not announce one
    obtain ⟨s, hwritten, hbytes⟩ := response_written hextra hnul none
      (by rw [getD_none, append_nil]; exact le_trans hhead (by omega)) hring
    have hrespond : respond files method linger ring .MEMORY_REQUEST response = some (some s) := by
      rw [respond_memory h.options h.file, if_neg hpositive]
      exact hwritten
    refine scheduled_iff hrespond ?_
    have hnone : method ≠ .HEAD →
        to_int response.body.length ≤ (((none : Option Bytes).getD []).length : ℤ) := by
      intro _
      omega
    rw [hbytes, framed_response_iff htitle h.headers hnone, getD_none, length_nil]
    constructor
    · rintro ⟨-, hzero, -⟩
      exact .inl (by omega)
    intro hcases
    have hzero : to_int response.body.length = 0 := by
      rcases hcases with hzero | ⟨-, hfits⟩
      · exact hzero
      · have hlength : to_int response.body.length = response.body.length :=
          to_int_of_lt (by omega)
        omega
    refine ⟨typeFrames_of_oneLine htype, by omega, ?_⟩
    rw [hzero]
    split <;> rfl

/-! ## Files -/

theorem typeFrames_sent_type (readable : Option Bytes) :
    TypeFrames (sent_type readable content_type download_name) ↔
      TypeFrames ((c_str content_type).take 255) := by
  rcases sent_type_cases readable with hsame | ⟨hsent, hstored⟩
  · rw [hsame]
  · exact ⟨fun _ => typeFrames_of_oneLine hstored, fun _ => typeFrames_of_oneLine hsent⟩

theorem typeFrames_default :
    TypeFrames (if content_type = [] then lit "application/octet-stream" else content_type) ↔
      TypeFrames content_type := by
  by_cases hnone : content_type = []
  · rw [if_pos hnone, hnone]
    exact ⟨fun _ => by decide, fun _ => by decide⟩
  · rw [if_neg hnone]

theorem typeFrames_stored :
    TypeFrames ((c_str (if content_type = [] then lit "application/octet-stream"
        else content_type)).take 255) ↔ TypeFrames ((c_str content_type).take 255) := by
  by_cases hnone : content_type = []
  · rw [if_pos hnone, hnone]
    exact ⟨fun _ => by decide, fun _ => by decide⟩
  · rw [if_neg hnone]

theorem file_framed_iff (hring : Fresh ring) {content : Bytes}
    (hfile : files ((c_str path).take (FILENAME_LEN - 1)) = some content)
    (hname : download_name.length ≤ 512)
    (hsize : (download_text files method linger path content_type download_name content).length +
      content.length < 2 ^ 31) :
    (∃ s, respond files method linger ring .FILE_REQUEST
        (.set_file path content_type download_name) = some (some s) ∧ Framed method s.bytes) ↔
      (method ≠ .HEAD ∧ content = []) ∨ TypeFrames ((c_str content_type).take 255) := by
  have hok : Printable (lit "OK") := by decide
  have hextra : ∀ line ∈
      [content_disposition (sent_name (files (c_str path)) content_type download_name)],
      Printable line ∧ Other line := by
    intro line hline
    rw [mem_singleton] at hline
    rw [hline]
    exact ⟨printable_content_disposition _, other_content_disposition _⟩
  refine scheduled_iff (download_written hfile hname hring) ?_
  have hsent_length : (sent_file method content).length ≤ content.length := by
    unfold sent_file
    split
    · exact Nat.zero_le _
    · exact le_refl _
  rw [scheduled_bytes (by omega)]
  unfold download_text
  rw [append_assoc]
  by_cases hsent : method = .HEAD ∨ content ≠ []
  · have hlength : to_int content.length = content.length := to_int_of_lt (by omega)
    rw [file_parts_sent hsent]
    dsimp only [getD_none]
    rw [nil_append, hlength]
    have hno : ¬ (method ≠ .HEAD ∧ content = []) := by
      rintro ⟨hmethod, hcontent⟩
      exact hsent.elim hmethod (fun h => h hcontent)
    by_cases hmethod : method = .HEAD
    · rw [sent_file, if_pos hmethod, framed_response_iff hok hextra fun h => absurd hmethod h,
        typeFrames_default, typeFrames_sent_type, if_pos hmethod]
      simp [hno]
    · rw [sent_file, if_neg hmethod, framed_response_iff hok hextra fun _ => le_refl _,
        typeFrames_default, typeFrames_sent_type, if_neg hmethod]
      simp [hno]
  · -- an empty file is answered with a page
    rw [not_or, not_not] at hsent
    rw [file_parts_page (by simp [hsent])]
    dsimp only [getD_some]
    rw [sent_file, if_neg hsent.1, hsent.2, append_nil,
      content_framed_iff hok (by decide) hextra (by decide)]
    simp [hsent.1]

/-- The response for a file that cannot be opened. -/
def file_not_found : HttpResponse :=
  ⟨404, lit "Not Found", lit "application/json",
    lit "\x7b\"code\":404,\"message\":\"file content not found\"\x7d", [], false, .none⟩

theorem isMemory_file_not_found : IsMemory file_not_found where
  options := rfl
  file := rfl
  status := by decide
  title := by decide
  content_type := by decide
  body := .text (by decide)
  headers := by decide
  headers_size := by decide

theorem respond_missing (hfile : files ((c_str path).take (FILENAME_LEN - 1)) = none) :
    respond files method linger ring .FILE_REQUEST (.set_file path content_type download_name) =
      respond files method linger ring .MEMORY_REQUEST file_not_found := by
  have hopen : ∀ content_type, open_managed_file files (Reply.init method linger) path content_type
      download_name = none := by
    intro content_type
    rw [open_managed_file, hfile]
  have hfinish : finish_request files (Reply.init method linger) .FILE_REQUEST
      (.set_file path content_type download_name) =
      (remembered method linger file_not_found, .MEMORY_REQUEST) := by
    rw [finish_request, if_pos (.inr (.inl rfl)), apply_application_response]
    simp only [HttpResponse.set_file, Bool.false_eq_true, if_false, if_true, hopen]
    simp only [remembered, set_memory_response, file_not_found, response_headers_to_wire,
      flatMap_nil, Reply.init]
  rw [respond, hfinish, respond, finish_memory rfl rfl]

theorem missing_framed_iff (hring : Fresh ring)
    (hfile : files ((c_str path).take (FILENAME_LEN - 1)) = none) :
    (∃ s, respond files method linger ring .FILE_REQUEST
        (.set_file path content_type download_name) = some (some s) ∧ Framed method s.bytes) ↔
      method ≠ .HEAD := by
  have hnonzero : to_int file_not_found.body.length ≠ 0 := by decide
  have hfits : (memory_head linger file_not_found).length + file_not_found.body.length ≤
      WRITE_LIMIT := by
    cases linger <;> decide +kernel
  rw [respond_missing hfile, memory_framed_iff hring isMemory_file_not_found]
  simp only [hnonzero, hfits, false_or, and_true]

end Kinds

/-- **Responses are framed** correctly exactly in these cases, for every method, every
result of the router, and files with fewer than 2 ^ 31 bytes together with the head. -/
theorem response_framed_iff (files : Bytes → Option Bytes) (method : Method) (linger : Bool)
    {ring : Ring} (hring : Fresh ring) {code : HttpCode} {response : HttpResponse}
    (hproduced : Produced code response)
    (hsize : code = .FILE_REQUEST → ∀ content,
      files ((c_str response.file.path).take (FILENAME_LEN - 1)) = some content →
      (download_text files method linger response.file.path response.file.content_type
        response.file.download_name content).length + content.length < 2 ^ 31) :
    (∃ s, respond files method linger ring code response = some (some s) ∧
      Framed method s.bytes) ↔ FramesWell files method linger response code := by
  cases hproduced with
  | memory response h => exact memory_framed_iff hring h
  | file path content_type download_name hname =>
    have hwell : FramesWell files method linger (.set_file path content_type download_name)
        .FILE_REQUEST =
        match files ((c_str path).take (FILENAME_LEN - 1)) with
        | none => method ≠ .HEAD
        | some content =>
          (method ≠ .HEAD ∧ content = []) ∨ TypeFrames ((c_str
            (if content_type = [] then lit "application/octet-stream" else content_type)).take
              255) := rfl
    rw [hwell]
    cases hfile : files ((c_str path).take (FILENAME_LEN - 1)) with
    | none => exact missing_framed_iff hring hfile
    | some content =>
      have hbytes : (download_text files method linger path content_type download_name
          content).length + content.length < 2 ^ 31 := by
        rw [← download_text_default]
        exact hsize rfl content hfile
      rw [file_framed_iff hring hfile hname hbytes, typeFrames_stored]
  | options => exact ⟨fun _ => trivial, fun _ => options_framed hring⟩
  | error code response h =>
    have hother : FramesWell files method linger response code ↔ method ≠ .HEAD := by
      cases code <;> first | exact Iff.rfl | contradiction
    rw [hother]
    exact error_framed_iff hring h

/-- The response of `route_request` to a path it does not know. -/
def not_found : HttpResponse :=
  ⟨404, lit "Not Found", lit "application/json",
    lit "\x7b\"code\":404,\"message\":\"not found\"\x7d", [], false, .none⟩

theorem isMemory_not_found : IsMemory not_found where
  options := rfl
  file := rfl
  status := by decide
  title := by decide
  content_type := by decide
  body := .text (by decide)
  headers := by decide
  headers_size := by decide

theorem fits_not_found :
    to_int not_found.body.length > 0 ∧
      (memory_head true not_found).length + not_found.body.length ≤ WRITE_LIMIT := by
  decide +kernel

/-- The answer to a `GET`. -/
theorem get_framed :
    ∃ s, respond (fun _ => none) .GET true init_ring .MEMORY_REQUEST not_found = some (some s) ∧
      Framed .GET s.bytes := by
  refine (response_framed_iff (fun _ => none) .GET true fresh_init_ring
    (.memory not_found isMemory_not_found) (nofun)).mpr (.inr ⟨?_, ?_⟩)
  · decide
  · exact fits_not_found.2

def a_head : HttpRequest where
  method := .HEAD
  path := lit "/index.html"

/-- The router answers a `HEAD` with a memory response, which is sent with its body. -/
theorem head_with_body :
    (Router.handle_request id 0 Router.silent a_head
      { mysql := true, upload_max_bytes := 0 } Router.a_world).reply =
      (.MEMORY_REQUEST, not_found) ∧
    ∃ s, respond (fun _ => none) .HEAD true init_ring .MEMORY_REQUEST not_found = some (some s) ∧
      s.bytes = memory_head true not_found ++ not_found.body ∧ ¬ Framed .HEAD s.bytes := by
  refine ⟨by rfl, ?_⟩
  obtain ⟨s, hs, hbytes⟩ : ∃ s, respond (fun _ => none) .HEAD true init_ring .MEMORY_REQUEST
      not_found = some (some s) ∧ s.bytes = memory_head true not_found ++ not_found.body :=
    memory_written fresh_init_ring isMemory_not_found fits_not_found.1 fits_not_found.2
  refine ⟨s, hs, hbytes, ?_⟩
  intro hframed
  rcases (memory_framed_iff fresh_init_ring isMemory_not_found).mp ⟨s, hs, hframed⟩ with
    hzero | ⟨hhead, -⟩
  · exact absurd hzero (by decide)
  · exact hhead rfl

end AtlasWebServer.Http
