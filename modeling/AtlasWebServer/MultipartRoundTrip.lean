/-
Parsing a spooled multipart body inverts its encoding.

`encode` writes a list of parts the way a client does: a delimiter line, then for each part
its headers, a blank line and its body, and a delimiter behind it. `spooled_multipart_inverts`
says what `parse_spooled_multipart` makes of it, for any parts of which one is a file, any
boundary that occurs in none of them, and any pieces the spool file is read in.

A part is a file if it has a file name that is **not empty**: that is the test the parser
makes, and a part that says `filename=""` is a text field to it. If it is the only one that
names a file, the body is refused for having none (`empty_filename_refused`).
-/
import AtlasWebServer.MultipartReading

set_option autoImplicit false

namespace AtlasWebServer.Multipart

open Bytes CString FileNames Search List

/-! ## The encoding -/

/-- A header: its name and its value. -/
abbrev Header := Bytes × Bytes

/-- A part of a multipart body. Its `Content-Disposition` has its name and file name; there
may be other headers before and after. -/
structure Part where
  before : List Header
  name : Bytes
  filename : Option Bytes
  after : List Header
  body : Bytes

def Part.disposition (p : Part) : Bytes :=
  lit "form-data; name=" ++ 34 :: (p.name ++ 34 ::
    (p.filename.elim [] fun filename => lit "; filename=" ++ 34 :: (filename ++ [34])))

def Part.headers (p : Part) : List Header :=
  p.before ++ (lit "Content-Disposition", p.disposition) :: p.after

def header_line (header : Header) : Bytes := header.1 ++ 58 :: 32 :: header.2

/-- Header lines, each with its line ending. -/
def encode_headers (headers : List Header) : Bytes :=
  headers.flatMap fun header => header_line header ++ CRLF

def delimiter (boundary : Bytes) : Bytes := CRLF ++ lit "--" ++ boundary

/-- The parts, each with the delimiter behind it. -/
def encode_parts (boundary : Bytes) : List Part → Bytes
  | [] => []
  | p :: parts =>
      encode_headers p.headers ++ CRLF ++ p.body ++ delimiter boundary ++
        (mark parts.isEmpty ++ if parts.isEmpty then CRLF else encode_parts boundary parts)

def encode (boundary : Bytes) (parts : List Part) : Bytes :=
  lit "--" ++ boundary ++ CRLF ++ encode_parts boundary parts

def content_type (boundary : Bytes) : Bytes := lit "multipart/form-data; boundary=" ++ boundary

/-- A boundary without line endings, quotes or surrounding whitespace. -/
structure ValidBoundary (boundary : Bytes) : Prop where
  ne_nil : boundary ≠ []
  no_cr : (13 : UInt8) ∉ boundary
  no_quote : (34 : UInt8) ∉ boundary
  trimmed : trim_ascii_copy boundary = boundary

/-- A header other than `Content-Disposition`, on one line. -/
structure ValidHeader (header : Header) : Prop where
  name_no_cr : (13 : UInt8) ∉ header.1
  name_no_colon : (58 : UInt8) ∉ header.1
  value_no_cr : (13 : UInt8) ∉ header.2
  other : lowercase (trim_ascii_copy header.1) ≠ lit "content-disposition"

/-- A part that can be encoded with the boundary. -/
structure ValidPart (boundary : Bytes) (p : Part) : Prop where
  before : ∀ header ∈ p.before, ValidHeader header
  after : ∀ header ∈ p.after, ValidHeader header
  name_no_cr : (13 : UInt8) ∉ p.name
  name_no_quote : (34 : UInt8) ∉ p.name
  name_no_filename : ¬ lit "filename=" <:+: p.name
  filename_no_cr : ∀ filename, p.filename = some filename → (13 : UInt8) ∉ filename
  filename_no_quote : ∀ filename, p.filename = some filename → (34 : UInt8) ∉ filename
  body : ¬ delimiter boundary <:+: p.body

/-- The file name of a part, empty if it has none. -/
def Part.file_name (p : Part) : Bytes := p.filename.getD []

def Part.is_file (p : Part) : Bool := p.file_name ≠ []

def Part.limit (upload_max_bytes : ℕ) (p : Part) : ℕ :=
  if p.is_file then upload_max_bytes else kMultipartTextFieldLimitBytes

def Part.value (p : Part) : Bytes := if p.is_file then sanitize_filename p.file_name else p.body

/-! ## Headers -/

section Headers

/-- `headers[key] = value` for a header line. -/
def set_header (headers : StringMap) (header : Header) : StringMap :=
  headers.set (lowercase (trim_ascii_copy header.1)) (trim_ascii_copy (32 :: header.2))

variable {tail : Bytes} {headers : List Header}

theorem read_headers_loop_spec :
    ∀ (headers : List Header) (fuel : ℕ) (r : Reader Pieces) (map : StringMap),
      r.m_file.length + headers.length + 1 < fuel → Good r →
      (∀ header ∈ headers, (13 : UInt8) ∉ header_line header ∧ (58 : UInt8) ∉ header.1) →
      r.rest = encode_headers headers ++ (CRLF ++ tail) →
      ∃ r', read_headers_loop pieces_ops fuel r map =
          some (r', some (headers.foldl set_header map)) ∧ Good r' ∧ r'.rest = tail := by
  intro headers
  induction headers with
  | nil =>
    intro fuel r map hfuel hr _ hrest
    obtain ⟨fuel, rfl⟩ : ∃ n, fuel = n + 1 := ⟨fuel - 1, by
      omega⟩
    obtain ⟨r', hread, hr', hrest', -⟩ :=
      read_line_spec (not_mem_nil) (show r.m_file.length < fuel by omega) hr hrest
    refine ⟨r', ?_, hr', hrest'⟩
    unfold read_headers_loop
    rw [hread]
    rfl
  | cons header headers ih =>
    intro fuel r map hfuel hr hlines hrest
    obtain ⟨fuel, rfl⟩ : ∃ n, fuel = n + 1 := ⟨fuel - 1, by omega⟩
    rw [length_cons] at hfuel
    obtain ⟨hline, hcolon⟩ := hlines header (mem_cons_self)
    have hrest₁ : r.rest =
        header_line header ++ (CRLF ++ (encode_headers headers ++ (CRLF ++ tail))) := by
      rw [hrest, encode_headers, flatMap_cons, append_assoc, append_assoc]
      rfl
    obtain ⟨r₁, hread, hr₁, hrest₁, hfewer⟩ :=
      read_line_spec hline (show r.m_file.length < fuel by omega) hr hrest₁
    obtain ⟨r', hloop, hr', hrest'⟩ := ih fuel r₁ (set_header map header) (by omega) hr₁
      (fun other hother => hlines other (mem_cons_of_mem _ hother)) hrest₁
    refine ⟨r', ?_, hr', hrest'⟩
    have hfind : find [58] (header_line header) = some header.1.length :=
      find_element hcolon (32 :: header.2)
    have hne : header_line header ≠ [] := by
      unfold header_line
      simp
    have hname : (header_line header).take header.1.length = header.1 := take_left
    have hvalue : (header_line header).drop (header.1.length + 1) = 32 :: header.2 := by
      unfold header_line
      rw [← drop_drop, drop_left]
      rfl
    unfold read_headers_loop
    rw [hread]
    dsimp only
    rw [if_neg hne, hfind]
    dsimp only
    rw [hname, hvalue]
    exact hloop

theorem length_encode_headers (headers : List Header) :
    headers.length ≤ (encode_headers headers).length := by
  induction headers with
  | nil => exact Nat.zero_le _
  | cons header headers ih =>
    rw [encode_headers, flatMap_cons, length_append, length_append, length_cons]
    unfold encode_headers at ih
    have : CRLF.length = 2 := rfl
    omega

theorem read_headers_spec {r : Reader Pieces} (hr : Good r) (hlines : ∀ header ∈ headers,
      (13 : UInt8) ∉ header_line header ∧ (58 : UInt8) ∉ header.1)
    (hrest : r.rest = encode_headers headers ++ (CRLF ++ tail)) :
    ∃ r', read_headers pieces_ops r.passes r = some (r', some (headers.foldl set_header [])) ∧
      Good r' ∧ r'.rest = tail := by
  apply read_headers_loop_spec headers _ r _ _ hr hlines hrest
  have hlen := length_encode_headers headers
  have hcrlf : CRLF.length = 2 := rfl
  rw [Reader.passes, hrest, length_append, length_append]
  omega

theorem foldl_set_header {key : Bytes}
    (hother : ∀ header ∈ headers, lowercase (trim_ascii_copy header.1) ≠ key) (map : StringMap) :
    (headers.foldl set_header map).lookup key = map.lookup key := by
  induction headers generalizing map with
  | nil => rfl
  | cons header headers ih =>
    rw [foldl_cons, ih fun other h => hother other (mem_cons_of_mem _ h)]
    exact StringMap.lookup_set_of_ne _ _ (hother header (mem_cons_self)).symm

theorem trim_of_ends {s : Bytes} {a b : UInt8} (ha : isspace a = false) (hb : isspace b = false) :
    trim_ascii_copy (32 :: a :: (s ++ [b])) = a :: (s ++ [b]) := by
  have h32 : isspace 32 = true := by decide
  unfold trim_ascii_copy
  rw [dropWhile_cons_of_pos h32, dropWhile_cons_of_neg (by rw [ha]; exact Bool.noConfusion)]
  rw [← cons_append, reverse_append, reverse_singleton, singleton_append,
    dropWhile_cons_of_neg (by rw [hb]; exact Bool.noConfusion), reverse_cons,
    reverse_reverse]

theorem header_param_value_quoted (key text value more : Bytes) {c : UInt8} {pattern : Bytes}
    (hpattern : key ++ lit "=" = c :: pattern) (hc : c ∉ pattern)
    (htext : ¬ c :: pattern <:+: text) (hvalue : (34 : UInt8) ∉ value) :
    header_param_value (text ++ (c :: pattern ++ 34 :: (value ++ 34 :: more))) key = value := by
  have h34 : isspace 34 = false := by decide
  unfold header_param_value
  dsimp only
  rw [hpattern, find_first hc htext]
  dsimp only
  rw [← append_assoc, ← length_append, drop_left,
    dropWhile_cons_of_neg (by rw [h34]; exact Bool.noConfusion)]
  dsimp only
  rw [if_pos rfl, find_element hvalue]
  exact take_left

variable {boundary : Bytes} {p : Part}

theorem disposition_ends (p : Part) : ∃ s, p.disposition = 102 :: (s ++ [34]) := by
  unfold Part.disposition
  cases p.filename with
  | none => exact ⟨lit "orm-data; name=" ++ 34 :: p.name, by simp; rfl⟩
  | some filename =>
    exact ⟨lit "orm-data; name=" ++ 34 :: (p.name ++ 34 :: (lit "; filename=" ++ 34 :: filename)),
      by simp; rfl⟩

theorem disposition_no_cr (hp : ValidPart boundary p) : (13 : UInt8) ∉ p.disposition := by
  have hname := hp.name_no_cr
  have hstart : (13 : UInt8) ∉ lit "form-data; name=" := by decide
  unfold Part.disposition
  cases hfilename : p.filename with
  | none => simp [hstart, hname]
  | some filename =>
    have hfile := hp.filename_no_cr filename hfilename
    have hmiddle : (13 : UInt8) ∉ lit "; filename=" := by decide
    simp [hstart, hname, hfile, hmiddle]

theorem field_name_eq (hp : ValidPart boundary p) :
    header_param_value p.disposition (lit "name") = p.name := by
  have htext : ¬ lit "name=" <:+: lit "form-data; " := by decide
  exact header_param_value_quoted (lit "name") (lit "form-data; ") p.name _ rfl (by decide) htext
    hp.name_no_quote

theorem field_filename_eq (hp : ValidPart boundary p) :
    header_param_value p.disposition (lit "filename") = p.file_name := by
  have hquote : (34 : UInt8) ∉ lit "filename=" := by decide
  have hne : lit "filename=" ≠ [] := by decide
  unfold Part.disposition Part.file_name
  cases hfilename : p.filename with
  | none =>
    have hnone : find (lit "filename=")
        (lit "form-data; name=" ++ 34 :: (p.name ++ 34 :: [])) = none := by
      rw [find_eq_none_iff, infix_split_iff hne hquote, infix_split_iff hne hquote, not_or, not_or]
      exact ⟨by decide, hp.name_no_filename, by decide⟩
    have hkey : lit "filename" ++ lit "=" = lit "filename=" := by decide
    unfold header_param_value
    dsimp only [Option.elim]
    rw [hkey, hnone]
    rfl
  | some filename =>
    have htext : ¬ lit "filename=" <:+: lit "form-data; name=" ++
      34 :: (p.name ++ 34 :: lit "; ") := by
      rw [infix_split_iff hne hquote, infix_split_iff hne hquote, not_or, not_or]
      exact ⟨by decide, hp.name_no_filename, by decide⟩
    have hvalue := header_param_value_quoted (lit "filename") _ filename [] rfl (by decide) htext
      (hp.filename_no_quote filename hfilename)
    rw [append_assoc, cons_append, append_assoc, cons_append] at hvalue
    exact hvalue

def Part.header_map (p : Part) : StringMap := p.headers.foldl set_header []

theorem header_map_disposition (hp : ValidPart boundary p) :
    p.header_map.lookup (lit "content-disposition") = some p.disposition := by
  unfold Part.header_map Part.headers
  rw [foldl_append, foldl_cons, foldl_set_header fun header h => (hp.after header h).other]
  have hkey : lowercase (trim_ascii_copy (lit "Content-Disposition")) =
      lit "content-disposition" := by decide
  obtain ⟨s, hs⟩ := disposition_ends p
  unfold set_header
  rw [hkey, StringMap.lookup_set_self, hs, trim_of_ends (by decide) (by decide)]

theorem headers_lines (hp : ValidPart boundary p) :
    ∀ header ∈ p.headers, (13 : UInt8) ∉ header_line header ∧ (58 : UInt8) ∉ header.1 := by
  have hvalid : ∀ header, ValidHeader header →
      (13 : UInt8) ∉ header_line header ∧ (58 : UInt8) ∉ header.1 := by
    intro header h
    refine ⟨?_, h.name_no_colon⟩
    simp [header_line, h.name_no_cr, h.value_no_cr]
  intro header hheader
  rw [Part.headers, mem_append, mem_cons] at hheader
  rcases hheader with h | rfl | h
  · exact hvalid header (hp.before header h)
  · have hname : (13 : UInt8) ∉ lit "Content-Disposition" := by decide
    have hcolon : (58 : UInt8) ∉ lit "Content-Disposition" := by decide
    refine ⟨?_, hcolon⟩
    simp [header_line, hname, disposition_no_cr hp]
  · exact hvalid header (hp.after header h)

end Headers

/-! ## Parts -/

section Parts

/-- The spool file is there, and the temp file can be created and written. -/
structure Works (env : Env) (pieces : List Bytes) : Prop where
  spool : env.spool = some pieces
  token : env.token ≠ []
  create : env.create = true
  context : env.context = true
  good : ∀ n, env.good n = true
  digest : env.digest = true

variable (sha256_hex : Bytes → Bytes) (env : Env) (doc_root : Bytes) (upload_max_bytes : ℕ)

def upload_path (p : Part) : Bytes :=
  temp_root doc_root ++ lit "/upload-" ++ env.token ++
    file_extension (sanitize_filename p.file_name)

def uploaded (p : Part) : UploadedFile where
  temp_path := upload_path env doc_root p
  filename := sanitize_filename p.file_name
  content_type :=
    let field_content_type := (p.header_map.lookup (lit "content-type")).getD []
    if field_content_type = [] then lit "application/octet-stream" else field_content_type
  sha256 := sha256_hex p.body
  size := p.body.length

def accept (result : ParseResult) (p : Part) : ParseResult :=
  if p.is_file then
    { result with file := uploaded sha256_hex env doc_root p, has_file := true }.set_field p.name
      p.value
  else result.set_field p.name p.value

def accept_temp (temp : Temp) (p : Part) : Temp :=
  if p.is_file then Function.update temp (upload_path env doc_root p) (some p.body) else temp

/-- What one pass of the parser comes to. -/
structure PartOutcome (temp : Temp) (result : ParseResult) (p : Part) (tail : Bytes)
    (is_final : Bool) (out : Parse (ParseResult × Reader Pieces × Bool)) : Prop where
  within : p.body.length ≤ p.limit upload_max_bytes → ∃ r,
    out = (accept_temp env doc_root temp p,
      .ok (accept sha256_hex env doc_root result p, r, is_final)) ∧
      (is_final = false → Good r ∧ r.rest = tail)
  above : p.limit upload_max_bytes < p.body.length →
    ∃ temp' error, out = (temp', .error error) ∧ error.status = 413

variable {sha256_hex env doc_root upload_max_bytes}
variable {boundary : Bytes} {p : Part} {pieces : List Bytes}
variable {temp : Temp} {result : ParseResult} {r : Reader Pieces} {tail : Bytes} {is_final : Bool}

theorem parse_file_part_spec (hworks : Works env pieces) (hp : ValidPart boundary p)
    (hboundary : (13 : UInt8) ∉ boundary) (hfile : p.is_file = true) (hbody : p.body ≠ [])
    (hfirst : result.has_file = false) (hr : Good r)
    (hrest : r.rest = p.body ++ (delimiter boundary ++ (mark is_final ++ tail))) :
    PartOutcome sha256_hex env doc_root upload_max_bytes temp result p tail is_final
      (parse_file_part sha256_hex env doc_root upload_max_bytes boundary temp result r p.name
        p.file_name ((p.header_map.lookup (lit "content-type")).getD [])) := by
  have hlimit : p.limit upload_max_bytes = upload_max_bytes := if_pos hfile
  have hvalue : p.value = sanitize_filename p.file_name := if_pos hfile
  obtain ⟨⟨r', sink, status⟩, hread, hout⟩ := read_part_body_spec
    (file_sink_collects sha256_hex upload_max_bytes hworks.good) hboundary hr rfl hp.body hrest
  unfold parse_file_part
  rw [hfirst, if_neg Bool.false_ne_true, hworks.create, hworks.context, hworks.digest]
  dsimp only
  rw [if_neg hworks.token, if_neg (by decide)]
  erw [hread]
  rw [Option.getD_some]
  constructor
  · intro hle
    rw [hlimit] at hle
    obtain ⟨hstatus, ⟨hcontent, hsize, hsha⟩, hnext⟩ := hout.within hle
    have hpos : ¬ sink.m_size ≤ 0 := by
      rw [hsize, not_le]
      exact_mod_cast length_pos_iff.mpr hbody
    refine ⟨r', ?_, hnext⟩
    rw [hstatus]
    dsimp only
    rw [if_neg hpos, hcontent, hsha, hsize, accept_temp, if_pos hfile, accept, if_pos hfile, hvalue]
    rfl
  · intro habove
    rw [hlimit] at habove
    obtain ⟨hstatus, hexceeded⟩ := hout.above habove
    rw [hstatus]
    rw [hexceeded, if_pos rfl]
    exact ⟨_, _, rfl, rfl⟩

theorem parse_text_part_spec (hp : ValidPart boundary p) (hboundary : (13 : UInt8) ∉ boundary)
    (htext : p.is_file = false) (hr : Good r)
    (hrest : r.rest = p.body ++ (delimiter boundary ++ (mark is_final ++ tail))) :
    PartOutcome sha256_hex env doc_root upload_max_bytes temp result p tail is_final
      (parse_text_part boundary temp result r p.name) := by
  have hfile : ¬ p.is_file = true := by
    rw [htext]
    exact Bool.false_ne_true
  have hlimit : p.limit upload_max_bytes = kMultipartTextFieldLimitBytes := if_neg hfile
  have hvalue : p.value = p.body := if_neg hfile
  obtain ⟨⟨r', sink, status⟩, hread, hout⟩ := read_part_body_spec
    (text_sink_collects kMultipartTextFieldLimitBytes) hboundary hr rfl hp.body hrest
  unfold parse_text_part
  dsimp only
  rw [hread, Option.getD_some]
  constructor
  · intro hle
    rw [hlimit] at hle
    obtain ⟨hstatus, hcontent, hnext⟩ := hout.within hle
    dsimp only at hstatus hcontent hnext ⊢
    refine ⟨r', ?_, hnext⟩
    rw [hstatus]
    rw [hcontent, accept_temp, if_neg hfile, accept, if_neg hfile, hvalue]
  · intro habove
    rw [hlimit] at habove
    obtain ⟨hstatus, hexceeded⟩ := hout.above habove
    dsimp only at hstatus hexceeded ⊢
    rw [hstatus]
    rw [hexceeded, if_pos rfl]
    exact ⟨_, _, rfl, rfl⟩

theorem parse_part_spec (hworks : Works env pieces) (hp : ValidPart boundary p)
    (hboundary : (13 : UInt8) ∉ boundary)
    (hfile : p.is_file = true → p.body ≠ [] ∧ result.has_file = false) (hr : Good r)
    (hrest : r.rest = encode_headers p.headers ++ CRLF ++ p.body ++ delimiter boundary ++
      (mark is_final ++ tail)) :
    PartOutcome sha256_hex env doc_root upload_max_bytes temp result p tail is_final
      (parse_part sha256_hex env doc_root upload_max_bytes boundary temp result r) := by
  simp only [append_assoc] at hrest
  obtain ⟨r₁, hheaders, hr₁, hrest₁⟩ := read_headers_spec hr (headers_lines hp) hrest
  unfold parse_part
  rw [hheaders]
  dsimp only
  have hdisposition := header_map_disposition hp
  unfold Part.header_map at hdisposition
  rw [hdisposition]
  dsimp only
  rw [field_name_eq hp, field_filename_eq hp]
  by_cases hname : p.file_name ≠ []
  · rw [if_pos hname]
    have his : p.is_file = true := decide_eq_true hname
    obtain ⟨hbody, hfirst⟩ := hfile his
    exact parse_file_part_spec hworks hp hboundary his hbody hfirst hr₁ hrest₁
  · rw [if_neg hname]
    exact parse_text_part_spec hp hboundary (decide_eq_false hname) hr₁ hrest₁

/-! ## Bodies -/

/-- The rest of a body, from some part on. -/
structure BodyOk (boundary : Bytes) (parts : List Part) (result : ParseResult) : Prop where
  valid : ∀ p ∈ parts, ValidPart boundary p
  filled : ∀ p ∈ parts, p.is_file = true → p.body ≠ []
  one : result.has_file.toNat + parts.countP Part.is_file ≤ 1

theorem has_file_set_field (result : ParseResult) (name value : Bytes) :
    (result.set_field name value).has_file = result.has_file := by
  unfold ParseResult.set_field
  split <;> rfl

theorem has_file_accept (result : ParseResult) (p : Part) :
    (accept sha256_hex env doc_root result p).has_file = (result.has_file || p.is_file) := by
  unfold accept
  cases hfile : p.is_file with
  | true =>
    rw [if_pos rfl, has_file_set_field, Bool.or_true]
  | false =>
    rw [if_neg Bool.false_ne_true, has_file_set_field, Bool.or_false]

variable {parts : List Part}

theorem BodyOk.first (h : BodyOk boundary (p :: parts) result) (hfile : p.is_file = true) :
    p.body ≠ [] ∧ result.has_file = false := by
  refine ⟨h.filled p (mem_cons_self) hfile, ?_⟩
  have hone := h.one
  rw [countP_cons_of_pos hfile] at hone
  cases hhas : result.has_file with
  | false => rfl
  | true =>
    rw [hhas, Bool.toNat_true] at hone
    omega

theorem BodyOk.behind (h : BodyOk boundary (p :: parts) result) :
    BodyOk boundary parts (accept sha256_hex env doc_root result p) := by
  refine ⟨fun q hq => h.valid q (mem_cons_of_mem _ hq),
    fun q hq => h.filled q (mem_cons_of_mem _ hq), ?_⟩
  have hone := h.one
  rw [has_file_accept]
  cases hfile : p.is_file with
  | false =>
    rw [countP_cons_of_neg (by rw [hfile]; exact Bool.false_ne_true)] at hone
    rw [Bool.or_false]
    exact hone
  | true =>
    rw [countP_cons_of_pos hfile] at hone
    rw [Bool.or_true, Bool.toNat_true]
    omega

theorem parse_loop_spec (hworks : Works env pieces) (hboundary : (13 : UInt8) ∉ boundary) :
    ∀ (parts : List Part) (fuel : ℕ) (temp : Temp) (result : ParseResult) (r : Reader Pieces),
      parts ≠ [] → parts.length ≤ fuel → BodyOk boundary parts result → Good r →
      r.rest = encode_parts boundary parts →
      (parts.foldl (accept sha256_hex env doc_root) result).has_file = true →
      ((∀ p ∈ parts, p.body.length ≤ p.limit upload_max_bytes) →
        parse_loop sha256_hex env doc_root upload_max_bytes boundary fuel temp result r =
          (parts.foldl (accept_temp env doc_root) temp,
            .ok (parts.foldl (accept sha256_hex env doc_root) result))) ∧
      ((∃ p ∈ parts, p.limit upload_max_bytes < p.body.length) →
        ∃ temp' error,
          parse_loop sha256_hex env doc_root upload_max_bytes boundary fuel temp result r =
            (temp', .error error) ∧ error.status = 413) := by
  intro parts
  induction parts with
  | nil => exact fun _ _ _ _ hne => absurd rfl hne
  | cons p parts ih =>
    intro fuel temp result r _ hfuel hok hr hrest hhas
    rw [length_cons] at hfuel
    obtain ⟨fuel, rfl⟩ : ∃ n, fuel = n + 1 := ⟨fuel - 1, by omega⟩
    have hpart : PartOutcome sha256_hex env doc_root upload_max_bytes temp result p _
        parts.isEmpty
        (parse_part sha256_hex env doc_root upload_max_bytes boundary temp result r) :=
      parse_part_spec hworks (hok.valid p (mem_cons_self)) hboundary hok.first hr hrest
    unfold parse_loop
    by_cases hthis : p.body.length ≤ p.limit upload_max_bytes
    · obtain ⟨r₁, hparse, hnext⟩ := hpart.within hthis
      rw [hparse]
      cases parts with
      | nil =>
        -- the last part
        simp only [isEmpty_nil, foldl_cons, foldl_nil] at hhas ⊢
        rw [hhas, if_neg Bool.noConfusion]
        refine ⟨fun _ => rfl, ?_⟩
        rintro ⟨q, hq, habove⟩
        rw [mem_singleton.mp hq] at habove
        exact absurd hthis (not_le.mpr habove)
      | cons q parts =>
        simp only [isEmpty_cons] at hnext ⊢
        obtain ⟨hr₁, hrest₁⟩ := hnext trivial
        obtain ⟨haccepts, hrefuses⟩ := ih fuel (accept_temp env doc_root temp p) _ r₁
          (cons_ne_nil _ _) (Nat.le_of_succ_le_succ hfuel) hok.behind hr₁ hrest₁ hhas
        refine ⟨fun hlimits => haccepts fun p' hp' => hlimits p' (mem_cons_of_mem _ hp'), ?_⟩
        rintro ⟨p', hp', habove⟩
        rcases mem_cons.mp hp' with rfl | hp'
        · exact absurd hthis (not_le.mpr habove)
        · exact hrefuses ⟨p', hp', habove⟩
    · obtain ⟨temp', error, hparse, hstatus⟩ := hpart.above (not_le.mp hthis)
      rw [hparse]
      exact ⟨fun hlimits => absurd (hlimits p (mem_cons_self)) hthis,
        fun _ => ⟨temp', error, rfl, hstatus⟩⟩

/-! ## The result -/

theorem fields_foldl_accept (parts : List Part) (result : ParseResult) {name : Bytes}
    (hname : name ≠ []) :
    (parts.foldl (accept sha256_hex env doc_root) result).fields.lookup name =
      ((parts.filter fun p => decide (p.name = name)).getLast?.map Part.value).or
        (result.fields.lookup name) := by
  have hset : ∀ (result : ParseResult) (p : Part),
      (accept sha256_hex env doc_root result p).fields.lookup name =
        if p.name = name then some p.value else result.fields.lookup name := by
    intro result p
    have hfield : ∀ (result : ParseResult) (value : Bytes),
        (result.set_field p.name value).fields.lookup name =
          if p.name = name then some value else result.fields.lookup name := by
      intro result value
      unfold ParseResult.set_field
      by_cases hempty : p.name = []
      · have hne : p.name ≠ name := fun h => hname (h.symm.trans hempty)
        rw [if_pos hempty, if_neg hne]
      rw [if_neg hempty]
      by_cases heq : p.name = name
      · rw [if_pos heq, heq]
        exact StringMap.lookup_set_self _ _ _
      · rw [if_neg heq]
        exact StringMap.lookup_set_of_ne _ _ (Ne.symm heq)
    unfold accept
    split <;> rw [hfield]
  induction parts using reverseRecOn with
  | nil => rfl
  | append_singleton parts p ih =>
    rw [foldl_append, foldl_cons, foldl_nil, hset, filter_append]
    by_cases heq : p.name = name
    · have hlast : ([p].filter fun p => decide (p.name = name)) = [p] := by simp [heq]
      rw [if_pos heq, hlast, getLast?_concat]
      rfl
    · have hnone : ([p].filter fun p => decide (p.name = name)) = [] := by simp [heq]
      rw [if_neg heq, hnone, append_nil, ih]

theorem file_set_field (result : ParseResult) (name value : Bytes) :
    (result.set_field name value).file = result.file := by
  unfold ParseResult.set_field
  split <;> rfl

variable (sha256_hex env doc_root)

theorem foldl_accept_text (htext : ∀ p ∈ parts, p.is_file = false) (result : ParseResult) :
    (parts.foldl (accept sha256_hex env doc_root) result).file = result.file ∧
      (parts.foldl (accept sha256_hex env doc_root) result).has_file = result.has_file := by
  induction parts generalizing result with
  | nil => exact ⟨rfl, rfl⟩
  | cons p parts ih =>
    have haccept : accept sha256_hex env doc_root result p = result.set_field p.name p.value := by
      unfold accept
      rw [htext p (mem_cons_self), if_neg Bool.false_ne_true]
    obtain ⟨hfile, hhas⟩ := ih (fun q hq => htext q (mem_cons_of_mem _ hq))
      (result.set_field p.name p.value)
    rw [foldl_cons, haccept]
    rw [file_set_field] at hfile
    rw [has_file_set_field] at hhas
    exact ⟨hfile, hhas⟩

theorem foldl_accept_temp_text (htext : ∀ p ∈ parts, p.is_file = false) (temp : Temp) :
    parts.foldl (accept_temp env doc_root) temp = temp := by
  induction parts with
  | nil => rfl
  | cons p parts ih =>
    rw [foldl_cons, accept_temp, htext p (mem_cons_self), if_neg Bool.false_ne_true]
    exact ih fun q hq => htext q (mem_cons_of_mem _ hq)

theorem foldl_accept_file {file : Part} (hone : parts.filter Part.is_file = [file])
    (result : ParseResult) (temp : Temp) :
    (parts.foldl (accept sha256_hex env doc_root) result).file =
        uploaded sha256_hex env doc_root file ∧
      (parts.foldl (accept sha256_hex env doc_root) result).has_file = true ∧
      parts.foldl (accept_temp env doc_root) temp =
        Function.update temp (upload_path env doc_root file) (some file.body) := by
  obtain ⟨before, after, rfl, hbefore, hfile, hafter⟩ := filter_eq_cons_iff.mp hone
  have hnone : ∀ p ∈ before, p.is_file = false := fun p hp =>
    Bool.eq_false_iff.mpr (hbefore p hp)
  have hnone' : ∀ p ∈ after, p.is_file = false := fun p hp =>
    Bool.eq_false_iff.mpr (filter_eq_nil_iff.mp hafter p hp)
  rw [foldl_append, foldl_append, foldl_cons, foldl_cons,
    foldl_accept_temp_text env doc_root hnone, foldl_accept_temp_text env doc_root hnone']
  generalize before.foldl (accept sha256_hex env doc_root) result = middle
  obtain ⟨hkept, hhas⟩ := foldl_accept_text sha256_hex env doc_root hnone'
    (accept sha256_hex env doc_root middle file)
  refine ⟨hkept.trans ?_, hhas.trans ?_, ?_⟩
  · unfold accept
    rw [hfile, if_pos rfl, file_set_field]
  · rw [has_file_accept, hfile, Bool.or_true]
  · unfold accept_temp
    rw [hfile, if_pos rfl]

theorem boundary_of_content_type (hboundary : ValidBoundary boundary) :
    boundary_of (content_type boundary) = some boundary := by
  have htext : ¬ lit "boundary=" <:+: lit "multipart/form-data; " := by decide
  have hfind : find (lit "boundary=") (content_type boundary) =
      some (lit "multipart/form-data; ").length :=
    find_first (by decide) htext boundary
  have hdrop : (content_type boundary).drop
      ((lit "multipart/form-data; ").length + (lit "boundary=").length) = boundary := by
    have hlen : (lit "multipart/form-data; ").length + (lit "boundary=").length =
        (lit "multipart/form-data; boundary=").length := by decide
    rw [hlen]
    exact drop_left
  have hhead : boundary.head? ≠ some 34 := by
    intro h
    exact hboundary.no_quote (mem_of_mem_head? h)
  unfold boundary_of
  rw [hfind, Option.map_some, hdrop, hboundary.trimmed]
  rw [if_neg fun h => hhead h.2.1]

theorem length_encode_parts (boundary : Bytes) (parts : List Part) :
    parts.length ≤ (encode_parts boundary parts).length := by
  induction parts with
  | nil => exact Nat.zero_le _
  | cons p parts ih =>
    simp only [encode_parts, length_append, length_cons, CRLF, length_nil]
    split
    · rename_i hempty
      rw [isEmpty_iff.mp hempty] at *
      simp only [length_nil]
      omega
    · omega

/-- **Parsing inverts encoding.** A body of parts of which one is a file, read in any pieces:
within the limits the parse succeeds, each field has the value of the last part of its name,
and the temp file is the file's body, with its size and digest; above a limit it fails with
status 413. -/
theorem spooled_multipart_inverts {boundary : Bytes} (hboundary : ValidBoundary boundary)
    (parts : List Part) (hparts : ∀ p ∈ parts, ValidPart boundary p) {file : Part}
    (hone : parts.filter Part.is_file = [file]) (hbody : file.body ≠ []) {pieces : List Bytes}
    (hpieces : pieces.flatten = encode boundary parts) (hread : ∀ piece ∈ pieces, piece ≠ [])
    (hworks : Works env pieces) {spool_path : Bytes} (hspool : spool_path ≠ [])
    (upload_max_bytes : ℕ) (temp : Temp) :
    ((∀ p ∈ parts, p.body.length ≤ p.limit upload_max_bytes) →
      ∃ result,
        parse_spooled_multipart sha256_hex env spool_path (content_type boundary) doc_root
            upload_max_bytes temp =
          (Function.update temp result.file.temp_path (some file.body), .ok result) ∧
        (∀ name, name ≠ [] → result.fields.lookup name =
          (parts.filter fun p => decide (p.name = name)).getLast?.map Part.value) ∧
        result.has_file = true ∧ result.file.size = file.body.length ∧
        result.file.sha256 = sha256_hex file.body) ∧
    ((∃ p ∈ parts, p.limit upload_max_bytes < p.body.length) →
      ∃ temp' error,
        parse_spooled_multipart sha256_hex env spool_path (content_type boundary) doc_root
            upload_max_bytes temp = (temp', .error error) ∧ error.status = 413) := by
  have hcount : parts.countP Part.is_file = 1 := by
    rw [countP_eq_length_filter, hone]
    rfl
  have hne : parts ≠ [] := by
    rintro rfl
    contradiction
  have hok : BodyOk boundary parts .init := by
    refine ⟨hparts, fun p hp hfile => ?_, ?_⟩
    · have hmem : p ∈ parts.filter Part.is_file := mem_filter.mpr ⟨hp, hfile⟩
      rw [hone, mem_singleton] at hmem
      rw [hmem]
      exact hbody
    · rw [hcount]
      exact le_refl _
  -- the preamble
  have hgood : Good (.init pieces) := ⟨rfl, hread⟩
  have hrest : (Reader.init pieces).rest =
      (lit "--" ++ boundary) ++ (CRLF ++ encode_parts boundary parts) := by
    show [] ++ pieces.flatten = _
    rw [nil_append, hpieces, encode, append_assoc]
  have hline : (13 : UInt8) ∉ lit "--" ++ boundary := by
    rw [mem_append, not_or]
    exact ⟨by decide, hboundary.no_cr⟩
  obtain ⟨r, hpreamble, hr, hrest₁, -⟩ := read_line_spec hline
    (show (Reader.init pieces).m_file.length < (Reader.init pieces).passes by
      unfold Reader.passes
      omega) hgood hrest
  have hparse : parse_spooled_multipart sha256_hex env spool_path (content_type boundary) doc_root
      upload_max_bytes temp = parse_loop sha256_hex env doc_root upload_max_bytes boundary
        (r.rest.length + 1) temp .init r := by
    unfold parse_spooled_multipart
    rw [if_neg hspool, boundary_of_content_type hboundary]
    dsimp only
    rw [if_neg hboundary.ne_nil, hworks.spool]
    dsimp only
    rw [hpreamble]
    dsimp only
    rw [if_neg (not_not.mpr rfl)]
  have hfuel : parts.length ≤ r.rest.length + 1 := by
    have := length_encode_parts boundary parts
    rw [hrest₁]
    omega
  obtain ⟨hfile, hhas, htemp⟩ := foldl_accept_file sha256_hex env doc_root hone .init temp
  rw [hparse]
  obtain ⟨haccepts, hrefuses⟩ :=
    parse_loop_spec hworks hboundary.no_cr parts _ temp .init r hne hfuel hok hr hrest₁ hhas
  refine ⟨fun hlimits => ?_, hrefuses⟩
  refine ⟨parts.foldl (accept sha256_hex env doc_root) .init, ?_, ?_, hhas, ?_, ?_⟩
  · rw [haccepts hlimits, htemp, hfile]
    rfl
  · intro name hname
    rw [fields_foldl_accept parts .init hname]
    exact Option.or_none
  · rw [hfile]
    rfl
  · rw [hfile]
    rfl

def note_with_file : List Part :=
  [⟨[], lit "title", none, [], lit "Hi"⟩,
    ⟨[], lit "file", some (lit "a.txt"), [(lit "Content-Type", lit "text/plain")], lit "Hey"⟩]

theorem note_with_file_valid : ∀ p ∈ note_with_file, ValidPart (lit "b") p := by
  intro p hp
  simp only [note_with_file, mem_cons, not_mem_nil, or_false] at hp
  rcases hp with rfl | rfl
  · refine ⟨by simp, by simp, by decide, by decide, by decide, by simp, by simp, by decide⟩
  refine ⟨by simp, ?_, by decide, by decide, by decide, ?_, ?_, by decide⟩
  · intro header hheader
    obtain rfl := mem_singleton.mp hheader
    exact ⟨by decide, by decide, by decide, by decide⟩
  · rintro _ ⟨rfl⟩
    decide
  · rintro _ ⟨rfl⟩
    decide

def bytewise (s : Bytes) : Env :=
  ⟨some (s.map fun c => [c]), lit "t", true, true, fun _ => true, true⟩

/-- The two parts are read back. -/
theorem note_with_file_read :
    ∃ result,
      parse_spooled_multipart id (bytewise (encode (lit "b") note_with_file)) (lit "/s")
          (content_type (lit "b")) (lit "/r") 10 (fun _ => none) =
        (Function.update (fun _ => none) result.file.temp_path (some (lit "Hey")), .ok result) ∧
      (∀ name, name ≠ [] → result.fields.lookup name =
        (note_with_file.filter fun p => decide (p.name = name)).getLast?.map Part.value) ∧
      result.has_file = true ∧ result.file.size = ((lit "Hey").length : ℤ) ∧
      result.file.sha256 = id (lit "Hey") := by
  have hboundary : ValidBoundary (lit "b") := ⟨by decide, by decide, by decide, by decide⟩
  refine (spooled_multipart_inverts id (bytewise (encode (lit "b") note_with_file)) (lit "/r")
    hboundary note_with_file note_with_file_valid rfl (by decide) (by decide +kernel) ?_
    ⟨rfl, by decide, rfl, rfl, fun _ => rfl, rfl⟩ (by decide) 10 fun _ => none).1 ?_
  · intro piece hpiece
    obtain ⟨c, -, rfl⟩ := mem_map.mp hpiece
    exact cons_ne_nil _ _
  · decide

/-- A part that says it is a file, with an empty name. -/
def unnamed_file : Part := ⟨[], lit "file", some [], [], lit "Hey"⟩

/-- **A file without a name is not a file**: the body is refused for having none. -/
theorem empty_filename_refused :
    ValidBoundary (lit "b") ∧ ValidPart (lit "b") unnamed_file ∧
      unnamed_file.filename.isSome = true ∧ unnamed_file.body.length = 3 ∧
      ∃ temp, parse_spooled_multipart id (bytewise (encode (lit "b") [unnamed_file])) (lit "/s")
        (content_type (lit "b")) (lit "/r") 10 (fun _ => none) =
          (temp, .error ⟨⟨400, lit "Bad Request", lit "missing file field"⟩, .init⟩) := by
  refine ⟨⟨by decide, by decide, by decide, by decide⟩, ?_, rfl, rfl, fun _ => none, rfl⟩
  refine ⟨nofun, nofun, by decide, by decide,
    by decide, ?_, ?_, by decide⟩
  · rintro _ ⟨rfl⟩
    decide
  · rintro _ ⟨rfl⟩
    decide

end Parts

end AtlasWebServer.Multipart
