/-
Multipart bodies from a spool file: `http/files/multipart_parser.cpp`, with the sink of
`infra/storage/storage.cpp`.

The reader is over any file that has `fread` and `ferror` (`FileOps`). Its functions have fuel, and
`none` is a run that has used it up. The parser reads a file without errors, given by what
`fread` will return, piece by piece (`Pieces`), so that every way of reading it is a list of
pieces. A sink is what takes the bytes of a part: a string with a limit, or the upload's
temp file with a limit and a digest. `read_part_body` is a template over it, and is one here
(`SinkOps`).

A `std::map` is a list of its entries. The temp files are the third component of the state: what
`parse_spooled_multipart` leaves on disk is part of its result. Sizes are exact: neither
the limit nor a file reaches `2 ^ 63` bytes, so the casts to `long` keep their values.
-/
import AtlasWebServer.FileNames
import AtlasWebServer.Search
import Mathlib.Logic.Function.Basic

set_option autoImplicit false

namespace AtlasWebServer.Multipart

open Bytes CString FileNames Search

/-! ## Strings -/

def kMultipartTextFieldLimitBytes : ℕ := 64 * 1024

def CRLF : Bytes := [13, 10]

def trim_ascii_copy (value : Bytes) : Bytes :=
  ((value.dropWhile isspace).reverse.dropWhile isspace).reverse

def header_param_value (header_line key : Bytes) : Bytes :=
  let pattern := key ++ lit "="
  match find pattern header_line with
  | none => []
  | some pos =>
      match (header_line.drop (pos + pattern.length)).dropWhile isspace with
      | [] => []
      | ch :: rest =>
          if ch = 34 then
            match find [34] rest with
            | none => []
            | some fin => rest.take fin
          else
            let text := ch :: rest
            trim_ascii_copy (text.take ((find [59] text).getD text.length))

/-- A `std::map` of strings. -/
abbrev StringMap := List (Bytes × Bytes)

def StringMap.set (map : StringMap) (key value : Bytes) : StringMap :=
  (key, value) :: map.filter fun entry => entry.1 ≠ key

theorem StringMap.lookup_set (map : StringMap) (key value other : Bytes) :
    (map.set key value).lookup other = ((key, value) :: map).lookup other :=
  lookup_cons_filter map key other value

theorem StringMap.lookup_set_self (map : StringMap) (key value : Bytes) :
    (map.set key value).lookup key = some value := by
  rw [StringMap.lookup_set, List.lookup_cons_self]

theorem StringMap.lookup_set_of_ne (map : StringMap) {key other : Bytes} (value : Bytes)
    (h : other ≠ key) : (map.set key value).lookup other = map.lookup other := by
  rw [StringMap.lookup_set, List.lookup_cons, beq_eq_false_iff_ne.mpr h]

/-! ## Sinks -/

/-- The two functions a sink has. -/
structure SinkOps (σ : Type) where
  write : σ → Bytes → σ × Bool
  finish : σ → σ × Bool

structure MultipartTextSink where
  m_limit : ℕ
  m_limit_exceeded : Bool
  m_value : Bytes

/-- The functions of a `MultipartTextSink`. -/
def text_sink : SinkOps MultipartTextSink where
  write sink data :=
    if sink.m_value.length + data.length > sink.m_limit then
      ({ sink with m_limit_exceeded := true }, false)
    else ({ sink with m_value := sink.m_value ++ data }, true)
  finish sink := (sink, true)

/-- `FileSha256Sink`. `m_content` is what is in the file; `good n` says whether the stream is
good after `n` bytes, and `digest` whether the digest functions succeed. -/
structure FileSha256Sink where
  m_content : Bytes
  m_size : ℤ
  m_max_bytes : ℕ
  m_limit_exceeded : Bool
  m_finished : Bool
  m_sha256 : Bytes
  good : ℕ → Bool
  digest : Bool

def file_sink (sha256_hex : Bytes → Bytes) : SinkOps FileSha256Sink where
  write sink data :=
    if sink.m_size + data.length > sink.m_max_bytes then
      ({ sink with m_limit_exceeded := true }, false)
    else if data = [] then (sink, true)
    else if sink.good (sink.m_content.length + data.length) = false then (sink, false)
    else if sink.digest = false then ({ sink with m_content := sink.m_content ++ data }, false)
    else
      ({ sink with m_content := sink.m_content ++ data, m_size := sink.m_size + data.length }, true)
  finish sink :=
    if sink.m_finished then (sink, true)
    else if sink.good sink.m_content.length = false then (sink, false)
    else if sink.digest = false then (sink, false)
    else ({ sink with m_sha256 := sha256_hex sink.m_content, m_finished := true }, true)

/-! ## `MultipartTempFileReader` -/

/-- `fread` and `ferror`: the bytes a call reads and the file behind it, and whether its error
indicator is set. -/
structure FileOps (φ : Type) where
  fread : φ → φ × Bytes
  ferror : φ → Bool

/-- `MultipartTempFileReader`. -/
structure Reader (φ : Type) where
  m_file : φ
  m_eof : Bool
  m_buffer : Bytes

def Reader.init {φ : Type} (m_file : φ) : Reader φ := ⟨m_file, false, []⟩

section Reading

variable {φ : Type} (io : FileOps φ)

def Reader.erase (r : Reader φ) (n : ℕ) : Reader φ := { r with m_buffer := r.m_buffer.drop n }

def fill (r : Reader φ) : Reader φ × Bool :=
  if r.m_eof then (r, false)
  else
    let read := io.fread r.m_file
    let r := { r with m_file := read.1, m_buffer := r.m_buffer ++ read.2 }
    if read.2 ≠ [] then (r, true)
    else if io.ferror r.m_file then (r, false)
    else ({ r with m_eof := true }, decide (r.m_buffer ≠ []))

/-- `read_line`. The inner `none` is where it returns false. -/
def read_line : ℕ → Reader φ → Option (Reader φ × Option Bytes)
  | 0, _ => none
  | fuel + 1, r =>
      match find CRLF r.m_buffer with
      | some pos => some (r.erase (pos + 2), some (r.m_buffer.take pos))
      | none =>
          match fill io r with
          | (r, false) => some (r, none)
          | (r, true) => read_line fuel r

def read_headers_loop : ℕ → Reader φ → StringMap → Option (Reader φ × Option StringMap)
  | 0, _, _ => none
  | fuel + 1, r, headers =>
      match read_line io fuel r with
      | none => none
      | some (r, none) => some (r, none)
      | some (r, some line) =>
          if line = [] then some (r, some headers)
          else
            match find [58] line with
            | none => some (r, none)
            | some colon =>
                read_headers_loop fuel r
                  (headers.set (lowercase (trim_ascii_copy (line.take colon)))
                    (trim_ascii_copy (line.drop (colon + 1))))

def read_headers (fuel : ℕ) (r : Reader φ) : Option (Reader φ × Option StringMap) :=
  read_headers_loop io fuel r []

/-- `while (m_buffer.size() < 2 && !m_eof) fill();`. -/
def fill_two : ℕ → Reader φ → Option (Reader φ)
  | 0, _ => none
  | fuel + 1, r =>
      if r.m_buffer.length < 2 ∧ r.m_eof = false then fill_two fuel (fill io r).1 else some r

variable {σ : Type} (ops : SinkOps σ)

/-- The end of `consume_delimiter`, with two bytes behind the delimiter if there are two.
`some is_final` is where it returns 1. -/
def consume_mark (r : Reader φ) (sink : σ) : Reader φ × σ × Option Bool :=
  if r.m_buffer.length < 2 then (r, sink, none)
  else if r.m_buffer.take 2 = lit "--" then
    let r := r.erase 2
    let r := if r.m_buffer.length < 2 ∧ r.m_eof = false then (fill io r).1 else r
    let r := if r.m_buffer.length ≥ 2 ∧ r.m_buffer.take 2 = CRLF then r.erase 2 else r
    let finished := ops.finish sink
    (r, finished.1, if finished.2 then some true else none)
  else if r.m_buffer.take 2 = CRLF then
    let finished := ops.finish sink
    (r.erase 2, finished.1, if finished.2 then some false else none)
  else (r, sink, none)

/-- `consume_delimiter`. The inner `none` is where it returns -1. -/
def consume_delimiter (fuel : ℕ) (delimiter : Bytes) (r : Reader φ) (sink : σ) :
    Option (Option (Reader φ × σ × Option Bool)) :=
  match find delimiter r.m_buffer with
  | none => some none
  | some pos =>
      let written := if pos > 0 then ops.write sink (r.m_buffer.take pos) else (sink, true)
      if written.2 = false then some (some (r, written.1, none))
      else
        (fill_two io fuel (r.erase (pos + delimiter.length))).map fun r =>
          some (consume_mark io ops r written.1)

def read_part_body_loop (delimiter : Bytes) :
    ℕ → Reader φ → σ → Option (Reader φ × σ × Option Bool)
  | 0, _, _ => none
  | fuel + 1, r, sink =>
      match consume_delimiter io ops fuel delimiter r sink with
      | none => none
      | some (some out) => some out
      | some none =>
          if r.m_eof then some (r, sink, none)
          else
            let filled := fill io r
            if filled.2 = false ∧ filled.1.m_eof then some (filled.1, sink, none)
            else
              let r := filled.1
              match consume_delimiter io ops fuel delimiter r sink with
              | none => none
              | some (some out) => some out
              | some none =>
                  if r.m_buffer.length > delimiter.length then
                    let flush := r.m_buffer.length - delimiter.length
                    let written := ops.write sink (r.m_buffer.take flush)
                    if written.2 = false then some (r, written.1, none)
                    else read_part_body_loop delimiter fuel (r.erase flush) written.1
                  else read_part_body_loop delimiter fuel r sink

/-- `read_part_body`: the reader and the sink behind it, and `is_final` where it returns
true. -/
def read_part_body (fuel : ℕ) (boundary : Bytes) (r : Reader φ) (sink : σ) :
    Option (Reader φ × σ × Option Bool) :=
  read_part_body_loop io ops (CRLF ++ lit "--" ++ boundary) fuel r sink

end Reading

/-! ## A file without errors -/

/-- The pieces in which `fread` returns the file. -/
abbrev Pieces := List Bytes

def pieces_ops : FileOps Pieces where
  fread pieces := (pieces.tail, pieces.headD [])
  ferror _ := false

/-- What has not been taken from the reader yet. -/
def Reader.rest (r : Reader Pieces) : Bytes := r.m_buffer ++ r.m_file.flatten

/-- Enough fuel for every function: a pass takes a piece or a line, but for the last ones. -/
def Reader.passes (r : Reader Pieces) : ℕ := r.m_file.length + r.rest.length + 2

/-! ## `parse_spooled_multipart` -/

structure UploadedFile where
  temp_path : Bytes
  filename : Bytes
  content_type : Bytes
  sha256 : Bytes
  size : ℤ

structure ParseResult where
  fields : StringMap
  file : UploadedFile
  has_file : Bool

def ParseResult.init : ParseResult := ⟨[], ⟨[], [], [], [], 0⟩, false⟩

/-- `result.fields[name] = value`, unless the name is empty. -/
def ParseResult.set_field (result : ParseResult) (name value : Bytes) : ParseResult :=
  if name = [] then result
  else { result with fields := result.fields.set name value }

structure ParseError where
  status : ℤ
  title : Bytes
  message : Bytes
  deriving DecidableEq

/-- The two out-parameters of a call that returns false. -/
structure Failed extends ParseError where
  result : ParseResult

/-- What the environment answers: the pieces of the spool file if it can be opened, the
random token, whether the temp file can be created, whether there is memory for the context
of the digest, and whether the file can be written and the digest computed. -/
structure Env where
  spool : Option Pieces
  token : Bytes
  create : Bool
  context : Bool
  good : ℕ → Bool
  digest : Bool

/-- The temp files by path. -/
abbrev Temp := Bytes → Option Bytes

/-- The temp files and a result or an error. -/
abbrev Parse (α : Type) := Temp × Except Failed α

def fail {α : Type} (temp : Temp) (result : ParseResult) (status : ℤ) (title message : Bytes) :
    Parse α :=
  (if result.file.temp_path = [] then temp else Function.update temp result.file.temp_path none,
    .error ⟨⟨status, title, message⟩, .init⟩)

def temp_root (doc_root : Bytes) : Bytes := doc_root ++ lit "/uploads" ++ lit "/.tmp"

section Parsing

variable (sha256_hex : Bytes → Bytes) (env : Env) (doc_root : Bytes) (upload_max_bytes : ℕ)
variable (boundary : Bytes)

def parse_file_part (temp : Temp) (result : ParseResult) (r : Reader Pieces)
    (field_name field_filename field_content_type : Bytes) :
    Parse (ParseResult × Reader Pieces × Bool) :=
  if result.has_file then
    fail temp result 400 (lit "Bad Request") (lit "multiple file parts are not supported")
  else
    let safe_filename := sanitize_filename field_filename
    if env.token = [] then
      fail temp result 500 (lit "Internal Error") (lit "failed to allocate upload temp path")
    else
      let temp_path := temp_root doc_root ++ lit "/upload-" ++ env.token ++
        file_extension safe_filename
      -- the file is created before the context, and is not removed without it
      if env.create = false ∨ env.context = false then
        fail (if env.create then Function.update temp temp_path (some []) else temp) result 500
          (lit "Internal Error") (lit "failed to create upload temp file")
      else
        let sink : FileSha256Sink :=
          ⟨[], 0, upload_max_bytes, false, false, [], env.good, env.digest⟩
        let out := (read_part_body pieces_ops (file_sink sha256_hex) r.passes boundary r sink).getD
          (r, sink, none)
        let sink := out.2.1
        let removed := Function.update temp temp_path none
        match out.2.2 with
        | none =>
            if sink.m_limit_exceeded then
              fail removed result 413 (lit "Payload Too Large")
                (lit "upload exceeds limit of " ++ to_string upload_max_bytes ++ lit " bytes")
            else
              fail removed result 400 (lit "Bad Request") (lit "invalid multipart file content")
        | some is_final =>
            if sink.m_size ≤ 0 then
              fail removed result 400 (lit "Bad Request") (lit "content is empty")
            else
              let file : UploadedFile :=
                { temp_path
                  filename := safe_filename
                  content_type :=
                    if field_content_type = [] then lit "application/octet-stream"
                    else field_content_type
                  sha256 := sink.m_sha256
                  size := sink.m_size }
              (Function.update temp temp_path (some sink.m_content),
                .ok ({ result with file, has_file := true }.set_field field_name safe_filename,
                  out.1, is_final))

def parse_text_part (temp : Temp) (result : ParseResult) (r : Reader Pieces)
    (field_name : Bytes) : Parse (ParseResult × Reader Pieces × Bool) :=
  let sink : MultipartTextSink := ⟨kMultipartTextFieldLimitBytes, false, []⟩
  let out := (read_part_body pieces_ops text_sink r.passes boundary r sink).getD (r, sink, none)
  match out.2.2 with
  | none =>
      if out.2.1.m_limit_exceeded then
        fail temp result 413 (lit "Payload Too Large") (lit "multipart form field is too large")
      else fail temp result 400 (lit "Bad Request") (lit "invalid multipart field value")
  | some is_final => (temp, .ok (result.set_field field_name out.2.1.m_value, out.1, is_final))

/-- One pass of the loop of `parse_spooled_multipart`. -/
def parse_part (temp : Temp) (result : ParseResult) (r : Reader Pieces) :
    Parse (ParseResult × Reader Pieces × Bool) :=
  match read_headers pieces_ops r.passes r with
  | none | some (_, none) =>
      fail temp result 400 (lit "Bad Request") (lit "invalid multipart headers")
  | some (r, some headers) =>
      match headers.lookup (lit "content-disposition") with
      | none => fail temp result 400 (lit "Bad Request") (lit "missing content-disposition")
      | some disposition =>
          let field_name := header_param_value disposition (lit "name")
          let field_filename := header_param_value disposition (lit "filename")
          let field_content_type := (headers.lookup (lit "content-type")).getD []
          if field_filename ≠ [] then
            parse_file_part sha256_hex env doc_root upload_max_bytes boundary temp result r
              field_name field_filename field_content_type
          else parse_text_part boundary temp result r field_name

/-- The loop of `parse_spooled_multipart` and what follows it. -/
def parse_loop : ℕ → Temp → ParseResult → Reader Pieces → Parse ParseResult
  | 0, temp, result, _ =>
      fail temp result 400 (lit "Bad Request") (lit "invalid multipart headers")
  | fuel + 1, temp, result, r =>
      match parse_part sha256_hex env doc_root upload_max_bytes boundary temp result r with
      | (temp, .error error) => (temp, .error error)
      | (temp, .ok (result, r, false)) => parse_loop fuel temp result r
      | (temp, .ok (result, _, true)) =>
          if result.has_file = false then
            fail temp result 400 (lit "Bad Request") (lit "missing file field")
          else (temp, .ok result)

end Parsing

/-- The boundary of a content type, quotes removed. -/
def boundary_of (content_type : Bytes) : Option Bytes :=
  (find (lit "boundary=") content_type).map fun pos =>
    let boundary := trim_ascii_copy (content_type.drop (pos + (lit "boundary=").length))
    if boundary ≠ [] ∧ boundary.head? = some 34 ∧ boundary.getLast? = some 34 then
      (boundary.drop 1).take (boundary.length - 2)
    else boundary

/-- `parse_spooled_multipart`. Each part takes bytes from the spool file. -/
def parse_spooled_multipart (sha256_hex : Bytes → Bytes) (env : Env)
    (spool_path content_type doc_root : Bytes) (upload_max_bytes : ℕ) (temp : Temp) :
    Parse ParseResult :=
  if spool_path = [] then
    fail temp .init 400 (lit "Bad Request") (lit "missing multipart body")
  else
    match boundary_of content_type with
    | none => fail temp .init 400 (lit "Bad Request") (lit "missing multipart boundary")
    | some boundary =>
        if boundary = [] then
          fail temp .init 400 (lit "Bad Request") (lit "invalid multipart boundary")
        else
          match env.spool with
          | none =>
              fail temp .init 500 (lit "Internal Error") (lit "failed to open multipart spool file")
          | some pieces =>
              match read_line pieces_ops (Reader.init pieces).passes (.init pieces) with
              | none | some (_, none) =>
                  fail temp .init 400 (lit "Bad Request") (lit "invalid multipart preamble")
              | some (r, some line) =>
                  if line ≠ lit "--" ++ boundary then
                    fail temp .init 400 (lit "Bad Request") (lit "invalid multipart preamble")
                  else
                    parse_loop sha256_hex env doc_root upload_max_bytes boundary
                      (r.rest.length + 1) temp .init r

end AtlasWebServer.Multipart
