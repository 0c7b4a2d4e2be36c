/-
What a request carries besides its head: the query string, and the body of a `POST`
(`parse_post_body` and its three parsers in `http/core/parser.cpp`, `parse_query_string`
in `http/core/connection.cpp`, the decoders of `http/core/http_message.cpp`).

A parser adds to a map, and what it had added before it failed stays there: each returns
the map with the result.
-/
import AtlasWebServer.HttpMessage
import AtlasWebServer.MultipartParser

set_option autoImplicit false

namespace AtlasWebServer.Http

open Bytes CString FileNames Search
open Multipart (StringMap)

/-! ## Forms -/

def plus_decoded (b : UInt8) : UInt8 := if b = 43 then 32 else b

def url_decode : Bytes → Bytes
  | [] => []
  | b :: high :: low :: rest =>
      if b = 37 ∧ isxdigit high ∧ isxdigit low then
        UInt8.ofNat (hexadecimal [high, low]) :: url_decode rest
      else plus_decoded b :: url_decode (high :: low :: rest)
  | b :: rest => plus_decoded b :: url_decode rest

def add_item (map : StringMap) (item : Bytes) : StringMap :=
  let eq := find [61] item
  let key := url_decode (item.take (eq.getD item.length))
  let value := eq.elim [] fun eq => url_decode (item.drop (eq + 1))
  if key = [] then map else map.set key value

/-- The items between the ampersands; an empty one has an empty key. -/
def add_items (text : Bytes) (map : StringMap) : StringMap := (text.splitOn 38).foldl add_item map

def parse_query_string (query_string : Bytes) : StringMap := add_items query_string []

def parse_form_urlencoded (m_form_data : StringMap) (body : Bytes) : StringMap × Bool :=
  (add_items body m_form_data, true)

/-! ## JSON -/

/-- A string up to its quote: what it says, and what follows. A backslash takes the next
byte as it is. -/
def json_string : Bytes → Option (Bytes × Bytes)
  | [] => none
  | b :: rest =>
      if b = 92 then
        match rest with
        | [] => none
        | c :: rest => (json_string rest).map fun r => (c :: r.1, r.2)
      else if b = 34 then some ([], rest)
      else (json_string rest).map fun r => (b :: r.1, r.2)

/-- A value: a string, or everything up to a comma or a brace. -/
def json_value (text : Bytes) : Option (Bytes × Bytes) :=
  match text with
  | [] => none
  | b :: rest =>
      if b = 34 then json_string rest
      else
        let raw := text.takeWhile fun b => b ≠ 44 ∧ b ≠ 125
        some (trim_copy raw, text.drop raw.length)

/-- `"key" : value` behind its first quote. -/
def json_entry (text : Bytes) : Option ((Bytes × Bytes) × Bytes) :=
  match json_string text with
  | none => none
  | some (key, rest) =>
      match rest.dropWhile isspace with
      | [] => none
      | b :: rest =>
          if b = 58 then
            (json_value (rest.dropWhile isspace)).map fun r => ((key, r.1), r.2)
          else none

/-- A comma, if there is one, and the blanks before it. -/
def skip_comma (text : Bytes) : Bytes :=
  match text.dropWhile isspace with
  | b :: rest => if b = 44 then rest else b :: rest
  | [] => []

/-- The loop of `parse_json_body`, between the braces. Every pass takes a byte. -/
def parse_json_loop : ℕ → Bytes → StringMap → StringMap × Bool
  | 0, _, map => (map, false)
  | fuel + 1, text, map =>
      match text.dropWhile isspace with
      | [] => (map, true)
      | b :: rest =>
          if b = 44 then parse_json_loop fuel rest map
          else if b = 34 then
            match json_entry rest with
            | none => (map, false)
            | some ((key, value), rest) =>
                parse_json_loop fuel (skip_comma rest) (if key = [] then map else map.set key value)
          else (map, false)

def parse_json_body (m_json_data : StringMap) (body : Bytes) : StringMap × Bool :=
  let text := trim_copy body
  if text = [] then (m_json_data, true)
  else if text.length < 2 ∨ text.head? ≠ some 123 ∨ text.getLast? ≠ some 125 then
    (m_json_data, false)
  else
    let inner := (text.drop 1).take (text.length - 2)
    parse_json_loop (inner.length + 1) inner m_json_data

/-! ## Multipart bodies in memory -/

def find_from (pattern text : Bytes) (pos : ℕ) : Option ℕ :=
  (find pattern (text.drop pos)).map (pos + ·)

/-- `header_param_value`: the code is that of the other parser. -/
def header_param_value (header_line key : Bytes) : Bytes :=
  Multipart.header_param_value header_line key

def block_lines : ℕ → Bytes → List Bytes
  | 0, _ => []
  | fuel + 1, text =>
      match find CRLF text with
      | none => [text]
      | some line_end => text.take line_end :: block_lines fuel (text.drop (line_end + 2))

/-- The name, the file name and the content type of a part. -/
structure PartHeaders where
  field_name : Bytes
  field_filename : Bytes
  field_content_type : Bytes

def read_part_header (h : PartHeaders) (line : Bytes) : PartHeaders :=
  if strncasecmp (c_str line) (lit "Content-Disposition:") then
    { h with
      field_name := header_param_value line (lit "name")
      field_filename := header_param_value line (lit "filename") }
  else if strncasecmp (c_str line) (lit "Content-Type:") then
    { h with field_content_type := trim_copy (line.drop (lit "Content-Type:").length) }
  else h

def read_part_headers (header_block : Bytes) : PartHeaders :=
  (block_lines (header_block.length + 1) header_block).foldl read_part_header ⟨[], [], []⟩

def add_part (m_form_data : StringMap) (h : PartHeaders) (value : Bytes) : StringMap :=
  if h.field_name = [] then m_form_data
  else if h.field_filename = [] then m_form_data.set h.field_name value
  else
    let form := ((m_form_data.set h.field_name value).set (lit "filename")
      (sanitize_filename h.field_filename)).set (lit "content") value
    if h.field_content_type = [] then form
    else
      (form.set (h.field_name ++ lit "_content_type") h.field_content_type).set
        (lit "content_type") h.field_content_type

/-- The loop of `parse_multipart_form_data`; `none` is where it returns false. Every pass
but the first starts further on. -/
def parse_multipart_loop (body boundary : Bytes) : ℕ → ℕ → StringMap → StringMap × Bool
  | 0, _, form => (form, false)
  | fuel + 1, pos, form =>
      let boundary_delimiter := CRLF ++ boundary
      let start := if pos = 0 then find_from boundary body pos
        else (find_from boundary_delimiter body pos).map (· + 2)
      match start with
      | none => (form, true)
      | some boundary_start =>
          let part_start := boundary_start + boundary.length
          if (body.drop part_start).take 2 = lit "--" then (form, true)
          else
            let part_start :=
              if (body.drop part_start).take 2 = CRLF then part_start + 2 else part_start
            match find_from (CRLF ++ CRLF) body part_start with
            | none => (form, false)
            | some header_end =>
                match find_from boundary_delimiter body (header_end + 4) with
                | none => (form, false)
                | some next_boundary =>
                    let headers := read_part_headers
                      ((body.drop part_start).take (header_end - part_start))
                    let value := (body.drop (header_end + 4)).take
                      (next_boundary - (header_end + 4))
                    parse_multipart_loop body boundary fuel next_boundary
                      (add_part form headers value)

def parse_multipart_form_data (m_content_type : Bytes) (m_form_data : StringMap) (body : Bytes) :
    StringMap × Bool :=
  match find (lit "boundary=") m_content_type with
  | none => (m_form_data, false)
  | some boundary_pos =>
      let boundary := lit "--" ++
        trim_copy (m_content_type.drop (boundary_pos + (lit "boundary=").length))
      match parse_multipart_loop body boundary (body.length + 1) 0 m_form_data with
      | (form, false) => (form, false)
      | (form, true) => (form, decide (form ≠ []))

end AtlasWebServer.Http
