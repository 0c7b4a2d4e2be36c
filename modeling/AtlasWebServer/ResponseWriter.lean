/-
Writing a response (`http/core/response.cpp`, `ensure_write_capacity` of
`http/core/io.cpp`, `open_managed_file` of `http/files/file_response.cpp`, the end of
`do_request` in `http/core/connection.cpp`).

A write goes through the write ring. `Writes` is one: it gives the ring and what the
function returns, or `none` where the source computes an `int` that does not fit, which
C++ leaves undefined. `process_write` looks at few of the results it is given, as in
the source.

`Reply` holds the fields of the connection that a response is written from, with each
`char` array as the string in it. An open file is its content, and `st_size` its length.
-/
import AtlasWebServer.Downloads
import AtlasWebServer.HttpMessage

set_option autoImplicit false

namespace AtlasWebServer.Http

open Bytes CString RingBuffer

open AtlasWebServer.Downloads

/-! ## The write ring -/

def INT_MAX : ℕ := 2 ^ 31 - 1

def to_int (n : ℤ) : ℤ := n.bmod (2 ^ 32)

theorem to_int_of_lt {n : ℕ} (h : n < 2 ^ 31) : to_int n = n := by
  apply Int.bmod_eq_of_le <;> norm_num
  omega

theorem to_int_eq_iff {n : ℤ} (hpos : 0 ≤ n) : to_int n = n ↔ n ≤ INT_MAX := by
  unfold to_int INT_MAX
  constructor
  · intro h
    have hlt : n.bmod (2 ^ 32) < (2 ^ 32 + 1) / 2 := Int.bmod_lt (by decide)
    omega
  · intro h
    exact Int.bmod_eq_of_le (by norm_num; omega) (by norm_num; omega)

def WRITE_BUFFER_INITIAL_SIZE : ℕ := 8192

/-- The ring of the bytes to be sent. -/
abbrev Ring := RingBuf UInt8

/-- A function that writes and returns a `bool`. -/
abbrev Writes := Ring → Option (Ring × Bool)

/-- The doubling loop of `ensure_write_capacity`; `none` where the product does not fit an
`int`. -/
def write_capacity_loop (required_size : ℕ) : ℕ → ℕ → Option ℕ
  | 0, _ => none
  | fuel + 1, new_capacity =>
      if new_capacity < required_size then
        if new_capacity * 2 > INT_MAX then none
        else write_capacity_loop required_size fuel (new_capacity * 2)
      else some new_capacity

/-- `ensure_write_capacity`, which returns true when it returns. A new array is larger
than the contents, which the test says again for the type's sake. -/
def ensure_write_capacity (ring : Ring) (required_size : ℕ) : Option Ring :=
  let required_size := if required_size = 0 then WRITE_BUFFER_INITIAL_SIZE else required_size
  if ring.capacity ≥ required_size then some ring
  else
    let start := if ring.capacity = 0 then WRITE_BUFFER_INITIAL_SIZE else ring.capacity
    match write_capacity_loop required_size 32 start with
    | none => none
    | some new_capacity =>
        let old := ring.peek ring.size
        if h : old.length < new_capacity then some (RingBuf.ofList 0 old new_capacity h)
        else some ring

/-- `add_response` of the formatted text. `vsnprintf` fails on a text whose length is no
`int`. -/
def add_response (text : Bytes) : Writes := fun ring =>
  if text.length > INT_MAX then some (ring, false)
  else if ring.size + text.length > INT_MAX then none
  else
    match ensure_write_capacity ring (ring.size + text.length) with
    | none => none
    | some ring =>
        if text.length ≤ ring.writable then some (ring.append text, true) else some (ring, false)

/-- Two writes, whatever the first returns. -/
def Writes.next (first second : Writes) : Writes := fun ring =>
  match first ring with
  | none => none
  | some (ring, _) => second ring

def Writes.and (first second : Writes) : Writes := fun ring =>
  match first ring with
  | none => none
  | some (ring, false) => some (ring, false)
  | some (ring, true) => second ring

def Writes.nothing : Writes := fun ring => some (ring, true)

/-! ## The parts of a response -/

/-- What a response is written from. -/
structure Reply where
  m_method : Method
  m_linger : Bool
  m_response_status : ℤ
  m_response_status_title : Bytes
  m_response_content_type : Bytes
  m_response_body : Bytes
  m_response_body_len : ℤ
  m_extra_headers : Bytes
  m_file : Option Bytes

def Reply.init (method : Method) (linger : Bool) : Reply :=
  ⟨method, linger, 200, lit "OK", lit "text/html", [], 0, [], none⟩

def add_status_line (status : ℤ) (title : Bytes) : Writes :=
  add_response (lit "HTTP/1.1 " ++ to_string status ++ lit " " ++ title ++ CRLF)

def add_content_length (content_len : ℤ) : Writes :=
  add_response (lit "Content-Length:" ++ to_string content_len ++ CRLF)

def add_content_type (content_type : Bytes) : Writes :=
  add_response (lit "Content-Type:" ++ content_type ++ CRLF)

def add_linger (r : Reply) : Writes :=
  add_response (lit "Connection:" ++ (if r.m_linger then lit "keep-alive" else lit "close") ++ CRLF)

def add_keep_alive (r : Reply) : Writes :=
  if r.m_linger then add_response (lit "Keep-Alive:timeout=15, max=100" ++ CRLF) else .nothing

def add_allow : Writes := add_response (lit "Allow:GET, POST, HEAD, OPTIONS, DELETE" ++ CRLF)

def add_extra_headers (r : Reply) : Writes :=
  if r.m_extra_headers = [] then .nothing else add_response (c_str r.m_extra_headers)

def add_blank_line : Writes := add_response CRLF

def add_headers (r : Reply) (content_len : ℤ) (content_type : Bytes) : Writes :=
  (add_content_length content_len).and <| (add_content_type content_type).and <|
    (add_linger r).and <| (add_keep_alive r).and <| add_allow.and <|
      (add_extra_headers r).and add_blank_line

/-- A status line, the headers and, where there is one, the content: each branch of
`process_write` is of this form. Only the content's result counts. -/
def write_response (r : Reply) (status : ℤ) (title : Bytes) (content_len : ℤ)
    (content_type : Bytes) (content : Option Bytes) : Writes :=
  (add_status_line status title).next <| (add_headers r content_len content_type).next <|
    match content with
    | none => .nothing
    | some content => add_response content

/-! ## `process_write` -/

/-- What `process_write` schedules: the ring, `bytes_to_send` and the open file. -/
structure Scheduled where
  out : Bytes
  bytes_to_send : ℤ
  file : Bytes

/-- The bytes `write` sends: the ring, then the file, `bytes_to_send` in all. -/
def Scheduled.bytes (s : Scheduled) : Bytes := (s.out ++ s.file).take s.bytes_to_send.toNat

/-- `bytes_to_send = m_write_idx + more`. A write that fails returns false. -/
def schedule (w : Writes) (more : ℕ) (file : Bytes) (ring : Ring) : Option (Option Scheduled) :=
  match w ring with
  | none => none
  | some (_, false) => some none
  | some (ring, true) => some (some ⟨ring.contents, to_int (ring.size + more), file⟩)

/-- An error's status, title, content type and text. -/
def error_page : HttpCode → Option (ℤ × Bytes × Bytes × Bytes)
  | .INTERNAL_ERROR => some (500, lit "Internal Error", lit "text/html",
      lit "There was an unusual problem serving the request file.\n")
  | .BAD_REQUEST => some (400, lit "Bad Request", lit "text/plain",
      lit "Your request has bad syntax or is inherently impossible to staisfy.\n")
  | .NO_RESOURCE => some (404, lit "Not Found", lit "text/plain",
      lit "The requested file was not found on this server.\n")
  | .FORBIDDEN_REQUEST => some (403, lit "Forbidden", lit "text/plain",
      lit "You do not have permission to get file form this server.\n")
  | .NOT_IMPLEMENTED => some (501, lit "Not Implemented", lit "text/plain",
      lit "The requested HTTP feature is not implemented.\n")
  | .PAYLOAD_TOO_LARGE => some (413, lit "Payload Too Large", lit "text/plain",
      lit "The request payload exceeds the configured upload limit.\n")
  | _ => none

def ok_string : Bytes := lit "<html><body></body></html>"

def write_file (r : Reply) (ring : Ring) : Option (Option Scheduled) :=
  let file := r.m_file.getD []
  let content_type :=
    if r.m_response_content_type = [] then lit "application/octet-stream"
    else r.m_response_content_type
  if r.m_method = .HEAD then
    schedule (write_response r 200 (lit "OK") (to_int file.length) content_type none) 0 [] ring
  else if file.length ≠ 0 then
    schedule (write_response r 200 (lit "OK") (to_int file.length) content_type none)
      file.length file ring
  else
    schedule (write_response r 200 (lit "OK") ok_string.length (lit "text/html") (some ok_string))
      0 file ring

/-- `process_write`; `some none` is where it returns false. -/
def process_write (r : Reply) (ret : HttpCode) (ring : Ring) : Option (Option Scheduled) :=
  match ret with
  | .OPTIONS_REQUEST =>
      schedule (write_response r 204 (lit "OK") 0 (lit "text/plain") none) 0 [] ring
  | .MEMORY_REQUEST =>
      schedule (write_response r r.m_response_status r.m_response_status_title
        r.m_response_body_len r.m_response_content_type
        (if r.m_response_body_len > 0 then some (c_str r.m_response_body) else none)) 0 [] ring
  | .FILE_REQUEST => write_file r ring
  | ret =>
      match error_page ret with
      | none => some none
      | some (status, title, content_type, form) =>
          schedule (write_response r status title form.length content_type (some form)) 0 [] ring

/-! ## From a router's result to a response -/

def set_memory_response (r : Reply) (status : ℤ) (title body content_type : Bytes) : Reply :=
  { r with
    m_response_status := status
    m_response_status_title := (c_str title).take 63
    m_response_content_type := (c_str content_type).take 255
    m_response_body := body
    m_response_body_len := to_int body.length }

def response_headers_to_wire (headers : List (Bytes × Bytes)) : Bytes :=
  headers.flatMap fun header =>
    if header.1 = [] then [] else header.1 ++ lit ": " ++ header.2 ++ CRLF

def FILENAME_LEN : ℕ := 200

def content_disposition (download_name : Bytes) : Bytes :=
  lit "Content-Disposition: attachment; filename=\"" ++ sanitize_download_filename download_name ++
    lit "\"; filename*=UTF-8''" ++ encode_download_filename download_name

/-- `open_managed_file`. `files` gives the content of the regular files that can be
opened. -/
def open_managed_file (files : Bytes → Option Bytes) (r : Reply)
    (path content_type download_name : Bytes) : Option Reply :=
  match files ((c_str path).take (FILENAME_LEN - 1)) with
  | none => none
  | some content =>
      let resolved_content_type :=
        if content_type = [] then lit "application/octet-stream" else content_type
      let resolved_download_name := if download_name = [] then lit "download" else download_name
      let metadata := normalize_download_metadata (files (c_str path)) resolved_content_type
        resolved_download_name
      some { r with
        m_file := some content
        m_response_content_type := (c_str metadata.1).take 255
        m_extra_headers := content_disposition metadata.2 ++ CRLF }

def apply_application_response (files : Bytes → Option Bytes) (r : Reply)
    (response : HttpResponse) : Reply × HttpCode :=
  if response.options_response then
    ({ r with m_response_body := [], m_response_body_len := 0 }, .OPTIONS_REQUEST)
  else if response.file.enabled then
    match open_managed_file files r response.file.path response.file.content_type
        response.file.download_name with
    | none =>
        (set_memory_response r 404 (lit "Not Found")
          (lit "\x7b\"code\":404,\"message\":\"file content not found\"\x7d")
          (lit "application/json"), .MEMORY_REQUEST)
    | some r => (r, .FILE_REQUEST)
  else
    ({ set_memory_response r response.status response.title response.body response.content_type with
        m_extra_headers := response_headers_to_wire response.headers }, .MEMORY_REQUEST)

/-- The end of `do_request`: what the router returns becomes the code for `process_write`. -/
def finish_request (files : Bytes → Option Bytes) (r : Reply) (code : HttpCode)
    (response : HttpResponse) : Reply × HttpCode :=
  if code = .MEMORY_REQUEST ∨ code = .FILE_REQUEST ∨ code = .OPTIONS_REQUEST then
    apply_application_response files r response
  else (r, code)

/-- The response to a request for which the router returns `code` and `response`. -/
def respond (files : Bytes → Option Bytes) (method : Method) (linger : Bool) (ring : Ring)
    (code : HttpCode) (response : HttpResponse) : Option (Option Scheduled) :=
  let r := finish_request files (Reply.init method linger) code response
  process_write r.1 r.2 ring

end AtlasWebServer.Http
