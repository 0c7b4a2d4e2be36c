/-
`http/core/parser.cpp`: from bytes to a request.

Positions in `m_read_buf` are the source's pointers. `parse_request_line` cuts its
line up by writing NULs into it, and `strcat` writes over what follows the path; the
memory is threaded through, so what a later read of it sees is what it would see.

A call ends with a code, or with `do_request`: what the application makes of the
request is not part of this. `closed` is a connection whose bytes no longer fit the
read buffer. `undefined` is undefined behaviour: the null pointer
that `parse_request_line` passes on for an absolute target without a path, and the
write before the buffer when the end of a body does not fit a `long`. The bound
on the passes of the loop ends in it too; no run gets there.
-/
import AtlasWebServer.HttpConnection

set_option autoImplicit false

namespace AtlasWebServer.Http

open Bytes CString RingBuffer

/-- How a call of the parser ends. -/
inductive Outcome
  | code (code : HttpCode)
  | do_request
  | closed
  | undefined
  deriving DecidableEq

/-- The result of a parser function. -/
abbrev Result := Conn × Outcome

/-! ## Lines -/

/-- The loop of `parse_line`, over the bytes from `m_checked_idx` on. -/
def parse_line_loop : ℕ → Conn → Conn × LineStatus
  | 0, c => (c, .LINE_OPEN)
  | n + 1, c =>
      let temp := c.m_read_buf.getD c.m_checked_idx 0
      if temp = CR then
        if c.m_checked_idx + 1 = c.m_read_idx then (c, .LINE_OPEN)
        else if c.m_read_buf.getD (c.m_checked_idx + 1) 0 = LF then
          ({ c with
              m_read_buf := (c.m_read_buf.set c.m_checked_idx 0).set (c.m_checked_idx + 1) 0
              m_checked_idx := c.m_checked_idx + 2 }, .LINE_OK)
        else (c, .LINE_BAD)
      else if temp = LF then
        if c.m_checked_idx > 1 ∧ c.m_read_buf.getD (c.m_checked_idx - 1) 0 = CR then
          ({ c with
              m_read_buf := (c.m_read_buf.set (c.m_checked_idx - 1) 0).set c.m_checked_idx 0
              m_checked_idx := c.m_checked_idx + 1 }, .LINE_OK)
        else (c, .LINE_BAD)
      else parse_line_loop n { c with m_checked_idx := c.m_checked_idx + 1 }

def parse_line (c : Conn) : Conn × LineStatus :=
  parse_line_loop (c.m_read_idx - c.m_checked_idx) c

/-! ## The request line -/

def blank : Bytes := [32, 9]

/-- The method names `parse_request_line` knows. -/
def method_of (name : Bytes) : Option Method :=
  if strcasecmp name (lit "GET") then some .GET
  else if strcasecmp name (lit "HEAD") then some .HEAD
  else if strcasecmp name (lit "OPTIONS") then some .OPTIONS
  else if strcasecmp name (lit "POST") then some .POST
  else if strcasecmp name (lit "PUT") then some .PUT
  else if strcasecmp name (lit "DELETE") then some .DELETE
  else if strcasecmp name (lit "TRACE") then some .TRACE
  else if strcasecmp name (lit "CONNECT") then some .CONNECT
  else if strcasecmp name (lit "PATCH") then some .PATH
  else none

/-- The versions it knows: whether it is 1.1. -/
def http_1_1_of (version : Bytes) : Option Bool :=
  if strcasecmp version (lit "HTTP/1.1") then some true
  else if strcasecmp version (lit "HTTP/1.0") then some false
  else none

/-- The end of `parse_request_line`, from the test of `m_url[0]` on. -/
def parse_target (c : Conn) (m_url : ℕ) : Result :=
  if (cstr c.m_read_buf m_url).head? ≠ some 47 then (c, .code .BAD_REQUEST)
  else
    let question := strchr c.m_read_buf m_url 63
    let mem := question.elim c.m_read_buf fun q => c.m_read_buf.set q 0
    let m_query_string := question.map (· + 1)
    let mem := if (cstr mem m_url).length = 1 then strcat mem m_url (lit "index.html") else mem
    ({ c with
        m_read_buf := mem
        head := { c.head with
          m_url_storage := cstr mem m_url
          m_query_string_storage := m_query_string.elim [] (cstr mem) }
        m_check_state := .HEADER }, .code .NO_REQUEST)

/-- The middle of `parse_request_line`: an absolute target loses its authority. The
second comparison is made on what `strchr` returned. -/
def parse_absolute (c : Conn) (m_url : ℕ) : Result :=
  match if strncasecmp (cstr c.m_read_buf m_url) (lit "http://") then
      strchr c.m_read_buf (m_url + 7) 47 else some m_url with
  | none => (c, .undefined)
  | some m_url =>
      match if strncasecmp (cstr c.m_read_buf m_url) (lit "https://") then
          strchr c.m_read_buf (m_url + 8) 47 else some m_url with
      | none => (c, .code .BAD_REQUEST)
      | some m_url => parse_target c m_url

def parse_request_line (c : Conn) (text : ℕ) : Result :=
  match strpbrk c.m_read_buf text blank with
  | none => (c, .code .BAD_REQUEST)
  | some m_url =>
      let c := { c with m_read_buf := c.m_read_buf.set m_url 0 }
      match method_of (cstr c.m_read_buf text) with
      | none => (c, .code .BAD_REQUEST)
      | some m_method =>
          let c := { c with head := { c.head with
            m_method := m_method
            cgi := c.head.cgi || decide (m_method = Method.POST) } }
          let m_url := m_url + 1
          let m_url := m_url + strspn c.m_read_buf m_url blank
          match strpbrk c.m_read_buf m_url blank with
          | none => ({ c with m_version := .null }, .code .BAD_REQUEST)
          | some m_version =>
              let c := { c with m_read_buf := c.m_read_buf.set m_version 0 }
              let m_version := m_version + 1
              let m_version := m_version + strspn c.m_read_buf m_version blank
              let c := { c with m_version := .buf m_version }
              match http_1_1_of (cstr c.m_read_buf m_version) with
              | none => (c, .code .BAD_REQUEST)
              | some m_is_http_1_1 =>
                  let c := { c with head := { c.head with
                    m_is_http_1_1 := m_is_http_1_1
                    m_linger := m_is_http_1_1 } }
                  parse_absolute c m_url

/-! ## The headers -/

def trim_copy (value : Bytes) : Bytes :=
  ((value.dropWhile isspace).reverse.dropWhile isspace).reverse

def set_header (headers : List (Bytes × Bytes)) (name value : Bytes) : List (Bytes × Bytes) :=
  (name, value) :: headers.filter fun header => header.1 ≠ name

/-- What follows a header's name, without leading blanks. -/
def after_blanks (text : Bytes) (n : ℕ) : Bytes := (text.drop n).dropWhile (· ∈ blank)

/-- The loop of `contains_chunked_transfer_encoding`; `none` is a loop that has not ended. -/
def chunked_loop : ℕ → Bytes → Option Bool
  | _, [] => some false
  | 0, _ => none
  | fuel + 1, text =>
      let cursor := text.dropWhile fun b => b = 32 ∨ b = 9 ∨ b = 44
      let token := cursor.takeWhile (· ≠ 44)
      let trimmed := (token.reverse.dropWhile (· ∈ blank)).reverse
      if trimmed.length = 7 ∧ strncasecmp trimmed (lit "chunked") then some true
      else chunked_loop fuel (cursor.drop token.length)

/-- `contains_chunked_transfer_encoding`; every pass takes a byte. -/
def contains_chunked_transfer_encoding (text : Bytes) : Bool :=
  (chunked_loop text.length text).getD false

/-- The entry of a header line in `m_headers`. -/
def record_header (headers : List (Bytes × Bytes)) (text : Bytes) : List (Bytes × Bytes) :=
  match text.findIdx? (· = 58) with
  | none => headers
  | some colon =>
      let header_name := lowercase (trim_copy (text.take colon))
      if header_name = [] then headers
      else set_header headers header_name (trim_copy (after_blanks text (colon + 1)))

/-- `parse_headers` on a line that is not empty. `start` is where the line begins. -/
def parse_header_line (h : Head) (start : ℕ) (text : Bytes) : Head × HttpCode :=
  let h := { h with m_headers := record_header h.m_headers text }
  if strncasecmp text (lit "Connection:") then
    let value := after_blanks text 11
    if strcasecmp value (lit "keep-alive") then ({ h with m_linger := true }, .NO_REQUEST)
    else if strcasecmp value (lit "close") then ({ h with m_linger := false }, .NO_REQUEST)
    else (h, .NO_REQUEST)
  else if strncasecmp text (lit "Content-length:") then
    let m_content_length := atol (after_blanks text 15)
    ({ h with m_content_length_seen := true, m_content_length },
      if m_content_length < 0 then .BAD_REQUEST else .NO_REQUEST)
  else if strncasecmp text (lit "Host:") then
    ({ h with m_host := .buf (start + (text.length - (after_blanks text 5).length)) }, .NO_REQUEST)
  else if strncasecmp text (lit "Content-Type:") then
    ({ h with m_content_type := (after_blanks text 13).take 255 }, .NO_REQUEST)
  else if strncasecmp text (lit "Transfer-Encoding:") then
    ({ h with
        m_chunked := h.m_chunked || contains_chunked_transfer_encoding (after_blanks text 18) },
      .NO_REQUEST)
  else if strncasecmp text (lit "Authorization:") then
    ({ h with m_authorization := after_blanks text 14 }, .NO_REQUEST)
  else (h, .NO_REQUEST)

/-- `m_host[0]`, if the pointer is not null. -/
def host_byte (env : Env) (c : Conn) : Option UInt8 :=
  match c.head.m_host with
  | .null => none
  | .buf i => some (c.m_read_buf.getD i 0)
  | .freed => some env.freed

def is_multipart (h : Head) : Bool := strncasecmp h.m_content_type (lit "multipart/form-data")

/-- `parse_headers` on the empty line: the head is complete. -/
def parse_blank_line (env : Env) (c : Conn) : Result :=
  if c.head.m_is_http_1_1 ∧ (host_byte env c = none ∨ host_byte env c = some 0) then
    (c, .code .BAD_REQUEST)
  else if c.head.m_chunked then
    if c.head.m_content_length_seen then (c, .code .BAD_REQUEST)
    else
      let capture := if is_multipart c.head then begin_streamed_body_capture env c.body
        else (c.body, true)
      let c := { c with body := capture.1 }
      if capture.2 = false then (c, .code .INTERNAL_ERROR)
      else
        ({ c with
            m_check_state := .CONTENT
            m_body_start_idx := c.m_checked_idx
            m_chunked_parse_idx := c.m_checked_idx }, .code .NO_REQUEST)
  else if c.head.m_content_length ≠ 0 then
    if is_multipart c.head ∧ c.head.m_content_length >
        (env.upload_max_bytes + env.upload_request_overhead_bytes : ℤ) then
      (c, .code .PAYLOAD_TOO_LARGE)
    else
      let capture := if is_multipart c.head then begin_streamed_body_capture env c.body
        else (c.body, true)
      let c := { c with body := capture.1 }
      if capture.2 = false then (c, .code .INTERNAL_ERROR)
      else
        ({ c with
            m_check_state := .CONTENT
            m_body_start_idx := c.m_checked_idx }, .code .NO_REQUEST)
  else (c, .code .GET_REQUEST)

def parse_headers (env : Env) (c : Conn) (text : ℕ) : Result :=
  if cstr c.m_read_buf text = [] then parse_blank_line env c
  else
    let r := parse_header_line c.head text (cstr c.m_read_buf text)
    ({ c with head := r.1 }, .code r.2)

/-! ## The body -/

/-- `append_decoded_body_chunk`, on the parts of the connection it touches. -/
def append_decoded_body_chunk (env : Env) (h : Head) (k : Chunks) (b : Body) (data : Bytes) :
    Chunks × Body × HttpCode :=
  if data = [] then (k, b, .NO_REQUEST)
  else if b.m_stream_body_file.isSome then
    match append_streamed_body_chunk env h b data with
    | (b, true) => (k, b, .NO_REQUEST)
    | (b, false) =>
        (k, b, if b.m_body_parse_error_status = 413 then .PAYLOAD_TOO_LARGE
          else if b.m_body_parse_error_status = 400 then .BAD_REQUEST
          else .INTERNAL_ERROR)
  else if k.m_chunked_body_bytes_received + data.length > READ_BUFFER_MAX_SIZE then
    (k, b, .PAYLOAD_TOO_LARGE)
  else
    ({ k with m_chunked_body_bytes_received := k.m_chunked_body_bytes_received + data.length },
      { b with m_request_body := b.m_request_body ++ data }, .NO_REQUEST)

def parse_chunk_size_line (line : Bytes) : Option ℕ :=
  let start := line.dropWhile (· ∈ blank)
  let size_text := start.takeWhile fun b => b ≠ 59 ∧ b ∉ blank
  if size_text = [] ∨ !size_text.all isxdigit then none
  else if (hexadecimal size_text : ℤ) < LONG_MAX then some (hexadecimal size_text)
  else none

/-- The search for the end of a line: its length, or `none` if there is no CRLF. -/
def line_length : Bytes → Option ℕ
  | [] => none
  | [_] => none
  | a :: b :: rest =>
      if a = CR ∧ b = LF then some 0 else (line_length (b :: rest)).map (· + 1)

/-- `compact_read_buffer_prefix(m_chunked_parse_idx); m_chunked_parse_idx = 0`. -/
def Conn.compact_chunks (c : Conn) : Conn :=
  { compact_read_buffer_prefix c c.m_chunked_parse_idx with m_chunked_parse_idx := 0 }

/-- The loop of `parse_chunked_content`; every pass takes a byte. -/
def parse_chunked_loop (env : Env) : ℕ → Conn → Result
  | 0, c => (c, .undefined)
  | fuel + 1, c =>
      if c.m_chunked_parse_idx < c.m_read_idx then
        let rest := (c.m_read_buf.take c.m_read_idx).drop c.m_chunked_parse_idx
        match c.chunks.m_chunk_state with
        | .SIZE =>
            match line_length rest with
            | none => (c.compact_chunks, .code .NO_REQUEST)
            | some n =>
                match parse_chunk_size_line (rest.take n) with
                | none => (c, .code .BAD_REQUEST)
                | some m_chunk_size =>
                    parse_chunked_loop env fuel { c with
                      m_chunked_parse_idx := c.m_chunked_parse_idx + n + 2
                      chunks := { c.chunks with
                        m_chunk_size
                        m_chunk_bytes_read := 0
                        m_chunk_state := if m_chunk_size = 0 then .TRAILER else .DATA } }
        | .DATA =>
            let data_len := min rest.length (c.chunks.m_chunk_size - c.chunks.m_chunk_bytes_read)
            match append_decoded_body_chunk env c.head c.chunks c.body (rest.take data_len) with
            | (chunks, body, append_code) =>
                if append_code ≠ .NO_REQUEST then ({ c with chunks, body }, .code append_code)
                else
                  let c := { c with
                    body
                    m_chunked_parse_idx := c.m_chunked_parse_idx + data_len
                    chunks := { chunks with
                      m_chunk_bytes_read := chunks.m_chunk_bytes_read + data_len } }
                  if c.chunks.m_chunk_bytes_read < c.chunks.m_chunk_size then
                    (c.compact_chunks, .code .NO_REQUEST)
                  else
                    parse_chunked_loop env fuel
                      { c with chunks := { c.chunks with m_chunk_state := .DATA_CRLF } }
        | .DATA_CRLF =>
            if rest.length < 2 then (c.compact_chunks, .code .NO_REQUEST)
            else if rest.take 2 ≠ CRLF then (c, .code .BAD_REQUEST)
            else
              parse_chunked_loop env fuel { c with
                m_chunked_parse_idx := c.m_chunked_parse_idx + 2
                chunks := { c.chunks with m_chunk_state := .SIZE } }
        | .TRAILER =>
            match line_length rest with
            | none => (c.compact_chunks, .code .NO_REQUEST)
            | some 0 =>
                ({ c with
                    m_chunked_parse_idx := c.m_chunked_parse_idx + 2
                    chunks := { c.chunks with m_chunk_state := .DONE } }, .code .GET_REQUEST)
            | some (n + 1) =>
                parse_chunked_loop env fuel
                  { c with m_chunked_parse_idx := c.m_chunked_parse_idx + (n + 1) + 2 }
        | .DONE => (c, .code .GET_REQUEST)
      else if c.chunks.m_chunk_state = .DONE then (c, .code .GET_REQUEST)
      else (c.compact_chunks, .code .NO_REQUEST)

def parse_chunked_content (env : Env) (c : Conn) : Result :=
  parse_chunked_loop env (c.m_read_idx - c.m_chunked_parse_idx + 1) c

def parse_streamed_content (env : Env) (c : Conn) : Result :=
  let available : ℤ := c.m_read_idx - c.m_body_start_idx
  let remaining := c.head.m_content_length - c.body.m_stream_body_bytes_received
  let chunk_len := if available > remaining then remaining else available
  let data := (c.m_read_buf.drop c.m_body_start_idx).take chunk_len.toNat
  let r := if chunk_len > 0 then append_streamed_body_chunk env c.head c.body data
    else (c.body, true)
  let c := { c with body := r.1 }
  if r.2 = false then
    (c, .code (if c.body.m_body_parse_error_status = 413 then .PAYLOAD_TOO_LARGE
      else .INTERNAL_ERROR))
  else
    let c := if chunk_len > 0 then reset_streamed_body_buffer c else c
    if (c.body.m_stream_body_bytes_received : ℤ) ≥ c.head.m_content_length then
      (c, .code .GET_REQUEST)
    else (c, .code .NO_REQUEST)

/-- `m_body_start_idx + m_content_length`, a sum of two `long`s. -/
def content_end (c : Conn) : ℤ := long_add c.m_body_start_idx c.head.m_content_length

/-- `parse_content`. A sum that has wrapped is negative, and so is the index of the
write. -/
def parse_content (env : Env) (c : Conn) : Result :=
  if c.head.m_chunked then parse_chunked_content env c
  else if c.body.m_stream_body_file.isSome then parse_streamed_content env c
  else if (c.m_read_idx : ℤ) ≥ content_end c then
    if content_end c < 0 then (c, .undefined)
    else
      let mem := c.m_read_buf.set (content_end c).toNat 0
      ({ c with
          m_read_buf := mem
          body := { c.body with
            m_request_body := (mem.drop c.m_body_start_idx).take c.head.m_content_length.toNat } },
        .code .GET_REQUEST)
  else (c, .code .NO_REQUEST)

/-! ## The loop -/

/-- The codes `process_read` returns at once. -/
def HttpCode.is_error : HttpCode → Bool
  | .BAD_REQUEST | .NOT_IMPLEMENTED | .PAYLOAD_TOO_LARGE | .INTERNAL_ERROR => true
  | _ => false

/-- The `switch` of `process_read`, on a line that starts at `text`. -/
def process_line (env : Env) (c : Conn) (text : ℕ) : Result :=
  match c.m_check_state with
  | .REQUESTLINE => parse_request_line c text
  | .HEADER => parse_headers env c text
  | .CONTENT => parse_content env c

/-- The condition of the loop of `process_read`: a body needs no line at first. -/
def next_line (c : Conn) (line_status : LineStatus) : Conn × LineStatus :=
  if c.m_check_state = .CONTENT ∧ line_status = .LINE_OK then (c, .LINE_OK) else parse_line c

def process_read_loop (env : Env) : ℕ → Conn → LineStatus → Result
  | 0, c, _ => (c, .undefined)
  | fuel + 1, c, line_status =>
      match next_line c line_status with
      | (c, .LINE_OK) =>
          let state := c.m_check_state
          match process_line env { c with m_start_line := c.m_checked_idx } c.m_start_line with
          | (c, .code code) =>
              if code.is_error then (c, .code code)
              else if code = .GET_REQUEST ∧ state ≠ .REQUESTLINE then (c, .do_request)
              else process_read_loop env fuel c
                (if state = .CONTENT then .LINE_OPEN else .LINE_OK)
          | r => r
      | (c, _) => (c, .code .NO_REQUEST)

/-- `process_read`. A pass of the loop takes a line, but for the pass after the empty
line. -/
def process_read (env : Env) (c : Conn) : Result :=
  process_read_loop env (c.m_read_idx + 2) c .LINE_OK

end AtlasWebServer.Http
