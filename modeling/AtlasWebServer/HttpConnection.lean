/-
The connection of `http/core/connection.h` as far as reading a request goes: the
read ring and its linear copy `m_read_buf`, the indices of the parser, the fields of
the request, and the functions of `http/core/io.cpp` and
`http/files/file_response.cpp` that move bytes between them.

`m_read_buf` is kept up to the terminator that `sync_read_buffer` writes: the bytes
after it are stale, and only `m_version` can still point there. `m_host` and `m_version`
are pointers into `m_read_buf` that outlive the call that sets them. They are null, a
position, or dangling once `ensure_read_capacity` has moved the buffer. The host is in
`m_headers` as well and `m_host` is not followed, but `build_request` follows `m_version`.

What the environment decides is in `Env`: the limits configured at start-up, whether
a spool file can be opened and written, and the byte a dangling pointer reads.
-/
import AtlasWebServer.CString
import AtlasWebServer.RingBuffer

set_option autoImplicit false

namespace AtlasWebServer.Http

open Bytes CString RingBuffer

/-! ## Types -/

inductive Method
  | GET | POST | HEAD | PUT | DELETE | TRACE | OPTIONS | CONNECT | PATH
  deriving DecidableEq

inductive HttpCode
  | NO_REQUEST | GET_REQUEST | BAD_REQUEST | NO_RESOURCE | FORBIDDEN_REQUEST | FILE_REQUEST
  | INTERNAL_ERROR | CLOSED_CONNECTION | OPTIONS_REQUEST | NOT_IMPLEMENTED | PAYLOAD_TOO_LARGE
  | MEMORY_REQUEST
  deriving DecidableEq

/-- `CHECK_STATE`. -/
inductive CheckState
  | REQUESTLINE | HEADER | CONTENT
  deriving DecidableEq

/-- `LINE_STATUS`. -/
inductive LineStatus
  | LINE_OK | LINE_BAD | LINE_OPEN
  deriving DecidableEq

/-- `CHUNK_STATE`. -/
inductive ChunkState
  | SIZE | DATA | DATA_CRLF | TRAILER | DONE
  deriving DecidableEq

inductive HostPtr
  | null
  | buf (i : ℕ)
  | freed
  deriving DecidableEq

/-- The pointer `m_version`. A buffer that is written again from its start may end before it:
then it shows the `text` it showed before, until the buffer reaches it again. -/
inductive VersionPtr
  | null
  | buf (i : ℕ)
  | behind (i : ℕ) (text : Bytes)
  | freed
  deriving DecidableEq

/-- What the request line and the headers set. -/
structure Head where
  m_method : Method
  cgi : Bool
  m_url_storage : Bytes
  m_query_string_storage : Bytes
  m_host : HostPtr
  m_content_length : ℤ
  m_content_length_seen : Bool
  m_linger : Bool
  m_is_http_1_1 : Bool
  m_chunked : Bool
  m_content_type : Bytes
  m_headers : List (Bytes × Bytes)
  m_authorization : Bytes
  deriving DecidableEq

/-- The state of the chunked decoder. -/
structure Chunks where
  m_chunk_state : ChunkState
  m_chunk_size : ℕ
  m_chunk_bytes_read : ℕ
  m_chunked_body_bytes_received : ℕ
  deriving DecidableEq

/-- The body: buffered, or in a spool file (its content, while it is open). -/
structure Body where
  m_request_body : Bytes
  m_stream_body_file : Option Bytes
  m_stream_body_bytes_received : ℕ
  m_body_parse_error_status : ℕ
  m_body_parse_error_title : Bytes
  m_body_parse_error_message : Bytes
  deriving DecidableEq

structure Conn where
  m_read_ring : RingBuf UInt8
  m_read_buf : Bytes
  m_read_idx : ℕ
  m_checked_idx : ℕ
  m_body_start_idx : ℕ
  m_start_line : ℕ
  m_check_state : CheckState
  m_version : VersionPtr
  head : Head
  m_chunked_parse_idx : ℕ
  chunks : Chunks
  body : Body

structure Env where
  upload_max_bytes : ℕ
  upload_request_overhead_bytes : ℕ
  capture : Bool
  fwrite : Bool
  freed : UInt8
  deriving DecidableEq

/-- The default limits, and files that can be written. -/
def default_env : Env where
  upload_max_bytes := 100 * 1024 * 1024
  upload_request_overhead_bytes := 512 * 1024
  capture := true
  fwrite := true
  freed := 0

def READ_BUFFER_INITIAL_SIZE : ℕ := 16384

def READ_BUFFER_MAX_SIZE : ℕ := 2 * 1024 * 1024

def CR : UInt8 := 13

def LF : UInt8 := 10

def CRLF : Bytes := [CR, LF]

/-! ## The read buffer -/

def Conn.received (c : Conn) : Bytes := c.m_read_ring.contents

/-- The doubling loop of `ensure_read_capacity`; `none` where it returns false. From
one byte to the maximum is 21 passes. -/
def new_capacity_loop (required_size : ℕ) : ℕ → ℕ → Option ℕ
  | 0, _ => none
  | fuel + 1, new_capacity =>
      if new_capacity < required_size then
        let new_capacity := min (new_capacity * 2) READ_BUFFER_MAX_SIZE
        if new_capacity < required_size ∧ new_capacity = READ_BUFFER_MAX_SIZE then none
        else new_capacity_loop required_size fuel new_capacity
      else some new_capacity

def HostPtr.moved : HostPtr → HostPtr
  | .buf _ => .freed
  | p => p

def VersionPtr.moved : VersionPtr → VersionPtr
  | .null => .null
  | _ => .freed

/-- `m_version` when the buffer is written from its start on. -/
def VersionPtr.kept (before after : Bytes) : VersionPtr → VersionPtr
  | .buf i => if i < after.length then .buf i else .behind i (cstr before i)
  | .behind i text => if i < after.length then .buf i else .behind i text
  | p => p

/-- The buffer is written from its start on, in place. -/
def Conn.refill (c : Conn) (buf : Bytes) : Conn :=
  { c with m_read_buf := buf, m_version := c.m_version.kept c.m_read_buf buf }

/-- `ensure_read_capacity`. `m_read_buf` is one byte longer than the ring's array, so
only the latter is compared. A new array is larger than the contents, which the
test says again for the type's sake. -/
def ensure_read_capacity (c : Conn) (required_size : ℕ) : Conn × Bool :=
  let required_size := if required_size = 0 then READ_BUFFER_INITIAL_SIZE else required_size
  if required_size > READ_BUFFER_MAX_SIZE then (c, false)
  else if c.m_read_ring.capacity ≥ required_size then (c, true)
  else
    let start := if c.m_read_ring.capacity = 0 then READ_BUFFER_INITIAL_SIZE
      else c.m_read_ring.capacity
    match new_capacity_loop required_size 22 start with
    | none => (c, false)
    | some new_capacity =>
        let old := c.m_read_ring.peek c.m_read_ring.size
        if h : old.length < new_capacity then
          ({ c with
              m_read_ring := RingBuf.ofList 0 old new_capacity h
              m_read_buf := old ++ [0]
              m_version := c.m_version.moved
              head := { c.head with m_host := c.head.m_host.moved } }, true)
        else (c, true)

def sync_read_buffer (c : Conn) : Conn :=
  { c.refill (c.m_read_ring.peek c.m_read_ring.size ++ [0]) with
    m_read_idx := c.m_read_ring.size }

def compact_read_buffer_prefix (c : Conn) (consumed_bytes : ℕ) : Conn :=
  if consumed_bytes = 0 then c
  else
    let consumed_bytes := min consumed_bytes c.m_read_ring.size
    let c := sync_read_buffer c
    let remaining := c.m_read_idx - consumed_bytes
    let moved := (c.m_read_buf.drop consumed_bytes).take remaining
    { c.refill (moved ++ [0]) with
      m_read_ring := c.m_read_ring.reset.append moved
      m_read_idx := remaining
      m_checked_idx := 0
      m_body_start_idx := 0
      m_start_line := 0 }

def reset_streamed_body_buffer (c : Conn) : Conn :=
  { c.refill [0] with
    m_read_ring := c.m_read_ring.reset
    m_read_idx := 0
    m_checked_idx := 0
    m_body_start_idx := 0
    m_start_line := 0
    m_check_state := .CONTENT }

/-- `begin_streamed_body_capture`: the new body and the result. -/
def begin_streamed_body_capture (env : Env) (b : Body) : Body × Bool :=
  if b.m_stream_body_file.isSome then (b, true)
  else if env.capture = false then (b, false)
  else
    ({ b with m_stream_body_file := some [], m_stream_body_bytes_received := 0
              m_request_body := [] }, true)

def append_streamed_body_chunk (env : Env) (h : Head) (b : Body) (data : Bytes) : Body × Bool :=
  match b.m_stream_body_file with
  | none => (b, false)
  | some file =>
      let body_limit : ℤ :=
        if h.m_chunked then env.upload_max_bytes + env.upload_request_overhead_bytes
        else h.m_content_length
      if (b.m_stream_body_bytes_received + data.length : ℤ) > body_limit then
        ({ b with
            m_body_parse_error_status := if h.m_chunked then 413 else 400
            m_body_parse_error_title :=
              if h.m_chunked then lit "Payload Too Large" else lit "Bad Request"
            m_body_parse_error_message :=
              if h.m_chunked then
                lit "upload exceeds limit of " ++ to_string env.upload_max_bytes ++ lit " bytes"
              else lit "request body overflow" }, false)
      else if data = [] then (b, true)
      else if env.fwrite = false then
        ({ b with
            m_body_parse_error_status := 500
            m_body_parse_error_title := lit "Internal Error"
            m_body_parse_error_message := lit "failed to spool multipart body" }, false)
      else
        ({ b with
            m_stream_body_file := some (file ++ data)
            m_stream_body_bytes_received := b.m_stream_body_bytes_received + data.length }, true)

def flush_streamed_body_from_read_buffer (env : Env) (c : Conn) : Conn × Bool :=
  if c.body.m_stream_body_file = none ∨ c.m_check_state ≠ .CONTENT then (c, true)
  else
    let c := sync_read_buffer c
    let available : ℤ := c.m_read_idx - c.m_body_start_idx
    if available ≤ 0 then (c, true)
    else
      let remaining := c.head.m_content_length - c.body.m_stream_body_bytes_received
      let chunk_len := if available > remaining then remaining else available
      if chunk_len ≤ 0 then (c, true)
      else
        let data := (c.m_read_buf.drop c.m_body_start_idx).take chunk_len.toNat
        match append_streamed_body_chunk env c.head c.body data with
        | (body, false) => ({ c with body }, false)
        | (body, true) => (reset_streamed_body_buffer { c with body }, true)

/-! ## A new connection -/

def Head.init : Head where
  m_method := .GET
  cgi := false
  m_url_storage := []
  m_query_string_storage := []
  m_host := .null
  m_content_length := 0
  m_content_length_seen := false
  m_linger := false
  m_is_http_1_1 := false
  m_chunked := false
  m_content_type := []
  m_headers := []
  m_authorization := []

def Chunks.init : Chunks := ⟨.SIZE, 0, 0, 0⟩

def Body.init : Body := ⟨[], none, 0, 0, [], []⟩

def Conn.init (c : Conn) : Conn where
  m_read_ring := c.m_read_ring.reset
  m_read_buf := [0]
  m_read_idx := 0
  m_checked_idx := 0
  m_body_start_idx := 0
  m_start_line := 0
  m_check_state := .REQUESTLINE
  m_version := .null
  head := Head.init
  m_chunked_parse_idx := 0
  chunks := Chunks.init
  body := Body.init

/-- A connection that was just accepted: `init` with the first array. -/
def fresh : Conn :=
  Conn.init
    { m_read_ring := RingBuf.ofList 0 [] READ_BUFFER_INITIAL_SIZE (by decide)
      m_read_buf := [], m_read_idx := 0, m_checked_idx := 0, m_body_start_idx := 0
      m_start_line := 0, m_check_state := .REQUESTLINE, m_version := .null, head := Head.init
      m_chunked_parse_idx := 0, chunks := Chunks.init, body := Body.init }

def reset_request_parser_state (c : Conn) : Conn :=
  { c.refill [0] with
    m_read_ring := c.m_read_ring.reset
    m_read_idx := 0
    m_checked_idx := 0
    m_body_start_idx := 0
    m_start_line := 0
    m_check_state := .REQUESTLINE
    head := { c.head with m_content_length_seen := false }
    chunks := Chunks.init
    m_chunked_parse_idx := 0 }

end AtlasWebServer.Http
