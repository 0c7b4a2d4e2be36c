/-
A connection from `accept` to `close`: `http/core/connection.cpp`, `http/core/runtime.cpp`,
`read_once` of `http/core/io.cpp`, the spool file of `http/files/file_response.cpp`, and the
threads that call them (`app/webserver.cpp`, `infra/threadpool/threadpool.h`).

`Connection` is the object, with the parser's part of it as `Conn` and the response's as
`Reply`. `Server` adds what a connection shares or is registered with: the tables, the disk,
the event epoll waits for, and the events and tasks that a thread has taken on and not
handled yet. Everything runs under `m_request_lock`, so a step is a whole call of `process`,
`write` or `close_conn`. A call of `read_once` is a sequence of steps, one for each `recv`,
with `reading` set from the first to the last, and no other call in between.

With the proactor (`m_actormodel` 0) `read_once` and `write` run in the thread that fetches
the events, which closes the connection when they return false (`closing` is the time until
it does), and `process` is a task. With the reactor (`m_actormodel` 1) an event only queues a
task. `WebServer::thread_pool` builds the pool with the actor model 0 all the same, whose
`execute` calls `process` and nothing else: **a reactor never reads a byte**.

What the router and the controllers do with a request is a parameter, except for
`FileController::upload`, which takes the temp file: it ends in `create_uploaded_file`.
`Answers` is what the environment says during a call.
-/
import AtlasWebServer.FileStore
import AtlasWebServer.RequestBody
import AtlasWebServer.ResponseWriter

set_option autoImplicit false

namespace AtlasWebServer.Runtime

open Bytes CString RingBuffer Http
open FileStore (Db Disk UploadEvent UploadQuota UploadPayload UploadResult
  ServiceError create_uploaded_file)
open Multipart (StringMap)

/-! ## The connection -/

/-- What epoll waits for. -/
inductive Event
  | EPOLLIN
  | EPOLLOUT
  deriving DecidableEq

/-- `HttpConnection`. `is_open` is `m_sockfd != -1`, and `m_address` the text `inet_ntop` makes
of it. The method and the `m_linger` of `reply`
are those of the request when a response is written. `scheduled` is what is to be sent, with
`bytes_to_send`; `handled` is what was last given to the router. -/
structure Connection where
  is_open : Bool
  m_address : Bytes
  m_https_enabled : Bool
  m_tls_want_event : Event
  m_has_new_data : Bool
  parser : Conn
  m_write_ring : Ring
  scheduled : Option Scheduled
  reply : Reply
  m_form_data : StringMap
  m_json_data : StringMap
  m_current_user : Bytes
  m_stream_body_tmp_path : Bytes
  upload : UploadedFile
  handled : Option (HttpRequest × RequestContext)

def Connection.bytes_to_send (c : Connection) : ℤ := c.scheduled.elim 0 (·.bytes_to_send)

def no_upload : UploadedFile := ⟨[], [], [], [], 0⟩

def released : RingBuf UInt8 where
  buffer _ := 0
  capacity := 0
  head := 0
  tail := 0
  size := 0
  size_le := le_refl 0
  head_lt := id
  tail_eq := rfl

/-- `init`, but for the files it removes. The rings keep their arrays. -/
def Connection.init (c : Connection) : Connection :=
  { c with
    m_has_new_data := false
    parser := (ensure_read_capacity c.parser READ_BUFFER_INITIAL_SIZE).1.init
    m_write_ring := ((ensure_write_capacity c.m_write_ring WRITE_BUFFER_INITIAL_SIZE).getD
      c.m_write_ring).reset
    scheduled := none
    reply := Reply.init .GET false
    m_form_data := []
    m_json_data := []
    m_current_user := []
    m_stream_body_tmp_path := []
    upload := no_upload
    handled := none }

/-- `release_connection_memory`, as far as the next `init` does not write it again. -/
def Connection.release_connection_memory (c : Connection) : Connection :=
  { c with
    parser := { c.parser with m_read_ring := released, m_read_buf := [], m_read_idx := 0
                              m_checked_idx := 0, m_body_start_idx := 0 }
    m_write_ring := released
    scheduled := none }

/-- A connection object that was never used. -/
def new_connection : Connection where
  is_open := false
  m_address := []
  m_https_enabled := false
  m_tls_want_event := .EPOLLIN
  m_has_new_data := false
  parser := { fresh with m_read_ring := released }
  m_write_ring := released
  scheduled := none
  reply := Reply.init .GET false
  m_form_data := []
  m_json_data := []
  m_current_user := []
  m_stream_body_tmp_path := []
  upload := no_upload
  handled := none

/-! ## The server around it -/

/-- `m_actormodel`. -/
inductive ActorModel
  | proactor
  | reactor
  deriving DecidableEq

/-- What is configured at start-up. `files` are the files outside of `uploads`, and
`m_TRIGMode` is true for edge-triggered sockets. -/
structure Config where
  doc_root : Bytes
  upload_max_bytes : ℕ
  upload_request_overhead_bytes : ℕ
  user_storage_quota_bytes : ℕ
  legacy_compat_enabled : Bool
  close_log : ℤ
  files : Bytes → Option Bytes
  m_TRIGMode : Bool
  m_actormodel : ActorModel

/-- The connection and what it shares. `reading` is a call of `read_once` that has not
returned, `closing` a call of `close_conn` that is due. `reads` and `writes` count the events
that were fetched and not handled yet, `processes` the tasks that are queued. -/
structure Server where
  connection : Connection
  db : Db
  disk : Disk
  reading : Bool
  closing : Bool
  registered : Option Event
  reads : ℕ
  writes : ℕ
  processes : ℕ

/-- What the environment answers during a call: whether the directories of the spool file
are there, its token and whether it can be opened and written, the bytes a dangling pointer
reads, how `fread` cuts the spool file and whether it can be opened again, the token of the
upload's temp file and what happens to it, and whether there is a database connection. -/
structure Answers where
  ensure_directory : Bool
  token : Bytes
  fopen : Bool
  fwrite : Bool
  freed : Bytes
  reopen : Bool
  cuts : List ℕ
  upload_token : Bytes
  create : Bool
  context : Bool
  good : ℕ → Bool
  digest : Bool
  mysql : Bool

/-- What `FileController::upload` takes from the request and the session, besides the file. -/
structure UploadForm where
  filename : Bytes
  content_type : Bytes
  folder_id : ℤ
  content : Bytes
  name_token : Bytes
  is_public : Bool
  quota : UploadQuota

/-- What the router makes of a request: a reply and its effects, or an upload that gets as
far as `create_uploaded_file`. -/
inductive Decision
  | reply (code : HttpCode) (response : HttpResponse) (current_user : Bytes) (db : Db)
      (uploads : Bytes → Option Bytes)
  | upload (form : UploadForm) (current_user : Bytes) (e : UploadEvent)
      (answer : Except ServiceError UploadResult → HttpCode × HttpResponse)

/-- The router and the controllers. -/
abbrev Application := HttpRequest → RequestContext → Db → Disk → Decision

/-- What `handle_request` leaves behind. -/
structure Handled where
  code : HttpCode
  response : HttpResponse
  current_user : Bytes
  released : Bool
  db : Db
  disk : Disk

/-- How a read event ends: no more bytes (with what TLS wants to wait for), or the end of
the stream or an error. -/
inductive ReadStop
  | again (want : Event)
  | failed
  deriving DecidableEq

/-- How a call of `write` ends. -/
inductive Sent
  | again (want : Event)
  | all
  | failed
  deriving DecidableEq

section Calls

variable {K : Type} [DecidableEq K] (key : Bytes → K) (sha256_hex : Bytes → Bytes)
  (cfg : Config) (app : Application)

/-! ## Events -/

def Server.modfd (s : Server) (event : Event) : Server := { s with registered := some event }

def Connection.wait_event_for_io (c : Connection) (default_event : Event) : Event :=
  if c.m_https_enabled then c.m_tls_want_event else default_event

/-- A call that would block. TLS remembers what it waits for. -/
def Connection.would_block (c : Connection) (want : Event) : Connection :=
  if c.m_https_enabled then { c with m_tls_want_event := want } else c

/-! ## Temp files -/

/-- `unlink` of a file in `uploads/.tmp` or in `uploads`. -/
def unlink (d : Disk) (path : Bytes) : Disk :=
  if Multipart.temp_root cfg.doc_root ++ lit "/" <+: path then d.remove_temp path
  else if cfg.doc_root ++ lit "/uploads/" <+: path then
    d.remove_file (path.drop (cfg.doc_root ++ lit "/uploads/").length)
  else d

def cleanup_temp_upload_state (s : Server) : Server :=
  let c := s.connection
  let d := if c.m_stream_body_tmp_path = [] then s.disk
    else unlink cfg s.disk c.m_stream_body_tmp_path
  let d := if c.upload.temp_path = [] then d else unlink cfg d c.upload.temp_path
  { s with
    disk := d
    connection := { c with
      parser := { c.parser with body := { c.parser.body with
        m_stream_body_file := none, m_stream_body_bytes_received := 0 } }
      m_stream_body_tmp_path := []
      upload := no_upload } }

def Server.init (s : Server) : Server :=
  let s := cleanup_temp_upload_state cfg s
  { s with connection := s.connection.init }

def close_conn (s : Server) : Server :=
  if s.connection.is_open = false then s
  else
    let s := cleanup_temp_upload_state cfg s
    { s with
      connection := { s.connection.release_connection_memory with is_open := false }
      registered := none }

def body_path (a : Answers) : Bytes :=
  Multipart.temp_root cfg.doc_root ++ lit "/body-" ++ a.token ++ lit ".tmp"

def Answers.env (a : Answers) : Env where
  upload_max_bytes := cfg.upload_max_bytes
  upload_request_overhead_bytes := cfg.upload_request_overhead_bytes
  capture := a.ensure_directory && decide (a.token ≠ []) && a.fopen
  fwrite := a.fwrite
  freed := a.freed.headD 0

/-- `m_stream_body_tmp_path` after `process_read`. It calls `begin_streamed_body_capture` at
most once. The path is set before `fopen`, and cleared when that fails. Without an open file
the only `INTERNAL_ERROR` is a capture that failed. -/
def spool_path (a : Answers) (path : Bytes) (before : Body) (r : Result) : Bytes :=
  if before.m_stream_body_file.isSome then path
  else if r.1.body.m_stream_body_file.isSome then body_path cfg a
  else if r.2 = .code .INTERNAL_ERROR ∧ a.ensure_directory = true ∧ a.token ≠ [] then []
  else path

/-- The open spool file has its content on disk. -/
def Server.spooled (s : Server) : Server :=
  match s.connection.parser.body.m_stream_body_file with
  | none => s
  | some content =>
      { s with disk := { s.disk with
        temp := Function.update s.disk.temp s.connection.m_stream_body_tmp_path (some content) } }

def cut : List ℕ → Bytes → List Bytes
  | _, [] => []
  | [], s => [s]
  | n :: cuts, s => s.take (n + 1) :: cut cuts (s.drop (n + 1))

/-- The environment of the multipart parser. -/
def Answers.multipart (a : Answers) (d : Disk) (path : Bytes) : Multipart.Env where
  spool := if a.reopen then (d.temp path).map (cut a.cuts) else none
  token := a.upload_token
  create := a.create
  context := a.context
  good := a.good
  digest := a.digest

def parse_multipart_form_data_from_file (a : Answers) (s : Server) : Server × Bool :=
  let c := s.connection
  let body := { c.parser.body with m_stream_body_file := none }
  match Multipart.parse_spooled_multipart sha256_hex (a.multipart s.disk c.m_stream_body_tmp_path)
      c.m_stream_body_tmp_path c.parser.head.m_content_type cfg.doc_root cfg.upload_max_bytes
      s.disk.temp with
  | (temp, .error error) =>
      ({ s with
          disk := { s.disk with temp }
          connection := { c with parser := { c.parser with body := { body with
            m_body_parse_error_status := error.status.toNat
            m_body_parse_error_title := error.title
            m_body_parse_error_message := error.message } } } }, false)
  | (temp, .ok result) =>
      ({ s with
          disk := unlink cfg { s.disk with temp } c.m_stream_body_tmp_path
          connection := { c with
            parser := { c.parser with body }
            m_form_data := result.fields
            upload := ⟨result.file.temp_path, result.file.filename, result.file.content_type,
              result.file.sha256, result.file.size⟩
            m_stream_body_tmp_path := [] } }, true)

/-! ## `do_request` -/

def Connection.clear_post (c : Connection) : Connection :=
  { c with
    m_form_data := []
    m_json_data := []
    parser := { c.parser with body := { c.parser.body with
      m_body_parse_error_status := 0
      m_body_parse_error_title := []
      m_body_parse_error_message := [] } } }

def Connection.parse_body (c : Connection) : Connection × Bool :=
  let content_type := c.parser.head.m_content_type
  let body := c.parser.body.m_request_body
  if body = [] then (c, true)
  else if is_multipart c.parser.head then
    let r := parse_multipart_form_data content_type c.m_form_data body
    ({ c with m_form_data := r.1 }, r.2)
  else if strncasecmp content_type (lit "application/x-www-form-urlencoded") then
    let r := parse_form_urlencoded c.m_form_data body
    ({ c with m_form_data := r.1 }, r.2)
  else if strncasecmp content_type (lit "application/json") then
    let r := parse_json_body c.m_json_data body
    ({ c with m_json_data := r.1 }, r.2)
  else (c, true)

def Connection.is_spooled (c : Connection) : Bool :=
  is_multipart c.parser.head &&
    (decide (c.m_stream_body_tmp_path ≠ []) || c.parser.body.m_stream_body_file.isSome)

def parse_post_body (a : Answers) (s : Server) : Server × Bool :=
  let s := { s with connection := s.connection.clear_post }
  if s.connection.is_spooled then parse_multipart_form_data_from_file sha256_hex cfg a s
  else
    let r := s.connection.parse_body
    ({ s with connection := r.1 }, r.2)

def host_text (a : Answers) (c : Conn) : Bytes :=
  match c.head.m_host with
  | .null => []
  | .buf i => cstr c.m_read_buf i
  | .freed => c_str a.freed

def version_text (a : Answers) (c : Conn) : Bytes :=
  match c.m_version with
  | .null => []
  | .buf i => cstr c.m_read_buf i
  | .behind _ text => text
  | .freed => c_str a.freed

def add_header (headers : List (Bytes × Bytes)) (present : Bool) (name value : Bytes) :
    List (Bytes × Bytes) :=
  if present && (headers.lookup name).isNone then set_header headers name value else headers

def build_request (a : Answers) (c : Connection) : HttpRequest :=
  let h := c.parser.head
  let headers := add_header h.m_headers (decide (h.m_host ≠ .null)) (lit "host")
    (host_text a c.parser)
  let headers := add_header headers (decide (h.m_content_type ≠ []))
    (lit "content-type") h.m_content_type
  let headers := add_header headers (decide (h.m_authorization ≠ [])) (lit "authorization")
    h.m_authorization
  { method := h.m_method
    path := h.m_url_storage
    query_string := h.m_query_string_storage
    version := version_text a c.parser
    headers
    query := parse_query_string h.m_query_string_storage
    form := c.m_form_data
    json := c.m_json_data
    content_length := h.m_content_length
    content_length_seen := h.m_content_length_seen
    keep_alive := h.m_linger
    http_1_1 := h.m_is_http_1_1
    chunked := h.m_chunked
    body := c.parser.body.m_request_body
    upload := c.upload }

def build_request_context (a : Answers) (c : Connection) (request : HttpRequest) :
    RequestContext where
  mysql := a.mysql
  current_user := c.m_current_user
  doc_root := cfg.doc_root
  upload_max_bytes := cfg.upload_max_bytes
  user_storage_quota_bytes := cfg.user_storage_quota_bytes
  client_ip := c.m_address
  user_agent := request.header_value (lit "user-agent")
  legacy_compat_enabled := cfg.legacy_compat_enabled
  close_log := cfg.close_log

/-- `parse_managed_upload_payload`: a temp file, or the content itself. -/
def upload_payload (form : UploadForm) (request : HttpRequest) : UploadPayload :=
  if request.upload.has_file then
    { filename := form.filename, content := [], content_type := form.content_type
      temp_path := request.upload.temp_path, sha256 := request.upload.sha256
      folder_id := form.folder_id, size := request.upload.size, use_temp_file := true }
  else
    { filename := form.filename, content := form.content, content_type := form.content_type
      temp_path := [], sha256 := [], folder_id := form.folder_id, size := form.content.length
      use_temp_file := false }

def handle_request (request : HttpRequest) (context : RequestContext) (db : Db) (d : Disk) :
    Handled :=
  match app request context db d with
  | .reply code response current_user db uploads =>
      ⟨code, response, current_user, false, db, { d with uploads }⟩
  | .upload form current_user e answer =>
      let payload := upload_payload form request
      let r := create_uploaded_file key sha256_hex db d
        ⟨current_user, form.name_token, payload, form.is_public, form.quota⟩ e
      let reply := answer r.result
      ⟨reply.1, reply.2, current_user, r.result.isOk && payload.use_temp_file, r.db, r.disk⟩

def release_consumed_temp_uploads (request : HttpRequest) (released : Bool) (c : Connection) :
    Connection :=
  if released ∧ request.upload.temp_path = c.upload.temp_path then
    { c with upload := { c.upload with temp_path := [] } }
  else c

def readable (d : Disk) (path : Bytes) : Option Bytes :=
  if cfg.doc_root ++ lit "/uploads/" <+: path then
    d.uploads (path.drop (cfg.doc_root ++ lit "/uploads/").length)
  else cfg.files path

/-- The end of `do_request`: the request goes to the router. -/
def dispatch (a : Answers) (s : Server) : Server × HttpCode :=
  let request := build_request a s.connection
  let context := build_request_context cfg a s.connection request
  let r := handle_request key sha256_hex app request context s.db s.disk
  let c := release_consumed_temp_uploads request r.released s.connection
  let answer := finish_request (readable cfg r.disk) c.reply r.code r.response
  ({ s with
      db := r.db
      disk := r.disk
      connection := { c with
        m_current_user := r.current_user
        reply := answer.1
        handled := some (request, context) } }, answer.2)

/-- The reply to a body that cannot be parsed. -/
def body_error (c : Connection) : Connection × HttpCode :=
  let b := c.parser.body
  if b.m_body_parse_error_status > 0 then
    let message := if b.m_body_parse_error_message = [] then lit "bad request"
      else b.m_body_parse_error_message
    let reply := set_memory_response c.reply b.m_body_parse_error_status
      (if b.m_body_parse_error_title = [] then lit "Bad Request" else b.m_body_parse_error_title)
      (lit "\x7b\"code\":" ++ to_string b.m_body_parse_error_status ++ lit ",\"message\":\"" ++
        json_escape message ++ lit "\"\x7d") (lit "application/json")
    ({ c with reply }, .MEMORY_REQUEST)
  else (c, .BAD_REQUEST)

def do_request (a : Answers) (s : Server) : Server × HttpCode :=
  match s.connection.parser.head.m_method with
  | .OPTIONS =>
      ({ s with connection := { s.connection with
          reply := { s.connection.reply with m_response_body := [], m_response_body_len := 0 } } },
        .OPTIONS_REQUEST)
  | .GET | .HEAD | .DELETE => dispatch key sha256_hex cfg app a s
  | .POST =>
      match parse_post_body sha256_hex cfg a s with
      | (s, true) => dispatch key sha256_hex cfg app a s
      | (s, false) =>
          let r := body_error s.connection
          ({ s with connection := r.1 }, r.2)
  | _ => (s, .NOT_IMPLEMENTED)

/-! ## `process` -/

def Server.parsed (a : Answers) (s : Server) (r : Result) : Server :=
  let c := s.connection
  Server.spooled { s with connection := { c with
    parser := r.1
    m_stream_body_tmp_path := spool_path cfg a c.m_stream_body_tmp_path c.parser.body r } }

/-- `process_read`; `none` is undefined behaviour, as in the calls below. -/
def process_read (a : Answers) (s : Server) : Option (Server × HttpCode) :=
  let r := Http.process_read (a.env cfg) s.connection.parser
  match r.2 with
  | .code code => some (s.parsed cfg a r, code)
  | .do_request => some (do_request key sha256_hex cfg app a (s.parsed cfg a r))
  | _ => none

/-- The reply with the request's method and `m_linger`. -/
def Connection.current_reply (c : Connection) : Reply :=
  { c.reply with m_method := c.parser.head.m_method, m_linger := c.parser.head.m_linger }

/-- `process_write` and what follows it in `process`. The write ring holds what is scheduled,
and has grown for it: growing once for all of it is growing as it comes. -/
def answer_request (s : Server) (code : HttpCode) : Option Server :=
  let c := { s.connection with parser := reset_request_parser_state s.connection.parser }
  match process_write c.current_reply code c.m_write_ring with
  | none => none
  | some none => some (close_conn cfg { s with connection := c })
  | some (some out) =>
      let ring := (ensure_write_capacity c.m_write_ring out.out.length).getD c.m_write_ring
      some (Server.modfd { s with connection := { c with
        m_write_ring := ring.reset.append out.out
        scheduled := some out } } .EPOLLOUT)

def process (a : Answers) (s : Server) : Option Server :=
  if s.connection.bytes_to_send > 0 then some (s.modfd .EPOLLOUT)
  else if s.connection.m_has_new_data = false then some (s.modfd .EPOLLIN)
  else
    match process_read key sha256_hex cfg app a s with
    | none => none
    | some (s, code) =>
        let s := { s with connection := { s.connection with m_has_new_data := false } }
        if code = .NO_REQUEST then some (s.modfd .EPOLLIN) else answer_request cfg s code

/-! ## `read_once` -/

/-- The parser's part of the connection changes, and with it the spool file. -/
def Server.with_conn (s : Server) (parser : Conn) : Server :=
  Server.spooled { s with connection := { s.connection with parser } }

/-- Bytes of a spooled body go to the file as they come. -/
def flush_streamed (a : Answers) (s : Server) : Server × Bool :=
  let r := flush_streamed_body_from_read_buffer (a.env cfg) s.connection.parser
  (s.with_conn r.1, r.2)

def receive (s : Server) (p : Bytes) : Server :=
  { s with connection := { s.connection with
    m_has_new_data := true
    parser := { s.connection.parser with
      m_read_ring := s.connection.parser.m_read_ring.append p } } }

/-- How much a `recv` can return: the free slots up to the end of the array. -/
def Connection.recv_size (c : Connection) : ℕ :=
  min (c.parser.m_read_ring.capacity - c.parser.m_read_ring.tail) c.parser.m_read_ring.writable

/-- The parser waits for the body of a spooled request. -/
def Connection.is_streaming (c : Connection) : Bool :=
  c.parser.body.m_stream_body_file.isSome && decide (c.parser.m_check_state = .CONTENT)

/-- The beginning of `read_once`: a ring that is full from the last call grows. -/
def begin_read (s : Server) : Server × Bool :=
  let s := { s with connection := { s.connection with m_has_new_data := false } }
  let ring := s.connection.parser.m_read_ring
  let r := ensure_read_capacity s.connection.parser (ring.capacity * 2)
  if ring.writable > 0 then (s, true)
  else if r.2 then ({ s with connection := { s.connection with parser := r.1 } }, true)
  else (s, false)

/-- The ring of an edge-triggered socket grows as soon as it is full. -/
def grow_full (s : Server) : Server :=
  let ring := s.connection.parser.m_read_ring
  if cfg.m_TRIGMode ∧ ring.writable = 0 then
    { s with connection := { s.connection with
      parser := (ensure_read_capacity s.connection.parser (ring.capacity * 2)).1 } }
  else s

/-- The largest ring is full: the head of a spooled request is taken out of it, or the
body. -/
def make_room (a : Answers) (s : Server) : Option (Server × Bool) :=
  let s := s.with_conn (sync_read_buffer s.connection.parser)
  if s.connection.parser.m_check_state ≠ .CONTENT then
    match process_read key sha256_hex cfg app a s with
    | none => none
    | some (s, code) => some (s, decide (code = .NO_REQUEST) && s.connection.is_streaming)
  else if s.connection.parser.body.m_stream_body_file.isSome then some (flush_streamed cfg a s)
  else some (s, false)

/-- The end of `read_once`. A level-triggered socket without new bytes is not an error. -/
def end_read (s : Server) : ReadStop → Server × Bool
  | .failed => (s, false)
  | .again want =>
      let c := s.connection.would_block want
      let c := if c.m_has_new_data then { c with parser := sync_read_buffer c.parser } else c
      (Server.modfd { s with connection := c } (c.wait_event_for_io .EPOLLIN),
        c.m_has_new_data || !cfg.m_TRIGMode)

/-- The end of `read_once_et` after `ET_READ_EVENT_MAX_RECVS` calls of `ring_recv`. -/
def end_event (s : Server) : Server × Bool :=
  let c := { s.connection with parser := sync_read_buffer s.connection.parser }
  (Server.modfd { s with connection := c } (c.wait_event_for_io .EPOLLIN), true)

/-! ## `write` -/

/-- The response is sent: the ring is empty and the file is closed. -/
def Connection.sent (c : Connection) : Connection :=
  { c with
    m_write_ring := c.m_write_ring.reset
    scheduled := none
    reply := { c.reply with m_file := none } }

def finish_write_cycle (s : Server) : Server × Bool :=
  let s := Server.modfd { s with connection := s.connection.sent }
    (s.connection.wait_event_for_io .EPOLLIN)
  if s.connection.parser.head.m_linger then (s.init cfg, true) else (s, false)

def write (s : Server) : Sent → Server × Bool
  | sent =>
      if s.connection.bytes_to_send = 0 then
        ((s.modfd (s.connection.wait_event_for_io .EPOLLIN)).init cfg, true)
      else
        match sent with
        | .all => finish_write_cycle cfg s
        | .again want =>
            let c := s.connection.would_block want
            (Server.modfd { s with connection := c } (c.wait_event_for_io .EPOLLOUT), true)
        | .failed =>
            ({ s with connection := { s.connection with
              reply := { s.connection.reply with m_file := none } } }, false)

/-! ## The threads -/

def accept (s : Server) (https : Bool) (address : Bytes) : Server :=
  let s := { s with connection := { s.connection with
    is_open := true, m_address := address, m_https_enabled := https
    m_tls_want_event := .EPOLLIN } }
  (s.modfd .EPOLLIN).init cfg

/-- What can happen. A read event is a `read`, some `recv` and `make_room`, and an
`end_read` or a `last_recv`, after which a full ring has not grown yet. `others` is what other
connections do to the tables and to `uploads`. -/
inductive Label
  | accept (https : Bool) (address : Bytes)
  | fetch
  | read
  | recv (a : Answers) (p : Bytes)
  | last_recv (a : Answers) (p : Bytes)
  | make_room (a : Answers)
  | end_read (stop : ReadStop)
  | process (a : Answers)
  | write (sent : Sent)
  | close
  | others (db : Db) (uploads : Bytes → Option Bytes)

/-- A call has returned false: `close_conn` is next. -/
def failed (s : Server) : Server := { s with closing := true }

def read_on (r : Server × Bool) : Server :=
  if r.2 then r.1 else failed { r.1 with reading := false }

/-- `append` and `append_p`: a task is queued. -/
def append_task (s : Server) : Server := { s with processes := s.processes + 1 }

def read_returns : Server × Bool → Server
  | (s, true) => append_task { s with reading := false }
  | (s, false) => read_on (s, false)

/-- `dealwithread`, up to the first `recv`. -/
def dealwithread (s : Server) : Server :=
  match cfg.m_actormodel with
  | .proactor => read_on (begin_read { s with reading := true })
  | .reactor => append_task s

def dealwithwrite (sent : Sent) (s : Server) : Server :=
  match cfg.m_actormodel with
  | .proactor =>
      let r := write cfg s sent
      if r.2 then r.1 else failed r.1
  | .reactor => append_task s

/-- One step. A closed connection has no bytes: its tasks come to nothing. -/
def step (s : Server) : Label → Option Server
  | .accept https address =>
      if s.reading ∨ s.closing ∨ s.connection.is_open then none
      else some (accept cfg s https address)
  | .fetch =>
      if s.closing then none
      else
        match s.registered with
        | none => none
        | some .EPOLLIN => some { s with registered := none, reads := s.reads + 1 }
        | some .EPOLLOUT => some { s with registered := none, writes := s.writes + 1 }
  | .read =>
      if s.reading ∨ s.closing ∨ s.reads = 0 then none
      else
        let s := { s with reads := s.reads - 1 }
        if s.connection.is_open then some (dealwithread cfg s) else some s
  | .recv a p =>
      if s.reading = false ∨ p = [] ∨ p.length > s.connection.recv_size then none
      else
        match flush_streamed cfg a (receive s p) with
        | (s, true) => some (grow_full cfg s)
        | (s, false) => some (read_on (s, false))
  | .last_recv a p =>
      if s.reading = false ∨ cfg.m_TRIGMode = false ∨ p = [] ∨
          p.length > s.connection.recv_size then none
      else
        match flush_streamed cfg a (receive s p) with
        | (s, true) => some (read_returns (end_event s))
        | (s, false) => some (read_on (s, false))
  | .make_room a =>
      if s.reading = false ∨ cfg.m_TRIGMode = false ∨
          s.connection.parser.m_read_ring.writable > 0 then none
      else (make_room key sha256_hex cfg app a s).map read_on
  | .end_read stop =>
      if s.reading = false ∨
          (cfg.m_TRIGMode = true ∧ s.connection.parser.m_read_ring.writable = 0) then none
      else some (read_returns (end_read cfg s stop))
  | .process a =>
      if s.reading ∨ s.processes = 0 then none
      else
        let s := { s with processes := s.processes - 1 }
        if s.connection.is_open then process key sha256_hex cfg app a s else some s
  | .write sent =>
      if s.reading ∨ s.closing ∨ s.writes = 0 then none
      else
        let s := { s with writes := s.writes - 1 }
        if s.connection.is_open then some (dealwithwrite cfg sent s) else some s
  | .close => if s.reading then none else some { close_conn cfg s with closing := false }
  | .others db uploads => some { s with db, disk := { s.disk with uploads } }

/-- A server before the first `accept`: the temp files are those of this connection, so
there are none. -/
def start (db : Db) (uploads : Bytes → Option Bytes) : Server :=
  ⟨new_connection, db, ⟨uploads, fun _ => none⟩, false, false, none, 0, 0, 0⟩

def system : StepSystem.System Server Label where
  init s := ∃ db uploads, s = start db uploads
  step := step key sha256_hex cfg app

end Calls

end AtlasWebServer.Runtime
