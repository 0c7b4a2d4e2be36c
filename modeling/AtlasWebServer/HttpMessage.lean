/-
Requests and responses between the connection and the controllers
(`http/core/http_message.h`, `http/core/http_message.cpp`).

A `std::map` of strings is a list of its entries. `path` and the header values are
`std::string`s, so they may hold a NUL, and the functions that go through `c_str()`
stop at it: `c_str` is the string they see.
-/
import AtlasWebServer.HttpParser

set_option autoImplicit false

namespace AtlasWebServer.Http

open Bytes CString List

/-! ## Comparing strings -/

def c_str (s : Bytes) : Bytes := cstr s 0

def starts_with_ignore_case (text start : Bytes) : Bool :=
  decide (start.length ≤ text.length) && strncasecmp (c_str text) start

def equals_ignore_case (left right : Bytes) : Bool := strcasecmp (c_str left) right

theorem c_str_eq {s : Bytes} (h : (0 : UInt8) ∉ s) : c_str s = s := by
  unfold c_str cstr
  rw [drop_zero, takeWhile_eq_self_iff]
  intro b hb
  have hne : b ≠ 0 := fun hzero => h (hzero ▸ hb)
  simpa using hne

theorem length_c_str_le (s : Bytes) : (c_str s).length ≤ s.length := by
  have hle : (cstr s 0).length ≤ s.length - 0 := cstr_length_le
  rwa [Nat.sub_zero] at hle

theorem starts_with_iff {text start : Bytes} :
    starts_with_ignore_case text start = true ↔
      start.length ≤ text.length ∧ lowercase ((c_str text).take start.length) =
        lowercase start := by
  simp [starts_with_ignore_case, strncasecmp]

theorem starts_with_of_append {text start more : Bytes}
    (h : starts_with_ignore_case text (start ++ more) = true) :
    starts_with_ignore_case text start = true := by
  rw [starts_with_iff] at h ⊢
  rw [length_append] at h
  refine ⟨by omega, ?_⟩
  have htake := congrArg (List.take start.length) h.2
  have hleft : (lowercase ((c_str text).take (start.length + more.length))).take start.length =
      lowercase ((c_str text).take start.length) := by
    rw [lowercase, ← map_take, take_take, min_eq_left (Nat.le_add_right _ _), lowercase]
  have hright : (lowercase (start ++ more)).take start.length = lowercase start := by
    rw [lowercase, ← map_take, take_left, lowercase]
  rwa [hleft, hright] at htake

theorem starts_with_of_equals {text start more : Bytes}
    (h : equals_ignore_case text (start ++ more) = true) :
    starts_with_ignore_case text start = true := by
  have heq : lowercase (c_str text) = lowercase (start ++ more) := by
    simpa [equals_ignore_case, strcasecmp] using h
  have hlength : (c_str text).length = (start ++ more).length := by
    have hlengths := congrArg List.length heq
    simpa [lowercase] using hlengths
  have hwhole : starts_with_ignore_case text (start ++ more) = true := by
    rw [starts_with_iff, ← hlength, take_length]
    exact ⟨length_c_str_le text, heq⟩
  exact starts_with_of_append hwhole

/-! ## Requests -/

structure UploadedFile where
  temp_path : Bytes
  filename : Bytes
  content_type : Bytes
  sha256 : Bytes
  size : ℤ
  deriving DecidableEq

def UploadedFile.has_file (upload : UploadedFile) : Bool := upload.temp_path ≠ []

/-- `HttpRequest`, with the defaults of its constructor. -/
structure HttpRequest where
  method : Method := .GET
  path : Bytes := []
  query_string : Bytes := []
  version : Bytes := []
  headers : List (Bytes × Bytes) := []
  query : List (Bytes × Bytes) := []
  form : List (Bytes × Bytes) := []
  json : List (Bytes × Bytes) := []
  content_length : ℤ := 0
  content_length_seen : Bool := false
  keep_alive : Bool := false
  http_1_1 : Bool := false
  chunked : Bool := false
  body : Bytes := []
  upload : UploadedFile := ⟨[], [], [], [], 0⟩

/-- `RequestContext`, before the controllers release temp files. `mysql` says whether the
connection is there. -/
structure RequestContext where
  mysql : Bool := false
  current_user : Bytes := []
  doc_root : Bytes := []
  upload_max_bytes : ℕ := 100 * 1024 * 1024
  user_storage_quota_bytes : ℕ := 1024 * 1024 * 1024
  client_ip : Bytes := []
  user_agent : Bytes := []
  legacy_compat_enabled : Bool := false
  close_log : ℤ := 0

def HttpRequest.header_value (request : HttpRequest) (key : Bytes) : Bytes :=
  (request.headers.lookup (lowercase key)).getD []

/-- `HttpRequest::value`; an empty `fallback` is none. -/
def HttpRequest.value (request : HttpRequest) (primary fallback : Bytes) : Bytes :=
  ((request.form.lookup primary).or (request.json.lookup primary)).getD
    (if fallback = [] then []
    else ((request.form.lookup fallback).or (request.json.lookup fallback)).getD [])

def HttpRequest.bearer_token (request : HttpRequest) : Bytes :=
  let authorization := request.header_value (lit "authorization")
  if starts_with_ignore_case authorization (lit "Bearer ") then trim_copy (authorization.drop 7)
  else []

def HttpRequest.is_api_request (request : HttpRequest) : Bool :=
  starts_with_ignore_case request.path (lit "/api/")

def HttpRequest.requires_auth (request : HttpRequest) : Bool :=
  starts_with_ignore_case request.path (lit "/api/private/") ||
    starts_with_ignore_case request.path (lit "/api/drive/") ||
    starts_with_ignore_case request.path (lit "/api/admin/")

/-! ## Responses -/

structure FileResponse where
  enabled : Bool
  path : Bytes
  content_type : Bytes
  download_name : Bytes
  deriving DecidableEq

def FileResponse.none : FileResponse := ⟨false, [], [], []⟩

structure HttpResponse where
  status : ℤ
  title : Bytes
  content_type : Bytes
  body : Bytes
  headers : List (Bytes × Bytes)
  options_response : Bool
  file : FileResponse
  deriving DecidableEq

def HttpResponse.init : HttpResponse := ⟨200, lit "OK", lit "text/html", [], [], false, .none⟩

def HttpResponse.set_body (response : HttpResponse) (status_code : ℤ)
    (status_title response_body response_content_type : Bytes) : HttpResponse :=
  { response with
    status := status_code
    title := status_title
    content_type := response_content_type
    body := response_body
    options_response := false
    file := .none }

def json_escape_byte (b : UInt8) : Bytes :=
  if b = 92 then [92, 92]
  else if b = 34 then [92, 34]
  else if b = 10 then [92, 110]
  else if b = 13 then [92, 114]
  else if b = 9 then [92, 116]
  else if b < 32 then [32]
  else [b]

def json_escape (value : Bytes) : Bytes := value.flatMap json_escape_byte

def HttpResponse.set_json_error (response : HttpResponse) (status_code : ℤ)
    (status_title message : Bytes) : HttpResponse :=
  response.set_body status_code status_title
    (lit "\x7b\"code\":" ++ to_string status_code ++ lit ",\"message\":\"" ++ json_escape message ++
      lit "\"\x7d")
    (lit "application/json")

def HttpResponse.set_file (file_path file_content_type download_name : Bytes) : HttpResponse :=
  let content_type :=
    if file_content_type = [] then lit "application/octet-stream" else file_content_type
  ⟨200, lit "OK", content_type, [], [], false, ⟨true, file_path, content_type, download_name⟩⟩

def HttpResponse.set_options : HttpResponse :=
  ⟨204, lit "OK", lit "text/plain", [], [], true, .none⟩

end AtlasWebServer.Http
