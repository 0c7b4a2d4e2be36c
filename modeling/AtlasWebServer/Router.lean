/-
The router (`http/router/router.cpp`) and, for the requests on one file of the drive,
the handlers it calls (`http/controllers/file_controller.cpp`).

`route_request` only chooses: it gives the handler, with the rest of the path as the
source passes it, or the answer that needs none. The handlers of a file item are
modelled up to the one call they make to the file service, `FileCall`. What that call
does, and what the other handlers do, is in `Controllers`. Nothing is assumed about it.

`Handled` is what `handle_request` leaves behind: the code, the response and the
world, and beside them which handler was called, with `context.current_user` as it was
then, and which call reached the file service.

The session is looked up by `Login.lookup_session`: it has the server to itself, the
clock shows `now` and the strings of the server are compared by `key`.
-/
import AtlasWebServer.HttpMessage
import AtlasWebServer.Login
import AtlasWebServer.Shares

set_option autoImplicit false

namespace AtlasWebServer.Router

open Bytes CString

open AtlasWebServer.Http AtlasWebServer.Login
open AtlasWebServer.Sessions (Store)
open AtlasWebServer.Shares (ShareOptions)

/-! ## Handlers -/

/-- The functions `route_request` ends in. -/
inductive Handler
  | route_healthz
  | route_echo
  | login
  | register_user
  | ping
  | logout
  | operation_list
  | operation_clear
  | operation_remove (path : Bytes)
  | drive_item_list
  | trash_item_list
  | empty_trash
  | drive_folder_create
  | drive_folder_delete (path : Bytes)
  | drive_file_upload
  | upload_preflight
  | private_file_download (path : Bytes)
  | share_create (path : Bytes)
  | update_visibility (path : Bytes)
  | restore (path : Bytes)
  | remove_permanently (path : Bytes)
  | remove (path : Bytes)
  | public_file_list
  | public_file_detail (path : Bytes)
  | public_file_download (path : Bytes)
  | share_detail (path : Bytes)
  | share_download (path : Bytes)
  deriving DecidableEq

/-- The handlers of a user's own data: the drive, the trash, folders, file items, the
operation log, `ping` and `logout`. -/
def Handler.of_user : Handler → Bool
  | .route_healthz | .route_echo | .login | .register_user | .public_file_list
  | .public_file_detail _ | .public_file_download _ | .share_detail _ | .share_download _ => false
  | .ping | .logout | .operation_list | .operation_clear | .operation_remove _
  | .drive_item_list | .trash_item_list | .empty_trash | .drive_folder_create
  | .drive_folder_delete _ | .drive_file_upload | .upload_preflight | .private_file_download _
  | .share_create _ | .update_visibility _ | .restore _ | .remove_permanently _ | .remove _ => true

/-- What `route_request` decides. -/
inductive Route
  | handler (h : Handler)
  | code (code : HttpCode)
  | response (response : HttpResponse)

/-- `request.method == method ? handler(...) : NOT_IMPLEMENTED`. -/
def on_method (request : HttpRequest) (method : Method) (h : Handler) : Route :=
  if request.method = method then .handler h else .code .NOT_IMPLEMENTED

/-! ## Routes -/

/-- `request.path.c_str() + strlen(start)`. -/
def path_after (request : HttpRequest) (start : Bytes) : Bytes :=
  (c_str request.path).drop start.length

def handle_api_drive_folder_item (request : HttpRequest) (path : Bytes) : Route :=
  on_method request .DELETE (.drive_folder_delete path)

def handle_api_drive_file_item (request : HttpRequest) (path : Bytes) : Route :=
  if request.method = .GET ∧ strstr path (lit "/download") then
    .handler (.private_file_download path)
  else if request.method = .POST ∧ strstr path (lit "/share") then .handler (.share_create path)
  else if request.method = .POST ∧ strstr path (lit "/visibility") then
    .handler (.update_visibility path)
  else if request.method = .POST ∧ strstr path (lit "/restore") then .handler (.restore path)
  else if request.method = .DELETE ∧ strstr path (lit "/permanent") then
    .handler (.remove_permanently path)
  else if request.method = .DELETE then .handler (.remove path)
  else .code .NOT_IMPLEMENTED

def handle_api_public_file_item (request : HttpRequest) (path : Bytes) : Route :=
  if request.method = .GET ∧ strstr path (lit "/download") then
    .handler (.public_file_download path)
  else on_method request .GET (.public_file_detail path)

def handle_api_share_item (request : HttpRequest) (path : Bytes) : Route :=
  if request.method = .GET ∧ strstr path (lit "/download") then .handler (.share_download path)
  else on_method request .GET (.share_detail path)

def handle_api_drive_request (request : HttpRequest) : Route :=
  if equals_ignore_case request.path (lit "/api/drive/items") then
    on_method request .GET .drive_item_list
  else if equals_ignore_case request.path (lit "/api/drive/trash") then
    if request.method = .GET then .handler .trash_item_list
    else on_method request .DELETE .empty_trash
  else if equals_ignore_case request.path (lit "/api/drive/folders") then
    on_method request .POST .drive_folder_create
  else if equals_ignore_case request.path (lit "/api/drive/files/upload") then
    on_method request .POST .drive_file_upload
  else if equals_ignore_case request.path (lit "/api/drive/files/preflight") then
    on_method request .POST .upload_preflight
  else if starts_with_ignore_case request.path (lit "/api/drive/folders/") then
    handle_api_drive_folder_item request (path_after request (lit "/api/drive/folders/"))
  else if starts_with_ignore_case request.path (lit "/api/drive/files/") then
    handle_api_drive_file_item request (path_after request (lit "/api/drive/files/"))
  else .code .NOT_IMPLEMENTED

def handle_api_request (request : HttpRequest) : Route :=
  if equals_ignore_case request.path (lit "/healthz") then
    if request.method = .GET ∨ request.method = .HEAD then .handler .route_healthz
    else .code .NOT_IMPLEMENTED
  else if equals_ignore_case request.path (lit "/api/login") then on_method request .POST .login
  else if equals_ignore_case request.path (lit "/api/register") then
    on_method request .POST .register_user
  else if equals_ignore_case request.path (lit "/api/echo") then on_method request .POST .route_echo
  else if equals_ignore_case request.path (lit "/api/private/ping") then
    on_method request .GET .ping
  else if equals_ignore_case request.path (lit "/api/private/logout") then
    on_method request .POST .logout
  else if equals_ignore_case request.path (lit "/api/files/public") then
    on_method request .GET .public_file_list
  else if equals_ignore_case request.path (lit "/api/private/operations") then
    if request.method = .GET then .handler .operation_list
    else on_method request .DELETE .operation_clear
  else if starts_with_ignore_case request.path (lit "/api/private/operations/") then
    on_method request .DELETE
      (.operation_remove (path_after request (lit "/api/private/operations/")))
  else if starts_with_ignore_case request.path (lit "/api/drive/") then
    handle_api_drive_request request
  else if starts_with_ignore_case request.path (lit "/api/files/public/") then
    handle_api_public_file_item request (path_after request (lit "/api/files/public/"))
  else if starts_with_ignore_case request.path (lit "/api/share/") then
    handle_api_share_item request (path_after request (lit "/api/share/"))
  else
    .response (HttpResponse.init.set_body 404 (lit "Not Found")
      (lit "\x7b\"code\":404,\"message\":\"api not found\"\x7d") (lit "application/json"))

def route_request (request : HttpRequest) : Route :=
  if equals_ignore_case request.path (lit "/healthz") ∧
      (request.method = .GET ∨ request.method = .HEAD) then .handler .route_healthz
  else if starts_with_ignore_case request.path (lit "/api/") then handle_api_request request
  else
    .response (HttpResponse.init.set_body 404 (lit "Not Found")
      (lit "\x7b\"code\":404,\"message\":\"not found\"\x7d") (lit "application/json"))

/-! ## File items -/

/-- What a file item's handler asks of the file service. -/
inductive FileCall
  | load_owned_file_record (owner : Bytes) (file_id : ℤ)
  | create_share_link (owner : Bytes) (file_id : ℤ) (options : ShareOptions)
  | update_file_visibility (owner : Bytes) (file_id : ℤ) (is_public : Bool)
  | restore_file (owner : Bytes) (file_id : ℤ)
  | hard_delete_file (owner : Bytes) (file_id : ℤ)
  | soft_delete_file (owner : Bytes) (file_id : ℤ)

/-- How far a handler gets before its service call. -/
inductive Entry
  | answers (response : HttpResponse)
  | returns (code : HttpCode)
  | calls (call : FileCall)

/-- `require_user_session`: the response without one. -/
def require_user_session (current_user message : Bytes) : Option HttpResponse :=
  if current_user ≠ [] then none
  else some (HttpResponse.init.set_json_error 403 (lit "Forbidden") message)

/-- `strtol(path, &endptr, 10)`, and `endptr` must have moved and stand on `suffix`. -/
def item_id (path suffix : Bytes) : Option ℤ :=
  match strtol path with
  | none => none
  | some (file_id, rest) => if rest = suffix then some file_id else none

/-- The checks every file item's handler makes first. -/
def with_item (current_user message path suffix : Bytes) (handle : ℤ → Entry) : Entry :=
  match require_user_session current_user message with
  | some response => .answers response
  | none =>
      match item_id path suffix with
      | none => .returns .BAD_REQUEST
      | some file_id => handle file_id

def parse_non_negative_long (value : Bytes) : Option ℤ :=
  let trimmed := trim_copy value
  if trimmed = [] then none
  else
    match strtol (c_str trimmed) with
    | none => none
    | some (number, rest) => if rest = [] ∧ number ≥ 0 then some number else none

/-- `!value.empty() && !parse_non_negative_long(value, number)` is an error, and an
empty value leaves `number` at 0. -/
def optional_long (value : Bytes) : Option ℤ :=
  if value = [] then some 0 else parse_non_negative_long value

def parse_public_flag (value : Bytes) : Bool :=
  value ∈ [lit "1", lit "true", lit "TRUE", lit "yes", lit "on"]

/-- `respond_json_error(response, 400, "Bad Request", message)`. -/
def bad_request (message : Bytes) : HttpResponse :=
  HttpResponse.init.set_json_error 400 (lit "Bad Request") message

def private_file_download (current_user path : Bytes) : Entry :=
  with_item current_user (lit "file download requires user session") path (lit "/download")
    fun file_id => .calls (.load_owned_file_record current_user file_id)

def share_create (request : HttpRequest) (current_user path : Bytes) : Entry :=
  with_item current_user (lit "file share requires user session") path (lit "/share")
    fun file_id =>
      let access_code := request.value (lit "access_code") (lit "code")
      match optional_long (request.value (lit "expires_in_seconds") (lit "expires_in")) with
      | none => .answers (bad_request (lit "invalid expires_in_seconds"))
      | some expires_in_seconds =>
          match optional_long (request.value (lit "max_downloads") (lit "download_limit")) with
          | none => .answers (bad_request (lit "invalid max_downloads"))
          | some max_downloads =>
              .calls (.create_share_link current_user file_id
                ⟨access_code, expires_in_seconds, max_downloads⟩)

def update_visibility (request : HttpRequest) (current_user path : Bytes) : Entry :=
  with_item current_user (lit "file visibility update requires user session") path
    (lit "/visibility") fun file_id =>
      .calls (.update_file_visibility current_user file_id
        (parse_public_flag (request.value (lit "is_public") [])))

def restore (current_user path : Bytes) : Entry :=
  with_item current_user (lit "file restore requires user session") path (lit "/restore")
    fun file_id => .calls (.restore_file current_user file_id)

def remove_permanently (current_user path : Bytes) : Entry :=
  with_item current_user (lit "file permanent delete requires user session") path
    (lit "/permanent") fun file_id => .calls (.hard_delete_file current_user file_id)

/-- `FileController::remove`; `*endptr == '\0'` is the empty suffix. -/
def remove (current_user path : Bytes) : Entry :=
  with_item current_user (lit "file delete requires user session") path []
    fun file_id => .calls (.soft_delete_file current_user file_id)

def Handler.file_item (request : HttpRequest) (current_user : Bytes) : Handler → Option Entry
  | .private_file_download path => some (Router.private_file_download current_user path)
  | .share_create path => some (Router.share_create request current_user path)
  | .update_visibility path => some (Router.update_visibility request current_user path)
  | .restore path => some (Router.restore current_user path)
  | .remove_permanently path => some (Router.remove_permanently current_user path)
  | .remove path => some (Router.remove current_user path)
  | _ => none

/-! ## Handling a request -/

/-- The sessions, and everything else the server keeps. -/
structure World (Db : Type) where
  sessions : Store
  rest : Db

/-- What is not modelled here: the other handlers, a file service call with the response
that is built from it, and the operation log. -/
structure Controllers (Db : Type) where
  run : Handler → HttpRequest → Bytes → World Db → World Db × HttpCode × HttpResponse
  serve : FileCall → World Db → World Db × HttpCode × HttpResponse
  insert_operation_log : World Db → Bytes → Bytes → Bytes → ℤ → Bytes → World Db

/-- What `handle_request` leaves behind. -/
structure Handled (Db : Type) where
  world : World Db
  code : HttpCode
  response : HttpResponse
  called : Option (Handler × Bytes)
  served : Option FileCall

/-- The code and the response of `handle_request`. -/
def Handled.reply {Db : Type} (r : Handled Db) : HttpCode × HttpResponse := (r.code, r.response)

def unauthorized : HttpResponse :=
  HttpResponse.init.set_body 401 (lit "Unauthorized")
    (lit "\x7b\"code\":401,\"message\":\"unauthorized\"\x7d") (lit "application/json")

/-- `api_error_response`: the status, the title and the message. -/
def api_error : HttpCode → ℤ × Bytes × Bytes
  | .BAD_REQUEST => (400, lit "Bad Request", lit "bad request")
  | .NO_RESOURCE => (404, lit "Not Found", lit "resource not found")
  | .FORBIDDEN_REQUEST => (403, lit "Forbidden", lit "forbidden")
  | .NOT_IMPLEMENTED => (501, lit "Not Implemented", lit "not implemented")
  | .PAYLOAD_TOO_LARGE => (413, lit "Payload Too Large", lit "payload too large")
  | _ => (500, lit "Internal Error", lit "internal server error")

def api_error_response (code : HttpCode) (response : HttpResponse) : HttpCode × HttpResponse :=
  let error := api_error code
  (.MEMORY_REQUEST, response.set_body error.1 error.2.1
    (lit "\x7b\"code\":" ++ to_string error.1 ++ lit ",\"message\":\"" ++ error.2.2 ++ lit "\"\x7d")
    (lit "application/json"))

def run_after_middlewares (request : HttpRequest) (code : HttpCode) (response : HttpResponse) :
    HttpCode × HttpResponse :=
  if request.is_api_request = false then (code, response)
  else if code = .MEMORY_REQUEST ∨ code = .FILE_REQUEST ∨ code = .OPTIONS_REQUEST then
    (code, response)
  else api_error_response code response

section Handle

variable {K : Type} [DecidableEq K] (key : Bytes → K) (now : ℤ) {Db : Type}
  (controllers : Controllers Db)

/-- `service_auth::lookup_session(context.mysql, token, ...)`. -/
def lookup (context : RequestContext) (token : Bytes) (w : World Db) : World Db × Option Bytes :=
  if context.mysql = false then (w, none)
  else
    let r := lookup_session key w.sessions token now
    ({ w with sessions := r.1 }, r.2)

/-- `middleware_auth`: the world, and `context.current_user` when it lets the request
through. -/
def middleware_auth (request : HttpRequest) (context : RequestContext) (w : World Db) :
    World Db × Option Bytes :=
  if request.requires_auth = false then (w, some context.current_user)
  else
    let token := request.bearer_token
    let r := if token = [] then (w, none) else lookup key now context token w
    match r.2 with
    | some username => (r.1, some username)
    | none =>
        (if context.mysql then
          controllers.insert_operation_log r.1 (lit "anonymous") (lit "auth_failed")
            (lit "request") 0 request.path
        else r.1, none)

def call_handler (request : HttpRequest) (current_user : Bytes) (h : Handler) (w : World Db) :
    Handled Db :=
  match h.file_item request current_user with
  | some (.answers response) => ⟨w, .MEMORY_REQUEST, response, some (h, current_user), none⟩
  | some (.returns code) => ⟨w, code, .init, some (h, current_user), none⟩
  | some (.calls call) =>
      let r := controllers.serve call w
      ⟨r.1, r.2.1, r.2.2, some (h, current_user), some call⟩
  | none =>
      let r := controllers.run h request current_user w
      ⟨r.1, r.2.1, r.2.2, some (h, current_user), none⟩

/-- `route_request`, with the handler it chooses. -/
def routed (request : HttpRequest) (current_user : Bytes) (w : World Db) : Handled Db :=
  match route_request request with
  | .handler h => call_handler controllers request current_user h w
  | .code code => ⟨w, code, .init, none, none⟩
  | .response response => ⟨w, .MEMORY_REQUEST, response, none, none⟩

def handle_request (request : HttpRequest) (context : RequestContext) (w : World Db) :
    Handled Db :=
  if request.method = .OPTIONS then ⟨w, .OPTIONS_REQUEST, .set_options, none, none⟩
  else
    match middleware_auth key now controllers request context w with
    | (w, none) => ⟨w, .MEMORY_REQUEST, unauthorized, none, none⟩
    | (w, some current_user) =>
        let r := routed controllers request current_user w
        let reply := run_after_middlewares request r.code r.response
        { r with code := reply.1, response := reply.2 }

end Handle

end AtlasWebServer.Router
