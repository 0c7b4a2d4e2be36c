/-
Routing and authentication agree.

The gate `middleware_auth` tests prefixes of the path, the dispatch tests equality,
other prefixes and substrings, and the handlers of a file item read the rest of the
path once more. A route to a handler of a user's own data is taken only under a prefix
the gate tests, and a handler of a file item reaches the file service only with an id
that is a numeral up to its own suffix: the substring tests choose the handler, but they
decide nothing that the handler does not test again.

Both are properties of the handler a route leads to (`Sound`). `route_sound` follows
the tests of the dispatch with the rules for `Route.Leads`.
-/
import AtlasWebServer.Router

set_option autoImplicit false

namespace AtlasWebServer.Router

open Bytes CString

open AtlasWebServer.Http AtlasWebServer.Login

/-! ## Along the tests of the dispatch -/

/-- The handler a route leads to, if any, satisfies `P`. -/
def Route.Leads (P : Handler → Prop) : Route → Prop
  | .handler h => P h
  | .code _ | .response _ => True

namespace Route.Leads

variable {P : Handler → Prop} {a b : Route}

theorem ite {c : Prop} [Decidable c] (ha : c → a.Leads P) (hb : ¬ c → b.Leads P) :
    (if c then a else b).Leads P := by
  by_cases h : c
  · rw [if_pos h]
    exact ha h
  · rw [if_neg h]
    exact hb h

theorem on_method {request : HttpRequest} {method : Method} {h : Handler}
    (hh : request.method = method → P h) : (Router.on_method request method h).Leads P := by
  apply Route.Leads.ite
  · exact hh
  · intro _
    trivial

theorem mono {Q : Handler → Prop} (ha : a.Leads P) (hPQ : ∀ h, P h → Q h) : a.Leads Q := by
  cases a with
  | handler h => exact hPQ h ha
  | _ => trivial

end Route.Leads

/-! ## Handlers of a file item -/

def FileCall.owner : FileCall → Bytes
  | .load_owned_file_record owner _ | .create_share_link owner _ _
  | .update_file_visibility owner _ _ | .restore_file owner _ | .hard_delete_file owner _
  | .soft_delete_file owner _ => owner

def FileCall.file_id : FileCall → ℤ
  | .load_owned_file_record _ file_id | .create_share_link _ file_id _
  | .update_file_visibility _ file_id _ | .restore_file _ file_id | .hard_delete_file _ file_id
  | .soft_delete_file _ file_id => file_id

def FileCall.method : FileCall → Method
  | .load_owned_file_record _ _ => .GET
  | .create_share_link _ _ _ | .update_file_visibility _ _ _ | .restore_file _ _ => .POST
  | .hard_delete_file _ _ | .soft_delete_file _ _ => .DELETE

/-- What follows the id in the path of an operation. -/
def FileCall.suffix : FileCall → Bytes
  | .load_owned_file_record _ _ => lit "/download"
  | .create_share_link _ _ _ => lit "/share"
  | .update_file_visibility _ _ _ => lit "/visibility"
  | .restore_file _ _ => lit "/restore"
  | .hard_delete_file _ _ => lit "/permanent"
  | .soft_delete_file _ _ => []

variable {path suffix message : Bytes} {call : FileCall} {request : HttpRequest} {h : Handler}

theorem item_id_numeral {n : ℤ} (h : item_id path suffix = some n) :
    ∃ numeral, path = numeral ++ suffix ∧ strtol numeral = some (n, []) := by
  unfold item_id at h
  cases hread : strtol path with
  | none => simp [hread] at h
  | some r =>
    simp only [hread, Option.ite_none_right_eq_some, Option.some.injEq] at h
    obtain ⟨hrest, hvalue⟩ := h
    rw [← hrest, ← hvalue]
    exact strtol_numeral hread

theorem with_item_calls {current_user : Bytes} {handle : ℤ → Entry}
    (h : with_item current_user message path suffix handle = .calls call) :
    ∃ n, item_id path suffix = some n ∧ handle n = .calls call := by
  unfold with_item at h
  cases hsession : require_user_session current_user message with
  | some response => simp [hsession] at h
  | none =>
    cases hid : item_id path suffix with
    | none => simp [hsession, hid] at h
    | some n => exact ⟨n, rfl, by simpa [hsession, hid] using h⟩

/-- The service call of a handler: the owner, the method and the id that the rest of
the path names. -/
def Itemised (request : HttpRequest) (path : Bytes) (h : Handler) : Prop :=
  ∀ current_user call, h.file_item request current_user = some (.calls call) →
    call.owner = current_user ∧ request.method = call.method ∧
      item_id path call.suffix = some call.file_id

theorem itemised_of_calls {handle : Bytes → ℤ → Entry}
    (hitem : ∀ current_user, h.file_item request current_user =
      some (with_item current_user message path suffix (handle current_user)))
    (hcall : ∀ current_user n call, handle current_user n = .calls call →
      call.owner = current_user ∧ request.method = call.method ∧ call.suffix = suffix ∧
        call.file_id = n) : Itemised request path h := by
  intro current_user call hentry
  rw [hitem current_user] at hentry
  obtain ⟨n, hid, hhandle⟩ := with_item_calls (Option.some.inj hentry)
  obtain ⟨howner, hmethod, hsuffix, hfile⟩ := hcall current_user n call hhandle
  refine ⟨howner, hmethod, ?_⟩
  rw [hsuffix, hfile, hid]

theorem share_create_itemised (hmethod : request.method = .POST) :
    Itemised request path (.share_create path) := by
  refine itemised_of_calls (fun current_user => rfl) ?_
  intro current_user n call hcall
  split at hcall
  · contradiction
  split at hcall
  · contradiction
  · cases hcall
    exact ⟨rfl, hmethod, rfl, rfl⟩

theorem file_item_itemised (request : HttpRequest) (path : Bytes) :
    (handle_api_drive_file_item request path).Leads (Itemised request path) := by
  apply Route.Leads.ite
  · rintro ⟨hget, _⟩
    refine itemised_of_calls (fun current_user => rfl) ?_
    rintro current_user n call ⟨⟩
    exact ⟨rfl, hget, rfl, rfl⟩
  intro _
  apply Route.Leads.ite
  · rintro ⟨hpost, _⟩
    exact share_create_itemised hpost
  intro _
  apply Route.Leads.ite
  · rintro ⟨hpost, _⟩
    refine itemised_of_calls (fun current_user => rfl) ?_
    rintro current_user n call ⟨⟩
    exact ⟨rfl, hpost, rfl, rfl⟩
  intro _
  apply Route.Leads.ite
  · rintro ⟨hpost, _⟩
    refine itemised_of_calls (fun current_user => rfl) ?_
    rintro current_user n call ⟨⟩
    exact ⟨rfl, hpost, rfl, rfl⟩
  intro _
  apply Route.Leads.ite
  · rintro ⟨hdelete, _⟩
    refine itemised_of_calls (fun current_user => rfl) ?_
    rintro current_user n call ⟨⟩
    exact ⟨rfl, hdelete, rfl, rfl⟩
  intro _
  apply Route.Leads.ite
  · intro hdelete
    refine itemised_of_calls (fun current_user => rfl) ?_
    rintro current_user n call ⟨⟩
    exact ⟨rfl, hdelete, rfl, rfl⟩
  · exact fun _ => trivial

/-! ## Routes are sound -/

/-- What a route to a handler says about the request: the gate tests its path if the
handler is one of a user's own data, and a service call of the handler is for the user
it is called for, by the operation's method, on the id in the path. -/
structure Sound (request : HttpRequest) (h : Handler) : Prop where
  guarded : h.of_user = true → request.requires_auth = true
  itemised : ∀ current_user call, h.file_item request current_user = some (.calls call) →
    starts_with_ignore_case request.path (lit "/api/drive/files/") = true ∧
      call.owner = current_user ∧ request.method = call.method ∧
      item_id (path_after request (lit "/api/drive/files/")) call.suffix = some call.file_id

section Routes

theorem Sound.of_other (hother : ∀ user, h.file_item request user = none)
    (hguarded : h.of_user = true → request.requires_auth = true) : Sound request h := by
  refine ⟨hguarded, ?_⟩
  intro current_user call hcall
  rw [hother] at hcall
  contradiction

theorem Sound.of_public (hother : ∀ user, h.file_item request user = none)
    (hpublic : h.of_user = false) : Sound request h := by
  apply Sound.of_other hother
  intro huser
  rw [hpublic] at huser
  contradiction

variable {method : Method}

theorem public_route (hother : ∀ user, h.file_item request user = none)
    (hpublic : h.of_user = false) : (on_method request method h).Leads (Sound request) :=
  Route.Leads.on_method fun _ => Sound.of_public hother hpublic

theorem user_route (hauth : request.requires_auth = true)
    (hother : ∀ user, h.file_item request user = none) :
    (on_method request method h).Leads (Sound request) :=
  Route.Leads.on_method fun _ => Sound.of_other hother fun _ => hauth

theorem requires_auth_of_private
    (h : starts_with_ignore_case request.path (lit "/api/private/") = true) :
    request.requires_auth = true := by
  simp [HttpRequest.requires_auth, h]

theorem requires_auth_of_drive
    (h : starts_with_ignore_case request.path (lit "/api/drive/") = true) :
    request.requires_auth = true := by
  simp [HttpRequest.requires_auth, h]

theorem auth_of_private_path (rest : Bytes) (hpath : path = lit "/api/private/" ++ rest)
    (h : equals_ignore_case request.path path = true) : request.requires_auth = true := by
  rw [hpath] at h
  exact requires_auth_of_private (starts_with_of_equals h)

theorem drive_route_sound (hauth : request.requires_auth = true) :
    (handle_api_drive_request request).Leads (Sound request) := by
  apply Route.Leads.ite (fun _ => user_route hauth fun _ => rfl)
  intro _
  apply Route.Leads.ite
  · intro _
    apply Route.Leads.ite
    · exact fun _ => Sound.of_other (fun _ => rfl) fun _ => hauth
    · exact fun _ => user_route hauth fun _ => rfl
  intro _
  apply Route.Leads.ite (fun _ => user_route hauth fun _ => rfl)
  intro _
  apply Route.Leads.ite (fun _ => user_route hauth fun _ => rfl)
  intro _
  apply Route.Leads.ite (fun _ => user_route hauth fun _ => rfl)
  intro _
  apply Route.Leads.ite (fun _ => user_route hauth fun _ => rfl)
  intro _
  apply Route.Leads.ite
  · intro hfiles
    refine (file_item_itemised request _).mono ?_
    intro h hitem
    refine ⟨fun _ => hauth, ?_⟩
    intro current_user call hcall
    exact ⟨hfiles, hitem current_user call hcall⟩
  · exact fun _ => trivial

theorem api_route_sound (request : HttpRequest) :
    (handle_api_request request).Leads (Sound request) := by
  apply Route.Leads.ite
  · intro _
    apply Route.Leads.ite
    · exact fun _ => Sound.of_public (fun _ => rfl) rfl
    · exact fun _ => trivial
  intro _
  apply Route.Leads.ite (fun _ => public_route (fun _ => rfl) rfl)
  intro _
  apply Route.Leads.ite (fun _ => public_route (fun _ => rfl) rfl)
  intro _
  apply Route.Leads.ite (fun _ => public_route (fun _ => rfl) rfl)
  intro _
  apply Route.Leads.ite
  · intro hping
    have hauth := auth_of_private_path (lit "ping") (by decide) hping
    exact user_route hauth fun _ => rfl
  intro _
  apply Route.Leads.ite
  · intro hlogout
    have hauth := auth_of_private_path (lit "logout") (by decide) hlogout
    exact user_route hauth fun _ => rfl
  intro _
  apply Route.Leads.ite (fun _ => public_route (fun _ => rfl) rfl)
  intro _
  apply Route.Leads.ite
  · intro hoperations
    have hauth := auth_of_private_path (lit "operations") (by decide) hoperations
    apply Route.Leads.ite
    · exact fun _ => Sound.of_other (fun _ => rfl) fun _ => hauth
    · exact fun _ => user_route hauth fun _ => rfl
  intro _
  apply Route.Leads.ite
  · intro hoperation
    have hauth := requires_auth_of_private (starts_with_of_append hoperation)
    exact user_route hauth fun _ => rfl
  intro _
  apply Route.Leads.ite
  · exact fun hdrive => drive_route_sound (requires_auth_of_drive hdrive)
  intro _
  apply Route.Leads.ite
  · intro _
    apply Route.Leads.ite
    · exact fun _ => Sound.of_public (fun _ => rfl) rfl
    · exact fun _ => public_route (fun _ => rfl) rfl
  intro _
  apply Route.Leads.ite
  · intro _
    apply Route.Leads.ite
    · exact fun _ => Sound.of_public (fun _ => rfl) rfl
    · exact fun _ => public_route (fun _ => rfl) rfl
  · exact fun _ => trivial

theorem route_sound (request : HttpRequest) : (route_request request).Leads (Sound request) := by
  apply Route.Leads.ite
  · exact fun _ => Sound.of_public (fun _ => rfl) rfl
  intro _
  apply Route.Leads.ite
  · exact fun _ => api_route_sound request
  · exact fun _ => trivial

end Routes

/-! ## Handling a request -/

section Handle

variable {K : Type} [DecidableEq K] {key : Bytes → K} {now : ℤ} {Db : Type}
  {controllers : Controllers Db} {request : HttpRequest} {context : RequestContext}
  {w w' : World Db}

variable {user : Bytes}

theorem middleware_auth_accepts (hauth : request.requires_auth = true)
    (h : middleware_auth key now controllers request context w = (w', some user)) :
    (lookup key now context request.bearer_token w).2 = some user := by
  unfold middleware_auth at h
  rw [if_neg (by simp [hauth])] at h
  by_cases htoken : request.bearer_token = []
  · simp [htoken] at h
  simp only [if_neg htoken] at h
  cases hfound : (lookup key now context request.bearer_token w).2 with
  | none => simp [hfound] at h
  | some username =>
    rw [hfound] at h
    exact congrArg Prod.snd h

theorem middleware_auth_rejects (controllers : Controllers Db)
    (hauth : request.requires_auth = true)
    (hnone : (lookup key now context request.bearer_token w).2 = none) :
    (middleware_auth key now controllers request context w).2 = none := by
  unfold middleware_auth
  by_cases htoken : request.bearer_token = [] <;> simp [hauth, htoken, hnone]

theorem call_handler_record (controllers : Controllers Db) (request : HttpRequest) (user : Bytes)
    (h : Handler) (w : World Db) :
    (call_handler controllers request user h w).called = some (h, user) ∧
      ∀ call, (call_handler controllers request user h w).served = some call →
        h.file_item request user = some (.calls call) := by
  unfold call_handler
  split
  · exact ⟨rfl, nofun⟩
  · exact ⟨rfl, nofun⟩
  · rename_i call' hitem
    refine ⟨rfl, ?_⟩
    intro call heq
    rw [hitem, Option.some.inj heq]
  · exact ⟨rfl, nofun⟩

theorem routed_record {user' : Bytes}
    (hcalled : (routed controllers request user w).called = some (h, user')) :
    user' = user ∧ Sound request h ∧
      ∀ call, (routed controllers request user w).served = some call →
        h.file_item request user = some (.calls call) := by
  have hsound := route_sound request
  unfold routed at hcalled ⊢
  cases hroute : route_request request with
  | handler h' =>
    simp only [hroute] at hcalled ⊢
    rw [hroute] at hsound
    obtain ⟨hrecord, hserved⟩ := call_handler_record controllers request user h' w
    rw [hrecord] at hcalled
    obtain ⟨rfl, rfl⟩ := Prod.mk.inj (Option.some.inj hcalled)
    exact ⟨rfl, hsound, hserved⟩
  | _ => simp [hroute] at hcalled

theorem routed_called_of_served (h : (routed controllers request user w).served = some call) :
    ∃ h', (routed controllers request user w).called = some (h', user) := by
  unfold routed at h ⊢
  cases hroute : route_request request with
  | handler h' => exact ⟨h', (call_handler_record controllers request user h' w).1⟩
  | _ => simp [hroute] at h

theorem handle_request_routed
    (h : (handle_request key now controllers request context w).called ≠ none ∨
      (handle_request key now controllers request context w).served ≠ none) :
    ∃ w' user, middleware_auth key now controllers request context w = (w', some user) ∧
      (handle_request key now controllers request context w).called =
        (routed controllers request user w').called ∧
      (handle_request key now controllers request context w).served =
        (routed controllers request user w').served := by
  unfold handle_request at h ⊢
  by_cases hoptions : request.method = .OPTIONS
  · simp [hoptions] at h
  simp only [if_neg hoptions] at h ⊢
  split at h
  · simp at h
  · rename_i w' user hgate
    exact ⟨w', user, hgate, rfl, rfl⟩

theorem handle_request_called
    (hcalled : (handle_request key now controllers request context w).called = some (h, user))
    (huser : h.of_user = true) :
    request.requires_auth = true ∧
      (lookup key now context request.bearer_token w).2 = some user := by
  obtain ⟨w', user', hgate, hsame, -⟩ := handle_request_routed (.inl (by rw [hcalled]; rintro ⟨⟩))
  rw [hsame] at hcalled
  obtain ⟨rfl, hsound, -⟩ := routed_record hcalled
  have hauth := hsound.guarded huser
  exact ⟨hauth, middleware_auth_accepts hauth hgate⟩

theorem of_user_of_file_item {entry : Entry} (hitem : h.file_item request user = some entry) :
    h.of_user = true := by
  cases h <;> first | rfl | contradiction

theorem handle_request_served
    (hserved : (handle_request key now controllers request context w).served = some call) :
    (lookup key now context request.bearer_token w).2 = some call.owner ∧
      request.method = call.method ∧
      starts_with_ignore_case request.path (lit "/api/drive/files/") = true ∧
      ∃ numeral, path_after request (lit "/api/drive/files/") = numeral ++ call.suffix ∧
        strtol numeral = some (call.file_id, []) := by
  obtain ⟨w', user, hgate, -, hsame⟩ := handle_request_routed (.inr (by rw [hserved]; rintro ⟨⟩))
  rw [hsame] at hserved
  obtain ⟨h, hcalled⟩ := routed_called_of_served hserved
  obtain ⟨-, hsound, hitem⟩ := routed_record hcalled
  have hcall := hitem call hserved
  obtain ⟨hfiles, howner, hmethod, hid⟩ := hsound.itemised user call hcall
  have hauth := hsound.guarded (of_user_of_file_item hcall)
  rw [howner]
  exact ⟨middleware_auth_accepts hauth hgate, hmethod, hfiles, item_id_numeral hid⟩

theorem handle_request_rejected (controllers : Controllers Db)
    (hmethod : request.method ≠ .OPTIONS) (hauth : request.requires_auth = true)
    (hnone : (lookup key now context request.bearer_token w).2 = none) :
    (handle_request key now controllers request context w).reply =
      (.MEMORY_REQUEST, unauthorized) := by
  have hgate := middleware_auth_rejects controllers hauth hnone
  unfold handle_request
  rw [if_neg hmethod]
  split
  · rfl
  · rename_i heq
    rw [heq] at hgate
    contradiction

end Handle

/-- **Routing and authentication agree on every path.** -/
theorem routing_agrees_with_auth {K : Type} [DecidableEq K] (key : Bytes → K) (now : ℤ) {Db : Type}
    (controllers : Controllers Db) (request : HttpRequest) (hpath : (0 : UInt8) ∉ request.path) :
    (∀ context w h user,
      (handle_request key now controllers request context w).called = some (h, user) →
        h.of_user = true →
        request.requires_auth = true ∧
          (lookup key now context request.bearer_token w).2 = some user) ∧
    (∀ context w call,
      (handle_request key now controllers request context w).served = some call →
        (lookup key now context request.bearer_token w).2 = some call.owner ∧
          request.method = call.method ∧
          starts_with_ignore_case request.path (lit "/api/drive/files/") = true ∧
          ∃ numeral, request.path.drop (lit "/api/drive/files/").length = numeral ++ call.suffix ∧
            strtol numeral = some (call.file_id, [])) ∧
    (request.method ≠ .OPTIONS →
      (starts_with_ignore_case request.path (lit "/api/private/") = true ∨
        starts_with_ignore_case request.path (lit "/api/drive/") = true) →
      ∀ context w context' w',
        (lookup key now context request.bearer_token w).2 = none →
        (lookup key now context' request.bearer_token w').2 = none →
        (handle_request key now controllers request context w).reply =
            (handle_request key now controllers request context' w').reply ∧
          (handle_request key now controllers request context w).response.status = 401) := by
  refine ⟨?_, ?_, ?_⟩
  · intro context w h user hcalled huser
    exact handle_request_called hcalled huser
  · intro context w call hserved
    obtain ⟨howner, hmethod, hfiles, hid⟩ := handle_request_served hserved
    unfold path_after at hid
    rw [c_str_eq hpath] at hid
    exact ⟨howner, hmethod, hfiles, hid⟩
  · intro hmethod hprefix context w context' w' hnone hnone'
    have hauth : request.requires_auth = true :=
      hprefix.elim requires_auth_of_private requires_auth_of_drive
    have hreply := handle_request_rejected controllers hmethod hauth hnone
    have hreply' := handle_request_rejected controllers hmethod hauth hnone'
    refine ⟨hreply.trans hreply'.symm, ?_⟩
    have hresponse : (handle_request key now controllers request context w).response =
        unauthorized := congrArg Prod.snd hreply
    rw [hresponse]
    rfl

/-- A download in mixed case, with a session in the cache. -/
def a_download : HttpRequest where
  path := lit "/Api/Drive/FILES/ +7/download"
  headers := [(lit "authorization", lit "bearer t1")]

def a_world : World Unit where
  sessions := ⟨fun token => if token = lit "t1" then some ⟨lit "ana", 1000000⟩ else none, [], []⟩
  rest := ()

/-- Handlers that answer nothing of interest. -/
def silent : Controllers Unit where
  run _ _ _ w := (w, .MEMORY_REQUEST, .init)
  serve _ w := (w, .FILE_REQUEST, .init)
  insert_operation_log w _ _ _ _ _ := w

theorem mixed_case_download :
    (0 : UInt8) ∉ a_download.path ∧
      (handle_request id 0 silent a_download
        { mysql := true, upload_max_bytes := 0 } a_world).served =
        some (.load_owned_file_record (lit "ana") 7) ∧
      ∃ numeral, a_download.path.drop (lit "/api/drive/files/").length =
          numeral ++ lit "/download" ∧ strtol numeral = some (7, []) := by
  have hpath : (0 : UInt8) ∉ a_download.path := by decide
  have hserved : (handle_request id 0 silent a_download
    { mysql := true, upload_max_bytes := 0 } a_world).served =
      some (.load_owned_file_record (lit "ana") 7) := by rfl
  have hagrees := (routing_agrees_with_auth id 0 silent a_download hpath).2.1
  exact ⟨hpath, hserved, (hagrees _ _ _ hserved).2.2.2⟩

end AtlasWebServer.Router
