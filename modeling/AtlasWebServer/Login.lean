/-
`login_user`, `lookup_session` and `logout` as whole calls
(`service/auth/auth_service.cpp`), over the store and the statements of `Sessions`.

A call here has the server to itself: its statements are executed, and the clock,
which the two machines share, shows one time throughout. `lookup_session` gives the
username it finds, which the step by step model of `Sessions` does not follow.
`login_step` is `login_user` step by step. `lookup_alone` and `login_alone` say that
the whole calls are what the steps do when nothing comes between them.

What `check_user_password` finds, and the token that `make_session_token` draws, are
arguments. A drawn token that is empty is one that could not be drawn.
-/
import AtlasWebServer.Sessions

set_option autoImplicit false

namespace AtlasWebServer.Login

open StepSystem Bytes Tables

open AtlasWebServer.Sessions (Store find_active_session
  cleanup_session_token_or_expired upsert_session delete_session delete_user_sessions
  kSessionTtlSeconds kSessionRefreshThresholdSeconds LookupPc RemovePc PersistPc Event lookup_step
  remove_session_step remove_user_sessions_step persist_session_step)

/-! ## Results -/

inductive PasswordCheckStatus
  | Ok
  | UserNotFound
  | PasswordMismatch
  | InvalidPasswordRecord
  | DbError
  deriving DecidableEq

inductive AuthError
  | None
  | Unauthorized
  | NotFound
  | Conflict
  | Internal
  deriving DecidableEq

structure AuthResult where
  success : Bool
  error : AuthError
  message : Bytes
  token : Bytes
  expires_in : ℤ
  deriving DecidableEq

def set_error (error : AuthError) (message : String) : AuthResult :=
  ⟨false, error, lit message, [], 0⟩

/-- The first `switch` of `login_user`: `none` goes on. -/
def password_error : PasswordCheckStatus → Option AuthResult
  | .Ok => none
  | .UserNotFound => some (set_error .NotFound "账号不存在，请先注册。")
  | .PasswordMismatch => some (set_error .Unauthorized "密码错误，请重新输入。")
  | .InvalidPasswordRecord => some (set_error .Internal "登录失败，账号密码凭据异常，请联系管理员。")
  | .DbError => some (set_error .Internal "登录失败，服务暂时无法读取账号信息。")

def not_issued : AuthResult := set_error .Internal "登录失败，服务暂时无法签发会话。"

def not_saved : AuthResult := set_error .Internal "登录失败，服务暂时无法保存会话。"

/-- The error after `remove_user_sessions`. -/
def not_cleared : AuthResult := set_error .Internal "登录失败，服务暂时无法清理旧会话。"

def logged_in (token : Bytes) : AuthResult :=
  ⟨true, .None, lit "login success", token, kSessionTtlSeconds⟩

/-! ## Whole calls -/

variable {K : Type} [DecidableEq K] {key : Bytes → K}

section Calls

variable (key)

def persist_session (s : Store) (token username : Bytes) (ttl_seconds now : ℤ) : Store × Bool :=
  if token = [] ∨ username = [] ∨ ttl_seconds ≤ 0 then (s, false)
  else
    let r := upsert_session key s token username ttl_seconds now
    if r.2 then (r.1.cache_store token ⟨username, now + ttl_seconds⟩, true) else (r.1, false)

def refresh_session (s : Store) (token username : Bytes) (ttl_seconds now : ℤ) : Store × Bool :=
  if token = [] ∨ username = [] ∨ ttl_seconds ≤ 0 then (s, false)
  else
    let r := Sessions.refresh_session key s token username ttl_seconds now
    if r.2 then (r.1.cache_store token ⟨username, now + ttl_seconds⟩, true) else (r.1, false)

def remove_session (s : Store) (token : Bytes) : Store × Bool :=
  if token = [] then (s, false) else (delete_session key (s.cache_erase token) token, true)

def remove_user_sessions (s : Store) (username except_token : Bytes) : Store × Bool :=
  if username = [] then (s, false)
  else
    (delete_user_sessions key
      (s.cache_erase_user username except_token) username except_token, true)

def logout (s : Store) (username token : Bytes) (logout_all : Bool) : Store × Bool :=
  if logout_all then remove_user_sessions key s username [] else remove_session key s token

def login_user (s : Store) (status : PasswordCheckStatus) (username token : Bytes) (now : ℤ) :
    Store × AuthResult :=
  match password_error status with
  | some error => (s, error)
  | none =>
      if token = [] then (s, not_issued)
      else
        let saved := persist_session key s token username kSessionTtlSeconds now
        if saved.2 = false then (saved.1, not_saved)
        else
          let cleared := remove_user_sessions key saved.1 username token
          if cleared.2 = false then ((remove_session key cleared.1 token).1, not_cleared)
          else (cleared.1, logged_in token)

/-- `lookup_session` from its `SELECT` on: the username, if it returns true. -/
def lookup_row (s : Store) (token : Bytes) (now : ℤ) : Store × Option Bytes :=
  match find_active_session key s token now with
  | none => (cleanup_session_token_or_expired key s token now, none)
  | some record =>
      if record.username = [] ∨ record.expires_at ≤ now then (s, none)
      else
        let s := s.cache_store token ⟨record.username, record.expires_at⟩
        if record.expires_at - now ≤ kSessionRefreshThresholdSeconds then
          ((refresh_session key s token record.username kSessionTtlSeconds now).1,
            some record.username)
        else (s, some record.username)

/-- `lookup_session`: the username, if it returns true. -/
def lookup_session (s : Store) (token : Bytes) (now : ℤ) : Store × Option Bytes :=
  if token = [] then (s, none)
  else
    match s.g_auth_sessions token with
    | none => lookup_row key s token now
    | some entry =>
        let found := if entry.username = [] then none else some entry.username
        if entry.expires_at > now then
          if entry.expires_at - now ≤ kSessionRefreshThresholdSeconds then
            let r := refresh_session key s token entry.username kSessionTtlSeconds now
            if r.2 then (r.1, found) else lookup_row key (r.1.cache_erase token) token now
          else (s, found)
        else lookup_row key (s.cache_erase token) token now

/-! ## `login_user` step by step -/

/-- Where a `login_user` call stands, with its local `token`. -/
inductive LoginPc
  | check
  | persist (token : Bytes) (pc : PersistPc)
  | mark (token : Bytes)
  | clear (token : Bytes) (pc : RemovePc)
  | undo (token : Bytes) (pc : RemovePc)
  | returned (result : AuthResult)
  deriving DecidableEq

/-- What a step is told: the clock and the fate of its statement, and for the first
step what the password check finds and which token is drawn. -/
structure LoginEvent extends Event where
  status : PasswordCheckStatus
  token : Bytes

def login_step (s : Store) (username : Bytes) (e : LoginEvent) : LoginPc → Option (Store × LoginPc)
  | .check =>
      match password_error e.status with
      | some error => some (s, .returned error)
      | none =>
          if e.token = [] then some (s, .returned not_issued)
          else if username = [] then some (s, .returned not_saved)
          else some (s, .persist e.token .upsert)
  | .persist token pc =>
      (persist_session_step key s token username kSessionTtlSeconds e.toEvent pc).map fun r =>
        (r.1, match r.2 with
          | .returned true => .mark token
          | .returned false => .returned not_saved
          | pc => .persist token pc)
  | .mark token => some (s, .clear token .cache)
  | .clear token pc =>
      (remove_user_sessions_step key s true username token e.toEvent pc).map fun r =>
        (r.1, match r.2 with
          | .returned true => .returned (logged_in token)
          | .returned false => .undo token .cache
          | pc => .clear token pc)
  | .undo token pc =>
      (remove_session_step key s true token e.toEvent pc).map fun r =>
        (r.1, match r.2 with
          | .returned _ => .returned not_cleared
          | pc => .undo token pc)
  | .returned _ => none

end Calls

/-! ## Whole calls are steps with nothing between them -/

section Alone

variable {s : Store} {token : Bytes} {now : ℤ}

/-- A step of `lookup_session` with the server to itself. -/
def lookup_move (key : Bytes → K) (token : Bytes) (now : ℤ) (p : Store × LookupPc) :
    Option (Store × LookupPc) :=
  lookup_step key p.1 token ⟨now, true⟩ p.2

@[simp] theorem lookup_move_returned (ok : Bool) (fuel : ℕ) :
    run_alone (lookup_move key token now) fuel (s, .returned ok) = (s, .returned ok) :=
  run_alone_of_end rfl fuel

theorem late_refresh_alone {username : Bytes} (htoken : token ≠ []) (hname : username ≠ [])
    (fuel : ℕ) :
    run_alone (lookup_move key token now) (fuel + 2) (s, .late_refresh username) =
      ((refresh_session key s token username kSessionTtlSeconds now).1, .returned true) := by
  have hargs : ¬ (token = [] ∨ username = [] ∨ kSessionTtlSeconds ≤ 0) := by
    simp [htoken, hname, kSessionTtlSeconds]
  unfold refresh_session
  rw [if_neg hargs]
  by_cases hupdated :
      (Sessions.refresh_session key s token username kSessionTtlSeconds now).2 = true <;>
    simp [run_alone, lookup_move, lookup_step, hupdated]

theorem select_alone (htoken : token ≠ []) (fuel : ℕ) :
    run_alone (lookup_move key token now) (fuel + 4) (s, .select now) =
      ((lookup_row key s token now).1, .returned (lookup_row key s token now).2.isSome) := by
  unfold lookup_row
  cases hfind : find_active_session key s token now with
  | none => simp [run_alone, lookup_move, lookup_step, hfind]
  | some record =>
    by_cases hdead : record.username = [] ∨ record.expires_at ≤ now
    · simp [run_alone, lookup_move, lookup_step, hfind, hdead]
    have hname : record.username ≠ [] := fun h => hdead (.inl h)
    have hselect : lookup_move key token now (s, .select now) =
        some (s, .cache now record.username record.expires_at) := by
      simp [lookup_move, lookup_step, hfind, hdead]
    rw [run_alone_of_step hselect]
    dsimp only
    rw [if_neg hdead]
    by_cases hdue : record.expires_at - now ≤ kSessionRefreshThresholdSeconds
    · have hcache : lookup_move key token now (s, .cache now record.username record.expires_at) =
          some (s.cache_store token ⟨record.username, record.expires_at⟩,
            .late_refresh record.username) := by
        simp [lookup_move, lookup_step, hdue]
      rw [run_alone_of_step hcache, late_refresh_alone htoken hname, if_pos hdue]
      rfl
    · simp [run_alone, lookup_move, lookup_step, hdue]

/-- **`lookup_session` with the server to itself** is what its steps do. -/
theorem lookup_alone (htoken : token ≠ []) :
    run_alone (lookup_move key token now) 8 (s, .clock) =
      ((lookup_session key s token now).1,
        .returned (lookup_session key s token now).2.isSome) := by
  have hclock : lookup_move key token now (s, .clock) = some (s, .probe now) := rfl
  rw [run_alone_of_step hclock]
  unfold lookup_session
  rw [if_neg htoken]
  cases hentry : s.g_auth_sessions token with
  | none =>
    have hprobe : lookup_move key token now (s, .probe now) = some (s, .select now) := by
      simp [lookup_move, lookup_step, hentry]
    rw [run_alone_of_step hprobe, select_alone htoken]
  | some entry =>
    dsimp only
    by_cases hlive : entry.expires_at > now
    · rw [if_pos hlive]
      by_cases hdue : entry.expires_at - now ≤ kSessionRefreshThresholdSeconds
      · rw [if_pos hdue]
        unfold refresh_session
        by_cases hname : entry.username = []
        · have hprobe : lookup_move key token now (s, .probe now) = some (s, .hit_erase now) := by
            simp [lookup_move, lookup_step, hentry, hlive, hdue, hname]
          have herase : lookup_move key token now (s, .hit_erase now) =
              some (s.cache_erase token, .select now) := rfl
          have hargs : token = [] ∨ entry.username = [] ∨ kSessionTtlSeconds ≤ 0 :=
            .inr (.inl hname)
          rw [run_alone_of_step hprobe, run_alone_of_step herase, select_alone htoken,
            if_pos hargs, if_neg Bool.false_ne_true]
        · have hprobe : lookup_move key token now (s, .probe now) =
              some (s, .hit_refresh now entry.username) := by
            simp [lookup_move, lookup_step, hentry, hlive, hdue, hname]
          have hargs : ¬ (token = [] ∨ entry.username = [] ∨ kSessionTtlSeconds ≤ 0) := by
            simp [htoken, hname, kSessionTtlSeconds]
          rw [run_alone_of_step hprobe, if_neg hargs]
          by_cases hupdated : (Sessions.refresh_session key s token entry.username
              kSessionTtlSeconds now).2 = true
          · simp [run_alone, lookup_move, lookup_step, hupdated, hname]
          have hrefresh : lookup_move key token now (s, .hit_refresh now entry.username) =
              some ((Sessions.refresh_session key s token entry.username kSessionTtlSeconds
                now).1, .hit_erase now) := by
            simp [lookup_move, lookup_step, hupdated]
          have herase : ∀ s', lookup_move key token now (s', .hit_erase now) =
              some (s'.cache_erase token, .select now) := fun _ => rfl
          rw [run_alone_of_step hrefresh, run_alone_of_step (herase _), select_alone htoken,
            if_neg hupdated, if_neg Bool.false_ne_true]
      · by_cases hname : entry.username = [] <;>
          simp [run_alone, lookup_move, lookup_step, hentry, hlive, hdue, hname]
    · have hprobe : lookup_move key token now (s, .probe now) =
          some (s.cache_erase token, .select now) := by
        simp [lookup_move, lookup_step, hentry, hlive]
      rw [run_alone_of_step hprobe, select_alone htoken, if_neg hlive]

theorem cached_token_alone :
    run_alone (lookup_move id [1] 0) 8 (⟨fun _ => some ⟨[117], 90000⟩, [], []⟩, .clock) =
      (⟨fun _ => some ⟨[117], 90000⟩, [], []⟩, .returned true) :=
  lookup_alone (List.cons_ne_nil 1 [])

/-- A step of `login_user` with the server to itself. -/
def login_move (key : Bytes → K) (username : Bytes) (e : LoginEvent) (p : Store × LoginPc) :
    Option (Store × LoginPc) :=
  login_step key p.1 username e p.2

/-- **`login_user` with the server to itself** is what its steps do. -/
theorem login_alone (username : Bytes) (status : PasswordCheckStatus) :
    run_alone (login_move key username ⟨⟨now, true⟩, status, token⟩) 6 (s, .check) =
      ((login_user key s status username token now).1,
        .returned (login_user key s status username token now).2) := by
  unfold login_user
  cases hstatus : password_error status with
  | some error => simp [run_alone, login_move, login_step, hstatus]
  | none =>
    by_cases htoken : token = []
    · simp [run_alone, login_move, login_step, hstatus, htoken]
    unfold persist_session
    by_cases hname : username = []
    · simp [run_alone, login_move, login_step, hstatus, htoken, hname]
    have hargs : ¬ (token = [] ∨ username = [] ∨ kSessionTtlSeconds ≤ 0) := by
      simp [htoken, hname, kSessionTtlSeconds]
    rw [if_neg hargs]
    by_cases hsaved : (upsert_session key s token username kSessionTtlSeconds now).2 = true <;>
      simp [run_alone, login_move, login_step, persist_session_step,
        remove_user_sessions_step, remove_user_sessions, hstatus, htoken, hname, hsaved]

end Alone

end AtlasWebServer.Login
