/-
Bearer sessions (`service/auth/auth_service.cpp`, `repo/mysql/session_repository.cpp`):
the in-process cache `g_auth_sessions` in front of the table `user_sessions`.

One step is one critical section under `g_auth_cache_lock`, one SQL statement, or
one reading of the clock, as the calls make them. Which call moves, what the clock
shows and whether the statement reached the server are in the label of the step, so
the clocks of the two machines need not agree and any statement may fail.

The server compares strings by a collation, the cache by bytes. `key` is the
collation's sort key, a parameter: two strings are equal to the server when their
keys are. `user_sessions` has its token as primary key and `users` its username as
unique key, both under the collation.

A call without a database connection (`mysql == nullptr`) has `mysql = false`.
-/
import AtlasWebServer.StepSystem
import AtlasWebServer.Tables

set_option autoImplicit false

namespace AtlasWebServer.Sessions

open StepSystem Bytes Tables

/-! ## The cache and the tables -/

def kSessionTtlSeconds : ℤ := 7 * 24 * 3600

def kSessionRefreshThresholdSeconds : ℤ := 24 * 3600

structure AuthSessionCacheEntry where
  username : Bytes
  expires_at : ℤ
  deriving DecidableEq

/-- `SessionRecord`, what `find_active_session` reads. -/
structure SessionRecord where
  username : Bytes
  expires_at : ℤ
  deriving DecidableEq

/-- What the calls share. -/
structure Store where
  g_auth_sessions : Bytes → Option AuthSessionCacheEntry
  users : List UserRow
  user_sessions : List SessionRow

def Store.cache_store (s : Store) (token : Bytes) (entry : AuthSessionCacheEntry) : Store :=
  { s with g_auth_sessions := Function.update s.g_auth_sessions token (some entry) }

def Store.cache_erase (s : Store) (token : Bytes) : Store :=
  { s with g_auth_sessions := Function.update s.g_auth_sessions token none }

/-- The loop of `remove_user_sessions` over the cache. -/
def Store.cache_erase_user (s : Store) (username except_token : Bytes) : Store :=
  { s with
    g_auth_sessions := fun token =>
      match s.g_auth_sessions token with
      | none => none
      | some entry =>
          let same_user := entry.username = username
          let keep_session := except_token ≠ [] ∧ token = except_token
          if same_user ∧ ¬ keep_session then none else some entry }

/-! ## The statements of `session_repository` -/

variable {K : Type} [DecidableEq K] {key : Bytes → K}

section Statements

variable (key)

def user_of (s : Store) (row : SessionRow) : Option UserRow :=
  s.users.find? fun u => u.id = row.user_id

/-- `WHERE s.token = '...' AND s.expires_at > NOW() AND u.disabled_at IS NULL`. -/
def active_user (s : Store) (token : Bytes) (now : ℤ) (row : SessionRow) : Option UserRow :=
  if key row.token = key token ∧ row.expires_at > now then
    (user_of s row).filter fun u => !u.disabled
  else none

def find_active_session (s : Store) (token : Bytes) (now : ℤ) : Option SessionRecord :=
  s.user_sessions.findSome? fun row =>
    (active_user key s token now row).map fun u => ⟨u.username, row.expires_at⟩

def cleanup_session_token_or_expired (s : Store) (token : Bytes) (now : ℤ) : Store :=
  { s with
    user_sessions := s.user_sessions.filter fun row =>
      !(decide (key row.token = key token) || decide (row.expires_at ≤ now)) }

/-- `upsert_session`: the new table and whether `mysql_affected_rows` is positive.
A row that already holds the new values counts as not affected. -/
def upsert_session (s : Store) (token username : Bytes) (ttl_seconds now : ℤ) : Store × Bool :=
  match s.users.find? fun u => key u.username = key username ∧ !u.disabled with
  | none => (s, false)
  | some u =>
      let expires_at := now + ttl_seconds
      match s.user_sessions.find? fun row => key row.token = key token with
      | none =>
          ({ s with user_sessions := s.user_sessions ++ [⟨token, u.id, expires_at⟩] }, true)
      | some old =>
          ({ s with
              user_sessions := s.user_sessions.map fun row =>
                if key row.token = key token then { row with user_id := u.id, expires_at }
                else row },
            decide (old.user_id ≠ u.id ∨ old.expires_at ≠ expires_at))

/-- The rows the `UPDATE` of `refresh_session` selects. -/
def refreshable (s : Store) (token username : Bytes) (now : ℤ) (row : SessionRow) : Bool :=
  (active_user key s token now row).any fun u => decide (key u.username = key username)

/-- `refresh_session` of the repository: the new table and `updated`. A row whose
expiry does not change is selected and not affected. -/
def refresh_session (s : Store) (token username : Bytes) (ttl_seconds now : ℤ) : Store × Bool :=
  let expires_at := now + ttl_seconds
  ({ s with
      user_sessions := s.user_sessions.map fun row =>
        if refreshable key s token username now row then { row with expires_at } else row },
    s.user_sessions.any fun row =>
      refreshable key s token username now row && decide (row.expires_at ≠ expires_at))

def delete_session (s : Store) (token : Bytes) : Store :=
  { s with
    user_sessions := s.user_sessions.filter fun row => !decide (key row.token = key token) }

/-- The rows the `DELETE` of `delete_user_sessions` selects. -/
def owned_session (s : Store) (username except_token : Bytes) (row : SessionRow) : Bool :=
  ((user_of s row).any fun u => decide (key u.username = key username)) &&
    (decide (except_token = []) || !decide (key row.token = key except_token))

def delete_user_sessions (s : Store) (username except_token : Bytes) : Store :=
  { s with
    user_sessions :=
      s.user_sessions.filter fun row => !owned_session key s username except_token row }

end Statements

/-! ## The calls, one critical section or statement a step -/

/-- Where a `lookup_session` call stands, with its locals `now` and `username`.
The two `refresh` groups are its two calls of `refresh_session`. -/
inductive LookupPc
  | clock
  | probe (now : ℤ)
  | hit_refresh (now : ℤ) (username : Bytes)
  | hit_refresh_cache (username : Bytes)
  | hit_erase (now : ℤ)
  | select (now : ℤ)
  | cleanup
  | cache (now : ℤ) (username : Bytes) (expires_at : ℤ)
  | late_refresh (username : Bytes)
  | late_refresh_cache (username : Bytes)
  | returned (ok : Bool)
  deriving DecidableEq

inductive RemovePc
  | cache
  | delete
  | returned (ok : Bool)
  deriving DecidableEq

inductive PersistPc
  | upsert
  | cache
  | returned (ok : Bool)
  deriving DecidableEq

/-- What a step is told: the clock's reading, and whether its statement was
executed. -/
structure Event where
  now : ℤ
  sql_ok : Bool
  deriving DecidableEq

section Calls

variable (key)

def lookup_step (s : Store) (token : Bytes) (e : Event) : LookupPc → Option (Store × LookupPc)
  | .clock => some (s, .probe e.now)
  | .probe now =>
      match s.g_auth_sessions token with
      | none => some (s, .select now)
      | some entry =>
          if entry.expires_at > now then
            if entry.expires_at - now ≤ kSessionRefreshThresholdSeconds then
              -- `refresh_session` turns an empty username away before its statement
              some (s, if entry.username = [] then .hit_erase now
                       else .hit_refresh now entry.username)
            else some (s, .returned (!decide (entry.username = [])))
          else some (s.cache_erase token, .select now)
  | .hit_refresh now username =>
      if e.sql_ok then
        let r := refresh_session key s token username kSessionTtlSeconds e.now
        some (r.1, if r.2 then .hit_refresh_cache username else .hit_erase now)
      else some (s, .hit_erase now)
  | .hit_refresh_cache username =>
      some (s.cache_store token ⟨username, e.now + kSessionTtlSeconds⟩,
        .returned (!decide (username = [])))
  | .hit_erase now => some (s.cache_erase token, .select now)
  | .select now =>
      if e.sql_ok then
        match find_active_session key s token e.now with
        | none => some (s, .cleanup)
        | some record =>
            some (s, if record.username = [] ∨ record.expires_at ≤ now then .returned false
                     else .cache now record.username record.expires_at)
      else some (s, .cleanup)
  | .cleanup =>
      some (if e.sql_ok then cleanup_session_token_or_expired key s token e.now else s,
        .returned false)
  | .cache now username expires_at =>
      some (s.cache_store token ⟨username, expires_at⟩,
        if expires_at - now ≤ kSessionRefreshThresholdSeconds then .late_refresh username
        else .returned true)
  | .late_refresh username =>
      if e.sql_ok then
        let r := refresh_session key s token username kSessionTtlSeconds e.now
        some (r.1, if r.2 then .late_refresh_cache username else .returned true)
      else some (s, .returned true)
  | .late_refresh_cache username =>
      some (s.cache_store token ⟨username, e.now + kSessionTtlSeconds⟩, .returned true)
  | .returned _ => none

def remove_session_step (s : Store) (mysql : Bool) (token : Bytes) (e : Event) :
    RemovePc → Option (Store × RemovePc)
  | .cache => some (s.cache_erase token, if mysql then .delete else .returned true)
  | .delete =>
      if e.sql_ok then some (delete_session key s token, .returned true)
      else some (s, .returned false)
  | .returned _ => none

/-- One step of `remove_user_sessions(username, except_token)`. -/
def remove_user_sessions_step (s : Store) (mysql : Bool) (username except_token : Bytes)
    (e : Event) : RemovePc → Option (Store × RemovePc)
  | .cache =>
      some (s.cache_erase_user username except_token, if mysql then .delete else .returned true)
  | .delete =>
      if e.sql_ok then
        some (delete_user_sessions key s username except_token, .returned true)
      else some (s, .returned false)
  | .returned _ => none

/-- One step of `persist_session(token, username, ttl_seconds)`. -/
def persist_session_step (s : Store) (token username : Bytes) (ttl_seconds : ℤ) (e : Event) :
    PersistPc → Option (Store × PersistPc)
  | .upsert =>
      if e.sql_ok then
        let r := upsert_session key s token username ttl_seconds e.now
        some (r.1, if r.2 then .cache else .returned false)
      else some (s, .returned false)
  | .cache => some (s.cache_store token ⟨username, e.now + ttl_seconds⟩, .returned true)
  | .returned _ => none

/-! ## Any number of calls -/

/-- A call with its arguments and where it stands. -/
inductive Call
  | lookup_session (token : Bytes) (pc : LookupPc)
  | remove_session (mysql : Bool) (token : Bytes) (pc : RemovePc)
  | remove_user_sessions (mysql : Bool) (username except_token : Bytes) (pc : RemovePc)
  | persist_session (token username : Bytes) (ttl_seconds : ℤ) (pc : PersistPc)
  deriving DecidableEq

def lookup_session (mysql : Bool) (token : Bytes) : Call :=
  .lookup_session token (if mysql = false ∨ token = [] then .returned false else .clock)

def remove_session (mysql : Bool) (token : Bytes) : Call :=
  .remove_session mysql token (if token = [] then .returned false else .cache)

/-- The entry check of `remove_user_sessions`. -/
def remove_user_sessions (mysql : Bool) (username except_token : Bytes) : Call :=
  .remove_user_sessions mysql username except_token
    (if username = [] then .returned false else .cache)

def persist_session (mysql : Bool) (token username : Bytes) (ttl_seconds : ℤ) : Call :=
  .persist_session token username ttl_seconds
    (if mysql = false ∨ token = [] ∨ username = [] ∨ ttl_seconds ≤ 0 then .returned false
     else .upsert)

/-- The shared store and every call ever made. -/
structure World where
  store : Store
  calls : List Call

/-- A call starts, or call `i` makes its next step. -/
inductive Label
  | lookup_session (mysql : Bool) (token : Bytes)
  | remove_session (mysql : Bool) (token : Bytes)
  | remove_user_sessions (mysql : Bool) (username except_token : Bytes)
  | persist_session (mysql : Bool) (token username : Bytes) (ttl_seconds : ℤ)
  | step (i : ℕ) (e : Event)

def call_step (s : Store) (e : Event) : Call → Option (Store × Call)
  | .lookup_session token pc =>
      (lookup_step key s token e pc).map fun r => (r.1, .lookup_session token r.2)
  | .remove_session mysql token pc =>
      (remove_session_step key s mysql token e pc).map fun r =>
        (r.1, .remove_session mysql token r.2)
  | .remove_user_sessions mysql username except_token pc =>
      (remove_user_sessions_step key s mysql username except_token e pc).map fun r =>
        (r.1, .remove_user_sessions mysql username except_token r.2)
  | .persist_session token username ttl_seconds pc =>
      (persist_session_step key s token username ttl_seconds e pc).map fun r =>
        (r.1, .persist_session token username ttl_seconds r.2)

def started : Label → Option Call
  | .lookup_session mysql token => some (lookup_session mysql token)
  | .remove_session mysql token => some (remove_session mysql token)
  | .remove_user_sessions mysql username except_token =>
      some (remove_user_sessions mysql username except_token)
  | .persist_session mysql token username ttl_seconds =>
      some (persist_session mysql token username ttl_seconds)
  | .step _ _ => none

def step (w : World) : Label → Option World
  | .step i e =>
      match w.calls[i]? with
      | none => none
      | some c =>
          (call_step key w.store e c).map fun r => ⟨r.1, w.calls.set i r.2⟩
  | l => (started l).map fun c => { w with calls := w.calls ++ [c] }

/-- A freshly started server: the tables are as the last one left them, the cache
is empty. -/
def system : System World Label where
  init w := w.calls = [] ∧ (∀ token, w.store.g_auth_sessions token = none) ∧
    (w.store.user_sessions.map fun row => key row.token).Nodup ∧
    (w.store.users.map fun u => key u.username).Nodup ∧
    (w.store.users.map fun u => u.id).Nodup
  step := step key

end Calls

end AtlasWebServer.Sessions
