/-
Is the session cache transparent? `g_auth_sessions` in front of `user_sessions`,
against the same calls without it.

The cache compares tokens and usernames by their bytes, the tables by their
collation, and the cache keeps the username as the client typed it. Where both are
spelled as the tables have them, every live entry of the cache is *backed* by the row
it was read from or written with, and the two implementations cannot be told apart
(`cache_transparent`). A login as `ALICE` for the user `alice` is enough to tell them
apart (`typed_name_differs`).
-/
import AtlasWebServer.Login

set_option autoImplicit false

namespace AtlasWebServer.SessionCache

open StepSystem Bytes Tables List

open AtlasWebServer.Sessions (AuthSessionCacheEntry SessionRecord Store find_active_session
  cleanup_session_token_or_expired upsert_session delete_session delete_user_sessions user_of
  active_user refreshable owned_session kSessionTtlSeconds kSessionRefreshThresholdSeconds)
open AtlasWebServer.Login

/-! ## The calls without a cache -/

/-- A request of a sequential history. -/
inductive Request
  | login_user (status : PasswordCheckStatus) (username token : Bytes)
  | lookup_session (token : Bytes)
  | logout (username token : Bytes) (logout_all : Bool)

/-- What a request is answered. -/
inductive Reply
  | login_user (result : AuthResult)
  | lookup_session (username : Option Bytes)
  | logout (ok : Bool)
  deriving DecidableEq

variable {K : Type} [DecidableEq K] {key : Bytes → K}

section Uncached

variable (key)

def uncached_persist_session (s : Store) (token username : Bytes) (ttl_seconds now : ℤ) :
    Store × Bool :=
  if token = [] ∨ username = [] ∨ ttl_seconds ≤ 0 then (s, false)
  else upsert_session key s token username ttl_seconds now

def uncached_remove_session (s : Store) (token : Bytes) : Store × Bool :=
  if token = [] then (s, false) else (delete_session key s token, true)

/-- `remove_user_sessions` without the cache. -/
def uncached_remove_user_sessions (s : Store) (username except_token : Bytes) : Store × Bool :=
  if username = [] then (s, false) else (delete_user_sessions key s username except_token, true)

def uncached_login_user (s : Store) (status : PasswordCheckStatus) (username token : Bytes)
    (now : ℤ) : Store × AuthResult :=
  match password_error status with
  | some error => (s, error)
  | none =>
      if token = [] then (s, not_issued)
      else
        let saved := uncached_persist_session key s token username kSessionTtlSeconds now
        if saved.2 = false then (saved.1, not_saved)
        else
          let cleared := uncached_remove_user_sessions key saved.1 username token
          if cleared.2 = false then ((uncached_remove_session key cleared.1 token).1, not_cleared)
          else (cleared.1, logged_in token)

/-- `lookup_session` without the cache: always the `SELECT`, and the refresh if it is due. -/
def uncached_lookup_session (s : Store) (token : Bytes) (now : ℤ) : Store × Option Bytes :=
  if token = [] then (s, none)
  else
    match find_active_session key s token now with
    | none => (cleanup_session_token_or_expired key s token now, none)
    | some record =>
        if record.username = [] ∨ record.expires_at ≤ now then (s, none)
        else if record.expires_at - now ≤ kSessionRefreshThresholdSeconds then
          ((Sessions.refresh_session key s token record.username kSessionTtlSeconds now).1,
            some record.username)
        else (s, some record.username)

/-- A request to the server, at a time of the shared clock. -/
def serve (s : Store) (now : ℤ) : Request → Store × Reply
  | .login_user status username token =>
      (login_user key s status username token now).map id .login_user
  | .lookup_session token => (lookup_session key s token now).map id .lookup_session
  | .logout username token logout_all => (logout key s username token logout_all).map id .logout

/-- The same request to a server without the cache. -/
def uncached_serve (s : Store) (now : ℤ) : Request → Store × Reply
  | .login_user status username token =>
      (uncached_login_user key s status username token now).map id .login_user
  | .lookup_session token => (uncached_lookup_session key s token now).map id .lookup_session
  | .logout username token logout_all =>
      (if logout_all then uncached_remove_user_sessions key s username []
        else uncached_remove_session key s token).map id .logout

end Uncached

/-- A server with its clock. A request comes some seconds after the one before it. -/
def timed (serve : Store → ℤ → Request → Store × Reply) (p : Store × ℤ) (i : ℕ × Request) :
    (Store × ℤ) × Reply :=
  let r := serve p.1 (p.2 + i.1) i.2
  ((r.1, p.2 + i.1), r.2)

/-! ## Backed entries -/

/-- The tables of `t` behind the cache `c`. -/
def with_cache (t : Store) (c : Bytes → Option AuthSessionCacheEntry) : Store :=
  { t with g_auth_sessions := c }

/-- A live row of an enabled user that says what the entry says. -/
def Backed (t : Store) (token : Bytes) (entry : AuthSessionCacheEntry) : Prop :=
  ∃ row ∈ t.user_sessions, row.token = token ∧ row.expires_at = entry.expires_at ∧
    ∃ u, user_of t row = some u ∧ u.disabled = false ∧ u.username = entry.username ∧
      entry.username ≠ []

def Sound (t : Store) (now : ℤ) (c : Bytes → Option AuthSessionCacheEntry) : Prop :=
  ∀ token entry, c token = some entry → entry.expires_at ≤ now ∨ Backed t token entry

section Spelling

variable {K : Type} (key : Bytes → K)

/-- The rows that the server takes for the token have its very bytes. -/
def TokenSpelled (t : Store) (token : Bytes) : Prop :=
  ∀ row ∈ t.user_sessions, key row.token = key token → row.token = token

/-- The user that the server takes for the name has its very bytes. -/
def NameSpelled (t : Store) (username : Bytes) : Prop :=
  ∀ u ∈ t.users, key u.username = key username → u.username = username

/-- The request spells its token and its username as the tables do. -/
def Spelled (t : Store) : Request → Prop
  | .login_user _ username token => NameSpelled key t username ∧ TokenSpelled key t token
  | .lookup_session token => TokenSpelled key t token
  | .logout username token logout_all =>
      if logout_all then NameSpelled key t username else TokenSpelled key t token

/-- The keys of the two tables. -/
structure KeysOk (t : Store) : Prop where
  tokens : (t.user_sessions.map fun row => key row.token).Nodup
  user_ids : (t.users.map UserRow.id).Nodup

end Spelling

section Cache

variable {t t' : Store} {now : ℤ} {c : Bytes → Option AuthSessionCacheEntry} {token : Bytes}

theorem Sound.later (h : Sound t now c) {now' : ℤ} (hle : now ≤ now') : Sound t now' c := by
  intro token entry hentry
  rcases h token entry hentry with hexpired | hbacked
  · exact .inl (hexpired.trans hle)
  · exact .inr hbacked

theorem Sound.erase (h : Sound t now c) (token : Bytes) :
    Sound t now (Function.update c token none) := by
  intro token' entry hentry
  rw [Function.update_apply] at hentry
  split_ifs at hentry
  exact h token' entry hentry

theorem Sound.store (h : ∀ token' entry, token' ≠ token → c token' = some entry →
      entry.expires_at ≤ now ∨ Backed t token' entry)
    {entry : AuthSessionCacheEntry} (hbacked : Backed t token entry) :
    Sound t now (Function.update c token (some entry)) := by
  intro token' entry' hentry
  rw [Function.update_apply] at hentry
  split_ifs at hentry with htoken
  · cases hentry
    rw [htoken]
    exact .inr hbacked
  · exact h token' entry' htoken hentry

theorem Sound.filter (h : Sound t now c) {keep : SessionRow → Bool}
    (hkeep : ∀ row ∈ t.user_sessions, ∀ u, user_of t row = some u → keep row = false →
      ∀ entry, c row.token = some entry → u.username = entry.username → row.expires_at ≤ now) :
    Sound { t with user_sessions := t.user_sessions.filter keep } now c := by
  intro token entry hentry
  rcases h token entry hentry with hexpired | ⟨row, hrow, rfl, hexp, u, hu, hdisabled, hname, hne⟩
  · exact .inl hexpired
  cases hk : keep row with
  | true => exact .inr ⟨row, mem_filter.mpr ⟨hrow, hk⟩, rfl, hexp, u, hu, hdisabled, hname, hne⟩
  | false =>
    rw [← hexp]
    exact .inl (hkeep row hrow u hu hk entry hentry hname)

end Cache

/-! ## The statements -/

section Statements

variable {K : Type} {key : Bytes → K} {t : Store} {now : ℤ}
  {c : Bytes → Option AuthSessionCacheEntry} {token username : Bytes}

theorem KeysOk.filter (h : KeysOk key t) (keep : SessionRow → Bool) :
    KeysOk key { t with user_sessions := t.user_sessions.filter keep } where
  tokens := h.tokens.sublist (List.filter_sublist.map _)
  user_ids := h.user_ids

variable {f : SessionRow → SessionRow} {row : SessionRow} {entry : AuthSessionCacheEntry}

theorem KeysOk.map (h : KeysOk key t) (hf : ∀ row, (f row).token = row.token) :
    KeysOk key { t with user_sessions := t.user_sessions.map f } where
  tokens := by
    rw [map_map]
    convert h.tokens using 1
    exact map_congr_left fun row _ => congrArg key (hf row)
  user_ids := h.user_ids

theorem Sound.map (h : Sound t now c) (hspelled : TokenSpelled key t token)
    (hf : ∀ row, key row.token ≠ key token → f row = row) :
    ∀ token' entry, token' ≠ token → c token' = some entry → entry.expires_at ≤ now ∨
      Backed { t with user_sessions := t.user_sessions.map f } token' entry := by
  intro token' entry hne hentry
  rcases h token' entry hentry with hexpired | ⟨row, hrow, rfl, hexp, huser⟩
  · exact .inl hexpired
  · have hother : f row = row := hf row fun hkey => hne (hspelled row hrow hkey)
    exact .inr ⟨row, mem_map.mpr ⟨row, hrow, hother⟩, rfl, hexp, huser⟩

theorem KeysOk.user_of (h : KeysOk key t) {u : UserRow} (hu : u ∈ t.users)
    (hrow : row.user_id = u.id) : user_of t row = some u := by
  unfold Sessions.user_of
  rw [hrow]
  cases hfind : t.users.find? fun v => v.id = u.id with
  | none =>
    have hnone := List.find?_eq_none.mp hfind u hu
    exact absurd (decide_eq_true rfl) hnone
  | some v =>
    have hid : v.id = u.id := by simpa using List.find?_some hfind
    rw [inj_on_of_nodup_map h.user_ids (mem_of_find?_eq_some hfind) hu hid]

variable [DecidableEq K]

theorem find_of_backed (hkeys : KeysOk key t) (hbacked : Backed t token entry)
    (hlive : entry.expires_at > now) :
    find_active_session key t token now = some ⟨entry.username, entry.expires_at⟩ := by
  obtain ⟨row, hrow, rfl, hexp, u, hu, hdisabled, hname, -⟩ := hbacked
  have hactive : active_user key t row.token now row = some u := by
    unfold active_user
    rw [if_pos ⟨rfl, by rw [hexp]; exact hlive⟩, hu]
    simp [hdisabled]
  cases hfind : find_active_session key t row.token now with
  | none =>
    have hnone := findSome?_eq_none_iff.mp hfind row hrow
    rw [hactive] at hnone
    contradiction
  | some record =>
    -- any other row that is found has the same token, so it is the same row
    obtain ⟨other, hother, hrecord⟩ := exists_of_findSome?_eq_some hfind
    obtain ⟨v, hv, rfl⟩ := Option.map_eq_some_iff.mp hrecord
    have hkey : key other.token = key row.token := by
      unfold active_user at hv
      split_ifs at hv with hcond
      exact hcond.1
    obtain rfl : other = row := inj_on_of_nodup_map hkeys.tokens hother hrow hkey
    rw [hactive] at hv
    cases hv
    rw [hname, hexp]

theorem refresh_other (h : key row.token ≠ key token) (username : Bytes) (now : ℤ) :
    refreshable key t token username now row = false := by
  unfold refreshable active_user
  rw [if_neg fun hcond => h hcond.1]
  rfl

theorem refresh_unchanged {ttl_seconds : ℤ}
    (h : (Sessions.refresh_session key t token username ttl_seconds now).2 = false) :
    (Sessions.refresh_session key t token username ttl_seconds now).1 = t := by
  have hrows : (t.user_sessions.map fun row =>
      if refreshable key t token username now row then
        { row with expires_at := now + ttl_seconds } else row) = t.user_sessions := by
    conv_rhs => rw [← map_id t.user_sessions]
    refine map_congr_left fun row hrow => ?_
    split_ifs with hselected
    · have hsame := any_eq_false.mp h row hrow
      simp only [hselected, Bool.true_and, decide_eq_true_eq, not_not] at hsame
      rw [← hsame]
      rfl
    · rfl
  show { t with user_sessions := _ } = t
  rw [hrows]

theorem KeysOk.refresh (h : KeysOk key t) (token username : Bytes) (ttl_seconds now : ℤ) :
    KeysOk key (Sessions.refresh_session key t token username ttl_seconds now).1 := by
  refine h.map fun row => ?_
  split_ifs <;> rfl

theorem Sound.refresh (h : Sound t now c) (hspelled : TokenSpelled key t token)
    (hbacked : Backed t token entry) (hlive : entry.expires_at > now) :
    Sound (Sessions.refresh_session key t token entry.username kSessionTtlSeconds now).1 now
      (Function.update c token (some ⟨entry.username, now + kSessionTtlSeconds⟩)) := by
  apply Sound.store
  · apply h.map hspelled
    intro row hrow
    rw [if_neg]
    rw [refresh_other hrow]
    exact Bool.false_ne_true
  obtain ⟨row, hrow, rfl, hexp, u, hu, hdisabled, hname, hne⟩ := hbacked
  have hselected : refreshable key t row.token entry.username now row = true := by
    unfold refreshable active_user
    rw [if_pos ⟨rfl, by rw [hexp]; exact hlive⟩, hu]
    simp [hdisabled, hname]
  refine ⟨{ row with expires_at := now + kSessionTtlSeconds }, ?_, rfl, rfl, u, hu, hdisabled,
    hname, hne⟩
  refine mem_map.mpr ⟨row, hrow, ?_⟩
  rw [if_pos hselected]

theorem upsert_cases (key : Bytes → K) (t : Store) (token username : Bytes) (ttl_seconds now : ℤ) :
    let r := upsert_session key t token username ttl_seconds now
    r = (t, false) ∨ ∃ u ∈ t.users, key u.username = key username ∧ u.disabled = false ∧
      (((∀ row ∈ t.user_sessions, key row.token ≠ key token) ∧
          r = ({ t with user_sessions := t.user_sessions ++ [⟨token, u.id, now + ttl_seconds⟩] },
            true)) ∨
        ∃ old ∈ t.user_sessions, key old.token = key token ∧
          r = ({ t with
                user_sessions := t.user_sessions.map fun row =>
                  if key row.token = key token then
                    { row with user_id := u.id, expires_at := now + ttl_seconds } else row },
            decide (old.user_id ≠ u.id ∨ old.expires_at ≠ now + ttl_seconds))) := by
  intro r
  have hr : r = upsert_session key t token username ttl_seconds now := rfl
  unfold upsert_session at hr
  split at hr
  · exact .inl hr
  rename_i u hu
  obtain ⟨hukey, hdisabled⟩ : key u.username = key username ∧ u.disabled = false := by
    simpa using List.find?_some hu
  refine .inr ⟨u, mem_of_find?_eq_some hu, hukey, hdisabled, ?_⟩
  split at hr
  · rename_i hnone
    exact .inl ⟨by simpa using hnone, hr⟩
  · rename_i old hold
    exact .inr ⟨old, mem_of_find?_eq_some hold, by simpa using List.find?_some hold, hr⟩

theorem KeysOk.upsert (h : KeysOk key t) (token username : Bytes) (ttl_seconds now : ℤ) :
    KeysOk key (upsert_session key t token username ttl_seconds now).1 := by
  rcases upsert_cases key t token username ttl_seconds now with
    hr | ⟨u, -, -, -, ⟨hnew, hr⟩ | ⟨old, -, -, hr⟩⟩
  · rw [hr]
    exact h
  · rw [hr]
    refine ⟨?_, h.user_ids⟩
    rw [map_append, nodup_append]
    refine ⟨h.tokens, nodup_singleton _, ?_⟩
    intro k hk k' hk'
    obtain ⟨row, hrow, rfl⟩ := mem_map.mp hk
    rw [map_singleton, mem_singleton] at hk'
    rw [hk']
    exact hnew row hrow
  · rw [hr]
    refine h.map fun row => ?_
    split_ifs <;> rfl

/-- `upsert_session` with the entry that follows it, if one does. -/
structure Upserted (t : Store) (now : ℤ) (c : Bytes → Option AuthSessionCacheEntry)
    (token username : Bytes) (r : Store × Bool) : Prop where
  users : r.1.users = t.users
  saved : r.2 = true →
    Sound r.1 now (Function.update c token (some ⟨username, now + kSessionTtlSeconds⟩))
  unsaved : r.2 = false → r.1 = t

theorem upserted (h : Sound t now c) (hkeys : KeysOk key t) (hname : NameSpelled key t username)
    (hspelled : TokenSpelled key t token) (hne : username ≠ []) :
    Upserted t now c token username
      (upsert_session key t token username kSessionTtlSeconds now) := by
  rcases upsert_cases key t token username kSessionTtlSeconds now with
    hr | ⟨u, hmem, hukey, hdisabled, ⟨-, hr⟩ | ⟨old, hold_mem, hold_key, hr⟩⟩
  · rw [hr]
    exact ⟨rfl, by simp, fun _ => rfl⟩
  · rw [hr]
    refine ⟨rfl, fun _ => ?_, by simp⟩
    apply Sound.store
    · intro token' entry _ hentry
      rcases h token' entry hentry with hexpired | ⟨row, hrow, hbacked⟩
      · exact .inl hexpired
      · exact .inr ⟨row, mem_append_left _ hrow, hbacked⟩
    · exact ⟨⟨token, u.id, now + kSessionTtlSeconds⟩, mem_append_right _ (by simp), rfl, rfl,
        u, hkeys.user_of hmem rfl, hdisabled, hname u hmem hukey, hne⟩
  · rw [hr]
    refine ⟨rfl, fun _ => ?_, fun hsame => ?_⟩
    · apply Sound.store
      · apply h.map hspelled
        intro row hrow
        rw [if_neg hrow]
      refine ⟨{ old with user_id := u.id, expires_at := now + kSessionTtlSeconds }, ?_,
        hspelled old hold_mem hold_key, rfl, u, hkeys.user_of hmem rfl, hdisabled,
        hname u hmem hukey, hne⟩
      refine mem_map.mpr ⟨old, hold_mem, ?_⟩
      rw [if_pos hold_key]
    · -- the row has the new values already, and it is the only one of the token
      have hrows : (t.user_sessions.map fun row => if key row.token = key token then
          { row with user_id := u.id, expires_at := now + kSessionTtlSeconds } else row) =
            t.user_sessions := by
        conv_rhs => rw [← map_id t.user_sessions]
        refine map_congr_left fun row hrow => ?_
        split_ifs with hkey
        · obtain rfl : row = old :=
            inj_on_of_nodup_map hkeys.tokens hrow hold_mem (hkey.trans hold_key.symm)
          simp only [ne_eq, decide_eq_false_iff_not, not_or, not_not] at hsame
          rw [← hsame.1, ← hsame.2]
          rfl
        · rfl
      rw [hrows]

theorem backed_of_find {record : SessionRecord} (hspelled : TokenSpelled key t token)
    (hfind : find_active_session key t token now = some record) (hne : record.username ≠ []) :
    Backed t token ⟨record.username, record.expires_at⟩ ∧ record.expires_at > now := by
  obtain ⟨row, hrow, hrecord⟩ := exists_of_findSome?_eq_some hfind
  obtain ⟨u, hactive, rfl⟩ := Option.map_eq_some_iff.mp hrecord
  unfold active_user at hactive
  split_ifs at hactive with hcond
  obtain ⟨huser, henabled⟩ := Option.filter_eq_some_iff.mp hactive
  exact ⟨⟨row, hrow, hspelled row hrow hcond.1, rfl, u, huser, by simpa using henabled, rfl, hne⟩,
    hcond.2⟩

theorem upsert_with_cache (token username : Bytes) (ttl_seconds now : ℤ) :
    upsert_session key (with_cache t c) token username ttl_seconds now =
      (with_cache (upsert_session key t token username ttl_seconds now).1 c,
        (upsert_session key t token username ttl_seconds now).2) := by
  unfold upsert_session with_cache
  dsimp only
  split
  · rfl
  · split <;> rfl

theorem refresh_with_cache (htoken : token ≠ []) (hname : username ≠ []) :
    Login.refresh_session key (with_cache t c) token username kSessionTtlSeconds now =
      if (Sessions.refresh_session key t token username kSessionTtlSeconds now).2 then
        (with_cache (Sessions.refresh_session key t token username kSessionTtlSeconds now).1
          (Function.update c token (some ⟨username, now + kSessionTtlSeconds⟩)), true)
      else (with_cache t c, false) := by
  have hargs : ¬ (token = [] ∨ username = [] ∨ kSessionTtlSeconds ≤ 0) := by
    simp [htoken, hname, kSessionTtlSeconds]
  unfold Login.refresh_session
  rw [if_neg hargs]
  by_cases hupdated :
    (Sessions.refresh_session key t token username kSessionTtlSeconds now).2 = true
  · rw [if_pos hupdated]
    exact if_pos hupdated
  rw [if_neg hupdated]
  refine (if_neg hupdated).trans ?_
  have hsame := refresh_unchanged (Bool.eq_false_iff.mpr hupdated)
  exact congrArg (fun t => (with_cache t c, false)) hsame

end Statements

/-! ## The calls -/

section Calls

variable {t : Store} {now : ℤ} {c : Bytes → Option AuthSessionCacheEntry} {token username : Bytes}

/-- The same answer, and the same tables behind a cache that is sound for them. -/
structure Follows {α : Type} (key : Bytes → K) (now : ℤ) (r r' : Store × α) : Prop where
  answer : r.2 = r'.2
  keys : KeysOk key r'.1
  tables : ∃ c, r.1 = with_cache r'.1 c ∧ Sound r'.1 now c

theorem lookup_row_follows (htoken : token ≠ []) (h : Sound t now c) (hkeys : KeysOk key t)
    (hspelled : TokenSpelled key t token) (hmiss : c token = none) :
    Follows key now (lookup_row key (with_cache t c) token now)
      (uncached_lookup_session key t token now) := by
  have hselect : find_active_session key (with_cache t c) token now =
      find_active_session key t token now := rfl
  unfold lookup_row uncached_lookup_session
  rw [if_neg htoken, hselect]
  cases hfind : find_active_session key t token now with
  | none =>
    refine ⟨rfl, hkeys.filter _, c, rfl, h.filter ?_⟩
    intro row hrow u _ hdropped entry hentry _
    simp only [Bool.not_eq_false', Bool.or_eq_true, decide_eq_true_eq] at hdropped
    rcases hdropped with hkey | hexpired
    · rw [hspelled row hrow hkey, hmiss] at hentry
      contradiction
    · exact hexpired
  | some record =>
    dsimp only
    by_cases hdead : record.username = [] ∨ record.expires_at ≤ now
    · rw [if_pos hdead, if_pos hdead]
      exact ⟨rfl, hkeys, c, rfl, h⟩
    rw [if_neg hdead, if_neg hdead]
    have hname : record.username ≠ [] := fun hempty => hdead (.inl hempty)
    obtain ⟨hbacked, hlive⟩ := backed_of_find hspelled hfind hname
    have hstored : Sound t now (Function.update c token
        (some ⟨record.username, record.expires_at⟩)) :=
      Sound.store (fun token' entry _ hentry => h token' entry hentry) hbacked
    by_cases hdue : record.expires_at - now ≤ kSessionRefreshThresholdSeconds
    · rw [if_pos hdue, if_pos hdue]
      refine ⟨rfl, hkeys.refresh _ _ _ _, ?_⟩
      have hcached : (with_cache t c).cache_store token ⟨record.username, record.expires_at⟩ =
          with_cache t (Function.update c token (some ⟨record.username, record.expires_at⟩)) :=
        rfl
      rw [hcached, refresh_with_cache htoken hname]
      split_ifs with hupdated
      · exact ⟨_, rfl, hstored.refresh hspelled hbacked hlive⟩
      · rw [refresh_unchanged (Bool.eq_false_iff.mpr hupdated)]
        exact ⟨_, rfl, hstored⟩
    · rw [if_neg hdue, if_neg hdue]
      exact ⟨rfl, hkeys, _, rfl, hstored⟩

theorem lookup_follows (h : Sound t now c) (hkeys : KeysOk key t)
    (hspelled : TokenSpelled key t token) :
    Follows key now (lookup_session key (with_cache t c) token now)
      (uncached_lookup_session key t token now) := by
  unfold lookup_session
  by_cases htoken : token = []
  · unfold uncached_lookup_session
    rw [if_pos htoken, if_pos htoken]
    exact ⟨rfl, hkeys, c, rfl, h⟩
  rw [if_neg htoken]
  have hrow : ∀ c', Sound t now c' → c' token = none →
      Follows key now (lookup_row key (with_cache t c') token now)
        (uncached_lookup_session key t token now) :=
    fun c' hsound hmiss => lookup_row_follows htoken hsound hkeys hspelled hmiss
  have hprobe : (with_cache t c).g_auth_sessions token = c token := rfl
  have herase : (with_cache t c).cache_erase token = with_cache t (Function.update c token none) :=
    rfl
  have herased := hrow _ (h.erase token) (Function.update_self token none c)
  rw [hprobe]
  cases hentry : c token with
  | none => exact hrow c h hentry
  | some entry =>
    dsimp only
    by_cases hlive : entry.expires_at > now
    · rw [if_pos hlive]
      have hbacked : Backed t token entry :=
        (h token entry hentry).resolve_left (not_le.mpr hlive)
      have hname : entry.username ≠ [] := by
        obtain ⟨-, -, -, -, -, -, -, -, hne⟩ := hbacked
        exact hne
      have hfind := find_of_backed hkeys hbacked hlive
      have hdead : ¬ (entry.username = [] ∨ entry.expires_at ≤ now) := by
        rintro (hempty | hexpired)
        · exact hname hempty
        · exact absurd hlive (not_lt.mpr hexpired)
      by_cases hdue : entry.expires_at - now ≤ kSessionRefreshThresholdSeconds
      · rw [if_pos hdue, refresh_with_cache htoken hname, if_neg hname]
        by_cases hupdated : (Sessions.refresh_session key t token entry.username
            kSessionTtlSeconds now).2 = true
        · -- the refresh that the uncached lookup makes as well
          unfold uncached_lookup_session
          rw [if_pos hupdated, if_neg htoken, hfind]
          dsimp only
          rw [if_pos rfl, if_neg hdead, if_pos hdue]
          exact ⟨rfl, hkeys.refresh _ _ _ _, _, rfl, h.refresh hspelled hbacked hlive⟩
        · rw [if_neg hupdated, if_neg Bool.false_ne_true, herase]
          exact herased
      · rw [if_neg hdue, if_neg hname]
        unfold uncached_lookup_session
        rw [if_neg htoken, hfind]
        dsimp only
        rw [if_neg hdead, if_neg hdue]
        exact ⟨rfl, hkeys, c, rfl, h⟩
    · rw [if_neg hlive, herase]
      exact herased

theorem remove_session_follows (h : Sound t now c) (hkeys : KeysOk key t)
    (hspelled : TokenSpelled key t token) :
    Follows key now (remove_session key (with_cache t c) token)
      (uncached_remove_session key t token) := by
  unfold remove_session uncached_remove_session
  by_cases htoken : token = []
  · rw [if_pos htoken, if_pos htoken]
    exact ⟨rfl, hkeys, c, rfl, h⟩
  rw [if_neg htoken, if_neg htoken]
  refine ⟨rfl, hkeys.filter _, Function.update c token none, rfl, (h.erase token).filter ?_⟩
  intro row hrow u _ hdropped entry hentry _
  have hkey : key row.token = key token := by simpa using hdropped
  rw [hspelled row hrow hkey, Function.update_self] at hentry
  contradiction

theorem remove_user_sessions_follows (h : Sound t now c) (hkeys : KeysOk key t)
    (hname : NameSpelled key t username) (except_token : Bytes) :
    Follows key now (remove_user_sessions key (with_cache t c) username except_token)
      (uncached_remove_user_sessions key t username except_token) := by
  unfold remove_user_sessions uncached_remove_user_sessions
  by_cases hempty : username = []
  · rw [if_pos hempty, if_pos hempty]
    exact ⟨rfl, hkeys, c, rfl, h⟩
  rw [if_neg hempty, if_neg hempty]
  -- what is left of the cache is what was there, and not of this user but for the token kept
  set c' := ((with_cache t c).cache_erase_user username except_token).g_auth_sessions with hc'
  have hleft : ∀ token entry, c' token = some entry → c token = some entry ∧
      (entry.username = username → except_token ≠ [] ∧ token = except_token) := by
    intro token entry hentry
    simp only [hc', Store.cache_erase_user, with_cache] at hentry
    cases hold : c token with
    | none =>
      rw [hold] at hentry
      contradiction
    | some old =>
      rw [hold] at hentry
      dsimp only at hentry
      split_ifs at hentry with hdrop
      cases hentry
      exact ⟨rfl, fun hsame => not_not.mp fun hkeep => hdrop ⟨hsame, hkeep⟩⟩
  have hsound : Sound t now c' :=
    fun token entry hentry => h token entry (hleft token entry hentry).1
  refine ⟨rfl, hkeys.filter _, c', rfl, hsound.filter ?_⟩
  intro row hrow u huser hdropped entry hentry hsame
  simp only [owned_session, huser, Option.any_some, Bool.not_eq_false', Bool.and_eq_true,
    decide_eq_true_eq, Bool.or_eq_true, Bool.not_eq_true', decide_eq_false_iff_not] at hdropped
  obtain ⟨hukey, hexcept⟩ := hdropped
  have hmem : u ∈ t.users := mem_of_find?_eq_some huser
  have hmine : entry.username = username := hsame.symm.trans (hname u hmem hukey)
  obtain ⟨hsome, htoken⟩ := (hleft row.token entry hentry).2 hmine
  rcases hexcept with hnone | hother
  · exact absurd hnone hsome
  · exact absurd (congrArg key htoken) hother

theorem login_follows (status : PasswordCheckStatus) (h : Sound t now c) (hkeys : KeysOk key t)
    (hname : NameSpelled key t username) (hspelled : TokenSpelled key t token) :
    Follows key now (login_user key (with_cache t c) status username token now)
      (uncached_login_user key t status username token now) := by
  unfold login_user uncached_login_user
  cases password_error status with
  | some error => exact ⟨rfl, hkeys, c, rfl, h⟩
  | none =>
    by_cases htoken : token = []
    · rw [if_pos htoken, if_pos htoken]
      exact ⟨rfl, hkeys, c, rfl, h⟩
    rw [if_neg htoken, if_neg htoken]
    unfold Login.persist_session uncached_persist_session
    by_cases hargs : token = [] ∨ username = [] ∨ kSessionTtlSeconds ≤ 0
    · rw [if_pos hargs, if_pos hargs]
      exact ⟨rfl, hkeys, c, rfl, h⟩
    rw [if_neg hargs, if_neg hargs, upsert_with_cache]
    have hne : username ≠ [] := fun hempty => hargs (.inr (.inl hempty))
    have hups := upserted h hkeys hname hspelled hne
    have hkeys' := hkeys.upsert token username kSessionTtlSeconds now
    generalize upsert_session key t token username kSessionTtlSeconds now = r at hups hkeys' ⊢
    obtain ⟨t', saved⟩ := r
    cases saved with
    | false =>
      obtain rfl : t' = t := hups.unsaved rfl
      exact ⟨rfl, hkeys, c, rfl, h⟩
    | true =>
      have hname' : NameSpelled key t' username := by
        intro u hu
        rw [show t'.users = t.users from hups.users] at hu
        exact hname u hu
      have hclear := remove_user_sessions_follows (hups.saved rfl) hkeys' hname' token
      simp only [Bool.true_eq_false, if_false, if_true]
      unfold remove_user_sessions uncached_remove_user_sessions at hclear ⊢
      rw [if_neg hne, if_neg hne] at *
      exact ⟨rfl, hclear.keys, hclear.tables⟩

end Calls

/-! ## Whole histories -/

section Histories

theorem serve_follows {t : Store} {now : ℤ} {c : Bytes → Option AuthSessionCacheEntry}
    {request : Request} (h : Sound t now c) (hkeys : KeysOk key t)
    (hspelled : Spelled key t request) :
    Follows key now (serve key (with_cache t c) now request)
      (uncached_serve key t now request) := by
  cases request with
  | login_user status username token =>
    obtain ⟨hanswer, hkeys', htables⟩ := login_follows status h hkeys hspelled.1 hspelled.2
    exact ⟨congrArg Reply.login_user hanswer, hkeys', htables⟩
  | lookup_session token =>
    obtain ⟨hanswer, hkeys', htables⟩ := lookup_follows h hkeys hspelled
    exact ⟨congrArg Reply.lookup_session hanswer, hkeys', htables⟩
  | logout username token logout_all =>
    cases logout_all with
    | true =>
      obtain ⟨hanswer, hkeys', htables⟩ :=
        remove_user_sessions_follows h hkeys hspelled ([] : Bytes)
      exact ⟨congrArg Reply.logout hanswer, hkeys', htables⟩
    | false =>
      obtain ⟨hanswer, hkeys', htables⟩ := remove_session_follows h hkeys hspelled
      exact ⟨congrArg Reply.logout hanswer, hkeys', htables⟩

/-- A server that has just started. -/
structure Started (key : Bytes → K) (s : Store) : Prop where
  cache : ∀ token, s.g_auth_sessions token = none
  keys : KeysOk key s

/-- **The cache is transparent** in every history whose requests spell their tokens and
usernames as the tables do: the server with the cache gives the answers of the server
without it. -/
theorem cache_transparent (s : Store) (clock : ℤ) (hs : Started key s)
    (history : List (ℕ × Request))
    (hspelled : AlongInputs (timed (uncached_serve key)) (fun p i => Spelled key p.1 i.2) (s, clock)
      history) :
    outputs (timed (serve key)) (s, clock) history =
      outputs (timed (uncached_serve key)) (s, clock) history := by
  refine outputs_eq_of_simulation
    (R := fun p q => p.2 = q.2 ∧ KeysOk key q.1 ∧ ∃ c, p.1 = with_cache q.1 c ∧ Sound q.1 q.2 c)
    ?_ history _ _ ?_ hspelled
  · rintro ⟨s, clock⟩ ⟨t, clock'⟩ ⟨wait, request⟩ ⟨hclock, hkeys, c, htables, hsound⟩ hreq
    dsimp only at hclock htables hkeys hsound hreq
    subst hclock htables
    have hlater : Sound t (clock + wait) c := hsound.later (by omega)
    obtain ⟨hanswer, hkeys', c', htables', hsound'⟩ := serve_follows hlater hkeys hreq
    exact ⟨hanswer, rfl, hkeys', c', htables', hsound'⟩
  · refine ⟨rfl, hs.keys, s.g_auth_sessions, rfl, ?_⟩
    intro token entry hentry
    rw [hs.cache] at hentry
    contradiction

end Histories

/-- The letters of ASCII without their case, as the server's collation compares them. -/
def ascii_ci (s : Bytes) : Bytes := s.map fun ch => if 65 ≤ ch ∧ ch ≤ 90 then ch + 32 else ch

def alice_only : Store := ⟨fun _ => none, [⟨1, lit "alice", false⟩], []⟩

theorem alice_only_started : Started ascii_ci alice_only where
  cache := fun _ => rfl
  keys := ⟨by decide, by decide⟩

/-- A login, a lookup, a second login that ends the first session, and lookups of both. -/
def two_logins (first : Bytes) : List (ℕ × Request) :=
  [(0, .login_user .Ok first (lit "t1")), (5, .lookup_session (lit "t1")),
    (5, .login_user .Ok (lit "alice") (lit "t2")), (5, .lookup_session (lit "t1")),
    (5, .lookup_session (lit "t2"))]

/-- With the name as it is stored. -/
theorem stored_name_same :
    outputs (timed (serve ascii_ci)) (alice_only, 0) (two_logins (lit "alice")) =
        outputs (timed (uncached_serve ascii_ci)) (alice_only, 0) (two_logins (lit "alice")) ∧
      (outputs (timed (serve ascii_ci)) (alice_only, 0) (two_logins (lit "alice")))[3]? =
        some (.lookup_session none) := by
  refine ⟨cache_transparent alice_only 0 alice_only_started _ ?_, by decide +kernel⟩
  refine ⟨⟨?_, ?_⟩, ?_, ⟨?_, ?_⟩, ?_, ?_, trivial⟩ <;>
    simp only [TokenSpelled, NameSpelled, Spelled] <;> decide +kernel

/-- **With the name typed in another case**, the lookup gives the typed name where the
tables have the stored one; and the session that the second login ends in the tables is
still accepted. -/
theorem typed_name_differs :
    let history := two_logins (lit "ALICE")
    let cached := outputs (timed (serve ascii_ci)) (alice_only, 0) history
    let uncached := outputs (timed (uncached_serve ascii_ci)) (alice_only, 0) history
    cached[1]? = some (.lookup_session (some (lit "ALICE"))) ∧
      uncached[1]? = some (.lookup_session (some (lit "alice"))) ∧
      cached[3]? = some (.lookup_session (some (lit "ALICE"))) ∧
      uncached[3]? = some (.lookup_session none) := by
  decide +kernel

end AtlasWebServer.SessionCache
