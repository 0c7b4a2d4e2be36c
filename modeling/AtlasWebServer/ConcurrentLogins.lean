/-
Logins of one user at the same time.

A login inserts its own session and then deletes every other one of the user, first
in the cache and then in the table. The last `DELETE` to be executed leaves at most
the session of its own login. Whether it leaves that one is another matter: two
logins that have both inserted delete each other's session, both succeed, and neither
token is accepted (`both_logins_lost`). A login whose `DELETE` finds no other login
between its insert and its own `DELETE` cannot do that (`Undisturbed`).
-/
import AtlasWebServer.SessionCache

set_option autoImplicit false

namespace AtlasWebServer.ConcurrentLogins

open StepSystem Bytes Tables List Option

open AtlasWebServer.Sessions (Store find_active_session upsert_session delete_user_sessions user_of
  active_user owned_session kSessionTtlSeconds kSessionRefreshThresholdSeconds
  persist_session_step remove_user_sessions_step)
open AtlasWebServer.Login
open AtlasWebServer.SessionCache (KeysOk upsert_cases refresh_unchanged)

/-! ## The logins -/

structure Call where
  username : Bytes
  pc : LoginPc
  deriving DecidableEq

/-- The shared store and every login so far. -/
structure World where
  store : Store
  logins : List Call

/-- A login starts, or login `i` makes its next step. -/
inductive Label
  | login_user (username : Bytes)
  | step (i : ℕ) (e : LoginEvent)

/-- The call has failed, or is undoing its insert because of a failure. -/
def failed : LoginPc → Bool
  | .undo _ _ => true
  | .returned result => !result.success
  | _ => false

/-- The token of a call that has inserted its session and has yet to delete the others. -/
def inserted : LoginPc → Option Bytes
  | .persist token .cache => some token
  | .mark token => some token
  | .clear token .cache => some token
  | .clear token .delete => some token
  | _ => none

/-- The token a call has drawn, unless it fails. -/
def drawn : LoginPc → Option Bytes
  | .persist token _ => some token
  | .mark token => some token
  | .clear token _ => some token
  | .returned result => if result.success then some result.token else none
  | _ => none

variable {pc : LoginPc} {username : Bytes}

variable {token : Bytes} {s : Store}

theorem drawn_of_inserted (h : inserted pc = some token) : drawn pc = some token := by
  cases pc with
  | persist token' pc => cases pc <;> first | exact h | cases h
  | clear token' pc => cases pc <;> first | exact h | cases h
  | mark token' => exact h
  | _ => contradiction

/-- The token of a call that has returned success. -/
def logged : LoginPc → Option Bytes
  | .returned result => if result.success then some result.token else none
  | _ => none

theorem drawn_of_logged (h : logged pc = some token) : drawn pc = some token := by
  cases pc with
  | returned result => exact h
  | _ => contradiction

/-- The next step is the `DELETE` of the other sessions. -/
def at_delete : LoginPc → Bool
  | .clear _ .delete => true
  | _ => false

variable {K : Type} [DecidableEq K] {key : Bytes → K}

section System

variable (key)

/-- The logins of the user `u`, under any spelling the server takes for the name. -/
def step (u : UserRow) (w : World) : Label → Option World
  | .login_user username =>
      if key username = key u.username then
        some { w with logins := w.logins ++ [⟨username, .check⟩] }
      else none
  | .step i e =>
      match w.logins[i]? with
      | none => none
      | some call =>
          (login_step key w.store call.username e call.pc).map fun r =>
            ⟨r.1, w.logins.set i { call with pc := r.2 }⟩

/-- No login yet; any tables that keep their keys, and any cache without empty names. -/
def system (u : UserRow) : System World Label where
  init w := w.logins = [] ∧ KeysOk key w.store ∧
    (w.store.users.map fun v => key v.username).Nodup ∧
    u ∈ w.store.users ∧ u.username ≠ [] ∧
    ∀ token entry, w.store.g_auth_sessions token = some entry → entry.username ≠ []
  step := step key u

end System

/-! ## What a step can do -/

section Moves

variable (key)

/-- The moves of a login. A failure is only followed this far. -/
inductive LoginMove (s : Store) (username : Bytes) (e : LoginEvent) :
    LoginPc → Store → LoginPc → Prop
  | fails (pc : LoginPc) (s' : Store) (pc' : LoginPc) (h : failed pc' = true) :
      LoginMove s username e pc s' pc'
  | draws (htoken : e.token ≠ []) (hname : username ≠ []) :
      LoginMove s username e .check s (.persist e.token .upsert)
  | upserts (token : Bytes)
      (hsaved : (upsert_session key s token username kSessionTtlSeconds e.now).2 = true) :
      LoginMove s username e (.persist token .upsert)
        (upsert_session key s token username kSessionTtlSeconds e.now).1 (.persist token .cache)
  | caches (token : Bytes) :
      LoginMove s username e (.persist token .cache)
        (s.cache_store token ⟨username, e.now + kSessionTtlSeconds⟩) (.mark token)
  | marks (token : Bytes) : LoginMove s username e (.mark token) s (.clear token .cache)
  | clears (token : Bytes) :
      LoginMove s username e (.clear token .cache) (s.cache_erase_user username token)
        (.clear token .delete)
  | deletes (token : Bytes) (hsql : e.sql_ok = true) :
      LoginMove s username e (.clear token .delete) (delete_user_sessions key s username token)
        (.returned (logged_in token))

variable {key}

theorem password_error_failed {status : PasswordCheckStatus} {error : AuthResult}
    (h : password_error status = some error) : error.success = false := by
  cases status with
  | Ok => contradiction
  | _ =>
    cases h
    rfl

theorem login_step_move {s : Store} {e : LoginEvent} {r : Store × LoginPc}
    (h : login_step key s username e pc = some r) :
    LoginMove key s username e pc r.1 r.2 := by
  cases pc with
  | check =>
    simp only [login_step] at h
    split at h
    · rename_i error herror
      cases h
      exact .fails _ _ _ (by simp [failed, password_error_failed herror])
    split_ifs at h with htoken hname
    · cases h
      exact .fails _ _ _ rfl
    · cases h
      exact .fails _ _ _ rfl
    · cases h
      exact .draws htoken hname
  | persist token pc =>
    obtain ⟨r', hr, rfl⟩ := map_eq_some_iff.mp h
    cases pc with
    | upsert =>
      simp only [persist_session_step] at hr
      split_ifs at hr with hsql hsaved
      · cases hr
        exact .upserts token hsaved
      · cases hr
        exact .fails _ _ _ rfl
      · cases hr
        exact .fails _ _ _ rfl
    | cache =>
      cases hr
      exact .caches token
    | returned ok => contradiction
  | mark token =>
    cases h
    exact .marks token
  | clear token pc =>
    obtain ⟨r', hr, rfl⟩ := map_eq_some_iff.mp h
    cases pc with
    | cache =>
      cases hr
      exact .clears token
    | delete =>
      simp only [remove_user_sessions_step] at hr
      split_ifs at hr with hsql
      · cases hr
        exact .deletes token hsql
      · cases hr
        exact .fails _ _ _ rfl
    | returned ok => contradiction
  | undo token pc =>
    -- an undo goes on or returns an error, whatever its statements do
    simp only [login_step] at h
    obtain ⟨r', hr, rfl⟩ := map_eq_some_iff.mp h
    apply LoginMove.fails
    split <;> rfl
  | returned result => contradiction

end Moves

theorem LoginMove.stays_failed {s' : Store} {e : LoginEvent} {pc' : LoginPc}
    (h : LoginMove key s username e pc s' pc') (hfailed : failed pc = true) :
    failed pc' = true := by
  cases h with
  | fails _ _ _ hfailed' => exact hfailed'
  | _ => contradiction

/-! ## The rows of the user -/

section Rows

variable {K : Type} (key : Bytes → K) (u : UserRow)

/-- The user, not disabled, has a session row for the token, which lives seven days from
`t₀` on at least. -/
def HasRow (t₀ : ℤ) (s : Store) (token : Bytes) : Prop :=
  u.disabled = false ∧ ∃ row ∈ s.user_sessions, key row.token = key token ∧ row.user_id = u.id ∧
    t₀ + kSessionTtlSeconds ≤ row.expires_at

/-- What is true in every state before a failure. -/
structure Base (w : World) : Prop where
  keys : KeysOk key w.store
  names : (w.store.users.map fun v => key v.username).Nodup
  user : u ∈ w.store.users
  name : u.username ≠ []
  cached : ∀ token entry, w.store.g_auth_sessions token = some entry → entry.username ≠ []
  spelled : ∀ call ∈ w.logins, key call.username = key u.username
  drawn : ∀ call ∈ w.logins, ∀ token, drawn call.pc = some token → token ≠ [] ∧ call.username ≠ []

variable {key u}

/-- Once a login has succeeded, a row of the user is that of the last `DELETE`, or of a
login that has inserted and not deleted yet. -/
def Few (key : Bytes → K) (u : UserRow) (w : World) : Prop :=
  (∃ call ∈ w.logins, (logged call.pc).isSome = true) →
    ∃ token, ∀ row ∈ w.store.user_sessions, row.user_id = u.id →
      key row.token = key token ∨
        ∃ call ∈ w.logins, ∃ token', inserted call.pc = some token' ∧ key row.token = key token'

/-- A login that has inserted still has its row. Once a login has succeeded, there is one
that has inserted, or one that has succeeded and still has its row. -/
structure RowsKept (key : Bytes → K) (u : UserRow) (t₀ : ℤ) (w : World) : Prop where
  rows : ∀ call ∈ w.logins, ∀ token, inserted call.pc = some token → HasRow key u t₀ w.store token
  last : (∃ call ∈ w.logins, (logged call.pc).isSome = true) →
    (∃ call ∈ w.logins, (inserted call.pc).isSome = true) ∨
      ∃ call ∈ w.logins, ∃ token, logged call.pc = some token ∧ HasRow key u t₀ w.store token

variable {w : World} {i : ℕ} {call : Call} {s' : Store} {pc' : LoginPc} {e : LoginEvent} {t₀ : ℤ}

theorem logged_before {logins : List Call} {new : Call} (hnew : logged new.pc = none)
    (h : ∃ c ∈ logins.set i new, (logged c.pc).isSome = true) :
    ∃ c ∈ logins, (logged c.pc).isSome = true := by
  obtain ⟨c, hc, hlogged⟩ := h
  rcases mem_or_eq_of_mem_set hc with hold | rfl
  · exact ⟨c, hold, hlogged⟩
  · rw [hnew] at hlogged
    contradiction

theorem Few.quiet (h : Few key u w) (hi : w.logins[i]? = some call)
    (hrows : s'.user_sessions = w.store.user_sessions) (hins : inserted pc' = inserted call.pc)
    (hlog : logged pc' = none) :
    Few key u ⟨s', w.logins.set i { call with pc := pc' }⟩ := by
  intro hlogged
  obtain ⟨token, hfew⟩ := h (logged_before hlog hlogged)
  refine ⟨token, fun row hrow hrow_user => ?_⟩
  rw [show (World.mk s' _).store.user_sessions = _ from hrows] at hrow
  rcases hfew row hrow hrow_user with hlast | hother
  · exact .inl hlast
  · refine .inr (exists_mem_set hi ?_ hother)
    rintro ⟨token', htoken', hkey⟩
    exact ⟨token', hins.trans htoken', hkey⟩

theorem RowsKept.quiet (h : RowsKept key u t₀ w) (hi : w.logins[i]? = some call)
    (hrows : s'.user_sessions = w.store.user_sessions) (hins : inserted pc' = inserted call.pc)
    (hold : logged call.pc = none) (hlog : logged pc' = none) :
    RowsKept key u t₀ ⟨s', w.logins.set i { call with pc := pc' }⟩ := by
  have hrow : ∀ token, HasRow key u t₀ w.store token → HasRow key u t₀ s' token := by
    rintro token ⟨henabled, row, hrow, hrest⟩
    exact ⟨henabled, row, by rw [hrows]; exact hrow, hrest⟩
  constructor
  · refine forall_mem_set (fun c hmem token htoken => hrow token (h.rows c hmem token htoken)) ?_
    exact fun token htoken =>
      hrow token (h.rows call (mem_of_getElem? hi) token (hins.symm.trans htoken))
  intro hlogged
  rcases h.last (logged_before hlog hlogged) with hinserted | hlast
  · refine .inl (exists_mem_set hi (fun hsome => ?_) hinserted)
    rw [show inserted pc' = _ from hins]
    exact hsome
  right
  apply exists_mem_set hi
  · rintro ⟨token, htoken, -⟩
    rw [hold] at htoken
    contradiction
  · obtain ⟨c, hc, token, htoken, hhas⟩ := hlast
    exact ⟨c, hc, token, htoken, hrow token hhas⟩

variable [DecidableEq K]

theorem upsert_rows (hnames : (s.users.map fun v => key v.username).Nodup) (hu : u ∈ s.users)
    {now : ℤ} (hname : key username = key u.username)
    (hsaved : (upsert_session key s token username kSessionTtlSeconds now).2 = true) :
    let s' := (upsert_session key s token username kSessionTtlSeconds now).1
    u.disabled = false ∧
      (∃ row ∈ s'.user_sessions, key row.token = key token ∧ row.user_id = u.id ∧
        row.expires_at = now + kSessionTtlSeconds) ∧
      (∀ row ∈ s.user_sessions, key row.token ≠ key token → row ∈ s'.user_sessions) ∧
      ∀ row ∈ s'.user_sessions, key row.token = key token ∨ row ∈ s.user_sessions := by
  rcases upsert_cases key s token username kSessionTtlSeconds now with
    hr | ⟨v, hv, hvkey, henabled, ⟨-, hr⟩ | ⟨old, hold, hold_key, hr⟩⟩
  · rw [hr] at hsaved
    contradiction
  · obtain rfl : v = u := inj_on_of_nodup_map hnames hv hu (hvkey.trans hname)
    rw [hr]
    refine ⟨henabled, ⟨_, mem_append_right _ (mem_singleton_self _), rfl, rfl, rfl⟩, ?_, ?_⟩
    · intro row hrow _
      exact mem_append_left _ hrow
    intro row hrow
    rcases mem_append.mp hrow with hold | hnew
    · exact .inr hold
    · rw [mem_singleton.mp hnew]
      exact .inl rfl
  · obtain rfl : v = u := inj_on_of_nodup_map hnames hv hu (hvkey.trans hname)
    rw [hr]
    refine ⟨henabled, ⟨{ old with user_id := v.id, expires_at := now + kSessionTtlSeconds }, ?_,
      hold_key, rfl, rfl⟩, ?_, ?_⟩
    · refine mem_map.mpr ⟨old, hold, ?_⟩
      rw [if_pos hold_key]
    · intro row hrow hne
      refine mem_map.mpr ⟨row, hrow, ?_⟩
      rw [if_neg hne]
    · intro row hrow
      obtain ⟨before, hbefore, rfl⟩ := mem_map.mp hrow
      split_ifs with hkey
      · exact .inl hkey
      · exact .inr hbefore

theorem mem_delete_user_sessions (hkeys : KeysOk key s) (hu : u ∈ s.users)
    (hname : key username = key u.username) (htoken : token ≠ []) {row : SessionRow}
    (hrow : row.user_id = u.id) :
    row ∈ (delete_user_sessions key s username token).user_sessions ↔
      row ∈ s.user_sessions ∧ key row.token = key token := by
  have howned : owned_session key s username token row = !decide (key row.token = key token) := by
    simp [owned_session, hkeys.user_of hu hrow, hname, htoken]
  unfold delete_user_sessions
  rw [mem_filter, howned]
  simp

/-! ## One step -/

theorem LoginMove.store_ok (hmove : LoginMove key s username e pc s' pc') (hok : failed pc' = false)
    (hkeys : KeysOk key s) (hname : ∀ token, inserted pc = some token → username ≠ [])
    (hcached : ∀ token entry, s.g_auth_sessions token = some entry → entry.username ≠ []) :
    KeysOk key s' ∧ s'.users = s.users ∧
      ∀ token entry, s'.g_auth_sessions token = some entry → entry.username ≠ [] := by
  cases hmove with
  | fails _ _ _ hfailed =>
    rw [hfailed] at hok
    contradiction
  | upserts token hsaved =>
    refine ⟨hkeys.upsert _ _ _ _, ?_, ?_⟩
    all_goals
      rcases upsert_cases key s token username kSessionTtlSeconds e.now with
        hr | ⟨v, -, -, -, ⟨-, hr⟩ | ⟨old, -, -, hr⟩⟩
      all_goals rw [hr]
    all_goals first | rfl | exact hcached
  | caches token =>
    refine ⟨⟨hkeys.tokens, hkeys.user_ids⟩, rfl, ?_⟩
    intro token' entry hentry
    simp only [Store.cache_store, Function.update_apply] at hentry
    split_ifs at hentry
    · rw [← some.inj hentry]
      exact hname token rfl
    · exact hcached token' entry hentry
  | clears token =>
    refine ⟨⟨hkeys.tokens, hkeys.user_ids⟩, rfl, ?_⟩
    intro token' entry hentry
    simp only [Store.cache_erase_user] at hentry
    cases hold : s.g_auth_sessions token' with
    | none =>
      rw [hold] at hentry
      contradiction
    | some old =>
      rw [hold] at hentry
      dsimp only at hentry
      split_ifs at hentry
      rw [← some.inj hentry]
      exact hcached token' old hold
  | deletes token _ => exact ⟨hkeys.filter _, rfl, hcached⟩
  | _ => exact ⟨hkeys, rfl, hcached⟩

theorem LoginMove.drawn (hmove : LoginMove key s username e pc s' pc') (hok : failed pc' = false)
    (h : drawn pc' = some token) : drawn pc = some token ∨ (token ≠ [] ∧ username ≠ []) := by
  cases hmove with
  | fails _ _ _ hfailed =>
    rw [hfailed] at hok
    contradiction
  | draws htoken hname =>
    cases h
    exact .inr ⟨htoken, hname⟩
  | _ => exact .inl h

theorem Base.move (h : Base key u w) (hi : w.logins[i]? = some call)
    (hmove : LoginMove key w.store call.username e call.pc s' pc') (hok : failed pc' = false) :
    Base key u ⟨s', w.logins.set i { call with pc := pc' }⟩ := by
  have hmem := mem_of_getElem? hi
  obtain ⟨hkeys, husers, hcached⟩ := hmove.store_ok hok h.keys
    (fun token htoken => (h.drawn call hmem token (drawn_of_inserted htoken)).2) h.cached
  refine ⟨hkeys, husers ▸ h.names, husers ▸ h.user, h.name, hcached, ?_, ?_⟩
  · exact forall_mem_set h.spelled (h.spelled call hmem)
  · refine forall_mem_set h.drawn fun token htoken => ?_
    rcases hmove.drawn hok htoken with hdrawn | hnew
    · exact h.drawn call hmem token hdrawn
    · exact hnew

theorem Few.upserts (h : Few key u w) (hbase : Base key u w)
    (hi : w.logins[i]? = some ⟨username, .persist token .upsert⟩)
    (hsaved : (upsert_session key w.store token username kSessionTtlSeconds e.now).2 = true) :
    Few key u ⟨(upsert_session key w.store token username kSessionTtlSeconds e.now).1,
      w.logins.set i ⟨username, .persist token .cache⟩⟩ := by
  have hname := hbase.spelled _ (mem_of_getElem? hi)
  obtain ⟨-, -, -, hrows⟩ := upsert_rows hbase.names hbase.user hname hsaved
  intro hlogged
  obtain ⟨last, hfew⟩ := h (logged_before rfl hlogged)
  refine ⟨last, fun row hrow hrow_user => ?_⟩
  rcases hrows row hrow with hkey | hold
  · have hlt := (List.getElem?_eq_some_iff.mp hi).1
    exact .inr ⟨_, List.mem_set hlt _, token, rfl, hkey⟩
  rcases hfew row hold hrow_user with hlast | hother
  · exact .inl hlast
  · refine .inr (exists_mem_set hi ?_ hother)
    rintro ⟨_, ⟨⟩, -⟩

theorem Few.deletes (hbase : Base key u w)
    (hi : w.logins[i]? = some ⟨username, .clear token .delete⟩) (logins : List Call) :
    Few key u ⟨delete_user_sessions key w.store username token, logins⟩ := by
  have hmem := mem_of_getElem? hi
  have hname := hbase.spelled _ hmem
  have htoken := (hbase.drawn _ hmem token rfl).1
  intro _
  refine ⟨token, fun row hrow hrow_user => .inl ?_⟩
  exact ((mem_delete_user_sessions hbase.keys hbase.user hname htoken hrow_user).mp hrow).2

theorem Few.move (h : Few key u w) (hbase : Base key u w) (hi : w.logins[i]? = some call)
    (hmove : LoginMove key w.store call.username e call.pc s' pc') (hok : failed pc' = false) :
    Few key u ⟨s', w.logins.set i { call with pc := pc' }⟩ := by
  obtain ⟨username, pc⟩ := call
  cases hmove with
  | fails _ _ _ hfailed =>
    rw [hfailed] at hok
    contradiction
  | upserts token hsaved => exact h.upserts hbase hi hsaved
  | deletes token _ => exact Few.deletes hbase hi _
  | _ => exact h.quiet hi rfl rfl rfl

theorem RowsKept.upserts (h : RowsKept key u t₀ w) (hbase : Base key u w) (hclock : t₀ ≤ e.now)
    (hi : w.logins[i]? = some ⟨username, .persist token .upsert⟩)
    (hsaved : (upsert_session key w.store token username kSessionTtlSeconds e.now).2 = true) :
    RowsKept key u t₀ ⟨(upsert_session key w.store token username kSessionTtlSeconds e.now).1,
      w.logins.set i ⟨username, .persist token .cache⟩⟩ := by
  have hname := hbase.spelled _ (List.mem_of_getElem? hi)
  have hlt := (List.getElem?_eq_some_iff.mp hi).1
  obtain ⟨henabled, ⟨new, hnew, hnew_key, hnew_user, hnew_exp⟩, hkept, -⟩ :=
    upsert_rows hbase.names hbase.user hname hsaved
  have hnew_live : t₀ + kSessionTtlSeconds ≤ new.expires_at := by omega
  -- a row of another token is left alone, and the row of this one is new
  have hrow : ∀ token', HasRow key u t₀ w.store token' →
      HasRow key u t₀ (upsert_session key w.store token username kSessionTtlSeconds e.now).1
        token' := by
    rintro token' ⟨-, row, hrow, hkey, hrest⟩
    by_cases hsame : key row.token = key token
    · exact ⟨henabled, new, hnew, hnew_key.trans (hsame.symm.trans hkey), hnew_user, hnew_live⟩
    · exact ⟨henabled, row, hkept row hrow hsame, hkey, hrest⟩
  constructor
  · refine forall_mem_set (fun c hmem token htoken => hrow token (h.rows c hmem token htoken)) ?_
    rintro _ ⟨⟩
    exact ⟨henabled, new, hnew, hnew_key, hnew_user, hnew_live⟩
  · intro _
    exact .inl ⟨_, mem_set hlt _, rfl⟩

theorem RowsKept.deletes (h : RowsKept key u t₀ w) (hbase : Base key u w)
    (hi : w.logins[i]? = some ⟨username, .clear token .delete⟩)
    (halone : ∀ other ∈ w.logins.eraseIdx i, inserted other.pc = none) :
    RowsKept key u t₀ ⟨delete_user_sessions key w.store username token,
      w.logins.set i ⟨username, .returned (logged_in token)⟩⟩ := by
  have hmem := List.mem_of_getElem? hi
  have hname := hbase.spelled _ hmem
  have htoken := (hbase.drawn _ hmem token rfl).1
  have hlt := (List.getElem?_eq_some_iff.mp hi).1
  constructor
  · intro c hc token' htoken'
    obtain ⟨j, hj⟩ := mem_iff_getElem?.mp hc
    rcases getElem?_set_cases hi hj with ⟨-, rfl⟩ | ⟨hne, hold⟩
    · contradiction
    · rw [halone c (mem_eraseIdx_iff_getElem?.mpr ⟨j, hne, hold⟩)] at htoken'
      contradiction
  intro _
  obtain ⟨henabled, row, hrow, hkey, hrow_user, hlive⟩ := h.rows _ hmem token rfl
  refine .inr ⟨_, mem_set hlt _, token, rfl, henabled, row, ?_, hkey, hrow_user, hlive⟩
  exact (mem_delete_user_sessions hbase.keys hbase.user hname htoken hrow_user).mpr ⟨hrow, hkey⟩

theorem RowsKept.move (h : RowsKept key u t₀ w) (hbase : Base key u w)
    (hi : w.logins[i]? = some call)
    (hclock : t₀ ≤ e.now)
    (halone : at_delete call.pc = true → e.sql_ok = true →
      ∀ other ∈ w.logins.eraseIdx i, inserted other.pc = none)
    (hmove : LoginMove key w.store call.username e call.pc s' pc') (hok : failed pc' = false) :
    RowsKept key u t₀ ⟨s', w.logins.set i { call with pc := pc' }⟩ := by
  obtain ⟨username, pc⟩ := call
  cases hmove with
  | fails _ _ _ hfailed =>
    rw [hfailed] at hok
    contradiction
  | upserts token hsaved => exact h.upserts hbase hclock hi hsaved
  | deletes token hsql => exact h.deletes hbase hi (halone rfl hsql)
  | _ => exact h.quiet hi rfl rfl rfl rfl

end Rows

/-! ## What a row is good for -/

section Accepted

variable {u : UserRow} {t₀ now : ℤ}

theorem lookup_row_accepts (hkeys : KeysOk key s) (hu : u ∈ s.users) (hname : u.username ≠ [])
    (hrow : HasRow key u t₀ s token) (hnow : now < t₀ + kSessionTtlSeconds) :
    (lookup_row key s token now).2.isSome = true := by
  obtain ⟨henabled, row, hmem, hkey, huser, hexp⟩ := hrow
  have hactive : active_user key s token now row = some u := by
    unfold active_user
    rw [if_pos ⟨hkey, by omega⟩, hkeys.user_of hu huser]
    simp [henabled]
  unfold lookup_row
  cases hfind : find_active_session key s token now with
  | none =>
    have hnone := findSome?_eq_none_iff.mp hfind row hmem
    rw [hactive] at hnone
    contradiction
  | some record =>
    obtain ⟨other, hother, hrecord⟩ := exists_of_findSome?_eq_some hfind
    obtain ⟨v, hv, rfl⟩ := map_eq_some_iff.mp hrecord
    have hother_key : key other.token = key token := by
      unfold active_user at hv
      split_ifs at hv with hcond
      exact hcond.1
    obtain rfl : other = row :=
      inj_on_of_nodup_map hkeys.tokens hother hmem (hother_key.trans hkey.symm)
    obtain rfl : u = v := some.inj (hactive.symm.trans hv)
    have hdead : ¬ (u.username = [] ∨ other.expires_at ≤ now) := by
      rintro (hempty | hexpired)
      · exact hname hempty
      · omega
    dsimp only
    split_ifs <;> rfl

theorem lookup_session_accepts (hkeys : KeysOk key s) (hu : u ∈ s.users) (hname : u.username ≠ [])
    (hcached : ∀ token entry, s.g_auth_sessions token = some entry → entry.username ≠ [])
    (htoken : token ≠ []) (hrow : HasRow key u t₀ s token) (hnow : now < t₀ + kSessionTtlSeconds) :
    (lookup_session key s token now).2.isSome = true := by
  have herased : (lookup_row key (s.cache_erase token) token now).2.isSome = true :=
    lookup_row_accepts (s := s.cache_erase token) ⟨hkeys.tokens, hkeys.user_ids⟩ hu hname hrow hnow
  unfold lookup_session
  rw [if_neg htoken]
  cases hentry : s.g_auth_sessions token with
  | none => exact lookup_row_accepts hkeys hu hname hrow hnow
  | some entry =>
    have hne := hcached token entry hentry
    dsimp only
    rw [if_neg hne]
    by_cases hlive : entry.expires_at > now
    · rw [if_pos hlive]
      by_cases hdue : entry.expires_at - now ≤ kSessionRefreshThresholdSeconds
      · rw [if_pos hdue]
        by_cases hupdated :
            (Login.refresh_session key s token entry.username kSessionTtlSeconds now).2 = true
        · rw [if_pos hupdated]
          rfl
        rw [if_neg hupdated]
        have hsame : (Login.refresh_session key s token entry.username kSessionTtlSeconds
            now).1 = s := by
          unfold Login.refresh_session at hupdated ⊢
          dsimp only at hupdated ⊢
          split_ifs at hupdated ⊢ with hargs hrefresh
          · rfl
          · exact absurd rfl hupdated
          · exact refresh_unchanged (Bool.eq_false_iff.mpr hrefresh)
        rw [hsame]
        exact herased
      · rw [if_neg hdue]
        rfl
    · rw [if_neg hlive]
      exact herased

end Accepted

/-! ## Every run -/

section Runs

variable (key) (u : UserRow)

def AllSucceeded (w : World) : Prop := ∀ call ∈ w.logins, (logged call.pc).isSome = true

/-- The clock shows at least `t₀`, and a `DELETE` that is executed finds no other login
that has inserted its session and has yet to delete the others. -/
def Undisturbed (t₀ : ℤ) (w : World) : Label → Prop
  | .login_user _ => True
  | .step i e =>
      t₀ ≤ e.now ∧ ∀ call ∈ w.logins[i]?, at_delete call.pc = true → e.sql_ok = true →
        ∀ other ∈ w.logins.eraseIdx i, inserted other.pc = none

instance (w : World) : Decidable (AllSucceeded w) :=
  inferInstanceAs (Decidable (∀ call ∈ w.logins, _))

instance (t₀ : ℤ) (w : World) (l : Label) : Decidable (Undisturbed t₀ w l) := by
  cases l <;> dsimp only [Undisturbed] <;> infer_instance

variable {key u}

variable {w : World}

theorem invariant_until_failure {ok : World → Label → Prop} {Inv : World → Prop}
    (hstart : ∀ w, (system key u).init w → Inv w)
    (hlogin : ∀ w username, Inv w → Inv { w with logins := w.logins ++ [⟨username, .check⟩] })
    (hmove : ∀ w i call e s' pc', ok w (.step i e) → Base key u w → Inv w →
      w.logins[i]? = some call → LoginMove key w.store call.username e call.pc s' pc' →
      failed pc' = false → Inv ⟨s', w.logins.set i { call with pc := pc' }⟩)
    (hw : (system key u).ReachableVia ok w) :
    (∃ call ∈ w.logins, failed call.pc = true) ∨ (Base key u w ∧ Inv w) := by
  refine System.ReachableVia.invariant (system key u)
    (P := fun w => (∃ call ∈ w.logins, failed call.pc = true) ∨ (Base key u w ∧ Inv w)) ?_ ?_ hw
  · intro w hinit
    obtain ⟨hnone, hkeys, hnames, hu, hname, hcached⟩ := id hinit
    refine .inr ⟨⟨hkeys, hnames, hu, hname, hcached, ?_, ?_⟩, hstart w hinit⟩ <;>
      simp only [hnone, not_mem_nil, IsEmpty.forall_iff, implies_true]
  intro w l w' hok hinv hstep
  cases l with
  | login_user username =>
    simp only [system, step] at hstep
    split_ifs at hstep with hname
    cases hstep
    rcases hinv with ⟨call, hcall, hfailed⟩ | ⟨hbase, hinv⟩
    · exact .inl ⟨call, mem_append_left _ hcall, hfailed⟩
    have hnew : Base key u { w with logins := w.logins ++ [⟨username, .check⟩] } :=
      { hbase with
        spelled := forall_mem_append.mpr ⟨hbase.spelled, forall_mem_singleton.mpr hname⟩
        drawn := forall_mem_append.mpr
          ⟨hbase.drawn, forall_mem_singleton.mpr fun token htoken => absurd htoken
            (by simp [drawn])⟩ }
    exact .inr ⟨hnew, hlogin w username hinv⟩
  | step i e =>
    simp only [system, ConcurrentLogins.step] at hstep
    split at hstep
    · contradiction
    rename_i call hi
    obtain ⟨r, hr, rfl⟩ := map_eq_some_iff.mp hstep
    have hmove' := login_step_move hr
    rcases hinv with hfailed | ⟨hbase, hinv⟩
    · exact .inl (exists_mem_set hi hmove'.stays_failed hfailed)
    cases hfailed : failed r.2 with
    | true =>
      have hlt := (List.getElem?_eq_some_iff.mp hi).1
      exact .inl ⟨_, List.mem_set hlt _, hfailed⟩
    | false =>
      exact .inr ⟨hbase.move hi hmove' hfailed,
        hmove w i call e r.1 r.2 hok hbase hinv hi hmove' hfailed⟩

theorem not_failed_of_succeeded (h : AllSucceeded w) :
    ¬ ∃ call ∈ w.logins, failed call.pc = true := by
  rintro ⟨call, hcall, hfailed⟩
  have hlogged := h call hcall
  cases hpc : call.pc with
  | returned result =>
    cases hresult : result.success <;> simp_all [logged, failed]
  | _ =>
    rw [hpc] at hlogged
    contradiction

theorem exists_append_check {P : LoginPc → Prop} (hP : ¬ P .check) {logins : List Call} :
    (∃ call ∈ logins ++ [⟨username, .check⟩], P call.pc) ↔ ∃ call ∈ logins, P call.pc := by
  constructor
  · rintro ⟨call, hcall, hp⟩
    rcases mem_append.mp hcall with hold | hnew
    · exact ⟨call, hold, hp⟩
    · rw [mem_singleton.mp hnew] at hp
      exact absurd hp hP
  · rintro ⟨call, hcall, hp⟩
    exact ⟨call, mem_append_left _ hcall, hp⟩

theorem few_until_failure (hw : (system key u).Reachable w) :
    (∃ call ∈ w.logins, failed call.pc = true) ∨ (Base key u w ∧ Few key u w) := by
  refine invariant_until_failure ?_ ?_ ?_ hw
  · rintro w ⟨hnone, -⟩ ⟨call, hcall, -⟩
    rw [hnone] at hcall
    exact absurd hcall not_mem_nil
  · intro w username h hlogged
    rw [exists_append_check (P := fun pc => (logged pc).isSome = true)
      (by simp [logged])] at hlogged
    obtain ⟨token, hfew⟩ := h hlogged
    refine ⟨token, fun row hrow hrow_user => (hfew row hrow hrow_user).imp_right ?_⟩
    rintro ⟨call, hcall, hrest⟩
    exact ⟨call, mem_append_left _ hcall, hrest⟩
  · intro w i call e s' pc' _ hbase h hi hmove hok
    exact h.move hbase hi hmove hok

theorem kept_until_failure {t₀ : ℤ} (hw : (system key u).ReachableVia (Undisturbed t₀) w) :
    (∃ call ∈ w.logins, failed call.pc = true) ∨ (Base key u w ∧ RowsKept key u t₀ w) := by
  refine invariant_until_failure ?_ ?_ ?_ hw
  · rintro w ⟨hnone, -⟩
    constructor
    · intro call hcall
      rw [hnone] at hcall
      exact absurd hcall not_mem_nil
    · rintro ⟨call, hcall, -⟩
      rw [hnone] at hcall
      exact absurd hcall not_mem_nil
  · intro w username h
    refine ⟨forall_mem_append.mpr ⟨h.rows, ?_⟩, fun hlogged => ?_⟩
    · exact forall_mem_singleton.mpr fun token htoken => absurd htoken (by simp [inserted])
    rw [exists_append_check (P := fun pc => (logged pc).isSome = true)
      (by simp [logged])] at hlogged
    rcases h.last hlogged with ⟨call, hcall, hins⟩ | ⟨call, hcall, hrest⟩
    · exact .inl ⟨call, mem_append_left _ hcall, hins⟩
    · exact .inr ⟨call, mem_append_left _ hcall, hrest⟩
  · rintro w i call e s' pc' ⟨hclock, halone⟩ hbase h hi hmove hok
    exact h.move hbase hi hclock (halone call hi) hmove hok

theorem not_inserted_of_succeeded (h : AllSucceeded w) {call : Call} (hcall : call ∈ w.logins) :
    inserted call.pc = none := by
  have hlogged := h call hcall
  cases hpc : call.pc with
  | returned result => rfl
  | _ =>
    rw [hpc] at hlogged
    contradiction

end Runs

def rows_of (s : Store) (u : UserRow) : List SessionRow :=
  s.user_sessions.filter fun row => decide (row.user_id = u.id)

/-- **Concurrent logins.** When every login has succeeded, at most one session row of the
user is left; and if the run was undisturbed, one of the tokens is accepted at any time
within seven days. -/
theorem logins_leave_session {K : Type} [DecidableEq K] (key : Bytes → K) (u : UserRow) :
    (∀ w, (system key u).Reachable w → AllSucceeded w → w.logins ≠ [] →
      (rows_of w.store u).length ≤ 1) ∧
    ∀ t₀ w, (system key u).ReachableVia (Undisturbed t₀) w → AllSucceeded w → w.logins ≠ [] →
      ∀ now, now < t₀ + kSessionTtlSeconds →
        ∃ call ∈ w.logins, ∃ token, logged call.pc = some token ∧
          (lookup_session key w.store token now).2.isSome = true := by
  constructor
  · intro w hw hall hsome
    obtain ⟨hbase, hfew⟩ := (few_until_failure hw).resolve_left (not_failed_of_succeeded hall)
    obtain ⟨call, hcall⟩ := exists_mem_of_ne_nil _ hsome
    obtain ⟨token, hrows⟩ := hfew ⟨call, hcall, hall call hcall⟩
    -- two rows of the user have one token, which is the table's key
    have hsame : ∀ row ∈ rows_of w.store u, row ∈ w.store.user_sessions ∧
        key row.token = key token := by
      intro row hrow
      obtain ⟨hmem, huser⟩ := mem_filter.mp hrow
      refine ⟨hmem, (hrows row hmem (of_decide_eq_true huser)).resolve_right ?_⟩
      rintro ⟨other, hother, token', hinserted, -⟩
      rw [not_inserted_of_succeeded hall hother] at hinserted
      contradiction
    have hnodup : (rows_of w.store u).Nodup := (hbase.keys.tokens.of_map _).filter _
    rcases hlist : rows_of w.store u with - | ⟨a, - | ⟨b, rest⟩⟩
    · exact Nat.zero_le _
    · exact le_rfl
    · rw [hlist] at hsame hnodup
      obtain ⟨ha, hakey⟩ := hsame a (by simp)
      obtain ⟨hb, hbkey⟩ := hsame b (by simp)
      obtain rfl : a = b :=
        inj_on_of_nodup_map hbase.keys.tokens ha hb (hakey.trans hbkey.symm)
      simp at hnodup
  · intro t₀ w hw hall hsome now hnow
    obtain ⟨hbase, hkept⟩ := (kept_until_failure hw).resolve_left (not_failed_of_succeeded hall)
    obtain ⟨call, hcall⟩ := exists_mem_of_ne_nil _ hsome
    rcases hkept.last ⟨call, hcall, hall call hcall⟩ with
      ⟨other, hother, hinserted⟩ | ⟨last, hlast, token, htoken, hrow⟩
    · rw [not_inserted_of_succeeded hall hother] at hinserted
      contradiction
    · have hne := (hbase.drawn last hlast token (drawn_of_logged htoken)).1
      exact ⟨last, hlast, token, htoken, lookup_session_accepts hbase.keys hbase.user hbase.name
        hbase.cached hne hrow hnow⟩

def no_sessions : World := ⟨⟨fun _ => none, [⟨1, lit "u", false⟩], []⟩, []⟩

theorem no_sessions_init : (system id ⟨1, lit "u", false⟩).init no_sessions :=
  ⟨rfl, ⟨by decide, by decide⟩, by decide, by decide, by decide, nofun⟩

/-- Two logins with tokens of their own; the list says which of the two makes the next step. -/
def two_logins (schedule : List ℕ) : List Label :=
  [.login_user (lit "u"), .login_user (lit "u")] ++
    schedule.map fun i => .step i ⟨⟨100, true⟩, .Ok, if i = 0 then lit "t0" else lit "t1"⟩

/-- One after the other, they leave the second one's session. -/
theorem second_login_stays :
    ∃ w, (system id ⟨1, lit "u", false⟩).ReachableVia (Undisturbed 100) w ∧
      (rows_of w.store ⟨1, lit "u", false⟩).length ≤ 1 ∧
      ∃ call ∈ w.logins, ∃ token, logged call.pc = some token ∧
        (lookup_session id w.store token 200).2.isSome = true := by
  obtain ⟨w, -, hw, htest⟩ := System.ReachableVia.of_run (system id ⟨1, lit "u", false⟩)
    (Undisturbed 100) no_sessions_init (two_logins [0, 0, 0, 0, 0, 0, 1, 1, 1, 1, 1, 1])
    (by decide +kernel) (fun w => decide (AllSucceeded w ∧ w.logins ≠ [])) (by decide +kernel)
  obtain ⟨hall, hsome⟩ := of_decide_eq_true htest
  have hmain := logins_leave_session id ⟨1, lit "u", false⟩
  exact ⟨w, hw, hmain.1 w (hw.mono _ fun _ _ _ => trivial) hall hsome,
    hmain.2 100 w hw hall hsome 200 (by decide)⟩

/-- **Each deletes the other's session.** Both have inserted before either deletes: both
return success, and neither token is accepted. -/
theorem both_logins_lost :
    ∃ w, (system id ⟨1, lit "u", false⟩).Reachable w ∧ AllSucceeded w ∧ w.logins.length = 2 ∧
      ∀ call ∈ w.logins, ∀ token ∈ logged call.pc,
        (lookup_session id w.store token 100).2 = none := by
  obtain ⟨w, hw, htest⟩ := System.Reachable.of_run (system id ⟨1, lit "u", false⟩) no_sessions_init
    (two_logins [0, 0, 0, 1, 1, 1, 0, 0, 0, 1, 1, 1])
    (fun w => decide (AllSucceeded w ∧ w.logins.length = 2 ∧ ∀ call ∈ w.logins,
      ∀ token ∈ logged call.pc, (lookup_session id w.store token 100).2 = none))
    (by decide +kernel)
  exact ⟨w, hw, of_decide_eq_true htest⟩

end AtlasWebServer.ConcurrentLogins
