/-
Is a revoked session gone for good?

A removal takes the token out of the cache and then out of the table. A
`lookup_session` that misses the cache reads the table and then writes the cache,
and so does a sliding refresh. If the write of one falls after the delete of the
other, the token is back in the cache, where no later removal is looking for it and
no statement is asked about it until the entry is due for a refresh.

`Forgotten` is what a removal has to bring about: no row, and nothing cached.
Alone it is not stable, because of the calls that have read the row already. It
is stable together with `Harmless`, which says of each call that it is not one of
them, and then a lookup that starts later goes through `fruitless` points only.
-/
import AtlasWebServer.Sessions

set_option autoImplicit false

namespace AtlasWebServer.Sessions

open StepSystem Bytes Tables List

section Revocation

variable {K : Type} (key : Bytes → K)

/-! ## What a removal has to bring about -/

def NoRow (s : Store) (token : Bytes) : Prop :=
  ∀ row ∈ s.user_sessions, key row.token ≠ key token

/-- The token has no row and is not cached. -/
def Forgotten (s : Store) (token : Bytes) : Prop :=
  NoRow key s token ∧ s.g_auth_sessions token = none

variable {key} {s : Store} {token : Bytes}

theorem NoRow.filter (h : NoRow key s token) (p : SessionRow → Bool) :
    NoRow key { s with user_sessions := s.user_sessions.filter p } token :=
  fun row hrow => h row (List.mem_of_mem_filter hrow)

theorem NoRow.map (h : NoRow key s token) (f : SessionRow → SessionRow)
    (hf : ∀ row, (f row).token = row.token) :
    NoRow key { s with user_sessions := s.user_sessions.map f } token := by
  intro row hrow
  obtain ⟨old, hold, rfl⟩ := mem_map.mp hrow
  rw [hf]
  exact h old hold

theorem Forgotten.cache_erase (h : Forgotten key s token) (token' : Bytes) :
    Forgotten key (s.cache_erase token') token := by
  refine ⟨h.1, ?_⟩
  show Function.update s.g_auth_sessions token' none token = none
  rw [Function.update_apply]
  split_ifs
  · rfl
  · exact h.2

theorem Forgotten.cache_erase_user (h : Forgotten key s token) (username except_token : Bytes) :
    Forgotten key (s.cache_erase_user username except_token) token := by
  refine ⟨h.1, ?_⟩
  simp only [Store.cache_erase_user, h.2]

variable {token' : Bytes} {e : Event} {pc : LookupPc} {r : Store × LookupPc} {c : Call} {l : Label}
  {n : ℕ} {w w' : World}

theorem Forgotten.cache_store (h : Forgotten key s token) (hne : token' ≠ token)
    (entry : AuthSessionCacheEntry) : Forgotten key (s.cache_store token' entry) token := by
  refine ⟨h.1, ?_⟩
  show Function.update s.g_auth_sessions token' (some entry) token = none
  rw [Function.update_of_ne hne.symm]
  exact h.2

/-! ## The statements when the token has no row -/

variable [DecidableEq K]

theorem NoRow.active_user (h : NoRow key s token) {row : SessionRow}
    (hrow : row ∈ s.user_sessions) (now : ℤ) : active_user key s token now row = none := by
  unfold Sessions.active_user
  rw [if_neg]
  rintro ⟨htoken, -⟩
  exact h row hrow htoken

theorem NoRow.find_active_session (h : NoRow key s token) (now : ℤ) :
    find_active_session key s token now = none := by
  unfold Sessions.find_active_session
  rw [findSome?_eq_none_iff]
  intro row hrow
  rw [h.active_user hrow, Option.map_none]

theorem NoRow.refresh_session (h : NoRow key s token) (username : Bytes) (ttl_seconds now : ℤ) :
    (refresh_session key s token username ttl_seconds now).2 = false := by
  show (s.user_sessions.any fun row => refreshable key s token username now row && _) = false
  rw [any_eq_false]
  intro row hrow
  unfold refreshable
  rw [h.active_user hrow, Option.any_none, Bool.false_and]
  exact Bool.false_ne_true

theorem NoRow.refresh (h : NoRow key s token) (token' username : Bytes) (ttl_seconds now : ℤ) :
    NoRow key (Sessions.refresh_session key s token' username ttl_seconds now).1 token := by
  refine h.map _ fun row => ?_
  split_ifs <;> rfl

theorem NoRow.upsert (h : NoRow key s token) (hne : key token' ≠ key token) (username : Bytes)
    (ttl_seconds now : ℤ) :
    NoRow key (upsert_session key s token' username ttl_seconds now).1 token := by
  unfold upsert_session
  split
  · exact h
  rename_i u _
  split
  · exact forall_mem_append.mpr ⟨h, forall_mem_singleton.mpr hne⟩
  · refine h.map _ fun row => ?_
    split_ifs <;> rfl

theorem upsert_session_cache (token' username : Bytes) (ttl_seconds now : ℤ) :
    (upsert_session key s token' username ttl_seconds now).1.g_auth_sessions
      = s.g_auth_sessions := by
  unfold upsert_session
  split
  · rfl
  · split <;> rfl

/-! ## The calls -/

/-- The points of `lookup_session` whose next step writes the token to the cache. -/
def writes : LookupPc → Bool
  | .hit_refresh_cache _ => true
  | .cache _ _ _ => true
  | .late_refresh_cache _ => true
  | _ => false

/-- The points a `lookup_session` goes through that finds nothing. -/
def fruitless : LookupPc → Bool
  | .clock => true
  | .probe _ => true
  | .select _ => true
  | .cleanup => true
  | .returned ok => !ok
  | _ => false

/-- A call that will not bring the token back, and that finds nothing if it is one
of the `late` ones. -/
def Harmless (token : Bytes) (late : Prop) : Call → Prop
  | .lookup_session token' pc =>
      token' = token → writes pc = false ∧ (late → fruitless pc = true)
  | _ => True

theorem lookup_step_harmless {late : Prop} (hs : Forgotten key s token) (hw : writes pc = false)
    (hl : late → fruitless pc = true) (hr : lookup_step key s token e pc = some r) :
    Forgotten key r.1 token ∧ writes r.2 = false ∧ (late → fruitless r.2 = true) := by
  cases pc with
  | clock => cases hr; exact ⟨hs, rfl, fun _ => rfl⟩
  | probe now =>
    -- the cache has nothing, so every probe is a miss
    simp only [lookup_step, hs.2] at hr
    cases hr
    exact ⟨hs, rfl, fun _ => rfl⟩
  | hit_refresh_cache username => cases hw
  | hit_erase now => cases hr; exact ⟨hs.cache_erase token, rfl, fun _ => rfl⟩
  | select now =>
    simp only [lookup_step, hs.1.find_active_session] at hr
    split_ifs at hr <;> cases hr <;> exact ⟨hs, rfl, fun _ => rfl⟩
  | cleanup =>
    cases hr
    refine ⟨?_, rfl, fun _ => rfl⟩
    split_ifs
    · exact ⟨hs.1.filter _, hs.2⟩
    · exact hs
  | cache now username expires_at => cases hw
  | late_refresh_cache username => cases hw
  | returned ok => cases hr
  | _ =>
    simp only [lookup_step, hs.1.refresh_session, if_neg Bool.false_ne_true] at hr
    split at hr <;> cases hr
    · exact ⟨⟨hs.1.refresh _ _ _ _, hs.2⟩, rfl, fun h => absurd (hl h) Bool.false_ne_true⟩
    · exact ⟨hs, rfl, fun h => absurd (hl h) Bool.false_ne_true⟩

theorem lookup_step_other (hne : token' ≠ token) (hs : Forgotten key s token)
    (hr : lookup_step key s token' e pc = some r) : Forgotten key r.1 token := by
  cases pc with
  | clock => cases hr; exact hs
  | probe now =>
    simp only [lookup_step] at hr
    split at hr
    · cases hr; exact hs
    split_ifs at hr <;> cases hr
    · exact hs
    · exact hs
    · exact hs
    · exact hs.cache_erase token'
  | hit_refresh_cache username => cases hr; exact hs.cache_store hne _
  | hit_erase now => cases hr; exact hs.cache_erase token'
  | select now =>
    simp only [lookup_step] at hr
    split_ifs at hr
    · split at hr <;> cases hr <;> exact hs
    · cases hr; exact hs
  | cleanup =>
    cases hr
    split_ifs
    · exact ⟨hs.1.filter _, hs.2⟩
    · exact hs
  | cache now username expires_at => cases hr; exact hs.cache_store hne _
  | late_refresh_cache username => cases hr; exact hs.cache_store hne _
  | returned ok => cases hr
  | _ =>
    simp only [lookup_step] at hr
    split at hr <;> cases hr
    · exact ⟨hs.1.refresh _ _ _ _, hs.2⟩
    · exact hs

/-- Does this call issue the token? The server cannot tell two tokens apart that
have one key. -/
def issues_call (key : Bytes → K) (token : Bytes) : Call → Bool
  | .persist_session token' _ _ _ => decide (key token' = key token)
  | _ => false

theorem call_step_harmless {late : Prop} {r : Store × Call} (hs : Forgotten key s token)
    (hc : Harmless token late c) (hissue : issues_call key token c = false)
    (hr : call_step key s e c = some r) : Forgotten key r.1 token ∧ Harmless token late r.2 := by
  cases c with
  | lookup_session token' pc =>
    obtain ⟨r', hr', rfl⟩ := Option.map_eq_some_iff.mp hr
    by_cases htoken : token' = token
    · subst htoken
      obtain ⟨hw, hl⟩ := hc rfl
      obtain ⟨hs', hw', hl'⟩ := lookup_step_harmless hs hw hl hr'
      exact ⟨hs', fun _ => ⟨hw', hl'⟩⟩
    · exact ⟨lookup_step_other htoken hs hr', fun h => absurd h htoken⟩
  | remove_session mysql token' pc =>
    obtain ⟨r', hr', rfl⟩ := Option.map_eq_some_iff.mp hr
    refine ⟨?_, trivial⟩
    cases pc with
    | cache => cases hr'; exact hs.cache_erase token'
    | delete =>
      simp only [remove_session_step] at hr'
      split_ifs at hr' <;> cases hr'
      · exact ⟨hs.1.filter _, hs.2⟩
      · exact hs
    | returned ok => cases hr'
  | remove_user_sessions mysql username except_token pc =>
    obtain ⟨r', hr', rfl⟩ := Option.map_eq_some_iff.mp hr
    refine ⟨?_, trivial⟩
    cases pc with
    | cache => cases hr'; exact hs.cache_erase_user username except_token
    | delete =>
      simp only [remove_user_sessions_step] at hr'
      split_ifs at hr' <;> cases hr'
      · exact ⟨hs.1.filter _, hs.2⟩
      · exact hs
    | returned ok => cases hr'
  | persist_session token' username ttl_seconds pc =>
    obtain ⟨r', hr', rfl⟩ := Option.map_eq_some_iff.mp hr
    refine ⟨?_, trivial⟩
    have hkey : key token' ≠ key token := of_decide_eq_false hissue
    have htoken : token' ≠ token := fun h => hkey (congrArg key h)
    cases pc with
    | upsert =>
      simp only [persist_session_step] at hr'
      split at hr' <;> cases hr'
      · refine ⟨hs.1.upsert hkey _ _ _, ?_⟩
        rw [upsert_session_cache]
        exact hs.2
      · exact hs
    | cache => cases hr'; exact hs.cache_store htoken _
    | returned ok => cases hr'

/-! ## Over whole runs -/

/-- Nothing is left of the token, and nobody is about to bring it back; calls from
number `n` on started after it had gone. -/
structure Gone (key : Bytes → K) (token : Bytes) (n : ℕ) (w : World) : Prop where
  forgotten : Forgotten key w.store token
  calls : ∀ (j : ℕ) (c : Call), w.calls[j]? = some c → Harmless token (n ≤ j) c

/-- The label makes a step of a call that issues the token. -/
def issues (key : Bytes → K) (token : Bytes) (w : World) : Label → Bool
  | .step i _ => (w.calls[i]?).any (issues_call key token)
  | _ => false

theorem started_harmless {late : Prop} (hl : started l = some c) : Harmless token late c := by
  cases l with
  | lookup_session mysql token' =>
    cases hl
    intro _
    split_ifs <;> exact ⟨rfl, fun _ => rfl⟩
  | step i e => cases hl
  | _ => cases hl; trivial

theorem Gone.step (h : Gone key token n w) (hissue : issues key token w l = false)
    (hl : Sessions.step key w l = some w') : Gone key token n w' := by
  -- what a label other than `step` does: it appends a call
  have happend : ∀ c, started l = some c →
      Gone key token n { w with calls := w.calls ++ [c] } := fun c hc =>
    { forgotten := h.forgotten
      calls := by
        intro j d hj
        rcases getElem?_append_cases hj with ⟨-, rfl⟩ | hold
        · exact started_harmless hc
        · exact h.calls j d hold }
  cases l with
  | step i e =>
    simp only [Sessions.step] at hl
    split at hl
    · cases hl
    rename_i c hi
    obtain ⟨r, hr, rfl⟩ := Option.map_eq_some_iff.mp hl
    have hcall : issues_call key token c = false := by
      simpa only [issues, hi, Option.any_some] using hissue
    obtain ⟨hs', hc'⟩ := call_step_harmless h.forgotten (h.calls i c hi) hcall hr
    refine ⟨hs', ?_⟩
    intro j d hj
    rcases getElem?_set_cases hi hj with ⟨rfl, rfl⟩ | ⟨-, hold⟩
    · exact hc'
    · exact h.calls j d hold
  | _ => cases hl; exact happend _ rfl

theorem Gone.exec {ls : List Label} (h : Gone key token n w)
    (hissue : (system key).Along (fun w l => issues key token w l = false) w ls)
    (hrun : (system key).exec w ls = some w') : Gone key token n w' :=
  (system key).exec_induction (fun _ _ _ hi hg hl => hg.step hi hl) ls w w' hissue h hrun

/-! ## Removals -/

/-- Call `i` is a removal whose next step is its last, and it covers the token: it
is `remove_session` for it, or `remove_user_sessions` whose `DELETE` selects the
token's row. Without a connection the last step is the one on the cache. -/
def Revokes (key : Bytes → K) (token : Bytes) (w : World) (i : ℕ) : Prop :=
  match w.calls[i]? with
  | some (.remove_session mysql token' pc) =>
      token' = token ∧ (pc = .delete ∨ pc = .cache ∧ mysql = false)
  | some (.remove_user_sessions mysql username except_token pc) =>
      (∀ row ∈ w.store.user_sessions, key row.token = key token →
        owned_session key w.store username except_token row = true) ∧
      (pc = .delete ∨ pc = .cache ∧ mysql = false)
  | _ => False

/-- Call `i` is a removal that has returned true. -/
def removed (w : World) (i : ℕ) : Bool :=
  match w.calls[i]? with
  | some (.remove_session _ _ pc) => decide (pc = .returned true)
  | some (.remove_user_sessions _ _ _ pc) => decide (pc = .returned true)
  | _ => false

/-- Once removal `i`, about to make its last step in `w`, has returned true, every
`lookup_session` for the token that starts afterwards returns false, for as long as
the token is not issued again. -/
def RevocationFinal (key : Bytes → K) (token : Bytes) (w : World) (i : ℕ) : Prop :=
  ∀ (e : Event) (w₁ : World), (system key).step w (.step i e) = some w₁ → removed w₁ i = true →
    ∀ (ls : List Label) (w₂ : World),
      (system key).Along (fun w l => issues key token w l = false) w₁ ls →
      (system key).exec w₁ ls = some w₂ →
      ∀ (j : ℕ) (ok : Bool), w₁.calls.length ≤ j →
        w₂.calls[j]? = some (.lookup_session token (.returned ok)) → ok = false

/-- Call `i` is a removal about to run its `DELETE`. -/
def at_delete (w : World) (i : ℕ) : Bool :=
  match w.calls[i]? with
  | some (.remove_session _ _ pc) => decide (pc = .delete)
  | some (.remove_user_sessions _ _ _ pc) => decide (pc = .delete)
  | _ => false

/-- The token is not cached, and no `lookup_session` for it stands between reading
or refreshing its row and writing it to the cache. -/
def Unobserved (token : Bytes) (w : World) : Prop :=
  w.store.g_auth_sessions token = none ∧
  ∀ (j : ℕ) (pc : LookupPc), w.calls[j]? = some (.lookup_session token pc) → writes pc = false

theorem delete_no_row {w₁ : World} {i : ℕ} (hrev : Revokes key token w i)
    (hdel : at_delete w i = true) (hstep : step key w (.step i e) = some w₁)
    (hret : removed w₁ i = true) :
    NoRow key w₁.store token ∧ w₁.store.g_auth_sessions = w.store.g_auth_sessions ∧
      ∃ c, w₁.calls = w.calls.set i c ∧ ∀ token' pc, c ≠ .lookup_session token' pc := by
  unfold Revokes at hrev
  unfold at_delete at hdel
  simp only [step] at hstep
  split at hdel
  · rename_i mysql token' pc hi
    simp only [hi] at hrev hstep
    have hlt : i < w.calls.length := (List.getElem?_eq_some_iff.mp hi).1
    rw [of_decide_eq_true hdel] at hstep
    simp only [call_step, remove_session_step] at hstep
    split_ifs at hstep with hsql <;> cases hstep
    · refine ⟨?_, rfl, _, rfl, fun _ _ => (by simp)⟩
      intro row hrow
      rw [← hrev.1]
      simpa using (List.mem_filter.mp hrow).2
    · -- the statement failed, so the call has not returned true
      simp [removed, List.getElem?_set_self hlt] at hret
  · rename_i mysql username except_token pc hi
    simp only [hi] at hrev hstep
    have hlt : i < w.calls.length := (List.getElem?_eq_some_iff.mp hi).1
    rw [of_decide_eq_true hdel] at hstep
    simp only [call_step, remove_user_sessions_step] at hstep
    split_ifs at hstep with hsql <;> cases hstep
    · refine ⟨?_, rfl, _, rfl, fun _ _ => (by simp)⟩
      intro row hrow hkey
      obtain ⟨hmem, hkept⟩ := List.mem_filter.mp hrow
      rw [hrev.1 row hmem hkey] at hkept
      exact Bool.false_ne_true hkept
    · simp [removed, List.getElem?_set_self hlt] at hret
  · cases hdel

/-- **Revocation is final** when the removal reaches its `DELETE`, and in the state
before it the token is not cached and no lookup is about to cache it. -/
theorem revocation_final {w : World} {i : ℕ} (hrev : Revokes key token w i)
    (hdel : at_delete w i = true) (hun : Unobserved token w) :
    RevocationFinal key token w i := by
  intro e w₁ hstep hret ls w₂ hissue hrun j ok hj hlook
  obtain ⟨hrow, hcache, c, hcalls, hc⟩ := delete_no_row hrev hdel hstep hret
  have hgone : Gone key token w₁.calls.length w₁ := by
    refine ⟨⟨hrow, ?_⟩, ?_⟩
    · rw [hcache]
      exact hun.1
    intro k d hk
    -- a call that is there already is not a late one
    have hearly : ¬ w₁.calls.length ≤ k :=
      Nat.not_le.mpr (List.getElem?_eq_some_iff.mp hk).1
    cases d with
    | lookup_session token' pc =>
      rintro rfl
      refine ⟨?_, fun h => absurd h hearly⟩
      rw [hcalls, List.getElem?_set] at hk
      split_ifs at hk with hik hlt
      · exact absurd (Option.some.inj hk) (hc _ _)
      · exact hun.2 k pc hk
    | _ => trivial
  have hend := (hgone.exec hissue hrun).calls j _ hlook rfl
  simpa [fruitless] using hend.2 hj

end Revocation

/-! ## One token, three calls -/

/-- A server started over a table with one session of one user. -/
def one_session : World :=
  ⟨⟨fun _ => none, [⟨1, lit "alice", false⟩], [⟨lit "t0", 1, 1000000⟩]⟩, []⟩

theorem one_session_init : (system (id : Bytes → Bytes)).init one_session :=
  ⟨rfl, fun _ => rfl, by decide, by decide, by decide⟩

/-- Every statement goes through, at one time. -/
def tick : Event := ⟨1000, true⟩

/-- A logout with nobody else around, and a lookup after it. -/
theorem quiet_logout_is_final :
    ∃ w, (system (id : Bytes → Bytes)).Reachable w ∧ Revokes id (lit "t0") w 0 ∧
      RevocationFinal id (lit "t0") w 0 := by
  obtain ⟨w, hw, hp⟩ := System.Reachable.of_run (system id) one_session_init
    [.remove_session true (lit "t0"), .step 0 tick]
    (fun w => decide (w.calls = [.remove_session true (lit "t0") .delete] ∧
      w.store.g_auth_sessions (lit "t0") = none)) (by decide)
  obtain ⟨hcalls, hcache⟩ := of_decide_eq_true hp
  have hrev : Revokes id (lit "t0") w 0 := by
    simp [Revokes, hcalls]
  have hdel : at_delete w 0 = true := by
    simp only [at_delete, hcalls, getElem?_cons_zero, decide_true]
  have hun : Unobserved (lit "t0") w := by
    refine ⟨hcache, fun j pc hj => ?_⟩
    have hmem := mem_of_getElem? hj
    rw [hcalls, mem_singleton] at hmem
    cases hmem
  exact ⟨w, hw, hrev, revocation_final hrev hdel hun⟩

/-- What follows the logout: the lookup that was under way writes the cache, and
another lookup starts. -/
def after_logout : List Label :=
  [.step 0 tick, .lookup_session true (lit "t0"), .step 2 tick, .step 2 tick]

/-- The logout, call 1, is about to delete, and a lookup after it succeeds. -/
def undone (w : World) : Bool :=
  decide (w.calls[1]? = some (.remove_session true (lit "t0") .delete)) &&
  ((system (id : Bytes → Bytes)).step w (.step 1 tick)).any fun w₁ =>
    removed w₁ 1 && decide (w₁.calls.length ≤ 2) &&
    decide ((system id).occurrences (issues id (lit "t0")) w₁ after_logout = 0) &&
    ((system id).exec w₁ after_logout).any fun w₂ : World =>
      decide (w₂.calls[2]? = some (.lookup_session (lit "t0") (.returned true)))

/-- The lookup reads the row, the logout erases and deletes it, and the lookup
caches what it read: the next lookup is a cache hit. -/
theorem logout_undone :
    ¬ ∀ (w : World) (i : ℕ) (token : Bytes), (system (id : Bytes → Bytes)).Reachable w →
      Revokes id token w i → RevocationFinal id token w i := by
  intro hall
  obtain ⟨w, hw, hp⟩ := System.Reachable.of_run (system id) one_session_init
    [.lookup_session true (lit "t0"), .step 0 tick, .step 0 tick, .step 0 tick,
      .remove_session true (lit "t0"), .step 1 tick] undone (by decide)
  simp only [undone, Bool.and_eq_true, decide_eq_true_eq, Option.any_eq_true] at hp
  obtain ⟨hcall, w₁, hstep, ⟨⟨hret, hlen⟩, hissue⟩, w₂, hrun, hlook⟩ := hp
  have hrev : Revokes id (lit "t0") w 1 := by
    simp [Revokes, hcall]
  have hfalse := hall w 1 (lit "t0") hw hrev tick w₁ hstep hret after_logout w₂
    ((System.occurrences_eq_zero_iff _ _ _ _).mp hissue) hrun 2 true hlen hlook
  exact Bool.false_ne_true hfalse.symm

end AtlasWebServer.Sessions
