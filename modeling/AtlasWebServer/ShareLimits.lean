/-
Download limits of share links under any race.

Any number of `load_share_download` calls run at once, on any tokens, each in three
steps: its fetch, its validation, its conditional `UPDATE`. Between any two of them
the clock may advance, other calls may move, and other requests may change the
other tables in any way. The validation reads a counter and an expiry that are out
of date by then; what guards the limit is the `WHERE` clause of the `UPDATE`.

A step carries whether its statement is executed. `updated` is a history variable,
the time a call's `UPDATE` was executed at; no step reads it.
-/
import AtlasWebServer.Shares

set_option autoImplicit false

namespace AtlasWebServer.ShareLimits

open StepSystem Bytes Tables Shares
open FileStore (ServiceError ManagedFileRecord)

/-! ## Calls -/

/-- Where a `load_share_download` call stands, with its locals. -/
inductive Point
  | fetch
  | validate (share : Option FileShareRecord)
  | increment (share : FileShareRecord)
  | returned (reply : Except ServiceError (ManagedFileRecord × ShareResult))

structure Call where
  token : Bytes
  access_code : Bytes
  point : Point
  updated : Option ℤ

def Call.succeeded (call : Call) : Bool :=
  match call.point with
  | .returned (.ok _) => true
  | _ => false

/-- The tables, the server's clock and every call ever made. -/
structure World where
  db : Db
  now : ℤ
  calls : List Call

/-- A call starts, a call makes its next step, time passes, or another request
changes the other tables. -/
inductive Label
  | load_share_download (token access_code : Bytes)
  | step (i : ℕ) (executed : Bool)
  | tick (now : ℤ)
  | other (base : FileStore.Db)

variable {K : Type} [DecidableEq K] {key : Bytes → K} {sha256_hex : Bytes → Bytes}

section System

variable (key sha256_hex)

def call_step (db : Db) (now : ℤ) (executed : Bool) (call : Call) : Option (Db × Call) :=
  match call.point with
  | .fetch =>
      let share := if executed then fetch_file_share key db call.token now else none
      some (db, { call with point := .validate share })
  | .validate share =>
      match share_found sha256_hex share call.access_code with
      | .error error => some (db, { call with point := .returned (.error error) })
      | .ok share => some (db, { call with point := .increment share })
  | .increment share =>
      if executed then
        let r := increment_file_share_download_count key db call.token now
        some (r.1, { call with point := .returned (download_reply share r.2), updated := some now })
      else some (db, { call with point := .returned (download_reply share false) })
  | .returned _ => none

/-- The step function. The clock does not go back. -/
def step (w : World) : Label → Option World
  | .load_share_download token access_code =>
      some { w with calls := w.calls ++ [⟨token, access_code, .fetch, none⟩] }
  | .step i executed =>
      match w.calls[i]? with
      | none => none
      | some call =>
          (call_step key sha256_hex w.db w.now executed call).map fun r =>
            { w with db := r.1, calls := w.calls.set i r.2 }
  | .tick now => if w.now ≤ now then some { w with now } else none
  | .other base => some { w with db := { w.db with base } }

/-- Any tables that keep the primary key, and no call yet. -/
def system : System World Label where
  init w := TokensUnique key w.db ∧ w.calls = []
  step := step key sha256_hex

/-- The calls on a token that returned true. -/
def downloads (token : Bytes) (calls : List Call) : ℕ :=
  calls.countP fun call => decide (key call.token = key token) && call.succeeded

/-- A call whose steps come one after the other is `load_share_download`. -/
theorem call_alone (db : Db) (token access_code : Bytes) (e : FileStore.Event) :
    ((call_step key sha256_hex db e.now (e.ok 0) ⟨token, access_code, .fetch, none⟩).bind fun r =>
        (call_step key sha256_hex r.1 e.now true r.2).bind fun r =>
          match r.2.point with
          | .returned reply => some (r.1, reply)
          | _ => (call_step key sha256_hex r.1 e.now (e.ok 1) r.2).bind fun r =>
            match r.2.point with
            | .returned reply => some (r.1, reply)
            | _ => none) =
      some (load_share_download key sha256_hex db token access_code e) := by
  unfold load_share_download
  simp only [call_step, Option.bind_some]
  cases share_found sha256_hex (if e.ok 0 then fetch_file_share key db token e.now else none)
      access_code with
  | error error => rfl
  | ok share => cases e.ok 1 <;> simp

end System

/-! ## One step of a call -/

section Steps

/-- What is true of every call on the share: it has a token once its fetch found a
row; if it returned true, its `UPDATE` came before the expiry; and if there is no
limit, an `UPDATE` before the expiry means that it returned true. -/
def Call.Sound (key : Bytes → K) (row : FileShareRow) (call : Call) : Prop :=
  match call.point with
  | .fetch => call.updated = none
  | .validate share => call.updated = none ∧ (share.isSome → call.token ≠ [])
  | .increment _ => call.updated = none ∧ call.token ≠ []
  | .returned _ => key call.token = key row.token →
      (call.succeeded = true → ∃ t, call.updated = some t ∧ expired t row.expires_at = false) ∧
      ∀ t, call.updated = some t → expired t row.expires_at = false → row.max_downloads = 0 →
        call.succeeded = true

variable {call : Call}

omit [DecidableEq K] in
theorem Call.Sound.failed {row : FileShareRow} {error : ServiceError}
    (hpoint : call.point = .returned (.error error)) (hupdated : call.updated = none) :
    call.Sound key row := by
  unfold Call.Sound
  rw [hpoint]
  intro _
  constructor
  · intro hsucceeded
    simp [Call.succeeded, hpoint] at hsucceeded
  · intro t ht
    rw [hupdated] at ht
    contradiction

theorem call_step_cases {db : Db} {now : ℤ} {executed : Bool} {r : Db × Call}
    (h : call_step key sha256_hex db now executed call = some r) :
    r.2.token = call.token ∧ call.succeeded = false ∧
      ((r.1 = db ∧ r.2.succeeded = false ∧ ∀ row, call.Sound key row → r.2.Sound key row) ∨
        ∃ share, call.point = .increment share ∧
          r.1 = (increment_file_share_download_count key db call.token now).1 ∧
          r.2.updated = some now ∧ r.2.point = .returned (download_reply share
            (increment_file_share_download_count key db call.token now).2)) := by
  obtain ⟨token, access_code, point, updated⟩ := call
  cases point with
  | fetch =>
    cases h
    refine ⟨rfl, rfl, .inl ⟨rfl, rfl, fun row hsound => ⟨hsound, fun hsome => ?_⟩⟩⟩
    rintro rfl
    simp [fetch_file_share] at hsome
  | validate share =>
    simp only [call_step] at h
    cases share with
    | none =>
      cases h
      exact ⟨rfl, rfl, .inl ⟨rfl, rfl, fun row hsound => .failed rfl hsound.1⟩⟩
    | some share =>
      cases hfound : share_found sha256_hex (some share) access_code with
      | error error =>
        rw [hfound] at h
        cases h
        exact ⟨rfl, rfl, .inl ⟨rfl, rfl, fun row hsound => .failed rfl hsound.1⟩⟩
      | ok found =>
        rw [hfound] at h
        cases h
        exact ⟨rfl, rfl, .inl ⟨rfl, rfl, fun row hsound => ⟨hsound.1, hsound.2 rfl⟩⟩⟩
  | increment share =>
    simp only [call_step] at h
    split at h
    · cases h
      exact ⟨rfl, rfl, .inr ⟨share, rfl, rfl, rfl, rfl⟩⟩
    · cases h
      exact ⟨rfl, rfl, .inl ⟨rfl, rfl, fun row hsound => .failed rfl hsound.1⟩⟩
  | returned reply => contradiction

theorem succeeded_reply {share : FileShareRecord} {counted : Bool}
    (h : call.point = .returned (download_reply share counted)) : call.succeeded = counted := by
  unfold Call.succeeded
  rw [h]
  cases counted <;> rfl

end Steps

/-! ## The limit -/

section Limit

def after (row : FileShareRow) (n : ℕ) : FileShareRow :=
  { row with download_count := row.download_count + n }

@[simp] theorem after_token (row : FileShareRow) (n : ℕ) : (after row n).token = row.token := rfl

@[simp] theorem after_expires_at (row : FileShareRow) (n : ℕ) :
    (after row n).expires_at = row.expires_at := rfl

@[simp] theorem after_max_downloads (row : FileShareRow) (n : ℕ) :
    (after row n).max_downloads = row.max_downloads := rfl

@[simp] theorem after_download_count (row : FileShareRow) (n : ℕ) :
    (after row n).download_count = row.download_count + n := rfl

theorem count_download_after (key : Bytes → K) (token : Bytes) (now : ℤ) (row : FileShareRow)
    (n : ℕ) :
    count_download key token now (after row n) =
      after row (n + (countable key token now (after row n)).toNat) := by
  unfold count_download
  cases countable key token now (after row n) with
  | false => rfl
  | true => simp [after, add_assoc]

/-- The joint invariant of a share, given as its row before the run. -/
structure Counted (key : Bytes → K) (row : FileShareRow) (w : World) : Prop where
  unique : TokensUnique key w.db
  counter : share_row key w.db row.token = some (after row (downloads key row.token w.calls))
  limit : row.max_downloads ≠ 0 → 0 < downloads key row.token w.calls →
    row.download_count + downloads key row.token w.calls ≤ row.max_downloads
  calls : ∀ call ∈ w.calls, call.Sound key row

variable {row : FileShareRow} {w w' : World} {i : ℕ} {call : Call}

theorem Counted.same (h : Counted key row w) (hshares : w'.db.file_shares = w.db.file_shares)
    (hdownloads : downloads key row.token w'.calls = downloads key row.token w.calls)
    (hcalls : ∀ call ∈ w'.calls, call.Sound key row) : Counted key row w' where
  unique := by
    rw [TokensUnique, hshares]
    exact h.unique
  counter := by
    rw [share_row, hshares, hdownloads]
    exact h.counter
  limit := by
    rw [hdownloads]
    exact h.limit
  calls := hcalls

theorem downloads_set {calls : List Call} (hi : calls[i]? = some call)
    (hfailed : call.succeeded = false) (call' : Call) (key : Bytes → K) (token : Bytes) :
    downloads key token (calls.set i call') = downloads key token calls +
      (decide (key call'.token = key token) && call'.succeeded).toNat := by
  have hcount := countP_set_add
    (fun call => decide (key call.token = key token) && call.succeeded) calls i call call' hi
  simp only [one, hfailed, Bool.and_false, Bool.false_eq_true, if_false, Nat.add_zero] at hcount
  unfold downloads
  rw [hcount]
  simp only [Bool.toNat, Bool.cond_eq_ite]

theorem Counted.increment {call' : Call} {share : FileShareRecord} (h : Counted key row w)
    (hi : w.calls[i]? = some call) (hpoint : call.point = .increment share)
    (htoken : call'.token = call.token) (hupdated : call'.updated = some w.now)
    (hreply : call'.point = .returned (download_reply share
      (increment_file_share_download_count key w.db call.token w.now).2)) :
    Counted key row
      { w with
        db := (increment_file_share_download_count key w.db call.token w.now).1
        calls := w.calls.set i call' } := by
  obtain ⟨-, hne⟩ : call.updated = none ∧ call.token ≠ [] := by
    have hsound := h.calls call (List.mem_of_getElem? hi)
    rwa [Call.Sound, hpoint] at hsound
  have hfailed : call.succeeded = false := by rw [Call.succeeded, hpoint]
  have hset := downloads_set hi hfailed call' key row.token
  have hsucceeded := succeeded_reply hreply
  rw [increment_affected h.unique hne] at hsucceeded
  have hrow' := increment_share_row key w.db call.token row.token w.now
  rw [h.counter, Option.map_some, if_neg hne, count_download_after] at hrow'
  by_cases hkey : key call.token = key row.token
  · -- the row the statement reads is the share's
    have hfind : share_row key w.db call.token = share_row key w.db row.token := by
      unfold share_row
      rw [hkey]
    rw [hfind, h.counter, Option.any_some] at hsucceeded
    rw [← hsucceeded] at hrow'
    rw [htoken, decide_eq_true hkey, Bool.true_and] at hset
    refine ⟨h.unique.increment _ _, ?_, ?_, ?_⟩
    · rw [hrow', hset]
    · intro hlimit hpos
      rw [hset] at hpos ⊢
      cases hs : call'.succeeded with
      | false =>
        rw [hs] at hpos
        simpa using h.limit hlimit (by simpa using hpos)
      | true =>
        rw [hs] at hsucceeded
        have hguard := hsucceeded.symm
        simp only [countable, Bool.and_eq_true, Bool.or_eq_true, decide_eq_true_eq] at hguard
        have hroom := hguard.2.resolve_left hlimit
        rw [after_max_downloads, after_download_count] at hroom
        rw [Bool.toNat_true]
        omega
    · refine forall_mem_set h.calls ?_
      unfold Call.Sound
      rw [hreply]
      intro _
      refine ⟨fun hs => ⟨w.now, hupdated, ?_⟩, fun t ht hbefore hzero => ?_⟩
      · rw [hs] at hsucceeded
        have hguard := hsucceeded.symm
        simp only [countable, after_expires_at, Bool.and_eq_true, Bool.not_eq_true'] at hguard
        exact hguard.1.2
      · obtain rfl : w.now = t := Option.some.inj (hupdated.symm.trans ht)
        rw [hsucceeded]
        simp [countable, hkey, hbefore, hzero]
  · -- another share's row
    have hnot : countable key call.token w.now
      (after row (downloads key row.token w.calls)) = false := by
      simp [countable, Ne.symm hkey]
    rw [hnot, Bool.toNat_false, Nat.add_zero] at hrow'
    rw [htoken, decide_eq_false hkey, Bool.false_and, Bool.toNat_false, Nat.add_zero] at hset
    refine ⟨h.unique.increment _ _, ?_, ?_, ?_⟩
    · rw [hrow', hset]
    · rw [hset]
      exact h.limit
    · refine forall_mem_set h.calls ?_
      unfold Call.Sound
      rw [hreply]
      intro heq
      exact absurd (by rw [← htoken]; exact heq) hkey

theorem Counted.step {l : Label} (h : Counted key row w)
    (hstep : (system key sha256_hex).step w l = some w') : Counted key row w' := by
  cases l with
  | load_share_download token access_code =>
    cases hstep
    refine h.same rfl ?_ (List.forall_mem_append.mpr ⟨h.calls, List.forall_mem_singleton.mpr rfl⟩)
    simp [downloads, Call.succeeded]
  | step i executed =>
    simp only [system, ShareLimits.step] at hstep
    cases hi : w.calls[i]? with
    | none =>
      rw [hi] at hstep
      contradiction
    | some call =>
      rw [hi] at hstep
      obtain ⟨⟨db', call'⟩, hcall, rfl⟩ := Option.map_eq_some_iff.mp hstep
      obtain ⟨htoken, hfailed, hcases⟩ := call_step_cases hcall
      rcases hcases with ⟨rfl, hfailed', hsound⟩ | ⟨share, hpoint, rfl, hupdated, hreply⟩
      · refine h.same rfl ?_ (forall_mem_set h.calls ?_)
        · rw [downloads_set hi hfailed, hfailed']
          simp
        · exact hsound row (h.calls call (List.mem_of_getElem? hi))
      · exact h.increment hi hpoint htoken hupdated hreply
  | tick now =>
    simp only [system, ShareLimits.step] at hstep
    split at hstep
    · cases hstep
      exact h.same rfl rfl h.calls
    · contradiction
  | other base =>
    cases hstep
    exact h.same rfl rfl h.calls

theorem Counted.init (h : (system key sha256_hex).init w) (hrow : row ∈ w.db.file_shares) :
    Counted key row w where
  unique := h.1
  counter := by
    have hfind : share_row key w.db row.token = some row := by
      unfold share_row
      cases hf : w.db.file_shares.find? fun s => key s.token = key row.token with
      | none => exact absurd (List.find?_eq_none.mp hf row hrow) (by simp)
      | some s =>
        have hkey : key s.token = key row.token := by simpa using List.find?_some hf
        rw [List.inj_on_of_nodup_map h.1 (List.mem_of_find?_eq_some hf) hrow hkey]
    rw [hfind, h.2]
    simp [downloads, after]
  limit := by
    rw [h.2]
    simp [downloads]
  calls := by
    rw [h.2]
    simp

/-- **Download limits hold under any race.** Along every run, the calls on a share
that returned true are as many as its counter went up by, and no more than the
limit leaves room for. None of them updated after the expiry. Without a limit,
every call whose `UPDATE` was executed before the expiry returned true. -/
theorem share_download_limit (key : Bytes → K) (sha256_hex : Bytes → Bytes) (w₀ w : World)
    (ls : List Label) (row : FileShareRow) (hinit : (system key sha256_hex).init w₀)
    (hrow : row ∈ w₀.db.file_shares) (hrun : (system key sha256_hex).exec w₀ ls = some w) :
    ∃ row' ∈ w.db.file_shares, row'.token = row.token ∧
      (downloads key row.token w.calls : ℤ) = row'.download_count - row.download_count ∧
      (0 < row.max_downloads → row.download_count ≤ row.max_downloads →
        (downloads key row.token w.calls : ℤ) ≤ row.max_downloads - row.download_count) ∧
      ∀ call ∈ w.calls, key call.token = key row.token →
        (call.succeeded = true → ∃ t, call.updated = some t ∧ expired t row.expires_at = false) ∧
        (row.max_downloads = 0 → ∀ t, call.updated = some t →
          expired t row.expires_at = false → call.succeeded = true) := by
  have h : Counted key row w :=
    (system key sha256_hex).exec_induction (fun _ _ _ _ hs hstep => Counted.step hs hstep) ls w₀ w
      ((system key sha256_hex).along_true w₀ ls) (Counted.init hinit hrow) hrun
  refine ⟨_, List.mem_of_find?_eq_some h.counter, rfl, ?_, ?_, ?_⟩
  · rw [after_download_count]
    omega
  · intro hpos hle
    rcases Nat.eq_zero_or_pos (downloads key row.token w.calls) with hzero | hsome
    · rw [hzero]
      simpa using hle
    · have := h.limit (by omega) hsome
      omega
  · intro call hcall hkey
    have hsound := h.calls call hcall
    unfold Call.Sound at hsound
    cases hpoint : call.point with
    | returned reply =>
      rw [hpoint] at hsound
      obtain ⟨hbefore, hall⟩ := hsound hkey
      exact ⟨hbefore, fun hzero t ht hlt => hall t ht hlt hzero⟩
    | fetch =>
      rw [hpoint] at hsound
      refine ⟨fun hs => ?_, fun _ t ht => ?_⟩
      · simp [Call.succeeded, hpoint] at hs
      · exact absurd (hsound.symm.trans ht) (by simp)
    | _ =>
      rw [hpoint] at hsound
      refine ⟨fun hs => ?_, fun _ t ht => ?_⟩
      · simp [Call.succeeded, hpoint] at hs
      · exact absurd (hsound.1.symm.trans ht) (by simp)

/-- A link to be downloaded once, to the only file of the only user. -/
def single_link : FileShareRow := ⟨[1], 1, 1, [], some 100, 1, 0⟩

/-- The tables of `single_link` before any call. -/
def one_download_left : World where
  db :=
    { base :=
        { users := [⟨1, [2], false⟩], folders := []
          files := [⟨1, 1, [3], 1, [4], [5], none, 6, false, [7], 0, none, 0⟩]
          physical_files := [⟨1, [7], [3], 6, 1⟩], next_file_id := 2, next_physical_id := 2 }
      file_shares := [single_link] }
  now := 0
  calls := []

/-- Both calls pass their validation before either updates. -/
def racing_calls : List Label :=
  [.load_share_download [1] [], .load_share_download [1] [], .step 0 true, .step 1 true,
    .step 0 true, .step 1 true, .tick 50, .step 1 true, .step 0 true]

theorem one_of_two_racing_calls :
    ∃ w, (system id id).exec one_download_left racing_calls = some w ∧
      downloads id [1] w.calls = 1 ∧
      (downloads id [1] w.calls : ℤ) ≤ single_link.max_downloads - single_link.download_count := by
  have hrun : ((system id id).exec one_download_left racing_calls).any
      (fun w => decide (downloads id [1] w.calls = 1)) = true := by decide +kernel
  obtain ⟨w, hw, hone⟩ := (Option.any_eq_true _ _).mp hrun
  obtain ⟨_, -, -, -, hlimit, -⟩ := share_download_limit id id one_download_left w racing_calls
    single_link ⟨by unfold TokensUnique; decide, rfl⟩ (by decide) hw
  exact ⟨w, hw, of_decide_eq_true hone, hlimit (by decide) (by decide)⟩

end Limit

end AtlasWebServer.ShareLimits
