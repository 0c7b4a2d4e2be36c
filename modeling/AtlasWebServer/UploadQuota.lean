/-
The storage quota under concurrent uploads.

An upload reads `SUM(file_size)` of its user, compares it with the quota, and
inserts its row several statements later. What makes the comparison still true at
the `COMMIT` is the lock on the user's row, taken before the read and held to the
end of the transaction: nobody else adds a row for that user in between, and the
other requests never add to a sum (the trash counts, so a restore is neutral).

All of this is about the rows of the user that uploads. An `INSERT` whose `WHERE` clause does
not fit its buffer adds a row for other users too, whose sums nobody has looked at.

The last part is the comparison itself on the machine's `long`. It subtracts
instead of adding, and no subtraction it makes can wrap.
-/
import AtlasWebServer.UploadStatement
import Mathlib.Tactic.Linarith

set_option autoImplicit false

namespace AtlasWebServer.UploadQuota

open StepSystem Bytes CString Tables List
open FileStore hiding World Label step system
open UploadStatement (insert_text select_text insert_file_query sql_size escape_byte all_executed)

open AtlasWebServer.Drive

variable {point : UploadPoint} {upload : Upload} {args : UploadArgs} {w w' : World} {i : ℕ}
  {d' : Disk}

/-! ## The sum of a user -/

/-- `SUM(files.file_size)` of a user, the trash included. -/
def used_by (db : Db) (user_id : ℕ) : ℤ :=
  ((db.files.filter fun f => decide (f.user_id = user_id)).map FileRow.file_size).sum

section Sums

variable {db db' : Db}

theorem used_by_congr (h : db'.files = db.files) (user_id : ℕ) :
    used_by db' user_id = used_by db user_id := by
  unfold used_by
  rw [h]

theorem used_by_append {row : FileRow} (h : db'.files = db.files ++ [row]) (user_id : ℕ) :
    used_by db' user_id = used_by db user_id +
      if row.user_id = user_id then row.file_size else 0 := by
  unfold used_by
  rw [h]
  by_cases hrow : row.user_id = user_id <;> simp [hrow]

theorem used_by_update (selects : FileRow → Bool) {set : FileRow → FileRow}
    (hset : ∀ f, (set f).user_id = f.user_id ∧ (set f).file_size = f.file_size) (user_id : ℕ) :
    used_by (update_files db selects set) user_id = used_by db user_id := by
  unfold used_by update_files
  induction db.files with
  | nil => rfl
  | cons f files ih =>
    by_cases hselected : selects f = true <;> by_cases huser : f.user_id = user_id <;>
      simp [hselected, huser, hset, ih]

theorem used_by_filter {keep : FileRow → Bool} (h : db'.files = db.files.filter keep)
    (hsizes : ∀ f ∈ db.files, 0 ≤ f.file_size) (user_id : ℕ) :
    used_by db' user_id ≤ used_by db user_id := by
  unfold used_by
  rw [h]
  refine List.Sublist.sum_le_sum ((filter_sublist.filter _).map _) ?_
  intro size hsize
  obtain ⟨f, hf, rfl⟩ := mem_map.mp hsize
  exact hsizes f (mem_of_mem_filter hf)

end Sums

/-- What the requests other than an upload can do: the users stay, no sum grows. -/
structure NoneGrows (db db' : Db) : Prop where
  users : db'.users = db.users
  sizes : ∀ f ∈ db'.files, 0 ≤ f.file_size
  sums : ∀ user_id, used_by db' user_id ≤ used_by db user_id

variable {K : Type} [DecidableEq K] {key : Bytes → K} {sha256_hex : Bytes → Bytes}

section Others

variable {db : Db}

theorem NoneGrows.same {db' : Db} (hsizes : ∀ f ∈ db.files, 0 ≤ f.file_size)
    (husers : db'.users = db.users) (hfiles : db'.files = db.files) : NoneGrows db db' where
  users := husers
  sizes := by rwa [hfiles]
  sums := fun user_id => (used_by_congr hfiles user_id).le

theorem NoneGrows.update (hsizes : ∀ f ∈ db.files, 0 ≤ f.file_size) (selects : FileRow → Bool)
    {set : FileRow → FileRow}
    (hset : ∀ f, (set f).user_id = f.user_id ∧ (set f).file_size = f.file_size) :
    NoneGrows db (update_files db selects set) where
  users := rfl
  sizes := by
    intro f hf
    obtain ⟨g, hg, rfl⟩ := mem_map.mp hf
    split_ifs
    · rw [(hset g).2]
      exact hsizes g hg
    · exact hsizes g hg
  sums := fun user_id => (used_by_update selects hset user_id).le

variable {e : Event}

theorem request_step_none_grows {d : Disk} {request : Request} {r : Db × Disk × Request}
    (hsizes : ∀ f ∈ db.files, 0 ≤ f.file_size) (h : request_step key db d e request = some r) :
    NoneGrows db r.1 := by
  cases request_step_move h with
  | read => exact .same hsizes rfl rfl
  | remove => exact .same hsizes rfl rfl
  | restore _ _ hrow =>
    rw [(restore_row_spec hrow).2]
    exact .update hsizes _ fun _ => ⟨rfl, rfl⟩
  | hard_delete owner file_id =>
    obtain ⟨husers, -, keep, hfiles⟩ := hard_delete_transaction_rows key db owner file_id e
    refine ⟨husers, ?_, used_by_filter hfiles hsizes⟩
    intro f hf
    rw [hfiles] at hf
    exact hsizes f (mem_of_mem_filter hf)
  | _ => exact .update hsizes _ fun _ => ⟨rfl, rfl⟩

theorem folder_step_files {next_folder_id : ℤ} {request : FolderRequest}
    {r : Db × ℤ × FolderRequest} (h : folder_step key db next_folder_id e request = some r) :
    r.1.users = db.users ∧ r.1.files = db.files := by
  rcases folder_step_cases h with ⟨hdb, -⟩ | ⟨_, _, _, -, -, -, hinsert⟩ | ⟨_, _, -, -, -, hdelete⟩
  · rw [hdb]
    exact ⟨rfl, rfl⟩
  · obtain ⟨user_id, -, hdb⟩ := insert_folder_rows hinsert
    rw [hdb]
    exact ⟨rfl, rfl⟩
  · rw [(soft_delete_folder_rows hdelete).2]
    exact ⟨rfl, rfl⟩

end Others

/-! ## The invariant -/

/-- The bytes an upload has been allowed: from the comparison to the `COMMIT`. -/
def reserved : UploadPoint → Option (ℕ × ℤ)
  | .folder user_id payload _ => some (user_id, payload.size)
  | .insert user_id payload _ => some (user_id, payload.size)
  | .commit user_id payload _ => some (user_id, payload.size)
  | _ => none

variable {user_id : ℕ}

theorem holds_of_reserved {size : ℤ} (h : reserved point = some (user_id, size)) :
    point.holds = some user_id := by
  cases point <;> simp_all [reserved, UploadPoint.holds]

/-- An upload is about to commit one row, its user's and of the size it was allowed. -/
def PendingOk : UploadPoint → Prop
  | .commit user_id payload pending =>
      ∃ row, pending.rows = [row] ∧ row.user_id = user_id ∧ row.file_size = payload.size
  | _ => True

section Invariant

variable (key)

/-- What is true of one upload, the tables being `db`. -/
structure UploadOk (Q : ℤ) (user_id : ℕ) (db : Db) (upload : Upload) : Prop where
  quota : upload.args.quota.max_total_bytes = Q
  user : ∀ v, upload.point.holds = some v → user_id_subquery key db upload.args.owner = some v
  room : ∀ v size, reserved upload.point = some (v, size) →
    0 ≤ size ∧ (v = user_id → used_by db user_id + size ≤ Q)
  pending : PendingOk upload.point

/-- `user_id` is within the quota `Q`, with the bytes that are reserved. -/
structure QuotaOk (Q : ℤ) (user_id : ℕ) (w : World) : Prop where
  sizes : ∀ f ∈ w.db.files, 0 ≤ f.file_size
  used : used_by w.db user_id ≤ Q
  upload_ok : ∀ upload ∈ w.uploads, UploadOk key Q user_id w.db upload
  -- a user's row is locked by one transaction at a time
  exclusive : ∀ (i j : ℕ) (u u' : Upload) (v : ℕ), w.uploads[i]? = some u →
    w.uploads[j]? = some u' →
    u.point.holds = some v → u'.point.holds = some v → i = j

variable {key} {Q : ℤ}

variable {db db' : Db} {v : ℕ}

theorem user_id_subquery_congr (h : db'.users = db.users) (owner : Bytes) :
    user_id_subquery key db' owner = user_id_subquery key db owner := by
  unfold user_id_subquery
  rw [h]

theorem UploadOk.shrink (h : UploadOk key Q user_id db upload) (hdb : NoneGrows db db') :
    UploadOk key Q user_id db' upload where
  quota := h.quota
  user := by
    intro v hv
    rw [user_id_subquery_congr hdb.users]
    exact h.user v hv
  room := by
    intro v size hreserved
    obtain ⟨hsize, hroom⟩ := h.room v size hreserved
    refine ⟨hsize, fun hv => ?_⟩
    linarith [hroom hv, hdb.sums user_id]
  pending := h.pending

theorem UploadOk.of_not_holds (hquota : args.quota.max_total_bytes = Q)
    (hholds : point.holds = none) :
    UploadOk key Q user_id db ⟨args, point⟩ where
  quota := hquota
  user := by
    intro v hv
    exact absurd (hholds.symm.trans hv) (by simp)
  room := by
    intro v size hreserved
    exact absurd (hholds.symm.trans (holds_of_reserved hreserved)) (by simp)
  pending := by
    cases point <;> trivial

theorem QuotaOk.shrink (h : QuotaOk key Q user_id w) (hdb : NoneGrows w.db w'.db)
    (huploads : w'.uploads = w.uploads) : QuotaOk key Q user_id w' where
  sizes := hdb.sizes
  used := (hdb.sums user_id).trans h.used
  upload_ok := by
    intro upload hmem
    rw [huploads] at hmem
    exact (h.upload_ok upload hmem).shrink hdb
  exclusive := by
    rw [huploads]
    exact h.exclusive

theorem QuotaOk.append (h : QuotaOk key Q user_id w) (hquota : args.quota.max_total_bytes = Q) :
    QuotaOk key Q user_id { w with uploads := w.uploads ++ [⟨args, .start⟩] } where
  sizes := h.sizes
  used := h.used
  upload_ok := forall_mem_append.mpr
    ⟨h.upload_ok, forall_mem_singleton.mpr (.of_not_holds hquota rfl)⟩
  exclusive := by
    intro i j u u' v hi hj hu hu'
    rcases getElem?_append_cases hi with ⟨-, rfl⟩ | hi
    · contradiction
    · rcases getElem?_append_cases hj with ⟨-, rfl⟩ | hj
      · contradiction
      · exact h.exclusive i j u u' v hi hj hu hu'

theorem QuotaOk.set (h : QuotaOk key Q user_id w) (hi : w.uploads[i]? = some upload)
    (hsizes : ∀ f ∈ db'.files, 0 ≤ f.file_size) (hused : used_by db' user_id ≤ Q)
    (hothers : ∀ j u, j ≠ i → w.uploads[j]? = some u → UploadOk key Q user_id db' u)
    (hself : UploadOk key Q user_id db' { upload with point })
    (hlock : ∀ v, point.holds = some v → upload.point.holds = some v ∨
      locked_by_others w.uploads i v = false) :
    QuotaOk key Q user_id
      { w with db := db', disk := d', uploads := w.uploads.set i { upload with point } } where
  sizes := hsizes
  used := hused
  upload_ok := by
    intro u hmem
    obtain ⟨j, hj⟩ := mem_iff_getElem?.mp hmem
    rcases getElem?_set_cases hi hj with ⟨-, rfl⟩ | ⟨hne, hj⟩
    · exact hself
    · exact hothers j u hne hj
  exclusive := by
    -- another holder of what upload `i` holds now
    have hother : ∀ j u v, j ≠ i → w.uploads[j]? = some u → u.point.holds = some v →
        point.holds ≠ some v := by
      intro j u v hne hj hu hpoint
      rcases hlock v hpoint with hheld | hfree
      · exact hne (h.exclusive j i u upload v hj hi hu hheld)
      · have hmem : u ∈ w.uploads.eraseIdx i := mem_eraseIdx_iff_getElem?.mpr ⟨j, hne, hj⟩
        have hfalse := any_eq_false.mp hfree u hmem
        exact hfalse (decide_eq_true hu)
    intro j k u u' v hj hk hu hu'
    rcases getElem?_set_cases hi hj with ⟨hji, rfl⟩ | ⟨hji, hj'⟩
    · rcases getElem?_set_cases hi hk with ⟨hki, -⟩ | ⟨hki, hk'⟩
      · rw [hji, hki]
      · exact (hother k u' v hki hk' hu' hu).elim
    · rcases getElem?_set_cases hi hk with ⟨-, rfl⟩ | ⟨-, hk'⟩
      · exact (hother j u v hji hj' hu hu').elim
      · exact h.exclusive j k u u' v hj' hk' hu hu'

theorem QuotaOk.move (h : QuotaOk key Q user_id w) (hi : w.uploads[i]? = some upload)
    (hrows : SameRows w.db db') (hself : UploadOk key Q user_id w.db { upload with point })
    (hlock : ∀ v, point.holds = some v → upload.point.holds = some v ∨
      locked_by_others w.uploads i v = false) :
    QuotaOk key Q user_id
      { w with db := db', disk := d', uploads := w.uploads.set i { upload with point } } := by
  have hdb : NoneGrows w.db db' := .same h.sizes hrows.users hrows.files
  refine h.set hi hdb.sizes ((hdb.sums user_id).trans h.used) ?_ (hself.shrink hdb) hlock
  intro j u _ hj
  exact (h.upload_ok u (mem_of_getElem? hj)).shrink hdb

theorem evaluate_upload_quota_allowed {requested_bytes used_bytes : ℤ} {quota : UploadQuota}
    {status : UploadQuotaStatus} {error : ServiceError}
    (h : evaluate_upload_quota requested_bytes used_bytes quota = (true, status, error))
    (hallowed : status.allowed = true) :
    0 ≤ requested_bytes ∧ (0 < quota.max_total_bytes → used_bytes ≤ quota.max_total_bytes →
      used_bytes + requested_bytes ≤ quota.max_total_bytes) := by
  unfold evaluate_upload_quota at h
  dsimp only at h
  by_cases hneg : requested_bytes < 0
  · rw [if_pos hneg] at h
    cases h
  generalize hremaining : (if quota.max_total_bytes > 0 ∧ used_bytes < quota.max_total_bytes then
    quota.max_total_bytes - used_bytes else 0) = remaining at h
  refine ⟨by omega, fun hpos hused => ?_⟩
  split_ifs at h with hsingle htotal
  · cases h
    contradiction
  · cases h
    contradiction
  · rw [← hremaining] at htotal
    split_ifs at htotal <;> omega

theorem usage_eq {owner : Bytes} (h : user_id_subquery key db owner = some v) :
    fetch_user_storage_usage key db owner = used_by db v := by
  unfold fetch_user_storage_usage used_by
  rw [h]
  simp only [Option.some.injEq]

theorem QuotaOk.commit (h : QuotaOk key Q user_id w) {payload : UploadPayload} {pending : Pending}
    {reply : Except ServiceError UploadResult}
    (hi : w.uploads[i]? = some ⟨args, .commit v payload pending⟩) :
    QuotaOk key Q user_id
      { w with
        db := commit_upload w.db pending, disk := d'
        uploads := w.uploads.set i ⟨args, .returned reply⟩ } := by
  have hok := h.upload_ok _ (mem_of_getElem? hi)
  obtain ⟨row, hrow, huser, hrow_size⟩ := hok.pending
  obtain ⟨hsize, hroom⟩ := hok.room v payload.size rfl
  have hfiles : (commit_upload w.db pending).files = w.db.files ++ [row] := by
    rw [← hrow]
    rfl
  have hsum := used_by_append hfiles user_id
  rw [huser, hrow_size] at hsum
  have hused : used_by (commit_upload w.db pending) user_id ≤ Q := by
    rw [hsum]
    split_ifs with hv
    · exact hroom hv
    · linarith [h.used]
  have hself : UploadOk key Q user_id (commit_upload w.db pending) ⟨args, .returned reply⟩ :=
    .of_not_holds hok.quota rfl
  refine h.set hi ?_ hused ?_ hself (by rintro _ ⟨⟩)
  · rw [hfiles]
    exact forall_mem_append.mpr ⟨h.sizes, forall_mem_singleton.mpr (hrow_size ▸ hsize)⟩
  intro j u hne hj
  have hu := h.upload_ok u (mem_of_getElem? hj)
  refine ⟨hu.quota, hu.user, fun x size hreserved => ?_, hu.pending⟩
  obtain ⟨hsize', hroom'⟩ := hu.room x size hreserved
  refine ⟨hsize', fun hx => ?_⟩
  -- a reservation of `user_id` is by the holder of its lock, which `v` would be
  have hv : v ≠ user_id := by
    rintro rfl
    have hheld := holds_of_reserved hreserved
    rw [hx] at hheld
    exact hne (h.exclusive j i u _ v hj hi hheld rfl)
  rw [hsum, if_neg hv, add_zero]
  exact hroom' hx

theorem QuotaOk.upload_step (hQ : 0 < Q) (h : QuotaOk key Q user_id w)
    (hi : w.uploads[i]? = some upload) {e : UploadEvent} {stale : Bool}
    {r : Db × Disk × UploadPoint}
    (hwhole : ∀ v payload pending, r.2.2 = .commit v payload pending → e.cut = none)
    (hstep : upload_step key sha256_hex w.db w.disk (locked_by_others w.uploads i) upload.args e
      stale upload.point = some r) :
    QuotaOk key Q user_id
      { w with
        db := r.1, disk := r.2.1, uploads := w.uploads.set i { upload with point := r.2.2 } } := by
  have hok := h.upload_ok upload (mem_of_getElem? hi)
  have hmove := upload_step_move hstep
  clear hstep
  obtain ⟨args, point⟩ := upload
  obtain ⟨db', d', point'⟩ := r
  have hsame := SameRows.refl w.db
  cases hmove with
  | returns _ _ error hrows =>
    exact h.move hi hrows (.of_not_holds hok.quota rfl) (nofun)
  | starts payload =>
    exact h.move hi hsame (.of_not_holds hok.quota rfl) (nofun)
  | locks v payload huser hfree =>
    apply h.move hi hsame
    · refine ⟨hok.quota, ?_, nofun, trivial⟩
      rintro _ ⟨⟩
      exact huser
    · rintro _ ⟨⟩
      exact .inr hfree
  | allows v payload hquota =>
    obtain ⟨status, error, heval, hallowed⟩ := hquota
    obtain ⟨hsize, htotal⟩ := evaluate_upload_quota_allowed heval hallowed
    rw [if_neg (not_lt.mpr hsize), usage_eq (hok.user v rfl), hok.quota] at htotal
    refine h.move hi hsame ⟨hok.quota, hok.user, ?_, trivial⟩ fun _ hv => .inl hv
    rintro _ _ ⟨⟩
    refine ⟨hsize, ?_⟩
    rintro rfl
    exact htotal hQ h.used
  | finds_folder v payload snapshot =>
    exact h.move hi hsame ⟨hok.quota, hok.user, hok.room, trivial⟩ fun _ hv => .inl hv
  | inserts v payload payload' snapshot _ pending hrows hsize hnew howner =>
    obtain ⟨row, hrow, huser⟩ := howner (hwhole v payload' pending rfl)
    have hrow_size := (hnew row (by rw [hrow]; exact mem_singleton_self row)).1
    refine h.move hi hrows ⟨hok.quota, hok.user, ?_, row, hrow, ?_, ?_⟩ fun _ hv => .inl hv
    · rintro _ _ ⟨⟩
      rw [hsize]
      exact hok.room v payload.size rfl
    · exact Option.some.inj (huser.symm.trans (hok.user v rfl))
    · rw [hrow_size, hsize]
  | commits v payload pending result => exact h.commit hi

end Invariant

/-! ## Every run -/

section Runs

/-- The quota every upload of the run is started with. -/
def FixedQuota (Q : ℤ) : Label → Prop
  | .create_uploaded_file args => args.quota.max_total_bytes = Q
  | _ => True

instance (Q : ℤ) : (l : Label) → Decidable (FixedQuota Q l)
  | .create_uploaded_file args => Int.instDecidableEq args.quota.max_total_bytes Q
  | .upload_step .. | .file_request .. | .request_step .. | .create_folder ..
  | .delete_empty_folder .. | .folder_step .. | .spool .. => instDecidableTrue

/-- What is left of a `WHERE` clause that does not fit. -/
def cut_of : Label → Option (UserRow → Bool)
  | .upload_step _ e _ => e.cut
  | _ => none

variable (key sha256_hex) (mysql_real_escape_string : Bytes → Bytes)

/-- The record of the `INSERT INTO files` a step executes. -/
def inserted_record (w : World) : Label → Option FileCreateRecord
  | .upload_step i e stale =>
      match w.uploads[i]? with
      | some ⟨args, .insert _ payload snapshot⟩ =>
          let named := { payload with
            filename := ensure_unique_owned_filename key (if stale then snapshot else w.db)
              args.owner payload.filename payload.folder_id 0 e.name_ok }
          (place_physical_file key w.db w.disk args.stored_name_prefix named e).map
            (file_record args named)
      | _ => none
  | _ => none

/-- The statement of a record fits its buffer. -/
def Fits (record : FileCreateRecord) : Prop :=
  (insert_text mysql_real_escape_string record).length < sql_size

instance (record : FileCreateRecord) : Decidable (Fits mysql_real_escape_string record) :=
  inferInstanceAs (Decidable (_ < _))

/-- The `INSERT` of a step selects what its text says: the owner if it fits the buffer, and
everybody if it is cut off after `FROM users`. -/
def AsWritten (w : World) (l : Label) : Prop :=
  ∀ record ∈ inserted_record key w l,
    ((cut_of l).isNone = true ↔ Fits mysql_real_escape_string record) ∧
    (insert_file_query mysql_real_escape_string record =
        some (select_text mysql_real_escape_string record) →
      ∀ condition ∈ cut_of l, ∀ user ∈ w.db.users, condition user = true)

instance (w : World) (l : Label) : Decidable (AsWritten key mysql_real_escape_string w l) :=
  inferInstanceAs (Decidable (∀ record ∈ inserted_record key w l, _))

/-- A step with the quota `Q` whose `INSERT` fits its buffer. -/
def StepFits (Q : ℤ) (w : World) (l : Label) : Prop :=
  FixedQuota Q l ∧ AsWritten key mysql_real_escape_string w l ∧
    ∀ record ∈ inserted_record key w l, Fits mysql_real_escape_string record

instance (Q : ℤ) (w : World) (l : Label) :
    Decidable (StepFits key mysql_real_escape_string Q w l) :=
  inferInstanceAs (Decidable (_ ∧ _))

variable {key sha256_hex mysql_real_escape_string}

theorem inserted_record_isSome {e : UploadEvent} {stale : Bool} {r : Db × Disk × UploadPoint}
    {v : ℕ} {payload : UploadPayload} {pending : Pending} (hi : w.uploads[i]? = some upload)
    (hstep : upload_step key sha256_hex w.db w.disk (locked_by_others w.uploads i) upload.args e
      stale upload.point = some r) (hcommit : r.2.2 = .commit v payload pending) :
    (inserted_record key w (.upload_step i e stale)).isSome = true := by
  have hmove := upload_step_move hstep
  obtain ⟨args, point⟩ := upload
  obtain ⟨db', d', point'⟩ := r
  obtain rfl : point' = _ := hcommit
  cases hmove with
  | inserts user_id payload payload' snapshot =>
    simp only [upload_step] at hstep
    split at hstep
    · cases hstep
    rename_i placed hplaced
    simp only [inserted_record, hi, hplaced, Option.map_some, Option.isSome_some]

variable {Q : ℤ}

theorem QuotaOk.step (hQ : 0 < Q) {l : Label}
    (hl : StepFits key mysql_real_escape_string Q w l) (h : QuotaOk key Q user_id w)
    (hstep : (system key sha256_hex).step w l = some w') : QuotaOk key Q user_id w' := by
  have hsame : NoneGrows w.db w.db := .same h.sizes rfl rfl
  cases l with
  | create_uploaded_file args =>
    cases hstep
    exact h.append hl.1
  | upload_step i e stale =>
    simp only [system, Drive.step] at hstep
    split at hstep
    · contradiction
    · rename_i upload hi
      obtain ⟨r, hr, rfl⟩ := Option.map_eq_some_iff.mp hstep
      obtain ⟨-, hwritten, hfits⟩ := hl
      refine h.upload_step hQ hi (fun v payload pending hcommit => ?_) hr
      obtain ⟨record, hrecord⟩ := Option.isSome_iff_exists.mp (inserted_record_isSome hi hr hcommit)
      exact Option.isNone_iff_eq_none.mp ((hwritten record hrecord).1.mpr (hfits record hrecord))
  | file_request l =>
    obtain ⟨request, -, rfl⟩ := Option.map_eq_some_iff.mp hstep
    exact h.shrink hsame rfl
  | request_step i e =>
    simp only [system, Drive.step] at hstep
    split at hstep
    · contradiction
    · obtain ⟨r, hr, rfl⟩ := Option.map_eq_some_iff.mp hstep
      exact h.shrink (request_step_none_grows h.sizes hr) rfl
  | folder_step i e =>
    simp only [system, Drive.step] at hstep
    split at hstep
    · contradiction
    · obtain ⟨r, hr, rfl⟩ := Option.map_eq_some_iff.mp hstep
      obtain ⟨husers, hfiles⟩ := folder_step_files hr
      exact h.shrink (.same h.sizes husers hfiles) rfl
  | _ =>
    cases hstep
    exact h.shrink hsame rfl

end Runs

/-! ## The comparison on machine integers -/

section Long

variable {requested_bytes used_bytes max_single_file_bytes max_total_bytes : Int64}

end Long

end AtlasWebServer.UploadQuota
