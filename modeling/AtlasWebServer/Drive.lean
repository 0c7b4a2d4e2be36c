/-
The drive under concurrent requests: `create_uploaded_file` statement by statement,
the folder requests of `service/files/file_service.cpp`, and the file requests of
`FileStore`, interleaved in any order.

`FileStore` runs an upload as one step. Here its transaction is open over several
steps: `BEGIN`, the row lock on its user, the usage read with the quota check, the
folder check, the inserts, the `COMMIT`. `db` is what is committed. The rows an
upload has inserted are its own until its `COMMIT`, which applies them to the
tables as they are then; the `AUTO_INCREMENT` counters move at once. A step of an
upload that waits for a lock is not enabled. Run alone, the steps are
`FileStore.create_uploaded_file` (`upload_alone`).

A non-locking read inside the transaction may be of the committed rows, or of the
snapshot that the transaction's first such read made; the label of the step says
which. Of the locks only the one on the user's row is modelled. The server takes
more (the parent row of a foreign key, a unique key's entry), so it allows fewer
interleavings than this model.
-/
import AtlasWebServer.FileStoreInvariant

set_option autoImplicit false

namespace AtlasWebServer.Drive

open StepSystem Bytes CString Tables
open FileStore hiding World Label step system

/-! ## Folders -/

def sanitize_folder_name (name : Bytes) : Bytes :=
  let trimmed := ((name.dropWhile isspace).reverse.dropWhile isspace).reverse
  (trimmed.filter fun ch => !(ch = 47 || ch = 92 || ch < 0x20)).take 80

structure FolderListItem where
  id : ℤ
  parent_id : ℤ
  name : Bytes
  deriving DecidableEq

variable {K : Type} [DecidableEq K] {key : Bytes → K} {sha256_hex : Bytes → Bytes}

section Statements

variable (key)

/-- `folder_name_exists`: `exists`, or `none` where it returns false. -/
def folder_name_exists (db : Db) (owner : Bytes) (parent_id : ℤ) (name : Bytes) (sql_ok : Bool) :
    Option Bool :=
  if owner = [] ∨ name = [] ∨ parent_id < 0 ∨ sql_ok = false then none
  else
    some (db.folders.any fun folder =>
      decide (some folder.user_id = user_id_subquery key db owner) &&
      decide (folder.parent_id = nullable_id_value parent_id) &&
      decide (key folder.name = key name) && decide (folder.deleted_at = none))

/-- `insert_folder` with the id the table gives: the new tables, or the error number.
The row has to keep `uq_folders_active_name` and the reference to its parent. -/
def insert_folder (db : Db) (owner : Bytes) (parent_id : ℤ) (name : Bytes) (folder_id : ℤ) :
    Except ℕ Db :=
  if owner = [] ∨ name = [] ∨ parent_id < 0 then .error 0
  else
    match user_id_subquery key db owner with
    | none => .error 0
    | some user_id =>
        let parent := nullable_id_value parent_id
        if db.folders.any fun folder =>
            decide (folder.user_id = user_id) && decide (folder.parent_id.getD 0 = parent.getD 0) &&
            decide (key folder.name = key name) && decide (folder.deleted_at = none)
              then .error 1062
        else if parent.any fun id => db.folders.all fun folder => decide (folder.id ≠ id) then
          .error 1452
        else .ok { db with folders := db.folders ++ [⟨folder_id, user_id, parent, name, none⟩] }

/-- The rows `fetch_folder` and `soft_delete_folder` select. -/
def active_folder (db : Db) (owner : Bytes) (folder_id : ℤ) (folder : FolderRow) : Bool :=
  decide (folder.id = folder_id) && decide (some folder.user_id = user_id_subquery key db owner) &&
    decide (folder.deleted_at = none)

def fetch_folder (db : Db) (owner : Bytes) (folder_id : ℤ) (sql_ok : Bool) :
    Option FolderListItem :=
  if owner = [] ∨ folder_id ≤ 0 ∨ sql_ok = false then none
  else (db.folders.find? (active_folder key db owner folder_id)).map fun folder =>
    ⟨folder.id, folder.parent_id.getD 0, folder.name⟩

/-- The first statement of `folder_has_active_children`. -/
def has_active_folders (db : Db) (owner : Bytes) (folder_id : ℤ) : Bool :=
  db.folders.any fun folder =>
    decide (some folder.user_id = user_id_subquery key db owner) &&
    decide (folder.parent_id = some folder_id) && decide (folder.deleted_at = none)

/-- The second statement of `folder_has_active_children`. -/
def has_active_files (db : Db) (owner : Bytes) (folder_id : ℤ) : Bool :=
  db.files.any fun f =>
    decide (some f.user_id = user_id_subquery key db owner) &&
    decide (f.folder_id = some folder_id) && decide (f.deleted_at = none)

/-- `soft_delete_folder`: `none` where it returns false. -/
def soft_delete_folder (db : Db) (owner : Bytes) (folder_id now : ℤ) : Option Db :=
  if owner = [] ∨ folder_id ≤ 0 then none
  else if db.folders.any (active_folder key db owner folder_id) then
    some { db with
      folders := db.folders.map fun folder =>
        if active_folder key db owner folder_id folder then { folder with deleted_at := some now }
        else folder }
  else none

end Statements

/-- Where a folder request stands, with its locals. -/
inductive FolderRequest
  | create_exists (owner : Bytes) (parent_id : ℤ) (safe_name : Bytes)
  | create_name (owner : Bytes) (parent_id : ℤ) (safe_name : Bytes)
  | create_insert (owner : Bytes) (parent_id : ℤ) (safe_name : Bytes)
  | create_fetch (owner : Bytes) (parent_id : ℤ) (safe_name : Bytes) (folder_id : ℤ)
  | delete_fetch (owner : Bytes) (folder_id : ℤ)
  | delete_folders (owner : Bytes) (folder : FolderListItem)
  | delete_files (owner : Bytes) (folder : FolderListItem)
  | delete_update (owner : Bytes) (folder : FolderListItem)
  | returned (reply : Except ServiceError FolderListItem)

/-- `create_folder` up to its first statement. -/
def create_folder (owner : Bytes) (parent_id : ℤ) (name : Bytes) : FolderRequest :=
  let safe_name := sanitize_folder_name name
  if safe_name = [] then .returned (.error ⟨.InvalidArgument, lit "folder name is required"⟩)
  else if parent_id < 0 then .returned (.error ⟨.InvalidArgument, lit "invalid parent_id"⟩)
  else .create_exists owner parent_id safe_name

/-- `delete_empty_folder` up to its first statement. -/
def delete_empty_folder (owner : Bytes) (folder_id : ℤ) : FolderRequest :=
  if folder_id ≤ 0 then .returned (.error ⟨.InvalidArgument, lit "root folder cannot be deleted"⟩)
  else .delete_fetch owner folder_id

section FolderSteps

variable (key)

/-- One statement of a folder request: the tables, the next folder id, the request. -/
def folder_step (db : Db) (next_folder_id : ℤ) (e : Event) :
    FolderRequest → Option (Db × ℤ × FolderRequest)
  | .create_exists owner parent_id safe_name =>
      match folder_exists key db owner parent_id (e.ok 0) with
      | none => some (db, next_folder_id, .returned (.error .unset))
      | some false =>
          some (db, next_folder_id, .returned (.error ⟨.NotFound, lit "parent folder not found"⟩))
      | some true => some (db, next_folder_id, .create_name owner parent_id safe_name)
  | .create_name owner parent_id safe_name =>
      match folder_name_exists key db owner parent_id safe_name (e.ok 0) with
      | none => some (db, next_folder_id, .returned (.error .unset))
      | some true =>
          some (db, next_folder_id,
            .returned (.error ⟨.Conflict, lit "folder name already exists"⟩))
      | some false => some (db, next_folder_id, .create_insert owner parent_id safe_name)
  | .create_insert owner parent_id safe_name =>
      if e.ok 0 = false then some (db, next_folder_id, .returned (.error .unset))
      else
        match insert_folder key db owner parent_id safe_name next_folder_id with
        | .error errno =>
            some (db, next_folder_id, .returned (.error
              (if errno = 1062 then ⟨.Conflict, lit "folder name already exists"⟩ else .unset)))
        | .ok db' =>
            some (db', next_folder_id + 1, .create_fetch owner parent_id safe_name next_folder_id)
  | .create_fetch owner parent_id safe_name folder_id =>
      match fetch_folder key db owner folder_id (e.ok 0) with
      | some folder => some (db, next_folder_id, .returned (.ok folder))
      | none => some (db, next_folder_id, .returned (.ok ⟨folder_id, parent_id, safe_name⟩))
  | .delete_fetch owner folder_id =>
      match fetch_folder key db owner folder_id (e.ok 0) with
      | none => some (db, next_folder_id, .returned (.error ⟨.NotFound, lit "folder not found"⟩))
      | some folder => some (db, next_folder_id, .delete_folders owner folder)
  | .delete_folders owner folder =>
      if e.ok 0 = false then some (db, next_folder_id, .returned (.error .unset))
      else if has_active_folders key db owner folder.id then
        some (db, next_folder_id, .returned (.error ⟨.Conflict, lit "folder is not empty"⟩))
      else some (db, next_folder_id, .delete_files owner folder)
  | .delete_files owner folder =>
      if e.ok 0 = false then some (db, next_folder_id, .returned (.error .unset))
      else if has_active_files key db owner folder.id then
        some (db, next_folder_id, .returned (.error ⟨.Conflict, lit "folder is not empty"⟩))
      else some (db, next_folder_id, .delete_update owner folder)
  | .delete_update owner folder =>
      match if e.ok 0 then soft_delete_folder key db owner folder.id e.now else none with
      | none => some (db, next_folder_id, .returned (.error .unset))
      | some db' => some (db', next_folder_id, .returned (.ok folder))
  | .returned _ => none

variable {key} {db : Db}

theorem insert_folder_rows {db' : Db} {owner name : Bytes} {parent_id folder_id : ℤ}
    (h : insert_folder key db owner parent_id name folder_id = .ok db') :
    ∃ user_id, (∀ id ∈ nullable_id_value parent_id, ∃ folder ∈ db.folders, folder.id = id) ∧
      db' = { db with
        folders := db.folders ++
          [⟨folder_id, user_id, nullable_id_value parent_id, name, none⟩] } := by
  unfold insert_folder at h
  split at h
  · contradiction
  split at h
  · contradiction
  rename_i user_id huser
  dsimp only at h
  split_ifs at h with hname hparent
  refine ⟨user_id, ?_, (Except.ok.inj h).symm⟩
  intro id hid
  rw [Option.mem_def.mp hid, Option.any_some, Bool.not_eq_true, List.all_eq_false] at hparent
  simpa using hparent

theorem soft_delete_folder_rows {db' : Db} {owner : Bytes} {folder_id now : ℤ}
    (h : soft_delete_folder key db owner folder_id now = some db') :
    (∃ folder ∈ db.folders, active_folder key db owner folder_id folder = true) ∧
      db' = { db with
        folders := db.folders.map fun folder =>
          if active_folder key db owner folder_id folder then { folder with deleted_at := some now }
          else folder } := by
  unfold soft_delete_folder at h
  split_ifs at h with hargs hany
  exact ⟨List.any_eq_true.mp hany, (Option.some.inj h).symm⟩

theorem folder_step_cases {next_folder_id : ℤ} {e : Event} {request : FolderRequest}
    {r : Db × ℤ × FolderRequest} (h : folder_step key db next_folder_id e request = some r) :
    (r.1 = db ∧ r.2.1 = next_folder_id) ∨
      (∃ owner parent_id safe_name, request = .create_insert owner parent_id safe_name ∧
        e.ok 0 = true ∧ r.2.1 = next_folder_id + 1 ∧
        insert_folder key db owner parent_id safe_name next_folder_id = .ok r.1) ∨
      ∃ owner folder, request = .delete_update owner folder ∧ e.ok 0 = true ∧
        r.2.1 = next_folder_id ∧ soft_delete_folder key db owner folder.id e.now = some r.1 := by
  cases request with
  | create_insert owner parent_id safe_name =>
    simp only [folder_step] at h
    split at h
    · cases h
      exact .inl ⟨rfl, rfl⟩
    rename_i hok
    split at h
    · cases h
      exact .inl ⟨rfl, rfl⟩
    · rename_i db' hinsert
      cases h
      exact .inr (.inl ⟨owner, parent_id, safe_name, rfl, by simpa using hok, rfl, hinsert⟩)
  | delete_update owner folder =>
    simp only [folder_step] at h
    by_cases hok : e.ok 0 = true
    · rw [if_pos hok] at h
      split at h
      · cases h
        exact .inl ⟨rfl, rfl⟩
      · rename_i db' hdelete
        cases h
        exact .inr (.inr ⟨owner, folder, rfl, hok, rfl, hdelete⟩)
    · rw [if_neg hok] at h
      cases h
      exact .inl ⟨rfl, rfl⟩
  | returned reply => contradiction
  | _ =>
    -- reads
    refine .inl ?_
    simp only [folder_step] at h
    split at h
    all_goals first
      | (obtain rfl := Option.some.inj h; exact ⟨rfl, rfl⟩)
      | (split at h <;> obtain rfl := Option.some.inj h <;> exact ⟨rfl, rfl⟩)

end FolderSteps

/-! ## Uploads -/

/-- What an upload has inserted and not committed. -/
structure Pending where
  placed : Placed
  file_id : ℤ
  rows : List FileRow
  physical : Option PhysicalFileRow

/-- Where an upload stands. From `usage` on it holds the lock of its user. -/
inductive UploadPoint
  | start
  | lock (payload : UploadPayload)
  | usage (user_id : ℕ) (payload : UploadPayload)
  | folder (user_id : ℕ) (payload : UploadPayload) (snapshot : Db)
  | insert (user_id : ℕ) (payload : UploadPayload) (snapshot : Db)
  | commit (user_id : ℕ) (payload : UploadPayload) (pending : Pending)
  | returned (reply : Except ServiceError UploadResult)

/-- The user whose row the transaction has locked. -/
def UploadPoint.holds : UploadPoint → Option ℕ
  | .usage user_id _ => some user_id
  | .folder user_id _ _ => some user_id
  | .insert user_id _ _ => some user_id
  | .commit user_id _ _ => some user_id
  | _ => none

/-- The rows an `INSERT` has appended, with the physical file it made. -/
def pending_rows (placed : Placed) (view : Db) (file_id : ℤ) : Pending where
  placed := placed
  file_id := file_id
  rows := view.files.drop placed.db.files.length
  physical := if placed.physical_created then placed.db.physical_files.getLast? else none

/-- `COMMIT`: the rows of the transaction, added to the tables as they are now. -/
def commit_upload (db : Db) (pending : Pending) : Db :=
  trg_files_after_insert
    { db with
      files := db.files ++ pending.rows
      physical_files := db.physical_files ++ pending.physical.toList }
    pending.placed.physical_id pending.rows.length

section UploadSteps

variable (key sha256_hex)

/-- One step of an upload. `locked` are the users another transaction has locked;
`stale` makes a non-locking read one of the snapshot. -/
def upload_step (db : Db) (d : Disk) (locked : ℕ → Bool) (args : UploadArgs) (e : UploadEvent)
    (stale : Bool) : UploadPoint → Option (Db × Disk × UploadPoint)
  | .start =>
      let payload := payload_with_digest sha256_hex args.payload
      if payload.sha256 = [] ∨ e.begin_ok = false then some (db, d, .returned (.error .unset))
      else some (db, d, .lock payload)
  | .lock payload =>
      if e.lock_ok = false ∨ args.owner = [] then some (db, d, .returned (.error .unset))
      else
        match user_id_subquery key db args.owner with
        | none => some (db, d, .returned (.error .unset))
        | some user_id => if locked user_id then none else some (db, d, .usage user_id payload)
  | .usage user_id payload =>
      if payload.size ≥ 0 ∧ e.usage_ok = false then some (db, d, .returned (.error .unset))
      else
        let used := if payload.size < 0 then 0 else fetch_user_storage_usage key db args.owner
        match evaluate_upload_quota payload.size used args.quota with
        | (false, _, _) => some (db, d, .returned (.error .unset))
        | (true, status, quota_error) =>
            if status.allowed = false then some (db, d, .returned (.error quota_error))
            else some (db, d, .folder user_id payload db)
  | .folder user_id payload snapshot =>
      match folder_exists key (if stale then snapshot else db) args.owner payload.folder_id
          e.folder_ok with
      | none => some (db, d, .returned (.error .unset))
      | some false => some (db, d, .returned (.error ⟨.NotFound, lit "folder not found"⟩))
      | some true => some (db, d, .insert user_id payload snapshot)
  | .insert user_id payload snapshot =>
      let payload := { payload with
        filename := ensure_unique_owned_filename key (if stale then snapshot else db) args.owner
          payload.filename payload.folder_id 0 e.name_ok }
      match place_physical_file key db d args.stored_name_prefix payload e with
      | none => some (db, d, .returned (.error .unset))
      | some placed =>
          match insert_file_result key args payload placed e with
          | .error errno =>
              let disk :=
                if placed.physical_created then placed.disk.remove_file placed.stored_name
                else placed.disk
              some (rollback db placed.db, disk, .returned (.error
                (if errno = 1062 then ⟨.Conflict, lit "file name already exists"⟩ else .unset)))
          | .ok (view, file_id) =>
              some (rollback db view, placed.disk,
                .commit user_id payload (pending_rows placed view file_id))
  | .commit _ payload pending =>
      if pending.placed.physical_created ∧ e.failpoint then
        some (db, d.remove_file pending.placed.stored_name,
          .returned (.error ⟨.Conflict, lit "test failpoint before upload commit"⟩))
      else if e.commit_ok = false then some (db, d, .returned (.error .unset))
      else
        some (commit_upload db pending, d,
          .returned (.ok ⟨pending.file_id, payload.folder_id, pending.placed.physical_id,
            payload.filename, payload.size, args.is_public, pending.placed.deduplicated,
            payload.sha256⟩))
  | .returned _ => none

/-- The step of an upload with nothing between its steps. -/
def upload_move (args : UploadArgs) (e : UploadEvent) (stale : Bool) (s : Db × Disk × UploadPoint) :
    Option (Db × Disk × UploadPoint) :=
  upload_step key sha256_hex s.1 s.2.1 (fun _ => false) args e stale s.2.2

end UploadSteps

section Alone

theorem commit_alone {db view : Db} {d : Disk} {stored_name_start : Bytes}
    {payload : UploadPayload} {e : UploadEvent} {placed : Placed} {record : FileCreateRecord}
    {file_id : ℤ} (hplaced : place_physical_file key db d stored_name_start payload e = some placed)
    (hrecord : record.physical_id = placed.physical_id)
    (hinsert : insert_file key placed.db record e.now e.cut = .ok (view, file_id)) :
    commit_upload (rollback db view) (pending_rows placed view file_id) = view := by
  obtain ⟨rows, -, -, -, -, hview⟩ := insert_file_rows hinsert
  dsimp only at hview
  rw [hrecord] at hview
  unfold commit_upload pending_rows
  rw [hview]
  rcases place_physical_file_rows hplaced with ⟨hold, hdb⟩ | ⟨hnew, p, hdb⟩
  · rw [hold, hdb]
    simp [rollback, append_files, trg_files_after_insert]
  · rw [hnew, hdb]
    simp [rollback, append_files, trg_files_after_insert]

theorem run_alone_returned (args : UploadArgs) (e : UploadEvent) (stale : Bool) (fuel : ℕ)
    (db : Db) (d : Disk) (reply : Except ServiceError UploadResult) :
    run_alone (upload_move key sha256_hex args e stale) fuel (db, d, .returned reply) =
      (db, d, .returned reply) :=
  run_alone_of_end rfl fuel

def returned_with (r : Uploaded) : Db × Disk × UploadPoint := (r.db, r.disk, .returned r.result)

theorem run_alone_insert (args : UploadArgs) (e : UploadEvent) (stale : Bool) (db : Db) (d : Disk)
    (user_id : ℕ) (payload : UploadPayload) {named : UploadPayload}
    (hnamed : named = { payload with
      filename := ensure_unique_owned_filename key db args.owner payload.filename
        payload.folder_id 0 e.name_ok }) :
    run_alone (upload_move key sha256_hex args e stale) 2 (db, d, .insert user_id payload db) =
      returned_with
        (match place_physical_file key db d args.stored_name_prefix named e with
        | none => ⟨db, d, [], .error .unset⟩
        | some placed => finish_upload key db args named placed e) := by
  rw [run_alone, upload_move, upload_step, ite_self]
  rw [← hnamed]
  cases hplaced : place_physical_file key db d args.stored_name_prefix named e with
  | none => exact run_alone_returned ..
  | some placed =>
    dsimp only
    unfold finish_upload
    cases hinsert : insert_file_result key args named placed e with
    | error errno => exact run_alone_returned ..
    | ok r =>
      obtain ⟨view, file_id⟩ := r
      have hcommit := commit_alone hplaced rfl (executed_ok hinsert)
      have hpending : (pending_rows placed view file_id).placed = placed := rfl
      dsimp only
      rw [run_alone, upload_move, upload_step, hcommit, hpending]
      by_cases hpoint : placed.physical_created = true ∧ e.failpoint = true
      · rw [if_pos hpoint, if_pos hpoint]
        rfl
      rw [if_neg hpoint, if_neg hpoint]
      by_cases hok : e.commit_ok = false
      · rw [if_pos hok, if_pos hok]
        rfl
      · rw [if_neg hok, if_neg hok]
        rfl

/-- **Run alone, the steps of an upload are `create_uploaded_file`.** -/
theorem upload_alone (key : Bytes → K) (sha256_hex : Bytes → Bytes) (db : Db) (d : Disk)
    (args : UploadArgs) (e : UploadEvent) (stale : Bool) :
    run_alone (upload_move key sha256_hex args e stale) 6 (db, d, .start) =
      returned_with (create_uploaded_file key sha256_hex db d args e) := by
  unfold create_uploaded_file upload_checks
  generalize hpayload : payload_with_digest sha256_hex args.payload = payload
  rw [run_alone, upload_move, upload_step, hpayload]
  by_cases hbegin : payload.sha256 = [] ∨ e.begin_ok = false
  · rw [if_pos hbegin, if_pos hbegin]
    exact run_alone_returned ..
  rw [if_neg hbegin, if_neg hbegin]
  dsimp only
  rw [run_alone, upload_move, upload_step]
  unfold lock_user_for_update
  by_cases hlock : e.lock_ok = false ∨ args.owner = []
  · rw [if_pos hlock, if_pos]
    · exact run_alone_returned ..
    · rcases hlock with hlock | hlock
      · exact .inl hlock
      · exact .inr (by simp [hlock])
  rw [if_neg hlock]
  cases huser : user_id_subquery key db args.owner with
  | none =>
    rw [if_pos (.inr (by simp))]
    exact run_alone_returned ..
  | some user_id =>
    have hlocked : ¬ (e.lock_ok = false ∨
        (decide (args.owner ≠ []) && (some user_id).isSome) = false) := by simp [hlock]
    rw [if_neg hlocked]
    simp only [Bool.false_eq_true, if_false]
    rw [run_alone, upload_move, upload_step]
    by_cases husage : payload.size ≥ 0 ∧ e.usage_ok = false
    · rw [if_pos husage, if_pos husage]
      exact run_alone_returned ..
    rw [if_neg husage, if_neg husage]
    dsimp only
    obtain ⟨⟨ok, status, quota_error⟩, hquota⟩ : ∃ r, evaluate_upload_quota payload.size
        (if payload.size < 0 then 0 else fetch_user_storage_usage key db args.owner) args.quota =
          r := ⟨_, rfl⟩
    rw [hquota]
    cases ok with
    | false => exact run_alone_returned ..
    | true =>
      dsimp only
      by_cases hallowed : status.allowed = false
      · rw [if_pos hallowed, if_pos hallowed]
        exact run_alone_returned ..
      rw [if_neg hallowed, if_neg hallowed]
      dsimp only
      rw [run_alone, upload_move, upload_step, ite_self]
      cases folder_exists key db args.owner payload.folder_id e.folder_ok with
      | none => exact run_alone_returned ..
      | some found =>
        cases found with
        | false => exact run_alone_returned ..
        | true =>
          exact run_alone_insert args e stale db d user_id payload rfl

end Alone

/-! ### What a step of an upload can do -/

/-- The same rows; the counters may have moved. -/
structure SameRows (db db' : Db) : Prop where
  users : db'.users = db.users
  folders : db'.folders = db.folders
  files : db'.files = db.files
  physical_files : db'.physical_files = db.physical_files

theorem SameRows.refl (db : Db) : SameRows db db := ⟨rfl, rfl, rfl, rfl⟩

theorem SameRows.rollback (db view : Db) : SameRows db (rollback db view) := ⟨rfl, rfl, rfl, rfl⟩

/-- Where an upload is at its `COMMIT`, the event is not one of a commit. -/
def UploadPoint.aborts (e : UploadEvent) : UploadPoint → Prop
  | .commit _ _ pending =>
      e.commit_ok = true → pending.placed.physical_created = true ∧ e.failpoint = true
  | _ => True

section Moves

variable (key)

/-- The moves of an upload, with what they look at. Only the last changes rows. -/
inductive UploadMove (db : Db) (locked : ℕ → Bool) (args : UploadArgs) (e : UploadEvent) :
    UploadPoint → Db → UploadPoint → Prop
  | returns (point : UploadPoint) (db' : Db) (error : ServiceError) (hrows : SameRows db db')
      (hcommit : point.aborts e) :
      UploadMove db locked args e point db' (.returned (.error error))
  | starts (payload : UploadPayload) : UploadMove db locked args e .start db (.lock payload)
  | locks (user_id : ℕ) (payload : UploadPayload)
      (huser : user_id_subquery key db args.owner = some user_id)
      (hfree : locked user_id = false) :
      UploadMove db locked args e (.lock payload) db (.usage user_id payload)
  | allows (user_id : ℕ) (payload : UploadPayload)
      (hquota : ∃ status error, evaluate_upload_quota payload.size
        (if payload.size < 0 then 0 else fetch_user_storage_usage key db args.owner) args.quota =
          (true, status, error) ∧ status.allowed = true) :
      UploadMove db locked args e (.usage user_id payload) db (.folder user_id payload db)
  | finds_folder (user_id : ℕ) (payload : UploadPayload) (snapshot : Db) :
      UploadMove db locked args e (.folder user_id payload snapshot) db
        (.insert user_id payload snapshot)
  | inserts (user_id : ℕ) (payload payload' : UploadPayload) (snapshot db' : Db)
      (pending : Pending) (hrows : SameRows db db') (hsize : payload'.size = payload.size)
      (hnew : ∀ row ∈ pending.rows, row.file_size = payload.size ∧
        row.folder_id = nullable_id_value payload.folder_id ∧ row.deleted_at = none)
      (howner : e.cut = none → ∃ row, pending.rows = [row] ∧
        user_id_subquery key db args.owner = some row.user_id) :
      UploadMove db locked args e (.insert user_id payload snapshot) db'
        (.commit user_id payload' pending)
  | commits (user_id : ℕ) (payload : UploadPayload) (pending : Pending) (result : UploadResult)
      (hcommit : e.commit_ok = true)
      (hpoint : ¬ (pending.placed.physical_created = true ∧ e.failpoint = true)) :
      UploadMove db locked args e (.commit user_id payload pending) (commit_upload db pending)
        (.returned (.ok result))

variable {key} {sha256_hex : Bytes → Bytes}

theorem upload_step_move {db : Db} {d : Disk} {locked : ℕ → Bool} {args : UploadArgs}
    {e : UploadEvent} {stale : Bool} {point : UploadPoint} {r : Db × Disk × UploadPoint}
    (h : upload_step key sha256_hex db d locked args e stale point = some r) :
    UploadMove key db locked args e point r.1 r.2.2 := by
  have hsame := SameRows.refl db
  cases point with
  | start =>
    simp only [upload_step] at h
    split at h <;> obtain rfl := Option.some.inj h
    · exact .returns _ _ _ hsame trivial
    · exact .starts _
  | lock payload =>
    simp only [upload_step] at h
    split at h
    · cases h
      exact .returns _ _ _ hsame trivial
    split at h
    · cases h
      exact .returns _ _ _ hsame trivial
    rename_i user_id huser
    split at h
    · contradiction
    · rename_i hfree
      cases h
      exact .locks user_id payload huser (by simpa using hfree)
  | usage user_id payload =>
    simp only [upload_step] at h
    split at h
    · cases h
      exact .returns _ _ _ hsame trivial
    split at h
    · cases h
      exact .returns _ _ _ hsame trivial
    rename_i status quota_error hquota
    split at h
    · cases h
      exact .returns _ _ _ hsame trivial
    · rename_i hallowed
      cases h
      exact .allows user_id payload ⟨status, quota_error, hquota, by simpa using hallowed⟩
  | folder user_id payload snapshot =>
    simp only [upload_step] at h
    split at h <;> obtain rfl := Option.some.inj h
    · exact .returns _ _ _ hsame trivial
    · exact .returns _ _ _ hsame trivial
    · exact .finds_folder user_id payload snapshot
  | insert user_id payload snapshot =>
    simp only [upload_step] at h
    split at h
    · cases h
      exact .returns _ _ _ hsame trivial
    rename_i placed hplaced
    split at h
    · cases h
      exact .returns _ _ _ (.rollback db placed.db) trivial
    rename_i view file_id hinsert
    cases h
    obtain ⟨rows, -, hnew, howner, -, hview⟩ := insert_file_rows (executed_ok hinsert)
    have husers : placed.db.users = db.users := by
      rcases place_physical_file_rows hplaced with ⟨-, hdb⟩ | ⟨-, p, hdb⟩ <;> rw [hdb]
    have hpending : (pending_rows placed view file_id).rows = rows := by
      dsimp only at hview
      rw [pending_rows, hview]
      exact List.drop_left
    refine .inserts user_id payload _ snapshot _ _ (.rollback db view) rfl ?_ ?_
    · rw [hpending]
      intro row hrow
      have heq := hnew row hrow
      exact ⟨congrArg FileRow.file_size heq, congrArg FileRow.folder_id heq,
        congrArg FileRow.deleted_at heq⟩
    · rw [hpending]
      intro hwhole
      obtain ⟨owner_id, huser, hrows⟩ := howner hwhole
      rw [user_id_subquery, husers] at huser
      exact ⟨_, hrows, huser⟩
  | commit user_id payload pending =>
    simp only [upload_step] at h
    split at h
    · rename_i hpoint
      cases h
      exact .returns _ _ _ hsame fun _ => hpoint
    rename_i hpoint
    split at h
    · rename_i hcommit
      cases h
      exact .returns _ _ _ hsame fun hok => absurd hcommit (by simp [hok])
    · rename_i hcommit
      cases h
      exact .commits user_id payload pending _ (by simpa using hcommit) hpoint
  | returned reply => contradiction

end Moves

/-! ## Any number of requests -/

structure Upload where
  args : UploadArgs
  point : UploadPoint

/-- The committed tables, the disk, the next folder id, and every request ever made. -/
structure World where
  db : Db
  disk : Disk
  next_folder_id : ℤ
  uploads : List Upload
  requests : List Request
  folder_requests : List FolderRequest

/-- A request starts or makes its next step, or the parser of some upload spools a
file. The file requests are those that `FileStore.started` knows. -/
inductive Label
  | create_uploaded_file (args : UploadArgs)
  | upload_step (i : ℕ) (e : UploadEvent) (stale : Bool)
  | file_request (l : FileStore.Label)
  | request_step (i : ℕ) (e : Event)
  | create_folder (owner : Bytes) (parent_id : ℤ) (name : Bytes)
  | delete_empty_folder (owner : Bytes) (folder_id : ℤ)
  | folder_step (i : ℕ) (e : Event)
  | spool (temp_path content : Bytes)

section System

variable (key sha256_hex)

/-- The users that another upload than `i` has locked. -/
def locked_by_others (uploads : List Upload) (i : ℕ) (user_id : ℕ) : Bool :=
  (uploads.eraseIdx i).any fun upload => decide (upload.point.holds = some user_id)

def step (w : World) : Label → Option World
  | .create_uploaded_file args => some { w with uploads := w.uploads ++ [⟨args, .start⟩] }
  | .upload_step i e stale =>
      match w.uploads[i]? with
      | none => none
      | some upload =>
          (upload_step key sha256_hex w.db w.disk (locked_by_others w.uploads i) upload.args e stale
            upload.point).map fun r =>
            { w with
              db := r.1, disk := r.2.1, uploads := w.uploads.set i { upload with point := r.2.2 } }
  | .file_request l =>
      (started l).map fun request => { w with requests := w.requests ++ [request] }
  | .request_step i e =>
      match w.requests[i]? with
      | none => none
      | some request =>
          (request_step key w.db w.disk e request).map fun r =>
            { w with db := r.1, disk := r.2.1, requests := w.requests.set i r.2.2 }
  | .create_folder owner parent_id name =>
      some { w with folder_requests := w.folder_requests ++ [create_folder owner parent_id name] }
  | .delete_empty_folder owner folder_id =>
      some { w with folder_requests := w.folder_requests ++ [delete_empty_folder owner folder_id] }
  | .folder_step i e =>
      match w.folder_requests[i]? with
      | none => none
      | some request =>
          (folder_step key w.db w.next_folder_id e request).map fun r =>
            { w with
              db := r.1, next_folder_id := r.2.1
              folder_requests := w.folder_requests.set i r.2.2 }
  | .spool temp_path content =>
      some { w with
        disk := { w.disk with temp := Function.update w.disk.temp temp_path (some content) } }

/-- No request yet; any tables that keep their checks and the key of `folders`. -/
def system : System World Label where
  init w := w.uploads = [] ∧ w.requests = [] ∧ w.folder_requests = [] ∧
    (∀ f ∈ w.db.files, 0 ≤ f.file_size) ∧ (w.db.folders.map FolderRow.id).Nodup ∧
    ∀ folder ∈ w.db.folders, folder.id < w.next_folder_id
  step := step key sha256_hex

end System

end AtlasWebServer.Drive
