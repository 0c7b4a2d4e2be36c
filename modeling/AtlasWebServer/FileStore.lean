/-
Uploaded files: the statements of `repo/mysql/file_repository.cpp`, the transaction
of `create_uploaded_file` (`service/files/upload_service.cpp`), and the requests of
`service/files/file_service.cpp` that change or remove a file.

A transaction, or a statement of its own, is one step. `create_uploaded_file` is
one transaction with its disk operations inside; an aborted one leaves the tables
as they were (the `AUTO_INCREMENT` counters do not go back) and the disk as it has
become. `hard_delete_file` is one transaction, and the unlink after its commit is
another step, which other requests may come between.

The environment decides, in the event of a step, which statements fail. Disk
operations succeed. Strings are compared by the server through `key`, the
collation's sort key, except digests, which are lower-case hex on both sides.

`names` is a history variable: every stored name an `INSERT` into `physical_files`
has ever been executed with. No step reads it.
-/
import AtlasWebServer.FileNames
import AtlasWebServer.StepSystem
import AtlasWebServer.Tables

set_option autoImplicit false

namespace AtlasWebServer.FileStore

open StepSystem Bytes Tables FileNames

/-! ## The tables and the disk -/

/-- The tables, with the counters behind `AUTO_INCREMENT`. -/
structure Db where
  users : List UserRow
  folders : List FolderRow
  files : List FileRow
  physical_files : List PhysicalFileRow
  next_file_id : ℤ
  next_physical_id : ℤ

/-- `uploads/` by stored name, and the spool files by path. -/
structure Disk where
  uploads : Bytes → Option Bytes
  temp : Bytes → Option Bytes

def Disk.file_exists (d : Disk) (stored_name : Bytes) : Bool := (d.uploads stored_name).isSome

def Disk.write_file (d : Disk) (stored_name content : Bytes) : Disk :=
  { d with uploads := Function.update d.uploads stored_name (some content) }

def Disk.remove_file (d : Disk) (stored_name : Bytes) : Disk :=
  { d with uploads := Function.update d.uploads stored_name none }

def Disk.remove_temp (d : Disk) (temp_path : Bytes) : Disk :=
  { d with temp := Function.update d.temp temp_path none }

/-- `move_file_or_copy` of a spool file to an upload. -/
def Disk.move_file_or_copy (d : Disk) (temp_path stored_name : Bytes) : Disk :=
  { uploads := Function.update d.uploads stored_name (d.temp temp_path)
    temp := Function.update d.temp temp_path none }

inductive ErrorCode
  | None | InvalidArgument | Forbidden | NotFound | Conflict | Gone | TooManyRequests
  | PayloadTooLarge | Internal
  deriving DecidableEq

/-- `ServiceError`; the default is what an error the code does not set looks like. -/
structure ServiceError where
  code : ErrorCode
  message : Bytes
  deriving DecidableEq

def ServiceError.unset : ServiceError := ⟨.Internal, []⟩

structure ManagedFileRecord where
  file_id : ℤ
  folder_id : ℤ
  physical_id : ℤ
  file_size : ℤ
  is_public : Bool
  is_deleted : Bool
  owner : Bytes
  stored_name : Bytes
  original_name : Bytes
  content_type : Bytes
  content_sha256 : Bytes
  deriving DecidableEq

/-! ## Statements -/

variable {K : Type} [DecidableEq K] {key : Bytes → K} {sha256_hex : Bytes → Bytes}

section Statements

variable (key)

/-- `user_id_subquery`: the id of the enabled user with this name. -/
def user_id_subquery (db : Db) (username : Bytes) : Option ℕ :=
  (db.users.find? fun u => key u.username = key username ∧ !u.disabled).map UserRow.id

def nullable_id_value (id : ℤ) : Option ℤ := if id > 0 then some id else none

/-- `fetch_file_record_impl`: the row joined with its owner and its physical file. -/
def fetch_file_record_impl (db : Db) (file_id : ℤ) (include_deleted : Bool) :
    Option ManagedFileRecord := do
  let f ← db.files.find? fun f => f.id = file_id ∧ (include_deleted ∨ f.deleted_at = none)
  let u ← db.users.find? fun u => u.id = f.user_id
  let p ← db.physical_files.find? fun p => p.id = f.physical_id
  some
    { file_id := file_id
      folder_id := f.folder_id.getD 0
      physical_id := f.physical_id
      file_size := f.file_size
      is_public := f.is_public
      is_deleted := f.deleted_at.isSome
      owner := u.username
      stored_name := if p.stored_name = [] then f.stored_name else p.stored_name
      original_name := f.original_name
      content_type := f.content_type
      content_sha256 := f.content_sha256 }

def lock_user_for_update (db : Db) (owner : Bytes) : Bool :=
  decide (owner ≠ []) && (user_id_subquery key db owner).isSome

/-- `fetch_physical_file_by_sha256_for_update`, with the check of
`fill_physical_record_from_row`. -/
def fetch_physical_file_by_sha256 (db : Db) (sha256 : Bytes) : Option PhysicalFileRow :=
  if sha256 = [] then none
  else (db.physical_files.find? fun p => p.sha256 = sha256).filter fun p =>
    decide (p.id > 0) && decide (p.stored_name ≠ [])

/-- `insert_physical_file`: the new tables and id, or the error number. The row has
to keep the two unique keys. -/
def insert_physical_file (db : Db) (sha256 stored_name : Bytes) (file_size : ℤ) :
    Except ℕ (Db × ℤ) :=
  if sha256 = [] ∨ stored_name = [] then .error 0
  else if db.physical_files.any fun p =>
      decide (p.sha256 = sha256) || decide (key p.stored_name = key stored_name) then .error 1062
  else
    let id := db.next_physical_id
    .ok ({ db with
            physical_files := db.physical_files ++ [⟨id, sha256, stored_name, file_size, 0⟩]
            next_physical_id := id + 1 }, id)

/-- `delete_physical_file_if_unreferenced`: the new table and `deleted`. -/
def delete_physical_file_if_unreferenced (db : Db) (physical_id : ℤ) : Db × Bool :=
  let unreferenced := fun p : PhysicalFileRow =>
    decide (p.id = physical_id) && decide (p.ref_count = 0) &&
      !(db.files.any fun f => decide (f.physical_id = physical_id))
  ({ db with physical_files := db.physical_files.filter fun p => !unreferenced p },
    db.physical_files.any unreferenced)

/-- `original_name_exists`, the `SELECT` of it. -/
def original_name_exists (db : Db) (owner original_name : Bytes) (folder_id ignore_file_id : ℤ) :
    Bool :=
  db.files.any fun f =>
    decide (some f.user_id = user_id_subquery key db owner) &&
    decide (key f.original_name = key original_name) &&
    decide (f.folder_id = nullable_id_value folder_id) &&
    decide (f.deleted_at = none) &&
    (decide (ignore_file_id ≤ 0) || decide (f.id ≠ ignore_file_id))

/-- `trg_files_after_insert`, fired once for each of the new rows. -/
def trg_files_after_insert (db : Db) (physical_id : ℤ) (rows : ℕ) : Db :=
  { db with
    physical_files := db.physical_files.map fun p =>
      if p.id = physical_id then { p with ref_count := p.ref_count + rows } else p }

def trg_files_after_delete (db : Db) (physical_id : ℤ) : Db :=
  { db with
    physical_files := db.physical_files.map fun p =>
      if p.id = physical_id then { p with ref_count := max (p.ref_count - 1) 0 } else p }

structure FileCreateRecord where
  owner : Bytes
  stored_name : Bytes
  physical_id : ℤ
  original_name : Bytes
  content_type : Bytes
  folder_id : ℤ
  file_size : ℤ
  is_public : Bool
  sha256 : Bytes
  deriving DecidableEq

def active_name_taken (db : Db) (user_id : ℕ) (folder_id : Option ℤ) (original_name : Bytes)
    (deleted_marker : ℤ) (but : ℤ) : Bool :=
  db.files.any fun f =>
    decide (f.id ≠ but) && decide (f.user_id = user_id) &&
    decide (f.folder_id.getD 0 = folder_id.getD 0) &&
    decide (key f.original_name = key original_name) &&
    decide (f.deleted_marker = deleted_marker)

def file_row (record : FileCreateRecord) (now id : ℤ) (user_id : ℕ) : FileRow where
  id := id
  user_id := user_id
  stored_name := record.stored_name
  physical_id := record.physical_id
  original_name := record.original_name
  content_type := record.content_type
  folder_id := nullable_id_value record.folder_id
  file_size := record.file_size
  is_public := record.is_public
  content_sha256 := record.sha256
  deleted_marker := 0
  deleted_at := none
  created_at := now

/-- The rows for some users, with consecutive ids. -/
def file_rows (record : FileCreateRecord) (now : ℤ) : ℤ → List ℕ → List FileRow
  | _, [] => []
  | id, user_id :: users => file_row record now id user_id :: file_rows record now (id + 1) users

def append_files (db : Db) (physical_id : ℤ) (rows : List FileRow) : Db :=
  trg_files_after_insert
    { db with files := db.files ++ rows, next_file_id := db.next_file_id + rows.length }
    physical_id rows.length

/-- The users the `SELECT` of `insert_file` finds: the owner, if the statement is whole. If it
does not fit its 2048 bytes, the end of its `WHERE` clause is cut off, or all of it, and `cut`
is the condition that is left. -/
def selected_users (db : Db) (owner : Bytes) (cut : Option (UserRow → Bool)) : List ℕ :=
  match cut with
  | none => (user_id_subquery key db owner).toList
  | some condition => (db.users.filter condition).map UserRow.id

/-- `insert_file`: the new tables and the first new id, or the error number. Every row has
to keep the unique key and the two foreign keys. -/
def insert_file (db : Db) (record : FileCreateRecord) (now : ℤ) (cut : Option (UserRow → Bool)) :
    Except ℕ (Db × ℤ) :=
  if record.owner = [] ∨ record.stored_name = [] ∨ record.original_name = [] then .error 0
  else
    let users := selected_users key db record.owner cut
    let folder_id := nullable_id_value record.folder_id
    if users = [] then .error 0
    else if users.any fun user_id =>
        active_name_taken key db user_id folder_id record.original_name 0 0 then .error 1062
    else if (db.physical_files.all fun p => decide (p.id ≠ record.physical_id)) ∨
        (folder_id.any fun id => db.folders.all fun folder => decide (folder.id ≠ id)) then
      .error 1452
    else
      .ok (append_files db record.physical_id (file_rows record now db.next_file_id users),
        db.next_file_id)

def fetch_user_storage_usage (db : Db) (owner : Bytes) : ℤ :=
  ((db.files.filter fun f => decide (some f.user_id = user_id_subquery key db owner)).map
    FileRow.file_size).sum

def folder_row_exists (db : Db) (owner : Bytes) (folder_id : ℤ) : Bool :=
  db.folders.any fun folder =>
    decide (folder.id = folder_id) &&
    decide (some folder.user_id = user_id_subquery key db owner) &&
    decide (folder.deleted_at = none)

/-- `folder_exists`: `exists`, or `none` where it returns false. -/
def folder_exists (db : Db) (owner : Bytes) (folder_id : ℤ) (sql_ok : Bool) : Option Bool :=
  if folder_id = 0 then some true
  else if owner = [] ∨ folder_id < 0 ∨ sql_ok = false then none
  else some (folder_row_exists key db owner folder_id)

/-- `fetch_trash_file_ids`, newest deletion first. -/
def fetch_trash_file_ids (db : Db) (owner : Bytes) : List ℤ :=
  (((db.files.filter fun f =>
      decide (some f.user_id = user_id_subquery key db owner) && f.deleted_at.isSome).insertionSort
    fun a b => a.deleted_at.getD 0 > b.deleted_at.getD 0 ∨
      a.deleted_at.getD 0 = b.deleted_at.getD 0 ∧ a.id ≥ b.id).map FileRow.id).filter fun id =>
    decide (id > 0)

/-- An `UPDATE` of the rows of `files` that `selects` picks. -/
def update_files (db : Db) (selects : FileRow → Bool) (set : FileRow → FileRow) : Db :=
  { db with files := db.files.map fun f => if selects f then set f else f }

def soft_delete_row (db : Db) (file_id now : ℤ) : Db :=
  update_files db (fun f => decide (f.id = file_id) && decide (f.deleted_at = none)) fun f =>
    { f with deleted_at := some now, deleted_marker := f.id, is_public := false }

/-- The rows the `UPDATE` of `repo_mysql::restore_file` selects. -/
def restorable (db : Db) (owner : Bytes) (file_id : ℤ) (f : FileRow) : Bool :=
  decide (f.id = file_id) && decide (some f.user_id = user_id_subquery key db owner) &&
    f.deleted_at.isSome

/-- `repo_mysql::restore_file`: `none` where it returns false. -/
def restore_row (db : Db) (owner : Bytes) (file_id folder_id : ℤ) (original_name : Bytes) :
    Option Db :=
  if owner = [] ∨ file_id ≤ 0 ∨ folder_id < 0 ∨ original_name = [] then none
  else
    let selected := db.files.filter (restorable key db owner file_id)
    if selected = [] then none
    else if selected.any fun f =>
        active_name_taken key db f.user_id (nullable_id_value folder_id) original_name 0 f.id then
      none
    else
      some (update_files db (restorable key db owner file_id) fun f =>
        { f with deleted_at := none, deleted_marker := 0, folder_id := nullable_id_value folder_id
                 original_name := original_name, is_public := false })

def update_visibility_row (db : Db) (file_id : ℤ) (is_public : Bool) : Db :=
  update_files db (fun f => decide (f.id = file_id)) fun f => { f with is_public := is_public }

/-- The rows the `DELETE` of `repo_mysql::hard_delete_file` selects. -/
def hard_deletable (db : Db) (owner : Bytes) (file_id : ℤ) (f : FileRow) : Bool :=
  decide (f.id = file_id) && decide (some f.user_id = user_id_subquery key db owner) &&
    f.deleted_at.isSome

/-- `repo_mysql::hard_delete_file`: `none` where it returns false; the delete
trigger fires for the row. -/
def hard_delete_row (db : Db) (owner : Bytes) (file_id : ℤ) : Option Db :=
  if owner = [] ∨ file_id ≤ 0 then none
  else
    (db.files.find? (hard_deletable key db owner file_id)).map fun f =>
      trg_files_after_delete
        { db with files := db.files.filter fun g => !hard_deletable key db owner file_id g }
        f.physical_id

end Statements

/-! ## `create_uploaded_file` -/

structure UploadPayload where
  filename : Bytes
  content : Bytes
  content_type : Bytes
  temp_path : Bytes
  sha256 : Bytes
  folder_id : ℤ
  size : ℤ
  use_temp_file : Bool
  deriving DecidableEq

structure UploadQuota where
  max_single_file_bytes : ℤ
  max_total_bytes : ℤ
  deriving DecidableEq

structure UploadQuotaStatus where
  requested_bytes : ℤ
  used_bytes : ℤ
  remaining_bytes : ℤ
  max_single_file_bytes : ℤ
  max_total_bytes : ℤ
  allowed : Bool
  reason : Bytes
  deriving DecidableEq

structure UploadResult where
  file_id : ℤ
  folder_id : ℤ
  physical_id : ℤ
  filename : Bytes
  size : ℤ
  is_public : Bool
  deduplicated : Bool
  sha256 : Bytes
  deriving DecidableEq

/-- The arguments of a `create_uploaded_file` call. -/
structure UploadArgs where
  owner : Bytes
  stored_name_prefix : Bytes
  payload : UploadPayload
  is_public : Bool
  quota : UploadQuota
  deriving DecidableEq

/-- Which statements of the transaction are executed. An `INSERT` may fail with an
error number of its own; `cut` is what `insert_file` has left of its `WHERE` clause, if the
clause does not fit; `failpoint` is `TWS_TEST_FAIL_UPLOAD_BEFORE_COMMIT`. -/
structure UploadEvent where
  begin_ok : Bool
  lock_ok : Bool
  usage_ok : Bool
  folder_ok : Bool
  name_ok : ℕ → Bool
  fetch_ok : Bool
  insert_physical_errno : Option ℕ
  refetch_ok : Bool
  insert_file_errno : Option ℕ
  cut : Option (UserRow → Bool)
  failpoint : Bool
  commit_ok : Bool
  now : ℤ

def kStoredNamePrefixLength : ℕ := 24

/-- `evaluate_upload_quota`: its return value, the status and the error. -/
def evaluate_upload_quota (requested_bytes used_bytes : ℤ) (quota : UploadQuota) :
    Bool × UploadQuotaStatus × ServiceError :=
  let status : UploadQuotaStatus :=
    ⟨requested_bytes, used_bytes, 0, quota.max_single_file_bytes, quota.max_total_bytes, false, []⟩
  if requested_bytes < 0 then
    (false, { status with reason := lit "invalid file size" },
      ⟨.InvalidArgument, lit "invalid file size"⟩)
  else
    let remaining :=
      if quota.max_total_bytes > 0 ∧ used_bytes < quota.max_total_bytes then
        quota.max_total_bytes - used_bytes else 0
    let status := { status with remaining_bytes := remaining }
    if quota.max_single_file_bytes > 0 ∧ requested_bytes > quota.max_single_file_bytes then
      let reason := lit "file exceeds single file limit of " ++
        to_string quota.max_single_file_bytes ++ lit " bytes"
      (true, { status with reason }, ⟨.PayloadTooLarge, reason⟩)
    else if quota.max_total_bytes > 0 ∧ requested_bytes > remaining then
      (true, { status with reason := lit "user storage quota exceeded" },
        ⟨.Conflict, lit "user storage quota exceeded"⟩)
    else (true, { status with allowed := true }, .unset)

/-- A statement that fails with an error of its own, or is executed. -/
def executed {α : Type} (errno : Option ℕ) (statement : Except ℕ α) : Except ℕ α :=
  match errno with
  | some errno => .error errno
  | none => statement

section Upload

variable (key sha256_hex)

/-- The candidate loop of `ensure_unique_owned_filename`. -/
def unique_filename_loop (db : Db) (owner sanitized : Bytes) (folder_id ignore_file_id : ℤ)
    (name_ok : ℕ → Bool) : ℕ → ℕ → Bytes
  | 0, _ => duplicate_filename_candidate sanitized 1000
  | fuel + 1, index =>
      let candidate := duplicate_filename_candidate sanitized index
      if owner = [] ∨ candidate = [] ∨ name_ok index = false then candidate
      else if original_name_exists key db owner candidate folder_id ignore_file_id then
        unique_filename_loop db owner sanitized folder_id ignore_file_id name_ok fuel (index + 1)
      else candidate

/-- The name `ensure_unique_owned_filename` starts from. -/
def sanitized_or_default (requested_name : Bytes) : Bytes :=
  let sanitized := sanitize_filename requested_name
  if sanitized = [] then lit "file.txt" else sanitized

/-- `ensure_unique_owned_filename`, inside one transaction. -/
def ensure_unique_owned_filename (db : Db) (owner requested_name : Bytes)
    (folder_id ignore_file_id : ℤ) (name_ok : ℕ → Bool) : Bytes :=
  unique_filename_loop key db owner (sanitized_or_default requested_name) folder_id ignore_file_id
    name_ok 1000 0

theorem unique_filename_loop_candidate (db : Db) (owner sanitized : Bytes)
    (folder_id ignore_file_id : ℤ) (name_ok : ℕ → Bool) (fuel index : ℕ)
    (hindex : fuel + index ≤ 1000) :
    ∃ i ≤ 1000, unique_filename_loop key db owner sanitized folder_id ignore_file_id name_ok fuel
      index = duplicate_filename_candidate sanitized i := by
  induction fuel generalizing index with
  | zero => exact ⟨1000, le_rfl, rfl⟩
  | succ fuel ih =>
    rw [unique_filename_loop]
    split_ifs
    · exact ⟨index, by omega, rfl⟩
    · exact ih (index + 1) (by omega)
    · exact ⟨index, by omega, rfl⟩

theorem ensure_unique_candidate (db : Db) (owner requested_name : Bytes)
    (folder_id ignore_file_id : ℤ) (name_ok : ℕ → Bool) :
    ∃ i ≤ 1000, ensure_unique_owned_filename key db owner requested_name folder_id ignore_file_id
      name_ok = duplicate_filename_candidate (sanitized_or_default requested_name) i :=
  unique_filename_loop_candidate key db owner _ folder_id ignore_file_id name_ok 1000 0 le_rfl

/-- The payload with the digest of its inline content, if it has no digest yet. -/
def payload_with_digest (payload : UploadPayload) : UploadPayload :=
  if payload.sha256 = [] ∧ payload.content ≠ [] then
    { payload with sha256 := sha256_hex payload.content }
  else payload

/-- `create_uploaded_file` up to the file name: the payload with its digest and its
final name, or the error it returns with. -/
def upload_checks (db : Db) (args : UploadArgs) (e : UploadEvent) :
    Except ServiceError UploadPayload :=
  let payload := payload_with_digest sha256_hex args.payload
  if payload.sha256 = [] ∨ e.begin_ok = false then .error .unset
  else if e.lock_ok = false ∨ lock_user_for_update key db args.owner = false then .error .unset
  else if payload.size ≥ 0 ∧ e.usage_ok = false then .error .unset
  else
    let used := if payload.size < 0 then 0 else fetch_user_storage_usage key db args.owner
    match evaluate_upload_quota payload.size used args.quota with
    | (false, _, _) => .error .unset
    | (true, status, quota_error) =>
        if status.allowed = false then .error quota_error
        else
          match folder_exists key db args.owner payload.folder_id e.folder_ok with
          | none => .error .unset
          | some false => .error ⟨.NotFound, lit "folder not found"⟩
          | some true =>
              .ok { payload with
                filename := ensure_unique_owned_filename key db args.owner payload.filename
                  payload.folder_id 0 e.name_ok }

def materialize_upload_payload (d : Disk) (payload : UploadPayload) (stored_name : Bytes) : Disk :=
  if payload.use_temp_file then d.move_file_or_copy payload.temp_path stored_name
  else d.write_file stored_name payload.content

/-- What happens to the payload when its digest has a row already: nothing but the
spool file's removal when the upload is on disk, a repair when it is not. The flag
is `deduplicated`. -/
def reuse_physical_file (d : Disk) (payload : UploadPayload) (p : PhysicalFileRow) : Disk × Bool :=
  if d.file_exists p.stored_name then
    (if payload.use_temp_file then d.remove_temp payload.temp_path else d, true)
  else (materialize_upload_payload d payload p.stored_name, false)

/-- The stored name of a new physical file. -/
def new_stored_name (stored_name_start : Bytes) (payload : UploadPayload) : Bytes :=
  stored_name_start.take kStoredNamePrefixLength ++
    (if payload.sha256 = [] then [] else lit "_" ++ payload.sha256.take 12) ++
    file_extension payload.filename

/-- Where the payload went: the state so far, the physical file's id and name, and
the two flags of the source. `names` are the stored names inserted on the way. -/
structure Placed where
  db : Db
  disk : Disk
  physical_id : ℤ
  stored_name : Bytes
  deduplicated : Bool
  physical_created : Bool
  names : List Bytes

/-- The payload is put behind an existing row. -/
def place_existing (db : Db) (d : Disk) (payload : UploadPayload) (p : PhysicalFileRow) : Placed :=
  let r := reuse_physical_file d payload p
  ⟨db, r.1, p.id, p.stored_name, r.2, false, []⟩

/-- The middle of `create_uploaded_file`: find or make the physical file. -/
def place_physical_file (db : Db) (d : Disk) (stored_name_start : Bytes)
    (payload : UploadPayload) (e : UploadEvent) : Option Placed :=
  match if e.fetch_ok then fetch_physical_file_by_sha256 db payload.sha256 else none with
  | some p => some (place_existing db d payload p)
  | none =>
      let stored_name := new_stored_name stored_name_start payload
      match executed e.insert_physical_errno
          (insert_physical_file key db payload.sha256 stored_name payload.size) with
      | .ok (db', id) =>
          some ⟨db', materialize_upload_payload d payload stored_name, id, stored_name, false, true,
            [stored_name]⟩
      | .error errno =>
          if errno = 1062 then
            (if e.refetch_ok then fetch_physical_file_by_sha256 db payload.sha256 else none).map
              (place_existing db d payload)
          else none

/-- `ROLLBACK`: the tables as they were; the counters do not go back. -/
def rollback (before after : Db) : Db :=
  { before with
    next_file_id := after.next_file_id
    next_physical_id := after.next_physical_id }

/-- The outcome of a `create_uploaded_file` call. -/
structure Uploaded where
  db : Db
  disk : Disk
  names : List Bytes
  result : Except ServiceError UploadResult

def file_record (args : UploadArgs) (payload : UploadPayload) (placed : Placed) :
    FileCreateRecord where
  owner := args.owner
  stored_name := placed.stored_name
  physical_id := placed.physical_id
  original_name := payload.filename
  content_type := payload.content_type
  folder_id := payload.folder_id
  file_size := payload.size
  is_public := args.is_public
  sha256 := payload.sha256

def insert_file_result (args : UploadArgs) (payload : UploadPayload) (placed : Placed)
    (e : UploadEvent) : Except ℕ (Db × ℤ) :=
  executed e.insert_file_errno
    (insert_file key placed.db (file_record args payload placed) e.now e.cut)

/-- The end of `create_uploaded_file`, from the `INSERT INTO files` on. -/
def finish_upload (db : Db) (args : UploadArgs) (payload : UploadPayload) (placed : Placed)
    (e : UploadEvent) : Uploaded :=
  match insert_file_result key args payload placed e with
  | .error errno =>
      let disk :=
        if placed.physical_created then placed.disk.remove_file placed.stored_name
        else placed.disk
      ⟨rollback db placed.db, disk, placed.names,
        .error (if errno = 1062 then ⟨.Conflict, lit "file name already exists"⟩ else .unset)⟩
  | .ok (db', file_id) =>
      if placed.physical_created ∧ e.failpoint then
        ⟨rollback db db', placed.disk.remove_file placed.stored_name, placed.names,
          .error ⟨.Conflict, lit "test failpoint before upload commit"⟩⟩
      else if e.commit_ok = false then
        ⟨rollback db db', placed.disk, placed.names, .error .unset⟩
      else
        ⟨db', placed.disk, placed.names,
          .ok ⟨file_id, payload.folder_id, placed.physical_id, payload.filename, payload.size,
            args.is_public, placed.deduplicated, payload.sha256⟩⟩

def create_uploaded_file (db : Db) (d : Disk) (args : UploadArgs) (e : UploadEvent) : Uploaded :=
  match upload_checks key sha256_hex db args e with
  | .error error => ⟨db, d, [], .error error⟩
  | .ok payload =>
      match place_physical_file key db d args.stored_name_prefix payload e with
      | none => ⟨db, d, [], .error .unset⟩
      | some placed => finish_upload key db args payload placed e

end Upload

variable {payload : UploadPayload}

theorem upload_checks_spec {db : Db} {args : UploadArgs} {e : UploadEvent}
    (h : upload_checks key sha256_hex db args e = .ok payload) :
    payload.sha256 ≠ [] ∧
      payload = { payload_with_digest sha256_hex args.payload with
        filename := ensure_unique_owned_filename key db args.owner
          (payload_with_digest sha256_hex args.payload).filename
          (payload_with_digest sha256_hex args.payload).folder_id 0 e.name_ok } := by
  unfold upload_checks at h
  generalize payload_with_digest sha256_hex args.payload = start at h ⊢
  dsimp only at h
  by_cases hbegin : start.sha256 = [] ∨ e.begin_ok = false
  · rw [if_pos hbegin] at h
    cases h
  rw [if_neg hbegin] at h
  by_cases hlock : e.lock_ok = false ∨ lock_user_for_update key db args.owner = false
  · rw [if_pos hlock] at h
    cases h
  rw [if_neg hlock] at h
  by_cases husage : start.size ≥ 0 ∧ e.usage_ok = false
  · rw [if_pos husage] at h
    cases h
  rw [if_neg husage] at h
  split at h
  · cases h
  by_cases hallowed : (‹UploadQuotaStatus›).allowed = false
  · rw [if_pos hallowed] at h
    cases h
  rw [if_neg hallowed] at h
  split at h
  · cases h
  · cases h
  · rw [Except.ok.injEq] at h
    rw [← h]
    exact ⟨fun hnil => hbegin (.inl hnil), rfl⟩

/-! ## What an upload can do -/

section Outcomes

variable {db : Db} {d : Disk} {args : UploadArgs} {e : UploadEvent}

theorem executed_ok {α : Type} {errno : Option ℕ} {statement : Except ℕ α} {a : α}
    (h : executed errno statement = .ok a) : statement = .ok a := by
  cases errno with
  | none => exact h
  | some errno => cases h

variable {sha256 : Bytes} {r : Db × ℤ}

theorem fetch_physical_spec {p : PhysicalFileRow}
    (h : fetch_physical_file_by_sha256 db sha256 = some p) :
    p ∈ db.physical_files ∧ p.sha256 = sha256 := by
  unfold fetch_physical_file_by_sha256 at h
  split_ifs at h with hempty
  obtain ⟨hfind, -⟩ := Option.filter_eq_some_iff.mp h
  exact ⟨List.mem_of_find?_eq_some hfind, by simpa using List.find?_some hfind⟩

theorem insert_physical_spec {stored_name : Bytes} {file_size : ℤ}
    (h : insert_physical_file key db sha256 stored_name file_size = .ok r) :
    stored_name ≠ [] ∧ (∀ p ∈ db.physical_files, p.stored_name ≠ stored_name) ∧
    r = ({ db with
            physical_files := db.physical_files ++
              [⟨db.next_physical_id, sha256, stored_name, file_size, 0⟩]
            next_physical_id := db.next_physical_id + 1 }, db.next_physical_id) := by
  unfold insert_physical_file at h
  split_ifs at h with hempty hdup
  refine ⟨fun hnil => hempty (.inr hnil), ?_, (Except.ok.inj h).symm⟩
  intro p hp hname
  refine hdup (List.any_eq_true.mpr ⟨p, hp, ?_⟩)
  rw [hname, decide_eq_true (rfl : key stored_name = key stored_name), Bool.or_true]

def place_new (db : Db) (d : Disk) (payload : UploadPayload) (stored_name : Bytes) : Placed where
  db := { db with
    physical_files := db.physical_files ++
      [⟨db.next_physical_id, payload.sha256, stored_name, payload.size, 0⟩]
    next_physical_id := db.next_physical_id + 1 }
  disk := materialize_upload_payload d payload stored_name
  physical_id := db.next_physical_id
  stored_name := stored_name
  deduplicated := false
  physical_created := true
  names := [stored_name]

theorem place_physical_file_cases {stored_name_start : Bytes} {placed : Placed}
    (h : place_physical_file key db d stored_name_start payload e = some placed) :
    (∃ p ∈ db.physical_files, p.sha256 = payload.sha256 ∧
        placed = place_existing db d payload p) ∨
      new_stored_name stored_name_start payload ≠ [] ∧
        (∀ p ∈ db.physical_files,
          p.stored_name ≠ new_stored_name stored_name_start payload) ∧
        placed = place_new db d payload (new_stored_name stored_name_start payload) := by
  unfold place_physical_file at h
  split at h
  · rename_i p hfetch
    split_ifs at hfetch
    obtain ⟨hp, hsha⟩ := fetch_physical_spec hfetch
    exact .inl ⟨p, hp, hsha, (Option.some.inj h).symm⟩
  dsimp only at h
  split at h
  · rename_i db' id hins
    obtain ⟨hne, hname, hr⟩ := insert_physical_spec (executed_ok hins)
    obtain ⟨rfl, rfl⟩ := Prod.mk.inj hr
    exact .inr ⟨hne, hname, (Option.some.inj h).symm⟩
  split_ifs at h
  · obtain ⟨p, hfetch, rfl⟩ := Option.map_eq_some_iff.mp h
    obtain ⟨hp, hsha⟩ := fetch_physical_spec hfetch
    exact .inl ⟨p, hp, hsha, rfl⟩
  · contradiction

theorem file_rows_spec {record : FileCreateRecord} {now id : ℤ} {users : List ℕ} :
    ∀ row ∈ file_rows record now id users, id ≤ row.id ∧ row.id < id + users.length ∧
      row = file_row record now row.id row.user_id := by
  induction users generalizing id with
  | nil => exact fun row hrow => absurd hrow List.not_mem_nil
  | cons user_id users ih =>
    intro row hrow
    rw [List.length_cons]
    push_cast
    rcases List.mem_cons.mp hrow with rfl | hrow
    · exact ⟨le_refl _, by show id < _; omega, rfl⟩
    · obtain ⟨hge, hlt, heq⟩ := ih row hrow
      exact ⟨by omega, by omega, heq⟩

theorem length_file_rows {record : FileCreateRecord} {now id : ℤ} {users : List ℕ} :
    (file_rows record now id users).length = users.length := by
  induction users generalizing id with
  | nil => rfl
  | cons user_id users ih => exact congrArg (· + 1) ih

theorem nodup_file_rows {record : FileCreateRecord} {now id : ℤ} {users : List ℕ} :
    ((file_rows record now id users).map FileRow.id).Nodup := by
  induction users generalizing id with
  | nil => exact List.nodup_nil
  | cons user_id users ih =>
    refine List.nodup_cons.mpr ⟨fun hmem => ?_, ih⟩
    obtain ⟨row, hrow, hid⟩ := List.mem_map.mp hmem
    have hge := (file_rows_spec row hrow).1
    have hid : row.id = id := hid
    omega

theorem insert_file_eq {record : FileCreateRecord} {now : ℤ} {cut : Option (UserRow → Bool)}
    (hins : insert_file key db record now cut = .ok r) :
    selected_users key db record.owner cut ≠ [] ∧
      (∃ p ∈ db.physical_files, p.id = record.physical_id) ∧
      r = (append_files db record.physical_id (file_rows record now db.next_file_id
        (selected_users key db record.owner cut)), db.next_file_id) := by
  unfold insert_file at hins
  dsimp only at hins
  split_ifs at hins with hargs hnobody htaken hforeign
  rw [Except.ok.injEq] at hins
  -- the foreign key gives the physical file
  have href : ∃ p ∈ db.physical_files, p.id = record.physical_id := by
    by_contra hnone
    refine hforeign (.inl (List.all_eq_true.mpr fun p hp => decide_eq_true ?_))
    exact fun hid => hnone ⟨p, hp, hid⟩
  exact ⟨hnobody, href, hins.symm⟩

/-- **What `create_uploaded_file` can do**: nothing; roll back, with or without removing the
new file; or insert the file. -/
inductive UploadOutcome (key : Bytes → K) (sha256_hex : Bytes → Bytes) (db : Db) (d : Disk)
    (args : UploadArgs) (e : UploadEvent) : Uploaded → Prop
  | refused (error : ServiceError) :
      UploadOutcome key sha256_hex db d args e ⟨db, d, [], .error error⟩
  | rolled_back {payload : UploadPayload} {placed : Placed} (after : Db) (disk : Disk)
      (error : ServiceError) (hchecks : upload_checks key sha256_hex db args e = .ok payload)
      (hplaced : place_physical_file key db d args.stored_name_prefix payload e = some placed)
      (hfile : placed.db.next_file_id ≤ after.next_file_id)
      (hphysical : placed.db.next_physical_id ≤ after.next_physical_id)
      (hdisk : disk = placed.disk ∨ placed.physical_created = true ∧
        disk = placed.disk.remove_file placed.stored_name) :
      UploadOutcome key sha256_hex db d args e
        ⟨rollback db after, disk, placed.names, .error error⟩
  | stored {payload : UploadPayload} {placed : Placed} (db' : Db) (file_id : ℤ)
      (result : UploadResult) (hchecks : upload_checks key sha256_hex db args e = .ok payload)
      (hplaced : place_physical_file key db d args.stored_name_prefix payload e = some placed)
      (hinsert : insert_file key placed.db (file_record args payload placed) e.now e.cut
        = .ok (db', file_id)) :
      UploadOutcome key sha256_hex db d args e ⟨db', placed.disk, placed.names, .ok result⟩

theorem create_uploaded_file_outcome (key : Bytes → K) (sha256_hex : Bytes → Bytes) (db : Db)
    (d : Disk) (args : UploadArgs) (e : UploadEvent) :
    UploadOutcome key sha256_hex db d args e (create_uploaded_file key sha256_hex db d args e) := by
  unfold create_uploaded_file
  split
  · exact .refused _
  rename_i payload hchecks
  split
  · exact .refused _
  rename_i placed hplaced
  unfold finish_upload
  split
  · refine .rolled_back placed.db _ _ hchecks hplaced (le_refl _) (le_refl _) ?_
    split_ifs with hcreated
    · exact .inr ⟨hcreated, rfl⟩
    · exact .inl rfl
  rename_i db' file_id hins
  have hinsert := executed_ok hins
  obtain ⟨-, -, hr⟩ := insert_file_eq hinsert
  obtain ⟨hdb, -⟩ := Prod.mk.inj hr
  have hfile : placed.db.next_file_id ≤ db'.next_file_id := by
    rw [hdb]
    exact le_add_of_nonneg_right (Int.natCast_nonneg _)
  have hphysical : placed.db.next_physical_id ≤ db'.next_physical_id := by
    rw [hdb]
    exact le_refl _
  split_ifs with hfail
  · exact .rolled_back db' _ _ hchecks hplaced hfile hphysical (.inr ⟨hfail.1, rfl⟩)
  · exact .rolled_back db' _ _ hchecks hplaced hfile hphysical (.inl rfl)
  · exact .stored db' file_id _ hchecks hplaced hinsert

end Outcomes

/-! ## The requests on a file that exists -/

/-- Where a request stands, with its locals. The points are named after the service
function and what it does next. -/
inductive Request
  | soft_delete_load (owner : Bytes) (file_id : ℤ)
  | soft_delete_update (file_id : ℤ)
  | restore_load (owner : Bytes) (file_id : ℤ)
  | restore_folder (owner : Bytes) (record : ManagedFileRecord)
  | restore_name (owner : Bytes) (record : ManagedFileRecord) (folder_id : ℤ) (index : ℕ)
  | restore_update (owner : Bytes) (file_id folder_id : ℤ) (restored_name : Bytes)
  | visibility_load (owner : Bytes) (file_id : ℤ) (is_public : Bool)
  | visibility_update (file_id : ℤ) (is_public : Bool)
  | hard_delete (owner : Bytes) (file_id : ℤ)
  | hard_delete_remove (stored_name : Bytes)
  | empty_trash_list (owner : Bytes)
  | empty_trash (owner : Bytes) (file_ids : List ℤ)
  | empty_trash_remove (owner : Bytes) (stored_name : Bytes) (file_ids : List ℤ)
  | returned (reply : Except ServiceError Unit)

/-- The disk removal a request still has to make. -/
def Request.pending : Request → Option Bytes
  | .hard_delete_remove stored_name => some stored_name
  | .empty_trash_remove _ stored_name _ => some stored_name
  | _ => none

/-- Which of the statements of a step are executed, and the server's clock. -/
structure Event where
  ok : ℕ → Bool
  now : ℤ

section Requests

variable (key)

def load_owned_file_record (db : Db) (owner : Bytes) (file_id : ℤ) (include_deleted : Bool)
    (e : Event) : Except ServiceError ManagedFileRecord :=
  match if e.ok 0 then fetch_file_record_impl db file_id include_deleted else none with
  | none => .error ⟨.NotFound, lit "file not found"⟩
  | some record =>
      if record.owner ≠ owner then .error ⟨.Forbidden, lit "forbidden"⟩ else .ok record

def validate_hard_delete_candidate (record : ManagedFileRecord) (owner : Bytes) :
    Except ServiceError Unit :=
  if record.owner ≠ owner then .error ⟨.Forbidden, lit "forbidden"⟩
  else if record.is_deleted = false then
    .error ⟨.Conflict, lit "file must be moved to recycle bin before permanent deletion"⟩
  else .ok ()

/-- The transaction of `hard_delete_file`: the tables, and the name to remove from
disk after the commit, if any. An aborted one changes nothing. -/
def hard_delete_transaction (db : Db) (owner : Bytes) (file_id : ℤ) (e : Event) :
    Db × Except ServiceError (Option Bytes) :=
  if e.ok 0 = false then (db, .error .unset)
  else
    match if e.ok 1 then fetch_file_record_impl db file_id true else none with
    | none => (db, .error ⟨.NotFound, lit "file not found"⟩)
    | some record =>
        match validate_hard_delete_candidate record owner with
        | .error error => (db, .error error)
        | .ok () =>
            match if e.ok 2 then hard_delete_row key db owner file_id else none with
            | none => (db, .error .unset)
            | some db' =>
                if record.physical_id > 0 ∧ e.ok 3 = false then (db, .error .unset)
                else
                  let r := if record.physical_id > 0 then
                      delete_physical_file_if_unreferenced db' record.physical_id
                    else (db', false)
                  if e.ok 4 = false then (db, .error .unset)
                  else (r.1, .ok (if r.2 ∧ record.stored_name ≠ [] then some record.stored_name
                                  else none))

def empty_trash_next (owner : Bytes) : List ℤ → Request
  | [] => .returned (.ok ())
  | file_ids => .empty_trash owner file_ids

def request_step (db : Db) (d : Disk) (e : Event) : Request → Option (Db × Disk × Request)
  | .soft_delete_load owner file_id =>
      match load_owned_file_record db owner file_id false e with
      | .error error => some (db, d, .returned (.error error))
      | .ok _ => some (db, d, .soft_delete_update file_id)
  | .soft_delete_update file_id =>
      if e.ok 0 then some (soft_delete_row db file_id e.now, d, .returned (.ok ()))
      else some (db, d, .returned (.error .unset))
  | .restore_load owner file_id =>
      match load_owned_file_record db owner file_id true e with
      | .error error => some (db, d, .returned (.error error))
      | .ok record =>
          if record.is_deleted = false then
            some (db, d, .returned (.error ⟨.Conflict, lit "file is not in recycle bin"⟩))
          else some (db, d, .restore_folder owner record)
  | .restore_folder owner record =>
      match folder_exists key db owner record.folder_id (e.ok 0) with
      | none => some (db, d, .returned (.error .unset))
      | some folder_exists =>
          some (db, d, .restore_name owner record (if folder_exists then record.folder_id else 0) 0)
  | .restore_name owner record folder_id index =>
      let sanitized := sanitized_or_default record.original_name
      let candidate := duplicate_filename_candidate sanitized index
      if owner = [] ∨ candidate = [] ∨ e.ok 0 = false ∨
          original_name_exists key db owner candidate folder_id record.file_id = false then
        some (db, d, .restore_update owner record.file_id folder_id candidate)
      else if index + 1 < 1000 then
        some (db, d, .restore_name owner record folder_id (index + 1))
      else
        some (db, d, .restore_update owner record.file_id folder_id
          (duplicate_filename_candidate sanitized 1000))
  | .restore_update owner file_id folder_id restored_name =>
      match if e.ok 0 then restore_row key db owner file_id folder_id restored_name else none with
      | none => some (db, d, .returned (.error .unset))
      | some db' => some (db', d, .returned (.ok ()))
  | .visibility_load owner file_id is_public =>
      match load_owned_file_record db owner file_id false e with
      | .error error => some (db, d, .returned (.error error))
      | .ok _ => some (db, d, .visibility_update file_id is_public)
  | .visibility_update file_id is_public =>
      if e.ok 0 then some (update_visibility_row db file_id is_public, d, .returned (.ok ()))
      else some (db, d, .returned (.error .unset))
  | .hard_delete owner file_id =>
      match hard_delete_transaction key db owner file_id e with
      | (db', .error error) => some (db', d, .returned (.error error))
      | (db', .ok none) => some (db', d, .returned (.ok ()))
      | (db', .ok (some stored_name)) => some (db', d, .hard_delete_remove stored_name)
  | .hard_delete_remove stored_name =>
      some (db, d.remove_file stored_name, .returned (.ok ()))
  | .empty_trash_list owner =>
      if owner = [] ∨ e.ok 0 = false then some (db, d, .returned (.error .unset))
      else some (db, d, empty_trash_next owner (fetch_trash_file_ids key db owner))
  | .empty_trash _ [] => some (db, d, .returned (.ok ()))
  | .empty_trash owner (file_id :: file_ids) =>
      match hard_delete_transaction key db owner file_id e with
      | (db', .error error) => some (db', d, .returned (.error error))
      | (db', .ok none) => some (db', d, empty_trash_next owner file_ids)
      | (db', .ok (some stored_name)) =>
          some (db', d, .empty_trash_remove owner stored_name file_ids)
  | .empty_trash_remove owner stored_name file_ids =>
      some (db, d.remove_file stored_name, empty_trash_next owner file_ids)
  | .returned _ => none

end Requests

/-! ## Any number of requests -/

/-- The tables, the disk, every request ever made that is not an upload, and the
history of stored names. -/
structure World where
  db : Db
  disk : Disk
  requests : List Request
  names : List Bytes

/-- An upload runs, a request starts, a request makes its next step, or the parser
of some upload spools a file. -/
inductive Label
  | create_uploaded_file (args : UploadArgs) (e : UploadEvent)
  | soft_delete_file (owner : Bytes) (file_id : ℤ)
  | restore_file (owner : Bytes) (file_id : ℤ)
  | update_file_visibility (owner : Bytes) (file_id : ℤ) (is_public : Bool)
  | hard_delete_file (owner : Bytes) (file_id : ℤ)
  | empty_trash (owner : Bytes)
  | step (i : ℕ) (e : Event)
  | spool (temp_path content : Bytes)

def started : Label → Option Request
  | .soft_delete_file owner file_id => some (.soft_delete_load owner file_id)
  | .restore_file owner file_id => some (.restore_load owner file_id)
  | .update_file_visibility owner file_id is_public =>
      some (.visibility_load owner file_id is_public)
  | .hard_delete_file owner file_id => some (.hard_delete owner file_id)
  | .empty_trash owner => some (.empty_trash_list owner)
  | _ => none

section System

variable (key sha256_hex)

def step (w : World) : Label → Option World
  | .create_uploaded_file args e =>
      let r := create_uploaded_file key sha256_hex w.db w.disk args e
      some { w with db := r.db, disk := r.disk, names := w.names ++ r.names }
  | .step i e =>
      match w.requests[i]? with
      | none => none
      | some request =>
          (request_step key w.db w.disk e request).map fun r =>
            { w with db := r.1, disk := r.2.1, requests := w.requests.set i r.2.2 }
  | .spool temp_path content =>
      some { w with
        disk := { w.disk with temp := Function.update w.disk.temp temp_path (some content) } }
  | l => (started l).map fun request => { w with requests := w.requests ++ [request] }

/-- Empty `files` and `physical_files`; any users, folders and disk. -/
def system : System World Label where
  init w := w.db.files = [] ∧ w.db.physical_files = [] ∧ w.db.next_file_id = 1 ∧
    w.db.next_physical_id = 1 ∧ w.requests = [] ∧ w.names = []
  step := step key sha256_hex

end System

end AtlasWebServer.FileStore
