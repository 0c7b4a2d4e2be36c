/-
The requests on files statement by statement: between any two statements of one
request, statements of others may be executed.

`soft_delete_file`, `restore_file` and `update_file_visibility` run without a
transaction, and their statements are the steps of `FileStore.request_step`. The
statements of the two transactions are steps of their own here: those of
`create_uploaded_file`, with the disk operations that follow a statement in its step,
and those of `hard_delete_file`. A transaction that is given up ends in a `ROLLBACK`,
which takes back what the transaction did, row by row. Nobody waits for a lock, so
there are more interleavings here than a server has.

A row of `files` is **consistent** if its three columns about deletion agree. The
statements keep that by their `WHERE` clauses, all but one: the `UPDATE` of
`update_file_visibility` does not ask whether the file is still there.
-/
import AtlasWebServer.FileStoreInvariant

set_option autoImplicit false

namespace AtlasWebServer.FileStatements

open StepSystem Bytes Tables FileNames FileStore List

variable {file_id : ℤ} {w : World} {l : Label}

/-! ## Transactions that are given up -/

/-- The row of `physical_files` and the rows of `files` an upload has inserted, the latter
by their ids and with their physical file. -/
structure Inserted where
  physical : Option ℤ
  files : List ℤ
  physical_id : ℤ

/-- `ROLLBACK` of an upload: the trigger's count goes back with the rows. -/
def undo_inserts (db : Db) (inserted : Inserted) : Db :=
  let db :=
    { db with
      files := db.files.filter fun f => f.id ∉ inserted.files
      physical_files := db.physical_files.map
        (set_ref_count inserted.physical_id (· - inserted.files.length)) }
  inserted.physical.elim db fun id =>
    { db with physical_files := db.physical_files.filter fun p => p.id ≠ id }

/-- The rows a `hard_delete_file` has deleted. -/
structure Deleted where
  file : Option FileRow
  physical : Option PhysicalFileRow

def undo_deletes (db : Db) (deleted : Deleted) : Db :=
  let db := deleted.physical.elim db fun p =>
    { db with physical_files := db.physical_files ++ [p] }
  deleted.file.elim db fun f =>
    { db with
      files := db.files ++ [f]
      physical_files := db.physical_files.map (set_ref_count f.physical_id (· + 1)) }

/-! ## `create_uploaded_file` -/

/-- The physical file an upload has settled on. -/
structure Spot where
  physical_id : ℤ
  stored_name : Bytes
  deduplicated : Bool
  physical_created : Bool

/-- What the transaction has inserted so far. -/
def Spot.inserted (spot : Spot) (files : List ℤ) : Inserted :=
  ⟨if spot.physical_created then some spot.physical_id else none, files, spot.physical_id⟩

/-- Where a call of `create_uploaded_file` stands: the statement it executes next. -/
inductive UploadPc
  | begin_transaction
  | lock_user (payload : UploadPayload)
  | storage_usage (payload : UploadPayload)
  | folder (payload : UploadPayload)
  | name (payload : UploadPayload) (index : ℕ)
  | fetch_physical (payload : UploadPayload)
  | insert_physical (payload : UploadPayload)
  | refetch_physical (payload : UploadPayload)
  | insert_file (payload : UploadPayload) (spot : Spot)
  | commit (payload : UploadPayload) (spot : Spot) (file_id : ℤ) (files : List ℤ)
  | rollback (inserted : Inserted) (error : ServiceError)
  | returned (reply : Except ServiceError UploadResult)

/-- What the server answers to a statement: whether it is executed, the error number if
not, and its clock. `cut` and `failpoint` are those of `UploadEvent`. -/
structure Answer where
  ok : Bool
  errno : ℕ
  now : ℤ
  cut : Option (UserRow → Bool)
  failpoint : Bool

def Answer.error (e : Answer) : Option ℕ := if e.ok then none else some e.errno

/-- A transaction that has changed nothing yet is given up. -/
def give_up (error : ServiceError) : UploadPc := .rollback ⟨none, [], 0⟩ error

variable {K : Type} [DecidableEq K] {key : Bytes → K} {sha256_hex : Bytes → Bytes}

section Steps

variable (key sha256_hex)

/-- The payload meets a row with its digest. -/
def existing_spot (d : Disk) (payload : UploadPayload) (p : PhysicalFileRow) : Disk × UploadPc :=
  let r := reuse_physical_file d payload p
  (r.1, .insert_file payload ⟨p.id, p.stored_name, r.2, false⟩)

/-- One statement of `create_uploaded_file`. -/
def upload_step (db : Db) (d : Disk) (args : UploadArgs) (e : Answer) :
    UploadPc → Option (Db × Disk × UploadPc)
  | .begin_transaction =>
      let payload := payload_with_digest sha256_hex args.payload
      if payload.sha256 = [] ∨ e.ok = false then some (db, d, .returned (.error .unset))
      else some (db, d, .lock_user payload)
  | .lock_user payload =>
      if e.ok = false ∨ lock_user_for_update key db args.owner = false then
        some (db, d, give_up .unset)
      else some (db, d, .storage_usage payload)
  | .storage_usage payload =>
      -- a negative size is refused without a look at the table
      if payload.size ≥ 0 ∧ e.ok = false then some (db, d, give_up .unset)
      else
        let used := if payload.size < 0 then 0 else fetch_user_storage_usage key db args.owner
        match evaluate_upload_quota payload.size used args.quota with
        | (false, _, _) => some (db, d, give_up .unset)
        | (true, status, quota_error) =>
            if status.allowed = false then some (db, d, give_up quota_error)
            else some (db, d, .folder payload)
  | .folder payload =>
      match folder_exists key db args.owner payload.folder_id e.ok with
      | none => some (db, d, give_up .unset)
      | some false => some (db, d, give_up ⟨.NotFound, lit "folder not found"⟩)
      | some true => some (db, d, .name payload 0)
  | .name payload index =>
      let sanitized := sanitized_or_default payload.filename
      let candidate := duplicate_filename_candidate sanitized index
      if args.owner = [] ∨ candidate = [] ∨ e.ok = false ∨
          original_name_exists key db args.owner candidate payload.folder_id 0 = false then
        some (db, d, .fetch_physical { payload with filename := candidate })
      else if index + 1 < 1000 then some (db, d, .name payload (index + 1))
      else
        some (db, d, .fetch_physical
          { payload with filename := duplicate_filename_candidate sanitized 1000 })
  | .fetch_physical payload =>
      match if e.ok then fetch_physical_file_by_sha256 db payload.sha256 else none with
      | some p => some (db, existing_spot d payload p)
      | none => some (db, d, .insert_physical payload)
  | .insert_physical payload =>
      let stored_name := new_stored_name args.stored_name_prefix payload
      match executed e.error
          (insert_physical_file key db payload.sha256 stored_name payload.size) with
      | .ok (db', id) =>
          some (db', materialize_upload_payload d payload stored_name,
            .insert_file payload ⟨id, stored_name, false, true⟩)
      | .error errno =>
          if errno = 1062 then some (db, d, .refetch_physical payload)
          else some (db, d, give_up .unset)
  | .refetch_physical payload =>
      match if e.ok then fetch_physical_file_by_sha256 db payload.sha256 else none with
      | some p => some (db, existing_spot d payload p)
      | none => some (db, d, give_up .unset)
  | .insert_file payload spot =>
      let file_record : FileCreateRecord :=
        { owner := args.owner, stored_name := spot.stored_name
          physical_id := spot.physical_id, original_name := payload.filename
          content_type := payload.content_type, folder_id := payload.folder_id
          file_size := payload.size, is_public := args.is_public, sha256 := payload.sha256 }
      let removed := if spot.physical_created then d.remove_file spot.stored_name else d
      match executed e.error (insert_file key db file_record e.now e.cut) with
      | .error errno =>
          some (db, removed, .rollback (spot.inserted [])
            (if errno = 1062 then ⟨.Conflict, lit "file name already exists"⟩ else .unset))
      | .ok (db', file_id) =>
          let files := (db'.files.drop db.files.length).map FileRow.id
          if spot.physical_created ∧ e.failpoint then
            some (db', removed, .rollback (spot.inserted files)
              ⟨.Conflict, lit "test failpoint before upload commit"⟩)
          else some (db', d, .commit payload spot file_id files)
  | .commit payload spot file_id files =>
      if e.ok then
        some (db, d, .returned (.ok ⟨file_id, payload.folder_id, spot.physical_id,
          payload.filename, payload.size, args.is_public, spot.deduplicated, payload.sha256⟩))
      else some (db, d, .rollback (spot.inserted files) .unset)
  | .rollback inserted error => some (undo_inserts db inserted, d, .returned (.error error))
  | .returned _ => none

/-! ## `hard_delete_file` -/

/-- Where a call of `hard_delete_file` stands. -/
inductive DeletePc
  | begin_transaction
  | fetch_for_update
  | delete_file (record : ManagedFileRecord)
  | delete_physical (record : ManagedFileRecord) (deleted : Deleted)
  | commit (record : ManagedFileRecord) (deleted : Deleted)
  | rollback (deleted : Deleted) (error : ServiceError)
  | remove_file (stored_name : Bytes)
  | returned (reply : Except ServiceError Unit)

/-- The row `delete_physical_file_if_unreferenced` deletes. -/
def unreferenced (db : Db) (physical_id : ℤ) : Option PhysicalFileRow :=
  db.physical_files.find? fun p =>
    decide (p.id = physical_id) && decide (p.ref_count = 0) &&
      !(db.files.any fun f => decide (f.physical_id = physical_id))

/-- One statement of `hard_delete_file`, and the unlink after its commit. -/
def hard_delete_step (db : Db) (d : Disk) (owner : Bytes) (file_id : ℤ) (e : Answer) :
    DeletePc → Option (Db × Disk × DeletePc)
  | .begin_transaction =>
      some (db, d, if e.ok then .fetch_for_update else .returned (.error .unset))
  | .fetch_for_update =>
      match if e.ok then fetch_file_record_impl db file_id true else none with
      | none => some (db, d, .rollback ⟨none, none⟩ ⟨.NotFound, lit "file not found"⟩)
      | some record =>
          match validate_hard_delete_candidate record owner with
          | .error error => some (db, d, .rollback ⟨none, none⟩ error)
          | .ok () => some (db, d, .delete_file record)
  | .delete_file record =>
      match if e.ok then hard_delete_row key db owner file_id else none with
      | none => some (db, d, .rollback ⟨none, none⟩ .unset)
      | some db' =>
          let deleted : Deleted := ⟨db.files.find? (hard_deletable key db owner file_id), none⟩
          some (db', d, if record.physical_id > 0 then .delete_physical record deleted
            else .commit record deleted)
  | .delete_physical record deleted =>
      if e.ok = false then some (db, d, .rollback deleted .unset)
      else
        some ((delete_physical_file_if_unreferenced db record.physical_id).1, d,
          .commit record { deleted with physical := unreferenced db record.physical_id })
  | .commit record deleted =>
      if e.ok = false then some (db, d, .rollback deleted .unset)
      else if deleted.physical.isSome ∧ record.stored_name ≠ [] then
        some (db, d, .remove_file record.stored_name)
      else some (db, d, .returned (.ok ()))
  | .rollback deleted error => some (undo_deletes db deleted, d, .returned (.error error))
  | .remove_file stored_name => some (db, d.remove_file stored_name, .returned (.ok ()))
  | .returned _ => none

/-! ## Any number of requests -/

/-- A request. Those without a transaction are requests of `FileStore`. -/
inductive Call
  | upload (args : UploadArgs) (pc : UploadPc)
  | hard_delete (owner : Bytes) (file_id : ℤ) (pc : DeletePc)
  | request (request : Request)

def call_step (db : Db) (d : Disk) (e : Answer) : Call → Option (Db × Disk × Call)
  | .upload args pc =>
      (upload_step key sha256_hex db d args e pc).map fun r => (r.1, r.2.1, .upload args r.2.2)
  | .hard_delete owner file_id pc =>
      (hard_delete_step key db d owner file_id e pc).map fun r =>
        (r.1, r.2.1, .hard_delete owner file_id r.2.2)
  | .request request =>
      (request_step key db d ⟨fun _ => e.ok, e.now⟩ request).map fun r =>
        (r.1, r.2.1, .request r.2.2)

/-- The tables, the disk, and every request so far. -/
structure World where
  db : Db
  disk : Disk
  calls : List Call

/-- A request starts, or request `i` executes its next statement. -/
inductive Label
  | create_uploaded_file (args : UploadArgs)
  | soft_delete_file (owner : Bytes) (file_id : ℤ)
  | restore_file (owner : Bytes) (file_id : ℤ)
  | update_file_visibility (owner : Bytes) (file_id : ℤ) (is_public : Bool)
  | hard_delete_file (owner : Bytes) (file_id : ℤ)
  | step (i : ℕ) (e : Answer)

def started : Label → Option Call
  | .create_uploaded_file args => some (.upload args .begin_transaction)
  | .soft_delete_file owner file_id => some (.request (.soft_delete_load owner file_id))
  | .restore_file owner file_id => some (.request (.restore_load owner file_id))
  | .update_file_visibility owner file_id is_public =>
      some (.request (.visibility_load owner file_id is_public))
  | .hard_delete_file owner file_id => some (.hard_delete owner file_id .begin_transaction)
  | .step _ _ => none

def step (w : World) : Label → Option World
  | .step i e =>
      match w.calls[i]? with
      | none => none
      | some call =>
          (call_step key sha256_hex w.db w.disk e call).map fun r =>
            ⟨r.1, r.2.1, w.calls.set i r.2.2⟩
  | l => (started l).map fun call => { w with calls := w.calls ++ [call] }

end Steps

/-! ## Consistent rows -/

/-- A row of `files` is active and has the marker `0`, or deleted and has its own id as
marker, and then it is not public. -/
structure RowOk (f : FileRow) : Prop where
  active : f.deleted_at = none → f.deleted_marker = 0
  deleted : f.deleted_at ≠ none → f.deleted_marker = f.id ∧ f.is_public = false

def Consistent (db : Db) : Prop := ∀ f ∈ db.files, RowOk f

/-- The row of `files` a request has deleted and may have to put back. -/
def saved : Call → Option FileRow
  | .hard_delete _ _ (.delete_physical _ deleted) => deleted.file
  | .hard_delete _ _ (.commit _ deleted) => deleted.file
  | .hard_delete _ _ (.rollback deleted _) => deleted.file
  | _ => none

/-- Every row of `files`, and every row that may come back, is consistent. -/
structure RowsOk (w : World) : Prop where
  rows : Consistent w.db
  saved : ∀ call ∈ w.calls, ∀ f, saved call = some f → RowOk f

/-- The step is the `UPDATE` of an `update_file_visibility` that makes a deleted file
public. -/
def exposes (w : World) : Label → Bool
  | .step i e =>
      match w.calls[i]? with
      | some (.request (.visibility_update file_id true)) =>
          e.ok && w.db.files.any fun f => decide (f.id = file_id) && f.deleted_at.isSome
      | _ => false
  | _ => false

section Rows

variable {db db' : Db} {d : Disk}

theorem Consistent.of_files (h : Consistent db) (hfiles : db'.files = db.files) :
    Consistent db' := by
  intro f hf
  rw [hfiles] at hf
  exact h f hf

theorem Consistent.filter (h : Consistent db) {keep : FileRow → Bool}
    (hfiles : db'.files = db.files.filter keep) : Consistent db' := by
  intro f hf
  rw [hfiles] at hf
  exact h f (mem_of_mem_filter hf)

theorem Consistent.append (h : Consistent db) {rows : List FileRow}
    (hrows : ∀ row ∈ rows, RowOk row) (hfiles : db'.files = db.files ++ rows) :
    Consistent db' := by
  intro f hf
  rw [hfiles, mem_append] at hf
  rcases hf with hf | hf
  · exact h f hf
  · exact hrows f hf

theorem Consistent.update_files (h : Consistent db) {selects : FileRow → Bool}
    {set : FileRow → FileRow}
    (hset : ∀ f ∈ db.files, selects f = true → RowOk f → RowOk (set f)) :
    Consistent (update_files db selects set) := by
  intro g hg
  obtain ⟨f, hf, rfl⟩ := mem_map.mp hg
  by_cases hselected : selects f = true
  · rw [if_pos hselected]
    exact hset f hf hselected (h f hf)
  · rw [if_neg hselected]
    exact h f hf

theorem Consistent.soft_delete (h : Consistent db) (file_id now : ℤ) :
    Consistent (soft_delete_row db file_id now) := by
  apply h.update_files
  intro f _ _ _
  exact ⟨fun hactive => absurd hactive (Option.some_ne_none now), fun _ => ⟨rfl, rfl⟩⟩

theorem Consistent.update_visibility (h : Consistent db) {is_public : Bool}
    (hactive : is_public = true → ∀ f ∈ db.files, f.id = file_id → f.deleted_at = none) :
    Consistent (update_visibility_row db file_id is_public) := by
  apply h.update_files
  intro f hf hselected hok
  refine ⟨hok.active, fun hdeleted => ⟨(hok.deleted hdeleted).1, ?_⟩⟩
  cases is_public with
  | false => rfl
  | true => exact absurd (hactive rfl f hf (of_decide_eq_true hselected)) hdeleted

theorem Consistent.restore (h : Consistent db) {owner original_name : Bytes} {folder_id : ℤ}
    (hrow : restore_row key db owner file_id folder_id original_name = some db') :
    Consistent db' := by
  obtain ⟨-, rfl⟩ := restore_row_spec hrow
  apply h.update_files
  intro f _ _ _
  exact ⟨fun _ => rfl, fun hdeleted => absurd rfl hdeleted⟩

theorem Consistent.insert_file (h : Consistent db) {record : FileCreateRecord} {now : ℤ}
    {cut : Option (UserRow → Bool)} {r : Db × ℤ}
    (hins : insert_file key db record now cut = .ok r) : Consistent r.1 := by
  obtain ⟨-, -, rfl⟩ := insert_file_eq hins
  refine h.append (fun row hrow => ?_) rfl
  rw [(file_rows_spec row hrow).2.2]
  exact ⟨fun _ => rfl, fun hdeleted => absurd rfl hdeleted⟩

theorem Consistent.undo_inserts (h : Consistent db) (inserted : Inserted) :
    Consistent (undo_inserts db inserted) := by
  rcases inserted with ⟨_ | physical, files, physical_id⟩ <;> exact h.filter rfl

theorem Consistent.undo_deletes (h : Consistent db) {deleted : Deleted}
    (hfile : ∀ f, deleted.file = some f → RowOk f) : Consistent (undo_deletes db deleted) := by
  have hrow : ∀ f, deleted.file = some f → ∀ row ∈ [f], RowOk row := by
    intro f hf row hmem
    rw [mem_singleton.mp hmem]
    exact hfile f hf
  rcases deleted with ⟨_ | f, _ | physical⟩
  · exact h
  · exact h.of_files rfl
  · exact h.append (hrow f rfl) rfl
  · exact h.append (hrow f rfl) rfl

/-! ## One statement -/

theorem upload_step_consistent {args : UploadArgs} {e : Answer} {pc : UploadPc}
    {r : Db × Disk × UploadPc} (h : Consistent db)
    (hstep : upload_step key sha256_hex db d args e pc = some r) : Consistent r.1 := by
  cases pc with
  | insert_physical payload =>
    simp only [upload_step] at hstep
    split at hstep
    · rename_i db' id hins
      obtain ⟨-, -, hdb⟩ := insert_physical_spec (executed_ok hins)
      cases hstep
      obtain ⟨rfl, -⟩ := Prod.mk.inj hdb
      exact h.of_files rfl
    · split at hstep <;> obtain rfl := Option.some.inj hstep <;> exact h
  | insert_file payload spot =>
    simp only [upload_step] at hstep
    split at hstep
    · cases hstep
      exact h
    · rename_i db' file_id hins
      have hrow : Consistent db' := h.insert_file (executed_ok hins)
      split at hstep <;> obtain rfl := Option.some.inj hstep <;> exact hrow
  | rollback inserted error =>
    cases hstep
    exact h.undo_inserts inserted
  | returned reply => contradiction
  | _ =>
    -- reads and the commit leave the tables as they are
    simp only [upload_step] at hstep
    repeat' split at hstep
    all_goals
      cases hstep
      exact h

theorem hard_delete_step_consistent {owner : Bytes} {e : Answer} {pc : DeletePc}
    {r : Db × Disk × DeletePc} (h : Consistent db)
    (hsaved : ∀ f, saved (.hard_delete owner file_id pc) = some f → RowOk f)
    (hstep : hard_delete_step key db d owner file_id e pc = some r) :
    Consistent r.1 ∧ ∀ f, saved (.hard_delete owner file_id r.2.2) = some f → RowOk f := by
  cases pc with
  | begin_transaction =>
    cases hstep
    refine ⟨h, fun f hf => ?_⟩
    split at hf <;> contradiction
  | fetch_for_update =>
    simp only [hard_delete_step] at hstep
    repeat' split at hstep
    all_goals
      cases hstep
      exact ⟨h, by simp [saved]⟩
  | delete_file record =>
    simp only [hard_delete_step] at hstep
    split at hstep
    · cases hstep
      exact ⟨h, by simp [saved]⟩
    rename_i db' hrow
    cases hstep
    split_ifs at hrow
    unfold hard_delete_row at hrow
    split_ifs at hrow
    obtain ⟨g, hg, rfl⟩ := Option.map_eq_some_iff.mp hrow
    refine ⟨h.filter rfl, fun f hf => ?_⟩
    -- the row that goes is kept for the `ROLLBACK`
    have hfind : db.files.find? (hard_deletable key db owner file_id) = some f := by
      split at hf <;> exact hf
    exact h f (mem_of_find?_eq_some hfind)
  | delete_physical record deleted =>
    simp only [hard_delete_step] at hstep
    split at hstep
    · cases hstep
      exact ⟨h, hsaved⟩
    · cases hstep
      exact ⟨h.of_files rfl, hsaved⟩
  | commit record deleted =>
    simp only [hard_delete_step] at hstep
    split at hstep
    · cases hstep
      exact ⟨h, hsaved⟩
    · split at hstep <;> obtain rfl := Option.some.inj hstep <;>
        exact ⟨h, by simp [saved]⟩
  | rollback deleted error =>
    cases hstep
    exact ⟨h.undo_deletes hsaved, by simp [saved]⟩
  | remove_file stored_name =>
    cases hstep
    exact ⟨h, by simp [saved]⟩
  | returned reply => contradiction

theorem request_step_consistent {e : Event} {request : Request} {r : Db × Disk × Request}
    (h : Consistent db) (hstep : request_step key db d e request = some r)
    (hactive : ∀ file_id, request = .visibility_update file_id true → e.ok 0 = true →
      ∀ f ∈ db.files, f.id = file_id → f.deleted_at = none) : Consistent r.1 := by
  cases request_step_move hstep with
  | soft_delete file_id => exact h.soft_delete file_id e.now
  | restore _ _ hrow => exact h.restore hrow
  | visibility hrequest hok =>
    apply h.update_visibility
    rintro rfl
    exact hactive _ hrequest hok
  | hard_delete owner file_id =>
    obtain ⟨-, -, keep, hfiles⟩ := hard_delete_transaction_rows key db owner file_id e
    exact h.filter hfiles
  | _ => exact h

/-! ## Whole runs -/

/-- Any consistent tables, any disk, and no request yet. -/
def system (key : Bytes → K) (sha256_hex : Bytes → Bytes) : System World Label where
  init w := Consistent w.db ∧ w.calls = []
  step := step key sha256_hex

theorem RowsOk.start (h : RowsOk w) {call : Call} (hcall : FileStatements.saved call = none) :
    RowsOk { w with calls := w.calls ++ [call] } := by
  refine ⟨h.rows, fun other hother f hf => ?_⟩
  rw [mem_append, mem_singleton] at hother
  rcases hother with hother | rfl
  · exact h.saved other hother f hf
  · rw [hcall] at hf
    contradiction

theorem started_saved {call : Call} (h : started l = some call) : saved call = none := by
  cases l <;> cases h <;> rfl

theorem RowsOk.set {i : ℕ} {r : Db × Disk × Call} (h : RowsOk w) (hrows : Consistent r.1)
    (hsaved : ∀ f, FileStatements.saved r.2.2 = some f → RowOk f) :
    RowsOk ⟨r.1, r.2.1, w.calls.set i r.2.2⟩ := ⟨hrows, forall_mem_set h.saved hsaved⟩

theorem RowsOk.step {w' : World} (h : RowsOk w)
    (hstep : FileStatements.step key sha256_hex w l = some w') (hok : exposes w l = false) :
    RowsOk w' := by
  cases l with
  | step i e =>
    simp only [FileStatements.step] at hstep
    cases hcall : w.calls[i]? with
    | none =>
      rw [hcall] at hstep
      contradiction
    | some call =>
      rw [hcall] at hstep
      obtain ⟨r, hr, rfl⟩ := Option.map_eq_some_iff.mp hstep
      have hmem : call ∈ w.calls := mem_of_getElem? hcall
      cases call with
      | upload args pc =>
        obtain ⟨r', hr', rfl⟩ := Option.map_eq_some_iff.mp hr
        exact h.set (upload_step_consistent h.rows hr') nofun
      | hard_delete owner file_id pc =>
        obtain ⟨r', hr', rfl⟩ := Option.map_eq_some_iff.mp hr
        obtain ⟨hrows, hsaved⟩ :=
          hard_delete_step_consistent h.rows (h.saved _ hmem) hr'
        exact h.set hrows hsaved
      | request request =>
        obtain ⟨r', hr', rfl⟩ := Option.map_eq_some_iff.mp hr
        refine h.set (request_step_consistent h.rows hr' ?_) nofun
        rintro file_id rfl hexec f hf hid
        by_contra hdeleted
        have hexec : e.ok = true := hexec
        simp only [exposes, hcall, hexec, Bool.true_and, any_eq_false] at hok
        apply hok f hf
        rw [decide_eq_true hid, Bool.true_and, Option.isSome_iff_ne_none]
        exact hdeleted
  | _ =>
    unfold FileStatements.step at hstep
    obtain ⟨call, hcall, rfl⟩ := Option.map_eq_some_iff.mp hstep
    exact h.start (started_saved hcall)

theorem not_consistent_of_exposes {w' : World} (hexposes : exposes w l = true)
    (hstep : FileStatements.step key sha256_hex w l = some w') : ¬Consistent w'.db := by
  intro hrows
  cases l with
  | step i e =>
    simp only [exposes] at hexposes
    split at hexposes
    · rename_i file_id hcall
      rw [Bool.and_eq_true, any_eq_true] at hexposes
      obtain ⟨hok, f, hf, hselected⟩ := hexposes
      rw [Bool.and_eq_true, decide_eq_true_eq] at hselected
      obtain ⟨hid, hdeleted⟩ := hselected
      simp only [FileStatements.step, hcall, call_step, request_step, hok, if_true,
        Option.map_some, Option.some.injEq] at hstep
      subst hstep
      -- the deleted row, now public
      have hmem : { f with is_public := true } ∈ (update_visibility_row w.db file_id true).files :=
        mem_map.mpr ⟨f, hf, if_pos (decide_eq_true hid)⟩
      have hprivate := ((hrows _ hmem).deleted (Option.isSome_iff_ne_none.mp hdeleted)).2
      exact Bool.noConfusion hprivate
    · exact Bool.noConfusion hexposes
  | _ => exact Bool.noConfusion hexposes

theorem exposes_enabled (hnone : FileStatements.step key sha256_hex w l = none) :
    exposes w l = false := by
  cases l with
  | step i e =>
    by_contra hexposes
    rw [Bool.not_eq_false] at hexposes
    simp only [exposes] at hexposes
    split at hexposes
    · rename_i file_id hcall
      rw [Bool.and_eq_true] at hexposes
      simp only [FileStatements.step, hcall, call_step, request_step, hexposes.1, if_true,
        Option.map_some] at hnone
      contradiction
    · exact Bool.noConfusion hexposes
  | _ => rfl

/-- **When the rows of `files` stay consistent.** However the statements of any number of
requests are interleaved, the rows are consistent after every step of a run exactly if no
step of it is the visibility `UPDATE` of a deleted file. -/
theorem rows_consistent_iff (key : Bytes → K) (sha256_hex : Bytes → Bytes) (w : World)
    (hw : (system key sha256_hex).init w) (ls : List Label) :
    (system key sha256_hex).Along
        (fun w l => ∀ w', (system key sha256_hex).step w l = some w' → Consistent w'.db) w ls ↔
      (system key sha256_hex).Along (fun w l => exposes w l = false) w ls := by
  obtain ⟨hrows, hcalls⟩ := hw
  have hinit : RowsOk w := by
    refine ⟨hrows, fun call hcall => ?_⟩
    rw [hcalls] at hcall
    contradiction
  apply System.along_good_iff (P := RowsOk) _ _ _ _ ls w hinit
  · exact fun w l => exposes_enabled
  · intro w l w' h hl hok
    have hnext : RowsOk w' := h.step hl hok
    exact ⟨hnext, hnext.rows⟩
  · intro w l w' _ hl hgood
    by_contra hexposes
    exact not_consistent_of_exposes ((Bool.not_eq_false _).mp hexposes) hl hgood

end Rows

/-- Empty tables but for one user, and an empty disk. -/
def empty_store : World :=
  { db := { users := [⟨1, lit "u", false⟩], folders := [], files := [], physical_files := []
            next_file_id := 1, next_physical_id := 1 }
    disk := ⟨fun _ => none, fun _ => none⟩
    calls := [] }

theorem empty_store_init : (system id id).init empty_store :=
  ⟨nofun, rfl⟩

def executes : Answer := ⟨true, 0, 7, none, false⟩

def one_upload : List Label :=
  .create_uploaded_file
    { owner := lit "u", stored_name_prefix := lit "aaaaaaaaaaaaaaaaaaaaaaaa"
      is_public := false, quota := ⟨0, 0⟩
      payload := { filename := lit "f.txt", content := lit "x", content_type := []
                   temp_path := [], sha256 := [], folder_id := 0, size := 1
                   use_temp_file := false } } ::
    List.replicate 9 (.step 0 executes)

def publish_then_delete : List Label :=
  one_upload ++
    [.update_file_visibility (lit "u") 1 true, .step 1 executes, .step 1 executes,
     .soft_delete_file (lit "u") 1, .step 2 executes, .step 2 executes]

/-- The file is loaded by the request that publishes it, deleted by another one, and then
published. -/
def publish_while_deleting : List Label :=
  one_upload ++
    [.update_file_visibility (lit "u") 1 true, .step 1 executes,
     .soft_delete_file (lit "u") 1, .step 2 executes, .step 2 executes, .step 1 executes]

def deleted_public (w : World) : Bool :=
  w.db.files.any fun f => f.deleted_at.isSome && f.is_public

theorem published_then_deleted_rows :
    (system id id).init empty_store ∧
      (system id id).Along
        (fun w l => ∀ w', (system id id).step w l = some w' → Consistent w'.db)
        empty_store publish_then_delete := by
  refine ⟨empty_store_init, (rows_consistent_iff id id empty_store empty_store_init _).mpr ?_⟩
  rw [← System.occurrences_eq_zero_iff]
  decide +kernel

/-- **A deleted file can be public.** -/
theorem publish_while_deleting_rows : ∃ w, (system id id).Reachable w ∧ ¬Consistent w.db := by
  obtain ⟨w, hw, htest⟩ :=
    System.Reachable.of_run (system id id) empty_store_init publish_while_deleting
      deleted_public (by decide +kernel)
  refine ⟨w, hw, fun hrows => ?_⟩
  obtain ⟨f, hf, hdeleted⟩ := any_eq_true.mp htest
  rw [Bool.and_eq_true] at hdeleted
  have hprivate := ((hrows f hf).deleted (Option.isSome_iff_ne_none.mp hdeleted.1)).2
  rw [hdeleted.2] at hprivate
  exact Bool.noConfusion hprivate

end AtlasWebServer.FileStatements
