/-
What a failed upload leaves behind.

`FileStore` runs `create_uploaded_file` on a disk on which every call succeeds.
Here every call of `infra/storage/storage.cpp` may fail, where the source looks at
the failure and where it does not: the directory check, `stat`, the rename, the two
streams of the copy, the write, and each of the three `unlink`s. `DiskEvent` says
which of them do. On a disk on which none fails the two models agree
(`create_uploaded_file_on_good_disk`).

The property is that a call that returns false leaves the tables as they were, and
no name in `uploads/` appears or disappears, except that the file of a row that was
there before may come back. `LeavesTrace` lists the six ways a call can break it,
and the main theorem says that there is no other.
-/
import AtlasWebServer.FileStoreInvariant

set_option autoImplicit false

namespace AtlasWebServer.UploadFailures

open Bytes Tables FileNames
open FileStore hiding place_existing place_physical_file create_uploaded_file
  materialize_upload_payload finish_upload

variable {p : PhysicalFileRow} {error : ServiceError}

/-! ## Disk calls that may fail -/

/-- The answer of `rename`. Without a source it is `failed`, whatever is asked for. -/
inductive Rename
  | moved
  | cross_device
  | failed
  deriving DecidableEq

/-- Which disk calls succeed. A call makes at most one write or move, so one flag a
kind is enough. `read_bytes` is where reading the source of a copy stops early,
which the source does not notice, and `written` is what a bad write leaves. -/
structure DiskEvent where
  ensure_directory : Bool
  stat : Bool
  rename : Rename
  input_open : Bool
  read_bytes : Option ℕ
  output_open : Bool
  output_good : Bool
  written : Bytes
  unlink_target : Bool
  unlink_source : Bool
  unlink_new : Bool
  deriving DecidableEq

def file_exists (d : Disk) (de : DiskEvent) (stored_name : Bytes) : Bool :=
  de.stat && d.file_exists stored_name

def remove_upload (d : Disk) (unlink : Bool) (stored_name : Bytes) : Disk :=
  if unlink then d.remove_file stored_name else d

def remove_spool (d : Disk) (unlink : Bool) (temp_path : Bytes) : Disk :=
  if unlink then d.remove_temp temp_path else d

def write_file (d : Disk) (de : DiskEvent) (stored_name content : Bytes) : Disk × Bool :=
  if de.output_open = false then (d, false)
  else if de.output_good then (d.write_file stored_name content, true)
  else (remove_upload (d.write_file stored_name de.written) de.unlink_target stored_name, false)

def bytes_read (de : DiskEvent) (content : Bytes) : Bytes :=
  match de.read_bytes with
  | none => content
  | some n => content.take n

/-- `move_file_or_copy` of a spool file to an upload. Both streams are opened before
either is looked at, and opening the output makes an empty file. -/
def move_file_or_copy (d : Disk) (de : DiskEvent) (temp_path stored_name : Bytes) : Disk × Bool :=
  match de.rename, d.temp temp_path with
  | .moved, some _ => (d.move_file_or_copy temp_path stored_name, true)
  | .cross_device, some content =>
      if de.output_open = false then (d, false)
      else if de.input_open = false then (d.write_file stored_name [], false)
      else if de.output_good then
        (remove_spool (d.write_file stored_name (bytes_read de content)) de.unlink_source temp_path,
          true)
      else (remove_upload (d.write_file stored_name de.written) de.unlink_target stored_name, false)
  | _, _ => (d, false)

/-- `materialize_upload_payload`, and the same choice written out in
`create_uploaded_file`. -/
def materialize_upload_payload (d : Disk) (de : DiskEvent) (payload : UploadPayload)
    (stored_name : Bytes) : Disk × Bool :=
  if payload.use_temp_file then move_file_or_copy d de payload.temp_path stored_name
  else write_file d de stored_name payload.content

/-! ## `create_uploaded_file` -/

/-- The middle of the call: it returns false, or the payload is in its place. -/
inductive Placing
  | failed (db : Db) (disk : Disk) (names : List Bytes)
  | placed (p : Placed)

/-- The payload is put behind an existing row. -/
def place_existing (db : Db) (d : Disk) (de : DiskEvent) (payload : UploadPayload)
    (p : PhysicalFileRow) : Placing :=
  if file_exists d de p.stored_name then
    let disk :=
      if payload.use_temp_file then remove_spool d de.unlink_source payload.temp_path else d
    .placed ⟨db, disk, p.id, p.stored_name, true, false, []⟩
  else
    match materialize_upload_payload d de payload p.stored_name with
    | (disk, false) => .failed db disk []
    | (disk, true) => .placed ⟨db, disk, p.id, p.stored_name, false, false, []⟩

variable {K : Type} [DecidableEq K] {key : Bytes → K} {sha256_hex : Bytes → Bytes}

section Upload

variable (key sha256_hex)

/-- The middle of `create_uploaded_file`: find or make the physical file. -/
def place_physical_file (db : Db) (d : Disk) (stored_name_start : Bytes)
    (payload : UploadPayload) (e : UploadEvent) (de : DiskEvent) : Placing :=
  match if e.fetch_ok then fetch_physical_file_by_sha256 db payload.sha256 else none with
  | some p => place_existing db d de payload p
  | none =>
      let stored_name := new_stored_name stored_name_start payload
      match executed e.insert_physical_errno
          (insert_physical_file key db payload.sha256 stored_name payload.size) with
      | .ok (db', id) =>
          match materialize_upload_payload d de payload stored_name with
          | (disk, false) => .failed db' disk [stored_name]
          | (disk, true) => .placed ⟨db', disk, id, stored_name, false, true, [stored_name]⟩
      | .error errno =>
          if errno = 1062 then
            match if e.refetch_ok then fetch_physical_file_by_sha256 db payload.sha256
              else none with
            | some p => place_existing db d de payload p
            | none => .failed db d []
          else .failed db d []

/-- The end of the call, from the `INSERT INTO files`. -/
def finish_upload (db : Db) (args : UploadArgs) (payload : UploadPayload) (placed : Placed)
    (e : UploadEvent) (de : DiskEvent) : Uploaded :=
  match insert_file_result key args payload placed e with
  | .error errno =>
      let disk :=
        if placed.physical_created then remove_upload placed.disk de.unlink_new placed.stored_name
        else placed.disk
      ⟨rollback db placed.db, disk, placed.names,
        .error (if errno = 1062 then ⟨.Conflict, lit "file name already exists"⟩ else .unset)⟩
  | .ok (db', file_id) =>
      if placed.physical_created ∧ e.failpoint then
        ⟨rollback db db', remove_upload placed.disk de.unlink_new placed.stored_name, placed.names,
          .error ⟨.Conflict, lit "test failpoint before upload commit"⟩⟩
      else if e.commit_ok = false then
        ⟨rollback db db', placed.disk, placed.names, .error .unset⟩
      else
        ⟨db', placed.disk, placed.names,
          .ok ⟨file_id, payload.folder_id, placed.physical_id, payload.filename, payload.size,
            args.is_public, placed.deduplicated, payload.sha256⟩⟩

def create_uploaded_file (db : Db) (d : Disk) (args : UploadArgs) (e : UploadEvent)
    (de : DiskEvent) : Uploaded :=
  if de.ensure_directory = false then ⟨db, d, [], .error .unset⟩
  else
    match upload_checks key sha256_hex db args e with
    | .error error => ⟨db, d, [], .error error⟩
    | .ok payload =>
        match place_physical_file key db d args.stored_name_prefix payload e de with
        | .failed db' disk names => ⟨rollback db db', disk, names, .error .unset⟩
        | .placed placed => finish_upload key db args payload placed e de

end Upload

/-! ## The disk on which nothing fails -/

def good_disk : DiskEvent := ⟨true, true, .moved, true, none, true, true, [], true, true, true⟩

section GoodDisk

variable {d : Disk} {payload : UploadPayload} {db : Db}

theorem materialize_on_good_disk (stored_name : Bytes)
    (hspool : payload.use_temp_file = true → (d.temp payload.temp_path).isSome = true) :
    materialize_upload_payload d good_disk payload stored_name =
      (FileStore.materialize_upload_payload d payload stored_name, true) := by
  unfold materialize_upload_payload FileStore.materialize_upload_payload
  by_cases htemp : payload.use_temp_file = true
  · obtain ⟨content, hcontent⟩ := Option.isSome_iff_exists.mp (hspool htemp)
    rw [if_pos htemp, if_pos htemp]
    simp [move_file_or_copy, good_disk, hcontent]
  · rw [if_neg htemp, if_neg htemp]
    rfl

theorem place_existing_on_good_disk (p : PhysicalFileRow)
    (hspool : payload.use_temp_file = true → (d.temp payload.temp_path).isSome = true) :
    place_existing db d good_disk payload p =
      .placed (FileStore.place_existing db d payload p) := by
  unfold place_existing FileStore.place_existing reuse_physical_file
  rw [materialize_on_good_disk _ hspool]
  have hexists : file_exists d good_disk p.stored_name = d.file_exists p.stored_name :=
    Bool.true_and _
  rw [hexists]
  split <;> rfl

theorem place_on_good_disk {stored_name_start : Bytes} {e : UploadEvent}
    (hspool : payload.use_temp_file = true → (d.temp payload.temp_path).isSome = true) :
    place_physical_file key db d stored_name_start payload e good_disk =
      match FileStore.place_physical_file key db d stored_name_start payload e with
      | none => .failed db d []
      | some placed => .placed placed := by
  unfold place_physical_file FileStore.place_physical_file
  cases if e.fetch_ok then fetch_physical_file_by_sha256 db payload.sha256 else none with
  | some p => exact place_existing_on_good_disk p hspool
  | none =>
    dsimp only
    rw [materialize_on_good_disk _ hspool]
    cases executed e.insert_physical_errno (insert_physical_file key db payload.sha256
        (new_stored_name stored_name_start payload) payload.size) with
    | ok r => rfl
    | error errno =>
      dsimp only
      by_cases hdup : errno = 1062
      · rw [if_pos hdup, if_pos hdup]
        cases if e.refetch_ok then fetch_physical_file_by_sha256 db payload.sha256 else none with
        | some p => exact place_existing_on_good_disk p hspool
        | none => rfl
      · rw [if_neg hdup, if_neg hdup]

/-- **On a disk on which nothing fails, the two models agree**, for a payload whose
spool file is there. -/
theorem create_uploaded_file_on_good_disk (key : Bytes → K) (sha256_hex : Bytes → Bytes) (db : Db)
    (d : Disk) (args : UploadArgs) (e : UploadEvent)
    (hspool : args.payload.use_temp_file = true →
      (d.temp args.payload.temp_path).isSome = true) :
    create_uploaded_file key sha256_hex db d args e good_disk =
      FileStore.create_uploaded_file key sha256_hex db d args e := by
  unfold create_uploaded_file FileStore.create_uploaded_file
  cases hchecks : upload_checks key sha256_hex db args e with
  | error error => rfl
  | ok payload =>
    -- the checks change the digest and the name of the payload only
    have hspool' : payload.use_temp_file = true → (d.temp payload.temp_path).isSome = true := by
      obtain ⟨-, rfl⟩ := upload_checks_spec hchecks
      unfold payload_with_digest
      split <;> exact hspool
    dsimp only
    rw [place_on_good_disk hspool']
    cases FileStore.place_physical_file key db d args.stored_name_prefix payload e with
    | none => rfl
    | some placed => rfl

end GoodDisk

/-! ## The names in `uploads/` -/

section Names

/-- What a write or a move does to its target: it is there, it was not touched, it is
there although the call failed, or it is gone. -/
inductive Materialised
  | done
  | untouched
  | left
  | removed
  deriving DecidableEq

def written_out (de : DiskEvent) : Materialised :=
  if de.output_good then .done else if de.unlink_target then .removed else .left

/-- What becomes of the target of `materialize_upload_payload`. -/
def materialised (d : Disk) (de : DiskEvent) (payload : UploadPayload) : Materialised :=
  if payload.use_temp_file = false then
    if de.output_open = false then .untouched else written_out de
  else
    match de.rename, d.temp payload.temp_path with
    | .moved, some _ => .done
    | .cross_device, some _ =>
        if de.output_open = false then .untouched
        -- the output was opened first
        else if de.input_open = false then .left
        else written_out de
    | _, _ => .untouched

def Materialised.present (before : Bool) : Materialised → Bool
  | .done => true
  | .untouched => before
  | .left => true
  | .removed => false

@[simp] theorem write_file_exists (d : Disk) (name content other : Bytes) :
    (d.write_file name content).file_exists other =
      if other = name then true else d.file_exists other := by
  unfold Disk.write_file Disk.file_exists
  by_cases h : other = name
  · simp [h]
  · simp [h]

@[simp] theorem remove_file_exists (d : Disk) (name other : Bytes) :
    (d.remove_file name).file_exists other =
      if other = name then false else d.file_exists other := by
  unfold Disk.remove_file Disk.file_exists
  by_cases h : other = name
  · simp [h]
  · simp [h]

theorem remove_upload_exists (d : Disk) (unlink : Bool) (name other : Bytes) :
    (remove_upload d unlink name).file_exists other =
      if other = name then !unlink && d.file_exists name else d.file_exists other := by
  unfold remove_upload
  cases unlink with
  | true => simp
  | false =>
    by_cases h : other = name
    · simp [h]
    · simp [h]

@[simp] theorem remove_spool_exists (d : Disk) (unlink : Bool) (temp_path other : Bytes) :
    (remove_spool d unlink temp_path).file_exists other = d.file_exists other := by
  unfold remove_spool
  split <;> rfl

variable {d d' : Disk} {db : Db}

theorem move_exists {temp_path content : Bytes} (h : d.temp temp_path = some content)
    (name other : Bytes) :
    (d.move_file_or_copy temp_path name).file_exists other =
      if other = name then true else d.file_exists other := by
  unfold Disk.move_file_or_copy Disk.file_exists
  by_cases hother : other = name
  · simp [hother, h]
  · simp [hother]

theorem bad_write_exists (d : Disk) (unlink : Bool) (name content other : Bytes) :
    (remove_upload (d.write_file name content) unlink name).file_exists other =
      if other = name then !unlink else d.file_exists other := by
  rw [remove_upload_exists, write_file_exists, write_file_exists, if_pos rfl, Bool.and_true]
  by_cases h : other = name
  · rw [if_pos h, if_pos h]
  · rw [if_neg h, if_neg h, if_neg h]

theorem written_out_done (de : DiskEvent) : (written_out de = .done) ↔ de.output_good = true := by
  unfold written_out
  cases de.output_good <;> cases de.unlink_target <;> simp

theorem written_out_present (de : DiskEvent) (before : Bool) :
    (written_out de).present before = (de.output_good || !de.unlink_target) := by
  unfold written_out
  cases de.output_good <;> cases de.unlink_target <;> rfl

theorem materialize_spec (d : Disk) (de : DiskEvent) (payload : UploadPayload) (name : Bytes) :
    (materialize_upload_payload d de payload name).2 =
        decide (materialised d de payload = .done) ∧
      ∀ other, (materialize_upload_payload d de payload name).1.file_exists other =
        if other = name then (materialised d de payload).present (d.file_exists name)
        else d.file_exists other := by
  have hsame : ∀ other, d.file_exists other =
      if other = name then d.file_exists name else d.file_exists other := by
    intro other
    split
    · rename_i heq
      rw [heq]
    · rfl
  unfold materialize_upload_payload materialised
  cases payload.use_temp_file with
  | false =>
    simp only [Bool.false_eq_true, if_false, if_true, write_file]
    cases de.output_open with
    | false => exact ⟨rfl, hsame⟩
    | true =>
      cases hgood : de.output_good with
      | false => simp [written_out_done, written_out_present, bad_write_exists, hgood]
      | true => simp [written_out_done, written_out_present, hgood]
  | true =>
    simp only [if_true, Bool.true_eq_false, if_false, move_file_or_copy]
    cases htemp : d.temp payload.temp_path with
    | none => cases de.rename <;> exact ⟨rfl, hsame⟩
    | some content =>
      cases de.rename with
      | moved => exact ⟨rfl, move_exists htemp name⟩
      | failed => exact ⟨rfl, hsame⟩
      | cross_device =>
        cases de.output_open with
        | false => exact ⟨rfl, hsame⟩
        | true =>
          cases de.input_open with
          | false => simp [Materialised.present]
          | true =>
            cases hgood : de.output_good with
            | false => simp [written_out_done, written_out_present, bad_write_exists, hgood]
            | true => simp [written_out_done, written_out_present, hgood]

/-- The names in `uploads/` are the same, except that the file of a row may be back. -/
def SameNames (db : Db) (d d' : Disk) : Prop :=
  ∀ name, d'.file_exists name = d.file_exists name ∨
    (d'.file_exists name = true ∧ ∃ p ∈ db.physical_files, p.stored_name = name)

theorem sameNames_iff {name : Bytes} {after : Bool}
    (h : ∀ other, d'.file_exists other = if other = name then after else d.file_exists other) :
    SameNames db d d' ↔ after = d.file_exists name ∨
      (after = true ∧ ∃ p ∈ db.physical_files, p.stored_name = name) := by
  constructor
  · intro hsame
    have hname := h name
    rw [if_pos rfl] at hname
    rw [← hname]
    exact hsame name
  intro hname other
  rw [h other]
  by_cases hother : other = name
  · rw [if_pos hother, hother]
    exact hname
  · rw [if_neg hother]
    exact .inl rfl

theorem sameNames_of_eq (h : ∀ other, d'.file_exists other = d.file_exists other) :
    SameNames db d d' :=
  fun name => .inl (h name)

end Names

/-! ## Which physical file the call works on -/

section Rows

variable (key)

/-- The digest has a row: the first query finds it, or the second after the `INSERT`
met it. -/
def Reuses (db : Db) (stored_name_start : Bytes) (payload : UploadPayload) (e : UploadEvent)
    (p : PhysicalFileRow) : Prop :=
  (if e.fetch_ok then fetch_physical_file_by_sha256 db payload.sha256 else none) = some p ∨
    ((if e.fetch_ok then fetch_physical_file_by_sha256 db payload.sha256 else none) = none ∧
      executed e.insert_physical_errno (insert_physical_file key db payload.sha256
        (new_stored_name stored_name_start payload) payload.size) = .error 1062 ∧
      (if e.refetch_ok then fetch_physical_file_by_sha256 db payload.sha256 else none) = some p)

def NewRow (db : Db) (stored_name_start : Bytes) (payload : UploadPayload) (e : UploadEvent) :
    Prop :=
  (if e.fetch_ok then fetch_physical_file_by_sha256 db payload.sha256 else none) = none ∧
    ∃ r, executed e.insert_physical_errno (insert_physical_file key db payload.sha256
      (new_stored_name stored_name_start payload) payload.size) = .ok r

variable {key} {db : Db} {stored_name_start : Bytes} {payload : UploadPayload} {e : UploadEvent}

theorem Reuses.unique {q : PhysicalFileRow} (hp : Reuses key db stored_name_start payload e p)
    (hq : Reuses key db stored_name_start payload e q) : p = q := by
  rcases hp with hp | ⟨hp, -, hp'⟩ <;> rcases hq with hq | ⟨hq, -, hq'⟩
  · exact Option.some.inj (hp.symm.trans hq)
  · exact absurd (hp.symm.trans hq) (by simp)
  · exact absurd (hp.symm.trans hq) (by simp)
  · exact Option.some.inj (hp'.symm.trans hq')

theorem Reuses.not_new (hp : Reuses key db stored_name_start payload e p) :
    ¬ NewRow key db stored_name_start payload e := by
  rintro ⟨hnone, r, hr⟩
  rcases hp with hp | ⟨-, hp, -⟩
  · exact absurd (hp.symm.trans hnone) (by simp)
  · exact absurd (hp.symm.trans hr) (by simp)

theorem Reuses.mem (hp : Reuses key db stored_name_start payload e p) : p ∈ db.physical_files := by
  have hfetch : fetch_physical_file_by_sha256 db payload.sha256 = some p := by
    rcases hp with hp | ⟨-, -, hp⟩
    · split_ifs at hp
      exact hp
    · split_ifs at hp
      exact hp
  exact (fetch_physical_spec hfetch).1

theorem NewRow.name_ne (h : NewRow key db stored_name_start payload e) :
    ∀ p ∈ db.physical_files, p.stored_name ≠ new_stored_name stored_name_start payload := by
  obtain ⟨-, r, hr⟩ := h
  exact (insert_physical_spec (executed_ok hr)).2.1

theorem place_cases (key : Bytes → K) (db : Db) (d : Disk) (stored_name_start : Bytes)
    (payload : UploadPayload) (e : UploadEvent) (de : DiskEvent) :
    (∃ p, Reuses key db stored_name_start payload e p ∧
      place_physical_file key db d stored_name_start payload e de =
        place_existing db d de payload p) ∨
    (NewRow key db stored_name_start payload e ∧ ∃ db' id,
      place_physical_file key db d stored_name_start payload e de =
        let name := new_stored_name stored_name_start payload
        match materialize_upload_payload d de payload name with
        | (disk, false) => .failed db' disk [name]
        | (disk, true) => .placed ⟨db', disk, id, name, false, true, [name]⟩) ∨
    ((∀ p, ¬ Reuses key db stored_name_start payload e p) ∧
      ¬ NewRow key db stored_name_start payload e ∧
      place_physical_file key db d stored_name_start payload e de = .failed db d []) := by
  unfold place_physical_file Reuses NewRow
  cases if e.fetch_ok then fetch_physical_file_by_sha256 db payload.sha256 else none with
  | some p => exact .inl ⟨p, .inl rfl, rfl⟩
  | none =>
    dsimp only
    cases executed e.insert_physical_errno (insert_physical_file key db payload.sha256
        (new_stored_name stored_name_start payload) payload.size) with
    | ok r => exact .inr (.inl ⟨⟨rfl, r, rfl⟩, r.1, r.2, rfl⟩)
    | error errno =>
      dsimp only
      by_cases hdup : errno = 1062
      · subst hdup
        cases if e.refetch_ok then fetch_physical_file_by_sha256 db payload.sha256 else none with
        | some p => exact .inl ⟨p, .inr ⟨rfl, rfl, rfl⟩, rfl⟩
        | none => exact .inr (.inr ⟨by simp, by simp, rfl⟩)
      · rw [if_neg hdup]
        exact .inr (.inr ⟨by simp [hdup], by simp, rfl⟩)

end Rows

/-! ## What a failed call leaves -/

section Traces

variable (key sha256_hex)

/-- The tables are as they were, and so are the names in `uploads/`. -/
def NoTrace (db : Db) (d : Disk) (r : Uploaded) : Prop :=
  r.db.files = db.files ∧ r.db.physical_files = db.physical_files ∧ SameNames db d r.disk

/-- The call stops after the new file is in its place and cleans up: the
`INSERT INTO files` fails, or the failpoint is set. -/
def Stopped (args : UploadArgs) (payload : UploadPayload) (placed : Placed) (e : UploadEvent) :
    Prop :=
  (∃ errno, insert_file_result key args payload placed e = .error errno) ∨ e.failpoint = true

/-- The six ways to leave a trace. The new file stays: the `COMMIT` fails, which is
followed by no cleanup; the cleanup's `unlink` fails; or the write itself fails and
leaves the file. A file that was there before goes: it had the new file's name, and
the cleanup, or the failed write, removed it; or it belongs to a row, `stat` missed
it, and the failed write of the repair removed it. -/
inductive Trace (db : Db) (d : Disk) (args : UploadArgs) (payload : UploadPayload)
    (e : UploadEvent) (de : DiskEvent) : Prop
  | not_committed (placed : Placed) (r : Db × ℤ)
      (hplaced : place_physical_file key db d args.stored_name_prefix payload e de = .placed placed)
      (hnew : placed.physical_created = true)
      (hinserted : insert_file_result key args payload placed e = .ok r)
      (hpoint : e.failpoint = false) (hcommit : e.commit_ok = false)
      (habsent : d.file_exists placed.stored_name = false)
  | not_cleaned_up (placed : Placed)
      (hplaced : place_physical_file key db d args.stored_name_prefix payload e de = .placed placed)
      (hnew : placed.physical_created = true) (hstopped : Stopped key args payload placed e)
      (hunlink : de.unlink_new = false) (habsent : d.file_exists placed.stored_name = false)
  | half_written (hnew : NewRow key db args.stored_name_prefix payload e)
      (hleft : materialised d de payload = .left)
      (habsent : d.file_exists (new_stored_name args.stored_name_prefix payload) = false)
  | stray_cleaned_up (placed : Placed)
      (hplaced : place_physical_file key db d args.stored_name_prefix payload e de = .placed placed)
      (hnew : placed.physical_created = true) (hstopped : Stopped key args payload placed e)
      (hunlink : de.unlink_new = true) (hpresent : d.file_exists placed.stored_name = true)
  | stray_overwritten (hnew : NewRow key db args.stored_name_prefix payload e)
      (hremoved : materialised d de payload = .removed)
      (hpresent : d.file_exists (new_stored_name args.stored_name_prefix payload) = true)
  | missed (p : PhysicalFileRow) (hrow : Reuses key db args.stored_name_prefix payload e p)
      (hstat : de.stat = false) (hremoved : materialised d de payload = .removed)
      (hpresent : d.file_exists p.stored_name = true)

/-- The call gets as far as leaving a trace. -/
def LeavesTrace (db : Db) (d : Disk) (args : UploadArgs) (e : UploadEvent)
    (de : DiskEvent) : Prop :=
  de.ensure_directory = true ∧ ∃ payload, upload_checks key sha256_hex db args e = .ok payload ∧
    Trace key db d args payload e de

variable {key sha256_hex} {db : Db} {d : Disk} {args : UploadArgs} {payload : UploadPayload}
  {e : UploadEvent} {de : DiskEvent}

variable {placed : Placed} {r : Uploaded}

theorem finish_failed (h : (finish_upload key db args payload placed e de).result = .error error) :
    let r := finish_upload key db args payload placed e de
    r.db.files = db.files ∧ r.db.physical_files = db.physical_files ∧
      (placed.physical_created = false → r.disk = placed.disk) ∧
      (placed.physical_created = true →
        (Stopped key args payload placed e ∧
          r.disk = remove_upload placed.disk de.unlink_new placed.stored_name) ∨
        (∃ x, insert_file_result key args payload placed e = .ok x ∧ e.failpoint = false ∧
          e.commit_ok = false ∧ r.disk = placed.disk)) := by
  unfold finish_upload at h ⊢
  unfold Stopped
  cases hinsert : insert_file_result key args payload placed e with
  | error errno =>
    refine ⟨rfl, rfl, ?_, ?_⟩
    · intro hold
      simp [hold]
    · intro hnew
      exact .inl ⟨.inl ⟨errno, rfl⟩, by simp [hnew]⟩
  | ok x =>
    rw [hinsert] at h
    dsimp only at h ⊢
    by_cases hpoint : placed.physical_created = true ∧ e.failpoint = true
    · rw [if_pos hpoint]
      refine ⟨rfl, rfl, ?_, ?_⟩
      · intro hold
        rw [hold] at hpoint
        exact absurd (hpoint.1) (by simp)
      · intro _
        exact .inl ⟨.inr hpoint.2, rfl⟩
    · rw [if_neg hpoint] at h ⊢
      by_cases hcommit : e.commit_ok = false
      · rw [if_pos hcommit]
        refine ⟨rfl, rfl, fun _ => rfl, fun hnew => .inr ⟨x, rfl, ?_, hcommit, rfl⟩⟩
        simpa [hnew] using hpoint
      · rw [if_neg hcommit] at h
        contradiction

theorem Stopped.not_inserted {r : Db × ℤ} (h : Stopped key args payload placed e)
    (hinserted : insert_file_result key args payload placed e = .ok r) : e.failpoint ≠ false := by
  intro hpoint
  rcases h with ⟨errno, herror⟩ | hset
  · exact absurd (herror.symm.trans hinserted) (by simp)
  · exact absurd (hpoint.symm.trans hset) (by simp)

theorem trace_old_iff (hold : ∀ placed, place_physical_file key db d args.stored_name_prefix payload
      e de = .placed placed → placed.physical_created = false) :
    Trace key db d args payload e de ↔
      (NewRow key db args.stored_name_prefix payload e ∧
        (materialised d de payload = .left ∧
            d.file_exists (new_stored_name args.stored_name_prefix payload) = false ∨
          materialised d de payload = .removed ∧
            d.file_exists (new_stored_name args.stored_name_prefix payload) = true)) ∨
      ∃ p, Reuses key db args.stored_name_prefix payload e p ∧ de.stat = false ∧
        materialised d de payload = .removed ∧ d.file_exists p.stored_name = true := by
  constructor
  · intro htrace
    cases htrace with
    | not_committed placed x h hnew => exact absurd ((hold placed h).symm.trans hnew) (by simp)
    | not_cleaned_up placed h hnew => exact absurd ((hold placed h).symm.trans hnew) (by simp)
    | stray_cleaned_up placed h hnew => exact absurd ((hold placed h).symm.trans hnew) (by simp)
    | half_written hnew hleft habsent => exact .inl ⟨hnew, .inl ⟨hleft, habsent⟩⟩
    | stray_overwritten hnew hremoved hpresent => exact .inl ⟨hnew, .inr ⟨hremoved, hpresent⟩⟩
    | missed p hp hstat hremoved hpresent => exact .inr ⟨p, hp, hstat, hremoved, hpresent⟩
  · rintro (⟨hnew, ⟨hleft, habsent⟩ | ⟨hremoved, hpresent⟩⟩ | ⟨p, hp, hstat, hremoved, hpresent⟩)
    · exact .half_written hnew hleft habsent
    · exact .stray_overwritten hnew hremoved hpresent
    · exact .missed p hp hstat hremoved hpresent

theorem trace_new_iff
    (hplace : place_physical_file key db d args.stored_name_prefix payload e de = .placed placed)
    (hnew : placed.physical_created = true) (hdone : materialised d de payload = .done)
    (hnone : ∀ p, ¬ Reuses key db args.stored_name_prefix payload e p) :
    Trace key db d args payload e de ↔
      (Stopped key args payload placed e ∧ (!de.unlink_new) ≠ d.file_exists placed.stored_name) ∨
      (∃ r, insert_file_result key args payload placed e = .ok r) ∧ e.failpoint = false ∧
        e.commit_ok = false ∧ d.file_exists placed.stored_name = false := by
  constructor
  · intro htrace
    cases htrace with
    | not_committed placed' x h _ hinserted hpoint hcommit habsent =>
      obtain rfl := Placing.placed.inj (hplace.symm.trans h)
      exact .inr ⟨⟨x, hinserted⟩, hpoint, hcommit, habsent⟩
    | not_cleaned_up placed' h _ hstopped hunlink habsent =>
      obtain rfl := Placing.placed.inj (hplace.symm.trans h)
      exact .inl ⟨hstopped, by rw [hunlink, habsent]; simp⟩
    | stray_cleaned_up placed' h _ hstopped hunlink hpresent =>
      obtain rfl := Placing.placed.inj (hplace.symm.trans h)
      exact .inl ⟨hstopped, by rw [hunlink, hpresent]; simp⟩
    | half_written _ hleft => exact absurd (hdone.symm.trans hleft) (by simp)
    | stray_overwritten _ hremoved => exact absurd (hdone.symm.trans hremoved) (by simp)
    | missed p hp => exact absurd hp (hnone p)
  · rintro (⟨hstopped, hne⟩ | ⟨⟨x, hinserted⟩, hpoint, hcommit, habsent⟩)
    · cases hunlink : de.unlink_new with
      | true =>
        exact .stray_cleaned_up placed hplace hnew hstopped hunlink (by simpa [hunlink] using hne)
      | false =>
        exact .not_cleaned_up placed hplace hnew hstopped hunlink (by simpa [hunlink] using hne)
    · exact .not_committed placed x hplace hnew hinserted hpoint hcommit habsent

theorem existing_trace_iff (hrow : Reuses key db args.stored_name_prefix payload e p)
    (hplace : place_physical_file key db d args.stored_name_prefix payload e de =
      place_existing db d de payload p) (hr : r = match place_existing db d de payload p with
      | .failed db' disk names => ⟨rollback db db', disk, names, .error .unset⟩
      | .placed placed => finish_upload key db args payload placed e de)
    (hfail : r.result = .error error) : NoTrace db d r ↔ ¬ Trace key db d args payload e de := by
  -- the other five are about a new row
  have htrace : Trace key db d args payload e de ↔ de.stat = false ∧
      materialised d de payload = .removed ∧ d.file_exists p.stored_name = true := by
    have hold : ∀ placed, place_physical_file key db d args.stored_name_prefix payload e de =
        .placed placed → placed.physical_created = false := by
      intro placed hplaced
      rw [hplace, place_existing] at hplaced
      split at hplaced
      · rw [← Placing.placed.inj hplaced]
      · split at hplaced
        · contradiction
        · rw [← Placing.placed.inj hplaced]
    rw [trace_old_iff hold, or_iff_right fun h => hrow.not_new h.1]
    constructor
    · rintro ⟨q, hq, hmissed⟩
      obtain rfl := hrow.unique hq
      exact hmissed
    · exact fun hmissed => ⟨p, hrow, hmissed⟩
  rw [htrace]
  have hmem : ∃ q ∈ db.physical_files, q.stored_name = p.stored_name := ⟨p, hrow.mem, rfl⟩
  unfold place_existing at hr
  by_cases hexists : file_exists d de p.stored_name = true
  · -- the file is there, and only the spool file goes
    rw [if_pos hexists] at hr
    rw [hr] at hfail
    obtain ⟨hfiles, hphysical, hdisk, -⟩ := finish_failed hfail
    have hstat : de.stat = true := by
      simp only [file_exists, Bool.and_eq_true] at hexists
      exact hexists.1
    rw [hr]
    refine iff_of_true ⟨hfiles, hphysical, sameNames_of_eq fun other => ?_⟩ ?_
    · rw [hdisk rfl]
      split
      · rw [remove_spool_exists]
      · rfl
    · rintro ⟨hmissed, -⟩
      exact absurd (hmissed.symm.trans hstat) (by simp)
  · rw [if_neg hexists] at hr
    obtain ⟨hdone, hnames⟩ := materialize_spec d de payload p.stored_name
    obtain ⟨disk, done, hresult⟩ : ∃ disk done,
        materialize_upload_payload d de payload p.stored_name = (disk, done) := ⟨_, _, rfl⟩
    rw [hresult] at hr hdone hnames
    have hsame : SameNames db d disk ↔ ¬ (de.stat = false ∧ materialised d de payload = .removed ∧
        d.file_exists p.stored_name = true) := by
      rw [sameNames_iff hnames]
      -- only `removed` leaves no file, and then the row's file has to have been absent
      cases hm : materialised d de payload with
      | done => simp [Materialised.present, hmem]
      | untouched => simp [Materialised.present]
      | left => simp [Materialised.present, hmem]
      | removed =>
        simp only [file_exists, Bool.and_eq_true, not_and, Bool.not_eq_true] at hexists
        cases hpresent : d.file_exists p.stored_name <;> cases hstat : de.stat <;>
          simp_all [Materialised.present]
    cases done with
    | false =>
      rw [hr]
      exact ⟨fun h => hsame.mp h.2.2, fun h => ⟨rfl, rfl, hsame.mpr h⟩⟩
    | true =>
      rw [hr] at hfail
      obtain ⟨hfiles, hphysical, hdisk, -⟩ := finish_failed hfail
      rw [hr]
      unfold NoTrace
      rw [hdisk rfl]
      exact ⟨fun h => hsame.mp h.2.2, fun h => ⟨hfiles, hphysical, hsame.mpr h⟩⟩

theorem new_trace_iff {db' : Db} {id : ℤ} (hrow : NewRow key db args.stored_name_prefix payload e)
    (hplace : place_physical_file key db d args.stored_name_prefix payload e de =
      let name := new_stored_name args.stored_name_prefix payload
      match materialize_upload_payload d de payload name with
      | (disk, false) => .failed db' disk [name]
      | (disk, true) => .placed ⟨db', disk, id, name, false, true, [name]⟩)
    (hr : r = match place_physical_file key db d args.stored_name_prefix payload e de with
      | .failed db' disk names => ⟨rollback db db', disk, names, .error .unset⟩
      | .placed placed => finish_upload key db args payload placed e de)
    (hfail : r.result = .error error) : NoTrace db d r ↔ ¬ Trace key db d args payload e de := by
  obtain ⟨name, hname⟩ : ∃ name, name = new_stored_name args.stored_name_prefix payload := ⟨_, rfl⟩
  rw [← hname] at hplace
  dsimp only at hplace
  obtain ⟨hdone, hnames⟩ := materialize_spec d de payload name
  obtain ⟨disk, done, hresult⟩ : ∃ disk done,
      materialize_upload_payload d de payload name = (disk, done) := ⟨_, _, rfl⟩
  rw [hresult] at hplace hdone hnames
  -- no row has the name, so it has to be there after exactly if it was before
  have hfree : ¬ ∃ p ∈ db.physical_files, p.stored_name = name := by
    rintro ⟨p, hp, hpname⟩
    exact hrow.name_ne p hp (hpname.trans hname)
  have hnone : ∀ p, ¬ Reuses key db args.stored_name_prefix payload e p :=
    fun p hp => hp.not_new hrow
  cases done with
  | false =>
    have hnot : materialised d de payload ≠ .done := of_decide_eq_false hdone.symm
    rw [hplace] at hr
    have hsame : SameNames db d disk ↔
        (materialised d de payload).present (d.file_exists name) = d.file_exists name := by
      rw [sameNames_iff hnames]
      simp [hfree]
    rw [hr, NoTrace, hsame, trace_old_iff (by simp [hplace]), ← hname]
    cases hm : materialised d de payload with
    | done => exact absurd hm hnot
    | untouched => simp [Materialised.present, hnone, rollback]
    | left => cases d.file_exists name <;> simp [Materialised.present, hrow, hnone, rollback]
    | removed => cases d.file_exists name <;> simp [Materialised.present, hrow, hnone, rollback]
  | true =>
    have hm : materialised d de payload = .done := of_decide_eq_true hdone.symm
    rw [hplace] at hr
    rw [hr] at hfail
    obtain ⟨hfiles, hphysical, -, hdisk⟩ := finish_failed hfail
    rw [hm] at hnames
    rw [hr]
    have hsplit : ∀ after : Bool, (∀ other,
        (finish_upload key db args payload ⟨db', disk, id, name, false, true, [name]⟩ e
          de).disk.file_exists other = if other = name then after else d.file_exists other) →
        (NoTrace db d (finish_upload key db args payload
          ⟨db', disk, id, name, false, true, [name]⟩ e de) ↔ after = d.file_exists name) := by
      intro after hafter
      unfold NoTrace
      rw [sameNames_iff hafter]
      simp [hfree, hfiles, hphysical]
    rcases hdisk rfl with ⟨hstopped, hdisk⟩ | ⟨x, hinserted, hpoint, hcommit, hdisk⟩
    · rw [hsplit (!de.unlink_new) fun other => by
        rw [hdisk]
        rw [remove_upload_exists, hnames, hnames, if_pos rfl]
        by_cases h : other = name <;> simp [h, Materialised.present]]
      rw [trace_new_iff hplace rfl hm hnone, or_iff_left, not_and, not_not]
      · exact ⟨fun h _ => h, fun h => h hstopped⟩
      · exact fun ⟨⟨x, hinserted⟩, hpoint, _⟩ => hstopped.not_inserted hinserted hpoint
    · rw [hsplit true fun other => by rw [hdisk]; exact hnames other]
      rw [trace_new_iff hplace rfl hm hnone,
        or_iff_right fun h => h.1.not_inserted hinserted hpoint]
      simp [hinserted, hpoint, hcommit]

/-- **What a failed upload leaves behind.** For every payload, every state of the
tables and the disk, and every choice of statements and disk calls that fail: a
call that returns false leaves no trace, unless it leaves one of the six. -/
theorem failed_upload_no_trace_iff (key : Bytes → K) (sha256_hex : Bytes → Bytes) (db : Db)
    (d : Disk) (args : UploadArgs) (e : UploadEvent) (de : DiskEvent) (error : ServiceError)
    (hfail : (create_uploaded_file key sha256_hex db d args e de).result = .error error) :
    NoTrace db d (create_uploaded_file key sha256_hex db d args e de) ↔
      ¬ LeavesTrace key sha256_hex db d args e de := by
  have hnothing : SameNames db d d := sameNames_of_eq fun _ => rfl
  unfold LeavesTrace
  unfold create_uploaded_file at hfail ⊢
  by_cases hdirectory : de.ensure_directory = false
  · rw [if_pos hdirectory]
    refine iff_of_true ⟨rfl, rfl, hnothing⟩ ?_
    rintro ⟨hensured, -⟩
    exact absurd (hdirectory.symm.trans hensured) (by simp)
  rw [if_neg hdirectory] at hfail ⊢
  cases hchecks : upload_checks key sha256_hex db args e with
  | error error' =>
    refine iff_of_true ⟨rfl, rfl, hnothing⟩ ?_
    rintro ⟨-, payload, hok, -⟩
    contradiction
  | ok payload =>
    rw [hchecks] at hfail
    dsimp only at hfail ⊢
    have hpayload : (de.ensure_directory = true ∧ ∃ payload' : UploadPayload,
        (Except.ok payload : Except ServiceError UploadPayload) = .ok payload' ∧
          Trace key db d args payload' e de) ↔ Trace key db d args payload e de := by
      simp [hdirectory]
    rw [hpayload]
    rcases place_cases key db d args.stored_name_prefix payload e de with
      ⟨p, hrow, hplace⟩ | ⟨hrow, db', id, hplace⟩ | ⟨hnone, hold, hplace⟩
    · rw [hplace] at hfail ⊢
      exact existing_trace_iff hrow hplace rfl hfail
    · exact new_trace_iff hrow hplace rfl hfail
    · rw [hplace]
      refine iff_of_true ⟨rfl, rfl, hnothing⟩ ?_
      rw [trace_old_iff (by simp [hplace])]
      simp [hold, hnone]

end Traces

def empty_store : Db × Disk :=
  ({ users := [⟨1, lit "u", false⟩], folders := [], files := [], physical_files := []
     next_file_id := 1, next_physical_id := 1 }, ⟨fun _ => none, fun _ => none⟩)

def one_byte_upload : UploadArgs :=
  { owner := lit "u", stored_name_prefix := lit "p", is_public := false, quota := ⟨0, 0⟩
    payload := { filename := lit "f.txt", content := [1], content_type := [], temp_path := []
                 sha256 := [], folder_id := 0, size := 1, use_temp_file := false } }

/-- Every statement is executed, but for the `INSERT INTO files` if it has an error,
and the `COMMIT`. -/
def statements (insert_file_errno : Option ℕ) (commit_ok : Bool) : UploadEvent :=
  ⟨true, true, true, true, fun _ => true, true, none, true, insert_file_errno, none,
    false, commit_ok, 0⟩

theorem one_byte_on_good_disk :
    create_uploaded_file id id empty_store.1 empty_store.2 one_byte_upload (statements none true)
        good_disk =
      FileStore.create_uploaded_file id id empty_store.1 empty_store.2 one_byte_upload
        (statements none true) :=
  create_uploaded_file_on_good_disk _ _ _ _ _ _ nofun

/-- The name is taken at the last moment, and the new file is removed again. -/
theorem taken_name_no_trace :
    (create_uploaded_file id id empty_store.1 empty_store.2 one_byte_upload
        (statements (some 1062) true) good_disk).result =
      .error ⟨.Conflict, lit "file name already exists"⟩ ∧
    NoTrace empty_store.1 empty_store.2 (create_uploaded_file id id empty_store.1 empty_store.2
      one_byte_upload (statements (some 1062) true) good_disk) := by
  have hfail : (create_uploaded_file id id empty_store.1 empty_store.2 one_byte_upload
      (statements (some 1062) true) good_disk).result =
        .error ⟨.Conflict, lit "file name already exists"⟩ := by decide +kernel
  refine ⟨hfail, (failed_upload_no_trace_iff id id _ _ _ _ _ _ hfail).mpr ?_⟩
  rintro ⟨-, payload, -, htrace⟩
  cases htrace with
  | not_committed placed r _ _ hinserted => contradiction
  | not_cleaned_up placed _ _ _ hunlink => contradiction
  | half_written _ hleft =>
    simp only [materialised, written_out, good_disk, empty_store] at hleft
    split at hleft <;> simp at hleft
  | stray_cleaned_up placed _ _ _ _ hpresent => contradiction
  | stray_overwritten _ _ hpresent => contradiction
  | missed p _ _ _ hpresent => contradiction

/-- **The `COMMIT` fails.** The row is gone and its file stays. -/
theorem uncommitted_file_stays :
    ∃ error, (create_uploaded_file id id empty_store.1 empty_store.2 one_byte_upload
        (statements none false) good_disk).result = .error error ∧
      ¬ NoTrace empty_store.1 empty_store.2 (create_uploaded_file id id empty_store.1 empty_store.2
        one_byte_upload (statements none false) good_disk) := by
  refine ⟨.unset, by decide +kernel, ?_⟩
  rintro ⟨-, -, hnames⟩
  rcases hnames (lit "p_" ++ [1] ++ lit ".txt") with hsame | ⟨-, p, hp, -⟩
  · exact absurd hsame (by decide +kernel)
  · exact absurd hp List.not_mem_nil

end AtlasWebServer.UploadFailures
