/-
The folder tree under concurrent requests: does an active item ever hang under a
deleted folder?

`delete_empty_folder` looks for children in two statements and deletes the folder in
a third; `create_folder`, `create_uploaded_file` and `restore_file` look for the
folder in one statement and put something into it in a later one. No statement
repeats the check of an earlier one, so two such requests can each find what they
hope for and then undo it for the other. `Keeps` says of one statement that this does
not happen at it; it is exactly what the tree needs (`folder_tree_iff`), and it can
fail (`folder_under_deleted`).
-/
import AtlasWebServer.Drive

set_option autoImplicit false

namespace AtlasWebServer.FolderTree

open StepSystem Bytes CString Tables List
open FileStore hiding World Label step system

open AtlasWebServer.Drive

variable {locked : ℕ → Bool} {args : UploadArgs} {e : Event} {point point' : UploadPoint} {d : Disk}
  {request : Request} {r : Db × Disk × Request} {w w' : World}

/-! ## The tree -/

/-- The root, or a folder that is not deleted. -/
def Attached (db : Db) (parent : Option ℤ) : Prop :=
  ∀ id ∈ parent, ∃ folder ∈ db.folders, folder.id = id ∧ folder.deleted_at = none

/-- Every active item hangs under the root or under an active folder. -/
structure Rooted (db : Db) : Prop where
  files : ∀ f ∈ db.files, f.deleted_at = none → Attached db f.folder_id
  folders : ∀ folder ∈ db.folders, folder.deleted_at = none → Attached db folder.parent_id

/-- No active item has the folder as its parent. -/
structure Childless (db : Db) (folder_id : ℤ) : Prop where
  files : ∀ f ∈ db.files, f.deleted_at = none → f.folder_id ≠ some folder_id
  folders : ∀ folder ∈ db.folders, folder.deleted_at = none → folder.id ≠ folder_id →
    folder.parent_id ≠ some folder_id

instance (db : Db) (parent : Option ℤ) : Decidable (Attached db parent) :=
  inferInstanceAs (Decidable (∀ id ∈ parent, _))

instance (db : Db) : Decidable (Rooted db) :=
  decidable_of_iff (_ ∧ _) ⟨fun h => ⟨h.1, h.2⟩, fun h => ⟨h.files, h.folders⟩⟩

instance (db : Db) (folder_id : ℤ) : Decidable (Childless db folder_id) :=
  decidable_of_iff (_ ∧ _) ⟨fun h => ⟨h.1, h.2⟩, fun h => ⟨h.files, h.folders⟩⟩

section Trees

variable {db db' : Db}

theorem attached_congr (h : db'.folders = db.folders) (parent : Option ℤ) :
    Attached db' parent ↔ Attached db parent := by
  unfold Attached
  rw [h]

theorem Attached.mono {parent : Option ℤ} (h : Attached db parent)
    (hsub : ∀ folder ∈ db.folders, folder ∈ db'.folders) : Attached db' parent := by
  intro id hid
  obtain ⟨folder, hmem, hfolder⟩ := h id hid
  exact ⟨folder, hsub folder hmem, hfolder⟩

theorem Rooted.of_files (h : Rooted db) (hfolders : db'.folders = db.folders)
    (hfiles : ∀ f ∈ db'.files, f.deleted_at = none →
      (∃ g ∈ db.files, g.deleted_at = none ∧ g.folder_id = f.folder_id) ∨
        Attached db f.folder_id) : Rooted db' where
  files := by
    intro f hf hactive
    rw [attached_congr hfolders]
    rcases hfiles f hf hactive with ⟨g, hg, hgactive, hfolder⟩ | hattached
    · rw [← hfolder]
      exact h.files g hg hgactive
    · exact hattached
  folders := by
    intro folder hmem hactive
    rw [hfolders] at hmem
    rw [attached_congr hfolders]
    exact h.folders folder hmem hactive

theorem Rooted.same (h : Rooted db) (hfolders : db'.folders = db.folders)
    (hfiles : db'.files = db.files) : Rooted db' := by
  apply h.of_files hfolders
  intro f hf hactive
  rw [hfiles] at hf
  exact .inl ⟨f, hf, hactive, rfl⟩

variable {selects : FileRow → Bool}

theorem Rooted.update_files (h : Rooted db) {set : FileRow → FileRow}
    (hset : ∀ f, (set f).deleted_at = none →
      (f.deleted_at = none ∧ f.folder_id = (set f).folder_id) ∨ Attached db (set f).folder_id) :
    Rooted (update_files db selects set) := by
  have hfolders : (FileStore.update_files db selects set).folders = db.folders := rfl
  apply h.of_files hfolders
  intro f hf
  obtain ⟨g, hg, rfl⟩ := mem_map.mp hf
  split_ifs
  · intro hactive
    rcases hset g hactive with ⟨hgactive, hfolder⟩ | hattached
    · exact .inl ⟨g, hg, hgactive, hfolder⟩
    · exact .inr hattached
  · intro hactive
    exact .inl ⟨g, hg, hactive, rfl⟩

theorem rooted_append_files (h : Rooted db) {rows : List FileRow}
    (hfolders : db'.folders = db.folders) (hfiles : db'.files = db.files ++ rows)
    (hrows : ∀ row ∈ rows, row.deleted_at = none) :
    Rooted db' ↔ ∀ row ∈ rows, Attached db row.folder_id := by
  constructor
  · intro h' row hrow
    rw [← attached_congr hfolders]
    exact h'.files row (hfiles ▸ mem_append_right _ hrow) (hrows row hrow)
  intro hattached
  apply h.of_files hfolders
  intro f hf hactive
  rw [hfiles] at hf
  rcases mem_append.mp hf with hold | hnew
  · exact .inl ⟨f, hold, hactive, rfl⟩
  · exact .inr (hattached f hnew)

theorem rooted_restore (h : Rooted db) {target : Option ℤ} {name : Bytes}
    (hselected : ∃ f ∈ db.files, selects f = true) :
    Rooted (update_files db selects (restored target name)) ↔ Attached db target := by
  constructor
  · intro h'
    obtain ⟨f, hf, hsel⟩ := hselected
    refine h'.files (restored target name f) ?_ rfl
    refine mem_map.mpr ⟨f, hf, ?_⟩
    rw [if_pos hsel]
  · intro hattached
    exact h.update_files fun f _ => .inr hattached

theorem rooted_append_folder (h : Rooted db) {row : FolderRow} (hfiles : db'.files = db.files)
    (hfolders : db'.folders = db.folders ++ [row]) (hrow : row.deleted_at = none)
    (hparent : row.parent_id ≠ some row.id) : Rooted db' ↔ Attached db row.parent_id := by
  have hsub : ∀ folder ∈ db.folders, folder ∈ db'.folders := by
    intro folder hmem
    rw [hfolders]
    exact mem_append_left _ hmem
  constructor
  · intro h' id hid
    have hmem : row ∈ db'.folders := by simp [hfolders]
    obtain ⟨folder, hfolder, hfid, hactive⟩ := h'.folders row hmem hrow id hid
    rw [hfolders] at hfolder
    rcases mem_append.mp hfolder with hold | hnew
    · exact ⟨folder, hold, hfid, hactive⟩
    · rw [mem_singleton.mp hnew] at hfid
      rw [← hfid] at hid
      exact absurd hid hparent
  · intro hattached
    constructor
    · intro f hf hactive
      rw [hfiles] at hf
      exact (h.files f hf hactive).mono hsub
    rw [hfolders]
    exact forall_mem_append.mpr
      ⟨fun folder hold hactive => (h.folders folder hold hactive).mono hsub,
      forall_mem_singleton.mpr fun _ => hattached.mono hsub⟩

theorem rooted_delete_folder (h : Rooted db) {selects : FolderRow → Bool} {folder_id now : ℤ}
    (hids : (db.folders.map FolderRow.id).Nodup)
    (hsel : ∀ folder, selects folder = true → folder.id = folder_id)
    (hselected : ∃ folder ∈ db.folders, selects folder = true) (hfiles : db'.files = db.files)
    (hfolders : db'.folders = db.folders.map fun folder =>
      if selects folder then { folder with deleted_at := some now } else folder) :
    Rooted db' ↔ Childless db folder_id := by
  -- the active folders are the old ones with another id
  have hactive_iff : ∀ folder, folder ∈ db'.folders ∧ folder.deleted_at = none ↔
      folder ∈ db.folders ∧ folder.deleted_at = none ∧ folder.id ≠ folder_id := by
    intro folder
    rw [hfolders, mem_map]
    constructor
    · rintro ⟨⟨old, hold, rfl⟩, hactive⟩
      by_cases hsold : selects old = true
      · rw [if_pos hsold] at hactive
        contradiction
      rw [if_neg hsold] at hactive ⊢
      refine ⟨hold, hactive, fun hid => hsold ?_⟩
      obtain ⟨deleted, hdeleted, hsdeleted⟩ := hselected
      have hsame : old = deleted :=
        inj_on_of_nodup_map hids hold hdeleted (hid.trans (hsel deleted hsdeleted).symm)
      rw [hsame]
      exact hsdeleted
    · rintro ⟨hold, hactive, hne⟩
      refine ⟨⟨folder, hold, ?_⟩, hactive⟩
      rw [if_neg fun hs => hne (hsel folder hs)]
  have hattached_iff : ∀ parent, Attached db' parent ↔
      Attached db parent ∧ parent ≠ some folder_id := by
    intro parent
    constructor
    · intro hattached
      constructor
      · intro id hid
        obtain ⟨folder, hmem, hfid, hactive⟩ := hattached id hid
        obtain ⟨hold, -, -⟩ := (hactive_iff folder).mp ⟨hmem, hactive⟩
        exact ⟨folder, hold, hfid, hactive⟩
      · rintro rfl
        obtain ⟨folder, hmem, hfid, hactive⟩ := hattached folder_id rfl
        exact ((hactive_iff folder).mp ⟨hmem, hactive⟩).2.2 hfid
    · rintro ⟨hattached, hne⟩ id hid
      obtain ⟨folder, hmem, hfid, hactive⟩ := hattached id hid
      have hother : folder.id ≠ folder_id := by
        rintro heq
        rw [← heq, hfid] at hne
        exact hne hid
      obtain ⟨hnew, -⟩ := (hactive_iff folder).mpr ⟨hmem, hactive, hother⟩
      exact ⟨folder, hnew, hfid, hactive⟩
  constructor
  · intro h'
    constructor
    · intro f hf hactive
      rw [← hfiles] at hf
      exact ((hattached_iff _).mp (h'.files f hf hactive)).2
    · intro folder hmem hactive hne
      obtain ⟨hnew, -⟩ := (hactive_iff folder).mpr ⟨hmem, hactive, hne⟩
      exact ((hattached_iff _).mp (h'.folders folder hnew hactive)).2
  · intro hchildless
    constructor
    · intro f hf hactive
      rw [hfiles] at hf
      exact (hattached_iff _).mpr ⟨h.files f hf hactive, hchildless.files f hf hactive⟩
    intro folder hmem hactive
    obtain ⟨hold, -, hne⟩ := (hactive_iff folder).mp ⟨hmem, hactive⟩
    exact (hattached_iff _).mpr
      ⟨h.folders folder hold hactive, hchildless.folders folder hold hactive hne⟩

end Trees

/-! ## What each statement has to find

A condition on the state before the statement. Only the four statements that put an
active item somewhere, or delete a folder, have one. -/

/-- The `COMMIT` of an upload finds the folder of its rows active. -/
def UploadKeeps (db : Db) (e : UploadEvent) : UploadPoint → Prop
  | .commit _ _ pending =>
      e.commit_ok = true → ¬ (pending.placed.physical_created = true ∧ e.failpoint = true) →
        ∀ row ∈ pending.rows, Attached db row.folder_id
  | _ => True

variable {K : Type} [DecidableEq K] {key : Bytes → K} {sha256_hex : Bytes → Bytes}

section Keeps

variable (key)

/-- The `UPDATE` of `restore_file`, where it restores a row, finds the folder it names
active. -/
def RequestKeeps (db : Db) (e : Event) : Request → Prop
  | .restore_update owner file_id folder_id restored_name =>
      e.ok 0 = true → (restore_row key db owner file_id folder_id restored_name).isSome = true →
        Attached db (nullable_id_value folder_id)
  | _ => True

/-- The `INSERT` of `create_folder`, where it inserts a row, finds the parent active; the
`UPDATE` of `delete_empty_folder`, where it deletes the folder, finds it empty. -/
def FolderKeeps (db : Db) (next_folder_id : ℤ) (e : Event) : FolderRequest → Prop
  | .create_insert owner parent_id safe_name =>
      e.ok 0 = true →
        (insert_folder key db owner parent_id safe_name next_folder_id).isOk = true →
        Attached db (nullable_id_value parent_id)
  | .delete_update owner folder =>
      e.ok 0 = true → (soft_delete_folder key db owner folder.id e.now).isSome = true →
        Childless db folder.id
  | _ => True

/-- The next statement of a request finds what it relies on. -/
def Keeps (w : World) : Label → Prop
  | .upload_step i e _ => ∀ upload ∈ w.uploads[i]?, UploadKeeps w.db e upload.point
  | .request_step i e => ∀ request ∈ w.requests[i]?, RequestKeeps key w.db e request
  | .folder_step i e =>
      ∀ request ∈ w.folder_requests[i]?, FolderKeeps key w.db w.next_folder_id e request
  | _ => True

instance (db : Db) (e : UploadEvent) (point : UploadPoint) :
    Decidable (UploadKeeps db e point) := by
  cases point <;> dsimp only [UploadKeeps] <;> infer_instance

instance (db : Db) (e : Event) (request : Request) : Decidable (RequestKeeps key db e request) := by
  cases request <;> dsimp only [RequestKeeps] <;> infer_instance

instance (db : Db) (next_folder_id : ℤ) (e : Event) (request : FolderRequest) :
    Decidable (FolderKeeps key db next_folder_id e request) := by
  cases request <;> dsimp only [FolderKeeps] <;> infer_instance

instance (w : World) (l : Label) : Decidable (Keeps key w l) := by
  cases l <;> dsimp only [Keeps] <;> infer_instance

end Keeps

/-! ## One step -/

/-- What the tables and the uploads in flight have whatever the tree looks like: the
key of `folders`, ids below the counter, and active rows about to be committed. -/
structure KeysOk (w : World) : Prop where
  ids : (w.db.folders.map FolderRow.id).Nodup
  fresh : ∀ folder ∈ w.db.folders, folder.id < w.next_folder_id
  pending : ∀ upload ∈ w.uploads, ∀ user_id payload pending,
    upload.point = .commit user_id payload pending →
      ∀ row ∈ pending.rows, row.deleted_at = none

section Steps

variable {db db' : Db} {next_folder_id : ℤ} {l : Label}

theorem upload_move_rooted {e : UploadEvent} (h : Rooted db)
    (hpending : ∀ user_id payload pending, point = .commit user_id payload pending →
      ∀ row ∈ pending.rows, row.deleted_at = none)
    (hmove : UploadMove key db locked args e point db' point') :
    Rooted db' ↔ UploadKeeps db e point := by
  cases hmove with
  | returns _ _ error hrows hcommit =>
    refine iff_of_true (h.same hrows.folders hrows.files) ?_
    cases point with
    | commit user_id payload pending =>
      exact fun hok hpoint => absurd (hcommit hok) hpoint
    | _ => trivial
  | inserts user_id payload payload' snapshot _ pending hrows =>
    exact iff_of_true (h.same hrows.folders hrows.files) trivial
  | commits user_id payload pending result hcommit hpoint =>
    have hactive := hpending user_id payload pending rfl
    have hfiles : (commit_upload db pending).files = db.files ++ pending.rows := rfl
    have hfolders : (commit_upload db pending).folders = db.folders := rfl
    rw [rooted_append_files h hfolders hfiles hactive]
    unfold UploadKeeps
    simp only [hcommit, hpoint, not_false_eq_true, forall_const]
  | _ => exact iff_of_true h trivial

theorem request_step_rooted_other (h : Rooted db) (hstep : request_step key db d e request = some r)
    (hother : ∀ owner file_id folder_id name,
      request ≠ .restore_update owner file_id folder_id name) : Rooted r.1 := by
  cases request_step_move hstep with
  | soft_delete file_id => exact h.update_files (by simp)
  | restore hrequest => exact absurd hrequest (hother _ _ _ _)
  | visibility => exact h.update_files fun f hactive => .inl ⟨hactive, rfl⟩
  | hard_delete owner file_id =>
    obtain ⟨-, hfolders, keep, hfiles⟩ := hard_delete_transaction_rows key db owner file_id e
    apply h.of_files hfolders
    intro f hf hactive
    rw [hfiles] at hf
    exact .inl ⟨f, mem_of_mem_filter hf, hactive, rfl⟩
  | _ => exact h

theorem request_step_rooted (h : Rooted db) (hstep : request_step key db d e request = some r) :
    Rooted r.1 ↔ RequestKeeps key db e request := by
  cases request with
  | restore_update owner file_id folder_id name =>
    simp only [request_step] at hstep
    dsimp only [RequestKeeps]
    cases hrow : if e.ok 0 then restore_row key db owner file_id folder_id name else none with
    | none =>
      rw [hrow] at hstep
      cases hstep
      refine iff_of_true h fun hok hsome => ?_
      rw [if_pos hok] at hrow
      rw [hrow] at hsome
      contradiction
    | some db' =>
      rw [hrow] at hstep
      cases hstep
      split_ifs at hrow with hok
      obtain ⟨hselected, hdb⟩ := restore_row_spec hrow
      rw [hdb, rooted_restore h hselected, hrow]
      simp [hok]
  | _ => exact iff_of_true (request_step_rooted_other h hstep (by simp)) trivial

theorem folder_step_rooted {request : FolderRequest} {r : Db × ℤ × FolderRequest} (h : Rooted db)
    (hids : (db.folders.map FolderRow.id).Nodup)
    (hfresh : ∀ folder ∈ db.folders, folder.id < next_folder_id)
    (hstep : folder_step key db next_folder_id e request = some r) :
    Rooted r.1 ↔ FolderKeeps key db next_folder_id e request := by
  cases request with
  | create_insert owner parent_id safe_name =>
    simp only [folder_step] at hstep
    dsimp only [FolderKeeps]
    by_cases hok : e.ok 0 = true
    · rw [if_neg (by simp [hok])] at hstep
      cases hinsert : insert_folder key db owner parent_id safe_name next_folder_id with
      | error errno =>
        rw [hinsert] at hstep
        cases hstep
        exact iff_of_true h (by rintro _ ⟨⟩)
      | ok db' =>
        rw [hinsert] at hstep
        cases hstep
        obtain ⟨user_id, hparent, rfl⟩ := insert_folder_rows hinsert
        have hactive : (FolderRow.mk next_folder_id user_id (nullable_id_value parent_id)
          safe_name none).deleted_at = none := rfl
        refine Iff.trans (rooted_append_folder h ?_ ?_ hactive ?_) ?_
        · rfl
        · rfl
        · -- the foreign key is on a row that was there before
          intro hself
          obtain ⟨folder, hmem, hid⟩ := hparent next_folder_id hself
          exact absurd (hfresh folder hmem) (by omega)
        · simp [hok, Except.isOk, Except.toBool]
    · rw [if_pos (by simpa using hok)] at hstep
      cases hstep
      exact iff_of_true h fun hok' => absurd hok' hok
  | delete_update owner folder =>
    simp only [folder_step] at hstep
    dsimp only [FolderKeeps]
    cases hdelete : if e.ok 0 then soft_delete_folder key db owner folder.id e.now else none with
    | none =>
      rw [hdelete] at hstep
      cases hstep
      refine iff_of_true h fun hok hsome => ?_
      rw [if_pos hok] at hdelete
      rw [hdelete] at hsome
      contradiction
    | some db' =>
      rw [hdelete] at hstep
      cases hstep
      split_ifs at hdelete with hok
      obtain ⟨hselected, hdb⟩ := soft_delete_folder_rows hdelete
      have hsel : ∀ row, active_folder key db owner folder.id row = true →
          row.id = folder.id := by
        intro row hactive
        simp only [active_folder, Bool.and_eq_true, decide_eq_true_eq] at hactive
        exact hactive.1.1
      rw [rooted_delete_folder h hids hsel hselected (by rw [hdb]) (by rw [hdb]), hdelete]
      simp [hok]
  | _ =>
    rcases folder_step_cases hstep with ⟨hdb, -⟩ | ⟨_, _, _, hrequest, -⟩ | ⟨_, _, hrequest, -⟩
    · rw [hdb]
      exact iff_of_true h trivial
    · contradiction
    · contradiction

theorem step_rooted (hkeys : KeysOk w) (h : Rooted w.db)
    (hstep : step key sha256_hex w l = some w') :
    Rooted w'.db ↔ Keeps key w l := by
  cases l with
  | upload_step i e stale =>
    simp only [step] at hstep
    split at hstep
    · contradiction
    rename_i upload hi
    obtain ⟨r, hr, rfl⟩ := Option.map_eq_some_iff.mp hstep
    have hpending := hkeys.pending upload (mem_of_getElem? hi)
    simpa [Keeps, hi] using upload_move_rooted h hpending (upload_step_move hr)
  | request_step i e =>
    simp only [step] at hstep
    split at hstep
    · contradiction
    · rename_i request hi
      obtain ⟨r, hr, rfl⟩ := Option.map_eq_some_iff.mp hstep
      simpa [Keeps, hi] using request_step_rooted h hr
  | folder_step i e =>
    simp only [step] at hstep
    split at hstep
    · contradiction
    · rename_i request hi
      obtain ⟨r, hr, rfl⟩ := Option.map_eq_some_iff.mp hstep
      simpa [Keeps, hi] using folder_step_rooted h hkeys.ids hkeys.fresh hr
  | file_request l =>
    obtain ⟨request, -, rfl⟩ := Option.map_eq_some_iff.mp hstep
    exact iff_of_true h trivial
  | _ =>
    cases hstep
    exact iff_of_true h trivial

theorem KeysOk.of_folders (h : KeysOk w) (hfolders : w'.db.folders = w.db.folders)
    (hnext : w'.next_folder_id = w.next_folder_id)
    (huploads : ∀ upload ∈ w'.uploads, upload ∈ w.uploads ∨ ∀ user_id payload pending,
      upload.point = .commit user_id payload pending →
        ∀ row ∈ pending.rows, row.deleted_at = none) : KeysOk w' where
  ids := by
    rw [hfolders]
    exact h.ids
  fresh := by
    rw [hfolders, hnext]
    exact h.fresh
  pending := by
    intro upload hmem
    rcases huploads upload hmem with hold | hready
    · exact h.pending upload hold
    · exact hready

theorem KeysOk.same (h : KeysOk w) (hfolders : w'.db.folders = w.db.folders)
    (hnext : w'.next_folder_id = w.next_folder_id) (huploads : w'.uploads = w.uploads) :
    KeysOk w' := by
  apply h.of_folders hfolders hnext
  intro upload hmem
  rw [huploads] at hmem
  exact .inl hmem

theorem folder_step_keys {request : FolderRequest} {r : Db × ℤ × FolderRequest}
    (hids : (db.folders.map FolderRow.id).Nodup)
    (hfresh : ∀ folder ∈ db.folders, folder.id < next_folder_id)
    (hstep : folder_step key db next_folder_id e request = some r) :
    (r.1.folders.map FolderRow.id).Nodup ∧ ∀ folder ∈ r.1.folders, folder.id < r.2.1 := by
  rcases folder_step_cases hstep with ⟨hdb, hnext⟩ | ⟨_, _, _, -, -, hnext, hinsert⟩
    | ⟨_, _, -, -, hnext, hdelete⟩
  · rw [hdb, hnext]
    exact ⟨hids, hfresh⟩
  · obtain ⟨user_id, -, hdb⟩ := insert_folder_rows hinsert
    rw [hdb, hnext]
    constructor
    · exact nodup_append_fresh hids hfresh (nodup_singleton _) (by simp)
    · exact forall_mem_append.mpr ⟨fun folder hold => (hfresh folder hold).trans (lt_add_one _),
        forall_mem_singleton.mpr (lt_add_one _)⟩
  · rw [(soft_delete_folder_rows hdelete).2, hnext]
    constructor
    · rw [map_map]
      convert hids using 1
      refine map_congr_left fun folder _ => ?_
      dsimp only [Function.comp]
      split_ifs <;> rfl
    · intro folder hmem
      obtain ⟨old, hold, rfl⟩ := mem_map.mp hmem
      split_ifs <;> exact hfresh old hold

theorem upload_move_ready {e : UploadEvent}
    (hmove : UploadMove key db locked args e point db' point') :
    ∀ user_id payload pending, point' = .commit user_id payload pending →
      ∀ row ∈ pending.rows, row.deleted_at = none := by
  cases hmove with
  | inserts user_id payload payload' snapshot _ pending hrows hsize hnew =>
      rintro _ _ _ ⟨⟩
      exact fun row hrow => (hnew row hrow).2.2
  | _ => exact fun _ _ _ heq => absurd heq (by simp)

theorem upload_move_folders {e : UploadEvent}
    (hmove : UploadMove key db locked args e point db' point') : db'.folders = db.folders := by
  cases hmove with
  | returns _ _ error hrows => exact hrows.folders
  | inserts user_id payload payload' snapshot _ pending hrows => exact hrows.folders
  | _ => rfl

theorem request_step_folders (hstep : request_step key db d e request = some r) :
    r.1.folders = db.folders := by
  cases request_step_move hstep with
  | restore _ _ hrow =>
    rw [(restore_row_spec hrow).2]
    rfl
  | hard_delete owner file_id => exact (hard_delete_transaction_rows key db owner file_id e).2.1
  | _ => rfl

theorem KeysOk.step (h : KeysOk w) (hstep : step key sha256_hex w l = some w') : KeysOk w' := by
  cases l with
  | create_uploaded_file args =>
    cases hstep
    refine h.of_folders rfl rfl (forall_mem_append.mpr ⟨fun upload hold => .inl hold, ?_⟩)
    exact forall_mem_singleton.mpr (.inr fun _ _ _ heq => absurd heq (by simp))
  | upload_step i e stale =>
    simp only [Drive.step] at hstep
    split at hstep
    · contradiction
    obtain ⟨r, hr, rfl⟩ := Option.map_eq_some_iff.mp hstep
    have hmove := upload_step_move hr
    refine h.of_folders (upload_move_folders hmove) rfl ?_
    intro u hmem
    rcases mem_or_eq_of_mem_set hmem with hold | rfl
    · exact .inl hold
    · exact .inr (upload_move_ready hmove)
  | request_step i e =>
    simp only [Drive.step] at hstep
    split at hstep
    · contradiction
    · obtain ⟨r, hr, rfl⟩ := Option.map_eq_some_iff.mp hstep
      exact h.same (request_step_folders hr) rfl rfl
  | folder_step i e =>
    simp only [Drive.step] at hstep
    split at hstep
    · contradiction
    · obtain ⟨r, hr, rfl⟩ := Option.map_eq_some_iff.mp hstep
      obtain ⟨hids, hfresh⟩ := folder_step_keys h.ids h.fresh hr
      exact ⟨hids, hfresh, h.pending⟩
  | file_request l =>
    obtain ⟨request, -, rfl⟩ := Option.map_eq_some_iff.mp hstep
    exact h.same rfl rfl rfl
  | _ =>
    cases hstep
    exact h.same rfl rfl rfl

end Steps

/-! ## Every run -/

section Runs

variable (key sha256_hex)

/-- The drive, from tables in which the tree is right. -/
def rooted_drive : System World Label where
  init w := (system key sha256_hex).init w ∧ Rooted w.db
  step := step key sha256_hex

/-- **The tree of folders.** In every run whose statements find what they rely on, no
active item hangs under a deleted folder; and after such a run the next statement of
any request keeps it so exactly if it finds what it relies on. -/
theorem folder_tree_iff (w : World)
    (hw : (rooted_drive key sha256_hex).ReachableVia (Keeps key) w) :
    Rooted w.db ∧ ∀ l w', (rooted_drive key sha256_hex).step w l = some w' →
      (Rooted w'.db ↔ Keeps key w l) := by
  have hinv : KeysOk w ∧ Rooted w.db := by
    refine System.ReachableVia.invariant _ (P := fun w => KeysOk w ∧ Rooted w.db) ?_ ?_ hw
    · rintro w ⟨⟨huploads, -, -, -, hids, hfresh⟩, hrooted⟩
      refine ⟨⟨hids, hfresh, ?_⟩, hrooted⟩
      intro upload hmem
      rw [huploads] at hmem
      exact absurd hmem not_mem_nil
    · rintro w l w' hkeeps ⟨hkeys, hrooted⟩ hstep
      exact ⟨hkeys.step hstep, (step_rooted hkeys hrooted hstep).mpr hkeeps⟩
  exact ⟨hinv.2, fun l w' hstep => step_rooted hinv.1 hinv.2 hstep⟩

end Runs

def one_folder : World :=
  { db := { users := [⟨1, lit "u", false⟩], folders := [⟨1, 1, none, lit "a", none⟩], files := []
            physical_files := [], next_file_id := 1, next_physical_id := 1 }
    disk := ⟨fun _ => none, fun _ => none⟩
    next_folder_id := 2, uploads := [], requests := [], folder_requests := [] }

theorem one_folder_init : (rooted_drive id id).init one_folder :=
  ⟨⟨rfl, rfl, rfl, nofun, by decide, by decide⟩, by decide⟩

/-- `create_folder` in the folder `a`, and `delete_empty_folder` of `a`; the list says
which of the two makes the next step. -/
def create_and_delete (schedule : List ℕ) : List Label :=
  [.create_folder (lit "u") 1 (lit "b"), .delete_empty_folder (lit "u") 1] ++
    schedule.map fun i => .folder_step i ⟨fun _ => true, 7⟩

/-- The new folder is there before the deletion looks for children. -/
theorem create_before_delete :
    ∃ w, (rooted_drive id id).ReachableVia (Keeps id) w ∧ w.db.folders.length = 2 ∧
      Rooted w.db := by
  obtain ⟨w, -, hw, hlength⟩ := System.ReachableVia.of_run (rooted_drive id id) (Keeps id)
    one_folder_init (create_and_delete [0, 0, 0, 0, 1, 1]) (by decide +kernel)
    (fun w => decide (w.db.folders.length = 2)) (by decide +kernel)
  exact ⟨w, hw, of_decide_eq_true hlength, (folder_tree_iff id id w hw).1⟩

/-- **A folder under a deleted one.** `create_folder` has found the parent and that the
name is free; `delete_empty_folder` finds no child and deletes the parent; the `INSERT`
follows. -/
theorem folder_under_deleted : ∃ w, (rooted_drive id id).Reachable w ∧ ¬ Rooted w.db := by
  obtain ⟨w, hw, hbad⟩ := System.Reachable.of_run (rooted_drive id id) one_folder_init
    (create_and_delete [0, 0, 1, 1, 1, 1, 0]) (fun w => decide (¬ Rooted w.db)) (by decide +kernel)
  exact ⟨w, hw, of_decide_eq_true hbad⟩

end AtlasWebServer.FolderTree
