/-
The path on disk a download is served from.

`private_file_download` and `public_file_download` take the stored name from
`fetch_file_record`, which reads `physical_files` and only falls back to `files`;
`share_download` takes it from `fetch_file_share`, which reads `files`. So a file has
two names, and nothing in the schema ties them together.

They are the same because of how rows come to be: every branch of
`create_uploaded_file` -- a new physical file, one found by its digest, one whose
content had to be written again, one found after a lost race for the digest -- copies
the name of the physical file it settles on, and no statement ever changes either
column afterwards. What has to be carried along is that the physical file stays the
one the row was made with: ids are not used twice, and a `ROLLBACK` does not give the
counters back.
-/
import AtlasWebServer.HttpMessage
import AtlasWebServer.ShareAccess

set_option autoImplicit false

namespace AtlasWebServer.DownloadPaths

open StepSystem Bytes Tables List
open Http (HttpResponse)
open FileStore hiding World Label step system started
open Shares hiding Db
open ShareAccess hiding World Label step system

/-! ## The three downloads -/

def storage_root (doc_root : Bytes) : Bytes := doc_root ++ lit "/uploads"

def file_path (doc_root stored_name : Bytes) : Bytes :=
  storage_root doc_root ++ lit "/" ++ stored_name

/-- The response of the three handlers to a record. -/
def file_response (doc_root : Bytes) (record : ManagedFileRecord) : HttpResponse :=
  .set_file (file_path doc_root record.stored_name) record.content_type record.original_name

/-- `private_file_download`, behind its checks of session and path. -/
def private_file_download (doc_root : Bytes) (db : Db) (current_user : Bytes) (file_id : ℤ)
    (e : Event) : Except ServiceError HttpResponse :=
  (load_owned_file_record db current_user file_id false e).map (file_response doc_root)

/-- `public_file_download`, behind its check of the path. -/
def public_file_download (doc_root : Bytes) (db : Db) (file_id : ℤ) (e : Event) :
    Except ServiceError HttpResponse :=
  (load_public_file_record db file_id e).map (file_response doc_root)

variable {K : Type} [DecidableEq K] {key : Bytes → K} {sha256_hex : Bytes → Bytes}

section System

variable (key sha256_hex)

/-- `share_download`, behind its check of the path. -/
def share_download (doc_root : Bytes) (db : Shares.Db) (token access_code : Bytes) (e : Event) :
    Except ServiceError HttpResponse :=
  (load_share_download key sha256_hex db token access_code e).2.map fun r =>
    file_response doc_root r.1

/-! ## Histories -/

/-- The store with its requests, and `file_shares`. -/
structure World where
  store : FileStore.World
  file_shares : List FileShareRow

def World.db (w : World) : Shares.Db := ⟨w.store.db, w.file_shares⟩

/-- A step of the store, or a call about a link. -/
inductive Label
  | store (l : FileStore.Label)
  | create_share_link (owner : Bytes) (file_id : ℤ) (options : ShareOptions)
      (tokens : ℕ → Bytes) (e : Event)
  | load_share_download (token access_code : Bytes) (e : Event)

def cascade (db : Db) (file_shares : List FileShareRow) : List FileShareRow :=
  file_shares.filter fun s => db.files.any fun f => decide (f.id = s.file_id)

def step (w : World) : Label → Option World
  | .store l =>
      (FileStore.step key sha256_hex w.store l).map fun store =>
        ⟨store, cascade store.db w.file_shares⟩
  | .create_share_link owner file_id options tokens e =>
      some { w with
        file_shares :=
          (create_share_link key sha256_hex w.db owner file_id options tokens e).1.file_shares }
  | .load_share_download token access_code e =>
      some { w with
        file_shares :=
          (load_share_download key sha256_hex w.db token access_code e).1.file_shares }

/-- Empty `files`, `physical_files` and `file_shares`. -/
def system : System World Label where
  init w := (FileStore.system key sha256_hex).init w.store ∧ w.file_shares = []
  step := step key sha256_hex

end System

/-! ## The two names of a file -/

/-- A file has the name of its physical file, and neither id will be given out again. -/
structure NamesAgree (db : Db) : Prop where
  file_ids : (db.files.map FileRow.id).Nodup
  file_id_lt : ∀ f ∈ db.files, f.id < db.next_file_id
  physical_ids : (db.physical_files.map PhysicalFileRow.id).Nodup
  physical_id_lt : ∀ p ∈ db.physical_files, p.id < db.next_physical_id
  reference_lt : ∀ f ∈ db.files, f.physical_id < db.next_physical_id
  names : ∀ f ∈ db.files, ∀ p ∈ db.physical_files, p.id = f.physical_id →
    p.stored_name = f.stored_name

/-- Every row of `db'` comes from a row of `db`: with the same names, and with the same
ids, of which none is twice in `db'` unless it is in `db`. -/
structure KeepsNames (db db' : Db) : Prop where
  file_ids : (db'.files.map FileRow.id).Sublist (db.files.map FileRow.id)
  files : ∀ g ∈ db'.files, ∃ f ∈ db.files,
    f.id = g.id ∧ f.physical_id = g.physical_id ∧ f.stored_name = g.stored_name
  physical_ids :
    (db'.physical_files.map PhysicalFileRow.id).Sublist (db.physical_files.map PhysicalFileRow.id)
  physical_files : Inherits db db'
  next_file_id : db.next_file_id ≤ db'.next_file_id
  next_physical_id : db.next_physical_id ≤ db'.next_physical_id

section Rows

variable {db db' db'' : Db}

theorem NamesAgree.keeps (h : NamesAgree db) (hkeeps : KeepsNames db db') : NamesAgree db' where
  file_ids := h.file_ids.sublist hkeeps.file_ids
  file_id_lt := by
    intro g hg
    obtain ⟨f, hf, hid, -⟩ := hkeeps.files g hg
    rw [← hid]
    exact lt_of_lt_of_le (h.file_id_lt f hf) hkeeps.next_file_id
  physical_ids := h.physical_ids.sublist hkeeps.physical_ids
  physical_id_lt := by
    intro q hq
    obtain ⟨p, hp, hid, -⟩ := hkeeps.physical_files q hq
    rw [← hid]
    exact lt_of_lt_of_le (h.physical_id_lt p hp) hkeeps.next_physical_id
  reference_lt := by
    intro g hg
    obtain ⟨f, hf, -, hphysical, -⟩ := hkeeps.files g hg
    rw [← hphysical]
    exact lt_of_lt_of_le (h.reference_lt f hf) hkeeps.next_physical_id
  names := by
    intro g hg q hq hreference
    obtain ⟨f, hf, -, hphysical, hname⟩ := hkeeps.files g hg
    obtain ⟨p, hp, hid, hpname, -⟩ := hkeeps.physical_files q hq
    rw [← hpname, ← hname]
    apply h.names f hf p hp
    rw [hid, hphysical, hreference]

theorem KeepsNames.refl (db : Db) : KeepsNames db db where
  file_ids := List.Sublist.refl _
  files := fun g hg => ⟨g, hg, rfl, rfl, rfl⟩
  physical_ids := List.Sublist.refl _
  physical_files := .refl db
  next_file_id := le_refl _
  next_physical_id := le_refl _

theorem KeepsNames.trans (h : KeepsNames db db') (h' : KeepsNames db' db'') :
    KeepsNames db db'' where
  file_ids := h'.file_ids.trans h.file_ids
  files := by
    intro k hk
    obtain ⟨g, hg, hid', hphysical', hname'⟩ := h'.files k hk
    obtain ⟨f, hf, hid, hphysical, hname⟩ := h.files g hg
    exact ⟨f, hf, hid.trans hid', hphysical.trans hphysical', hname.trans hname'⟩
  physical_ids := h'.physical_ids.trans h.physical_ids
  physical_files := h.physical_files.trans h'.physical_files
  next_file_id := h.next_file_id.trans h'.next_file_id
  next_physical_id := h.next_physical_id.trans h'.next_physical_id

theorem keeps_rollback {after : Db} (hfile : db.next_file_id ≤ after.next_file_id)
    (hphysical : db.next_physical_id ≤ after.next_physical_id) :
    KeepsNames db (rollback db after) where
  file_ids := List.Sublist.refl _
  files := fun g hg => ⟨g, hg, rfl, rfl, rfl⟩
  physical_ids := List.Sublist.refl _
  physical_files := fun q hq => ⟨q, hq, rfl, rfl, rfl⟩
  next_file_id := hfile
  next_physical_id := hphysical

theorem keeps_update_files {selects : FileRow → Bool} {set : FileRow → FileRow}
    (hset : ∀ f, (set f).id = f.id ∧ (set f).physical_id = f.physical_id ∧
      (set f).stored_name = f.stored_name) : KeepsNames db (update_files db selects set) where
  file_ids := by
    show ((db.files.map _).map FileRow.id).Sublist _
    rw [map_map]
    refine (map_congr_left fun f _ => ?_) ▸ List.Sublist.refl _
    rw [Function.comp_apply]
    split
    · exact (hset f).1.symm
    · rfl
  files := by
    intro g hg
    obtain ⟨f, hf, rfl⟩ := mem_map.mp hg
    refine ⟨f, hf, ?_⟩
    split
    · exact ⟨(hset f).1.symm, (hset f).2.1.symm, (hset f).2.2.symm⟩
    · exact ⟨rfl, rfl, rfl⟩
  physical_ids := List.Sublist.refl _
  physical_files := fun q hq => ⟨q, hq, rfl, rfl, rfl⟩
  next_file_id := le_refl _
  next_physical_id := le_refl _

theorem keeps_delete_physical (physical_id : ℤ) :
    KeepsNames db (delete_physical_file_if_unreferenced db physical_id).1 where
  file_ids := List.Sublist.refl _
  files := fun g hg => ⟨g, hg, rfl, rfl, rfl⟩
  physical_ids := List.filter_sublist.map _
  physical_files := fun q hq => ⟨q, List.mem_of_mem_filter hq, rfl, rfl, rfl⟩
  next_file_id := le_refl _
  next_physical_id := le_refl _

variable {file_id : ℤ} {d : Disk} {e : Event} {p : PhysicalFileRow} {w : World}

theorem keeps_hard_delete_row {owner : Bytes}
    (h : hard_delete_row key db owner file_id = some db') :
    KeepsNames db db' := by
  unfold hard_delete_row at h
  split_ifs at h
  obtain ⟨f, -, rfl⟩ := Option.map_eq_some_iff.mp h
  refine
    { file_ids := filter_sublist.map _
      files := fun g hg => ⟨g, mem_of_mem_filter hg, rfl, rfl, rfl⟩
      physical_ids := ?_
      physical_files := ?_
      next_file_id := le_refl _
      next_physical_id := le_refl _ }
  · have hids := map_set_ref_count_ids f.physical_id (fun n => max (n - 1) 0) db.physical_files
    exact hids ▸ List.Sublist.refl _
  · intro q hq
    obtain ⟨p, hp, rfl⟩ := mem_map.mp hq
    exact ⟨p, hp, set_ref_count_same f.physical_id (fun n => max (n - 1) 0) p⟩

theorem keeps_hard_delete_transaction (key : Bytes → K) (db : Db) (owner : Bytes) (file_id : ℤ)
    (e : Event) : KeepsNames db (hard_delete_transaction key db owner file_id e).1 := by
  rcases hard_delete_transaction_cases key db owner file_id e with
    ⟨hr, -⟩ | ⟨_, db', -, hdel, hr, -⟩
  · rw [hr]
    exact .refl db
  have hdeleted := keeps_hard_delete_row hdel
  rw [hr]
  split
  · exact hdeleted.trans (keeps_delete_physical _)
  · exact hdeleted

theorem keeps_request_step {request : Request} {r : Db × Disk × Request}
    (h : request_step key db d e request = some r) : KeepsNames db r.1 := by
  cases request_step_move h with
  | read => exact .refl db
  | remove => exact .refl db
  | restore _ _ hrow =>
    rw [(restore_row_spec hrow).2]
    exact keeps_update_files fun f => ⟨rfl, rfl, rfl⟩
  | hard_delete owner file_id => exact keeps_hard_delete_transaction key db owner file_id e
  | _ => exact keeps_update_files fun f => ⟨rfl, rfl, rfl⟩

/-! ## Uploads -/

theorem NamesAgree.append_physical (h : NamesAgree db) (hid : p.id = db.next_physical_id) :
    NamesAgree { db with
      physical_files := db.physical_files ++ [p]
      next_physical_id := db.next_physical_id + 1 } where
  file_ids := h.file_ids
  file_id_lt := h.file_id_lt
  physical_ids := by
    apply nodup_append_fresh h.physical_ids h.physical_id_lt
    · exact nodup_singleton _
    · simp [hid]
  physical_id_lt := by
    intro q hq
    show q.id < db.next_physical_id + 1
    rw [mem_append, mem_singleton] at hq
    rcases hq with hq | rfl
    · have := h.physical_id_lt q hq
      omega
    · omega
  reference_lt := by
    intro f hf
    show f.physical_id < db.next_physical_id + 1
    have := h.reference_lt f hf
    omega
  names := by
    intro f hf q hq hreference
    rw [mem_append, mem_singleton] at hq
    rcases hq with hq | rfl
    · exact h.names f hf q hq hreference
    · have := h.reference_lt f hf
      omega

theorem NamesAgree.append_files (h : NamesAgree db) {rows : List FileRow}
    (hnew : NewRows db p.id rows) (hp : p ∈ db.physical_files)
    (hname : ∀ row ∈ rows, p.stored_name = row.stored_name) :
    NamesAgree (append_files db p.id rows) where
  file_ids := nodup_append_fresh h.file_ids h.file_id_lt hnew.ids fun row hrow =>
    (hnew.range row hrow).1
  file_id_lt := by
    intro f hf
    show f.id < db.next_file_id + rows.length
    rcases mem_append.mp hf with hf | hf
    · have := h.file_id_lt f hf
      omega
    · exact (hnew.range f hf).2
  physical_ids := by
    have hids := map_set_ref_count_ids p.id (· + rows.length) db.physical_files
    show ((db.physical_files.map (set_ref_count p.id (· + rows.length))).map _).Nodup
    rw [hids]
    exact h.physical_ids
  physical_id_lt := by
    intro q hq
    obtain ⟨q', hq', rfl⟩ := mem_map.mp hq
    have hsame := set_ref_count_same p.id (· + rows.length) q'
    exact lt_of_eq_of_lt hsame.1.symm (h.physical_id_lt q' hq')
  reference_lt := by
    refine forall_mem_append.mpr ⟨h.reference_lt, fun f hf => ?_⟩
    rw [hnew.physical f hf]
    exact h.physical_id_lt p hp
  names := by
    intro f hf q hq hreference
    obtain ⟨q', hq', rfl⟩ := mem_map.mp hq
    have hsame := set_ref_count_same p.id (· + rows.length) q'
    refine hsame.2.1.symm.trans ?_
    have hreference' : q'.id = f.physical_id := hsame.1.trans hreference
    rcases mem_append.mp hf with hf | hf
    · exact h.names f hf q' hq' hreference'
    -- ids are unique, so this is the physical file the rows were made with
    have heq : q' = p :=
      inj_on_of_nodup_map h.physical_ids hq' hp (hreference'.trans (hnew.physical f hf))
    rw [heq, hname f hf]

theorem place_physical_file_names {stored_name_start : Bytes} {payload : UploadPayload}
    {e : UploadEvent} {placed : Placed} (h : NamesAgree db)
    (hplaced : place_physical_file key db d stored_name_start payload e = some placed) :
    NamesAgree placed.db ∧ placed.db.next_file_id = db.next_file_id ∧
      db.next_physical_id ≤ placed.db.next_physical_id ∧
      ∃ p ∈ placed.db.physical_files, p.id = placed.physical_id ∧
        p.stored_name = placed.stored_name := by
  rcases place_physical_file_cases hplaced with ⟨p, hp, -, rfl⟩ | ⟨-, -, rfl⟩
  · exact ⟨h, rfl, le_refl _, p, hp, rfl, rfl⟩
  refine ⟨h.append_physical rfl, rfl, ?_, _, mem_append_right _ (mem_singleton.mpr rfl), rfl, rfl⟩
  show db.next_physical_id ≤ db.next_physical_id + 1
  omega

theorem NamesAgree.upload (h : NamesAgree db) (key : Bytes → K) (sha256_hex : Bytes → Bytes)
    (d : Disk) (args : UploadArgs) (e : UploadEvent) :
    NamesAgree (create_uploaded_file key sha256_hex db d args e).db := by
  have houtcome := create_uploaded_file_outcome key sha256_hex db d args e
  generalize create_uploaded_file key sha256_hex db d args e = r at houtcome ⊢
  cases houtcome with
  | refused error => exact h
  | rolled_back after disk error hchecks hplaced hlater hlater' hdisk =>
    obtain ⟨-, hfile, hphysical, -⟩ := place_physical_file_names h hplaced
    exact h.keeps (keeps_rollback (hfile ▸ hlater) (hphysical.trans hlater'))
  | stored db' file_id result hchecks hplaced hinsert =>
    obtain ⟨hnames, -, -, p, hp, hpid, hpname⟩ := place_physical_file_names h hplaced
    obtain ⟨rows, hnew, hrows, -, -, hr⟩ := insert_file_rows hinsert
    obtain rfl : db' = _ := hr
    rw [show (file_record args _ _).physical_id = p.id from hpid.symm] at hnew ⊢
    refine hnames.append_files hnew hp fun row hrow => ?_
    exact hpname.trans (congrArg FileRow.stored_name (hrows row hrow)).symm

/-! ## Whole histories -/

variable {sha256_hex : Bytes → Bytes}

theorem NamesAgree.init (hw : (system key sha256_hex).init w) : NamesAgree w.store.db := by
  obtain ⟨⟨hfiles, hphysical, -⟩, -⟩ := hw
  constructor <;> simp [hfiles, hphysical]

theorem NamesAgree.step {w' : World} {l : Label} (h : NamesAgree w.store.db)
    (hstep : DownloadPaths.step key sha256_hex w l = some w') : NamesAgree w'.store.db := by
  cases l with
  | store l =>
    obtain ⟨store, hstore, rfl⟩ := Option.map_eq_some_iff.mp hstep
    cases l with
    | create_uploaded_file args e =>
      cases hstore
      exact h.upload key sha256_hex w.store.disk args e
    | step i e =>
      simp only [FileStore.step] at hstore
      split at hstore
      · contradiction
      · obtain ⟨r, hr, rfl⟩ := Option.map_eq_some_iff.mp hstore
        exact h.keeps (keeps_request_step hr)
    | _ =>
      -- the tables are as they were
      cases hstore
      exact h
  | _ =>
    cases hstep
    exact h

theorem NamesAgree.record (h : NamesAgree db) {include_deleted : Bool} {record : ManagedFileRecord}
    (hfetch : fetch_file_record_impl db file_id include_deleted = some record) :
    ∀ f ∈ db.files, f.id = file_id → record.stored_name = f.stored_name := by
  intro f hf hid
  obtain ⟨g, hg, p, hp, hgid, hpid, -, hname⟩ := fetch_file_record_spec hfetch
  have heq : g = f := inj_on_of_nodup_map h.file_ids hg hf (hgid.trans hid.symm)
  rw [hname, h.names g hg p hp hpid, ite_self, heq]

theorem NamesAgree.share {db : Shares.Db} (h : NamesAgree db.base) {token access_code : Bytes}
    {r : ManagedFileRecord × ShareResult} {s : FileShareRow} (hs : share_row key db token = some s)
    (hload : (load_share_download key sha256_hex db token access_code e).2 = .ok r) :
    ∀ f ∈ db.base.files, f.id = s.file_id → r.1.stored_name = f.stored_name := by
  intro f hf hid
  unfold load_share_download at hload
  split at hload
  · contradiction
  rename_i share hfound
  have hreply : r.1 = share.file := by
    split at hload
    · unfold download_reply at hload
      dsimp only at hload
      split_ifs at hload
      rw [← Except.ok.inj hload]
    · contradiction
  obtain ⟨hfetch, -⟩ := share_found_ok sha256_hex hfound
  split_ifs at hfetch
  obtain ⟨s', su, g, gu, hjoined, rfl⟩ := fetch_file_share_spec.mp hfetch
  obtain rfl : s' = s := Option.some.inj (hjoined.share.symm.trans hs)
  obtain ⟨hg, hgid⟩ := hjoined.file_mem
  have heq : g = f := inj_on_of_nodup_map h.file_ids hg hf (hgid.trans hid.symm)
  rw [hreply, ← heq]
  rfl

/-- **All downloads of a file are served from one path.** In every state of every history,
the owner, the public and the holder of a link are served from the path of the name in the
file's row. -/
theorem download_paths_agree (key : Bytes → K) (sha256_hex : Bytes → Bytes) (doc_root : Bytes)
    (w : World) (hw : (system key sha256_hex).Reachable w) :
    ∀ f ∈ w.store.db.files,
      (∀ current_user e response,
        private_file_download doc_root w.store.db current_user f.id e = .ok response →
          response.file.path = file_path doc_root f.stored_name) ∧
      (∀ e response, public_file_download doc_root w.store.db f.id e = .ok response →
        response.file.path = file_path doc_root f.stored_name) ∧
      ∀ token s, share_row key w.db token = some s → s.file_id = f.id →
        ∀ access_code e response,
          share_download key sha256_hex doc_root w.db token access_code e = .ok response →
            response.file.path = file_path doc_root f.stored_name := by
  have h : NamesAgree w.store.db :=
    System.Reachable.invariant (system key sha256_hex) (P := fun w => NamesAgree w.store.db)
      (fun _ => NamesAgree.init) (fun _ _ _ h hl => h.step hl) hw
  intro f hf
  refine ⟨?_, ?_, ?_⟩
  · intro current_user e response hresponse
    unfold private_file_download at hresponse
    cases hload : load_owned_file_record w.store.db current_user f.id false e with
    | error error =>
      rw [hload] at hresponse
      contradiction
    | ok record =>
      rw [hload] at hresponse
      rw [← Except.ok.inj hresponse, ← h.record (load_owned_ok hload).1 f hf rfl]
      rfl
  · intro e response hresponse
    unfold public_file_download at hresponse
    cases hload : load_public_file_record w.store.db f.id e with
    | error error =>
      rw [hload] at hresponse
      contradiction
    | ok record =>
      rw [hload] at hresponse
      rw [← Except.ok.inj hresponse, ← h.record (load_public_ok hload).1 f hf rfl]
      rfl
  · intro token s hs hid access_code e response hresponse
    unfold share_download at hresponse
    cases hload : (load_share_download key sha256_hex w.db token access_code e).2 with
    | error error =>
      rw [hload] at hresponse
      contradiction
    | ok r =>
      rw [hload] at hresponse
      have hname : r.1.stored_name = f.stored_name :=
        NamesAgree.share h hs hload f hf hid.symm
      rw [← Except.ok.inj hresponse, ← hname]
      rfl

end Rows

def one_user : World := ⟨FileStore.one_user, []⟩

/-- Two uploads of one content; the second file is made public, and gets a link. -/
def upload_twice_and_share : List Label :=
  let e : Event := ⟨fun _ => true, 1⟩
  [.store (inline_upload (lit "aaaaaaaaaaaaaaaaaaaaaaaa") (lit "x")),
   .store (inline_upload (lit "bbbbbbbbbbbbbbbbbbbbbbbb") (lit "x")),
   .store (.update_file_visibility (lit "u") 2 true), .store (.step 0 e), .store (.step 0 e),
   .create_share_link (lit "u") 2 ⟨[], 0, 0⟩ (fun _ => [7]) e]

/-- The three answers for file 2 are files. -/
def three_downloads (w : World) : Bool :=
  let e : Event := ⟨fun _ => true, 1⟩
  (private_file_download [] w.store.db (lit "u") 2 e).isOk &&
    (public_file_download [] w.store.db 2 e).isOk &&
    (share_download id id [] w.db [7] [] e).isOk &&
    decide ((share_row id w.db [7]).map FileShareRow.file_id = some 2) &&
    w.store.db.files.any fun f => decide (f.id = 2)

theorem shared_copy_paths :
    ∃ w, (system id id).Reachable w ∧ three_downloads w = true ∧
      ∀ f ∈ w.store.db.files,
        (∀ current_user e response,
          private_file_download [] w.store.db current_user f.id e = .ok response →
            response.file.path = file_path [] f.stored_name) ∧
        (∀ e response, public_file_download [] w.store.db f.id e = .ok response →
          response.file.path = file_path [] f.stored_name) ∧
        ∀ token s, share_row id w.db token = some s → s.file_id = f.id →
          ∀ access_code e response,
            share_download id id [] w.db token access_code e = .ok response →
              response.file.path = file_path [] f.stored_name := by
  have hinit : (system id id).init one_user := ⟨⟨rfl, rfl, rfl, rfl, rfl, rfl⟩, rfl⟩
  obtain ⟨w, hw, htest⟩ := System.Reachable.of_run (system id id) hinit upload_twice_and_share
    three_downloads (by decide +kernel)
  exact ⟨w, hw, htest, download_paths_agree id id [] w hw⟩

end AtlasWebServer.DownloadPaths
