/-
Who a file is served to: its owner, everyone while it is public, and whoever holds
a share link to it.

`load_shareable_file_record` decides who may create a link: the owner of the file,
or anyone while it is public. The link outlives that decision. This file asks what
becomes of it under whole histories of uploads, visibility changes, deletions,
restores and new links, by any users, one operation after the other: is a link
served only while its creator could still create it?

It is not, for one reason: a step that leaves a file active and private
(`update_file_visibility` to private, `restore_file`) looks at no link. What is
proved is that this is the only way out. `Exposes` is the condition, on the state
before the step, and a step breaks the property exactly when it meets it.
-/
import AtlasWebServer.FileStoreInvariant
import AtlasWebServer.Shares

set_option autoImplicit false

namespace AtlasWebServer.ShareAccess

open StepSystem Bytes Tables Shares List
open FileStore hiding Db World Label step system

/-! ## The operations -/

variable {K : Type} [DecidableEq K] {key : Bytes → K} {sha256_hex : Bytes → Bytes}

section Operations

variable (key sha256_hex)

def load_public_file_record (db : FileStore.Db) (file_id : ℤ) (e : Event) :
    Except ServiceError ManagedFileRecord :=
  match if e.ok 0 then fetch_file_record_impl db file_id false else none with
  | none => .error ⟨.NotFound, lit "file not found"⟩
  | some record =>
      if record.is_public = false then .error ⟨.Forbidden, lit "file is private"⟩ else .ok record

def update_file_visibility (db : FileStore.Db) (owner : Bytes) (file_id : ℤ) (is_public : Bool)
    (e : Event) : FileStore.Db × Except ServiceError ManagedFileRecord :=
  match load_owned_file_record db owner file_id false e with
  | .error error => (db, .error error)
  | .ok record =>
      if e.ok 1 then (update_visibility_row db file_id is_public, .ok record)
      else (db, .error .unset)

def soft_delete_file (db : FileStore.Db) (owner : Bytes) (file_id : ℤ) (e : Event) :
    FileStore.Db × Except ServiceError ManagedFileRecord :=
  match load_owned_file_record db owner file_id false e with
  | .error error => (db, .error error)
  | .ok record =>
      if e.ok 1 then (soft_delete_row db file_id e.now, .ok record) else (db, .error .unset)

def restore_file (db : FileStore.Db) (owner : Bytes) (file_id : ℤ) (e : Event) :
    FileStore.Db × Except ServiceError ManagedFileRecord :=
  match load_owned_file_record db owner file_id true e with
  | .error error => (db, .error error)
  | .ok record =>
      if record.is_deleted = false then (db, .error ⟨.Conflict, lit "file is not in recycle bin"⟩)
      else
        match folder_exists key db owner record.folder_id (e.ok 1) with
        | none => (db, .error .unset)
        | some folder_exists =>
            let restore_folder_id := if folder_exists then record.folder_id else 0
            let restored_name := ensure_unique_owned_filename key db owner record.original_name
              restore_folder_id record.file_id fun index => e.ok (index + 3)
            match if e.ok 2 then restore_row key db owner file_id restore_folder_id restored_name
              else none with
            | none => (db, .error .unset)
            | some db' =>
                (db', .ok { record with
                  folder_id := restore_folder_id, original_name := restored_name
                  is_public := false, is_deleted := false })

/-- The tables, the disk and the server's clock. -/
structure World where
  db : Db
  disk : Disk
  now : ℤ

/-- An operation, with what is executed of it, or time passes. -/
inductive Label
  | create_uploaded_file (args : UploadArgs) (e : UploadEvent)
  | update_file_visibility (owner : Bytes) (file_id : ℤ) (is_public : Bool) (ok : ℕ → Bool)
  | create_share_link (owner : Bytes) (file_id : ℤ) (options : ShareOptions) (tokens : ℕ → Bytes)
      (ok : ℕ → Bool)
  | soft_delete_file (owner : Bytes) (file_id : ℤ) (ok : ℕ → Bool)
  | restore_file (owner : Bytes) (file_id : ℤ) (ok : ℕ → Bool)
  | load_share_download (token access_code : Bytes) (ok : ℕ → Bool)
  | tick (now : ℤ)

/-- The world with other tables of the store. -/
def World.with_base (w : World) (base : FileStore.Db) : World :=
  { w with db := { w.db with base } }

/-- The step function. The clock does not go back. -/
def step (w : World) : Label → Option World
  | .create_uploaded_file args e =>
      let r := create_uploaded_file key sha256_hex w.db.base w.disk args e
      some { w.with_base r.db with disk := r.disk }
  | .update_file_visibility owner file_id is_public ok =>
      some (w.with_base (update_file_visibility w.db.base owner file_id is_public ⟨ok, w.now⟩).1)
  | .create_share_link owner file_id options tokens ok =>
      some { w with
        db := (create_share_link key sha256_hex w.db owner file_id options tokens ⟨ok, w.now⟩).1 }
  | .soft_delete_file owner file_id ok =>
      some (w.with_base (soft_delete_file w.db.base owner file_id ⟨ok, w.now⟩).1)
  | .restore_file owner file_id ok =>
      some (w.with_base (restore_file key w.db.base owner file_id ⟨ok, w.now⟩).1)
  | .load_share_download token access_code ok =>
      some { w with
        db := (load_share_download key sha256_hex w.db token access_code ⟨ok, w.now⟩).1 }
  | .tick now => if w.now ≤ now then some { w with now } else none

/-- No files and no links; any users, with the keys of their table. -/
def system : System World Label where
  init w := w.db.base.files = [] ∧ w.db.base.physical_files = [] ∧ w.db.file_shares = [] ∧
    (w.db.base.users.map UserRow.id).Nodup ∧
    (w.db.base.users.map fun u => key u.username).Nodup
  step := step key sha256_hex

end Operations

/-! ## Served and permitted -/

variable {access_code token : Bytes} {w : World} {db : Db} {f : FileRow} {s : FileShareRow}
  {su fu : UserRow} {file_id : ℤ} {record : ManagedFileRecord} {selects : FileRow → Bool}
  {set : FileRow → FileRow}

section Served

variable (key sha256_hex)

/-- `load_share_detail` or `load_share_download` succeeds. -/
def Served (w : World) (token access_code : Bytes) : Prop :=
  ∃ ok : ℕ → Bool,
    (load_share_detail key sha256_hex w.db token access_code ⟨ok, w.now⟩).isOk = true ∨
    (load_share_download key sha256_hex w.db token access_code ⟨ok, w.now⟩).2.isOk = true

/-- The creator of the link could create it now. -/
def Permitted (w : World) (token : Bytes) : Prop :=
  ∃ s su record, share_row key w.db token = some s ∧
    w.db.base.users.find? (fun u => u.id = s.user_id) = some su ∧
    load_shareable_file_record w.db.base su.username s.file_id ⟨fun _ => true, w.now⟩ = .ok record

/-- A link is served only while its creator could create it. -/
def Guarded (w : World) : Prop :=
  ∀ token access_code, Served key sha256_hex w token access_code → Permitted key w token

/-- The part of `validate_share_access_candidate` that is about the link. -/
def Opens (now : ℤ) (access_code : Bytes) (s : FileShareRow) : Prop :=
  expired now s.expires_at = false ∧
    ¬ (s.max_downloads > 0 ∧ s.download_count ≥ s.max_downloads) ∧
    (s.access_code_hash ≠ [] → access_code ≠ [] ∧
      access_code_hash sha256_hex access_code = s.access_code_hash)

theorem validate_record_iff (now : ℤ) (access_code : Bytes) (s : FileShareRow) (su : UserRow)
    (f : FileRow) (fu : UserRow) :
    validate_share_access_candidate sha256_hex (share_record now s su f fu) access_code = .ok () ↔
      f.deleted_at = none ∧ Opens sha256_hex now access_code s := by
  unfold validate_share_access_candidate Opens share_record
  dsimp only
  cases f.deleted_at with
  | some t => simp
  | none =>
    cases expired now s.expires_at with
    | true => simp
    | false =>
      by_cases hlimit : s.max_downloads > 0 ∧ s.download_count ≥ s.max_downloads
      · simp [hlimit]
      by_cases hhash : s.access_code_hash = []
      · simp [hlimit, hhash]
      by_cases hcode : access_code = []
      · simp [hlimit, hhash, hcode]
      · by_cases hmatch : access_code_hash sha256_hex access_code = s.access_code_hash <;>
          simp [hlimit, hhash, hcode, hmatch]

theorem share_found_ok {share : Option FileShareRecord} {found : FileShareRecord}
    (h : share_found sha256_hex share access_code = .ok found) :
    share = some found ∧ validate_share_access_candidate sha256_hex found access_code = .ok () := by
  unfold share_found at h
  cases share with
  | none => contradiction
  | some share =>
    dsimp only at h
    cases hvalid : validate_share_access_candidate sha256_hex share access_code with
    | error error =>
      rw [hvalid] at h
      contradiction
    | ok u =>
      rw [hvalid] at h
      obtain rfl := Except.ok.inj h
      exact ⟨rfl, hvalid⟩

variable {key sha256_hex}

theorem served_iff :
    Served key sha256_hex w token access_code ↔
      ∃ s su f fu, Joined key w.db token s su f fu ∧ f.deleted_at = none ∧
        Opens sha256_hex w.now access_code s := by
  constructor
  · rintro ⟨ok, hserved⟩
    -- both succeed only on a share that was found and validated
    have hfound : ∃ found, share_found sha256_hex
        (if ok 0 then fetch_file_share key w.db token w.now else none) access_code = .ok found := by
      unfold load_share_detail load_share_download at hserved
      dsimp only at hserved
      cases hf : share_found sha256_hex
          (if ok 0 then fetch_file_share key w.db token w.now else none) access_code with
      | error error =>
        rw [hf] at hserved
        rcases hserved with h | h <;> exact absurd h (by simp [Except.isOk, Except.toBool])
      | ok found => exact ⟨found, rfl⟩
    obtain ⟨found, hfound⟩ := hfound
    obtain ⟨hfetch, hvalid⟩ := share_found_ok sha256_hex hfound
    cases hok : ok 0 with
    | false =>
      rw [hok] at hfetch
      contradiction
    | true =>
      rw [hok, if_pos rfl] at hfetch
      obtain ⟨s, su, f, fu, hjoined, rfl⟩ := fetch_file_share_spec.mp hfetch
      exact ⟨s, su, f, fu, hjoined, (validate_record_iff _ _ _ _ _ _ _).mp hvalid⟩
  · rintro ⟨s, su, f, fu, hjoined, hopen⟩
    refine ⟨fun _ => true, .inl ?_⟩
    have hfetch : fetch_file_share key w.db token w.now = some (share_record w.now s su f fu) :=
      fetch_file_share_spec.mpr ⟨s, su, f, fu, hjoined, rfl⟩
    have hvalid := (validate_record_iff sha256_hex w.now access_code s su f fu).mpr hopen
    simp only [load_share_detail, if_true, hfetch, share_found, hvalid]
    rfl

/-! ## The keys of the tables -/

/-- The keys and references the property rests on. -/
structure Linked (key : Bytes → K) (db : Db) : Prop where
  user_ids : (db.base.users.map UserRow.id).Nodup
  usernames : (db.base.users.map fun u => key u.username).Nodup
  file_ids : (db.base.files.map FileRow.id).Nodup
  file_id_lt : ∀ f ∈ db.base.files, f.id < db.base.next_file_id
  references : ∀ f ∈ db.base.files, ∃ p ∈ db.base.physical_files, p.id = f.physical_id
  share_files : ∀ s ∈ db.file_shares, ∃ f ∈ db.base.files, f.id = s.file_id

omit [DecidableEq K] in
theorem Linked.file_eq (h : Linked key db) {g : FileRow} (hf : f ∈ db.base.files)
    (hg : g ∈ db.base.files) (hid : f.id = g.id) : f = g :=
  List.inj_on_of_nodup_map h.file_ids hf hg hid

theorem joined_fetch_record (h : Joined key db token s su f fu) (hlinked : Linked key db)
    (hactive : f.deleted_at = none) :
    ∃ record, fetch_file_record_impl db.base s.file_id false = some record ∧
      record.owner = fu.username ∧ record.is_public = f.is_public := by
  obtain ⟨hf, hid⟩ := h.file_mem
  have hfind : db.base.files.find? (fun g => g.id = s.file_id ∧
      (false = true ∨ g.deleted_at = none)) = some f := by
    cases hg : db.base.files.find? fun g => g.id = s.file_id ∧
        (false = true ∨ g.deleted_at = none) with
    | none =>
      have := List.find?_eq_none.mp hg f hf
      simp [hid, hactive] at this
    | some g =>
      have hgid : g.id = s.file_id ∧ (false = true ∨ g.deleted_at = none) := by
        simpa using List.find?_some hg
      rw [hlinked.file_eq (mem_of_find?_eq_some hg) hf (hgid.1.trans hid.symm)]
  obtain ⟨p, hp, hpid⟩ := hlinked.references f hf
  obtain ⟨q, hq⟩ : ∃ q, db.base.physical_files.find? (fun p => p.id = f.physical_id) = some q := by
    rw [← Option.isSome_iff_exists, List.find?_isSome]
    exact ⟨p, hp, by simpa using hpid⟩
  unfold fetch_file_record_impl
  rw [Option.bind_eq_bind, hfind, Option.bind_some, h.owner, Option.bind_eq_bind, Option.bind_some,
    hq, Option.bind_eq_bind, Option.bind_some]
  exact ⟨_, rfl, rfl, rfl⟩

theorem permitted_iff (hlinked : Linked key w.db) (h : Joined key w.db token s su f fu)
    (hactive : f.deleted_at = none) :
    Permitted key w token ↔ su.username = fu.username ∨ f.is_public = true := by
  obtain ⟨record, hfetch, howner, hpublic⟩ := joined_fetch_record h hlinked hactive
  have hload : load_shareable_file_record w.db.base su.username s.file_id ⟨fun _ => true, w.now⟩ =
      if record.owner ≠ su.username ∧ record.is_public = false then
        .error ⟨.Forbidden, lit "forbidden"⟩
      else .ok record := by
    simp only [load_shareable_file_record, if_true, hfetch]
  constructor
  · rintro ⟨s', su', record', hs', hsu', hok⟩
    obtain rfl := Option.some.inj (h.share.symm.trans hs')
    obtain rfl := Option.some.inj (h.creator.symm.trans hsu')
    rw [hload] at hok
    by_contra hnot
    rw [if_pos ⟨fun heq => hnot (.inl (by rw [← heq, howner])),
      by rw [hpublic]; simpa using fun hp => hnot (.inr hp)⟩] at hok
    contradiction
  · intro hrule
    refine ⟨s, su, record, h.share, h.creator, ?_⟩
    rw [hload, if_neg]
    rintro ⟨hne, hprivate⟩
    rcases hrule with heq | hp
    · exact hne (howner.trans heq.symm)
    · rw [hpublic, hp] at hprivate
      contradiction

theorem guarded_iff (hlinked : Linked key w.db) :
    Guarded key sha256_hex w ↔ ∀ token access_code s su f fu, Joined key w.db token s su f fu →
      f.deleted_at = none → Opens sha256_hex w.now access_code s →
      su.username = fu.username ∨ f.is_public = true := by
  constructor
  · intro h token access_code s su f fu hjoined hactive hopen
    have hserved := served_iff.mpr ⟨s, su, f, fu, hjoined, hactive, hopen⟩
    exact (permitted_iff hlinked hjoined hactive).mp (h token access_code hserved)
  intro h token access_code hserved
  obtain ⟨s, su, f, fu, hjoined, hactive, hopen⟩ := served_iff.mp hserved
  exact (permitted_iff hlinked hjoined hactive).mpr
    (h token access_code s su f fu hjoined hactive hopen)

end Served

/-! ## What the operations do to the rows -/

section Rows

variable {include_deleted : Bool} {e : Event}

theorem fetch_file_record_row {db : FileStore.Db}
    (h : fetch_file_record_impl db file_id include_deleted = some record) :
    ∃ f ∈ db.files, ∃ u, f.id = file_id ∧ (include_deleted = true ∨ f.deleted_at = none) ∧
      db.users.find? (fun u => u.id = f.user_id) = some u ∧ record.owner = u.username ∧
      record.is_public = f.is_public := by
  obtain ⟨f, hf, h⟩ := Option.bind_eq_some_iff.mp h
  obtain ⟨u, hu, h⟩ := Option.bind_eq_some_iff.mp h
  obtain ⟨p, -, h⟩ := Option.bind_eq_some_iff.mp h
  have hfid : f.id = file_id ∧ (include_deleted = true ∨ f.deleted_at = none) := by
    simpa using List.find?_some hf
  rw [← Option.some.inj h]
  exact ⟨f, mem_of_find?_eq_some hf, u, hfid.1, hfid.2, hu, rfl, rfl⟩

theorem load_owned_ok {db : FileStore.Db} {owner : Bytes}
    (h : load_owned_file_record db owner file_id include_deleted e = .ok record) :
    fetch_file_record_impl db file_id include_deleted = some record ∧ record.owner = owner := by
  unfold load_owned_file_record at h
  split at h
  · contradiction
  rename_i found hfetch
  split_ifs at h with hne
  · obtain rfl := Except.ok.inj h
    refine ⟨?_, by simpa using hne⟩
    split_ifs at hfetch
    exact hfetch

theorem load_public_ok {db : FileStore.Db} (h : load_public_file_record db file_id e = .ok record) :
    fetch_file_record_impl db file_id false = some record ∧ record.is_public = true := by
  unfold load_public_file_record at h
  split at h
  · contradiction
  rename_i found hfetch
  split_ifs at h with hprivate
  · obtain rfl := Except.ok.inj h
    refine ⟨?_, by simpa using hprivate⟩
    split_ifs at hfetch
    exact hfetch

theorem load_shareable_ok {db : FileStore.Db} {requester : Bytes}
    (h : load_shareable_file_record db requester file_id e = .ok record) :
    fetch_file_record_impl db file_id false = some record ∧
      (record.owner = requester ∨ record.is_public = true) := by
  unfold load_shareable_file_record at h
  split at h
  · contradiction
  rename_i found hfetch
  split_ifs at h with hrule
  · obtain rfl := Except.ok.inj h
    refine ⟨by split_ifs at hfetch; exact hfetch, ?_⟩
    rw [not_and_or, not_ne_iff, Bool.not_eq_false] at hrule
    exact hrule

theorem visibility_cases (db : FileStore.Db) (owner : Bytes) (file_id : ℤ) (is_public : Bool)
    (e : Event) :
    let r := update_file_visibility db owner file_id is_public e
    (r.1 = db ∧ r.2.isOk = false) ∨
      (r.1 = update_visibility_row db file_id is_public ∧ r.2.isOk = true ∧
        ∃ f ∈ db.files, f.id = file_id ∧ f.deleted_at = none) := by
  unfold update_file_visibility
  dsimp only
  split
  · exact .inl ⟨rfl, rfl⟩
  rename_i record hload
  split
  · obtain ⟨f, hf, -, hid, hactive, -⟩ := fetch_file_record_row (load_owned_ok hload).1
    exact .inr ⟨rfl, rfl, f, hf, hid, by simpa using hactive⟩
  · exact .inl ⟨rfl, rfl⟩

theorem soft_delete_cases (db : FileStore.Db) (owner : Bytes) (file_id : ℤ) (e : Event) :
    (soft_delete_file db owner file_id e).1 = db ∨
      (soft_delete_file db owner file_id e).1 = soft_delete_row db file_id e.now := by
  unfold soft_delete_file
  split
  · exact .inl rfl
  · split
    · exact .inr rfl
    · exact .inl rfl

theorem restore_cases (key : Bytes → K) (db : FileStore.Db) (owner : Bytes) (file_id : ℤ)
    (e : Event) :
    let r := restore_file key db owner file_id e
    (r.1 = db ∧ r.2.isOk = false) ∨
      (r.2.isOk = true ∧ (∃ f ∈ db.files, restorable key db owner file_id f = true) ∧
        ∃ folder_id original_name, r.1 =
          update_files db (restorable key db owner file_id)
            (restored folder_id original_name)) := by
  unfold restore_file
  dsimp only
  split
  · exact .inl ⟨rfl, rfl⟩
  split
  · exact .inl ⟨rfl, rfl⟩
  split
  · exact .inl ⟨rfl, rfl⟩
  split
  · exact .inl ⟨rfl, rfl⟩
  rename_i db' hrow
  -- the `UPDATE` was executed and selected a row
  by_cases hok : e.ok 2 = true
  · rw [if_pos hok] at hrow
    obtain ⟨hselected, hdb⟩ := restore_row_spec hrow
    exact .inr ⟨rfl, hselected, _, _, hdb⟩
  · rw [if_neg hok] at hrow
    contradiction

/-- A row that `create_share_link` may have inserted. -/
structure NewLink (key : Bytes → K) (db : Db) (owner : Bytes) (file_id : ℤ) (row : FileShareRow) :
    Prop where
  unused : share_row key db row.token = none
  file : row.file_id = file_id
  user : user_id_subquery key db.base owner = some row.user_id

theorem insert_share_row {db' : Db} {share : FileShareCreateRecord} {now : ℤ}
    (h : insert_file_share key db share now = some db') :
    ∃ row, NewLink key db share.owner share.file_id row ∧
      db' = { db with file_shares := db.file_shares ++ [row] } := by
  unfold insert_file_share at h
  by_cases hargs : share.token = [] ∨ share.file_id ≤ 0 ∨ share.owner = [] ∨
      share.expires_in_seconds < 0 ∨ share.max_downloads < 0
  · rw [if_pos hargs] at h
    contradiction
  rw [if_neg hargs] at h
  split at h
  · contradiction
  rename_i user_id huser
  by_cases hkeys : (share_row key db share.token).isSome ∨
      (db.base.files.all fun f => decide (f.id ≠ share.file_id))
  · rw [if_pos hkeys] at h
    contradiction
  rw [if_neg hkeys] at h
  rw [← Option.some.inj h]
  refine ⟨_, ⟨?_, rfl, huser⟩, rfl⟩
  rw [not_or] at hkeys
  simpa using hkeys.1

theorem insert_share_loop_cases (key : Bytes → K) (db : Db) (tokens : ℕ → Bytes) (e : Event)
    (fuel attempt : ℕ) (share : FileShareCreateRecord) :
    (insert_share_loop key db share tokens e fuel attempt).1 = db ∨
      ∃ row, NewLink key db share.owner share.file_id row ∧
        (insert_share_loop key db share tokens e fuel attempt).1 =
          { db with file_shares := db.file_shares ++ [row] } := by
  induction fuel generalizing attempt share with
  | zero => exact .inl rfl
  | succ fuel ih =>
    unfold insert_share_loop
    dsimp only
    split
    · exact .inl rfl
    split
    · exact ih (attempt + 1) { share with token := tokens attempt }
    rename_i db' hinsert
    split_ifs at hinsert
    obtain ⟨row, hrow, rfl⟩ := insert_share_row hinsert
    split <;> exact .inr ⟨row, hrow, rfl⟩

theorem create_share_link_cases (key : Bytes → K) (sha256_hex : Bytes → Bytes) (db : Db)
    (owner : Bytes) (file_id : ℤ) (options : ShareOptions) (tokens : ℕ → Bytes) (e : Event) :
    (create_share_link key sha256_hex db owner file_id options tokens e).1 = db ∨
      ∃ row record, NewLink key db owner file_id row ∧
        fetch_file_record_impl db.base file_id false = some record ∧
        (record.owner = owner ∨ record.is_public = true) ∧
        (create_share_link key sha256_hex db owner file_id options tokens e).1 =
          { db with file_shares := db.file_shares ++ [row] } := by
  unfold create_share_link
  split
  · exact .inl rfl
  split
  · exact .inl rfl
  rename_i record hload
  obtain ⟨hfetch, hrule⟩ := load_shareable_ok hload
  rcases insert_share_loop_cases key db tokens e 3 0
    { token := [], file_id, owner
      access_code_hash := access_code_hash sha256_hex options.access_code
      expires_in_seconds := options.expires_in_seconds
      max_downloads := options.max_downloads } with hsame | ⟨row, hrow, hdb⟩
  · exact .inl hsame
  · exact .inr ⟨row, record, hrow, hfetch, hrule, hdb⟩

theorem load_share_download_cases (key : Bytes → K) (sha256_hex : Bytes → Bytes) (db : Db)
    (token access_code : Bytes) (e : Event) :
    (load_share_download key sha256_hex db token access_code e).1 = db ∨
      (load_share_download key sha256_hex db token access_code e).1 =
        (increment_file_share_download_count key db token e.now).1 := by
  unfold load_share_download
  split
  · exact .inl rfl
  · split
    · exact .inr rfl
    · exact .inl rfl

end Rows

/-! ## One step -/

section Steps

/-- The file a step leaves active and private. -/
def privatised (key : Bytes → K) (w : World) : Label → Option ℤ
  | .update_file_visibility owner file_id false ok =>
      if (update_file_visibility w.db.base owner file_id false ⟨ok, w.now⟩).2.isOk then some file_id
      else none
  | .restore_file owner file_id ok =>
      if (restore_file key w.db.base owner file_id ⟨ok, w.now⟩).2.isOk then some file_id else none
  | _ => none

/-- The step leaves a file active and private, and someone else's link to it opens. -/
def Exposes (key : Bytes → K) (sha256_hex : Bytes → Bytes) (w : World) (l : Label) : Prop :=
  ∃ token access_code s su f fu, Joined key w.db token s su f fu ∧
    privatised key w l = some s.file_id ∧ Opens sha256_hex w.now access_code s ∧
    su.username ≠ fu.username

/-! ### An `UPDATE` of `files` -/

theorem joined_update_files (hid : ∀ f, (set f).id = f.id)
    (huser : ∀ f, (set f).user_id = f.user_id) {f' : FileRow} :
    Joined key { db with base := update_files db.base selects set } token s su f' fu ↔
      ∃ f, Joined key db token s su f fu ∧ f' = if selects f then set f else f := by
  have hid' : ∀ f, (if selects f then set f else f).id = f.id := by
    intro f
    split <;> simp [hid]
  have huser' : ∀ f, (if selects f then set f else f).user_id = f.user_id := by
    intro f
    split <;> simp [huser]
  have hfind : (update_files db.base selects set).files.find? (fun f => f.id = s.file_id) =
      (db.base.files.find? fun f => f.id = s.file_id).map fun f =>
        if selects f then set f else f := by
    simp only [update_files, List.find?_map]
    congr 1
    refine congrArg (List.find? · db.base.files) (funext fun f => ?_)
    simp [hid']
  constructor
  · rintro ⟨htoken, hs, hsu, hf, hfu⟩
    dsimp only at hsu hf hfu
    rw [hfind] at hf
    obtain ⟨f, hfound, rfl⟩ := Option.map_eq_some_iff.mp hf
    rw [huser'] at hfu
    exact ⟨f, ⟨htoken, hs, hsu, hfound, hfu⟩, rfl⟩
  rintro ⟨f, ⟨htoken, hs, hsu, hf, hfu⟩, rfl⟩
  refine ⟨htoken, hs, hsu, ?_, ?_⟩
  · dsimp only
    rw [hfind, hf, Option.map_some]
  · rw [huser']
    exact hfu

omit [DecidableEq K] in
theorem linked_update_files (h : Linked key db) (hid : ∀ f, (set f).id = f.id)
    (hphysical : ∀ f, (set f).physical_id = f.physical_id) :
    Linked key { db with base := update_files db.base selects set } := by
  have hid' : ∀ f, (if selects f then set f else f).id = f.id := by
    intro f
    split <;> simp [hid]
  refine ⟨h.user_ids, h.usernames, ?_, ?_, ?_, ?_⟩
  · simp only [update_files, map_map]
    have hsame : (FileRow.id ∘ fun f => if selects f then set f else f) = FileRow.id :=
      funext hid'
    rw [hsame]
    exact h.file_ids
  · intro f' hf'
    obtain ⟨f, hf, rfl⟩ := mem_map.mp hf'
    rw [hid']
    exact h.file_id_lt f hf
  · intro f' hf'
    obtain ⟨f, hf, rfl⟩ := mem_map.mp hf'
    obtain ⟨p, hp, hpid⟩ := h.references f hf
    refine ⟨p, hp, ?_⟩
    split <;> simp [hphysical, hpid]
  · intro s hs
    obtain ⟨f, hf, hfid⟩ := h.share_files s hs
    exact ⟨_, mem_map_of_mem hf, (hid' f).trans hfid⟩

theorem guarded_update_files (hlinked : Linked key w.db) (hguarded : Guarded key sha256_hex w)
    (hid : ∀ f, (set f).id = f.id) (huser : ∀ f, (set f).user_id = f.user_id)
    (hphysical : ∀ f, (set f).physical_id = f.physical_id)
    (hset : ∀ token access_code s su f fu, Joined key w.db token s su f fu → selects f = true →
      (set f).deleted_at = none → Opens sha256_hex w.now access_code s →
      su.username = fu.username ∨ (set f).is_public = true) :
    Guarded key sha256_hex (w.with_base (update_files w.db.base selects set)) := by
  rw [guarded_iff (linked_update_files hlinked hid hphysical)]
  intro token access_code s su f' fu hjoined hactive hopen
  obtain ⟨f, hf, rfl⟩ := (joined_update_files hid huser).mp hjoined
  by_cases hselected : selects f = true
  · rw [if_pos hselected] at hactive ⊢
    exact hset token access_code s su f fu hf hselected hactive hopen
  · rw [if_neg hselected] at hactive ⊢
    exact (guarded_iff hlinked).mp hguarded token access_code s su f fu hf hactive hopen

theorem not_guarded_update_files (hlinked : Linked key w.db) (hid : ∀ f, (set f).id = f.id)
    (huser : ∀ f, (set f).user_id = f.user_id)
    (hphysical : ∀ f, (set f).physical_id = f.physical_id)
    (hjoined : Joined key w.db token s su f fu) (hopen : Opens sha256_hex w.now access_code s)
    (hforeign : su.username ≠ fu.username) (hselected : selects f = true)
    (hactive : (set f).deleted_at = none) (hprivate : (set f).is_public = false) :
    ¬ Guarded key sha256_hex (w.with_base (update_files w.db.base selects set)) := by
  rw [guarded_iff (linked_update_files hlinked hid hphysical)]
  intro hrows
  have hjoined' : Joined key { w.db with base := update_files w.db.base selects set } token s su
      (set f) fu :=
    (joined_update_files hid huser).mpr ⟨f, hjoined, by rw [if_pos hselected]⟩
  rcases hrows token access_code s su (set f) fu hjoined' hactive hopen with heq | hpublic
  · exact hforeign heq
  · rw [hprivate] at hpublic
    contradiction

/-! ### An upload -/

variable {base : FileStore.Db} {owner : Bytes} {row s' : FileShareRow} {now : ℤ} {w' : World}
  {l : Label}

omit [DecidableEq K] in
theorem linked_upload (h : Linked key db) {rows : List FileRow}
    (hrows : UploadRows db.base base rows) : Linked key { db with base } := by
  have hcases : ∀ f ∈ base.files, f ∈ db.base.files ∨ f ∈ rows := by
    intro f hf
    rw [hrows.files] at hf
    exact mem_append.mp hf
  refine ⟨hrows.users ▸ h.user_ids, hrows.users ▸ h.usernames, ?_, ?_, ?_, ?_⟩
  · show (base.files.map FileRow.id).Nodup
    rw [hrows.files]
    exact nodup_append_fresh h.file_ids h.file_id_lt hrows.ids fun row hrow =>
      (hrows.new row hrow).1
  · intro f hf
    rcases hcases f hf with hold | hnew
    · exact lt_of_lt_of_le (h.file_id_lt f hold) hrows.next_file_id
    · exact (hrows.new f hnew).2.1
  · intro f hf
    rcases hcases f hf with hold | hnew
    · obtain ⟨p, hp, hpid⟩ := h.references f hold
      obtain ⟨q, hq, hqid⟩ := hrows.physical_files p hp
      exact ⟨q, hq, hqid.trans hpid⟩
    · exact (hrows.new f hnew).2.2
  · intro s hs
    obtain ⟨f, hf, hfid⟩ := h.share_files s hs
    exact ⟨f, hrows.files ▸ mem_append_left _ hf, hfid⟩

theorem joined_upload (h : Linked key db) {rows : List FileRow}
    (hrows : UploadRows db.base base rows)
    (hjoined : Joined key { db with base } token s su f fu) : Joined key db token s su f fu := by
  obtain ⟨htoken, hs, hsu, hf, hfu⟩ := hjoined
  rw [hrows.users] at hsu hfu
  refine ⟨htoken, hs, hsu, ?_, hfu⟩
  rw [hrows.files, List.find?_append] at hf
  obtain ⟨g, hg, hgid⟩ := h.share_files s (mem_of_find?_eq_some hs)
  obtain ⟨g', hg'⟩ : ∃ g', db.base.files.find? (fun f => f.id = s.file_id) = some g' := by
    rw [← Option.isSome_iff_exists, List.find?_isSome]
    exact ⟨g, hg, by simpa using hgid⟩
  rw [hg', Option.some_or] at hf
  rw [hg', hf]

/-! ### A new link -/

theorem linked_new_link (h : Linked key db) (hrow : NewLink key db owner file_id row)
    (hfetch : fetch_file_record_impl db.base file_id false = some record) :
    Linked key { db with file_shares := db.file_shares ++ [row] } := by
  obtain ⟨f, hf, -, hfid, -⟩ := fetch_file_record_row hfetch
  exact { h with
    share_files := forall_mem_append.mpr
      ⟨h.share_files, forall_mem_singleton.mpr ⟨f, hf, hfid.trans hrow.file.symm⟩⟩ }

theorem share_row_append
    (h : share_row key { db with file_shares := db.file_shares ++ [row] } token = some s) :
    share_row key db token = some s ∨ s = row := by
  unfold share_row at h ⊢
  rw [List.find?_append] at h
  cases hold : db.file_shares.find? fun s => key s.token = key token with
  | some old =>
    rw [hold, Option.some_or] at h
    exact .inl h
  | none =>
    rw [hold, Option.none_or] at h
    exact .inr (mem_singleton.mp (mem_of_find?_eq_some h))

theorem new_link_permitted (h : Linked key db) (hrow : NewLink key db owner file_id row)
    (hfetch : fetch_file_record_impl db.base file_id false = some record)
    (hrule : record.owner = owner ∨ record.is_public = true)
    (hsu : db.base.users.find? (fun u => u.id = row.user_id) = some su)
    (hf : db.base.files.find? (fun f => f.id = row.file_id) = some f)
    (hfu : db.base.users.find? (fun u => u.id = f.user_id) = some fu) :
    su.username = fu.username ∨ f.is_public = true := by
  obtain ⟨g, hg, u, hgid, -, hu, howner, hpublic⟩ := fetch_file_record_row hfetch
  have hfid : f.id = row.file_id := by simpa using List.find?_some hf
  obtain rfl : g = f := h.file_eq hg (mem_of_find?_eq_some hf)
    (hgid.trans (hrow.file.symm.trans hfid.symm))
  obtain rfl : u = fu := Option.some.inj (hu.symm.trans hfu)
  rcases hrule with hname | hp
  · -- one name, up to the collation, is one user
    obtain ⟨v, hv, hvid⟩ := Option.map_eq_some_iff.mp hrow.user
    have hvname : key v.username = key owner ∧ v.disabled = false := by
      simpa using List.find?_some hv
    have hsuid : su.id = row.user_id := by simpa using List.find?_some hsu
    have hsv : su = v := inj_on_of_nodup_map h.user_ids (mem_of_find?_eq_some hsu)
      (mem_of_find?_eq_some hv) (hsuid.trans hvid.symm)
    have hvu : v = u := inj_on_of_nodup_map h.usernames (mem_of_find?_eq_some hv)
      (mem_of_find?_eq_some hu) (by rw [hvname.1, ← howner, hname])
    exact .inl (by rw [hsv, hvu])
  · exact .inr (hpublic.symm.trans hp)

/-! ### A download -/

theorem increment_share_of {other : Bytes}
    (h : share_row key (increment_file_share_download_count key db token now).1 other = some s') :
    ∃ s, share_row key db other = some s ∧ s'.file_id = s.file_id ∧ s'.user_id = s.user_id ∧
      s'.expires_at = s.expires_at ∧ s'.max_downloads = s.max_downloads ∧
      s'.access_code_hash = s.access_code_hash ∧ s.download_count ≤ s'.download_count := by
  rw [increment_share_row] at h
  obtain ⟨s, hs, rfl⟩ := Option.map_eq_some_iff.mp h
  refine ⟨s, hs, ?_⟩
  unfold count_download
  split
  · exact ⟨rfl, rfl, rfl, rfl, rfl, le_refl _⟩
  · split
    · exact ⟨rfl, rfl, rfl, rfl, rfl, by simp⟩
    · exact ⟨rfl, rfl, rfl, rfl, rfl, le_refl _⟩

theorem linked_increment (h : Linked key db) (token : Bytes) (now : ℤ) :
    Linked key (increment_file_share_download_count key db token now).1 := by
  have hbase := increment_base key db token now
  refine ⟨hbase ▸ h.user_ids, hbase ▸ h.usernames, hbase ▸ h.file_ids, hbase ▸ h.file_id_lt,
    hbase ▸ h.references, ?_⟩
  intro s hs
  rw [hbase]
  unfold increment_file_share_download_count at hs
  split at hs
  · exact h.share_files s hs
  obtain ⟨t, ht, rfl⟩ := mem_map.mp hs
  obtain ⟨f, hf, hfid⟩ := h.share_files t ht
  refine ⟨f, hf, hfid.trans ?_⟩
  unfold count_download
  split <;> rfl

theorem Opens.of_later {now' : ℤ} (h : Opens sha256_hex now' access_code s') (hnow : now ≤ now')
    (hexpires : s'.expires_at = s.expires_at) (hmax : s'.max_downloads = s.max_downloads)
    (hhash : s'.access_code_hash = s.access_code_hash)
    (hcount : s.download_count ≤ s'.download_count) : Opens sha256_hex now access_code s := by
  obtain ⟨hbefore, hlimit, hcode⟩ := h
  rw [hhash] at hcode
  refine ⟨?_, ?_, hcode⟩
  · rw [hexpires] at hbefore
    unfold expired at hbefore ⊢
    cases ht : s.expires_at with
    | none => rfl
    | some t =>
      rw [ht] at hbefore
      exact decide_eq_false fun hle => of_decide_eq_false hbefore (le_trans hle hnow)
  · omega

/-! ### All of them -/

theorem Linked.step (h : Linked key w.db) (hstep : (system key sha256_hex).step w l = some w') :
    Linked key w'.db := by
  cases l with
  | create_uploaded_file args e =>
    cases hstep
    obtain ⟨rows, hrows⟩ := create_uploaded_file_rows key sha256_hex w.db.base w.disk args e
    exact linked_upload h hrows
  | update_file_visibility owner file_id is_public ok =>
    cases hstep
    rcases visibility_cases w.db.base owner file_id is_public ⟨ok, w.now⟩ with
      ⟨hsame, -⟩ | ⟨hdb, -⟩
    · rw [hsame]
      exact h
    · rw [hdb]
      exact linked_update_files h (fun _ => rfl) fun _ => rfl
  | create_share_link owner file_id options tokens ok =>
    cases hstep
    rcases create_share_link_cases key sha256_hex w.db owner file_id options tokens ⟨ok, w.now⟩
      with hsame | ⟨row, record, hrow, hfetch, -, hdb⟩
    · rw [hsame]
      exact h
    · rw [hdb]
      exact linked_new_link h hrow hfetch
  | soft_delete_file owner file_id ok =>
    cases hstep
    rcases soft_delete_cases w.db.base owner file_id ⟨ok, w.now⟩ with hsame | hdb
    · rw [hsame]
      exact h
    · rw [hdb]
      exact linked_update_files h (fun _ => rfl) fun _ => rfl
  | restore_file owner file_id ok =>
    cases hstep
    rcases restore_cases key w.db.base owner file_id ⟨ok, w.now⟩ with
      ⟨hsame, -⟩ | ⟨-, -, folder_id, original_name, hdb⟩
    · rw [hsame]
      exact h
    · rw [hdb]
      exact linked_update_files h (fun _ => rfl) fun _ => rfl
  | load_share_download token access_code ok =>
    cases hstep
    rcases load_share_download_cases key sha256_hex w.db token access_code ⟨ok, w.now⟩ with
      hsame | hdb
    · rw [hsame]
      exact h
    · rw [hdb]
      exact linked_increment h token w.now
  | tick now =>
    simp only [system, ShareAccess.step] at hstep
    split at hstep
    · cases hstep
      exact h
    · contradiction

theorem Guarded.step (hlinked : Linked key w.db) (h : Guarded key sha256_hex w)
    (hstep : (system key sha256_hex).step w l = some w') (hok : ¬ Exposes key sha256_hex w l) :
    Guarded key sha256_hex w' := by
  have hrows := (guarded_iff hlinked).mp h
  have hlinked' := hlinked.step hstep
  cases l with
  | create_uploaded_file args e =>
    cases hstep
    rw [guarded_iff hlinked']
    intro token access_code s su f fu hjoined hactive hopen
    obtain ⟨rows, hupload⟩ := create_uploaded_file_rows key sha256_hex w.db.base w.disk args e
    exact hrows token access_code s su f fu (joined_upload hlinked hupload hjoined) hactive hopen
  | update_file_visibility owner file_id is_public ok =>
    cases hstep
    rcases visibility_cases w.db.base owner file_id is_public ⟨ok, w.now⟩ with
      ⟨hsame, -⟩ | ⟨hdb, hsuccess, -⟩
    · rw [hsame]
      exact h
    rw [hdb]
    refine guarded_update_files hlinked h (fun _ => rfl) (fun _ => rfl) (fun _ => rfl) ?_
    intro token access_code s su f fu hjoined hselected _ hopen
    cases is_public with
    | true => exact .inr rfl
    | false =>
      by_contra hnot
      refine hok ⟨token, access_code, s, su, f, fu, hjoined, ?_, hopen, fun heq => hnot (.inl heq)⟩
      rw [privatised, if_pos hsuccess, ← hjoined.file_mem.2, of_decide_eq_true hselected]
  | create_share_link owner file_id options tokens ok =>
    cases hstep
    rw [guarded_iff hlinked']
    intro token access_code s su f fu hjoined hactive hopen
    rcases create_share_link_cases key sha256_hex w.db owner file_id options tokens ⟨ok, w.now⟩
      with hsame | ⟨row, record, hrow, hfetch, hrule, hdb⟩
    · rw [hsame] at hjoined
      exact hrows token access_code s su f fu hjoined hactive hopen
    rw [hdb] at hjoined
    rcases share_row_append hjoined.share with hold | rfl
    · exact hrows token access_code s su f fu
        ⟨hjoined.token_ne, hold, hjoined.creator, hjoined.file, hjoined.owner⟩ hactive hopen
    · exact new_link_permitted hlinked hrow hfetch hrule hjoined.creator hjoined.file
        hjoined.owner
  | soft_delete_file owner file_id ok =>
    cases hstep
    rcases soft_delete_cases w.db.base owner file_id ⟨ok, w.now⟩ with hsame | hdb
    · rw [hsame]
      exact h
    rw [hdb]
    refine guarded_update_files hlinked h (fun _ => rfl) (fun _ => rfl) (fun _ => rfl) ?_
    intro _ _ _ _ _ _ _ _ hactive
    contradiction
  | restore_file owner file_id ok =>
    cases hstep
    rcases restore_cases key w.db.base owner file_id ⟨ok, w.now⟩ with
      ⟨hsame, -⟩ | ⟨hsuccess, -, folder_id, original_name, hdb⟩
    · rw [hsame]
      exact h
    rw [hdb]
    refine guarded_update_files hlinked h (fun _ => rfl) (fun _ => rfl) (fun _ => rfl) ?_
    intro token access_code s su f fu hjoined hselected _ hopen
    by_contra hnot
    refine hok ⟨token, access_code, s, su, f, fu, hjoined, ?_, hopen, fun heq => hnot (.inl heq)⟩
    simp only [restorable, Bool.and_eq_true, decide_eq_true_eq] at hselected
    rw [privatised, if_pos hsuccess, ← hjoined.file_mem.2, hselected.1.1]
  | load_share_download token' access_code' ok =>
    cases hstep
    rw [guarded_iff hlinked']
    intro token access_code s su f fu hjoined hactive hopen
    rcases load_share_download_cases key sha256_hex w.db token' access_code' ⟨ok, w.now⟩ with
      hsame | hdb
    · rw [hsame] at hjoined
      exact hrows token access_code s su f fu hjoined hactive hopen
    rw [hdb] at hjoined
    obtain ⟨s₀, hs₀, hfile, huser, hexpires, hmax, hhash, hcount⟩ :=
      increment_share_of hjoined.share
    obtain ⟨htoken, -, hsu, hf, hfu⟩ := hjoined
    rw [increment_base] at hsu hf hfu
    rw [huser] at hsu
    rw [hfile] at hf
    exact hrows token access_code s₀ su f fu ⟨htoken, hs₀, hsu, hf, hfu⟩ hactive
      (hopen.of_later (le_refl _) hexpires hmax hhash hcount)
  | tick now =>
    simp only [system, ShareAccess.step] at hstep
    split at hstep
    · rename_i hnow
      cases hstep
      rw [guarded_iff hlinked']
      intro token access_code s su f fu hjoined hactive hopen
      exact hrows token access_code s su f fu hjoined hactive
        (hopen.of_later hnow rfl rfl rfl (le_refl _))
    · contradiction

theorem Exposes.broken (hlinked : Linked key w.db) (h : Exposes key sha256_hex w l)
    (hstep : (system key sha256_hex).step w l = some w') : ¬ Guarded key sha256_hex w' := by
  obtain ⟨token, access_code, s, su, f, fu, hjoined, hprivate, hopen, hforeign⟩ := h
  obtain ⟨hf, hfid⟩ := hjoined.file_mem
  cases l with
  | update_file_visibility owner file_id is_public ok =>
    cases is_public with
    | true => contradiction
    | false =>
      cases hstep
      rw [privatised] at hprivate
      split_ifs at hprivate with hsuccess
      rcases visibility_cases w.db.base owner file_id false ⟨ok, w.now⟩ with
        ⟨-, hfail⟩ | ⟨hdb, -, g, hg, hgid, hactive⟩
      · exact absurd hsuccess (by rw [hfail]; decide)
      -- the file that was loaded is the link's
      obtain rfl : g = f := hlinked.file_eq hg hf
        (hgid.trans ((Option.some.inj hprivate).trans hfid.symm))
      rw [hdb]
      exact not_guarded_update_files hlinked (fun _ => rfl) (fun _ => rfl) (fun _ => rfl)
        hjoined hopen hforeign (decide_eq_true hgid) hactive rfl
  | restore_file owner file_id ok =>
    cases hstep
    rw [privatised] at hprivate
    split_ifs at hprivate with hsuccess
    rcases restore_cases key w.db.base owner file_id ⟨ok, w.now⟩ with
      ⟨-, hfail⟩ | ⟨-, ⟨g, hg, hselected⟩, folder_id, original_name, hdb⟩
    · exact absurd hsuccess (by rw [hfail]; decide)
    have hgid : g.id = file_id := by
      simp only [restorable, Bool.and_eq_true, decide_eq_true_eq] at hselected
      exact hselected.1.1
    obtain rfl : g = f := hlinked.file_eq hg hf
      (hgid.trans ((Option.some.inj hprivate).trans hfid.symm))
    rw [hdb]
    exact not_guarded_update_files hlinked (fun _ => rfl) (fun _ => rfl) (fun _ => rfl)
      hjoined hopen hforeign hselected rfl rfl
  | _ => contradiction

end Steps

/-! ## Every run -/

section Runs

/-- The runs without a step that exposes a file. -/
def Unexposed (key : Bytes → K) (sha256_hex : Bytes → Bytes) (w : World) (l : Label) : Prop :=
  ¬ Exposes key sha256_hex w l

/-- **Who a file is served to.** In every state of every run without a step that
exposes a file: a link is served only while its creator could create it, the next
step breaks that exactly when it exposes a file, and apart from links a file is
served only to its owner or while it is public. -/
theorem links_guarded_iff (key : Bytes → K) (sha256_hex : Bytes → Bytes) (w : World)
    (hw : (system key sha256_hex).ReachableVia (Unexposed key sha256_hex) w) :
    Guarded key sha256_hex w ∧
      (∀ l w', (system key sha256_hex).step w l = some w' →
        (Guarded key sha256_hex w' ↔ ¬ Exposes key sha256_hex w l)) ∧
      (∀ owner file_id include_deleted e record,
        load_owned_file_record w.db.base owner file_id include_deleted e = .ok record →
        record.owner = owner ∧
          fetch_file_record_impl w.db.base file_id include_deleted = some record) ∧
      (∀ file_id e record, load_public_file_record w.db.base file_id e = .ok record →
        record.is_public = true ∧
          fetch_file_record_impl w.db.base file_id false = some record) := by
  have hinv : Linked key w.db ∧ Guarded key sha256_hex w := by
    refine System.ReachableVia.invariant _
      (P := fun w => Linked key w.db ∧ Guarded key sha256_hex w) ?_ ?_ hw
    · rintro w ⟨hfiles, -, hshares, hids, hnames⟩
      have hlinked : Linked key w.db := by
        refine ⟨hids, hnames, ?_, ?_, ?_, ?_⟩
        · rw [hfiles]
          exact nodup_nil
        all_goals simp [hfiles, hshares]
      refine ⟨hlinked, (guarded_iff hlinked).mpr ?_⟩
      intro _ _ s _ _ _ hjoined
      have hmem := mem_of_find?_eq_some hjoined.share
      rw [hshares] at hmem
      exact absurd hmem not_mem_nil
    · rintro s l s' hok ⟨hlinked, hguarded⟩ hstep
      exact ⟨hlinked.step hstep, hguarded.step hlinked hstep hok⟩
  obtain ⟨hlinked, hguarded⟩ := hinv
  refine ⟨hguarded, fun l w' hstep => ⟨?_, hguarded.step hlinked hstep⟩, ?_, ?_⟩
  · intro hguarded' hexposes
    exact hexposes.broken hlinked hstep hguarded'
  · intro owner file_id include_deleted e record hload
    exact (load_owned_ok hload).symm
  · intro file_id e record hload
    exact (load_public_ok hload).symm

end Runs

def two_users : World where
  db :=
    { base :=
        { users := [⟨1, lit "alice", false⟩, ⟨2, lit "bob", false⟩], folders := [], files := []
          physical_files := [], next_file_id := 1, next_physical_id := 1 }
      file_shares := [] }
  disk := ⟨fun _ => none, fun _ => none⟩
  now := 0

theorem two_users_init : (system id id).init two_users :=
  ⟨rfl, rfl, rfl, by decide, by decide⟩

/-- Alice uploads a public file, and Bob makes a link to it. -/
def link_to_public_file : List Label :=
  [.create_uploaded_file
    { owner := lit "alice", stored_name_prefix := lit "p", is_public := true, quota := ⟨0, 0⟩
      payload := { filename := lit "f.txt", content := [1], content_type := [], temp_path := []
                   sha256 := [], folder_id := 0, size := 1, use_temp_file := false } }
    ⟨true, true, true, true, fun _ => true, true, none, true, none, none, false, true, 0⟩,
   .create_share_link (lit "bob") 1 ⟨[], 0, 0⟩ (fun _ => [7]) fun _ => true]

def link_served (w : World) : Bool :=
  (load_share_detail id id w.db [7] [] ⟨fun _ => true, w.now⟩).isOk

theorem public_link_guarded :
    ∃ w, (system id id).ReachableVia (Unexposed id id) w ∧ link_served w = true ∧
      Permitted id w [7] := by
  obtain ⟨w, -, hw, hserved⟩ := System.ReachableVia.of_run (system id id)
    (fun w l => privatised id w l = none) two_users_init link_to_public_file (by decide +kernel)
    link_served (by decide +kernel)
  have hw' : (system id id).ReachableVia (Unexposed id id) w := by
    refine System.ReachableVia.mono _ ?_ hw
    rintro w l hnone ⟨_, _, _, _, _, _, -, hsome, -⟩
    rw [hnone] at hsome
    contradiction
  exact ⟨w, hw', hserved, (links_guarded_iff id id w hw').1 [7] [] ⟨fun _ => true, .inl hserved⟩⟩

def bob_may_share (w : World) : Bool :=
  (load_shareable_file_record w.db.base (lit "bob") 1 ⟨fun _ => true, w.now⟩).isOk

/-- Alice's file is private, Bob's link to it is the one with the token, and the link
is served. -/
def private_file_served (w : World) : Bool :=
  link_served w && !bob_may_share w &&
    decide ((share_row id w.db [7]).map FileShareRow.file_id = some 1) &&
    decide (((share_row id w.db [7]).bind fun s =>
      w.db.base.users.find? fun u => u.id = s.user_id).map UserRow.username = some (lit "bob"))

theorem link_outlives_publication :
    ∃ w, (system id id).Reachable w ∧ Served id id w [7] [] ∧ ¬ Permitted id w [7] := by
  obtain ⟨w, hw, htest⟩ := System.Reachable.of_run (system id id) two_users_init
    (link_to_public_file ++ [.update_file_visibility (lit "alice") 1 false fun _ => true])
    private_file_served (by decide +kernel)
  simp only [private_file_served, Bool.and_eq_true, Bool.not_eq_true', decide_eq_true_eq] at htest
  obtain ⟨⟨⟨hserved, hmay⟩, hfile⟩, hcreator⟩ := htest
  refine ⟨w, hw, ⟨fun _ => true, .inl hserved⟩, ?_⟩
  rintro ⟨s, su, record, hs, hsu, hload⟩
  rw [hs, Option.map_some, Option.some.injEq] at hfile
  rw [hs, Option.bind_some, hsu, Option.map_some, Option.some.injEq] at hcreator
  rw [hfile, hcreator] at hload
  rw [bob_may_share, hload] at hmay
  contradiction

end AtlasWebServer.ShareAccess
