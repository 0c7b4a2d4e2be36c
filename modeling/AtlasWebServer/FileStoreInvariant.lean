/-
The deduplicated store over every interleaving of its requests: each row of
`physical_files` counts its `files`, has at least one, has its content on disk
under its stored name, and nobody is about to unlink that name.

The proof is in layers. `DbOk` is about the tables alone, and each statement keeps
it. `DiskOk` relates the rows to the disk; it only depends on the names and digests
of the rows, so the statements on `files` keep it for free. What ties the two to the
unlinks that are still to come is that a stored name is used once: a name whose row
was deleted is in the history, and a new row's name is not.
-/
import AtlasWebServer.FileStore

set_option autoImplicit false

namespace AtlasWebServer.FileStore

open StepSystem Bytes Tables FileNames List

variable {stored_name stored_name_start : Bytes} {selects : FileRow → Bool} {file_id : ℤ}
  {request : Request} {r : Db × Disk × Request} {w : World}

/-! ## The tables -/

/-- The number of files on a physical file. -/
def refs (db : Db) (physical_id : ℤ) : ℕ :=
  db.files.countP fun f => decide (f.physical_id = physical_id)

/-- The tables are consistent: keys, references, and reference counts. -/
structure DbOk (db : Db) : Prop where
  file_ids : (db.files.map FileRow.id).Nodup
  file_id_lt : ∀ f ∈ db.files, f.id < db.next_file_id
  physical_ids : (db.physical_files.map PhysicalFileRow.id).Nodup
  physical_names : (db.physical_files.map PhysicalFileRow.stored_name).Nodup
  physical_id_lt : ∀ p ∈ db.physical_files, 0 < p.id ∧ p.id < db.next_physical_id
  next_physical_pos : 0 < db.next_physical_id
  references : ∀ f ∈ db.files, ∃ p ∈ db.physical_files, p.id = f.physical_id
  ref_count : ∀ p ∈ db.physical_files, p.ref_count = refs db p.id

def Used (db : Db) : Prop := ∀ p ∈ db.physical_files, 1 ≤ refs db p.id

/-- A row of `physical_files` as it is after some reference counts have changed. -/
def SameFile (p q : PhysicalFileRow) : Prop :=
  p.id = q.id ∧ p.stored_name = q.stored_name ∧ p.sha256 = q.sha256

/-- Every row of `db'` is a row of `db`, up to its reference count. -/
def Inherits (db db' : Db) : Prop :=
  ∀ q ∈ db'.physical_files, ∃ p ∈ db.physical_files, SameFile p q

theorem Inherits.refl (db : Db) : Inherits db db := fun q hq => ⟨q, hq, rfl, rfl, rfl⟩

variable {db' : Db}

theorem Inherits.trans {db db'' : Db} (h : Inherits db db') (h' : Inherits db' db'') :
    Inherits db db'' := by
  intro r hr
  obtain ⟨q, hq, h1, h2, h3⟩ := h' r hr
  obtain ⟨p, hp, g1, g2, g3⟩ := h q hq
  exact ⟨p, hp, g1.trans h1, g2.trans h2, g3.trans h3⟩

section TableLemmas

variable {db : Db}

theorem DbOk.row_unique (h : DbOk db) {p q : PhysicalFileRow} (hp : p ∈ db.physical_files)
    (hq : q ∈ db.physical_files) (hid : p.id = q.id) : p = q :=
  List.inj_on_of_nodup_map h.physical_ids hp hq hid

variable {f : FileRow} {physical_id : ℤ}

theorem DbOk.file_unique (h : DbOk db) {g : FileRow} (hf : f ∈ db.files) (hg : g ∈ db.files)
    (hid : f.id = g.id) : f = g :=
  List.inj_on_of_nodup_map h.file_ids hf hg hid

/-- A trigger's `UPDATE` of one reference count. -/
def set_ref_count (physical_id : ℤ) (g : ℤ → ℤ) (p : PhysicalFileRow) : PhysicalFileRow :=
  if p.id = physical_id then { p with ref_count := g p.ref_count } else p

theorem set_ref_count_same (physical_id : ℤ) (g : ℤ → ℤ) (p : PhysicalFileRow) :
    SameFile p (set_ref_count physical_id g p) := by
  unfold set_ref_count
  split_ifs <;> exact ⟨rfl, rfl, rfl⟩

theorem map_set_ref_count_ids (physical_id : ℤ) (g : ℤ → ℤ) (rows : List PhysicalFileRow) :
    (rows.map (set_ref_count physical_id g)).map PhysicalFileRow.id
      = rows.map PhysicalFileRow.id := by
  rw [map_map]
  exact map_congr_left fun p _ => (set_ref_count_same physical_id g p).1.symm

theorem DbOk.recount (h : DbOk db) {g : ℤ → ℤ}
    (hrows : db'.physical_files = db.physical_files.map (set_ref_count physical_id g))
    (hnext : db'.next_physical_id = db.next_physical_id) (hids : (db'.files.map FileRow.id).Nodup)
    (hlt : ∀ f ∈ db'.files, f.id < db'.next_file_id)
    (href : ∀ f ∈ db'.files, ∃ p ∈ db.physical_files, p.id = f.physical_id)
    (hcount : ∀ p ∈ db.physical_files, (set_ref_count physical_id g p).ref_count = refs db' p.id) :
    DbOk db' ∧ Inherits db db' := by
  have hsame := set_ref_count_same physical_id g
  have hinh : Inherits db db' := by
    intro q hq
    rw [hrows] at hq
    obtain ⟨p, hp, rfl⟩ := mem_map.mp hq
    exact ⟨p, hp, hsame p⟩
  refine ⟨⟨hids, hlt, ?_, ?_, ?_, hnext ▸ h.next_physical_pos, ?_, ?_⟩, hinh⟩
  · rw [hrows, map_set_ref_count_ids]
    exact h.physical_ids
  · have hnames : PhysicalFileRow.stored_name ∘ set_ref_count physical_id g =
        PhysicalFileRow.stored_name := funext fun p => (hsame p).2.1.symm
    rw [hrows, map_map, hnames]
    exact h.physical_names
  · intro q hq
    obtain ⟨p, hp, hid, -⟩ := hinh q hq
    rw [← hid, hnext]
    exact h.physical_id_lt p hp
  · intro f hf
    obtain ⟨p, hp, hpid⟩ := href f hf
    exact ⟨_, hrows ▸ mem_map_of_mem hp, (hsame p).1.symm.trans hpid⟩
  · intro q hq
    rw [hrows] at hq
    obtain ⟨p, hp, rfl⟩ := mem_map.mp hq
    rw [← (hsame p).1]
    exact hcount p hp

/-- What `insert_file` appends: rows of one physical file, with ids from the counter on. -/
structure NewRows (db : Db) (physical_id : ℤ) (rows : List FileRow) : Prop where
  ne_nil : rows ≠ []
  ids : (rows.map FileRow.id).Nodup
  range : ∀ row ∈ rows, db.next_file_id ≤ row.id ∧ row.id < db.next_file_id + rows.length
  physical : ∀ row ∈ rows, row.physical_id = physical_id

theorem DbOk.append_files (h : DbOk db) {rows : List FileRow} (hnew : NewRows db physical_id rows)
    (href : ∃ p ∈ db.physical_files, p.id = physical_id)
    (hused : ∀ p ∈ db.physical_files, p.id ≠ physical_id → 1 ≤ refs db p.id) :
    let db' := append_files db physical_id rows
    DbOk db' ∧ Used db' ∧ Inherits db db' := by
  intro db'
  have hrefs : ∀ id, refs db' id = refs db id + if physical_id = id then rows.length else 0 := by
    intro id
    show (db.files ++ rows).countP _ = _
    rw [countP_append]
    congr 1
    split_ifs with hid
    · refine countP_eq_length.mpr fun row hrow => decide_eq_true ?_
      exact (hnew.physical row hrow).trans hid
    · refine countP_eq_zero.mpr fun row hrow => ?_
      rw [decide_eq_true_eq, hnew.physical row hrow]
      exact hid
  have hrows : db'.physical_files
      = db.physical_files.map (set_ref_count physical_id (· + rows.length)) := rfl
  have hlast : ∀ f ∈ db'.files, f.id < db.next_file_id + rows.length := by
    intro f hf
    rcases mem_append.mp hf with hf | hf
    · have := h.file_id_lt f hf
      omega
    · exact (hnew.range f hf).2
  have hok : DbOk db' ∧ Inherits db db' := by
    apply h.recount hrows rfl
    · exact nodup_append_fresh h.file_ids h.file_id_lt hnew.ids fun row hrow =>
        (hnew.range row hrow).1
    · exact hlast
    · refine forall_mem_append.mpr ⟨h.references, fun f hf => ?_⟩
      rw [hnew.physical f hf]
      exact href
    · intro p hp
      have hp' := h.ref_count p hp
      rw [hrefs]
      unfold set_ref_count
      by_cases hpid : p.id = physical_id
      · rw [if_pos hpid, if_pos hpid.symm]
        show p.ref_count + rows.length = _
        omega
      · rw [if_neg hpid, if_neg (Ne.symm hpid)]
        omega
  refine ⟨hok.1, ?_, hok.2⟩
  intro q hq
  obtain ⟨p, hp, hsame⟩ := hok.2 q hq
  rw [← hsame.1, hrefs]
  by_cases hpid : p.id = physical_id
  · have := length_pos_of_ne_nil hnew.ne_nil
    rw [if_pos hpid.symm]
    omega
  · have := hused p hp hpid
    omega

theorem DbOk.append_physical (h : DbOk db) {sha256 : Bytes} (file_size : ℤ)
    (hname : ∀ p ∈ db.physical_files, p.stored_name ≠ stored_name) :
    DbOk { db with
      physical_files := db.physical_files ++
        [⟨db.next_physical_id, sha256, stored_name, file_size, 0⟩]
      next_physical_id := db.next_physical_id + 1 } := by
  -- references are to rows below the counter, so none is to the new one
  have hzero : refs db db.next_physical_id = 0 := by
    unfold refs
    rw [countP_eq_zero]
    intro f hf
    obtain ⟨p, hp, hpid⟩ := h.references f hf
    have := h.physical_id_lt p hp
    simp only [decide_eq_true_eq]
    omega
  refine
    { file_ids := h.file_ids
      file_id_lt := h.file_id_lt
      physical_ids := ?_
      physical_names := ?_
      physical_id_lt := ?_
      next_physical_pos := by have := h.next_physical_pos; show 0 < db.next_physical_id + 1; omega
      references := ?_
      ref_count := ?_ }
  · apply nodup_append_fresh h.physical_ids (fun p hp => (h.physical_id_lt p hp).2)
    · exact nodup_singleton _
    · rintro _ (_ | ⟨_, ⟨⟩⟩)
      exact le_refl _
  · rw [map_append, map_singleton, ← concat_eq_append]
    refine List.Nodup.concat ?_ h.physical_names
    intro hmem
    obtain ⟨p, hp, hpname⟩ := mem_map.mp hmem
    exact hname p hp hpname
  · intro p hp
    show 0 < p.id ∧ p.id < db.next_physical_id + 1
    rcases mem_append.mp hp with hp | hp
    · have := h.physical_id_lt p hp
      omega
    rw [mem_singleton.mp hp]
    have := h.next_physical_pos
    dsimp only
    omega
  · intro f hf
    obtain ⟨p, hp, hpid⟩ := h.references f hf
    exact ⟨p, mem_append_left _ hp, hpid⟩
  · refine forall_mem_append.mpr ⟨h.ref_count, forall_mem_singleton.mpr ?_⟩
    show (0 : ℤ) = refs db db.next_physical_id
    rw [hzero]
    rfl

theorem DbOk.update_files (h : DbOk db) {set : FileRow → FileRow}
    (hset : ∀ f, (set f).id = f.id ∧ (set f).physical_id = f.physical_id) :
    DbOk (update_files db selects set) ∧
      ∀ id, refs (FileStore.update_files db selects set) id = refs db id := by
  set g : FileRow → FileRow := fun f => if selects f then set f else f with hg
  have hgid : ∀ f, (g f).id = f.id ∧ (g f).physical_id = f.physical_id := by
    intro f
    rw [hg]
    dsimp only
    split_ifs
    · exact hset f
    · exact ⟨rfl, rfl⟩
  have hrefs : ∀ id, refs (FileStore.update_files db selects set) id = refs db id := by
    intro id
    show (db.files.map g).countP _ = _
    rw [countP_map]
    refine countP_congr fun f _ => ?_
    simp only [Function.comp_apply, (hgid f).2]
  refine ⟨?_, hrefs⟩
  refine
    { file_ids := ?_
      file_id_lt := ?_
      physical_ids := h.physical_ids
      physical_names := h.physical_names
      physical_id_lt := h.physical_id_lt
      next_physical_pos := h.next_physical_pos
      references := ?_
      ref_count := fun p hp => by rw [hrefs]; exact h.ref_count p hp }
  · show ((db.files.map g).map FileRow.id).Nodup
    have hsame : (db.files.map g).map FileRow.id = db.files.map FileRow.id := by
      rw [map_map]
      exact map_congr_left fun f _ => (hgid f).1
    rw [hsame]
    exact h.file_ids
  · intro f' hf'
    obtain ⟨f, hf, rfl⟩ := mem_map.mp hf'
    rw [(hgid f).1]
    exact h.file_id_lt f hf
  · intro f' hf'
    obtain ⟨f, hf, rfl⟩ := mem_map.mp hf'
    rw [(hgid f).2]
    exact h.references f hf

theorem countP_filter_unique {τ : Type} {rows : List τ} {selects : τ → Bool} {x : τ}
    (hnd : rows.Nodup) (hx : x ∈ rows) (hsel : selects x = true)
    (huniq : ∀ y ∈ rows, selects y = true → y = x) (p : τ → Bool) :
    (rows.filter fun y => !selects y).countP p + one p x = rows.countP p := by
  have hpicked : rows.filter selects = [x] := by
    refine List.Perm.eq_singleton ?_ |>.trans rfl
    refine (perm_ext_iff_of_nodup (hnd.filter _) (nodup_singleton x)).mpr fun y => ?_
    rw [mem_filter, mem_singleton]
    constructor
    · rintro ⟨hy, hsy⟩
      exact huniq y hy hsy
    · rintro rfl
      exact ⟨hx, hsel⟩
  rw [countP_eq_countP_filter_add rows p selects, hpicked, countP_singleton, one]
  omega

theorem DbOk.delete_file (h : DbOk db) (hf : f ∈ db.files) (hsel : selects f = true)
    (huniq : ∀ g ∈ db.files, selects g = true → g.id = f.id) :
    let db' := trg_files_after_delete
      { db with files := db.files.filter fun g => !selects g } f.physical_id
    DbOk db' ∧ Inherits db db' ∧
      (∀ id, refs db' id + (if f.physical_id = id then 1 else 0) = refs db id) := by
  intro db'
  have hrows : db'.physical_files
      = db.physical_files.map (set_ref_count f.physical_id fun n => max (n - 1) 0) := rfl
  have hnd : db.files.Nodup := h.file_ids.of_map _
  have hrefs : ∀ id, refs db' id + (if f.physical_id = id then 1 else 0) = refs db id := by
    intro id
    have hcount := countP_filter_unique hnd hf hsel
      (fun g hg hsg => h.file_unique hg hf (huniq g hg hsg))
      (fun g => decide (g.physical_id = id))
    rw [one] at hcount
    simp only [decide_eq_true_eq] at hcount
    exact hcount
  have hok : DbOk db' ∧ Inherits db db' := by
    apply h.recount hrows rfl (h.file_ids.sublist (filter_sublist.map _))
      (fun g hg => h.file_id_lt g (mem_of_mem_filter hg))
      (fun g hg => h.references g (mem_of_mem_filter hg))
    intro p hp
    have hp' := h.ref_count p hp
    have hr := hrefs p.id
    unfold set_ref_count
    by_cases hpid : p.id = f.physical_id
    · -- the count was at least one, so `GREATEST` does not cut anything off
      rw [if_pos hpid.symm] at hr
      rw [if_pos hpid]
      show max (p.ref_count - 1) 0 = _
      omega
    · rw [if_neg (Ne.symm hpid)] at hr
      rw [if_neg hpid]
      omega
  exact ⟨hok.1, hok.2, hrefs⟩

theorem DbOk.delete_physical (h : DbOk db)
    (hused : ∀ p ∈ db.physical_files, p.id ≠ physical_id → 1 ≤ refs db p.id) :
    let r := delete_physical_file_if_unreferenced db physical_id
    DbOk r.1 ∧ Used r.1 ∧ (∀ p ∈ r.1.physical_files, p ∈ db.physical_files) ∧
      (r.2 = true → ∀ p ∈ r.1.physical_files, p.id ≠ physical_id) := by
  intro r
  set unreferenced : PhysicalFileRow → Bool := fun p =>
    decide (p.id = physical_id) && decide (p.ref_count = 0) &&
      !(db.files.any fun f => decide (f.physical_id = physical_id)) with hun
  have hr1 : r.1.physical_files = db.physical_files.filter fun p => !unreferenced p := rfl
  have hr2 : r.2 = db.physical_files.any unreferenced := rfl
  have hsub : ∀ p ∈ r.1.physical_files, p ∈ db.physical_files := fun p hp => by
    exact mem_of_mem_filter hp
  -- a row that is dropped has no file on it
  have hdrop : ∀ p ∈ db.physical_files, unreferenced p = true → p.id = physical_id ∧
      ∀ f ∈ db.files, f.physical_id ≠ physical_id := by
    intro p _ hp
    simp only [hun, Bool.and_eq_true, decide_eq_true_eq, Bool.not_eq_true', any_eq_false] at hp
    exact ⟨hp.1.1, hp.2⟩
  -- a row that stays has one
  have hkeep : ∀ p ∈ db.physical_files, unreferenced p = false → 1 ≤ refs db p.id := by
    intro p hp hnot
    by_cases hpid : p.id = physical_id
    · by_contra hzero
      have hz : refs db p.id = 0 := by omega
      have hcount := h.ref_count p hp
      have hnone := countP_eq_zero.mp hz
      refine absurd hnot ?_
      simp only [hun, Bool.not_eq_false, Bool.and_eq_true, decide_eq_true_eq, Bool.not_eq_true',
        any_eq_false]
      refine ⟨⟨hpid, by omega⟩, fun f hf => ?_⟩
      rw [← hpid]
      exact of_decide_eq_false (Bool.eq_false_iff.mpr (hnone f hf))
    · exact hused p hp hpid
  refine ⟨?_, ?_, hsub, ?_⟩
  · refine
      { file_ids := h.file_ids
        file_id_lt := h.file_id_lt
        physical_ids := h.physical_ids.sublist (filter_sublist.map _)
        physical_names := h.physical_names.sublist (filter_sublist.map _)
        physical_id_lt := fun p hp => h.physical_id_lt p (hsub p hp)
        next_physical_pos := h.next_physical_pos
        references := ?_
        ref_count := fun p hp => h.ref_count p (hsub p hp) }
    intro f hf
    obtain ⟨p, hp, hpid⟩ := h.references f hf
    refine ⟨p, ?_, hpid⟩
    rw [hr1, mem_filter]
    refine ⟨hp, ?_⟩
    cases hunp : unreferenced p with
    | false => rfl
    | true =>
      obtain ⟨hid, hnone⟩ := hdrop p hp hunp
      exact absurd (hpid.symm.trans hid) (hnone f hf)
  · intro p hp
    rw [hr1, mem_filter] at hp
    exact hkeep p hp.1 (by simpa using hp.2)
  · intro hdel p hp hpid
    rw [hr2, any_eq_true] at hdel
    obtain ⟨q, hq, hunq⟩ := hdel
    rw [hr1, mem_filter] at hp
    have hqp : q = p := h.row_unique hq hp.1 ((hdrop q hq hunq).1.trans hpid.symm)
    rw [← hqp, hunq] at hp
    exact Bool.false_ne_true hp.2

theorem DbOk.rollback (h : DbOk db) {after : Db} (hf : db.next_file_id ≤ after.next_file_id)
    (hp : db.next_physical_id ≤ after.next_physical_id) : DbOk (rollback db after) :=
  { file_ids := h.file_ids
    file_id_lt := fun f hf' => lt_of_lt_of_le (h.file_id_lt f hf') hf
    physical_ids := h.physical_ids
    physical_names := h.physical_names
    physical_id_lt := fun p hp' =>
      ⟨(h.physical_id_lt p hp').1, lt_of_lt_of_le (h.physical_id_lt p hp').2 hp⟩
    next_physical_pos := lt_of_lt_of_le h.next_physical_pos hp
    references := h.references
    ref_count := h.ref_count }

end TableLemmas

/-! ## The disk -/

section DiskLemmas

variable (sha256_hex : Bytes → Bytes)

/-- Every row's content is on disk under its name. -/
def DiskOk (db : Db) (d : Disk) : Prop :=
  ∀ p ∈ db.physical_files, ∃ content, d.uploads p.stored_name = some content ∧
    sha256_hex content = p.sha256

variable {sha256_hex} {db : Db} {d : Disk}

theorem DiskOk.inherit (h : DiskOk sha256_hex db d) (hinh : Inherits db db') :
    DiskOk sha256_hex db' d := by
  intro q hq
  obtain ⟨p, hp, -, hname, hsha⟩ := hinh q hq
  rw [← hname, ← hsha]
  exact h p hp

theorem DiskOk.remove_file (h : DiskOk sha256_hex db d)
    (hname : ∀ p ∈ db.physical_files, p.stored_name ≠ stored_name) :
    DiskOk sha256_hex db (d.remove_file stored_name) := by
  intro p hp
  obtain ⟨content, hcontent, hsha⟩ := h p hp
  refine ⟨content, ?_, hsha⟩
  show Function.update d.uploads stored_name none p.stored_name = some content
  rw [Function.update_of_ne (hname p hp)]
  exact hcontent

def payload_content (d : Disk) (payload : UploadPayload) : Option Bytes :=
  if payload.use_temp_file then d.temp payload.temp_path else some payload.content

theorem materialize_uploads (payload : UploadPayload) (stored_name : Bytes) :
    (materialize_upload_payload d payload stored_name).uploads
      = Function.update d.uploads stored_name (payload_content d payload) := by
  unfold materialize_upload_payload payload_content
  by_cases ht : payload.use_temp_file = true
  · rw [if_pos ht, if_pos ht]
    rfl
  · rw [if_neg ht, if_neg ht]
    rfl

theorem DiskOk.materialize {rows : Db} {payload : UploadPayload} {content : Bytes}
    (hcontent : payload_content d payload = some content)
    (hrow : ∀ p ∈ rows.physical_files, p.stored_name ≠ stored_name →
      ∃ c, d.uploads p.stored_name = some c ∧ sha256_hex c = p.sha256)
    (hsha : ∀ p ∈ rows.physical_files, p.stored_name = stored_name →
      sha256_hex content = p.sha256) :
    DiskOk sha256_hex rows (materialize_upload_payload d payload stored_name) := by
  intro p hp
  rw [materialize_uploads]
  by_cases hname : p.stored_name = stored_name
  · rw [hname, Function.update_self]
    exact ⟨content, hcontent, hsha p hp hname⟩
  · rw [Function.update_of_ne hname]
    exact hrow p hp hname

end DiskLemmas

/-! ## Placing a payload -/

variable {K : Type} [DecidableEq K] {key : Bytes → K} {sha256_hex : Bytes → Bytes}

section Placing

variable {db : Db} {d : Disk} {payload : UploadPayload} {content : Bytes}

/-- What placing a payload guarantees, to the upload that goes on and to the one
that is rolled back. -/
structure PlacedOk (sha256_hex : Bytes → Bytes) (db : Db) (names : List Bytes) (placed : Placed) :
    Prop where
  db_ok : DbOk placed.db
  used : ∀ p ∈ placed.db.physical_files, p.id ≠ placed.physical_id → 1 ≤ refs placed.db p.id
  disk_ok : DiskOk sha256_hex placed.db placed.disk
  -- every row is an old one, or has a name that was never used
  rows : ∀ p ∈ placed.db.physical_files, p ∈ db.physical_files ∨
    (p.stored_name ∈ placed.names ∧ p.stored_name ∉ names)
  names_ne : ∀ name ∈ placed.names, name ≠ []
  aborted : DiskOk sha256_hex db placed.disk
  removed : placed.physical_created = true →
    DiskOk sha256_hex db (placed.disk.remove_file placed.stored_name)
  file_id : placed.db.next_file_id = db.next_file_id
  physical_id : db.next_physical_id ≤ placed.db.next_physical_id

variable {names : List Bytes}

theorem place_existing_ok {p : PhysicalFileRow} (h : DbOk db) (hu : Used db)
    (hd : DiskOk sha256_hex db d) (hp : p ∈ db.physical_files) (hpsha : p.sha256 = payload.sha256)
    (hcontent : payload_content d payload = some content)
    (hsha : sha256_hex content = payload.sha256) :
    PlacedOk sha256_hex db names (place_existing db d payload p) := by
  have hdisk : DiskOk sha256_hex db (place_existing db d payload p).disk := by
    show DiskOk sha256_hex db (reuse_physical_file d payload p).1
    unfold reuse_physical_file
    by_cases hex : d.file_exists p.stored_name = true
    · rw [if_pos hex]
      -- only the spool file goes
      by_cases ht : payload.use_temp_file = true
      · rw [if_pos ht]
        exact hd
      · rw [if_neg ht]
        exact hd
    · rw [if_neg hex]
      refine DiskOk.materialize hcontent (fun q hq _ => hd q hq) fun q hq hname => ?_
      have hqp : q = p := inj_on_of_nodup_map h.physical_names hq hp hname
      rw [hqp, hsha, hpsha]
  exact
    { db_ok := h
      used := fun q hq _ => hu q hq
      disk_ok := hdisk
      rows := fun q hq => .inl hq
      names_ne := fun _ hname => absurd hname not_mem_nil
      aborted := hdisk
      removed := fun hc => absurd hc Bool.false_ne_true
      file_id := rfl
      physical_id := le_refl _ }

theorem new_stored_name_fresh (hlen : kStoredNamePrefixLength ≤ stored_name_start.length)
    (hfresh : ∀ name ∈ names, name.take kStoredNamePrefixLength
      ≠ stored_name_start.take kStoredNamePrefixLength) :
    new_stored_name stored_name_start payload ∉ names := by
  intro hmem
  refine hfresh _ hmem ?_
  unfold new_stored_name
  have htake : (stored_name_start.take kStoredNamePrefixLength).length
      = kStoredNamePrefixLength := by
    rw [length_take, Nat.min_eq_left hlen]
  rw [append_assoc, take_append_of_le_length (by rw [htake]), take_take, Nat.min_self]

theorem place_physical_file_ok {e : UploadEvent} {placed : Placed} (h : DbOk db) (hu : Used db)
    (hd : DiskOk sha256_hex db d) (hcontent : payload_content d payload = some content)
    (hsha : sha256_hex content = payload.sha256)
    (hfresh : new_stored_name stored_name_start payload ∉ names)
    (hplaced : place_physical_file key db d stored_name_start payload e = some placed) :
    PlacedOk sha256_hex db names placed := by
  rcases place_physical_file_cases hplaced with ⟨p, hp, hpsha, rfl⟩ | ⟨hne, hname, rfl⟩
  · exact place_existing_ok h hu hd hp hpsha hcontent hsha
  set stored_name := new_stored_name stored_name_start payload with hnew
  have holddisk : DiskOk sha256_hex db (materialize_upload_payload d payload stored_name) :=
    DiskOk.materialize hcontent (fun p hp _ => hd p hp) fun p hp hpn => absurd hpn (hname p hp)
  exact
    { db_ok := h.append_physical payload.size hname
      used := forall_mem_append.mpr
        ⟨fun p hp _ => hu p hp, forall_mem_singleton.mpr fun hpid => absurd rfl hpid⟩
      disk_ok := by
        refine DiskOk.materialize hcontent ?_ ?_
        · exact forall_mem_append.mpr
            ⟨fun p hp _ => hd p hp, forall_mem_singleton.mpr fun hpn => absurd rfl hpn⟩
        · exact forall_mem_append.mpr
            ⟨fun p hp hpn => absurd hpn (hname p hp), forall_mem_singleton.mpr fun _ => hsha⟩
      rows := forall_mem_append.mpr ⟨fun p hp => .inl hp,
        forall_mem_singleton.mpr (.inr ⟨mem_singleton.mpr rfl, hfresh⟩)⟩
      names_ne := fun name hname => by rw [mem_singleton.mp hname]; exact hne
      aborted := holddisk
      removed := fun _ => holddisk.remove_file hname
      file_id := rfl
      physical_id := by show db.next_physical_id ≤ db.next_physical_id + 1; omega }

end Placing

/-! ## An upload -/

section Uploading

variable {db : Db} {d : Disk} {names : List Bytes} {args : UploadArgs} {e : UploadEvent}

/-- The tables and the disk together. -/
structure StoreOk (sha256_hex : Bytes → Bytes) (db : Db) (d : Disk) : Prop where
  db_ok : DbOk db
  used : Used db
  disk_ok : DiskOk sha256_hex db d

/-- The stored-name prefix was never used: the names in the history differ from it
in the characters that are kept. -/
def FreshPrefix (names : List Bytes) (stored_name_start : Bytes) : Prop :=
  kStoredNamePrefixLength ≤ stored_name_start.length ∧
    ∀ name ∈ names, name.take kStoredNamePrefixLength
      ≠ stored_name_start.take kStoredNamePrefixLength

/-- What `parse_managed_upload_payload` hands over: a spool file with the digest of
its content and no inline content, or inline content with no digest yet. -/
def PayloadOk (sha256_hex : Bytes → Bytes) (d : Disk) (payload : UploadPayload) : Prop :=
  if payload.use_temp_file then
    payload.content = [] ∧ (d.temp payload.temp_path).map sha256_hex = some payload.sha256
  else payload.sha256 = []

variable {payload : UploadPayload} {record : FileCreateRecord} {now : ℤ}
  {cut : Option (UserRow → Bool)}

theorem payload_with_digest_spec (hpay : PayloadOk sha256_hex d payload)
    (hne : (payload_with_digest sha256_hex payload).sha256 ≠ []) :
    ∃ content, payload_content d (payload_with_digest sha256_hex payload) = some content ∧
      sha256_hex content = (payload_with_digest sha256_hex payload).sha256 := by
  unfold PayloadOk at hpay
  unfold payload_with_digest at hne ⊢
  by_cases ht : payload.use_temp_file = true
  · rw [if_pos ht] at hpay
    obtain ⟨hinline, htemp⟩ := hpay
    obtain ⟨content, htemp, hsha⟩ := Option.map_eq_some_iff.mp htemp
    rw [if_neg (fun hc => hc.2 hinline)]
    refine ⟨content, ?_, hsha⟩
    rw [payload_content, if_pos ht]
    exact htemp
  · rw [if_neg ht] at hpay
    by_cases hinline : payload.content = []
    · rw [if_neg (fun hc => hc.2 hinline)] at hne
      exact absurd hpay hne
    · rw [if_pos ⟨hpay, hinline⟩]
      exact ⟨payload.content, if_neg ht, rfl⟩

theorem insert_file_rows {r : Db × ℤ} (hins : insert_file key db record now cut = .ok r) :
    ∃ rows, NewRows db record.physical_id rows ∧
      (∀ row ∈ rows, row = file_row record now row.id row.user_id) ∧
      (cut = none → ∃ user_id, user_id_subquery key db record.owner = some user_id ∧
        rows = [file_row record now db.next_file_id user_id]) ∧
      (∃ p ∈ db.physical_files, p.id = record.physical_id) ∧
      r.1 = append_files db record.physical_id rows := by
  obtain ⟨hne, href, rfl⟩ := insert_file_eq hins
  generalize husers : selected_users key db record.owner cut = users at hne
  refine ⟨_, ⟨?_, nodup_file_rows, ?_, ?_⟩, ?_, ?_, href, rfl⟩
  · rw [← length_pos_iff_ne_nil, length_file_rows]
    exact length_pos_of_ne_nil hne
  · intro row hrow
    obtain ⟨hge, hlt, -⟩ := file_rows_spec row hrow
    rw [length_file_rows]
    exact ⟨hge, hlt⟩
  · intro row hrow
    exact congrArg FileRow.physical_id (file_rows_spec row hrow).2.2
  · exact fun row hrow => (file_rows_spec row hrow).2.2
  · rintro rfl
    obtain ⟨user_id, huser⟩ : ∃ user_id, user_id_subquery key db record.owner = some user_id := by
      rw [← Option.ne_none_iff_exists']
      rintro hnone
      exact hne (by rw [← husers, selected_users, hnone]; rfl)
    refine ⟨user_id, huser, ?_⟩
    rw [← husers, selected_users, huser]
    rfl

theorem insert_file_spec {r : Db × ℤ} (h : DbOk db)
    (hused : ∀ p ∈ db.physical_files, p.id ≠ record.physical_id → 1 ≤ refs db p.id)
    (hins : insert_file key db record now cut = .ok r) :
    DbOk r.1 ∧ Used r.1 ∧ Inherits db r.1 := by
  obtain ⟨rows, hnew, -, -, href, hr⟩ := insert_file_rows hins
  rw [hr]
  exact h.append_files hnew href hused

/-- The names of the rows after a step: those before it, and new ones. -/
def NamesFrom (db db' : Db) (names new : List Bytes) : Prop :=
  ∀ q ∈ db'.physical_files, (∃ p ∈ db.physical_files, p.stored_name = q.stored_name) ∨
    (q.stored_name ∈ new ∧ q.stored_name ∉ names)

theorem NamesFrom.of_rows {new : List Bytes} (h : db'.physical_files = db.physical_files) :
    NamesFrom db db' names new := by
  intro q hq
  rw [h] at hq
  exact .inl ⟨q, hq, rfl⟩

theorem create_uploaded_file_ok (key : Bytes → K) (e : UploadEvent) (h : StoreOk sha256_hex db d)
    (hfresh : FreshPrefix names args.stored_name_prefix)
    (hpay : PayloadOk sha256_hex d args.payload) :
    let r := create_uploaded_file key sha256_hex db d args e
    StoreOk sha256_hex r.db r.disk ∧ NamesFrom db r.db names r.names ∧
      ∀ name ∈ r.names, name ≠ [] := by
  intro r
  have houtcome : UploadOutcome key sha256_hex db d args e r :=
    create_uploaded_file_outcome key _ db d args e
  clear_value r
  have hplacing : ∀ payload placed, upload_checks key sha256_hex db args e = .ok payload →
      place_physical_file key db d args.stored_name_prefix payload e = some placed →
      PlacedOk sha256_hex db names placed := by
    intro payload placed hchecks hplaced
    obtain ⟨hne, hpayload⟩ := upload_checks_spec hchecks
    rw [hpayload] at hne
    obtain ⟨content, hcontent, hsha⟩ := payload_with_digest_spec hpay hne
    exact place_physical_file_ok h.db_ok h.used h.disk_ok (by rw [hpayload]; exact hcontent)
      (by rw [hpayload]; exact hsha) (new_stored_name_fresh hfresh.1 hfresh.2) hplaced
  cases houtcome with
  | refused error => exact ⟨h, .of_rows rfl, fun _ hname => absurd hname not_mem_nil⟩
  | rolled_back after disk error hchecks hplaced hfile hphysical hdisk =>
    have hok := hplacing _ _ hchecks hplaced
    refine ⟨⟨h.db_ok.rollback (hok.file_id ▸ hfile)
      (le_trans hok.physical_id hphysical), h.used, ?_⟩,
      .of_rows rfl, hok.names_ne⟩
    rcases hdisk with rfl | ⟨hcreated, rfl⟩
    · exact hok.aborted
    · exact hok.removed hcreated
  | stored db' file_id result hchecks hplaced hinsert =>
    have hok := hplacing _ _ hchecks hplaced
    obtain ⟨hdb, hu, hinh⟩ := insert_file_spec hok.db_ok hok.used hinsert
    refine ⟨⟨hdb, hu, hok.disk_ok.inherit hinh⟩, ?_, hok.names_ne⟩
    intro q hq
    obtain ⟨p, hp, -, hname, -⟩ := hinh q hq
    rcases hok.rows p hp with hold | hnew
    · exact .inl ⟨p, hold, hname⟩
    · exact .inr (hname ▸ hnew)

theorem place_physical_file_rows {placed : Placed}
    (h : place_physical_file key db d stored_name_start payload e = some placed) :
    (placed.physical_created = false ∧ placed.db = db) ∨
      (placed.physical_created = true ∧ ∃ p, placed.db =
        { db with
          physical_files := db.physical_files ++ [p]
          next_physical_id := db.next_physical_id + 1 }) := by
  rcases place_physical_file_cases h with ⟨p, -, -, rfl⟩ | ⟨-, -, rfl⟩
  · exact .inl ⟨rfl, rfl⟩
  · exact .inr ⟨rfl, _, rfl⟩

/-- **The tables after an upload**, whatever was executed of it: users and folders as
they were, the physical files still there, and the new files with new ids. -/
structure UploadRows (db db' : Db) (rows : List FileRow) : Prop where
  users : db'.users = db.users
  folders : db'.folders = db.folders
  next_file_id : db.next_file_id ≤ db'.next_file_id
  physical_files : ∀ p ∈ db.physical_files, ∃ q ∈ db'.physical_files, q.id = p.id
  files : db'.files = db.files ++ rows
  ids : (rows.map FileRow.id).Nodup
  new : ∀ row ∈ rows, db.next_file_id ≤ row.id ∧ row.id < db'.next_file_id ∧
    ∃ p ∈ db'.physical_files, p.id = row.physical_id

theorem UploadRows.rollback {after : Db} (h : db.next_file_id ≤ after.next_file_id) :
    UploadRows db (rollback db after) [] :=
  ⟨rfl, rfl, h, fun p hp => ⟨p, hp, rfl⟩, (append_nil _).symm, nodup_nil, by simp⟩

theorem create_uploaded_file_rows (key : Bytes → K) (sha256_hex : Bytes → Bytes) (db : Db)
    (d : Disk) (args : UploadArgs) (e : UploadEvent) :
    ∃ rows, UploadRows db (create_uploaded_file key sha256_hex db d args e).db rows := by
  have hnext : ∀ {payload placed},
      place_physical_file key db d args.stored_name_prefix payload e = some placed →
        placed.db.next_file_id = db.next_file_id := by
    intro payload placed hplaced
    rcases place_physical_file_rows hplaced with ⟨-, hdb⟩ | ⟨-, p, hdb⟩ <;> rw [hdb]
  have houtcome := create_uploaded_file_outcome key sha256_hex db d args e
  generalize create_uploaded_file key sha256_hex db d args e = r at houtcome ⊢
  cases houtcome with
  | refused error =>
    have hsame : UploadRows db (rollback db db) [] := .rollback (le_refl _)
    exact ⟨[], hsame⟩
  | rolled_back after disk error hchecks hplaced hfile hphysical hdisk =>
    exact ⟨[], .rollback (hnext hplaced ▸ hfile)⟩
  | @stored payload placed db' file_id result hchecks hplaced hinsert =>
    obtain ⟨rows, hnew, -, -, ⟨p, hp, hpid⟩, hr⟩ := insert_file_rows hinsert
    dsimp only at hr
    have hkept : ∀ q ∈ placed.db.physical_files, ∃ q' ∈ db'.physical_files, q'.id = q.id := by
      intro q hq
      rw [hr]
      exact ⟨_, mem_map_of_mem hq, (set_ref_count_same _ (· + rows.length) q).1.symm⟩
    have hlater : db'.next_file_id = db.next_file_id + rows.length := by
      rw [hr, ← hnext hplaced]
      rfl
    have hrange : ∀ row ∈ rows, db.next_file_id ≤ row.id ∧ row.id < db'.next_file_id ∧
        ∃ q ∈ db'.physical_files, q.id = row.physical_id := by
      intro row hrow
      obtain ⟨hge, hlt⟩ := hnew.range row hrow
      rw [hnext hplaced] at hge hlt
      refine ⟨hge, hlater ▸ hlt, ?_⟩
      rw [hnew.physical row hrow, ← hpid]
      exact hkept p hp
    have hle : db.next_file_id ≤ db'.next_file_id := by omega
    refine ⟨rows, ?_⟩
    rcases place_physical_file_rows hplaced with ⟨-, hdb⟩ | ⟨-, p', hdb⟩ <;> rw [hdb] at hr hkept
    · exact ⟨by rw [hr]; rfl, by rw [hr]; rfl, hle, hkept, by rw [hr]; rfl, hnew.ids, hrange⟩
    · exact ⟨by rw [hr]; rfl, by rw [hr]; rfl, hle, fun q hq => hkept q (mem_append_left _ hq),
        by rw [hr]; rfl, hnew.ids, hrange⟩

end Uploading

/-! ## The other requests -/

section Requests

variable {db : Db} {d : Disk}

theorem StoreOk.update_files (h : StoreOk sha256_hex db d) {set : FileRow → FileRow}
    (hset : ∀ f, (set f).id = f.id ∧ (set f).physical_id = f.physical_id) :
    StoreOk sha256_hex (update_files db selects set) d := by
  obtain ⟨hdb, hrefs⟩ := h.db_ok.update_files hset
  exact ⟨hdb, fun p hp => by rw [hrefs]; exact h.used p hp, h.disk_ok⟩

theorem fetch_file_record_spec {include_deleted : Bool} {record : ManagedFileRecord}
    (h : fetch_file_record_impl db file_id include_deleted = some record) :
    ∃ f ∈ db.files, ∃ p ∈ db.physical_files, f.id = file_id ∧ p.id = f.physical_id ∧
      record.physical_id = f.physical_id ∧
      record.stored_name = if p.stored_name = [] then f.stored_name else p.stored_name := by
  obtain ⟨f, hf, h⟩ := Option.bind_eq_some_iff.mp h
  obtain ⟨u, -, h⟩ := Option.bind_eq_some_iff.mp h
  obtain ⟨p, hp, h⟩ := Option.bind_eq_some_iff.mp h
  rw [Option.some.injEq] at h
  have hfid : f.id = file_id ∧ (include_deleted = true ∨ f.deleted_at = none) := by
    simpa using List.find?_some hf
  have hpid : p.id = f.physical_id := by simpa using List.find?_some hp
  refine ⟨f, mem_of_find?_eq_some hf, p, mem_of_find?_eq_some hp, hfid.1, hpid, ?_, ?_⟩
  · rw [← h]
  · rw [← h]

/-- What a step of a request leaves behind: a store, no new names, and a removal
only of a name whose row it has just deleted. -/
structure StepOk (sha256_hex : Bytes → Bytes) (db db' : Db) (d' : Disk) (removal : Option Bytes) :
    Prop where
  store : StoreOk sha256_hex db' d'
  inherits : Inherits db db'
  removal_of : ∀ name, removal = some name →
    (∃ p ∈ db.physical_files, p.stored_name = name) ∧
      ∀ p ∈ db'.physical_files, p.stored_name ≠ name

theorem StoreOk.same (h : StoreOk sha256_hex db d) : StepOk sha256_hex db db d none :=
  ⟨h, .refl db, nofun⟩

variable {owner : Bytes} {e : Event}

theorem hard_delete_row_spec (h : StoreOk sha256_hex db d)
    (hdel : hard_delete_row key db owner file_id = some db') :
    ∃ f ∈ db.files, f.id = file_id ∧ DbOk db' ∧ Inherits db db' ∧
      ∀ p ∈ db'.physical_files, p.id ≠ f.physical_id → 1 ≤ refs db' p.id := by
  unfold hard_delete_row at hdel
  split_ifs at hdel
  obtain ⟨f, hfind, rfl⟩ := Option.map_eq_some_iff.mp hdel
  have hf := mem_of_find?_eq_some hfind
  have hsel := List.find?_some hfind
  have hselid : ∀ g, hard_deletable key db owner file_id g = true → g.id = file_id := by
    intro g hg
    simp only [hard_deletable, Bool.and_eq_true, decide_eq_true_eq] at hg
    exact hg.1.1
  obtain ⟨hdb, hinh, hrefs⟩ := h.db_ok.delete_file hf hsel
    fun g _ hg => (hselid g hg).trans (hselid f hsel).symm
  refine ⟨f, hf, hselid f hsel, hdb, hinh, fun q hq hqid => ?_⟩
  obtain ⟨p, hp, hpid, -⟩ := hinh q hq
  have hused := h.used p hp
  have hr := hrefs p.id
  rw [if_neg (hpid ▸ Ne.symm hqid)] at hr
  rw [← hpid]
  omega

/-- The removal a transaction's answer asks for. -/
def removal : Except ServiceError (Option Bytes) → Option Bytes
  | .ok stored_name => stored_name
  | .error _ => none

theorem hard_delete_transaction_cases (key : Bytes → K) (db : Db) (owner : Bytes) (file_id : ℤ)
    (e : Event) :
    let r := hard_delete_transaction key db owner file_id e
    r.1 = db ∧ removal r.2 = none ∨
      ∃ record db', fetch_file_record_impl db file_id true = some record ∧
        hard_delete_row key db owner file_id = some db' ∧
        let q := if record.physical_id > 0 then
            delete_physical_file_if_unreferenced db' record.physical_id
          else (db', false)
        r.1 = q.1 ∧ removal r.2 =
          if q.2 ∧ record.stored_name ≠ [] then some record.stored_name else none := by
  unfold hard_delete_transaction
  split
  · exact .inl ⟨rfl, rfl⟩
  split
  · exact .inl ⟨rfl, rfl⟩
  rename_i record hfetch
  split
  · exact .inl ⟨rfl, rfl⟩
  split
  · exact .inl ⟨rfl, rfl⟩
  rename_i db' hrow
  split_ifs at hfetch hrow
  split
  · exact .inl ⟨rfl, rfl⟩
  by_cases hcommit : e.ok 4 = false
  · rw [if_pos hcommit]
    exact .inl ⟨rfl, rfl⟩
  · rw [if_neg hcommit]
    exact .inr ⟨record, db', hfetch, hrow, rfl, rfl⟩

theorem hard_delete_transaction_ok (key : Bytes → K) (owner : Bytes) (file_id : ℤ) (e : Event)
    (h : StoreOk sha256_hex db d) (hne : ∀ p ∈ db.physical_files, p.stored_name ≠ []) :
    let r := hard_delete_transaction key db owner file_id e
    StepOk sha256_hex db r.1 d (removal r.2) := by
  intro r
  rcases hard_delete_transaction_cases key db owner file_id e with
    ⟨hr, hnone⟩ | ⟨record, db', hfetch, hdel, hr, hremoval⟩
  · rw [hr, hnone]
    exact h.same
  obtain ⟨f, hf, p, hp, hfid, hpid, hphys, hstored⟩ := fetch_file_record_spec hfetch
  rw [if_neg (hne p hp)] at hstored
  have hpos : record.physical_id > 0 := by
    rw [hphys, ← hpid]
    exact (h.db_ok.physical_id_lt p hp).1
  obtain ⟨g, hg, hgid, hdb, hinh, hused⟩ := hard_delete_row_spec h hdel
  -- the row that was fetched is the row that was deleted
  have hgf : g = f := h.db_ok.file_unique hg hf (hgid.trans hfid.symm)
  rw [hgf, ← hphys] at hused
  rw [if_pos hpos] at hr hremoval
  obtain ⟨hdb', hu', hsub, hgone⟩ := hdb.delete_physical hused
  have hinh' : Inherits db (delete_physical_file_if_unreferenced db' record.physical_id).1 :=
    hinh.trans fun q hq => ⟨q, hsub q hq, rfl, rfl, rfl⟩
  rw [hr, hremoval]
  refine ⟨⟨hdb', hu', h.disk_ok.inherit hinh'⟩, hinh', fun name hname => ?_⟩
  split_ifs at hname with hdeleted
  cases hname
  rw [hstored]
  refine ⟨⟨p, hp, rfl⟩, fun q hq hqname => ?_⟩
  -- a row with that name would be the deleted one
  obtain ⟨p', hp', hid, hsame, -⟩ := hinh' q hq
  have hpp : p' = p := inj_on_of_nodup_map h.db_ok.physical_names hp' hp (hsame.trans hqname)
  refine hgone hdeleted.1 q hq ?_
  rw [← hid, hpp, hpid, hphys]

theorem empty_trash_next_pending (owner : Bytes) (file_ids : List ℤ) :
    (empty_trash_next owner file_ids).pending = none := by
  cases file_ids <;> rfl

theorem hard_delete_transaction_rows (key : Bytes → K) (db : Db) (owner : Bytes) (file_id : ℤ)
    (e : Event) :
    let db' := (hard_delete_transaction key db owner file_id e).1
    db'.users = db.users ∧ db'.folders = db.folders ∧ ∃ keep, db'.files = db.files.filter keep := by
  intro db'
  rcases hard_delete_transaction_cases key db owner file_id e with
    ⟨hr, -⟩ | ⟨_, db₁, -, hdel, hr, -⟩
  · rw [show db' = db from hr]
    exact ⟨rfl, rfl, fun _ => true, (filter_true _).symm⟩
  have hdeleted : db₁.users = db.users ∧ db₁.folders = db.folders ∧
      ∃ keep, db₁.files = db.files.filter keep := by
    unfold hard_delete_row at hdel
    split_ifs at hdel
    obtain ⟨f, -, rfl⟩ := Option.map_eq_some_iff.mp hdel
    exact ⟨rfl, rfl, _, rfl⟩
  rw [show db' = _ from hr]
  split <;> exact hdeleted

def restored (folder_id : Option ℤ) (original_name : Bytes) (f : FileRow) : FileRow :=
  { f with deleted_at := none, deleted_marker := 0, folder_id, original_name, is_public := false }

theorem restore_row_spec {folder_id : ℤ} {original_name : Bytes}
    (h : restore_row key db owner file_id folder_id original_name = some db') :
    (∃ f ∈ db.files, restorable key db owner file_id f = true) ∧
      db' = update_files db (restorable key db owner file_id)
        (restored (nullable_id_value folder_id) original_name) := by
  unfold restore_row at h
  dsimp only at h
  by_cases hargs : owner = [] ∨ file_id ≤ 0 ∨ folder_id < 0 ∨ original_name = []
  · rw [if_pos hargs] at h
    contradiction
  split_ifs at h with hnone
  obtain ⟨f, hf⟩ := exists_mem_of_ne_nil _ hnone
  obtain ⟨hmem, hselected⟩ := mem_filter.mp hf
  exact ⟨⟨f, hmem, hselected⟩, (Option.some.inj h).symm⟩

/-- **What a step of a request can do**: read, remove its file from the disk, or execute one
of the four statements. -/
inductive RequestMove (key : Bytes → K) (db : Db) (d : Disk) (e : Event) (request : Request) :
    Db × Disk × Request → Prop
  | read {next : Request} (hnext : next.pending = none) :
      RequestMove key db d e request (db, d, next)
  | remove {name : Bytes} {next : Request} (hname : request.pending = some name)
      (hnext : next.pending = none) :
      RequestMove key db d e request (db, d.remove_file name, next)
  | soft_delete (file_id : ℤ) :
      RequestMove key db d e request (soft_delete_row db file_id e.now, d, .returned (.ok ()))
  | restore {owner restored_name : Bytes} {file_id folder_id : ℤ} {db' : Db}
      (hrequest : request = .restore_update owner file_id folder_id restored_name)
      (hok : e.ok 0 = true)
      (hrow : restore_row key db owner file_id folder_id restored_name = some db') :
      RequestMove key db d e request (db', d, .returned (.ok ()))
  | visibility {file_id : ℤ} {is_public : Bool}
      (hrequest : request = .visibility_update file_id is_public) (hok : e.ok 0 = true) :
      RequestMove key db d e request
        (update_visibility_row db file_id is_public, d, .returned (.ok ()))
  | hard_delete (owner : Bytes) (file_id : ℤ) {next : Request}
      (hnext : next.pending = removal (hard_delete_transaction key db owner file_id e).2) :
      RequestMove key db d e request ((hard_delete_transaction key db owner file_id e).1, d, next)

theorem request_step_move (h : request_step key db d e request = some r) :
    RequestMove key db d e request r := by
  have hdeletes : ∀ (request : Request) (owner : Bytes) (file_id : ℤ) (next : Request),
      next.pending = removal (hard_delete_transaction key db owner file_id e).2 →
        RequestMove key db d e request
          ((hard_delete_transaction key db owner file_id e).1, d, next) :=
    fun _ owner file_id _ hnext => .hard_delete owner file_id hnext
  cases request with
  | soft_delete_update file_id =>
    simp only [request_step] at h
    split at h <;> obtain rfl := Option.some.inj h
    · exact .soft_delete file_id
    · exact .read rfl
  | restore_update owner file_id folder_id restored_name =>
    simp only [request_step] at h
    by_cases hok : e.ok 0 = true
    · rw [if_pos hok] at h
      split at h <;> obtain rfl := Option.some.inj h
      · exact .read rfl
      · rename_i db' hrow
        exact .restore rfl hok hrow
    · rw [if_neg hok] at h
      cases h
      exact .read rfl
  | visibility_update file_id is_public =>
    simp only [request_step] at h
    split at h <;> obtain rfl := Option.some.inj h
    · rename_i hok
      exact .visibility rfl hok
    · exact .read rfl
  | hard_delete owner file_id =>
    have hmove := hdeletes (.hard_delete owner file_id) owner file_id
    simp only [request_step] at h
    split at h <;> rename_i hdelete <;> obtain rfl := Option.some.inj h <;>
      rw [hdelete] at hmove <;>
      exact hmove _ rfl
  | hard_delete_remove stored_name =>
    cases h
    exact .remove rfl rfl
  | empty_trash_list owner =>
    simp only [request_step] at h
    split at h <;> obtain rfl := Option.some.inj h
    · exact .read rfl
    · exact .read (empty_trash_next_pending _ _)
  | empty_trash owner file_ids =>
    cases file_ids with
    | nil =>
      cases h
      exact .read rfl
    | cons file_id file_ids =>
      have hmove := hdeletes (.empty_trash owner (file_id :: file_ids)) owner file_id
      simp only [request_step] at h
      split at h <;> rename_i hdelete <;> obtain rfl := Option.some.inj h <;> rw [hdelete] at hmove
      · exact hmove _ rfl
      · exact hmove _ (empty_trash_next_pending _ _)
      · exact hmove _ rfl
  | empty_trash_remove owner stored_name file_ids =>
    cases h
    exact .remove rfl (empty_trash_next_pending _ _)
  | returned reply => contradiction
  | _ =>
    -- reads
    simp only [request_step] at h
    split at h <;> first
      | (obtain rfl := Option.some.inj h; exact .read rfl)
      | (split at h <;> obtain rfl := Option.some.inj h <;> exact .read rfl)

theorem request_step_ok (h : StoreOk sha256_hex db d)
    (hne : ∀ p ∈ db.physical_files, p.stored_name ≠ [])
    (hpending : ∀ name, request.pending = some name →
      ∀ p ∈ db.physical_files, p.stored_name ≠ name)
    (hstep : request_step key db d e request = some r) :
    StepOk sha256_hex db r.1 r.2.1 r.2.2.pending := by
  -- an `UPDATE` of `files`
  have hupdate : ∀ (selects : FileRow → Bool) (set : FileRow → FileRow),
      (∀ f, (set f).id = f.id ∧ (set f).physical_id = f.physical_id) →
      StepOk sha256_hex db (update_files db selects set) d none := by
    intro selects set hset
    exact ⟨h.update_files hset, .refl db, nofun⟩
  cases request_step_move hstep with
  | read hnext =>
    rw [hnext]
    exact h.same
  | remove hname hnext =>
    rw [hnext]
    exact ⟨⟨h.db_ok, h.used, h.disk_ok.remove_file (hpending _ hname)⟩, .refl db, nofun⟩
  | soft_delete file_id => exact hupdate _ _ fun f => ⟨rfl, rfl⟩
  | restore _ _ hrow =>
    rw [(restore_row_spec hrow).2]
    exact hupdate _ _ fun f => ⟨rfl, rfl⟩
  | visibility => exact hupdate _ _ fun f => ⟨rfl, rfl⟩
  | hard_delete owner file_id hnext =>
    rw [hnext]
    exact hard_delete_transaction_ok key owner file_id e h hne

end Requests

/-! ## Every run -/

section Runs

/-- The joint invariant. -/
structure Inv (sha256_hex : Bytes → Bytes) (w : World) : Prop where
  store : StoreOk sha256_hex w.db w.disk
  names_ne : ∀ name ∈ w.names, name ≠ []
  named : ∀ p ∈ w.db.physical_files, p.stored_name ∈ w.names
  pending : ∀ request ∈ w.requests, ∀ name, request.pending = some name →
    name ∈ w.names ∧ ∀ p ∈ w.db.physical_files, p.stored_name ≠ name

theorem Inv.names_of_rows (h : Inv sha256_hex w) : ∀ p ∈ w.db.physical_files, p.stored_name ≠ [] :=
  fun p hp => h.names_ne _ (h.named p hp)

theorem Inv.init (h : (system key sha256_hex).init w) : Inv sha256_hex w := by
  obtain ⟨hfiles, hphys, -, hnext, hreq, hnames⟩ := h
  have hno : ∀ p ∈ w.db.physical_files, False := by
    intro p hp
    rw [hphys] at hp
    exact not_mem_nil hp
  refine
    { store := ⟨?_, fun p hp => (hno p hp).elim, fun p hp => (hno p hp).elim⟩
      names_ne := ?_
      named := fun p hp => (hno p hp).elim
      pending := ?_ }
  · exact
      { file_ids := by rw [hfiles]; exact nodup_nil
        file_id_lt := by rw [hfiles]; exact fun f hf => absurd hf not_mem_nil
        physical_ids := by rw [hphys]; exact nodup_nil
        physical_names := by rw [hphys]; exact nodup_nil
        physical_id_lt := fun p hp => (hno p hp).elim
        next_physical_pos := by rw [hnext]; exact Int.one_pos
        references := by rw [hfiles]; exact fun f hf => absurd hf not_mem_nil
        ref_count := fun p hp => (hno p hp).elim }
  · rw [hnames]
    exact fun name hname => absurd hname not_mem_nil
  · rw [hreq]
    exact fun r hr => absurd hr not_mem_nil

/-- What is assumed of an upload: its prefix is fresh and its payload is as
`parse_managed_upload_payload` makes it. Nothing is assumed of the other steps. -/
def Assumed (sha256_hex : Bytes → Bytes) (w : World) : Label → Prop
  | .create_uploaded_file args _ =>
      FreshPrefix w.names args.stored_name_prefix ∧ PayloadOk sha256_hex w.disk args.payload
  | _ => True

instance (sha256_hex : Bytes → Bytes) (w : World) (l : Label) :
    Decidable (Assumed sha256_hex w l) := by
  cases l <;> unfold Assumed <;> (try unfold FreshPrefix PayloadOk) <;> infer_instance

theorem Inv.start (h : Inv sha256_hex w) (hpending : request.pending = none) :
    Inv sha256_hex { w with requests := w.requests ++ [request] } := by
  refine ⟨h.store, h.names_ne, h.named, forall_mem_append.mpr ⟨h.pending, ?_⟩⟩
  refine forall_mem_singleton.mpr fun name hname => ?_
  rw [hpending] at hname
  cases hname

variable {l : Label}

theorem started_pending (h : started l = some request) : request.pending = none := by
  cases l <;> cases h <;> rfl

theorem Inv.upload {args : UploadArgs} {e : UploadEvent} (h : Inv sha256_hex w)
    (hok : Assumed sha256_hex w (.create_uploaded_file args e)) :
    let r := create_uploaded_file key sha256_hex w.db w.disk args e
    Inv sha256_hex { w with db := r.db, disk := r.disk, names := w.names ++ r.names } := by
  intro r
  obtain ⟨hstore, hfrom, hne⟩ := create_uploaded_file_ok key e h.store hok.1 hok.2
  refine ⟨hstore, ?_, ?_, ?_⟩
  · exact forall_mem_append.mpr ⟨h.names_ne, hne⟩
  · intro q hq
    rcases hfrom q hq with ⟨p, hp, hname⟩ | ⟨hnew, -⟩
    · exact mem_append_left _ (hname ▸ h.named p hp)
    · exact mem_append_right _ hnew
  · intro request hrequest name hname
    obtain ⟨hmem, hrow⟩ := h.pending request hrequest name hname
    refine ⟨mem_append_left _ hmem, fun q hq hqname => ?_⟩
    rcases hfrom q hq with ⟨p, hp, hpq⟩ | ⟨-, hfresh⟩
    · exact hrow p hp (hpq.trans hqname)
    · -- a new row's name is not in the history, and the pending name is
      exact hfresh (hqname ▸ hmem)

theorem Inv.after_request {i : ℕ} {e : Event} (h : Inv sha256_hex w)
    (hi : w.requests[i]? = some request)
    (hstep : request_step key w.db w.disk e request = some r) :
    Inv sha256_hex { w with db := r.1, disk := r.2.1, requests := w.requests.set i r.2.2 } := by
  have hok : StepOk sha256_hex w.db r.1 r.2.1 r.2.2.pending :=
    request_step_ok h.store h.names_of_rows
      (fun name hname => (h.pending request (mem_of_getElem? hi) name hname).2) hstep
  refine ⟨hok.store, h.names_ne, ?_, ?_⟩
  · intro q hq
    obtain ⟨p, hp, -, hname, -⟩ := hok.inherits q hq
    rw [← hname]
    exact h.named p hp
  intro other hother name hname
  rcases mem_or_eq_of_mem_set hother with hold | hnew
  · obtain ⟨hmem, hrow⟩ := h.pending other hold name hname
    refine ⟨hmem, fun q hq => ?_⟩
    obtain ⟨p, hp, -, hpq, -⟩ := hok.inherits q hq
    rw [← hpq]
    exact hrow p hp
  · rw [hnew] at hname
    obtain ⟨⟨p, hp, hpn⟩, hrow⟩ := hok.removal_of name hname
    exact ⟨hpn ▸ h.named p hp, hrow⟩

theorem Inv.step {w' : World} (hok : Assumed sha256_hex w l) (h : Inv sha256_hex w)
    (hstep : (system key sha256_hex).step w l = some w') : Inv sha256_hex w' := by
  change FileStore.step key sha256_hex w l = some w' at hstep
  have hstart : ∀ request, started l = some request →
      Inv sha256_hex { w with requests := w.requests ++ [request] } :=
    fun request hrequest => h.start (started_pending hrequest)
  cases l with
  | create_uploaded_file args e =>
    cases hstep
    exact h.upload hok
  | step i e =>
    simp only [FileStore.step] at hstep
    split at hstep
    · cases hstep
    · rename_i request hi
      obtain ⟨r, hr, rfl⟩ := Option.map_eq_some_iff.mp hstep
      exact h.after_request hi hr
  | spool temp_path content =>
    cases hstep
    exact ⟨⟨h.store.db_ok, h.store.used, h.store.disk_ok⟩, h.names_ne, h.named, h.pending⟩
  | soft_delete_file owner file_id =>
    cases hstep
    exact hstart _ rfl
  | restore_file owner file_id =>
    cases hstep
    exact hstart _ rfl
  | update_file_visibility owner file_id is_public =>
    cases hstep
    exact hstart _ rfl
  | hard_delete_file owner file_id =>
    cases hstep
    exact hstart _ rfl
  | empty_trash owner =>
    cases hstep
    exact hstart _ rfl

/-- **The deduplicated store.** In every state of every run whose uploads meet the
assumptions, each row of `physical_files` counts its `files` and has at least one,
its content is on disk under its name and has its digest, and no pending removal
names it. -/
theorem dedup_store_invariant (key : Bytes → K) (sha256_hex : Bytes → Bytes) (w : World)
    (hw : (system key sha256_hex).ReachableVia (Assumed sha256_hex) w) :
    ∀ p ∈ w.db.physical_files,
      p.ref_count = (w.db.files.countP fun f => decide (f.physical_id = p.id) : ℕ) ∧
      1 ≤ w.db.files.countP (fun f => decide (f.physical_id = p.id)) ∧
      (∃ content, w.disk.uploads p.stored_name = some content ∧ sha256_hex content = p.sha256) ∧
      ∀ request ∈ w.requests, request.pending ≠ some p.stored_name := by
  have hinv : Inv sha256_hex w :=
    System.ReachableVia.invariant _ (fun _ => Inv.init) (fun _ _ _ hok h hl => h.step hok hl) hw
  intro p hp
  refine ⟨hinv.store.db_ok.ref_count p hp, hinv.store.used p hp, hinv.store.disk_ok p hp, ?_⟩
  intro request hrequest hpending
  exact (hinv.pending request hrequest _ hpending).2 p hp rfl

end Runs

/-- Empty tables but for one user, and an empty disk. -/
def one_user : World :=
  { db := { users := [⟨1, lit "u", false⟩], folders := [], files := [], physical_files := []
            next_file_id := 1, next_physical_id := 1 }
    disk := ⟨fun _ => none, fun _ => none⟩
    requests := []
    names := [] }

/-- An upload of some inline content with every statement executed. -/
def inline_upload (stored_name_start content : Bytes) : Label :=
  .create_uploaded_file
    { owner := lit "u", stored_name_prefix := stored_name_start, is_public := false, quota := ⟨0, 0⟩
      payload := { filename := lit "f.txt", content, content_type := [], temp_path := []
                   sha256 := [], folder_id := 0, size := content.length, use_temp_file := false } }
    ⟨true, true, true, true, fun _ => true, true, none, true, none, none, false, true, 0⟩

/-- Two uploads of one content and one of another; the third file is deleted for
good, up to its unlink. -/
def upload_and_delete : List Label :=
  let e : Event := ⟨fun _ => true, 1⟩
  [inline_upload (lit "aaaaaaaaaaaaaaaaaaaaaaaa") (lit "x"),
   inline_upload (lit "bbbbbbbbbbbbbbbbbbbbbbbb") (lit "x"),
   inline_upload (lit "cccccccccccccccccccccccc") (lit "y"),
   .soft_delete_file (lit "u") 3, .step 0 e, .step 0 e, .hard_delete_file (lit "u") 3, .step 1 e]

/-- One row is left, two files are on it, and an unlink is pending. -/
def one_row_left (w : World) : Bool :=
  decide (w.db.physical_files.map PhysicalFileRow.ref_count = [2]) &&
    w.requests.any fun request => request.pending.isSome

theorem two_uploads_one_row :
    ∃ w, (system id id).ReachableVia (Assumed id) w ∧ one_row_left w = true ∧
      ∀ p ∈ w.db.physical_files,
        p.ref_count = (w.db.files.countP fun f => decide (f.physical_id = p.id) : ℕ) ∧
        1 ≤ w.db.files.countP (fun f => decide (f.physical_id = p.id)) ∧
        (∃ content, w.disk.uploads p.stored_name = some content ∧ id content = p.sha256) ∧
        ∀ request ∈ w.requests, request.pending ≠ some p.stored_name := by
  have hinit : (system id id).init one_user := ⟨rfl, rfl, rfl, rfl, rfl, rfl⟩
  obtain ⟨w, -, hw, htest⟩ :=
    System.ReachableVia.of_run (system id id) (Assumed id) hinit upload_and_delete
      (by decide +kernel) one_row_left (by decide +kernel)
  exact ⟨w, hw, htest, dedup_store_invariant id id w hw⟩

end AtlasWebServer.FileStore
