/-
The public file list: `fetch_page_ids` and `fetch_public_file_page_ids`
(`repo/mysql/file_repository.cpp`), `list_public_files` and its JSON
(`service/files/file_service.cpp`).

A page is asked for by a cursor and a limit. The statement reads `limit + 1` ids
below the cursor, newest first; the loop keeps `limit` of them and takes the next
one as the cursor of the page after.

`mysql` is the connection: `none` is the null pointer, `some` the tables as the
statement sees them. `ORDER BY ... DESC` is an insertion sort, and `DATE_FORMAT`
a parameter of the section, since the listing only copies its text.
-/
import Mathlib.Data.List.Sort
import AtlasWebServer.Tables

set_option autoImplicit false

namespace AtlasWebServer.PublicFiles

open Bytes Tables List

/-- The tables the listing reads, with the keys `init.sql` declares. -/
structure Listing where
  users : List UserRow
  files : List FileRow
  users_id : (users.map UserRow.id).Nodup
  files_id : (files.map FileRow.id).Nodup
  files_user : ∀ f ∈ files, f.user_id ∈ users.map UserRow.id

/-! ## A page of ids -/

structure PageIds where
  ids : List ℤ
  next_cursor : ℤ
  deriving DecidableEq

def fetch_page_ids_loop (limit : ℤ) : List ℤ → PageIds → PageIds
  | [], page => page
  | id :: rows, page =>
      if (page.ids.length : ℤ) < limit then
        fetch_page_ids_loop limit rows { page with ids := page.ids ++ [id] }
      else { page with next_cursor := id }

/-- `fetch_page_ids`, from the rows of the statement on. -/
def fetch_page_ids (rows : List ℤ) (limit : ℤ) : PageIds :=
  fetch_page_ids_loop limit rows ⟨[], 0⟩

/-- `WHERE is_public=1 AND deleted_at IS NULL [AND id<cursor]`. -/
def public_row (cursor : ℤ) (f : FileRow) : Bool :=
  f.is_public && f.deleted_at.isNone && (decide (cursor ≤ 0) || decide (f.id < cursor))

/-- `SELECT id ... ORDER BY id DESC LIMIT count`. -/
def select_public_ids (t : Listing) (cursor count : ℤ) : List ℤ :=
  (((t.files.filter (public_row cursor)).map FileRow.id).insertionSort (· ≥ ·)).take count.toNat

/-- `fetch_public_file_page_ids`. A limit below the greatest `long` is meant, so that
`limit + 1` is one. -/
def fetch_public_file_page_ids (mysql : Option Listing) (cursor limit : ℤ) : Option PageIds :=
  match mysql with
  | none => none
  | some t =>
      if limit ≤ 0 then none
      else some (fetch_page_ids (select_public_ids t cursor (limit + 1)) limit)

/-! ## The listing -/

/-- `FileListItem`, with the fields the public listing fills. -/
structure FileListItem where
  id : ℤ
  filename : Bytes
  content_type : Bytes
  size : ℤ
  created_at : Bytes
  owner : Bytes
  deriving DecidableEq

def json_escape : Bytes → Bytes
  | [] => []
  | ch :: value =>
      (if ch = 92 then lit "\\\\"
       else if ch = 34 then lit "\\\""
       else if ch = 10 then lit "\\n"
       else if ch = 13 then lit "\\r"
       else if ch = 9 then lit "\\t"
       else if ch < 0x20 then lit " "
       else [ch]) ++ json_escape value

section Json

variable (date_format : ℤ → Bytes)

/-- The join of `fetch_public_file_list`, one row of it. -/
def list_item (t : Listing) (f : FileRow) : Option FileListItem :=
  (t.users.find? fun u => u.id = f.user_id).map fun u =>
    ⟨f.id, f.original_name, f.content_type, f.file_size, date_format f.created_at, u.username⟩

def fetch_public_file_list (mysql : Option Listing) (ids : List ℤ) : Option (List FileListItem) :=
  match mysql with
  | none => none
  | some t =>
      if ids = [] then some []
      else
        let rows := (t.files.filter fun f => decide (f.id ∈ ids)).insertionSort
          fun a b => a.id ≥ b.id
        some (rows.filterMap (list_item date_format t))

def build_empty_public_file_list_json (limit : ℤ) : Bytes :=
  lit "\x7b\"code\":0,\"files\":[],\"pagination\":\x7b\"limit\":" ++ to_string limit ++
    lit ",\"next_cursor\":0,\"has_more\":false\x7d\x7d"

/-- The item loop of `build_public_file_list_json`. -/
def public_file_items_json : Bool → List FileListItem → Bytes
  | _, [] => []
  | first, file :: files =>
      (if first then [] else lit ",") ++
      lit "\x7b\"id\":" ++ to_string file.id ++
      lit ",\"filename\":\"" ++ json_escape file.filename ++
      lit "\",\"content_type\":\"" ++ json_escape file.content_type ++
      lit "\",\"size\":" ++ to_string file.size ++
      lit ",\"owner\":\"" ++ json_escape file.owner ++
      lit "\",\"created_at\":\"" ++ json_escape file.created_at ++
      lit "\"\x7d" ++ public_file_items_json false files

def build_public_file_list_json (files : List FileListItem) (next_cursor limit : ℤ) : Bytes :=
  lit "\x7b\"code\":0,\"files\":[" ++ public_file_items_json true files ++
    lit "],\"pagination\":\x7b\"limit\":" ++ to_string limit ++
    lit ",\"next_cursor\":" ++ to_string next_cursor ++
    lit ",\"has_more\":" ++ (if next_cursor > 0 then lit "true" else lit "false") ++
    lit "\x7d\x7d"

def to_int (n : ℤ) : ℤ := n.bmod (2 ^ 32)

/-- `list_public_files`: the response body, or `none` where it returns false. The limit is
printed as a `long` in the empty list and as an `int` in the other. -/
def list_public_files (mysql : Option Listing) (cursor limit : ℤ) : Option Bytes := do
  let page ← fetch_public_file_page_ids mysql cursor limit
  if page.ids = [] then some (build_empty_public_file_list_json limit)
  else
    let files ← fetch_public_file_list date_format mysql page.ids
    some (build_public_file_list_json files page.next_cursor (to_int limit))

end Json

/-! ## Walking through the pages -/

/-- Ask for pages, each with the cursor of the one before, until a page has none.
`fuel` bounds the number of pages. -/
def walk (mysql : Option Listing) (limit : ℤ) : ℕ → ℤ → Option (List ℤ)
  | 0, _ => none
  | fuel + 1, cursor => do
      let page ← fetch_public_file_page_ids mysql cursor limit
      if page.next_cursor = 0 then some page.ids
      else
        let rest ← walk mysql limit fuel page.next_cursor
        some (page.ids ++ rest)

/-- The ids of the public files that are not deleted. -/
def public_ids (t : Listing) : List ℤ := (t.files.filter (public_row 0)).map FileRow.id

/-- The walk from cursor 0 ends, and lists exactly `ids`, each once, newest first. -/
def Complete (mysql : Option Listing) (limit : ℤ) (ids : List ℤ) : Prop :=
  ∃ (fuel : ℕ) (listed : List ℤ), walk mysql limit fuel 0 = some listed ∧
    listed.Pairwise (· > ·) ∧ ∀ id, id ∈ listed ↔ id ∈ ids

/-! ## One page -/

theorem fetch_page_ids_loop_spec (limit : ℕ) (rows : List ℤ) (page : PageIds)
    (hlen : page.ids.length ≤ limit) :
    fetch_page_ids_loop limit rows page
      = ⟨page.ids ++ rows.take (limit - page.ids.length),
          (rows[limit - page.ids.length]?).getD page.next_cursor⟩ := by
  induction rows generalizing page with
  | nil =>
    rw [take_nil, append_nil, getElem?_nil, Option.getD_none]
    rfl
  | cons id rows ih =>
    unfold fetch_page_ids_loop
    by_cases hlt : page.ids.length < limit
    · rw [if_pos (by exact_mod_cast hlt), ih _ (by simpa using hlt)]
      have hrest : limit - page.ids.length = limit - (page.ids ++ [id]).length + 1 := by
        rw [length_append, length_singleton]
        omega
      rw [hrest, take_succ_cons, getElem?_cons_succ, append_assoc, singleton_append]
    -- the page is full: this row is the cursor, and the loop ends
    have hfull : limit - page.ids.length = 0 := by omega
    rw [if_neg (by exact_mod_cast hlt), hfull, take_zero, append_nil,
      getElem?_cons_zero, Option.getD_some]

theorem fetch_page_ids_spec (limit : ℕ) (rows : List ℤ) :
    fetch_page_ids rows limit = ⟨rows.take limit, (rows[limit]?).getD 0⟩ := by
  unfold fetch_page_ids
  rw [fetch_page_ids_loop_spec limit rows ⟨[], 0⟩ (Nat.zero_le _)]
  simp

/-- The public ids below a cursor, newest first. -/
def below (t : Listing) (cursor : ℤ) : List ℤ :=
  ((t.files.filter (public_row cursor)).map FileRow.id).insertionSort (· ≥ ·)

variable {cursor id : ℤ} {limit : ℕ}

theorem mem_below (t : Listing) (hc : 0 < cursor) :
    id ∈ below t cursor ↔ id ∈ public_ids t ∧ id < cursor := by
  unfold below public_ids
  rw [mem_insertionSort]
  simp only [mem_map, mem_filter, public_row, Bool.and_eq_true, Bool.or_eq_true, decide_eq_true_eq]
  constructor
  · rintro ⟨f, ⟨hf, hpub, hlow⟩, rfl⟩
    exact ⟨⟨f, ⟨hf, hpub, .inl (le_refl _)⟩, rfl⟩, by omega⟩
  · rintro ⟨⟨f, ⟨hf, hpub, -⟩, rfl⟩, hlt⟩
    exact ⟨f, ⟨hf, hpub, .inr hlt⟩, rfl⟩

theorem mem_below_zero (t : Listing) : id ∈ below t 0 ↔ id ∈ public_ids t := by
  unfold below public_ids
  rw [mem_insertionSort]

theorem public_ids_nodup (t : Listing) (cursor : ℤ) :
    ((t.files.filter (public_row cursor)).map FileRow.id).Nodup :=
  t.files_id.sublist (List.Sublist.map _ List.filter_sublist)

theorem below_pairwise (t : Listing) (cursor : ℤ) : (below t cursor).Pairwise (· > ·) := by
  have hge : (below t cursor).Pairwise (· ≥ ·) := pairwise_insertionSort _ _
  have hnd : (below t cursor).Nodup :=
    (perm_insertionSort _ _).nodup_iff.mpr (public_ids_nodup t cursor)
  refine (hge.and hnd).imp ?_
  rintro a b ⟨hab, hne⟩
  exact lt_of_le_of_ne hab (Ne.symm hne)

theorem below_zero_length (t : Listing) : (below t 0).length = (public_ids t).length :=
  List.length_insertionSort _ _

theorem fetch_public_file_page_ids_spec (t : Listing) (cursor : ℤ) (hl : 0 < limit) :
    fetch_public_file_page_ids (some t) cursor limit
      = some ⟨(below t cursor).take limit, ((below t cursor)[limit]?).getD 0⟩ := by
  unfold fetch_public_file_page_ids
  have hpos : ¬ (limit : ℤ) ≤ 0 := by omega
  simp only [if_neg hpos]
  rw [fetch_page_ids_spec]
  unfold select_public_ids
  have hcount : ((limit : ℤ) + 1).toNat = limit + 1 := by omega
  rw [hcount, take_take, Nat.min_eq_left (Nat.le_succ limit), getElem?_take_of_succ]
  rfl

/-! ## What `list_public_files` shows is the page -/

section Shown

variable (date_format : ℤ → Bytes)

theorem list_item_isSome (t : Listing) {f : FileRow} (hf : f ∈ t.files) :
    ∃ item, list_item date_format t f = some item ∧ item.id = f.id := by
  obtain ⟨u, hu, hid⟩ := mem_map.mp (t.files_user f hf)
  unfold list_item
  cases hfind : t.users.find? fun u => u.id = f.user_id with
  | none => exact absurd hid (by simpa using List.find?_eq_none.mp hfind u hu)
  | some u' => exact ⟨_, rfl, rfl⟩

theorem list_items_ids (t : Listing) (rows : List FileRow) (hrows : ∀ f ∈ rows, f ∈ t.files) :
    (rows.filterMap (list_item date_format t)).map FileListItem.id = rows.map FileRow.id := by
  induction rows with
  | nil => rfl
  | cons f rows ih =>
    obtain ⟨item, hitem, hid⟩ := list_item_isSome date_format t (hrows f (by simp))
    rw [filterMap_cons_some hitem, map_cons, map_cons, hid, ih fun g hg => hrows g (by simp [hg])]

/-- An item shows a public file that is not deleted, with the name of its owner. -/
def Shows (t : Listing) (item : FileListItem) : Prop :=
  ∃ f ∈ t.files, ∃ u ∈ t.users, f.is_public = true ∧ f.deleted_at = none ∧ u.id = f.user_id ∧
    item = ⟨f.id, f.original_name, f.content_type, f.file_size, date_format f.created_at,
      u.username⟩

theorem list_item_shows (t : Listing) {f : FileRow} (hf : f ∈ t.files)
    (hid : f.id ∈ below t cursor) {item : FileListItem}
    (hitem : list_item date_format t f = some item) : Shows date_format t item := by
  obtain ⟨u, hfind, rfl⟩ := Option.map_eq_some_iff.mp hitem
  -- the row of the page is this one, since ids are unique
  unfold below at hid
  rw [mem_insertionSort, mem_map] at hid
  obtain ⟨g, hg, hgid⟩ := hid
  rw [mem_filter, public_row, Bool.and_eq_true, Bool.and_eq_true] at hg
  obtain rfl : g = f := inj_on_of_nodup_map t.files_id hg.1 hf hgid
  refine ⟨g, hf, u, mem_of_find?_eq_some hfind, hg.2.1.1, ?_, ?_, rfl⟩
  · exact Option.isNone_iff_eq_none.mp hg.2.1.2
  · exact of_decide_eq_true (find?_some hfind :)

/-- **The listing shows the page.** A page with ids is rendered as one item for each id, in the
order of the page, with the page's own cursor; each item has the fields of its file. -/
theorem list_public_files_spec (t : Listing) (cursor : ℤ) (hl : 0 < limit) {page : PageIds}
    (hpage : fetch_public_file_page_ids (some t) cursor limit = some page) (hne : page.ids ≠ []) :
    ∃ files : List FileListItem, files.map FileListItem.id = page.ids ∧
      (∀ item ∈ files, Shows date_format t item) ∧
      list_public_files date_format (some t) cursor limit
        = some (build_public_file_list_json files page.next_cursor (to_int limit)) := by
  have hids := hpage
  rw [fetch_public_file_page_ids_spec t cursor hl, Option.some.injEq] at hids
  set rows := (t.files.filter fun f => decide (f.id ∈ page.ids)).insertionSort
    fun a b => a.id ≥ b.id with hrows
  have hmem : ∀ f, f ∈ rows ↔ f ∈ t.files ∧ f.id ∈ page.ids := by
    intro f
    rw [hrows, mem_insertionSort, mem_filter, decide_eq_true_eq]
  have hbelow : ∀ id ∈ page.ids, id ∈ below t cursor := by
    rw [← hids]
    exact fun id => mem_of_mem_take
  refine ⟨rows.filterMap (list_item date_format t), ?_, ?_, ?_⟩
  · rw [list_items_ids date_format t rows fun f hf => ((hmem f).mp hf).1]
    -- both sides are strictly decreasing lists of the same ids
    have hdesc : (rows.map FileRow.id).Pairwise (· > ·) := by
      have hge : (rows.map FileRow.id).Pairwise (· ≥ ·) := by
        rw [pairwise_map]
        exact pairwise_insertionSort _ _
      have hnd : (rows.map FileRow.id).Nodup := by
        have hperm := (perm_insertionSort (fun a b : FileRow => a.id ≥ b.id)
          (t.files.filter fun f => decide (f.id ∈ page.ids))).map FileRow.id
        exact hperm.nodup_iff.mpr (t.files_id.sublist (filter_sublist.map _))
      exact (hge.and hnd).imp fun h => lt_of_le_of_ne h.1 (Ne.symm h.2)
    have hpagedesc : page.ids.Pairwise (· > ·) := by
      rw [← hids]
      exact (below_pairwise t cursor).sublist (take_sublist _ _)
    have hsame : ∀ id, id ∈ rows.map FileRow.id ↔ id ∈ page.ids := by
      intro id
      constructor
      · intro h
        obtain ⟨f, hf, rfl⟩ := mem_map.mp h
        exact ((hmem f).mp hf).2
      intro h
      have hb := hbelow id h
      unfold below at hb
      rw [mem_insertionSort, mem_map] at hb
      obtain ⟨f, hf, rfl⟩ := hb
      exact mem_map_of_mem ((hmem f).mpr ⟨mem_of_mem_filter hf, h⟩)
    exact hdesc.eq_of_mem_iff hpagedesc hsame
  · intro item hitem
    obtain ⟨f, hf, hitem⟩ := mem_filterMap.mp hitem
    obtain ⟨hfiles, hid⟩ := (hmem f).mp hf
    exact list_item_shows date_format t hfiles (hbelow f.id hid) hitem
  · unfold list_public_files
    rw [hpage]
    show (if page.ids = [] then _ else _) = _
    simp only [fetch_public_file_list, if_neg hne]
    rfl

end Shown

/-! ## The walk -/

theorem walk_succ (t : Listing) (hl : 0 < limit) (fuel : ℕ) (cursor : ℤ) :
    walk (some t) limit (fuel + 1) cursor
      = if ((below t cursor)[limit]?).getD 0 = 0 then some ((below t cursor).take limit)
        else (walk (some t) limit fuel (((below t cursor)[limit]?).getD 0)).map
          ((below t cursor).take limit ++ ·) := by
  rw [walk, fetch_public_file_page_ids_spec t cursor hl]
  simp only [Option.bind_eq_bind, Option.bind_some]
  split_ifs
  · rfl
  · cases walk (some t) limit fuel _ <;> rfl

theorem walk_lt (t : Listing) (hl : 0 < limit) (hids : ∀ id ∈ public_ids t, 1 ≤ id) (fuel : ℕ)
    (cursor : ℤ) (hc : 0 < cursor) (listed : List ℤ)
    (hwalk : walk (some t) limit fuel cursor = some listed) : ∀ id ∈ listed, id < cursor := by
  induction fuel generalizing cursor listed with
  | zero => cases hwalk
  | succ fuel ih =>
    rw [walk_succ t hl] at hwalk
    have hpage : ∀ id ∈ (below t cursor).take limit, id < cursor :=
      fun id hid => ((mem_below t hc).mp (mem_of_mem_take hid)).2
    by_cases hlast : ((below t cursor)[limit]?).getD 0 = 0
    · rw [if_pos hlast] at hwalk
      cases hwalk
      exact hpage
    rw [if_neg hlast] at hwalk
    obtain ⟨rest, hrest, rfl⟩ := Option.map_eq_some_iff.mp hwalk
    -- the next cursor is itself an id below this one
    cases hnext : (below t cursor)[limit]? with
    | none => rw [hnext] at hlast; exact absurd rfl hlast
    | some next =>
      rw [hnext, Option.getD_some] at hrest
      obtain ⟨hpub, hlt⟩ := (mem_below t hc).mp (mem_of_getElem? hnext)
      have hpos : 0 < next := by have := hids next hpub; omega
      intro id hid
      rcases mem_append.mp hid with h | h
      · exact hpage id h
      · exact lt_trans (ih next hpos rest hrest id h) hlt

theorem first_cursor_not_listed (t : Listing) (hl : 0 < limit) (hids : ∀ id ∈ public_ids t, 1 ≤ id)
    (hcur : (below t 0)[limit]? = some cursor) {fuel : ℕ} {listed : List ℤ}
    (hwalk : walk (some t) limit fuel 0 = some listed) : cursor ∉ listed := by
  cases fuel with
  | zero => cases hwalk
  | succ fuel =>
    have hpub : cursor ∈ public_ids t := (mem_below_zero t).mp (List.mem_of_getElem? hcur)
    have hpos : 0 < cursor := by have := hids cursor hpub; omega
    rw [walk_succ t hl, hcur, Option.getD_some, if_neg (by omega)] at hwalk
    obtain ⟨rest, hrest, rfl⟩ := Option.map_eq_some_iff.mp hwalk
    intro hmem
    rcases List.mem_append.mp hmem with h | h
    · -- the page holds the ids before position `limit`, all of them greater
      obtain ⟨k, hk, hget⟩ := List.mem_iff_getElem.mp h
      rw [List.length_take] at hk
      rw [List.getElem_take] at hget
      obtain ⟨hlim, hcur'⟩ := List.getElem?_eq_some_iff.mp hcur
      have hgt := List.pairwise_iff_getElem.mp (below_pairwise t 0) k limit (by omega) hlim
        (by omega)
      rw [hget, hcur'] at hgt
      exact lt_irrefl _ hgt
    · exact lt_irrefl _ (walk_lt t hl hids fuel cursor hpos rest hrest cursor h)

/-- **Pagination is complete exactly when one page holds everything.** From the
first page that is full on, the id taken as the cursor is skipped. -/
theorem public_listing_complete_iff (t : Listing) (limit : ℤ)
    (hids : ∀ id ∈ public_ids t, 1 ≤ id ∧ id ≤ 2147483647) (hlimit : 1 ≤ limit ∧ limit ≤ 100) :
    Complete (some t) limit (public_ids t) ↔ ((public_ids t).length : ℤ) ≤ limit := by
  obtain ⟨n, rfl⟩ := Int.eq_ofNat_of_zero_le (by omega : 0 ≤ limit)
  have hn : 0 < n := by omega
  have hlow : ∀ id ∈ public_ids t, 1 ≤ id := fun id hid => (hids id hid).1
  constructor
  · rintro ⟨fuel, listed, hwalk, -, hall⟩
    by_contra hlong
    have hlt : n < (below t 0).length := by
      rw [below_zero_length]
      omega
    have hcur : (below t 0)[n]? = some (below t 0)[n] := getElem?_eq_getElem hlt
    have hpub := (mem_below_zero t).mp (mem_of_getElem? hcur)
    exact first_cursor_not_listed t hn hlow hcur hwalk ((hall _).mpr hpub)
  · intro hshort
    have hle : (below t 0).length ≤ n := by
      rw [below_zero_length]
      omega
    refine ⟨1, below t 0, ?_, below_pairwise t 0, fun id => mem_below_zero t⟩
    rw [walk_succ t hn, getElem?_eq_none hle, Option.getD_none, if_pos rfl, take_of_length_le hle]

def public_file (id : ℤ) : FileRow :=
  { id, user_id := 1, stored_name := [], physical_id := id, original_name := [],
    content_type := [], folder_id := none, file_size := 0, is_public := true,
    content_sha256 := [], deleted_marker := 0, deleted_at := none, created_at := 0 }

def two_files : Listing where
  users := [⟨1, lit "name", false⟩]
  files := [public_file 1, public_file 2]
  users_id := by decide
  files_id := by decide
  files_user := by decide

/-- With room for both on a page, the walk lists both. -/
theorem two_files_one_page :
    (∀ id ∈ public_ids two_files, 1 ≤ id ∧ id ≤ 2147483647) ∧
      Complete (some two_files) 2 (public_ids two_files) :=
  ⟨by decide, (public_listing_complete_iff two_files 2 (by decide) (by decide)).mpr (by decide)⟩

theorem newest_file_shown :
    ∃ files : List FileListItem, files.map FileListItem.id = [2] ∧
      (∀ item ∈ files, Shows (fun _ => []) two_files item) ∧
      list_public_files (fun _ => []) (some two_files) 0 1 =
        some (build_public_file_list_json files 1 1) := by
  have hpage : fetch_public_file_page_ids (some two_files) 0 1 = some ⟨[2], 1⟩ := by decide
  exact list_public_files_spec _ two_files 0 Nat.one_pos hpage (by decide)

/-- With one file a page, the walk ends without having listed file 1. -/
theorem second_file_skipped :
    walk (some two_files) 1 2 0 = some [2] ∧
      ¬ Complete (some two_files) 1 (public_ids two_files) := by
  refine ⟨by decide, ?_⟩
  rintro ⟨fuel, listed, hwalk, -, hall⟩
  have hcur : (below two_files 0)[1]? = some 1 := by decide
  exact first_cursor_not_listed two_files Nat.one_pos (by decide) hcur hwalk
    ((hall 1).mpr (by decide))

end AtlasWebServer.PublicFiles
