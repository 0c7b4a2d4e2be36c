/-
Share links: `service/files/share_service.cpp`, and the three statements of
`repo/mysql/file_repository.cpp` on `file_shares` that it is made of.

`file_shares` stands beside the tables of `FileStore`. A token is compared by the
server, so through `key`, and its primary key is unique in that sense. A time that
the source formats as text (`expires_at`) stays a time. `make_share_token` draws
from the environment; the empty string is its failure.

The three statements of `load_share_download` are separate functions here
(`fetch_file_share`, `validate_share_access_candidate`,
`increment_file_share_download_count`), because other calls may come between them.
-/
import AtlasWebServer.FileStore

set_option autoImplicit false

namespace AtlasWebServer.Shares

open Bytes Tables FileStore List

/-- The tables of the store and `file_shares`. -/
structure Db where
  base : FileStore.Db
  file_shares : List FileShareRow

structure FileShareCreateRecord where
  token : Bytes
  file_id : ℤ
  owner : Bytes
  access_code_hash : Bytes
  expires_in_seconds : ℤ
  max_downloads : ℤ

structure FileShareRecord where
  token : Bytes
  file_id : ℤ
  owner : Bytes
  access_code_hash : Bytes
  expires_at : Option ℤ
  max_downloads : ℤ
  download_count : ℤ
  is_expired : Bool
  file : ManagedFileRecord
  deriving DecidableEq

structure ShareOptions where
  access_code : Bytes
  expires_in_seconds : ℤ
  max_downloads : ℤ

structure ShareResult where
  token : Bytes
  file_id : ℤ
  filename : Bytes
  content_type : Bytes
  size : ℤ
  sha256 : Bytes
  has_access_code : Bool
  expires_at : Option ℤ
  max_downloads : ℤ
  download_count : ℤ
  deriving DecidableEq

def fill_share_result (record : FileShareRecord) : ShareResult where
  token := record.token
  file_id := record.file_id
  filename := record.file.original_name
  content_type := record.file.content_type
  size := record.file.file_size
  sha256 := record.file.content_sha256
  has_access_code := decide (record.access_code_hash ≠ [])
  expires_at := record.expires_at
  max_downloads := record.max_downloads
  download_count := record.download_count

/-! ## Statements -/

variable {K : Type} [DecidableEq K] {key : Bytes → K} {sha256_hex : Bytes → Bytes}

section Statements

variable (key)

/-- `expires_at IS NOT NULL AND expires_at<=NOW()`. -/
def expired (now : ℤ) (expires_at : Option ℤ) : Bool := expires_at.any fun t => decide (t ≤ now)

def share_row (db : Db) (token : Bytes) : Option FileShareRow :=
  db.file_shares.find? fun s => key s.token = key token

/-- `insert_file_share`: `none` where it returns false. The row has to keep the
primary key and the reference to `files`. -/
def insert_file_share (db : Db) (record : FileShareCreateRecord) (now : ℤ) : Option Db :=
  if record.token = [] ∨ record.file_id ≤ 0 ∨ record.owner = [] ∨ record.expires_in_seconds < 0 ∨
      record.max_downloads < 0 then none
  else
    match user_id_subquery key db.base record.owner with
    | none => none
    | some user_id =>
        if (share_row key db record.token).isSome ∨
            (db.base.files.all fun f => decide (f.id ≠ record.file_id)) then none
        else
          let row : FileShareRow :=
            { token := record.token, file_id := record.file_id, user_id
              access_code_hash := record.access_code_hash
              expires_at :=
                if record.expires_in_seconds > 0 then some (now + record.expires_in_seconds)
                else none
              max_downloads := record.max_downloads, download_count := 0 }
          some { db with file_shares := db.file_shares ++ [row] }

/-- The record of `fetch_file_share`, from the rows the join finds. Unlike a file
record, its file's name on disk is that of `files`, and `physical_id` stays 0. -/
def share_record (now : ℤ) (s : FileShareRow) (su : UserRow) (f : FileRow) (fu : UserRow) :
    FileShareRecord where
  token := s.token
  file_id := s.file_id
  owner := su.username
  access_code_hash := s.access_code_hash
  expires_at := s.expires_at
  max_downloads := s.max_downloads
  download_count := s.download_count
  is_expired := expired now s.expires_at
  file :=
    { file_id := s.file_id
      folder_id := f.folder_id.getD 0
      physical_id := 0
      file_size := f.file_size
      is_public := f.is_public
      is_deleted := f.deleted_at.isSome
      owner := fu.username
      stored_name := f.stored_name
      original_name := f.original_name
      content_type := f.content_type
      content_sha256 := f.content_sha256 }

def fetch_file_share (db : Db) (token : Bytes) (now : ℤ) : Option FileShareRecord :=
  if token = [] then none
  else do
    let s ← share_row key db token
    let su ← db.base.users.find? fun u => u.id = s.user_id
    let f ← db.base.files.find? fun f => f.id = s.file_id
    let fu ← db.base.users.find? fun u => u.id = f.user_id
    some (share_record now s su f fu)

/-- The rows the `UPDATE` of `increment_file_share_download_count` selects. -/
def countable (token : Bytes) (now : ℤ) (s : FileShareRow) : Bool :=
  decide (key s.token = key token) && !expired now s.expires_at &&
    (decide (s.max_downloads = 0) || decide (s.download_count < s.max_downloads))

/-- One more download of the row, if the `UPDATE` selects it. -/
def count_download (token : Bytes) (now : ℤ) (s : FileShareRow) : FileShareRow :=
  if countable key token now s then { s with download_count := s.download_count + 1 } else s

/-- `increment_file_share_download_count`: the new table, and whether one row was
affected. -/
def increment_file_share_download_count (db : Db) (token : Bytes) (now : ℤ) : Db × Bool :=
  if token = [] then (db, false)
  else
    ({ db with file_shares := db.file_shares.map (count_download key token now) },
      decide (db.file_shares.countP (countable key token now) = 1))

end Statements

/-! ## The service -/

section Service

variable (key sha256_hex)

def access_code_hash (access_code : Bytes) : Bytes :=
  if access_code = [] then [] else sha256_hex access_code

def validate_share_options (options : ShareOptions) : Except ServiceError Unit :=
  if options.expires_in_seconds < 0 ∨ options.max_downloads < 0 then
    .error ⟨.InvalidArgument, lit "invalid share limits"⟩
  else if options.access_code.length > 32 then
    .error ⟨.InvalidArgument, lit "access code is too long"⟩
  else .ok ()

def validate_share_access_candidate (record : FileShareRecord) (access_code : Bytes) :
    Except ServiceError Unit :=
  if record.file.is_deleted then .error ⟨.NotFound, lit "shared file not found"⟩
  else if record.is_expired then .error ⟨.Gone, lit "share link expired"⟩
  else if record.max_downloads > 0 ∧ record.download_count ≥ record.max_downloads then
    .error ⟨.TooManyRequests, lit "share download limit reached"⟩
  else if record.access_code_hash ≠ [] then
    if access_code = [] then .error ⟨.Forbidden, lit "access code required"⟩
    else if access_code_hash sha256_hex access_code ≠ record.access_code_hash then
      .error ⟨.Forbidden, lit "invalid access code"⟩
    else .ok ()
  else .ok ()

def load_shareable_file_record (db : FileStore.Db) (requester : Bytes) (file_id : ℤ) (e : Event) :
    Except ServiceError ManagedFileRecord :=
  match if e.ok 0 then fetch_file_record_impl db file_id false else none with
  | none => .error ⟨.NotFound, lit "file not found"⟩
  | some record =>
      if record.owner ≠ requester ∧ record.is_public = false then
        .error ⟨.Forbidden, lit "forbidden"⟩
      else .ok record

/-- The three attempts of `create_share_link`. Attempt `i` draws `tokens i`, and its
statements are `2 * i + 1` and `2 * i + 2` of the event. -/
def insert_share_loop (db : Db) (share : FileShareCreateRecord) (tokens : ℕ → Bytes) (e : Event) :
    ℕ → ℕ → Db × Except ServiceError ShareResult
  | 0, _ => (db, .error .unset)
  | fuel + 1, attempt =>
      let share := { share with token := tokens attempt }
      if share.token = [] then (db, .error .unset)
      else
        match if e.ok (2 * attempt + 1) then insert_file_share key db share e.now else none with
        | none => insert_share_loop db share tokens e fuel (attempt + 1)
        | some db' =>
            match if e.ok (2 * attempt + 2) then fetch_file_share key db' share.token e.now
              else none with
            | none => (db', .error .unset)
            | some stored => (db', .ok (fill_share_result stored))

def create_share_link (db : Db) (owner : Bytes) (file_id : ℤ) (options : ShareOptions)
    (tokens : ℕ → Bytes) (e : Event) : Db × Except ServiceError ShareResult :=
  match validate_share_options options with
  | .error error => (db, .error error)
  | .ok () =>
      match load_shareable_file_record db.base owner file_id e with
      | .error error => (db, .error error)
      | .ok _ =>
          insert_share_loop key db
            { token := [], file_id, owner
              access_code_hash := access_code_hash sha256_hex options.access_code
              expires_in_seconds := options.expires_in_seconds
              max_downloads := options.max_downloads } tokens e 3 0

/-- What `load_share_detail` and `load_share_download` do with the answer of their
`fetch_file_share`. -/
def share_found (share : Option FileShareRecord) (access_code : Bytes) :
    Except ServiceError FileShareRecord :=
  match share with
  | none => .error ⟨.NotFound, lit "share link not found"⟩
  | some share =>
      match validate_share_access_candidate sha256_hex share access_code with
      | .error error => .error error
      | .ok () => .ok share

def load_share_detail (db : Db) (token access_code : Bytes) (e : Event) :
    Except ServiceError ShareResult :=
  match share_found sha256_hex (if e.ok 0 then fetch_file_share key db token e.now else none)
      access_code with
  | .error error => .error error
  | .ok share => .ok (fill_share_result share)

/-- The end of `load_share_download`: what it returns with the answer of its
`increment_file_share_download_count`. -/
def download_reply (share : FileShareRecord) (counted : Bool) :
    Except ServiceError (ManagedFileRecord × ShareResult) :=
  if counted then
    .ok (share.file, fill_share_result { share with download_count := share.download_count + 1 })
  else .error ⟨.TooManyRequests, lit "share download limit reached"⟩

/-- `load_share_download`, with nothing between its statements. -/
def load_share_download (db : Db) (token access_code : Bytes) (e : Event) :
    Db × Except ServiceError (ManagedFileRecord × ShareResult) :=
  match share_found sha256_hex (if e.ok 0 then fetch_file_share key db token e.now else none)
      access_code with
  | .error error => (db, .error error)
  | .ok share =>
      if e.ok 1 then
        let r := increment_file_share_download_count key db token e.now
        (r.1, download_reply share r.2)
      else (db, download_reply share false)

end Service

/-! ## What the statements do -/

section Specs

def TokensUnique (key : Bytes → K) (db : Db) : Prop :=
  (db.file_shares.map fun s => key s.token).Nodup

@[simp] theorem count_download_token (token : Bytes) (now : ℤ) (s : FileShareRow) :
    (count_download key token now s).token = s.token := by
  unfold count_download
  split <;> rfl

theorem increment_base (key : Bytes → K) (db : Db) (token : Bytes) (now : ℤ) :
    (increment_file_share_download_count key db token now).1.base = db.base := by
  unfold increment_file_share_download_count
  split <;> rfl

theorem increment_share_row (key : Bytes → K) (db : Db) (token other : Bytes) (now : ℤ) :
    share_row key (increment_file_share_download_count key db token now).1 other =
      (share_row key db other).map fun s =>
        if token = [] then s else count_download key token now s := by
  unfold increment_file_share_download_count
  by_cases htoken : token = []
  · simp [htoken]
  simp only [if_neg htoken, share_row, List.find?_map]
  congr 1
  refine congrArg (List.find? · db.file_shares) (funext fun s => ?_)
  simp

variable {db : Db} {token : Bytes}

theorem TokensUnique.increment (h : TokensUnique key db) (token : Bytes) (now : ℤ) :
    TokensUnique key (increment_file_share_download_count key db token now).1 := by
  unfold increment_file_share_download_count
  split
  · exact h
  rw [TokensUnique, map_map]
  have hsame : ((fun s : FileShareRow => key s.token) ∘ count_download key token now) =
      fun s => key s.token := funext fun s => by simp
  rw [hsame]
  exact h

theorem countP_countable {rows : List FileShareRow} (h : (rows.map fun s => key s.token).Nodup)
    (token : Bytes) (now : ℤ) :
    decide (rows.countP (countable key token now) = 1) =
      (rows.find? fun s => key s.token = key token).any (countable key token now) := by
  induction rows with
  | nil => rfl
  | cons s rows ih =>
    rw [map_cons, nodup_cons] at h
    by_cases hs : key s.token = key token
    · -- no later row has the token
      have hrest : rows.countP (countable key token now) = 0 := by
        refine countP_eq_zero.mpr fun r hr hcount => h.1 ?_
        simp only [countable, Bool.and_eq_true, decide_eq_true_eq] at hcount
        exact mem_map.mpr ⟨r, hr, hcount.1.1.trans hs.symm⟩
      rw [List.find?_cons_of_pos (by simpa using hs), countP_cons, hrest]
      cases hcount : countable key token now s <;> simp [hcount]
    · have hnot : countable key token now s = false := by simp [countable, hs]
      rw [List.find?_cons_of_neg (by simpa using hs), countP_cons, hnot]
      simpa using ih h.2

theorem increment_affected (h : TokensUnique key db) (htoken : token ≠ []) (now : ℤ) :
    (increment_file_share_download_count key db token now).2 =
      (share_row key db token).any (countable key token now) := by
  unfold increment_file_share_download_count
  rw [if_neg htoken]
  exact countP_countable h token now

/-- The rows `fetch_file_share` joins for a token: the share, its creator, the file
and the file's owner. -/
structure Joined (key : Bytes → K) (db : Db) (token : Bytes) (s : FileShareRow) (su : UserRow)
    (f : FileRow) (fu : UserRow) : Prop where
  token_ne : token ≠ []
  share : share_row key db token = some s
  creator : db.base.users.find? (fun u => u.id = s.user_id) = some su
  file : db.base.files.find? (fun f => f.id = s.file_id) = some f
  owner : db.base.users.find? (fun u => u.id = f.user_id) = some fu

theorem Joined.file_mem {s : FileShareRow} {su : UserRow} {f : FileRow} {fu : UserRow}
    (h : Joined key db token s su f fu) : f ∈ db.base.files ∧ f.id = s.file_id :=
  ⟨List.mem_of_find?_eq_some h.file, by simpa using List.find?_some h.file⟩

theorem fetch_file_share_spec {now : ℤ} {share : FileShareRecord} :
    fetch_file_share key db token now = some share ↔
      ∃ s su f fu, Joined key db token s su f fu ∧ share = share_record now s su f fu := by
  unfold fetch_file_share
  by_cases htoken : token = []
  · rw [if_pos htoken]
    constructor
    · intro h
      contradiction
    · rintro ⟨s, su, f, fu, hjoined, -⟩
      exact absurd htoken hjoined.token_ne
  simp only [if_neg htoken, Option.bind_eq_bind, Option.bind_eq_some_iff, Option.some.injEq]
  constructor
  · rintro ⟨s, hs, su, hsu, f, hf, fu, hfu, rfl⟩
    exact ⟨s, su, f, fu, ⟨htoken, hs, hsu, hf, hfu⟩, rfl⟩
  · rintro ⟨s, su, f, fu, hjoined, rfl⟩
    exact ⟨s, hjoined.share, su, hjoined.creator, f, hjoined.file, fu, hjoined.owner, rfl⟩

end Specs

end AtlasWebServer.Shares
