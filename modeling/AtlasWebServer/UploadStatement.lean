/-
The text of the `INSERT` of an upload (`insert_file` of `repo/mysql/file_repository.cpp`).

`FileStore.insert_file` says what the statement does. Here is its text, which `snprintf`
writes into a buffer of 2048 bytes and cuts off where the buffer ends. Six fields go into it.
Five of them are short on every way through an upload: the two names are made by the server,
the digest has 64 bytes, the numbers are `long`s and the user has a row. The content type is a
form field and may have 64 KiB, so it alone decides whether the statement is whole; `room` is
what the other fields leave for it.

A statement that is cut off after `FROM users` has no `WHERE` clause and selects every user.

`mysql_real_escape_string` and `EVP_DecodeBlock` are parameters.
-/
import AtlasWebServer.Drive
import AtlasWebServer.ResponseSplitting

set_option autoImplicit false

namespace AtlasWebServer.UploadStatement

open Bytes CString FileNames Tables FileStore List
open Http (HttpRequest RequestContext c_str length_c_str_le parse_managed_upload_payload)

/-! ## The statement -/

section Text

variable (mysql_real_escape_string : Bytes → Bytes)

def escape (value : Bytes) : Bytes :=
  if value = [] then value else mysql_real_escape_string value

def printed (value : Bytes) : Bytes := c_str (escape mysql_real_escape_string value)

/-- What `%s` prints of `nullable_id_value`. -/
def nullable_id_text (id : ℤ) : Bytes := if id > 0 then to_string id else lit "NULL"

/-- What `%d` prints of `is_public ? 1 : 0`. -/
def flag_text (flag : Bool) : Bytes := to_string (if flag then 1 else 0)

/-- The statement up to the `WHERE` clause. -/
def select_text (record : FileCreateRecord) : Bytes :=
  lit "INSERT INTO files(user_id, stored_name, physical_id, original_name, " ++
    lit "content_type, folder_id, file_size, is_public, content_sha256) SELECT id, '" ++
    printed mysql_real_escape_string record.stored_name ++ lit "', " ++
    to_string record.physical_id ++ lit ", '" ++
    printed mysql_real_escape_string record.original_name ++ lit "', '" ++
    printed mysql_real_escape_string record.content_type ++ lit "', " ++
    nullable_id_text record.folder_id ++ lit ", " ++
    to_string record.file_size ++ lit ", " ++
    flag_text record.is_public ++ lit ", '" ++
    printed mysql_real_escape_string record.sha256 ++ lit "' FROM users"

def where_text (owner : Bytes) : Bytes :=
  lit " WHERE username='" ++ printed mysql_real_escape_string owner ++
    lit "' AND disabled_at IS NULL"

def insert_text (record : FileCreateRecord) : Bytes :=
  select_text mysql_real_escape_string record ++ where_text mysql_real_escape_string record.owner

def sql_size : ℕ := 2048

/-- The statement `insert_file` hands to `mysql_query`, if it comes to that. -/
def insert_file_query (record : FileCreateRecord) : Option Bytes :=
  if record.owner = [] ∨ record.stored_name = [] ∨ record.original_name = [] then none
  else some ((insert_text mysql_real_escape_string record).take (sql_size - 1))

/-- The statement fits the buffer, and what is executed ends with the `WHERE` clause. -/
def WholeInsert (record : FileCreateRecord) : Prop :=
  (insert_text mysql_real_escape_string record).length < sql_size ∧
    ∀ sql ∈ insert_file_query mysql_real_escape_string record,
      where_text mysql_real_escape_string record.owner <:+ sql

/-- What the statement leaves for the content type. -/
def room (record : FileCreateRecord) : ℕ :=
  sql_size - 1 - (insert_text mysql_real_escape_string { record with content_type := [] }).length

end Text

/-! ## The records of the upload path -/

variable {K : Type} [DecidableEq K] {key : Bytes → K} {sha256_hex : Bytes → Bytes}

section Built

variable (key sha256_hex) (EVP_DecodeBlock : Bytes → Option Bytes)

/-- Every physical file was stored by an upload. -/
def StoredByUploads (db : Db) : Prop :=
  ∀ p ∈ db.physical_files, ∃ db' args e payload,
    upload_checks key sha256_hex db' args e = .ok payload ∧
      p.stored_name = new_stored_name args.stored_name_prefix payload

def IsLong (n : ℤ) : Prop := -2 ^ 63 ≤ n ∧ n < 2 ^ 63

instance (n : ℤ) : Decidable (IsLong n) := inferInstanceAs (Decidable (_ ∧ _))

/-- `record` is what `create_uploaded_file` makes of a payload that
`parse_managed_upload_payload` accepts. A digest has 64 bytes, and the name of a user 50
characters of at most four. -/
structure Built (record : FileCreateRecord) : Prop where
  made : ∃ request context db d args e payload placed,
    parse_managed_upload_payload EVP_DecodeBlock request context = .ok args.payload ∧
    upload_checks key sha256_hex db args e = .ok payload ∧
    place_physical_file key db d args.stored_name_prefix payload e = some placed ∧
    StoredByUploads key sha256_hex db ∧ record = file_record args payload placed
  digest : record.sha256.length ≤ 64
  owner : record.owner.length ≤ 200
  physical_id : IsLong record.physical_id
  folder_id : IsLong record.folder_id
  file_size : IsLong record.file_size

end Built

/-! ## How long the fields are -/

theorem length_candidate {name : Bytes} {index : ℕ} (hname : name.length ≤ 80)
    (hindex : index ≤ 1000) : (duplicate_filename_candidate name index).length ≤ 87 := by
  have hsuffix := length_candidate_suffix hindex
  have hsplit := congrArg length (name_stem_append name)
  rw [length_append] at hsplit
  rcases Nat.eq_zero_or_pos index with rfl | hpos
  · rw [duplicate_filename_candidate, if_pos rfl]
    omega
  · rw [duplicate_filename_candidate_eq hpos]
    -- whatever is cut of the stem, stem and extension are no longer than the name
    split_ifs <;> simp only [length_append, length_take] <;> omega

theorem length_sanitized_or_default (requested_name : Bytes) :
    (sanitized_or_default requested_name).length ≤ 80 := by
  have hsanitized : (sanitize_filename requested_name).length ≤ 80 := by
    exact length_take_le _ _
  unfold sanitized_or_default
  dsimp only
  split_ifs
  · decide
  · exact hsanitized

section Lengths

variable {EVP_DecodeBlock : Bytes → Option Bytes} {mysql_real_escape_string : Bytes → Bytes}

variable {db : Db} {e : UploadEvent} {payload : UploadPayload} {record : FileCreateRecord}

theorem length_checked_filename {args : UploadArgs}
    (h : upload_checks key sha256_hex db args e = .ok payload) : payload.filename.length ≤ 87 := by
  rw [(upload_checks_spec h).2]
  obtain ⟨index, hindex, hcandidate⟩ := ensure_unique_candidate key db args.owner
    (payload_with_digest sha256_hex args.payload).filename
    (payload_with_digest sha256_hex args.payload).folder_id 0 e.name_ok
  rw [hcandidate]
  exact length_candidate (length_sanitized_or_default _) hindex

theorem length_new_stored_name (stored_name_start : Bytes) (hname : payload.filename.length ≤ 87) :
    (new_stored_name stored_name_start payload).length ≤ 124 := by
  have htoken : (stored_name_start.take kStoredNamePrefixLength).length ≤ 24 :=
    length_take_le _ _
  have hdigest : (if payload.sha256 = [] then [] else
      lit "_" ++ payload.sha256.take 12 : Bytes).length ≤ 13 := by
    split_ifs
    · exact Nat.zero_le _
    have htake : (payload.sha256.take 12).length ≤ 12 := length_take_le _ _
    have hline : (lit "_").length = 1 := by decide
    rw [length_append]
    omega
  have hext := (file_extension_suffix payload.filename).length_le
  unfold new_stored_name
  simp only [length_append]
  omega

theorem length_placed_name {d : Disk} {stored_name_start : Bytes} {placed : Placed}
    (hstored : StoredByUploads key sha256_hex db) (hname : payload.filename.length ≤ 87)
    (hplaced : place_physical_file key db d stored_name_start payload e = some placed) :
    placed.stored_name.length ≤ 124 := by
  rcases place_physical_file_cases hplaced with ⟨p, hp, -, rfl⟩ | ⟨-, -, rfl⟩
  · obtain ⟨db', args, e', payload', hchecks, hp⟩ := hstored p hp
    show p.stored_name.length ≤ 124
    rw [hp]
    exact length_new_stored_name _ (length_checked_filename hchecks)
  · exact length_new_stored_name _ hname

theorem length_printed
    (hescape : ∀ value, (mysql_real_escape_string value).length ≤ 2 * value.length)
    (value : Bytes) : (printed mysql_real_escape_string value).length ≤ 2 * value.length := by
  refine (length_c_str_le _).trans ?_
  unfold escape
  split_ifs
  · omega
  · exact hescape value

theorem length_to_string_long {n : ℤ} (h : IsLong n) : (to_string n).length ≤ 20 := by
  unfold IsLong at h
  exact length_to_string_le (k := 19) (by decide) (by omega)

theorem length_nullable_id {id : ℤ} (h : IsLong id) : (nullable_id_text id).length ≤ 20 := by
  unfold nullable_id_text
  split_ifs
  · exact length_to_string_long h
  · decide

/-! ## When the statement is whole -/

/-- The texts of the statement that are no field's. -/
def fixed_length : ℕ := 217

theorem length_insert_text (record : FileCreateRecord) :
    (insert_text mysql_real_escape_string record).length =
      fixed_length + (printed mysql_real_escape_string record.stored_name).length +
        (to_string record.physical_id).length +
        (printed mysql_real_escape_string record.original_name).length +
        (printed mysql_real_escape_string record.content_type).length +
        (nullable_id_text record.folder_id).length + (to_string record.file_size).length +
        (flag_text record.is_public).length +
        (printed mysql_real_escape_string record.sha256).length +
        (printed mysql_real_escape_string record.owner).length := by
  have hinsert :
      (lit "INSERT INTO files(user_id, stored_name, physical_id, original_name, ").length = 68 ∧
      (lit "content_type, folder_id, file_size, is_public, content_sha256) SELECT id, '").length =
        75 := by
    decide +kernel
  have hfrom : (lit "' FROM users").length = 12 ∧ (lit " WHERE username='").length = 17 ∧
      (lit "' AND disabled_at IS NULL").length = 25 ∧ (lit "', ").length = 3 ∧
      (lit ", '").length = 3 ∧ (lit "', '").length = 4 ∧ (lit ", ").length = 2 := by
    decide +kernel
  unfold insert_text select_text where_text fixed_length
  simp only [length_append, hinsert, hfrom]
  omega

theorem printed_nil : printed mysql_real_escape_string [] = [] := rfl

theorem length_insert_text_type (record : FileCreateRecord) :
    (insert_text mysql_real_escape_string record).length =
      (insert_text mysql_real_escape_string { record with content_type := [] }).length +
        (printed mysql_real_escape_string record.content_type).length := by
  rw [length_insert_text, length_insert_text]
  dsimp only
  rw [printed_nil, length_nil]
  omega

theorem wholeInsert_iff (record : FileCreateRecord) :
    WholeInsert mysql_real_escape_string record ↔
      (insert_text mysql_real_escape_string record).length < sql_size := by
  refine ⟨And.left, fun hfits => ⟨hfits, fun sql hsql => ?_⟩⟩
  unfold insert_file_query at hsql
  split_ifs at hsql
  · cases hsql
  · rw [← Option.some.inj hsql, take_of_length_le (by unfold sql_size at *; omega)]
    exact suffix_append _ _

theorem Built.names (h : Built key sha256_hex EVP_DecodeBlock record) :
    record.stored_name.length ≤ 124 ∧ record.original_name.length ≤ 87 := by
  obtain ⟨request, context, db, d, args, e, payload, placed, -, hchecks, hplaced, hstored, rfl⟩ :=
    h.made
  have hname := length_checked_filename hchecks
  exact ⟨length_placed_name hstored hname hplaced, hname⟩

theorem length_flag_text (flag : Bool) : (flag_text flag).length = 1 := by
  cases flag <;> decide

theorem Built.room_ge (h : Built key sha256_hex EVP_DecodeBlock record)
    (hescape : ∀ value, (mysql_real_escape_string value).length ≤ 2 * value.length) :
    819 ≤ room mysql_real_escape_string record := by
  obtain ⟨hstored, hname⟩ := h.names
  have hdigest := h.digest
  have howner := h.owner
  have h1 := length_printed hescape record.stored_name
  have h2 := length_printed hescape record.original_name
  have h3 := length_printed hescape record.sha256
  have h4 := length_printed hescape record.owner
  have h5 := length_to_string_long h.physical_id
  have h6 := length_nullable_id h.folder_id
  have h7 := length_to_string_long h.file_size
  unfold room
  rw [length_insert_text, length_flag_text]
  dsimp only
  rw [printed_nil, length_nil]
  unfold sql_size fixed_length
  omega

end Lengths

/-- **The `INSERT` of an upload is whole** if its content type, escaped, fits the room, and only
then; the room is at least 819 bytes, so a content type of at most 409 bytes always fits. -/
theorem insert_whole_iff {K : Type} [DecidableEq K] {key : Bytes → K} {sha256_hex : Bytes → Bytes}
    {EVP_DecodeBlock : Bytes → Option Bytes} {mysql_real_escape_string : Bytes → Bytes}
    (hescape : ∀ value, (mysql_real_escape_string value).length ≤ 2 * value.length)
    {record : FileCreateRecord} (h : Built key sha256_hex EVP_DecodeBlock record) :
    (WholeInsert mysql_real_escape_string record ↔
      (printed mysql_real_escape_string record.content_type).length ≤
        room mysql_real_escape_string record) ∧
    819 ≤ room mysql_real_escape_string record ∧
    (record.content_type.length ≤ 409 → WholeInsert mysql_real_escape_string record) := by
  have hroom := h.room_ge hescape
  have hiff : WholeInsert mysql_real_escape_string record ↔
      (printed mysql_real_escape_string record.content_type).length ≤
        room mysql_real_escape_string record := by
    rw [wholeInsert_iff, length_insert_text_type]
    unfold room at *
    omega
  refine ⟨hiff, hroom, fun hshort => hiff.mpr ?_⟩
  have hprinted := length_printed hescape record.content_type
  omega

/-! ### Two uploads -/

/-- What `mysql_real_escape_string` does to a byte. -/
def escape_byte (b : UInt8) : Bytes :=
  if b = 0 then lit "\\0"
  else if b = 10 then lit "\\n"
  else if b = 13 then lit "\\r"
  else if b = 26 then lit "\\Z"
  else if b = 34 ∨ b = 39 ∨ b = 92 then [92, b]
  else [b]

theorem length_escaped (value : Bytes) : (value.flatMap escape_byte).length ≤ 2 * value.length := by
  have hbyte : ∀ b : UInt8, (escape_byte b).length ≤ 2 := by
    intro b
    unfold escape_byte
    split_ifs <;> first | decide | exact Nat.le_refl 2 | exact Nat.le_succ 1
  induction value with
  | nil => exact Nat.zero_le _
  | cons b value ih =>
    have hb := hbyte b
    rw [flatMap_cons, length_append, length_cons]
    omega

/-- A form with a file of five bytes and this content type. -/
def form (content_type : Bytes) : HttpRequest where
  method := .POST
  path := lit "/api/private/files"
  form := [(lit "content_type", content_type)]
  upload := ⟨lit "/tmp/upload", lit "a.txt", [], List.replicate 64 48, 5⟩

def form_context : RequestContext :=
  { mysql := true, current_user := lit "alice", upload_max_bytes := 1000 }

def two_users : Db := ⟨[⟨1, lit "alice", false⟩, ⟨2, lit "bob", false⟩], [], [], [], 1, 1⟩

def form_args (content_type : Bytes) : UploadArgs where
  owner := lit "alice"
  stored_name_prefix := replicate 32 102
  payload := Http.file_payload (form content_type) (lit "file.txt") content_type 0
  is_public := false
  quota := ⟨1000, 1000⟩

def all_executed : UploadEvent :=
  ⟨true, true, true, true, fun _ => true, true, none, true, none, none, false, true, 0⟩

/-- What `create_uploaded_file` makes of the form. -/
def form_record (content_type : Bytes) : FileCreateRecord where
  owner := lit "alice"
  stored_name := List.replicate 24 102 ++ lit "_" ++ List.replicate 12 48 ++ lit ".txt"
  physical_id := 1
  original_name := lit "file.txt"
  content_type := content_type
  folder_id := 0
  file_size := 5
  is_public := false
  sha256 := replicate 64 48

def no_block : Bytes → Option Bytes := fun _ => none

theorem form_record_built {content_type : Bytes} (hne : content_type ≠ []) :
    Built id id no_block (form_record content_type) where
  made := by
    refine ⟨form content_type, form_context, two_users, ⟨fun _ => none, fun _ => none⟩,
      form_args content_type, all_executed, _, _, rfl, rfl, rfl, ?_, ?_⟩
    · exact fun p hp => absurd hp not_mem_nil
    · have htype : (form_args content_type).payload.content_type = content_type := if_neg hne
      exact congrArg form_record htype.symm
  digest := show (replicate 64 (48 : UInt8)).length ≤ 64 by decide
  owner := show (lit "alice").length ≤ 200 by decide
  physical_id := show IsLong 1 by decide
  folder_id := show IsLong 0 by decide
  file_size := show IsLong 5 by decide

theorem csv_upload_whole : WholeInsert (List.flatMap escape_byte) (form_record (lit "text/csv")) :=
  (insert_whole_iff length_escaped (form_record_built (by decide))).2.2 (by decide)

/-- A content type that fills the buffer up to the `WHERE` clause. -/
def long_type : Bytes := replicate 1752 97

/-- The statement that is executed ends with `FROM users` and selects every user. -/
theorem long_type_cuts_where :
    Built id id no_block (form_record long_type) ∧
    insert_file_query (flatMap escape_byte) (form_record long_type) =
      some (select_text (flatMap escape_byte) (form_record long_type)) ∧
    ¬ WholeInsert (flatMap escape_byte) (form_record long_type) := by
  have hlength : (select_text (flatMap escape_byte) (form_record long_type)).length = 2047 := by
    decide +kernel
  refine ⟨form_record_built (by rintro ⟨⟩), ?_, ?_⟩
  · unfold insert_file_query insert_text
    rw [if_neg (by decide +kernel), take_append_of_le_length (by rw [hlength]; decide),
      take_of_length_le (by rw [hlength]; decide)]
  rw [wholeInsert_iff, insert_text, length_append, hlength]
  unfold sql_size
  have hwhere : 0 < (where_text (flatMap escape_byte) (form_record long_type).owner).length := by
    decide +kernel
  omega

end AtlasWebServer.UploadStatement
