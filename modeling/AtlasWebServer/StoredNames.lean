/-
Where uploads are put: the stored name `create_uploaded_file` makes
(`service/files/upload_service.cpp`) and the temp path `parse_spooled_multipart` makes
(`http/files/multipart_parser.cpp`).

Of what the client has chosen, only the extension gets into either name. A sanitised name
can hold a slash -- a lead byte takes the bytes behind it along -- and renaming a duplicate
can cut a name anywhere. What keeps the file where it belongs is `file_extension` alone: it
returns nothing unless the last dot stands behind the last separator. The rest of the name
is made of hexadecimal digits.

The bound on the length is a matter of the candidates. One that has its extension from
the sanitised name can be longer than 80 bytes, but its extension is not; and one that has
not is cut to 80.
-/
import AtlasWebServer.DownloadPaths
import AtlasWebServer.FileNamePieces
import AtlasWebServer.MultipartCleanup

set_option autoImplicit false

namespace AtlasWebServer.StoredNames

open Bytes CString FileNames FileStore DownloadPaths Multipart List

/-- A file that lies in the directory itself. -/
def Child (dir path : Bytes) : Prop :=
  ∃ name : Bytes, path = dir ++ lit "/" ++ name ∧ name ≠ [] ∧ name ≠ lit "." ∧ name ≠ lit ".." ∧
    (47 : UInt8) ∉ name

def IsHex (s : Bytes) : Prop := ∀ b ∈ s, isxdigit b = true

/-! ## Extensions -/

theorem not_mem_file_extension (value : Bytes) :
    (47 : UInt8) ∉ file_extension value ∧ (92 : UInt8) ∉ file_extension value := by
  rcases file_extension_spec value with hnone | ⟨stem, rest, -, hext, hrest⟩
  · simp [hnone]
  rw [hext]
  simp only [mem_cons, not_or]
  exact ⟨⟨by decide, fun hmem => (hrest _ hmem).2.1 rfl⟩,
    ⟨by decide, fun hmem => (hrest _ hmem).2.2 rfl⟩⟩

theorem length_file_extension_le {value stem rest : Bytes} (h : value = stem ++ 46 :: rest) :
    (file_extension value).length ≤ rest.length + 1 := by
  rcases file_extension_spec value with hnone | ⟨stem', rest', hvalue, hext, hrest⟩
  · simp [hnone]
  rw [hext, length_cons]
  have hsuffix : 46 :: rest <:+ value := ⟨stem, h.symm⟩
  have hsuffix' : 46 :: rest' <:+ value := ⟨stem', hvalue.symm⟩
  rcases suffix_or_suffix_of_suffix hsuffix hsuffix' with hle | hle
  · rcases suffix_cons_iff.mp hle with heq | hmore
    · rw [(List.cons.inj heq).2]
    · -- a dot behind the last one
      exact absurd rfl (hrest 46 (hmore.subset mem_cons_self)).1
  · exact hle.length_le

variable {name s token : Bytes} {payload : UploadPayload}

theorem length_candidate_extension (hname : name.length ≤ 80) {index : ℕ} (hindex : index ≤ 1000) :
    (file_extension (duplicate_filename_candidate name index)).length ≤ 80 := by
  rcases Nat.eq_zero_or_pos index with rfl | hpos
  · exact (file_extension_suffix name).length_le.trans hname
  have hsuffix := length_candidate_suffix hindex
  rw [duplicate_filename_candidate_eq hpos]
  rcases file_extension_spec name with hnone | ⟨stem, rest, hvalue, hext, -⟩
  · -- without an extension the candidate itself is short
    refine (file_extension_suffix _).length_le.trans ?_
    rw [length_append, length_append, hnone, length_nil]
    split_ifs with hcut
    · have hmax : max_stem name index = 80 - (candidate_suffix index).length := by
        unfold max_stem kFilenameMaxLength
        rw [hnone, length_nil]
        omega
      rw [length_take, hmax]
      omega
    · unfold CutsStem kFilenameMaxLength at hcut
      omega
  · rw [hext, ← append_assoc]
    refine (length_file_extension_le rfl).trans ?_
    have hlength := (file_extension_suffix name).length_le
    rw [hext, length_cons] at hlength
    omega

/-! ## Stored names -/

/-- A stored name that stays in the directory and fits the column. -/
structure StoredName (name : Bytes) : Prop where
  nonempty : name ≠ []
  slash : (47 : UInt8) ∉ name
  backslash : (92 : UInt8) ∉ name
  dot : name.head? ≠ some 46
  length : name.length ≤ 117

theorem IsHex.not_mem (h : IsHex s) {b : UInt8} (hb : isxdigit b = false) : b ∉ s := by
  intro hmem
  rw [h b hmem] at hb
  exact Bool.noConfusion hb

theorem IsHex.take (h : IsHex s) (n : ℕ) : IsHex (s.take n) :=
  fun b hb => h b (List.mem_of_mem_take hb)

theorem new_stored_name_stays (hne : token ≠ []) (htoken : IsHex token)
    (hdigest : IsHex payload.sha256) (hext : (file_extension payload.filename).length ≤ 80) :
    StoredName (new_stored_name token payload) := by
  obtain ⟨digit, digits, rfl⟩ := exists_cons_of_ne_nil hne
  obtain ⟨hslash, hbackslash⟩ := not_mem_file_extension payload.filename
  have htaken := htoken.take kStoredNamePrefixLength
  have hsha := hdigest.take 12
  have hmiddle : ∀ b : UInt8, isxdigit b = false → b ≠ 95 →
      b ∉ (if payload.sha256 = [] then [] else lit "_" ++ payload.sha256.take 12 : Bytes) := by
    intro b hb hline
    split_ifs
    · exact not_mem_nil
    rw [mem_append, not_or]
    refine ⟨?_, hsha.not_mem hb⟩
    rw [show lit "_" = [95] by decide, mem_singleton]
    exact hline
  unfold new_stored_name
  constructor
  · simp [kStoredNamePrefixLength]
  · simp only [mem_append, not_or]
    exact ⟨⟨htaken.not_mem (by decide), hmiddle 47 (by decide) (by decide)⟩, hslash⟩
  · simp only [mem_append, not_or]
    exact ⟨⟨htaken.not_mem (by decide), hmiddle 92 (by decide) (by decide)⟩, hbackslash⟩
  · have hdigit := htoken digit mem_cons_self
    intro hdot
    rw [Option.some.inj hdot] at hdigit
    exact absurd hdigit (by decide)
  · have hlengths : ((digit :: digits).take kStoredNamePrefixLength).length ≤ 24 :=
      length_take_le _ _
    have hcount : (if payload.sha256 = [] then [] else
        lit "_" ++ payload.sha256.take 12 : Bytes).length ≤ 13 := by
      split_ifs
      · exact Nat.zero_le _
      · have htake : (payload.sha256.take 12).length ≤ 12 := length_take_le _ _
        rw [length_append, show (lit "_").length = 1 by decide]
        omega
    simp only [length_append]
    omega

theorem StoredName.child (h : StoredName name) (doc_root : Bytes) :
    Child (storage_root doc_root) (file_path doc_root name) := by
  refine ⟨name, rfl, h.nonempty, ?_, ?_, h.slash⟩
  · rintro rfl
    exact h.dot rfl
  · rintro rfl
    exact h.dot rfl

section Uploads

variable {K : Type} [DecidableEq K] (key : Bytes → K)

theorem length_unique_extension (db : Db) (owner requested_name : Bytes)
    (folder_id ignore_file_id : ℤ) (name_ok : ℕ → Bool) :
    (file_extension (ensure_unique_owned_filename key db owner requested_name folder_id
      ignore_file_id name_ok)).length ≤ 80 := by
  obtain ⟨index, hindex, hcandidate⟩ :=
    ensure_unique_candidate key db owner requested_name folder_id ignore_file_id name_ok
  have hname : (sanitized_or_default requested_name).length ≤ 80 := by
    unfold sanitized_or_default
    dsimp only
    split_ifs
    · decide
    · exact length_sanitize_filename requested_name
  rw [hcandidate]
  exact length_candidate_extension hname hindex

theorem place_physical_names {db : Db} {d : Disk} {e : UploadEvent} {placed : Placed}
    (h : place_physical_file key db d token payload e = some placed) :
    ∀ name ∈ placed.names, name = new_stored_name token payload := by
  rcases place_physical_file_cases h with ⟨p, -, -, rfl⟩ | ⟨-, -, rfl⟩
  · simp [place_existing]
  · simp [place_new]

theorem uploaded_names_stay (sha256_hex : Bytes → Bytes) (db : Db) (d : Disk) (args : UploadArgs)
    (e : UploadEvent) (hne : args.stored_name_prefix ≠ []) (hhex : IsHex args.stored_name_prefix)
    (hdigest : IsHex (payload_with_digest sha256_hex args.payload).sha256) :
    ∀ name ∈ (create_uploaded_file key sha256_hex db d args e).names, StoredName name := by
  have hplacing : ∀ {payload placed}, upload_checks key sha256_hex db args e = .ok payload →
      place_physical_file key db d args.stored_name_prefix payload e = some placed →
      ∀ name ∈ placed.names, StoredName name := by
    intro payload placed hchecks hplaced name hname
    rw [place_physical_names key hplaced name hname]
    apply new_stored_name_stays hne hhex
    · rw [(upload_checks_spec hchecks).2]
      exact hdigest
    · rw [(upload_checks_spec hchecks).2]
      exact length_unique_extension key db _ _ _ _ _
  have houtcome := create_uploaded_file_outcome key sha256_hex db d args e
  generalize create_uploaded_file key sha256_hex db d args e = r at houtcome ⊢
  cases houtcome with
  | refused error => exact fun name hname => absurd hname not_mem_nil
  | rolled_back after disk error hchecks hplaced hfile hphysical hdisk =>
    exact hplacing hchecks hplaced
  | stored db' file_id result hchecks hplaced hinsert => exact hplacing hchecks hplaced

end Uploads

/-! ## Temp files -/

section Temp

variable {sha256_hex : Bytes → Bytes} {env : Env} {doc_root : Bytes} {upload_max_bytes : ℕ}
variable {boundary : Bytes} {temp temp' : Temp} {result : ParseResult}

/-- Nothing has changed but in the temp directory itself. -/
def InTempRoot (doc_root : Bytes) (temp temp' : Temp) : Prop :=
  ∀ path, temp' path ≠ temp path → Child (temp_root doc_root) path

/-- The result names a file of the temp directory, or none. -/
def NamesChild (doc_root : Bytes) (result : ParseResult) : Prop :=
  result.file.temp_path = [] ∨ Child (temp_root doc_root) result.file.temp_path

theorem temp_path_child (doc_root : Bytes) (htoken : IsHex token) (filename : Bytes) :
    Child (temp_root doc_root) (temp_root doc_root ++ lit "/upload-" ++ token ++
      file_extension (sanitize_filename filename)) := by
  have hstart : lit "/upload-" = lit "/" ++ lit "upload-" := by decide
  refine ⟨lit "upload-" ++ (token ++ file_extension (sanitize_filename filename)), ?_, ?_, ?_, ?_,
    ?_⟩
  · rw [hstart]
    simp only [append_assoc]
  · exact cons_ne_nil _ _
  · exact fun h => absurd (List.cons.inj h).1 (by decide)
  · exact fun h => absurd (List.cons.inj h).1 (by decide)
  · simp only [mem_append, not_or]
    exact ⟨by decide, htoken.not_mem (by decide), (not_mem_file_extension _).1⟩

theorem InTempRoot.update (h : InTempRoot doc_root temp temp') {path : Bytes}
    (hpath : Child (temp_root doc_root) path) (content : Option Bytes) :
    InTempRoot doc_root temp (Function.update temp' path content) := by
  intro other hother
  by_cases heq : other = path
  · rw [heq]
    exact hpath
  · rw [Function.update_of_ne heq] at hother
    exact h other hother

theorem InTempRoot.fail {α : Type} (h : InTempRoot doc_root temp temp')
    (hresult : NamesChild doc_root result) (status : ℤ) (title message : Bytes) :
    InTempRoot doc_root temp (fail temp' result status title message : Parse α).1 := by
  unfold Multipart.fail
  split_ifs with hnone
  · exact h
  · exact h.update (hresult.resolve_left hnone) none

theorem NamesChild.set_field (h : NamesChild doc_root result) (name value : Bytes) :
    NamesChild doc_root (result.set_field name value) := by
  unfold ParseResult.set_field
  split
  · exact h
  · exact h

/-- What a part does to the temp files. -/
structure PartStays (doc_root : Bytes) (temp : Temp)
    (out : Parse (ParseResult × Reader Pieces × Bool)) :
    Prop where
  files : InTempRoot doc_root temp out.1
  result : ∀ r, out.2 = .ok r → NamesChild doc_root r.1

theorem PartStays.of_fail (h : InTempRoot doc_root temp temp')
    (hresult : NamesChild doc_root result)
    (status : ℤ) (title message : Bytes) :
    PartStays doc_root temp (fail temp' result status title message) :=
  ⟨h.fail hresult status title message, nofun⟩

theorem parse_file_part_stays (htoken : IsHex env.token) (h : InTempRoot doc_root temp temp')
    (hresult : NamesChild doc_root result) (r : Reader Pieces)
    (field_name field_filename field_content_type : Bytes) :
    PartStays doc_root temp (parse_file_part sha256_hex env doc_root upload_max_bytes boundary
      temp' result r field_name field_filename field_content_type) := by
  have hpath := temp_path_child doc_root htoken field_filename
  unfold parse_file_part
  dsimp only
  split
  · exact .of_fail h hresult _ _ _
  split
  · exact .of_fail h hresult _ _ _
  split
  · apply PartStays.of_fail _ hresult
    split
    · exact h.update hpath _
    · exact h
  have hremoved := h.update hpath none
  split
  · split <;> exact .of_fail hremoved hresult _ _ _
  split
  · exact .of_fail hremoved hresult _ _ _
  refine ⟨h.update hpath _, ?_⟩
  rintro _ ⟨rfl⟩
  apply NamesChild.set_field
  exact .inr hpath

theorem parse_text_part_stays (h : InTempRoot doc_root temp temp')
    (hresult : NamesChild doc_root result) (r : Reader Pieces) (field_name : Bytes) :
    PartStays doc_root temp (parse_text_part boundary temp' result r field_name) := by
  unfold parse_text_part
  dsimp only
  split
  · split <;> exact .of_fail h hresult _ _ _
  · refine ⟨h, ?_⟩
    rintro _ ⟨rfl⟩
    exact hresult.set_field _ _

theorem parse_part_stays (htoken : IsHex env.token) (h : InTempRoot doc_root temp temp')
    (hresult : NamesChild doc_root result) (r : Reader Pieces) :
    PartStays doc_root temp
      (parse_part sha256_hex env doc_root upload_max_bytes boundary temp' result r) := by
  unfold parse_part
  split
  · exact .of_fail h hresult _ _ _
  · exact .of_fail h hresult _ _ _
  split
  · exact .of_fail h hresult _ _ _
  dsimp only
  split
  · exact parse_file_part_stays htoken h hresult _ _ _ _
  · exact parse_text_part_stays h hresult _ _

theorem parse_loop_stays (htoken : IsHex env.token) (fuel : ℕ) (h : InTempRoot doc_root temp temp')
    (hresult : NamesChild doc_root result) (r : Reader Pieces) :
    InTempRoot doc_root temp
      (parse_loop sha256_hex env doc_root upload_max_bytes boundary fuel temp' result r).1 := by
  induction fuel generalizing temp' result r with
  | zero => exact h.fail hresult _ _ _
  | succ fuel ih =>
    have hpart : PartStays doc_root temp
        (parse_part sha256_hex env doc_root upload_max_bytes boundary temp' result r) :=
      parse_part_stays htoken h hresult r
    unfold parse_loop
    generalize parse_part sha256_hex env doc_root upload_max_bytes boundary temp' result r = out
      at hpart ⊢
    obtain ⟨temp₁, e | ⟨result₁, r₁, is_final⟩⟩ := out
    · exact hpart.files
    have hnamed := hpart.result _ rfl
    cases is_final with
    | false => exact ih hpart.files hnamed r₁
    | true =>
      dsimp only
      split
      · exact hpart.files.fail hnamed _ _ _
      · exact hpart.files

theorem parse_spooled_stays (htoken : IsHex env.token) (spool_path content_type : Bytes)
    (temp : Temp) :
    InTempRoot doc_root temp (parse_spooled_multipart sha256_hex env spool_path content_type
      doc_root upload_max_bytes temp).1 := by
  have hsame : InTempRoot doc_root temp temp := fun _ hchanged => absurd rfl hchanged
  have hinit : NamesChild doc_root .init := .inl rfl
  have hfail : ∀ (status : ℤ) (title message : Bytes), InTempRoot doc_root temp
      (fail temp .init status title message : Parse ParseResult).1 :=
    fun _ _ _ => hsame.fail hinit _ _ _
  unfold parse_spooled_multipart
  split
  · exact hfail _ _ _
  split
  · exact hfail _ _ _
  split
  · exact hfail _ _ _
  split
  · exact hfail _ _ _
  split
  · exact hfail _ _ _
  · exact hfail _ _ _
  split
  · exact hfail _ _ _
  · exact parse_loop_stays htoken _ hsame hinit _

end Temp

/-- **Uploads stay in their directories.** Whatever name the client gives, the stored name
has no separator, does not start with a dot and has at most 117 bytes, so the file is
put into `uploads` itself; and every temp file a multipart body makes or removes is one of
`uploads/.tmp` itself. -/
theorem uploads_stay {K : Type} [DecidableEq K] (key : Bytes → K) (sha256_hex : Bytes → Bytes)
    (doc_root : Bytes) :
    (∀ (db : Db) (owner requested_name : Bytes) (folder_id ignore_file_id : ℤ)
        (name_ok : ℕ → Bool) (token : Bytes) (payload : UploadPayload), token ≠ [] → IsHex token →
      payload.filename = ensure_unique_owned_filename key db owner requested_name folder_id
        ignore_file_id name_ok →
      payload.sha256.length = 64 → IsHex payload.sha256 →
        StoredName (new_stored_name token payload) ∧
          Child (storage_root doc_root) (file_path doc_root (new_stored_name token payload))) ∧
      ∀ (env : Env) (spool_path content_type : Bytes) (upload_max_bytes : ℕ) (temp : Temp),
        IsHex env.token → ∀ path, (parse_spooled_multipart sha256_hex env spool_path content_type
          doc_root upload_max_bytes temp).1 path ≠ temp path → Child (temp_root doc_root) path := by
  constructor
  · intro db owner requested_name folder_id ignore_file_id name_ok token payload hne htoken hname
      _ hdigest
    have hext := length_unique_extension key db owner requested_name folder_id ignore_file_id
      name_ok
    rw [← hname] at hext
    have hstored := new_stored_name_stays hne htoken hdigest hext
    exact ⟨hstored, hstored.child doc_root⟩
  · intro env spool_path content_type upload_max_bytes temp htoken
    exact parse_spooled_stays htoken spool_path content_type temp

/-- An upload under a name with a slash between two dots, into an empty store. -/
def slashed_upload : UploadPayload where
  filename := ensure_unique_owned_filename (id : Bytes → Bytes) ⟨[], [], [], [], 1, 1⟩ (lit "u")
    [46, 0xC3, 47, 46, 112] 0 0 fun _ => true
  content := []
  content_type := []
  temp_path := []
  sha256 := List.replicate 64 48
  folder_id := 0
  size := 0
  use_temp_file := false

theorem slashed_upload_stays :
    slashed_upload.filename = [46, 0xC3, 47, 46, 112] ∧
      StoredName (new_stored_name (lit "0a") slashed_upload) := by
  have hhex : IsHex (lit "0a") := by
    unfold IsHex
    decide +kernel
  have hzeros : IsHex slashed_upload.sha256 := by
    intro b hb
    rw [eq_of_mem_replicate hb]
    decide
  refine ⟨by decide +kernel, ?_⟩
  exact ((uploads_stay (id : Bytes → Bytes) id (lit "/srv")).1 ⟨[], [], [], [], 1, 1⟩ (lit "u")
    [46, 0xC3, 47, 46, 112] 0 0 (fun _ => true) (lit "0a") slashed_upload (by decide) hhex rfl rfl
    hzeros).1

end AtlasWebServer.StoredNames
