/-
The temp files of a connection.

A streamed request has up to two of them: `body-*.tmp`, into which the body is spooled, and
`upload-*`, into which the multipart parser writes the file. The connection has a name for
each, and `cleanup_temp_upload_state` removes what it has names for. So every temp file has
to have a name at all times (`Accounted`), or nobody removes it.

A name is lost in three ways. The head of a spooled request opens a new file while the name
of the last one still stands; a parse succeeds while the name of the last upload still
stands; or the context of the digest cannot be allocated once the file is there. The first
two need a second request without an `init` in between: one whose head fills the largest ring
while the response to the last one is still to be sent.

`temp_uploads_accounted_iff` says that these are all the ways. As long as none of them
happens, `init` and `close_conn` leave no temp file, and neither touches `uploads`.
-/
import AtlasWebServer.ConnectionRuntime
import AtlasWebServer.MultipartCleanup

set_option autoImplicit false

open AtlasWebServer.Bytes AtlasWebServer.CString AtlasWebServer.RingBuffer AtlasWebServer.Http
open AtlasWebServer.StepSystem AtlasWebServer.FileNames
open AtlasWebServer.FileStore (Db Disk)

/-! ## What an upload does to its temp file -/

namespace AtlasWebServer.FileStore

variable {K : Type} [DecidableEq K] (key : Bytes → K) (sha256_hex : Bytes → Bytes)

/-- What placing a payload does to the temp files: its own is gone, and no other. -/
def PlacedTemp (d : Disk) (payload : UploadPayload) (d' : Disk) : Prop :=
  d'.temp = if payload.use_temp_file then Function.update d.temp payload.temp_path none else d.temp

theorem materialize_temp (d : Disk) (payload : UploadPayload) (stored_name : Bytes) :
    PlacedTemp d payload (materialize_upload_payload d payload stored_name) := by
  unfold PlacedTemp materialize_upload_payload
  split <;> rfl

theorem place_existing_temp (db : Db) (d : Disk) (payload : UploadPayload)
    (p : Tables.PhysicalFileRow) :
    PlacedTemp d payload (place_existing db d payload p).disk := by
  unfold place_existing reuse_physical_file
  split
  · unfold PlacedTemp
    split <;> rfl
  · exact materialize_temp d payload _

variable {db : Db} {payload : UploadPayload} {e : UploadEvent}

theorem place_physical_file_temp {d : Disk} {stored_name_start : Bytes} {placed : Placed}
    (h : place_physical_file key db d stored_name_start payload e = some placed) :
    PlacedTemp d payload placed.disk := by
  rcases place_physical_file_cases h with ⟨p, -, -, rfl⟩ | ⟨-, -, rfl⟩
  · exact place_existing_temp db d payload p
  · exact materialize_temp d payload _

theorem upload_checks_file {args : UploadArgs}
    (h : upload_checks key sha256_hex db args e = .ok payload) :
    payload.temp_path = args.payload.temp_path ∧
      payload.use_temp_file = args.payload.use_temp_file := by
  have hdigest : (payload_with_digest sha256_hex args.payload).temp_path = args.payload.temp_path ∧
      (payload_with_digest sha256_hex args.payload).use_temp_file =
        args.payload.use_temp_file := by
    unfold payload_with_digest
    split <;> exact ⟨rfl, rfl⟩
  rw [(FileStore.upload_checks_spec h).2]
  exact hdigest

theorem create_uploaded_file_temp (db : Db) (d : Disk) (args : UploadArgs) (e : UploadEvent) :
    PlacedTemp d args.payload (create_uploaded_file key sha256_hex db d args e).disk ∨
      (create_uploaded_file key sha256_hex db d args e).disk.temp = d.temp ∧
        (create_uploaded_file key sha256_hex db d args e).result.isOk = false := by
  have hplacing : ∀ {payload placed}, upload_checks key sha256_hex db args e = .ok payload →
      place_physical_file key db d args.stored_name_prefix payload e = some placed →
      PlacedTemp d args.payload placed.disk := by
    intro payload placed hchecks hplaced
    obtain ⟨hpath, huse⟩ := upload_checks_file key sha256_hex hchecks
    have htemp := place_physical_file_temp key hplaced
    unfold PlacedTemp at htemp ⊢
    rw [hpath, huse] at htemp
    exact htemp
  have houtcome := create_uploaded_file_outcome key sha256_hex db d args e
  generalize create_uploaded_file key sha256_hex db d args e = r at houtcome ⊢
  cases houtcome with
  | refused error => exact .inr ⟨rfl, rfl⟩
  | rolled_back after disk error hchecks hplaced hfile hphysical hdisk =>
    -- what is removed here is not a temp file
    rcases hdisk with rfl | ⟨-, rfl⟩ <;> exact .inl (hplacing hchecks hplaced)
  | stored db' file_id result hchecks hplaced hinsert => exact .inl (hplacing hchecks hplaced)

end AtlasWebServer.FileStore

namespace AtlasWebServer.Runtime

variable {s s' : Server} {path : Bytes} {code : HttpCode} {l : Label}

/-! ## Names -/

/-- The connection has a name for the file. -/
def Named (c : Connection) (path : Bytes) : Prop :=
  path ≠ [] ∧ (path = c.m_stream_body_tmp_path ∨ path = c.upload.temp_path)

def Accounted (s : Server) : Prop := ∀ path, s.disk.temp path ≠ none → Named s.connection path

/-- A temp file the connection has no name for. -/
structure Lost (s : Server) (path : Bytes) : Prop where
  ne_nil : path ≠ []
  there : s.disk.temp path ≠ none
  not_stream : path ≠ s.connection.m_stream_body_tmp_path
  not_upload : path ≠ s.connection.upload.temp_path

theorem Lost.not_accounted (h : Lost s path) : ¬ Accounted s := by
  intro hall
  obtain ⟨-, hstream | hupload⟩ := hall path h.there
  · exact h.not_stream hstream
  · exact h.not_upload hupload

section Files

variable (cfg : Config)

def body_start : Bytes := Multipart.temp_root cfg.doc_root ++ lit "/body-"

/-- How the path of an upload's temp file starts. -/
def upload_start : Bytes := Multipart.upload_start cfg.doc_root

def Connection.is_capturing (c : Connection) : Bool := c.parser.body.m_stream_body_file.isSome

/-- The names are names of temp files. -/
structure Formed (c : Connection) : Prop where
  stream : c.m_stream_body_tmp_path = [] ∨ body_start cfg <+: c.m_stream_body_tmp_path
  upload : c.upload.temp_path = [] ∨ upload_start cfg <+: c.upload.temp_path

/-- The files are accounted for. A connection that is closed has no names. -/
structure Inv (s : Server) : Prop where
  named : Accounted s
  formed : Formed cfg s.connection
  capturing : s.connection.is_capturing = true → s.connection.m_stream_body_tmp_path ≠ []
  live : s.reading = true → s.connection.is_open = true
  closed : s.connection.is_open = false → s.connection.m_stream_body_tmp_path = [] ∧
    s.connection.upload.temp_path = [] ∧ s.connection.is_capturing = false

/-- What the invariant is about is the same. -/
structure SameFiles (s s' : Server) : Prop where
  temp : s'.disk.temp = s.disk.temp
  stream : s'.connection.m_stream_body_tmp_path = s.connection.m_stream_body_tmp_path
  upload : s'.connection.upload.temp_path = s.connection.upload.temp_path
  capturing : s'.connection.is_capturing = s.connection.is_capturing
  is_open : s'.connection.is_open = s.connection.is_open
  reading : s'.reading = true → s.reading = true

variable {cfg}

theorem Inv.same (h : Inv cfg s) (hsame : SameFiles s s') : Inv cfg s' := by
  obtain ⟨htemp, hstream, hupload, hcapturing, hopen, hreading⟩ := hsame
  refine ⟨?_, ⟨?_, ?_⟩, ?_, ?_, ?_⟩
  · intro path hpath
    rw [htemp] at hpath
    unfold Named
    rw [hstream, hupload]
    exact h.named path hpath
  · rw [hstream]
    exact h.formed.stream
  · rw [hupload]
    exact h.formed.upload
  · rw [hcapturing, hstream]
    exact h.capturing
  · rw [hopen]
    exact fun hr => h.live (hreading hr)
  · rw [hopen, hstream, hupload, hcapturing]
    exact h.closed

theorem Lost.same (h : Lost s path) (hsame : SameFiles s s') :
    Lost s' path where
  ne_nil := h.ne_nil
  there := by rw [hsame.temp]; exact h.there
  not_stream := by rw [hsame.stream]; exact h.not_stream
  not_upload := by rw [hsame.upload]; exact h.not_upload

theorem body_ne_upload (hbody : body_start cfg <+: path) : ¬ upload_start cfg <+: path := by
  rintro ⟨tail, rfl⟩
  obtain ⟨tail', h⟩ := hbody
  unfold body_start upload_start Multipart.upload_start at h
  rw [List.append_assoc, List.append_assoc, List.append_cancel_left_eq] at h
  have hb : lit "/body-" = [47, 98, 111, 100, 121, 45] := by decide
  have hu : lit "/upload-" = [47, 117, 112, 108, 111, 97, 100, 45] := by decide
  rw [hb, hu] at h
  simp only [List.cons_append, List.cons.injEq] at h
  exact absurd h.2.1 (by decide)

theorem body_start_ne_nil : body_start cfg ≠ [] := by
  intro h
  exact absurd (List.append_eq_nil_iff.mp h).2 (by decide)

theorem body_path_formed (a : Answers) : body_start cfg <+: body_path cfg a := by
  unfold body_start body_path
  rw [List.append_assoc]
  exact List.prefix_append _ _

theorem body_path_ne_nil (a : Answers) : body_path cfg a ≠ [] :=
  Multipart.ne_nil_of_start body_start_ne_nil (body_path_formed a)

/-! ## Removing files -/

theorem unlink_temp (d : Disk) (h : body_start cfg <+: path ∨ upload_start cfg <+: path) :
    unlink cfg d path = d.remove_temp path := by
  have hslash : Multipart.temp_root cfg.doc_root ++ lit "/" <+: path := by
    have hb : lit "/body-" = lit "/" ++ lit "body-" := by decide
    have hu : lit "/upload-" = lit "/" ++ lit "upload-" := by decide
    rcases h with h | h
    · refine List.IsPrefix.trans ?_ h
      unfold body_start
      rw [hb, ← List.append_assoc]
      exact List.prefix_append _ _
    refine List.IsPrefix.trans ?_ h
    unfold upload_start Multipart.upload_start
    rw [hu, ← List.append_assoc]
    exact List.prefix_append _ _
  unfold unlink
  rw [if_pos hslash]

theorem unlink_nil (d : Disk) : unlink cfg d [] = d := by
  have hnot : ∀ root tail : Bytes, tail ≠ [] → ¬ root ++ tail <+: [] := by
    intro root tail htail h
    exact htail (List.append_eq_nil_iff.mp (List.prefix_nil.mp h)).2
  unfold unlink
  rw [if_neg (hnot _ _ (by decide)), if_neg (hnot _ _ (by decide))]

theorem unlink_spec (d : Disk) (h : path = [] ∨ body_start cfg <+: path ∨ upload_start cfg <+: path)
    (other : Bytes) :
    (unlink cfg d path).temp other =
        (if other ≠ [] ∧ other = path then none else d.temp other) ∧
      (unlink cfg d path).uploads = d.uploads := by
  by_cases hnil : path = []
  · rw [if_neg fun hother => hother.1 (hother.2.trans hnil), hnil, unlink_nil]
    exact ⟨rfl, rfl⟩
  rw [unlink_temp d (h.resolve_left hnil)]
  refine ⟨?_, rfl⟩
  by_cases hother : other = path
  · rw [if_pos ⟨hother ▸ hnil, hother⟩, hother]
    exact Function.update_self _ _ _
  · rw [if_neg fun h => hother h.2]
    exact Function.update_of_ne hother _ _

theorem cleanup_eq (s : Server) : (cleanup_temp_upload_state cfg s).disk =
    unlink cfg (unlink cfg s.disk s.connection.m_stream_body_tmp_path)
      s.connection.upload.temp_path := by
  have hclear : ∀ (d : Disk) (path : Bytes),
      (if path = [] then d else unlink cfg d path) = unlink cfg d path := by
    intro d path
    by_cases hnil : path = []
    · rw [if_pos hnil, hnil, unlink_nil]
    · rw [if_neg hnil]
  unfold cleanup_temp_upload_state
  dsimp only
  rw [hclear, hclear]

variable {c : Connection} {a : Answers} {r : Result}

theorem Formed.stream_form (h : Formed cfg c) : c.m_stream_body_tmp_path = [] ∨
    body_start cfg <+: c.m_stream_body_tmp_path ∨ upload_start cfg <+: c.m_stream_body_tmp_path :=
  h.stream.imp_right .inl

theorem Formed.upload_form (h : Formed cfg c) : c.upload.temp_path = [] ∨
    body_start cfg <+: c.upload.temp_path ∨ upload_start cfg <+: c.upload.temp_path :=
  h.upload.imp_right .inr

theorem cleanup_disk (h : Formed cfg s.connection) :
    (∀ path, Named s.connection path → (cleanup_temp_upload_state cfg s).disk.temp path = none) ∧
      (∀ path, ¬ Named s.connection path →
        (cleanup_temp_upload_state cfg s).disk.temp path = s.disk.temp path) ∧
      (cleanup_temp_upload_state cfg s).disk.uploads = s.disk.uploads := by
  have hstream := unlink_spec s.disk h.stream_form
  have hupload := unlink_spec (unlink cfg s.disk s.connection.m_stream_body_tmp_path) h.upload_form
  rw [cleanup_eq]
  refine ⟨?_, ?_, (hupload []).2.trans (hstream []).2⟩
  · rintro path ⟨hne, hpath⟩
    rw [(hupload path).1]
    by_cases heq : path = s.connection.upload.temp_path
    · exact if_pos ⟨hne, heq⟩
    · rw [if_neg fun h => heq h.2, (hstream path).1, if_pos ⟨hne, hpath.resolve_right heq⟩]
  · intro path hnamed
    rw [(hupload path).1, if_neg fun h => hnamed ⟨h.1, .inr h.2⟩, (hstream path).1,
      if_neg fun h => hnamed ⟨h.1, .inl h.2⟩]

theorem Inv.cleanup (h : Inv cfg s) (path : Bytes) :
    (cleanup_temp_upload_state cfg s).disk.temp path = none := by
  obtain ⟨hnamed, hother, -⟩ := cleanup_disk h.formed
  by_cases hpath : Named s.connection path
  · exact hnamed path hpath
  · rw [hother path hpath]
    by_contra hthere
    exact hpath (h.named path hthere)

theorem Lost.cleanup (h : Lost s path) (hformed : Formed cfg s.connection) :
    Lost (cleanup_temp_upload_state cfg s) path := by
  have hnamed : ¬ Named s.connection path := by
    rintro ⟨-, hstream | hupload⟩
    · exact h.not_stream hstream
    · exact h.not_upload hupload
  refine ⟨h.ne_nil, ?_, h.ne_nil, h.ne_nil⟩
  rw [(cleanup_disk hformed).2.1 path hnamed]
  exact h.there

theorem inv_of_none (htemp : ∀ path, s.disk.temp path = none)
    (hstream : s.connection.m_stream_body_tmp_path = [])
    (hupload : s.connection.upload.temp_path = []) (hcapturing : s.connection.is_capturing = false)
    (hlive : s.reading = true → s.connection.is_open = true) : Inv cfg s where
  named := fun path hpath => absurd (htemp path) hpath
  formed := ⟨.inl hstream, .inl hupload⟩
  capturing := fun h => by rw [hcapturing] at h; contradiction
  live := hlive
  closed := fun _ => ⟨hstream, hupload, hcapturing⟩

theorem Inv.init (h : Inv cfg s) :
    Inv cfg (s.init cfg) ∧ (∀ path, (s.init cfg).disk.temp path = none) ∧
      (s.init cfg).disk.uploads = s.disk.uploads :=
  ⟨inv_of_none h.cleanup rfl rfl rfl h.live, h.cleanup, (cleanup_disk h.formed).2.2⟩

theorem Inv.none_of_closed (h : Inv cfg s) (hclosed : s.connection.is_open = false) (path : Bytes) :
    s.disk.temp path = none := by
  obtain ⟨hstream, hupload, -⟩ := h.closed hclosed
  by_contra hthere
  obtain ⟨hne, hpath⟩ := h.named path hthere
  rw [hstream, hupload, or_self] at hpath
  exact hne hpath

theorem Inv.close_conn (h : Inv cfg s) (hreading : s.reading = false) :
    Inv cfg (close_conn cfg s) ∧ (∀ path, (close_conn cfg s).disk.temp path = none) ∧
      (close_conn cfg s).disk.uploads = s.disk.uploads := by
  unfold Runtime.close_conn
  by_cases hopen : s.connection.is_open = false
  · rw [if_pos hopen]
    exact ⟨h, h.none_of_closed hopen, rfl⟩
  rw [if_neg hopen]
  refine ⟨inv_of_none h.cleanup rfl rfl rfl ?_, h.cleanup, (cleanup_disk h.formed).2.2⟩
  intro hr
  exact nomatch hreading.symm.trans hr

theorem Lost.close_conn (h : Lost s path) (hformed : Formed cfg s.connection) :
    Lost (close_conn cfg s) path := by
  unfold Runtime.close_conn
  split
  · exact h
  · have hlost := h.cleanup hformed
    exact ⟨hlost.ne_nil, hlost.there, hlost.ne_nil, hlost.ne_nil⟩

/-! ## The parser -/

theorem spooled_connection (s : Server) : s.spooled.connection = s.connection := by
  unfold Server.spooled
  split <;> rfl

theorem spooled_reading (s : Server) : s.spooled.reading = s.reading := by
  unfold Server.spooled
  split <;> rfl

theorem spooled_temp (s : Server)
    (h : s.connection.is_capturing = true → path ≠ s.connection.m_stream_body_tmp_path) :
    s.spooled.disk.temp path = s.disk.temp path := by
  unfold Server.spooled
  unfold Connection.is_capturing at h
  split
  · rfl
  · rename_i heq
    rw [heq] at h
    exact Function.update_of_ne (h rfl) _ _

theorem Lost.spooled (h : Lost s path) : Lost s.spooled path := by
  refine ⟨h.ne_nil, ?_, ?_, ?_⟩
  · rw [spooled_temp s fun _ => h.not_stream]
    exact h.there
  · rw [spooled_connection]
    exact h.not_stream
  · rw [spooled_connection]
    exact h.not_upload

theorem Inv.spooled (h : Inv cfg s) : Inv cfg s.spooled := by
  refine ⟨?_, ?_, ?_, ?_, ?_⟩
  · intro path hpath
    rw [spooled_connection]
    by_cases hstream : s.connection.is_capturing = true ∧
        path = s.connection.m_stream_body_tmp_path
    · exact ⟨hstream.2 ▸ h.capturing hstream.1, .inl hstream.2⟩
    · rw [spooled_temp s fun hc heq => hstream ⟨hc, heq⟩] at hpath
      exact h.named path hpath
  · rw [spooled_connection]
    exact h.formed
  · rw [spooled_connection]
    exact h.capturing
  · rw [spooled_connection, spooled_reading]
    exact h.live
  · rw [spooled_connection]
    exact h.closed

theorem Inv.with_conn (h : Inv cfg s) {parser : Conn}
    (hfile : parser.body.m_stream_body_file.isSome = s.connection.is_capturing) :
    Inv cfg (s.with_conn parser) := by
  apply Inv.spooled
  exact h.same ⟨rfl, rfl, rfl, hfile, rfl, id⟩

theorem parsed_connection (a : Answers) (s : Server) (r : Result) :
    (s.parsed cfg a r).connection = { s.connection with
      parser := r.1
      m_stream_body_tmp_path := spool_path cfg a s.connection.m_stream_body_tmp_path
        s.connection.parser.body r } :=
  spooled_connection _

theorem parsed_reading (cfg : Config) (a : Answers) (s : Server) (r : Result) :
    (s.parsed cfg a r).reading = s.reading := spooled_reading _

theorem spool_path_formed (a : Answers) (r : Result) (h : Formed cfg c) :
    spool_path cfg a c.m_stream_body_tmp_path c.parser.body r = [] ∨
      body_start cfg <+: spool_path cfg a c.m_stream_body_tmp_path c.parser.body r := by
  unfold spool_path
  split
  · exact h.stream
  split
  · exact .inr (body_path_formed a)
  · split
    · exact .inl rfl
    · exact h.stream

theorem spool_path_ne_nil (h : Inv cfg s) (hopen : r.1.body.m_stream_body_file.isSome = true) :
    spool_path cfg a s.connection.m_stream_body_tmp_path s.connection.parser.body r ≠ [] := by
  unfold spool_path
  by_cases hbefore : s.connection.parser.body.m_stream_body_file.isSome = true
  · rw [if_pos hbefore]
    exact h.capturing hbefore
  · rw [if_neg hbefore, if_pos hopen]
    exact body_path_ne_nil a

/-- The parser keeps the name of a file that is there. -/
def KeepsSpool (cfg : Config) (a : Answers) (s : Server) (r : Result) : Prop :=
  s.disk.temp s.connection.m_stream_body_tmp_path = none ∨
    spool_path cfg a s.connection.m_stream_body_tmp_path s.connection.parser.body r =
      s.connection.m_stream_body_tmp_path

theorem Formed.parsed (h : Formed cfg s.connection) (a : Answers) (r : Result) :
    Formed cfg (s.parsed cfg a r).connection := by
  rw [parsed_connection]
  exact ⟨spool_path_formed a r h, h.upload⟩

theorem Inv.parsed (h : Inv cfg s) (hopen : s.connection.is_open = true)
    (hkeep : KeepsSpool cfg a s r) : Inv cfg (s.parsed cfg a r) := by
  apply Inv.spooled
  refine ⟨?_, ⟨spool_path_formed a r h.formed, h.formed.upload⟩, fun hc => spool_path_ne_nil h hc,
    h.live, fun hclosed => ?_⟩
  · intro path hpath
    obtain ⟨hne, hstream | hupload⟩ := h.named path hpath
    · refine ⟨hne, .inl ?_⟩
      rcases hkeep with hnone | heq
      · rw [← hstream] at hnone
        exact absurd hnone hpath
      · exact hstream.trans heq.symm
    · exact ⟨hne, .inr hupload⟩
  · exact nomatch hopen.symm.trans hclosed

theorem Inv.parsed_lost (h : Inv cfg s) (hkeep : ¬ KeepsSpool cfg a s r) :
    Lost (s.parsed cfg a r) s.connection.m_stream_body_tmp_path ∧
      body_start cfg <+: s.connection.m_stream_body_tmp_path := by
  unfold KeepsSpool at hkeep
  rw [not_or] at hkeep
  obtain ⟨hthere, hchanged⟩ := hkeep
  have hne := (h.named _ hthere).1
  have hbody := h.formed.stream.resolve_left hne
  refine ⟨?_, hbody⟩
  apply Lost.spooled
  refine ⟨hne, hthere, Ne.symm hchanged, ?_⟩
  rintro (hupload : s.connection.m_stream_body_tmp_path = s.connection.upload.temp_path)
  have hform := h.formed.upload
  rw [← hupload] at hform
  exact body_ne_upload hbody (hform.resolve_left hne)

/-! ## The body -/

section Body

variable (sha256_hex : Bytes → Bytes) (a : Answers)

def spool_parse (cfg : Config) (s : Server) : Multipart.Parse Multipart.ParseResult :=
  Multipart.parse_spooled_multipart sha256_hex
    (a.multipart s.disk s.connection.m_stream_body_tmp_path) s.connection.m_stream_body_tmp_path
    s.connection.parser.head.m_content_type cfg.doc_root cfg.upload_max_bytes s.disk.temp

/-- The parse keeps the name of an upload that is there. One that fails has had a context for
the digest, or has not created a file under a new name. -/
def KeepsUpload (cfg : Config) (s : Server) : Prop :=
  match spool_parse sha256_hex a cfg s with
  | (_, .ok result) => s.disk.temp s.connection.upload.temp_path = none ∨
      result.file.temp_path = s.connection.upload.temp_path
  | (temp, .error _) => a.context = true ∨ ∀ path, s.disk.temp path = none → temp path ≠ none →
      path = s.connection.upload.temp_path

theorem spool_parse_left (cfg : Config) (s : Server) :
    Multipart.ParseLeft (a.multipart s.disk s.connection.m_stream_body_tmp_path) cfg.doc_root
      s.disk.temp (spool_parse sha256_hex a cfg s) :=
  Multipart.parse_spooled_left _ _ _

variable {sha256_hex a}

theorem Inv.from_file (h : Inv cfg s) (hopen : s.connection.is_open = true)
    (hkeep : KeepsUpload sha256_hex a cfg s) :
    Inv cfg (parse_multipart_form_data_from_file sha256_hex cfg a s).1 := by
  have hleft := spool_parse_left sha256_hex a cfg s
  have hclosed : ¬ s.connection.is_open = false := by
    rw [hopen]
    exact Bool.noConfusion
  unfold KeepsUpload at hkeep
  rcases hout : spool_parse sha256_hex a cfg s with ⟨temp, out⟩
  rw [hout] at hkeep hleft
  unfold spool_parse at hout
  unfold parse_multipart_form_data_from_file
  dsimp only
  rw [hout]
  cases out with
  | error error =>
    refine ⟨?_, ⟨h.formed.stream, h.formed.upload⟩, nofun, h.live, fun hc => absurd hc hclosed⟩
    intro path hpath
    by_cases hthere : s.disk.temp path = none
    · obtain ⟨hstart, hcontext⟩ := (hleft.error error rfl).new hthere hpath
      have hname := hkeep.resolve_left (by rw [show a.context = false from hcontext]; decide)
      exact ⟨Multipart.ne_nil_of_start (Multipart.upload_start_ne_nil _) hstart,
        .inr (hname path hthere hpath)⟩
    · exact h.named path hthere
  | ok result =>
    obtain ⟨hstart, content, htemp⟩ := hleft.ok result rfl
    refine ⟨?_, ⟨.inl rfl, .inr hstart⟩, nofun, h.live, fun hc => absurd hc hclosed⟩
    intro path hpath
    rw [(unlink_spec _ h.formed.stream_form path).1] at hpath
    split at hpath
    · exact absurd rfl hpath
    rename_i hother
    dsimp only at htemp hpath
    rw [htemp] at hpath
    by_cases hnew : path = result.file.temp_path
    · exact ⟨hnew ▸ Multipart.ne_nil_of_start (Multipart.upload_start_ne_nil _) hstart, .inr hnew⟩
    rw [Function.update_of_ne hnew] at hpath
    obtain ⟨hne, hstream | hupload⟩ := h.named path hpath
    · exact absurd ⟨hne, hstream⟩ hother
    rcases hkeep with hnone | hsame
    · rw [← hupload] at hnone
      exact absurd hnone hpath
    · exact absurd (hupload.trans hsame.symm) hnew

theorem Lost.from_file (h : Lost s path) (hbody : body_start cfg <+: path)
    (hformed : Formed cfg s.connection) :
    Lost (parse_multipart_form_data_from_file sha256_hex cfg a s).1 path := by
  have hleft := spool_parse_left sha256_hex a cfg s
  have hnot : ¬ Multipart.upload_start cfg.doc_root <+: path := body_ne_upload hbody
  rcases hout : spool_parse sha256_hex a cfg s with ⟨temp, out⟩
  rw [hout] at hleft
  unfold spool_parse at hout
  unfold parse_multipart_form_data_from_file
  dsimp only
  rw [hout]
  cases out with
  | error error =>
    refine ⟨h.ne_nil, ?_, h.not_stream, h.not_upload⟩
    have hsame := (hleft.error error rfl).frame hnot
    dsimp only at hsame ⊢
    rw [hsame]
    exact h.there
  | ok result =>
    obtain ⟨hstart, content, htemp⟩ := hleft.ok result rfl
    have hnew : path ≠ result.file.temp_path := by
      rintro rfl
      exact hnot hstart
    refine ⟨h.ne_nil, ?_, h.ne_nil, hnew⟩
    rw [(unlink_spec _ hformed.stream_form path).1, if_neg fun heq => h.not_stream heq.2]
    dsimp only at htemp ⊢
    rw [htemp, Function.update_of_ne hnew]
    exact h.there

theorem Inv.from_file_lost (h : Inv cfg s) (hkeep : ¬ KeepsUpload sha256_hex a cfg s) :
    ∃ path, Lost (parse_multipart_form_data_from_file sha256_hex cfg a s).1 path := by
  have hleft := spool_parse_left sha256_hex a cfg s
  unfold KeepsUpload at hkeep
  rcases hout : spool_parse sha256_hex a cfg s with ⟨temp, out⟩
  rw [hout] at hkeep hleft
  unfold spool_parse at hout
  unfold parse_multipart_form_data_from_file
  dsimp only
  rw [hout]
  cases out with
  | error error =>
    push Not at hkeep
    obtain ⟨-, path, hnone, hthere, hother⟩ := hkeep
    obtain ⟨hstart, -⟩ := (hleft.error error rfl).new hnone hthere
    have hne : path ≠ [] := Multipart.ne_nil_of_start (Multipart.upload_start_ne_nil _) hstart
    refine ⟨path, hne, hthere, ?_, hother⟩
    rintro rfl
    exact body_ne_upload (h.formed.stream.resolve_left hne) hstart
  | ok result =>
    rw [not_or] at hkeep
    obtain ⟨hthere, hchanged⟩ := hkeep
    obtain ⟨hstart, content, htemp⟩ := hleft.ok result rfl
    have hne := (h.named _ hthere).1
    refine ⟨s.connection.upload.temp_path, hne, ?_, hne, Ne.symm hchanged⟩
    have hstream : s.connection.upload.temp_path ≠ s.connection.m_stream_body_tmp_path := by
      intro heq
      have hform := h.formed.stream
      rw [← heq] at hform
      exact body_ne_upload (hform.resolve_left hne) (h.formed.upload.resolve_left hne)
    rw [(unlink_spec _ h.formed.stream_form _).1, if_neg fun heq => hstream heq.2]
    dsimp only at htemp ⊢
    rw [htemp, Function.update_of_ne (Ne.symm hchanged)]
    exact hthere

theorem Formed.from_file (h : Formed cfg s.connection) :
    Formed cfg (parse_multipart_form_data_from_file sha256_hex cfg a s).1.connection := by
  have hleft := spool_parse_left sha256_hex a cfg s
  rcases hout : spool_parse sha256_hex a cfg s with ⟨temp, out⟩
  rw [hout] at hleft
  unfold spool_parse at hout
  unfold parse_multipart_form_data_from_file
  dsimp only
  rw [hout]
  cases out with
  | error error => exact ⟨h.stream, h.upload⟩
  | ok result => exact ⟨.inl rfl, .inr (hleft.ok result rfl).1⟩

def ReadsSpool (s : Server) : Prop :=
  s.connection.parser.head.m_method = .POST ∧ s.connection.is_spooled = true

theorem cleared_same (s : Server) : SameFiles s { s with connection := s.connection.clear_post } :=
  ⟨rfl, rfl, rfl, rfl, rfl, id⟩

theorem parse_body_same (s : Server) :
    SameFiles s { s with connection := s.connection.parse_body.1 } := by
  unfold Connection.parse_body
  dsimp only
  repeat' split
  all_goals exact ⟨rfl, rfl, rfl, rfl, rfl, id⟩

theorem body_error_same (s : Server) :
    SameFiles s { s with connection := (body_error s.connection).1 } := by
  unfold body_error
  dsimp only
  split <;> exact ⟨rfl, rfl, rfl, rfl, rfl, id⟩

theorem SameFiles.formed (hsame : SameFiles s s') (h : Formed cfg s.connection) :
    Formed cfg s'.connection := by
  refine ⟨?_, ?_⟩
  · rw [hsame.stream]
    exact h.stream
  · rw [hsame.upload]
    exact h.upload

end Body

/-! ## The router -/

section Router

variable {K : Type} [DecidableEq K] (key : Bytes → K) (sha256_hex : Bytes → Bytes)
  (app : Application)

theorem handle_request_temp (request : HttpRequest) (context : RequestContext) (db : Db)
    (d : Disk) :
    (handle_request key sha256_hex app request context db d).disk.temp =
        Function.update d.temp request.upload.temp_path none ∧ request.upload.temp_path ≠ [] ∨
      (handle_request key sha256_hex app request context db d).disk.temp = d.temp ∧
        (handle_request key sha256_hex app request context db d).released = false := by
  unfold handle_request
  split
  · exact .inr ⟨rfl, rfl⟩
  rename_i form current_user e answer _
  dsimp only
  generalize hpayload : upload_payload form request = payload
  have hcreate := FileStore.create_uploaded_file_temp key sha256_hex db d
    ⟨current_user, form.name_token, payload, form.is_public, form.quota⟩ e
  unfold upload_payload at hpayload
  by_cases hfile : request.upload.has_file = true
  · rw [if_pos hfile] at hpayload
    rw [← hpayload] at hcreate ⊢
    rcases hcreate with htemp | ⟨htemp, hfailed⟩
    · exact .inl ⟨htemp, of_decide_eq_true hfile⟩
    · refine .inr ⟨htemp, ?_⟩
      rw [hfailed]
      rfl
  · rw [if_neg hfile] at hpayload
    rw [← hpayload] at hcreate ⊢
    rcases hcreate with htemp | ⟨htemp, -⟩
    · exact .inr ⟨htemp, Bool.and_false _⟩
    · exact .inr ⟨htemp, Bool.and_false _⟩

theorem dispatch_stream (cfg : Config) (a : Answers) (s : Server) :
    (dispatch key sha256_hex cfg app a s).1.connection.m_stream_body_tmp_path =
        s.connection.m_stream_body_tmp_path ∧
      (dispatch key sha256_hex cfg app a s).1.connection.is_capturing = s.connection.is_capturing ∧
      (dispatch key sha256_hex cfg app a s).1.connection.is_open = s.connection.is_open := by
  unfold dispatch release_consumed_temp_uploads
  dsimp only
  split <;> exact ⟨rfl, rfl, rfl⟩

theorem dispatch_upload (cfg : Config) (a : Answers) (s : Server) :
    (dispatch key sha256_hex cfg app a s).1.connection.upload.temp_path =
        s.connection.upload.temp_path ∨
      (dispatch key sha256_hex cfg app a s).1.connection.upload.temp_path = [] ∧
        (dispatch key sha256_hex cfg app a s).1.disk.temp s.connection.upload.temp_path = none := by
  have htemp := handle_request_temp key sha256_hex app (build_request a s.connection)
    (build_request_context cfg a s.connection (build_request a s.connection)) s.db s.disk
  unfold dispatch release_consumed_temp_uploads
  dsimp only
  split
  · rename_i hreleased
    refine .inr ⟨rfl, ?_⟩
    rcases htemp with ⟨htemp, -⟩ | ⟨-, hnot⟩
    · rw [htemp]
      exact Function.update_self _ _ _
    · rw [hnot] at hreleased
      exact absurd hreleased.1 Bool.false_ne_true
  · exact .inl rfl

theorem dispatch_temp (a : Answers) (s : Server) :
    ((dispatch key sha256_hex cfg app a s).1.disk.temp path ≠ none → s.disk.temp path ≠ none) ∧
      (path ≠ s.connection.upload.temp_path →
        (dispatch key sha256_hex cfg app a s).1.disk.temp path = s.disk.temp path) := by
  have htemp := handle_request_temp key sha256_hex app (build_request a s.connection)
    (build_request_context cfg a s.connection (build_request a s.connection)) s.db s.disk
  have hdisk : (dispatch key sha256_hex cfg app a s).1.disk = (handle_request key sha256_hex app
      (build_request a s.connection)
      (build_request_context cfg a s.connection (build_request a s.connection)) s.db s.disk).disk :=
    rfl
  rw [hdisk]
  rcases htemp with ⟨htemp, -⟩ | ⟨htemp, -⟩
  · rw [htemp]
    refine ⟨fun hpath => ?_, fun hne => Function.update_of_ne hne _ _⟩
    by_cases heq : path = (build_request a s.connection).upload.temp_path
    · rw [heq, Function.update_self] at hpath
      exact absurd rfl hpath
    · rwa [Function.update_of_ne heq] at hpath
  · rw [htemp]
    exact ⟨id, fun _ => rfl⟩

variable {key sha256_hex app}

theorem Inv.dispatch (h : Inv cfg s) (hopen : s.connection.is_open = true) (a : Answers) :
    Inv cfg (dispatch key sha256_hex cfg app a s).1 := by
  obtain ⟨hstream, hcapturing, hopen'⟩ := dispatch_stream key sha256_hex app cfg a s
  have hupload := dispatch_upload key sha256_hex app cfg a s
  refine ⟨?_, ⟨?_, ?_⟩, ?_, ?_, ?_⟩
  · intro path hpath
    have hbefore := (dispatch_temp key sha256_hex app a s).1 hpath
    unfold Named
    rw [hstream]
    obtain ⟨hne, hpath' | hpath'⟩ := h.named path hbefore
    · exact ⟨hne, .inl hpath'⟩
    rcases hupload with hsame | ⟨-, hnone⟩
    · exact ⟨hne, .inr (hpath'.trans hsame.symm)⟩
    · rw [← hpath'] at hnone
      exact absurd hnone hpath
  · rw [hstream]
    exact h.formed.stream
  · rcases hupload with hsame | ⟨hnil, -⟩
    · rw [hsame]
      exact h.formed.upload
    · exact .inl hnil
  · rw [hcapturing, hstream]
    exact h.capturing
  · rw [hopen']
    exact fun _ => hopen
  · rw [hopen', hopen]
    exact nofun

theorem Lost.dispatch (h : Lost s path) (a : Answers) :
    Lost (dispatch key sha256_hex cfg app a s).1 path := by
  obtain ⟨hstream, -, -⟩ := dispatch_stream key sha256_hex app cfg a s
  refine ⟨h.ne_nil, ?_, ?_, ?_⟩
  · rw [(dispatch_temp key sha256_hex app a s).2 h.not_upload]
    exact h.there
  · rw [hstream]
    exact h.not_stream
  · rcases dispatch_upload key sha256_hex app cfg a s with hsame | ⟨hnil, -⟩
    · rw [hsame]
      exact h.not_upload
    · rw [hnil]
      exact h.ne_nil

variable (sha256_hex) in
/-- A request that reads a spool file keeps the names. -/
def KeepsRequest (cfg : Config) (a : Answers) (s : Server) : Prop :=
  ReadsSpool s → KeepsUpload sha256_hex a cfg s

theorem do_request_post (hpost : s.connection.parser.head.m_method = .POST) :
    (do_request key sha256_hex cfg app a s).1 =
      if (parse_post_body sha256_hex cfg a s).2 then
        (dispatch key sha256_hex cfg app a (parse_post_body sha256_hex cfg a s).1).1
      else
        { (parse_post_body sha256_hex cfg a s).1 with
          connection := (body_error (parse_post_body sha256_hex cfg a s).1.connection).1 } := by
  unfold do_request
  rw [hpost]
  rcases parse_post_body sha256_hex cfg a s with ⟨s', _ | _⟩
  · rfl
  · rfl

theorem do_request_cases {P : Server → Prop} (hsame : ∀ s s', SameFiles s s' → P s → P s')
    (hdispatch : ∀ s', s'.connection.is_open = s.connection.is_open → P s' →
      P (dispatch key sha256_hex cfg app a s').1) (hplain : ¬ ReadsSpool s → P s)
    (hspool : ReadsSpool s → P (parse_multipart_form_data_from_file sha256_hex cfg a
      { s with connection := s.connection.clear_post }).1) :
    P (do_request key sha256_hex cfg app a s).1 := by
  by_cases hpost : s.connection.parser.head.m_method = .POST
  · rw [do_request_post hpost]
    have hbody : P (parse_post_body sha256_hex cfg a s).1 ∧
        (parse_post_body sha256_hex cfg a s).1.connection.is_open = s.connection.is_open := by
      have hclear : s.connection.clear_post.is_spooled = s.connection.is_spooled := rfl
      unfold parse_post_body
      dsimp only
      rw [hclear]
      by_cases hspooled : s.connection.is_spooled = true
      · rw [if_pos hspooled]
        refine ⟨hspool ⟨hpost, hspooled⟩, ?_⟩
        unfold parse_multipart_form_data_from_file
        dsimp only
        split <;> rfl
      rw [if_neg hspooled]
      have hcleared := hsame _ _ (cleared_same s) (hplain fun h => hspooled h.2)
      have hparse := parse_body_same { s with connection := s.connection.clear_post }
      exact ⟨hsame _ _ hparse hcleared, hparse.is_open⟩
    split
    · exact hdispatch _ hbody.2 hbody.1
    · exact hsame _ _ (body_error_same _) hbody.1
  · have hnot : P s := hplain fun h => hpost h.1
    unfold do_request
    split
    · exact hsame s _ ⟨rfl, rfl, rfl, rfl, rfl, id⟩ hnot
    · exact hdispatch s rfl hnot
    · exact hdispatch s rfl hnot
    · exact hdispatch s rfl hnot
    · rename_i heq
      exact absurd heq hpost
    · exact hnot

theorem Inv.do_request (h : Inv cfg s) (hopen : s.connection.is_open = true)
    (hkeep : KeepsRequest sha256_hex cfg a s) : Inv cfg (do_request key sha256_hex cfg app a s).1 :=
  do_request_cases (P := Inv cfg) (fun _ _ hsame h => h.same hsame)
    (fun _ hopen' h' => h'.dispatch (hopen'.trans hopen) a) (fun _ => h)
    fun hspool => (h.same (cleared_same s)).from_file hopen (hkeep hspool)

theorem Formed.do_request (h : Formed cfg s.connection) :
    Formed cfg (do_request key sha256_hex cfg app a s).1.connection := by
  apply do_request_cases (P := fun s => Formed cfg s.connection)
    (fun _ _ hsame h => hsame.formed h) _ (fun _ => h)
    fun _ => Formed.from_file ((cleared_same s).formed h)
  intro s' _ h'
  refine ⟨?_, ?_⟩
  · rw [(dispatch_stream key sha256_hex app cfg a s').1]
    exact h'.stream
  rcases dispatch_upload key sha256_hex app cfg a s' with hsame | ⟨hnil, -⟩
  · rw [hsame]
    exact h'.upload
  · exact .inl hnil

theorem do_request_reading (a : Answers) :
    (do_request key sha256_hex cfg app a s).1.reading = true → s.reading = true := by
  apply do_request_cases (P := fun s' => s'.reading = true → s.reading = true) _ _ (fun _ => id)
  · intro _
    unfold parse_multipart_form_data_from_file
    dsimp only
    split <;> exact id
  · exact fun _ _ hsame hreading hr => hreading (hsame.reading hr)
  · exact fun _ _ hreading => hreading

theorem Lost.do_request (h : Lost s path) (hbody : body_start cfg <+: path)
    (hformed : Formed cfg s.connection) : Lost (do_request key sha256_hex cfg app a s).1 path :=
  do_request_cases (P := fun s => Lost s path) (fun _ _ hsame h => h.same hsame)
    (fun _ _ h' => h'.dispatch a) (fun _ => h)
    fun _ => (h.same (cleared_same s)).from_file hbody ((cleared_same s).formed hformed)

theorem Inv.do_request_lost (h : Inv cfg s) (hkeep : ¬ KeepsRequest sha256_hex cfg a s) :
    ∃ path, Lost (Runtime.do_request key sha256_hex cfg app a s).1 path := by
  obtain ⟨hspool, hnot⟩ := Classical.not_imp.mp hkeep
  apply do_request_cases (P := fun s => ∃ path, Lost s path)
  · rintro s s' hsame ⟨path, hlost⟩
    exact ⟨path, hlost.same hsame⟩
  · rintro s' - ⟨path, hlost⟩
    exact ⟨path, hlost.dispatch a⟩
  · exact fun hnospool => absurd hspool hnospool
  · exact fun _ => (h.same (cleared_same s)).from_file_lost hnot

/-! ## `process` -/

variable (sha256_hex) in
/-- A call of `process_read` keeps the names. -/
structure ReadKeeps (cfg : Config) (a : Answers) (s : Server) : Prop where
  spool : KeepsSpool cfg a s (Http.process_read (a.env cfg) s.connection.parser)
  request : (Http.process_read (a.env cfg) s.connection.parser).2 = .do_request →
    KeepsRequest sha256_hex cfg a
      (s.parsed cfg a (Http.process_read (a.env cfg) s.connection.parser))

theorem process_read_cases (h : process_read key sha256_hex cfg app a s = some (s', code)) :
    (Http.process_read (a.env cfg) s.connection.parser).2 ≠ .do_request ∧
        s' = s.parsed cfg a (Http.process_read (a.env cfg) s.connection.parser) ∨
      (Http.process_read (a.env cfg) s.connection.parser).2 = .do_request ∧
        s' = (do_request key sha256_hex cfg app a
          (s.parsed cfg a (Http.process_read (a.env cfg) s.connection.parser))).1 := by
  unfold process_read at h
  dsimp only at h
  split at h
  · rename_i heq
    rw [Option.some.injEq, Prod.mk.injEq] at h
    rw [heq]
    exact .inl ⟨Outcome.noConfusion, h.1.symm⟩
  · rename_i heq
    rw [Option.some.injEq] at h
    exact .inr ⟨heq, (congrArg Prod.fst h).symm⟩
  · contradiction

theorem process_read_live (h : process_read key sha256_hex cfg app a s = some (s', code)) :
    s'.reading = true → s.reading = true := by
  have hreading := parsed_reading cfg a s (Http.process_read (a.env cfg) s.connection.parser)
  rcases process_read_cases h with ⟨-, rfl⟩ | ⟨-, rfl⟩
  · exact fun hr => hreading ▸ hr
  · exact fun hr => hreading ▸ do_request_reading a hr

theorem Inv.process_read (h : Inv cfg s) (hopen : s.connection.is_open = true)
    (hkeep : ReadKeeps sha256_hex cfg a s)
    (hrun : process_read key sha256_hex cfg app a s = some (s', code)) : Inv cfg s' := by
  have hparsed := h.parsed hopen hkeep.spool
  rcases process_read_cases hrun with ⟨-, rfl⟩ | ⟨hrequest, rfl⟩
  · exact hparsed
  · apply hparsed.do_request _ (hkeep.request hrequest)
    rw [parsed_connection]
    exact hopen

theorem Inv.process_read_lost (h : Inv cfg s) (hopen : s.connection.is_open = true)
    (hkeep : ¬ ReadKeeps sha256_hex cfg a s)
    (hrun : Runtime.process_read key sha256_hex cfg app a s = some (s', code)) :
    Formed cfg s'.connection ∧ ∃ path, Lost s' path := by
  generalize hr : Http.process_read (a.env cfg) s.connection.parser = r
  have hformed : Formed cfg (s.parsed cfg a r).connection := h.formed.parsed a r
  have hcases := process_read_cases hrun
  rw [hr] at hcases
  by_cases hspool : KeepsSpool cfg a s r
  · rcases hcases with ⟨hnot, -⟩ | ⟨hrequest, rfl⟩
    · exact absurd ⟨hr ▸ hspool, fun heq => absurd (hr ▸ heq) hnot⟩ hkeep
    have hlost : ¬ KeepsRequest sha256_hex cfg a (s.parsed cfg a r) :=
      fun hk => hkeep ⟨hr ▸ hspool, fun _ => hr ▸ hk⟩
    exact ⟨hformed.do_request, (h.parsed hopen hspool).do_request_lost hlost⟩
  obtain ⟨hlost, hbody⟩ := h.parsed_lost hspool
  rcases hcases with ⟨-, rfl⟩ | ⟨-, rfl⟩
  · exact ⟨hformed, _, hlost⟩
  · exact ⟨hformed.do_request, _, hlost.do_request hbody hformed⟩

/-- The call of `process_read` in `process`, if it comes to it. -/
def process_point (a : Answers) (s : Server) : Option (Answers × Server) :=
  if s.connection.bytes_to_send > 0 ∨ s.connection.m_has_new_data = false then none else some (a, s)

/-- What follows the parser in a step keeps the names, and does not find a file that is
lost. -/
structure Carries (cfg : Config) (s s' : Server) : Prop where
  inv : Inv cfg s → Inv cfg s'
  lost : ∀ path, Formed cfg s.connection → Lost s path → Lost s' path

theorem SameFiles.carries (hsame : SameFiles s s') : Carries cfg s s' :=
  ⟨fun h => h.same hsame, fun _ _ h => h.same hsame⟩

theorem Carries.after {s₁ : Server} (hsame : SameFiles s s₁) (h : Carries cfg s₁ s') :
    Carries cfg s s' :=
  ⟨fun hinv => h.inv (hinv.same hsame),
    fun path hformed hlost => h.lost path (hsame.formed hformed) (hlost.same hsame)⟩

theorem carries_answer (hreading : s.reading = false) (h : answer_request cfg s code = some s') :
    Carries cfg s s' := by
  unfold answer_request at h
  dsimp only at h
  split at h
  · contradiction
  · cases h
    have hreset : SameFiles s { s with connection := { s.connection with
      parser := reset_request_parser_state s.connection.parser } } :=
      ⟨rfl, rfl, rfl, rfl, rfl, id⟩
    exact .after hreset ⟨fun hinv => (hinv.close_conn hreading).1,
      fun _ hformed hlost => hlost.close_conn hformed⟩
  · cases h
    exact SameFiles.carries ⟨rfl, rfl, rfl, rfl, rfl, id⟩

variable (key sha256_hex app) in
/-- How a step gets to `s'`: without the parser, or with a call of `process_read` at the
point given. -/
inductive Parses (cfg : Config) (s' : Server) : Option (Answers × Server) → Prop
  | plain (h : Inv cfg s') : Parses cfg s' none
  | call {a : Answers} {t s₁ : Server} {code : HttpCode} (h : Inv cfg t)
      (hopen : t.connection.is_open = true)
      (hread : Runtime.process_read key sha256_hex cfg app a t = some (s₁, code))
      (hcarries : Carries cfg s₁ s') : Parses cfg s' (some (a, t))

theorem Inv.process (h : Inv cfg s) (hopen : s.connection.is_open = true)
    (hreading : s.reading = false) (hrun : process key sha256_hex cfg app a s = some s') :
    Parses key sha256_hex app cfg s' (process_point a s) := by
  unfold Runtime.process at hrun
  unfold process_point
  by_cases hsend : s.connection.bytes_to_send > 0
  · rw [if_pos hsend, Option.some.injEq] at hrun
    rw [if_pos (.inl hsend), ← hrun]
    exact .plain (h.same ⟨rfl, rfl, rfl, rfl, rfl, id⟩)
  rw [if_neg hsend] at hrun
  by_cases hnew : s.connection.m_has_new_data = false
  · rw [if_pos hnew, Option.some.injEq] at hrun
    rw [if_pos (.inr hnew), ← hrun]
    exact .plain (h.same ⟨rfl, rfl, rfl, rfl, rfl, id⟩)
  rw [if_neg hnew] at hrun
  rw [if_neg (not_or.mpr ⟨hsend, hnew⟩)]
  split at hrun
  · contradiction
  rename_i s₁ code hread
  refine .call h hopen hread ?_
  have hidle : s₁.reading = false :=
    Bool.eq_false_iff.mpr fun hr => nomatch hreading.symm.trans (process_read_live hread hr)
  have hdone : SameFiles s₁ { s₁ with connection := { s₁.connection with
    m_has_new_data := false } } := ⟨rfl, rfl, rfl, rfl, rfl, id⟩
  apply Carries.after hdone
  split at hrun
  · cases hrun
    exact SameFiles.carries ⟨rfl, rfl, rfl, rfl, rfl, id⟩
  · exact carries_answer hidle hrun

/-! ## `read_once` -/

theorem ensure_read_capacity_file (c : Conn) (required_size : ℕ) :
    (ensure_read_capacity c required_size).1.body.m_stream_body_file.isSome =
      c.body.m_stream_body_file.isSome := by
  unfold ensure_read_capacity
  dsimp only
  generalize (if required_size = 0 then READ_BUFFER_INITIAL_SIZE else required_size) = size
  split_ifs
  · rfl
  · rfl
  all_goals
    split
    · rfl
    · split_ifs <;> rfl

theorem append_streamed_body_chunk_file (env : Http.Env) (h : Head) (b : Body) (data : Bytes) :
    (append_streamed_body_chunk env h b data).1.m_stream_body_file.isSome =
      b.m_stream_body_file.isSome := by
  unfold append_streamed_body_chunk
  split
  · rfl
  · rename_i file hfile
    dsimp only
    split_ifs <;> simp [hfile]

theorem flush_file (env : Http.Env) (c : Conn) :
    (flush_streamed_body_from_read_buffer env c).1.body.m_stream_body_file.isSome =
      c.body.m_stream_body_file.isSome := by
  unfold flush_streamed_body_from_read_buffer
  dsimp only
  split_ifs
  · rfl
  · rfl
  · rfl
  all_goals
    split <;> rename_i body heq
    · exact congrArg (fun r : Body × Bool => r.1.m_stream_body_file.isSome) heq ▸
        append_streamed_body_chunk_file env _ _ _
    · exact congrArg (fun r : Body × Bool => r.1.m_stream_body_file.isSome) heq ▸
        append_streamed_body_chunk_file env _ _ _

theorem Inv.flush_streamed (h : Inv cfg s) (a : Answers) : Inv cfg (flush_streamed cfg a s).1 :=
  h.with_conn (flush_file _ _)

theorem Inv.failed (h : Inv cfg s) : Inv cfg (failed s) :=
  h.same ⟨rfl, rfl, rfl, rfl, rfl, id⟩

theorem read_on_same (r : Server × Bool) : SameFiles r.1 (read_on r) := by
  unfold read_on
  split
  · exact ⟨rfl, rfl, rfl, rfl, rfl, id⟩
  · exact ⟨rfl, rfl, rfl, rfl, rfl, nofun⟩

theorem Inv.begin_read (h : Inv cfg s) : Inv cfg (begin_read s).1 := by
  have hnew : Inv cfg { s with connection := { s.connection with m_has_new_data := false } } :=
    h.same ⟨rfl, rfl, rfl, rfl, rfl, id⟩
  unfold Runtime.begin_read
  dsimp only
  split_ifs
  · exact hnew
  · exact hnew.same ⟨rfl, rfl, rfl, ensure_read_capacity_file _ _, rfl, id⟩
  · exact hnew

theorem Inv.grow_full (h : Inv cfg s) : Inv cfg (grow_full cfg s) := by
  unfold Runtime.grow_full
  dsimp only
  split_ifs
  · exact h.same ⟨rfl, rfl, rfl, ensure_read_capacity_file _ _, rfl, id⟩
  · exact h

theorem would_block_same (s : Server) (want : Event) :
    SameFiles s { s with connection := s.connection.would_block want } := by
  unfold Connection.would_block
  split <;> exact ⟨rfl, rfl, rfl, rfl, rfl, id⟩

theorem end_read_same (cfg : Config) (s : Server) (stop : ReadStop) :
    SameFiles s (end_read cfg s stop).1 := by
  unfold end_read
  cases stop with
  | failed => exact ⟨rfl, rfl, rfl, rfl, rfl, id⟩
  | again want =>
    obtain ⟨htemp, hstream, hupload, hcapturing, hopen, hreading⟩ := would_block_same s want
    dsimp only
    split <;> exact ⟨htemp, hstream, hupload, hcapturing, hopen, hreading⟩

theorem receive_same (s : Server) (p : Bytes) : SameFiles s (receive s p) :=
  ⟨rfl, rfl, rfl, rfl, rfl, id⟩

theorem end_event_same (s : Server) : SameFiles s (end_event s).1 :=
  ⟨rfl, rfl, rfl, rfl, rfl, id⟩

/-! ## The steps -/

/-- The call of `process_read` of a step, if there is one. -/
def parse_point (s : Server) : Label → Option (Answers × Server)
  | .make_room a =>
      let s := s.with_conn (sync_read_buffer s.connection.parser)
      if s.connection.parser.m_check_state ≠ .CONTENT then some (a, s) else none
  | .process a =>
      if s.connection.is_open then process_point a { s with processes := s.processes - 1 } else none
  | _ => none

variable (cfg)

variable (key sha256_hex app) in
/-- The step's call of `process_read` keeps the names. -/
def StepKeeps (s : Server) (l : Label) : Prop :=
  step key sha256_hex cfg app s l ≠ none →
    ∀ a t, parse_point s l = some (a, t) → ReadKeeps sha256_hex cfg a t

/-- The steps that call `init` or `close_conn`. -/
def Cleans (s : Server) : Label → Prop
  | .accept _ _ => True
  | .close => True
  | .write sent => cfg.m_actormodel = .proactor ∧ s.connection.is_open = true ∧
      (s.connection.bytes_to_send = 0 ∨ sent = .all ∧ s.connection.parser.head.m_linger = true)
  | _ => False

/-- No temp file is left, and the stored files are as before. -/
structure Clean (s s' : Server) : Prop where
  temp : ∀ path, s'.disk.temp path = none
  uploads : s'.disk.uploads = s.disk.uploads

variable {cfg}

theorem Inv.accept (h : Inv cfg s) (https : Bool) (address : Bytes) :
    Inv cfg (accept cfg s https address) ∧ Clean s (accept cfg s https address) := by
  have hopened : Inv cfg (Server.modfd { s with connection := { s.connection with
      is_open := true, m_address := address, m_https_enabled := https
      m_tls_want_event := .EPOLLIN } } .EPOLLIN) :=
    ⟨h.named, ⟨h.formed.stream, h.formed.upload⟩, h.capturing, fun _ => rfl, nofun⟩
  obtain ⟨hinv, htemp, huploads⟩ := hopened.init
  exact ⟨hinv, htemp, huploads⟩

theorem Inv.append_task (h : Inv cfg s) : Inv cfg (append_task s) :=
  h.same ⟨rfl, rfl, rfl, rfl, rfl, id⟩

/-- The server after the last byte of a response. -/
def written (s : Server) : Server :=
  Server.modfd { s with connection := s.connection.sent }
    (s.connection.wait_event_for_io .EPOLLIN)

theorem dealwithwrite_proactor (hmodel : cfg.m_actormodel = .proactor) (sent : Sent) (s : Server) :
    dealwithwrite cfg sent s =
      if s.connection.bytes_to_send = 0 then
        (s.modfd (s.connection.wait_event_for_io .EPOLLIN)).init cfg
      else match sent with
        | .all => if s.connection.parser.head.m_linger then (written s).init cfg
            else failed (written s)
        | .again want => Server.modfd { s with connection := s.connection.would_block want }
            ((s.connection.would_block want).wait_event_for_io .EPOLLOUT)
        | .failed => failed { s with connection := { s.connection with
            reply := { s.connection.reply with m_file := none } } } := by
  unfold dealwithwrite write finish_write_cycle
  rw [hmodel]
  dsimp only
  by_cases hsend : s.connection.bytes_to_send = 0
  · rw [if_pos hsend, if_pos hsend]
    rfl
  rw [if_neg hsend, if_neg hsend]
  cases sent with
  | all =>
    generalize hdone : written s = done
    unfold written at hdone
    have hlinger : done.connection.parser.head.m_linger = s.connection.parser.head.m_linger := by
      rw [← hdone]
      rfl
    dsimp only
    rw [hdone, ← hlinger]
    split <;> rfl
  | _ => rfl

theorem Inv.dealwithwrite (h : Inv cfg s) (sent : Sent) :
    Inv cfg (dealwithwrite cfg sent s) ∧
      (cfg.m_actormodel = .proactor → s.connection.bytes_to_send = 0 ∨
          sent = .all ∧ s.connection.parser.head.m_linger = true →
        Clean s (dealwithwrite cfg sent s)) := by
  have hinit : ∀ s₁ : Server, SameFiles s s₁ → s₁.disk.uploads = s.disk.uploads →
      Inv cfg (s₁.init cfg) ∧ Clean s (s₁.init cfg) := by
    intro s₁ hsame huploads
    obtain ⟨hinv, htemp, hkept⟩ := (h.same hsame).init
    exact ⟨hinv, htemp, hkept.trans huploads⟩
  cases hmodel : cfg.m_actormodel with
  | reactor =>
    unfold Runtime.dealwithwrite
    rw [hmodel]
    exact ⟨h.append_task, nofun⟩
  | proactor =>
  rw [dealwithwrite_proactor hmodel]
  split
  · obtain ⟨hinv, hclean⟩ := hinit (s.modfd (s.connection.wait_event_for_io .EPOLLIN))
      ⟨rfl, rfl, rfl, rfl, rfl, id⟩ rfl
    exact ⟨hinv, fun _ _ => hclean⟩
  rename_i hsend
  cases sent with
  | all =>
    dsimp only
    split
    · obtain ⟨hinv, hclean⟩ := hinit (written s) ⟨rfl, rfl, rfl, rfl, rfl, id⟩ rfl
      exact ⟨hinv, fun _ _ => hclean⟩
    · rename_i hlinger
      refine ⟨Inv.failed (h.same ⟨rfl, rfl, rfl, rfl, rfl, id⟩), ?_⟩
      rintro - (hzero | ⟨-, hkeep⟩)
      · exact absurd hzero hsend
      · exact absurd hkeep hlinger
  | again want =>
    refine ⟨(h.same (would_block_same s want)).same ⟨rfl, rfl, rfl, rfl, rfl, id⟩, ?_⟩
    rintro - (hzero | ⟨hall, -⟩)
    · exact absurd hzero hsend
    · contradiction
  | failed =>
    refine ⟨Inv.failed (h.same ⟨rfl, rfl, rfl, rfl, rfl, id⟩), ?_⟩
    rintro - (hzero | ⟨hall, -⟩)
    · exact absurd hzero hsend
    · contradiction

theorem Inv.read_returns {r : Server × Bool} (h : Inv cfg r.1) : Inv cfg (read_returns r) := by
  obtain ⟨s, returned⟩ := r
  cases returned with
  | false => exact h.same (read_on_same (s, false))
  | true => exact Inv.append_task (h.same ⟨rfl, rfl, rfl, rfl, rfl, nofun⟩)

theorem Inv.dealwithread (h : Inv cfg s) (hopen : s.connection.is_open = true) :
    Inv cfg (dealwithread cfg s) := by
  unfold Runtime.dealwithread
  split
  · have hreading : Inv cfg { s with reading := true } := { h with live := fun _ => hopen }
    exact hreading.begin_read.same (read_on_same _)
  · exact h.append_task

theorem Inv.step_parses (h : Inv cfg s) (hstep : step key sha256_hex cfg app s l = some s') :
    Parses key sha256_hex app cfg s' (parse_point s l) := by
  cases l with
  | accept https address =>
    simp only [Runtime.step, Option.ite_none_left_eq_some, Option.some.injEq] at hstep
    exact .plain (hstep.2 ▸ (h.accept https address).1)
  | fetch =>
    simp only [Runtime.step, Option.ite_none_left_eq_some] at hstep
    obtain ⟨-, hstep⟩ := hstep
    split at hstep
    · contradiction
    all_goals
      cases hstep
      exact .plain (h.same ⟨rfl, rfl, rfl, rfl, rfl, id⟩)
  | read =>
    simp only [Runtime.step, Option.ite_none_left_eq_some] at hstep
    obtain ⟨-, hstep⟩ := hstep
    have hinv : Inv cfg { s with reads := s.reads - 1 } := h.same ⟨rfl, rfl, rfl, rfl, rfl, id⟩
    split at hstep <;> rename_i hopen <;> obtain rfl := Option.some.inj hstep
    · exact .plain (hinv.dealwithread hopen)
    · exact .plain hinv
  | recv a p =>
    simp only [Runtime.step, Option.ite_none_left_eq_some] at hstep
    obtain ⟨-, hstep⟩ := hstep
    have hflushed := (h.same (receive_same s p)).flush_streamed a
    split at hstep <;> rename_i s₁ heq <;> obtain rfl := Option.some.inj hstep <;>
      rw [heq] at hflushed
    · exact .plain hflushed.grow_full
    · exact .plain (hflushed.same (read_on_same (s₁, false)))
  | make_room a =>
    simp only [Runtime.step, Option.ite_none_left_eq_some, not_or, Option.map_eq_some_iff] at hstep
    obtain ⟨⟨hreading, -, -⟩, ⟨s₁, more⟩, hroom, rfl⟩ := hstep
    have hsynced : Inv cfg (s.with_conn (sync_read_buffer s.connection.parser)) := h.with_conn rfl
    have hopen := hsynced.live ((spooled_reading _).trans (Bool.not_eq_false _ ▸ hreading))
    unfold make_room at hroom
    unfold parse_point
    dsimp only at hroom ⊢
    by_cases hstate : (s.with_conn (sync_read_buffer
        s.connection.parser)).connection.parser.m_check_state ≠ .CONTENT
    · rw [if_pos hstate] at hroom ⊢
      split at hroom
      · contradiction
      · rename_i s₂ code hread
        obtain ⟨rfl, rfl⟩ := Prod.mk.inj (Option.some.inj hroom)
        exact .call hsynced hopen hread (read_on_same (s₂, _)).carries
    · rw [if_neg hstate] at hroom ⊢
      apply Parses.plain
      split at hroom
      · have hflushed := hsynced.flush_streamed a
        rw [Option.some.inj hroom] at hflushed
        exact hflushed.same (read_on_same (s₁, more))
      · obtain ⟨rfl, rfl⟩ := Prod.mk.inj (Option.some.inj hroom)
        exact hsynced.same (read_on_same (_, false))
  | last_recv a p =>
    simp only [Runtime.step, Option.ite_none_left_eq_some] at hstep
    obtain ⟨-, hstep⟩ := hstep
    have hflushed := (h.same (receive_same s p)).flush_streamed a
    split at hstep <;> rename_i s₁ heq <;> obtain rfl := Option.some.inj hstep <;>
      rw [heq] at hflushed
    · exact .plain (hflushed.same (end_event_same s₁)).read_returns
    · exact .plain (hflushed.same (read_on_same (s₁, false)))
  | end_read stop =>
    simp only [Runtime.step, Option.ite_none_left_eq_some, Option.some.injEq] at hstep
    obtain ⟨-, rfl⟩ := hstep
    exact .plain (h.same (end_read_same cfg s stop)).read_returns
  | process a =>
    simp only [Runtime.step, Option.ite_none_left_eq_some, not_or] at hstep
    obtain ⟨⟨hreading, -⟩, hstep⟩ := hstep
    have hinv : Inv cfg { s with processes := s.processes - 1 } :=
      h.same ⟨rfl, rfl, rfl, rfl, rfl, id⟩
    unfold parse_point
    dsimp only
    split at hstep <;> rename_i hopen
    · rw [if_pos hopen]
      exact hinv.process hopen (Bool.eq_false_iff.mpr hreading) hstep
    · rw [if_neg hopen]
      cases hstep
      exact .plain hinv
  | write sent =>
    simp only [Runtime.step, Option.ite_none_left_eq_some] at hstep
    obtain ⟨-, hstep⟩ := hstep
    have hinv : Inv cfg { s with writes := s.writes - 1 } := h.same ⟨rfl, rfl, rfl, rfl, rfl, id⟩
    split at hstep <;> obtain rfl := Option.some.inj hstep
    · exact .plain (hinv.dealwithwrite sent).1
    · exact .plain hinv
  | close =>
    simp only [Runtime.step, Option.ite_none_left_eq_some, Option.some.injEq] at hstep
    obtain ⟨hreading, rfl⟩ := hstep
    have hclosed := (h.close_conn (Bool.eq_false_iff.mpr hreading)).1
    exact .plain (hclosed.same ⟨rfl, rfl, rfl, rfl, rfl, id⟩)
  | others db uploads =>
    simp only [Runtime.step] at hstep
    cases hstep
    exact .plain (h.same ⟨rfl, rfl, rfl, rfl, rfl, id⟩)

theorem Inv.step_cleans (h : Inv cfg s) (hstep : Runtime.step key sha256_hex cfg app s l = some s')
    (hcleans : Cleans cfg s l) :
    Clean s s' := by
  cases l with
  | accept https address =>
    simp only [Runtime.step, Option.ite_none_left_eq_some, Option.some.injEq] at hstep
    exact hstep.2 ▸ (h.accept https address).2
  | write sent =>
    simp only [Runtime.step, hcleans.2.1, if_true, Option.ite_none_left_eq_some,
      Option.some.injEq] at hstep
    have hinv : Inv cfg { s with writes := s.writes - 1 } := h.same ⟨rfl, rfl, rfl, rfl, rfl, id⟩
    have hclean := (hinv.dealwithwrite sent).2 hcleans.1 hcleans.2.2
    exact hstep.2 ▸ ⟨hclean.temp, hclean.uploads⟩
  | close =>
    simp only [Runtime.step, Option.ite_none_left_eq_some, Option.some.injEq] at hstep
    obtain ⟨hreading, rfl⟩ := hstep
    obtain ⟨-, htemp, huploads⟩ := h.close_conn (Bool.eq_false_iff.mpr hreading)
    exact ⟨htemp, huploads⟩
  | _ => exact hcleans.elim

theorem Inv.step (h : Inv cfg s) (hstep : Runtime.step key sha256_hex cfg app s l = some s')
    (hkeep : StepKeeps cfg key sha256_hex app s l) : Inv cfg s' := by
  have hparses := h.step_parses hstep
  have hpoint := hkeep (by rw [hstep]; exact Option.some_ne_none _)
  generalize parse_point s l = point at hparses hpoint
  cases hparses with
  | plain hinv => exact hinv
  | call ht hopen hread hcarries =>
    exact hcarries.inv (ht.process_read hopen (hpoint _ _ rfl) hread)

theorem Inv.step_lost (h : Inv cfg s) (hstep : Runtime.step key sha256_hex cfg app s l = some s')
    (hkeep : ¬ StepKeeps cfg key sha256_hex app s l) : ∃ path, Lost s' path := by
  have hparses := h.step_parses hstep
  have hpoint : ¬ ∀ a t, parse_point s l = some (a, t) → ReadKeeps sha256_hex cfg a t :=
    fun hall => hkeep fun _ => hall
  generalize parse_point s l = point at hparses hpoint
  cases hparses with
  | plain _ => exact absurd (fun _ _ heq => absurd heq (by simp)) hpoint
  | @call a t _ _ ht hopen hread hcarries =>
    have hnot : ¬ ReadKeeps sha256_hex cfg a t := by
      intro hk
      apply hpoint
      rintro _ _ ⟨⟩
      exact hk
    obtain ⟨hformed, path, hlost⟩ := ht.process_read_lost hopen hnot hread
    exact ⟨path, hcarries.lost path hformed hlost⟩

variable (cfg key sha256_hex app)

/-- What holds after a step: each temp file has a name, a closed connection has none, and
cleaning up removes no stored file. -/
structure Safe (s : Server) (l : Label) (s' : Server) : Prop where
  accounted : Accounted s'
  closed : s'.connection.is_open = false → ∀ path, s'.disk.temp path = none
  cleanup : (cleanup_temp_upload_state cfg s').disk.uploads = s'.disk.uploads
  cleans : Cleans cfg s l → Clean s s'

/-- **Temp uploads are accounted for** exactly in the runs whose calls of `process_read`
keep the names: along such a run each temp file has a name, after `init` or
`close_conn` there is none, and cleaning up does not touch a stored file.

A call keeps the names if it does not open a spool file while the last one is there, if
the multipart parser does not return a file while the last one is there, and if a digest
gets its context. -/
theorem temp_uploads_accounted_iff (db : Db) (uploads : Bytes → Option Bytes) (ls : List Label) :
    (system key sha256_hex cfg app).Along (fun s l => ∀ s',
        step key sha256_hex cfg app s l = some s' → Safe cfg s l s') (start db uploads) ls ↔
      (system key sha256_hex cfg app).Along (StepKeeps cfg key sha256_hex app)
        (start db uploads) ls := by
  apply System.along_steps_iff (P := Inv cfg) (system key sha256_hex cfg app)
  · intro s l hnone henabled
    exact absurd hnone henabled
  · intro s l s' hinv hstep hkeep
    have hinv' := hinv.step hstep hkeep
    exact ⟨hinv', hinv'.named, hinv'.none_of_closed, (cleanup_disk hinv'.formed).2.2,
      hinv.step_cleans hstep⟩
  · intro s l s' hinv hstep hgood
    by_contra hkeep
    obtain ⟨path, hlost⟩ := hinv.step_lost hstep hkeep
    exact hlost.not_accounted hgood.accounted
  · exact inv_of_none (fun _ => rfl) rfl rfl rfl (nofun)

end Router

end Files

/-! ## An upload whose digest has no context -/

def proactor_config : Config where
  doc_root := lit "root"
  upload_max_bytes := 1024
  upload_request_overhead_bytes := 1024
  user_storage_quota_bytes := 1024
  legacy_compat_enabled := false
  close_log := 0
  files _ := none
  m_TRIGMode := false
  m_actormodel := .proactor

def Answers.works (token : Bytes) : Answers where
  ensure_directory := true
  token := token
  fopen := true
  fwrite := true
  freed := []
  reopen := true
  cuts := []
  upload_token := token
  create := true
  context := true
  good _ := true
  digest := true
  mysql := true

def no_routes : Application :=
  fun _ _ db disk => .reply .NO_RESOURCE .init [] db disk.uploads

def empty_start : Server := start ⟨[], [], [], [], 1, 1⟩ fun _ => none

/-- A request comes with one read event, and a task handles it. -/
def handle_event (request : Bytes) (a : Answers) : List Label :=
  [.fetch, .read, .recv (.works (lit "1")) request, .end_read (.again .EPOLLIN), .process a]

def one_byte_upload : Bytes :=
  lit "POST /x HTTP/1.1\r\nHost: a\r\nContent-Type: multipart/form-data; boundary=b\r\n" ++
    lit "Content-Length: 73\r\n\r\n" ++
    lit "--b\r\nContent-Disposition: form-data; name=\"f\"; filename=\"a\"\r\n\r\nZ\r\n--b--\r\n"

theorem upload_without_context_forgotten :
    ∃ s, (system (id : Bytes → Bytes) id proactor_config no_routes).exec empty_start
        (.accept false [] ::
          handle_event one_byte_upload { Answers.works (lit "1") with context := false }) = some s ∧
      s.disk.temp (lit "root/uploads/.tmp/upload-1") = some [] ∧
      s.connection.m_stream_body_tmp_path = lit "root/uploads/.tmp/body-1.tmp" ∧
      s.connection.upload.temp_path = [] ∧ ¬ Accounted s := by
  have hrun : ((system (id : Bytes → Bytes) id proactor_config no_routes).exec empty_start
      (.accept false [] ::
        handle_event one_byte_upload
          { Answers.works (lit "1") with context := false })).any (fun s =>
          decide (s.disk.temp (lit "root/uploads/.tmp/upload-1") = some [] ∧
            s.connection.m_stream_body_tmp_path = lit "root/uploads/.tmp/body-1.tmp" ∧
            s.connection.upload.temp_path = [])) = true := by
    decide +kernel
  rw [Option.any_eq_true] at hrun
  obtain ⟨s, hexec, hs⟩ := hrun
  obtain ⟨hthere, hstream, hupload⟩ := of_decide_eq_true hs
  have hlost : Lost s (lit "root/uploads/.tmp/upload-1") := by
    refine ⟨by decide, ?_, ?_, ?_⟩
    · rw [hthere]
      exact Option.some_ne_none _
    · rw [hstream]
      decide
    · rw [hupload]
      decide
  exact ⟨s, hexec, hthere, hstream, hupload, hlost.not_accounted⟩

end AtlasWebServer.Runtime
