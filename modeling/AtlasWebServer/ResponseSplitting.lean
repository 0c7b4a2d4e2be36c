/-
Stored metadata in the head of a download.

`parse_managed_upload_payload` (`http/controllers/file_controller.cpp`) takes the name
and the content type of an upload from form fields, which may hold any bytes. The name
goes through `sanitize_filename` on the way in and through `sanitize_download_filename`
and `encode_download_filename` on the way out. The content type goes through nothing: it
is cut to the column on the way in and to the buffer `m_response_content_type` on the way
out, and a CRLF that survives both ends the header line it is written into.

`download_written` says what is scheduled for a download, `exact_head_iff` when the head has
no other lines than the code writes. It is exact: a content type that splits the head is
one with a CRLF in what is sent of it, and only an empty file, which is answered with a
page of its own, does not send it.

`EVP_DecodeBlock` of OpenSSL is a parameter.
-/
import AtlasWebServer.FileStore
import AtlasWebServer.ResponseHead

set_option autoImplicit false

namespace AtlasWebServer.Http

open Bytes CString RingBuffer Crlf List

open AtlasWebServer.Downloads
open AtlasWebServer.FileNames (sanitize_filename)
open AtlasWebServer.FileStore (UploadPayload)

/-! ## The form of an upload -/

def decode_base64 (EVP_DecodeBlock : Bytes → Option Bytes) (input : Bytes) : Option Bytes :=
  let cleaned := input.filter fun ch => !isspace ch
  if cleaned = [] ∨ cleaned.length % 4 ≠ 0 then none
  else
    match EVP_DecodeBlock cleaned with
    | none => none
    | some decoded =>
        let padding := (if cleaned.getLast? = some 61 then 1 else 0) +
          (if cleaned.dropLast.getLast? = some 61 then 1 else 0)
        if decoded.length < padding then none else some (decoded.take (decoded.length - padding))

/-- The status, the title and the message of a form that is refused. -/
abbrev FormError := ℤ × Bytes × Bytes

/-- A form that is refused with status 400. -/
def bad_form (message : Bytes) : Except FormError UploadPayload :=
  .error (400, lit "Bad Request", message)

/-- The field `folder_id`; an empty one leaves the payload's 0. -/
def folder_field (folder_value : Bytes) : Option ℤ :=
  if folder_value = [] then some 0
  else
    match strtol (c_str folder_value) with
    | none => none
    | some (folder_id, rest) => if rest ≠ [] ∨ folder_id < 0 then none else some folder_id

/-- `parse_managed_upload_payload` with an uploaded file. -/
def file_payload (request : HttpRequest) (filename content_type : Bytes) (folder_id : ℤ) :
    UploadPayload :=
  let filename := if filename = [] then sanitize_filename request.upload.filename else filename
  { filename := if filename = [] then lit "file.bin" else filename
    content := []
    content_type :=
      if content_type = [] then
        if request.upload.content_type = [] then lit "application/octet-stream"
        else request.upload.content_type
      else content_type
    temp_path := request.upload.temp_path
    sha256 := request.upload.sha256
    folder_id := folder_id
    size := request.upload.size
    use_temp_file := true }

/-- `parse_managed_upload_payload` without one, from the fields `content` and
`content_base64`. -/
def legacy_payload (EVP_DecodeBlock : Bytes → Option Bytes) (request : HttpRequest)
    (context : RequestContext) (filename content_type : Bytes) (folder_id : ℤ) :
    Except FormError UploadPayload :=
  let content := request.value (lit "content") (lit "file")
  let content_base64 := request.value (lit "content_base64") (lit "file_base64")
  let decoded :=
    if content = [] ∧ content_base64 ≠ [] then decode_base64 EVP_DecodeBlock content_base64
    else some content
  match decoded with
  | none => bad_form (lit "invalid base64 content")
  | some content =>
      if content = [] then bad_form (lit "content is empty")
      else if content.length > context.upload_max_bytes then
        .error (413, lit "Payload Too Large",
          lit "upload exceeds limit of " ++ to_string context.upload_max_bytes ++ lit " bytes")
      else
        .ok
          { filename := if filename = [] then lit "file.txt" else filename
            content := content
            content_type := if content_type = [] then lit "text/plain" else content_type
            temp_path := []
            sha256 := []
            folder_id := folder_id
            size := content.length
            use_temp_file := false }

def parse_managed_upload_payload (EVP_DecodeBlock : Bytes → Option Bytes) (request : HttpRequest)
    (context : RequestContext) : Except FormError UploadPayload :=
  let filename := sanitize_filename (request.value (lit "filename") (lit "name"))
  let content_type := request.value (lit "content_type") (lit "file_content_type")
  match folder_field (request.value (lit "folder_id") []) with
  | none => bad_form (lit "invalid folder_id")
  | some folder_id =>
      if request.upload.has_file then .ok (file_payload request filename content_type folder_id)
      else if context.legacy_compat_enabled = false then
        bad_form (lit "multipart/form-data file upload required")
      else legacy_payload EVP_DecodeBlock request context filename content_type folder_id

/-- The content type of a multipart upload: the form field, the part's header or the
default. -/
def uploaded_type (request : HttpRequest) : Bytes :=
  let content_type := request.value (lit "content_type") (lit "file_content_type")
  if content_type = [] then
    if request.upload.content_type = [] then lit "application/octet-stream"
    else request.upload.content_type
  else content_type

section Accepted

variable {EVP_DecodeBlock : Bytes → Option Bytes} {request : HttpRequest}
  {context : RequestContext} {payload : UploadPayload}

theorem accepted_payload (hfile : request.upload.has_file = true)
    (h : parse_managed_upload_payload EVP_DecodeBlock request context = .ok payload) :
    ∃ folder_id, payload = file_payload request
      (sanitize_filename (request.value (lit "filename") (lit "name")))
      (request.value (lit "content_type") (lit "file_content_type")) folder_id := by
  unfold parse_managed_upload_payload at h
  dsimp only at h
  cases hfolder : folder_field (request.value (lit "folder_id") []) with
  | none => simp [hfolder, bad_form] at h
  | some folder_id =>
    simp only [hfolder, hfile, if_true, Except.ok.injEq] at h
    exact ⟨folder_id, h.symm⟩

theorem payload_type (hfile : request.upload.has_file = true)
    (h : parse_managed_upload_payload EVP_DecodeBlock request context = .ok payload) :
    payload.content_type = uploaded_type request := by
  obtain ⟨folder_id, rfl⟩ := accepted_payload hfile h
  rfl

/-- The form has no field of this name, or an empty one. -/
def Blank (request : HttpRequest) (field : Bytes) : Prop :=
  (request.form.lookup field).getD [] = [] ∧ (request.json.lookup field).getD [] = []

theorem value_of_blank {primary fallback : Bytes} (hprimary : Blank request primary)
    (hfallback : Blank request fallback) : request.value primary fallback = [] := by
  have hfield : ∀ {field value}, Blank request field →
      (request.form.lookup field).or (request.json.lookup field) = some value → value = [] := by
    rintro field value ⟨hform, hjson⟩ hvalue
    rcases Option.or_eq_some_iff.mp hvalue with hfound | ⟨-, hfound⟩
    · rwa [hfound] at hform
    · rwa [hfound] at hjson
  unfold HttpRequest.value
  cases hfirst : (request.form.lookup primary).or (request.json.lookup primary) with
  | some value => exact hfield hprimary hfirst
  | none =>
    cases hsecond : (request.form.lookup fallback).or (request.json.lookup fallback) with
    | some value => simp [hfield hfallback hsecond]
    | none => simp

/-- **The name of a file is lost** if the form does not repeat it. `sanitize_filename` makes a
default of the missing field, so the test for an empty name never succeeds: the upload keeps
its own name only if that is the default. -/
theorem upload_name_kept_iff (part_filename : Bytes) (hfile : request.upload.has_file = true)
    (hname : request.upload.filename = sanitize_filename part_filename)
    (hfilename_field : Blank request (lit "filename")) (hname_field : Blank request (lit "name"))
    (h : parse_managed_upload_payload EVP_DecodeBlock request context = .ok payload) :
    payload.filename = sanitize_filename part_filename ↔
      request.upload.filename = lit "file.txt" := by
  obtain ⟨folder_id, rfl⟩ := accepted_payload hfile h
  have hdefault : sanitize_filename [] = lit "file.txt" := by decide
  rw [value_of_blank hfilename_field hname_field, hdefault, hname, eq_comm]
  rfl

end Accepted

def unnamed_upload (filename : Bytes) : HttpRequest where
  method := .POST
  path := lit "/api/drive/files/upload"
  upload := ⟨lit "/uploads/.tmp/u1", sanitize_filename filename, lit "text/plain", lit "00", 1⟩

def unnamed_payload : UploadPayload where
  filename := lit "file.txt"
  content := []
  content_type := lit "text/plain"
  temp_path := lit "/uploads/.tmp/u1"
  sha256 := lit "00"
  folder_id := 0
  size := 1
  use_temp_file := true

theorem default_name_kept : unnamed_payload.filename = sanitize_filename (lit "file.txt") := by
  have haccepted : parse_managed_upload_payload (fun _ => none) (unnamed_upload (lit "file.txt"))
      { mysql := true, current_user := lit "ana", upload_max_bytes := 100 } =
        .ok unnamed_payload := by decide
  exact (upload_name_kept_iff (lit "file.txt") rfl rfl ⟨rfl, rfl⟩ ⟨rfl, rfl⟩ haccepted).mpr
    (by decide)

/-- `report.pdf` is stored as `file.txt`. -/
theorem report_renamed :
    (unnamed_upload (lit "report.pdf")).upload.filename = sanitize_filename (lit "report.pdf") ∧
    parse_managed_upload_payload (fun _ => none) (unnamed_upload (lit "report.pdf"))
        { mysql := true, current_user := lit "ana", upload_max_bytes := 100 } =
          .ok unnamed_payload ∧
      unnamed_payload.filename ≠ sanitize_filename (lit "report.pdf") := by
  decide

/-! ## What a download sends -/

/-- What `open_managed_file` leaves in `m_response_content_type`. -/
def sent_type (content : Option Bytes) (content_type download_name : Bytes) : Bytes :=
  (c_str (normalize_download_metadata content
    (if content_type = [] then lit "application/octet-stream" else content_type)
    (if download_name = [] then lit "download" else download_name)).1).take 255

/-- The name in the header `Content-Disposition`. -/
def sent_name (content : Option Bytes) (content_type download_name : Bytes) : Bytes :=
  (normalize_download_metadata content
    (if content_type = [] then lit "application/octet-stream" else content_type)
    (if download_name = [] then lit "download" else download_name)).2

/-- The length, the content type and the page in the ring for a file. -/
def file_parts (method : Method) (content header_type : Bytes) : ℤ × Bytes × Option Bytes :=
  if method = .HEAD ∨ content ≠ [] then
    (to_int content.length, if header_type = [] then lit "application/octet-stream"
      else header_type,
      none)
  else (ok_string.length, lit "text/html", some ok_string)

variable {method : Method} {content header_type : Bytes}

theorem file_parts_sent (h : method = .HEAD ∨ content ≠ []) (header_type : Bytes) :
    file_parts method content header_type =
      (to_int content.length,
        if header_type = [] then lit "application/octet-stream" else header_type, none) := by
  rw [file_parts, if_pos h]

theorem file_parts_page (h : ¬ (method = .HEAD ∨ content ≠ [])) (header_type : Bytes) :
    file_parts method content header_type =
      ((ok_string.length : ℤ), lit "text/html", some ok_string) := by
  rw [file_parts, if_neg h]

/-- What follows the ring: the file, unless the request is `HEAD`. -/
def sent_file (method : Method) (content : Bytes) : Bytes := if method = .HEAD then [] else content

theorem write_file_parts {r : Reply} (hfile : r.m_file = some content) (ring : Ring) :
    write_file r ring =
      schedule (write_response r 200 (lit "OK")
        (file_parts r.m_method content r.m_response_content_type).1
        (file_parts r.m_method content r.m_response_content_type).2.1
        (file_parts r.m_method content r.m_response_content_type).2.2)
        (sent_file r.m_method content).length (sent_file r.m_method content) ring := by
  unfold write_file sent_file
  rw [hfile]
  dsimp only [Option.getD_some]
  by_cases hhead : r.m_method = .HEAD
  · rw [if_pos hhead, if_pos hhead, file_parts_sent (.inl hhead)]
    dsimp only [length_nil]
  rw [if_neg hhead, if_neg hhead]
  by_cases hempty : content = []
  · rw [if_neg (by simp [hempty]), file_parts_page (by simp [hhead, hempty]), hempty]
    dsimp only [length_nil]
  · rw [if_pos (by simpa using hempty), file_parts_sent (.inr hempty)]

theorem isInt_file_parts (method : Method) (content header_type : Bytes) :
    IsInt (file_parts method content header_type).1 := by
  by_cases h : method = .HEAD ∨ content ≠ []
  · rw [file_parts_sent h]
    dsimp only
    exact isInt_to_int content.length
  · rw [file_parts_page h]
    decide

theorem length_file_parts (h : header_type.length ≤ 255) (method : Method) (content : Bytes) :
    (file_parts method content header_type).2.1.length ≤ 255 ∧
      ((file_parts method content header_type).2.2.getD []).length ≤ 100 := by
  by_cases hsent : method = .HEAD ∨ content ≠ []
  · rw [file_parts_sent hsent]
    dsimp only
    refine ⟨?_, by simp⟩
    split
    · decide
    · exact h
  · rw [file_parts_page hsent]
    decide

theorem default_type_idem (content_type : Bytes) :
    (if (if content_type = [] then lit "application/octet-stream" else content_type) = [] then
        lit "application/octet-stream"
      else if content_type = [] then lit "application/octet-stream" else content_type) =
      if content_type = [] then lit "application/octet-stream" else content_type := by
  by_cases hnone : content_type = []
  · rw [if_pos hnone, if_neg (by decide)]
  · rw [if_neg hnone, if_neg hnone]

theorem length_sent_type_le (content : Option Bytes) (content_type download_name : Bytes) :
    (sent_type content content_type download_name).length ≤ 255 :=
  List.length_take_le _ _

theorem length_sent_name_le (content : Option Bytes) (content_type download_name : Bytes) :
    (sent_name content content_type download_name).length ≤ download_name.length + 21 := by
  refine le_trans (length_normalized_name _ _ _) ?_
  split
  · have hlength : (lit "download").length = 8 := by decide
    omega
  · omega

theorem length_content_disposition_le (download_name : Bytes) :
    (content_disposition download_name).length ≤ 3 * download_name.length + 200 := by
  have hsafe := length_sanitized download_name
  have hencoded := length_encoded download_name
  have hstart : (lit "Content-Disposition: attachment; filename=\"").length = 43 := by decide
  have hmiddle : (lit "\"; filename*=UTF-8''").length = 20 := by decide
  unfold content_disposition
  rw [length_append, length_append, length_append]
  omega

theorem printable_ne_zero {s : Bytes} (h : Printable s) : (0 : UInt8) ∉ s := by
  intro hzero
  exact absurd (h 0 hzero).1 (by decide)

section Download

variable {files : Bytes → Option Bytes} {path content_type download_name content : Bytes}
  {method : Method} {linger : Bool} {ring : Ring}

/-- The connection after a file was opened for a download. -/
def opened (files : Bytes → Option Bytes) (method : Method) (linger : Bool)
    (path content_type download_name content : Bytes) : Reply :=
  { Reply.init method linger with
    m_file := some content
    m_response_content_type := sent_type (files (c_str path)) content_type download_name
    m_extra_headers := unlines
      [content_disposition (sent_name (files (c_str path)) content_type download_name)] }

theorem finish_download (hfile : files ((c_str path).take (FILENAME_LEN - 1)) = some content) :
    finish_request files (Reply.init method linger) .FILE_REQUEST
        (.set_file path content_type download_name) =
      (opened files method linger path content_type download_name content, .FILE_REQUEST) := by
  have hopen : open_managed_file files (Reply.init method linger) path
      (if content_type = [] then lit "application/octet-stream" else content_type) download_name =
      some (opened files method linger path content_type download_name content) := by
    unfold open_managed_file
    rw [hfile]
    -- `set_file` has put in the default already
    rw [default_type_idem]
    simp only [opened, sent_type, sent_name, unlines_cons, unlines_nil, append_nil]
    rfl
  rw [finish_request, if_pos (.inr (.inl rfl)), apply_application_response]
  simp only [HttpResponse.set_file, Bool.false_eq_true, if_false, if_true, hopen]

/-- The lines and the page that are written for a download. -/
def download_text (files : Bytes → Option Bytes) (method : Method) (linger : Bool)
    (path content_type download_name content : Bytes) : Bytes :=
  let parts := file_parts method content (sent_type (files (c_str path)) content_type download_name)
  unlines (head_lines linger 200 (lit "OK") parts.1 parts.2.1
    [content_disposition (sent_name (files (c_str path)) content_type download_name)]) ++ crlf ++
    parts.2.2.getD []

theorem download_text_default :
    download_text files method linger path
        (if content_type = [] then lit "application/octet-stream" else content_type) download_name
        content =
      download_text files method linger path content_type download_name content := by
  unfold download_text sent_type sent_name
  rw [default_type_idem]

theorem length_download_text (hname : download_name.length ≤ 512) :
    (download_text files method linger path content_type download_name content).length ≤
      WRITE_LIMIT := by
  have hsent := length_sent_name_le (files (c_str path)) content_type download_name
  have hdisposition := length_content_disposition_le
    (sent_name (files (c_str path)) content_type download_name)
  obtain ⟨htype, hpage⟩ := length_file_parts
    (length_sent_type_le (files (c_str path)) content_type download_name) method content
  have hint := isInt_file_parts method content
    (sent_type (files (c_str path)) content_type download_name)
  have hstatus : IsInt 200 := by decide
  have hhead := length_head_le hstatus hint linger (lit "OK")
    (file_parts method content (sent_type (files (c_str path)) content_type download_name)).2.1
    [content_disposition (sent_name (files (c_str path)) content_type download_name)]
  have hlines : (unlines
      [content_disposition (sent_name (files (c_str path)) content_type download_name)]).length =
      (content_disposition
        (sent_name (files (c_str path)) content_type download_name)).length + 2 := by
    rw [unlines_cons, unlines_nil, append_nil, length_append]
    rfl
  have hok : (lit "OK").length = 2 := by decide
  have hlimit : 10000 ≤ WRITE_LIMIT := by decide
  unfold download_text
  rw [length_append]
  omega

theorem download_written (hfile : files ((c_str path).take (FILENAME_LEN - 1)) = some content)
    (hname : download_name.length ≤ 512) (hring : Fresh ring) :
    respond files method linger ring .FILE_REQUEST (.set_file path content_type download_name) =
      some (some
        ⟨download_text files method linger path content_type download_name content,
          to_int
            ((download_text files method linger path content_type download_name content).length +
              (sent_file method content).length),
          sent_file method content⟩) := by
  have hnul : (0 : UInt8) ∉
      unlines [content_disposition
        (sent_name (files (c_str path)) content_type download_name)] := by
    rw [unlines_cons, unlines_nil, append_nil, mem_append]
    rintro (hzero | hzero)
    · exact printable_ne_zero (printable_content_disposition _) hzero
    · exact absurd hzero (by decide)
  let r := opened files method linger path content_type download_name content
  let parts := file_parts method content (sent_type (files (c_str path)) content_type download_name)
  have hwrite : Appends (write_response r 200 (lit "OK") parts.1 parts.2.1 parts.2.2)
      (download_text files method linger path content_type download_name content) :=
    appends_response rfl hnul 200 (lit "OK") parts.1 parts.2.1 parts.2.2
  have hrespond : respond files method linger ring .FILE_REQUEST
      (.set_file path content_type download_name) = write_file r ring := by
    rw [respond, finish_download hfile]
    rfl
  rw [hrespond, write_file_parts (rfl : r.m_file = some content)]
  exact schedule_appends hwrite hring (length_download_text hname) _ _

/-! ## When the head is split -/

/-- A head with exactly the lines of the code, then the blank line and what follows the
head in the ring. -/
def ExactHead (linger : Bool) (page out : Bytes) : Prop :=
  ∃ content_len content_type disposition,
    split_crlf out = status_line 200 (lit "OK") :: length_line content_len ::
      type_line content_type :: (connection_lines linger ++
        [lit "Content-Disposition: " ++ disposition] ++ [] :: split_crlf page)

/-- What the ring holds after the head: the page for an empty file, and nothing when
the file follows or the request is `HEAD`. -/
def page_after (method : Method) (content : Bytes) : Bytes :=
  if method = .HEAD ∨ content ≠ [] then [] else ok_string

theorem sent_type_cases (readable : Option Bytes) :
    sent_type readable content_type download_name = (c_str content_type).take 255 ∨
      (OneLine (sent_type readable content_type download_name) ∧
        OneLine ((c_str content_type).take 255)) := by
  unfold sent_type
  by_cases hnone : content_type = []
  · rw [if_pos hnone, hnone]
    refine .inr ⟨?_, by decide⟩
    rcases normalized_type readable (lit "application/octet-stream")
        (if download_name = [] then lit "download" else download_name) with hsame | ⟨-, hhtml⟩
    · rw [hsame]
      decide
    · rw [hhtml]
      decide
  · rw [if_neg hnone]
    rcases normalized_type readable content_type
        (if download_name = [] then lit "download" else download_name) with hsame | ⟨htype, hhtml⟩
    · rw [hsame]
      exact .inl rfl
    rw [hhtml]
    refine .inr ⟨by decide, ?_⟩
    simp only [hnone, false_or, untyped, Bool.or_eq_true, decide_eq_true_eq] at htype
    rcases htype with rfl | rfl
    · decide
    · decide

theorem oneLine_sent_type (readable : Option Bytes) :
    OneLine (sent_type readable content_type download_name) ↔
      OneLine ((c_str content_type).take 255) := by
  rcases sent_type_cases readable with hsame | ⟨hsent, hstored⟩
  · rw [hsame]
  · exact ⟨fun _ => hstored, fun _ => hsent⟩

theorem oneLine_default_type :
    OneLine (if header_type = [] then lit "application/octet-stream" else header_type) ↔
      OneLine header_type := by
  by_cases hnone : header_type = []
  · rw [if_pos hnone, hnone]
    exact ⟨fun _ => by decide, fun _ => by decide⟩
  · rw [if_neg hnone]

theorem split_type_length (content_type : Bytes) :
    (split_crlf (type_line content_type)).length = 1 ↔ OneLine content_type := by
  rw [← oneLine_type_line]
  constructor
  · intro hone
    obtain ⟨line, hsplit⟩ := length_eq_one_iff.mp hone
    have hjoin := unlines_split (type_line content_type)
    rw [hsplit, unlines_cons, unlines_nil, append_nil] at hjoin
    rw [OneLine, hsplit, append_cancel_right hjoin]
  · intro hone
    rw [hone]
    rfl

theorem content_disposition_named (name : Bytes) :
    ∃ disposition, content_disposition name = lit "Content-Disposition: " ++ disposition := by
  have hstart : lit "Content-Disposition: attachment; filename=\"" =
      lit "Content-Disposition: " ++ lit "attachment; filename=\"" := by decide
  rw [content_disposition, hstart]
  exact ⟨_, rfl⟩

theorem exactHead_head_lines (content_len : ℤ) (header_type name page : Bytes) :
    ExactHead linger page (unlines (head_lines linger 200 (lit "OK") content_len header_type
        [content_disposition name]) ++ crlf ++ page) ↔ OneLine header_type := by
  have hok : Printable (lit "OK") := by decide
  have hextra : ∀ line ∈ [content_disposition name], Printable line := by
    intro line hline
    rw [mem_singleton] at hline
    rw [hline]
    exact printable_content_disposition name
  unfold ExactHead
  rw [split_response hok hextra]
  constructor
  · -- the lines are counted: every CRLF in the content type adds one
    rintro ⟨content_len', header_type', disposition, hsame⟩
    have hcount := congrArg List.length hsame
    simp only [head_lines, length_cons, length_append, length_nil] at hcount
    rw [← split_type_length]
    omega
  intro hone
  have htype : split_crlf (type_line header_type) = [type_line header_type] :=
    oneLine_type_line.mpr hone
  obtain ⟨disposition, hdisposition⟩ := content_disposition_named name
  refine ⟨content_len, header_type, disposition, ?_⟩
  rw [head_lines, htype, ← hdisposition]
  simp

theorem exact_head_iff :
    ExactHead linger (page_after method content)
        (download_text files method linger path content_type download_name content) ↔
      OneLine ((c_str content_type).take 255) ∨ (method ≠ .HEAD ∧ content = []) := by
  unfold download_text page_after
  by_cases hsent : method = .HEAD ∨ content ≠ []
  · rw [file_parts_sent hsent, if_pos hsent]
    dsimp only [Option.getD_none]
    rw [exactHead_head_lines, oneLine_default_type, oneLine_sent_type]
    have hno : ¬ (method ≠ .HEAD ∧ content = []) := by
      rintro ⟨hmethod, hcontent⟩
      exact hsent.elim hmethod (fun h => h hcontent)
    simp only [hno, or_false]
  · -- an empty file is answered with a page, and its type is not sent
    rw [file_parts_page hsent, if_neg hsent]
    dsimp only [Option.getD_some]
    rw [exactHead_head_lines]
    have hone : OneLine (lit "text/html") := by decide
    rw [not_or, not_not] at hsent
    exact ⟨fun _ => .inr hsent, fun _ => hone⟩

end Download

/-- **Response splitting through stored metadata**, for every multipart upload that is
accepted, every column of `n` bytes for its content type and every name of up to 128
characters of four bytes. -/
theorem download_splits_iff (EVP_DecodeBlock : Bytes → Option Bytes) (request : HttpRequest)
    (context : RequestContext) {payload : UploadPayload} (hupload : request.upload.has_file = true)
    (haccepted : parse_managed_upload_payload EVP_DecodeBlock request context = .ok payload)
    (n : ℕ) {download_name : Bytes} (hname : download_name.length ≤ 512)
    (files : Bytes → Option Bytes) (path : Bytes) {content : Bytes}
    (hfile : files ((c_str path).take (FILENAME_LEN - 1)) = some content) (method : Method)
    (linger : Bool) {ring : Ring} (hring : Fresh ring) :
    ∃ s, respond files method linger ring .FILE_REQUEST
        (.set_file path (payload.content_type.take n) download_name) = some (some s) ∧
      (ExactHead linger (page_after method content) s.out ↔
        OneLine ((c_str ((uploaded_type request).take n)).take 255) ∨
          (method ≠ .HEAD ∧ content = [])) := by
  rw [payload_type hupload haccepted]
  exact ⟨_, download_written hfile hname hring, exact_head_iff⟩

/-- An upload with a form field `content_type`. -/
def an_upload (content_type : Bytes) : HttpRequest where
  method := .POST
  path := lit "/api/drive/files/upload"
  form := [(lit "filename", lit "a.bin"), (lit "content_type", content_type)]
  upload := ⟨lit "/uploads/.tmp/u1", lit "a.bin", lit "text/plain", lit "00", 1⟩

/-- What is read from the form of `an_upload`. -/
def a_payload (content_type : Bytes) : UploadPayload where
  filename := lit "a.bin"
  content := []
  content_type := content_type
  temp_path := lit "/uploads/.tmp/u1"
  sha256 := lit "00"
  folder_id := 0
  size := 1
  use_temp_file := true

def init_ring : Ring := RingBuf.ofList 0 [] WRITE_BUFFER_INITIAL_SIZE (by decide)

theorem fresh_init_ring : Fresh init_ring := by
  refine ⟨⟨0, by omega, rfl⟩, ?_⟩
  exact RingBuf.contents_ofList _ _ _ _

/-- A plain content type, and a name that tries to end its line. -/
theorem plain_type_download :
    ∃ s, respond (fun _ => some [88]) .GET true init_ring .FILE_REQUEST
        (.set_file (lit "/uploads/f") (lit "text/x") (lit "a\x0d\x0ab.bin")) = some (some s) ∧
      ExactHead true [] s.out := by
  have haccepted : parse_managed_upload_payload (fun _ => none) (an_upload (lit "text/x"))
      { mysql := true, current_user := lit "ana", upload_max_bytes := 100 } =
        .ok (a_payload (lit "text/x")) := by decide
  obtain ⟨s, hrespond, hexact⟩ := download_splits_iff (fun _ => none) (an_upload (lit "text/x"))
    { mysql := true, current_user := lit "ana", upload_max_bytes := 100 } rfl haccepted 128
    (by decide : (lit "a\x0d\x0ab.bin").length ≤ 512) (fun _ => some [88]) (lit "/uploads/f") rfl
    .GET true fresh_init_ring
  exact ⟨s, hrespond, hexact.mpr (.inl (by decide))⟩

/-- A content type that adds a header of its own. -/
theorem type_adds_header :
    parse_managed_upload_payload (fun _ => none)
        (an_upload (lit "text/x\x0d\x0aSet-Cookie: sid=1"))
        { mysql := true, current_user := lit "ana", upload_max_bytes := 100 } =
      .ok (a_payload (lit "text/x\x0d\x0aSet-Cookie: sid=1")) ∧
    ∃ s, respond (fun _ => some [88]) .GET true init_ring .FILE_REQUEST
        (.set_file (lit "/uploads/f") (lit "text/x\x0d\x0aSet-Cookie: sid=1") (lit "a.bin")) =
          some (some s) ∧
      ¬ ExactHead true [] s.out ∧ lit "Set-Cookie: sid=1" ∈ split_crlf s.out := by
  refine ⟨by decide, ?_⟩
  have hname : (lit "a.bin").length ≤ 512 := by decide
  have hfile : (fun _ : Bytes => some [(88 : UInt8)])
      ((c_str (lit "/uploads/f")).take (FILENAME_LEN - 1)) = some [88] := rfl
  have hsplit : ¬ ExactHead true [] (download_text (fun _ => some [88]) .GET true (lit "/uploads/f")
      (lit "text/x\x0d\x0aSet-Cookie: sid=1") (lit "a.bin") [88]) := by
    refine mt exact_head_iff.mp ?_
    decide
  refine ⟨_, download_written hfile hname fresh_init_ring, hsplit, ?_⟩
  decide +kernel

end AtlasWebServer.Http
