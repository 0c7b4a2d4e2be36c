/-
The name and the content type a download is sent under: `sanitize_download_filename`
and `encode_download_filename` (`http/files/file_helpers.cpp`) and
`normalize_download_metadata` (`http/files/file_response.cpp`).

Both forms of the name are printable ASCII whatever the stored name holds
(`printable_sanitized`, `printable_encoded`), so no byte of a name ends a header line.
The content type has no such form: `normalize_download_metadata` replaces it for some
files and passes it on for all others.
-/
import AtlasWebServer.FileNames

set_option autoImplicit false

namespace AtlasWebServer.Downloads

open Bytes CString List

open AtlasWebServer.FileNames (find_last_of)

/-! ## The file name -/

/-- The bytes `sanitize_download_filename` keeps. -/
def keeps (ch : UInt8) : Bool :=
  32 ≤ ch && ch < 127 && ch ≠ 34 && ch ≠ 92 && ch ≠ 47 && ch ≠ 59

/-- One pass of the loop of `sanitize_download_filename`. -/
def sanitize_byte (ch : UInt8) : Bytes :=
  if keeps ch then [ch] else if isspace ch then [95] else []

def sanitize_download_filename (value : Bytes) : Bytes :=
  let cleaned := value.flatMap sanitize_byte
  if cleaned = [] ∨ cleaned = lit "." ∨ cleaned = lit ".." then lit "download"
  else cleaned.take 120

/-- The bytes `encode_download_filename` leaves as they are. -/
def unreserved (ch : UInt8) : Bool := isalnum ch || ch = 46 || ch = 95 || ch = 45 || ch = 126

def hex_upper (n : UInt8) : UInt8 := if n < 10 then 48 + n else 55 + n

/-- One pass of the loop of `encode_download_filename`. -/
def encode_byte (ch : UInt8) : Bytes :=
  if unreserved ch then [ch] else [37, hex_upper (ch / 16), hex_upper (ch % 16)]

def encode_download_filename (value : Bytes) : Bytes :=
  let encoded := value.flatMap encode_byte
  if encoded = [] then lit "download" else encoded

def Printable (s : Bytes) : Prop := ∀ b ∈ s, 32 ≤ b.toNat ∧ b.toNat < 127

instance (s : Bytes) : Decidable (Printable s) := List.decidableBAll _ _

theorem Printable.append {s t : Bytes} (hs : Printable s) (ht : Printable t) :
    Printable (s ++ t) := by
  intro b hb
  rcases mem_append.mp hb with hb | hb
  · exact hs b hb
  · exact ht b hb

theorem printable_flatMap {f : UInt8 → Bytes} (h : ∀ b, Printable (f b)) (s : Bytes) :
    Printable (s.flatMap f) := by
  intro b hb
  obtain ⟨ch, -, hb⟩ := mem_flatMap.mp hb
  exact h ch b hb

theorem printable_sanitize_byte (ch : UInt8) : Printable (sanitize_byte ch) := by
  revert ch
  apply forall_byte
  decide +kernel

theorem printable_sanitized (value : Bytes) : Printable (sanitize_download_filename value) := by
  unfold sanitize_download_filename
  dsimp only
  split
  · decide
  · intro b hb
    exact printable_flatMap printable_sanitize_byte value b (mem_of_mem_take hb)

theorem printable_encode_byte (ch : UInt8) : Printable (encode_byte ch) := by
  revert ch
  apply forall_byte
  decide +kernel

theorem printable_encoded (value : Bytes) : Printable (encode_download_filename value) := by
  unfold encode_download_filename
  dsimp only
  split
  · decide
  · exact printable_flatMap printable_encode_byte value

theorem length_sanitized (value : Bytes) : (sanitize_download_filename value).length ≤ 120 := by
  unfold sanitize_download_filename
  dsimp only
  split
  · decide
  · exact length_take_le _ _

theorem length_encoded (value : Bytes) :
    (encode_download_filename value).length ≤ 3 * value.length + 8 := by
  have hbyte : ∀ ch, (encode_byte ch).length ≤ 3 := by
    intro ch
    unfold encode_byte
    split <;> simp
  have hall : (value.flatMap encode_byte).length ≤ 3 * value.length := by
    induction value with
    | nil => simp
    | cons ch value ih =>
      rw [flatMap_cons, length_append, length_cons]
      have := hbyte ch
      omega
  unfold encode_download_filename
  dsimp only
  split
  · have : (lit "download").length = 8 := by decide
    omega
  · omega

/-! ## The content type -/

def ends_with_ignore_case (value suffix : Bytes) : Bool :=
  decide (suffix.length ≤ value.length) &&
    decide (lowercase (value.drop (value.length - suffix.length)) = lowercase suffix)

def has_filename_extension (name : Bytes) : Bool :=
  match find_last_of (fun ch => ch = 46) name with
  | none => false
  | some dot =>
      (match find_last_of (fun ch => ch = 47 || ch = 92) name with
        | none => true
        | some slash => decide (slash + 1 < dot)) && decide (dot + 1 < name.length)

def extensions : List (Bytes × Bytes) :=
  [(lit "image/jpeg", lit ".jpg"), (lit "image/jpg", lit ".jpg"), (lit "image/png", lit ".png"),
    (lit "image/gif", lit ".gif"), (lit "image/webp", lit ".webp"), (lit "image/bmp", lit ".bmp"),
    (lit "image/svg+xml", lit ".svg"), (lit "video/mp4", lit ".mp4"),
      (lit "audio/mpeg", lit ".mp3"),
    (lit "application/pdf", lit ".pdf"), (lit "application/zip", lit ".zip"),
    (lit "application/json", lit ".json"), (lit "text/plain", lit ".txt"),
    (lit "text/html", lit ".html")]

def content_type_extension (content_type : Bytes) : Bytes :=
  (extensions.lookup ((lowercase content_type).takeWhile (· ≠ 59))).getD []

/-- The loop of `starts_with_html_document` over blanks and byte order marks. -/
def skip_blanks : ℕ → Bytes → Bytes
  | 0, s => s
  | _, [] => []
  | fuel + 1, 0xEF :: 0xBB :: 0xBF :: s => skip_blanks fuel s
  | fuel + 1, ch :: s => if isspace ch then skip_blanks fuel s else ch :: s

/-- `starts_with_html_document` of a file's content. `compare(0, 15, ...)` takes fifteen
bytes and compares them with fourteen. -/
def starts_with_html_document (content : Bytes) : Bool :=
  let start := skip_blanks 256 (content.take 256)
  start.take 15 = lit "<!DOCTYPE html" || start.take 5 = lit "<html" ||
    start.take 14 = lit "<!doctype html"

def untyped (content_type : Bytes) : Bool :=
  content_type = lit "text/plain" || content_type = lit "application/octet-stream"

/-- `normalize_download_metadata`: the content type and the name. `content` is what can
be read at the path, if anything. -/
def normalize_download_metadata (content : Option Bytes) (content_type download_name : Bytes) :
    Bytes × Bytes :=
  let download_name := if download_name = [] then lit "download" else download_name
  if ends_with_ignore_case download_name (lit ".html") ||
      ends_with_ignore_case download_name (lit ".htm") then
    if content_type = [] ∨ untyped content_type then
      (lit "text/html; charset=utf-8", download_name)
    else (content_type, download_name)
  else if untyped content_type && (content.map starts_with_html_document).getD false then
    (lit "text/html; charset=utf-8",
      if has_filename_extension download_name then download_name else download_name ++ lit ".html")
  else
    (content_type,
      if has_filename_extension download_name then download_name
      else download_name ++ content_type_extension content_type)

theorem length_content_type_extension (content_type : Bytes) :
    (content_type_extension content_type).length ≤ 5 := by
  unfold content_type_extension
  have hall : ∀ entry ∈ extensions, entry.2.length ≤ 5 := by decide
  cases hfound : extensions.lookup ((lowercase content_type).takeWhile (· ≠ 59)) with
  | none => simp
  | some ext =>
    obtain ⟨before, after, heq, -⟩ := lookup_eq_some_iff.mp hfound
    have hmem : ((lowercase content_type).takeWhile (· ≠ 59), ext) ∈ extensions := by
      rw [heq]
      exact mem_append_right before mem_cons_self
    exact hall _ hmem

theorem length_normalized_name (content : Option Bytes) (content_type download_name : Bytes) :
    (normalize_download_metadata content content_type download_name).2.length ≤
      download_name.length + 13 := by
  have hname : (if download_name = [] then lit "download" else download_name).length ≤
      download_name.length + 8 := by
    split
    · have : (lit "download").length = 8 := by decide
      omega
    · omega
  have hext := length_content_type_extension content_type
  have hhtml : (lit ".html").length = 5 := by decide
  unfold normalize_download_metadata
  dsimp only
  generalize (if download_name = [] then lit "download" else download_name) = name at hname
  split
  · split <;> (dsimp only; omega)
  split
  · dsimp only
    split
    · omega
    · rw [length_append]
      omega
  dsimp only
  split
  · omega
  · rw [length_append]
    omega

theorem normalized_type (content : Option Bytes) (content_type download_name : Bytes) :
    (normalize_download_metadata content content_type download_name).1 = content_type ∨
      ((content_type = [] ∨ untyped content_type = true) ∧
        (normalize_download_metadata content content_type download_name).1 =
          lit "text/html; charset=utf-8") := by
  unfold normalize_download_metadata
  dsimp only
  generalize (if download_name = [] then lit "download" else download_name) = name
  split
  · split
    · rename_i htype
      exact .inr ⟨htype, rfl⟩
    · exact .inl rfl
  split
  · rename_i htype
    rw [Bool.and_eq_true] at htype
    exact .inr ⟨.inr htype.1, rfl⟩
  · exact .inl rfl

end AtlasWebServer.Downloads
