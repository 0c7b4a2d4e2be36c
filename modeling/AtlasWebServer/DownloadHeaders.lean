/-
What a download says about itself: is an HTML document recognised, and can the two forms of
the name be read back?

The names can. The encoded form is one of the encodings of `Forms`, so `url_decode` undoes it,
and neither form has a `;` to end its parameter. The document cannot always: the comparison
with `<!DOCTYPE html` takes one byte more than the text has, so it succeeds only for a file
that ends there.
-/
import AtlasWebServer.FormDecoding
import AtlasWebServer.ResponseWriter

set_option autoImplicit false

namespace AtlasWebServer.Downloads

open Bytes CString Http Forms List

/-! ## HTML documents -/

/-- A mixture of byte order marks and whitespace. -/
inductive Blanks : Bytes → Prop
  | nil : Blanks []
  | mark {s : Bytes} (h : Blanks s) : Blanks (0xEF :: 0xBB :: 0xBF :: s)
  | space {ch : UInt8} {s : Bytes} (hch : isspace ch = true) (h : Blanks s) : Blanks (ch :: s)

/-- The first 256 bytes are blanks and then a text that starts with `start`. -/
def Starts (start content : Bytes) : Prop :=
  ∃ skipped rest, content.take 256 = skipped ++ rest ∧ Blanks skipped ∧ start <+: rest

def HtmlDocument (content : Bytes) : Prop :=
  Starts (lit "<!DOCTYPE html") content ∨ Starts (lit "<!doctype html") content ∨
    Starts (lit "<html") content

/-- The name of the download ends in `.html` or `.htm`. -/
def named_html (download_name : Bytes) : Bool :=
  ends_with_ignore_case download_name (lit ".html") ||
    ends_with_ignore_case download_name (lit ".htm")

/-- The content is recognised for what it is, and sent as such. -/
structure HtmlRecognised (content : Bytes) : Prop where
  starts : starts_with_html_document content = true ↔ HtmlDocument content
  sent : HtmlDocument content → ∀ content_type download_name, untyped content_type = true →
    named_html download_name = false →
    (normalize_download_metadata (some content) content_type download_name).1 =
      lit "text/html; charset=utf-8"

theorem skip_blanks_split (fuel : ℕ) (s : Bytes) :
    ∃ skipped, s = skipped ++ skip_blanks fuel s ∧ Blanks skipped := by
  fun_induction skip_blanks fuel s with
  | case1 s => exact ⟨[], rfl, .nil⟩
  | case2 => exact ⟨[], rfl, .nil⟩
  | case3 fuel s ih =>
    obtain ⟨skipped, hsplit, hblanks⟩ := ih
    refine ⟨0xEF :: 0xBB :: 0xBF :: skipped, ?_, hblanks.mark⟩
    nth_rewrite 1 [hsplit]
    rfl
  | case4 fuel ch s _ hch ih =>
    obtain ⟨skipped, hsplit, hblanks⟩ := ih
    refine ⟨ch :: skipped, ?_, hblanks.space hch⟩
    nth_rewrite 1 [hsplit]
    rfl
  | case5 => exact ⟨[], rfl, .nil⟩

theorem skip_blanks_stop {skipped : Bytes} (h : Blanks skipped) (rest : Bytes) {fuel : ℕ}
    (hfuel : skipped.length ≤ fuel) : skip_blanks fuel (skipped ++ 60 :: rest) = 60 :: rest := by
  induction h generalizing fuel with
  | nil =>
    cases fuel with
    | zero => rfl
    | succ fuel => simp [skip_blanks, isspace]
  | mark h ih =>
    obtain ⟨fuel, rfl⟩ : ∃ n, fuel = n + 1 := ⟨fuel - 1, by simp at hfuel; omega⟩
    exact ih (by simp at hfuel; omega)
  | space hch h ih =>
    rename_i ch s
    obtain ⟨fuel, rfl⟩ : ∃ n, fuel = n + 1 := ⟨fuel - 1, by simp at hfuel; omega⟩
    have hno_mark : ch ≠ 0xEF := by
      rintro rfl
      exact absurd hch (by decide)
    rw [cons_append, skip_blanks, if_pos hch]
    · exact ih (by simpa using hfuel)
    · intro s' heq
      exact absurd heq hno_mark

theorem starts_iff {start : Bytes} (hstart : start.head? = some 60) (content : Bytes) :
    Starts start content ↔ start <+: skip_blanks 256 (content.take 256) := by
  obtain ⟨start, rfl⟩ := List.head?_eq_some_iff.mp hstart
  constructor
  · rintro ⟨skipped, rest, hsplit, hblanks, more, rfl⟩
    have hlength := congrArg List.length hsplit
    rw [length_append, length_take] at hlength
    rw [hsplit, cons_append, skip_blanks_stop hblanks _ (by omega)]
    exact ⟨more, rfl⟩
  · intro hprefix
    obtain ⟨skipped, hsplit, hblanks⟩ := skip_blanks_split 256 (content.take 256)
    exact ⟨skipped, _, hsplit, hblanks, hprefix⟩

theorem starts_with_html_document_iff (content : Bytes) :
    starts_with_html_document content = true ↔
      skip_blanks 256 (content.take 256) = lit "<!DOCTYPE html" ∨
        Starts (lit "<!doctype html") content ∨ Starts (lit "<html") content := by
  rw [starts_iff (by decide), starts_iff (by decide)]
  unfold starts_with_html_document
  generalize skip_blanks 256 (content.take 256) = start
  have hwhole : start.take 15 = lit "<!DOCTYPE html" ↔ start = lit "<!DOCTYPE html" := by
    constructor
    · intro h
      have hlength := congrArg List.length h
      have hfourteen : (lit "<!DOCTYPE html").length = 14 := by decide
      rw [hfourteen, length_take] at hlength
      rwa [take_of_length_le (by omega)] at h
    · rintro rfl
      decide
  have hlower : start.take 14 = lit "<!doctype html" ↔ lit "<!doctype html" <+: start := by
    rw [prefix_iff_eq_take, eq_comm]
    rfl
  have hhtml : start.take 5 = lit "<html" ↔ lit "<html" <+: start := by
    rw [prefix_iff_eq_take, eq_comm]
    rfl
  simp only [Bool.or_eq_true, decide_eq_true_eq, hwhole, hlower, hhtml]
  tauto

/-- **HTML documents are recognised** unless `<!DOCTYPE html` is followed by something. -/
theorem html_recognised_iff (content : Bytes) :
    HtmlRecognised content ↔ ∀ b, ¬ Starts (lit "<!DOCTYPE html" ++ [b]) content := by
  have hmore : ∀ b, Starts (lit "<!DOCTYPE html" ++ [b]) content ↔
      lit "<!DOCTYPE html" ++ [b] <+: skip_blanks 256 (content.take 256) :=
    fun b => starts_iff rfl content
  have hupper := starts_iff (by decide : (lit "<!DOCTYPE html").head? = some 60) content
  have hcode := starts_with_html_document_iff content
  simp only [hmore]
  constructor
  · rintro ⟨hstarts, -⟩ b hnext
    have hfirst := (prefix_append _ _).trans hnext
    -- the text starts in one way only
    have hother : ∀ {text : Bytes}, text.head? = some 60 → text.length ≤ 14 →
        ¬ text <+: lit "<!DOCTYPE html" → ¬ Starts text content := by
      intro text hhead hlength hdiffer hstart
      exact hdiffer (prefix_of_prefix_length_le ((starts_iff hhead content).mp hstart) hfirst
        hlength)
    rcases hcode.mp (hstarts.mpr (.inl (hupper.mpr hfirst))) with hwhole | hlower | hhtml
    · rw [hwhole] at hnext
      exact absurd hnext.length_le (by simp)
    · exact hother (by decide) (by decide) (by decide) hlower
    · exact hother (by decide) (by decide) (by decide) hhtml
  · intro hend
    have hstarts : starts_with_html_document content = true ↔ HtmlDocument content := by
      rw [hcode, HtmlDocument, hupper]
      refine or_congr_left ⟨fun hwhole => hwhole ▸ prefix_refl _, ?_⟩
      rintro ⟨more, hsplit⟩
      cases more with
      | nil => rw [← hsplit, append_nil]
      | cons b more => exact absurd ⟨more, by rw [← hsplit]; simp⟩ (hend b)
    refine ⟨hstarts, fun hdocument content_type download_name htype hname => ?_⟩
    have hnamed : named_html (if download_name = [] then lit "download" else download_name) =
        false := by
      split_ifs
      · decide
      · exact hname
    unfold named_html at hnamed
    unfold normalize_download_metadata
    dsimp only
    rw [hnamed, if_neg Bool.false_ne_true, htype, Option.map_some, hstarts.mpr hdocument]
    rfl

/-- A plain HTML5 document is sent as text. -/
theorem html5_missed :
    HtmlDocument (lit "<!DOCTYPE html><html></html>") ∧
      starts_with_html_document (lit "<!DOCTYPE html><html></html>") = false ∧
      (normalize_download_metadata (some (lit "<!DOCTYPE html><html></html>")) (lit "text/plain")
        (lit "page")).1 = lit "text/plain" := by
  refine ⟨.inl ⟨[], lit "<!DOCTYPE html><html></html>", by decide, .nil, by decide⟩, ?_, ?_⟩
  · decide
  · decide

/-! ## Names -/

theorem encodes_byte (ch : UInt8) : EncodesByte ch (encode_byte ch) := by
  have hbyte : ∀ ch : UInt8, Forms.unreserved ch = unreserved ch ∧
      isxdigit (hex_upper (ch / 16)) = true ∧ isxdigit (hex_upper (ch % 16)) = true ∧
      hexadecimal [hex_upper (ch / 16), hex_upper (ch % 16)] = ch.toNat := by
    apply forall_byte
    decide +kernel
  obtain ⟨hsame, hhigh, hlow, hvalue⟩ := hbyte ch
  unfold encode_byte
  split_ifs with hplain
  · exact .plain (hsame.trans hplain)
  · exact .percent (hsame.trans (Bool.eq_false_iff.mpr hplain)) hhigh hlow hvalue

theorem encodes_flatMap (s : Bytes) : Encodes s (s.flatMap encode_byte) := by
  induction s with
  | nil => exact .nil
  | cons ch s ih => exact .cons (encodes_byte ch) ih

theorem encode_download_filename_eq {s : Bytes} (hs : s ≠ []) :
    encode_download_filename s = s.flatMap encode_byte := by
  have hne : s.flatMap encode_byte ≠ [] := by
    intro hnil
    have hdecode := (encodes_flatMap s).decode
    rw [hnil] at hdecode
    exact hs hdecode.symm
  unfold encode_download_filename
  dsimp only
  rw [if_neg hne]

theorem mem_encoded {s : Bytes} {b : UInt8} (hb : b ∈ encode_download_filename s) :
    (unreserved b || b = 37) = true := by
  have hbyte : ∀ ch : UInt8, (encode_byte ch).all (fun b => unreserved b || b = 37) = true := by
    apply forall_byte
    decide +kernel
  unfold encode_download_filename at hb
  dsimp only at hb
  split_ifs at hb
  · exact (all_eq_true (p := fun b => unreserved b || b = 37)).mp (by decide) b hb
  · obtain ⟨ch, -, hb⟩ := mem_flatMap.mp hb
    exact all_eq_true.mp (hbyte ch) b hb

/-- A name that can stand between quotes. -/
structure QuotedName (name : Bytes) : Prop where
  ne_nil : name ≠ []
  length : name.length ≤ 120
  ne_dot : name ≠ lit "."
  ne_dots : name ≠ lit ".."
  bytes : ∀ b ∈ name, keeps b = true

theorem quotedName_sanitized (s : Bytes) : QuotedName (sanitize_download_filename s) := by
  have hbyte : ∀ ch : UInt8, (sanitize_byte ch).all keeps = true := by
    apply forall_byte
    decide +kernel
  have hlength := length_sanitized s
  unfold sanitize_download_filename at hlength ⊢
  dsimp only at hlength ⊢
  split_ifs at hlength ⊢ with hdefault
  · exact ⟨by decide, by decide, by decide, by decide, all_eq_true.mp (by decide)⟩
  simp only [not_or] at hdefault
  -- a name that is cut has 120 bytes, so it is none of the three
  have hcut : ∀ name : Bytes, name.length < 120 → s.flatMap sanitize_byte ≠ name →
      (s.flatMap sanitize_byte).take 120 ≠ name := by
    intro name hshort hne heq
    have hlen := congrArg List.length heq
    rw [length_take] at hlen
    rw [take_of_length_le (by omega)] at heq
    exact hne heq
  refine ⟨hcut _ (by decide) hdefault.1, hlength, hcut _ (by decide) hdefault.2.1,
    hcut _ (by decide) hdefault.2.2, fun b hb => ?_⟩
  obtain ⟨ch, -, hb⟩ := mem_flatMap.mp (mem_of_mem_take hb)
  exact all_eq_true.mp (hbyte ch) b hb

/-- What a client gets to know of the name `s`. -/
structure NameSent (s : Bytes) : Prop where
  encoded : s ≠ [] → (∀ b ∈ encode_download_filename s, (unreserved b || b = 37) = true) ∧
    url_decode (encode_download_filename s) = s
  quoted : QuotedName (sanitize_download_filename s)
  parameters : (content_disposition s).splitOn 59 =
    [lit "Content-Disposition: attachment",
      lit " filename=\"" ++ sanitize_download_filename s ++ lit "\"",
      lit " filename*=UTF-8''" ++ encode_download_filename s]

/-- **The name is read back**: the encoded form decodes to it, and the header has its two
parameters. -/
theorem name_sent (s : Bytes) : NameSent s := by
  have hquoted := quotedName_sanitized s
  refine ⟨fun hs => ⟨fun b => mem_encoded, ?_⟩, hquoted, ?_⟩
  · rw [encode_download_filename_eq hs]
    exact (encodes_flatMap s).decode
  have hfirst : (59 : UInt8) ∉ lit " filename=\"" ++ sanitize_download_filename s ++ lit "\"" := by
    simp only [mem_append, not_or]
    exact ⟨⟨by decide, fun h => absurd (hquoted.bytes 59 h) (by decide)⟩, by decide⟩
  have hsecond : (59 : UInt8) ∉ lit " filename*=UTF-8''" ++ encode_download_filename s := by
    rw [mem_append, not_or]
    exact ⟨by decide, fun h => absurd (mem_encoded h) (by decide)⟩
  have htext : content_disposition s = lit "Content-Disposition: attachment" ++ 59 ::
      ((lit " filename=\"" ++ sanitize_download_filename s ++ lit "\"") ++ 59 ::
        (lit " filename*=UTF-8''" ++ encode_download_filename s)) := by
    have hopen : lit "Content-Disposition: attachment; filename=\"" =
        lit "Content-Disposition: attachment" ++ 59 :: lit " filename=\"" := by decide
    have hclose : lit "\"; filename*=UTF-8''" = lit "\"" ++ 59 :: lit " filename*=UTF-8''" := by
      decide
    rw [content_disposition, hopen, hclose]
    simp
  rw [htext, splitOn_append_cons (by decide), splitOn_append_cons hfirst,
    splitOn_of_not_mem hsecond]

end AtlasWebServer.Downloads
