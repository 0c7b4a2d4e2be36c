/-
What `parse_spooled_multipart` leaves on disk and in its out-parameters.

A file part writes its temp file before anything behind it is read, so the parse can still
fail when the file is complete. `fail` removes the file the result names; a part that fails
before its file is in the result removes it itself. One way of failing does neither: the file is
created before the context of the digest, and stays if there is no memory for that
(`Left.abandoned`).
-/
import AtlasWebServer.MultipartParser

set_option autoImplicit false

namespace AtlasWebServer.Multipart

open Bytes CString FileNames Search

/-- How the path of an upload's temp file starts. -/
def upload_start (doc_root : Bytes) : Bytes := temp_root doc_root ++ lit "/upload-"

variable {sha256_hex : Bytes → Bytes} {env : Env} {doc_root : Bytes} {upload_max_bytes : ℕ}
variable {boundary : Bytes} {temp temp' : Temp} {result : ParseResult}

/-- What a parse that failed leaves: nothing, or the file that was created without a context
for its digest. -/
inductive Left (env : Env) (doc_root : Bytes) (temp : Temp) : Temp → Prop
  | same : Left env doc_root temp temp
  | removed {path : Bytes} (hpath : upload_start doc_root <+: path) :
      Left env doc_root temp (Function.update temp path none)
  | abandoned {path : Bytes} (hpath : upload_start doc_root <+: path)
      (hcontext : env.context = false) :
      Left env doc_root temp (Function.update temp path (some []))

/-- What is reported: an empty result and one of three statuses. -/
structure Reported (e : Failed) : Prop where
  result : e.result = .init
  status : e.status = 400 ∨ e.status = 413 ∨ e.status = 500

/-- The result names the file that is there. -/
structure Holds (doc_root : Bytes) (temp temp' : Temp) (result : ParseResult) : Prop where
  without : result.has_file = false → result.file.temp_path = [] ∧ temp' = temp
  file : result.has_file = true → upload_start doc_root <+: result.file.temp_path ∧
    ∃ content, temp' = Function.update temp result.file.temp_path (some content)

theorem upload_start_ne_nil (doc_root : Bytes) : upload_start doc_root ≠ [] := by
  intro h
  have hlast := (List.append_eq_nil_iff.mp h).2
  exact absurd hlast (by decide)

variable {path : Bytes} {status : ℤ}

theorem ne_nil_of_start {start : Bytes} (hstart : start ≠ []) (h : start <+: path) : path ≠ [] := by
  rintro rfl
  exact hstart (List.prefix_nil.mp h)

theorem fail_left {α : Type} (h : Holds doc_root temp temp' result) (status : ℤ)
    (title message : Bytes) :
    Left env doc_root temp (fail temp' result status title message : Parse α).1 := by
  unfold fail
  cases hfile : result.has_file with
  | false =>
    obtain ⟨hpath, htemp⟩ := h.without hfile
    rw [if_pos hpath, htemp]
    exact .same
  | true =>
    obtain ⟨hpath, content, htemp⟩ := h.file hfile
    rw [if_neg (ne_nil_of_start (upload_start_ne_nil doc_root) hpath), htemp, Function.update_idem]
    exact .removed hpath

theorem holds_set_field (h : Holds doc_root temp temp' result) (name value : Bytes) :
    Holds doc_root temp temp' (result.set_field name value) := by
  unfold ParseResult.set_field
  split
  · exact h
  · exact ⟨h.without, h.file⟩

/-- What a part leaves, whether it is accepted or not. -/
structure PartLeft (env : Env) (doc_root : Bytes) (temp : Temp)
    (out : Parse (ParseResult × Reader Pieces × Bool)) : Prop where
  error : ∀ e, out.2 = .error e → Left env doc_root temp out.1
  reported : ∀ e, out.2 = .error e → Reported e
  ok : ∀ r, out.2 = .ok r → Holds doc_root temp out.1 r.1

theorem fail_reported {α : Type} (hstatus : status = 400 ∨ status = 413 ∨ status = 500)
    (title message : Bytes) :
    ∀ e, (fail temp result status title message : Parse α).2 = .error e → Reported e := by
  rintro _ ⟨rfl⟩
  exact ⟨rfl, hstatus⟩

theorem PartLeft.of_fail (h : Holds doc_root temp temp' result)
    (hstatus : status = 400 ∨ status = 413 ∨ status = 500) (title message : Bytes) :
    PartLeft env doc_root temp (fail temp' result status title message) :=
  ⟨fun _ _ => fail_left h status title message, fail_reported hstatus title message, nofun⟩

theorem PartLeft.of_left (hleft : Left env doc_root temp temp') (hpath : result.file.temp_path = [])
    (hstatus : status = 400 ∨ status = 413 ∨ status = 500) (title message : Bytes) :
    PartLeft env doc_root temp (fail temp' result status title message) := by
  refine ⟨fun _ _ => ?_, fail_reported hstatus title message, nofun⟩
  unfold fail
  rw [if_pos hpath]
  exact hleft

theorem parse_file_part_left (h : Holds doc_root temp temp' result) (r : Reader Pieces)
    (field_name field_filename field_content_type : Bytes) :
    PartLeft env doc_root temp (parse_file_part sha256_hex env doc_root upload_max_bytes boundary
      temp' result r field_name field_filename field_content_type) := by
  unfold parse_file_part
  split
  · exact .of_fail h (by decide) _ _
  rename_i hfile
  obtain ⟨hpath, rfl⟩ := h.without (Bool.eq_false_iff.mpr hfile)
  dsimp only
  have hstart : upload_start doc_root <+: temp_root doc_root ++ lit "/upload-" ++ env.token ++
      file_extension (sanitize_filename field_filename) := by
    rw [List.append_assoc]
    exact List.prefix_append _ _
  split
  · exact .of_fail h (by decide) _ _
  split
  · rename_i hcreate
    cases hopened : env.create with
    | false => exact .of_left .same hpath (by decide) _ _
    | true =>
      refine .of_left (.abandoned hstart ?_) hpath (by decide) _ _
      rcases hcreate with hcreate | hcontext
      · rw [hopened] at hcreate
        exact nomatch hcreate
      · exact hcontext
  · split
    · split <;> exact .of_left (.removed hstart) hpath (by decide) _ _
    split
    · exact .of_left (.removed hstart) hpath (by decide) _ _
    refine ⟨nofun, nofun, ?_⟩
    rintro _ ⟨rfl⟩
    apply holds_set_field
    exact ⟨nofun, fun _ => ⟨hstart, _, rfl⟩⟩

theorem parse_text_part_left (h : Holds doc_root temp temp' result) (r : Reader Pieces)
    (field_name : Bytes) :
    PartLeft env doc_root temp (parse_text_part boundary temp' result r field_name) := by
  unfold parse_text_part
  dsimp only
  split
  · split <;> exact .of_fail h (by decide) _ _
  · refine ⟨nofun, nofun, ?_⟩
    rintro _ ⟨rfl⟩
    exact holds_set_field h _ _

theorem parse_part_left (h : Holds doc_root temp temp' result) (r : Reader Pieces) :
    PartLeft env doc_root temp
      (parse_part sha256_hex env doc_root upload_max_bytes boundary temp' result r) := by
  unfold parse_part
  split
  · exact .of_fail h (by decide) _ _
  · exact .of_fail h (by decide) _ _
  split
  · exact .of_fail h (by decide) _ _
  dsimp only
  split
  · exact parse_file_part_left h _ _ _ _
  · exact parse_text_part_left h _ _

/-- What a whole parse leaves. -/
structure ParseLeft (env : Env) (doc_root : Bytes) (temp : Temp) (out : Parse ParseResult) :
    Prop where
  error : ∀ e, out.2 = .error e → Left env doc_root temp out.1
  reported : ∀ e, out.2 = .error e → Reported e
  ok : ∀ result, out.2 = .ok result → upload_start doc_root <+: result.file.temp_path ∧
    ∃ content, out.1 = Function.update temp result.file.temp_path (some content)

theorem ParseLeft.of_fail (h : Holds doc_root temp temp' result)
    (hstatus : status = 400 ∨ status = 413 ∨ status = 500) (title message : Bytes) :
    ParseLeft env doc_root temp (fail temp' result status title message) :=
  ⟨fun _ _ => fail_left h status title message, fail_reported hstatus title message, nofun⟩

theorem parse_loop_left (fuel : ℕ) (h : Holds doc_root temp temp' result) (r : Reader Pieces) :
    ParseLeft env doc_root temp
      (parse_loop sha256_hex env doc_root upload_max_bytes boundary fuel temp' result r) := by
  induction fuel generalizing temp' result r with
  | zero => exact .of_fail h (by decide) _ _
  | succ fuel ih =>
    have hpart : PartLeft env doc_root temp
        (parse_part sha256_hex env doc_root upload_max_bytes boundary temp' result r) :=
      parse_part_left h r
    unfold parse_loop
    generalize parse_part sha256_hex env doc_root upload_max_bytes boundary temp' result r = out
      at hpart ⊢
    obtain ⟨temp₁, e | ⟨result₁, r₁, is_final⟩⟩ := out
    · refine ⟨fun _ _ => hpart.error e rfl, ?_, nofun⟩
      rintro _ ⟨rfl⟩
      exact hpart.reported e rfl
    have hholds := hpart.ok _ rfl
    cases is_final with
    | false => exact ih hholds r₁
    | true =>
      dsimp only
      split
      · exact .of_fail hholds (by decide) _ _
      rename_i hfile
      refine ⟨nofun, nofun, ?_⟩
      rintro _ ⟨rfl⟩
      exact hholds.file (Bool.not_eq_false _ ▸ hfile)

theorem parse_spooled_left (spool_path content_type : Bytes) (temp : Temp) :
    ParseLeft env doc_root temp (parse_spooled_multipart sha256_hex env spool_path content_type
      doc_root upload_max_bytes temp) := by
  have hinit : Holds doc_root temp temp .init := ⟨fun _ => ⟨rfl, rfl⟩, nofun⟩
  unfold parse_spooled_multipart
  split
  · exact .of_fail hinit (by decide) _ _
  split
  · exact .of_fail hinit (by decide) _ _
  split
  · exact .of_fail hinit (by decide) _ _
  split
  · exact .of_fail hinit (by decide) _ _
  split
  · exact .of_fail hinit (by decide) _ _
  · exact .of_fail hinit (by decide) _ _
  · split
    · exact .of_fail hinit (by decide) _ _
    · exact parse_loop_left _ hinit _

theorem Left.frame (h : Left env doc_root temp temp') (hpath : ¬ upload_start doc_root <+: path) :
    temp' path = temp path := by
  cases h with
  | same => rfl
  | removed hstart =>
    apply Function.update_of_ne
    rintro rfl
    exact hpath hstart
  | abandoned hstart _ =>
    apply Function.update_of_ne
    rintro rfl
    exact hpath hstart

theorem Left.new (h : Left env doc_root temp temp') (hbefore : temp path = none)
    (hafter : temp' path ≠ none) : upload_start doc_root <+: path ∧ env.context = false := by
  cases h with
  | same => exact absurd hbefore hafter
  | @removed removed hstart =>
    by_cases heq : path = removed
    · rw [heq, Function.update_self] at hafter
      exact absurd rfl hafter
    · rw [Function.update_of_ne heq] at hafter
      exact absurd hbefore hafter
  | @abandoned created hstart hcontext =>
    by_cases heq : path = created
    · exact ⟨heq ▸ hstart, hcontext⟩
    · rw [Function.update_of_ne heq] at hafter
      exact absurd hbefore hafter

/-- **A parse that fails leaves nothing behind.** Every way to fail clears the result, reports
one of three statuses and removes the temp file of the call, if there is memory for the context of
the digest. -/
theorem failed_parse_leaves_nothing (hcontext : env.context = true)
    {spool_path content_type : Bytes} {failed : Failed}
    (h : parse_spooled_multipart sha256_hex env spool_path content_type doc_root upload_max_bytes
      temp = (temp', .error failed)) :
    failed.result = .init ∧ (failed.status = 400 ∨ failed.status = 413 ∨ failed.status = 500) ∧
      (∀ path, temp path = none → temp' path = none) ∧
      ∀ path, ¬ upload_start doc_root <+: path → temp' path = temp path := by
  have hleft : ParseLeft env doc_root temp (parse_spooled_multipart sha256_hex env spool_path
      content_type doc_root upload_max_bytes temp) :=
    parse_spooled_left spool_path content_type temp
  rw [h] at hleft
  have hreported := hleft.reported failed rfl
  have hfiles := hleft.error failed rfl
  refine ⟨hreported.result, hreported.status, ?_, fun path hpath => hfiles.frame hpath⟩
  intro path hbefore
  by_contra hafter
  have hlost := (hfiles.new hbefore hafter).2
  rw [hcontext] at hlost
  exact nomatch hlost

/-- A file part, and a part whose header has no colon. -/
def broken_after_file : Bytes := lit
  "--b\r\nContent-Disposition: form-data; filename=\"a\"\r\n\r\nHey\r\n--b\r\nbroken\r\n\r\n"

theorem broken_after_file_leaves_nothing :
    ∃ temp' failed, parse_spooled_multipart id ⟨some [broken_after_file], lit "t", true, true,
        fun _ => true, true⟩ (lit "/s") (lit "multipart/form-data; boundary=b") (lit "/r") 10
        (fun _ => none) = (temp', .error failed) ∧
      failed.result = .init ∧ failed.status = 400 ∧ ∀ path, temp' path = none := by
  have hfails : ∃ temp' failed, parse_spooled_multipart id ⟨some [broken_after_file], lit "t", true,
      true, fun _ => true, true⟩ (lit "/s") (lit "multipart/form-data; boundary=b") (lit "/r") 10
      (fun _ => none) = (temp', .error failed) ∧ failed.status = 400 := ⟨_, _, rfl, rfl⟩
  obtain ⟨temp', failed, h, hstatus⟩ := hfails
  obtain ⟨hresult, -, hnew, -⟩ := failed_parse_leaves_nothing rfl h
  exact ⟨temp', failed, h, hresult, hstatus, fun path => hnew path rfl⟩

end AtlasWebServer.Multipart
