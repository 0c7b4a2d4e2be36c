/-
Request targets: what `parse_request_line` keeps of the target of its line.

`RequestLine` is the grammar: a method, blanks, a target, blanks and a version. The
target is a path with or without a query, after a scheme and an authority if it is
absolute. Method, scheme and version are the names the parser knows, in any case; an
authority is whatever stands before the first slash.

The path is kept as it is, the root as the index page. The query is kept unless the
path is the root: the page's name is appended in place, and the query's pointer then
reads the end of that name.
-/
import AtlasWebServer.RequestLineSafety

set_option autoImplicit false

namespace AtlasWebServer.Http

open Bytes CString List

/-! ## The grammar -/

structure Gap (gap : Bytes) : Prop where
  nonempty : gap ≠ []
  blanks : ∀ b ∈ gap, b ∈ blank

def query_text (q : Option Bytes) : Bytes := q.elim [] (63 :: ·)

def Authority (front : Bytes) : Prop :=
  ∃ scheme authority : Bytes, front = scheme ++ authority ∧ 47 ∉ authority ∧
    (strcasecmp scheme (lit "http://") = true ∨ strcasecmp scheme (lit "https://") = true)

/-- A request line, by its parts. -/
structure RequestLine where
  method : Bytes
  gap : Bytes
  front : Bytes
  path : Bytes
  query : Option Bytes
  gap' : Bytes
  version : Bytes
  known_method : (method_of method).isSome = true
  blanks : Gap gap
  form : front = [] ∨ Authority front
  slash : path.head? = some 47
  no_question : 63 ∉ path
  no_blank : ∀ b ∈ front ++ (path ++ query_text query), b ∉ blank
  blanks' : Gap gap'
  known_version : (http_1_1_of version).isSome = true

namespace RequestLine

def origin (line : RequestLine) : Bytes := line.path ++ query_text line.query

def target (line : RequestLine) : Bytes := line.front ++ line.origin

def text (line : RequestLine) : Bytes :=
  line.method ++ (line.gap ++ (line.target ++ (line.gap' ++ line.version)))

end RequestLine

/-! ## Names -/

variable {s t name version word gap text scheme url authority origin : Bytes} {b : UInt8} {h : Head}

theorem strcasecmp_not_mem (h : strcasecmp s t = true) (hb : tolower b ∉ lowercase t) : b ∉ s := by
  intro hmem
  apply hb
  rw [← of_decide_eq_true h]
  exact mem_map_of_mem hmem

def method_names : List Bytes :=
  [lit "GET", lit "HEAD", lit "OPTIONS", lit "POST", lit "PUT", lit "DELETE", lit "TRACE",
    lit "CONNECT", lit "PATCH"]

theorem known_name (h : (method_of name).isSome = true) :
    ∃ known ∈ method_names, strcasecmp name known = true := by
  by_contra hnone
  push Not at hnone
  simp only [method_names, forall_mem_cons] at hnone
  obtain ⟨h1, h2, h3, h4, h5, h6, h7, h8, h9, -⟩ := hnone
  rw [method_of, if_neg h1, if_neg h2, if_neg h3, if_neg h4, if_neg h5, if_neg h6, if_neg h7,
    if_neg h8, if_neg h9] at h
  simp at h

theorem known_version_name (h : (http_1_1_of version).isSome = true) :
    strcasecmp version (lit "HTTP/1.1") = true ∨ strcasecmp version (lit "HTTP/1.0") = true := by
  unfold http_1_1_of at h
  split_ifs at h with h1 h0
  · exact .inl h1
  · exact .inr h0
  · simp at h

theorem method_not_mem (h : (method_of name).isSome = true) : ∀ b ∈ 0 :: blank, b ∉ name := by
  obtain ⟨known, hmem, hname⟩ := known_name h
  have hall : ∀ known ∈ method_names, ∀ b ∈ 0 :: blank, tolower b ∉ lowercase known := by
    decide +kernel
  intro b hb
  exact strcasecmp_not_mem hname (hall known hmem b hb)

theorem RequestLine.method_word (line : RequestLine) : ∀ b ∈ line.method, b ∉ blank := by
  intro b hb hblank
  exact method_not_mem line.known_method b (mem_cons_of_mem 0 hblank) hb

theorem version_not_mem (h : (http_1_1_of version).isSome = true) :
    ∀ b ∈ 0 :: blank, b ∉ version := by
  intro b hb
  have hall : ∀ b ∈ 0 :: blank, tolower b ∉ lowercase (lit "HTTP/1.1") ∧
      tolower b ∉ lowercase (lit "HTTP/1.0") := by decide +kernel
  rcases known_version_name h with hname | hname
  · exact strcasecmp_not_mem hname (hall b hb).1
  · exact strcasecmp_not_mem hname (hall b hb).2

/-! ## Words -/

theorem dropWhile_stop {p : UInt8 → Bool} {rest : Bytes} (h : s.dropWhile p = b :: rest) :
    p b = false := by
  have hne : s.dropWhile p ≠ [] := by rw [h]; simp
  have hhead := head_dropWhile_not p hne
  have hb : (s.dropWhile p).head hne = b := by
    rw [head_eq_iff_head?_eq_some, h]
    rfl
  rwa [hb] at hhead

theorem takeWhile_word (hword : ∀ b ∈ word, b ∉ blank) (hgap : Gap gap) (after : Bytes) :
    (word ++ (gap ++ after)).takeWhile (· ∉ blank) = word := by
  obtain ⟨b, gap, rfl⟩ := exists_cons_of_ne_nil hgap.nonempty
  have hb := hgap.blanks b mem_cons_self
  rw [takeWhile_append_of_pos (by simpa using hword), cons_append,
    takeWhile_cons_of_neg (by simpa using hb), append_nil]

theorem dropWhile_gap {after : Bytes} (hgap : Gap gap)
    (hafter : after.dropWhile (· ∈ blank) = after) :
    ((word ++ (gap ++ after)).drop (word.length + 1)).dropWhile (· ∈ blank) = after := by
  obtain ⟨b, gap, rfl⟩ := exists_cons_of_ne_nil hgap.nonempty
  have hrest : ∀ b ∈ gap, decide (b ∈ blank) = true := by
    intro x hx
    exact decide_eq_true (hgap.blanks x (mem_cons_of_mem b hx))
  rw [drop_append, Nat.add_sub_cancel_left, drop_eq_nil_of_le (by omega), nil_append,
    cons_append, drop_succ_cons, drop_zero, dropWhile_append_of_pos hrest, hafter]

theorem split_word (h : (text.takeWhile (· ∉ blank)).length < text.length) :
    ∃ gap, Gap gap ∧ text = text.takeWhile (· ∉ blank) ++ (gap ++
      (text.drop ((text.takeWhile (· ∉ blank)).length + 1)).dropWhile (· ∈ blank)) := by
  set word := text.takeWhile (· ∉ blank) with hword
  have htext : word ++ text.dropWhile (· ∉ blank) = text := takeWhile_append_dropWhile
  have hne : text.dropWhile (· ∉ blank) ≠ [] := by
    intro hnil
    rw [hnil, append_nil] at htext
    rw [htext] at h
    omega
  obtain ⟨b, rest, hdrop⟩ := exists_cons_of_ne_nil hne
  have hb : b ∈ blank := by
    simpa using dropWhile_stop hdrop
  rw [hdrop] at htext
  have hrest : text.drop (word.length + 1) = rest := by
    rw [← htext, drop_append, drop_eq_nil_of_le (by omega), Nat.add_sub_cancel_left]
    rfl
  refine ⟨b :: rest.takeWhile (· ∈ blank), ⟨by simp, ?_⟩, ?_⟩
  · intro x hx
    rcases mem_cons.mp hx with rfl | hx
    · exact hb
    · simpa using mem_takeWhile_imp hx
  · rw [hrest, cons_append, takeWhile_append_dropWhile, htext]

theorem dropWhile_blank_eq (h : ∀ b ∈ blank, text.head? ≠ some b) :
    text.dropWhile (· ∈ blank) = text := by
  cases text with
  | nil => rfl
  | cons b text =>
    apply dropWhile_cons_of_neg
    intro hb
    exact h b (of_decide_eq_true hb) rfl

/-! ## Targets -/

theorem path_of_origin (line : RequestLine) : path_of line.origin = line.path := by
  have hpath : ∀ b ∈ line.path, decide (b ∉ [(63 : UInt8)]) = true := by
    intro b hb
    simp only [mem_singleton, decide_eq_true_eq]
    rintro rfl
    exact line.no_question hb
  rw [path_of, RequestLine.origin, takeWhile_append_of_pos hpath]
  cases line.query <;> simp [query_text]

def page_of (path : Bytes) : Bytes := if path = [47] then 47 :: lit "index.html" else path

def stored_query (path : Bytes) (query : Option Bytes) : Bytes :=
  if path = [47] then query.elim [] fun _ => lit "ndex.html" else query.getD []

theorem target_of_origin (h : Head) (line : RequestLine) :
    target_of h line.origin = ({ h with
      m_url_storage := page_of line.path
      m_query_string_storage := stored_query line.path line.query }, .code .NO_REQUEST) := by
  have hhead : line.origin.head? = some 47 := by
    rw [RequestLine.origin, List.head?_append, line.slash]
    rfl
  have hquery : line.origin.drop line.path.length = query_text line.query := by
    rw [RequestLine.origin, drop_left]
  have hroot : line.path.length = 1 ↔ line.path = [47] := by
    constructor
    · intro hlen
      obtain ⟨b, hb⟩ := length_eq_one_iff.mp hlen
      have hslash := line.slash
      rw [hb] at hslash ⊢
      rw [Option.some.inj hslash]
    · intro heq
      rw [heq]
      rfl
  unfold target_of page_of stored_query
  rw [if_neg (by rw [hhead]; simp), path_of_origin]
  rw [hquery]
  by_cases hone : line.path = [47]
  · rw [if_pos (hroot.mpr hone), if_pos hone, if_pos hone]
    cases line.query <;> rfl
  rw [if_neg (fun hlen => hone (hroot.mp hlen)), if_neg hone, if_neg hone]
  cases line.query <;> rfl

/-! ## Authorities -/

theorem strncasecmp_head (h : strncasecmp s t = true) (ht : t ≠ []) :
    s.head?.map tolower = t.head?.map tolower := by
  have heq := congrArg List.head? (of_decide_eq_true h)
  have hpos : t.length ≠ 0 := fun hlen => ht (length_eq_zero_iff.mp hlen)
  simpa only [lowercase, List.head?_map, List.head?_take, if_neg hpos] using heq

theorem skip_authority_path (hscheme : scheme = lit "http://" ∨ scheme = lit "https://")
    (hurl : url.head? = some 47) :
    skip_authority scheme url = some url := by
  have hfalse : strncasecmp url scheme = false := by
    rw [Bool.eq_false_iff]
    intro htrue
    rcases hscheme with rfl | rfl
    all_goals
      have hhead := strncasecmp_head htrue (by decide +kernel)
      rw [hurl] at hhead
      exact absurd hhead (by decide +kernel)
  rw [skip_authority, hfalse]
  rfl

theorem slash_of_append (hauthority : 47 ∉ authority) (horigin : origin.head? = some 47) :
    slash_of (authority ++ origin) = some origin := by
  obtain ⟨rest, rfl⟩ : ∃ rest, origin = 47 :: rest := by
    cases origin with
    | nil => simp at horigin
    | cons b rest => exact ⟨rest, by rw [Option.some.inj horigin]⟩
  have htake : (authority ++ 47 :: rest).takeWhile (· ∉ [(47 : UInt8)]) = authority := by
    rw [takeWhile_append_of_pos, takeWhile_cons_of_neg (by simp), append_nil]
    intro b hb
    simp only [mem_singleton, decide_eq_true_eq]
    rintro rfl
    exact hauthority hb
  rw [slash_of, htake]
  simp

theorem slash_of_eq_some (h : slash_of url = some origin) :
    ∃ authority, url = authority ++ origin ∧ 47 ∉ authority ∧ origin.head? = some 47 := by
  unfold slash_of at h
  dsimp only at h
  split_ifs at h with hlt
  set authority := url.takeWhile (· ∉ [(47 : UInt8)]) with hdef
  have hsplit : authority ++ url.dropWhile (· ∉ [(47 : UInt8)]) = url :=
    takeWhile_append_dropWhile
  have hdrop : url.drop authority.length = url.dropWhile (· ∉ [(47 : UInt8)]) := by
    nth_rewrite 1 [← hsplit]
    rw [drop_left]
  rw [Option.some.injEq, hdrop] at h
  refine ⟨authority, by rw [← h, hsplit], ?_, ?_⟩
  · intro hmem
    have := mem_takeWhile_imp hmem
    simp at this
  have hne : url.dropWhile (· ∉ [(47 : UInt8)]) ≠ [] := by
    intro hnil
    rw [hnil, append_nil] at hsplit
    rw [hsplit] at hlt
    omega
  obtain ⟨b, rest, hrest⟩ := exists_cons_of_ne_nil hne
  have hb : b = 47 := by simpa using dropWhile_stop hrest
  rw [← h, hrest, hb]
  rfl

theorem skip_authority_append {scheme' : Bytes} (hscheme : strcasecmp scheme' scheme = true)
    (hauthority : 47 ∉ authority) (horigin : origin.head? = some 47) :
    skip_authority scheme (scheme' ++ (authority ++ origin)) = some origin := by
  have hlower : lowercase scheme' = lowercase scheme := of_decide_eq_true hscheme
  have hlen : scheme'.length = scheme.length := by
    simpa [lowercase] using congrArg List.length hlower
  have hcmp : strncasecmp (scheme' ++ (authority ++ origin)) scheme = true := by
    rw [strncasecmp, ← hlen, take_left, hlower]
    simp
  rw [skip_authority, if_pos hcmp, ← hlen, drop_left, slash_of_append hauthority horigin]

theorem skip_authority_eq_some (h : skip_authority scheme url = some origin) :
    origin = url ∨ (∃ scheme' authority, url = scheme' ++ authority ++ origin ∧ 47 ∉ authority ∧
      strcasecmp scheme' scheme = true) ∧ origin.head? = some 47 := by
  unfold skip_authority at h
  split_ifs at h with hscheme
  · obtain ⟨authority, hurl, hauthority, hslash⟩ := slash_of_eq_some h
    refine .inr ⟨⟨url.take scheme.length, authority, ?_, hauthority, hscheme⟩, hslash⟩
    rw [append_assoc, ← hurl, take_append_drop]
  · exact .inl (Option.some.inj h).symm

theorem absolute_of_target (h : Head) (line : RequestLine) :
    absolute_of h line.target = target_of h line.origin := by
  have hslash : line.origin.head? = some 47 := by
    rw [RequestLine.origin, List.head?_append, line.slash]
    rfl
  have hhttp := skip_authority_path (.inl rfl) hslash
  have hhttps := skip_authority_path (.inr rfl) hslash
  unfold absolute_of RequestLine.target
  rcases line.form with hfront | ⟨scheme, authority, hfront, hauthority, hscheme | hscheme⟩
  · rw [hfront, nil_append, hhttp]
    dsimp only
    rw [hhttps]
  · rw [hfront, append_assoc, skip_authority_append hscheme hauthority hslash]
    dsimp only
    rw [hhttps]
  · -- the fifth byte tells the two schemes apart
    have hother : strncasecmp (scheme ++ (authority ++ line.origin)) (lit "http://") = false := by
      have hlower : lowercase scheme = lowercase (lit "https://") := of_decide_eq_true hscheme
      have hlen : scheme.length = 8 := by
        have heq := congrArg List.length hlower
        rw [lowercase, lowercase, length_map, length_map] at heq
        exact heq
      rw [Bool.eq_false_iff]
      intro htrue
      have heq := of_decide_eq_true htrue
      rw [show (lit "http://").length = 7 by decide, take_append_of_le_length (by omega),
        lowercase, map_take, ← lowercase, hlower] at heq
      exact absurd heq (by decide +kernel)
    have hnot : skip_authority (lit "http://") (scheme ++ (authority ++ line.origin)) =
        some (scheme ++ (authority ++ line.origin)) := by
      rw [skip_authority, hother]
      rfl
    rw [hfront, append_assoc, hnot]
    dsimp only
    rw [skip_authority_append hscheme hauthority hslash]

/-! ## The line -/

theorem request_line_text (h : Head) (line : RequestLine) :
    ∃ h' : Head, request_line h line.text = target_of h' line.origin := by
  have htarget : (line.target ++ (line.gap' ++ line.version)).dropWhile (· ∈ blank) =
      line.target ++ (line.gap' ++ line.version) := by
    apply dropWhile_blank_eq
    intro b hb hhead
    have hne : line.target ≠ [] := by
      intro hnil
      have hpath := line.slash
      rw [RequestLine.target, RequestLine.origin, append_eq_nil_iff, append_eq_nil_iff] at hnil
      rw [hnil.2.1] at hpath
      simp at hpath
    rw [List.head?_append_of_ne_nil _ hne] at hhead
    exact line.no_blank b (mem_of_head? hhead) hb
  have hversion : line.version.dropWhile (· ∈ blank) = line.version := by
    apply dropWhile_blank_eq
    intro b hb hhead
    exact version_not_mem line.known_version b (mem_cons_of_mem 0 hb) (mem_of_head? hhead)
  have hgap' := length_pos_iff.mpr line.blanks'.nonempty
  have hword : ∀ b ∈ line.target, b ∉ blank := line.no_blank
  obtain ⟨m_method, hm⟩ := Option.isSome_iff_exists.mp line.known_method
  obtain ⟨m_is_http_1_1, hv⟩ := Option.isSome_iff_exists.mp line.known_version
  unfold request_line RequestLine.text
  dsimp only
  rw [takeWhile_word line.method_word line.blanks, dropWhile_gap line.blanks htarget,
    takeWhile_word hword line.blanks', dropWhile_gap line.blanks' hversion, hm]
  rw [if_pos (by simp only [length_append]; omega)]
  dsimp only
  rw [if_pos (by simp only [length_append]; omega), hv]
  dsimp only
  rw [absolute_of_target]
  exact ⟨_, rfl⟩

theorem target_parts (hno : (absolute_of h url).2 = .code .NO_REQUEST) :
    ∃ front path query, url = front ++ (path ++ query_text query) ∧
      (front = [] ∨ Authority front) ∧ path.head? = some 47 ∧ 63 ∉ path := by
  have hparts : ∃ front origin, url = front ++ origin ∧ (front = [] ∨ Authority front) ∧
      origin.head? = some 47 := by
    unfold absolute_of at hno
    split at hno
    · exact absurd hno (by simp)
    rename_i url' hskip
    split at hno
    · exact absurd hno (by simp)
    rename_i origin hskip'
    have hslash : origin.head? = some 47 := by
      by_contra hne
      rw [target_of, if_pos hne] at hno
      exact absurd hno (by simp)
    rcases skip_authority_eq_some hskip with
      rfl | ⟨⟨scheme, authority, hurl, hfree, hscheme⟩, hpath⟩
    · rcases skip_authority_eq_some hskip' with rfl | ⟨⟨scheme, authority, hurl, hfree, hscheme⟩, -⟩
      · exact ⟨[], origin, rfl, .inl rfl, hslash⟩
      · exact ⟨_, origin, hurl, .inr ⟨scheme, authority, rfl, hfree, .inr hscheme⟩, hslash⟩
    -- what follows the authority is a path, so the second comparison fails
    rw [skip_authority_path (.inr rfl) hpath, Option.some.injEq] at hskip'
    rw [hskip'] at hurl
    exact ⟨_, origin, hurl, .inr ⟨scheme, authority, rfl, hfree, .inl hscheme⟩, hslash⟩
  obtain ⟨front, origin, hurl, hfront, hslash⟩ := hparts
  have hsplit : path_of origin ++ origin.dropWhile (· ∉ [(63 : UInt8)]) = origin :=
    takeWhile_append_dropWhile
  have hquery : ∃ query, origin.dropWhile (· ∉ [(63 : UInt8)]) = query_text query := by
    by_cases hnil : origin.dropWhile (· ∉ [(63 : UInt8)]) = []
    · exact ⟨none, hnil⟩
    · obtain ⟨b, q, hq⟩ := exists_cons_of_ne_nil hnil
      have hb : b = 63 := by simpa using dropWhile_stop hq
      exact ⟨some q, by rw [hq, hb]; rfl⟩
  obtain ⟨query, hquery⟩ := hquery
  rw [hquery] at hsplit
  refine ⟨front, path_of origin, query, by rw [hsplit, hurl], hfront, ?_, ?_⟩
  · cases origin with
    | nil => simp at hslash
    | cons b origin =>
      rw [Option.some.inj hslash]
      simp [path_of]
  · intro hmem
    have := mem_takeWhile_imp hmem
    simp at this

theorem exists_request_line (hno : (request_line h text).2 = .code .NO_REQUEST) :
    ∃ line : RequestLine, line.text = text := by
  unfold request_line at hno
  dsimp only at hno
  split at hno
  swap
  · exact absurd hno (by simp)
  rename_i hlt
  split at hno
  · exact absurd hno (by simp)
  rename_i m_method hm
  split at hno
  swap
  · exact absurd hno (by simp)
  rename_i hlt'
  split at hno
  · exact absurd hno (by simp)
  rename_i m_is_http_1_1 hv
  obtain ⟨gap, hgap, htext⟩ := split_word hlt
  obtain ⟨gap', hgap', hrest⟩ := split_word hlt'
  obtain ⟨front, path, query, hurl, hform, hslash, hquestion⟩ := target_parts hno
  refine ⟨⟨_, gap, front, path, query, gap', _, Option.isSome_iff_exists.mpr ⟨_, hm⟩, hgap, hform,
    hslash, hquestion, ?_, hgap', Option.isSome_iff_exists.mpr ⟨_, hv⟩⟩, ?_⟩
  · rw [← hurl]
    intro b hb
    simpa using mem_takeWhile_imp hb
  · simp only [RequestLine.text, RequestLine.target, RequestLine.origin]
    rw [← hurl, ← hrest, ← htext]

theorem request_line_nul (h : Head) (line : RequestLine) (hnul : 0 ∈ line.text) :
    (request_line h (line.text.takeWhile (· ≠ 0))).2 = .code .BAD_REQUEST := by
  have hmethod : ∀ b ∈ line.method, decide (b ≠ 0) = true := by
    intro b hb
    simp only [decide_eq_true_eq]
    rintro rfl
    exact method_not_mem line.known_method 0 mem_cons_self hb
  have hgap : ∀ b ∈ line.gap, decide (b ≠ 0) = true := by
    intro b hb
    simp only [decide_eq_true_eq]
    rintro rfl
    exact absurd (line.blanks.blanks 0 hb) (by decide)
  -- the other parts hold no NUL
  have htarget : 0 ∈ line.target := by
    have hversion := version_not_mem line.known_version 0 mem_cons_self
    have hgap' : 0 ∉ line.gap' := by
      intro hmem
      exact absurd (line.blanks'.blanks 0 hmem) (by decide)
    simp only [RequestLine.text, mem_append] at hnul
    rcases hnul with hmem | hmem | hmem | hmem | hmem
    · exact absurd rfl (of_decide_eq_true (hmethod 0 hmem))
    · exact absurd rfl (of_decide_eq_true (hgap 0 hmem))
    · exact hmem
    · exact absurd hmem hgap'
    · exact absurd hmem hversion
  obtain ⟨rest, hrest⟩ : ∃ rest, line.target = line.target.takeWhile (· ≠ 0) ++ 0 :: rest := by
    cases hdrop : line.target.dropWhile (· ≠ 0) with
    | nil =>
      rw [dropWhile_eq_nil_iff] at hdrop
      simpa using hdrop 0 htarget
    | cons b rest =>
      have hb : b = 0 := by simpa using dropWhile_stop hdrop
      rw [hb] at hdrop
      refine ⟨rest, ?_⟩
      rw [← hdrop, takeWhile_append_dropWhile]
  set cut := line.target.takeWhile (· ≠ 0)
  have htext : line.text.takeWhile (· ≠ 0) = line.method ++ (line.gap ++ cut) := by
    have hcut : ∀ b ∈ cut, decide (b ≠ 0) = true := by
      intro b hb
      simpa using mem_takeWhile_imp hb
    rw [RequestLine.text, takeWhile_append_of_pos hmethod, takeWhile_append_of_pos hgap,
      hrest, append_assoc, takeWhile_append_of_pos hcut, cons_append,
      takeWhile_cons_of_neg (by simp), append_nil]
  have hword : ∀ b ∈ cut, b ∉ blank := by
    intro b hb
    apply line.no_blank b
    show b ∈ line.target
    rw [hrest]
    exact mem_append_left _ hb
  have hskip : cut.dropWhile (· ∈ blank) = cut := by
    apply dropWhile_blank_eq
    intro b hb hhead
    exact hword b (mem_of_head? hhead) hb
  have hall : cut.takeWhile (· ∉ blank) = cut := by
    simpa using hword
  rw [htext]
  unfold request_line
  dsimp only
  rw [takeWhile_word line.method_word line.blanks, dropWhile_gap line.blanks hskip, hall]
  split
  · split
    · rfl
    · rw [if_neg (Nat.lt_irrefl cut.length)]
  · rfl

/-! ## What is stored -/

/-- The lines of the grammar are accepted, with the target they have; no other line is. -/
structure TargetStored (c : Conn) (text : ℕ) (raw : Bytes) : Prop where
  accepted : ∀ line : RequestLine, line.text = raw →
    (parse_request_line c text).2 = .code .NO_REQUEST ∧
      (parse_request_line c text).1.head.m_url_storage = page_of line.path ∧
      (parse_request_line c text).1.head.m_query_string_storage = line.query.getD []
  rejected : (∀ line : RequestLine, line.text ≠ raw) →
    (parse_request_line c text).2 = .code .BAD_REQUEST

/-- The lines that are treated so. `raw` is read up to its first NUL. -/
structure Storable (raw : Bytes) : Prop where
  path : ¬ Pathless (raw.takeWhile (· ≠ 0))
  root_query : ∀ (line : RequestLine) (q : Bytes), line.text = raw.takeWhile (· ≠ 0) →
    line.path = [47] → line.query = some q → q = lit "ndex.html"
  nul : 0 ∈ raw → ∀ line : RequestLine, line.text ≠ raw ∧ line.text ≠ raw.takeWhile (· ≠ 0)

theorem request_line_stored (h : Head) (line : RequestLine) :
    (request_line h line.text).2 = .code .NO_REQUEST ∧
      (request_line h line.text).1.m_url_storage = page_of line.path ∧
      (request_line h line.text).1.m_query_string_storage = stored_query line.path line.query := by
  obtain ⟨h', hline⟩ := request_line_text h line
  rw [hline, target_of_origin]
  exact ⟨rfl, rfl, rfl⟩

theorem stored_query_eq_iff (path : Bytes) (query : Option Bytes) :
    stored_query path query = query.getD [] ↔
      ∀ q, path = [47] → query = some q → q = lit "ndex.html" := by
  unfold stored_query
  by_cases hroot : path = [47]
  · cases query with
    | none => simp
    | some q => simp [hroot, eq_comm]
  · simp [hroot]

/-- **Targets.** `raw` is the line, any bytes, and its CRLF is two NULs. What is stored is
right except for a query of the root, an absolute target without a path, and lines
with a NUL whose text up to there differs. -/
theorem target_stored_iff (c : Conn) (text : ℕ) (raw rest : Bytes)
    (hline : c.m_read_buf.drop text = raw ++ 0 :: 0 :: rest) :
    TargetStored c text raw ↔ Storable raw := by
  obtain ⟨houtcome, hhead⟩ := request_line_outcome hline
  have hself : 0 ∉ raw → raw.takeWhile (· ≠ 0) = raw := by
    intro hnul
    rw [takeWhile_eq_self_iff]
    intro b hb
    simp only [decide_eq_true_eq]
    rintro rfl
    exact hnul hb
  constructor
  · intro hstored
    have hdefined : (parse_request_line c text).2 ≠ .undefined := by
      by_cases hex : ∃ line : RequestLine, line.text = raw
      · obtain ⟨line, hraw⟩ := hex
        rw [(hstored.accepted line hraw).1]
        simp
      · rw [hstored.rejected (not_exists.mp hex)]
        simp
    have hnul : 0 ∈ raw → ∀ line : RequestLine, line.text ≠ raw := by
      intro hnul line hraw
      have hbad := request_line_nul c.head line (hraw ▸ hnul)
      rw [hraw, ← houtcome, (hstored.accepted line hraw).1] at hbad
      exact absurd hbad (by simp)
    refine ⟨?_, ?_, fun hmem line => ⟨hnul hmem line, ?_⟩⟩
    · rwa [← request_line_undefined_iff c.head, ← houtcome]
    · intro line q htext hpath hquery
      by_cases hzero : 0 ∈ raw
      · have hno := (request_line_stored c.head line).1
        rw [htext, ← houtcome, hstored.rejected (hnul hzero)] at hno
        exact absurd hno (by simp)
      · have hkept := (hstored.accepted line (htext.trans (hself hzero))).2.2
        rw [hhead, ← htext, (request_line_stored c.head line).2.2] at hkept
        exact (stored_query_eq_iff _ _).mp hkept q hpath hquery
    · intro htext
      have hno := (request_line_stored c.head line).1
      rw [htext, ← houtcome, hstored.rejected (hnul hmem)] at hno
      exact absurd hno (by simp)
  · intro hstorable
    constructor
    · intro line hraw
      have hzero : 0 ∉ raw := fun hmem => (hstorable.nul hmem line).1 hraw
      have htext : line.text = raw.takeWhile (· ≠ 0) := hraw.trans (hself hzero).symm
      obtain ⟨hno, hurl, hquery⟩ := request_line_stored c.head line
      rw [houtcome, hhead, ← htext]
      refine ⟨hno, hurl, hquery.trans ?_⟩
      rw [stored_query_eq_iff]
      intro q hpath hq
      exact hstorable.root_query line q htext hpath hq
    · intro hnone
      rcases request_line_code c.head (raw.takeWhile (· ≠ 0)) with hno | hbad | hundefined
      · obtain ⟨line, htext⟩ := exists_request_line hno
        by_cases hzero : 0 ∈ raw
        · exact absurd htext (hstorable.nul hzero line).2
        · exact absurd (htext.trans (hself hzero)) (hnone line)
      · exact houtcome.trans hbad
      · exact absurd ((request_line_undefined_iff _ _).mp hundefined) hstorable.path

/-- A query of another path is kept. -/
theorem page_query_stored :
    TargetStored (line_conn (lit "GET /a?b HTTP/1.1")) 0 (lit "GET /a?b HTTP/1.1") := by
  refine (target_stored_iff _ 0 _ [] rfl).mpr ⟨?_, ?_, ?_⟩
  · rw [← request_line_undefined_iff Head.init]
    decide +kernel
  · intro line q htext hpath _
    have hurl := (request_line_stored Head.init line).2.1
    rw [htext, hpath] at hurl
    exact absurd hurl (by decide +kernel)
  · intro hnul
    exact absurd hnul (by decide +kernel)

def root_query_line : RequestLine where
  method := lit "GET"
  gap := [32]
  front := []
  path := [47]
  query := some (lit "a=1")
  gap' := [32]
  version := lit "HTTP/1.1"
  known_method := by decide +kernel
  blanks := ⟨by decide, by decide +kernel⟩
  form := .inl rfl
  slash := rfl
  no_question := by decide
  no_blank := by decide +kernel
  blanks' := ⟨by decide, by decide +kernel⟩
  known_version := by decide +kernel

/-- The query `a=1` is stored as the end of the page's name. -/
theorem root_query_lost :
    (parse_request_line (line_conn root_query_line.text) 0).1.head.m_query_string_storage =
        lit "ndex.html" ∧
      ¬ TargetStored (line_conn root_query_line.text) 0 root_query_line.text := by
  have hquery :
    (parse_request_line (line_conn root_query_line.text) 0).1.head.m_query_string_storage
      = lit "ndex.html" := by decide +kernel
  refine ⟨hquery, ?_⟩
  intro hstored
  have hkept := (hstored.accepted root_query_line rfl).2.2
  exact absurd hkept (by decide +kernel)

end AtlasWebServer.Http
