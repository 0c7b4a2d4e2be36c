/-
What `parse_request_line` writes, and which pointers it follows.

The function cuts the line up in place: a NUL after the method, one after the target
and one for the question mark, and `strcat` appends the index page to a target that
is only a slash. That append of eleven bytes has no room of its own. It runs over the
version, which has eight characters and at least one blank before it, and over the two
NULs the line's CRLF has become: the last byte it writes is the second of them at the
furthest.

Pointers come back from `strpbrk` and `strchr`. All but one are tested before they are
used: `strchr` gives null for `http://host` without a path, and that null goes into the
comparison with `https://`.
-/
import AtlasWebServer.HttpHead

set_option autoImplicit false

namespace AtlasWebServer.Http

open Bytes CString List

variable {mem : Bytes} {p i : ℕ}

/-! ## The writes -/

/-- The positions `parse_target` writes to, in the order of the source. -/
def parse_target_writes (mem : Bytes) (m_url : ℕ) : List ℕ :=
  if (cstr mem m_url).head? ≠ some 47 then []
  else
    let question := strchr mem m_url 63
    let mem := question.elim mem fun q => mem.set q 0
    question.toList ++
      if (cstr mem m_url).length = 1 then
        List.range' (m_url + (cstr mem m_url).length) ((lit "index.html").length + 1)
      else []

/-- The same for `parse_absolute`, which writes nothing of its own. -/
def parse_absolute_writes (mem : Bytes) (m_url : ℕ) : List ℕ :=
  match if strncasecmp (cstr mem m_url) (lit "http://") then
      strchr mem (m_url + 7) 47 else some m_url with
  | none => []
  | some m_url =>
      match if strncasecmp (cstr mem m_url) (lit "https://") then
          strchr mem (m_url + 8) 47 else some m_url with
      | none => []
      | some m_url => parse_target_writes mem m_url

/-- The positions `parse_request_line` writes to. -/
def parse_request_line_writes (mem : Bytes) (text : ℕ) : List ℕ :=
  match strpbrk mem text blank with
  | none => []
  | some m_url =>
      let mem := mem.set m_url 0
      m_url ::
        match method_of (cstr mem text) with
        | none => []
        | some _ =>
            let m_url := m_url + 1
            let m_url := m_url + strspn mem m_url blank
            match strpbrk mem m_url blank with
            | none => []
            | some m_version =>
                let mem := mem.set m_version 0
                m_version ::
                  let m_version := m_version + 1
                  let m_version := m_version + strspn mem m_version blank
                  match http_1_1_of (cstr mem m_version) with
                  | none => []
                  | some _ => parse_absolute_writes mem m_url

/-! ## No write is missing -/

/-- `mem'` is `mem` but for the positions of `writes`. -/
structure OnlyAt (writes : List ℕ) (mem mem' : Bytes) : Prop where
  length : mem'.length = mem.length
  elsewhere : ∀ i, i ∉ writes → mem'[i]? = mem[i]?

theorem OnlyAt.refl (writes : List ℕ) (mem : Bytes) : OnlyAt writes mem mem :=
  ⟨rfl, fun _ _ => rfl⟩

theorem OnlyAt.set {writes : List ℕ} {mem' : Bytes} (h : OnlyAt writes (mem.set p 0) mem') :
    OnlyAt (p :: writes) mem mem' := by
  refine ⟨by rw [h.length, length_set], ?_⟩
  intro i hi
  rw [mem_cons, not_or] at hi
  rw [h.elsewhere i hi.2, getElem?_set_ne (fun heq => hi.1 heq.symm)]

theorem parse_target_only (c : Conn) (m_url : ℕ) :
    OnlyAt (parse_target_writes c.m_read_buf m_url) c.m_read_buf
      (parse_target c m_url).1.m_read_buf := by
  unfold parse_target parse_target_writes
  by_cases hslash : (cstr c.m_read_buf m_url).head? ≠ some 47
  · rw [if_pos hslash, if_pos hslash]
    exact .refl _ _
  rw [if_neg hslash, if_neg hslash]
  -- what is written after the question mark's NUL
  have hcat : ∀ mem : Bytes, OnlyAt
      (if (cstr mem m_url).length = 1 then
        List.range' (m_url + (cstr mem m_url).length) ((lit "index.html").length + 1) else [])
      mem (if (cstr mem m_url).length = 1 then strcat mem m_url (lit "index.html") else mem) := by
    intro mem
    by_cases hone : (cstr mem m_url).length = 1
    · rw [if_pos hone, if_pos hone]
      refine ⟨poke_length _ _ _, ?_⟩
      intro i hi
      rw [mem_range'_1] at hi
      refine poke_outside _ ?_
      rw [length_append, length_singleton]
      omega
    · rw [if_neg hone, if_neg hone]
      exact .refl _ _
  cases strchr c.m_read_buf m_url 63 with
  | none => exact hcat c.m_read_buf
  | some q => exact (hcat (c.m_read_buf.set q 0)).set

theorem parse_absolute_only (c : Conn) (m_url : ℕ) :
    OnlyAt (parse_absolute_writes c.m_read_buf m_url) c.m_read_buf
      (parse_absolute c m_url).1.m_read_buf := by
  unfold parse_absolute parse_absolute_writes
  cases if strncasecmp (cstr c.m_read_buf m_url) (lit "http://") then
      strchr c.m_read_buf (m_url + 7) 47 else some m_url with
  | none => exact .refl _ _
  | some m_url =>
    dsimp only
    cases if strncasecmp (cstr c.m_read_buf m_url) (lit "https://") then
        strchr c.m_read_buf (m_url + 8) 47 else some m_url with
    | none => exact .refl _ _
    | some m_url => exact parse_target_only c m_url

theorem parse_request_line_only (c : Conn) (text : ℕ) :
    OnlyAt (parse_request_line_writes c.m_read_buf text) c.m_read_buf
      (parse_request_line c text).1.m_read_buf := by
  unfold parse_request_line parse_request_line_writes
  cases strpbrk c.m_read_buf text blank with
  | none => exact .refl _ _
  | some m_url =>
    dsimp only
    apply OnlyAt.set
    generalize c.m_read_buf.set m_url 0 = mem
    cases method_of (cstr mem text) with
    | none => exact .refl _ _
    | some m_method =>
      cases strpbrk mem (m_url + 1 + strspn mem (m_url + 1) blank) blank with
      | none => exact .refl _ _
      | some m_version =>
        dsimp only
        apply OnlyAt.set
        generalize mem.set m_version 0 = mem
        cases http_1_1_of (cstr mem (m_version + 1 + strspn mem (m_version + 1) blank)) with
        | none => exact .refl _ _
        | some m_is_http_1_1 =>
          exact parse_absolute_only { c with
            m_read_buf := mem
            m_version := .buf (m_version + 1 + strspn mem (m_version + 1) blank)
            head := { c.head with
              m_method := m_method
              cgi := c.head.cgi || decide (m_method = .POST)
              m_is_http_1_1 := m_is_http_1_1
              m_linger := m_is_http_1_1 } } _

/-! ## Where the writes are -/

theorem strpbrk_bounds {q : ℕ} {accept s : Bytes} (hs : cstr mem p = s)
    (h : strpbrk mem p accept = some q) : p ≤ q ∧ q < p + s.length := by
  rw [strpbrk_eq hs] at h
  split at h
  · cases h
    omega
  · contradiction

theorem parse_target_writes_bounds {u : ℕ} {url : Bytes} (hurl : cstr mem u = url)
    (hi : i ∈ parse_target_writes mem u) : u ≤ i ∧ i < u + url.length + 11 := by
  unfold parse_target_writes at hi
  split at hi
  · exact absurd hi not_mem_nil
  dsimp only at hi
  obtain ⟨hpath, -, -⟩ := cut_query hurl (Nat.le_refl (u + url.length))
  rw [hpath, mem_append, Option.mem_toList] at hi
  have hle : (path_of url).length ≤ url.length := takeWhile_length_le _ _
  have hname : (lit "index.html").length = 10 := by decide
  rcases hi with hquestion | hcat
  · have := strpbrk_bounds hurl hquestion
    omega
  split at hcat
  · rw [mem_range'_1] at hcat
    omega
  · exact absurd hcat not_mem_nil

theorem parse_absolute_writes_bounds {u : ℕ} {url : Bytes} (hurl : cstr mem u = url)
    (hi : i ∈ parse_absolute_writes mem u) :
    u ≤ i ∧ i < u + url.length + 11 := by
  have h7 : (lit "http://").length = 7 := by decide
  have h8 : (lit "https://").length = 8 := by decide
  unfold parse_absolute_writes at hi
  rw [hurl, ← h7] at hi
  rcases skip_authority_spec hurl (lit "http://") with ⟨hnone, -⟩ | ⟨n, hn, hsome, -, hcstr⟩
  · rw [hnone] at hi
    exact absurd hi not_mem_nil
  rw [hsome] at hi
  dsimp only at hi
  rw [hcstr, ← h8] at hi
  have hlen : (url.drop n).length = url.length - n := length_drop
  rcases skip_authority_spec hcstr (lit "https://") with ⟨hnone, -⟩ | ⟨n', hn', hsome, -, hcstr'⟩
  · rw [hnone] at hi
    exact absurd hi not_mem_nil
  rw [hsome] at hi
  have hbounds := parse_target_writes_bounds hcstr' hi
  have hlen' : ((url.drop n).drop n').length = (url.drop n).length - n' := length_drop
  omega

theorem parse_request_line_writes_bounds {text : Bytes} (htext : cstr mem p = text)
    (hi : i ∈ parse_request_line_writes mem p) :
    p ≤ i ∧ i ≤ p + text.length + 1 := by
  unfold parse_request_line_writes at hi
  rw [strpbrk_eq htext] at hi
  set name := text.takeWhile (· ∉ blank) with hname
  by_cases hlt : name.length < text.length
  swap
  · rw [if_neg hlt] at hi
    exact absurd hi not_mem_nil
  rw [if_pos hlt] at hi
  dsimp only at hi
  obtain ⟨-, hafter⟩ := cut_word htext hname hlt
  generalize mem.set (p + name.length) 0 = mem1 at hafter hi
  rcases mem_cons.mp hi with rfl | hi
  · omega
  split at hi
  · exact absurd hi not_mem_nil
  -- the target
  obtain ⟨hrest, hrestlen⟩ := strspn_eq blank hafter
  set rest := (text.drop (name.length + 1)).dropWhile (· ∈ blank) with hrestdef
  rw [length_drop] at hrestlen
  obtain ⟨u, hu⟩ : ∃ u, u = p + name.length + 1 + strspn mem1 (p + name.length + 1) blank :=
    ⟨_, rfl⟩
  rw [← hu] at hrest hi
  rw [strpbrk_eq hrest] at hi
  set url := rest.takeWhile (· ∉ blank) with hurldef
  by_cases hlt' : url.length < rest.length
  swap
  · rw [if_neg hlt'] at hi
    exact absurd hi not_mem_nil
  rw [if_pos hlt'] at hi
  dsimp only at hi
  obtain ⟨hcut, hafter'⟩ := cut_word hrest hurldef hlt'
  generalize mem1.set (u + url.length) 0 = mem2 at hcut hafter' hi
  rcases mem_cons.mp hi with rfl | hi
  · omega
  obtain ⟨hversion, hversionlen⟩ := strspn_eq blank hafter'
  rw [hversion] at hi
  rw [length_drop] at hversionlen
  cases hv : http_1_1_of ((rest.drop (url.length + 1)).dropWhile (· ∈ blank)) with
  | none =>
    rw [hv] at hi
    exact absurd hi not_mem_nil
  | some m_is_http_1_1 =>
    -- the version's eight characters and its blank make the room
    rw [hv] at hi
    have height := http_1_1_of_length hv
    have hbounds := parse_absolute_writes_bounds hcut hi
    omega

/-! ## The null pointer -/

/-- A line with a method and a version that are known, and an absolute `http` target
that has no path. -/
def Pathless (text : Bytes) : Prop :=
  let name := text.takeWhile (· ∉ blank)
  let rest := (text.drop (name.length + 1)).dropWhile (· ∈ blank)
  let url := rest.takeWhile (· ∉ blank)
  (method_of name).isSome = true ∧
    (http_1_1_of ((rest.drop (url.length + 1)).dropWhile (· ∈ blank))).isSome = true ∧
    strncasecmp url (lit "http://") = true ∧ 47 ∉ url.drop 7

theorem slash_of_eq_none_iff (url : Bytes) : slash_of url = none ↔ 47 ∉ url := by
  have hlt : (url.takeWhile (· ∉ [(47 : UInt8)])).length < url.length ↔ 47 ∈ url := by
    constructor
    · intro hlt
      by_contra hmem
      have hall : url.takeWhile (· ∉ [(47 : UInt8)]) = url := by
        rw [takeWhile_eq_self_iff]
        intro b hb
        simp only [mem_singleton, decide_eq_true_eq]
        rintro rfl
        exact hmem hb
      rw [hall] at hlt
      omega
    · intro hmem
      have hle := takeWhile_length_le (· ∉ [(47 : UInt8)]) url
      rcases Nat.lt_or_ge (url.takeWhile (· ∉ [(47 : UInt8)])).length url.length with hlt | hge
      · exact hlt
      have hall := (IsPrefix.eq_of_length <|
        takeWhile_prefix (l := url) (· ∉ [(47 : UInt8)])) (by omega)
      rw [← hall] at hmem
      have := mem_takeWhile_imp hmem
      simp at this
  unfold slash_of
  dsimp only
  split
  · rename_i h
    exact iff_of_false (nofun) (fun hnot => hnot (hlt.mp h))
  · rename_i h
    exact iff_of_true rfl (fun hmem => h (hlt.mpr hmem))

theorem absolute_of_undefined_iff (h : Head) (url : Bytes) :
    (absolute_of h url).2 = .undefined ↔
      strncasecmp url (lit "http://") = true ∧ 47 ∉ url.drop 7 := by
  have htarget : ∀ h url, (target_of h url).2 ≠ .undefined := by
    intro h url
    unfold target_of
    split_ifs <;> exact nofun
  unfold absolute_of
  cases hskip : skip_authority (lit "http://") url with
  | none =>
    rw [skip_authority] at hskip
    split at hskip
    · rename_i hscheme
      exact iff_of_true rfl ⟨hscheme, (slash_of_eq_none_iff _).mp hskip⟩
    · contradiction
  | some url' =>
    refine iff_of_false ?_ ?_
    · dsimp only
      split
      · exact nofun
      · exact htarget h _
    rintro ⟨hscheme, hslash⟩
    have h7 : (lit "http://").length = 7 := by decide
    rw [skip_authority, if_pos hscheme, h7, (slash_of_eq_none_iff _).mpr hslash] at hskip
    contradiction

theorem request_line_undefined_iff (h : Head) (text : Bytes) :
    (request_line h text).2 = .undefined ↔ Pathless text := by
  unfold request_line Pathless
  dsimp only
  set name := text.takeWhile (· ∉ blank)
  set rest := (text.drop (name.length + 1)).dropWhile (· ∈ blank) with hrest
  set url := rest.takeWhile (· ∉ blank)
  set version := (rest.drop (url.length + 1)).dropWhile (· ∈ blank) with hversion
  -- a version of eight characters leaves no doubt about the two blanks
  have hblanks : (http_1_1_of version).isSome = true →
      name.length < text.length ∧ url.length < rest.length := by
    intro hv
    obtain ⟨v, hv⟩ := Option.isSome_iff_exists.mp hv
    have height := http_1_1_of_length hv
    have hle : version.length ≤ (rest.drop (url.length + 1)).length :=
      (dropWhile_suffix _).length_le
    have hle' : rest.length ≤ (text.drop (name.length + 1)).length :=
      (dropWhile_suffix _).length_le
    rw [length_drop] at hle hle'
    omega
  cases hmethod : method_of name with
  | none =>
    refine iff_of_false ?_ (fun hp => absurd hp.1 (by simp))
    split <;> exact nofun
  | some m_method =>
    cases hv : http_1_1_of version with
    | none =>
      refine iff_of_false ?_ (fun hp => absurd hp.2.1 (by simp))
      split
      · split <;> exact fun heq => absurd heq (by simp)
      · exact fun heq => absurd heq (by simp)
    | some m_is_http_1_1 =>
      obtain ⟨hname, hurl⟩ := hblanks (by rw [hv]; rfl)
      rw [if_pos hname]
      dsimp only
      rw [if_pos hurl, absolute_of_undefined_iff]
      simp

/-! ## The request line as a whole -/

/-- No null pointer is followed, every write lies between the start of the line and
`last`, and the result is one of the two the caller expects. -/
structure LineSafe (c : Conn) (text last : ℕ) : Prop where
  defined : (parse_request_line c text).2 ≠ .undefined
  writes : ∀ i ∈ parse_request_line_writes c.m_read_buf text, text ≤ i ∧ i ≤ last
  result : (parse_request_line c text).2 = .code .BAD_REQUEST ∨
    (parse_request_line c text).2 = .code .NO_REQUEST

theorem cstr_line {raw rest : Bytes} (hline : mem.drop p = raw ++ 0 :: 0 :: rest) :
    cstr mem p = raw.takeWhile (· ≠ 0) := by
  unfold cstr
  rw [hline]
  clear hline
  induction raw with
  | nil => rfl
  | cons b raw ih =>
    rw [cons_append, takeWhile_cons, takeWhile_cons, ih]

theorem request_line_outcome {c : Conn} {text : ℕ} {raw rest : Bytes}
    (hline : c.m_read_buf.drop text = raw ++ 0 :: 0 :: rest) :
    (parse_request_line c text).2 = (request_line c.head (raw.takeWhile (· ≠ 0))).2 ∧
      (parse_request_line c text).1.head = (request_line c.head (raw.takeWhile (· ≠ 0))).1 := by
  have hle : (raw.takeWhile (· ≠ 0)).length ≤ raw.length := takeWhile_length_le _ _
  have hlen := congrArg List.length hline
  simp only [length_drop, length_append, length_cons] at hlen
  obtain ⟨mem', _, hparse, -⟩ := parse_request_line_spec (cstr_line hline) (by omega)
  rw [hparse]
  exact ⟨rfl, rfl⟩

/-- **Request lines.** `raw` is the line, any bytes, and its CRLF is two NULs. The call is
safe unless the line is one with an `http` target without a path; even then its writes
stay where they should. -/
theorem request_line_safe_iff (c : Conn) (text : ℕ) (raw rest : Bytes)
    (hline : c.m_read_buf.drop text = raw ++ 0 :: 0 :: rest) :
    (LineSafe c text (text + raw.length + 1) ↔ ¬ Pathless (raw.takeWhile (· ≠ 0))) ∧
      (∀ i ∈ parse_request_line_writes c.m_read_buf text,
        text ≤ i ∧ i ≤ text + raw.length + 1) := by
  have hle : (raw.takeWhile (· ≠ 0)).length ≤ raw.length := takeWhile_length_le _ _
  have hwrites : ∀ i ∈ parse_request_line_writes c.m_read_buf text,
      text ≤ i ∧ i ≤ text + raw.length + 1 := by
    intro i hi
    have hbounds := parse_request_line_writes_bounds (cstr_line hline) hi
    omega
  obtain ⟨houtcome, -⟩ := request_line_outcome hline
  refine ⟨?_, hwrites⟩
  rw [← request_line_undefined_iff c.head, ← houtcome]
  constructor
  · exact fun hsafe => hsafe.defined
  intro hdefined
  refine ⟨hdefined, hwrites, ?_⟩
  rcases request_line_code c.head (raw.takeWhile (· ≠ 0)) with hno | hbad | hundefined
  · exact .inr (houtcome.trans hno)
  · exact .inl (houtcome.trans hbad)
  · exact absurd (houtcome.trans hundefined) hdefined

/-- A connection whose buffer is one line, terminated. -/
def line_conn (raw : Bytes) : Conn := { fresh with m_read_buf := raw ++ [0, 0] }

/-- The shortest target there is: the append ends on the second NUL. -/
theorem root_line_safe :
    LineSafe (line_conn (lit "GET / HTTP/1.1")) 0 15 ∧
      15 ∈ parse_request_line_writes (line_conn (lit "GET / HTTP/1.1")).m_read_buf 0 := by
  have hsafe := (request_line_safe_iff (line_conn (lit "GET / HTTP/1.1")) 0
    (lit "GET / HTTP/1.1") []
    rfl).1.mpr (by
      rw [← request_line_undefined_iff Head.init]
      decide +kernel)
  exact ⟨hsafe, by decide +kernel⟩

/-- An absolute target without a path: null goes into `strncasecmp`. -/
theorem absolute_line_unsafe :
    (parse_request_line (line_conn (lit "GET http://host HTTP/1.1")) 0).2 = .undefined ∧
      ¬ LineSafe (line_conn (lit "GET http://host HTTP/1.1")) 0 25 := by
  have hundefined : (parse_request_line (line_conn (lit "GET http://host HTTP/1.1")) 0).2 =
      .undefined := by
    decide +kernel
  exact ⟨hundefined, fun hsafe => hsafe.defined hundefined⟩

end AtlasWebServer.Http
