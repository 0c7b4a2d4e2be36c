/-
Reads of a head: what a head is as bytes, and what a number of reads that bring it
do.

Up to the empty line, reads do what one read does: `head_run` of the bytes so far
(`HeadRead.deliver`). The exception is `m_host`. It is set to a position and looked
at when the empty line comes, and a read in between that makes the ring grow leaves
it dangling.

A CR or an LF alone ends a head without a result: `process_read` waits for a line end
that cannot come (`lone_end_rejected_iff`).
-/
import AtlasWebServer.HttpReading

set_option autoImplicit false

namespace AtlasWebServer.Http

open Bytes CString RingBuffer List

variable {h' : Head} {host : HostPtr} {env : Env}

variable {h : Head} {st : CheckState} {pos i : ℕ} {s w : Bytes} {c : Conn}

/-! ## The empty line -/

/-- What the empty line makes of a head, the byte behind `m_host` and a body: the body
and the code. `NO_REQUEST` is a body to come. -/
def blank_line (env : Env) (h : Head) (byte : Option UInt8) (b : Body) : Body × HttpCode :=
  if h.m_is_http_1_1 ∧ (byte = none ∨ byte = some 0) then (b, .BAD_REQUEST)
  else if h.m_chunked ∧ h.m_content_length_seen then (b, .BAD_REQUEST)
  else if ¬ h.m_chunked ∧ h.m_content_length = 0 then (b, .GET_REQUEST)
  else if ¬ h.m_chunked ∧ is_multipart h ∧ h.m_content_length >
      (env.upload_max_bytes + env.upload_request_overhead_bytes : ℤ) then (b, .PAYLOAD_TOO_LARGE)
  else
    let capture := if is_multipart h then begin_streamed_body_capture env b else (b, true)
    (capture.1, if capture.2 = false then .INTERNAL_ERROR else .NO_REQUEST)

def Conn.headed (c : Conn) (r : Body × HttpCode) : Conn :=
  { c with
    body := r.1
    m_check_state := if r.2 = .NO_REQUEST then .CONTENT else c.m_check_state
    m_body_start_idx := if r.2 = .NO_REQUEST then c.m_checked_idx else c.m_body_start_idx
    m_chunked_parse_idx := if r.2 = .NO_REQUEST ∧ c.head.m_chunked then c.m_checked_idx
      else c.m_chunked_parse_idx }

theorem parse_blank_line_eq (env : Env) (c : Conn) :
    parse_blank_line env c = (c.headed (blank_line env c.head (host_byte env c) c.body),
      .code (blank_line env c.head (host_byte env c) c.body).2) := by
  unfold parse_blank_line blank_line Conn.headed
  by_cases hhost : c.head.m_is_http_1_1 ∧ (host_byte env c = none ∨ host_byte env c = some 0)
  · rw [if_pos hhost, if_pos hhost]
    simp
  rw [if_neg hhost, if_neg hhost]
  by_cases hchunked : c.head.m_chunked
  · by_cases hseen : c.head.m_content_length_seen
    · simp [hchunked, hseen]
    · cases hcap : (if is_multipart c.head then begin_streamed_body_capture env c.body
        else (c.body, true)).2 <;> simp [hchunked, hseen, hcap]
  by_cases hzero : c.head.m_content_length = 0
  · simp [hchunked, hzero]
  by_cases hlarge : is_multipart c.head ∧ c.head.m_content_length >
      (env.upload_max_bytes + env.upload_request_overhead_bytes : ℤ)
  · simp [hchunked, hzero, hlarge]
  · cases hcap : (if is_multipart c.head then begin_streamed_body_capture env c.body
      else (c.body, true)).2 <;> simp [hchunked, hzero, hlarge, hcap]

/-! ## `m_host` along a head -/

/-- The head with `m_host` as it was, unless a line has set it. -/
def Head.or_host (h : Head) (host : HostPtr) : Head :=
  { h with m_host := if h.m_host = .null then host else h.m_host }

def HeadResult.head : HeadResult → Head
  | .pending h _ _ => h
  | .stopped h _ => h
  | .complete h _ => h

def HeadResult.or_host (host : HostPtr) : HeadResult → HeadResult
  | .pending h st pos => .pending (h.or_host host) st pos
  | .stopped h outcome => .stopped (h.or_host host) outcome
  | .complete h pos => .complete (h.or_host host) pos

theorem target_of_or_host (heq : h' = h.or_host host) (url : Bytes) :
    target_of h' url = ((target_of h url).1.or_host host, (target_of h url).2) := by
  subst heq
  unfold target_of
  by_cases hslash : url.head? ≠ some 47
  · rw [if_pos hslash, if_pos hslash]
  rw [if_neg hslash, if_neg hslash]
  by_cases hone : (path_of url).length = 1
  · rw [if_pos hone, if_pos hone]
    rfl
  · rw [if_neg hone, if_neg hone]
    rfl

theorem request_line_or_host (h : Head) (host : HostPtr) (text : Bytes) :
    request_line (h.or_host host) text
      = ((request_line h text).1.or_host host, (request_line h text).2) := by
  unfold request_line absolute_of
  dsimp only
  split_ifs
  · split
    · rfl
    split
    · rfl
    split
    · rfl
    split
    · rfl
    · refine target_of_or_host ?_ _
      rfl
  · split <;> rfl
  · rfl

theorem parse_header_line_or_host (h : Head) (host : HostPtr) (start : ℕ) (text : Bytes) :
    parse_header_line (h.or_host host) start text
      = ((parse_header_line h start text).1.or_host host, (parse_header_line h start text).2) := by
  unfold parse_header_line
  dsimp only
  split_ifs <;> rfl

theorem head_line_or_host (h : Head) (host : HostPtr) (st : CheckState) (pos : ℕ) (raw : Bytes) :
    head_line (h.or_host host) st pos raw
      = (head_line h st pos raw).map (·.or_host host) (·.or_host host) := by
  unfold head_line
  rw [request_line_or_host, parse_header_line_or_host]
  have hcode := request_line_code h (raw.takeWhile (· ≠ 0))
  have hcode' := parse_header_line_code h pos (raw.takeWhile (· ≠ 0))
  generalize request_line h (raw.takeWhile (· ≠ 0)) = r at hcode ⊢
  generalize parse_header_line h pos (raw.takeWhile (· ≠ 0)) = r' at hcode' ⊢
  obtain ⟨h₁, outcome⟩ := r
  obtain ⟨h₂, code⟩ := r'
  split_ifs
  · rcases hcode with rfl | rfl | rfl <;> rfl
  · rfl
  · rcases hcode' with rfl | rfl <;> rfl

theorem head_run_or_host (h : Head) (host : HostPtr) (st : CheckState) (pos : ℕ) (s : Bytes) :
    head_run (h.or_host host) st pos s = (head_run h st pos s).or_host host := by
  induction h, st, pos, s using head_run_induction with
  | hnone h st pos s hsplit => exact head_run_none hsplit
  | hgo h st pos s raw rest h₁ hsplit hline ih =>
    rw [← ih]
    refine head_run_inl hsplit ?_
    rw [head_line_or_host, hline, Sum.map_inl]
  | hstop h st pos s raw rest r hsplit hline =>
    refine head_run_inr hsplit ?_
    rw [head_line_or_host, hline, Sum.map_inr]

/-! ## What every line keeps -/

/-- The result has not been rejected, and satisfies `P`. -/
def HeadResult.Satisfies (P : ℕ → Head → Prop) : HeadResult → Prop
  | .pending h _ pos => P pos h
  | .stopped _ _ => True
  | .complete h pos => P pos h

theorem head_run_invariant (P : ℕ → Head → Prop)
    (hline : ∀ pos h text pos', P pos h → pos + text.length < pos' →
      (request_line h text).2 = .code .NO_REQUEST → P pos' (request_line h text).1)
    (hheader : ∀ pos h text pos', P pos h → pos + text.length < pos' →
      (parse_header_line h pos text).2 = .NO_REQUEST → P pos' (parse_header_line h pos text).1)
    (hblank : ∀ pos h pos', P pos h → pos < pos' → P pos' h)
    (h : Head) (st : CheckState) (pos : ℕ) (s : Bytes) (h₀ : P pos h) :
    (head_run h st pos s).Satisfies P := by
  induction h, st, pos, s using head_run_induction with
  | hnone h st pos s hsplit => exact h₀
  | hgo h st pos s raw rest h₁ hsplit hgo ih =>
    have hle : (raw.takeWhile (· ≠ 0)).length ≤ raw.length := takeWhile_length_le _ _
    apply ih
    rcases head_line_inl hgo with ⟨-, hr⟩ | ⟨-, hr⟩
    · have hstep := hline pos h (raw.takeWhile (· ≠ 0)) (pos + raw.length + 2) h₀ (by omega)
      rw [hr] at hstep
      exact hstep rfl
    · have hstep := hheader pos h (raw.takeWhile (· ≠ 0)) (pos + raw.length + 2) h₀ (by omega)
      rw [hr] at hstep
      exact hstep rfl
  | hstop h st pos s raw rest r hsplit hend =>
    rcases head_line_inr hend with ⟨-, rfl⟩ | ⟨h', rfl | rfl⟩
    · exact hblank pos h _ h₀ (by omega)
    · trivial
    · trivial

def HostBefore (pos : ℕ) (h : Head) : Prop := ∀ i, h.m_host = .buf i → i < pos

theorem head_run_host_before (h : Head) (st : CheckState) (pos : ℕ) (s : Bytes)
    (h₀ : HostBefore pos h) : (head_run h st pos s).Satisfies HostBefore := by
  apply head_run_invariant HostBefore _ _ _ h st pos s h₀
  · intro pos h text pos' hb hlt _ i hi
    rw [request_line_host] at hi
    have := hb i hi
    omega
  · intro pos h text pos' hb hlt _ i hi
    rcases parse_header_line_host h pos text with hsame | ⟨j, hj, hnew⟩
    · rw [hsame] at hi
      have := hb i hi
      omega
    · rw [hnew, HostPtr.buf.injEq] at hi
      omega
  · intro pos h pos' hb hlt i hi
    have := hb i hi
    omega

theorem head_run_host_from (h : Head) (st : CheckState) (pos : ℕ) (s : Bytes) :
    (head_run h st pos s).Satisfies fun p h' =>
      pos ≤ p ∧ (h'.m_host = h.m_host ∨ ∃ j, pos ≤ j ∧ h'.m_host = .buf j) := by
  apply head_run_invariant _ _ _ _ h st pos s ⟨le_refl pos, .inl rfl⟩
  · rintro p h' text p' ⟨hp, hhost⟩ hlt -
    rw [request_line_host]
    exact ⟨by omega, hhost⟩
  · rintro p h' text p' ⟨hp, hhost⟩ hlt -
    refine ⟨by omega, ?_⟩
    rcases parse_header_line_host h' p text with hsame | ⟨j, hj, hnew⟩
    · rw [hsame]
      exact hhost
    · exact .inr ⟨p + j, by omega, hnew⟩
  · rintro p h' p' ⟨hp, hhost⟩ hlt
    exact ⟨by omega, hhost⟩

/-! ## Heads -/

/-- What a result can be: the state is that of a head, and a rejected head has one of
two outcomes. -/
def HeadResult.WF (st : CheckState) : HeadResult → Prop
  | .pending _ st' _ => st' = st ∨ st' = .HEADER
  | .stopped _ outcome => outcome = .code .BAD_REQUEST ∨ outcome = .undefined
  | .complete _ _ => True

theorem head_run_wf (h : Head) (st : CheckState) (pos : ℕ) (s : Bytes) :
    (head_run h st pos s).WF st := by
  induction h, st, pos, s using head_run_induction with
  | hnone h st pos s hsplit => exact .inl rfl
  | hgo h st pos s raw rest h₁ hsplit hline ih =>
    cases hrun : head_run h₁ .HEADER (pos + raw.length + 2) rest with
    | pending h' st' pos' =>
      rw [hrun] at ih
      exact .inr (ih.elim id id)
    | stopped h' outcome =>
      rw [hrun] at ih
      exact ih
    | complete h' pos' => trivial
  | hstop h st pos s raw rest r hsplit hline =>
    rcases head_line_inr hline with ⟨-, rfl⟩ | ⟨h', rfl | rfl⟩
    · trivial
    · exact .inl rfl
    · exact .inr rfl

/-- The lines of a head, each with its CRLF. -/
def lines_text (lines : List Bytes) : Bytes := lines.flatMap (· ++ CRLF)

/-- A line of a head: not empty, also not to a reader of C strings, and with no CRLF. -/
def IsLine (l : Bytes) : Prop :=
  l.head? ≠ none ∧ l.head? ≠ some 0 ∧ ∀ i : ℕ, ¬ (l[i]? = some CR ∧ l[i + 1]? = some LF)

/-- **A complete head**: lines, and the empty line at its end. -/
def IsHead (s : Bytes) : Prop :=
  ∃ lines : List Bytes, s = lines_text lines ++ CRLF ∧ ∀ l ∈ lines, IsLine l

theorem split_line_isLine {l : Bytes} (hl : IsLine l) {rest raw rest' : Bytes}
    (hsplit : split_line (l ++ CRLF ++ rest) = some (raw, rest')) : raw = l ∧ rest' = rest := by
  obtain ⟨⟨heq, hplain⟩, -⟩ := split_line_eq hsplit
  have hget : ∀ i : ℕ, (l ++ CR :: LF :: rest)[i]? = (raw ++ CR :: LF :: rest')[i]? := by
    intro i
    rw [← heq]
    simp [CRLF]
  have hlen : raw.length = l.length := by
    rcases Nat.lt_trichotomy raw.length l.length with hlt | heq | hgt
    · -- the CRLF that ends the shorter line would be inside the other, or half of it
      have hcr : l[raw.length]? = some CR := by
        have := hget raw.length
        rw [getElem?_append_left hlt, getElem?_append_right (le_refl _)] at this
        simpa using this
      have hlf := hget (raw.length + 1)
      rw [getElem?_append_right (by omega : raw.length ≤ raw.length + 1)] at hlf
      simp only [Nat.add_sub_cancel_left, getElem?_cons_succ, getElem?_cons_zero] at hlf
      by_cases hend : raw.length + 1 < l.length
      · rw [getElem?_append_left hend] at hlf
        exact absurd ⟨hcr, hlf⟩ (hl.2.2 raw.length)
      have hidx : raw.length + 1 = l.length := by omega
      rw [hidx, getElem?_append_right (le_refl _), Nat.sub_self, getElem?_cons_zero,
        Option.some.injEq] at hlf
      exact absurd hlf (by decide)
    · exact heq
    · have hcr := hget l.length
      rw [getElem?_append_right (le_refl _), Nat.sub_self, getElem?_append_left hgt] at hcr
      have hmem : CR ∈ raw := mem_of_getElem? hcr.symm
      exact absurd (hplain CR hmem) (by decide)
  have happ : l ++ CR :: LF :: rest = raw ++ CR :: LF :: rest' := by
    rw [← heq]
    simp [CRLF]
  obtain ⟨hraw, htail⟩ := append_inj happ hlen.symm
  simp only [List.cons.injEq, true_and] at htail
  exact ⟨hraw.symm, htail.symm⟩

theorem head_run_line {l : Bytes} (hl : IsLine l) {rest : Bytes} {p : ℕ}
    (hrun : head_run h st pos (l ++ CRLF ++ rest) = .complete h' p) :
    ∃ h₁, head_line h st pos l = .inl h₁ ∧
      head_run h₁ .HEADER (pos + l.length + 2) rest = .complete h' p := by
  cases hsplit : split_line (l ++ CRLF ++ rest) with
  | none =>
    rw [head_run_none hsplit] at hrun
    contradiction
  | some line =>
    obtain ⟨raw, tail⟩ := line
    obtain ⟨rfl, rfl⟩ := split_line_isLine hl hsplit
    cases hline : head_line h st pos raw with
    | inl h₁ => exact ⟨h₁, rfl, (head_run_inl hsplit hline).symm.trans hrun⟩
    | inr r =>
      rw [head_run_inr hsplit hline] at hrun
      rcases head_line_inr hline with ⟨hnil, -⟩ | ⟨h₁, rfl | rfl⟩
      · -- the line is not empty to a reader of C strings either
        rw [takeWhile_eq_nil_iff] at hnil
        cases raw with
        | nil => exact absurd rfl hl.1
        | cons b raw =>
          have hb := hnil (by simp)
          simp only [get_eq_getElem, getElem_cons_zero, decide_eq_true_eq, not_not] at hb
          exact absurd (by rw [hb]; rfl) hl.2.1
      · contradiction
      · contradiction

theorem head_run_lines (lines : List Bytes) (hlines : ∀ l ∈ lines, IsLine l) {p : ℕ}
    (hst : st ≠ .CONTENT) (hrun : head_run h st pos (lines_text lines ++ CRLF) = .complete h' p) :
    p = pos + (lines_text lines).length + 2 := by
  induction lines generalizing h st pos with
  | nil =>
    cases st with
    | REQUESTLINE =>
      contradiction
    | CONTENT => exact absurd rfl hst
    | HEADER =>
      obtain ⟨rfl, rfl⟩ := hrun
      rfl
  | cons l lines ih =>
    have hfront : lines_text (l :: lines) = l ++ CRLF ++ lines_text lines := by
      simp [lines_text]
    rw [hfront, append_assoc] at hrun
    obtain ⟨h₁, -, hrest⟩ := head_run_line (hlines l (by simp)) hrun
    have hp := ih (fun l hl => hlines l (mem_cons_of_mem _ hl)) (by decide) hrest
    have hlen : (lines_text (l :: lines)).length = l.length + 2 + (lines_text lines).length := by
      rw [hfront, length_append, length_append]
      rfl
    omega

/-! ## Reads -/

/-- How far the bytes of a connection take the parser. -/
def head_after (s : Bytes) : HeadResult := head_run Head.init .REQUESTLINE 0 s

/-- The position of the last host value among them. -/
def host_after (s : Bytes) : HostPtr := (head_after s).head.m_host

def ring_size (k : ℕ) : ℕ := READ_BUFFER_INITIAL_SIZE * 2 ^ k

/-- The ring can grow after the host value has come. -/
def Dangles (s : Bytes) (host : HostPtr) : Prop :=
  ∃ k, ring_size k ≤ s.length ∧ host_after (s.take (ring_size k - 1)) = host

/-- What is in `m_host` where it should be `host`. -/
def HostIs (s : Bytes) (host actual : HostPtr) : Prop :=
  actual = host ∨ actual = .freed ∧ (∃ i, host = .buf i) ∧ Dangles s host

theorem head_after_append (hs : head_after s = .pending h st pos) :
    pos ≤ s.length ∧ head_after (s ++ w) = head_run h st pos ((s ++ w).drop pos) := by
  have happend := head_run_append w Head.init .REQUESTLINE 0 s
  unfold head_after at hs
  rw [hs] at happend
  obtain ⟨-, hle, -, heq⟩ := happend
  exact ⟨by omega, heq⟩

theorem head_after_none (hs : head_after s = .pending h st pos) :
    split_line (s.drop pos) = none := by
  have happend := head_run_append [] Head.init .REQUESTLINE 0 s
  unfold head_after at hs
  rw [hs] at happend
  exact happend.2.2.1

theorem head_after_stopped (w : Bytes) {outcome : Outcome}
    (hs : head_after s = .stopped h outcome) :
    head_after (s ++ w) = .stopped h outcome := by
  have happend := head_run_append w Head.init .REQUESTLINE 0 s
  unfold head_after at hs
  rw [hs] at happend
  exact happend

theorem head_after_complete (w : Bytes) (hs : head_after s = .complete h pos) :
    head_after (s ++ w) = .complete h pos := by
  have happend := head_run_append w Head.init .REQUESTLINE 0 s
  unfold head_after at hs
  rw [hs] at happend
  exact happend

theorem host_after_before (hs : head_after s = .pending h st pos) : HostBefore pos h := by
  have hbefore := head_run_host_before Head.init .REQUESTLINE 0 s (nofun)
  unfold head_after at hs
  rw [hs] at hbefore
  exact hbefore

theorem host_after_between (w' : Bytes) (hs : head_after s = .pending h st pos)
    (hend : ∀ h' outcome, head_after (s ++ w ++ w') ≠ .stopped h' outcome)
    (hsame : host_after (s ++ w ++ w') = h.m_host) : host_after (s ++ w) = h.m_host := by
  cases hsw : head_after (s ++ w) with
  | stopped h₁ outcome => exact absurd (head_after_stopped w' hsw) (hend h₁ outcome)
  | complete h₁ pos₁ =>
    rw [← hsame]
    unfold host_after
    rw [head_after_complete w' hsw, hsw]
  | pending h₁ st₁ pos₁ =>
    have hbefore := host_after_before hs
    have hpos : pos ≤ pos₁ := by
      have hfrom := head_run_host_from h st pos ((s ++ w).drop pos)
      rw [← (head_after_append hs).2, hsw] at hfrom
      exact hfrom.1
    have hfrom := head_run_host_from h₁ st₁ pos₁ ((s ++ w ++ w').drop pos₁)
    rw [← (head_after_append hsw).2] at hfrom
    unfold host_after at hsame ⊢
    rw [hsw]
    -- a later line would have set it to a later position
    have hlast : (head_after (s ++ w ++ w')).head.m_host = h₁.m_host ∨
        ∃ j, pos₁ ≤ j ∧ (head_after (s ++ w ++ w')).head.m_host = .buf j := by
      cases hall : head_after (s ++ w ++ w') with
      | stopped h' outcome => exact absurd hall (hend h' outcome)
      | _ =>
        rw [hall] at hfrom
        exact hfrom.2
    rcases hlast with hkept | ⟨j, hj, hnew⟩
    · exact hkept.symm.trans hsame
    · have := hbefore j (hsame.symm.trans hnew)
      omega

theorem Dangles.append (h : Dangles s host) (w : Bytes) : Dangles (s ++ w) host := by
  obtain ⟨k, hk, hhost⟩ := h
  refine ⟨k, by rw [length_append]; omega, ?_⟩
  rw [take_append_of_le_length (by omega)]
  exact hhost

/-- A connection between two reads of a head. -/
structure HeadRead (s : Bytes) (c : Conn) : Prop where
  view : ∃ base, HeadView s base c
  received : c.received = s
  roomy : Roomy c
  tight : Tight c
  state : c.m_check_state ≠ .CONTENT
  chunks : c.chunks = .init
  body : c.body = .init
  run : ∃ host, head_after s =
      .pending { c.head with m_host := host } c.m_check_state c.m_start_line ∧
    HostIs s host c.head.m_host

theorem headRead_fresh : HeadRead [] fresh where
  view := ⟨0, headView_fresh⟩
  received := rfl
  roomy := roomy_fresh
  tight := tight_fresh
  state := nofun
  chunks := rfl
  body := rfl
  run := ⟨.null, rfl, .inl rfl⟩

/-- A connection at the empty line. -/
structure Headed (s : Bytes) (base : ℕ) (h : Head) (pos : ℕ) (c : Conn) : Prop where
  view : HeadView s base c
  received : c.received = s
  roomy : Roomy c
  chunks : c.chunks = .init
  body : c.body = .init
  state : c.m_check_state = .HEADER
  checked : c.m_checked_idx = pos
  head : c.head = { h with m_host := c.head.m_host }
  host : HostIs s h.m_host c.head.m_host

def HeadDelivered (env : Env) (s w : Bytes) (c : Conn) (r : Result) : HeadResult → Prop
  | .pending _ _ _ => r.2 = .code .NO_REQUEST ∧ HeadRead (s ++ w) r.1
  | .stopped _ outcome => r.2 = outcome
  | .complete h pos => ∃ c' fuel, r = after_line env fuel .HEADER (parse_blank_line env c') ∧
      (s ++ w).length + 1 < pos + fuel ∧ Headed (s ++ w) c.m_start_line h pos c' ∧
      (c.head.m_host = .null → c'.head = h) ∧
      (h.m_host = host_after s → c'.head.m_host =
        if s.length + w.length < c.m_read_ring.capacity then c.head.m_host else c.head.m_host.moved)

theorem HostIs.read (h₁ : Head) (hr : HeadRead s c)
    (hrun : head_after s = .pending { c.head with m_host := host } c.m_check_state c.m_start_line)
    (hhost : HostIs s host c.head.m_host)
    (hend : ∀ h' outcome, head_after (s ++ w) ≠ .stopped h' outcome)
    (hlast : (head_after (s ++ w)).head = h₁.or_host host) :
    HostIs (s ++ w) (h₁.or_host host).m_host
      (h₁.or_host (if c.m_read_ring.size + w.length < c.m_read_ring.capacity then c.head.m_host
        else c.head.m_host.moved)).m_host := by
  unfold Head.or_host
  by_cases hnull : h₁.m_host = .null
  · simp only [if_pos hnull]
    rcases hhost with hsame | ⟨hfreed, hbuf, hdangles⟩
    · rw [hsame]
      by_cases hfits : c.m_read_ring.size + w.length < c.m_read_ring.capacity
      · rw [if_pos hfits]
        exact .inl rfl
      rw [if_neg hfits]
      cases host with
      | buf i =>
        -- the ring grows: at its last byte before that the value was there
        refine .inr ⟨rfl, ⟨i, rfl⟩, ?_⟩
        obtain ⟨k, hk, -⟩ := hr.tight
        have hsize : c.m_read_ring.size = s.length := by
          rw [← hr.received, length_received]
        have hroom := hr.roomy.room
        refine ⟨k, ?_, ?_⟩
        · rw [length_append]
          unfold ring_size
          omega
        obtain ⟨n, hn⟩ : ∃ n, n = ring_size k - 1 - s.length := ⟨_, rfl⟩
        have hidx : ring_size k - 1 = s.length + n := by
          unfold ring_size at hn ⊢
          omega
        rw [hidx, take_length_add_append]
        have hsplit : s ++ w.take n ++ w.drop n = s ++ w := by
          rw [append_assoc, take_append_drop]
        refine host_after_between (w.drop n) hrun ?_ ?_
        · rw [hsplit]
          exact hend
        rw [hsplit]
        unfold host_after
        rw [hlast]
        exact if_pos hnull
      | _ => exact .inl rfl
    · rw [hfreed]
      refine .inr ⟨?_, hbuf, hdangles.append w⟩
      exact ite_self _
  · simp only [if_neg hnull]
    exact .inl rfl

theorem HeadRead.process (env : Env) {c' : Conn} (hr : HeadRead s c) (hsync : Synced c c' w) :
    HeadDelivered env s w c (process_read env c') (head_after (s ++ w)) := by
  obtain ⟨base, v⟩ := hr.view
  obtain ⟨host, hrun, hhost⟩ := hr.run
  obtain ⟨hdeliver, hspec⟩ := process_read_synced env v hr.received hr.state hsync
  obtain ⟨mh, hmh⟩ : ∃ mh, mh = if c.m_read_ring.size + w.length < c.m_read_ring.capacity then
      c.head.m_host else c.head.m_host.moved := ⟨_, rfl⟩
  have hrest := hsync.rest
  rw [← hmh] at hrest
  -- both the parser and the specification run on a head that differs in `m_host`
  obtain ⟨R, hR⟩ : ∃ R, R = head_run { c.head with m_host := .null } c.m_check_state
      c.m_start_line ((s ++ w).drop c.m_start_line) := ⟨_, rfl⟩
  have hpure : head_after (s ++ w) = R.or_host host := by
    rw [(head_after_append hrun).2, hR, ← head_run_or_host]
    rfl
  have hconn : head_run c'.head c.m_check_state c.m_start_line ((s ++ w).drop c.m_start_line)
      = R.or_host mh := by
    rw [hR, ← head_run_or_host, hrest]
    rfl
  rw [hconn] at hspec
  have hread := HostIs.read (w := w) R.head hr hrun hhost
  rw [← hmh] at hread
  rw [hpure] at hread ⊢
  have hringsize : c.m_read_ring.size = s.length := by
    rw [← hr.received, length_received]
  -- the parts of the connection that the lines leave alone
  have hkept : ∀ c'', HeadKept c' c'' → c''.received = s ++ w ∧ Roomy c'' ∧ Tight c'' ∧
      c''.chunks = .init ∧ c''.body = .init := by
    intro c'' hk
    refine ⟨?_, ?_, ?_, ?_, ?_⟩
    · show c''.m_read_ring.contents = s ++ w
      rw [hk.ring]
      exact hsync.received.trans (by rw [hr.received])
    · refine ⟨?_, ?_⟩
      · rw [hk.ring]
        exact hsync.roomy.size
      · rw [hk.ring]
        exact hsync.roomy.room
    · unfold Tight
      rw [hk.ring]
      exact hsync.tight hr.tight
    · rw [hk.chunks, hrest]
      exact hr.chunks
    · rw [hk.body, hrest]
      exact hr.body
  cases R with
  | pending h₁ st₁ pos₁ =>
    obtain ⟨c'', hloop, hview, hk, hhead, hstate, hstart⟩ := hspec
    obtain ⟨hreceived, hroomy, htight, hchunks, hbody⟩ := hkept c'' hk
    rw [hdeliver, hloop]
    refine ⟨rfl, ⟨_, hview⟩, hreceived, hroomy, htight, ?_, hchunks, hbody, ?_⟩
    · have hwf := head_run_wf { c.head with m_host := .null } c.m_check_state
        c.m_start_line ((s ++ w).drop c.m_start_line)
      rw [← hR] at hwf
      rw [hstate]
      rcases hwf with rfl | rfl
      · exact hr.state
      · decide
    · refine ⟨(h₁.or_host host).m_host, ?_, ?_⟩
      · rw [hpure, hhead, hstate, hstart]
        rfl
      · rw [hhead]
        exact hread (fun _ _ hne => by cases hne) rfl
  | stopped h₁ outcome =>
    obtain ⟨c'', hloop, -⟩ := hspec
    rw [hdeliver, hloop]
    rfl
  | complete h₁ pos₁ =>
    obtain ⟨c'', fuel', hloop, hview, hk, hhead, hstate, hstart, hchecked, hfuel⟩ := hspec
    obtain ⟨hreceived, hroomy, htight, hchunks, hbody⟩ := hkept c'' hk
    rw [hdeliver, hloop]
    refine ⟨c'', fuel', rfl, hfuel, ⟨hview, hreceived, hroomy, hchunks, hbody, hstate, hchecked,
      ?_, ?_⟩, ?_, ?_⟩
    · rw [hhead]
      rfl
    · rw [hhead]
      exact hread (fun _ _ hne => by cases hne) rfl
    · intro hnull
      have hmhnull : mh = .null := by
        rw [hmh, hnull]
        exact ite_self _
      have hhostnull : host = .null := by
        rw [hnull] at hhost
        rcases hhost with hsame | ⟨hfreed, -⟩
        · exact hsame.symm
        · contradiction
      rw [hhead, hmhnull, hhostnull]
    · -- the value is that of an earlier read: a line of this one would be further on
      intro hsame
      have hold : host_after s = host := by
        unfold host_after
        rw [hrun]
        rfl
      have hfrom := head_run_host_from { c.head with m_host := .null } c.m_check_state
        c.m_start_line ((s ++ w).drop c.m_start_line)
      rw [← hR] at hfrom
      rw [hhead, ← hringsize, ← hmh]
      rcases hfrom.2 with hnull | ⟨j, hj, hbuf⟩
      · exact if_pos hnull
      have hne : h₁.m_host ≠ .null := by
        rw [show h₁.m_host = .buf j from hbuf]
        exact nofun
      have hnew : (h₁.or_host host).m_host = h₁.m_host := if_neg hne
      have hjhost : host = .buf j := hold.symm.trans (hsame.symm.trans (hnew.trans hbuf))
      have hbefore := host_after_before hrun j hjhost
      omega

theorem HeadRead.deliver (env : Env) (hr : HeadRead s c)
    (hmax : s.length + w.length < READ_BUFFER_MAX_SIZE) :
    HeadDelivered env s w c (deliver env c w) (head_after (s ++ w)) := by
  obtain ⟨c', hdeliver, hsync⟩ := deliver_spec env (p := w) hr.roomy
    (by rw [hr.received]; exact hmax)
  rw [hdeliver]
  exact hr.process env hsync

/-- What the first read of a connection gives. -/
def FirstRead (env : Env) (w : Bytes) (r : Result) : HeadResult → Prop
  | .pending _ _ _ => r.2 = .code .NO_REQUEST ∧ HeadRead w r.1
  | .stopped _ outcome => r.2 = outcome
  | .complete h pos => ∃ c fuel, r = after_line env fuel .HEADER (parse_blank_line env c) ∧
      w.length + 1 < pos + fuel ∧ Headed w 0 h pos c ∧ c.head = h

theorem process_read_fresh (env : Env) (hsync : Synced fresh c w) :
    FirstRead env w (process_read env c) (head_after w) := by
  have hread := headRead_fresh.process env hsync
  rw [nil_append] at hread
  cases hrun : head_after w with
  | complete h pos =>
    rw [hrun] at hread
    obtain ⟨c, fuel, hresult, hfuel, hheaded, hnull, -⟩ := hread
    exact ⟨c, fuel, hresult, hfuel, hheaded, hnull rfl⟩
  | _ =>
    rw [hrun] at hread
    exact hread

theorem deliver_fresh (env : Env) (hmax : w.length < READ_BUFFER_MAX_SIZE) :
    FirstRead env w (deliver env fresh w) (head_after w) := by
  obtain ⟨c, hdeliver, hsync⟩ := deliver_spec env (p := w) roomy_fresh
    (by rw [show fresh.received.length = 0 from rfl]; omega)
  rw [hdeliver]
  exact process_read_fresh env hsync

theorem deliver_fits (env : Env) (h : (deliver env fresh w).2 ≠ .closed) :
    w.length < READ_BUFFER_MAX_SIZE := by
  cases hreceive : receive fresh w with
  | none =>
    rw [deliver, hreceive] at h
    exact absurd rfl h
  | some c =>
    have hmax := receive_lt roomy_fresh hreceive
    rw [show fresh.m_read_ring.size = 0 from rfl, Nat.zero_add] at hmax
    exact hmax

/-! ## After the empty line -/

theorem blank_line_code (env : Env) (h : Head) (byte : Option UInt8) (b : Body) :
    (blank_line env h byte b).2 = .NO_REQUEST ∨ (blank_line env h byte b).2 = .GET_REQUEST ∨
      (blank_line env h byte b).2.is_error = true := by
  unfold blank_line
  split_ifs
  · exact .inr (.inr rfl)
  · exact .inr (.inr rfl)
  · exact .inr (.inl rfl)
  · exact .inr (.inr rfl)
  · dsimp only
    split_ifs
    · exact .inr (.inr rfl)
    · exact .inl rfl
  · dsimp only
    exact .inl rfl

theorem after_blank_line (env : Env) (fuel : ℕ) (c : Conn) :
    after_line env fuel .HEADER (parse_blank_line env c) =
      match (blank_line env c.head (host_byte env c) c.body).2 with
      | .NO_REQUEST => process_read_loop env fuel
          (c.headed (blank_line env c.head (host_byte env c) c.body)) .LINE_OK
      | .GET_REQUEST => (c.headed (blank_line env c.head (host_byte env c) c.body), .do_request)
      | code => (c.headed (blank_line env c.head (host_byte env c) c.body), .code code) := by
  have hcode := blank_line_code env c.head (host_byte env c) c.body
  rw [parse_blank_line_eq]
  generalize blank_line env c.head (host_byte env c) c.body = r at hcode ⊢
  obtain ⟨b, code⟩ := r
  cases code with
  | NO_REQUEST => rfl
  | GET_REQUEST => rfl
  | BAD_REQUEST => rfl
  | INTERNAL_ERROR => rfl
  | PAYLOAD_TOO_LARGE => rfl
  | NOT_IMPLEMENTED => rfl
  | _ => simp [HttpCode.is_error] at hcode

theorem after_blank_line_head (env : Env) (fuel : ℕ) (c : Conn) :
    (after_line env fuel .HEADER (parse_blank_line env c)).1.head = c.head := by
  rw [after_blank_line]
  split
  · rename_i hno
    refine (process_read_loop_sameHead env fuel .LINE_OK ?_).1
    exact if_pos hno
  · rfl
  · rfl

/-- What a request's body is, before its first byte. -/
def empty_body (h : Head) : Body :=
  if is_multipart h then { Body.init with m_stream_body_file := some [] } else Body.init

/-- The body, as far as it has been decoded: the spool file, or the buffered body. -/
def decoded_body (c : Conn) : Bytes :=
  c.body.m_stream_body_file.getD c.body.m_request_body

theorem blank_line_body {byte : Option UInt8}
    (hno : (blank_line env h byte .init).2 = .NO_REQUEST) :
    (blank_line env h byte .init).1 = empty_body h := by
  unfold blank_line begin_streamed_body_capture at hno ⊢
  unfold empty_body
  by_cases hmulti : is_multipart h
  · split_ifs at hno ⊢ <;> simp_all [Body.init]
  · split_ifs at hno ⊢
    simp_all

theorem host_byte_one_read (hc : Headed s 0 h pos c) (hhead : c.head = h) :
    host_byte env c = match h.m_host with
      | .null => none
      | .buf i => some (host_view s 0 i)
      | .freed => some env.freed := by
  unfold host_byte
  rw [hhead]
  cases hhost : h.m_host with
  | buf i =>
    dsimp only
    rw [(hc.view.host i (by rw [hhead]; exact hhost)).2]
  | _ => rfl

theorem host_view_append (hi : i < s.length) (base : ℕ) :
    host_view (s ++ w) base i = host_view s base i := by
  unfold host_view
  rw [getD_append _ _ _ _ hi]

theorem head_after_isHead (hs : IsHead s) (hrun : head_after s = .complete h pos) :
    pos = s.length := by
  obtain ⟨lines, rfl, hlines⟩ := hs
  have hpos := head_run_lines lines hlines (by decide) hrun
  rw [hpos, length_append, Nat.zero_add]
  rfl

theorem accepted_head {hd : Bytes} (hhead : IsHead hd)
    (hread : deliver env fresh hd = (c, .code .NO_REQUEST)) (hst : c.m_check_state = .CONTENT) :
    head_after hd = .complete c.head hd.length ∧
      ∀ p c', Headed (hd ++ p) 0 c.head hd.length c' → c'.head = c.head →
        (blank_line env c.head (host_byte env c') .init).2 = .NO_REQUEST := by
  have hlen : hd.length < READ_BUFFER_MAX_SIZE := by
    refine deliver_fits env ?_
    simp [hread]
  have hfirst := deliver_fresh env hlen
  rw [hread] at hfirst
  cases hrun : head_after hd with
  | pending h st pos =>
    rw [hrun] at hfirst
    exact absurd hst hfirst.2.state
  | stopped h outcome =>
    rw [hrun] at hfirst
    have hwf := head_run_wf Head.init .REQUESTLINE 0 hd
    unfold head_after at hrun
    rw [hrun] at hwf
    obtain rfl : Outcome.code .NO_REQUEST = outcome := hfirst
    rcases hwf with hbad | hundef
    · exact absurd hbad (by decide)
    · contradiction
  | complete h pos =>
    rw [hrun] at hfirst
    obtain ⟨c₁, fuel₁, hresult, hfuel₁, hheaded₁, hc₁⟩ := hfirst
    have hpos := head_after_isHead hhead hrun
    have hch : c.head = h := by
      have hsame := after_blank_line_head env fuel₁ c₁
      rw [← hresult] at hsame
      exact hsame.trans hc₁
    rw [hch, ← hpos]
    refine ⟨rfl, fun p c' hheaded' hc' => ?_⟩
    have hbyte : host_byte env c' = host_byte env c₁ := by
      rw [host_byte_one_read hheaded' hc', host_byte_one_read hheaded₁ hc₁]
      cases hhost : h.m_host with
      | buf i =>
        have hi := (hheaded₁.view.host i (by rw [hc₁]; exact hhost)).1
        have hle := hheaded₁.view.start_le
        rw [hheaded₁.checked, hpos] at hle
        dsimp only
        rw [host_view_append (by omega)]
      | _ => rfl
    rw [hbyte]
    -- the other codes are results
    have hcode := blank_line_code env h (host_byte env c₁) .init
    rw [after_blank_line, hheaded₁.body, hc₁] at hresult
    rcases hcode with hno | hget | herror
    · exact hno
    · rw [hget] at hresult
      exact absurd ((Prod.mk.inj hresult).2) (by simp)
    · cases hcode' : (blank_line env h (host_byte env c₁) .init).2 with
      | NO_REQUEST => rfl
      | _ =>
        rw [hcode'] at hresult
        exact absurd ((Prod.mk.inj hresult).2) (by simp)

/-! ## Half a line end -/

/-- The byte at `i` is a CR without its LF or an LF without its CR, and the byte after it
has come. -/
def LoneEnd (s : Bytes) (i : ℕ) : Prop :=
  i + 1 < s.length ∧
    (s[i]? = some CR ∧ s[i + 1]? ≠ some LF ∨ s[i]? = some LF ∧ (i = 0 ∨ s[i - 1]? ≠ some CR))

instance (s : Bytes) (i : ℕ) : Decidable (LoneEnd s i) :=
  inferInstanceAs (Decidable (_ ∧ (_ ∧ _ ∨ _ ∧ (_ ∨ _))))

theorem split_line_lone (hlone : LoneEnd s i) (hpos : pos ≤ i)
    (hnone : split_line ((s.take i).drop pos) = none) : split_line (s.drop pos) = none := by
  by_contra hsome
  obtain ⟨⟨raw, rest⟩, hsplit⟩ := Option.ne_none_iff_exists'.mp hsome
  obtain ⟨⟨hs, hplain⟩, -⟩ := split_line_eq hsplit
  obtain ⟨j, rfl⟩ : ∃ j, i = pos + j := ⟨i - pos, by omega⟩
  have hget : ∀ k, s[pos + k]? = (raw ++ CR :: LF :: rest)[k]? := by
    intro k
    rw [← getElem?_drop, hs]
  obtain ⟨-, hlone⟩ := hlone
  have hend : s[pos + j]? = some CR ∨ s[pos + j]? = some LF := hlone.imp And.left And.left
  -- where in the line, or after it, the byte would be
  rcases Nat.lt_trichotomy j raw.length with hlt | rfl | hgt
  · rw [hget, getElem?_append_left hlt] at hend
    rcases hend with hcr | hlf
    · exact absurd (hplain CR (mem_of_getElem? hcr)) (by decide)
    · exact absurd (hplain LF (mem_of_getElem? hlf)) (by decide)
  · have hcr : s[pos + raw.length]? = some CR := by simp [hget]
    have hlf : s[pos + raw.length + 1]? = some LF := by simp [Nat.add_assoc, hget]
    rcases hlone with ⟨-, hnot⟩ | ⟨hlf', -⟩
    · exact hnot hlf
    · rw [hcr] at hlf'
      exact absurd hlf' (by decide)
  · by_cases hnext : j = raw.length + 1
    · subst hnext
      have hlf : s[pos + (raw.length + 1)]? = some LF := by simp [hget]
      have hcr : s[pos + (raw.length + 1) - 1]? = some CR := by
        simp [hget]
      rcases hlone with ⟨hcr', -⟩ | ⟨-, hzero | hnot⟩
      · rw [hlf] at hcr'
        exact absurd hcr' (by decide)
      · omega
      · exact hnot hcr
    · -- the line was there before
      have hbefore : (s.take (pos + j)).drop pos
          = raw ++ CR :: LF :: rest.take (j - raw.length - 2) := by
        obtain ⟨k, rfl⟩ : ∃ k, j = raw.length + 2 + k := ⟨j - raw.length - 2, by omega⟩
        rw [drop_take, hs, Nat.add_sub_cancel_left, Nat.add_assoc, take_length_add_append]
        simp [Nat.add_comm 2]
      rw [hbefore, split_line_line _ hplain] at hnone
      contradiction

theorem head_after_lone (hlone : LoneEnd s i) (hrun : head_after (s.take i) = .pending h st pos) :
    head_after s = .pending h st pos := by
  obtain ⟨hpos, heq⟩ := head_after_append (w := s.drop i) hrun
  rw [length_take] at hpos
  rw [take_append_drop] at heq
  rw [heq]
  exact head_run_none (split_line_lone hlone (by omega) (head_after_none hrun))

theorem drive_singleton (env : Env) (c : Conn) (p : Bytes) :
    (drive env c [p]).2 = (deliver env c p).2 := by
  by_cases hno : (deliver env c p).2 = .code .NO_REQUEST
  · rw [drive_more [] hno, hno]
    rfl
  · rw [drive_stop [] hno]

theorem drive_stopped (env : Env) (hr : HeadRead s c) (ps : List Bytes)
    (hmax : (s ++ ps.flatten).length < READ_BUFFER_MAX_SIZE) {outcome : Outcome}
    (hrun : head_after (s ++ ps.flatten) = .stopped h outcome) :
    (drive env c ps).2 = outcome := by
  -- on the reads; `s` are the bytes before each
  induction ps generalizing s c with
  | nil =>
    obtain ⟨host, hpending, -⟩ := hr.run
    rw [flatten_nil, append_nil, hpending] at hrun
    contradiction
  | cons p ps ih =>
    rw [flatten_cons, ← append_assoc] at hmax hrun
    have hlen : s.length + p.length < READ_BUFFER_MAX_SIZE := by
      simp only [length_append] at hmax
      omega
    have hread := hr.deliver env hlen
    cases hp : head_after (s ++ p) with
    | pending h₁ st pos =>
      rw [hp] at hread
      rw [drive_more ps hread.1]
      exact ih hread.2 hmax hrun
    | stopped h₁ outcome₁ =>
      rw [hp] at hread
      rw [head_after_stopped _ hp, HeadResult.stopped.injEq] at hrun
      obtain ⟨-, rfl⟩ := hrun
      have hwf := head_run_wf Head.init .REQUESTLINE 0 (s ++ p)
      unfold head_after at hp
      rw [hp] at hwf
      have hne : (deliver env c p).2 ≠ .code .NO_REQUEST := by
        rw [show (deliver env c p).2 = outcome₁ from hread]
        rcases hwf with rfl | rfl <;> decide
      rw [drive_stop ps hne]
      exact hread
    | complete h₁ pos =>
      rw [head_after_complete _ hp] at hrun
      contradiction

/-- **Half a line end is rejected** with `BAD_REQUEST` by the time the byte after it has
come, however the bytes are cut into reads, exactly if they fit into the buffer and a line
before it has been rejected already. The half line end itself never is: `process_read`
takes `LINE_BAD` for `LINE_OPEN`. -/
theorem lone_end_rejected_iff (env : Env) (hlone : LoneEnd s i)
    (hhead : ∀ h pos, head_after (s.take i) ≠ .complete h pos) :
    (∀ ps : List Bytes, ps.flatten = s → (drive env fresh ps).2 = .code .BAD_REQUEST) ↔
      s.length < READ_BUFFER_MAX_SIZE ∧
        ∃ h, head_after (s.take i) = .stopped h (.code .BAD_REQUEST) := by
  constructor
  · intro hall
    have hread : (deliver env fresh s).2 = .code .BAD_REQUEST :=
      (drive_singleton env fresh s).symm.trans (hall [s] (by simp))
    have hmax : s.length < READ_BUFFER_MAX_SIZE := by
      refine deliver_fits env ?_
      rw [hread]
      decide
    have hfirst := deliver_fresh env hmax
    refine ⟨hmax, ?_⟩
    cases hrun : head_after (s.take i) with
    | pending h st pos =>
      rw [head_after_lone hlone hrun] at hfirst
      exact absurd (hfirst.1.symm.trans hread) (by decide)
    | stopped h outcome =>
      have hs := head_after_stopped (s.drop i) hrun
      rw [take_append_drop] at hs
      rw [hs] at hfirst
      exact ⟨h, by rw [← hread, show (deliver env fresh s).2 = outcome from hfirst]⟩
    | complete h pos => exact absurd hrun (hhead h pos)
  · rintro ⟨hmax, h, hstopped⟩ ps rfl
    refine drive_stopped env headRead_fresh ps (by simpa using hmax) (h := h) ?_
    have := head_after_stopped (ps.flatten.drop i) hstopped
    rw [take_append_drop] at this
    exact this


/-- A request line that is too short, and a line with a lone LF after it. -/
theorem short_line_before_lone_end :
    LoneEnd (lit "GET\r\nHost: a\n\n") 12 ∧
      ∀ ps : List Bytes, ps.flatten = lit "GET\r\nHost: a\n\n" →
        (drive default_env fresh ps).2 = .code .BAD_REQUEST := by
  have hlone : LoneEnd (lit "GET\r\nHost: a\n\n") 12 := by decide +kernel
  have hrun : head_after ((lit "GET\r\nHost: a\n\n").take 12)
      = .stopped Head.init (.code .BAD_REQUEST) :=
    head_run_inr (by decide +kernel : split_line _ = some (lit "GET", lit "Host: a")) rfl
  refine ⟨hlone, (lone_end_rejected_iff default_env hlone ?_).mpr ⟨by decide +kernel, _, hrun⟩⟩
  exact fun h pos => HeadResult.noConfusion

/-- A request whose lines end in LF alone is never rejected. -/
theorem lone_end_waits :
    LoneEnd (lit "GET / HTTP/1.1\nHost: a\n\n") 14 ∧
      (∀ h pos, head_after ((lit "GET / HTTP/1.1\nHost: a\n\n").take 14) ≠ .complete h pos) ∧
      (drive default_env fresh [lit "GET / HTTP/1.1\nHost: a\n\n"]).2 = .code .NO_REQUEST := by
  have hlone : LoneEnd (lit "GET / HTTP/1.1\nHost: a\n\n") 14 := by decide +kernel
  refine ⟨hlone, ?_, ?_⟩
  · exact fun h pos => HeadResult.noConfusion
  · have hread := deliver_fresh default_env (w := lit "GET / HTTP/1.1\nHost: a\n\n")
      (by decide +kernel)
    exact hread.1

end AtlasWebServer.Http
