/-
The end of a body that is not spooled: `m_body_start_idx + m_content_length`.

`parse_headers` checks a declared length against the upload limit only if the body is
multipart. Any other one comes straight from `atol`, up to `LONG_MAX`, and
`parse_content` adds the position of the body to it. The sum of two `long`s wraps to a
negative number, the comparison with `m_read_idx` is then true whatever has been
received, and the terminating NUL goes to a negative index.

The calls of `parse_content` that the loop of `process_read` makes are listed by
`content_calls`; the results hold for every call of every run.
-/
import AtlasWebServer.HttpReading
import AtlasWebServer.RequestLineSafety

set_option autoImplicit false

namespace AtlasWebServer.Http

open Bytes CString RingBuffer List

variable {c : Conn}

/-! ## The calls of `parse_content` -/

/-- The calls after the call on a line: `next` has those of the passes to come. -/
def calls_after (next : Conn → LineStatus → List Conn) (state : CheckState) : Result → List Conn
  | (c, .code code) =>
      if code.is_error then []
      else if code = .GET_REQUEST ∧ state ≠ .REQUESTLINE then []
      else next c (if state = .CONTENT then .LINE_OPEN else .LINE_OK)
  | _ => []

/-- The connections on which the loop of `process_read` calls `parse_content`. -/
def content_calls (env : Env) : ℕ → Conn → LineStatus → List Conn
  | 0, _, _ => []
  | fuel + 1, c, line_status =>
      match next_line c line_status with
      | (c, .LINE_OK) =>
          let now := { c with m_start_line := c.m_checked_idx }
          (if c.m_check_state = .CONTENT then [now] else []) ++
            calls_after (content_calls env fuel) c.m_check_state
              (process_line env now c.m_start_line)
      | _ => []

def read_calls (env : Env) (c : Conn) (p : Bytes) : List Conn :=
  match receive c p with
  | none => []
  | some c =>
      let c := sync_read_buffer c
      content_calls env (c.m_read_idx + 2) c .LINE_OK

theorem content_calls_invariant {env : Env} {P : Conn → Prop}
    (hline : ∀ c line_status, P c → P (next_line c line_status).1)
    (hstart : ∀ c, P c → P { c with m_start_line := c.m_checked_idx })
    (hprocess : ∀ c text c' code, P c → process_line env c text = (c', .code code) →
      code.is_error = false → P c')
    (fuel : ℕ) (c : Conn) (line_status : LineStatus) (hc : P c) :
    (∀ d ∈ content_calls env fuel c line_status, P d) ∧
      ∀ c', process_read_loop env fuel c line_status = (c', .code .NO_REQUEST) → P c' := by
  -- no call and no result is where the loop ends
  have hnone : ∀ {d : Conn}, d ∈ ([] : List Conn) → P d := fun hd => absurd hd not_mem_nil
  induction fuel generalizing c line_status with
  | zero => exact ⟨fun _ => hnone, fun c' h => by cases h⟩
  | succ fuel ih =>
    have hnext := hline c line_status hc
    obtain ⟨c₁, status, heq⟩ : ∃ c₁ status, next_line c line_status = (c₁, status) := ⟨_, _, rfl⟩
    rw [heq] at hnext
    by_cases hok : status = .LINE_OK
    swap
    · rw [process_read_no_line heq hok]
      have hcalls : content_calls env (fuel + 1) c line_status = [] := by
        rw [content_calls, heq]
        cases status with
        | LINE_OK => exact absurd rfl hok
        | _ => rfl
      rw [hcalls]
      refine ⟨fun _ => hnone, fun c' hresult => ?_⟩
      rw [← (Prod.mk.inj hresult).1]
      exact hnext
    subst hok
    have hnow := hstart c₁ hnext
    rw [process_read_line heq, content_calls, heq]
    dsimp only
    rcases hr : process_line env { c₁ with m_start_line := c₁.m_checked_idx } c₁.m_start_line with
      ⟨c₂, outcome⟩
    -- what the passes to come do
    have hrest : (∀ d ∈ calls_after (content_calls env fuel) c₁.m_check_state (c₂, outcome), P d) ∧
        ∀ c', after_line env fuel c₁.m_check_state (c₂, outcome) = (c', .code .NO_REQUEST) →
          P c' := by
      cases outcome with
      | code code =>
        rw [calls_after, after_line]
        by_cases herror : code.is_error = true
        · rw [if_pos herror, if_pos herror]
          refine ⟨fun _ => hnone, fun c' hresult => ?_⟩
          rw [Outcome.code.inj (Prod.mk.inj hresult).2] at herror
          exact absurd herror (by decide)
        have hc₂ := hprocess _ _ _ _ hnow hr (Bool.not_eq_true _ ▸ herror)
        rw [if_neg herror, if_neg herror]
        split
        · exact ⟨fun _ => hnone, fun c' hresult => absurd hresult (by simp)⟩
        · exact ih _ _ hc₂
      | _ => exact ⟨fun _ => hnone, fun c' hresult => by cases hresult⟩
    refine ⟨fun d hd => ?_, hrest.2⟩
    rcases mem_append.mp hd with hd | hd
    · split at hd
      · rw [mem_singleton.mp hd]
        exact hnow
      · exact hnone hd
    · exact hrest.1 d hd

/-! ## Positions and lengths during a request -/

/-- What holds of a connection that reads a head, or a body that is not spooled. -/
structure Placed (c : Conn) : Prop where
  roomy : Roomy c
  nonneg : 0 ≤ c.head.m_content_length
  long : c.head.m_content_length ≤ LONG_MAX
  start : c.m_body_start_idx ≤ c.m_read_idx
  checked : c.m_checked_idx ≤ c.m_read_idx
  read : c.m_read_idx = c.m_read_ring.size
  buffer : c.m_read_buf.length = c.m_read_idx + 1

theorem Placed.moved {c' : Conn} (hc : Placed c) (hring : c'.m_read_ring = c.m_read_ring)
    (hlength : c'.head.m_content_length = c.head.m_content_length)
    (hread : c'.m_read_idx = c.m_read_idx) (hbuffer : c'.m_read_buf.length = c.m_read_buf.length)
    (hstart : c'.m_body_start_idx ≤ c.m_read_idx) (hchecked : c'.m_checked_idx ≤ c.m_read_idx) :
    Placed c' where
  roomy := ⟨by rw [hring]; exact hc.roomy.size, by rw [hring]; exact hc.roomy.room⟩
  nonneg := by rw [hlength]; exact hc.nonneg
  long := by rw [hlength]; exact hc.long
  start := by rw [hread]; exact hstart
  checked := by rw [hread]; exact hchecked
  read := by rw [hread, hring]; exact hc.read
  buffer := by rw [hbuffer, hread]; exact hc.buffer

/-- A body that is chunked or spooled has its own accounts. -/
def Spooled (c : Conn) : Prop :=
  c.m_check_state = .CONTENT ∧
    (c.head.m_chunked = true ∨ c.body.m_stream_body_file.isSome = true)

theorem atol_le (s : Bytes) : atol s ≤ LONG_MAX := by
  have hpos : (0 : ℤ) ≤ LONG_MAX := by decide
  unfold atol
  dsimp only
  split <;> omega

theorem parse_line_loop_placed (n : ℕ) (c : Conn) (hn : c.m_checked_idx + n ≤ c.m_read_idx)
    (hc : Placed c) : Placed (parse_line_loop n c).1 := by
  have hstart := hc.start
  induction n generalizing c with
  | zero => exact hc
  | succ n ih =>
    have hmove : ∀ k mem, mem.length = c.m_read_buf.length → k ≤ c.m_read_idx →
        Placed { c with m_read_buf := mem, m_checked_idx := k } :=
      fun k mem hmem hk => hc.moved rfl rfl rfl hmem hstart hk
    rw [parse_line_loop]
    split_ifs
    · exact hc
    · exact hmove _ _ (by simp) (by omega)
    · exact hc
    · exact hmove _ _ (by simp) (by omega)
    · exact hc
    · apply ih
      · show c.m_checked_idx + 1 + n ≤ c.m_read_idx
        omega
      · exact hmove _ _ rfl (by omega)
      · exact hstart

theorem next_line_placed (c : Conn) (line_status : LineStatus) (hc : Placed c) :
    Placed (next_line c line_status).1 := by
  unfold next_line
  split_ifs
  · exact hc
  · apply parse_line_loop_placed _ _ _ hc
    have := hc.checked
    omega

theorem parse_request_line_frame (c : Conn) (text : ℕ) :
    ∃ mem version h state, (parse_request_line c text).1 = { c with
        m_read_buf := mem, m_version := version, head := h, m_check_state := state } ∧
      mem.length = c.m_read_buf.length ∧ h.m_content_length = c.head.m_content_length := by
  have honly := (parse_request_line_only c text).length
  have hframe : ∃ mem version h state, (parse_request_line c text).1 = { c with
        m_read_buf := mem, m_version := version, head := h, m_check_state := state } ∧
      h.m_content_length = c.head.m_content_length := by
    unfold parse_request_line parse_absolute parse_target
    dsimp only
    repeat' split
    all_goals exact ⟨_, _, _, _, rfl, rfl⟩
  obtain ⟨mem, version, h, state, heq, hlen⟩ := hframe
  rw [heq] at honly
  exact ⟨mem, version, h, state, heq, honly, hlen⟩

theorem parse_header_line_length (h : Head) (start : ℕ) (text : Bytes)
    (herror : (parse_header_line h start text).2.is_error = false)
    (hnonneg : 0 ≤ h.m_content_length) (hlong : h.m_content_length ≤ LONG_MAX) :
    0 ≤ (parse_header_line h start text).1.m_content_length ∧
      (parse_header_line h start text).1.m_content_length ≤ LONG_MAX := by
  unfold parse_header_line at herror ⊢
  dsimp only at herror ⊢
  -- only the line of the length sets it
  split_ifs at herror ⊢ with h1 h2 h3 h4 hneg
  all_goals first
    | exact ⟨hnonneg, hlong⟩
    | exact Bool.noConfusion herror
    | exact ⟨Int.not_lt.mp (by assumption), atol_le _⟩

theorem parse_blank_line_placed (env : Env) (hc : Placed c) :
    Placed (parse_blank_line env c).1 := by
  unfold parse_blank_line
  dsimp only
  split_ifs
  all_goals first
    | exact hc.moved rfl rfl rfl rfl hc.start hc.checked
    | exact hc.moved rfl rfl rfl rfl hc.checked hc.checked

theorem parse_content_spooled (env : Env) (hc : Spooled c) : Spooled (parse_content env c).1 := by
  obtain ⟨hst, hbody⟩ := hc
  obtain ⟨hhead, hstate⟩ := parse_content_sameHead env hst
  refine ⟨hstate.trans hst, ?_⟩
  by_cases hchunked : c.head.m_chunked = true
  · exact .inl (by rw [hhead, hchunked])
  -- the spool file stays open
  have hfile := hbody.resolve_left hchunked
  right
  have happend : ∀ data,
    (append_streamed_body_chunk env c.head c.body data).1.m_stream_body_file.isSome
      = true := by
    intro data
    unfold append_streamed_body_chunk
    split
    · exact hfile
    · dsimp only
      split_ifs <;> simp_all
  unfold parse_content
  unfold parse_streamed_content reset_streamed_body_buffer
  dsimp only
  split_ifs <;> first
    | exact happend _
    | exact hfile

theorem parse_content_placed (env : Env) (hst : c.m_check_state = .CONTENT) (hc : Placed c) :
    Placed (parse_content env c).1 ∨ Spooled (parse_content env c).1 := by
  by_cases hspooled : Spooled c
  · exact .inr (parse_content_spooled env hspooled)
  left
  have hplain : ¬ (c.head.m_chunked = true ∨ c.body.m_stream_body_file.isSome = true) :=
    fun h => hspooled ⟨hst, h⟩
  rw [not_or] at hplain
  unfold parse_content
  rw [if_neg hplain.1, if_neg hplain.2]
  split_ifs
  · exact hc
  · exact hc.moved rfl rfl rfl (by simp) hc.start hc.checked
  · exact hc

/-! ## Every call of every run -/

def InRequest (c : Conn) : Prop := Placed c ∨ Spooled c

theorem parse_line_loop_body (n : ℕ) (c : Conn) : (parse_line_loop n c).1.body = c.body := by
  induction n generalizing c with
  | zero => rfl
  | succ n ih =>
    rw [parse_line_loop]
    split_ifs <;> first
      | rfl
      | exact ih { c with m_checked_idx := c.m_checked_idx + 1 }

theorem next_line_inRequest (c : Conn) (line_status : LineStatus) (hc : InRequest c) :
    InRequest (next_line c line_status).1 := by
  rcases hc with hplaced | ⟨hst, hbody⟩
  · exact .inl (next_line_placed c line_status hplaced)
  obtain ⟨hhead, hstate⟩ := next_line_sameHead c line_status
  have hsame : (next_line c line_status).1.body = c.body := by
    unfold next_line
    split_ifs
    · rfl
    · exact parse_line_loop_body _ _
  right
  exact ⟨hstate.trans hst, by rw [hhead, hsame]; exact hbody⟩

theorem process_line_inRequest (env : Env) (c : Conn) (text : ℕ) (c' : Conn) (code : HttpCode)
    (hc : InRequest c) (hr : process_line env c text = (c', .code code))
    (herror : code.is_error = false) : InRequest c' := by
  have hfst := congrArg Prod.fst hr
  dsimp only at hfst
  rw [← hfst]
  unfold process_line
  cases hst : c.m_check_state with
  | REQUESTLINE =>
    have hplaced : Placed c := hc.resolve_right fun h => absurd (hst.symm.trans h.1) (by simp)
    obtain ⟨mem, version, h, state, heq, hmem, hlen⟩ := parse_request_line_frame c text
    left
    rw [heq]
    exact hplaced.moved rfl hlen rfl hmem hplaced.start hplaced.checked
  | HEADER =>
    have hplaced : Placed c := hc.resolve_right fun h => absurd (hst.symm.trans h.1) (by simp)
    left
    dsimp only
    unfold parse_headers
    split
    · exact parse_blank_line_placed env hplaced
    rename_i hne
    -- the code of the line is the code of the call
    have hcode : (parse_header_line c.head text (cstr c.m_read_buf text)).2 = code := by
      unfold process_line parse_headers at hr
      rw [hst] at hr
      rw [if_neg hne] at hr
      exact Outcome.code.inj (Prod.mk.inj hr).2
    rw [← hcode] at herror
    obtain ⟨hnonneg, hlong⟩ := parse_header_line_length c.head text (cstr c.m_read_buf text)
      herror hplaced.nonneg hplaced.long
    exact { hplaced with
      roomy := ⟨hplaced.roomy.size, hplaced.roomy.room⟩, nonneg := hnonneg, long := hlong }
  | CONTENT =>
    rcases hc with hplaced | hspooled
    · exact parse_content_placed env hst hplaced
    · exact .inr (parse_content_spooled env hspooled)

theorem receive_frame {P : Conn → Prop}
    (hP : ∀ (c : Conn) ring mem version host, P c →
      P { c with
        m_read_ring := ring, m_read_buf := mem, m_version := version
        head := { c.head with m_host := host } })
    (fuel : ℕ) (c c' : Conn) (p : Bytes) (hc : P c) (hrun : receive_loop fuel c p = some c') :
    P c' := by
  have hensure : ∀ (c : Conn) (n : ℕ), P c → P (ensure_read_capacity c n).1 := by
    intro c n hc
    unfold ensure_read_capacity
    dsimp only
    repeat' split
    all_goals first
      | exact hc
      | exact hP c _ _ _ _ hc
  induction fuel generalizing c p with
  | zero =>
    cases p with
    | nil => exact Option.some.inj hrun ▸ hc
    | cons b p => contradiction
  | succ fuel ih =>
    cases p with
    | nil => exact Option.some.inj hrun ▸ hc
    | cons b p =>
      rw [receive_loop] at hrun
      have hring : ∀ ring, P { c with m_read_ring := ring } :=
        fun ring => hP c ring c.m_read_buf c.m_version c.head.m_host hc
      split at hrun
      · split at hrun
        · rename_i c₁ heq
          have hgrown : P (c₁, true).1 := heq ▸ hensure _ _ (hring _)
          exact ih c₁ _ hgrown hrun
        · contradiction
      · exact ih _ _ (hring _) hrun

/-- The connections between two reads: a request starts with `init`, on a ring of any
size that a connection can have, and a read that brings no result is followed by
another. -/
inductive Reading (env : Env) : Conn → Prop
  | init {c : Conn} : Roomy c → Reading env c.init
  | read {c c' : Conn} {p : Bytes} :
      Reading env c → deliver env c p = (c', .code .NO_REQUEST) → Reading env c'

theorem reading_fresh (env : Env) : Reading env fresh := .init ⟨⟨0, by decide, rfl⟩, by decide⟩

theorem placed_init (h : Roomy c) : Placed c.init where
  roomy := ⟨h.size, Nat.lt_of_le_of_lt (Nat.zero_le _) h.room⟩
  nonneg := Int.le_refl 0
  long := show (0 : ℤ) ≤ LONG_MAX by decide
  start := Nat.le_refl 0
  checked := Nat.le_refl 0
  read := rfl
  buffer := rfl

theorem receive_inRequest {c' : Conn} {p : Bytes} (hc : InRequest c)
    (hrun : receive c p = some c') :
    InRequest (sync_read_buffer c') := by
  rcases hc with hplaced | hspooled
  · have hrec := receive_some hplaced.roomy hrun
    have hsync := hrec.synced
    have hlen : c.received.length = c.m_read_idx := by
      rw [length_received, hplaced.read]
    have hsize : (sync_read_buffer c').m_read_ring.size = c.received.length + p.length := by
      rw [← length_received, hsync.received, length_append]
    have hstart := hplaced.start
    have hchecked := hplaced.checked
    have hroomy := hsync.roomy
    have hrest := hsync.rest
    generalize sync_read_buffer c' = c₁ at hroomy hsize hrest ⊢
    left
    rw [hrest]
    refine ⟨⟨hroomy.size, hroomy.room⟩, hplaced.nonneg, hplaced.long, ?_, ?_, hsize.symm, ?_⟩
    · show c.m_body_start_idx ≤ c.received.length + p.length
      omega
    · show c.m_checked_idx ≤ c.received.length + p.length
      omega
    · simp [Nat.add_assoc]
  · right
    have hkept : Spooled c' :=
      receive_frame (P := Spooled) (fun _ _ _ _ _ h => h) p.length c c' p hspooled hrun
    exact hkept

theorem read_calls_inRequest (env : Env) (p : Bytes) (hc : InRequest c) :
    (∀ d ∈ read_calls env c p, InRequest d) ∧
      ∀ c', deliver env c p = (c', .code .NO_REQUEST) → InRequest c' := by
  unfold read_calls deliver process_read
  cases hrun : receive c p with
  | none => exact ⟨fun d hd => absurd hd not_mem_nil, fun c' h => absurd h (by simp)⟩
  | some c₁ =>
    apply content_calls_invariant next_line_inRequest _ (process_line_inRequest env)
    · exact receive_inRequest hc hrun
    · rintro c₂ (h | h)
      · exact .inl (h.moved rfl rfl rfl rfl h.start h.checked)
      · exact .inr h

theorem Reading.inRequest {env : Env} (h : Reading env c) : InRequest c := by
  induction h with
  | init hroomy => exact .inl (placed_init hroomy)
  | read _ hdeliver ih => exact (read_calls_inRequest env _ ih).2 _ hdeliver

/-! ## The end of the body -/

/-- The sum is the number it should be, and if the body is taken to be complete the NUL
goes to an index of the received bytes or just behind them, in `m_read_buf`. -/
structure EndInRange (c : Conn) : Prop where
  exact : content_end c = c.m_body_start_idx + c.head.m_content_length
  index : (c.m_read_idx : ℤ) ≥ content_end c →
    0 ≤ content_end c ∧ content_end c ≤ c.m_read_idx ∧
      (content_end c).toNat < c.m_read_buf.length

theorem Placed.content_end_eq (hc : Placed c)
    (hsum : (c.m_body_start_idx : ℤ) + c.head.m_content_length ≤ LONG_MAX) :
    content_end c = c.m_body_start_idx + c.head.m_content_length := by
  have hnonneg := hc.nonneg
  unfold content_end long_add
  unfold LONG_MAX at hsum
  rw [Int.bmod_eq_of_le] <;> omega

theorem Placed.content_end_neg (hc : Placed c)
    (hsum : LONG_MAX < (c.m_body_start_idx : ℤ) + c.head.m_content_length) :
    content_end c < 0 := by
  have hstart := hc.start
  have hread := hc.read
  obtain ⟨⟨k, hk, hcap⟩, hroom⟩ := hc.roomy
  have hmax : READ_BUFFER_INITIAL_SIZE * 2 ^ k ≤ READ_BUFFER_INITIAL_SIZE * 2 ^ 7 :=
    Nat.mul_le_mul_left _ (Nat.pow_le_pow_right (by decide) hk)
  have hlimit : READ_BUFFER_INITIAL_SIZE * 2 ^ 7 = 2097152 := by decide
  have hlong := hc.long
  unfold content_end long_add
  unfold LONG_MAX at hsum hlong
  unfold Int.bmod
  dsimp only
  split <;> omega

/-- **Bodies that are not spooled.** At every call of `parse_content` for such a body, in
every run, the end of the body is in range exactly when the header section and the
declared length together fit a `long`. -/
theorem content_end_in_range_iff {env : Env} {c d : Conn} (p : Bytes) (hc : Reading env c)
    (hd : d ∈ read_calls env c p) (hchunked : d.head.m_chunked = false)
    (hfile : d.body.m_stream_body_file = none) :
    EndInRange d ↔ (d.m_body_start_idx : ℤ) + d.head.m_content_length ≤ LONG_MAX := by
  have hplaced : Placed d := by
    refine ((read_calls_inRequest env p hc.inRequest).1 d hd).resolve_right ?_
    rintro ⟨-, hspooled⟩
    simp [hchunked, hfile] at hspooled
  have hnonneg := hplaced.nonneg
  constructor
  · intro hrange
    by_contra hover
    have hneg := hplaced.content_end_neg (Int.not_le.mp hover)
    have := (hrange.index (by omega)).1
    omega
  intro hsum
  have heq := hplaced.content_end_eq hsum
  have hbuffer := hplaced.buffer
  refine ⟨heq, fun hge => ?_⟩
  omega

def short_request : Bytes :=
  lit "POST /x HTTP/1.1\r\nHost: a\r\nContent-Length: 5\r\n\r\nhello"

theorem short_body_in_range :
    ∃ d ∈ read_calls default_env fresh short_request,
      EndInRange d ∧ content_end d = d.m_read_idx := by
  have htest : (read_calls default_env fresh short_request).any (fun d =>
      decide (d.head.m_chunked = false ∧ d.body.m_stream_body_file = none ∧
        (d.m_body_start_idx : ℤ) + d.head.m_content_length ≤ LONG_MAX ∧
        content_end d = d.m_read_idx)) = true := by
    decide +kernel
  obtain ⟨d, hd, hd'⟩ := any_eq_true.mp htest
  obtain ⟨hchunked, hfile, hsum, hend⟩ := of_decide_eq_true hd'
  exact ⟨d, hd, (content_end_in_range_iff short_request (reading_fresh default_env) hd hchunked
    hfile).mpr hsum, hend⟩

def endless_request : Bytes :=
  lit "POST /x HTTP/1.1\r\nHost: a\r\nContent-Length: 9223372036854775807\r\n\r\n"

/-- No byte of the body has come, and it is taken to be complete: the NUL goes to an
index before the buffer. -/
theorem endless_body_out_of_range :
    ∃ d ∈ read_calls default_env fresh endless_request,
      d.head.m_chunked = false ∧ d.body.m_stream_body_file = none ∧
        (d.m_read_idx : ℤ) ≥ content_end d ∧ content_end d < 0 ∧ ¬ EndInRange d := by
  have htest : (read_calls default_env fresh endless_request).any (fun d =>
      decide (d.head.m_chunked = false ∧ d.body.m_stream_body_file = none ∧
        content_end d < 0)) = true := by
    decide +kernel
  obtain ⟨d, hd, hd'⟩ := any_eq_true.mp htest
  obtain ⟨hchunked, hfile, hneg⟩ := of_decide_eq_true hd'
  have hge : (d.m_read_idx : ℤ) ≥ content_end d := by omega
  refine ⟨d, hd, hchunked, hfile, hge, hneg, fun hrange => ?_⟩
  have := (hrange.index hge).1
  omega

end AtlasWebServer.Http
