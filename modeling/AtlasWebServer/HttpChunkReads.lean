/-
Reads of a chunked body: `process_read` on a connection whose head is complete is
`chunk_run` on the bytes that are there, and so is any number of reads.

Between two reads the decoder waits with what it could not use at the front of the
buffer, after `compact_read_buffer_prefix`. `process_read` looks for a line in it
before it returns; there is none, for a rest has no CRLF.
-/
import AtlasWebServer.HttpChunks
import AtlasWebServer.HttpHeadReads

set_option autoImplicit false

namespace AtlasWebServer.Http

open Bytes CString RingBuffer List

variable {c : Conn} {s : Bytes} {h : Head} {host : HostPtr}

/-! ## `parse_chunked_content` -/

/-- The bytes `parse_chunked_content` has not read. -/
def Conn.unread (c : Conn) : Bytes := (c.m_read_buf.take c.m_read_idx).drop c.m_chunked_parse_idx

/-- The decoder has moved on, to where `s` is left. -/
def Conn.advance (c : Conn) (k : Chunks) (b : Body) (s : Bytes) : Conn :=
  { c with chunks := k, body := b, m_chunked_parse_idx := c.m_read_idx - s.length }

/-- The indices are inside the buffer. -/
structure InBuffer (c : Conn) : Prop where
  read_le : c.m_read_idx ≤ c.m_read_buf.length
  parse_le : c.m_chunked_parse_idx ≤ c.m_read_idx

theorem InBuffer.length_unread (h : InBuffer c) :
    c.unread.length = c.m_read_idx - c.m_chunked_parse_idx := by
  unfold Conn.unread
  rw [length_drop, length_take, Nat.min_eq_left h.read_le]

variable {n : ℕ} {env : Env} {r : Result} {d : ChunkStep} {k : Chunks} {b : Body}

theorem InBuffer.advance_drop (h : InBuffer c) (k : Chunks) (b : Body) (hn : n ≤ c.unread.length) :
    c.advance k b (c.unread.drop n) =
      { c with chunks := k, body := b, m_chunked_parse_idx := c.m_chunked_parse_idx + n } := by
  unfold Conn.advance
  have hidx : c.m_read_idx - (c.unread.drop n).length = c.m_chunked_parse_idx + n := by
    have := h.parse_le
    rw [h.length_unread] at hn
    rw [length_drop, h.length_unread]
    omega
  rw [hidx]

theorem InBuffer.advance_unread (h : InBuffer c) (k : Chunks) (b : Body) :
    c.advance k b c.unread = { c with chunks := k, body := b } :=
  h.advance_drop k b (Nat.zero_le _)

theorem InBuffer.unread_advance (h : InBuffer c) (k : Chunks) (b : Body)
    (hn : n ≤ c.unread.length) :
    (c.advance k b (c.unread.drop n)).unread = c.unread.drop n ∧
      InBuffer (c.advance k b (c.unread.drop n)) := by
  rw [h.advance_drop k b hn]
  refine ⟨?_, h.read_le, ?_⟩
  · unfold Conn.unread
    rw [drop_drop]
  have := h.parse_le
  rw [h.length_unread] at hn
  dsimp only
  omega

theorem parse_chunked_pass (env : Env) (fuel : ℕ) (h : InBuffer c) :
    parse_chunked_loop env (fuel + 1) c =
      match chunk_step env c.head c.chunks c.body c.unread with
      | .next k b s => parse_chunked_loop env fuel (c.advance k b s)
      | .wait k b s => ((c.advance k b s).compact_chunks, .code .NO_REQUEST)
      | .done k b s code => (c.advance k b s, .code code) := by
  have hlen := h.length_unread
  rw [parse_chunked_loop]
  unfold chunk_step
  by_cases hidx : c.m_chunked_parse_idx < c.m_read_idx
  · have hne : c.unread ≠ [] := by
      intro hnil
      rw [hnil, length_nil] at hlen
      omega
    rw [if_pos hidx, if_neg hne]
    have hrest : (c.m_read_buf.take c.m_read_idx).drop c.m_chunked_parse_idx = c.unread := rfl
    simp only [hrest]
    cases hst : c.chunks.m_chunk_state with
    | SIZE =>
      cases hline : line_length c.unread with
      | none =>
        dsimp only
        rw [h.advance_unread]
      | some n =>
        have hn := line_length_le hline
        dsimp only
        cases hsize : parse_chunk_size_line (c.unread.take n) with
        | none =>
          dsimp only
          rw [h.advance_unread]
        | some m_chunk_size =>
          dsimp only
          rw [h.advance_drop _ _ hn]
          rfl
    | DATA =>
      dsimp only
      have hn : min c.unread.length (c.chunks.m_chunk_size - c.chunks.m_chunk_bytes_read)
          ≤ c.unread.length := Nat.min_le_left _ _
      split_ifs with hcode hmore
      · dsimp only
        rw [h.advance_unread]
      all_goals
        dsimp only
        rw [h.advance_drop _ _ hn]
    | DATA_CRLF =>
      dsimp only
      split_ifs with hshort hcrlf
      · dsimp only
        rw [h.advance_unread]
      · dsimp only
        rw [h.advance_unread]
      · dsimp only
        rw [h.advance_drop _ _ (by omega)]
    | TRAILER =>
      cases hline : line_length c.unread with
      | none =>
        dsimp only
        rw [h.advance_unread]
      | some n =>
        have hn := line_length_le hline
        cases n with
        | zero =>
          dsimp only
          rw [h.advance_drop _ _ hn]
        | succ n =>
          dsimp only
          rw [h.advance_drop _ _ hn]
          rfl
    | DONE =>
      dsimp only
      rw [h.advance_unread]
  · have hnil : c.unread = [] := eq_nil_of_length_eq_zero (by omega)
    split_ifs with hdone
    all_goals
      dsimp only
      rw [h.advance_unread]

theorem parse_chunked_loop_eq (env : Env) (fuel : ℕ) (h : InBuffer c) (hk : c.chunks.WF) :
    parse_chunked_loop env fuel c =
      match chunk_loop env c.head fuel c.chunks c.body c.unread with
      | .next k b s => (c.advance k b s, .undefined)
      | .wait k b s => ((c.advance k b s).compact_chunks, .code .NO_REQUEST)
      | .done k b s code => (c.advance k b s, .code code) := by
  induction fuel generalizing c with
  | zero =>
    rw [parse_chunked_loop, chunk_loop]
    dsimp only
    rw [h.advance_unread]
  | succ fuel ih =>
    have hspec := chunk_step_spec env c.head c.body (s := c.unread) hk
    rw [parse_chunked_pass env fuel h, chunk_loop]
    cases hstep : chunk_step env c.head c.chunks c.body c.unread with
    | next k b s =>
      rw [hstep] at hspec
      obtain ⟨hk', n, -, hn, rfl⟩ := hspec
      obtain ⟨hunread, hin⟩ := h.unread_advance k b hn
      dsimp only
      rw [ih hin hk', hunread]
      rfl
    | _ => rfl

theorem parse_chunked_content_eq (env : Env) (h : InBuffer c) (hk : c.chunks.WF) :
    parse_chunked_content env c =
      match chunk_run env c.head c.chunks c.body c.unread with
      | .next k b s => (c.advance k b s, .undefined)
      | .wait k b s => ((c.advance k b s).compact_chunks, .code .NO_REQUEST)
      | .done k b s code => (c.advance k b s, .code code) := by
  unfold parse_chunked_content chunk_run
  rw [parse_chunked_loop_eq env _ h hk, h.length_unread]

theorem chunk_run_host (env : Env) (h : Head) (host : HostPtr) (k : Chunks) (b : Body) (s : Bytes) :
    chunk_run env { h with m_host := host } k b s = chunk_run env h k b s := by
  have hstep : ∀ k b s, chunk_step env { h with m_host := host } k b s = chunk_step env h k b s :=
    fun _ _ _ => rfl
  have hloop : ∀ fuel k b s,
      chunk_loop env { h with m_host := host } fuel k b s = chunk_loop env h fuel k b s := by
    intro fuel
    induction fuel with
    | zero => exact fun _ _ _ => rfl
    | succ fuel ih =>
      intro k b s
      rw [chunk_loop, chunk_loop, hstep]
      simp only [ih]
  exact hloop _ k b s

/-! ## Waiting for bytes -/

/-- The bytes of the ring are those of the buffer, from where the decoder is. -/
structure Aligned (c : Conn) : Prop extends InBuffer c where
  size : c.m_read_idx = c.received.length
  unread : c.unread = c.received.drop c.m_chunked_parse_idx

/-- The decoder waits: what it could not use is all that is left. -/
structure Waiting (env : Env) (k : Chunks) (b : Body) (s : Bytes) (c : Conn) : Prop where
  state : c.m_check_state = .CONTENT
  chunks : c.chunks = k
  body : c.body = b
  received : c.received = s
  parse_idx : c.m_chunked_parse_idx = 0
  wf : k.WF
  stuck : chunk_step env c.head k b s = .wait k b s
  roomy : Roomy c

theorem line_length_none (h : line_length s = none) (i : ℕ) :
    ¬ (s[i]? = some CR ∧ s[i + 1]? = some LF) := by
  induction s using line_length.induct generalizing i with
  | case3 a b rest hcrlf =>
    rw [line_length, if_pos hcrlf] at h
    contradiction
  | case4 a b rest hcrlf ih =>
    rw [line_length, if_neg hcrlf, Option.map_eq_none_iff] at h
    rintro ⟨hcr, hlf⟩
    cases i with
    | zero =>
      apply hcrlf
      simp only [getElem?_cons_zero, getElem?_cons_succ, Option.some.injEq] at hcr hlf
      exact ⟨hcr, hlf⟩
    | succ i =>
      exact ih h i ⟨hcr, hlf⟩
  | _ => simp

theorem parse_line_loop_none (n : ℕ) (c : Conn) (hn : n = c.m_read_idx - c.m_checked_idx)
    (hno : ∀ i, i + 1 < c.m_read_idx →
      ¬ (c.m_read_buf.getD i 0 = CR ∧ c.m_read_buf.getD (i + 1) 0 = LF)) :
    ∃ k status, parse_line_loop n c = ({ c with m_checked_idx := k }, status) ∧
      status ≠ .LINE_OK := by
  induction n generalizing c with
  | zero => exact ⟨c.m_checked_idx, .LINE_OPEN, rfl, by decide⟩
  | succ n ih =>
    rw [parse_line_loop]
    by_cases hcr : c.m_read_buf.getD c.m_checked_idx 0 = CR
    · rw [if_pos hcr]
      by_cases hend : c.m_checked_idx + 1 = c.m_read_idx
      · rw [if_pos hend]
        exact ⟨c.m_checked_idx, .LINE_OPEN, rfl, by decide⟩
      · rw [if_neg hend, if_neg fun hlf => hno c.m_checked_idx (by omega) ⟨hcr, hlf⟩]
        exact ⟨c.m_checked_idx, .LINE_BAD, rfl, by decide⟩
    rw [if_neg hcr]
    by_cases hlf : c.m_read_buf.getD c.m_checked_idx 0 = LF
    · rw [if_pos hlf, if_neg ?_]
      · exact ⟨c.m_checked_idx, .LINE_BAD, rfl, by decide⟩
      rintro ⟨hpos, hbefore⟩
      have hidx : c.m_checked_idx - 1 + 1 = c.m_checked_idx := by omega
      apply hno (c.m_checked_idx - 1) (by omega)
      rw [hidx]
      exact ⟨hbefore, hlf⟩
    · rw [if_neg hlf]
      obtain ⟨k, status, hloop, hstatus⟩ :=
        ih { c with m_checked_idx := c.m_checked_idx + 1 } (by dsimp only; omega) hno
      exact ⟨k, status, hloop, hstatus⟩

theorem parse_line_none (hs : c.m_read_buf.take c.m_read_idx = s) (hline : line_length s = none) :
    ∃ k status, parse_line c = ({ c with m_checked_idx := k }, status) ∧ status ≠ .LINE_OK := by
  apply parse_line_loop_none _ c rfl
  rintro i hi ⟨hcr, hlf⟩
  have hget : ∀ j, j < c.m_read_idx → ∀ b : UInt8, b ≠ 0 → c.m_read_buf.getD j 0 = b →
      s[j]? = some b := by
    intro j hj b hb hbuf
    rw [← hs, getElem?_take_of_lt hj]
    rw [getD_eq_getElem?_getD] at hbuf
    cases hsome : c.m_read_buf[j]? with
    | none =>
      rw [hsome] at hbuf
      exact absurd hbuf.symm hb
    | some x =>
      rw [hsome] at hbuf
      exact congrArg some hbuf
  exact line_length_none hline i
    ⟨hget i (by omega) CR (by decide) hcr, hget (i + 1) hi LF (by decide) hlf⟩

/-- What the decoder has read is gone, and the rest is at the front. -/
structure Compacted (c c' : Conn) : Prop where
  received : c'.received = c.unread
  buffer : c'.m_read_buf.take c'.m_read_idx = c.unread
  parse_idx : c'.m_chunked_parse_idx = 0
  chunks : c'.chunks = c.chunks
  body : c'.body = c.body
  head : c'.head = c.head
  state : c'.m_check_state = c.m_check_state
  roomy : Roomy c'

theorem compact_chunks_spec (ha : Aligned c) (hroom : Roomy c) : Compacted c c.compact_chunks := by
  have hsize := length_received c
  have hunread := ha.unread
  unfold Conn.compact_chunks compact_read_buffer_prefix
  by_cases hzero : c.m_chunked_parse_idx = 0
  · rw [if_pos hzero]
    refine ⟨?_, ?_, rfl, rfl, rfl, rfl, rfl, hroom.size, hroom.room⟩
    · rw [hunread, hzero]
      rfl
    · unfold Conn.unread
      rw [hzero]
      rfl
  · rw [if_neg hzero]
    have hle := ha.parse_le
    rw [ha.size, hsize] at hle
    have hmin : min c.m_chunked_parse_idx c.m_read_ring.size = c.m_chunked_parse_idx := by omega
    have hlen : c.unread.length = c.m_read_ring.size - c.m_chunked_parse_idx := by
      rw [hunread, length_drop, hsize]
    -- what is moved to the front
    have hmoved : ((c.received ++ [0]).drop c.m_chunked_parse_idx).take
        (c.received.length - c.m_chunked_parse_idx) = c.unread := by
      rw [drop_append_of_le_length (by omega), ← hunread,
        show c.received.length - c.m_chunked_parse_idx = c.unread.length by omega, take_left]
    have hfits : c.unread.length ≤ c.m_read_ring.reset.writable := by
      have := hroom.room
      show c.unread.length ≤ c.m_read_ring.capacity - 0
      omega
    rw [hmin, sync_read_buffer_eq]
    dsimp only [Conn.refill]
    rw [hmoved]
    refine ⟨?_, ?_, rfl, rfl, rfl, rfl, rfl, ?_, ?_⟩
    · show (c.m_read_ring.reset.append c.unread).contents = c.unread
      rw [RingBuf.contents_append _ hfits, RingBuf.contents_reset, nil_append]
    · rw [show c.received.length - c.m_chunked_parse_idx = c.unread.length by omega, take_left]
    · rw [RingBuf.capacity_append]
      exact hroom.size
    · have := hroom.room
      rw [RingBuf.capacity_append, RingBuf.size_append _ hfits]
      show 0 + c.unread.length < c.m_read_ring.capacity
      omega

/-! ## `process_read` on a chunked body -/

/-- What a read of a chunked body gives, in terms of what the decoder gives. -/
def Decoded (env : Env) (h : Head) (r : Result) : ChunkStep → Prop
  | .next _ _ _ => False
  | .wait k b s => r.2 = .code .NO_REQUEST ∧ Waiting env k b s r.1 ∧
      ∃ host, r.1.head = { h with m_host := host }
  | .done _ b _ code => r.2 = (if code = .GET_REQUEST then .do_request else .code code) ∧
      (code = .GET_REQUEST → r.1.body = b)

theorem Decoded.congr {d' : ChunkStep} (hr : Decoded env h r d) (hd : d'.Agrees d) :
    Decoded env h r d' := by
  rcases hd with rfl | ⟨k, b, s, k', b', s', code, rfl, rfl, hcode⟩
  · exact hr
  · refine ⟨hr.1, ?_⟩
    rintro rfl
    exact absurd hcode (by decide)

theorem outcome_ne_no_request {code : HttpCode}
    (hcode : code = .GET_REQUEST ∨ code.is_error = true) :
    (if code = .GET_REQUEST then Outcome.do_request else .code code) ≠ .code .NO_REQUEST := by
  rcases hcode with rfl | herror
  · decide
  split_ifs
  · exact nofun
  intro heq
  rw [Outcome.code.injEq] at heq
  rw [heq] at herror
  exact absurd herror (by decide)

theorem process_read_content (env : Env) (fuel : ℕ) (hst : c.m_check_state = .CONTENT) :
    process_read_loop env (fuel + 1) c .LINE_OK = after_line env fuel .CONTENT
      (parse_content env { c with m_start_line := c.m_checked_idx }) := by
  have hline : next_line c .LINE_OK = (c, .LINE_OK) := if_pos ⟨hst, rfl⟩
  rw [process_read_line hline, hst]
  unfold process_line
  dsimp only

theorem process_read_chunks (env : Env) (fuel : ℕ) (hst : c.m_check_state = .CONTENT)
    (hchunked : c.head.m_chunked = true) (ha : Aligned c) (hroom : Roomy c) (hk : c.chunks.WF) :
    Decoded env c.head (process_read_loop env (fuel + 2) c .LINE_OK)
      (chunk_run env c.head c.chunks c.body c.unread) := by
  obtain ⟨c₁, hc₁⟩ : ∃ c₁ : Conn, c₁ = { c with m_start_line := c.m_checked_idx } := ⟨_, rfl⟩
  have hin : InBuffer c₁ := by
    rw [hc₁]
    exact ⟨ha.read_le, ha.parse_le⟩
  have hcontent : parse_content env c₁ = parse_chunked_content env c₁ := by
    unfold parse_content
    rw [if_pos (by rw [hc₁]; exact hchunked)]
  have hparse := parse_chunked_content_eq env hin (by rw [hc₁]; exact hk)
  have hrun : chunk_run env c₁.head c₁.chunks c₁.body c₁.unread
      = chunk_run env c.head c.chunks c.body c.unread := by
    rw [hc₁]
    rfl
  obtain ⟨hspec, hends⟩ := chunk_run_spec env c.head c.body (s := c.unread) hk
  rw [process_read_content env (fuel + 1) hst, ← hc₁, hcontent, hparse, hrun]
  cases hresult : chunk_run env c.head c.chunks c.body c.unread with
  | next k b s => exact absurd hresult (hends k b s)
  | done k b s code =>
    rw [hresult] at hspec
    obtain ⟨hcode, -⟩ := hspec
    unfold after_line
    rcases hcode with rfl | herror
    · exact ⟨rfl, fun _ => rfl⟩
    dsimp only
    rw [if_pos herror]
    refine ⟨(if_neg ?_).symm, ?_⟩
    all_goals
      rintro rfl
      exact absurd herror (by decide)
  | wait k b s =>
    rw [hresult] at hspec
    obtain ⟨hwf, hstuck, hline, n, hn, hs⟩ := hspec
    -- the rest is moved to the front, and there is no line in it
    have hin' : InBuffer (c₁.advance k b s) ∧ (c₁.advance k b s).unread = s := by
      have hunread : c₁.unread = c.unread := by
        rw [hc₁]
        rfl
      have hadv := hin.unread_advance k b (n := n) (by rw [hunread]; exact hn)
      rw [hunread, ← hs] at hadv
      exact ⟨hadv.2, hadv.1⟩
    have haligned : Aligned (c₁.advance k b s) := by
      refine { hin'.1 with size := ?_, unread := ?_ }
      · rw [hc₁]
        exact ha.size
      have hrest : s = c.received.drop (c.m_chunked_parse_idx + n) := by
        rw [hs, ha.unread, drop_drop]
      have hlen : s.length = c.m_read_idx - c.m_chunked_parse_idx - n := by
        rw [hs, length_drop, ha.length_unread]
      have hidx : c₁.m_read_idx - s.length = c.m_chunked_parse_idx + n := by
        have := ha.parse_le
        have := ha.length_unread
        rw [hlen, hc₁]
        dsimp only
        omega
      rw [hin'.2]
      show s = c₁.received.drop (c₁.m_read_idx - s.length)
      rw [hidx, hc₁]
      exact hrest
    have hcompact := compact_chunks_spec haligned
      (by rw [hc₁]; exact ⟨hroom.size, hroom.room⟩)
    obtain ⟨c₂, hc₂⟩ : ∃ c₂, c₂ = (c₁.advance k b s).compact_chunks := ⟨_, rfl⟩
    rw [← hc₂] at hcompact
    obtain ⟨i, status, hparseline, hstatus⟩ :=
      parse_line_none (hcompact.buffer.trans hin'.2) hline
    have hnext : next_line c₂ .LINE_OPEN = ({ c₂ with m_checked_idx := i }, status) := by
      unfold next_line
      rw [if_neg (fun hboth => absurd hboth.2 (by simp)), hparseline]
    have hafter : after_line env (fuel + 1) .CONTENT (c₂, .code .NO_REQUEST)
        = process_read_loop env (fuel + 1) c₂ .LINE_OPEN := rfl
    dsimp only
    rw [← hc₂, hafter, process_read_no_line hnext hstatus]
    have hhead : c₂.head = c.head := by
      rw [hcompact.head, hc₁]
      rfl
    refine ⟨rfl, ⟨?_, hcompact.chunks, hcompact.body, hcompact.received.trans hin'.2,
      hcompact.parse_idx, hwf, ?_, hcompact.roomy.size, hcompact.roomy.room⟩, c.head.m_host, hhead⟩
    · rw [hcompact.state, hc₁]
      exact hst
    · rw [hhead]
      exact hstuck

/-! ## Reads -/

theorem Decoded.of_host (hr : Decoded env { h with m_host := host } r d) : Decoded env h r d := by
  cases d with
  | wait k b s =>
    obtain ⟨hno, hwait, host', hhead⟩ := hr
    exact ⟨hno, hwait, host', hhead⟩
  | _ => exact hr

theorem deliver_chunks (env : Env) (hw : Waiting env k b s c)
    (hhead : c.head = { h with m_host := host }) (hchunked : h.m_chunked = true) (p : Bytes)
    (hmax : s.length + p.length < READ_BUFFER_MAX_SIZE) :
    Decoded env h (deliver env c p) (chunk_run env h k b (s ++ p)) := by
  obtain ⟨c', hdeliver, hsync⟩ := deliver_spec env hw.roomy (by rw [hw.received]; exact hmax)
  have hrest := hsync.rest
  rw [hw.received] at hrest
  have hidx : c'.m_read_idx = s.length + p.length := by rw [hrest]
  have hbuf : c'.m_read_buf = s ++ p ++ [0] := by rw [hrest]
  have hparse : c'.m_chunked_parse_idx = 0 := by
    rw [hrest]
    exact hw.parse_idx
  have hreceived : c'.received = s ++ p := by rw [hsync.received, hw.received]
  have hunread : c'.unread = s ++ p := by
    unfold Conn.unread
    rw [hidx, hbuf, hparse, ← length_append, take_left, drop_zero]
  have haligned : Aligned c' := by
    refine { read_le := ?_, parse_le := ?_, size := ?_, unread := ?_ }
    · rw [hidx, hbuf, length_append, length_append]
      omega
    · omega
    · rw [hidx, hreceived, length_append]
    · rw [hunread, hreceived, hparse, drop_zero]
  have hstate : c'.m_check_state = .CONTENT := by
    rw [hrest]
    exact hw.state
  have hchunks : c'.chunks = k := by
    rw [hrest]
    exact hw.chunks
  have hbody : c'.body = b := by
    rw [hrest]
    exact hw.body
  obtain ⟨host', hhead'⟩ : ∃ host', c'.head = { h with m_host := host' } := by
    rw [hrest, hhead]
    exact ⟨_, rfl⟩
  have hspec := process_read_chunks env (s.length + p.length) hstate
    (by rw [hhead']; exact hchunked) haligned hsync.roomy (by rw [hchunks]; exact hw.wf)
  rw [hchunks, hbody, hunread, hhead', chunk_run_host] at hspec
  rw [hdeliver, process_read, hidx]
  exact hspec.of_host

theorem drive_chunks (env : Env) (hfwrite : env.fwrite = true) (hchunked : h.m_chunked = true)
    (hw : Waiting env k b s c) (hhead : c.head = { h with m_host := host }) (ps : List Bytes)
    (hmax : s.length + ps.flatten.length < READ_BUFFER_MAX_SIZE) :
    Decoded env h (drive env c ps) (chunk_run env h k b (s ++ ps.flatten)) := by
  induction ps generalizing k b s c host with
  | nil =>
    have hstuck : chunk_step env h k b s = .wait k b s := by
      have := hw.stuck
      rw [hhead] at this
      exact this
    rw [flatten_nil, append_nil, chunk_run_stuck hw.wf hstuck]
    exact ⟨rfl, hw, host, hhead⟩
  | cons p ps ih =>
    rw [flatten_cons, length_append] at hmax
    have hread := deliver_chunks env hw hhead hchunked p (by omega)
    have hagree := chunk_run_append (b := b) (s := s ++ p) hfwrite hchunked hw.wf ps.flatten
    rw [flatten_cons, ← append_assoc]
    refine Decoded.congr ?_ hagree
    obtain ⟨hspec, hends⟩ := chunk_run_spec env h b (s := s ++ p) hw.wf
    cases hrun : chunk_run env h k b (s ++ p) with
    | next k' b' s' => exact absurd hrun (hends k' b' s')
    | wait k' b' s' =>
      rw [hrun] at hread hspec
      obtain ⟨hno, hwait, host', hhead'⟩ := hread
      obtain ⟨-, -, -, n, -, hs'⟩ := hspec
      have hlen : s'.length ≤ s.length + p.length := by
        rw [hs', length_drop, length_append]
        omega
      rw [drive_more ps hno]
      exact ih hwait hhead' (by omega)
    | done k' b' s' code =>
      rw [hrun] at hread hspec
      obtain ⟨hcode, -⟩ := hspec
      obtain ⟨hout, hbody⟩ := hread
      rw [drive_stop ps (by rw [hout]; exact outcome_ne_no_request hcode)]
      exact ⟨hout, hbody⟩

end AtlasWebServer.Http
