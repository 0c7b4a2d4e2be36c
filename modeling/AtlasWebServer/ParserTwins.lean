/-
Connections that differ in the size of their rings.

A connection that has served requests has larger rings than a new one, and its `m_host` and
`m_version` still point into `m_read_buf` where those of the new one dangle. Neither shows in
the parser. `Twin` relates two such connections, and `process_read` keeps it and returns the
same on both (`Twin.process_read`): `m_host` is read in the head only, and there the two have
to agree.
`process_write` schedules the same bytes whatever the size of its ring (`process_write_alike`).
-/
import AtlasWebServer.HttpReading
import AtlasWebServer.ResponseHead

set_option autoImplicit false

namespace AtlasWebServer.Http

open Bytes CString RingBuffer List

/-! ## Two rings -/

theorem size_of_contents {r r' : RingBuf UInt8} (h : r'.contents = r.contents) :
    r'.size = r.size := by
  rw [← r.length_contents, ← r'.length_contents, h]

/-- The same bytes, at the start of both arrays. -/
structure SameBytes (r r' : RingBuf UInt8) : Prop where
  contents : r'.contents = r.contents
  head : r.head = 0
  head' : r'.head = 0

namespace SameBytes

variable {r r' : RingBuf UInt8}

theorem size (h : SameBytes r r') : r'.size = r.size := size_of_contents h.contents

theorem reset (r r' : RingBuf UInt8) : SameBytes r.reset r'.reset := ⟨rfl, rfl, rfl⟩

theorem append (h : SameBytes r r') {xs : Bytes} (hr : xs.length ≤ r.writable)
    (hr' : xs.length ≤ r'.writable) : SameBytes (r.append xs) (r'.append xs) where
  contents := by rw [r.contents_append hr, r'.contents_append hr', h.contents]
  head := by rw [r.head_append]; exact h.head
  head' := by rw [r'.head_append]; exact h.head'

end SameBytes

theorem peek_size (r : RingBuf UInt8) : r.peek r.size = r.contents := by
  rw [r.peek_eq, ← r.length_contents, take_length]

/-! ## Two connections -/

/-- The connection on another ring and with other pointers. -/
abbrev Conn.on (c : Conn) (ring : RingBuf UInt8) (host : HostPtr) (version : VersionPtr) : Conn :=
  { c with m_read_ring := ring, m_version := version, head := { c.head with m_host := host } }

/-- The first dangles, or the two are the same. -/
def Stands (v v' : VersionPtr) : Prop := v = .freed ∨ v' = v

theorem Stands.kept {v v' : VersionPtr} (h : Stands v v') (before after : Bytes) :
    Stands (v.kept before after) (v'.kept before after) := by
  rcases h with rfl | rfl
  · exact .inl rfl
  · exact .inr rfl

/-- Connections that differ in the sizes of their rings, `n` and `m`, in `m_host`, which is `p`
and `q`, and in `m_version`, if the first dangles. -/
structure Twin (n m : ℕ) (p q : HostPtr) (c c' : Conn) : Prop where
  rest : c' = c.on c'.m_read_ring q c'.m_version
  host : c.head.m_host = p
  version : Stands c.m_version c'.m_version
  ring : SameBytes c.m_read_ring c'.m_read_ring
  capacity : c.m_read_ring.capacity = n
  capacity' : c'.m_read_ring.capacity = m

/-- The results of a function are twins, and it returns the same. -/
structure Twins {α : Type} (n m : ℕ) (p q : HostPtr) (r r' : Conn × α) : Prop where
  twin : Twin n m p q r.1 r'.1
  same : r'.2 = r.2

def result_on {α : Type} (ring : RingBuf UInt8) (host : HostPtr) (version : VersionPtr)
    (r : Conn × α) : Conn × α :=
  (r.1.on ring host version, r.2)

/-- A function that looks at neither the ring nor the two pointers. -/
def Blind {α : Type} (f : Conn → Conn × α) : Prop :=
  ∀ c ring host version, f (c.on ring host version) = result_on ring host version (f c)

section Parser

variable {n m : ℕ} {p q : HostPtr} {c c' : Conn} (env : Env)

theorem Twin.is_on (h : Twin n m p q c c') : ∃ ring version, c' = c.on ring q version :=
  ⟨_, _, h.rest⟩

theorem Blind.unchanged {α : Type} {f : Conn → Conn × α} (hf : Blind f) (c : Conn) :
    (f c).1.m_read_ring = c.m_read_ring ∧ (f c).1.head.m_host = c.head.m_host ∧
      (f c).1.m_version = c.m_version := by
  have h : (f c).1 = (f c).1.on c.m_read_ring c.head.m_host c.m_version :=
    congrArg Prod.fst (hf c c.m_read_ring c.head.m_host c.m_version)
  rw [h]
  exact ⟨rfl, rfl, rfl⟩

theorem Twin.blind {α : Type} {f : Conn → Conn × α} (h : Twin n m p q c c') (hf : Blind f) :
    Twins n m p q (f c) (f c') := by
  obtain ⟨hring, hhost, hversion⟩ := hf.unchanged c
  obtain ⟨ring, version, rfl⟩ := h.is_on
  rw [hf c ring q version]
  refine ⟨⟨rfl, hhost.trans h.host, ?_, ?_, ?_, h.capacity'⟩, rfl⟩
  · rw [hversion]
    exact h.version
  · rw [hring]
    exact h.ring
  · rw [hring]
    exact h.capacity

/-! ## Lines -/

theorem parse_line_loop_blind (k : ℕ) : Blind (parse_line_loop k) := by
  induction k with
  | zero => exact fun _ _ _ _ => rfl
  | succ k ih =>
    intro c ring host version
    unfold parse_line_loop
    dsimp only [Conn.on]
    split_ifs
    · rfl
    · rfl
    · rfl
    · rfl
    · rfl
    · exact ih { c with m_checked_idx := c.m_checked_idx + 1 } ring host version

theorem parse_line_blind : Blind parse_line :=
  fun c ring host version => parse_line_loop_blind
    (c.m_read_idx - c.m_checked_idx) c ring host version

theorem next_line_blind (line_status : LineStatus) : Blind fun c => next_line c line_status := by
  intro c ring host version
  unfold next_line
  dsimp only [Conn.on]
  split_ifs
  · rfl
  · exact parse_line_blind c ring host version

/-! ## The head -/

theorem parse_target_blind (m_url : ℕ) : Blind fun c => parse_target c m_url := by
  intro c ring host version
  unfold parse_target
  dsimp only [Conn.on]
  split_ifs <;> rfl

theorem parse_absolute_blind (m_url : ℕ) : Blind fun c => parse_absolute c m_url := by
  intro c ring host version
  unfold parse_absolute
  dsimp only
  have hbuf : (c.on ring host version).m_read_buf = c.m_read_buf := rfl
  rw [hbuf]
  split
  · rfl
  · split
    · rfl
    · exact parse_target_blind _ c ring host version

theorem Twin.parse_request_line (h : Twin n m p q c c') (text : ℕ) :
    Twins n m p q (parse_request_line c text) (parse_request_line c' text) := by
  obtain ⟨ring, version, rfl⟩ := h.is_on
  unfold Http.parse_request_line
  dsimp only [Conn.on]
  split
  · exact ⟨{ h with rest := rfl }, rfl⟩
  split
  · exact ⟨{ h with rest := rfl }, rfl⟩
  split
  · exact ⟨{ h with rest := rfl, version := .inr rfl }, rfl⟩
  split
  · exact ⟨{ h with rest := rfl, version := .inr rfl }, rfl⟩
  · apply Twin.blind _ (parse_absolute_blind _)
    exact { h with rest := rfl, version := .inr rfl }

theorem parse_headers_on (text : ℕ) (c : Conn) (ring : RingBuf UInt8) (version : VersionPtr) :
    parse_headers env (c.on ring c.head.m_host version) text =
      result_on ring (parse_headers env c text).1.head.m_host version
        (parse_headers env c text) := by
  unfold parse_headers
  split_ifs
  · unfold parse_blank_line host_byte
    dsimp only
    split_ifs <;> rfl
  · rfl

theorem Twin.parse_headers (h : Twin n m p p c c') (text : ℕ) :
    ∃ p', Twins n m p' p' (parse_headers env c text) (parse_headers env c' text) := by
  have hself : (Http.parse_headers env c text).1.m_read_ring = c.m_read_ring ∧
      (Http.parse_headers env c text).1.m_version = c.m_version := by
    rw [parse_headers_on env text c c.m_read_ring c.m_version]
    exact ⟨rfl, rfl⟩
  obtain ⟨hring, hversion⟩ := hself
  obtain ⟨ring, version, rfl⟩ := h.is_on
  obtain rfl := h.host
  rw [parse_headers_on env text c ring version]
  refine ⟨(Http.parse_headers env c text).1.head.m_host, ⟨rfl, rfl, ?_, ?_, ?_, h.capacity'⟩, rfl⟩
  · rw [hversion]
    exact h.version
  · rw [hring]
    exact h.ring
  · rw [hring]
    exact h.capacity

/-! ## The body -/

theorem Twin.sync_read_buffer (h : Twin n m p q c c') :
    Twin n m p q (sync_read_buffer c) (sync_read_buffer c') := by
  obtain ⟨ring, version, rfl⟩ := h.is_on
  have hbytes : (c.on ring q version).received = c.received := h.ring.contents
  rw [sync_read_buffer_eq, sync_read_buffer_eq, hbytes]
  exact { h with rest := rfl, version := h.version.kept _ _ }

theorem compact_read_buffer_prefix_eq (c : Conn) {k : ℕ} (hk : k ≠ 0) :
    compact_read_buffer_prefix c k = { c with
      m_read_buf := c.received.drop k ++ [0]
      m_version := (c.m_version.kept c.m_read_buf (c.received ++ [0])).kept (c.received ++ [0])
        (c.received.drop k ++ [0])
      m_read_ring := c.m_read_ring.reset.append (c.received.drop k)
      m_read_idx := (c.received.drop k).length
      m_checked_idx := 0
      m_body_start_idx := 0
      m_start_line := 0 } := by
  have hsize := length_received c
  have hdrop : c.received.drop (min k c.m_read_ring.size) = c.received.drop k := by
    rw [← hsize, ← drop_eq_drop_min]
  have hlength : c.received.length - min k c.m_read_ring.size = (c.received.drop k).length := by
    rw [length_drop]
    omega
  have hmoved : ((c.received ++ [0]).drop (min k c.m_read_ring.size)).take
      (c.received.length - min k c.m_read_ring.size) = c.received.drop k := by
    rw [drop_append_of_le_length (by omega), hdrop, hlength, take_left]
  unfold compact_read_buffer_prefix
  rw [if_neg hk, sync_read_buffer_eq]
  dsimp only [Conn.refill]
  rw [hmoved, hlength]

theorem Twin.compact (h : Twin n m p q c c') (k : ℕ) :
    Twin n m p q ( compact_read_buffer_prefix c k) ( compact_read_buffer_prefix c' k) := by
  by_cases hk : k = 0
  · unfold compact_read_buffer_prefix
    rw [if_pos hk, if_pos hk]
    exact h
  have hbytes : c'.received = c.received := h.ring.contents
  have hfits : ∀ d : Conn, (d.received.drop k).length ≤ d.m_read_ring.reset.writable := by
    intro d
    show (d.received.drop k).length ≤ d.m_read_ring.capacity - 0
    have hle := d.m_read_ring.size_le
    rw [length_drop, length_received]
    omega
  have hfits' := hfits c'
  rw [compact_read_buffer_prefix_eq c hk, compact_read_buffer_prefix_eq c' hk]
  rw [hbytes] at hfits' ⊢
  obtain ⟨ring, version, rfl⟩ := h.is_on
  refine ⟨rfl, h.host, (h.version.kept _ _).kept _ _,
    (SameBytes.reset _ _).append (hfits c) hfits', ?_, ?_⟩
  · rw [RingBuf.capacity_append]
    exact h.capacity
  · rw [RingBuf.capacity_append]
    exact h.capacity'

theorem Twin.compact_chunks (h : Twin n m p q c c') :
    Twin n m p q c.compact_chunks c'.compact_chunks := by
  have hidx : c'.m_chunked_parse_idx = c.m_chunked_parse_idx := by rw [h.rest]
  have hcompact := h.compact c.m_chunked_parse_idx
  unfold Conn.compact_chunks
  rw [hidx]
  obtain ⟨ring, version, heq⟩ := hcompact.is_on
  rw [heq] at hcompact ⊢
  exact { hcompact with rest := rfl }

theorem append_decoded_body_chunk_host (h : Head) (host : HostPtr) (k : Chunks) (b : Body)
    (data : Bytes) : append_decoded_body_chunk env { h with m_host := host } k b data =
      append_decoded_body_chunk env h k b data := rfl

theorem Twin.parse_chunked_loop (fuel : ℕ) (h : Twin n m p q c c') :
    Twins n m p q (parse_chunked_loop env fuel c) (parse_chunked_loop env fuel c') := by
  induction fuel generalizing c c' with
  | zero => exact ⟨h, rfl⟩
  | succ fuel ih =>
    -- the twin reads the same fields, so both take the same branch
    obtain ⟨ring, version, rfl⟩ := h.is_on
    unfold Http.parse_chunked_loop
    dsimp only [Conn.on]
    rw [append_decoded_body_chunk_host env c.head q]
    repeat' split
    all_goals first
      | exact ⟨{ h with rest := rfl }, rfl⟩
      | exact ⟨Twin.compact_chunks { h with rest := rfl }, rfl⟩
      | (apply ih; exact { h with rest := rfl })

theorem Twin.parse_streamed_content (h : Twin n m p q c c') :
    Twins n m p q (parse_streamed_content env c) (parse_streamed_content env c') := by
  obtain ⟨ring, version, rfl⟩ := h.is_on
  have hchunk : ∀ data, append_streamed_body_chunk env (c.on ring q version).head c.body data =
      append_streamed_body_chunk env c.head c.body data := fun _ => rfl
  unfold Http.parse_streamed_content Http.reset_streamed_body_buffer
  dsimp only [Conn.on, Conn.refill] at hchunk ⊢
  rw [hchunk]
  repeat' split
  all_goals first
    | exact ⟨{ h with rest := rfl }, rfl⟩
    | exact ⟨{ h with rest := rfl, version := h.version.kept _ _, ring := .reset _ _ }, rfl⟩

theorem Twin.parse_content (h : Twin n m p q c c') :
    Twins n m p q (parse_content env c) (parse_content env c') := by
  have hchunked : Twins n m p q (parse_chunked_content env c) (parse_chunked_content env c') := by
    have hloop := h.parse_chunked_loop env (c.m_read_idx - c.m_chunked_parse_idx + 1)
    unfold parse_chunked_content
    rw [show c'.m_read_idx - c'.m_chunked_parse_idx = c.m_read_idx - c.m_chunked_parse_idx by
      rw [h.rest]]
    exact hloop
  have hstreamed := h.parse_streamed_content env
  obtain ⟨ring, version, rfl⟩ := h.is_on
  unfold Http.parse_content content_end
  repeat' split
  · exact hchunked
  · exact hstreamed
  all_goals exact ⟨{ h with rest := rfl }, rfl⟩

/-! ## The loop -/

theorem Twin.process_line (h : Twin n m p q c c')
    (hagree : c.m_check_state = .CONTENT ∨ p = q) (text : ℕ) :
    ∃ p' q', Twins n m p' q' (process_line env c text) (process_line env c' text) ∧
      (p' = p ∧ q' = q ∨ p' = q') := by
  have hstate : c'.m_check_state = c.m_check_state := by rw [h.rest]
  unfold Http.process_line
  rw [hstate]
  cases hcheck : c.m_check_state with
  | REQUESTLINE => exact ⟨p, q, h.parse_request_line text, .inl ⟨rfl, rfl⟩⟩
  | HEADER =>
    rcases hagree with hcontent | rfl
    · exact nomatch hcheck.symm.trans hcontent
    · obtain ⟨p', htwins⟩ := h.parse_headers env text
      exact ⟨p', p', htwins, .inr rfl⟩
  | CONTENT => exact ⟨p, q, h.parse_content env, .inl ⟨rfl, rfl⟩⟩

theorem process_line_content (hst : c.m_check_state = .CONTENT) (text : ℕ) :
    process_line env c text = parse_content env c := by
  unfold process_line
  rw [hst]

theorem Twins.after_line {fuel : ℕ} {r r' : Result} (h : Twins n m p q r r') (state : CheckState)
    (hnext : ∀ line_status, ∃ p' q', Twins n m p' q' (process_read_loop env fuel r.1 line_status)
      (process_read_loop env fuel r'.1 line_status) ∧ (p' = p ∧ q' = q ∨ p' = q')) :
    ∃ p' q', Twins n m p' q' (after_line env fuel state r) (after_line env fuel state r') ∧
      (p' = p ∧ q' = q ∨ p' = q') := by
  rcases r with ⟨c, outcome⟩
  rcases r' with ⟨c', outcome'⟩
  obtain ⟨htwin, hsame⟩ := h
  dsimp only at htwin hsame hnext
  rw [hsame]
  cases outcome with
  | code code =>
    unfold Http.after_line
    dsimp only
    split_ifs
    · exact ⟨p, q, ⟨htwin, rfl⟩, .inl ⟨rfl, rfl⟩⟩
    · exact ⟨p, q, ⟨htwin, rfl⟩, .inl ⟨rfl, rfl⟩⟩
    · exact hnext _
    · exact hnext _
  | _ => exact ⟨p, q, ⟨htwin, rfl⟩, .inl ⟨rfl, rfl⟩⟩

theorem Twin.process_read_loop (fuel : ℕ) (line_status : LineStatus) (h : Twin n m p q c c')
    (hagree : c.m_check_state = .CONTENT ∨ p = q) :
    ∃ p' q', Twins n m p' q' (process_read_loop env fuel c line_status)
        (process_read_loop env fuel c' line_status) ∧ (p' = p ∧ q' = q ∨ p' = q') := by
  induction fuel generalizing c c' p q line_status with
  | zero => exact ⟨p, q, ⟨h, rfl⟩, .inl ⟨rfl, rfl⟩⟩
  | succ fuel ih =>
    obtain ⟨hline, hsame⟩ := h.blind (next_line_blind line_status)
    have hhead := next_line_sameHead c line_status
    rcases hnext : next_line c line_status with ⟨c₁, status⟩
    rcases hnext' : next_line c' line_status with ⟨c₁', status'⟩
    rw [hnext] at hline hsame hhead
    rw [hnext'] at hline hsame
    dsimp only at hline hsame hhead
    subst hsame
    by_cases hok : status' = .LINE_OK
    · subst hok
      rw [process_read_line hnext, process_read_line hnext']
      have hbegun := (hline.blind (f := fun c => ({ c with m_start_line := c.m_checked_idx }, ()))
        fun _ _ _ _ => rfl).twin
      have hstate : c₁'.m_check_state = c₁.m_check_state := by rw [hline.rest]
      have hstart : c₁'.m_start_line = c₁.m_start_line := by rw [hline.rest]
      have hst : ({ c₁ with m_start_line := c₁.m_checked_idx } : Conn).m_check_state
          = c.m_check_state := hhead.2
      generalize ({ c₁' with m_start_line := c₁'.m_checked_idx } : Conn) = d' at hbegun ⊢
      generalize ({ c₁ with m_start_line := c₁.m_checked_idx } : Conn) = d at hbegun hst ⊢
      rw [hstate, hstart]
      obtain ⟨p', q', htwins, hhosts⟩ := hbegun.process_line env
        (by rw [hst]; exact hagree) c₁.m_start_line
      -- the next pass is in the body, or the twins still agree
      have hagree' : (Http.process_line env d c₁.m_start_line).1.m_check_state = .CONTENT ∨
          p' = q' := by
        rcases hagree with hcontent | hpq
        · left
          rw [process_line_content env (hst.trans hcontent)]
          exact (parse_content_sameHead env (hst.trans hcontent)).2.trans (hst.trans hcontent)
        · rcases hhosts with ⟨rfl, rfl⟩ | hpq'
          · exact .inr hpq
          · exact .inr hpq'
      obtain ⟨p'', q'', htwins', hhosts'⟩ := htwins.after_line env c₁.m_check_state
        fun status => ih status htwins.twin hagree'
      refine ⟨p'', q'', htwins', ?_⟩
      rcases hhosts' with ⟨rfl, rfl⟩ | hpq
      · exact hhosts
      · exact .inr hpq
    · rw [process_read_no_line hnext hok, process_read_no_line hnext' hok]
      exact ⟨p, q, ⟨hline, rfl⟩, .inl ⟨rfl, rfl⟩⟩

theorem Twin.process_read (h : Twin n m p q c c')
    (hagree : c.m_check_state = .CONTENT ∨ p = q) :
    ∃ p' q', Twins n m p' q' (process_read env c) (process_read env c') ∧
      (p' = p ∧ q' = q ∨ p' = q') := by
  have hidx : c'.m_read_idx = c.m_read_idx := by rw [h.rest]
  unfold Http.process_read
  rw [hidx]
  exact h.process_read_loop env _ _ hagree

theorem Twin.flush (h : Twin n m p q c c') :
    Twins n m p q (flush_streamed_body_from_read_buffer env c)
      (flush_streamed_body_from_read_buffer env c') := by
  have hs := h.sync_read_buffer
  have hfile : c'.body.m_stream_body_file = c.body.m_stream_body_file := by rw [h.rest]
  have hstate : c'.m_check_state = c.m_check_state := by rw [h.rest]
  unfold flush_streamed_body_from_read_buffer
  rw [hfile, hstate]
  split
  · exact ⟨h, rfl⟩
  generalize Http.sync_read_buffer c = d at hs ⊢
  generalize Http.sync_read_buffer c' = d' at hs ⊢
  obtain ⟨ring, version, rfl⟩ := hs.is_on
  have hchunk : ∀ data, append_streamed_body_chunk env (d.on ring q version).head d.body data =
      append_streamed_body_chunk env d.head d.body data := fun _ => rfl
  dsimp only [Conn.on] at hchunk ⊢
  rw [hchunk]
  repeat' split
  all_goals first
    | exact ⟨{ hs with rest := rfl }, rfl⟩
    | exact ⟨{ hs with rest := rfl, version := hs.version.kept _ _, ring := .reset _ _ }, rfl⟩

end Parser

/-! ## The host header

`build_request` adds the text at `m_host` if the headers do not have it. They always do. -/

/-- A request with a `m_host` has the header. -/
def Listed (h : Head) : Prop :=
  h.m_host ≠ .null → (h.m_headers.lookup (lit "host")).isSome = true

variable {headers : List (Bytes × Bytes)} {key : Bytes} {h : Head} {c : Conn}
  {first second : Writes}

theorem lookup_set_header {name value : Bytes}
    (h : name = key ∨ (headers.lookup key).isSome = true) :
    ((set_header headers name value).lookup key).isSome = true := by
  rw [set_header, lookup_cons_filter, lookup_cons]
  by_cases heq : key = name
  · rw [beq_iff_eq.mpr heq]
    rfl
  · rw [beq_false_of_ne heq]
    exact h.resolve_left (Ne.symm heq)

theorem lookup_record_header (text : Bytes) (h : (headers.lookup key).isSome = true) :
    ((record_header headers text).lookup key).isSome = true := by
  unfold record_header
  split
  · exact h
  dsimp only
  split_ifs
  · exact h
  · exact lookup_set_header (.inr h)

theorem of_tolower_letter (ch : UInt8) : tolower ch ≠ 58 → isspace (tolower ch) = false →
    ch ≠ 58 ∧ isspace ch = false := by
  revert ch
  apply forall_byte
  decide +kernel

theorem of_tolower_colon (ch : UInt8) : tolower ch = 58 → ch = 58 := by
  revert ch
  apply forall_byte
  decide +kernel

theorem lookup_host_line (headers : List (Bytes × Bytes)) {text : Bytes}
    (h : strncasecmp text (lit "Host:") = true) :
    ((record_header headers text).lookup (lit "host")).isSome = true := by
  have hlow : lowercase (text.take 5) = [104, 111, 115, 116, 58] := of_decide_eq_true h
  rcases text with _ | ⟨c₀, _ | ⟨c₁, _ | ⟨c₂, _ | ⟨c₃, _ | ⟨c₄, rest⟩⟩⟩⟩⟩
  iterate 5
    · exact absurd (congrArg List.length hlow) (by simp [lowercase])
  · simp only [lowercase, take_succ_cons, take_zero, map_cons, map_nil,
      List.cons.injEq, and_true] at hlow
    obtain ⟨h₀, h₁, h₂, h₃, h₄⟩ := hlow
    obtain ⟨hn₀, hs₀⟩ := of_tolower_letter c₀ (by rw [h₀]; decide) (by rw [h₀]; decide)
    obtain ⟨hn₁, -⟩ := of_tolower_letter c₁ (by rw [h₁]; decide) (by rw [h₁]; decide)
    obtain ⟨hn₂, -⟩ := of_tolower_letter c₂ (by rw [h₂]; decide) (by rw [h₂]; decide)
    obtain ⟨hn₃, hs₃⟩ := of_tolower_letter c₃ (by rw [h₃]; decide) (by rw [h₃]; decide)
    have hcolon : (c₀ :: c₁ :: c₂ :: c₃ :: c₄ :: rest).findIdx?
      (fun b => decide (b = 58)) = some 4 := by
      simp [findIdx?_cons, hn₀, hn₁, hn₂, hn₃, of_tolower_colon c₄ h₄]
    have htrim : trim_copy [c₀, c₁, c₂, c₃] = [c₀, c₁, c₂, c₃] := by
      simp [trim_copy, hs₀, hs₃]
    have hname :
      lowercase (trim_copy ((c₀ :: c₁ :: c₂ :: c₃ :: c₄ :: rest).take 4)) = lit "host" := by
      rw [show (c₀ :: c₁ :: c₂ :: c₃ :: c₄ :: rest).take 4 = [c₀, c₁, c₂, c₃] from rfl, htrim]
      simp only [lowercase, map_cons, map_nil, h₀, h₁, h₂, h₃]
      decide
    unfold record_header
    rw [hcolon]
    dsimp only
    rw [hname, if_neg (by decide)]
    exact lookup_set_header (.inl rfl)

theorem listed_parse_header_line (hlisted : Listed h) (start : ℕ) (text : Bytes) :
    Listed (parse_header_line h start text).1 := by
  have hkept : h.m_host ≠ .null →
      ((record_header h.m_headers text).lookup (lit "host")).isSome = true :=
    fun hhost => lookup_record_header text (hlisted hhost)
  unfold parse_header_line
  dsimp only
  split_ifs
  all_goals first
    | exact hkept
    | (rename_i hhost; exact fun _ => lookup_host_line h.m_headers hhost)

/-- `m_host` and the headers are the same. -/
structure SameHost (h h' : Head) : Prop where
  host : h'.m_host = h.m_host
  headers : h'.m_headers = h.m_headers

theorem Listed.same {h' : Head} (hlisted : Listed h) (hsame : SameHost h h') : Listed h' := by
  unfold Listed
  rw [hsame.host, hsame.headers]
  exact hlisted

theorem Listed.moved (hlisted : Listed h) : Listed { h with m_host := h.m_host.moved } := by
  intro hhost
  apply hlisted
  rintro hnull
  rw [hnull] at hhost
  exact hhost rfl

theorem parse_request_line_sameHost (c : Conn) (text : ℕ) :
    SameHost c.head (parse_request_line c text).1.head := by
  unfold parse_request_line parse_absolute parse_target
  dsimp only
  repeat' split
  all_goals exact ⟨rfl, rfl⟩

theorem parse_blank_line_head (env : Env) (c : Conn) :
    (parse_blank_line env c).1.head = c.head := by
  unfold parse_blank_line
  dsimp only
  repeat' split
  all_goals rfl

theorem listed_process_line (env : Env) (h : Listed c.head) (text : ℕ) :
    Listed (process_line env c text).1.head := by
  unfold process_line
  split
  · exact h.same (parse_request_line_sameHost c text)
  · unfold parse_headers
    split_ifs
    · rw [parse_blank_line_head]
      exact h
    · exact listed_parse_header_line h _ _
  · rename_i hst
    rw [(parse_content_sameHead env hst).1]
    exact h

theorem listed_process_read_loop (env : Env) (fuel : ℕ) (h : Listed c.head)
    (line_status : LineStatus) : Listed (process_read_loop env fuel c line_status).1.head := by
  induction fuel generalizing c line_status with
  | zero => exact h
  | succ fuel ih =>
    have hhead := (next_line_sameHead c line_status).1
    rcases hnext : next_line c line_status with ⟨c₁, status⟩
    rw [hnext] at hhead
    have h₁ : Listed c₁.head := hhead ▸ h
    by_cases hok : status = .LINE_OK
    · subst hok
      rw [process_read_line hnext]
      have hline := listed_process_line env
        (c := { c₁ with m_start_line := c₁.m_checked_idx }) h₁ c₁.m_start_line
      unfold after_line
      split
      · rename_i heq
        rw [heq] at hline
        split_ifs
        · exact hline
        · exact hline
        · exact ih hline _
        · exact ih hline _
      · exact hline
    · rw [process_read_no_line hnext hok]
      exact h₁

theorem listed_process_read (env : Env) (h : Listed c.head) : Listed (process_read env c).1.head :=
  listed_process_read_loop env _ h _

/-! ## Growing -/

theorem receive_ring_size (r : RingBuf UInt8) (hhead : r.head = 0) :
    min (r.capacity - r.tail) r.writable = r.capacity - r.size := by
  have hle := r.size_le
  have htail := r.tail_eq
  rw [hhead, Nat.zero_add] at htail
  unfold RingBuf.writable
  rcases Nat.lt_or_eq_of_le hle with hlt | heq
  · rw [Nat.mod_eq_of_lt hlt] at htail
    omega
  · omega

/-! ## Responses -/

/-- A write that depends on what the ring holds, but not on its size. -/
def Alike (w : Writes) : Prop :=
  ∀ r r', Grown r → Grown r' → r'.contents = r.contents →
    (w r = none ∧ w r' = none) ∨
      ∃ r₁ r₁' done, w r = some (r₁, done) ∧ w r' = some (r₁', done) ∧ Grown r₁ ∧ Grown r₁' ∧
        r₁'.contents = r₁.contents

theorem alike_add_response (text : Bytes) : Alike (add_response text) := by
  intro r r' hgrown hgrown' hcontents
  have hsize : r'.size = r.size := size_of_contents hcontents
  by_cases hfits : r.contents.length + text.length ≤ WRITE_LIMIT
  · obtain ⟨r₁, hw, hg, hc⟩ := appends_add_response text r hgrown hfits
    obtain ⟨r₁', hw', hg', hc'⟩ :=
      appends_add_response text r' hgrown' (by rw [hcontents]; exact hfits)
    exact .inr ⟨r₁, r₁', true, hw, hw', hg, hg', by rw [hc, hc', hcontents]⟩
  -- neither ring can grow
  rw [r.length_contents] at hfits
  have hnone := ensure_write_capacity_none hgrown (not_le.mp hfits)
  have hnone' : ensure_write_capacity r' (r.size + text.length) = none :=
    ensure_write_capacity_none hgrown' (not_le.mp hfits)
  unfold add_response
  rw [hsize, hnone, hnone']
  split_ifs
  · exact .inr ⟨r, r', false, rfl, rfl, hgrown, hgrown', hcontents⟩
  · exact .inl ⟨rfl, rfl⟩
  · exact .inl ⟨rfl, rfl⟩

theorem alike_nothing : Alike .nothing :=
  fun r r' hgrown hgrown' hcontents => .inr ⟨r, r', true, rfl, rfl, hgrown, hgrown', hcontents⟩

theorem Alike.next (h : Alike first) (h' : Alike second) : Alike (first.next second) := by
  intro r r' hgrown hgrown' hcontents
  unfold Writes.next
  rcases h r r' hgrown hgrown' hcontents with ⟨hw, hw'⟩ | ⟨r₁, r₁', done, hw, hw', hg, hg', hc⟩
  · rw [hw, hw']
    exact .inl ⟨rfl, rfl⟩
  · rw [hw, hw']
    exact h' r₁ r₁' hg hg' hc

theorem Alike.and (h : Alike first) (h' : Alike second) : Alike (first.and second) := by
  intro r r' hgrown hgrown' hcontents
  unfold Writes.and
  rcases h r r' hgrown hgrown' hcontents with ⟨hw, hw'⟩ | ⟨r₁, r₁', done, hw, hw', hg, hg', hc⟩
  · rw [hw, hw']
    exact .inl ⟨rfl, rfl⟩
  rw [hw, hw']
  cases done with
  | false => exact .inr ⟨r₁, r₁', false, rfl, rfl, hg, hg', hc⟩
  | true => exact h' r₁ r₁' hg hg' hc

theorem alike_write_response (r : Reply) (status : ℤ) (title : Bytes) (content_len : ℤ)
    (content_type : Bytes) (content : Option Bytes) :
    Alike (write_response r status title content_len content_type content) := by
  have hkeep : Alike (add_keep_alive r) := by
    unfold add_keep_alive
    split
    · exact alike_add_response _
    · exact alike_nothing
  have hextra : Alike (add_extra_headers r) := by
    unfold add_extra_headers
    split
    · exact alike_nothing
    · exact alike_add_response _
  have hheaders : Alike (add_headers r content_len content_type) :=
    (alike_add_response _).and <| (alike_add_response _).and <| (alike_add_response _).and <|
      hkeep.and <| (alike_add_response _).and <| hextra.and (alike_add_response _)
  refine (alike_add_response _).next (hheaders.next ?_)
  cases content with
  | none => exact alike_nothing
  | some content => exact alike_add_response content

theorem Alike.schedule {w : Writes} (h : Alike w) {r r' : Ring} (hgrown : Grown r)
    (hgrown' : Grown r') (hcontents : r'.contents = r.contents) (more : ℕ) (file : Bytes) :
    schedule w more file r' = schedule w more file r ∧
      ∀ out, schedule w more file r = some (some out) → out.out.length ≤ WRITE_LIMIT := by
  unfold Http.schedule
  rcases h r r' hgrown hgrown' hcontents with ⟨hw, hw'⟩ | ⟨r₁, r₁', done, hw, hw', hg, hg', hc⟩
  · rw [hw, hw']
    exact ⟨rfl, nofun⟩
  rw [hw, hw']
  cases done with
  | false => exact ⟨rfl, nofun⟩
  | true =>
    have hsize : r₁'.size = r₁.size := size_of_contents hc
    refine ⟨by dsimp only; rw [hc, hsize], fun out hout => ?_⟩
    obtain ⟨k, hk, hcapacity⟩ := hg
    have hle := r₁.size_le
    rw [← r₁.length_contents, hcapacity] at hle
    rw [Option.some.injEq] at hout
    cases hout
    exact hle.trans (capacity_le_limit hk)

theorem process_write_alike (r : Reply) (ret : HttpCode) {ring ring' : Ring} (hgrown : Grown ring)
    (hgrown' : Grown ring') (hcontents : ring'.contents = ring.contents) :
    process_write r ret ring' = process_write r ret ring ∧
      ∀ out, process_write r ret ring = some (some out) → out.out.length ≤ WRITE_LIMIT := by
  have hwrite : ∀ status title content_len content_type content more file, _ :=
    fun status title content_len content_type content more file =>
      (alike_write_response r status title content_len content_type content).schedule hgrown hgrown'
        hcontents more file
  unfold process_write write_file
  dsimp only
  split
  · exact hwrite _ _ _ _ _ _ _
  · exact hwrite _ _ _ _ _ _ _
  · split_ifs <;> exact hwrite _ _ _ _ _ _ _
  · split
    · exact ⟨rfl, nofun⟩
    · exact hwrite _ _ _ _ _ _ _

end AtlasWebServer.Http
