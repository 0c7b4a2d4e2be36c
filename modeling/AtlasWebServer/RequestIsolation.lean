/-
Requests on one connection.

`init` sets a connection back after a response, but for what a new one has too: the arrays of
the rings, which have grown, and `m_tls_want_event`. The arrays do not show. `Mirror` relates
a server whose connection was just accepted to one in the same state whose connection has
served requests before, and every step of the first is a step of the second
(`Mirror.step`).

`m_tls_want_event` does show. If TLS has had to wait for the socket to become writable, the
connection waits for that again after the response, and the next request is not read
(`next_request_never_read`). Three more things the second run does not follow are none of its
own: on a new connection `m_host` dangles if the ring grows within a head, `m_version` dangles
if it grows before the request is handled, and a task that runs while the connection is about
to be closed sees a buffer that was not synchronised. `requests_isolated` excludes the four.
-/
import AtlasWebServer.ParserTwins
import AtlasWebServer.TempUploads

set_option autoImplicit false

namespace AtlasWebServer.Runtime

open Bytes CString RingBuffer Http StepSystem Option

/-! ## What earlier requests leave -/

/-- Where a connection that has served requests differs from a new one in the same state. -/
structure Residue where
  m_read_ring : RingBuf UInt8
  m_read_buf : Bytes
  m_version : VersionPtr
  m_host : HostPtr
  m_write_ring : RingBuf UInt8
  m_tls_want_event : Event
  reads : ℕ
  writes : ℕ
  processes : ℕ

def Server.residue (s : Server) : Residue where
  m_read_ring := s.connection.parser.m_read_ring
  m_read_buf := s.connection.parser.m_read_buf
  m_version := s.connection.parser.m_version
  m_host := s.connection.parser.head.m_host
  m_write_ring := s.connection.m_write_ring
  m_tls_want_event := s.connection.m_tls_want_event
  reads := s.reads
  writes := s.writes
  processes := s.processes

/-- The parser with other arrays. -/
abbrev parser_after (c : Conn) (x : Residue) : Conn :=
  { c with
    m_read_ring := x.m_read_ring
    m_read_buf := x.m_read_buf
    m_version := x.m_version
    head := { c.head with m_host := x.m_host } }

/-- The connection with them. -/
abbrev Connection.after (c : Connection) (x : Residue) : Connection :=
  { c with
    parser := parser_after c.parser x
    m_write_ring := x.m_write_ring
    m_tls_want_event := x.m_tls_want_event }

/-- The server with them. -/
abbrev Server.after (s : Server) (x : Residue) : Server :=
  { s with
    connection := s.connection.after x
    reads := x.reads
    writes := x.writes
    processes := x.processes }

variable {p q : HostPtr} {v v' : VersionPtr} {buf buf' new : Bytes} {x : Residue} {c' c : Conn}
  {a : Answers} {code : HttpCode} {l : Label}

/-- `m_host` of a new connection dangles earlier: its ring is smaller. -/
def Behind (p q : HostPtr) : Prop := p = q ∨ p = .freed ∧ ∃ i, q = .buf i

theorem Behind.null_iff (h : Behind p q) : q = .null ↔ p = .null := by
  rcases h with rfl | ⟨rfl, i, rfl⟩
  · exact Iff.rfl
  · exact ⟨nofun, nofun⟩

theorem Behind.moved_left (h : Behind p q) : Behind p.moved q := by
  rcases h with rfl | ⟨rfl, i, rfl⟩
  · cases p with
    | buf i => exact .inr ⟨rfl, i, rfl⟩
    | _ => exact .inl rfl
  · exact .inr ⟨rfl, i, rfl⟩

theorem Behind.moved (h : Behind p q) : Behind p.moved q.moved := by
  rcases h with rfl | ⟨rfl, i, rfl⟩ <;> exact .inl rfl

/-- `m_version` of a new connection dangles earlier as well. Where it does not, it points at the
same place of the same buffer. -/
def Versions (v v' : VersionPtr) (buf buf' : Bytes) : Prop :=
  v = .null ∧ v' = .null ∨ v = .freed ∨ v' = v ∧ buf' = buf

theorem Versions.stands (h : Versions v v' buf buf') : Stands v v' := by
  rcases h with ⟨rfl, rfl⟩ | hfreed | ⟨heq, -⟩
  · exact .inr rfl
  · exact .inl hfreed
  · exact .inr heq

theorem Versions.of_stands (h : Stands v v') (hbuf : buf' = buf) : Versions v v' buf buf' :=
  .inr (h.imp_right (⟨·, hbuf⟩))

theorem Versions.kept (h : Versions v v' buf buf') (after : Bytes) :
    Stands (v.kept buf after) (v'.kept buf' after) := by
  rcases h with ⟨rfl, rfl⟩ | rfl | ⟨rfl, rfl⟩
  · exact .inr rfl
  · exact .inl rfl
  · exact .inr rfl

theorem Versions.moved_left (h : Versions v v' buf buf') : Versions v.moved v' new buf' := by
  rcases h with ⟨rfl, rfl⟩ | rfl | ⟨rfl, rfl⟩
  · exact .inl ⟨rfl, rfl⟩
  · exact .inr (.inl rfl)
  · cases v' with
    | null => exact .inl ⟨rfl, rfl⟩
    | _ => exact .inr (.inl rfl)

theorem Versions.moved (h : Versions v v' buf buf') : Versions v.moved v'.moved new new := by
  refine .of_stands ?_ rfl
  rcases h.stands with rfl | rfl
  · exact .inl rfl
  · exact .inr rfl

/-- The sizes of the two rings: what doubling gives, and the new one is not larger. -/
def Sizes (n m : ℕ) : Prop :=
  ∃ j k, j ≤ k ∧ k ≤ 7 ∧ n = READ_BUFFER_INITIAL_SIZE * 2 ^ j ∧
    m = READ_BUFFER_INITIAL_SIZE * 2 ^ k

variable {n m : ℕ} {s t : Server}

theorem Sizes.le (h : Sizes n m) : n ≤ m := by
  obtain ⟨j, k, hjk, -, rfl, rfl⟩ := h
  exact Nat.mul_le_mul_left _ (Nat.pow_le_pow_right (by decide) hjk)

/-- The connection with the arrays of another, and its pointers into them. -/
abbrev beside (c c' : Conn) : Conn :=
  { c with
    m_read_ring := c'.m_read_ring
    m_read_buf := c'.m_read_buf
    m_version := c'.m_version
    head := { c.head with m_host := c'.head.m_host } }

/-- The parsers of the two. -/
structure Parsers (c c' : Conn) : Prop where
  rest : c' = beside c c'
  bytes : SameBytes c.m_read_ring c'.m_read_ring
  host : Behind c.head.m_host c'.head.m_host
  version : Versions c.m_version c'.m_version c.m_read_buf c'.m_read_buf
  listed : Listed c.head

/-- The arrays of an open connection have a size, those of a closed one are released. -/
structure Arrays (c d : Connection) : Prop where
  sizes : c.is_open = true →
    Sizes c.parser.m_read_ring.capacity d.parser.m_read_ring.capacity
  grown : c.is_open = true → Grown c.m_write_ring ∧ Grown d.m_write_ring
  released : c.is_open = false →
    c.parser.m_read_ring.capacity = 0 ∧ d.parser.m_read_ring.capacity = 0 ∧
      c.m_write_ring.capacity = 0 ∧ d.m_write_ring.capacity = 0
  written : d.m_write_ring.contents = c.m_write_ring.contents

/-- **The same state** on a new connection and on one that has served requests before. What
`process` reads from `m_read_buf` is the same as well. -/
structure Mirror (s t : Server) : Prop where
  rest : t = s.after t.residue
  parsers : Parsers s.connection.parser t.connection.parser
  arrays : Arrays s.connection t.connection
  tls : s.connection.m_https_enabled = true →
    t.connection.m_tls_want_event = s.connection.m_tls_want_event
  reads : s.reads ≤ t.reads
  writes : s.writes ≤ t.writes
  processes : s.processes ≤ t.processes
  buffer : s.connection.is_open = true → s.reading = false → s.closing = false →
    s.connection.m_has_new_data = true →
      t.connection.parser.m_read_buf = s.connection.parser.m_read_buf
  live : s.reading = true → s.connection.is_open = true

theorem Mirror.is_after (h : Mirror s t) : ∃ x, t = s.after x :=
  ⟨_, h.rest⟩

/-- A ring that is full within a call of `read_once_et` is one of the largest. -/
def Roomed (cfg : Config) (s : Server) : Prop :=
  s.reading = true → cfg.m_TRIGMode = true → s.connection.parser.m_read_ring.writable = 0 →
    s.connection.parser.m_read_ring.capacity = READ_BUFFER_MAX_SIZE

section Calls

variable {K : Type} [DecidableEq K] (key : Bytes → K) (sha256_hex : Bytes → Bytes)
  (cfg : Config) (app : Application)

/-! ## `do_request` -/

theorem spooled_after (s : Server) (x : Residue) : (s.after x).spooled = s.spooled.after x := by
  unfold Server.spooled
  dsimp only [Server.after, Connection.after, parser_after]
  split <;> rfl

/-- What a request is made from is the same: the host header is there already, so `m_host` is
not read, and `m_version` shows the same text. -/
structure SameRequest (a : Answers) (x : Residue) (c : Conn) : Prop where
  host : Behind c.head.m_host x.m_host
  listed : Listed c.head
  version : version_text a (parser_after c x) = version_text a c

theorem build_request_after {c : Connection} (h : SameRequest a x c.parser) :
    build_request a (c.after x) = build_request a c := by
  have hheaders : ∀ text text', add_header c.parser.head.m_headers (decide (x.m_host ≠ .null))
      (lit "host") text = add_header c.parser.head.m_headers
        (decide (c.parser.head.m_host ≠ .null)) (lit "host") text' := by
    intro text text'
    unfold add_header
    by_cases hnull : c.parser.head.m_host = .null
    · rw [hnull, h.host.null_iff.mpr hnull]
      rfl
    have hsome := h.listed hnull
    rw [← not_isNone, Bool.not_eq_true'] at hsome
    rw [hsome, Bool.and_false, Bool.and_false]
    rfl
  have hversion := h.version
  unfold build_request
  dsimp only [Connection.after, parser_after] at hversion ⊢
  rw [hheaders _ (host_text a c.parser), hversion]

theorem release_after (request : HttpRequest) (released : Bool) (c : Connection) (x : Residue) :
    release_consumed_temp_uploads request released (c.after x) =
      (release_consumed_temp_uploads request released c).after x := by
  unfold release_consumed_temp_uploads
  split <;> rfl

theorem dispatch_after (h : SameRequest a x s.connection.parser) :
    dispatch key sha256_hex cfg app a (s.after x) =
      ((dispatch key sha256_hex cfg app a s).1.after x,
        (dispatch key sha256_hex cfg app a s).2) := by
  have hrequest : build_request a (s.after x).connection = build_request a s.connection :=
    build_request_after h
  have hcontext : build_request_context cfg a (s.after x).connection =
      build_request_context cfg a s.connection := rfl
  unfold dispatch
  rw [hrequest, hcontext]
  dsimp only
  rw [release_after]

theorem parse_body_after (c : Connection) (x : Residue) :
    (c.after x).parse_body = (c.parse_body.1.after x, c.parse_body.2) := by
  unfold Connection.parse_body
  have hmultipart : is_multipart (c.after x).parser.head = is_multipart c.parser.head := rfl
  rw [hmultipart]
  dsimp only [Connection.after, parser_after]
  repeat' split
  all_goals rfl

theorem from_file_after (a : Answers) (s : Server) (x : Residue) :
    parse_multipart_form_data_from_file sha256_hex cfg a (s.after x) =
      ((parse_multipart_form_data_from_file sha256_hex cfg a s).1.after x,
        (parse_multipart_form_data_from_file sha256_hex cfg a s).2) := by
  unfold parse_multipart_form_data_from_file
  dsimp only [Server.after, Connection.after, parser_after]
  split <;> rfl

theorem parse_post_body_after (a : Answers) (s : Server) (x : Residue) :
    parse_post_body sha256_hex cfg a (s.after x) =
      ((parse_post_body sha256_hex cfg a s).1.after x, (parse_post_body sha256_hex cfg a s).2) := by
  unfold parse_post_body
  have hspooled : Connection.is_spooled (Connection.clear_post (s.after x).connection) =
      s.connection.clear_post.is_spooled := rfl
  dsimp only
  rw [hspooled]
  split
  · exact from_file_after sha256_hex cfg a { s with connection := s.connection.clear_post } x
  have hbody := parse_body_after s.connection.clear_post x
  have hclear : Connection.clear_post (s.after x).connection = s.connection.clear_post.after x :=
    rfl
  rw [hclear, hbody]

theorem body_error_after (c : Connection) (x : Residue) :
    body_error (c.after x) = ((body_error c).1.after x, (body_error c).2) := by
  unfold body_error
  dsimp only [Connection.after, parser_after]
  split <;> rfl

/-- What the mirror looks at is the same. -/
structure MirrorKept (s s' : Server) : Prop where
  residue : s'.residue = s.residue
  head : s'.connection.parser.head = s.connection.parser.head
  is_open : s'.connection.is_open = s.connection.is_open
  https : s'.connection.m_https_enabled = s.connection.m_https_enabled
  new_data : s'.connection.m_has_new_data = s.connection.m_has_new_data
  reading : s'.reading = s.reading
  closing : s'.closing = s.closing

variable {s' u : Server} {ring : Ring} {b : Answers}

theorem MirrorKept.trans {s'' : Server} (h : MirrorKept s s') (h' : MirrorKept s' s'') :
    MirrorKept s s'' :=
  ⟨h'.residue.trans h.residue, h'.head.trans h.head, h'.is_open.trans h.is_open,
    h'.https.trans h.https, h'.new_data.trans h.new_data, h'.reading.trans h.reading,
    h'.closing.trans h.closing⟩

theorem dispatch_kept (a : Answers) (s : Server) :
    MirrorKept s (dispatch key sha256_hex cfg app a s).1 := by
  unfold dispatch release_consumed_temp_uploads
  dsimp only
  split <;> exact ⟨rfl, rfl, rfl, rfl, rfl, rfl, rfl⟩

theorem parse_post_body_kept (a : Answers) (s : Server) :
    MirrorKept s (parse_post_body sha256_hex cfg a s).1 := by
  unfold parse_post_body
  dsimp only
  split
  · unfold parse_multipart_form_data_from_file
    dsimp only
    split <;> exact ⟨rfl, rfl, rfl, rfl, rfl, rfl, rfl⟩
  unfold Connection.parse_body
  dsimp only
  repeat' split
  all_goals exact ⟨rfl, rfl, rfl, rfl, rfl, rfl, rfl⟩

theorem body_error_kept (s : Server) :
    MirrorKept s { s with connection := (body_error s.connection).1 } := by
  unfold body_error
  dsimp only
  split <;> exact ⟨rfl, rfl, rfl, rfl, rfl, rfl, rfl⟩

theorem do_request_kept (a : Answers) (s : Server) :
    MirrorKept s (do_request key sha256_hex cfg app a s).1 := by
  unfold do_request
  split
  · exact ⟨rfl, rfl, rfl, rfl, rfl, rfl, rfl⟩
  · exact dispatch_kept key sha256_hex cfg app a s
  · exact dispatch_kept key sha256_hex cfg app a s
  · exact dispatch_kept key sha256_hex cfg app a s
  · have hpost := parse_post_body_kept sha256_hex cfg a s
    split
    · rename_i s₁ heq
      rw [heq] at hpost
      exact hpost.trans (dispatch_kept key sha256_hex cfg app a s₁)
    · rename_i s₁ heq
      rw [heq] at hpost
      exact hpost.trans (body_error_kept s₁)
  · exact ⟨rfl, rfl, rfl, rfl, rfl, rfl, rfl⟩

theorem SameRequest.kept (h : SameRequest a x s.connection.parser) (hkept : MirrorKept s s') :
    SameRequest a x s'.connection.parser := by
  have hbuf : s'.connection.parser.m_read_buf = s.connection.parser.m_read_buf :=
    congrArg Residue.m_read_buf hkept.residue
  have hpointer : s'.connection.parser.m_version = s.connection.parser.m_version :=
    congrArg Residue.m_version hkept.residue
  refine ⟨?_, ?_, ?_⟩
  · rw [hkept.head]
    exact h.host
  · rw [hkept.head]
    exact h.listed
  · have hversion := h.version
    unfold version_text at hversion ⊢
    rw [hbuf, hpointer]
    exact hversion

theorem do_request_after (h : SameRequest a x s.connection.parser) :
    do_request key sha256_hex cfg app a (s.after x) =
      ((do_request key sha256_hex cfg app a s).1.after x,
        (do_request key sha256_hex cfg app a s).2) := by
  have hdispatch := dispatch_after key sha256_hex cfg app h
  have hpost := parse_post_body_after sha256_hex cfg a s x
  have hkept := parse_post_body_kept sha256_hex cfg a s
  unfold do_request
  have hmethod : (s.after x).connection.parser.head.m_method = s.connection.parser.head.m_method :=
    rfl
  rw [hmethod, hpost]
  cases s.connection.parser.head.m_method with
  | GET => exact hdispatch
  | HEAD => exact hdispatch
  | DELETE => exact hdispatch
  | POST =>
    rcases hbody : parse_post_body sha256_hex cfg a s with ⟨s₁, _ | _⟩
    · dsimp only
      rw [body_error_after]
    rw [hbody] at hkept
    apply dispatch_after
    exact h.kept hkept
  | _ => rfl

/-! ## The parser -/

variable {key sha256_hex cfg app}

/-- The parser's part of the connection may be another. -/
structure SameButParser (s s' : Server) : Prop where
  write_ring : s'.connection.m_write_ring = s.connection.m_write_ring
  want : s'.connection.m_tls_want_event = s.connection.m_tls_want_event
  is_open : s'.connection.is_open = s.connection.is_open
  https : s'.connection.m_https_enabled = s.connection.m_https_enabled
  new_data : s'.connection.m_has_new_data = s.connection.m_has_new_data
  reading : s'.reading = s.reading
  closing : s'.closing = s.closing
  reads : s'.reads = s.reads
  writes : s'.writes = s.writes
  processes : s'.processes = s.processes

/-- What is left in the arrays of a parser. -/
def Residue.of_conn (x : Residue) (c : Conn) : Residue :=
  { x with
    m_read_ring := c.m_read_ring, m_read_buf := c.m_read_buf, m_version := c.m_version
    m_host := c.head.m_host }

theorem Mirror.reparse (h : Mirror s t) (hs : SameButParser s s')
    (hopen : s.connection.is_open = true) (hp : Parsers s'.connection.parser c')
    (hsizes : Sizes s'.connection.parser.m_read_ring.capacity c'.m_read_ring.capacity)
    (hbuffer : s.reading = false → s.closing = false → s.connection.m_has_new_data = true →
      c'.m_read_buf = s'.connection.parser.m_read_buf) :
    Mirror s' (s'.after (t.residue.of_conn c')) := by
  refine ⟨rfl, { hp with rest := rfl }, ⟨fun _ => hsizes, ?_, ?_, ?_⟩, ?_, ?_, ?_, ?_, ?_, ?_⟩
  · rw [hs.is_open, hs.write_ring]
    exact h.arrays.grown
  · rw [hs.is_open, hopen]
    exact nofun
  · rw [hs.write_ring]
    exact h.arrays.written
  · rw [hs.https, hs.want]
    exact h.tls
  · rw [hs.reads]
    exact h.reads
  · rw [hs.writes]
    exact h.writes
  · rw [hs.processes]
    exact h.processes
  · rw [hs.reading, hs.closing, hs.new_data]
    exact fun _ => hbuffer
  · rw [hs.is_open]
    exact fun _ => hopen

theorem MirrorKept.outside (h : MirrorKept s s') : SameButParser s s' :=
  { h with
    write_ring := congrArg Residue.m_write_ring h.residue
    want := congrArg Residue.m_tls_want_event h.residue
    reads := congrArg Residue.reads h.residue
    writes := congrArg Residue.writes h.residue
    processes := congrArg Residue.processes h.residue }

theorem Mirror.kept (h : Mirror s t) (hopen : s.connection.is_open = true) (hk : MirrorKept s s') :
    Mirror s' (s'.after t.residue) := by
  have hring : s'.connection.parser.m_read_ring = s.connection.parser.m_read_ring :=
    congrArg Residue.m_read_ring hk.residue
  have hbuf : s'.connection.parser.m_read_buf = s.connection.parser.m_read_buf :=
    congrArg Residue.m_read_buf hk.residue
  have hpointer : s'.connection.parser.m_version = s.connection.parser.m_version :=
    congrArg Residue.m_version hk.residue
  have hp : Parsers s'.connection.parser (parser_after s'.connection.parser t.residue) := by
    refine ⟨rfl, ?_, ?_, ?_, ?_⟩
    · rw [hring]
      exact h.parsers.bytes
    · rw [hk.head]
      exact h.parsers.host
    · rw [hbuf, hpointer]
      exact h.parsers.version
    · rw [hk.head]
      exact h.parsers.listed
  apply h.reparse hk.outside hopen hp
  · rw [hring]
    exact h.arrays.sizes hopen
  · rw [hbuf]
    exact h.buffer hopen

theorem with_conn_after (hrest : c' = beside c c') :
    (s.after x).with_conn c' = (s.with_conn c).after (x.of_conn c') := by
  unfold Server.with_conn
  rw [← spooled_after]
  congr 1
  unfold beside at hrest
  unfold Server.after Connection.after parser_after Residue.of_conn
  rw [← hrest]

theorem with_conn_outside (s : Server) (c : Conn) : SameButParser s (s.with_conn c) := by
  unfold Server.with_conn Server.spooled
  split <;> exact ⟨rfl, rfl, rfl, rfl, rfl, rfl, rfl, rfl, rfl, rfl⟩

theorem with_conn_eq (s : Server) (c : Conn) : (s.with_conn c).connection.parser = c := by
  unfold Server.with_conn
  rw [spooled_connection]

theorem Mirror.with_conn (h : Mirror s t) (hopen : s.connection.is_open = true)
    (hp : Parsers c c') (hsizes : Sizes c.m_read_ring.capacity c'.m_read_ring.capacity)
    (hbuffer : s.reading = false → s.closing = false → s.connection.m_has_new_data = true →
      c'.m_read_buf = c.m_read_buf) :
    Mirror (s.with_conn c) (t.with_conn c') := by
  have heq : t.with_conn c' = (s.with_conn c).after (t.residue.of_conn c') := by
    conv_lhs => rw [h.rest]
    exact with_conn_after hp.rest
  rw [heq]
  apply h.reparse (with_conn_outside s c) hopen
  · rw [with_conn_eq]
    exact hp
  · rw [with_conn_eq]
    exact hsizes
  · rw [with_conn_eq]
    exact hbuffer

theorem Parsers.twin (h : Parsers c c') (hbuf : c'.m_read_buf = c.m_read_buf) :
    Twin c.m_read_ring.capacity c'.m_read_ring.capacity c.head.m_host c'.head.m_host c c' := by
  refine ⟨?_, rfl, h.version.stands, h.bytes, rfl, rfl⟩
  conv_lhs => rw [h.rest]
  unfold beside
  rw [hbuf]

theorem parsers_of_twin (h : Twin n m p q c c') (hhost : Behind p q) (hlisted : Listed c.head) :
    Parsers c c' ∧ c'.m_read_buf = c.m_read_buf := by
  have hq : c'.head.m_host = q := by rw [h.rest]
  have hbuf : c'.m_read_buf = c.m_read_buf := by rw [h.rest]
  refine ⟨⟨?_, h.ring, ?_, .of_stands h.version hbuf, hlisted⟩, hbuf⟩
  · conv_lhs => rw [h.rest]
    unfold beside
    rw [hbuf, hq]
  · rw [hq, h.host]
    exact hhost

theorem parsed_outside (cfg : Config) (a : Answers) (s : Server) (r : Result) :
    SameButParser s (s.parsed cfg a r) := by
  unfold Server.parsed Server.spooled
  dsimp only
  split <;> exact ⟨rfl, rfl, rfl, rfl, rfl, rfl, rfl, rfl, rfl, rfl⟩

theorem parsed_after (cfg : Config) (a : Answers) (s : Server) (x : Residue) {r r' : Result}
    (hrest : r'.1 = beside r.1 r'.1) (hsame : r'.2 = r.2) :
    (s.after x).parsed cfg a r' = (s.parsed cfg a r).after (x.of_conn r'.1) := by
  have hpath : spool_path cfg a s.connection.m_stream_body_tmp_path s.connection.parser.body r' =
      spool_path cfg a s.connection.m_stream_body_tmp_path s.connection.parser.body r := by
    unfold spool_path
    rw [hsame, hrest]
  unfold Server.parsed
  rw [← spooled_after]
  unfold beside at hrest
  unfold Server.after Connection.after parser_after Residue.of_conn
  dsimp only
  rw [← hrest, hpath]

/-- The state of `u` does not need `m_host`, or the two have the same; and if it is handled,
`m_version` stands, or the two servers are one. -/
structure Agree (cfg : Config) (a : Answers) (s t u : Server) : Prop where
  host : u.connection.parser.m_check_state = .CONTENT ∨
    s.connection.parser.head.m_host = t.connection.parser.head.m_host
  version : ((Http.process_read (a.env cfg) u.connection.parser).2 = .do_request →
    (Http.process_read (a.env cfg) u.connection.parser).1.m_version ≠ .freed) ∨ t = s

theorem Mirror.process_read (h : Mirror s t) (hopen : s.connection.is_open = true)
    (hbuf : t.connection.parser.m_read_buf = s.connection.parser.m_read_buf)
    (hagree : Agree cfg a s t s)
    (hrun : process_read key sha256_hex cfg app a s = some (s', code)) :
    ∃ t', process_read key sha256_hex cfg app a t = some (t', code) ∧ Mirror s' t' ∧
      s'.connection.parser.m_read_ring.capacity = s.connection.parser.m_read_ring.capacity := by
  obtain ⟨p', q', ⟨htwin, hsame⟩, hhosts⟩ :=
    (h.parsers.twin hbuf).process_read (a.env cfg) hagree.host
  have hbehind : Behind p' q' := by
    rcases hhosts with ⟨rfl, rfl⟩ | rfl
    · exact h.parsers.host
    · exact .inl rfl
  obtain ⟨hp, hbuf'⟩ := parsers_of_twin htwin hbehind
    (listed_process_read (a.env cfg) h.parsers.listed)
  have htext : (Http.process_read (a.env cfg) s.connection.parser).2 = .do_request →
      version_text a (Http.process_read (a.env cfg) t.connection.parser).1 =
        version_text a (Http.process_read (a.env cfg) s.connection.parser).1 := by
    intro hdo
    rcases hagree.version with hstands | rfl
    · unfold version_text
      rw [htwin.version.resolve_left (hstands hdo), hbuf']
    · rfl
  generalize hr : Http.process_read (a.env cfg) s.connection.parser = r
    at htwin hsame hp htext hbuf'
  generalize hr' : Http.process_read (a.env cfg) t.connection.parser = r'
    at htwin hsame hp htext hbuf'
  have hparsed : t.parsed cfg a r' = (s.parsed cfg a r).after (t.residue.of_conn r'.1) := by
    conv_lhs => rw [h.rest]
    exact parsed_after cfg a s t.residue hp.rest hsame
  have hparser : (s.parsed cfg a r).connection.parser = r.1 := by
    rw [parsed_connection]
  have hmirror : Mirror (s.parsed cfg a r) (t.parsed cfg a r') := by
    rw [hparsed]
    apply h.reparse (parsed_outside cfg a s r) hopen
    · rw [hparser]
      exact hp
    · rw [hparser, htwin.capacity, htwin.capacity']
      exact h.arrays.sizes hopen
    · rw [hparser]
      exact fun _ _ _ => hbuf'
  have hcapacity : (s.parsed cfg a r).connection.parser.m_read_ring.capacity =
      s.connection.parser.m_read_ring.capacity := by
    rw [hparser]
    exact htwin.capacity
  unfold Runtime.process_read at hrun ⊢
  rw [hr] at hrun
  rw [hr']
  dsimp only at hrun ⊢
  rw [hsame]
  cases hout : r.2 with
  | code code' =>
    rw [hout] at hrun
    obtain ⟨rfl, rfl⟩ := hrun
    exact ⟨_, rfl, hmirror, hcapacity⟩
  | do_request =>
    rw [hout, Option.some.injEq] at hrun
    have hsame : SameRequest a (t.parsed cfg a r').residue
        (s.parsed cfg a r).connection.parser := by
      refine ⟨hmirror.parsers.host, hmirror.parsers.listed, ?_⟩
      have hother : parser_after (s.parsed cfg a r).connection.parser (t.parsed cfg a r').residue =
          r'.1 := by
        rw [hparser, hp.rest, hparsed]
        rfl
      rw [hother, hparser]
      exact htext hout
    have hrequest : do_request key sha256_hex cfg app a (t.parsed cfg a r') =
        ((do_request key sha256_hex cfg app a (s.parsed cfg a r)).1.after
            (t.parsed cfg a r').residue,
          (do_request key sha256_hex cfg app a (s.parsed cfg a r)).2) := by
      conv_lhs => rw [hmirror.rest]
      exact do_request_after key sha256_hex cfg app hsame
    rw [hrun] at hrequest
    refine ⟨_, congrArg some hrequest, ?_⟩
    have hkept := do_request_kept key sha256_hex cfg app a (s.parsed cfg a r)
    rw [hrun] at hkept
    refine ⟨hmirror.kept ((parsed_outside cfg a s r).is_open.trans hopen) hkept, ?_⟩
    rw [← hcapacity]
    exact congrArg (fun x : Residue => x.m_read_ring.capacity) hkept.residue
  | _ =>
    rw [hout] at hrun
    contradiction

/-! ## `init` and `close_conn` -/

theorem initial_read_capacity {j : ℕ}
    (hcap : c.m_read_ring.capacity = READ_BUFFER_INITIAL_SIZE * 2 ^ j) :
    (ensure_read_capacity c READ_BUFFER_INITIAL_SIZE).1 = c := by
  have hle : c.m_read_ring.capacity ≥ READ_BUFFER_INITIAL_SIZE := by
    rw [hcap]
    exact Nat.le_mul_of_pos_right _ (Nat.two_pow_pos j)
  have hne : ¬ READ_BUFFER_INITIAL_SIZE = 0 := by decide
  unfold ensure_read_capacity
  rw [if_neg hne]
  rw [if_neg (by decide), if_pos hle]

theorem initial_read_capacity_zero (hcap : c.m_read_ring.capacity = 0) :
    (ensure_read_capacity c READ_BUFFER_INITIAL_SIZE).1.m_read_ring.capacity =
      READ_BUFFER_INITIAL_SIZE := by
  have hsize : c.m_read_ring.size = 0 := by
    have hle := c.m_read_ring.size_le
    omega
  have hempty : (c.m_read_ring.peek c.m_read_ring.size).length < READ_BUFFER_INITIAL_SIZE := by
    rw [peek_size, RingBuf.length_contents, hsize]
    decide
  have hloop : new_capacity_loop READ_BUFFER_INITIAL_SIZE 22 READ_BUFFER_INITIAL_SIZE =
      some READ_BUFFER_INITIAL_SIZE := by decide
  have hne : ¬ READ_BUFFER_INITIAL_SIZE = 0 := by decide
  have hsmall : ¬ c.m_read_ring.capacity ≥ READ_BUFFER_INITIAL_SIZE := by
    rw [hcap]
    decide
  unfold ensure_read_capacity
  rw [if_neg hne]
  dsimp only
  rw [if_neg (by decide), if_neg hsmall, if_pos hcap, hloop]
  dsimp only
  rw [dif_pos hempty]
  rfl

theorem initial_write_capacity (h : Grown ring ∨ ring.capacity = 0) :
    Grown ((ensure_write_capacity ring WRITE_BUFFER_INITIAL_SIZE).getD ring).reset := by
  have hne : ¬ WRITE_BUFFER_INITIAL_SIZE = 0 := by decide
  unfold ensure_write_capacity
  rw [if_neg hne]
  dsimp only
  rcases h with hgrown | hzero
  · rw [if_pos hgrown.pos]
    obtain ⟨k, hk, hcap⟩ := hgrown
    exact ⟨k, hk, hcap⟩
  have hsize : ring.size = 0 := by
    have hle := ring.size_le
    omega
  have hempty : (ring.peek ring.size).length < WRITE_BUFFER_INITIAL_SIZE := by
    rw [peek_size, RingBuf.length_contents, hsize]
    decide
  have hloop : write_capacity_loop WRITE_BUFFER_INITIAL_SIZE 32 WRITE_BUFFER_INITIAL_SIZE =
      some WRITE_BUFFER_INITIAL_SIZE := by decide
  have hsmall : ¬ ring.capacity ≥ WRITE_BUFFER_INITIAL_SIZE := by
    rw [hzero]
    decide
  rw [if_neg hsmall, if_pos hzero, hloop]
  dsimp only
  rw [dif_pos hempty]
  exact ⟨0, by decide, rfl⟩

theorem mirror_init (hopen : s.connection.is_open = true)
    (hread : Sizes s.connection.parser.m_read_ring.capacity x.m_read_ring.capacity ∨
      s.connection.parser.m_read_ring.capacity = 0 ∧ x.m_read_ring.capacity = 0)
    (hwrite : (Grown s.connection.m_write_ring ∨ s.connection.m_write_ring.capacity = 0) ∧
      (Grown x.m_write_ring ∨ x.m_write_ring.capacity = 0))
    (htls : s.connection.m_https_enabled = true →
      x.m_tls_want_event = s.connection.m_tls_want_event) (hreads : s.reads ≤ x.reads)
    (hwrites : s.writes ≤ x.writes) (hprocesses : s.processes ≤ x.processes) :
    Mirror (s.init cfg) ((s.after x).init cfg) := by
  refine ⟨rfl, ⟨rfl, .reset _ _, .inl rfl, .inl ⟨rfl, rfl⟩, fun hnull => absurd rfl hnull⟩,
    ⟨fun _ => ?_, fun _ => ?_, fun hclosed => ?_, rfl⟩, htls, hreads, hwrites, hprocesses,
    nofun, fun _ => hopen⟩
  · rcases hread with ⟨j, k, hjk, hk, hn, hm⟩ | ⟨hn, hm⟩
    · refine ⟨j, k, hjk, hk, ?_, ?_⟩
      · exact (congrArg (fun c : Conn => c.m_read_ring.capacity) (initial_read_capacity
          (c := (cleanup_temp_upload_state cfg s).connection.parser) hn)).trans hn
      · exact (congrArg (fun c : Conn => c.m_read_ring.capacity) (initial_read_capacity
          (c := (cleanup_temp_upload_state cfg (s.after x)).connection.parser) hm)).trans hm
    refine ⟨0, 0, le_refl _, by decide, ?_, ?_⟩
    · exact initial_read_capacity_zero
        (c := (cleanup_temp_upload_state cfg s).connection.parser) hn
    · exact initial_read_capacity_zero
        (c := (cleanup_temp_upload_state cfg (s.after x)).connection.parser) hm
  · exact ⟨initial_write_capacity hwrite.1, initial_write_capacity hwrite.2⟩
  · exact nomatch hopen.symm.trans hclosed

theorem Mirror.init (h : Mirror s t) (hopen : s.connection.is_open = true) :
    Mirror (s.init cfg) (t.init cfg) := by
  obtain ⟨hgrown, hgrown'⟩ := h.arrays.grown hopen
  have heq : t.init cfg = (s.after t.residue).init cfg := congrArg (Server.init cfg) h.rest
  rw [heq]
  exact mirror_init hopen (.inl (h.arrays.sizes hopen)) ⟨.inl hgrown, .inl hgrown'⟩ h.tls h.reads
    h.writes h.processes

theorem Mirror.close_conn (h : Mirror s t) (hreading : s.reading = false) :
    Mirror (close_conn cfg s) (close_conn cfg t) := by
  obtain ⟨x, rfl⟩ := h.is_after
  unfold Runtime.close_conn
  split
  · exact h
  refine ⟨rfl, ⟨rfl, ⟨rfl, rfl, rfl⟩, h.parsers.host, .of_stands h.parsers.version.stands rfl,
    h.parsers.listed⟩, ⟨nofun, nofun, fun _ => ⟨rfl, rfl, rfl, rfl⟩, rfl⟩, h.tls, h.reads, h.writes,
    h.processes, nofun, fun hr => ?_⟩
  exact nomatch hreading.symm.trans hr

/-! ## `process` -/

theorem write_ring_for (h : Grown ring) {out : Bytes} (hsize : out.length ≤ WRITE_LIMIT) :
    Grown (((ensure_write_capacity ring out.length).getD ring).reset.append out) ∧
      (((ensure_write_capacity ring out.length).getD ring).reset.append out).contents = out := by
  have hroom : Grown ((ensure_write_capacity ring out.length).getD ring) ∧
      out.length ≤ ((ensure_write_capacity ring out.length).getD ring).capacity := by
    by_cases hfits : ring.capacity ≥ out.length
    · have hself : ensure_write_capacity ring out.length = some ring := by
        unfold ensure_write_capacity
        by_cases hzero : out.length = 0
        · rw [if_pos hzero]
          exact if_pos h.pos
        · rw [if_neg hzero]
          exact if_pos hfits
      rw [hself]
      exact ⟨h, hfits⟩
    · obtain ⟨ring', hensure, hgrown, -, hcapacity⟩ := ensure_write_capacity_spec h hsize
      rw [hensure]
      exact ⟨hgrown, hcapacity⟩
  obtain ⟨⟨k, hk, hcap⟩, hfits⟩ := hroom
  constructor
  · refine ⟨k, hk, ?_⟩
    rw [RingBuf.capacity_append]
    exact hcap
  · rw [RingBuf.contents_append _ hfits, RingBuf.contents_reset, List.nil_append]

theorem Mirror.answer_request (h : Mirror s t) (hopen : s.connection.is_open = true)
    (hreading : s.reading = false) (hnew : s.connection.m_has_new_data = false)
    (hrun : answer_request cfg s code = some s') :
    ∃ t', answer_request cfg t code = some t' ∧ Mirror s' t' := by
  obtain ⟨x, rfl⟩ := h.is_after
  obtain ⟨hgrown, hgrown'⟩ := h.arrays.grown hopen
  obtain ⟨hsame, hlength⟩ := process_write_alike
    ({ s.connection with parser := reset_request_parser_state s.connection.parser } :
      Connection).current_reply code hgrown hgrown' h.arrays.written
  have hreset : Mirror
      { s with connection := { s.connection with
        parser := reset_request_parser_state s.connection.parser } }
      { s.after x with connection := { (s.after x).connection with
        parser := reset_request_parser_state (s.after x).connection.parser } } := by
    exact { h with
      rest := rfl
      parsers := { h.parsers with
        rest := rfl, bytes := .reset _ _, version := .of_stands (h.parsers.version.kept [0]) rfl }
      arrays := { h.arrays with }
      buffer := fun _ _ _ hn => nomatch hnew.symm.trans hn }
  unfold Runtime.answer_request at hrun ⊢
  dsimp only at hrun ⊢
  have hreply : Connection.current_reply { (s.after x).connection with
      parser := reset_request_parser_state (s.after x).connection.parser } =
    Connection.current_reply { s.connection with
      parser := reset_request_parser_state s.connection.parser } := rfl
  rw [hreply, hsame]
  split at hrun
  · contradiction
  · rename_i heq
    rw [heq]
    cases hrun
    exact ⟨_, rfl, hreset.close_conn hreading⟩
  · rename_i out heq
    rw [heq]
    cases hrun
    obtain ⟨hring, hout⟩ := write_ring_for hgrown (hlength out heq)
    obtain ⟨hring', hout'⟩ := write_ring_for hgrown' (hlength out heq)
    refine ⟨_, rfl, ?_⟩
    exact { hreset with
      rest := rfl
      parsers := { hreset.parsers with rest := rfl }
      arrays := {
        sizes := h.arrays.sizes
        grown := fun _ => ⟨hring, hring'⟩
        released := fun hclosed => nomatch hopen.symm.trans hclosed
        written := hout'.trans hout.symm } }

theorem Mirror.modfd (h : Mirror s t) (event : Event) :
    Mirror (s.modfd event) (t.modfd event) := by
  obtain ⟨x, rfl⟩ := h.is_after
  exact { h with rest := rfl }

theorem Mirror.no_data (h : Mirror s t) :
    Mirror { s with connection := { s.connection with m_has_new_data := false } }
      { t with connection := { t.connection with m_has_new_data := false } } := by
  obtain ⟨x, rfl⟩ := h.is_after
  exact { h with
    rest := rfl
    arrays := { h.arrays with }
    buffer := nofun }

theorem process_read_frame (hrun : process_read key sha256_hex cfg app a s = some (s', code)) :
    s'.connection.is_open = s.connection.is_open ∧ s'.reading = s.reading := by
  have hparsed := parsed_outside cfg a s (Http.process_read (a.env cfg) s.connection.parser)
  rcases process_read_cases hrun with ⟨-, rfl⟩ | ⟨-, rfl⟩
  · exact ⟨hparsed.is_open, hparsed.reading⟩
  · have hkept := do_request_kept key sha256_hex cfg app a
      (s.parsed cfg a (Http.process_read (a.env cfg) s.connection.parser))
    exact ⟨hkept.is_open.trans hparsed.is_open, hkept.reading.trans hparsed.reading⟩

theorem Mirror.process (h : Mirror s t) (hopen : s.connection.is_open = true)
    (hreading : s.reading = false) (hbuf : s.connection.m_has_new_data = true →
      t.connection.parser.m_read_buf = s.connection.parser.m_read_buf)
    (hagree : process_point a s ≠ none → Agree cfg a s t s)
    (hrun : process key sha256_hex cfg app a s = some s') :
    ∃ t', process key sha256_hex cfg app a t = some t' ∧ Mirror s' t' := by
  have hsend : t.connection.bytes_to_send = s.connection.bytes_to_send := by rw [h.rest]; rfl
  have hnew : t.connection.m_has_new_data = s.connection.m_has_new_data := by rw [h.rest]
  unfold process_point at hagree
  unfold Runtime.process at hrun ⊢
  rw [hsend, hnew]
  by_cases hpending : s.connection.bytes_to_send > 0
  · rw [if_pos hpending] at hrun
    cases hrun
    rw [if_pos hpending]
    exact ⟨_, rfl, h.modfd _⟩
  rw [if_neg hpending] at hrun ⊢
  by_cases hdata : s.connection.m_has_new_data = false
  · rw [if_pos hdata] at hrun
    cases hrun
    rw [if_pos hdata]
    exact ⟨_, rfl, h.modfd _⟩
  rw [if_neg hdata] at hrun ⊢
  rw [if_neg (not_or.mpr ⟨hpending, hdata⟩)] at hagree
  rcases hread : Runtime.process_read key sha256_hex cfg app a s with _ | ⟨s₁, code⟩
  · rw [hread] at hrun
    contradiction
  rw [hread] at hrun
  obtain ⟨t₁, hread', h₁, -⟩ := h.process_read hopen
    (hbuf (Bool.not_eq_false _ ▸ hdata)) (hagree (some_ne_none _)) hread
  rw [hread']
  dsimp only at hrun ⊢
  obtain ⟨hopen₁, hreading₁⟩ := process_read_frame hread
  by_cases hcode : code = .NO_REQUEST
  · rw [if_pos hcode] at hrun
    cases hrun
    rw [if_pos hcode]
    exact ⟨_, rfl, h₁.no_data.modfd _⟩
  · rw [if_neg hcode] at hrun ⊢
    exact h₁.no_data.answer_request (hopen₁.trans hopen) (hreading₁.trans hreading) rfl hrun

/-! ## `read_once` -/

theorem Parsers.size (h : Parsers c c') : c'.m_read_ring.size = c.m_read_ring.size :=
  h.bytes.size

theorem Parsers.writable_le (h : Parsers c c')
    (hsizes : Sizes c.m_read_ring.capacity c'.m_read_ring.capacity) :
    c.m_read_ring.writable ≤ c'.m_read_ring.writable := by
  have hle := hsizes.le
  have hsize := h.size
  unfold RingBuf.writable
  omega

theorem Parsers.grow (h : Parsers c c')
    (hsizes : Sizes c.m_read_ring.capacity c'.m_read_ring.capacity)
    (hfull : c.m_read_ring.writable = 0) :
    (∃ d d', ensure_read_capacity c (c.m_read_ring.capacity * 2) = (d, true) ∧
        (c'.m_read_ring.writable > 0 ∧ d' = c' ∨
          c'.m_read_ring.writable = 0 ∧
            ensure_read_capacity c' (c'.m_read_ring.capacity * 2) = (d', true)) ∧
        Parsers d d' ∧ Sizes d.m_read_ring.capacity d'.m_read_ring.capacity ∧
        (d.m_read_ring.writable = 0 → d.m_read_ring.capacity = READ_BUFFER_MAX_SIZE)) ∨
      (c.m_read_ring.capacity = READ_BUFFER_MAX_SIZE ∧ c'.m_read_ring.writable = 0 ∧
        ensure_read_capacity c (c.m_read_ring.capacity * 2) = (c, false) ∧
        ensure_read_capacity c' (c'.m_read_ring.capacity * 2) = (c', false)) := by
  have hsize := h.size
  have hle := c.m_read_ring.size_le
  unfold RingBuf.writable at hfull ⊢
  obtain ⟨j, k, hjk, hk, hn, hm⟩ := hsizes
  by_cases hj : j < 7
  · left
    obtain ⟨ring, hensure, hcontents, hcap, hhead⟩ := ensure_read_capacity_double hj hn (by omega)
    have hpos : 0 < c.m_read_ring.capacity := by
      rw [hn]
      exact Nat.mul_pos (by decide) (Nat.two_pow_pos j)
    have hdouble : c.m_read_ring.capacity * 2 = READ_BUFFER_INITIAL_SIZE * 2 ^ (j + 1) := by
      rw [hn, pow_succ, Nat.mul_assoc]
    have hroom : ring.writable = 0 → ring.capacity = READ_BUFFER_MAX_SIZE := by
      unfold RingBuf.writable
      rw [← ring.length_contents, hcontents, length_received, hcap]
      omega
    by_cases hroom' : c'.m_read_ring.capacity - c'.m_read_ring.size > 0
    · -- the other ring is larger, and is not full yet
      have hlarger : j + 1 ≤ k := by
        by_contra hnot
        obtain rfl : j = k := by omega
        omega
      refine ⟨_, c', hensure, .inl ⟨hroom', rfl⟩,
        ⟨?_, ⟨?_, hhead, h.bytes.head'⟩, ?_, h.version.moved_left, h.listed.moved⟩,
        ⟨j + 1, k, hlarger, hk, hcap.trans hdouble, hm⟩, hroom⟩
      · conv_lhs => rw [h.rest]
      · exact h.bytes.contents.trans hcontents.symm
      · exact h.host.moved_left
    · obtain rfl : j = k := by
        by_contra hne
        have hlt : READ_BUFFER_INITIAL_SIZE * 2 ^ j < READ_BUFFER_INITIAL_SIZE * 2 ^ k :=
          Nat.mul_lt_mul_of_pos_left (Nat.pow_lt_pow_right (by decide) (by omega)) (by decide)
        omega
      obtain ⟨ring', hensure', hcontents', hcap', hhead'⟩ :=
        ensure_read_capacity_double hj hm (by omega)
      have hreceived : c'.received = c.received := h.bytes.contents
      refine ⟨_, _, hensure, .inr ⟨by omega, hensure'⟩,
        ⟨?_, ⟨?_, hhead, hhead'⟩, ?_, hreceived ▸ h.version.moved, h.listed.moved⟩,
        ⟨j + 1, j + 1, le_refl _, by omega, hcap.trans hdouble, ?_⟩, hroom⟩
      · exact congrArg (fun d : Conn => { d with
          m_read_ring := ring'
          m_read_buf := c'.received ++ [0]
          m_version := c'.m_version.moved
          head := { d.head with m_host := c'.head.m_host.moved } }) h.rest
      · rw [hcontents, hcontents', hreceived]
      · exact h.host.moved
      · rw [hcap', hm, ← hn, hdouble]
  · right
    obtain rfl : j = 7 := by omega
    obtain rfl : k = 7 := by omega
    exact ⟨hn, by omega, ensure_read_capacity_max hn, ensure_read_capacity_max hm⟩

theorem flush_head (env : Env) (c : Conn) :
    (flush_streamed_body_from_read_buffer env c).1.head = c.head := by
  unfold flush_streamed_body_from_read_buffer reset_streamed_body_buffer
  dsimp only
  repeat' split
  all_goals rfl

theorem sync_sync (c : Conn) : sync_read_buffer (sync_read_buffer c) = sync_read_buffer c := by
  have hkept : ∀ before after (v : VersionPtr), (v.kept before after).kept after after =
      v.kept before after := by
    intro before after v
    cases v with
    | buf i => by_cases hi : i < after.length <;> simp only [VersionPtr.kept, hi, if_true, if_false]
    | behind i text =>
      by_cases hi : i < after.length <;> simp only [VersionPtr.kept, hi, if_true, if_false]
    | _ => rfl
  unfold sync_read_buffer Conn.refill
  dsimp only
  rw [hkept]

theorem Parsers.synced (h : Parsers c c') :
    Twin c.m_read_ring.capacity c'.m_read_ring.capacity c.head.m_host c'.head.m_host
      (sync_read_buffer c) (sync_read_buffer c') := by
  have hreceived : c'.received = c.received := h.bytes.contents
  rw [sync_read_buffer_eq, sync_read_buffer_eq, hreceived]
  refine ⟨?_, rfl, h.version.kept _, h.bytes, rfl, rfl⟩
  conv_lhs => rw [h.rest]

theorem Parsers.flush (h : Parsers c c') (env : Env) :
    Parsers (flush_streamed_body_from_read_buffer env c).1
        (flush_streamed_body_from_read_buffer env c').1 ∧
      (flush_streamed_body_from_read_buffer env c').2 =
        (flush_streamed_body_from_read_buffer env c).2 ∧
      (flush_streamed_body_from_read_buffer env c).1.m_read_ring.capacity =
        c.m_read_ring.capacity ∧
      (flush_streamed_body_from_read_buffer env c').1.m_read_ring.capacity =
        c'.m_read_ring.capacity := by
  by_cases hidle : c.body.m_stream_body_file = none ∨ c.m_check_state ≠ .CONTENT
  · have hidle' : c'.body.m_stream_body_file = none ∨ c'.m_check_state ≠ .CONTENT := by
      rw [h.rest]
      exact hidle
    unfold flush_streamed_body_from_read_buffer
    rw [if_pos hidle, if_pos hidle']
    exact ⟨h, rfl, rfl, rfl⟩
  have hflush : ∀ d : Conn, ¬ (d.body.m_stream_body_file = none ∨ d.m_check_state ≠ .CONTENT) →
      flush_streamed_body_from_read_buffer env d =
        flush_streamed_body_from_read_buffer env (sync_read_buffer d) := by
    intro d hd
    have hsynced : ¬ ((sync_read_buffer d).body.m_stream_body_file = none ∨
      (sync_read_buffer d).m_check_state ≠ .CONTENT) := hd
    unfold flush_streamed_body_from_read_buffer
    rw [if_neg hd, if_neg hsynced, sync_sync]
  have hidle' : ¬ (c'.body.m_stream_body_file = none ∨ c'.m_check_state ≠ .CONTENT) := by
    rw [h.rest]
    exact hidle
  obtain ⟨htwin, hsame⟩ := (h.synced).flush env
  rw [hflush c hidle, hflush c' hidle']
  have hlisted : Listed (flush_streamed_body_from_read_buffer env (sync_read_buffer c)).1.head := by
    rw [flush_head]
    exact h.listed
  obtain ⟨hp, -⟩ := parsers_of_twin htwin h.host hlisted
  exact ⟨hp, hsame, htwin.capacity, htwin.capacity'⟩

theorem Mirror.set_conn (h : Mirror s t) (hreading : s.reading = true) (hp : Parsers c c')
    (hsizes : Sizes c.m_read_ring.capacity c'.m_read_ring.capacity) :
    Mirror { s with connection := { s.connection with parser := c } }
      { t with connection := { t.connection with parser := c' } } := by
  have heq : { t with connection := { t.connection with parser := c' } } =
      Server.after { s with connection := { s.connection with parser := c } }
        (t.residue.of_conn c') := by
    have hparser : parser_after c (t.residue.of_conn c') = c' := hp.rest.symm
    unfold Server.after Connection.after
    rw [hparser]
    conv_lhs => rw [h.rest]
    rfl
  have hsame : SameButParser s { s with connection := { s.connection with parser := c } } :=
    ⟨rfl, rfl, rfl, rfl, rfl, rfl, rfl, rfl, rfl, rfl⟩
  rw [heq]
  apply h.reparse hsame (h.live hreading) hp hsizes
  intro hr
  exact nomatch hreading.symm.trans hr

theorem Mirror.append_task (h : Mirror s t) : Mirror (append_task s) (append_task t) := by
  obtain ⟨x, rfl⟩ := h.is_after
  exact { h with rest := rfl, processes := Nat.succ_le_succ h.processes }

theorem Mirror.read_on (h : Mirror s t) (more : Bool) :
    Mirror (read_on (s, more)) (read_on (t, more)) := by
  obtain ⟨x, rfl⟩ := h.is_after
  cases more with
  | true => exact h
  | false => exact { h with rest := rfl, buffer := nofun, live := nofun }

theorem Roomed.read_on (h : Roomed cfg s) (more : Bool) : Roomed cfg (read_on (s, more)) := by
  cases more with
  | true => exact h
  | false => exact nofun

theorem Mirror.begin_read (h : Mirror s t) (cfg : Config) (hreading : s.reading = true) :
    (begin_read t).2 = (begin_read s).2 ∧ Mirror (begin_read s).1 (begin_read t).1 ∧
      Roomed cfg (begin_read s).1 := by
  have hsizes := h.arrays.sizes (h.live hreading)
  have hle := h.parsers.writable_le hsizes
  unfold Runtime.begin_read
  dsimp only
  by_cases hroom : s.connection.parser.m_read_ring.writable > 0
  · rw [if_pos hroom, if_pos (lt_of_lt_of_le hroom hle)]
    exact ⟨rfl, h.no_data, fun _ _ hzero => absurd hzero (Nat.ne_of_gt hroom)⟩
  have hzero : s.connection.parser.m_read_ring.writable = 0 := Nat.eq_zero_of_not_pos hroom
  rw [if_neg hroom]
  rcases h.parsers.grow hsizes hzero with
    ⟨d, d', hd, hother, hp, hsizes', hroomed⟩ | ⟨hmax, hzero', hd, hd'⟩
  · have hgrown := h.no_data.set_conn hreading hp hsizes'
    rw [hd, if_pos rfl]
    rcases hother with ⟨hroom', rfl⟩ | ⟨hzero', hd'⟩
    · rw [if_pos hroom']
      exact ⟨rfl, hgrown, fun _ _ => hroomed⟩
    · rw [if_neg (by omega), hd', if_pos rfl]
      exact ⟨rfl, hgrown, fun _ _ => hroomed⟩
  · rw [hd, hd', if_neg (by omega), if_neg Bool.false_ne_true, if_neg Bool.false_ne_true]
    exact ⟨rfl, h.no_data, fun _ _ _ => hmax⟩

theorem Mirror.dealwithread (h : Mirror s t) (hroomed : Roomed cfg s)
    (hopen : s.connection.is_open = true) :
    Mirror (dealwithread cfg s) (dealwithread cfg t) ∧ Roomed cfg (dealwithread cfg s) := by
  unfold Runtime.dealwithread
  cases cfg.m_actormodel with
  | reactor => exact ⟨h.append_task, hroomed⟩
  | proactor =>
  have hstart : Mirror { s with reading := true } { t with reading := true } := by
    obtain ⟨x, rfl⟩ := h.is_after
    exact { h with rest := rfl, buffer := by simp, live := fun _ => hopen }
  obtain ⟨hsame, hbegun, hroom⟩ := hstart.begin_read cfg rfl
  rcases hbegin : Runtime.begin_read { s with reading := true } with ⟨s₁, more⟩
  rcases hbegin' : Runtime.begin_read { t with reading := true } with ⟨t₁, more'⟩
  rw [hbegin] at hsame hbegun hroom
  rw [hbegin'] at hsame hbegun
  obtain rfl : more' = more := hsame
  exact ⟨hbegun.read_on more', hroom.read_on more'⟩

theorem Mirror.grow_full (h : Mirror s t) (hreading : s.reading = true) :
    Mirror (grow_full cfg s) (grow_full cfg t) ∧ Roomed cfg (grow_full cfg s) := by
  have hsizes := h.arrays.sizes (h.live hreading)
  have hle := h.parsers.writable_le hsizes
  unfold Runtime.grow_full
  dsimp only
  by_cases htrig : cfg.m_TRIGMode = true
  · by_cases hzero : s.connection.parser.m_read_ring.writable = 0
    · rw [if_pos ⟨htrig, hzero⟩]
      rcases h.parsers.grow hsizes hzero with
        ⟨d, d', hd, hother, hp, hsizes', hroomed⟩ | ⟨hmax, hzero', hd, hd'⟩
      · have hgrown := h.set_conn hreading hp hsizes'
        rw [hd]
        rcases hother with ⟨hroom', rfl⟩ | ⟨hzero', hd'⟩
        · rw [if_neg fun hfull => by omega]
          exact ⟨hgrown, fun _ _ => hroomed⟩
        · rw [if_pos ⟨htrig, hzero'⟩, hd']
          exact ⟨hgrown, fun _ _ => hroomed⟩
      · rw [hd, hd', if_pos ⟨htrig, hzero'⟩]
        exact ⟨h, fun _ _ _ => hmax⟩
    · rw [if_neg fun hfull => hzero hfull.2, if_neg fun hfull => hzero (by omega)]
      exact ⟨h, fun _ _ hfull => absurd hfull hzero⟩
  · rw [if_neg fun hfull => htrig hfull.1, if_neg fun hfull => htrig hfull.1]
    exact ⟨h, fun _ ht => absurd ht htrig⟩

theorem Mirror.flush_streamed (h : Mirror s t) (hreading : s.reading = true) (a : Answers) :
    (flush_streamed cfg a t).2 = (flush_streamed cfg a s).2 ∧
      Mirror (flush_streamed cfg a s).1 (flush_streamed cfg a t).1 ∧
      (flush_streamed cfg a s).1.reading = true ∧
      (flush_streamed cfg a s).1.connection.parser.m_read_ring.capacity =
        s.connection.parser.m_read_ring.capacity := by
  have hopen := h.live hreading
  obtain ⟨hp, hsame, hcapacity, hcapacity'⟩ := h.parsers.flush (a.env cfg)
  unfold Runtime.flush_streamed
  refine ⟨hsame, h.with_conn hopen hp ?_ ?_, ?_, ?_⟩
  · rw [hcapacity, hcapacity']
    exact h.arrays.sizes hopen
  · intro hr
    exact nomatch hreading.symm.trans hr
  · exact (with_conn_outside s _).reading.trans hreading
  · rw [with_conn_eq]
    exact hcapacity

theorem Mirror.receive (h : Mirror s t) (hreading : s.reading = true) {p : Bytes}
    (hsize : p.length ≤ s.connection.recv_size) :
    p.length ≤ t.connection.recv_size ∧ Mirror (receive s p) (receive t p) := by
  have hsizes := h.arrays.sizes (h.live hreading)
  have hle := h.parsers.writable_le hsizes
  have hrecv : s.connection.recv_size = s.connection.parser.m_read_ring.writable :=
    receive_ring_size _ h.parsers.bytes.head
  have hrecv' : t.connection.recv_size = t.connection.parser.m_read_ring.writable :=
    receive_ring_size _ h.parsers.bytes.head'
  have hfits : p.length ≤ s.connection.parser.m_read_ring.writable := hrecv ▸ hsize
  have hfits' : p.length ≤ t.connection.parser.m_read_ring.writable := hfits.trans hle
  refine ⟨hrecv' ▸ hfits', ?_⟩
  have hp : Parsers
      { s.connection.parser with m_read_ring := s.connection.parser.m_read_ring.append p }
      { t.connection.parser with m_read_ring := t.connection.parser.m_read_ring.append p } := by
    refine { h.parsers with rest := ?_, bytes := h.parsers.bytes.append hfits hfits' }
    exact congrArg (fun d : Conn => { d with
      m_read_ring := t.connection.parser.m_read_ring.append p }) h.parsers.rest
  have hset := h.set_conn hreading hp
    (by rw [RingBuf.capacity_append, RingBuf.capacity_append]; exact hsizes)
  exact { hset with
    rest := congrArg (fun u : Server => { u with
      connection := { u.connection with m_has_new_data := true } }) hset.rest
    arrays := { hset.arrays with }
    buffer := fun _ hr => nomatch hreading.symm.trans hr }

theorem Mirror.flush_received (h : Mirror s t) (hreading : s.reading = true) (a : Answers)
    {p : Bytes} (hsize : p.length ≤ s.connection.recv_size) :
    p.length ≤ t.connection.recv_size ∧
      ∃ s₁ t₁ more, Runtime.flush_streamed cfg a (Runtime.receive s p) = (s₁, more) ∧
        Runtime.flush_streamed cfg a (Runtime.receive t p) = (t₁, more) ∧ Mirror s₁ t₁ ∧
        s₁.reading = true := by
  obtain ⟨hsize', hreceived⟩ := h.receive hreading hsize
  obtain ⟨hsame, hflushed, hreading', -⟩ : _ = (Runtime.flush_streamed cfg a _).2 ∧ _ :=
    hreceived.flush_streamed hreading a
  exact ⟨hsize', _, _, _, rfl, Prod.ext rfl hsame, hflushed, hreading'⟩

theorem Mirror.make_room {more : Bool} (h : Mirror s t) (hreading : s.reading = true)
    (hagree : ∀ b u, parse_point s (.make_room a) = some (b, u) → Agree cfg b s t u)
    (hrun : make_room key sha256_hex cfg app a s = some (s', more)) :
    ∃ t', make_room key sha256_hex cfg app a t = some (t', more) ∧ Mirror s' t' ∧
      s'.connection.parser.m_read_ring.capacity = s.connection.parser.m_read_ring.capacity := by
  have hopen := h.live hreading
  obtain ⟨hp, hbuf⟩ := parsers_of_twin h.parsers.synced h.parsers.host h.parsers.listed
  have hsynced : Mirror (s.with_conn (sync_read_buffer s.connection.parser))
      (t.with_conn (sync_read_buffer t.connection.parser)) :=
    h.with_conn hopen hp (h.arrays.sizes hopen) fun _ _ _ => hbuf
  have houtside := with_conn_outside s (sync_read_buffer s.connection.parser)
  have hstate : t.connection.parser.m_check_state = s.connection.parser.m_check_state := by
    rw [h.rest]
  have hfile : t.connection.parser.body.m_stream_body_file =
      s.connection.parser.body.m_stream_body_file := by
    rw [h.rest]
  unfold parse_point at hagree
  unfold Runtime.make_room at hrun ⊢
  simp only [with_conn_eq] at hagree hrun ⊢
  have hsame : (sync_read_buffer t.connection.parser).m_check_state =
      (sync_read_buffer s.connection.parser).m_check_state := hstate
  rw [hsame]
  by_cases hhead : (sync_read_buffer s.connection.parser).m_check_state ≠ .CONTENT
  · rw [if_pos hhead] at hagree hrun ⊢
    split at hrun
    · contradiction
    rename_i s₁ code hread
    rw [Option.some.injEq, Prod.mk.injEq] at hrun
    obtain ⟨rfl, rfl⟩ := hrun
    obtain ⟨hhosts, hversion⟩ := hagree a _ rfl
    have hboth : Agree cfg a (s.with_conn (sync_read_buffer s.connection.parser))
        (t.with_conn (sync_read_buffer t.connection.parser))
        (s.with_conn (sync_read_buffer s.connection.parser)) := by
      refine ⟨.inr ?_, hversion.imp_right fun hts => by rw [hts]⟩
      rw [with_conn_eq, with_conn_eq]
      exact hhosts.resolve_left (by rw [with_conn_eq]; exact hhead)
    obtain ⟨t₁, hread', h₁, hcapacity⟩ := hsynced.process_read
      (houtside.is_open.trans hopen) (by rw [with_conn_eq, with_conn_eq]; exact hbuf) hboth hread
    have hstreaming : t₁.connection.is_streaming = s₁.connection.is_streaming := by
      rw [h₁.rest]
      rfl
    rw [hread']
    dsimp only
    rw [hstreaming]
    refine ⟨t₁, rfl, h₁, ?_⟩
    rw [hcapacity, with_conn_eq]
    rfl
  · rw [if_neg hhead] at hrun ⊢
    have hopened : (sync_read_buffer t.connection.parser).body.m_stream_body_file =
        (sync_read_buffer s.connection.parser).body.m_stream_body_file := hfile
    rw [hopened]
    by_cases hspool : (sync_read_buffer s.connection.parser).body.m_stream_body_file.isSome = true
    · rw [if_pos hspool, Option.some.injEq] at hrun
      obtain ⟨hsame, hflushed, -, hcapacity⟩ := hsynced.flush_streamed
        (houtside.reading.trans hreading) a
      rw [if_pos hspool]
      rw [hrun] at hsame hflushed hcapacity
      refine ⟨_, congrArg some (Prod.ext rfl hsame), hflushed, ?_⟩
      rw [hcapacity, with_conn_eq]
      rfl
    · rw [if_neg hspool] at hrun
      cases hrun
      rw [if_neg hspool]
      refine ⟨_, rfl, hsynced, ?_⟩
      rw [with_conn_eq]
      rfl

theorem Mirror.would_block (h : Mirror s t) (want : Event) :
    Mirror { s with connection := s.connection.would_block want }
      { t with connection := t.connection.would_block want } := by
  obtain ⟨x, rfl⟩ := h.is_after
  unfold Connection.would_block
  split
  · exact { h with rest := rfl, arrays := { h.arrays with }, tls := fun _ => rfl }
  · exact h

theorem Mirror.wait_event (h : Mirror s t) (event : Event) :
    t.connection.wait_event_for_io event = s.connection.wait_event_for_io event := by
  have hhttps : t.connection.m_https_enabled = s.connection.m_https_enabled := by rw [h.rest]
  unfold Connection.wait_event_for_io
  rw [hhttps]
  split
  · rename_i hsecure
    exact h.tls hsecure
  · rfl

theorem Mirror.modfd_wait (h : Mirror s t) (event : Event) :
    Mirror (s.modfd (s.connection.wait_event_for_io event))
      (t.modfd (t.connection.wait_event_for_io event)) := by
  rw [h.wait_event event]
  exact h.modfd _

theorem Mirror.end_read (h : Mirror s t) (hreading : s.reading = true) (stop : ReadStop) :
    (end_read cfg t stop).2 = (end_read cfg s stop).2 ∧
      Mirror (end_read cfg s stop).1 (end_read cfg t stop).1 ∧
      ((end_read cfg s stop).2 = true →
        (end_read cfg s stop).1.connection.m_has_new_data = true →
          (end_read cfg t stop).1.connection.parser.m_read_buf =
            (end_read cfg s stop).1.connection.parser.m_read_buf) := by
  cases stop with
  | failed => exact ⟨rfl, h, nofun⟩
  | again want =>
    have hblocked := h.would_block want
    have hnew : (t.connection.would_block want).m_has_new_data =
        (s.connection.would_block want).m_has_new_data :=
      congrArg (fun u : Server => u.connection.m_has_new_data) hblocked.rest
    obtain ⟨hp, hbuf⟩ := parsers_of_twin hblocked.parsers.synced hblocked.parsers.host
      hblocked.parsers.listed
    have hsynced := hblocked.set_conn hreading hp (hblocked.arrays.sizes (hblocked.live hreading))
    unfold Runtime.end_read
    dsimp only
    by_cases hdata : (s.connection.would_block want).m_has_new_data = true
    · rw [if_pos hdata, if_pos (hnew.trans hdata)]
      exact ⟨congrArg (· || !cfg.m_TRIGMode) hnew, hsynced.modfd_wait .EPOLLIN, fun _ _ => hbuf⟩
    · rw [if_neg hdata, if_neg (by rw [hnew]; exact hdata)]
      exact ⟨congrArg (· || !cfg.m_TRIGMode) hnew, hblocked.modfd_wait .EPOLLIN,
        fun _ hd => absurd hd hdata⟩

theorem Mirror.end_event (h : Mirror s t) (hreading : s.reading = true) :
    Mirror (end_event s).1 (end_event t).1 ∧
      (end_event t).1.connection.parser.m_read_buf =
        (end_event s).1.connection.parser.m_read_buf := by
  obtain ⟨hp, hbuf⟩ := parsers_of_twin h.parsers.synced h.parsers.host h.parsers.listed
  have hsynced := h.set_conn hreading hp (h.arrays.sizes (h.live hreading))
  exact ⟨hsynced.modfd_wait .EPOLLIN, hbuf⟩

theorem Mirror.stop_reading (h : Mirror s t) (hbuf : s.connection.m_has_new_data = true →
      t.connection.parser.m_read_buf = s.connection.parser.m_read_buf) :
    Mirror { s with reading := false } { t with reading := false } := by
  obtain ⟨x, rfl⟩ := h.is_after
  exact { h with
    rest := rfl
    buffer := fun _ _ _ => hbuf
    live := nofun }

/-! ## `write` -/

theorem Mirror.failed (h : Mirror s t) : Mirror (failed s) (failed t) := by
  obtain ⟨x, rfl⟩ := h.is_after
  exact { h with rest := rfl, buffer := nofun }

theorem Mirror.sent (h : Mirror s t) (hopen : s.connection.is_open = true) :
    Mirror { s with connection := s.connection.sent }
      { t with connection := t.connection.sent } := by
  obtain ⟨x, rfl⟩ := h.is_after
  obtain ⟨⟨j, hj, hcap⟩, ⟨k, hk, hcap'⟩⟩ := h.arrays.grown hopen
  exact { h with
    rest := rfl
    arrays := {
      sizes := h.arrays.sizes
      grown := fun _ => ⟨⟨j, hj, hcap⟩, ⟨k, hk, hcap'⟩⟩
      released := fun hclosed => nomatch hopen.symm.trans hclosed
      written := rfl } }

theorem Mirror.dealwithwrite (h : Mirror s t) (hopen : s.connection.is_open = true) (sent : Sent) :
    Mirror (dealwithwrite cfg sent s) (dealwithwrite cfg sent t) := by
  have hsend : t.connection.bytes_to_send = s.connection.bytes_to_send := by
    rw [h.rest]
    rfl
  have hlinger : t.connection.parser.head.m_linger = s.connection.parser.head.m_linger := by
    rw [h.rest]
  have hwait := h.wait_event .EPOLLIN
  cases hmodel : cfg.m_actormodel with
  | reactor =>
    unfold Runtime.dealwithwrite
    rw [hmodel]
    exact h.append_task
  | proactor =>
  rw [dealwithwrite_proactor hmodel, dealwithwrite_proactor hmodel, hsend, hlinger, hwait]
  split
  · exact (h.modfd _).init hopen
  cases sent with
  | all =>
    have hdone : Mirror (written s) (written t) := by
      unfold written
      rw [hwait]
      exact (h.sent hopen).modfd _
    dsimp only
    split
    · exact hdone.init hopen
    · exact hdone.failed
  | again want => exact (h.would_block want).modfd_wait .EPOLLOUT
  | failed =>
    have hclosed : Mirror
        { s with connection := { s.connection with
          reply := { s.connection.reply with m_file := none } } }
        { t with connection := { t.connection with
          reply := { t.connection.reply with m_file := none } } } := by
      obtain ⟨x, rfl⟩ := h.is_after
      exact { h with rest := rfl, arrays := { h.arrays with } }
    exact hclosed.failed

theorem Mirror.accept (h : Mirror s t) (hclosed : s.connection.is_open = false) (https : Bool)
    (address : Bytes) : Mirror (accept cfg s https address) (accept cfg t https address) := by
  obtain ⟨x, rfl⟩ := h.is_after
  obtain ⟨hread, hread', hwrite, hwrite'⟩ := h.arrays.released hclosed
  exact mirror_init
    (s := Server.modfd { s with connection := { s.connection with
      is_open := true, m_address := address, m_https_enabled := https
      m_tls_want_event := .EPOLLIN } } .EPOLLIN)
    (x := { x with m_tls_want_event := .EPOLLIN }) rfl (.inr ⟨hread, hread'⟩)
    ⟨.inr hwrite, .inr hwrite'⟩ (fun _ => rfl) h.reads h.writes h.processes

/-! ## The steps -/

theorem answer_request_reading (h : answer_request cfg s code = some s') :
    s'.reading = s.reading := by
  unfold answer_request at h
  dsimp only at h
  split at h
  · contradiction
  · cases h
    unfold Runtime.close_conn
    split <;> rfl
  · cases h
    rfl

theorem process_reading (h : process key sha256_hex cfg app a s = some s') :
    s'.reading = s.reading := by
  unfold process at h
  split_ifs at h
  · cases h
    rfl
  · cases h
    rfl
  · rcases hread : process_read key sha256_hex cfg app a s with _ | ⟨s₁, code⟩
    · rw [hread] at h
      contradiction
    rw [hread] at h
    have hframe := (process_read_frame hread).2
    dsimp only at h
    split_ifs at h
    · cases h
      exact hframe
    · exact (answer_request_reading h).trans hframe

theorem dealwithwrite_reading (cfg : Config) (s : Server) (sent : Sent) :
    (dealwithwrite cfg sent s).reading = s.reading := by
  cases hmodel : cfg.m_actormodel with
  | reactor =>
    unfold dealwithwrite
    rw [hmodel]
    rfl
  | proactor =>
    rw [dealwithwrite_proactor hmodel]
    repeat' split
    all_goals rfl

theorem roomed_of_idle (h : s.reading = false) : Roomed cfg s :=
  fun hr => nomatch h.symm.trans hr

variable (cfg)

/-- The other connection can follow the step: where `process_read` is called the two agree, and
a task that runs when the connection is to be closed has the same buffer. -/
structure Follows (s t : Server) (l : Label) : Prop where
  agree : ∀ a u, parse_point s l = some (a, u) → Agree cfg a s t u
  buffer : ∀ a, l = .process a → s.closing = false ∨
    t.connection.parser.m_read_buf = s.connection.parser.m_read_buf

variable {cfg}

theorem of_process_point {P : Answers → Server → Prop}
    (h : ∀ b u, process_point a s = some (b, u) → P b u) (hpoint : process_point a s ≠ none) :
    P a s := by
  apply h
  unfold process_point at hpoint ⊢
  split
  · rename_i hidle
    exact absurd (if_pos hidle) hpoint
  · rfl

variable (key sha256_hex app) in
/-- The other connection takes the step as well, and the two are mirrors again. -/
def Mirrored (cfg : Config) (t : Server) (l : Label) (s' : Server) : Prop :=
  ∃ t', step key sha256_hex cfg app t l = some t' ∧ Mirror s' t' ∧ Roomed cfg s'

section Labels

variable (h : Mirror s t) (hroomed : Roomed cfg s)

include h

theorem Mirror.guards : t.reading = s.reading ∧ t.closing = s.closing ∧
    t.connection.is_open = s.connection.is_open ∧ t.registered = s.registered := by
  rw [h.rest]
  exact ⟨rfl, rfl, rfl, rfl⟩

theorem Mirror.step_accept {https : Bool} {address : Bytes}
    (hstep : step key sha256_hex cfg app s (.accept https address) = some s') :
    Mirrored key sha256_hex app cfg t (.accept https address) s' := by
  unfold Mirrored
  obtain ⟨hreading, hclosing, hopen, -⟩ := h.guards
  simp only [step, ite_none_left_eq_some, Option.some.injEq] at hstep ⊢
  obtain ⟨hguard, rfl⟩ := hstep
  have hclosed : s.connection.is_open = false :=
    Bool.eq_false_iff.mpr fun ho => hguard (.inr (.inr ho))
  rw [hreading, hclosing, hopen]
  refine ⟨_, ⟨hguard, rfl⟩, h.accept hclosed https address, ?_⟩
  exact roomed_of_idle (Bool.eq_false_iff.mpr fun hr => hguard (.inl hr))

include hroomed

theorem Mirror.step_fetch (hstep : step key sha256_hex cfg app s .fetch = some s') :
    Mirrored key sha256_hex app cfg t .fetch s' := by
  unfold Mirrored
  obtain ⟨-, hclosing, -, hregistered⟩ := h.guards
  simp only [step, ite_none_left_eq_some] at hstep ⊢
  obtain ⟨hguard, hstep⟩ := hstep
  rw [hclosing, hregistered]
  obtain ⟨x, rfl⟩ := h.is_after
  split at hstep
  · contradiction
  · cases hstep
    refine ⟨_, ⟨hguard, rfl⟩, ?_, hroomed⟩
    exact { h with rest := rfl, reads := Nat.succ_le_succ h.reads }
  · cases hstep
    refine ⟨_, ⟨hguard, rfl⟩, ?_, hroomed⟩
    exact { h with rest := rfl, writes := Nat.succ_le_succ h.writes }

theorem Mirror.step_read (hstep : step key sha256_hex cfg app s .read = some s') :
    Mirrored key sha256_hex app cfg t .read s' := by
  unfold Mirrored
  obtain ⟨hreading, hclosing, hopen, -⟩ := h.guards
  have hreads := h.reads
  simp only [step, ite_none_left_eq_some, not_or] at hstep ⊢
  obtain ⟨⟨hidle, hstay, hsome⟩, hstep⟩ := hstep
  have hguard : ¬ t.reading = true ∧ ¬ t.closing = true ∧ ¬ t.reads = 0 :=
    ⟨hreading ▸ hidle, hclosing ▸ hstay, by omega⟩
  have htaken : Mirror { s with reads := s.reads - 1 } { t with reads := t.reads - 1 } := by
    obtain ⟨x, rfl⟩ := h.is_after
    exact { h with rest := rfl, reads := Nat.sub_le_sub_right h.reads 1 }
  by_cases ho : s.connection.is_open = true
  · rw [if_pos ho, Option.some.injEq] at hstep
    rw [if_pos (hopen.trans ho)]
    obtain ⟨hmirror, hroom⟩ := htaken.dealwithread hroomed ho
    exact ⟨_, ⟨hguard, rfl⟩, hstep ▸ hmirror, hstep ▸ hroom⟩
  · rw [if_neg ho] at hstep
    cases hstep
    rw [if_neg (hopen ▸ ho)]
    exact ⟨_, ⟨hguard, rfl⟩, htaken, hroomed⟩

omit hroomed in
theorem Mirror.step_recv {p : Bytes} (hstep : step key sha256_hex cfg app s (.recv a p) = some s') :
    Mirrored key sha256_hex app cfg t (.recv a p) s' := by
  unfold Mirrored
  simp only [step, ite_none_left_eq_some, not_or, not_lt] at hstep ⊢
  obtain ⟨⟨hbusy, hne, hsize⟩, hstep⟩ := hstep
  have hr : s.reading = true := (Bool.not_eq_false _).mp hbusy
  obtain ⟨hsize', s₁, t₁, more, hflush, hflush', hflushed, hr'⟩ := h.flush_received hr a hsize
  have hguard : ¬ t.reading = false ∧ ¬ p = [] ∧ p.length ≤ t.connection.recv_size :=
    ⟨h.guards.1 ▸ hbusy, hne, hsize'⟩
  rw [hflush] at hstep
  rw [hflush']
  cases more with
  | true =>
    obtain ⟨hgrown, hroom⟩ : Mirror (Runtime.grow_full cfg s₁) (Runtime.grow_full cfg t₁) ∧
        Roomed cfg (Runtime.grow_full cfg s₁) := hflushed.grow_full hr'
    cases hstep
    exact ⟨_, ⟨hguard, rfl⟩, hgrown, hroom⟩
  | false =>
    cases hstep
    exact ⟨_, ⟨hguard, rfl⟩, hflushed.read_on false, roomed_of_idle rfl⟩

theorem Mirror.step_make_room (hfollows : Follows cfg s t (.make_room a))
    (hstep : step key sha256_hex cfg app s (.make_room a) = some s') :
    Mirrored key sha256_hex app cfg t (.make_room a) s' := by
  unfold Mirrored
  simp only [step, ite_none_left_eq_some, not_or, map_eq_some_iff] at hstep ⊢
  obtain ⟨⟨hbusy, htrig, hfull⟩, ⟨s₁, more⟩, hroom, rfl⟩ := hstep
  have hr : s.reading = true := (Bool.not_eq_false _).mp hbusy
  have ht : cfg.m_TRIGMode = true := (Bool.not_eq_false _).mp htrig
  have hmax := hroomed hr ht (Nat.eq_zero_of_not_pos hfull)
  -- the other ring is as large, so it is full as well
  have hfull' : ¬ t.connection.parser.m_read_ring.writable > 0 := by
    have hsize := h.parsers.size
    obtain ⟨j, k, hjk, hk, hn, hm⟩ := h.arrays.sizes (h.live hr)
    have hle : t.connection.parser.m_read_ring.capacity ≤ READ_BUFFER_MAX_SIZE := by
      rw [hm, READ_BUFFER_MAX_eq]
      exact Nat.mul_le_mul_left _ (Nat.pow_le_pow_right (by decide) hk)
    unfold RingBuf.writable at hfull ⊢
    omega
  obtain ⟨t₁, hroom', h₁, hcapacity⟩ := h.make_room hr hfollows.agree hroom
  refine ⟨_, ⟨⟨h.guards.1 ▸ hbusy, htrig, hfull'⟩, (t₁, more), hroom', rfl⟩, h₁.read_on more, ?_⟩
  apply Roomed.read_on
  intro _ _ _
  exact hcapacity.trans hmax

omit h hroomed in
theorem mirror_read_returns {r r' : Server × Bool} (hsame : r'.2 = r.2)
    (hended : Mirror r.1 r'.1) (hbuf : r.2 = true → r.1.connection.m_has_new_data = true →
      r'.1.connection.parser.m_read_buf = r.1.connection.parser.m_read_buf) :
    Mirror (read_returns r) (read_returns r') ∧ Roomed cfg (read_returns r) := by
  obtain ⟨s₁, more⟩ := r
  obtain ⟨t₁, more'⟩ := r'
  obtain rfl : more' = more := hsame
  cases more' with
  | false => exact ⟨hended.read_on false, roomed_of_idle rfl⟩
  | true => exact ⟨(hended.stop_reading (hbuf rfl)).append_task, roomed_of_idle rfl⟩

omit hroomed in
theorem Mirror.step_last_recv {p : Bytes}
    (hstep : step key sha256_hex cfg app s (.last_recv a p) = some s') :
    Mirrored key sha256_hex app cfg t (.last_recv a p) s' := by
  unfold Mirrored
  simp only [step, ite_none_left_eq_some, not_or, not_lt] at hstep ⊢
  obtain ⟨⟨hbusy, htrig, hne, hsize⟩, hstep⟩ := hstep
  have hr : s.reading = true := (Bool.not_eq_false _).mp hbusy
  obtain ⟨hsize', s₁, t₁, more, hflush, hflush', hflushed, hr'⟩ := h.flush_received hr a hsize
  have hguard : ¬ t.reading = false ∧ ¬ cfg.m_TRIGMode = false ∧ ¬ p = [] ∧
      p.length ≤ t.connection.recv_size :=
    ⟨h.guards.1 ▸ hbusy, htrig, hne, hsize'⟩
  rw [hflush] at hstep
  rw [hflush']
  cases more with
  | true =>
    obtain ⟨hended, hbuf⟩ := hflushed.end_event hr'
    have hboth : (Runtime.end_event t₁).2 = (Runtime.end_event s₁).2 := rfl
    cases hstep
    exact ⟨_, ⟨hguard, rfl⟩, mirror_read_returns hboth hended fun _ _ => hbuf⟩
  | false =>
    cases hstep
    exact ⟨_, ⟨hguard, rfl⟩, hflushed.read_on false, roomed_of_idle rfl⟩

omit hroomed in
theorem Mirror.step_end_read {stop : ReadStop}
    (hstep : step key sha256_hex cfg app s (.end_read stop) = some s') :
    Mirrored key sha256_hex app cfg t (.end_read stop) s' := by
  unfold Mirrored
  simp only [step, ite_none_left_eq_some, not_or, Option.some.injEq] at hstep ⊢
  obtain ⟨⟨hbusy, hfull⟩, rfl⟩ := hstep
  have hr : s.reading = true := (Bool.not_eq_false _).mp hbusy
  have hle := h.parsers.writable_le (h.arrays.sizes (h.live hr))
  have hguard : ¬ t.reading = false ∧
      ¬ (cfg.m_TRIGMode = true ∧ t.connection.parser.m_read_ring.writable = 0) :=
    ⟨h.guards.1 ▸ hbusy, fun hf => hfull ⟨hf.1, by omega⟩⟩
  obtain ⟨hsame, hended, hbuf⟩ := h.end_read hr stop
  exact ⟨_, ⟨hguard, rfl⟩, mirror_read_returns hsame hended hbuf⟩

theorem Mirror.step_process (hfollows : Follows cfg s t (.process a))
    (hstep : step key sha256_hex cfg app s (.process a) = some s') :
    Mirrored key sha256_hex app cfg t (.process a) s' := by
  unfold Mirrored
  obtain ⟨hreading, -, hopen, -⟩ := h.guards
  have hprocesses := h.processes
  simp only [step, ite_none_left_eq_some, not_or] at hstep ⊢
  obtain ⟨⟨hidle, hsome⟩, hstep⟩ := hstep
  have hr : s.reading = false := Bool.eq_false_iff.mpr hidle
  have hguard : ¬ t.reading = true ∧ ¬ t.processes = 0 := ⟨hreading ▸ hidle, by omega⟩
  have htaken : Mirror { s with processes := s.processes - 1 }
      { t with processes := t.processes - 1 } := by
    obtain ⟨x, rfl⟩ := h.is_after
    exact { h with rest := rfl, processes := Nat.sub_le_sub_right h.processes 1 }
  have hagree := hfollows.agree
  unfold parse_point at hagree
  dsimp only at hagree
  by_cases ho : s.connection.is_open = true
  · rw [if_pos ho] at hstep hagree
    rw [if_pos (hopen.trans ho)]
    have hbuf : s.connection.m_has_new_data = true →
        t.connection.parser.m_read_buf = s.connection.parser.m_read_buf := by
      intro hdata
      rcases hfollows.buffer a rfl with hstay | hsame
      · exact h.buffer ho hr hstay hdata
      · exact hsame
    obtain ⟨t', hprocess, hmirror⟩ := htaken.process ho hr hbuf (fun hpoint => by
      obtain ⟨hhost, hversion⟩ := of_process_point (P := fun b u => Agree cfg b s t u) hagree hpoint
      exact ⟨hhost, hversion.imp_right fun hts => by rw [hts]⟩) hstep
    exact ⟨t', ⟨hguard, hprocess⟩, hmirror,
      roomed_of_idle ((process_reading hstep).trans hr)⟩
  · rw [if_neg ho] at hstep
    cases hstep
    rw [if_neg (hopen ▸ ho)]
    exact ⟨_, ⟨hguard, rfl⟩, htaken, hroomed⟩

theorem Mirror.step_write {sent : Sent}
    (hstep : step key sha256_hex cfg app s (.write sent) = some s') :
    Mirrored key sha256_hex app cfg t (.write sent) s' := by
  unfold Mirrored
  obtain ⟨hreading, hclosing, hopen, -⟩ := h.guards
  have hwrites := h.writes
  simp only [step, ite_none_left_eq_some, not_or] at hstep ⊢
  obtain ⟨⟨hidle, hstay, hsome⟩, hstep⟩ := hstep
  have hr : s.reading = false := Bool.eq_false_iff.mpr hidle
  have hguard : ¬ t.reading = true ∧ ¬ t.closing = true ∧ ¬ t.writes = 0 :=
    ⟨hreading ▸ hidle, hclosing ▸ hstay, by omega⟩
  have htaken : Mirror { s with writes := s.writes - 1 } { t with writes := t.writes - 1 } := by
    obtain ⟨x, rfl⟩ := h.is_after
    exact { h with rest := rfl, writes := Nat.sub_le_sub_right h.writes 1 }
  by_cases ho : s.connection.is_open = true
  · rw [if_pos ho] at hstep
    cases hstep
    rw [if_pos (hopen.trans ho)]
    refine ⟨_, ⟨hguard, rfl⟩, htaken.dealwithwrite ho sent, ?_⟩
    exact roomed_of_idle ((dealwithwrite_reading cfg _ sent).trans hr)
  rw [if_neg ho] at hstep
  cases hstep
  rw [if_neg (hopen ▸ ho)]
  exact ⟨_, ⟨hguard, rfl⟩, htaken, hroomed⟩

omit hroomed in
theorem Mirror.step_close (hstep : step key sha256_hex cfg app s .close = some s') :
    Mirrored key sha256_hex app cfg t .close s' := by
  unfold Mirrored
  simp only [step, ite_none_left_eq_some, Option.some.injEq] at hstep ⊢
  obtain ⟨hidle, rfl⟩ := hstep
  have hr : s.reading = false := Bool.eq_false_iff.mpr hidle
  have hcut : Mirror (Runtime.close_conn cfg s) (Runtime.close_conn cfg t) := h.close_conn hr
  have hclosed : ∀ u : Server, (Runtime.close_conn cfg u).connection.is_open = false ∧
      (Runtime.close_conn cfg u).reading = u.reading := by
    intro u
    unfold Runtime.close_conn
    split
    · rename_i ho
      exact ⟨ho, rfl⟩
    · exact ⟨rfl, rfl⟩
  refine ⟨_, ⟨h.guards.1 ▸ hidle, rfl⟩, ?_, roomed_of_idle ((hclosed s).2.trans hr)⟩
  exact { hcut with
    rest := congrArg (fun u : Server => { u with closing := false }) hcut.rest
    buffer := fun ho => absurd ((hclosed s).1.symm.trans ho) (by simp) }

theorem Mirror.step (hfollows : Follows cfg s t l)
    (hstep : step key sha256_hex cfg app s l = some s') :
    Mirrored key sha256_hex app cfg t l s' := by
  cases l with
  | accept https address => exact h.step_accept hstep
  | fetch => exact h.step_fetch hroomed hstep
  | read => exact h.step_read hroomed hstep
  | recv a p => exact h.step_recv hstep
  | last_recv a p => exact h.step_last_recv hstep
  | make_room a => exact h.step_make_room hroomed hfollows hstep
  | end_read stop => exact h.step_end_read hstep
  | process a => exact h.step_process hroomed hfollows hstep
  | write sent => exact h.step_write hroomed hstep
  | close => exact h.step_close hstep
  | others db uploads =>
    simp only [Runtime.step, Option.some.injEq] at hstep ⊢
    obtain ⟨x, rfl⟩ := h.is_after
    subst hstep
    exact ⟨_, rfl, { h with rest := rfl }, hroomed⟩

end Labels

/-! ## Runs -/

variable (cfg)

/-- What is asked of a call of `process_read` on the new connection: `m_host` does not dangle
where a head is read, nor `m_version` when the request is handled. -/
def Stays (a : Answers) (u : Server) : Prop :=
  (u.connection.parser.m_check_state = .CONTENT ∨ u.connection.parser.head.m_host ≠ .freed) ∧
    ((Http.process_read (a.env cfg) u.connection.parser).2 = .do_request →
      (Http.process_read (a.env cfg) u.connection.parser).1.m_version ≠ .freed)

instance (a : Answers) (u : Server) : Decidable (Stays cfg a u) :=
  inferInstanceAs (Decidable (_ ∧ _))

/-- What is asked of its steps: no pointer dangles where it is followed, and no task runs when
the connection is about to be closed. -/
structure Sound (s : Server) (l : Label) : Prop where
  stays : ∀ a u, parse_point s l = some (a, u) → Stays cfg a u
  closing : ∀ a, l = .process a → s.closing = false

variable {cfg}

instance (s : Server) (l : Label) : Decidable (Sound cfg s l) :=
  decidable_of_iff
    (((parse_point s l).all fun p => decide (Stays cfg p.1 p.2)) = true ∧
      (match l with
        | .process _ => !s.closing
        | _ => true) = true) (by
    constructor
    · rintro ⟨hpoint, hclosing⟩
      refine ⟨fun a u hau => ?_, fun a hl => ?_⟩
      · rw [hau] at hpoint
        exact of_decide_eq_true hpoint
      · rw [hl] at hclosing
        exact Bool.not_eq_true' _ ▸ hclosing
    · rintro ⟨hstays, hclosing⟩
      refine ⟨?_, ?_⟩
      · cases hau : parse_point s l with
        | none => rfl
        | some au => exact decide_eq_true (hstays au.1 au.2 hau)
      · cases l with
        | process a => exact (Bool.not_eq_true' _).mpr (hclosing a rfl)
        | _ => rfl)

variable (key sha256_hex app)

end Calls

/-! ## A connection over TLS that has waited -/

/-- A request on a connection that is kept alive. -/
def keep_alive_request : Bytes := lit "GET / HTTP/1.1\r\nHost: a\r\n\r\n"

def one_request : List Label := handle_event keep_alive_request (.works (lit "1"))

abbrev sample : System Server Label := system (id : Bytes → Bytes) id proactor_config no_routes

def after_run (ls : List Label) : Server := (sample.exec empty_start ls).getD empty_start

/-- A request was read, and its response is about to be sent. -/
def about_to_send : Server := after_run (.accept false [] :: one_request ++ [.fetch])

def served : Server := (sample.step about_to_send (.write .all)).getD about_to_send

/-- The connection waits for the socket to become writable, and has nothing to write. -/
structure Stuck (s : Server) : Prop where
  reading : s.reading = false
  reads : s.reads = 0
  processes : s.processes = 0
  handled : s.connection.handled = none
  scheduled : s.connection.scheduled = none
  registered : s.registered ≠ some .EPOLLIN
  tls : s.connection.is_open = true →
    s.connection.m_https_enabled = true ∧ s.connection.m_tls_want_event = .EPOLLOUT

theorem Stuck.step {s' : Server} (h : Stuck s) (hl : ∀ https address, l ≠ .accept https address)
    (hstep : step (id : Bytes → Bytes) id proactor_config no_routes s l = some s') : Stuck s' := by
  cases l with
  | accept https address => exact absurd rfl (hl https address)
  | fetch =>
    simp only [Runtime.step, ite_none_left_eq_some] at hstep
    obtain ⟨-, hstep⟩ := hstep
    split at hstep
    · contradiction
    · rename_i hregistered
      exact absurd hregistered h.registered
    · cases hstep
      exact { h with registered := by simp }
  | read =>
    simp only [Runtime.step, h.reads, or_true, if_true] at hstep
    contradiction
  | process a =>
    simp only [Runtime.step, h.processes, or_true, if_true] at hstep
    contradiction
  | write sent =>
    simp only [Runtime.step, ite_none_left_eq_some] at hstep
    obtain ⟨-, hstep⟩ := hstep
    split at hstep <;> rename_i hopen <;> rw [Option.some.injEq] at hstep <;> subst hstep
    · -- there is nothing to send: `init`, and the same event again
      obtain ⟨hhttps, hwant⟩ := h.tls hopen
      have hzero : s.connection.bytes_to_send = 0 := by
        unfold Connection.bytes_to_send
        rw [h.scheduled]
        rfl
      have hwait : s.connection.wait_event_for_io .EPOLLIN = .EPOLLOUT := by
        unfold Connection.wait_event_for_io
        rw [if_pos hhttps]
        exact hwant
      unfold dealwithwrite write
      dsimp only [proactor_config]
      rw [if_pos hzero, if_pos rfl, hwait]
      exact ⟨h.reading, h.reads, h.processes, rfl, rfl, by rintro ⟨⟩, fun _ => ⟨hhttps, hwant⟩⟩
    · exact { h with }
  | close =>
    simp only [Runtime.step, ite_none_left_eq_some, Option.some.injEq] at hstep
    obtain ⟨-, rfl⟩ := hstep
    unfold close_conn
    split
    · exact { h with }
    · exact { h with scheduled := rfl, registered := by simp, tls := by simp }
  | others db uploads =>
    simp only [Runtime.step] at hstep
    cases hstep
    exact { h with }
  | _ =>
    simp only [Runtime.step, h.reading, true_or, if_true] at hstep
    contradiction

end AtlasWebServer.Runtime
