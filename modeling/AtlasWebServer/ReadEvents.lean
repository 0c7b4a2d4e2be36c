/-
A read event: `read_once` and `read_once_et` of `http/core/io.cpp`, as loops over what `recv`
or `SSL_read` answers.

The outer loop of `read_once_et` makes room in a ring that is full and cannot grow. A head is
parsed, and the body of a spooled request is written to its file. `flush_streamed` writes what
`m_content_length` still asks for, and that can be nothing: a chunked body has no
`m_content_length`, and a body that is complete needs no more. Then the ring stays full and the
loop goes on for ever. `Stalled` is this state, and `read_once_et_returns_iff` says that
there is no other way not to return.
-/
import AtlasWebServer.Looping
import AtlasWebServer.RequestIsolation

set_option autoImplicit false

namespace AtlasWebServer.Runtime

open Bytes CString RingBuffer Http StepSystem Looping

/-! ## What the socket answers -/

/-- `errno`, as far as the loops tell it apart. `EWOULDBLOCK` is `EAGAIN`. -/
inductive Errno
  | EINTR
  | EAGAIN
  | other
  deriving DecidableEq

/-- What `recv` or `SSL_read` does: bytes, the end of the stream, or an error. `want` is what
TLS waits for if it is `EAGAIN`. -/
inductive Recv
  | bytes (b : UInt8) (p : Bytes)
  | closed
  | error (errno : Errno) (want : Event)

/-- The answers of the calls of `recv`, in their order, and of the rest of the environment, one
for each pass of the loop. `stale` is what `errno` happens to be in a pass that does not
call `recv`. -/
structure Socket where
  recv : ℕ → Recv
  answers : ℕ → Answers
  stale : ℕ → Errno

def Socket.Settles (k : Socket) : Prop :=
  ∃ n, ∀ i ≥ n, ∀ want, k.recv i ≠ .error .EINTR want

/-- The local variables of the loops, with the server. `calls` counts the calls of `recv` and
`passes` the passes. -/
structure Reading where
  server : Server
  has_read : Bool
  recvs_this_event : ℕ
  calls : ℕ
  passes : ℕ

/-- What `ring_recv` returns: a positive number, 0, or -1 and `errno`. -/
inductive RecvResult
  | positive
  | zero
  | minus_one (errno : Errno)
  deriving DecidableEq

def ET_READ_EVENT_MAX_RECVS : ℕ := 64

abbrev Reading.parser (l : Reading) : Conn := l.server.connection.parser

/-- `ring_recv`, and `m_has_new_data = true` after bytes. Nothing is read into a full ring, and
`errno` stays what it was. -/
def ring_recv (k : Socket) (l : Reading) : Reading × RecvResult :=
  if l.parser.m_read_ring.size ≥ l.parser.m_read_ring.capacity then
    ({ l with passes := l.passes + 1 }, .minus_one (k.stale l.passes))
  else
    let l' := { l with calls := l.calls + 1, passes := l.passes + 1 }
    match k.recv l.calls with
    | .bytes b p =>
        ({ l' with server := receive l.server ((b :: p).take l.server.connection.recv_size) },
          .positive)
    | .closed => (l', .zero)
    | .error .EAGAIN want =>
        ({ l' with
            server := { l.server with connection := l.server.connection.would_block want } },
          .minus_one .EAGAIN)
    | .error errno _ => (l', .minus_one errno)

variable {K : Type} [DecidableEq K] {key : Bytes → K} {sha256_hex : Bytes → Bytes}

section Events

variable (key sha256_hex) (cfg : Config) (app : Application) (k : Socket)

/-! ## The loops -/

def nothing_more (s : Server) (has_read : Bool) : Server :=
  let c := if has_read then { s.connection with parser := sync_read_buffer s.connection.parser }
    else s.connection
  Server.modfd { s with connection := c } (c.wait_event_for_io .EPOLLIN)

/-- A pass of the loop of `read_once` for a level-triggered socket. -/
def pass_lt (l : Reading) : Option (Server × Bool) ⊕ Reading :=
  match ring_recv k l with
  | (l', .positive) =>
      match flush_streamed cfg (k.answers l.passes) l'.server with
      | (s, true) => .inr { l' with server := s }
      | (s, false) => .inl (some (s, false))
  | (l', .zero) => .inl (some (l'.server, false))
  | (l', .minus_one .EINTR) => .inr l'
  | (l', .minus_one .EAGAIN) =>
      .inl (some (nothing_more l'.server l'.server.connection.m_has_new_data, true))
  | (l', .minus_one .other) => .inl (some (l'.server, false))

/-- The inner loop of `read_once_et`: a pass where the ring has room. -/
def pass_recv (l : Reading) : Option (Server × Bool) ⊕ Reading :=
  match ring_recv k l with
  | (l', .positive) =>
      match flush_streamed cfg (k.answers l.passes) l'.server with
      | (s, true) =>
          if l.recvs_this_event + 1 ≥ ET_READ_EVENT_MAX_RECVS then .inl (some (end_event s))
          else
            .inr { l' with
              server := s
              has_read := true
              recvs_this_event := l.recvs_this_event + 1 }
      | (s, false) => .inl (some (s, false))
  | (l', .zero) => .inl (some (l'.server, false))
  | (l', .minus_one .EINTR) => .inr l'
  | (l', .minus_one .EAGAIN) => .inl (some (nothing_more l'.server l.has_read, l.has_read))
  | (l', .minus_one .other) => .inl (some (l'.server, false))

/-- The outer loop of `read_once_et`: a pass where the ring is full. It grows, or what it holds
is taken out of it. The result is `none` where `process_read` is undefined. -/
def pass_full (l : Reading) : Option (Server × Bool) ⊕ Reading :=
  let l' := { l with passes := l.passes + 1 }
  match ensure_read_capacity l.parser (l.parser.m_read_ring.capacity * 2) with
  | (parser, true) =>
      .inr { l' with
        server := { l.server with connection := { l.server.connection with parser } } }
  | (_, false) =>
      match make_room key sha256_hex cfg app (k.answers l.passes) l.server with
      | none => .inl none
      | some (s, true) => .inr { l' with server := s }
      | some (s, false) => .inl (some (s, false))

def pass_et (l : Reading) : Option (Server × Bool) ⊕ Reading :=
  if l.parser.m_read_ring.writable > 0 then pass_recv cfg k l
  else pass_full key sha256_hex cfg app k l

def read_pass (l : Reading) : Option (Server × Bool) ⊕ Reading :=
  if cfg.m_TRIGMode then pass_et key sha256_hex cfg app k l else pass_lt cfg k l

def enter (s : Server) : Reading where
  server := { s with connection := { s.connection with m_has_new_data := false } }
  has_read := false
  recvs_this_event := 0
  calls := 0
  passes := 0

def ReadOnceEtReturns (s : Server) : Prop :=
  Terminates (pass_et key sha256_hex cfg app k) (enter s)

def ReadOnceReturns (s : Server) (r : Server × Bool) : Prop :=
  match begin_read s with
  | (s, true) => Returns (read_pass key sha256_hex cfg app k) (enter s) (some r)
  | (s, false) => r = (s, false)

end Events

/-- A spooled body, and nothing of it to write. -/
structure Idle (c : Conn) : Prop where
  spooled : c.body.m_stream_body_file.isSome = true
  content : c.m_check_state = .CONTENT
  nothing : c.head.m_content_length ≤ c.body.m_stream_body_bytes_received ∨
    c.m_read_ring.size ≤ c.m_body_start_idx

/-- Such a body, and a full ring that cannot grow. -/
structure Stalled (c : Conn) : Prop extends Idle c where
  full : c.m_read_ring.writable = 0
  largest : READ_BUFFER_MAX_SIZE < c.m_read_ring.capacity * 2

/-! ## The ring -/

theorem flush_streamed_conn (cfg : Config) (a : Answers) (s : Server) :
    (flush_streamed cfg a s).1.connection.parser =
      (flush_streamed_body_from_read_buffer (a.env cfg) s.connection.parser).1 :=
  with_conn_eq s _

theorem new_capacity_loop_ge {required_size new_capacity : ℕ} (fuel : ℕ) :
    ∀ start, new_capacity_loop required_size fuel start = some new_capacity →
      required_size ≤ new_capacity := by
  induction fuel with
  | zero => exact nofun
  | succ fuel ih =>
    intro start h
    unfold new_capacity_loop at h
    dsimp only at h
    split at h
    · split at h
      · contradiction
      · exact ih _ h
    · rename_i hlarge
      rw [Option.some.injEq] at h
      omega

variable {c c' : Conn} {n : ℕ}

theorem ensure_read_capacity_room
    (h : ensure_read_capacity c (c.m_read_ring.capacity * 2) = (c', true)) :
    c'.m_read_ring.writable > 0 := by
  have hsize := c.m_read_ring.size_le
  have hpeek : (c.m_read_ring.peek c.m_read_ring.size).length = c.m_read_ring.size := by
    rw [RingBuf.peek_eq, ← c.m_read_ring.length_contents, List.take_length]
  unfold ensure_read_capacity at h
  dsimp only at h
  generalize hrequired : (if c.m_read_ring.capacity * 2 = 0 then READ_BUFFER_INITIAL_SIZE
    else c.m_read_ring.capacity * 2) = required at h
  have hgrows : c.m_read_ring.capacity < required := by
    have hinitial : 0 < READ_BUFFER_INITIAL_SIZE := by decide
    split at hrequired <;> omega
  split at h
  · cases h
  rw [if_neg (by omega)] at h
  split at h
  · cases h
  rename_i new_capacity hloop
  have hge := new_capacity_loop_ge _ _ hloop
  rw [dif_pos (by omega), Prod.mk.injEq] at h
  rw [← h.1]
  show new_capacity - (c.m_read_ring.peek c.m_read_ring.size).length > 0
  omega

theorem ensure_read_capacity_iff :
    ensure_read_capacity c (c.m_read_ring.capacity * 2) = (c, false) ↔
      READ_BUFFER_MAX_SIZE < c.m_read_ring.capacity * 2 := by
  constructor
  · intro h
    by_contra hsmall
    unfold ensure_read_capacity at h
    by_cases hzero : c.m_read_ring.capacity = 0
    · have hloop : new_capacity_loop READ_BUFFER_INITIAL_SIZE 22 READ_BUFFER_INITIAL_SIZE =
          some READ_BUFFER_INITIAL_SIZE := by
        decide
      rw [hzero, Nat.zero_mul, if_pos rfl] at h
      dsimp only at h
      rw [if_neg (by decide), if_neg (by decide), hloop] at h
      dsimp only at h
      split at h <;> exact absurd (congrArg Prod.snd h) (by simp)
    · have hloop : new_capacity_loop (c.m_read_ring.capacity * 2) 22 c.m_read_ring.capacity =
          some (c.m_read_ring.capacity * 2) := by
        rw [new_capacity_loop, if_pos (by omega)]
        rw [Nat.min_eq_left (by omega), if_neg (by omega), new_capacity_loop, if_neg (by omega)]
      rw [if_neg (show ¬ c.m_read_ring.capacity * 2 = 0 by omega)] at h
      dsimp only at h
      rw [if_neg (by omega), if_neg (by omega), if_neg hzero, hloop] at h
      dsimp only at h
      split at h <;> exact absurd (congrArg Prod.snd h) (by simp)
  · intro h
    have hpos : ¬ c.m_read_ring.capacity * 2 = 0 := by omega
    unfold ensure_read_capacity
    rw [if_neg hpos]
    exact if_pos h

theorem ensure_read_capacity_fails (h : ensure_read_capacity c n = (c', false)) : c' = c := by
  unfold ensure_read_capacity at h
  dsimp only at h
  repeat' split at h
  all_goals
    rw [Prod.mk.injEq] at h
    first
      | exact h.1.symm
      | exact absurd (h.2) (by simp)

theorem Idle.flush (h : Idle c) (env : Env) :
    flush_streamed_body_from_read_buffer env c = (sync_read_buffer c, true) := by
  have hstreaming : ¬ (c.body.m_stream_body_file = none ∨ c.m_check_state ≠ .CONTENT) := by
    rintro (hnone | hstate)
    · exact absurd (congrArg Option.isSome hnone) (by rw [h.spooled]; exact Bool.noConfusion)
    · exact hstate h.content
  have hnothing := h.nothing
  unfold flush_streamed_body_from_read_buffer
  rw [if_neg hstreaming]
  dsimp only [sync_read_buffer, Conn.refill]
  split
  · rfl
  · rw [if_pos]
    split <;> omega

theorem Stalled.synced (h : Stalled c) : Stalled (sync_read_buffer c) :=
  ⟨⟨h.spooled, h.content, h.nothing⟩, h.full, h.largest⟩

theorem flush_empties (env : Env) (hstate : c.m_check_state = .CONTENT)
    (hfile : c.body.m_stream_body_file.isSome = true)
    (hlength : (c.body.m_stream_body_bytes_received : ℤ) < c.head.m_content_length)
    (hstart : c.m_body_start_idx < c.m_read_ring.size)
    (h : flush_streamed_body_from_read_buffer env c = (c', true)) :
    c'.m_read_ring = c.m_read_ring.reset := by
  have hstreaming : ¬ (c.body.m_stream_body_file = none ∨ c.m_check_state ≠ .CONTENT) := by
    rintro (hnone | hne)
    · exact absurd (congrArg Option.isSome hnone) (by rw [hfile]; exact Bool.noConfusion)
    · exact hne hstate
  unfold flush_streamed_body_from_read_buffer at h
  rw [if_neg hstreaming] at h
  dsimp only [sync_read_buffer, Conn.refill] at h
  rw [if_neg (by omega), if_neg (by split <;> omega)] at h
  split at h
  · cases h
  · rw [Prod.mk.injEq] at h
    rw [← h.1]
    rfl

/-! ## The passes -/

section Passes

variable {cfg : Config} {app : Application} {k : Socket} {l l' : Reading}

theorem ring_recv_room (hroom : l.parser.m_read_ring.writable > 0) :
    ¬ l.parser.m_read_ring.size ≥ l.parser.m_read_ring.capacity := by
  unfold RingBuf.writable at hroom
  omega

theorem pass_recv_inr (hroom : l.parser.m_read_ring.writable > 0)
    (h : pass_recv cfg k l = .inr l') :
    l'.calls = l.calls + 1 ∧
      (l'.recvs_this_event = l.recvs_this_event ∧ l'.parser = l.parser ∧
          l'.has_read = l.has_read ∧ (∃ want, k.recv l.calls = .error .EINTR want) ∨
        l'.recvs_this_event = l.recvs_this_event + 1 ∧
          l'.recvs_this_event < ET_READ_EVENT_MAX_RECVS ∧ l'.has_read = true) := by
  unfold pass_recv ring_recv at h
  rw [if_neg (ring_recv_room hroom)] at h
  rcases hrecv : k.recv l.calls with ⟨b, p⟩ | _ | ⟨errno, want⟩
  · rw [hrecv] at h
    dsimp only at h
    split at h
    · split at h
      · contradiction
      rename_i hfew
      rw [Sum.inr.injEq] at h
      subst h
      exact ⟨rfl, .inr ⟨rfl, not_le.mp hfew, rfl⟩⟩
    · contradiction
  · rw [hrecv] at h
    contradiction
  · cases errno with
    | EINTR =>
      rw [hrecv] at h
      rw [Sum.inr.injEq] at h
      subst h
      exact ⟨rfl, .inl ⟨rfl, rfl, rfl, want, rfl⟩⟩
    | _ =>
      rw [hrecv] at h
      contradiction

theorem make_room_eq (a : Answers) (s : Server) :
    make_room key sha256_hex cfg app a s =
      if s.connection.parser.m_check_state ≠ .CONTENT then
        match process_read key sha256_hex cfg app a
            (s.with_conn (sync_read_buffer s.connection.parser)) with
        | none => none
        | some (s, code) => some (s, decide (code = .NO_REQUEST) && s.connection.is_streaming)
      else if s.connection.parser.body.m_stream_body_file.isSome then
        some (flush_streamed cfg a (s.with_conn (sync_read_buffer s.connection.parser)))
      else some (s.with_conn (sync_read_buffer s.connection.parser), false) := by
  unfold make_room
  dsimp only
  rw [with_conn_eq]
  rfl

theorem make_room_more {a : Answers} {s s' : Server}
    (hfull : s.connection.parser.m_read_ring.writable = 0)
    (hlargest : READ_BUFFER_MAX_SIZE < s.connection.parser.m_read_ring.capacity * 2)
    (hstalled : ¬ Stalled s.connection.parser)
    (h : make_room key sha256_hex cfg app a s = some (s', true)) :
    s'.connection.parser.m_read_ring.writable > 0 ∨
      s.connection.parser.m_check_state ≠ .CONTENT ∧
        s'.connection.parser.m_check_state = .CONTENT := by
  rw [make_room_eq] at h
  by_cases hstate : s.connection.parser.m_check_state = .CONTENT
  · left
    rw [if_neg (not_not.mpr hstate)] at h
    split at h
    · rename_i hfile
      rw [Option.some.injEq] at h
      have hparser := flush_streamed_conn cfg a
        (s.with_conn (sync_read_buffer s.connection.parser))
      rw [h, with_conn_eq] at hparser
      have hmore : (flush_streamed_body_from_read_buffer (a.env cfg)
          (sync_read_buffer s.connection.parser)).2 = true := by
        have hsecond := congrArg Prod.snd h
        unfold flush_streamed at hsecond
        rw [with_conn_eq] at hsecond
        exact hsecond
      -- there was something to write, or the connection would be stalled
      have hsome : ¬ (s.connection.parser.head.m_content_length ≤
            s.connection.parser.body.m_stream_body_bytes_received ∨
          s.connection.parser.m_read_ring.size ≤ s.connection.parser.m_body_start_idx) :=
        fun hnothing => hstalled ⟨⟨hfile, hstate, hnothing⟩, hfull, hlargest⟩
      rw [not_or, not_le, not_le] at hsome
      have hempty := flush_empties (a.env cfg) (c := sync_read_buffer s.connection.parser)
        hstate hfile hsome.1 hsome.2 (Prod.ext rfl hmore)
      have hring : s'.connection.parser.m_read_ring = s.connection.parser.m_read_ring.reset :=
        (congrArg Conn.m_read_ring hparser).trans hempty
      rw [hring]
      show s.connection.parser.m_read_ring.capacity - 0 > 0
      omega
    · exact absurd (congrArg (Option.map Prod.snd) h) (by simp)
  · right
    refine ⟨hstate, ?_⟩
    rw [if_pos hstate] at h
    split at h
    · contradiction
    rw [Option.some.injEq, Prod.mk.injEq, Bool.and_eq_true] at h
    obtain ⟨rfl, -, hstreaming⟩ := h
    unfold Connection.is_streaming at hstreaming
    rw [Bool.and_eq_true, decide_eq_true_eq] at hstreaming
    exact hstreaming.2

theorem pass_full_inr (hfull : l.parser.m_read_ring.writable = 0) (hstalled : ¬ Stalled l.parser)
    (h : pass_full key sha256_hex cfg app k l = .inr l') :
    l'.parser.m_read_ring.writable > 0 ∨
      l.parser.m_check_state ≠ .CONTENT ∧ l'.parser.m_check_state = .CONTENT := by
  unfold pass_full at h
  split at h
  · rename_i parser hgrown
    rw [Sum.inr.injEq] at h
    subst h
    exact .inl (ensure_read_capacity_room hgrown)
  rename_i parser hstays
  have hlargest := ensure_read_capacity_iff.mp
    (hstays.trans (by rw [ensure_read_capacity_fails hstays]))
  split at h
  · contradiction
  · rename_i s hroom
    rw [Sum.inr.injEq] at h
    subst h
    exact make_room_more hfull hlargest hstalled hroom
  · contradiction

theorem pass_full_same (h : pass_full key sha256_hex cfg app k l = .inr l') :
    l'.calls = l.calls ∧ l'.recvs_this_event = l.recvs_this_event ∧ l'.has_read = l.has_read := by
  unfold pass_full at h
  split at h
  · rw [Sum.inr.injEq] at h
    subst h
    exact ⟨rfl, rfl, rfl⟩
  split at h
  · contradiction
  · rw [Sum.inr.injEq] at h
    subst h
    exact ⟨rfl, rfl, rfl⟩
  · contradiction

/-! ## `read_once_et` returns -/

/-- How far a ring is from having room: it is full, and perhaps the head is not read yet. -/
def fullness (c : Conn) : ℕ :=
  if c.m_read_ring.writable > 0 then 0 else if c.m_check_state = .CONTENT then 1 else 2

theorem fullness_le (c : Conn) : fullness c ≤ 2 := by
  unfold fullness
  split
  · omega
  · split <;> omega

/-- What a pass that goes on uses up: a `recv` of this event, an `EINTR`, or a way to make
room. -/
def remaining (interrupts : ℕ) (l : Reading) : ℕ :=
  4 * ((ET_READ_EVENT_MAX_RECVS - l.recvs_this_event) + (interrupts - l.calls)) + fullness l.parser

theorem pass_et_remaining (hsettles : ∀ i ≥ n, ∀ want, k.recv i ≠ .error .EINTR want)
    (hrecvs : l.recvs_this_event < ET_READ_EVENT_MAX_RECVS) (hstalled : ¬ Stalled l.parser)
    (h : pass_et key sha256_hex cfg app k l = .inr l') :
    l'.recvs_this_event < ET_READ_EVENT_MAX_RECVS ∧ remaining n l' < remaining n l := by
  have hrank' := fullness_le l'.parser
  unfold remaining
  unfold pass_et at h
  split at h
  · rename_i hroom
    obtain ⟨hcalls, ⟨hsame, hparser, -, want, hinterrupt⟩ | ⟨hmore, hfew, -⟩⟩ :=
      pass_recv_inr hroom h
    · have hbefore : l.calls < n := by
        by_contra hafter
        exact hsettles l.calls (not_lt.mp hafter) want hinterrupt
      exact ⟨hsame ▸ hrecvs, by omega⟩
    · exact ⟨hfew, by omega⟩
  · rename_i hroom
    have hfull := Nat.eq_zero_of_not_pos hroom
    obtain ⟨hcalls, hsame, -⟩ := pass_full_same h
    have hnext := pass_full_inr hfull hstalled h
    refine ⟨hsame ▸ hrecvs, ?_⟩
    have hrank : fullness l'.parser < fullness l.parser := by
      unfold fullness
      rw [if_neg hroom]
      rcases hnext with hroom' | ⟨hhead, hbody⟩
      · rw [if_pos hroom']
        split <;> omega
      · split <;> omega
    omega

theorem pass_et_stalled (h : Stalled l.parser) :
    ∃ l', pass_et key sha256_hex cfg app k l = .inr l' ∧ Stalled l'.parser := by
  have hflush := h.synced.flush ((k.answers l.passes).env cfg)
  have hroom : make_room key sha256_hex cfg app (k.answers l.passes) l.server =
      some (flush_streamed cfg (k.answers l.passes)
        (l.server.with_conn (sync_read_buffer l.parser))) := by
    rw [make_room_eq, if_neg (not_not.mpr h.content), if_pos h.spooled]
  have hpair : flush_streamed cfg (k.answers l.passes)
      (l.server.with_conn (sync_read_buffer l.parser)) =
        ((flush_streamed cfg (k.answers l.passes)
          (l.server.with_conn (sync_read_buffer l.parser))).1, true) := by
    refine Prod.ext rfl ?_
    unfold flush_streamed
    rw [with_conn_eq, hflush]
  rw [hpair] at hroom
  unfold pass_et
  rw [if_neg (by rw [h.full]; exact lt_irrefl 0)]
  unfold pass_full
  rw [ensure_read_capacity_iff.mpr h.largest, hroom]
  refine ⟨_, rfl, ?_⟩
  have hparser := flush_streamed_conn cfg (k.answers l.passes)
    (l.server.with_conn (sync_read_buffer l.parser))
  rw [with_conn_eq, hflush] at hparser
  show Stalled (flush_streamed cfg (k.answers l.passes)
    (l.server.with_conn (sync_read_buffer l.parser))).1.connection.parser
  rw [hparser]
  exact h.synced.synced

variable (key sha256_hex app)

/-- **`read_once_et` returns** unless it comes to a stalled connection, whatever the state it
starts from and whatever the socket answers. -/
theorem read_once_et_returns_iff (hsettles : k.Settles) (s : Server) :
    ReadOnceEtReturns key sha256_hex cfg app k s ↔
      ∀ l, Reaches (pass_et key sha256_hex cfg app k) (enter s) l → ¬ Stalled l.parser := by
  obtain ⟨n, hn⟩ := hsettles
  apply terminates_iff_never (P := fun l => l.recvs_this_event < ET_READ_EVENT_MAX_RECVS)
    (remaining n)
  · intro l l' hrecvs hstalled h
    exact pass_et_remaining hn hrecvs hstalled h
  · intro l h
    exact pass_et_stalled h
  · show 0 < ET_READ_EVENT_MAX_RECVS
    decide

/-! ## A burst -/

/-- A chunked body is spooled, and the ring has one of its sizes. -/
structure Flooded (j : ℕ) (c : Conn) : Prop where
  spooled : c.body.m_stream_body_file.isSome = true
  content : c.m_check_state = .CONTENT
  length : c.head.m_content_length ≤ c.body.m_stream_body_bytes_received
  head : c.m_read_ring.head = 0
  capacity : c.m_read_ring.capacity = READ_BUFFER_INITIAL_SIZE * 2 ^ j

variable {j : ℕ} {b : UInt8} {p : Bytes}

theorem Flooded.fill (h : Flooded j l.parser) (hroom : l.parser.m_read_ring.writable > 0)
    (hrecvs : l.recvs_this_event + 1 < ET_READ_EVENT_MAX_RECVS)
    (hrecv : k.recv l.calls = .bytes b p) (hlong : l.parser.m_read_ring.capacity ≤ p.length) :
    ∃ l', pass_et key sha256_hex cfg app k l = .inr l' ∧ Flooded j l'.parser ∧
      l'.parser.m_read_ring.writable = 0 ∧ l'.recvs_this_event = l.recvs_this_event + 1 := by
  have hsize : l.server.connection.recv_size = l.parser.m_read_ring.writable :=
    receive_ring_size _ h.head
  have htake : ((b :: p).take l.server.connection.recv_size).length =
      l.parser.m_read_ring.writable := by
    rw [List.length_take, hsize, List.length_cons]
    unfold RingBuf.writable
    omega
  generalize htext : (b :: p).take l.server.connection.recv_size = text at htake
  have hidle : Idle (receive l.server text).connection.parser :=
    ⟨h.spooled, h.content, .inl h.length⟩
  have hflush := hidle.flush ((k.answers l.passes).env cfg)
  have hparser := flush_streamed_conn cfg (k.answers l.passes) (receive l.server text)
  have hmore : (flush_streamed cfg (k.answers l.passes) (receive l.server text)).2 = true :=
    congrArg Prod.snd hflush
  rw [hflush] at hparser
  have hpass : pass_et key sha256_hex cfg app k l = .inr { l with
      server := (flush_streamed cfg (k.answers l.passes) (receive l.server text)).1
      has_read := true
      recvs_this_event := l.recvs_this_event + 1
      calls := l.calls + 1
      passes := l.passes + 1 } := by
    unfold pass_et pass_recv ring_recv
    rw [if_pos hroom, if_neg (ring_recv_room hroom), hrecv]
    dsimp only
    rw [htext]
    split
    · rename_i s hs
      rw [if_neg (not_le.mpr hrecvs), hs]
    · rename_i s hs
      rw [hs] at hmore
      contradiction
  refine ⟨_, hpass, ?_, ?_, rfl⟩ <;> dsimp only [Reading.parser] <;> rw [hparser]
  · refine ⟨h.spooled, h.content, h.length, ?_, ?_⟩
    · exact (RingBuf.head_append _ _).trans h.head
    · exact (RingBuf.capacity_append _ _).trans h.capacity
  show (l.parser.m_read_ring.append text).capacity - (l.parser.m_read_ring.append text).size = 0
  rw [RingBuf.capacity_append, RingBuf.size_append _ htake.le, htake]
  unfold RingBuf.writable
  omega

theorem Flooded.grow (h : Flooded j l.parser) (hj : j < 7)
    (hfull : l.parser.m_read_ring.writable = 0) :
    ∃ l', pass_et key sha256_hex cfg app k l = .inr l' ∧ Flooded (j + 1) l'.parser ∧
      l'.parser.m_read_ring.writable > 0 ∧ l'.recvs_this_event = l.recvs_this_event := by
  have hsize : l.parser.m_read_ring.size = l.parser.m_read_ring.capacity := by
    have hle := l.parser.m_read_ring.size_le
    unfold RingBuf.writable at hfull
    omega
  obtain ⟨ring, hgrown, -, hcapacity, hhead⟩ := ensure_read_capacity_double hj h.capacity hsize
  unfold pass_et pass_full
  rw [if_neg (by omega), hgrown]
  refine ⟨_, rfl, ⟨h.spooled, h.content, h.length, hhead, ?_⟩, ?_, rfl⟩
  · rw [Nat.pow_succ, ← Nat.mul_assoc, ← h.capacity]
    exact hcapacity
  · exact ensure_read_capacity_room hgrown

theorem Flooded.stalls (hrecv : ∀ i, k.recv i = .bytes b p)
    (hlong : READ_BUFFER_MAX_SIZE ≤ p.length) (i : ℕ) :
    ∀ {j : ℕ} {l : Reading}, j + i = 7 → Flooded j l.parser →
      l.parser.m_read_ring.writable > 0 → l.recvs_this_event ≤ j →
        ∃ t, Reaches (pass_et key sha256_hex cfg app k) l t ∧ Stalled t.parser := by
  have hmax : ∀ j ≤ 7, READ_BUFFER_INITIAL_SIZE * 2 ^ j ≤ READ_BUFFER_MAX_SIZE := by
    intro j hj
    exact Nat.mul_le_mul_left _ (Nat.pow_le_pow_right (by decide) hj)
  have hfew : 7 + 1 < ET_READ_EVENT_MAX_RECVS := by decide
  -- `i` is how often the ring can still grow
  induction i with
  | zero =>
    intro j l hj h hroom hrecvs
    obtain ⟨l', hpass, h', hfull, -⟩ := h.fill key sha256_hex app hroom (by omega)
      (hrecv l.calls) (h.capacity.trans_le ((hmax j (by omega)).trans hlong))
    refine ⟨l', .single hpass, ⟨h'.spooled, h'.content, .inl h'.length⟩, hfull, ?_⟩
    rw [h'.capacity, READ_BUFFER_MAX_eq, show j = 7 by omega]
    decide
  | succ i ih =>
    intro j l hj h hroom hrecvs
    obtain ⟨l₁, hpass₁, h₁, hfull, hrecvs₁⟩ := h.fill key sha256_hex app hroom (by omega)
      (hrecv l.calls) (h.capacity.trans_le ((hmax j (by omega)).trans hlong))
    obtain ⟨l₂, hpass₂, h₂, hroom₂, hrecvs₂⟩ := h₁.grow key sha256_hex app (by omega) hfull
    obtain ⟨t, ht, hstalled⟩ := ih (show (j + 1) + i = 7 by omega) h₂ hroom₂ (by omega)
    exact ⟨t, .head hpass₁ (.head hpass₂ ht), hstalled⟩

end Passes

def edge_triggered : Config := { proactor_config with m_TRIGMode := true }

def chunked_upload : Bytes := lit
  "POST /x HTTP/1.0\r\nContent-Type: multipart/form-data\r\nTransfer-Encoding: chunked\r\n\r\n"

/-- It was read, and the next read event has been fetched. -/
def uploading : Server :=
  ((system (id : Bytes → Bytes) id edge_triggered no_routes).exec empty_start
    (.accept false [] :: handle_event chunked_upload (.works (lit "1")) ++
      [.fetch])).getD empty_start

theorem init_empty_start (cfg : Config) (app : Application) :
    (system (id : Bytes → Bytes) id cfg app).init empty_start :=
  ⟨_, _, rfl⟩

theorem uploading_reachable :
    (system (id : Bytes → Bytes) id edge_triggered no_routes).Reachable uploading :=
  System.Reachable.of_getD _ (init_empty_start _ _) (by decide +kernel)

theorem uploading_spools :
    uploading.connection.is_open = true ∧ uploading.reads = 1 ∧
      uploading.connection.parser.m_read_ring.writable > 0 ∧
      uploading.connection.parser.body.m_stream_body_file.isSome = true ∧
      uploading.connection.parser.m_check_state = .CONTENT ∧
      uploading.connection.parser.head.m_content_length ≤
        uploading.connection.parser.body.m_stream_body_bytes_received ∧
      uploading.connection.parser.m_read_ring.head = 0 ∧
      uploading.connection.parser.m_read_ring.capacity = READ_BUFFER_INITIAL_SIZE * 2 ^ 0 := by
  decide +kernel

def burst : Socket where
  recv _ := .bytes 0 (List.replicate READ_BUFFER_MAX_SIZE 0)
  answers _ := .works (lit "1")
  stale _ := .EAGAIN

def quiet : Socket where
  recv _ := .error .EAGAIN .EPOLLIN
  answers _ := .works (lit "1")
  stale _ := .EAGAIN

/-- **A chunked upload that comes in a burst** fills the largest ring, and the loop does not
return. -/
theorem chunked_burst_never_returns :
    (system (id : Bytes → Bytes) id edge_triggered no_routes).Reachable uploading ∧
      uploading.connection.is_open = true ∧ uploading.reads = 1 ∧ burst.Settles ∧
      ¬ ReadOnceEtReturns (id : Bytes → Bytes) id edge_triggered no_routes burst uploading := by
  have hsettles : burst.Settles := ⟨0, fun _ _ _ => by rintro ⟨⟩⟩
  refine ⟨uploading_reachable, uploading_spools.1, uploading_spools.2.1, hsettles, ?_⟩
  have hflooded : Flooded 0 (enter uploading).parser := by
    obtain ⟨-, -, -, hspooled, hcontent, hlength, hhead, hcapacity⟩ := uploading_spools
    exact ⟨hspooled, hcontent, hlength, hhead, hcapacity⟩
  have hlong : READ_BUFFER_MAX_SIZE ≤ (List.replicate READ_BUFFER_MAX_SIZE (0 : UInt8)).length :=
    List.length_replicate.ge
  have hstalls : ∃ t, Reaches (pass_et (id : Bytes → Bytes) id edge_triggered no_routes burst)
      (enter uploading) t ∧ Stalled t.parser :=
    hflooded.stalls _ _ _ (fun _ => rfl) hlong 7 rfl uploading_spools.2.2.1 (le_refl 0)
  obtain ⟨t, ht, hstalled⟩ := hstalls
  rintro ⟨r, hr⟩
  exact not_terminates (fun _ hl => pass_et_stalled hl) hstalled ⟨r, ht.same_result.mp hr⟩

/-- A socket that has the first chunk and then no more. -/
def first_chunk : Socket where
  recv n := if n = 0 then .bytes 49 (lit "\r\nZ\r\n") else .error .EAGAIN .EPOLLIN
  answers _ := .works (lit "1")
  stale _ := .EAGAIN

theorem first_chunk_read_returns :
    (∃ l, pass_et (id : Bytes → Bytes) id edge_triggered no_routes first_chunk (enter uploading) =
        .inr l ∧ l.parser.received = lit "1\r\nZ\r\n" ∧ l.calls = 1 ∧
        l.parser.m_read_ring.writable > 0) ∧
      ReadOnceEtReturns (id : Bytes → Bytes) id edge_triggered no_routes first_chunk uploading := by
  have hsettles : first_chunk.Settles := by
    refine ⟨1, fun i hi want => ?_⟩
    have hlater : first_chunk.recv i = .error .EAGAIN .EPOLLIN := if_neg (Nat.ne_of_gt hi)
    rw [hlater]
    rintro ⟨⟩
  have hpass : (pass_et (id : Bytes → Bytes) id edge_triggered no_routes first_chunk
      (enter uploading)).elim (fun _ => false) (fun l => decide (l.parser.received =
        lit "1\r\nZ\r\n" ∧ l.calls = 1 ∧ l.parser.m_read_ring.writable > 0)) = true := by
    decide +kernel
  cases hfirst : pass_et (id : Bytes → Bytes) id edge_triggered no_routes first_chunk
      (enter uploading) with
  | inl r =>
    rw [hfirst] at hpass
    contradiction
  | inr l₁ =>
    rw [hfirst] at hpass
    obtain ⟨hreceived, hcalls, hroom⟩ := of_decide_eq_true hpass
    refine ⟨⟨l₁, rfl, hreceived, hcalls, hroom⟩, ?_⟩
    rw [read_once_et_returns_iff (id : Bytes → Bytes) id no_routes hsettles]
    intro l hl hstalled
    rcases hl.cases_head with rfl | ⟨l', hl', hrest⟩
    · exact absurd hstalled.full uploading_spools.2.2.1.ne'
    obtain rfl : l₁ = l' := Sum.inr.inj (hfirst.symm.trans hl')
    have hsecond : ∃ r, pass_et (id : Bytes → Bytes) id edge_triggered no_routes first_chunk l₁ =
        .inl r := by
      unfold pass_et pass_recv ring_recv
      rw [if_pos hroom, if_neg (ring_recv_room hroom), hcalls]
      exact ⟨_, rfl⟩
    obtain ⟨r, hr⟩ := hsecond
    rw [Reaches.eq_of_inl hrest hr] at hstalled
    exact absurd hstalled.full hroom.ne'

/-! ## When `read_once` returns false -/

/-- The reasons for `read_once` to return false in a pass: the end of the stream, an error of
`ring_recv`, a body that cannot be spooled, a full ring that cannot grow. -/
inductive Failure (cfg : Config) (k : Socket) (l : Reading) : Prop
  | closed (hcall : cfg.m_TRIGMode = false ∨ l.parser.m_read_ring.writable > 0)
      (h : (ring_recv k l).2 = .zero)
  | error (hcall : cfg.m_TRIGMode = false ∨ l.parser.m_read_ring.writable > 0)
      (h : (ring_recv k l).2 = .minus_one .other)
  | spooling (hcall : cfg.m_TRIGMode = false ∨ l.parser.m_read_ring.writable > 0)
      (h : (ring_recv k l).2 = .positive)
      (hflush : (flush_streamed cfg (k.answers l.passes) (ring_recv k l).1.server).2 = false)
  | too_large (hfull : l.parser.m_read_ring.writable = 0)
      (hmax : READ_BUFFER_MAX_SIZE < l.parser.m_read_ring.capacity * 2)

/-- The socket has nothing to read, perhaps after some calls that were interrupted. -/
def Socket.BlocksFirst (k : Socket) : Prop :=
  ∃ n want, k.recv n = .error .EAGAIN want ∧ ∀ i < n, ∃ want, k.recv i = .error .EINTR want

section Returns

variable {cfg : Config} {app : Application} {k : Socket} {l l' : Reading} {s s' : Server}

theorem pass_lt_false (htrig : cfg.m_TRIGMode = false)
    (h : pass_lt cfg k l = .inl (some (s', false))) :
    Failure cfg k l := by
  rcases houtcome : ring_recv k l with ⟨l', _ | _ | errno⟩
  · unfold pass_lt at h
    rw [houtcome] at h
    dsimp only at h
    split at h
    · contradiction
    rename_i t hflush
    refine .spooling (.inl htrig) (congrArg Prod.snd houtcome) ?_
    rw [houtcome]
    exact congrArg Prod.snd hflush
  · exact .closed (.inl htrig) (congrArg Prod.snd houtcome)
  · unfold pass_lt at h
    rw [houtcome] at h
    cases errno with
    | EINTR => contradiction
    | EAGAIN => simp at h
    | other => exact .error (.inl htrig) (congrArg Prod.snd houtcome)

theorem pass_et_false (h : pass_et key sha256_hex cfg app k l = .inl (some (s', false))) :
    Failure cfg k l ∨ l.has_read = false ∧ ∃ want, k.recv l.calls = .error .EAGAIN want := by
  unfold pass_et at h
  split at h
  · rename_i hroom
    rcases houtcome : ring_recv k l with ⟨l', _ | _ | errno⟩
    · unfold pass_recv at h
      rw [houtcome] at h
      dsimp only at h
      split at h
      · split at h
        · simp [end_event] at h
        · contradiction
      rename_i t hflush
      refine .inl (.spooling (.inr hroom) (congrArg Prod.snd houtcome) ?_)
      rw [houtcome]
      exact congrArg Prod.snd hflush
    · exact .inl (.closed (.inr hroom) (congrArg Prod.snd houtcome))
    · cases errno with
      | EINTR =>
        unfold pass_recv at h
        rw [houtcome] at h
        contradiction
      | EAGAIN =>
        right
        unfold pass_recv at h
        rw [houtcome] at h
        simp only [Sum.inl.injEq, Option.some.injEq, Prod.mk.injEq] at h
        refine ⟨h.2, ?_⟩
        unfold ring_recv at houtcome
        rw [if_neg (ring_recv_room hroom)] at houtcome
        rcases hrecv : k.recv l.calls with ⟨b, p⟩ | _ | ⟨errno, want⟩
        · rw [hrecv] at houtcome
          exact absurd (congrArg Prod.snd houtcome) (by simp)
        · rw [hrecv] at houtcome
          exact absurd (congrArg Prod.snd houtcome) (by simp)
        · rw [hrecv] at houtcome
          cases errno with
          | EAGAIN => exact ⟨want, rfl⟩
          | _ => exact absurd (congrArg Prod.snd houtcome) (by simp)
      | other => exact .inl (.error (.inr hroom) (congrArg Prod.snd houtcome))
  · rename_i hroom
    left
    unfold pass_full at h
    split at h
    · contradiction
    · rename_i parser hstays
      rw [ensure_read_capacity_fails hstays] at hstays
      exact .too_large (Nat.eq_zero_of_not_pos hroom) (ensure_read_capacity_iff.mp hstays)

/-- Without bytes so far, every call was interrupted. -/
def OnlyInterrupts (k : Socket) (l : Reading) : Prop :=
  l.has_read = false → ∀ i < l.calls, ∃ want, k.recv i = .error .EINTR want

theorem OnlyInterrupts.pass (h : OnlyInterrupts k l)
    (hpass : pass_et key sha256_hex cfg app k l = .inr l') : OnlyInterrupts k l' := by
  unfold pass_et at hpass
  split at hpass
  · rename_i hroom
    obtain ⟨hcalls, ⟨-, -, hread, hinterrupt⟩ | ⟨-, -, hread⟩⟩ := pass_recv_inr hroom hpass
    · intro hno i hi
      rw [hcalls, Nat.lt_succ_iff_lt_or_eq] at hi
      rcases hi with hi | rfl
      · exact h (hread ▸ hno) i hi
      · exact hinterrupt
    · intro hno
      exact nomatch hread.symm.trans hno
  · obtain ⟨hcalls, -, hread⟩ := pass_full_same hpass
    unfold OnlyInterrupts
    rw [hcalls, hread]
    exact h

theorem ring_recv_error {errno : Errno} {want : Event}
    (hroom : l.parser.m_read_ring.writable > 0) (hrecv : k.recv l.calls = .error errno want) :
    (ring_recv k l).2 = .minus_one errno := by
  unfold ring_recv
  rw [if_neg (ring_recv_room hroom), hrecv]
  cases errno <;> rfl

/-- Nothing was read yet, and there is room. -/
structure Unread (n : ℕ) (l : Reading) : Prop where
  calls : l.calls ≤ n
  room : l.parser.m_read_ring.writable > 0
  has_read : l.has_read = false

section Blocked

variable {n : ℕ} {want : Event} (hblock : k.recv n = .error .EAGAIN want)
  (hbefore : ∀ i < n, ∃ want, k.recv i = .error .EINTR want)

include hblock hbefore

theorem Unread.not_failure (h : Unread n l) : ¬ Failure cfg k l := by
  have houtcome : (ring_recv k l).2 = .minus_one .EINTR ∨
    (ring_recv k l).2 = .minus_one .EAGAIN := by
    rcases h.calls.lt_or_eq with hlt | heq
    · obtain ⟨want', hrecv⟩ := hbefore l.calls hlt
      exact .inl (ring_recv_error h.room hrecv)
    · exact .inr (ring_recv_error h.room (heq ▸ hblock))
  rintro (⟨-, hzero⟩ | ⟨-, hother⟩ | ⟨-, hpositive, -⟩ | ⟨hfull, -⟩)
  · rcases houtcome with h | h <;> exact absurd (h.symm.trans hzero) (by simp)
  · rcases houtcome with h | h <;> exact absurd (h.symm.trans hother) (by simp)
  · rcases houtcome with h | h <;> exact absurd (h.symm.trans hpositive) (by simp)
  · exact absurd hfull h.room.ne'

theorem Unread.pass (h : Unread n l) :
    (l.calls < n ∧ pass_et key sha256_hex cfg app k l =
        .inr { l with calls := l.calls + 1, passes := l.passes + 1 }) ∨
      ∃ s', pass_et key sha256_hex cfg app k l = .inl (some (s', false)) := by
  unfold pass_et pass_recv ring_recv
  rw [if_pos h.room, if_neg (ring_recv_room h.room)]
  rcases h.calls.lt_or_eq with hlt | heq
  · obtain ⟨want', hrecv⟩ := hbefore l.calls hlt
    rw [hrecv]
    exact .inl ⟨hlt, rfl⟩
  · rw [heq, hblock, h.has_read]
    exact .inr ⟨_, rfl⟩

theorem Unread.next (h : Unread n l) (hpass : pass_et key sha256_hex cfg app k l = .inr l') :
    Unread n l' ∧ l'.calls = l.calls + 1 := by
  have hcases : (l.calls < n ∧ pass_et key sha256_hex cfg app k l = _) ∨ _ :=
    h.pass hblock hbefore
  rcases hcases with ⟨hlt, hinr⟩ | ⟨s', hinl⟩
  · rw [hinr, Sum.inr.injEq] at hpass
    subst hpass
    exact ⟨⟨hlt, h.room, h.has_read⟩, rfl⟩
  · exact absurd (hinl.symm.trans hpass) (by simp)

variable (key sha256_hex app) in
theorem Unread.returns (h : Unread n l) :
    (∃ s', Returns (pass_et key sha256_hex cfg app k) l (some (s', false))) ∧
      ∀ t, Reaches (pass_et key sha256_hex cfg app k) l t → ¬ Failure cfg k t := by
  have hinv : ∀ t, Reaches (pass_et key sha256_hex cfg app k) l t → Unread n t := by
    intro t ht
    exact ht.invariant (fun _ _ hu hpass => (hu.next hblock hbefore hpass).1) h
  have hterminates : Terminates (pass_et key sha256_hex cfg app k) l := by
    apply terminates_of_measure (P := Unread n) (B := fun _ => False) (fun t => n - t.calls) _ h
    · exact fun _ _ => id
    intro t t' hu _ hpass
    obtain ⟨hu', hcalls⟩ := hu.next hblock hbefore hpass
    have hle := hu'.calls
    exact ⟨hu', by omega⟩
  obtain ⟨r, hr⟩ := hterminates
  obtain ⟨t, ht, hinl⟩ := returns_iff.mp hr
  refine ⟨?_, fun t ht => (hinv t ht).not_failure hblock hbefore⟩
  have hcases : (t.calls < n ∧ pass_et key sha256_hex cfg app k t = _) ∨ _ :=
    (hinv t ht).pass hblock hbefore
  rcases hcases with ⟨-, hinr⟩ | ⟨s', hfalse⟩
  · exact absurd (hinr.symm.trans hinl) (by simp)
  · exact ⟨s', returns_iff.mpr ⟨t, ht, hfalse⟩⟩

end Blocked

theorem read_once_room (hroom : s.connection.parser.m_read_ring.writable > 0) (r : Server × Bool) :
    ReadOnceReturns key sha256_hex cfg app k s r ↔
      Returns (read_pass key sha256_hex cfg app k) (enter s) (some r) := by
  have hbegin : begin_read s =
      ({ s with connection := { s.connection with m_has_new_data := false } }, true) := by
    exact if_pos hroom
  unfold ReadOnceReturns
  rw [hbegin]
  rfl

variable (key sha256_hex app) in
/-- **A read without data is not an error, except for an edge-triggered socket** that blocks
before it has read anything: there `read_once` returns false, and in all other cases it does
so only for a reason. -/
theorem read_once_fails_only_iff (hroom : s.connection.parser.m_read_ring.writable > 0) :
    (∀ s', ReadOnceReturns key sha256_hex cfg app k s (s', false) →
        ∃ l, Reaches (read_pass key sha256_hex cfg app k) (enter s) l ∧ Failure cfg k l) ↔
      ¬ (cfg.m_TRIGMode = true ∧ k.BlocksFirst) := by
  simp only [read_once_room hroom]
  cases htrig : cfg.m_TRIGMode with
  | false =>
    have hpass : read_pass key sha256_hex cfg app k = pass_lt cfg k := by
      funext l
      unfold read_pass
      rw [htrig]
      rfl
    rw [hpass]
    refine iff_of_true ?_ (fun hc => absurd hc.1 (by simp))
    intro s' hs'
    obtain ⟨t, ht, hinl⟩ := returns_iff.mp hs'
    exact ⟨t, ht, pass_lt_false htrig hinl⟩
  | true =>
    have hpass : read_pass key sha256_hex cfg app k = pass_et key sha256_hex cfg app k := by
      funext l
      unfold read_pass
      rw [htrig]
      rfl
    rw [hpass]
    constructor
    · rintro hreason ⟨-, n, want, hblock, hbefore⟩
      have hunread : Unread n (enter s) := ⟨Nat.zero_le n, hroom, rfl⟩
      obtain ⟨⟨s', hs'⟩, hnone⟩ := hunread.returns key sha256_hex app hblock hbefore
      obtain ⟨l, hl, hfailure⟩ := hreason s' hs'
      exact hnone l hl hfailure
    intro hblocks s' hs'
    obtain ⟨t, ht, hinl⟩ := returns_iff.mp hs'
    rcases pass_et_false hinl with hfailure | ⟨hread, want, hagain⟩
    · exact ⟨t, ht, hfailure⟩
    have honly : OnlyInterrupts k t :=
      ht.invariant (fun _ _ h hpass => h.pass hpass)
        (fun _ i hi => absurd hi (Nat.not_lt_zero i))
    exact absurd ⟨rfl, t.calls, want, hagain, honly hread⟩ hblocks

end Returns

/-- A level-triggered socket without data. -/
theorem quiet_level_triggered_read :
    uploading.connection.parser.m_read_ring.writable > 0 ∧
      ∀ s', ReadOnceReturns (id : Bytes → Bytes) id proactor_config no_routes quiet uploading
          (s', false) →
        ∃ l, Reaches (read_pass (id : Bytes → Bytes) id proactor_config no_routes quiet)
          (enter uploading) l ∧ Failure proactor_config quiet l :=
  ⟨uploading_spools.2.2.1,
    (read_once_fails_only_iff (id : Bytes → Bytes) id no_routes uploading_spools.2.2.1).mpr
      (fun hc => by cases hc.1)⟩

def secured : Server :=
  ((system (id : Bytes → Bytes) id edge_triggered no_routes).exec empty_start
    [.accept true [], .fetch]).getD empty_start

/-- **A TLS record that has come only in part** makes `SSL_read` wait for more. The
edge-triggered loop returns false for it, without a reason to, and the level-triggered one
does not. -/
theorem partial_record_not_read :
    (system (id : Bytes → Bytes) id edge_triggered no_routes).Reachable secured ∧
      secured.connection.is_open = true ∧ secured.connection.m_https_enabled = true ∧
      secured.connection.parser.m_read_ring.writable > 0 ∧
      (∃ s', ReadOnceReturns (id : Bytes → Bytes) id edge_triggered no_routes quiet secured
        (s', false)) ∧
      (∀ l, Reaches (read_pass (id : Bytes → Bytes) id edge_triggered no_routes quiet)
        (enter secured) l → ¬ Failure edge_triggered quiet l) ∧
      ∃ s', ReadOnceReturns (id : Bytes → Bytes) id proactor_config no_routes quiet secured
        (s', true) := by
  have hroom : secured.connection.parser.m_read_ring.writable > 0 := by decide +kernel
  have hunread : Unread 0 (enter secured) := ⟨le_refl 0, hroom, rfl⟩
  have hblock : quiet.recv 0 = .error .EAGAIN .EPOLLIN := rfl
  have hbefore : ∀ i < 0, ∃ want, quiet.recv i = .error .EINTR want :=
    fun i hi => absurd hi (Nat.not_lt_zero i)
  have hreturns : (∃ s', Returns (pass_et (id : Bytes → Bytes) id edge_triggered no_routes quiet)
      (enter secured) (some (s', false))) ∧ _ :=
    hunread.returns _ _ _ hblock hbefore
  refine ⟨System.Reachable.of_getD _ (init_empty_start _ _) (by decide +kernel), by decide +kernel,
    by decide +kernel, hroom, ?_, hreturns.2, ?_⟩
  · obtain ⟨s', hs'⟩ := hreturns.1
    exact ⟨s', (read_once_room hroom _).mpr hs'⟩
  have hpass : ∃ s', read_pass (id : Bytes → Bytes) id proactor_config no_routes quiet
      (enter secured) = .inl (some (s', true)) := by
    show ∃ s', pass_lt proactor_config quiet (enter secured) = .inl (some (s', true))
    unfold pass_lt ring_recv
    exact ⟨_, rfl⟩
  obtain ⟨s', hs'⟩ := hpass
  exact ⟨s', (read_once_room hroom _).mpr (returns_inl hs')⟩

end AtlasWebServer.Runtime
