/-
Reads: bytes are appended to the read ring, the ring is copied to `m_read_buf`, and
`process_read` runs. A ring that gets full is replaced by one of twice its size, as
`read_once_et` does it, and then `m_read_buf` has moved.

`deliver` is one read and `drive` a list of them, up to the first result that is not
`NO_REQUEST`.
-/
import AtlasWebServer.HttpHead

set_option autoImplicit false

namespace AtlasWebServer.Http

open Bytes CString RingBuffer List

variable {c c' : Conn} {p : Bytes}

/-! ## Bytes into the ring -/

/-- The receiving loop of `read_once_et`: what fits is copied, and a full ring grows.
`none` is a ring that cannot. Every pass takes a byte. -/
def receive_loop : ℕ → Conn → Bytes → Option Conn
  | _, c, [] => some c
  | 0, _, _ :: _ => none
  | fuel + 1, c, b :: p =>
      let n := min c.m_read_ring.writable (b :: p).length
      let c := { c with m_read_ring := c.m_read_ring.append ((b :: p).take n) }
      if c.m_read_ring.writable = 0 then
        match ensure_read_capacity c (c.m_read_ring.capacity * 2) with
        | (c, true) => receive_loop fuel c ((b :: p).drop n)
        | (_, false) => none
      else receive_loop fuel c ((b :: p).drop n)

def receive (c : Conn) (p : Bytes) : Option Conn := receive_loop p.length c p

def deliver (env : Env) (c : Conn) (p : Bytes) : Result :=
  match receive c p with
  | none => (c, .closed)
  | some c => process_read env (sync_read_buffer c)

def drive (env : Env) (c : Conn) : List Bytes → Result
  | [] => (c, .code .NO_REQUEST)
  | p :: ps =>
      match deliver env c p with
      | (c, .code .NO_REQUEST) => drive env c ps
      | r => r

theorem drive_more {env : Env} (ps : List Bytes) (h : (deliver env c p).2 = .code .NO_REQUEST) :
    drive env c (p :: ps) = drive env (deliver env c p).1 ps := by
  rw [drive]
  split
  · rename_i heq
    rw [heq]
  · rename_i hne
    have heq : deliver env c p = ((deliver env c p).1, .code .NO_REQUEST) := Prod.ext rfl h
    exact absurd heq (hne _)

theorem drive_stop {env : Env} (ps : List Bytes) (h : (deliver env c p).2 ≠ .code .NO_REQUEST) :
    drive env c (p :: ps) = deliver env c p := by
  rw [drive]
  split
  · rename_i heq
    rw [heq] at h
    exact absurd rfl h
  · rfl

/-! ## The ring's size -/

/-- The ring has room, and its size is one that doubling gives. -/
structure Roomy (c : Conn) : Prop where
  size : ∃ k ≤ 7, c.m_read_ring.capacity = READ_BUFFER_INITIAL_SIZE * 2 ^ k
  room : c.m_read_ring.size < c.m_read_ring.capacity

/-- The ring is no larger than what it holds has made it. -/
def Tight (c : Conn) : Prop :=
  ∃ k, c.m_read_ring.capacity = READ_BUFFER_INITIAL_SIZE * 2 ^ k ∧
    (k = 0 ∨ READ_BUFFER_INITIAL_SIZE * 2 ^ (k - 1) ≤ c.m_read_ring.size)

theorem length_received (c : Conn) : c.received.length = c.m_read_ring.size :=
  c.m_read_ring.length_contents

theorem READ_BUFFER_MAX_eq : READ_BUFFER_MAX_SIZE = READ_BUFFER_INITIAL_SIZE * 2 ^ 7 := by decide

theorem moved_moved (p : HostPtr) : p.moved.moved = p.moved := by
  cases p <;> rfl

theorem ensure_read_capacity_double {k : ℕ} (hk : k < 7)
    (hcap : c.m_read_ring.capacity = READ_BUFFER_INITIAL_SIZE * 2 ^ k)
    (hfull : c.m_read_ring.size = c.m_read_ring.capacity) :
    ∃ ring : RingBuf UInt8,
      ensure_read_capacity c (c.m_read_ring.capacity * 2) = ({ c with
        m_read_ring := ring
        m_read_buf := c.received ++ [0]
        m_version := c.m_version.moved
        head := { c.head with m_host := c.head.m_host.moved } }, true) ∧
      ring.contents = c.received ∧ ring.capacity = c.m_read_ring.capacity * 2 ∧ ring.head = 0 := by
  have hpos : 0 < c.m_read_ring.capacity := by
    rw [hcap]
    exact Nat.mul_pos (by decide) (Nat.two_pow_pos k)
  have hmax : c.m_read_ring.capacity * 2 ≤ READ_BUFFER_MAX_SIZE := by
    rw [hcap, READ_BUFFER_MAX_eq, Nat.mul_assoc, ← Nat.pow_succ]
    exact Nat.mul_le_mul_left _ (Nat.pow_le_pow_right (by decide) (by omega))
  have hloop : new_capacity_loop (c.m_read_ring.capacity * 2) 22 c.m_read_ring.capacity
      = some (c.m_read_ring.capacity * 2) := by
    rw [new_capacity_loop, if_pos (by omega)]
    rw [Nat.min_eq_left hmax, if_neg (by omega), new_capacity_loop, if_neg (by omega)]
  have hpeek : c.m_read_ring.peek c.m_read_ring.size = c.received := by
    rw [RingBuf.peek_eq, ← c.m_read_ring.length_contents, take_length]
    rfl
  have hlt : c.received.length < c.m_read_ring.capacity * 2 := by
    rw [length_received]
    omega
  refine ⟨RingBuf.ofList 0 c.received (c.m_read_ring.capacity * 2) hlt, ?_,
    RingBuf.contents_ofList _ _ _ _, rfl, rfl⟩
  unfold ensure_read_capacity
  simp only [hpeek]
  rw [if_neg (show ¬ c.m_read_ring.capacity * 2 = 0 by omega),
    if_neg (show ¬ c.m_read_ring.capacity * 2 > READ_BUFFER_MAX_SIZE by omega),
    if_neg (show ¬ c.m_read_ring.capacity ≥ c.m_read_ring.capacity * 2 by omega),
    if_neg (show ¬ c.m_read_ring.capacity = 0 by omega), hloop]
  dsimp only
  rw [dif_pos hlt]

/-- What a read does before `process_read`. `m_host` dangles if the ring has grown. -/
structure Received (c c' : Conn) (p : Bytes) : Prop where
  received : c'.received = c.received ++ p
  roomy : Roomy c'
  tight : Tight c → Tight c'
  capacity : c.m_read_ring.size + p.length < c.m_read_ring.capacity →
    c'.m_read_ring.capacity = c.m_read_ring.capacity
  rest : c' = { c with
    m_read_ring := c'.m_read_ring
    m_read_buf := c'.m_read_buf
    m_version := c'.m_version
    head := { c.head with
      m_host := if c.m_read_ring.size + p.length < c.m_read_ring.capacity then c.head.m_host
        else c.head.m_host.moved } }

theorem Received.nil (hroom : Roomy c) : Received c c [] := by
  refine ⟨(append_nil _).symm, hroom, id, fun _ => rfl, ?_⟩
  rw [length_nil, Nat.add_zero, if_pos hroom.room]

theorem Received.of_fits (hroom : Roomy c)
    (hfits : c.m_read_ring.size + p.length < c.m_read_ring.capacity) :
    Received c { c with m_read_ring := c.m_read_ring.append p } p := by
  have hw : p.length ≤ c.m_read_ring.writable := by
    unfold RingBuf.writable
    omega
  refine ⟨RingBuf.contents_append _ hw, ⟨?_, ?_⟩, ?_, fun _ => RingBuf.capacity_append _ _, ?_⟩
  · rw [RingBuf.capacity_append]
    exact hroom.size
  · rw [RingBuf.capacity_append, RingBuf.size_append _ hw]
    exact hfits
  · rintro ⟨k, hk, hsize⟩
    refine ⟨k, (RingBuf.capacity_append _ _).trans hk, hsize.imp id fun h => ?_⟩
    rw [RingBuf.size_append _ hw]
    omega
  · rw [if_pos hfits]

theorem ensure_read_capacity_max (hcap : c.m_read_ring.capacity = READ_BUFFER_MAX_SIZE) :
    ensure_read_capacity c (c.m_read_ring.capacity * 2) = (c, false) := by
  unfold ensure_read_capacity
  rw [hcap, if_pos (by decide)]

theorem Roomy.capacity_le (h : Roomy c) : c.m_read_ring.capacity ≤ READ_BUFFER_MAX_SIZE := by
  obtain ⟨k, hk7, hk⟩ := h.size
  rw [hk, READ_BUFFER_MAX_eq]
  exact Nat.mul_le_mul_left _ (Nat.pow_le_pow_right (by decide) hk7)

theorem receive_loop_spec (fuel : ℕ) (c : Conn) (p : Bytes) (hfuel : p.length ≤ fuel)
    (hroom : Roomy c) :
    (c.m_read_ring.size + p.length < READ_BUFFER_MAX_SIZE →
        ∃ c', receive_loop fuel c p = some c' ∧ Received c c' p) ∧
      (READ_BUFFER_MAX_SIZE ≤ c.m_read_ring.size + p.length → receive_loop fuel c p = none) := by
  have hsize := hroom.room
  have hle := hroom.capacity_le
  induction fuel generalizing c p with
  | zero =>
    obtain rfl : p = [] := eq_nil_of_length_eq_zero (by omega)
    exact ⟨fun _ => ⟨c, rfl, .nil hroom⟩, fun hmax => absurd hmax (by rw [length_nil]; omega)⟩
  | succ fuel ih =>
    cases p with
    | nil => exact ⟨fun _ => ⟨c, by rw [receive_loop], .nil hroom⟩,
        fun hmax => absurd hmax (by rw [length_nil]; omega)⟩
    | cons b p =>
      rw [receive_loop]
      by_cases hfits : c.m_read_ring.size + (b :: p).length < c.m_read_ring.capacity
      · have hmin : min c.m_read_ring.writable (b :: p).length = (b :: p).length := by
          unfold RingBuf.writable
          omega
        have hspec := Received.of_fits hroom hfits
        have hw : ¬ (c.m_read_ring.append (b :: p)).writable = 0 := by
          have := hspec.roomy.room
          unfold RingBuf.writable
          dsimp only at this
          omega
        rw [hmin, take_length, if_neg hw, drop_length]
        exact ⟨fun _ => ⟨_, by rw [receive_loop], hspec⟩, fun hmax => absurd hmax (by omega)⟩
      · -- the ring gets full and grows, if it is not the largest
        obtain ⟨n, hn⟩ : ∃ n, n = c.m_read_ring.capacity - c.m_read_ring.size := ⟨_, rfl⟩
        have hmin : min c.m_read_ring.writable (b :: p).length = n := by
          unfold RingBuf.writable
          omega
        obtain ⟨q, hq⟩ : ∃ q, q = b :: p := ⟨_, rfl⟩
        rw [hmin, ← hq]
        rw [← hq] at hfits hfuel
        have hqn : (q.take n).length = n := by
          rw [length_take]
          omega
        have hw : (q.take n).length ≤ c.m_read_ring.writable := by
          omega
        have hfull : (c.m_read_ring.append (q.take n)).size = c.m_read_ring.capacity := by
          rw [RingBuf.size_append _ hw]
          omega
        have hzero : (c.m_read_ring.append (q.take n)).writable = 0 := by
          unfold RingBuf.writable
          rw [RingBuf.capacity_append, hfull]
          omega
        rw [if_pos hzero]
        obtain ⟨k, hk7, hk⟩ := hroom.size
        -- the ring has one of eight sizes; only the largest does not grow
        by_cases hk6 : k < 7
        · obtain ⟨ring, hensure, hcontents, hcap, -⟩ := ensure_read_capacity_double
            (c := { c with m_read_ring := c.m_read_ring.append (q.take n) }) hk6
            ((RingBuf.capacity_append _ _).trans hk)
            (hfull.trans (RingBuf.capacity_append _ _).symm)
          rw [hensure]
          rw [RingBuf.capacity_append] at hcap
          have hreceived : ring.contents = c.received ++ q.take n :=
            hcontents.trans (RingBuf.contents_append _ hw)
          have hringsize : ring.size = c.m_read_ring.capacity := by
            rw [← RingBuf.length_contents, hreceived, length_append, length_received, hqn]
            omega
          obtain ⟨c₁, hc₁⟩ : ∃ c₁ : Conn, c₁ = { c with
              m_read_ring := ring
              m_read_buf := (c.m_read_ring.append (q.take n)).contents ++ [0]
              m_version := c.m_version.moved
              head := { c.head with m_host := c.head.m_host.moved } } := ⟨_, rfl⟩
          have hring : c₁.m_read_ring = ring := by rw [hc₁]
          have hcap₁ : c₁.m_read_ring.capacity = READ_BUFFER_INITIAL_SIZE * 2 ^ (k + 1) := by
            rw [hring, hcap, hk, Nat.mul_assoc, ← Nat.pow_succ]
          have hroom₁ : Roomy c₁ := ⟨⟨k + 1, hk6, hcap₁⟩, by rw [hring, hcap, hringsize]; omega⟩
          obtain ⟨hsome, hover⟩ := ih c₁ (q.drop n) (by rw [length_drop]; omega) hroom₁
            hroom₁.room hroom₁.capacity_le
          rw [hring, hringsize, length_drop] at hsome hover
          rw [hc₁] at hsome hover
          refine ⟨fun hmax => ?_, fun hmax => hover (by omega)⟩
          obtain ⟨c', hrun, hspec⟩ := hsome (by omega)
          rw [← hc₁] at hspec
          refine ⟨c', hrun, ?_, hspec.roomy, fun _ => ?_, fun hlt => absurd hlt hfits, ?_⟩
          · rw [hspec.received]
            show c₁.m_read_ring.contents ++ _ = _
            rw [hring, hreceived, append_assoc, take_append_drop]
          · refine hspec.tight ⟨k + 1, hcap₁, .inr ?_⟩
            rw [hring, hringsize, hk]
            exact Nat.le_refl _
          · rw [if_neg hfits]
            have hrest := hspec.rest
            have hhost : c₁.head.m_host.moved = c₁.head.m_host := by
              rw [hc₁]
              exact moved_moved _
            rw [hhost, ite_self] at hrest
            rw [hrest, hc₁]
        · obtain rfl : k = 7 := by omega
          rw [← READ_BUFFER_MAX_eq] at hk
          have hlargest : (c.m_read_ring.append (q.take n)).capacity = READ_BUFFER_MAX_SIZE :=
            (RingBuf.capacity_append _ _).trans hk
          rw [ensure_read_capacity_max
            (c := { c with m_read_ring := c.m_read_ring.append (q.take n) }) hlargest]
          exact ⟨fun hmax => absurd hmax (by omega), fun _ => rfl⟩

theorem receive_spec (hroom : Roomy c)
    (hmax : c.received.length + p.length < READ_BUFFER_MAX_SIZE) :
    ∃ c', receive c p = some c' ∧ Received c c' p :=
  (receive_loop_spec p.length c p (le_refl _) hroom).1 (by rw [← length_received]; exact hmax)

theorem receive_lt (hroom : Roomy c) (hrun : receive c p = some c') :
    c.m_read_ring.size + p.length < READ_BUFFER_MAX_SIZE := by
  by_contra hmax
  have hnone := (receive_loop_spec p.length c p (le_refl _) hroom).2 (not_lt.mp hmax)
  exact absurd (hrun.symm.trans hnone) (by simp)

theorem receive_some (hroom : Roomy c) (hrun : receive c p = some c') : Received c c' p := by
  obtain ⟨c₁, hrun₁, hspec⟩ :=
    receive_spec (p := p) hroom (by rw [length_received]; exact receive_lt hroom hrun)
  rw [hrun, Option.some.injEq] at hrun₁
  rw [hrun₁]
  exact hspec

theorem sync_read_buffer_eq (c : Conn) : sync_read_buffer c =
    { c with
      m_read_buf := c.received ++ [0]
      m_version := c.m_version.kept c.m_read_buf (c.received ++ [0])
      m_read_idx := c.received.length } := by
  unfold sync_read_buffer
  rw [RingBuf.peek_eq, ← c.m_read_ring.length_contents, take_length]
  rfl

theorem roomy_fresh : Roomy fresh := ⟨⟨0, by decide, rfl⟩, by decide⟩

theorem tight_fresh : Tight fresh := ⟨0, rfl, .inl rfl⟩

/-- A read of a body or a head, up to `process_read`: what is not there is unchanged. -/
structure Synced (c c' : Conn) (p : Bytes) : Prop where
  received : c'.received = c.received ++ p
  roomy : Roomy c'
  tight : Tight c → Tight c'
  rest : c' = { c with
    m_read_ring := c'.m_read_ring
    m_read_buf := c.received ++ p ++ [0]
    m_version := c'.m_version
    m_read_idx := c.received.length + p.length
    head := { c.head with
      m_host := if c.m_read_ring.size + p.length < c.m_read_ring.capacity then c.head.m_host
        else c.head.m_host.moved } }

theorem Received.synced {c₁ : Conn} (h : Received c c₁ p) : Synced c (sync_read_buffer c₁) p := by
  refine ⟨h.received, ⟨h.roomy.size, h.roomy.room⟩, fun ht => h.tight ht, ?_⟩
  rw [sync_read_buffer_eq, h.received, length_append]
  exact congrArg (fun d : Conn => { d with
    m_read_buf := c.received ++ p ++ [0]
    m_version := c₁.m_version.kept c₁.m_read_buf (c.received ++ p ++ [0])
    m_read_idx := c.received.length + p.length }) h.rest

theorem deliver_spec (env : Env) (hroom : Roomy c)
    (hmax : c.received.length + p.length < READ_BUFFER_MAX_SIZE) :
    ∃ c', deliver env c p = process_read env c' ∧ Synced c c' p := by
  obtain ⟨c₁, hreceive, hspec⟩ := receive_spec hroom hmax
  exact ⟨sync_read_buffer c₁, by rw [deliver, hreceive], hspec.synced⟩

theorem HeadView.read {s w : Bytes} {base : ℕ} (v : HeadView s base c) (hs : c.received = s)
    (h : Synced c c' w) : HeadView (s ++ w) c.m_start_line c' := by
  have hstart := v.start_le
  have hchecked := v.checked_le
  rw [h.rest, hs]
  refine
    { read_idx := ?_, length := ?_, ahead := ?_, start_le := v.start_le, checked_le := ?_
      scanned := ?_, before := ?_, before_stream := ?_, base_le := le_refl _, host := ?_ }
  · exact length_append.symm
  · rw [length_append, length_singleton]
  · dsimp only
    rw [drop_append_of_le_length (by rw [length_append]; omega)]
  · dsimp only
    rw [length_append]
    omega
  · dsimp only
    rw [drop_append_of_le_length (by omega), take_append_of_le_length (by rw [length_drop]; omega)]
    exact v.scanned
  · rcases v.before_stream with hzero | hne
    · exact .inl hzero
    refine (Nat.eq_zero_or_pos c.m_start_line).imp id fun hpos => ?_
    dsimp only
    rw [append_assoc, getD_append _ _ _ _ (by omega)]
    exact hne
  · rcases v.before_stream with hzero | hne
    · exact .inl hzero
    refine (Nat.eq_zero_or_pos c.m_start_line).imp id fun hpos => ?_
    dsimp only
    rw [getD_append _ _ _ _ (by omega)]
    exact hne
  · -- a pointer that is still one was there before, and its line is restored
    intro i hi
    have hold : c.head.m_host = .buf i := by
      split_ifs at hi
      · exact hi
      cases hhost : c.head.m_host
      all_goals
        rw [hhost] at hi
        contradiction
    obtain ⟨hlt, -⟩ := v.host i hold
    refine ⟨hlt, ?_⟩
    unfold host_view
    rw [if_pos hlt, getD_append _ _ _ _ (by rw [length_append]; omega)]

theorem headView_fresh : HeadView [] 0 fresh where
  read_idx := rfl
  length := rfl
  ahead := rfl
  start_le := le_refl _
  checked_le := le_refl _
  scanned := fun _ hb => absurd hb List.not_mem_nil
  before := .inl rfl
  before_stream := .inl rfl
  base_le := le_refl _
  host := nofun

theorem process_read_synced (env : Env) {s w : Bytes} {base : ℕ} (v : HeadView s base c)
    (hs : c.received = s) (hst : c.m_check_state ≠ .CONTENT) (hsync : Synced c c' w) :
    process_read env c' = process_read_loop env (s.length + w.length + 2) c' .LINE_OK ∧
      HeadSpec env (s ++ w) c.m_start_line (s.length + w.length + 2) c'
        (head_run c'.head c.m_check_state c.m_start_line ((s ++ w).drop c.m_start_line)) := by
  have hrest := hsync.rest
  have hidx : c'.m_read_idx = s.length + w.length := by
    rw [hrest, hs]
  have hstate : c'.m_check_state = c.m_check_state := by rw [hrest]
  have hstart : c'.m_start_line = c.m_start_line := by rw [hrest]
  have hspec := process_read_head env (s ++ w) c.m_start_line (s.length + w.length + 2) c'
    (v.read hs hsync) (by rw [hstate]; exact hst) (by rw [length_append]; omega)
  rw [hstate, hstart] at hspec
  refine ⟨?_, hspec⟩
  rw [process_read, hidx]

/-! ## What a body leaves alone -/

/-- The request's head and the state of the parser are the same. -/
def SameHead (c c' : Conn) : Prop := c'.head = c.head ∧ c'.m_check_state = c.m_check_state

theorem SameHead.trans {c'' : Conn} (h : SameHead c c') (h' : SameHead c' c'') :
    SameHead c c'' := ⟨h'.1.trans h.1, h'.2.trans h.2⟩

theorem parse_line_loop_sameHead (n : ℕ) (c : Conn) : SameHead c (parse_line_loop n c).1 := by
  induction n generalizing c with
  | zero => exact ⟨rfl, rfl⟩
  | succ n ih =>
    rw [parse_line_loop]
    split_ifs
    · exact ⟨rfl, rfl⟩
    · exact ⟨rfl, rfl⟩
    · exact ⟨rfl, rfl⟩
    · exact ⟨rfl, rfl⟩
    · exact ⟨rfl, rfl⟩
    · exact ih { c with m_checked_idx := c.m_checked_idx + 1 }

theorem next_line_sameHead (c : Conn) (line_status : LineStatus) :
    SameHead c (next_line c line_status).1 := by
  unfold next_line
  split_ifs
  · exact ⟨rfl, rfl⟩
  · exact parse_line_loop_sameHead _ c

theorem compact_chunks_sameHead (c : Conn) : SameHead c c.compact_chunks := by
  unfold Conn.compact_chunks compact_read_buffer_prefix
  split_ifs <;> exact ⟨rfl, rfl⟩

theorem parse_chunked_loop_sameHead (env : Env) (fuel : ℕ) (c : Conn) :
    SameHead c (parse_chunked_loop env fuel c).1 := by
  induction fuel generalizing c with
  | zero => exact ⟨rfl, rfl⟩
  | succ fuel ih =>
    have hgo : ∀ c' : Conn, SameHead c c' → SameHead c (parse_chunked_loop env fuel c').1 :=
      fun c' hc' => hc'.trans (ih c')
    have hcompact : ∀ c' : Conn, SameHead c c' → SameHead c c'.compact_chunks :=
      fun c' hc' => hc'.trans (compact_chunks_sameHead c')
    rw [parse_chunked_loop]
    dsimp only
    repeat' split
    all_goals first
      | exact ⟨rfl, rfl⟩
      | exact hcompact _ ⟨rfl, rfl⟩
      | exact hgo _ ⟨rfl, rfl⟩

theorem parse_content_sameHead (env : Env) (hst : c.m_check_state = .CONTENT) :
    SameHead c (parse_content env c).1 := by
  unfold parse_content
  split_ifs
  · exact parse_chunked_loop_sameHead env _ c
  · unfold parse_streamed_content reset_streamed_body_buffer
    dsimp only
    split_ifs <;> first
      | exact ⟨rfl, rfl⟩
      | exact ⟨rfl, hst.symm⟩
  · exact ⟨rfl, rfl⟩
  · exact ⟨rfl, rfl⟩
  · exact ⟨rfl, rfl⟩

theorem process_read_loop_sameHead (env : Env) (fuel : ℕ) (line_status : LineStatus)
    (hst : c.m_check_state = .CONTENT) :
    SameHead c (process_read_loop env fuel c line_status).1 := by
  induction fuel generalizing c line_status with
  | zero => exact ⟨rfl, rfl⟩
  | succ fuel ih =>
    have hline := next_line_sameHead c line_status
    obtain ⟨c₁, status, hnext⟩ : ∃ c₁ status, next_line c line_status = (c₁, status) :=
      ⟨_, _, rfl⟩
    rw [hnext] at hline
    have hst₁ : c₁.m_check_state = .CONTENT := hline.2.trans hst
    by_cases hok : status = .LINE_OK
    · subst hok
      rw [process_read_line hnext]
      have hcontent := parse_content_sameHead env
        (c := { c₁ with m_start_line := c₁.m_checked_idx }) hst₁
      have hprocess : process_line env { c₁ with m_start_line := c₁.m_checked_idx } c₁.m_start_line
          = parse_content env { c₁ with m_start_line := c₁.m_checked_idx } := by
        unfold process_line
        rw [hst₁]
      rw [hprocess]
      obtain ⟨c₂, outcome, hparse⟩ : ∃ c₂ outcome,
          parse_content env { c₁ with m_start_line := c₁.m_checked_idx } = (c₂, outcome) :=
        ⟨_, _, rfl⟩
      rw [hparse] at hcontent ⊢
      have hc₂ : SameHead c c₂ := hline.trans hcontent
      unfold after_line
      split
      · rename_i c' code heq
        obtain ⟨rfl, -⟩ := Prod.mk.inj heq
        split_ifs
        · exact hc₂
        · exact hc₂
        · exact hc₂.trans (ih _ (hc₂.2.trans hst))
      · exact hc₂
    · rw [process_read_no_line hnext hok]
      exact hline

end AtlasWebServer.Http
