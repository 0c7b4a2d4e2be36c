/-
Heads: `process_read` on the lines of a request head is `head_run`, a function of the
bytes alone.

The buffer and the indices enter through `HeadView`, which says what they are between
two lines: the bytes from the current line on are those of the stream, and those of
the line that were looked at before do not end it. The one thing that is read back
from an earlier line is the byte behind `m_host`. `host_view` says what it is: it
depends on the line at which the call began, because a line that this call has
parsed has lost its CR and a line of an earlier call has it back.
-/
import AtlasWebServer.HttpLines

set_option autoImplicit false

namespace AtlasWebServer.Http

open Bytes CString RingBuffer List

/-! ## A head, as a function of its bytes -/

/-- How far the lines of a head take the parser: to the end of the bytes, to a line it
does not accept, or past the empty line. -/
inductive HeadResult
  | pending (h : Head) (st : CheckState) (pos : ℕ)
  | stopped (h : Head) (outcome : Outcome)
  | complete (h : Head) (pos : ℕ)

/-- One line after another. `pos` is where the bytes begin. -/
def head_loop : ℕ → Head → CheckState → ℕ → Bytes → HeadResult
  | 0, h, st, pos, _ => .pending h st pos
  | fuel + 1, h, st, pos, s =>
      match split_line s with
      | none => .pending h st pos
      | some (raw, rest) =>
          let text := raw.takeWhile (· ≠ 0)
          if st = .REQUESTLINE then
            match request_line h text with
            | (h, .code .NO_REQUEST) => head_loop fuel h .HEADER (pos + raw.length + 2) rest
            | (h, outcome) => .stopped h outcome
          else if text = [] then .complete h (pos + raw.length + 2)
          else
            match parse_header_line h pos text with
            | (h, .NO_REQUEST) => head_loop fuel h .HEADER (pos + raw.length + 2) rest
            | (h, code) => .stopped h (.code code)

def head_run (h : Head) (st : CheckState) (pos : ℕ) (s : Bytes) : HeadResult :=
  head_loop (s.length + 1) h st pos s

theorem head_loop_fuel {n m : ℕ} (h : Head) (st : CheckState) (pos : ℕ) (s : Bytes)
    (hn : s.length < n) (hm : s.length < m) : head_loop n h st pos s = head_loop m h st pos s := by
  induction n generalizing m h st pos s with
  | zero => omega
  | succ n ih =>
    obtain ⟨m, rfl⟩ : ∃ k, m = k + 1 := ⟨m - 1, by omega⟩
    rw [head_loop, head_loop]
    cases hsplit : split_line s with
    | none => rfl
    | some line =>
      obtain ⟨raw, rest⟩ := line
      have hlen := (split_line_eq hsplit).2
      have hrest : ∀ h, head_loop n h .HEADER (pos + raw.length + 2) rest
          = head_loop m h .HEADER (pos + raw.length + 2) rest :=
        fun h => ih h _ _ rest (by omega) (by omega)
      simp only [hrest]

theorem parse_header_line_host (h : Head) (start : ℕ) (text : Bytes) :
    (parse_header_line h start text).1.m_host = h.m_host ∨
      ∃ j ≤ text.length, (parse_header_line h start text).1.m_host = .buf (start + j) := by
  unfold parse_header_line
  dsimp only
  split_ifs <;> first
    | exact .inl rfl
    | exact .inr ⟨_, Nat.sub_le _ _, rfl⟩

theorem parse_header_line_code (h : Head) (start : ℕ) (text : Bytes) :
    (parse_header_line h start text).2 = .NO_REQUEST ∨
      (parse_header_line h start text).2 = .BAD_REQUEST := by
  unfold parse_header_line
  dsimp only
  split_ifs <;> first
    | exact .inl rfl
    | exact .inr rfl

theorem request_line_host (h : Head) (text : Bytes) :
    (request_line h text).1.m_host = h.m_host := by
  unfold request_line absolute_of target_of
  dsimp only
  split_ifs <;> (repeat' split) <;> rfl

theorem request_line_code (h : Head) (text : Bytes) :
    (request_line h text).2 = .code .NO_REQUEST ∨ (request_line h text).2 = .code .BAD_REQUEST ∨
      (request_line h text).2 = .undefined := by
  unfold request_line absolute_of target_of
  dsimp only
  split_ifs <;> (repeat' split) <;> simp

/-- What one line makes of a head: the head to go on with, or the result. -/
def head_line (h : Head) (st : CheckState) (pos : ℕ) (raw : Bytes) : Head ⊕ HeadResult :=
  if st = .REQUESTLINE then
    match request_line h (raw.takeWhile (· ≠ 0)) with
    | (h, .code .NO_REQUEST) => .inl h
    | (h, outcome) => .inr (.stopped h outcome)
  else if raw.takeWhile (· ≠ 0) = [] then .inr (.complete h (pos + raw.length + 2))
  else
    match parse_header_line h pos (raw.takeWhile (· ≠ 0)) with
    | (h, .NO_REQUEST) => .inl h
    | (h, code) => .inr (.stopped h (.code code))

variable {h h' : Head} {st : CheckState} {pos fuel : ℕ} {raw s : Bytes} {r : HeadResult}
  {c c' : Conn} {env : Env} {line_status : LineStatus}

theorem head_line_inl (hline : head_line h st pos raw = .inl h') :
    st = .REQUESTLINE ∧ request_line h (raw.takeWhile (· ≠ 0)) = (h', .code .NO_REQUEST) ∨
      st ≠ .REQUESTLINE ∧ parse_header_line h pos (raw.takeWhile (· ≠ 0)) = (h', .NO_REQUEST) := by
  unfold head_line at hline
  split_ifs at hline with hst
  · refine .inl ⟨hst, ?_⟩
    split at hline <;> simp_all
  · refine .inr ⟨hst, ?_⟩
    split at hline <;> simp_all

theorem head_line_inr (hline : head_line h st pos raw = .inr r) :
    raw.takeWhile (· ≠ 0) = [] ∧ r = .complete h (pos + raw.length + 2) ∨
      ∃ h', r = .stopped h' (.code .BAD_REQUEST) ∨ r = .stopped h' .undefined := by
  unfold head_line at hline
  split_ifs at hline with _ hempty
  · have hcode := request_line_code h (raw.takeWhile (· ≠ 0))
    split at hline
    · contradiction
    rename_i h₁ outcome hne hr
    obtain rfl := Sum.inr.inj hline
    rw [hr] at hcode
    rcases hcode with rfl | rfl | rfl
    · exact absurd rfl hne
    · exact .inr ⟨h₁, .inl rfl⟩
    · exact .inr ⟨h₁, .inr rfl⟩
  · exact .inl ⟨hempty, (Sum.inr.inj hline).symm⟩
  · have hcode := parse_header_line_code h pos (raw.takeWhile (· ≠ 0))
    split at hline
    · contradiction
    · obtain rfl := Sum.inr.inj hline
      simp_all

theorem head_run_eq (h : Head) (st : CheckState) (pos : ℕ) (s : Bytes) :
    head_run h st pos s =
      match split_line s with
      | none => .pending h st pos
      | some (raw, rest) =>
        match head_line h st pos raw with
        | .inl h => head_run h .HEADER (pos + raw.length + 2) rest
        | .inr r => r := by
  unfold head_run
  rw [head_loop]
  cases hsplit : split_line s with
  | none => rfl
  | some line =>
    obtain ⟨raw, rest⟩ := line
    have hlen := (split_line_eq hsplit).2
    have hrest : ∀ h, head_loop s.length h .HEADER (pos + raw.length + 2) rest
        = head_loop (rest.length + 1) h .HEADER (pos + raw.length + 2) rest :=
      fun h => head_loop_fuel h _ _ rest (by omega) (by omega)
    simp only [hrest, head_line]
    split_ifs
    · split <;> rfl
    · rfl
    · split <;> rfl

theorem head_run_none (hsplit : split_line s = none) : head_run h st pos s = .pending h st pos := by
  rw [head_run_eq, hsplit]

section Lines

variable {rest : Bytes}

theorem head_run_inl (hsplit : split_line s = some (raw, rest))
    (hline : head_line h st pos raw = .inl h') :
    head_run h st pos s = head_run h' .HEADER (pos + raw.length + 2) rest := by
  rw [head_run_eq, hsplit]
  dsimp only
  rw [hline]

theorem head_run_inr (hsplit : split_line s = some (raw, rest))
    (hline : head_line h st pos raw = .inr r) : head_run h st pos s = r := by
  rw [head_run_eq, hsplit]
  dsimp only
  rw [hline]

end Lines

theorem head_run_induction {motive : Head → CheckState → ℕ → Bytes → HeadResult → Prop}
    (hnone : ∀ h st pos s, split_line s = none → motive h st pos s (.pending h st pos))
    (hgo : ∀ h st pos s raw rest h', split_line s = some (raw, rest) →
      head_line h st pos raw = .inl h' →
      motive h' .HEADER (pos + raw.length + 2) rest
        (head_run h' .HEADER (pos + raw.length + 2) rest) →
      motive h st pos s (head_run h' .HEADER (pos + raw.length + 2) rest))
    (hstop : ∀ h st pos s raw rest r, split_line s = some (raw, rest) →
      head_line h st pos raw = .inr r → motive h st pos s r)
    (h : Head) (st : CheckState) (pos : ℕ) (s : Bytes) :
    motive h st pos s (head_run h st pos s) := by
  induction hn : s.length using Nat.strong_induction_on generalizing h st pos s with
  | _ n ih =>
    cases hsplit : split_line s with
    | none =>
      rw [head_run_none hsplit]
      exact hnone h st pos s hsplit
    | some line =>
      obtain ⟨raw, rest⟩ := line
      have hlen := (split_line_eq hsplit).2
      cases hline : head_line h st pos raw with
      | inl h' =>
        rw [head_run_inl hsplit hline]
        exact hgo h st pos s raw rest h' hsplit hline (ih rest.length (by omega) _ _ _ rest rfl)
      | inr r =>
        rw [head_run_inr hsplit hline]
        exact hstop h st pos s raw rest r hsplit hline

theorem head_run_append (w : Bytes) (h : Head) (st : CheckState) (pos : ℕ) (s : Bytes) :
    match head_run h st pos s with
    | .pending h' st' pos' => pos ≤ pos' ∧ pos' ≤ pos + s.length ∧
        split_line (s.drop (pos' - pos)) = none ∧
        head_run h st pos (s ++ w) = head_run h' st' pos' ((s ++ w).drop (pos' - pos))
    | r => head_run h st pos (s ++ w) = r := by
  induction h, st, pos, s using head_run_induction with
  | hnone h st pos s hsplit =>
    refine ⟨le_refl pos, by omega, ?_⟩
    rw [Nat.sub_self, drop_zero, drop_zero]
    exact ⟨hsplit, rfl⟩
  | hgo h st pos s raw rest h₁ hsplit hline ih =>
    obtain ⟨⟨hs, -⟩, hlen⟩ := split_line_eq hsplit
    rw [head_run_inl (split_line_append w hsplit) hline]
    split at ih
    · rename_i h' st' pos' hrun
      obtain ⟨hle, hle', hnone, heq⟩ := ih
      have hdrop : ∀ w, (s ++ w).drop (pos' - pos)
          = (rest ++ w).drop (pos' - (pos + raw.length + 2)) := by
        intro w
        have hsum : pos' - pos = (raw ++ [CR, LF]).length + (pos' - (pos + raw.length + 2)) := by
          rw [length_append, length_cons, length_singleton]
          omega
        have hlist : s ++ w = (raw ++ [CR, LF]) ++ (rest ++ w) := by
          rw [hs]
          simp
        rw [hsum, hlist, ← drop_drop, drop_left]
      have hself := hdrop []
      rw [append_nil, append_nil] at hself
      rw [hself, hdrop]
      exact ⟨by omega, by omega, hnone, heq⟩
    · exact ih
  | hstop h st pos s raw rest r hsplit hline =>
    rw [head_run_inr (split_line_append w hsplit) hline]
    rcases head_line_inr hline with ⟨-, rfl⟩ | ⟨h', rfl | rfl⟩ <;> rfl

/-! ## `process_read` on a head -/

/-- What `m_host[0]` reads within a call that began at the line at `base`: the CR of a
line the call has parsed is gone, and the buffer was restored before the call. -/
def host_view (s : Bytes) (base i : ℕ) : UInt8 :=
  if i < base then s.getD i 0 else if s.getD i 0 = CR then 0 else s.getD i 0

/-- A connection inside `process_read`, between two lines of a head. `s` are the bytes
received; the buffer holds them from the current line on, and the bytes of that line
that were looked at before do not end it. -/
structure HeadView (s : Bytes) (base : ℕ) (c : Conn) : Prop where
  read_idx : c.m_read_idx = s.length
  length : c.m_read_buf.length = s.length + 1
  ahead : c.m_read_buf.drop c.m_start_line = s.drop c.m_start_line ++ [0]
  start_le : c.m_start_line ≤ c.m_checked_idx
  checked_le : c.m_checked_idx ≤ s.length
  scanned : ∀ b ∈ (s.drop c.m_start_line).take (c.m_checked_idx - c.m_start_line), plain b = true
  before : c.m_start_line = 0 ∨ c.m_read_buf.getD (c.m_start_line - 1) 0 ≠ CR
  before_stream : c.m_start_line = 0 ∨ s.getD (c.m_start_line - 1) 0 ≠ CR
  base_le : base ≤ c.m_start_line
  host : ∀ i, c.head.m_host = .buf i →
    i < c.m_start_line ∧ c.m_read_buf.getD i 0 = host_view s base i

section View

variable {base : ℕ}

variable {k : ℕ} {rest : Bytes}

theorem HeadView.ahead_at (v : HeadView s base c) (hk : c.m_start_line ≤ k) (hk' : k ≤ s.length) :
    c.m_read_buf.drop k = s.drop k ++ [0] := by
  obtain ⟨n, rfl⟩ : ∃ n, k = c.m_start_line + n := ⟨k - c.m_start_line, by omega⟩
  rw [← drop_drop, v.ahead, drop_append_of_le_length (by rw [length_drop]; omega), drop_drop]

theorem HeadView.unchecked (v : HeadView s base c) : c.unchecked = s.drop c.m_checked_idx := by
  unfold Conn.unchecked
  rw [drop_take, v.ahead_at v.start_le v.checked_le, v.read_idx]
  have hlen : s.length - c.m_checked_idx = (s.drop c.m_checked_idx).length :=
    length_drop.symm
  rw [hlen, take_left]

theorem HeadView.split (v : HeadView s base c) :
    s.drop c.m_start_line = (s.drop c.m_start_line).take (c.m_checked_idx - c.m_start_line) ++
      s.drop c.m_checked_idx := by
  have hdrop : s.drop c.m_checked_idx
      = (s.drop c.m_start_line).drop (c.m_checked_idx - c.m_start_line) := by
    rw [drop_drop]
    congr 1
    have := v.start_le
    omega
  rw [hdrop, take_append_drop]

/-- Where the current line stops being plain, and what comes there. -/
def line_so_far (s : Bytes) (c : Conn) : Bytes := (s.drop c.m_start_line).takeWhile plain

theorem line_eq (s : Bytes) (c : Conn) :
    s.drop c.m_start_line = line_so_far s c ++ (s.drop c.m_start_line).dropWhile plain :=
  List.takeWhile_append_dropWhile.symm

theorem HeadView.line_end (v : HeadView s base c) :
    c.m_start_line + (line_so_far s c).length +
      ((s.drop c.m_start_line).dropWhile plain).length = s.length := by
  have hlen := congrArg List.length (line_eq s c)
  rw [length_drop, length_append] at hlen
  have h1 := v.start_le
  have h2 := v.checked_le
  omega

theorem HeadView.scan (v : HeadView s base c) :
    parse_line c =
      parse_line { c with m_checked_idx := c.m_start_line + (line_so_far s c).length } ∧
      ({ c with m_checked_idx := c.m_start_line + (line_so_far s c).length } : Conn).unchecked
        = (s.drop c.m_start_line).dropWhile plain := by
  obtain ⟨a, ha⟩ : ∃ a, a = (s.drop c.m_checked_idx).takeWhile plain := ⟨_, rfl⟩
  obtain ⟨pre, hpre⟩ :
      ∃ pre, pre = (s.drop c.m_start_line).take (c.m_checked_idx - c.m_start_line) := ⟨_, rfl⟩
  have hprelen : c.m_start_line + pre.length = c.m_checked_idx := by
    have h1 := v.start_le
    have h2 := v.checked_le
    rw [hpre, length_take, length_drop]
    omega
  have hsplit := v.split
  have hplain := v.scanned
  rw [← hpre] at hsplit hplain
  have hline : line_so_far s c = pre ++ a := by
    rw [line_so_far, hsplit, takeWhile_append_of_pos hplain, ha]
  have hrest : s.drop c.m_checked_idx = a ++ (s.drop c.m_start_line).dropWhile plain := by
    rw [hsplit, dropWhile_append_of_pos hplain, ha, takeWhile_append_dropWhile]
  have hlen : c.m_start_line + (line_so_far s c).length = c.m_checked_idx + a.length := by
    rw [hline, length_append]
    omega
  rw [hlen]
  constructor
  · refine parse_line_scan a ?_ c _ (v.unchecked.trans hrest)
    intro b hb
    rw [ha] at hb
    exact mem_takeWhile_imp hb
  show (c.m_read_buf.take c.m_read_idx).drop (c.m_checked_idx + a.length) = _
  rw [← drop_drop]
  show c.unchecked.drop a.length = _
  rw [v.unchecked, hrest, drop_left]

theorem HeadView.before_end (v : HeadView s base c) :
    c.m_start_line + (line_so_far s c).length ≤ 1 ∨
      c.m_read_buf.getD (c.m_start_line + (line_so_far s c).length - 1) 0 ≠ CR := by
  rcases eq_nil_or_concat (line_so_far s c) with hnil | ⟨l, b, hconcat⟩
  · rw [hnil, length_nil, Nat.add_zero]
    exact v.before.imp (fun h => by omega) id
  right
  have hb : plain b = true := by
    have hmem : b ∈ line_so_far s c := by
      rw [hconcat]
      simp
    exact mem_takeWhile_imp hmem
  simp only [plain, decide_eq_true_eq] at hb
  have hidx : c.m_start_line + (line_so_far s c).length - 1 = c.m_start_line + l.length := by
    rw [hconcat, length_concat]
    omega
  have hget : (c.m_read_buf.drop c.m_start_line)[l.length]? = some b := by
    rw [v.ahead, line_eq s c, hconcat]
    simp
  rw [getElem?_drop] at hget
  rw [hidx, getD_eq_getElem?_getD, hget]
  exact hb.1

theorem HeadView.parse_line_some (v : HeadView s base c)
    (h : split_line (s.drop c.m_start_line) = some (raw, rest)) :
    parse_line c = ({ c with
      m_read_buf := (c.m_read_buf.set (c.m_start_line + raw.length) 0).set
        (c.m_start_line + raw.length + 1) 0
      m_checked_idx := c.m_start_line + raw.length + 2 }, .LINE_OK) := by
  obtain ⟨hscan, hunchecked⟩ := v.scan
  rcases split_line_cases (s.drop c.m_start_line) with ⟨rest', htail, hsome⟩ | ⟨hnone, -⟩
  · rw [h, Option.some.injEq, Prod.mk.injEq] at hsome
    have hraw : line_so_far s c = raw := hsome.1.symm
    rw [htail] at hunchecked
    rw [hscan, parse_line_crlf hunchecked, hraw]
  · rw [h] at hnone
    cases hnone

theorem HeadView.parse_line_none (v : HeadView s base c)
    (h : split_line (s.drop c.m_start_line) = none) :
    ∃ k status, parse_line c = ({ c with m_checked_idx := k }, status) ∧
      status ≠ .LINE_OK ∧ c.m_start_line ≤ k ∧ k ≤ s.length ∧
      ∀ b ∈ (s.drop c.m_start_line).take (k - c.m_start_line), plain b = true := by
  obtain ⟨hscan, hunchecked⟩ := v.scan
  have hend := v.line_end
  have hstop : ∀ status, parse_line c = ({ c with
      m_checked_idx := c.m_start_line + (line_so_far s c).length }, status) → status ≠ .LINE_OK →
      ∃ k status, parse_line c = ({ c with m_checked_idx := k }, status) ∧
        status ≠ .LINE_OK ∧ c.m_start_line ≤ k ∧ k ≤ s.length ∧
        ∀ b ∈ (s.drop c.m_start_line).take (k - c.m_start_line), plain b = true := by
    intro status hparse hstatus
    refine ⟨_, status, hparse, hstatus, by omega, by omega, ?_⟩
    rw [Nat.add_sub_cancel_left, line_eq s c, take_left]
    exact fun b hb => mem_takeWhile_imp hb
  rcases split_line_cases (s.drop c.m_start_line) with ⟨rest, -, hsome⟩ | ⟨-, htail⟩
  · rw [h] at hsome
    cases hsome
  rcases htail with htail | htail | ⟨b, rest, htail, hb⟩ | ⟨rest, htail⟩
  · refine hstop .LINE_OPEN ?_ (by decide)
    rw [hscan]
    refine parse_line_nil ?_
    rw [htail, length_nil, Nat.add_zero] at hend
    rw [v.read_idx, hend]
  · refine hstop .LINE_OPEN ?_ (by decide)
    rw [hscan]
    refine parse_line_cr_end (hunchecked.trans htail) ?_
    rw [v.read_idx, v.length]
    omega
  · refine hstop .LINE_BAD ?_ (by decide)
    rw [hscan]
    exact parse_line_cr_bad (hunchecked.trans htail) hb
  · refine hstop .LINE_BAD ?_ (by decide)
    rw [hscan]
    exact parse_line_lf_bad (hunchecked.trans htail) v.before_end

/-- The memory once `parse_line` has ended the line `raw`. -/
def ended (c : Conn) (raw : Bytes) : Bytes :=
  (c.m_read_buf.set (c.m_start_line + raw.length) 0).set (c.m_start_line + raw.length + 1) 0

theorem HeadView.drop_ended (v : HeadView s base c)
    (h : split_line (s.drop c.m_start_line) = some (raw, rest)) :
    (ended c raw).drop c.m_start_line = raw ++ 0 :: 0 :: (rest ++ [0]) := by
  obtain ⟨⟨hs, -⟩, -⟩ := split_line_eq h
  have hahead := v.ahead
  rw [hs] at hahead
  unfold ended
  rw [drop_set, if_neg (by omega), drop_set, if_neg (by omega), hahead,
    Nat.add_assoc, Nat.add_sub_cancel_left, Nat.add_sub_cancel_left]
  simp

theorem HeadView.text (v : HeadView s base c)
    (h : split_line (s.drop c.m_start_line) = some (raw, rest)) :
    cstr (ended c raw) c.m_start_line = raw.takeWhile (· ≠ 0) := by
  rw [cstr, v.drop_ended h, takeWhile_append]
  split_ifs with hall
  · rw [takeWhile_cons_of_neg (by simp), append_nil]
    exact ((IsPrefix.eq_of_length <| takeWhile_prefix _) hall).symm
  · rfl

theorem ended_before (c : Conn) (raw : Bytes) {i : ℕ} (hi : i < c.m_start_line) :
    (ended c raw).getD i 0 = c.m_read_buf.getD i 0 := by
  unfold ended
  rw [getD_eq_getElem?_getD, getElem?_set_ne (by omega), getElem?_set_ne (by omega),
    ← getD_eq_getElem?_getD]

theorem HeadView.next (v : HeadView s base c)
    (h : split_line (s.drop c.m_start_line) = some (raw, rest)) {mem : Bytes} (head : Head)
    (st : CheckState) {version : VersionPtr}
    (hsame : SameOutside (ended c raw) mem c.m_start_line (c.m_start_line + raw.length + 2))
    (hhost : head.m_host = c.head.m_host ∨
      mem = ended c raw ∧ ∃ j ≤ raw.length, head.m_host = .buf (c.m_start_line + j)) :
    HeadView s base { c with
      m_read_buf := mem
      m_checked_idx := c.m_start_line + raw.length + 2
      m_start_line := c.m_start_line + raw.length + 2
      m_check_state := st
      m_version := version
      head := head } := by
  obtain ⟨⟨hs, hplain⟩, hlen⟩ := split_line_eq h
  rw [length_drop] at hlen
  have hbound : c.m_start_line + raw.length + 2 ≤ s.length := by
    omega
  have hdrop : (ended c raw).drop (c.m_start_line + raw.length + 2) = rest ++ [0] := by
    rw [Nat.add_assoc, ← drop_drop, v.drop_ended h]
    simp
  have hsdrop : s.drop (c.m_start_line + raw.length + 2) = rest := by
    rw [Nat.add_assoc, ← drop_drop, hs]
    simp
  refine
    { read_idx := v.read_idx
      length := ?_
      ahead := ?_
      start_le := le_refl _
      checked_le := hbound
      scanned := ?_
      before := ?_
      before_stream := ?_
      base_le := ?_
      host := ?_ }
  · rw [hsame.length]
    unfold ended
    rw [length_set, length_set, v.length]
  · rw [hsame.drop_eq, hdrop, hsdrop]
  · rw [Nat.sub_self, take_zero]
    exact fun b hb => absurd hb not_mem_nil
  -- the byte before it is a NUL, and no write makes it a CR
  · right
    intro hcr
    have hcr' : mem[c.m_start_line + raw.length + 1]? = some CR := by
      rw [getD_eq_getElem?_getD] at hcr
      cases hget : mem[c.m_start_line + raw.length + 2 - 1]? with
      | none =>
        rw [hget] at hcr
        exact absurd hcr (by decide)
      | some b =>
        rw [hget] at hcr
        rw [← hcr]
        exact hget
    have hzero : (ended c raw)[c.m_start_line + raw.length + 1]? = some 0 := by
      rw [Nat.add_assoc, ← getElem?_drop, v.drop_ended h]
      simp
    rw [hsame.no_cr _ hcr'] at hzero
    exact absurd hzero (by decide)
  · right
    have hlf : s[c.m_start_line + raw.length + 1]? = some LF := by
      rw [Nat.add_assoc, ← getElem?_drop, hs]
      simp
    show s.getD (c.m_start_line + raw.length + 1) 0 ≠ CR
    rw [getD_eq_getElem?_getD, hlf]
    decide
  · have := v.base_le
    show base ≤ c.m_start_line + raw.length + 2
    omega
  · intro i hi
    rcases hhost with hold | ⟨hmem, j, hj, hnew⟩
    · obtain ⟨hlt, hview⟩ := v.host i (hold ▸ hi)
      refine ⟨by dsimp only; omega, ?_⟩
      rw [← hview, getD_eq_getElem?_getD, hsame.outside i (.inl hlt),
        ← getD_eq_getElem?_getD, ended_before c raw hlt]
    have hij : i = c.m_start_line + j := by
      have := hnew.symm.trans hi
      simpa using this.symm
    subst hij
    refine ⟨by dsimp only; omega, ?_⟩
    have hge : ¬ c.m_start_line + j < base := by
      have := v.base_le
      omega
    have hsj : s[c.m_start_line + j]? = (raw ++ CR :: LF :: rest)[j]? := by
      rw [← getElem?_drop, hs]
    have hmj : mem[c.m_start_line + j]? = (raw ++ 0 :: 0 :: (rest ++ [0]))[j]? := by
      rw [hmem, ← getElem?_drop, v.drop_ended h]
    unfold host_view
    rw [if_neg hge]
    rw [getD_eq_getElem?_getD, getD_eq_getElem?_getD, hsj, hmj]
    by_cases hlast : j = raw.length
    · -- an empty value: the pointer is at the CR
      subst hlast
      simp
    have hjlt : j < raw.length := by omega
    rw [getElem?_append_left hjlt, getElem?_append_left hjlt,
      getElem?_eq_getElem hjlt, Option.getD_some]
    have hb := hplain raw[j] (getElem_mem hjlt)
    simp only [plain, decide_eq_true_eq] at hb
    rw [if_neg hb.1]

theorem HeadView.recheck (v : HeadView s base c) (hk : c.m_start_line ≤ k) (hk' : k ≤ s.length)
    (hplain : ∀ b ∈ (s.drop c.m_start_line).take (k - c.m_start_line), plain b = true) :
    HeadView s base { c with m_checked_idx := k } :=
  { v with start_le := hk, checked_le := hk', scanned := hplain }

end View

/-- What the lines of a head do not touch. -/
structure HeadKept (c c' : Conn) : Prop where
  ring : c'.m_read_ring = c.m_read_ring
  body_start : c'.m_body_start_idx = c.m_body_start_idx
  parse_idx : c'.m_chunked_parse_idx = c.m_chunked_parse_idx
  chunks : c'.chunks = c.chunks
  body : c'.body = c.body

theorem HeadKept.trans {c'' : Conn} (h : HeadKept c c') (h' : HeadKept c' c'') : HeadKept c c'' :=
  ⟨h'.ring.trans h.ring, h'.body_start.trans h.body_start, h'.parse_idx.trans h.parse_idx,
    h'.chunks.trans h.chunks, h'.body.trans h.body⟩

theorem process_read_no_line {status : LineStatus} (hline : next_line c line_status = (c', status))
    (hstatus : status ≠ .LINE_OK) :
    process_read_loop env (fuel + 1) c line_status = (c', .code .NO_REQUEST) := by
  rw [process_read_loop, hline]
  cases status with
  | LINE_OK => exact absurd rfl hstatus
  | _ => rfl

theorem next_line_head (line_status : LineStatus) (hst : c.m_check_state ≠ .CONTENT) :
    next_line c line_status = parse_line c :=
  if_neg fun h => hst h.1

/-- What `process_read` makes of the result of a line of the head. -/
def after_line (env : Env) (fuel : ℕ) (state : CheckState) : Result → Result
  | (c, .code code) =>
      if code.is_error then (c, .code code)
      else if code = .GET_REQUEST ∧ state ≠ .REQUESTLINE then (c, .do_request)
      else process_read_loop env fuel c (if state = .CONTENT then .LINE_OPEN else .LINE_OK)
  | r => r

theorem process_read_line (hline : next_line c line_status = (c', .LINE_OK)) :
    process_read_loop env (fuel + 1) c line_status =
      after_line env fuel c'.m_check_state
        (process_line env { c' with m_start_line := c'.m_checked_idx } c'.m_start_line) := by
  rw [process_read_loop, hline]
  rfl

/-- What `process_read` makes of the lines of a head. -/
def HeadSpec (env : Env) (s : Bytes) (base fuel : ℕ) (c : Conn) : HeadResult → Prop
  | .pending h st pos => ∃ c', process_read_loop env fuel c .LINE_OK = (c', .code .NO_REQUEST) ∧
      HeadView s base c' ∧ HeadKept c c' ∧ c'.head = h ∧ c'.m_check_state = st ∧
        c'.m_start_line = pos
  | .stopped h outcome => ∃ c', process_read_loop env fuel c .LINE_OK = (c', outcome) ∧ c'.head = h
  | .complete h pos => ∃ c' fuel', process_read_loop env fuel c .LINE_OK
        = after_line env fuel' .HEADER (parse_blank_line env c') ∧
      HeadView s base c' ∧ HeadKept c c' ∧ c'.head = h ∧ c'.m_check_state = .HEADER ∧
      c'.m_start_line = pos ∧ c'.m_checked_idx = pos ∧ s.length + 1 < pos + fuel'

theorem HeadSpec.of_step {base : ℕ}
    (hloop : process_read_loop env (fuel + 1) c .LINE_OK = process_read_loop env fuel c' .LINE_OK)
    (hkept : HeadKept c c') (h : HeadSpec env s base fuel c' r) :
    HeadSpec env s base (fuel + 1) c r := by
  cases r with
  | pending h₁ st pos =>
    obtain ⟨c'', hrun, hview, hk, hrest⟩ := h
    exact ⟨c'', hloop.trans hrun, hview, hkept.trans hk, hrest⟩
  | stopped h₁ outcome =>
    obtain ⟨c'', hrun, hrest⟩ := h
    exact ⟨c'', hloop.trans hrun, hrest⟩
  | complete h₁ pos =>
    obtain ⟨c'', fuel', hrun, hview, hk, hrest⟩ := h
    exact ⟨c'', fuel', hloop.trans hrun, hview, hkept.trans hk, hrest⟩

/-- What a pass of the loop makes of a line: it goes on with a head, or ends. -/
def LineSpec (env : Env) (s : Bytes) (base fuel : ℕ) (c : Conn) (raw : Bytes) :
    Head ⊕ HeadResult → Prop
  | .inl h => ∃ c', process_read_loop env (fuel + 1) c .LINE_OK
        = process_read_loop env fuel c' .LINE_OK ∧
      HeadView s base c' ∧ HeadKept c c' ∧ c'.head = h ∧ c'.m_check_state = .HEADER ∧
      c'.m_start_line = c.m_start_line + raw.length + 2
  | .inr r => HeadSpec env s base (fuel + 1) c r

/-- The connection when `parse_line` has ended the line `raw`. -/
def Conn.past_line (c : Conn) (raw : Bytes) : Conn :=
  { c with
    m_read_buf := ended c raw
    m_checked_idx := c.m_start_line + raw.length + 2
    m_start_line := c.m_start_line + raw.length + 2 }

section Pass

variable (env : Env) {base : ℕ} (fuel : ℕ) {rest : Bytes}

theorem HeadView.pass (v : HeadView s base c) (hst : c.m_check_state ≠ .CONTENT)
    (hsplit : split_line (s.drop c.m_start_line) = some (raw, rest)) :
    process_read_loop env (fuel + 1) c .LINE_OK
      = after_line env fuel c.m_check_state
        (process_line env (c.past_line raw) c.m_start_line) := by
  rw [process_read_line ((next_line_head _ hst).trans (v.parse_line_some hsplit))]
  rfl

theorem HeadView.request_pass (v : HeadView s base c) (hreq : c.m_check_state = .REQUESTLINE)
    (hsplit : split_line (s.drop c.m_start_line) = some (raw, rest)) :
    LineSpec env s base fuel c raw (head_line c.head c.m_check_state c.m_start_line raw) := by
  have hpass := v.pass env fuel (by rw [hreq]; decide) hsplit
  have hline : process_line env (c.past_line raw) c.m_start_line
      = parse_request_line (c.past_line raw) c.m_start_line := by
    unfold process_line Conn.past_line
    rw [hreq]
  have hle : (raw.takeWhile (· ≠ 0)).length ≤ raw.length := takeWhile_length_le _ _
  have hroom : c.m_start_line + (raw.takeWhile (· ≠ 0)).length + 2
      ≤ (c.past_line raw).m_read_buf.length := by
    have hend := v.length
    have hlen := (split_line_eq hsplit).2
    rw [length_drop] at hlen
    show _ ≤ (ended c raw).length
    unfold ended
    rw [length_set, length_set]
    omega
  obtain ⟨mem', version, hparse, hsame⟩ := parse_request_line_spec (v.text hsplit) hroom
  rw [hline, hparse, hreq] at hpass
  have hhost := request_line_host c.head (raw.takeWhile (· ≠ 0))
  have hcode := request_line_code c.head (raw.takeWhile (· ≠ 0))
  unfold head_line
  rw [if_pos hreq]
  dsimp only [Conn.lined, Conn.past_line] at hpass hsame
  generalize request_line c.head (raw.takeWhile (· ≠ 0)) = r at hpass hhost hcode ⊢
  obtain ⟨h₁, outcome⟩ := r
  rcases hcode with rfl | rfl | rfl
  · -- the line is accepted: go on with the headers
    exact ⟨_, hpass, v.next hsplit h₁ .HEADER (hsame.mono (le_refl _) (by omega)) (.inl hhost),
      ⟨rfl, rfl, rfl, rfl, rfl⟩, rfl, rfl, rfl⟩
  · exact ⟨_, hpass, rfl⟩
  · exact ⟨_, hpass, rfl⟩

theorem HeadView.header_pass (v : HeadView s base c) (hheader : c.m_check_state = .HEADER)
    (hsplit : split_line (s.drop c.m_start_line) = some (raw, rest))
    (hfuel : s.length < c.m_start_line + (fuel + 1)) :
    LineSpec env s base fuel c raw (head_line c.head c.m_check_state c.m_start_line raw) := by
  have hpass := v.pass env fuel (by rw [hheader]; decide) hsplit
  have hline : process_line env (c.past_line raw) c.m_start_line
      = parse_headers env (c.past_line raw) c.m_start_line := by
    unfold process_line Conn.past_line
    rw [hheader]
  have htext : cstr (c.past_line raw).m_read_buf c.m_start_line = raw.takeWhile (· ≠ 0) :=
    v.text hsplit
  rw [hline, hheader, parse_headers, htext] at hpass
  unfold head_line
  rw [if_neg (by rw [hheader]; decide)]
  by_cases hempty : raw.takeWhile (· ≠ 0) = []
  · rw [if_pos hempty] at hpass ⊢
    exact ⟨c.past_line raw, fuel, hpass,
      v.next hsplit c.head c.m_check_state (.refl _ _ _) (.inl rfl),
      ⟨rfl, rfl, rfl, rfl, rfl⟩, rfl, hheader, rfl, rfl, by omega⟩
  rw [if_neg hempty] at hpass ⊢
  have hhost := parse_header_line_host c.head c.m_start_line (raw.takeWhile (· ≠ 0))
  have hcode := parse_header_line_code c.head c.m_start_line (raw.takeWhile (· ≠ 0))
  have hle : (raw.takeWhile (· ≠ 0)).length ≤ raw.length := takeWhile_length_le _ _
  dsimp only [Conn.past_line] at hpass
  generalize parse_header_line c.head c.m_start_line (raw.takeWhile (· ≠ 0)) = r
    at hpass hhost hcode ⊢
  obtain ⟨h₁, code⟩ := r
  rcases hcode with rfl | rfl
  · refine ⟨_, hpass, v.next hsplit h₁ c.m_check_state (.refl _ _ _) ?_,
      ⟨rfl, rfl, rfl, rfl, rfl⟩, rfl, hheader, rfl⟩
    refine hhost.imp_right ?_
    rintro ⟨j, hj, hbuf⟩
    exact ⟨rfl, j, by omega, hbuf⟩
  · exact ⟨_, hpass, rfl⟩

end Pass

theorem process_read_head (env : Env) (s : Bytes) (base fuel : ℕ) (c : Conn)
    (v : HeadView s base c) (hst : c.m_check_state ≠ .CONTENT)
    (hfuel : s.length < c.m_start_line + fuel) :
    HeadSpec env s base fuel c
      (head_run c.head c.m_check_state c.m_start_line (s.drop c.m_start_line)) := by
  -- on the passes of the loop; each takes a line
  induction fuel generalizing c with
  | zero =>
    have h1 := v.start_le
    have h2 := v.checked_le
    omega
  | succ fuel ih =>
    cases hsplit : split_line (s.drop c.m_start_line) with
    | none =>
      obtain ⟨k, status, hline, hstatus, hk, hk', hplain⟩ := v.parse_line_none hsplit
      rw [head_run_none hsplit]
      exact ⟨{ c with m_checked_idx := k },
        process_read_no_line ((next_line_head _ hst).trans hline) hstatus,
        v.recheck hk hk' hplain, ⟨rfl, rfl, rfl, rfl, rfl⟩, rfl, rfl, rfl⟩
    | some line =>
      obtain ⟨raw, rest⟩ := line
      have hpass : LineSpec env s base fuel c raw
          (head_line c.head c.m_check_state c.m_start_line raw) := by
        cases hc : c.m_check_state with
        | REQUESTLINE => exact hc ▸ v.request_pass env fuel hc hsplit
        | HEADER => exact hc ▸ v.header_pass env fuel hc hsplit hfuel
        | CONTENT => exact absurd hc hst
      cases hline : head_line c.head c.m_check_state c.m_start_line raw with
      | inl h₁ =>
        rw [hline] at hpass
        obtain ⟨c', hloop, hview, hkept, rfl, hstate, hstart⟩ := hpass
        obtain ⟨⟨hs, -⟩, hlen⟩ := split_line_eq hsplit
        have hrest : s.drop c'.m_start_line = rest := by
          rw [hstart, Nat.add_assoc, ← drop_drop, hs]
          simp
        have hgo := ih c' hview (by rw [hstate]; decide) (by omega)
        rw [hstate, hrest, hstart] at hgo
        rw [head_run_inl hsplit hline]
        exact HeadSpec.of_step hloop hkept hgo
      | inr r =>
        rw [hline] at hpass
        rw [head_run_inr hsplit hline]
        exact hpass

end AtlasWebServer.Http
