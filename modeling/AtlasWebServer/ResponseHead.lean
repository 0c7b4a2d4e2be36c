/-
What a response looks like on the wire.

`Appends w text` says that a write appends a text to the ring and returns true, as long
as ring and text have 2 ^ 30 bytes together: the ring grows by doubling, and the next
size is no `int` (`add_response_overflow`). With it a response is its head lines, an empty
line and the content (`appends_response`), and `split_crlf` finds the lines again.
-/
import AtlasWebServer.Crlf
import AtlasWebServer.ResponseWriter

set_option autoImplicit false

namespace AtlasWebServer.Http

open Bytes CString RingBuffer Crlf List

variable {required_size : ℕ} {ring : Ring} {s title : Bytes} {extra : List Bytes}

open AtlasWebServer.Downloads

/-! ## Writing into the ring -/

/-- The size beyond which the write ring cannot grow. -/
def WRITE_LIMIT : ℕ := 2 ^ 30

/-- A ring as `init` makes it and the doubling leaves it. -/
def Grown (ring : Ring) : Prop := ∃ k ≤ 17, ring.capacity = WRITE_BUFFER_INITIAL_SIZE * 2 ^ k

theorem capacity_le_limit {k : ℕ} (h : k ≤ 17) :
    WRITE_BUFFER_INITIAL_SIZE * 2 ^ k ≤ WRITE_LIMIT := by
  calc WRITE_BUFFER_INITIAL_SIZE * 2 ^ k
      ≤ WRITE_BUFFER_INITIAL_SIZE * 2 ^ 17 :=
        Nat.mul_le_mul_left _ (Nat.pow_le_pow_right (by omega) h)
    _ = WRITE_LIMIT := by decide

theorem write_capacity_loop_spec (hsize : required_size ≤ WRITE_LIMIT) (fuel k : ℕ) (hk : k ≤ 17)
    (hfuel : 17 < fuel + k) :
    ∃ j ≤ 17, write_capacity_loop required_size fuel (WRITE_BUFFER_INITIAL_SIZE * 2 ^ k) =
        some (WRITE_BUFFER_INITIAL_SIZE * 2 ^ j) ∧
      required_size ≤ WRITE_BUFFER_INITIAL_SIZE * 2 ^ j := by
  induction fuel generalizing k with
  | zero => omega
  | succ fuel ih =>
    rw [write_capacity_loop]
    by_cases hless : WRITE_BUFFER_INITIAL_SIZE * 2 ^ k < required_size
    · -- the size is below the limit, so the next one is an `int`
      have hnext : k + 1 ≤ 17 := by
        by_contra hk'
        have hlast : k = 17 := by omega
        rw [hlast] at hless
        exact absurd (lt_of_lt_of_le hless hsize) (by decide)
      have hdouble : WRITE_BUFFER_INITIAL_SIZE * 2 ^ k * 2 =
        WRITE_BUFFER_INITIAL_SIZE * 2 ^ (k + 1) := by
        rw [pow_succ, Nat.mul_assoc]
      have hint : ¬ WRITE_BUFFER_INITIAL_SIZE * 2 ^ (k + 1) > INT_MAX := by
        have hle := capacity_le_limit hnext
        have hlimit : WRITE_LIMIT ≤ INT_MAX := by decide
        omega
      rw [if_pos hless, hdouble, if_neg hint]
      exact ih (k + 1) hnext (by omega)
    · rw [if_neg hless]
      exact ⟨k, hk, rfl, by omega⟩

theorem write_capacity_loop_none (hsize : WRITE_LIMIT < required_size) (fuel k : ℕ) (hk : k ≤ 17) :
    write_capacity_loop required_size fuel (WRITE_BUFFER_INITIAL_SIZE * 2 ^ k) = none := by
  induction fuel generalizing k with
  | zero => rfl
  | succ fuel ih =>
    have hless : WRITE_BUFFER_INITIAL_SIZE * 2 ^ k < required_size :=
      lt_of_le_of_lt (capacity_le_limit hk) hsize
    rw [write_capacity_loop, if_pos hless]
    by_cases hint : WRITE_BUFFER_INITIAL_SIZE * 2 ^ k * 2 > INT_MAX
    · rw [if_pos hint]
    have hdouble : WRITE_BUFFER_INITIAL_SIZE * 2 ^ k * 2 =
      WRITE_BUFFER_INITIAL_SIZE * 2 ^ (k + 1) := by
      rw [pow_succ, Nat.mul_assoc]
    have hnext : k + 1 ≤ 17 := by
      by_contra hk'
      have hlast : k = 17 := by omega
      rw [hlast] at hint
      exact hint (by decide)
    rw [if_neg hint, hdouble]
    exact ih (k + 1) hnext

theorem Grown.pos (h : Grown ring) : WRITE_BUFFER_INITIAL_SIZE ≤ ring.capacity := by
  obtain ⟨k, -, hcapacity⟩ := h
  rw [hcapacity]
  exact Nat.le_mul_of_pos_right _ (Nat.two_pow_pos k)

theorem ensure_write_capacity_spec (h : Grown ring) (hsize : required_size ≤ WRITE_LIMIT) :
    ∃ ring', ensure_write_capacity ring required_size = some ring' ∧ Grown ring' ∧
      ring'.contents = ring.contents ∧ required_size ≤ ring'.capacity := by
  unfold ensure_write_capacity
  have hinitial := h.pos
  have hpositive : 0 < WRITE_BUFFER_INITIAL_SIZE := by decide
  by_cases hzero : required_size = 0
  · rw [if_pos hzero]
    rw [if_pos hinitial]
    exact ⟨ring, rfl, h, rfl, by omega⟩
  rw [if_neg hzero]
  dsimp only
  by_cases hfits : ring.capacity ≥ required_size
  · rw [if_pos hfits]
    exact ⟨ring, rfl, h, rfl, hfits⟩
  rw [if_neg hfits, if_neg (by omega)]
  obtain ⟨k, hk, hcapacity⟩ := h
  obtain ⟨j, hj, hloop, hroom⟩ := write_capacity_loop_spec hsize 32 k hk (by omega)
  rw [hcapacity, hloop]
  dsimp only
  have hlength : (ring.peek ring.size).length = ring.size := by
    rw [RingBuf.peek_eq, length_take, RingBuf.length_contents, min_self]
  have hlarger : (ring.peek ring.size).length < WRITE_BUFFER_INITIAL_SIZE * 2 ^ j := by
    have hring := ring.size_le
    omega
  rw [dif_pos hlarger]
  refine ⟨_, rfl, ⟨j, hj, rfl⟩, ?_, hroom⟩
  rw [RingBuf.contents_ofList, RingBuf.peek_eq, ← RingBuf.length_contents, take_length]

theorem ensure_write_capacity_none (h : Grown ring) (hsize : WRITE_LIMIT < required_size) :
    ensure_write_capacity ring required_size = none := by
  unfold ensure_write_capacity
  have hinitial := h.pos
  have hpositive : 0 < WRITE_BUFFER_INITIAL_SIZE := by decide
  obtain ⟨k, hk, hcapacity⟩ := h
  have hle := capacity_le_limit hk
  have hzero : required_size ≠ 0 := by omega
  rw [if_neg hzero]
  dsimp only
  rw [if_neg (by omega), if_neg (by omega), hcapacity, write_capacity_loop_none hsize 32 k hk]

/-- A write that appends a text to the ring. -/
def Appends (w : Writes) (text : Bytes) : Prop :=
  ∀ ring, Grown ring → ring.contents.length + text.length ≤ WRITE_LIMIT →
    ∃ ring', w ring = some (ring', true) ∧ Grown ring' ∧ ring'.contents = ring.contents ++ text

theorem appends_add_response (text : Bytes) : Appends (add_response text) text := by
  intro ring hgrown hsize
  rw [RingBuf.length_contents] at hsize
  obtain ⟨ring', hensure, hgrown', hcontents, hroom⟩ :=
    ensure_write_capacity_spec hgrown hsize
  have hlimit : WRITE_LIMIT ≤ INT_MAX := by decide
  have hsame : ring'.size = ring.size := by
    rw [← RingBuf.length_contents, hcontents, RingBuf.length_contents]
  have hwritable : text.length ≤ ring'.writable := by
    unfold RingBuf.writable
    omega
  refine ⟨ring'.append text, ?_, ?_, ?_⟩
  · rw [add_response, if_neg (by omega), if_neg (by omega), hensure]
    dsimp only
    rw [if_pos hwritable]
  · obtain ⟨k, hk, hcapacity⟩ := hgrown'
    exact ⟨k, hk, by rw [RingBuf.capacity_append, hcapacity]⟩
  · rw [RingBuf.contents_append _ hwritable, hcontents]

variable {text t content_type : Bytes} {first second : Writes} {r : Reply} {status content_len : ℤ}

theorem add_response_overflow (h : Grown ring)
    (hsize : WRITE_LIMIT < ring.contents.length + text.length) :
    add_response text ring = none ∨ add_response text ring = some (ring, false) := by
  rw [RingBuf.length_contents] at hsize
  unfold add_response
  by_cases hlong : text.length > INT_MAX
  · rw [if_pos hlong]
    exact .inr rfl
  rw [if_neg hlong]
  by_cases hsum : ring.size + text.length > INT_MAX
  · rw [if_pos hsum]
    exact .inl rfl
  · rw [if_neg hsum, ensure_write_capacity_none h hsize]
    exact .inl rfl

theorem appends_nothing : Appends .nothing [] := by
  intro ring hgrown _
  exact ⟨ring, rfl, hgrown, (append_nil _).symm⟩

theorem Appends.then {both : Writes} (h : Appends first s) (h' : Appends second t)
    (hboth : ∀ ring ring', first ring = some (ring', true) → both ring = second ring') :
    Appends both (s ++ t) := by
  intro ring hgrown hsize
  rw [length_append] at hsize
  obtain ⟨ring₁, hfirst, hgrown₁, hcontents₁⟩ := h ring hgrown (by omega)
  obtain ⟨ring₂, hsecond, hgrown₂, hcontents₂⟩ :=
    h' ring₁ hgrown₁ (by rw [hcontents₁, length_append]; omega)
  refine ⟨ring₂, (hboth ring ring₁ hfirst).trans hsecond, hgrown₂, ?_⟩
  rw [hcontents₂, hcontents₁, append_assoc]

theorem Appends.and (h : Appends first s) (h' : Appends second t) :
    Appends (first.and second) (s ++ t) :=
  h.then h' fun _ _ hfirst => by rw [Writes.and, hfirst]

theorem Appends.next (h : Appends first s) (h' : Appends second t) :
    Appends (first.next second) (s ++ t) :=
  h.then h' fun _ _ hfirst => by rw [Writes.next, hfirst]

/-- A ring as `init` leaves it. -/
structure Fresh (ring : Ring) : Prop where
  grown : Grown ring
  empty : ring.contents = []

theorem schedule_appends {w : Writes} (h : Appends w text) (hring : Fresh ring)
    (hsize : text.length ≤ WRITE_LIMIT) (more : ℕ) (file : Bytes) :
    schedule w more file ring = some (some ⟨text, to_int (text.length + more), file⟩) := by
  have hroom : ring.contents.length + text.length ≤ WRITE_LIMIT := by
    rw [hring.empty, length_nil, Nat.zero_add]
    exact hsize
  obtain ⟨ring', hwrite, -, hcontents⟩ := h ring hring.grown hroom
  rw [hring.empty, nil_append] at hcontents
  have hlength : ring'.size = text.length := by
    rw [← RingBuf.length_contents, hcontents]
  rw [schedule, hwrite]
  dsimp only
  rw [hcontents, hlength]

/-! ## The lines of a head -/

def status_line (status : ℤ) (title : Bytes) : Bytes :=
  lit "HTTP/1.1 " ++ to_string status ++ lit " " ++ title

def length_line (content_len : ℤ) : Bytes := lit "Content-Length:" ++ to_string content_len

/-- What `add_content_type` writes, without its ending. -/
def type_line (content_type : Bytes) : Bytes := lit "Content-Type:" ++ content_type

/-- The lines of `add_linger`, `add_keep_alive` and `add_allow`. -/
def connection_lines (linger : Bool) : List Bytes :=
  (lit "Connection:" ++ if linger then lit "keep-alive" else lit "close") ::
    ((if linger then [lit "Keep-Alive:timeout=15, max=100"] else []) ++
      [lit "Allow:GET, POST, HEAD, OPTIONS, DELETE"])

/-- The lines of a head. The content type may hold line endings of its own. -/
def head_lines (linger : Bool) (status : ℤ) (title : Bytes) (content_len : ℤ)
    (content_type : Bytes) (extra : List Bytes) : List Bytes :=
  status_line status title :: length_line content_len ::
    (split_crlf (type_line content_type) ++ (connection_lines linger ++ extra))

theorem appends_headers (hextra : r.m_extra_headers = unlines extra)
    (hnul : (0 : UInt8) ∉ unlines extra) (content_len : ℤ) (content_type : Bytes) :
    Appends (add_headers r content_len content_type)
      (unlines (length_line content_len :: (split_crlf (type_line content_type) ++
        (connection_lines r.m_linger ++ extra))) ++ crlf) := by
  have hkeep : Appends (add_keep_alive r)
      (unlines (if r.m_linger then [lit "Keep-Alive:timeout=15, max=100"] else [])) := by
    unfold add_keep_alive
    by_cases hlinger : r.m_linger = true
    · rw [if_pos hlinger, if_pos hlinger, unlines_cons, unlines_nil, append_nil]
      exact appends_add_response _
    · rw [if_neg hlinger, if_neg hlinger]
      exact appends_nothing
  have hlast : Appends (add_extra_headers r) (unlines extra) := by
    unfold add_extra_headers
    rw [hextra]
    by_cases hnone : unlines extra = []
    · rw [if_pos hnone, hnone]
      exact appends_nothing
    · rw [if_neg hnone, c_str_eq hnul]
      exact appends_add_response _
  have hall := (appends_add_response
    (lit "Content-Length:" ++ to_string content_len ++ CRLF)).and <|
    (appends_add_response (lit "Content-Type:" ++ content_type ++ CRLF)).and <|
      (appends_add_response (lit "Connection:" ++
        (if r.m_linger then lit "keep-alive" else lit "close") ++ CRLF)).and <|
        hkeep.and <| (appends_add_response
          (lit "Allow:GET, POST, HEAD, OPTIONS, DELETE" ++ CRLF)).and <|
          hlast.and (appends_add_response CRLF)
  have htext : unlines (length_line content_len :: (split_crlf (type_line content_type) ++
      (connection_lines r.m_linger ++ extra))) ++ crlf =
      (lit "Content-Length:" ++ to_string content_len ++ CRLF) ++
        ((lit "Content-Type:" ++ content_type ++ CRLF) ++
          ((lit "Connection:" ++ (if r.m_linger then lit "keep-alive" else lit "close") ++ CRLF) ++
            (unlines (if r.m_linger then [lit "Keep-Alive:timeout=15, max=100"] else []) ++
              ((lit "Allow:GET, POST, HEAD, OPTIONS, DELETE" ++ CRLF) ++
                (unlines extra ++ CRLF))))) := by
    simp only [connection_lines, unlines_cons, unlines_append, unlines_split, unlines_nil,
      length_line, type_line, crlf, CRLF, CR, LF, append_assoc, append_nil]
  rw [htext]
  exact hall

theorem appends_response (hextra : r.m_extra_headers = unlines extra)
    (hnul : (0 : UInt8) ∉ unlines extra) (status : ℤ) (title : Bytes) (content_len : ℤ)
    (content_type : Bytes) (content : Option Bytes) :
    Appends (write_response r status title content_len content_type content)
      (unlines (head_lines r.m_linger status title content_len content_type extra) ++ crlf ++
        content.getD []) := by
  have hstatus := appends_add_response (status_line status title ++ CRLF)
  have hheaders := appends_headers hextra hnul content_len content_type
  have htext :
    unlines (head_lines r.m_linger status title content_len content_type extra) ++ crlf ++
      content.getD [] = (status_line status title ++ CRLF) ++
        (unlines (length_line content_len :: (split_crlf (type_line content_type) ++
          (connection_lines r.m_linger ++ extra))) ++ crlf ++ content.getD []) := by
    rw [head_lines, unlines_cons]
    simp only [append_assoc]
    rfl
  rw [htext]
  cases content with
  | none => exact hstatus.next (hheaders.next appends_nothing)
  | some content => exact hstatus.next (hheaders.next (appends_add_response content))

/-! ## Cutting a response at its line endings -/

theorem oneLine_of_printable (h : Printable s) : OneLine s := by
  apply oneLine_of_plain
  rintro b hb rfl
  exact absurd (h 13 hb).1 (by decide)

theorem printable_to_string (n : ℤ) : Printable (to_string n) := by
  intro b hb
  have hbounds := mem_to_string_bounds hb
  omega

theorem printable_status_line (h : Printable title) (status : ℤ) :
    Printable (status_line status title) := by
  refine .append (.append (.append ?_ (printable_to_string status)) ?_) h
  · decide
  · decide

theorem printable_length_line (content_len : ℤ) : Printable (length_line content_len) := by
  refine .append ?_ (printable_to_string content_len)
  decide

theorem printable_connection_lines (linger : Bool) :
    ∀ line ∈ connection_lines linger, Printable line := by
  cases linger <;> decide

theorem printable_content_disposition (download_name : Bytes) :
    Printable (content_disposition download_name) := by
  refine .append (.append (.append ?_ (printable_sanitized _)) ?_) (printable_encoded _)
  · decide
  · decide

theorem split_type_line (content_type : Bytes) :
    split_crlf (type_line content_type) =
      (split_crlf content_type).modifyHead (lit "Content-Type:" ++ ·) := by
  apply split_plain_append
  decide +kernel

theorem oneLine_type_line : OneLine (type_line content_type) ↔ OneLine content_type := by
  unfold OneLine
  rw [split_type_line]
  obtain ⟨first, rest, hsplit⟩ := exists_cons_of_ne_nil (split_ne_nil content_type)
  rw [hsplit, type_line, modifyHead_cons]
  simp

theorem oneLine_head_lines (htitle : Printable title) (hextra : ∀ line ∈ extra, Printable line)
    (linger : Bool) (status content_len : ℤ) (content_type : Bytes) :
    ∀ line ∈ head_lines linger status title content_len content_type extra, OneLine line := by
  intro line hline
  simp only [head_lines, mem_cons, mem_append] at hline
  rcases hline with rfl | rfl | hpiece | hconnection | hline
  · exact oneLine_of_printable (printable_status_line htitle status)
  · exact oneLine_of_printable (printable_length_line content_len)
  · exact oneLine_of_mem_split hpiece
  · exact oneLine_of_printable (printable_connection_lines linger line hconnection)
  · exact oneLine_of_printable (hextra line hline)

theorem split_response {linger : Bool} (htitle : Printable title)
    (hextra : ∀ line ∈ extra, Printable line) (content : Bytes) :
    split_crlf (unlines (head_lines linger status title content_len content_type extra) ++ crlf ++
        content) =
      head_lines linger status title content_len content_type extra ++
        [] :: split_crlf content := by
  rw [append_assoc,
    split_unlines (oneLine_head_lines htitle hextra linger status content_len content_type)]
  rfl

/-! ## The size of a head -/

def IsInt (n : ℤ) : Prop := -2 ^ 31 ≤ n ∧ n < 2 ^ 31

instance (n : ℤ) : Decidable (IsInt n) := inferInstanceAs (Decidable (_ ∧ _))

theorem isInt_to_int (n : ℤ) : IsInt (to_int n) := by
  unfold IsInt to_int
  have hlow := Int.le_bmod (x := n) (m := 2 ^ 32) (by norm_num)
  have hhigh := Int.bmod_lt (x := n) (m := 2 ^ 32) (by norm_num)
  norm_num at hlow hhigh ⊢
  omega

theorem length_to_string_int {n : ℤ} (h : IsInt n) : (to_string n).length ≤ 11 := by
  apply length_to_string_le
  · decide
  · unfold IsInt at h
    omega

theorem length_head_le (hstatus : IsInt status) (hlength : IsInt content_len) (linger : Bool)
    (title content_type : Bytes) (extra : List Bytes) :
    (unlines (head_lines linger status title content_len content_type extra) ++ crlf).length ≤
      title.length + content_type.length + (unlines extra).length + 300 := by
  have hpieces : (unlines (split_crlf (type_line content_type))).length =
    content_type.length + 15 := by
    rw [unlines_split, type_line, length_append, length_append]
    have hname : (lit "Content-Type:").length = 13 := by decide
    have hcrlf : crlf.length = 2 := rfl
    omega
  have hconnection : (unlines (connection_lines linger)).length ≤ 120 := by
    cases linger <;> decide
  have h1 := length_to_string_int hstatus
  have h2 := length_to_string_int hlength
  have hcrlf : crlf.length = 2 := rfl
  have hhttp : (lit "HTTP/1.1 ").length = 9 := by decide
  have hspace : (lit " ").length = 1 := by decide
  have hname : (lit "Content-Length:").length = 15 := by decide
  simp only [head_lines, unlines_cons, unlines_append, length_append, hpieces, status_line,
    length_line, hcrlf, hhttp, hspace, hname]
  omega

end AtlasWebServer.Http
