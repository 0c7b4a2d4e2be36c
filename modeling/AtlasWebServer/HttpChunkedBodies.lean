/-
Chunked requests: however the bytes after the head are cut into reads, the result and
the decoded body are those of one read, and the encoding of a list of chunks is
decoded to them when its last byte comes.
-/
import AtlasWebServer.HttpChunkReads

set_option autoImplicit false

namespace AtlasWebServer.Http

open Bytes CString RingBuffer List

/-! ## After the head -/

variable {s hd data : Bytes} {h : Head} {c : Conn} {env : Env} {b : UInt8} {r : Result} {k : Chunks}

theorem headed_chunks (env : Env) (fuel : ℕ) {base pos : ℕ} (hc : Headed s base h pos c)
    (hchunked : h.m_chunked = true) (hpos : pos ≤ s.length)
    (hno : (blank_line env c.head (host_byte env c) .init).2 = .NO_REQUEST) :
    Decoded env h (after_line env (fuel + 2) .HEADER (parse_blank_line env c))
      (chunk_run env h .init (empty_body h) (s.drop pos)) := by
  have hbody := blank_line_body hno
  have hhead := hc.head
  have hchunked' : c.head.m_chunked = true := by
    rw [hhead]
    exact hchunked
  have hempty : empty_body c.head = empty_body h := by
    rw [hhead]
    rfl
  obtain ⟨r, hr⟩ : ∃ r, r = blank_line env c.head (host_byte env c) c.body := ⟨_, rfl⟩
  have hparse := parse_blank_line_eq env c
  rw [← hr] at hparse
  rw [hc.body] at hr
  rw [← hr] at hno hbody
  have hafter : after_line env (fuel + 2) .HEADER (parse_blank_line env c)
      = process_read_loop env (fuel + 2) (c.headed r) .LINE_OK := by
    rw [hparse, hno]
    rfl
  -- the decoder begins at the byte after the empty line
  have hidx : (c.headed r).m_chunked_parse_idx = pos := by
    unfold Conn.headed
    dsimp only
    rw [if_pos ⟨hno, hchunked'⟩, hc.checked]
  have hread : (c.headed r).m_read_idx = s.length := hc.view.read_idx
  have hunread : (c.headed r).unread = s.drop pos := by
    unfold Conn.unread
    rw [hidx, hread]
    show (c.m_read_buf.take s.length).drop pos = s.drop pos
    rw [drop_take, ← hc.checked, hc.view.ahead_at hc.view.start_le hc.view.checked_le,
      ← length_drop, take_left]
  have haligned : Aligned (c.headed r) := by
    refine { read_le := ?_, parse_le := ?_, size := ?_, unread := ?_ }
    · rw [hread]
      show s.length ≤ c.m_read_buf.length
      rw [hc.view.length]
      omega
    · rw [hidx, hread]
      exact hpos
    · rw [hread]
      exact congrArg List.length hc.received.symm
    · rw [hunread, hidx]
      exact congrArg (List.drop pos) hc.received.symm
  have hspec := process_read_chunks env fuel (c := c.headed r)
    (by unfold Conn.headed; exact if_pos hno) hchunked' haligned ⟨hc.roomy.size, hc.roomy.room⟩
    (by rw [show (c.headed r).chunks = .init from hc.chunks]; exact wf_init)
  rw [hunread, show (c.headed r).chunks = .init from hc.chunks,
    show (c.headed r).body = empty_body h from hbody.trans hempty,
    show (c.headed r).head = c.head from rfl, hhead, chunk_run_host] at hspec
  rw [hafter]
  exact hspec.of_host

theorem chunked_request (hhead : IsHead hd) (hread : deliver env fresh hd = (c, .code .NO_REQUEST))
    (hst : c.m_check_state = .CONTENT) (hchunked : c.head.m_chunked = true) :
    ∃ h, h.m_chunked = true ∧ is_multipart h = is_multipart c.head ∧
      ∀ p, hd.length + p.length < READ_BUFFER_MAX_SIZE →
        Decoded env h (deliver env fresh (hd ++ p)) (chunk_run env h .init (empty_body h) p) := by
  obtain ⟨hrun, haccept⟩ := accepted_head hhead hread hst
  refine ⟨c.head, hchunked, rfl, fun p hp => ?_⟩
  have hfirst := deliver_fresh env (w := hd ++ p) (by rw [length_append]; omega)
  rw [head_after_complete p hrun] at hfirst
  obtain ⟨c₂, fuel₂, hresult₂, hfuel₂, hheaded₂, hc₂⟩ := hfirst
  have hno := haccept p c₂ hheaded₂ hc₂
  rw [length_append] at hfuel₂
  obtain ⟨n, rfl⟩ : ∃ n, fuel₂ = n + 2 := ⟨fuel₂ - 2, by omega⟩
  have hspec := headed_chunks env n hheaded₂ hchunked (by rw [length_append]; omega)
    (by rw [hc₂]; exact hno)
  rw [drop_left] at hspec
  rw [hresult₂]
  exact hspec

/-! ## The encoding -/

def NoCrlf (l : Bytes) : Prop := ∀ i : ℕ, ¬ (l[i]? = some CR ∧ l[i + 1]? = some LF)

/-- A chunk: the text of its size, an extension and data. -/
structure Chunk where
  size : Bytes
  ext : Bytes
  data : Bytes
  deriving DecidableEq

/-- The size is written in hexadecimal, and an extension starts with a semicolon. -/
structure Chunk.Valid (c : Chunk) : Prop where
  size_ne : c.size ≠ []
  size_hex : c.size.all isxdigit = true
  size_eq : hexadecimal c.size = c.data.length
  ext : c.ext = [] ∨ c.ext.head? = some 59
  ext_line : NoCrlf c.ext

def Chunk.line (c : Chunk) : Bytes := c.size ++ c.ext

def Chunk.encode (c : Chunk) : Bytes := c.line ++ CRLF ++ (c.data ++ CRLF)

def chunk_data (chunks : List Chunk) : Bytes := chunks.flatMap Chunk.data

/-- A chunked body: chunks, a chunk of size zero, trailer lines, the empty line. -/
def encode (chunks : List Chunk) (last : Chunk) (trailers : List Bytes) : Bytes :=
  chunks.flatMap Chunk.encode ++ (last.line ++ CRLF ++ (lines_text trailers ++ CRLF))

/-- What is encoded: chunks with data, one without, and lines that are not empty. -/
structure Encodes (chunks : List Chunk) (last : Chunk) (trailers : List Bytes) : Prop where
  chunks : ∀ c ∈ chunks, c.Valid ∧ c.data ≠ []
  last : last.Valid ∧ last.data = []
  trailers : ∀ t ∈ trailers, t ≠ [] ∧ NoCrlf t

theorem line_length_line {l : Bytes} (hl : NoCrlf l) (rest : Bytes) :
    line_length (l ++ CRLF ++ rest) = some l.length := by
  induction l with
  | nil =>
    show line_length (CR :: LF :: rest) = some 0
    rw [line_length, if_pos ⟨rfl, rfl⟩]
  | cons a l ih =>
    have htail : NoCrlf l := fun i hi => hl (i + 1) hi
    have hrest := ih htail
    obtain ⟨x, tail, hx⟩ : ∃ x tail, l ++ CRLF ++ rest = x :: tail := by
      cases l with
      | nil => exact ⟨CR, LF :: rest, rfl⟩
      | cons b l => exact ⟨b, _, rfl⟩
    have hne : ¬ (a = CR ∧ x = LF) := by
      rintro ⟨rfl, rfl⟩
      cases l with
      | nil => exact absurd (List.cons.inj hx).1 (by decide)
      | cons b l =>
        have hb : b = LF := (List.cons.inj hx).1
        exact hl 0 ⟨rfl, congrArg some hb⟩
    rw [cons_append, cons_append, hx, line_length, if_neg hne, ← hx, hrest]
    rfl

theorem isxdigit_facts (hb : isxdigit b = true) : b ≠ CR ∧ b ≠ 59 ∧ b ∉ blank := by
  refine ⟨?_, ?_, ?_⟩
  · rintro rfl
    exact absurd hb (by decide)
  · rintro rfl
    exact absurd hb (by decide)
  · intro hblank
    simp only [blank, mem_cons, not_mem_nil, or_false] at hblank
    rcases hblank with rfl | rfl <;> exact absurd hb (by decide)

section Lines

variable {c : Chunk} (hc : c.Valid)

include hc

theorem Chunk.Valid.hex (hb : b ∈ c.size) : isxdigit b = true :=
  List.all_eq_true.mp hc.size_hex b hb

theorem Chunk.Valid.line_noCrlf : NoCrlf c.line := by
  rintro i ⟨hcr, hlf⟩
  unfold Chunk.line at hcr hlf
  by_cases hi : i < c.size.length
  · rw [getElem?_append_left hi] at hcr
    exact (isxdigit_facts (hc.hex (mem_of_getElem? hcr))).1 rfl
  rw [getElem?_append_right (by omega)] at hcr hlf
  refine hc.ext_line (i - c.size.length) ⟨hcr, ?_⟩
  rw [← hlf]
  congr 1
  omega

theorem Chunk.Valid.parse_size (hlen : (c.data.length : ℤ) < LONG_MAX) :
    parse_chunk_size_line c.line = some c.data.length := by
  have hdrop : c.line.dropWhile (· ∈ blank) = c.line := by
    unfold Chunk.line
    cases hsize : c.size with
    | nil => exact absurd hsize hc.size_ne
    | cons b size =>
      have hb := (isxdigit_facts (hc.hex (b := b) (by rw [hsize]; simp))).2.2
      rw [cons_append, dropWhile_cons_of_neg (by simpa using hb)]
  have htake : c.line.takeWhile (fun b => b ≠ 59 ∧ b ∉ blank) = c.size := by
    have hall : ∀ b ∈ c.size, decide (b ≠ 59 ∧ b ∉ blank) = true := by
      intro b hb
      exact decide_eq_true (isxdigit_facts (hc.hex hb)).2
    unfold Chunk.line
    rw [takeWhile_append_of_pos hall]
    rcases hc.ext with hnil | hsemi
    · rw [hnil, takeWhile_nil, append_nil]
    cases hext : c.ext with
    | nil => rw [takeWhile_nil, append_nil]
    | cons b ext =>
      rw [hext, List.head?_cons, Option.some.injEq] at hsemi
      rw [takeWhile_cons_of_neg (by simp [hsemi]), append_nil]
  unfold parse_chunk_size_line
  rw [hdrop]
  dsimp only
  rw [htake, if_neg, hc.size_eq, if_pos hlen]
  rw [hc.size_hex]
  simpa using hc.size_ne

end Lines

theorem append_ne_nil {a b : Bytes} (h : a ≠ []) : a ++ b ≠ [] :=
  fun hnil => h (List.append_eq_nil_iff.mp hnil).1

section Encoded

variable {b : Body}

theorem chunk_run_line (env : Env) (h : Head) (b : Body) {c : Chunk} (hc : c.Valid)
    (hlen : (c.data.length : ℤ) < LONG_MAX)
    (hst : k.m_chunk_state = .SIZE) (rest : Bytes) :
    chunk_run env h k b (c.line ++ CRLF ++ rest) =
      chunk_run env h { k with
        m_chunk_size := c.data.length
        m_chunk_bytes_read := 0
        m_chunk_state := if c.data.length = 0 then .TRAILER else .DATA } b rest := by
  have hne : c.line ++ CRLF ++ rest ≠ [] := append_ne_nil (append_ne_nil (append_ne_nil hc.size_ne))
  have hstep := chunk_step_size env h b hst hne
  rw [line_length_line hc.line_noCrlf] at hstep
  dsimp only at hstep
  rw [append_assoc, take_left, hc.parse_size hlen] at hstep
  have hdrop : (c.line ++ (CRLF ++ rest)).drop (c.line.length + 2) = rest :=
    drop_length_add_append 2
  rw [hdrop] at hstep
  rw [append_assoc]
  refine chunk_run_next env h ?_ hstep
  intro hdata
  rw [hst] at hdata
  cases hdata

theorem chunk_run_crlf (hst : k.m_chunk_state = .DATA_CRLF) (rest : Bytes) :
    chunk_run env h k b (CRLF ++ rest) =
      chunk_run env h { k with m_chunk_state := .SIZE } b rest := by
  have hne : CRLF ++ rest ≠ [] := nofun
  have hstep := chunk_step_data_crlf env h b hst hne
  rw [if_neg (by rw [length_append]; exact Nat.not_lt.mpr (Nat.le_add_right 2 _)),
    if_neg (fun htake => htake rfl)] at hstep
  refine chunk_run_next env h ?_ hstep
  intro hdata
  rw [hst] at hdata
  contradiction

variable (hfwrite : env.fwrite = true) (hchunked : h.m_chunked = true)

include hfwrite hchunked

theorem chunk_run_data {data : Bytes} (hdata : data ≠ []) (hst : k.m_chunk_state = .DATA)
    (hsize : k.m_chunk_size = data.length) (hread : k.m_chunk_bytes_read = 0)
    (hallow : Allows env k b data.length) (rest : Bytes) :
    chunk_run env h k b (data ++ rest) =
      chunk_run env h { read_data k b data.length with m_chunk_state := .DATA_CRLF }
        (store_body b data) rest := by
  have hpos := length_pos_iff.mpr hdata
  have hk : k.WF := by
    intro _
    omega
  have hn : data.length = min (data ++ rest).length (k.m_chunk_size - k.m_chunk_bytes_read) := by
    rw [length_append]
    omega
  have hstep := chunk_step_stored hfwrite hchunked hk hst (append_ne_nil hdata) hn hallow
  rw [if_neg (by omega), take_left, drop_left] at hstep
  exact chunk_run_next env h hk hstep

theorem chunk_run_chunk {c : Chunk} (hc : c.Valid) (hdata : c.data ≠ [])
    (hlen : (c.data.length : ℤ) < LONG_MAX) (hst : k.m_chunk_state = .SIZE)
    (hallow : Allows env k b c.data.length) (rest : Bytes) :
    ∃ k', k'.m_chunk_state = .SIZE ∧
      (∀ n, Allows env k b (c.data.length + n) → Allows env k' (store_body b c.data) n) ∧
      chunk_run env h k b (c.encode ++ rest) = chunk_run env h k' (store_body b c.data) rest := by
  have hpos := length_pos_iff.mpr hdata
  unfold Chunk.encode
  obtain ⟨k₁, hk₁⟩ : ∃ k₁ : Chunks, k₁ = { k with
      m_chunk_size := c.data.length, m_chunk_bytes_read := 0, m_chunk_state := .DATA } := ⟨_, rfl⟩
  have hallow₁ : Allows env k₁ b c.data.length := by
    rw [hk₁]
    exact hallow
  have hline := chunk_run_line env h b hc hlen hst (c.data ++ (CRLF ++ rest))
  rw [if_neg (by omega), ← hk₁, chunk_run_data hfwrite hchunked hdata (by rw [hk₁])
    (by rw [hk₁]) (by rw [hk₁]) hallow₁, chunk_run_crlf rfl] at hline
  refine ⟨{ read_data k₁ b c.data.length with m_chunk_state := .SIZE }, rfl, ?_, ?_⟩
  · intro n hn
    have hn₁ : Allows env k₁ b (c.data.length + n) := by
      rw [hk₁]
      exact hn
    exact (allows_append k₁ b c.data 0 n env).mpr hn₁
  have happend : c.line ++ CRLF ++ (c.data ++ CRLF) ++ rest
      = c.line ++ CRLF ++ (c.data ++ (CRLF ++ rest)) := by simp
  rw [happend]
  exact hline

theorem chunk_run_chunks (chunks : List Chunk) (hc : ∀ c ∈ chunks, c.Valid ∧ c.data ≠ [])
    (hlen : ((chunk_data chunks).length : ℤ) < LONG_MAX) (hst : k.m_chunk_state = .SIZE)
    (hallow : Allows env k b (chunk_data chunks).length) (rest : Bytes) :
    ∃ k', k'.m_chunk_state = .SIZE ∧
      chunk_run env h k b (chunks.flatMap Chunk.encode ++ rest)
        = chunk_run env h k' (store_body b (chunk_data chunks)) rest := by
  induction chunks generalizing k b with
  | nil =>
    have hsame : store_body b (chunk_data []) = b := store_body_nil b
    rw [hsame]
    exact ⟨k, hst, rfl⟩
  | cons c chunks ih =>
    have hdata : chunk_data (c :: chunks) = c.data ++ chunk_data chunks := flatMap_cons
    rw [hdata, length_append] at hlen hallow
    obtain ⟨hvalid, hne⟩ := hc c (by simp)
    obtain ⟨k₁, hst₁, hallow₁, hrun₁⟩ := chunk_run_chunk hfwrite hchunked hvalid hne
      (by push_cast at hlen; omega) hst (hallow.mono (Nat.le_add_right _ _))
      (chunks.flatMap Chunk.encode ++ rest)
    obtain ⟨k₂, hst₂, hrun₂⟩ := ih (fun c hc' => hc c (mem_cons_of_mem _ hc'))
      (by push_cast at hlen; omega) hst₁ (hallow₁ _ hallow)
    refine ⟨k₂, hst₂, ?_⟩
    rw [flatMap_cons, append_assoc, hrun₁, hrun₂, store_body_append, hdata]

omit hfwrite hchunked in
theorem chunk_run_trailers (env : Env) (h : Head) (b : Body) (trailers : List Bytes)
    (ht : ∀ t ∈ trailers, t ≠ [] ∧ NoCrlf t)
    (hst : k.m_chunk_state = .TRAILER) :
    ∃ k', chunk_run env h k b (lines_text trailers ++ CRLF) = .done k' b [] .GET_REQUEST := by
  have hk : k.WF := by
    intro hdata
    rw [hst] at hdata
    contradiction
  induction trailers with
  | nil =>
    have hstep := chunk_step_trailer env h b (s := CRLF) hst (nofun)
    refine ⟨{ k with m_chunk_state := .DONE }, ?_⟩
    show chunk_run env h k b CRLF = _
    rw [chunk_run_eq env h b hk, hstep]
    rfl
  | cons t trailers ih =>
    obtain ⟨hne, hcrlf⟩ := ht t (by simp)
    obtain ⟨k', hrest⟩ := ih fun t ht' => ht t (mem_cons_of_mem _ ht')
    refine ⟨k', ?_⟩
    have htext : lines_text (t :: trailers) ++ CRLF
        = t ++ CRLF ++ (lines_text trailers ++ CRLF) := by
      simp [lines_text]
    rw [htext]
    have hstep := chunk_step_trailer env h b hst
      (append_ne_nil (append_ne_nil hne) : t ++ CRLF ++ (lines_text trailers ++ CRLF) ≠ [])
    rw [line_length_line hcrlf] at hstep
    obtain ⟨n, hn⟩ : ∃ n, t.length = n + 1 :=
      ⟨t.length - 1, by have := length_pos_iff.mpr hne; omega⟩
    rw [hn] at hstep
    dsimp only at hstep
    have hdrop : (t ++ CRLF ++ (lines_text trailers ++ CRLF)).drop (n + 1 + 2)
        = lines_text trailers ++ CRLF := by
      rw [← hn, append_assoc]
      exact drop_length_add_append 2
    rw [hdrop] at hstep
    rw [chunk_run_next env h hk hstep]
    exact hrest

theorem chunk_run_encode {chunks : List Chunk} {last : Chunk} {trailers : List Bytes}
    (he : Encodes chunks last trailers) (hlen : ((chunk_data chunks).length : ℤ) < LONG_MAX)
    (hallow : Allows env .init b (chunk_data chunks).length) :
    ∃ k', chunk_run env h .init b (encode chunks last trailers)
      = .done k' (store_body b (chunk_data chunks)) [] .GET_REQUEST := by
  obtain ⟨k₁, hst₁, hrun₁⟩ := chunk_run_chunks hfwrite hchunked chunks he.chunks hlen rfl hallow
    (last.line ++ CRLF ++ (lines_text trailers ++ CRLF))
  obtain ⟨hvalid, hempty⟩ := he.last
  have hzero : last.data.length = 0 := by rw [hempty, length_nil]
  have hline := chunk_run_line env h (store_body b (chunk_data chunks)) hvalid
    (by rw [hzero]; decide) hst₁ (lines_text trailers ++ CRLF)
  rw [hzero, if_pos rfl] at hline
  obtain ⟨k', htrailers⟩ := chunk_run_trailers env h (store_body b (chunk_data chunks)) trailers
    he.trailers
    (show ({ k₁ with m_chunk_size := 0, m_chunk_bytes_read := 0, m_chunk_state := .TRAILER } :
      Chunks).m_chunk_state = .TRAILER from rfl)
  refine ⟨k', ?_⟩
  unfold encode
  rw [hrun₁, hline, htrailers]

end Encoded

/-! ## Requests -/

theorem decoded_body_store (hc : c.body = store_body (empty_body h) data) :
    decoded_body c = data := by
  unfold decoded_body
  rw [hc]
  unfold empty_body store_body Body.init
  split_ifs <;> simp

theorem drive_chunked_request (hfwrite : env.fwrite = true) (hchunked : h.m_chunked = true)
    (hfirst : ∀ p, hd.length + p.length < READ_BUFFER_MAX_SIZE →
      Decoded env h (deliver env fresh (hd ++ p)) (chunk_run env h .init (empty_body h) p))
    (p : Bytes) (ps : List Bytes)
    (hmax : hd.length + (p ++ ps.flatten).length < READ_BUFFER_MAX_SIZE) :
    Decoded env h (drive env fresh ((hd ++ p) :: ps))
      (chunk_run env h .init (empty_body h) (p ++ ps.flatten)) := by
  rw [length_append] at hmax
  have hread := hfirst p (by omega)
  have hagree := chunk_run_append (b := empty_body h) (s := p) hfwrite hchunked wf_init ps.flatten
  refine Decoded.congr ?_ hagree
  obtain ⟨hspec, hends⟩ := chunk_run_spec env h (empty_body h) (s := p) wf_init
  cases hrun : chunk_run env h .init (empty_body h) p with
  | next k' b' s' => exact absurd hrun (hends k' b' s')
  | wait k' b' s' =>
    rw [hrun] at hread hspec
    obtain ⟨hno, hwait, host, hhead⟩ := hread
    obtain ⟨-, -, -, n, -, hs'⟩ := hspec
    have hlen : s'.length ≤ p.length := by
      rw [hs', length_drop]
      omega
    rw [drive_more ps hno]
    exact drive_chunks env hfwrite hchunked hwait hhead ps (by omega)
  | done k' b' s' code =>
    rw [hrun] at hread hspec
    obtain ⟨hcode, -⟩ := hspec
    obtain ⟨hout, hbody⟩ := hread
    rw [drive_stop ps (by rw [hout]; exact outcome_ne_no_request hcode)]
    exact ⟨hout, hbody⟩

theorem Decoded.unique {r' : Result} {d : ChunkStep} (hspec : d.Spec env h s)
    (hr : Decoded env h r d) (hr' : Decoded env h r' d) :
    r.2 = r'.2 ∧ (r'.2 = .do_request ∨ r'.2 = .code .NO_REQUEST →
      decoded_body r.1 = decoded_body r'.1) := by
  unfold decoded_body
  cases d with
  | next k b s => exact absurd hr id
  | wait k b s =>
    refine ⟨hr.1.trans hr'.1.symm, fun _ => ?_⟩
    rw [hr.2.1.body, hr'.2.1.body]
  | done k b s code =>
    refine ⟨hr.1.trans hr'.1.symm, fun hout => ?_⟩
    have hget : code = .GET_REQUEST := by
      by_contra hne
      rw [hr'.1, if_neg hne] at hout
      rcases hout with hdo | hno
      · contradiction
      · rw [Outcome.code.injEq] at hno
        rw [hno] at hspec
        exact absurd hspec.1 (by decide)
    rw [hr.2 hget, hr'.2 hget]

theorem length_chunk_data_le (chunks : List Chunk) (last : Chunk) (trailers : List Bytes) :
    (chunk_data chunks).length ≤ (encode chunks last trailers).length := by
  have hchunks : (chunk_data chunks).length ≤ (chunks.flatMap Chunk.encode).length := by
    induction chunks with
    | nil => exact Nat.zero_le _
    | cons c chunks ih =>
      unfold chunk_data Chunk.encode at ih ⊢
      simp only [flatMap_cons, length_append] at ih ⊢
      omega
  unfold encode
  rw [length_append]
  omega

theorem allows_init {n : ℕ} (hmax : n ≤ READ_BUFFER_MAX_SIZE) (hspool : is_multipart h = true →
      n ≤ env.upload_max_bytes + env.upload_request_overhead_bytes) :
    Allows env .init (empty_body h) n := by
  unfold Allows empty_body Chunks.init Body.init
  by_cases hm : is_multipart h = true
  · simpa [hm] using hspool hm
  · simpa [hm] using hmax

theorem chunk_run_proper (hfwrite : env.fwrite = true) (hchunked : h.m_chunked = true) {b b' : Body}
    {q : Bytes} (hq : q ≠ [])
    (hall : chunk_run env h .init b (s ++ q) = .done k b' [] .GET_REQUEST) :
    ∃ k₁ b₁ s₁, chunk_run env h .init b s = .wait k₁ b₁ s₁ := by
  have hagree := chunk_run_append (b := b) (s := s) hfwrite hchunked wf_init q
  rw [hall] at hagree
  cases hrun : chunk_run env h .init b s with
  | next k₁ b₁ s₁ => exact absurd hrun ((chunk_run_spec env h b wf_init).2 k₁ b₁ s₁)
  | wait k₁ b₁ s₁ => exact ⟨k₁, b₁, s₁, rfl⟩
  | done k₁ b₁ s₁ code =>
    rw [hrun] at hagree
    rcases hagree with heq | ⟨_, _, _, _, _, _, code', hdone, -, herror⟩
    · have hnil : [] = s₁ ++ q := (ChunkStep.done.inj heq).2.2.1
      exact absurd (append_eq_nil_iff.mp hnil.symm).2 hq
    · rw [← (ChunkStep.done.inj hdone).2.2.2] at herror
      exact absurd herror (by decide)

/-- **Chunked bodies, in any number of reads.** The result and, unless it is an error,
the decoded body are those of one read; and an encoding gives `do_request` and its data
when its last byte has come, and nothing before. -/
theorem chunked_body_any_cut (env : Env) (hd b : Bytes) (c : Conn) (hfwrite : env.fwrite = true)
    (hhead : IsHead hd) (hread : deliver env fresh hd = (c, .code .NO_REQUEST))
    (hst : c.m_check_state = .CONTENT) (hchunked : c.head.m_chunked = true)
    (hfits : hd.length + b.length < READ_BUFFER_MAX_SIZE) :
    (∀ p ps, p ++ ps.flatten = b →
      (drive env fresh ((hd ++ p) :: ps)).2 = (drive env fresh [hd ++ b]).2 ∧
      ((drive env fresh [hd ++ b]).2 = .do_request ∨
          (drive env fresh [hd ++ b]).2 = .code .NO_REQUEST →
        decoded_body (drive env fresh ((hd ++ p) :: ps)).1
          = decoded_body (drive env fresh [hd ++ b]).1)) ∧
    (∀ chunks last trailers, Encodes chunks last trailers → b = encode chunks last trailers →
      (is_multipart c.head = true → (chunk_data chunks).length
        ≤ env.upload_max_bytes + env.upload_request_overhead_bytes) →
      ∀ p ps q, p ++ ps.flatten ++ q = b →
        if q = [] then
          (drive env fresh ((hd ++ p) :: ps)).2 = .do_request ∧
            decoded_body (drive env fresh ((hd ++ p) :: ps)).1 = chunk_data chunks
        else (drive env fresh ((hd ++ p) :: ps)).2 = .code .NO_REQUEST) := by
  obtain ⟨h, hh, hmulti, hfirst⟩ := chunked_request hhead hread hst hchunked
  have hdrive := drive_chunked_request hfwrite hh hfirst
  refine ⟨?_, ?_⟩
  · rintro p ps rfl
    have hcut := hdrive p ps hfits
    have hone := hdrive (p ++ ps.flatten) [] (by rw [flatten_nil, append_nil]; exact hfits)
    rw [flatten_nil, append_nil] at hone
    exact Decoded.unique (chunk_run_spec env h (empty_body h) wf_init).1 hcut hone
  rintro chunks last trailers he rfl hspool p ps q hcut
  have hlen := length_chunk_data_le chunks last trailers
  have hmax : (chunk_data chunks).length ≤ READ_BUFFER_MAX_SIZE := by omega
  obtain ⟨k, hrun⟩ := chunk_run_encode hfwrite hh he
    (Int.lt_of_le_of_lt (Int.ofNat_le.mpr hmax) (by decide))
    (allows_init hmax (by rw [hmulti]; exact hspool))
  have hpart := hdrive p ps (by
    rw [← hcut, length_append] at hfits
    omega)
  by_cases hq : q = []
  · rw [if_pos hq]
    rw [hq, append_nil] at hcut
    rw [hcut, hrun] at hpart
    exact ⟨hpart.1, decoded_body_store (hpart.2 rfl)⟩
  rw [if_neg hq]
  rw [← hcut] at hrun
  obtain ⟨k₁, b₁, s₁, hwait⟩ := chunk_run_proper hfwrite hh hq hrun
  rw [hwait] at hpart
  exact hpart.1

/-! ## Two requests -/

theorem result_eq {outcome : Outcome} (h : r.2 = outcome) : r = (r.1, outcome) :=
  Prod.ext rfl h

theorem isHead_of_lines (lines : List Bytes)
    (h : lines.all (fun l => l.head? ≠ none ∧ l.head? ≠ some 0 ∧ line_length l = none) = true) :
    IsHead (lines_text lines ++ CRLF) := by
  refine ⟨lines, rfl, fun l hl => ?_⟩
  have hl' := of_decide_eq_true (all_eq_true.mp h l hl)
  exact ⟨hl'.1, hl'.2.1, line_length_none hl'.2.2⟩

theorem plain_chunk_valid {size : Bytes} (hne : size ≠ []) (hhex : size.all isxdigit = true)
    (hsize : hexadecimal size = data.length) : (Chunk.mk size [] data).Valid :=
  ⟨hne, hhex, hsize, .inl rfl, line_length_none rfl⟩

def last_chunk : Chunk := ⟨lit "0", [], []⟩

theorem last_chunk_valid : last_chunk.Valid ∧ last_chunk.data = [] :=
  ⟨plain_chunk_valid (by decide) (by decide) (by decide), rfl⟩

/-- A head, and a body of one chunk with an extension. -/
def login_head : Bytes :=
  lines_text [lit "POST /api/login HTTP/1.1", lit "Host: a",
    lit "Transfer-Encoding: chunked"] ++ CRLF

def hello : Chunk := ⟨lit "5", lit ";x=1", lit "hello"⟩

/-- Cut inside the data and inside a CRLF, the body is what it is in one read. -/
theorem hello_in_three_reads :
    let reads := [login_head ++ lit "5;x=1\r\nhe", lit "llo\r\n0\r\nA: b\r", lit "\n\r\n"]
    (drive default_env fresh reads).2 = .do_request ∧
      decoded_body (drive default_env fresh reads).1 = lit "hello" := by
  have hno : (deliver default_env fresh login_head).2 = .code .NO_REQUEST := by decide +kernel
  have hencodes : Encodes [hello] last_chunk [lit "A: b"] := by
    refine ⟨?_, last_chunk_valid, ?_⟩
    · rintro c hc
      obtain rfl := mem_singleton.mp hc
      exact ⟨⟨by decide, by decide, by decide, .inr (by decide), line_length_none (by decide)⟩,
        by decide⟩
    · rintro t ht
      obtain rfl := mem_singleton.mp ht
      exact ⟨by decide, line_length_none (by decide)⟩
  have hmain := (chunked_body_any_cut default_env login_head
    (encode [hello] last_chunk [lit "A: b"]) (deliver default_env fresh login_head).1 rfl
    (isHead_of_lines _ (by decide)) (result_eq hno) (by decide +kernel) (by decide +kernel)
    (by decide +kernel)).2 [hello] last_chunk [lit "A: b"] hencodes rfl
    (fun hm => absurd hm (by decide +kernel))
    (lit "5;x=1\r\nhe") [lit "llo\r\n0\r\nA: b\r", lit "\n\r\n"] [] (by decide +kernel)
  exact hmain

def one_byte_env : Env := { default_env with upload_max_bytes := 1 }

def upload_head : Bytes :=
  lines_text [lit "POST /api/private/files HTTP/1.1", lit "Host: a",
    lit "Content-Type: multipart/form-data; boundary=b", lit "Transfer-Encoding: chunked"] ++ CRLF

/-- A chunk of half a megabyte and two bytes. -/
def large_chunk : Chunk := ⟨lit "80002", [], List.replicate 524290 120⟩

theorem chunk_run_refused {b : Body} (hchunked : h.m_chunked = true) {c : Chunk} (hc : c.Valid)
    (hdata : c.data ≠ []) (hlen : (c.data.length : ℤ) < LONG_MAX) (hst : k.m_chunk_state = .SIZE)
    (hallow : ¬ Allows env k b c.data.length) (rest : Bytes) :
    ∃ k' b' s', chunk_run env h k b (c.encode ++ rest) = .done k' b' s' .PAYLOAD_TOO_LARGE := by
  have hpos := length_pos_iff.mpr hdata
  have happend : c.encode ++ rest = c.line ++ CRLF ++ (c.data ++ (CRLF ++ rest)) := by
    unfold Chunk.encode
    simp
  rw [happend, chunk_run_line env h b hc hlen hst, if_neg (by omega)]
  obtain ⟨k₁, hk₁⟩ : ∃ k₁ : Chunks, k₁ = { k with
      m_chunk_size := c.data.length, m_chunk_bytes_read := 0, m_chunk_state := .DATA } := ⟨_, rfl⟩
  have hwf : k₁.WF := by
    intro _
    rw [hk₁]
    exact hpos
  have hn : c.data.length = min (c.data ++ (CRLF ++ rest)).length
      (k₁.m_chunk_size - k₁.m_chunk_bytes_read) := by
    rw [hk₁, length_append]
    dsimp only
    omega
  have hallow₁ : ¬ Allows env k₁ b c.data.length := by
    rw [hk₁]
    exact hallow
  obtain ⟨k', b', hstep⟩ := chunk_step_refused hchunked hwf (by rw [hk₁]) (append_ne_nil hdata) hn
    hallow₁
  rw [← hk₁, chunk_run_eq env h b hwf, hstep]
  exact ⟨k', b', _, rfl⟩

theorem length_encode_one (c last : Chunk) :
    (encode [c] last []).length = c.line.length + c.data.length + last.line.length + 8 := by
  unfold encode Chunk.encode lines_text
  simp only [flatMap_cons, flatMap_nil, length_append, CRLF, length_cons, length_nil]
  omega

theorem over_upload_limit {c : Chunk} (hc : c.Valid) (hdata : c.data.length = 524290)
    (hhead : IsHead upload_head)
    (hno : (deliver one_byte_env fresh upload_head).2 = .code .NO_REQUEST)
    (hst : (deliver one_byte_env fresh upload_head).1.m_check_state = .CONTENT)
    (hch : (deliver one_byte_env fresh upload_head).1.head.m_chunked = true)
    (hfits : upload_head.length + (encode [c] last_chunk []).length < READ_BUFFER_MAX_SIZE) :
    (drive one_byte_env fresh [upload_head ++ encode [c] last_chunk []]).2
      = .code .PAYLOAD_TOO_LARGE := by
  have hmulti : is_multipart (deliver one_byte_env fresh upload_head).1.head = true := by
    decide +kernel
  have hfwrite : one_byte_env.fwrite = true := rfl
  obtain ⟨h, hh, hm, hfirst⟩ := chunked_request hhead (result_eq hno) hst hch
  have hdrive := drive_chunked_request hfwrite hh hfirst (encode [c] last_chunk []) []
    (by rw [flatten_nil, append_nil]; exact hfits)
  have hallow : ¬ Allows one_byte_env .init (empty_body h) c.data.length := by
    rw [hdata]
    unfold Allows empty_body
    rw [hm, hmulti]
    decide
  have hne : c.data ≠ [] := by
    intro hnil
    rw [hnil] at hdata
    exact absurd hdata (by decide)
  obtain ⟨k', b', s', hrun⟩ := chunk_run_refused hh hc hne (by rw [hdata]; decide) rfl hallow
    (last_chunk.line ++ CRLF ++ (lines_text [] ++ CRLF))
  have hflat : encode [c] last_chunk []
      = c.encode ++ (last_chunk.line ++ CRLF ++ (lines_text [] ++ CRLF)) := by
    unfold encode
    rw [flatMap_cons, flatMap_nil, append_nil]
  rw [flatten_nil, append_nil, hflat, hrun] at hdrive
  rw [hflat]
  exact hdrive.1

/-- A spooled body has another limit: this one is less than `READ_BUFFER_MAX_SIZE` bytes
of data and is refused. -/
theorem spooled_body_refused :
    IsHead upload_head ∧
      (deliver one_byte_env fresh upload_head).2 = .code .NO_REQUEST ∧
      (deliver one_byte_env fresh upload_head).1.m_check_state = .CONTENT ∧
      (deliver one_byte_env fresh upload_head).1.head.m_chunked = true ∧
      Encodes [large_chunk] last_chunk [] ∧
      upload_head.length + (encode [large_chunk] last_chunk []).length < READ_BUFFER_MAX_SIZE ∧
      (chunk_data [large_chunk]).length ≤ READ_BUFFER_MAX_SIZE ∧
      (drive one_byte_env fresh [upload_head ++ encode [large_chunk] last_chunk []]).2
        = .code .PAYLOAD_TOO_LARGE := by
  have hno : (deliver one_byte_env fresh upload_head).2 = .code .NO_REQUEST := by decide +kernel
  have hst : (deliver one_byte_env fresh upload_head).1.m_check_state = .CONTENT := by
    decide +kernel
  have hch : (deliver one_byte_env fresh upload_head).1.head.m_chunked = true := by decide +kernel
  have hhead : IsHead upload_head := isHead_of_lines _ (by decide)
  have hdata : large_chunk.data.length = 524290 := length_replicate
  have hhex : hexadecimal (lit "80002") = 524290 := by decide
  have hvalid : large_chunk.Valid :=
    plain_chunk_valid (by decide) (by decide) (hhex.trans hdata.symm)
  have hencodes : Encodes [large_chunk] last_chunk [] := by
    refine ⟨?_, last_chunk_valid, fun t ht => absurd ht not_mem_nil⟩
    rintro c hc
    obtain rfl := mem_singleton.mp hc
    refine ⟨hvalid, fun hnil => ?_⟩
    rw [hnil] at hdata
    exact absurd hdata (by decide)
  have hfits : upload_head.length + (encode [large_chunk] last_chunk []).length
      < READ_BUFFER_MAX_SIZE := by
    have hhd : upload_head.length ≤ 200 := by decide +kernel
    have hline : large_chunk.line.length = 5 := by decide
    have hlast : last_chunk.line.length = 1 := by decide
    have hmax : READ_BUFFER_MAX_SIZE = 2097152 := by decide
    rw [length_encode_one, hdata, hline, hlast, hmax]
    omega
  have hcd : chunk_data [large_chunk] = large_chunk.data := by
    unfold chunk_data
    rw [flatMap_cons, flatMap_nil, append_nil]
  refine ⟨hhead, hno, hst, hch, hencodes, hfits, ?_,
    over_upload_limit hvalid hdata hhead hno hst hch hfits⟩
  rw [hcd, hdata]
  decide

end AtlasWebServer.Http
