/-
Chunked bodies: `parse_chunked_content` as a function of the bytes it has not read.

`chunk_step` is one pass of its loop and `chunk_run` the loop. What arrives in two
reads is decoded as what arrives in one (`chunk_run_append`): the decoder waits in a
state from which the bytes left over and those to come lead on. Only the body that
an error leaves behind may differ.
-/
import AtlasWebServer.HttpReading

set_option autoImplicit false

namespace AtlasWebServer.Http

open Bytes CString RingBuffer List

variable {k' : Chunks} {b' : Body} {s' w : Bytes}

/-! ## The decoder, as a function of bytes -/

/-- Where a pass of the decoder leads: to the next pass, to waiting for more bytes, or
to a result. `s` is what it has not read. -/
inductive ChunkStep
  | next (k : Chunks) (b : Body) (s : Bytes)
  | wait (k : Chunks) (b : Body) (s : Bytes)
  | done (k : Chunks) (b : Body) (s : Bytes) (code : HttpCode)

def chunk_step (env : Env) (h : Head) (k : Chunks) (b : Body) (s : Bytes) : ChunkStep :=
  if s = [] then
    if k.m_chunk_state = .DONE then .done k b s .GET_REQUEST else .wait k b s
  else
    match k.m_chunk_state with
    | .SIZE =>
        match line_length s with
        | none => .wait k b s
        | some n =>
            match parse_chunk_size_line (s.take n) with
            | none => .done k b s .BAD_REQUEST
            | some m_chunk_size =>
                .next { k with
                  m_chunk_size
                  m_chunk_bytes_read := 0
                  m_chunk_state := if m_chunk_size = 0 then .TRAILER else .DATA } b (s.drop (n + 2))
    | .DATA =>
        let n := min s.length (k.m_chunk_size - k.m_chunk_bytes_read)
        match append_decoded_body_chunk env h k b (s.take n) with
        | (k, b, code) =>
            if code ≠ .NO_REQUEST then .done k b s code
            else
              let k := { k with m_chunk_bytes_read := k.m_chunk_bytes_read + n }
              if k.m_chunk_bytes_read < k.m_chunk_size then .wait k b (s.drop n)
              else .next { k with m_chunk_state := .DATA_CRLF } b (s.drop n)
    | .DATA_CRLF =>
        if s.length < 2 then .wait k b s
        else if s.take 2 ≠ CRLF then .done k b s .BAD_REQUEST
        else .next { k with m_chunk_state := .SIZE } b (s.drop 2)
    | .TRAILER =>
        match line_length s with
        | none => .wait k b s
        | some 0 => .done { k with m_chunk_state := .DONE } b (s.drop 2) .GET_REQUEST
        | some (n + 1) => .next k b (s.drop (n + 1 + 2))
    | .DONE => .done k b s .GET_REQUEST

def chunk_loop (env : Env) (h : Head) : ℕ → Chunks → Body → Bytes → ChunkStep
  | 0, k, b, s => .next k b s
  | fuel + 1, k, b, s =>
      match chunk_step env h k b s with
      | .next k b s => chunk_loop env h fuel k b s
      | r => r

def chunk_run (env : Env) (h : Head) (k : Chunks) (b : Body) (s : Bytes) : ChunkStep :=
  chunk_loop env h (s.length + 1) k b s

def Chunks.WF (k : Chunks) : Prop :=
  k.m_chunk_state = .DATA → k.m_chunk_bytes_read < k.m_chunk_size

theorem wf_init : Chunks.init.WF := nofun

variable {s : Bytes} {n : ℕ}

theorem line_length_le (h : line_length s = some n) : n + 2 ≤ s.length := by
  induction s using line_length.induct generalizing n with
  | case3 a b rest hcrlf =>
    rw [line_length, if_pos hcrlf] at h
    cases h
    simp
  | case4 a b rest hcrlf ih =>
    rw [line_length, if_neg hcrlf, Option.map_eq_some_iff] at h
    obtain ⟨m, hm, rfl⟩ := h
    have := ih hm
    rw [length_cons]
    omega
  | _ => contradiction

theorem line_length_short (h : s.length < 2) : line_length s = none := by
  rw [Option.eq_none_iff_forall_not_mem]
  intro n hn
  have := line_length_le hn
  omega

theorem append_decoded_chunks (env : Env) (h : Head) (k : Chunks) (b : Body) (data : Bytes) :
    (append_decoded_body_chunk env h k b data).1.m_chunk_state = k.m_chunk_state ∧
      (append_decoded_body_chunk env h k b data).1.m_chunk_size = k.m_chunk_size ∧
      (append_decoded_body_chunk env h k b data).1.m_chunk_bytes_read = k.m_chunk_bytes_read := by
  unfold append_decoded_body_chunk
  split_ifs
  · simp
  · split <;> simp
  · simp
  · simp

theorem append_decoded_code (env : Env) (h : Head) (k : Chunks) (b : Body) (data : Bytes) :
    (append_decoded_body_chunk env h k b data).2.2 = .NO_REQUEST ∨
      (append_decoded_body_chunk env h k b data).2.2.is_error = true := by
  unfold append_decoded_body_chunk
  split_ifs
  · exact .inl rfl
  · split
    · exact .inl rfl
    · right
      split_ifs <;> rfl
  · exact .inr rfl
  · exact .inl rfl

section Steps

variable (env : Env) (h : Head) {k : Chunks} (b : Body)

theorem chunk_step_nil (hst : k.m_chunk_state ≠ .DONE) :
    chunk_step env h k b [] = .wait k b [] := by
  unfold chunk_step
  rw [if_pos rfl, if_neg hst]

theorem chunk_step_size (hst : k.m_chunk_state = .SIZE) (hs : s ≠ []) :
    chunk_step env h k b s =
      match line_length s with
      | none => .wait k b s
      | some n =>
        match parse_chunk_size_line (s.take n) with
        | none => .done k b s .BAD_REQUEST
        | some m_chunk_size =>
          .next { k with
            m_chunk_size
            m_chunk_bytes_read := 0
            m_chunk_state := if m_chunk_size = 0 then .TRAILER else .DATA } b (s.drop (n + 2)) := by
  unfold chunk_step
  rw [if_neg hs, hst]

theorem chunk_step_data (hst : k.m_chunk_state = .DATA) (hs : s ≠ [])
    (hn : n = min s.length (k.m_chunk_size - k.m_chunk_bytes_read)) {code : HttpCode}
    (happend : append_decoded_body_chunk env h k b (s.take n) = (k', b', code)) :
    chunk_step env h k b s =
      if code ≠ .NO_REQUEST then .done k' b' s code
      else if k'.m_chunk_bytes_read + n < k'.m_chunk_size then
        .wait { k' with m_chunk_bytes_read := k'.m_chunk_bytes_read + n } b' (s.drop n)
      else
        .next { k' with
          m_chunk_bytes_read := k'.m_chunk_bytes_read + n
          m_chunk_state := .DATA_CRLF } b' (s.drop n) := by
  unfold chunk_step
  rw [if_neg hs, hst]
  dsimp only
  rw [← hn, happend]

theorem chunk_step_data_crlf (hst : k.m_chunk_state = .DATA_CRLF) (hs : s ≠ []) :
    chunk_step env h k b s =
      if s.length < 2 then .wait k b s
      else if s.take 2 ≠ CRLF then .done k b s .BAD_REQUEST
      else .next { k with m_chunk_state := .SIZE } b (s.drop 2) := by
  unfold chunk_step
  rw [if_neg hs, hst]

theorem chunk_step_trailer (hst : k.m_chunk_state = .TRAILER) (hs : s ≠ []) :
    chunk_step env h k b s =
      match line_length s with
      | none => .wait k b s
      | some 0 => .done { k with m_chunk_state := .DONE } b (s.drop 2) .GET_REQUEST
      | some (n + 1) => .next k b (s.drop (n + 1 + 2)) := by
  unfold chunk_step
  rw [if_neg hs, hst]

theorem chunk_step_done (hst : k.m_chunk_state = .DONE) :
    chunk_step env h k b s = .done k b s .GET_REQUEST := by
  unfold chunk_step
  by_cases hs : s = []
  · rw [if_pos hs, if_pos hst]
  · rw [if_neg hs, hst]

/-- What can be said of where a pass leads. -/
def ChunkStep.Spec (env : Env) (h : Head) (s : Bytes) : ChunkStep → Prop
  | .next k' _ s' => k'.WF ∧ ∃ n, 0 < n ∧ n ≤ s.length ∧ s' = s.drop n
  | .wait k' b' s' => k'.WF ∧ chunk_step env h k' b' s' = .wait k' b' s' ∧
      line_length s' = none ∧ ∃ n ≤ s.length, s' = s.drop n
  | .done _ _ s' code => (code = .GET_REQUEST ∨ code.is_error = true) ∧
      ∃ n ≤ s.length, s' = s.drop n

theorem chunk_step_spec (hk : k.WF) : (chunk_step env h k b s).Spec env h s := by
  have hall : ∃ n ≤ s.length, s = s.drop n := ⟨0, Nat.zero_le _, rfl⟩
  by_cases hs : s = []
  · subst hs
    by_cases hdone : k.m_chunk_state = .DONE
    · rw [chunk_step_done env h b hdone]
      exact ⟨.inl rfl, hall⟩
    · rw [chunk_step_nil env h b hdone]
      exact ⟨hk, chunk_step_nil env h b hdone, rfl, hall⟩
  cases hst : k.m_chunk_state with
  | SIZE =>
    have hstep := chunk_step_size env h b hst hs
    cases hline : line_length s with
    | none =>
      rw [hline] at hstep
      rw [hstep]
      exact ⟨hk, hstep, hline, hall⟩
    | some n =>
      have hn := line_length_le hline
      rw [hline] at hstep
      dsimp only at hstep
      rw [hstep]
      split
      · exact ⟨.inr rfl, hall⟩
      refine ⟨?_, n + 2, by omega, hn, rfl⟩
      intro hdata
      dsimp only at hdata ⊢
      split_ifs at hdata
      omega
  | DATA =>
    have hmissing := hk hst
    obtain ⟨n, hn⟩ : ∃ n, n = min s.length (k.m_chunk_size - k.m_chunk_bytes_read) := ⟨_, rfl⟩
    have hcode := append_decoded_code env h k b (s.take n)
    have hsame := append_decoded_chunks env h k b (s.take n)
    obtain ⟨⟨k', b', code⟩, happend⟩ : ∃ r, append_decoded_body_chunk env h k b (s.take n) = r :=
      ⟨_, rfl⟩
    rw [chunk_step_data env h b hst hs hn happend]
    rw [happend] at hcode hsame
    dsimp only at hcode hsame
    obtain ⟨hstate, hsize, hread⟩ := hsame
    by_cases hno : code = .NO_REQUEST
    · rw [if_neg (not_not.mpr hno)]
      split_ifs with hmore
      · -- all that is there is data
        have hnil : s.drop n = [] := drop_of_length_le (by omega)
        rw [hnil]
        refine ⟨fun _ => hmore, chunk_step_nil env h b' ?_, rfl, n, by omega, hnil.symm⟩
        rw [hstate, hst]
        decide
      · exact ⟨nofun, n, by omega, by omega, rfl⟩
    · rw [if_pos hno]
      exact ⟨hcode.elim (fun h => absurd h hno) .inr, hall⟩
  | DATA_CRLF =>
    have hstep := chunk_step_data_crlf env h b hst hs
    by_cases hshort : s.length < 2
    · rw [if_pos hshort] at hstep
      rw [hstep]
      exact ⟨hk, hstep, line_length_short hshort, hall⟩
    rw [hstep, if_neg hshort]
    split_ifs
    · exact ⟨.inr rfl, hall⟩
    · exact ⟨nofun, 2, by decide, by omega, rfl⟩
  | TRAILER =>
    have hstep := chunk_step_trailer env h b hst hs
    cases hline : line_length s with
    | none =>
      rw [hline] at hstep
      rw [hstep]
      exact ⟨hk, hstep, hline, hall⟩
    | some n =>
      have hn := line_length_le hline
      rw [hline] at hstep
      cases n with
      | zero =>
        rw [hstep]
        exact ⟨.inl rfl, 2, hn, rfl⟩
      | succ n =>
        rw [hstep]
        exact ⟨hk, n + 1 + 2, by omega, hn, rfl⟩
  | DONE =>
    rw [chunk_step_done env h b hst]
    exact ⟨.inl rfl, hall⟩

end Steps

section Runs

variable (env : Env) (h : Head)

variable {k : Chunks}

theorem chunk_loop_fuel {m : ℕ} (b : Body) (hk : k.WF) (hn : s.length < n) (hm : s.length < m) :
    chunk_loop env h n k b s = chunk_loop env h m k b s := by
  induction n generalizing m k b s with
  | zero => omega
  | succ n ih =>
    obtain ⟨m, rfl⟩ : ∃ m', m = m' + 1 := ⟨m - 1, by omega⟩
    have hspec := chunk_step_spec env h b (s := s) hk
    rw [chunk_loop, chunk_loop]
    cases hstep : chunk_step env h k b s with
    | next k' b' s' =>
      rw [hstep] at hspec
      obtain ⟨hk', l, hl, hls, rfl⟩ := hspec
      have hlen : (s.drop l).length = s.length - l := length_drop
      exact ih b' hk' (by omega) (by omega)
    | _ => rfl

theorem chunk_run_eq (b : Body) (hk : k.WF) :
    chunk_run env h k b s =
      match chunk_step env h k b s with
      | .next k b s => chunk_run env h k b s
      | r => r := by
  have hspec := chunk_step_spec env h b (s := s) hk
  unfold chunk_run
  rw [chunk_loop]
  cases hstep : chunk_step env h k b s with
  | next k' b' s' =>
    rw [hstep] at hspec
    obtain ⟨hk', l, hl, hls, rfl⟩ := hspec
    have hlen : (s.drop l).length = s.length - l := length_drop
    exact chunk_loop_fuel env h b' hk' (by omega) (by omega)
  | _ => rfl

theorem chunk_run_next {b : Body} (hk : k.WF) (hstep : chunk_step env h k b s = .next k' b' s') :
    chunk_run env h k b s = chunk_run env h k' b' s' := by
  rw [chunk_run_eq env h b hk, hstep]

theorem chunk_run_spec (b : Body) (hk : k.WF) :
    (chunk_run env h k b s).Spec env h s ∧ ∀ k' b' s', chunk_run env h k b s ≠ .next k' b' s' := by
  induction hn : s.length using Nat.strong_induction_on generalizing k b s with
  | _ n ih =>
    have hspec := chunk_step_spec env h b (s := s) hk
    rw [chunk_run_eq env h b hk]
    cases hstep : chunk_step env h k b s with
    | next k' b' s' =>
      rw [hstep] at hspec
      obtain ⟨hk', l, hl, hls, rfl⟩ := hspec
      have hlen : (s.drop l).length = s.length - l := length_drop
      obtain ⟨hrun, hends⟩ := ih (s.drop l).length (by omega) b' hk' rfl
      refine ⟨?_, hends⟩
      dsimp only
      -- what is left of the rest is left of the whole
      cases hresult : chunk_run env h k' b' (s.drop l) with
      | next k'' b'' s'' => exact absurd hresult (hends k'' b'' s'')
      | wait k'' b'' s'' =>
        rw [hresult] at hrun
        obtain ⟨hwf, hstuck, hline, n', hn', hs''⟩ := hrun
        refine ⟨hwf, hstuck, hline, l + n', by omega, ?_⟩
        rw [hs'', drop_drop]
      | done k'' b'' s'' code =>
        rw [hresult] at hrun
        obtain ⟨hcode, n', hn', hs''⟩ := hrun
        refine ⟨hcode, l + n', by omega, ?_⟩
        rw [hs'', drop_drop]
    | _ =>
      rw [hstep] at hspec
      exact ⟨hspec, nofun⟩

end Runs

/-! ## Bytes that come later -/

/-- A result, up to the body an error leaves behind. -/
def ChunkStep.Agrees (r r' : ChunkStep) : Prop :=
  r = r' ∨ ∃ k b s k' b' s' code, r = .done k b s code ∧ r' = .done k' b' s' code ∧
    code.is_error = true

theorem ChunkStep.Agrees.trans {r r' r'' : ChunkStep} (h : r.Agrees r') (h' : r'.Agrees r'') :
    r.Agrees r'' := by
  rcases h with rfl | ⟨k, b, s, k', b', s', code, hr, hr', hcode⟩
  · exact h'
  rcases h' with rfl | ⟨k₁, b₁, s₁, k₂, b₂, s₂, code', hr₁, hr₂, hcode'⟩
  · exact .inr ⟨k, b, s, k', b', s', code, hr, hr', hcode⟩
  · rw [hr', ChunkStep.done.injEq] at hr₁
    obtain ⟨-, -, -, rfl⟩ := hr₁
    exact .inr ⟨k, b, s, k₂, b₂, s₂, code, hr, hr₂, hcode⟩

theorem line_length_append (w : Bytes) (h : line_length s = some n) :
    line_length (s ++ w) = some n := by
  induction s using line_length.induct generalizing n with
  | case3 a b rest hcrlf =>
    rw [line_length, if_pos hcrlf] at h
    rw [cons_append, cons_append, line_length, if_pos hcrlf, h]
  | case4 a b rest hcrlf ih =>
    rw [line_length, if_neg hcrlf, Option.map_eq_some_iff] at h
    obtain ⟨m, hm, rfl⟩ := h
    have hrest := ih hm
    rw [cons_append] at hrest
    rw [cons_append, cons_append, line_length, if_neg hcrlf, hrest]
    rfl
  | _ => contradiction

/-! ### Data -/

def store_chunks (k : Chunks) (b : Body) (n : ℕ) : Chunks :=
  if b.m_stream_body_file.isSome then k
  else { k with m_chunked_body_bytes_received := k.m_chunked_body_bytes_received + n }

/-- Data goes to the spool file, or to the buffered body. -/
def store_body (b : Body) (data : Bytes) : Body :=
  match b.m_stream_body_file with
  | some file => { b with
      m_stream_body_file := some (file ++ data)
      m_stream_body_bytes_received := b.m_stream_body_bytes_received + data.length }
  | none => { b with m_request_body := b.m_request_body ++ data }

/-- The limit on the body allows `n` more bytes. -/
def Allows (env : Env) (k : Chunks) (b : Body) (n : ℕ) : Prop :=
  if b.m_stream_body_file.isSome then
    b.m_stream_body_bytes_received + n ≤ env.upload_max_bytes + env.upload_request_overhead_bytes
  else k.m_chunked_body_bytes_received + n ≤ READ_BUFFER_MAX_SIZE

instance (env : Env) (k : Chunks) (b : Body) (n : ℕ) : Decidable (Allows env k b n) := by
  unfold Allows
  infer_instance

section Data

variable {env : Env} {h : Head} (hfwrite : env.fwrite = true) (hchunked : h.m_chunked = true)

include hfwrite hchunked

variable {k : Chunks} {b : Body} {data : Bytes}

theorem append_decoded_stored (hdata : data ≠ []) (hallow : Allows env k b data.length) :
    append_decoded_body_chunk env h k b data
      = (store_chunks k b data.length, store_body b data, .NO_REQUEST) := by
  unfold append_decoded_body_chunk store_chunks store_body append_streamed_body_chunk
  unfold Allows at hallow
  rw [if_neg hdata, hchunked, hfwrite]
  by_cases hfile : b.m_stream_body_file.isSome
  · rw [if_pos hfile] at hallow
    obtain ⟨file, hsome⟩ := Option.isSome_iff_exists.mp hfile
    rw [if_pos hfile, if_pos hfile, hsome]
    simp only [if_true]
    rw [if_neg (by omega), if_neg hdata, if_neg (by decide)]
  · rw [if_neg hfile] at hallow
    have hnone : b.m_stream_body_file = none := by simpa using hfile
    rw [if_neg hfile, if_neg hfile, if_neg (by omega), hnone]

omit hfwrite in
theorem append_decoded_refused (hdata : data ≠ []) (hallow : ¬ Allows env k b data.length) :
    (append_decoded_body_chunk env h k b data).2.2 = .PAYLOAD_TOO_LARGE := by
  unfold append_decoded_body_chunk append_streamed_body_chunk
  unfold Allows at hallow
  rw [if_neg hdata, hchunked]
  by_cases hfile : b.m_stream_body_file.isSome
  · rw [if_pos hfile] at hallow
    obtain ⟨file, hsome⟩ := Option.isSome_iff_exists.mp hfile
    rw [if_pos hfile, hsome]
    simp only [if_true]
    rw [if_pos (by omega)]
    rfl
  · rw [if_neg hfile] at hallow
    rw [if_neg hfile, if_pos (by omega)]

end Data

section Store

variable (k : Chunks) (b : Body) (d e : Bytes) (x n m : ℕ)

theorem isSome_store_body :
    (store_body b d).m_stream_body_file.isSome = b.m_stream_body_file.isSome := by
  unfold store_body
  cases hfile : b.m_stream_body_file with
  | none => simp
  | some file => rfl

theorem store_body_append : store_body (store_body b d) e = store_body b (d ++ e) := by
  unfold store_body
  cases hfile : b.m_stream_body_file with
  | none => simp
  | some file => simp [Nat.add_assoc]

theorem store_body_nil : store_body b [] = b := by
  obtain ⟨body, file, n, status, title, message⟩ := b
  cases file <;> simp [store_body]

theorem store_chunks_append :
    store_chunks { store_chunks k b n with m_chunk_bytes_read := x } (store_body b d) m
      = { store_chunks k b (n + m) with m_chunk_bytes_read := x } := by
  unfold store_chunks
  rw [isSome_store_body]
  split_ifs
  · rfl
  · simp [Nat.add_assoc]

theorem allows_append (env : Env) :
    Allows env { store_chunks k b d.length with m_chunk_bytes_read := x } (store_body b d) n ↔
      Allows env k b (d.length + n) := by
  unfold Allows
  unfold store_chunks store_body
  cases hfile : b.m_stream_body_file <;> simp [Nat.add_assoc]

theorem Allows.mono {env : Env} {k : Chunks} {b : Body} {n m : ℕ} (h : Allows env k b m)
    (hle : n ≤ m) : Allows env k b n := by
  unfold Allows at h ⊢
  split_ifs at h ⊢ <;> omega

theorem store_chunks_fields :
    (store_chunks k b n).m_chunk_state = k.m_chunk_state ∧
      (store_chunks k b n).m_chunk_size = k.m_chunk_size ∧
      (store_chunks k b n).m_chunk_bytes_read = k.m_chunk_bytes_read := by
  unfold store_chunks
  split_ifs <;> simp

end Store

/-! ### Passes and runs -/

def read_data (k : Chunks) (b : Body) (n : ℕ) : Chunks :=
  { store_chunks k b n with m_chunk_bytes_read := k.m_chunk_bytes_read + n }

section Resume

variable {env : Env} {h : Head} (hfwrite : env.fwrite = true) (hchunked : h.m_chunked = true)
  {k : Chunks} {b : Body} {s : Bytes}

include hfwrite hchunked

omit hfwrite hchunked in
theorem taken_data (hk : k.WF) (hst : k.m_chunk_state = .DATA) (hs : s ≠ [])
    (hn : n = min s.length (k.m_chunk_size - k.m_chunk_bytes_read)) :
    (s.take n).length = n ∧ s.take n ≠ [] := by
  have hmissing := hk hst
  have hpos := length_pos_iff.mpr hs
  have hlen : (s.take n).length = n := by
    rw [length_take]
    omega
  refine ⟨hlen, fun hnil => ?_⟩
  rw [hnil, length_nil] at hlen
  omega

theorem chunk_step_stored (hk : k.WF) (hst : k.m_chunk_state = .DATA) (hs : s ≠ [])
    (hn : n = min s.length (k.m_chunk_size - k.m_chunk_bytes_read)) (hallow : Allows env k b n) :
    chunk_step env h k b s =
      if k.m_chunk_bytes_read + n < k.m_chunk_size then
        .wait (read_data k b n) (store_body b (s.take n)) (s.drop n)
      else
        .next { read_data k b n with m_chunk_state := .DATA_CRLF } (store_body b (s.take n))
          (s.drop n) := by
  obtain ⟨hlen, hdata⟩ := taken_data hk hst hs hn
  have happend := append_decoded_stored hfwrite hchunked hdata
    (show Allows env k b (s.take n).length by rw [hlen]; exact hallow)
  rw [hlen] at happend
  obtain ⟨-, hsize, hread⟩ := store_chunks_fields k b n
  rw [chunk_step_data env h b hst hs hn happend, if_neg (by decide), hsize, hread]
  unfold read_data
  dsimp only
  rw [hsize]

omit hfwrite in
theorem chunk_step_refused (hk : k.WF) (hst : k.m_chunk_state = .DATA) (hs : s ≠ [])
    (hn : n = min s.length (k.m_chunk_size - k.m_chunk_bytes_read)) (hallow : ¬ Allows env k b n) :
    ∃ k' b', chunk_step env h k b s = .done k' b' s .PAYLOAD_TOO_LARGE := by
  obtain ⟨hlen, hdata⟩ := taken_data hk hst hs hn
  have hcode := append_decoded_refused hchunked hdata
    (show ¬ Allows env k b (s.take n).length by rw [hlen]; exact hallow)
  have hstep := chunk_step_data env h b hst hs hn
    (show append_decoded_body_chunk env h k b (s.take n) = (_, _, .PAYLOAD_TOO_LARGE) by
      rw [← hcode])
  exact ⟨_, _, hstep⟩

/-- The bytes that a run waits for have come. -/
def ChunkStep.resume (env : Env) (h : Head) (w : Bytes) : ChunkStep → ChunkStep
  | .next k b s => chunk_run env h k b (s ++ w)
  | .wait k b s => chunk_run env h k b (s ++ w)
  | .done k b s code => .done k b (s ++ w) code

omit hfwrite hchunked in
theorem chunk_run_agrees (hk : k.WF) (hk' : k'.WF)
    (hstep : (chunk_step env h k b s).Agrees (chunk_step env h k' b' s')) :
    (chunk_run env h k b s).Agrees (chunk_run env h k' b' s') := by
  rw [chunk_run_eq env h b hk, chunk_run_eq env h b' hk']
  rcases hstep with heq | ⟨k₁, b₁, s₁, k₂, b₂, s₂, code, hstep₁, hstep₂, hcode⟩
  · rw [heq]
    exact .inl rfl
  · rw [hstep₁, hstep₂]
    exact .inr ⟨k₁, b₁, s₁, k₂, b₂, s₂, code, rfl, rfl, hcode⟩

omit hfwrite hchunked in
theorem chunk_run_stuck (hk : k.WF) (hstep : chunk_step env h k b s = .wait k b s) :
    chunk_run env h k b s = .wait k b s := by
  rw [chunk_run_eq env h b hk, hstep]

theorem chunk_step_data_resume (hk : k.WF) (hst : k.m_chunk_state = .DATA) (hs : s ≠ [])
    (hw : w ≠ []) (hmore : k.m_chunk_bytes_read + s.length < k.m_chunk_size) :
    (chunk_step env h k b (s ++ w)).Agrees
      (chunk_step env h (read_data k b s.length) (store_body b s) w) := by
  obtain ⟨m, hm⟩ :
      ∃ m, m = min w.length (k.m_chunk_size - (k.m_chunk_bytes_read + s.length)) := ⟨_, rfl⟩
  have hn : s.length + m = min (s ++ w).length (k.m_chunk_size - k.m_chunk_bytes_read) := by
    rw [length_append]
    omega
  obtain ⟨hstate, hsize, hread⟩ := store_chunks_fields k b s.length
  have hst' : (read_data k b s.length).m_chunk_state = .DATA := hstate.trans hst
  have hsize' : (read_data k b s.length).m_chunk_size = k.m_chunk_size := hsize
  have hread' : (read_data k b s.length).m_chunk_bytes_read
      = k.m_chunk_bytes_read + s.length := rfl
  have hk' : (read_data k b s.length).WF := by
    intro _
    rw [hsize', hread']
    exact hmore
  have hm' : m = min w.length ((read_data k b s.length).m_chunk_size -
      (read_data k b s.length).m_chunk_bytes_read) := by
    rw [hsize', hread']
    exact hm
  have hsw : s ++ w ≠ [] := fun hnil => hs (append_eq_nil_iff.mp hnil).1
  have hallows : Allows env (read_data k b s.length) (store_body b s) m ↔
      Allows env k b (s.length + m) := allows_append k b s _ m env
  by_cases hfit : Allows env k b (s.length + m)
  · rw [chunk_step_stored hfwrite hchunked hk hst hsw hn hfit,
      chunk_step_stored hfwrite hchunked hk' hst' hw hm' (hallows.mpr hfit)]
    have htake : (s ++ w).take (s.length + m) = s ++ w.take m := take_length_add_append m
    have hdrop : (s ++ w).drop (s.length + m) = w.drop m := drop_length_add_append m
    have hchunks : read_data (read_data k b s.length) (store_body b s) m
        = read_data k b (s.length + m) := by
      unfold read_data
      rw [store_chunks_append, Nat.add_assoc]
    rw [htake, hdrop, hsize', hread', hchunks, store_body_append, Nat.add_assoc]
    exact .inl rfl
  · obtain ⟨k₁, b₁, hstep₁⟩ := chunk_step_refused hchunked hk hst hsw hn hfit
    obtain ⟨k₂, b₂, hstep₂⟩ := chunk_step_refused hchunked hk' hst' hw hm'
      (fun hyes => hfit (hallows.mp hyes))
    exact .inr ⟨_, _, _, _, _, _, _, hstep₁, hstep₂, rfl⟩

omit hfwrite hchunked in
theorem resume_next (hk : k.WF) (hstep : chunk_step env h k b s = .next k' b' s')
    (hlater : chunk_step env h k b (s ++ w) = .next k' b' (s' ++ w)) :
    (chunk_run env h k b (s ++ w)).Agrees ((chunk_step env h k b s).resume env h w) := by
  rw [chunk_run_next env h hk hlater, hstep]
  exact .inl rfl

omit hfwrite hchunked in
theorem resume_wait (hstep : chunk_step env h k b s = .wait k b s) :
    (chunk_run env h k b (s ++ w)).Agrees ((chunk_step env h k b s).resume env h w) := by
  rw [hstep]
  exact .inl rfl

omit hfwrite hchunked in
theorem resume_done {code : HttpCode} (hk : k.WF)
    (hstep : chunk_step env h k b s = .done k' b' s' code)
    (hlater : chunk_step env h k b (s ++ w) = .done k' b' (s' ++ w) code) :
    (chunk_run env h k b (s ++ w)).Agrees ((chunk_step env h k b s).resume env h w) := by
  rw [chunk_run_eq env h b hk, hlater, hstep]
  exact .inl rfl

theorem chunk_step_resume_data (hk : k.WF) (hst : k.m_chunk_state = .DATA) (hs : s ≠ [])
    (w : Bytes) :
    (chunk_run env h k b (s ++ w)).Agrees ((chunk_step env h k b s).resume env h w) := by
  have hsw : s ++ w ≠ [] := fun hnil => hs (append_eq_nil_iff.mp hnil).1
  obtain ⟨n, hn⟩ : ∃ n, n = min s.length (k.m_chunk_size - k.m_chunk_bytes_read) := ⟨_, rfl⟩
  obtain ⟨n', hn'⟩ :
      ∃ n, n = min (s ++ w).length (k.m_chunk_size - k.m_chunk_bytes_read) := ⟨_, rfl⟩
  have hle : n ≤ n' := by
    rw [length_append] at hn'
    omega
  by_cases hallow : Allows env k b n
  · have hstep := chunk_step_stored hfwrite hchunked hk hst hs hn hallow
    by_cases hmore : k.m_chunk_bytes_read + n < k.m_chunk_size
    · -- all there is has been stored
      rw [if_pos hmore] at hstep
      obtain rfl : n = s.length := by omega
      rw [take_length, drop_length] at hstep
      have hspec := chunk_step_spec env h b (s := s) hk
      rw [hstep] at hspec
      obtain ⟨hk', hstuck, -⟩ := hspec
      by_cases hw : w = []
      · subst hw
        rw [append_nil, chunk_run_eq env h b hk, hstep]
        exact .inl (chunk_run_stuck hk' hstuck).symm
      · rw [hstep]
        exact chunk_run_agrees hk hk'
          (chunk_step_data_resume hfwrite hchunked hk hst hs hw hmore)
    · -- the chunk is complete
      obtain rfl : n' = n := by
        omega
      have hlater := chunk_step_stored hfwrite hchunked hk hst hsw hn' hallow
      rw [if_neg hmore] at hstep hlater
      rw [take_append_of_le_length (by omega), drop_append_of_le_length (by omega)]
        at hlater
      exact resume_next hk hstep hlater
  · obtain ⟨k₁, b₁, hstep⟩ := chunk_step_refused hchunked hk hst hs hn hallow
    obtain ⟨k₂, b₂, hlater⟩ := chunk_step_refused hchunked hk hst hsw hn'
      (fun hyes => hallow (hyes.mono hle))
    rw [chunk_run_eq env h b hk, hlater, hstep]
    exact .inr ⟨_, _, _, _, _, _, _, rfl, rfl, rfl⟩

theorem chunk_step_resume (hk : k.WF) (w : Bytes) :
    (chunk_run env h k b (s ++ w)).Agrees ((chunk_step env h k b s).resume env h w) := by
  by_cases hdone : k.m_chunk_state = .DONE
  · exact resume_done hk (chunk_step_done env h b hdone) (chunk_step_done env h b hdone)
  by_cases hs : s = []
  · subst hs
    exact resume_wait (chunk_step_nil env h b hdone)
  have hsw : s ++ w ≠ [] := fun hnil => hs (append_eq_nil_iff.mp hnil).1
  cases hst : k.m_chunk_state with
  | DONE => exact absurd hst hdone
  | DATA => exact chunk_step_resume_data hfwrite hchunked hk hst hs w
  | SIZE =>
    have hstep := chunk_step_size env h b hst hs
    have hlater := chunk_step_size env h b hst hsw
    cases hline : line_length s with
    | none =>
      rw [hline] at hstep
      exact resume_wait hstep
    | some n =>
      have hn := line_length_le hline
      rw [line_length_append w hline] at hlater
      rw [hline] at hstep
      dsimp only at hstep hlater
      rw [take_append_of_le_length (by omega)] at hlater
      cases hsize : parse_chunk_size_line (s.take n) with
      | none =>
        rw [hsize] at hstep hlater
        exact resume_done hk hstep hlater
      | some m_chunk_size =>
        rw [hsize] at hstep hlater
        rw [drop_append_of_le_length hn] at hlater
        exact resume_next hk hstep hlater
  | DATA_CRLF =>
    have hstep := chunk_step_data_crlf env h b hst hs
    have hlater := chunk_step_data_crlf env h b hst hsw
    by_cases hshort : s.length < 2
    · rw [if_pos hshort] at hstep
      exact resume_wait hstep
    rw [if_neg hshort] at hstep
    rw [if_neg (by rw [length_append]; omega),
      take_append_of_le_length (by omega),
      drop_append_of_le_length (by omega)] at hlater
    by_cases hcrlf : s.take 2 ≠ CRLF
    · rw [if_pos hcrlf] at hstep hlater
      exact resume_done hk hstep hlater
    · rw [if_neg hcrlf] at hstep hlater
      exact resume_next hk hstep hlater
  | TRAILER =>
    have hstep := chunk_step_trailer env h b hst hs
    have hlater := chunk_step_trailer env h b hst hsw
    cases hline : line_length s with
    | none =>
      rw [hline] at hstep
      exact resume_wait hstep
    | some n =>
      have hn := line_length_le hline
      rw [line_length_append w hline] at hlater
      rw [hline] at hstep
      cases n with
      | zero =>
        rw [drop_append_of_le_length hn] at hlater
        exact resume_done hk hstep hlater
      | succ n =>
        dsimp only at hlater
        rw [drop_append_of_le_length hn] at hlater
        exact resume_next hk hstep hlater

theorem chunk_run_append (hk : k.WF) (w : Bytes) :
    (chunk_run env h k b (s ++ w)).Agrees ((chunk_run env h k b s).resume env h w) := by
  -- on the bytes of the first read
  induction hn : s.length using Nat.strong_induction_on generalizing k b s with
  | _ n ih =>
    have hresume := chunk_step_resume (b := b) (s := s) hfwrite hchunked hk w
    have hspec := chunk_step_spec env h b (s := s) hk
    rw [chunk_run_eq env h b (s := s) hk]
    cases hstep : chunk_step env h k b s with
    | next k' b' s' =>
      rw [hstep] at hspec hresume
      obtain ⟨hk', l, hl, hls, rfl⟩ := hspec
      have hlen : (s.drop l).length = s.length - l := length_drop
      exact hresume.trans (ih (s.drop l).length (by omega) hk' rfl)
    | _ =>
      rw [hstep] at hresume
      exact hresume

end Resume

end AtlasWebServer.Http
