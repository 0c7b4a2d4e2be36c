/-
What the reader of a spool file returns, however `fread` cuts the file.

Every function of the reader is described by what it takes off `Reader.rest`, the bytes
that are in the buffer or still in the file; where the cuts are does not appear. For a
delimiter that is so by `find_first` and `find_short`: it is found once it is in the
buffer, and as long as it is not, the bytes that are flushed all belong to the part.

`Collects` is what a sink has to do: take bytes up to its limit, refuse the write that
exceeds it. `read_part_body` then hands it the part, or fails at the limit
(`read_part_body_spec`).
-/
import AtlasWebServer.MultipartParser

set_option autoImplicit false

namespace AtlasWebServer.Multipart

open Bytes CString Search List

/-! ## The reader and its bytes -/

/-- Not at the end of the file, and no call of `fread` comes back empty before it. -/
structure Good (r : Reader Pieces) : Prop where
  m_eof : r.m_eof = false
  pieces : ∀ piece ∈ r.m_file, piece ≠ []

section Reading

variable {r : Reader Pieces} {fuel : ℕ}

theorem Good.erase (h : Good r) (n : ℕ) : Good (r.erase n) := ⟨h.m_eof, h.pieces⟩

theorem buffer_start (r : Reader Pieces) : r.m_buffer <+: r.rest := List.prefix_append _ _

theorem rest_erase {n : ℕ} (h : n ≤ r.m_buffer.length) : (r.erase n).rest = r.rest.drop n := by
  unfold Reader.rest
  rw [drop_append_of_le_length h]
  rfl

theorem Good.fill (h : Good r) (hmore : r.m_buffer.length < r.rest.length) :
    ∃ r', Multipart.fill pieces_ops r = (r', true) ∧ Good r' ∧ r'.rest = r.rest ∧
      r'.m_file.length < r.m_file.length := by
  cases hpieces : r.m_file with
  | nil =>
    unfold Reader.rest at hmore
    rw [hpieces, flatten_nil, append_nil] at hmore
    exact absurd hmore (lt_irrefl _)
  | cons piece pieces =>
    have hpiece : piece ≠ [] := h.pieces piece (hpieces ▸ mem_cons_self)
    refine ⟨⟨pieces, false, r.m_buffer ++ piece⟩, ?_, ⟨rfl, fun p hp => h.pieces p ?_⟩, ?_, ?_⟩
    · unfold Multipart.fill
      rw [h.m_eof, if_neg Bool.false_ne_true, hpieces]
      exact if_pos hpiece
    · rw [hpieces]
      exact mem_cons_of_mem _ hp
    · unfold Reader.rest
      rw [hpieces, flatten_cons, append_assoc]
    · exact Nat.lt_succ_self _

section Delimiters

variable {c : UInt8} {pattern text tail : Bytes}

theorem found (hc : c ∉ pattern) (htext : ¬ c :: pattern <:+: text)
    (hrest : r.rest = text ++ (c :: pattern ++ tail))
    (hbuffer : text.length + (c :: pattern).length ≤ r.m_buffer.length) :
    find (c :: pattern) r.m_buffer = some text.length ∧ r.m_buffer.take text.length = text ∧
      (r.erase (text.length + (c :: pattern).length)).rest = tail := by
  have hstart : text ++ c :: pattern <+: r.m_buffer := by
    refine prefix_of_prefix_length_le ?_ (buffer_start r) ?_
    · rw [hrest, ← append_assoc]
      exact prefix_append _ _
    · rw [length_append]
      exact hbuffer
  obtain ⟨more, hmore⟩ := hstart
  refine ⟨?_, ?_, ?_⟩
  · rw [← hmore, append_assoc]
    exact find_first hc htext more
  · rw [← hmore, append_assoc, take_left]
  · rw [rest_erase hbuffer, hrest, ← append_assoc, ← length_append, drop_left]

theorem missing (hc : c ∉ pattern) (htext : ¬ c :: pattern <:+: text)
    (hrest : r.rest = text ++ (c :: pattern ++ tail))
    (hbuffer : r.m_buffer.length < text.length + (c :: pattern).length) :
    find (c :: pattern) r.m_buffer = none ∧ r.m_buffer.length < r.rest.length := by
  constructor
  · exact find_short hc htext (hrest ▸ buffer_start r) hbuffer
  · rw [hrest, length_append, length_append]
    omega

end Delimiters

/-! ## Lines -/

variable {line tail : Bytes}

theorem read_line_spec (hline : (13 : UInt8) ∉ line) (hfuel : r.m_file.length < fuel)
    (hr : Good r) (hrest : r.rest = line ++ (CRLF ++ tail)) :
    ∃ r', read_line pieces_ops fuel r = some (r', some line) ∧ Good r' ∧ r'.rest = tail ∧
      r'.m_file.length ≤ r.m_file.length := by
  have hc : (13 : UInt8) ∉ [(10 : UInt8)] := by decide
  have htext : ¬ CRLF <:+: line := fun h => hline (h.subset (by decide))
  induction fuel generalizing r with
  | zero => exact absurd hfuel (Nat.not_lt_zero _)
  | succ fuel ih =>
    by_cases hbuffer : line.length + CRLF.length ≤ r.m_buffer.length
    · obtain ⟨hfind, htake, hdrop⟩ := found hc htext hrest hbuffer
      refine ⟨r.erase (line.length + 2), ?_, hr.erase _, hdrop, le_refl _⟩
      unfold read_line CRLF
      rw [hfind]
      dsimp only
      rw [htake]
    obtain ⟨hfind, hmore⟩ := missing hc htext hrest (not_le.mp hbuffer)
    obtain ⟨r₁, hfill, hgood, hsame, hpieces⟩ := hr.fill hmore
    obtain ⟨r', hread, hr', hrest', hfewer⟩ := ih (by omega) hgood (hsame.trans hrest)
    refine ⟨r', ?_, hr', hrest', by omega⟩
    unfold read_line CRLF
    rw [hfind, hfill]
    exact hread

/-! ## The two bytes behind a delimiter -/

theorem fill_two_spec (hfuel : r.m_file.length < fuel) (hr : Good r) (hrest : 2 ≤ r.rest.length) :
    ∃ r', fill_two pieces_ops fuel r = some r' ∧ Good r' ∧ r'.rest = r.rest ∧
      2 ≤ r'.m_buffer.length := by
  induction fuel generalizing r with
  | zero => exact absurd hfuel (Nat.not_lt_zero _)
  | succ fuel ih =>
    unfold fill_two
    by_cases hshort : r.m_buffer.length < 2
    · obtain ⟨r₁, hfill, hgood, hsame, hpieces⟩ := hr.fill (by omega)
      rw [if_pos ⟨hshort, hr.m_eof⟩, hfill]
      have hnext := ih (r := r₁) (by omega) hgood (by rw [hsame]; exact hrest)
      rw [hsame] at hnext
      exact hnext
    · rw [if_neg fun h => hshort h.1]
      exact ⟨r, rfl, hr, rfl, not_lt.mp hshort⟩

/-- What follows a delimiter: the end of the body, or the next part. -/
def mark (is_final : Bool) : Bytes := if is_final then lit "--" else CRLF

theorem length_mark (is_final : Bool) : (mark is_final).length = 2 := by
  cases is_final <;> rfl

end Reading

/-! ## Parts -/

section Parts

variable {σ : Type} {ops : SinkOps σ} {holds done : Bytes → σ → Prop} {exceeded : σ → Bool}
variable {limit : ℕ}

/-- **A sink with a limit.** `holds content` is a sink that has taken `content`, and
`done content` one that has finished with it. -/
structure Collects (ops : SinkOps σ) (holds done : Bytes → σ → Prop) (exceeded : σ → Bool)
    (limit : ℕ) : Prop where
  takes : ∀ {content data sink}, holds content sink → (content ++ data).length ≤ limit →
    ∃ sink', ops.write sink data = (sink', true) ∧ holds (content ++ data) sink'
  refuses : ∀ {content data sink}, holds content sink → limit < (content ++ data).length →
    ∃ sink', ops.write sink data = (sink', false) ∧ exceeded sink' = true
  finishes : ∀ {content sink}, holds content sink →
    ∃ sink', ops.finish sink = (sink', true) ∧ done content sink'

/-- What reading a part has to come to: within the limit the sink has it, and the reader is
behind it; above the limit the reading fails, and the sink says why. -/
structure PartRead (done : Bytes → σ → Prop) (exceeded : σ → Bool) (limit : ℕ) (whole tail : Bytes)
    (is_final : Bool) (out : Reader Pieces × σ × Option Bool) : Prop where
  within : whole.length ≤ limit → out.2.2 = some is_final ∧ done whole out.2.1 ∧
    (is_final = false → Good out.1 ∧ out.1.rest = tail)
  above : limit < whole.length → out.2.2 = none ∧ exceeded out.2.1 = true

variable {r : Reader Pieces} {content tail : Bytes} {is_final : Bool} {sink : σ} {fuel : ℕ}

theorem consume_mark_spec (hops : Collects ops holds done exceeded limit) (hr : Good r)
    (hsink : holds content sink) (hrest : r.rest = mark is_final ++ tail)
    (htwo : 2 ≤ r.m_buffer.length) :
    ∃ r' sink', consume_mark pieces_ops ops r sink = (r', sink', some is_final) ∧
      done content sink' ∧ (is_final = false → Good r' ∧ r'.rest = tail) := by
  obtain ⟨sink', hfinish, hdone⟩ := hops.finishes hsink
  have hmark : r.m_buffer.take 2 = mark is_final := by
    have htake : r.rest.take 2 = mark is_final := by
      rw [hrest, ← length_mark is_final, take_left]
    rw [← htake]
    exact (take_append_of_le_length htwo).symm
  have htail : (r.erase 2).rest = tail := by
    rw [rest_erase htwo, hrest, ← length_mark is_final, drop_left]
  unfold consume_mark
  rw [if_neg (not_lt.mpr htwo), hmark, hfinish]
  cases is_final with
  | true =>
    exact ⟨_, sink', rfl, hdone, nofun⟩
  | false =>
    exact ⟨_, sink', rfl, hdone, fun _ => ⟨hr.erase 2, htail⟩⟩

section Loop

variable {c : UInt8} {pattern : Bytes}

theorem consume_delimiter_spec (hops : Collects ops holds done exceeded limit) (hc : c ∉ pattern)
    {text : Bytes} (hr : Good r) (hsink : holds content sink) (hcontent : content.length ≤ limit)
    (htext : ¬ c :: pattern <:+: text) (hfuel : r.m_file.length < fuel)
    (hrest : r.rest = text ++ (c :: pattern ++ (mark is_final ++ tail))) :
    (∃ out, consume_delimiter pieces_ops ops fuel (c :: pattern) r sink = some (some out) ∧
      PartRead done exceeded limit (content ++ text) tail is_final out) ∨
    (consume_delimiter pieces_ops ops fuel (c :: pattern) r sink = some none ∧
      r.m_buffer.length < text.length + (c :: pattern).length ∧
      r.m_buffer.length < r.rest.length) := by
  unfold consume_delimiter
  by_cases hbuffer : text.length + (c :: pattern).length ≤ r.m_buffer.length
  swap
  · obtain ⟨hfind, hmore⟩ := missing hc htext hrest (not_le.mp hbuffer)
    rw [hfind]
    exact Or.inr ⟨rfl, not_le.mp hbuffer, hmore⟩
  left
  obtain ⟨hfind, htake, hdrop⟩ := found hc htext hrest hbuffer
  rw [hfind]
  dsimp only
  rw [htake]
  by_cases hwithin : (content ++ text).length ≤ limit
  · -- the part is written, if there is any of it left
    obtain ⟨sink', hwrite, hsink'⟩ : ∃ sink',
        (if text.length > 0 then ops.write sink text else (sink, true)) = (sink', true) ∧
          holds (content ++ text) sink' := by
      by_cases hempty : text.length > 0
      · rw [if_pos hempty]
        exact hops.takes hsink hwithin
      · rw [if_neg hempty, eq_nil_of_length_eq_zero (by omega : text.length = 0), append_nil]
        exact ⟨sink, rfl, hsink⟩
    rw [hwrite, if_neg Bool.noConfusion]
    obtain ⟨r₁, htwo, hr₁, hsame, hlong⟩ := fill_two_spec
      (r := r.erase (text.length + (c :: pattern).length)) hfuel (hr.erase _) (by
        rw [hdrop, length_append, length_mark]
        omega)
    obtain ⟨r', sink'', hmark, hdone, hnext⟩ :=
      consume_mark_spec hops hr₁ hsink' (hsame.trans hdrop) hlong
    rw [htwo, Option.map_some, hmark]
    exact ⟨_, rfl, fun _ => ⟨rfl, hdone, hnext⟩, fun habove => absurd hwithin (by omega)⟩
  · have habove : limit < (content ++ text).length := not_le.mp hwithin
    obtain ⟨sink', hwrite, hexceeded⟩ := hops.refuses hsink habove
    have hsome : text.length > 0 := by
      rw [length_append] at habove
      omega
    rw [if_pos hsome, hwrite, if_pos rfl]
    exact ⟨_, rfl, fun h => absurd h hwithin, fun _ => ⟨rfl, hexceeded⟩⟩

theorem read_part_body_loop_spec (hops : Collects ops holds done exceeded limit)
    (hc : c ∉ pattern) :
    ∀ (fuel : ℕ) (r : Reader Pieces) (content text : Bytes) (sink : σ),
      r.m_file.length + 1 < fuel → Good r → holds content sink → content.length ≤ limit →
      ¬ c :: pattern <:+: text → r.rest = text ++ (c :: pattern ++ (mark is_final ++ tail)) →
      ∃ out, read_part_body_loop pieces_ops ops (c :: pattern) fuel r sink = some out ∧
        PartRead done exceeded limit (content ++ text) tail is_final out := by
  intro fuel
  -- each pass flushes what cannot belong to the delimiter any more
  induction fuel with
  | zero => exact fun r content text sink hfuel => absurd hfuel (Nat.not_lt_zero _)
  | succ fuel ih =>
    intro r content text sink hfuel hr hsink hcontent htext hrest
    unfold read_part_body_loop
    rcases consume_delimiter_spec hops hc hr hsink hcontent htext
      (show r.m_file.length < fuel by omega) hrest with ⟨out, hout, hread⟩ | ⟨hnone, -, hmore⟩
    · rw [hout]
      exact ⟨out, rfl, hread⟩
    obtain ⟨r₁, hfill, hgood, hsame, hpieces⟩ := hr.fill hmore
    have hpieces₁ : r₁.m_file.length + 1 < fuel := by omega
    have hrest₁ : r₁.rest = text ++ (c :: pattern ++ (mark is_final ++ tail)) :=
      hsame.trans hrest
    rw [hnone, hr.m_eof, hfill]
    dsimp only
    rcases consume_delimiter_spec hops hc hgood hsink hcontent htext
      (show r₁.m_file.length < fuel by omega) hrest₁ with ⟨out, hout, hread⟩ | ⟨hnone₁, hshort, -⟩
    · rw [hout]
      exact ⟨out, rfl, hread⟩
    rw [hnone₁]
    by_cases hlong : r₁.m_buffer.length > (c :: pattern).length
    · rw [if_pos hlong]
      generalize hflush : r₁.m_buffer.length - (c :: pattern).length = flush
      -- the delimiter is not in the buffer, so it starts behind what is flushed
      have hbefore : flush ≤ text.length := by omega
      have htake : r₁.m_buffer.take flush = text.take flush := by
        have hbuf : r₁.m_buffer.take flush = r₁.rest.take flush :=
          (take_append_of_le_length (by omega)).symm
        rw [hbuf, hrest₁, take_append_of_le_length hbefore]
      have hrest₂ : (r₁.erase flush).rest =
          text.drop flush ++ (c :: pattern ++ (mark is_final ++ tail)) := by
        rw [rest_erase (by omega), hrest₁, drop_append_of_le_length hbefore]
      have hwhole : content ++ text = (content ++ text.take flush) ++ text.drop flush := by
        rw [append_assoc, take_append_drop]
      rw [htake]
      by_cases hwithin : (content ++ text.take flush).length ≤ limit
      · obtain ⟨sink', hwrite, hsink'⟩ := hops.takes hsink hwithin
        rw [hwrite, if_neg Bool.noConfusion, hwhole]
        apply ih (r₁.erase flush) _ _ _ hpieces₁ (hgood.erase flush) hsink' hwithin _ hrest₂
        exact fun h => htext (h.trans (drop_suffix flush text).isInfix)
      obtain ⟨sink', hwrite, hexceeded⟩ := hops.refuses hsink (not_le.mp hwithin)
      rw [hwrite, if_pos rfl]
      refine ⟨_, rfl, fun hle => absurd ?_ hwithin, fun _ => ⟨rfl, hexceeded⟩⟩
      rw [hwhole, length_append] at hle
      omega
    · rw [if_neg hlong]
      exact ih r₁ content text sink hpieces₁ hgood hsink hcontent htext hrest₁

end Loop

theorem read_part_body_spec (hops : Collects ops holds done exceeded limit) {boundary : Bytes}
    (hboundary : (13 : UInt8) ∉ boundary) {text : Bytes} (hr : Good r) (hsink : holds [] sink)
    (htext : ¬ CRLF ++ lit "--" ++ boundary <:+: text)
    (hrest : r.rest = text ++ (CRLF ++ lit "--" ++ boundary ++ (mark is_final ++ tail))) :
    ∃ out, read_part_body pieces_ops ops r.passes boundary r sink = some out ∧
      PartRead done exceeded limit text tail is_final out := by
  have hc : (13 : UInt8) ∉ 10 :: 45 :: 45 :: boundary := by
    simp only [mem_cons, not_or]
    exact ⟨by decide, by decide, by decide, hboundary⟩
  unfold read_part_body Reader.passes
  exact read_part_body_loop_spec hops hc _ r [] text sink (by omega) hr hsink (Nat.zero_le _)
    htext hrest

theorem text_sink_collects (limit : ℕ) :
    Collects text_sink (fun content sink => sink = ⟨limit, false, content⟩)
      (fun content sink => sink.m_value = content) MultipartTextSink.m_limit_exceeded limit where
  takes := by
    rintro content data sink rfl hwithin
    rw [length_append] at hwithin
    refine ⟨_, ?_, rfl⟩
    exact if_neg (not_lt.mpr hwithin)
  refuses := by
    rintro content data sink rfl habove
    rw [length_append] at habove
    refine ⟨⟨limit, true, content⟩, ?_, rfl⟩
    exact if_pos habove
  finishes := by
    rintro content sink rfl
    exact ⟨_, rfl, rfl⟩

theorem file_sink_collects (sha256_hex : Bytes → Bytes) (limit : ℕ) {good : ℕ → Bool}
    (hgood : ∀ n, good n = true) :
    Collects (file_sink sha256_hex)
      (fun content sink =>
        sink = ⟨content, content.length, limit, false, false, [], good, true⟩)
      (fun content sink => sink.m_content = content ∧ sink.m_size = content.length ∧
        sink.m_sha256 = sha256_hex content)
      FileSha256Sink.m_limit_exceeded limit where
  takes := by
    rintro content data sink rfl hwithin
    rw [length_append] at hwithin
    refine ⟨_, ?_, rfl⟩
    unfold file_sink
    dsimp only
    rw [if_neg (by omega)]
    by_cases hempty : data = []
    · rw [if_pos hempty, hempty, append_nil]
    · rw [if_neg hempty, if_neg (by rw [hgood]; exact Bool.noConfusion), if_neg Bool.noConfusion,
        length_append, Nat.cast_add]
  refuses := by
    rintro content data sink rfl habove
    rw [length_append] at habove
    refine ⟨⟨content, content.length, limit, true, false, [], good, true⟩, ?_, rfl⟩
    unfold file_sink
    dsimp only
    rw [if_pos (by omega)]
  finishes := by
    rintro content sink rfl
    refine ⟨⟨content, content.length, limit, false, true, sha256_hex content, good, true⟩, ?_, rfl,
      rfl, rfl⟩
    unfold file_sink
    dsimp only
    rw [if_neg Bool.noConfusion, if_neg (by rw [hgood]; exact Bool.noConfusion),
      if_neg Bool.noConfusion]

end Parts

end AtlasWebServer.Multipart
