/-
Reading a spool file with errors: the reader of `http/files/multipart_parser.cpp` over any
sequence of answers of `fread`.

`fill` returns false at the end of the file and after a read error, but only the former sets
`m_eof`; and the error indicator stays, so that after an error no end of the file sets it either.
`read_line` and `read_headers` look at what `fill` returns and come to an end in every case.
`consume_delimiter` and `read_part_body` look at `m_eof` alone: they call `fread` again and
again. So they return if the end of the file comes before any error (`Ends`), and otherwise only
by what was read: if there are two bytes behind the delimiter, or the sink refuses
what stands before it (`Marked`, `Bounded`).

To return is to have a result with some amount of fuel.
-/
import AtlasWebServer.MultipartParser

set_option autoImplicit false

namespace AtlasWebServer.SpoolReads

open Bytes CString Search List Multipart

/-! ## The file -/

/-- What a call of `fread` does: the bytes it reads, and whether it sets the error indicator. A
call that reads nothing is at the end of the file, or has failed. -/
structure Fread where
  data : Bytes
  failed : Bool

/-- The file: the number of calls of `fread` so far, and its error indicator, which nobody
clears. -/
structure File where
  calls : ℕ
  failed : Bool

/-- `fread` and `ferror`, by the answers of the calls. -/
def file_ops (f : ℕ → Fread) : FileOps File where
  fread file := (⟨file.calls + 1, file.failed || (f file.calls).failed⟩, (f file.calls).data)
  ferror file := file.failed

/-- A function returns: some amount of fuel is enough. -/
def Returns {α : Type} (g : ℕ → Option α) : Prop := ∃ fuel, (g fuel).isSome = true

/-- From the `n`th call on, the calls are at the end of the file or fail. -/
def Quiet (f : ℕ → Fread) (n : ℕ) : Prop := ∀ i ≥ n, (f i).data = []

def coming (f : ℕ → Fread) (start : ℕ) : ℕ → Bytes
  | 0 => []
  | m + 1 => (f start).data ++ coming f (start + 1) m

/-- The bytes that are in the buffer, or come with the first `n` calls. -/
def rest (f : ℕ → Fread) (n : ℕ) (r : Reader File) : Bytes :=
  r.m_buffer ++ coming f r.m_file.calls (n - r.m_file.calls)

variable {f : ℕ → Fread} {n fuel : ℕ} {r : Reader File}

theorem coming_next (hquiet : Quiet f n) (i : ℕ) :
    coming f i (n - i) = (f i).data ++ coming f (i + 1) (n - (i + 1)) := by
  by_cases h : i < n
  · rw [show n - i = n - (i + 1) + 1 by omega, coming]
  · rw [hquiet i (not_lt.mp h), show n - i = 0 by omega, show n - (i + 1) = 0 by omega]
    rfl

theorem fill_eq (heof : r.m_eof = false) :
    (fill (file_ops f) r).1 =
      ⟨⟨r.m_file.calls + 1, r.m_file.failed || (f r.m_file.calls).failed⟩,
        decide ((f r.m_file.calls).data = [] ∧
          (r.m_file.failed || (f r.m_file.calls).failed) = false),
        r.m_buffer ++ (f r.m_file.calls).data⟩ := by
  unfold fill file_ops
  rw [heof, if_neg Bool.false_ne_true]
  dsimp only
  by_cases hdata : (f r.m_file.calls).data = []
  · rw [hdata, if_neg (not_not.mpr rfl)]
    cases (r.m_file.failed || (f r.m_file.calls).failed) <;> rfl
  · rw [if_pos hdata, decide_eq_false (fun h => hdata h.1)]

theorem rest_fill (hquiet : Quiet f n) : rest f n (fill (file_ops f) r).1 = rest f n r := by
  by_cases heof : r.m_eof = true
  · rw [fill, if_pos heof]
  · rw [fill_eq (Bool.eq_false_iff.mpr heof)]
    unfold rest
    rw [coming_next hquiet r.m_file.calls, append_assoc]

theorem rest_erase {k : ℕ} (h : k ≤ r.m_buffer.length) :
    rest f n (r.erase k) = (rest f n r).drop k := by
  unfold rest
  rw [drop_append_of_le_length h]
  rfl

theorem length_buffer_le : r.m_buffer.length ≤ (rest f n r).length := by
  rw [rest, length_append]
  exact Nat.le_add_right _ _

theorem rest_quiet (h : n ≤ r.m_file.calls) : rest f n r = r.m_buffer := by
  rw [rest, show n - r.m_file.calls = 0 by omega]
  exact append_nil _

/-! ## Lines and headers -/

section Lines

/-- The calls that may still return bytes, and one for the end of the file. -/
def calls_left (n : ℕ) (r : Reader File) : ℕ := if r.m_eof then 0 else n - r.m_file.calls + 1

theorem fill_calls_left (hquiet : Quiet f n) :
    calls_left n (fill (file_ops f) r).1 ≤ calls_left n r ∧
      ((fill (file_ops f) r).2 = true → calls_left n (fill (file_ops f) r).1 < calls_left n r) := by
  by_cases heof : r.m_eof = true
  · rw [fill, if_pos heof]
    exact ⟨le_refl _, fun h => absurd h Bool.false_ne_true⟩
  rw [Bool.not_eq_true] at heof
  have hless : calls_left n r = n - r.m_file.calls + 1 := by
    rw [calls_left, heof, if_neg Bool.false_ne_true]
  constructor
  · rw [fill_eq heof, hless, calls_left]
    split
    · exact Nat.zero_le _
    · dsimp only
      omega
  · intro htrue
    rw [fill_eq heof, hless, calls_left]
    split
    · exact Nat.succ_pos _
    rename_i hmore
    dsimp only
    -- it has read bytes, so it is one of the first `n` calls
    have hdata : (f r.m_file.calls).data ≠ [] := by
      intro hnone
      unfold fill file_ops at htrue
      rw [heof, if_neg Bool.false_ne_true] at htrue
      dsimp only at htrue hmore
      rw [hnone, if_neg (not_not.mpr rfl)] at htrue
      cases hfailed : (r.m_file.failed || (f r.m_file.calls).failed) with
      | true =>
        rw [hfailed] at htrue
        exact Bool.false_ne_true htrue
      | false => exact hmore (decide_eq_true ⟨hnone, hfailed⟩)
    have hlt : r.m_file.calls < n := by
      by_contra hge
      exact hdata (hquiet _ (not_lt.mp hge))
    omega

theorem read_line_returns (hquiet : Quiet f n) (hfuel : calls_left n r < fuel) :
    ∃ r' line, read_line (file_ops f) fuel r = some (r', line) ∧ calls_left n r' ≤ calls_left n r ∧
      (line ≠ none → (rest f n r').length + 2 ≤ (rest f n r).length) := by
  induction fuel generalizing r with
  | zero => omega
  | succ fuel ih =>
    rw [read_line]
    cases hfind : find CRLF r.m_buffer with
    | some pos =>
      refine ⟨_, _, rfl, le_refl _, fun _ => ?_⟩
      have hle : pos + 2 ≤ r.m_buffer.length := find_le hfind
      have hrest := length_buffer_le (f := f) (n := n) (r := r)
      rw [rest_erase hle, length_drop]
      omega
    | none =>
      have hsame := rest_fill hquiet (r := r)
      obtain ⟨hcalls, hlt⟩ := fill_calls_left hquiet (r := r)
      rcases hfill : fill (file_ops f) r with ⟨r₁, _ | _⟩
      · rw [hfill] at hcalls
        exact ⟨r₁, none, rfl, hcalls, fun hne => absurd rfl hne⟩
      rw [hfill] at hlt hcalls hsame
      have hless : calls_left n r₁ < calls_left n r := hlt rfl
      obtain ⟨r', line, hline, hcalls', hbytes⟩ := ih (r := r₁) (by omega)
      rw [hsame] at hbytes
      exact ⟨r', line, hline, hcalls'.trans hcalls, hbytes⟩

theorem read_headers_returns (hquiet : Quiet f n)
    (hfuel : calls_left n r + (rest f n r).length + 1 < fuel) (headers : StringMap) :
    (read_headers_loop (file_ops f) fuel r headers).isSome = true := by
  induction fuel generalizing r headers with
  | zero => omega
  | succ fuel ih =>
    obtain ⟨r', line, hline, hcalls, hbytes⟩ :=
      read_line_returns hquiet (show calls_left n r < fuel by omega)
    rw [read_headers_loop, hline]
    cases line with
    | none => rfl
    | some line =>
      have hless := hbytes (Option.some_ne_none line)
      dsimp only
      split
      · rfl
      · split
        · rfl
        · exact ih (by omega) _

end Lines

/-! ## The end of the file comes -/

section Ends

variable {e : ℕ} {σ : Type} (ops : SinkOps σ)

/-- The end of the file was read, or comes with call `e`: no call up to it fails. -/
def Ending (f : ℕ → Fread) (e : ℕ) (r : Reader File) : Prop :=
  r.m_eof = true ∨ r.m_file.calls ≤ e ∧ (f e).data = [] ∧ r.m_file.failed = false ∧
    ∀ i, r.m_file.calls ≤ i → i ≤ e → (f i).failed = false

/-- The end of the file was read, or will be. -/
def Ends (f : ℕ → Fread) (r : Reader File) : Prop := ∃ e, Ending f e r

def distance (e : ℕ) (r : Reader File) : ℕ := if r.m_eof then 0 else e - r.m_file.calls + 1

theorem Ending.erase (h : Ending f e r) (k : ℕ) :
    Ending f e (r.erase k) ∧ distance e (r.erase k) = distance e r :=
  ⟨h, rfl⟩

theorem Ending.fill (h : Ending f e r) (heof : r.m_eof = false) :
    Ending f e (fill (file_ops f) r).1 ∧ distance e (fill (file_ops f) r).1 < distance e r := by
  rcases h with h | ⟨hle, hend, hfailed, hnone⟩
  · exact absurd (heof.symm.trans h) Bool.false_ne_true
  have hfirst : (f r.m_file.calls).failed = false := hnone _ (le_refl _) hle
  have haway : distance e r = e - r.m_file.calls + 1 := by
    rw [distance, heof, if_neg Bool.false_ne_true]
  rw [fill_eq heof, haway, hfailed, hfirst]
  by_cases hdata : (f r.m_file.calls).data = []
  · have hset : decide ((f r.m_file.calls).data = [] ∧ (false || false) = false) = true :=
      decide_eq_true ⟨hdata, rfl⟩
    rw [hset]
    exact ⟨.inl rfl, Nat.succ_pos _⟩
  · -- a call that is not the one at `e` leaves one less to go
    have hother : r.m_file.calls ≠ e := fun heq => hdata (heq ▸ hend)
    have hnot : decide ((f r.m_file.calls).data = [] ∧ (false || false) = false) = false :=
      decide_eq_false fun h => hdata h.1
    rw [hnot]
    refine ⟨.inr ⟨show r.m_file.calls + 1 ≤ e by omega, hend, rfl, fun i hi => ?_⟩, ?_⟩
    · exact hnone i (Nat.le_of_succ_le hi)
    · rw [distance, if_neg Bool.false_ne_true]
      dsimp only
      omega

theorem fill_two_returns (h : Ending f e r) (hfuel : distance e r < fuel) :
    ∃ r', fill_two (file_ops f) fuel r = some r' := by
  induction fuel generalizing r with
  | zero => omega
  | succ fuel ih =>
    rw [fill_two]
    split
    · rename_i hshort
      obtain ⟨hnext, hless⟩ := h.fill hshort.2
      exact ih hnext (by omega)
    · exact ⟨r, rfl⟩

theorem consume_delimiter_returns (h : Ending f e r) (hfuel : distance e r < fuel)
    (delimiter : Bytes) (sink : σ) :
    ∃ out, consume_delimiter (file_ops f) ops fuel delimiter r sink = some out := by
  unfold consume_delimiter
  split
  · exact ⟨none, rfl⟩
  rename_i pos hfind
  dsimp only
  generalize (if pos > 0 then ops.write sink (r.m_buffer.take pos) else (sink, true)) = written
  split
  · exact ⟨_, rfl⟩
  obtain ⟨herased, hsame⟩ := h.erase (pos + delimiter.length)
  obtain ⟨r', hr'⟩ := fill_two_returns herased (hsame.trans_lt hfuel)
  rw [hr']
  exact ⟨_, rfl⟩

theorem read_part_body_returns (h : Ending f e r) (hfuel : distance e r + 1 < fuel)
    (delimiter : Bytes) (sink : σ) :
    (read_part_body_loop (file_ops f) ops delimiter fuel r sink).isSome = true := by
  induction fuel generalizing r sink with
  | zero => omega
  | succ fuel ih =>
    obtain ⟨first, hfirst⟩ :=
      consume_delimiter_returns ops h (show distance e r < fuel by omega) delimiter sink
    rw [read_part_body_loop, hfirst]
    cases first with
    | some out => rfl
    | none =>
      dsimp only
      split
      · rfl
      rename_i heof
      obtain ⟨hnext, hless⟩ := h.fill (Bool.eq_false_iff.mpr heof)
      split
      · rfl
      obtain ⟨second, hsecond⟩ := consume_delimiter_returns ops hnext
        (show distance e (fill (file_ops f) r).1 < fuel by omega) delimiter sink
      rw [hsecond]
      cases second with
      | some out => rfl
      | none =>
        dsimp only
        split
        · split
          · rfl
          · obtain ⟨herased, hsame⟩ := hnext.erase
              ((fill (file_ops f) r).1.m_buffer.length - delimiter.length)
            exact ih herased (by omega) _
        · exact ih hnext (by omega) _

end Ends

/-! ## It does not -/

section Errors

theorem m_eof_of_not_ends (h : ¬ Ends f r) : r.m_eof = false := by
  rw [← Bool.not_eq_true]
  exact fun heof => h ⟨0, .inl heof⟩

theorem not_ends_fill (h : ¬ Ends f r) : ¬ Ends f (fill (file_ops f) r).1 := by
  rw [fill_eq (m_eof_of_not_ends h)]
  rintro ⟨e, hset | ⟨hle, hend, hfailed, hnone⟩⟩
  · obtain ⟨hdata, hfailed⟩ := of_decide_eq_true hset
    rw [Bool.or_eq_false_iff] at hfailed
    refine h ⟨r.m_file.calls, .inr ⟨le_refl _, hdata, hfailed.1, fun i hi hi' => ?_⟩⟩
    rw [le_antisymm hi' hi]
    exact hfailed.2
  · dsimp only at hle hfailed hnone
    rw [Bool.or_eq_false_iff] at hfailed
    refine h ⟨e, .inr ⟨by omega, hend, hfailed.1, fun i hi hi' => ?_⟩⟩
    by_cases hfirst : i = r.m_file.calls
    · rw [hfirst]
      exact hfailed.2
    · exact hnone i (by omega) hi'

theorem calls_fill (h : ¬ Ends f r) :
    (fill (file_ops f) r).1.m_file.calls = r.m_file.calls + 1 := by
  rw [fill_eq (m_eof_of_not_ends h)]

theorem fill_two_iff (fuel : ℕ) (hquiet : Quiet f n) (h : ¬ Ends f r) :
    ((fill_two (file_ops f) fuel r).isSome = true → 2 ≤ (rest f n r).length) ∧
      (2 ≤ (rest f n r).length → n - r.m_file.calls < fuel →
        (fill_two (file_ops f) fuel r).isSome = true) := by
  induction fuel generalizing r with
  | zero => exact ⟨fun h => absurd h Bool.false_ne_true, fun _ h => absurd h (Nat.not_lt_zero _)⟩
  | succ fuel ih =>
    rw [fill_two]
    by_cases hshort : r.m_buffer.length < 2
    · rw [if_pos ⟨hshort, m_eof_of_not_ends h⟩]
      obtain ⟨hmust, hdoes⟩ := ih (not_ends_fill h)
      rw [rest_fill hquiet] at hmust hdoes
      refine ⟨hmust, fun htwo hfuel => hdoes htwo ?_⟩
      have hmore : r.m_file.calls < n := by
        by_contra hquiet
        rw [rest_quiet (not_lt.mp hquiet)] at htwo
        omega
      rw [calls_fill h]
      omega
    · rw [if_neg fun hboth => hshort hboth.1]
      exact ⟨fun _ => (not_lt.mp hshort).trans length_buffer_le, fun _ _ => rfl⟩

variable {σ : Type} {ops : SinkOps σ}

/-- Two bytes stand behind the delimiter that is in the buffer, if one is, or the sink refuses what
stands before it. -/
def Marked (f : ℕ → Fread) (n : ℕ) (ops : SinkOps σ) (delimiter : Bytes) (r : Reader File)
    (sink : σ) : Prop :=
  ∀ pos, find delimiter r.m_buffer = some pos →
    pos + delimiter.length + 2 ≤ (rest f n r).length ∨
      0 < pos ∧ (ops.write sink (r.m_buffer.take pos)).2 = false

variable {delimiter : Bytes} {sink : σ}

theorem consume_delimiter_iff (ops : SinkOps σ) (fuel : ℕ) (delimiter : Bytes) (sink : σ)
    (hquiet : Quiet f n) (h : ¬ Ends f r) :
    ((consume_delimiter (file_ops f) ops fuel delimiter r sink).isSome = true →
        Marked f n ops delimiter r sink) ∧
      (Marked f n ops delimiter r sink → n - r.m_file.calls < fuel →
        (consume_delimiter (file_ops f) ops fuel delimiter r sink).isSome = true) := by
  unfold consume_delimiter
  cases hfind : find delimiter r.m_buffer with
  | none =>
    exact ⟨fun _ pos hpos => absurd (hfind.symm.trans hpos) (by simp), fun _ _ => rfl⟩
  | some pos =>
    have hle := find_le hfind
    have hpos : ∀ other, find delimiter r.m_buffer = some other → other = pos := fun other hother =>
      Option.some.inj (hother.symm.trans hfind)
    have htwo := fill_two_iff fuel hquiet
      (show ¬ Ends f (r.erase (pos + delimiter.length)) from h)
    rw [rest_erase hle, length_drop] at htwo
    have hrest := length_buffer_le (f := f) (n := n) (r := r)
    dsimp only
    by_cases hrefused : 0 < pos ∧ (ops.write sink (r.m_buffer.take pos)).2 = false
    · rw [if_pos hrefused.1, if_pos hrefused.2]
      refine ⟨fun _ other hother => ?_, fun _ _ => rfl⟩
      rw [hpos other hother]
      exact .inr hrefused
    have htaken : ¬ (if pos > 0 then ops.write sink (r.m_buffer.take pos)
        else (sink, true)).2 = false := by
      split
      · exact fun hfalse => hrefused ⟨by assumption, hfalse⟩
      · exact Bool.noConfusion
    rw [if_neg htaken, Option.isSome_map]
    refine ⟨fun hsome other hother => ?_, fun hmarked => ?_⟩
    · rw [hpos other hother]
      have := htwo.1 hsome
      exact .inl (by omega)
    · apply htwo.2
      have := (hmarked pos hfind).resolve_right hrefused
      omega

/-- **A sink that goes by the bytes**, however they are cut: `takes` says which it takes. -/
structure Tells (ops : SinkOps σ) (valid : σ → Prop) (takes : σ → Bytes → Bool) : Prop where
  write : ∀ {sink data}, data ≠ [] → (ops.write sink data).2 = takes sink data
  keeps : ∀ {sink data}, valid sink → valid (ops.write sink data).1
  nothing : ∀ sink, takes sink [] = true
  behind : ∀ {sink data more}, valid sink → data ≠ [] → takes sink data = true →
    takes (ops.write sink data).1 more = takes sink (data ++ more)
  start : ∀ {sink data more}, valid sink → takes sink (data ++ more) = true →
    takes sink data = true

/-- The bytes of the part: what stands before the delimiter, or all that can. -/
def part (delimiter text : Bytes) : Bytes :=
  text.take ((find delimiter text).getD (text.length - delimiter.length))

/-- Two bytes stand behind the delimiter that is in the file, or the sink refuses the part. -/
def Bounded (f : ℕ → Fread) (n : ℕ) (takes : σ → Bytes → Bool) (delimiter : Bytes)
    (r : Reader File) (sink : σ) : Prop :=
  (∃ pos, find delimiter (rest f n r) = some pos ∧
      pos + delimiter.length + 2 ≤ (rest f n r).length) ∨
    takes sink (part delimiter (rest f n r)) = false

variable {valid : σ → Prop} {takes : σ → Bytes → Bool}

theorem bounded_iff_marked (hops : Tells ops valid takes) {pos : ℕ}
    (hfind : find delimiter r.m_buffer = some pos) :
    Bounded f n takes delimiter r sink ↔ Marked f n ops delimiter r sink := by
  have hwhole : find delimiter (rest f n r) = some pos := find_append hfind _
  have hle := find_le hfind
  have hpart : part delimiter (rest f n r) = r.m_buffer.take pos := by
    rw [part, hwhole, Option.getD_some, rest, take_append_of_le_length (by omega)]
  have hrefused : takes sink (r.m_buffer.take pos) = false ↔
      0 < pos ∧ (ops.write sink (r.m_buffer.take pos)).2 = false := by
    rcases Nat.eq_zero_or_pos pos with rfl | hpos
    · rw [take_zero, hops.nothing]
      simp
    · have hne : r.m_buffer.take pos ≠ [] := by
        apply ne_nil_of_length_pos
        rw [length_take]
        omega
      rw [hops.write hne]
      exact (and_iff_right hpos).symm
  rw [Bounded, Marked, hpart, hrefused, hwhole, hfind]
  constructor
  · rintro hbounded _ ⟨rfl⟩
    rcases hbounded with ⟨_, ⟨rfl⟩, htwo⟩ | hrefuses
    · exact .inl htwo
    · exact .inr hrefuses
  · intro hmarked
    rcases hmarked pos rfl with htwo | hrefuses
    · exact .inl ⟨pos, rfl, htwo⟩
    · exact .inr hrefuses

theorem part_flush {k : ℕ} (habsent : find delimiter r.m_buffer = none)
    (hk : k + delimiter.length ≤ r.m_buffer.length) :
    find delimiter (rest f n r) = (find delimiter ((rest f n r).drop k)).map (· + k) ∧
      part delimiter (rest f n r) =
        r.m_buffer.take k ++ part delimiter ((rest f n r).drop k) := by
  have hbuffer := length_buffer_le (f := f) (n := n) (r := r)
  have hlater : find delimiter (rest f n r) = (find delimiter ((rest f n r).drop k)).map (· + k) :=
    find_drop ((find_eq_none_iff _ _).mp habsent) hk
  have hflush : (rest f n r).take k = r.m_buffer.take k := take_append_of_le_length (by omega)
  have hend : (find delimiter (rest f n r)).getD ((rest f n r).length - delimiter.length) =
      k + (find delimiter ((rest f n r).drop k)).getD
        (((rest f n r).drop k).length - delimiter.length) := by
    rw [hlater]
    cases find delimiter ((rest f n r).drop k) with
    | none =>
      simp only [Option.map_none, Option.getD_none, length_drop]
      omega
    | some pos => exact Nat.add_comm _ _
  refine ⟨hlater, ?_⟩
  rw [part, hend, take_add, hflush]
  rfl

section Flush

variable (hops : Tells ops valid takes) (hsink : valid sink) {k : ℕ} (hpos : 0 < k)
variable (habsent : find delimiter r.m_buffer = none)
variable (hk : k + delimiter.length ≤ r.m_buffer.length)

include hops hsink hpos habsent hk

theorem bounded_erase (htaken : (ops.write sink (r.m_buffer.take k)).2 = true) :
    Bounded f n takes delimiter (r.erase k) (ops.write sink (r.m_buffer.take k)).1 ↔
      Bounded f n takes delimiter r sink := by
  obtain ⟨hlater, hpart⟩ := part_flush (f := f) (n := n) habsent hk
  have hbuffer := length_buffer_le (f := f) (n := n) (r := r)
  have hne : r.m_buffer.take k ≠ [] := by
    apply ne_nil_of_length_pos
    rw [length_take]
    omega
  rw [hops.write hne] at htaken
  rw [Bounded, Bounded, rest_erase (by omega), hops.behind hsink hne htaken, ← hpart, hlater,
    length_drop]
  refine or_congr_left ⟨?_, ?_⟩
  · rintro ⟨pos, hfound, htwo⟩
    rw [hfound]
    exact ⟨pos + k, rfl, by omega⟩
  · rintro ⟨pos, hmoved, htwo⟩
    obtain ⟨later, hfound, rfl⟩ := Option.map_eq_some_iff.mp hmoved
    exact ⟨later, hfound, by omega⟩

theorem bounded_of_refused (hrefused : (ops.write sink (r.m_buffer.take k)).2 = false) :
    Bounded f n takes delimiter r sink := by
  have hne : r.m_buffer.take k ≠ [] := by
    apply ne_nil_of_length_pos
    rw [length_take]
    omega
  rw [hops.write hne] at hrefused
  right
  rw [← Bool.not_eq_true, (part_flush habsent hk).2]
  intro htakes
  rw [hops.start hsink htakes] at hrefused
  exact Bool.false_ne_true hrefused.symm

end Flush

theorem not_bounded (hops : Tells ops valid takes) (habsent : find delimiter r.m_buffer = none)
    (hshort : r.m_buffer.length ≤ delimiter.length) (hquiet : n ≤ r.m_file.calls) :
    ¬ Bounded f n takes delimiter r sink := by
  have hpart : part delimiter (rest f n r) = [] := by
    rw [rest_quiet hquiet, part, habsent, Option.getD_none, Nat.sub_eq_zero_of_le hshort]
    rfl
  rw [Bounded, hpart, hops.nothing, rest_quiet hquiet, habsent]
  rintro (⟨pos, hpos, -⟩ | hfalse)
  · exact absurd hpos (by simp)
  · exact absurd hfalse (by simp)

theorem consume_delimiter_absent (habsent : find delimiter r.m_buffer = none) :
    consume_delimiter (file_ops f) ops fuel delimiter r sink = some none := by
  rw [consume_delimiter, habsent]

theorem consume_delimiter_found (fuel : ℕ) (sink : σ) (hops : Tells ops valid takes)
    (hquiet : Quiet f n) (h : ¬ Ends f r) {pos : ℕ} (hfind : find delimiter r.m_buffer = some pos) :
    (∃ out, consume_delimiter (file_ops f) ops fuel delimiter r sink = some (some out) ∧
        Bounded f n takes delimiter r sink) ∨
      consume_delimiter (file_ops f) ops fuel delimiter r sink = none ∧
        (Bounded f n takes delimiter r sink → ¬ n - r.m_file.calls < fuel) := by
  obtain ⟨hmust, hdoes⟩ := consume_delimiter_iff ops fuel delimiter sink hquiet h
  rw [← bounded_iff_marked hops hfind] at hmust hdoes
  rcases hout : consume_delimiter (file_ops f) ops fuel delimiter r sink with _ | _ | out
  · rw [hout] at hdoes
    exact .inr ⟨rfl, fun hbounded hfuel => Bool.false_ne_true (hdoes hbounded hfuel)⟩
  · unfold consume_delimiter at hout
    rw [hfind] at hout
    dsimp only at hout
    generalize (if pos > 0 then ops.write sink (r.m_buffer.take pos) else (sink, true)) = written
      at hout
    split at hout
    · exact absurd (Option.some.inj hout) (Option.some_ne_none _)
    · obtain ⟨r', -, hsome⟩ := Option.map_eq_some_iff.mp hout
      exact absurd hsome (Option.some_ne_none _)
  · exact .inl ⟨out, rfl, hmust (by rw [hout]; rfl)⟩

theorem read_part_body_loop_iff (hops : Tells ops valid takes) (hquiet : Quiet f n)
    (h : ¬ Ends f r) (hsink : valid sink) :
    ((read_part_body_loop (file_ops f) ops delimiter fuel r sink).isSome = true →
        Bounded f n takes delimiter r sink) ∧
      (Bounded f n takes delimiter r sink → n - r.m_file.calls + 1 < fuel →
        (read_part_body_loop (file_ops f) ops delimiter fuel r sink).isSome = true) := by
  induction fuel generalizing r sink with
  | zero => exact ⟨fun h => absurd h Bool.false_ne_true, fun _ h => absurd h (Nat.not_lt_zero _)⟩
  | succ fuel ih =>
    rw [read_part_body_loop]
    cases hfind : find delimiter r.m_buffer with
    | some pos =>
      rcases consume_delimiter_found fuel sink hops hquiet h hfind with
        ⟨out, hout, hbounded⟩ | ⟨hout, hnot⟩
      · rw [hout]
        exact ⟨fun _ => hbounded, fun _ _ => rfl⟩
      · rw [hout]
        exact ⟨fun h => absurd h Bool.false_ne_true, fun hb hfuel => absurd (by omega) (hnot hb)⟩
    | none =>
      rw [consume_delimiter_absent hfind]
      have hnext := not_ends_fill h
      have hcalls := calls_fill h
      have hsame : Bounded f n takes delimiter (fill (file_ops f) r).1 sink ↔
          Bounded f n takes delimiter r sink := by
        rw [Bounded, Bounded, rest_fill hquiet]
      dsimp only
      rw [m_eof_of_not_ends h, if_neg Bool.false_ne_true, m_eof_of_not_ends hnext,
        if_neg (fun hboth => Bool.false_ne_true hboth.2), ← hsame]
      generalize (fill (file_ops f) r).1 = r₁ at hnext hcalls
      cases hfind₁ : find delimiter r₁.m_buffer with
      | some pos =>
        rcases consume_delimiter_found fuel sink hops hquiet hnext hfind₁ with
          ⟨out, hout, hbounded⟩ | ⟨hout, hnot⟩
        · rw [hout]
          exact ⟨fun _ => hbounded, fun _ _ => rfl⟩
        · rw [hout]
          exact ⟨fun h => absurd h Bool.false_ne_true, fun hb hfuel => absurd (by omega) (hnot hb)⟩
      | none =>
        rw [consume_delimiter_absent hfind₁]
        dsimp only
        by_cases hlong : r₁.m_buffer.length > delimiter.length
        · rw [if_pos hlong]
          generalize hk : r₁.m_buffer.length - delimiter.length = k
          have hpos : 0 < k := by omega
          have hfits : k + delimiter.length ≤ r₁.m_buffer.length := by omega
          cases hwrite : (ops.write sink (r₁.m_buffer.take k)).2 with
          | false =>
            rw [if_pos rfl]
            exact ⟨fun _ => bounded_of_refused hops hsink hpos hfind₁ hfits hwrite, fun _ _ => rfl⟩
          | true =>
            rw [if_neg Bool.noConfusion, ← bounded_erase hops hsink hpos hfind₁ hfits hwrite]
            obtain ⟨hmust, hdoes⟩ := ih (r := r₁.erase k) hnext (hops.keeps hsink)
            refine ⟨hmust, fun hbounded hfuel => hdoes hbounded ?_⟩
            have hmore : r.m_file.calls < n := by
              by_contra hquiet
              refine not_bounded hops ?_ ?_ ?_ hbounded
              · rw [find_eq_none_iff] at hfind₁ ⊢
                exact fun hin => hfind₁ (hin.trans (drop_suffix k _).isInfix)
              · rw [Reader.erase, length_drop]
                omega
              · show n ≤ r₁.m_file.calls
                omega
            show n - r₁.m_file.calls + 1 < fuel
            omega
        · rw [if_neg hlong]
          obtain ⟨hmust, hdoes⟩ := ih hnext hsink
          refine ⟨hmust, fun hbounded hfuel => hdoes hbounded ?_⟩
          have hmore : r.m_file.calls < n := by
            by_contra hquiet
            exact not_bounded hops hfind₁ (not_lt.mp hlong) (by omega) hbounded
          omega

end Errors

/-- **When reading returns.** From the `n`th call on there are no more bytes. `read_line` and
`read_headers` return. The other two return if the end of the file comes before any error, and if
it does not, exactly if two bytes stand behind the delimiter or the sink refuses the part. -/
theorem reading_returns_iff (hquiet : Quiet f n) (r : Reader File) {σ : Type} {ops : SinkOps σ}
    {valid : σ → Prop} {takes : σ → Bytes → Bool} (hops : Tells ops valid takes) {sink : σ}
    (hsink : valid sink) (delimiter boundary : Bytes) :
    Returns (fun fuel => read_line (file_ops f) fuel r) ∧
      Returns (fun fuel => read_headers (file_ops f) fuel r) ∧
      (Returns (fun fuel => consume_delimiter (file_ops f) ops fuel delimiter r sink) ↔
        Ends f r ∨ Marked f n ops delimiter r sink) ∧
      (Returns (fun fuel => read_part_body (file_ops f) ops fuel boundary r sink) ↔
        Ends f r ∨ Bounded f n takes (CRLF ++ lit "--" ++ boundary) r sink) := by
  refine ⟨?_, ⟨_, read_headers_returns hquiet (Nat.lt_succ_self _) []⟩, ?_, ?_⟩
  · obtain ⟨r', line, hline, -⟩ := read_line_returns hquiet (Nat.lt_succ_self (calls_left n r))
    exact ⟨_, Option.isSome_of_eq_some hline⟩
  · by_cases hends : Ends f r
    · obtain ⟨e, he⟩ := hends
      obtain ⟨out, hout⟩ := consume_delimiter_returns ops he (Nat.lt_succ_self _) delimiter sink
      exact iff_of_true ⟨_, Option.isSome_of_eq_some hout⟩ (.inl ⟨e, he⟩)
    rw [or_iff_right hends]
    constructor
    · rintro ⟨fuel, hfuel⟩
      exact (consume_delimiter_iff ops fuel delimiter sink hquiet hends).1 hfuel
    · intro hmarked
      exact ⟨_, (consume_delimiter_iff ops _ delimiter sink hquiet hends).2 hmarked
        (Nat.lt_succ_self _)⟩
  · by_cases hends : Ends f r
    · obtain ⟨e, he⟩ := hends
      exact iff_of_true ⟨_, read_part_body_returns ops he (Nat.lt_succ_self _) _ sink⟩
        (.inl ⟨e, he⟩)
    rw [or_iff_right hends]
    constructor
    · rintro ⟨fuel, hfuel⟩
      exact (read_part_body_loop_iff hops hquiet hends hsink).1 hfuel
    · intro hbounded
      exact ⟨_, (read_part_body_loop_iff hops hquiet hends hsink).2 hbounded (Nat.lt_succ_self _)⟩

/-! ## The two sinks -/

theorem text_sink_tells : Tells text_sink (fun _ => True) fun sink data =>
    decide (data = [] ∨ sink.m_value.length + data.length ≤ sink.m_limit) where
  write := by
    intro sink data hne
    by_cases hfits : sink.m_value.length + data.length ≤ sink.m_limit
    · simp [text_sink, hfits, not_lt.mpr hfits]
    · simp [text_sink, hfits, hne, not_le.mp hfits]
  keeps := fun _ => trivial
  nothing := fun _ => by simp
  behind := by
    intro sink data more _ hne htakes
    have hfits : sink.m_value.length + data.length ≤ sink.m_limit :=
      (of_decide_eq_true htakes).resolve_left hne
    simp only [text_sink, if_neg (not_lt.mpr hfits), length_append, append_eq_nil_iff, hne,
      false_and, false_or, Nat.add_assoc, decide_eq_decide]
    refine or_iff_right_of_imp ?_
    rintro rfl
    exact hfits
  start := by
    intro sink data more _ htakes
    refine decide_eq_true ?_
    rcases of_decide_eq_true htakes with hnil | hfits
    · exact .inl (append_eq_nil_iff.mp hnil).1
    · rw [length_append] at hfits
      exact .inr (by omega)

theorem file_sink_tells (sha256_hex : Bytes → Bytes) :
    Tells (file_sink sha256_hex) (fun sink => ∀ a b, sink.good (a + b) = true → sink.good a = true)
      fun sink data => decide (data = [] ∨ sink.m_size + data.length ≤ sink.m_max_bytes ∧
        sink.good (sink.m_content.length + data.length) = true ∧ sink.digest = true) where
  write := by
    intro sink data hne
    simp only [file_sink, hne, false_or]
    split_ifs <;> simp_all
  keeps := by
    intro sink data hvalid
    unfold file_sink
    dsimp only
    split_ifs <;> exact hvalid
  nothing := fun _ => by simp
  behind := by
    intro sink data more hvalid hne htakes
    obtain ⟨hfits, hgood, hdigest⟩ := (of_decide_eq_true htakes).resolve_left hne
    have hwrite : ((file_sink sha256_hex).write sink data).1 =
        { sink with m_content := sink.m_content ++ data, m_size := sink.m_size + data.length } := by
      simp only [file_sink]
      rw [if_neg (not_lt.mpr hfits), if_neg hne, hgood, hdigest, if_neg Bool.noConfusion,
        if_neg Bool.noConfusion]
    rw [hwrite]
    simp only [length_append, append_eq_nil_iff, hne, false_and, false_or, add_assoc,
      Nat.cast_add, decide_eq_decide]
    refine or_iff_right_of_imp ?_
    rintro rfl
    exact ⟨by simpa using hfits, hgood, hdigest⟩
  start := by
    intro sink data more hvalid htakes
    refine decide_eq_true ?_
    rcases of_decide_eq_true htakes with hnil | ⟨hfits, hgood, hdigest⟩
    · exact .inl (append_eq_nil_iff.mp hnil).1
    · rw [length_append] at hfits hgood
      exact .inr ⟨by omega, hvalid _ _ (by rw [Nat.add_assoc]; exact hgood), hdigest⟩

/-! ## Runs -/

def read_at_once (data : Bytes) (i : ℕ) : Fread := ⟨if i = 0 then data else [], false⟩

/-- Errors at the calls that `fails` says, and no bytes. -/
def fails_at (fails : ℕ → Bool) (i : ℕ) : Fread := ⟨[], fails i⟩

/-- The reader of a file with some bytes in its buffer. -/
def holding (m_buffer : Bytes) : Reader File := ⟨⟨0, false⟩, false, m_buffer⟩

theorem part_read_completely :
    Returns (fun fuel => read_part_body (file_ops (read_at_once (lit "y\r\n--b--"))) text_sink fuel
        (lit "b") (holding (lit "He")) ⟨10, false, []⟩) ∧
      Returns (fun fuel => read_part_body (file_ops (fails_at fun _ => true)) text_sink fuel
        (lit "b") (holding (lit "Hey\r\n--b\r\n")) ⟨10, false, []⟩) := by
  have hquiet : Quiet (read_at_once (lit "y\r\n--b--")) 1 := fun i hi =>
    if_neg (Nat.one_le_iff_ne_zero.mp hi)
  have hends : Ends (read_at_once (lit "y\r\n--b--")) (holding (lit "He")) :=
    ⟨1, .inr ⟨by decide, rfl, rfl, fun _ _ _ => rfl⟩⟩
  have hfails : Quiet (fails_at fun _ => true) 0 := fun _ _ => rfl
  exact ⟨(reading_returns_iff hquiet _ text_sink_tells trivial [] _).2.2.2.mpr (.inl hends),
    (reading_returns_iff hfails _ text_sink_tells trivial [] _).2.2.2.mpr
      (.inr (.inl ⟨3, by decide, by decide⟩))⟩

theorem not_ends_of_failed {fails : ℕ → Bool} (hfails : fails 0 = true) (m_buffer : Bytes) :
    ¬ Ends (fails_at fails) (holding m_buffer) := by
  rintro ⟨e, heof | ⟨-, -, -, hnone⟩⟩
  · exact Bool.false_ne_true heof
  · exact Bool.false_ne_true ((hnone 0 (le_refl _) (Nat.zero_le _)).symm.trans hfails)

/-- The two functions do not return: the part's delimiter was read, and the two bytes behind
it cannot be; or a part's body was read in part. -/
def Hangs (f : ℕ → Fread) : Prop :=
  (¬ Returns fun fuel => consume_delimiter (file_ops f) text_sink fuel (lit "\r\n--b")
      (holding (lit "Hey\r\n--b")) ⟨10, false, []⟩) ∧
    ¬ Returns fun fuel => read_part_body (file_ops f) text_sink fuel (lit "b")
      (holding (lit "Hey")) ⟨10, false, []⟩

theorem hangs_of_failed {fails : ℕ → Bool} (hfails : fails 0 = true) : Hangs (fails_at fails) := by
  have hquiet : Quiet (fails_at fails) 0 := fun _ _ => rfl
  have hrest : ∀ m_buffer, rest (fails_at fails) 0 (holding m_buffer) = m_buffer := fun _ =>
    rest_quiet (le_refl _)
  constructor
  · rintro ⟨fuel, hfuel⟩
    have hmarked := (consume_delimiter_iff _ fuel _ _ hquiet (not_ends_of_failed hfails _)).1 hfuel
    rcases hmarked 3 (by decide) with htwo | ⟨-, hrefused⟩
    · rw [hrest] at htwo
      exact absurd htwo (by decide)
    · exact absurd hrefused (by decide)
  · rintro ⟨fuel, hfuel⟩
    have hbounded := (read_part_body_loop_iff text_sink_tells hquiet
      (not_ends_of_failed hfails _) trivial).1 hfuel
    rw [Bounded, hrest] at hbounded
    rcases hbounded with ⟨pos, hpos, -⟩ | hrefused
    · exact absurd (hpos.symm.trans (by decide : _ = none)) (by simp)
    · exact absurd hrefused (by decide)

/-- **A disk that fails for good, or once.** -/
theorem failing_disk_never_returns :
    (Quiet (fails_at fun _ => true) 0 ∧ Hangs (fails_at fun _ => true)) ∧
      Quiet (fails_at fun i => decide (i = 0)) 0 ∧ Hangs (fails_at fun i => decide (i = 0)) :=
  ⟨⟨fun _ _ => rfl, hangs_of_failed rfl⟩, fun _ _ => rfl, hangs_of_failed rfl⟩

end AtlasWebServer.SpoolReads
