/-
The parameters of `Content-Disposition` and `Content-Type`.

`header_param_value` searches the header for `key=` and reads what is behind it, so it reads
the first place where that text occurs. This is the parameter of that name, unless another one
comes before it whose name only ends with the key (`filename` for `name`), or whose value has
the text in it. `header_param_value_render` says what is read in each case.

The boundary is read to the end of the header: a parameter behind it becomes a part of it.
-/
import AtlasWebServer.MultipartParser

set_option autoImplicit false

namespace AtlasWebServer.Multipart

open Bytes CString Search List Option

/-! ## Headers with parameters -/

/-- A byte of a token: no blank, no quote, no semicolon and no equals sign. -/
def token_byte (b : UInt8) : Bool := !isspace b && b ≠ 34 && b ≠ 59 && b ≠ 61

/-- `; name=value` or `; name="value"`, with any blanks before the name. -/
structure Parameter where
  gap : Bytes
  name : Bytes
  quoted : Bool
  value : Bytes

def Parameter.field (q : Parameter) : Bytes := if q.quoted then 34 :: (q.value ++ [34]) else q.value

def render : List Parameter → Bytes
  | [] => []
  | q :: qs => 59 :: (q.gap ++ q.name ++ 61 :: (q.field ++ render qs))

/-- The name is a token, and the value is a token or quoted. -/
structure Parameter.Valid (q : Parameter) : Prop where
  gap : ∀ b ∈ q.gap, isspace b = true
  name_ne : q.name ≠ []
  name : ∀ b ∈ q.name, token_byte b = true
  quoted : q.quoted = true → (34 : UInt8) ∉ q.value
  token : q.quoted = false → q.value ≠ [] ∧ ∀ b ∈ q.value, token_byte b = true

/-- The value of a parameter, and nothing if there is none of that name. -/
def value_of (key : Bytes) (ps : List Parameter) : Bytes :=
  ((ps.find? fun q => q.name = key).map Parameter.value).getD []

/-- `key=` occurs at the end of the name, or in the value. -/
def Parameter.hit (key : Bytes) (q : Parameter) : Bool :=
  decide (key <:+ q.name) || (find (key ++ [61]) q.value).isSome

/-! ## What is behind the first `key=` -/

def behind (pattern s : Bytes) : Option Bytes :=
  (find pattern s).map fun i => s.drop (i + pattern.length)

variable {s m : Bytes} {b : UInt8} {ps before : List Parameter} {q : Parameter}

theorem behind_shift (pattern s : Bytes) (x : UInt8) (t : Bytes) :
    ((find pattern t).map (· + (s.length + 1))).map
      (fun i => (s ++ x :: t).drop (i + pattern.length)) = behind pattern t := by
  rw [Option.map_map]
  congr 1
  funext i
  have hdrop : i + (s.length + 1) + pattern.length =
    s.length + (1 + (i + pattern.length)) := by omega
  simp only [Function.comp_apply, hdrop]
  rw [← drop_drop, drop_left, ← drop_drop]
  rfl

variable {pattern key value : Bytes}

theorem behind_split {x : UInt8} (hne : pattern ≠ []) (hx : x ∉ pattern)
    (hs : find pattern s = none) (t : Bytes) : behind pattern (s ++ x :: t) = behind pattern t := by
  rw [behind, find_split hne hx, hs, none_or]
  exact behind_shift pattern s x t

theorem behind_found {i : ℕ} (h : find pattern s = some i) (t : Bytes) :
    behind pattern (s ++ t) = some (s.drop (i + pattern.length) ++ t) := by
  unfold behind
  rw [find_append h, map_some, drop_append_of_le_length (find_le h)]

theorem behind_terminated {c : UInt8} (hkey : c ∉ key) (hs : c ∉ s) (t : Bytes) :
    behind (key ++ [c]) (s ++ c :: t) = if key <:+ s then some t else behind (key ++ [c]) t := by
  rw [behind, find_terminated hkey hs]
  split
  · rename_i hend
    have hle := hend.length_le
    have hdrop : s.length - key.length + (key ++ [c]).length = s.length + 1 := by
      rw [length_append, length_singleton]
      omega
    rw [map_some, hdrop, ← drop_drop, drop_left]
    rfl
  · exact behind_shift _ s c t

theorem suffix_behind {gap name : Bytes} (h : ∀ b ∈ gap, b ∉ key) :
    key <:+ gap ++ name ↔ key <:+ name := by
  constructor
  · intro hend
    by_cases hlen : key.length ≤ name.length
    · exact suffix_of_suffix_length_le hend (suffix_append gap name) hlen
    -- a longer key would have the last byte of the gap in it
    have hover : name <:+ key :=
      suffix_of_suffix_length_le (suffix_append gap name) hend (by omega)
    obtain ⟨u, rfl⟩ := hover
    obtain ⟨w, hw⟩ := hend
    rw [← append_assoc] at hw
    have hgap : w ++ u = gap := append_cancel_right hw
    cases u with
    | nil =>
      exact absurd (le_refl _) hlen
    | cons b u =>
      have hmem : b ∈ gap := by
        rw [← hgap]
        simp
      exact absurd (mem_append_left _ mem_cons_self) (h b hmem)
  · exact fun hend => hend.trans (suffix_append gap name)

section Search

variable {key : Bytes} (hkey : ∀ b ∈ key, token_byte b = true)

include hkey

theorem not_mem_key (hb : token_byte b = false) : b ∉ key := by
  intro hmem
  rw [hkey b hmem] at hb
  exact Bool.noConfusion hb

theorem not_mem_pattern (hb : token_byte b = false) (hne : b ≠ 61) : b ∉ key ++ [61] := by
  rw [mem_append, mem_singleton, not_or]
  exact ⟨not_mem_key hkey hb, hne⟩

omit hkey in
theorem pattern_ne : key ++ [61] ≠ [] := by simp

theorem find_quoted (hq : q.quoted = true) :
    find (key ++ [61]) q.field = (find (key ++ [61]) q.value).map (· + 1) := by
  have h34 := not_mem_pattern hkey (b := 34) (by decide) (by decide)
  have hempty : find (key ++ [61]) ([] : Bytes) = none := by
    rw [find, if_neg pattern_ne]
  unfold Parameter.field
  rw [if_pos hq, show (34 : UInt8) :: (q.value ++ [34]) =
    [] ++ 34 :: (q.value ++ 34 :: []) from rfl,
    find_split pattern_ne h34, find_split pattern_ne h34, hempty]
  cases find (key ++ [61]) q.value <;> rfl

theorem find_field (q : Parameter) :
    (find (key ++ [61]) q.field).isSome = (find (key ++ [61]) q.value).isSome := by
  cases hquoted : q.quoted with
  | true => rw [find_quoted hkey hquoted, isSome_map]
  | false => rw [Parameter.field, hquoted, if_neg Bool.false_ne_true]

/-- The text behind the first `key=` in some parameters. -/
def stop (key : Bytes) : List Parameter → Option Bytes
  | [] => none
  | q :: qs =>
      if key <:+ q.name then some (q.field ++ render qs)
      else
        match find (key ++ [61]) q.field with
        | some i => some (q.field.drop (i + (key ++ [61]).length) ++ render qs)
        | none => stop key qs

theorem behind_render (hps : ∀ q ∈ ps, q.Valid) (hs : find (key ++ [61]) s = none) :
    behind (key ++ [61]) (s ++ render ps) = stop key ps := by
  induction ps generalizing s with
  | nil =>
    unfold behind
    rw [render, append_nil, hs]
    rfl
  | cons q qs ih =>
    have hq := hps q mem_cons_self
    have h59 := not_mem_pattern hkey (b := 59) (by decide) (by decide)
    have h61 : (61 : UInt8) ∉ key := not_mem_key hkey (by decide)
    have hgap : ∀ b ∈ q.gap, b ∉ key := by
      intro b hb
      apply not_mem_key hkey
      simp [token_byte, hq.gap b hb]
    have hname : (61 : UInt8) ∉ q.gap ++ q.name := by
      rw [mem_append, not_or]
      refine ⟨fun h => ?_, fun h => ?_⟩
      · exact absurd (hq.gap 61 h) (by decide)
      · exact absurd (hq.name 61 h) (by decide)
    have hend : key <:+ q.gap ++ q.name ↔ key <:+ q.name := suffix_behind hgap
    rw [render, behind_split pattern_ne h59 hs, behind_terminated h61 hname, stop]
    by_cases hown : key <:+ q.name
    · rw [if_pos hown, if_pos (hend.mpr hown)]
    rw [if_neg hown, if_neg fun h => hown (hend.mp h)]
    cases hfind : find (key ++ [61]) q.field with
    | some i => exact behind_found hfind (render qs)
    | none => exact ih (fun x hx => hps x (mem_cons_of_mem q hx)) hfind

theorem stop_append (hbefore : ∀ x ∈ before, x.hit key = false) (ps : List Parameter) :
    stop key (before ++ ps) = stop key ps := by
  induction before with
  | nil => rfl
  | cons x before ih =>
    have hx := hbefore x mem_cons_self
    unfold Parameter.hit at hx
    rw [Bool.or_eq_false_iff, decide_eq_false_iff_not, ← find_field hkey,
      isSome_eq_false_iff, isNone_iff_eq_none] at hx
    rw [cons_append, stop, if_neg hx.1, hx.2]
    exact ih fun y hy => hbefore y (mem_cons_of_mem x hy)

end Search

/-! ## `header_param_value` -/

/-- What `header_param_value` makes of the text behind `key=`. -/
def read_behind (text : Bytes) : Bytes :=
  match text.dropWhile isspace with
  | [] => []
  | ch :: rest =>
      if ch = 34 then
        match find [34] rest with
        | none => []
        | some fin => rest.take fin
      else
        let text := ch :: rest
        trim_ascii_copy (text.take ((find [59] text).getD text.length))

theorem header_param_value_eq (header_line key : Bytes) :
    header_param_value header_line key =
      ((behind (key ++ [61]) header_line).map read_behind).getD [] := by
  have hpattern : key ++ lit "=" = key ++ [61] := rfl
  unfold header_param_value behind
  rw [hpattern]
  dsimp only
  cases find (key ++ [61]) header_line <;> rfl

theorem read_behind_quoted (h : (34 : UInt8) ∉ value) (rest : Bytes) :
    read_behind (34 :: (value ++ 34 :: rest)) = value := by
  have h34 : isspace 34 = false := by decide
  unfold read_behind
  rw [dropWhile_cons_of_neg (by rw [h34]; exact Bool.noConfusion)]
  dsimp only
  rw [if_pos rfl, find_element h]
  exact take_left

/-- What is read at a quoted parameter with a hit: its own value if the hit is its name, and
otherwise what is behind `key=` in the value. -/
def Parameter.read_value (key : Bytes) (q : Parameter) (after : List Parameter) : Bytes :=
  if key <:+ q.name then q.value
  else
    read_behind (q.value.drop ((find (key ++ [61]) q.value).getD 0 + (key ++ [61]).length) ++
      34 :: render after)

section Disposition

variable {key base : Bytes} (hkey : ∀ b ∈ key, token_byte b = true)
  (hbase : find (key ++ [61]) base = none)

include hkey

include hbase

theorem header_param_value_render {after : List Parameter}
    (hps : ∀ x ∈ before ++ q :: after, x.Valid) (hbefore : ∀ x ∈ before, x.hit key = false)
    (hq : q.hit key = true) (hquoted : q.quoted = true) :
    header_param_value (base ++ render (before ++ q :: after)) key = q.read_value key after := by
  have hvalid := hps q (mem_append_right before mem_cons_self)
  have hfield : q.field = 34 :: (q.value ++ [34]) := if_pos hquoted
  rw [header_param_value_eq, behind_render hkey hps hbase, stop_append hkey hbefore, stop]
  unfold Parameter.read_value
  by_cases hname : key <:+ q.name
  · rw [if_pos hname, if_pos hname, hfield, cons_append, append_assoc]
    exact read_behind_quoted (hvalid.quoted hquoted) _
  unfold Parameter.hit at hq
  rw [decide_eq_false hname, Bool.false_or] at hq
  obtain ⟨i, hi⟩ := isSome_iff_exists.mp hq
  have hle := find_le hi
  have hdrop : q.field.drop (i + 1 + (key ++ [61]).length) =
      q.value.drop (i + (key ++ [61]).length) ++ [34] := by
    rw [hfield, Nat.add_right_comm, drop_succ_cons, drop_append_of_le_length hle]
  rw [if_neg hname, if_neg hname, find_quoted hkey hquoted, hi]
  show read_behind (q.field.drop (i + 1 + (key ++ [61]).length) ++ render after) = _
  rw [hdrop, append_assoc]
  rfl

theorem header_param_value_absent (hps : ∀ x ∈ ps, x.Valid) (hnone : ∀ x ∈ ps, x.hit key = false) :
    header_param_value (base ++ render ps) key = [] := by
  have hstop := stop_append hkey hnone []
  rw [append_nil] at hstop
  rw [header_param_value_eq, behind_render hkey hps hbase, hstop]
  rfl

end Disposition

/-- The first parameter with a hit is the one of that name. -/
def OwnFirst (key : Bytes) (ps : List Parameter) : Prop :=
  ∀ q, ps.find? (Parameter.hit key) = some q → q.name = key

/-- It is another one, and what is read there is by chance the right value. -/
def Coincides (key : Bytes) (ps : List Parameter) : Prop :=
  ∃ before q after, ps = before ++ q :: after ∧ (∀ x ∈ before, x.hit key = false) ∧
    q.hit key = true ∧ q.name ≠ key ∧ q.read_value key after = value_of key ps

theorem hit_own (h : q.name = key) : q.hit key = true := by
  unfold Parameter.hit
  rw [h, decide_eq_true (suffix_refl key), Bool.true_or]

theorem header_param_value_iff {base : Bytes} (hkey : ∀ b ∈ key, token_byte b = true)
    (hbase : find (key ++ [61]) base = none) (hps : ∀ q ∈ ps, q.Valid ∧ q.quoted = true) :
    header_param_value (base ++ render ps) key = value_of key ps ↔
      OwnFirst key ps ∨ Coincides key ps := by
  have hvalid : ∀ q ∈ ps, q.Valid := fun q hq => (hps q hq).1
  cases hfind : ps.find? (Parameter.hit key) with
  | none =>
    have hnone : ∀ q ∈ ps, q.hit key = false := by
      intro q hq
      exact Bool.eq_false_iff.mpr (List.find?_eq_none.mp hfind q hq)
    have hvalue : value_of key ps = [] := by
      have hother : ps.find? (fun q => q.name = key) = none := by
        rw [List.find?_eq_none]
        intro q hq hname
        rw [decide_eq_true_eq] at hname
        exact nomatch (hit_own hname).symm.trans (hnone q hq)
      unfold value_of
      rw [hother]
      rfl
    refine iff_of_true ?_ (.inl fun q hq => absurd (hfind.symm.trans hq) (by simp))
    rw [hvalue]
    exact header_param_value_absent hkey hbase hvalid hnone
  | some q =>
    obtain ⟨hq, before, after, rfl, hbefore⟩ := List.find?_eq_some_iff_append.mp hfind
    have hpassed : ∀ x ∈ before, x.hit key = false := by
      intro x hx
      exact (Bool.not_eq_true' _).mp (hbefore x hx)
    have hmem : q ∈ before ++ q :: after := mem_append_right before mem_cons_self
    have hread := header_param_value_render hkey hbase hvalid hpassed hq (hps q hmem).2
    by_cases hname : q.name = key
    · have hvalue : value_of key (before ++ q :: after) = q.value := by
        have hown : (before ++ q :: after).find? (fun x => x.name = key) = some q := by
          rw [List.find?_eq_some_iff_append]
          refine ⟨decide_eq_true hname, before, after, rfl, ?_⟩
          intro x hx
          have hne : x.name ≠ key := fun h =>
            nomatch (hit_own h).symm.trans (hpassed x hx)
          rw [decide_eq_false hne]
          rfl
        unfold value_of
        rw [hown]
        rfl
      refine iff_of_true ?_ (.inl fun x hx => ?_)
      · rw [hread, hvalue]
        unfold Parameter.read_value
        rw [if_pos (hname ▸ suffix_refl _)]
      · rw [hfind] at hx
        cases hx
        exact hname
    · constructor
      · intro hright
        exact .inr ⟨before, q, after, rfl, hpassed, hq, hname, hread.symm.trans hright⟩
      rintro (hfirst | ⟨before', q', after', hsplit, hpassed', hq', -, hvalue⟩)
      · exact absurd (hfirst q hfind) hname
      have hmem' : q' ∈ before ++ q :: after := by
        rw [hsplit]
        exact mem_append_right before' mem_cons_self
      have hquoted := (hps q' hmem').2
      rw [hsplit] at hvalid
      have hread' := header_param_value_render hkey hbase hvalid hpassed' hq' hquoted
      rw [← hsplit] at hread'
      exact hread'.trans hvalue

/-! ## The boundary -/

/-- A text that neither starts nor ends with a blank. -/
def Trimmed (m : Bytes) : Prop :=
  (∃ a t, m = a :: t ∧ isspace a = false) ∧ ∃ t b, m = t ++ [b] ∧ isspace b = false

theorem dropWhile_keeps (u : Bytes) {a : UInt8} (ha : isspace a = false) (t : Bytes) :
    ∃ u', (u ++ a :: t).dropWhile isspace = u' ++ a :: t := by
  induction u with
  | nil =>
    refine ⟨[], ?_⟩
    exact dropWhile_cons_of_neg (by rw [ha]; exact Bool.noConfusion)
  | cons x u ih =>
    by_cases hx : isspace x = true
    · obtain ⟨u', hu'⟩ := ih
      exact ⟨u', by rw [cons_append, dropWhile_cons_of_pos hx, hu']⟩
    · exact ⟨x :: u, by rw [cons_append, dropWhile_cons_of_neg hx]⟩

theorem Trimmed.length_le (h : Trimmed m) (u w : Bytes) :
    m.length ≤ (trim_ascii_copy (u ++ (m ++ w))).length := by
  obtain ⟨⟨a, t, hstart, ha⟩, t', b, hend, hb⟩ := h
  obtain ⟨u', hu'⟩ := dropWhile_keeps u ha (t ++ w)
  have hfirst : (u ++ (m ++ w)).dropWhile isspace = u' ++ (m ++ w) := by
    rw [hstart]
    exact hu'
  -- the same for the other end
  obtain ⟨w', hw'⟩ := dropWhile_keeps w.reverse hb (t'.reverse ++ u'.reverse)
  have hreverse : (u' ++ (m ++ w)).reverse = w.reverse ++ b :: (t'.reverse ++ u'.reverse) := by
    rw [hend]
    simp
  unfold trim_ascii_copy
  rw [hfirst, hreverse, hw', hend]
  simp
  omega

theorem Trimmed.trim_eq (h : Trimmed m) : trim_ascii_copy m = m := by
  obtain ⟨⟨a, t, hstart, ha⟩, t', b, hend, hb⟩ := h
  have hfirst : m.dropWhile isspace = m := by
    rw [hstart]
    exact dropWhile_cons_of_neg (by rw [ha]; exact Bool.noConfusion)
  have hlast : m.reverse.dropWhile isspace = m.reverse := by
    rw [hend, reverse_append, reverse_singleton, singleton_append]
    exact dropWhile_cons_of_neg (by rw [hb]; exact Bool.noConfusion)
  unfold trim_ascii_copy
  rw [hfirst, hlast, reverse_reverse]

theorem Trimmed.append {m' : Bytes} (h : Trimmed m) (h' : Trimmed m') (s : Bytes) :
    Trimmed (m ++ (s ++ m')) := by
  obtain ⟨⟨a, t, rfl, ha⟩, -⟩ := h
  obtain ⟨-, t', b, rfl, hb⟩ := h'
  refine ⟨⟨a, t ++ (s ++ (t' ++ [b])), rfl, ha⟩, a :: t ++ (s ++ t'), b, ?_, hb⟩
  simp

theorem token_not_space (h : token_byte b = true) : isspace b = false := by
  unfold token_byte at h
  simp only [Bool.and_eq_true, Bool.not_eq_true'] at h
  exact h.1.1.1

theorem trimmed_field (hq : q.Valid) : Trimmed q.field := by
  have h34 : isspace 34 = false := by decide
  unfold Parameter.field
  cases hquoted : q.quoted with
  | true => exact ⟨⟨34, _, rfl, h34⟩, 34 :: q.value, 34, rfl, h34⟩
  | false =>
    obtain ⟨hne, htoken⟩ := hq.token hquoted
    refine ⟨?_, ?_⟩
    · obtain ⟨a, t, hvalue⟩ := exists_cons_of_ne_nil hne
      exact ⟨a, t, hvalue, token_not_space (htoken a (hvalue ▸ mem_cons_self))⟩
    · refine ⟨q.value.dropLast, q.value.getLast hne, (dropLast_append_getLast hne).symm, ?_⟩
      exact token_not_space (htoken _ (getLast_mem hne))

/-- What `parse_spooled_multipart` makes of the text behind `boundary=`, once it is trimmed. -/
def unquote (boundary : Bytes) : Bytes :=
  if boundary ≠ [] ∧ boundary.head? = some 34 ∧ boundary.getLast? = some 34 then
    (boundary.drop 1).take (boundary.length - 2)
  else boundary

theorem boundary_of_eq (content_type : Bytes) :
    boundary_of content_type =
      (behind (lit "boundary" ++ [61]) content_type).map fun text =>
        unquote (trim_ascii_copy text) := by
  have hpattern : lit "boundary=" = lit "boundary" ++ [61] := rfl
  unfold boundary_of behind
  rw [hpattern, Option.map_map]
  rfl

theorem length_unquote (boundary : Bytes) : boundary.length ≤ (unquote boundary).length + 2 := by
  unfold unquote
  split
  · rw [length_take, length_drop]
    omega
  · omega

theorem unquote_field (hq : q.Valid) : unquote q.field = q.value := by
  unfold unquote Parameter.field
  cases hquoted : q.quoted with
  | true =>
    have hlast : (34 :: (q.value ++ [34])).getLast? = some 34 :=
      getLast?_concat (l := 34 :: q.value)
    rw [if_pos rfl, if_pos ⟨cons_ne_nil _ _, rfl, hlast⟩]
    simp
  | false =>
    refine if_neg ?_
    rintro ⟨-, hhead, -⟩
    exact absurd ((hq.token hquoted).2 34 (mem_of_mem_head? hhead)) (by decide)

theorem length_field (q : Parameter) : q.value.length ≤ q.field.length := by
  unfold Parameter.field
  split
  · simp
    omega
  · exact le_refl _

theorem render_append (ps qs : List Parameter) : render (ps ++ qs) = render ps ++ render qs := by
  induction ps with
  | nil => rfl
  | cons p ps ih => simp [render, ih]

theorem stop_early (hkey : ∀ b ∈ key, token_byte b = true) (h : ∃ x ∈ before, x.hit key = true)
    (ps : List Parameter) : ∃ u, stop key (before ++ ps) = some (u ++ render ps) := by
  induction before with
  | nil =>
    obtain ⟨x, hx, -⟩ := h
    exact absurd hx not_mem_nil
  | cons y before ih =>
    rw [cons_append, stop, render_append]
    by_cases hname : key <:+ y.name
    · exact ⟨y.field ++ render before, by rw [if_pos hname, append_assoc]⟩
    rw [if_neg hname]
    cases hfind : find (key ++ [61]) y.field with
    | some i =>
      refine ⟨y.field.drop (i + (key ++ [61]).length) ++ render before, ?_⟩
      rw [append_assoc]
    | none =>
      apply ih
      have hy : y.hit key = false := by
        unfold Parameter.hit
        rw [decide_eq_false hname, ← find_field hkey, hfind]
        rfl
      obtain ⟨x, hx, hhit⟩ := h
      rcases mem_cons.mp hx with rfl | hx
      · exact nomatch hhit.symm.trans hy
      · exact ⟨x, hx, hhit⟩

theorem unquote_ne {u w : Bytes} (h : Trimmed m) (hlong : value.length + 2 < m.length) :
    unquote (trim_ascii_copy (u ++ (m ++ w))) ≠ value := by
  intro heq
  have hkept := h.length_le u w
  have hunquoted := length_unquote (trim_ascii_copy (u ++ (m ++ w)))
  rw [heq] at hunquoted
  omega

theorem boundary_of_iff {after : List Parameter} {b : Parameter}
    (hps : ∀ q ∈ before ++ b :: after, q.Valid) (hname : b.name = lit "boundary") :
    boundary_of (lit "multipart/form-data" ++ render (before ++ b :: after)) = some b.value ↔
      after = [] ∧ ∀ x ∈ before, x.hit (lit "boundary") = false := by
  have hkey : ∀ c ∈ lit "boundary", token_byte c = true := by decide +kernel
  have hbase : find (lit "boundary" ++ [61]) (lit "multipart/form-data") = none := by decide
  have hb := hps b (mem_append_right before mem_cons_self)
  have hvalue := length_field b
  have hown : stop (lit "boundary") (b :: after) = some (b.field ++ render after) := by
    rw [stop, if_pos (hname ▸ suffix_refl _)]
  rw [boundary_of_eq, behind_render hkey hps hbase]
  constructor
  · intro hread
    by_cases hpassed : ∀ x ∈ before, x.hit (lit "boundary") = false
    · refine ⟨?_, hpassed⟩
      rw [stop_append hkey hpassed, hown, map_some, Option.some.injEq] at hread
      cases after with
      | nil => rfl
      | cons a after =>
        -- the next parameter is read as well
        have ha := hps a (by simp)
        have htrimmed := (trimmed_field hb).append (trimmed_field ha)
          (59 :: (a.gap ++ a.name ++ [61]))
        have htext : b.field ++ render (a :: after) =
            [] ++ ((b.field ++ (59 :: (a.gap ++ a.name ++ [61]) ++ a.field)) ++ render after) := by
          simp [render]
        have hpos : 0 < a.name.length := length_pos_of_ne_nil ha.name_ne
        rw [htext] at hread
        refine absurd hread (unquote_ne htrimmed ?_)
        simp only [length_append, length_cons, length_nil]
        omega
    · -- an earlier hit: this parameter's own text is read
      have hearly : ∃ x ∈ before, x.hit (lit "boundary") = true := by
        by_contra hnone
        apply hpassed
        intro x hx
        exact Bool.eq_false_iff.mpr fun hhit => hnone ⟨x, hx, hhit⟩
      obtain ⟨u, hu⟩ := stop_early hkey hearly (b :: after)
      have h59 : Trimmed [59] := ⟨⟨59, [], rfl, by decide⟩, [], 59, rfl, by decide⟩
      have htrimmed := h59.append (trimmed_field hb) (b.gap ++ b.name ++ [61])
      have htext : u ++ render (b :: after) =
          u ++ (([59] ++ ((b.gap ++ b.name ++ [61]) ++ b.field)) ++ render after) := by
        simp [render]
      have hlen : (lit "boundary").length = 8 := by decide
      rw [hu, map_some, Option.some.injEq, htext] at hread
      refine absurd hread (unquote_ne htrimmed ?_)
      simp only [hname, hlen, length_append, length_cons, length_nil]
      omega
  · rintro ⟨rfl, hpassed⟩
    rw [stop_append hkey hpassed, hown, render, append_nil, map_some,
      (trimmed_field hb).trim_eq, unquote_field hb]

/-- **Parameters are found by their names** only where nothing before them looks like
them. For `name` and `filename` that is the first hit being their own, or a coincidence; the
boundary also has to be the last parameter. -/
theorem header_parameters_iff (ps before after : List Parameter) (b : Parameter) :
    ((∀ q ∈ ps, q.Valid ∧ q.quoted = true) → ∀ key ∈ [lit "name", lit "filename"],
      (header_param_value (lit "form-data" ++ render ps) key = value_of key ps ↔
        OwnFirst key ps ∨ Coincides key ps)) ∧
    ((∀ q ∈ before ++ b :: after, q.Valid) → b.name = lit "boundary" →
      (boundary_of (lit "multipart/form-data" ++ render (before ++ b :: after)) = some b.value ↔
        after = [] ∧ ∀ x ∈ before, x.hit (lit "boundary") = false)) := by
  refine ⟨fun hps key hkey => ?_, fun hps hname => boundary_of_iff hps hname⟩
  rw [mem_cons, mem_singleton] at hkey
  rcases hkey with rfl | rfl <;> exact header_param_value_iff (by decide +kernel) (by decide) hps

def quoted_parameter (name value : Bytes) : Parameter := ⟨[32], name, true, value⟩

/-- The usual order. -/
theorem name_before_filename :
    header_param_value (lit "form-data; name=\"file\"; filename=\"a.txt\"") (lit "name") =
      lit "file" := by
  have hps : ∀ q ∈ [quoted_parameter (lit "name") (lit "file"),
      quoted_parameter (lit "filename") (lit "a.txt")], q.Valid ∧ q.quoted = true := by
    intro q hq
    rw [mem_cons, mem_singleton] at hq
    rcases hq with rfl | rfl <;>
      exact ⟨⟨by decide +kernel, by decide, by decide +kernel, by decide, by decide⟩, rfl⟩
  have hiff := (header_parameters_iff _ [] [] (quoted_parameter [] [])).1 hps (lit "name")
    mem_cons_self
  refine hiff.mpr (.inl ?_)
  intro q hq
  have hfirst : some (quoted_parameter (lit "name") (lit "file")) = some q := hq
  rw [← Option.some.inj hfirst]
  rfl

/-- **The other order.** The value of `filename` is taken for that of `name`; a file name can
stand in for one that is absent; and what follows the boundary is taken for a part of it. -/
theorem parameters_misread :
    header_param_value (lit "form-data; filename=\"a.txt\"; name=\"file\"") (lit "name") =
        lit "a.txt" ∧
      header_param_value (lit "form-data; filename=\"a.txt\"") (lit "name") = lit "a.txt" ∧
      boundary_of (lit "multipart/form-data; boundary=b; charset=utf-8") =
        some (lit "b; charset=utf-8") := by
  decide +kernel

end AtlasWebServer.Multipart
