/-
Lines: `parse_line` finds the next one whatever it has looked at before, and
`parse_request_line` is a function of the text of its line.

`split_line` and `request_line` say the same over lists of bytes, without a buffer.
The writes of `parse_request_line` stay within its line: `strcat` has the room of
the version it writes over.
-/
import AtlasWebServer.HttpParser

set_option autoImplicit false

namespace AtlasWebServer.Http

open Bytes CString RingBuffer List Option

variable {b : UInt8} {raw mem' : Bytes} {p e : ℕ}

variable {mem tail s url : Bytes} {c : Conn} {lo hi u : ℕ}

/-! ## `parse_line` -/

/-- The bytes `parse_line` has not looked at. -/
def Conn.unchecked (c : Conn) : Bytes := (c.m_read_buf.take c.m_read_idx).drop c.m_checked_idx

theorem unchecked_cons {n k : ℕ} (h : (mem.take n).drop k = b :: tail) :
    k < n ∧ mem.getD k 0 = b ∧ (mem.take n).drop (k + 1) = tail := by
  have hget : ((mem.take n).drop k)[0]? = some b := by rw [h]; rfl
  rw [getElem?_drop, Nat.add_zero] at hget
  have hk : k < n := by
    by_contra hk
    rw [getElem?_take, if_neg hk] at hget
    cases hget
  rw [getElem?_take_of_lt hk] at hget
  refine ⟨hk, ?_, ?_⟩
  · rw [getD_eq_getElem?_getD, hget]
    rfl
  · have htail := congrArg List.tail h
    rw [tail_drop] at htail
    exact htail

def plain (b : UInt8) : Bool := b ≠ CR ∧ b ≠ LF

theorem parse_line_pass (h : c.unchecked = b :: tail) :
    parse_line c = parse_line_loop (c.m_read_idx - (c.m_checked_idx + 1) + 1) c := by
  obtain ⟨hk, -⟩ := unchecked_cons h
  unfold parse_line
  rw [show c.m_read_idx - c.m_checked_idx = c.m_read_idx - (c.m_checked_idx + 1) + 1 by omega]

theorem parse_line_plain (h : c.unchecked = b :: tail) (hb : plain b = true) :
    parse_line c = parse_line { c with m_checked_idx := c.m_checked_idx + 1 } := by
  obtain ⟨-, hget, -⟩ := unchecked_cons h
  simp only [plain, decide_eq_true_eq] at hb
  rw [parse_line_pass h, parse_line_loop, hget, if_neg hb.1, if_neg hb.2]
  rfl

theorem parse_line_scan (a : Bytes) (ha : ∀ b ∈ a, plain b = true) (c : Conn) (tail : Bytes)
    (h : c.unchecked = a ++ tail) :
    parse_line c = parse_line { c with m_checked_idx := c.m_checked_idx + a.length } := by
  induction a generalizing c with
  | nil => rfl
  | cons b a ih =>
    have hrest : ({ c with m_checked_idx := c.m_checked_idx + 1 } : Conn).unchecked = a ++ tail :=
      (unchecked_cons h).2.2
    rw [parse_line_plain h (ha b mem_cons_self),
      ih (fun x hx => ha x (mem_cons_of_mem b hx)) _ hrest]
    simp only [length_cons, Nat.add_assoc, Nat.add_comm 1]

theorem parse_line_nil (h : c.m_read_idx ≤ c.m_checked_idx) : parse_line c = (c, .LINE_OPEN) := by
  unfold parse_line
  rw [Nat.sub_eq_zero_of_le h, parse_line_loop]

theorem parse_line_cr_end (h : c.unchecked = [CR]) (hlen : c.m_read_idx ≤ c.m_read_buf.length) :
    parse_line c = (c, .LINE_OPEN) := by
  obtain ⟨hk, hget, hrest⟩ := unchecked_cons h
  have hend : c.m_checked_idx + 1 = c.m_read_idx := by
    have hlength := congrArg length hrest
    rw [length_drop, length_take, length_nil] at hlength
    omega
  rw [parse_line_pass h, parse_line_loop, hget, if_pos rfl, if_pos hend]

theorem parse_line_crlf (h : c.unchecked = CR :: LF :: tail) :
    parse_line c = ({ c with
      m_read_buf := (c.m_read_buf.set c.m_checked_idx 0).set (c.m_checked_idx + 1) 0
      m_checked_idx := c.m_checked_idx + 2 }, .LINE_OK) := by
  obtain ⟨hk, hget, hrest⟩ := unchecked_cons h
  obtain ⟨hk', hget', -⟩ := unchecked_cons hrest
  rw [parse_line_pass h, parse_line_loop, hget, if_pos rfl, if_neg (by omega), hget', if_pos rfl]

theorem parse_line_cr_bad (h : c.unchecked = CR :: b :: tail) (hb : b ≠ LF) :
    parse_line c = (c, .LINE_BAD) := by
  obtain ⟨hk, hget, hrest⟩ := unchecked_cons h
  obtain ⟨hk', hget', -⟩ := unchecked_cons hrest
  rw [parse_line_pass h, parse_line_loop, hget, if_pos rfl, if_neg (by omega), hget', if_neg hb]

theorem parse_line_lf_bad (h : c.unchecked = LF :: tail)
    (hprev : c.m_checked_idx ≤ 1 ∨ c.m_read_buf.getD (c.m_checked_idx - 1) 0 ≠ CR) :
    parse_line c = (c, .LINE_BAD) := by
  obtain ⟨-, hget, -⟩ := unchecked_cons h
  rw [parse_line_pass h, parse_line_loop, hget, if_neg (by decide), if_pos rfl, if_neg]
  rintro ⟨hpos, hcr⟩
  rcases hprev with hprev | hprev
  · omega
  · exact hprev hcr

/-! ## The next line -/

/-- The first line of some bytes, and what follows its CRLF. There is none if the
bytes end first, or if a CR or an LF stands alone. -/
def split_line (s : Bytes) : Option (Bytes × Bytes) :=
  match s.dropWhile plain with
  | a :: b :: rest => if a = CR ∧ b = LF then some (s.takeWhile plain, rest) else none
  | _ => none

theorem split_line_eq {rest : Bytes} (h : split_line s = some (raw, rest)) :
    (s = raw ++ CR :: LF :: rest ∧ ∀ b ∈ raw, plain b = true) ∧
      rest.length + raw.length + 2 = s.length := by
  unfold split_line at h
  split at h
  · rename_i a b tail hdrop
    split_ifs at h with hcrlf
    obtain ⟨rfl, rfl⟩ := hcrlf
    obtain ⟨hraw, hrest⟩ := Prod.mk.inj (some.inj h)
    have heq : s = raw ++ CR :: LF :: rest := by
      rw [← hraw, ← hrest, ← hdrop, takeWhile_append_dropWhile]
    refine ⟨⟨heq, ?_⟩, ?_⟩
    · intro b hb
      rw [← hraw] at hb
      exact mem_takeWhile_imp hb
    · rw [heq, length_append, length_cons, length_cons]
      omega
  · cases h

theorem split_line_cases (s : Bytes) :
    (∃ rest, s.dropWhile plain = CR :: LF :: rest ∧
      split_line s = some (s.takeWhile plain, rest)) ∨
    (split_line s = none ∧ (s.dropWhile plain = [] ∨ s.dropWhile plain = [CR] ∨
      (∃ b rest, s.dropWhile plain = CR :: b :: rest ∧ b ≠ LF) ∨
      ∃ rest, s.dropWhile plain = LF :: rest)) := by
  have hhead := head?_dropWhile_not plain s
  unfold split_line
  generalize s.dropWhile plain = stop at hhead ⊢
  cases stop with
  | nil => exact .inr ⟨rfl, .inl rfl⟩
  | cons x tail =>
    have hx : x = CR ∨ x = LF := by
      simp only [head?_cons, plain, decide_eq_false_iff_not] at hhead
      by_contra hne
      exact hhead ⟨fun h => hne (.inl h), fun h => hne (.inr h)⟩
    rcases hx with rfl | rfl
    · cases tail with
      | nil => exact .inr ⟨rfl, .inr (.inl rfl)⟩
      | cons y rest =>
        by_cases hy : y = LF
        · subst hy
          exact .inl ⟨rest, rfl, rfl⟩
        · exact .inr ⟨if_neg fun h => hy h.2, .inr (.inr (.inl ⟨y, rest, rfl, hy⟩))⟩
    · refine .inr ⟨?_, .inr (.inr (.inr ⟨tail, rfl⟩))⟩
      cases tail with
      | nil => rfl
      | cons y rest => exact if_neg fun h => absurd h.1 (by decide)

theorem split_line_line (rest : Bytes) (hraw : ∀ b ∈ raw, plain b = true) :
    split_line (raw ++ CR :: LF :: rest) = some (raw, rest) := by
  have hcr : ¬ plain CR = true := by decide
  unfold split_line
  rw [dropWhile_append_of_pos hraw, dropWhile_cons_of_neg hcr,
    takeWhile_append_of_pos hraw, takeWhile_cons_of_neg hcr, append_nil]
  rfl

theorem split_line_append {rest : Bytes} (w : Bytes) (h : split_line s = some (raw, rest)) :
    split_line (s ++ w) = some (raw, rest ++ w) := by
  obtain ⟨⟨heq, hraw⟩, -⟩ := split_line_eq h
  rw [heq, append_assoc, cons_append, cons_append]
  exact split_line_line (rest ++ w) hraw

/-! ## The request line, as a function of its text -/

def path_of (url : Bytes) : Bytes := url.takeWhile (· ∉ [(63 : UInt8)])

/-- The end of the request line. A path of one byte becomes the index page, and the
bytes `strcat` adds to it lie over the query, whose pointer is one further. -/
def target_of (h : Head) (url : Bytes) : Head × Outcome :=
  if url.head? ≠ some 47 then (h, .code .BAD_REQUEST)
  else
    let query := url.drop (path_of url).length
    if (path_of url).length = 1 then
      ({ h with
          m_url_storage := 47 :: lit "index.html"
          m_query_string_storage := if query = [] then [] else lit "ndex.html" },
        .code .NO_REQUEST)
    else
      ({ h with m_url_storage := path_of url, m_query_string_storage := query.drop 1 },
        .code .NO_REQUEST)

/-- What a parser function may write: nothing outside `[lo, hi)`, and no CR. -/
structure SameOutside (mem mem' : Bytes) (lo hi : ℕ) : Prop where
  length : mem'.length = mem.length
  outside : ∀ i : ℕ, i < lo ∨ hi ≤ i → mem'[i]? = mem[i]?
  no_cr : ∀ i : ℕ, mem'[i]? = some CR → mem[i]? = some CR

theorem SameOutside.refl (mem : Bytes) (lo hi : ℕ) : SameOutside mem mem lo hi :=
  ⟨rfl, fun _ _ => rfl, fun _ => id⟩

theorem SameOutside.trans {mem'' : Bytes} (h : SameOutside mem mem' lo hi)
    (h' : SameOutside mem' mem'' lo hi) : SameOutside mem mem'' lo hi :=
  ⟨h'.length.trans h.length, fun i hi' => (h'.outside i hi').trans (h.outside i hi'),
    fun i hi' => h.no_cr i (h'.no_cr i hi')⟩

theorem SameOutside.mono {lo' hi' : ℕ} (h : SameOutside mem mem' lo hi) (hlo : lo' ≤ lo)
    (hhi : hi ≤ hi') : SameOutside mem mem' lo' hi' :=
  ⟨h.length, fun i hi'' => h.outside i (by omega), h.no_cr⟩

theorem SameOutside.poke {q : ℕ} (mem bs : Bytes) (h : lo ≤ q) (h' : q + bs.length ≤ hi)
    (hbs : CR ∉ bs) : SameOutside mem (CString.poke mem q bs) lo hi := by
  refine ⟨CString.poke_length mem q bs, fun i hi' => CString.poke_outside bs (by omega), ?_⟩
  clear h h'
  induction bs generalizing mem q with
  | nil => exact fun i hi => hi
  | cons b bs ih =>
    intro i hi
    have hset := ih (mem.set q b) (fun hcr => hbs (mem_cons_of_mem b hcr)) i hi
    rw [getElem?_set] at hset
    split_ifs at hset with hq hlt
    · cases hset
      exact absurd (mem_cons_self) hbs
    · exact hset

theorem SameOutside.set {q : ℕ} (mem : Bytes) (h : lo ≤ q) (h' : q < hi) :
    SameOutside mem (mem.set q 0) lo hi :=
  .poke mem [0] h h' (by decide)

theorem SameOutside.drop_eq (h : SameOutside mem mem' lo hi) : mem'.drop hi = mem.drop hi := by
  refine ext_getElem? fun i => ?_
  rw [getElem?_drop, getElem?_drop, h.outside _ (by omega)]

theorem strpbrk_eq {accept : Bytes} (hs : cstr mem p = s) :
    strpbrk mem p accept = if (s.takeWhile (· ∉ accept)).length < s.length then
      some (p + (s.takeWhile (· ∉ accept)).length) else none := by
  rw [strpbrk, hs]

theorem takeWhile_length_le {α : Type} (p : α → Bool) (s : List α) :
    (s.takeWhile p).length ≤ s.length := (List.takeWhile_prefix p).length_le

def Conn.lined (c : Conn) (mem : Bytes) (r : Head × Outcome) : Result :=
  ({ c with
      m_read_buf := mem
      head := r.1
      m_check_state := if r.2 = .code .NO_REQUEST then .HEADER else c.m_check_state }, r.2)

/-- A NUL behind the first word of a string cuts it off; the rest stands behind the NUL. -/
theorem cut_word {accept word : Bytes} (hs : cstr mem p = s)
    (hword : word = s.takeWhile (· ∉ accept)) (hlt : word.length < s.length) :
    cstr (mem.set (p + word.length) 0) p = word ∧
      cstr (mem.set (p + word.length) 0) (p + word.length + 1) = s.drop (word.length + 1) := by
  constructor
  · rw [cstr_set_within (by rw [hs]; exact hlt), hs, hword]
    exact (prefix_iff_eq_take.mp <| takeWhile_prefix _).symm
  · rw [cstr_set_before 0 (by omega), Nat.add_assoc, cstr_add (by rw [hs]; omega), hs]

theorem cut_query (hurl : cstr mem u = url) (he : u + url.length ≤ e) :
    let question := strchr mem u 63
    let mem' := question.elim mem fun q => mem.set q 0
    cstr mem' u = path_of url ∧ SameOutside mem mem' u e ∧
      (question = none ∧ url.drop (path_of url).length = [] ∨
        question = some (u + (path_of url).length) ∧ (path_of url).length < url.length ∧
          cstr mem' (u + (path_of url).length + 1) = url.drop ((path_of url).length + 1)) := by
  intro question mem'
  have hle : (path_of url).length ≤ url.length := takeWhile_length_le _ _
  have hquestion : question = if (path_of url).length < url.length then
      some (u + (path_of url).length) else none := strpbrk_eq hurl
  by_cases hlt : (path_of url).length < url.length
  · rw [if_pos hlt] at hquestion
    have hmem' : mem' = mem.set (u + (path_of url).length) 0 := by
      show question.elim mem _ = _
      rw [hquestion]
      rfl
    rw [hmem']
    obtain ⟨hcut, hafter⟩ := cut_word hurl rfl hlt
    exact ⟨hcut, .set mem (by omega) (by omega), .inr ⟨hquestion, hlt, hafter⟩⟩
  · rw [if_neg hlt] at hquestion
    have hmem' : mem' = mem := by
      show question.elim mem _ = _
      rw [hquestion]
      rfl
    rw [hmem']
    refine ⟨?_, .refl mem u e, .inl ⟨hquestion, drop_eq_nil_of_le (by omega)⟩⟩
    rw [hurl]
    exact (IsPrefix.eq_of_length <| takeWhile_prefix (l := url) (· ∉ [(63 : UInt8)])) (by
      have := hle
      unfold path_of at this hlt
      omega) |>.symm

theorem parse_target_spec (hurl : cstr c.m_read_buf u = url) (he : u + url.length + 11 ≤ e)
    (hmem : e ≤ c.m_read_buf.length) :
    ∃ mem', parse_target c u = c.lined mem' (target_of c.head url) ∧
      SameOutside c.m_read_buf mem' u e := by
  unfold parse_target target_of
  rw [hurl]
  by_cases hslash : url.head? ≠ some 47
  · refine ⟨c.m_read_buf, ?_, .refl _ _ _⟩
    rw [if_pos hslash, if_pos hslash]
    rfl
  rw [if_neg hslash, if_neg hslash]
  dsimp only
  obtain ⟨hpath, hsame, hquery⟩ := cut_query hurl (by omega : u + url.length ≤ e)
  generalize (strchr c.m_read_buf u 63).elim c.m_read_buf (fun q => c.m_read_buf.set q 0) = mem
    at hpath hsame hquery ⊢
  rw [hpath]
  by_cases hone : (path_of url).length = 1
  · -- the path is the root: `strcat` writes the page over what follows
    rw [if_pos hone, if_pos hone]
    have hroot : path_of url = [47] := by
      cases url with
      | nil => simp [path_of] at hone
      | cons b url =>
        simp only [head?_cons, ne_eq, some.injEq, not_not] at hslash
        subst hslash
        simp only [path_of, takeWhile_cons] at hone ⊢
        simpa using hone
    have hbound : u + 1 + (lit "index.html" ++ [0]).length ≤ mem.length := by
      have hlen : (lit "index.html" ++ [(0 : UInt8)]).length = 11 := by decide
      have := hsame.length
      have : 1 ≤ url.length := by
        have := takeWhile_length_le (· ∉ [(63 : UInt8)]) url
        unfold path_of at hone
        omega
      omega
    have hcat : strcat mem u (lit "index.html") =
      CString.poke mem (u + 1) (lit "index.html" ++ [0]) := by
      rw [strcat, hpath, hone]
    have hdrop := drop_poke (lit "index.html" ++ [0]) hbound
    rw [← hcat, append_assoc] at hdrop
    have hslash_at : (strcat mem u (lit "index.html"))[u]? = some 47 := by
      rw [hcat, poke_outside _ (by omega)]
      obtain ⟨rest, hrest⟩ : cstr mem u <+: mem.drop u := takeWhile_prefix _
      have hget : (mem.drop u)[0]? = some 47 := by
        rw [← hrest, hpath, hroot]
        rfl
      rwa [getElem?_drop, Nat.add_zero] at hget
    have hfull : cstr (strcat mem u (lit "index.html")) u = 47 :: lit "index.html" := by
      obtain ⟨hlt, hget⟩ := List.getElem?_eq_some_iff.mp hslash_at
      have hmem2 : (strcat mem u (lit "index.html")).drop u = (47 :: lit "index.html") ++
          0 :: mem.drop (u + 1 + (lit "index.html" ++ [0]).length) := by
        rw [drop_eq_getElem_cons hlt, hget, hdrop]
        rfl
      exact cstr_eq (by decide +kernel) hmem2
    refine ⟨strcat mem u (lit "index.html"), ?_, ?_⟩
    · rw [hfull]
      rcases hquery with ⟨hnone, hdrop'⟩ | ⟨hsome, hlt, -⟩
      · rw [hnone, hdrop', if_pos rfl]
        rfl
      -- the query pointer is one byte into the page's name
      have hqnil : url.drop (path_of url).length ≠ [] := by
        rw [ne_eq, drop_eq_nil_iff]
        omega
      have hndex : cstr (strcat mem u (lit "index.html")) (u + 1 + 1) = lit "ndex.html" := by
        have hmem2 : (strcat mem u (lit "index.html")).drop (u + 1 + 1) = lit "ndex.html" ++
            0 :: mem.drop (u + 1 + (lit "index.html" ++ [0]).length) := by
          rw [← drop_drop, hdrop]
          rfl
        exact cstr_eq (by decide +kernel) hmem2
      rw [hsome, if_neg hqnil, hone]
      simp only [map_some, elim_some, hndex]
      rfl
    · refine hsame.trans ?_
      rw [hcat]
      refine .poke mem _ (by omega) ?_ (by decide)
      have hlen : (lit "index.html" ++ [(0 : UInt8)]).length = 11 := by decide
      have : 1 ≤ url.length := by
        have := takeWhile_length_le (· ∉ [(63 : UInt8)]) url
        unfold path_of at hone
        omega
      omega
  · rw [if_neg hone, if_neg hone]
    refine ⟨mem, ?_, hsame⟩
    rcases hquery with ⟨hnone, hdrop⟩ | ⟨hsome, hlt, hrest⟩
    · rw [hnone, hdrop, hpath]
      rfl
    · rw [hsome, hpath]
      simp only [map_some, elim_some, hrest, drop_drop]
      rfl

def slash_of (url : Bytes) : Option Bytes :=
  let n := (url.takeWhile (· ∉ [(47 : UInt8)])).length
  if n < url.length then some (url.drop n) else none

/-- A target without the scheme and authority that `scheme` starts. -/
def skip_authority (scheme url : Bytes) : Option Bytes :=
  if strncasecmp url scheme then slash_of (url.drop scheme.length) else some url

theorem skip_authority_spec (hurl : cstr mem u = url) (scheme : Bytes) :
    let m_url := if strncasecmp url scheme then strchr mem (u + scheme.length) 47 else some u
    (m_url = none ∧ skip_authority scheme url = none) ∨
      ∃ n ≤ url.length, m_url = some (u + n) ∧ skip_authority scheme url = some (url.drop n) ∧
        cstr mem (u + n) = url.drop n := by
  intro m_url
  by_cases hscheme : strncasecmp url scheme = true
  · have hlen : scheme.length ≤ url.length := by
      have heq := congrArg length (of_decide_eq_true hscheme)
      simp only [lowercase, length_map, length_take] at heq
      omega
    have hrest : cstr mem (u + scheme.length) = url.drop scheme.length := by
      rw [cstr_add (by rw [hurl]; exact hlen), hurl]
    have hm : m_url = strchr mem (u + scheme.length) 47 := if_pos hscheme
    have hs : skip_authority scheme url = slash_of (url.drop scheme.length) := if_pos hscheme
    rw [hm, hs, strchr, strpbrk_eq hrest, slash_of]
    by_cases hn : ((url.drop scheme.length).takeWhile (· ∉ [(47 : UInt8)])).length
        < (url.drop scheme.length).length
    · right
      rw [if_pos hn, if_pos hn]
      rw [length_drop] at hn
      refine ⟨scheme.length + ((url.drop scheme.length).takeWhile (· ∉ [(47 : UInt8)])).length,
        by omega, by rw [Nat.add_assoc], by rw [drop_drop], ?_⟩
      rw [cstr_add (by rw [hurl]; omega), hurl]
    · left
      rw [if_neg hn, if_neg hn]
      exact ⟨rfl, rfl⟩
  · refine .inr ⟨0, Nat.zero_le _, if_neg hscheme, ?_, ?_⟩
    · rw [skip_authority, if_neg hscheme, drop_zero]
    · rw [Nat.add_zero, hurl, drop_zero]

def absolute_of (h : Head) (url : Bytes) : Head × Outcome :=
  match skip_authority (lit "http://") url with
  | none => (h, .undefined)
  | some url =>
      match skip_authority (lit "https://") url with
      | none => (h, .code .BAD_REQUEST)
      | some url => target_of h url

theorem parse_absolute_spec (hurl : cstr c.m_read_buf u = url) (he : u + url.length + 11 ≤ e)
    (hmem : e ≤ c.m_read_buf.length) :
    ∃ mem', parse_absolute c u = c.lined mem' (absolute_of c.head url) ∧
      SameOutside c.m_read_buf mem' u e := by
  have h7 : (lit "http://").length = 7 := by decide
  have h8 : (lit "https://").length = 8 := by decide
  unfold parse_absolute absolute_of
  rw [hurl, ← h7]
  rcases skip_authority_spec hurl (lit "http://") with ⟨hnone, hskip⟩ | ⟨n, hn, hsome, hskip, hcstr⟩
  · rw [hnone, hskip]
    exact ⟨c.m_read_buf, rfl, .refl _ _ _⟩
  rw [hsome, hskip]
  dsimp only
  rw [hcstr, ← h8]
  have hlen : (url.drop n).length = url.length - n := length_drop
  rcases skip_authority_spec hcstr (lit "https://") with
    ⟨hnone, hskip⟩ | ⟨n', hn', hsome, hskip, hcstr'⟩
  · rw [hnone, hskip]
    exact ⟨c.m_read_buf, rfl, .refl _ _ _⟩
  rw [hsome, hskip]
  have hlen' : ((url.drop n).drop n').length = (url.drop n).length - n' := length_drop
  obtain ⟨mem', htarget, hsame⟩ := parse_target_spec hcstr' (by omega) hmem
  exact ⟨mem', htarget, hsame.mono (by omega) (le_refl e)⟩

def request_line (h : Head) (text : Bytes) : Head × Outcome :=
  let name := text.takeWhile (· ∉ blank)
  if name.length < text.length then
    match method_of name with
    | none => (h, .code .BAD_REQUEST)
    | some m_method =>
        let h := { h with m_method := m_method, cgi := h.cgi || decide (m_method = .POST) }
        let rest := (text.drop (name.length + 1)).dropWhile (· ∈ blank)
        let url := rest.takeWhile (· ∉ blank)
        if url.length < rest.length then
          match http_1_1_of ((rest.drop (url.length + 1)).dropWhile (· ∈ blank)) with
          | none => (h, .code .BAD_REQUEST)
          | some m_is_http_1_1 =>
              absolute_of { h with m_is_http_1_1 := m_is_http_1_1, m_linger := m_is_http_1_1 } url
        else (h, .code .BAD_REQUEST)
  else (h, .code .BAD_REQUEST)

theorem strspn_eq (accept : Bytes) (hs : cstr mem p = s) :
    cstr mem (p + strspn mem p accept) = s.dropWhile (· ∈ accept) ∧
      strspn mem p accept + (s.dropWhile (· ∈ accept)).length = s.length := by
  have hlen : (s.takeWhile (· ∈ accept)).length + (s.dropWhile (· ∈ accept)).length = s.length := by
    rw [← length_append, takeWhile_append_dropWhile]
  rw [strspn, hs]
  refine ⟨?_, hlen⟩
  rw [cstr_add (by rw [hs]; omega), hs]
  nth_rewrite 2 [← takeWhile_append_dropWhile (p := (· ∈ accept)) (l := s)]
  rw [drop_left]

theorem http_1_1_of_length {version : Bytes} {v : Bool} (h : http_1_1_of version = some v) :
    version.length = 8 := by
  have hlen : ∀ name : Bytes, strcasecmp version name = true → version.length = name.length := by
    intro name hname
    have heq := congrArg length (of_decide_eq_true hname)
    simpa only [lowercase, length_map] using heq
  unfold http_1_1_of at h
  split_ifs at h with h1 h2
  · exact hlen _ h1
  · exact hlen _ h2

theorem parse_request_line_spec {text : Bytes} (htext : cstr c.m_read_buf p = text)
    (hmem : p + text.length + 2 ≤ c.m_read_buf.length) :
    ∃ mem' version, parse_request_line c p =
        { c with m_version := version }.lined mem' (request_line c.head text) ∧
      SameOutside c.m_read_buf mem' p (p + text.length + 2) := by
  unfold parse_request_line request_line
  rw [strpbrk_eq htext]
  set name := text.takeWhile (· ∉ blank) with hname
  by_cases hlt : name.length < text.length
  swap
  · rw [if_neg hlt, if_neg hlt]
    exact ⟨c.m_read_buf, _, rfl, .refl _ _ _⟩
  rw [if_pos hlt, if_pos hlt]
  dsimp only
  -- the method's NUL
  obtain ⟨hcut, hafter⟩ := cut_word htext hname hlt
  have hsame1 : SameOutside c.m_read_buf (c.m_read_buf.set (p + name.length) 0) p
      (p + text.length + 2) := .set _ (by omega) (by omega)
  have hmem1 := hsame1.length
  generalize c.m_read_buf.set (p + name.length) 0 = mem1 at hcut hsame1 hafter hmem1 ⊢
  rw [hcut]
  cases hmethod : method_of name with
  | none => exact ⟨mem1, _, rfl, hsame1⟩
  | some m_method =>
    dsimp only
    -- the target
    obtain ⟨hrest, hrestlen⟩ := strspn_eq blank hafter
    set rest := (text.drop (name.length + 1)).dropWhile (· ∈ blank) with hrestdef
    rw [length_drop] at hrestlen
    obtain ⟨u, hu⟩ : ∃ u, u = p + name.length + 1 + strspn mem1 (p + name.length + 1) blank :=
      ⟨_, rfl⟩
    rw [← hu] at hrest ⊢
    rw [strpbrk_eq hrest]
    set url := rest.takeWhile (· ∉ blank) with hurldef
    by_cases hlt' : url.length < rest.length
    swap
    · rw [if_neg hlt', if_neg hlt']
      exact ⟨mem1, .null, rfl, hsame1⟩
    rw [if_pos hlt', if_pos hlt']
    dsimp only
    -- the target's NUL
    obtain ⟨hcut', hafter'⟩ := cut_word hrest hurldef hlt'
    have hsame2 : SameOutside mem1 (mem1.set (u + url.length) 0) p (p + text.length + 2) :=
      .set _ (by omega) (by omega)
    generalize mem1.set (u + url.length) 0 = mem2 at hcut' hsame2 hafter' ⊢
    obtain ⟨hversion, hversionlen⟩ := strspn_eq blank hafter'
    rw [hversion]
    rw [length_drop] at hversionlen
    cases hv : http_1_1_of ((rest.drop (url.length + 1)).dropWhile (· ∈ blank)) with
    | none => exact ⟨mem2, .buf _, rfl, hsame1.trans hsame2⟩
    | some m_is_http_1_1 =>
      have height := http_1_1_of_length hv
      have hmem2 := hsame2.length
      set c' : Conn := { c with
        m_read_buf := mem2
        m_version := .buf (u + url.length + 1 + strspn mem2 (u + url.length + 1) blank)
        head := { c.head with
          m_method := m_method
          cgi := c.head.cgi || decide (m_method = .POST)
          m_is_http_1_1 := m_is_http_1_1
          m_linger := m_is_http_1_1 } } with hc'
      obtain ⟨mem', habs, hsame3⟩ :=
        parse_absolute_spec (c := c') hcut' (by omega : u + url.length + 11 ≤ p + text.length + 2)
          (by show p + text.length + 2 ≤ mem2.length; omega)
      refine ⟨mem', _, habs, (hsame1.trans hsame2).trans (hsame3.mono (by omega) (le_refl _))⟩

end AtlasWebServer.Http
