/-
Forms and query strings: what `parse_form_urlencoded` (`http/core/parser.cpp`) and
`parse_query_string` (`http/core/connection.cpp`) make of a percent-encoded text.

The source has the loop over the items twice, and each copy takes an item apart on its
own. Here is the loop as it runs over positions, with what each copy does with an item;
both are the split at the ampersands that `RequestBody` describes
(`form_loop_eq`, `query_loop_eq`), so they agree on every text.

The split is made before anything is decoded, so a text is read back as it was written
for two reasons that have nothing to do with each other: an encoded key or value has no
`&` and no `=` (`Encodes.plain`), and the decoder, which sees one of them alone, undoes the
encoding byte by byte (`Encodes.decode`).
-/
import AtlasWebServer.RequestBody

set_option autoImplicit false

namespace AtlasWebServer.Forms

open Bytes CString Search Http Multipart List

variable {b : UInt8} {s text : Bytes} {pairs : List (Bytes × Bytes)} {items : List Bytes}

/-! ## The two loops -/

/-- What `parse_form_urlencoded` does with an item. -/
def add_form_item (m_form_data : StringMap) (item : Bytes) : StringMap :=
  if item = [] then m_form_data
  else
    let eq := find [61] item
    let key := url_decode (item.take (eq.getD item.length))
    let value := eq.elim [] fun eq => url_decode (item.drop (eq + 1))
    if key = [] then m_form_data else m_form_data.set key value

/-- What `parse_query_string` does with an item. The value is decoded only if there is a
key to put it under. -/
def add_query_item (query : StringMap) (item : Bytes) : StringMap :=
  if item = [] then query
  else
    let eq := find [61] item
    let key := url_decode (item.take (eq.getD item.length))
    if key = [] then query
    else query.set key (eq.elim [] fun eq => url_decode (item.drop (eq + 1)))

/-- The loop of both, from the position `start`. -/
def items_loop (add : StringMap → Bytes → StringMap) (text : Bytes) :
    ℕ → ℕ → StringMap → StringMap
  | 0, _, map => map
  | fuel + 1, start, map =>
      if start ≤ text.length then
        match find_from [38] text start with
        | none => add map (text.drop start)
        | some stop =>
            items_loop add text fuel (stop + 1) (add map ((text.drop start).take (stop - start)))
      else map

/-- The loop of `parse_form_urlencoded`. Every pass but the last moves `start` on. -/
def form_loop (m_form_data : StringMap) (body : Bytes) : StringMap :=
  items_loop add_form_item body (body.length + 1) 0 m_form_data

def query_loop (query_string : Bytes) : StringMap :=
  items_loop add_query_item query_string (query_string.length + 1) 0 []

theorem splitOn_of_not_mem (h : b ∉ s) : s.splitOn b = [s] := by
  apply splitOnP_eq_singleton
  intro x hx
  rw [beq_eq_false_iff_ne]
  rintro rfl
  exact h hx

theorem splitOn_append_cons (h : b ∉ s) (t : Bytes) :
    (s ++ b :: t).splitOn b = s :: t.splitOn b := by
  apply splitOnP_append_cons_of_forall_mem
  · intro x hx
    rw [beq_eq_false_iff_ne]
    rintro rfl
    exact h hx
  · exact beq_self_eq_true b

theorem items_loop_spec (add : StringMap → Bytes → StringMap) (text : Bytes) (fuel start : ℕ)
    (map : StringMap) (hstart : start ≤ text.length) (hfuel : text.length - start < fuel) :
    items_loop add text fuel start map = ((text.drop start).splitOn 38).foldl add map := by
  induction fuel generalizing start map with
  | zero => omega
  | succ fuel ih =>
    rw [items_loop, if_pos hstart]
    unfold find_from
    cases hfind : find [38] (text.drop start) with
    | none =>
      have hnone : (38 : UInt8) ∉ text.drop start := by
        intro hmem
        rw [find_eq_none_iff] at hfind
        exact hfind ((singleton_infix_iff _ _).mpr hmem)
      rw [splitOn_of_not_mem hnone]
      rfl
    | some i =>
      obtain ⟨hsplit, hbefore⟩ := find_element_eq hfind
      have hlt := find_le hfind
      rw [length_singleton, length_drop] at hlt
      simp only [Option.map_some]
      rw [ih (start + i + 1) _ (by omega) (by omega), Nat.add_sub_cancel_left]
      conv_rhs => rw [hsplit, splitOn_append_cons hbefore, foldl_cons, drop_drop]
      rw [Nat.add_assoc]

theorem add_form_item_eq : add_form_item = add_item := by
  funext map item
  by_cases hitem : item = []
  · rw [add_form_item, if_pos hitem, hitem]
    rfl
  · rw [add_form_item, if_neg hitem]
    rfl

theorem add_query_item_eq : add_query_item = add_item := by
  funext map item
  by_cases hitem : item = []
  · rw [add_query_item, if_pos hitem, hitem]
    rfl
  · rw [add_query_item, if_neg hitem]
    rfl

theorem form_loop_eq (m_form_data : StringMap) (body : Bytes) :
    form_loop m_form_data body = (parse_form_urlencoded m_form_data body).1 := by
  rw [form_loop, items_loop_spec _ _ _ _ _ (Nat.zero_le _) (by omega), add_form_item_eq]
  rfl

theorem query_loop_eq (query_string : Bytes) :
    query_loop query_string = parse_query_string query_string := by
  rw [query_loop, items_loop_spec _ _ _ _ _ (Nat.zero_le _) (by omega), add_query_item_eq]
  rfl

/-! ## Percent-encoding -/

/-- The bytes that are written as they are. -/
def unreserved (b : UInt8) : Bool := isalnum b || b = 46 || b = 95 || b = 126 || b = 45

/-- The ways to write a byte. A hexadecimal digit may be in either case. -/
inductive EncodesByte : UInt8 → Bytes → Prop
  | plain {b : UInt8} (hb : unreserved b = true) : EncodesByte b [b]
  | percent {b high low : UInt8} (hb : unreserved b = false) (hhigh : isxdigit high = true)
      (hlow : isxdigit low = true) (hvalue : hexadecimal [high, low] = b.toNat) :
      EncodesByte b [37, high, low]
  | plus : EncodesByte 32 [43]

/-- The ways to write a string. -/
inductive Encodes : Bytes → Bytes → Prop
  | nil : Encodes [] []
  | cons {b : UInt8} {s text more : Bytes} (hb : EncodesByte b text) (hs : Encodes s more) :
      Encodes (b :: s) (text ++ more)

/-- The ways to write a list of pairs as items, with empty items between. -/
inductive EncodesItems : List (Bytes × Bytes) → List Bytes → Prop
  | nil : EncodesItems [] []
  | empty {pairs : List (Bytes × Bytes)} {items : List Bytes} (h : EncodesItems pairs items) :
      EncodesItems pairs ([] :: items)
  | pair {k v key value : Bytes} {pairs : List (Bytes × Bytes)} {items : List Bytes}
      (hk : Encodes k key) (hv : Encodes v value) (h : EncodesItems pairs items) :
      EncodesItems ((k, v) :: pairs) ((key ++ 61 :: value) :: items)

def encoded_byte (b : UInt8) : Bool := unreserved b || b = 37 || b = 43

theorem unreserved_of_isxdigit (b : UInt8) : isxdigit b = true → unreserved b = true := by
  revert b
  apply forall_byte
  decide +kernel

theorem EncodesByte.encoded (h : EncodesByte b text) : ∀ x ∈ text, encoded_byte x = true := by
  intro x hx
  cases h with
  | plain hb =>
    rw [mem_singleton.mp hx]
    simp [encoded_byte, hb]
  | percent hb hhigh hlow hvalue =>
    simp only [mem_cons, not_mem_nil, or_false] at hx
    rcases hx with rfl | rfl | rfl
    · decide
    · simp [encoded_byte, unreserved_of_isxdigit _ hhigh]
    · simp [encoded_byte, unreserved_of_isxdigit _ hlow]
  | plus =>
    rw [mem_singleton.mp hx]
    decide

theorem Encodes.encoded (h : Encodes s text) : ∀ x ∈ text, encoded_byte x = true := by
  induction h with
  | nil => simp
  | cons hb hs ih =>
    intro x hx
    rcases mem_append.mp hx with hx | hx
    · exact hb.encoded x hx
    · exact ih x hx

theorem Encodes.not_mem (h : Encodes s text) (hb : encoded_byte b = false) : b ∉ text := by
  intro hmem
  rw [h.encoded b hmem] at hb
  exact Bool.noConfusion hb

/-! ## Decoding -/

theorem url_decode_of_ne (hb : b ≠ 37) (rest : Bytes) :
    url_decode (b :: rest) = plus_decoded b :: url_decode rest := by
  rcases rest with _ | ⟨high, _ | ⟨low, rest⟩⟩
  · rfl
  · rfl
  · rw [url_decode, if_neg fun h => hb h.1]

theorem ne_of_unreserved (b : UInt8) : unreserved b = true → b ≠ 37 ∧ b ≠ 43 := by
  revert b
  apply forall_byte
  decide +kernel

theorem EncodesByte.decode (h : EncodesByte b text) (rest : Bytes) :
    url_decode (text ++ rest) = b :: url_decode rest := by
  cases h with
  | plain hb =>
    have hne := ne_of_unreserved _ hb
    rw [singleton_append, url_decode_of_ne hne.1, plus_decoded, if_neg hne.2]
  | percent hb hhigh hlow hvalue =>
    rw [cons_append, cons_append, singleton_append, url_decode,
      if_pos ⟨rfl, hhigh, hlow⟩, hvalue, UInt8.ofNat_toNat]
  | plus => rw [singleton_append, url_decode_of_ne (by decide), plus_decoded, if_pos rfl]

theorem Encodes.decode (h : Encodes s text) : url_decode text = s := by
  induction h with
  | nil => rfl
  | cons hb hs ih => rw [hb.decode, ih]

theorem add_item_pair (map : StringMap) {k v key value : Bytes} (hk : Encodes k key)
    (hv : Encodes v value) (hne : k ≠ []) : add_item map (key ++ 61 :: value) = map.set k v := by
  have hfind := find_element (hk.not_mem (b := 61) (by decide)) value
  unfold add_item
  rw [hfind]
  have hdrop : (key ++ 61 :: value).drop (key.length + 1) = value := by
    rw [drop_length_add_append, drop_succ_cons, drop_zero]
  simp only [Option.getD_some, Option.elim_some, take_left, hdrop]
  rw [hk.decode, hv.decode, if_neg hne]

theorem add_item_empty (map : StringMap) : add_item map [] = map := by
  simp [add_item, url_decode]

theorem EncodesItems.not_mem (h : EncodesItems pairs items) :
    ∀ item ∈ items, (38 : UInt8) ∉ item := by
  induction h with
  | nil => simp
  | empty h ih => simpa using ih
  | pair hk hv h ih =>
    have hkey := hk.not_mem (b := 38) (by decide)
    have hvalue := hv.not_mem (b := 38) (by decide)
    simp only [mem_cons, forall_eq_or_imp, mem_append, not_or]
    exact ⟨⟨hkey, by decide, hvalue⟩, ih⟩

theorem EncodesItems.foldl (h : EncodesItems pairs items) (hne : ∀ p ∈ pairs, p.1 ≠ [])
    (map : StringMap) (k : Bytes) :
    (items.foldl add_item map).lookup k = (pairs.reverse ++ map).lookup k := by
  induction h generalizing map with
  | nil => rfl
  | empty h ih => rw [foldl_cons, add_item_empty, ih hne]
  | @pair k' v key value pairs items hk hv h ih =>
    have hhead : k' ≠ [] := hne (k', v) mem_cons_self
    have hrest : ∀ p ∈ pairs, p.1 ≠ [] := fun p hp => hne p (mem_cons_of_mem _ hp)
    rw [foldl_cons, add_item_pair map hk hv hhead, ih hrest, reverse_cons,
      append_assoc, lookup_append, lookup_append, singleton_append,
      StringMap.lookup_set]

theorem EncodesItems.add_items (h : EncodesItems pairs items) (map : StringMap) :
    add_items ([38].intercalate items) map = items.foldl add_item map := by
  unfold Http.add_items
  by_cases hitems : items = []
  · rw [hitems]
    exact add_item_empty map
  · rw [splitOn_intercalate 38 h.not_mem hitems]

/-- **Forms and queries.** A list of pairs with keys, written percent-encoded with `=` and
`&` and with empty items anywhere, is read by both parsers as the map that sends every key to
its last value; and the two parsers make the same map of every text. -/
theorem form_and_query_decode :
    (∀ (pairs : List (Bytes × Bytes)) (items : List Bytes), (∀ p ∈ pairs, p.1 ≠ []) →
        EncodesItems pairs items → ∀ k : Bytes,
          (form_loop [] ([38].intercalate items)).lookup k = pairs.reverse.lookup k ∧
            (query_loop ([38].intercalate items)).lookup k = pairs.reverse.lookup k) ∧
      ∀ text : Bytes, form_loop [] text = query_loop text := by
  have hsame : ∀ text : Bytes, form_loop [] text = query_loop text := by
    intro text
    rfl
  refine ⟨fun pairs items hne h k => ?_, hsame⟩
  have hread : (query_loop ([38].intercalate items)).lookup k = pairs.reverse.lookup k := by
    rw [query_loop_eq, parse_query_string, h.add_items, h.foldl hne, append_nil]
  exact ⟨hread, hread⟩

/-- `a=1&&a=%2B` says that `a` is a plus sign. -/
theorem repeated_key_decodes :
    ∃ items, EncodesItems [(lit "a", lit "1"), (lit "a", lit "+")] items ∧
      [38].intercalate items = lit "a=1&&a=%2B" ∧
        (form_loop [] (lit "a=1&&a=%2B")).lookup (lit "a") = some (lit "+") := by
  have ha : Encodes (lit "a") (lit "a") := .cons (.plain (by decide)) .nil
  have hone : Encodes (lit "1") (lit "1") := .cons (.plain (by decide)) .nil
  have hplus : Encodes (lit "+") (lit "%2B") :=
    .cons (.percent (by decide) (by decide) (by decide) (by decide)) .nil
  have hitems := EncodesItems.pair ha hone (.empty (.pair ha hplus .nil))
  refine ⟨_, hitems, by decide, ?_⟩
  exact (form_and_query_decode.1 _ _ (by decide) hitems (lit "a")).1

end AtlasWebServer.Forms
