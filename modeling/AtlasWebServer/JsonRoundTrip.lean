/-
The server's JSON writer against its JSON reader: an object of strings, each put through
`json_escape` (`http/core/http_message.cpp`), given to `parse_json_body`
(`http/core/parser.cpp`).

The writer has five escapes, and the reader one rule for all of them: the byte behind a
backslash stands for itself. So a quote and a backslash come back and `\n`, `\r` and `\t`
come back as letters (`read_back`). Nothing else goes wrong: the ends of the strings are
found, and so are the members, whatever the strings hold. The round trip is therefore
right exactly for the objects without these three bytes (`json_round_trip_iff`).
-/
import AtlasWebServer.RequestBody

set_option autoImplicit false

namespace AtlasWebServer.Http

open Bytes CString List
open Multipart (StringMap)

/-! ## Writing -/

def json_member (pair : Bytes × Bytes) : Bytes :=
  34 :: (json_escape pair.1 ++ 34 :: 58 :: 34 :: (json_escape pair.2 ++ [34]))

/-- The members with commas between them, in braces. -/
def json_object (pairs : List (Bytes × Bytes)) : Bytes :=
  123 :: ([44].intercalate (pairs.map json_member) ++ [125])

/-! ## Reading a string -/

/-- The byte that is read where `b` was written. -/
def read_byte (b : UInt8) : UInt8 :=
  if b = 10 then 110 else if b = 13 then 114 else if b = 9 then 116 else if b < 32 then 32 else b

/-- The string that is read where `s` was written. -/
def read_back (s : Bytes) : Bytes := s.map read_byte

theorem json_string_plain {b : UInt8} (hslash : b ≠ 92) (hquote : b ≠ 34) (rest : Bytes) :
    json_string (b :: rest) = (json_string rest).map fun r => (b :: r.1, r.2) := by
  rw [json_string.eq_def]
  simp only [hslash, hquote, if_false]

theorem json_string_escaped (c : UInt8) (rest : Bytes) :
    json_string (92 :: c :: rest) = (json_string rest).map fun r => (c :: r.1, r.2) := by
  rw [json_string, if_pos rfl]

theorem json_string_quote (rest : Bytes) : json_string (34 :: rest) = some ([], rest) := by
  rw [json_string.eq_def]
  rfl

theorem json_string_byte (b : UInt8) (rest : Bytes) :
    json_string (json_escape_byte b ++ rest) =
      (json_string rest).map fun r => (read_byte b :: r.1, r.2) := by
  unfold json_escape_byte
  split_ifs with hslash hquote hnewline hreturn htab hcontrol
  · rw [hslash]
    exact json_string_escaped 92 rest
  · rw [hquote]
    exact json_string_escaped 34 rest
  · rw [hnewline]
    exact json_string_escaped 110 rest
  · rw [hreturn]
    exact json_string_escaped 114 rest
  · rw [htab]
    exact json_string_escaped 116 rest
  · rw [singleton_append, json_string_plain (by decide) (by decide), read_byte,
      if_neg hnewline, if_neg hreturn, if_neg htab, if_pos hcontrol]
  · rw [singleton_append, json_string_plain hslash hquote, read_byte,
      if_neg hnewline, if_neg hreturn, if_neg htab, if_neg hcontrol]

theorem json_string_escape (s rest : Bytes) :
    json_string (json_escape s ++ 34 :: rest) = some (read_back s, rest) := by
  unfold json_escape read_back
  induction s with
  | nil => exact json_string_quote rest
  | cons b s ih =>
    rw [flatMap_cons, append_assoc, json_string_byte, ih]
    rfl

/-! ## Reading the members -/

theorem json_entry_member (k v rest : Bytes) :
    json_entry (json_escape k ++ 34 :: 58 :: 34 :: (json_escape v ++ 34 :: rest)) =
      some ((read_back k, read_back v), rest) := by
  have hcolon : (58 :: 34 :: (json_escape v ++ 34 :: rest)).dropWhile isspace =
      58 :: 34 :: (json_escape v ++ 34 :: rest) := dropWhile_cons_of_neg (by decide)
  have hquote : (34 :: (json_escape v ++ 34 :: rest)).dropWhile isspace =
      34 :: (json_escape v ++ 34 :: rest) := dropWhile_cons_of_neg (by decide)
  unfold json_entry
  simp only [hcolon, if_true, hquote, json_value, json_string_escape, Option.map_some]

/-- The entry a member makes: none under an empty key. -/
def add_member (map : StringMap) (pair : Bytes × Bytes) : StringMap :=
  if read_back pair.1 = [] then map else map.set (read_back pair.1) (read_back pair.2)

/-- The members that are still to be read, as they stand in the text. -/
def members (pairs : List (Bytes × Bytes)) : Bytes := [44].intercalate (pairs.map json_member)

theorem members_cons (pair : Bytes × Bytes) (pairs : List (Bytes × Bytes)) :
    members (pair :: pairs) =
      json_member pair ++ if pairs = [] then [] else 44 :: members pairs := by
  unfold members
  cases pairs <;> simp [intercalate]

theorem skip_comma_members (pairs : List (Bytes × Bytes)) :
    skip_comma (if pairs = [] then [] else 44 :: members pairs) = members pairs := by
  by_cases hpairs : pairs = []
  · rw [if_pos hpairs, hpairs]
    rfl
  · rw [if_neg hpairs, skip_comma, dropWhile_cons_of_neg (by decide)]
    exact if_pos rfl

theorem parse_json_loop_members (pairs : List (Bytes × Bytes)) (fuel : ℕ) (map : StringMap)
    (hfuel : pairs.length < fuel) :
    parse_json_loop fuel (members pairs) map = (pairs.foldl add_member map, true) := by
  induction pairs generalizing fuel map with
  | nil =>
    obtain ⟨fuel, rfl⟩ := Nat.exists_eq_succ_of_ne_zero (by omega : fuel ≠ 0)
    rfl
  | cons pair pairs ih =>
    rw [length_cons] at hfuel
    obtain ⟨fuel, rfl⟩ := Nat.exists_eq_succ_of_ne_zero (by omega : fuel ≠ 0)
    rw [members_cons, json_member, cons_append, parse_json_loop, dropWhile_cons_of_neg (by decide)]
    simp only [append_assoc, cons_append, nil_append]
    rw [if_neg (by decide), if_pos trivial, json_entry_member]
    simp only [skip_comma_members]
    exact ih fuel _ (by omega)

theorem length_le_members (pairs : List (Bytes × Bytes)) :
    pairs.length ≤ (members pairs).length := by
  induction pairs with
  | nil => exact Nat.zero_le _
  | cons pair pairs ih =>
    rw [members_cons, length_append, length_cons]
    split_ifs with hpairs
    · rw [hpairs, json_member, length_cons]
      simp
    · rw [length_cons, json_member, length_cons]
      omega

theorem parse_json_object (pairs : List (Bytes × Bytes)) :
    parse_json_body [] (json_object pairs) = (pairs.foldl add_member [], true) := by
  have hobject : json_object pairs = 123 :: (members pairs ++ [125]) := rfl
  have htrim : trim_copy (123 :: (members pairs ++ [125])) = 123 :: (members pairs ++ [125]) :=
    strip_of_ends (by decide) (by decide) _
  have hinner : ((123 :: (members pairs ++ [125])).drop 1).take
      ((123 :: (members pairs ++ [125])).length - 2) = members pairs := by
    simp
  have hbraces : ¬ ((123 :: (members pairs ++ [125])).length < 2 ∨
      (123 :: (members pairs ++ [125])).head? ≠ some 123 ∨
        (123 :: (members pairs ++ [125])).getLast? ≠ some 125) := by
    simp [getLast?_cons]
  have hfuel := length_le_members pairs
  unfold parse_json_body
  rw [hobject, htrim]
  rw [if_neg (cons_ne_nil _ _), if_neg hbraces, hinner]
  exact parse_json_loop_members pairs _ [] (by omega)

/-! ## The round trip -/

def mangled (b : UInt8) : Bool := b = 10 || b = 13 || b = 9

/-- No control byte but the three that have an escape of their own. -/
def Writable (s : Bytes) : Prop := ∀ b ∈ s, 32 ≤ b ∨ mangled b = true

instance (s : Bytes) : Decidable (Writable s) := List.decidableBAll _ _

theorem mangled_read_byte (b : UInt8) : mangled (read_byte b) = false := by
  revert b
  apply forall_byte
  decide +kernel

theorem read_byte_eq_iff (b : UInt8) :
    32 ≤ b ∨ mangled b = true → (read_byte b = b ↔ mangled b = false) := by
  revert b
  apply forall_byte
  decide +kernel

theorem read_back_eq_iff {s : Bytes} (h : Writable s) :
    read_back s = s ↔ ∀ b ∈ s, mangled b = false := by
  unfold read_back
  conv_lhs => rhs; rw [← map_id s]
  rw [map_inj_left]
  exact forall₂_congr fun b hb => read_byte_eq_iff b (h b hb)

theorem mangled_of_mem_read_back {s : Bytes} {b : UInt8} (hb : b ∈ read_back s) :
    mangled b = false := by
  obtain ⟨c, -, rfl⟩ := mem_map.mp hb
  exact mangled_read_byte c

theorem lookup_members (pairs : List (Bytes × Bytes)) (hne : ∀ p ∈ pairs, p.1 ≠ [])
    (map : StringMap) (k : Bytes) :
    (pairs.foldl add_member map).lookup k =
      ((pairs.map fun p => (read_back p.1, read_back p.2)).reverse ++ map).lookup k := by
  induction pairs generalizing map with
  | nil => rfl
  | cons pair pairs ih =>
    have hrest : ∀ p ∈ pairs, p.1 ≠ [] := fun p hp => hne p (mem_cons_of_mem _ hp)
    have hkey : read_back pair.1 ≠ [] := by
      intro hnil
      exact hne pair mem_cons_self (map_eq_nil_iff.mp hnil)
    rw [foldl_cons, add_member, if_neg hkey, ih hrest, map_cons, reverse_cons,
      append_assoc, lookup_append, lookup_append, singleton_append,
      StringMap.lookup_set]

theorem lookup_of_nodup {pairs : List (Bytes × Bytes)} (hnodup : (pairs.map Prod.fst).Nodup)
    {p : Bytes × Bytes} (hp : p ∈ pairs) : pairs.lookup p.1 = some p.2 := by
  induction pairs with
  | nil => exact absurd hp not_mem_nil
  | cons pair pairs ih =>
    rw [map_cons, nodup_cons] at hnodup
    rcases mem_cons.mp hp with rfl | hp
    · exact lookup_cons_self
    have hne : p.1 ≠ pair.1 := by
      intro heq
      exact hnodup.1 (heq ▸ mem_map_of_mem hp)
    rw [lookup_cons, beq_eq_false_iff_ne.mpr hne]
    exact ih hnodup.2 hp

theorem lookup_reverse {pairs : List (Bytes × Bytes)} (hnodup : (pairs.map Prod.fst).Nodup)
    (k : Bytes) : pairs.reverse.lookup k = pairs.lookup k := by
  have hreverse : (pairs.reverse.map Prod.fst).Nodup := by
    rw [map_reverse, nodup_reverse]
    exact hnodup
  by_cases hk : ∃ p ∈ pairs, p.1 = k
  · obtain ⟨p, hp, rfl⟩ := hk
    rw [lookup_of_nodup hnodup hp, lookup_of_nodup hreverse (mem_reverse.mpr hp)]
  have hnone : ∀ l : List (Bytes × Bytes), (∀ p ∈ l, p ∈ pairs) → l.lookup k = none := by
    intro l hl
    rw [lookup_eq_none_iff]
    intro p hp
    rw [bne_iff_ne]
    rintro rfl
    exact hk ⟨p, hl p hp, rfl⟩
  rw [hnone pairs fun p hp => hp, hnone _ fun p hp => mem_reverse.mp hp]

/-- The object is read as the map it was written from. -/
def JsonRoundTrips (pairs : List (Bytes × Bytes)) : Prop :=
  ∃ map, parse_json_body [] (json_object pairs) = (map, true) ∧
    ∀ k, map.lookup k = pairs.lookup k

/-- **The round trip.** An object of strings with non-empty keys of their own and without
other control bytes is read back exactly if no key and no value has a newline, a carriage
return or a tab. -/
theorem json_round_trip_iff (pairs : List (Bytes × Bytes)) (hne : ∀ p ∈ pairs, p.1 ≠ [])
    (hnodup : (pairs.map Prod.fst).Nodup) (hwritable : ∀ p ∈ pairs, Writable p.1 ∧ Writable p.2) :
    JsonRoundTrips pairs ↔
      ∀ p ∈ pairs, (∀ b ∈ p.1, mangled b = false) ∧ ∀ b ∈ p.2, mangled b = false := by
  have hread := lookup_members pairs hne []
  rw [append_nil] at hread
  constructor
  · rintro ⟨map, hmap, hlookup⟩
    rw [parse_json_object] at hmap
    obtain rfl := (Prod.mk.inj hmap).1
    -- every key that was written has been read, so it is none of those that change
    have hkeys : ∀ p ∈ pairs, ∀ b ∈ p.1, mangled b = false := by
      intro p hp b hb
      have hfound := hlookup p.1
      rw [lookup_of_nodup hnodup hp, hread] at hfound
      obtain ⟨before, after, hsplit, -⟩ := lookup_eq_some_iff.mp hfound
      have hmem : (p.1, p.2) ∈ (pairs.map fun q => (read_back q.1, read_back q.2)).reverse := by
        rw [hsplit]
        simp
      obtain ⟨q, -, hq⟩ := mem_map.mp (mem_reverse.mp hmem)
      rw [← (Prod.mk.inj hq).1] at hb
      exact mangled_of_mem_read_back hb
    have hsame : ∀ p ∈ pairs, read_back p.1 = p.1 := fun p hp =>
      (read_back_eq_iff (hwritable p hp).1).mpr (hkeys p hp)
    -- so the keys that are read are those that were written, and each has one value
    have hread_nodup :
        ((pairs.map fun q => (read_back q.1, read_back q.2)).map Prod.fst).Nodup := by
      rw [map_map]
      have hfst : pairs.map (Prod.fst ∘ fun q => (read_back q.1, read_back q.2)) =
          pairs.map Prod.fst := map_congr_left hsame
      rw [hfst]
      exact hnodup
    intro p hp
    refine ⟨hkeys p hp, (read_back_eq_iff (hwritable p hp).2).mp ?_⟩
    have hmem : (read_back p.1, read_back p.2) ∈
        pairs.map fun q => (read_back q.1, read_back q.2) := mem_map_of_mem hp
    have hvalue := lookup_of_nodup hread_nodup hmem
    rw [← lookup_reverse hread_nodup, ← hread, hlookup, hsame p hp,
      lookup_of_nodup hnodup hp] at hvalue
    exact (Option.some.inj hvalue).symm
  · intro h
    have hsame : (pairs.map fun q => (read_back q.1, read_back q.2)) = pairs := by
      conv_rhs => rw [← map_id pairs]
      apply map_congr_left
      intro p hp
      rw [(read_back_eq_iff (hwritable p hp).1).mpr (h p hp).1,
        (read_back_eq_iff (hwritable p hp).2).mpr (h p hp).2]
      rfl
    refine ⟨_, parse_json_object pairs, fun k => ?_⟩
    rw [hread, hsame, lookup_reverse hnodup]

/-- Quotes, backslashes and braces come back. -/
theorem quoted_name_round_trips : JsonRoundTrips [(lit "name", lit "a\"\\\x7d,\":b")] :=
  (json_round_trip_iff [(lit "name", lit "a\"\\\x7d,\":b")] (by decide) (by decide)
    (by decide)).mpr (by decide +kernel)

/-- A newline comes back as the letter `n`. -/
theorem newline_read_as_letter :
    json_object [(lit "a", [10])] = lit "\x7b\"a\":\"\\n\"\x7d" ∧
      (∀ p ∈ [(lit "a", [10])], p.1 ≠ [] ∧ Writable p.1 ∧ Writable p.2) ∧
      parse_json_body [] (json_object [(lit "a", [10])]) = ([(lit "a", lit "n")], true) ∧
      ¬ JsonRoundTrips [(lit "a", [10])] := by
  have hparse : parse_json_body [] (json_object [(lit "a", [10])]) = ([(lit "a", lit "n")], true) :=
    parse_json_object [(lit "a", [10])]
  refine ⟨by decide, by decide, hparse, ?_⟩
  rintro ⟨map, hmap, hlookup⟩
  rw [← (Prod.mk.inj hmap).1] at hlookup
  exact absurd (hlookup (lit "a")) (by decide)

end AtlasWebServer.Http
