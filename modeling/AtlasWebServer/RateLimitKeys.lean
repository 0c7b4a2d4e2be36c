/-
The keys of the rate limiter: do two clients ever share a bucket?

A short value is written percent-encoded and can be read back, so two short values have
different keys. A long one is hashed, and nothing in the encoding is reserved for the hash: a
short name that is `h` and the sixteen digits has the key of the long one.
-/
import AtlasWebServer.FormDecoding

set_option autoImplicit false

namespace AtlasWebServer.RateLimit

open Bytes CString Http Forms List

def kHex (n : UInt8) : UInt8 := if n < 10 then 48 + n else 87 + n

/-- The number that `stable_hash_hex` prints. -/
def stable_hash (value : Bytes) : UInt64 :=
  value.foldl (fun hash b => (hash ^^^ b.toUInt64) * 1099511628211) 1469598103934665603

def stable_hash_hex (value : Bytes) : Bytes :=
  (List.range 16).map fun i =>
    kHex (UInt8.ofNat ((stable_hash value).toNat / 16 ^ (15 - i) % 16))

/-- One pass of the loop of `key_component`. -/
def key_byte (ch : UInt8) : Bytes :=
  if isalnum ch || ch = 46 || ch = 58 || ch = 95 || ch = 45 then [ch]
  else [37, kHex (ch / 16), kHex (ch % 16)]

def encoded (value : Bytes) : Bytes := value.flatMap key_byte

def key_component (value : Bytes) : Bytes :=
  if value = [] then lit "unknown"
  else if 160 < (encoded value).length then lit "h" ++ stable_hash_hex value
  else encoded value

theorem decode_key_byte (ch : UInt8) (rest : Bytes) :
    url_decode (key_byte ch ++ rest) = ch :: url_decode rest := by
  have hbyte : ∀ ch : UInt8,
      ((isalnum ch || ch = 46 || ch = 58 || ch = 95 || ch = 45) = true → ch ≠ 37 ∧ ch ≠ 43) ∧
      isxdigit (kHex (ch / 16)) = true ∧ isxdigit (kHex (ch % 16)) = true ∧
      hexadecimal [kHex (ch / 16), kHex (ch % 16)] = ch.toNat := by
    apply forall_byte
    decide +kernel
  obtain ⟨hne, hhigh, hlow, hvalue⟩ := hbyte ch
  unfold key_byte
  split_ifs with hplain
  · rw [singleton_append, url_decode_of_ne (hne hplain).1, plus_decoded, if_neg (hne hplain).2]
  · rw [cons_append, cons_append, singleton_append, url_decode,
      if_pos ⟨rfl, hhigh, hlow⟩, hvalue, UInt8.ofNat_toNat]

theorem url_decode_encoded (value : Bytes) : url_decode (encoded value) = value := by
  induction value with
  | nil => rfl
  | cons ch value ih => exact (decode_key_byte ch _).trans (congrArg _ ih)

theorem encoded_hashed (value : Bytes) :
    encoded (lit "h" ++ stable_hash_hex value) = lit "h" ++ stable_hash_hex value := by
  have hdigit : ∀ n < 16, key_byte (kHex (UInt8.ofNat n)) = [kHex (UInt8.ofNat n)] := by decide
  have hplain : ∀ b ∈ lit "h" ++ stable_hash_hex value, key_byte b = [b] := by
    intro b hb
    rcases mem_append.mp hb with hb | hb
    · rw [mem_singleton.mp hb]
      decide
    · obtain ⟨i, -, rfl⟩ := mem_map.mp hb
      exact hdigit _ (Nat.mod_lt _ (by decide))
  rw [encoded, flatMap_congr hplain, flatMap_singleton']

/-- **Keys keep clients apart** unless a short value spells the hash of a long one. -/
theorem keys_differ_iff {s t : Bytes} (hs : s ≠ []) (ht : t ≠ []) (hne : s ≠ t)
    (hshort : (encoded s).length ≤ 160) :
    key_component s ≠ key_component t ↔
      ¬ (160 < (encoded t).length ∧ s = lit "h" ++ stable_hash_hex t) := by
  apply not_congr
  rw [key_component, if_neg hs, if_neg (Nat.not_lt.mpr hshort), key_component, if_neg ht]
  split_ifs with hlong
  · rw [← encoded_hashed t]
    constructor
    · intro heq
      have hdecode := congrArg url_decode heq
      rw [url_decode_encoded, url_decode_encoded] at hdecode
      exact ⟨hlong, hdecode.trans (encoded_hashed t).symm⟩
    · rintro ⟨-, hspelled⟩
      rw [hspelled, encoded_hashed, encoded_hashed]
  · refine ⟨fun heq => ?_, fun h => absurd h.1 hlong⟩
    have hdecode := congrArg url_decode heq
    rw [url_decode_encoded, url_decode_encoded] at hdecode
    exact absurd hdecode hne

theorem two_users_differ : key_component (lit "ana") ≠ key_component (lit "bob") :=
  (keys_differ_iff (by decide) (by decide) (by decide) (by decide)).mpr (by decide)

/-- The hash of a name of 161 letters is a name of its own. -/
theorem hash_name_shared :
    (encoded (lit "h790a6188673a9366")).length ≤ 160 ∧
      lit "h790a6188673a9366" ≠ List.replicate 161 97 ∧
      key_component (lit "h790a6188673a9366") = key_component (List.replicate 161 97) := by
  decide +kernel

end AtlasWebServer.RateLimit
