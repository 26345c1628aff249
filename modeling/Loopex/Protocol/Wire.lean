import Loopex.Erlang.Base64
import Loopex.Erlang.Numeral
import Mathlib.Data.PNat.Notation

/-!
# The scalar codecs of the wire

Identities and raw bytes travel as unpadded base64url, quantities of 64 bits as canonical decimal.

* `identity`, `sessionIdentity`, `bytes`, `u64` and their encoders, as the source computes them
* `encodeU64_decode`, `u64_encode` — quantities have one spelling, and it is read back
* `wire_spelling` — a string is the encoding of what it is decoded to if and only if its spare bits are zero
-/

namespace Loopex.Protocol.Wire

open Loopex.Erlang

def maxIdentityBytes : ℕ+ := 65536

def maxSessionIdentityBytes : ℕ+ := 256

def u64Max : ℤ := 18446744073709551615

def identity (value : Term) (maxBytes : ℕ+ := maxIdentityBytes) : Option Bytes :=
  match value with
  | .binary v =>
    if v.contains 61 then none
    else match urlDecode64 v with
      | some decoded => if 1 ≤ decoded.length ∧ decoded.length ≤ maxBytes then some decoded else none
      | none => none
  | _ => none

def encodeIdentity (bytes : Bytes) : Bytes := urlEncode64 bytes

def sessionIdentity (value : Term) : Option Bytes := identity value maxSessionIdentityBytes

def canonicalDecimal : Bytes → Bool
  | [] => false
  | [48] => true
  | 48 :: _ => false
  | v => v.all fun b => 48 ≤ b && b ≤ 57

def u64 : Term → Option ℤ
  | .binary v =>
    if canonicalDecimal v then
      match integerParse 10 v with
      | some (parsed, []) => if parsed ≤ u64Max then some parsed else none
      | _ => none
    else none
  | _ => none

/-- `encode_u64`; no clause of the source takes another quantity. -/
def encodeU64 (value : ℤ) : Option Bytes :=
  if 0 ≤ value ∧ value ≤ u64Max then some (integerToString value) else none

def bytes (value : Term) (maxBytes : ℤ) : Option Bytes :=
  match value with
  | .binary v =>
    if v.contains 61 then none
    else match urlDecode64 v with
      | some decoded => if decoded.length ≤ maxBytes then some decoded else none
      | none => none
  | _ => none

def encodeBytes (value : Bytes) : Bytes := urlEncode64 value

variable {v w x : Bytes} {n : ℤ}

/-! ## bytes -/

theorem urlDecode64_of_bytes {max : ℤ} (h : bytes (.binary v) max = some x) :
    61 ∉ v ∧ urlDecode64 v = some x ∧ x.length ≤ max := by
  simp only [bytes] at h
  split at h
  · cases h
  next hpad =>
    split at h
    next decoded hdecoded =>
      split at h
      next hmax =>
        obtain rfl := Option.some.inj h
        exact ⟨by simpa using hpad, hdecoded, hmax⟩
      · cases h
    · cases h

theorem bytes_of_urlDecode64 {max : ℤ} (hpad : 61 ∉ v) (h : urlDecode64 v = some x) (hmax : x.length ≤ max) :
    bytes (.binary v) max = some x := by
  simp [bytes, hpad, h, hmax]

/-- An identity is bytes, and at least one. -/
theorem identity_eq_some {max : ℕ+} :
    identity (.binary v) max = some x ↔ bytes (.binary v) (max : ℕ) = some x ∧ 1 ≤ x.length := by
  simp only [identity, bytes]
  split
  · simp
  · split
    next decoded _ =>
      split
      next hmax =>
        rw [if_pos (by omega)]
        refine ⟨fun h => ⟨h, ?_⟩, And.left⟩
        obtain rfl := Option.some.inj h
        exact hmax.1
      next hmax =>
        refine ⟨fun h => (by cases h), ?_⟩
        rintro ⟨h, hpos⟩
        split at h
        · obtain rfl := Option.some.inj h
          exact absurd ⟨hpos, by omega⟩ hmax
        · cases h
    · simp

/-- A string of raw bytes is spelled as its bytes are if and only if its spare bits are zero. -/
theorem encodeBytes_eq {max : ℤ} (h : bytes (.binary v) max = some x) : encodeBytes x = v ↔ spareBits v = 0 := by
  obtain ⟨hpad, hdecoded, -⟩ := urlDecode64_of_bytes h
  exact urlEncode64_decode hpad hdecoded

/-- The strings a codec takes. -/
theorem bytes_accepts {max : ℤ} :
    (∃ x, bytes (.binary v) max = some x) ↔ Base64Text v ∧ ((v.length * 3 / 4 : ℕ) : ℤ) ≤ max := by
  constructor
  · rintro ⟨x, hx⟩
    obtain ⟨hpad, hdecoded, hmax⟩ := urlDecode64_of_bytes hx
    obtain ⟨htext, hlen⟩ := urlDecode64_eq_some hpad hdecoded
    exact ⟨htext, hlen ▸ hmax⟩
  · rintro ⟨htext, hmax⟩
    obtain ⟨x, hx⟩ := htext.decodes
    refine ⟨x, bytes_of_urlDecode64 htext.no_pad hx ?_⟩
    rw [(urlDecode64_eq_some htext.no_pad hx).2]
    exact hmax

theorem bytes_encode {max : ℤ} (hmax : x.length ≤ max) : bytes (.binary (encodeBytes x)) max = some x :=
  bytes_of_urlDecode64 (urlEncode64_no_pad x) (urlDecode64_encode x) hmax

/-! ## quantities -/

theorem canonicalDecimal_spec (h : canonicalDecimal v = true) :
    v ≠ [] ∧ (v.head? = some 48 → v = [48]) ∧ ∀ b ∈ v, 48 ≤ b ∧ b ≤ 57 := by
  unfold canonicalDecimal at h
  split at h
  · cases h
  · simp
  · cases h
  next hnil hzero hhead =>
    refine ⟨hnil, fun hv => ?_, fun b hb => ?_⟩
    · obtain ⟨rest, rfl⟩ : ∃ rest, v = 48 :: rest := by
        rcases v with _ | ⟨b, rest⟩
        · cases hv
        · exact ⟨rest, by rw [Option.some.inj hv]⟩
      exact absurd rfl (hhead rest)
    · simpa using List.all_eq_true.1 h b hb

theorem digitValue_decimal {b : UInt8} (h : 48 ≤ b ∧ b ≤ 57) : digitValue 10 b = some (b.toNat - 48) := by
  have hlow : 48 ≤ b.toNat := by simpa using UInt8.le_iff_toNat_le.1 h.1
  have hhigh : b.toNat ≤ 57 := by simpa using UInt8.le_iff_toNat_le.1 h.2
  simp only [digitValue, if_pos (And.intro hlow hhigh)]
  exact if_pos (by omega)

/-- Canonical decimal is digits without a leading zero. -/
theorem canonicalDecimal_digits (h : canonicalDecimal v = true) :
    ∃ ds, v.mapM (digitValue 10) = some ds ∧ ds ≠ [] ∧ (ds.head? = some 0 → ds = [0]) := by
  obtain ⟨hne, hhead, hall⟩ := canonicalDecimal_spec h
  have hmap : v.mapM (digitValue 10) = some (v.map fun b => b.toNat - 48) := by
    clear h hne hhead
    induction v with
    | nil => rfl
    | cons b v ih =>
      obtain ⟨hb, hall'⟩ := List.forall_mem_cons.1 hall
      rw [List.mapM_cons, digitValue_decimal hb, ih hall']
      rfl
  refine ⟨_, hmap, by simpa using hne, fun hzero => ?_⟩
  rw [List.head?_map, Option.map_eq_some_iff] at hzero
  obtain ⟨b, hb, hsub⟩ := hzero
  have hmem : b ∈ v := List.mem_of_head? hb
  have hlow : 48 ≤ b.toNat := by simpa using UInt8.le_iff_toNat_le.1 (hall b hmem).1
  have hb48 : b = 48 := UInt8.toNat_inj.1 (by simp; omega)
  rw [hhead (hb.trans (congrArg some hb48))]
  rfl

/-- A quantity is spelled in one way. -/
theorem encodeU64_decode (h : u64 (.binary v) = some n) : encodeU64 n = some v := by
  simp only [u64] at h
  split at h
  next hcanonical =>
    obtain ⟨ds, hmap, hne, hhead⟩ := canonicalDecimal_digits hcanonical
    rw [integerParse_of_mapM hmap hne] at h
    dsimp only at h
    split at h
    next hmax =>
      obtain rfl := Option.some.inj h
      have hlt := fun d hd => lt_of_mapM hmap d hd
      rw [encodeU64, if_pos ⟨by omega, hmax⟩, integerToString, if_neg (by omega), Int.natAbs_natCast,
        decimal_ofDigits hlt hne hhead, digits_of_mapM hmap]
    · cases h
  · cases h

theorem canonicalDecimal_decimal (m : ℕ) : canonicalDecimal (digits (decimal m)) = true := by
  have hne := decimal_ne_nil m
  have hhead := decimal_head m
  have hlt := decimal_lt m
  generalize decimal m = ds at hne hhead hlt
  have hall : ∀ b ∈ digits ds, 48 ≤ b ∧ b ≤ 57 := by
    intro b hb
    obtain ⟨d, hd, rfl⟩ := List.mem_map.1 hb
    have hd10 := hlt d hd
    have hnat : (UInt8.ofNat (48 + d)).toNat = 48 + d := by rw [UInt8.toNat_ofNat', Nat.mod_eq_of_lt (by omega)]
    rw [UInt8.le_iff_toNat_le, UInt8.le_iff_toNat_le, hnat]
    exact ⟨by simp, by simp; omega⟩
  unfold canonicalDecimal
  split
  next hnil => exact absurd (List.map_eq_nil_iff.1 hnil) hne
  · rfl
  next rest hnot hzero =>
    obtain ⟨d, ds', rfl⟩ := List.exists_cons_of_ne_nil hne
    rw [digits, List.map_cons, List.cons.injEq] at hzero
    obtain ⟨hd, hrest⟩ := hzero
    have hd10 := hlt d List.mem_cons_self
    have hnat : (UInt8.ofNat (48 + d)).toNat = 48 + d := by rw [UInt8.toNat_ofNat', Nat.mod_eq_of_lt (by omega)]
    rw [hd] at hnat
    have hd0 : d = 0 := by simpa using hnat.symm
    obtain ⟨-, rfl⟩ := List.cons.inj (hhead (by rw [hd0]; rfl))
    exact absurd hrest.symm hnot
  · rw [List.all_eq_true]
    intro b hb
    simpa using hall b hb

/-- An encoded quantity is read back. -/
theorem u64_encode (h : 0 ≤ n ∧ n ≤ u64Max) : ∃ v, encodeU64 n = some v ∧ u64 (.binary v) = some n := by
  obtain ⟨m, rfl⟩ := Int.eq_ofNat_of_zero_le h.1
  refine ⟨digits (decimal m), ?_, ?_⟩
  · rw [encodeU64, if_pos h, integerToString, if_neg (by omega), Int.natAbs_natCast]
  · rw [u64, if_pos (canonicalDecimal_decimal m),
      integerParse_of_mapM (mapM_digits (decimal_lt m)) (decimal_ne_nil m), ofDigits_decimal]
    exact if_pos h.2

/-! ## one spelling -/

/-- The bytes a string is spelled by are those of the string if and only if its spare bits are zero. -/
theorem bytes_spelling (v : Bytes) (max : ℤ) :
    (∀ x, bytes (.binary v) max = some x → encodeBytes x = v) ↔
      (Base64Text v → ((v.length * 3 / 4 : ℕ) : ℤ) ≤ max → spareBits v = 0) := by
  constructor
  · intro h htext hmax
    obtain ⟨x, hx⟩ := bytes_accepts.2 ⟨htext, hmax⟩
    exact (encodeBytes_eq hx).1 (h x hx)
  · intro h x hx
    obtain ⟨htext, hmax⟩ := bytes_accepts.1 ⟨x, hx⟩
    exact (encodeBytes_eq hx).2 (h htext hmax)

theorem identity_spelling (v : Bytes) (max : ℕ+) :
    (∀ x, identity (.binary v) max = some x → encodeIdentity x = v) ↔
      (Base64Text v → v.length * 3 / 4 ≤ max → spareBits v = 0) := by
  constructor
  · intro h htext hmax
    have haccepts : ∃ x, bytes (.binary v) (max : ℕ) = some x :=
      bytes_accepts.2 ⟨htext, by exact_mod_cast hmax⟩
    obtain ⟨x, hx⟩ := haccepts
    have hlen := (urlDecode64_eq_some htext.no_pad (urlDecode64_of_bytes hx).2.1).2
    by_cases hpos : 1 ≤ x.length
    · exact (encodeBytes_eq hx).1 (h x (identity_eq_some.2 ⟨hx, hpos⟩))
    · have hmod := htext.2
      obtain rfl : v = [] := List.eq_nil_of_length_eq_zero (by omega)
      rfl
  · intro h x hx
    obtain ⟨hbytes, -⟩ := identity_eq_some.1 hx
    obtain ⟨htext, hmax⟩ := bytes_accepts.1 ⟨x, hbytes⟩
    exact (encodeBytes_eq hbytes).2 (h htext (by exact_mod_cast hmax))

/-- **One wire spelling, and where it fails.** A string is what its value is encoded as, for identities and for raw
bytes, if and only if its spare bits are zero or it is refused; for quantities it always is.  What is encoded is read
back, and two strings of one value with no spare bits are the same. -/
theorem wire_spelling (v : Bytes) :
    (∀ max, (∀ x, identity (.binary v) max = some x → encodeIdentity x = v) ↔
      (Base64Text v → v.length * 3 / 4 ≤ max → spareBits v = 0)) ∧
    ((∀ x, sessionIdentity (.binary v) = some x → encodeIdentity x = v) ↔
      (Base64Text v → v.length * 3 / 4 ≤ maxSessionIdentityBytes → spareBits v = 0)) ∧
    (∀ max, (∀ x, bytes (.binary v) max = some x → encodeBytes x = v) ↔
      (Base64Text v → ((v.length * 3 / 4 : ℕ) : ℤ) ≤ max → spareBits v = 0)) ∧
    (∀ n, u64 (.binary v) = some n → encodeU64 n = some v) ∧
    (∀ (x : Bytes) (max : ℕ+), 1 ≤ x.length → x.length ≤ max →
      identity (.binary (encodeIdentity x)) max = some x) ∧
    (∀ (x : Bytes) (max : ℤ), x.length ≤ max → bytes (.binary (encodeBytes x)) max = some x) ∧
    (∀ n, 0 ≤ n ∧ n ≤ u64Max → ∃ t, encodeU64 n = some t ∧ u64 (.binary t) = some n) ∧
    ∀ (w x : Bytes) (max max' : ℤ), bytes (.binary v) max = some x → bytes (.binary w) max' = some x →
      spareBits v = 0 → spareBits w = 0 → v = w := by
  refine ⟨identity_spelling v, identity_spelling v _, bytes_spelling v, fun n => encodeU64_decode,
    fun x max hpos hmax => ?_, fun x max => bytes_encode, fun n => u64_encode,
    fun w x max max' hv hw hv' hw' => ?_⟩
  · exact identity_eq_some.2 ⟨bytes_encode (by exact_mod_cast hmax), hpos⟩
  · exact ((encodeBytes_eq hv).2 hv').symm.trans ((encodeBytes_eq hw).2 hw')

/-- Two spellings of the identity of one zero byte. -/
theorem wire_spelling_fails :
    identity (.binary (utf8 "AA")) = some [0] ∧ identity (.binary (utf8 "AB")) = some [0] ∧
      encodeIdentity [0] ≠ utf8 "AB" ∧
      ¬ ∀ v x, identity (.binary v) = some x → encodeIdentity x = v := by
  have hread : identity (.binary (utf8 "AB")) = some [0] := by decide
  have hspelled : encodeIdentity [0] ≠ utf8 "AB" := by decide
  exact ⟨by decide, hread, hspelled, fun h => hspelled (h _ _ hread)⟩

end Loopex.Protocol.Wire
