import Loopex.Erlang.Term

/-!
# Base64 in the alphabet of URLs

`Base.url_encode64` and `Base.url_decode64`, both without padding.  Three bytes are four characters of six bits; a
final group of two or three characters carries four or two bits that no byte has, and the decoder drops them.

* `base64Value_eq_some` — a value has one character
* `urlDecode64_encode` — decoding what was encoded
* `urlDecode64_eq_some` — what is decoded, and how long it is
* `urlEncode64_decode` — text is what its bytes are written as if and only if its spare bits are zero
-/

namespace Loopex.Erlang

/-- The character of a value of six bits. -/
def base64Char (v : ℕ) : UInt8 :=
  if v < 26 then .ofNat (65 + v)
  else if v < 52 then .ofNat (71 + v)
  else if v < 62 then .ofNat (v - 4)
  else if v = 62 then 45
  else 95

/-- The value of a character. -/
def base64Value (c : UInt8) : Option ℕ :=
  let n := c.toNat
  if 65 ≤ n ∧ n ≤ 90 then some (n - 65)
  else if 97 ≤ n ∧ n ≤ 122 then some (n - 71)
  else if 48 ≤ n ∧ n ≤ 57 then some (n + 4)
  else if n = 45 then some 62
  else if n = 95 then some 63
  else none

/-- `Base.url_encode64(bytes, padding: false)`. -/
def urlEncode64 : Bytes → Bytes
  | a :: b :: c :: rest =>
    base64Char (a.toNat / 4) :: base64Char (a.toNat % 4 * 16 + b.toNat / 16) ::
      base64Char (b.toNat % 16 * 4 + c.toNat / 64) :: base64Char (c.toNat % 64) :: urlEncode64 rest
  | [a, b] =>
    [base64Char (a.toNat / 4), base64Char (a.toNat % 4 * 16 + b.toNat / 16), base64Char (b.toNat % 16 * 4)]
  | [a] => [base64Char (a.toNat / 4), base64Char (a.toNat % 4 * 16)]
  | [] => []

/-- A final group of two characters: the low four bits of the second are dropped. -/
def decodeTwo (c₁ c₂ : UInt8) : Option Bytes := do
  let v₁ ← base64Value c₁
  let v₂ ← base64Value c₂
  return [.ofNat (v₁ * 4 + v₂ / 16)]

/-- A final group of three characters: the low two bits of the third are dropped. -/
def decodeThree (c₁ c₂ c₃ : UInt8) : Option Bytes := do
  let v₁ ← base64Value c₁
  let v₂ ← base64Value c₂
  let v₃ ← base64Value c₃
  return [.ofNat (v₁ * 4 + v₂ / 16), .ofNat (v₂ % 16 * 16 + v₃ / 4)]

/-- A group of four characters. -/
def decodeFour (c₁ c₂ c₃ c₄ : UInt8) : Option Bytes := do
  let v₁ ← base64Value c₁
  let v₂ ← base64Value c₂
  let v₃ ← base64Value c₃
  let v₄ ← base64Value c₄
  return [.ofNat (v₁ * 4 + v₂ / 16), .ofNat (v₂ % 16 * 16 + v₃ / 4), .ofNat (v₃ % 4 * 64 + v₄)]

/-- `Base.url_decode64(string, padding: false)`: the last group may be padded and need not be. -/
def urlDecode64 : Bytes → Option Bytes
  | c₁ :: c₂ :: c₃ :: c₄ :: rest =>
    if rest = [] ∧ c₄ = 61 then
      if c₃ = 61 then decodeTwo c₁ c₂ else decodeThree c₁ c₂ c₃
    else do
      let bytes ← decodeFour c₁ c₂ c₃ c₄
      let more ← urlDecode64 rest
      return bytes ++ more
  | [c₁, c₂, c₃] => decodeThree c₁ c₂ c₃
  | [c₁, c₂] => decodeTwo c₁ c₂
  | [_] => none
  | [] => some []

/-- The bits of a final group of two or three characters that no byte has. -/
def spareBits : Bytes → ℕ
  | _ :: _ :: _ :: _ :: rest => spareBits rest
  | [_, _, c] => (base64Value c).getD 0 % 4
  | [_, c] => (base64Value c).getD 0 % 16
  | _ => 0

/-- Text the decoder accepts, unpadded: characters of the alphabet, with no group of one. -/
def Base64Text (t : Bytes) : Prop := (∀ c ∈ t, (base64Value c).isSome) ∧ t.length % 4 ≠ 1

instance (t : Bytes) : Decidable (Base64Text t) := inferInstanceAs (Decidable (_ ∧ _))

/-! ## characters -/

theorem base64Value_char {v : ℕ} (h : v < 64) : base64Value (base64Char v) = some v := by
  revert v
  decide

theorem base64Char_value (c : UInt8) : ∀ v, base64Value c = some v → v < 64 ∧ base64Char v = c := by
  have hall : ∀ n < 256, (base64Value (.ofNat n)).all fun v => v < 64 && base64Char v == .ofNat n := by
    decide +kernel
  intro v hv
  have hc := hall c.toNat c.toNat_lt
  rw [UInt8.ofNat_toNat, hv] at hc
  simpa using hc

/-- A value has one character. -/
theorem base64Value_eq_some {c : UInt8} {v : ℕ} : base64Value c = some v ↔ v < 64 ∧ base64Char v = c := by
  refine ⟨base64Char_value c v, ?_⟩
  rintro ⟨h, rfl⟩
  exact base64Value_char h

theorem base64Char_ne_pad (v : ℕ) (h : v < 64) : base64Char v ≠ 61 := by
  intro heq
  have hv := base64Value_char h
  rw [heq] at hv
  cases hv

theorem toNat_ofNat_of_lt {n : ℕ} (h : n < 256) : (UInt8.ofNat n).toNat = n := by
  rw [UInt8.toNat_ofNat', Nat.mod_eq_of_lt h]

/-! ## groups -/

theorem decodeTwo_eq_some {c₁ c₂ : UInt8} {x : Bytes} (h : decodeTwo c₁ c₂ = some x) :
    ∃ v₁ v₂, base64Value c₁ = some v₁ ∧ base64Value c₂ = some v₂ ∧ x = [.ofNat (v₁ * 4 + v₂ / 16)] := by
  obtain ⟨v₁, h₁, h⟩ := Option.bind_eq_some_iff.1 h
  obtain ⟨v₂, h₂, h⟩ := Option.bind_eq_some_iff.1 h
  exact ⟨v₁, v₂, h₁, h₂, (Option.some.inj h).symm⟩

theorem decodeThree_eq_some {c₁ c₂ c₃ : UInt8} {x : Bytes} (h : decodeThree c₁ c₂ c₃ = some x) :
    ∃ v₁ v₂ v₃, base64Value c₁ = some v₁ ∧ base64Value c₂ = some v₂ ∧ base64Value c₃ = some v₃ ∧
      x = [.ofNat (v₁ * 4 + v₂ / 16), .ofNat (v₂ % 16 * 16 + v₃ / 4)] := by
  obtain ⟨v₁, h₁, h⟩ := Option.bind_eq_some_iff.1 h
  obtain ⟨v₂, h₂, h⟩ := Option.bind_eq_some_iff.1 h
  obtain ⟨v₃, h₃, h⟩ := Option.bind_eq_some_iff.1 h
  exact ⟨v₁, v₂, v₃, h₁, h₂, h₃, (Option.some.inj h).symm⟩

theorem decodeFour_eq_some {c₁ c₂ c₃ c₄ : UInt8} {x : Bytes} (h : decodeFour c₁ c₂ c₃ c₄ = some x) :
    ∃ v₁ v₂ v₃ v₄, base64Value c₁ = some v₁ ∧ base64Value c₂ = some v₂ ∧ base64Value c₃ = some v₃ ∧
      base64Value c₄ = some v₄ ∧
      x = [.ofNat (v₁ * 4 + v₂ / 16), .ofNat (v₂ % 16 * 16 + v₃ / 4), .ofNat (v₃ % 4 * 64 + v₄)] := by
  obtain ⟨v₁, h₁, h⟩ := Option.bind_eq_some_iff.1 h
  obtain ⟨v₂, h₂, h⟩ := Option.bind_eq_some_iff.1 h
  obtain ⟨v₃, h₃, h⟩ := Option.bind_eq_some_iff.1 h
  obtain ⟨v₄, h₄, h⟩ := Option.bind_eq_some_iff.1 h
  exact ⟨v₁, v₂, v₃, v₄, h₁, h₂, h₃, h₄, (Option.some.inj h).symm⟩

/-- The decoder of text without padding. -/
theorem urlDecode64_group {c₁ c₂ c₃ c₄ : UInt8} {rest : Bytes} (h : c₄ ≠ 61) :
    urlDecode64 (c₁ :: c₂ :: c₃ :: c₄ :: rest) =
      (decodeFour c₁ c₂ c₃ c₄).bind fun bytes => (urlDecode64 rest).bind fun more => some (bytes ++ more) := by
  rw [urlDecode64, if_neg fun hpad => h hpad.2]
  rfl

/-- Induction on text by groups of four. -/
theorem groups_induction {P : Bytes → Prop} (four : ∀ c₁ c₂ c₃ c₄ rest, P rest → P (c₁ :: c₂ :: c₃ :: c₄ :: rest))
    (three : ∀ c₁ c₂ c₃, P [c₁, c₂, c₃]) (two : ∀ c₁ c₂, P [c₁, c₂]) (one : ∀ c, P [c]) (nil : P []) : ∀ t, P t
  | c₁ :: c₂ :: c₃ :: c₄ :: rest => four c₁ c₂ c₃ c₄ rest (groups_induction four three two one nil rest)
  | [c₁, c₂, c₃] => three c₁ c₂ c₃
  | [c₁, c₂] => two c₁ c₂
  | [c] => one c
  | [] => nil

/-- What is decoded is text of the alphabet, of four thirds of the length. -/
theorem urlDecode64_eq_some {t x : Bytes} (hpad : 61 ∉ t) (h : urlDecode64 t = some x) :
    Base64Text t ∧ x.length = t.length * 3 / 4 := by
  induction t using groups_induction generalizing x with
  | four c₁ c₂ c₃ c₄ rest ih =>
    simp only [List.mem_cons, not_or] at hpad
    obtain ⟨-, -, -, hne, hrest⟩ := hpad
    rw [urlDecode64_group (Ne.symm hne)] at h
    obtain ⟨bytes, hbytes, h⟩ := Option.bind_eq_some_iff.1 h
    obtain ⟨more, hmore, h⟩ := Option.bind_eq_some_iff.1 h
    obtain rfl := Option.some.inj h
    obtain ⟨v₁, v₂, v₃, v₄, h₁, h₂, h₃, h₄, rfl⟩ := decodeFour_eq_some hbytes
    obtain ⟨⟨hall, hlen⟩, hx⟩ := ih hrest hmore
    refine ⟨⟨?_, ?_⟩, ?_⟩
    · simpa [h₁, h₂, h₃, h₄] using hall
    · simp only [List.length_cons]
      omega
    · simp only [List.length_cons, List.length_append, List.length_nil, hx]
      omega
  | three c₁ c₂ c₃ =>
    obtain ⟨v₁, v₂, v₃, h₁, h₂, h₃, rfl⟩ := decodeThree_eq_some h
    simp [Base64Text, h₁, h₂, h₃]
  | two c₁ c₂ =>
    obtain ⟨v₁, v₂, h₁, h₂, rfl⟩ := decodeTwo_eq_some h
    simp [Base64Text, h₁, h₂]
  | one => cases h
  | nil =>
    obtain rfl := Option.some.inj h
    simp [Base64Text]

theorem Base64Text.no_pad {t : Bytes} (h : Base64Text t) : 61 ∉ t := by
  intro hmem
  have hpad := h.1 61 hmem
  cases hpad

/-- Text of the alphabet is decoded. -/
theorem Base64Text.decodes {t : Bytes} (h : Base64Text t) : ∃ x, urlDecode64 t = some x := by
  induction t using groups_induction with
  | four c₁ c₂ c₃ c₄ rest ih =>
    obtain ⟨hall, hlen⟩ := h
    simp only [List.mem_cons, forall_eq_or_imp, Option.isSome_iff_exists] at hall
    obtain ⟨⟨v₁, h₁⟩, ⟨v₂, h₂⟩, ⟨v₃, h₃⟩, ⟨v₄, h₄⟩, hrest⟩ := hall
    have hne : c₄ ≠ 61 := by
      rintro rfl
      cases h₄
    simp only [List.length_cons] at hlen
    obtain ⟨x, hx⟩ := ih ⟨fun c hc => Option.isSome_iff_exists.2 (hrest c hc), by omega⟩
    obtain ⟨bytes, hbytes⟩ : ∃ bytes, decodeFour c₁ c₂ c₃ c₄ = some bytes := by
      simp [decodeFour, h₁, h₂, h₃, h₄]
    refine ⟨bytes ++ x, ?_⟩
    rw [urlDecode64_group hne, hbytes, hx]
    rfl
  | three c₁ c₂ c₃ =>
    have hall := h.1
    simp only [List.mem_cons, List.not_mem_nil, or_false, forall_eq_or_imp, forall_eq,
      Option.isSome_iff_exists] at hall
    obtain ⟨⟨v₁, h₁⟩, ⟨v₂, h₂⟩, v₃, h₃⟩ := hall
    simp [urlDecode64, decodeThree, h₁, h₂, h₃]
  | two c₁ c₂ =>
    have hall := h.1
    simp only [List.mem_cons, List.not_mem_nil, or_false, forall_eq_or_imp, forall_eq,
      Option.isSome_iff_exists] at hall
    obtain ⟨⟨v₁, h₁⟩, v₂, h₂⟩ := hall
    simp [urlDecode64, decodeTwo, h₁, h₂]
  | one => exact absurd rfl h.2
  | nil => exact ⟨[], rfl⟩

/-- A character is what its value is written as. -/
theorem base64Char_eq {c : UInt8} {v w : ℕ} (h : base64Value c = some v) (hw : w < 64) :
    base64Char w = c ↔ w = v := by
  obtain ⟨hv, rfl⟩ := base64Value_eq_some.1 h
  refine ⟨fun heq => ?_, fun heq => by rw [heq]⟩
  have hval := base64Value_char hw
  rw [heq, base64Value_char hv] at hval
  exact (Option.some.inj hval).symm

/-- Text is what its bytes are written as if and only if its spare bits are zero. -/
theorem urlEncode64_decode {t x : Bytes} (hpad : 61 ∉ t) (h : urlDecode64 t = some x) :
    urlEncode64 x = t ↔ spareBits t = 0 := by
  induction t using groups_induction generalizing x with
  | four c₁ c₂ c₃ c₄ rest ih =>
    simp only [List.mem_cons, not_or] at hpad
    obtain ⟨-, -, -, hne, hrest⟩ := hpad
    rw [urlDecode64_group (Ne.symm hne)] at h
    obtain ⟨bytes, hbytes, h⟩ := Option.bind_eq_some_iff.1 h
    obtain ⟨more, hmore, h⟩ := Option.bind_eq_some_iff.1 h
    obtain rfl := Option.some.inj h
    obtain ⟨v₁, v₂, v₃, v₄, h₁, h₂, h₃, h₄, rfl⟩ := decodeFour_eq_some hbytes
    have hlt₁ := (base64Value_eq_some.1 h₁).1
    have hlt₂ := (base64Value_eq_some.1 h₂).1
    have hlt₃ := (base64Value_eq_some.1 h₃).1
    have hlt₄ := (base64Value_eq_some.1 h₄).1
    rw [spareBits, ← ih hrest hmore]
    simp only [List.cons_append, List.nil_append, urlEncode64]
    rw [toNat_ofNat_of_lt (by omega), toNat_ofNat_of_lt (by omega), toNat_ofNat_of_lt (by omega)]
    rw [(base64Char_eq h₁ (by omega)).2 (by omega), (base64Char_eq h₂ (by omega)).2 (by omega),
      (base64Char_eq h₃ (by omega)).2 (by omega), (base64Char_eq h₄ (by omega)).2 (by omega)]
    simp
  | three c₁ c₂ c₃ =>
    obtain ⟨v₁, v₂, v₃, h₁, h₂, h₃, rfl⟩ := decodeThree_eq_some h
    have hlt₁ := (base64Value_eq_some.1 h₁).1
    have hlt₂ := (base64Value_eq_some.1 h₂).1
    have hlt₃ := (base64Value_eq_some.1 h₃).1
    simp only [urlEncode64, spareBits, h₃, Option.getD_some]
    rw [toNat_ofNat_of_lt (by omega), toNat_ofNat_of_lt (by omega)]
    rw [(base64Char_eq h₁ (by omega)).2 (by omega), (base64Char_eq h₂ (by omega)).2 (by omega)]
    simp only [List.cons.injEq, and_true, true_and]
    rw [base64Char_eq h₃ (by omega)]
    omega
  | two c₁ c₂ =>
    obtain ⟨v₁, v₂, h₁, h₂, rfl⟩ := decodeTwo_eq_some h
    have hlt₁ := (base64Value_eq_some.1 h₁).1
    have hlt₂ := (base64Value_eq_some.1 h₂).1
    simp only [urlEncode64, spareBits, h₂, Option.getD_some]
    rw [toNat_ofNat_of_lt (by omega), (base64Char_eq h₁ (by omega)).2 (by omega)]
    simp only [List.cons.injEq, and_true, true_and]
    rw [base64Char_eq h₂ (by omega)]
    omega
  | one => cases h
  | nil =>
    obtain rfl := Option.some.inj h
    exact iff_of_true rfl rfl

/-! ## text that was written -/

theorem urlEncode64_no_pad (x : Bytes) : 61 ∉ urlEncode64 x := by
  induction x using urlEncode64.induct with
  | case1 a b c rest ih =>
    have ha := a.toNat_lt
    have hb := b.toNat_lt
    have hc := c.toNat_lt
    simp only [urlEncode64, List.mem_cons, not_or]
    refine ⟨(base64Char_ne_pad _ ?_).symm, (base64Char_ne_pad _ ?_).symm, (base64Char_ne_pad _ ?_).symm,
      (base64Char_ne_pad _ ?_).symm, ih⟩ <;> omega
  | case2 a b =>
    have ha := a.toNat_lt
    have hb := b.toNat_lt
    simp only [urlEncode64, List.mem_cons, not_or, List.not_mem_nil, not_false_iff, and_true]
    refine ⟨(base64Char_ne_pad _ ?_).symm, (base64Char_ne_pad _ ?_).symm, (base64Char_ne_pad _ ?_).symm⟩ <;> omega
  | case3 a =>
    have ha := a.toNat_lt
    simp only [urlEncode64, List.mem_cons, not_or, List.not_mem_nil, not_false_iff, and_true]
    refine ⟨(base64Char_ne_pad _ ?_).symm, (base64Char_ne_pad _ ?_).symm⟩ <;> omega
  | case4 => exact List.not_mem_nil

theorem byte_eq_ofNat {a : UInt8} {n : ℕ} (h : n = a.toNat) : UInt8.ofNat n = a := by
  rw [h, UInt8.ofNat_toNat]

/-- What was encoded is decoded. -/
theorem urlDecode64_encode (x : Bytes) : urlDecode64 (urlEncode64 x) = some x := by
  induction x using urlEncode64.induct with
  | case1 a b c rest ih =>
    have ha := a.toNat_lt
    have hb := b.toNat_lt
    have hc := c.toNat_lt
    rw [urlEncode64, urlDecode64_group (base64Char_ne_pad _ (by omega)), ih, decodeFour]
    rw [base64Value_char (by omega), base64Value_char (by omega), base64Value_char (by omega),
      base64Value_char (by omega)]
    simp only [Option.bind_eq_bind, Option.bind_some, Option.pure_def, List.cons_append, List.nil_append]
    rw [byte_eq_ofNat (a := a) (by omega), byte_eq_ofNat (a := b) (by omega), byte_eq_ofNat (a := c) (by omega)]
  | case2 a b =>
    have ha := a.toNat_lt
    have hb := b.toNat_lt
    rw [urlEncode64, urlDecode64, decodeThree]
    rw [base64Value_char (by omega), base64Value_char (by omega), base64Value_char (by omega)]
    simp only [Option.bind_eq_bind, Option.bind_some, Option.pure_def]
    rw [byte_eq_ofNat (a := a) (by omega), byte_eq_ofNat (a := b) (by omega)]
  | case3 a =>
    have ha := a.toNat_lt
    rw [urlEncode64, urlDecode64, decodeTwo]
    rw [base64Value_char (by omega), base64Value_char (by omega)]
    simp only [Option.bind_eq_bind, Option.bind_some, Option.pure_def]
    rw [byte_eq_ofNat (a := a) (by omega)]
  | case4 => rfl

end Loopex.Erlang
