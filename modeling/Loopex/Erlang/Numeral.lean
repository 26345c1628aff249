import Loopex.Erlang.Term
import Mathlib.Data.Nat.Digits.Defs
import Mathlib.Data.Nat.Digits.Lemmas

/-!
# Numerals

`Integer.parse` and `Integer.to_string`: digits of a base, with an optional sign in front of them.

* `integerParse_of_mapM`, `integerParse_minus` — digits are read, and negated after a minus sign;
* `bytes_of_integerParse` — nothing else is read to its end, but for a plus sign;
* `ofDigits_decimal` — written digits have the number's value.
-/

namespace Loopex.Erlang

/-- The value of a digit, in either case. -/
def digitValue (base : ℕ) (b : UInt8) : Option ℕ :=
  let n := b.toNat
  let v := if 48 ≤ n ∧ n ≤ 57 then n - 48
    else if 97 ≤ n ∧ n ≤ 122 then n - 87
    else if 65 ≤ n ∧ n ≤ 90 then n - 55
    else base
  if v < base then some v else none

/-- The digits at the head of some bytes, and what follows them. -/
def takeDigits (base : ℕ) : Bytes → List ℕ × Bytes
  | [] => ([], [])
  | b :: bs =>
    match digitValue base b with
    | some v => (v :: (takeDigits base bs).1, (takeDigits base bs).2)
    | none => ([], b :: bs)

/-- The value of some digits, the most significant first. -/
def ofDigits (base : ℕ) (ds : List ℕ) : ℕ := ds.foldl (fun acc d => acc * base + d) 0

/-- The sign in front of a numeral, and what follows it. -/
def signed : Bytes → ℤ × Bytes
  | 43 :: r => (1, r)
  | 45 :: r => (-1, r)
  | b => (1, b)

/-- `Integer.parse(b, base)`: a sign counts as part of the numeral. -/
def integerParse (base : ℕ) (b : Bytes) : Option (ℤ × Bytes) :=
  let ds := takeDigits base (signed b).2
  if ds.1 = [] then none else some ((signed b).1 * ofDigits base ds.1, ds.2)

/-- Decimal digits. -/
def digits (ds : List ℕ) : Bytes := ds.map fun d => UInt8.ofNat (48 + d)

/-- The digits of a number in base ten, the most significant first. -/
def decimal (n : ℕ) : List ℕ := if n = 0 then [0] else (Nat.digits 10 n).reverse

/-- `Integer.to_string`. -/
def integerToString (n : ℤ) : Bytes :=
  if n < 0 then 45 :: digits (decimal n.natAbs) else digits (decimal n.natAbs)

/-! ## the shortest numeral of a double -/

namespace Double

/-- The magnitude of the double of some bits, times `2 ^ 1074`. -/
def magnitude (bits : ℕ) : ℕ :=
  let exponent : ℕ := bits / 2 ^ 52
  if exponent = 0 then bits % 2 ^ 52 else (2 ^ 52 + bits % 2 ^ 52) * 2 ^ (exponent - 1)

/-- `m * 10 ^ q` is read back as the positive double of the bits: it is no further than half-way to a
neighbour, and half-way only if the bits are even. -/
def readBack (bits m : ℕ) (q : ℤ) : Bool :=
  let twice := 2 * m * 2 ^ 1074 * 10 ^ q.toNat
  let low := (magnitude (bits - 1) + magnitude bits) * 10 ^ (-q).toNat
  let high := (magnitude bits + magnitude (bits + 1)) * 10 ^ (-q).toNat
  if bits % 2 = 0 then low ≤ twice && twice ≤ high else low < twice && twice < high

/-- The exponent of the first digit of a positive double. -/
def leading (bits : ℕ) : ℤ := (decimal (magnitude bits * 10 ^ 400 / 2 ^ 1074)).length - 401

/-- The first `n` digits of a positive double. -/
def truncated (bits n : ℕ) : ℕ :=
  let q : ℤ := n - 1 - leading bits
  magnitude bits * 10 ^ q.toNat / (2 ^ 1074 * 10 ^ (-q).toNat)

/-- The one of two neighbouring numerals that is read back, and of both the nearer. -/
def nearer (bits m : ℕ) (q : ℤ) : Option ℕ :=
  let twice := (2 * m + 1) * 2 ^ 1074 * 10 ^ q.toNat
  let value := 2 * magnitude bits * 10 ^ (-q).toNat
  match readBack bits m q, readBack bits (m + 1) q with
  | true, true => some (if twice < value ∨ twice = value ∧ m % 2 = 1 then m + 1 else m)
  | true, false => some m
  | false, true => some (m + 1)
  | false, false => none

/-- The digits of the shortest numeral that is read back, and the exponent of the first. -/
def shortest (bits : ℕ) : List ℕ × ℤ :=
  let last (n : ℕ) : ℤ := leading bits - n + 1
  match (List.range 17).findSome? fun i =>
      (nearer bits (truncated bits (i + 1)) (last (i + 1))).map fun m => (decimal m, last (i + 1)) with
  | some (ds, q) => (ds, q + ds.length - 1)
  | none => (decimal (truncated bits 17), leading bits)

/-- `:erlang.float_to_binary(x, [:short])`: scientific notation from `2 ^ 53` on, and below it if that is the
shorter one. -/
def toBinary (x : Double) : Bytes :=
  let bits := x.bits % 2 ^ 63
  let sign := if x.bits / 2 ^ 63 = 1 then utf8 "-" else []
  if bits = 0 then sign ++ utf8 "0.0"
  else
    let (ds, k) := shortest bits
    let fraction (ds : List ℕ) := if ds = [] then utf8 "0" else digits ds
    let scientific := digits (ds.take 1) ++ utf8 "." ++ fraction (ds.drop 1) ++ utf8 "e" ++ integerToString k
    let whole := ds.take (k + 1).toNat ++ List.replicate ((k + 1).toNat - ds.length) 0
    let plain :=
      if k < 0 then utf8 "0." ++ digits (List.replicate (-k - 1).toNat 0 ++ ds)
      else digits whole ++ utf8 "." ++ fraction (ds.drop (k + 1).toNat)
    sign ++ if magnitude bits < 2 ^ 53 * 2 ^ 1074 ∧ plain.length ≤ scientific.length then plain else scientific

end Double

/-! ## digits that are read -/

theorem digitValue_ten {d : ℕ} (h : d < 10) : digitValue 10 (UInt8.ofNat (48 + d)) = some d := by
  have hn : (UInt8.ofNat (48 + d)).toNat = 48 + d := by
    rw [UInt8.toNat_ofNat', Nat.mod_eq_of_lt (by omega)]
  simp only [digitValue, hn, if_pos (show 48 ≤ 48 + d ∧ 48 + d ≤ 57 by omega), Nat.add_sub_cancel_left]
  exact if_pos h

theorem takeDigits_eq {base : ℕ} {b : Bytes} {ds : List ℕ} (h : b.mapM (digitValue base) = some ds) :
    takeDigits base b = (ds, []) := by
  induction b generalizing ds with
  | nil => simp_all [takeDigits]
  | cons x b ih =>
    rw [List.mapM_cons] at h
    obtain ⟨d, hd, h⟩ := Option.bind_eq_some_iff.1 h
    obtain ⟨ds', hds, h⟩ := Option.bind_eq_some_iff.1 h
    cases h
    simp [takeDigits, hd, ih hds]

theorem mapM_of_takeDigits {base : ℕ} {b : Bytes} {ds : List ℕ} (h : takeDigits base b = (ds, [])) :
    b.mapM (digitValue base) = some ds := by
  induction b generalizing ds with
  | nil => simp_all [takeDigits]
  | cons x b ih =>
    unfold takeDigits at h
    split at h
    · next v hv =>
      obtain ⟨rfl, hr⟩ := Prod.mk.inj h
      have := ih (Prod.ext rfl hr)
      simp [List.mapM_cons, hv, this]
    · cases h

theorem mapM_digits {ds : List ℕ} (h : ∀ d ∈ ds, d < 10) : (digits ds).mapM (digitValue 10) = some ds := by
  induction ds with
  | nil => rfl
  | cons d ds ih =>
    have hd := digitValue_ten (h d (by simp))
    have := ih fun x hx => h x (by simp [hx])
    simp_all [digits, List.mapM_cons]

/-- The bytes that are digits. -/
theorem isSome_of_mapM {base : ℕ} {b : Bytes} {ds : List ℕ} (h : b.mapM (digitValue base) = some ds) :
    ∀ x ∈ b, (digitValue base x).isSome := by
  induction b generalizing ds with
  | nil => simp
  | cons x b ih =>
    rw [List.mapM_cons] at h
    obtain ⟨d, hd, h⟩ := Option.bind_eq_some_iff.1 h
    obtain ⟨ds', hds, h⟩ := Option.bind_eq_some_iff.1 h
    rintro y hy
    rcases List.mem_cons.1 hy with rfl | hy
    · simp [hd]
    · exact ih hds y hy

theorem length_of_mapM {base : ℕ} {b : Bytes} {ds : List ℕ} (h : b.mapM (digitValue base) = some ds) :
    ds.length = b.length := by
  induction b generalizing ds with
  | nil => simp_all
  | cons x b ih =>
    rw [List.mapM_cons] at h
    obtain ⟨d, hd, h⟩ := Option.bind_eq_some_iff.1 h
    obtain ⟨ds', hds, h⟩ := Option.bind_eq_some_iff.1 h
    cases h
    simp [ih hds]

/-- A byte that is a digit in some base is not a sign. -/
theorem ne_sign_of_isSome {base : ℕ} {x : UInt8} (h : (digitValue base x).isSome) : x ≠ 43 ∧ x ≠ 45 := by
  refine ⟨?_, ?_⟩ <;> rintro rfl <;> simp [digitValue] at h

theorem signed_of_ne {x : UInt8} (h : x ≠ 43) (h' : x ≠ 45) (b : Bytes) : signed (x :: b) = (1, x :: b) := by
  unfold signed
  split
  · next he => exact absurd (List.cons.inj he).1 h
  · next he => exact absurd (List.cons.inj he).1 h'
  · rfl

/-- `Integer.parse` of digits alone. -/
theorem integerParse_of_mapM {base : ℕ} {b : Bytes} {ds : List ℕ} (h : b.mapM (digitValue base) = some ds)
    (hne : ds ≠ []) : integerParse base b = some ((ofDigits base ds : ℤ), []) := by
  cases b with
  | nil =>
    simp at h
    exact absurd h hne
  | cons x b =>
    obtain ⟨hx, hx'⟩ := ne_sign_of_isSome (isSome_of_mapM h x (by simp))
    simp [integerParse, signed_of_ne hx hx', takeDigits_eq h, hne]

/-- `Integer.parse` of a minus sign and digits. -/
theorem integerParse_minus {base : ℕ} {b : Bytes} {ds : List ℕ} (h : b.mapM (digitValue base) = some ds)
    (hne : ds ≠ []) : integerParse base (45 :: b) = some (-(ofDigits base ds : ℤ), []) := by
  simp [integerParse, signed, takeDigits_eq h, hne]

/-- What `Integer.parse` reads to the end is digits, but for a sign. -/
theorem bytes_of_integerParse {base : ℕ} {b : Bytes} {v : ℤ} (h : integerParse base b = some (v, [])) :
    b ≠ [] ∧ ∀ x ∈ b, x = 43 ∨ x = 45 ∨ (digitValue base x).isSome := by
  simp only [integerParse] at h
  split at h <;> [cases h; skip]
  next hne =>
  have hrest : (takeDigits base (signed b).2).2 = [] := (Prod.mk.inj (Option.some.inj h)).2
  have hall := isSome_of_mapM (mapM_of_takeDigits (Prod.ext rfl hrest))
  have hb : b ≠ [] := by
    rintro rfl
    exact hne rfl
  refine ⟨hb, fun x hx => ?_⟩
  unfold signed at hall
  split at hall
  · rcases List.mem_cons.1 hx with rfl | hx
    · exact .inl rfl
    · exact .inr (.inr (hall x hx))
  · rcases List.mem_cons.1 hx with rfl | hx
    · exact .inr (.inl rfl)
    · exact .inr (.inr (hall x hx))
  · exact .inr (.inr (hall x hx))

theorem digitValue_lt {base : ℕ} {x : UInt8} {v : ℕ} (h : digitValue base x = some v) : v < base := by
  simp only [digitValue] at h
  generalize (if 48 ≤ x.toNat ∧ x.toNat ≤ 57 then x.toNat - 48
    else if 97 ≤ x.toNat ∧ x.toNat ≤ 122 then x.toNat - 87
    else if 65 ≤ x.toNat ∧ x.toNat ≤ 90 then x.toNat - 55 else base) = d at h
  split at h <;> [skip; cases h]
  next hd =>
  obtain rfl := Option.some.inj h
  exact hd

theorem takeDigits_spec (base : ℕ) (b : Bytes) :
    (takeDigits base b).1.length ≤ b.length ∧ ∀ d ∈ (takeDigits base b).1, d < base := by
  induction b with
  | nil => simp [takeDigits]
  | cons x b ih =>
    unfold takeDigits
    split
    · next v hv =>
      refine ⟨by simpa using ih.1, fun d hd => ?_⟩
      rcases List.mem_cons.1 hd with rfl | hd
      · exact digitValue_lt hv
      · exact ih.2 d hd
    · simp

theorem ofDigits_lt {base : ℕ} {ds : List ℕ} (h : ∀ d ∈ ds, d < base) : ofDigits base ds < base ^ ds.length := by
  have key : ∀ acc, ds.foldl (fun acc d => acc * base + d) acc < (acc + 1) * base ^ ds.length := by
    induction ds with
    | nil => simp
    | cons d ds ih =>
      intro acc
      have hd := h d (by simp)
      have := ih (fun x hx => h x (by simp [hx])) (acc * base + d)
      rw [List.foldl_cons, List.length_cons, Nat.pow_succ]
      calc _ < (acc * base + d + 1) * base ^ ds.length := this
        _ ≤ ((acc + 1) * base) * base ^ ds.length := by
          apply Nat.mul_le_mul_right
          rw [Nat.add_mul]
          omega
        _ = (acc + 1) * (base ^ ds.length * base) := by rw [Nat.mul_assoc, Nat.mul_comm base]
  simpa [ofDigits] using key 0

/-- A numeral of some bytes is less than the power of the base. -/
theorem integerParse_lt {base : ℕ} {b r : Bytes} {v : ℤ} (hb : 0 < base) (h : integerParse base b = some (v, r)) :
    v < (base : ℤ) ^ b.length := by
  simp only [integerParse] at h
  split at h <;> [cases h; skip]
  have hv : v = (signed b).1 * ofDigits base (takeDigits base (signed b).2).1 :=
    (Prod.mk.inj (Option.some.inj h)).1.symm
  obtain ⟨hl, hd⟩ := takeDigits_spec base (signed b).2
  have hlen : (signed b).2.length ≤ b.length := by
    unfold signed
    split <;> simp
  have hlt : ofDigits base (takeDigits base (signed b).2).1 < base ^ b.length :=
    Nat.lt_of_lt_of_le (ofDigits_lt hd) (Nat.pow_le_pow_right hb (by omega))
  have hsign : (signed b).1 = 1 ∨ (signed b).1 = -1 := by
    unfold signed
    split <;> simp
  have hlt' : (ofDigits base (takeDigits base (signed b).2).1 : ℤ) < (base : ℤ) ^ b.length := by exact_mod_cast hlt
  rcases hsign with hs | hs <;> rw [hv, hs] <;> omega

/-! ## digits that are written -/

theorem decimal_lt (n : ℕ) : ∀ d ∈ decimal n, d < 10 := by
  intro d hd
  unfold decimal at hd
  split at hd
  · simp_all
  · exact Nat.digits_lt_base (by decide) (List.mem_reverse.1 hd)

theorem decimal_ne_nil (n : ℕ) : decimal n ≠ [] := by
  unfold decimal
  split
  · simp
  · next h => simpa [Nat.digits_eq_nil_iff_eq_zero] using h

theorem decimal_head (n : ℕ) (h : (decimal n).head? = some 0) : decimal n = [0] := by
  unfold decimal at h ⊢
  split
  · rfl
  · next hn =>
    rw [if_neg hn, List.head?_reverse] at h
    have hne : Nat.digits 10 n ≠ [] := by simpa [Nat.digits_eq_nil_iff_eq_zero] using hn
    rw [List.getLast?_eq_some_getLast hne] at h
    exact absurd (Option.some.inj h) (Nat.getLast_digit_ne_zero 10 hn)

theorem ofDigits_decimal (n : ℕ) : ofDigits 10 (decimal n) = n := by
  unfold decimal ofDigits
  split
  · next h => simp [h]
  · rw [List.foldl_reverse]
    conv_rhs => rw [← Nat.ofDigits_digits 10 n]
    rw [Nat.ofDigits_eq_foldr]
    congr 1
    funext d acc
    rw [Nat.mul_comm, Nat.add_comm]
    rfl

theorem lt_of_mapM {b : Bytes} {base : ℕ} {ds : List ℕ} (h : b.mapM (digitValue base) = some ds) :
    ∀ d ∈ ds, d < base := by
  have htake := (takeDigits_spec base b).2
  rw [takeDigits_eq h] at htake
  exact htake

/-- Digits without a leading zero are those their value is written with. -/
theorem decimal_ofDigits {ds : List ℕ} (h : ∀ d ∈ ds, d < 10) (hne : ds ≠ [])
    (hhead : ds.head? = some 0 → ds = [0]) : decimal (ofDigits 10 ds) = ds := by
  by_cases hzero : ds.head? = some 0
  · rw [hhead hzero]
    rfl
  have hvalue : ofDigits 10 ds = Nat.ofDigits 10 ds.reverse := by
    rw [Nat.ofDigits_eq_foldr, List.foldr_reverse]
    unfold ofDigits
    congr 1
    funext acc d
    rw [Nat.mul_comm, Nat.add_comm]
    rfl
  have hdigits : Nat.digits 10 (ofDigits 10 ds) = ds.reverse := by
    rw [hvalue]
    refine Nat.digits_ofDigits 10 (by decide) _ (fun d hd => h d (List.mem_reverse.1 hd)) fun hr => ?_
    rw [List.getLast_reverse]
    intro hd
    rw [List.head?_eq_some_head hne, hd] at hzero
    exact hzero rfl
  unfold decimal
  rw [hdigits, List.reverse_reverse, if_neg]
  intro h0
  rw [h0, Nat.digits_zero] at hdigits
  exact hne (List.reverse_eq_nil_iff.1 hdigits.symm)

theorem digit_of_digitValue {b : UInt8} {d : ℕ} (h : digitValue 10 b = some d) : UInt8.ofNat (48 + d) = b := by
  have hvalue : 48 + d = b.toNat := by
    simp only [digitValue] at h
    grind
  rw [hvalue, UInt8.ofNat_toNat]

/-- The bytes of digits are those the digits are written with. -/
theorem digits_of_mapM {b : Bytes} {ds : List ℕ} (h : b.mapM (digitValue 10) = some ds) : digits ds = b := by
  induction b generalizing ds with
  | nil =>
    obtain rfl : ds = [] := by simpa using h.symm
    rfl
  | cons x b ih =>
    rw [List.mapM_cons] at h
    obtain ⟨d, hd, h⟩ := Option.bind_eq_some_iff.1 h
    obtain ⟨ds', hds, h⟩ := Option.bind_eq_some_iff.1 h
    obtain rfl := Option.some.inj h
    rw [digits, List.map_cons, digit_of_digitValue hd, ← digits, ih hds]

end Loopex.Erlang
