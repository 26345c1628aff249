import Loopex.Erlang.Term

/-!
# UTF-8

The UTF-8 type of the bit syntax: writing a code point, reading one off the head of some bytes, and the
binaries that are sequences of code points.

* `Scalar`, `utf8Encode`, `utf8Decode` — the code points, `<<c::utf8>>` as a value and as a pattern;
* `utf8Decode_encode`, `utf8Decode_eq_some` — each reads what the other writes, and nothing else;
* `validUtf8` — `String.valid?`; `validText_eq` — the same, by a recursion that evaluates.
-/

namespace Loopex.Erlang

/-- A code point that is not a surrogate. -/
def Scalar (c : ℕ) : Prop := c < 0xD800 ∨ (0xDFFF < c ∧ c < 0x110000)

instance (c : ℕ) : Decidable (Scalar c) := inferInstanceAs (Decidable (_ ∨ _))

/-- `<<c::utf8>>`. -/
def utf8Encode (c : ℕ) : Bytes :=
  if c < 0x80 then [UInt8.ofNat c]
  else if c < 0x800 then [UInt8.ofNat (0xC0 + c / 64), UInt8.ofNat (0x80 + c % 64)]
  else if c < 0x10000 then
    [UInt8.ofNat (0xE0 + c / 4096), UInt8.ofNat (0x80 + c / 64 % 64), UInt8.ofNat (0x80 + c % 64)]
  else
    [UInt8.ofNat (0xF0 + c / 262144), UInt8.ofNat (0x80 + c / 4096 % 64), UInt8.ofNat (0x80 + c / 64 % 64),
      UInt8.ofNat (0x80 + c % 64)]

/-- The six bits of a continuation byte. -/
def continuation (b : UInt8) : Option ℕ :=
  if 0x80 ≤ b.toNat ∧ b.toNat < 0xC0 then some (b.toNat - 0x80) else none

/-- The code point `c`, if it is one and is not written longer than it has to be. -/
def scalarFrom (least c : ℕ) (rest : Bytes) : Option (ℕ × Bytes) :=
  if least ≤ c ∧ Scalar c then some (c, rest) else none

/-- The match of `<<c::utf8, rest::binary>>`. -/
def utf8Decode : Bytes → Option (ℕ × Bytes)
  | [] => none
  | a :: r =>
    if a.toNat < 0x80 then some (a.toNat, r)
    else if a.toNat < 0xC0 then none
    else if a.toNat < 0xE0 then
      match r with
      | b :: r => do
        let x ← continuation b
        scalarFrom 0x80 ((a.toNat - 0xC0) * 64 + x) r
      | [] => none
    else if a.toNat < 0xF0 then
      match r with
      | b :: c :: r => do
        let x ← continuation b
        let y ← continuation c
        scalarFrom 0x800 ((a.toNat - 0xE0) * 4096 + x * 64 + y) r
      | _ => none
    else
      match r with
      | b :: c :: d :: r => do
        let x ← continuation b
        let y ← continuation c
        let z ← continuation d
        scalarFrom 0x10000 ((a.toNat - 0xF0) * 262144 + x * 4096 + y * 64 + z) r
      | _ => none

/-! ## what is written is read -/

theorem utf8Encode_ne_nil (c : ℕ) : utf8Encode c ≠ [] := by
  unfold utf8Encode
  (repeat' split) <;> simp

theorem continuation_ofNat {n : ℕ} (h : n < 64) : continuation (UInt8.ofNat (0x80 + n)) = some n := by
  have hn : (UInt8.ofNat (0x80 + n)).toNat = 0x80 + n := by
    rw [UInt8.toNat_ofNat', Nat.mod_eq_of_lt (by omega)]
  rw [continuation, hn, if_pos (by omega)]
  simp

theorem continuation_eq_some {b : UInt8} {n : ℕ} :
    continuation b = some n ↔ n < 64 ∧ b = UInt8.ofNat (0x80 + n) := by
  constructor
  · intro h
    unfold continuation at h
    split at h <;> [skip; cases h]
    next hb =>
    obtain rfl := Option.some.inj h
    refine ⟨by omega, ?_⟩
    rw [Nat.add_sub_cancel' hb.1, UInt8.ofNat_toNat]
  · rintro ⟨hn, rfl⟩
    exact continuation_ofNat hn

/-- The value of a leading byte. -/
theorem toNat_ofNat {n : ℕ} (h : n < 256) : (UInt8.ofNat n).toNat = n := by
  rw [UInt8.toNat_ofNat', Nat.mod_eq_of_lt h]

/-- What is read behind the leading byte of four. -/
theorem utf8Decode_four {a b c d : UInt8} {r : Bytes} (h : 0xF0 ≤ a.toNat) :
    utf8Decode (a :: b :: c :: d :: r) =
      (continuation b).bind fun x => (continuation c).bind fun y => (continuation d).bind fun z =>
        scalarFrom 0x10000 ((a.toNat - 0xF0) * 262144 + x * 4096 + y * 64 + z) r := by
  rw [utf8Decode, if_neg (by omega), if_neg (by omega), if_neg (by omega), if_neg (by omega)]
  rfl

/-- **A written code point is read back**, whatever follows it. -/
theorem utf8Decode_encode {c : ℕ} (hc : Scalar c) (r : Bytes) : utf8Decode (utf8Encode c ++ r) = some (c, r) := by
  have hmax : c < 0x110000 := by
    unfold Scalar at hc
    omega
  unfold utf8Encode
  split
  · next h =>
    have hn := toNat_ofNat (show c < 256 by omega)
    simp [utf8Decode, hn, h]
  split
  · next h1 h2 =>
    have hn := toNat_ofNat (show 0xC0 + c / 64 < 256 by omega)
    have hx := continuation_ofNat (show c % 64 < 64 by omega)
    have hv : (0xC0 + c / 64 - 0xC0) * 64 + c % 64 = c := by omega
    simp only [List.cons_append, List.nil_append, utf8Decode, hn, if_neg (show ¬ 0xC0 + c / 64 < 0x80 by omega),
      if_neg (show ¬ 0xC0 + c / 64 < 0xC0 by omega), if_pos (show 0xC0 + c / 64 < 0xE0 by omega), hx,
      Option.bind_eq_bind, Option.bind_some, hv]
    exact if_pos ⟨by omega, hc⟩
  split
  · next h1 h2 h3 =>
    have hn := toNat_ofNat (show 0xE0 + c / 4096 < 256 by omega)
    have hx := continuation_ofNat (show c / 64 % 64 < 64 by omega)
    have hy := continuation_ofNat (show c % 64 < 64 by omega)
    have hv : (0xE0 + c / 4096 - 0xE0) * 4096 + c / 64 % 64 * 64 + c % 64 = c := by omega
    simp only [List.cons_append, List.nil_append, utf8Decode, hn, if_neg (show ¬ 0xE0 + c / 4096 < 0x80 by omega),
      if_neg (show ¬ 0xE0 + c / 4096 < 0xC0 by omega), if_neg (show ¬ 0xE0 + c / 4096 < 0xE0 by omega),
      if_pos (show 0xE0 + c / 4096 < 0xF0 by omega), hx, hy, Option.bind_eq_bind, Option.bind_some, hv]
    exact if_pos ⟨by omega, hc⟩
  · next h1 h2 h3 =>
    have hn := toNat_ofNat (show 0xF0 + c / 262144 < 256 by omega)
    have hx := continuation_ofNat (show c / 4096 % 64 < 64 by omega)
    have hy := continuation_ofNat (show c / 64 % 64 < 64 by omega)
    have hz := continuation_ofNat (show c % 64 < 64 by omega)
    have hv : (0xF0 + c / 262144 - 0xF0) * 262144 + c / 4096 % 64 * 4096 + c / 64 % 64 * 64 + c % 64 = c := by
      omega
    change utf8Decode (_ :: _ :: _ :: _ :: r) = _
    rw [utf8Decode_four (by omega), hx, hy, hz, Option.bind_some, Option.bind_some, Option.bind_some, hn, hv]
    exact if_pos ⟨by omega, hc⟩

theorem scalarFrom_eq_some {least c c' : ℕ} {r r' : Bytes} (h : scalarFrom least c r = some (c', r')) :
    c' = c ∧ r' = r ∧ least ≤ c ∧ Scalar c := by
  unfold scalarFrom at h
  split at h <;> [skip; cases h]
  next hc =>
  cases h
  exact ⟨rfl, rfl, hc⟩

/-- **Only a written code point is read.** -/
theorem utf8Decode_eq_some {b : Bytes} {c : ℕ} {r : Bytes} (h : utf8Decode b = some (c, r)) :
    Scalar c ∧ b = utf8Encode c ++ r := by
  cases b with
  | nil => cases h
  | cons a b =>
    have hlt : a.toNat < 256 := a.toNat_lt
    have hlead : ∀ n, a.toNat = n → a = UInt8.ofNat n := fun n hn => by rw [← hn, UInt8.ofNat_toNat]
    simp only [utf8Decode] at h
    split at h
    · next h1 =>
      cases h
      exact ⟨.inl (by omega), by simp [utf8Encode, h1]⟩
    split at h
    · cases h
    split at h
    · next h1 h2 h3 =>
      split at h <;> [skip; cases h]
      next x b =>
      obtain ⟨x, hx, h⟩ := Option.bind_eq_some_iff.1 h
      obtain ⟨rfl, rfl, hle, hs⟩ := scalarFrom_eq_some h
      obtain ⟨hx', rfl⟩ := continuation_eq_some.1 hx
      refine ⟨hs, ?_⟩
      have e1 : a = UInt8.ofNat (0xC0 + ((a.toNat - 0xC0) * 64 + x) / 64) := hlead _ (by omega)
      have e2 : ((a.toNat - 0xC0) * 64 + x) % 64 = x := by omega
      rw [utf8Encode, if_neg (by omega), if_pos (by omega), ← e1, e2]
      rfl
    split at h
    · next h1 h2 h3 h4 =>
      split at h <;> [skip; cases h]
      obtain ⟨x, hx, h⟩ := Option.bind_eq_some_iff.1 h
      obtain ⟨y, hy, h⟩ := Option.bind_eq_some_iff.1 h
      obtain ⟨rfl, rfl, hle, hs⟩ := scalarFrom_eq_some h
      obtain ⟨hx', rfl⟩ := continuation_eq_some.1 hx
      obtain ⟨hy', rfl⟩ := continuation_eq_some.1 hy
      refine ⟨hs, ?_⟩
      have e1 : a = UInt8.ofNat (0xE0 + ((a.toNat - 0xE0) * 4096 + x * 64 + y) / 4096) := hlead _ (by omega)
      have e2 : ((a.toNat - 0xE0) * 4096 + x * 64 + y) / 64 % 64 = x := by omega
      have e3 : ((a.toNat - 0xE0) * 4096 + x * 64 + y) % 64 = y := by omega
      rw [utf8Encode, if_neg (by omega), if_neg (by omega), if_pos (by omega), ← e1, e2, e3]
      rfl
    · next h1 h2 h3 h4 =>
      split at h <;> [skip; cases h]
      obtain ⟨x, hx, h⟩ := Option.bind_eq_some_iff.1 h
      obtain ⟨y, hy, h⟩ := Option.bind_eq_some_iff.1 h
      obtain ⟨z, hz, h⟩ := Option.bind_eq_some_iff.1 h
      obtain ⟨rfl, rfl, hle, hs⟩ := scalarFrom_eq_some h
      obtain ⟨hx', rfl⟩ := continuation_eq_some.1 hx
      obtain ⟨hy', rfl⟩ := continuation_eq_some.1 hy
      obtain ⟨hz', rfl⟩ := continuation_eq_some.1 hz
      refine ⟨hs, ?_⟩
      have e1 : a = UInt8.ofNat (0xF0 + ((a.toNat - 0xF0) * 262144 + x * 4096 + y * 64 + z) / 262144) :=
        hlead _ (by omega)
      have e2 : ((a.toNat - 0xF0) * 262144 + x * 4096 + y * 64 + z) / 4096 % 64 = x := by omega
      have e3 : ((a.toNat - 0xF0) * 262144 + x * 4096 + y * 64 + z) / 64 % 64 = y := by omega
      have e4 : ((a.toNat - 0xF0) * 262144 + x * 4096 + y * 64 + z) % 64 = z := by omega
      rw [utf8Encode, if_neg (by omega), if_neg (by omega), if_neg (by omega), ← e1, e2, e3, e4]
      rfl

theorem utf8Decode_length {b : Bytes} {c : ℕ} {r : Bytes} (h : utf8Decode b = some (c, r)) :
    r.length < b.length := by
  obtain ⟨-, rfl⟩ := utf8Decode_eq_some h
  have := List.length_pos_iff.2 (utf8Encode_ne_nil c)
  rw [List.length_append]
  omega

/-! ## valid binaries -/

/-- `String.valid?`. -/
def validUtf8 (b : Bytes) : Bool :=
  match b with
  | [] => true
  | x :: xs =>
    match _h : utf8Decode (x :: xs) with
    | some (_, r) => validUtf8 r
    | none => false
termination_by b.length
decreasing_by exact utf8Decode_length _h

/-- `validUtf8` of at most so many characters. -/
def validWithin : ℕ → Bytes → Bool
  | _, [] => true
  | 0, _ :: _ => false
  | n + 1, x :: xs =>
    match utf8Decode (x :: xs) with
    | some (_, r) => validWithin n r
    | none => false

/-- `String.valid?`, by a recursion that evaluates. -/
def validText (b : Bytes) : Bool := validWithin b.length b

theorem validWithin_eq {n : ℕ} {b : Bytes} (h : b.length ≤ n) : validWithin n b = validUtf8 b := by
  induction n generalizing b with
  | zero =>
    rw [List.length_eq_zero_iff.1 (Nat.le_zero.1 h), validUtf8]
    rfl
  | succ n ih =>
    cases b with
    | nil =>
      rw [validUtf8]
      rfl
    | cons x xs =>
      rw [validWithin, validUtf8]
      split
      next c r hd =>
        have hlt := utf8Decode_length hd
        rw [ih (by omega)]
        split
        next c' r' hd' =>
          obtain ⟨-, rfl⟩ := Prod.mk.inj (Option.some.inj (hd.symm.trans hd'))
          rfl
        next hnone => cases hd.symm.trans hnone
      next hnone =>
        split
        next hd => cases hnone.symm.trans hd
        next => rfl

/-- **One `String.valid?`.** -/
theorem validText_eq (b : Bytes) : validText b = validUtf8 b := validWithin_eq (Nat.le_refl _)

/-- `text?`: a nonempty valid binary. -/
def isText : Term → Bool
  | .binary b => b ≠ [] && validText b
  | _ => false

/-- The bytes of some code points. -/
def utf8All (cs : List ℕ) : Bytes := cs.flatMap utf8Encode

@[simp] theorem utf8All_nil : utf8All [] = [] := rfl

@[simp] theorem utf8All_cons (c : ℕ) (cs : List ℕ) : utf8All (c :: cs) = utf8Encode c ++ utf8All cs := rfl

theorem utf8All_append (cs ds : List ℕ) : utf8All (cs ++ ds) = utf8All cs ++ utf8All ds := List.flatMap_append

theorem validUtf8_cons {c : ℕ} (hc : Scalar c) (r : Bytes) : validUtf8 (utf8Encode c ++ r) = validUtf8 r := by
  obtain ⟨x, xs, hx⟩ := List.exists_cons_of_ne_nil (utf8Encode_ne_nil c)
  have hd := utf8Decode_encode hc r
  rw [hx, List.cons_append] at hd ⊢
  rw [validUtf8]
  split
  · next c' r' h =>
    rw [hd] at h
    cases h
    rfl
  · next h =>
    rw [hd] at h
    cases h

/-- **The valid binaries** are the sequences of code points. -/
theorem validUtf8_iff {b : Bytes} : validUtf8 b = true ↔ ∃ cs, (∀ c ∈ cs, Scalar c) ∧ b = utf8All cs := by
  constructor
  · intro h
    induction hk : b.length using Nat.strongRecOn generalizing b with
    | ind k ih =>
      cases b with
      | nil => exact ⟨[], by simp, rfl⟩
      | cons x xs =>
        rw [validUtf8] at h
        split at h
        · next c r hd =>
          obtain ⟨cs, hcs, rfl⟩ := ih _ (hk ▸ utf8Decode_length hd) h rfl
          obtain ⟨hc, hb⟩ := utf8Decode_eq_some hd
          exact ⟨c :: cs, List.forall_mem_cons.2 ⟨hc, hcs⟩, hb⟩
        · cases h
  · rintro ⟨cs, hcs, rfl⟩
    induction cs with
    | nil => rw [utf8All_nil, validUtf8]
    | cons c cs ih =>
      obtain ⟨hc, hcs⟩ := List.forall_mem_cons.1 hcs
      rw [utf8All_cons, validUtf8_cons hc, ih hcs]

end Loopex.Erlang
