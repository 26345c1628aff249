import Loopex.Erlang.ExternalFormat

/-!
# The width of an integer

How many bytes a count takes in the external term format, and why a term that states its own size can be
written: the stated size widens by a few bytes where it crosses a width, and no width is crossed twice.

* `intWidth`, `encodeInt_length` — the width of a count;
* `restated` — the size of a term that states the size `n`;
* `restated_fixed` — stated three times over from zero, the size is true.
-/

namespace Loopex.Erlang

/-- The bytes of a magnitude, counted. -/
def byteCount (n : ℕ) : ℕ := (Nat.digits 256 n).length

/-- The width of a large integer of `d` bytes. -/
def bigWidth (d : ℕ) : ℕ := if d < 256 then 3 + d else 6 + d

/-- The bytes that the count `n` takes. -/
def intWidth (n : ℕ) : ℕ :=
  if n < 256 then 2
  else if n < 2 ^ 31 then 5
  else bigWidth (byteCount n)

theorem encodeInt_length (n : ℕ) : (encodeInt n).length = intWidth n := by
  have hm : (magnitude (n : ℤ).natAbs).length = byteCount n := by
    rw [magnitude, List.length_map, Int.natAbs_natCast, byteCount]
  have h8 : (0 ≤ (n : ℤ) ∧ (n : ℤ) < 256) ↔ n < 256 := by omega
  have h32 : (-2 ^ 31 ≤ (n : ℤ) ∧ (n : ℤ) < 2 ^ 31) ↔ n < 2 ^ 31 := by omega
  simp only [encodeInt, intWidth, bigWidth, h8, h32, hm]
  split
  · rfl
  · split
    · simp
    · split
      · simp only [List.length_cons, hm]
        omega
      · simp only [List.length_cons, List.length_append, be_length, hm]
        omega

theorem byteCount_le_iff {n d : ℕ} : byteCount n ≤ d ↔ n < 256 ^ d :=
  Nat.digits_length_le_iff (by decide) n

theorem byteCount_mono {m n : ℕ} (h : m ≤ n) : byteCount m ≤ byteCount n :=
  byteCount_le_iff.2 (lt_of_le_of_lt h (byteCount_le_iff.1 le_rfl))

theorem bigWidth_le (d : ℕ) : bigWidth d ≤ d + 6 := by
  unfold bigWidth
  split <;> omega

theorem bigWidth_succ_le (d : ℕ) : bigWidth (d + 1) ≤ bigWidth d + 4 := by
  unfold bigWidth
  split <;> split <;> omega

theorem two_le_intWidth (n : ℕ) : 2 ≤ intWidth n := by
  unfold intWidth bigWidth
  split
  · omega
  · split
    · omega
    · split <;> omega

/-- A magnitude and as many more as its bytes, and eight: at most one byte more. -/
theorem byteCount_add_le (n : ℕ) {m : ℕ} (h : m ≤ n + byteCount n + 8) : byteCount m ≤ byteCount n + 1 := by
  have hn : n < 256 ^ byteCount n := byteCount_le_iff.1 le_rfl
  have hd : byteCount n < 256 ^ byteCount n := Nat.lt_pow_self (by decide)
  refine byteCount_le_iff.2 ?_
  rw [Nat.pow_succ]
  omega

/-! ## stating a size -/

/-- The size of a term that is `base` bytes without the count it states. -/
def restated (base n : ℕ) : ℕ := base + intWidth n

/-- Past the 32-bit integers a size is true once it has been stated twice. -/
theorem restated_big {base a : ℕ} (ha : 2 ^ 31 ≤ a) (hbase : a = base + 2) :
    intWidth (restated base (restated base a)) = intWidth (restated base a) := by
  have hwidth : ∀ n, 2 ^ 31 ≤ n → intWidth n = bigWidth (byteCount n) := by
    intro n hn
    rw [intWidth, if_neg (by omega), if_neg (by omega)]
  have hle := bigWidth_le (byteCount a)
  have hb : restated base a = base + bigWidth (byteCount a) := by rw [restated, hwidth a ha]
  have hab : a ≤ restated base a := by
    have := two_le_intWidth a
    rw [restated]
    omega
  have hbig : 2 ^ 31 ≤ restated base a := ha.trans hab
  have hc : restated base (restated base a) = base + bigWidth (byteCount (restated base a)) := by
    rw [restated, hwidth _ hbig]
  have hup : byteCount a ≤ byteCount (restated base a) := byteCount_mono hab
  have hone : byteCount (restated base a) ≤ byteCount a + 1 := byteCount_add_le a (by omega)
  rcases Nat.lt_or_ge (byteCount a) (byteCount (restated base a)) with hlt | hge
  · -- one byte more than `a`, and the next size has no more
    have heq : byteCount (restated base a) = byteCount a + 1 := by omega
    have hstep := bigWidth_succ_le (byteCount a)
    have hstep' : bigWidth (byteCount a) ≤ bigWidth (byteCount a + 1) := by
      unfold bigWidth
      split <;> split <;> omega
    rw [heq] at hc
    have hle' : byteCount (restated base (restated base a)) ≤ byteCount a + 1 :=
      byteCount_add_le a (by omega)
    have hge' : byteCount (restated base a) ≤ byteCount (restated base (restated base a)) :=
      byteCount_mono (by omega)
    rw [hwidth _ (by omega), hwidth _ hbig, show byteCount _ = byteCount (restated base a) by omega]
  · have heq : byteCount (restated base a) = byteCount a := by omega
    rw [hc, heq, ← hb]

/-- **A size stated three times over is true.** -/
theorem restated_fixed (base : ℕ) :
    restated base (restated base (restated base (restated base 0))) =
      restated base (restated base (restated base 0)) := by
  have h0 : restated base 0 = base + 2 := rfl
  refine congrArg (base + ·) ?_
  rw [h0]
  rcases Nat.lt_or_ge (base + 2) 256 with h8 | h8
  · have h1 : restated base (base + 2) = base + 2 := by rw [restated, intWidth, if_pos h8]
    rw [h1, h1]
  rcases Nat.lt_or_ge (base + 2) (2 ^ 31) with h32 | h32
  · have h1 : restated base (base + 2) = base + 5 := by
      rw [restated, intWidth, if_neg (by omega), if_pos h32]
    rw [h1]
    rcases Nat.lt_or_ge (base + 5) (2 ^ 31) with hb | hb
    · have h2 : restated base (base + 5) = base + 5 := by
        rw [restated, intWidth, if_neg (by omega), if_pos hb]
      rw [h2]
    · -- the size crosses into the large integers, where it takes four bytes
      have hfour : ∀ n, 2 ^ 31 ≤ n → n < 2 ^ 32 → intWidth n = 7 := by
        intro n hn hn'
        have hle : byteCount n ≤ 4 := byteCount_le_iff.2 (by omega)
        have hgt : ¬ byteCount n ≤ 3 := by
          rw [byteCount_le_iff]
          omega
        rw [intWidth, if_neg (by omega), if_neg (by omega), show byteCount n = 4 by omega]
        rfl
      rw [restated, hfour (base + 5) hb (by omega), hfour _ (by omega) (by omega)]
  · exact restated_big h32 rfl

end Loopex.Erlang
