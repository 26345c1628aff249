import Mathlib.Data.Nat.Notation
import Mathlib.Data.Int.Notation
import Mathlib.Tactic.Common

/-!
# Binary search for the last success

A probe answers at an index or fails there.  The search halves the window and keeps the last answer it got; if the
probe never answers behind an index of the window where it fails, that is the answer at the last index that has one.

* `lastSuccess` — the search
* `lastSuccess_spec` — its answer is the probe's at the last index, or the probe fails at every index
-/

namespace Loopex.System

variable {β : Type}

/-- The search in the window from `low` to `high`; `best` is the last answer so far. -/
def lastSuccess (probe : ℕ → Option β) (low high : ℤ) (best : Option β) : Option β :=
  if high < low then best
  else
    let middle := (low + high) / 2
    match probe middle.toNat with
    | some b => lastSuccess probe (middle + 1) high (some b)
    | none => lastSuccess probe low (middle - 1) best
termination_by (high + 1 - low).toNat

/-- What the search knows: the probe fails behind the window, and the last answer is the one in front of it. -/
structure Searching (probe : ℕ → Option β) (n : ℕ) (low high : ℤ) (best : Option β) : Prop where
  pos : 0 ≤ low
  le : low ≤ high + 1
  bound : high ≤ n
  fails : ∀ j : ℕ, high < j → j ≤ n → probe j = none
  first : low = 0 → best = none
  found : ∀ i : ℕ, low = i + 1 → best = probe i ∧ (probe i).isSome

variable {probe : ℕ → Option β} {n : ℕ} {low high : ℤ} {best : Option β}

/-- The answer at the last index, or none. -/
def IsLast (probe : ℕ → Option β) (n : ℕ) (b : Option β) : Prop :=
  (b = none ∧ ∀ j ≤ n, probe j = none) ∨
    ∃ i ≤ n, b = probe i ∧ (probe i).isSome ∧ ∀ j, i < j → j ≤ n → probe j = none

theorem Searching.done (h : Searching probe n low high best) (hdone : high < low) : IsLast probe n best := by
  have hpos := h.pos
  have hle := h.le
  have hbound := h.bound
  obtain ⟨i, rfl⟩ := Int.eq_ofNat_of_zero_le hpos
  rcases Nat.eq_zero_or_pos i with rfl | hi
  · exact .inl ⟨h.first rfl, fun j hj => h.fails j (by omega) hj⟩
  · obtain ⟨hbest, hsome⟩ := h.found (i - 1) (by omega)
    exact .inr ⟨i - 1, by omega, hbest, hsome, fun j hj hjn => h.fails j (by omega) hjn⟩

theorem lastSuccess_isLast (hmono : ∀ i j, i ≤ j → j ≤ n → (probe j).isSome → (probe i).isSome)
    (h : Searching probe n low high best) : IsLast probe n (lastSuccess probe low high best) := by
  induction low, high, best using lastSuccess.induct probe with
  | case1 low high best hdone =>
    rw [lastSuccess, if_pos hdone]
    exact h.done hdone
  | case2 low high best hgo middle b hprobe ih =>
    have hpos := h.pos
    have hle := h.le
    have hbound := h.bound
    have hmiddle : middle = (low + high) / 2 := rfl
    rw [lastSuccess, if_neg hgo]
    dsimp only
    rw [← hmiddle, hprobe]
    refine ih ⟨by omega, by omega, hbound, h.fails, fun hzero => by omega, fun i hi => ?_⟩
    obtain rfl : middle.toNat = i := by omega
    rw [hprobe]
    exact ⟨rfl, rfl⟩
  | case3 low high best hgo middle hprobe ih =>
    have hpos := h.pos
    have hle := h.le
    have hbound := h.bound
    have hmiddle : middle = (low + high) / 2 := rfl
    rw [lastSuccess, if_neg hgo]
    dsimp only
    rw [← hmiddle, hprobe]
    refine ih ⟨hpos, by omega, by omega, fun j hj hjn => ?_, h.first, h.found⟩
    by_contra hsome
    have hback := hmono middle.toNat j (by omega) hjn (Option.isSome_iff_ne_none.2 hsome)
    rw [hprobe] at hback
    cases hback

/-- **The search finds the last success**, if the probe does not answer behind a failure. -/
theorem lastSuccess_spec (hmono : ∀ i j, i ≤ j → j ≤ n → (probe j).isSome → (probe i).isSome) :
    IsLast probe n (lastSuccess probe 0 n none) :=
  lastSuccess_isLast hmono ⟨by omega, by omega, by omega, fun j hj hjn => by omega, fun _ => rfl, fun i hi => by omega⟩

end Loopex.System
