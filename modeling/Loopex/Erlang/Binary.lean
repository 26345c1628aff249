import Loopex.Erlang.Check
import Loopex.Erlang.Term

/-!
# Parts of a binary

`binary_part`, `:binary.split` at the first place a pattern stands, and texts of lines.

* `binaryPart_middle` — what is between a head and a tail of a binary
* `splitFirst_eq_some`, `splitFirst_append` — a binary is cut at a pattern, and at the first one
* `cutLine_eq_some` — the first line of a text
-/

namespace Loopex.Erlang

/-- `binary_part(b, start, length)`: a negative length takes bytes in front of the start. -/
def binaryPart {ε : Type} (b : Bytes) (start : ℕ) (length : ℤ) : Check ε Bytes :=
  if 0 ≤ length then
    if start + length.toNat ≤ b.length then .ok ((b.drop start).take length.toNat) else .raise .badArgument
  else if (-length).toNat ≤ start ∧ start ≤ b.length then
    .ok ((b.drop (start - (-length).toNat)).take (-length).toNat)
  else .raise .badArgument

/-- `:binary.split(b, pattern)`, where it answers two parts. -/
def splitFirst (pattern : Bytes) : Bytes → Option (Bytes × Bytes)
  | [] => if pattern = [] then some ([], []) else none
  | x :: xs =>
    if pattern.isPrefixOf (x :: xs) then some ([], (x :: xs).drop pattern.length)
    else (splitFirst pattern xs).map fun r => (x :: r.1, r.2)

/-- The first line of a text, and what follows its newline. -/
def cutLine : Bytes → Option (Bytes × Bytes)
  | [] => none
  | x :: xs => if x = 10 then some ([], xs) else (cutLine xs).map fun r => (x :: r.1, r.2)

/-- The lines of a text, each with its newline. -/
def unlines (lines : List Bytes) : Bytes := lines.flatMap fun line => line ++ [10]

variable {b x y pattern rest line : Bytes}

/-! ## parts -/

theorem binaryPart_of_le {ε : Type} {start length : ℕ} (h : start + length ≤ b.length) :
    (binaryPart b start length : Check ε Bytes) = .ok ((b.drop start).take length) := by
  rw [binaryPart, if_pos (Int.natCast_nonneg length), Int.toNat_natCast, if_pos h]

/-- What is between a head and a tail. -/
theorem binaryPart_middle {ε : Type} (x b y : Bytes) :
    (binaryPart (x ++ (b ++ y)) x.length ((x ++ (b ++ y)).length - x.length - y.length : ℤ) : Check ε Bytes) = .ok b := by
  have hlen : ((x ++ (b ++ y)).length - x.length - y.length : ℤ) = b.length := by
    simp only [List.length_append]
    omega
  rw [hlen, binaryPart_of_le (by simp), List.drop_left' rfl, List.take_left' rfl]

/-- A head and a tail that do not overlap. -/
theorem eq_append_middle (hx : x.isPrefixOf b = true) (hy : y.isSuffixOf b = true)
    (hlen : x.length + y.length ≤ b.length) : ∃ m, b = x ++ (m ++ y) := by
  obtain ⟨t, rfl⟩ := List.isPrefixOf_iff_prefix.1 hx
  obtain ⟨s, hs⟩ := List.isSuffixOf_iff_suffix.1 hy
  rw [List.length_append] at hlen
  have hsuffix : y <:+ t := by
    refine List.suffix_of_suffix_length_le ⟨s, hs⟩ (List.suffix_append x t) (by omega)
  obtain ⟨m, rfl⟩ := hsuffix
  exact ⟨m, rfl⟩

/-- The part behind a head and in front of a tail never raises; where the two overlap, it is short. -/
theorem binaryPart_cut {ε : Type} (hx : x.isPrefixOf b = true) (hy : y.isSuffixOf b = true)
    (hle : y.length ≤ x.length) : ∃ m, (binaryPart b x.length (b.length - x.length - y.length : ℤ) : Check ε Bytes) = .ok m ∧
      (b = x ++ (m ++ y) ∨ m.length ≤ y.length ∧ b.length < x.length + y.length) := by
  by_cases hlen : x.length + y.length ≤ b.length
  · obtain ⟨m, rfl⟩ := eq_append_middle hx hy hlen
    exact ⟨m, binaryPart_middle x m y, .inl rfl⟩
  · have hprefix := (List.isPrefixOf_iff_prefix.1 hx).length_le
    have hneg : ¬0 ≤ (b.length - x.length - y.length : ℤ) := by omega
    have hin : (-(b.length - x.length - y.length : ℤ)).toNat ≤ x.length ∧ x.length ≤ b.length := by omega
    refine ⟨_, by rw [binaryPart, if_neg hneg, if_pos hin], .inr ⟨?_, by omega⟩⟩
    rw [List.length_take]
    omega

/-! ## patterns -/

theorem splitFirst_eq_some (h : splitFirst pattern b = some (x, y)) : b = x ++ (pattern ++ y) := by
  induction b generalizing x with
  | nil =>
    simp only [splitFirst] at h
    split at h <;> [skip; cases h]
    next hp =>
    cases h
    rw [hp]
    rfl
  | cons c b ih =>
    simp only [splitFirst] at h
    split at h
    next hprefix =>
      cases h
      obtain ⟨t, ht⟩ := List.isPrefixOf_iff_prefix.1 hprefix
      rw [← ht, List.drop_left' rfl]
      rfl
    next =>
      obtain ⟨r, hr, heq⟩ := Option.map_eq_some_iff.1 h
      cases heq
      rw [ih hr]
      rfl

/-- The first place of a pattern is behind bytes that it does not begin with. -/
theorem splitFirst_append {c : UInt8} {tail : Bytes} (hc : c ∉ x) :
    splitFirst (c :: tail) (x ++ (c :: tail ++ y)) = some (x, y) := by
  induction x with
  | nil =>
    rw [List.nil_append, List.cons_append, splitFirst, if_pos]
    · rw [List.length_cons, List.drop_succ_cons, List.drop_left' rfl]
    · exact List.isPrefixOf_iff_prefix.2 (List.prefix_append _ _)
  | cons d x ih =>
    have hne : d ≠ c := fun h => hc (by simp [h])
    rw [List.cons_append, splitFirst, if_neg, ih fun h => hc (by simp [h])]
    · rfl
    · intro h
      obtain ⟨t, ht⟩ := List.isPrefixOf_iff_prefix.1 h
      rw [List.cons_append] at ht
      exact hne (List.cons.inj ht).1.symm

/-! ## lines -/

theorem cutLine_eq_some (h : cutLine b = some (line, rest)) : 10 ∉ line ∧ b = line ++ 10 :: rest := by
  induction b generalizing line with
  | nil => cases h
  | cons c b ih =>
    simp only [cutLine] at h
    split at h
    next hc =>
      cases h
      exact ⟨by simp, by rw [hc]; rfl⟩
    next hc =>
      obtain ⟨r, hr, heq⟩ := Option.map_eq_some_iff.1 h
      cases heq
      obtain ⟨hline, hb⟩ := ih hr
      exact ⟨by simp [hline, Ne.symm hc], by rw [hb]; rfl⟩

theorem cutLine_append (h : 10 ∉ line) : cutLine (line ++ 10 :: rest) = some (line, rest) := by
  induction line with
  | nil => simp [cutLine]
  | cons c line ih =>
    have hc : c ≠ 10 := fun heq => h (by simp [heq])
    rw [List.cons_append, cutLine, if_neg hc, ih fun hm => h (by simp [hm])]
    rfl

@[simp] theorem unlines_nil : unlines [] = [] := rfl

@[simp] theorem unlines_cons (line : Bytes) (lines : List Bytes) :
    unlines (line :: lines) = line ++ 10 :: unlines lines := by
  simp [unlines]

theorem unlines_append (ls ms : List Bytes) : unlines (ls ++ ms) = unlines ls ++ unlines ms := List.flatMap_append

theorem splitFirst_length (h : splitFirst pattern b = some (x, y)) : pattern.length ≤ b.length := by
  rw [splitFirst_eq_some h]
  simp only [List.length_append]
  omega

end Loopex.Erlang
