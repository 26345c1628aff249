import Loopex.Erlang.Utf8

/-!
# The characters of a binary

A binary cut at a byte may end within a character.

* `charactersToBinary`, `codepoints` — `:unicode.characters_to_binary` and `String.codepoints`
* `utf8All_cancel` — the characters of a valid binary are unique
* `boundary_iff` — a valid binary is valid up to a byte exactly if a character ends there
* `charactersToBinary_take` — the whole characters in front of a byte
* `cut_cases` — a cut is at the end of a character, or in front of a continuation
-/

namespace Loopex.Erlang

/-- What `:unicode.characters_to_binary` makes of a binary. -/
inductive Characters where
  | text (t : Bytes)
  | incomplete (t rest : Bytes)
  | error (t rest : Bytes)
  deriving DecidableEq

/-- More characters in front of some. -/
def Characters.after (t : Bytes) : Characters → Characters
  | .text t' => .text (t ++ t')
  | .incomplete t' rest => .incomplete (t ++ t') rest
  | .error t' rest => .error (t ++ t') rest

/-- A leading byte with fewer bytes behind it than it announces. -/
def incompleteTail : Bytes → Bool
  | [] => false
  | a :: r =>
    let n := a.toNat
    (0xC0 ≤ n && n < 0xE0 && r.length < 1) || (0xE0 ≤ n && n < 0xF0 && r.length < 2) ||
      (0xF0 ≤ n && n < 0xF8 && r.length < 3)

/-- `:unicode.characters_to_binary(b, :utf8, :utf8)`. -/
def charactersToBinary (b : Bytes) : Characters :=
  match _h : utf8Decode b with
  | some (c, rest) => (charactersToBinary rest).after (utf8Encode c)
  | none => if b = [] then .text [] else if incompleteTail b then .incomplete [] b else .error [] b
termination_by b.length
decreasing_by exact utf8Decode_length _h

/-- `String.codepoints`: a byte that starts no character stands alone. -/
def codepoints (b : Bytes) : List Bytes :=
  match b with
  | [] => []
  | x :: xs =>
    match _h : utf8Decode (x :: xs) with
    | some (c, rest) => utf8Encode c :: codepoints rest
    | none => [x] :: codepoints xs
termination_by b.length
decreasing_by
  · exact utf8Decode_length _h
  · simp

variable {c : ℕ} {cs ds : List ℕ} {b t : Bytes} {n : ℕ}

/-! ## characters -/

theorem utf8All_take_drop (cs : List ℕ) (i : ℕ) : utf8All cs = utf8All (cs.take i) ++ utf8All (cs.drop i) := by
  rw [← utf8All_append, List.take_append_drop]

theorem utf8Decode_nil : utf8Decode [] = none := rfl

theorem valid_utf8All (h : ∀ c ∈ cs, Scalar c) : validUtf8 (utf8All cs) = true := validUtf8_iff.2 ⟨cs, h, rfl⟩

theorem validUtf8_append {a b : Bytes} (ha : validUtf8 a = true) (hb : validUtf8 b = true) :
    validUtf8 (a ++ b) = true := by
  obtain ⟨cs, hcs, rfl⟩ := validUtf8_iff.1 ha
  obtain ⟨ds, hds, rfl⟩ := validUtf8_iff.1 hb
  rw [← utf8All_append]
  refine valid_utf8All fun c hc => ?_
  exact (List.mem_append.1 hc).elim (hcs c) (hds c)

/-- The characters in front of a binary are those of the whole. -/
theorem utf8All_cancel (hcs : ∀ c ∈ cs, Scalar c) (hds : ∀ c ∈ ds, Scalar c) (h : utf8All cs = utf8All ds ++ t) :
    ∃ es, cs = ds ++ es ∧ t = utf8All es := by
  induction ds generalizing cs with
  | nil => exact ⟨cs, rfl, h.symm⟩
  | cons d ds ih =>
    obtain ⟨hd, hds'⟩ := List.forall_mem_cons.1 hds
    rw [utf8All_cons, List.append_assoc] at h
    have hread := utf8Decode_encode hd (utf8All ds ++ t)
    rcases cs with _ | ⟨c, cs⟩
    · rw [← h] at hread
      cases hread
    · obtain ⟨hc, hcs'⟩ := List.forall_mem_cons.1 hcs
      rw [← h, utf8All_cons, utf8Decode_encode hc] at hread
      obtain ⟨rfl, hrest⟩ := Prod.mk.inj (Option.some.inj hread)
      obtain ⟨es, rfl, ht⟩ := ih hcs' hds' hrest
      exact ⟨es, rfl, ht⟩

/-- A valid binary is valid up to a byte exactly if a character ends there. -/
theorem boundary_iff (hcs : ∀ c ∈ cs, Scalar c) (hn : n ≤ (utf8All cs).length) :
    validUtf8 ((utf8All cs).take n) = true ↔ ∃ i ≤ cs.length, n = (utf8All (cs.take i)).length := by
  constructor
  · intro h
    obtain ⟨ds, hds, htake⟩ := validUtf8_iff.1 h
    have hsplit : utf8All cs = utf8All ds ++ (utf8All cs).drop n := by rw [← htake, List.take_append_drop]
    obtain ⟨es, rfl, -⟩ := utf8All_cancel hcs hds hsplit
    refine ⟨ds.length, by simp, ?_⟩
    rw [List.take_left, ← htake, List.length_take]
    omega
  · rintro ⟨i, -, rfl⟩
    rw [utf8All_take_drop cs i, List.take_left]
    exact valid_utf8All fun c hc => hcs c (List.mem_of_mem_take hc)

theorem take_utf8All (cs : List ℕ) (i : ℕ) :
    (utf8All cs).take (utf8All (cs.take i)).length = utf8All (cs.take i) := by
  rw [utf8All_take_drop cs i, List.take_left]

/-! ## whole characters -/

theorem charactersToBinary_cons (hc : Scalar c) (b : Bytes) :
    charactersToBinary (utf8Encode c ++ b) = (charactersToBinary b).after (utf8Encode c) := by
  have hd := utf8Decode_encode hc b
  rw [charactersToBinary]
  split
  next c' rest h =>
    obtain ⟨rfl, rfl⟩ := Prod.mk.inj (Option.some.inj (hd.symm.trans h))
    rfl
  next h =>
    rw [hd] at h
    cases h

/-- A character that is cut announces more bytes than it has. -/
theorem incompleteTail_take (hc : Scalar c) (hpos : 0 < n) (hlt : n < (utf8Encode c).length) :
    incompleteTail ((utf8Encode c).take n) = true := by
  have hmax : c < 0x110000 := by
    unfold Scalar at hc
    omega
  revert hlt
  unfold utf8Encode
  split
  · intro hlt
    simp only [List.length_singleton] at hlt
    omega
  split
  · intro hlt
    simp only [List.length_cons, List.length_nil] at hlt
    obtain rfl : n = 1 := by omega
    have hlead := toNat_ofNat (show 0xC0 + c / 64 < 256 by omega)
    simp only [List.take, incompleteTail, hlead, List.length_nil]
    simp
    omega
  split
  · intro hlt
    simp only [List.length_cons, List.length_nil] at hlt
    have hlead := toNat_ofNat (show 0xE0 + c / 4096 < 256 by omega)
    obtain ⟨m, rfl⟩ := Nat.exists_eq_succ_of_ne_zero (show n ≠ 0 by omega)
    simp only [List.take_succ_cons, incompleteTail, hlead, List.length_take, List.length_cons, List.length_nil]
    simp
    omega
  · intro hlt
    simp only [List.length_cons, List.length_nil] at hlt
    have hlead := toNat_ofNat (show 0xF0 + c / 262144 < 256 by omega)
    obtain ⟨m, rfl⟩ := Nat.exists_eq_succ_of_ne_zero (show n ≠ 0 by omega)
    simp only [List.take_succ_cons, incompleteTail, hlead, List.length_take, List.length_cons, List.length_nil]
    simp
    omega

/-- A character that is cut is not read. -/
theorem utf8Decode_take (hc : Scalar c) (hlt : n < (utf8Encode c).length) :
    utf8Decode ((utf8Encode c).take n) = none := by
  rcases h : utf8Decode ((utf8Encode c).take n) with _ | ⟨d, rest⟩
  · rfl
  · obtain ⟨hd, htake⟩ := utf8Decode_eq_some h
    have hwhole : utf8Encode c = utf8Encode d ++ (rest ++ (utf8Encode c).drop n) := by
      rw [← List.append_assoc, ← htake, List.take_append_drop]
    have hread := utf8Decode_encode hc []
    rw [List.append_nil, hwhole, utf8Decode_encode hd] at hread
    obtain ⟨rfl, -⟩ := Prod.mk.inj (Option.some.inj hread)
    have hlen := congrArg List.length htake
    rw [List.length_append, List.length_take] at hlen
    omega

/-- **The whole characters in front of a byte**: as many as end by it. -/
theorem charactersToBinary_take (hcs : ∀ c ∈ cs, Scalar c) (n : ℕ) :
    ∃ j ≤ cs.length, (∀ i ≤ cs.length, (utf8All (cs.take i)).length ≤ n ↔ i ≤ j) ∧
      (charactersToBinary ((utf8All cs).take n) = .text (utf8All (cs.take j)) ∨
        ∃ rest, charactersToBinary ((utf8All cs).take n) = .incomplete (utf8All (cs.take j)) rest) := by
  induction cs generalizing n with
  | nil =>
    refine ⟨0, Nat.le_refl _, fun i hi => ?_, .inl ?_⟩
    · simp at hi
      simp [hi]
    · rw [utf8All_nil, List.take_nil, charactersToBinary]
      rfl
  | cons c cs ih =>
    obtain ⟨hc, hcs'⟩ := List.forall_mem_cons.1 hcs
    rcases Nat.lt_or_ge n (utf8Encode c).length with hlt | hge
    · have hcut : (utf8All (c :: cs)).take n = (utf8Encode c).take n := by
        rw [utf8All_cons, List.take_append_of_le_length (Nat.le_of_lt hlt)]
      refine ⟨0, Nat.zero_le _, fun i hi => ?_, ?_⟩
      · rcases i with _ | i
        · simp
        · simp only [List.take_succ_cons, utf8All_cons, List.length_append]
          omega
      · rw [hcut, charactersToBinary]
        split
        next h =>
          rw [utf8Decode_take hc hlt] at h
          cases h
        next =>
          split
          · exact .inl rfl
          next hne =>
            have hpos : 0 < n := by
              rcases Nat.eq_zero_or_pos n with rfl | hpos
              · exact absurd rfl hne
              · exact hpos
            rw [if_pos (incompleteTail_take hc hpos hlt)]
            exact .inr ⟨_, rfl⟩
    · obtain ⟨j, hj, hiff, hchars⟩ := ih hcs' (n - (utf8Encode c).length)
      have hcut : (utf8All (c :: cs)).take n = utf8Encode c ++ (utf8All cs).take (n - (utf8Encode c).length) := by
        rw [utf8All_cons, List.take_append, List.take_of_length_le hge]
      refine ⟨j + 1, by simpa using hj, fun i hi => ?_, ?_⟩
      · rcases i with _ | i
        · simp
        · have := hiff i (by simpa using hi)
          simp only [List.take_succ_cons, utf8All_cons, List.length_append]
          omega
      · rw [hcut, charactersToBinary_cons hc, List.take_succ_cons, utf8All_cons]
        rcases hchars with h | ⟨rest, h⟩
        · rw [h]
          exact .inl rfl
        · rw [h]
          exact .inr ⟨rest, rfl⟩

theorem charactersToBinary_utf8All (hcs : ∀ c ∈ cs, Scalar c) : charactersToBinary (utf8All cs) = .text (utf8All cs) := by
  induction cs with
  | nil =>
    rw [utf8All_nil, charactersToBinary]
    rfl
  | cons c cs ih =>
    obtain ⟨hc, hcs'⟩ := List.forall_mem_cons.1 hcs
    rw [utf8All_cons, charactersToBinary_cons hc, ih hcs']
    rfl

/-- A byte within a character is a continuation. -/
theorem drop_utf8Encode (hpos : 0 < n) (hlt : n < (utf8Encode c).length) :
    ∃ m x xs, continuation x = some m ∧ (utf8Encode c).drop n = x :: xs := by
  have hsix : ∀ k : ℕ, continuation (UInt8.ofNat (0x80 + k % 64)) = some (k % 64) := fun k =>
    continuation_ofNat (Nat.mod_lt _ (by omega))
  revert hlt
  unfold utf8Encode
  split
  · intro hlt
    simp only [List.length_singleton] at hlt
    omega
  split
  · intro hlt
    simp only [List.length_cons, List.length_nil] at hlt
    obtain rfl : n = 1 := by omega
    exact ⟨_, _, _, hsix c, rfl⟩
  split
  · intro hlt
    simp only [List.length_cons, List.length_nil] at hlt
    rcases (by omega : n = 1 ∨ n = 2) with rfl | rfl
    · exact ⟨_, _, _, hsix (c / 64), rfl⟩
    · exact ⟨_, _, _, hsix c, rfl⟩
  · intro hlt
    simp only [List.length_cons, List.length_nil] at hlt
    rcases (by omega : n = 1 ∨ n = 2 ∨ n = 3) with rfl | rfl | rfl
    · exact ⟨_, _, _, hsix (c / 4096), rfl⟩
    · exact ⟨_, _, _, hsix (c / 64), rfl⟩
    · exact ⟨_, _, _, hsix c, rfl⟩

/-- A binary that starts within a character has none at its head. -/
theorem charactersToBinary_continuation {x : UInt8} {m : ℕ} (h : continuation x = some m) (xs : Bytes) :
    charactersToBinary (x :: xs) = .error [] (x :: xs) := by
  unfold continuation at h
  split at h
  next hx =>
    have hdecode : utf8Decode (x :: xs) = none := by
      rw [utf8Decode.eq_def]
      dsimp only
      rw [if_neg (by omega), if_pos hx.2]
    have htail : incompleteTail (x :: xs) = false := by
      simp only [incompleteTail]
      simp
      omega
    rw [charactersToBinary]
    split
    next hsome =>
      rw [hdecode] at hsome
      cases hsome
    · rw [if_neg (List.cons_ne_nil _ _), htail]
      rfl
  · cases h

/-- A valid binary is cut within a character, or at its end. -/
theorem cut_cases (hcs : ∀ c ∈ cs, Scalar c) (hn : n ≤ (utf8All cs).length) :
    (∃ i ≤ cs.length, n = (utf8All (cs.take i)).length) ∨
      ∃ m x xs, continuation x = some m ∧ (utf8All cs).drop n = x :: xs := by
  induction cs generalizing n with
  | nil => exact .inl ⟨0, Nat.le_refl _, by simpa using hn⟩
  | cons c cs ih =>
    obtain ⟨hc, hcs'⟩ := List.forall_mem_cons.1 hcs
    rcases Nat.lt_or_ge n (utf8Encode c).length with hlt | hge
    · rcases Nat.eq_zero_or_pos n with rfl | hpos
      · exact .inl ⟨0, Nat.zero_le _, rfl⟩
      · obtain ⟨m, x, xs, hx, hdrop⟩ := drop_utf8Encode hpos hlt
        refine .inr ⟨m, x, xs ++ utf8All cs, hx, ?_⟩
        rw [utf8All_cons, List.drop_append_of_le_length (Nat.le_of_lt hlt), hdrop, List.cons_append]
    · rw [utf8All_cons, List.length_append] at hn
      rcases @ih (n - (utf8Encode c).length) hcs' (by omega) with ⟨i, hi, hlength⟩ | ⟨m, x, xs, hx, hdrop⟩
      · refine .inl ⟨i + 1, by simpa using hi, ?_⟩
        rw [List.take_succ_cons, utf8All_cons, List.length_append]
        omega
      · refine .inr ⟨m, x, xs, hx, ?_⟩
        rw [utf8All_cons, List.drop_append, List.drop_of_length_le hge, List.nil_append, hdrop]

theorem codepoints_utf8All (hcs : ∀ c ∈ cs, Scalar c) : codepoints (utf8All cs) = cs.map utf8Encode := by
  induction cs with
  | nil => rw [utf8All_nil, codepoints]; rfl
  | cons c cs ih =>
    obtain ⟨hc, hcs'⟩ := List.forall_mem_cons.1 hcs
    have hd := utf8Decode_encode hc (utf8All cs)
    obtain ⟨x, xs, hx⟩ := List.exists_cons_of_ne_nil (utf8Encode_ne_nil c)
    rw [utf8All_cons, hx, List.cons_append]
    rw [hx, List.cons_append] at hd
    rw [codepoints]
    split
    next c' rest h =>
      obtain ⟨rfl, rfl⟩ := Prod.mk.inj (Option.some.inj (hd.symm.trans h))
      rw [ih hcs', List.map_cons, hx]
    next h =>
      rw [hd] at h
      cases h

end Loopex.Erlang
