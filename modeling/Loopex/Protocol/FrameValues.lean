import Loopex.Protocol.FrameDecoder

/-!
# The values the frame decoder reads

The mutual recursion of the parser against the mutual grammar.

* `Stuck n b` — the texts that lead to an escape of a negative number before any other reason to stop;
* `parse_sound` — a value that is read is one of the grammar, and the parser raises on stuck texts only;
* `parseValue_complete`, `parseValue_stuck` — every value of the grammar is read, every stuck text raises.

The fuel a value takes is two for each byte; an array or an object takes one more for its first member.
-/

namespace Loopex.Protocol.Frame

open Loopex.Erlang Loopex.Erlang.Term Loopex.Protocol.Json

mutual
/-- A text that leads to an escape of a negative number, `n` containers deep at most. -/
inductive Stuck : ℕ → Bytes → Prop
  | string {n b} : StuckString 0 b → Stuck n (34 :: b)
  | array {n b} : StuckElements n maxMembers b → Stuck (n + 1) (91 :: b)
  | object {n b} : StuckMembers n maxMembers b → Stuck (n + 1) (123 :: b)
/-- The rest of an array with room for `k` more elements. -/
inductive StuckElements : ℕ → ℕ → Bytes → Prop
  | here {n k w b} : Ws w → Stuck n b → StuckElements n (k + 1) (w ++ b)
  | later {n k w b v w' b'} : Ws w → Value lenient b v → Within n v → Ws w' → StuckElements n k b' →
      StuckElements n (k + 1) (w ++ (b ++ (w' ++ 44 :: b')))
/-- The rest of an object with room for `k` more members. -/
inductive StuckMembers : ℕ → ℕ → Bytes → Prop
  | key {n k w b} : Ws w → StuckString 0 b → StuckMembers n (k + 1) (w ++ 34 :: b)
  | value {n k w e cs w₁ w₂ b} : Ws w → Chars lenient e cs → (utf8All cs).length ≤ maxStringBytes → Ws w₁ → Ws w₂ →
      Stuck n b → StuckMembers n (k + 1) (w ++ 34 :: (e ++ 34 :: (w₁ ++ 58 :: (w₂ ++ b))))
  | later {n k w e cs w₁ w₂ b v w' b'} : Ws w → Chars lenient e cs → (utf8All cs).length ≤ maxStringBytes →
      Ws w₁ → Ws w₂ → Value lenient b v → Within n v → Ws w' → StuckMembers n k b' →
      StuckMembers n (k + 1) (w ++ 34 :: (e ++ 34 :: (w₁ ++ 58 :: (w₂ ++ (b ++ (w' ++ 44 :: b'))))))
end

theorem StuckElements.space {n k : ℕ} {w b : Bytes} (hw : Ws w) (h : StuckElements n k b) :
    StuckElements n k (w ++ b) := by
  rcases h with ⟨h, hs⟩ | ⟨h, hv, hn, h', hs⟩ <;> rw [← List.append_assoc]
  · exact .here (hw.append h) hs
  · exact .later (hw.append h) hv hn h' hs

theorem StuckMembers.space {n k : ℕ} {w b : Bytes} (hw : Ws w) (h : StuckMembers n k b) :
    StuckMembers n k (w ++ b) := by
  rcases h with ⟨h, hs⟩ | ⟨h, hc, hl, h1, h2, hs⟩ | ⟨h, hc, hl, h1, h2, hv, hn, h', hs⟩ <;> rw [← List.append_assoc]
  · exact .key (hw.append h) hs
  · exact .value (hw.append h) hc hl h1 h2 hs
  · exact .later (hw.append h) hc hl h1 h2 hv hn h' hs

/-! ## stages -/

variable {α β : Type}

theorem Meets.bind {ok : α → Bytes → Prop} {ok' : β → Bytes → Prop} {raises raises' : Prop}
    {r : Except Stop (α × Bytes)} {f : α × Bytes → Except Stop (β × Bytes)} (h : Meets ok raises r)
    (hr : raises → raises') (hok : ∀ a rest, ok a rest → Meets ok' raises' (f (a, rest))) :
    Meets ok' raises' (r >>= f) := by
  cases r with
  | ok r => exact hok r.1 r.2 h
  | error s =>
    cases s with
    | raised => exact hr h
    | refused _ => trivial
    | unfinished => exact h

theorem Meets.imp {ok ok' : α → Bytes → Prop} {raises raises' : Prop} {r : Except Stop (α × Bytes)}
    (h : Meets ok raises r) (hr : raises → raises') (hok : ∀ a rest, ok a rest → ok' a rest) :
    Meets ok' raises' r := by
  cases r with
  | ok r => exact hok r.1 r.2 h
  | error s =>
    cases s with
    | raised => exact hr h
    | refused _ => trivial
    | unfinished => exact h

/-! ## limits -/

/-- The limits on the members of an object. -/
def MembersWithin (n : ℕ) (ms : List (Bytes × Term)) : Prop :=
  ∀ m ∈ ms, m.1.length ≤ maxStringBytes ∧ Within n m.2

theorem entriesOfMembers_perm {ms : List (Bytes × Term)} (h : (ms.map Prod.fst).Nodup) :
    (entriesOfMembers ms).Perm (ms.map fun m => (.binary m.1, m.2)) := by
  apply perm_entriesOf
  refine List.pairwise_map.2 ((List.pairwise_map.1 h).imp fun hne he => hne ?_)
  exact encode_binary_inj.1 he

theorem within_members {n : ℕ} {ms : List (Bytes × Term)} (h : (ms.map Prod.fst).Nodup) :
    Within (n + 1) (.map (entriesOfMembers ms)) ↔ ms.length ≤ maxMembers ∧ MembersWithin n ms := by
  have hp := entriesOfMembers_perm h
  have hmem : ∀ m ∈ ms, (.binary m.1, m.2) ∈ entriesOfMembers ms := fun m hm =>
    hp.mem_iff.2 (List.mem_map.2 ⟨m, hm, rfl⟩)
  have hlen : (entriesOfMembers ms).length = ms.length := by rw [hp.length_eq, List.length_map]
  constructor
  · rintro (_ | _ | _ | _ | ⟨hl, hk, hv⟩)
    refine ⟨hlen ▸ hl, fun m hm => ⟨?_, hv _ (hmem m hm)⟩⟩
    obtain ⟨k, hk, hl⟩ := hk _ (hmem m hm)
    cases hk
    exact hl
  · rintro ⟨hl, hm⟩
    refine .map (hlen ▸ hl) ?_ ?_
    all_goals
      intro e he
      obtain ⟨m, hm', rfl⟩ := List.mem_map.1 (hp.mem_iff.1 he)
    · exact ⟨m.1, rfl, (hm m hm').1⟩
    · exact (hm m hm').2

/-! ## what is read is in the grammar -/

/-- `parseValue` at this much fuel. -/
def ValueSound (fuel : ℕ) : Prop := ∀ (input : Bytes) (depth n : ℕ), depth + n = maxDepth + 1 →
  2 * input.length + 1 ≤ fuel →
  Meets (fun v rest => ∃ b, input = b ++ rest ∧ Value lenient b v ∧ Within n v) (Stuck n input)
    (parseValue fuel input depth)

/-- `parseElements` at this much fuel. -/
def ElementsSound (fuel : ℕ) : Prop := ∀ (input : Bytes) (depth n : ℕ) (acc : List Term), depth + n = maxDepth →
  2 * input.length + 2 ≤ fuel →
  Meets (fun vs rest => (acc = [] ∧ vs = [] ∧ input = 93 :: rest) ∨
      ∃ b vs', input = b ++ 93 :: rest ∧ Elements lenient b vs' ∧ vs = acc.reverse ++ vs' ∧
        (∀ v ∈ vs', Within n v) ∧ acc.length + vs'.length ≤ maxMembers)
    (StuckElements n (maxMembers - acc.length) input) (parseElements fuel input depth acc)

/-- `parseMembers` at this much fuel. -/
def MembersSound (fuel : ℕ) : Prop := ∀ (input : Bytes) (depth n : ℕ) (acc : List (Bytes × Term)),
  depth + n = maxDepth → 2 * input.length + 2 ≤ fuel →
  Meets (fun ms rest => (acc = [] ∧ ms = [] ∧ input = 125 :: rest) ∨
      ∃ b ms', input = b ++ 125 :: rest ∧ Members lenient b ms' ∧ ms = acc.reverse ++ ms' ∧
        MembersWithin n ms' ∧ acc.length + ms'.length ≤ maxMembers)
    (StuckMembers n (maxMembers - acc.length) input) (parseMembers fuel input depth acc)

theorem skipSpace_length_le (b : Bytes) : (skipSpace b).length ≤ b.length := by
  obtain ⟨w, -, h⟩ := skipSpace_spec b
  conv_rhs => rw [h]
  simp

theorem valueSound_succ {fuel : ℕ} (he : ElementsSound fuel) (hm : MembersSound fuel) : ValueSound (fuel + 1) := by
  intro input depth n hd hf
  unfold parseValue
  split
  · next rest =>
    split
    · trivial
    next hdepth =>
    obtain ⟨n, rfl⟩ : ∃ n', n = n' + 1 := ⟨n - 1, by omega⟩
    obtain ⟨w, hw, hrest⟩ := skipSpace_spec rest
    have hlen := skipSpace_length_le rest
    simp only [List.length_cons] at hf
    refine Meets.bind (hm (skipSpace rest) depth n [] (by omega) (by omega)) ?_ ?_
    · intro h
      rw [hrest]
      exact .object (h.space hw)
    · rintro ms rest' (⟨-, rfl, h⟩ | ⟨b, ms', h, hb, rfl, hin, hl⟩) <;> simp only
      · refine ⟨123 :: (w ++ [125]), ?_, .object hw, (.map (by simp) (by simp) (by simp) : Within (n + 1) (.map []))⟩
        rw [hrest, h]
        simp
      · split <;> [skip; trivial]
        next hnd =>
        refine ⟨123 :: (w ++ b ++ [125]), ?_, .members (hb.space hw) hnd, (within_members hnd).2 ⟨by simpa using hl, hin⟩⟩
        rw [hrest, h]
        simp
  · next rest =>
    split
    · trivial
    next hdepth =>
    obtain ⟨n, rfl⟩ : ∃ n', n = n' + 1 := ⟨n - 1, by omega⟩
    obtain ⟨w, hw, hrest⟩ := skipSpace_spec rest
    have hlen := skipSpace_length_le rest
    simp only [List.length_cons] at hf
    refine Meets.bind (he (skipSpace rest) depth n [] (by omega) (by omega)) ?_ ?_
    · intro h
      rw [hrest]
      exact .array (h.space hw)
    · rintro vs rest' (⟨-, rfl, h⟩ | ⟨b, vs', h, hb, rfl, hin, hl⟩)
      · refine ⟨91 :: (w ++ [93]), ?_, .array hw, .list (by simp) (by simp)⟩
        rw [hrest, h]
        simp
      · refine ⟨91 :: (w ++ b ++ [93]), ?_, .elements (hb.space hw), .list (by simpa using hl) (by simpa using hin)⟩
        rw [hrest, h]
        simp
  · next rest =>
    simp only [List.length_cons] at hf
    refine Meets.bind (parseString_sound fuel rest [] [] (by omega) rfl) (fun h => .string h) ?_
    rintro s rest' ⟨e, cs, rfl, hc, rfl, hl⟩
    exact ⟨34 :: (e ++ [34]), by simp, .string hc, .string hl⟩
  · exact ⟨[116, 114, 117, 101], rfl, .true, .atom⟩
  · exact ⟨[102, 97, 108, 115, 101], rfl, .false, .atom⟩
  · exact ⟨[110, 117, 108, 108], rfl, .null, .atom⟩
  · next b rest _ _ _ _ _ _ =>
    split <;> [skip; trivial]
    next hb =>
    apply parseNumber_sound
    rintro rfl
    exact absurd hb (by decide)
  · trivial

theorem elementsSound_succ {fuel : ℕ} (hv : ValueSound fuel) (he : ElementsSound fuel) : ElementsSound (fuel + 1) := by
  intro input depth n acc hd hf
  unfold parseElements
  split
  · next rest => exact .inl ⟨rfl, rfl, rfl⟩
  · next h93 =>
    split
    · trivial
    next hacc =>
    obtain ⟨k, hk⟩ : ∃ k, maxMembers - acc.length = k + 1 := ⟨maxMembers - acc.length - 1, by omega⟩
    rw [hk]
    refine Meets.bind (hv input (depth + 1) n (by omega) (by omega)) (StuckElements.here (w := []) (by simp [Ws])) ?_
    rintro v rest ⟨b, rfl, hb, hn⟩
    obtain ⟨w, hw, hrest⟩ := skipSpace_spec rest
    simp only
    split
    · next rest' hr =>
      rw [hr] at hrest
      obtain ⟨w', hw', hrest'⟩ := skipSpace_spec rest'
      have hlen := skipSpace_length_le rest'
      subst hrest
      simp only [List.length_append, List.length_cons] at hf
      have := he (skipSpace rest') depth n (v :: acc) hd (by omega)
      rw [List.length_cons, show maxMembers - (acc.length + 1) = k by omega] at this
      refine this.imp ?_ ?_
      · intro h
        have := StuckElements.later (w := []) (by simp [Ws]) hb hn hw (h.space hw')
        rwa [← hrest'] at this
      · rintro vs rest'' (⟨h, -⟩ | ⟨b', vs', h, hb', rfl, hin, hl⟩)
        · cases h
        · refine .inr ⟨b ++ (w ++ 44 :: (w' ++ b')), v :: vs', ?_, ?_, by simp, ?_, ?_⟩
          · rw [hrest', h]
            simp
          · exact .cons (w := []) (by simp [Ws]) hb hw (hb'.space hw')
          · rintro x hx
            rcases List.mem_cons.1 hx with rfl | hx
            · exact hn
            · exact hin x hx
          · simp only [List.length_cons] at hl ⊢
            omega
    · next rest' hr =>
      rw [hr] at hrest
      subst hrest
      refine .inr ⟨b ++ w, [v], by simp, .one (w := []) (by simp [Ws]) hb hw, by simp, by simpa using hn, ?_⟩
      simp only [List.length_singleton]
      omega
    · trivial
    · trivial

theorem membersSound_succ {fuel : ℕ} (hv : ValueSound fuel) (hm : MembersSound fuel) : MembersSound (fuel + 1) := by
  intro input depth n acc hd hf
  unfold parseMembers
  split
  · next rest => exact .inl ⟨rfl, rfl, rfl⟩
  next h125 =>
  split
  · trivial
  next hacc =>
  obtain ⟨k, hk⟩ : ∃ k, maxMembers - acc.length = k + 1 := ⟨maxMembers - acc.length - 1, by omega⟩
  rw [hk]
  have hnil : Ws ([] : Bytes) := by simp [Ws]
  split
  · next _ rest =>
    simp only [List.length_cons] at hf
    refine Meets.bind (parseString_sound fuel rest [] [] (by omega) rfl) (fun h => .key hnil h) ?_
    rintro key rest₁ ⟨e, cs, rfl, hc, rfl, hl⟩
    simp only [List.nil_append] at hl ⊢
    obtain ⟨w₁, hw₁, hrest₁⟩ := skipSpace_spec rest₁
    split
    · next rest₂ hr =>
      rw [hr] at hrest₁
      obtain ⟨w₂, hw₂, hrest₂⟩ := skipSpace_spec rest₂
      have hlen := skipSpace_length_le rest₂
      subst hrest₁
      simp only [List.length_append, List.length_cons] at hf
      refine Meets.bind (hv (skipSpace rest₂) (depth + 1) n (by omega) (by omega)) ?_ ?_
      · intro h
        have := @StuckMembers.value _ k _ _ _ _ _ _ hnil hc hl hw₁ hw₂ h
        rwa [← hrest₂] at this
      rintro v rest₃ ⟨b, hb, hval, hn⟩
      obtain ⟨w₃, hw₃, hrest₃⟩ := skipSpace_spec rest₃
      simp only
      split
      · next rest₄ hr =>
        rw [hr] at hrest₃
        obtain ⟨w₄, hw₄, hrest₄⟩ := skipSpace_spec rest₄
        have hlen' := skipSpace_length_le rest₄
        have hlenb : (skipSpace rest₂).length = b.length + rest₃.length := by rw [hb, List.length_append]
        subst hrest₃
        simp only [List.length_append, List.length_cons] at hlenb
        have := hm (skipSpace rest₄) depth n ((utf8All cs, v) :: acc) hd (by omega)
        rw [List.length_cons, show maxMembers - (acc.length + 1) = k by omega] at this
        refine this.imp ?_ ?_
        · intro h
          have := StuckMembers.later hnil hc hl hw₁ hw₂ hval hn hw₃ (h.space hw₄)
          rwa [← hrest₄, ← hb, ← hrest₂] at this
        · rintro ms rest₅ (⟨h, -⟩ | ⟨b', ms', h, hb', rfl, hin, hlm⟩)
          · cases h
          · have hms := Members.cons hnil hc hw₁ hw₂ hval hw₃ (hb'.space hw₄)
            refine .inr ⟨_, _, ?_, hms, by simp, ?_, ?_⟩
            · rw [hrest₂, hb, hrest₄, h]
              simp
            · rintro m hm
              rcases List.mem_cons.1 hm with rfl | hm
              · exact ⟨hl, hn⟩
              · exact hin m hm
            · simp only [List.length_cons] at hlm ⊢
              omega
      · next rest₄ hr =>
        rw [hr] at hrest₃
        refine .inr ⟨_, _, ?_, .one hnil hc hw₁ hw₂ hval hw₃, by simp, ?_, ?_⟩
        · rw [hrest₂, hb, hrest₃]
          simp
        · rintro m hm
          rw [List.mem_singleton.1 hm]
          exact ⟨hl, hn⟩
        · simp only [List.length_singleton]
          omega
      · trivial
      · trivial
    · trivial
    · trivial
  · trivial
  · trivial

/-- **What the parser reads**: a value of the grammar within the limits, and it raises on a stuck text only. -/
theorem parse_sound (fuel : ℕ) : ValueSound fuel ∧ ElementsSound fuel ∧ MembersSound fuel := by
  induction fuel with
  | zero =>
    refine ⟨?_, ?_, ?_⟩
    · intro input depth n _ h
      omega
    · intro input depth n acc _ h
      omega
    · intro input depth n acc _ h
      omega
  | succ fuel ih =>
    obtain ⟨hv, he, hm⟩ := ih
    exact ⟨valueSound_succ he hm, elementsSound_succ hv he, membersSound_succ hv hm⟩

/-! ## what is in the grammar is read -/

/-- No number goes on here. -/
def Closed (rest : Bytes) : Prop := ∀ x, rest.head? = some x → isNumberByte x = false

theorem closed_cons {x : UInt8} {rest : Bytes} (h : isNumberByte x = false) : Closed (x :: rest) := by
  intro y hy
  obtain rfl := Option.some.inj hy
  exact h

theorem Closed.space {w rest : Bytes} (hw : Ws w) (h : Closed rest) : Closed (w ++ rest) := by
  rcases w with _ | ⟨x, w⟩
  · exact h
  · apply closed_cons
    have hx := hw x (by simp)
    simp only [isSpace, Bool.or_eq_true, decide_eq_true_eq] at hx
    rcases hx with ((rfl | rfl) | rfl) | rfl <;> rfl

/-- The first byte of a value. -/
def Opens (b : Bytes) : Prop := ∃ x b', b = x :: b' ∧ isSpace x = false ∧ x ≠ 93

theorem opens_value {b : Bytes} {v : Term} (h : Value lenient b v) : Opens b := by
  cases h with
  | int hi =>
    obtain ⟨hne, hall⟩ := bytes_of_integerParse hi.2
    obtain ⟨x, b, rfl⟩ := List.exists_cons_of_ne_nil hne
    refine ⟨x, b, rfl, ?_⟩
    rcases hall x (by simp) with rfl | rfl | hx
    · decide
    · decide
    · refine ⟨?_, ?_⟩
      · rw [← Bool.not_eq_true]
        simp only [isSpace, Bool.or_eq_true, decide_eq_true_eq]
        rintro (((rfl | rfl) | rfl) | rfl) <;> simp [digitValue] at hx
      · rintro rfl
        simp [digitValue] at hx
  | _ => exact ⟨_, _, rfl, by decide, by decide⟩

theorem value_pos {b : Bytes} {v : Term} (h : Value lenient b v) : 0 < b.length := by
  obtain ⟨x, b', rfl, -⟩ := opens_value h
  simp

theorem opens_stuck {n : ℕ} {b : Bytes} (h : Stuck n b) : Opens b := by
  cases h <;> exact ⟨_, _, rfl, by decide, by decide⟩

theorem Opens.append {b : Bytes} (h : Opens b) (rest : Bytes) : Opens (b ++ rest) := by
  obtain ⟨x, b', rfl, hs, h93⟩ := h
  exact ⟨x, b' ++ rest, rfl, hs, h93⟩

theorem Opens.skipSpace {b : Bytes} (h : Opens b) : skipSpace b = b := by
  obtain ⟨x, b', rfl, hs, -⟩ := h
  exact skipSpace_cons hs b'

theorem parseValue_number {x : UInt8} (hx : x = 45 ∨ (48 ≤ x ∧ x ≤ 57)) (fuel depth : ℕ) (rest : Bytes) :
    parseValue (fuel + 1) (x :: rest) depth = parseNumber (x :: rest) := by
  unfold parseValue
  split
  iterate 6
    next h =>
    obtain rfl := (List.cons.inj h).1
    exact absurd hx (by decide)
  · next h =>
    obtain ⟨rfl, rfl⟩ := List.cons.inj h
    exact if_pos (by simpa using hx)
  · next h => cases h

/-- An element, as far as the byte that follows it. -/
theorem parseElements_step {fuel depth : ℕ} {input : Bytes} {acc : List Term} (ho : Opens input)
    (hacc : acc.length < maxMembers) :
    parseElements (fuel + 1) input depth acc = (parseValue fuel input (depth + 1) >>= fun r =>
      match skipSpace r.2 with
      | 44 :: rest => parseElements fuel (skipSpace rest) depth (r.1 :: acc)
      | 93 :: rest => .ok ((r.1 :: acc).reverse, rest)
      | [] => refuse .truncated
      | _ => refuse .malformed) := by
  obtain ⟨x, b, rfl, -, h93⟩ := ho
  conv_lhs => unfold parseElements
  split
  · next h => exact absurd (List.cons.inj h).1 h93
  · exact if_neg (by omega)

/-- A member, as far as its value. -/
theorem parseMembers_step {fuel depth : ℕ} {input rest : Bytes} {key : Bytes} {acc : List (Bytes × Term)}
    (hacc : acc.length < maxMembers) (hk : parseString fuel input [] 0 = .ok (key, rest)) {rest' : Bytes}
    (hr : skipSpace rest = 58 :: rest') :
    parseMembers (fuel + 1) (34 :: input) depth acc = (parseValue fuel (skipSpace rest') (depth + 1) >>= fun r =>
      match skipSpace r.2 with
      | 44 :: rest => parseMembers fuel (skipSpace rest) depth ((key, r.1) :: acc)
      | 125 :: rest => .ok (((key, r.1) :: acc).reverse, rest)
      | [] => refuse .truncated
      | _ => refuse .malformed) := by
  conv_lhs => unfold parseMembers
  split
  · next h => cases h
  · simp only [hk, bind, Except.bind, hr]
    exact if_neg (by omega)

theorem parseString_of_chars {e : Bytes} {cs : List ℕ} (he : Chars lenient e cs)
    (hl : (utf8All cs).length ≤ maxStringBytes) (fuel : ℕ) (rest : Bytes) (hf : (e ++ 34 :: rest).length < fuel) :
    parseString fuel (e ++ 34 :: rest) [] 0 = .ok (utf8All cs, rest) :=
  parseString_complete he rest fuel [] [] hf (by simp) rfl hl

mutual
/-- **Every value of the grammar is read**, within the limits, when a number in front of the rest has ended. -/
theorem parseValue_complete : ∀ {b : Bytes} {v : Term}, Value lenient b v → ∀ (n depth fuel : ℕ) (rest : Bytes),
    Within n v → depth + n = maxDepth + 1 → 2 * (b ++ rest).length + 1 ≤ fuel → Closed rest →
    parseValue fuel (b ++ rest) depth = .ok (v, rest)
  | _, _, .string hc, n, depth, fuel, rest, hn, hd, hf, hr => by
    obtain ⟨fuel, rfl⟩ : ∃ f, fuel = f + 1 := ⟨fuel - 1, by omega⟩
    cases hn with
    | string hl =>
    simp only [List.cons_append, List.append_assoc, List.nil_append, List.length_cons] at hf ⊢
    rw [parseValue, parseString_of_chars hc hl _ _ (by omega)]
    rfl
  | _, _, .true, n, depth, fuel, rest, hn, hd, hf, hr => by
    obtain ⟨fuel, rfl⟩ : ∃ f, fuel = f + 1 := ⟨fuel - 1, by omega⟩
    rfl
  | _, _, .false, n, depth, fuel, rest, hn, hd, hf, hr => by
    obtain ⟨fuel, rfl⟩ : ∃ f, fuel = f + 1 := ⟨fuel - 1, by omega⟩
    rfl
  | _, _, .null, n, depth, fuel, rest, hn, hd, hf, hr => by
    obtain ⟨fuel, rfl⟩ : ∃ f, fuel = f + 1 := ⟨fuel - 1, by omega⟩
    rfl
  | b, _, .int hi, n, depth, fuel, rest, hn, hd, hf, hr => by
    obtain ⟨fuel, rfl⟩ : ∃ f, fuel = f + 1 := ⟨fuel - 1, by omega⟩
    cases hn with
    | int h1 h2 =>
    obtain ⟨hne, hall⟩ := bytes_of_integerParse hi.2
    obtain ⟨x, b', rfl⟩ := List.exists_cons_of_ne_nil hne
    have hx : x = 45 ∨ (48 ≤ x ∧ x ≤ 57) := by
      rcases hall x (by simp) with rfl | h | h
      · exact absurd rfl hi.1
      · exact .inl h
      · exact .inr (digit_range h)
    rw [List.cons_append, parseValue_number hx, ← List.cons_append]
    exact parseNumber_complete hi ⟨h1, h2⟩ hr
  | _, _, .array (w := w) hw, n, depth, fuel, rest, hn, hd, hf, hr => by
    obtain ⟨fuel, rfl⟩ : ∃ f, fuel = f + 2 := ⟨fuel - 2, by simp at hf; omega⟩
    cases hn with
    | @list n =>
    have hsp : skipSpace (w ++ 93 :: rest) = 93 :: rest := skipSpace_append hw _
    simp only [List.cons_append, List.append_assoc, List.nil_append]
    rw [parseValue, if_neg (by omega), hsp, parseElements]
    rfl
  | _, _, .elements he, n, depth, fuel, rest, hn, hd, hf, hr => by
    obtain ⟨fuel, rfl⟩ : ∃ f, fuel = f + 1 := ⟨fuel - 1, by omega⟩
    cases hn with
    | @list n _ hl hin =>
    simp only [List.cons_append, List.append_assoc, List.nil_append, List.length_cons] at hf ⊢
    have := parseElements_complete he n depth fuel rest [] hin (by omega) (by simpa using hl) (by omega)
    rw [parseValue, if_neg (by omega), this]
    rfl
  | _, _, .object (w := w) hw, n, depth, fuel, rest, hn, hd, hf, hr => by
    obtain ⟨fuel, rfl⟩ : ∃ f, fuel = f + 2 := ⟨fuel - 2, by simp at hf; omega⟩
    cases hn with
    | @map n =>
    have hsp : skipSpace (w ++ 125 :: rest) = 125 :: rest := skipSpace_append hw _
    simp only [List.cons_append, List.append_assoc, List.nil_append]
    rw [parseValue, if_neg (by omega), hsp, parseMembers]
    rfl
  | _, _, .members hm hnd, n, depth, fuel, rest, hn, hd, hf, hr => by
    obtain ⟨fuel, rfl⟩ : ∃ f, fuel = f + 1 := ⟨fuel - 1, by omega⟩
    obtain ⟨n, rfl⟩ : ∃ m, n = m + 1 := by
      cases hn with
      | @map n => exact ⟨n, rfl⟩
    obtain ⟨hl, hin⟩ := (within_members hnd).1 hn
    simp only [List.cons_append, List.append_assoc, List.nil_append, List.length_cons] at hf ⊢
    have := parseMembers_complete hm n depth fuel rest [] hin (by omega) (by simpa using hl) (by omega)
    rw [parseValue, if_neg (by omega), this]
    exact if_pos hnd
/-- The elements of an array. -/
theorem parseElements_complete : ∀ {b : Bytes} {vs : List Term}, Elements lenient b vs →
    ∀ (n depth fuel : ℕ) (rest : Bytes) (acc : List Term), (∀ v ∈ vs, Within n v) → depth + n = maxDepth →
    acc.length + vs.length ≤ maxMembers → 2 * (b ++ 93 :: rest).length + 2 ≤ fuel →
    parseElements fuel (skipSpace (b ++ 93 :: rest)) depth acc = .ok (acc.reverse ++ vs, rest)
  | _, _, @Elements.one _ w b w' v hw hv hw', n, depth, fuel, rest, acc, hn, hd, hl, hf => by
    obtain ⟨fuel, rfl⟩ : ∃ f, fuel = f + 1 := ⟨fuel - 1, by omega⟩
    simp only [List.append_assoc, List.length_append, List.length_cons] at hf hl ⊢
    have ho := (opens_value hv).append (w' ++ 93 :: rest)
    rw [skipSpace_append hw, ho.skipSpace, parseElements_step ho (by simp at hl; omega),
      parseValue_complete hv n (depth + 1) fuel _ (hn _ (by simp)) (by omega) (by simp; omega) (closed_cons rfl |>.space hw')]
    simp [bind, Except.bind, skipSpace_append hw', skipSpace_cons (show isSpace 93 = false from rfl)]
  | _, _, @Elements.cons _ w b w' v b' vs hw hv hw' he, n, depth, fuel, rest, acc, hn, hd, hl, hf => by
    obtain ⟨fuel, rfl⟩ : ∃ f, fuel = f + 1 := ⟨fuel - 1, by omega⟩
    simp only [List.append_assoc, List.cons_append, List.length_append, List.length_cons] at hf hl ⊢
    have ho := (opens_value hv).append (w' ++ 44 :: (b' ++ 93 :: rest))
    have hb := value_pos hv
    have hrec := parseElements_complete he n depth fuel rest (v :: acc) (fun x hx => hn x (by simp [hx])) hd
      (by simp; omega) (by simp; omega)
    rw [skipSpace_append hw, ho.skipSpace, parseElements_step ho (by omega),
      parseValue_complete hv n (depth + 1) fuel _ (hn _ (by simp)) (by omega) (by simp; omega) (closed_cons rfl |>.space hw')]
    simp [bind, Except.bind, skipSpace_append hw', skipSpace_cons (show isSpace 44 = false from rfl), hrec]
/-- The members of an object. -/
theorem parseMembers_complete : ∀ {b : Bytes} {ms : List (Bytes × Term)}, Members lenient b ms →
    ∀ (n depth fuel : ℕ) (rest : Bytes) (acc : List (Bytes × Term)), MembersWithin n ms → depth + n = maxDepth →
    acc.length + ms.length ≤ maxMembers → 2 * (b ++ 125 :: rest).length + 2 ≤ fuel →
    parseMembers fuel (skipSpace (b ++ 125 :: rest)) depth acc = .ok (acc.reverse ++ ms, rest)
  | _, _, @Members.one _ w e cs w₁ w₂ b w' v hw hc h1 h2 hv hw', n, depth, fuel, rest, acc, hn, hd, hl, hf => by
    obtain ⟨fuel, rfl⟩ : ∃ f, fuel = f + 1 := ⟨fuel - 1, by omega⟩
    obtain ⟨hk, hn⟩ := hn _ (List.mem_singleton_self _)
    simp only [List.append_assoc, List.cons_append, List.length_append, List.length_cons] at hf hl ⊢
    have ho := (opens_value hv).append (w' ++ 125 :: rest)
    have hb := value_pos hv
    have hs := parseString_of_chars hc hk fuel (w₁ ++ 58 :: (w₂ ++ (b ++ (w' ++ 125 :: rest)))) (by simp; omega)
    have hcolon : skipSpace (w₁ ++ 58 :: (w₂ ++ (b ++ (w' ++ 125 :: rest)))) = 58 :: (w₂ ++ (b ++ (w' ++ 125 :: rest))) := by
      rw [skipSpace_append h1, skipSpace_cons rfl]
    rw [skipSpace_append hw, skipSpace_cons rfl, parseMembers_step (by omega) hs hcolon,
      skipSpace_append h2, ho.skipSpace,
      parseValue_complete hv n (depth + 1) fuel _ hn (by omega) (by simp; omega) (closed_cons rfl |>.space hw')]
    simp [bind, Except.bind, skipSpace_append hw', skipSpace_cons (show isSpace 125 = false from rfl)]
  | _, _, @Members.cons _ w e cs w₁ w₂ b w' v b' ms hw hc h1 h2 hv hw' hm, n, depth, fuel, rest, acc, hn, hd, hl, hf => by
    obtain ⟨fuel, rfl⟩ : ∃ f, fuel = f + 1 := ⟨fuel - 1, by omega⟩
    obtain ⟨hk, hnv⟩ := hn _ (List.mem_cons_self ..)
    simp only [List.append_assoc, List.cons_append, List.length_append, List.length_cons] at hf hl ⊢
    have ho := (opens_value hv).append (w' ++ 44 :: (b' ++ 125 :: rest))
    have hb := value_pos hv
    have hs := parseString_of_chars hc hk fuel (w₁ ++ 58 :: (w₂ ++ (b ++ (w' ++ 44 :: (b' ++ 125 :: rest)))))
      (by simp; omega)
    have hcolon : skipSpace (w₁ ++ 58 :: (w₂ ++ (b ++ (w' ++ 44 :: (b' ++ 125 :: rest))))) =
        58 :: (w₂ ++ (b ++ (w' ++ 44 :: (b' ++ 125 :: rest)))) := by
      rw [skipSpace_append h1, skipSpace_cons rfl]
    have hrec := parseMembers_complete hm n depth fuel rest ((utf8All cs, v) :: acc)
      (fun x hx => hn x (List.mem_cons_of_mem _ hx)) hd (by simp; omega) (by simp; omega)
    rw [skipSpace_append hw, skipSpace_cons rfl, parseMembers_step (by omega) hs hcolon,
      skipSpace_append h2, ho.skipSpace,
      parseValue_complete hv n (depth + 1) fuel _ hnv (by omega) (by simp; omega) (closed_cons rfl |>.space hw')]
    simp [bind, Except.bind, skipSpace_append hw', skipSpace_cons (show isSpace 44 = false from rfl), hrec]
end

/-! ## what is stuck raises -/

theorem parseString_of_stuck {b : Bytes} (h : StuckString 0 b) (fuel : ℕ) (hf : b.length < fuel) :
    parseString fuel b [] 0 = .error .raised := by
  obtain ⟨e, cs, x, rest, rfl, he, hx, hl⟩ := h
  exact parseString_stuck he hx rest fuel [] 0 hf hl

mutual
/-- **Every stuck text raises.** -/
theorem parseValue_stuck : ∀ {n : ℕ} {b : Bytes}, Stuck n b → ∀ (depth fuel : ℕ), depth + n = maxDepth + 1 →
    2 * b.length + 1 ≤ fuel → parseValue fuel b depth = .error .raised
  | _, _, .string h, depth, fuel, hd, hf => by
    obtain ⟨fuel, rfl⟩ : ∃ f, fuel = f + 1 := ⟨fuel - 1, by omega⟩
    simp only [List.length_cons] at hf
    rw [parseValue, parseString_of_stuck h _ (by omega)]
    rfl
  | _, _, .array h, depth, fuel, hd, hf => by
    obtain ⟨fuel, rfl⟩ : ∃ f, fuel = f + 1 := ⟨fuel - 1, by omega⟩
    simp only [List.length_cons] at hf
    rw [parseValue, if_neg (by omega), parseElements_stuck h depth fuel [] (by omega) rfl (by omega)]
    rfl
  | _, _, .object h, depth, fuel, hd, hf => by
    obtain ⟨fuel, rfl⟩ : ∃ f, fuel = f + 1 := ⟨fuel - 1, by omega⟩
    simp only [List.length_cons] at hf
    rw [parseValue, if_neg (by omega), parseMembers_stuck h depth fuel [] (by omega) rfl (by omega)]
    rfl
/-- The elements of an array. -/
theorem parseElements_stuck : ∀ {n k : ℕ} {b : Bytes}, StuckElements n k b → ∀ (depth fuel : ℕ) (acc : List Term),
    depth + n = maxDepth → acc.length + k = maxMembers → 2 * b.length + 2 ≤ fuel →
    parseElements fuel (skipSpace b) depth acc = .error .raised
  | _, _, _, .here hw h, depth, fuel, acc, hd, hl, hf => by
    obtain ⟨fuel, rfl⟩ : ∃ f, fuel = f + 1 := ⟨fuel - 1, by omega⟩
    simp only [List.length_append] at hf
    have ho := opens_stuck h
    rw [skipSpace_append hw, ho.skipSpace, parseElements_step ho (by omega),
      parseValue_stuck h (depth + 1) fuel (by omega) (by omega)]
    rfl
  | n, _, _, @StuckElements.later _ k w b v w' b' hw hv hn hw' h, depth, fuel, acc, hd, hl, hf => by
    obtain ⟨fuel, rfl⟩ : ∃ f, fuel = f + 1 := ⟨fuel - 1, by omega⟩
    simp only [List.length_append, List.length_cons] at hf
    have ho := (opens_value hv).append (w' ++ 44 :: b')
    have hb := value_pos hv
    have hrec := parseElements_stuck h depth fuel (v :: acc) hd (by simp; omega) (by omega)
    rw [skipSpace_append hw, ho.skipSpace, parseElements_step ho (by omega),
      parseValue_complete hv n (depth + 1) fuel _ hn (by omega) (by simp; omega) (closed_cons rfl |>.space hw')]
    simp [bind, Except.bind, skipSpace_append hw', skipSpace_cons (show isSpace 44 = false from rfl), hrec]
/-- The members of an object. -/
theorem parseMembers_stuck : ∀ {n k : ℕ} {b : Bytes}, StuckMembers n k b →
    ∀ (depth fuel : ℕ) (acc : List (Bytes × Term)), depth + n = maxDepth → acc.length + k = maxMembers →
    2 * b.length + 2 ≤ fuel → parseMembers fuel (skipSpace b) depth acc = .error .raised
  | _, _, _, .key hw h, depth, fuel, acc, hd, hl, hf => by
    obtain ⟨fuel, rfl⟩ : ∃ f, fuel = f + 1 := ⟨fuel - 1, by omega⟩
    simp only [List.length_append, List.length_cons] at hf
    rw [skipSpace_append hw, skipSpace_cons rfl]
    conv_lhs => unfold parseMembers
    split
    · next h => cases h
    · simp only [parseString_of_stuck h fuel (by omega), bind, Except.bind]
      exact if_neg (by omega)
  | n, _, _, @StuckMembers.value _ k w e cs w₁ w₂ b hw hc hk h1 h2 h, depth, fuel, acc, hd, hl, hf => by
    obtain ⟨fuel, rfl⟩ : ∃ f, fuel = f + 1 := ⟨fuel - 1, by omega⟩
    simp only [List.length_append, List.length_cons] at hf
    have ho := opens_stuck h
    have hs := parseString_of_chars hc hk fuel (w₁ ++ 58 :: (w₂ ++ b)) (by simp; omega)
    have hcolon : skipSpace (w₁ ++ 58 :: (w₂ ++ b)) = 58 :: (w₂ ++ b) := by
      rw [skipSpace_append h1, skipSpace_cons rfl]
    rw [skipSpace_append hw, skipSpace_cons rfl, parseMembers_step (by omega) hs hcolon, skipSpace_append h2,
      ho.skipSpace, parseValue_stuck h (depth + 1) fuel (by omega) (by omega)]
    rfl
  | n, _, _, @StuckMembers.later _ k w e cs w₁ w₂ b v w' b' hw hc hk h1 h2 hv hn hw' h, depth, fuel, acc, hd, hl,
      hf => by
    obtain ⟨fuel, rfl⟩ : ∃ f, fuel = f + 1 := ⟨fuel - 1, by omega⟩
    simp only [List.length_append, List.length_cons] at hf
    have ho := (opens_value hv).append (w' ++ 44 :: b')
    have hb := value_pos hv
    have hs := parseString_of_chars hc hk fuel (w₁ ++ 58 :: (w₂ ++ (b ++ (w' ++ 44 :: b')))) (by simp; omega)
    have hcolon : skipSpace (w₁ ++ 58 :: (w₂ ++ (b ++ (w' ++ 44 :: b')))) = 58 :: (w₂ ++ (b ++ (w' ++ 44 :: b'))) := by
      rw [skipSpace_append h1, skipSpace_cons rfl]
    have hrec := parseMembers_stuck h depth fuel ((utf8All cs, v) :: acc) hd (by simp; omega) (by omega)
    rw [skipSpace_append hw, skipSpace_cons rfl, parseMembers_step (by omega) hs hcolon, skipSpace_append h2,
      ho.skipSpace,
      parseValue_complete hv n (depth + 1) fuel _ hn (by omega) (by simp; omega) (closed_cons rfl |>.space hw')]
    simp [bind, Except.bind, skipSpace_append hw', skipSpace_cons (show isSpace 44 = false from rfl), hrec]
end

/-! ## frames -/

theorem map_of_brace {b : Bytes} {v : Term} (h : Value lenient (123 :: b) v) : ∃ es, v = .map es := by
  cases h with
  | object _ => exact ⟨_, rfl⟩
  | members _ _ => exact ⟨_, rfl⟩
  | int hi =>
    obtain ⟨-, hall⟩ := bytes_of_integerParse hi.2
    rcases hall 123 (by simp) with h | h | h
    · exact absurd h (by decide)
    · exact absurd h (by decide)
    · simp [digitValue] at h

theorem brace_of_map {b : Bytes} {es : List (Term × Term)} (h : Value lenient b (.map es)) : ∃ t, b = 123 :: t := by
  cases h <;> exact ⟨_, rfl⟩

/-- What `decode_object_frame` comes to on an object. -/
theorem decodeObjectFrame_eq {b : Bytes} {fuel : ℕ} :
    decodeObjectFrame fuel (123 :: b) =
      (parseValue fuel (123 :: b) 1 >>= fun r => if r.2 = [] then .ok r.1 else refuse .trailingBytes) := rfl

theorem decode_object {b : Bytes} {limit : ℕ} (hl : (123 :: b).length ≤ limit) (hu : validUtf8 (123 :: b) = true) :
    decode (123 :: b) limit = decodeObjectFrame (enough (123 :: b)) (123 :: b) := by
  unfold decode
  rw [if_neg (by simp at hl; omega), if_neg (by omega), if_neg (by simp [hu])]

theorem decode_large {payload : Bytes} {limit : ℕ} (hpos : 0 < limit) (hl : limit < payload.length) :
    decode payload limit = .error (.refused .frameTooLarge) := by
  unfold decode
  rw [if_neg (by omega), if_pos hl]
  rfl

/-- What `decode` comes to. -/
theorem decode_cases (payload : Bytes) {limit : ℕ} (hpos : 0 < limit) :
    (∃ v, decode payload limit = .ok v ∧ payload.length ≤ limit ∧ validUtf8 payload = true ∧ (∃ es, v = .map es) ∧
      Value lenient payload v ∧ Within maxDepth v) ∨
    (decode payload limit = .error .raised ∧ payload.length ≤ limit ∧ validUtf8 payload = true ∧
      payload.head? = some 123 ∧ Stuck maxDepth payload) ∨
    ∃ reason, decode payload limit = .error (.refused reason) := by
  by_cases hl : payload.length ≤ limit <;> [skip; exact .inr (.inr ⟨.frameTooLarge, decode_large hpos (Nat.not_le.1 hl)⟩)]
  by_cases hu : validUtf8 payload = true
  · rcases payload with _ | ⟨x, b⟩
    · refine .inr (.inr ⟨.truncated, ?_⟩)
      unfold decode
      rw [if_neg (by omega), if_neg (by omega), if_neg (by simp [hu])]
      rfl
    by_cases hx : x = 123
    · subst hx
      have hs := (parse_sound (enough (123 :: b))).1 (123 :: b) 1 maxDepth (by omega) (by simp [enough])
      rw [decode_object hl hu, decodeObjectFrame_eq]
      cases hr : parseValue (enough (123 :: b)) (123 :: b) 1 with
      | ok r =>
        obtain ⟨v, rest⟩ := r
        rw [hr] at hs
        obtain ⟨b', he, hv, hn⟩ := hs
        simp only [bind, Except.bind]
        split
        · next hrest =>
          simp only at hrest he
          rw [hrest, List.append_nil] at he
          subst he
          exact .inl ⟨v, rfl, hl, hu, map_of_brace hv, hv, hn⟩
        · exact .inr (.inr ⟨_, rfl⟩)
      | error s =>
        rw [hr] at hs
        cases s with
        | refused reason => exact .inr (.inr ⟨reason, rfl⟩)
        | raised => exact .inr (.inl ⟨rfl, hl, hu, rfl, hs⟩)
        | unfinished => exact absurd hs id
    · refine .inr (.inr ⟨.notAnObject, ?_⟩)
      unfold decode
      rw [if_neg (by omega), if_neg (by omega), if_neg (by simp [hu])]
      unfold decodeObjectFrame
      split
      · next h => exact absurd (List.cons.inj h).1 hx
      · next h => cases h
      · rfl
  · refine .inr (.inr ⟨.invalidUtf8, ?_⟩)
    unfold decode
    rw [if_neg (by omega), if_neg (by omega), if_pos (by simpa using hu)]
    rfl

/-- **A payload is decoded exactly if** it is short enough, valid UTF-8, and an object of the grammar within the
limits. -/
theorem decode_eq_ok {payload : Bytes} {limit : ℕ} {v : Term} :
    decode payload limit = .ok v ↔
      payload.length ≤ limit ∧ validUtf8 payload = true ∧ (∃ es, v = .map es) ∧ Value lenient payload v ∧
        Within maxDepth v := by
  constructor
  · intro h
    have hpos : 0 < limit := by
      by_contra hn
      rw [decode, if_pos (by omega)] at h
      cases h
    rcases decode_cases payload hpos with ⟨w, hw, hrest⟩ | ⟨hw, -⟩ | ⟨reason, hw⟩ <;> rw [h] at hw <;> cases hw
    exact hrest
  · rintro ⟨hl, hu, ⟨es, rfl⟩, hv, hn⟩
    obtain ⟨t, rfl⟩ := brace_of_map hv
    have hp := parseValue_complete hv maxDepth 1 (enough (123 :: t)) [] hn (by omega) (by simp [enough])
      (by simp [Closed])
    rw [List.append_nil] at hp
    rw [decode_object hl hu, decodeObjectFrame_eq, hp]
    rfl

/-- **A payload raises exactly if** it is short enough, valid UTF-8, and an object that is stuck. -/
theorem decode_eq_raised {payload : Bytes} {limit : ℕ} (hpos : 0 < limit) :
    decode payload limit = .error .raised ↔
      payload.length ≤ limit ∧ validUtf8 payload = true ∧ payload.head? = some 123 ∧ Stuck maxDepth payload := by
  constructor
  · intro h
    rcases decode_cases payload hpos with ⟨w, hw, -⟩ | ⟨hw, hrest⟩ | ⟨reason, hw⟩ <;> rw [h] at hw <;> cases hw
    exact hrest
  · rintro ⟨hl, hu, hb, hs⟩
    rcases payload with _ | ⟨x, b⟩
    · cases hb
    · obtain rfl := Option.some.inj hb
      rw [decode_object hl hu, decodeObjectFrame_eq,
        parseValue_stuck hs 1 (enough (123 :: b)) (by omega) (by simp [enough])]
      rfl

/-- The fuel suffices. -/
theorem decode_ne_unfinished (payload : Bytes) (limit : ℕ) : decode payload limit ≠ .error .unfinished := by
  intro h
  have hpos : 0 < limit := by
    by_contra hn
    rw [decode, if_pos (by omega)] at h
    cases h
  rcases decode_cases payload hpos with ⟨w, hw, -⟩ | ⟨hw, -⟩ | ⟨reason, hw⟩ <;> rw [h] at hw <;> cases hw

end Loopex.Protocol.Frame
