import Mathlib.Logic.Relation
import Mathlib.Data.List.Basic
import Mathlib.Data.Nat.Notation
import Mathlib.Tactic.Common

/-!
# Regular expressions

Expressions over code points with anchors, classes, groups and a negative look-ahead, in the syntax that has no
alternatives and no lazy or possessive quantifiers; a text outside this syntax is not read.

* `Regex`, `Matches` — expressions, and what they match between two positions of a subject
* `parse` — the text of an expression
* `Consumes` — the language of an expression: one rule for each way to build one
* `Parses` — how a piece of syntax is read, whatever follows it: one rule for each way to write one
-/

namespace Loopex.System

/-- An expression. -/
inductive Regex where
  | empty
  | point (negated : Bool) (ranges : List (ℕ × ℕ))
  | seq (r s : Regex)
  | star (r : Regex)
  | optional (r : Regex)
  | notAhead (r : Regex)
  | begins
  | ends
  deriving DecidableEq

namespace Regex

def char (c : ℕ) : Regex := point false [(c, c)]

def plus (r : Regex) : Regex := seq r (star r)

/-- The expressions of a list one behind the other. -/
def seqAll (rs : List Regex) : Regex := rs.foldr seq empty

/-- A code point is in one of the ranges, or in none if they are negated. -/
def admits (negated : Bool) (ranges : List (ℕ × ℕ)) (c : ℕ) : Bool :=
  (ranges.any fun r => decide (r.1 ≤ c) && decide (c ≤ r.2)) != negated

/-- What an expression matches from one rest of the subject to another. -/
def Matches (subject : List ℕ) : Regex → List ℕ → List ℕ → Prop
  | empty, s, t => s = t
  | point negated ranges, s, t => ∃ c, s = c :: t ∧ admits negated ranges c = true
  | seq p q, s, t => ∃ u, Matches subject p s u ∧ Matches subject q u t
  | star r, s, t => Relation.ReflTransGen (Matches subject r) s t
  | optional r, s, t => s = t ∨ Matches subject r s t
  | notAhead r, s, t => s = t ∧ ¬ ∃ u, Matches subject r s u
  | begins, s, t => s = t ∧ s = subject
  | ends, s, t => s = t ∧ s = []

/-- `Regex.match?`: somewhere in the subject. -/
def IsMatch (r : Regex) (subject : List ℕ) : Prop := ∃ s t, s <:+ subject ∧ Matches subject r s t

/-! ## syntax -/

/-- The ASCII letters and digits; only these mean something behind a backslash. -/
def alphanumeric (c : ℕ) : Bool := (48 ≤ c && c ≤ 57) || (65 ≤ c && c ≤ 90) || (97 ≤ c && c ≤ 122)

/-- A member of a class, as it is or behind a backslash. -/
def readMember : List ℕ → Option (ℕ × List ℕ)
  | 92 :: c :: rest => if alphanumeric c then none else some (c, rest)
  | c :: rest => if c ∈ [45, 91, 92, 93] then none else some (c, rest)
  | [] => none

theorem readMember_length {s rest : List ℕ} {c : ℕ} (h : readMember s = some (c, rest)) : rest.length < s.length := by
  unfold readMember at h
  split at h
  · split at h
    · cases h
    · cases h
      simp only [List.length_cons]
      omega
  · split at h
    · cases h
    · cases h
      simp
  · cases h

/-- A range of a class, or one member. -/
def readRange (s : List ℕ) : Option ((ℕ × ℕ) × List ℕ) :=
  match readMember s with
  | some (low, 45 :: rest) =>
    match readMember rest with
    | some (high, rest) => if low ≤ high then some ((low, high), rest) else none
    | none => none
  | some (c, rest) => some ((c, c), rest)
  | none => none

theorem readRange_length {s rest : List ℕ} {range : ℕ × ℕ} (h : readRange s = some (range, rest)) :
    rest.length < s.length := by
  unfold readRange at h
  split at h
  next low rest' hlow =>
    have h1 := readMember_length hlow
    split at h
    next high rest'' hhigh =>
      have h2 := readMember_length hhigh
      split at h
      · cases h
        simp only [List.length_cons] at h1
        omega
      · cases h
    · cases h
  next c rest' hc =>
    cases h
    exact readMember_length hc
  · cases h

/-- The ranges of a class up to its bracket, at least one. -/
def readRanges (s : List ℕ) (ranges : List (ℕ × ℕ)) : Option (List (ℕ × ℕ) × List ℕ) :=
  if s.head? = some 93 then
    if ranges = [] then none else some (ranges.reverse, s.tail)
  else
    match _h : readRange s with
    | some (range, rest) => readRanges rest (range :: ranges)
    | none => none
termination_by s.length
decreasing_by exact readRange_length _h

theorem readRanges_length {s rest : List ℕ} {ranges acc : List (ℕ × ℕ)} (h : readRanges s acc = some (ranges, rest)) :
    rest.length < s.length := by
  induction s, acc using readRanges.induct with
  | case1 s hbracket => simp [readRanges, hbracket] at h
  | case2 s acc hbracket hne =>
    rw [readRanges, if_pos hbracket, if_neg hne] at h
    obtain ⟨-, rfl⟩ := Prod.mk.inj (Option.some.inj h)
    cases s with
    | nil => cases hbracket
    | cons c s => simp
  | case3 s acc hbracket range next hrange ih =>
    rw [readRanges, if_neg hbracket] at h
    split at h
    next range' next' hrange' =>
      obtain ⟨rfl, rfl⟩ := Prod.mk.inj (Option.some.inj (hrange.symm.trans hrange'))
      have h1 := readRange_length hrange
      have h2 := ih h
      omega
    · cases h
  | case4 s acc hbracket hnone =>
    rw [readRanges, if_neg hbracket] at h
    split at h
    next hrange =>
      rw [hnone] at hrange
      cases hrange
    · cases h

/-- What is read so far: the open groups, each with what is in front of it and whether it looks ahead, and the
expressions of the innermost, each with whether a quantifier may stand behind it. -/
structure Reading where
  stack : List (Bool × List (Regex × Bool))
  items : List (Regex × Bool)

/-- The expression of the innermost group. -/
def Reading.group (r : Reading) : Regex := seqAll (r.items.reverse.map Prod.fst)

def Reading.push (r : Reading) (item : Regex) (quantifiable : Bool) : Reading :=
  { r with items := (item, quantifiable) :: r.items }

def Reading.enter (r : Reading) (look : Bool) : Reading := ⟨(look, r.items) :: r.stack, []⟩

/-- `)`. -/
def Reading.leave (r : Reading) : Option Reading :=
  match r.stack with
  | (true, items) :: stack => some (Reading.push ⟨stack, items⟩ (notAhead r.group) false)
  | (false, items) :: stack => some (Reading.push ⟨stack, items⟩ r.group true)
  | [] => none

/-- A quantifier. -/
def Reading.quantify (r : Reading) (q : Regex → Regex) : Option Reading :=
  match r.items with
  | (item, true) :: items => some ⟨r.stack, (q item, false) :: items⟩
  | _ => none

def Reading.range (r : Reading) (negated : Bool) (s : List ℕ) : Option (List ℕ × Reading) :=
  (readRanges s []).map fun found => (found.2, r.push (point negated found.1) true)

/-- One piece of syntax. -/
def step (s : List ℕ) (r : Reading) : Option (List ℕ × Reading) :=
  match s with
  | 92 :: c :: rest =>
    if c = 65 then some (rest, r.push begins false)
    else if c = 122 then some (rest, r.push ends false)
    else if alphanumeric c then none
    else some (rest, r.push (char c) true)
  | 91 :: 94 :: rest => r.range true rest
  | 91 :: rest => r.range false rest
  | 40 :: 63 :: 58 :: rest => some (rest, r.enter false)
  | 40 :: 63 :: 33 :: rest => some (rest, r.enter true)
  | 41 :: rest => r.leave.map fun r => (rest, r)
  | 42 :: rest => (r.quantify star).map fun r => (rest, r)
  | 43 :: rest => (r.quantify plus).map fun r => (rest, r)
  | 63 :: rest => (r.quantify optional).map fun r => (rest, r)
  | c :: rest => if c ∈ [36, 40, 46, 92, 94, 123, 124] then none else some (rest, r.push (char c) true)
  | [] => none

theorem step_length {s rest : List ℕ} {r r' : Reading} (h : step s r = some (rest, r')) : rest.length < s.length := by
  have hrange : ∀ {negated : Bool} {tail : List ℕ}, r.range negated tail = some (rest, r') → rest.length < tail.length := by
    intro negated tail h
    obtain ⟨⟨ranges, rest'⟩, hfound, heq⟩ := Option.map_eq_some_iff.1 h
    obtain ⟨rfl, -⟩ := Prod.mk.inj heq
    exact readRanges_length hfound
  have hmap : ∀ {o : Option Reading} {tail : List ℕ}, (o.map fun r => (tail, r)) = some (rest, r') → rest = tail := by
    intro o tail h
    obtain ⟨_, -, heq⟩ := Option.map_eq_some_iff.1 h
    exact (Prod.mk.inj heq).1.symm
  unfold step at h
  split at h
  · split at h
    · cases h
      simp only [List.length_cons]
      omega
    split at h
    · cases h
      simp only [List.length_cons]
      omega
    split at h
    · cases h
    · cases h
      simp only [List.length_cons]
      omega
  · have := hrange h
    simp only [List.length_cons]
    omega
  · have := hrange h
    simp only [List.length_cons]
    omega
  · cases h
    simp only [List.length_cons]
    omega
  · cases h
    simp only [List.length_cons]
    omega
  · simp [hmap h]
  · simp [hmap h]
  · simp [hmap h]
  · simp [hmap h]
  · split at h
    · cases h
    · cases h
      simp
  · cases h

/-- The rest of a text. -/
def parseFrom (s : List ℕ) (r : Reading) : Option Regex :=
  if s = [] then if r.stack = [] then some r.group else none
  else
    match _h : step s r with
    | some (rest, r') => parseFrom rest r'
    | none => none
termination_by s.length
decreasing_by exact step_length _h

/-- The expression of a text. -/
def parse (s : List ℕ) : Option Regex := parseFrom s ⟨[], []⟩

variable {s t rest : List ℕ} {r r' : Reading}

theorem parseFrom_step (h : step s r = some (rest, r')) : parseFrom s r = parseFrom rest r' := by
  have hne : s ≠ [] := by
    rintro rfl
    cases h
  rw [parseFrom, if_neg hne]
  split
  next rest'' r'' h' =>
    obtain ⟨rfl, rfl⟩ := Prod.mk.inj (Option.some.inj (h.symm.trans h'))
    rfl
  next h' =>
    rw [h] at h'
    cases h'

/-! ## pieces of syntax -/

/-- A piece of text is read as some expressions, whatever follows it. -/
def Parses (w : List ℕ) (items : List (Regex × Bool)) : Prop :=
  ∀ (rest : List ℕ) (r : Reading), parseFrom (w ++ rest) r = parseFrom rest ⟨r.stack, items.reverse ++ r.items⟩

namespace Parses

variable {v w : List ℕ} {items items' : List (Regex × Bool)} {item : Regex} {c : ℕ}

theorem nil : Parses [] [] := fun _ _ => rfl

theorem append (h : Parses v items) (h' : Parses w items') : Parses (v ++ w) (items ++ items') := by
  intro rest r
  rw [List.append_assoc, h, h', List.reverse_append, List.append_assoc]

/-- A piece of syntax of one step. -/
theorem of_step {quantifiable : Bool} (h : ∀ (rest : List ℕ) r, step (w ++ rest) r = some (rest, r.push item quantifiable)) :
    Parses w [(item, quantifiable)] := fun rest r => parseFrom_step (h rest r)

/-- A code point that is no syntax. -/
theorem plain (h : c ∉ [36, 40, 41, 42, 43, 46, 63, 91, 92, 94, 123, 124]) : Parses [c] [(char c, true)] := by
  refine of_step fun rest r => ?_
  simp only [List.mem_cons, List.not_mem_nil, or_false, not_or] at h
  rw [List.singleton_append, step.eq_def]
  split <;> simp_all

/-- A code point behind a backslash. -/
theorem quoted (h : alphanumeric c = false) : Parses [92, c] [(char c, true)] := by
  refine of_step fun rest r => ?_
  have hA : c ≠ 65 := by
    rintro rfl
    cases h
  have hz : c ≠ 122 := by
    rintro rfl
    cases h
  change (if c = 65 then _ else if c = 122 then _ else if alphanumeric c then _ else _) = _
  rw [if_neg hA, if_neg hz, h]
  rfl

theorem begins : Parses [92, 65] [(Regex.begins, false)] := of_step fun _ _ => rfl

theorem ends : Parses [92, 122] [(Regex.ends, false)] := of_step fun _ _ => rfl

/-- A class whose ranges are read up to its bracket. -/
theorem positive {ranges : List (ℕ × ℕ)} (hc : w.head? ≠ some 94) (hne : w ≠ [])
    (h : ∀ rest : List ℕ, readRanges (w ++ 93 :: rest) [] = some (ranges, rest)) :
    Parses (91 :: w ++ [93]) [(point false ranges, true)] := by
  refine of_step fun rest r => ?_
  obtain ⟨d, w, rfl⟩ := List.exists_cons_of_ne_nil hne
  have hd : d ≠ 94 := fun heq => hc (heq ▸ rfl)
  have hread := h rest
  rw [List.append_assoc, List.cons_append, List.cons_append, List.singleton_append, step.eq_def]
  split
  next heq => cases heq
  next heq =>
    cases heq
    exact absurd rfl hd
  next heq =>
    cases heq
    rw [Reading.range]
    change Option.map _ (readRanges (d :: w ++ 93 :: rest) []) = _
    rw [hread]
    rfl
  all_goals simp_all

theorem negative {ranges : List (ℕ × ℕ)} (h : ∀ rest : List ℕ, readRanges (w ++ 93 :: rest) [] = some (ranges, rest)) :
    Parses (91 :: 94 :: w ++ [93]) [(point true ranges, true)] := by
  refine of_step fun rest r => ?_
  have hread := h rest
  rw [List.append_assoc, List.cons_append, List.cons_append, List.singleton_append]
  change r.range true (w ++ 93 :: rest) = _
  rw [Reading.range, hread]
  rfl

theorem group (h : Parses w items) : Parses ([40, 63, 58] ++ w ++ [41]) [(seqAll (items.map Prod.fst), true)] := by
  intro rest r
  rw [List.append_assoc, List.append_assoc]
  have henter : step ([40, 63, 58] ++ (w ++ ([41] ++ rest))) r = some (w ++ ([41] ++ rest), r.enter false) := rfl
  rw [parseFrom_step henter, h]
  have hleave : step ([41] ++ rest) ⟨(r.enter false).stack, items.reverse ++ (r.enter false).items⟩ =
      some (rest, r.push (seqAll (items.map Prod.fst)) true) := by
    simp [step, Reading.leave, Reading.enter, Reading.group, Reading.push]
  rw [parseFrom_step hleave]
  rfl

theorem notAhead (h : Parses w items) :
    Parses ([40, 63, 33] ++ w ++ [41]) [(Regex.notAhead (seqAll (items.map Prod.fst)), false)] := by
  intro rest r
  rw [List.append_assoc, List.append_assoc]
  have henter : step ([40, 63, 33] ++ (w ++ ([41] ++ rest))) r = some (w ++ ([41] ++ rest), r.enter true) := rfl
  rw [parseFrom_step henter, h]
  have hleave : step ([41] ++ rest) ⟨(r.enter true).stack, items.reverse ++ (r.enter true).items⟩ =
      some (rest, r.push (Regex.notAhead (seqAll (items.map Prod.fst))) false) := by
    simp [step, Reading.leave, Reading.enter, Reading.group, Reading.push]
  rw [parseFrom_step hleave]
  rfl

/-- A quantifier behind one expression. -/
theorem quantified {q : ℕ} {f : Regex → Regex} (hq : ∀ (rest : List ℕ) (r : Reading), step (q :: rest) r =
    (r.quantify f).map fun r => (rest, r)) (h : Parses w [(item, true)]) : Parses (w ++ [q]) [(f item, false)] := by
  intro rest r
  rw [List.append_assoc, h]
  exact parseFrom_step (hq rest _)

theorem star (h : Parses w [(item, true)]) : Parses (w ++ [42]) [(Regex.star item, false)] :=
  quantified (fun _ _ => rfl) h

theorem plus (h : Parses w [(item, true)]) : Parses (w ++ [43]) [(Regex.plus item, false)] :=
  quantified (fun _ _ => rfl) h

theorem optional (h : Parses w [(item, true)]) : Parses (w ++ [63]) [(Regex.optional item, false)] :=
  quantified (fun _ _ => rfl) h

/-- A whole text. -/
theorem parse (h : Parses w items) : parse w = some (seqAll (items.map Prod.fst)) := by
  have hread := h [] ⟨[], []⟩
  rw [List.append_nil] at hread
  rw [Regex.parse, hread, parseFrom, if_pos rfl, if_pos rfl]
  simp [Reading.group]

end Parses

/-! ## what is matched -/

variable {subject : List ℕ} {c : ℕ} {ps qs : List Regex} {p : Regex}

theorem matches_seqAll_append : Matches subject (seqAll (ps ++ qs)) s t ↔
    ∃ u, Matches subject (seqAll ps) s u ∧ Matches subject (seqAll qs) u t := by
  induction ps generalizing s with
  | nil => simp [seqAll, Matches]
  | cons p ps ih =>
    simp only [seqAll, List.cons_append, List.foldr_cons, Matches] at *
    constructor
    · rintro ⟨u, hp, h⟩
      obtain ⟨v, hv, hq⟩ := ih.1 h
      exact ⟨v, ⟨u, hp, hv⟩, hq⟩
    · rintro ⟨v, ⟨u, hp, hv⟩, hq⟩
      exact ⟨u, hp, ih.2 ⟨v, hv, hq⟩⟩

theorem matches_seqAll_singleton : Matches subject (seqAll [p]) s t ↔ Matches subject p s t := by
  simp [seqAll, Matches]

theorem matches_seqAll_cons : Matches subject (seqAll (p :: ps)) s t ↔
    ∃ u, Matches subject p s u ∧ Matches subject (seqAll ps) u t := Iff.rfl

theorem matches_char : Matches subject (char c) s t ↔ s = c :: t := by
  simp only [char, Matches, admits, List.any_cons, List.any_nil, Bool.or_false, bne_iff_ne, ne_eq, Bool.not_eq_false,
    Bool.and_eq_true, decide_eq_true_eq]
  constructor
  · rintro ⟨d, rfl, hle, hge⟩
    rw [Nat.le_antisymm hge hle]
  · rintro rfl
    exact ⟨c, rfl, Nat.le_refl c, Nat.le_refl c⟩

/-- An expression between the anchors matches the whole subject. -/
theorem isMatch_anchored : IsMatch (seqAll (begins :: ps ++ [ends])) subject ↔
    Matches subject (seqAll ps) subject [] := by
  constructor
  · rintro ⟨s, t, -, h⟩
    rw [List.cons_append, matches_seqAll_cons] at h
    obtain ⟨u, ⟨rfl, rfl⟩, h⟩ := h
    obtain ⟨v, hps, hend⟩ := matches_seqAll_append.1 h
    rw [matches_seqAll_singleton] at hend
    rw [hend.2] at hps
    exact hps
  · intro h
    refine ⟨subject, [], List.suffix_rfl, ?_⟩
    rw [List.cons_append, matches_seqAll_cons]
    exact ⟨subject, ⟨rfl, rfl⟩, matches_seqAll_append.2 ⟨[], h, matches_seqAll_singleton.2 ⟨rfl, rfl⟩⟩⟩

/-! ## languages -/

/-- An expression that takes the texts of a language, wherever they stand. -/
def Consumes (subject : List ℕ) (r : Regex) (P : List ℕ → Prop) : Prop :=
  ∀ s t, Matches subject r s t ↔ ∃ w, P w ∧ s = w ++ t

namespace Consumes

variable {r : Regex} {P Q : List ℕ → Prop}

theorem congr (h : Consumes subject r P) (hPQ : ∀ w, P w ↔ Q w) : Consumes subject r Q := fun s t =>
  (h s t).trans (exists_congr fun w => and_congr_left fun _ => hPQ w)

theorem nil : Consumes subject (seqAll []) (· = []) := by
  intro s t
  simp [seqAll, Matches]

theorem cons (hp : Consumes subject p P) (hps : Consumes subject (seqAll ps) Q) :
    Consumes subject (seqAll (p :: ps)) fun w => ∃ u v, P u ∧ Q v ∧ w = u ++ v := by
  intro s t
  rw [matches_seqAll_cons]
  constructor
  · rintro ⟨m, h, h'⟩
    obtain ⟨u, hu, rfl⟩ := (hp _ _).1 h
    obtain ⟨v, hv, rfl⟩ := (hps _ _).1 h'
    exact ⟨u ++ v, ⟨u, v, hu, hv, rfl⟩, (List.append_assoc _ _ _).symm⟩
  · rintro ⟨w, ⟨u, v, hu, hv, rfl⟩, rfl⟩
    exact ⟨v ++ t, (hp _ _).2 ⟨u, hu, List.append_assoc _ _ _⟩, (hps _ _).2 ⟨v, hv, rfl⟩⟩

theorem append (hps : Consumes subject (seqAll ps) P) (hqs : Consumes subject (seqAll qs) Q) :
    Consumes subject (seqAll (ps ++ qs)) fun w => ∃ u v, P u ∧ Q v ∧ w = u ++ v := by
  intro s t
  rw [matches_seqAll_append]
  constructor
  · rintro ⟨m, h, h'⟩
    obtain ⟨u, hu, rfl⟩ := (hps _ _).1 h
    obtain ⟨v, hv, rfl⟩ := (hqs _ _).1 h'
    exact ⟨u ++ v, ⟨u, v, hu, hv, rfl⟩, (List.append_assoc _ _ _).symm⟩
  · rintro ⟨w, ⟨u, v, hu, hv, rfl⟩, rfl⟩
    exact ⟨v ++ t, (hps _ _).2 ⟨u, hu, List.append_assoc _ _ _⟩, (hqs _ _).2 ⟨v, hv, rfl⟩⟩

theorem singleton (hp : Consumes subject p P) : Consumes subject (seqAll [p]) P := fun s t =>
  matches_seqAll_singleton.trans (hp s t)

theorem char : Consumes subject (char c) (· = [c]) := by
  intro s t
  rw [matches_char]
  simp

section
variable {α : Type} {p : α → Prop} {f : α → List ℕ}

/-- Any number of texts of a language. -/
theorem star (hr : Consumes subject r fun w => ∃ x, p x ∧ w = f x) :
    Consumes subject (Regex.star r) fun w => ∃ xs : List α, (∀ x ∈ xs, p x) ∧ w = xs.flatMap f := by
  intro s t
  constructor
  · intro h
    change Relation.ReflTransGen (Matches subject r) s t at h
    induction h using Relation.ReflTransGen.head_induction_on with
    | refl => exact ⟨[], ⟨[], List.forall_mem_nil _, rfl⟩, rfl⟩
    | head h _ ih =>
      obtain ⟨_, ⟨x, hx, rfl⟩, rfl⟩ := (hr _ _).1 h
      obtain ⟨_, ⟨xs, hxs, rfl⟩, rfl⟩ := ih
      exact ⟨f x ++ xs.flatMap f, ⟨x :: xs, List.forall_mem_cons.2 ⟨hx, hxs⟩, rfl⟩, (List.append_assoc _ _ _).symm⟩
  · rintro ⟨_, ⟨xs, hxs, rfl⟩, rfl⟩
    change Relation.ReflTransGen (Matches subject r) _ _
    induction xs with
    | nil => exact .refl
    | cons x xs ih =>
      obtain ⟨hx, hxs⟩ := List.forall_mem_cons.1 hxs
      rw [List.flatMap_cons, List.append_assoc]
      exact .head ((hr _ _).2 ⟨f x, ⟨x, hx, rfl⟩, rfl⟩) (ih hxs)

theorem plus (hr : Consumes subject r fun w => ∃ x, p x ∧ w = f x) :
    Consumes subject (Regex.plus r) fun w => ∃ xs : List α, xs ≠ [] ∧ (∀ x ∈ xs, p x) ∧ w = xs.flatMap f := by
  have hseq := hr.cons hr.star.singleton
  intro s t
  have hplus : Matches subject (Regex.plus r) s t ↔ Matches subject (seqAll [r, Regex.star r]) s t := by
    rw [matches_seqAll_cons]
    exact exists_congr fun u => and_congr_right fun _ => matches_seqAll_singleton.symm
  rw [hplus, hseq]
  refine exists_congr fun w => and_congr_left fun _ => ?_
  constructor
  · rintro ⟨_, _, ⟨x, hx, rfl⟩, ⟨xs, hxs, rfl⟩, rfl⟩
    exact ⟨x :: xs, List.cons_ne_nil _ _, List.forall_mem_cons.2 ⟨hx, hxs⟩, rfl⟩
  · rintro ⟨xs, hne, hxs, rfl⟩
    obtain ⟨x, xs, rfl⟩ := List.exists_cons_of_ne_nil hne
    obtain ⟨hx, hxs⟩ := List.forall_mem_cons.1 hxs
    exact ⟨f x, xs.flatMap f, ⟨x, hx, rfl⟩, ⟨xs, hxs, rfl⟩, rfl⟩

end

theorem optional (hr : Consumes subject r P) : Consumes subject (Regex.optional r) fun w => w = [] ∨ P w := by
  intro s t
  change s = t ∨ Matches subject r s t ↔ _
  rw [hr]
  constructor
  · rintro (rfl | ⟨w, hw, rfl⟩)
    · exact ⟨[], .inl rfl, rfl⟩
    · exact ⟨w, .inr hw, rfl⟩
  · rintro ⟨w, rfl | hw, rfl⟩
    · exact .inl rfl
    · exact .inr ⟨w, hw, rfl⟩

end Consumes

end Regex

end Loopex.System
