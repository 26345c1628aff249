import Loopex.Executor.GlobReading

/-!
# What globs match

The expression of a glob matches a relative path if and only if the matcher of the glob does.

* `parse_printGlob` — the text that is written for a glob is read as the expression `globItems`
* `consumes_glob` — the texts that this expression takes
* `globText_join` — of a path, the matcher takes the same
* `compile_matches` — the compilation of every pattern
-/

namespace Loopex.Executor.ToolGlob

open Loopex.Erlang Loopex.System Loopex.System.Regex

variable {s t u v w rest : Text} {elements : List Element} {glob : List Segment} {path front back names : List Text}

/-! ## well-formed globs -/

def Item.Ordered : Item → Prop
  | .one _ => True
  | .range low high => low ≤ high

/-- A class has an item, and its ranges are in order. -/
def Element.WellFormed : Element → Prop
  | .cls _ items => items ≠ [] ∧ ∀ i ∈ items, i.Ordered
  | _ => True

def Segment.WellFormed : Segment → Prop
  | .doubleStar => True
  | .part elements => ∀ e ∈ elements, e.WellFormed

theorem items_ordered {start : Bool} {members : List Member} {items : List Item} (h : Items start members items) :
    ∀ i ∈ items, i.Ordered := by
  induction h with
  | nil => exact List.forall_mem_nil _
  | range _ _ order _ ih => exact List.forall_mem_cons.2 ⟨order, ih⟩
  | one _ _ _ ih => exact List.forall_mem_cons.2 ⟨trivial, ih⟩

theorem items_ne_nil {start : Bool} {members : List Member} {items : List Item} (h : Items start members items)
    (hne : members ≠ []) : items ≠ [] := by
  cases h with
  | nil => exact absurd rfl hne
  | range => exact List.cons_ne_nil _ _
  | one => exact List.cons_ne_nil _ _

theorem class_wellFormed {negated : Bool} {items : List Item} (h : Class s negated items) :
    (Element.cls negated items).WellFormed := by
  cases h with
  | positive _ some_member _ hitems => exact ⟨items_ne_nil hitems some_member, items_ordered hitems⟩
  | negative some_member _ hitems => exact ⟨items_ne_nil hitems some_member, items_ordered hitems⟩

theorem part_wellFormed (h : Part s elements) : ∀ e ∈ elements, e.WellFormed := by
  induction h with
  | nil => exact List.forall_mem_nil _
  | star _ _ ih => exact List.forall_mem_cons.2 ⟨trivial, ih⟩
  | any _ ih => exact List.forall_mem_cons.2 ⟨trivial, ih⟩
  | quoted _ ih => exact List.forall_mem_cons.2 ⟨trivial, ih⟩
  | cls hclass _ ih => exact List.forall_mem_cons.2 ⟨class_wellFormed hclass, ih⟩
  | literal _ _ ih => exact List.forall_mem_cons.2 ⟨trivial, ih⟩

theorem segment_wellFormed {g : Segment} (h : ReadsSegment s g) : g.WellFormed := by
  cases h with
  | doubleStar => trivial
  | part _ hpart => exact part_wellFormed hpart

/-- What is read is well formed. -/
theorem reads_wellFormed (h : Reads s glob) : ∀ g ∈ glob, g.WellFormed := by
  induction h with
  | last hsegment => exact List.forall_mem_singleton.2 (segment_wellFormed hsegment)
  | more hsegment _ ih => exact List.forall_mem_cons.2 ⟨segment_wellFormed hsegment, ih⟩

/-! ## the text of a class -/

def Item.bounds : Item → ℕ × ℕ
  | .one c => (c, c)
  | .range low high => (low, high)

theorem readMember_classLiteral (c : ℕ) : readMember (classLiteral c ++ t) = some (c, t) := by
  rw [classLiteral]
  split
  next hspecial =>
    have hplain : alphanumeric c = false := by
      simp only [List.mem_cons, List.not_mem_nil, or_false] at hspecial
      rcases hspecial with rfl | rfl | rfl | rfl | rfl <;> rfl
    change (if alphanumeric c then none else some (c, t)) = _
    rw [hplain]
    rfl
  next hplain =>
    simp only [List.mem_cons, List.not_mem_nil, or_false, not_or] at hplain
    rw [List.singleton_append, readMember.eq_def]
    split <;> simp_all

/-- A literal of a class begins neither a range nor a negation, and does not end the class. -/
theorem classLiteral_head (c : ℕ) : ∃ d l, classLiteral c = d :: l ∧ d ∉ [45, 93, 94] := by
  rw [classLiteral]
  split
  · exact ⟨92, [c], rfl, by decide⟩
  next hplain =>
    refine ⟨c, [], rfl, fun hc => hplain ?_⟩
    simp only [List.mem_cons, List.not_mem_nil, or_false] at hc ⊢
    omega

theorem printItem_head (i : Item) : ∃ d l, printItem i = d :: l ∧ d ∉ [45, 93, 94] := by
  cases i with
  | one c => exact classLiteral_head c
  | range low high =>
    obtain ⟨d, l, heq, hd⟩ := classLiteral_head low
    exact ⟨d, l ++ 45 :: classLiteral high, by rw [printItem, heq]; rfl, hd⟩

theorem printItems_head {items : List Item} (hne : items ≠ []) : ∃ d l, printItems items = d :: l ∧ d ∉ [45, 93, 94] := by
  obtain ⟨i, items, rfl⟩ := List.exists_cons_of_ne_nil hne
  obtain ⟨d, l, heq, hd⟩ := printItem_head i
  exact ⟨d, l ++ printItems items, by rw [printItems, List.flatMap_cons, heq]; rfl, hd⟩

theorem readRange_printItem {i : Item} (hi : i.Ordered) (ht : t.head? ≠ some 45) :
    readRange (printItem i ++ t) = some (i.bounds, t) := by
  cases i with
  | one c =>
    rw [printItem, readRange, readMember_classLiteral]
    split
    next heq =>
      obtain ⟨-, rfl⟩ := Prod.mk.inj (Option.some.inj heq)
      exact absurd rfl ht
    next heq =>
      obtain ⟨rfl, rfl⟩ := Prod.mk.inj (Option.some.inj heq)
      rfl
    next heq => cases heq
  | range low high =>
    rw [printItem, List.append_assoc, List.cons_append, readRange, readMember_classLiteral]
    split
    next heq =>
      obtain ⟨rfl, hrest⟩ := Prod.mk.inj (Option.some.inj heq)
      obtain rfl := List.tail_eq_of_cons_eq hrest
      rw [readMember_classLiteral]
      exact if_pos hi
    next hother heq =>
      obtain ⟨rfl, rfl⟩ := Prod.mk.inj (Option.some.inj heq)
      exact (hother _ rfl).elim
    next heq => cases heq

theorem readRanges_printItems {items : List Item} (hordered : ∀ i ∈ items, i.Ordered) {acc : List (ℕ × ℕ)}
    (hne : items ≠ [] ∨ acc ≠ []) :
    readRanges (printItems items ++ 93 :: rest) acc = some (acc.reverse ++ items.map Item.bounds, rest) := by
  induction items generalizing acc with
  | nil =>
    have hacc : acc ≠ [] := hne.resolve_left (fun h => h rfl)
    have hbracket : (printItems [] ++ 93 :: rest).head? = some 93 := rfl
    rw [readRanges, if_pos hbracket, if_neg hacc, List.map_nil, List.append_nil]
    rfl
  | cons i items ih =>
    obtain ⟨hi, hordered⟩ := List.forall_mem_cons.1 hordered
    have hsplit : printItems (i :: items) ++ 93 :: rest = printItem i ++ (printItems items ++ 93 :: rest) := by
      rw [printItems, List.flatMap_cons, List.append_assoc]
      rfl
    have htail : (printItems items ++ 93 :: rest).head? ≠ some 45 := by
      cases items with
      | nil => exact fun h => by cases h
      | cons j items =>
        obtain ⟨d, l, heq, hd⟩ := printItems_head (List.cons_ne_nil j items)
        rw [heq]
        rintro h
        cases h
        exact hd (by decide)
    have hhead : (printItem i ++ (printItems items ++ 93 :: rest)).head? ≠ some 93 := by
      obtain ⟨d, l, heq, hd⟩ := printItem_head i
      rw [heq]
      rintro h
      cases h
      exact hd (by decide)
    rw [hsplit, readRanges, if_neg hhead]
    split
    next range next hrange =>
      obtain ⟨rfl, rfl⟩ := Prod.mk.inj (Option.some.inj ((readRange_printItem hi htail).symm.trans hrange))
      rw [ih hordered (.inr (List.cons_ne_nil _ _)), List.reverse_cons, List.append_assoc]
      rfl
    next hnone =>
      have hread := (readRange_printItem hi htail).symm.trans hnone
      cases hread

/-! ## the expression of a glob -/

def notSlash : Regex := point true [(47, 47)]

def elementItems : Element → List (Regex × Bool)
  | .star => [(star notSlash, false)]
  | .any => [(notSlash, true)]
  | .literal c => [(char c, true)]
  | .cls negated items => [(seqAll [notAhead (seqAll [char 47]), point negated (items.map Item.bounds)], true)]

def partItems (elements : List Element) : List (Regex × Bool) := elements.flatMap elementItems

def globItems : List Segment → List (Regex × Bool)
  | [] => []
  | [.doubleStar] => [(optional (seqAll [plus notSlash, star (seqAll [char 47, plus notSlash])]), false)]
  | [.part elements] => partItems elements
  | .doubleStar :: next :: rest => (star (seqAll [plus notSlash, char 47]), false) :: globItems (next :: rest)
  | [.part elements, .doubleStar] => partItems elements ++ [(star (seqAll [char 47, plus notSlash]), false)]
  | .part elements :: next :: rest => partItems elements ++ (char 47, true) :: globItems (next :: rest)

theorem parses_notSlash : Parses (textOf "[^/]") [(notSlash, true)] := by
  have hordered : ∀ i ∈ [Item.one 47], i.Ordered := List.forall_mem_singleton.2 trivial
  exact Parses.negative fun rest => readRanges_printItems hordered (.inl (List.cons_ne_nil _ _))

theorem parses_slash : Parses [47] [(char 47, true)] := Parses.plain (by decide)

theorem parses_escape (c : ℕ) : Parses (escape c) [(char c, true)] := by
  rw [escape]
  split
  next hescapable =>
    apply Parses.quoted
    rw [escapable, decide_eq_true_eq] at hescapable
    simp only [List.mem_cons, List.not_mem_nil, or_false] at hescapable
    rw [alphanumeric]
    simp only [Bool.or_eq_false_iff, Bool.and_eq_false_iff, decide_eq_false_iff_not]
    omega
  next hplain =>
    apply Parses.plain
    rw [escapable, decide_eq_true_eq] at hplain
    simp only [List.mem_cons, List.not_mem_nil, or_false, not_or] at hplain ⊢
    omega

theorem parses_element {e : Element} (h : e.WellFormed) : Parses (printElement e) (elementItems e) := by
  cases e with
  | star => exact parses_notSlash.star
  | any => exact parses_notSlash
  | literal c => exact parses_escape c
  | cls negated items =>
    have hread : ∀ rest, readRanges (printItems items ++ 93 :: rest) [] = some (items.map Item.bounds, rest) := fun rest =>
      readRanges_printItems h.2 (.inl h.1)
    have hclass : Parses (91 :: (if negated then 94 :: printItems items else printItems items) ++ [93])
        [(point negated (items.map Item.bounds), true)] := by
      cases negated with
      | true => exact Parses.negative hread
      | false =>
        obtain ⟨d, l, heq, hd⟩ := printItems_head h.1
        refine Parses.positive ?_ ?_ hread
        · rw [if_neg Bool.false_ne_true, heq]
          rintro hcaret
          cases hcaret
          exact hd (by decide)
        · rw [if_neg Bool.false_ne_true, heq]
          exact List.cons_ne_nil _ _
    have hgroup := (parses_slash.notAhead.append hclass).group
    cases negated with
    | true =>
      have htext : printElement (.cls true items) =
          [40, 63, 58] ++ ([40, 63, 33] ++ [47] ++ [41] ++ (91 :: 94 :: printItems items ++ [93])) ++ [41] := by
        change textOf "(?:(?!/)[" ++ 94 :: printItems items ++ textOf "])" = _
        have hopen : textOf "(?:(?!/)[" = [40, 63, 58] ++ ([40, 63, 33] ++ [47] ++ [41]) ++ [91] := rfl
        have hclose : textOf "])" = [93] ++ [41] := rfl
        rw [hopen, hclose]
        simp only [List.append_assoc, List.cons_append, List.nil_append]
      rw [htext]
      exact hgroup
    | false =>
      have htext : printElement (.cls false items) =
          [40, 63, 58] ++ ([40, 63, 33] ++ [47] ++ [41] ++ (91 :: printItems items ++ [93])) ++ [41] := by
        change textOf "(?:(?!/)[" ++ printItems items ++ textOf "])" = _
        have hopen : textOf "(?:(?!/)[" = [40, 63, 58] ++ ([40, 63, 33] ++ [47] ++ [41]) ++ [91] := rfl
        have hclose : textOf "])" = [93] ++ [41] := rfl
        rw [hopen, hclose]
        simp only [List.append_assoc, List.cons_append, List.nil_append]
      rw [htext]
      exact hgroup

theorem parses_part (h : ∀ e ∈ elements, e.WellFormed) : Parses (printPart elements) (partItems elements) := by
  induction elements with
  | nil => exact .nil
  | cons e elements ih =>
    obtain ⟨he, h⟩ := List.forall_mem_cons.1 h
    rw [printPart, partItems, List.flatMap_cons, List.flatMap_cons]
    exact (parses_element he).append (ih h)

theorem parses_glob (h : ∀ g ∈ glob, g.WellFormed) : Parses (printGlob glob) (globItems glob) := by
  have hplus := parses_notSlash.plus
  induction glob using globItems.induct with
  | case1 => exact .nil
  | case2 => exact (hplus.append (parses_slash.append hplus).group.star).group.optional
  | case3 elements => exact parses_part (List.forall_mem_singleton.1 h)
  | case4 next rest ih =>
    obtain ⟨-, h⟩ := List.forall_mem_cons.1 h
    exact ((hplus.append parses_slash).group.star).append (ih h)
  | case5 elements =>
    exact (parses_part (List.forall_mem_cons.1 h).1).append (parses_slash.append hplus).group.star
  | case6 elements next rest hnext ih =>
    obtain ⟨hpart, h⟩ := List.forall_mem_cons.1 h
    rw [printGlob, globItems]
    · exact (parses_part hpart).append (parses_slash.append (ih h))
    all_goals exact hnext

/-- The text that is written for a glob is read as its expression. -/
theorem parse_printGlob (h : ∀ g ∈ glob, g.WellFormed) : Regex.parse (textOf "\\A" ++ printGlob glob ++ textOf "\\z") =
    some (seqAll (begins :: (globItems glob).map Prod.fst ++ [ends])) := by
  have hparse := ((Parses.begins.append (parses_glob h)).append Parses.ends).parse
  rw [List.map_append, List.map_append] at hparse
  exact hparse

/-! ## what the elements take -/

/-- The texts that an element takes. -/
def Element.Takes : Element → Text → Prop
  | .star, w => 47 ∉ w
  | .any, w => ∃ c, c ≠ 47 ∧ w = [c]
  | .literal c, w => w = [c]
  | .cls negated items, w => ∃ c, classAdmits negated items c = true ∧ w = [c]

/-- The name of a segment of a path. -/
def Name (s : Text) : Prop := s ≠ [] ∧ 47 ∉ s

section
variable {subject : Text}

theorem consumes_notSlash : Consumes subject notSlash fun w => ∃ c, c ≠ 47 ∧ w = [c] := by
  intro s t
  have hadmits : ∀ c, admits true [(47, 47)] c = true ↔ c ≠ 47 := by
    intro c
    simp only [admits, List.any_cons, List.any_nil, Bool.or_false, bne_iff_ne, ne_eq, Bool.not_eq_true,
      Bool.and_eq_false_iff, decide_eq_false_iff_not]
    omega
  simp only [notSlash, Matches, hadmits]
  constructor
  · rintro ⟨c, rfl, hc⟩
    exact ⟨[c], ⟨c, hc, rfl⟩, rfl⟩
  · rintro ⟨_, ⟨c, hc, rfl⟩, rfl⟩
    exact ⟨c, rfl, hc⟩

theorem consumes_stars : Consumes subject (star notSlash) fun w => 47 ∉ w := by
  refine consumes_notSlash.star.congr fun w => ?_
  constructor
  · rintro ⟨cs, hcs, rfl⟩ hslash
    rw [List.flatMap_singleton'] at hslash
    exact hcs 47 hslash rfl
  · intro hslash
    exact ⟨w, fun c hc heq => hslash (heq ▸ hc), (List.flatMap_singleton' w).symm⟩

theorem consumes_name : Consumes subject (seqAll [plus notSlash]) Name := by
  refine (consumes_notSlash.plus.congr fun w => ?_).singleton
  constructor
  · rintro ⟨cs, hne, hcs, rfl⟩
    rw [List.flatMap_singleton']
    exact ⟨hne, fun hslash => hcs 47 hslash rfl⟩
  · rintro ⟨hne, hslash⟩
    exact ⟨w, hne, fun c hc heq => hslash (heq ▸ hc), (List.flatMap_singleton' w).symm⟩

theorem admits_bounds (negated : Bool) (items : List Item) (c : ℕ) :
    admits negated (items.map Item.bounds) c = (items.any (Item.admits c) != negated) := by
  rw [admits, List.any_map]
  congr 2
  funext i
  cases i with
  | one d =>
    change (decide (d ≤ c) && decide (c ≤ d)) = decide (c = d)
    rw [Bool.eq_iff_iff, Bool.and_eq_true, decide_eq_true_eq, decide_eq_true_eq, decide_eq_true_eq]
    omega
  | range low high => rfl

theorem consumes_class (negated : Bool) (items : List Item) :
    Consumes subject (seqAll [notAhead (seqAll [char 47]), point negated (items.map Item.bounds)])
      fun w => ∃ c, classAdmits negated items c = true ∧ w = [c] := by
  intro s t
  have hclass : ∀ c, classAdmits negated items c = true ↔
      c ≠ 47 ∧ admits negated (items.map Item.bounds) c = true := by
    intro c
    rw [admits_bounds, classAdmits, Bool.and_eq_true, decide_eq_true_eq]
  have hahead : (∃ u, Matches subject (seqAll [char 47]) s u) ↔ ∃ u, s = 47 :: u :=
    exists_congr fun u => matches_seqAll_singleton.trans matches_char
  rw [matches_seqAll_cons]
  constructor
  · rintro ⟨_, ⟨rfl, hnot⟩, h⟩
    obtain ⟨c, rfl, hc⟩ := matches_seqAll_singleton.1 h
    refine ⟨[c], ⟨c, (hclass c).2 ⟨?_, hc⟩, rfl⟩, rfl⟩
    rintro rfl
    exact hnot (hahead.2 ⟨t, rfl⟩)
  · rintro ⟨_, ⟨c, hc, rfl⟩, rfl⟩
    obtain ⟨hslash, hc⟩ := (hclass c).1 hc
    refine ⟨[c] ++ t, ⟨rfl, fun h => ?_⟩, matches_seqAll_singleton.2 ⟨c, rfl, hc⟩⟩
    obtain ⟨u, heq⟩ := hahead.1 h
    exact hslash (List.cons.inj heq).1

theorem consumes_element (e : Element) : Consumes subject (seqAll ((elementItems e).map Prod.fst)) e.Takes := by
  cases e with
  | star => exact consumes_stars.singleton
  | any => exact consumes_notSlash.singleton
  | literal c => exact Consumes.char.singleton
  | cls negated items => exact (consumes_class negated items).singleton

end

/-- The matcher of a segment takes a text apart, element by element. -/
theorem partMatches_cons {e : Element} : partMatches (e :: elements) w = true ↔
    ∃ u v, e.Takes u ∧ partMatches elements v = true ∧ w = u ++ v := by
  cases e with
  | star =>
    induction w with
    | nil =>
      rw [partMatches]
      constructor
      · intro h
        exact ⟨[], [], List.not_mem_nil, h, rfl⟩
      · rintro ⟨u, v, -, h, heq⟩
        obtain ⟨rfl, rfl⟩ := List.nil_eq_append_iff.1 heq
        exact h
    | cons c w ih =>
      rw [partMatches, Bool.or_eq_true, Bool.and_eq_true, decide_eq_true_eq, ih]
      constructor
      · rintro (h | ⟨hc, u, v, hu, h, rfl⟩)
        · exact ⟨[], c :: w, List.not_mem_nil, h, rfl⟩
        · exact ⟨c :: u, v, fun hslash => hu ((List.mem_cons.1 hslash).resolve_left (Ne.symm hc)), h, rfl⟩
      · rintro ⟨u, v, hu, h, heq⟩
        rcases u with _ | ⟨d, u⟩
        · rw [List.nil_append] at heq
          rw [heq]
          exact .inl h
        · obtain ⟨rfl, rfl⟩ := List.cons.inj heq
          refine .inr ⟨?_, u, v, fun hslash => hu (List.mem_cons_of_mem _ hslash), h, rfl⟩
          rintro rfl
          exact hu List.mem_cons_self
  | any =>
    cases w with
    | nil => simp [partMatches, Element.Takes]
    | cons c w =>
      rw [partMatches, Bool.and_eq_true, decide_eq_true_eq]
      constructor
      · rintro ⟨hc, h⟩
        exact ⟨[c], w, ⟨c, hc, rfl⟩, h, rfl⟩
      · rintro ⟨_, v, ⟨d, hd, rfl⟩, h, heq⟩
        obtain ⟨rfl, rfl⟩ := List.cons.inj heq
        exact ⟨hd, h⟩
  | literal d =>
    cases w with
    | nil => simp [partMatches, Element.Takes]
    | cons c w =>
      rw [partMatches, Bool.and_eq_true, decide_eq_true_eq]
      constructor
      · rintro ⟨rfl, h⟩
        exact ⟨[c], w, rfl, h, rfl⟩
      · rintro ⟨_, v, rfl, h, heq⟩
        obtain ⟨rfl, rfl⟩ := List.cons.inj heq
        exact ⟨rfl, h⟩
  | cls negated items =>
    cases w with
    | nil => simp [partMatches, Element.Takes]
    | cons c w =>
      rw [partMatches, Bool.and_eq_true]
      constructor
      · rintro ⟨hc, h⟩
        exact ⟨[c], w, ⟨c, hc, rfl⟩, h, rfl⟩
      · rintro ⟨_, v, ⟨d, hd, rfl⟩, h, heq⟩
        obtain ⟨rfl, rfl⟩ := List.cons.inj heq
        exact ⟨hd, h⟩

theorem partMatches_nil : partMatches [] w = true ↔ w = [] := by
  rw [partMatches, List.isEmpty_iff]

theorem consumes_part {subject : Text} (elements : List Element) :
    Consumes subject (seqAll ((partItems elements).map Prod.fst)) fun w => partMatches elements w = true := by
  induction elements with
  | nil => exact Consumes.nil.congr fun w => partMatches_nil.symm
  | cons e elements ih =>
    rw [partItems, List.flatMap_cons, List.map_append]
    exact ((consumes_element e).append ih).congr fun w => partMatches_cons.symm

/-! ## paths -/

theorem join_flatMap : join (s :: names) = s ++ names.flatMap (47 :: ·) := by
  induction names generalizing s with
  | nil => exact (List.append_nil s).symm
  | cons t names ih => rw [join, ih, List.flatMap_cons, List.cons_append]

theorem join_append (hne : back ≠ []) : join (front ++ back) = front.flatMap (· ++ [47]) ++ join back := by
  induction front with
  | nil => rfl
  | cons s front ih =>
    obtain ⟨t, rest, hrest⟩ := List.exists_cons_of_ne_nil (List.append_ne_nil_of_right_ne_nil front hne)
    rw [List.cons_append, hrest, join, ← hrest, ih, List.flatMap_cons]
    simp only [List.append_assoc, List.cons_append, List.nil_append]

theorem join_append' (hf : front ≠ []) (hb : back ≠ []) : join (front ++ back) = join front ++ 47 :: join back := by
  obtain ⟨s, front, rfl⟩ := List.exists_cons_of_ne_nil hf
  obtain ⟨t, back, rfl⟩ := List.exists_cons_of_ne_nil hb
  rw [List.cons_append, join_flatMap, join_flatMap, join_flatMap, List.flatMap_append, List.flatMap_cons]
  simp only [List.append_assoc, List.cons_append]

/-- Segments of a path. -/
def Names (path : List Text) : Prop := ∀ s ∈ path, Name s

theorem join_ne_nil (hne : path ≠ []) (h : Names path) : join path ≠ [] := by
  obtain ⟨s, path, rfl⟩ := List.exists_cons_of_ne_nil hne
  rw [join_flatMap]
  exact List.append_ne_nil_of_left_ne_nil (h s List.mem_cons_self).1 _

theorem Names.append (h : Names front) (h' : Names back) : Names (front ++ back) := fun s hs =>
  (List.mem_append.1 hs).elim (h s) (h' s)

/-- The text of a path is cut at a slash between two of its segments only. -/
theorem join_cut (h : Names path) (hcut : join path = u ++ 47 :: v) :
    ∃ front back, front ≠ [] ∧ back ≠ [] ∧ path = front ++ back ∧ u = join front ∧ v = join back := by
  induction path generalizing u with
  | nil => exact absurd hcut (by simp [join])
  | cons s path ih =>
    obtain ⟨hs, h⟩ := List.forall_mem_cons.1 h
    have hslash : ∀ {a b : Text}, s = a ++ 47 :: b → False := by
      rintro a b rfl
      exact hs.2 (by simp)
    cases path with
    | nil => exact (hslash hcut).elim
    | cons t path =>
      rw [join] at hcut
      rcases List.append_eq_append_iff.1 hcut with ⟨a, rfl, ha⟩ | ⟨a, hsplit, ha⟩
      · rcases a with _ | ⟨d, a⟩
        · rw [List.append_nil]
          exact ⟨[s], t :: path, List.cons_ne_nil _ _, List.cons_ne_nil _ _, rfl, rfl, (List.cons.inj ha).2.symm⟩
        · obtain ⟨rfl, hrest⟩ := List.cons.inj ha
          obtain ⟨front, back, hfront, hback, heq, rfl, rfl⟩ := ih h hrest
          obtain ⟨r, front, rfl⟩ := List.exists_cons_of_ne_nil hfront
          refine ⟨s :: r :: front, back, List.cons_ne_nil _ _, hback, by rw [heq]; rfl, ?_, rfl⟩
          rw [join]
      · rcases a with _ | ⟨d, a⟩
        · rw [List.append_nil] at hsplit
          rw [hsplit]
          exact ⟨[u], t :: path, List.cons_ne_nil _ _, List.cons_ne_nil _ _, rfl, rfl, (List.cons.inj ha).2⟩
        · obtain ⟨rfl, -⟩ := List.cons.inj ha
          exact (hslash hsplit).elim

/-- A path without a slash is one segment. -/
theorem eq_singleton_of_join (hne : path ≠ []) (hslash : 47 ∉ join path) : path = [join path] := by
  obtain ⟨s, path, rfl⟩ := List.exists_cons_of_ne_nil hne
  cases path with
  | nil => rfl
  | cons t path => exact absurd (by rw [join]; simp) hslash

/-- The text of a path behind some whole segments. -/
theorem join_front (h : Names path) (hne : path ≠ []) (hnames : Names names)
    (heq : join path = names.flatMap (· ++ [47]) ++ v) : ∃ back, back ≠ [] ∧ path = names ++ back ∧ v = join back := by
  induction names generalizing path with
  | nil => exact ⟨path, hne, rfl, heq.symm⟩
  | cons n names ih =>
    obtain ⟨hn, hothers⟩ := List.forall_mem_cons.1 hnames
    have hcut : join path = n ++ 47 :: (names.flatMap (· ++ [47]) ++ v) := by
      rw [heq, List.flatMap_cons]
      simp only [List.append_assoc, List.cons_append, List.nil_append]
    obtain ⟨front, back, hfront, hback, rfl, rfl, hrest⟩ := join_cut h hcut
    obtain ⟨back', hne', rfl, rfl⟩ := ih (fun s hs => h s (List.mem_append_right front hs)) hback hothers hrest.symm
    refine ⟨back', hne', ?_, rfl⟩
    rw [eq_singleton_of_join hfront hn.2]
    rfl

theorem join_inj (h : Names path) (hne : path ≠ []) (hnames : Names names) (hne' : names ≠ [])
    (heq : join path = join names) : path = names := by
  obtain ⟨init, s, rfl⟩ := (List.eq_nil_or_concat' names).resolve_left hne'
  rw [join_append (List.cons_ne_nil s [])] at heq
  obtain ⟨back, hback, rfl, hs⟩ := join_front h hne (fun t ht => hnames t (List.mem_append_left _ ht)) heq
  have hslash : 47 ∉ join back := hs ▸ (hnames s (by simp)).2
  rw [eq_singleton_of_join hback hslash, ← hs]
  rfl

/-- The text of a path in front of some whole segments. -/
theorem join_back (h : Names path) (hne : path ≠ []) (hnames : Names names)
    (heq : join path = u ++ names.flatMap (47 :: ·)) : ∃ front, front ≠ [] ∧ path = front ++ names ∧ u = join front := by
  cases names with
  | nil =>
    rw [List.flatMap_nil, List.append_nil] at heq
    exact ⟨path, hne, (List.append_nil path).symm, heq.symm⟩
  | cons n names =>
    rw [List.flatMap_cons, List.cons_append, ← join_flatMap] at heq
    obtain ⟨front, back, hfront, hback, rfl, rfl, hrest⟩ := join_cut h heq
    have hsame := join_inj hnames (List.cons_ne_nil _ _) (fun s hs => h s (List.mem_append_right front hs)) hback hrest
    exact ⟨front, hfront, by rw [hsame], rfl⟩

/-! ## what the expression takes -/

/-- The texts that the expression of a glob takes. -/
def GlobText : List Segment → Text → Prop
  | [], w => w = []
  | [.doubleStar], w => w = [] ∨ ∃ s names, Name s ∧ Names names ∧ w = s ++ names.flatMap (47 :: ·)
  | [.part elements], w => partMatches elements w = true
  | .doubleStar :: next :: rest, w =>
    ∃ names v, Names names ∧ GlobText (next :: rest) v ∧ w = names.flatMap (· ++ [47]) ++ v
  | [.part elements, .doubleStar], w =>
    ∃ u names, partMatches elements u = true ∧ Names names ∧ w = u ++ names.flatMap (47 :: ·)
  | .part elements :: next :: rest, w =>
    ∃ u v, partMatches elements u = true ∧ GlobText (next :: rest) v ∧ w = u ++ 47 :: v

section
variable {subject : Text}

/-- Segments, each behind a slash. -/
theorem consumes_slashed : Consumes subject (star (seqAll [char 47, plus notSlash]))
    fun w => ∃ names, Names names ∧ w = names.flatMap (47 :: ·) := by
  refine ((Consumes.char.cons consumes_name).congr fun w => ?_).star
  constructor
  · rintro ⟨_, v, rfl, hv, rfl⟩
    exact ⟨v, hv, rfl⟩
  · rintro ⟨v, hv, rfl⟩
    exact ⟨[47], v, rfl, hv, rfl⟩

/-- Segments, each in front of a slash. -/
theorem consumes_fronts : Consumes subject (star (seqAll [plus notSlash, char 47]))
    fun w => ∃ names, Names names ∧ w = names.flatMap (· ++ [47]) := by
  refine ((consumes_name.append Consumes.char.singleton).congr fun w => ?_).star
  constructor
  · rintro ⟨u, _, hu, rfl, rfl⟩
    exact ⟨u, hu, rfl⟩
  · rintro ⟨u, hu, rfl⟩
    exact ⟨u, [47], hu, rfl, rfl⟩

theorem consumes_glob (glob : List Segment) :
    Consumes subject (seqAll ((globItems glob).map Prod.fst)) (GlobText glob) := by
  induction glob using globItems.induct with
  | case1 => exact Consumes.nil
  | case2 =>
    refine ((consumes_name.append consumes_slashed.singleton).optional.congr fun w => ?_).singleton
    refine or_congr_right ⟨?_, ?_⟩
    · rintro ⟨s, _, hs, ⟨names, hnames, rfl⟩, rfl⟩
      exact ⟨s, names, hs, hnames, rfl⟩
    · rintro ⟨s, names, hs, hnames, rfl⟩
      exact ⟨s, _, hs, ⟨names, hnames, rfl⟩, rfl⟩
  | case3 elements => exact consumes_part elements
  | case4 next rest ih =>
    refine (consumes_fronts.cons ih).congr fun w => ⟨?_, ?_⟩
    · rintro ⟨_, v, ⟨names, hnames, rfl⟩, hv, rfl⟩
      exact ⟨names, v, hnames, hv, rfl⟩
    · rintro ⟨names, v, hnames, hv, rfl⟩
      exact ⟨_, v, ⟨names, hnames, rfl⟩, hv, rfl⟩
  | case5 elements =>
    rw [globItems, List.map_append]
    refine ((consumes_part elements).append consumes_slashed.singleton).congr fun w => ⟨?_, ?_⟩
    · rintro ⟨u, _, hu, ⟨names, hnames, rfl⟩, rfl⟩
      exact ⟨u, names, hu, hnames, rfl⟩
    · rintro ⟨u, names, hu, hnames, rfl⟩
      exact ⟨u, _, hu, ⟨names, hnames, rfl⟩, rfl⟩
  | case6 elements next rest hnext ih =>
    rw [globItems, List.map_append]
    · refine ((consumes_part elements).append (Consumes.char.cons ih)).congr fun w => ?_
      rw [GlobText]
      · constructor
        · rintro ⟨u, _, hu, ⟨_, v, rfl, hv, rfl⟩, rfl⟩
          exact ⟨u, v, hu, hv, rfl⟩
        · rintro ⟨u, v, hu, hv, rfl⟩
          exact ⟨u, 47 :: v, hu, ⟨[47], v, rfl, hv, rfl⟩, rfl⟩
      · exact hnext
    · exact hnext

end

/-! ## what the matcher takes -/

def Segment.isDoubleStar : Segment → Bool
  | .doubleStar => true
  | .part _ => false

/-- No two or more `**` end the glob behind another segment. -/
def regular : List Segment → Bool
  | [] => true
  | .doubleStar :: glob => regular glob
  | .part _ :: glob => !(2 ≤ glob.length && glob.all Segment.isDoubleStar) && regular glob

theorem globMatches_doubleStar : globMatches (.doubleStar :: glob) path = true ↔
    ∃ front back, path = front ++ back ∧ globMatches glob back = true := by
  rw [globMatches, List.any_eq_true]
  constructor
  · rintro ⟨k, -, h⟩
    exact ⟨path.take k, path.drop k, (List.take_append_drop k path).symm, h⟩
  · rintro ⟨front, back, rfl, h⟩
    refine ⟨front.length, ?_, by rwa [List.drop_left]⟩
    rw [List.mem_range, List.length_append]
    omega

theorem globMatches_part : globMatches (.part elements :: glob) path = true ↔ ∃ front back, front ≠ [] ∧
    path = front ++ back ∧ partMatches elements (join front) = true ∧ globMatches glob back = true := by
  rw [globMatches, List.any_eq_true]
  constructor
  · rintro ⟨k, hk, h⟩
    rw [List.mem_range] at hk
    rw [Bool.and_eq_true] at h
    refine ⟨path.take (k + 1), path.drop (k + 1), ?_, (List.take_append_drop _ path).symm, h.1, h.2⟩
    rw [← List.length_pos_iff, List.length_take]
    omega
  · rintro ⟨front, back, hne, rfl, hpart, h⟩
    have hlength := List.length_pos_iff.2 hne
    have hk : front.length - 1 + 1 = front.length := by omega
    refine ⟨front.length - 1, ?_, ?_⟩
    · rw [List.mem_range, List.length_append]
      omega
    · rw [hk, List.take_left, List.drop_left, hpart, h]
      rfl

/-- Only `**` match no segments. -/
theorem globMatches_nil : globMatches glob [] = true ↔ glob.all Segment.isDoubleStar = true := by
  induction glob with
  | nil => simp [globMatches]
  | cons g glob ih =>
    cases g with
    | doubleStar =>
      rw [globMatches_doubleStar, List.all_cons]
      constructor
      · rintro ⟨front, back, hpath, h⟩
        obtain ⟨rfl, rfl⟩ := List.nil_eq_append_iff.1 hpath
        rw [ih.1 h]
        rfl
      · intro h
        exact ⟨[], [], rfl, ih.2 h⟩
    | part elements =>
      rw [globMatches_part]
      constructor
      · rintro ⟨front, back, hne, hpath, -⟩
        exact absurd (List.nil_eq_append_iff.1 hpath).1 hne
      · rintro h
        cases h

theorem globMatches_stars {g : Segment} (h : (g :: glob).all Segment.isDoubleStar = true) (path : List Text) :
    globMatches (g :: glob) path = true := by
  cases g with
  | doubleStar => exact globMatches_doubleStar.2 ⟨path, [], (List.append_nil path).symm, globMatches_nil.2 h⟩
  | part elements => cases h

theorem names_of_append (h : Names (front ++ back)) : Names front ∧ Names back :=
  ⟨fun s hs => h s (List.mem_append_left back hs), fun s hs => h s (List.mem_append_right front hs)⟩

/-- Of a path, the expression takes what the matcher does. -/
theorem globText_join (h : Names path) (hne : path ≠ []) (hr : regular glob = true) :
    GlobText glob (join path) ↔ globMatches glob path = true := by
  induction glob using globItems.induct generalizing path with
  | case1 =>
    rw [GlobText, globMatches, List.isEmpty_iff]
    exact ⟨fun heq => absurd heq (join_ne_nil hne h), fun heq => absurd heq hne⟩
  | case2 =>
    refine iff_of_true (.inr ?_) (globMatches_stars rfl path)
    obtain ⟨s, path, rfl⟩ := List.exists_cons_of_ne_nil hne
    obtain ⟨hs, h⟩ := List.forall_mem_cons.1 h
    exact ⟨s, path, hs, h, join_flatMap⟩
  | case3 elements =>
    rw [GlobText, globMatches_part]
    constructor
    · intro hpart
      exact ⟨path, [], hne, (List.append_nil path).symm, hpart, rfl⟩
    · rintro ⟨front, back, -, rfl, hpart, hback⟩
      rw [globMatches, List.isEmpty_iff] at hback
      rwa [hback, List.append_nil]
  | case4 next rest ih =>
    rw [regular] at hr
    rw [GlobText, globMatches_doubleStar]
    constructor
    · rintro ⟨names, v, hnames, hv, heq⟩
      obtain ⟨back, hback, rfl, rfl⟩ := join_front h hne hnames heq
      exact ⟨names, back, rfl, (ih (names_of_append h).2 hback hr).1 hv⟩
    · rintro ⟨front, back, rfl, hback⟩
      by_cases hempty : back = []
      · -- only `**` are left: they take the whole path as well
        rw [hempty, globMatches_nil] at hback
        exact ⟨[], _, List.forall_mem_nil _, (ih h hne hr).2 (globMatches_stars hback _), rfl⟩
      · obtain ⟨hf, hb⟩ := names_of_append h
        exact ⟨front, join back, hf, (ih hb hempty hr).2 hback, join_append hempty⟩
  | case5 elements =>
    rw [GlobText, globMatches_part]
    constructor
    · rintro ⟨u, names, hu, hnames, heq⟩
      obtain ⟨front, hfront, rfl, rfl⟩ := join_back h hne hnames heq
      exact ⟨front, names, hfront, rfl, hu, globMatches_stars rfl names⟩
    · rintro ⟨front, back, hfront, rfl, hpart, -⟩
      obtain ⟨s, front, rfl⟩ := List.exists_cons_of_ne_nil hfront
      refine ⟨join (s :: front), back, hpart, (names_of_append h).2, ?_⟩
      rw [List.cons_append, join_flatMap, join_flatMap, List.flatMap_append, List.append_assoc]
  | case6 elements next rest hnext ih =>
    rw [regular, Bool.and_eq_true, Bool.not_eq_true'] at hr
    rw [GlobText, globMatches_part]
    · constructor
      · rintro ⟨u, v, hu, hv, heq⟩
        obtain ⟨front, back, hfront, hback, rfl, rfl, rfl⟩ := join_cut h heq
        exact ⟨front, back, hfront, rfl, hu, (ih (names_of_append h).2 hback hr.2).1 hv⟩
      · rintro ⟨front, back, hfront, rfl, hpart, hmore⟩
        have hback : back ≠ [] := by
          rintro rfl
          rw [globMatches_nil] at hmore
          rw [hmore, Bool.and_true, decide_eq_false_iff_not] at hr
          have hlength := hr.1
          cases rest with
          | nil =>
            cases next with
            | doubleStar => exact hnext rfl rfl
            | part _ => cases hmore
          | cons g rest =>
            simp only [List.length_cons] at hlength
            omega
        exact ⟨join front, join back, hpart, (ih (names_of_append h).2 hback hr.2).2 hmore, join_append' hfront hback⟩
    · exact hnext

/-! ## boundaries -/

def Element.slashes : Element → ℕ
  | .literal c => if c = 47 then 1 else 0
  | _ => 0

/-- The quoted slashes of a segment. -/
def slashes : List Element → ℕ
  | [] => 0
  | e :: elements => e.slashes + slashes elements

theorem count_takes {e : Element} (h : e.Takes w) : w.count 47 = e.slashes := by
  have hsingle : ∀ {c : ℕ}, c ≠ 47 → [c].count 47 = 0 := fun hc =>
    List.count_eq_zero.2 fun hmem => hc (List.mem_singleton.1 hmem).symm
  cases e with
  | star => exact List.count_eq_zero.2 h
  | any =>
    obtain ⟨c, hc, rfl⟩ := h
    exact hsingle hc
  | literal c =>
    obtain rfl := h
    rw [List.count_singleton, Element.slashes]
    simp only [beq_iff_eq]
  | cls negated items =>
    obtain ⟨c, hc, rfl⟩ := h
    rw [classAdmits, Bool.and_eq_true, decide_eq_true_eq] at hc
    exact hsingle hc.1

theorem count_partMatches (h : partMatches elements w = true) : w.count 47 = slashes elements := by
  induction elements generalizing w with
  | nil =>
    obtain rfl := partMatches_nil.1 h
    rfl
  | cons e elements ih =>
    obtain ⟨u, v, hu, hv, rfl⟩ := partMatches_cons.1 h
    rw [List.count_append, count_takes hu, ih hv, slashes]

theorem count_join (h : IsPath path) : (join path).count 47 + 1 = path.length := by
  obtain ⟨s, path, rfl⟩ := List.exists_cons_of_ne_nil h.1
  obtain ⟨hs, hpath⟩ := List.forall_mem_cons.1 h.2
  have hcount : ∀ {names : List Text}, Names names → (names.flatMap (47 :: ·)).count 47 = names.length := by
    intro names hnames
    induction names with
    | nil => rfl
    | cons n names ih =>
      obtain ⟨hn, hnames⟩ := List.forall_mem_cons.1 hnames
      rw [List.flatMap_cons, List.count_append, List.count_cons_self, List.count_eq_zero.2 hn.2, ih hnames,
        List.length_cons]
      omega
  rw [join_flatMap, List.count_append, List.count_eq_zero.2 hs.2, hcount hpath, List.length_cons]
  omega

/-- A segment takes one segment of a path, and one more for each of its quoted slashes. -/
theorem length_of_partMatches (hpath : IsPath path) (h : partMatches elements (join path) = true) :
    path.length = slashes elements + 1 := by
  rw [← count_join hpath, count_partMatches h]

/-! ## the compilation of a pattern -/

def globRegex (glob : List Segment) : Regex := seqAll (begins :: (globItems glob).map Prod.fst ++ [ends])

theorem compile_glob (hs : ∀ c ∈ s, Scalar c) (h : Reads s glob) : compile s = .ok (globRegex glob) :=
  compile_reads hs h (parse_printGlob (reads_wellFormed h))

theorem isMatch_globRegex (hr : regular glob = true) (hpath : IsPath path) :
    IsMatch (globRegex glob) (join path) ↔ globMatches glob path = true := by
  rw [globRegex, isMatch_anchored, consumes_glob glob]
  simp only [List.append_nil, exists_eq_right']
  exact globText_join hpath.2 hpath.1 hr

/-- **The compilation of a pattern.**  It refuses what the grammar does not read, and of a relative path the expression
matches what the glob does; a segment takes one segment of the path, and one more for each slash that it quotes. -/
theorem compile_matches (pattern : Text) (hs : ∀ c ∈ pattern, Scalar c) :
    (compile pattern = .error .invalidGlob ↔ ¬ ∃ glob, Reads pattern glob) ∧
    ∀ glob, Reads pattern glob → ∃ regex, compile pattern = .ok regex ∧
      (regular glob = true → ∀ path, IsPath path → (IsMatch regex (join path) ↔ globMatches glob path = true)) ∧
      ∀ elements, .part elements ∈ glob → ∀ path, IsPath path → partMatches elements (join path) = true →
        path.length = slashes elements + 1 := by
  refine ⟨⟨?_, compile_refuses hs⟩, fun glob hglob => ⟨globRegex glob, compile_glob hs hglob, ?_, ?_⟩⟩
  · rintro herror ⟨glob, hglob⟩
    rw [compile_glob hs hglob] at herror
    cases herror
  · exact fun hr path hpath => isMatch_globRegex hr hpath
  · exact fun elements _ path hpath h => length_of_partMatches hpath h

/-- `src/**`. -/
theorem reads_src : Reads (textOf "src/**") [.part [.literal 115, .literal 114, .literal 99], .doubleStar] := by
  have hpart : Part (textOf "src") [.literal 115, .literal 114, .literal 99] :=
    .literal (by decide) (.literal (by decide) (.literal (by decide) .nil))
  exact .more (.part (by decide) hpart) (.last .doubleStar)

theorem compile_matches_src : ∃ regex, compile (textOf "src/**") = .ok regex ∧
    IsMatch regex (textOf "src") ∧ ¬ IsMatch regex (textOf "lib/a") := by
  obtain ⟨regex, hcompile, hmatch, -⟩ := (compile_matches (textOf "src/**") (by decide)).2 _ reads_src
  have hsrc : globMatches [.part [.literal 115, .literal 114, .literal 99], .doubleStar] [textOf "src"] = true := by
    rw [globMatches_part]
    exact ⟨[textOf "src"], [], List.cons_ne_nil _ _, rfl, by simp [partMatches, textOf, join], rfl⟩
  have hlib : globMatches [.part [.literal 115, .literal 114, .literal 99], .doubleStar] [textOf "lib", textOf "a"] =
      false := by
    simp [globMatches, partMatches, textOf, join, List.range_succ]
  refine ⟨regex, hcompile, (hmatch rfl [textOf "src"] (by unfold IsPath; decide)).2 hsrc, fun h => ?_⟩
  rw [← Bool.not_eq_true, ← hmatch rfl [textOf "lib", textOf "a"] (by unfold IsPath; decide)] at hlib
  exact hlib h

/-- `a\/b` takes a path of two segments. -/
theorem glob_crosses : ¬ ∀ pattern glob regex path, (∀ c ∈ pattern, Scalar c) → Reads pattern glob →
    compile pattern = .ok regex → IsPath path → IsMatch regex (join path) → .doubleStar ∉ glob →
      path.length = glob.length := by
  intro h
  have hpart : Part [97, 92, 47, 98] [.literal 97, .literal 47, .literal 98] :=
    .literal (by decide) (.quoted (.literal (by decide) .nil))
  have hreads : Reads [97, 92, 47, 98] [.part [.literal 97, .literal 47, .literal 98]] :=
    .last (.part (by decide) hpart)
  have hscalar : ∀ c ∈ [97, 92, 47, 98], Scalar c := by decide
  have hpath : IsPath [[97], [98]] := by
    unfold IsPath
    decide
  have hmatch : globMatches [.part [.literal 97, .literal 47, .literal 98]] [[97], [98]] = true := by
    rw [globMatches_part]
    exact ⟨[[97], [98]], [], List.cons_ne_nil _ _, rfl, by simp [partMatches, join], rfl⟩
  have hlength := h _ _ _ [[97], [98]] hscalar hreads (compile_glob hscalar hreads) hpath
    ((isMatch_globRegex rfl hpath).2 hmatch) (by simp)
  cases hlength

end Loopex.Executor.ToolGlob
