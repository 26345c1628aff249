import Loopex.Executor.ToolGlob

/-!
# How globs are read

The compilation refuses what the grammar does not read, and writes the expression of what it reads.

* `classMembers_eq_some`, `classSource_eq_some`, `segment_eq_some`, `segments_eq_some` — what each function writes
* `compile_reads` — the compilation of a text that is read, and of one that is not
-/

namespace Loopex.Executor.ToolGlob

open Loopex.Erlang Loopex.System

/-! ## the order of characters -/

theorem cons_lt_cons {a b : UInt8} {x y : Bytes} : (a :: x < b :: y) ↔ a.toNat < b.toNat ∨ a.toNat = b.toNat ∧ x < y := by
  rw [List.cons_lt_cons_iff, UInt8.lt_iff_toNat_lt, ← UInt8.toNat_inj]

/-- The order of the binaries of two characters is that of their code points. -/
theorem utf8Encode_lt {c d : ℕ} (hd : d < 0x110000) (h : c < d) : utf8Encode c < utf8Encode d := by
  unfold utf8Encode
  split
  · split
    · rw [cons_lt_cons, toNat_ofNat (by omega), toNat_ofNat (by omega)]
      omega
    split
    · rw [cons_lt_cons, toNat_ofNat (by omega), toNat_ofNat (by omega)]
      omega
    split
    · rw [cons_lt_cons, toNat_ofNat (by omega), toNat_ofNat (by omega)]
      omega
    · rw [cons_lt_cons, toNat_ofNat (by omega), toNat_ofNat (by omega)]
      omega
  split
  · rw [if_neg (by omega)]
    split
    · simp only [cons_lt_cons]
      rw [toNat_ofNat (by omega), toNat_ofNat (by omega), toNat_ofNat (by omega), toNat_ofNat (by omega)]
      omega
    split
    · rw [cons_lt_cons, toNat_ofNat (by omega), toNat_ofNat (by omega)]
      omega
    · rw [cons_lt_cons, toNat_ofNat (by omega), toNat_ofNat (by omega)]
      omega
  split
  · rw [if_neg (by omega), if_neg (by omega)]
    split
    · simp only [cons_lt_cons]
      rw [toNat_ofNat (by omega), toNat_ofNat (by omega), toNat_ofNat (by omega), toNat_ofNat (by omega),
        toNat_ofNat (by omega), toNat_ofNat (by omega)]
      omega
    · rw [cons_lt_cons, toNat_ofNat (by omega), toNat_ofNat (by omega)]
      omega
  · rw [if_neg (by omega), if_neg (by omega), if_neg (by omega)]
    simp only [cons_lt_cons]
    rw [toNat_ofNat (by omega), toNat_ofNat (by omega), toNat_ofNat (by omega), toNat_ofNat (by omega),
      toNat_ofNat (by omega), toNat_ofNat (by omega), toNat_ofNat (by omega), toNat_ofNat (by omega)]
    omega

theorem greater_iff {first last : ℕ} (hf : Scalar first) (hl : Scalar last) : greater first last = true ↔ last < first := by
  have hmax : first < 0x110000 ∧ last < 0x110000 := by
    unfold Scalar at hf hl
    omega
  rw [greater, decide_eq_true_eq]
  constructor
  · intro h
    by_contra hle
    rcases Nat.lt_or_ge first last with hlt | hge
    · exact List.lt_asymm h (utf8Encode_lt hmax.2 hlt)
    · obtain rfl : first = last := by omega
      exact List.lt_irrefl _ h
  · exact utf8Encode_lt hmax.1

/-! ## classes -/

section
variable {s t rest text : Text} {members found : List Member} {items : List Item} {start : Bool} {elements : List Element}

theorem classMembers_append (h : Members s members) (acc : List Member) (rest : Text) :
    classMembers (s ++ 93 :: rest) acc = some (acc.reverse ++ members, rest) := by
  induction h generalizing acc with
  | nil => simp [classMembers]
  | @quoted c s members slash _ ih =>
    rw [List.cons_append, List.cons_append, classMembers, ih, List.reverse_cons, List.append_assoc]
    · rfl
    · exact slash
  | @plain c s members special _ ih =>
    simp only [List.mem_cons, List.not_mem_nil, or_false, not_or] at special
    rw [List.cons_append, classMembers, ih, List.reverse_cons, List.append_assoc]
    · rfl
    all_goals simp_all

/-- The members of a class, and what stands behind its bracket. -/
theorem classMembers_eq_some {acc : List Member} (h : classMembers s acc = some (found, t)) :
    ∃ text members, s = text ++ 93 :: t ∧ Members text members ∧ found = acc.reverse ++ members := by
  induction s, acc using classMembers.induct with
  | case1 => cases h
  | case2 => cases h
  | case3 rest acc =>
    cases h
    exact ⟨[], [], rfl, .nil, (List.append_nil _).symm⟩
  | case4 => cases h
  | case5 => cases h
  | case6 value rest acc slash ih =>
    rw [classMembers] at h
    · obtain ⟨text, members, rfl, hmembers, rfl⟩ := ih h
      refine ⟨92 :: value :: text, (value, true) :: members, rfl, .quoted slash hmembers, ?_⟩
      rw [List.reverse_cons, List.append_assoc]
      rfl
    · exact slash
  | case7 value rest acc h1 h2 h3 h4 h5 ih =>
    rw [classMembers] at h
    · obtain ⟨text, members, rfl, hmembers, rfl⟩ := ih h
      have hback : value ≠ 92 := by
        rintro rfl
        rcases text with _ | ⟨d, text⟩
        · exact h5 _ _ rfl rfl
        · exact h5 _ _ rfl rfl
      refine ⟨value :: text, (value, false) :: members, rfl, .plain ?_ hmembers, ?_⟩
      · simp only [List.mem_cons, List.not_mem_nil, or_false, not_or]
        exact ⟨h3, hback, h2⟩
      · rw [List.reverse_cons, List.append_assoc]
        rfl
    all_goals assumption

/-- The text of the items of a class. -/
def printItem : Item → Text
  | .one c => classLiteral c
  | .range low high => classLiteral low ++ 45 :: classLiteral high

def printItems (items : List Item) : Text := items.flatMap printItem

/-- Members of which every one is a code point. -/
def ScalarMembers (members : List Member) : Prop := ∀ m ∈ members, Scalar m.1

theorem classSource_of_items (h : Items start members items) (hs : ScalarMembers members) :
    classSource members start = some (printItems items) := by
  induction h with
  | nil => simp [classSource, printItems]
  | @range start a b rest items first last order _ ih =>
    obtain ⟨a, qa⟩ := a
    obtain ⟨b, qb⟩ := b
    obtain ⟨ha, hs⟩ := List.forall_mem_cons.1 hs
    obtain ⟨hb, hs⟩ := List.forall_mem_cons.1 (List.forall_mem_cons.1 hs).2
    have hedges : ¬ (a = 45 ∧ (!qa) = true ∧ (!start) = true ∨ b = 45 ∧ (!qb) = true ∧ rest ≠ []) := by
      simp only [hyphen, Prod.mk.injEq] at first last
      rintro (⟨rfl, hqa, hstart⟩ | ⟨rfl, hqb, hrest⟩)
      · rw [first ⟨rfl, by simpa using hqa⟩] at hstart
        cases hstart
      · exact hrest (last ⟨rfl, by simpa using hqb⟩)
    have horder : ¬ greater a b = true := fun hgreater => by
      have := (greater_iff ha hb).1 hgreater
      omega
    rw [hyphen, classSource, if_neg hedges, if_neg horder, ih hs]
    simp [printItems, printItem]
  | @one start a rest items alone edge _ ih =>
    obtain ⟨a, qa⟩ := a
    obtain ⟨ha, hs⟩ := List.forall_mem_cons.1 hs
    rw [classSource, ih hs]
    · rfl
    · intro last lastQuoted rest' hrest
      exact alone (last, lastQuoted) rest' hrest
    · intro next rest' hstart hrest ha hqa
      simp only [hyphen, Prod.mk.injEq] at edge
      rcases edge ⟨ha, hqa⟩ with hedge | hedge
      · rw [hstart] at hedge
        cases hedge
      · rw [hrest] at hedge
        cases hedge

theorem items_of_classSource {source : Text} (hs : ScalarMembers members) (h : classSource members start = some source) :
    ∃ items, Items start members items ∧ source = printItems items := by
  induction members, start using classSource.induct generalizing source with
  | case1 first firstQuoted last lastQuoted rest start hedge =>
    rw [classSource, if_pos hedge] at h
    cases h
  | case2 first firstQuoted last lastQuoted rest start hedge hgreater =>
    rw [classSource, if_neg hedge, if_pos hgreater] at h
    cases h
  | case3 first firstQuoted last lastQuoted rest start hedge hgreater ih =>
    rw [classSource, if_neg hedge, if_neg hgreater] at h
    obtain ⟨ha, hs⟩ := List.forall_mem_cons.1 hs
    obtain ⟨hb, hs⟩ := List.forall_mem_cons.1 (List.forall_mem_cons.1 hs).2
    obtain ⟨more, hmore, rfl⟩ := Option.map_eq_some_iff.1 h
    obtain ⟨items, hitems, rfl⟩ := ih hs hmore
    refine ⟨.range first last :: items, .range ?_ ?_ ?_ hitems, by simp [printItems, printItem]⟩
    · rintro heq
      obtain ⟨rfl, rfl⟩ := Prod.mk.inj heq
      by_contra hstart
      exact hedge (.inl ⟨rfl, rfl, by simpa using hstart⟩)
    · rintro heq
      obtain ⟨rfl, rfl⟩ := Prod.mk.inj heq
      by_contra hrest
      exact hedge (.inr ⟨rfl, rfl, hrest⟩)
    · by_contra hlt
      exact hgreater ((greater_iff ha hb).2 (by simpa using hlt))
  | case4 next rest hnext =>
    rw [classSource] at h
    · cases h
    · exact hnext
  | case5 value quoted rest start hrange hedge ih =>
    rw [classSource] at h
    · obtain ⟨ha, hs⟩ := List.forall_mem_cons.1 hs
      obtain ⟨more, hmore, rfl⟩ := Option.map_eq_some_iff.1 h
      obtain ⟨items, hitems, rfl⟩ := ih hs hmore
      refine ⟨.one value :: items, .one (fun b rest' hrest => hrange b.1 b.2 rest' hrest) ?_ hitems, rfl⟩
      rintro heq
      obtain ⟨rfl, rfl⟩ := Prod.mk.inj heq
      by_contra hnot
      simp only [not_or, Bool.not_eq_true] at hnot
      obtain ⟨next, rest', hrest⟩ := List.exists_cons_of_ne_nil hnot.2
      exact hedge next rest' hnot.1 hrest rfl rfl
    · exact hrange
    · exact hedge
  | case6 start =>
    cases h
    exact ⟨[], .nil, rfl⟩

/-! ## segments -/

def printElement : Element → Text
  | .star => textOf "[^/]*"
  | .any => textOf "[^/]"
  | .literal c => escape c
  | .cls true items => textOf "(?:(?!/)[" ++ 94 :: printItems items ++ textOf "])"
  | .cls false items => textOf "(?:(?!/)[" ++ printItems items ++ textOf "])"

def printPart (elements : List Element) : Text := elements.flatMap printElement

theorem scalarMembers (h : Members s members) (hs : ∀ c ∈ s, Scalar c) : ScalarMembers members := by
  induction h with
  | nil => exact List.forall_mem_nil _
  | quoted _ _ ih =>
    obtain ⟨hc, hs⟩ := List.forall_mem_cons.1 (List.forall_mem_cons.1 hs).2
    exact List.forall_mem_cons.2 ⟨hc, ih hs⟩
  | plain _ _ ih =>
    obtain ⟨hc, hs⟩ := List.forall_mem_cons.1 hs
    exact List.forall_mem_cons.2 ⟨hc, ih hs⟩

theorem members_ne_nil (h : Members s members) (hne : members ≠ []) : s ≠ [] := by
  rintro rfl
  cases h
  exact hne rfl

/-- What a segment that is read is compiled to. -/
theorem segment_of_part (h : Part s elements) (hs : ∀ c ∈ s, Scalar c) : segment s = some (printPart elements) := by
  induction h with
  | nil => rw [segment]; rfl
  | @star s elements single _ ih =>
    rw [segment, ih (List.forall_mem_cons.1 hs).2]
    · rfl
    · rintro rest rfl
      exact single rfl
  | any _ ih =>
    rw [segment, ih (List.forall_mem_cons.1 hs).2]
    rfl
  | quoted _ ih =>
    rw [segment, ih (List.forall_mem_cons.1 (List.forall_mem_cons.1 hs).2).2]
    rfl
  | @cls text negated items s elements hclass _ ih =>
    have htext : ∀ c ∈ text, Scalar c := fun c hc => hs c (by simp [hc])
    have htail := ih fun c hc => hs c (by simp [hc])
    cases hclass with
    | @positive _ members _ caret some_member hmembers hitems =>
      obtain ⟨d, text, rfl⟩ := List.exists_cons_of_ne_nil (members_ne_nil hmembers some_member)
      have hfound : classMembers (d :: (text ++ 93 :: s)) [] = some (members, s) := classMembers_append hmembers [] s
      have hsource := classSource_of_items hitems (scalarMembers hmembers htext)
      rw [List.cons_append, List.cons_append, segment]
      · split
        next found tail heq =>
          obtain ⟨rfl, rfl⟩ := Prod.mk.inj (Option.some.inj (hfound.symm.trans heq))
          rw [if_neg some_member, hsource, htail]
          simp [printPart, printElement]
        next heq =>
          have hnone := hfound.symm.trans heq
          cases hnone
      · intro tail heq
        obtain ⟨rfl, -⟩ := List.cons.inj heq
        exact caret rfl
    | @negative text members _ some_member hmembers hitems =>
      have hfound : classMembers (text ++ 93 :: s) [] = some (members, s) := classMembers_append hmembers [] s
      have hsource := classSource_of_items hitems (scalarMembers hmembers (List.forall_mem_cons.1 htext).2)
      rw [List.cons_append, List.cons_append, segment]
      split
      next found tail heq =>
        obtain ⟨rfl, rfl⟩ := Prod.mk.inj (Option.some.inj (hfound.symm.trans heq))
        rw [if_neg some_member, hsource, htail]
        simp [printPart, printElement]
      next heq =>
        have hnone := hfound.symm.trans heq
        cases hnone
  | @literal c s elements special _ ih =>
    simp only [List.mem_cons, List.not_mem_nil, or_false, not_or] at special
    rw [segment, ih (List.forall_mem_cons.1 hs).2]
    · rfl
    all_goals simp_all

/-- A text in which every slash is quoted. -/
inductive Bare : Text → Prop
  | nil : Bare []
  | dangling : Bare [92]
  | quoted {c s} : Bare s → Bare (92 :: c :: s)
  | plain {c s} (special : c ≠ 47 ∧ c ≠ 92) : Bare s → Bare (c :: s)

theorem Bare.tail {c : ℕ} (h : Bare (c :: s)) (hc : c ≠ 92) : Bare s := by
  cases h with
  | dangling => exact absurd rfl hc
  | quoted => exact absurd rfl hc
  | plain _ h => exact h

theorem Bare.head {c : ℕ} (h : Bare (c :: s)) : c ≠ 47 := by
  cases h with
  | dangling => decide
  | quoted => decide
  | plain special _ => exact special.1

theorem Bare.quoted_tail {c : ℕ} (h : Bare (92 :: c :: s)) : Bare s := by
  cases h with
  | quoted h => exact h
  | plain special _ => exact absurd rfl special.2

theorem Bare.behind (hm : Members text members) (h : Bare (text ++ 93 :: t)) : Bare t := by
  induction hm with
  | nil => exact h.tail (by decide)
  | quoted _ _ ih => exact ih h.quoted_tail
  | plain special _ ih =>
    refine ih (h.tail fun heq => special ?_)
    rw [heq]
    decide

/-- A class that is found, with what stands behind it. -/
theorem class_of_members (negated : Bool) {source : Text} (hmembers : Members text members) (hne : members ≠ [])
    (hs : ∀ c ∈ text, Scalar c) (hsource : classSource members true = some source)
    (hcaret : negated = false → text.head? ≠ some 94) :
    ∃ items, source = printItems items ∧ Class (if negated then 94 :: text else text) negated items := by
  obtain ⟨items, hitems, rfl⟩ := items_of_classSource (scalarMembers hmembers hs) hsource
  refine ⟨items, rfl, ?_⟩
  cases negated with
  | true => exact .negative hne hmembers hitems
  | false => exact .positive (hcaret rfl) hne hmembers hitems

/-- What is compiled is a segment that is read. -/
theorem part_of_segment {source : Text} (hs : ∀ c ∈ s, Scalar c) (hbare : Bare s) (h : segment s = some source) :
    ∃ elements, Part s elements ∧ source = printPart elements := by
  induction s using segment.induct generalizing source with
  | case1 =>
    rw [segment] at h
    cases h
    exact ⟨[], .nil, rfl⟩
  | case2 tail =>
    rw [segment] at h
    cases h
  | case3 rest hsingle ih =>
    rw [segment] at h
    · obtain ⟨more, hmore, rfl⟩ := Option.map_eq_some_iff.1 h
      obtain ⟨elements, helements, rfl⟩ := ih (List.forall_mem_cons.1 hs).2 (hbare.tail (by decide)) hmore
      refine ⟨.star :: elements, .star ?_ helements, rfl⟩
      rcases rest with _ | ⟨d, rest⟩
      · simp
      · rintro heq
        exact hsingle rest (by rw [Option.some.inj heq])
    · exact hsingle
  | case4 rest ih =>
    rw [segment] at h
    obtain ⟨more, hmore, rfl⟩ := Option.map_eq_some_iff.1 h
    obtain ⟨elements, helements, rfl⟩ := ih (List.forall_mem_cons.1 hs).2 (hbare.tail (by decide)) hmore
    exact ⟨.any :: elements, .any helements, rfl⟩
  | case5 =>
    rw [segment] at h
    cases h
  | case6 literal rest ih =>
    rw [segment] at h
    obtain ⟨more, hmore, rfl⟩ := Option.map_eq_some_iff.1 h
    obtain ⟨elements, helements, rfl⟩ :=
      ih (List.forall_mem_cons.1 (List.forall_mem_cons.1 hs).2).2 hbare.quoted_tail hmore
    exact ⟨.literal literal :: elements, .quoted helements, rfl⟩
  | case7 rest tail hfound =>
    rw [segment] at h
    split at h
    next found tail' heq =>
      obtain ⟨rfl, rfl⟩ := Prod.mk.inj (Option.some.inj (hfound.symm.trans heq))
      rw [if_pos rfl] at h
      cases h
    · cases h
  | case8 rest found tail hfound hne ih =>
    rw [segment] at h
    split at h
    next found' tail' heq =>
      obtain ⟨rfl, rfl⟩ := Prod.mk.inj (Option.some.inj (hfound.symm.trans heq))
      rw [if_neg hne] at h
      obtain ⟨source, hsource, h⟩ := Option.bind_eq_some_iff.1 h
      obtain ⟨more, hmore, rfl⟩ := Option.map_eq_some_iff.1 h
      obtain ⟨text, members, rfl, hmembers, rfl⟩ := classMembers_eq_some hfound
      have hbare' := (hbare.tail (by decide)).tail (by decide)
      obtain ⟨items, rfl, hclass⟩ := class_of_members true hmembers hne
        (fun c hc => hs c (by simp [hc])) hsource nofun
      obtain ⟨elements, helements, rfl⟩ := ih (fun c hc => hs c (by simp [hc])) (hbare'.behind hmembers) hmore
      refine ⟨.cls true items :: elements, Part.cls hclass helements, ?_⟩
      simp [printPart, printElement]
    · cases h
  | case9 rest hnone =>
    rw [segment] at h
    split at h
    next found' tail' heq =>
      rw [hnone] at heq
      cases heq
    · cases h
  | case10 rest hcaret tail hfound =>
    rw [segment] at h
    · split at h
      next found tail' heq =>
        obtain ⟨rfl, rfl⟩ := Prod.mk.inj (Option.some.inj (hfound.symm.trans heq))
        rw [if_pos rfl] at h
        cases h
      · cases h
    · exact hcaret
  | case11 rest hcaret found tail hfound hne ih =>
    rw [segment] at h
    · split at h
      next found' tail' heq =>
        obtain ⟨rfl, rfl⟩ := Prod.mk.inj (Option.some.inj (hfound.symm.trans heq))
        rw [if_neg hne] at h
        obtain ⟨source, hsource, h⟩ := Option.bind_eq_some_iff.1 h
        obtain ⟨more, hmore, rfl⟩ := Option.map_eq_some_iff.1 h
        obtain ⟨text, members, rfl, hmembers, rfl⟩ := classMembers_eq_some hfound
        have hbare' := hbare.tail (by decide)
        have hhead : text.head? ≠ some 94 := by
          rcases text with _ | ⟨d, text⟩
          · simp
          · rintro heq
            exact hcaret _ (by rw [Option.some.inj heq]; rfl)
        obtain ⟨items, rfl, hclass⟩ := class_of_members false hmembers hne
          (fun c hc => hs c (by simp [hc])) hsource fun _ => hhead
        obtain ⟨elements, helements, rfl⟩ := ih (fun c hc => hs c (by simp [hc])) (hbare'.behind hmembers) hmore
        refine ⟨.cls false items :: elements, Part.cls hclass helements, ?_⟩
        simp [printPart, printElement]
      · cases h
    · exact hcaret
  | case12 rest hcaret hnone =>
    rw [segment] at h
    · split at h
      next found' tail' heq =>
        rw [hnone] at heq
        cases heq
      · cases h
    · exact hcaret
  | case13 literal rest h1 h2 h3 h4 h5 h6 h7 ih =>
    rw [segment] at h
    · obtain ⟨more, hmore, rfl⟩ := Option.map_eq_some_iff.1 h
      have hback : literal ≠ 92 := by
        rintro rfl
        rcases rest with _ | ⟨d, rest⟩
        · exact h4 rfl rfl
        · exact h5 d rest rfl rfl
      obtain ⟨elements, helements, rfl⟩ := ih (List.forall_mem_cons.1 hs).2 (hbare.tail hback) hmore
      refine ⟨.literal literal :: elements, .literal ?_ helements, rfl⟩
      simp only [List.mem_cons, List.not_mem_nil, or_false, not_or]
      exact ⟨h2, hbare.head, h3, h7, hback⟩
    all_goals assumption

/-! ## splitting -/

/-- A text that a split passes over. -/
def Passes (s : Text) : Prop := ∀ t current segments, splitSegments (s ++ t) current segments =
  splitSegments t (s.reverse ++ current) segments

theorem Passes.nil : Passes [] := fun _ _ _ => rfl

theorem Passes.plain {c : ℕ} (hc : c ≠ 47 ∧ c ≠ 92) (h : Passes s) : Passes (c :: s) := by
  intro t current segments
  rw [List.cons_append, splitSegments, h, List.reverse_cons, List.append_assoc]
  · rfl
  · exact fun _ _ heq _ => hc.2 heq
  · exact hc.1

theorem Passes.quoted {c : ℕ} (h : Passes s) : Passes (92 :: c :: s) := by
  intro t current segments
  rw [List.cons_append, List.cons_append, splitSegments, h]
  simp

theorem Passes.append (h : Passes s) (h' : Passes t) : Passes (s ++ t) := by
  intro u current segments
  rw [List.append_assoc, h, h', List.reverse_append, List.append_assoc]

theorem passes_members (h : Members s members) : Passes s := by
  induction h with
  | nil => exact .nil
  | quoted _ _ ih => exact ih.quoted
  | plain special _ ih =>
    simp only [List.mem_cons, List.not_mem_nil, or_false, not_or] at special
    exact ih.plain ⟨special.1, special.2.1⟩

theorem passes_part (h : Part s elements) : Passes s := by
  induction h with
  | nil => exact .nil
  | star _ _ ih => exact ih.plain (by decide)
  | any _ ih => exact ih.plain (by decide)
  | quoted _ ih => exact ih.quoted
  | @cls text negated items s elements hclass _ ih =>
    have htext : Passes text := by
      cases hclass with
      | positive _ _ hmembers => exact passes_members hmembers
      | negative _ hmembers => exact (passes_members hmembers).plain (by decide)
    exact (htext.append (ih.plain (by decide))).plain (by decide)
  | literal special _ ih =>
    simp only [List.mem_cons, List.not_mem_nil, or_false, not_or] at special
    exact ih.plain ⟨special.2.1, special.2.2.2.2⟩

theorem passes_segment {g : Segment} (h : ReadsSegment s g) : Passes s := by
  cases h with
  | doubleStar => exact (Passes.nil.plain (by decide)).plain (by decide)
  | part _ hpart => exact passes_part hpart

/-- A text that is read is split into the texts of its segments. -/
theorem split_of_reads {glob : List Segment} (h : Reads s glob) :
    ∃ texts, List.Forall₂ ReadsSegment texts glob ∧ ∀ segments, splitSegments s [] segments = segments.reverse ++ texts := by
  induction h with
  | @last s segment hsegment =>
    refine ⟨[s], .cons hsegment .nil, fun segments => ?_⟩
    have hpass := passes_segment hsegment [] [] segments
    rw [List.append_nil, List.append_nil] at hpass
    rw [hpass, splitSegments]
    simp
  | @more s segment t glob hsegment _ ih =>
    obtain ⟨texts, htexts, hsplit⟩ := ih
    refine ⟨s :: texts, .cons hsegment htexts, fun segments => ?_⟩
    rw [passes_segment hsegment, List.append_nil, splitSegments, List.reverse_reverse, hsplit]
    simp

theorem join_cons {c : ℕ} {texts : List Text} : join ((c :: s) :: texts) = c :: join (s :: texts) := by
  cases texts <;> rfl

/-- What a text is split into: texts without bare slashes. -/
theorem split_bare (s current : Text) (segments : List Text) :
    ∃ first texts, s = join (first :: texts) ∧ Bare first ∧ (∀ text ∈ texts, Bare text) ∧
      splitSegments s current segments = segments.reverse ++ (current.reverse ++ first) :: texts := by
  induction s, current, segments using splitSegments.induct with
  | case1 current segments => exact ⟨[], [], rfl, .nil, List.forall_mem_nil _, by simp [splitSegments]⟩
  | case2 next rest current segments ih =>
    obtain ⟨first, texts, rfl, hfirst, htexts, hsplit⟩ := ih
    refine ⟨92 :: next :: first, texts, by rw [join_cons, join_cons], .quoted hfirst, htexts, ?_⟩
    rw [splitSegments, hsplit]
    simp
  | case3 rest current segments ih =>
    obtain ⟨first, texts, rfl, hfirst, htexts, hsplit⟩ := ih
    refine ⟨[], first :: texts, rfl, .nil, List.forall_mem_cons.2 ⟨hfirst, htexts⟩, ?_⟩
    rw [splitSegments, hsplit]
    simp
  | case4 point rest current segments hquoted hslash ih =>
    rcases rest with _ | ⟨d, rest⟩
    · refine ⟨[point], [], rfl, ?_, List.forall_mem_nil _, ?_⟩
      · by_cases hback : point = 92
        · rw [hback]
          exact .dangling
        · exact .plain ⟨hslash, hback⟩ .nil
      · rw [splitSegments, splitSegments]
        · simp
        · exact hquoted
        · exact hslash
    · obtain ⟨first, texts, hrest, hfirst, htexts, hsplit⟩ := ih
      refine ⟨point :: first, texts, by rw [join_cons, ← hrest], .plain ⟨hslash, fun heq => hquoted d rest heq rfl⟩ hfirst,
        htexts, ?_⟩
      rw [splitSegments, hsplit]
      · simp
      · exact hquoted
      · exact hslash

theorem reads_join {texts : List Text} {glob : List Segment} (h : List.Forall₂ ReadsSegment texts glob)
    (hne : texts ≠ []) : Reads (join texts) glob := by
  induction h with
  | nil => exact absurd rfl hne
  | @cons s segment texts glob hsegment hrest ih =>
    cases hrest with
    | nil => exact .last hsegment
    | cons hnext hrest' => exact .more hsegment (ih (List.cons_ne_nil _ _))

/-! ## globs -/

def printGlob : List Segment → Text
  | [] => []
  | [.doubleStar] => textOf "(?:[^/]+(?:/[^/]+)*)?"
  | [.part elements] => printPart elements
  | .doubleStar :: next :: rest => textOf "(?:[^/]+/)*" ++ printGlob (next :: rest)
  | [.part elements, .doubleStar] => printPart elements ++ textOf "(?:/[^/]+)*"
  | .part elements :: next :: rest => printPart elements ++ 47 :: printGlob (next :: rest)

theorem part_ne (h : Part s elements) : s ≠ textOf "**" := by
  rintro rfl
  cases h with
  | star single _ => exact single rfl
  | literal special _ => exact special (by decide)

theorem segments_of_reads {texts : List Text} {glob : List Segment} (h : List.Forall₂ ReadsSegment texts glob)
    (hs : ∀ text ∈ texts, ∀ c ∈ text, Scalar c) : segments texts = some (printGlob glob) := by
  induction h with
  | nil => rfl
  | @cons s seg texts glob hsegment hrest ih =>
    obtain ⟨hfirst, hothers⟩ := List.forall_mem_cons.1 hs
    have hmore := ih hothers
    cases hrest with
    | nil =>
      cases hsegment with
      | doubleStar => rfl
      | part _ hpart =>
        rw [segments, if_neg (part_ne hpart), segment_of_part hpart hfirst]
        rfl
    | @cons next nextSegment texts glob hnext hrest =>
      cases hsegment with
      | doubleStar =>
        rw [segments, if_pos rfl, hmore]
        rfl
      | part _ hpart =>
        rw [segments, if_neg (part_ne hpart)]
        by_cases hlast : next = textOf "**" ∧ texts = []
        · obtain ⟨rfl, rfl⟩ := hlast
          cases hrest
          cases hnext with
          | doubleStar =>
            rw [if_pos ⟨rfl, rfl⟩, segment_of_part hpart hfirst]
            rfl
          | part _ hnextPart => exact absurd rfl (part_ne hnextPart)
        · rw [if_neg hlast, segment_of_part hpart hfirst, Option.bind_some, hmore, printGlob]
          · rfl
          · rintro rfl rfl
            cases hnext
            cases hrest
            exact hlast ⟨rfl, rfl⟩

theorem reads_of_segments {texts : List Text} {source : Text} (hs : ∀ text ∈ texts, ∀ c ∈ text, Scalar c)
    (hbare : ∀ text ∈ texts, Bare text) (hproper : ∀ text ∈ texts, text ∉ [[], textOf ".", textOf ".."])
    (h : segments texts = some source) : ∃ glob, List.Forall₂ ReadsSegment texts glob := by
  induction texts generalizing source with
  | nil => exact ⟨[], .nil⟩
  | cons s texts ih =>
    obtain ⟨hfirst, hs⟩ := List.forall_mem_cons.1 hs
    obtain ⟨hfirstBare, hbare⟩ := List.forall_mem_cons.1 hbare
    obtain ⟨hfirstProper, hproper⟩ := List.forall_mem_cons.1 hproper
    have hpart : ∀ {source : Text}, segment s = some source → ∃ seg, ReadsSegment s seg := by
      intro source hsource
      obtain ⟨elements, helements, -⟩ := part_of_segment hfirst hfirstBare hsource
      exact ⟨_, .part hfirstProper helements⟩
    have hstar : s = textOf "**" → ∃ seg, ReadsSegment s seg := by
      rintro rfl
      exact ⟨_, ReadsSegment.doubleStar⟩
    suffices hboth : (∃ seg, ReadsSegment s seg) ∧ (texts = [] ∨ ∃ source, segments texts = some source) by
      obtain ⟨⟨seg, hseg⟩, rfl | ⟨more, hmore⟩⟩ := hboth
      · exact ⟨[seg], .cons hseg .nil⟩
      · obtain ⟨glob, hglob⟩ := ih hs hbare hproper hmore
        exact ⟨seg :: glob, .cons hseg hglob⟩
    rcases texts with _ | ⟨next, texts⟩
    · rw [segments] at h
      split at h
      next hstars => exact ⟨hstar hstars, .inl rfl⟩
      · exact ⟨hpart h, .inl rfl⟩
    · rw [segments] at h
      split at h
      next hstars =>
        obtain ⟨more, hmore, -⟩ := Option.map_eq_some_iff.1 h
        exact ⟨hstar hstars, .inr ⟨more, hmore⟩⟩
      split at h
      next hlast =>
        obtain ⟨source, hsource, -⟩ := Option.map_eq_some_iff.1 h
        obtain ⟨rfl, rfl⟩ := hlast
        exact ⟨hpart hsource, .inr ⟨_, rfl⟩⟩
      next =>
        obtain ⟨source, hsource, h⟩ := Option.bind_eq_some_iff.1 h
        obtain ⟨more, hmore, -⟩ := Option.map_eq_some_iff.1 h
        exact ⟨hpart hsource, .inr ⟨more, hmore⟩⟩

theorem scalar_join {texts : List Text} : (∀ c ∈ join texts, Scalar c) → ∀ text ∈ texts, ∀ c ∈ text, Scalar c := by
  intro h
  induction texts with
  | nil => exact List.forall_mem_nil _
  | cons s texts ih =>
    cases texts with
    | nil => exact List.forall_mem_cons.2 ⟨h, List.forall_mem_nil _⟩
    | cons t texts =>
      rw [join] at h
      exact List.forall_mem_cons.2 ⟨fun c hc => h c (by simp [hc]), ih fun c hc => h c (by simp [hc])⟩

/-- The check for segments that are empty or dots. -/
theorem any_proper {texts : List Text} : (texts.any fun part => part ∈ [[], textOf ".", textOf ".."]) = false ↔
    ∀ text ∈ texts, text ∉ [[], textOf ".", textOf ".."] := by
  rw [List.any_eq_false]
  exact forall₂_congr fun _ _ => by rw [decide_eq_true_eq]

/-- **What the grammar does not read is refused.** -/
theorem compile_refuses (hs : ∀ c ∈ s, Scalar c) (h : ¬ ∃ glob, Reads s glob) : compile s = .error .invalidGlob := by
  obtain ⟨first, texts, hjoin, hfirst, htexts, hsplit⟩ := split_bare s [] []
  have hsplit : splitSegments s [] [] = first :: texts := hsplit
  rw [compile, hsplit]
  split
  · rfl
  next hproper =>
    rw [Bool.not_eq_true, any_proper] at hproper
    cases hsource : segments (first :: texts) with
    | none => rfl
    | some source =>
      obtain ⟨glob, hglob⟩ := reads_of_segments (scalar_join fun c hc => hs c (hjoin ▸ hc))
        (List.forall_mem_cons.2 ⟨hfirst, htexts⟩) hproper hsource
      exact absurd ⟨glob, hjoin ▸ reads_join hglob (List.cons_ne_nil _ _)⟩ h

theorem exists_of_forall₂_left {α β : Type} {P : α → β → Prop} {xs : List α} {ys : List β} (h : List.Forall₂ P xs ys)
    {x : α} (hx : x ∈ xs) : ∃ y, P x y := by
  induction h with
  | nil => cases hx
  | @cons x' y xs ys hP _ ih =>
    rcases List.mem_cons.1 hx with rfl | hx
    · exact ⟨y, hP⟩
    · exact ih hx

theorem readsSegment_proper {g : Segment} (h : ReadsSegment s g) : s ∉ [[], textOf ".", textOf ".."] := by
  cases h with
  | doubleStar => decide
  | part proper _ => exact proper

/-- **What the grammar reads is compiled** to the expression that its text is read as. -/
theorem compile_reads {glob : List Segment} {regex : Regex} (hs : ∀ c ∈ s, Scalar c) (h : Reads s glob)
    (hparse : Regex.parse (textOf "\\A" ++ printGlob glob ++ textOf "\\z") = some regex) : compile s = .ok regex := by
  obtain ⟨texts, htexts, hsplit⟩ := split_of_reads h
  obtain ⟨first, others, hjoin, -, -, hsplit'⟩ := split_bare s [] []
  have hsame : texts = first :: others := (hsplit []).symm.trans hsplit'
  have hproper : (texts.any fun part => part ∈ [[], textOf ".", textOf ".."]) = false := by
    rw [any_proper]
    intro text htext
    obtain ⟨g, hg⟩ := exists_of_forall₂_left htexts htext
    exact readsSegment_proper hg
  have hsource := segments_of_reads htexts (scalar_join (hsame ▸ fun c hc => hs c (hjoin ▸ hc)))
  have hall : splitSegments s [] [] = texts := hsplit []
  simp only [compile, hall, hproper, hsource, hparse, Bool.false_eq_true, if_false]

end

end Loopex.Executor.ToolGlob
