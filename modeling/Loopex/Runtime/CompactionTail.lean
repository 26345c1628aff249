import Loopex.Runtime.Compaction
import Mathlib.Order.Bounds.Basic

/-!
# The tail a compaction retains

Maintenance covers a prefix of the units of a conversation and retains the rest.  The least tail starts at the newest
complete assistant group, or at the first protected unit if that comes before; it gives up its oldest units while the
callback refuses it, and if it gave up none it takes in older units while they are cheap.

* `compactionTail` — the selection, as the source makes it
* `MinimumCut` — where the least tail starts, without reference to the search that finds it
* `compaction_tail_selection` — what is selected, and when the selection is refused
-/

namespace Loopex.Runtime.Conversation

open Loopex.Erlang Loopex.Erlang.Term

/-! ## the selection -/

inductive CompactionOrigin where
  | automatic | explicit
  deriving DecidableEq

/-- What the callback answers for a tail. -/
inductive FitAnswer where
  | ok (tokens : ℤ)
  | refused (reason : Term)
  | error (cause : Term)
  | other
  deriving DecidableEq

/-- Why no tail is selected. -/
inductive TailHalt where
  | refused (reason : Term)
  | error (cause : Term)

structure TailSelection where
  eligibleUnitCount : ℕ
  retainedTail : List CompactionUnit
  releasedUnitCount : ℕ
  tailTokens : ℤ

abbrev Fit := List CompactionUnit → FitAnswer

def projectionInvalid : TailHalt := .error (sym "context_projection_invalid")

/-- The tail preference, in tokens. -/
def tailPreference : ℤ := 2048

/-- A unit the newest of which starts the least tail. -/
def CompactionUnit.isGroup (u : CompactionUnit) : Bool := u.kind = .assistantGroup ∧ u.complete

/-- The index of the first protected unit, or the number of units. -/
def firstProtected (units : List CompactionUnit) : ℕ := units.findIdx (·.isProtected)

/-- The index of the newest complete assistant group, or that of the first protected unit. -/
def newestGroup (units : List CompactionUnit) : ℕ :=
  (units.zipIdx.reverse.findSome? fun u => if u.1.isGroup then some u.2 else none).getD (firstProtected units)

def minimumCut (units : List CompactionUnit) : ℕ := min (firstProtected units) (newestGroup units)

def startingCut (units : List CompactionUnit) : CompactionOrigin → ℕ
  | .explicit => firstProtected units
  | .automatic => minimumCut units

def fitMinimumTail (units : List CompactionUnit) (cut firstProtected : ℕ) (fit : Fit) :
    Except TailHalt (ℕ × ℤ) :=
  match fit (units.drop cut) with
  | .ok tokens => if 0 ≤ tokens then .ok (cut, tokens) else .error projectionInvalid
  | .refused reason =>
    if cut < firstProtected then fitMinimumTail units (cut + 1) firstProtected fit
    else .error (.refused reason)
  | .error cause => .error (.error cause)
  | .other => .error projectionInvalid
termination_by firstProtected - cut

def growCompactionTail (units : List CompactionUnit) (cut : ℕ) (tokens : ℤ) (fit : Fit) :
    Except TailHalt (ℕ × ℤ) :=
  match cut with
  | 0 => .ok (0, tokens)
  | cut + 1 =>
    if tailPreference < tokens then .ok (cut + 1, tokens)
    else match fit (units.drop cut) with
      | .ok next =>
        if 0 ≤ next ∧ next ≤ tailPreference then growCompactionTail units cut next fit
        else if tailPreference < next then .ok (cut + 1, tokens)
        else .error projectionInvalid
      | .refused _ => .ok (cut + 1, tokens)
      | .error cause => .error (.error cause)
      | .other => .error projectionInvalid

def maybeGrowCompactionTail (units : List CompactionUnit) (origin : CompactionOrigin) (released cut : ℕ)
    (tokens : ℤ) (fit : Fit) : Except TailHalt (ℕ × ℤ) :=
  if origin = .automatic ∧ released = 0 then growCompactionTail units cut tokens fit else .ok (cut, tokens)

def compactionTail (units : List CompactionUnit) (origin : CompactionOrigin) (fit : Fit) :
    Except TailHalt TailSelection := do
  let (cut, tokens) ← fitMinimumTail units (startingCut units origin) (firstProtected units) fit
  let released := cut - minimumCut units
  let (cut, tokens) ← maybeGrowCompactionTail units origin released cut tokens fit
  return {
    eligibleUnitCount := cut
    retainedTail := units.drop cut
    releasedUnitCount := released
    tailTokens := tokens }

/-! ## where the least tail starts -/

/-- The first protected unit is at `p`, or there is none and `p` is the number of units. -/
structure FirstProtected (units : List CompactionUnit) (p : ℕ) : Prop where
  le : p ≤ units.length
  before : ∀ i u, i < p → units[i]? = some u → u.isProtected = false
  here : ∀ u, units[p]? = some u → u.isProtected = true

/-- The newest complete assistant group of the whole list is at `i`. -/
structure NewestGroup (units : List CompactionUnit) (i : ℕ) : Prop where
  group : ∃ u, units[i]? = some u ∧ u.isGroup = true
  after : ∀ j u, i < j → units[j]? = some u → u.isGroup = false

/-- The least tail starts at the newest complete assistant group, if that is in front of the first protected unit,
and else at the first protected unit. -/
inductive MinimumCut (units : List CompactionUnit) : ℕ → Prop
  | group {i p : ℕ} : NewestGroup units i → FirstProtected units p → i < p → MinimumCut units i
  | atProtected {p : ℕ} : FirstProtected units p → (∀ i, NewestGroup units i → p ≤ i) → MinimumCut units p

variable {units : List CompactionUnit} {origin : CompactionOrigin} {fit : Fit} {cut c p i j m : ℕ} {t tokens : ℤ}
  {reason : Term}

theorem firstProtected_spec (units : List CompactionUnit) : FirstProtected units (firstProtected units) := by
  refine ⟨List.findIdx_le_length, fun i u hi hu => ?_, fun u hu => ?_⟩
  · obtain ⟨hlt, rfl⟩ := List.getElem?_eq_some_iff.1 hu
    simpa using List.not_of_lt_findIdx hi
  · obtain ⟨hlt, rfl⟩ := List.getElem?_eq_some_iff.1 hu
    exact List.findIdx_getElem

theorem FirstProtected.unique (h : FirstProtected units p) (h' : FirstProtected units m) : p = m := by
  have hle : ∀ {p m}, FirstProtected units p → FirstProtected units m → p ≤ m := by
    intro p m h h'
    by_contra hlt
    have hm : m < units.length := by
      have := h.le
      omega
    have hprotected := h'.here _ (List.getElem?_eq_getElem hm)
    rw [h.before m _ (by omega) (List.getElem?_eq_getElem hm)] at hprotected
    cases hprotected
  exact Nat.le_antisymm (hle h h') (hle h' h)

theorem NewestGroup.unique (h : NewestGroup units i) (h' : NewestGroup units j) : i = j := by
  have hle : ∀ {i j}, NewestGroup units i → NewestGroup units j → i ≤ j := by
    intro i j h h'
    by_contra hlt
    obtain ⟨u, hu, hgroup⟩ := h.group
    rw [h'.after i u (by omega) hu] at hgroup
    cases hgroup
  exact Nat.le_antisymm (hle h h') (hle h' h)

theorem NewestGroup.append {u : CompactionUnit} (h : NewestGroup units i) (hu : u.isGroup = false) :
    NewestGroup (units ++ [u]) i := by
  obtain ⟨⟨v, hv, hgroup⟩, hafter⟩ := h
  have hi : i < units.length := (List.getElem?_eq_some_iff.1 hv).1
  refine ⟨⟨v, (List.getElem?_append_left hi).trans hv, hgroup⟩, fun j w hj hw => ?_⟩
  rcases Nat.lt_or_ge j units.length with hlt | hge
  · exact hafter j w hj ((List.getElem?_append_left hlt).symm.trans hw)
  · rw [List.getElem?_append_right hge, List.getElem?_singleton] at hw
    split at hw
    · exact Option.some.inj hw ▸ hu
    · cases hw

/-- The search from the end finds the newest group. -/
theorem findSome_newest (units : List CompactionUnit) :
    (∀ i, (units.zipIdx.reverse.findSome? fun u => if u.1.isGroup then some u.2 else none) = some i →
      NewestGroup units i) ∧
    ((units.zipIdx.reverse.findSome? fun u => if u.1.isGroup then some u.2 else none) = none →
      ∀ u ∈ units, u.isGroup = false) := by
  induction units using List.reverseRecOn with
  | nil => simp
  | append_singleton units u ih =>
    rw [List.zipIdx_append, List.reverse_append]
    simp only [List.zipIdx_cons, List.zipIdx_nil, List.reverse_singleton, List.singleton_append, List.findSome?_cons]
    rcases hu : u.isGroup with _ | _
    · simp only [Bool.false_eq_true, if_false]
      refine ⟨fun i hi => (ih.1 i hi).append hu, fun hnone v hv => ?_⟩
      rcases List.mem_append.1 hv with hv | hv
      · exact ih.2 hnone v hv
      · rw [List.mem_singleton.1 hv]
        exact hu
    · simp only [if_true, Nat.zero_add]
      refine ⟨fun i hi => ?_, fun hnone => (by cases hnone)⟩
      obtain rfl := Option.some.inj hi
      refine ⟨⟨u, by simp, hu⟩, fun j v hj hv => ?_⟩
      have := (List.getElem?_eq_some_iff.1 hv).1
      rw [List.length_append, List.length_singleton] at this
      omega

theorem newestGroup_spec (units : List CompactionUnit) :
    NewestGroup units (newestGroup units) ∨
      (∀ i, ¬ NewestGroup units i) ∧ newestGroup units = firstProtected units := by
  obtain ⟨hsome, hnone⟩ := findSome_newest units
  unfold newestGroup
  rcases hfound : units.zipIdx.reverse.findSome? fun u => if u.1.isGroup then some u.2 else none with _ | i <;>
    rw [hfound]
  · refine .inr ⟨fun i hi => ?_, rfl⟩
    obtain ⟨u, hu, hgroup⟩ := hi.group
    rw [hnone hfound u (List.mem_of_getElem? hu)] at hgroup
    cases hgroup
  · exact .inl (hsome i hfound)

theorem minimumCut_spec (units : List CompactionUnit) : MinimumCut units (minimumCut units) := by
  have hprotected := firstProtected_spec units
  unfold minimumCut
  rcases newestGroup_spec units with hnewest | ⟨hnone, heq⟩
  · rcases Nat.lt_or_ge (newestGroup units) (firstProtected units) with hlt | hle
    · rw [Nat.min_eq_right hlt.le]
      exact .group hnewest hprotected hlt
    · rw [Nat.min_eq_left hle]
      refine .atProtected hprotected fun i hi => ?_
      rw [hi.unique hnewest]
      exact hle
  · rw [heq, Nat.min_self]
    exact .atProtected hprotected fun i hi => absurd hi (hnone i)

theorem MinimumCut.unique (h : MinimumCut units i) (h' : MinimumCut units j) : i = j := by
  cases h with
  | group hi hp hlt =>
    cases h' with
    | group hj => exact hi.unique hj
    | atProtected hq hnone =>
      have := hnone i hi
      have := hp.unique hq
      omega
  | atProtected hp hnone =>
    cases h' with
    | group hj hq hlt =>
      have := hnone j hj
      have := hp.unique hq
      omega
    | atProtected hq => exact hp.unique hq

/-! ## the two loops -/

/-- The callback takes a tail. -/
def Accepts (fit : Fit) (tail : List CompactionUnit) : Prop := ∃ tokens, 0 ≤ tokens ∧ fit tail = .ok tokens

/-- The callback refuses a tail. -/
def Refuses (fit : Fit) (tail : List CompactionUnit) : Prop := ∃ reason, fit tail = .refused reason

theorem Refuses.not_accepts {tail : List CompactionUnit} (h : Refuses fit tail) : ¬ Accepts fit tail := by
  rintro ⟨tokens, -, hok⟩
  obtain ⟨reason, hrefused⟩ := h
  rw [hok] at hrefused
  cases hrefused

/-- The first loop stops at the first tail the callback takes. -/
theorem fitMinimumTail_ok (h : fitMinimumTail units cut p fit = .ok (c, t)) (hle : cut ≤ p) :
    cut ≤ c ∧ c ≤ p ∧ 0 ≤ t ∧ fit (units.drop c) = .ok t ∧
      ∀ i, cut ≤ i → i < c → Refuses fit (units.drop i) := by
  induction cut using fitMinimumTail.induct units p fit with
  | case1 cut tokens hfit hpos =>
    rw [fitMinimumTail, hfit] at h
    simp only [if_pos hpos, Except.ok.injEq, Prod.mk.injEq] at h
    obtain ⟨rfl, rfl⟩ := h
    exact ⟨Nat.le_refl _, hle, hpos, hfit, fun i hi hlt => by omega⟩
  | case2 cut tokens hfit hpos =>
    rw [fitMinimumTail, hfit] at h
    simp [hpos] at h
  | case3 cut reason hfit hlt ih =>
    rw [fitMinimumTail, hfit] at h
    simp only [if_pos hlt] at h
    obtain ⟨hc, hcp, hpos, hok, hrefused⟩ := ih h hlt
    refine ⟨by omega, hcp, hpos, hok, fun i hi hic => ?_⟩
    rcases Nat.eq_or_lt_of_le hi with rfl | hi
    · exact ⟨reason, hfit⟩
    · exact hrefused i hi hic
  | case4 cut reason hfit hlt =>
    rw [fitMinimumTail, hfit] at h
    simp [hlt] at h
  | case5 cut cause hfit =>
    rw [fitMinimumTail, hfit] at h
    cases h
  | case6 cut hfit =>
    rw [fitMinimumTail, hfit] at h
    cases h

/-- The first loop is refused once every tail was. -/
theorem fitMinimumTail_refused (h : fitMinimumTail units cut p fit = .error (.refused reason)) (hle : cut ≤ p) :
    ∀ i, cut ≤ i → i ≤ p → Refuses fit (units.drop i) := by
  induction cut using fitMinimumTail.induct units p fit with
  | case1 cut tokens hfit hpos =>
    rw [fitMinimumTail, hfit] at h
    simp [hpos] at h
  | case2 cut tokens hfit hpos =>
    rw [fitMinimumTail, hfit] at h
    simp [hpos, projectionInvalid] at h
  | case3 cut reason hfit hlt ih =>
    rw [fitMinimumTail, hfit] at h
    simp only [if_pos hlt] at h
    intro i hi hip
    rcases Nat.eq_or_lt_of_le hi with rfl | hi
    · exact ⟨reason, hfit⟩
    · exact ih h hlt i hi hip
  | case4 cut reason hfit hlt =>
    intro i hi hip
    obtain rfl : i = cut := by omega
    exact ⟨reason, hfit⟩
  | case5 cut cause hfit =>
    rw [fitMinimumTail, hfit] at h
    cases h
  | case6 cut hfit =>
    rw [fitMinimumTail, hfit] at h
    cases h

/-- A tail that takes in no older unit: there is none, or the tail is no longer cheap, or it would not be with the unit,
or the callback refuses that. -/
def MaximalTail (units : List CompactionUnit) (fit : Fit) (cut : ℕ) (tokens : ℤ) : Prop :=
  cut = 0 ∨ tailPreference < tokens ∨ Refuses fit (units.drop (cut - 1)) ∨
    ∃ next, tailPreference < next ∧ fit (units.drop (cut - 1)) = .ok next

/-- The second loop takes in older units until the tail is maximal. -/
theorem growCompactionTail_ok (h : growCompactionTail units cut tokens fit = .ok (c, t)) (hpos : 0 ≤ tokens)
    (hfit : fit (units.drop cut) = .ok tokens) :
    c ≤ cut ∧ 0 ≤ t ∧ fit (units.drop c) = .ok t ∧ MaximalTail units fit c t := by
  induction cut generalizing tokens with
  | zero =>
    obtain ⟨rfl, rfl⟩ := Prod.mk.inj (Except.ok.inj h)
    exact ⟨Nat.le_refl _, hpos, hfit, .inl rfl⟩
  | succ cut ih =>
    rw [growCompactionTail] at h
    split at h
    next hlarge =>
      obtain ⟨rfl, rfl⟩ := Prod.mk.inj (Except.ok.inj h)
      exact ⟨Nat.le_refl _, hpos, hfit, .inr (.inl hlarge)⟩
    · split at h
      next next hnext =>
        split at h
        next hcheap =>
          obtain ⟨hc, ht, hok, hmax⟩ := ih h hcheap.1 hnext
          exact ⟨by omega, ht, hok, hmax⟩
        · split at h
          next hlarge =>
            obtain ⟨rfl, rfl⟩ := Prod.mk.inj (Except.ok.inj h)
            exact ⟨Nat.le_refl _, hpos, hfit, .inr (.inr (.inr ⟨next, hlarge, hnext⟩))⟩
          · cases h
      next reason hrefused =>
        obtain ⟨rfl, rfl⟩ := Prod.mk.inj (Except.ok.inj h)
        exact ⟨Nat.le_refl _, hpos, hfit, .inr (.inr (.inl ⟨reason, hrefused⟩))⟩
      · cases h
      · cases h

theorem growCompactionTail_ne_refused :
    growCompactionTail units cut tokens fit ≠ .error (.refused reason) := by
  induction cut generalizing tokens with
  | zero => exact fun h => by cases h
  | succ cut ih =>
    intro h
    rw [growCompactionTail] at h
    split at h
    · cases h
    · split at h
      · split at h
        · exact ih h
        · split at h <;> cases h
      all_goals cases h

/-! ## what is selected -/

theorem startingCut_le (units : List CompactionUnit) (origin : CompactionOrigin) :
    minimumCut units ≤ startingCut units origin ∧ startingCut units origin ≤ firstProtected units := by
  cases origin with
  | automatic => exact ⟨Nat.le_refl _, Nat.min_le_left _ _⟩
  | explicit => exact ⟨Nat.min_le_left _ _, Nat.le_refl _⟩

theorem compactionTail_ok {r : TailSelection} (h : compactionTail units origin fit = .ok r) :
    ∃ c t, fitMinimumTail units (startingCut units origin) (firstProtected units) fit = .ok (c, t) ∧
      maybeGrowCompactionTail units origin (c - minimumCut units) c t fit = .ok (r.eligibleUnitCount, r.tailTokens) ∧
      r.releasedUnitCount = c - minimumCut units ∧ r.retainedTail = units.drop r.eligibleUnitCount := by
  obtain ⟨⟨c, t⟩, hfit, h⟩ := Except.bind_eq_ok.1 h
  obtain ⟨⟨cut, tokens⟩, hgrow, h⟩ := Except.bind_eq_ok.1 h
  obtain rfl := Except.ok.inj h
  exact ⟨c, t, hfit, hgrow, rfl, rfl⟩

theorem compactionTail_refused (h : compactionTail units origin fit = .error (.refused reason)) :
    fitMinimumTail units (startingCut units origin) (firstProtected units) fit = .error (.refused reason) := by
  unfold compactionTail at h
  rcases hfit : fitMinimumTail units (startingCut units origin) (firstProtected units) fit with e | ⟨c, t⟩
  · rw [hfit] at h
    have heq : e = .refused reason := by simpa [bind, Except.bind] using h
    rw [heq]
  · rw [hfit] at h
    simp only [bind, Except.bind] at h
    rcases hgrow : maybeGrowCompactionTail units origin (c - minimumCut units) c t fit with e | x
    · rw [hgrow] at h
      obtain rfl := Except.error.inj h
      unfold maybeGrowCompactionTail at hgrow
      split at hgrow
      · exact absurd hgrow growCompactionTail_ne_refused
      · cases hgrow
    · rw [hgrow] at h
      cases h

/-- **The selected tail.** It is a suffix of the units, with no protected unit in front of it, that the callback took
with its tokens.  Of automatic origin, if the least tail is taken nothing is released and the tail is maximal, and else
the fewest oldest units are released that leave a tail the callback takes.  The selection is refused only if the
callback refuses every tail from the starting cut to the first protected unit. -/
theorem compaction_tail_selection (units : List CompactionUnit) (origin : CompactionOrigin) (fit : Fit) :
    (∀ r, compactionTail units origin fit = .ok r →
      units.take r.eligibleUnitCount ++ r.retainedTail = units ∧
      (∀ u ∈ units.take r.eligibleUnitCount, u.isProtected = false) ∧
      (∀ p, FirstProtected units p → r.eligibleUnitCount ≤ p) ∧
      0 ≤ r.tailTokens ∧ fit r.retainedTail = .ok r.tailTokens ∧
      (origin = .automatic → ∀ m, MinimumCut units m →
        (Accepts fit (units.drop m) →
          r.releasedUnitCount = 0 ∧ MaximalTail units fit r.eligibleUnitCount r.tailTokens) ∧
        (¬ Accepts fit (units.drop m) → r.eligibleUnitCount = m + r.releasedUnitCount ∧
          IsLeast {k | Accepts fit (units.drop (m + k))} r.releasedUnitCount))) ∧
    (∀ reason, compactionTail units origin fit = .error (.refused reason) →
      ∀ i, startingCut units origin ≤ i → i ≤ firstProtected units → Refuses fit (units.drop i)) := by
  obtain ⟨hmin, hstart⟩ := startingCut_le units origin
  have hspec := firstProtected_spec units
  refine ⟨fun r h => ?_, fun reason h => fitMinimumTail_refused (compactionTail_refused h) hstart⟩
  obtain ⟨c, t, hfit, hgrow, hreleased, htail⟩ := compactionTail_ok h
  obtain ⟨hc, hcp, hpos, hok, hrefused⟩ := fitMinimumTail_ok hfit hstart
  have hgrown : r.eligibleUnitCount ≤ c ∧ 0 ≤ r.tailTokens ∧
      fit (units.drop r.eligibleUnitCount) = .ok r.tailTokens := by
    unfold maybeGrowCompactionTail at hgrow
    split at hgrow
    · obtain ⟨hle, hpos', hok', -⟩ := growCompactionTail_ok hgrow hpos hok
      exact ⟨hle, hpos', hok'⟩
    · obtain ⟨rfl, rfl⟩ := Prod.mk.inj (Except.ok.inj hgrow)
      exact ⟨Nat.le_refl _, hpos, hok⟩
  obtain ⟨hle, hpos', hok'⟩ := hgrown
  refine ⟨?_, fun u hu => ?_, fun p hp => ?_, hpos', htail ▸ hok', fun hauto m hm => ⟨fun haccepts => ?_,
    fun hrejects => ?_⟩⟩
  · rw [htail]
    exact List.take_append_drop _ _
  · obtain ⟨i, hi, rfl⟩ := List.mem_iff_getElem.1 hu
    rw [List.length_take] at hi
    rw [List.getElem_take]
    exact hspec.before i _ (by omega) (List.getElem?_eq_getElem (by omega))
  · rw [hp.unique hspec]
    omega
  · obtain rfl := hm.unique (minimumCut_spec units)
    rw [hauto] at hc hrefused hgrow
    have hcm : c = minimumCut units := by
      by_contra hne
      have hc' : minimumCut units ≤ c := hc
      exact (hrefused (minimumCut units) (Nat.le_refl _) (by omega)).not_accepts haccepts
    rw [hcm, Nat.sub_self] at hgrow
    rw [hcm] at hok
    refine ⟨by omega, ?_⟩
    exact (growCompactionTail_ok hgrow hpos hok).2.2.2
  · obtain rfl := hm.unique (minimumCut_spec units)
    rw [hauto] at hc hrefused hgrow
    have hne : c ≠ minimumCut units := by
      rintro rfl
      exact hrejects ⟨t, hpos, hok⟩
    have hlt : minimumCut units < c := Nat.lt_of_le_of_ne hc (Ne.symm hne)
    unfold maybeGrowCompactionTail at hgrow
    rw [if_neg (by omega)] at hgrow
    have heq : c = r.eligibleUnitCount := (Prod.mk.inj (Except.ok.inj hgrow)).1
    rw [hreleased]
    refine ⟨by omega, ⟨t, hpos, ?_⟩, fun k hk => ?_⟩
    · rw [Nat.add_sub_cancel' hlt.le]
      exact hok
    · by_contra hlt'
      exact (hrefused (minimumCut units + k) (Nat.le_add_right _ _) (by omega)).not_accepts hk

/-- A complete group in front of a protected one. -/
def guarded : List CompactionUnit :=
  [⟨⟨.assistantGroup, nil, [], true⟩, false⟩, ⟨⟨.assistantGroup, nil, [], true⟩, true⟩]

/-- A callback that refuses the two together. -/
def single : Fit := fun tail => if tail.length = 2 then .refused nil else .ok 1

/-- The newest group of all is protected, and a group in front of it is given up without being counted as released. -/
theorem compaction_tail_selection_protected :
    ∃ r, compactionTail guarded .automatic single = .ok r ∧
      FirstProtected guarded 1 ∧ NewestGroup (guarded.take 1) 0 ∧
      ¬ Accepts single (guarded.drop 0) ∧ r.releasedUnitCount = 0 ∧
      ¬ IsLeast {k | Accepts single (guarded.drop (0 + k))} r.releasedUnitCount := by
  have hrefused : ¬ Accepts single (guarded.drop 0) := Refuses.not_accepts ⟨nil, rfl⟩
  have hcut : minimumCut guarded = 1 := by decide
  have hprotected : firstProtected guarded = 1 := by decide
  have hfit : fitMinimumTail guarded 1 1 single = .ok (1, 1) := by
    rw [fitMinimumTail]
    rfl
  have hgrow : maybeGrowCompactionTail guarded .automatic (1 - 1) 1 1 single = .ok (1, 1) := rfl
  have hgroup : NewestGroup (guarded.take 1) 0 := by
    refine ⟨⟨_, rfl, rfl⟩, fun j u hj hu => ?_⟩
    have hlt : j < 1 := (List.getElem?_eq_some_iff.1 hu).1
    omega
  refine ⟨⟨1, guarded.drop 1, 0, 1⟩, ?_, hprotected ▸ firstProtected_spec guarded, hgroup, hrefused, rfl,
    fun hleast => hrefused hleast.1⟩
  simp only [compactionTail, startingCut, hcut, hprotected, hfit, hgrow, bind, Except.bind]
  rfl

end Loopex.Runtime.Conversation
