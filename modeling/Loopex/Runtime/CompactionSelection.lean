import Loopex.Runtime.CompactionStream

/-!
# Which source a compaction selects

The prefixes of a range are tried in turn until one is too large; the last that the preflight accepts is selected,
or, if it is a small one in front of more units, an excerpt of one unit more.

* `Tried` — what the prefixes tried so far came to
* `admitPrefixes_spec` — the loop, from the state it is in after any number of units
* `select_spec` — what is selected, and that it covers what it was preflighted with
-/

namespace Loopex.Runtime.CompactionSource

open Loopex.Erlang Loopex.Erlang.Term Loopex.Protocol Loopex.Protocol.Frame Loopex.Runtime.CompactionSummary

variable {otherString : Term → Option Bytes} {preflight : Candidate → ℕ → Answer}

/-! ## the sources of prefixes -/

/-- The complete source of an array, within the cap. -/
def completeSources (array p : Bytes) : List Candidate :=
  if (completeBytes array p).length ≤ cap then
    [{ candidate (completeBytes array p) false none with messageByteLength := some array.length }]
  else []

section
variable (otherString)

/-- The stream after some messages, without the closing bracket. -/
def opened (messages : List Term) : Bytes := 91 :: joined true (messages.map (valueText otherString))

/-- The complete source of the first `k` units. -/
def prefixSources (units : List (List Term)) (p : Bytes) (k : ℕ) : List Candidate :=
  completeSources (messagesText otherString (units.take k).flatten) p

end

theorem messagesText_eq (messages : List Term) :
    messagesText otherString messages = opened otherString messages ++ [93] := rfl

theorem joined_append (first : Bool) (ts us : List Bytes) :
    joined first (ts ++ us) = joined first ts ++ joined (first && ts.isEmpty) us := by
  induction ts generalizing first with
  | nil => simp [joined]
  | cons t ts ih =>
    rw [List.cons_append, joined, joined, ih false]
    simp

theorem opened_append (xs ys : List Term) :
    opened otherString (xs ++ ys) =
      opened otherString xs ++ joined xs.isEmpty (ys.map (valueText otherString)) := by
  rw [opened, opened, List.map_append, joined_append]
  simp

/-- More units make a longer array. -/
theorem messagesText_mono (xs ys : List Term) :
    (messagesText otherString xs).length ≤ (messagesText otherString (xs ++ ys)).length := by
  rw [messagesText_eq, messagesText_eq, opened_append]
  simp only [List.length_append, List.length_cons, List.length_nil]
  omega

theorem completeBytes_length (array p : Bytes) :
    (completeBytes array p).length = (completeBytes [] p).length + array.length := by
  simp only [completeBytes, List.length_append, List.length_nil]
  omega

/-- Once a prefix is too large, every longer one is. -/
theorem prefixSources_nil {units : List (List Term)} {p : Bytes} {j k : ℕ} (hjk : j ≤ k)
    (h : prefixSources otherString units p j = []) : prefixSources otherString units p k = [] := by
  obtain ⟨i, rfl⟩ := Nat.exists_eq_add_of_le hjk
  have hmono : (messagesText otherString (units.take j).flatten).length ≤
      (messagesText otherString (units.take (j + i)).flatten).length := by
    rw [List.take_add, List.flatten_append]
    exact messagesText_mono _ _
  unfold prefixSources completeSources at h ⊢
  split at h <;> [cases h; skip]
  next hlarge =>
  rw [if_neg]
  rw [completeBytes_length] at hlarge ⊢
  omega

theorem prefixSources_cases (units : List (List Term)) (p : Bytes) (k : ℕ) :
    prefixSources otherString units p k = [] ∨ ∃ source, prefixSources otherString units p k = [source] ∧
      source.messageByteLength = some (messagesText otherString (units.take k).flatten).length := by
  unfold prefixSources completeSources
  split
  · exact .inr ⟨_, rfl, rfl⟩
  · exact .inl rfl

theorem complete_completeSources {prior : Term} {array p : Bytes} (hp : json otherString prior = .ok p) :
    complete otherString (Acc.of array) prior = .ok (completeSources array p) := complete_of hp

/-- `prefix_candidate` closes the array. -/
theorem prefixCandidate_of {prior : Term} {b p : Bytes} (hp : json otherString prior = .ok p) :
    prefixCandidate otherString (Acc.of b) prior = .ok (completeSources (b ++ [93]) p) := by
  have hclose : utf8 "]" = [93] := by decide
  rw [prefixCandidate, Acc.of_complete, completeSources]
  by_cases hcap : b.length ≤ cap
  · rw [if_pos hcap]
    simp only [complete, hp, Check.ok_bind, Acc.of_count, hclose, List.length_append, List.length_singleton]
  · have hlarge : ¬(completeBytes (b ++ [93]) p).length ≤ cap := by
      rw [completeBytes_length, List.length_append]
      omega
    rw [if_neg hcap, if_neg hlarge]

/-! ## the loop over the prefixes -/

/-- A range of units: each holds messages, and all of them together can be counted. -/
structure Range (otherString : Term → Option Bytes) (units : List (List Term)) : Prop where
  nonempty : ∀ unit ∈ units, unit ≠ []
  message : ∀ unit ∈ units, ∀ m ∈ unit, Message m
  counted : (messagesText otherString units.flatten).length ≤ uint64

/-- The preflight lets the selection go on. -/
def Answer.goesOn (a : Answer) : Prop := a = .ok ∨ a = .refused

/-- The best of the first `k` prefixes: all are within the cap, the preflight went on after each, and the last it
accepted is kept. -/
structure Tried (otherString : Term → Option Bytes) (preflight : Candidate → ℕ → Answer) (units : List (List Term))
    (p : Bytes) (k : ℕ) (best : Option Selection) : Prop where
  fits : ∀ j, 1 ≤ j → j ≤ k → ∃ source, prefixSources otherString units p j = [source] ∧ (preflight source j).goesOn
  none : best = .none → ∀ j source, 1 ≤ j → j ≤ k → prefixSources otherString units p j = [source] →
    preflight source j = .refused
  some : ∀ s, best = .some s → 1 ≤ s.unitCount ∧ s.unitCount ≤ k ∧
    prefixSources otherString units p s.unitCount = [s.source] ∧ preflight s.source s.unitCount = .ok ∧
    ∀ j source, s.unitCount < j → j ≤ k → prefixSources otherString units p j = [source] →
      preflight source j = .refused

/-- How the loop ends. -/
inductive Ends (otherString : Term → Option Bytes) (preflight : Candidate → ℕ → Answer) (units : List (List Term))
    (p : Bytes) : Check Bytes (Option Selection) → Prop
  | ok {k best} : k ≤ units.length → Tried otherString preflight units p k best →
      (k < units.length → prefixSources otherString units p (k + 1) = []) → Ends otherString preflight units p (.ok best)
  | error {k best source reason} : k < units.length → Tried otherString preflight units p k best →
      prefixSources otherString units p (k + 1) = [source] →
      (preflight source (k + 1) = .error reason ∨
        preflight source (k + 1) = .invalid ∧ reason = contextProjectionInvalid) →
      Ends otherString preflight units p (.error reason)

/-- One prefix more. -/
theorem Tried.next {units : List (List Term)} {p : Bytes} {k : ℕ} {best : Option Selection} {source : Candidate}
    (h : Tried otherString preflight units p k best) (hs : prefixSources otherString units p (k + 1) = [source]) :
    (preflight source (k + 1) = .refused → Tried otherString preflight units p (k + 1) best) ∧
      (preflight source (k + 1) = .ok → Tried otherString preflight units p (k + 1) (.some ⟨source, k + 1⟩)) := by
  have hlast : ∀ j, j ≤ k + 1 → j ≤ k ∨ j = k + 1 := by
    intro j hj
    omega
  constructor
  · intro ha
    refine ⟨fun j h1 hj => ?_, fun hb j source' h1 hj hsource => ?_, fun s hb => ?_⟩
    · rcases hlast j hj with hj | rfl
      · exact h.fits j h1 hj
      · exact ⟨source, hs, .inr ha⟩
    · rcases hlast j hj with hj | rfl
      · exact h.none hb j source' h1 hj hsource
      · rw [hs] at hsource
        cases hsource
        exact ha
    · obtain ⟨h1, hle, hsource, hok, hafter⟩ := h.some s hb
      refine ⟨h1, by omega, hsource, hok, fun j source' hlt hj hsource' => ?_⟩
      rcases hlast j hj with hj | rfl
      · exact hafter j source' hlt hj hsource'
      · rw [hs] at hsource'
        cases hsource'
        exact ha
  · intro ha
    refine ⟨fun j h1 hj => ?_, (fun hb => nomatch hb), fun s hb => ?_⟩
    · rcases hlast j hj with hj | rfl
      · exact h.fits j h1 hj
      · exact ⟨source, hs, .inl ha⟩
    · cases hb
      exact ⟨by simp, Nat.le_refl _, hs, ha, fun j source' hlt hj => absurd hj (by dsimp only at hlt; omega)⟩

theorem Message.text_ne_nil {m : Term} (h : Message m) : valueText otherString m ≠ [] := by
  obtain ⟨text, htext, -⟩ := @Message.streams otherString m h
  obtain ⟨hcanonical, hplain⟩ := h
  rw [valueText, htext, Option.getD_some]
  cases hplain with
  | map hk hv =>
    rw [encodeValue] at htext
    split at htext <;> [cases htext; skip]
    obtain ⟨ms, -, rfl⟩ := Option.map_eq_some_iff.1 htext
    exact List.cons_ne_nil _ _
  | _ => simp [canonicalMessage] at hcanonical

/-- A unit moves the stream on. -/
theorem joined_ne_nil {unit : List Term} (hne : unit ≠ []) (h : ∀ m ∈ unit, Message m) (first : Bool) :
    joined first (unit.map (valueText otherString)) ≠ [] := by
  rcases unit with _ | ⟨m, unit⟩
  · exact absurd rfl hne
  · have hm := @Message.text_ne_nil otherString m (h m (by simp))
    simp [joined, hm]

/-- A unit in the middle of a range. -/
theorem Range.scanUnit {units pre rest : List (List Term)} {unit : List Term} (hr : Range otherString units)
    (heq : units = pre ++ unit :: rest) (n : ℕ) :
    ∃ n', scanUnit okay unit (Acc.of (opened otherString pre.flatten)) pre.isEmpty n =
        .ok ((Acc.of (opened otherString (pre ++ [unit]).flatten), false), n') ∧
      (opened otherString pre.flatten).length < (opened otherString (pre ++ [unit]).flatten).length := by
  have hmem : unit ∈ units := by simp [heq]
  have hpre : pre.flatten.isEmpty = pre.isEmpty := by
    rcases pre with _ | ⟨u, pre⟩
    · rfl
    · have hu := hr.nonempty u (by simp [heq])
      rcases u with _ | ⟨m, u⟩
      · exact absurd rfl hu
      · rfl
  have hopened : opened otherString (pre ++ [unit]).flatten =
      opened otherString pre.flatten ++ joined pre.isEmpty (unit.map (valueText otherString)) := by
    rw [List.flatten_append, List.flatten_singleton, opened_append, hpre]
  have hsplit : units.flatten = (pre ++ [unit]).flatten ++ rest.flatten := by simp [heq]
  have hfits : (opened otherString (pre ++ [unit]).flatten).length < uint64 := by
    have hmono := @messagesText_mono otherString (pre ++ [unit]).flatten rest.flatten
    have hcounted := hr.counted
    rw [← hsplit] at hmono
    rw [messagesText_eq, List.length_append, List.length_singleton] at hmono
    omega
  have hlonger : (opened otherString pre.flatten).length < (opened otherString (pre ++ [unit]).flatten).length := by
    have hpos := List.length_pos_iff.2
      (@joined_ne_nil otherString unit (hr.nonempty unit hmem) (hr.message unit hmem) pre.isEmpty)
    rw [hopened, List.length_append]
    omega
  obtain ⟨n', hn⟩ := @emits_scanUnit otherString unit (hr.message unit hmem) pre.isEmpty
    (opened otherString pre.flatten) (by omega) n
  refine ⟨n', ?_, hlonger⟩
  have hempty : unit.isEmpty = false := by simpa using hr.nonempty unit hmem
  dsimp only at hn
  rw [hn, ← hopened, if_pos (by omega), hempty, Bool.and_false]

/-- **The loop over the prefixes**, after any number of units. -/
theorem admitPrefixes_spec {units pre rest : List (List Term)} {prior : Term} {p : Bytes} {best : Option Selection}
    (hp : json otherString prior = .ok p) (hr : Range otherString units) (heq : units = pre ++ rest)
    (ht : Tried otherString preflight units p pre.length best) (n : ℕ) :
    ∃ result n', Ends otherString preflight units p result ∧
      admitPrefixes otherString okay preflight prior (rest.map some) (pre.length + 1)
        (Acc.of (opened otherString pre.flatten)) pre.isEmpty best n = result.bind fun b => .ok (b, n') := by
  induction rest generalizing pre best n with
  | nil =>
    have hlen : pre.length = units.length := by simp [heq]
    exact ⟨.ok best, n, .ok (by omega) ht (by omega), rfl⟩
  | cons unit rest ih =>
    obtain ⟨n₁, hscan, hlonger⟩ := hr.scanUnit heq (n + 1)
    have hlen : pre.length < units.length := by simp [heq]
    have hsources : completeSources (opened otherString (pre ++ [unit]).flatten ++ [93]) p =
        prefixSources otherString units p (pre.length + 1) := by
      have htake : units.take (pre.length + 1) = pre ++ [unit] := by
        rw [heq, List.take_length_add_append]
        rfl
      rw [prefixSources, htake, messagesText_eq]
    have hnext : (pre ++ [unit]).length = pre.length + 1 := by simp
    have hstep : admitPrefixes otherString okay preflight prior ((unit :: rest).map some) (pre.length + 1)
        (Acc.of (opened otherString pre.flatten)) pre.isEmpty best n =
        (admitPrefix okay preflight (prefixSources otherString units p (pre.length + 1)) (pre.length + 1) best >>=
          fun best => if prefixSources otherString units p (pre.length + 1) = [] then pure best
            else admitPrefixes otherString okay preflight prior (rest.map some) (pre.length + 1 + 1)
              (Acc.of (opened otherString (pre ++ [unit]).flatten)) false best) n₁ := by
      have hask : ∀ (k : Unit → Scan (Option Selection)), (ask okay >>= k) n = k () (n + 1) := fun _ => rfl
      rw [List.map_cons, admitPrefixes, hask]
      dsimp only
      have hbind : ∀ (k : Acc × Bool → Scan (Option Selection)),
          (scanUnit okay unit (Acc.of (opened otherString pre.flatten)) pre.isEmpty >>= k) (n + 1) =
            k (Acc.of (opened otherString (pre ++ [unit]).flatten), false) n₁ := by
        intro k
        have happly : (scanUnit okay unit (Acc.of (opened otherString pre.flatten)) pre.isEmpty >>= k) (n + 1) =
          scanUnit okay unit (Acc.of (opened otherString pre.flatten)) pre.isEmpty (n + 1) >>= fun r => k r.1 r.2 := rfl
        rw [happly, hscan]
        rfl
      rw [hbind]
      dsimp only
      rw [Acc.of_count, Acc.of_count, if_pos ⟨rfl, hlonger⟩, prefixCandidate_of hp, hsources]
      rfl
    rw [hstep]
    rcases @prefixSources_cases otherString units p (pre.length + 1) with hnone | ⟨source, hsource, -⟩
    · rw [hnone]
      exact ⟨.ok best, n₁, .ok (by omega) ht fun _ => hnone, rfl⟩
    · obtain ⟨hrefused, hok⟩ := ht.next hsource
      rw [hsource]
      have hgo : ∀ best', Tried otherString preflight units p (pre.length + 1) best' → ∃ result n',
          Ends otherString preflight units p result ∧
            admitPrefixes otherString okay preflight prior (rest.map some) (pre.length + 1 + 1)
              (Acc.of (opened otherString (pre ++ [unit]).flatten)) false best' (n₁ + 1) =
              result.bind fun b => .ok (b, n') := by
        intro best' ht'
        have hih := @ih (pre ++ [unit]) best' (by simp [heq]) (by rwa [hnext]) (n₁ + 1)
        have hempty : (pre ++ [unit]).isEmpty = false := by simp
        rw [hnext, hempty] at hih
        exact hih
      have hask : ∀ (k : Unit → Scan (Option Selection)) (k' : Option Selection → Scan (Option Selection)),
          ((ask okay >>= k) >>= k') n₁ = (k () >>= k') (n₁ + 1) := fun _ _ => rfl
      rw [admitPrefix, hask]
      simp only [List.cons_ne_nil, if_false]
      rcases ha : preflight source (pre.length + 1) with _ | _ | reason | _
      · exact hgo _ (hok ha)
      · exact hgo _ (hrefused ha)
      · exact ⟨.error reason, n₁ + 1, .error hlen ht hsource (.inl ha), rfl⟩
      · exact ⟨.error contextProjectionInvalid, n₁ + 1, .error hlen ht hsource (.inr ⟨ha, rfl⟩), rfl⟩

/-- `complete_prefixes`. -/
theorem completePrefixes_spec {units : List (List Term)} {prior : Term} {p : Bytes}
    (hp : json otherString prior = .ok p) (hr : Range otherString units) (n : ℕ) :
    ∃ result n', Ends otherString preflight units p result ∧
      completePrefixes otherString okay preflight (units.map some) prior n = result.bind fun b => .ok (b, n') := by
  have hopen : utf8 "[" = [91] := by decide
  obtain ⟨n₁, hinitial⟩ := emits_consume [91] [] (by simp) n
  rw [List.nil_append, if_pos (by decide)] at hinitial
  have htried : Tried otherString preflight units p 0 none :=
    ⟨fun j h1 hj => absurd hj (by omega), fun _ j _ h1 hj => absurd hj (by omega), fun s hs => nomatch hs⟩
  obtain ⟨result, n', hends, hrun⟩ := @admitPrefixes_spec otherString preflight units [] units prior p none hp hr rfl
    htried n₁
  refine ⟨result, n', hends, ?_⟩
  have hbind : completePrefixes otherString okay preflight (units.map some) prior n =
      consume okay (utf8 "[") initialScan n >>= fun r =>
        admitPrefixes otherString okay preflight prior (units.map some) 1 r.1 true none r.2 := rfl
  rw [hbind, hopen, initialScan_eq, hinitial]
  exact hrun

/-! ## excerpts -/

section
variable (otherString preflight)

/-- What every run of `encode` answers. -/
def Encodes (messages : List Term) (prior : Term) (form : Form) (r : Check Bytes (List Candidate)) : Prop :=
  ∀ n, ∃ n', encode otherString okay (some messages) prior form n = r.bind fun l => .ok (l, n')

/-- The first of some candidates that the preflight does not refuse. -/
inductive FirstAdmitted (count : ℕ) : List Candidate → Check Bytes (Option Selection) → Prop
  | none {sources} : (∀ source ∈ sources, preflight source count = .refused) →
      FirstAdmitted count sources (.error compactionExcerptBudgetTooSmall)
  | ok {before source after} : (∀ source ∈ before, preflight source count = .refused) →
      preflight source count = .ok → FirstAdmitted count (before ++ source :: after) (.ok (some ⟨source, count⟩))
  | error {before source after reason} : (∀ source ∈ before, preflight source count = .refused) →
      (preflight source count = .error reason ∨
        preflight source count = .invalid ∧ reason = contextProjectionInvalid) →
      FirstAdmitted count (before ++ source :: after) (.error reason)

/-- A selection of an excerpt over the first `count` units. -/
inductive ExcerptOf (units : List (List Term)) (prior : Term) (count : ℕ) : Check Bytes (Option Selection) → Prop
  | none {reason} : Encodes otherString (units.take count).flatten prior .excerpt (.error reason) →
      reason = compactionExcerptBudgetTooSmall → ExcerptOf units prior count (.error reason)
  | some {sources r} : Encodes otherString (units.take count).flatten prior .excerpt (.ok sources) →
      FirstAdmitted preflight count sources r → ExcerptOf units prior count r

end

theorem FirstAdmitted.cons {count : ℕ} {source : Candidate} {sources : List Candidate}
    {r : Check Bytes (Option Selection)} (h : FirstAdmitted preflight count sources r)
    (hs : preflight source count = .refused) : FirstAdmitted preflight count (source :: sources) r := by
  cases h with
  | none hall => exact .none (List.forall_mem_cons.2 ⟨hs, hall⟩)
  | @ok before admitted after hall hok =>
    exact @FirstAdmitted.ok _ _ (source :: before) _ _ (List.forall_mem_cons.2 ⟨hs, hall⟩) hok
  | @error before refusing after reason hall herror =>
    exact @FirstAdmitted.error _ _ (source :: before) _ _ _ (List.forall_mem_cons.2 ⟨hs, hall⟩) herror

theorem admitExcerpt_spec (sources : List Candidate) (count n : ℕ) :
    ∃ r n', FirstAdmitted preflight count sources r ∧
      (some <$> admitExcerpt okay preflight sources count : Scan (Option Selection)) n =
        r.bind fun s => .ok (s, n') := by
  induction sources generalizing n with
  | nil => exact ⟨_, n, .none (by simp), rfl⟩
  | cons source sources ih =>
    have hask : ∀ (k : Unit → Scan Selection),
        (some <$> (ask okay >>= k) : Scan (Option Selection)) n = (some <$> k ()) (n + 1) := fun _ => rfl
    rw [admitExcerpt, hask]
    rcases ha : preflight source count with _ | _ | reason | _
    · exact ⟨_, n + 1, @FirstAdmitted.ok _ _ [] source sources (by simp) ha, rfl⟩
    · obtain ⟨r, n', hr, hrun⟩ := ih (n + 1)
      exact ⟨r, n', hr.cons ha, hrun⟩
    · exact ⟨_, n + 1, @FirstAdmitted.error _ _ [] source sources _ (by simp) (.inl ha), rfl⟩
    · exact ⟨_, n + 1, @FirstAdmitted.error _ _ [] source sources _ (by simp) (.inr ⟨ha, rfl⟩), rfl⟩

/-- The units that an excerpt covers are messages that can be encoded. -/
theorem Range.take {units : List (List Term)} (hr : Range otherString units) {k : ℕ} (hk : 1 ≤ k)
    (hne : units ≠ []) :
    (units.take k).flatten ≠ [] ∧ (∀ m ∈ (units.take k).flatten, Message m) ∧
      (messagesText otherString (units.take k).flatten).length ≤ uint64 := by
  refine ⟨?_, ?_, ?_⟩
  · rcases units with _ | ⟨unit, units⟩
    · exact absurd rfl hne
    · obtain ⟨i, rfl⟩ := Nat.exists_eq_add_of_le hk
      have hunit := hr.nonempty unit (by simp)
      rw [Nat.add_comm, List.take_succ_cons, List.flatten_cons]
      simp [hunit]
  · intro m hm
    obtain ⟨unit, hunit, hm⟩ := List.mem_flatten.1 hm
    exact hr.message unit (List.mem_of_mem_take hunit) m hm
  · have hmono := @messagesText_mono otherString (units.take k).flatten (units.drop k).flatten
    rw [← List.flatten_append, List.take_append_drop] at hmono
    exact hmono.trans hr.counted

theorem Range.encodes {units : List (List Term)} {prior : Term} (hr : Range otherString units) {k : ℕ} (hk : 1 ≤ k)
    (hne : units ≠ []) (hprior : validPrior otherString prior = .ok ()) (form : Form) :
    Encodes otherString (units.take k).flatten prior form
      (candidatesOf otherString form (Acc.of (messagesText otherString (units.take k).flatten)) prior) := by
  intro n
  obtain ⟨hmessages, hall, hfits⟩ := hr.take hk hne
  obtain ⟨n', hn⟩ := encode_eq hmessages hall hprior form n
  exact ⟨n', by rw [hn, if_pos hfits]⟩

/-- The complete source of a prefix is what `encode` answers on its messages. -/
theorem Range.encodes_complete {units : List (List Term)} {prior : Term} {p : Bytes} (hr : Range otherString units)
    {k : ℕ} (hk : 1 ≤ k) (hne : units ≠ []) (hprior : validPrior otherString prior = .ok ())
    (hp : json otherString prior = .ok p) :
    Encodes otherString (units.take k).flatten prior .complete (.ok (prefixSources otherString units p k)) := by
  have h := hr.encodes hk hne hprior .complete
  rwa [candidatesOf, complete_completeSources hp] at h

theorem map_bind_apply {α : Type} (m : Scan α) (k : α → Scan Selection) (n : ℕ) :
    (some <$> (m >>= k) : Scan (Option Selection)) n =
      m n >>= fun r => (some <$> k r.1 : Scan (Option Selection)) r.2 := by
  have hmap : (some <$> (m >>= k) : Scan (Option Selection)) n =
      (m n >>= fun r => k r.1 r.2) >>= fun r => pure (some r.1, r.2) := rfl
  rw [hmap, bind_assoc]
  rfl

theorem mapM_some (units : List (List Term)) : (units.map some).mapM id = some units := by
  induction units with
  | nil => rfl
  | cons unit units ih => simp [List.mapM_cons, ih]

/-- `select_excerpt`. -/
theorem selectExcerpt_spec {units : List (List Term)} {prior : Term} (hr : Range otherString units) (hne : units ≠ [])
    (hprior : validPrior otherString prior = .ok ()) {k : ℕ} (hk : 1 ≤ k) (n : ℕ) :
    ∃ r n', ExcerptOf otherString preflight units prior k r ∧
      (some <$> selectExcerpt otherString okay preflight (units.map some) k prior : Scan (Option Selection)) n =
        r.bind fun s => .ok (s, n') := by
  obtain ⟨-, -, hfits⟩ := hr.take hk hne
  have hencodes := hr.encodes hk hne hprior .excerpt
  obtain ⟨n₁, hn₁⟩ := hencodes n
  have hrun : (some <$> selectExcerpt otherString okay preflight (units.map some) k prior : Scan (Option Selection)) n =
      encode otherString okay (some (units.take k).flatten) prior .excerpt n >>= fun r =>
        (some <$> admitExcerpt okay preflight r.1 k : Scan (Option Selection)) r.2 := by
    rw [selectExcerpt, ← List.map_take, mapM_some]
    exact map_bind_apply _ _ n
  rw [hrun, hn₁]
  rw [candidatesOf] at hencodes ⊢
  rcases excerpts_of (validPrior_written hprior) hfits with hnone | ⟨sources, hsome, -⟩
  · rw [hnone] at hencodes ⊢
    exact ⟨_, n₁, .none hencodes rfl, rfl⟩
  · rw [hsome] at hencodes ⊢
    obtain ⟨r, n', hr', hrun'⟩ := @admitExcerpt_spec preflight sources k n₁
    exact ⟨r, n', .some hencodes hr', hrun'⟩

/-! ## the selection -/

section
variable (otherString preflight)

/-- What `select` answers on a range: with `k` the longest accepted prefix, that prefix unless it is a small one in
front of more units, and else an excerpt over one unit more. -/
structure Selected (units : List (List Term)) (prior : Term) (p : Bytes) (result : Check Bytes (Option Selection)) :
    Prop where
  largest : ∀ k source, 1 ≤ k → k ≤ units.length → prefixSources otherString units p k = [source] →
    preflight source k = .ok →
    (∀ j s, 1 ≤ j → j ≤ units.length → prefixSources otherString units p j = [s] → (preflight s j).goesOn) →
    (∀ j s, k < j → j ≤ units.length → prefixSources otherString units p j = [s] → preflight s j = .refused) →
    (k = units.length ∨ 6144 < (messagesText otherString (units.take k).flatten).length →
      result = .ok (some ⟨source, k⟩)) ∧
    (k < units.length → (messagesText otherString (units.take k).flatten).length ≤ 6144 →
      ExcerptOf otherString preflight units prior (k + 1) result)
  unaccepted : (∀ j s, 1 ≤ j → j ≤ units.length → prefixSources otherString units p j = [s] →
    preflight s j = .refused) → ExcerptOf otherString preflight units prior 1 result
  stopped : ∀ reason, result = .error reason →
    (∃ k source, 1 ≤ k ∧ k ≤ units.length ∧ prefixSources otherString units p k = [source] ∧
      (preflight source k = .error reason ∨ preflight source k = .invalid ∧ reason = contextProjectionInvalid)) ∨
    ∃ k, 1 ≤ k ∧ k ≤ units.length ∧ ExcerptOf otherString preflight units prior k result
  covers : ∀ selection, result = .ok selection → ∃ s, selection = some s ∧ 1 ≤ s.unitCount ∧
    s.unitCount ≤ units.length ∧ preflight s.source s.unitCount = .ok ∧
    ((s.source.sourceExcerpted = false ∧
        Encodes otherString (units.take s.unitCount).flatten prior .complete (.ok [s.source])) ∨
      s.source.sourceExcerpted = true ∧ ∃ sources, s.source ∈ sources ∧
        Encodes otherString (units.take s.unitCount).flatten prior .excerpt (.ok sources))

end

theorem prefixSources_excerpted {units : List (List Term)} {p : Bytes} {k : ℕ} {source : Candidate}
    (h : prefixSources otherString units p k = [source]) : source.sourceExcerpted = false ∧
      source.messageByteLength = some (messagesText otherString (units.take k).flatten).length := by
  unfold prefixSources completeSources at h
  split at h <;> [skip; cases h]
  cases h
  exact ⟨rfl, rfl⟩

section
variable (otherString preflight)

/-- `select`, once the prefixes have been tried. -/
def settle (units : List (List Term)) (prior : Term) : Option Selection → Scan (Option Selection)
  | none => some <$> selectExcerpt otherString okay preflight (units.map some) 1 prior
  | some best =>
    if best.unitCount < units.length then
      match best.source.messageByteLength with
      | none => (Check.raise .badKey : Check Bytes (Option Selection))
      | some length =>
        if length ≤ 6144 then
          some <$> selectExcerpt otherString okay preflight (units.map some) (best.unitCount + 1) prior
        else pure (some best)
    else pure (some best)

end

theorem select_apply {units : List (List Term)} {prior : Term} (hne : units ≠ [])
    (hprior : validPrior otherString prior = .ok ()) (n : ℕ) :
    select otherString okay preflight (units.map some) prior n =
      completePrefixes otherString okay preflight (units.map some) prior n >>= fun r =>
        settle otherString preflight units prior r.1 r.2 := by
  have hmap : ¬units.map some = [] := by simpa using hne
  rw [select, hprior]
  simp only [hmap, if_false, List.length_map]
  rfl

theorem settle_small {units : List (List Term)} {prior : Term} {best : Selection} {length : ℕ}
    (hlength : best.source.messageByteLength = some length) (hlt : best.unitCount < units.length)
    (hsmall : length ≤ 6144) : settle otherString preflight units prior (some best) =
      some <$> selectExcerpt otherString okay preflight (units.map some) (best.unitCount + 1) prior := by
  simp only [settle, if_pos hlt, hlength, if_pos hsmall]

theorem settle_large {units : List (List Term)} {prior : Term} {best : Selection} {length : ℕ}
    (hlength : best.source.messageByteLength = some length)
    (hlarge : ¬(best.unitCount < units.length ∧ length ≤ 6144)) :
    settle otherString preflight units prior (some best) = pure (some best) := by
  by_cases hlt : best.unitCount < units.length
  · have hle : ¬length ≤ 6144 := fun h => hlarge ⟨hlt, h⟩
    simp only [settle, if_pos hlt, hlength, if_neg hle]
  · simp only [settle, if_neg hlt]

theorem Encodes.ok_inj {messages : List Term} {prior : Term} {form : Form} {r : Check Bytes (List Candidate)}
    {sources : List Candidate} (h : Encodes otherString messages prior form r)
    (h' : Encodes otherString messages prior form (.ok sources)) : r = .ok sources := by
  obtain ⟨n₁, h₁⟩ := h 0
  obtain ⟨n₂, h₂⟩ := h' 0
  rw [h₁] at h₂
  rcases r with l | e | x <;> simp_all

theorem FirstAdmitted.ok_some {count : ℕ} {sources : List Candidate} {selection : Option Selection}
    (h : FirstAdmitted preflight count sources (.ok selection)) :
    ∃ s, selection = some s ∧ s.source ∈ sources ∧ s.unitCount = count ∧ preflight s.source count = .ok := by
  cases h with
  | @ok before source after _ hok => exact ⟨_, rfl, by simp, rfl, hok⟩

/-- A selected excerpt covers the units it was preflighted with. -/
theorem excerptOf_covers {units : List (List Term)} {prior : Term} (hr : Range otherString units) (hne : units ≠ [])
    (hprior : validPrior otherString prior = .ok ()) {k : ℕ} (hk : 1 ≤ k) {selection : Option Selection}
    (h : ExcerptOf otherString preflight units prior k (.ok selection)) :
    ∃ s, selection = some s ∧ s.unitCount = k ∧ preflight s.source k = .ok ∧ s.source.sourceExcerpted = true ∧
      ∃ sources, s.source ∈ sources ∧ Encodes otherString (units.take k).flatten prior .excerpt (.ok sources) := by
  generalize hresult : Check.ok selection = result at h
  cases h with
  | none _ _ => cases hresult
  | @some sources r hencodes hfirst =>
    subst hresult
    obtain ⟨s, hs, hmem, hcount, hok⟩ := hfirst.ok_some
    obtain ⟨-, -, hfits⟩ := hr.take hk hne
    have hexcerpts := (hr.encodes hk hne hprior .excerpt).ok_inj hencodes
    rw [candidatesOf] at hexcerpts
    rcases excerpts_of (validPrior_written hprior) hfits with hnone | ⟨sources', hsome, hall⟩
    · rw [hnone] at hexcerpts
      cases hexcerpts
    · rw [hsome] at hexcerpts
      cases hexcerpts
      obtain ⟨quota, front, offset, back, hexcerpt⟩ := hall _ hmem
      refine ⟨s, hs, hcount, hok, ?_, sources, hmem, hencodes⟩
      rw [hexcerpt.source_eq]
      rfl

theorem Answer.not_goesOn {a : Answer} {reason : Bytes}
    (h : a = .error reason ∨ a = .invalid ∧ reason = contextProjectionInvalid) : ¬a.goesOn := by
  rintro (rfl | rfl) <;> simp at h

/-- **The loop ended with an error of the preflight.** -/
theorem selected_error {units : List (List Term)} {prior : Term} {p : Bytes} {k : ℕ} {source : Candidate}
    {reason : Bytes} (hk : k < units.length) (hs : prefixSources otherString units p (k + 1) = [source])
    (ha : preflight source (k + 1) = .error reason ∨
      preflight source (k + 1) = .invalid ∧ reason = contextProjectionInvalid) :
    Selected otherString preflight units prior p (.error reason) := by
  have hno := Answer.not_goesOn ha
  refine ⟨fun k' s h1 hle hsource hok hgo => ?_, fun hrefused => ?_, fun r hr => ?_, fun s hs => nomatch hs⟩
  · exact absurd (hgo (k + 1) source (by omega) hk hs) hno
  · exact absurd (.inr (hrefused (k + 1) source (by omega) hk hs)) hno
  · cases hr
    exact .inl ⟨k + 1, source, by omega, hk, hs, ha⟩

/-- **No prefix was accepted.** -/
theorem selected_none {units : List (List Term)} {prior : Term} {p : Bytes} (hr : Range otherString units)
    (hne : units ≠ []) (hprior : validPrior otherString prior = .ok ()) {result : Check Bytes (Option Selection)}
    (hrefused : ∀ j s, 1 ≤ j → j ≤ units.length → prefixSources otherString units p j = [s] →
      preflight s j = .refused) (h : ExcerptOf otherString preflight units prior 1 result) :
    Selected otherString preflight units prior p result := by
  have hpos : 1 ≤ units.length := List.length_pos_iff.2 hne
  refine ⟨fun k s h1 hle hsource hok _ _ => ?_, fun _ => h, fun r _ => .inr ⟨1, Nat.le_refl _, hpos, h⟩,
    fun selection hs => ?_⟩
  · rw [hrefused k s h1 hle hsource] at hok
    cases hok
  · subst hs
    obtain ⟨s, hs, hcount, hok, hflag, sources, hmem, hencodes⟩ := excerptOf_covers hr hne hprior (Nat.le_refl 1) h
    exact ⟨s, hs, by omega, by omega, hcount ▸ hok, .inr ⟨hflag, sources, hmem, hcount ▸ hencodes⟩⟩

/-- **The longest accepted prefix was a large one, or the whole range.** -/
theorem selected_best {units : List (List Term)} {prior : Term} {p : Bytes} {k : ℕ} {best : Selection}
    (hr : Range otherString units) (hne : units ≠ []) (hprior : validPrior otherString prior = .ok ())
    (hp : json otherString prior = .ok p) (hk : k ≤ units.length)
    (ht : Tried otherString preflight units p k (some best))
    (hend : ∀ j source, j ≤ units.length → prefixSources otherString units p j = [source] → j ≤ k)
    {result : Check Bytes (Option Selection)}
    (hlarge : best.unitCount = units.length ∨
      6144 < (messagesText otherString (units.take best.unitCount).flatten).length → result = .ok (some best))
    (hsmall : best.unitCount < units.length →
      (messagesText otherString (units.take best.unitCount).flatten).length ≤ 6144 →
      ExcerptOf otherString preflight units prior (best.unitCount + 1) result) :
    Selected otherString preflight units prior p result := by
  obtain ⟨h1, hle, hsource, hok, hafter⟩ := ht.some best rfl
  have hcases : (best.unitCount = units.length ∨
      6144 < (messagesText otherString (units.take best.unitCount).flatten).length) ∨
      best.unitCount < units.length ∧
        (messagesText otherString (units.take best.unitCount).flatten).length ≤ 6144 := by omega
  refine ⟨fun k' s h1' hle' hs' hok' _ hlater => ?_, fun hrefused => ?_, fun r hr' => ?_, fun selection hs => ?_⟩
  · have hsame : k' = best.unitCount := by
      rcases Nat.lt_trichotomy k' best.unitCount with hlt | heq | hlt
      · have hrefused := hlater best.unitCount best.source hlt (by omega) hsource
        rw [hok] at hrefused
        cases hrefused
      · exact heq
      · have hrefused := hafter k' s hlt (hend k' s hle' hs') hs'
        rw [hok'] at hrefused
        cases hrefused
    subst hsame
    rw [hsource] at hs'
    cases hs'
    exact ⟨hlarge, hsmall⟩
  · have hrefused := hrefused best.unitCount best.source h1 (by omega) hsource
    rw [hok] at hrefused
    cases hrefused
  · rcases hcases with hcase | ⟨hlt, hshort⟩
    · rw [hlarge hcase] at hr'
      cases hr'
    · exact .inr ⟨best.unitCount + 1, by omega, hlt, hsmall hlt hshort⟩
  · rcases hcases with hcase | ⟨hlt, hshort⟩
    · rw [hlarge hcase] at hs
      cases hs
      have hencodes := hr.encodes_complete h1 hne hprior hp
      rw [hsource] at hencodes
      exact ⟨best, rfl, h1, by omega, hok, .inl ⟨(prefixSources_excerpted hsource).1, hencodes⟩⟩
    · subst hs
      obtain ⟨s, hs, hcount, hok', hflag, sources, hmem, hencodes⟩ :=
        excerptOf_covers hr hne hprior (by omega) (hsmall hlt hshort)
      exact ⟨s, hs, by omega, by omega, hcount ▸ hok', .inr ⟨hflag, sources, hmem, hcount ▸ hencodes⟩⟩

/-- **The selection under a check that always answers ok.** -/
theorem select_selected {units : List (List Term)} {prior : Term} {p : Bytes} (hr : Range otherString units)
    (hne : units ≠ []) (hprior : validPrior otherString prior = .ok ()) (hp : json otherString prior = .ok p) (n : ℕ) :
    ∃ result n', Selected otherString preflight units prior p result ∧
      select otherString okay preflight (units.map some) prior n = result.bind fun s => .ok (s, n') := by
  obtain ⟨tried, n₁, hends, hrun⟩ := @completePrefixes_spec otherString preflight units prior p hp hr n
  rw [select_apply hne hprior, hrun]
  cases hends with
  | @error k best source reason hk ht hs ha => exact ⟨.error reason, n₁, selected_error hk hs ha, rfl⟩
  | @ok k best hk ht hstop =>
    have hend : ∀ j source, j ≤ units.length → prefixSources otherString units p j = [source] → j ≤ k := by
      intro j source hj hsource
      by_contra hlt
      rw [prefixSources_nil (show k + 1 ≤ j by omega) (hstop (by omega))] at hsource
      cases hsource
    rcases best with _ | best
    · obtain ⟨r, n', hexcerpt, hrun'⟩ := @selectExcerpt_spec otherString preflight units prior hr hne hprior 1
        (Nat.le_refl 1) n₁
      exact ⟨r, n', selected_none hr hne hprior (fun j s h1 hj hs => ht.none rfl j s h1 (hend j s hj hs) hs) hexcerpt,
        hrun'⟩
    · obtain ⟨h1, hle, hsource, -⟩ := ht.some best rfl
      obtain ⟨-, hlength⟩ := prefixSources_excerpted hsource
      by_cases hsmall : best.unitCount < units.length ∧
          (messagesText otherString (units.take best.unitCount).flatten).length ≤ 6144
      · obtain ⟨r, n', hexcerpt, hrun'⟩ := @selectExcerpt_spec otherString preflight units prior hr hne hprior
          (best.unitCount + 1) (by omega) n₁
        refine ⟨r, n', selected_best hr hne hprior hp hk ht hend (fun hcase => by omega) (fun _ _ => hexcerpt), ?_⟩
        rw [← hrun', ← settle_small hlength hsmall.1 hsmall.2]
        rfl
      · refine ⟨.ok (some best), n₁, selected_best hr hne hprior hp hk ht hend (fun _ => rfl) (fun h h' => ?_), ?_⟩
        · exact absurd ⟨h, h'⟩ hsmall
        · have hpure : settle otherString preflight units prior (some best) n₁ = .ok (some best, n₁) := by
            rw [settle_large hlength hsmall]
            rfl
          exact hpure

/-- **What a compaction selects.**  Under any check, an error the check answered, or what it selects when the check
always answers ok. -/
theorem select_spec {units : List (List Term)} {prior : Term} (hr : Range otherString units) (hne : units ≠ [])
    (hprior : validPrior otherString prior = .ok ()) (check : ℕ → Option Bytes) (n : ℕ) :
    (∃ i reason, check i = some reason ∧
      select otherString check preflight (units.map some) prior n = .error reason) ∨
    ∃ p result n', encodeValue otherString prior = some p ∧ Selected otherString preflight units prior p result ∧
      select otherString check preflight (units.map some) prior n = result.bind fun s => .ok (s, n') := by
  obtain ⟨p, hp, hjson⟩ := json_of_writtenIn (validPrior_written hprior) (by decide)
  rcases @heeds_select otherString preflight (units.map some) prior check n with h | h
  · obtain ⟨result, n', hselected, hrun⟩ := @select_selected otherString preflight units prior p hr hne hprior hjson n
    dsimp only at h
    exact .inr ⟨p, result, n', hp, hselected, h.trans hrun⟩
  · exact .inl h

/-! ## a small prefix is given up -/

theorem fragment_short {buffer : Bytes} {quota : ℕ} (h : buffer.length < quota) (side : Side) :
    fragment buffer quota side = none := by
  rw [fragment, List.findSome?_eq_none_iff]
  intro extra _
  rw [if_neg (by omega)]

/-- An array shorter than every quota has no excerpts. -/
theorem excerpts_short {array : Bytes} (h : array.length < 512) (prior : Term) :
    excerpts otherString (Acc.of array) prior = .error compactionExcerptBudgetTooSmall := by
  have hnone : ∀ quota, 512 ≤ quota → excerpt otherString (Acc.of array) prior quota = .ok [] := by
    intro quota hq
    rw [excerpt, Acc.of_prefixBytes, fragment_short (by rw [List.length_take]; omega)]
  simp only [excerpts, quotas, List.mapM_cons, List.mapM_nil, hnone 4096 (by omega), hnone 2048 (by omega),
    hnone 1024 (by omega), hnone 512 (by omega), Check.ok_bind, Check.pure_eq]
  rfl

/-- The text of a message of the user, around its content. -/
theorem user_texts : plainText (utf8 "user") = true ∧
    ([utf8 "content", utf8 "role"].Pairwise (· < ·) ∧ ([utf8 "content", utf8 "role"].all plainText) = true) ∧
    utf8 "\x7b\"content\":\"" = 123 :: 34 :: (utf8 "content" ++ [34, 58, 34]) ∧
    utf8 "\",\"role\":\"user\"\x7d" = 34 :: 44 :: 34 :: (utf8 "role" ++ 34 :: 58 :: 34 :: (utf8 "user" ++ [34, 125])) ∧
    (utf8 "\x7b\"content\":\"").length = 12 ∧ (utf8 "\",\"role\":\"user\"\x7d").length = 16 := by decide

theorem valueText_userMessage {text : Bytes} (h : plainText text = true) :
    valueText otherString (userMessage text) =
      utf8 "\x7b\"content\":\"" ++ text ++ utf8 "\",\"role\":\"user\"\x7d" := by
  have hmap : userMessage text = .map [(str "role", str "user"), (str "content", .binary text)] := rfl
  obtain ⟨hplain, ⟨hsorted, hnames⟩, hopen, hclose, -⟩ := user_texts
  have huser : encodeValue otherString (str "user") = some (34 :: (utf8 "user" ++ [34])) := encodeString_plain hplain
  have hcontent : encodeValue otherString (.binary text) = some (34 :: (text ++ [34])) := encodeString_plain h
  have hfields := @encodeValue_fields otherString
    [("role", str "user", 34 :: (utf8 "user" ++ [34])), ("content", .binary text, 34 :: (text ++ [34]))]
    [("content", .binary text, 34 :: (text ++ [34])), ("role", str "user", 34 :: (utf8 "user" ++ [34]))]
    (List.Perm.swap _ _ _) hsorted hnames (by simpa using ⟨hcontent, huser⟩)
  rw [valueText, hmap]
  rw [show [(str "role", str "user"), (str "content", Term.binary text)] =
    [("role", str "user", 34 :: (utf8 "user" ++ [34])), ("content", .binary text, 34 :: (text ++ [34]))].map
      fun f : String × Term × Bytes => (str f.1, f.2.1) from rfl, hfields, Option.getD_some, hopen, hclose]
  simp [List.intercalate]

/-- Two units of one short message. -/
def twoUnits : List (List Term) := [[userMessage (utf8 "small")], [userMessage (utf8 "next")]]

/-- A preflight that accepts the first unit alone. -/
def firstOnly (_ : Candidate) (count : ℕ) : Answer := if count = 1 then .ok else .refused

theorem messagesText_user {a b : Bytes} (ha : plainText a = true) (hb : plainText b = true) :
    (messagesText otherString [userMessage a]).length = a.length + 30 ∧
      (messagesText otherString [userMessage a, userMessage b]).length = a.length + b.length + 59 := by
  obtain ⟨-, -, -, -, hopen, hclose⟩ := user_texts
  constructor
  · simp [messagesText, joined, valueText_userMessage ha, hopen, hclose]
    omega
  · simp [messagesText, joined, valueText_userMessage ha, valueText_userMessage hb, hopen, hclose]
    omega

theorem twoUnits_texts : (plainText (utf8 "small") = true ∧ (utf8 "small").length = 5) ∧
    plainText (utf8 "next") = true ∧ (utf8 "next").length = 4 := by decide

theorem twoUnits_length : (messagesText otherString (twoUnits.take 1).flatten).length = 35 ∧
    (messagesText otherString (twoUnits.take 2).flatten).length = 68 := by
  obtain ⟨⟨hplain, hsmall⟩, hplain', hnext⟩ := twoUnits_texts
  obtain ⟨hone, htwo⟩ := @messagesText_user otherString _ _ hplain hplain'
  rw [hsmall] at hone htwo
  rw [hnext] at htwo
  exact ⟨hone, htwo⟩

theorem range_twoUnits : Range otherString twoUnits := by
  have hmessage : ∀ unit ∈ twoUnits, ∀ m ∈ unit, Message m := by
    simpa [twoUnits] using ⟨message_userMessage (plainText_valid twoUnits_texts.1.1),
      message_userMessage (plainText_valid twoUnits_texts.2.1)⟩
  refine ⟨by simp [twoUnits], hmessage, ?_⟩
  have hlen := (@twoUnits_length otherString).2
  have hall : twoUnits.take 2 = twoUnits := rfl
  rw [hall] at hlen
  rw [hlen]
  decide

/-- **An accepted prefix can be given up for an excerpt that does not exist.** -/
theorem select_spec_fails : Range (fun _ => none) twoUnits ∧ validPrior (fun _ => none) nil = .ok () ∧
    (∃ source, Encodes (fun _ => none) (twoUnits.take 1).flatten nil .complete (.ok [source]) ∧
      firstOnly source 1 = .ok) ∧
    select (fun _ => none) okay firstOnly (twoUnits.map some) nil 0 = .error compactionExcerptBudgetTooSmall := by
  have hprior : validPrior (fun _ => none) nil = .ok () := rfl
  have hr : Range (fun _ => none) twoUnits := range_twoUnits
  have hne : twoUnits ≠ [] := by simp [twoUnits]
  obtain ⟨hone, htwo⟩ := @twoUnits_length fun _ => none
  have hp : json (fun _ => none) nil = .ok (utf8 "null") := json_eq_ok.2 ⟨by decide, by decide⟩
  have hcap : ∀ array : Bytes, array.length = 35 → (completeBytes array (utf8 "null")).length ≤ cap := by
    intro array harray
    have hempty : (completeBytes [] (utf8 "null")).length ≤ 1000 := by decide
    rw [completeBytes_length, harray]
    unfold cap
    omega
  have hsource : ∃ source, prefixSources (fun _ => none) twoUnits (utf8 "null") 1 = [source] := by
    unfold prefixSources completeSources
    rw [if_pos (hcap _ hone)]
    exact ⟨_, rfl⟩
  obtain ⟨source, hsource⟩ := hsource
  have hencodes := hr.encodes_complete (Nat.le_refl 1) hne hprior hp
  rw [hsource] at hencodes
  refine ⟨hr, hprior, ⟨source, hencodes, rfl⟩, ?_⟩
  obtain ⟨result, n', hselected, hrun⟩ := @select_selected (fun _ => none) firstOnly twoUnits nil (utf8 "null") hr hne
    hprior hp 0
  have hanswer : ∀ j (s : Candidate), 1 < j → firstOnly s j = .refused := fun j s hj => if_neg (by omega)
  have hexcerpt := (hselected.largest 1 source (Nat.le_refl 1) (by simp [twoUnits]) hsource rfl
    (fun j s h1 _ _ => by
      by_cases hj : j = 1
      · exact .inl (if_pos hj)
      · exact .inr (hanswer j s (by omega)))
    fun j s hj _ _ => hanswer j s hj).2 (by simp [twoUnits]) (by omega)
  have hencodes₂ := hr.encodes (show 1 ≤ 2 by omega) hne hprior .excerpt
  rw [candidatesOf, excerpts_short (by omega)] at hencodes₂
  cases hexcerpt with
  | none _ hreason =>
    rw [hrun, hreason]
    rfl
  | some hsome _ => cases hencodes₂.ok_inj hsome

/-- Two units that are accepted together. -/
theorem select_spec_twoUnits :
    (∃ i reason, okay i = some reason ∧
      select (fun _ => none) okay (fun _ _ => .ok) (twoUnits.map some) nil 0 = .error reason) ∨
    ∃ p result n', encodeValue (fun _ => none) nil = some p ∧
      Selected (fun _ => none) (fun _ _ => .ok) twoUnits nil p result ∧
      select (fun _ => none) okay (fun _ _ => .ok) (twoUnits.map some) nil 0 = result.bind fun s => .ok (s, n') :=
  select_spec range_twoUnits (by simp [twoUnits]) rfl okay 0

end Loopex.Runtime.CompactionSource
