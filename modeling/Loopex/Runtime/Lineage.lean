import Loopex.Runtime.Conversation
import Mathlib.Data.List.Nodup
import Mathlib.Data.List.Dedup
import Mathlib.Data.List.Induction

/-!
# What the lineage projection accepts and emits

* `Scanned es` — what the fold over the elements asks of them, `Valid es` — what the projection asks
* `lineageIdentities_eq_some` — the fold computes the calls, results and turns of a scanned list
* `lineageEntries_of_valid`, `lineageEntries_of_not_valid` — the entries of a valid list; every other is refused
* `lineage_faithful` — the order of the entries, whatever the order of the results
-/

namespace Loopex.Runtime.Conversation

open Loopex.Erlang Loopex.Erlang.Term

/-! ## the identities of an element -/

/-- The calls of an assistant message, in its order. -/
def AssistantMessage.identities (m : AssistantMessage) : List Identity :=
  (m.toolCalls.getD []).filterMap fun c => c.map fun c => (m.runId, m.turnNumber, c.toolCallId)

def ToolResult.identity (r : ToolResult) : Identity := (r.runId, r.turnNumber, r.toolCallId)

def callsOf : Element → List Identity
  | .assistantMessage m => m.identities
  | _ => []

def resultOf : Element → Option Identity
  | .toolResult r => some r.identity
  | _ => none

def turnOf : Element → Option (Term × Term)
  | .assistantMessage m => some (m.runId, m.turnNumber)
  | _ => none

/-! ## what is accepted -/

def ShapedCall : Option ToolCall → Prop
  | some c => (∃ id, c.toolCallId = .binary id ∧ id ≠ []) ∧ (∃ kvs, c.arguments = .map kvs) ∧ validGeneration c = true
  | none => False

/-- The guards on one element. -/
def Shaped : Element → Prop
  | .userMessage m => (∃ run, m.runId = .binary run ∧ run ≠ []) ∧ (∃ command, m.commandId = .binary command ∧ command ≠ []) ∧
      ∃ content, m.content = .binary content
  | .assistantMessage m => (∃ run, m.runId = .binary run ∧ run ≠ []) ∧ (∃ turn, m.turnNumber = .int turn ∧ 0 < turn) ∧
      (∃ content, m.content = .binary content) ∧ ∃ calls, m.toolCalls = some calls ∧ ∀ c ∈ calls, ShapedCall c
  | .toolResult r => (∃ content, r.content = .binary content) ∧ r.outcome ∈ outcomes
  | .other => False

/-- Every element is well formed, no turn has two assistant messages, no turn has two calls of one identity, and
every result follows its call and is its only one. -/
structure Scanned (es : List Element) : Prop where
  shaped : ∀ e ∈ es, Shaped e
  turns : (es.filterMap turnOf).Nodup
  calls : (es.flatMap callsOf).Nodup
  results : (es.filterMap resultOf).Nodup
  answers : ∀ l r l', es = l ++ .toolResult r :: l' → r.identity ∈ l.flatMap callsOf

/-- Every call has its result as well, and the normalized identities differ. -/
structure Valid (es : List Element) : Prop extends Scanned es where
  complete : ∀ i ∈ es.flatMap callsOf, i ∈ es.filterMap resultOf
  distinct : ((es.flatMap callsOf).map normalizedCallId).Nodup

/-! ## the fold -/

theorem lineageCall_eq_some {run turn : Term} {ids ids' : List (Identity × Bytes)} {c : Option ToolCall} :
    lineageCall run turn ids c = some ids' ↔ ShapedCall c ∧ ∃ d, c = some d ∧
      (run, turn, d.toolCallId) ∉ ids.map Prod.fst ∧
      ids' = ids ++ [((run, turn, d.toolCallId), normalizedCallId (run, turn, d.toolCallId))] := by
  cases c with
  | none => simp [lineageCall, ShapedCall]
  | some d =>
    obtain ⟨id, args, gen, name⟩ := d
    simp only [lineageCall, ShapedCall]
    split
    · next _ _ id' kvs =>
      constructor
      · intro h
        split at h <;> [skip; cases h]
        next hc =>
        obtain ⟨hne, hg, hn⟩ := hc
        cases h
        exact ⟨⟨⟨id', rfl, hne⟩, ⟨kvs, rfl⟩, hg⟩, _, rfl, hn, rfl⟩
      · rintro ⟨⟨⟨id, h1, hne⟩, -, hg⟩, d, hd, hn, rfl⟩
        cases h1
        cases hd
        exact if_pos ⟨hne, hg, hn⟩
    · next hno =>
      simp only [reduceCtorEq, false_iff]
      rintro ⟨⟨⟨id, h1, -⟩, ⟨kvs, h2⟩, -⟩, -⟩
      exact hno id kvs h1 h2

/-- The identities of some calls of a turn. -/
def identitiesOf (run turn : Term) (calls : List (Option ToolCall)) : List Identity :=
  calls.filterMap fun c => c.map fun c => (run, turn, c.toolCallId)

/-- A map entry for an identity. -/
def named (i : Identity) : Identity × Bytes := (i, normalizedCallId i)

theorem lineageCalls_eq_some {run turn : Term} {calls : List (Option ToolCall)} :
    ∀ {ids ids' : List (Identity × Bytes)}, lineageCalls calls run turn ids = some ids' ↔
      (∀ c ∈ calls, ShapedCall c) ∧ (identitiesOf run turn calls).Nodup ∧
      (∀ i ∈ identitiesOf run turn calls, i ∉ ids.map Prod.fst) ∧
      ids' = ids ++ (identitiesOf run turn calls).map named := by
  induction calls with
  | nil => simp [lineageCalls, identitiesOf, eq_comm]
  | cons c calls ih =>
    intro ids ids'
    have hcons : lineageCalls (c :: calls) run turn ids = some ids' ↔
        ∃ ids₁, lineageCall run turn ids c = some ids₁ ∧ lineageCalls calls run turn ids₁ = some ids' := by
      simp only [lineageCalls, List.foldlM_cons, Option.bind_eq_bind, Option.bind_eq_some_iff]
    rw [hcons]
    constructor
    · rintro ⟨ids₁, h1, h2⟩
      obtain ⟨hs, d, rfl, hn, rfl⟩ := lineageCall_eq_some.1 h1
      obtain ⟨hs', hnd, hnot, rfl⟩ := ih.1 h2
      have hids : identitiesOf run turn (some d :: calls) = (run, turn, d.toolCallId) :: identitiesOf run turn calls := rfl
      rw [hids]
      refine ⟨List.forall_mem_cons.2 ⟨hs, hs'⟩, List.nodup_cons.2 ⟨?_, hnd⟩, ?_, by simp [named]⟩
      · intro hm
        exact hnot _ hm (by simp)
      · rintro i hi
        rcases List.mem_cons.1 hi with rfl | hi
        · exact hn
        · intro hm
          exact hnot i hi (by rw [List.map_append]; exact List.mem_append_left _ hm)
    · rintro ⟨hs, hnd, hnot, rfl⟩
      obtain ⟨hs, hs'⟩ := List.forall_mem_cons.1 hs
      rcases c with _ | d
      · exact absurd hs id
      have hids : identitiesOf run turn (some d :: calls) = (run, turn, d.toolCallId) :: identitiesOf run turn calls := rfl
      rw [hids] at hnd hnot ⊢
      obtain ⟨hd, hnd⟩ := List.nodup_cons.1 hnd
      refine ⟨_, lineageCall_eq_some.2 ⟨hs, d, rfl, hnot _ (by simp), rfl⟩, ih.2 ⟨hs', hnd, ?_, by simp [named]⟩⟩
      intro i hi hm
      rw [List.map_append, List.mem_append] at hm
      rcases hm with hm | hm
      · exact hnot i (by simp [hi]) hm
      · simp only [List.map_cons, List.map_nil, List.mem_singleton] at hm
        exact hd (hm ▸ hi)

/-- The state of the fold after some elements. -/
def stateOf (es : List Element) : Fold :=
  ⟨(es.flatMap callsOf).map named, es.filterMap resultOf, es.filterMap turnOf⟩

@[simp] theorem keys_stateOf (es : List Element) : (stateOf es).identities.map Prod.fst = es.flatMap callsOf := by
  rw [stateOf, List.map_map]
  exact List.map_id _

/-- An element that may follow some others. -/
structure Follows (l : List Element) (e : Element) : Prop where
  shaped : Shaped e
  turn : ∀ t, turnOf e = some t → t ∉ l.filterMap turnOf
  calls : (callsOf e).Nodup
  fresh : ∀ i ∈ callsOf e, i ∉ l.flatMap callsOf
  result : ∀ i, resultOf e = some i → i ∈ l.flatMap callsOf ∧ i ∉ l.filterMap resultOf

theorem lineageElement_eq_some {l : List Element} {e : Element} {s : Fold} :
    lineageElement (stateOf l) e = some s ↔ Follows l e ∧ s = stateOf (l ++ [e]) := by
  cases e with
  | userMessage m =>
    have hstate : stateOf (l ++ [.userMessage m]) = stateOf l := by simp [stateOf, callsOf, resultOf, turnOf]
    rw [hstate]
    simp only [lineageElement]
    split
    · next run command content h1 h2 h3 =>
      constructor
      · intro h
        split at h <;> [skip; cases h]
        next hc =>
        refine ⟨⟨⟨⟨run, h1, hc.1⟩, ⟨command, h2, hc.2⟩, content, h3⟩, ?_, .nil, ?_, ?_⟩, (Option.some.inj h).symm⟩
        all_goals simp [turnOf, callsOf, resultOf]
      · rintro ⟨⟨⟨⟨run', h1', hr⟩, ⟨command', h2', hc⟩, -⟩, -⟩, rfl⟩
        rw [h1] at h1'
        rw [h2] at h2'
        cases h1'
        cases h2'
        exact if_pos ⟨hr, hc⟩
    · next hno =>
      simp only [reduceCtorEq, false_iff]
      rintro ⟨⟨⟨⟨run, h1, -⟩, ⟨command, h2, -⟩, content, h3⟩, -⟩, -⟩
      exact hno run command content h1 h2 h3
  | assistantMessage m =>
    simp only [lineageElement]
    split
    · next run turn content calls h1 h2 h3 h4 =>
      have hids : m.identities = identitiesOf m.runId m.turnNumber calls := by
        rw [AssistantMessage.identities, h4]
        rfl
      have hstate : stateOf (l ++ [.assistantMessage m]) =
          ⟨(stateOf l).identities ++ (identitiesOf m.runId m.turnNumber calls).map named, (stateOf l).results,
            (stateOf l).turns ++ [(m.runId, m.turnNumber)]⟩ := by
        simp [stateOf, callsOf, resultOf, turnOf, hids]
      rw [hstate]
      constructor
      · intro h
        split at h <;> [skip; cases h]
        next hc =>
        obtain ⟨hr, ht, hturn⟩ := hc
        obtain ⟨ids, hcalls, rfl⟩ := Option.map_eq_some_iff.1 h
        obtain ⟨hs, hnd, hnot, rfl⟩ := lineageCalls_eq_some.1 hcalls
        rw [keys_stateOf] at hnot
        refine ⟨⟨⟨⟨run, h1, hr⟩, ⟨turn, h2, ht⟩, ⟨content, h3⟩, calls, h4, hs⟩, ?_, ?_, ?_, ?_⟩, rfl⟩
        · rintro t ⟨⟩
          exact hturn
        · rw [callsOf, hids]
          exact hnd
        · rw [callsOf, hids]
          exact hnot
        · simp [resultOf]
      · rintro ⟨⟨⟨⟨run', h1', hr⟩, ⟨turn', h2', ht⟩, -, calls', h4', hs⟩, hturn, hnd, hnot, -⟩, rfl⟩
        rw [h1] at h1'
        rw [h2] at h2'
        rw [h4] at h4'
        cases h1'
        cases h2'
        cases h4'
        rw [callsOf, hids] at hnd hnot
        rw [if_pos ⟨hr, ht, hturn _ rfl⟩, Option.map_eq_some_iff]
        exact ⟨_, lineageCalls_eq_some.2 ⟨hs, hnd, by rwa [keys_stateOf], rfl⟩, rfl⟩
    · next hno =>
      simp only [reduceCtorEq, false_iff]
      rintro ⟨⟨⟨⟨run, h1, -⟩, ⟨turn, h2, -⟩, ⟨content, h3⟩, calls, h4, -⟩, -⟩, -⟩
      exact hno run turn content calls h1 h2 h3 h4
  | toolResult r =>
    have hstate : stateOf (l ++ [.toolResult r]) =
        ⟨(stateOf l).identities, (stateOf l).results ++ [r.identity], (stateOf l).turns⟩ := by
      simp [stateOf, callsOf, resultOf, turnOf]
    rw [hstate]
    simp only [lineageElement]
    split
    · next content h1 =>
      rw [keys_stateOf]
      constructor
      · intro h
        split at h <;> [skip; cases h]
        next hc =>
        obtain ⟨ho, hin, hnot⟩ := hc
        refine ⟨⟨⟨⟨content, h1⟩, ho⟩, ?_, .nil, ?_, ?_⟩, (Option.some.inj h).symm⟩
        · simp [turnOf]
        · simp [callsOf]
        · rintro i ⟨⟩
          exact ⟨hin, hnot⟩
      · rintro ⟨⟨⟨-, ho⟩, -, -, -, hres⟩, rfl⟩
        obtain ⟨hin, hnot⟩ := hres _ rfl
        exact if_pos ⟨ho, hin, hnot⟩
    · next hno =>
      simp only [reduceCtorEq, false_iff]
      rintro ⟨⟨⟨⟨content, h1⟩, -⟩, -⟩, -⟩
      exact hno content h1
  | other =>
    simp only [lineageElement, reduceCtorEq, false_iff]
    rintro ⟨⟨h, -⟩, -⟩
    exact h

theorem scanned_nil : Scanned [] := ⟨by simp, .nil, .nil, .nil, by simp⟩

/-- The last element of a list is the last of its part, or the part ends before it. -/
theorem split_append {α : Type} {l a b : List α} {e x : α} (h : l ++ [e] = a ++ x :: b) :
    (b = [] ∧ a = l ∧ x = e) ∨ ∃ b', b = b' ++ [e] ∧ l = a ++ x :: b' := by
  rcases List.eq_nil_or_concat b with rfl | ⟨b', y, rfl⟩
  · obtain ⟨rfl, hx⟩ := List.append_inj' h rfl
    cases hx
    exact .inl ⟨rfl, rfl, rfl⟩
  · rw [List.concat_eq_append, ← List.cons_append, ← List.append_assoc] at h
    obtain ⟨rfl, hy⟩ := List.append_inj' h rfl
    cases hy
    exact .inr ⟨b', by simp, rfl⟩

theorem nodup_filterMap_append {α β : Type} {f : α → Option β} {l : List α} {e : α} :
    ((l ++ [e]).filterMap f).Nodup ↔ (l.filterMap f).Nodup ∧ ∀ b, f e = some b → b ∉ l.filterMap f := by
  rw [List.filterMap_append]
  cases he : f e with
  | none => simp [he]
  | some b =>
    have : [e].filterMap f = [b] := by simp [he]
    rw [this, List.nodup_append]
    constructor
    · rintro ⟨h1, -, h3⟩
      refine ⟨h1, ?_⟩
      rintro c ⟨⟩ hm
      exact h3 _ hm _ (by simp) rfl
    · rintro ⟨h1, h2⟩
      refine ⟨h1, by simp, fun a ha c hc hac => ?_⟩
      rw [List.mem_singleton.1 hc] at hac
      exact h2 b rfl (hac ▸ ha)

theorem scanned_append {l : List Element} {e : Element} : Scanned (l ++ [e]) ↔ Scanned l ∧ Follows l e := by
  have hcalls : ((l ++ [e]).flatMap callsOf).Nodup ↔
      (l.flatMap callsOf).Nodup ∧ (callsOf e).Nodup ∧ ∀ i ∈ callsOf e, i ∉ l.flatMap callsOf := by
    rw [List.flatMap_append, List.flatMap_singleton, List.nodup_append]
    refine and_congr_right fun _ => and_congr_right fun _ => ?_
    exact ⟨fun h i hi hm => h i hm i hi rfl, fun h a ha b hb hab => h b hb (hab ▸ ha)⟩
  constructor
  · rintro ⟨hs, ht, hc, hr, ha⟩
    obtain ⟨ht1, ht2⟩ := nodup_filterMap_append.1 ht
    obtain ⟨hr1, hr2⟩ := nodup_filterMap_append.1 hr
    obtain ⟨hc1, hc2, hc3⟩ := hcalls.1 hc
    refine ⟨⟨fun x hx => hs x (by simp [hx]), ht1, hc1, hr1, ?_⟩, hs e (by simp), ht2, hc2, hc3, fun i hi => ⟨?_, hr2 i hi⟩⟩
    · rintro a r b rfl
      exact ha a r (b ++ [e]) (by simp)
    · cases e with
      | toolResult r =>
        cases hi
        exact ha l r [] rfl
      | _ => cases hi
  · rintro ⟨⟨hs, ht, hc, hr, ha⟩, hs', ht', hc1, hc2, hr'⟩
    refine ⟨?_, nodup_filterMap_append.2 ⟨ht, ht'⟩, hcalls.2 ⟨hc, hc1, hc2⟩,
      nodup_filterMap_append.2 ⟨hr, fun i hi => (hr' i hi).2⟩, ?_⟩
    · intro x hx
      rcases List.mem_append.1 hx with hx | hx
      · exact hs x hx
      · rw [List.mem_singleton.1 hx]
        exact hs'
    · intro a r b h
      rcases split_append h with ⟨rfl, rfl, rfl⟩ | ⟨b', rfl, rfl⟩
      · exact (hr' _ rfl).1
      · exact ha a r b' rfl

/-- **The fold** computes the calls, the results and the turns of a scanned list, and stops on every other. -/
theorem lineageIdentities_eq_some {es : List Element} {s : Fold} :
    lineageIdentities es = some s ↔ Scanned es ∧ s = stateOf es := by
  induction es using List.reverseRecOn generalizing s with
  | nil => simp [lineageIdentities, scanned_nil, stateOf, eq_comm]
  | append_singleton es e ih =>
    have hsnoc : lineageIdentities (es ++ [e]) = some s ↔
        ∃ s', lineageIdentities es = some s' ∧ lineageElement s' e = some s := by
      simp only [lineageIdentities, List.foldlM_append, List.foldlM_cons, List.foldlM_nil, Option.bind_eq_bind,
        Option.bind_eq_some_iff, Option.pure_def, Option.some.injEq, exists_eq_right]
    rw [hsnoc, scanned_append]
    constructor
    · rintro ⟨s', h1, h2⟩
      obtain ⟨hs, rfl⟩ := ih.1 h1
      obtain ⟨hf, rfl⟩ := lineageElement_eq_some.1 h2
      exact ⟨⟨hs, hf⟩, rfl⟩
    · rintro ⟨⟨hs, hf⟩, rfl⟩
      exact ⟨_, ih.2 ⟨hs, rfl⟩, lineageElement_eq_some.2 ⟨hf, rfl⟩⟩

/-! ## the entries of a valid list -/

/-- The result of a call. -/
def answerOf (es : List Element) (i : Identity) : Option ToolResult :=
  es.findSome? fun
    | .toolResult r => if r.identity = i then some r else none
    | _ => none

/-- What a call is resolved to. -/
def ToolCall.resolved (c : ToolCall) : Resolved :=
  match c.generation with
  | .tuple [toolId, toolVersion, definitionDigest] => .tool toolId toolVersion definitionDigest
  | _ => .name (c.name.getD nil)

def outcomeName : Term → Bytes
  | .atom a => a
  | _ => []

/-- The calls of an assistant message with their identities replaced. -/
def AssistantMessage.callMessages (m : AssistantMessage) (id : Identity → Term) : List CallMessage :=
  (m.toolCalls.getD []).filterMap fun c => c.map fun c =>
    ⟨id (m.runId, m.turnNumber, c.toolCallId), c.resolved, c.arguments⟩

/-- The entries an element stands for, with the results of its calls behind it and the identities replaced. -/
def block (es : List Element) (id : Identity → Term) : Element → List Entry
  | .userMessage m => [(.sessionCommand m.runId m.commandId, .user m.content)]
  | .assistantMessage m =>
    (.sessionAssistant m.runId m.turnNumber, .assistant m.content (m.callMessages id)) ::
      m.identities.filterMap fun i => (answerOf es i).map fun r =>
        (.sessionToolResult r.runId r.turnNumber r.toolCallId, .tool (id i) (outcomeName r.outcome) r.content)
  | _ => []

/-- The identity a call was made with. -/
def rawId (i : Identity) : Term := i.2.2

/-- The identity a model is shown. -/
def normalId (i : Identity) : Term := .binary (normalizedCallId i)

theorem eq_of_filterMap_nodup {α β : Type} {f : α → Option β} {l : List α} (h : (l.filterMap f).Nodup) {a b : α}
    {x : β} (ha : a ∈ l) (hb : b ∈ l) (hfa : f a = some x) (hfb : f b = some x) : a = b := by
  induction l with
  | nil => simp at ha
  | cons c l ih =>
    have hmem : ∀ {d}, d ∈ l → f d = some x → x ∈ l.filterMap f := fun hd hfd => List.mem_filterMap.2 ⟨_, hd, hfd⟩
    rw [List.filterMap_cons] at h
    rcases List.mem_cons.1 ha with hac | ha <;> rcases List.mem_cons.1 hb with hbc | hb
    · rw [hac, hbc]
    · rw [← hac, hfa] at h
      exact absurd (hmem hb hfb) (List.nodup_cons.1 h).1
    · rw [← hbc, hfb] at h
      exact absurd (hmem ha hfa) (List.nodup_cons.1 h).1
    · refine ih ?_ ha hb
      split at h
      · exact h
      · exact (List.nodup_cons.1 h).2

/-- A result is the only one of its identity. -/
theorem Scanned.result_unique {es : List Element} (h : Scanned es) {r r' : ToolResult} (hr : .toolResult r ∈ es)
    (hr' : .toolResult r' ∈ es) (hi : r.identity = r'.identity) : r = r' := by
  have := eq_of_filterMap_nodup h.results hr hr' (x := r.identity) rfl (by rw [resultOf, hi])
  cases this
  rfl

theorem Scanned.answerOf_eq_some {es : List Element} (h : Scanned es) {i : Identity} {r : ToolResult} :
    answerOf es i = some r ↔ .toolResult r ∈ es ∧ r.identity = i := by
  constructor
  · intro ha
    obtain ⟨e, he, hf⟩ := List.exists_of_findSome?_eq_some ha
    split at hf <;> [skip; cases hf]
    split at hf <;> [skip; cases hf]
    next hi =>
    cases hf
    exact ⟨he, hi⟩
  · rintro ⟨hr, rfl⟩
    cases ha : answerOf es r.identity with
    | none =>
      have := List.findSome?_eq_none_iff.1 ha _ hr
      simp at this
    | some r' =>
      obtain ⟨e, he, hf⟩ := List.exists_of_findSome?_eq_some ha
      split at hf <;> [skip; cases hf]
      split at hf <;> [skip; cases hf]
      next hi =>
      cases hf
      rw [h.result_unique he hr hi]

/-- A result answers a call of its list. -/
theorem Scanned.answers_call {es : List Element} (h : Scanned es) {r : ToolResult} (hr : .toolResult r ∈ es) :
    r.identity ∈ es.flatMap callsOf := by
  obtain ⟨l, l', rfl⟩ := List.append_of_mem hr
  have := h.answers l r l' rfl
  rw [List.flatMap_append]
  exact List.mem_append_left _ this

/-- The run and the turn of a call. -/
theorem Scanned.call_turn {es : List Element} (h : Scanned es) {i : Identity} (hi : i ∈ es.flatMap callsOf) :
    (∃ run, i.1 = .binary run) ∧ (∃ turn, i.2.1 = .int turn) ∧ ∃ id, i.2.2 = .binary id := by
  obtain ⟨e, he, hi⟩ := List.mem_flatMap.1 hi
  have hs := h.shaped e he
  cases e with
  | assistantMessage m =>
    obtain ⟨⟨run, h1, -⟩, ⟨turn, h2, -⟩, -, calls, h3, h4⟩ := hs
    simp only [callsOf, AssistantMessage.identities, h3, Option.getD_some, List.mem_filterMap] at hi
    obtain ⟨c, hc, hi⟩ := hi
    rcases c with _ | c
    · cases hi
    cases hi
    obtain ⟨⟨id, hid, -⟩, -⟩ := h4 _ hc
    exact ⟨⟨run, h1⟩, ⟨turn, h2⟩, id, hid⟩
  | _ => simp [callsOf] at hi

/-- The results of a turn by call are its answers. -/
theorem Scanned.resultFor_eq {es : List Element} (h : Scanned es) {i : Identity} (hi : i ∈ es.flatMap callsOf) :
    resultFor (turnResults es i.1 i.2.1) i.2.2 = answerOf es i := by
  obtain ⟨⟨run, hrun⟩, ⟨turn, hturn⟩, -⟩ := h.call_turn hi
  have hmem : ∀ r, r ∈ (turnResults es i.1 i.2.1).filter (fun r => r.toolCallId = i.2.2) ↔
      .toolResult r ∈ es ∧ r.identity = i := by
    intro r
    simp only [List.mem_filter, turnResults, List.mem_filterMap, decide_eq_true_eq]
    constructor
    · rintro ⟨⟨e, he, hf⟩, hid⟩
      split at hf <;> [skip; cases hf]
      split at hf <;> [skip; cases hf]
      next hloose =>
      cases hf
      -- the turn of a result is an integer, so that `==` tells it from no other
      obtain ⟨⟨run', hrun'⟩, ⟨turn', hturn'⟩, -⟩ := h.call_turn (h.answers_call he)
      simp only [ToolResult.identity] at hrun' hturn'
      rw [hrun, hturn, hrun', hturn', Bool.and_eq_true, looseEq_iff, looseEq_iff, loosen_binary, loosen_binary,
        loosen_int, loosen_int] at hloose
      exact ⟨he, Prod.ext (hrun'.trans (hloose.1.trans hrun.symm))
        (Prod.ext (hturn'.trans (hloose.2.trans hturn.symm)) hid)⟩
    · rintro ⟨he, rfl⟩
      exact ⟨⟨_, he, by simp [ToolResult.identity]⟩, rfl⟩
  unfold resultFor
  cases ha : answerOf es i with
  | some r =>
    obtain ⟨hr, hid⟩ := h.answerOf_eq_some.1 ha
    cases hg : ((turnResults es i.1 i.2.1).filter fun r => r.toolCallId = i.2.2).getLast? with
    | none =>
      have := (hmem r).2 ⟨hr, hid⟩
      rw [List.getLast?_eq_none_iff.1 hg] at this
      simp at this
    | some r' =>
      obtain ⟨hr', hid'⟩ := (hmem r').1 (List.mem_of_getLast? hg)
      rw [h.result_unique hr' hr (hid'.trans hid.symm)]
  | none =>
    rw [List.getLast?_eq_none_iff, List.eq_nil_iff_forall_not_mem]
    intro r hr
    have := h.answerOf_eq_some.2 ((hmem r).1 hr)
    rw [ha] at this
    cases this

/-! ## emission -/

theorem callMessage_eq {c : ToolCall} (h : validGeneration c = true) :
    callMessage (some c) = .ok ⟨c.toolCallId, c.resolved, c.arguments⟩ := by
  unfold validGeneration at h
  unfold callMessage ToolCall.resolved
  split at h
  · next h1 => simp [h1]
  · next hno =>
    simp only [Bool.and_eq_true, decide_eq_true_eq] at h
    obtain ⟨hg, hn⟩ := h
    split at hn <;> [skip; cases hn]
    next name hname =>
    simp [hg, hname, nil, sym]

theorem callMessages_ok {m : AssistantMessage} {calls : List (Option ToolCall)} (hm : m.toolCalls = some calls)
    (h : ∀ c ∈ calls, ShapedCall c) : calls.mapM callMessage = .ok (m.callMessages rawId) := by
  have hcall : m.callMessages rawId = calls.filterMap fun c => c.map fun c => ⟨c.toolCallId, c.resolved, c.arguments⟩ := by
    rw [AssistantMessage.callMessages, hm]
    rfl
  rw [hcall]
  clear hm hcall
  induction calls with
  | nil => rfl
  | cons c calls ih =>
    obtain ⟨hc, hcs⟩ := List.forall_mem_cons.1 h
    rcases c with _ | c
    · exact absurd hc id
    rw [List.mapM_cons, callMessage_eq hc.2.2, ih hcs]
    rfl

/-- The calls of a message by their identities. -/
theorem callMessages_ids (m : AssistantMessage) :
    (m.callMessages rawId).map (fun c => (m.runId, m.turnNumber, c.toolCallId)) = m.identities := by
  simp only [AssistantMessage.callMessages, AssistantMessage.identities, List.map_filterMap]
  congr 1
  funext c
  cases c <;> rfl

theorem turnResultEntries_eq {es : List Element} (h : Scanned es) {m : AssistantMessage}
    (hm : .assistantMessage m ∈ es) :
    turnResultEntries es m (m.callMessages rawId) = .ok (m.identities.filterMap fun i => (answerOf es i).map fun r =>
      (.sessionToolResult r.runId r.turnNumber r.toolCallId, .tool (rawId i) (outcomeName r.outcome) r.content)) := by
  have hcalls : ∀ i ∈ m.identities, i ∈ es.flatMap callsOf := fun i hi => List.mem_flatMap.2 ⟨_, hm, hi⟩
  have hpick : ((m.callMessages rawId).filterMap fun c =>
        (resultFor (turnResults es m.runId m.turnNumber) c.toolCallId).map fun r => (c.toolCallId, r)) =
      m.identities.filterMap fun i => (answerOf es i).map fun r => (rawId i, r) := by
    rw [← callMessages_ids m, List.filterMap_map]
    refine List.filterMap_congr fun c hc => ?_
    have hi : (m.runId, m.turnNumber, c.toolCallId) ∈ es.flatMap callsOf := by
      apply hcalls
      rw [← callMessages_ids m]
      exact List.mem_map_of_mem hc
    have := h.resultFor_eq hi
    simp only at this
    simp only [Function.comp, this, rawId]
  have hentry : ∀ p ∈ m.identities.filterMap (fun i => (answerOf es i).map fun r => (rawId i, r)),
      resultEntry p.1 p.2 = .ok (.sessionToolResult p.2.runId p.2.turnNumber p.2.toolCallId,
        .tool p.1 (outcomeName p.2.outcome) p.2.content) := by
    rintro ⟨callId, r⟩ hp
    obtain ⟨i, -, hi⟩ := List.mem_filterMap.1 hp
    obtain ⟨r', hr', hpair⟩ := Option.map_eq_some_iff.1 hi
    cases hpair
    have ho := (h.shaped _ (h.answerOf_eq_some.1 hr').1).2
    simp only [outcomes, List.mem_cons, List.not_mem_nil, or_false] at ho
    unfold resultEntry
    rcases ho with ho | ho | ho | ho | ho <;> rw [ho] <;> rfl
  rw [turnResultEntries, hpick, Check.mapM_ok hentry, List.map_filterMap]
  congr 2
  funext i
  cases answerOf es i <;> rfl

theorem projectElement_eq {es : List Element} (h : Scanned es) {e : Element} (he : e ∈ es) :
    projectElement es e = .ok (block es rawId e) := by
  have hs := h.shaped e he
  cases e with
  | userMessage m => rfl
  | assistantMessage m =>
    obtain ⟨-, -, -, calls, hcalls, hshaped⟩ := hs
    simp only [projectElement, hcalls, callMessages_ok hcalls hshaped, Check.ok_bind, turnResultEntries_eq h he]
    rfl
  | toolResult r => rfl
  | other => exact absurd hs id

theorem fetchNormalized_eq {ids : List Identity} {i : Identity} (h : i ∈ ids) :
    fetchNormalized (ids.map named) i = .ok (normalId i) := by
  unfold fetchNormalized
  cases hf : (ids.map named).find? fun e => e.1 = i with
  | none =>
    have := List.find?_eq_none.1 hf _ (List.mem_map_of_mem h)
    simp [named] at this
  | some e =>
    obtain ⟨j, -, rfl⟩ := List.mem_map.1 (List.mem_of_find?_eq_some hf)
    have hdec := List.find?_some hf
    have hj : j = i := of_decide_eq_true hdec
    rw [hj]
    rfl

/-- The identities of an element's entries are replaced. -/
theorem normalize_block {es : List Element} (h : Scanned es) {e : Element} (he : e ∈ es) :
    (block es rawId e).mapM (normalizeCallIds (stateOf es).identities) = .ok (block es normalId e) := by
  cases e with
  | userMessage m => rfl
  | assistantMessage m =>
    have hcalls : ∀ i ∈ m.identities, i ∈ es.flatMap callsOf := fun i hi => List.mem_flatMap.2 ⟨_, he, hi⟩
    have hmessages : (m.callMessages rawId).mapM (fun c => do
        let id ← fetchNormalized (stateOf es).identities (m.runId, m.turnNumber, c.toolCallId)
        .ok { c with toolCallId := id }) = .ok (m.callMessages normalId) := by
      have hmap : (m.callMessages rawId).map (fun c =>
          { c with toolCallId := normalId (m.runId, m.turnNumber, c.toolCallId) }) = m.callMessages normalId := by
        simp only [AssistantMessage.callMessages, List.map_filterMap]
        congr 1
        funext c
        cases c <;> rfl
      rw [← hmap]
      refine Check.mapM_ok fun c hc => ?_
      have hi : (m.runId, m.turnNumber, c.toolCallId) ∈ es.flatMap callsOf := by
        apply hcalls
        rw [← callMessages_ids m]
        exact List.mem_map_of_mem hc
      rw [stateOf, fetchNormalized_eq hi]
      rfl
    have hresults : (m.identities.filterMap fun i => (answerOf es i).map fun r =>
          (Source.sessionToolResult r.runId r.turnNumber r.toolCallId,
            Message.tool (rawId i) (outcomeName r.outcome) r.content)).mapM
          (normalizeCallIds (stateOf es).identities) =
        .ok (m.identities.filterMap fun i => (answerOf es i).map fun r =>
          (.sessionToolResult r.runId r.turnNumber r.toolCallId,
            .tool (normalId i) (outcomeName r.outcome) r.content)) := by
      have hpairs : ∀ id : Identity → Term, (m.identities.filterMap fun i => (answerOf es i).map fun r =>
            (Source.sessionToolResult r.runId r.turnNumber r.toolCallId,
              Message.tool (id i) (outcomeName r.outcome) r.content)) =
          (m.identities.filterMap fun i => (answerOf es i).map fun r => (i, r)).map fun p =>
            (.sessionToolResult p.2.runId p.2.turnNumber p.2.toolCallId,
              .tool (id p.1) (outcomeName p.2.outcome) p.2.content) := by
        intro id
        rw [List.map_filterMap]
        congr 1
        funext i
        cases answerOf es i <;> rfl
      rw [hpairs rawId, hpairs normalId, List.mapM_map]
      refine Check.mapM_ok ?_
      rintro ⟨i, r⟩ hp
      obtain ⟨j, hj, hij⟩ := List.mem_filterMap.1 hp
      obtain ⟨r', hr', hpair⟩ := Option.map_eq_some_iff.1 hij
      cases hpair
      obtain ⟨-, rfl⟩ := h.answerOf_eq_some.1 hr'
      have hf := fetchNormalized_eq (hcalls _ hj)
      simp only [ToolResult.identity] at hf
      simp only [Function.comp, normalizeCallIds, stateOf, hf, Check.ok_bind, ToolResult.identity]
    rw [block, List.mapM_cons, normalizeCallIds, hmessages, Check.ok_bind, hresults]
    rfl
  | toolResult r => rfl
  | other => rfl

theorem projectEntries_of_scanned {es : List Element} (h : Scanned es) :
    projectEntries es = .ok (es.flatMap (block es rawId)) := by
  rw [projectEntries, Check.mapM_ok fun e he => projectElement_eq h he]
  rfl

/-- **The entries of a valid list.** -/
theorem lineageEntries_of_valid {es : List Element} (h : Valid es) :
    lineageEntries es = .ok (es.flatMap (block es normalId)) := by
  have hscan : lineageIdentities es = some (stateOf es) := lineageIdentities_eq_some.2 ⟨h.toScanned, rfl⟩
  have hproject := projectEntries_of_scanned h.toScanned
  have hguard : (∀ k ∈ (stateOf es).identities.map Prod.fst, k ∈ (stateOf es).results) ∧
      (∀ r ∈ (stateOf es).results, r ∈ (stateOf es).identities.map Prod.fst) ∧
      ((stateOf es).identities.map Prod.snd).dedup.length = (stateOf es).identities.length := by
    rw [keys_stateOf]
    refine ⟨h.complete, ?_, ?_⟩
    · intro i hi
      obtain ⟨e, he, hr⟩ := List.mem_filterMap.1 hi
      cases e with
      | toolResult r =>
        cases hr
        exact h.answers_call he
      | _ => cases hr
    · have hvalues : (stateOf es).identities.map Prod.snd = (es.flatMap callsOf).map normalizedCallId := by
        rw [stateOf, List.map_map]
        rfl
      rw [hvalues, List.dedup_eq_self.2 h.distinct]
      simp [stateOf]
  simp only [lineageEntries, hscan, if_pos hguard, hproject, Check.ok_bind]
  exact Check.mapM_flatMap fun e he => normalize_block h.toScanned he

/-- **Every other list is refused.** -/
theorem lineageEntries_of_not_valid {es : List Element} (h : ¬ Valid es) :
    lineageEntries es = .error .contextProjectionInvalid := by
  unfold lineageEntries
  split
  · next s hs =>
    obtain ⟨hscan, rfl⟩ := lineageIdentities_eq_some.1 hs
    refine if_neg ?_
    rintro ⟨h1, -, h3⟩
    rw [keys_stateOf] at h1
    refine h ⟨hscan, h1, ?_⟩
    have hvalues : (stateOf es).identities.map Prod.snd = (es.flatMap callsOf).map normalizedCallId := by
      rw [stateOf, List.map_map]
      rfl
    have hlen : ((es.flatMap callsOf).map normalizedCallId).dedup.length =
        ((es.flatMap callsOf).map normalizedCallId).length := by
      rw [hvalues] at h3
      simpa [stateOf] using h3
    rw [← (List.dedup_sublist _).eq_of_length hlen]
    exact List.nodup_dedup _
  · rfl

/-! ## the order of the results -/

/-- The messages of a list. -/
def messages (es : List Element) : List Element := es.filter fun e => (resultOf e).isNone

/-- The results of a list. -/
def answers (es : List Element) : List Element := es.filter fun e => (resultOf e).isSome

theorem flatMap_messages {β : Type} {f : Element → List β} (h : ∀ r, f (.toolResult r) = []) (es : List Element) :
    es.flatMap f = (messages es).flatMap f := by
  induction es with
  | nil => rfl
  | cons e es ih =>
    rw [List.flatMap_cons, ih]
    cases e with
    | toolResult r =>
      rw [h]
      rfl
    | _ => rfl

theorem filterMap_messages (es : List Element) : es.filterMap turnOf = (messages es).filterMap turnOf := by
  induction es with
  | nil => rfl
  | cons e es ih =>
    rw [List.filterMap_cons, ih]
    cases e <;> rfl

theorem filterMap_results (es : List Element) : es.filterMap resultOf = (answers es).filterMap resultOf := by
  induction es with
  | nil => rfl
  | cons e es ih =>
    rw [List.filterMap_cons, ih]
    cases e <;> rfl

/-- The same messages in the same order, and the same results, each behind the assistant message of its turn. -/
structure Reordered (es es' : List Element) : Prop where
  messages : messages es' = messages es
  results : (answers es').Perm (answers es)
  behind : ∀ l r l', es' = l ++ .toolResult r :: l' → (r.runId, r.turnNumber) ∈ l.filterMap turnOf

namespace Reordered

variable {es es' : List Element}

theorem calls (h : Reordered es es') : es'.flatMap callsOf = es.flatMap callsOf := by
  rw [flatMap_messages (fun _ => rfl) es', flatMap_messages (fun _ => rfl) es, h.messages]

theorem turns (h : Reordered es es') : es'.filterMap turnOf = es.filterMap turnOf := by
  rw [filterMap_messages es', filterMap_messages es, h.messages]

theorem answered (h : Reordered es es') : (es'.filterMap resultOf).Perm (es.filterMap resultOf) := by
  rw [filterMap_results es', filterMap_results es]
  exact h.results.filterMap _

theorem mem (h : Reordered es es') (e : Element) : e ∈ es' ↔ e ∈ es := by
  have hm : e ∈ Conversation.messages es' ↔ e ∈ Conversation.messages es := by rw [h.messages]
  have hr := h.results.mem_iff (a := e)
  simp only [Conversation.messages, Conversation.answers, List.mem_filter] at hm hr
  cases hres : (resultOf e).isSome with
  | true => simpa [hres] using hr
  | false =>
    have hnone : (resultOf e).isNone = true := by
      rw [Option.isNone_iff_eq_none]
      simpa using hres
    simpa [hnone] using hm

end Reordered

/-- The turn of a call is that of its message. -/
theorem turn_of_mem_identities {m : AssistantMessage} {i : Identity} (h : i ∈ m.identities) :
    i.1 = m.runId ∧ i.2.1 = m.turnNumber := by
  obtain ⟨c, -, hc⟩ := List.mem_filterMap.1 h
  obtain ⟨c, rfl, rfl⟩ := Option.map_eq_some_iff.1 hc
  exact ⟨rfl, rfl⟩

/-- Reordered results are as good. -/
theorem Valid.reordered {es es' : List Element} (h : Valid es) (hr : Reordered es es') : Valid es' := by
  have hturns : (es'.filterMap turnOf).Nodup := hr.turns ▸ h.turns
  refine ⟨⟨fun e he => h.shaped e ((hr.mem e).1 he), hturns, hr.calls ▸ h.calls,
    hr.answered.nodup_iff.2 h.results, ?_⟩, ?_, hr.calls ▸ h.distinct⟩
  · rintro l r l' rfl
    obtain ⟨e, he, ht⟩ := List.mem_filterMap.1 (hr.behind l r l' rfl)
    obtain ⟨f, hf, hi⟩ := List.mem_flatMap.1 (h.answers_call ((hr.mem _).1 (List.mem_append_right l List.mem_cons_self)))
    cases f with
    | assistantMessage m =>
      have htf : turnOf (.assistantMessage m) = some (r.runId, r.turnNumber) := by
        obtain ⟨h1, h2⟩ := turn_of_mem_identities hi
        simp only [ToolResult.identity] at h1 h2
        rw [turnOf, h1, h2]
      have hef := eq_of_filterMap_nodup hturns (List.mem_append_left _ he) ((hr.mem _).2 hf) ht htf
      exact List.mem_flatMap.2 ⟨e, he, hef ▸ hi⟩
    | _ => simp [callsOf] at hi
  · intro i hi
    rw [hr.calls] at hi
    exact hr.answered.mem_iff.2 (h.complete i hi)

theorem block_reordered {es es' : List Element} (h : Valid es) (hr : Reordered es es') :
    block es' normalId = block es normalId := by
  have hanswer : answerOf es' = answerOf es := by
    funext i
    apply Option.ext
    intro r
    rw [(h.reordered hr).answerOf_eq_some, h.answerOf_eq_some, hr.mem]
  funext e
  cases e with
  | assistantMessage m => rw [block, block, hanswer]
  | _ => rfl

/-! ## the projection -/

/-- The source of an entry that is a message of a user or an assistant. -/
def entryMessage : Entry → Option Source
  | (.sessionToolResult _ _ _, _) => none
  | (source, _) => some source

/-- The identity of an entry that is a result. -/
def entryResult : Entry → Option Identity
  | (.sessionToolResult run turn call, _) => some (run, turn, call)
  | _ => none

/-- The source of a user message or an assistant message. -/
def messageOf : Element → Option Source
  | .userMessage m => some (.sessionCommand m.runId m.commandId)
  | .assistantMessage m => some (.sessionAssistant m.runId m.turnNumber)
  | _ => none

/-- An orphan, a repeated result, a call without a result, a result before its call, a turn with two assistant
messages, or a message with two calls of one identity. -/
def Defective (es : List Element) : Prop :=
  (∃ r, .toolResult r ∈ es ∧ r.identity ∉ es.flatMap callsOf) ∨
  ¬ (es.filterMap resultOf).Nodup ∨
  (∃ i ∈ es.flatMap callsOf, i ∉ es.filterMap resultOf) ∨
  (∃ l r l', es = l ++ .toolResult r :: l' ∧ r.identity ∉ l.flatMap callsOf) ∨
  ¬ (es.filterMap turnOf).Nodup ∨
  ∃ m, .assistantMessage m ∈ es ∧ ¬ m.identities.Nodup

theorem not_valid_of_defective {es : List Element} (h : Defective es) : ¬ Valid es := by
  intro hv
  rcases h with ⟨r, hr, hn⟩ | hn | ⟨i, hi, hn⟩ | ⟨l, r, l', he, hn⟩ | hn | ⟨m, hm, hn⟩
  · exact hn (hv.answers_call hr)
  · exact hn hv.results
  · exact hn (hv.complete i hi)
  · exact hn (hv.answers l r l' he)
  · exact hn hv.turns
  · exact hn ((List.nodup_flatMap.1 hv.calls).1 _ hm)

theorem answers_messages (is : List Identity) (es : List Element) (id : Identity → Term) :
    (is.filterMap fun i => (answerOf es i).map fun r => ((Source.sessionToolResult r.runId r.turnNumber r.toolCallId,
      Message.tool (id i) (outcomeName r.outcome) r.content) : Entry)).filterMap entryMessage = [] := by
  rw [List.filterMap_filterMap, List.filterMap_eq_nil_iff]
  intro i _
  cases answerOf es i <;> rfl

/-- The messages stand in their order. -/
theorem entries_messages (es : List Element) (id : Identity → Term) (l : List Element) :
    (l.flatMap (block es id)).filterMap entryMessage = l.filterMap messageOf := by
  induction l with
  | nil => rfl
  | cons e l ih =>
    rw [List.flatMap_cons, List.filterMap_append, ih]
    cases e with
    | userMessage m => rfl
    | assistantMessage m =>
      rw [block, List.filterMap_cons, answers_messages]
      rfl
    | toolResult r => rfl
    | other => rfl

/-- The results stand in the order of their calls. -/
theorem entries_results {es : List Element} (h : Valid es) (id : Identity → Term) {l : List Element}
    (hl : ∀ e ∈ l, e ∈ es) : (l.flatMap (block es id)).filterMap entryResult = l.flatMap callsOf := by
  induction l with
  | nil => rfl
  | cons e l ih =>
    obtain ⟨he, hl⟩ := List.forall_mem_cons.1 hl
    rw [List.flatMap_cons, List.filterMap_append, ih hl, List.flatMap_cons]
    congr 1
    cases e with
    | assistantMessage m =>
      rw [block, List.filterMap_cons, callsOf, List.filterMap_filterMap]
      refine (List.filterMap_congr fun i hi => ?_).trans List.filterMap_some
      have hcall : i ∈ es.flatMap callsOf := List.mem_flatMap.2 ⟨_, he, hi⟩
      obtain ⟨e, he, hr⟩ := List.mem_filterMap.1 (h.complete i hcall)
      cases e with
      | toolResult r =>
        cases hr
        rw [h.answerOf_eq_some.2 ⟨he, rfl⟩]
        rfl
      | _ => cases hr
    | _ => rfl

/-- A result has the identity of its call. -/
theorem entry_result_id {es : List Element} (h : Valid es) {run turn call id content : Term} {outcome : Bytes}
    (he : (Source.sessionToolResult run turn call, Message.tool id outcome content) ∈ es.flatMap (block es normalId)) :
    id = normalId (run, turn, call) := by
  obtain ⟨e, -, he⟩ := List.mem_flatMap.1 he
  cases e with
  | assistantMessage m =>
    rcases List.mem_cons.1 he with he | he
    · cases he
    · obtain ⟨i, -, hi⟩ := List.mem_filterMap.1 he
      obtain ⟨r, hr, hpair⟩ := Option.map_eq_some_iff.1 hi
      obtain ⟨-, rfl⟩ := h.answerOf_eq_some.1 hr
      cases hpair
      rfl
  | _ => simp [block] at he

/-- The calls of a message have the identities they were made with, normalized. -/
theorem entry_call_ids {es : List Element} {run turn content : Term} {calls : List CallMessage}
    (he : (Source.sessionAssistant run turn, Message.assistant content calls) ∈ es.flatMap (block es normalId)) :
    ∃ m, .assistantMessage m ∈ es ∧ m.runId = run ∧ m.turnNumber = turn ∧
      calls.map CallMessage.toolCallId = m.identities.map normalId := by
  obtain ⟨e, hmem, he⟩ := List.mem_flatMap.1 he
  cases e with
  | assistantMessage m =>
    rcases List.mem_cons.1 he with he | he
    · cases he
      refine ⟨m, hmem, rfl, rfl, ?_⟩
      rw [AssistantMessage.callMessages, AssistantMessage.identities, List.map_filterMap, List.map_filterMap]
      congr 1
      funext c
      cases c <;> rfl
    · obtain ⟨i, -, hi⟩ := List.mem_filterMap.1 he
      obtain ⟨r, -, hpair⟩ := Option.map_eq_some_iff.1 hi
      cases hpair
  | _ => simp [block] at he

/-- The results are those of the calls. -/
theorem Valid.results_perm {es : List Element} (h : Valid es) :
    (es.filterMap resultOf).Perm (es.flatMap callsOf) := by
  rw [List.perm_ext_iff_of_nodup h.results h.calls]
  refine fun i => ⟨fun hi => ?_, h.complete i⟩
  obtain ⟨e, he, hr⟩ := List.mem_filterMap.1 hi
  cases e with
  | toolResult r =>
    cases hr
    exact h.answers_call he
  | _ => cases hr

/-- **The lineage projection.** Of an accepted list every message is emitted once and in order, and every result
once, behind its assistant message and in the order of its calls; the order in which the results were committed
does not matter; the normalized identities are those of the calls and pairwise distinct. A defective list is
refused. -/
theorem lineage_faithful (es : List Element) :
    (∀ entries, lineageEntries es = .ok entries →
      entries = es.flatMap (block es normalId) ∧
      entries.filterMap entryMessage = es.filterMap messageOf ∧
      entries.filterMap entryResult = es.flatMap callsOf ∧
      (es.filterMap resultOf).Perm (es.flatMap callsOf) ∧
      (∀ es', Reordered es es' → lineageEntries es' = .ok entries) ∧
      (es.flatMap callsOf).Nodup ∧ ((es.flatMap callsOf).map normalizedCallId).Nodup ∧
      (∀ run turn call id outcome content,
        (.sessionToolResult run turn call, .tool id outcome content) ∈ entries → id = normalId (run, turn, call)) ∧
      ∀ run turn content calls, (.sessionAssistant run turn, .assistant content calls) ∈ entries →
        ∃ m, .assistantMessage m ∈ es ∧ m.runId = run ∧ m.turnNumber = turn ∧
          calls.map CallMessage.toolCallId = m.identities.map normalId) ∧
    (Defective es → lineageEntries es = .error .contextProjectionInvalid) := by
  refine ⟨fun entries he => ?_, fun hd => lineageEntries_of_not_valid (not_valid_of_defective hd)⟩
  have hv : Valid es := by
    by_contra hn
    rw [lineageEntries_of_not_valid hn] at he
    cases he
  rw [lineageEntries_of_valid hv] at he
  cases he
  refine ⟨rfl, entries_messages es normalId es, entries_results hv normalId fun _ h => h, hv.results_perm, ?_,
    hv.calls, hv.distinct, fun _ _ _ _ _ _ h => entry_result_id hv h, fun _ _ _ _ h => entry_call_ids h⟩
  intro es' hr
  rw [lineageEntries_of_valid (hv.reordered hr), block_reordered hv hr,
    flatMap_messages (fun _ => rfl) es', hr.messages, ← flatMap_messages (fun _ => rfl) es]

/-- A question, a call and its answer. -/
example : Valid [
    .userMessage ⟨.binary [1], .binary [2], .binary []⟩,
    .assistantMessage ⟨.binary [1], .int 1, .binary [],
      some [some ⟨.binary [3], .map [], .tuple [.binary [], .binary [], .binary []], none⟩]⟩,
    .toolResult ⟨.binary [1], .int 1, .binary [3], sym "completed", .binary []⟩] := by
  have hs : lineageIdentities [
      .userMessage ⟨.binary [1], .binary [2], .binary []⟩,
      .assistantMessage ⟨.binary [1], .int 1, .binary [],
        some [some ⟨.binary [3], .map [], .tuple [.binary [], .binary [], .binary []], none⟩]⟩,
      .toolResult ⟨.binary [1], .int 1, .binary [3], sym "completed", .binary []⟩] = some _ := rfl
  exact ⟨(lineageIdentities_eq_some.1 hs).1, by simp [callsOf, resultOf, AssistantMessage.identities,
    ToolResult.identity], List.nodup_singleton _⟩

end Loopex.Runtime.Conversation
