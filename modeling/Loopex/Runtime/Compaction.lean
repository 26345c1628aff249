import Loopex.Runtime.Lineage
import Loopex.Runtime.ToolDefinition
import Mathlib.Data.List.SplitBy
import Mathlib.Data.List.Perm.Basic

/-!
# The units of compaction

`compaction_units` divides the elements of a conversation into the units a selection may cover: an assistant
message with the inputs pending before it and the results of its calls, or the inputs a run ends with.

* `runUnits`, `compactionUnits` — the functions of the source
* `unitsFrom` — the units of a scanned list, without the failures that cannot occur there
* `compaction_units_partition` — the units are a partition that no cut tears, projected as the whole is
-/

namespace Loopex.Runtime.Conversation

open Loopex.Erlang Loopex.Erlang.Term

/-! ## the units -/

inductive UnitKind where
  | assistantGroup
  | inputs
  deriving DecidableEq

/-- A unit before its protection is known. -/
structure RunUnit where
  kind : UnitKind
  runId : Term
  elements : List Element
  complete : Bool

structure CompactionUnit extends RunUnit where
  isProtected : Bool

/-- `run_id`, which every element of a scanned list has. -/
def Element.runId : Element → Term
  | .userMessage m => m.runId
  | .assistantMessage m => m.runId
  | .toolResult r => r.runId
  | .other => nil

/-- The identities of the calls, in their order. -/
def callIds (m : AssistantMessage) : Check Refusal (List Term) :=
  match m.toolCalls with
  | some calls => calls.mapM fun
    | some c => .ok c.toolCallId
    | none => .raise .badKey
  | none => .raise .badArgument

/-- `Map.fetch` in the results by turn and call; the last one of a key was put last. -/
def resultAt (elements : List Element) (turn callId : Term) : Option ToolResult :=
  (elements.filterMap fun
    | .toolResult r => if r.turnNumber = turn ∧ r.toolCallId = callId then some r else none
    | _ => none).getLast?

/-- The trailing inputs. -/
def inputsUnit (pending : List Element) : List RunUnit :=
  match pending.getLast? with
  | none => []
  | some input => [⟨.inputs, input.runId, pending, true⟩]

/-- The fold of `run_units`, whose accumulator is what it returns. -/
def runUnitsFrom (elements : List Element) : List Element → List Element → Check Refusal (List RunUnit)
  | pending, [] => .ok (inputsUnit pending)
  | pending, .userMessage m :: rest => runUnitsFrom elements (pending ++ [.userMessage m]) rest
  | pending, .assistantMessage m :: rest => do
    let calls ← callIds m
    let results := calls.filterMap fun call => (resultAt elements m.turnNumber call).map Element.toolResult
    let units ← runUnitsFrom elements [] rest
    .ok (⟨.assistantGroup, m.runId, pending ++ .assistantMessage m :: results,
      results.length = calls.length⟩ :: units)
  | pending, .toolResult _ :: rest => runUnitsFrom elements pending rest
  | _, .other :: _ => .raise .functionClause

/-- `run_units`. -/
def runUnits (elements : List Element) : Check Refusal (List RunUnit) := runUnitsFrom elements [] elements

/-- A source as the map it is. -/
def Source.toTerm : Source → Term
  | .sessionCommand runId commandId =>
    mapOf [(str "kind", str "session_command"), (str "run_id", runId), (str "command_id", commandId)]
  | .sessionAssistant runId turn =>
    mapOf [(str "kind", str "session_assistant"), (str "run_id", runId), (str "turn", turn)]
  | .sessionToolResult runId turn callId =>
    mapOf [(str "kind", str "session_tool_result"), (str "run_id", runId), (str "turn", turn),
      (str "call_id", callId)]

/-- The protection of a unit. -/
def protect (currentRun : Term) (terminalRuns frozenSources : List Term) (unit : RunUnit) :
    Check Refusal CompactionUnit := do
  let entries ← projectEntries unit.elements
  let frozen := entries.any fun e => e.1.toTerm ∈ frozenSources
  .ok { unit with
    isProtected := looseEq unit.runId currentRun || unit.runId ∉ terminalRuns || !unit.complete || frozen }

/-- The runs of a list, which `chunk_by` takes off one after the other. -/
def chunkByRun (elements : List Element) : List (List Element) :=
  elements.splitBy fun a b => decide (a.runId = b.runId)

def isRun : Term → Bool
  | .binary _ => true
  | t => t = nil

/-- `compaction_units`. -/
def compactionUnits (elements : List Element) (currentRun : Term) (terminalRuns frozenSources : List Term) :
    Check Refusal (List CompactionUnit) :=
  if isRun currentRun then
    match lineageIdentities elements with
    | some s =>
      let runs := chunkByRun elements
      let runIds := runs.map fun run => (run.head?.map Element.runId).getD nil
      if (s.identities.map Prod.snd).dedup.length = s.identities.length ∧ runIds.length = runIds.dedup.length then do
        let units ← runs.mapM runUnits
        units.flatten.mapM (protect currentRun terminalRuns frozenSources)
      else .error .contextProjectionInvalid
    | none => .error .contextProjectionInvalid
  else .error .contextProjectionInvalid

/-! ## the units of a scanned list -/

/-- The results of a message's calls, in the order of the calls. -/
def answersTo (es : List Element) (m : AssistantMessage) : List Element :=
  m.identities.filterMap fun i => (answerOf es i).map Element.toolResult

/-- The units of the elements `rest` after the inputs `pending`, with the results found in `es`. -/
def unitsFrom (es : List Element) : List Element → List Element → List RunUnit
  | pending, [] => inputsUnit pending
  | pending, .userMessage m :: rest => unitsFrom es (pending ++ [.userMessage m]) rest
  | pending, .assistantMessage m :: rest =>
    ⟨.assistantGroup, m.runId, pending ++ .assistantMessage m :: answersTo es m,
      (answersTo es m).length = m.identities.length⟩ :: unitsFrom es [] rest
  | pending, _ :: rest => unitsFrom es pending rest

theorem callIds_ok {m : AssistantMessage} (h : Shaped (.assistantMessage m)) :
    ∃ ids, callIds m = .ok ids ∧ m.identities = ids.map fun id => (m.runId, m.turnNumber, id) := by
  obtain ⟨-, -, -, calls, hm, hcalls⟩ := h
  refine ⟨calls.filterMap fun c => c.map ToolCall.toolCallId, ?_, ?_⟩
  · rw [callIds, hm]
    clear hm
    induction calls with
    | nil => rfl
    | cons c calls ih =>
      obtain ⟨hc, hcs⟩ := List.forall_mem_cons.1 hcalls
      rcases c with _ | c
      · exact absurd hc id
      simp only [List.mapM_cons, ih hcs]
      rfl
  · rw [AssistantMessage.identities, hm, Option.getD_some, List.map_filterMap]
    refine List.filterMap_congr fun c _ => ?_
    cases c <;> rfl

/-- The results of one run, which are all the results of the list under its identity. -/
structure IsRun (es run : List Element) (runId : Term) : Prop where
  sub : ∀ e ∈ run, e ∈ es
  same : ∀ e ∈ run, e.runId = runId
  all : ∀ e ∈ es, e.runId = runId → e ∈ run

variable {es run : List Element} {runId : Term}

/-- The result of a call is found in its run by turn and call. -/
theorem IsRun.resultAt_eq (hr : IsRun es run runId) (h : Scanned es) (turn callId : Term) :
    resultAt run turn callId = answerOf es (runId, turn, callId) := by
  have hmem : ∀ r, r ∈ run.filterMap (fun
      | .toolResult r => if r.turnNumber = turn ∧ r.toolCallId = callId then some r else none
      | _ => none) ↔ .toolResult r ∈ es ∧ r.identity = (runId, turn, callId) := by
    intro r
    rw [List.mem_filterMap]
    constructor
    · rintro ⟨e, he, hf⟩
      split at hf <;> [skip; cases hf]
      split at hf <;> [skip; cases hf]
      next hkey =>
      cases hf
      have hrun : r.runId = runId := hr.same _ he
      exact ⟨hr.sub _ he, by simp [ToolResult.identity, hrun, hkey]⟩
    · rintro ⟨he, hi⟩
      obtain ⟨h1, h2, h3⟩ : r.runId = runId ∧ r.turnNumber = turn ∧ r.toolCallId = callId := by
        simpa [ToolResult.identity] using hi
      exact ⟨.toolResult r, hr.all _ he h1, by simp [h2, h3]⟩
  unfold resultAt
  cases hl : (run.filterMap fun
      | .toolResult r => if r.turnNumber = turn ∧ r.toolCallId = callId then some r else none
      | _ => none).getLast? with
  | none =>
    have hnil := List.getLast?_eq_none_iff.1 hl
    cases ha : answerOf es (runId, turn, callId) with
    | none => rfl
    | some r =>
      have := (hmem r).2 (h.answerOf_eq_some.1 ha)
      rw [hnil] at this
      simp at this
  | some r =>
    have hr' := (hmem r).1 (List.mem_of_getLast? hl)
    rw [h.answerOf_eq_some.2 hr']

theorem IsRun.runUnitsFrom_eq (hr : IsRun es run runId) (h : Scanned es) {rest : List Element}
    (hrest : ∀ e ∈ rest, e ∈ run) (pending : List Element) :
    runUnitsFrom run pending rest = .ok (unitsFrom es pending rest) := by
  induction rest generalizing pending with
  | nil => rfl
  | cons e rest ih =>
    obtain ⟨he, hrest'⟩ := List.forall_mem_cons.1 hrest
    have hs := h.shaped e (hr.sub e he)
    cases e with
    | userMessage m => exact ih hrest' _
    | assistantMessage m =>
      obtain ⟨ids, hids, hm⟩ := callIds_ok hs
      have hrun : m.runId = runId := hr.same _ he
      have hanswers : (ids.filterMap fun call => (resultAt run m.turnNumber call).map Element.toolResult) =
          answersTo es m := by
        rw [answersTo, hm, List.filterMap_map]
        refine List.filterMap_congr fun id _ => ?_
        rw [hr.resultAt_eq h, ← hrun]
        rfl
      have hlen : ids.length = m.identities.length := by rw [hm, List.length_map]
      simp only [runUnitsFrom, hids, Check.ok_bind, hanswers, ih hrest', hlen, unitsFrom]
    | toolResult r => exact ih hrest' _
    | other => exact absurd hs id

/-- The elements of some units, one unit after the other. -/
def elementsOf (units : List RunUnit) : List Element := units.flatMap RunUnit.elements

def IsInput : Element → Prop
  | .userMessage _ => True
  | _ => False

/-- The results behind an element. -/
def answersAt (es : List Element) : Element → List Element
  | .assistantMessage m => answersTo es m
  | _ => []

theorem mem_answersTo {m : AssistantMessage} {e : Element} (h : e ∈ answersTo es m) :
    ∃ i ∈ m.identities, ∃ r, answerOf es i = some r ∧ e = .toolResult r := by
  obtain ⟨i, hi, h⟩ := List.mem_filterMap.1 h
  obtain ⟨r, hr, rfl⟩ := Option.map_eq_some_iff.1 h
  exact ⟨i, hi, r, hr, rfl⟩

@[simp] theorem messages_answersTo (m : AssistantMessage) : messages (answersTo es m) = [] := by
  refine List.filter_eq_nil_iff.2 fun e he => ?_
  obtain ⟨_, _, r, -, rfl⟩ := mem_answersTo he
  simp [resultOf]

@[simp] theorem answers_answersTo (m : AssistantMessage) : answers (answersTo es m) = answersTo es m := by
  refine List.filter_eq_self.2 fun e he => ?_
  obtain ⟨_, _, r, -, rfl⟩ := mem_answersTo he
  rfl

theorem messages_append (xs ys : List Element) : messages (xs ++ ys) = messages xs ++ messages ys :=
  List.filter_append ..

theorem answers_append (xs ys : List Element) : answers (xs ++ ys) = answers xs ++ answers ys :=
  List.filter_append ..

@[simp] theorem messages_nil : messages [] = [] := rfl
@[simp] theorem answers_nil : answers [] = [] := rfl

@[simp] theorem messages_user (m : UserMessage) (es : List Element) :
    messages (.userMessage m :: es) = .userMessage m :: messages es := rfl

@[simp] theorem messages_assistant (m : AssistantMessage) (es : List Element) :
    messages (.assistantMessage m :: es) = .assistantMessage m :: messages es := rfl

@[simp] theorem messages_result (r : ToolResult) (es : List Element) :
    messages (.toolResult r :: es) = messages es := rfl

@[simp] theorem answers_assistant (m : AssistantMessage) (es : List Element) :
    answers (.assistantMessage m :: es) = answers es := rfl

/-- The inputs are messages and no results. -/
theorem inputs_filter {pending : List Element} (h : ∀ e ∈ pending, IsInput e) :
    messages pending = pending ∧ answers pending = [] := by
  constructor
  · refine List.filter_eq_self.2 fun e he => ?_
    have := h e he
    cases e <;> first | rfl | exact this.elim
  · refine List.filter_eq_nil_iff.2 fun e he => ?_
    have := h e he
    cases e <;> first | exact this.elim | simp [resultOf]

@[simp] theorem elementsOf_inputsUnit (pending : List Element) : elementsOf (inputsUnit pending) = pending := by
  unfold inputsUnit
  split
  next h => simp [elementsOf, List.getLast?_eq_none_iff.1 h]
  next => simp [elementsOf]

/-- **The units keep the messages in their order, and put the results behind their calls.** -/
theorem unitsFrom_elements {rest : List Element} (hshaped : ∀ e ∈ rest, Shaped e) {pending : List Element}
    (hpending : ∀ e ∈ pending, IsInput e) :
    messages (elementsOf (unitsFrom es pending rest)) = pending ++ messages rest ∧
      answers (elementsOf (unitsFrom es pending rest)) = rest.flatMap (answersAt es) := by
  induction rest generalizing pending with
  | nil =>
    obtain ⟨hm, ha⟩ := inputs_filter hpending
    simp [unitsFrom, hm, ha]
  | cons e rest ih =>
    obtain ⟨he, hrest⟩ := List.forall_mem_cons.1 hshaped
    cases e with
    | userMessage m =>
      have hpending' : ∀ e ∈ pending ++ [.userMessage m], IsInput e := by
        intro e he
        rcases List.mem_append.1 he with he | he
        · exact hpending e he
        · rw [List.mem_singleton.1 he]
          trivial
      obtain ⟨hm, ha⟩ := ih hrest hpending'
      exact ⟨by simp [unitsFrom, hm], by simp [unitsFrom, ha, answersAt]⟩
    | assistantMessage m =>
      obtain ⟨hm, ha⟩ := ih hrest (List.forall_mem_nil _)
      obtain ⟨hm', ha'⟩ := inputs_filter hpending
      have hflat : elementsOf (unitsFrom es pending (.assistantMessage m :: rest)) =
          pending ++ [.assistantMessage m] ++ answersTo es m ++ elementsOf (unitsFrom es [] rest) := by
        simp [unitsFrom, elementsOf]
      constructor
      · rw [hflat]
        simp [messages_append, hm', hm]
      · rw [hflat]
        simp [answers_append, ha', ha, answersAt]
    | toolResult r =>
      obtain ⟨hm, ha⟩ := ih hrest hpending
      exact ⟨by simp [unitsFrom, hm], by simp [unitsFrom, ha, answersAt]⟩
    | other => exact absurd he id

/-- The form of a unit: inputs, or inputs with an assistant message and its results. -/
def Grouped (es : List Element) (u : RunUnit) : Prop :=
  ∃ inputs, (∀ e ∈ inputs, IsInput e) ∧ (u.elements = inputs ∧ u.complete = true ∨
    ∃ m, u.elements = inputs ++ .assistantMessage m :: answersTo es m ∧
      (u.complete = true ↔ ∀ i ∈ m.identities, (answerOf es i).isSome))

section

variable {inputs : List Element} {m : AssistantMessage} (hinputs : ∀ e ∈ inputs, IsInput e)

include hinputs

/-- A unit has one assistant message at most. -/
theorem assistant_mem_group {m' : AssistantMessage}
    (h : .assistantMessage m' ∈ inputs ++ .assistantMessage m :: answersTo es m) : m' = m := by
  rcases List.mem_append.1 h with h | h
  · exact (hinputs _ h).elim
  rcases List.mem_cons.1 h with h | h
  · exact Element.assistantMessage.inj h
  · obtain ⟨_, _, _, -, hr⟩ := mem_answersTo h
    cases hr

/-- The results of a unit answer its message. -/
theorem result_mem_group {r : ToolResult}
    (h : .toolResult r ∈ inputs ++ .assistantMessage m :: answersTo es m) : .toolResult r ∈ answersTo es m := by
  rcases List.mem_append.1 h with h | h
  · exact (hinputs _ h).elim
  rcases List.mem_cons.1 h with h | h
  · cases h
  · exact h

end

theorem inputsUnit_spec {pending : List Element} (hpending : ∀ e ∈ pending, IsInput e) :
    ∀ u ∈ inputsUnit pending, Grouped es u := by
  intro u hu
  unfold inputsUnit at hu
  split at hu
  next => simp at hu
  next input hl =>
    obtain rfl := List.mem_singleton.1 hu
    exact ⟨pending, hpending, .inl ⟨rfl, rfl⟩⟩

theorem unitsFrom_spec {rest pending : List Element} (hpending : ∀ e ∈ pending, IsInput e) :
    ∀ u ∈ unitsFrom es pending rest, Grouped es u := by
  induction rest generalizing pending with
  | nil => exact inputsUnit_spec hpending
  | cons e rest ih =>
    cases e with
    | userMessage m =>
      refine ih fun e he => ?_
      rcases List.mem_append.1 he with he | he
      · exact hpending e he
      · rw [List.mem_singleton.1 he]
        trivial
    | assistantMessage m =>
      intro u hu
      rcases List.mem_cons.1 hu with rfl | hu
      · refine ⟨pending, hpending, .inr ⟨m, rfl, ?_⟩⟩
        rw [decide_eq_true_eq, answersTo, List.filterMap_length_eq_length]
        simp
      · exact ih (List.forall_mem_nil _) u hu
    | toolResult r => exact ih hpending
    | other => exact ih hpending

theorem inputsUnit_run {pending : List Element} (hrun : ∀ e ∈ pending, e.runId = runId) :
    ∀ u ∈ inputsUnit pending, u.runId = runId ∧ ∀ e ∈ u.elements, e.runId = runId := by
  intro u hu
  unfold inputsUnit at hu
  split at hu
  next => simp at hu
  next input hl =>
    obtain rfl := List.mem_singleton.1 hu
    exact ⟨hrun _ (List.mem_of_getLast? hl), hrun⟩

/-- The units of a run and their elements are of that run. -/
theorem unitsFrom_run (h : Scanned es) {rest : List Element} (hrest : ∀ e ∈ rest, e.runId = runId)
    {pending : List Element} (hrun : ∀ e ∈ pending, e.runId = runId) :
    ∀ u ∈ unitsFrom es pending rest, u.runId = runId ∧ ∀ e ∈ u.elements, e.runId = runId := by
  induction rest generalizing pending with
  | nil => exact inputsUnit_run hrun
  | cons e rest ih =>
    obtain ⟨he, hrest'⟩ := List.forall_mem_cons.1 hrest
    cases e with
    | userMessage m =>
      refine ih hrest' fun e he' => ?_
      rcases List.mem_append.1 he' with he' | he'
      · exact hrun e he'
      · rw [List.mem_singleton.1 he']
        exact he
    | assistantMessage m =>
      intro u hu
      rcases List.mem_cons.1 hu with rfl | hu
      · refine ⟨he, fun e he' => ?_⟩
        rcases List.mem_append.1 he' with he' | he'
        · exact hrun e he'
        rcases List.mem_cons.1 he' with rfl | he'
        · exact he
        -- an answer carries the run of its call
        obtain ⟨i, hi, r, hr, rfl⟩ := mem_answersTo he'
        obtain ⟨-, rfl⟩ := h.answerOf_eq_some.1 hr
        exact (turn_of_mem_identities hi).1.trans he
      · exact ih hrest' (List.forall_mem_nil _) u hu
    | toolResult r => exact ih hrest' hrun
    | other => exact ih hrest' hrun

/-! ## the inputs pending before an assistant message -/

/-- The inputs of a run since its last assistant message, after one more element. -/
def pendingStep (runId : Term) (pending : List Element) : Element → List Element
  | .userMessage m => if m.runId = runId then pending ++ [.userMessage m] else pending
  | .assistantMessage m => if m.runId = runId then [] else pending
  | _ => pending

/-- The inputs of a run since its last assistant message. -/
def pendingInputs (es : List Element) (runId : Term) : List Element := es.foldl (pendingStep runId) []

theorem unitsFrom_group (es : List Element) {m : AssistantMessage} {a b : List Element}
    (hrun : ∀ e ∈ a ++ .assistantMessage m :: b, e.runId = runId) (pending : List Element) :
    ∃ u ∈ unitsFrom es pending (a ++ .assistantMessage m :: b),
      u.elements = a.foldl (pendingStep runId) pending ++ .assistantMessage m :: answersTo es m := by
  induction a generalizing pending with
  | nil => exact ⟨_, List.mem_cons_self, rfl⟩
  | cons e a ih =>
    have he : e.runId = runId := hrun e (by simp)
    have ih' := ih fun e' he' => hrun e' (List.mem_cons_of_mem _ he')
    cases e with
    | userMessage n =>
      obtain ⟨u, hu, helems⟩ := ih' (pending ++ [.userMessage n])
      have hstep : pendingStep runId pending (.userMessage n) = pending ++ [.userMessage n] := if_pos he
      exact ⟨u, hu, by rw [List.foldl_cons, hstep, helems]⟩
    | assistantMessage n =>
      obtain ⟨u, hu, helems⟩ := ih' []
      have hstep : pendingStep runId pending (.assistantMessage n) = [] := if_pos he
      exact ⟨u, List.mem_cons_of_mem _ hu, by rw [List.foldl_cons, hstep, helems]⟩
    | toolResult r =>
      obtain ⟨u, hu, helems⟩ := ih' pending
      exact ⟨u, hu, by rw [List.foldl_cons, helems]; rfl⟩
    | other =>
      obtain ⟨u, hu, helems⟩ := ih' pending
      exact ⟨u, hu, by rw [List.foldl_cons, helems]; rfl⟩

/-- The elements of other runs leave the pending inputs of a run. -/
theorem pendingInputs_other {a : List Element} (h : ∀ e ∈ a, e.runId ≠ runId) (pending : List Element) :
    a.foldl (pendingStep runId) pending = pending := by
  induction a generalizing pending with
  | nil => rfl
  | cons e a ih =>
    obtain ⟨he, ha⟩ := List.forall_mem_cons.1 h
    have hstep : pendingStep runId pending e = pending := by
      cases e with
      | userMessage m => exact if_neg he
      | assistantMessage m => exact if_neg he
      | _ => rfl
    rw [List.foldl_cons, hstep, ih ha]

/-! ## the runs -/

/-- The identity of a run. -/
def headRun (run : List Element) : Term := (run.head?.map Element.runId).getD nil

theorem split_flatten {α : Type} {runs : List (List α)} {a b : List α} {x : α} (h : runs.flatten = a ++ x :: b) :
    ∃ runs₁ run runs₂ a' b', runs = runs₁ ++ run :: runs₂ ∧ run = a' ++ x :: b' ∧ a = runs₁.flatten ++ a' := by
  induction runs generalizing a with
  | nil => simp at h
  | cons run runs ih =>
    rw [List.flatten_cons] at h
    rcases List.append_eq_append_iff.1 h with ⟨c, rfl, hc⟩ | ⟨c, rfl, hc⟩
    · obtain ⟨runs₁, run', runs₂, a', b', rfl, rfl, rfl⟩ := ih hc
      exact ⟨run :: runs₁, _, runs₂, a', b', rfl, rfl, by simp⟩
    · rcases c with _ | ⟨y, c⟩
      · obtain ⟨runs₁, run', runs₂, a', b', rfl, rfl, hnil⟩ := ih (a := []) (by simpa using hc.symm)
        exact ⟨a :: runs₁, _, runs₂, a', b', by simp, rfl, by simpa using hnil⟩
      · obtain ⟨rfl, rfl⟩ := List.cons.inj (hc.symm : y :: _ = _)
        exact ⟨[], _, runs, a, c, rfl, rfl, rfl⟩

theorem same_run {es run : List Element} (h : run ∈ chunkByRun es) : ∀ e ∈ run, e.runId = headRun run := by
  have hchain := List.isChain_of_mem_splitBy h
  have hp : run.Pairwise fun a b => a.runId = b.runId := by
    have : run.IsChain fun a b => a.runId = b.runId := hchain.imp fun a b hab => of_decide_eq_true hab
    exact (List.isChain_iff_pairwise (R := fun a b : Element => a.runId = b.runId)).1 this
  intro e he
  cases run with
  | nil => simp at he
  | cons e' run =>
    rcases List.mem_cons.1 he with rfl | he
    · rfl
    · exact ((List.pairwise_cons.1 hp).1 e he).symm

theorem runs_distinct {es : List Element} (h : ((chunkByRun es).map headRun).Nodup) {run : List Element}
    (hrun : run ∈ chunkByRun es) : IsRun es run (headRun run) where
  sub := fun e he => by
    rw [← List.flatten_splitBy (fun a b : Element => decide (a.runId = b.runId)) es]
    exact List.mem_flatten.2 ⟨run, hrun, he⟩
  same := same_run hrun
  all := fun e he hid => by
    rw [← List.flatten_splitBy (fun a b : Element => decide (a.runId = b.runId)) es] at he
    obtain ⟨run', hrun', he⟩ := List.mem_flatten.1 he
    have : headRun run' = headRun run := by rw [← hid, same_run hrun' e he]
    rwa [List.inj_on_of_nodup_map h hrun' hrun this] at he

/-! ## the partition -/

/-- The units of all the runs of a list. -/
def allUnits (es : List Element) : List RunUnit := (chunkByRun es).flatMap (unitsFrom es [])

theorem allUnits_spec (es : List Element) : ∀ u ∈ allUnits es, Grouped es u := by
  intro u hu
  obtain ⟨run, hrun, hu⟩ := List.mem_flatMap.1 hu
  exact unitsFrom_spec (List.forall_mem_nil _) u hu

theorem messages_flatten (runs : List (List Element)) : messages runs.flatten = runs.flatMap messages := by
  induction runs with
  | nil => rfl
  | cons run runs ih => rw [List.flatten_cons, messages_append, ih, List.flatMap_cons]

theorem answers_flatten (runs : List (List Element)) : answers runs.flatten = runs.flatMap answers := by
  induction runs with
  | nil => rfl
  | cons run runs ih => rw [List.flatten_cons, answers_append, ih, List.flatMap_cons]

theorem flatten_chunkByRun (es : List Element) : (chunkByRun es).flatten = es := List.flatten_splitBy _ es

theorem elementsOf_allUnits (es : List Element) :
    elementsOf (allUnits es) = ((chunkByRun es).map fun run => elementsOf (unitsFrom es [] run)).flatten := by
  rw [elementsOf, allUnits, List.flatMap_assoc, List.flatMap_def]
  rfl

theorem allUnits_messages (h : Scanned es) :
    messages (elementsOf (allUnits es)) = messages es ∧
      answers (elementsOf (allUnits es)) = es.flatMap (answersAt es) := by
  have hrun : ∀ run ∈ chunkByRun es, ∀ e ∈ run, Shaped e := fun run hrun e he =>
    h.shaped e (by rw [← flatten_chunkByRun es]; exact List.mem_flatten.2 ⟨run, hrun, he⟩)
  constructor
  · rw [elementsOf_allUnits, messages_flatten, List.flatMap_map]
    conv_rhs => rw [← flatten_chunkByRun es, messages_flatten]
    exact List.flatMap_congr fun run hr =>
      (unitsFrom_elements (hrun run hr) (List.forall_mem_nil _)).1.trans (List.nil_append _)
  · rw [elementsOf_allUnits, answers_flatten, List.flatMap_map]
    have hflat : ∀ f : Element → List Element, es.flatMap f = (chunkByRun es).flatMap fun run => run.flatMap f := by
      intro f
      conv_lhs => rw [← flatten_chunkByRun es, List.flatten_eq_flatMap, List.flatMap_assoc]
      rfl
    rw [hflat]
    exact List.flatMap_congr fun run hr => (unitsFrom_elements (hrun run hr) (List.forall_mem_nil _)).2

theorem nodup_of_filterMap {α β : Type} {f : α → Option β} {l : List α} (h : (l.filterMap f).Nodup)
    (hf : ∀ a ∈ l, (f a).isSome) : l.Nodup := by
  induction l with
  | nil => exact .nil
  | cons a l ih =>
    obtain ⟨ha, hl⟩ := List.forall_mem_cons.1 hf
    obtain ⟨b, hb⟩ := Option.isSome_iff_exists.1 ha
    rw [List.filterMap_cons_some hb, List.nodup_cons] at h
    exact List.nodup_cons.2 ⟨fun hm => h.1 (List.mem_filterMap.2 ⟨a, hm, hb⟩), ih h.2 hl⟩

theorem flatMap_answersAt (es l : List Element) : l.flatMap (answersAt es) =
    (l.flatMap callsOf).filterMap fun i => (answerOf es i).map Element.toolResult := by
  induction l with
  | nil => rfl
  | cons e l ih =>
    rw [List.flatMap_cons, ih, List.flatMap_cons, List.filterMap_append]
    cases e <;> rfl

/-- **The elements of the units are those of the list**, each as often. -/
theorem allUnits_perm (h : Scanned es) : (elementsOf (allUnits es)).Perm es := by
  obtain ⟨hm, ha⟩ := allUnits_messages h
  have split : ∀ l : List Element, (messages l ++ answers l).Perm l := by
    intro l
    have := List.filter_append_perm (fun e => (resultOf e).isNone) l
    have heq : l.filter (fun e => !(resultOf e).isNone) = answers l :=
      List.filter_congr fun e _ => by cases resultOf e <;> rfl
    rwa [heq] at this
  have hanswers : (answers (elementsOf (allUnits es))).Perm (answers es) := by
    rw [ha, flatMap_answersAt]
    refine (List.perm_ext_iff_of_nodup ?_ ?_).2 fun e => ?_
    · refine h.calls.filterMap ?_
      intro i j e hi hj
      obtain ⟨r, hr, rfl⟩ := Option.map_eq_some_iff.1 hi
      obtain ⟨r', hr', he⟩ := Option.map_eq_some_iff.1 hj
      cases he
      rw [← (h.answerOf_eq_some.1 hr).2, ← (h.answerOf_eq_some.1 hr').2]
    · have hn := h.results
      rw [filterMap_results] at hn
      exact nodup_of_filterMap hn fun e he => (List.mem_filter.1 he).2
    · constructor
      · intro he
        obtain ⟨i, -, hi⟩ := List.mem_filterMap.1 he
        obtain ⟨r, hr, rfl⟩ := Option.map_eq_some_iff.1 hi
        exact List.mem_filter.2 ⟨(h.answerOf_eq_some.1 hr).1, rfl⟩
      · intro he
        obtain ⟨he, hr⟩ := List.mem_filter.1 he
        cases e with
        | toolResult r =>
          refine List.mem_filterMap.2 ⟨r.identity, h.answers_call he, ?_⟩
          rw [h.answerOf_eq_some.2 ⟨he, rfl⟩]
          rfl
        | _ => simp [resultOf] at hr
  have hsplit := split (elementsOf (allUnits es))
  rw [hm] at hsplit
  exact hsplit.symm.trans ((hanswers.append_left (messages es)).trans (split es))

/-- Every result follows its call. -/
def Closed (xs : List Element) : Prop :=
  ∀ l r l', xs = l ++ .toolResult r :: l' → r.identity ∈ l.flatMap callsOf

theorem Closed.append {xs ys : List Element} (hx : Closed xs) (hy : Closed ys) : Closed (xs ++ ys) := by
  intro l r l' h
  rcases List.append_eq_append_iff.1 h with ⟨c, rfl, hc⟩ | ⟨c, rfl, hc⟩
  · rw [List.flatMap_append]
    exact List.mem_append_right _ (hy c r l' hc)
  · rcases c with _ | ⟨y, c⟩
    · have := hy [] r l' (by simpa using hc.symm)
      simp at this
    · obtain ⟨rfl, -⟩ := List.cons.inj hc
      exact hx l r c rfl

theorem Grouped.closed (h : Scanned es) {u : RunUnit} (hu : Grouped es u) : Closed u.elements := by
  obtain ⟨inputs, hinputs, ⟨he, -⟩ | ⟨m, he, -⟩⟩ := hu
  · rw [he]
    rintro l r l' rfl
    exact (hinputs (.toolResult r) (by simp)).elim
  · rw [he]
    intro l r l' heq
    have hr : Element.toolResult r ∈ answersTo es m := result_mem_group hinputs (by simp [heq])
    obtain ⟨i, hi, r', hr', hrr⟩ := mem_answersTo hr
    cases hrr
    obtain ⟨-, rfl⟩ := h.answerOf_eq_some.1 hr'
    -- the assistant message stands before every result of the unit
    have hm : Element.assistantMessage m ∈ l := by
      rcases List.append_eq_append_iff.1 heq with ⟨c, rfl, hc⟩ | ⟨c, rfl, hc⟩
      · rcases c with _ | ⟨y, c⟩
        · cases (List.cons.inj hc).1
        · obtain ⟨rfl, -⟩ := List.cons.inj hc
          simp
      · rcases c with _ | ⟨y, c⟩
        · cases (List.cons.inj hc).1
        · obtain ⟨rfl, -⟩ := List.cons.inj hc
          exact (hinputs (.toolResult r) (by simp)).elim
    exact List.mem_flatMap.2 ⟨_, hm, hi⟩

theorem closed_elementsOf (h : Scanned es) {us : List RunUnit} (hus : ∀ u ∈ us, Grouped es u) :
    Closed (elementsOf us) := by
  induction us with
  | nil =>
    intro l r l' heq
    simp [elementsOf] at heq
  | cons u us ih =>
    obtain ⟨hu, hus⟩ := List.forall_mem_cons.1 hus
    exact (hu.closed h).append (ih hus)

/-- Some of the units, in their order, are a scanned list by themselves. -/
theorem scanned_elementsOf (h : Scanned es) {us : List RunUnit} (hus : us.Sublist (allUnits es)) :
    Scanned (elementsOf us) := by
  have hsub : (elementsOf us).Sublist (elementsOf (allUnits es)) := hus.flatMap _
  have hperm := allUnits_perm h
  obtain ⟨hmessages, -⟩ := allUnits_messages h
  have hturns : (elementsOf (allUnits es)).filterMap turnOf = es.filterMap turnOf := by
    rw [filterMap_messages, hmessages, ← filterMap_messages]
  have hcalls : (elementsOf (allUnits es)).flatMap callsOf = es.flatMap callsOf := by
    rw [flatMap_messages (fun _ => rfl), hmessages, ← flatMap_messages fun _ => rfl]
  constructor
  · exact fun e he => h.shaped e (hperm.mem_iff.1 (hsub.mem he))
  · exact (hsub.filterMap turnOf).nodup (hturns ▸ h.turns)
  · exact (hsub.flatMap callsOf).nodup (hcalls ▸ h.calls)
  · exact (hsub.filterMap resultOf).nodup ((hperm.filterMap resultOf).nodup_iff.2 h.results)
  · exact closed_elementsOf h fun u hu => allUnits_spec es u (hus.mem hu)

/-- An assistant message has all its results in its unit. -/
theorem Grouped.answered (h : Scanned es) {u : RunUnit} (hu : Grouped es u) {m : AssistantMessage}
    (hm : .assistantMessage m ∈ u.elements) {r : ToolResult} (hr : .toolResult r ∈ es)
    (hi : r.identity ∈ m.identities) : .toolResult r ∈ u.elements := by
  obtain ⟨inputs, hinputs, ⟨he, -⟩ | ⟨m', he, -⟩⟩ := hu
  · rw [he] at hm
    exact (hinputs _ hm).elim
  · rw [he] at hm ⊢
    obtain rfl := assistant_mem_group hinputs hm
    refine List.mem_append_right _ (List.mem_cons_of_mem _ ?_)
    refine List.mem_filterMap.2 ⟨r.identity, hi, ?_⟩
    rw [h.answerOf_eq_some.2 ⟨hr, rfl⟩]
    rfl

/-- An element stands for the same entries in its units as in the whole list. -/
theorem block_elementsOf (h : Scanned es) {us : List RunUnit} (hus : us.Sublist (allUnits es)) {e : Element}
    (he : e ∈ elementsOf us) : block (elementsOf us) rawId e = block es rawId e := by
  have hs := scanned_elementsOf h hus
  have hmem : ∀ {f}, f ∈ elementsOf us → f ∈ es := fun hf =>
    (allUnits_perm h).mem_iff.1 ((hus.flatMap _).mem hf)
  cases e with
  | assistantMessage m =>
    obtain ⟨u, hu, hm⟩ := List.mem_flatMap.1 he
    have hanswer : ∀ i ∈ m.identities, answerOf (elementsOf us) i = answerOf es i := by
      intro i hi
      apply Option.ext
      intro r
      rw [hs.answerOf_eq_some, h.answerOf_eq_some]
      constructor
      · exact fun ⟨hr, hid⟩ => ⟨hmem hr, hid⟩
      · rintro ⟨hr, rfl⟩
        exact ⟨List.mem_flatMap.2 ⟨u, hu, (allUnits_spec es u (hus.mem hu)).answered h hm hr hi⟩, rfl⟩
    simp only [block]
    congr 1
    exact List.filterMap_congr fun i hi => by rw [hanswer i hi]
  | _ => rfl

/-- **The projection of some of the units** is that of their elements in the whole list. -/
theorem projectEntries_elementsOf (h : Scanned es) {us : List RunUnit} (hus : us.Sublist (allUnits es)) :
    projectEntries (elementsOf us) = .ok ((elementsOf us).flatMap (block es rawId)) := by
  rw [projectEntries_of_scanned (scanned_elementsOf h hus)]
  congr 1
  exact List.flatMap_congr fun e he => block_elementsOf h hus he

theorem flatMap_block (h : Scanned es) :
    (elementsOf (allUnits es)).flatMap (block es rawId) = es.flatMap (block es rawId) := by
  rw [flatMap_messages (fun _ => rfl), (allUnits_messages h).1, ← flatMap_messages fun _ => rfl]

/-! ## the protected units -/

/-- The source of an element. -/
def sourceOf : Element → Option Source
  | .userMessage m => some (.sessionCommand m.runId m.commandId)
  | .assistantMessage m => some (.sessionAssistant m.runId m.turnNumber)
  | .toolResult r => some (.sessionToolResult r.runId r.turnNumber r.toolCallId)
  | .other => none

/-- Some call of the unit has no result in the list. -/
def Incomplete (es : List Element) (u : RunUnit) : Prop :=
  ∃ m, .assistantMessage m ∈ u.elements ∧ ∃ i ∈ m.identities, ∀ r, .toolResult r ∈ es → r.identity ≠ i

def HoldsFrozen (frozenSources : List Term) (u : RunUnit) : Prop :=
  ∃ e ∈ u.elements, ∃ source, sourceOf e = some source ∧ source.toTerm ∈ frozenSources

theorem Grouped.incomplete_iff (h : Scanned es) {u : RunUnit} (hu : Grouped es u) :
    u.complete = false ↔ Incomplete es u := by
  have hanswer : ∀ i, (answerOf es i).isSome ↔ ∃ r, .toolResult r ∈ es ∧ r.identity = i := by
    intro i
    rw [Option.isSome_iff_exists]
    exact exists_congr fun r => h.answerOf_eq_some
  obtain ⟨inputs, hinputs, ⟨he, hc⟩ | ⟨m, he, hc⟩⟩ := hu
  · rw [hc]
    constructor
    · intro h
      cases h
    · rintro ⟨m, hm, -⟩
      rw [he] at hm
      exact (hinputs _ hm).elim
  · rw [← Bool.not_eq_true, hc]
    constructor
    · intro hno
      push Not at hno
      obtain ⟨i, hi, hna⟩ := hno
      refine ⟨m, by simp [he], i, hi, fun r hr hri => ?_⟩
      exact hna ((hanswer i).2 ⟨r, hr, hri⟩)
    · rintro ⟨m', hm', i, hi, hno⟩ hall
      rw [he] at hm'
      obtain rfl := assistant_mem_group hinputs hm'
      obtain ⟨r, hr, hri⟩ := (hanswer i).1 (hall i hi)
      exact hno r hr hri

/-- The sources of a unit are those of its elements. -/
theorem Grouped.sources (h : Scanned es) {u : RunUnit} (hu : Grouped es u) (source : Source) :
    (∃ e ∈ u.elements.flatMap (block es rawId), e.1 = source) ↔ ∃ e ∈ u.elements, sourceOf e = some source := by
  constructor
  · rintro ⟨entry, hentry, rfl⟩
    obtain ⟨e, he, hblock⟩ := List.mem_flatMap.1 hentry
    cases e with
    | userMessage m =>
      rw [block, List.mem_singleton] at hblock
      exact ⟨_, he, by rw [hblock, sourceOf]⟩
    | assistantMessage m =>
      rcases List.mem_cons.1 hblock with hblock | hblock
      · exact ⟨_, he, by rw [hblock, sourceOf]⟩
      · obtain ⟨i, hi, ha⟩ := List.mem_filterMap.1 hblock
        obtain ⟨r, hr, rfl⟩ := Option.map_eq_some_iff.1 ha
        obtain ⟨hmem, rfl⟩ := h.answerOf_eq_some.1 hr
        exact ⟨_, hu.answered h he hmem hi, rfl⟩
    | _ => simp [block] at hblock
  · rintro ⟨e, he, hsource⟩
    cases e with
    | userMessage m =>
      cases hsource
      exact ⟨_, List.mem_flatMap.2 ⟨_, he, List.mem_cons_self⟩, rfl⟩
    | assistantMessage m =>
      cases hsource
      exact ⟨_, List.mem_flatMap.2 ⟨_, he, List.mem_cons_self⟩, rfl⟩
    | toolResult r =>
      cases hsource
      obtain ⟨inputs, hinputs, ⟨hel, -⟩ | ⟨m, hel, -⟩⟩ := hu
      · rw [hel] at he
        exact (hinputs _ he).elim
      -- a result stands in the unit as an answer, and so in the block of the assistant message
      obtain ⟨i, hi, r', hr', heq⟩ := mem_answersTo (result_mem_group hinputs (hel ▸ he))
      cases heq
      have hm : Element.assistantMessage m ∈ u.elements := by simp [hel]
      have hentry : (Source.sessionToolResult r.runId r.turnNumber r.toolCallId,
          Message.tool (rawId i) (outcomeName r.outcome) r.content) ∈ block es rawId (.assistantMessage m) := by
        refine List.mem_cons_of_mem _ (List.mem_filterMap.2 ⟨i, hi, ?_⟩)
        rw [hr']
        rfl
      exact ⟨_, List.mem_flatMap.2 ⟨_, hm, hentry⟩, rfl⟩
    | other => cases hsource

theorem looseEq_run {u currentRun : Term} (hu : ∃ run, u = .binary run) :
    looseEq u currentRun = true ↔ u = currentRun := by
  obtain ⟨run, rfl⟩ := hu
  rw [looseEq_iff, loosen_binary]
  constructor
  · exact fun h => (loosen_eq_binary h.symm).symm
  · rintro rfl
    rfl

/-! ## the run of the function -/

section

variable {elements : List Element} {currentRun : Term} {terminalRuns frozenSources : List Term}
  {units : List CompactionUnit}

/-- What `compaction_units` has checked, and what it protects. -/
theorem compactionUnits_eq_ok (h : compactionUnits elements currentRun terminalRuns frozenSources = .ok units) :
    Scanned elements ∧ ((chunkByRun elements).map headRun).Nodup ∧
      (allUnits elements).mapM (protect currentRun terminalRuns frozenSources) = .ok units := by
  unfold compactionUnits at h
  split at h <;> [skip; cases h]
  split at h <;> [skip; cases h]
  next s hs =>
  obtain ⟨hscan, -⟩ := lineageIdentities_eq_some.1 hs
  dsimp only at h
  split at h <;> [skip; cases h]
  next hguard =>
  have hdistinct : ((chunkByRun elements).map headRun).Nodup := by
    have hlen := (List.dedup_sublist ((chunkByRun elements).map headRun)).eq_of_length hguard.2.symm
    rw [← hlen]
    exact List.nodup_dedup _
  have hruns : (chunkByRun elements).mapM runUnits = (.ok ((chunkByRun elements).map (unitsFrom elements [])) :
      Check Refusal _) := by
    refine Check.mapM_ok fun run hrun => ?_
    -- a run is scanned by itself, and its results are all the results of its calls
    exact (runs_distinct hdistinct hrun).runUnitsFrom_eq hscan (fun _ he => he) []
  rw [hruns, Check.ok_bind] at h
  exact ⟨hscan, hdistinct, h⟩

theorem protect_eq_ok (h : Scanned elements) {u : RunUnit} (hu : u ∈ allUnits elements) {p : CompactionUnit}
    (hp : protect currentRun terminalRuns frozenSources u = .ok p) :
    p.toRunUnit = u ∧ (p.isProtected = true ↔ looseEq u.runId currentRun = true ∨ u.runId ∉ terminalRuns ∨
      Incomplete elements u ∨ HoldsFrozen frozenSources u) := by
  have hproject := projectEntries_elementsOf h (List.singleton_sublist.2 hu)
  have hgroup := allUnits_spec elements u hu
  simp only [elementsOf, List.flatMap_cons, List.flatMap_nil, List.append_nil] at hproject
  rw [protect, hproject, Check.ok_bind] at hp
  cases hp
  refine ⟨rfl, ?_⟩
  have hfrozen : (u.elements.flatMap (block elements rawId)).any (fun e => e.1.toTerm ∈ frozenSources) = true ↔
      HoldsFrozen frozenSources u := by
    rw [List.any_eq_true]
    constructor
    · rintro ⟨entry, hentry, hmem⟩
      obtain ⟨e, he, hsource⟩ := (hgroup.sources h entry.1).1 ⟨entry, hentry, rfl⟩
      exact ⟨e, he, entry.1, hsource, of_decide_eq_true hmem⟩
    · rintro ⟨e, he, source, hsource, hmem⟩
      obtain ⟨entry, hentry, rfl⟩ := (hgroup.sources h source).2 ⟨e, he, hsource⟩
      exact ⟨entry, hentry, decide_eq_true hmem⟩
  simp only [Bool.or_eq_true, decide_eq_true_eq, Bool.not_eq_true', hgroup.incomplete_iff h, hfrozen, or_assoc]

theorem protected_units (h : Scanned elements) {us : List RunUnit} (hus : ∀ u ∈ us, u ∈ allUnits elements)
    {ps : List CompactionUnit} (hps : us.mapM (protect currentRun terminalRuns frozenSources) = .ok ps) :
    ps.map CompactionUnit.toRunUnit = us ∧ ∀ p ∈ ps,
      (p.isProtected = true ↔ looseEq p.runId currentRun = true ∨ p.runId ∉ terminalRuns ∨
        Incomplete elements p.toRunUnit ∨ HoldsFrozen frozenSources p.toRunUnit) := by
  induction us generalizing ps with
  | nil =>
    cases hps
    simp
  | cons u us ih =>
    obtain ⟨hu, hus'⟩ := List.forall_mem_cons.1 hus
    rw [List.mapM_cons, Check.bind_eq_ok] at hps
    obtain ⟨p, hp, hps⟩ := hps
    rw [Check.bind_eq_ok] at hps
    obtain ⟨ps', hps', heq⟩ := hps
    cases heq
    obtain ⟨rfl, hiff⟩ := protect_eq_ok h hu hp
    obtain ⟨hmap, hall⟩ := ih hus' hps'
    exact ⟨by rw [List.map_cons, hmap], List.forall_mem_cons.2 ⟨hiff, hall⟩⟩

/-- The unit of an assistant message. -/
theorem unit_of_assistant (hdistinct : ((chunkByRun elements).map headRun).Nodup)
    {a b : List Element} {m : AssistantMessage} (heq : elements = a ++ .assistantMessage m :: b) :
    ∃ u ∈ allUnits elements,
      u.elements = pendingInputs a m.runId ++ .assistantMessage m :: answersTo elements m := by
  obtain ⟨runs₁, run, runs₂, a', b', hruns, hrun, rfl⟩ := split_flatten ((flatten_chunkByRun elements).trans heq)
  have hmem : run ∈ chunkByRun elements := by simp [hruns]
  have hsame : ∀ e ∈ a' ++ .assistantMessage m :: b', e.runId = m.runId := by
    have hhead : m.runId = headRun run := same_run hmem (.assistantMessage m) (by simp [hrun])
    rw [hhead, ← hrun]
    exact same_run hmem
  obtain ⟨u, hu, helements⟩ := unitsFrom_group elements hsame []
  -- the runs before that of the message are of other identities
  have hother : ∀ e ∈ runs₁.flatten, e.runId ≠ m.runId := by
    intro e he hid
    obtain ⟨run', hrun', he⟩ := List.mem_flatten.1 he
    have hmem' : run' ∈ chunkByRun elements := by simp [hruns, hrun']
    have hhead : headRun run' = headRun run := by
      rw [← same_run hmem' e he, hid]
      exact same_run hmem (.assistantMessage m) (by simp [hrun])
    rw [hruns, List.map_append, List.map_cons, List.nodup_append] at hdistinct
    exact hdistinct.2.2 _ (List.mem_map_of_mem hrun') _ List.mem_cons_self hhead
  refine ⟨u, List.mem_flatMap.2 ⟨run, hmem, hrun ▸ hu⟩, ?_⟩
  rw [helements, pendingInputs, List.foldl_append, pendingInputs_other hother]

theorem runId_binary (h : Scanned elements) {e : Element} (he : e ∈ elements) : ∃ run, e.runId = .binary run := by
  have hs := h.shaped e he
  cases e with
  | userMessage m => exact hs.1.imp fun _ hrun => hrun.1
  | assistantMessage m => exact hs.1.imp fun _ hrun => hrun.1
  | toolResult r => exact (h.call_turn (h.answers_call he)).1
  | other => exact hs.elim

/-- A unit is of one run, whose identity is a binary. -/
theorem run_allUnits (h : Scanned elements) {u : RunUnit} (hu : u ∈ allUnits elements) :
    (∀ e ∈ u.elements, e.runId = u.runId) ∧ ∃ run, u.runId = .binary run := by
  obtain ⟨run, hrun, hmem⟩ := List.mem_flatMap.1 hu
  obtain ⟨hid, hall⟩ := unitsFrom_run h (same_run hrun) (List.forall_mem_nil _) u hmem
  refine ⟨fun e he => (hall e he).trans hid.symm, ?_⟩
  obtain ⟨e, rest, rfl⟩ := List.exists_cons_of_ne_nil (List.ne_nil_of_mem_splitBy hrun)
  have he : e ∈ elements := by
    rw [← flatten_chunkByRun elements]
    exact List.mem_flatten.2 ⟨_, hrun, List.mem_cons_self⟩
  rw [hid]
  exact runId_binary h he

/-- **The units of a conversation.** They hold every element as often as the list does; what is before a cut and
what is behind it project to the entries of the whole list, one after the other; an assistant message is in one
unit with the inputs pending before it and with the results of its calls; and a unit is protected if and only if
it is of the current run or of a run that has not ended, lacks a result, or holds a frozen source. -/
theorem compaction_units_partition
    (h : compactionUnits elements currentRun terminalRuns frozenSources = .ok units) :
    (units.flatMap fun u => u.elements).Perm elements ∧
      (∀ k, ∃ covered retained,
        projectEntries ((units.take k).flatMap fun u => u.elements) = .ok covered ∧
        projectEntries ((units.drop k).flatMap fun u => u.elements) = .ok retained ∧
        projectEntries (((units.take k).flatMap fun u => u.elements) ++ (units.drop k).flatMap fun u => u.elements) =
          .ok (covered ++ retained) ∧
        projectEntries elements = .ok (covered ++ retained)) ∧
      (∀ a m b, elements = a ++ .assistantMessage m :: b → ∃ u ∈ units,
        u.elements = pendingInputs a m.runId ++ .assistantMessage m :: answersTo elements m ∧
        ∀ r, .toolResult r ∈ elements → r.identity ∈ m.identities → .toolResult r ∈ u.elements) ∧
      (∀ r, .toolResult r ∈ elements → ∃ m, .assistantMessage m ∈ elements ∧ r.identity ∈ m.identities) ∧
      ∀ u ∈ units, (∀ e ∈ u.elements, e.runId = u.runId) ∧
        (u.isProtected = true ↔ u.runId = currentRun ∨ u.runId ∉ terminalRuns ∨
          Incomplete elements u.toRunUnit ∨ HoldsFrozen frozenSources u.toRunUnit) := by
  obtain ⟨hscan, hdistinct, hprotect⟩ := compactionUnits_eq_ok h
  obtain ⟨hmap, hprotected⟩ := protected_units hscan (fun _ hu => hu) hprotect
  have helements : ∀ us : List CompactionUnit,
      (us.flatMap fun u => u.elements) = elementsOf (us.map CompactionUnit.toRunUnit) := by
    intro us
    rw [elementsOf, List.flatMap_map]
  have hunit : ∀ u ∈ allUnits elements, ∃ p ∈ units, p.toRunUnit = u := by
    intro u hu
    rw [← hmap] at hu
    exact List.mem_map.1 hu
  refine ⟨?_, ?_, ?_, ?_, ?_⟩
  · rw [helements, hmap]
    exact allUnits_perm hscan
  · intro k
    have htake : ((units.take k).map CompactionUnit.toRunUnit).Sublist (allUnits elements) :=
      hmap ▸ (List.take_sublist k units).map _
    have hdrop : ((units.drop k).map CompactionUnit.toRunUnit).Sublist (allUnits elements) :=
      hmap ▸ (List.drop_sublist k units).map _
    have hall : (((units.take k).flatMap fun u => u.elements) ++ (units.drop k).flatMap fun u => u.elements) =
        elementsOf (allUnits elements) := by
      rw [← List.flatMap_append, List.take_append_drop, helements, hmap]
    refine ⟨((units.take k).flatMap fun u => u.elements).flatMap (block elements rawId),
      ((units.drop k).flatMap fun u => u.elements).flatMap (block elements rawId), ?_, ?_, ?_, ?_⟩
    · rw [helements]
      exact projectEntries_elementsOf hscan htake
    · rw [helements]
      exact projectEntries_elementsOf hscan hdrop
    · rw [hall, ← List.flatMap_append, hall]
      exact projectEntries_elementsOf hscan (List.Sublist.refl _)
    · rw [← List.flatMap_append, hall, flatMap_block hscan]
      exact projectEntries_of_scanned hscan
  · intro a m b heq
    obtain ⟨u, hu, hel⟩ := unit_of_assistant hdistinct heq
    obtain ⟨p, hp, rfl⟩ := hunit u hu
    refine ⟨p, hp, hel, fun r hr hi => ?_⟩
    exact (allUnits_spec elements _ hu).answered hscan (by simp [hel]) hr hi
  · intro r hr
    obtain ⟨e, he, hi⟩ := List.mem_flatMap.1 (hscan.answers_call hr)
    cases e with
    | assistantMessage m => exact ⟨m, he, hi⟩
    | _ => simp [callsOf] at hi
  · intro p hp
    have hu : p.toRunUnit ∈ allUnits elements := hmap ▸ List.mem_map_of_mem hp
    obtain ⟨hrun, hbinary⟩ := run_allUnits hscan hu
    refine ⟨hrun, ?_⟩
    rw [hprotected p hp, looseEq_run hbinary]

end

/-- An input, its answer and a trailing input of one run are two units, the last of which is frozen. -/
theorem compaction_units_partition_trailing :
    let input := Element.userMessage ⟨str "r", str "c1", str "hi"⟩
    let answer := Element.assistantMessage ⟨str "r", .int 1, str "hello", some []⟩
    let trailing := Element.userMessage ⟨str "r", str "c2", str "more"⟩
    let units : List CompactionUnit :=
      [⟨⟨.assistantGroup, str "r", [input, answer], true⟩, false⟩, ⟨⟨.inputs, str "r", [trailing], true⟩, true⟩]
    compactionUnits [input, answer, trailing] nil [str "r"] [(Source.sessionCommand (str "r") (str "c2")).toTerm] =
        .ok units ∧
      (units.flatMap fun u => u.elements).Perm [input, answer, trailing] := by
  intro input answer trailing units
  have h : compactionUnits [input, answer, trailing] nil [str "r"]
      [(Source.sessionCommand (str "r") (str "c2")).toTerm] = .ok units := rfl
  exact ⟨h, (compaction_units_partition h).1⟩

end Loopex.Runtime.Conversation
