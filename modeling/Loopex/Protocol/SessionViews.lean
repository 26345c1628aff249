import Loopex.Protocol.Wire
import Loopex.Runtime.SessionConfiguration

/-!
# The public views of a session

What a session shows at one of its cursors: its configuration, checkpoint, maintenance, open question and last compact
completion.  Each view has a codec of its own, and the snapshot's codec relates them.  Only the direction from native
values to the wire is used here; `none` is the refusal of the codec.

* `Configuration`, `CheckpointOwner`, `Checkpoint`, `MaintenanceView` — the settings and the context's upkeep
* `ContextFailure`, `CompactResult` — how a compact command ended
* `OpenInteraction` — the question that waits for an answer
* `Snapshot` — all of them at one cursor
-/

namespace Loopex.Protocol.Session

open Loopex.Erlang Loopex.Erlang.Term Loopex.Runtime
open Loopex.Runtime.ToolDefinition (among)

/-! ## scalars -/

def u64 : ℤ := 18446744073709551615

/-- `text?`. -/
def text (value : Term) (maximum : ℕ) : Bool :=
  match value with
  | .binary b => 1 ≤ b.length && b.length ≤ maximum && validText b
  | _ => false

/-- `identity`. -/
def identity (value : Term) (maximum : ℕ) : Option Term :=
  match value with
  | .binary b => if 1 ≤ b.length ∧ b.length ≤ maximum then some (.binary (Wire.encodeIdentity b)) else none
  | _ => none

/-- `optional_identity`. -/
def optionalIdentity (value : Term) : Option Term := if value = nil then some nil else identity value 65536

/-- `quantity`. -/
def quantity (value : Term) (minimum : ℤ) (maximum : Option ℤ) : Option Term :=
  match value with
  | .int n => if minimum ≤ n ∧ maximum.all (n ≤ ·) then some (.binary (integerToString n)) else none
  | _ => none

/-- `quantities`: the members are converted in place. -/
def quantities (value : Term) (names : List String) (maximum : Option ℤ) : Option Term :=
  names.foldlM (fun converted name => (quantity (get value name) 0 maximum).map (put converted name)) value

/-- The integer of a native member, where `quantities` has accepted it. -/
def native (value : Term) (name : String) : ℤ :=
  match get value name with
  | .int n => n
  | _ => 0

/-- `Map.merge(value, _)`. -/
def merge (value : Term) (members : List (String × Term)) : Term := members.foldl (fun t e => put t e.1 e.2) value

/-- A map with these binary keys. -/
def mapWith (members : List (String × Term)) : Term := mapOf (members.map fun e => (str e.1, e.2))

/-- The usage of an episode, whose total is its two sources. -/
def usage (value : Term) : Option Term := do
  guard (closed value ["attempts", "reported_tokens", "estimated_tokens", "total_tokens"])
  let converted ← quantities value ["attempts", "reported_tokens", "estimated_tokens", "total_tokens"] none
  guard (native value "total_tokens" = native value "reported_tokens" + (native value "estimated_tokens"))
  some converted

/-! ## configurations -/

namespace Configuration

def viewKeys : List String :=
  ["configuration_version", "model", "reasoning", "max_tokens", "context_token_budget", "system_class_tokens",
    "instructions"]
def viewQuantities : List String :=
  ["configuration_version", "max_tokens", "context_token_budget", "system_class_tokens"]

/-- `instructions?`. -/
def instructions (value : Term) : Bool :=
  closed value ["version", "digest"] && isDigest (get value "digest") &&
    match get value "version" with
    | .binary b => Instructions.versionPattern b
    | _ => false

def encodeWire (value : Term) : Option Term := do
  guard (closed value viewKeys)
  guard (text (get value "model") 131072)
  guard (among (get value "reasoning") ["default", "none", "low", "medium", "high"])
  guard (instructions (get value "instructions"))
  viewQuantities.foldlM (fun result name =>
    (quantity (get value name) 1 (if name = "configuration_version" then none else some u64)).map (put result name))
    value

def encodeChange (value : Term) : Option Term := do
  guard (closed value ["command_id", "configuration"])
  let command ← identity (get value "command_id") 65536
  let configuration ← encodeWire (get value "configuration")
  some (mapWith [("command_id", command), ("configuration", configuration)])

end Configuration

/-! ## checkpoints -/

namespace CheckpointOwner

def encodeWire (value : Term) : Option Term := do
  guard (closed value ["kind", "id"] && among (get value "kind") ["run", "compact"])
  let id ← identity (get value "id") 65536
  some (mapWith [("kind", get value "kind"), ("id", id)])

end CheckpointOwner

namespace Checkpoint

def viewKeys : List String :=
  ["checkpoint_id", "episode_id", "covered_range", "prior_checkpoint_id", "strategy", "strategy_revision", "model",
    "reasoning", "configuration_version", "usage", "owner", "source_excerpted"]

/-- `reference`: one of the three kinds of conversation sources. -/
def reference (value : Term) : Option Term := do
  let kind := get value "kind"
  if kind = str "session_command" then
    guard (closed value ["kind", "run_id", "command_id"])
    let run ← identity (get value "run_id") 65536
    let command ← identity (get value "command_id") 65536
    some (mapWith [("kind", kind), ("run_id", run), ("command_id", command)])
  else if kind = str "session_assistant" then
    guard (closed value ["kind", "run_id", "turn"])
    let run ← identity (get value "run_id") 65536
    let turn ← quantity (get value "turn") 1 none
    some (merge value [("run_id", run), ("turn", turn)])
  else do
    guard (kind = str "session_tool_result" && closed value ["kind", "run_id", "turn", "call_id"])
    let run ← identity (get value "run_id") 65536
    let turn ← quantity (get value "turn") 1 none
    let call ← identity (get value "call_id") 65536
    some (merge value [("run_id", run), ("turn", turn), ("call_id", call)])

/-- `optional_reference`. -/
def optionalReference (value : Term) : Option Term := if value = nil then some nil else reference value

/-- `range`. -/
def range (value : Term) : Option Term := do
  guard (closed value ["unit_count", "record_count", "source_count", "first", "last", "first_kept", "digest"])
  guard (isDigest (get value "digest"))
  let units ← quantity (get value "unit_count") 1 none
  let records ← quantity (get value "record_count") 1 none
  let sources ← quantity (get value "source_count") 1 none
  guard (native value "unit_count" ≤ native value "source_count" &&
    native value "record_count" ≤ native value "source_count")
  let first ← reference (get value "first")
  let last ← reference (get value "last")
  let kept ← optionalReference (get value "first_kept")
  guard (first ≠ kept && last ≠ kept)
  some (merge value [("unit_count", units), ("record_count", records), ("source_count", sources), ("first", first),
    ("last", last), ("first_kept", kept)])

def encodeWire (value : Term) : Option Term := do
  guard (closed value viewKeys)
  guard (get value "strategy" = str "loopex.compaction.reference")
  guard (get value "strategy_revision" = .int 3)
  guard (get value "reasoning" = str "none")
  guard (isBoolean (get value "source_excerpted"))
  guard (text (get value "model") 131072)
  let checkpoint ← identity (get value "checkpoint_id") 65536
  let episode ← identity (get value "episode_id") 65536
  let prior ← optionalIdentity (get value "prior_checkpoint_id")
  guard (checkpoint ≠ prior)
  let owner ← CheckpointOwner.encodeWire (get value "owner")
  let version ← quantity (get value "configuration_version") 1 none
  let covered ← range (get value "covered_range")
  let used ← usage (get value "usage")
  some (merge value [("checkpoint_id", checkpoint), ("episode_id", episode), ("prior_checkpoint_id", prior),
    ("owner", owner), ("configuration_version", version), ("covered_range", covered), ("usage", used)])

end Checkpoint

/-! ## maintenance -/

namespace MaintenanceView

def viewKeys : List String := ["episode_id", "owner", "model", "reasoning", "configuration_version", "bounds"]

/-- `deadline`. -/
def deadline (value : Term) : Option Term := if value = nil then some nil else quantity value 0 (some u64)

/-- `bounds`. -/
def bounds (value kind : Term) : Option Term :=
  if kind = str "run" then do
    guard (closed value ["max_attempts", "max_turns", "token_budget", "deadline_ms", "run_deadline"])
    let attempts ← quantity (get value "max_attempts") 4 (some 4)
    let turns ← quantity (get value "max_turns") 1 none
    let tokens ← quantity (get value "token_budget") 1 none
    let duration ← quantity (get value "deadline_ms") 1 (some u64)
    let run ← deadline (get value "run_deadline")
    some (mapWith [("max_attempts", attempts), ("max_turns", turns), ("token_budget", tokens),
      ("deadline_ms", duration), ("run_deadline", run)])
  else do
    guard (closed value ["max_attempts", "deadline_ms", "token_budget"])
    let attempts ← quantity (get value "max_attempts") 1 (some 4)
    let duration ← quantity (get value "deadline_ms") 1 (some 60000)
    let tokens ← quantity (get value "token_budget") 1 (some 32768)
    some (mapWith [("max_attempts", attempts), ("deadline_ms", duration), ("token_budget", tokens)])

/-- `view`. -/
def view (value : Term) : Option Term :=
  if value = nil then some nil
  else do
    guard (closed value viewKeys)
    guard (text (get value "model") 131072)
    guard (get value "reasoning" = str "none")
    let episode ← identity (get value "episode_id") 65536
    let owner ← CheckpointOwner.encodeWire (get value "owner")
    let version ← quantity (get value "configuration_version") 1 none
    let bounded ← bounds (get value "bounds") (get owner "kind")
    some (merge value [("episode_id", episode), ("owner", owner), ("configuration_version", version),
      ("bounds", bounded)])

def encodeWire (value : Term) : Option Term := do
  guard (closed value ["active_maintenance"])
  let active ← view (get value "active_maintenance")
  some (mapWith [("active_maintenance", active)])

end MaintenanceView

/-! ## completions -/

namespace ContextFailure

def dimensions : List String :=
  ["system_class_tokens", "context_tokens", "context_record_bytes", "context_record_depth",
    "context_record_cardinality"]
def causes : List String :=
  ["maintenance_model_unconfigured", "maintenance_instructions_unconfigured", "maintenance_reasoning_unsupported",
    "compaction_excerpt_budget_too_small", "compaction_no_progress", "compaction_preparation_deadline",
    "maintenance_deadline_unrepresentable", "maintenance_summary_incomplete", "maintenance_summary_invalid",
    "maintenance_reply_reserve_unavailable", "canonical_history_rendering_unsupported", "artifact_read_unavailable",
    "artifact_metadata_unrepresentable", "artifact_preparation_count_exhausted",
    "artifact_preparation_bytes_exhausted", "artifact_preparation_deadline", "artifact_preparation_failed",
    "context_projection_invalid"]

/-- `numeric_failure?`. -/
def numericFailure (value : Term) : Bool :=
  let (observed, limit, hard) := (native value "observed", native value "limit", native value "hard_limit")
  if get value "category" = str "thinking_exchange_headroom" then
    among (get value "dimension") ["context_tokens", "context_record_bytes"] && limit ≤ hard && limit < observed
  else
    limit = hard && if get value "dimension" = str "system_class_tokens" then limit ≤ observed else limit < observed

/-- `project`. -/
def project (value : Term) : Option Term :=
  if get value "version" = .int 2 && among (get value "category")
      ["context_budget_exceeded", "thinking_exchange_headroom"] then do
    guard (closed value
      ["version", "category", "retryable", "measurement_scope", "dimension", "observed", "limit", "hard_limit"])
    guard (get value "retryable" = sym "false")
    guard (among (get value "measurement_scope") ["ordinary", "maintenance"])
    guard (among (get value "dimension") dimensions)
    let converted ← quantities value ["observed", "limit", "hard_limit"] (some u64)
    guard (0 < native value "limit" && 0 < native value "hard_limit")
    guard (get value "dimension" ≠ str "context_record_bytes" || native value "hard_limit" = 65536)
    guard (numericFailure value)
    some converted
  else if get value "version" = .int 2 && get value "category" = str "context_preparation_failed" then
    if closed value ["version", "category", "retryable", "measurement_scope", "cause"] &&
        get value "retryable" = sym "false" &&
        (get value "measurement_scope" = nil || get value "measurement_scope" = str "ordinary") &&
        among (get value "cause") causes then some value
    else none
  else none

end ContextFailure

namespace CompactResult

/-- `disposition?`. -/
def disposition (value checkpoint : Term) : Bool :=
  if get value "disposition" = str "failed" then get value "failure" ≠ nil
  else get value "failure" = nil && get value "cleanup" = str "confirmed" &&
    if get value "disposition" = str "checkpointed" then checkpoint ≠ nil else checkpoint = nil

/-- `failure`. -/
def failure (value : Term) : Option Term :=
  if value = nil then some nil
  else if among (get value "category") ["model_call_failed", "cancelled"] then
    if closed value ["category", "retryable"] && get value "retryable" = sym "false" then some value else none
  else if get value "category" = str "bound_reached" then do
    guard (closed value ["category", "retryable", "bound", "observed", "declared_limit", "accounting_source"])
    guard (get value "retryable" = sym "false")
    guard (among (get value "bound") ["max_attempts", "deadline_ms", "token_budget"])
    guard (get value "accounting_source" = nil || among (get value "accounting_source") ["reported", "estimated"])
    guard (get value "bound" ≠ str "max_attempts" || get value "accounting_source" = nil)
    let converted ← quantities value ["observed", "declared_limit"]
      (if get value "bound" = str "deadline_ms" then some u64 else none)
    guard (0 < native value "declared_limit")
    some converted
  else ContextFailure.project value

/-- `project`. -/
def project (value : Term) : Option Term := do
  guard (closed value ["disposition", "checkpoint_id", "failure", "usage", "cleanup"])
  guard (among (get value "disposition") ["checkpointed", "unchanged", "failed"])
  guard (among (get value "cleanup") ["confirmed", "unknown"])
  let checkpoint ← optionalIdentity (get value "checkpoint_id")
  guard (disposition value checkpoint)
  let failed ← failure (get value "failure")
  let used ← usage (get value "usage")
  some (merge value [("checkpoint_id", checkpoint), ("failure", failed), ("usage", used)])

def encodeCompletion (value : Term) : Option Term := do
  guard (closed value ["episode_id", "command_id", "result"])
  let episode ← identity (get value "episode_id") 65536
  let command ← identity (get value "command_id") 65536
  let result ← project (get value "result")
  some (mapWith [("episode_id", episode), ("command_id", command), ("result", result)])

end CompactResult

/-! ## questions -/

namespace OpenInteraction

def viewKeys : List String :=
  ["interaction_id", "run_id", "turn", "tool_call_id", "status", "prompt", "choices", "expires_at", "producer", "kind"]
def answeredKeys : List String := viewKeys ++ ["answer_choice_id", "answer_command_id"]
def eventKeys : List String :=
  ["interaction_id", "run_id", "turn", "tool_call_id", "producer", "interaction_kind", "status", "answer_choice_id",
    "answer_command_id"]

def encodeAnswerAdmitted (value : Term) : Option Term := do
  guard (closed value eventKeys)
  guard (get value "producer" = str "policy_defer")
  guard (get value "interaction_kind" = str "choice")
  guard (get value "status" = str "answered")
  let turn ← quantity (get value "turn") 1 none
  ["interaction_id", "run_id", "tool_call_id", "answer_choice_id", "answer_command_id"].foldlM (fun result name =>
    (identity (get value name) (if name = "answer_choice_id" then 64 else 65536)).map (put result name))
    (put value "turn" turn)

/-- `open_shape?`. -/
def openShape (value : Term) : Bool :=
  if get value "status" = str "pending" then closed value viewKeys
  else get value "status" = str "answered" && get value "producer" = str "policy_defer" &&
    get value "kind" = str "choice" && closed value answeredKeys

/-- One of the `choices`. -/
def choice (value : Term) : Option Term := do
  guard (closed value ["id", "label"])
  guard (text (get value "label") 256)
  let id ← identity (get value "id") 64
  some (mapWith [("id", id), ("label", get value "label")])

/-- `choices`. -/
def choices : Term → Option (List Term)
  | .list values => if values.length ≤ 8 then values.mapM choice else none
  | _ => none

/-- `choice-N`, on the wire. -/
def choiceId (index : ℕ) : Term := .binary (Wire.encodeIdentity (utf8 "choice-" ++ integerToString index))

/-- `valid_choices?`. -/
def validChoices (producer kind : Term) (choices : List Term) : Bool :=
  let distinct := decide (choices.map fun c => get c "id").Nodup
  if producer = str "model_tool" && kind = str "text" then choices = []
  else if kind = str "choice" && choices ≠ [] then
    if producer = str "model_tool" then
      distinct && decide (choices.map fun c => get c "label").Nodup &&
        choices.zipIdx.all fun (c, i) => get c "id" = choiceId (i + 1)
    else distinct
  else false

/-- `answer`. -/
def answer (value : Term) (choices : List Term) : Option (List (String × Term)) :=
  if get value "status" = str "pending" then some []
  else do
    let choice ← identity (get value "answer_choice_id") 64
    guard (choices.any fun c => get c "id" = choice)
    let command ← identity (get value "answer_command_id") 65536
    some [("answer_choice_id", choice), ("answer_command_id", command)]

def encodeWire (value : Term) : Option Term := do
  guard (openShape value)
  guard (among (get value "producer") ["model_tool", "policy_defer"])
  guard (among (get value "kind") ["choice", "text"])
  guard (text (get value "prompt") 2048)
  let interaction ← identity (get value "interaction_id") 65536
  let run ← identity (get value "run_id") 65536
  let call ← identity (get value "tool_call_id") 65536
  let turn ← quantity (get value "turn") 1 none
  let expiry ← quantity (get value "expires_at") 0 (some u64)
  let offered ← choices (get value "choices")
  guard (validChoices (get value "producer") (get value "kind") offered)
  let answered ← answer value offered
  some (merge (merge value [("interaction_id", interaction), ("run_id", run), ("tool_call_id", call), ("turn", turn),
    ("expires_at", expiry), ("choices", .list offered)]) answered)

end OpenInteraction

/-! ## snapshots -/

namespace Snapshot

/-- `@fields`: the native keys are the atoms of these names. -/
def fields : List String :=
  ["snapshot_revision", "session_id", "event_sequence", "active_run_id", "active_run_phase", "configuration",
    "checkpoint", "active_maintenance", "open_interaction", "last_compact"]

/-- `cursor`. -/
def cursor (value : Term) : Option Term := quantity value 0 (some u64)

/-- `integer`: the quantity of a converted member. -/
def integer : Term → ℤ
  | .binary b => ((integerParse 10 b).map Prod.fst).getD 0
  | _ => 0

/-- A view that may be absent. -/
def optional (codec : Term → Option Term) (value : Term) : Option Term := if value = nil then some nil else codec value

/-- `maintenance`. -/
def maintenance (value : Term) : Option Term :=
  (MaintenanceView.encodeWire (mapWith [("active_maintenance", value)])).map fun projected =>
    get projected "active_maintenance"

/-- `consistent?`: how the views of one cursor are related. -/
def consistent (value : Term) : Bool :=
  let run := get value "active_run_id"
  let maintenance := get value "active_maintenance"
  let question := get value "open_interaction"
  let checkpoint := get value "checkpoint"
  let version := integer (get (get value "configuration") "configuration_version")
  let owner := get maintenance "owner"
  let runPhase := decide (run = nil ↔ get value "active_run_phase" = nil)
  let questionOwner := question = nil || (run ≠ nil && maintenance = nil && get question "run_id" = run)
  let maintenanceOwner := maintenance = nil ||
    if get owner "kind" = str "run" then get owner "id" = run else run = nil
  let maintenanceVersion := maintenance = nil || integer (get maintenance "configuration_version") = version
  let checkpointVersion := checkpoint = nil || integer (get checkpoint "configuration_version") ≤ version
  let initialCursor := integer (get value "event_sequence") ≠ 0 ||
    ["active_run_id", "checkpoint", "active_maintenance", "open_interaction", "last_compact"].all fun name =>
      get value name = nil
  runPhase && questionOwner && maintenanceOwner && maintenanceVersion && checkpointVersion && initialCursor

/-- `project`. -/
def project (value : Term) : Option Term := do
  guard (closed value fields)
  guard (get value "snapshot_revision" = .int 3)
  guard (get value "active_run_phase" = nil || among (get value "active_run_phase") ["admitted_unstaged", "started"])
  let session ← identity (get value "session_id") 256
  let sequence ← cursor (get value "event_sequence")
  let run ← optionalIdentity (get value "active_run_id")
  let configuration ← Configuration.encodeWire (get value "configuration")
  let checkpoint ← optional Checkpoint.encodeWire (get value "checkpoint")
  let interaction ← optional OpenInteraction.encodeWire (get value "open_interaction")
  let active ← maintenance (get value "active_maintenance")
  let compact ← optional CompactResult.encodeCompletion (get value "last_compact")
  let converted := merge value [("session_id", session), ("event_sequence", sequence), ("active_run_id", run),
    ("configuration", configuration), ("checkpoint", checkpoint), ("open_interaction", interaction),
    ("active_maintenance", active), ("last_compact", compact)]
  guard (consistent converted)
  some converted

def encodeWire (value : Term) : Option Term :=
  match value with
  | .map kvs =>
    if closedBy value (fields.map sym) then
      project (mapWith (fields.map fun name => (name, (Store.lookup (sym name) kvs).getD nil)))
    else none
  | _ => none

end Snapshot

end Loopex.Protocol.Session
