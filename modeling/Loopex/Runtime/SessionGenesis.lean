import Loopex.Runtime.SessionConfiguration

/-!
# Session genesis

The first record of a session, `SessionGenesis.normalize`, with the artifact binding derived from its
tools (`ArtifactReadCapabilities`) and the authored creation options it may carry
(`CreationOptions.reconstruct`).  `normalizeCreationGenesis` is what the creation transactions ask of it.

* `normalizeCreationGenesis_loose` — a genesis `==` to its normal form is its normal form;
* `normalizeCreationGenesis_spec` — a normalized genesis is a valid record within the byte ceiling.
-/

namespace Loopex.Runtime

open Loopex.Erlang Loopex.Erlang.Term Loopex.Store

/-! ## artifact retrieval -/

namespace ArtifactReadCapabilities

/-- The generation of the shipped read tool. -/
def range : Term × Term × Term :=
  (str "loopex.read", str "1.1.0",
    str "49a166620b21ea1a517d972afa9605fae0cb768e54427784ae6a9dfaadfea009")

/-- `@table`, as a partial function. -/
def table (generation : Term × Term × Term) : Option Term :=
  if generation = range then
    some (mapOf [(str "revision", str "loopex.artifact_read.v1"), (str "tool_id", range.1),
      (str "tool_version", range.2.1), (str "definition_digest", range.2.2)])
  else none

/-- `resolve`: the binding of the one selected read tool, or `nil` without one. -/
def resolve (definitions : Term) : Option Term :=
  match definitions with
  | .list ds =>
    if SessionConfiguration.admitted definitions && ds.all ToolDefinition.valid then
      match ds.filter fun d => get d "tool_id" = str "loopex.read" with
      | [] => some nil
      | [d] => (ToolDefinition.generation d).bind table
      | _ => none
    else none
  | _ => none

end ArtifactReadCapabilities

/-! ## the genesis -/

namespace SessionGenesis

/-- The name binding of one definition. -/
def nameBinding (definition : Term) : Option (Term × Term) := do
  let (id, version, digest) ← ToolDefinition.generation definition
  some (get definition "name", mapOf [(str "tool_id", id), (str "tool_version", version),
    (str "definition_digest", digest)])

/-- `valid_names?` -/
def validNames (definitions : List Term) (names : Term) : Bool :=
  definitions.all ToolDefinition.valid &&
    match definitions.mapM nameBinding with
    | some bindings =>
      let expected := entriesOf bindings
      definitions.length = expected.length && looseEq names (.map expected) &&
        decide ((definitions.map fun d => get d "tool_id").Nodup)
    | none => false

/-- The members of a genesis. -/
def genesisKeys : List Term :=
  [sym "kind", str "options", str "runtime_configuration", str "initial_configuration",
    str "tool_selection", str "policy_defer_mode"]

/-- `validate` -/
def validate (payload : Term) : Bool :=
  let runtime := get payload "runtime_configuration"
  let configuration := get payload "initial_configuration"
  let selection := get payload "tool_selection"
  closedBy payload genesisKeys &&
    (match payload with
      | .map kvs => lookup (sym "kind") kvs = some (str "session_genesis_v3")
      | _ => false) &&
    isMap (get payload "options") && closed runtime ["cleanup_grace_ms"] &&
    positive (get runtime "cleanup_grace_ms") &&
    closed selection ["definitions", "names", "artifact_read"] && isMap (get selection "names") &&
    ToolDefinition.among (get payload "policy_defer_mode") ["admit", "refuse"] &&
    match get selection "definitions" with
    | .list definitions =>
      validNames definitions (get selection "names") &&
        ArtifactReadCapabilities.resolve (.list definitions) = some (get selection "artifact_read") &&
        SessionConfiguration.validate configuration (.list definitions)
    | _ => false

/-- `normalize` -/
def normalize (payload : Term) : Except Reason Term :=
  match normalizeAndMeasureItem .record payload with
  | .ok (normalized, bytes) =>
    if validate normalized then
      if bytes ≤ maxItemBytes then .ok normalized else .error .sessionConfigurationTooLarge
    else .error .invalidSessionGenesis
  | .error _ => .error .invalidSessionGenesis

theorem normalize_eq_ok {payload n : Term} (h : normalize payload = .ok n) :
    normalizeMeasuredRoot .record payload = .ok n ∧ externalSize n ≤ maxItemBytes ∧ validate n = true := by
  unfold normalize normalizeAndMeasureItem at h
  cases hn : normalizeMeasuredRoot .record payload with
  | error e => rw [hn] at h; cases h
  | ok n' =>
    rw [hn] at h
    simp only [bind, Except.bind] at h
    split at h
    · split at h
      · cases h
        exact ⟨rfl, ‹_›, ‹_›⟩
      · cases h
    · cases h

end SessionGenesis

/-! ## creation options -/

namespace CreationOptions

/-- Authored options with the complete capture of their instructions, `nil` without any. -/
structure Capture where
  options : Term
  instructions : Term
  deriving DecidableEq

/-- `tool_name?` -/
def toolName : Term → Bool
  | .binary b => b.length ≤ 64 && isWord b
  | _ => false

/-- `validate_tools` -/
def validTools (options : Term) : Bool :=
  match fetch options "tools" with
  | none => true
  | some (.list tools) => tools.length ≤ 1024 && tools.all toolName && decide tools.Nodup
  | some _ => false

/-- `normalize_configuration` -/
def normalizeConfiguration (options : Term) : Option (Term × Term) :=
  match fetch options "configuration" with
  | none => some (options, nil)
  | some configuration =>
    if isPlainMap configuration then
      match fetch configuration "instructions" with
      | none => if SessionConfiguration.validateUpdate configuration then some (options, nil) else none
      | some raw => do
        let instructions ← Instructions.capture raw
        if SessionConfiguration.validateUpdate (put configuration "instructions" instructions) then
          let descriptor := take instructions ["version", "digest"]
          some (put options "configuration" (put configuration "instructions" descriptor), instructions)
        else none
    else none

/-- `normalize` -/
def normalize (options : Term) : Option Capture :=
  if isPlainMap options && (1 ≤ (keys options).length && (keys options).length ≤ 3) &&
      get options "version" = .int 1 && onlyKeys options ["version", "configuration", "tools"] &&
      SessionConfiguration.admitted options && validTools options then
    (normalizeConfiguration options).map fun p => ⟨p.1, p.2⟩
  else none

/-- `authored_input` -/
def authoredInput (capture : Capture) : Option Term :=
  if isPlainMap capture.options then
    let configuration := get capture.options "configuration"
    if isMap configuration && (fetch configuration "instructions").isSome then
      if Instructions.validate capture.instructions &&
          looseEq (get configuration "instructions") (take capture.instructions ["version", "digest"]) then
        let raw := take capture.instructions ["version", "base", "environment", "appendix"]
        some (put capture.options "configuration" (put configuration "instructions" raw))
      else none
    else if capture.instructions = nil then some capture.options
    else none
  else none

/-- `changes` -/
def changes (capture : Capture) : Option Term := do
  let input ← authoredInput capture
  if normalize input = some capture then
    let configuration := get capture.options "configuration"
    some (if capture.instructions = nil then configuration
      else put configuration "instructions" capture.instructions)
  else none

/-- `retained_instructions` -/
def retainedInstructions (options configuration : Term) : Term :=
  if isMap (get options "configuration") && (fetch (get options "configuration") "instructions").isSome then
    get configuration "instructions"
  else nil

/-- `retained_changes_match?` -/
def retainedChangesMatch (capture : Capture) (configuration : Term) : Bool :=
  match changes capture with
  | some (.map kvs) => kvs.all fun e =>
      if e.1 = str "model" then true
      else match e.1 with
        | .binary key =>
          let retained := match configuration with
            | .map cs => (lookup (.binary key) cs).getD nil
            | _ => nil
          let explicit := match get configuration "budget_origins" with
            | .map os => lookup (.binary key) os = some (str "explicit")
            | _ => false
          looseEq retained e.2 &&
            (explicit || (e.1 ≠ str "context_token_budget" && e.1 ≠ str "system_class_tokens"))
        | _ => false
  | some t => t = nil
  | none => false

/-- `selected_names_match?` -/
def selectedNamesMatch (options definitions : Term) : Bool :=
  match fetch options "tools" with
  | none => true
  | some names => match definitions with
    | .list ds => looseEq names (.list (ds.map fun d => get d "name"))
    | _ => false

/-- `reconstruct`: the authored capture of a genesis, recomputed from what it retains. -/
def reconstruct (genesis : Term) : Except Reason Capture :=
  match SessionGenesis.normalize genesis with
  | .error .sessionConfigurationTooLarge => .error .sessionConfigurationTooLarge
  | .error _ => .error .invalidSessionCreation
  | .ok retained =>
    let options := get retained "options"
    let configuration := get retained "initial_configuration"
    if get configuration "configuration_version" = .int 1 then
      match (authoredInput ⟨options, retainedInstructions options configuration⟩).bind normalize with
      | some capture =>
        if looseEq capture.options options && retainedChangesMatch capture configuration &&
            selectedNamesMatch options (get (get retained "tool_selection") "definitions") then
          .ok capture
        else .error .invalidSessionCreation
      | none => .error .invalidSessionCreation
    else .error .invalidSessionCreation

end CreationOptions

/-! ## what a creation transaction asks of its genesis -/

/-- `validate_creation_capture`: native options carry no version and need no reconstruction. -/
def validateCreationCapture (genesis : Term) : Except Reason Unit :=
  match fetch genesis "options" with
  | some options =>
    if (fetch options "version").isSome then
      match CreationOptions.reconstruct genesis with
      | .ok _ => .ok ()
      | .error _ => .error .invalidSessionCreation
    else .ok ()
  | none => .ok ()

/-- `normalize_creation_genesis` -/
def normalizeCreationGenesis (genesis : Term) : Except Reason Term := do
  let normalized ← SessionGenesis.normalize genesis
  validateCreationCapture normalized
  .ok normalized

theorem normalizeCreationGenesis_spec {genesis n : Term} (h : normalizeCreationGenesis genesis = .ok n) :
    normalizeMeasuredRoot .record genesis = .ok n ∧ externalSize n ≤ maxItemBytes := by
  obtain ⟨n', hn, h⟩ := Except.bind_eq_ok.1 h
  obtain ⟨-, -, h⟩ := Except.bind_eq_ok.1 h
  cases h
  obtain ⟨h1, h2, -⟩ := SessionGenesis.normalize_eq_ok hn
  exact ⟨h1, h2⟩

/-- **A genesis that is `==` to its normal form is its normal form.** -/
theorem normalizeCreationGenesis_loose {genesis n : Term} (h : normalizeCreationGenesis genesis = .ok n)
    (hl : looseEq n genesis = true) : n = genesis :=
  normalizeMeasuredRoot_loose (normalizeCreationGenesis_spec h).1 (looseEq_iff.1 hl)

theorem normalizeCreationGenesis_validateItem {genesis : Term}
    (h : normalizeCreationGenesis genesis = .ok genesis) : validateItem .record genesis = .ok () :=
  validateItem_eq_ok.2 (normalizeCreationGenesis_spec h)

end Loopex.Runtime
