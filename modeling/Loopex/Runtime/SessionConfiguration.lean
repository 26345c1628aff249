import Loopex.Runtime.ToolDefinition

/-!
# Session configurations

The settings a session is created with: the host's instruction sections with the digest of their
rendering (`Instructions`), and the closed configuration that carries them with the resolved model facts
and the context and system ceilings (`SessionConfiguration.validate`).
-/

namespace Loopex.Runtime

open Loopex.Erlang Loopex.Erlang.Term Loopex.Store

/-! ## instructions -/

namespace Instructions

/-- The version pattern of an instruction capture. -/
def versionPattern : Bytes → Bool
  | [] => false
  | c :: cs =>
    let alnum := fun c => isUpper c || isLower c || isDigit c
    alnum c && cs.length ≤ 63 && cs.all fun c => alnum c || c = 46 || c = 95 || c = 45

/-- `valid_text?` -/
def validSection (t : Term) (minimum maximum : ℕ) : Bool :=
  match t with
  | .binary b => minimum ≤ b.length && b.length ≤ maximum && validText b
  | _ => false

/-- `valid_sections?` -/
def validSections (input : Term) : Bool :=
  (match get input "version" with
    | .binary b => versionPattern b
    | _ => false) &&
    validSection (get input "base") 1 32768 && validSection (get input "environment") 0 4096 &&
    validSection (get input "appendix") 0 16384

def bytesOf : Term → Bytes
  | .binary b => b
  | _ => []

/-- `render_sections` -/
def renderSections (input : Term) : Bytes :=
  let sections := ["base", "environment", "appendix"].map fun s => bytesOf (get input s)
  bytesOf (get input "version") ++ utf8 ": " ++
    (utf8 "\n\n").intercalate (sections.filter fun s => s ≠ [])

/-- `capture`: the sections with the digest of their rendering. -/
def capture (input : Term) : Option Term :=
  if closed input ["version", "base", "environment", "appendix"] && validSections input then
    some (put input "digest" (.binary (Protocol.Canonical.digestBytes (renderSections input))))
  else none

/-- `validate`: the capture of its own sections. -/
def validate (captured : Term) : Bool :=
  closed captured ["version", "base", "environment", "appendix", "digest"] &&
    match captured with
    | .map kvs =>
      (match capture (.map (deleteKey (str "digest") kvs)) with
        | some expected => looseEq captured expected
        | none => false)
    | _ => false

/-- `render` -/
def render (captured : Term) : Option Bytes :=
  if validate captured then some (renderSections captured) else none

end Instructions

/-! ## configurations -/

namespace SessionConfiguration

def configurationKeys : List String :=
  ["model", "reasoning", "configuration_version", "instructions", "max_tokens", "context_token_budget",
    "system_class_tokens", "budget_origins", "model_capabilities", "provider_mapping"]

def capabilityKeys : List String :=
  ["model", "context_window", "output_limit", "reasoning_levels", "source_revision", "source_digest"]

def mappingKeys : List String :=
  ["mapping_revision", "renderer_revision", "continuation_required",
    "canonical_terminal_tool_history", "thinking_disabled", "thinking"]

def levels : List String := ["default", "none", "low", "medium", "high"]

def mutable : List String :=
  ["model", "reasoning", "instructions", "max_tokens", "context_token_budget", "system_class_tokens"]

/-- `@generic`: the mapping of an unregistered model. -/
def generic : Term :=
  mapOf [
    (str "mapping_revision", str "loopex.unregistered.default.v1"),
    (str "renderer_revision", str "loopex.reqllm.canonical.v1"),
    (str "continuation_required", sym "false"),
    (str "canonical_terminal_tool_history", sym "false"),
    (str "thinking_disabled", sym "false"),
    (str "thinking", mapOf [(str "mode", str "omitted")])]

/-- `revision?` -/
def revision (t : Term) : Bool :=
  isText t && match t with
    | .binary b => b.length ≤ 128
    | _ => false

/-- `optional_limit?` -/
def optionalLimit (t : Term) : Bool := t = nil || positive t

/-- `levels?` -/
def validLevels : Term → Bool
  | .list xs => xs.length ≤ 5 && decide xs.Nodup && xs.all fun x => ToolDefinition.among x levels
  | _ => false

/-- `valid_capabilities?` -/
def validCapabilities (configuration : Term) : Bool :=
  let capabilities := get configuration "model_capabilities"
  closed capabilities capabilityKeys &&
    looseEq (get capabilities "model") (get configuration "model") &&
    optionalLimit (get capabilities "context_window") &&
    optionalLimit (get capabilities "output_limit") &&
    validLevels (get capabilities "reasoning_levels") &&
    revision (get capabilities "source_revision") && isDigest (get capabilities "source_digest")

/-- `valid_thinking?` -/
def validThinking (t : Term) : Bool :=
  isMap t &&
    if get t "mode" = str "omitted" ∨ get t "mode" = str "disabled" then closed t ["mode"]
    else if get t "mode" = str "manual" then closed t ["mode", "budget_tokens"] && positive (get t "budget_tokens")
    else get t "mode" = str "adaptive" && get t "display" = str "summarized" &&
      closed t ["mode", "effort", "display"] &&
      ToolDefinition.among (get t "effort") ["low", "medium", "high"]

/-- `valid_mapping?` -/
def validMapping (mapping : Term) : Bool :=
  closed mapping mappingKeys && revision (get mapping "mapping_revision") &&
    revision (get mapping "renderer_revision") && isBoolean (get mapping "continuation_required") &&
    isBoolean (get mapping "canonical_terminal_tool_history") &&
    isBoolean (get mapping "thinking_disabled") && validThinking (get mapping "thinking")

/-- The refusals of `Store.admit_bounded`, as one. -/
def admitted (t : Term) : Bool :=
  match admitBounded t with
  | .ok _ => true
  | .error _ => false

/-- `byte_size(Canonical.encode(t)) <= limit` -/
def encodedWithin (t : Term) (limit : ℕ) : Bool :=
  match Protocol.Canonical.encode t with
  | some b => b.length ≤ limit
  | none => false

/-- `validate_model_metadata` -/
def validModelMetadata (model capabilities mapping : Term) : Bool :=
  let configuration := mapOf [(str "model", model), (str "model_capabilities", capabilities),
    (str "provider_mapping", mapping)]
  admitted configuration && isText model && validCapabilities configuration && validMapping mapping &&
    encodedWithin (take configuration ["model_capabilities", "provider_mapping"]) 2048

/-- `valid_reasoning?` -/
def validReasoning (configuration : Term) : Bool :=
  let levels := get (get configuration "model_capabilities") "reasoning_levels"
  let reasoning := get configuration "reasoning"
  let mapping := get configuration "provider_mapping"
  let listed := match levels with
    | .list xs => decide (reasoning ∈ xs)
    | _ => false
  if levels = .list [] then reasoning = str "default" && looseEq mapping generic
  else if get mapping "mapping_revision" = get generic "mapping_revision" then
    reasoning = str "default" && listed && looseEq mapping generic
  else listed

/-- `valid_context_origin?` -/
def validContextOrigin (origin window reserve input : Term) : Bool :=
  if origin = str "explicit" then true
  else if origin = str "unknown_window" ∧ window = nil then input = .int 8192
  else if origin = str "model_window" then
    match window, reserve, input with
    | .int w, .int r, .int i => i = w - r
    | _, _, _ => false
  else false

/-- `valid_budgets?` -/
def validBudgets (configuration : Term) : Bool :=
  let capabilities := get configuration "model_capabilities"
  let origins := get configuration "budget_origins"
  let window := get capabilities "context_window"
  let output := get capabilities "output_limit"
  let reserve := get configuration "max_tokens"
  let input := get configuration "context_token_budget"
  closed origins ["context_token_budget", "system_class_tokens"] &&
    ToolDefinition.among (get origins "system_class_tokens") ["legacy_default", "explicit"] &&
    (get origins "system_class_tokens" ≠ str "legacy_default" ||
      get configuration "system_class_tokens" = .int 1000) &&
    (match output, reserve with
      | .int o, .int r => decide (r ≤ o)
      | o, _ => o = nil) &&
    (match window, reserve, input with
      | .int w, .int r, .int i => decide (w > r ∧ i ≤ w - r)
      | w, _, _ => w = nil) &&
    validContextOrigin (get origins "context_token_budget") window reserve input

/-- `system_cost` -/
def systemCost (text : Bytes) (definitions : List Term) : Option ℕ := do
  let system ← Protocol.Canonical.encode (mapOf [(str "role", str "system"), (str "content", .binary text)])
  let tools ← definitions.mapM fun d => Protocol.Canonical.encode (ToolDefinition.modelFacing d)
  some (estimate system + (tools.map estimate).sum)

/-- `a <= b`, for two integers. -/
def intLe : Term → Term → Bool
  | .int a, .int b => a ≤ b
  | _, _ => false

/-- `validate`: one complete resolved configuration against its immutable tools. -/
def validate (configuration definitions : Term) : Bool :=
  match definitions with
  | .list ds =>
    isMap configuration && admitted (.list [configuration, definitions]) &&
      closed configuration configurationKeys && isText (get configuration "model") &&
      ToolDefinition.among (get configuration "reasoning") levels &&
      positive (get configuration "configuration_version") && positive (get configuration "max_tokens") &&
      positive (get configuration "context_token_budget") &&
      positive (get configuration "system_class_tokens") &&
      intLe (get configuration "system_class_tokens") (get configuration "context_token_budget") &&
      Instructions.validate (get configuration "instructions") &&
      validModelMetadata (get configuration "model") (get configuration "model_capabilities")
        (get configuration "provider_mapping") &&
      validReasoning configuration && validBudgets configuration && ds.all ToolDefinition.valid &&
      (match Instructions.render (get configuration "instructions") with
        | some rendered => match systemCost rendered ds, get configuration "system_class_tokens" with
          | some cost, .int ceiling => decide ((cost : ℤ) < ceiling)
          | _, _ => false
        | none => false)
  | _ => false

/-- `validate_update`: the nonempty changes an operator may request. -/
def validateUpdate (changes : Term) : Bool :=
  isPlainMap changes && admitted changes && onlyKeys changes mutable &&
    match changes with
    | .map kvs => kvs ≠ [] && kvs.all fun e =>
        if e.1 = str "model" then isText e.2
        else if e.1 = str "reasoning" then ToolDefinition.among e.2 levels
        else if e.1 = str "instructions" then Instructions.validate e.2
        else positive e.2
    | _ => false

end SessionConfiguration

end Loopex.Runtime
