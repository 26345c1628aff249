import Loopex.Erlang.Utf8
import Loopex.Protocol.Canonical
import Loopex.Store.Item

/-!
# Tool definitions

What makes a term a tool definition (`ToolDefinition.valid`): nine closed fields, a parameter schema in the
subset the kernel evaluates, and the one interaction definition that carries a tenth field.  A definition's
`generation` names its exact bytes.

* `order_measured` — normalized data has a canonical order.
-/

namespace Loopex.Runtime

open Loopex.Erlang Loopex.Erlang.Term Loopex.Store

/-! ## reading plain data -/

/-- `Map.fetch(t, key)` with a binary key. -/
def fetch (t : Term) (key : String) : Option Term :=
  match t with
  | .map kvs => lookup (str key) kvs
  | _ => none

/-- `t[key]`: `nil` where the key is absent. -/
def get (t : Term) (key : String) : Term := (fetch t key).getD nil

/-- `t[key]` of any term, where `structGet` is what the module of a struct answers. -/
def access (structGet : Bytes → Term → Term → Check Unit Term) : Term → Term → Check Unit Term
  | .map kvs, key =>
    match lookup (sym "__struct__") kvs with
    | some (.atom name) => structGet name (.map kvs) key
    | _ => .ok ((lookup key kvs).getD nil)
  | .atom name, _ => if name = utf8 "nil" then .ok nil else .raise .functionClause
  | .list _, _ | .improper _ _, _ => .raise .badArgument
  | _, _ => .raise .functionClause

def keys : Term → List Term
  | .map kvs => kvs.map Prod.fst
  | _ => []

def isMap : Term → Bool
  | .map _ => true
  | _ => false

/-- `is_map(t) and not is_struct(t)`. -/
def isPlainMap : Term → Bool
  | .map kvs => !isStruct kvs
  | _ => false

def isBinary : Term → Bool
  | .binary _ => true
  | _ => false

def isBoolean (t : Term) : Bool := t = sym "true" || t = sym "false"

/-- The map has exactly these keys. -/
def closedBy (t : Term) (names : List Term) : Bool :=
  match t with
  | .map kvs => kvs.length = names.length && names.all fun k => hasKey k kvs
  | _ => false

/-- `closed?`: exactly these binary keys. -/
def closed (t : Term) (names : List String) : Bool := closedBy t (names.map str)

/-- `Map.keys(t) -- names == []`. -/
def onlyKeys (t : Term) (names : List String) : Bool := (keys t).all fun k => k ∈ names.map str

/-- A map from its entries. -/
def mapOf (kvs : List (Term × Term)) : Term := .map (entriesOf kvs)

/-- `Map.take`. -/
def take (t : Term) (names : List String) : Term :=
  match t with
  | .map kvs => .map (kvs.filter fun e => e.1 ∈ names.map str)
  | t => t

/-- `Map.put`. -/
def put (t : Term) (key : String) (v : Term) : Term :=
  match t with
  | .map kvs => .map (putEntry (str key) v kvs)
  | t => t

def uint64Max : ℕ := 18446744073709551615

/-- `positive?`. -/
def positive : Term → Bool
  | .int n => 1 ≤ n && n ≤ uint64Max
  | _ => false

/-! ## text -/

def isDigit (c : UInt8) : Bool := 48 ≤ c.toNat && c.toNat ≤ 57
def isLower (c : UInt8) : Bool := 97 ≤ c.toNat && c.toNat ≤ 122
def isUpper (c : UInt8) : Bool := 65 ≤ c.toNat && c.toNat ≤ 90

/-- `[a-z][a-z0-9_]*` -/
def isWord : Bytes → Bool
  | [] => false
  | c :: cs => isLower c && cs.all fun c => isLower c || isDigit c || c = 95

/-- What an unanchored `$` accepts: the end, or the end but for one newline. -/
def upToNewline (p : Bytes → Bool) (b : Bytes) : Bool :=
  p b || (b.getLast? = some 10 && p b.dropLast)

/-- `Bounds.estimate`. -/
def estimate (b : Bytes) : ℕ := (b.length + 2) / 3

/-! ## canonical bytes -/

section Canonical

open Protocol.Canonical (order order_list order_map)

theorem exists_forall₂ {α β : Type} (R : α → β → Prop) (xs : List α) (h : ∀ x ∈ xs, ∃ y, R x y) :
    ∃ ys, List.Forall₂ R xs ys := by
  induction xs with
  | nil => exact ⟨[], .nil⟩
  | cons x xs ih =>
    obtain ⟨y, hy⟩ := h x List.mem_cons_self
    obtain ⟨ys, hys⟩ := ih fun z hz => h z (List.mem_cons_of_mem x hz)
    exact ⟨y :: ys, .cons hy hys⟩

theorem isStruct_members {plane : Plane} {depth : ℕ} {kvs ms : List (Term × Term)}
    (h : Members plane depth kvs ms) : Protocol.Canonical.isStruct (entriesOf ms) = false := by
  refine List.any_eq_false.2 fun e he => ?_
  obtain ⟨b, hb⟩ := h.binary (h.perm.mem_iff.1 he)
  simp [hb, sym]

/-- The canonical order is defined on normalized data. -/
theorem order_measured {plane : Plane} {x y : Term} {depth : ℕ}
    (h : measuredValue plane x depth = .ok y) : ∃ z, order y = some z := by
  induction x using Term.ind generalizing depth y with
  | list xs ih =>
    obtain ⟨ys, hys, rfl⟩ := measuredValue_list h
    obtain ⟨zs, hzs⟩ := exists_forall₂ (fun y z => order y = some z) ys fun y hy => by
      obtain ⟨i, hi, rfl⟩ := List.getElem_of_mem hy
      have hi' : i < xs.length := by rw [hys.length_eq]; exact hi
      exact ih _ (List.getElem_mem hi') ((List.forall₂_iff_get.1 hys).2 i hi' hi)
    exact ⟨_, order_list.2 ⟨zs, rfl, hzs⟩⟩
  | map kvs ih =>
    obtain ⟨ms, hms, rfl⟩ := measuredValue_map h
    obtain ⟨es, hes⟩ := exists_forall₂
      (fun (m p : Term × Term) => order m.1 = some p.1 ∧ order m.2 = some p.2) (entriesOf ms) fun m hm => by
        have hm := hms.perm.mem_iff.1 hm
        obtain ⟨b, hb⟩ := hms.binary hm
        obtain ⟨e, he, -, hv⟩ := hms.mem hm
        obtain ⟨v, hv⟩ := (ih e he).2 hv
        exact ⟨(.binary b, v), by rw [hb, order], hv⟩
    exact ⟨_, order_map.2 ⟨isStruct_members hms, es, rfl, hes⟩⟩
  | atom name => simp only [measuredValue] at h; (repeat' split at h) <;> cases h; exact ⟨_, by rw [order]⟩
  | int n => simp only [measuredValue] at h; split at h <;> cases h; exact ⟨_, by rw [order]⟩
  | float x => simp only [measuredValue] at h; split at h <;> cases h; exact ⟨_, by rw [order]⟩
  | binary b => simp only [measuredValue] at h; split at h <;> cases h; exact ⟨_, by rw [order]⟩
  | improper xs t _ _ =>
    rw [measuredValue] at h
    split at h
    · cases h
    · obtain ⟨-, -, h⟩ := Except.bind_eq_ok.1 h
      cases h
  | bitstring b n => simp only [measuredValue] at h; split at h <;> cases h
  | tuple xs _ => simp only [measuredValue] at h; split at h <;> cases h
  | handle k n => simp only [measuredValue] at h; split at h <;> cases h

end Canonical

/-! ## tool definitions -/

namespace ToolDefinition

def fields : List String :=
  ["tool_id", "tool_version", "name", "description", "parameter_schema", "result_shape",
    "effect_class", "idempotency_class", "budgets"]

def effectClasses : List String := ["read_only", "workspace_write", "process", "external_effect"]
def idempotencyClasses : List String := ["safe_retry", "reconcile_then_retry", "never_blind_retry"]
def budgetFields : List String := ["wall_time_ms", "output_bytes", "artifact_bytes"]
def propertyTypes : List String := ["string", "integer", "number", "boolean", "array"]
def scalarItemTypes : List String := ["string", "integer", "number", "boolean"]

/-- `@question_definition`. -/
def question : Term :=
  mapOf [
    (str "tool_id", str "loopex.ask"), (str "tool_version", str "1.0.0"), (str "name", str "ask"),
    (str "class", str "interaction"), (str "description", str "Ask the operator a question."),
    (str "parameter_schema", mapOf [
      (str "type", str "object"),
      (str "properties", mapOf [
        (str "question", mapOf [
          (str "type", str "string"), (str "description", str "At most 2048 bytes.")]),
        (str "choices", mapOf [
          (str "type", str "array"), (str "items", mapOf [(str "type", str "string")]),
          (str "description", str "1-8 distinct labels, 256 bytes each.")])]),
      (str "required", .list [str "question"])]),
    (str "result_shape", mapOf [
      (str "content_type", str "json"),
      (str "description", str "The operator's answer, decline or expiry disposition.")]),
    (str "effect_class", str "read_only"), (str "idempotency_class", str "never_blind_retry"),
    (str "budgets", mapOf [
      (str "wall_time_ms", .int 600000), (str "output_bytes", .int 16384),
      (str "artifact_bytes", .int 0)])]

/-- `value in permitted`. -/
def among (t : Term) (permitted : List String) : Bool := t ∈ permitted.map str

/-- `@tool_id_pattern` -/
def toolIdPattern : Bytes → Bool := upToNewline fun b => (b.splitOn 46).all isWord

/-- `@version_pattern` -/
def versionPattern : Bytes → Bool := upToNewline fun b =>
  (b.splitOn 46).length = 3 && (b.splitOn 46).all fun s => s ≠ [] && s.all isDigit

/-- `@name_pattern` -/
def namePattern : Bytes → Bool := upToNewline fun b => b.length ≤ 64 && isWord b

/-- `enum_reasons`, empty. -/
def validEnum (t : Term) : Bool :=
  match t with
  | .list xs => xs ≠ [] && xs.all isBinary
  | t => t = nil

/-- `items_reasons`, empty. -/
def validItems (type items : Term) : Bool :=
  if type = str "array" then
    isPlainMap items && onlyKeys items ["type"] && among (get items "type") scalarItemTypes
  else items = nil

/-- `property_reasons`, empty. -/
def validProperty (name property : Term) : Bool :=
  isBinary name && isPlainMap property && onlyKeys property ["type", "description", "enum", "items"] &&
    among (get property "type") propertyTypes &&
    isBinary ((fetch property "description").getD (str "")) &&
    validEnum (get property "enum") && validItems (get property "type") (get property "items")

/-- `schema_reasons`, empty. -/
def validSchema (schema : Term) : Bool :=
  isPlainMap schema && onlyKeys schema ["type", "properties", "required"] &&
    get schema "type" = str "object" && isPlainMap (get schema "properties") &&
    match (fetch schema "required").getD (.list []), get schema "properties" with
    | .list required, .map properties =>
      required.all isBinary && required.diff (properties.map Prod.fst) = [] &&
        properties.all fun e => validProperty e.1 e.2
    | _, _ => false

/-- `field_reasons("result_shape", _)`, empty. -/
def validResultShape (t : Term) : Bool :=
  isPlainMap t && onlyKeys t ["content_type", "description"] &&
    among (get t "content_type") ["text", "json"] && isBinary ((fetch t "description").getD (str ""))

/-- `field_reasons("budgets", _)`, empty: an absent amount may be spelled `nil`. -/
def validBudgets (t : Term) : Bool :=
  isPlainMap t && (budgetFields.all fun f => (fetch t f).isSome) && onlyKeys t budgetFields &&
    budgetFields.all fun f => match get t f with
      | .int n => 0 < n
      | v => v = nil

/-- `field_reasons`, empty. -/
def validField (field : String) (value : Term) : Bool :=
  match field with
  | "tool_id" => match value with
    | .binary b => b.length ≤ 128 && toolIdPattern b
    | _ => false
  | "tool_version" => match value with
    | .binary b => versionPattern b
    | _ => false
  | "name" => match value with
    | .binary b => namePattern b
    | _ => false
  | "description" => match value with
    | .binary b => b ≠ [] && b.length ≤ 4096
    | _ => false
  | "effect_class" => among value effectClasses
  | "idempotency_class" => among value idempotencyClasses
  | "result_shape" => validResultShape value
  | "budgets" => validBudgets value
  | "parameter_schema" => validSchema value
  | _ => false

def hasClass (t : Term) : Bool := (fetch t "class").isSome

def allowedFields (t : Term) : List String := if hasClass t then fields ++ ["class"] else fields

/-- `valid?`: `validate` has no reason against the definition. -/
def valid (t : Term) : Bool :=
  isPlainMap t && (keys t).all isBinary && (fields.all fun f => (fetch t f).isSome) &&
    onlyKeys t (allowedFields t) &&
    if hasClass t then looseEq t question else fields.all fun f => validField f (get t f)

/-- `canonical_bytes` of a valid definition; `none` where the source raises. -/
def canonicalBytes (t : Term) : Option Bytes :=
  if valid t then
    Protocol.Canonical.encode (mapOf [
      (str "definition_version",
        str (if hasClass t then "loopex.tool_definition.v2" else "loopex.tool_definition.v1")),
      (str "canonicalization_version", str "loopex.canonical.v1"),
      (str "definition", take t (allowedFields t))])
  else none

/-- `generation`: the identity of one definition. -/
def generation (t : Term) : Option (Term × Term × Term) := do
  let toolId ← fetch t "tool_id"
  let toolVersion ← fetch t "tool_version"
  let bytes ← canonicalBytes t
  some (toolId, toolVersion, .binary (Protocol.Canonical.digestBytes bytes))

/-- `model_facing`. -/
def modelFacing (t : Term) : Term := take t ["name", "description", "parameter_schema"]

example : valid question = true := by decide +kernel

end ToolDefinition

end Loopex.Runtime
