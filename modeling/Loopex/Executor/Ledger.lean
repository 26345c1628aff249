import Loopex.Executor.RestoreCodec

/-!
# The records of the receipt ledger

`decodeBytes` reads one captured record of the local executor's ledger: a generation, an admission
marker, a refusal before any effect, or an open effect.  It is a reader of its own, with its own
validators: the keys of a record are compared before any field is read.
-/

namespace Loopex.Executor.Ledger

open Loopex.Erlang Loopex.Erlang.Term Loopex.Store

/-- `{:ledger_unavailable, _}`. -/
inductive Unavailable where
  | recordTooLarge | malformedRecord
  deriving DecidableEq

def markerKind : Term := str "local_effect_admission_v1"
def refusalKind : Term := str "local_pre_effect_refusal_v1"
def openKind : Term := str "local_open_effect_v1"

def recordCeiling : ℕ := 65536

/-- The closed key set of a kind. -/
def kindKeys (kind : Term) : Option (List Term) :=
  if kind = generationKind then
    some [sym "ledger_kind", str "executor_epoch", str "executor_identity", str "generation_id", str "root_binding"]
  else if kind = markerKind then
    some [sym "ledger_kind", str "admission_nonce", str "attempt", str "canonical_request_digest",
      str "cleanup_grace_ms", str "job_id", str "operation_id"]
  else if kind = refusalKind then
    some [sym "ledger_kind", str "attempt", str "canonical_request_digest", str "job_id", str "operation_id",
      str "reason"]
  else if kind = openKind then
    some [sym "ledger_kind", str "canonical_request_digest", str "cleanup_grace_ms", str "executor_identity",
      str "job_id", str "origin_executor_epoch"]
  else none

def refusalCodes : List String :=
  ["cancelled_before_start", "workspace_lease_not_held", "workspace_lease_lost", "workspace_lease_mismatch",
    "executor_prestart_mismatch", "invalid_job_request", "canonical_job_request_mismatch",
    "tool_definition_mismatch", "host_policy_allow_required", "invalid_grant", "invalid_tool_arguments",
    "receipt_record_shape_too_large", "effective_deadline_reached", "effect_start_authority_unavailable",
    "missing_binding", "binding_mismatch"]

def bindingFields : List String :=
  ["operation_id", "attempt", "canonical_request_digest", "tool_id", "tool_version", "effect_class",
    "workspace_lease", "executor_audience", "expiry", "fencing_token"]

/-- `hex_digest?`. -/
def isHexDigest : Term → Bool := isDigest

def boundedIdentifier : Term → Bool
  | .binary b => 1 ≤ b.length && b.length ≤ 8192
  | _ => false

def uint64 : Term → Bool
  | .int n => 1 ≤ n && n ≤ (maxU64 : ℤ)
  | _ => false

/-- `valid_reason?`. -/
def validReason : Term → Bool
  | .map kvs =>
    match lookup (str "code") kvs, lookup (str "field") kvs with
    | some code, some field =>
      kvs.length = 2 && code ∈ refusalCodes.map str &&
        (field = nil || (code ∈ [str "missing_binding", str "binding_mismatch"] && field ∈ bindingFields.map str))
    | _, _ => false
  | _ => false

/-- `exact_keys?`: the sorted keys are the sorted key set of the kind. -/
def exactKindKeys (kvs : List (Term × Term)) : Bool :=
  match kindKeys ((lookup (sym "ledger_kind") kvs).getD nil) with
  | some keys => (kvs.map Prod.fst).isPerm keys
  | none => false

variable (R : Runtime)

/-- `valid_attempt_fields?`. -/
def validAttemptFields (record : Term) : Check Unit Unit := do
  Check.require (boundedIdentifier (← R.get record (str "job_id"))) ()
  Check.require (boundedIdentifier (← R.get record (str "operation_id"))) ()
  Check.require (isHexDigest (← R.get record (str "canonical_request_digest"))) ()
  match ← R.get record (str "attempt") with
  | .int attempt => Check.require (0 < attempt) ()
  | _ => .error ()

/-- `valid_record_fields?` of a generation. -/
def validGenerationFields (record : Term) : Check Unit Unit := do
  let epoch ← R.get record (str "executor_epoch")
  match ← R.get record (str "executor_identity") with
  | .binary identity => do
    Check.require (identity ≠ []) ()
    match epoch with
    | .int epoch => do
      Check.require (0 < epoch ∧ epoch ≤ epochMax) ()
      equal (← R.get record (str "generation_id")) (.binary (generationId epoch))
      Check.require (isHexDigest (← R.get record (str "root_binding"))) ()
    | _ => .error ()
  | _ => .error ()

def validMarkerFields (record : Term) : Check Unit Unit := do
  validAttemptFields R record
  Check.require (uint64 (← R.get record (str "cleanup_grace_ms"))) ()
  Check.require (isHexDigest (← R.get record (str "admission_nonce"))) ()

def validRefusalFields (record : Term) : Check Unit Unit := do
  validAttemptFields R record
  Check.require (validReason (← R.get record (str "reason"))) ()

def validOpenFields (record : Term) : Check Unit Unit := do
  let epoch ← R.get record (str "origin_executor_epoch")
  Check.require (boundedIdentifier (← R.get record (str "job_id"))) ()
  Check.require (isHexDigest (← R.get record (str "canonical_request_digest"))) ()
  Check.require (boundedIdentifier (← R.get record (str "executor_identity"))) ()
  match epoch with
  | .int epoch => do
    Check.require (0 ≤ epoch) ()
    Check.require (uint64 (← R.get record (str "cleanup_grace_ms"))) ()
  | _ => .error ()

/-- `valid_record_fields?`: the clause of the record's kind. -/
def validRecordFields (kvs : List (Term × Term)) : Check Unit Unit :=
  let kind := (lookup (sym "ledger_kind") kvs).getD nil
  if kind = generationKind then validGenerationFields R (.map kvs)
  else if kind = markerKind then validMarkerFields R (.map kvs)
  else if kind = refusalKind then validRefusalFields R (.map kvs)
  else if kind = openKind then validOpenFields R (.map kvs)
  else .raise .functionClause

/-- `validate_record`: the bytes of a record of these kinds. -/
def validateRecord (record : Term) (kinds : List Term) (ceiling : ℕ) : Check Unavailable Bytes :=
  match record with
  | .map kvs => Check.orError (do
      Check.require ((lookup (sym "ledger_kind") kvs).getD nil ∈ kinds) ()
      Check.require (exactKindKeys kvs) ()
      validRecordFields R kvs
      Check.require ((termToBinary record).length ≤ ceiling) ()
      .ok (termToBinary record)) .malformedRecord
  | _ => .error .malformedRecord

/-- `safe_decode`: a map that takes all the bytes. -/
def safeDecode (bytes : Bytes) (ceiling : ℕ) : Option Term :=
  match bytes with
  | 131 :: 116 :: _ =>
    if bytes.length ≤ ceiling then
      match R.binaryToTerm bytes with
      | some (record, used) => if used = bytes.length then some record else none
      | none => none
    else none
  | _ => none

/-- `decode_captured_record`. -/
def decodeCapturedRecord (bytes : Bytes) (kinds : List Term) (ceiling : ℕ) : Check Unavailable Term :=
  if bytes.length > ceiling then .error .recordTooLarge
  else match safeDecode R bytes ceiling with
    | some (.map kvs) => do
      let canonical ← validateRecord R (.map kvs) kinds ceiling
      Check.require (canonical = bytes) Unavailable.malformedRecord
      .ok (.map kvs)
    | _ => .error .malformedRecord

/-- `decode_bytes`. -/
def decodeBytes (bytes : Bytes) (kind : Term) : Check Unavailable Term :=
  if kind = generationKind then decodeCapturedRecord R bytes [generationKind] generationCeiling
  else if kind ∈ [markerKind, refusalKind, openKind] then decodeCapturedRecord R bytes [kind] recordCeiling
  else .error .malformedRecord

/-- `decode_marker_bytes`. -/
def decodeMarkerBytes (bytes : Bytes) : Check Unavailable Term :=
  decodeCapturedRecord R bytes [markerKind, refusalKind] recordCeiling

end Loopex.Executor.Ledger
