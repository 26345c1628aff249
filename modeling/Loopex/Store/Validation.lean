import Loopex.Store.Transaction

/-!
# Validation

A transaction is presented as a map of any terms.  `validateTransaction` reads it into a `Transaction`,
refuses it, or raises where the source calls a built-in on a term of the wrong type; `immutableBinding`
does the same without recomputing the canonical bytes.
-/

namespace Loopex.Store

open Loopex.Erlang Loopex.Erlang.Term Loopex.Runtime

/-! ## reading fields -/

namespace Fields

/-- `Map.fetch` on the fields as a map. -/
def get (fs : Fields) (name : String) : Option Term := (fs.find? fun f => f.1 = name).map Prod.snd

/-- `fetch_identifier`. -/
def fetchIdentifier (fs : Fields) (name : String) : Except Reason Identifier :=
  match fs.get name with
  | some v => validateIdentifier v
  | none => .error (.missingField name)

/-- `non_negative`. -/
def nonNegative (fs : Fields) (name : String) : Except Reason ℕ :=
  match fs.get name with
  | some (.int n) => if 0 ≤ n then .ok n.toNat else .error (.invalidField name)
  | _ => .error (.invalidField name)

/-- `creation_identifier?`. -/
def identifier (fs : Fields) (name : String) : Option Identifier :=
  (fs.get name).bind fun v => (validateIdentifier v).toOption

/-- `creation_counter?`. -/
def counter (fs : Fields) (name : String) : Option {n : ℕ // n ≤ creationUint64} :=
  match fs.get name with
  | some (.int n) => if h : 0 ≤ n ∧ n.toNat ≤ creationUint64 then some ⟨n.toNat, h.2⟩ else none
  | _ => none

/-- `creation_selection?`. -/
def selection (fs : Fields) (name : String) : Option Selection :=
  match fs.get name with
  | some (.binary b) => if h : b.length = 64 ∧ b.all isHex = true then some ⟨b, h.1, h.2⟩ else none
  | _ => none

def binary (fs : Fields) (name : String) : Option Bytes :=
  match fs.get name with
  | some (.binary b) => some b
  | _ => none

end Fields

/-! ## creation transactions -/

/-- `validate_creation_transaction` of a claim. -/
def validateClaim (fs : Fields) : Option ClaimCreationDomain := do
  let runtimeId ← fs.identifier "runtime_id"
  let ownerSelection ← fs.selection "owner_selection"
  let generation ← fs.counter "expected_owner_generation"
  let t : ClaimCreationDomain := ⟨runtimeId, generation.1, ownerSelection, generation.2⟩
  if fs.get "tx_id" = some t.txId.term then some t else none

/-- `validate_creation_transaction` of a reservation. -/
def validateReserve (fs : Fields) : Option ReserveCreation := do
  let runtimeId ← fs.identifier "runtime_id"
  let ownerSelection ← fs.selection "owner_selection"
  let commandId ← fs.identifier "command_id"
  let generation ← fs.counter "owner_generation"
  let version ← fs.counter "expected_domain_version"
  let genesis ← fs.get "genesis"
  match hn : normalizeCreationGenesis genesis with
  | .ok normalized =>
    if h : 0 < generation.1 ∧ looseEq normalized genesis = true then
      let t : ReserveCreation :=
        ⟨runtimeId, commandId, generation.1, ownerSelection, version.1, genesis, h.1, generation.2,
          version.2, by rw [hn, normalizeCreationGenesis_loose hn h.2]⟩
      if fs.get "tx_id" = some t.txId.term then some t else none
    else none
  | .error _ => none

/-- `valid_creation_final?`: the bytes are those of a creation of this command. -/
def validCreationFinal (runtimeId commandId : Identifier) (bytes digest : Bytes) : Bool :=
  match bytes with
  | 131 :: 108 :: _ =>
    bytes.length ≤ maxMutationBytes &&
      match binaryToTerm bytes with
      | some (.list [tag, type, .tuple [runtimeField, runtime], .tuple [commandField, command],
          .tuple [genesisField, genesis]], _) =>
        tag = str "loopex_store_transaction_v1" && type = .tuple [sym "type", sym "create_session"] &&
          runtimeField = sym "runtime_id" && commandField = sym "command_id" &&
          genesisField = sym "genesis" && runtime = runtimeId.term && command = commandId.term &&
          (match normalizeCreationGenesis genesis with
            | .ok normalized => normalized = genesis
            | .error _ => false) &&
          match createSession runtimeId commandId genesis with
          | .ok final => final.canonicalRecordBytes = bytes && final.canonicalMutationDigest = digest
          | .error _ => false
      | _ => false
  | _ => false

/-- `validate_creation_transaction` of a close. -/
def validateClose (fs : Fields) : Option CloseCreationReservation := do
  let runtimeId ← fs.identifier "runtime_id"
  let ownerSelection ← fs.selection "owner_selection"
  let commandId ← fs.identifier "command_id"
  let generation ← fs.counter "owner_generation"
  let version ← fs.counter "expected_domain_version"
  let reservationTxId ← fs.identifier "reservation_tx_id"
  let reservationVersion ← fs.counter "reservation_domain_version"
  let bytes ← fs.binary "final_canonical_record_bytes"
  let digest ← fs.binary "final_canonical_mutation_digest"
  let t : CloseCreationReservation :=
    ⟨runtimeId, commandId, generation.1, ownerSelection, version.1, reservationTxId,
      reservationVersion.1, bytes, digest, generation.2, version.2, reservationVersion.2⟩
  if 0 < generation.1 ∧ 0 < reservationVersion.1 ∧ validCreationFinal runtimeId commandId bytes digest ∧
      fs.get "tx_id" = some t.txId.term then some t
  else none

/-! ## session transactions -/

/-- `byte_size`, of a binary or a bit string only. -/
def byteSize : Option Term → Check Reason ℕ
  | some (.binary b) => .ok b.length
  | some (.bitstring b _) => .ok b.length
  | _ => .raise .badArgument

/-- The command bytes, under the 32-byte digest they have. -/
def canonicalCommand (fs : Fields) (e : Reason) : Check Reason Bytes := do
  let bytes ← Check.ofOption (fs.binary "canonical_command_bytes") e
  let size ← byteSize (fs.get "canonical_command_digest")
  Check.require (size = 32) e
  Check.require (fs.get "canonical_command_digest" = some (.binary (sha256 bytes))) e
  .ok bytes

def attemptGeneration (fs : Fields) : Option {n : ℕ // 0 < n} :=
  match fs.get "attempt_generation" with
  | some (.int n) => if h : 0 < n then some ⟨n.toNat, by omega⟩ else none
  | _ => none

/-- `validate_fields` of a staging; `candidate` is the verdict on its candidate. -/
def validateStage (candidate : Check Reason Unit) (fs : Fields) : Check Reason StageOwnerAttempt := do
  let runtimeId ← Check.ofExcept (fs.fetchIdentifier "runtime_id")
  let commandId ← Check.ofExcept (fs.fetchIdentifier "command_id")
  let sessionId ← Check.ofExcept (fs.fetchIdentifier "session_id")
  let mutationDomain ← Check.ofExcept (fs.fetchIdentifier "mutation_domain")
  let successionId ← Check.ofExcept (fs.fetchIdentifier "succession_id")
  let txId ← Check.ofExcept (fs.fetchIdentifier "tx_id")
  Check.require (fs.get "command_kind" = some (sym "resume")) .invalidOwnerAttempt
  let bytes ← canonicalCommand fs .invalidOwnerAttempt
  let attempt ← Check.ofOption (attemptGeneration fs) .invalidOwnerAttempt
  let expected ← (Check.ofExcept (fs.nonNegative "expected_generation")).orError .invalidOwnerAttempt
  let t ← Check.ofOption (fs.get "candidate") .invalidOwnerAttempt
  Check.require (isMap t) .invalidOwnerAttempt
  candidate.orError .invalidOwnerAttempt
  .ok ⟨sessionId, mutationDomain, txId,
    ⟨runtimeId, commandId, successionId, bytes, attempt.1, attempt.2⟩, expected, t⟩

/-- `validate_owner_command_fields`: a succession without a runtime serves no command. -/
def validateOwnerCommand (fs : Fields) : Check Reason (Option SuccessionCommand) :=
  if (fs.get "runtime_id").isSome then do
    let runtimeId ← Check.ofOption (fs.identifier "runtime_id") .invalidOwnerCommand
    let commandId ← Check.ofOption (fs.identifier "command_id") .invalidOwnerCommand
    Check.require (fs.get "command_kind" = some (sym "resume")) .invalidOwnerCommand
    let successionId ← Check.ofOption (fs.identifier "succession_id") .invalidOwnerCommand
    let bytes ← canonicalCommand fs .invalidOwnerCommand
    let attempt ← Check.ofOption (attemptGeneration fs) .invalidOwnerCommand
    .ok (some ⟨runtimeId, commandId, successionId, bytes, attempt.1, attempt.2⟩)
  else .ok none

/-- `validate_fields` of a succession. -/
def validateAdvance (fs : Fields) : Check Reason AdvanceOwner := do
  let sessionId ← Check.ofExcept (fs.fetchIdentifier "session_id")
  let mutationDomain ← Check.ofExcept (fs.fetchIdentifier "mutation_domain")
  let txId ← Check.ofExcept (fs.fetchIdentifier "tx_id")
  let epoch ← Check.ofExcept (fs.nonNegative "expected_owner_epoch")
  let version ← Check.ofExcept (fs.nonNegative "expected_journal_version")
  let incarnation ← Check.ofExcept (fs.fetchIdentifier "proposed_owner_incarnation_id")
  let command ← validateOwnerCommand fs
  .ok ⟨sessionId, mutationDomain, txId, epoch, version, incarnation, command⟩

/-- `item_refusal`: a structural or size refusal is the list's refusal. -/
def itemRefusal (reason error : Reason) : Reason :=
  match reason with
  | .itemStructureExceeded d o l => .itemStructureExceeded d o l
  | .itemTooLarge o l => .itemTooLarge o l
  | _ => error

/-- `validate_items`: the first refusal. -/
def validateItems (plane : Plane) (error : Reason) : List Term → Except Reason Unit
  | [] => .ok ()
  | item :: items =>
    match validateItem plane item with
    | .ok () => validateItems plane error items
    | .error reason => .error (itemRefusal reason error)

theorem validateItems_eq_ok {plane : Plane} {error : Reason} {items : List Term} :
    validateItems plane error items = .ok () ↔ ∀ item ∈ items, validateItem plane item = .ok () := by
  induction items with
  | nil => simp [validateItems]
  | cons item items ih =>
    simp only [validateItems, List.forall_mem_cons]
    cases h : validateItem plane item with
    | ok u => simpa using ih
    | error e => simp

/-- `validate_records`: `length` raises on an improper list. -/
def validateRecords : Option Term →
    Check Reason {rs : List Term // rs ≠ [] ∧ ∀ r ∈ rs, validateItem .record r = .ok ()}
  | some (.list (r :: rs)) =>
    if (r :: rs).length ≤ maxItems then
      match h : validateItems .record .invalidRecords (r :: rs) with
      | .ok () => .ok ⟨r :: rs, by simp, validateItems_eq_ok.1 h⟩
      | .error e => .error e
    else .error .invalidRecords
  | some (.improper _ _) => .raise .badArgument
  | _ => .error .invalidRecords

/-- `validate_events`. -/
def validateEvents : Option Term →
    Check Reason {es : List Term // (∀ e ∈ es, validateItem .event e = .ok ()) ∧ (eventIds es).Nodup}
  | some (.list es) =>
    if es.length ≤ maxItems then
      match h : validateItems .event .invalidEvents es with
      | .ok () =>
        if hn : (eventIds es).Nodup then .ok ⟨es, validateItems_eq_ok.1 h, hn⟩
        else .error .invalidEvents
      | .error e => .error e
    else .error .invalidEvents
  | _ => .error .invalidEvents

mutual
/-- `contains_value?`: the bytes occur in some binary of the value. -/
def containsValue (expected : Bytes) : Term → Bool
  | .binary b => decide (expected <:+: b)
  | .list xs => containsValueList expected xs
  | .map kvs => containsValueEntries expected kvs
  | _ => false
def containsValueList (expected : Bytes) : List Term → Bool
  | [] => false
  | x :: xs => containsValue expected x || containsValueList expected xs
def containsValueEntries (expected : Bytes) : List (Term × Term) → Bool
  | [] => false
  | (k, v) :: kvs => containsValue expected k || containsValue expected v || containsValueEntries expected kvs
end

/-- `validate_fields` of an ordinary session transaction. -/
def validateCommit (fs : Fields) : Check Reason SessionCommit := do
  let sessionId ← Check.ofExcept (fs.fetchIdentifier "session_id")
  let mutationDomain ← Check.ofExcept (fs.fetchIdentifier "mutation_domain")
  let txId ← Check.ofExcept (fs.fetchIdentifier "tx_id")
  let epoch ← Check.ofExcept (fs.nonNegative "expected_owner_epoch")
  let incarnation ← Check.ofExcept (fs.fetchIdentifier "expected_owner_incarnation_id")
  let version ← Check.ofExcept (fs.nonNegative "expected_journal_version")
  let records ← validateRecords (fs.get "records")
  let outbox ← validateEvents (fs.get "outbox")
  Check.require (!containsValueList incarnation.bytes outbox.1) .ownerCapabilityInPublicEvent
  -- `validate_encoded_items`
  Check.require (decide (records.1.length + outbox.1.length ≤ maxItems * 2)) .tooManyItems
  .ok ⟨sessionId, mutationDomain, txId, epoch, incarnation, version, records.1, outbox.1,
    records.2.1, records.2.2, outbox.2.1, outbox.2.2⟩

/-- `validate_fields` of a session creation. -/
def validateCreate (fs : Fields) : Check Reason CreateSession := do
  let runtimeId ← Check.ofExcept (fs.fetchIdentifier "runtime_id")
  let commandId ← Check.ofExcept (fs.fetchIdentifier "command_id")
  let genesis := (fs.get "genesis").getD nil
  match h : validateItem .record genesis with
  | .ok () => .ok ⟨runtimeId, commandId, genesis, h⟩
  | .error e => .error e

/-- `validate_fields`. -/
def validateFields (type : TransactionType) (candidate : Check Reason Unit) (fs : Fields) :
    Check Reason Body :=
  match type with
  | .claimCreationDomain =>
    Check.ofOption ((validateClaim fs).map .claimCreationDomain) .invalidCreationTransaction
  | .reserveCreation =>
    Check.ofOption ((validateReserve fs).map .reserveCreation) .invalidCreationTransaction
  | .closeCreationReservation =>
    Check.ofOption ((validateClose fs).map .closeCreationReservation) .invalidCreationTransaction
  | .createSession => do
    let t ← validateCreate fs
    .ok (.createSession t)
  | .stageOwnerAttempt => do
    let t ← validateStage candidate fs
    .ok (.stageOwnerAttempt t)
  | .advanceOwner => do
    let t ← validateAdvance fs
    .ok (.advanceOwner t)
  | .sessionCommit => do
    let t ← validateCommit fs
    .ok (.sessionCommit t)

/-! ## transactions as maps -/

/-- The type a map presents itself under. -/
def typeOf (kvs : List (Term × Term)) : Option TransactionType :=
  (lookup (sym "type") kvs).bind TransactionType.ofTerm

/-- `closed_creation_map?`: exactly these atom keys. -/
def closedMap (t : Term) (names : List String) : Bool :=
  match t with
  | .map kvs => !isStruct kvs && closedBy (.map kvs) (names.map sym)
  | _ => false

/-- `fetch_fields`. -/
def fetchFields (kvs : List (Term × Term)) : List String → Except Reason Fields
  | [] => .ok []
  | name :: names =>
    match lookup (sym name) kvs with
    | some v => do
      let rest ← fetchFields kvs names
      .ok ((name, v) :: rest)
    | none => .error (.missingField name)

/-- `semantic_fields`. -/
def semanticFields (kvs : List (Term × Term)) : Except Reason (TransactionType × Fields) :=
  match typeOf kvs with
  | none => .error .unknownTransactionType
  | some type => do
    let names := type.fieldNames (hasKey (sym "runtime_id") kvs)
    if type.isCreation && !closedMap (.map kvs) (names ++ canonicalFieldNames) then
      .error .invalidTransactionShape
    else
      let fs ← fetchFields kvs names
      .ok (type, fs)

/-- `validate_exact_keys`: the semantic fields, the canonical fields and nothing else. -/
def exactKeys (kvs : List (Term × Term)) (fs : Fields) : Bool :=
  let expected := (fs.map Prod.fst ++ canonicalFieldNames).map sym
  (kvs.all fun e => e.1 ∈ expected) && expected.all fun k => hasKey k kvs

/-- `validate_transaction` of a map, given the verdict on its candidate. -/
def validateMap (candidate : Check Reason Unit) (kvs : List (Term × Term)) : Check Reason Transaction := do
  let (type, fs) ← Check.ofExcept (semanticFields kvs)
  Check.require (exactKeys kvs fs) .invalidTransactionShape
  let body ← validateFields type candidate fs
  let canonical ← Check.ofExcept (canonicalBytes fs)
  Check.require (lookup (sym "canonical_record_bytes") kvs = some (.binary canonical))
    .canonicalBindingMismatch
  Check.require (lookup (sym "canonical_mutation_digest") kvs = some (.binary (sha256 canonical)))
    .canonicalBindingMismatch
  .ok ⟨body, canonical, sha256 canonical⟩

/-- The verdict on the value under `candidate`, among the verdicts on all values. -/
def candidateVerdict : List (Term × Check Reason Unit) → Check Reason Unit
  | [] => .error .invalidOwnerAttempt
  | (k, verdict) :: verdicts => if k = sym "candidate" then verdict else candidateVerdict verdicts

mutual
/-- `validate_transaction`: the candidate of a staging is a transaction itself. -/
def validateTransaction : Term → Check Reason Transaction
  | .map kvs => validateMap (candidateVerdict (validateValues kvs)) kvs
  | _ => .raise .functionClause
def validateValues : List (Term × Term) → List (Term × Check Reason Unit)
  | [] => []
  | (k, v) :: kvs => (k, (validateTransaction v).verdict) :: validateValues kvs
end

/-- The verdict on the candidate of a map. -/
def verdictOf (kvs : List (Term × Term)) : Check Reason Unit := candidateVerdict (validateValues kvs)

/-- `immutable_binding`: the checked fields with the bytes and digest as they are presented. -/
def immutableBinding (kvs : List (Term × Term)) : Check Reason Transaction := do
  let (type, fs) ← Check.ofExcept (semanticFields kvs)
  Check.require (exactKeys kvs fs) .invalidTransactionShape
  let body ← validateFields type (verdictOf kvs) fs
  match lookup (sym "canonical_record_bytes") kvs, lookup (sym "canonical_mutation_digest") kvs with
  | some (.binary canonical), some (.binary digest) =>
    if canonical.length ≤ maxMutationBytes then
      if digest.length = 32 then .ok ⟨body, canonical, digest⟩
      else .error (.invalidField "canonical_mutation_digest")
    else .error (.invalidField "canonical_record_bytes")
  | some (.binary _), _ => .error (.invalidField "canonical_mutation_digest")
  | _, _ => .error (.invalidField "canonical_record_bytes")

end Loopex.Store
