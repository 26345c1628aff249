import Loopex.Runtime.SessionGenesis

/-!
# Store transactions

The seven closed transactions of the Store port.  A `Transaction` is one that passed the port's checks:
its components carry what was checked of them, its identities are those the recipes derive, and its
fields are laid out in the order of its canonical bytes.
-/

namespace Loopex.Store

open Loopex.Erlang Loopex.Erlang.Term Loopex.Runtime

def creationUint64 : ℕ := 18446744073709551615

/-- Sixty-four lowercase hexadecimal digits. -/
structure Selection where
  bytes : Bytes
  length : bytes.length = 64
  isHex : bytes.all isHex = true
  deriving DecidableEq

/-- `creation_id`: the digest of a recipe. -/
def creationId (values : List Term) : Identifier :=
  ⟨hex (sha256 (termToBinary (.list values))), by simp, by simp [maxIdentifierBytes]⟩

namespace Identifier

/-- The identifier as a value. -/
def term (id : Identifier) : Term := .binary id.bytes

@[simp] theorem term_inj {a b : Identifier} : a.term = b.term ↔ a = b := by
  cases a; cases b; simp [term]

end Identifier

namespace Selection

def term (s : Selection) : Term := .binary s.bytes

@[simp] theorem term_inj {a b : Selection} : a.term = b.term ↔ a = b := by
  cases a; cases b; simp [term]

end Selection

/-! ## the transactions -/

inductive TransactionType where
  | claimCreationDomain | reserveCreation | closeCreationReservation
  | createSession | stageOwnerAttempt | advanceOwner | sessionCommit
  deriving DecidableEq

namespace TransactionType

def name : TransactionType → String
  | claimCreationDomain => "claim_creation_domain"
  | reserveCreation => "reserve_creation"
  | closeCreationReservation => "close_creation_reservation"
  | createSession => "create_session"
  | stageOwnerAttempt => "stage_owner_attempt"
  | advanceOwner => "advance_owner"
  | sessionCommit => "session_commit"

/-- `Transitions.id`. -/
def transition : TransactionType → String
  | claimCreationDomain => "runtime_control_claim_creation_domain"
  | reserveCreation => "runtime_control_reserve_creation"
  | closeCreationReservation => "runtime_control_close_creation_reservation"
  | createSession => "runtime_control_create_session"
  | stageOwnerAttempt => "runtime_control_stage_owner_attempt"
  | advanceOwner => "session_journal_advance_owner"
  | sessionCommit => "session_journal_commit"

/-- `type in @creation_types`. -/
def isCreation : TransactionType → Bool
  | claimCreationDomain | reserveCreation | closeCreationReservation => true
  | _ => false

def ofTerm (t : Term) : Option TransactionType :=
  [claimCreationDomain, reserveCreation, closeCreationReservation, createSession, stageOwnerAttempt,
    advanceOwner, sessionCommit].find? fun type => sym type.name = t

theorem ofTerm_eq_some {t : Term} {type : TransactionType} :
    ofTerm t = some type ↔ t = sym type.name := by
  constructor
  · intro h
    have := List.find?_some h
    simpa using (of_decide_eq_true this).symm
  · rintro rfl
    cases type <;> decide +kernel

/-- The semantic fields of a transaction, in the order of its canonical bytes; `owned` tells whether a
succession names the runtime command it serves. -/
def fieldNames (type : TransactionType) (owned : Bool) : List String :=
  match type with
  | claimCreationDomain =>
    ["type", "runtime_id", "expected_owner_generation", "owner_selection", "tx_id"]
  | reserveCreation =>
    ["type", "runtime_id", "command_id", "owner_generation", "owner_selection",
      "expected_domain_version", "genesis", "tx_id"]
  | closeCreationReservation =>
    ["type", "runtime_id", "command_id", "owner_generation", "owner_selection",
      "expected_domain_version", "reservation_tx_id", "reservation_domain_version",
      "final_canonical_record_bytes", "final_canonical_mutation_digest", "tx_id"]
  | createSession => ["type", "runtime_id", "command_id", "genesis"]
  | stageOwnerAttempt =>
    ["type", "runtime_id", "command_id", "command_kind", "session_id", "mutation_domain",
      "succession_id", "canonical_command_bytes", "canonical_command_digest", "attempt_generation",
      "expected_generation", "tx_id", "candidate"]
  | advanceOwner =>
    ["type", "session_id", "mutation_domain", "tx_id", "expected_owner_epoch",
      "expected_journal_version", "proposed_owner_incarnation_id"] ++
      if owned then
        ["runtime_id", "command_id", "command_kind", "succession_id", "canonical_command_bytes",
          "canonical_command_digest", "attempt_generation"]
      else []
  | sessionCommit =>
    ["type", "session_id", "mutation_domain", "tx_id", "expected_owner_epoch",
      "expected_owner_incarnation_id", "expected_journal_version", "records", "outbox"]

end TransactionType

/-- Named semantic fields, in order. -/
abbrev Fields := List (String × Term)

/-- The entries of a map under atom keys. -/
def Fields.entries (fs : Fields) : List (Term × Term) := entriesOf (fs.map fun f => (sym f.1, f.2))

/-- A map under atom keys. -/
def atomMap (fs : Fields) : Term := .map fs.entries

def canonicalFieldNames : List String := ["canonical_record_bytes", "canonical_mutation_digest"]

/-- The bytes of a mutation, before their bound. -/
def encodeFields (fs : Fields) : Bytes :=
  termToBinary (.list (str "loopex_store_transaction_v1" :: fs.map fun f => .tuple [sym f.1, f.2]))

/-- `canonical_bytes`. -/
def canonicalBytes (fs : Fields) : Except Reason Bytes :=
  if (encodeFields fs).length ≤ maxMutationBytes then .ok (encodeFields fs)
  else .error .mutationTooLarge

structure ClaimCreationDomain where
  runtimeId : Identifier
  expectedOwnerGeneration : ℕ
  ownerSelection : Selection
  counter : expectedOwnerGeneration ≤ creationUint64
  deriving DecidableEq

/-- The identity is the digest of the recipe. -/
def ClaimCreationDomain.txId (t : ClaimCreationDomain) : Identifier :=
  creationId [str "loopex_creation_claim_v1", t.runtimeId.term, .int t.expectedOwnerGeneration,
    t.ownerSelection.term]

structure ReserveCreation where
  runtimeId : Identifier
  commandId : Identifier
  ownerGeneration : ℕ
  ownerSelection : Selection
  expectedDomainVersion : ℕ
  genesis : Term
  positive : 0 < ownerGeneration
  generationCounter : ownerGeneration ≤ creationUint64
  versionCounter : expectedDomainVersion ≤ creationUint64
  normal : normalizeCreationGenesis genesis = .ok genesis
  deriving DecidableEq

/-- The recipe of a reservation's identity, which leaves its genesis out. -/
def reservationId (runtimeId commandId : Identifier) (ownerGeneration : ℕ) : Identifier :=
  creationId [str "loopex_creation_reserve_v1", runtimeId.term, commandId.term, .int ownerGeneration]

def ReserveCreation.txId (t : ReserveCreation) : Identifier :=
  reservationId t.runtimeId t.commandId t.ownerGeneration

structure CloseCreationReservation where
  runtimeId : Identifier
  commandId : Identifier
  ownerGeneration : ℕ
  ownerSelection : Selection
  expectedDomainVersion : ℕ
  reservationTxId : Identifier
  reservationDomainVersion : ℕ
  finalCanonicalRecordBytes : Bytes
  finalCanonicalMutationDigest : Bytes
  generationCounter : ownerGeneration ≤ creationUint64
  versionCounter : expectedDomainVersion ≤ creationUint64
  reservationCounter : reservationDomainVersion ≤ creationUint64
  deriving DecidableEq

def CloseCreationReservation.txId (t : CloseCreationReservation) : Identifier :=
  creationId [str "loopex_creation_close_v1", t.runtimeId.term, t.commandId.term,
    t.reservationTxId.term, .int t.ownerGeneration, .int t.expectedDomainVersion,
    t.ownerSelection.term]

structure CreateSession where
  runtimeId : Identifier
  commandId : Identifier
  genesis : Term
  valid : validateItem .record genesis = .ok ()
  deriving DecidableEq

/-- The runtime command a succession serves. -/
structure SuccessionCommand where
  runtimeId : Identifier
  commandId : Identifier
  successionId : Identifier
  canonicalCommandBytes : Bytes
  attemptGeneration : ℕ
  positive : 0 < attemptGeneration
  deriving DecidableEq

structure StageOwnerAttempt where
  sessionId : Identifier
  mutationDomain : Identifier
  txId : Identifier
  command : SuccessionCommand
  expectedGeneration : ℕ
  candidate : Term
  deriving DecidableEq

structure AdvanceOwner where
  sessionId : Identifier
  mutationDomain : Identifier
  txId : Identifier
  expectedOwnerEpoch : ℕ
  expectedJournalVersion : ℕ
  proposedOwnerIncarnationId : Identifier
  command : Option SuccessionCommand
  deriving DecidableEq

/-- The identities of a list of events. -/
def eventIds (events : List Term) : List Identifier := events.filterMap eventId

structure SessionCommit where
  sessionId : Identifier
  mutationDomain : Identifier
  txId : Identifier
  expectedOwnerEpoch : ℕ
  expectedOwnerIncarnationId : Identifier
  expectedJournalVersion : ℕ
  records : List Term
  outbox : List Term
  records_ne : records ≠ []
  records_valid : ∀ r ∈ records, validateItem .record r = .ok ()
  outbox_valid : ∀ e ∈ outbox, validateItem .event e = .ok ()
  ids_nodup : (eventIds outbox).Nodup
  deriving DecidableEq

/-- What a transaction asks for. -/
inductive Body where
  | claimCreationDomain (t : ClaimCreationDomain)
  | reserveCreation (t : ReserveCreation)
  | closeCreationReservation (t : CloseCreationReservation)
  | createSession (t : CreateSession)
  | stageOwnerAttempt (t : StageOwnerAttempt)
  | advanceOwner (t : AdvanceOwner)
  | sessionCommit (t : SessionCommit)
  deriving DecidableEq

namespace Body

def type : Body → TransactionType
  | claimCreationDomain _ => .claimCreationDomain
  | reserveCreation _ => .reserveCreation
  | closeCreationReservation _ => .closeCreationReservation
  | createSession _ => .createSession
  | stageOwnerAttempt _ => .stageOwnerAttempt
  | advanceOwner _ => .advanceOwner
  | sessionCommit _ => .sessionCommit

/-- Whether a succession names the runtime command it serves. -/
def owned : Body → Bool
  | advanceOwner t => t.command.isSome
  | _ => false

/-- The values of the semantic fields, in the order of `TransactionType.fieldNames`. -/
def values : Body → List Term
  | claimCreationDomain t =>
    [t.runtimeId.term, .int t.expectedOwnerGeneration, t.ownerSelection.term, t.txId.term]
  | reserveCreation t =>
    [t.runtimeId.term, t.commandId.term, .int t.ownerGeneration, t.ownerSelection.term,
      .int t.expectedDomainVersion, t.genesis, t.txId.term]
  | closeCreationReservation t =>
    [t.runtimeId.term, t.commandId.term, .int t.ownerGeneration, t.ownerSelection.term,
      .int t.expectedDomainVersion, t.reservationTxId.term, .int t.reservationDomainVersion,
      .binary t.finalCanonicalRecordBytes, .binary t.finalCanonicalMutationDigest, t.txId.term]
  | createSession t => [t.runtimeId.term, t.commandId.term, t.genesis]
  | stageOwnerAttempt t =>
    [t.command.runtimeId.term, t.command.commandId.term, sym "resume", t.sessionId.term,
      t.mutationDomain.term, t.command.successionId.term, .binary t.command.canonicalCommandBytes,
      .binary (sha256 t.command.canonicalCommandBytes), .int t.command.attemptGeneration,
      .int t.expectedGeneration, t.txId.term, t.candidate]
  | advanceOwner t =>
    [t.sessionId.term, t.mutationDomain.term, t.txId.term, .int t.expectedOwnerEpoch,
      .int t.expectedJournalVersion, t.proposedOwnerIncarnationId.term] ++
      match t.command with
      | some c =>
        [c.runtimeId.term, c.commandId.term, sym "resume", c.successionId.term,
          .binary c.canonicalCommandBytes, .binary (sha256 c.canonicalCommandBytes),
          .int c.attemptGeneration]
      | none => []
  | sessionCommit t =>
    [t.sessionId.term, t.mutationDomain.term, t.txId.term, .int t.expectedOwnerEpoch,
      t.expectedOwnerIncarnationId.term, .int t.expectedJournalVersion, .list t.records,
      .list t.outbox]

/-- The semantic fields. -/
def fields (b : Body) : Fields :=
  (b.type.fieldNames b.owned).zip (sym b.type.name :: b.values)

end Body

/-- A transaction with the bytes and the digest that bind it. -/
structure Transaction where
  body : Body
  canonicalRecordBytes : Bytes
  canonicalMutationDigest : Bytes
  deriving DecidableEq

namespace Transaction

/-- All the fields of the transaction. -/
def fields (t : Transaction) : Fields :=
  t.body.fields ++ [("canonical_record_bytes", .binary t.canonicalRecordBytes),
    ("canonical_mutation_digest", .binary t.canonicalMutationDigest)]

/-- The entries of the transaction as a map. -/
def entries (t : Transaction) : List (Term × Term) := t.fields.entries

/-- `binding == binding'`. -/
def sameBinding (s t : Transaction) : Bool := looseEq (.map s.entries) (.map t.entries)

@[simp] theorem sameBinding_self (t : Transaction) : t.sameBinding t = true := by simp [sameBinding]

end Transaction

/-! ## builders -/

/-- The end of `build_transaction`: the canonical bytes and digest of checked fields. -/
def build (b : Body) : Except Reason Transaction := do
  let canonical ← canonicalBytes b.fields
  .ok ⟨b, canonical, sha256 canonical⟩

/-- `create_session`. -/
def createSession (runtimeId commandId : Identifier) (genesis : Term) : Except Reason Transaction := do
  let normalized ← normalizeMeasuredRoot .record genesis
  match h : validateItem .record normalized with
  | .ok () => build (.createSession ⟨runtimeId, commandId, normalized, h⟩)
  | .error e => .error e

/-- `reserve_creation`, for identifiers and a selection already validated. -/
def reserveCreation (runtimeId commandId : Identifier) (generation : ℕ) (selection : Selection)
    (domainVersion : ℕ) (genesis : Term) : Except Reason Transaction :=
  if hc : 0 < generation ∧ generation ≤ creationUint64 ∧ domainVersion ≤ creationUint64 then
    match normalizeCreationGenesis genesis with
    | .ok normalized =>
      if hn : normalizeCreationGenesis normalized = .ok normalized then
        build (.reserveCreation
          ⟨runtimeId, commandId, generation, selection, domainVersion, normalized, hc.1, hc.2.1, hc.2.2, hn⟩)
      else .error .invalidCreationTransaction
    | .error e => .error e
  else .error .invalidCreationTransaction

end Loopex.Store
