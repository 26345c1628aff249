import Loopex.Store.Reading
import Mathlib.Data.List.AList

/-!
# The local Store

The state of the serial Store and its transitions: `prepare` presents one transaction and answers that it
is known, that it is new (with the next state and the frame to write), or that it is invalid.

The maps of the source are finite tables; its two-level maps are tables keyed by pairs.  The search for a
fresh session id takes fuel, and `Abort.unfinished` says that it ran out.  What `Access` does with a struct
is the module of the struct, outside this program: `StructAccess` stands for it.
-/

namespace Loopex.Store

open Loopex.Erlang Loopex.Erlang.Term Loopex.Runtime

abbrev Table (κ ν : Type) : Type := AList fun _ : κ => ν

/-! ## the data of the Store -/

/-- The creation head of one runtime. -/
structure Head where
  ownerGeneration : ℕ
  ownerSelection : Option Selection
  domainVersion : ℕ
  activeCommandId : Option Identifier
  deriving DecidableEq

/-- The `state` of a capsule, with the `final_resolution` and `session_id` that go with it. -/
inductive CapsuleState where
  | reserved
  | created (sessionId : Identifier)
  | notCommitted
  deriving DecidableEq

/-- A retained creation candidate. -/
structure Capsule where
  runtimeId : Identifier
  commandId : Identifier
  reservationTxId : Identifier
  reservationOwnerGeneration : ℕ
  reservationOwnerSelection : Selection
  reservationDomainVersion : ℕ
  genesis : Term
  state : CapsuleState
  deriving DecidableEq

inductive Refusal where
  | invalidTransaction | txIdConflict
  | staleCreationGeneration | creationDomainConflict | creationInProgress | runtimeCommandConflict
  | creationCounterExhausted | creationRecoveryTooLarge | creationReservationConflict
  | creationReservationRequired | creationCancelled
  | sessionNotFound | runtimePlacementMismatch | ownerAttemptInProgress | staleAttemptGeneration
  | commandCompleted | ownerCandidateConflict
  | staleOwnerEpoch | staleOwnerIncarnationId | staleJournalVersion | duplicateEventId
  deriving DecidableEq

namespace Refusal

/-- The atom of a refusal. -/
def name : Refusal → String
  | invalidTransaction => "invalid_transaction"
  | txIdConflict => "tx_id_conflict"
  | staleCreationGeneration => "stale_creation_generation"
  | creationDomainConflict => "creation_domain_conflict"
  | creationInProgress => "creation_in_progress"
  | runtimeCommandConflict => "runtime_command_conflict"
  | creationCounterExhausted => "creation_counter_exhausted"
  | creationRecoveryTooLarge => "creation_recovery_too_large"
  | creationReservationConflict => "creation_reservation_conflict"
  | creationReservationRequired => "creation_reservation_required"
  | creationCancelled => "creation_cancelled"
  | sessionNotFound => "session_not_found"
  | runtimePlacementMismatch => "runtime_placement_mismatch"
  | ownerAttemptInProgress => "owner_attempt_in_progress"
  | staleAttemptGeneration => "stale_attempt_generation"
  | commandCompleted => "command_completed"
  | ownerCandidateConflict => "owner_candidate_conflict"
  | staleOwnerEpoch => "stale_owner_epoch"
  | staleOwnerIncarnationId => "stale_owner_incarnation_id"
  | staleJournalVersion => "stale_journal_version"
  | duplicateEventId => "duplicate_event_id"

end Refusal

/-- The receipt of a committed transaction. -/
inductive Receipt where
  | claim (runtimeId : Identifier) (head : Head)
  | reserve (runtimeId : Identifier) (head : Head) (reservationTxId : Identifier)
      (reservationDomainVersion : ℕ)
  | close (runtimeId : Identifier) (head : Head) (commandId reservationTxId : Identifier)
      (final : CapsuleState)
  | create (sessionId : Identifier)
  | stage
  | advance (ownerEpoch : ℕ) (ownerIncarnationId : Identifier) (journalVersion : ℕ)
  | commit (firstVersion lastVersion : ℕ) (sequences : Option (ℕ × ℕ))
  deriving DecidableEq

inductive Resolution where
  | committed (receipt : Receipt)
  | notCommitted (reason : Refusal)
  deriving DecidableEq

/-- A resolution with the binding it resolves. -/
structure Retained where
  binding : Transaction
  resolution : Resolution
  deriving DecidableEq

abbrev Resolutions : Type := Table (Identifier × Identifier) Retained

/-- A stamped private record. -/
structure Record where
  journalVersion : ℕ
  ownerEpoch : ℕ
  ownerIncarnationId : Option Identifier
  payload : Term
  deriving DecidableEq

structure Session where
  runtimeId : Identifier
  ownerEpoch : ℕ
  ownerIncarnationId : Option Identifier
  journalVersion : ℕ
  eventSequence : ℕ
  records : List Record
  events : List Term
  eventIds : Table Identifier Unit
  resolutions : Resolutions

/-- The identity of a resume command, `owner_command_binding`. -/
structure OwnerCommand where
  runtimeId : Identifier
  commandId : Identifier
  sessionId : Identifier
  mutationDomain : Identifier
  successionId : Identifier
  canonicalCommandBytes : Bytes
  deriving DecidableEq

inductive CommandStatus where
  | open | completed
  deriving DecidableEq

/-- The entry of a runtime command: a created session, a creation that was not committed, or the
attempt a resume staged. -/
inductive RuntimeCommand where
  | created (retained : Retained) (sessionId : Identifier)
  | refused (retained : Retained)
  | staged (command : OwnerCommand) (status : CommandStatus) (generation : ℕ) (candidate : Term)
      (result : Option Identifier)

/-- A row of the creation index. -/
structure CreationRow where
  runtimeId : Identifier
  commandId : Identifier
  sessionId : Identifier
  canonicalCreateDigest : Bytes
  createOrdinal : ℕ
  deriving DecidableEq

structure State where
  nextSessionNumber : ℕ
  runtimeCommands : Table (Identifier × Identifier) RuntimeCommand
  creationHeads : Table Identifier Head
  creationCapsules : Table (Identifier × Identifier) Capsule
  creationResolutions : Table (Identifier × TransactionType × Identifier) Retained
  createOrdinals : Table Identifier ℕ
  creationRows : Table (Identifier × ℕ) (Option CreationRow)
  sessionCreations : Table Identifier (Identifier × ℕ)
  orphanResolutions : Table Identifier Resolutions
  sessions : Table Identifier Session

/-- `new`. -/
def State.new : State := ⟨1, ∅, ∅, ∅, ∅, ∅, ∅, ∅, ∅, ∅⟩

/-- What became of a presented transaction. -/
inductive Outcome where
  | committed (txId : Identifier) (receipt : Receipt)
  | notCommitted (reason : Refusal)
  deriving DecidableEq

/-! ## frames -/

def optionTerm : Option Identifier → Term
  | some id => id.term
  | none => nil

namespace Head

def selectionTerm (h : Head) : Term :=
  match h.ownerSelection with
  | some s => s.term
  | none => nil

/-- The head without its version, as the receipts carry it. -/
def fields (h : Head) : Fields :=
  [("owner_generation", .int h.ownerGeneration), ("owner_selection", h.selectionTerm),
    ("domain_version", .int h.domainVersion), ("active_command_id", optionTerm h.activeCommandId)]

def toTerm (h : Head) : Term := atomMap (("version", .int 1) :: h.fields)

end Head

namespace CapsuleState

def stateTerm : CapsuleState → Term
  | reserved => sym "reserved"
  | created _ => sym "created"
  | notCommitted => sym "not_committed"

def finalResolution : CapsuleState → Term
  | reserved => nil
  | created _ => sym "committed"
  | notCommitted => .tuple [sym "not_committed", sym "creation_cancelled"]

def sessionTerm : CapsuleState → Term
  | created s => s.term
  | _ => nil

end CapsuleState

def Capsule.fields (c : Capsule) : Fields :=
  [("version", .int 1), ("runtime_id", c.runtimeId.term), ("command_id", c.commandId.term),
    ("reservation_tx_id", c.reservationTxId.term),
    ("reservation_owner_generation", .int c.reservationOwnerGeneration),
    ("reservation_owner_selection", c.reservationOwnerSelection.term),
    ("reservation_domain_version", .int c.reservationDomainVersion), ("genesis", c.genesis),
    ("state", c.state.stateTerm), ("final_resolution", c.state.finalResolution),
    ("session_id", c.state.sessionTerm)]

def Capsule.toTerm (c : Capsule) : Term := atomMap c.fields

namespace Receipt

def type : Receipt → TransactionType
  | claim .. => .claimCreationDomain
  | reserve .. => .reserveCreation
  | close .. => .closeCreationReservation
  | create .. => .createSession
  | stage => .stageOwnerAttempt
  | advance .. => .advanceOwner
  | commit .. => .sessionCommit

/-- `%{first: first, last: last}` -/
def rangeTerm (first last : ℕ) : Term := atomMap [("first", .int first), ("last", .int last)]

def fields : Receipt → Fields
  | claim runtime head => ("runtime_id", runtime.term) :: head.fields
  | reserve runtime head tx version =>
    ("runtime_id", runtime.term) :: head.fields ++
      [("reservation_tx_id", tx.term), ("reservation_domain_version", .int version)]
  | close runtime head command tx final =>
    ("runtime_id", runtime.term) :: head.fields ++
      [("command_id", command.term), ("reservation_tx_id", tx.term),
        ("final_resolution", final.finalResolution), ("session_id", final.sessionTerm)]
  | create session => [("session_id", session.term), ("journal_version", .int 1)]
  | stage => []
  | advance epoch incarnation version =>
    [("owner_epoch", .int epoch), ("owner_incarnation_id", incarnation.term),
      ("journal_version", .int version)]
  | commit first last sequences =>
    [("journal_versions", rangeTerm first last),
      ("event_sequences", match sequences with
        | some s => rangeTerm s.1 s.2
        | none => nil)]

def toTerm (r : Receipt) : Term := atomMap (("type", sym r.type.name) :: r.fields)

end Receipt

def Resolution.toTerm : Resolution → Term
  | committed receipt => atomMap [("status", sym "committed"), ("receipt", receipt.toTerm)]
  | notCommitted reason => atomMap [("status", sym "not_committed"), ("reason", sym reason.name)]

def Record.toTerm (r : Record) : Term :=
  atomMap [("journal_version", .int r.journalVersion), ("owner_epoch", .int r.ownerEpoch),
    ("owner_incarnation_id", optionTerm r.ownerIncarnationId), ("payload", r.payload)]

/-- One frame of the log. -/
structure Frame where
  transition : TransactionType
  transaction : Term
  resolution : Resolution
  records : List Record
  events : List Term

def schemaVersion : ℤ := 2

/-- `frame`. -/
def Frame.toTerm (f : Frame) : Term :=
  atomMap [("schema_version", .int schemaVersion), ("transition_id", sym f.transition.transition),
    ("transaction", f.transaction), ("resolution", f.resolution.toTerm),
    ("records", .list (f.records.map Record.toTerm)), ("events", .list f.events)]

/-- The answer to a presented transaction. -/
inductive Prepared where
  | known (outcome : Outcome)
  | new (next : State) (frame : Frame) (outcome : Outcome)
  | invalid (outcome : Outcome)

/-- Why `prepare` did not return. -/
inductive Abort where
  | raised (x : Exn)
  | unfinished
  deriving DecidableEq

abbrev Attempt (α : Type) : Type := Except Abort α

/-! ## retained resolutions -/

/-- What `Access` makes of a struct: the module named by the struct decides. -/
abbrev StructAccess : Type := Bytes → List (Term × Term) → String → Except Exn (Option Term)

/-- `transaction[key]`. -/
def accessField (access : StructAccess) (kvs : List (Term × Term)) (key : String) : Attempt Term :=
  match lookup (sym "__struct__") kvs with
  | some (.atom module) =>
    match access module kvs key with
    | .ok v => .ok (v.getD nil)
    | .error x => .error (.raised x)
  | _ => .ok ((lookup (sym key) kvs).getD nil)

/-- An identifier, as a key of a table. -/
def asIdentifier (t : Term) : Option Identifier := (validateIdentifier t).toOption

/-- What a transaction is resolved under. -/
inductive Scope where
  | creation (runtimeId : Identifier) (type : TransactionType) (txId : Identifier)
  | command (runtimeId commandId : Identifier)
  | session (sessionId mutationDomain txId : Identifier)
  deriving DecidableEq

/-- The scope of a presented map: none of its keys may exist, or none may be named. -/
inductive Scoped where
  | at (scope : Scope)
  | nowhere
  | invalid
  deriving DecidableEq

def isBinaryOption : Option Term → Bool
  | some (.binary _) => true
  | _ => false

/-- The key the clauses of `retained_resolution` look a transaction up under. -/
def scopeOf (access : StructAccess) (kvs : List (Term × Term)) : Attempt Scoped :=
  let id := fun name => (lookup (sym name) kvs).bind asIdentifier
  let binary := fun name => isBinaryOption (lookup (sym name) kvs)
  match typeOf kvs with
  | none => .ok .invalid
  | some .createSession => do
    let runtime ← accessField access kvs "runtime_id"
    let command ← accessField access kvs "command_id"
    match asIdentifier runtime, asIdentifier command with
    | some r, some c => .ok (.at (.command r c))
    | _, _ => if isBinary runtime && isBinary command then .ok .nowhere else .ok .invalid
  | some type =>
    if type.isCreation then
      if binary "runtime_id" && binary "tx_id" then
        match id "runtime_id", id "tx_id" with
        | some r, some t => .ok (.at (.creation r type t))
        | _, _ => .ok .nowhere
      else .ok .invalid
    else if binary "session_id" && binary "mutation_domain" && binary "tx_id" then
      match id "session_id", id "mutation_domain", id "tx_id" with
      | some s, some d, some t => .ok (.at (.session s d t))
      | _, _, _ => .ok .nowhere
    else .ok .invalid

/-- `scoped_resolutions`. -/
def State.scopedResolutions (S : State) (sessionId : Identifier) : Resolutions :=
  match S.sessions.lookup sessionId with
  | some session => session.resolutions
  | none => (S.orphanResolutions.lookup sessionId).getD ∅

/-- What a state retains under a scope; a staged attempt carries no binding. -/
inductive Entry where
  | retained (r : Retained)
  | attempt
  deriving DecidableEq

def RuntimeCommand.entry : RuntimeCommand → Entry
  | created r _ => .retained r
  | refused r => .retained r
  | staged .. => .attempt

/-- `retained_resolution`. -/
def State.retainedResolution (S : State) : Scope → Option Entry
  | .creation r type t => (S.creationResolutions.lookup (r, type, t)).map .retained
  | .command r c => (S.runtimeCommands.lookup (r, c)).map RuntimeCommand.entry
  | .session s d t => ((S.scopedResolutions s).lookup (d, t)).map .retained

namespace Body

/-- `tx_id`. -/
def txId : Body → Identifier
  | claimCreationDomain t => t.txId
  | reserveCreation t => t.txId
  | closeCreationReservation t => t.txId
  | createSession t => t.commandId
  | stageOwnerAttempt t => t.txId
  | advanceOwner t => t.txId
  | sessionCommit t => t.txId

/-- The scope of a valid transaction. -/
def scope : Body → Scope
  | claimCreationDomain t => .creation t.runtimeId .claimCreationDomain t.txId
  | reserveCreation t => .creation t.runtimeId .reserveCreation t.txId
  | closeCreationReservation t => .creation t.runtimeId .closeCreationReservation t.txId
  | createSession t => .command t.runtimeId t.commandId
  | stageOwnerAttempt t => .session t.sessionId t.mutationDomain t.txId
  | advanceOwner t => .session t.sessionId t.mutationDomain t.txId
  | sessionCommit t => .session t.sessionId t.mutationDomain t.txId

end Body

/-- `outcome_of`. -/
def outcomeOf (txId : Identifier) : Resolution → Outcome
  | .committed receipt => .committed txId receipt
  | .notCommitted reason => .notCommitted reason

/-- `resolve_known`: the retained outcome for the retained binding, a conflict for any other. -/
def resolveKnown (entry : Entry) (kvs : List (Term × Term)) : Attempt Prepared :=
  match immutableBinding kvs with
  | .raise x => .error (.raised x)
  | .error _ => .ok (.known (.notCommitted .txIdConflict))
  | .ok binding =>
    match entry with
    | .attempt => .ok (.known (.notCommitted .txIdConflict))
    | .retained r =>
      if binding.sameBinding r.binding then .ok (.known (outcomeOf binding.body.txId r.resolution))
      else .ok (.known (.notCommitted .txIdConflict))

/-! ## creation custody -/

/-- `creation_head`. -/
def State.creationHead (S : State) (runtimeId : Identifier) : Head :=
  (S.creationHeads.lookup runtimeId).getD ⟨0, none, 0, none⟩

/-- `put_capsule`. -/
def State.putCapsule (S : State) (c : Capsule) : State :=
  { S with creationCapsules := S.creationCapsules.insert (c.runtimeId, c.commandId) c }

def State.putHead (S : State) (runtimeId : Identifier) (head : Head) : State :=
  { S with creationHeads := S.creationHeads.insert runtimeId head }

/-- `put_runtime_command`. -/
def State.putRuntimeCommand (S : State) (runtimeId commandId : Identifier) (entry : RuntimeCommand) :
    State :=
  { S with runtimeCommands := S.runtimeCommands.insert (runtimeId, commandId) entry }

/-- `put_session`. -/
def State.putSession (S : State) (sessionId : Identifier) (session : Session) : State :=
  { S with sessions := S.sessions.insert sessionId session }

/-- The table of creation resolutions with one more. -/
def State.putCreationResolution (S : State) (runtimeId : Identifier) (T : Transaction)
    (resolution : Resolution) : State :=
  let key := (runtimeId, T.body.type, T.body.txId)
  { S with creationResolutions := S.creationResolutions.insert key ⟨T, resolution⟩ }

/-- The `command` of a recovery reply. -/
def capsuleTerm : Option Capsule → Term
  | some c => c.toTerm
  | none => nil

def replyFields (runtimeId : Identifier) (head : Head) (command : Option Capsule) : Fields :=
  [("version", .int 1), ("runtime_id", runtimeId.term), ("head", head.toTerm),
    ("command", capsuleTerm command)]

/-- The recovery reply, measured. -/
def recoveryReply (runtimeId : Identifier) (head : Head) (command : Option Capsule) : Term :=
  atomMap (replyFields runtimeId head command)

/-- `recovery_size?`. -/
def recoverySize (reply : Term) : Bool := externalSize reply ≤ maxMutationBytes

/-- `capsule_terminal_valid?`, given the final transaction. -/
def capsuleTerminalValid (S : State) (head : Head) (c : Capsule) (final : Transaction) : Attempt Bool :=
  match c.state with
  | .reserved =>
    .ok (head.activeCommandId = some c.commandId && head.domainVersion = c.reservationDomainVersion &&
      (S.retainedResolution final.body.scope).isNone)
  | state =>
    if head.activeCommandId ≠ some c.commandId ∧
        head.ownerGeneration ≥ c.reservationOwnerGeneration + 2 ∧
        head.domainVersion > c.reservationDomainVersion then
      match S.runtimeCommands.lookup (c.runtimeId, c.commandId) with
      | none => .ok false
      -- a staged attempt has no `binding`
      | some (.staged ..) => .error (.raised .badKey)
      | some (.created r sessionId) =>
        if r.binding.sameBinding final then
          match state, r.resolution with
          | .created s, .committed receipt =>
            match S.sessions.lookup s with
            | some session =>
              .ok (receipt = .create s && sessionId = s && session.runtimeId = c.runtimeId &&
                match session.records with
                | record :: _ => looseEq record.payload c.genesis
                | [] => false)
            | none => .ok false
          | .notCommitted, .notCommitted reason => .ok (reason = .creationCancelled)
          | _, _ => .ok false
        else .ok false
      | some (.refused r) =>
        if r.binding.sameBinding final then
          match state, r.resolution with
          -- a commit that retained no session has no `session_id`
          | .created _, .committed _ => .error (.raised .badKey)
          | .notCommitted, .notCommitted reason => .ok (reason = .creationCancelled)
          | _, _ => .ok false
        else .ok false
    else .ok false

/-- `capsule_valid?`: the capsule agrees with the reservation it names, with the head and with the final
transaction. -/
def capsuleValid (S : State) (head : Head) (c : Capsule) : Attempt Bool :=
  if 0 < c.reservationOwnerGeneration ∧ c.reservationOwnerGeneration ≤ creationUint64 - 2 ∧
      0 < c.reservationDomainVersion ∧ c.reservationDomainVersion ≤ creationUint64 - 1 then
    match reserveCreation c.runtimeId c.commandId c.reservationOwnerGeneration
        c.reservationOwnerSelection (c.reservationDomainVersion - 1) c.genesis with
    | .ok ⟨.reserveCreation r, canonical, digest⟩ =>
      match S.creationResolutions.lookup (r.runtimeId, .reserveCreation, r.txId) with
      | some retained =>
        if looseEq r.genesis c.genesis ∧ r.txId = c.reservationTxId ∧
            retained.binding.sameBinding ⟨.reserveCreation r, canonical, digest⟩ ∧
            retained.resolution = .committed (.reserve r.runtimeId
              ⟨c.reservationOwnerGeneration + 1, some c.reservationOwnerSelection,
                c.reservationDomainVersion, some c.commandId⟩ r.txId c.reservationDomainVersion) ∧
            head.ownerGeneration ≥ c.reservationOwnerGeneration + 1 ∧
            head.domainVersion ≥ c.reservationDomainVersion ∧
            (head.ownerGeneration ≠ c.reservationOwnerGeneration + 1 ∨
              head.ownerSelection = some c.reservationOwnerSelection) then
          match createSession c.runtimeId c.commandId c.genesis with
          | .ok final => capsuleTerminalValid S head c final
          | .error _ => .ok false
        else .ok false
      | none => .ok false
    | _ => .ok false
  else .ok false

/-- The capsule is valid and is that of a command. -/
def capsuleOf (S : State) (head : Head) (c : Capsule) (runtimeId commandId : Identifier) : Attempt Bool :=
  if c.runtimeId = runtimeId ∧ c.commandId = commandId then capsuleValid S head c else .ok false

/-- `creation_head_valid?`. -/
def creationHeadValid (h : Head) : Bool :=
  h.ownerGeneration ≤ creationUint64 && h.domainVersion ≤ creationUint64 &&
    if h.ownerGeneration = 0 then
      h.ownerSelection = none && h.domainVersion = 0 && h.activeCommandId = none
    else
      h.ownerSelection.isSome && h.ownerGeneration > h.domainVersion &&
        (h.activeCommandId = none ||
          (h.ownerGeneration ≥ 2 && h.ownerGeneration ≤ creationUint64 - 1 && h.domainVersion ≥ 1 &&
            h.domainVersion ≤ creationUint64 - 1))

/-- `active_capsule_valid?`. -/
def activeCapsuleValid (S : State) (runtimeId : Identifier) (head : Head) : Attempt Bool :=
  match head.activeCommandId with
  | none => .ok true
  | some command =>
    match S.creationCapsules.lookup (runtimeId, command) with
    | some c => if c.state = .reserved then capsuleOf S head c runtimeId command else .ok false
    | none => .ok false

/-- The answers of `creation_recovery`. -/
inductive Recovery where
  | reply (t : Term)
  | unavailable
  | invalid
  deriving DecidableEq

/-- The capsule of a selected command. -/
def State.selectedCapsule (S : State) (runtimeId : Identifier) (selected : Option Identifier) :
    Option Capsule :=
  selected.bind fun command => S.creationCapsules.lookup (runtimeId, command)

/-- The capsule of a selected command, where there is one, is valid. -/
def selectedCapsuleValid (S : State) (runtimeId : Identifier) (head : Head)
    (selected : Option Identifier) : Attempt Bool :=
  match selected, S.selectedCapsule runtimeId selected with
  | some command, some c => capsuleOf S head c runtimeId command
  | _, _ => .ok true

/-- The checks of `creation_recovery` on a selected command. -/
def recoveryValid (S : State) (runtimeId : Identifier) (head : Head) (selected : Option Identifier) :
    Attempt Bool := do
  let capsule := S.selectedCapsule runtimeId selected
  if creationHeadValid head then
    if ← activeCapsuleValid S runtimeId head then
      let valid ← selectedCapsuleValid S runtimeId head selected
      .ok (valid && (selected ≠ head.activeCommandId || selected = none || capsule.isSome) &&
        recoverySize (recoveryReply runtimeId head capsule))
    else .ok false
  else .ok false

/-- `creation_recovery`: an exception is unavailability. -/
def State.creationRecovery (S : State) (request : Term) : Recovery :=
  match request with
  | .map kvs =>
    if closedMap (.map kvs) ["runtime_id", "command_id"] then
      match (lookup (sym "runtime_id") kvs).bind asIdentifier, lookup (sym "command_id") kvs with
      | some runtimeId, some command =>
        let head := S.creationHead runtimeId
        let reply := fun selected : Option Identifier =>
          match recoveryValid S runtimeId head selected with
          | .ok true => .reply (recoveryReply runtimeId head (S.selectedCapsule runtimeId selected))
          | _ => .unavailable
        if command = nil then reply head.activeCommandId
        else match asIdentifier command with
          | some id => reply (some id)
          | none => .invalid
      | _, _ => .invalid
    else .invalid
  | _ => .invalid

/-- The members of `creation_eligibility`. -/
structure Claimant where
  ownerGeneration : ℕ
  ownerSelection : Selection
  expectedDomainVersion : ℕ

def ReserveCreation.claimant (t : ReserveCreation) : Claimant :=
  ⟨t.ownerGeneration, t.ownerSelection, t.expectedDomainVersion⟩

def CloseCreationReservation.claimant (t : CloseCreationReservation) : Claimant :=
  ⟨t.ownerGeneration, t.ownerSelection, t.expectedDomainVersion⟩

/-- `creation_eligibility`. -/
def creationEligibility (head : Head) (t : Claimant) : Option Refusal :=
  if head.ownerGeneration ≠ t.ownerGeneration ∨ head.ownerSelection ≠ some t.ownerSelection then
    some .staleCreationGeneration
  else if head.domainVersion ≠ t.expectedDomainVersion then some .creationDomainConflict
  else none

/-- A head after its owner spent one generation and one version. -/
def Head.advance (h : Head) (active : Option Identifier) : Head :=
  ⟨h.ownerGeneration + 1, h.ownerSelection, h.domainVersion + 1, active⟩

/-- The head after a claim. -/
def Head.claim (h : Head) (selection : Selection) : Head :=
  ⟨h.ownerGeneration + 1, some selection, h.domainVersion, h.activeCommandId⟩

/-- The most generations a head may have spent before a claim. -/
def Head.maximum (h : Head) : ℕ :=
  if h.activeCommandId = none then creationUint64 - 3 else creationUint64 - 2

/-- `reserve_capsule`. -/
def reserveCapsule (t : ReserveCreation) : Capsule :=
  ⟨t.runtimeId, t.commandId, t.txId, t.ownerGeneration, t.ownerSelection, t.expectedDomainVersion + 1,
    t.genesis, .reserved⟩

/-- Two hundred and fifty-six `s`. -/
def longestSession : Identifier :=
  ⟨List.replicate 256 115, by rw [List.length_replicate]; decide, by rw [List.length_replicate]; decide⟩

/-- `prospective_recovery_fits?`: the reply of the reservation, and those of both its ends. -/
def prospectiveRecoveryFits (runtimeId : Identifier) (head : Head) (c : Capsule) : Bool :=
  let terminal := head.advance none
  recoverySize (recoveryReply runtimeId head (some c)) &&
    recoverySize (recoveryReply runtimeId terminal
      (some { c with state := .created longestSession })) &&
    recoverySize (recoveryReply runtimeId terminal (some { c with state := .notCommitted }))

/-- The frame of a transaction that stamped nothing. -/
def bareFrame (T : Transaction) (raw : Term) (resolution : Resolution) : Frame :=
  ⟨T.body.type, raw, resolution, [], []⟩

/-- `retain_creation_resolution`. -/
def retainCreationResolution (S : State) (T : Transaction) (raw : Term) (runtimeId : Identifier)
    (resolution : Resolution) : Prepared :=
  .new (S.putCreationResolution runtimeId T resolution) (bareFrame T raw resolution)
    (outcomeOf T.body.txId resolution)

/-- `refuse_creation`. -/
def refuseCreation (S : State) (T : Transaction) (raw : Term) (runtimeId : Identifier)
    (reason : Refusal) : Prepared :=
  retainCreationResolution S T raw runtimeId (.notCommitted reason)

/-- `commit_creation`. -/
def commitCreation (S : State) (T : Transaction) (raw : Term) (runtimeId : Identifier) (head : Head)
    (capsule : Option Capsule) (receipt : Receipt) : Prepared :=
  let next := S.putHead runtimeId head
  let next := match capsule with
    | some c => next.putCapsule c
    | none => next
  retainCreationResolution next T raw runtimeId (.committed receipt)

/-- `linearize` of a claim. -/
def linearizeClaim (S : State) (T : Transaction) (raw : Term) (t : ClaimCreationDomain) : Prepared :=
  let head := S.creationHead t.runtimeId
  if head.ownerGeneration ≠ t.expectedOwnerGeneration then
    refuseCreation S T raw t.runtimeId .staleCreationGeneration
  else if head.ownerGeneration > head.maximum then
    refuseCreation S T raw t.runtimeId .creationCounterExhausted
  else
    let next := head.claim t.ownerSelection
    commitCreation S T raw t.runtimeId next none (.claim t.runtimeId next)

/-- `linearize` of a reservation. -/
def linearizeReserve (S : State) (T : Transaction) (raw : Term) (t : ReserveCreation) : Prepared :=
  let head := S.creationHead t.runtimeId
  let capsule := reserveCapsule t
  let next := head.advance (some t.commandId)
  match creationEligibility head t.claimant with
  | some reason => refuseCreation S T raw t.runtimeId reason
  | none =>
    if head.activeCommandId ≠ none then refuseCreation S T raw t.runtimeId .creationInProgress
    else if (S.creationCapsules.lookup (t.runtimeId, t.commandId)).isSome ∨
        (S.runtimeCommands.lookup (t.runtimeId, t.commandId)).isSome then
      refuseCreation S T raw t.runtimeId .runtimeCommandConflict
    else if head.ownerGeneration > creationUint64 - 2 ∨ head.domainVersion > creationUint64 - 2 then
      refuseCreation S T raw t.runtimeId .creationCounterExhausted
    else if !prospectiveRecoveryFits t.runtimeId next capsule then
      refuseCreation S T raw t.runtimeId .creationRecoveryTooLarge
    else commitCreation S T raw t.runtimeId next (some capsule)
      (.reserve t.runtimeId next t.txId next.domainVersion)

/-- `close_relation?`: the close names this reservation and the exact final transaction. -/
def closeRelation (S : State) (head : Head) (capsule : Option Capsule) (t : CloseCreationReservation) :
    Attempt (Option (Capsule × Transaction)) :=
  match capsule with
  | none => .ok none
  | some c => do
    if ← capsuleValid S head c then
      if c.reservationTxId = t.reservationTxId ∧
          c.reservationDomainVersion = t.reservationDomainVersion then
        match createSession c.runtimeId c.commandId c.genesis with
        | .ok final =>
          if final.canonicalRecordBytes = t.finalCanonicalRecordBytes ∧
              final.canonicalMutationDigest = t.finalCanonicalMutationDigest then .ok (some (c, final))
          else .ok none
        | .error _ => .ok none
      else .ok none
    else .ok none

/-- A capsule after its reservation is closed. -/
def Capsule.terminal (c : Capsule) : Capsule := { c with state := .notCommitted }

/-- `creation_close_receipt`. -/
def creationCloseReceipt (t : CloseCreationReservation) (head : Head) (c : Capsule) : Receipt :=
  .close t.runtimeId head t.commandId t.reservationTxId c.state

/-- `linearize` of a close. -/
def linearizeClose (S : State) (T : Transaction) (raw : Term) (t : CloseCreationReservation) :
    Attempt Prepared := do
  let head := S.creationHead t.runtimeId
  let eligibility := creationEligibility head t.claimant
  match ← closeRelation S head (S.creationCapsules.lookup (t.runtimeId, t.commandId)) t with
  | some (c, final) =>
    match S.retainedResolution final.body.scope with
    | some _ =>
      .ok (retainCreationResolution S T raw t.runtimeId (.committed (creationCloseReceipt t head c)))
    | none =>
      match eligibility with
      | some reason => .ok (refuseCreation S T raw t.runtimeId reason)
      | none =>
        if head.ownerGeneration > creationUint64 - 1 ∨ head.domainVersion > creationUint64 - 1 then
          .ok (refuseCreation S T raw t.runtimeId .creationCounterExhausted)
        else
          let next := S.putRuntimeCommand c.runtimeId c.commandId
            (.refused ⟨final, .notCommitted .creationCancelled⟩)
          let nextHead := head.advance none
          .ok (commitCreation next T raw t.runtimeId nextHead (some c.terminal)
            (creationCloseReceipt t nextHead c.terminal))
  | none =>
    .ok (refuseCreation S T raw t.runtimeId (eligibility.getD .creationReservationConflict))

/-! ## session creation -/

/-- The id of a session number. -/
def sessionIdOf (runtimeId commandId : Identifier) (number : ℕ) : Identifier :=
  ⟨utf8 "s_" ++ (hex (sha256 (termToBinary (.list [str "loopex_session_id_v1", runtimeId.term,
      commandId.term, .int number])))).take 30, by simp [utf8], by
    have h : (utf8 "s_").length = 2 := by decide
    simp [h, maxIdentifierBytes]⟩

/-- The session id is in use. -/
def State.taken (S : State) (id : Identifier) : Bool :=
  (S.sessions.lookup id).isSome || (S.orphanResolutions.lookup id).isSome

/-- `allocate_session_id`: the first free id from a number on. -/
def allocateSessionId (S : State) (runtimeId commandId : Identifier) : ℕ → ℕ → Attempt (Identifier × ℕ)
  | 0, _ => .error .unfinished
  | fuel + 1, number =>
    if S.taken (sessionIdOf runtimeId commandId number) then
      allocateSessionId S runtimeId commandId fuel (number + 1)
    else .ok (sessionIdOf runtimeId commandId number, number)

/-- `creation_row`. -/
def creationRow (T : Transaction) (t : CreateSession) (sessionId : Identifier) (ordinal : ℕ) :
    Option CreationRow :=
  match SessionGenesis.normalize t.genesis with
  | .ok genesis =>
    match createSession t.runtimeId t.commandId genesis with
    | .ok verified =>
      if verified.canonicalRecordBytes = T.canonicalRecordBytes ∧
          verified.canonicalMutationDigest = T.canonicalMutationDigest then
        some ⟨t.runtimeId, t.commandId, sessionId, hex T.canonicalMutationDigest, ordinal⟩
      else none
    | .error _ => none
  | .error _ => none

/-- `retain_creation_index`. -/
def retainCreationIndex (S : State) (T : Transaction) (t : CreateSession) (sessionId : Identifier) :
    State :=
  let ordinal := (S.createOrdinals.lookup t.runtimeId).getD 0 + 1
  { S with
    createOrdinals := S.createOrdinals.insert t.runtimeId ordinal
    creationRows := S.creationRows.insert (t.runtimeId, ordinal) (creationRow T t sessionId ordinal)
    sessionCreations := S.sessionCreations.insert sessionId (t.runtimeId, ordinal) }

/-- `stamp_genesis`. -/
def stampGenesis (payload : Term) : Record := ⟨1, 0, none, payload⟩

/-- A session as it is created. -/
def Session.create (runtimeId : Identifier) (genesis : Term) : Session :=
  ⟨runtimeId, 0, none, 1, 0, [stampGenesis genesis], [], ∅, ∅⟩

/-- `commit_created_session`: the next state, the frame and the session. -/
def commitCreatedSession (S : State) (T : Transaction) (raw : Term) (t : CreateSession) (fuel : ℕ) :
    Attempt (State × Frame × Identifier) := do
  let (sessionId, number) ← allocateSessionId S t.runtimeId t.commandId fuel S.nextSessionNumber
  let resolution := .committed (.create sessionId)
  let next := { S with nextSessionNumber := number + 1 }
  let next := next.putRuntimeCommand t.runtimeId t.commandId (.created ⟨T, resolution⟩ sessionId)
  let next := next.putSession sessionId (Session.create t.runtimeId t.genesis)
  .ok (retainCreationIndex next T t sessionId,
    ⟨.createSession, raw, resolution, [stampGenesis t.genesis], []⟩, sessionId)

/-- `linearize` of a session creation. -/
def linearizeCreate (S : State) (T : Transaction) (raw : Term) (t : CreateSession) (fuel : ℕ) :
    Attempt Prepared :=
  let head := S.creationHead t.runtimeId
  match S.creationCapsules.lookup (t.runtimeId, t.commandId) with
  | none =>
    let resolution := .notCommitted .creationReservationRequired
    .ok (.new (S.putRuntimeCommand t.runtimeId t.commandId (.refused ⟨T, resolution⟩))
      (bareFrame T raw resolution) (.notCommitted .creationReservationRequired))
  | some c => do
    let valid ← capsuleOf S head c t.runtimeId t.commandId
    if !valid || c.state ≠ .reserved then
      .ok (.invalid (.notCommitted .creationReservationConflict))
    else if !looseEq c.genesis t.genesis then .ok (.invalid (.notCommitted .txIdConflict))
    else if head.ownerGeneration > creationUint64 - 1 ∨ head.domainVersion > creationUint64 - 1 then
      .ok (.invalid (.notCommitted .creationCounterExhausted))
    else
      let (next, frame, sessionId) ← commitCreatedSession S T raw t fuel
      let next := next.putHead t.runtimeId (head.advance none)
      .ok (.new (next.putCapsule { c with state := .created sessionId }) frame
        (.committed t.commandId (.create sessionId)))

/-! ## owner succession and session commits -/

/-- `owner_command_binding`. -/
def SuccessionCommand.binding (c : SuccessionCommand) (sessionId mutationDomain : Identifier) :
    OwnerCommand :=
  ⟨c.runtimeId, c.commandId, sessionId, mutationDomain, c.successionId, c.canonicalCommandBytes⟩

/-- `candidate.tx_id`. -/
def candidateTxId (candidate : Term) : Attempt Term :=
  match candidate with
  | .map kvs =>
    match lookup (sym "tx_id") kvs with
    | some t => .ok t
    | none => .error (.raised .badKey)
  | _ => .error (.raised .badKey)

/-- An entry stands in the way of a staging: it is the open attempt of another command of the session
and domain, and its candidate is unresolved. -/
def unresolvedEntry (session : Session) (t : StageOwnerAttempt) (entry : RuntimeCommand) :
    Attempt Bool :=
  match entry with
  | .staged command .open _ candidate _ =>
    if (command.sessionId = t.sessionId ∧ command.mutationDomain = t.mutationDomain) ∧
        ¬ (command.runtimeId = t.command.runtimeId ∧ command.commandId = t.command.commandId) then do
      let txId ← candidateTxId candidate
      .ok ((asIdentifier txId).bind fun id => session.resolutions.lookup (t.mutationDomain, id)).isNone
    else .ok false
  | _ => .ok false

/-- `Enum.any?` of a check that may raise. -/
def anyOf (check : RuntimeCommand → Attempt Bool) : List RuntimeCommand → Attempt Bool
  | [] => .ok false
  | entry :: entries => do
    if ← check entry then .ok true else anyOf check entries

/-- `unresolved_other_owner_command?`. -/
def unresolvedOtherOwnerCommand (S : State) (session : Session) (t : StageOwnerAttempt) : Attempt Bool :=
  anyOf (unresolvedEntry session t) (S.runtimeCommands.entries.map Sigma.snd)

/-- `stage_refusal`. -/
def stageRefusal (S : State) (session : Session) (t : StageOwnerAttempt) : Attempt (Option Refusal) := do
  if session.runtimeId ≠ t.command.runtimeId then .ok (some .runtimePlacementMismatch)
  else if ← unresolvedOtherOwnerCommand S session t then .ok (some .ownerAttemptInProgress)
  else if (S.creationCapsules.lookup (t.command.runtimeId, t.command.commandId)).isSome then
    .ok (some .runtimeCommandConflict)
  else
    match S.runtimeCommands.lookup (t.command.runtimeId, t.command.commandId) with
    | none => .ok (if t.expectedGeneration = 0 then none else some .staleAttemptGeneration)
    | some (.staged command status generation _ _) =>
      if command = t.command.binding t.sessionId t.mutationDomain then
        match status with
        | .open =>
          .ok (if generation = t.expectedGeneration then none else some .runtimeCommandConflict)
        | .completed => .ok (some .commandCompleted)
      else .ok (some .runtimeCommandConflict)
    | some _ => .ok (some .runtimeCommandConflict)

/-- `owner_command_refusal`. -/
def ownerCommandRefusal (S : State) (T : Transaction) (t : AdvanceOwner) : Attempt (Option Refusal) :=
  match t.command with
  | none => .ok none
  | some c =>
    if (S.creationCapsules.lookup (c.runtimeId, c.commandId)).isSome then
      .ok (some .runtimeCommandConflict)
    else
      match S.runtimeCommands.lookup (c.runtimeId, c.commandId) with
      | some (.staged command status generation candidate _) =>
        if command = c.binding t.sessionId t.mutationDomain then
          match status, candidate with
          | .open, .map kvs =>
            if generation = c.attemptGeneration ∧ lookup (sym "tx_id") kvs = some t.txId.term then
              match immutableBinding kvs with
              | .raise x => .error (.raised x)
              | .ok binding => .ok (if binding = T then none else some .ownerCandidateConflict)
              | .error _ => .ok (some .ownerCandidateConflict)
            else .ok (some .runtimeCommandConflict)
          | .open, _ => .ok (some .runtimeCommandConflict)
          | .completed, _ => .ok (some .commandCompleted)
        else .ok (some .runtimeCommandConflict)
      | _ => .ok (some .runtimeCommandConflict)

/-- `succession_refusal`. -/
def successionRefusal (S : State) (session : Session) (T : Transaction) (t : AdvanceOwner) :
    Attempt (Option Refusal) := do
  match ← ownerCommandRefusal S T t with
  | some reason => .ok (some reason)
  | none =>
    .ok (if t.expectedOwnerEpoch ≠ session.ownerEpoch then some .staleOwnerEpoch
      else if t.expectedJournalVersion ≠ session.journalVersion then some .staleJournalVersion
      else none)

/-- `ordinary_refusal`. -/
def ordinaryRefusal (session : Session) (t : SessionCommit) : Option Refusal :=
  if t.expectedOwnerEpoch ≠ session.ownerEpoch then some .staleOwnerEpoch
  else if some t.expectedOwnerIncarnationId ≠ session.ownerIncarnationId then
    some .staleOwnerIncarnationId
  else if t.expectedJournalVersion ≠ session.journalVersion then some .staleJournalVersion
  else if (eventIds t.outbox).any fun id => (session.eventIds.lookup id).isSome then
    some .duplicateEventId
  else none

/-- `put_resolution`. -/
def putResolution (resolutions : Resolutions) (mutationDomain : Identifier) (T : Transaction)
    (resolution : Resolution) : Resolutions :=
  resolutions.insert (mutationDomain, T.body.txId) ⟨T, resolution⟩

/-- A session with one more resolution. -/
def Session.retain (session : Session) (mutationDomain : Identifier) (T : Transaction)
    (resolution : Resolution) : Session :=
  { session with resolutions := putResolution session.resolutions mutationDomain T resolution }

/-- `retain_non_commit`. -/
def retainNonCommit (S : State) (session : Session) (T : Transaction) (raw : Term)
    (sessionId mutationDomain : Identifier) (reason : Refusal) : Prepared :=
  .new (S.putSession sessionId (session.retain mutationDomain T (.notCommitted reason)))
    (bareFrame T raw (.notCommitted reason)) (.notCommitted reason)

/-- `retain_absent_session`. -/
def retainAbsentSession (S : State) (T : Transaction) (raw : Term)
    (sessionId mutationDomain : Identifier) : Prepared :=
  let resolutions := (S.orphanResolutions.lookup sessionId).getD ∅
  let updated := putResolution resolutions mutationDomain T (.notCommitted .sessionNotFound)
  .new { S with orphanResolutions := S.orphanResolutions.insert sessionId updated }
    (bareFrame T raw (.notCommitted .sessionNotFound)) (.notCommitted .sessionNotFound)

/-- The payload of a succession record. -/
def successionPayload (session : Session) (t : AdvanceOwner) : Term :=
  mapOf [(str "prior_owner_epoch", .int session.ownerEpoch),
    (str "owner_epoch", .int (session.ownerEpoch + 1)),
    (str "owner_incarnation_id", t.proposedOwnerIncarnationId.term),
    (str "owner_transaction_id", t.txId.term), (sym "kind", str "owner_advanced")]

/-- The stamped record of a succession. -/
def successionRecord (session : Session) (t : AdvanceOwner) : Record :=
  ⟨session.journalVersion + 1, session.ownerEpoch + 1, some t.proposedOwnerIncarnationId,
    successionPayload session t⟩

/-- The receipt of a succession. -/
def successionReceipt (session : Session) (t : AdvanceOwner) : Receipt :=
  .advance (session.ownerEpoch + 1) t.proposedOwnerIncarnationId (session.journalVersion + 1)

/-- A session after a succession. -/
def Session.succeed (session : Session) (T : Transaction) (t : AdvanceOwner) : Session :=
  { session with
    ownerEpoch := session.ownerEpoch + 1
    ownerIncarnationId := some t.proposedOwnerIncarnationId
    journalVersion := session.journalVersion + 1
    records := session.records ++ [successionRecord session t]
    resolutions :=
      putResolution session.resolutions t.mutationDomain T (.committed (successionReceipt session t)) }

/-- `commit_succession`. -/
def commitSuccession (S : State) (session : Session) (T : Transaction) (raw : Term) (t : AdvanceOwner) :
    Attempt Prepared :=
  let receipt := successionReceipt session t
  let next := S.putSession t.sessionId (session.succeed T t)
  let frame := ⟨.advanceOwner, raw, .committed receipt, [successionRecord session t], []⟩
  let outcome := .committed t.txId receipt
  match t.command with
  | none => .ok (.new next frame outcome)
  | some c =>
    match next.runtimeCommands.lookup (c.runtimeId, c.commandId) with
    | some (.staged command _ generation candidate _) =>
      let completed := .staged command .completed generation candidate (some t.sessionId)
      .ok (.new (next.putRuntimeCommand c.runtimeId c.commandId completed) frame outcome)
    | some _ => .error (.raised .badKey)
    | none => .error (.raised .badMatch)

/-- The records of a commit, stamped from a version on. -/
def stampRecords (session : Session) : ℕ → List Term → List Record
  | _, [] => []
  | version, payload :: payloads =>
    ⟨version, session.ownerEpoch, session.ownerIncarnationId, payload⟩ ::
      stampRecords session (version + 1) payloads

/-- `Map.put(event, :event_sequence, sequence)`. -/
def stampEvent (sequence : ℕ) : Term → Term
  | .map kvs => .map (putEntry (sym "event_sequence") (.int sequence) kvs)
  | t => t

/-- The events of a commit, stamped from a sequence on. -/
def stampEvents : ℕ → List Term → List Term
  | _, [] => []
  | sequence, event :: events => stampEvent sequence event :: stampEvents (sequence + 1) events

/-- The receipt of a commit. -/
def commitReceipt (session : Session) (t : SessionCommit) : Receipt :=
  .commit (session.journalVersion + 1) (session.journalVersion + t.records.length)
    (if t.outbox = [] then none
      else some (session.eventSequence + 1, session.eventSequence + t.outbox.length))

/-- A session after a commit. -/
def Session.append (session : Session) (T : Transaction) (t : SessionCommit) : Session :=
  let events := stampEvents (session.eventSequence + 1) t.outbox
  { session with
    journalVersion := session.journalVersion + t.records.length
    eventSequence := session.eventSequence + events.length
    records := session.records ++ stampRecords session (session.journalVersion + 1) t.records
    events := session.events ++ events
    eventIds := (Loopex.Store.eventIds events).foldl (fun ids id => ids.insert id ()) session.eventIds
    resolutions :=
      putResolution session.resolutions t.mutationDomain T (.committed (commitReceipt session t)) }

/-- `commit_records`. -/
def commitRecords (S : State) (session : Session) (T : Transaction) (raw : Term) (t : SessionCommit) :
    Prepared :=
  .new (S.putSession t.sessionId (session.append T t))
    ⟨.sessionCommit, raw, .committed (commitReceipt session t),
      stampRecords session (session.journalVersion + 1) t.records,
      stampEvents (session.eventSequence + 1) t.outbox⟩
    (.committed t.txId (commitReceipt session t))

/-- A session after a staging. -/
def Session.stage (session : Session) (T : Transaction) (t : StageOwnerAttempt) : Session :=
  session.retain t.mutationDomain T (.committed .stage)

/-- `linearize` of a staging. -/
def linearizeStage (S : State) (T : Transaction) (raw : Term) (t : StageOwnerAttempt) :
    Attempt Prepared :=
  match S.sessions.lookup t.sessionId with
  | none => .ok (retainAbsentSession S T raw t.sessionId t.mutationDomain)
  | some session => do
    match ← stageRefusal S session t with
    | some reason => .ok (retainNonCommit S session T raw t.sessionId t.mutationDomain reason)
    | none =>
      let command := t.command.binding t.sessionId t.mutationDomain
      let staged := .staged command .open t.command.attemptGeneration t.candidate none
      let next := S.putSession t.sessionId (session.stage T t)
      .ok (.new (next.putRuntimeCommand t.command.runtimeId t.command.commandId staged)
        (bareFrame T raw (.committed .stage)) (.committed t.txId .stage))

/-- `linearize` of a succession. -/
def linearizeAdvance (S : State) (T : Transaction) (raw : Term) (t : AdvanceOwner) : Attempt Prepared :=
  match S.sessions.lookup t.sessionId with
  | none => .ok (retainAbsentSession S T raw t.sessionId t.mutationDomain)
  | some session => do
    match ← successionRefusal S session T t with
    | some reason => .ok (retainNonCommit S session T raw t.sessionId t.mutationDomain reason)
    | none => commitSuccession S session T raw t

/-- `linearize` of a session commit. -/
def linearizeCommit (S : State) (T : Transaction) (raw : Term) (t : SessionCommit) : Prepared :=
  match S.sessions.lookup t.sessionId with
  | none => retainAbsentSession S T raw t.sessionId t.mutationDomain
  | some session =>
    match ordinaryRefusal session t with
    | some reason => retainNonCommit S session T raw t.sessionId t.mutationDomain reason
    | none => commitRecords S session T raw t

/-! ## presenting a transaction -/

/-- `linearize`. -/
def linearize (fuel : ℕ) (S : State) (T : Transaction) (raw : Term) : Attempt Prepared :=
  match T.body with
  | .claimCreationDomain t => .ok (linearizeClaim S T raw t)
  | .reserveCreation t => .ok (linearizeReserve S T raw t)
  | .closeCreationReservation t => linearizeClose S T raw t
  | .createSession t => linearizeCreate S T raw t fuel
  | .stageOwnerAttempt t => linearizeStage S T raw t
  | .advanceOwner t => linearizeAdvance S T raw t
  | .sessionCommit t => .ok (linearizeCommit S T raw t)

def invalidTransaction : Prepared := .invalid (.notCommitted .invalidTransaction)

/-- `prepare_unknown`. -/
def prepareUnknown (fuel : ℕ) (S : State) (kvs : List (Term × Term)) : Attempt Prepared :=
  match validateTransaction (.map kvs) with
  | .raise x => .error (.raised x)
  | .error _ => .ok invalidTransaction
  | .ok T => linearize fuel S T (.map kvs)

/-- `prepare_valid`. -/
def prepareValid (access : StructAccess) (fuel : ℕ) (S : State) (kvs : List (Term × Term)) :
    Attempt Prepared := do
  match ← scopeOf access kvs with
  | .at scope =>
    match S.retainedResolution scope with
    | some entry => resolveKnown entry kvs
    | none => prepareUnknown fuel S kvs
  | .nowhere => prepareUnknown fuel S kvs
  | .invalid => .ok invalidTransaction

/-- `prepare`: creation transactions are validated before anything else. -/
def prepare (access : StructAccess) (fuel : ℕ) (S : State) (kvs : List (Term × Term)) :
    Attempt Prepared :=
  if (typeOf kvs).any TransactionType.isCreation then
    match validateTransaction (.map kvs) with
    | .raise x => .error (.raised x)
    | .error _ => .ok invalidTransaction
    | .ok _ => prepareValid access fuel S kvs
  else prepareValid access fuel S kvs

end Loopex.Store
