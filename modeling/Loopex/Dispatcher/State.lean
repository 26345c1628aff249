import Loopex.System.WorkLedger
import Loopex.Transfers.Owner

/-!
# The event dispatcher

The dispatcher holds the attachments of the connections to a runtime.  The holder of an attachment is the connection's
process; what artifact transfers read and write for it is debited to its record, which outlives its attachments.

* `Holder`, `Attachment`, `Staged`, `Entry` — the records of the state
* `reserveConnectionWork`, `settleConnectionWork`, `settleOpeningWork` — the account of a holder
* `State.calls` — a ledger that these functions write and nothing reads
-/

namespace Loopex.Dispatcher

open Loopex.Erlang Loopex.System
open Loopex.Transfers (Ref Pid Tag Request Context Reason Object Transfer Work From Table validTransferRef
  validTransferRequest validOpenContext validTransferUseLocator)

/-! ## records -/

/-- A holder, by its pid; the sets are lists without repetition. -/
structure Holder where
  monitor : Tag
  pending : List Tag
  attachments : List Bytes
  transferDebit : ℤ
  transferReserved : ℤ
  transferUncertain : Bool
  alive : Bool

structure Attachment where
  id : Bytes
  incarnationId : Bytes
  sessionId : Bytes
  holder : Pid
  active : Bool

/-- A staged attachment; until its scan is finished, `attachment` is none. -/
structure Staged where
  control : Pid
  worker : Pid
  sessionId : Bytes
  holder : Pid
  id : Bytes
  incarnationId : Bytes
  replaceAttachmentId : Option Bytes
  attachment : Option Attachment

inductive Phase where
  | reserving | reserved | opening | live | retiring
  deriving DecidableEq

/-- The callback that the custodian of a transfer is in. -/
inductive Invocation where
  | idle | reserve | opening | read (id : Tag) | joined
  deriving DecidableEq

/-- The callback that the observer of a transfer is in. -/
inductive Observation where
  | idle | retire | acknowledge
  deriving DecidableEq

inductive NoReservation where
  | reply | lostRegistration
  deriving DecidableEq

inductive LossKind where
  | custodian | other
  deriving DecidableEq

/-- Reported work: a map, or `:unavailable`. -/
inductive WorkReport where
  | work (work : Work)
  | unavailable
  deriving DecidableEq

structure Read where
  id : Tag
  caller : Option From
  deadline : ℤ
  reserved : ℤ

/-- `{:retired, receipt}` of a close. -/
structure Receipt where
  receiptRef : Ref
  work : WorkReport

/-- The custody of a transfer. -/
structure Entry where
  id : Ref
  holder : Pid
  sessionId : Bytes
  attachmentId : Bytes
  incarnationId : Bytes
  request : Request
  context : Context
  phase : Phase
  custodian : Pid
  custodianMonitor : Tag
  observer : Pid
  observerMonitor : Tag
  callerMonitor : Tag
  openFrom : Option From
  closeFrom : Option From
  invocation : Invocation
  observation : Observation
  lostRegistrationProof : Bool
  permission : Bool
  notReserved : Bool
  noReservationProof : Option NoReservation
  reserved : Bool
  receipt : Option Receipt
  acknowledged : Bool
  /-- The end of the custodian, and whether it was normal. -/
  custodianDown : Option Bool
  observerDown : Option Bool
  lost : Bool
  lossKind : Option LossKind
  /-- The deadline of the retirement. -/
  cleanup : Option ℤ
  reason : Option Reason
  lifetimeDeadline : Option ℤ
  callbackCompletedAt : Option ℤ
  read : Option Read
  transfer : Option Transfer
  cursor : ℕ
  openingWork : Option WorkReport
  openingCharged : Bool
  workReserved : ℤ
  stopping : Bool

/-- Whom the monitor of a transfer is for. -/
inductive Watch where
  | custodian | observer | caller
  deriving DecidableEq

/-- A call of the store: the opening of a transfer by its custodian, or a read. -/
inductive StoreCall where
  | opening (id : Ref) (custodian : Pid)
  | read (id : Ref) (readId : Tag)
  deriving DecidableEq

/-- The reference that makes a call new. -/
def StoreCall.tag : StoreCall → Tag
  | .opening _ custodian => custodian
  | .read _ readId => readId

/-- The state, as far as the custody of transfers depends on it.  `next` is the next unused pid or reference; `failed`
tells that a `Map.fetch!` raised. -/
structure State where
  token : Tag
  incarnation : Tag
  supportsTransfer : Bool
  holders : Table Pid Holder
  holderMonitors : Table Tag Pid
  staged : Table Tag Staged
  attachments : Table Bytes Attachment
  artifactTransfers : Table Ref Entry
  artifactMonitors : Table Tag (Ref × Watch × Pid)
  diagnosticMonitors : Table Pid Tag
  next : Tag
  failed : Bool
  calls : WorkLedger StoreCall Pid

/-- The errors that a call is refused with. -/
inductive Refusal where
  | staleAttachment | invalidArtifactRequest | artifactTransferUnsupported | transferLimitReached
  | openWorkBudgetExhausted | transfersUnavailable | unknownTransfer | invalidChunkLength
  deriving DecidableEq

/-- Where a handler reads the clock. -/
inductive Reading where
  | entry | adopt | expire | answer | cancel | observe | settle
  deriving DecidableEq

/-- What a handler learns from the machine it runs on: the clock at each of its readings, and who is alive. -/
structure Env where
  now : Reading → Ref → ℤ
  alive : Pid → Bool

/-- `transfer_limits`, as far as the dispatcher reads them. -/
def openWorkBytes : ℤ := 134217728

def metadataReadBytes : ℤ := 131073

def chunkBytes : ℤ := 32768

def lifetimeMs : ℤ := 600000

def cleanupDeadlineMs : ℤ := 5000

/-! ## entries -/

namespace State

variable (s : State)

/-- `put_artifact_entry`. -/
def putEntry (entry : Entry) : State := { s with artifactTransfers := s.artifactTransfers.insert entry.id entry }

/-- `Map.fetch!` of an entry. -/
def fetchEntry (id : Ref) (f : Entry → State) : State :=
  match s.artifactTransfers.lookup id with
  | some entry => f entry
  | none => { s with failed := true }

def putHolder (pid : Pid) (holder : Holder) : State := { s with holders := s.holders.insert pid holder }

/-! ## the account of a holder -/

/-- `open_work_reservation`. -/
def openWorkReservation : ℤ := max 1048576 (openWorkBytes + metadataReadBytes)

/-- `reserve_connection_work`, for a call. -/
def reserveConnectionWork (call : StoreCall) (holder : Pid) (amount : ℤ) : Except Refusal State :=
  match s.holders.lookup holder with
  | some entry =>
    if entry.alive = true ∧ entry.transferUncertain = false then
      if entry.transferDebit + entry.transferReserved + amount ≤ 1073741824 then
        .ok { s.putHolder holder { entry with transferReserved := entry.transferReserved + amount } with
          calls := s.calls.enter call holder amount }
      else .error .openWorkBudgetExhausted
    else .error .transfersUnavailable
  | none => .error .transfersUnavailable

/-- `settle_connection_work`, for a call. -/
def settleConnectionWork (call : StoreCall) (holder : Pid) (reserved actual : ℤ) : State :=
  match s.holders.lookup holder with
  | some entry =>
    { s.putHolder holder { entry with
        transferReserved := entry.transferReserved - reserved
        transferDebit := entry.transferDebit + actual } with
      calls := s.calls.settle call actual }
  | none => { s with failed := true }

/-- `settle_never_reserved`. -/
def settleNeverReserved (id : Ref) : State :=
  s.fetchEntry id fun entry =>
    (s.settleConnectionWork (.opening id entry.custodian) entry.holder entry.workReserved 1048576).putEntry
      { entry with openingCharged := true }

/-- `valid_transfer_work?`. -/
def validTransferWork : WorkReport → Bool
  | .work work => decide (work.sourceReadBytes ≤ 67108864) && decide (work.snapshotWriteDebit ≤ 67108864)
    && decide (work.sourceReadBytes + work.snapshotWriteDebit ≤ 134217728)
    && decide (work.metadataReadBytes ≤ 131073)
  | .unavailable => false

/-- What an opening is charged. -/
def workDebit (work : Work) : ℤ :=
  max 1048576 (work.sourceReadBytes + work.snapshotWriteDebit + work.metadataReadBytes)

/-- What an opening was charged, by the work kept for it. -/
def previousDebit : Option WorkReport → ℤ
  | some (.work work) => workDebit work
  | _ => 1048576

/-- The second branch of `settle_opening_work`: the reported work contradicts what was kept. -/
def disputeOpeningWork (entry : Entry) : State :=
  match s.holders.lookup entry.holder with
  | some holder =>
    { s.putHolder entry.holder { holder with
        transferReserved := holder.transferReserved + entry.workReserved - previousDebit entry.openingWork
        transferUncertain := true } with
      calls := s.calls.raise (.opening entry.id entry.custodian)
        (entry.workReserved - previousDebit entry.openingWork) }.putEntry
      { entry with openingWork := some .unavailable }
  | none => { s with failed := true }

/-- `settle_opening_work`. -/
def settleOpeningWork (id : Ref) (report : WorkReport) : State :=
  s.fetchEntry id fun entry =>
    match entry.openingCharged, report with
    | false, .work work =>
      if validTransferWork (.work work) then
        (s.settleConnectionWork (.opening id entry.custodian) entry.holder entry.workReserved (workDebit work)).putEntry
          { entry with openingCharged := true, openingWork := some (.work work) }
      else s
    | false, .unavailable => s
    | true, report =>
      if entry.openingWork ≠ some report ∧ entry.openingWork ≠ some .unavailable then s.disputeOpeningWork entry else s

/-- `forget_dead_artifact_holder`. -/
def forgetDeadArtifactHolder (pid : Pid) : State :=
  match s.holders.lookup pid with
  | some entry =>
    if entry.alive = false ∧ s.artifactTransfers.entries.all (fun t => t.2.holder ≠ pid) = true ∧
        entry.pending = [] ∧ entry.attachments = [] then
      { s with holders := s.holders.erase pid, holderMonitors := s.holderMonitors.erase entry.monitor }
    else s
  | none => s

/-! ## holders and attachments -/

/-- `register_holder_pending`. -/
def registerHolderPending (pid : Pid) (attachRef : Tag) : State :=
  match s.holders.lookup pid with
  | none =>
    { s.putHolder pid {
        monitor := s.next
        pending := [attachRef]
        attachments := []
        transferDebit := 0
        transferReserved := 0
        transferUncertain := false
        alive := true } with
      holderMonitors := s.holderMonitors.insert s.next pid
      next := s.next + 1 }
  | some entry => s.putHolder pid { entry with pending := entry.pending.insert attachRef }

/-- `update_holder`. -/
def updateHolder (pid : Pid) (update : Holder → Holder) : State :=
  match s.holders.lookup pid with
  | none => s
  | some entry => s.putHolder pid (update entry)

/-- `drop_staged_attachment`. -/
def dropStagedAttachment (attachRef : Tag) : State :=
  match s.staged.lookup attachRef with
  | none => s
  | some pending => { s with staged := s.staged.erase attachRef }.updateHolder pending.holder fun entry =>
      { entry with pending := entry.pending.erase attachRef }

/-- `holder_pending?`. -/
def holderPending (attachRef : Tag) (pending : Staged) : Bool :=
  match s.holders.lookup pending.holder with
  | some entry => decide (attachRef ∈ entry.pending)
  | none => false

/-- `finish_holder_pending`. -/
def finishHolderPending (pid : Pid) (attachRef : Tag) (attachmentId : Bytes) : State :=
  s.updateHolder pid fun entry => { entry with
    pending := entry.pending.erase attachRef
    attachments := entry.attachments.insert attachmentId }

/-- `fetch_attachment`; nothing for `:stale_attachment`. -/
def fetchAttachment (token : Tag) (sessionId attachmentId incarnationId : Bytes) : Option Attachment :=
  if token = s.token then
    (s.attachments.lookup attachmentId).filter fun a => a.sessionId = sessionId ∧ a.incarnationId = incarnationId
  else none

end State

/-- `artifact_entry_attachment?`. -/
def Entry.ofAttachment (entry : Entry) (a : Attachment) : Bool :=
  entry.attachmentId = a.id && entry.sessionId = a.sessionId && entry.incarnationId = a.incarnationId &&
    entry.holder = a.holder

end Loopex.Dispatcher
