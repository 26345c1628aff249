import Loopex.Dispatcher.State

/-!
# The custody of artifact transfers

One custodian and one observer per transfer call the store; the dispatcher takes their results and their ends, in any
order, until both have ended and the transfer can be released.  Timers, replies and messages out are left out: their
effects come back as messages in any order.

* `Answer`, `Message` — what the dispatcher receives
* `openTransfer`, `readTransfer`, `closeTransfer` — the calls
* `cancelArtifactOpen`, `cancelArtifactRead` — the casts of a caller that gives up
* `retireArtifact`, `artifactInvocationResult`, `artifactObservationResult`, `artifactOriginalDown` — the custody
* `handle` — the messages
* `World`, `Step` — the dispatcher among processes that end
-/

namespace Loopex.Dispatcher

open Loopex.Erlang Loopex.System
open Loopex.Transfers (Ref Pid Tag Request Context Reason Object Transfer Work From Table validTransferRef
  validTransferRequest validOpenContext validTransferUseLocator)

/-! ## results of the store -/

inductive ReserveResult where
  | ok (transferRef : Ref)
  | error (reason : Reason) (transferRef : Ref) (notReserved : Bool)
  | other

/-- The use record of an opening; what the dispatcher does not read is `rest`. -/
structure Use where
  objectDigest : Bytes
  objectSize : ℕ
  objectLocator : Bytes
  rest : Term

inductive OpenResult where
  | ok (transfer : Transfer) (use : Use) (work : WorkReport)
  | error (reason : Reason) (transferRef : Ref) (work : WorkReport) (retiring : Bool)
  | other

inductive ReadResult where
  | chunk (offset : ℤ) (bytes : Bytes) (chunkDigest : Bytes)
  | complete
  | error
  | other

inductive CloseResult where
  | retired (transferRef receiptRef : Ref) (work : WorkReport)
  | unregistered (transferRef : Ref)
  | ok
  | other

/-- `@transfer_reasons`. -/
def transferReasons : List Reason :=
  [.invalidArtifactRequest, .invalidOpenContext, .reservationRequired, .reservationConflict, .unknownArtifactUse,
    .artifactUseMismatch, .artifactIntegrityFailed, .artifactDigestMismatch, .unknownArtifact, .artifactTooLarge,
    .invalidWindow, .openDeadlineExhausted, .openWorkBudgetExhausted, .transferLimitReached, .transfersUnavailable,
    .artifactUnreadable, .cancelled]

/-- `valid_reserve_result?`. -/
def validReserveResult (result : ReserveResult) (context : Context) : Bool :=
  validOpenContext context &&
    match result with
    | .ok transferRef => transferRef = context.transferRef
    | .error reason transferRef notReserved =>
      reason ∈ transferReasons && transferRef = context.transferRef && notReserved
    | .other => false

/-- `valid_transfer?`, of a term of the shape of a transfer; `validObject` is `valid_object?`. -/
def validTransfer (validObject : Object → Bool) (transfer : Transfer) (request : Request) (context : Context) : Bool :=
  validTransferRequest request && validOpenContext context && validObject transfer.object &&
    transfer.object.size ≤ 67108864 && transfer.transferRef = context.transferRef &&
    transfer.useLocator = request.useLocator && transfer.totalSize = transfer.object.size &&
    transfer.objectDigest = transfer.object.digest && request.start ≤ transfer.totalSize &&
    transfer.windowStart = request.start &&
    transfer.windowLength = request.length.getD (transfer.totalSize - request.start) &&
    transfer.windowLength ≤ transfer.totalSize - request.start

/-- The checks of an opening that the accounting does not depend on: `valid_object?` and `valid_transfer_use?`. -/
structure Evidence where
  validObject : Object → Bool
  validTransferUse : Use → Request → Bool

/-- `valid_open_result?`. -/
def validOpenResult (v : Evidence) (result : OpenResult) (request : Request) (context : Context) : Bool :=
  validTransferRequest request && validOpenContext context &&
    match result with
    | .ok transfer use work =>
      v.validTransferUse use request && validTransfer v.validObject transfer request context &&
        transfer.object = ⟨use.objectDigest, use.objectSize, use.objectLocator⟩ && State.validTransferWork work &&
        match work with
        | .work work => work.sourceReadBytes = transfer.object.size && work.snapshotWriteDebit = transfer.object.size &&
          !work.writeUncertain
        | .unavailable => false
    | .error reason transferRef work retiring =>
      reason ∈ transferReasons && transferRef = context.transferRef && retiring && State.validTransferWork work
    | .other => false

/-- A retirement that `valid_close_result?` accepts, of the transfer `id`. -/
def validRetired (id transferRef receiptRef : Ref) (work : WorkReport) : Bool :=
  validTransferRef id && transferRef = id && validTransferRef receiptRef &&
    (work = .unavailable || State.validTransferWork work)

/-- The end of the window of a transfer. -/
def Entry.stop (entry : Entry) : ℕ :=
  match entry.transfer with
  | some transfer => transfer.windowStart + transfer.windowLength
  | none => 0

/-- `artifact_read_result`: whether a result is valid, and its bytes. -/
def artifactReadResult (result : ReadResult) (entry : Entry) (length : ℤ) : Bool × ℕ :=
  match result with
  | .chunk offset bytes chunkDigest =>
    if 0 < bytes.length ∧ bytes.length ≤ length ∧ offset = entry.cursor ∧ entry.cursor + bytes.length ≤ entry.stop ∧
        chunkDigest = hex (sha256 bytes) then (true, bytes.length)
    else (false, 0)
  | .complete => (decide (entry.cursor = entry.stop), 0)
  | .error => (false, 0)
  | .other => (false, 0)

/-! ## retirement -/

/-- `artifact_loss`. -/
def Entry.loss (entry : Entry) (kind : LossKind) : Entry :=
  { entry with lost := true, lossKind := some (if kind = .custodian ∧ entry.lossKind = none then .custodian else .other) }

/-- `artifact_lost_registration_candidate?`. -/
def Entry.lostRegistrationCandidate (entry : Entry) (observedAt : ℤ) : Bool :=
  entry.lossKind = some .custodian && entry.custodianDown.isSome && entry.observerDown.isNone && !entry.permission &&
    !entry.reserved && !entry.notReserved && entry.receipt.isNone && !entry.acknowledged &&
    entry.invocation = .reserve && entry.context.openDeadlineMs ≤ observedAt

namespace State

variable (s : State)

/-- `finish_artifact_actors`. -/
def finishArtifactActors (id : Ref) : State :=
  s.fetchEntry id fun entry =>
    if entry.stopping = false ∧
        (entry.invocation = .idle ∨ entry.noReservationProof = some .lostRegistration ∧ entry.invocation = .joined) ∧
        entry.observation = .idle ∧ (entry.notReserved = true ∨ entry.acknowledged = true) then
      s.putEntry { entry with stopping := true }
    else s

/-- `advance_artifact_cleanup`. -/
def advanceArtifactCleanup (id : Ref) : State :=
  s.fetchEntry id fun entry =>
    if entry.notReserved then s.finishArtifactActors id
    else if entry.acknowledged then s.finishArtifactActors id
    else if entry.receipt.isSome ∧ entry.invocation = .idle ∧ entry.observation = .idle ∧ entry.custodianDown = none ∧
        entry.observerDown = none then
      s.putEntry { entry with observation := .acknowledge }
    else s

/-- `observe_artifact_retirement`. -/
def observeArtifactRetirement (v : Env) (id : Ref) : State :=
  s.fetchEntry id fun entry =>
    if entry.stopping then s
    else if entry.notReserved then s.finishArtifactActors id
    else if entry.receipt.isSome then s.advanceArtifactCleanup id
    else if entry.observation = .idle ∧ entry.observerDown = none then
      s.putEntry { entry with
        observation := .retire
        lostRegistrationProof := entry.lostRegistrationCandidate (v.now .observe id) }
    else s

/-- `reply_artifact_open`. -/
def replyArtifactOpen (id : Ref) : State :=
  s.fetchEntry id fun entry =>
    match entry.openFrom with
    | some _ => { s.putEntry { entry with openFrom := none } with
        artifactMonitors := s.artifactMonitors.erase entry.callerMonitor }
    | none => s

/-- `retire_artifact`. -/
def retireArtifact (v : Env) (id : Ref) (reason : Reason) (anchor : ℤ) : State :=
  match s.artifactTransfers.lookup id with
  | none => s
  | some entry =>
    let entry := if entry.cleanup = none then
        { entry with phase := .retiring, cleanup := some (anchor + cleanupDeadlineMs), reason := some reason }
      else { entry with phase := .retiring }
    let s := (s.putEntry entry).replyArtifactOpen id
    let s := match entry.read with
      | some read => if read.caller.isSome then s.putEntry { entry with read := some { read with caller := none } } else s
      | none => s
    s.observeArtifactRetirement v id

/-- `release_transfers`. -/
def releaseTransfers (v : Env) (a : Attachment) : State :=
  ((s.artifactTransfers.entries.filter fun t => t.2.ofAttachment a).map Sigma.fst).foldl
    (fun s id => s.retireArtifact v id .cancelled (v.now .cancel id)) s

/-- `drop_attachment`. -/
def dropAttachment (v : Env) (attachmentId : Bytes) : State :=
  match s.attachments.lookup attachmentId with
  | none => s
  | some a => ({ s with attachments := s.attachments.erase attachmentId }.releaseTransfers v a).updateHolder a.holder
      fun entry => { entry with attachments := entry.attachments.erase attachmentId }

def dropAttachments (v : Env) (ids : List Bytes) : State := ids.foldl (fun s id => s.dropAttachment v id) s

def dropStaged (refs : List Tag) : State := refs.foldl dropStagedAttachment s

/-- `invalidate_session_state`. -/
def invalidateSession (v : Env) (sessionId : Bytes) : State :=
  let s := s.dropStaged ((s.staged.entries.filter fun t => t.2.sessionId = sessionId).map Sigma.fst)
  s.dropAttachments v ((s.attachments.entries.filter fun t => t.2.sessionId = sessionId).map Sigma.fst)

/-- `drop_holder`; `unavailable` tells that the holder is gone. -/
def dropHolder (v : Env) (pid : Pid) (unavailable : Bool) : State :=
  match s.holders.lookup pid with
  | none => s
  | some entry =>
    let s := s.dropStaged ((s.staged.entries.filter fun t => t.2.holder = pid).map Sigma.fst)
    let s := s.dropAttachments v entry.attachments
    if unavailable then
      match s.holders.lookup pid with
      | some holder => (s.putHolder pid { holder with alive := false }).forgetDeadArtifactHolder pid
      | none => { s with failed := true }
    else s

/-! ## calls -/

/-- `transfer_headroom`. -/
def transferHeadroom (holder : Pid) : Bool :=
  decide ((s.artifactTransfers.entries.filter fun t => t.2.holder = holder).length < 2) &&
    decide (s.artifactTransfers.entries.length < 4)

/-- The entry of `begin_artifact_open`. -/
def openingEntry (a : Attachment) (request : Request) (context : Context) (caller : From) : Entry where
  id := context.transferRef
  holder := a.holder
  sessionId := a.sessionId
  attachmentId := a.id
  incarnationId := a.incarnationId
  request := request
  context := context
  phase := .reserving
  custodian := s.next
  custodianMonitor := s.next + 1
  observer := s.next + 2
  observerMonitor := s.next + 3
  callerMonitor := s.next + 4
  openFrom := some caller
  closeFrom := none
  invocation := .reserve
  observation := .idle
  lostRegistrationProof := false
  permission := false
  notReserved := false
  noReservationProof := none
  reserved := false
  receipt := none
  acknowledged := false
  custodianDown := none
  observerDown := none
  lost := false
  lossKind := none
  cleanup := none
  reason := none
  lifetimeDeadline := none
  callbackCompletedAt := none
  read := none
  transfer := none
  cursor := 0
  openingWork := none
  openingCharged := false
  workReserved := openWorkReservation
  stopping := false

/-- `begin_artifact_open`. -/
def beginArtifactOpen (a : Attachment) (request : Request) (context : Context) (caller : From) : State :=
  { s.putEntry (s.openingEntry a request context caller) with
    artifactMonitors := ((s.artifactMonitors.insert (s.next + 1) (context.transferRef, .custodian, s.next)).insert
      (s.next + 3) (context.transferRef, .observer, s.next + 2)).insert (s.next + 4)
      (context.transferRef, .caller, caller.pid)
    next := s.next + 5 }

/-- `handle_call` of `:open_transfer`: the refusal that is replied, or the next state. -/
def openTransfer (v : Env) (token : Tag) (sessionId attachmentId incarnationId : Bytes) (request : Request)
    (context : Context) (caller : From) : Except Refusal State :=
  match s.fetchAttachment token sessionId attachmentId incarnationId with
  | none => .error .staleAttachment
  | some a =>
    if a.active = true ∧ validTransferRequest request = true ∧ request.sessionId = sessionId ∧
        validOpenContext context = true ∧ v.now .entry context.transferRef < context.openDeadlineMs ∧
        s.artifactTransfers.lookup context.transferRef = none then
      if s.supportsTransfer then
        if s.transferHeadroom a.holder then
          match s.reserveConnectionWork (.opening context.transferRef s.next) a.holder openWorkReservation with
          | .ok s => .ok (s.beginArtifactOpen a request context caller)
          | .error reason => .error reason
        else .error .transferLimitReached
      else .error .artifactTransferUnsupported
    else .error .invalidArtifactRequest

/-- The bytes that a read reserves. -/
def wanted (entry : Entry) (length : ℤ) : ℤ := min length (min chunkBytes (entry.stop - entry.cursor))

/-- `handle_call` of `:read_transfer`. -/
def readTransfer (v : Env) (token : Tag) (sessionId attachmentId incarnationId : Bytes) (transferRef : Ref) (length : ℤ)
    (deadline : ℤ) (caller : From) : Except Refusal State :=
  match s.fetchAttachment token sessionId attachmentId incarnationId, s.artifactTransfers.lookup transferRef with
  | none, _ => .error .staleAttachment
  | some _, none => .error .unknownTransfer
  | some a, some entry =>
    if entry.phase = .live ∧ entry.invocation = .idle ∧ entry.read.isNone = true ∧ entry.ofAttachment a = true then
      if length ≤ 0 then .error .invalidChunkLength
      else if v.now .entry transferRef < deadline then
        match s.reserveConnectionWork (.read transferRef s.next) entry.holder (wanted entry length) with
        | .ok s => .ok ({ s with next := s.next + 1 }.putEntry { entry with
            read := some ⟨s.next, some caller, deadline, wanted entry length⟩
            invocation := .read s.next })
        | .error reason => .error reason
      else .error .unknownTransfer
    else .error .unknownTransfer

/-- `handle_call` of `:close_transfer`. -/
def closeTransfer (v : Env) (token : Tag) (sessionId attachmentId incarnationId : Bytes) (transferRef : Ref)
    (anchor : ℤ) (caller : From) : State :=
  match s.fetchAttachment token sessionId attachmentId incarnationId, s.artifactTransfers.lookup transferRef with
  | some a, some entry =>
    if entry.ofAttachment a = true ∧ anchor ≤ v.now .entry transferRef ∧ entry.closeFrom = none then
      let expired := entry.cleanup.any fun deadline => deadline ≤ v.now .answer transferRef
      let s := s.putEntry { entry with closeFrom := if expired then none else some caller }
      (s.retireArtifact v transferRef .cancelled anchor).observeArtifactRetirement v transferRef
    else s
  | _, _ => s

/-! ## casts -/

/-- `:cancel_artifact_open`. -/
def cancelArtifactOpen (v : Env) (token : Tag) (sessionId attachmentId incarnationId : Bytes) (context : Context) :
    State :=
  match if validOpenContext context then s.artifactTransfers.lookup context.transferRef else none with
  | some entry =>
    if entry.context = context ∧ entry.sessionId = sessionId ∧ entry.attachmentId = attachmentId ∧
        entry.incarnationId = incarnationId ∧ token = s.token then
      s.retireArtifact v context.transferRef .cancelled (min (v.now .cancel context.transferRef) context.openDeadlineMs)
    else s
  | none => s

/-- `:cancel_artifact_read`. -/
def cancelArtifactRead (v : Env) (token : Tag) (sessionId attachmentId incarnationId : Bytes) (transferRef : Ref)
    (deadline : ℤ) : State :=
  match s.artifactTransfers.lookup transferRef with
  | some entry =>
    if entry.sessionId = sessionId ∧ entry.attachmentId = attachmentId ∧ entry.incarnationId = incarnationId ∧
        entry.read.map Read.deadline = some deadline ∧ token = s.token then
      s.retireArtifact v transferRef .cancelled deadline
    else s
  | none => s

/-! ## results -/

/-- `artifact_cancel_anchor`. -/
def cancelAnchor (v : Env) (entry : Entry) : ℤ := min (v.now .cancel entry.id) entry.context.openDeadlineMs

/-- `artifact_adoptable?`. -/
def artifactAdoptable (v : Env) (entry : Entry) : Bool :=
  entry.cleanup.isNone && !entry.lost && entry.openFrom.any (fun caller => v.alive caller.pid) &&
    v.now .adopt entry.id < entry.context.openDeadlineMs &&
    (s.attachments.lookup entry.attachmentId).any fun a => a.active && v.alive a.holder && entry.ofAttachment a

/-- The reason of a result that is not adopted. -/
def lateReason (v : Env) (entry : Entry) : Reason :=
  if entry.context.openDeadlineMs ≤ v.now .expire entry.id then .openDeadlineExhausted else .cancelled

/-- `artifact_invocation_result` of `:reserve`. -/
def reserveResult (v : Env) (id : Ref) (result : ReserveResult) : State :=
  s.fetchEntry id fun entry =>
    if validReserveResult result entry.context then
      match result with
      | .ok _ =>
        let entry := { entry with reserved := true, phase := .reserved }
        let s := s.putEntry entry
        if s.artifactAdoptable v entry then
          s.putEntry { entry with permission := true, invocation := .opening, phase := .opening }
        else (s.retireArtifact v id (lateReason v entry) (cancelAnchor v entry)).observeArtifactRetirement v id
      | .error reason _ _ =>
        let s := (s.putEntry { entry with
          notReserved := true
          noReservationProof := some .reply
          reason := some reason }).settleNeverReserved id
        (s.retireArtifact v id reason (cancelAnchor v entry)).finishArtifactActors id
      | .other => s
    else s.retireArtifact v id .transfersUnavailable (cancelAnchor v entry)

/-- `artifact_invocation_result` of `:open`. -/
def openResult (e : Evidence) (v : Env) (id : Ref) (result : OpenResult) : State :=
  s.fetchEntry id fun entry =>
    if validOpenResult e result entry.request entry.context then
      match result with
      | .ok transfer _ work =>
        let s := s.settleOpeningWork id work
        s.fetchEntry id fun entry =>
          if s.artifactAdoptable v entry then
            let s := s.putEntry { entry with
              phase := .live
              transfer := some transfer
              cursor := transfer.windowStart
              lifetimeDeadline := entry.callbackCompletedAt.map (· + lifetimeMs) }
            if v.now .answer id < entry.context.openDeadlineMs then s.replyArtifactOpen id
            else (s.retireArtifact v id .openDeadlineExhausted entry.context.openDeadlineMs).replyArtifactOpen id
          else (s.retireArtifact v id (lateReason v entry) (cancelAnchor v entry)).advanceArtifactCleanup id
      | .error reason _ work _ =>
        ((s.settleOpeningWork id work).retireArtifact v id reason (cancelAnchor v entry)).advanceArtifactCleanup id
      | .other => s
    else (s.retireArtifact v id .transfersUnavailable (cancelAnchor v entry)).advanceArtifactCleanup id

/-- `artifact_invocation_result` of a read. -/
def readResult (v : Env) (id : Ref) (readId : Tag) (result : ReadResult) : State :=
  s.fetchEntry id fun entry =>
    match entry.read with
    | some read =>
      if read.id = readId then
        let (valid, bytes) := artifactReadResult result entry read.reserved
        let s := if valid then s.settleConnectionWork (.read id read.id) entry.holder read.reserved bytes else s
        let timely := decide (v.now .settle id < read.deadline) && decide (entry.phase = .live)
        let s := s.putEntry { entry with
          read := none
          cursor := if valid then entry.cursor + bytes else entry.cursor }
        if valid = false ∨ timely = false then
          (s.retireArtifact v id .cancelled (min (v.now .cancel id) read.deadline)).advanceArtifactCleanup id
        else s
      else s
    | none => s

/-- `expire_artifact_cleanup`, and the end of an observation that proves nothing. -/
def expireArtifactCleanup (id : Ref) : State :=
  let s := s.replyArtifactOpen id
  s.fetchEntry id fun entry => s.putEntry { entry with closeFrom := none }

/-- `artifact_observation_result` of `:retire`. -/
def retireResult (v : Env) (id : Ref) (result : CloseResult) : State :=
  s.fetchEntry id fun entry =>
    match result with
    | .retired transferRef receiptRef work =>
      if validRetired id transferRef receiptRef work then
        let s := s.settleOpeningWork id work
        s.fetchEntry id fun entry =>
          let entry := if entry.notReserved then entry.loss .other else entry
          (s.putEntry { entry with receipt := some ⟨receiptRef, work⟩ }).advanceArtifactCleanup id
      else if entry.notReserved then s.finishArtifactActors id
      else s.expireArtifactCleanup id
    | .unregistered transferRef =>
      if validTransferRef id = true ∧ transferRef = id ∧ entry.lostRegistrationProof = true ∧
          entry.lostRegistrationCandidate (v.now .settle id) = true then
        ((s.putEntry { entry with
          notReserved := true
          noReservationProof := some .lostRegistration
          invocation := .joined }).settleNeverReserved id).finishArtifactActors id
      else if entry.notReserved then s.finishArtifactActors id
      else s.expireArtifactCleanup id
    | _ =>
      if entry.notReserved then s.finishArtifactActors id
      else s.expireArtifactCleanup id

/-- `artifact_observation_result` of `:acknowledge`. -/
def acknowledgeResult (id : Ref) (result : CloseResult) : State :=
  s.fetchEntry id fun entry =>
    match entry.receipt, result with
    | some receipt, .ok =>
      if validTransferRef id && validTransferRef receipt.receiptRef then
        (s.putEntry { entry with acknowledged := true }).finishArtifactActors id
      else s
    | some _, _ => s
    | none, _ => { s with failed := true }

/-! ## ends -/

/-- `maybe_release_artifact`. -/
def maybeReleaseArtifact (id : Ref) : State :=
  s.fetchEntry id fun entry =>
    let normalCleanup := !entry.lost && entry.custodianDown = some true && (entry.notReserved || entry.acknowledged)
    let lostRegistration := entry.noReservationProof = some .lostRegistration && entry.lossKind = some .custodian &&
      entry.custodianDown.isSome && entry.invocation = .joined && entry.notReserved && !entry.permission &&
      !entry.reserved && entry.receipt.isNone && !entry.acknowledged
    if (normalCleanup = true ∨ lostRegistration = true) ∧ entry.observerDown = some true then
      { s with
        artifactTransfers := s.artifactTransfers.erase id
        artifactMonitors := ((s.artifactMonitors.erase entry.custodianMonitor).erase entry.observerMonitor).erase
          entry.callerMonitor }.forgetDeadArtifactHolder entry.holder
    else s

/-- `artifact_original_down`. -/
def artifactOriginalDown (v : Env) (id : Ref) (watch : Watch) (normal : Bool) : State :=
  match s.artifactTransfers.lookup id with
  | none => s
  | some entry =>
    match watch with
    | .caller => (s.replyArtifactOpen id).retireArtifact v id .cancelled (cancelAnchor v entry)
    | _ =>
      let entry := if watch = .custodian then { entry with custodianDown := some normal }
        else { entry with observerDown := some normal }
      let entry := if entry.stopping && normal then entry
        else entry.loss (if watch = .custodian then .custodian else .other)
      let s := s.putEntry entry
      if entry.stopping then s.maybeReleaseArtifact id
      else s.retireArtifact v id .transfersUnavailable (v.now .cancel id)

end State

/-! ## messages -/

/-- The end of a callback of a custodian. -/
inductive Answer where
  | reserve (result : ReserveResult)
  | opening (result : OpenResult)
  | read (id : Tag) (result : ReadResult)

def Answer.invocation : Answer → Invocation
  | .reserve _ => .reserve
  | .opening _ => .opening
  | .read id _ => .read id

/-- What is staged. -/
structure Transaction where
  sessionId : Bytes
  holder : Pid
  id : Bytes
  incarnationId : Bytes
  dispatcherIncarnation : Tag
  replaceAttachmentId : Option Bytes

/-- What the dispatcher receives. -/
inductive Message where
  | stageAttachment (control : Pid) (attachRef : Tag) (transaction : Transaction)
  /-- Whether the attachment is active, or nothing for an error. -/
  | scanFinished (attachRef : Tag) (worker : Pid) (result : Option Bool)
  | workerExit (worker : Pid)
  | authorizeAttachment (incarnation : Tag) (control : Pid) (attachRef : Tag) (attachmentId incarnationId : Bytes)
  | discardStaged (incarnation : Tag) (control : Pid) (attachRef : Tag)
  | removePublished (incarnation : Tag) (attachmentId incarnationId : Bytes)
  | releaseAttachment (attachmentId incarnationId : Bytes)
  | releaseHolder (holder : Pid)
  | invalidateSession (sessionId : Bytes)
  /-- The delivery of events to an attachment gives it up. -/
  | disconnected (attachmentId : Bytes)
  | diagnosticMonitor (pid : Pid)
  | openTransfer (token : Tag) (sessionId attachmentId incarnationId : Bytes) (request : Request) (context : Context)
      (caller : From)
  | readTransfer (token : Tag) (sessionId attachmentId incarnationId : Bytes) (transferRef : Ref) (length deadline : ℤ)
      (caller : From)
  | closeTransfer (token : Tag) (sessionId attachmentId incarnationId : Bytes) (transferRef : Ref) (anchor : ℤ)
      (caller : From)
  | cancelArtifactOpen (token : Tag) (sessionId attachmentId incarnationId : Bytes) (context : Context)
  | cancelArtifactRead (token : Tag) (sessionId attachmentId incarnationId : Bytes) (transferRef : Ref) (deadline : ℤ)
  | custodianResult (id : Ref) (custodian : Pid) (answer : Answer) (completedAt : ℤ)
  | observerResult (id : Ref) (observer : Pid) (operation : Observation) (result : CloseResult)
  | openExpired (id : Ref)
  | closeExpired (id : Ref)
  | lifetimeExpired (id : Ref)
  | readExpired (id : Ref) (readId : Tag)
  | down (monitor : Tag) (pid : Pid) (normal : Bool)

namespace State

variable (s : State)

/-- `:stage_attachment`. -/
def stageAttachment (v : Env) (control : Pid) (attachRef : Tag) (t : Transaction) : State :=
  if t.dispatcherIncarnation = s.incarnation ∧ v.alive t.holder = true ∧ s.staged.lookup attachRef = none then
    let pending : Staged :=
      ⟨control, s.next, t.sessionId, t.holder, t.id, t.incarnationId, t.replaceAttachmentId, none⟩
    let s := { s with next := s.next + 1 }.registerHolderPending t.holder attachRef
    { s with staged := s.staged.insert attachRef pending }
  else s

/-- `:staged_attachment_scan_finished`. -/
def scanFinished (attachRef : Tag) (worker : Pid) (result : Option Bool) : State :=
  match s.staged.lookup attachRef with
  | some pending =>
    if pending.worker = worker ∧ pending.attachment.isNone = true then
      match result with
      | some active =>
        if s.holderPending attachRef pending then
          { s with staged := s.staged.insert attachRef { pending with
              attachment := some ⟨pending.id, pending.incarnationId, pending.sessionId, pending.holder, active⟩ } }
        else s.dropStagedAttachment attachRef
      | none => s.dropStagedAttachment attachRef
    else s
  | none => s

/-- `prepare_replacement`; nothing for a stale attachment. -/
def prepareReplacement (v : Env) (pending : Staged) : Option State :=
  match pending.replaceAttachmentId with
  | none => some s
  | some attachmentId =>
    match s.attachments.lookup attachmentId with
    | some a => if a.holder = pending.holder ∧ a.sessionId = pending.sessionId then some (s.dropAttachment v attachmentId)
      else none
    | none => none

/-- `:authorize_attachment`. -/
def authorizeAttachment (v : Env) (incarnation : Tag) (control : Pid) (attachRef : Tag)
    (attachmentId incarnationId : Bytes) : State :=
  match s.staged.lookup attachRef with
  | some pending =>
    match pending.attachment with
    | some a =>
      if incarnation = s.incarnation ∧ pending.control = control ∧ pending.id = attachmentId ∧
          pending.incarnationId = incarnationId then
        if s.holderPending attachRef pending then
          match s.prepareReplacement v pending with
          | some s => { s with
              staged := s.staged.erase attachRef
              attachments := s.attachments.insert attachmentId a }.finishHolderPending pending.holder attachRef
                attachmentId
          | none => s.dropStagedAttachment attachRef
        else s.dropStagedAttachment attachRef
      else s
    | none => s
  | none => s

/-- A read that is past its deadline. -/
def readExpired (v : Env) (id : Ref) (readId : Tag) : State :=
  match s.artifactTransfers.lookup id with
  | some entry =>
    match entry.read with
    | some read =>
      if read.id = readId then
        (s.putEntry { entry with read := some { read with caller := none } }).retireArtifact v id .cancelled read.deadline
      else s
    | none => s
  | none => s

/-- `:DOWN`, in the order of its clauses. -/
def down (v : Env) (monitor : Tag) (pid : Pid) (normal : Bool) : State :=
  match s.artifactMonitors.lookup monitor with
  | some (id, watch, original) => if pid = original then s.artifactOriginalDown v id watch normal else s
  | none =>
    match s.diagnosticMonitors.lookup pid with
    | some registered =>
      if registered = monitor then { s with diagnosticMonitors := s.diagnosticMonitors.erase pid } else s
    | none =>
      match s.holderMonitors.lookup monitor with
      | some holder => if holder = pid then s.dropHolder v pid true else s
      | none => s

/-- A published attachment is dropped. -/
def dropPublished (v : Env) (attachmentId incarnationId : Bytes) : State :=
  match s.attachments.lookup attachmentId with
  | some a => if a.incarnationId = incarnationId then s.dropAttachment v attachmentId else s
  | none => s

def answerOr (s : State) (answer : Except Refusal State) : State :=
  match answer with
  | .ok s => s
  | .error _ => s

/-- `:artifact_custodian_result`. -/
def custodianResult (e : Evidence) (v : Env) (id : Ref) (custodian : Pid) (answer : Answer) (completedAt : ℤ) : State :=
  match s.artifactTransfers.lookup id with
  | some entry =>
    if entry.custodian = custodian ∧ entry.invocation = answer.invocation then
      let s := s.putEntry { entry with invocation := .idle, callbackCompletedAt := some completedAt }
      match answer with
      | .reserve result => s.reserveResult v id result
      | .opening result => s.openResult e v id result
      | .read readId result => s.readResult v id readId result
    else s
  | none => s

/-- `:artifact_observer_result`. -/
def observerResult (v : Env) (id : Ref) (observer : Pid) (operation : Observation) (result : CloseResult) : State :=
  match s.artifactTransfers.lookup id with
  | some entry =>
    if entry.observer = observer ∧ entry.observation = operation then
      let s := s.putEntry { entry with observation := .idle }
      match operation with
      | .retire => s.retireResult v id result
      | .acknowledge => s.acknowledgeResult id result
      | .idle => s
    else s
  | none => s

/-- `:artifact_open_expired`. -/
def openExpired (v : Env) (id : Ref) : State :=
  match s.artifactTransfers.lookup id with
  | some entry => if entry.phase = .live then s
    else (s.retireArtifact v id .openDeadlineExhausted entry.context.openDeadlineMs).replyArtifactOpen id
  | none => s

/-- `:artifact_lifetime_expired`. -/
def lifetimeExpired (v : Env) (id : Ref) : State :=
  match s.artifactTransfers.lookup id with
  | some entry =>
    match entry.lifetimeDeadline with
    | some deadline => s.retireArtifact v id .cancelled deadline
    | none => s
  | none => s

def handle (e : Evidence) (v : Env) : Message → State
  | .stageAttachment control attachRef transaction => s.stageAttachment v control attachRef transaction
  | .scanFinished attachRef worker result => s.scanFinished attachRef worker result
  | .workerExit worker =>
    match s.staged.entries.find? fun t => t.2.worker = worker ∧ t.2.attachment.isNone = true with
    | some t => s.dropStagedAttachment t.1
    | none => s
  | .authorizeAttachment incarnation control attachRef attachmentId incarnationId =>
    s.authorizeAttachment v incarnation control attachRef attachmentId incarnationId
  | .discardStaged incarnation control attachRef =>
    match s.staged.lookup attachRef with
    | some pending =>
      if incarnation = s.incarnation ∧ pending.control = control then s.dropStagedAttachment attachRef else s
    | none => s
  | .removePublished incarnation attachmentId incarnationId =>
    if incarnation = s.incarnation then s.dropPublished v attachmentId incarnationId else s
  | .releaseAttachment attachmentId incarnationId => s.dropPublished v attachmentId incarnationId
  | .releaseHolder holder => s.dropHolder v holder false
  | .invalidateSession sessionId => s.invalidateSession v sessionId
  | .disconnected attachmentId =>
    match s.attachments.lookup attachmentId with
    | some a => { s with attachments := s.attachments.insert attachmentId { a with active := false } }
    | none => s
  | .diagnosticMonitor pid =>
    if (s.diagnosticMonitors.lookup pid).isSome then s
    else { s with diagnosticMonitors := s.diagnosticMonitors.insert pid s.next, next := s.next + 1 }
  | .openTransfer token sessionId attachmentId incarnationId request context caller =>
    s.answerOr (s.openTransfer v token sessionId attachmentId incarnationId request context caller)
  | .readTransfer token sessionId attachmentId incarnationId transferRef length deadline caller =>
    s.answerOr (s.readTransfer v token sessionId attachmentId incarnationId transferRef length deadline caller)
  | .closeTransfer token sessionId attachmentId incarnationId transferRef anchor caller =>
    s.closeTransfer v token sessionId attachmentId incarnationId transferRef anchor caller
  | .cancelArtifactOpen token sessionId attachmentId incarnationId context =>
    s.cancelArtifactOpen v token sessionId attachmentId incarnationId context
  | .cancelArtifactRead token sessionId attachmentId incarnationId transferRef deadline =>
    s.cancelArtifactRead v token sessionId attachmentId incarnationId transferRef deadline
  | .custodianResult id custodian answer completedAt => s.custodianResult e v id custodian answer completedAt
  | .observerResult id observer operation result => s.observerResult v id observer operation result
  | .openExpired id => s.openExpired v id
  | .closeExpired id =>
    match s.artifactTransfers.lookup id with
    | some _ => s.expireArtifactCleanup id
    | none => s
  | .lifetimeExpired id => s.lifetimeExpired v id
  | .readExpired id readId => s.readExpired v id readId
  | .down monitor pid normal => s.down v monitor pid normal

end State

/-! ## the dispatcher among processes -/

/-- The dispatcher, and the processes that have ended. -/
structure World where
  dispatcher : State
  dead : List Pid

inductive Input where
  | exit (pid : Pid)
  | message (now : Reading → Ref → ℤ) (message : Message)

/-- A `DOWN` is about a process that has ended. -/
def World.Allows (w : World) : Input → Prop
  | .message _ (.down _ pid _) => pid ∈ w.dead
  | _ => True

def World.next (e : Evidence) (w : World) : Input → World
  | .exit pid => { w with dead := pid :: w.dead }
  | .message now m => { w with dispatcher := w.dispatcher.handle e ⟨now, fun pid => pid ∉ w.dead⟩ m }

def Step (e : Evidence) (w : World) (i : Input) (w' : World) : Prop := w.Allows i ∧ w' = w.next e i

/-- A dispatcher that has just started. -/
def State.initial (token incarnation : Tag) (supportsTransfer : Bool) (next : Tag) : State where
  token := token
  incarnation := incarnation
  supportsTransfer := supportsTransfer
  holders := ∅
  holderMonitors := ∅
  staged := ∅
  attachments := ∅
  artifactTransfers := ∅
  artifactMonitors := ∅
  diagnosticMonitors := ∅
  next := next
  failed := false
  calls := []

end Loopex.Dispatcher
