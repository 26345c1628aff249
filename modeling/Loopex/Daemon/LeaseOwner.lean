import Loopex.Erlang.Term
import Mathlib.Data.Finset.Basic
import Mathlib.Data.List.AList
import Mathlib.Order.Lattice
import Mathlib.Algebra.Order.Group.Int

/-!
# The lease owner

`LeaseOwner`, the process that serialises the control of one session: a message of its mailbox or one turn of
`drain` a step.

* `State`, `Event` — what the process holds, and what it takes from its mailbox
* `drain`, `handleInput`, `continueStep`, `applyDaemonResolution` — as the source computes them
* `step` — no message is taken before the drain that the last one started has come to its end
-/

namespace Loopex.Daemon.LeaseOwner

open Loopex.Erlang

abbrev Pid := ℕ
abbrev Ref := ℕ

/-- `AdmissionRelay.origin_id`, of a ticket or of a permit. -/
structure OriginId where
  incarnation : Bytes
  slot : ℤ
  sequence : ℤ
  deriving DecidableEq

/-- What the process is started with, and what it reads of the outside: its `n`-th reading of the monotonic clock,
and the bytes drawn with the `n`-th reference. -/
structure Setting where
  monotonicMs : ℕ → ℤ
  monotone : ∀ m n, m ≤ n → monotonicMs m ≤ monotonicMs n
  strongRandBytes : ℕ → Bytes
  leaseTermMs : ℤ
  validTerm : 0 < leaseTermMs ∧ leaseTermMs ≤ 4294967295

/-! ## data -/

inductive Code where
  | controlPending
  | controlHeld
  | controlNotHeld
  | internalFailure
  | activationCeilingReached
  deriving DecidableEq

/-- The records of `WireRecords` that answer a request. -/
inductive Record where
  | requestError (requestId : Bytes) (code : Code)
  | controlAcquired (requestId writerEpoch : Bytes) (expiresInMs : ℤ) (renewed : Bool)
  deriving DecidableEq

def Record.requestId : Record → Bytes
  | .requestError requestId _ => requestId
  | .controlAcquired requestId .. => requestId

inductive MutationClass where
  | sessionConfigure
  | sessionCompact
  | sessionPrompt
  | sessionSteer
  | sessionFollowUp
  | sessionAbort
  | sessionRespondInteraction
  | sessionAdmitResources
  | sessionActivateSkill
  | sessionResume
  | other (name : Bytes)
  deriving DecidableEq

def directMutationClasses : List MutationClass :=
  [.sessionConfigure, .sessionCompact, .sessionPrompt, .sessionSteer, .sessionFollowUp, .sessionAbort,
    .sessionRespondInteraction, .sessionAdmitResources, .sessionActivateSkill]

inductive Disposition where
  | accepted
  | admissionUnknown
  | refused
  deriving DecidableEq

inductive Status where
  | held
  | released
  | expired
  deriving DecidableEq

/-- A lease that was granted. -/
structure Tenure where
  status : Status
  holderPid : Pid
  holderIncarnation : Bytes
  writerEpoch : Bytes
  grantedAt : ℤ
  deadline : ℤ
  deriving DecidableEq

inductive Actor where
  | daemon
  | owner
  deriving DecidableEq

structure Acquisition where
  permitId : OriginId
  requestId : Bytes
  connection : Pid
  connectionIncarnation : Bytes
  requestDeadline : ℤ
  admittedAt : ℤ
  actor : Actor
  deriving DecidableEq

/-- The request of a `first_acquire` or an `acquire`. -/
structure AcquireRequest where
  permitId : OriginId
  requestId : Bytes
  connection : Pid
  connectionIncarnation : Bytes
  requestDeadline : ℤ

/-- The request of a `release`, which is also its descriptor. -/
structure ReleaseRequest where
  permitId : OriginId
  requestId : Bytes
  connection : Pid
  connectionIncarnation : Bytes
  writerEpoch : Bytes

/-- The caller of a `:mutate` or a `:resume`. -/
structure From where
  connection : Pid
  tag : Ref

/-- The fields of a `:mutate` or a `:resume` call; a resume has a command. -/
structure MutationCall where
  originId : OriginId
  class' : MutationClass
  requestId : Bytes
  commandId : Option Bytes
  connectionIncarnation : Bytes
  writerEpoch : Bytes
  worker : Pid
  taskFun : ℕ
  caller : From

/-- A descriptor: a call that is watched. -/
structure Mutation extends MutationCall where
  workerMonitor : Ref

def MutationCall.connection (call : MutationCall) : Pid := call.caller.connection

/-- An entry of `in_flight`. -/
structure InFlight where
  class' : MutationClass
  commandId : Option Bytes
  taskRef : Option Ref
  holderPid : Pid
  holderIncarnation : Bytes
  writerEpoch : Bytes
  candidateDeadline : Option ℤ
  disposition : Option Disposition
  relaySettled : Bool
  promoted : Bool

inductive Operation where
  | mutation (descriptor : Mutation)
  | release (descriptor : ReleaseRequest)

inductive Transition where
  | grant (ref : Ref) (acquisition : Acquisition) (writerEpoch : Bytes) (previousLease : Option Tenure)
  | release (ref : Ref) (permitId : OriginId) (requestId : Bytes) (lease : Tenure)
  | expiry (ref : Ref) (lease : Tenure)

def Transition.isExpiry : Transition → Bool
  | .expiry .. => true
  | _ => false

/-- The permit of a transition; an expiry has none. -/
def Transition.permitId? : Transition → Option OriginId
  | .grant _ acquisition _ _ => some acquisition.permitId
  | .release _ permitId _ _ => some permitId
  | .expiry .. => none

/-- The step that an awaited answer continues. -/
inductive Step where
  | claimAcquire (acquisition : Acquisition)
  | claimRelease (descriptor : ReleaseRequest)
  | claimRefuse (permitId : OriginId) (requestId : Bytes)
  | complete (permitId : OriginId) (renewal : Option ℤ) (result : Record)
  | promoteMutation (descriptor : Mutation) (taskRef : Ref) (candidate : Option ℤ)
  | prepareResume (descriptor : Mutation)
  | promoteResume (descriptor : Mutation) (candidate : Option ℤ)
  | cancelPrepared
  | prepareRetirement

structure Awaited where
  request : Ref
  step : Step

/-- The inputs that wait while an answer is awaited. -/
inductive Input where
  | firstAcquire (request : AcquireRequest)
  | acquire (request : AcquireRequest)
  | release (request : ReleaseRequest)
  | retireIfIdle
  | relayOwnerIdle
  | acquireDeadline (permitId : OriginId) (deadline : ℤ)
  | resumeCall (call : MutationCall)
  | cancelPrepared (originId : OriginId)

/-- `input_permit?`: the permit that an input carries. -/
def Input.permitId? : Input → Option OriginId
  | .firstAcquire request | .acquire request => some request.permitId
  | .release request => some request.permitId
  | _ => none

inductive Phase where
  | starting
  | active
  | retiring
  deriving DecidableEq

inductive Reason where
  | connectionLost
  | result
  | permitUnavailable
  | ownerLost
  | daemonStopping
  | shutdownAdmitted
  | shutdownCancelled
  | invalidResult
  | ownerBusy
  | activationCeilingReached
  | other (reason : Term)
  deriving DecidableEq

/-- An answer of the relay or of the registry, of any value. -/
inductive Reply where
  | ok
  | okOrigin (originId : OriginId)
  | okAdmitted
  | okCompleted
  | okWaiting (primary : OriginId)
  | okPrepared
  | okUnreserved
  | error (reason : Reason)
  | other (reply : Term)
  deriving DecidableEq

inductive Response where
  | reply (reply : Reply)
  | down
  deriving DecidableEq

inductive PermitKind where
  | result
  | connectionLost
  | shutdown
  | invalid
  deriving DecidableEq

/-- What the relay is given to run. -/
inductive RelayTask where
  | own (taskFun : ℕ)
  | refusal (result : Record)

/-- A resolution of the daemon owner; a grant that is not cancelled says when it was granted. -/
inductive Resolution where
  | grant (ref : Ref) (grantedAt : Option ℤ)
  | release (ref : Ref) (released : Bool)
  | expiry (ref : Ref)
  | discard (permitId : OriginId)

inductive ResolutionAnswer where
  | ok
  | discarded
  | proposed
  | absent
  | invalidOperation
  deriving DecidableEq

inductive CallAnswer where
  | admitted
  | completed
  | ticketUnavailable
  | ownerUnavailable
  | registryUnavailable
  | invalidOperation
  | promotionOutcomeUnknown
  | error (reason : Reason)

/-- The messages that the process sends; the answer to a resolution is shown with the resolution. -/
inductive Message where
  | leaseGrantProposed (ref : Ref) (permitId : OriginId) (connection : Pid) (connectionIncarnation writerEpoch : Bytes)
      (requestDeadline : ℤ)
  | releaseProposed (ref : Ref) (permitId : OriginId) (connectionIncarnation : Bytes)
  | leaseExpiryProposed (ref : Ref) (holderPid : Pid) (holderIncarnation writerEpoch : Bytes)
  | leasePermitSettled (permitId : OriginId) (kind : PermitKind)
  | leaseOwnerResolutionAck (operationRef : Ref) (resolution : Resolution) (answer : ResolutionAnswer)
  | leaseAttachmentAck (ref : Ref)
  | leaseOwnerRetirementIntent (ref : Ref)
  | leaseOwnerRelayUnanswered
  | claimLeasePermit (permitId : OriginId)
  | completeLeasePermit (permitId : OriginId) (result : Record)
  | promoteLeaseTicket (originId : OriginId) (taskRef : Ref) (task : RelayTask)
  | prepareLeaseOwnerRetirement
  | prepareResume (originId : OriginId) (commandId : Option Bytes) (eligible : Bool)
  | promoteResume (originId : OriginId) (commandId : Option Bytes) (eligible attached : Bool)
      (controlRefusal capacityRefusal : Record) (taskFun : ℕ)
  | cancelPreparedResume (originId : OriginId)
  | reply (caller : From) (answer : CallAnswer)

/-- What the process did, for the theorems: the permits it took, the acquisitions it queued, what it sent. -/
inductive Mark where
  | took (permitId : OriginId)
  | queued (acquisition : Acquisition)
  | sent (message : Message)

/-- The state of the process.  The expiry timer is set and cleared with its token; `draining` says that `drain`
has been called and has not come to its end, `readings` and `refs` count what was read of the clock and the
references that were made, `log` is what the process did, the newest first. -/
structure State where
  phase : Phase
  firstAcquireAvailable : Bool
  lease : Option Tenure
  transition : Option Transition
  expiryToken : Option Ref
  retirementRequested : Bool
  retirementRef : Option Ref
  waiters : List Acquisition
  attachments : List (Pid × Bytes × Bytes)
  inFlight : AList fun _ : OriginId => InFlight
  pendingOperations : List Operation
  awaiting : Option Awaited
  deferred : List Input
  discarded : Finset OriginId
  draining : Bool
  readings : ℕ
  refs : ℕ
  log : List Mark

/-- `init`. -/
def init (attachments : List (Pid × Bytes × Bytes)) : State where
  phase := .starting
  firstAcquireAvailable := true
  lease := none
  transition := none
  expiryToken := none
  retirementRequested := false
  retirementRef := none
  waiters := []
  attachments := attachments
  inFlight := ∅
  pendingOperations := []
  awaiting := none
  deferred := []
  discarded := ∅
  draining := false
  readings := 0
  refs := 0
  log := []

namespace State

variable (v : Setting) (s : State)

/-- `monotonic_ms`; the reading is passed with `tick`. -/
def now : ℤ := v.monotonicMs s.readings

def tick : State := { s with readings := s.readings + 1 }

def send (message : Message) : State := { s with log := .sent message :: s.log }

/-- A request is sent, and its answer awaited. -/
def await (request : Message) (step : Step) : State :=
  { s.send request with awaiting := some ⟨s.refs, step⟩, refs := s.refs + 1 }

/-- The lease, if it is held. -/
def held : Option Tenure := s.lease.filter (·.status = .held)

/-- `drain` is called. -/
def drained : State := { s with draining := true }

def scheduleExpiry : State := { s with expiryToken := some s.refs, refs := s.refs + 1, readings := s.readings + 1 }

end State

/-! ## gates -/

/-- `same_holder?` of a held lease. -/
def Tenure.sameHolder (lease : Tenure) (acquisition : Acquisition) : Bool :=
  lease.holderPid = acquisition.connection && lease.holderIncarnation = acquisition.connectionIncarnation

/-- A held lease is that of a connection under an epoch, and its deadline has not passed. -/
def Tenure.heldBy (lease : Tenure) (connection : Pid) (connectionIncarnation writerEpoch : Bytes) (now : ℤ) : Bool :=
  lease.holderPid = connection && lease.holderIncarnation = connectionIncarnation &&
    lease.writerEpoch = writerEpoch && now < lease.deadline

def State.attached (s : State) (connection : Pid) (connectionIncarnation : Bytes) : Bool :=
  s.attachments.any fun key => key.1 = connection && key.2.1 = connectionIncarnation

def resumeHolderGate (s : State) (d : MutationCall) (now : ℤ) : Bool :=
  s.held.any (·.heldBy d.connection d.connectionIncarnation d.writerEpoch now)

def mutationGate (s : State) (d : MutationCall) (now : ℤ) : Bool :=
  s.held.any fun lease => lease.heldBy d.connection d.connectionIncarnation d.writerEpoch now &&
    s.attached d.connection d.connectionIncarnation

def releaseGate (s : State) (d : ReleaseRequest) (now : ℤ) : Option Tenure :=
  if s.transition.isNone then
    s.held.filter (·.heldBy d.connection d.connectionIncarnation d.writerEpoch now)
  else none

def validOrigin (originId : OriginId) (requestId connectionIncarnation : Bytes) : Bool :=
  originId.incarnation = connectionIncarnation && 0 ≤ originId.slot && originId.slot ≤ 31 &&
    0 < originId.sequence && 1 ≤ requestId.length && requestId.length ≤ 64

def validEpoch (writerEpoch : Bytes) : Bool := 1 ≤ writerEpoch.length && writerEpoch.length ≤ 64

def validateAcquire (q : AcquireRequest) : Bool := validOrigin q.permitId q.requestId q.connectionIncarnation

def validateRelease (q : ReleaseRequest) : Bool :=
  validOrigin q.permitId q.requestId q.connectionIncarnation && validEpoch q.writerEpoch

def validateMutation (call : MutationCall) : Bool :=
  validOrigin call.originId call.requestId call.connectionIncarnation && call.class' ∈ directMutationClasses &&
    validEpoch call.writerEpoch && call.worker ≠ call.connection

def validateResume (call : MutationCall) : Bool :=
  validOrigin call.originId call.requestId call.connectionIncarnation &&
    call.commandId.any (fun commandId => 1 ≤ commandId.length && commandId.length ≤ 256) &&
    validEpoch call.writerEpoch && call.worker ≠ call.connection

def operationBlocked (s : State) : Bool :=
  s.transition.isSome || !s.inFlight.keys.isEmpty || !s.pendingOperations.isEmpty

/-! ## permits -/

def answerKind : Response → PermitKind
  | .reply .ok => .result
  | .reply (.error .connectionLost) => .connectionLost
  | .reply (.error .result) | .reply (.error .permitUnavailable) | .reply (.error .ownerLost) => .result
  | .reply (.error .daemonStopping) | .reply (.error .shutdownAdmitted) | .reply (.error .shutdownCancelled) => .shutdown
  | .down => .shutdown
  | _ => .invalid

def notifyPermit (s : State) (permitId : OriginId) (kind : PermitKind) : State :=
  if permitId ∈ s.discarded then { s with discarded := s.discarded.erase permitId }
  else s.send (.leasePermitSettled permitId kind)

def completePermit (s : State) (permitId : OriginId) (result : Record) (renewal : Option ℤ) : State :=
  s.await (.completeLeasePermit permitId result) (.complete permitId renewal result)

def completeControlError (s : State) (acquisition : Acquisition) (code : Code) : State :=
  completePermit s acquisition.permitId (.requestError acquisition.requestId code) none

/-! ## acquisitions -/

section

variable (v : Setting)

def acquisition (q : AcquireRequest) (admittedAt : ℤ) (actor : Actor) : Acquisition :=
  ⟨q.permitId, q.requestId, q.connection, q.connectionIncarnation, q.requestDeadline, admittedAt, actor⟩

def proposeGrant (s : State) (a : Acquisition) : State :=
  { s.send (.leaseGrantProposed s.refs a.permitId a.connection a.connectionIncarnation (v.strongRandBytes s.refs)
      a.requestDeadline) with
    transition := some (.grant s.refs a (v.strongRandBytes s.refs) s.lease)
    refs := s.refs + 1 }

def queueAcquisition (s : State) (a : Acquisition) : State :=
  { s with waiters := s.waiters ++ [a], readings := s.readings + 1, log := .queued a :: s.log }

def ensureExpiryTransition (s : State) : State :=
  if s.transition.isSome then s
  else
    match s.held with
    | none => s
    | some lease =>
      if lease.deadline ≤ s.now v ∧ s.inFlight.keys = [] ∧ s.pendingOperations.isEmpty then
        { s.tick.send (.leaseExpiryProposed s.refs lease.holderPid lease.holderIncarnation lease.writerEpoch) with
          transition := some (.expiry s.refs lease)
          refs := s.refs + 1 }
      else s.tick

/-- `renew` of the held lease. -/
def renew (s : State) (a : Acquisition) (lease : Tenure) (admittedAt : ℤ) : State :=
  let deadline := admittedAt + v.leaseTermMs
  completePermit s.tick a.permitId
    (.controlAcquired a.requestId lease.writerEpoch (max (deadline - s.now v) 0) true) (some deadline)

/-- `handle_acquisition`; where no lease is held, none of its clauses about the holder holds. -/
def handleAcquisition (s : State) (a : Acquisition) (now : ℤ) : State :=
  if a.requestDeadline ≤ now then completeControlError s a .controlPending
  else if s.transition.isSome then queueAcquisition s a
  else
    match s.held with
    | none => proposeGrant v s a
    | some lease =>
      if s.inFlight.keys ≠ [] ∧ lease.sameHolder a then queueAcquisition s a
      else if lease.deadline ≤ now then ensureExpiryTransition v (queueAcquisition s a)
      else if lease.sameHolder a then renew v s a lease now
      else completeControlError s a .controlHeld

/-- `process_one_waiter`: a proposal ends the drain. -/
def processOneWaiter (s : State) : State :=
  match s.waiters with
  | [] => s
  | a :: remaining =>
    let now := s.now v
    let s' := { s.tick with waiters := remaining }
    if a.requestDeadline ≤ now then completeControlError s' a .controlPending
    else
      match s.held with
      | none => { proposeGrant v s' a with draining := false }
      | some lease =>
        if lease.deadline ≤ now then ensureExpiryTransition v s.tick
        else if lease.sameHolder a then renew v s' a lease a.admittedAt
        else completeControlError s' a .controlHeld

/-! ## operations -/

def performRelease (s : State) (d : ReleaseRequest) : State :=
  match releaseGate s d (s.now v) with
  | some lease =>
    { s.tick.send (.releaseProposed s.refs d.permitId d.connectionIncarnation) with
      transition := some (.release s.refs d.permitId d.requestId lease)
      refs := s.refs + 1 }
  | none => completePermit s.tick d.permitId (.requestError d.requestId .controlNotHeld) none

def promotingMutation (d : Mutation) (taskRef : Option Ref) (candidate : Option ℤ) : InFlight :=
  ⟨d.class', d.commandId, taskRef, d.connection, d.connectionIncarnation, d.writerEpoch, candidate, none, false, false⟩

def promoteDirectMutation (s : State) (d : Mutation) : State :=
  let open_ := mutationGate s d.toMutationCall (s.now v)
  let candidate := if open_ then some (s.now v + v.leaseTermMs) else none
  let task := if open_ then RelayTask.own d.taskFun else .refusal (.requestError d.requestId .controlNotHeld)
  let promoting := { s.tick with
    inFlight := s.inFlight.insert d.originId (promotingMutation d (some s.refs) candidate)
    refs := s.refs + 1 }
  promoting.await (.promoteLeaseTicket d.originId s.refs task) (.promoteMutation d s.refs candidate)

def promoteResumeMutation (s : State) (d : Mutation) : State :=
  let eligible := resumeHolderGate s d.toMutationCall (s.now v)
  let candidate := if eligible then some (s.now v + v.leaseTermMs) else none
  let promoting := { s.tick with inFlight := s.inFlight.insert d.originId (promotingMutation d none candidate) }
  promoting.await
    (.promoteResume d.originId d.commandId eligible (s.attached d.connection d.connectionIncarnation)
      (.requestError d.requestId .controlNotHeld) (.requestError d.requestId .activationCeilingReached) d.taskFun)
    (.promoteResume d candidate)

def processNextOperation (s : State) : State :=
  match s.pendingOperations with
  | [] => s
  | .mutation d :: remaining =>
    if d.class' = .sessionResume then promoteResumeMutation v { s with pendingOperations := remaining } d
    else promoteDirectMutation v { s with pendingOperations := remaining } d
  | .release d :: remaining => performRelease v { s with pendingOperations := remaining } d

def enqueueMutation (s : State) (d : Mutation) : State :=
  { s with pendingOperations := s.pendingOperations ++ [.mutation d] }

/-- `commit_candidate_deadline`. -/
def commitCandidateDeadline (s : State) (mutation : InFlight) : State :=
  match s.held, mutation.candidateDeadline with
  | some lease, some candidate =>
    if lease.holderPid = mutation.holderPid ∧ lease.holderIncarnation = mutation.holderIncarnation ∧
        lease.writerEpoch = mutation.writerEpoch then
      { s with lease := some { lease with deadline := candidate } }.scheduleExpiry
    else s
  | _, _ => s

def settleMutationIfReady (s : State) (originId : OriginId) : State :=
  match s.inFlight.lookup originId with
  | none => s
  | some mutation =>
    match mutation.disposition with
    | none => s
    | some disposition =>
      if mutation.relaySettled && mutation.promoted then
        let settled := if disposition = .refused then s else commitCandidateDeadline s mutation
        { settled with inFlight := settled.inFlight.erase originId }
      else s

/-- `admit_promoted`; it raises where the mutation is not in flight. -/
def admitPromoted (s : State) (originId : OriginId) : Option State :=
  (s.inFlight.lookup originId).map fun mutation =>
    settleMutationIfReady { s with inFlight := s.inFlight.insert originId { mutation with promoted := true } } originId

/-! ## retirement -/

def retirementEligible (s : State) : Bool :=
  s.phase = .active && !s.firstAcquireAvailable && s.held.isNone && s.transition.isNone && s.waiters.isEmpty &&
    s.pendingOperations.isEmpty && s.inFlight.keys.isEmpty && s.awaiting.isNone && s.deferred.isEmpty

def beginRetirement (s : State) : State :=
  if retirementEligible s then s.await .prepareLeaseOwnerRetirement .prepareRetirement else s

/-! ## inputs -/

/-- A request that is claimed before it is decided. -/
def claim (s : State) (permitId : OriginId) (step : Step) : State := s.await (.claimLeasePermit permitId) step

def handleInput (s : State) : Input → State
  | .firstAcquire q =>
    if s.phase = .active ∧ s.firstAcquireAvailable ∧ validateAcquire q ∧ s.lease = none ∧ s.transition.isNone then
      proposeGrant v { s.tick with firstAcquireAvailable := false } (acquisition q (s.now v) .daemon)
    else notifyPermit s q.permitId .invalid
  | .acquire q =>
    if s.phase = .active then
      if validateAcquire q then claim s.tick q.permitId (.claimAcquire (acquisition q (s.now v) .owner))
      else notifyPermit s q.permitId .invalid
    else claim s q.permitId (.claimRefuse q.permitId q.requestId)
  | .release q =>
    if s.phase = .active then
      if validateRelease q then claim s q.permitId (.claimRelease q) else notifyPermit s q.permitId .invalid
    else claim s q.permitId (.claimRefuse q.permitId q.requestId)
  | .retireIfIdle =>
    if s.phase = .active ∧ retirementEligible s then beginRetirement { s with retirementRequested := true } else s
  | .relayOwnerIdle => if s.phase = .active ∧ s.retirementRequested then beginRetirement s else s
  | .acquireDeadline permitId deadline =>
    match s.waiters.partition (·.permitId = permitId) with
    | ([waiter], remaining) =>
      if deadline ≤ s.now v then completeControlError { s.tick with waiters := remaining } waiter .controlPending
      else queueAcquisition { s.tick with waiters := remaining } waiter
    | _ => s
  | .resumeCall call =>
    if s.phase = .active then
      let d : Mutation := { call with workerMonitor := s.refs }
      { s.tick with refs := s.refs + 1 }.await
        (.prepareResume call.originId call.commandId (resumeHolderGate s call (s.now v))) (.prepareResume d)
    else s.send (.reply call.caller .ownerUnavailable)
  | .cancelPrepared originId => s.await (.cancelPreparedResume originId) .cancelPrepared

/-- `accept_input`. -/
def acceptInput (s : State) (input : Input) : State :=
  if s.awaiting.isNone then (handleInput v s input).drained else { s with deferred := s.deferred ++ [input] }

/-! ## answers -/

def applyCompletion (s : State) (renewal : Option ℤ) : State :=
  match s.held, renewal with
  | some lease, some deadline => { s with lease := some { lease with deadline := deadline } }.scheduleExpiry
  | _, _ => s

/-- A permit that was discarded while its step was awaited takes nothing from the answer. -/
def unlessDiscarded (s : State) (permitId : OriginId) (f : State → State) : State :=
  if permitId ∈ s.discarded then { s with discarded := s.discarded.erase permitId } else f s

/-- `continue_claim` of a release that is claimed. -/
def claimedRelease (s : State) (d : ReleaseRequest) : State :=
  if operationBlocked s then { s with pendingOperations := s.pendingOperations ++ [.release d] }
  else performRelease v s d

/-- A mutation leaves `in_flight` with an answer to its caller. -/
def dismiss (s : State) (d : Mutation) (answer : CallAnswer) : State :=
  { s.send (.reply d.caller answer) with inFlight := s.inFlight.erase d.originId }

/-- `continue_step`; nothing where it raises. -/
def continueStep (s : State) (response : Response) : Step → Option State
  | .claimAcquire a => some (unlessDiscarded s a.permitId fun s =>
      if response = .reply .ok then handleAcquisition v s.tick a (s.now v)
      else notifyPermit s a.permitId (answerKind response))
  | .claimRelease d => some (unlessDiscarded s d.permitId fun s =>
      if response = .reply .ok then claimedRelease v s d else notifyPermit s d.permitId (answerKind response))
  | .claimRefuse permitId requestId => some (unlessDiscarded s permitId fun s =>
      if response = .reply .ok then completePermit s permitId (.requestError requestId .internalFailure) none
      else notifyPermit s permitId (answerKind response))
  | .complete permitId renewal result => some (unlessDiscarded s permitId fun s =>
      if response = .reply .ok then notifyPermit (applyCompletion s renewal) permitId .result
      else if response = .reply (.error .invalidResult) ∧ result ≠ .requestError result.requestId .internalFailure then
        completePermit s permitId (.requestError result.requestId .internalFailure) none
      else notifyPermit s permitId (answerKind response))
  | .promoteMutation d _ _ =>
    match response with
    | .reply (.okOrigin originId) =>
      if originId = d.originId then admitPromoted (s.send (.reply d.caller .admitted)) d.originId
      else some (dismiss s d .promotionOutcomeUnknown)
    | .reply (.error reason) => some (dismiss s d (.error reason))
    | _ => some (dismiss s d .promotionOutcomeUnknown)
  | .prepareResume d =>
    match response with
    | .reply (.okWaiting _) => some (s.send (.reply d.caller .admitted))
    | .reply .okPrepared | .reply .okUnreserved | .reply (.error .activationCeilingReached) => some (enqueueMutation s d)
    | .reply (.error reason) => some (s.send (.reply d.caller (.error reason)))
    | .down => some (s.send (.reply d.caller .registryUnavailable))
    | _ => none
  | .promoteResume d _ =>
    match response with
    | .reply .okAdmitted => admitPromoted (s.send (.reply d.caller .admitted)) d.originId
    | .reply (.okWaiting _) => some (dismiss s d .admitted)
    | .reply .okCompleted => some (dismiss s d .completed)
    | .reply (.error reason) => some (dismiss s d (.error reason))
    | .down => some (dismiss s d .promotionOutcomeUnknown)
    | _ => none
  | .cancelPrepared => some s
  | .prepareRetirement =>
    match response with
    | .reply .ok =>
      some { s.send (.leaseOwnerRetirementIntent s.refs) with
        phase := .retiring
        retirementRequested := true
        retirementRef := some s.refs
        refs := s.refs + 1 }
    | .reply (.error .ownerBusy) => some { s with retirementRequested := true }
    | _ => some s

/-! ## resolutions -/

def awaitedPermit (s : State) : Option OriginId :=
  match s.awaiting.map Awaited.step with
  | some (.claimAcquire a) => some a.permitId
  | some (.claimRelease d) => some d.permitId
  | some (.claimRefuse permitId _) => some permitId
  | some (.complete permitId _ _) => some permitId
  | _ => none

/-- The permit of a release that is queued. -/
def Operation.permitId? : Operation → Option OriginId
  | .mutation _ => none
  | .release d => some d.permitId

/-- `discard_queued`. -/
def discardQueued (s : State) (permitId : OriginId) : ResolutionAnswer × State :=
  if (s.waiters.any (·.permitId = permitId)) ∨ s.pendingOperations.any (·.permitId? = some permitId) then
    (.discarded, { s with
      waiters := s.waiters.filter (·.permitId ≠ permitId)
      pendingOperations := s.pendingOperations.filter (·.permitId? ≠ some permitId) })
  else if s.transition.bind Transition.permitId? = some permitId then (.proposed, s)
  else (.absent, s)

def resolveGrantTransition (s : State) (a : Acquisition) (writerEpoch : Bytes) (previous : Option Tenure) :
    Option ℤ → State
  | some grantedAt => { s with
      lease := some ⟨.held, a.connection, a.connectionIncarnation, writerEpoch, grantedAt, grantedAt + v.leaseTermMs⟩
      transition := none }.scheduleExpiry
  | none => { s with lease := previous, transition := none }

def resolveReleaseTransition (s : State) (lease : Tenure) (released : Bool) : State :=
  if released then
    { s with transition := none, expiryToken := none, lease := some { lease with status := .released } }
  else { s with transition := none, lease := some lease }

def resolveExpiryTransition (s : State) (lease : Tenure) : State :=
  { s with expiryToken := none, lease := some { lease with status := .expired }, transition := none }

def applyDaemonResolution (s : State) : Resolution → ResolutionAnswer × State
  | .grant ref grantedAt =>
    match s.transition with
    | some (.grant grantRef a writerEpoch previous) =>
      if grantRef = ref then (.ok, resolveGrantTransition v s a writerEpoch previous grantedAt)
      else (.invalidOperation, s)
    | _ => (.invalidOperation, s)
  | .release ref released =>
    match s.transition with
    | some (.release releaseRef _ _ lease) =>
      if releaseRef = ref then (.ok, resolveReleaseTransition s lease released) else (.invalidOperation, s)
    | _ => (.invalidOperation, s)
  | .expiry ref =>
    match s.transition with
    | some (.expiry expiryRef lease) =>
      if expiryRef = ref then (.ok, resolveExpiryTransition s lease) else (.invalidOperation, s)
    | _ => (.invalidOperation, s)
  | .discard permitId =>
    if awaitedPermit s = some permitId then (.discarded, { s with discarded := insert permitId s.discarded })
    else if s.deferred.any (·.permitId? = some permitId) then
      (.discarded, { s with deferred := s.deferred.filter (·.permitId? ≠ some permitId) })
    else discardQueued s permitId

/-! ## the drain -/

def pendingReady (s : State) : Bool :=
  s.phase = .active && !s.pendingOperations.isEmpty && s.inFlight.keys.isEmpty && s.transition.all Transition.isExpiry

def expiryDue (s : State) : Bool :=
  s.phase = .active && s.transition.isNone && s.inFlight.keys.isEmpty && s.pendingOperations.isEmpty &&
    s.held.any fun lease => lease.deadline ≤ s.now v

def waitersReady (s : State) : Bool :=
  s.phase = .active && s.transition.isNone && !s.waiters.isEmpty && s.inFlight.keys.isEmpty &&
    s.pendingOperations.isEmpty

def rearmNeeded (s : State) : Bool :=
  s.expiryToken.isNone && s.held.any fun lease => s.now v < lease.deadline

/-- One turn of `drain`. -/
def drain (s : State) : State :=
  if s.awaiting.isSome then { s with draining := false }
  else if pendingReady s then processNextOperation v s
  else if expiryDue v s then ensureExpiryTransition v s.tick
  else if waitersReady s.tick then processOneWaiter v s.tick
  else if rearmNeeded v s.tick then s.tick.tick.scheduleExpiry
  else
    match s.deferred with
    | input :: deferred => handleInput v { s.tick.tick with deferred := deferred } input
    | [] => { s.tick.tick with draining := false }

/-! ## messages -/

/-- The requests of the daemon owner that are taken at once, and the others. -/
inductive Request where
  | activate
  | attachment (ackRef : Option Ref) (opened : Bool) (connection : Pid) (connectionIncarnation attachmentId : Bytes)
  | input (input : Input)

inductive Event where
  | mutate (call : MutationCall)
  | resume (call : MutationCall)
  | request (request : Request)
  | answered (request : Ref) (response : Response)
  | requestUnanswered (request : Ref)
  | daemonLeaseResolution (operationRef : Ref) (resolution : Resolution)
  | leaseExpiry (token : Ref) (deadline : ℤ)
  | relayOwnerIdle
  | acquireDeadline (permitId : OriginId) (deadline : ℤ)
  | leaseMutationClassified (taskRef : Ref) (originId : OriginId) (disposition : Disposition)
  | relayLeaseTicketSettled (originId : OriginId)
  | registryResumeSettled (originId : OriginId) (disposition : Disposition)
  | workerDown (monitor : Ref) (worker : Pid)
  /-- A turn of the drain, which no message starts. -/
  | drain

/-- The attachments with one opened or closed. -/
def changeAttachment (attachments : List (Pid × Bytes × Bytes)) (opened : Bool) (key : Pid × Bytes × Bytes) :
    List (Pid × Bytes × Bytes) :=
  if key.2.1.length = 16 ∧ 1 ≤ key.2.2.length ∧ key.2.2.length ≤ 256 then
    if opened then attachments.insert key else attachments.filter (· ≠ key)
  else attachments

/-- `accept_request`; the permit of an input is taken. -/
def acceptRequest (s : State) : Request → State
  | .activate => if s.phase = .starting then { s with phase := .active }.drained else s
  | .attachment ackRef opened connection incarnation attachmentId =>
    let s' := { s with attachments := changeAttachment s.attachments opened (connection, incarnation, attachmentId) }
    match ackRef with
    | some ref => s'.send (.leaseAttachmentAck ref)
    | none => s'
  | .input input =>
    match input.permitId? with
    | some permitId => acceptInput v { s with log := .took permitId :: s.log } input
    | none => acceptInput v s input

/-- A mutation in flight is changed, and settled if it is ready. -/
def changeMutation (s : State) (originId : OriginId) (mutation : InFlight) : State :=
  (settleMutationIfReady { s with inFlight := s.inFlight.insert originId mutation } originId).drained

/-- A queued operation is a mutation whose worker a monitor watches. -/
def Operation.watchedBy (monitor : Ref) : Operation → Bool
  | .mutation d => d.workerMonitor = monitor
  | .release _ => false

/-- `handle_call` and `handle_info`; nothing where the process raises. -/
def handle (s : State) : Event → Option State
  | .mutate call =>
    if s.phase = .active then
      if validateMutation call then
        some (enqueueMutation { s with refs := s.refs + 1 } { call with commandId := none, workerMonitor := s.refs }).drained
      else some (s.send (.reply call.caller .invalidOperation))
    else some (s.send (.reply call.caller .ownerUnavailable))
  | .resume call =>
    if s.phase = .active then
      if validateResume call then some (acceptInput v s (.resumeCall { call with class' := .sessionResume }))
      else some (s.send (.reply call.caller .invalidOperation))
    else some (s.send (.reply call.caller .ownerUnavailable))
  | .request request => some (acceptRequest v s request)
  | .answered request response =>
    match s.awaiting with
    | some awaited =>
      if awaited.request = request then
        (continueStep v { s with awaiting := none } response awaited.step).map State.drained
      else some s
    | none => some s
  | .requestUnanswered request =>
    if s.awaiting.any (·.request = request) then some (s.send .leaseOwnerRelayUnanswered) else some s
  | .daemonLeaseResolution operationRef resolution =>
    let (answer, s') := applyDaemonResolution v s resolution
    some (s'.send (.leaseOwnerResolutionAck operationRef resolution answer)).drained
  | .leaseExpiry token deadline =>
    if s.expiryToken = some token then
      let s' := { s.tick with expiryToken := none }
      some (if deadline ≤ s.now v then s' else s'.scheduleExpiry).drained
    else some s
  | .relayOwnerIdle => some (acceptInput v s .relayOwnerIdle)
  | .acquireDeadline permitId deadline => some (acceptInput v s (.acquireDeadline permitId deadline))
  | .leaseMutationClassified taskRef originId disposition =>
    match s.inFlight.lookup originId with
    | some mutation =>
      if mutation.taskRef = some taskRef ∧ mutation.disposition = none then
        some (changeMutation s originId { mutation with disposition := some disposition })
      else some s
    | none => some s
  | .relayLeaseTicketSettled originId =>
    match s.inFlight.lookup originId with
    | some mutation =>
      if mutation.relaySettled then some s
      else some (changeMutation s originId { mutation with relaySettled := true })
    | none => some s
  | .registryResumeSettled originId disposition =>
    match s.inFlight.lookup originId with
    | some mutation =>
      if mutation.class' = .sessionResume ∧ mutation.disposition = none then
        some (changeMutation s originId { mutation with disposition := some disposition })
      else some s
    | none => some s
  | .workerDown monitor worker =>
    match s.pendingOperations.partition (·.watchedBy monitor) with
    | ([.mutation d], remaining) =>
      if d.worker = worker then
        let s' := { s.send (.reply d.caller .ticketUnavailable) with pendingOperations := remaining }
        some (if d.class' = .sessionResume then acceptInput v s' (.cancelPrepared d.originId) else s').drained
      else some s
    | _ => some s
  | .drain => none

/-- A message is taken when no drain goes on; a turn of the drain when one does. -/
def step (s : State) (e : Event) : Option State :=
  if s.draining then
    match e with
    | .drain => some (drain v s)
    | _ => none
  else handle v s e

end

end Loopex.Daemon.LeaseOwner
