import Loopex.Transfers.Reader
import Mathlib.Data.List.AList

/-!
# The owner of the transfers

The owner of one store's transfers keeps a record of every transfer, hands its reads and its retirement to
the I/O worker, and answers the callers.  A handler gives the next owner and what it sends; `none` stands
for a handler that raises.

* `Record`, `Owner` — the state of the source
* `reserve`, `openTransfer`, `read`, `close`, … — the calls
* `transferOpened`, `readResult`, `transferRetired`, `down`, `timeout` — the messages
* `beginRetirement`, `finishWaiters` — what they share
-/

namespace Loopex.Transfers

open Loopex.Erlang

abbrev Table (κ ν : Type) : Type := AList fun _ : κ => ν

inductive Status where
  | reserved | verifying | live | retiring | retired
  deriving DecidableEq

/-- A call to answer: its process, and the reference of the call. -/
structure From where
  pid : Pid
  tag : Tag
  deriving DecidableEq

/-- The record of a transfer.  An outcome is the reason of an error, and `work` is `none` when it is
unavailable. -/
structure Record where
  request : Request
  context : Context
  caller : Pid
  callerMonitor : Tag
  status : Status
  worker : Option Pid
  workerMonitor : Option Tag
  work : Option Work
  proof : Bool
  workerJoined : Bool
  outcome : Option Reason
  openFrom : Option From
  readFrom : Option From
  closeFrom : Option From
  closeDeadline : Option ℤ
  closeSelectorDeadline : Option ℤ
  closeTimer : Option Tag
  readTimer : Option Tag
  readDeadline : Option ℤ
  receipt : Option Ref
  timer : Option Tag
  lifetimeDeadline : Option ℤ
  deriving DecidableEq

structure Owner where
  limits : Limits
  transfers : Table Ref Record
  jobs : Table Tag Pid

inductive Reply where
  | ok
  | error (reason : Reason)
  | placement (jobMonitor : Tag)
  | reserved (ref : Ref)
  | notReserved (reason : Reason) (ref : Ref)
  | opened (transfer : Transfer) (use : Term) (work : Work)
  | openFailure (reason : Reason) (ref : Ref) (work : Work) (state : Status)
  | chunk (c : Chunk)
  | complete
  | retired (ref : Ref) (receipt : Option Ref) (work : Option Work)
  | unregistered (ref : Ref)
  | live (refs : List Ref)
  deriving DecidableEq

/-- The reply a read result is. -/
def ReadReply.reply : ReadReply → Reply
  | .chunk c => .chunk c
  | .complete => .complete
  | .error reason => .error reason

/-- The messages of the timers. -/
inductive Timeout where
  | expire (id : Ref)
  | closeExpired (id : Ref) (deadline : ℤ)
  | readExpired (id : Ref) (deadline : ℤ)
  deriving DecidableEq

/-- The transfer a timer is about. -/
def Timeout.ref : Timeout → Ref
  | .expire id => id
  | .closeExpired id _ => id
  | .readExpired id _ => id

/-- What a handler sends, starts or arms. -/
inductive Effect where
  | reply (dest : From) (reply : Reply)
  | tell (worker : Pid) (order : Order)
  | spawn (worker : Pid) (k : Worker)
  | arm (timer : Tag) (due : ℤ) (message : Timeout)
  | cancel (timer : Tag)

/-- What a handler learns from the machine it runs on: the clock, who is alive, the next unused reference
and a random one. -/
structure Env where
  clock : Clock
  alive : Pid → Bool
  aliveLater : Pid → Bool
  fresh : Tag
  receipt : Ref

def Env.now (v : Env) : ℤ := v.clock.now
def Env.later (v : Env) : ℤ := v.clock.later

/-- The next owner and the effects. -/
abbrev Turn := Owner × List Effect

/-- `timely?` of a deadline that may be `nil`, which is above every number. -/
def timely (now : ℤ) (deadline : Option ℤ) : Bool := deadline.all fun d => decide (now < d)

/-- `cancel_timer`. -/
def cancelTimer (timer : Option Tag) : List Effect := timer.toList.map .cancel

namespace Record

/-- A message to the worker of the record. -/
def tell (r : Record) (order : Order) : List Effect := r.worker.toList.map (.tell · order)

/-- `retire_reserved`. -/
def retireReserved (r : Record) (v : Env) : Record :=
  { r with status := .retired, proof := true, workerJoined := true, receipt := some v.receipt }

/-- `retired_reply`. -/
def retiredReply (r : Record) : Reply := .retired r.context.transferRef r.receipt r.work

/-- `open_failure`. -/
def openFailure (r : Record) : Reply :=
  match r.work with
  | none => .error .transfersUnavailable
  | some work => .openFailure (r.outcome.getD .cancelled) r.context.transferRef work r.status

/-- The deadline of a retirement: the least one proposed. -/
def soonest (r : Record) (deadline : ℤ) : ℤ := r.closeDeadline.elim deadline (min · deadline)

/-- The status and the outcome `begin_retirement` leaves, and what it tells the worker. -/
def retire (r : Record) (v : Env) : Record × List Effect :=
  if r.status = .retired then (r, [])
  else if r.worker = none then (r.retireReserved v, [])
  else ({ r with status := .retiring, outcome := some (r.outcome.getD .cancelled) }, r.tell .retire)

/-- The timer of a retirement: the one armed before, or a new one. -/
def retirementTimer (r : Record) (v : Env) (id : Ref) (deadline : ℤ) : Tag × List Effect :=
  match r.closeTimer with
  | some timer => (timer, [])
  | none => (v.fresh, [.arm v.fresh (v.later + max 0 (deadline - v.later)) (.closeExpired id deadline)])

/-- `begin_retirement`, on the record. -/
def beginRetirement (r : Record) (v : Env) (id : Ref) (deadline : ℤ) : Record × List Effect :=
  let deadline := r.soonest deadline
  let timer := r.retirementTimer v id deadline
  ({ (r.retire v).1 with closeDeadline := some deadline, closeTimer := some timer.1 },
    cancelTimer r.timer ++ (r.retire v).2 ++ timer.2)

/-- The answer to a read whose worker is gone. -/
def readFailure (r : Record) : Reply :=
  if r.outcome = some .readDeadlineExhausted then .error .readDeadlineExhausted else .error .unknownTransfer

/-- The answer to a close whose worker is gone. -/
def closeAnswer (r : Record) (v : Env) : Reply :=
  if r.status = .retired ∧ timely v.now r.closeDeadline = true then r.retiredReply
  else .error .cleanupUnproved

/-- `finish_waiters`. -/
def finishWaiters (r : Record) (v : Env) : List Effect :=
  cancelTimer r.closeTimer ++ cancelTimer r.readTimer
    ++ r.openFrom.toList.map (.reply · r.openFailure)
    ++ r.readFrom.toList.map (.reply · r.readFailure)
    ++ r.closeFrom.toList.map (.reply · (r.closeAnswer v))

/-- The record of a worker that is down. -/
def joined (r : Record) (v : Env) (normal : Bool) : Record :=
  if normal = true ∧ r.proof = true then
    { r with workerJoined := true, status := .retired, receipt := some v.receipt }
  else { r with workerJoined := true, status := .retiring, work := none, proof := false }

/-- The record with nobody waiting. -/
def released (r : Record) : Record := { r with openFrom := none, closeFrom := none, readFrom := none }

end Record

namespace Owner

/-- `put_record`. -/
def putRecord (o : Owner) (id : Ref) (r : Record) : Owner :=
  { o with transfers := o.transfers.insert id r }

/-- A handler that changes one record. -/
def put (o : Owner) (id : Ref) (t : Record × List Effect) : Turn := (o.putRecord id t.1, t.2)

/-- An answer that changes nothing. -/
def answer (o : Owner) (sender : From) (reply : Reply) : Turn := (o, [.reply sender reply])

/-- `admit_count`. -/
def admitCount (o : Owner) : Bool :=
  decide (o.transfers.entries.length + o.jobs.entries.length < o.limits.perRuntime)

/-! ## calls -/

/-- `:reserve_job`. -/
def reserveJob (o : Owner) (v : Env) (sender : From) (deadline : ℤ) : Turn :=
  if v.alive sender.pid = true ∧ v.now < deadline then
    if o.admitCount then
      ({ o with jobs := o.jobs.insert v.fresh sender.pid }, [.reply sender (.placement v.fresh)])
    else o.answer sender (.error .transferLimitReached)
  else o.answer sender (.error .openDeadlineExhausted)

/-- `:release_job`. -/
def releaseJob (o : Owner) (sender : From) (monitor : Tag) : Turn :=
  if o.jobs.lookup monitor = some sender.pid then
    ({ o with jobs := o.jobs.erase monitor }, [.reply sender .ok])
  else o.answer sender .ok

/-- The record of a reservation. -/
def reservation (v : Env) (caller : Pid) (request : Request) (context : Context) : Record where
  request := request
  context := context
  caller := caller
  callerMonitor := v.fresh
  status := .reserved
  worker := none
  workerMonitor := none
  work := some emptyWork
  proof := false
  workerJoined := false
  outcome := none
  openFrom := none
  readFrom := none
  closeFrom := none
  closeDeadline := none
  closeSelectorDeadline := none
  closeTimer := none
  readTimer := none
  readDeadline := none
  receipt := none
  timer := none
  lifetimeDeadline := none

/-- `:reserve`. -/
def reserve (o : Owner) (v : Env) (sender : From) (request : Request) (context : Context) : Turn :=
  let id := context.transferRef
  if validTransferRequest request = false then o.answer sender (.error .invalidArtifactRequest)
  else if validOpenContext context = false then o.answer sender (.error .invalidOpenContext)
  else if id ∈ o.transfers then o.answer sender (.error .reservationConflict)
  else if ¬ (v.now < context.openDeadlineMs ∧ v.alive sender.pid = true) then
    o.answer sender (.notReserved .openDeadlineExhausted id)
  else if o.admitCount then
    if v.later < context.openDeadlineMs ∧ v.aliveLater sender.pid = true then
      (o.putRecord id (reservation v sender.pid request context), [.reply sender (.reserved id)])
    else o.answer sender (.notReserved .openDeadlineExhausted id)
  else o.answer sender (.notReserved .transferLimitReached id)

/-- The worker an opening starts. -/
def ioWorker (v : Env) (request : Request) (context : Context) : Worker :=
  ⟨context.transferRef, v.fresh + 1, request, context, .opening, none, emptyWork, []⟩

/-- `:open`. -/
def openTransfer (o : Owner) (v : Env) (sender : From) (request : Request) (context : Context) : Turn :=
  let id := context.transferRef
  if validTransferRequest request = false ∨ validOpenContext context = false then
    o.answer sender (.error .reservationConflict)
  else
    match o.transfers.lookup id with
    | none => o.answer sender (.error .reservationRequired)
    | some r =>
      if r.request = request ∧ r.context = context ∧ r.caller = sender.pid ∧ r.status = .reserved then
        if v.now < context.openDeadlineMs ∧ v.alive sender.pid = true then
          o.put id
            ({ r with
                status := .verifying
                worker := some v.fresh
                workerMonitor := some (v.fresh + 1)
                openFrom := some sender },
              [.spawn v.fresh (ioWorker v request context)])
        else
          let r := { r with outcome := some .openDeadlineExhausted }.retireReserved v
          o.put id (r, [.reply sender r.openFailure])
      else o.answer sender (.error .reservationConflict)

/-- `:read`. -/
def read (o : Owner) (v : Env) (sender : From) (id : Ref) (length : ℤ) : Turn :=
  match o.transfers.lookup id with
  | none => o.answer sender (.error .unknownTransfer)
  | some r =>
    if r.status = .live ∧ r.readFrom = none ∧ 0 < length then
      let deadline := v.now + o.limits.readDeadlineMs
      o.put id
        ({ r with readFrom := some sender, readDeadline := some deadline, readTimer := some v.fresh },
          .arm v.fresh (v.later + o.limits.readDeadlineMs) (.readExpired id deadline)
            :: r.tell (.read length deadline))
    else if r.status = .live ∧ ¬ 0 < length then o.answer sender (.error .invalidChunkLength)
    else o.answer sender (.error .unknownTransfer)

/-- `close_entry` of an acknowledgement. -/
def acknowledge (o : Owner) (sender : From) (id receipt : Ref) : Turn :=
  match o.transfers.lookup id with
  | none => o.answer sender .ok
  | some r =>
    if r.status = .retired ∧ r.receipt = some receipt then
      ({ o with transfers := o.transfers.erase id },
        cancelTimer r.timer ++ cancelTimer r.closeTimer ++ [.reply sender .ok])
    else o.answer sender (.error .retirementReceiptMismatch)

/-- A retire selector. -/
structure RetireSelector where
  transferRef : Ref
  openDeadlineMs : ℤ
  closeDeadlineMs : ℤ
  deriving DecidableEq

/-- Whether `close_entry` refuses the selector for the record. -/
def mismatched (r : Record) (selector : RetireSelector) : Prop :=
  r.context.openDeadlineMs ≠ selector.openDeadlineMs ∨
    (r.closeSelectorDeadline ≠ none ∧ r.closeSelectorDeadline ≠ some selector.closeDeadlineMs)

instance (r : Record) (selector : RetireSelector) : Decidable (mismatched r selector) :=
  inferInstanceAs (Decidable (_ ∨ _))

/-- The last clause of `close_entry`, after the retirement began. -/
def awaitClose (v : Env) (sender : From) (x : Record × List Effect) : Record × List Effect :=
  if x.1.status = .retired then (x.1, x.2 ++ [.reply sender x.1.retiredReply])
  else if timely v.later x.1.closeDeadline = false then
    (x.1, x.2 ++ [.reply sender (.error .cleanupUnproved)])
  else ({ x.1 with closeFrom := some sender }, x.2)

/-- The last clause of `close_entry`. -/
def closeRetiring (v : Env) (sender : From) (selector : RetireSelector) (r : Record) :
    Record × List Effect :=
  awaitClose v sender
    ({ r with closeSelectorDeadline := some selector.closeDeadlineMs }.beginRetirement v
      selector.transferRef selector.closeDeadlineMs)

/-- `close_entry` of a retirement. -/
def retire (o : Owner) (v : Env) (sender : From) (selector : RetireSelector) : Turn :=
  let id := selector.transferRef
  match o.transfers.lookup id with
  | none => o.answer sender (.unregistered id)
  | some r =>
    if mismatched r selector then o.answer sender (.error .invalidCloseContext)
    else if r.status = .retired then
      let r := { r with closeSelectorDeadline := some selector.closeDeadlineMs }
      o.put id (r, [.reply sender r.retiredReply])
    else if r.closeFrom ≠ none then o.answer sender (.error .cleanupUnproved)
    else o.put id (closeRetiring v sender selector r)

/-- The requests of the callers; the terms the validators refuse for their shape are left out. -/
inductive Call where
  | reserveJob (deadline : ℤ)
  | releaseJob (monitor : Tag)
  | reserve (request : Request) (context : Context)
  | openTransfer (request : Request) (context : Context)
  | read (id : Ref) (length : ℤ)
  | retire (selector : RetireSelector)
  | acknowledge (id receipt : Ref)
  | live

/-- `handle_call`. -/
def handleCall (o : Owner) (v : Env) (sender : From) : Call → Turn
  | .reserveJob deadline => o.reserveJob v sender deadline
  | .releaseJob monitor => o.releaseJob sender monitor
  | .reserve request context => o.reserve v sender request context
  | .openTransfer request context => o.openTransfer v sender request context
  | .read id length => o.read v sender id length
  | .retire selector =>
    if validTransferRef selector.transferRef then o.retire v sender selector
    else o.answer sender (.error .invalidCloseContext)
  | .acknowledge id receipt =>
    if validTransferRef id && validTransferRef receipt then o.acknowledge sender id receipt
    else o.answer sender (.error .invalidCloseContext)
  | .live => o.answer sender (.live o.transfers.keys)

/-! ## messages of a worker -/

/-- `:transfer_opened` for a record that waits for it. -/
def adopt (o : Owner) (v : Env) (id : Ref) (r : Record) (transfer : Transfer) (use : Term) (work : Work) :
    Record × List Effect :=
  if v.now < r.context.openDeadlineMs ∧ v.alive r.caller = true then
    ({ r with
        status := .live
        work := some work
        openFrom := none
        timer := some v.fresh
        lifetimeDeadline := some (v.later + o.limits.lifetimeMs) },
      r.openFrom.toList.map (.reply · (.opened transfer use work))
        ++ [.arm v.fresh (v.later + o.limits.lifetimeMs) (.expire id)])
  else
    { r with outcome := some .openDeadlineExhausted, work := some work }.beginRetirement v id
      (r.context.openDeadlineMs + 5000)

/-- `:transfer_opened`. -/
def transferOpened (o : Owner) (v : Env) (id : Ref) (r : Record) (transfer : Transfer) (use : Term)
    (work : Work) : Record × List Effect :=
  if r.status = .verifying then o.adopt v id r transfer use work
  else ({ r with work := some work }, r.tell .retire)

/-- What a read result is answered with. -/
def readAnswer (v : Env) (r : Record) (result : ReadReply) : ReadReply :=
  if timely v.now r.readDeadline then result else .error .readDeadlineExhausted

/-- The record with its read answered, and the answer. -/
def answerRead (r : Record) (sender : From) (answer : ReadReply) : Record × List Effect :=
  ({ r with readFrom := none, readTimer := none, readDeadline := none },
    cancelTimer r.readTimer ++ [.reply sender answer.reply])

/-- A handler that goes on with the retirement of the record. -/
def thenRetire (v : Env) (id : Ref) (x : Record × List Effect) (deadline : ℤ) : Record × List Effect :=
  ((x.1.beginRetirement v id deadline).1, x.2 ++ (x.1.beginRetirement v id deadline).2)

/-- `:transfer_read_result`; a live record with a waiting reader has a read deadline. -/
def readResult (v : Env) (id : Ref) (r : Record) (result : ReadReply) : Option (Record × List Effect) :=
  match r.readFrom with
  | some sender =>
    if r.status = .live then
      if readAnswer v r result = .error .readDeadlineExhausted then
        r.readDeadline.map fun deadline =>
          thenRetire v id (answerRead r sender (readAnswer v r result)) (deadline + 5000)
      else some (answerRead r sender (readAnswer v r result))
    else some (r, [])
  | none => some (r, [])

/-- `:transfer_retired`. -/
def transferRetired (r : Record) (outcome : Reason) (work : Work) (proof : Bool) : Record × List Effect :=
  ({ r with status := .retiring, outcome := some outcome, work := some work, proof := proof }, [])

/-- The messages of the worker of a record, its end apart. -/
def onReport (o : Owner) (v : Env) (id : Ref) (r : Record) : Report → Option (Record × List Effect)
  | .work work => some ({ r with work := some work }, [])
  | .opened transfer use work => some (o.transferOpened v id r transfer use work)
  | .readResult result => readResult v id r result
  | .retired outcome work proof => some (transferRetired r outcome work proof)
  | .down _ => some (r, [])

/-! ## the end of a process -/

/-- The record whose worker is `pid`, monitored as `monitor`. -/
def findWorker (o : Owner) (monitor : Tag) (pid : Pid) : Option (Ref × Record) :=
  (o.transfers.entries.find? fun e =>
    decide (e.2.workerMonitor = some monitor ∧ e.2.worker = some pid)).map fun e => (e.1, e.2)

/-- The record whose caller is `pid`, monitored as `monitor`. -/
def findCaller (o : Owner) (monitor : Tag) (pid : Pid) : Option (Ref × Record) :=
  (o.transfers.entries.find? fun e =>
    decide (e.2.callerMonitor = monitor ∧ e.2.caller = pid)).map fun e => (e.1, e.2)

/-- `:DOWN`. -/
def down (o : Owner) (v : Env) (monitor : Tag) (pid : Pid) (normal : Bool) : Turn :=
  match o.findWorker monitor pid with
  | some (id, r) => o.put id ((r.joined v normal).released, (r.joined v normal).finishWaiters v)
  | none =>
    match o.findCaller monitor pid with
    | some (id, r) => o.put id (r.beginRetirement v id (v.now + 5000))
    | none => ({ o with jobs := o.jobs.erase monitor }, [])

/-- A message of the worker `w` about the transfer `id`. -/
def report (o : Owner) (v : Env) (id : Ref) (w : Pid) (monitor : Tag) : Report → Option Turn
  | .down normal => some (o.down v monitor w normal)
  | rep =>
    match o.transfers.lookup id with
    | some r => if r.worker = some w then (o.onReport v id r rep).map (o.put id) else some (o, [])
    | none => some (o, [])

/-! ## timers -/

/-- `:close_expired`. -/
def onCloseExpired (r : Record) (deadline : ℤ) : Record × List Effect :=
  match r.closeFrom with
  | some sender =>
    if r.closeDeadline = some deadline then
      ({ r with closeFrom := none }, [.reply sender (.error .cleanupUnproved)])
    else (r, [])
  | none => (r, [])

/-- `:read_expired`. -/
def onReadExpired (v : Env) (id : Ref) (r : Record) (deadline : ℤ) : Record × List Effect :=
  match r.readFrom with
  | some sender =>
    if r.readDeadline = some deadline then
      thenRetire v id
        ({ r with readFrom := none, readDeadline := none }, [.reply sender (.error .readDeadlineExhausted)])
        (deadline + 5000)
    else (r, [])
  | none => (r, [])

/-- The messages of the timers on the record they find; a lifetime that is not set raises. -/
def onTimeout (v : Env) (r : Record) : Timeout → Option (Record × List Effect)
  | .expire id => r.lifetimeDeadline.map fun d => r.beginRetirement v id (d + 5000)
  | .closeExpired _ deadline => some (onCloseExpired r deadline)
  | .readExpired id deadline => some (onReadExpired v id r deadline)

/-- The messages of the timers. -/
def timeout (o : Owner) (v : Env) (message : Timeout) : Option Turn :=
  match o.transfers.lookup message.ref with
  | some r => (onTimeout v r message).map (o.put message.ref)
  | none => some (o, [])

end Owner

end Loopex.Transfers
