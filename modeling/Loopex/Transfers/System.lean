import Loopex.Transfers.Owner
import Loopex.System.Run
import Loopex.System.Tables

/-!
# The transfers at work

The owner with its workers, the messages on their way, the armed timers and the clock.  One move is a call,
a message, the end of a process, a timer or a step of a worker, in any order; a worker's messages arrive in
the order it sent them, its end last.

* `Event` — what is seen from outside
* `System.next`, `Step` — the moves
* `Change` — everything a handler does to a record, by the handler
* `Moved`, `next_moved` — everything a move does
-/

namespace Loopex.Transfers

open Loopex.Erlang Loopex.System

/-- An armed timer. -/
structure Timer where
  due : ℤ
  message : Timeout
  deriving DecidableEq

/-- Where a record keeps a call to answer. -/
inductive Slot where
  | opening | reading | closing
  deriving DecidableEq

inductive Event where
  | called (sender : From)
  | accepted (slot : Slot) (ref : Ref) (worker : Option Pid) (timer : Option Tag) (sender : From)
  | replied (sender : From) (reply : Reply)
  | reported (worker : Pid) (report : Report)
  | fired (timer : Tag)
  deriving DecidableEq

structure System where
  owner : Owner
  clock : ℤ
  fresh : Tag
  workers : Pid → Option Worker
  outbox : Pid → List Report
  timers : Tag → Option Timer
  history : List Event

namespace Record

/-- The call that waits in a slot. -/
def waiting (r : Record) : Slot → Option From
  | .opening => r.openFrom
  | .reading => r.readFrom
  | .closing => r.closeFrom

/-- The timer a slot waits on; an opening waits on its worker alone. -/
def waitTimer (r : Record) : Slot → Option Tag
  | .opening => none
  | .reading => r.readTimer
  | .closing => r.closeTimer

end Record

/-- The slot and the transfer of a call that may wait. -/
def Owner.Call.slot : Owner.Call → Option (Slot × Ref)
  | .openTransfer _ context => some (.opening, context.transferRef)
  | .read id _ => some (.reading, id)
  | .retire selector => some (.closing, selector.transferRef)
  | _ => none

/-- The calls a turn answers. -/
def answered : List Effect → List From
  | [] => []
  | .reply dest _ :: es => dest :: answered es
  | _ :: es => answered es

/-- The replies of a turn. -/
def replies : List Effect → List Event
  | [] => []
  | .reply dest reply :: es => .replied dest reply :: replies es
  | _ :: es => replies es

/-- A call that is not answered at once is accepted. -/
def acceptance (call : Owner.Call) (sender : From) (t : Turn) : List Event :=
  match call.slot with
  | none => []
  | some (slot, ref) =>
    match t.1.transfers.lookup ref with
    | some r =>
      if sender ∈ answered t.2 then [] else [.accepted slot ref r.worker (r.waitTimer slot) sender]
    | none => []

inductive Input where
  | call (pid : Pid) (call : Owner.Call)
  | report (worker : Pid)
  | down (monitor : Tag) (pid : Pid) (normal : Bool)
  | fire (timer : Tag)
  | act (worker : Pid) (a : Act)

/-- An input with what the machine decides: the clock, who is alive, a random reference, and which of the
timers that were cancelled had already sent their message. -/
structure Move where
  input : Input
  clock : Clock
  alive : Pid → Bool
  aliveLater : Pid → Bool
  receipt : Ref
  sent : Tag → Bool

/-! ## effects -/

/-- The timers after a turn. -/
def setTimers (m : Move) (timers : Tag → Option Timer) : List Effect → Tag → Option Timer
  | [] => timers
  | .arm t due message :: es => setTimers m (Function.update timers t (some ⟨due, message⟩)) es
  | .cancel t :: es =>
    setTimers m
      (Function.update timers t
        (if m.sent t then (timers t).filter fun timer => decide (timer.due ≤ m.clock.now) else none)) es
  | _ :: es => setTimers m timers es

def Worker.told (k : Worker) (order : Order) : Worker := { k with inbox := k.inbox ++ [order] }

/-- The workers after a turn. -/
def setWorkers (workers : Pid → Option Worker) : List Effect → Pid → Option Worker
  | [] => workers
  | .spawn w k :: es => setWorkers (Function.update workers w (some k)) es
  | .tell w order :: es =>
    setWorkers (Function.update workers w ((workers w).map fun k => k.told order)) es
  | _ :: es => setWorkers workers es

namespace System

/-- What a handler learns in a move; the reference of a call comes before those of its handler. -/
def env (s : System) (m : Move) : Env := ⟨m.clock, m.alive, m.aliveLater, s.fresh + 1, m.receipt⟩

/-- The system after a turn of the owner. -/
def turn (s : System) (m : Move) (t : Turn) : System :=
  { s with
    owner := t.1
    clock := m.clock.later
    fresh := s.fresh + 3
    timers := setTimers m s.timers t.2
    workers := setWorkers s.workers t.2
    history := s.history ++ replies t.2 }

def log (s : System) (es : List Event) : System := { s with history := s.history ++ es }

/-- A call of the process `pid`. -/
def call (s : System) (m : Move) (pid : Pid) (c : Owner.Call) : System :=
  let sender : From := ⟨pid, s.fresh⟩
  let t := s.owner.handleCall (s.env m) sender c
  ((s.log [.called sender]).turn m t).log (acceptance c sender t)

/-- The next message of a worker. -/
def report (s : System) (m : Move) (w : Pid) : Option System :=
  match s.workers w, s.outbox w with
  | some k, rep :: rest =>
    (s.owner.report (s.env m) k.ref w k.monitor rep).map fun t =>
      ({ s with outbox := Function.update s.outbox w rest }.log [.reported w rep]).turn m t
  | _, _ => none

/-- A timer that is due. -/
def fire (s : System) (m : Move) (t : Tag) : Option System :=
  match s.timers t with
  | some timer =>
    if timer.due ≤ m.clock.now then
      (s.owner.timeout (s.env m) timer.message).map fun turn =>
        ({ s with timers := Function.update s.timers t none }.log [.fired t]).turn m turn
    else none
  | none => none

/-- The system after a step of a worker. -/
def acted (s : System) (m : Move) (w : Pid) (next : Worker × List Report) : System :=
  { s with
    clock := m.clock.later
    workers := Function.update s.workers w (some next.1)
    outbox := Function.update s.outbox w (s.outbox w ++ next.2) }

/-- A step of a worker. -/
def act (s : System) (m : Move) (w : Pid) (a : Act) : Option System :=
  (s.workers w).bind fun k => (k.act s.owner.limits m.clock a).map (s.acted m w)

/-- The next system; `none` where the move is not possible, or where the owner raises and is gone. -/
def next (s : System) (m : Move) : Option System :=
  match m.input with
  | .call pid c => some (s.call m pid c)
  | .report w => s.report m w
  | .down monitor pid normal => some (s.turn m (s.owner.down (s.env m) monitor pid normal))
  | .fire t => s.fire m t
  | .act w a => s.act m w a

/-- The clock never goes back, and the monitor of a worker announces the end of that worker only. -/
def Admits (s : System) (m : Move) : Prop :=
  s.clock ≤ m.clock.now ∧ m.clock.now ≤ m.clock.later ∧
    ∀ monitor pid normal, m.input = .down monitor pid normal →
      ∀ w k, s.workers w = some k → k.monitor ≠ monitor

def Step (s : System) (m : Move) (s' : System) : Prop := s.Admits m ∧ s.next m = some s'

/-- A store that has just started. -/
def start (limits : Limits) (clock : ℤ) : System where
  owner := ⟨limits, ∅, ∅⟩
  clock := clock
  fresh := 0
  workers := fun _ => none
  outbox := fun _ => []
  timers := fun _ => none
  history := []

/-- The runs of a store from its start. -/
def Runs (limits : Limits) (clock : ℤ) : List Move → System → Prop := Run Step (start limits clock)

end System

/-! ## what a move does -/

open Owner

/-- What a call does to the record it finds. -/
inductive Called (limits : Limits) (v : Env) (sender : From) :
    Call → Ref → Record → Record × List Effect → Prop
  | opened (r : Record) :
    r.status = .reserved →
      Called limits v sender (.openTransfer r.request r.context) r.context.transferRef r
        ({ r with
            status := .verifying
            worker := some v.fresh
            workerMonitor := some (v.fresh + 1)
            openFrom := some sender },
          [.spawn v.fresh (ioWorker v r.request r.context)])
  | expired (r : Record) :
    r.status = .reserved →
      Called limits v sender (.openTransfer r.request r.context) r.context.transferRef r
        ({ r with outcome := some .openDeadlineExhausted }.retireReserved v,
          [.reply sender ({ r with outcome := some .openDeadlineExhausted }.retireReserved v).openFailure])
  | read (id : Ref) (r : Record) (length : ℤ) :
    r.status = .live → r.readFrom = none → 0 < length →
      Called limits v sender (.read id length) id r
        ({ r with
            readFrom := some sender
            readDeadline := some (v.now + limits.readDeadlineMs)
            readTimer := some v.fresh },
          .arm v.fresh (v.later + limits.readDeadlineMs) (.readExpired id (v.now + limits.readDeadlineMs))
            :: r.tell (.read length (v.now + limits.readDeadlineMs)))
  | observed (r : Record) (selector : RetireSelector) :
    r.status = .retired →
      Called limits v sender (.retire selector) selector.transferRef r
        ({ r with closeSelectorDeadline := some selector.closeDeadlineMs },
          [.reply sender { r with closeSelectorDeadline := some selector.closeDeadlineMs }.retiredReply])
  | closed (r : Record) (selector : RetireSelector) :
    ¬ mismatched r selector → r.status ≠ .retired → r.closeFrom = none →
      Called limits v sender (.retire selector) selector.transferRef r (closeRetiring v sender selector r)

/-- The turns of a call: an answer at once, a reservation, a release, or a change of one record. -/
inductive CallTurn (o : Owner) (v : Env) (sender : From) : Call → Turn → Prop
  | answer (c : Call) (reply : Reply) (jobs : Table Tag Pid) :
    (jobs.entries.length ≤ o.jobs.entries.length ∨
        o.transfers.entries.length + jobs.entries.length ≤ o.limits.perRuntime) →
      CallTurn o v sender c ({ o with jobs := jobs }, [.reply sender reply])
  | reserve (request : Request) (context : Context) :
    context.transferRef ∉ o.transfers →
    o.transfers.entries.length + o.jobs.entries.length < o.limits.perRuntime →
      CallTurn o v sender (.reserve request context)
        (o.putRecord context.transferRef (reservation v sender.pid request context),
          [.reply sender (.reserved context.transferRef)])
  | free (id receipt : Ref) (r : Record) :
    o.transfers.lookup id = some r → r.status = .retired → r.receipt = some receipt →
      CallTurn o v sender (.acknowledge id receipt)
        ({ o with transfers := o.transfers.erase id },
          cancelTimer r.timer ++ cancelTimer r.closeTimer ++ [.reply sender .ok])
  | change (c : Call) (id : Ref) (r : Record) (x : Record × List Effect) :
    o.transfers.lookup id = some r → Called o.limits v sender c id r x →
      CallTurn o v sender c (o.put id x)

section CallTurns

variable {o : Owner} {v : Env} {sender : From}

/-- An answer at once changes nothing. -/
theorem callTurn_answer (c : Call) (reply : Reply) : CallTurn o v sender c (o.answer sender reply) :=
  .answer c reply o.jobs (.inl le_rfl)

theorem callTurn_reserveJob (deadline : ℤ) :
    CallTurn o v sender (.reserveJob deadline) (o.reserveJob v sender deadline) := by
  unfold reserveJob
  split
  · split
    next hadmitted =>
      have h : (o.jobs.insert v.fresh sender.pid).entries.length ≤ o.jobs.entries.length + 1 := by
        rw [entries_insert_eq, List.length_cons]
        exact Nat.succ_le_succ length_erase_le
      have h' := of_decide_eq_true hadmitted
      exact .answer _ _ _ (.inr (by omega))
    · exact callTurn_answer _ _
  · exact callTurn_answer _ _

theorem callTurn_releaseJob (monitor : Tag) :
    CallTurn o v sender (.releaseJob monitor) (o.releaseJob sender monitor) := by
  unfold releaseJob
  split
  · exact .answer _ _ _ (.inl length_erase_le)
  · exact callTurn_answer _ _

theorem callTurn_reserve (request : Request) (context : Context) :
    CallTurn o v sender (.reserve request context) (o.reserve v sender request context) := by
  dsimp only [reserve]
  split
  · exact callTurn_answer _ _
  split
  · exact callTurn_answer _ _
  split
  · exact callTurn_answer _ _
  split
  · exact callTurn_answer _ _
  split
  next hfree _ hadmitted =>
    split
    · exact .reserve _ _ hfree (of_decide_eq_true hadmitted)
    · exact callTurn_answer _ _
  · exact callTurn_answer _ _

theorem callTurn_openTransfer (request : Request) (context : Context) :
    CallTurn o v sender (.openTransfer request context) (o.openTransfer v sender request context) := by
  dsimp only [openTransfer]
  split
  · exact callTurn_answer _ _
  split
  · exact callTurn_answer _ _
  next r hr =>
    split
    next hbound =>
      obtain ⟨rfl, rfl, -, hstatus⟩ := hbound
      split
      · exact .change _ _ r _ hr (.opened r hstatus)
      · exact .change _ _ r _ hr (.expired r hstatus)
    · exact callTurn_answer _ _

theorem callTurn_read (id : Ref) (length : ℤ) :
    CallTurn o v sender (.read id length) (o.read v sender id length) := by
  unfold Owner.read
  split
  · exact callTurn_answer _ _
  next r hr =>
    split
    next hlive => exact .change _ _ r _ hr (.read id r length hlive.1 hlive.2.1 hlive.2.2)
    split
    · exact callTurn_answer _ _
    · exact callTurn_answer _ _

theorem callTurn_acknowledge (id receipt : Ref) :
    CallTurn o v sender (.acknowledge id receipt) (o.acknowledge sender id receipt) := by
  unfold acknowledge
  split
  · exact callTurn_answer _ _
  next r hr =>
    split
    next hproved => exact .free id receipt r hr hproved.1 hproved.2
    · exact callTurn_answer _ _

theorem callTurn_retire (selector : RetireSelector) :
    CallTurn o v sender (.retire selector) (o.retire v sender selector) := by
  dsimp only [Owner.retire]
  split
  · exact callTurn_answer _ _
  next r hr =>
    split
    · exact callTurn_answer _ _
    next hmatch =>
      split
      next hretired => exact .change _ _ r _ hr (.observed r selector hretired)
      next hretired =>
        split
        · exact callTurn_answer _ _
        next hnone =>
          exact .change _ _ r _ hr (.closed r selector hmatch hretired (Decidable.not_not.1 hnone))

/-- Every call is answered at once, reserves, frees, or changes one record. -/
theorem callTurn (c : Call) : CallTurn o v sender c (o.handleCall v sender c) := by
  cases c with
  | reserveJob deadline => exact callTurn_reserveJob deadline
  | releaseJob monitor => exact callTurn_releaseJob monitor
  | reserve request context => exact callTurn_reserve request context
  | openTransfer request context => exact callTurn_openTransfer request context
  | read id length => exact callTurn_read id length
  | retire selector =>
    simp only [handleCall]
    split
    · exact callTurn_retire selector
    · exact callTurn_answer _ _
  | acknowledge id receipt =>
    simp only [handleCall]
    split
    · exact callTurn_acknowledge id receipt
    · exact callTurn_answer _ _
  | live => exact callTurn_answer _ _

end CallTurns

/-- The turns of the end of a process: of a worker, of a caller, or of neither. -/
inductive DownTurn (o : Owner) (v : Env) (monitor : Tag) (pid : Pid) (normal : Bool) : Turn → Prop
  | joined (id : Ref) (r : Record) :
    o.transfers.lookup id = some r → r.workerMonitor = some monitor → r.worker = some pid →
      DownTurn o v monitor pid normal
        (o.put id ((r.joined v normal).released, (r.joined v normal).finishWaiters v))
  | left (id : Ref) (r : Record) :
    o.findWorker monitor pid = none → o.transfers.lookup id = some r → r.callerMonitor = monitor →
      r.caller = pid → DownTurn o v monitor pid normal (o.put id (r.beginRetirement v id (v.now + 5000)))
  | job :
    o.findWorker monitor pid = none →
      DownTurn o v monitor pid normal ({ o with jobs := o.jobs.erase monitor }, [])

theorem findWorker_some {o : Owner} {monitor : Tag} {pid : Pid} {id : Ref} {r : Record}
    (h : o.findWorker monitor pid = some (id, r)) :
    o.transfers.lookup id = some r ∧ r.workerMonitor = some monitor ∧ r.worker = some pid := by
  obtain ⟨e, he, heq⟩ := Option.map_eq_some_iff.1 h
  obtain ⟨rfl, rfl⟩ := Prod.mk.inj heq
  have hp := List.find?_some he
  exact ⟨lookup_of_find he, by simpa using hp⟩

theorem findWorker_none {o : Owner} {monitor : Tag} {pid : Pid} (h : o.findWorker monitor pid = none)
    {id : Ref} {r : Record} (hr : o.transfers.lookup id = some r) :
    ¬ (r.workerMonitor = some monitor ∧ r.worker = some pid) := by
  intro hworker
  have hfind := Option.map_eq_none_iff.1 h
  exact List.find?_eq_none.1 hfind _ (mem_of_lookup hr) (decide_eq_true hworker)

theorem apart_of_findWorker {o : Owner} {monitor : Tag} {pid w : Pid} {id : Ref} {r : Record}
    (hnone : o.findWorker monitor pid = none) (hr : o.transfers.lookup id = some r) (hw : r.worker = some w) :
    w ≠ pid ∨ r.workerMonitor ≠ some monitor := by
  by_cases hpid : w = pid
  · subst hpid
    exact .inr fun hmonitor => findWorker_none hnone hr ⟨hmonitor, hw⟩
  · exact .inl hpid

theorem findCaller_some {o : Owner} {monitor : Tag} {pid : Pid} {id : Ref} {r : Record}
    (h : o.findCaller monitor pid = some (id, r)) :
    o.transfers.lookup id = some r ∧ r.callerMonitor = monitor ∧ r.caller = pid := by
  obtain ⟨e, he, heq⟩ := Option.map_eq_some_iff.1 h
  obtain ⟨rfl, rfl⟩ := Prod.mk.inj heq
  have hp := List.find?_some he
  exact ⟨lookup_of_find he, by simpa using hp⟩

theorem downTurn (o : Owner) (v : Env) (monitor : Tag) (pid : Pid) (normal : Bool) :
    DownTurn o v monitor pid normal (o.down v monitor pid normal) := by
  unfold Owner.down
  split
  next id r hworker =>
    obtain ⟨hr, hmonitor, hpid⟩ := findWorker_some hworker
    exact .joined id r hr hmonitor hpid
  next hnone =>
    split
    next id r hcaller =>
      obtain ⟨hr, hmonitor, hpid⟩ := findCaller_some hcaller
      exact .left id r hnone hr hmonitor hpid
    · exact .job hnone

/-- A worker's message on its arrival. -/
def System.received (s : System) (w : Pid) (rep : Report) (rest : List Report) : System :=
  { s with outbox := Function.update s.outbox w rest }.log [.reported w rep]

/-- A timer's message on its arrival. -/
def System.fired (s : System) (t : Tag) : System :=
  { s with timers := Function.update s.timers t none }.log [.fired t]

/-- What a move does. -/
inductive Moved (s : System) (m : Move) : System → Prop
  | call (pid : Pid) (c : Call) (t : Turn) :
    m.input = .call pid c → CallTurn s.owner (s.env m) ⟨pid, s.fresh⟩ c t →
      Moved s m (((s.log [.called ⟨pid, s.fresh⟩]).turn m t).log (acceptance c ⟨pid, s.fresh⟩ t))
  | report (w : Pid) (k : Worker) (rep : Report) (rest : List Report) (r : Record)
      (x : Record × List Effect) :
    s.workers w = some k → s.outbox w = rep :: rest → (∀ normal, rep ≠ .down normal) →
      s.owner.transfers.lookup k.ref = some r → r.worker = some w →
      s.owner.onReport (s.env m) k.ref r rep = some x →
      Moved s m ((s.received w rep rest).turn m (s.owner.put k.ref x))
  | stray (w : Pid) (k : Worker) (rep : Report) (rest : List Report) :
    s.workers w = some k → s.outbox w = rep :: rest → (∀ normal, rep ≠ .down normal) →
      (∀ r, s.owner.transfers.lookup k.ref = some r → r.worker ≠ some w) →
      Moved s m ((s.received w rep rest).turn m (s.owner, []))
  | ended (w : Pid) (k : Worker) (normal : Bool) (rest : List Report) (t : Turn) :
    s.workers w = some k → s.outbox w = .down normal :: rest →
      DownTurn s.owner (s.env m) k.monitor w normal t →
      Moved s m ((s.received w (.down normal) rest).turn m t)
  | down (monitor : Tag) (pid : Pid) (normal : Bool) (t : Turn) :
    m.input = .down monitor pid normal → DownTurn s.owner (s.env m) monitor pid normal t →
      Moved s m (s.turn m t)
  | timeout (t : Tag) (timer : Timer) (r : Record) (x : Record × List Effect) :
    m.input = .fire t → s.timers t = some timer →
      s.owner.transfers.lookup timer.message.ref = some r →
      onTimeout (s.env m) r timer.message = some x →
      Moved s m ((s.fired t).turn m (s.owner.put timer.message.ref x))
  | late (t : Tag) (timer : Timer) :
    s.timers t = some timer → s.owner.transfers.lookup timer.message.ref = none →
      Moved s m ((s.fired t).turn m (s.owner, []))
  | act (w : Pid) (k : Worker) (a : Act) (next : Worker × List Report) :
    s.workers w = some k → k.act s.owner.limits m.clock a = some next →
      Moved s m (s.acted m w next)

section Acted

variable (s : System) (m : Move) {w w' : Pid} (next : Worker × List Report)

@[simp] theorem System.acted_worker : (s.acted m w next).workers w = some next.1 :=
  Function.update_self _ _ _

@[simp] theorem System.acted_outbox : (s.acted m w next).outbox w = s.outbox w ++ next.2 :=
  Function.update_self _ _ _

theorem System.acted_worker_of_ne (h : w' ≠ w) : (s.acted m w next).workers w' = s.workers w' :=
  Function.update_of_ne h _ _

theorem System.acted_outbox_of_ne (h : w' ≠ w) : (s.acted m w next).outbox w' = s.outbox w' :=
  Function.update_of_ne h _ _

end Acted

theorem moved_report {s s' : System} {m : Move} {w : Pid} (h : s.report m w = some s') : Moved s m s' := by
  unfold System.report at h
  split at h
  next k rep rest hk hout =>
    obtain ⟨t, ht, rfl⟩ := Option.map_eq_some_iff.1 h
    unfold Owner.report at ht
    split at ht
    next normal =>
      obtain rfl := Option.some.inj ht
      exact .ended w k normal rest _ hk hout (downTurn _ _ _ _ _)
    next hrep =>
      have hdown : ∀ normal, rep ≠ .down normal := fun normal heq => hrep normal heq
      split at ht
      next r hr =>
        split at ht
        next hworker =>
          obtain ⟨x, hx, rfl⟩ := Option.map_eq_some_iff.1 ht
          exact .report w k rep rest r x hk hout hdown hr hworker hx
        next hworker =>
          obtain rfl := Option.some.inj ht
          refine .stray w k rep rest hk hout hdown fun r' hr' => ?_
          obtain rfl := Option.some.inj (hr.symm.trans hr')
          exact hworker
      next hnone =>
        obtain rfl := Option.some.inj ht
        refine .stray w k rep rest hk hout hdown fun r' hr' => ?_
        rw [hnone] at hr'
        cases hr'
  · cases h

theorem moved_fire {s s' : System} {m : Move} {t : Tag} (hin : m.input = .fire t)
    (h : s.fire m t = some s') : Moved s m s' := by
  unfold System.fire at h
  split at h
  next timer htimer =>
    split at h
    · obtain ⟨turn, hturn, rfl⟩ := Option.map_eq_some_iff.1 h
      unfold Owner.timeout at hturn
      split at hturn
      next r hr =>
        obtain ⟨x, hx, rfl⟩ := Option.map_eq_some_iff.1 hturn
        exact .timeout t timer r x hin htimer hr hx
      next hnone =>
        obtain rfl := Option.some.inj hturn
        exact .late t timer htimer hnone
    · cases h
  · cases h

/-- Everything a move does. -/
theorem next_moved {s s' : System} {m : Move} (h : s.next m = some s') : Moved s m s' := by
  unfold System.next at h
  split at h
  next pid c hin =>
    obtain rfl := Option.some.inj h
    exact .call pid c _ hin (callTurn c)
  next w hin => exact moved_report h
  next monitor pid normal hin =>
    obtain rfl := Option.some.inj h
    exact .down monitor pid normal _ hin (downTurn _ _ _ _ _)
  next t hin => exact moved_fire hin h
  next w a hin =>
    obtain ⟨k, hk, h⟩ := Option.bind_eq_some_iff.1 h
    obtain ⟨next, hnext, rfl⟩ := Option.map_eq_some_iff.1 h
    exact .act w k a next hk hnext

end Loopex.Transfers
