import Loopex.Daemon.LeasePermits
import Loopex.System.Run

/-!
# The exclusion of the lease

What a step can do to the lease, the transition and the mutations in flight, said once, and what follows for
every run.

* `Move` — a mutation in flight changes or leaves, commits its deadline or enters, a renewal starts or is applied, a
  transition is proposed or resolved
* `move_step` — every step is one of these
* `Exclusive` — one mutation in flight, whose holder holds the lease and keeps it
* `controller_exclusive` — a task is handed over under control of the session, which stays while it is in flight
-/

namespace Loopex.Daemon.LeaseOwner

open Loopex.Erlang Loopex.System

/-! ## what is followed -/

/-- The renewal that an awaited completion brings. -/
def State.renewing (s : State) : Option (OriginId × ℤ) :=
  match s.awaiting.map Awaited.step with
  | some (.complete permitId (some deadline) _) => some (permitId, deadline)
  | _ => none

/-- A mutation that is handed to the relay, with its task. -/
def Mark.promotion? : Mark → Option (OriginId × RelayTask)
  | .sent (.promoteLeaseTicket originId _ task) => some (originId, task)
  | _ => none

def State.promotions (s : State) : List (OriginId × RelayTask) := s.log.filterMap Mark.promotion?

/-- What a mutation in flight has claimed of the lease. -/
def InFlight.claim (m : InFlight) : Pid × Bytes × Bytes × Option ℤ :=
  (m.holderPid, m.holderIncarnation, m.writerEpoch, m.candidateDeadline)

/-- The lease is that of the mutation. -/
def Tenure.Of (lease : Tenure) (m : InFlight) : Prop :=
  lease.holderPid = m.holderPid ∧ lease.holderIncarnation = m.holderIncarnation ∧ lease.writerEpoch = m.writerEpoch

/-- Time passes, and what was done stays done. -/
structure Later (s s' : State) : Prop where
  readings : s.readings ≤ s'.readings
  log : ∀ mark ∈ s.log, mark ∈ s'.log

/-- No mutation is handed to the relay, and no renewal starts. -/
structure Passes (s s' : State) : Prop extends Later s s' where
  renewing : s'.renewing = none ∨ s'.renewing = s.renewing
  promotions : s'.promotions = s.promotions

/-- Nothing happens to the lease, the transition and the mutations in flight. -/
structure Quiet (s s' : State) : Prop extends Passes s s' where
  lease : s'.lease = s.lease
  transition : s'.transition = s.transition
  inFlight : s'.inFlight = s.inFlight

/-- Nor to the waiters, the operations that are queued and the attachments. -/
structure Still (s s' : State) : Prop extends Quiet s s' where
  waiters : s'.waiters = s.waiters
  pendingOperations : s'.pendingOperations = s.pendingOperations
  attachments : s'.attachments = s.attachments

/-- No mutation enters, and none changes its claim. -/
structure Narrow (s s' : State) : Prop where
  few : s'.inFlight.keys.length ≤ s.inFlight.keys.length
  claim : ∀ o m', s'.inFlight.lookup o = some m' → ∃ m, s.inFlight.lookup o = some m ∧ m'.claim = m.claim

/-- What is proposed, of what state. -/
def Proposable (v : Setting) (s s' : State) : Transition → Prop
  | .grant _ _ _ previous => s.held = none ∧ previous = s.lease
  | .release _ _ _ lease => s.held = some lease ∧ s.inFlight.keys = []
  | .expiry _ lease => s.held = some lease ∧ s.inFlight.keys = [] ∧
      ∃ n, s.readings ≤ n ∧ n < s'.readings ∧ lease.deadline ≤ v.monotonicMs n

/-- The lease that a resolution leaves. -/
def Resolves (v : Setting) (lease' : Option Tenure) : Transition → Resolution → Prop
  | .grant ref a epoch _, .grant ref' (some grantedAt) => ref = ref' ∧
      lease' = some ⟨.held, a.connection, a.connectionIncarnation, epoch, grantedAt, grantedAt + v.leaseTermMs⟩
  | .grant ref _ _ previous, .grant ref' none => ref = ref' ∧ lease' = previous
  | .release ref _ _ lease, .release ref' released => ref = ref' ∧
      lease' = some (if released then { lease with status := .released } else lease)
  | .expiry ref lease, .expiry ref' => ref = ref' ∧ lease' = some { lease with status := .expired }
  | _, _ => False

section

variable {s s' t : State}

theorem Later.trans (h : Later s s') (h' : Later s' t) : Later s t :=
  ⟨le_trans h.readings h'.readings, fun m hm => h'.log m (h.log m hm)⟩

theorem Passes.refl (s : State) : Passes s s := ⟨⟨le_refl _, fun _ h => h⟩, .inr rfl, rfl⟩

theorem Passes.trans (h : Passes s s') (h' : Passes s' t) : Passes s t where
  toLater := h.toLater.trans h'.toLater
  renewing := by
    rcases h'.renewing with hr | hr
    · exact .inl hr
    · rw [hr]
      exact h.renewing
  promotions := h'.promotions.trans h.promotions

theorem Quiet.refl (s : State) : Quiet s s := ⟨Passes.refl s, rfl, rfl, rfl⟩

theorem Quiet.trans (h : Quiet s s') (h' : Quiet s' t) : Quiet s t :=
  ⟨h.toPasses.trans h'.toPasses, h'.lease.trans h.lease, h'.transition.trans h.transition,
    h'.inFlight.trans h.inFlight⟩

theorem Quiet.held (h : Quiet s s') : s'.held = s.held := by rw [State.held, h.lease, State.held]

theorem Still.refl (s : State) : Still s s := ⟨Quiet.refl s, rfl, rfl, rfl⟩

theorem Narrow.refl (s : State) : Narrow s s := ⟨le_refl _, fun _ m h => ⟨m, h, rfl⟩⟩

theorem Narrow.of_eq (h : s'.inFlight = s.inFlight) : Narrow s s' := by
  refine ⟨by rw [h], fun o m hm => ⟨m, ?_, rfl⟩⟩
  rwa [← h]

end

/-! ## moves -/

/-- What an event can do to the lease, the transition and the mutations in flight. -/
inductive Move (v : Setting) (e : Event) (s s' : State) : Prop
  | flight (hp : Passes s s') (hl : s'.lease = s.lease) (ht : s'.transition = s.transition) (hn : Narrow s s')
  | commit (o : OriginId) (m : InFlight) (candidate : ℤ) (lease : Tenure) (hp : Passes s s')
      (hm : s.inFlight.lookup o = some m) (hc : m.candidateDeadline = some candidate) (hh : s.held = some lease)
      (hof : lease.Of m) (hl : s'.lease = some { lease with deadline := candidate })
      (ht : s'.transition = s.transition) (hn : Narrow s s') (hgone : s'.inFlight.lookup o = none)
  | enter (d : Mutation) (m : InFlight) (gate : Bool) (n : ℕ) (hlater : Later s s') (hr : s'.renewing = none)
      (hread : s.readings ≤ n ∧ n < s'.readings) (hl : s'.lease = s.lease) (ht : s'.transition = s.transition)
      (hexp : s.transition.all Transition.isExpiry = true) (hempty : s.inFlight.keys = [])
      (hin : s'.inFlight = s.inFlight.insert d.originId m)
      (hclaim : m.claim = (d.connection, d.connectionIncarnation, d.writerEpoch,
        if gate then some (v.monotonicMs n + v.leaseTermMs) else none))
      (hgate : gate = true → resumeHolderGate s d.toMutationCall (v.monotonicMs n) = true)
      (hsent : s'.promotions = s.promotions ∨
        (∃ rest, s.pendingOperations = .mutation d :: rest) ∧
          gate = mutationGate s d.toMutationCall (v.monotonicMs n) ∧
          s'.promotions = (d.originId,
            if gate then .own d.taskFun else .refusal (.requestError d.requestId .controlNotHeld)) :: s.promotions)
  | renew (a : Acquisition) (deadline : ℤ) (lease : Tenure) (hlater : Later s s')
      (hr : s'.renewing = some (a.permitId, deadline)) (hsent : s'.promotions = s.promotions) (hl : s'.lease = s.lease)
      (ht : s'.transition = s.transition) (hnone : s.transition = none) (hin : s'.inFlight = s.inFlight)
      (hempty : s.inFlight.keys = []) (hh : s.held = some lease)
      (hd : (∃ n, s.readings ≤ n ∧ n < s'.readings ∧ deadline = v.monotonicMs n + v.leaseTermMs) ∨
        a ∈ s.waiters ∧ deadline = a.admittedAt + v.leaseTermMs)
  | renewed (permitId : OriginId) (deadline : ℤ) (lease : Tenure) (hp : Passes s s')
      (hold : s.renewing = some (permitId, deadline)) (hr : s'.renewing = none) (hh : s.held = some lease)
      (hl : s'.lease = some { lease with deadline := deadline }) (ht : s'.transition = s.transition)
      (hin : s'.inFlight = s.inFlight)
  | propose (t : Transition) (hp : Passes s s') (hr : s'.renewing = none) (hl : s'.lease = s.lease)
      (hnone : s.transition = none) (ht : s'.transition = some t) (hin : s'.inFlight = s.inFlight)
      (hof : Proposable v s s' t)
  | resolve (t : Transition) (operationRef : Ref) (r : Resolution) (hp : Passes s s')
      (he : e = .daemonLeaseResolution operationRef r) (hold : s.transition = some t) (ht : s'.transition = none)
      (hin : s'.inFlight = s.inFlight) (hl : Resolves v s'.lease t r)
      (hack : .sent (.leaseOwnerResolutionAck operationRef r .ok) ∈ s'.log)

section

variable {v : Setting} {e : Event} {s s' t : State}

theorem Quiet.move (h : Quiet s s') : Move v e s s' :=
  .flight h.toPasses h.lease h.transition (.of_eq h.inFlight)

theorem Proposable.before {u : Transition} (h : Quiet s s') (hu : Proposable v s' t u) : Proposable v s t u := by
  cases u with
  | grant ref a epoch previous => exact ⟨h.held ▸ hu.1, hu.2.trans h.lease⟩
  | release ref permitId requestId lease => exact ⟨h.held ▸ hu.1, h.inFlight ▸ hu.2⟩
  | expiry ref lease =>
    obtain ⟨hheld, hempty, n, hn, hlt, hle⟩ := hu
    exact ⟨h.held ▸ hheld, h.inFlight ▸ hempty, n, le_trans h.readings hn, hlt, hle⟩

theorem Proposable.after {u : Transition} (hle : s'.readings ≤ t.readings) (hu : Proposable v s s' u) :
    Proposable v s t u := by
  cases u with
  | grant ref a epoch previous => exact hu
  | release ref permitId requestId lease => exact hu
  | expiry ref lease =>
    obtain ⟨hheld, hempty, n, hn, hlt, hdeadline⟩ := hu
    exact ⟨hheld, hempty, n, hn, lt_of_lt_of_le hlt hle, hdeadline⟩

/-- A move after nothing has happened. -/
theorem Move.before (h : Still s s') (m : Move v e s' t) : Move v e s t := by
  cases m with
  | flight hp hl ht hn =>
    exact .flight (h.toPasses.trans hp) (hl.trans h.lease) (ht.trans h.transition) ⟨h.inFlight ▸ hn.few, h.inFlight ▸ hn.claim⟩
  | commit o m candidate lease hp hm hc hh hof hl ht hn hgone =>
    exact .commit o m candidate lease (h.toPasses.trans hp) (h.inFlight ▸ hm) hc (h.held ▸ hh) hof hl
      (ht.trans h.transition) ⟨h.inFlight ▸ hn.few, h.inFlight ▸ hn.claim⟩ hgone
  | enter d m gate n hlater hr hread hl ht hexp hempty hin hclaim hgate hsent =>
    have hresume : resumeHolderGate s' d.toMutationCall = resumeHolderGate s d.toMutationCall := by
      funext now
      rw [resumeHolderGate, h.held, resumeHolderGate]
    have hmutation : mutationGate s' d.toMutationCall = mutationGate s d.toMutationCall := by
      funext now
      rw [mutationGate, h.held, State.attached, h.attachments, mutationGate, State.attached]
    rw [hresume] at hgate
    rw [hmutation, h.promotions, h.pendingOperations] at hsent
    exact .enter d m gate n (h.toLater.trans hlater) hr ⟨le_trans h.readings hread.1, hread.2⟩ (hl.trans h.lease)
      (ht.trans h.transition) (h.transition ▸ hexp) (h.inFlight ▸ hempty) (h.inFlight ▸ hin) hclaim hgate hsent
  | renew a deadline lease hlater hr hsent hl ht hnone hin hempty hh hd =>
    refine .renew a deadline lease (h.toLater.trans hlater) hr (hsent.trans h.promotions) (hl.trans h.lease)
      (ht.trans h.transition) (h.transition ▸ hnone) (hin.trans h.inFlight) (h.inFlight ▸ hempty) (h.held ▸ hh) ?_
    rcases hd with ⟨n, hn, hd⟩ | ⟨ha, hd⟩
    · exact .inl ⟨n, le_trans h.readings hn, hd⟩
    · exact .inr ⟨h.waiters ▸ ha, hd⟩
  | renewed permitId deadline lease hp hold hr hh hl ht hin =>
    have hrenewing : s.renewing = some (permitId, deadline) := by
      rcases h.renewing with hnone | hsame
      · rw [hnone] at hold
        cases hold
      · rwa [← hsame]
    exact .renewed permitId deadline lease (h.toPasses.trans hp) hrenewing hr (h.held ▸ hh) hl (ht.trans h.transition)
      (hin.trans h.inFlight)
  | propose u hp hr hl hnone ht hin hof =>
    exact .propose u (h.toPasses.trans hp) hr (hl.trans h.lease) (h.transition ▸ hnone) ht (hin.trans h.inFlight)
      (hof.before h.toQuiet)
  | resolve u operationRef r hp he hold ht hin hl hack =>
    exact .resolve u operationRef r (h.toPasses.trans hp) he (h.transition ▸ hold) ht (hin.trans h.inFlight) hl hack

/-- A move before nothing happens. -/
theorem Move.after (m : Move v e s s') (h : Quiet s' t) : Move v e s t := by
  have hgone : s'.renewing = none → t.renewing = none := by
    intro hnone
    rcases h.renewing with hr | hr
    · exact hr
    · rw [hr, hnone]
  cases m with
  | flight hp hl ht hn =>
    exact .flight (hp.trans h.toPasses) (h.lease.trans hl) (h.transition.trans ht) ⟨h.inFlight ▸ hn.few, h.inFlight ▸ hn.claim⟩
  | commit o m candidate lease hp hm hc hh hof hl ht hn hgone =>
    exact .commit o m candidate lease (hp.trans h.toPasses) hm hc hh hof (h.lease.trans hl) (h.transition.trans ht)
      ⟨h.inFlight ▸ hn.few, h.inFlight ▸ hn.claim⟩ (h.inFlight ▸ hgone)
  | enter d m gate n hlater hr hread hl ht hexp hempty hin hclaim hgate hsent =>
    exact .enter d m gate n (hlater.trans h.toLater) (hgone hr) ⟨hread.1, lt_of_lt_of_le hread.2 h.readings⟩
      (h.lease.trans hl) (h.transition.trans ht) hexp hempty (h.inFlight.trans hin) hclaim hgate
      (h.promotions ▸ hsent)
  | renew a deadline lease hlater hr hsent hl ht hnone hin hempty hh hd =>
    rcases h.renewing with hnone' | hsame
    · exact .flight ⟨hlater.trans h.toLater, .inl hnone', h.promotions.trans hsent⟩ (h.lease.trans hl)
        (h.transition.trans ht) (.of_eq (h.inFlight.trans hin))
    · refine .renew a deadline lease (hlater.trans h.toLater) (hsame.trans hr) (h.promotions.trans hsent)
        (h.lease.trans hl) (h.transition.trans ht) hnone (h.inFlight.trans hin) hempty hh ?_
      rcases hd with ⟨n, hn, hlt, hd⟩ | hd
      · exact .inl ⟨n, hn, lt_of_lt_of_le hlt h.readings, hd⟩
      · exact .inr hd
  | renewed permitId deadline lease hp hold hr hh hl ht hin =>
    exact .renewed permitId deadline lease (hp.trans h.toPasses) hold (hgone hr) hh (h.lease.trans hl)
      (h.transition.trans ht) (h.inFlight.trans hin)
  | propose u hp hr hl hnone ht hin hof =>
    exact .propose u (hp.trans h.toPasses) (hgone hr) (h.lease.trans hl) hnone (h.transition.trans ht)
      (h.inFlight.trans hin) (hof.after h.readings)
  | resolve u operationRef r hp he hold ht hin hl hack =>
    exact .resolve u operationRef r (hp.trans h.toPasses) he hold (h.transition.trans ht) (h.inFlight.trans hin)
      (h.lease ▸ hl) (h.log _ hack)

/-! ## what is quiet -/

theorem promotions_cons {mark : Mark} {s' : State} (hl : s'.log = mark :: s.log) (hm : mark.promotion? = none) :
    s'.promotions = s.promotions := by
  rw [State.promotions, hl, List.filterMap_cons, hm, State.promotions]

/-- A message that hands over no mutation is sent. -/
theorem still_send {m : Message} (hm : Mark.promotion? (.sent m) = none) : Still s (s.send m) :=
  ⟨⟨⟨⟨le_refl _, fun _ h => List.mem_cons_of_mem _ h⟩, .inr rfl, promotions_cons rfl hm⟩, rfl, rfl, rfl⟩, rfl, rfl, rfl⟩

/-- A request is sent that brings no renewal. -/
theorem still_await {request : Message} {step : Step} (hm : Mark.promotion? (.sent request) = none)
    (hr : (s.await request step).renewing = none) : Still s (s.await request step) :=
  ⟨⟨⟨⟨le_refl _, fun _ h => List.mem_cons_of_mem _ h⟩, .inl hr, promotions_cons rfl hm⟩, rfl, rfl, rfl⟩, rfl, rfl, rfl⟩

theorem still_tick : Still s s.tick :=
  ⟨⟨⟨⟨Nat.le_succ _, fun _ h => h⟩, .inr rfl, rfl⟩, rfl, rfl, rfl⟩, rfl, rfl, rfl⟩

theorem still_scheduleExpiry : Still s s.scheduleExpiry :=
  ⟨⟨⟨⟨Nat.le_succ _, fun _ h => h⟩, .inr rfl, rfl⟩, rfl, rfl, rfl⟩, rfl, rfl, rfl⟩

theorem still_drained : Still s s.drained := ⟨⟨⟨⟨le_refl _, fun _ h => h⟩, .inr rfl, rfl⟩, rfl, rfl, rfl⟩, rfl, rfl, rfl⟩

theorem still_notify {p : OriginId} {kind : PermitKind} : Still s (notifyPermit s p kind) := by
  rw [notifyPermit]
  split
  · exact ⟨⟨⟨⟨le_refl _, fun _ h => h⟩, .inr rfl, rfl⟩, rfl, rfl, rfl⟩, rfl, rfl, rfl⟩
  · exact still_send rfl

theorem still_complete {p : OriginId} {result : Record} : Still s (completePermit s p result none) := still_await rfl rfl

theorem Still.trans (h : Still s s') (h' : Still s' t) : Still s t :=
  ⟨h.toQuiet.trans h'.toQuiet, h'.waiters.trans h.waiters, h'.pendingOperations.trans h.pendingOperations,
    h'.attachments.trans h.attachments⟩

/-- The fields that are not followed may differ. -/
theorem Passes.congr (h : Passes s s') (ha : t.awaiting = s'.awaiting) (hr : t.readings = s'.readings)
    (hlog : t.log = s'.log) : Passes s t := by
  refine h.trans ⟨⟨hr.ge, fun m hm => by rwa [hlog]⟩, .inr ?_, ?_⟩
  · rw [State.renewing, ha, State.renewing]
  · rw [State.promotions, hlog, State.promotions]

theorem Quiet.congr (h : Quiet s s') (hl : t.lease = s'.lease) (ht : t.transition = s'.transition)
    (hi : t.inFlight = s'.inFlight) (ha : t.awaiting = s'.awaiting) (hr : t.readings = s'.readings)
    (hlog : t.log = s'.log) : Quiet s t :=
  ⟨h.toPasses.congr ha hr hlog, hl.trans h.lease, ht.trans h.transition, hi.trans h.inFlight⟩

theorem quiet_queue {a : Acquisition} : Quiet s (queueAcquisition s a) :=
  ⟨⟨⟨Nat.le_succ _, fun _ h => List.mem_cons_of_mem _ h⟩, .inr rfl, promotions_cons rfl rfl⟩, rfl, rfl, rfl⟩

/-! ## acquisitions and releases -/

theorem move_proposeGrant {a : Acquisition} (hq : Quiet s s') (hnone : s'.transition = none) (hheld : s'.held = none)
    (hr : s'.renewing = none) : Move v e s (proposeGrant v s' a) :=
  .propose _ (hq.toPasses.trans ⟨⟨le_refl _, fun _ h => List.mem_cons_of_mem _ h⟩, .inl hr, promotions_cons rfl rfl⟩) hr
    hq.lease (hq.transition ▸ hnone) rfl hq.inFlight ⟨hq.held ▸ hheld, hq.lease⟩

theorem move_ensureExpiry (hq : Quiet s s') (hr : s'.renewing = none) : Move v e s (ensureExpiryTransition v s') := by
  unfold ensureExpiryTransition
  split
  · exact hq.move
  next hnone =>
    split
    · exact hq.move
    next lease hheld =>
      split
      next hdue =>
        have hpass : Passes s' (s'.tick.send (.leaseExpiryProposed s'.refs lease.holderPid lease.holderIncarnation
            lease.writerEpoch)) :=
          ⟨⟨Nat.le_succ _, fun _ h => List.mem_cons_of_mem _ h⟩, .inl hr, promotions_cons rfl rfl⟩
        have hof : Proposable v s' (s'.tick.send (.leaseExpiryProposed s'.refs lease.holderPid
            lease.holderIncarnation lease.writerEpoch)) (.expiry s'.refs lease) :=
          ⟨hheld, hdue.2.1, s'.readings, le_refl _, Nat.lt_succ_self _, hdue.1⟩
        refine .propose (.expiry s'.refs lease) ?_ hr hq.lease ?_ rfl hq.inFlight (hof.before hq)
        · have hall := hq.toPasses.trans hpass
          exact ⟨⟨hall.readings, hall.log⟩, .inl hr, hall.promotions⟩
        · rw [← hq.transition]
          simpa using hnone
      · exact (hq.trans still_tick.toQuiet).move

theorem move_renew {a : Acquisition} {lease : Tenure} {admittedAt : ℤ} (hq : Quiet s s') (hnone : s'.transition = none)
    (hempty : s'.inFlight.keys = []) (hheld : s'.held = some lease)
    (hd : (∃ n, s.readings ≤ n ∧ n ≤ s'.readings ∧ admittedAt = v.monotonicMs n) ∨
      a ∈ s.waiters ∧ admittedAt = a.admittedAt) :
    Move v e s (renew v s' a lease admittedAt) := by
  refine .renew a (admittedAt + v.leaseTermMs) lease
    (hq.toLater.trans ⟨Nat.le_succ _, fun _ h => List.mem_cons_of_mem _ h⟩) rfl
    ((promotions_cons rfl rfl).trans hq.promotions) hq.lease hq.transition (hq.transition ▸ hnone) hq.inFlight
    (hq.inFlight ▸ hempty) (hq.held ▸ hheld) ?_
  rcases hd with ⟨n, hn, hle, rfl⟩ | ⟨ha, rfl⟩
  · exact .inl ⟨n, hn, Nat.lt_succ_of_le hle, rfl⟩
  · exact .inr ⟨ha, rfl⟩

/-- An acquisition that is claimed is decided. -/
theorem move_acquisition {a : Acquisition} (hr : s.renewing = none) :
    Move v e s (handleAcquisition v s.tick a (s.now v)) := by
  have htick : Quiet s s.tick := still_tick.toQuiet
  unfold handleAcquisition
  split
  · exact (htick.trans still_complete.toQuiet).move
  · split
    · exact (htick.trans quiet_queue).move
    next htr =>
      have hnone : s.tick.transition = none := by simpa using htr
      split
      next hheld => exact move_proposeGrant htick hnone hheld hr
      next lease hheld =>
        split
        · exact (htick.trans quiet_queue).move
        next hflight =>
          split
          · exact move_ensureExpiry (htick.trans quiet_queue) hr
          · split
            next hsame =>
              have hempty : s.tick.inFlight.keys = [] := by
                by_contra hne
                exact hflight ⟨hne, hsame⟩
              exact move_renew htick hnone hempty hheld (.inl ⟨s.readings, le_refl _, Nat.le_succ _, rfl⟩)
            · exact (htick.trans still_complete.toQuiet).move

/-- A waiter is decided. -/
theorem move_processOneWaiter (hr : s.renewing = none) (hnone : s.transition = none) (hempty : s.inFlight.keys = []) :
    Move v e s (processOneWaiter v s) := by
  unfold processOneWaiter
  split
  · exact (Quiet.refl s).move
  next a remaining hw =>
    have htick : Quiet s { s.tick with waiters := remaining } := still_tick.toQuiet.congr rfl rfl rfl rfl rfl rfl
    dsimp only
    split
    · exact (htick.trans still_complete.toQuiet).move
    · split
      next hheld =>
        have hmove := move_proposeGrant (v := v) (e := e) (a := a) htick hnone hheld hr
        exact hmove.after ((Quiet.refl _).congr rfl rfl rfl rfl rfl rfl)
      next lease hheld =>
        split
        · exact move_ensureExpiry still_tick.toQuiet hr
        · split
          · refine move_renew htick hnone hempty hheld (.inr ⟨?_, rfl⟩)
            rw [hw]
            exact List.mem_cons_self ..
          · exact (htick.trans still_complete.toQuiet).move

theorem releaseGate_eq_some {d : ReleaseRequest} {now : ℤ} {lease : Tenure} (h : releaseGate s d now = some lease) :
    s.transition = none ∧ s.held = some lease := by
  unfold releaseGate at h
  split at h
  next hnone => exact ⟨Option.isNone_iff_eq_none.1 hnone, (Option.filter_eq_some_iff.1 h).1⟩
  · cases h

theorem move_performRelease {d : ReleaseRequest} (hq : Quiet s s') (hr : s'.renewing = none)
    (hempty : s'.inFlight.keys = []) : Move v e s (performRelease v s' d) := by
  unfold performRelease
  split
  next lease hgate =>
    obtain ⟨hnone, hheld⟩ := releaseGate_eq_some hgate
    have hpass := hq.toPasses.trans still_tick.toPasses
    refine .propose _ ⟨⟨hpass.readings, fun m hm => List.mem_cons_of_mem _ (hpass.log m hm)⟩, .inl hr,
      (promotions_cons rfl rfl).trans hq.promotions⟩ hr hq.lease (hq.transition ▸ hnone) rfl hq.inFlight
      ⟨hq.held ▸ hheld, hq.inFlight ▸ hempty⟩
  · exact (hq.trans (still_tick.trans still_complete).toQuiet).move

/-! ## mutations -/

theorem resumeHolderGate_of_mutationGate {d : MutationCall} {now : ℤ} (h : mutationGate s d now = true) :
    resumeHolderGate s d now = true := by
  obtain ⟨lease, hheld, hboth⟩ := (Option.any_eq_true _ _).1 h
  exact (Option.any_eq_true _ _).2 ⟨lease, hheld, (Bool.and_eq_true_iff.1 hboth).1⟩

theorem move_promoteDirect {d : Mutation} {remaining : List Operation}
    (hpend : s.pendingOperations = .mutation d :: remaining) (hempty : s.inFlight.keys = [])
    (hexp : s.transition.all Transition.isExpiry = true) :
    Move v e s (promoteDirectMutation v { s with pendingOperations := remaining } d) := by
  refine .enter d _ (mutationGate s d.toMutationCall (s.now v)) s.readings
    ⟨Nat.le_succ _, fun _ h => List.mem_cons_of_mem _ h⟩ rfl ⟨le_refl _, Nat.lt_succ_self _⟩ rfl rfl hexp hempty rfl rfl
    resumeHolderGate_of_mutationGate (.inr ⟨⟨remaining, hpend⟩, rfl, ?_⟩)
  rfl

theorem move_promoteResume {d : Mutation} {remaining : List Operation} (hempty : s.inFlight.keys = [])
    (hexp : s.transition.all Transition.isExpiry = true) :
    Move v e s (promoteResumeMutation v { s with pendingOperations := remaining } d) := by
  refine .enter d _ (resumeHolderGate s d.toMutationCall (s.now v)) s.readings
    ⟨Nat.le_succ _, fun _ h => List.mem_cons_of_mem _ h⟩ rfl ⟨le_refl _, Nat.lt_succ_self _⟩ rfl rfl hexp hempty rfl rfl
    (fun h => h) (.inl (promotions_cons rfl rfl))

theorem move_processNextOperation (hr : s.renewing = none) (hempty : s.inFlight.keys = [])
    (hexp : s.transition.all Transition.isExpiry = true) : Move v e s (processNextOperation v s) := by
  unfold processNextOperation
  split
  · exact (Quiet.refl s).move
  next d remaining hpend =>
    split
    · exact move_promoteResume hempty hexp
    · exact move_promoteDirect hpend hempty hexp
  next d remaining hpend =>
    exact move_performRelease ((Quiet.refl s).congr rfl rfl rfl rfl rfl rfl) hr hempty

theorem length_keys_insert {o : OriginId} {m m' : InFlight} (hm : s.inFlight.lookup o = some m) :
    (s.inFlight.insert o m').keys.length = s.inFlight.keys.length := by
  have hmem : o ∈ s.inFlight.keys := AList.mem_keys.2 (AList.lookup_isSome.1 (by rw [hm]; rfl))
  rw [AList.keys_insert, List.length_cons, List.length_erase_of_mem hmem]
  exact Nat.succ_pred_eq_of_pos (List.length_pos_of_mem hmem)

/-- A mutation in flight is changed, not in its claim. -/
theorem narrow_insert {o : OriginId} {m m' : InFlight} (hm : s.inFlight.lookup o = some m)
    (hclaim : m'.claim = m.claim) (hin : t.inFlight = s.inFlight.insert o m') : Narrow s t := by
  refine ⟨by rw [hin, length_keys_insert hm], fun o' m₁ hm₁ => ?_⟩
  rw [hin] at hm₁
  by_cases heq : o' = o
  · subst heq
    rw [AList.lookup_insert] at hm₁
    cases hm₁
    exact ⟨m, hm, hclaim⟩
  · rw [AList.lookup_insert_ne heq] at hm₁
    exact ⟨m₁, hm₁, rfl⟩

theorem Narrow.erase {o : OriginId} (h : Narrow s s') (hin : t.inFlight = s'.inFlight.erase o) : Narrow s t := by
  refine ⟨?_, fun o' m₁ hm₁ => ?_⟩
  · rw [hin, AList.keys_erase]
    exact le_trans List.length_erase_le h.few
  · rw [hin] at hm₁
    by_cases heq : o' = o
    · subst heq
      rw [AList.lookup_erase] at hm₁
      cases hm₁
    · rw [AList.lookup_erase_ne heq] at hm₁
      exact h.claim o' m₁ hm₁

/-- A mutation is changed, and when it is settled it leaves and may commit its deadline. -/
theorem move_settle {o : OriginId} {m m' : InFlight} (hm : s.inFlight.lookup o = some m) (hclaim : m'.claim = m.claim)
    (hp : Passes s s') (hl : s'.lease = s.lease) (ht : s'.transition = s.transition)
    (hin : s'.inFlight = s.inFlight.insert o m') : Move v e s (settleMutationIfReady s' o) := by
  have hnarrow : Narrow s s' := narrow_insert hm hclaim hin
  have hlookup : s'.inFlight.lookup o = some m' := by rw [hin, AList.lookup_insert]
  have hheld : s'.held = s.held := by rw [State.held, hl, State.held]
  unfold settleMutationIfReady
  rw [hlookup]
  dsimp only
  split
  · exact .flight hp hl ht hnarrow
  next disposition hdisposition =>
    split
    · split
      · exact .flight (hp.congr rfl rfl rfl) hl ht (hnarrow.erase rfl)
      · unfold commitCandidateDeadline
        split
        next lease candidate hlease hcandidate =>
          split
          next hof =>
            have hclaim' := hclaim
            simp only [InFlight.claim, Prod.mk.injEq] at hclaim'
            obtain ⟨h1, h2, h3, h4⟩ := hclaim'
            have hpass : Passes s' s'.scheduleExpiry := still_scheduleExpiry.toPasses
            refine .commit o m candidate lease ?_ hm (h4 ▸ hcandidate) (hheld ▸ hlease)
              ⟨hof.1.trans h1, hof.2.1.trans h2, hof.2.2.trans h3⟩ rfl ht (hnarrow.erase rfl) (AList.lookup_erase _ _)
            have hall := hp.trans hpass
            exact ⟨⟨hall.readings, hall.log⟩, hp.renewing, hp.promotions⟩
          · exact .flight (hp.congr rfl rfl rfl) hl ht (hnarrow.erase rfl)
        · exact .flight (hp.congr rfl rfl rfl) hl ht (hnarrow.erase rfl)
    · exact .flight hp hl ht hnarrow

theorem move_admitPromoted {o : OriginId} (hp : Passes s s') (hl : s'.lease = s.lease)
    (ht : s'.transition = s.transition) (hin : s'.inFlight = s.inFlight) (h : admitPromoted s' o = some t) :
    Move v e s t := by
  obtain ⟨m, hm, rfl⟩ := Option.map_eq_some_iff.1 h
  rw [hin] at hm
  have hclaim : InFlight.claim { m with promoted := true } = m.claim := rfl
  exact move_settle hm hclaim (hp.congr rfl rfl rfl) hl ht (by rw [hin])

theorem move_dismiss {d : Mutation} {answer : CallAnswer} (hp : Passes s s') (hl : s'.lease = s.lease)
    (ht : s'.transition = s.transition) (hin : s'.inFlight = s.inFlight) : Move v e s (dismiss s' d answer) := by
  have hsend : Passes s' (s'.send (.reply d.caller answer)) := (still_send rfl).toPasses
  have hall := hp.trans hsend
  exact .flight (hall.congr rfl rfl rfl) hl ht ((Narrow.of_eq hin).erase rfl)

/-! ## inputs and the drain -/

theorem held_of_none (h : s.lease = none) : s.held = none := by
  rw [State.held, h]
  rfl

theorem still_beginRetirement : Still s (beginRetirement s) := by
  rw [beginRetirement]
  split
  · exact still_await rfl rfl
  · exact Still.refl s

theorem move_handleInput {input : Input} (hq : Quiet s s') (hr : s'.renewing = none) : Move v e s (handleInput v s' input) := by
  cases input with
  | firstAcquire q =>
    rw [handleInput]
    split
    next hopen =>
      obtain ⟨-, -, -, hfree, hnone⟩ := hopen
      have htick : Quiet s { s'.tick with firstAcquireAvailable := false } :=
        hq.trans (still_tick.toQuiet.congr rfl rfl rfl rfl rfl rfl)
      exact move_proposeGrant htick (Option.isNone_iff_eq_none.1 hnone) (held_of_none hfree) hr
    · exact (hq.trans still_notify.toQuiet).move
  | acquire q =>
    rw [handleInput]
    split
    · split
      · exact (hq.trans (still_tick.trans (still_await rfl rfl)).toQuiet).move
      · exact (hq.trans still_notify.toQuiet).move
    · exact (hq.trans (still_await rfl rfl).toQuiet).move
  | release q =>
    rw [handleInput]
    split
    · split
      · exact (hq.trans (still_await rfl rfl).toQuiet).move
      · exact (hq.trans still_notify.toQuiet).move
    · exact (hq.trans (still_await rfl rfl).toQuiet).move
  | retireIfIdle =>
    rw [handleInput]
    split
    · have hasked : Quiet s { s' with retirementRequested := true } := hq.congr rfl rfl rfl rfl rfl rfl
      exact (hasked.trans still_beginRetirement.toQuiet).move
    · exact hq.move
  | relayOwnerIdle =>
    rw [handleInput]
    split
    · exact (hq.trans still_beginRetirement.toQuiet).move
    · exact hq.move
  | acquireDeadline permitId deadline =>
    rw [handleInput]
    split
    next waiter remaining _ =>
      have hpop : Quiet s { s'.tick with waiters := remaining } :=
        hq.trans (still_tick.toQuiet.congr rfl rfl rfl rfl rfl rfl)
      split
      · exact (hpop.trans still_complete.toQuiet).move
      · exact (hpop.trans quiet_queue).move
    · exact hq.move
  | resumeCall call =>
    rw [handleInput]
    split
    · have hwatch : Quiet s { s'.tick with refs := s'.refs + 1 } :=
        hq.trans (still_tick.toQuiet.congr rfl rfl rfl rfl rfl rfl)
      exact (hwatch.trans (still_await rfl rfl).toQuiet).move
    · exact (hq.trans (still_send rfl).toQuiet).move
  | cancelPrepared originId => exact (hq.trans (still_await rfl rfl).toQuiet).move

theorem renewing_none (h : s.awaiting = none) : s.renewing = none := by
  rw [State.renewing, h]
  rfl

theorem move_drain : Move v e s (drain v s) := by
  rw [LeaseOwner.drain]
  split
  · refine Quiet.move ?_
    exact (Quiet.refl s).congr rfl rfl rfl rfl rfl rfl
  next hawait =>
    have hr : s.renewing = none := renewing_none (by simpa using hawait)
    split
    next hready =>
      simp only [pendingReady, Bool.and_eq_true, decide_eq_true_eq] at hready
      exact move_processNextOperation hr (List.isEmpty_iff.1 hready.1.2) hready.2
    · split
      · exact move_ensureExpiry still_tick.toQuiet hr
      · split
        next hready =>
          simp only [waitersReady, Bool.and_eq_true, decide_eq_true_eq] at hready
          exact (move_processOneWaiter (s := s.tick) hr (Option.isNone_iff_eq_none.1 hready.1.1.1.2)
            (List.isEmpty_iff.1 hready.1.2)).before still_tick
        · have htick : Quiet s s.tick.tick := (still_tick.trans still_tick).toQuiet
          split
          · exact (htick.trans still_scheduleExpiry.toQuiet).move
          · split
            · exact move_handleInput (htick.congr rfl rfl rfl rfl rfl rfl) hr
            · refine Quiet.move ?_
              exact htick.congr rfl rfl rfl rfl rfl rfl

/-! ## answers, resolutions and messages -/

/-- An answer is taken: what was awaited is forgotten. -/
theorem still_answered : Still s { s with awaiting := none } :=
  ⟨⟨⟨⟨le_refl _, fun _ h => h⟩, .inl rfl, rfl⟩, rfl, rfl, rfl⟩, rfl, rfl, rfl⟩

theorem move_unlessDiscarded {p : OriginId} {f : State → State}
    (hf : Move v e s (f { s with awaiting := none })) :
    Move v e s (unlessDiscarded { s with awaiting := none } p f) := by
  unfold unlessDiscarded
  split
  · refine Quiet.move ?_
    exact still_answered.toQuiet.congr rfl rfl rfl rfl rfl rfl
  · exact hf

theorem move_completed {p : OriginId} {renewal : Option ℤ} {request : Ref} {result : Record}
    (hawait : s.awaiting = some ⟨request, .complete p renewal result⟩) :
    Move v e s (notifyPermit (applyCompletion { s with awaiting := none } renewal) p .result) := by
  refine Move.after ?_ still_notify.toQuiet
  unfold applyCompletion
  split
  next lease deadline hheld =>
    have hold : s.renewing = some (p, deadline) := by
      rw [State.renewing, hawait]
      rfl
    refine .renewed p deadline lease ?_ hold rfl hheld rfl rfl rfl
    exact ⟨⟨Nat.le_succ _, fun _ h => h⟩, .inl rfl, rfl⟩
  · exact still_answered.move

theorem move_continueStep {response : Response} {awaited : Awaited} (hawait : s.awaiting = some awaited)
    (h : continueStep v { s with awaiting := none } response awaited.step = some s') : Move v e s s' := by
  obtain ⟨request, step⟩ := awaited
  have hq : Quiet s { s with awaiting := none } := still_answered.toQuiet
  cases step with
  | claimAcquire a =>
    cases h
    refine move_unlessDiscarded ?_
    split
    · exact (move_acquisition (s := { s with awaiting := none }) rfl).before still_answered
    · exact (hq.trans still_notify.toQuiet).move
  | claimRelease d =>
    cases h
    refine move_unlessDiscarded ?_
    split
    · unfold claimedRelease
      split
      · refine Quiet.move ?_
        exact hq.congr rfl rfl rfl rfl rfl rfl
      next hopen =>
        simp only [operationBlocked, Bool.or_eq_true, Bool.not_eq_true', not_or, Bool.not_eq_false] at hopen
        exact move_performRelease hq rfl (List.isEmpty_iff.1 hopen.1.2)
    · exact (hq.trans still_notify.toQuiet).move
  | claimRefuse permitId requestId =>
    cases h
    refine move_unlessDiscarded ?_
    split
    · exact (hq.trans still_complete.toQuiet).move
    · exact (hq.trans still_notify.toQuiet).move
  | complete permitId renewal result =>
    cases h
    refine move_unlessDiscarded ?_
    split
    · exact move_completed hawait
    · split
      · exact (hq.trans still_complete.toQuiet).move
      · exact (hq.trans still_notify.toQuiet).move
  | promoteMutation d taskRef candidate =>
    unfold continueStep at h
    dsimp only at h
    split at h
    · split at h
      · exact move_admitPromoted (hq.toPasses.trans (still_send rfl).toPasses) rfl rfl rfl h
      · cases h
        exact move_dismiss hq.toPasses rfl rfl rfl
    · cases h
      exact move_dismiss hq.toPasses rfl rfl rfl
    · cases h
      exact move_dismiss hq.toPasses rfl rfl rfl
  | prepareResume d =>
    have hqueue : Quiet s (enqueueMutation { s with awaiting := none } d) := hq.congr rfl rfl rfl rfl rfl rfl
    unfold continueStep at h
    dsimp only at h
    split at h
    all_goals cases h
    · exact (hq.trans (still_send rfl).toQuiet).move
    · exact hqueue.move
    · exact hqueue.move
    · exact hqueue.move
    · exact (hq.trans (still_send rfl).toQuiet).move
    · exact (hq.trans (still_send rfl).toQuiet).move
  | promoteResume d candidate =>
    unfold continueStep at h
    dsimp only at h
    split at h
    · exact move_admitPromoted (hq.toPasses.trans (still_send rfl).toPasses) rfl rfl rfl h
    all_goals cases h
    all_goals exact move_dismiss hq.toPasses rfl rfl rfl
  | cancelPrepared =>
    cases h
    exact hq.move
  | prepareRetirement =>
    unfold continueStep at h
    dsimp only at h
    split at h
    all_goals cases h
    · have hsend := hq.trans (still_send (m := .leaseOwnerRetirementIntent s.refs) rfl).toQuiet
      refine Quiet.move ?_
      exact hsend.congr rfl rfl rfl rfl rfl rfl
    · refine Quiet.move ?_
      exact hq.congr rfl rfl rfl rfl rfl rfl
    · exact hq.move

theorem move_resolution {operationRef : Ref} {r : Resolution} :
    Move v (.daemonLeaseResolution operationRef r) s ((applyDaemonResolution v s r).2.send
      (.leaseOwnerResolutionAck operationRef r (applyDaemonResolution v s r).1)) := by
  have hack : ∀ {s' : State} {answer : ResolutionAnswer}, Quiet s s' →
      Move v (.daemonLeaseResolution operationRef r) s (s'.send (.leaseOwnerResolutionAck operationRef r answer)) :=
    fun h => (h.trans (still_send rfl).toQuiet).move
  have hsent : ∀ {s' : State}, Passes s s' → Passes s (s'.send (.leaseOwnerResolutionAck operationRef r .ok)) :=
    fun h => h.trans (still_send rfl).toPasses
  have hstill : Passes s s.scheduleExpiry := still_scheduleExpiry.toPasses
  cases r with
  | grant ref grantedAt =>
    unfold applyDaemonResolution
    dsimp only
    split
    next grantRef a epoch previous ht =>
      split
      next href =>
        cases grantedAt with
        | none =>
          refine .resolve _ operationRef _ (hsent ?_) rfl ht rfl rfl ⟨href, rfl⟩ (List.mem_cons_self ..)
          exact (Passes.refl s).congr rfl rfl rfl
        | some grantedAt =>
          refine .resolve _ operationRef _ (hsent ?_) rfl ht rfl rfl ⟨href, rfl⟩ (List.mem_cons_self ..)
          exact hstill.congr rfl rfl rfl
      · exact hack (Quiet.refl s)
    · exact hack (Quiet.refl s)
  | release ref released =>
    unfold applyDaemonResolution
    dsimp only
    split
    next releaseRef permitId requestId lease ht =>
      split
      next href =>
        cases released with
        | false =>
          refine .resolve _ operationRef _ (hsent ?_) rfl ht rfl rfl ⟨href, rfl⟩ (List.mem_cons_self ..)
          exact (Passes.refl s).congr rfl rfl rfl
        | true =>
          refine .resolve _ operationRef _ (hsent ?_) rfl ht rfl rfl ⟨href, rfl⟩ (List.mem_cons_self ..)
          exact (Passes.refl s).congr rfl rfl rfl
      · exact hack (Quiet.refl s)
    · exact hack (Quiet.refl s)
  | expiry ref =>
    unfold applyDaemonResolution
    dsimp only
    split
    next expiryRef lease ht =>
      split
      next href =>
        refine .resolve _ operationRef _ (hsent ?_) rfl ht rfl rfl ⟨href, rfl⟩ (List.mem_cons_self ..)
        exact (Passes.refl s).congr rfl rfl rfl
      · exact hack (Quiet.refl s)
    · exact hack (Quiet.refl s)
  | discard permitId =>
    unfold applyDaemonResolution
    dsimp only
    split
    · exact hack ((Quiet.refl s).congr rfl rfl rfl rfl rfl rfl)
    · split
      · exact hack ((Quiet.refl s).congr rfl rfl rfl rfl rfl rfl)
      · unfold discardQueued
        split
        · exact hack ((Quiet.refl s).congr rfl rfl rfl rfl rfl rfl)
        · split
          · exact hack (Quiet.refl s)
          · exact hack (Quiet.refl s)

theorem move_acceptInput {input : Input} (hq : Quiet s s') : Move v e s (acceptInput v s' input) := by
  rw [acceptInput]
  split
  next hnone =>
    exact (move_handleInput hq (renewing_none (Option.isNone_iff_eq_none.1 hnone))).after still_drained.toQuiet
  · refine Quiet.move ?_
    exact hq.congr rfl rfl rfl rfl rfl rfl

theorem move_changeMutation {o : OriginId} {m m' : InFlight} (hm : s.inFlight.lookup o = some m)
    (hclaim : m'.claim = m.claim) : Move v e s (changeMutation s o m') := by
  have hsettle : Move v e s (settleMutationIfReady { s with inFlight := s.inFlight.insert o m' } o) :=
    move_settle hm hclaim ((Passes.refl s).congr rfl rfl rfl) rfl rfl rfl
  exact hsettle.after still_drained.toQuiet

theorem move_acceptRequest {request : Request} : Move v e s (acceptRequest v s request) := by
  cases request with
  | activate =>
    unfold acceptRequest
    dsimp only
    split
    · refine Quiet.move ?_
      exact (Quiet.refl s).congr rfl rfl rfl rfl rfl rfl
    · exact (Quiet.refl s).move
  | attachment ackRef opened connection incarnation attachmentId =>
    have hchange : Quiet s { s with
        attachments := changeAttachment s.attachments opened (connection, incarnation, attachmentId) } :=
      (Quiet.refl s).congr rfl rfl rfl rfl rfl rfl
    cases ackRef with
    | none => exact hchange.move
    | some ref => exact (hchange.trans (still_send rfl).toQuiet).move
  | input input =>
    unfold acceptRequest
    dsimp only
    split
    next p _ =>
      have htook : Quiet s { s with log := .took p :: s.log } :=
        ⟨⟨⟨le_refl _, fun _ h => List.mem_cons_of_mem _ h⟩, .inr rfl, promotions_cons rfl rfl⟩, rfl, rfl, rfl⟩
      exact move_acceptInput htook
    · exact move_acceptInput (Quiet.refl s)

theorem move_handle (h : handle v s e = some s') : Move v e s s' := by
  have hstay : Move v e s s := (Quiet.refl s).move
  cases e with
  | mutate call =>
    unfold handle at h
    dsimp only at h
    split at h
    · split at h
      all_goals cases h
      · refine Quiet.move ?_
        exact (Quiet.refl s).congr rfl rfl rfl rfl rfl rfl
      · exact (still_send rfl).toQuiet.move
    · cases h
      exact (still_send rfl).toQuiet.move
  | resume call =>
    unfold handle at h
    dsimp only at h
    split at h
    · split at h
      all_goals cases h
      · exact move_acceptInput (Quiet.refl s)
      · exact (still_send rfl).toQuiet.move
    · cases h
      exact (still_send rfl).toQuiet.move
  | request request =>
    cases h
    exact move_acceptRequest
  | answered request response =>
    unfold handle at h
    dsimp only at h
    split at h
    next awaited hawait =>
      split at h
      · obtain ⟨s₁, hs₁, rfl⟩ := Option.map_eq_some_iff.1 h
        exact (move_continueStep hawait hs₁).after still_drained.toQuiet
      · cases h
        exact hstay
    · cases h
      exact hstay
  | requestUnanswered request =>
    unfold handle at h
    dsimp only at h
    split at h
    all_goals cases h
    · exact (still_send rfl).toQuiet.move
    · exact hstay
  | daemonLeaseResolution operationRef resolution =>
    cases h
    exact move_resolution.after still_drained.toQuiet
  | leaseExpiry token deadline =>
    unfold handle at h
    dsimp only at h
    split at h
    · cases h
      have hcleared : Quiet s { s.tick with expiryToken := none } := still_tick.toQuiet.congr rfl rfl rfl rfl rfl rfl
      refine Quiet.move (Quiet.trans ?_ still_drained.toQuiet)
      split
      · exact hcleared
      · exact hcleared.trans still_scheduleExpiry.toQuiet
    · cases h
      exact hstay
  | relayOwnerIdle =>
    cases h
    exact move_acceptInput (Quiet.refl s)
  | acquireDeadline permitId deadline =>
    cases h
    exact move_acceptInput (Quiet.refl s)
  | leaseMutationClassified taskRef originId disposition =>
    unfold handle at h
    dsimp only at h
    split at h
    next m hm =>
      split at h
      all_goals cases h
      · exact move_changeMutation hm rfl
      · exact hstay
    · cases h
      exact hstay
  | relayLeaseTicketSettled originId =>
    unfold handle at h
    dsimp only at h
    split at h
    next m hm =>
      split at h
      all_goals cases h
      · exact hstay
      · exact move_changeMutation hm rfl
    · cases h
      exact hstay
  | registryResumeSettled originId disposition =>
    unfold handle at h
    dsimp only at h
    split at h
    next m hm =>
      split at h
      all_goals cases h
      · exact move_changeMutation hm rfl
      · exact hstay
    · cases h
      exact hstay
  | workerDown monitor worker =>
    unfold handle at h
    dsimp only at h
    split at h
    next d remaining _ =>
      split at h
      · cases h
        have hlost : Quiet s { s.send (.reply d.caller .ticketUnavailable) with pendingOperations := remaining } :=
          (still_send (m := .reply d.caller .ticketUnavailable) rfl).toQuiet.congr rfl rfl rfl rfl rfl rfl
        refine Move.after ?_ still_drained.toQuiet
        split
        · exact move_acceptInput hlost
        · exact hlost.move
      · cases h
        exact hstay
    · cases h
      exact hstay
  | drain => cases h

/-- **Every step is a move.** -/
theorem move_step (h : step v s e = some s') : Move v e s s' := by
  unfold step at h
  split at h
  · split at h
    · cases h
      exact move_drain
    · cases h
  · exact move_handle h

end

/-! ## exclusion -/

/-- An instant that every later reading of the clock has reached. -/
def Passed (v : Setting) (s : State) (instant : ℤ) : Prop := ∀ n, s.readings ≤ n → instant ≤ v.monotonicMs n

/-- What is so while a transition is outstanding. -/
def Standing (v : Setting) (s : State) : Transition → Prop
  | .grant _ _ _ previous => s.held = none ∧ s.lease = previous
  | .release _ _ _ lease => s.held = some lease ∧ s.inFlight.keys = []
  | .expiry _ lease => s.held = some lease ∧ Passed v s lease.deadline

/-- One mutation is in flight at most; while one that passed its gate is, or a renewal is awaited, the lease is held
and no transition is outstanding. -/
structure Exclusive (v : Setting) (s : State) : Prop where
  few : s.inFlight.keys.length ≤ 1
  gated : ∀ o m candidate, s.inFlight.lookup o = some m → m.candidateDeadline = some candidate →
    s.transition = none ∧ ∃ lease, s.held = some lease ∧ lease.Of m
  renewing : ∀ renewal, s.renewing = some renewal →
    s.inFlight.keys = [] ∧ s.transition = none ∧ ∃ lease, s.held = some lease
  standing : ∀ t, s.transition = some t → Standing v s t

section

variable {v : Setting} {e : Event} {s s' t : State}

theorem Passed.later {instant : ℤ} (h : Passed v s instant) (hle : s.readings ≤ s'.readings) : Passed v s' instant :=
  fun n hn => h n (le_trans hle hn)

/-- What a reading of the step has reached is passed after it. -/
theorem passed_of_read {instant : ℤ} {n : ℕ} (hn : n < s'.readings) (h : instant ≤ v.monotonicMs n) :
    Passed v s' instant :=
  fun k hk => le_trans h (v.monotone n k (le_trans hn.le hk))

theorem held_eq_some {lease : Tenure} : s.held = some lease ↔ s.lease = some lease ∧ lease.status = .held := by
  rw [State.held, Option.filter_eq_some_iff, decide_eq_true_eq]

theorem held_of_lease {lease : Tenure} (hl : s'.lease = some lease) (h : lease.status = .held) : s'.held = some lease :=
  held_eq_some.2 ⟨hl, h⟩

theorem held_congr (h : s'.lease = s.lease) : s'.held = s.held := by rw [State.held, h, State.held]

theorem lookup_of_keys_nil {o : OriginId} (h : s.inFlight.keys = []) : s.inFlight.lookup o = none := by
  refine AList.lookup_eq_none.2 fun hmem => ?_
  have hkey := AList.mem_keys.1 hmem
  rw [h] at hkey
  cases hkey

theorem Narrow.keys_nil (h : Narrow s s') (hempty : s.inFlight.keys = []) : s'.inFlight.keys = [] := by
  refine List.length_eq_zero_iff.1 (Nat.le_zero.1 ?_)
  have hfew := h.few
  rwa [hempty] at hfew

/-- A transition stays as it is while the lease does. -/
theorem Standing.congr {u : Transition} (h : Standing v s u) (hl : s'.lease = s.lease)
    (hle : s.readings ≤ s'.readings) (hempty : s.inFlight.keys = [] → s'.inFlight.keys = []) : Standing v s' u := by
  cases u with
  | grant ref a epoch previous => exact ⟨(held_congr hl).trans h.1, hl.trans h.2⟩
  | release ref permitId requestId lease => exact ⟨(held_congr hl).trans h.1, hempty h.2⟩
  | expiry ref lease => exact ⟨(held_congr hl).trans h.1, h.2.later hle⟩

theorem InFlight.claim_eq {m m' : InFlight} (h : m'.claim = m.claim) : m'.holderPid = m.holderPid ∧
    m'.holderIncarnation = m.holderIncarnation ∧ m'.writerEpoch = m.writerEpoch ∧
    m'.candidateDeadline = m.candidateDeadline := by
  simpa only [InFlight.claim, Prod.mk.injEq] using h

theorem Tenure.Of.congr {lease : Tenure} {m m' : InFlight} (h : lease.Of m) (hclaim : m'.claim = m.claim) :
    lease.Of m' := by
  obtain ⟨h1, h2, h3, -⟩ := InFlight.claim_eq hclaim
  exact ⟨h.1.trans h1.symm, h.2.1.trans h2.symm, h.2.2.trans h3.symm⟩

theorem Exclusive.move (h : Exclusive v s) (m : Move v e s s') : Exclusive v s' := by
  cases m with
  | flight hp hl ht hn =>
    refine ⟨le_trans hn.few h.few, ?_, ?_, ?_⟩
    · intro o m' candidate hm' hc
      obtain ⟨m, hm, hclaim⟩ := hn.claim o m' hm'
      obtain ⟨hnone, lease, hheld, hof⟩ := h.gated o m candidate hm ((InFlight.claim_eq hclaim).2.2.2 ▸ hc)
      exact ⟨ht.trans hnone, lease, (held_congr hl).trans hheld, hof.congr hclaim⟩
    · intro renewal hr
      have hsame : s.renewing = some renewal := by
        rcases hp.renewing with hnone | hsame
        · rw [hnone] at hr
          cases hr
        · rwa [← hsame]
      obtain ⟨hempty, hnone, lease, hheld⟩ := h.renewing renewal hsame
      exact ⟨hn.keys_nil hempty, ht.trans hnone, lease, (held_congr hl).trans hheld⟩
    · intro u hu
      exact (h.standing u (ht ▸ hu)).congr hl hp.readings hn.keys_nil
  | commit o m candidate lease hp hm hc hh hof hl ht hn hgone =>
    obtain ⟨hnone, -⟩ := h.gated o m candidate hm hc
    have hheld : s'.held = some { lease with deadline := candidate } := held_of_lease hl (held_eq_some.1 hh).2
    refine ⟨le_trans hn.few h.few, ?_, ?_, ?_⟩
    · intro o' m' candidate' hm' hc'
      obtain ⟨m₁, hm₁, hclaim⟩ := hn.claim o' m' hm'
      obtain ⟨-, lease₁, hheld₁, hof₁⟩ := h.gated o' m₁ candidate' hm₁ ((InFlight.claim_eq hclaim).2.2.2 ▸ hc')
      rw [hh] at hheld₁
      cases hheld₁
      exact ⟨ht.trans hnone, _, hheld, hof₁.congr hclaim⟩
    · intro renewal hr
      rcases hp.renewing with hnone' | hsame
      · rw [hnone'] at hr
        cases hr
      · rw [hsame] at hr
        have hlookup := lookup_of_keys_nil (o := o) (h.renewing renewal hr).1
        rw [hm] at hlookup
        cases hlookup
    · intro u hu
      rw [ht, hnone] at hu
      cases hu
  | enter d m gate n hlater hr hread hl ht hexp hempty hin hclaim hgate hsent =>
    refine ⟨?_, ?_, ?_, ?_⟩
    · rw [hin, AList.keys_insert, hempty]
      exact le_refl 1
    · intro o m' candidate hm' hc
      have hm : m' = m := by
        rw [hin] at hm'
        by_cases heq : o = d.originId
        · subst heq
          rw [AList.lookup_insert] at hm'
          exact (Option.some.inj hm').symm
        · rw [AList.lookup_insert_ne heq, lookup_of_keys_nil hempty] at hm'
          cases hm'
      subst hm
      simp only [InFlight.claim, Prod.mk.injEq] at hclaim
      obtain ⟨h1, h2, h3, h4⟩ := hclaim
      have hopen : gate = true := by
        by_contra hclosed
        rw [if_neg hclosed, hc] at h4
        cases h4
      obtain ⟨lease, hheld, hby⟩ := (Option.any_eq_true _ _).1 (hgate hopen)
      simp only [Tenure.heldBy, Bool.and_eq_true, decide_eq_true_eq] at hby
      refine ⟨?_, lease, (held_congr hl).trans hheld, hby.1.1.1.trans h1.symm, hby.1.1.2.trans h2.symm,
        hby.1.2.trans h3.symm⟩
      -- an expiry is outstanding only once the deadline has passed
      rcases htr : s.transition with _ | u
      · exact ht.trans htr
      · rw [htr] at hexp
        have hstanding := h.standing u htr
        cases u with
        | grant ref a epoch previous => cases hexp
        | release ref permitId requestId lease => cases hexp
        | expiry ref lease' =>
          obtain ⟨hheld', hpassed⟩ := hstanding
          rw [hheld] at hheld'
          cases hheld'
          exact absurd hby.2 (not_lt.2 (hpassed n hread.1))
    · intro renewal hr'
      rw [hr] at hr'
      cases hr'
    · intro u hu
      rw [ht] at hu
      have hstanding := h.standing u hu
      rw [hu] at hexp
      cases u with
      | grant ref a epoch previous => cases hexp
      | release ref permitId requestId lease => cases hexp
      | expiry ref lease => exact ⟨(held_congr hl).trans hstanding.1, hstanding.2.later hlater.readings⟩
  | renew a deadline lease hlater hr hsent hl ht hnone hin hempty hh hd =>
    refine ⟨by rw [hin]; exact h.few, ?_, ?_, ?_⟩
    · intro o m candidate hm
      rw [hin, lookup_of_keys_nil hempty] at hm
      cases hm
    · intro renewal _
      exact ⟨hin ▸ hempty, ht.trans hnone, lease, (held_congr hl).trans hh⟩
    · intro u hu
      rw [ht, hnone] at hu
      cases hu
  | renewed permitId deadline lease hp hold hr hh hl ht hin =>
    obtain ⟨hempty, hnone, -⟩ := h.renewing _ hold
    refine ⟨by rw [hin]; exact h.few, ?_, ?_, ?_⟩
    · intro o m candidate hm
      rw [hin, lookup_of_keys_nil hempty] at hm
      cases hm
    · intro renewal hr'
      rw [hr] at hr'
      cases hr'
    · intro u hu
      rw [ht, hnone] at hu
      cases hu
  | propose u hp hr hl hnone ht hin hof =>
    refine ⟨by rw [hin]; exact h.few, ?_, ?_, ?_⟩
    · intro o m candidate hm hc
      rw [hin] at hm
      obtain ⟨-, lease, hheld, -⟩ := h.gated o m candidate hm hc
      cases u with
      | grant ref a epoch previous =>
        rw [hof.1] at hheld
        cases hheld
      | release ref permitId requestId lease' =>
        rw [lookup_of_keys_nil hof.2] at hm
        cases hm
      | expiry ref lease' =>
        rw [lookup_of_keys_nil hof.2.1] at hm
        cases hm
    · intro renewal hr'
      rw [hr] at hr'
      cases hr'
    · intro u' hu'
      rw [ht] at hu'
      cases hu'
      cases u with
      | grant ref a epoch previous => exact ⟨(held_congr hl).trans hof.1, hl.trans hof.2.symm⟩
      | release ref permitId requestId lease => exact ⟨(held_congr hl).trans hof.1, hin ▸ hof.2⟩
      | expiry ref lease =>
        obtain ⟨hheld, -, n, -, hn, hle⟩ := hof
        exact ⟨(held_congr hl).trans hheld, passed_of_read hn hle⟩
  | resolve u operationRef r hp he hold ht hin hl hack =>
    refine ⟨by rw [hin]; exact h.few, ?_, ?_, ?_⟩
    · intro o m candidate hm hc
      rw [hin] at hm
      have hnone := (h.gated o m candidate hm hc).1
      rw [hold] at hnone
      cases hnone
    · intro renewal hr
      rcases hp.renewing with hnone | hsame
      · rw [hnone] at hr
        cases hr
      · rw [hsame] at hr
        have hnone := (h.renewing renewal hr).2.1
        rw [hold] at hnone
        cases hnone
    · intro u' hu'
      rw [ht] at hu'
      cases hu'

theorem Exclusive.init {attachments : List (Pid × Bytes × Bytes)} : Exclusive v (init attachments) where
  few := Nat.zero_le 1
  gated := fun o m candidate h => by
    have hnone : (LeaseOwner.init attachments).inFlight.lookup o = none := lookup_of_keys_nil rfl
    rw [hnone] at h
    cases h
  renewing := nofun
  standing := nofun

theorem Exclusive.step (h : Exclusive v s) (hs : step v s e = some s') : Exclusive v s' := h.move (move_step hs)

theorem exclusive_run {attachments : List (Pid × Bytes × Bytes)} {events : List Event}
    (h : Run (fun s e s' => LeaseOwner.step v s e = some s') (LeaseOwner.init attachments) events s) : Exclusive v s :=
  h.invariant Exclusive.init fun _ _ _ => Exclusive.step

/-! ## control -/

/-- A connection has the control of the session at an instant: the lease is held, by this connection and incarnation
under this epoch, its deadline has not passed, and the connection is attached. -/
def Controls (s : State) (d : MutationCall) (now : ℤ) : Prop :=
  ∃ lease, s.held = some lease ∧ lease.holderPid = d.connection ∧ lease.holderIncarnation = d.connectionIncarnation ∧
    lease.writerEpoch = d.writerEpoch ∧ now < lease.deadline ∧ s.attached d.connection d.connectionIncarnation = true

/-- The lease stays with the holder of a mutation, and no transition is outstanding. -/
def Keeps (d : MutationCall) (s : State) : Prop :=
  s.transition = none ∧ ∃ lease, s.held = some lease ∧ lease.holderPid = d.connection ∧
    lease.holderIncarnation = d.connectionIncarnation ∧ lease.writerEpoch = d.writerEpoch

/-- A mutation is in flight. -/
def Flies (originId : OriginId) (s : State) : Prop := (s.inFlight.lookup originId).isSome = true

/-- Whose lease is held, and under which epoch. -/
def State.holder (s : State) : Option (Pid × Bytes × Bytes) :=
  s.held.map fun lease => (lease.holderPid, lease.holderIncarnation, lease.writerEpoch)

theorem mutationGate_eq_true {d : MutationCall} {now : ℤ} : mutationGate s d now = true ↔ Controls s d now := by
  simp only [mutationGate, Option.any_eq_true, Tenure.heldBy, Bool.and_eq_true, decide_eq_true_eq, Controls, and_assoc]

/-- A mutation that stays in flight keeps what it claimed. -/
theorem Move.claim {o : OriginId} {m m' : InFlight} (h : Move v e s s') (hm : s.inFlight.lookup o = some m)
    (hm' : s'.inFlight.lookup o = some m') : m'.claim = m.claim := by
  have hsame : ∀ {t : State}, t.inFlight = s.inFlight → t.inFlight.lookup o = some m' → m'.claim = m.claim := by
    intro t hin ht
    rw [hin, hm] at ht
    rw [Option.some.inj ht]
  have hnarrow : Narrow s s' → m'.claim = m.claim := by
    intro hn
    obtain ⟨m₁, hm₁, hclaim⟩ := hn.claim o m' hm'
    rw [hm] at hm₁
    rw [hclaim, Option.some.inj hm₁]
  cases h with
  | flight _ _ _ hn => exact hnarrow hn
  | commit _ _ _ _ _ _ _ _ _ _ _ hn _ => exact hnarrow hn
  | enter _ _ _ _ _ _ _ _ _ _ hempty _ _ _ _ =>
    rw [lookup_of_keys_nil hempty] at hm
    cases hm
  | renew _ _ _ _ _ _ _ _ _ hin _ _ _ => exact hsame hin hm'
  | renewed _ _ _ _ _ _ _ _ _ hin => exact hsame hin hm'
  | propose _ _ _ _ _ _ hin _ => exact hsame hin hm'
  | resolve _ _ _ _ _ _ _ hin _ _ => exact hsame hin hm'

/-- While a mutation that passed its gate stays in flight, the lease stays with its holder. -/
theorem keeps_of_flies {d : MutationCall} {m : InFlight} {candidate : ℤ} {events : List Event} (h : Exclusive v s)
    (hm : s.inFlight.lookup d.originId = some m)
    (hclaim : m.claim = (d.connection, d.connectionIncarnation, d.writerEpoch, some candidate))
    (hrun : Run (Guarded (fun s e s' => LeaseOwner.step v s e = some s') fun s _ => Flies d.originId s) s events t)
    (hflies : Flies d.originId t) : Keeps d t := by
  have hkept : Exclusive v t ∧ ∀ m', t.inFlight.lookup d.originId = some m' → m'.claim = m.claim := by
    refine hrun.invariant (I := fun t => Exclusive v t ∧ ∀ m', t.inFlight.lookup d.originId = some m' →
      m'.claim = m.claim) ⟨h, fun m' hm' => ?_⟩ ?_
    · rw [hm] at hm'
      rw [Option.some.inj hm']
    · rintro u e u' ⟨hu, hsame⟩ ⟨hs, hin⟩
      obtain ⟨m₁, hm₁⟩ := Option.isSome_iff_exists.1 hin
      refine ⟨hu.step hs, fun m' hm' => ?_⟩
      rw [(move_step hs).claim hm₁ hm', hsame m₁ hm₁]
  obtain ⟨hexcl, hsame⟩ := hkept
  obtain ⟨m', hm'⟩ := Option.isSome_iff_exists.1 hflies
  have heq := (hsame m' hm').trans hclaim
  simp only [InFlight.claim, Prod.mk.injEq] at heq
  obtain ⟨h1, h2, h3, h4⟩ := heq
  obtain ⟨hnone, lease, hheld, hp, hi, hw⟩ := hexcl.gated d.originId m' candidate hm' h4
  exact ⟨hnone, lease, hheld, hp.trans h1, hi.trans h2, hw.trans h3⟩

/-- What a step hands to the relay, at one of its readings of the clock. -/
theorem promotions_step (h : Exclusive v s) (hs : LeaseOwner.step v s e = some s') :
    s'.promotions = s.promotions ∨ ∃ d rest n, s.pendingOperations = .mutation d :: rest ∧ s.readings ≤ n ∧
      n < s'.readings ∧ Flies d.originId s' ∧
      ((Controls s d.toMutationCall (v.monotonicMs n) ∧
          s'.promotions = (d.originId, .own d.taskFun) :: s.promotions ∧
          ∀ events t, Run (Guarded (fun s e s' => LeaseOwner.step v s e = some s') fun s _ => Flies d.originId s) s'
            events t → Flies d.originId t → Keeps d.toMutationCall t) ∨
        (¬ Controls s d.toMutationCall (v.monotonicMs n) ∧
          s'.promotions =
            (d.originId, .refusal (.requestError d.requestId .controlNotHeld)) :: s.promotions)) := by
  cases move_step hs with
  | flight hp _ _ _ => exact .inl hp.promotions
  | commit _ _ _ _ hp _ _ _ _ _ _ _ _ => exact .inl hp.promotions
  | renew _ _ _ _ _ hsent _ _ _ _ _ _ _ => exact .inl hsent
  | renewed _ _ _ hp _ _ _ _ _ _ => exact .inl hp.promotions
  | propose _ hp _ _ _ _ _ _ => exact .inl hp.promotions
  | resolve _ _ _ hp _ _ _ _ _ _ => exact .inl hp.promotions
  | enter d m gate n _ _ hread _ _ _ _ hin hclaim _ hsent =>
    rcases hsent with hsame | ⟨⟨rest, hops⟩, rfl, hsent⟩
    · exact .inl hsame
    have hlookup : s'.inFlight.lookup d.originId = some m := by rw [hin, AList.lookup_insert]
    have hflies : Flies d.originId s' := by rw [Flies, hlookup, Option.isSome_some]
    refine .inr ⟨d, rest, n, hops, hread.1, hread.2, hflies, ?_⟩
    by_cases hgate : mutationGate s d.toMutationCall (v.monotonicMs n) = true
    · rw [if_pos hgate] at hclaim hsent
      exact .inl ⟨mutationGate_eq_true.1 hgate, hsent, fun events t hrun hin =>
        keeps_of_flies (h.step hs) hlookup hclaim hrun hin⟩
    · rw [if_neg hgate] at hsent
      exact .inr ⟨fun hcontrols => hgate (mutationGate_eq_true.2 hcontrols), hsent⟩

theorem holder_of_lease {lease : Tenure} {deadline : ℤ} (hh : s.held = some lease)
    (hl : s'.lease = some { lease with deadline := deadline }) : s'.holder = s.holder := by
  have hheld : s'.held = some { lease with deadline := deadline } := held_of_lease hl (held_eq_some.1 hh).2
  rw [State.holder, State.holder, hheld, hh]
  rfl

theorem holder_congr (h : s'.lease = s.lease) : s'.holder = s.holder := by rw [State.holder, held_congr h, State.holder]

/-- The holder changes with a resolution that the owner acknowledges. -/
theorem Move.holder (h : Move v e s s') : s'.holder = s.holder ∨ ∃ operationRef r,
    e = .daemonLeaseResolution operationRef r ∧ s.transition.isSome = true ∧ s'.transition = none ∧
      .sent (.leaseOwnerResolutionAck operationRef r .ok) ∈ s'.log := by
  cases h with
  | flight _ hl _ _ => exact .inl (holder_congr hl)
  | commit _ _ _ _ _ _ _ hh _ hl _ _ _ => exact .inl (holder_of_lease hh hl)
  | enter _ _ _ _ _ _ _ hl _ _ _ _ _ _ _ => exact .inl (holder_congr hl)
  | renew _ _ _ _ _ _ hl _ _ _ _ _ _ => exact .inl (holder_congr hl)
  | renewed _ _ _ _ _ _ hh hl _ _ => exact .inl (holder_of_lease hh hl)
  | propose _ _ _ hl _ _ _ _ => exact .inl (holder_congr hl)
  | resolve _ operationRef r _ he hold ht _ _ hack =>
    exact .inr ⟨operationRef, r, he, by rw [hold, Option.isSome_some], ht, hack⟩

/-- One transition is outstanding at most: one is proposed where none is. -/
theorem Move.transition (h : Move v e s s') :
    s'.transition = s.transition ∨ s.transition = none ∨ s'.transition = none := by
  cases h with
  | flight _ _ ht _ => exact .inl ht
  | commit _ _ _ _ _ _ _ _ _ _ ht _ _ => exact .inl ht
  | enter _ _ _ _ _ _ _ _ ht _ _ _ _ _ _ => exact .inl ht
  | renew _ _ _ _ _ _ _ ht _ _ _ _ _ => exact .inl ht
  | renewed _ _ _ _ _ _ _ _ ht _ => exact .inl ht
  | propose _ _ _ _ hnone _ _ _ => exact .inr (.inl hnone)
  | resolve _ _ _ _ _ _ ht _ _ _ => exact .inr (.inr ht)

/-- **One controller at a time.**  In every state that a run reaches one mutation is in flight at most, and a step
from it: hands a direct mutation its own task just when the holder controls the session at that instant, and the
refusal otherwise; from then on the lease stays with that holder, with no transition, while the mutation is in
flight; a transition is proposed only where none is outstanding; and the holder changes only with a resolution that
is acknowledged. -/
theorem controller_exclusive {attachments : List (Pid × Bytes × Bytes)} {events : List Event}
    (h : Run (fun s e s' => LeaseOwner.step v s e = some s') (LeaseOwner.init attachments) events s) :
    s.inFlight.keys.length ≤ 1 ∧ ∀ e s', LeaseOwner.step v s e = some s' →
      (s'.promotions = s.promotions ∨ ∃ d rest n, s.pendingOperations = .mutation d :: rest ∧ s.readings ≤ n ∧
        n < s'.readings ∧ Flies d.originId s' ∧
        ((Controls s d.toMutationCall (v.monotonicMs n) ∧
            s'.promotions = (d.originId, .own d.taskFun) :: s.promotions ∧
            ∀ events t, Run (Guarded (fun s e s' => LeaseOwner.step v s e = some s') fun s _ => Flies d.originId s) s'
              events t → Flies d.originId t → Keeps d.toMutationCall t) ∨
          (¬ Controls s d.toMutationCall (v.monotonicMs n) ∧
            s'.promotions =
              (d.originId, .refusal (.requestError d.requestId .controlNotHeld)) :: s.promotions))) ∧
      (s'.transition = s.transition ∨ s.transition = none ∨ s'.transition = none) ∧
      (s'.holder = s.holder ∨ ∃ operationRef r, e = .daemonLeaseResolution operationRef r ∧
        s.transition.isSome = true ∧ s'.transition = none ∧
        .sent (.leaseOwnerResolutionAck operationRef r .ok) ∈ s'.log) := by
  have hexcl := exclusive_run h
  exact ⟨hexcl.few, fun e s' hs =>
    ⟨promotions_step hexcl hs, (move_step hs).transition, (move_step hs).holder⟩⟩

end

/-! ## a prompt of the controller -/

def promptTicket : OriginId := ⟨incarnationOf 1, 2, 3⟩

/-- A connection acquires and attaches, and prompts. -/
def prompted : List Event :=
  [.request .activate, .drain, .request (.input (.firstAcquire ⟨firstPermit, [1], 5, incarnationOf 1, 60000⟩)), .drain,
    .daemonLeaseResolution 0 (.grant 0 (some 8)), .drain, .request (.attachment none true 5 (incarnationOf 1) [9]),
    .mutate ⟨promptTicket, .sessionPrompt, [2], none, incarnationOf 1, incarnationOf 7, 6, 40, ⟨5, 1⟩⟩]

theorem promotions_prompted : (prompted.foldlM (step steady) (init [])).bind (fun s => (step steady s .drain).map
    State.promotions) = some [(promptTicket, .own 40)] := rfl

theorem controller_exclusive_prompted : ∃ s s', prompted.foldlM (step steady) (init []) = some s ∧
    step steady s .drain = some s' ∧ s'.promotions = [(promptTicket, .own 40)] ∧ s.inFlight.keys.length ≤ 1 ∧
    (s'.transition = s.transition ∨ s.transition = none ∨ s'.transition = none) := by
  obtain ⟨s, hs, hmap⟩ := Option.bind_eq_some_iff.1 promotions_prompted
  obtain ⟨s', hs', hsent⟩ := Option.map_eq_some_iff.1 hmap
  obtain ⟨hfew, hsteps⟩ := controller_exclusive (Run.of_foldlM hs)
  exact ⟨s, s', hs, hs', hsent, hfew, (hsteps .drain s' hs').2.1⟩

end Loopex.Daemon.LeaseOwner
