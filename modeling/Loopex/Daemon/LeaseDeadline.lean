import Loopex.Daemon.LeaseExclusion

/-!
# The deadline of the lease

What a renewal does to the deadline of a lease that stays held.

* `Admitted` — an acquisition that is claimed or waits was admitted at an instant that has passed
* `Stamped` — the deadline of the lease, of a mutation in flight and of an awaited renewal is a term past such an
  instant, and the last two are no earlier than the first, unless the renewal was queued
* `deadline_advances` — a new deadline is no earlier, unless it is that of an acquisition that was queued
-/

namespace Loopex.Daemon.LeaseOwner

open Loopex.Erlang Loopex.System

/-! ## what is admitted -/

/-- The acquisition whose claim is awaited. -/
def State.claimed (s : State) : Option Acquisition :=
  match s.awaiting.map Awaited.step with
  | some (.claimAcquire a) => some a
  | _ => none

/-- No acquisition is claimed, and none starts to wait. -/
structure Retains (s s' : State) : Prop extends Later s s' where
  waiters : ∀ a ∈ s'.waiters, a ∈ s.waiters
  claimed : s'.claimed = none ∨ s'.claimed = s.claimed

/-- What waits was queued, and it and what is claimed were admitted at an instant that has passed. -/
structure Admitted (v : Setting) (s : State) : Prop where
  waits : ∀ a ∈ s.waiters, .queued a ∈ s.log ∧ Passed v s a.admittedAt
  claims : ∀ a, s.claimed = some a → Passed v s a.admittedAt

section

variable {v : Setting} {s s' t : State}

namespace Retains

theorem refl (s : State) : Retains s s := ⟨⟨le_refl _, fun _ h => h⟩, fun _ h => h, .inr rfl⟩

theorem trans (h : Retains s s') (h' : Retains s' t) : Retains s t where
  toLater := h.toLater.trans h'.toLater
  waiters := fun a ha => h.waiters a (h'.waiters a ha)
  claimed := by
    rcases h'.claimed with hc | hc
    · exact .inl hc
    · rw [hc]
      exact h.claimed

/-- The fields that are not followed may differ. -/
theorem congr (h : Retains s s') (ha : t.awaiting = s'.awaiting) (hw : t.waiters = s'.waiters)
    (hr : t.readings = s'.readings) (hlog : t.log = s'.log) : Retains s t := by
  refine h.trans ⟨⟨hr.ge, fun m hm => by rwa [hlog]⟩, fun a hmem => by rwa [← hw], .inr ?_⟩
  rw [State.claimed, ha, State.claimed]

theorem send {m : Message} : Retains s (s.send m) :=
  ⟨⟨le_refl _, fun _ h => List.mem_cons_of_mem _ h⟩, fun _ h => h, .inr rfl⟩

theorem await {request : Message} {step : Step} (hc : (s.await request step).claimed = none) :
    Retains s (s.await request step) :=
  ⟨⟨le_refl _, fun _ h => List.mem_cons_of_mem _ h⟩, fun _ h => h, .inl hc⟩

theorem tick : Retains s s.tick := ⟨⟨Nat.le_succ _, fun _ h => h⟩, fun _ h => h, .inr rfl⟩

theorem scheduleExpiry : Retains s s.scheduleExpiry := ⟨⟨Nat.le_succ _, fun _ h => h⟩, fun _ h => h, .inr rfl⟩

theorem drained : Retains s s.drained := ⟨⟨le_refl _, fun _ h => h⟩, fun _ h => h, .inr rfl⟩

theorem answered : Retains s { s with awaiting := none } := ⟨⟨le_refl _, fun _ h => h⟩, fun _ h => h, .inl rfl⟩

theorem notify {p : OriginId} {kind : PermitKind} : Retains s (notifyPermit s p kind) := by
  rw [notifyPermit]
  split
  · exact (Retains.refl s).congr rfl rfl rfl rfl
  · exact Retains.send

theorem complete {p : OriginId} {result : Record} {renewal : Option ℤ} :
    Retains s (completePermit s p result renewal) := Retains.await rfl

theorem proposeGrant {a : Acquisition} : Retains s (proposeGrant v s a) := send.congr rfl rfl rfl rfl

theorem ensureExpiry : Retains s (ensureExpiryTransition v s) := by
  unfold ensureExpiryTransition
  split
  · exact refl s
  · split
    · exact refl s
    next lease _ =>
      split
      · exact (tick.trans (send (m := .leaseExpiryProposed s.refs lease.holderPid lease.holderIncarnation
          lease.writerEpoch))).congr rfl rfl rfl rfl
      · exact tick

theorem renew {a : Acquisition} {lease : Tenure} {admittedAt : ℤ} : Retains s (renew v s a lease admittedAt) :=
  tick.trans complete

theorem performRelease {d : ReleaseRequest} : Retains s (performRelease v s d) := by
  unfold LeaseOwner.performRelease
  split
  · exact (tick.trans send).congr rfl rfl rfl rfl
  · exact tick.trans complete

/-- A waiter leaves. -/
theorem popped {remaining : List Acquisition} (h : ∀ a ∈ remaining, a ∈ s.waiters) :
    Retains s { s.tick with waiters := remaining } :=
  ⟨⟨Nat.le_succ _, fun _ h => h⟩, h, .inr rfl⟩

theorem processOneWaiter : Retains s (processOneWaiter v s) := by
  unfold LeaseOwner.processOneWaiter
  split
  · exact refl s
  next a remaining hw =>
    have hpop : Retains s { s.tick with waiters := remaining } := by
      refine popped fun b hb => ?_
      rw [hw]
      exact List.mem_cons_of_mem _ hb
    dsimp only
    split
    · exact hpop.trans complete
    · split
      · exact (hpop.trans (proposeGrant (v := v) (a := a))).congr rfl rfl rfl rfl
      · split
        · exact tick.trans ensureExpiry
        · split
          · exact hpop.trans renew
          · exact hpop.trans complete

theorem processNextOperation : Retains s (processNextOperation v s) := by
  unfold LeaseOwner.processNextOperation
  split
  · exact refl s
  next d remaining _ =>
    split
    · exact ⟨⟨Nat.le_succ _, fun _ h => List.mem_cons_of_mem _ h⟩, fun _ h => h, .inl rfl⟩
    · exact ⟨⟨Nat.le_succ _, fun _ h => List.mem_cons_of_mem _ h⟩, fun _ h => h, .inl rfl⟩
  next d remaining _ =>
    have hpop : Retains s { s with pendingOperations := remaining } := (refl s).congr rfl rfl rfl rfl
    exact hpop.trans performRelease

theorem commitCandidate {m : InFlight} : Retains s (commitCandidateDeadline s m) := by
  unfold commitCandidateDeadline
  split
  · split
    · exact scheduleExpiry.congr rfl rfl rfl rfl
    · exact refl s
  · exact refl s

theorem settle {o : OriginId} : Retains s (settleMutationIfReady s o) := by
  unfold settleMutationIfReady
  split
  · exact refl s
  next m _ =>
    split
    · exact refl s
    next disposition _ =>
      split
      · have hcommit : Retains s (if disposition = .refused then s else commitCandidateDeadline s m) := by
          split
          · exact refl s
          · exact commitCandidate
        exact hcommit.congr rfl rfl rfl rfl
      · exact refl s

theorem admitPromoted {o : OriginId} (h : admitPromoted s o = some s') : Retains s s' := by
  obtain ⟨m, -, rfl⟩ := Option.map_eq_some_iff.1 h
  have hpromoted : Retains s { s with inFlight := s.inFlight.insert o { m with promoted := true } } :=
    (refl s).congr rfl rfl rfl rfl
  exact hpromoted.trans settle

theorem dismiss {d : Mutation} {answer : CallAnswer} : Retains s (dismiss s d answer) := send.congr rfl rfl rfl rfl

theorem beginRetirement : Retains s (beginRetirement s) := by
  rw [LeaseOwner.beginRetirement]
  split
  · exact await rfl
  · exact refl s

theorem applyCompletion {renewal : Option ℤ} : Retains s (applyCompletion s renewal) := by
  unfold LeaseOwner.applyCompletion
  split
  · exact scheduleExpiry.congr rfl rfl rfl rfl
  · exact refl s

theorem resolution {r : Resolution} : Retains s (applyDaemonResolution v s r).2 := by
  cases r with
  | grant ref grantedAt =>
    unfold applyDaemonResolution
    dsimp only
    split
    · split
      · cases grantedAt with
        | none => exact (refl s).congr rfl rfl rfl rfl
        | some grantedAt => exact scheduleExpiry.congr rfl rfl rfl rfl
      · exact refl s
    · exact refl s
  | release ref released =>
    unfold applyDaemonResolution
    dsimp only
    split
    · split
      · cases released with
        | false => exact (refl s).congr rfl rfl rfl rfl
        | true => exact (refl s).congr rfl rfl rfl rfl
      · exact refl s
    · exact refl s
  | expiry ref =>
    unfold applyDaemonResolution
    dsimp only
    split
    · split
      · exact (refl s).congr rfl rfl rfl rfl
      · exact refl s
    · exact refl s
  | discard permitId =>
    unfold applyDaemonResolution
    dsimp only
    split
    · exact (refl s).congr rfl rfl rfl rfl
    · split
      · exact (refl s).congr rfl rfl rfl rfl
      · unfold discardQueued
        split
        · exact ⟨⟨le_refl _, fun _ h => h⟩, fun _ h => List.mem_of_mem_filter h, .inr rfl⟩
        · split
          · exact refl s
          · exact refl s

theorem changeMutation {o : OriginId} {m : InFlight} : Retains s (changeMutation s o m) := by
  have hchanged : Retains s { s with inFlight := s.inFlight.insert o m } := (refl s).congr rfl rfl rfl rfl
  exact (hchanged.trans settle).trans drained

end Retains

namespace Admitted

theorem retains (h : Admitted v s) (hr : Retains s s') : Admitted v s' where
  waits := fun a ha =>
    have hwait := h.waits a (hr.waiters a ha)
    ⟨hr.log _ hwait.1, hwait.2.later hr.readings⟩
  claims := by
    intro a ha
    rcases hr.claimed with hnone | hsame
    · rw [hnone] at ha
      cases ha
    · exact (h.claims a (hsame ▸ ha)).later hr.readings

theorem queue {a : Acquisition} (h : Admitted v s) (ha : Passed v s a.admittedAt) :
    Admitted v (queueAcquisition s a) where
  waits := by
    intro b hb
    rcases List.mem_append.1 hb with hold | hnew
    · have hwait := h.waits b hold
      exact ⟨List.mem_cons_of_mem _ hwait.1, hwait.2.later (Nat.le_succ _)⟩
    · rw [List.mem_singleton.1 hnew]
      exact ⟨List.mem_cons_self .., ha.later (Nat.le_succ _)⟩
  claims := fun b hb => (h.claims b hb).later (Nat.le_succ _)

theorem acquisition {a : Acquisition} {now : ℤ} (h : Admitted v s) (ha : Passed v s a.admittedAt) :
    Admitted v (handleAcquisition v s a now) := by
  unfold handleAcquisition
  split
  · exact h.retains .complete
  · split
    · exact h.queue ha
    · split
      · exact h.retains .proposeGrant
      · split
        · exact h.queue ha
        · split
          · exact (h.queue ha).retains .ensureExpiry
          · split
            · exact h.retains .renew
            · exact h.retains .complete

theorem claim {a : Acquisition} {p : OriginId} (h : Admitted v s) (ha : Passed v s a.admittedAt) :
    Admitted v (claim s p (.claimAcquire a)) where
  waits := fun b hb => ⟨List.mem_cons_of_mem _ (h.waits b hb).1, (h.waits b hb).2⟩
  claims := fun b hb => by
    cases hb
    exact ha

theorem handleInput {input : Input} (h : Admitted v s) : Admitted v (handleInput v s input) := by
  cases input with
  | firstAcquire q =>
    rw [LeaseOwner.handleInput]
    split
    · have htick : Retains s { s.tick with firstAcquireAvailable := false } := Retains.tick.congr rfl rfl rfl rfl
      exact h.retains (htick.trans .proposeGrant)
    · exact h.retains .notify
  | acquire q =>
    rw [LeaseOwner.handleInput]
    split
    · split
      · exact (h.retains .tick).claim (passed_of_read (Nat.lt_succ_self _) (le_refl _))
      · exact h.retains .notify
    · exact h.retains (.await rfl)
  | release q =>
    rw [LeaseOwner.handleInput]
    split
    · split
      · exact h.retains (.await rfl)
      · exact h.retains .notify
    · exact h.retains (.await rfl)
  | retireIfIdle =>
    rw [LeaseOwner.handleInput]
    split
    · have hasked : Retains s { s with retirementRequested := true } := (Retains.refl s).congr rfl rfl rfl rfl
      exact h.retains (hasked.trans .beginRetirement)
    · exact h
  | relayOwnerIdle =>
    rw [LeaseOwner.handleInput]
    split
    · exact h.retains .beginRetirement
    · exact h
  | acquireDeadline permitId deadline =>
    rw [LeaseOwner.handleInput]
    split
    next waiter remaining hpart =>
      rw [List.partition_eq_filter_filter, Prod.mk.injEq] at hpart
      obtain ⟨hsame, hrest⟩ := hpart
      have hwaiter : waiter ∈ s.waiters :=
        List.mem_of_mem_filter (hsame ▸ List.mem_singleton_self waiter)
      have hpop : Retains s { s.tick with waiters := remaining } :=
        .popped fun b hb => List.mem_of_mem_filter (hrest ▸ hb)
      split
      · exact h.retains (hpop.trans .complete)
      · exact (h.retains hpop).queue ((h.waits waiter hwaiter).2.later (Nat.le_succ _))
    · exact h
  | resumeCall call =>
    rw [LeaseOwner.handleInput]
    split
    · have hwatch : Retains s { s.tick with refs := s.refs + 1 } := Retains.tick.congr rfl rfl rfl rfl
      exact h.retains (hwatch.trans (.await rfl))
    · exact h.retains .send
  | cancelPrepared originId => exact h.retains (.await rfl)

theorem acceptInput {input : Input} (h : Admitted v s) : Admitted v (acceptInput v s input) := by
  rw [LeaseOwner.acceptInput]
  split
  · exact h.handleInput.retains .drained
  · exact h.retains ((Retains.refl s).congr rfl rfl rfl rfl)

theorem drain (h : Admitted v s) : Admitted v (drain v s) := by
  rw [LeaseOwner.drain]
  split
  · exact h.retains ((Retains.refl s).congr rfl rfl rfl rfl)
  · split
    · exact h.retains .processNextOperation
    · split
      · exact h.retains (Retains.tick.trans .ensureExpiry)
      · split
        · exact h.retains (Retains.tick.trans .processOneWaiter)
        · have hticks : Retains s s.tick.tick := Retains.tick.trans .tick
          split
          · exact h.retains (hticks.trans .scheduleExpiry)
          · split
            next input deferred _ =>
              have htaken : Retains s { s.tick.tick with deferred := deferred } := hticks.congr rfl rfl rfl rfl
              exact (h.retains htaken).handleInput
            · exact h.retains (hticks.congr rfl rfl rfl rfl)

/-- A step that was awaited goes on, unless its permit was discarded. -/
theorem unlessDiscarded {p : OriginId} {f : State → State} (h : Admitted v s) (hf : Admitted v (f s)) :
    Admitted v (unlessDiscarded s p f) := by
  unfold LeaseOwner.unlessDiscarded
  split
  · exact h.retains ((Retains.refl s).congr rfl rfl rfl rfl)
  · exact hf

theorem continueStep {response : Response} {awaited : Awaited} (h : Admitted v s) (hawait : s.awaiting = some awaited)
    (hs : continueStep v { s with awaiting := none } response awaited.step = some s') : Admitted v s' := by
  obtain ⟨request, step⟩ := awaited
  have hidle : Admitted v { s with awaiting := none } := h.retains .answered
  cases step with
  | claimAcquire a =>
    cases hs
    have hclaimed : s.claimed = some a := by
      rw [State.claimed, hawait]
      rfl
    refine hidle.unlessDiscarded ?_
    split
    · exact (hidle.retains .tick).acquisition ((h.claims a hclaimed).later (Nat.le_succ _))
    · exact hidle.retains .notify
  | claimRelease d =>
    cases hs
    refine hidle.unlessDiscarded ?_
    split
    · unfold claimedRelease
      split
      · exact hidle.retains ((Retains.refl _).congr rfl rfl rfl rfl)
      · exact hidle.retains .performRelease
    · exact hidle.retains .notify
  | claimRefuse permitId requestId =>
    cases hs
    refine hidle.unlessDiscarded ?_
    split
    · exact hidle.retains .complete
    · exact hidle.retains .notify
  | complete permitId renewal result =>
    cases hs
    refine hidle.unlessDiscarded ?_
    split
    · exact hidle.retains (Retains.applyCompletion.trans .notify)
    · split
      · exact hidle.retains .complete
      · exact hidle.retains .notify
  | promoteMutation d taskRef candidate =>
    unfold LeaseOwner.continueStep at hs
    dsimp only at hs
    split at hs
    · split at hs
      · exact hidle.retains (Retains.send.trans (.admitPromoted hs))
      · cases hs
        exact hidle.retains .dismiss
    · cases hs
      exact hidle.retains .dismiss
    · cases hs
      exact hidle.retains .dismiss
  | prepareResume d =>
    have hqueue : Retains { s with awaiting := none } (enqueueMutation { s with awaiting := none } d) :=
      (Retains.refl _).congr rfl rfl rfl rfl
    unfold LeaseOwner.continueStep at hs
    dsimp only at hs
    split at hs
    all_goals cases hs
    · exact hidle.retains .send
    · exact hidle.retains hqueue
    · exact hidle.retains hqueue
    · exact hidle.retains hqueue
    · exact hidle.retains .send
    · exact hidle.retains .send
  | promoteResume d candidate =>
    unfold LeaseOwner.continueStep at hs
    dsimp only at hs
    split at hs
    · exact hidle.retains (Retains.send.trans (.admitPromoted hs))
    all_goals cases hs
    all_goals exact hidle.retains .dismiss
  | cancelPrepared =>
    cases hs
    exact hidle
  | prepareRetirement =>
    unfold LeaseOwner.continueStep at hs
    dsimp only at hs
    split at hs
    all_goals cases hs
    · exact hidle.retains (Retains.send.congr rfl rfl rfl rfl)
    · exact hidle.retains ((Retains.refl _).congr rfl rfl rfl rfl)
    · exact hidle

theorem acceptRequest {request : Request} (h : Admitted v s) : Admitted v (acceptRequest v s request) := by
  cases request with
  | activate =>
    unfold LeaseOwner.acceptRequest
    dsimp only
    split
    · exact h.retains ((Retains.refl s).congr rfl rfl rfl rfl)
    · exact h
  | attachment ackRef opened connection incarnation attachmentId =>
    have hchange : Retains s { s with
        attachments := changeAttachment s.attachments opened (connection, incarnation, attachmentId) } :=
      (Retains.refl s).congr rfl rfl rfl rfl
    cases ackRef with
    | none => exact h.retains hchange
    | some ref => exact h.retains (hchange.trans .send)
  | input input =>
    unfold LeaseOwner.acceptRequest
    dsimp only
    split
    next p _ =>
      have htook : Retains s { s with log := .took p :: s.log } :=
        ⟨⟨le_refl _, fun _ h => List.mem_cons_of_mem _ h⟩, fun _ h => h, .inr rfl⟩
      exact (h.retains htook).acceptInput
    · exact h.acceptInput

theorem handle {e : Event} (h : Admitted v s) (hs : handle v s e = some s') : Admitted v s' := by
  cases e with
  | mutate call =>
    unfold LeaseOwner.handle at hs
    dsimp only at hs
    split at hs
    · split at hs
      all_goals cases hs
      · exact h.retains ((Retains.refl s).congr rfl rfl rfl rfl)
      · exact h.retains .send
    · cases hs
      exact h.retains .send
  | resume call =>
    unfold LeaseOwner.handle at hs
    dsimp only at hs
    split at hs
    · split at hs
      all_goals cases hs
      · exact h.acceptInput
      · exact h.retains .send
    · cases hs
      exact h.retains .send
  | request request =>
    cases hs
    exact h.acceptRequest
  | answered request response =>
    unfold LeaseOwner.handle at hs
    dsimp only at hs
    split at hs
    next awaited hawait =>
      split at hs
      · obtain ⟨s₁, hs₁, rfl⟩ := Option.map_eq_some_iff.1 hs
        exact (h.continueStep hawait hs₁).retains .drained
      · cases hs
        exact h
    · cases hs
      exact h
  | requestUnanswered request =>
    unfold LeaseOwner.handle at hs
    dsimp only at hs
    split at hs
    all_goals cases hs
    · exact h.retains .send
    · exact h
  | daemonLeaseResolution operationRef resolution =>
    cases hs
    exact h.retains ((Retains.resolution.trans .send).trans .drained)
  | leaseExpiry token deadline =>
    unfold LeaseOwner.handle at hs
    dsimp only at hs
    split at hs
    · cases hs
      have hcleared : Retains s { s.tick with expiryToken := none } := Retains.tick.congr rfl rfl rfl rfl
      refine h.retains (Retains.trans ?_ .drained)
      split
      · exact hcleared
      · exact hcleared.trans .scheduleExpiry
    · cases hs
      exact h
  | relayOwnerIdle =>
    cases hs
    exact h.acceptInput
  | acquireDeadline permitId deadline =>
    cases hs
    exact h.acceptInput
  | leaseMutationClassified taskRef originId disposition =>
    unfold LeaseOwner.handle at hs
    dsimp only at hs
    split at hs
    · split at hs
      all_goals cases hs
      · exact h.retains .changeMutation
      · exact h
    · cases hs
      exact h
  | relayLeaseTicketSettled originId =>
    unfold LeaseOwner.handle at hs
    dsimp only at hs
    split at hs
    · split at hs
      all_goals cases hs
      · exact h
      · exact h.retains .changeMutation
    · cases hs
      exact h
  | registryResumeSettled originId disposition =>
    unfold LeaseOwner.handle at hs
    dsimp only at hs
    split at hs
    · split at hs
      all_goals cases hs
      · exact h.retains .changeMutation
      · exact h
    · cases hs
      exact h
  | workerDown monitor worker =>
    unfold LeaseOwner.handle at hs
    dsimp only at hs
    split at hs
    next d remaining _ =>
      split at hs
      · cases hs
        have hlost : Admitted v { s.send (.reply d.caller .ticketUnavailable) with pendingOperations := remaining } :=
          h.retains (Retains.send.congr rfl rfl rfl rfl)
        refine Admitted.retains ?_ .drained
        split
        · exact hlost.acceptInput
        · exact hlost
      · cases hs
        exact h
    · cases hs
      exact h
  | drain => cases hs

theorem step {e : Event} (h : Admitted v s) (hs : step v s e = some s') : Admitted v s' := by
  unfold LeaseOwner.step at hs
  split at hs
  · split at hs
    · cases hs
      exact h.drain
    · cases hs
  · exact h.handle hs

theorem init {attachments : List (Pid × Bytes × Bytes)} : Admitted v (init attachments) := ⟨nofun, nofun⟩

end Admitted

end

/-! ## what is stamped -/

/-- The daemon stamps a grant on the clock of the owner, before the owner takes its message. -/
def Honest (v : Setting) (s : State) : Event → Prop
  | .daemonLeaseResolution _ (.grant _ (some grantedAt)) => grantedAt ≤ v.monotonicMs s.readings
  | _ => True

/-- A renewal is no earlier than the deadline of the lease, or is that of an acquisition that was queued. -/
def Renews (v : Setting) (s : State) (permitId : OriginId) (deadline : ℤ) : Prop :=
  (∀ lease, s.held = some lease → lease.deadline ≤ deadline) ∨
    ∃ a, .queued a ∈ s.log ∧ a.permitId = permitId ∧ deadline = a.admittedAt + v.leaseTermMs

/-- Each deadline is a term past an instant that has passed, and the lease has none later than the one that a
mutation in flight would commit. -/
structure Stamped (v : Setting) (s : State) : Prop where
  held : ∀ lease, s.held = some lease → Passed v s (lease.deadline - v.leaseTermMs)
  candidate : ∀ o m candidate, s.inFlight.lookup o = some m → m.candidateDeadline = some candidate →
    Passed v s (candidate - v.leaseTermMs) ∧ ∀ lease, s.held = some lease → lease.deadline ≤ candidate
  renewal : ∀ permitId deadline, s.renewing = some (permitId, deadline) →
    Passed v s (deadline - v.leaseTermMs) ∧ Renews v s permitId deadline

section

variable {v : Setting} {e : Event} {s s' : State}

/-- Two mutations in flight are the same. -/
theorem Exclusive.unique {o o' : OriginId} {m m' : InFlight} (h : Exclusive v s) (hm : s.inFlight.lookup o = some m)
    (hm' : s.inFlight.lookup o' = some m') : o' = o := by
  have hmem : o ∈ s.inFlight.keys := AList.mem_keys.1 (AList.lookup_isSome.1 (by rw [hm, Option.isSome_some]))
  have hmem' : o' ∈ s.inFlight.keys := AList.mem_keys.1 (AList.lookup_isSome.1 (by rw [hm', Option.isSome_some]))
  rcases hkeys : s.inFlight.keys with _ | ⟨k, _ | ⟨k', rest⟩⟩
  · rw [hkeys] at hmem
    cases hmem
  · rw [hkeys] at hmem hmem'
    rw [List.mem_singleton.1 hmem, List.mem_singleton.1 hmem']
  · have hfew := h.few
    rw [hkeys] at hfew
    simp at hfew

/-- While the lease stays as it is, so does what is stamped. -/
theorem Renews.congr {p : OriginId} {deadline : ℤ} (h : Renews v s p deadline) (hl : s'.lease = s.lease)
    (hlater : Later s s') : Renews v s' p deadline := by
  rcases h with hle | ⟨a, ha, hp, hd⟩
  · exact .inl fun lease hh => hle lease ((held_congr hl).symm.trans hh)
  · exact .inr ⟨a, hlater.log _ ha, hp, hd⟩

theorem Stamped.heldCongr (h : Stamped v s) (hl : s'.lease = s.lease) (hlater : Later s s') (lease : Tenure)
    (hh : s'.held = some lease) : Passed v s' (lease.deadline - v.leaseTermMs) :=
  (h.held lease ((held_congr hl).symm.trans hh)).later hlater.readings

theorem Stamped.renewalCongr (h : Stamped v s) (hl : s'.lease = s.lease) (hp : Passes s s') (p : OriginId)
    (deadline : ℤ) (hr : s'.renewing = some (p, deadline)) :
    Passed v s' (deadline - v.leaseTermMs) ∧ Renews v s' p deadline := by
  rcases hp.renewing with hnone | hsame
  · rw [hnone] at hr
    cases hr
  · obtain ⟨hpassed, hrenews⟩ := h.renewal p deadline (hsame ▸ hr)
    exact ⟨hpassed.later hp.readings, hrenews.congr hl hp.toLater⟩

/-- The lease that a resolution leaves held is the one that was held, or is granted at an instant that has passed. -/
theorem held_of_resolves {u : Transition} {operationRef : Ref} {r : Resolution} {lease : Tenure} (hexcl : Exclusive v s)
    (hold : s.transition = some u) (he : e = .daemonLeaseResolution operationRef r) (hl : Resolves v s'.lease u r)
    (hhonest : Honest v s e) (hh : s'.held = some lease) :
    s.held = some lease ∨ s.held = none ∧ ∃ grantedAt, lease.deadline = grantedAt + v.leaseTermMs ∧
      grantedAt ≤ v.monotonicMs s.readings := by
  have hstanding := hexcl.standing u hold
  have hlease := (held_eq_some.1 hh)
  cases u with
  | grant ref a epoch previous =>
    cases r with
    | grant ref' grantedAt =>
      cases grantedAt with
      | none =>
        refine .inl (held_eq_some.2 ⟨?_, hlease.2⟩)
        rw [hstanding.2, ← hl.2, hlease.1]
      | some grantedAt =>
        obtain ⟨-, hgranted⟩ := hl
        rw [hlease.1, Option.some.injEq] at hgranted
        rw [he] at hhonest
        exact .inr ⟨hstanding.1, grantedAt, by rw [hgranted], hhonest⟩
    | release ref' released => exact hl.elim
    | expiry ref' => exact hl.elim
    | discard permitId => exact hl.elim
  | release ref permitId requestId lease' =>
    cases r with
    | grant ref' grantedAt => exact hl.elim
    | release ref' released =>
      obtain ⟨-, hreleased⟩ := hl
      rw [hlease.1, Option.some.injEq] at hreleased
      cases released with
      | false =>
        rw [if_neg (by decide)] at hreleased
        rw [hreleased]
        exact .inl hstanding.1
      | true =>
        rw [if_pos rfl] at hreleased
        rw [hreleased] at hlease
        cases hlease.2
    | expiry ref' => exact hl.elim
    | discard permitId => exact hl.elim
  | expiry ref lease' =>
    cases r with
    | grant ref' grantedAt => exact hl.elim
    | release ref' released => exact hl.elim
    | expiry ref' =>
      obtain ⟨-, hexpired⟩ := hl
      rw [hlease.1, Option.some.injEq] at hexpired
      rw [hexpired] at hlease
      cases hlease.2
    | discard permitId => exact hl.elim

theorem Stamped.move (h : Stamped v s) (hexcl : Exclusive v s) (hadmitted : Admitted v s) (hhonest : Honest v s e)
    (m : Move v e s s') : Stamped v s' := by
  cases m with
  | flight hp hl ht hn =>
    refine ⟨h.heldCongr hl hp.toLater, ?_, h.renewalCongr hl hp⟩
    intro o m' candidate hm' hc
    obtain ⟨m, hm, hclaim⟩ := hn.claim o m' hm'
    obtain ⟨hpassed, hle⟩ := h.candidate o m candidate hm ((InFlight.claim_eq hclaim).2.2.2 ▸ hc)
    exact ⟨hpassed.later hp.readings, fun lease hh => hle lease ((held_congr hl).symm.trans hh)⟩
  | commit o m candidate lease hp hm hc hh hof hl ht hn hgone =>
    have hheld : s'.held = some { lease with deadline := candidate } := held_of_lease hl (held_eq_some.1 hh).2
    refine ⟨?_, ?_, ?_⟩
    · intro lease' hh'
      rw [hheld] at hh'
      cases hh'
      exact (h.candidate o m candidate hm hc).1.later hp.readings
    · intro o' m' candidate' hm' hc'
      obtain ⟨m₁, hm₁, -⟩ := hn.claim o' m' hm'
      rw [hexcl.unique hm hm₁, hgone] at hm'
      cases hm'
    · intro permitId deadline hr
      rcases hp.renewing with hnone | hsame
      · rw [hnone] at hr
        cases hr
      · have hlookup := lookup_of_keys_nil (o := o) (hexcl.renewing _ (hsame ▸ hr)).1
        rw [hm] at hlookup
        cases hlookup
  | enter d m gate n hlater hr hread hl ht hexp hempty hin hclaim hgate hsent =>
    refine ⟨h.heldCongr hl hlater, ?_, fun permitId deadline hr' => by rw [hr] at hr'; cases hr'⟩
    intro o m' candidate hm' hc
    rw [hin] at hm'
    by_cases heq : o = d.originId
    · rw [heq, AList.lookup_insert] at hm'
      cases hm'
      simp only [InFlight.claim, Prod.mk.injEq] at hclaim
      obtain ⟨-, -, -, hcandidate⟩ := hclaim
      rw [hc] at hcandidate
      split at hcandidate
      · cases hcandidate
        refine ⟨passed_of_read hread.2 (by omega), fun lease hh => ?_⟩
        have hpassed := h.held lease ((held_congr hl).symm.trans hh) n hread.1
        omega
      · cases hcandidate
    · rw [AList.lookup_insert_ne heq, lookup_of_keys_nil hempty] at hm'
      cases hm'
  | renew a deadline lease hlater hr hsent hl ht hnone hin hempty hh hd =>
    refine ⟨h.heldCongr hl hlater, ?_, ?_⟩
    · intro o m candidate hm
      rw [hin, lookup_of_keys_nil hempty] at hm
      cases hm
    · intro permitId deadline' hr'
      rw [hr] at hr'
      cases hr'
      rcases hd with ⟨n, hn, hlt, hd⟩ | ⟨ha, hd⟩
      · refine ⟨passed_of_read hlt (by omega), .inl fun lease' hh' => ?_⟩
        have hpassed := h.held lease' ((held_congr hl).symm.trans hh') n hn
        omega
      · obtain ⟨hqueued, hpassed⟩ := hadmitted.waits a ha
        refine ⟨?_, .inr ⟨a, hlater.log _ hqueued, rfl, hd⟩⟩
        rw [hd, add_sub_cancel_right]
        exact hpassed.later hlater.readings
  | renewed permitId deadline lease hp hold hr hh hl ht hin =>
    have hheld : s'.held = some { lease with deadline := deadline } := held_of_lease hl (held_eq_some.1 hh).2
    refine ⟨?_, ?_, fun permitId' deadline' hr' => by rw [hr] at hr'; cases hr'⟩
    · intro lease' hh'
      rw [hheld] at hh'
      cases hh'
      exact (h.renewal permitId deadline hold).1.later hp.readings
    · intro o m candidate hm
      rw [hin, lookup_of_keys_nil (hexcl.renewing _ hold).1] at hm
      cases hm
  | propose u hp hr hl hnone ht hin hof =>
    refine ⟨h.heldCongr hl hp.toLater, ?_, h.renewalCongr hl hp⟩
    intro o m candidate hm hc
    obtain ⟨hpassed, hle⟩ := h.candidate o m candidate (hin ▸ hm) hc
    exact ⟨hpassed.later hp.readings, fun lease hh => hle lease ((held_congr hl).symm.trans hh)⟩
  | resolve u operationRef r hp he hold ht hin hl hack =>
    refine ⟨?_, ?_, ?_⟩
    · intro lease hh
      rcases held_of_resolves hexcl hold he hl hhonest hh with hsame | ⟨-, grantedAt, hd, hgranted⟩
      · exact (h.held lease hsame).later hp.readings
      · intro n hn
        have hclock := v.monotone s.readings n (le_trans hp.readings hn)
        omega
    · intro o m candidate hm hc
      rw [hin] at hm
      rw [(hexcl.gated o m candidate hm hc).1] at hold
      cases hold
    · intro permitId deadline hr
      rcases hp.renewing with hnone | hsame
      · rw [hnone] at hr
        cases hr
      · rw [(hexcl.renewing _ (hsame ▸ hr)).2.1] at hold
        cases hold

/-- A lease that stays held takes a deadline that is no earlier, or that of an acquisition that was queued. -/
theorem Stamped.advance {lease lease' : Tenure} (h : Stamped v s) (hexcl : Exclusive v s) (hhonest : Honest v s e)
    (m : Move v e s s') (hh : s.held = some lease) (hh' : s'.held = some lease') :
    lease.deadline ≤ lease'.deadline ∨ ∃ a, .queued a ∈ s.log ∧
      s.renewing = some (a.permitId, a.admittedAt + v.leaseTermMs) ∧
      lease'.deadline = a.admittedAt + v.leaseTermMs := by
  have hsame : s'.lease = s.lease → lease.deadline ≤ lease'.deadline := by
    intro hl
    rw [held_congr hl, hh] at hh'
    cases hh'
    exact le_refl _
  cases m with
  | flight _ hl _ _ => exact .inl (hsame hl)
  | enter _ _ _ _ _ _ _ hl _ _ _ _ _ _ _ => exact .inl (hsame hl)
  | renew _ _ _ _ _ _ hl _ _ _ _ _ _ => exact .inl (hsame hl)
  | propose _ _ _ hl _ _ _ _ => exact .inl (hsame hl)
  | commit o m candidate lease₁ _ hm hc hh₁ _ hl _ _ _ =>
    rw [held_of_lease hl (held_eq_some.1 hh₁).2] at hh'
    cases hh'
    exact .inl ((h.candidate o m candidate hm hc).2 lease hh)
  | renewed permitId deadline lease₁ _ hold _ hh₁ hl _ _ =>
    rw [held_of_lease hl (held_eq_some.1 hh₁).2] at hh'
    cases hh'
    rcases (h.renewal permitId deadline hold).2 with hle | ⟨a, ha, rfl, rfl⟩
    · exact .inl (hle lease hh)
    · exact .inr ⟨a, ha, hold, rfl⟩
  | resolve u operationRef r _ he hold _ _ hl _ =>
    rcases held_of_resolves hexcl hold he hl hhonest hh' with hheld | ⟨hnone, -⟩
    · rw [hh] at hheld
      cases hheld
      exact .inl (le_refl _)
    · rw [hh] at hnone
      cases hnone

theorem Stamped.init {attachments : List (Pid × Bytes × Bytes)} : Stamped v (init attachments) where
  held := nofun
  candidate := fun o m candidate hm => by
    have hnone : (LeaseOwner.init attachments).inFlight.lookup o = none := lookup_of_keys_nil rfl
    rw [hnone] at hm
    cases hm
  renewal := nofun

theorem stamped_run {attachments : List (Pid × Bytes × Bytes)} {events : List Event}
    (h : Run (Guarded (fun s e s' => step v s e = some s') (Honest v)) (init attachments) events s) :
    Stamped v s ∧ Exclusive v s ∧ Admitted v s := by
  refine h.invariant (I := fun s => Stamped v s ∧ Exclusive v s ∧ Admitted v s)
    ⟨Stamped.init, Exclusive.init, Admitted.init⟩ ?_
  rintro s e s' ⟨hstamped, hexcl, hadmitted⟩ ⟨hs, hhonest⟩
  exact ⟨hstamped.move hexcl hadmitted hhonest (move_step hs), hexcl.step hs, hadmitted.step hs⟩

/-- **The deadline of a held lease moves forward, but for the waiters.**  In a run in which the daemon stamps its
grants on the clock of the owner, a lease that stays held under its epoch takes no earlier deadline, unless a renewal
is completed that was taken from the waiters: then it takes the instant that this acquisition was admitted at, and
the term. -/
theorem deadline_advances {attachments : List (Pid × Bytes × Bytes)} {events : List Event} {lease lease' : Tenure}
    (h : Run (Guarded (fun s e s' => step v s e = some s') (Honest v)) (init attachments) events s)
    (hs : step v s e = some s') (hhonest : Honest v s e) (hheld : s.held = some lease) (hheld' : s'.held = some lease')
    (_ : lease'.writerEpoch = lease.writerEpoch) :
    lease.deadline ≤ lease'.deadline ∨ ∃ a, .queued a ∈ s.log ∧
      s.renewing = some (a.permitId, a.admittedAt + v.leaseTermMs) ∧
      lease'.deadline = a.admittedAt + v.leaseTermMs := by
  obtain ⟨hstamped, hexcl, -⟩ := stamped_run h
  exact hstamped.advance hexcl hhonest (move_step hs) hheld hheld'

end

/-! ## a renewal from the waiters -/

instance (v : Setting) (s : State) : ∀ e, Decidable (Honest v s e)
  | .daemonLeaseResolution _ (.grant _ (some grantedAt)) =>
    inferInstanceAs (Decidable (grantedAt ≤ v.monotonicMs s.readings))
  | .daemonLeaseResolution _ (.grant _ none) | .daemonLeaseResolution _ (.release ..)
  | .daemonLeaseResolution _ (.expiry _) | .daemonLeaseResolution _ (.discard _) | .request _ | .mutate _ | .resume _
  | .answered .. | .requestUnanswered _ | .leaseExpiry .. | .relayOwnerIdle | .acquireDeadline ..
  | .leaseMutationClassified .. | .relayLeaseTicketSettled _ | .registryResumeSettled .. | .workerDown .. | .drain =>
    isTrue trivial

/-- A step that is honest, computed. -/
def honestStep (v : Setting) (s : State) (e : Event) : Option State := if Honest v s e then step v s e else none

theorem honestStep_eq_some {v : Setting} {s s' : State} {e : Event} (h : honestStep v s e = some s') :
    step v s e = some s' ∧ Honest v s e := by
  rw [honestStep] at h
  split at h
  next hhonest => exact ⟨h, hhonest⟩
  · cases h

/-- A connection acquires, and again while its grant is proposed, which queues; the grant is stamped later than the
second acquisition was admitted, which is then renewed. -/
def renewedFromQueue : List Event :=
  [.request .activate, .drain, .request (.input (.firstAcquire ⟨firstPermit, [1], 5, incarnationOf 1, 60000⟩)), .drain,
    .request (.input (.acquire ⟨secondPermit, [2], 5, incarnationOf 1, 60000⟩)), .drain, .answered 1 (.reply .ok),
    .drain, .daemonLeaseResolution 0 (.grant 0 (some 8)), .drain, .drain]

theorem leases_renewedFromQueue : (renewedFromQueue.foldlM (honestStep steady) (init [])).bind (fun s =>
    (honestStep steady s (.answered 3 (.reply .ok))).map fun s' => (s.held, s'.held)) =
    some (some ⟨.held, 5, incarnationOf 1, incarnationOf 7, 8, 30008⟩,
      some ⟨.held, 5, incarnationOf 1, incarnationOf 7, 8, 30005⟩) := by
  decide

theorem steps_renewedFromQueue : ∃ s s', Run (Guarded (fun s e s' => step steady s e = some s') (Honest steady))
    (init []) renewedFromQueue s ∧ step steady s (.answered 3 (.reply .ok)) = some s' ∧
    Honest steady s (.answered 3 (.reply .ok)) ∧
    s.held = some ⟨.held, 5, incarnationOf 1, incarnationOf 7, 8, 30008⟩ ∧
    s'.held = some ⟨.held, 5, incarnationOf 1, incarnationOf 7, 8, 30005⟩ := by
  obtain ⟨s, hs, hmap⟩ := Option.bind_eq_some_iff.1 leases_renewedFromQueue
  obtain ⟨s', hs', hpair⟩ := Option.map_eq_some_iff.1 hmap
  obtain ⟨hheld, hheld'⟩ := Prod.mk.inj hpair
  obtain ⟨hstep, hhonest⟩ := honestStep_eq_some hs'
  exact ⟨s, s', (Run.of_foldlM hs).mono fun _ _ _ => honestStep_eq_some, hstep, hhonest, hheld, hheld'⟩

theorem deadline_advances_renewedFromQueue : ∃ s s' lease lease',
    step steady s (.answered 3 (.reply .ok)) = some s' ∧ s.held = some lease ∧ s'.held = some lease' ∧
    (lease.deadline ≤ lease'.deadline ∨ ∃ a, .queued a ∈ s.log ∧
      s.renewing = some (a.permitId, a.admittedAt + steady.leaseTermMs) ∧
      lease'.deadline = a.admittedAt + steady.leaseTermMs) := by
  obtain ⟨s, s', hrun, hstep, hhonest, hheld, hheld'⟩ := steps_renewedFromQueue
  exact ⟨s, s', _, _, hstep, hheld, hheld', deadline_advances hrun hstep hhonest hheld hheld' rfl⟩

/-- The second acquisition renews the lease to an earlier deadline. -/
theorem deadline_moves_backwards : ¬ ∀ (v : Setting) (attachments : List (Pid × Bytes × Bytes)) (events : List Event)
    (s s' : State) (e : Event) (lease lease' : Tenure),
    Run (Guarded (fun s e s' => step v s e = some s') (Honest v)) (init attachments) events s →
      step v s e = some s' → Honest v s e → s.held = some lease → s'.held = some lease' →
      lease'.writerEpoch = lease.writerEpoch → lease.deadline ≤ lease'.deadline := by
  intro h
  obtain ⟨s, s', hrun, hstep, hhonest, hheld, hheld'⟩ := steps_renewedFromQueue
  have hle := h steady [] renewedFromQueue s s' _ _ _ hrun hstep hhonest hheld hheld' rfl
  revert hle
  decide

end Loopex.Daemon.LeaseOwner
