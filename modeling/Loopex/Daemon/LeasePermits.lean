import Loopex.Daemon.LeaseOwner
import Loopex.System.Run
import Loopex.System.Tickets
import Mathlib.Algebra.Order.Group.Multiset
import Mathlib.Tactic.Abel

/-!
# The permits of the lease owner

Every acquire and release carries a permit, which moves between the deferred inputs, the awaited step, the
waiters and the queued releases until it is proposed, settled or discarded.

* `Mark.entry?`, `State.tickets` — what became of the permits, as a log of tickets
* `Custody` — the permits that wait are where the process holds them; every step keeps it
-/

namespace Loopex.Daemon.LeaseOwner

open Loopex.Erlang Loopex.System Loopex.System.Tickets

/-- What a mark says of a permit. -/
def Mark.entry? : Mark → Option (Tickets.Entry OriginId)
  | .took permitId => some (.hand permitId)
  | .sent (.leaseGrantProposed _ permitId _ _ _ _) => some (.answer permitId)
  | .sent (.releaseProposed _ permitId _) => some (.answer permitId)
  | .sent (.leasePermitSettled permitId _) => some (.answer permitId)
  | .sent (.leaseOwnerResolutionAck _ (.discard permitId) .discarded) => some (.drop permitId)
  | .sent (.leaseOwnerResolutionAck _ (.discard permitId) .proposed) => some (.late permitId)
  | .sent (.leaseOwnerResolutionAck _ (.discard permitId) .absent) => some (.miss permitId)
  | _ => none

namespace State

variable (s : State)

def tickets : List (Tickets.Entry OriginId) := s.log.filterMap Mark.entry?

/-- The permits in the deferred inputs, the waiters and the queued releases. -/
def waiting : Multiset OriginId :=
  ↑(s.deferred.filterMap Input.permitId?) + ↑(s.waiters.map Acquisition.permitId) +
    ↑(s.pendingOperations.filterMap Operation.permitId?)

/-- The permit of the awaited step, unless it is discarded. -/
def asked : Multiset OriginId :=
  match awaitedPermit s with
  | some permitId => if permitId ∈ s.discarded then 0 else {permitId}
  | none => 0

end State

/-- The permits that wait are those that the process holds, and only an awaited one can be discarded and kept. -/
structure Custody (s : State) : Prop where
  kept : Kept (s.asked + s.waiting) s.tickets
  discarded : ∀ p ∈ s.discarded, awaitedPermit s = some p ∧ p ∈ dropped s.tickets
  transition : ∀ t ∈ s.transition, ∀ p ∈ t.permitId?, p ∈ answered s.tickets

/-- Nothing is awaited, and the permit `p` waits in nobody's place. -/
structure Hand (p : OriginId) (s : State) : Prop where
  awaiting : s.awaiting = none
  discarded : s.discarded = ∅
  kept : Kept (p ::ₘ s.waiting) s.tickets
  transition : ∀ t ∈ s.transition, ∀ p ∈ t.permitId?, p ∈ answered s.tickets

/-- Nothing is awaited. -/
structure Idle (s : State) : Prop where
  awaiting : s.awaiting = none
  discarded : s.discarded = ∅
  kept : Kept s.waiting s.tickets
  transition : ∀ t ∈ s.transition, ∀ p ∈ t.permitId?, p ∈ answered s.tickets

section

variable {v : Setting} {s s' : State} {p : OriginId}

theorem awaitedPermit_none (h : s.awaiting = none) : awaitedPermit s = none := by
  rw [awaitedPermit, h]
  rfl

theorem asked_none (h : awaitedPermit s = none) : s.asked = 0 := by
  rw [State.asked, h]

theorem Idle.custody (h : Idle s) : Custody s where
  kept := by
    rw [asked_none (awaitedPermit_none h.awaiting), zero_add]
    exact h.kept
  discarded := by
    intro p hp
    rw [h.discarded] at hp
    exact absurd hp (Finset.notMem_empty p)
  transition := h.transition

theorem Custody.idle (h : Custody s) (hnone : s.awaiting = none) : Idle s where
  awaiting := hnone
  discarded := by
    refine Finset.eq_empty_of_forall_notMem fun p hp => ?_
    have hp := (h.discarded p hp).1
    rw [awaitedPermit_none hnone] at hp
    cases hp
  kept := by
    have hkept := h.kept
    rw [asked_none (awaitedPermit_none hnone), zero_add] at hkept
    exact hkept
  transition := h.transition

theorem asked_some (h : awaitedPermit s = some p) : s.asked = if p ∈ s.discarded then 0 else {p} := by
  rw [State.asked, h]

/-- What custody says depends on no other field. -/
theorem Custody.congr (h : Custody s) (ha : awaitedPermit s' = awaitedPermit s) (hd : s'.discarded = s.discarded)
    (hw : s'.waiting = s.waiting) (hl : s'.tickets = s.tickets) (ht : s'.transition = s.transition) : Custody s' := by
  have hasked : s'.asked = s.asked := by rw [State.asked, ha, hd, State.asked]
  refine ⟨?_, ?_, ?_⟩
  · rw [hasked, hw, hl]
    exact h.kept
  · rw [ha, hd, hl]
    exact h.discarded
  · rw [ht, hl]
    exact h.transition

theorem Idle.congr (h : Idle s) (ha : s'.awaiting = s.awaiting) (hd : s'.discarded = s.discarded)
    (hw : s'.waiting = s.waiting) (hl : s'.tickets = s.tickets) (ht : s'.transition = s.transition) : Idle s' :=
  ⟨ha.trans h.awaiting, hd.trans h.discarded, by rw [hw, hl]; exact h.kept, by rw [ht, hl]; exact h.transition⟩

theorem Hand.congr (h : Hand p s) (ha : s'.awaiting = s.awaiting) (hd : s'.discarded = s.discarded)
    (hw : s'.waiting = s.waiting) (hl : s'.tickets = s.tickets) (ht : s'.transition = s.transition) : Hand p s' :=
  ⟨ha.trans h.awaiting, hd.trans h.discarded, by rw [hw, hl]; exact h.kept, by rw [ht, hl]; exact h.transition⟩

/-! ## a permit in hand -/

theorem tickets_send {m : Message} : (s.send m).tickets = (Mark.entry? (.sent m)).toList ++ s.tickets := by
  simp only [State.tickets, State.send, List.filterMap_cons]
  cases Mark.entry? (.sent m) <;> rfl

/-- A request for the permit is sent. -/
theorem Hand.await {request : Message} {step : Step} (h : Hand p s) (hm : Mark.entry? (.sent request) = none)
    (hp : awaitedPermit (s.await request step) = some p) : Custody (s.await request step) where
  kept := by
    have hasked : (s.await request step).asked = {p} := by
      rw [State.asked, hp]
      have hd : (s.await request step).discarded = ∅ := h.discarded
      simp [hd]
    have hlog : (s.await request step).tickets = s.tickets := by
      have := tickets_send (s := s) (m := request)
      rw [hm] at this
      exact this
    rw [hasked, hlog]
    exact h.kept
  discarded := by
    intro q hq
    have hd : (s.await request step).discarded = ∅ := h.discarded
    rw [hd] at hq
    exact absurd hq (Finset.notMem_empty q)
  transition := by
    have hlog : (s.await request step).tickets = s.tickets := by
      have := tickets_send (s := s) (m := request)
      rw [hm] at this
      exact this
    rw [hlog]
    exact h.transition

/-- The permit is answered. -/
theorem Hand.answer {m : Message} (h : Hand p s) (hm : Mark.entry? (.sent m) = some (.answer p))
    (hl : s'.log = .sent m :: s.log) (ha : s'.awaiting = s.awaiting) (hd : s'.discarded = s.discarded)
    (hw : s'.waiting = s.waiting)
    (ht : ∀ t ∈ s'.transition, t ∈ s.transition ∨ ∀ q ∈ t.permitId?, q = p) : Idle s' where
  awaiting := ha.trans h.awaiting
  discarded := hd.trans h.discarded
  kept := by
    have hlog : s'.tickets = .answer p :: s.tickets := by
      rw [State.tickets, hl, List.filterMap_cons, hm]
      rfl
    rw [hlog, hw]
    exact h.kept.answer
  transition := by
    have hlog : s'.tickets = .answer p :: s.tickets := by
      rw [State.tickets, hl, List.filterMap_cons, hm]
      rfl
    intro t hmem q hq
    rw [hlog]
    rcases ht t hmem with hold | hnew
    · exact List.mem_cons_of_mem _ (h.transition t hold q hq)
    · rw [hnew q hq]
      exact List.mem_cons_self ..

theorem Hand.notify {kind : PermitKind} (h : Hand p s) : Idle (notifyPermit s p kind) := by
  have hnot : p ∉ s.discarded := by
    rw [h.discarded]
    exact Finset.notMem_empty p
  rw [notifyPermit, if_neg hnot]
  exact h.answer rfl rfl rfl rfl rfl fun t ht => .inl ht

theorem Hand.complete {result : Record} {renewal : Option ℤ} (h : Hand p s) : Custody (completePermit s p result renewal) :=
  h.await rfl rfl

theorem Hand.proposeGrant {a : Acquisition} (h : Hand a.permitId s) : Idle (proposeGrant v s a) := by
  refine h.answer rfl rfl rfl rfl rfl fun t ht => .inr fun q hq => ?_
  cases ht
  cases hq
  rfl

theorem Hand.queue {a : Acquisition} (h : Hand a.permitId s) : Idle (queueAcquisition s a) where
  awaiting := h.awaiting
  discarded := h.discarded
  kept := by
    have hw : (queueAcquisition s a).waiting = a.permitId ::ₘ s.waiting := by
      simp only [State.waiting, queueAcquisition, List.map_append, List.map_cons, List.map_nil, ← Multiset.coe_add,
        Multiset.coe_singleton, ← Multiset.singleton_add]
      abel
    rw [hw]
    exact h.kept
  transition := h.transition

theorem Idle.ensureExpiry (h : Idle s) : Idle (ensureExpiryTransition v s) := by
  rw [ensureExpiryTransition]
  split
  · exact h
  · split
    · exact h
    · split
      · refine ⟨h.awaiting, h.discarded, h.kept, fun t ht p hp => ?_⟩
        cases ht
        cases hp
      · exact h.congr rfl rfl rfl rfl rfl

theorem Hand.renew {a : Acquisition} {lease : Tenure} {admittedAt : ℤ} (h : Hand a.permitId s) :
    Custody (renew v s a lease admittedAt) :=
  Hand.complete (h.congr rfl rfl rfl rfl rfl)

theorem Hand.acquisition {a : Acquisition} {now : ℤ} (h : Hand a.permitId s) : Custody (handleAcquisition v s a now) := by
  rw [handleAcquisition]
  split
  · exact h.complete
  · split
    · exact h.queue.custody
    · split
      · exact h.proposeGrant.custody
      · split
        · exact h.queue.custody
        · split
          · exact h.queue.ensureExpiry.custody
          · split
            · exact h.renew
            · exact h.complete

theorem Hand.release {d : ReleaseRequest} (h : Hand d.permitId s) : Custody (performRelease v s d) := by
  rw [performRelease]
  split
  · refine Idle.custody (h.answer rfl rfl rfl rfl rfl fun t ht => .inr fun q hq => ?_)
    cases ht
    cases hq
    rfl
  · exact Hand.complete (h.congr rfl rfl rfl rfl rfl)

theorem Hand.claimedRelease {d : ReleaseRequest} (h : Hand d.permitId s) : Custody (claimedRelease v s d) := by
  rw [LeaseOwner.claimedRelease]
  split
  · refine Idle.custody ⟨h.awaiting, h.discarded, ?_, h.transition⟩
    have hw : { s with pendingOperations := s.pendingOperations ++ [.release d] : State }.waiting =
        d.permitId ::ₘ s.waiting := by
      simp only [State.waiting, List.filterMap_append, List.filterMap_cons, List.filterMap_nil, Operation.permitId?,
        ← Multiset.coe_add, Multiset.coe_singleton, ← Multiset.singleton_add]
      abel
    rw [hw]
    exact h.kept
  · exact h.release

/-- A request that names no permit is sent. -/
theorem Idle.await {request : Message} {step : Step} (h : Idle s) (hm : Mark.entry? (.sent request) = none)
    (hp : awaitedPermit (s.await request step) = none) : Custody (s.await request step) where
  kept := by
    have hlog : (s.await request step).tickets = s.tickets := by
      have hsend := tickets_send (s := s) (m := request)
      rw [hm] at hsend
      exact hsend
    rw [asked_none hp, zero_add, hlog]
    exact h.kept
  discarded := by
    intro q hq
    have hd : (s.await request step).discarded = ∅ := h.discarded
    rw [hd] at hq
    exact absurd hq (Finset.notMem_empty q)
  transition := by
    have hlog : (s.await request step).tickets = s.tickets := by
      have hsend := tickets_send (s := s) (m := request)
      rw [hm] at hsend
      exact hsend
    rw [hlog]
    exact h.transition

/-- A message that says nothing of a permit is sent. -/
theorem Idle.send {m : Message} (h : Idle s) (hm : Mark.entry? (.sent m) = none) : Idle (s.send m) := by
  refine h.congr rfl rfl rfl ?_ rfl
  rw [tickets_send, hm]
  rfl

theorem Custody.send {m : Message} (h : Custody s) (hm : Mark.entry? (.sent m) = none) : Custody (s.send m) := by
  refine h.congr rfl rfl rfl ?_ rfl
  rw [tickets_send, hm]
  rfl

/-! ## places -/

/-- The permit that leaves the waiters is in hand. -/
theorem Idle.popWaiter {a : Acquisition} {remaining : List Acquisition} (h : Idle s)
    (hw : s.waiters.Perm (a :: remaining)) : Hand a.permitId { s with waiters := remaining } where
  awaiting := h.awaiting
  discarded := h.discarded
  kept := by
    have hwait : a.permitId ::ₘ { s with waiters := remaining : State }.waiting = s.waiting := by
      have hcoe : (↑(s.waiters.map Acquisition.permitId) : Multiset OriginId) =
          a.permitId ::ₘ ↑(remaining.map Acquisition.permitId) := Multiset.coe_eq_coe.2 (hw.map _)
      simp only [State.waiting, hcoe, ← Multiset.singleton_add]
      abel
    rw [hwait]
    exact h.kept
  transition := h.transition

/-- The permit that leaves the queued operations is in hand. -/
theorem Idle.popRelease {d : ReleaseRequest} {remaining : List Operation} (h : Idle s)
    (hp : s.pendingOperations = .release d :: remaining) :
    Hand d.permitId { s with pendingOperations := remaining } where
  awaiting := h.awaiting
  discarded := h.discarded
  kept := by
    have hwait : d.permitId ::ₘ { s with pendingOperations := remaining : State }.waiting = s.waiting := by
      simp only [State.waiting, hp, List.filterMap_cons, Operation.permitId?, ← Multiset.cons_coe,
        ← Multiset.singleton_add]
      abel
    rw [hwait]
    exact h.kept
  transition := h.transition

theorem waiting_popMutation {d : Mutation} {remaining : List Operation}
    (hp : s.pendingOperations = .mutation d :: remaining) :
    { s with pendingOperations := remaining : State }.waiting = s.waiting := by
  simp only [State.waiting, hp, List.filterMap_cons, Operation.permitId?]

/-- The permit that leaves the deferred inputs is in hand. -/
theorem Idle.popInput {input : Input} {deferred : List Input} (h : Idle s) (hdef : s.deferred = input :: deferred)
    (hp : input.permitId? = some p) : Hand p { s with deferred := deferred } where
  awaiting := h.awaiting
  discarded := h.discarded
  kept := by
    have hwait : p ::ₘ { s with deferred := deferred : State }.waiting = s.waiting := by
      simp only [State.waiting, hdef, List.filterMap_cons, hp, ← Multiset.cons_coe, ← Multiset.singleton_add]
      abel
    rw [hwait]
    exact h.kept
  transition := h.transition

theorem waiting_popInput {input : Input} {deferred : List Input} (hdef : s.deferred = input :: deferred)
    (hp : input.permitId? = none) : { s with deferred := deferred : State }.waiting = s.waiting := by
  simp only [State.waiting, hdef, List.filterMap_cons, hp]

theorem waiting_enqueueMutation {d : Mutation} : (enqueueMutation s d).waiting = s.waiting := by
  simp only [State.waiting, enqueueMutation, List.filterMap_append, List.filterMap_cons, List.filterMap_nil,
    Operation.permitId?, List.append_nil]

/-! ## inputs -/

theorem Idle.beginRetirement (h : Idle s) : Custody (beginRetirement s) := by
  rw [LeaseOwner.beginRetirement]
  split
  · exact h.await rfl rfl
  · exact h.custody

/-- An input with a permit. -/
theorem Hand.input {input : Input} (h : Hand p s) (hp : input.permitId? = some p) : Custody (handleInput v s input) := by
  cases input with
  | firstAcquire q =>
    cases hp
    rw [handleInput]
    split
    · exact Idle.custody (Hand.proposeGrant (h.congr rfl rfl rfl rfl rfl))
    · exact h.notify.custody
  | acquire q =>
    cases hp
    rw [handleInput]
    split
    · split
      · exact Hand.await (h.congr rfl rfl rfl rfl rfl) rfl rfl
      · exact h.notify.custody
    · exact h.await rfl rfl
  | release q =>
    cases hp
    rw [handleInput]
    split
    · split
      · exact h.await rfl rfl
      · exact h.notify.custody
    · exact h.await rfl rfl
  | _ => cases hp

/-- An input without one. -/
theorem Idle.input {input : Input} (h : Idle s) (hp : input.permitId? = none) : Custody (handleInput v s input) := by
  cases input with
  | retireIfIdle =>
    rw [handleInput]
    split
    · exact Idle.beginRetirement (h.congr rfl rfl rfl rfl rfl)
    · exact h.custody
  | relayOwnerIdle =>
    rw [handleInput]
    split
    · exact h.beginRetirement
    · exact h.custody
  | acquireDeadline permitId deadline =>
    rw [handleInput]
    split
    next waiter remaining hpart =>
      have hperm : s.waiters.Perm (waiter :: remaining) := by
        have happend := List.filter_append_perm (fun a : Acquisition => decide (a.permitId = permitId)) s.waiters
        rw [List.partition_eq_filter_filter, Prod.mk.injEq] at hpart
        rw [hpart.1] at happend
        exact (happend.symm.trans (by rw [← hpart.2]; rfl))
      have hhand := h.popWaiter hperm
      split
      · exact Hand.complete (hhand.congr rfl rfl rfl rfl rfl)
      · exact Idle.custody (Hand.queue (hhand.congr rfl rfl rfl rfl rfl))
    · exact h.custody
  | resumeCall call =>
    rw [handleInput]
    split
    · exact Idle.await (h.congr rfl rfl rfl rfl rfl) rfl rfl
    · exact (h.send rfl).custody
  | cancelPrepared originId => exact h.await rfl rfl
  | _ => cases hp

/-! ## the drain -/

theorem Idle.processNextOperation (h : Idle s) : Custody (processNextOperation v s) := by
  rw [LeaseOwner.processNextOperation]
  split
  · exact h.custody
  next d remaining hp =>
    have hrest : Idle { s with pendingOperations := remaining } := h.congr rfl rfl (waiting_popMutation hp) rfl rfl
    split
    · exact Idle.await (hrest.congr rfl rfl rfl rfl rfl) rfl rfl
    · exact Idle.await (hrest.congr rfl rfl rfl rfl rfl) rfl rfl
  next d remaining hp => exact (h.popRelease hp).release

theorem Idle.processOneWaiter (h : Idle s) : Custody (processOneWaiter v s) := by
  rw [LeaseOwner.processOneWaiter]
  split
  · exact h.custody
  next a remaining hw =>
    have hhand : Hand a.permitId { s.tick with waiters := remaining } :=
      Idle.popWaiter (s := s.tick) (h.congr rfl rfl rfl rfl rfl) (by rw [State.tick, hw])
    dsimp only
    split
    · exact hhand.complete
    · split
      · have hgrant := Hand.proposeGrant (v := v) hhand
        refine Idle.custody ?_
        exact hgrant.congr rfl rfl rfl rfl rfl
      · split
        · have htick : Idle s.tick := h.congr rfl rfl rfl rfl rfl
          exact htick.ensureExpiry.custody
        · split
          · exact hhand.renew
          · exact hhand.complete

theorem Custody.drain (h : Custody s) : Custody (drain v s) := by
  rw [LeaseOwner.drain]
  split
  · exact h.congr rfl rfl rfl rfl rfl
  next hawait =>
    have hidle : Idle s := h.idle (by simpa using hawait)
    have htick : Idle s.tick := hidle.congr rfl rfl rfl rfl rfl
    split
    · exact hidle.processNextOperation
    · split
      · exact htick.ensureExpiry.custody
      · split
        · exact htick.processOneWaiter
        · split
          · refine Idle.custody ?_
            exact htick.congr rfl rfl rfl rfl rfl
          · split
            next input deferred hdef =>
              rcases hp : input.permitId? with _ | p
              · exact Idle.input (hidle.congr rfl rfl (waiting_popInput hdef hp) rfl rfl) hp
              · exact Hand.input ((hidle.popInput hdef hp).congr rfl rfl rfl rfl rfl) hp
            · refine Idle.custody ?_
              exact htick.congr rfl rfl rfl rfl rfl

/-! ## answers -/

/-- The answer to a step that names the permit `p` leaves it in hand, unless it is discarded. -/
theorem Custody.unlessDiscarded {f : State → State} (h : Custody s) (hp : awaitedPermit s = some p)
    (hf : Hand p { s with awaiting := none } → Custody (f { s with awaiting := none })) :
    Custody (unlessDiscarded { s with awaiting := none } p f) := by
  have hsub : ∀ q ∈ s.discarded, q = p := by
    intro q hq
    have hq := (h.discarded q hq).1
    rw [hp] at hq
    exact (Option.some.inj hq).symm
  have hkept := h.kept
  rw [asked_some hp] at hkept
  rw [LeaseOwner.unlessDiscarded]
  split
  next hmem =>
    have hmem : p ∈ s.discarded := hmem
    rw [if_pos hmem, zero_add] at hkept
    refine Idle.custody ⟨rfl, ?_, hkept, h.transition⟩
    refine Finset.eq_empty_of_forall_notMem fun q hq => ?_
    obtain ⟨hne, hq⟩ := Finset.mem_erase.1 hq
    exact hne (hsub q hq)
  next hmem =>
    have hmem : p ∉ s.discarded := hmem
    rw [if_neg hmem, Multiset.singleton_add] at hkept
    refine hf ⟨rfl, ?_, hkept, h.transition⟩
    refine Finset.eq_empty_of_forall_notMem fun q hq => hmem ?_
    rwa [← hsub q hq]

/-- The answer to a step that names no permit. -/
theorem Custody.answered (h : Custody s) (hp : awaitedPermit s = none) : Idle { s with awaiting := none } where
  awaiting := rfl
  discarded := by
    refine Finset.eq_empty_of_forall_notMem fun q hq => ?_
    have hq := (h.discarded q hq).1
    rw [hp] at hq
    cases hq
  kept := by
    have hkept := h.kept
    rw [asked_none hp, zero_add] at hkept
    exact hkept
  transition := h.transition

theorem Hand.applyCompletion {renewal : Option ℤ} (h : Hand p s) : Hand p (applyCompletion s renewal) := by
  unfold LeaseOwner.applyCompletion
  split
  · exact h.congr rfl rfl rfl rfl rfl
  · exact h

/-- Settling a mutation touches nothing that a permit is in. -/
theorem settle_frame (s : State) (originId : OriginId) :
    (settleMutationIfReady s originId).awaiting = s.awaiting ∧
      (settleMutationIfReady s originId).discarded = s.discarded ∧
      (settleMutationIfReady s originId).waiting = s.waiting ∧
      (settleMutationIfReady s originId).tickets = s.tickets ∧
      (settleMutationIfReady s originId).transition = s.transition := by
  rw [settleMutationIfReady]
  split
  · exact ⟨rfl, rfl, rfl, rfl, rfl⟩
  · split
    · exact ⟨rfl, rfl, rfl, rfl, rfl⟩
    · split
      · dsimp only
        split
        · exact ⟨rfl, rfl, rfl, rfl, rfl⟩
        · unfold commitCandidateDeadline
          split
          · split
            · exact ⟨rfl, rfl, rfl, rfl, rfl⟩
            · exact ⟨rfl, rfl, rfl, rfl, rfl⟩
          · exact ⟨rfl, rfl, rfl, rfl, rfl⟩
      · exact ⟨rfl, rfl, rfl, rfl, rfl⟩

theorem Idle.settle {originId : OriginId} (h : Idle s) : Idle (settleMutationIfReady s originId) := by
  obtain ⟨ha, hd, hw, hl, ht⟩ := settle_frame s originId
  exact h.congr ha hd hw hl ht

theorem Custody.settle {originId : OriginId} (h : Custody s) : Custody (settleMutationIfReady s originId) := by
  obtain ⟨ha, hd, hw, hl, ht⟩ := settle_frame s originId
  exact h.congr (by rw [awaitedPermit, ha, awaitedPermit]) hd hw hl ht

theorem Idle.admitPromoted {originId : OriginId} (h : Idle s) (hs : admitPromoted s originId = some s') : Idle s' := by
  obtain ⟨mutation, -, rfl⟩ := Option.map_eq_some_iff.1 hs
  exact Idle.settle (h.congr rfl rfl rfl rfl rfl)

theorem Idle.dismiss {d : Mutation} {answer : CallAnswer} (h : Idle s) : Idle (dismiss s d answer) :=
  (h.send (m := .reply d.caller answer) rfl).congr rfl rfl rfl rfl rfl

theorem Custody.continueStep {response : Response} {awaited : Awaited} (h : Custody s)
    (hawait : s.awaiting = some awaited)
    (hs : continueStep v { s with awaiting := none } response awaited.step = some s') : Custody s' := by
  obtain ⟨request, step⟩ := awaited
  have hstep : s.awaiting.map Awaited.step = some step := by
    rw [hawait]
    rfl
  cases step with
  | claimAcquire a =>
    have hp : awaitedPermit s = some a.permitId := by rw [awaitedPermit, hstep]
    cases hs
    refine h.unlessDiscarded hp fun hhand => ?_
    split
    · exact Hand.acquisition (hhand.congr rfl rfl rfl rfl rfl)
    · exact hhand.notify.custody
  | claimRelease d =>
    have hp : awaitedPermit s = some d.permitId := by rw [awaitedPermit, hstep]
    cases hs
    refine h.unlessDiscarded hp fun hhand => ?_
    split
    · exact hhand.claimedRelease
    · exact hhand.notify.custody
  | claimRefuse permitId requestId =>
    have hp : awaitedPermit s = some permitId := by rw [awaitedPermit, hstep]
    cases hs
    refine h.unlessDiscarded hp fun hhand => ?_
    split
    · exact hhand.complete
    · exact hhand.notify.custody
  | complete permitId renewal result =>
    have hp : awaitedPermit s = some permitId := by rw [awaitedPermit, hstep]
    cases hs
    refine h.unlessDiscarded hp fun hhand => ?_
    split
    · exact hhand.applyCompletion.notify.custody
    · split
      · exact hhand.complete
      · exact hhand.notify.custody
  | promoteMutation d taskRef candidate =>
    have hidle := h.answered (by rw [awaitedPermit, hstep])
    unfold LeaseOwner.continueStep at hs
    dsimp only at hs
    split at hs
    · split at hs
      · exact ((hidle.send rfl).admitPromoted hs).custody
      · cases hs
        exact hidle.dismiss.custody
    · cases hs
      exact hidle.dismiss.custody
    · cases hs
      exact hidle.dismiss.custody
  | prepareResume d =>
    have hidle := h.answered (by rw [awaitedPermit, hstep])
    have hqueue : Idle (enqueueMutation { s with awaiting := none } d) :=
      hidle.congr rfl rfl waiting_enqueueMutation rfl rfl
    unfold LeaseOwner.continueStep at hs
    dsimp only at hs
    split at hs
    all_goals cases hs
    · exact (hidle.send rfl).custody
    · exact hqueue.custody
    · exact hqueue.custody
    · exact hqueue.custody
    · exact (hidle.send rfl).custody
    · exact (hidle.send rfl).custody
  | promoteResume d candidate =>
    have hidle := h.answered (by rw [awaitedPermit, hstep])
    unfold LeaseOwner.continueStep at hs
    dsimp only at hs
    split at hs
    · exact ((hidle.send rfl).admitPromoted hs).custody
    all_goals cases hs
    all_goals exact hidle.dismiss.custody
  | cancelPrepared =>
    cases hs
    exact (h.answered (by rw [awaitedPermit, hstep])).custody
  | prepareRetirement =>
    have hidle := h.answered (by rw [awaitedPermit, hstep])
    unfold LeaseOwner.continueStep at hs
    dsimp only at hs
    split at hs
    all_goals cases hs
    · have hsend := hidle.send (m := .leaseOwnerRetirementIntent s.refs) rfl
      refine Idle.custody ?_
      exact hsend.congr rfl rfl rfl rfl rfl
    · refine Idle.custody ?_
      exact hidle.congr rfl rfl rfl rfl rfl
    · exact hidle.custody

/-! ## discards -/

/-- A permit that waits in the deferred inputs, the waiters or the queue is dropped from where it waits. -/
theorem Custody.dropWaiting {operationRef : Ref} (h : Custody s) (hmem : p ∈ s.waiting)
    (ha : s'.awaiting = s.awaiting) (hd : s'.discarded = s.discarded) (ht : s'.transition = s.transition)
    (hl : s'.log = s.log) (hw : s'.waiting = s.waiting.filter (· ≠ p)) :
    Custody (s'.send (.leaseOwnerResolutionAck operationRef (.discard p) .discarded)) where
  kept := by
    have hasked : (s'.send (.leaseOwnerResolutionAck operationRef (.discard p) .discarded)).asked = s.asked := by
      simp only [State.asked, awaitedPermit, State.send, ha, hd]
    have hlog : (s'.send (.leaseOwnerResolutionAck operationRef (.discard p) .discarded)).tickets =
        .drop p :: s.tickets := by
      rw [tickets_send, State.tickets, hl]
      rfl
    have hnodup := h.kept.nodup
    have herase : s.asked + s.waiting = p ::ₘ (s.asked + s.waiting.filter (· ≠ p)) := by
      rw [← (Multiset.nodup_of_le (Multiset.le_add_left _ _) hnodup).erase_eq_filter, ← Multiset.add_cons,
        Multiset.cons_erase hmem]
    have hkept := h.kept
    rw [herase] at hkept
    rw [hasked, hlog]
    have hwait : (s'.send (.leaseOwnerResolutionAck operationRef (.discard p) .discarded)).waiting = s'.waiting := rfl
    rw [hwait, hw]
    exact hkept.drop
  discarded := by
    intro q hq
    have hq : q ∈ s'.discarded := hq
    rw [hd] at hq
    obtain ⟨h1, h2⟩ := h.discarded q hq
    refine ⟨?_, ?_⟩
    · simpa only [awaitedPermit, State.send, ha] using h1
    · rw [tickets_send, State.tickets, hl]
      exact List.mem_cons_of_mem _ h2
  transition := by
    intro t hmem' q hq
    have hmem' : t ∈ s'.transition := hmem'
    rw [ht] at hmem'
    rw [tickets_send, State.tickets, hl]
    exact h.transition t hmem' q hq

theorem filter_permits {α : Type} {f : α → Option OriginId} {xs : List α} :
    (xs.filter fun x => f x ≠ some p).filterMap f = (xs.filterMap f).filter (· ≠ p) := by
  induction xs with
  | nil => rfl
  | cons x xs ih =>
    rcases hx : f x with _ | q
    · rw [List.filter_cons_of_pos (by simp [hx]), List.filterMap_cons_none hx, List.filterMap_cons_none hx, ih]
    · by_cases hq : q = p
      · rw [List.filter_cons_of_neg (by simp [hx, hq]), List.filterMap_cons_some hx,
          List.filter_cons_of_neg (by simp [hq]), ih]
      · rw [List.filter_cons_of_pos (by simp [hx, hq]), List.filterMap_cons_some hx, List.filterMap_cons_some hx,
          List.filter_cons_of_pos (by simp [hq]), ih]

theorem filter_of_notMem {m : Multiset OriginId} (h : p ∉ m) : m.filter (· ≠ p) = m :=
  Multiset.filter_eq_self.2 fun _ hq heq => h (heq ▸ hq)

/-- A discard is answered. -/
theorem Custody.discard {operationRef : Ref} (h : Custody s) (hp : p ∈ handed s.tickets) :
    Custody ((applyDaemonResolution v s (.discard p)).2.send
      (.leaseOwnerResolutionAck operationRef (.discard p) (applyDaemonResolution v s (.discard p)).1)) := by
  have hnodup := h.kept.nodup
  unfold applyDaemonResolution
  dsimp only
  split
  next hawait =>
    -- the step that names the permit is awaited: its answer will be for nothing
    have hasked : ({ s with discarded := insert p s.discarded : State }.send
        (.leaseOwnerResolutionAck operationRef (.discard p) .discarded)).asked = 0 := by
      refine (asked_some (p := p) ?_).trans (if_pos (Finset.mem_insert_self _ _))
      exact hawait
    refine ⟨?_, ?_, ?_⟩
    · rw [hasked, zero_add, tickets_send]
      by_cases hmem : p ∈ s.discarded
      · have hkept := h.kept
        rw [asked_some hawait, if_pos hmem, zero_add] at hkept
        exact hkept.drop_again (h.discarded p hmem).2
      · have hkept := h.kept
        rw [asked_some hawait, if_neg hmem, Multiset.singleton_add] at hkept
        exact hkept.drop
    · intro q hq
      rw [tickets_send]
      rcases Finset.mem_insert.1 hq with rfl | hq
      · exact ⟨hawait, List.mem_cons_self ..⟩
      · exact ⟨(h.discarded q hq).1, List.mem_cons_of_mem _ (h.discarded q hq).2⟩
    · intro t ht q hq
      rw [tickets_send]
      exact h.transition t ht q hq
  next hawait =>
    split
    next hdef =>
      obtain ⟨input, hmem, hinput⟩ := List.any_eq_true.1 hdef
      have hpdef : p ∈ (s.deferred.filterMap Input.permitId? : Multiset OriginId) :=
        Multiset.mem_coe.2 (List.mem_filterMap.2 ⟨input, hmem, of_decide_eq_true hinput⟩)
      have hw : p ∈ s.waiting := Multiset.mem_add.2 (.inl (Multiset.mem_add.2 (.inl hpdef)))
      refine h.dropWaiting hw rfl rfl rfl rfl ?_
      have hn := Multiset.nodup_of_le (Multiset.le_add_left _ _) hnodup
      obtain ⟨hn₁, -, hdis₁⟩ := Multiset.nodup_add.1 hn
      obtain ⟨-, -, hdis₂⟩ := Multiset.nodup_add.1 hn₁
      have hnw : p ∉ (s.waiters.map Acquisition.permitId : Multiset OriginId) :=
        fun hmem' => Multiset.disjoint_left.1 hdis₂ hpdef hmem'
      have hnp : p ∉ (s.pendingOperations.filterMap Operation.permitId? : Multiset OriginId) :=
        fun hmem' => Multiset.disjoint_left.1 hdis₁ (Multiset.mem_add.2 (.inl hpdef)) hmem'
      change _ + _ + _ = Multiset.filter (· ≠ p) (_ + _ + _)
      rw [Multiset.filter_add, Multiset.filter_add, filter_of_notMem hnw, filter_of_notMem hnp, Multiset.filter_coe,
        ← filter_permits]
    next hdef =>
      have hndef : p ∉ (s.deferred.filterMap Input.permitId? : Multiset OriginId) := by
        intro hmem
        obtain ⟨input, hmem, hinput⟩ := List.mem_filterMap.1 (Multiset.mem_coe.1 hmem)
        exact hdef (List.any_eq_true.2 ⟨input, hmem, decide_eq_true hinput⟩)
      unfold discardQueued
      split
      next hqueued =>
        have hw : p ∈ s.waiting := by
          rcases hqueued with hany | hany
          · obtain ⟨a, hmem, ha⟩ := List.any_eq_true.1 hany
            exact Multiset.mem_add.2 (.inl (Multiset.mem_add.2 (.inr
              (Multiset.mem_coe.2 (List.mem_map.2 ⟨a, hmem, of_decide_eq_true ha⟩)))))
          · obtain ⟨o, hmem, ho⟩ := List.any_eq_true.1 hany
            exact Multiset.mem_add.2 (.inr (Multiset.mem_coe.2 (List.mem_filterMap.2 ⟨o, hmem, of_decide_eq_true ho⟩)))
        refine h.dropWaiting hw rfl rfl rfl rfl ?_
        change _ + _ + _ = Multiset.filter (· ≠ p) (_ + _ + _)
        rw [Multiset.filter_add, Multiset.filter_add, filter_of_notMem hndef, Multiset.filter_coe, Multiset.filter_coe,
          ← filter_permits, List.filter_map]
        rfl
      next hqueued =>
        have hnot : p ∉ s.asked + s.waiting := by
          rw [not_or] at hqueued
          intro hmem
          rcases Multiset.mem_add.1 hmem with hmem | hmem
          · rcases ha : awaitedPermit s with _ | q
            · rw [asked_none ha] at hmem
              exact Multiset.notMem_zero _ hmem
            · rw [asked_some ha] at hmem
              split at hmem
              · exact Multiset.notMem_zero _ hmem
              · rw [Multiset.mem_singleton] at hmem
                exact hawait (hmem ▸ ha)
          · rcases Multiset.mem_add.1 hmem with hmem | hmem
            · rcases Multiset.mem_add.1 hmem with hmem | hmem
              · exact hndef hmem
              · obtain ⟨a, ha, rfl⟩ := List.mem_map.1 (Multiset.mem_coe.1 hmem)
                exact hqueued.1 (List.any_eq_true.2 ⟨a, ha, decide_eq_true rfl⟩)
            · obtain ⟨o, ho, hpermit⟩ := List.mem_filterMap.1 (Multiset.mem_coe.1 hmem)
              exact hqueued.2 (List.any_eq_true.2 ⟨o, ho, decide_eq_true hpermit⟩)
        split
        next ht =>
          obtain ⟨t, htr, htp⟩ := Option.bind_eq_some_iff.1 ht
          have ha := h.transition t htr p htp
          refine ⟨?_, ?_, ?_⟩
          · rw [tickets_send]
            exact h.kept.late ha
          · intro q hq
            rw [tickets_send]
            exact h.discarded q hq
          · intro t' ht' q hq
            rw [tickets_send]
            exact h.transition t' ht' q hq
        · refine ⟨?_, ?_, ?_⟩
          · rw [tickets_send]
            exact h.kept.miss hp hnot
          · intro q hq
            rw [tickets_send]
            exact h.discarded q hq
          · intro t' ht' q hq
            rw [tickets_send]
            exact h.transition t' ht' q hq

/-- A resolution of a transition is answered. -/
theorem Custody.resolution {operationRef : Ref} {r : Resolution} (h : Custody s) (hr : ∀ p, r ≠ .discard p) :
    Custody ((applyDaemonResolution v s r).2.send
      (.leaseOwnerResolutionAck operationRef r (applyDaemonResolution v s r).1)) := by
  have hm : ∀ answer, Mark.entry? (.sent (.leaseOwnerResolutionAck operationRef r answer)) = none := by
    intro answer
    cases r with
    | discard p => exact absurd rfl (hr p)
    | _ => rfl
  have hresolved : ∀ s' : State, awaitedPermit s' = awaitedPermit s → s'.discarded = s.discarded →
      s'.waiting = s.waiting → s'.tickets = s.tickets → s'.transition = none → Custody s' := by
    intro s' ha hd hw hl ht
    have hasked : s'.asked = s.asked := by rw [State.asked, ha, hd, State.asked]
    refine ⟨?_, ?_, ?_⟩
    · rw [hasked, hw, hl]
      exact h.kept
    · rw [ha, hd, hl]
      exact h.discarded
    · rw [ht]
      exact nofun
  cases r with
  | discard p => exact absurd rfl (hr p)
  | grant ref grantedAt =>
    unfold applyDaemonResolution
    dsimp only
    split
    · split
      · cases grantedAt with
        | none =>
          refine Custody.send ?_ (hm _)
          exact hresolved _ rfl rfl rfl rfl rfl
        | some grantedAt =>
          refine Custody.send ?_ (hm _)
          exact hresolved _ rfl rfl rfl rfl rfl
      · exact h.send (hm _)
    · exact h.send (hm _)
  | release ref released =>
    unfold applyDaemonResolution
    dsimp only
    split
    · split
      · cases released with
        | false =>
          refine Custody.send ?_ (hm _)
          exact hresolved _ rfl rfl rfl rfl rfl
        | true =>
          refine Custody.send ?_ (hm _)
          exact hresolved _ rfl rfl rfl rfl rfl
      · exact h.send (hm _)
    · exact h.send (hm _)
  | expiry ref =>
    unfold applyDaemonResolution
    dsimp only
    split
    · split
      · refine Custody.send ?_ (hm _)
        exact hresolved _ rfl rfl rfl rfl rfl
      · exact h.send (hm _)
    · exact h.send (hm _)

/-! ## messages -/

/-- An input without a permit is taken, or deferred. -/
theorem Custody.acceptInput {input : Input} (h : Custody s) (hp : input.permitId? = none) :
    Custody (acceptInput v s input) := by
  rw [LeaseOwner.acceptInput]
  split
  next hnone =>
    have hcustody := Idle.input (v := v) (h.idle (Option.isNone_iff_eq_none.1 hnone)) hp
    exact hcustody.congr rfl rfl rfl rfl rfl
  · refine h.congr rfl rfl ?_ rfl rfl
    simp only [State.waiting, List.filterMap_append, List.filterMap_cons, hp, List.filterMap_nil, List.append_nil]

/-- An input with a permit that is new is taken, or deferred. -/
theorem Custody.takePermit {input : Input} (h : Custody s) (hp : input.permitId? = some p)
    (hnew : p ∉ handed s.tickets) : Custody (LeaseOwner.acceptInput v { s with log := .took p :: s.log } input) := by
  rw [LeaseOwner.acceptInput]
  split
  next hnone =>
    have hidle := h.idle (Option.isNone_iff_eq_none.1 hnone)
    have hhand : Hand p { s with log := .took p :: s.log } :=
      ⟨hidle.awaiting, hidle.discarded, hidle.kept.hand hnew, hidle.transition⟩
    exact (hhand.input (v := v) hp).congr rfl rfl rfl rfl rfl
  · refine ⟨?_, h.discarded, h.transition⟩
    have hw : { s with deferred := s.deferred ++ [input], log := .took p :: s.log : State }.waiting =
        p ::ₘ s.waiting := by
      simp only [State.waiting, List.filterMap_append, List.filterMap_cons, hp, List.filterMap_nil, ← Multiset.coe_add,
        Multiset.coe_singleton, ← Multiset.singleton_add]
      abel
    have hkept := h.kept.hand hnew
    rw [← Multiset.add_cons] at hkept
    rw [hw]
    exact hkept

theorem Custody.drained (h : Custody s) : Custody s.drained := h.congr rfl rfl rfl rfl rfl

theorem Custody.changeMutation {originId : OriginId} {mutation : InFlight} (h : Custody s) :
    Custody (changeMutation s originId mutation) := by
  have hinsert : Custody { s with inFlight := s.inFlight.insert originId mutation } := h.congr rfl rfl rfl rfl rfl
  exact hinsert.settle.drained

/-- The daemon hands a permit over once, and discards a permit that it handed over. -/
def Fair (s : State) : Event → Prop
  | .request (.input input) => ∀ p ∈ input.permitId?, p ∉ handed s.tickets
  | .daemonLeaseResolution _ (.discard p) => p ∈ handed s.tickets
  | _ => True

theorem handle_resolution {operationRef : Ref} {r : Resolution} : handle v s (.daemonLeaseResolution operationRef r) =
    some ((applyDaemonResolution v s r).2.send
      (.leaseOwnerResolutionAck operationRef r (applyDaemonResolution v s r).1)).drained := rfl

theorem Custody.acceptRequest {request : Request} (h : Custody s) (hfair : Fair s (.request request)) :
    Custody (acceptRequest v s request) := by
  cases request with
  | activate =>
    unfold LeaseOwner.acceptRequest
    dsimp only
    split
    · exact h.congr rfl rfl rfl rfl rfl
    · exact h
  | attachment ackRef opened connection incarnation attachmentId =>
    have hchange : Custody { s with
        attachments := changeAttachment s.attachments opened (connection, incarnation, attachmentId) } :=
      h.congr rfl rfl rfl rfl rfl
    cases ackRef with
    | none => exact hchange
    | some ref => exact hchange.send rfl
  | input input =>
    unfold LeaseOwner.acceptRequest
    dsimp only
    split
    next p hp => exact h.takePermit hp (hfair p hp)
    next hp => exact h.acceptInput hp

theorem Custody.handle {e : Event} (h : Custody s) (hfair : Fair s e) (hs : handle v s e = some s') : Custody s' := by
  cases e with
  | mutate call =>
    unfold LeaseOwner.handle at hs
    dsimp only at hs
    split at hs
    · split at hs
      all_goals cases hs
      · exact Custody.drained (h.congr rfl rfl waiting_enqueueMutation rfl rfl)
      · exact h.send rfl
    · cases hs
      exact h.send rfl
  | resume call =>
    unfold LeaseOwner.handle at hs
    dsimp only at hs
    split at hs
    · split at hs
      all_goals cases hs
      · exact h.acceptInput rfl
      · exact h.send rfl
    · cases hs
      exact h.send rfl
  | request request =>
    cases hs
    exact h.acceptRequest hfair
  | answered request response =>
    unfold LeaseOwner.handle at hs
    dsimp only at hs
    split at hs
    next awaited hawait =>
      split at hs
      · obtain ⟨s₁, hs₁, rfl⟩ := Option.map_eq_some_iff.1 hs
        exact (h.continueStep hawait hs₁).drained
      · cases hs
        exact h
    · cases hs
      exact h
  | requestUnanswered request =>
    unfold LeaseOwner.handle at hs
    dsimp only at hs
    split at hs
    all_goals cases hs
    · exact h.send rfl
    · exact h
  | daemonLeaseResolution operationRef resolution =>
    rw [handle_resolution, Option.some.injEq] at hs
    subst hs
    refine Custody.drained ?_
    by_cases hr : ∃ p, resolution = .discard p
    · obtain ⟨p, rfl⟩ := hr
      exact h.discard hfair
    · exact h.resolution fun p hp => hr ⟨p, hp⟩
  | leaseExpiry token deadline =>
    unfold LeaseOwner.handle at hs
    dsimp only at hs
    split at hs
    · cases hs
      refine Custody.drained ?_
      split
      · exact h.congr rfl rfl rfl rfl rfl
      · exact h.congr rfl rfl rfl rfl rfl
    · cases hs
      exact h
  | relayOwnerIdle =>
    cases hs
    exact h.acceptInput rfl
  | acquireDeadline permitId deadline =>
    cases hs
    exact h.acceptInput rfl
  | leaseMutationClassified taskRef originId disposition =>
    unfold LeaseOwner.handle at hs
    dsimp only at hs
    split at hs
    · split at hs
      all_goals cases hs
      · exact h.changeMutation
      · exact h
    · cases hs
      exact h
  | relayLeaseTicketSettled originId =>
    unfold LeaseOwner.handle at hs
    dsimp only at hs
    split at hs
    · split at hs
      all_goals cases hs
      · exact h
      · exact h.changeMutation
    · cases hs
      exact h
  | registryResumeSettled originId disposition =>
    unfold LeaseOwner.handle at hs
    dsimp only at hs
    split at hs
    · split at hs
      all_goals cases hs
      · exact h.changeMutation
      · exact h
    · cases hs
      exact h
  | workerDown monitor worker =>
    unfold LeaseOwner.handle at hs
    dsimp only at hs
    split at hs
    next d remaining hpart =>
      split at hs
      · cases hs
        have hlost : Custody { s.send (.reply d.caller .ticketUnavailable) with pendingOperations := remaining } := by
          refine (h.send (m := .reply d.caller .ticketUnavailable) rfl).congr rfl rfl ?_ rfl rfl
          rw [List.partition_eq_filter_filter, Prod.mk.injEq] at hpart
          have hperm := List.filter_append_perm (fun o : Operation => o.watchedBy monitor) s.pendingOperations
          rw [hpart.1] at hperm
          have hrest : (remaining.filterMap Operation.permitId? : Multiset OriginId) =
              s.pendingOperations.filterMap Operation.permitId? := by
            rw [← hpart.2]
            exact Multiset.coe_eq_coe.2 (hperm.filterMap Operation.permitId?)
          change _ + _ + _ = _ + _ + (_ : Multiset OriginId)
          rw [hrest]
          rfl
        refine Custody.drained ?_
        split
        · exact hlost.acceptInput rfl
        · exact hlost
      · cases hs
        exact h
    · cases hs
      exact h
  | drain => cases hs

theorem Custody.step {e : Event} (h : Custody s) (hfair : Fair s e) (hs : step v s e = some s') : Custody s' := by
  unfold LeaseOwner.step at hs
  split at hs
  · split at hs
    · cases hs
      exact h.drain
    · cases hs
  · exact h.handle hfair hs

theorem Custody.init {attachments : List (Pid × Bytes × Bytes)} : Custody (init attachments) where
  kept := Kept.empty
  discarded := fun p hp => absurd hp (Finset.notMem_empty p)
  transition := nofun

theorem custody_run {attachments : List (Pid × Bytes × Bytes)} {events : List Event}
    (h : Run (Guarded (fun s e s' => step v s e = some s') Fair) (init attachments) events s) : Custody s :=
  h.invariant Custody.init fun _ _ _ hc hs => hc.step hs.2 hs.1

/-- **Every permit is answered once.**  In a run in which the daemon hands over fresh permits, and discards
permits that it handed over: a permit has one terminal message at most, a proposal or a notice, and none once it is
discarded; a discard answered `:proposed` finds it sent, one answered `:absent` finds it sent or the permit
discarded already; and with nothing awaited and no transition, a permit without a terminal message that is not
discarded is in one place. -/
theorem permits_answered_once {attachments : List (Pid × Bytes × Bytes)} {events : List Event}
    (h : Run (Guarded (fun s e s' => step v s e = some s') Fair) (init attachments) events s) :
    (answered s.tickets).Nodup ∧
      (∀ later earlier p, s.tickets = later ++ .drop p :: earlier → p ∉ answered later) ∧
      (∀ later earlier p, s.tickets = later ++ .late p :: earlier → p ∈ answered earlier) ∧
      (∀ later earlier p, s.tickets = later ++ .miss p :: earlier → p ∈ answered earlier ∨ p ∈ dropped earlier) ∧
      (s.awaiting = none → s.transition = none → ∀ p ∈ handed s.tickets,
        (p ∈ answered s.tickets ∧ p ∉ dropped s.tickets ∧ s.waiting.count p = 0) ∨
          (p ∉ answered s.tickets ∧ p ∈ dropped s.tickets ∧ s.waiting.count p = 0) ∨
          (p ∉ answered s.tickets ∧ p ∉ dropped s.tickets ∧ s.waiting.count p = 1)) := by
  have hcustody := custody_run h
  have hproper := hcustody.kept.proper
  refine ⟨hproper.answered_nodup, ?_, ?_, ?_, ?_⟩
  · intro later earlier p heq
    rw [heq] at hproper
    exact hproper.silent
  · intro later earlier p heq
    rw [heq] at hproper
    exact hproper.append.1
  · intro later earlier p heq
    rw [heq] at hproper
    exact hproper.append.1
  · intro hnone _ p hp
    have hkept := (hcustody.idle hnone).kept
    have hout : p ∈ answered s.tickets ∨ p ∈ dropped s.tickets → s.waiting.count p = 0 := by
      intro hor
      refine Multiset.count_eq_zero.2 fun hmem => ?_
      obtain ⟨-, h1, h2⟩ := hkept.waits p hmem
      exact hor.elim h1 h2
    rcases hkept.whole p hp with hmem | ha | hd
    · obtain ⟨-, h1, h2⟩ := hkept.waits p hmem
      exact .inr (.inr ⟨h1, h2, Multiset.count_eq_one_of_mem hkept.nodup hmem⟩)
    · exact .inl ⟨ha, fun hd => hproper.not_answered hd ha, hout (.inl ha)⟩
    · exact .inr (.inl ⟨hproper.not_answered hd, hd, hout (.inr hd)⟩)

end

/-! ## a permit that is discarded twice -/

/-- A term of half a minute, and a clock that moves on with each reading. -/
def steady : Setting where
  monotonicMs := fun n => n
  monotone := fun _ _ h => Int.ofNat_le.2 h
  strongRandBytes := fun _ => List.replicate 16 7
  leaseTermMs := 30000
  validTerm := by decide

def incarnationOf (b : UInt8) : Bytes := List.replicate 16 b

def firstPermit : OriginId := ⟨incarnationOf 1, 0, 1⟩

def secondPermit : OriginId := ⟨incarnationOf 1, 1, 2⟩

/-- A connection acquires; it acquires again while the grant is proposed, which queues; the second permit is
discarded, and discarded again. -/
def discardedTwice : List Event :=
  [.request .activate, .drain, .request (.input (.firstAcquire ⟨firstPermit, [1], 5, incarnationOf 1, 60000⟩)), .drain,
    .request (.input (.acquire ⟨secondPermit, [2], 5, incarnationOf 1, 60000⟩)), .drain,
    .answered 1 (.reply .ok), .drain, .daemonLeaseResolution 0 (.discard secondPermit), .drain,
    .daemonLeaseResolution 1 (.discard secondPermit)]

instance (s : State) : ∀ e, Decidable (Fair s e)
  | .request (.input input) => inferInstanceAs (Decidable (∀ p ∈ input.permitId?, p ∉ handed s.tickets))
  | .daemonLeaseResolution _ (.discard p) => inferInstanceAs (Decidable (p ∈ handed s.tickets))
  | .daemonLeaseResolution _ (.grant ..) | .daemonLeaseResolution _ (.release ..) | .daemonLeaseResolution _ (.expiry _)
  | .request .activate | .request (.attachment ..) | .mutate _ | .resume _ | .answered .. | .requestUnanswered _
  | .leaseExpiry .. | .relayOwnerIdle | .acquireDeadline .. | .leaseMutationClassified .. | .relayLeaseTicketSettled _
  | .registryResumeSettled .. | .workerDown .. | .drain => isTrue trivial

/-- A step that is fair, computed. -/
def fairStep (v : Setting) (s : State) (e : Event) : Option State := if Fair s e then step v s e else none

theorem run_of_fairStep {v : Setting} {s t : State} {events : List Event} (h : events.foldlM (fairStep v) s = some t) :
    Run (Guarded (fun s e s' => step v s e = some s') Fair) s events t := by
  refine (Run.of_foldlM h).mono fun s e s' hs => ?_
  rw [fairStep] at hs
  split at hs
  next hfair => exact ⟨hs, hfair⟩
  · cases hs

theorem tickets_discardedTwice : (discardedTwice.foldlM (fairStep steady) (init [])).map State.tickets =
    some [.miss secondPermit, .drop secondPermit, .hand secondPermit, .answer firstPermit, .hand firstPermit] := by
  decide

theorem permits_answered_once_discardedTwice : ∃ s, discardedTwice.foldlM (fairStep steady) (init []) = some s ∧
    (answered s.tickets).Nodup ∧ (s.awaiting = none → s.transition = none → ∀ p ∈ handed s.tickets,
      (p ∈ answered s.tickets ∧ p ∉ dropped s.tickets ∧ s.waiting.count p = 0) ∨
        (p ∉ answered s.tickets ∧ p ∈ dropped s.tickets ∧ s.waiting.count p = 0) ∨
        (p ∉ answered s.tickets ∧ p ∉ dropped s.tickets ∧ s.waiting.count p = 1)) := by
  obtain ⟨s, hs, -⟩ := Option.map_eq_some_iff.1 tickets_discardedTwice
  obtain ⟨hnodup, -, -, -, hplaces⟩ := permits_answered_once (run_of_fairStep hs)
  exact ⟨s, hs, hnodup, hplaces⟩

/-- The second discard is answered `:absent`, and the permit has no terminal message. -/
theorem absent_unanswered : ¬ ∀ (v : Setting) (attachments : List (Pid × Bytes × Bytes)) (events : List Event) (s : State),
    Run (Guarded (fun s e s' => step v s e = some s') Fair) (init attachments) events s →
      ∀ later earlier p, s.tickets = later ++ .miss p :: earlier → p ∈ answered earlier := by
  intro h
  obtain ⟨s, hs, htickets⟩ := Option.map_eq_some_iff.1 tickets_discardedTwice
  have hmem := h steady [] discardedTwice s (run_of_fairStep hs) [] _ secondPermit htickets
  revert hmem
  decide

end Loopex.Daemon.LeaseOwner
