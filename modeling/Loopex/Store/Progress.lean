import Loopex.Store.Step

/-!
# What is admitted

Under its guards a transaction is committed: each lemma presents one transaction, as its builder writes it,
and names the state it reaches.

* `presents_of_linearize` — what a builder builds is presented;
* `presents_claim`, `presents_reserve`, `presents_create` — creation custody;
* `presents_stage`, `presents_succeed`, `presents_resume`, `presents_commit` — the owners of a session.
-/

namespace Loopex.Store

open Loopex.Erlang Loopex.Erlang.Term Loopex.Runtime Loopex.System

variable {access : StructAccess} {fuel : ℕ} {S S' : State} {T : Transaction}

/-- What a builder builds and nothing was retained for is linearized. -/
theorem presents_of_linearize (fuel : ℕ) (hT : build T.body = .ok T)
    (hc : T.body.Checks (verdictOf T.entries)) (hn : S.retainedResolution T.body.scope = none)
    (hl : ∃ frame outcome, linearize fuel S T (.map T.entries) = .ok (.new S' frame outcome)) :
    Presents access S T.entries S' := by
  obtain ⟨frame, outcome, hl⟩ := hl
  refine ⟨fuel, frame, outcome, ?_⟩
  rw [prepare_of_validate (validateTransaction_entries hT hc), hn]
  exact hl

/-- A claim of the current generation within the maximum. -/
theorem presents_claim {t : ClaimCreationDomain} (hb : T.body = .claimCreationDomain t)
    (hT : build T.body = .ok T) (hn : S.retainedResolution T.body.scope = none)
    (hg : (S.creationHead t.runtimeId).ownerGeneration = t.expectedOwnerGeneration)
    (hm : (S.creationHead t.runtimeId).ownerGeneration ≤ (S.creationHead t.runtimeId).maximum) :
    Presents access S T.entries
      (S.claimed T t.runtimeId ((S.creationHead t.runtimeId).claim t.ownerSelection)) := by
  refine presents_of_linearize 0 hT (by rw [hb]; trivial) hn ⟨?frame, ?outcome, ?commit⟩
  case commit =>
    simp only [linearize, hb, linearizeClaim, if_neg (not_not.2 hg), if_neg (Nat.not_lt.2 hm)]
    rfl

/-- A reservation by the current owner of an idle head. -/
theorem presents_reserve {t : ReserveCreation} (head : Head) (hb : T.body = .reserveCreation t)
    (hT : build T.body = .ok T) (hn : S.retainedResolution T.body.scope = none)
    (hh : S.creationHead t.runtimeId = head) (he : creationEligibility head t.claimant = none)
    (hi : head.activeCommandId = none) (hcap : S.creationCapsules.lookup (t.runtimeId, t.commandId) = none)
    (hcmd : S.runtimeCommands.lookup (t.runtimeId, t.commandId) = none)
    (hg : head.ownerGeneration ≤ creationUint64 - 2) (hv : head.domainVersion ≤ creationUint64 - 2)
    (hf : prospectiveRecoveryFits t.runtimeId (head.advance (some t.commandId)) (reserveCapsule t) = true) :
    Presents access S T.entries (S.reserved T t (head.advance (some t.commandId))) := by
  refine presents_of_linearize 0 hT (by rw [hb]; trivial) hn ⟨?frame, ?outcome, ?commit⟩
  case commit =>
    have hlimits : ¬ (head.ownerGeneration > creationUint64 - 2 ∨
        head.domainVersion > creationUint64 - 2) := by omega
    simp only [linearize, hb, linearizeReserve, hh, he, hi, hcap, hcmd, hf, hlimits, ne_eq, not_true_eq_false,
      Option.isSome_none, Bool.false_eq_true, or_self, if_false, Bool.not_true]
    rfl

/-- The create of a reserved capsule, when the first id it tries is free. -/
theorem presents_create {t : CreateSession} {head : Head} {c : Capsule} {id : Identifier} {number : ℕ}
    (hb : T.body = .createSession t) (hT : build T.body = .ok T)
    (hn : S.retainedResolution T.body.scope = none) (hh : S.creationHead t.runtimeId = head)
    (hcap : S.creationCapsules.lookup (t.runtimeId, t.commandId) = some c)
    (hof : capsuleOf S head c t.runtimeId t.commandId = .ok true) (hs : c.state = .reserved)
    (hgen : looseEq c.genesis t.genesis = true) (hg : head.ownerGeneration ≤ creationUint64 - 1)
    (hv : head.domainVersion ≤ creationUint64 - 1) (hnum : S.nextSessionNumber = number)
    (hid : id = sessionIdOf t.runtimeId t.commandId number) (hfree : S.taken id = false) :
    Presents access S T.entries (S.created T t c id number) := by
  subst hid
  refine presents_of_linearize 1 hT (by rw [hb]; trivial) hn ⟨?frame, ?outcome, ?commit⟩
  case commit =>
    have hlimits : ¬ (head.ownerGeneration > creationUint64 - 1 ∨
        head.domainVersion > creationUint64 - 1) := by omega
    simp only [linearize, hb, linearizeCreate, hcap, hh, hof, hs, hgen, hlimits, commitCreatedSession,
      allocateSessionId, hnum, hfree, bind, Except.bind, Bool.not_true, Bool.false_eq_true, if_false, ne_eq,
      not_true_eq_false, decide_false, Bool.or_self]
    rw [State.created, hh]

/-- A staging that is not refused. -/
theorem presents_stage {t : StageOwnerAttempt} {session : Session} (hb : T.body = .stageOwnerAttempt t)
    (hT : build T.body = .ok T) (hc : T.body.Checks (verdictOf T.entries))
    (hn : S.retainedResolution T.body.scope = none) (hl : S.sessions.lookup t.sessionId = some session)
    (ha : stageRefusal S session t = .ok none) :
    Presents access S T.entries
      ((S.putSession t.sessionId (session.stage T t)).putRuntimeCommand t.command.runtimeId
        t.command.commandId (State.stagedEntry t)) := by
  refine presents_of_linearize 0 hT hc hn ⟨?frame, ?outcome, ?commit⟩
  case commit =>
    simp only [linearize, hb, linearizeStage, hl, ha, bind, Except.bind]
    rfl

/-- A succession that serves no command. -/
theorem presents_succeed {t : AdvanceOwner} {session : Session} (hb : T.body = .advanceOwner t)
    (hT : build T.body = .ok T) (hn : S.retainedResolution T.body.scope = none)
    (hl : S.sessions.lookup t.sessionId = some session) (ha : successionRefusal S session T t = .ok none)
    (hcmd : t.command = none) :
    Presents access S T.entries (S.putSession t.sessionId (session.succeed T t)) := by
  refine presents_of_linearize 0 hT (by rw [hb]; trivial) hn ⟨?frame, ?outcome, ?commit⟩
  case commit =>
    simp only [linearize, hb, linearizeAdvance, hl, ha, commitSuccession, hcmd, bind, Except.bind]
    rfl

/-- A succession that serves a staged command. -/
theorem presents_resume {t : AdvanceOwner} {session : Session} {c : SuccessionCommand} {command : OwnerCommand}
    {status : CommandStatus} {generation : ℕ} {candidate : Term} {result : Option Identifier}
    (hb : T.body = .advanceOwner t) (hT : build T.body = .ok T)
    (hn : S.retainedResolution T.body.scope = none) (hl : S.sessions.lookup t.sessionId = some session)
    (ha : successionRefusal S session T t = .ok none) (hcmd : t.command = some c)
    (hentry : S.runtimeCommands.lookup (c.runtimeId, c.commandId) =
      some (.staged command status generation candidate result)) :
    Presents access S T.entries
      ((S.putSession t.sessionId (session.succeed T t)).putRuntimeCommand c.runtimeId c.commandId
        (.staged command .completed generation candidate (some t.sessionId))) := by
  refine presents_of_linearize 0 hT (by rw [hb]; trivial) hn ⟨?frame, ?outcome, ?commit⟩
  case commit =>
    simp only [linearize, hb, linearizeAdvance, hl, ha, commitSuccession, hcmd, State.putSession, hentry, bind,
      Except.bind]
    rfl

/-- A commit by the owner of a session. -/
theorem presents_commit {t : SessionCommit} {session : Session} (hb : T.body = .sessionCommit t)
    (hT : build T.body = .ok T) (hc : T.body.Checks (verdictOf T.entries))
    (hn : S.retainedResolution T.body.scope = none) (hl : S.sessions.lookup t.sessionId = some session)
    (ha : ordinaryRefusal session t = none) :
    Presents access S T.entries (S.putSession t.sessionId (session.append T t)) := by
  refine presents_of_linearize 0 hT hc hn ⟨?frame, ?outcome, ?commit⟩
  case commit =>
    simp only [linearize, hb, linearizeCommit, hl, ha]
    rfl

end Loopex.Store
