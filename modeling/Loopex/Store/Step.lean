import Loopex.Store.State
import Loopex.System.Run

/-!
# What a new transaction does

`prepare` answers that a transaction is new in thirteen ways.  `Moves` lists them with their guards, and
`prepare_new` reduces every new answer to one of them; the invariants of the Store are proved by cases on
`Moves`.

* `scopeOf_of_validate` — a valid transaction is looked up under its own scope;
* `Moves` — the transitions, each with what it changes and stamps;
* `prepare_new` — **every new answer is one of the transitions**;
* `Presents`, `Reachable` — one presentation, and the states that presentations reach.
-/

namespace Loopex.Store

open Loopex.Erlang Loopex.Erlang.Term Loopex.Runtime Loopex.System

variable {access : StructAccess} {fuel : ℕ} {S S' : State} {kvs : List (Term × Term)} {raw : Term}
  {T : Transaction} {p : Prepared}

/-! ## attempts -/

theorem Attempt.bind_eq_ok {α β : Type} {c : Attempt α} {f : α → Attempt β} {b : β} :
    (c >>= f) = .ok b ↔ ∃ a, c = .ok a ∧ f a = .ok b :=
  Erlang.Except.bind_eq_ok

/-! ## the scope of a valid transaction -/

@[simp] theorem asIdentifier_eq_some {t : Term} {id : Identifier} :
    asIdentifier t = some id ↔ t = id.term := by
  unfold asIdentifier
  rw [show id.term = .binary id.bytes from rfl, ← validateIdentifier_eq_ok]
  cases validateIdentifier t <;> simp [Except.toOption]

@[simp] theorem asIdentifier_term (id : Identifier) : asIdentifier id.term = some id :=
  asIdentifier_eq_some.2 rfl

/-- A map read as a transaction holds the transaction's fields. -/
theorem lookup_of_validate (h : validateTransaction (.map kvs) = .ok T) {f : String × Term}
    (hf : f ∈ T.body.fields) : lookup (sym f.1) kvs = some f.2 := by
  rw [validateTransaction] at h
  obtain ⟨type, fs, hs, -, hb, -⟩ := validateMap_eq_ok.1 h
  rw [(validateFields_fields hs hb).2] at hf
  exact (semanticFields_eq_ok.1 hs).2.2.2 f hf

theorem typeOf_of_validate (h : validateTransaction (.map kvs) = .ok T) :
    typeOf kvs = some T.body.type := by
  rw [validateTransaction] at h
  obtain ⟨type, fs, hs, -, hb, -⟩ := validateMap_eq_ok.1 h
  rw [(validateFields_fields hs hb).1]
  exact (semanticFields_eq_ok.1 hs).1

/-- A transaction has no key outside its fields. -/
theorem key_of_validate (h : validateTransaction (.map kvs) = .ok T) {k v : Term}
    (hk : lookup k kvs = some v) :
    ∃ name ∈ T.body.type.fieldNames T.body.owned ++ canonicalFieldNames, k = sym name := by
  rw [validateTransaction] at h
  obtain ⟨type, fs, hs, hx, hb, -⟩ := validateMap_eq_ok.1 h
  rw [exactKeys, Bool.and_eq_true] at hx
  have hmem := List.all_eq_true.1 hx.1 _ (lookup_eq_some hk)
  obtain ⟨name, hn, rfl⟩ := List.mem_map.1 (of_decide_eq_true hmem)
  refine ⟨name, ?_, rfl⟩
  rwa [← T.body.fields_names, (validateFields_fields hs hb).2]

/-- What is checked of a body was checked of the one read. -/
theorem checks_of_validate (h : validateTransaction (.map kvs) = .ok T) : T.body.Checks (verdictOf kvs) := by
  rw [validateTransaction] at h
  obtain ⟨type, fs, -, -, hb, -⟩ := validateMap_eq_ok.1 h
  exact (validateFields_eq_ok.1 hb).2.2.2

/-- The canonical fields are binaries. -/
theorem canonical_of_validate (h : validateTransaction (.map kvs) = .ok T) :
    ∀ name ∈ canonicalFieldNames, ∃ b, lookup (sym name) kvs = some (.binary b) := by
  rw [validateTransaction] at h
  obtain ⟨type, fs, -, -, -, -, hbytes, hdigest, -⟩ := validateMap_eq_ok.1 h
  intro name hn
  simp only [canonicalFieldNames, List.mem_cons, List.not_mem_nil, or_false] at hn
  rcases hn with rfl | rfl
  · exact ⟨_, hbytes⟩
  · exact ⟨_, hdigest⟩

theorem not_struct_of_validate (h : validateTransaction (.map kvs) = .ok T) :
    lookup (sym "__struct__") kvs = none := by
  by_contra hne
  obtain ⟨v, hv⟩ := Option.ne_none_iff_exists'.1 hne
  obtain ⟨name, hn, he⟩ := key_of_validate h hv
  have key : ∀ type owned, ∀ name ∈ TransactionType.fieldNames type owned ++ canonicalFieldNames,
      sym "__struct__" ≠ sym name := by
    intro type owned
    cases type <;> cases owned <;> decide +kernel
  exact key _ _ name hn he

/-- The fields a scope is read from. -/
def Scope.fields : Scope → Fields
  | creation r _ t => [("runtime_id", r.term), ("tx_id", t.term)]
  | command r c => [("runtime_id", r.term), ("command_id", c.term)]
  | session s d t => [("session_id", s.term), ("mutation_domain", d.term), ("tx_id", t.term)]

theorem Body.scope_fields (b : Body) : ∀ f ∈ b.scope.fields, f ∈ b.fields := by
  cases b <;> simp [scope, Scope.fields, fields, values, type, TransactionType.fieldNames]

/-- A plain map with the fields of a transaction is looked up under its scope. -/
theorem scopeOf_of_fields {b : Body} (hf : ∀ f ∈ b.fields, lookup (sym f.1) kvs = some f.2)
    (ht : typeOf kvs = some b.type) (hs : lookup (sym "__struct__") kvs = none) :
    scopeOf access kvs = .ok (.at b.scope) := by
  have hget : ∀ f ∈ b.scope.fields, lookup (sym f.1) kvs = some f.2 :=
    fun f hmem => hf f (b.scope_fields f hmem)
  have hbin : ∀ id : Identifier, isBinaryOption (some id.term) = true := fun _ => rfl
  have haccess : ∀ key, accessField access kvs key = .ok ((lookup (sym key) kvs).getD nil) :=
    fun _ => by simp [accessField, hs]
  unfold scopeOf
  rw [ht]
  cases b with
  | createSession t =>
    have h1 := hget ("runtime_id", t.runtimeId.term) (by simp [Body.scope, Scope.fields])
    have h2 := hget ("command_id", t.commandId.term) (by simp [Body.scope, Scope.fields])
    simp only [Body.type, haccess, h1, h2]
    simp [Body.scope, bind, Except.bind]
  | claimCreationDomain t | reserveCreation t | closeCreationReservation t =>
    have h1 := hget ("runtime_id", t.runtimeId.term) (by simp [Body.scope, Scope.fields])
    have h2 := hget ("tx_id", t.txId.term) (by simp [Body.scope, Scope.fields])
    simp [Body.scope, Body.type, TransactionType.isCreation, h1, h2, hbin]
  | stageOwnerAttempt t | advanceOwner t | sessionCommit t =>
    have h1 := hget ("session_id", t.sessionId.term) (by simp [Body.scope, Scope.fields])
    have h2 := hget ("mutation_domain", t.mutationDomain.term) (by simp [Body.scope, Scope.fields])
    have h3 := hget ("tx_id", t.txId.term) (by simp [Body.scope, Scope.fields])
    simp [Body.scope, Body.type, TransactionType.isCreation, h1, h2, h3, hbin]

/-- **A valid transaction is looked up under its own scope.** -/
theorem scopeOf_of_validate (h : validateTransaction (.map kvs) = .ok T) :
    scopeOf access kvs = .ok (.at T.body.scope) :=
  scopeOf_of_fields (fun _ => lookup_of_validate h) (typeOf_of_validate h) (not_struct_of_validate h)

/-- A transaction is looked up under its own scope, whatever its bytes and digest. -/
theorem scopeOf_entries (T : Transaction) : scopeOf access T.entries = .ok (.at T.body.scope) := by
  obtain ⟨ht, -, -, hf⟩ := semanticFields_eq_ok.1 (semanticFields_entries (T := T))
  refine scopeOf_of_fields hf ht ?_
  have hno : ¬ hasKey (sym "__struct__") T.entries = true :=
    fun hk => (names_apart _ _).2 ((T.hasKey_entries _).1 hk)
  simpa [hasKey] using hno

/-! ## presenting a valid transaction -/

theorem resolveKnown_eq_ok {entry : Entry} (h : resolveKnown entry kvs = .ok p) :
    ∃ outcome, p = .known outcome := by
  unfold resolveKnown at h
  split at h
  · cases h
  · exact ⟨_, (Except.ok.inj h).symm⟩
  · split at h
    · exact ⟨_, (Except.ok.inj h).symm⟩
    · split at h <;> exact ⟨_, (Except.ok.inj h).symm⟩

/-- A map whose scope is retained is resolved from it. -/
theorem prepareValid_of_retained {scope : Scope} {entry : Entry} (hs : scopeOf access kvs = .ok (.at scope))
    (he : S.retainedResolution scope = some entry) : prepareValid access fuel S kvs = resolveKnown entry kvs := by
  simp only [prepareValid, hs, bind, Except.bind, he]

/-- A valid transaction is resolved from what is retained under its scope, and linearized otherwise. -/
theorem prepare_of_validate (h : validateTransaction (.map kvs) = .ok T) :
    prepare access fuel S kvs =
      match S.retainedResolution T.body.scope with
      | some entry => resolveKnown entry kvs
      | none => linearize fuel S T (.map kvs) := by
  have hvalid : prepareValid access fuel S kvs =
      match S.retainedResolution T.body.scope with
      | some entry => resolveKnown entry kvs
      | none => linearize fuel S T (.map kvs) := by
    simp only [prepareValid, scopeOf_of_validate h, prepareUnknown, h]
    rfl
  unfold prepare
  rw [hvalid, h]
  simp

theorem validate_of_unknown {frame : Frame} {outcome : Outcome}
    (h : prepareUnknown fuel S kvs = .ok (.new S' frame outcome)) :
    ∃ T, validateTransaction (.map kvs) = .ok T := by
  unfold prepareUnknown at h
  split at h
  · cases h
  · cases h
  · next T hT => exact ⟨T, hT⟩

theorem validate_of_valid {frame : Frame} {outcome : Outcome}
    (h : prepareValid access fuel S kvs = .ok (.new S' frame outcome)) :
    ∃ T, validateTransaction (.map kvs) = .ok T := by
  obtain ⟨place, -, h⟩ := Attempt.bind_eq_ok.1 h
  cases place with
  | «at» scope =>
    simp only at h
    split at h
    · obtain ⟨_, he⟩ := resolveKnown_eq_ok h
      cases he
    · exact validate_of_unknown h
  | nowhere => exact validate_of_unknown h
  | invalid => cases h

/-- A new answer linearizes a valid transaction that nothing was retained for. -/
theorem linearize_of_new {frame : Frame} {outcome : Outcome}
    (h : prepare access fuel S kvs = .ok (.new S' frame outcome)) :
    ∃ T, validateTransaction (.map kvs) = .ok T ∧ S.retainedResolution T.body.scope = none ∧
      linearize fuel S T (.map kvs) = .ok (.new S' frame outcome) := by
  have key : ∃ T, validateTransaction (.map kvs) = .ok T := by
    unfold prepare at h
    split at h
    · split at h
      · cases h
      · cases h
      · next T hT => exact ⟨T, hT⟩
    · exact validate_of_valid h
  obtain ⟨T, hT⟩ := key
  refine ⟨T, hT, ?_⟩
  rw [prepare_of_validate hT] at h
  split at h
  · obtain ⟨_, he⟩ := resolveKnown_eq_ok h
    cases he
  · next hn => exact ⟨hn, h⟩

/-! ## the transitions -/

/-- A close names the reservation of a capsule and its exact final transaction. -/
structure Closes (S : State) (t : CloseCreationReservation) (c : Capsule) (final : Transaction) : Prop where
  capsule : S.creationCapsules.lookup (t.runtimeId, t.commandId) = some c
  valid : capsuleValid S (S.creationHead t.runtimeId) c = .ok true
  txId : c.reservationTxId = t.reservationTxId
  version : c.reservationDomainVersion = t.reservationDomainVersion
  create : createSession c.runtimeId c.commandId c.genesis = .ok final
  bytes : final.canonicalRecordBytes = t.finalCanonicalRecordBytes
  digest : final.canonicalMutationDigest = t.finalCanonicalMutationDigest

namespace State

/-- The state after a claim. -/
def claimed (S : State) (T : Transaction) (r : Identifier) (head : Head) : State :=
  (S.putHead r head).putCreationResolution r T (.committed (.claim r head))

/-- The receipt of a reservation. -/
def reserveReceipt (t : ReserveCreation) (head : Head) : Receipt :=
  .reserve t.runtimeId head t.txId head.domainVersion

/-- The state after a reservation. -/
def reserved (S : State) (T : Transaction) (t : ReserveCreation) (head : Head) : State :=
  ((S.putHead t.runtimeId head).putCapsule (reserveCapsule t)).putCreationResolution t.runtimeId T
    (.committed (reserveReceipt t head))

/-- The state after a reservation is closed. -/
def cancelled (S : State) (T : Transaction) (t : CloseCreationReservation) (c : Capsule)
    (final : Transaction) (head : Head) : State :=
  let next := S.putRuntimeCommand c.runtimeId c.commandId
    (.refused ⟨final, .notCommitted .creationCancelled⟩)
  ((next.putHead t.runtimeId head).putCapsule c.terminal).putCreationResolution t.runtimeId T
    (.committed (creationCloseReceipt t head c.terminal))

/-- The state after a session is created from a reserved capsule. -/
def created (S : State) (T : Transaction) (t : CreateSession) (c : Capsule)
    (sessionId : Identifier) (number : ℕ) : State :=
  let next := { S with nextSessionNumber := number + 1 }
  let next := next.putRuntimeCommand t.runtimeId t.commandId
    (.created ⟨T, .committed (.create sessionId)⟩ sessionId)
  let next := next.putSession sessionId (Session.create t.runtimeId t.genesis)
  let next := retainCreationIndex next T t sessionId
  let next := next.putHead t.runtimeId ((S.creationHead t.runtimeId).advance none)
  next.putCapsule { c with state := .created sessionId }

/-- The state after a refusal is retained for a session that does not exist. -/
def orphaned (S : State) (T : Transaction) (sessionId domain : Identifier) : State :=
  let resolutions := (S.orphanResolutions.lookup sessionId).getD ∅
  let updated := putResolution resolutions domain T (.notCommitted .sessionNotFound)
  { S with orphanResolutions := S.orphanResolutions.insert sessionId updated }

/-- The entry of a staged attempt. -/
def stagedEntry (t : StageOwnerAttempt) : RuntimeCommand :=
  .staged (t.command.binding t.sessionId t.mutationDomain) .open t.command.attemptGeneration t.candidate
    none

end State

/-- The refusals of the three creation transactions. -/
def Refusal.isCreation : Refusal → Bool
  | .staleCreationGeneration | .creationDomainConflict | .creationInProgress | .runtimeCommandConflict
  | .creationCounterExhausted | .creationRecoveryTooLarge | .creationReservationConflict => true
  | _ => false

/-- A close refused for its counters closes an open reservation of a head at a limit. -/
def Exhausted (S : State) (T : Transaction) : Prop :=
  ∀ t, T.body = .closeCreationReservation t → ∃ c final, Closes S t c final ∧
    S.retainedResolution final.body.scope = none ∧
    (creationUint64 - 1 < (S.creationHead t.runtimeId).ownerGeneration ∨
      creationUint64 - 1 < (S.creationHead t.runtimeId).domainVersion)

/-- **The transitions**: a valid transaction that nothing was retained for takes a state to the next,
with a resolution and with the records and the events it stamped. -/
inductive Moves (S : State) (T : Transaction) :
    State → Resolution → List Record → List Term → Prop
  | refuse {r : Identifier} {reason : Refusal}
      (scope : T.body.scope = .creation r T.body.type T.body.txId) (isCreation : reason.isCreation)
      (exhausted : reason = .creationCounterExhausted → Exhausted S T) :
      Moves S T (S.putCreationResolution r T (.notCommitted reason)) (.notCommitted reason) [] []
  | claim {t : ClaimCreationDomain} {head : Head} (body : T.body = .claimCreationDomain t)
      (generation : (S.creationHead t.runtimeId).ownerGeneration = t.expectedOwnerGeneration)
      (maximum : (S.creationHead t.runtimeId).ownerGeneration ≤ (S.creationHead t.runtimeId).maximum)
      (head_eq : head = (S.creationHead t.runtimeId).claim t.ownerSelection) :
      Moves S T (S.claimed T t.runtimeId head) (.committed (.claim t.runtimeId head)) [] []
  | reserve {t : ReserveCreation} {head : Head} (body : T.body = .reserveCreation t)
      (eligible : creationEligibility (S.creationHead t.runtimeId) t.claimant = none)
      (idle : (S.creationHead t.runtimeId).activeCommandId = none)
      (capsule : S.creationCapsules.lookup (t.runtimeId, t.commandId) = none)
      (command : S.runtimeCommands.lookup (t.runtimeId, t.commandId) = none)
      (generation : (S.creationHead t.runtimeId).ownerGeneration ≤ creationUint64 - 2)
      (version : (S.creationHead t.runtimeId).domainVersion ≤ creationUint64 - 2)
      (head_eq : head = (S.creationHead t.runtimeId).advance (some t.commandId))
      (fits : prospectiveRecoveryFits t.runtimeId head (reserveCapsule t)) :
      Moves S T (S.reserved T t head) (.committed (State.reserveReceipt t head)) [] []
  | closed {t : CloseCreationReservation} {c : Capsule} {final : Transaction} {entry : Entry}
      (body : T.body = .closeCreationReservation t) (closes : Closes S t c final)
      (known : S.retainedResolution final.body.scope = some entry) :
      Moves S T
        (S.putCreationResolution t.runtimeId T
          (.committed (creationCloseReceipt t (S.creationHead t.runtimeId) c)))
        (.committed (creationCloseReceipt t (S.creationHead t.runtimeId) c)) [] []
  | cancel {t : CloseCreationReservation} {c : Capsule} {final : Transaction} {head : Head}
      (body : T.body = .closeCreationReservation t) (closes : Closes S t c final)
      (unknown : S.retainedResolution final.body.scope = none)
      (eligible : creationEligibility (S.creationHead t.runtimeId) t.claimant = none)
      (generation : (S.creationHead t.runtimeId).ownerGeneration ≤ creationUint64 - 1)
      (version : (S.creationHead t.runtimeId).domainVersion ≤ creationUint64 - 1)
      (head_eq : head = (S.creationHead t.runtimeId).advance none) :
      Moves S T (S.cancelled T t c final head)
        (.committed (creationCloseReceipt t head c.terminal)) [] []
  | unreserved {t : CreateSession} (body : T.body = .createSession t)
      (capsule : S.creationCapsules.lookup (t.runtimeId, t.commandId) = none) :
      Moves S T
        (S.putRuntimeCommand t.runtimeId t.commandId
          (.refused ⟨T, .notCommitted .creationReservationRequired⟩))
        (.notCommitted .creationReservationRequired) [] []
  | create {t : CreateSession} {c : Capsule} {sessionId : Identifier} {number : ℕ}
      (body : T.body = .createSession t)
      (capsule : S.creationCapsules.lookup (t.runtimeId, t.commandId) = some c)
      (runtime : c.runtimeId = t.runtimeId) (command : c.commandId = t.commandId)
      (valid : capsuleValid S (S.creationHead t.runtimeId) c = .ok true) (reserved : c.state = .reserved)
      (genesis : looseEq c.genesis t.genesis = true)
      (generation : (S.creationHead t.runtimeId).ownerGeneration ≤ creationUint64 - 1)
      (version : (S.creationHead t.runtimeId).domainVersion ≤ creationUint64 - 1)
      (id : sessionId = sessionIdOf t.runtimeId t.commandId number) (fresh : S.taken sessionId = false)
      (number_le : S.nextSessionNumber ≤ number) :
      Moves S T (S.created T t c sessionId number) (.committed (.create sessionId))
        [stampGenesis t.genesis] []
  | absent {sessionId domain : Identifier} (scope : T.body.scope = .session sessionId domain T.body.txId)
      (absent : S.sessions.lookup sessionId = none) :
      Moves S T (S.orphaned T sessionId domain) (.notCommitted .sessionNotFound) [] []
  | nonCommit {sessionId domain : Identifier} {session : Session} {reason : Refusal}
      (scope : T.body.scope = .session sessionId domain T.body.txId)
      (session_eq : S.sessions.lookup sessionId = some session) :
      Moves S T (S.putSession sessionId (session.retain domain T (.notCommitted reason)))
        (.notCommitted reason) [] []
  | stage {t : StageOwnerAttempt} {session : Session} (body : T.body = .stageOwnerAttempt t)
      (session_eq : S.sessions.lookup t.sessionId = some session)
      (admitted : stageRefusal S session t = .ok none) :
      Moves S T
        ((S.putSession t.sessionId (session.stage T t)).putRuntimeCommand t.command.runtimeId
          t.command.commandId (State.stagedEntry t))
        (.committed .stage) [] []
  | succeed {t : AdvanceOwner} {session : Session} (body : T.body = .advanceOwner t)
      (session_eq : S.sessions.lookup t.sessionId = some session)
      (admitted : successionRefusal S session T t = .ok none) (command : t.command = none) :
      Moves S T (S.putSession t.sessionId (session.succeed T t))
        (.committed (successionReceipt session t)) [successionRecord session t] []
  | resume {t : AdvanceOwner} {session : Session} {c : SuccessionCommand} {command : OwnerCommand}
      {status : CommandStatus} {generation : ℕ} {candidate : Term} {result : Option Identifier}
      (body : T.body = .advanceOwner t) (session_eq : S.sessions.lookup t.sessionId = some session)
      (admitted : successionRefusal S session T t = .ok none) (command_eq : t.command = some c)
      (entry : S.runtimeCommands.lookup (c.runtimeId, c.commandId) =
        some (.staged command status generation candidate result)) :
      Moves S T
        ((S.putSession t.sessionId (session.succeed T t)).putRuntimeCommand c.runtimeId c.commandId
          (.staged command .completed generation candidate (some t.sessionId)))
        (.committed (successionReceipt session t)) [successionRecord session t] []
  | commit {t : SessionCommit} {session : Session} (body : T.body = .sessionCommit t)
      (session_eq : S.sessions.lookup t.sessionId = some session)
      (admitted : ordinaryRefusal session t = none) :
      Moves S T (S.putSession t.sessionId (session.append T t)) (.committed (commitReceipt session t))
        (stampRecords session (session.journalVersion + 1) t.records)
        (stampEvents (session.eventSequence + 1) t.outbox)

/-- A new answer is a transition, with the frame and the outcome of its resolution. -/
def Explained (S : State) (T : Transaction) (raw : Term) (p : Prepared) : Prop :=
  ∀ S' frame outcome, p = .new S' frame outcome → ∃ resolution records events,
    Moves S T S' resolution records events ∧
      frame = ⟨T.body.type, raw, resolution, records, events⟩ ∧
      outcome = outcomeOf T.body.txId resolution

theorem Moves.explained {resolution : Resolution} {records : List Record} {events : List Term}
    {outcome : Outcome} (h : Moves S T S' resolution records events)
    (ho : outcome = outcomeOf T.body.txId resolution) :
    Explained S T raw (.new S' ⟨T.body.type, raw, resolution, records, events⟩ outcome) := by
  rintro _ _ _ ⟨⟩
  exact ⟨_, _, _, h, rfl, ho⟩

theorem explained_invalid {outcome : Outcome} : Explained S T raw (.invalid outcome) := by
  rintro _ _ _ ⟨⟩

theorem explained_refuse {r : Identifier} {reason : Refusal}
    (scope : T.body.scope = .creation r T.body.type T.body.txId) (hr : reason.isCreation)
    (hx : reason = .creationCounterExhausted → Exhausted S T) :
    Explained S T raw (refuseCreation S T raw r reason) :=
  (Moves.refuse scope hr hx).explained rfl

theorem creationEligibility_not_exhausted {head : Head} {t : Claimant}
    (h : creationEligibility head t = some .creationCounterExhausted) : Exhausted S T := by
  unfold creationEligibility at h
  split at h
  · cases h
  · split at h <;> cases h

theorem creationEligibility_isCreation {head : Head} {t : Claimant} {reason : Refusal}
    (h : creationEligibility head t = some reason) : reason.isCreation := by
  unfold creationEligibility at h
  split at h
  · cases h; rfl
  · split at h <;> cases h
    rfl

theorem explained_claim {t : ClaimCreationDomain} (hb : T.body = .claimCreationDomain t) :
    Explained S T raw (linearizeClaim S T raw t) := by
  have hs : T.body.scope = .creation t.runtimeId T.body.type T.body.txId := by simp [hb, Body.scope,
    Body.type, Body.txId]
  have hx : Exhausted S T := fun t' ht' => by rw [hb] at ht'; cases ht'
  unfold linearizeClaim
  simp only
  split
  · exact explained_refuse hs rfl fun _ => hx
  · next hg =>
    split
    · exact explained_refuse hs rfl fun _ => hx
    · next hm =>
      exact (Moves.claim hb (not_not.1 hg) (Nat.not_lt.1 hm) rfl).explained rfl

theorem explained_reserve {t : ReserveCreation} (hb : T.body = .reserveCreation t) :
    Explained S T raw (linearizeReserve S T raw t) := by
  have hs : T.body.scope = .creation t.runtimeId T.body.type T.body.txId := by simp [hb, Body.scope,
    Body.type, Body.txId]
  have hx : Exhausted S T := fun t' ht' => by rw [hb] at ht'; cases ht'
  unfold linearizeReserve
  simp only
  split
  · next reason he => exact explained_refuse hs (creationEligibility_isCreation he) fun _ => hx
  · next he =>
    split
    · exact explained_refuse hs rfl fun _ => hx
    · next hi =>
      split
      · exact explained_refuse hs rfl fun _ => hx
      · next hf =>
        split
        · exact explained_refuse hs rfl fun _ => hx
        · next hc =>
          split
          · exact explained_refuse hs rfl fun _ => hx
          · next hp =>
            simp only [not_or, Bool.not_eq_true, Option.isSome_eq_false_iff, Option.isNone_iff_eq_none,
              not_lt] at hf hc
            exact (Moves.reserve hb he (not_not.1 hi) hf.1 hf.2 hc.1 hc.2 rfl (by simpa using hp)).explained
              rfl

theorem closeRelation_eq_some {t : CloseCreationReservation} {c : Capsule} {final : Transaction}
    (h : closeRelation S (S.creationHead t.runtimeId)
      (S.creationCapsules.lookup (t.runtimeId, t.commandId)) t = .ok (some (c, final))) :
    Closes S t c final := by
  unfold closeRelation at h
  split at h
  · cases h
  · next d hd =>
    obtain ⟨valid, hv, h⟩ := Attempt.bind_eq_ok.1 h
    split at h
    · next hvalid =>
      split at h
      · next hr =>
        split at h
        · next final' hf =>
          split at h
          · next hx =>
            cases h
            exact ⟨hd, hvalid ▸ hv, hr.1, hr.2, hf, hx.1, hx.2⟩
          · cases h
        · cases h
      · cases h
    · cases h

theorem explained_close {t : CloseCreationReservation} (hb : T.body = .closeCreationReservation t)
    (h : linearizeClose S T raw t = .ok p) : Explained S T raw p := by
  have hs : T.body.scope = .creation t.runtimeId T.body.type T.body.txId := by simp [hb, Body.scope,
    Body.type, Body.txId]
  obtain ⟨relation, hr, h⟩ := Attempt.bind_eq_ok.1 h
  split at h
  · next c final =>
    have hcloses := closeRelation_eq_some hr
    split at h
    · next entry hk =>
      cases h
      exact (Moves.closed hb hcloses hk).explained rfl
    · next hu =>
      split at h
      · next reason he =>
        cases h
        exact explained_refuse hs (creationEligibility_isCreation he)
          fun hr => creationEligibility_not_exhausted (hr ▸ he)
      · next he =>
        split at h
        · next hc =>
          cases h
          refine explained_refuse hs rfl fun _ t' ht' => ?_
          rw [hb] at ht'
          cases ht'
          exact ⟨c, final, hcloses, hu, hc⟩
        · next hc =>
          cases h
          simp only [not_or, not_lt] at hc
          exact (Moves.cancel hb hcloses hu he hc.1 hc.2 rfl).explained rfl
  · cases h
    cases he : creationEligibility (S.creationHead t.runtimeId) t.claimant with
    | none => exact explained_refuse hs rfl fun hr => by cases hr
    | some reason =>
      refine explained_refuse hs (creationEligibility_isCreation he) fun hr => ?_
      obtain rfl : reason = .creationCounterExhausted := hr
      exact creationEligibility_not_exhausted he

theorem allocateSessionId_eq_ok {runtimeId commandId id : Identifier} {number n : ℕ}
    (h : allocateSessionId S runtimeId commandId fuel number = .ok (id, n)) :
    id = sessionIdOf runtimeId commandId n ∧ S.taken id = false ∧ number ≤ n := by
  induction fuel generalizing number with
  | zero => cases h
  | succ fuel ih =>
    unfold allocateSessionId at h
    split at h
    · obtain ⟨h1, h2, h3⟩ := ih h
      exact ⟨h1, h2, by omega⟩
    · next hf =>
      cases h
      exact ⟨rfl, by simpa using hf, le_rfl⟩

theorem capsuleOf_eq_true {head : Head} {c : Capsule} {runtimeId commandId : Identifier}
    (h : capsuleOf S head c runtimeId commandId = .ok true) :
    c.runtimeId = runtimeId ∧ c.commandId = commandId ∧ capsuleValid S head c = .ok true := by
  unfold capsuleOf at h
  split at h
  · next hr => exact ⟨hr.1, hr.2, h⟩
  · cases h

theorem explained_create {t : CreateSession} (hb : T.body = .createSession t)
    (h : linearizeCreate S T raw t fuel = .ok p) : Explained S T raw p := by
  unfold linearizeCreate at h
  simp only at h
  split at h
  · next hc =>
    cases h
    exact (Moves.unreserved hb hc).explained rfl
  · next c hc =>
    obtain ⟨valid, hv, h⟩ := Attempt.bind_eq_ok.1 h
    split at h
    · cases h
      exact explained_invalid
    · next hstate =>
      split at h
      · cases h
        exact explained_invalid
      · next hg =>
        split at h
        · cases h
          exact explained_invalid
        · next hcount =>
          obtain ⟨⟨next, frame, sessionId⟩, hn, h⟩ := Attempt.bind_eq_ok.1 h
          obtain ⟨⟨id, number⟩, ha, hn⟩ := Attempt.bind_eq_ok.1 hn
          cases hn
          cases h
          obtain ⟨h1, h2, h3⟩ := allocateSessionId_eq_ok ha
          simp only [Bool.or_eq_true, Bool.not_eq_true', decide_eq_true_eq, not_or, Bool.not_eq_false,
            not_not] at hstate
          obtain ⟨rfl, hstate⟩ := hstate
          obtain ⟨hrt, hcmd, hv⟩ := capsuleOf_eq_true hv
          simp only [not_or, not_lt] at hcount
          have := Moves.create hb hc hrt hcmd hv hstate (by simpa using hg) hcount.1 hcount.2 h1 h2 h3
          have hframe : (⟨.createSession, raw, .committed (.create sessionId), [stampGenesis t.genesis], []⟩ :
              Frame) = ⟨T.body.type, raw, .committed (.create sessionId), [stampGenesis t.genesis], []⟩ := by
            rw [hb]; rfl
          rw [hframe]
          exact this.explained (by rw [hb]; rfl)

theorem explained_absent {sessionId domain : Identifier}
    (hs : T.body.scope = .session sessionId domain T.body.txId) (ha : S.sessions.lookup sessionId = none) :
    Explained S T raw (retainAbsentSession S T raw sessionId domain) :=
  (Moves.absent hs ha).explained rfl

theorem explained_nonCommit {sessionId domain : Identifier} {session : Session} {reason : Refusal}
    (hs : T.body.scope = .session sessionId domain T.body.txId)
    (he : S.sessions.lookup sessionId = some session) :
    Explained S T raw (retainNonCommit S session T raw sessionId domain reason) :=
  (Moves.nonCommit hs he).explained rfl

theorem explained_stage {t : StageOwnerAttempt} (hb : T.body = .stageOwnerAttempt t)
    (h : linearizeStage S T raw t = .ok p) : Explained S T raw p := by
  have hs : T.body.scope = .session t.sessionId t.mutationDomain T.body.txId := by rw [hb]; rfl
  unfold linearizeStage at h
  split at h
  · next ha =>
    cases h
    exact explained_absent hs ha
  · next session he =>
    obtain ⟨reason, hr, h⟩ := Attempt.bind_eq_ok.1 h
    split at h
    · cases h
      exact explained_nonCommit hs he
    · cases h
      exact (Moves.stage hb he hr).explained (by rw [hb]; rfl)

/-- A succession whose command is not staged does not commit. -/
theorem explained_advance {t : AdvanceOwner} (hb : T.body = .advanceOwner t)
    (h : linearizeAdvance S T raw t = .ok p) : Explained S T raw p := by
  have hs : T.body.scope = .session t.sessionId t.mutationDomain T.body.txId := by rw [hb]; rfl
  have ho : ∀ session, Outcome.committed t.txId (successionReceipt session t) =
      outcomeOf T.body.txId (.committed (successionReceipt session t)) := fun _ => by rw [hb]; rfl
  have hframe : ∀ session, (⟨.advanceOwner, raw, .committed (successionReceipt session t),
      [successionRecord session t], []⟩ : Frame) = ⟨T.body.type, raw,
        .committed (successionReceipt session t), [successionRecord session t], []⟩ :=
    fun _ => by rw [hb]; rfl
  unfold linearizeAdvance at h
  split at h
  · next ha =>
    cases h
    exact explained_absent hs ha
  · next session he =>
    obtain ⟨reason, hr, h⟩ := Attempt.bind_eq_ok.1 h
    split at h
    · cases h
      exact explained_nonCommit hs he
    · unfold commitSuccession at h
      simp only at h
      rw [hframe, ho] at h
      split at h
      · next hc =>
        cases h
        exact (Moves.succeed hb he hr hc).explained rfl
      · next c hc =>
        split at h
        · next command status generation candidate result hentry =>
          cases h
          exact (Moves.resume hb he hr hc hentry).explained rfl
        · cases h
        · cases h

theorem explained_commit {t : SessionCommit} (hb : T.body = .sessionCommit t) :
    Explained S T raw (linearizeCommit S T raw t) := by
  have hs : T.body.scope = .session t.sessionId t.mutationDomain T.body.txId := by rw [hb]; rfl
  unfold linearizeCommit
  split
  · next ha => exact explained_absent hs ha
  · next session he =>
    split
    · exact explained_nonCommit hs he
    · next hr =>
      have : Explained S T raw _ := (Moves.commit hb he hr).explained rfl
      rw [hb] at this
      exact this

theorem explained_linearize (h : linearize fuel S T raw = .ok p) : Explained S T raw p := by
  unfold linearize at h
  split at h
  · next t hb => cases h; exact explained_claim hb
  · next t hb => cases h; exact explained_reserve hb
  · next t hb => exact explained_close hb h
  · next t hb => exact explained_create hb h
  · next t hb => exact explained_stage hb h
  · next t hb => exact explained_advance hb h
  · next t hb => cases h; exact explained_commit hb

/-- **Every new answer is one of the transitions** of a valid transaction that nothing was retained for. -/
theorem prepare_new {frame : Frame} {outcome : Outcome}
    (h : prepare access fuel S kvs = .ok (.new S' frame outcome)) :
    ∃ T resolution records events, validateTransaction (.map kvs) = .ok T ∧
      S.retainedResolution T.body.scope = none ∧ Moves S T S' resolution records events ∧
      frame = ⟨T.body.type, .map kvs, resolution, records, events⟩ ∧
      outcome = outcomeOf T.body.txId resolution := by
  obtain ⟨T, hT, hn, hl⟩ := linearize_of_new h
  obtain ⟨resolution, records, events, hm, hf, ho⟩ := explained_linearize hl _ _ _ rfl
  exact ⟨T, resolution, records, events, hT, hn, hm, hf, ho⟩

/-! ## what the guards admit -/

theorem creationEligibility_eq_none {head : Head} {t : Claimant} :
    creationEligibility head t = none ↔ head.ownerGeneration = t.ownerGeneration ∧
      head.ownerSelection = some t.ownerSelection ∧ head.domainVersion = t.expectedDomainVersion := by
  unfold creationEligibility
  split
  · next h =>
    simp only [reduceCtorEq, false_iff, not_and]
    intro h1 h2
    rcases h with h | h
    · exact absurd h1 h
    · exact absurd h2 h
  · next h =>
    simp only [not_or, not_not] at h
    split
    · next h' => simp [h, h']
    · next h' => simpa [h] using h'

/-- A staging is admitted for a free command, and for an open attempt of the same command. -/
theorem stageRefusal_eq_none {session : Session} {t : StageOwnerAttempt}
    (h : stageRefusal S session t = .ok none) :
    session.runtimeId = t.command.runtimeId ∧ unresolvedOtherOwnerCommand S session t = .ok false ∧
      S.creationCapsules.lookup (t.command.runtimeId, t.command.commandId) = none ∧
      (S.runtimeCommands.lookup (t.command.runtimeId, t.command.commandId) = none ∨
        ∃ candidate result, S.runtimeCommands.lookup (t.command.runtimeId, t.command.commandId) =
          some (.staged (t.command.binding t.sessionId t.mutationDomain) .open t.expectedGeneration
            candidate result)) := by
  unfold stageRefusal at h
  split at h
  · cases h
  · next hr =>
    obtain ⟨blocked, hb, h⟩ := Attempt.bind_eq_ok.1 h
    split at h
    · cases h
    · next hblocked =>
      split at h
      · cases h
      · next hc =>
        refine ⟨not_not.1 hr, by simpa [hblocked] using hb, by simpa using hc, ?_⟩
        split at h
        · next hl => exact .inl hl
        · next command status generation candidate result hl =>
          split at h
          · next hcommand =>
            subst hcommand
            cases status with
            | «open» =>
              simp only at h
              split at h
              · next hg => exact .inr ⟨candidate, result, hg ▸ hl⟩
              · cases h
            | completed => cases h
          · cases h
        · cases h

/-- A succession that serves a command is admitted for the open attempt that staged it. -/
theorem ownerCommandRefusal_eq_none {t : AdvanceOwner} {c : SuccessionCommand} (hc : t.command = some c)
    (h : ownerCommandRefusal S T t = .ok none) :
    S.creationCapsules.lookup (c.runtimeId, c.commandId) = none ∧
      ∃ kvs result, S.runtimeCommands.lookup (c.runtimeId, c.commandId) =
          some (.staged (c.binding t.sessionId t.mutationDomain) .open c.attemptGeneration (.map kvs) result) ∧
        lookup (sym "tx_id") kvs = some t.txId.term ∧ immutableBinding kvs = .ok T := by
  unfold ownerCommandRefusal at h
  rw [hc] at h
  simp only at h
  split at h
  · cases h
  · next hcapsule =>
    refine ⟨by simpa using hcapsule, ?_⟩
    split at h
    · next command status generation candidate result hl =>
      split at h
      · next hcommand =>
        split at h
        · next kvs =>
          split at h
          · next hg =>
            split at h
            · cases h
            · next binding hb =>
              by_cases he : binding = T
              · exact ⟨kvs, result, by rw [hl, hcommand, hg.1], hg.2, he ▸ hb⟩
              · simp [he] at h
            · cases h
          · cases h
        · cases h
        · cases h
      · cases h
    · cases h

theorem successionRefusal_eq_none {session : Session} {t : AdvanceOwner}
    (h : successionRefusal S session T t = .ok none) :
    ownerCommandRefusal S T t = .ok none ∧ t.expectedOwnerEpoch = session.ownerEpoch ∧
      t.expectedJournalVersion = session.journalVersion := by
  obtain ⟨reason, hr, h⟩ := Attempt.bind_eq_ok.1 h
  split at h
  · cases h
  · split at h
    · cases h
    · next he =>
      split at h
      · cases h
      · next hv => exact ⟨hr, not_not.1 he, not_not.1 hv⟩

theorem ordinaryRefusal_eq_none {session : Session} {t : SessionCommit} :
    ordinaryRefusal session t = none ↔ t.expectedOwnerEpoch = session.ownerEpoch ∧
      some t.expectedOwnerIncarnationId = session.ownerIncarnationId ∧
      t.expectedJournalVersion = session.journalVersion ∧
      ∀ id ∈ eventIds t.outbox, session.eventIds.lookup id = none := by
  unfold ordinaryRefusal
  split
  · next h => simp [h]
  · next h1 =>
    split
    · next h => simp [h]
    · next h2 =>
      split
      · next h => simp [h]
      · next h3 =>
        split
        · next h =>
          obtain ⟨id, hid, hs⟩ := List.any_eq_true.1 h
          simp only [reduceCtorEq, false_iff, not_and]
          intro _ _ _ hn
          simp [hn id hid] at hs
        · next h =>
          simp only [true_iff]
          refine ⟨not_not.1 h1, not_not.1 h2, not_not.1 h3, fun id hid => ?_⟩
          by_contra hne
          exact h (List.any_eq_true.2 ⟨id, hid, Option.isSome_iff_ne_none.2 hne⟩)

/-- The final transaction of a capsule is that of its own command. -/
theorem createSession_eq_ok {runtimeId commandId : Identifier} {genesis : Term}
    (h : createSession runtimeId commandId genesis = .ok T) :
    ∃ t, T.body = .createSession t ∧ t.runtimeId = runtimeId ∧ t.commandId = commandId ∧
      normalizeMeasuredRoot .record genesis = .ok t.genesis := by
  obtain ⟨normalized, hn, h⟩ := Erlang.Except.bind_eq_ok.1 h
  split at h
  · next hv =>
    obtain ⟨rfl, -⟩ := build_eq_ok.1 h
    exact ⟨_, rfl, rfl, rfl, hn⟩
  · cases h

/-! ## runs -/

/-- A presentation whose answer is new takes a state to the next. -/
def Presents (access : StructAccess) (S : State) (kvs : List (Term × Term)) (S' : State) : Prop :=
  ∃ fuel frame outcome, prepare access fuel S kvs = .ok (.new S' frame outcome)

/-- A step of the Store, as a transition. -/
theorem Presents.moves (h : Presents access S kvs S') :
    ∃ T resolution records events, validateTransaction (.map kvs) = .ok T ∧
      S.retainedResolution T.body.scope = none ∧ Moves S T S' resolution records events := by
  obtain ⟨fuel, frame, outcome, h⟩ := h
  obtain ⟨T, resolution, records, events, hT, hn, hm, -, -⟩ := prepare_new h
  exact ⟨T, resolution, records, events, hT, hn, hm⟩

/-- The states that presented transactions reach from the new Store. -/
def Reachable (access : StructAccess) (S : State) : Prop :=
  ∃ presented, Run (Presents access) State.new presented S

/-- What holds of the new Store and is kept by every transition holds of every reachable state. -/
theorem Reachable.invariant {I : State → Prop} (hnew : I State.new)
    (hmove : ∀ S T S' resolution records events, I S → build T.body = .ok T →
      S.retainedResolution T.body.scope = none → Moves S T S' resolution records events → I S')
    (h : Reachable access S) : I S := by
  obtain ⟨presented, h⟩ := h
  refine h.invariant hnew fun S kvs S' hS hp => ?_
  obtain ⟨T, resolution, records, events, hT, hn, hm⟩ := hp.moves
  exact hmove S T S' resolution records events hS (validate_canonical hT) hn hm

end Loopex.Store
