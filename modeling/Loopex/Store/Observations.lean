import Loopex.Store.ResumeCommands
import Loopex.Store.Journal

/-!
# Observations

What a Store answers about a transaction, about the owner of a session and about a command, while it goes on.

* `State.transactionStatus`, `State.ownershipHead`, `State.runtimeCommand` — as the source computes them
* `CommandQuery.passes` — what the port passes on of an answer
* `State.Formed`, `State.Grows` — what every entry holds, and what every transition leaves of a session
* `observations_stable` — **what a Store has answered stays**
* `head_spent_once` — **an expected head is spent at most once**
-/

namespace Loopex.Store

open Loopex.Erlang Loopex.Erlang.Term Loopex.Runtime Loopex.System

variable {access : StructAccess} {S S' : State} {T : Transaction} {resolution : Resolution} {records : List Record}
  {events : List Term} {kvs : List (Term × Term)} {presented : List (List (Term × Term))}

/-! ## the observations -/

/-- `{:terminal, :committed}` and `{:terminal, {:not_committed, reason}}`. -/
inductive Terminal where
  | committed
  | notCommitted (reason : Refusal)
  deriving DecidableEq

/-- `status_of`. -/
def statusOf : Resolution → Terminal
  | .committed _ => .committed
  | .notCommitted reason => .notCommitted reason

/-- `transaction_status`; `none` is `:absent`. -/
def State.transactionStatus (S : State) (sessionId mutationDomain txId : Identifier) : Option Terminal :=
  ((S.scopedResolutions sessionId).lookup (mutationDomain, txId)).map fun retained => statusOf retained.resolution

/-- `ownership_head`: the epoch and the journal version. -/
def State.ownershipHead (S : State) (sessionId : Identifier) : Option (ℕ × ℕ) :=
  (S.sessions.lookup sessionId).map fun session => (session.ownerEpoch, session.journalVersion)

/-- A command as the port admits it to be asked about: a create knows no session yet. -/
inductive CommandQuery where
  | create (runtimeId commandId mutationDomain successionId : Identifier) (canonicalCommandBytes : Bytes)
  | resume (command : OwnerCommand)
  deriving DecidableEq

/-- The key of its entry. -/
def CommandQuery.key : CommandQuery → Identifier × Identifier
  | create runtimeId commandId .. => (runtimeId, commandId)
  | resume command => (command.runtimeId, command.commandId)

/-- The answers of `runtime_command`. -/
inductive CommandAnswer where
  | absent
  | conflict
  | «open» (attemptGeneration : ℕ) (candidateTxId : Term)
  | created (sessionId : Identifier)
  | cancelled
  | resumed (attemptGeneration : ℕ) (candidateTxId : Term) (result : Option Identifier)
  deriving DecidableEq

/-- `create_command_matches?`. -/
def createCommandMatches (runtimeId commandId : Identifier) (bytes : Bytes) (binding : Transaction) : Bool :=
  match binding.body with
  | .createSession t => runtimeId = t.runtimeId && commandId = t.commandId && bytes = binding.canonicalRecordBytes &&
      sha256 bytes = binding.canonicalMutationDigest
  | _ => false

/-- The clauses of `runtime_command` for an entry; `candidate.tx_id` raises where the candidate has none. -/
def RuntimeCommand.answer (entry : RuntimeCommand) (query : CommandQuery) : Attempt CommandAnswer :=
  match entry, query with
  | .created r sessionId, .create runtimeId commandId _ _ bytes =>
    match r.resolution, createCommandMatches runtimeId commandId bytes r.binding with
    | .committed _, true => .ok (.created sessionId)
    | .notCommitted .creationCancelled, true => .ok .cancelled
    | _, _ => .ok .conflict
  | .refused r, .create runtimeId commandId _ _ bytes =>
    match r.resolution, createCommandMatches runtimeId commandId bytes r.binding with
    | .notCommitted .creationCancelled, true => .ok .cancelled
    | _, _ => .ok .conflict
  | .staged command status generation candidate result, .resume command' =>
    if command = command' then do
      let txId ← candidateTxId candidate
      match status with
      | .open => .ok (.open generation txId)
      | .completed => .ok (.resumed generation txId result)
    else .ok .conflict
  | _, _ => .ok .conflict

/-- `runtime_command`. -/
def State.runtimeCommand (S : State) (query : CommandQuery) : Attempt CommandAnswer :=
  match S.runtimeCommands.lookup query.key with
  | none => .ok .absent
  | some entry => entry.answer query

/-- An identifier, or no term of the port's. -/
def identifierTerm (t : Term) : Bool := (asIdentifier t).isSome

/-- `normalize_runtime_command`: what the port passes on; the rest is `:unavailable` to its caller. -/
def CommandQuery.passes (query : CommandQuery) (answer : CommandAnswer) : Bool :=
  match answer, query with
  | .absent, _ | .conflict, _ => true
  | .cancelled, .create .. | .created _, .create .. => true
  | .open generation candidateTxId, .resume _ => 0 < generation && identifierTerm candidateTxId
  | .resumed generation candidateTxId result, .resume _ =>
    0 < generation && identifierTerm candidateTxId && result.isSome
  | _, _ => false

/-- An answer that nothing changes. -/
def CommandAnswer.final : CommandAnswer → Bool
  | absent | «open» .. => false
  | conflict | created _ | cancelled | resumed .. => true

/-- What an open attempt may become: itself, a later attempt, or a resumed command. -/
def CommandAnswer.attempted : CommandAnswer → Bool
  | «open» .. | resumed .. => true
  | _ => false

theorem State.transactionStatus_eq (S : State) (s d x : Identifier) :
    S.transactionStatus s d x = (S.resolved (.session s d x)).map fun r => statusOf r.resolution := by
  rw [State.resolved_session]
  rfl

theorem RuntimeCommand.Kept.answer {a b : RuntimeCommand} {query : CommandQuery} {answer : CommandAnswer}
    (h : a.Kept b) (ha : a.answer query = .ok answer) (hf : answer.final) : b.answer query = .ok answer := by
  cases h with
  | same => exact ha
  | attempt command status g g' c c' r r' =>
    cases query with
    | create => exact ha
    | resume command' =>
      simp only [RuntimeCommand.answer] at ha ⊢
      split at ha
      · obtain ⟨txId, -, hopen⟩ := Attempt.bind_eq_ok.1 ha
        cases hopen
        cases hf
      · next hne =>
        rw [if_neg hne]
        exact ha

/-- **A final answer is given for ever.** -/
theorem State.CommandsKept.answer {query : CommandQuery} {answer : CommandAnswer} (h : S.CommandsKept S')
    (ha : S.runtimeCommand query = .ok answer) (hf : answer.final) : S'.runtimeCommand query = .ok answer := by
  unfold State.runtimeCommand at ha ⊢
  cases hl : S.runtimeCommands.lookup query.key with
  | none =>
    rw [hl] at ha
    cases ha
    cases hf
  | some e =>
    obtain ⟨e', hl', hkept⟩ := h _ _ hl
    rw [hl] at ha
    rw [hl']
    exact hkept.answer ha hf

/-- Only an attempt of the command that is asked about is open or resumed. -/
theorem answer_attempted_iff {entry : RuntimeCommand} {query : CommandQuery} {answer : CommandAnswer}
    (h : entry.answer query = .ok answer) : answer.attempted ↔
      ∃ command status generation candidate result, query = .resume command ∧
        entry = .staged command status generation candidate result := by
  unfold RuntimeCommand.answer at h
  split at h
  · split at h <;> cases h <;> simp [CommandAnswer.attempted]
  · split at h <;> cases h <;> simp [CommandAnswer.attempted]
  · split at h
    · next heq =>
      subst heq
      obtain ⟨txId, -, h⟩ := Attempt.bind_eq_ok.1 h
      split at h <;> cases h <;> simp [CommandAnswer.attempted]
    · next hne =>
      cases h
      simpa [CommandAnswer.attempted] using hne
  · next _ _ hno =>
    cases h
    simp only [CommandAnswer.attempted, Bool.false_eq_true, false_iff, not_exists, not_and]
    rintro command status generation candidate result rfl rfl
    exact hno _ _ _ _ _ _ rfl rfl

/-- **An open command stays an attempt, until it is resumed.** -/
theorem State.CommandsKept.attempted {query : CommandQuery} {answer answer' : CommandAnswer} (h : S.CommandsKept S')
    (ho : S.runtimeCommand query = .ok answer) (hatt : answer.attempted)
    (ha : S'.runtimeCommand query = .ok answer') : answer'.attempted := by
  unfold State.runtimeCommand at ho ha
  cases hl : S.runtimeCommands.lookup query.key with
  | none =>
    rw [hl] at ho
    cases ho
    cases hatt
  | some e =>
    rw [hl] at ho
    obtain ⟨command, status, generation, candidate, result, hquery, rfl⟩ := (answer_attempted_iff ho).1 hatt
    obtain ⟨e', hl', hkept⟩ := h _ _ hl
    rw [hl'] at ha
    refine (answer_attempted_iff ha).2 ?_
    cases hkept with
    | same => exact ⟨_, _, _, _, _, hquery, rfl⟩
    | attempt => exact ⟨_, _, _, _, _, hquery, rfl⟩

/-! ## what an entry holds -/

/-- An entry of a command has an attempt, the candidate that the attempt staged is a transaction, and a completed one
has its session. -/
def State.Formed (S : State) : Prop :=
  ∀ k command status generation candidate result,
    S.runtimeCommands.lookup k = some (.staged command status generation candidate result) →
      0 < generation ∧ (∃ T, validateTransaction candidate = .ok T) ∧
        (status = .completed → result = some command.sessionId)

theorem Moves.formed (h : Moves S T S' resolution records events) (hv : validateTransaction (.map kvs) = .ok T)
    (hf : S.Formed) : S'.Formed := by
  intro k command status generation candidate result hl
  have hother : ∀ {k' : Identifier × Identifier} {v : RuntimeCommand} {R : State},
      R.runtimeCommands = S.runtimeCommands.insert k' v →
      R.runtimeCommands.lookup k = some (.staged command status generation candidate result) →
      S.runtimeCommands.lookup k = some (.staged command status generation candidate result) ∨
        v = .staged command status generation candidate result := by
    intro k' v R hR hl
    rw [hR] at hl
    by_cases hk : k = k'
    · rw [hk, AList.lookup_insert] at hl
      exact .inr (Option.some.inj hl)
    · rw [AList.lookup_insert_ne hk] at hl
      exact .inl hl
  cases h with
  | refuse | claim | reserve | closed | absent | nonCommit | succeed | commit => exact hf _ _ _ _ _ _ hl
  | cancel | unreserved | create =>
    rcases hother rfl hl with hl | heq
    · exact hf _ _ _ _ _ _ hl
    · cases heq
  | @stage t session body session_eq admitted =>
    rcases hother rfl hl with hl | heq
    · exact hf _ _ _ _ _ _ hl
    · cases heq
      have hchecks := checks_of_validate hv
      rw [body] at hchecks
      have hcandidate : lookup (sym "candidate") kvs = some t.candidate :=
        lookup_of_validate hv (f := ("candidate", t.candidate)) (by
          simp [body, Body.fields, Body.values, Body.type, TransactionType.fieldNames])
      exact ⟨t.command.positive, (verdictOf_eq_ok hcandidate).1 hchecks.2, fun h => by cases h⟩
  | @resume t session c command' status' generation' candidate' result' body session_eq admitted command_eq entry =>
    rcases hother rfl hl with hl | heq
    · exact hf _ _ _ _ _ _ hl
    · cases heq
      obtain ⟨-, kvs', result'', hl', -⟩ :=
        ownerCommandRefusal_eq_none command_eq (successionRefusal_eq_none admitted).1
      rw [entry] at hl'
      cases hl'
      exact ⟨(hf _ _ _ _ _ _ entry).1, (hf _ _ _ _ _ _ entry).2.1, fun _ => rfl⟩

theorem Reachable.formed (h : Reachable access S) : S.Formed := by
  obtain ⟨presented, h⟩ := h
  refine h.invariant (fun _ _ _ _ _ _ hl => by cases hl) fun S kvs S' hS hp => ?_
  obtain ⟨T, resolution, records, events, hT, -, hm⟩ := hp.moves
  exact hm.formed hT hS

/-- A transaction id of a transaction is an identifier. -/
theorem identifier_of_txId {v : Term} (h : validateTransaction (.map kvs) = .ok T)
    (hl : lookup (sym "tx_id") kvs = some v) : ∃ id : Identifier, v = id.term := by
  have hfield : ∀ id : Identifier, ("tx_id", id.term) ∈ T.body.scope.fields → v = id.term := by
    intro id hmem
    have hid := lookup_of_validate h (T.body.scope_fields _ hmem)
    exact Option.some.inj (hl.symm.trans hid)
  cases hb : T.body with
  | createSession t =>
    obtain ⟨name, hmem, hname⟩ := key_of_validate h hl
    rw [hb, ← sym_inj.1 hname] at hmem
    exact absurd hmem (by simp [Body.type, TransactionType.fieldNames, canonicalFieldNames])
  | claimCreationDomain t | reserveCreation t | closeCreationReservation t | stageOwnerAttempt t | advanceOwner t
  | sessionCommit t => exact ⟨t.txId, hfield _ (by simp [hb, Body.scope, Scope.fields])⟩

theorem candidateTxId_eq_ok {candidate txId : Term} : candidateTxId candidate = .ok txId ↔
    ∃ kvs, candidate = .map kvs ∧ lookup (sym "tx_id") kvs = some txId := by
  unfold candidateTxId
  cases candidate with
  | map kvs =>
    cases hl : lookup (sym "tx_id") kvs with
    | none => simp [hl]
    | some t => simp [hl]
  | _ => simp

theorem RuntimeCommand.answer_passes {entry : RuntimeCommand} {query : CommandQuery} {answer : CommandAnswer}
    (hf : ∀ command status generation candidate result,
      entry = .staged command status generation candidate result → 0 < generation ∧
        (∃ T, validateTransaction candidate = .ok T) ∧ (status = .completed → result = some command.sessionId))
    (h : entry.answer query = .ok answer) : query.passes answer := by
  unfold RuntimeCommand.answer at h
  split at h
  · split at h <;> cases h <;> rfl
  · split at h <;> cases h <;> rfl
  · next command status generation candidate result command' =>
    split at h
    · obtain ⟨txId, htx, h⟩ := Attempt.bind_eq_ok.1 h
      obtain ⟨hpos, ⟨T, hT⟩, hresult⟩ := hf _ _ _ _ _ rfl
      obtain ⟨kvs, rfl, hl⟩ := candidateTxId_eq_ok.1 htx
      obtain ⟨id, rfl⟩ := identifier_of_txId hT hl
      split at h
      · cases h
        simp [CommandQuery.passes, identifierTerm, hpos]
      · cases h
        simp [CommandQuery.passes, identifierTerm, hpos, hresult rfl]
    · cases h
      rfl
  · cases h
    rfl

/-- **The port passes every answer on.** -/
theorem Reachable.passes {query : CommandQuery} {answer : CommandAnswer} (h : Reachable access S)
    (ha : S.runtimeCommand query = .ok answer) : query.passes answer := by
  unfold State.runtimeCommand at ha
  cases hl : S.runtimeCommands.lookup query.key with
  | none =>
    rw [hl] at ha
    cases ha
    rfl
  | some entry =>
    rw [hl] at ha
    exact RuntimeCommand.answer_passes (fun _ _ _ _ _ he => h.formed _ _ _ _ _ _ (he ▸ hl)) ha

/-- A resumed command names the transaction that resumed it, and the Store knows that one as committed. -/
theorem Reachable.resumed {command : OwnerCommand} {generation : ℕ} {x : Term} {result : Option Identifier}
    (h : Reachable access S) (ha : S.runtimeCommand (.resume command) = .ok (.resumed generation x result)) :
    result = some command.sessionId ∧ ∃ id : Identifier, x = id.term ∧
      S.transactionStatus command.sessionId command.mutationDomain id = some .committed := by
  unfold State.runtimeCommand at ha
  cases hl : S.runtimeCommands.lookup (CommandQuery.resume command).key with
  | none =>
    rw [hl] at ha
    cases ha
  | some entry =>
    rw [hl] at ha
    obtain ⟨command', status, generation', candidate, result', hquery, rfl⟩ := (answer_attempted_iff ha).1 rfl
    cases hquery
    simp only [RuntimeCommand.answer, if_pos] at ha
    obtain ⟨txId, htx, ha⟩ := Attempt.bind_eq_ok.1 ha
    cases status with
    | «open» => cases ha
    | completed =>
      cases ha
      obtain ⟨-, T, t, receipt, ⟨kvs, rfl, hbinding, hbody⟩, hr⟩ := h.completed _ _ _ _ _ hl
      obtain ⟨kvs', hkvs, htx⟩ := candidateTxId_eq_ok.1 htx
      cases hkvs
      obtain ⟨-, ⟨T', hT'⟩, hresult⟩ := h.formed _ _ _ _ _ _ hl
      have heq : T' = T := by
        have := immutableBinding_of_validate hT'
        rw [hbinding] at this
        exact (Check.ok.inj this).symm
      subst heq
      have hid := lookup_of_validate hT' (T'.body.scope_fields ("tx_id", t.txId.term) (by
        simp [hbody, Body.scope, Scope.fields]))
      refine ⟨hresult rfl, t.txId, Option.some.inj (htx.symm.trans hid), ?_⟩
      rw [State.transactionStatus_eq, hr]
      rfl

/-! ## the head -/

/-- A session goes on: its records and events stay, and its head does not move back. -/
structure Session.Grows (s s' : Session) : Prop where
  runtime : s'.runtimeId = s.runtimeId
  records : s.records <+: s'.records
  events : s.events <+: s'.events
  version : s.journalVersion ≤ s'.journalVersion
  epoch : s.ownerEpoch ≤ s'.ownerEpoch
  still : s.journalVersion = s'.journalVersion → s.ownerEpoch = s'.ownerEpoch

theorem Session.Grows.refl (s : Session) : s.Grows s :=
  ⟨rfl, List.prefix_rfl, List.prefix_rfl, le_rfl, le_rfl, fun _ => rfl⟩

theorem Session.Grows.trans {s s' s'' : Session} (h : s.Grows s') (h' : s'.Grows s'') : s.Grows s'' := by
  refine ⟨h'.runtime.trans h.runtime, h.records.trans h'.records, h.events.trans h'.events, h.version.trans h'.version,
    h.epoch.trans h'.epoch, fun he => ?_⟩
  have hv := h.version
  have hv' := h'.version
  exact (h.still (by omega)).trans (h'.still (by omega))

/-- Every session stays, and goes on. -/
def State.Grows (S S' : State) : Prop :=
  ∀ id s, S.sessions.lookup id = some s → ∃ s', S'.sessions.lookup id = some s' ∧ s.Grows s'

theorem State.Grows.refl (S : State) : S.Grows S := fun _ s hl => ⟨s, hl, .refl s⟩

theorem State.Grows.trans {S S' S'' : State} (h : S.Grows S') (h' : S'.Grows S'') : S.Grows S'' := by
  intro id s hl
  obtain ⟨s', hl', hg⟩ := h id s hl
  obtain ⟨s'', hl'', hg'⟩ := h' id s' hl'
  exact ⟨s'', hl'', hg.trans hg'⟩

theorem Session.grows_retain (s : Session) (domain : Identifier) (T : Transaction) (resolution : Resolution) :
    s.Grows (s.retain domain T resolution) :=
  ⟨rfl, List.prefix_rfl, List.prefix_rfl, le_rfl, le_rfl, fun _ => rfl⟩

theorem Session.grows_succeed (s : Session) (T : Transaction) (t : AdvanceOwner) : s.Grows (s.succeed T t) :=
  ⟨rfl, List.prefix_append .., List.prefix_rfl, Nat.le_succ _, Nat.le_succ _,
    fun h => absurd h (Nat.lt_succ_self s.journalVersion).ne⟩

theorem Session.grows_append (s : Session) (T : Transaction) (t : SessionCommit) : s.Grows (s.append T t) :=
  ⟨rfl, List.prefix_append .., List.prefix_append .., Nat.le_add_right .., le_rfl, fun _ => rfl⟩

theorem Moves.grows (h : Moves S T S' resolution records events) : S.Grows S' := by
  have hput : ∀ {R : State} {id : Identifier} {s s' : Session}, R.sessions = S.sessions.insert id s' →
      S.sessions.lookup id = some s → s.Grows s' → S.Grows R := by
    intro R id s s' hR hl hg i u hu
    rw [hR]
    by_cases hi : i = id
    · subst hi
      rw [hl] at hu
      cases hu
      exact ⟨s', AList.lookup_insert _, hg⟩
    · exact ⟨u, (AList.lookup_insert_ne hi).trans hu, .refl u⟩
  cases h with
  | refuse | claim | reserve | closed | cancel | unreserved | absent => exact .refl S
  | @create t c sessionId number body capsule runtime command valid reserved genesis generation version id fresh =>
    intro i s hl
    simp only [State.taken, Bool.or_eq_false_iff, Option.isSome_eq_false_iff, Option.isNone_iff_eq_none] at fresh
    have hi : i ≠ sessionId := by
      rintro rfl
      rw [fresh.1] at hl
      cases hl
    exact ⟨s, (AList.lookup_insert_ne hi).trans hl, .refl s⟩
  | @nonCommit sessionId domain s reason scope session_eq =>
    exact hput rfl session_eq (s.grows_retain domain T (.notCommitted reason))
  | @stage t s body session_eq =>
    exact hput rfl session_eq (s.grows_retain t.mutationDomain T (.committed .stage))
  | @succeed t s body session_eq => exact hput rfl session_eq (s.grows_succeed T t)
  | @resume t s c command status generation candidate result body session_eq =>
    exact hput rfl session_eq (s.grows_succeed T t)
  | @commit t s body session_eq => exact hput rfl session_eq (s.grows_append T t)

theorem grows_run (h : Run (Presents access) S presented S') : S.Grows S' :=
  h.relates (I := fun _ => True) (R := State.Grows) State.Grows.refl (fun _ _ _ => State.Grows.trans) trivial
    (fun _ _ _ _ _ => trivial) fun S kvs S' _ hs => by
      obtain ⟨T, resolution, records, events, -, -, hm⟩ := hs.moves
      exact hm.grows

theorem State.Grows.ownershipHead {s : Identifier} {epoch version : ℕ} (h : S.Grows S')
    (ho : S.ownershipHead s = some (epoch, version)) : ∃ epoch' version',
      S'.ownershipHead s = some (epoch', version') ∧ epoch ≤ epoch' ∧ version ≤ version' ∧
        (version = version' → epoch = epoch') := by
  obtain ⟨session, hl, heq⟩ := Option.map_eq_some_iff.1 ho
  cases heq
  obtain ⟨session', hl', hg⟩ := h _ _ hl
  exact ⟨_, _, by rw [State.ownershipHead, hl', Option.map_some], hg.epoch, hg.version, hg.still⟩

/-- **What a Store has answered stays.**  A final answer about a command is given for ever, and the port passes it on;
an open command stays an attempt, and once it is resumed the Store knows the transaction that resumed it as committed.
A terminal status is given for ever, and an owner's head never moves back. -/
theorem observations_stable (h : Reachable access S) (hrun : Run (Presents access) S presented S') :
    (∀ query answer, S.runtimeCommand query = .ok answer → query.passes answer ∧
      (answer.final → S'.runtimeCommand query = .ok answer) ∧
      ∀ answer', answer.attempted → S'.runtimeCommand query = .ok answer' → answer'.attempted) ∧
    (∀ command generation x result, S'.runtimeCommand (.resume command) = .ok (.resumed generation x result) →
      result = some command.sessionId ∧ ∃ id : Identifier, x = id.term ∧
        S'.transactionStatus command.sessionId command.mutationDomain id = some .committed) ∧
    (∀ s d x status, S.transactionStatus s d x = some status → S'.transactionStatus s d x = some status) ∧
    (∀ s epoch version, S.ownershipHead s = some (epoch, version) → ∃ epoch' version',
      S'.ownershipHead s = some (epoch', version') ∧ epoch ≤ epoch' ∧ version ≤ version' ∧
        (version = version' → epoch = epoch')) := by
  refine ⟨fun query answer ha => ⟨h.passes ha, (commandsKept_run hrun).answer ha, fun answer' hatt =>
    (commandsKept_run hrun).attempted ha hatt⟩, fun _ _ _ _ ha => (h.run hrun).resumed ha, ?_,
    fun _ _ _ => (grows_run hrun).ownershipHead⟩
  intro s d x status hs
  rw [State.transactionStatus_eq, Option.map_eq_some_iff] at hs ⊢
  obtain ⟨r, hr, rfl⟩ := hs
  exact ⟨r, resolved_run hrun _ _ hr, rfl⟩

/-! ## expected heads -/

/-- What a transaction compares before it commits: the version of a journal, or a counter of a creation head. -/
inductive Cell where
  | journal (sessionId : Identifier)
  | generation (runtimeId : Identifier)
  | version (runtimeId : Identifier)
  deriving DecidableEq

def State.cell (S : State) : Cell → ℕ
  | .journal sessionId => ((S.sessions.lookup sessionId).map Session.journalVersion).getD 0
  | .generation runtimeId => (S.creationHead runtimeId).ownerGeneration
  | .version runtimeId => (S.creationHead runtimeId).domainVersion

/-- What a transaction that moves a head expects of it. -/
def Body.expects : Body → Option (Cell × ℕ)
  | .claimCreationDomain t => some (.generation t.runtimeId, t.expectedOwnerGeneration)
  | .reserveCreation t => some (.version t.runtimeId, t.expectedDomainVersion)
  | .advanceOwner t => some (.journal t.sessionId, t.expectedJournalVersion)
  | .sessionCommit t => some (.journal t.sessionId, t.expectedJournalVersion)
  | _ => none

theorem Moves.head_le (h : Moves S T S' resolution records events) (r : Identifier) :
    (S.creationHead r).ownerGeneration ≤ (S'.creationHead r).ownerGeneration ∧
      (S.creationHead r).domainVersion ≤ (S'.creationHead r).domainVersion := by
  have hput : ∀ {R : State} {r' : Identifier} {head : Head}, R.creationHead r = (S.putHead r' head).creationHead r →
      (S.creationHead r').ownerGeneration ≤ head.ownerGeneration →
      (S.creationHead r').domainVersion ≤ head.domainVersion →
      (S.creationHead r).ownerGeneration ≤ (R.creationHead r).ownerGeneration ∧
        (S.creationHead r).domainVersion ≤ (R.creationHead r).domainVersion := by
    intro R r' head hR hg hv
    rw [hR, State.creationHead_putHead]
    split
    · next he =>
      rw [he]
      exact ⟨hg, hv⟩
    · exact ⟨le_rfl, le_rfl⟩
  cases h with
  | refuse | closed | unreserved | absent | nonCommit | stage | succeed | resume | commit => exact ⟨le_rfl, le_rfl⟩
  | claim body generation maximum head_eq =>
    rw [head_eq]
    exact hput rfl (Nat.le_succ _) le_rfl
  | reserve body eligible idle capsule command generation version head_eq =>
    rw [head_eq]
    exact hput rfl (Nat.le_succ _) (Nat.le_succ _)
  | cancel body closes unknown eligible generation version head_eq =>
    rw [head_eq]
    exact hput rfl (Nat.le_succ _) (Nat.le_succ _)
  | create => exact hput rfl (Nat.le_succ _) (Nat.le_succ _)

theorem Moves.cell_le (h : Moves S T S' resolution records events) (c : Cell) : S.cell c ≤ S'.cell c := by
  cases c with
  | generation r => exact (h.head_le r).1
  | version r => exact (h.head_le r).2
  | journal sessionId =>
    simp only [State.cell]
    cases hl : S.sessions.lookup sessionId with
    | none => exact Nat.zero_le _
    | some s =>
      obtain ⟨s', hl', hg⟩ := h.grows _ _ hl
      rw [hl']
      exact hg.version

/-- A transaction that commits finds the head it expects, and moves it. -/
theorem Moves.spends {c : Cell} {v : ℕ} {receipt : Receipt} (h : Moves S T S' (.committed receipt) records events)
    (he : T.body.expects = some (c, v)) : S.cell c = v ∧ v < S'.cell c := by
  have hjournal : ∀ {R : State} {id : Identifier} {s s' : Session}, R.sessions = S.sessions.insert id s' →
      S.sessions.lookup id = some s → s.journalVersion < s'.journalVersion →
      S.cell (.journal id) = s.journalVersion ∧ s.journalVersion < R.cell (.journal id) := by
    intro R id s s' hR hl hlt
    simpa [State.cell, hl, hR, AList.lookup_insert] using hlt
  cases h with
  | claim body generation maximum head_eq =>
    rw [body] at he
    cases he
    refine ⟨generation, ?_⟩
    show _ < ((S.putHead _ _).creationHead _).ownerGeneration
    rw [State.creationHead_putHead, if_pos rfl, head_eq, ← generation]
    exact Nat.lt_succ_self _
  | @reserve t head body eligible idle capsule command generation version head_eq =>
    rw [body] at he
    cases he
    have hversion : (S.creationHead t.runtimeId).domainVersion = t.expectedDomainVersion :=
      (creationEligibility_eq_none.1 eligible).2.2
    refine ⟨hversion, ?_⟩
    show _ < ((S.putHead _ _).creationHead _).domainVersion
    rw [State.creationHead_putHead, if_pos rfl, head_eq, ← hversion]
    exact Nat.lt_succ_self _
  | closed body | cancel body | create body | stage body =>
    rw [body] at he
    cases he
  | succeed body session_eq admitted | resume body session_eq admitted =>
    rw [body] at he
    cases he
    rw [(successionRefusal_eq_none admitted).2.2]
    exact hjournal rfl session_eq (Nat.lt_succ_self _)
  | @commit t s body session_eq admitted =>
    rw [body] at he
    cases he
    rw [(ordinaryRefusal_eq_none.1 admitted).2.2.1]
    exact hjournal rfl session_eq (Nat.lt_add_of_pos_right (List.length_pos_iff.2 t.records_ne))

theorem cell_run (h : Run (Presents access) S presented S') (c : Cell) : S.cell c ≤ S'.cell c :=
  h.relates (I := fun _ => True) (R := fun S S' => S.cell c ≤ S'.cell c) (fun _ => le_rfl) (fun _ _ _ => le_trans)
    trivial (fun _ _ _ _ _ => trivial) fun S kvs S' _ hs => by
      obtain ⟨T, resolution, records, events, -, -, hm⟩ := hs.moves
      exact hm.cell_le c

/-- A presentation commits under a head that it expects. -/
def Spends (access : StructAccess) (c : Cell) (v : ℕ) (S : State) (kvs : List (Term × Term)) (S' : State) : Prop :=
  ∃ fuel frame txId receipt T, prepare access fuel S kvs = .ok (.new S' frame (.committed txId receipt)) ∧
    validateTransaction (.map kvs) = .ok T ∧ T.body.expects = some (c, v)

theorem Spends.cell {c : Cell} {v : ℕ} (h : Spends access c v S kvs S') : S.cell c = v ∧ v < S'.cell c := by
  obtain ⟨fuel, frame, txId, receipt, T, hprepare, hT, he⟩ := h
  obtain ⟨T', resolution, records, events, hT', -, hm, -, houtcome⟩ := prepare_new hprepare
  rw [hT] at hT'
  cases hT'
  cases resolution with
  | committed receipt' => exact hm.spends he
  | notCommitted reason => cases houtcome

/-- **An expected head is spent at most once**: after a claim, a reservation, a succession or a commit under a
generation or a version, no later one commits under the same or a smaller one. -/
theorem head_spent_once {c : Cell} {v v' : ℕ} {kvs' : List (Term × Term)} {S₁ S₂ S₃ : State}
    (h : Spends access c v S kvs S₁) (hrun : Run (Presents access) S₁ presented S₂)
    (h' : Spends access c v' S₂ kvs' S₃) : v < v' := by
  have hle := cell_run hrun c
  have hlt := h.cell.2
  have heq := h'.cell.1
  omega

/-! ## the head of a resumed session -/

section Resumed

/-- The head of the bare session once its second owner has resumed it. -/
theorem observations_stable_resumed : ∃ epoch version,
    resumedState.ownershipHead successor.sessionId = some (epoch, version) ∧ 1 ≤ epoch ∧ 2 ≤ version ∧
      (2 = version → 1 = epoch) :=
  (observations_stable ((Opening.bare.reachable_owned _ _ _).run (.one presents_successorStage) : Reachable noAccess _)
    (.one presents_successor)).2.2.2 _ _ _ (by
      rw [State.ownershipHead, stagedState_session]
      rfl)

/-- A new answer under a committed resolution spends the head that its transaction expects. -/
theorem Spends.of_presents {c : Cell} {v : ℕ} (h : Presents access S kvs S')
    (hv : validateTransaction (.map kvs) = .ok T)
    (hr : ∃ receipt, S'.resolved T.body.scope = some ⟨T, .committed receipt⟩)
    (he : T.body.expects = some (c, v)) : Spends access c v S kvs S' := by
  obtain ⟨fuel, frame, outcome, h⟩ := h
  obtain ⟨receipt, hr⟩ := hr
  obtain ⟨T', resolution, records, events, hT', -, hm, -, houtcome⟩ := prepare_new h
  rw [hv] at hT'
  cases hT'
  rw [hm.resolved] at hr
  cases hr
  exact ⟨fuel, frame, _, receipt, T, houtcome ▸ h, hv, he⟩

/-- The first owner of the bare session spends version 1 of its journal. -/
theorem spends_owned : Spends noAccess (.journal successor.sessionId) 1 Opening.bare.opened
    (Transaction.seal (.advanceOwner (Opening.bare.succeed resumedDomain ⟨utf8 "t", by decide, by decide⟩
      ⟨utf8 "o", by decide, by decide⟩))).entries ownedState := by
  refine .of_presents (Opening.bare.presents_succeed _ _ _)
    (validateTransaction_entries (build_seal (Opening.bare.succeed_fits _ _ _)) trivial) ?_ rfl
  show ∃ receipt, ownedState.resolved (.session Opening.bare.sessionId resumedDomain _) = some ⟨_, .committed receipt⟩
  rw [State.resolved_session, State.scopedResolutions_of_session ownedState_session]
  exact ⟨_, AList.lookup_insert _⟩

/-- Once the session is resumed, nothing spends that version again. -/
theorem head_spent_once_owned : ¬ ∃ kvs S', Spends noAccess (.journal successor.sessionId) 1 resumedState kvs S' := by
  rintro ⟨kvs, S', h⟩
  exact absurd (head_spent_once spends_owned (.snoc (.one presents_successorStage) presents_successor) h)
    (lt_irrefl 1)

end Resumed

end Loopex.Store
