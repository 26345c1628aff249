import Loopex.Store.AtomMap

/-!
# What validation reads

* `validateFields_eq_ok` — what the checks of each type amount to;
* `validateFields_fields` — a transaction's fields are those it was read from;
* `immutableBinding_of_validate` — a valid transaction is its own immutable binding;
* `validateTransaction_entries` — what a builder builds is valid.
-/

namespace Loopex.Store

open Loopex.Erlang Loopex.Erlang.Term Loopex.Runtime

/-! ## what the readers read -/

namespace Fields

theorem identifier_eq_some {fs : Fields} {name : String} {id : Identifier} :
    fs.identifier name = some id ↔ fs.get name = some id.term := by
  have key : ∀ t, (validateIdentifier t).toOption = some id ↔ t = id.term := by
    intro t
    rw [show id.term = .binary id.bytes from rfl, ← validateIdentifier_eq_ok]
    cases validateIdentifier t <;> simp [Except.toOption]
  cases hg : fs.get name <;> simp [identifier, hg, key]

theorem fetchIdentifier_eq_ok {fs : Fields} {name : String} {id : Identifier} :
    fs.fetchIdentifier name = .ok id ↔ fs.get name = some id.term := by
  unfold fetchIdentifier
  cases hg : fs.get name <;> simp [Identifier.term]

theorem nonNegative_eq_ok {fs : Fields} {name : String} {n : ℕ} :
    fs.nonNegative name = .ok n ↔ fs.get name = some (.int n) := by
  unfold nonNegative
  split
  · next k hk =>
    rw [hk]
    split
    · simp only [Except.ok.injEq, Option.some.injEq, Term.int.injEq]; omega
    · simp only [reduceCtorEq, Option.some.injEq, Term.int.injEq, false_iff]; omega
  · next hne => simpa using hne _

theorem counter_eq_some {fs : Fields} {name : String} {n : {n : ℕ // n ≤ creationUint64}} :
    fs.counter name = some n ↔ fs.get name = some (.int n.1) := by
  obtain ⟨n, hn⟩ := n
  unfold counter
  split
  · next k hk =>
    rw [hk]
    split
    · simp only [Option.some.injEq, Subtype.mk.injEq, Term.int.injEq]; omega
    · simp only [reduceCtorEq, Option.some.injEq, Term.int.injEq, false_iff]; omega
  · next hne => simpa using hne _

theorem selection_eq_some {fs : Fields} {name : String} {s : Selection} :
    fs.selection name = some s ↔ fs.get name = some s.term := by
  obtain ⟨b, hl, hh⟩ := s
  unfold selection
  split
  · next c hc =>
    rw [hc]
    split
    · simp [Selection.term]
    · next hne =>
      simp only [reduceCtorEq, Selection.term, Option.some.injEq, Term.binary.injEq, false_iff]
      rintro rfl
      exact hne ⟨hl, hh⟩
  · next hne => simpa [Selection.term] using hne _

theorem binary_eq_some {fs : Fields} {name : String} {b : Bytes} :
    fs.binary name = some b ↔ fs.get name = some (.binary b) := by
  unfold binary
  split
  · next c hc => simp [hc]
  · next hne => simpa using hne _

end Fields

theorem attemptGeneration_eq_some {fs : Fields} {n : {n : ℕ // 0 < n}} :
    attemptGeneration fs = some n ↔ fs.get "attempt_generation" = some (.int n.1) := by
  obtain ⟨n, hn⟩ := n
  unfold attemptGeneration
  split
  · next k hk =>
    rw [hk]
    split
    · simp only [Option.some.injEq, Subtype.mk.injEq, Term.int.injEq]; omega
    · simp only [reduceCtorEq, Option.some.injEq, Term.int.injEq, false_iff]; omega
  · next hne => simpa using hne _

theorem canonicalCommand_eq_ok {fs : Fields} {e : Reason} {b : Bytes} :
    canonicalCommand fs e = .ok b ↔ fs.get "canonical_command_bytes" = some (.binary b) ∧
      fs.get "canonical_command_digest" = some (.binary (sha256 b)) := by
  unfold canonicalCommand
  constructor
  · intro h
    obtain ⟨c, hc, h⟩ := Check.bind_eq_ok.1 h
    obtain ⟨n, hn, h⟩ := Check.bind_eq_ok.1 h
    obtain ⟨-, -, h⟩ := Check.bind_eq_ok.1 h
    obtain ⟨_, hd, h⟩ := Check.bind_eq_ok.1 h
    cases h
    exact ⟨Fields.binary_eq_some.1 (Check.ofOption_eq_ok.1 hc), by simpa using hd⟩
  · rintro ⟨hb, hd⟩
    rw [Fields.binary_eq_some.2 hb, hd]
    simp [Check.ofOption, byteSize, Check.require]

/-! ## what the checks amount to -/

theorem validateClaim_eq_some {fs : Fields} {t : ClaimCreationDomain} :
    validateClaim fs = some t ↔ fs.get "runtime_id" = some t.runtimeId.term ∧
      fs.get "owner_selection" = some t.ownerSelection.term ∧
      fs.get "expected_owner_generation" = some (.int t.expectedOwnerGeneration) ∧
      fs.get "tx_id" = some t.txId.term := by
  unfold validateClaim
  simp only [Option.bind_eq_bind, Option.bind_eq_some_iff, Fields.identifier_eq_some,
    Fields.selection_eq_some, Fields.counter_eq_some]
  constructor
  · rintro ⟨runtimeId, h1, selection, h2, generation, h3, h⟩
    split at h <;> cases h
    exact ⟨h1, h2, h3, ‹_›⟩
  · rintro ⟨h1, h2, h3, h4⟩
    exact ⟨_, h1, _, h2, ⟨_, t.counter⟩, h3, by simp [h4]⟩

theorem validateReserve_eq_some {fs : Fields} {t : ReserveCreation} :
    validateReserve fs = some t ↔ fs.get "runtime_id" = some t.runtimeId.term ∧
      fs.get "owner_selection" = some t.ownerSelection.term ∧
      fs.get "command_id" = some t.commandId.term ∧
      fs.get "owner_generation" = some (.int t.ownerGeneration) ∧
      fs.get "expected_domain_version" = some (.int t.expectedDomainVersion) ∧
      fs.get "genesis" = some t.genesis ∧ fs.get "tx_id" = some t.txId.term := by
  unfold validateReserve
  simp only [Option.bind_eq_bind, Option.bind_eq_some_iff, Fields.identifier_eq_some,
    Fields.selection_eq_some, Fields.counter_eq_some]
  constructor
  · rintro ⟨runtimeId, h1, selection, h2, commandId, h3, generation, h4, version, h5, genesis, h6, h⟩
    split at h
    · split at h
      · split at h <;> cases h
        exact ⟨h1, h2, h3, h4, h5, h6, ‹_›⟩
      · cases h
    · cases h
  · rintro ⟨h1, h2, h3, h4, h5, h6, h7⟩
    refine ⟨_, h1, _, h2, _, h3, ⟨_, t.generationCounter⟩, h4, ⟨_, t.versionCounter⟩, h5, _, h6, ?_⟩
    split
    · next n hn =>
      obtain rfl : t.genesis = n := by rw [t.normal] at hn; exact Except.ok.inj hn
      simp [t.positive, h7]
    · next e he => rw [t.normal] at he; cases he

theorem validateClose_eq_some {fs : Fields} {t : CloseCreationReservation} :
    validateClose fs = some t ↔ fs.get "runtime_id" = some t.runtimeId.term ∧
      fs.get "owner_selection" = some t.ownerSelection.term ∧
      fs.get "command_id" = some t.commandId.term ∧
      fs.get "owner_generation" = some (.int t.ownerGeneration) ∧
      fs.get "expected_domain_version" = some (.int t.expectedDomainVersion) ∧
      fs.get "reservation_tx_id" = some t.reservationTxId.term ∧
      fs.get "reservation_domain_version" = some (.int t.reservationDomainVersion) ∧
      fs.get "final_canonical_record_bytes" = some (.binary t.finalCanonicalRecordBytes) ∧
      fs.get "final_canonical_mutation_digest" = some (.binary t.finalCanonicalMutationDigest) ∧
      0 < t.ownerGeneration ∧ 0 < t.reservationDomainVersion ∧
      validCreationFinal t.runtimeId t.commandId t.finalCanonicalRecordBytes
        t.finalCanonicalMutationDigest ∧
      fs.get "tx_id" = some t.txId.term := by
  unfold validateClose
  simp only [Option.bind_eq_bind, Option.bind_eq_some_iff, Fields.identifier_eq_some,
    Fields.selection_eq_some, Fields.counter_eq_some, Fields.binary_eq_some]
  constructor
  · rintro ⟨runtimeId, h1, selection, h2, commandId, h3, generation, h4, version, h5, reservation, h6,
      reservationVersion, h7, bytes, h8, digest, h9, h⟩
    split at h <;> cases h
    next hc => exact ⟨h1, h2, h3, h4, h5, h6, h7, h8, h9, hc⟩
  · rintro ⟨h1, h2, h3, h4, h5, h6, h7, h8, h9, hc⟩
    refine ⟨_, h1, _, h2, _, h3, ⟨_, t.generationCounter⟩, h4, ⟨_, t.versionCounter⟩, h5, _, h6,
      ⟨_, t.reservationCounter⟩, h7, _, h8, _, h9, ?_⟩
    exact if_pos hc

/-- The fields of a runtime command. -/
def SuccessionCommand.In (c : SuccessionCommand) (fs : Fields) : Prop :=
  fs.get "runtime_id" = some c.runtimeId.term ∧ fs.get "command_id" = some c.commandId.term ∧
    fs.get "command_kind" = some (sym "resume") ∧ fs.get "succession_id" = some c.successionId.term ∧
    fs.get "canonical_command_bytes" = some (.binary c.canonicalCommandBytes) ∧
    fs.get "canonical_command_digest" = some (.binary (sha256 c.canonicalCommandBytes)) ∧
    fs.get "attempt_generation" = some (.int c.attemptGeneration)

theorem validateStage_eq_ok {candidate : Check Reason Unit} {fs : Fields} {t : StageOwnerAttempt} :
    validateStage candidate fs = .ok t ↔ fs.get "session_id" = some t.sessionId.term ∧
      fs.get "mutation_domain" = some t.mutationDomain.term ∧ fs.get "tx_id" = some t.txId.term ∧
      t.command.In fs ∧ fs.get "expected_generation" = some (.int t.expectedGeneration) ∧
      fs.get "candidate" = some t.candidate ∧ isMap t.candidate = true ∧ candidate = .ok () := by
  unfold validateStage SuccessionCommand.In
  simp only [Check.bind_eq_ok, Check.ofExcept_eq_ok, Check.ofOption_eq_ok, Check.require_eq_ok,
    Check.orError_eq_ok, Fields.fetchIdentifier_eq_ok, Fields.nonNegative_eq_ok,
    canonicalCommand_eq_ok, attemptGeneration_eq_some, decide_eq_true_eq]
  constructor
  · rintro ⟨runtimeId, h1, commandId, h2, sessionId, h3, domain, h4, succession, h5, txId, h6, -, h7,
      bytes, ⟨h8, h9⟩, attempt, h10, expected, h11, c, h12, -, h13, u, h14, h⟩
    cases h
    exact ⟨h3, h4, h6, ⟨h1, h2, h7, h5, h8, h9, h10⟩, h11, h12, h13, h14⟩
  · rintro ⟨h3, h4, h6, ⟨h1, h2, h7, h5, h8, h9, h10⟩, h11, h12, h13, h14⟩
    exact ⟨_, h1, _, h2, _, h3, _, h4, _, h5, _, h6, (), h7, _, ⟨h8, h9⟩, ⟨_, t.command.positive⟩, h10,
      _, h11, _, h12, (), h13, (), h14, rfl⟩

theorem validateOwnerCommand_eq_ok {fs : Fields} {c : Option SuccessionCommand} :
    validateOwnerCommand fs = .ok c ↔
      (c = none ∧ fs.get "runtime_id" = none) ∨ ∃ d, c = some d ∧ d.In fs := by
  unfold validateOwnerCommand SuccessionCommand.In
  split
  · next hr =>
    simp only [Check.bind_eq_ok, Check.ofOption_eq_ok, Check.require_eq_ok, Fields.identifier_eq_some,
      canonicalCommand_eq_ok, attemptGeneration_eq_some, decide_eq_true_eq]
    constructor
    · rintro ⟨runtimeId, h1, commandId, h2, -, h3, succession, h4, bytes, ⟨h5, h6⟩, attempt, h7, h⟩
      cases h
      exact .inr ⟨_, rfl, h1, h2, h3, h4, h5, h6, h7⟩
    · rintro (⟨-, hn⟩ | ⟨d, rfl, h1, h2, h3, h4, h5, h6, h7⟩)
      · simp [hn] at hr
      · exact ⟨_, h1, _, h2, (), h3, _, h4, _, ⟨h5, h6⟩, ⟨_, d.positive⟩, h7, rfl⟩
  · next hr =>
    simp only [Check.ok.injEq]
    constructor
    · rintro rfl
      exact .inl ⟨rfl, by simpa using hr⟩
    · rintro (⟨rfl, -⟩ | ⟨d, -, h1, -⟩)
      · rfl
      · simp [h1] at hr

theorem validateAdvance_eq_ok {fs : Fields} {t : AdvanceOwner} :
    validateAdvance fs = .ok t ↔ fs.get "session_id" = some t.sessionId.term ∧
      fs.get "mutation_domain" = some t.mutationDomain.term ∧ fs.get "tx_id" = some t.txId.term ∧
      fs.get "expected_owner_epoch" = some (.int t.expectedOwnerEpoch) ∧
      fs.get "expected_journal_version" = some (.int t.expectedJournalVersion) ∧
      fs.get "proposed_owner_incarnation_id" = some t.proposedOwnerIncarnationId.term ∧
      ((t.command = none ∧ fs.get "runtime_id" = none) ∨ ∃ d, t.command = some d ∧ d.In fs) := by
  unfold validateAdvance
  simp only [Check.bind_eq_ok, Check.ofExcept_eq_ok, Fields.fetchIdentifier_eq_ok,
    Fields.nonNegative_eq_ok, validateOwnerCommand_eq_ok]
  constructor
  · rintro ⟨session, h1, domain, h2, txId, h3, epoch, h4, version, h5, incarnation, h6, c, h7, h⟩
    cases h
    exact ⟨h1, h2, h3, h4, h5, h6, h7⟩
  · rintro ⟨h1, h2, h3, h4, h5, h6, h7⟩
    exact ⟨_, h1, _, h2, _, h3, _, h4, _, h5, _, h6, _, h7, rfl⟩

theorem validateRecords_eq_ok {t : Option Term}
    {rs : {rs : List Term // rs ≠ [] ∧ ∀ r ∈ rs, validateItem .record r = .ok ()}} :
    validateRecords t = .ok rs ↔ t = some (.list rs.1) ∧ rs.1.length ≤ maxItems := by
  unfold validateRecords
  split
  · next r l =>
    split
    · next hl =>
      split
      · next u h =>
        simp only [Check.ok.injEq, Subtype.ext_iff, Option.some.injEq, Term.list.injEq]
        exact ⟨fun h => ⟨h, h ▸ hl⟩, fun h => h.1⟩
      · next e h =>
        simp only [reduceCtorEq, Option.some.injEq, Term.list.injEq, false_iff]
        rintro ⟨heq, -⟩
        have hall : validateItems .record .invalidRecords rs.1 = .ok () := validateItems_eq_ok.2 rs.2.2
        rw [← heq, h] at hall
        cases hall
    · next hl =>
      simp only [reduceCtorEq, Option.some.injEq, Term.list.injEq, false_iff]
      rintro ⟨heq, hle⟩
      exact hl (heq ▸ hle)
  · simp
  · next hne _ =>
    obtain ⟨l, hl, -⟩ := rs
    cases l with
    | nil => exact absurd rfl hl
    | cons r l => simpa using fun h => absurd h (hne r l)

theorem validateEvents_eq_ok {t : Option Term}
    {es : {es : List Term // (∀ e ∈ es, validateItem .event e = .ok ()) ∧ (eventIds es).Nodup}} :
    validateEvents t = .ok es ↔ t = some (.list es.1) ∧ es.1.length ≤ maxItems := by
  unfold validateEvents
  split
  · next l =>
    split
    · next hl =>
      split
      · next u h =>
        split
        · simp only [Check.ok.injEq, Subtype.ext_iff, Option.some.injEq, Term.list.injEq]
          exact ⟨fun h => ⟨h, h ▸ hl⟩, fun h => h.1⟩
        · next hn =>
          simp only [reduceCtorEq, Option.some.injEq, Term.list.injEq, false_iff]
          rintro ⟨heq, -⟩
          exact hn (heq ▸ es.2.2)
      · next e h =>
        simp only [reduceCtorEq, Option.some.injEq, Term.list.injEq, false_iff]
        rintro ⟨heq, -⟩
        have hall : validateItems .event .invalidEvents es.1 = .ok () := validateItems_eq_ok.2 es.2.1
        rw [← heq, h] at hall
        cases hall
    · next hl =>
      simp only [reduceCtorEq, Option.some.injEq, Term.list.injEq, false_iff]
      rintro ⟨heq, hle⟩
      exact hl (heq ▸ hle)
  · next h1 =>
    simp only [reduceCtorEq, false_iff]
    rintro ⟨rfl, -⟩
    exact h1 _ rfl

theorem validateCommit_eq_ok {fs : Fields} {t : SessionCommit} :
    validateCommit fs = .ok t ↔ fs.get "session_id" = some t.sessionId.term ∧
      fs.get "mutation_domain" = some t.mutationDomain.term ∧ fs.get "tx_id" = some t.txId.term ∧
      fs.get "expected_owner_epoch" = some (.int t.expectedOwnerEpoch) ∧
      fs.get "expected_owner_incarnation_id" = some t.expectedOwnerIncarnationId.term ∧
      fs.get "expected_journal_version" = some (.int t.expectedJournalVersion) ∧
      fs.get "records" = some (.list t.records) ∧ fs.get "outbox" = some (.list t.outbox) ∧
      t.records.length ≤ maxItems ∧ t.outbox.length ≤ maxItems ∧
      containsValueList t.expectedOwnerIncarnationId.bytes t.outbox = false := by
  unfold validateCommit
  simp only [Check.bind_eq_ok, Check.ofExcept_eq_ok, Check.require_eq_ok,
    Fields.fetchIdentifier_eq_ok, Fields.nonNegative_eq_ok, validateRecords_eq_ok,
    validateEvents_eq_ok, decide_eq_true_eq]
  constructor
  · rintro ⟨session, h1, domain, h2, txId, h3, epoch, h4, incarnation, h5, version, h6, rs, ⟨h7, h8⟩,
      es, ⟨h9, h10⟩, -, h11, -, -, h⟩
    cases h
    exact ⟨h1, h2, h3, h4, h5, h6, h7, h9, h8, h10, by simpa using h11⟩
  · rintro ⟨h1, h2, h3, h4, h5, h6, h7, h8, h9, h10, h11⟩
    exact ⟨_, h1, _, h2, _, h3, _, h4, _, h5, _, h6, ⟨_, t.records_ne, t.records_valid⟩, ⟨h7, h9⟩,
      ⟨_, t.outbox_valid, t.ids_nodup⟩, ⟨h8, h10⟩, (), by simp [h11], (), by dsimp only; omega, rfl⟩

theorem validateCreate_eq_ok {fs : Fields} {t : CreateSession} :
    validateCreate fs = .ok t ↔ fs.get "runtime_id" = some t.runtimeId.term ∧
      fs.get "command_id" = some t.commandId.term ∧ (fs.get "genesis").getD nil = t.genesis := by
  unfold validateCreate
  simp only [Check.bind_eq_ok, Check.ofExcept_eq_ok, Fields.fetchIdentifier_eq_ok]
  constructor
  · rintro ⟨runtimeId, h1, commandId, h2, h⟩
    split at h <;> cases h
    exact ⟨h1, h2, rfl⟩
  · rintro ⟨h1, h2, h3⟩
    refine ⟨_, h1, _, h2, ?_⟩
    have hv := t.valid
    split
    · simp [h3]
    · next e he => rw [h3, hv] at he; cases he

/-- What is checked of a transaction beyond the form of its fields. -/
def Body.Checks (candidate : Check Reason Unit) : Body → Prop
  | closeCreationReservation t => 0 < t.ownerGeneration ∧ 0 < t.reservationDomainVersion ∧
      validCreationFinal t.runtimeId t.commandId t.finalCanonicalRecordBytes
        t.finalCanonicalMutationDigest
  | stageOwnerAttempt t => isMap t.candidate = true ∧ candidate = .ok ()
  | sessionCommit t => t.records.length ≤ maxItems ∧ t.outbox.length ≤ maxItems ∧
      containsValueList t.expectedOwnerIncarnationId.bytes t.outbox = false
  | _ => True

theorem fieldNames_nodup (type : TransactionType) (owned : Bool) : (type.fieldNames owned).Nodup := by
  cases type <;> cases owned <;> decide

theorem Body.values_length (b : Body) :
    (b.type.fieldNames b.owned).length = (sym b.type.name :: b.values).length := by
  cases b with
  | advanceOwner t => cases hc : t.command <;> simp [type, owned, values, TransactionType.fieldNames, hc]
  | _ => rfl

@[simp] theorem Body.fields_names (b : Body) : b.fields.map Prod.fst = b.type.fieldNames b.owned := by
  rw [fields, List.map_fst_zip]
  rw [b.values_length]

/-- **The checks of a transaction amount to** the values of its fields and its own side conditions. -/
theorem validateFields_eq_ok {type : TransactionType} {candidate : Check Reason Unit} {fs : Fields}
    {b : Body} :
    validateFields type candidate fs = .ok b ↔ b.type = type ∧
      (∀ f ∈ b.fields, f.1 ≠ "type" → fs.get f.1 = some f.2) ∧
      (type = .advanceOwner → b.owned = (fs.get "runtime_id").isSome) ∧ b.Checks candidate := by
  cases type with
  | claimCreationDomain =>
    simp only [validateFields, Check.ofOption_eq_ok, Option.map_eq_some_iff, validateClaim_eq_some]
    constructor
    · rintro ⟨t, h, rfl⟩
      refine ⟨rfl, ?_, by simp, trivial⟩
      simp [Body.fields, Body.type, Body.values, TransactionType.fieldNames, h]
    · rintro ⟨h, hf, -, -⟩
      cases b <;> try cases h
      next t =>
      simp [Body.fields, Body.type, Body.values, TransactionType.fieldNames] at hf
      exact ⟨t, by simp [hf], rfl⟩
  | reserveCreation =>
    simp only [validateFields, Check.ofOption_eq_ok, Option.map_eq_some_iff, validateReserve_eq_some]
    constructor
    · rintro ⟨t, h, rfl⟩
      refine ⟨rfl, ?_, by simp, trivial⟩
      simp [Body.fields, Body.type, Body.values, TransactionType.fieldNames, h]
    · rintro ⟨h, hf, -, -⟩
      cases b <;> try cases h
      next t =>
      simp [Body.fields, Body.type, Body.values, TransactionType.fieldNames] at hf
      exact ⟨t, by simp [hf], rfl⟩
  | closeCreationReservation =>
    simp only [validateFields, Check.ofOption_eq_ok, Option.map_eq_some_iff, validateClose_eq_some]
    constructor
    · rintro ⟨t, h, rfl⟩
      refine ⟨rfl, ?_, by simp, ⟨h.2.2.2.2.2.2.2.2.2.1, h.2.2.2.2.2.2.2.2.2.2.1, h.2.2.2.2.2.2.2.2.2.2.2.1⟩⟩
      simp [Body.fields, Body.type, Body.values, TransactionType.fieldNames, h]
    · rintro ⟨h, hf, -, hc⟩
      cases b <;> try cases h
      next t =>
      simp only [Body.Checks] at hc
      simp [Body.fields, Body.type, Body.values, TransactionType.fieldNames] at hf
      exact ⟨t, by simp [hf, hc], rfl⟩
  | createSession =>
    simp only [validateFields, Check.bind_eq_ok, validateCreate_eq_ok, Check.ok.injEq]
    constructor
    · rintro ⟨t, ⟨h1, h2, h3⟩, rfl⟩
      refine ⟨rfl, ?_, by simp, trivial⟩
      cases hg : fs.get "genesis" with
      | none =>
        have hv := t.valid
        rw [← h3, hg] at hv
        exact absurd hv (by decide)
      | some g =>
        rw [hg] at h3
        simp [Body.fields, Body.type, Body.values, TransactionType.fieldNames, h1, h2, hg, ← h3]
    · rintro ⟨h, hf, -, -⟩
      cases b <;> try cases h
      next t =>
      simp [Body.fields, Body.type, Body.values, TransactionType.fieldNames] at hf
      exact ⟨t, by simp [hf], rfl⟩
  | stageOwnerAttempt =>
    simp only [validateFields, Check.bind_eq_ok, validateStage_eq_ok, SuccessionCommand.In, Check.ok.injEq]
    constructor
    · rintro ⟨t, h, rfl⟩
      refine ⟨rfl, ?_, by simp, h.2.2.2.2.2.2⟩
      simp [Body.fields, Body.type, Body.values, TransactionType.fieldNames, h]
    · rintro ⟨h, hf, -, hc⟩
      cases b <;> try cases h
      next t =>
      simp only [Body.Checks] at hc
      simp [Body.fields, Body.type, Body.values, TransactionType.fieldNames] at hf
      exact ⟨t, by simp [hf, hc], rfl⟩
  | advanceOwner =>
    simp only [validateFields, Check.bind_eq_ok, validateAdvance_eq_ok, SuccessionCommand.In, Check.ok.injEq]
    constructor
    · rintro ⟨t, h, rfl⟩
      obtain ⟨h1, h2, h3, h4, h5, h6, ⟨hc, hr⟩ | ⟨c, hc, hr⟩⟩ := h
      · refine ⟨rfl, ?_, by simp [Body.owned, hc, hr], trivial⟩
        simp [Body.fields, Body.type, Body.values, Body.owned, TransactionType.fieldNames, hc, h1, h2, h3,
          h4, h5, h6]
      · refine ⟨rfl, ?_, by simp [Body.owned, hc, hr], trivial⟩
        simp [Body.fields, Body.type, Body.values, Body.owned, TransactionType.fieldNames, hc, h1, h2, h3,
          h4, h5, h6, hr]
    · rintro ⟨h, hf, ho, -⟩
      cases b <;> try cases h
      next t =>
      refine ⟨t, ?_, rfl⟩
      have ho := ho trivial
      cases hc : t.command with
      | none =>
        simp only [Body.owned, hc, Option.isSome_none, Bool.false_eq, Option.isSome_eq_false_iff,
          Option.isNone_iff_eq_none] at ho
        simp [Body.fields, Body.type, Body.values, Body.owned, TransactionType.fieldNames, hc] at hf
        simp [hf, ho]
      | some c =>
        simp [Body.fields, Body.type, Body.values, Body.owned, TransactionType.fieldNames, hc] at hf
        simp [hf]
  | sessionCommit =>
    simp only [validateFields, Check.bind_eq_ok, validateCommit_eq_ok, Check.ok.injEq]
    constructor
    · rintro ⟨t, h, rfl⟩
      refine ⟨rfl, ?_, by simp, h.2.2.2.2.2.2.2.2⟩
      simp [Body.fields, Body.type, Body.values, TransactionType.fieldNames, h]
    · rintro ⟨h, hf, -, hc⟩
      cases b <;> try cases h
      next t =>
      simp only [Body.Checks] at hc
      simp [Body.fields, Body.type, Body.values, TransactionType.fieldNames] at hf
      exact ⟨t, by simp [hf, hc], rfl⟩

/-! ## transactions and their maps -/

theorem fetchFields_eq_ok {kvs : List (Term × Term)} {names : List String} {fs : Fields} :
    fetchFields kvs names = .ok fs ↔
      fs.map Prod.fst = names ∧ ∀ f ∈ fs, lookup (sym f.1) kvs = some f.2 := by
  induction names generalizing fs with
  | nil =>
    simp only [fetchFields, Except.ok.injEq, List.map_eq_nil_iff]
    exact ⟨by rintro rfl; simp, fun h => h.1.symm⟩
  | cons name names ih =>
    simp only [fetchFields]
    split
    · next v hv =>
      simp only [Except.bind_eq_ok, ih, Except.ok.injEq]
      constructor
      · rintro ⟨rest, ⟨rfl, h⟩, rfl⟩
        exact ⟨rfl, List.forall_mem_cons.2 ⟨hv, h⟩⟩
      · rintro ⟨hn, h⟩
        cases fs with
        | nil => simp at hn
        | cons f fs =>
          simp only [List.map_cons, List.cons.injEq] at hn
          obtain ⟨h1, h2⟩ := List.forall_mem_cons.1 h
          rw [hn.1, hv] at h1
          exact ⟨fs, ⟨hn.2, h2⟩, by rw [← hn.1, Option.some.inj h1]⟩
    · next hv =>
      simp only [reduceCtorEq, false_iff]
      rintro ⟨hn, h⟩
      cases fs with
      | nil => simp at hn
      | cons f fs =>
        simp only [List.map_cons, List.cons.injEq] at hn
        have := (List.forall_mem_cons.1 h).1
        rw [hn.1, hv] at this
        cases this

theorem semanticFields_eq_ok {kvs : List (Term × Term)} {type : TransactionType} {fs : Fields} :
    semanticFields kvs = .ok (type, fs) ↔ typeOf kvs = some type ∧
      (type.isCreation = true →
        closedMap (.map kvs) (type.fieldNames (hasKey (sym "runtime_id") kvs) ++ canonicalFieldNames)) ∧
      fs.map Prod.fst = type.fieldNames (hasKey (sym "runtime_id") kvs) ∧
      ∀ f ∈ fs, lookup (sym f.1) kvs = some f.2 := by
  unfold semanticFields
  split
  · next h => simp [h]
  · next t h =>
    simp only [h, Option.some.injEq]
    split
    · next hc =>
      simp only [Bool.and_eq_true, Bool.not_eq_eq_eq_not, Bool.not_true] at hc
      simp only [reduceCtorEq, false_iff]
      rintro ⟨rfl, h', -⟩
      rw [h' hc.1] at hc
      cases hc.2
    · next hc =>
      simp only [Except.bind_eq_ok, fetchFields_eq_ok, Except.ok.injEq, Prod.mk.injEq]
      constructor
      · rintro ⟨fs', h', rfl, rfl⟩
        exact ⟨rfl, fun ht => by simpa [ht] using hc, h'⟩
      · rintro ⟨rfl, -, h'⟩
        exact ⟨_, h', rfl, rfl⟩

theorem Fields.eq_of_get {fs gs : Fields} (hn : fs.map Prod.fst = gs.map Prod.fst)
    (hnodup : (gs.map Prod.fst).Nodup) (h : ∀ g ∈ gs, fs.get g.1 = some g.2) : fs = gs := by
  have hlen : fs.length = gs.length := by simpa using congrArg List.length hn
  refine List.ext_getElem hlen fun i hi hi' => ?_
  have hfst : fs[i].1 = gs[i].1 := by
    have := List.getElem_of_eq hn (i := i) (by simpa using hi)
    simpa using this
  have h1 := Fields.get_of_mem (hn ▸ hnodup) (List.getElem_mem hi)
  have h2 := h _ (List.getElem_mem hi')
  rw [hfst, h2] at h1
  exact Prod.ext hfst (Option.some.inj h1).symm

theorem type_mem_fieldNames (type : TransactionType) (owned : Bool) : "type" ∈ type.fieldNames owned := by
  cases type <;> simp [TransactionType.fieldNames]

theorem Body.get_type (b : Body) : b.fields.get "type" = some (sym b.type.name) := by
  cases b <;> simp [fields, type, values, TransactionType.fieldNames]

theorem lookup_type {kvs : List (Term × Term)} {type : TransactionType} (h : typeOf kvs = some type) :
    lookup (sym "type") kvs = some (sym type.name) := by
  obtain ⟨t, ht, h⟩ := Option.bind_eq_some_iff.1 h
  rw [ht, TransactionType.ofTerm_eq_some.1 h]

/-- **A transaction's fields are those it was read from.** -/
theorem validateFields_fields {kvs : List (Term × Term)} {type : TransactionType} {fs : Fields}
    {candidate : Check Reason Unit} {b : Body} (hs : semanticFields kvs = .ok (type, fs))
    (hb : validateFields type candidate fs = .ok b) : b.type = type ∧ b.fields = fs := by
  obtain ⟨ht, -, hn, hl⟩ := semanticFields_eq_ok.1 hs
  obtain ⟨rfl, hf, ho, -⟩ := validateFields_eq_ok.1 hb
  refine ⟨rfl, (Fields.eq_of_get ?_ ?_ ?_).symm⟩
  · rw [hn, b.fields_names]
    cases b with
    | advanceOwner t =>
      have hget : (fs.get "runtime_id").isSome = hasKey (sym "runtime_id") kvs := by
        cases hk : hasKey (sym "runtime_id") kvs with
        | true =>
          have hmem : "runtime_id" ∈ fs.map Prod.fst := by rw [hn, hk]; simp [Body.type, TransactionType.fieldNames]
          obtain ⟨f, hf, hfe⟩ := List.mem_map.1 hmem
          rw [← hfe, Fields.get_of_mem (hn ▸ fieldNames_nodup _ _) hf]
          rfl
        | false =>
          rw [Option.isSome_eq_false_iff, Option.isNone_iff_eq_none]
          cases hg : fs.get "runtime_id" with
          | none => rfl
          | some v =>
            have hl := hl _ (Fields.mem_of_get hg)
            simp only [hasKey, hl] at hk
            cases hk
      rw [ho rfl, hget]
    | _ => rfl
  · rw [b.fields_names]
    exact fieldNames_nodup _ _
  · intro f hf'
    by_cases hty : f.1 = "type"
    · -- the first field is the type the map was read under
      have h1 : f.2 = sym b.type.name := by
        have := Fields.get_of_mem (by rw [b.fields_names]; exact fieldNames_nodup _ _) hf'
        rw [hty, b.get_type] at this
        exact (Option.some.inj this).symm
      have hmem : "type" ∈ fs.map Prod.fst := by rw [hn]; exact type_mem_fieldNames _ _
      obtain ⟨g, hg, hge⟩ := List.mem_map.1 hmem
      have h2 := Fields.get_of_mem (hn ▸ fieldNames_nodup _ _) hg
      rw [hge] at h2
      have h3 := hl g hg
      rw [hge, lookup_type ht] at h3
      rw [hty, h1, h2, ← Option.some.inj h3]
    · exact hf f hf' hty

theorem validateValues_eq (kvs : List (Term × Term)) :
    validateValues kvs = kvs.map fun e => (e.1, (validateTransaction e.2).verdict) := by
  induction kvs with
  | nil => simp [validateValues]
  | cons e kvs ih => simp [validateValues, ih]

/-- The verdict on the candidate is the verdict on a transaction. -/
theorem verdictOf_eq_ok {kvs : List (Term × Term)} {t : Term} (h : lookup (sym "candidate") kvs = some t) :
    verdictOf kvs = .ok () ↔ ∃ T, validateTransaction t = .ok T := by
  unfold verdictOf
  rw [validateValues_eq]
  induction kvs with
  | nil => simp [lookup] at h
  | cons e kvs ih =>
    simp only [lookup] at h
    simp only [List.map_cons, candidateVerdict]
    split at h
    · next he =>
      rw [if_pos he, Option.some.inj h, Check.verdict_eq_ok]
    · next he => rw [if_neg he, ih h]

theorem validateMap_eq_ok {candidate : Check Reason Unit} {kvs : List (Term × Term)} {T : Transaction} :
    validateMap candidate kvs = .ok T ↔ ∃ type fs, semanticFields kvs = .ok (type, fs) ∧
      exactKeys kvs fs = true ∧ validateFields type candidate fs = .ok T.body ∧
      canonicalBytes fs = .ok T.canonicalRecordBytes ∧
      lookup (sym "canonical_record_bytes") kvs = some (.binary T.canonicalRecordBytes) ∧
      lookup (sym "canonical_mutation_digest") kvs = some (.binary T.canonicalMutationDigest) ∧
      T.canonicalMutationDigest = sha256 T.canonicalRecordBytes := by
  unfold validateMap
  simp only [Check.bind_eq_ok, Check.ofExcept_eq_ok, Check.require_eq_ok, decide_eq_true_eq]
  constructor
  · rintro ⟨⟨type, fs⟩, h1, -, h2, body, h3, canonical, h4, -, h5, -, h6, h⟩
    cases h
    exact ⟨type, fs, h1, h2, h3, h4, h5, h6, rfl⟩
  · rintro ⟨type, fs, h1, h2, h3, h4, h5, h6, h7⟩
    obtain ⟨body, canonical, digest⟩ := T
    obtain rfl : digest = sha256 canonical := h7
    exact ⟨(type, fs), h1, (), h2, body, h3, canonical, h4, (), h5, (), h6, rfl⟩

theorem canonicalBytes_eq_ok {fs : Fields} {b : Bytes} :
    canonicalBytes fs = .ok b ↔ b = encodeFields fs ∧ (encodeFields fs).length ≤ maxMutationBytes := by
  unfold canonicalBytes
  split
  · next h => simp [h, eq_comm]
  · next h => simp [h]

/-- **A valid transaction is its own immutable binding.** -/
theorem immutableBinding_of_validate {kvs : List (Term × Term)} {T : Transaction}
    (h : validateTransaction (.map kvs) = .ok T) : immutableBinding kvs = .ok T := by
  rw [validateTransaction] at h
  obtain ⟨type, fs, h1, h2, h3, h4, h5, h6, h7⟩ := validateMap_eq_ok.1 h
  obtain ⟨hb, hle⟩ := canonicalBytes_eq_ok.1 h4
  obtain ⟨body, canonical, digest⟩ := T
  obtain rfl : digest = sha256 canonical := h7
  obtain rfl : canonical = encodeFields fs := hb
  unfold immutableBinding
  simp only [Check.bind_eq_ok, Check.ofExcept_eq_ok, Check.require_eq_ok]
  refine ⟨(type, fs), h1, (), h2, body, h3, ?_⟩
  rw [h5, h6]
  simp [hle]

/-- A valid transaction binds the bytes of its own fields. -/
theorem validate_canonical {kvs : List (Term × Term)} {T : Transaction}
    (h : validateTransaction (.map kvs) = .ok T) : build T.body = .ok T := by
  rw [validateTransaction] at h
  obtain ⟨type, fs, h1, -, h3, h4, -, -, h7⟩ := validateMap_eq_ok.1 h
  unfold build
  rw [(validateFields_fields h1 h3).2, h4]
  obtain ⟨body, canonical, digest⟩ := T
  obtain rfl : digest = sha256 canonical := h7
  rfl

theorem build_eq_ok {b : Body} {T : Transaction} :
    build b = .ok T ↔ T = ⟨b, encodeFields b.fields, sha256 (encodeFields b.fields)⟩ ∧
      (encodeFields b.fields).length ≤ maxMutationBytes := by
  unfold build
  simp only [Except.bind_eq_ok, canonicalBytes_eq_ok, Except.ok.injEq]
  constructor
  · rintro ⟨c, ⟨rfl, h⟩, rfl⟩
    exact ⟨rfl, h⟩
  · rintro ⟨rfl, h⟩
    exact ⟨_, ⟨rfl, h⟩, rfl⟩

/-! ## what a builder builds -/

theorem Transaction.names (T : Transaction) :
    T.fields.map Prod.fst = T.body.type.fieldNames T.body.owned ++ canonicalFieldNames := by
  simp [fields, canonicalFieldNames]

theorem names_apart (type : TransactionType) (owned : Bool) :
    Apart (type.fieldNames owned ++ canonicalFieldNames) ∧
      "__struct__" ∉ type.fieldNames owned ++ canonicalFieldNames := by
  cases type <;> cases owned <;> decide +kernel

namespace Transaction

theorem apart (T : Transaction) : Apart (T.fields.map Prod.fst) := by
  rw [T.names]
  exact (names_apart _ _).1

theorem lookup_entries (T : Transaction) (name : String) :
    lookup (sym name) T.entries = T.fields.get name :=
  lookup_entriesOf_fields T.apart name

theorem mem_entries {T : Transaction} {e : Term × Term} :
    e ∈ T.entries ↔ ∃ f ∈ T.fields, e = (sym f.1, f.2) := by
  rw [entries, (perm_fields T.apart).mem_iff, List.mem_map]
  simp only [eq_comm]

theorem hasKey_entries (T : Transaction) (name : String) :
    hasKey (sym name) T.entries = true ↔
      name ∈ T.body.type.fieldNames T.body.owned ++ canonicalFieldNames := by
  rw [← T.names]
  exact hasKey_fields T.apart name

end Transaction

theorem fieldNames_owned (b : Body) (T : Transaction) (h : T.body = b) :
    b.type.fieldNames (hasKey (sym "runtime_id") T.entries) = b.type.fieldNames b.owned := by
  cases b with
  | advanceOwner t =>
    congr 1
    rw [Bool.eq_iff_iff, T.hasKey_entries, h]
    cases hc : t.command <;>
      simp [Body.type, Body.owned, TransactionType.fieldNames, canonicalFieldNames, hc]
  | _ => rfl

theorem semanticFields_entries {T : Transaction} : semanticFields T.entries = .ok (T.body.type, T.body.fields) := by
  have hget : ∀ f ∈ T.body.fields, lookup (sym f.1) T.entries = some f.2 := by
    intro f hf
    rw [T.lookup_entries, Transaction.fields, Fields.get_append,
      Fields.get_of_mem (by rw [T.body.fields_names]; exact fieldNames_nodup _ _) hf]
    rfl
  refine semanticFields_eq_ok.2 ⟨?_, fun _ => ?_, ?_, hget⟩
  · rw [typeOf, hget _ (Fields.mem_of_get T.body.get_type)]
    exact TransactionType.ofTerm_eq_some.2 rfl
  · rw [fieldNames_owned _ _ rfl]
    refine closedMap_atomMap T.apart ?_ T.names.symm
    rw [T.names]
    exact (names_apart _ _).2
  · rw [fieldNames_owned _ _ rfl, T.body.fields_names]

theorem exactKeys_entries (T : Transaction) : exactKeys T.entries T.body.fields = true := by
  simp only [exactKeys, Bool.and_eq_true, List.all_eq_true, decide_eq_true_eq, T.body.fields_names,
    ← T.names]
  constructor
  · intro e he
    obtain ⟨f, hf, rfl⟩ := Transaction.mem_entries.1 he
    exact List.mem_map_of_mem (List.mem_map_of_mem hf)
  · intro k hk
    obtain ⟨name, hname, rfl⟩ := List.mem_map.1 hk
    exact (T.hasKey_entries name).2 (by rwa [← T.names])

theorem Transaction.get_canonical (T : Transaction) :
    T.fields.get "canonical_record_bytes" = some (.binary T.canonicalRecordBytes) ∧
      T.fields.get "canonical_mutation_digest" = some (.binary T.canonicalMutationDigest) := by
  have hget : ∀ f ∈ T.fields, T.fields.get f.1 = some f.2 :=
    fun f hf => Fields.get_of_mem T.apart.1 hf
  exact ⟨hget ("canonical_record_bytes", .binary T.canonicalRecordBytes) (by simp [fields]),
    hget ("canonical_mutation_digest", .binary T.canonicalMutationDigest) (by simp [fields])⟩

/-- The fields of a body are read back, if the checks of its type hold. -/
theorem validateFields_body {b : Body} {candidate : Check Reason Unit} (hc : b.Checks candidate) :
    validateFields b.type candidate b.fields = .ok b := by
  refine validateFields_eq_ok.2 ⟨rfl, fun f hf _ => ?_, fun ht => ?_, hc⟩
  · exact Fields.get_of_mem (by rw [b.fields_names]; exact fieldNames_nodup _ _) hf
  · cases b <;> try cases ht
    next t =>
    cases hcm : t.command <;>
      simp [Body.fields, Body.type, Body.values, Body.owned, TransactionType.fieldNames, hcm]

/-- **What a builder builds is valid**, if the checks of its type hold. -/
theorem validateTransaction_entries {b : Body} {T : Transaction} (h : build b = .ok T)
    (hc : b.Checks (verdictOf T.entries)) : validateTransaction (.map T.entries) = .ok T := by
  obtain ⟨rfl, hle⟩ := build_eq_ok.1 h
  rw [validateTransaction]
  refine validateMap_eq_ok.2 ⟨_, _, semanticFields_entries, exactKeys_entries _, validateFields_body hc,
    canonicalBytes_eq_ok.2 ⟨rfl, hle⟩, ?_, ?_, rfl⟩
  · rw [Transaction.lookup_entries]
    exact (Transaction.get_canonical _).1
  · rw [Transaction.lookup_entries]
    exact (Transaction.get_canonical _).2

/-- A transaction under a digest that is not that of its bytes is refused. -/
theorem validateTransaction_digest {b : Body} {digest : Bytes}
    (hle : (encodeFields b.fields).length ≤ maxMutationBytes) (hne : digest ≠ sha256 (encodeFields b.fields))
    (hc : b.Checks (verdictOf (Transaction.mk b (encodeFields b.fields) digest).entries)) :
    validateTransaction (.map (Transaction.mk b (encodeFields b.fields) digest).entries) =
      .error .canonicalBindingMismatch := by
  have hx := exactKeys_entries (Transaction.mk b (encodeFields b.fields) digest)
  change exactKeys _ b.fields = true at hx
  rw [validateTransaction, validateMap, semanticFields_entries]
  simp only [Check.ofExcept, Check.ok_bind, hx, Check.require, if_true]
  rw [show candidateVerdict _ = verdictOf (Transaction.mk b (encodeFields b.fields) digest).entries from rfl,
    validateFields_body hc]
  simp only [Check.ok_bind, canonicalBytes_eq_ok.2 ⟨rfl, hle⟩, Transaction.lookup_entries,
    (Transaction.get_canonical _).1, (Transaction.get_canonical _).2, decide_true, if_true]
  rw [if_neg (by simpa using hne)]
  rfl

/-- Its binding is read as it is presented. -/
theorem immutableBinding_entries {T : Transaction} (hc : T.body.Checks (verdictOf T.entries))
    (hle : T.canonicalRecordBytes.length ≤ maxMutationBytes) (hd : T.canonicalMutationDigest.length = 32) :
    immutableBinding T.entries = .ok T := by
  unfold immutableBinding
  rw [semanticFields_entries]
  simp only [Check.ofExcept, Check.ok_bind, exactKeys_entries, Check.require, if_true, validateFields_body hc,
    Transaction.lookup_entries, T.get_canonical.1, T.get_canonical.2, hle, hd]

/-! ## equal bindings -/

theorem lookup_loose (key : Term) (kvs : List (Term × Term)) :
    lookup key (kvs.map looseEntry) = (lookup key kvs).map loosen := by
  induction kvs with
  | nil => rfl
  | cons e kvs ih =>
    simp only [List.map_cons, lookup, looseEntry]
    split
    · rfl
    · exact ih

/-- Equal bindings have equal fields, up to the kind of a number. -/
theorem Transaction.get_of_sameBinding {s t : Transaction} (h : s.sameBinding t = true) (name : String) :
    (s.fields.get name).map loosen = (t.fields.get name).map loosen := by
  rw [sameBinding, looseEq_iff, loosen_map, loosen_map, Term.map.injEq] at h
  change List.map looseEntry _ = List.map looseEntry _ at h
  rw [← s.lookup_entries, ← t.lookup_entries, ← lookup_loose, h, lookup_loose]

theorem Transaction.canonical_of_sameBinding {s t : Transaction} (h : s.sameBinding t = true) :
    s.canonicalRecordBytes = t.canonicalRecordBytes ∧
      s.canonicalMutationDigest = t.canonicalMutationDigest := by
  have h1 := get_of_sameBinding h "canonical_record_bytes"
  have h2 := get_of_sameBinding h "canonical_mutation_digest"
  rw [s.get_canonical.1, t.get_canonical.1] at h1
  rw [s.get_canonical.2, t.get_canonical.2] at h2
  simpa using And.intro h1 h2

theorem TransactionType.name_inj {a b : TransactionType} (h : sym a.name = sym b.name) : a = b := by
  have ha := ofTerm_eq_some.2 (rfl : sym a.name = sym a.name)
  rw [h, ofTerm_eq_some.2 rfl] at ha
  exact (Option.some.inj ha).symm

/-- Equal bindings are of one type. -/
theorem Transaction.type_of_sameBinding {s t : Transaction} (h : s.sameBinding t = true) :
    s.body.type = t.body.type := by
  have htype : ∀ T : Transaction, T.fields.get "type" = some (sym T.body.type.name) := fun T => by
    rw [fields, Fields.get_append, T.body.get_type]
    rfl
  have hget := get_of_sameBinding h "type"
  rw [htype, htype] at hget
  exact TransactionType.name_inj (Option.some.inj hget)

/-! ## the binding determines the transaction -/

/-- The candidate of a staging is plain data in canonical form. -/
def Body.PlainCandidate : Body → Prop
  | stageOwnerAttempt t => Plain t.candidate
  | _ => True

/-- What plain data inherits the values of a body have, its candidate aside. -/
theorem Body.inherited_values {P : Term → Prop} (hP : Inherited P)
    (hatoms : ∀ s ∈ ["nil", "true", "false", "kind", "event_id"], P (sym s)) (hresume : P (sym "resume"))
    (b : Body) (h : ∀ t, b = .stageOwnerAttempt t → P t.candidate) : ∀ v ∈ b.values, P v := by
  have hid : ∀ id : Identifier, P id.term := fun id => hP.binary id.bytes
  have hsel : ∀ s : Selection, P s.term := fun s => hP.binary s.bytes
  have hitem : ∀ {plane : Plane} {item : Term}, validateItem plane item = .ok () → P item :=
    validateItem_inherits hP hatoms
  have hint := hP.int
  have hbin := hP.binary
  cases b with
  | claimCreationDomain t =>
    simp only [values, List.forall_mem_cons]
    exact ⟨hid _, hint _, hsel _, hid _, by simp⟩
  | reserveCreation t =>
    simp only [values, List.forall_mem_cons]
    exact ⟨hid _, hid _, hint _, hsel _, hint _, hitem (normalizeCreationGenesis_validateItem t.normal),
      hid _, by simp⟩
  | closeCreationReservation t =>
    simp only [values, List.forall_mem_cons]
    exact ⟨hid _, hid _, hint _, hsel _, hint _, hid _, hint _, hbin _, hbin _, hid _, by simp⟩
  | createSession t =>
    simp only [values, List.forall_mem_cons]
    exact ⟨hid _, hid _, hitem t.valid, by simp⟩
  | stageOwnerAttempt t =>
    simp only [values, List.forall_mem_cons]
    exact ⟨hid _, hid _, hresume, hid _, hid _, hid _, hbin _, hbin _, hint _, hint _, hid _, h t rfl, by simp⟩
  | advanceOwner t =>
    simp only [values, List.forall_mem_append, List.forall_mem_cons]
    refine ⟨⟨hid _, hid _, hid _, hint _, hint _, hid _, by simp⟩, ?_⟩
    cases t.command with
    | none => simp
    | some c =>
      simp only [List.forall_mem_cons]
      exact ⟨hid _, hid _, hresume, hid _, hbin _, hbin _, hint _, by simp⟩
  | sessionCommit t =>
    simp only [values, List.forall_mem_cons]
    exact ⟨hid _, hid _, hid _, hint _, hid _, hint _, hP.list fun r hr => hitem (t.records_valid r hr),
      hP.list fun e he => hitem (t.outbox_valid e he), by simp⟩

theorem Body.plain_values (b : Body) (h : b.PlainCandidate) : ∀ v ∈ b.values, Plain v := by
  refine b.inherited_values Plain.inherited (fun s hs => plain_sym ?_) (plain_sym (by decide)) ?_
  · revert s
    decide
  · rintro t rfl
    exact h

theorem plain_name (type : TransactionType) (owned : Bool) :
    Plain (sym type.name) ∧ ∀ name ∈ type.fieldNames owned, Plain (sym name) := by
  have key : ∀ names : List String, (∀ name ∈ names, (utf8 name).length < 2 ^ 16) →
      ∀ name ∈ names, Plain (sym name) := fun names h name hn => plain_sym (h name hn)
  refine ⟨plain_sym ?_, key _ ?_⟩
  · cases type <;> decide
  · cases type <;> cases owned <;> decide

/-- The term whose bytes are the canonical bytes. -/
def fieldsTerm (fs : Fields) : Term :=
  .list (str "loopex_store_transaction_v1" :: fs.map fun f => .tuple [sym f.1, f.2])

theorem Body.plain_fieldsTerm (b : Body) (h : b.PlainCandidate) : Plain (fieldsTerm b.fields) := by
  refine .list fun x hx => ?_
  rcases List.mem_cons.1 hx with rfl | hx
  · exact .binary
  · obtain ⟨f, hf, rfl⟩ := List.mem_map.1 hx
    have hname : f.1 ∈ b.type.fieldNames b.owned := by
      rw [← b.fields_names]
      exact List.mem_map_of_mem hf
    have hvalue : f.2 ∈ sym b.type.name :: b.values := (List.of_mem_zip hf).2
    refine .tuple fun y hy => ?_
    simp only [List.mem_cons, List.not_mem_nil, or_false] at hy
    rcases hy with rfl | rfl
    · exact (plain_name _ _).2 _ hname
    · rcases List.mem_cons.1 hvalue with hv | hv
      · rw [hv]
        exact (plain_name b.type b.owned).1
      · exact b.plain_values h _ hv

/-- The type and the values of a body determine it. -/
theorem Body.eq_of_values {a b : Body} (ht : a.type = b.type) (hv : a.values = b.values) : a = b := by
  cases a <;> cases b <;> simp only [type, reduceCtorEq] at ht <;> simp only [values] at hv
  case claimCreationDomain s t =>
    simp only [List.cons.injEq, Identifier.term_inj, Selection.term_inj, Term.int.injEq,
      Nat.cast_inj] at hv
    obtain ⟨h1, h2, h3, -⟩ := hv
    cases s; cases t
    cases h1; cases h2; cases h3
    rfl
  case reserveCreation s t =>
    simp only [List.cons.injEq, Identifier.term_inj, Selection.term_inj, Term.int.injEq,
      Nat.cast_inj] at hv
    obtain ⟨h1, h2, h3, h4, h5, h6, -⟩ := hv
    cases s; cases t
    cases h1; cases h2; cases h3; cases h4; cases h5; cases h6
    rfl
  case closeCreationReservation s t =>
    simp only [List.cons.injEq, Identifier.term_inj, Selection.term_inj, Term.int.injEq, Nat.cast_inj,
      Term.binary.injEq] at hv
    obtain ⟨h1, h2, h3, h4, h5, h6, h7, h8, h9, -⟩ := hv
    cases s; cases t
    cases h1; cases h2; cases h3; cases h4; cases h5; cases h6; cases h7; cases h8; cases h9
    rfl
  case createSession s t =>
    simp only [List.cons.injEq, Identifier.term_inj] at hv
    obtain ⟨h1, h2, h3, -⟩ := hv
    cases s; cases t
    cases h1; cases h2; cases h3
    rfl
  case stageOwnerAttempt s t =>
    simp only [List.cons.injEq, Identifier.term_inj, Term.int.injEq, Nat.cast_inj,
      Term.binary.injEq] at hv
    obtain ⟨h1, h2, -, h3, h4, h5, h6, -, h7, h8, h9, h10, -⟩ := hv
    obtain ⟨s1, s2, s3, ⟨⟩, s5, s6⟩ := s
    obtain ⟨t1, t2, t3, ⟨⟩, t5, t6⟩ := t
    cases h1; cases h2; cases h3; cases h4; cases h5; cases h6; cases h7; cases h8; cases h9; cases h10
    rfl
  case advanceOwner s t =>
    obtain ⟨s1, s2, s3, s4, s5, s6, sc⟩ := s
    obtain ⟨t1, t2, t3, t4, t5, t6, tc⟩ := t
    simp only [List.cons_append, List.nil_append, List.cons.injEq, Identifier.term_inj, Term.int.injEq,
      Nat.cast_inj] at hv
    obtain ⟨rfl, rfl, rfl, rfl, rfl, rfl, hc⟩ := hv
    cases sc with
    | none =>
      cases tc with
      | none => rfl
      | some d => cases hc
    | some c =>
      cases tc with
      | none => cases hc
      | some d =>
        simp only [List.cons.injEq, Identifier.term_inj, Term.int.injEq, Nat.cast_inj,
          Term.binary.injEq] at hc
        obtain ⟨h1, h2, -, h3, h4, -, h5, -⟩ := hc
        cases c; cases d
        cases h1; cases h2; cases h3; cases h4; cases h5
        rfl
  case sessionCommit s t =>
    simp only [List.cons.injEq, Identifier.term_inj, Term.int.injEq, Nat.cast_inj, Term.list.injEq] at hv
    obtain ⟨h1, h2, h3, h4, h5, h6, h7, h8, -⟩ := hv
    cases s; cases t
    cases h1; cases h2; cases h3; cases h4; cases h5; cases h6; cases h7; cases h8
    rfl

theorem Body.fields_values (b : Body) : b.fields.map Prod.snd = sym b.type.name :: b.values :=
  List.map_snd_zip (by rw [b.values_length])

theorem Body.eq_of_fields {a b : Body} (h : a.fields = b.fields) : a = b := by
  have ht : a.type = b.type := by
    have := a.get_type
    rw [h, b.get_type] at this
    exact (TransactionType.name_inj (Option.some.inj this)).symm
  have hv : sym a.type.name :: a.values = sym b.type.name :: b.values := by
    rw [← fields_values, ← fields_values, h]
  exact eq_of_values ht (List.cons.inj hv).2

/-- **The binding determines a valid transaction**, whose canonical bytes spell its fields. -/
theorem Transaction.eq_of_sameBinding {s t : Transaction} (hs : build s.body = .ok s)
    (ht : build t.body = .ok t) (ps : s.body.PlainCandidate) (pt : t.body.PlainCandidate)
    (h : s.sameBinding t = true) : s = t := by
  obtain ⟨hs', hle⟩ := build_eq_ok.1 hs
  obtain ⟨ht', -⟩ := build_eq_ok.1 ht
  have hbytes : encodeFields s.body.fields = encodeFields t.body.fields := by
    have := (canonical_of_sameBinding h).1
    rwa [hs', ht'] at this
  have hlen : (encodeFields s.body.fields).length < 2 ^ 32 :=
    lt_of_le_of_lt hle (by decide)
  have hterm : fieldsTerm s.body.fields = fieldsTerm t.body.fields :=
    termToBinary_inj (s.body.plain_fieldsTerm ps) (t.body.plain_fieldsTerm pt) hlen hbytes
  have hfields : s.body.fields = t.body.fields := by
    simp only [fieldsTerm, Term.list.injEq, List.cons.injEq, true_and] at hterm
    refine List.map_injective_iff.2 (fun f g hfg => ?_) hterm
    simp only [Term.tuple.injEq, List.cons.injEq, and_true, sym_inj] at hfg
    exact Prod.ext hfg.1 hfg.2
  rw [hs', ht', Body.eq_of_fields hfields]

end Loopex.Store
