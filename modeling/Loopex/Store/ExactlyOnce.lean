import Loopex.Store.CrashRecovery

/-!
# Exactly once

* `exactly_once` — **the resolution of a transaction is the answer to every later presentation**;
* `prepare_digest`, `Opening.prepare_retyped`, `Orphans.prepare_improper` — the bindings that are no conflict.
-/

namespace Loopex.Store

open Loopex.Erlang Loopex.Erlang.Term Loopex.Runtime Loopex.System

variable {access : StructAccess} {fuel : ℕ} {S S' : State} {kvs : List (Term × Term)}
  {presented : List (List (Term × Term))}

/-! ## bindings that are equal only loosely -/

/-- The candidate of a valid staging is plain data, when the transaction presented was a genuine map. -/
theorem plainCandidate_of_validate {T : Transaction} (hg : Genuine (.map kvs))
    (h : validateTransaction (.map kvs) = .ok T) : T.body.PlainCandidate := by
  cases hb : T.body with
  | stageOwnerAttempt t =>
    have hl : lookup (sym "candidate") kvs = some t.candidate := by
      refine lookup_of_validate h (f := ("candidate", t.candidate)) ?_
      rw [hb]
      simp [Body.fields, Body.type, Body.values, TransactionType.fieldNames]
    exact ((stored_of_validate hg h).entries.2 _ (lookup_eq_some hl)).2.plain
  | _ => trivial

/-- A valid transaction is `==` to no other: its canonical bytes tell the kinds of its numbers. -/
theorem not_looselySame {kvs' : List (Term × Term)} {T T' : Transaction} (hg : Genuine (.map kvs))
    (hg' : Genuine (.map kvs')) (hT : validateTransaction (.map kvs) = .ok T)
    (hT' : validateTransaction (.map kvs') = .ok T') (hne : T' ≠ T) : ¬ LooselySame kvs' T := by
  rintro ⟨b, hb, hsame⟩
  rw [immutableBinding_of_validate hT'] at hb
  cases hb
  exact hne (Transaction.eq_of_sameBinding (validate_canonical hT') (validate_canonical hT)
    (plainCandidate_of_validate hg' hT') (plainCandidate_of_validate hg hT) hsame)

/-- **The resolution of a transaction is the answer to every later presentation**: of itself with the same
outcome, and of any other binding under its scope with a conflict, with the exceptions of `Answered`.  No valid
transaction is one of them.  No session is created under the id of an orphan, and an entry of the
runtime commands changes only while it is an open attempt. -/
theorem exactly_once {S₁ S₂ : State} {frame : Frame} {outcome : Outcome} (hr : Reachable access S)
    (h : prepare access fuel S kvs = .ok (.new S₁ frame outcome))
    (hrun : Run (Presents access) S₁ presented S₂) :
    ∃ T, validateTransaction (.map kvs) = .ok T ∧
      (∀ fuel', prepare access fuel' S₂ kvs = .ok (.known outcome)) ∧
      (∀ kvs' fuel', scopeOf access kvs' = .ok (.at T.body.scope) → Answered access fuel' S₂ kvs' T outcome) ∧
      (∀ kvs' T' fuel', Genuine (.map kvs) → Genuine (.map kvs') → validateTransaction (.map kvs') = .ok T' →
        T'.body.scope = T.body.scope → T' ≠ T →
        prepare access fuel' S₂ kvs' = .ok (.known (.notCommitted .txIdConflict))) ∧
      S₂.Disjoint ∧
      (∀ id, (S.orphanResolutions.lookup id).isSome → S₂.sessions.lookup id = none) ∧
      S₁.CommandsKept S₂ := by
  obtain ⟨T, resolution, records, events, hT, hn, hm, -, rfl⟩ := prepare_new h
  have hstep : Presents access S kvs S₁ := ⟨fuel, frame, _, h⟩
  have hkept : S₂.resolved T.body.scope = some ⟨T, resolution⟩ := resolved_run hrun _ _ hm.resolved
  have hd : S₂.Disjoint := (hr.run ((Run.one hstep).trans hrun)).disjoint
  refine ⟨T, hT, fun _ => prepare_known hT hkept, fun _ _ hs => answered hs hkept,
    fun kvs' T' _ hg hg' hT' hs hne => ?_, hd, fun id hid => ?_, commandsKept_run hrun⟩
  · have hscope : scopeOf access kvs' = .ok (.at T.body.scope) := hs ▸ scopeOf_of_validate hT'
    refine prepare_conflict hscope hkept (fun _ => ⟨T', hT'⟩) (not_looselySame hg hg' hT hT' hne) fun x hx => ?_
    rw [immutableBinding_of_validate hT'] at hx
    cases hx
  · have horphan := orphansKept_run hrun id (hstep.orphansKept id hid)
    cases hl : S₂.sessions.lookup id with
    | none => rfl
    | some session =>
      rw [hd id (by simp [hl])] at horphan
      cases horphan

/-- The claim of an opening, presented again once the session is open. -/
theorem exactly_once_claim : ∃ outcome,
    (∀ fuel', prepare noAccess fuel' Opening.bare.opened
      (Transaction.seal (.claimCreationDomain Opening.bare.claim)).entries = .ok (.known outcome)) ∧
    Opening.bare.opened.Disjoint ∧ Opening.bare.claimed.CommandsKept Opening.bare.opened := by
  obtain ⟨fuel, frame, outcome, h⟩ : Presents noAccess State.new _ _ := Opening.bare.presents_claim
  obtain ⟨T, -, hknown, -, -, hdisjoint, -, hkept⟩ := exactly_once ⟨[], .nil⟩ h
    (.snoc (.one Opening.bare.presents_reserve) Opening.bare.presents_create)
  exact ⟨outcome, hknown, hdisjoint, hkept⟩

/-! ## a binding that is not looked up -/

/-- **A claim under another digest is invalid**, though its scope is resolved and its binding differs. -/
theorem prepare_digest (access : StructAccess) (fuel : ℕ) {t : ClaimCreationDomain} {digest : Bytes} (hlen : digest.length = 32)
    (hne : digest ≠ sha256 (encodeFields (Body.claimCreationDomain t).fields)) :
    let forged : Transaction := ⟨.claimCreationDomain t, encodeFields (Body.claimCreationDomain t).fields, digest⟩
    scopeOf access forged.entries = .ok (.at (Body.claimCreationDomain t).scope) ∧
      Differs forged.entries (.seal (.claimCreationDomain t)) ∧
      prepare access fuel S forged.entries = .ok (.invalid (.notCommitted .invalidTransaction)) := by
  intro forged
  have hfits := claimCreationDomain_fits t
  refine ⟨scopeOf_entries forged, ?_, ?_⟩
  · have hb : immutableBinding forged.entries = .ok forged := immutableBinding_entries trivial hfits hlen
    rw [Differs, hb]
    intro h
    injection h with h
    exact hne (congrArg Transaction.canonicalMutationDigest h)
  · have htype : typeOf forged.entries = some .claimCreationDomain :=
      (semanticFields_eq_ok.1 (semanticFields_entries (T := forged))).1
    unfold prepare
    rw [htype, validateTransaction_digest hfits hne trivial]
    rfl

/-- Some digest is not the one of given bytes. -/
theorem exists_digest_ne (bytes : Bytes) : ∃ digest : Bytes, digest.length = 32 ∧ digest ≠ sha256 bytes := by
  by_cases h : List.replicate 32 0 = sha256 bytes
  · refine ⟨List.replicate 32 1, by decide, fun h' => ?_⟩
    rw [← h] at h'
    revert h'
    decide
  · exact ⟨List.replicate 32 0, by decide, h⟩

/-! ## a binding that is equal only loosely -/

theorem map_looseEntry_putEntry (k v : Term) (kvs : List (Term × Term)) :
    (putEntry k v kvs).map looseEntry = putEntry k v.loosen (kvs.map looseEntry) := by
  induction kvs with
  | nil => rfl
  | cons e kvs ih =>
    simp only [putEntry, List.map_cons, looseEntry]
    split
    · rfl
    · split
      · rw [List.map_cons, ih]
        rfl
      · rfl

theorem map_looseEntry_entriesOf (kvs : List (Term × Term)) :
    (entriesOf kvs).map looseEntry = entriesOf (kvs.map looseEntry) := by
  suffices key : ∀ acc, (kvs.foldl (fun acc e => putEntry e.1 e.2 acc) acc).map looseEntry =
      (kvs.map looseEntry).foldl (fun acc e => putEntry e.1 e.2 acc) (acc.map looseEntry) from key []
  induction kvs with
  | nil => exact fun _ => rfl
  | cons e kvs ih =>
    intro acc
    rw [List.foldl_cons, ih, map_looseEntry_putEntry]
    rfl

/-- Bindings with equal fields, up to the kind of a number, are equal. -/
theorem Transaction.sameBinding_of_fields {s t : Transaction}
    (h : s.fields.map (fun f => (f.1, f.2.loosen)) = t.fields.map fun f => (f.1, f.2.loosen)) :
    s.sameBinding t = true := by
  have key : ∀ T : Transaction, loosen (.map T.entries) =
      .map (entriesOf ((T.fields.map fun f => (f.1, f.2.loosen)).map fun f => (sym f.1, f.2))) := by
    intro T
    have hmap := map_looseEntry_entriesOf (T.fields.map fun f => (sym f.1, f.2))
    rw [loosen_map, List.map_map]
    rw [List.map_map] at hmap
    exact congrArg Term.map hmap
  rw [sameBinding, looseEq_iff, key, key, h]

/-- The resolution of an opening's create, retained with its session. -/
theorem Opening.resolved_create (o : Opening) :
    o.opened.resolved (.command o.runtimeId o.commandId) =
      some ⟨.seal (.createSession o.create), .committed (.create o.sessionId)⟩ := by
  rw [State.resolved_command]
  simp [opened, State.created, State.putRuntimeCommand, State.putSession, retainCreationIndex, State.putHead,
    State.putCapsule, AList.lookup_insert, RuntimeCommand.entry, Entry.binding?, create, reserveCapsule, reserve]

/-- The create of an opening with another genesis, under the bytes and the digest of the first. -/
def Opening.retyped (o : Opening) (genesis : Term) (valid : validateItem .record genesis = .ok ()) : Transaction :=
  let create := Transaction.seal (.createSession o.create)
  ⟨.createSession ⟨o.runtimeId, o.commandId, genesis, valid⟩, create.canonicalRecordBytes,
    create.canonicalMutationDigest⟩

section

variable (o : Opening) {genesis : Term} (valid : validateItem .record genesis = .ok ())

theorem Opening.sameBinding_retyped (hloose : looseEq genesis o.genesis = true) :
    (o.retyped genesis valid).sameBinding (.seal (.createSession o.create)) = true := by
  refine Transaction.sameBinding_of_fields ?_
  have hg : genesis.loosen = o.genesis.loosen := looseEq_iff.1 hloose
  simp [Transaction.fields, retyped, Transaction.seal, Body.fields, Body.type, Body.values, create, hg,
    TransactionType.fieldNames]

theorem Opening.retyped_ne (hne : genesis ≠ o.genesis) :
    o.retyped genesis valid ≠ .seal (.createSession o.create) := by
  intro h
  have hbody : (⟨o.runtimeId, o.commandId, genesis, valid⟩ : CreateSession) = o.create :=
    Body.createSession.inj (congrArg Transaction.body h)
  exact hne (congrArg CreateSession.genesis hbody)

/-- **A create whose genesis is `==` to the one retained is answered with its receipt**, under its bytes. -/
theorem Opening.prepare_retyped (access : StructAccess) (fuel : ℕ) (hloose : looseEq genesis o.genesis = true)
    (hne : genesis ≠ o.genesis) :
    scopeOf access (o.retyped genesis valid).entries = .ok (.at (Body.createSession o.create).scope) ∧
      Admitted (o.retyped genesis valid).entries ∧
      Differs (o.retyped genesis valid).entries (.seal (.createSession o.create)) ∧
      prepare access fuel o.opened (o.retyped genesis valid).entries =
        .ok (.known (.committed o.commandId (.create o.sessionId))) := by
  have hb : immutableBinding (o.retyped genesis valid).entries = .ok (o.retyped genesis valid) :=
    immutableBinding_entries trivial (createSession_fits o.create) (sha256_length _)
  have hscope : scopeOf access (o.retyped genesis valid).entries = .ok (.at (Body.createSession o.create).scope) :=
    scopeOf_entries _
  have hadmitted : Admitted (o.retyped genesis valid).entries := by
    have htype : typeOf (o.retyped genesis valid).entries = some .createSession :=
      (semanticFields_eq_ok.1 (semanticFields_entries (T := o.retyped genesis valid))).1
    intro hc
    rw [htype] at hc
    cases hc
  have hdiffers : Differs (o.retyped genesis valid).entries (.seal (.createSession o.create)) := by
    rw [Differs, hb]
    exact fun h => o.retyped_ne valid hne (Check.ok.inj h)
  exact ⟨hscope, hadmitted, hdiffers, prepare_loose hscope o.resolved_create hadmitted
    ⟨_, hb, o.sameBinding_retyped valid hloose⟩⟩

end

/-! ## a binding that cannot be read -/

namespace Orphans

/-- A commit under the scope of the first succession, whose records are an improper list. -/
def improper : List (Term × Term) :=
  Fields.entries [("type", sym "session_commit"), ("session_id", sessionId.term), ("mutation_domain", domain.term),
    ("tx_id", (txId 0).term), ("expected_owner_epoch", .int 0), ("expected_owner_incarnation_id", sessionId.term),
    ("expected_journal_version", .int 0), ("records", .improper [.int 0] (.int 0)), ("outbox", .list []),
    ("canonical_record_bytes", .binary []), ("canonical_mutation_digest", .binary [])]

theorem improper_raises : scopeOf noAccess improper = .ok (.at (transaction 0).body.scope) ∧
    typeOf improper = some .sessionCommit ∧ immutableBinding improper = .raise .badArgument := by
  decide +kernel

/-- It is not answered. -/
theorem prepare_improper (fuel : ℕ) :
    prepare noAccess fuel (State.new.orphaned (transaction 0) sessionId domain) improper =
      .error (.raised .badArgument) := by
  obtain ⟨hscope, htype, hraise⟩ := improper_raises
  have hresolved : (State.new.orphaned (transaction 0) sessionId domain).resolved (transaction 0).body.scope =
      some ⟨transaction 0, .notCommitted .sessionNotFound⟩ :=
    (Moves.absent (T := transaction 0) rfl rfl).resolved
  have hadmitted : Admitted improper := by
    intro hc
    rw [htype] at hc
    cases hc
  exact prepare_raise hscope hresolved hadmitted hraise

end Orphans

/-! ## the exceptions -/

/-- Another binding under the scope of a transaction just committed is answered so. -/
def Exception (answer : Attempt Prepared) : Prop :=
  ∃ S S₁ T kvs, Reachable noAccess S ∧ Presents noAccess S T.entries S₁ ∧
    scopeOf noAccess kvs = .ok (.at T.body.scope) ∧ Differs kvs T ∧ ∀ fuel, prepare noAccess fuel S₁ kvs = answer

/-- Not every other binding under the scope of a transaction is a conflict: a creation transaction may be
invalid, a binding may be `==`, and a binding may not be readable. -/
theorem exactly_once_exceptions : Exception (.ok (.invalid (.notCommitted .invalidTransaction))) ∧
    (∃ txId receipt, Exception (.ok (.known (.committed txId receipt)))) ∧
    Exception (.error (.raised .badArgument)) := by
  refine ⟨?_, ?_, ?_⟩
  · obtain ⟨digest, hlen, hne⟩ :=
      exists_digest_ne (encodeFields (Body.claimCreationDomain Opening.bare.claim).fields)
    have hforged := fun fuel =>
      prepare_digest noAccess fuel (S := Opening.bare.claimed) (t := Opening.bare.claim) hlen hne
    exact ⟨_, _, _, _, ⟨[], .nil⟩, Opening.bare.presents_claim, (hforged 0).1, (hforged 0).2.1,
      fun fuel => (hforged fuel).2.2⟩
  · have hloose : looseEq Opening.mixed.genesis Opening.bare.genesis = true := by
      decide +kernel
    have hne : Opening.mixed.genesis ≠ Opening.bare.genesis := by
      decide +kernel
    have hretyped := fun fuel => Opening.bare.prepare_retyped Opening.mixed.valid noAccess fuel hloose hne
    have hheld : Reachable noAccess Opening.bare.held := ⟨_, Opening.bare.run_held.mono fun _ _ _ h => h.1⟩
    exact ⟨_, _, _, _, _, _, hheld, Opening.bare.presents_create, (hretyped 0).1, (hretyped 0).2.2.1,
      fun fuel => (hretyped fuel).2.2.2⟩
  · have hnew : Presents noAccess State.new (Orphans.transaction 0).entries _ :=
      ⟨0, _, _, Orphans.prepare_advance Orphans.known_new (by decide)⟩
    obtain ⟨hscope, -, hraise⟩ := Orphans.improper_raises
    refine ⟨_, _, _, _, ⟨[], .nil⟩, hnew, hscope, ?_, Orphans.prepare_improper⟩
    rw [Differs, hraise]
    exact fun h => by cases h

end Loopex.Store
