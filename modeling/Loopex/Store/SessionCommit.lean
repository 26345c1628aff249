import Loopex.Store.Normalizer
import Loopex.Store.Reading

/-!
# Building a session transaction

`sessionCommit` normalizes a list of records and a list of events and binds them to the current owner.
`Acceptable` says what it asks of them.

* `sessionCommit_eq_ok` — it accepts exactly the acceptable lists whose canonical bytes fit;
* `validateTransaction_sessionCommit` — what it builds is valid;
* `one_item_normalizer` — idempotence, independence of order and spelling, and the builder, together.
-/

namespace Loopex.Store

open Loopex.Erlang Loopex.Erlang.Term

/-- `normalize_list`: the normal forms, or the first refusal. -/
def normalizeList (plane : Plane) (error : Reason) : List Term → Except Reason (List Term)
  | [] => .ok []
  | item :: items =>
    match normalizeMeasuredRoot plane item with
    | .ok normalized => do
      let rest ← normalizeList plane error items
      .ok (normalized :: rest)
    | .error reason => .error (itemRefusal reason error)

/-- `normalize_records`. -/
def normalizeRecords : Term → Except Reason (List Term)
  | .list records =>
    if records ≠ [] ∧ records.length ≤ maxItems then normalizeList .record .invalidRecords records
    else .error .invalidRecords
  | _ => .error .invalidRecords

/-- `normalize_events`. -/
def normalizeEvents : Term → Except Reason (List Term)
  | .list events =>
    if events.length ≤ maxItems then do
      let normalized ← normalizeList .event .invalidEvents events
      if (eventIds normalized).Nodup then .ok normalized else .error .invalidEvents
    else .error .invalidEvents
  | _ => .error .invalidEvents

/-- `reject_owner_capability`. -/
def rejectOwnerCapability (events : List Term) : Term → Check Reason Unit
  -- `:binary.match` raises on an empty pattern, and every event has its `event_id` to match
  | .binary [] => if events = [] then .ok () else .raise .badArgument
  | .binary incarnation =>
    Check.require (!containsValueList incarnation events) .ownerCapabilityInPublicEvent
  | _ => .ok ()

/-- The fields of a session transaction, before they are checked. -/
def sessionCommitFields (sessionId mutationDomain txId expectedOwnerEpoch expectedOwnerIncarnationId
    expectedJournalVersion : Term) (records outbox : List Term) : Fields :=
  [("type", sym "session_commit"), ("session_id", sessionId), ("mutation_domain", mutationDomain),
    ("tx_id", txId), ("expected_owner_epoch", expectedOwnerEpoch),
    ("expected_owner_incarnation_id", expectedOwnerIncarnationId),
    ("expected_journal_version", expectedJournalVersion), ("records", .list records),
    ("outbox", .list outbox)]

/-- `session_commit`, with `build_transaction` at its end. -/
def sessionCommit (sessionId mutationDomain txId expectedOwnerEpoch expectedOwnerIncarnationId
    expectedJournalVersion records outbox : Term) : Check Reason Transaction := do
  let normalizedRecords ← Check.ofExcept (normalizeRecords records)
  let normalizedOutbox ← Check.ofExcept (normalizeEvents outbox)
  rejectOwnerCapability normalizedOutbox expectedOwnerIncarnationId
  let fields := sessionCommitFields sessionId mutationDomain txId expectedOwnerEpoch
    expectedOwnerIncarnationId expectedJournalVersion normalizedRecords normalizedOutbox
  let body ← validateCommit fields
  let canonical ← Check.ofExcept (canonicalBytes fields)
  .ok ⟨.sessionCommit body, canonical, sha256 canonical⟩

/-! ## what it asks -/

/-- The item normalizes to `n`, within the ceiling. -/
def NormalizesTo (plane : Plane) (item n : Term) : Prop :=
  ∃ size ≤ maxItemBytes, normalizeAndMeasureItem plane item = .ok (n, size)

/-- What `session_commit` asks of the records and events it is given, whose normal forms are `rs` and `es`. -/
structure Acceptable (incarnation : Identifier) (records outbox rs es : List Term) : Prop where
  nonempty : records ≠ []
  normalRecords : List.Forall₂ (NormalizesTo .record) records rs
  normalEvents : List.Forall₂ (NormalizesTo .event) outbox es
  recordCount : records.length ≤ maxItems
  eventCount : outbox.length ≤ maxItems
  ids : (eventIds es).Nodup
  secret : ∀ e ∈ es, containsValue incarnation.bytes e = false

theorem containsValueList_eq_false {b : Bytes} {xs : List Term} :
    containsValueList b xs = false ↔ ∀ x ∈ xs, containsValue b x = false := by
  induction xs with
  | nil => simp [containsValueList]
  | cons x xs ih => simp [containsValueList, ih]

theorem normalizeList_eq_ok {plane : Plane} {error : Reason} {items ns : List Term} :
    normalizeList plane error items = .ok ns ↔
      List.Forall₂ (fun item n => normalizeMeasuredRoot plane item = .ok n) items ns := by
  induction items generalizing ns with
  | nil => simp [normalizeList, eq_comm]
  | cons item items ih =>
    rw [List.forall₂_cons_left_iff]
    simp only [normalizeList]
    cases normalizeMeasuredRoot plane item with
    | error e => simp
    | ok n =>
      simp only [Except.bind_eq_ok, ih, Except.ok.injEq]
      constructor
      · rintro ⟨rest, hrest, rfl⟩
        exact ⟨n, rest, rfl, hrest, rfl⟩
      · rintro ⟨n', rest, rfl, hrest, rfl⟩
        exact ⟨rest, hrest, rfl⟩

theorem normalizeRecords_eq_ok {records rs : List Term} :
    normalizeRecords (.list records) = .ok rs ↔ records ≠ [] ∧ records.length ≤ maxItems ∧
      List.Forall₂ (fun item n => normalizeMeasuredRoot .record item = .ok n) records rs := by
  simp only [normalizeRecords]
  split
  · next h => simp only [normalizeList_eq_ok, h, ne_eq, not_false_eq_true, true_and]
  · next h => simp only [reduceCtorEq, false_iff]; exact fun h' => h ⟨h'.1, h'.2.1⟩

theorem normalizeEvents_eq_ok {events es : List Term} :
    normalizeEvents (.list events) = .ok es ↔ events.length ≤ maxItems ∧ (eventIds es).Nodup ∧
      List.Forall₂ (fun item n => normalizeMeasuredRoot .event item = .ok n) events es := by
  simp only [normalizeEvents]
  split
  · next h =>
    simp only [Except.bind_eq_ok, normalizeList_eq_ok, h, true_and]
    constructor
    · rintro ⟨ns, hns, h'⟩
      split at h' <;> cases h'
      next hn => exact ⟨hn, hns⟩
    · rintro ⟨hn, hns⟩
      exact ⟨es, hns, by simp [hn]⟩
  · next h => simp [h]

theorem rejectOwnerCapability_eq_ok {events : List Term} {incarnation : Identifier} {u : Unit} :
    rejectOwnerCapability events incarnation.term = .ok u ↔
      containsValueList incarnation.bytes events = false := by
  obtain ⟨bytes, h0, h1⟩ := incarnation
  cases bytes with
  | nil => simp at h0
  | cons x xs => simp [rejectOwnerCapability, Identifier.term]

/-- What is normalized to a valid item is within the ceiling. -/
theorem normalizesTo_iff {plane : Plane} {item n : Term} :
    NormalizesTo plane item n ↔ normalizeMeasuredRoot plane item = .ok n ∧ validateItem plane n = .ok () := by
  rw [validateItem_eq_ok]
  constructor
  · rintro ⟨size, hle, h⟩
    obtain ⟨n', hn, h⟩ := Except.bind_eq_ok.1 h
    cases h
    exact ⟨hn, normalizeMeasuredRoot_idem hn, hle⟩
  · rintro ⟨hn, -, hle⟩
    exact ⟨_, hle, Except.bind_eq_ok.2 ⟨n, hn, rfl⟩⟩

theorem forall₂_normalizesTo {plane : Plane} {items ns : List Term} :
    List.Forall₂ (NormalizesTo plane) items ns ↔
      List.Forall₂ (fun item n => normalizeMeasuredRoot plane item = .ok n) items ns ∧
        ∀ n ∈ ns, validateItem plane n = .ok () := by
  constructor
  · intro h
    induction h with
    | nil => exact ⟨.nil, by simp⟩
    | cons h _ ih =>
      obtain ⟨hn, hv⟩ := normalizesTo_iff.1 h
      exact ⟨.cons hn ih.1, List.forall_mem_cons.2 ⟨hv, ih.2⟩⟩
  · rintro ⟨h, hv⟩
    induction h with
    | nil => exact .nil
    | cons hn _ ih =>
      obtain ⟨hv, hvs⟩ := List.forall_mem_cons.1 hv
      exact .cons (normalizesTo_iff.2 ⟨hn, hv⟩) (ih hvs)

section Commit

variable {sessionId mutationDomain txId incarnation : Identifier} {epoch version : ℕ}
  {records outbox : List Term} {T : Transaction}

/-- The fields of a session transaction are those of its body. -/
theorem fields_sessionCommit (t : SessionCommit) :
    (Body.sessionCommit t).fields = sessionCommitFields t.sessionId.term t.mutationDomain.term t.txId.term
      (.int t.expectedOwnerEpoch) t.expectedOwnerIncarnationId.term (.int t.expectedJournalVersion) t.records
      t.outbox := rfl

/-- The checks of the fields, read back. -/
theorem validateCommit_sessionCommitFields {rs es : List Term} {t : SessionCommit} :
    validateCommit (sessionCommitFields sessionId.term mutationDomain.term txId.term (.int epoch)
        incarnation.term (.int version) rs es) = .ok t ↔
      t.sessionId = sessionId ∧ t.mutationDomain = mutationDomain ∧ t.txId = txId ∧
        t.expectedOwnerEpoch = epoch ∧ t.expectedOwnerIncarnationId = incarnation ∧
        t.expectedJournalVersion = version ∧ t.records = rs ∧ t.outbox = es ∧ rs.length ≤ maxItems ∧
        es.length ≤ maxItems ∧ containsValueList incarnation.bytes es = false := by
  rw [validateCommit_eq_ok]
  simp only [sessionCommitFields, Fields.get, List.find?_cons, String.reduceEq, decide_false, decide_true,
    Option.map_some, Option.some.injEq, Identifier.term_inj, Term.int.injEq, Term.list.injEq, Nat.cast_inj]
  constructor
  · rintro ⟨rfl, rfl, rfl, rfl, rfl, rfl, rfl, rfl, h1, h2, h3⟩
    exact ⟨rfl, rfl, rfl, rfl, rfl, rfl, rfl, rfl, h1, h2, h3⟩
  · rintro ⟨rfl, rfl, rfl, rfl, rfl, rfl, rfl, rfl, h1, h2, h3⟩
    exact ⟨rfl, rfl, rfl, rfl, rfl, rfl, rfl, rfl, h1, h2, h3⟩

/-- **The builder accepts exactly** the acceptable lists whose canonical bytes fit, and binds their normal
forms. -/
theorem sessionCommit_eq_ok :
    sessionCommit sessionId.term mutationDomain.term txId.term (.int epoch) incarnation.term (.int version)
        (.list records) (.list outbox) = .ok T ↔
      ∃ t : SessionCommit, T.body = .sessionCommit t ∧ build T.body = .ok T ∧ t.sessionId = sessionId ∧
        t.mutationDomain = mutationDomain ∧ t.txId = txId ∧ t.expectedOwnerEpoch = epoch ∧
        t.expectedOwnerIncarnationId = incarnation ∧ t.expectedJournalVersion = version ∧
        Acceptable incarnation records outbox t.records t.outbox := by
  unfold sessionCommit
  simp only [Check.bind_eq_ok, Check.ofExcept_eq_ok, normalizeRecords_eq_ok, normalizeEvents_eq_ok,
    rejectOwnerCapability_eq_ok, validateCommit_sessionCommitFields, canonicalBytes_eq_ok, build_eq_ok]
  constructor
  · rintro ⟨rs, ⟨hne, hr, hrs⟩, es, ⟨he, hn, hes⟩, -, hs, t, ⟨rfl, rfl, rfl, rfl, rfl, rfl, rfl, rfl, -⟩, b,
      ⟨rfl, hle⟩, h⟩
    cases h
    refine ⟨t, rfl, ⟨rfl, hle⟩, rfl, rfl, rfl, rfl, rfl, rfl, hne, ?_, ?_, hr, he, hn,
      containsValueList_eq_false.1 hs⟩
    · exact forall₂_normalizesTo.2 ⟨hrs, t.records_valid⟩
    · exact forall₂_normalizesTo.2 ⟨hes, t.outbox_valid⟩
  · rintro ⟨t, ht, ⟨hT, hle⟩, rfl, rfl, rfl, rfl, rfl, rfl, ha⟩
    rw [ht] at hT hle
    have hrs := (forall₂_normalizesTo.1 ha.normalRecords).1
    have hes := (forall₂_normalizesTo.1 ha.normalEvents).1
    have hs := containsValueList_eq_false.2 ha.secret
    refine ⟨t.records, ⟨ha.nonempty, ha.recordCount, hrs⟩, t.outbox, ⟨ha.eventCount, ha.ids, hes⟩, (), hs, t,
      ⟨rfl, rfl, rfl, rfl, rfl, rfl, rfl, rfl, hrs.length_eq ▸ ha.recordCount,
        hes.length_eq ▸ ha.eventCount, hs⟩, _, ⟨rfl, hle⟩, ?_⟩
    rw [hT]
    rfl

/-- **What the builder builds is valid.** -/
theorem validateTransaction_sessionCommit
    (h : sessionCommit sessionId.term mutationDomain.term txId.term (.int epoch) incarnation.term
      (.int version) (.list records) (.list outbox) = .ok T) :
    validateTransaction (.map T.entries) = .ok T := by
  obtain ⟨t, ht, hb, -, -, -, -, rfl, -, ha⟩ := sessionCommit_eq_ok.1 h
  refine validateTransaction_entries hb ?_
  rw [ht]
  exact ⟨ha.normalRecords.length_eq ▸ ha.recordCount, ha.normalEvents.length_eq ▸ ha.eventCount,
    containsValueList_eq_false.2 ha.secret⟩

/-- **The builder accepts** lists iff they are acceptable and their canonical bytes fit. -/
theorem sessionCommit_accepts :
    (∃ T, sessionCommit sessionId.term mutationDomain.term txId.term (.int epoch) incarnation.term
        (.int version) (.list records) (.list outbox) = .ok T) ↔
      ∃ rs es, Acceptable incarnation records outbox rs es ∧
        (encodeFields (sessionCommitFields sessionId.term mutationDomain.term txId.term (.int epoch)
          incarnation.term (.int version) rs es)).length ≤ maxMutationBytes := by
  constructor
  · rintro ⟨T, h⟩
    obtain ⟨t, ht, hb, rfl, rfl, rfl, rfl, rfl, rfl, ha⟩ := sessionCommit_eq_ok.1 h
    have hle := (build_eq_ok.1 hb).2
    rw [ht, fields_sessionCommit] at hle
    exact ⟨_, _, ha, hle⟩
  · rintro ⟨rs, es, ha, hle⟩
    have hrs : rs ≠ [] := by
      intro h
      subst h
      exact ha.nonempty (List.forall₂_nil_right_iff.1 ha.normalRecords)
    have hr := (forall₂_normalizesTo.1 ha.normalRecords).2
    have he := (forall₂_normalizesTo.1 ha.normalEvents).2
    let t : SessionCommit := ⟨sessionId, mutationDomain, txId, epoch, incarnation, version, rs, es, hrs, hr,
      he, ha.ids⟩
    have hle' : (encodeFields (Body.sessionCommit t).fields).length ≤ maxMutationBytes := by
      rw [fields_sessionCommit]
      exact hle
    obtain ⟨T, hb⟩ : ∃ T, build (.sessionCommit t) = .ok T := ⟨_, build_eq_ok.2 ⟨rfl, hle'⟩⟩
    have hT : T.body = .sessionCommit t := by rw [(build_eq_ok.1 hb).1]
    exact ⟨T, sessionCommit_eq_ok.2 ⟨t, hT, hT ▸ hb, rfl, rfl, rfl, rfl, rfl, rfl, ha⟩⟩

end Commit

/-! ## the whole -/

/-- **One normalizer.**  What it returns it returns of itself; it does not tell two spellings of one item
apart; and `session_commit` accepts exactly the lists it normalizes, into a valid transaction. -/
theorem one_item_normalizer :
    (∀ plane item n size, normalizeAndMeasureItem plane item = .ok (n, size) →
      normalizeAndMeasureItem plane n = .ok (n, size)) ∧
    (∀ plane x y, Respelled x y → normalizeAndMeasureItem plane x = normalizeAndMeasureItem plane y) ∧
    ∀ (sessionId mutationDomain txId incarnation : Identifier) (epoch version : ℕ) (records outbox : List Term),
      ((∃ T, sessionCommit sessionId.term mutationDomain.term txId.term (.int epoch) incarnation.term
          (.int version) (.list records) (.list outbox) = .ok T) ↔
        ∃ rs es, Acceptable incarnation records outbox rs es ∧
          (encodeFields (sessionCommitFields sessionId.term mutationDomain.term txId.term (.int epoch)
            incarnation.term (.int version) rs es)).length ≤ maxMutationBytes) ∧
      ∀ T, sessionCommit sessionId.term mutationDomain.term txId.term (.int epoch) incarnation.term
          (.int version) (.list records) (.list outbox) = .ok T →
        validateTransaction (.map T.entries) = .ok T := by
  refine ⟨fun _ _ _ _ => normalizeAndMeasureItem_idem, fun plane x y h => ?_, ?_⟩
  · exact normalizeAndMeasureItem_respelled h plane
  · intro sessionId mutationDomain txId incarnation epoch version records outbox
    exact ⟨sessionCommit_accepts, fun T h => validateTransaction_sessionCommit h⟩

/-- One record under an atom kind, by itself in a transaction. -/
theorem one_item_normalizer_record :
    normalizeAndMeasureItem .record (.map [(sym "kind", str "k")]) = .ok (.map [(sym "kind", str "k")], 18) ∧
      normalizeAndMeasureItem .record (.map [(sym "kind", str "k")]) =
        normalizeAndMeasureItem .record (.map [(str "kind", str "k")]) ∧
      ∃ T, sessionCommit (str "s") (str "m") (str "t") (.int 0) (str "o") (.int 0)
          (.list [.map [(str "kind", str "k")]]) (.list []) = .ok T ∧
        validateTransaction (.map T.entries) = .ok T := by
  have hkey : Respelled (.map [(sym "kind", str "k")]) (.map [(str "kind", str "k")]) :=
    @Respelled.key [] [] _ _ (by decide) (by decide) (by simp [str])
  have hcommit := one_item_normalizer.2.2 ⟨utf8 "s", by decide, by decide⟩ ⟨utf8 "m", by decide, by decide⟩
    ⟨utf8 "t", by decide, by decide⟩ ⟨utf8 "o", by decide, by decide⟩ 0 0 [.map [(str "kind", str "k")]] []
  obtain ⟨T, hT⟩ := hcommit.1.2 ⟨[.map [(sym "kind", str "k")]], [],
    ⟨by simp, .cons ⟨18, by decide, by decide⟩ .nil, .nil, by decide, by decide, by decide, by simp⟩,
    by decide +kernel⟩
  exact ⟨one_item_normalizer.1 .record (.map [(sym "kind", str "k")]) _ _ (by decide),
    one_item_normalizer.2.1 _ _ _ hkey, T, hT, hcommit.2 T hT⟩

/-- A `__struct__` over an atom is data under a binary key and a struct under an atom key; and there is no
transaction without a record. -/
theorem one_item_normalizer_fails :
    normalizeAndMeasureItem .record (.map [(sym "kind", str "k"), (str "__struct__", nil)]) =
        .ok (.map [(str "__struct__", nil), (sym "kind", str "k")], 38) ∧
      normalizeAndMeasureItem .record (.map [(sym "kind", str "k"), (sym "__struct__", nil)]) =
        .error .invalidItem ∧
      sessionCommit (str "s") (str "m") (str "t") (.int 0) (str "o") (.int 0) (.list []) (.list []) =
        .error .invalidRecords := by
  decide

end Loopex.Store
