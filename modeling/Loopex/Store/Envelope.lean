import Loopex.Store.Step

/-!
# What a frame is made of

A frame is plain data, and its atoms are those of the Store's own vocabulary: the values of private records
and of events carry no atoms but `nil`, `true` and `false`.

* `Genuine` — a term a program can hold: every map of it is in canonical order;
* `Stored` — plain data over the vocabulary;
* `stored_of_validate` — a valid transaction is stored data, its candidate included;
* `Moves.stored`, `stored_frame` — so is everything a transition writes.
-/

namespace Loopex.Store

open Loopex.Erlang Loopex.Erlang.Term Loopex.Runtime Loopex.System

/-! ## stored data -/

/-- The names of the atoms in frames. -/
def envelopeNames : List String :=
  ["nil", "true", "false", "kind", "event_id", "event_sequence", "resume",
    "schema_version", "transition_id", "transaction", "resolution", "records", "events",
    "type", "claim_creation_domain", "reserve_creation", "close_creation_reservation", "create_session",
    "stage_owner_attempt", "advance_owner", "session_commit",
    "runtime_control_claim_creation_domain", "runtime_control_reserve_creation",
    "runtime_control_close_creation_reservation", "runtime_control_create_session",
    "runtime_control_stage_owner_attempt", "session_journal_advance_owner", "session_journal_commit",
    "runtime_id", "command_id", "command_kind", "session_id", "mutation_domain", "succession_id", "tx_id",
    "expected_owner_generation", "owner_generation", "owner_selection", "expected_domain_version",
    "domain_version", "active_command_id", "genesis", "reservation_tx_id", "reservation_domain_version",
    "final_canonical_record_bytes", "final_canonical_mutation_digest", "final_resolution",
    "canonical_command_bytes", "canonical_command_digest", "attempt_generation", "expected_generation",
    "candidate", "expected_owner_epoch", "expected_journal_version", "proposed_owner_incarnation_id",
    "expected_owner_incarnation_id", "outbox", "canonical_record_bytes", "canonical_mutation_digest",
    "status", "receipt", "reason", "committed", "not_committed", "owner_epoch", "owner_incarnation_id",
    "journal_version", "journal_versions", "event_sequences", "first", "last", "payload",
    "invalid_transaction", "tx_id_conflict", "stale_creation_generation", "creation_domain_conflict",
    "creation_in_progress", "runtime_command_conflict", "creation_counter_exhausted",
    "creation_recovery_too_large", "creation_reservation_conflict", "creation_reservation_required",
    "creation_cancelled", "session_not_found", "runtime_placement_mismatch", "owner_attempt_in_progress",
    "stale_attempt_generation", "command_completed", "owner_candidate_conflict", "stale_owner_epoch",
    "stale_owner_incarnation_id", "stale_journal_version", "duplicate_event_id"]

/-- Plain data over the vocabulary. -/
structure Stored (t : Term) : Prop where
  plain : Plain t
  atoms : ∀ a ∈ t.atoms, ∃ name ∈ envelopeNames, a = utf8 name

theorem Stored.inherited : Inherited Stored where
  int _ := ⟨.int, fun _ h => absurd h List.not_mem_nil⟩
  float _ := ⟨.float, fun _ h => absurd h List.not_mem_nil⟩
  binary _ := ⟨.binary, fun _ h => absurd h List.not_mem_nil⟩
  list h := by
    refine ⟨.list fun x hx => (h x hx).plain, fun a ha => ?_⟩
    obtain ⟨x, hx, ha⟩ := mem_atoms_list.1 ha
    exact (h x hx).atoms a ha
  tuple h := by
    refine ⟨.tuple fun x hx => (h x hx).plain, fun a ha => ?_⟩
    obtain ⟨x, hx, ha⟩ := mem_atoms_tuple.1 ha
    exact (h x hx).atoms a ha
  map ho hk hv := by
    refine ⟨.map ho (fun e he => (hk e he).plain) fun e he => (hv e he).plain, fun a ha => ?_⟩
    obtain ⟨e, he, ha⟩ := mem_atoms_map.1 ha
    rcases ha with ha | ha
    · exact (hk e he).atoms a ha
    · exact (hv e he).atoms a ha

/-- The names that stand in a receipt, a resolution, a record or a frame, whatever the transaction. -/
def fixedNames : List String :=
  ["not_committed", "creation_cancelled", "first", "last", "status", "receipt", "committed", "reason",
    "journal_version", "owner_epoch", "owner_incarnation_id", "payload", "schema_version", "transition_id",
    "transaction", "resolution", "records", "events"]

/-- The names of a frame are short and of the vocabulary. -/
theorem vocabulary : (∀ name ∈ envelopeNames, (utf8 name).length < 2 ^ 16) ∧
    (∀ name ∈ fixedNames, name ∈ envelopeNames) ∧ (∀ r : Refusal, r.name ∈ envelopeNames) ∧
    ∀ type : TransactionType, (type.name ∈ envelopeNames ∧ type.transition ∈ envelopeNames) ∧
      ∀ owned, ∀ name ∈ type.fieldNames owned ++ canonicalFieldNames, name ∈ envelopeNames := by
  refine ⟨by decide +kernel, by decide +kernel, fun r => ?_, fun type => ⟨?_, fun owned => ?_⟩⟩
  · cases r <;> decide +kernel
  · cases type <;> decide +kernel
  · cases type <;> cases owned <;> decide +kernel

theorem stored_sym {name : String} (h : name ∈ envelopeNames) : Stored (sym name) := by
  refine ⟨plain_sym (vocabulary.1 name h), fun a ha => ⟨name, h, ?_⟩⟩
  simpa [sym, atoms] using ha

theorem fixedNames_mem {name : String} (h : name ∈ fixedNames) : name ∈ envelopeNames := vocabulary.2.1 name h

theorem fixedNames_all {names : List String} (h : ∀ name ∈ names, name ∈ fixedNames) :
    ∀ name ∈ names, name ∈ envelopeNames := fun name hn => fixedNames_mem (h name hn)

/-- The entries of a stored map are stored. -/
theorem Stored.entries {kvs : List (Term × Term)} (h : Stored (.map kvs)) :
    Ordered kvs ∧ ∀ e ∈ kvs, Stored e.1 ∧ Stored e.2 := by
  have hp := h.plain
  rcases hp with _ | _ | _ | _ | _ | _ | ⟨ho, hk, hv⟩
  refine ⟨ho, fun e he => ⟨⟨hk e he, fun a ha => ?_⟩, hv e he, fun a ha => ?_⟩⟩
  · exact h.atoms a (mem_atoms_map.2 ⟨e, he, .inl ha⟩)
  · exact h.atoms a (mem_atoms_map.2 ⟨e, he, .inr ha⟩)

theorem mem_entriesOf {kvs : List (Term × Term)} {e : Term × Term} (h : e ∈ entriesOf kvs) : e ∈ kvs := by
  have key : ∀ (kvs acc : List (Term × Term)),
      e ∈ kvs.foldl (fun acc e => putEntry e.1 e.2 acc) acc → e ∈ acc ∨ e ∈ kvs := by
    intro kvs
    induction kvs with
    | nil => exact fun acc h => .inl h
    | cons e' kvs ih =>
      intro acc h
      rcases ih _ h with h | h
      · rcases mem_putEntry h with rfl | h
        · exact .inr (by simp)
        · exact .inl h
      · exact .inr (List.mem_cons_of_mem _ h)
  simpa using key kvs [] h

theorem stored_mapOf {kvs : List (Term × Term)} (h : ∀ e ∈ kvs, Stored e.1 ∧ Stored e.2) :
    Stored (.map (entriesOf kvs)) :=
  Stored.inherited.map (ordered_entriesOf kvs) (fun e he => (h e (mem_entriesOf he)).1)
    fun e he => (h e (mem_entriesOf he)).2

theorem stored_atomMap {fs : Fields} (names : List String) (hn : ∀ name ∈ names, name ∈ envelopeNames)
    (hfs : fs.map Prod.fst = names) (hv : ∀ f ∈ fs, Stored f.2) : Stored (atomMap fs) := by
  refine stored_mapOf fun e he => ?_
  obtain ⟨f, hf, rfl⟩ := List.mem_map.1 he
  exact ⟨stored_sym (hn f.1 (hfs ▸ List.mem_map_of_mem hf)), hv f hf⟩

theorem stored_identifier (id : Identifier) : Stored id.term := Stored.inherited.binary id.bytes

theorem stored_selection (s : Selection) : Stored s.term := Stored.inherited.binary s.bytes

theorem stored_int (n : ℤ) : Stored (.int n) := Stored.inherited.int n

theorem stored_optionTerm (id : Option Identifier) : Stored (optionTerm id) := by
  rcases id with _ | id
  · exact stored_sym (by decide)
  · exact stored_identifier id

theorem itemNames_mem : ∀ s ∈ ["nil", "true", "false", "kind", "event_id"], Stored (sym s) := by
  intro s hs
  apply stored_sym
  revert s
  decide

theorem stored_item {plane : Plane} {item : Term} (h : validateItem plane item = .ok ()) : Stored item :=
  validateItem_inherits Stored.inherited itemNames_mem h

/-! ## transactions -/

/-- A term a program can hold: the entries of its maps stand in the one order there is. -/
inductive Genuine : Term → Prop
  | atom {name} : Genuine (.atom name)
  | int {n} : Genuine (.int n)
  | float {x} : Genuine (.float x)
  | binary {b} : Genuine (.binary b)
  | bitstring {b n} : Genuine (.bitstring b n)
  | handle {k n} : Genuine (.handle k n)
  | list {xs} : (∀ x ∈ xs, Genuine x) → Genuine (.list xs)
  | improper {xs t} : (∀ x ∈ xs, Genuine x) → Genuine t → Genuine (.improper xs t)
  | tuple {xs} : (∀ x ∈ xs, Genuine x) → Genuine (.tuple xs)
  | map {kvs : List (Term × Term)} : Ordered kvs → (∀ e ∈ kvs, Genuine e.1) → (∀ e ∈ kvs, Genuine e.2) →
      Genuine (.map kvs)

/-- Stored data is genuine. -/
theorem Stored.genuine {t : Term} (h : Stored t) : Genuine t := by
  replace h := h.plain
  induction h with
  | list _ ih => exact .list ih
  | tuple _ ih => exact .tuple ih
  | map ho _ _ hk hv => exact .map ho hk hv
  | _ => constructor

theorem fieldNames_mem (type : TransactionType) (owned : Bool) :
    ∀ name ∈ type.fieldNames owned ++ canonicalFieldNames, name ∈ envelopeNames :=
  (vocabulary.2.2.2 type).2 owned

theorem typeName_mem (type : TransactionType) :
    type.name ∈ envelopeNames ∧ type.transition ∈ envelopeNames :=
  (vocabulary.2.2.2 type).1

/-- The fields of a body are stored data if its candidate is. -/
theorem Body.stored_fields (b : Body) (h : ∀ t, b = .stageOwnerAttempt t → Stored t.candidate) :
    ∀ f ∈ b.fields, Stored f.2 := by
  intro f hf
  have hv : f.2 ∈ sym b.type.name :: b.values := by
    rw [← b.fields_values]
    exact List.mem_map_of_mem hf
  rcases List.mem_cons.1 hv with hv | hv
  · exact hv ▸ stored_sym (typeName_mem b.type).1
  · exact b.inherited_values Stored.inherited itemNames_mem (stored_sym (by decide)) h f.2 hv

/-- **A valid transaction is stored data**, by induction through its candidates. -/
theorem stored_of_validate {t : Term} {T : Transaction} (hg : Genuine t) (h : validateTransaction t = .ok T) :
    Stored t := by
  induction t using Term.ind generalizing T with
  | map kvs ih =>
    obtain ⟨ho, hgk, hgv⟩ : Ordered kvs ∧ (∀ e ∈ kvs, Genuine e.1) ∧ ∀ e ∈ kvs, Genuine e.2 := by
      rcases hg with _ | _ | _ | _ | _ | _ | _ | _ | _ | ⟨ho, hk, hv⟩
      exact ⟨ho, hk, hv⟩
    have hcandidate : ∀ t, T.body = .stageOwnerAttempt t → Stored t.candidate := by
      intro t hb
      have hl : lookup (sym "candidate") kvs = some t.candidate := by
        refine lookup_of_validate h (f := ("candidate", t.candidate)) ?_
        rw [hb]
        simp [Body.fields, Body.type, Body.values, TransactionType.fieldNames]
      have hmem := lookup_eq_some hl
      have hc := checks_of_validate h
      rw [hb] at hc
      obtain ⟨T', hT'⟩ := (verdictOf_eq_ok hl).1 hc.2
      exact (ih _ hmem).2 (hgv _ hmem) hT'
    have hfields := T.body.stored_fields hcandidate
    have hentry : ∀ e ∈ kvs, Stored e.1 ∧ Stored e.2 := by
      intro e he
      have hl := lookup_of_mem ho.nodup he
      obtain ⟨name, hn, hk⟩ := key_of_validate h hl
      refine ⟨hk ▸ stored_sym (fieldNames_mem _ _ name hn), ?_⟩
      rw [hk] at hl
      rcases List.mem_append.1 hn with hn | hn
      · rw [← T.body.fields_names] at hn
        obtain ⟨f, hf, rfl⟩ := List.mem_map.1 hn
        rw [lookup_of_validate h hf] at hl
        exact Option.some.inj hl ▸ hfields f hf
      · obtain ⟨b, hb⟩ := canonical_of_validate h name hn
        rw [hb] at hl
        exact Option.some.inj hl ▸ Stored.inherited.binary b
    exact Stored.inherited.map ho (fun e he => (hentry e he).1) fun e he => (hentry e he).2
  | _ => simp [validateTransaction] at h

/-! ## frames -/

/-- The names of the fields of a receipt. -/
def receiptNames : TransactionType → List String
  | .claimCreationDomain =>
    ["runtime_id", "owner_generation", "owner_selection", "domain_version", "active_command_id"]
  | .reserveCreation =>
    ["runtime_id", "owner_generation", "owner_selection", "domain_version", "active_command_id",
      "reservation_tx_id", "reservation_domain_version"]
  | .closeCreationReservation =>
    ["runtime_id", "owner_generation", "owner_selection", "domain_version", "active_command_id", "command_id",
      "reservation_tx_id", "final_resolution", "session_id"]
  | .createSession => ["session_id", "journal_version"]
  | .stageOwnerAttempt => []
  | .advanceOwner => ["owner_epoch", "owner_incarnation_id", "journal_version"]
  | .sessionCommit => ["journal_versions", "event_sequences"]

theorem Receipt.fields_names (r : Receipt) : r.fields.map Prod.fst = receiptNames r.type := by
  cases r <;> rfl

theorem CapsuleState.stored (c : CapsuleState) : Stored c.finalResolution ∧ Stored c.sessionTerm := by
  have hnil : Stored nil := stored_sym (by decide)
  cases c with
  | reserved => exact ⟨hnil, hnil⟩
  | created s => exact ⟨stored_sym (fixedNames_mem (by simp [fixedNames])), stored_identifier s⟩
  | notCommitted =>
    refine ⟨Stored.inherited.tuple ?_, hnil⟩
    simp only [List.forall_mem_cons]
    exact ⟨stored_sym (fixedNames_mem (by simp [fixedNames])), stored_sym (fixedNames_mem (by simp [fixedNames])), by simp⟩

theorem Head.stored (h : Head) : ∀ f ∈ h.fields, Stored f.2 := by
  have hsel : Stored h.selectionTerm := by
    unfold selectionTerm
    split
    · exact stored_selection _
    · exact stored_sym (by decide)
  simp only [fields, List.forall_mem_cons]
  exact ⟨stored_int _, hsel, stored_int _, stored_optionTerm _, by simp⟩

theorem stored_range (first last : ℕ) : Stored (Receipt.rangeTerm first last) := by
  refine stored_atomMap ["first", "last"] (fixedNames_all (by simp [fixedNames])) rfl ?_
  simp only [List.forall_mem_cons]
  exact ⟨stored_int _, stored_int _, by simp⟩

theorem Receipt.stored (r : Receipt) : Stored r.toTerm := by
  have hnames : ∀ name ∈ "type" :: receiptNames r.type, name ∈ envelopeNames := by
    cases r.type <;> decide +kernel
  refine stored_atomMap _ hnames (by rw [List.map_cons, r.fields_names]) ?_
  rw [List.forall_mem_cons]
  refine ⟨stored_sym (typeName_mem r.type).1, ?_⟩
  cases r with
  | claim r head => exact List.forall_mem_cons.2 ⟨stored_identifier r, head.stored⟩
  | reserve r head tx version =>
    simp only [fields, List.cons_append, List.forall_mem_cons, List.forall_mem_append]
    exact ⟨stored_identifier r, head.stored, stored_identifier tx, stored_int _, by simp⟩
  | close r head command tx final =>
    simp only [fields, List.cons_append, List.forall_mem_cons, List.forall_mem_append]
    exact ⟨stored_identifier r, head.stored, stored_identifier command, stored_identifier tx, final.stored.1,
      final.stored.2, by simp⟩
  | create s =>
    simp only [fields, List.forall_mem_cons]
    exact ⟨stored_identifier s, stored_int _, by simp⟩
  | stage => simp [fields]
  | advance epoch incarnation version =>
    simp only [fields, List.forall_mem_cons]
    exact ⟨stored_int _, stored_identifier incarnation, stored_int _, by simp⟩
  | commit first last sequences =>
    simp only [fields, List.forall_mem_cons]
    refine ⟨stored_range _ _, ?_, by simp⟩
    split
    · exact stored_range _ _
    · exact stored_sym (by decide)

theorem Refusal.name_mem (r : Refusal) : r.name ∈ envelopeNames := vocabulary.2.2.1 r

theorem Resolution.stored (r : Resolution) : Stored r.toTerm := by
  cases r with
  | committed receipt =>
    refine stored_atomMap ["status", "receipt"] (fixedNames_all (by simp [fixedNames])) rfl ?_
    simp only [List.forall_mem_cons]
    exact ⟨stored_sym (fixedNames_mem (by simp [fixedNames])), receipt.stored, by simp⟩
  | notCommitted reason =>
    refine stored_atomMap ["status", "reason"] (fixedNames_all (by simp [fixedNames])) rfl ?_
    simp only [List.forall_mem_cons]
    exact ⟨stored_sym (fixedNames_mem (by simp [fixedNames])), stored_sym reason.name_mem, by simp⟩

theorem Record.stored {r : Record} (h : Stored r.payload) : Stored r.toTerm := by
  refine stored_atomMap ["journal_version", "owner_epoch", "owner_incarnation_id", "payload"]
    (fixedNames_all (by simp [fixedNames])) rfl ?_
  simp only [List.forall_mem_cons]
  exact ⟨stored_int _, stored_int _, stored_optionTerm _, h, by simp⟩

theorem stored_stampEvent {event : Term} (h : Stored event) (sequence : ℕ) :
    Stored (stampEvent sequence event) := by
  cases event with
  | map kvs =>
    obtain ⟨ho, he⟩ := h.entries
    have hentry : ∀ e ∈ putEntry (sym "event_sequence") (.int sequence) kvs, Stored e.1 ∧ Stored e.2 := by
      intro e hm
      rcases mem_putEntry hm with rfl | hm
      · exact ⟨stored_sym (by decide), stored_int _⟩
      · exact he e hm
    exact Stored.inherited.map (ordered_putEntry ho _ _) (fun e hm => (hentry e hm).1)
      fun e hm => (hentry e hm).2
  | _ => exact h

theorem stored_stampEvents {events : List Term} (h : ∀ e ∈ events, Stored e) (sequence : ℕ) :
    ∀ e ∈ stampEvents sequence events, Stored e := by
  induction events generalizing sequence with
  | nil => simp [stampEvents]
  | cons event events ih =>
    obtain ⟨he, hes⟩ := List.forall_mem_cons.1 h
    rw [stampEvents, List.forall_mem_cons]
    exact ⟨stored_stampEvent he sequence, ih hes _⟩

theorem payload_stampRecords {session : Session} {version : ℕ} {payloads : List Term} {r : Record}
    (h : r ∈ stampRecords session version payloads) : r.payload ∈ payloads := by
  induction payloads generalizing version with
  | nil => simp [stampRecords] at h
  | cons payload payloads ih =>
    rcases List.mem_cons.1 h with rfl | h
    · exact List.mem_cons_self
    · exact List.mem_cons_of_mem _ (ih h)

theorem stored_successionPayload (session : Session) (t : AdvanceOwner) :
    Stored (successionPayload session t) := by
  refine stored_mapOf ?_
  have hstr : ∀ s : String, Stored (str s) := fun s => Stored.inherited.binary (utf8 s)
  simp only [List.forall_mem_cons]
  exact ⟨⟨hstr _, stored_int _⟩, ⟨hstr _, stored_int _⟩, ⟨hstr _, stored_identifier _⟩,
    ⟨hstr _, stored_identifier _⟩, ⟨stored_sym (by decide), hstr _⟩, by simp⟩

variable {S S' : State} {T : Transaction} {resolution : Resolution} {records : List Record}
  {events : List Term}

/-- **What a transition writes is stored data.** -/
theorem Moves.stored (h : Moves S T S' resolution records events) :
    (∀ r ∈ records, Stored r.payload) ∧ ∀ e ∈ events, Stored e := by
  rcases h with _ | _ | _ | _ | _ | _ | @⟨t, c, id, number, -, -, -, -, -, -, -, -, -, -, -, -⟩ | _ | _ | _ |
    @⟨t, session, -, -, -, -⟩ | @⟨t, session, _, _, _, _, _, _, -, -, -, -, -⟩ | @⟨t, session, -, -, -⟩
  case create =>
    refine ⟨?_, by simp⟩
    simp only [List.forall_mem_cons]
    exact ⟨stored_item t.valid, by simp⟩
  case succeed =>
    refine ⟨?_, by simp⟩
    simp only [List.forall_mem_cons]
    exact ⟨stored_successionPayload session t, by simp⟩
  case resume =>
    refine ⟨?_, by simp⟩
    simp only [List.forall_mem_cons]
    exact ⟨stored_successionPayload session t, by simp⟩
  case commit =>
    refine ⟨fun r hr => ?_, stored_stampEvents (fun e he => stored_item (t.outbox_valid e he)) _⟩
    exact stored_item (t.records_valid _ (payload_stampRecords hr))
  all_goals simp

theorem stored_frame {type : TransactionType} {raw : Term} (hraw : Stored raw)
    (hr : ∀ r ∈ records, Stored r.payload) (he : ∀ e ∈ events, Stored e) :
    Stored (Frame.toTerm ⟨type, raw, resolution, records, events⟩) := by
  refine stored_atomMap ["schema_version", "transition_id", "transaction", "resolution", "records", "events"]
    (fixedNames_all (by simp [fixedNames])) rfl ?_
  simp only [List.forall_mem_cons]
  refine ⟨stored_int _, stored_sym (typeName_mem type).2, hraw, resolution.stored,
    Stored.inherited.list fun x hx => ?_, Stored.inherited.list he, by simp⟩
  obtain ⟨r, hm, rfl⟩ := List.mem_map.1 hx
  exact Record.stored (hr r hm)

/-- **Every frame is stored data**, when the transaction presented was a genuine map. -/
theorem stored_of_prepare {access : StructAccess} {fuel : ℕ} {kvs : List (Term × Term)} {frame : Frame}
    {outcome : Outcome} (hg : Genuine (.map kvs)) (h : prepare access fuel S kvs = .ok (.new S' frame outcome)) :
    Stored frame.toTerm := by
  obtain ⟨T, resolution, records, events, hT, -, hm, rfl, -⟩ := prepare_new h
  exact stored_frame (stored_of_validate hg hT) hm.stored.1 hm.stored.2

end Loopex.Store
