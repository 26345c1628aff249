import Loopex.Runtime.CommandRows
import Loopex.Runtime.RecordByteCost

/-!
# The endings a prompt makes reachable

A prompt is admitted when the terminal of each of its bounds could be written down.  What is measured is a stand-in
without the identity of an abort and without a reference to reconcile; the record that ends the run carries both.

* `weigh`, `itemSize_record`, `itemSize_event` — the size of an item of scalar fields
* `runTerminalRecord`, `runFinishedEvent` — the record and the event that end a run
* `Reaches` — what is observed when a bound is reached
* `terminal_fits_iff` — when the ending can be written down
-/

namespace Loopex.Runtime

open Loopex.Erlang Loopex.Erlang.Term Loopex.Store
open Loopex.Runtime.ConfigureCommand (itemSize Work)

/-! ## the size of an item -/

/-- Fields that an item of this plane may have, with values that are their own normal forms. -/
structure FlatFields (plane : Plane) (fields : Fields) : Prop where
  nodup : (fields.map Prod.fst).Nodup
  names : ∀ f ∈ fields, KeyNorm plane (str f.1) (utf8 f.1) ∧ f.1 ≠ "kind" ∧ f.1 ≠ "event_id"
  scalar : ∀ f ∈ fields, measuredValue plane f.2 1 = .ok f.2
  few : fields.length + 2 ≤ maxItems

/-- The bytes that fields take. -/
def weigh (fields : Fields) : ℕ := (fields.map fun f => (encode (str f.1)).length + (encode f.2).length).sum

section

variable {plane : Plane} {fields : Fields} (kind : String)

/-- The fields are normal members. -/
theorem FlatFields.rootParts (h : FlatFields plane fields) :
    RootParts plane (entriesOf (fields.map fun f => (str f.1, f.2))) ["kind", "event_id"] := by
  have hmem : ∀ e ∈ entriesOf (fields.map fun f => (str f.1, f.2)), ∃ f ∈ fields, e = (str f.1, f.2) := by
    intro e he
    obtain ⟨f, hf, rfl⟩ := List.mem_map.1 ((perm_plainMap h.nodup).mem_iff.1 he)
    exact ⟨f, hf, rfl⟩
  refine ⟨⟨ordered_entriesOf _, fun e he => ?_⟩, fun e he name hname heq => ?_⟩
  · obtain ⟨f, hf, rfl⟩ := hmem e he
    exact ⟨(h.names f hf).1, rfl, h.scalar f hf⟩
  · obtain ⟨f, hf, rfl⟩ := hmem e he
    obtain ⟨-, hkind, hid⟩ := h.names f hf
    rw [← str_inj.1 heq] at hname
    rcases List.mem_cons.1 hname with hname | hname
    · exact hkind hname
    · exact hid (List.mem_singleton.1 hname)

theorem FlatFields.length_entries (h : FlatFields plane fields) :
    (entriesOf (fields.map fun f => (str f.1, f.2))).length = fields.length := by
  rw [(perm_plainMap h.nodup).length_eq, List.length_map]

theorem FlatFields.weigh (h : FlatFields plane fields) :
    (encodeEntries (entriesOf (fields.map fun f => (str f.1, f.2)))).length = weigh fields := by
  rw [encodeEntries_length, ((perm_plainMap h.nodup).map _).sum_eq, List.map_map]
  rfl

theorem encode_binary_size (b : Bytes) : (encode (.binary b)).length = 5 + b.length := by
  simp only [encode, List.length_append, List.length_cons, be_length]

theorem binary_entries (h : FlatFields plane fields) : ∀ e ∈ entriesOf (fields.map fun f => (str f.1, f.2)),
    ∃ b, e.1 = .binary b := by
  intro e he
  obtain ⟨f, -, rfl⟩ := List.mem_map.1 ((perm_plainMap h.nodup).mem_iff.1 he)
  exact ⟨_, rfl⟩

/-- A record of plain fields is its own normal form. -/
theorem itemSize_record (h : FlatFields .record fields)
    (hk : 0 < (utf8 kind).length ∧ (utf8 kind).length ≤ maxIdentifierBytes) :
    itemSize .record (record kind fields) = some (17 + (utf8 kind).length + weigh fields) := by
  have hroot : RootParts .record (entriesOf (fields.map fun f => (str f.1, f.2))) ["kind"] :=
    ⟨h.rootParts.settled, fun e he name hname =>
      h.rootParts.apart e he name (List.mem_singleton.1 hname ▸ List.mem_cons_self ..)⟩
  have hput : record kind fields = .map (putEntry (sym "kind") (str kind)
      (entriesOf (fields.map fun f => (str f.1, f.2)))) := by
    refine congrArg Term.map (Ordered.eq_of_perm (ordered_entriesOf _) (ordered_putEntry (ordered_entriesOf _) _ _) ?_)
    exact (perm_record h.nodup).trans (((perm_plainMap h.nodup).symm.cons _).trans
      (perm_putEntry (hroot.encode_ne "kind")).symm)
  have hstruct : isStruct (putEntry (sym "kind") (str kind)
      (entriesOf (fields.map fun f => (str f.1, f.2)))) = false := by
    refine lookup_struct fun e he => ?_
    rcases mem_putEntry he with rfl | he
    · simp
    · obtain ⟨b, hb⟩ := binary_entries h e he
      rw [hb]
      simp [sym]
  have hmeasured := measuredRoot_record hroot hk (by rw [h.length_entries]; have := h.few; omega)
  have hnormal : normalizeMeasuredRoot .record (record kind fields) = .ok (record kind fields) := by
    rw [hput]
    exact normalizeMeasuredRoot_eq_ok.2 ⟨_, rfl, hstruct, hmeasured⟩
  have hsize : externalSize (record kind fields) = 17 + (utf8 kind).length + weigh fields := by
    rw [externalSize_eq, hput, str, Slot.encode_kind (binary_entries h), h.weigh, encode_binary_size]
    have hsym : (encode (sym "kind")).length = 6 := by decide
    omega
  simp only [itemSize, normalizeAndMeasureItem, hnormal, bind, Except.bind, hsize]

/-- An event of flat fields is its own normal form. -/
theorem itemSize_event (h : FlatFields .event fields)
    (hk : 0 < (utf8 kind).length ∧ (utf8 kind).length ≤ maxIdentifierBytes) {id : Bytes}
    (hid : 0 < id.length ∧ id.length ≤ maxIdentifierBytes) :
    itemSize .event (mapOf (fields.map (fun f => (str f.1, f.2)) ++
      [(sym "event_id", .binary id), (sym "kind", str kind)])) =
      some (32 + (utf8 kind).length + id.length + weigh fields) := by
  let es := entriesOf (fields.map fun f => (str f.1, f.2))
  let item := putEntry (sym "kind") (str kind) (putEntry (sym "event_id") (.binary id) es)
  have hids : encode (sym "event_id") ≠ encode (sym "kind") := by decide
  have hkinds : ∀ e ∈ putEntry (sym "event_id") (.binary id) es, encode e.1 ≠ encode (sym "kind") := by
    intro e he
    rcases mem_putEntry he with rfl | he
    · exact hids
    · exact h.rootParts.encode_ne "kind" e he
  have hperm : item.Perm ((sym "kind", str kind) :: (sym "event_id", .binary id) ::
      fields.map fun f => (str f.1, f.2)) :=
    (perm_putEntry hkinds).trans (((perm_putEntry (h.rootParts.encode_ne "event_id")).trans
      ((perm_plainMap h.nodup).cons _)).cons _)
  have hput : mapOf (fields.map (fun f => (str f.1, f.2)) ++ [(sym "event_id", .binary id), (sym "kind", str kind)]) =
      .map item := by
    refine congrArg Term.map (Ordered.eq_of_perm (ordered_entriesOf _)
      (ordered_putEntry (ordered_putEntry (ordered_entriesOf _) _ _) _ _) ?_)
    refine (perm_entriesOf ?_).trans (List.perm_append_comm.trans (.trans ?_ hperm.symm))
    · refine List.pairwise_append.2 ⟨pairwise_fields h.nodup, by simp [hids], fun a ha b hb => ?_⟩
      obtain ⟨f, -, rfl⟩ := List.mem_map.1 ha
      rcases List.mem_cons.1 hb with rfl | hb
      · exact encode_binary_ne_atom
      · rw [List.mem_singleton.1 hb]
        exact encode_binary_ne_atom
    · exact List.Perm.swap _ _ _
  have hstruct : isStruct item = false := by
    refine lookup_struct fun e he => ?_
    rcases mem_putEntry he with rfl | he
    · simp
    · rcases mem_putEntry he with rfl | he
      · simp
      · obtain ⟨b, hb⟩ := binary_entries h e he
        rw [hb]
        simp [sym]
  let identifier : Identifier := ⟨id, hid.1, hid.2⟩
  have hmeasured : measuredRoot .event (putEntry (sym "kind") (str kind) (putEntry (sym "event_id")
      (.binary identifier.bytes) es)) = .ok (.map item) :=
    measuredRoot_event h.rootParts hk (by rw [h.length_entries]; exact h.few)
  have hnormal : normalizeMeasuredRoot .event (.map item) = .ok (.map item) :=
    normalizeMeasuredRoot_eq_ok.2 ⟨_, rfl, hstruct, hmeasured⟩
  have hsize : externalSize (.map item) = 32 + (utf8 kind).length + id.length + weigh fields := by
    rw [externalSize_eq, Slot.encode_map_length, Slot.encodeEntries_perm hperm, encodeEntries_length, List.map_cons,
      List.map_cons, List.sum_cons, List.sum_cons, List.map_map, str, encode_binary_size, encode_binary_size]
    dsimp only
    have hweigh : ((fields.map ((fun e : Term × Term => (encode e.1).length + (encode e.2).length) ∘
        fun f => (str f.1, f.2))).sum) = weigh fields := rfl
    have hkind : (encode (sym "kind")).length = 6 := by decide
    have hevent : (encode (sym "event_id")).length = 10 := by decide
    omega
  rw [hput]
  simp only [itemSize, normalizeAndMeasureItem, hnormal, bind, Except.bind, hsize]

/-- The names that the fields of an item may have. -/
def flatNames (plane : Plane) (names : List String) : Bool :=
  decide names.Nodup && names.all (fun name => 0 < (utf8 name).length && (utf8 name).length ≤ maxIdentifierBytes &&
    measuredReservedKey plane (utf8 name) && name ≠ "kind" && name ≠ "event_id") && names.length + 2 ≤ maxItems

theorem flatFields_of (names : List String) (hnames : fields.map Prod.fst = names) (h : flatNames plane names = true)
    (hscalar : ∀ f ∈ fields, measuredValue plane f.2 1 = .ok f.2) : FlatFields plane fields := by
  simp only [flatNames, Bool.and_eq_true, decide_eq_true_eq, List.all_eq_true] at h
  obtain ⟨⟨hnodup, hall⟩, hfew⟩ := h
  refine ⟨hnames ▸ hnodup, fun f hf => ?_, hscalar, ?_⟩
  · obtain ⟨⟨⟨⟨hpos, hle⟩, hreserved⟩, hkind⟩, hid⟩ := hall f.1 (hnames ▸ List.mem_map_of_mem hf)
    exact ⟨⟨by simp only [str, normalizeUserKey, hpos, hle, and_self, if_true], hreserved⟩, hkind, hid⟩
  · rw [← hnames, List.length_map] at hfew
    exact hfew

theorem intWidth_mono {m n : ℕ} (h : m ≤ n) : intWidth m ≤ intWidth n := by
  have hbyte := byteCount_mono h
  have hbig : bigWidth (byteCount m) ≤ bigWidth (byteCount n) := by
    unfold bigWidth
    split <;> split <;> omega
  have hlarge : 2 ^ 31 ≤ n → 5 ≤ bigWidth (byteCount n) := by
    intro hn
    have hcount : ¬ byteCount n ≤ 3 := by
      rw [byteCount_le_iff]
      omega
    unfold bigWidth
    split <;> omega
  unfold intWidth
  split_ifs <;> omega

theorem encode_int_mono {m n : ℤ} (hm : 0 ≤ m) (h : m ≤ n) : (encode (.int m)).length ≤ (encode (.int n)).length := by
  obtain ⟨m, rfl⟩ := Int.eq_ofNat_of_zero_le hm
  obtain ⟨n, rfl⟩ := Int.eq_ofNat_of_zero_le (hm.trans h)
  have hle : m ≤ n := Int.ofNat_le.1 h
  simp only [encode]
  rw [encodeInt_length, encodeInt_length]
  exact intWidth_mono hle

end

/-! ## the end of a run -/

/-- A value, or `nil`. -/
def optional : Option Bytes → Term
  | some b => .binary b
  | none => nil

/-- An element of a conversation, as far as an ending reads it. -/
structure Spoken where
  kind : String
  outcome : Option String

/-- What the end of a run reads of the session besides its identity and its grace: the run that is aborted with the
command that asked for it, and the conversation. -/
structure Ending where
  aborting : Option (Bytes × Bytes)
  elements : Bytes → List Spoken

/-- What an ending says of the bound that was reached, of the reason and of what there is to reconcile. -/
structure Detail where
  bound : String
  observed : ℤ
  declaredLimit : ℤ
  accountingSource : Option Bytes
  reason : Option Bytes
  reconciliationRef : Option Bytes
  /-- It is the deadline of an attempt of a maintenance episode. -/
  maintenance : Bool

/-- `unproven_effect?`. -/
def unprovenEffect (e : Ending) (runId : Bytes) : Bool :=
  (e.elements runId).any fun x => x.kind = "tool_result" && x.outcome = some "outcome_unknown"

/-- `run_outcome`. -/
def runOutcome (e : Ending) (runId : Bytes) (proposed : String) : String :=
  if unprovenEffect e runId then "outcome_unknown" else proposed

/-- `reconciliation_reference`. -/
def reconciliationReference (s : Session) (runId : Bytes) : Bytes := stableId "reconciliation" s.sessionId runId

/-- `terminal_reference`. -/
def terminalReference (s : Session) (runId : Bytes) (outcome : String) (d : Detail) : Option Bytes :=
  if outcome = "outcome_unknown" then some (d.reconciliationRef.getD (reconciliationReference s runId))
  else d.reconciliationRef

/-- The outcome that the record names: `maintenance_attempt_terminal` puts the bound in the place of any other. -/
def namedOutcome (e : Ending) (runId : Bytes) (proposed : String) (d : Detail) : String :=
  if d.maintenance then "bound_reached" else runOutcome e runId proposed

/-- `aborting_command`. -/
def abortingCommand (e : Ending) (runId : Bytes) : Option Bytes :=
  e.aborting.bind fun aborting => if aborting.1 = runId then some aborting.2 else none

/-- The members of `run_terminal_record`. -/
def terminalFields (s : Session) (e : Ending) (runId : Bytes) (proposed : String) (d : Detail) : Fields :=
  [("run_id", .binary runId), ("outcome", str (namedOutcome e runId proposed d)), ("bound", str d.bound),
    ("observed", .int d.observed), ("declared_limit", .int d.declaredLimit),
    ("accounting_source", optional d.accountingSource), ("reason", optional d.reason),
    ("reconciliation_ref", optional (terminalReference s runId (runOutcome e runId proposed) d)),
    ("cleanup_grace_ms", s.cleanupGraceMs), ("command_id", optional (abortingCommand e runId))]

/-- `run_terminal_record`, or `maintenance_attempt_terminal`. -/
def runTerminalRecord (s : Session) (e : Ending) (runId : Bytes) (proposed : String) (d : Detail) : Term :=
  record "run_terminal_committed" (terminalFields s e runId proposed d)

/-- The members of the public event, as the reducer takes them from the record. -/
def finishedFields (s : Session) (e : Ending) (runId : Bytes) (proposed : String) (d : Detail) : Fields :=
  let outcome := namedOutcome e runId proposed d
  [("run_id", .binary runId), ("outcome", str outcome),
    ("reconciliation_ref", optional (terminalReference s runId (runOutcome e runId proposed) d)),
    ("cleanup_grace_ms", s.cleanupGraceMs), ("command_id", optional (abortingCommand e runId))] ++
    if outcome = "bound_reached" then [("bound", str d.bound), ("observed", .int d.observed),
      ("declared_limit", .int d.declaredLimit), ("accounting_source", optional d.accountingSource)]
    else []

/-- `run_finished_event`, of a run that does not fail. -/
def runFinishedEvent (s : Session) (e : Ending) (runId : Bytes) (proposed : String) (d : Detail) : Term :=
  mapOf ((finishedFields s e runId proposed d).map (fun f => (str f.1, f.2)) ++
    [(sym "event_id", .binary (stableId "event-run-finished" s.sessionId runId)), (sym "kind", str "run.finished")])

/-- The item can be committed. -/
def Fits (plane : Plane) (item : Term) : Prop := ∃ bytes, itemSize plane item = some bytes ∧ bytes ≤ maxItemBytes

/-- What is observed of a run with these bounds when one of them is reached.  The call units of a run count the attempts
of its maintenance episodes too, and may exceed its turns.  An ending that is itself proposed as unknown names its
reference. -/
structure Reaches (s : Session) (r : Resolved) (runId : Bytes) (proposed : String) (d : Detail) : Prop where
  bound : (d.bound = "max_turns" ∧ d.declaredLimit = r.maxTurns ∧ r.maxTurns ≤ d.observed) ∨
    (d.bound = "token_budget" ∧ d.declaredLimit = r.tokenBudget ∧ r.tokenBudget ≤ d.observed ∧
      d.observed ≤ r.tokenBudget - 1 + 2 * uint64Max) ∨
    (d.bound = "deadline" ∧ (0 ≤ d.declaredLimit ∧ d.declaredLimit ≤ uint64Max) ∧ 0 ≤ d.observed ∧
      d.observed ≤ uint64Max)
  source : d.accountingSource ∈ [none, some (utf8 "reported"), some (utf8 "estimated")]
  reason : d.reason ∈ [none, some (utf8 "model_call_failed"), some (utf8 "unreadable_model_answer")]
  maintenance : d.maintenance = true → d.bound = "deadline" ∧ proposed = "bound_reached"
  proposed : proposed = "bound_reached" ∧ d.reconciliationRef = none ∨
    proposed = "outcome_unknown" ∧ d.reconciliationRef = some (reconciliationReference s runId)

/-- The call units observed take no more room than the turns that were measured in their place. -/
def Detail.Narrow (d : Detail) (r : Resolved) : Prop :=
  d.bound = "max_turns" → (encode (.int d.observed)).length ≤ (encode (.int r.maxTurns)).length

/-- The size of the stand-in that the preflight measures for what is observed. -/
def candidateBytes (s : Session) (runId : Bytes) (d : Detail) : ℕ :=
  (itemSize .record (futureBoundRecord s (.binary runId) d.bound d.declaredLimit d.observed
    (optional d.accountingSource))).getD 0

/-- What the larger of the record and the event holds besides the stand-in: the identity of the abort, and the
reference and the reason of an unknown outcome, or the envelope of the event with what there is to reconcile. -/
def besides (s : Session) (e : Ending) (runId : Bytes) (proposed : String) (d : Detail) : ℕ :=
  ((abortingCommand e runId).getD []).length +
    if namedOutcome e runId proposed d = "outcome_unknown" then 57 + (d.reason.getD []).length
    else 44 + ((terminalReference s runId (runOutcome e runId proposed) d).getD []).length

/-! ## sizes -/

section

variable {s : Session} {e : Ending} {runId : Bytes} {proposed : String} {d : Detail} {grace : ℤ}

theorem encode_optional_length (o : Option Bytes) : (encode (optional o)).length = 5 + (o.getD []).length := by
  cases o with
  | none => decide
  | some b => exact encode_binary_size b

theorem measuredValue_optional (plane : Plane) (o : Option Bytes) :
    measuredValue plane (optional o) 1 = .ok (optional o) := by
  cases o <;> rfl

theorem weigh_cons (name : String) (v : Term) (fields : Fields) :
    weigh ((name, v) :: fields) = 5 + (utf8 name).length + (encode v).length + weigh fields := by
  rw [weigh, List.map_cons, List.sum_cons, str, encode_binary_size, weigh]

theorem stableId_length {name : String} (h : 8 ≤ (utf8 name).length) (sessionId commandId : Bytes) :
    (stableId name sessionId commandId).length = 39 := by
  have hcolon : (utf8 "_").length = 1 := by decide
  simp only [stableId, List.length_append, List.length_take, hex_length, sha256_length, hcolon]
  omega

theorem commandRunId_length (sessionId commandId : Bytes) : (commandRunId sessionId commandId).length = 34 := by
  have hname : (utf8 "run").length = 3 := by decide
  have hcolon : (utf8 "_").length = 1 := by decide
  simp only [commandRunId, stableId, List.length_append, List.length_take, hex_length, sha256_length, hcolon, hname]
  omega

/-- The members of the stand-in. -/
def candidateFields (s : Session) (runId : Bytes) (bound : String) (declaredLimit observed : ℤ) (source : Term) :
    Fields :=
  [("run_id", .binary runId), ("outcome", str "bound_reached"), ("bound", str bound), ("observed", .int observed),
    ("declared_limit", .int declaredLimit), ("accounting_source", source), ("reconciliation_ref", nil),
    ("cleanup_grace_ms", s.cleanupGraceMs), ("command_id", nil)]

theorem candidate_size (hgrace : s.cleanupGraceMs = .int grace) (bound : String) (declaredLimit observed : ℤ)
    (source : Option Bytes) : itemSize .record (futureBoundRecord s (.binary runId) bound declaredLimit observed
      (optional source)) =
        some (39 + weigh (candidateFields s runId bound declaredLimit observed (optional source))) := by
  have hkind : (utf8 "run_terminal_committed").length = 22 := by decide
  have hflat : FlatFields .record (candidateFields s runId bound declaredLimit observed (optional source)) := by
    refine flatFields_of ["run_id", "outcome", "bound", "observed", "declared_limit", "accounting_source",
      "reconciliation_ref", "cleanup_grace_ms", "command_id"] rfl (by decide) ?_
    rw [candidateFields, hgrace]
    simp only [List.forall_mem_cons]
    exact ⟨rfl, rfl, rfl, rfl, rfl, measuredValue_optional _ _, rfl, rfl, rfl, nofun⟩
  have hsize := itemSize_record "run_terminal_committed" hflat (by decide)
  rwa [hkind] at hsize

theorem candidateBytes_eq (hgrace : s.cleanupGraceMs = .int grace) : candidateBytes s runId d =
    39 + weigh (candidateFields s runId d.bound d.declaredLimit d.observed (optional d.accountingSource)) := by
  rw [candidateBytes, candidate_size hgrace, Option.getD_some]

/-- The size of the record, beside that of its stand-in. -/
theorem terminal_size (e : Ending) (runId : Bytes) (proposed : String) (d : Detail)
    (hgrace : s.cleanupGraceMs = .int grace) : ∃ bytes,
    itemSize .record (runTerminalRecord s e runId proposed d) = some bytes ∧
      bytes + 13 = candidateBytes s runId d + 16 + (d.reason.getD []).length +
        ((terminalReference s runId (runOutcome e runId proposed) d).getD []).length +
        ((abortingCommand e runId).getD []).length + (utf8 (namedOutcome e runId proposed d)).length := by
  have hkind : (utf8 "run_terminal_committed").length = 22 := by decide
  have hflat : FlatFields .record (terminalFields s e runId proposed d) := by
    refine flatFields_of ["run_id", "outcome", "bound", "observed", "declared_limit", "accounting_source",
      "reason", "reconciliation_ref", "cleanup_grace_ms", "command_id"] rfl (by decide) ?_
    rw [terminalFields, hgrace]
    simp only [List.forall_mem_cons]
    exact ⟨rfl, rfl, rfl, rfl, rfl, measuredValue_optional _ _, measuredValue_optional _ _, measuredValue_optional _ _,
      rfl, measuredValue_optional _ _, nofun⟩
  have hsize := itemSize_record "run_terminal_committed" hflat (by decide)
  have hreason : (utf8 "reason").length = 6 := by decide
  have houtcome : (utf8 "bound_reached").length = 13 := by decide
  have hnil : (encode nil).length = 5 := by decide
  refine ⟨_, hsize, ?_⟩
  rw [candidateBytes_eq hgrace]
  simp only [terminalFields, candidateFields, weigh_cons, encode_optional_length, str, encode_binary_size, hkind,
    hreason, houtcome, hnil]
  omega

theorem finished_flat (hgrace : s.cleanupGraceMs = .int grace) :
    FlatFields .event (finishedFields s e runId proposed d) := by
  by_cases houtcome : namedOutcome e runId proposed d = "bound_reached"
  · refine flatFields_of ["run_id", "outcome", "reconciliation_ref", "cleanup_grace_ms", "command_id", "bound",
      "observed", "declared_limit", "accounting_source"] ?_ (by decide) ?_
    · rw [finishedFields, if_pos houtcome]
      rfl
    · rw [finishedFields, if_pos houtcome, hgrace]
      simp only [List.cons_append, List.nil_append, List.forall_mem_cons]
      exact ⟨rfl, rfl, measuredValue_optional _ _, rfl, measuredValue_optional _ _, rfl, rfl, rfl,
        measuredValue_optional _ _, nofun⟩
  · refine flatFields_of ["run_id", "outcome", "reconciliation_ref", "cleanup_grace_ms", "command_id"] ?_
      (by decide) ?_
    · rw [finishedFields, if_neg houtcome]
      rfl
    · rw [finishedFields, if_neg houtcome, hgrace]
      simp only [List.append_nil, List.forall_mem_cons]
      exact ⟨rfl, rfl, measuredValue_optional _ _, rfl, measuredValue_optional _ _, nofun⟩

theorem finished_size (hgrace : s.cleanupGraceMs = .int grace) :
    itemSize .event (runFinishedEvent s e runId proposed d) =
      some (83 + weigh (finishedFields s e runId proposed d)) := by
  have hkind : (utf8 "run.finished").length = 12 := by decide
  have hid : (stableId "event-run-finished" s.sessionId runId).length = 39 := stableId_length (by decide) _ _
  have hflat : FlatFields .event (finishedFields s e runId proposed d) := finished_flat hgrace
  have hsize := itemSize_event "run.finished" hflat (by decide) (show 0 < (stableId "event-run-finished" s.sessionId
    runId).length ∧ (stableId "event-run-finished" s.sessionId runId).length ≤ maxIdentifierBytes by rw [hid]; decide)
  rwa [hkind, hid] at hsize

/-- The event of a bound, beside the stand-in of its record. -/
theorem finished_size_bound (hgrace : s.cleanupGraceMs = .int grace)
    (houtcome : namedOutcome e runId proposed d = "bound_reached") :
    itemSize .event (runFinishedEvent s e runId proposed d) = some (candidateBytes s runId d + 44 +
      ((terminalReference s runId (runOutcome e runId proposed) d).getD []).length +
      ((abortingCommand e runId).getD []).length) := by
  have hnil : (encode nil).length = 5 := by decide
  rw [finished_size hgrace, candidateBytes_eq hgrace]
  refine congrArg some ?_
  simp only [finishedFields, candidateFields, houtcome, if_true, List.cons_append, List.nil_append, weigh_cons,
    encode_optional_length, str, encode_binary_size, hnil]
  omega

/-- The event of an unknown outcome is smaller than its record. -/
theorem finished_size_unknown (hgrace : s.cleanupGraceMs = .int grace)
    (houtcome : namedOutcome e runId proposed d = "outcome_unknown") {bytes : ℕ}
    (hbytes : itemSize .record (runTerminalRecord s e runId proposed d) = some bytes) :
    ∃ small, itemSize .event (runFinishedEvent s e runId proposed d) = some small ∧ small ≤ bytes := by
  obtain ⟨bytes', hbytes', heq⟩ := terminal_size e runId proposed d hgrace
  rw [hbytes] at hbytes'
  cases hbytes'
  have hne : ¬ ("outcome_unknown" = "bound_reached") := by decide
  have hnames : (utf8 "observed").length = 8 ∧ (utf8 "declared_limit").length = 14 ∧
      (utf8 "accounting_source").length = 17 ∧ (utf8 "bound").length = 5 ∧ (utf8 "bound_reached").length = 13 := by
    decide
  have hnil : (encode nil).length = 5 := by decide
  refine ⟨_, finished_size hgrace, ?_⟩
  rw [candidateBytes_eq hgrace, houtcome] at heq
  simp only [candidateFields, weigh_cons, encode_optional_length, str, encode_binary_size, hnil, hnames] at heq
  simp only [finishedFields, houtcome, if_neg hne, List.append_nil, weigh_cons, encode_optional_length, str,
    encode_binary_size]
  omega

end

/-! ## the preflight -/

theorem size_le_foldl (plane : Plane) (candidates : List Term) (start : Term) :
    ∀ t ∈ start :: candidates, (itemSize plane t).getD 0 ≤ (itemSize plane (candidates.foldl
      (fun best t => if (itemSize plane best).getD 0 < (itemSize plane t).getD 0 then t else best) start)).getD 0 := by
  induction candidates generalizing start with
  | nil => simp
  | cons c candidates ih =>
    rw [List.foldl_cons]
    by_cases hlt : (itemSize plane start).getD 0 < (itemSize plane c).getD 0
    · rw [if_pos hlt]
      intro t ht
      rcases List.mem_cons.1 ht with rfl | ht
      · exact hlt.le.trans (ih c c (List.mem_cons_self ..))
      · exact ih c t ht
    · rw [if_neg hlt]
      intro t ht
      rcases List.mem_cons.1 ht with rfl | ht
      · exact ih t t (List.mem_cons_self ..)
      · rcases List.mem_cons.1 ht with rfl | ht
        · exact (not_lt.1 hlt).trans (ih start start (List.mem_cons_self ..))
        · exact ih start t (List.mem_cons_of_mem _ ht)

theorem size_le_largest {plane : Plane} {candidates : List Term} {t : Term} (h : t ∈ candidates) :
    (itemSize plane t).getD 0 ≤ (itemSize plane (largest plane candidates)).getD 0 := by
  cases candidates with
  | nil => cases h
  | cons c candidates => exact size_le_foldl plane candidates c t h

theorem Verdict.andThen_eq_fits {v w : Verdict} (h : v.andThen w = .fits) : v = .fits ∧ w = .fits := by
  cases v with
  | fits => exact ⟨rfl, h⟩
  | tooLarge d n o => cases h
  | invalid => cases h

theorem preflightCandidate_fits {plane : Plane} {t : Term} {dimension name : String}
    (h : preflightCandidate plane t dimension name = .fits) : (itemSize plane t).getD 0 ≤ maxItemBytes := by
  unfold preflightCandidate at h
  split at h
  next bytes hbytes =>
    split at h
    next hle =>
      rw [hbytes]
      exact hle
    · cases h
  · cases h

section

variable {s : Session} {c : Command} {r : Resolved} {row : Row} {next : Session} {e : Ending} {runId : Bytes}
  {proposed : String} {d : Detail} {grace : ℤ} {content : Bytes} {bounds : Option Authored}

/-- An ending without an abort and without a conversation. -/
def quietEnding : Ending :=
  { aborting := none
    elements := fun _ => [] }

/-- What a stand-in says of what is observed. -/
def Detail.measured (d : Detail) : Detail := { d with reason := none, reconciliationRef := none, maintenance := false }

/-- The stand-in of the event is the event of a run that nobody aborts. -/
theorem futureBoundEvent_eq : futureBoundEvent s runId d.bound d.declaredLimit d.observed
    (optional d.accountingSource) = runFinishedEvent s quietEnding runId "bound_reached" d.measured := by
  have houtcome : namedOutcome quietEnding runId "bound_reached" d.measured = "bound_reached" := rfl
  rw [futureBoundEvent, runFinishedEvent, finishedFields, houtcome, if_pos rfl]
  rfl

/-- Of every stand-in that is measured the event is the larger. -/
theorem preflightBound_fits (hgrace : s.cleanupGraceMs = .int grace)
    (hsource : d.accountingSource ∈ [none, some (utf8 "reported"), some (utf8 "estimated")])
    (h : preflightBound s runId d.bound d.declaredLimit d.observed = .fits) :
    candidateBytes s runId d + 44 ≤ maxItemBytes := by
  unfold preflightBound at h
  obtain ⟨-, hevent⟩ := Verdict.andThen_eq_fits h
  have hlargest := preflightCandidate_fits hevent
  have hmem : futureBoundEvent s runId d.bound d.declaredLimit d.observed (optional d.accountingSource) ∈
      [nil, str "reported", str "estimated"].map (futureBoundEvent s runId d.bound d.declaredLimit d.observed) := by
    refine List.mem_map_of_mem ?_
    simp only [List.mem_cons, List.not_mem_nil, or_false] at hsource
    rcases hsource with hs | hs | hs <;> rw [hs] <;> simp [optional, str]
  have hle := (size_le_largest hmem).trans hlargest
  have hsize : itemSize .event (runFinishedEvent s quietEnding runId "bound_reached" d.measured) =
      some (candidateBytes s runId d + 44 + 0 + 0) := finished_size_bound hgrace rfl
  rw [futureBoundEvent_eq, hsize] at hle
  exact hle

/-- A stand-in grows with its numbers, and does not depend on which run it is of. -/
theorem candidateBytes_le {runId' : Bytes} {declaredLimit observed : ℤ} (hgrace : s.cleanupGraceMs = .int grace)
    (hrun : runId.length = runId'.length) (hlimit : 0 ≤ d.declaredLimit ∧ d.declaredLimit ≤ declaredLimit)
    (hobserved : (encode (.int d.observed)).length ≤ (encode (.int observed)).length) : candidateBytes s runId d ≤
      candidateBytes s runId' { d with declaredLimit := declaredLimit, observed := observed } := by
  have hlimits := encode_int_mono hlimit.1 hlimit.2
  rw [candidateBytes_eq hgrace, candidateBytes_eq hgrace]
  simp only [candidateFields, weigh_cons, encode_binary_size]
  omega

theorem admittedProposal_kind {proposal : Row} {events : List Term} {kept : Session}
    (h : admittedProposal s c proposal events kept = some (row, next))
    (hkind : row.kind ≠ "command_admission_refused_v1") (hrun : proposal.fields.get "run_id" = some (.binary runId)) :
    row = proposal ∧ preflightCommand s c proposal events runId = .fits := by
  simp only [admittedProposal, hrun] at h
  generalize hverdict : preflightCommand s c proposal events runId = verdict at h
  cases verdict with
  | fits =>
    cases h
    exact ⟨rfl, rfl⟩
  | tooLarge dimension candidate observed =>
    cases h
    exact absurd rfl hkind
  | invalid => cases h

/-- What was measured of a prompt that is accepted. -/
theorem accepted_fits (hc : c.content = .prompt content bounds) (h : propose s c r = some (row, next))
    (hkind : row.kind = "prompt_admitted_v3") :
    preflightBound s (commandRunId s.sessionId c.commandId) "max_turns" r.maxTurns r.maxTurns = .fits ∧
      preflightBound s (commandRunId s.sessionId c.commandId) "token_budget" r.tokenBudget
        (r.tokenBudget - 1 + 2 * uint64Max) = .fits ∧
      preflightBound s (commandRunId s.sessionId c.commandId) "deadline" uint64Max uint64Max = .fits := by
  have hrefused : ∀ admission, (refusalRow c admission).kind ≠ "prompt_admitted_v3" := by simp [refusalRow, commandRow]
  unfold propose at h
  split at h
  · cases h
  unfold proposeNew at h
  split at h
  next now ceiling _ =>
    cases h
    exact absurd hkind (by simp [elapsedRow, commandRow])
  next heq =>
    rw [hc] at heq
    cases heq
  next =>
    cases h
    exact absurd hkind (hrefused _)
  next =>
    cases hactive : s.work.activeRunId with
    | none =>
      simp only [proposeIdle, hc, hactive] at h
      split at h
      · cases h
      · have hrun : (commandRow "prompt_admitted_v3" c (str "accepted") [("run_id",
            .binary (commandRunId s.sessionId c.commandId)), ("content", .binary content),
            ("max_turns", .int r.maxTurns), ("token_budget", .int r.tokenBudget), ("deadline_ms", .int r.deadlineMs),
            ("context_token_budget", .int r.contextTokenBudget), ("configuration_version",
            ConfigureCommand.configurationVersion s.settings)]).fields.get "run_id" =
            some (.binary (commandRunId s.sessionId c.commandId)) := by
          simp [commandRow_fields, identityFields]
        obtain ⟨rfl, hfits⟩ := admittedProposal_kind h (by rw [hkind]; decide) hrun
        obtain ⟨-, hfuture⟩ := Verdict.andThen_eq_fits hfits
        simp only [preflightFutureBounds, commandRow_fields, identityFields, List.cons_append, List.nil_append,
          Fields.get_cons, String.reduceEq, if_true, if_false] at hfuture
        obtain ⟨hboth, hdeadline⟩ := Verdict.andThen_eq_fits hfuture
        obtain ⟨hturns, htokens⟩ := Verdict.andThen_eq_fits hboth
        exact ⟨hturns, htokens, hdeadline⟩
    | some active =>
      simp only [proposeIdle, hc, hactive] at h
      split at h
      · cases h
      · cases h
        exact absurd hkind (hrefused _)

/-- The stand-in of a bound that is reached fits, beside the envelope of its event, if what is observed is no wider
than what was measured. -/
theorem reached_fits (hc : c.content = .prompt content bounds) (h : propose s c r = some (row, next))
    (hkind : row.kind = "prompt_admitted_v3") (hgrace : s.cleanupGraceMs = .int grace) (hturns : 0 < r.maxTurns)
    (htokens : 0 < r.tokenBudget) (id : Bytes) (hd : Reaches s r (commandRunId s.sessionId id) proposed d)
    (hnarrow : d.Narrow r) : candidateBytes s (commandRunId s.sessionId id) d + 44 ≤ maxItemBytes := by
  obtain ⟨hmax, hbudget, hdeadline⟩ := accepted_fits hc h hkind
  have hlength : (commandRunId s.sessionId id).length = (commandRunId s.sessionId c.commandId).length := by
    rw [commandRunId_length, commandRunId_length]
  have hstand : ∀ declaredLimit observed : ℤ, 0 ≤ d.declaredLimit ∧ d.declaredLimit ≤ declaredLimit →
      (encode (.int d.observed)).length ≤ (encode (.int observed)).length →
      preflightBound s (commandRunId s.sessionId c.commandId) d.bound declaredLimit observed = .fits →
      candidateBytes s (commandRunId s.sessionId id) d + 44 ≤ maxItemBytes := by
    intro declaredLimit observed hlimit hobserved hfits
    let measured : Detail := { d with declaredLimit := declaredLimit, observed := observed }
    have hle := candidateBytes_le hgrace hlength hlimit hobserved
    have hmeasured : candidateBytes s (commandRunId s.sessionId c.commandId) measured + 44 ≤ maxItemBytes :=
      preflightBound_fits hgrace hd.source hfits
    exact (Nat.add_le_add_right hle 44).trans hmeasured
  rcases hd.bound with ⟨hbound, hlimit, hobserved⟩ | ⟨hbound, hlimit, hfrom, hto⟩ | ⟨hbound, hlimit, hfrom, hto⟩
  · exact hstand r.maxTurns r.maxTurns (by omega) (hnarrow hbound) (hbound ▸ hmax)
  · exact hstand r.tokenBudget (r.tokenBudget - 1 + 2 * uint64Max) (by omega) (encode_int_mono (by omega) hto)
      (hbound ▸ hbudget)
  · exact hstand uint64Max uint64Max hlimit (encode_int_mono hfrom hto) (hbound ▸ hdeadline)

/-- The record names the bound or says that the outcome is unknown; what is proven leaves nothing to reconcile. -/
theorem namedOutcome_cases (e : Ending) (hd : Reaches s r runId proposed d) :
    namedOutcome e runId proposed d = "bound_reached" ∧ (unprovenEffect e runId = false ∧ proposed = "bound_reached" →
      terminalReference s runId (runOutcome e runId proposed) d = none) ∨
    namedOutcome e runId proposed d = "outcome_unknown" ∧
      ¬ (unprovenEffect e runId = false ∧ proposed = "bound_reached") ∧
      ((terminalReference s runId (runOutcome e runId proposed) d).getD []).length = 39 := by
  have hlength : (reconciliationReference s runId).length = 39 := stableId_length (by decide) _ _
  have hproven : unprovenEffect e runId = false ∧ proposed = "bound_reached" →
      runOutcome e runId proposed = "bound_reached" ∧
        terminalReference s runId (runOutcome e runId proposed) d = none := by
    rintro ⟨heffect, hbound⟩
    have houtcome : runOutcome e runId proposed = "bound_reached" := by
      simp only [runOutcome, heffect, Bool.false_eq_true, if_false, hbound]
    rcases hd.proposed with ⟨-, hnone⟩ | ⟨hunknown, -⟩
    · exact ⟨houtcome, by rw [terminalReference, houtcome, if_neg (by decide), hnone]⟩
    · exact absurd (hbound.symm.trans hunknown) (by decide)
  by_cases hproof : unprovenEffect e runId = false ∧ proposed = "bound_reached"
  · refine .inl ⟨?_, fun _ => (hproven hproof).2⟩
    rw [namedOutcome, (hproven hproof).1, ite_self]
  · cases hmaintenance : d.maintenance with
    | true =>
      refine .inl ⟨?_, fun h => absurd h hproof⟩
      rw [namedOutcome, hmaintenance, if_pos rfl]
    | false =>
      have houtcome : runOutcome e runId proposed = "outcome_unknown" := by
        rcases hd.proposed with ⟨hbound, -⟩ | ⟨hunknown, -⟩
        · have heffect : unprovenEffect e runId = true := by
            rw [← Bool.not_eq_false]
            exact fun h => hproof ⟨h, hbound⟩
          rw [runOutcome, heffect, if_pos rfl]
        · rw [runOutcome, hunknown, ite_self]
      refine .inr ⟨?_, hproof, ?_⟩
      · rw [namedOutcome, hmaintenance, houtcome, if_neg (by decide)]
      · rw [terminalReference, if_pos houtcome, Option.getD_some]
        rcases hd.proposed with ⟨-, href⟩ | ⟨-, href⟩ <;> rw [href] <;> exact hlength

/-- **What ends a run.**  Of an accepted prompt, and of every follow-up that takes its bounds, a bound that is reached
can be written down when no abort of the run is recorded, nothing is unproven and the call units of its maintenance
take no more room than its turns, which is what the preflight has measured; else when there is room for what the
preflight has left out. -/
theorem terminal_fits_iff (hc : c.content = .prompt content bounds) (h : propose s c r = some (row, next))
    (hkind : row.kind = "prompt_admitted_v3") (hgrace : s.cleanupGraceMs = .int grace) (hturns : 0 < r.maxTurns)
    (htokens : 0 < r.tokenBudget) (e : Ending) (id : Bytes)
    (hd : Reaches s r (commandRunId s.sessionId id) proposed d) :
    (Fits .record (runTerminalRecord s e (commandRunId s.sessionId id) proposed d) ∧
        Fits .event (runFinishedEvent s e (commandRunId s.sessionId id) proposed d)) ↔
      (abortingCommand e (commandRunId s.sessionId id) = none ∧ unprovenEffect e (commandRunId s.sessionId id) = false ∧
          proposed = "bound_reached" ∧ d.Narrow r) ∨
        candidateBytes s (commandRunId s.sessionId id) d + besides s e (commandRunId s.sessionId id) proposed d ≤
          maxItemBytes := by
  have hstand := reached_fits hc h hkind hgrace hturns htokens id hd
  generalize hrun : commandRunId s.sessionId id = runId at hd hstand ⊢
  have hreason : (d.reason.getD []).length ≤ 23 := by
    have hreasons := hd.reason
    simp only [List.mem_cons, List.not_mem_nil, or_false] at hreasons
    rcases hreasons with heq | heq | heq <;> rw [heq] <;> decide
  have hnames : (utf8 "bound_reached").length = 13 ∧ (utf8 "outcome_unknown").length = 15 := by decide
  obtain ⟨recordBytes, hrecord, hrecordBytes⟩ := terminal_size e runId proposed d hgrace
  rcases namedOutcome_cases e hd with ⟨houtcome, hproven⟩ | ⟨houtcome, hnot, hreference⟩
  · -- the event is the larger of the two, and it was measured but for the abort and for what is to be reconciled
    have hevent : itemSize .event (runFinishedEvent s e runId proposed d) = some (candidateBytes s runId d + 44 +
        ((terminalReference s runId (runOutcome e runId proposed) d).getD []).length +
        ((abortingCommand e runId).getD []).length) := finished_size_bound hgrace houtcome
    rw [houtcome, hnames.1] at hrecordBytes
    have hboth : (Fits .record (runTerminalRecord s e runId proposed d) ∧
        Fits .event (runFinishedEvent s e runId proposed d)) ↔ candidateBytes s runId d + 44 +
          ((terminalReference s runId (runOutcome e runId proposed) d).getD []).length +
          ((abortingCommand e runId).getD []).length ≤ maxItemBytes := by
      simp only [Fits, hrecord, hevent, Option.some.injEq, exists_eq_left']
      omega
    rw [hboth, besides, houtcome, if_neg (by decide)]
    constructor
    · intro hle
      exact .inr (by omega)
    · rintro (⟨hnone, heffect, hbound, hnarrow⟩ | hle)
      · rw [hnone, hproven ⟨heffect, hbound⟩, Option.getD_none, List.length_nil, Nat.add_zero, Nat.add_zero]
        exact hstand hnarrow
      · omega
  · -- the record is the larger of the two: it names what there is to reconcile
    obtain ⟨eventBytes, hevent, hle⟩ := finished_size_unknown hgrace houtcome hrecord
    rw [hreference, houtcome, hnames.2] at hrecordBytes
    have hboth : (Fits .record (runTerminalRecord s e runId proposed d) ∧
        Fits .event (runFinishedEvent s e runId proposed d)) ↔ recordBytes ≤ maxItemBytes := by
      simp only [Fits, hrecord, hevent, Option.some.injEq, exists_eq_left']
      omega
    rw [hboth, besides, if_pos houtcome]
    constructor
    · intro hfits
      exact .inr (by omega)
    · rintro (⟨-, heffect, hbound, -⟩ | hfits)
      · exact absurd ⟨heffect, hbound⟩ hnot
      · omega

end

/-! ## an abort whose identity outgrows the measurement -/

/-- A session at rest. -/
def restingSession : Session :=
  { sessionId := utf8 "s"
    cleanupGraceMs := .int 5000
    configuration := ConfigureCommand.settledState.configuration
    definitions := .list []
    work := ⟨none, [], none, none, none, none, none, false, some false⟩
    queuedSteers := []
    questions := []
    commands := [] }

/-- A prompt to it. -/
def askPrompt : Command :=
  { commandId := utf8 "p"
    content := .prompt (utf8 "go") none
    nonempty := by decide
    valid := ⟨by decide, nofun⟩ }

/-- The bounds of its run. -/
def askBounds : Resolved :=
  { admittedAt := none
    maxTurns := 1
    tokenBudget := 1
    deadlineMs := 1000
    contextTokenBudget := 1000
    configure := ⟨nil, true, none⟩ }

/-- Its run. -/
def askRun : Bytes := commandRunId restingSession.sessionId askPrompt.commandId

/-- An abort. -/
def abortNamed (id : Bytes) (h : id ≠ []) : Command :=
  { commandId := id
    content := .abort
    nonempty := h
    valid := trivial }

/-- The deadline of the run, as it is reached. -/
def deadlineReached : Detail :=
  { bound := "deadline"
    observed := 1000
    declaredLimit := 1000
    accountingSource := none
    reason := none
    reconciliationRef := none
    maintenance := false }

/-- The row of the prompt. -/
def askRow : Row :=
  commandRow "prompt_admitted_v3" askPrompt (str "accepted") [("run_id", .binary askRun),
    ("content", .binary (utf8 "go")), ("max_turns", .int 1), ("token_budget", .int 1), ("deadline_ms", .int 1000),
    ("context_token_budget", .int 1000),
    ("configuration_version", ConfigureCommand.configurationVersion restingSession.settings)]

/-- The session while the prompt runs. -/
def askedSession : Session :=
  { restingSession.bind askPrompt with work := { restingSession.work with activeRunId := some askRun } }

theorem askPrompt_accepted : propose restingSession askPrompt askBounds = some (askRow, askedSession) := by
  have hconfigured : ¬ restingSession.configuration = nil := by decide
  have hfits : preflightCommand restingSession askPrompt askRow (promptEvents restingSession.sessionId
      askPrompt.commandId askRun (utf8 "go")) askRun = .fits := by decide +kernel
  have hrun : askRow.fields.get "run_id" = some (.binary askRun) := by
    simp [askRow, commandRow_fields, identityFields]
  have hidle : proposeIdle restingSession askPrompt askBounds = admittedProposal restingSession askPrompt askRow
      (promptEvents restingSession.sessionId askPrompt.commandId askRun (utf8 "go")) askedSession := by
    unfold proposeIdle
    exact if_neg hconfigured
  have helapsed : elapsed askPrompt askBounds = none := rfl
  have hcompact : restingSession.work.pendingCompact = none := rfl
  have hfree : ¬ (restingSession.commands.lookup askPrompt.commandId).isSome = true := Bool.false_ne_true
  rw [propose, if_neg hfree, proposeNew, helapsed, hcompact]
  change proposeIdle restingSession askPrompt askBounds = _
  rw [hidle]
  simp only [admittedProposal, hrun, hfits]

section

variable {id : Bytes} (h : id ≠ [])

/-- The row of an abort of the run. -/
def abortRow : Row := commandRow "command_admitted" (abortNamed id h) (str "accepted") [("run_id", .binary askRun)]

theorem abortNamed_accepted (hne : id ≠ askPrompt.commandId) : propose askedSession (abortNamed id h) askBounds =
    some (abortRow h, (askedSession.bind (abortNamed id h)).aborted askRun id) := by
  have hlookup : (askedSession.commands.lookup (abortNamed id h).commandId).isSome = false := by
    rw [Option.isSome_eq_false_iff, Option.isNone_iff_eq_none, List.lookup_eq_none_iff]
    simp [askedSession, restingSession, Session.bind, abortNamed, hne]
  rw [propose, hlookup]
  rfl

theorem abortRow_size : itemSize .record (abortRow h).toTerm = some (245 + id.length) := by
  have hflat : FlatFields .record (abortRow h).fields := by
    refine flatFields_of ["command_id", "command_digest", "command_type", "admission", "run_id"] rfl (by decide) ?_
    simp only [abortRow, commandRow_fields, identityFields, revisionFields, abortNamed, List.cons_append,
      List.nil_append, List.forall_mem_cons]
    exact ⟨rfl, rfl, rfl, rfl, rfl, List.forall_mem_nil _⟩
  have hsize := itemSize_record "command_admitted" hflat (by decide)
  have hdigest : (commandDigest (abortNamed id h).toTerm).length = 64 := by
    rw [commandDigest, hex_length, sha256_length]
  have hrun : askRun.length = 34 := commandRunId_length _ _
  have hnames : (utf8 "command_admitted").length = 16 ∧ (utf8 "command_id").length = 10 ∧
      (utf8 "command_digest").length = 14 ∧ (utf8 "command_type").length = 12 ∧ (utf8 "admission").length = 9 ∧
      (utf8 "run_id").length = 6 ∧ (utf8 "abort").length = 5 ∧ (utf8 "accepted").length = 8 := by decide
  have hempty : weigh [] = 0 := rfl
  refine (show itemSize .record (abortRow h).toTerm = _ from hsize).trans (congrArg some ?_)
  simp only [abortRow, commandRow_fields, identityFields, revisionFields, abortNamed, List.cons_append, List.nil_append,
    weigh_cons, str, encode_binary_size, Command.digest, Content.type] at hdigest ⊢
  omega

end

/-- The run ends after an abort of this name is recorded. -/
def abortedEnding (id : Bytes) : Ending :=
  { aborting := some (askRun, id)
    elements := fun _ => [] }

def longId : Bytes := List.replicate 65250 97

theorem longId_length : longId.length = 65250 := List.length_replicate

theorem longId_ne : longId ≠ [] := List.ne_nil_of_length_pos (by rw [longId_length]; decide)

theorem deadlineReached_reaches : Reaches restingSession askBounds askRun "bound_reached" deadlineReached where
  bound := .inr (.inr ⟨rfl, by decide, by decide, by decide⟩)
  source := List.mem_cons_self ..
  reason := List.mem_cons_self ..
  maintenance := nofun
  proposed := .inl ⟨rfl, rfl⟩

theorem candidateBytes_deadlineReached : candidateBytes restingSession askRun deadlineReached = 285 := by
  decide +kernel

/-- **An abort outgrows what was measured.**  It is written down, and the deadline it races with no longer can be. -/
theorem abort_outgrows_preflight : propose restingSession askPrompt askBounds = some (askRow, askedSession) ∧
    askRow.kind = "prompt_admitted_v3" ∧
    propose askedSession (abortNamed longId longId_ne) askBounds =
      some (abortRow longId_ne, (askedSession.bind (abortNamed longId longId_ne)).aborted askRun longId) ∧
    Fits .record (abortRow longId_ne).toTerm ∧
    Reaches restingSession askBounds askRun "bound_reached" deadlineReached ∧
    ¬ Fits .record (runTerminalRecord restingSession (abortedEnding longId) askRun "bound_reached" deadlineReached) ∧
    ¬ Fits .event (runFinishedEvent restingSession (abortedEnding longId) askRun "bound_reached" deadlineReached) := by
  have hne : longId ≠ askPrompt.commandId := by
    intro heq
    have hlength := congrArg List.length heq
    rw [longId_length] at hlength
    exact absurd hlength (by decide)
  have haborting : abortingCommand (abortedEnding longId) askRun = some longId := by
    rw [abortingCommand, abortedEnding, Option.bind_some, if_pos rfl]
  have houtcome : namedOutcome (abortedEnding longId) askRun "bound_reached" deadlineReached = "bound_reached" := rfl
  have hmax : maxItemBytes = 65536 := rfl
  refine ⟨askPrompt_accepted, rfl, abortNamed_accepted longId_ne hne, ⟨_, abortRow_size longId_ne, ?_⟩,
    deadlineReached_reaches, ?_, ?_⟩
  · rw [longId_length, hmax]
    omega
  · rintro ⟨bytes, hbytes, hle⟩
    obtain ⟨bytes', hbytes', heq⟩ := terminal_size (abortedEnding longId) askRun "bound_reached" deadlineReached
      (s := restingSession) rfl
    rw [hbytes] at hbytes'
    cases hbytes'
    rw [haborting, Option.getD_some, longId_length, candidateBytes_deadlineReached] at heq
    omega
  · rintro ⟨bytes, hbytes, hle⟩
    have hsize : itemSize .event (runFinishedEvent restingSession (abortedEnding longId) askRun "bound_reached"
        deadlineReached) = some (candidateBytes restingSession askRun deadlineReached + 44 +
          ((terminalReference restingSession askRun (runOutcome (abortedEnding longId) askRun "bound_reached")
            deadlineReached).getD []).length + ((abortingCommand (abortedEnding longId) askRun).getD []).length) :=
      finished_size_bound rfl houtcome
    rw [hbytes, haborting, Option.getD_some, longId_length, candidateBytes_deadlineReached] at hsize
    obtain rfl := Option.some.inj hsize
    omega

/-- The turns of the run, as they are reached after one attempt of maintenance. -/
def turnsReached : Detail := { deadlineReached with bound := "max_turns", observed := 2, declaredLimit := 1 }

/-- The end of the turns of a run that nobody aborts is written down. -/
theorem terminal_fits_unaborted :
    Fits .record (runTerminalRecord restingSession quietEnding askRun "bound_reached" turnsReached) ∧
      Fits .event (runFinishedEvent restingSession quietEnding askRun "bound_reached" turnsReached) := by
  have hreaches : Reaches restingSession askBounds askRun "bound_reached" turnsReached :=
    { bound := .inl ⟨rfl, rfl, by decide⟩
      source := List.mem_cons_self ..
      reason := List.mem_cons_self ..
      maintenance := fun h => absurd h Bool.false_ne_true
      proposed := .inl ⟨rfl, rfl⟩ }
  exact (terminal_fits_iff rfl askPrompt_accepted rfl rfl (by decide) (by decide) quietEnding askPrompt.commandId
    hreaches).2 (.inl ⟨rfl, rfl, rfl, fun _ => by decide⟩)

end Loopex.Runtime
