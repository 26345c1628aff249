import Loopex.Store.Opening

/-!
# Creation outcomes

The port confirms an outcome of a creation transaction only when its own checks accept it, and otherwise
reports that the commit is unknown.  Here the outcomes of this Store, fresh or retained, are shown to pass.

* `validCreationReceipt_*` — the receipts of the three transactions pass the port's check;
* `State.Confirmed` — every retained creation outcome does;
* `creation_confirmed` — **the port returns every creation outcome as it is, and no reservation runs out
  of counters**.
-/

namespace Loopex.Store

open Loopex.Erlang Loopex.Erlang.Term Loopex.Runtime Loopex.System

variable {access : StructAccess} {fuel : ℕ} {S S' : State} {kvs : List (Term × Term)}
  {T : Transaction} {resolution : Resolution} {records : List Record} {events : List Term}
  {head : Head} {c : Capsule} {raw : Term} {p : Prepared}

/-! ## the head of a receipt -/

/-- The names a receipt's head is taken under. -/
def takenNames : List String :=
  ["owner_generation", "owner_selection", "domain_version", "active_command_id"]

/-- **The head taken from a receipt is the head it was written from.** -/
theorem receiptHead_atomMap {fs : Fields} (h : Apart (fs.map Prod.fst)) (head : Head)
    (hf : (fs.filter fun f => f.1 ∈ takenNames) = head.fields) :
    receiptHead (atomMap fs) = head.toTerm := by
  have hkey : ∀ f : String × Term, decide (sym f.1 ∈ takenNames.map sym) = decide (f.1 ∈ takenNames) := by
    intro f
    simp [takenNames]
  have hperm : (fs.entries.filter fun e => e.1 ∈ takenNames.map sym).Perm
      (head.fields.map fun f => (sym f.1, f.2)) := by
    refine ((perm_fields h).filter _).trans ?_
    rw [List.filter_map, ← hf]
    simp only [Function.comp_def, hkey]
    exact .refl _
  have hsorted : Ordered (fs.entries.filter fun e => e.1 ∈ takenNames.map sym) :=
    (ordered_entriesOf _).filter _
  have hversion : ∀ e ∈ (fs.entries.filter fun e => e.1 ∈ takenNames.map sym),
      encode e.1 ≠ encode (sym "version") := by
    intro e he
    have := (List.mem_filter.1 he).2
    have key : ∀ name ∈ takenNames, encode (sym name) ≠ encode (sym "version") := by decide
    obtain ⟨name, hn, hs⟩ := List.mem_map.1 (of_decide_eq_true this)
    rw [← hs]
    exact key name hn
  have hhead : (Fields.entries (("version", .int 1) :: head.fields)).Perm
      ((("version", Term.int 1) :: head.fields).map fun f => (sym f.1, f.2)) := perm_fields head.fields_apart
  change Term.map (putEntry (sym "version") (.int 1) _) = Term.map _
  congr 1
  refine Ordered.eq_of_perm (ordered_putEntry hsorted _ _) (ordered_entriesOf _) ?_
  refine ((perm_putEntry hversion).trans (hperm.cons _)).trans ?_
  exact hhead.symm

/-! ## the receipts -/

theorem receiptKeys_apart (type : TransactionType) :
    Apart (receiptKeys ++ receiptExtra type) ∧ "__struct__" ∉ receiptKeys ++ receiptExtra type := by
  cases type <;> decide

section Receipts

variable {receipt : Receipt} {runtimeId : Identifier} {extra : Fields}

/-- A receipt of a creation transaction: the head, and the fields of its type. -/
structure ReceiptOf (T : Transaction) (receipt : Receipt) (runtimeId : Identifier) (head : Head)
    (extra : Fields) : Prop where
  type : receipt.type = T.body.type
  fields : receipt.fields = ("runtime_id", runtimeId.term) :: head.fields ++ extra
  names : extra.map Prod.fst = receiptExtra T.body.type
  runtime : T.body.fields.get "runtime_id" = some runtimeId.term

theorem ReceiptOf.keys (h : ReceiptOf T receipt runtimeId head extra) :
    (("type", sym receipt.type.name) :: receipt.fields).map Prod.fst =
      receiptKeys ++ receiptExtra T.body.type := by
  rw [h.fields, ← h.names]
  simp [receiptKeys, Head.fields]

theorem ReceiptOf.read (h : ReceiptOf T receipt runtimeId head extra) (name : String) :
    atomField receipt.toTerm name = (Fields.get (("type", sym receipt.type.name) ::
      ("runtime_id", runtimeId.term) :: head.fields ++ extra) name).getD nil := by
  have hapart := (receiptKeys_apart T.body.type).1
  rw [← h.keys] at hapart
  rw [Receipt.toTerm, atomField_atomMap hapart, h.fields]
  rfl

theorem ReceiptOf.taken (h : ReceiptOf T receipt runtimeId head extra) :
    receiptHead receipt.toTerm = head.toTerm := by
  have hapart := (receiptKeys_apart T.body.type).1
  rw [← h.keys] at hapart
  refine receiptHead_atomMap hapart head ?_
  have hextra : (extra.filter fun f => f.1 ∈ takenNames) = [] := by
    refine List.filter_eq_nil_iff.2 fun f hf => ?_
    have hname : f.1 ∈ receiptExtra T.body.type := h.names ▸ List.mem_map_of_mem hf
    have key : ∀ type, ∀ name ∈ receiptExtra type, name ∉ takenNames := by
      intro type
      cases type <;> decide
    simpa using key _ _ hname
  change ((("type", _) :: receipt.fields).filter _) = _
  rw [h.fields, ← List.cons_append, List.filter_append, hextra, List.append_nil]
  simp [Head.fields, takenNames]

/-- **A receipt over a valid head passes the port's check** when the fields of its type do. -/
theorem ReceiptOf.valid (h : ReceiptOf T receipt runtimeId head extra) (hv : head.Valid)
    (hb : validReceiptBody T.body receipt.toTerm = true) : validCreationReceipt T receipt.toTerm = true := by
  have hclosed : closedMap receipt.toTerm (receiptKeys ++ receiptExtra T.body.type) = true := by
    have hapart := receiptKeys_apart T.body.type
    rw [← h.keys] at hapart ⊢
    exact closedMap_atomMap hapart.1 hapart.2 rfl
  have htype : atomField receipt.toTerm "type" = sym T.body.type.name := by
    rw [h.read, ← h.type]
    simp
  have hruntime : atomField receipt.toTerm "runtime_id" = runtimeId.term := by
    rw [h.read]
    simp
  simp [validCreationReceipt, hclosed, htype, hruntime, h.runtime, h.taken, validCreationHead_toTerm hv, hb]

end Receipts

theorem validCreationReceipt_claim {t : ClaimCreationDomain} (hb : T.body = .claimCreationDomain t)
    (hg : head.ownerGeneration = t.expectedOwnerGeneration) (hm : head.ownerGeneration ≤ head.maximum)
    (hv : head.Valid) :
    validCreationReceipt T (Receipt.claim t.runtimeId (head.claim t.ownerSelection)).toTerm = true := by
  have hof : ReceiptOf T (.claim t.runtimeId (head.claim t.ownerSelection)) t.runtimeId
      (head.claim t.ownerSelection) [] :=
    ⟨by rw [hb]; rfl, rfl, by rw [hb]; rfl, by rw [hb]; rfl⟩
  refine hof.valid (hv.claim hm _) ?_
  have hu : creationUint64 = 18446744073709551615 := rfl
  rw [hb]
  simp only [validReceiptBody, hof.read]
  have hmax : head.activeCommandId = none → t.expectedOwnerGeneration + 1 ≤ creationUint64 - 2 := by
    intro ha
    rw [Head.maximum, if_pos ha] at hm
    omega
  have hint : head.activeCommandId = none →
      ((t.expectedOwnerGeneration : ℤ) + 1 ≤ (creationUint64 : ℤ) - 2) := by
    intro ha
    have := hmax ha
    omega
  cases ha : head.activeCommandId with
  | none => simp [Head.fields, Head.claim, Head.selectionTerm, ha, optionTerm, hg, hint ha]
  | some id => simp [Head.fields, Head.claim, Head.selectionTerm, ha, optionTerm, hg, term_ne_nil]

theorem validCreationReceipt_reserve {t : ReserveCreation} (hb : T.body = .reserveCreation t)
    (he : creationEligibility head t.claimant = none) (hi : head.activeCommandId = none)
    (hg : head.ownerGeneration ≤ creationUint64 - 2) (hv : head.Valid) :
    validCreationReceipt T (State.reserveReceipt t (head.advance (some t.commandId))).toTerm = true := by
  obtain ⟨h1, h2, h3⟩ := creationEligibility_eq_none.1 he
  have hpos : 0 < head.ownerGeneration := by
    rw [h1]
    exact t.positive
  have hof : ReceiptOf T (State.reserveReceipt t (head.advance (some t.commandId))) t.runtimeId
      (head.advance (some t.commandId)) [("reservation_tx_id", t.txId.term),
        ("reservation_domain_version", .int (head.advance (some t.commandId)).domainVersion)] :=
    ⟨by rw [hb]; rfl, rfl, by rw [hb]; rfl, by rw [hb]; rfl⟩
  refine hof.valid (hv.reserve hpos hi hg _) ?_
  rw [hb]
  simp only [validReceiptBody, hof.read]
  have h1' : head.ownerGeneration = t.ownerGeneration := h1
  have h3' : head.domainVersion = t.expectedDomainVersion := h3
  have h2' : head.ownerSelection = some t.ownerSelection := h2
  simp [Head.fields, Head.advance, Head.selectionTerm, optionTerm, h1', h2', h3']

/-- A close is confirmed against a head that is past the reservation it names. -/
theorem validCreationReceipt_close {t : CloseCreationReservation} {final : Transaction}
    (hb : T.body = .closeCreationReservation t) (hcl : Closes S t c final) (hc : S.Custody)
    {state : CapsuleState} {c' : Capsule} (hstate : c'.state = state) (hs : state ≠ .reserved)
    (ha : head.activeCommandId ≠ some t.commandId)
    (hd : c.reservationDomainVersion < head.domainVersion) (hv : head.Valid) :
    validCreationReceipt T (creationCloseReceipt t head c').toTerm = true := by
  have hodd := hc.odd _ _ c hcl.capsule
  rw [hcl.version] at hodd hd
  have hof : ReceiptOf T (creationCloseReceipt t head c') t.runtimeId head
      [("command_id", t.commandId.term), ("reservation_tx_id", t.reservationTxId.term),
        ("final_resolution", state.finalResolution), ("session_id", state.sessionTerm)] :=
    ⟨by rw [hb]; rfl, by rw [← hstate]; rfl, by rw [hb]; rfl, by rw [hb]; rfl⟩
  refine hof.valid hv ?_
  have hne : looseEq (optionTerm head.activeCommandId) t.commandId.term = false := by
    rw [Bool.eq_false_iff]
    intro hl
    have := loosen_eq_binary (looseEq_iff.1 hl)
    cases hac : head.activeCommandId with
    | none => rw [hac] at this; cases this
    | some id =>
      rw [hac] at this ha
      exact ha (by rw [Identifier.term_inj.1 this])
  have hterminal : validCreationTerminal
      (if state.finalResolution = sym "committed" then sym "created" else sym "not_committed")
      state.finalResolution state.sessionTerm = true := by
    cases state with
    | reserved => exact absurd rfl hs
    | created s =>
      have : sym "created" ≠ sym "reserved" := by decide
      simp [CapsuleState.finalResolution, CapsuleState.sessionTerm, validCreationTerminal, this]
    | notCommitted => decide
  rw [hb]
  simp only [validReceiptBody, hof.read]
  simp [Head.fields, hodd, hne, hterminal, hd]

/-! ## outcomes -/

/-- The port returns the outcome of a resolution as it is. -/
def Confirmed (T : Transaction) (resolution : Resolution) : Prop :=
  normalizeCreationOutcome (outcomeOf T.body.txId resolution).toTerm T T.body.txId =
    (outcomeOf T.body.txId resolution).toTerm

theorem confirmed_of_refusal {reason : Refusal} (h : reason.name ∈ creationRefusals) :
    Confirmed T (.notCommitted reason) := by
  simp [Confirmed, outcomeOf, Outcome.toTerm, normalizeCreationOutcome, h]

/-- The port lists the refusals of the creation transactions. -/
theorem refusal_listed {reason : Refusal} (h : reason.isCreation) : reason.name ∈ creationRefusals := by
  revert h
  cases reason <;> decide

theorem confirmed_of_receipt {receipt : Receipt} (h : validCreationReceipt T receipt.toTerm = true) :
    Confirmed T (.committed receipt) := by
  simp [Confirmed, outcomeOf, Outcome.toTerm, normalizeCreationOutcome, h]

/-- No close is refused for its counters. -/
def NotExhausted (T : Transaction) (resolution : Resolution) : Prop :=
  T.body.type = .closeCreationReservation → resolution ≠ .notCommitted .creationCounterExhausted

/-- The head of an open reservation is below the limits. -/
theorem Closes.headroom {t : CloseCreationReservation} {final : Transaction} (hc : S.Custody)
    (hcl : Closes S t c final) (hu : S.retainedResolution final.body.scope = none) :
    (S.creationHead t.runtimeId).ownerGeneration ≤ creationUint64 - 1 ∧
      (S.creationHead t.runtimeId).domainVersion ≤ creationUint64 - 1 := by
  obtain ⟨-, ha, -⟩ := (capsuleValid_eq_true.1 hcl.valid).reserved hcl.create hu
  have hne : (S.creationHead t.runtimeId).activeCommandId ≠ none := by simp [ha]
  exact ⟨(hc.heads t.runtimeId).active hne, ((hc.heads t.runtimeId).bounds.2 hne).2.2⟩

/-- **The outcome of a creation transition is confirmed.** -/
theorem Moves.confirmed (h : Moves S T S' resolution records events) (hc : S.Custody)
    (ht : T.body.type.isCreation) : Confirmed T resolution ∧ NotExhausted T resolution := by
  have hnot : ∀ receipt, NotExhausted T (.committed receipt) := fun _ _ => by simp
  cases h with
  | @refuse r reason scope isCreation exhausted =>
    refine ⟨confirmed_of_refusal (refusal_listed isCreation), fun hclose hr => ?_⟩
    obtain rfl : reason = .creationCounterExhausted := by simpa using hr
    obtain ⟨t, hb⟩ : ∃ t, T.body = .closeCreationReservation t := by
      cases hb : T.body with
      | closeCreationReservation t => exact ⟨t, rfl⟩
      | _ => rw [hb] at hclose; cases hclose
    obtain ⟨c, final, hcl, hu, hlim⟩ := exhausted rfl t hb
    have hroom := hcl.headroom hc hu
    omega
  | @claim t head body generation maximum head_eq =>
    subst head_eq
    exact ⟨confirmed_of_receipt
      (validCreationReceipt_claim body generation maximum (hc.heads t.runtimeId)), hnot _⟩
  | @reserve t head body eligible idle capsule command generation version head_eq =>
    subst head_eq
    exact ⟨confirmed_of_receipt
      (validCreationReceipt_reserve body eligible idle generation (hc.heads t.runtimeId)), hnot _⟩
  | @closed t c final entry body closes known =>
    obtain ⟨hs, ha, hd⟩ := (capsuleValid_eq_true.1 closes.valid).past closes.create known
    rw [(hc.filed _ _ c closes.capsule).2] at ha
    exact ⟨confirmed_of_receipt
      (validCreationReceipt_close body closes hc rfl hs ha hd (hc.heads t.runtimeId)), hnot _⟩
  | @cancel t c final head body closes unknown eligible generation version head_eq =>
    subst head_eq
    obtain ⟨-, ha, hd⟩ := (capsuleValid_eq_true.1 closes.valid).reserved closes.create unknown
    have hlt : c.reservationDomainVersion < ((S.creationHead t.runtimeId).advance none).domainVersion := by
      rw [← hd]
      exact Nat.lt_succ_self _
    exact ⟨confirmed_of_receipt (validCreationReceipt_close body closes hc
      (show c.terminal.state = .notCommitted from rfl) (by simp) (by simp [Head.advance]) hlt
      ((hc.heads t.runtimeId).finish (by simp [ha]))), hnot _⟩
  | unreserved body | create body | stage body | succeed body | resume body | commit body =>
    rw [body] at ht
    cases ht
  | absent scope | nonCommit scope =>
    revert scope ht
    cases T.body <;> simp [Body.scope, Body.type, TransactionType.isCreation]

/-- Every retained creation outcome is that of a creation transaction, and is confirmed. -/
def State.Confirmed (S : State) : Prop :=
  ∀ key r, S.creationResolutions.lookup key = some r → build r.binding.body = .ok r.binding ∧
    r.binding.body.type.isCreation ∧ Loopex.Store.Confirmed r.binding r.resolution ∧
    NotExhausted r.binding r.resolution

theorem Moves.stateConfirmed (h : Moves S T S' resolution records events) (hT : build T.body = .ok T)
    (hc : S.Custody) (hs : S.Confirmed) : S'.Confirmed := by
  have hput : ∀ {r : Identifier}, T.body.type.isCreation →
      S'.creationResolutions = S.creationResolutions.insert (r, T.body.type, T.body.txId) ⟨T, resolution⟩ →
      S'.Confirmed := by
    intro r ht hS key ret hl
    rw [hS] at hl
    by_cases hk : key = (r, T.body.type, T.body.txId)
    · rw [hk, AList.lookup_insert] at hl
      cases hl
      exact ⟨hT, ht, h.confirmed hc ht⟩
    · rw [AList.lookup_insert_ne hk] at hl
      exact hs key ret hl
  cases h with
  | refuse scope =>
    refine hput ?_ rfl
    revert scope
    cases T.body <;> simp [Body.scope, Body.type, TransactionType.isCreation]
  | claim body | reserve body | closed body | cancel body => exact hput (by rw [body]; rfl) rfl
  | unreserved | create | absent | nonCommit | stage | succeed | resume | commit => exact hs

theorem Reachable.confirmed (h : Reachable access S) : S.Confirmed := by
  refine (h.invariant (I := fun S => S.Custody ∧ S.Confirmed)
    ⟨State.custody_new, fun _ _ hl => by simp [State.new] at hl⟩ ?_).2
  exact fun _ _ _ _ _ _ hI hT _ hm => ⟨hm.custody hI.1, hm.stateConfirmed hT hI.1 hI.2⟩

/-! ## presenting a creation transaction -/

/-- The outcome of an answer. -/
def Prepared.outcome : Prepared → Outcome
  | .known o => o
  | .new _ _ o => o
  | .invalid o => o

/-- The linearization of a creation transaction returns a new answer. -/
theorem linearize_creation (fuel : ℕ) (raw : Term) (hc : S.Custody) (ht : T.body.type.isCreation) :
    ∃ S' frame outcome, linearize fuel S T raw = .ok (.new S' frame outcome) := by
  unfold linearize
  cases hb : T.body with
  | claimCreationDomain t =>
    simp only [linearizeClaim]
    repeat' split
    all_goals exact ⟨_, _, _, rfl⟩
  | reserveCreation t =>
    simp only [linearizeReserve]
    repeat' split
    all_goals exact ⟨_, _, _, rfl⟩
  | closeCreationReservation t =>
    have hrel : ∃ relation, closeRelation S (S.creationHead t.runtimeId)
        (S.creationCapsules.lookup (t.runtimeId, t.commandId)) t = .ok relation := by
      unfold closeRelation
      split
      · exact ⟨_, rfl⟩
      · next c hl =>
        obtain ⟨b, hv⟩ : ∃ b, capsuleValid S (S.creationHead t.runtimeId) c = .ok b :=
          capsuleValid_total hc hl
        rw [hv]
        simp only [bind, Except.bind]
        repeat' split
        all_goals exact ⟨_, rfl⟩
    obtain ⟨relation, hrel⟩ := hrel
    simp only [linearizeClose, hrel, bind, Except.bind]
    repeat' split
    all_goals exact ⟨_, _, _, rfl⟩
  | _ =>
    rw [hb] at ht
    cases ht

theorem resolveKnown_of_retained {r : Retained} (hT : validateTransaction (.map kvs) = .ok T) :
    ∃ outcome, resolveKnown (.retained r) kvs = .ok (.known outcome) ∧
      (outcome = .notCommitted .txIdConflict ∨
        (T.sameBinding r.binding = true ∧ outcome = outcomeOf T.body.txId r.resolution)) := by
  rw [resolveKnown, immutableBinding_of_validate hT]
  simp only
  split
  · next hs => exact ⟨_, rfl, .inr ⟨hs, rfl⟩⟩
  · exact ⟨_, rfl, .inl rfl⟩

theorem plainCandidate_of_creation {b : Body} (h : b.type.isCreation) : b.PlainCandidate := by
  cases b <;> trivial

/-- **A creation transaction is always answered**, and its answer is confirmed. -/
theorem prepare_creation (access : StructAccess) (fuel : ℕ) (hc : S.Custody) (hs : S.Confirmed)
    (hT : validateTransaction (.map kvs) = .ok T) (ht : T.body.type.isCreation) : ∃ p, prepare access fuel S kvs = .ok p ∧
      normalizeCreationOutcome p.outcome.toTerm T T.body.txId = p.outcome.toTerm ∧
      (T.body.type = .closeCreationReservation → p.outcome ≠ .notCommitted .creationCounterExhausted) := by
  have hout : ∀ resolution : Resolution, NotExhausted T resolution →
      T.body.type = .closeCreationReservation →
        outcomeOf T.body.txId resolution ≠ .notCommitted .creationCounterExhausted := by
    intro resolution hn hcl
    cases resolution with
    | committed => simp [outcomeOf]
    | notCommitted reason => simpa [outcomeOf] using hn hcl
  rw [prepare_of_validate hT]
  cases hk : S.retainedResolution T.body.scope with
  | none =>
    obtain ⟨S', frame, outcome, hl⟩ := linearize_creation fuel (.map kvs) hc ht
    obtain ⟨resolution, records, events, hm, -, rfl⟩ := explained_linearize hl _ _ _ rfl
    obtain ⟨h1, h2⟩ := hm.confirmed hc ht
    exact ⟨_, hl, h1, hout _ h2⟩
  | some entry =>
    have hscope : ∃ r, T.body.scope = .creation r T.body.type T.body.txId := by
      cases hb : T.body with
      | claimCreationDomain t | reserveCreation t | closeCreationReservation t => exact ⟨_, rfl⟩
      | _ => rw [hb] at ht; cases ht
    obtain ⟨r, hscope⟩ := hscope
    rw [hscope, State.retainedResolution, Option.map_eq_some_iff] at hk
    obtain ⟨ret, hl, rfl⟩ := hk
    obtain ⟨hbuild, hcr, h1, h2⟩ := hs _ ret hl
    obtain ⟨outcome, hr, rfl | ⟨hsame, rfl⟩⟩ := resolveKnown_of_retained (r := ret) hT
    · exact ⟨_, hr, confirmed_of_refusal (show Refusal.txIdConflict.name ∈ creationRefusals by decide),
        by simp [Prepared.outcome]⟩
    · have heq := Transaction.eq_of_sameBinding (validate_canonical hT) hbuild
        (plainCandidate_of_creation ht) (plainCandidate_of_creation hcr) hsame
      rw [← heq] at h1 h2
      exact ⟨_, hr, h1, hout _ h2⟩

/-- No creation of a session is refused for the counters of its reservation. -/
theorem prepare_create_not_exhausted (hc : S.Custody) (hT : validateTransaction (.map kvs) = .ok T)
    (ht : T.body.type = .createSession) (hp : prepare access fuel S kvs = .ok p) :
    p.outcome ≠ .notCommitted .creationCounterExhausted := by
  obtain ⟨t, hb⟩ : ∃ t, T.body = .createSession t := by
    cases hb : T.body with
    | createSession t => exact ⟨t, rfl⟩
    | _ => rw [hb] at ht; cases ht
  rw [prepare_of_validate hT, hb, Body.scope] at hp
  split at hp
  · next entry hk =>
    simp only [State.retainedResolution, Option.map_eq_some_iff] at hk
    obtain ⟨e, hl, rfl⟩ := hk
    have hsound := hc.sound _ e hl
    have hknown : ∀ r, r.resolution ≠ .notCommitted .creationCounterExhausted →
        resolveKnown (.retained r) kvs = .ok p → p.outcome ≠ .notCommitted .creationCounterExhausted := by
      intro r hne hr
      obtain ⟨outcome, ho, h⟩ := resolveKnown_of_retained (r := r) hT
      rw [ho] at hr
      cases hr
      rcases h with rfl | ⟨-, rfl⟩
      · simp [Prepared.outcome]
      · cases hres : r.resolution with
        | committed => simp [Prepared.outcome, outcomeOf]
        | notCommitted reason => simpa [Prepared.outcome, outcomeOf, hres] using hne
    cases e with
    | created r s => exact hknown r (by rw [show r.resolution = _ from hsound]; simp) hp
    | refused r =>
      refine hknown r ?_ hp
      rcases hsound with h | h <;> rw [h] <;> simp
    | staged =>
      simp only [RuntimeCommand.entry, resolveKnown, immutableBinding_of_validate hT, Except.ok.injEq] at hp
      subst hp
      simp [Prepared.outcome]
  · rw [linearize, hb] at hp
    simp only [linearizeCreate] at hp
    split at hp
    · cases hp
      simp [Prepared.outcome]
    · next c hl =>
      obtain ⟨valid, hv, hp⟩ := Attempt.bind_eq_ok.1 hp
      split at hp
      · cases hp
        simp [Prepared.outcome]
      · next hstate =>
        simp only [Bool.or_eq_true, Bool.not_eq_true', decide_eq_true_eq, not_or, Bool.not_eq_false,
          not_not] at hstate
        obtain ⟨rfl, hstate⟩ := hstate
        split at hp
        · cases hp
          simp [Prepared.outcome]
        · split at hp
          · next hlim =>
            -- a reserved capsule that is valid is the active one of its head
            obtain ⟨-, -, hvalid⟩ := capsuleOf_eq_true hv
            obtain ⟨final, -, hterm⟩ := (capsuleValid_eq_true.1 hvalid).terminal
            rw [TerminalValid, hstate] at hterm
            have hne : (S.creationHead t.runtimeId).activeCommandId ≠ none := by simp [hterm.1]
            have h1 := (hc.heads t.runtimeId).active hne
            have h2 := ((hc.heads t.runtimeId).bounds.2 hne).2.2
            omega
          · obtain ⟨⟨next, frame, sessionId⟩, -, hp⟩ := Attempt.bind_eq_ok.1 hp
            cases hp
            simp [Prepared.outcome]

/-- **The port returns every outcome of a creation transaction as it is**, fresh or retained; neither the
creation nor the close of a reservation is refused for its counters, and no counter passes the limit. -/
theorem creation_confirmed (hr : Reachable access S) :
    (∀ kvs T fuel, validateTransaction (.map kvs) = .ok T → T.body.type.isCreation →
      ∃ p, prepare access fuel S kvs = .ok p ∧
        normalizeCreationOutcome p.outcome.toTerm T T.body.txId = p.outcome.toTerm) ∧
      (∀ kvs T fuel p, validateTransaction (.map kvs) = .ok T →
        T.body.type = .createSession ∨ T.body.type = .closeCreationReservation →
        prepare access fuel S kvs = .ok p → p.outcome ≠ .notCommitted .creationCounterExhausted) ∧
      (∀ r, (S.creationHead r).ownerGeneration ≤ creationUint64 ∧
        (S.creationHead r).domainVersion ≤ creationUint64) ∧
      ∀ r k c, S.creationCapsules.lookup (r, k) = some c →
        c.reservationOwnerGeneration ≤ creationUint64 ∧ c.reservationDomainVersion ≤ creationUint64 := by
  have hc := hr.custody
  refine ⟨fun kvs T fuel hT ht => ?_, fun kvs T fuel p hT ht hp => ?_,
    fun r => ⟨(hc.heads r).generation, (hc.heads r).bounds.1⟩, hc.counters⟩
  · obtain ⟨p, hp, hn, -⟩ := prepare_creation access fuel hc hr.confirmed hT ht
    exact ⟨p, hp, hn⟩
  · rcases ht with ht | ht
    · exact prepare_create_not_exhausted hc hT ht hp
    · obtain ⟨p', hp', -, hx⟩ := prepare_creation access fuel hc hr.confirmed hT
        (by rw [ht]; rfl)
      rw [hp] at hp'
      cases hp'
      exact hx ht

/-- The claim of an opened session, presented again. -/
theorem creation_confirmed_claim : ∃ p,
    prepare noAccess 0 Opening.bare.opened
        (Transaction.seal (.claimCreationDomain Opening.bare.claim)).entries = .ok p ∧
      normalizeCreationOutcome p.outcome.toTerm (.seal (.claimCreationDomain Opening.bare.claim))
        Opening.bare.claim.txId = p.outcome.toTerm :=
  (creation_confirmed Opening.bare.reachable_opened).1 _ _ 0
    (validateTransaction_entries (build_seal (claimCreationDomain_fits _)) trivial) rfl

end Loopex.Store
