import Loopex.Store.Step

/-!
# The port's view of creation custody

The Store port trusts no adapter: it checks every creation head, capsule and receipt again, on the terms
it was answered.  Those checks, and what they say of the heads and the capsules of this Store.

* `validCreationHead_toTerm` — a valid head passes the port's check;
* `validCreationReceipt`, `normalizeCreationOutcome` — the answers to the three creation transactions;
* `normalizeCreationCapsule`, `normalizeCreationRecovery` — the answers to a recovery request.
-/

namespace Loopex.Store

open Loopex.Erlang Loopex.Erlang.Term Loopex.Runtime

/-! ## the checks -/

/-- `creation_counter?`, with the counter. -/
def creationCounter (t : Term) : Option ℕ :=
  match t with
  | .int n => if 0 ≤ n ∧ n.toNat ≤ creationUint64 then some n.toNat else none
  | _ => none

/-- `creation_selection?` -/
def creationSelection (t : Term) : Bool :=
  match t with
  | .binary b => b.length = 64 && b.all isHex
  | _ => false

/-- `creation_identifier?` -/
def creationIdentifier (t : Term) : Bool := (asIdentifier t).isSome

/-- `creation_nullable_id?` -/
def creationNullableId (t : Term) : Bool := t = nil || creationIdentifier t

def headKeys : List String :=
  ["version", "owner_generation", "owner_selection", "domain_version", "active_command_id"]

/-- `valid_creation_head?` -/
def validCreationHead (head : Term) : Bool :=
  closedMap head headKeys && atomField head "version" = .int 1 &&
    match creationCounter (atomField head "owner_generation"),
      creationCounter (atomField head "domain_version") with
    | some generation, some version =>
      let selection := atomField head "owner_selection"
      let active := atomField head "active_command_id"
      creationNullableId active &&
        if generation = 0 then selection = nil && version = 0 && active = nil
        else
          creationSelection selection && generation > version &&
            version % 2 = (if active = nil then 0 else 1) &&
            (active = nil || (generation ≥ 2 && generation ≤ creationUint64 - 1 && version ≥ 1 &&
              version ≤ creationUint64 - 1))
    | _, _ => false

/-- `valid_creation_terminal?` -/
def validCreationTerminal (state resolution session : Term) : Bool :=
  if state = sym "reserved" then resolution = nil && session = nil
  else if state = sym "created" then resolution = sym "committed" && creationIdentifier session
  else if state = sym "not_committed" then
    resolution = .tuple [sym "not_committed", sym "creation_cancelled"] && session = nil
  else false

def capsuleKeys : List String :=
  ["version", "runtime_id", "command_id", "reservation_tx_id", "reservation_owner_generation",
    "reservation_owner_selection", "reservation_domain_version", "genesis", "state", "final_resolution",
    "session_id"]

/-- The counters of a capsule against those of the head: every version advance spends a generation, and
only a generation spent otherwise can change the selection. -/
def capsuleCounters (head capsule : Term) (generation version headGeneration headVersion : ℕ) : Bool :=
  0 < generation && generation ≤ creationUint64 - 2 &&
    creationSelection (atomField capsule "reservation_owner_selection") &&
    0 < version && version ≤ creationUint64 - 1 && version % 2 = 1 && generation ≥ version &&
    looseEq (atomField capsule "reservation_tx_id")
      (creationId [str "loopex_creation_reserve_v1", atomField capsule "runtime_id",
        atomField capsule "command_id", .int generation]).term &&
    headGeneration ≥ generation + 1 && headVersion ≥ version &&
    headGeneration - generation - 1 ≥ headVersion - version &&
    (headGeneration - generation - 1 ≠ headVersion - version ||
      looseEq (atomField head "owner_selection") (atomField capsule "reservation_owner_selection")) &&
    validCreationTerminal (atomField capsule "state") (atomField capsule "final_resolution")
      (atomField capsule "session_id") &&
    if atomField capsule "state" = sym "reserved" then
      looseEq (atomField head "active_command_id") (atomField capsule "command_id") && headVersion = version
    else
      !looseEq (atomField head "active_command_id") (atomField capsule "command_id") &&
        headGeneration ≥ generation + 2 && headVersion > version

/-- `normalize_creation_capsule`; `runtimeId` and `commandId` are those of the request, `head` is valid. -/
def normalizeCreationCapsule (runtimeId commandId head capsule : Term) : Option Term :=
  if capsule = nil then
    if (commandId = nil && atomField head "active_command_id" = nil) ||
        (commandId ≠ nil && !looseEq (atomField head "active_command_id") commandId) then some nil
    else none
  else if closedMap capsule capsuleKeys && atomField capsule "version" = .int 1 &&
      looseEq (atomField capsule "runtime_id") runtimeId &&
      creationIdentifier (atomField capsule "command_id") &&
      looseEq (if commandId = nil then atomField head "active_command_id" else commandId)
        (atomField capsule "command_id") then
    match creationCounter (atomField capsule "reservation_owner_generation"),
      creationCounter (atomField capsule "reservation_domain_version"),
      creationCounter (atomField head "owner_generation"),
      creationCounter (atomField head "domain_version") with
    | some generation, some version, some headGeneration, some headVersion =>
      if capsuleCounters head capsule generation version headGeneration headVersion then
        match normalizeCreationGenesis (atomField capsule "genesis"), capsule with
        | .ok genesis, .map kvs => some (.map (putEntry (sym "genesis") genesis kvs))
        | _, _ => none
      else none
    | _, _, _, _ => none
  else none

/-- `normalize_creation_recovery` of an answer, for the runtime and the command of the request. -/
def normalizeCreationRecovery (runtimeId commandId : Term) (answer : Recovery) : Option Term :=
  match answer with
  | .reply (.map kvs) =>
    let reply := Term.map kvs
    if closedMap reply ["version", "runtime_id", "head", "command"] &&
        atomField reply "version" = .int 1 && looseEq (atomField reply "runtime_id") runtimeId &&
        validCreationHead (atomField reply "head") then
      match normalizeCreationCapsule runtimeId commandId (atomField reply "head")
          (atomField reply "command") with
      | some command =>
        let normalized := Term.map (putEntry (sym "command") command kvs)
        if externalSize normalized ≤ maxMutationBytes then some normalized else none
      | none => none
    else none
  | _ => none

def receiptKeys : List String :=
  ["type", "runtime_id", "owner_generation", "owner_selection", "domain_version", "active_command_id"]

/-- The fields of a receipt besides those of its head. -/
def receiptExtra : TransactionType → List String
  | .reserveCreation => ["reservation_tx_id", "reservation_domain_version"]
  | .closeCreationReservation =>
    ["command_id", "reservation_tx_id", "final_resolution", "session_id"]
  | _ => []

/-- `Map.take(receipt, head fields) |> Map.put(:version, 1)` -/
def receiptHead (receipt : Term) : Term :=
  match receipt with
  | .map kvs => .map (putEntry (sym "version") (.int 1)
      (kvs.filter fun e => e.1 ∈ ["owner_generation", "owner_selection", "domain_version",
        "active_command_id"].map sym))
  | t => t

/-- What `valid_creation_receipt?` asks of each type. -/
def validReceiptBody (b : Body) (receipt : Term) : Bool :=
  let field := atomField receipt
  match b with
  | .claimCreationDomain t =>
    looseEq (field "owner_generation") (.int (t.expectedOwnerGeneration + 1)) &&
      looseEq (field "owner_selection") t.ownerSelection.term &&
      (field "active_command_id" ≠ nil ||
        match field "owner_generation" with
        | .int n => n ≤ creationUint64 - 2
        | _ => false)
  | .reserveCreation t =>
    looseEq (field "owner_generation") (.int (t.ownerGeneration + 1)) &&
      looseEq (field "owner_selection") t.ownerSelection.term &&
      looseEq (field "domain_version") (.int (t.expectedDomainVersion + 1)) &&
      looseEq (field "active_command_id") t.commandId.term &&
      looseEq (field "reservation_tx_id") t.txId.term &&
      looseEq (field "reservation_domain_version") (field "domain_version")
  | .closeCreationReservation t =>
    t.reservationDomainVersion % 2 = 1 && looseEq (field "command_id") t.commandId.term &&
      looseEq (field "reservation_tx_id") t.reservationTxId.term &&
      !looseEq (field "active_command_id") t.commandId.term &&
      (match field "domain_version" with
        | .int n => (t.reservationDomainVersion : ℤ) < n
        | _ => false) &&
      validCreationTerminal
        (if field "final_resolution" = sym "committed" then sym "created" else sym "not_committed")
        (field "final_resolution") (field "session_id")
  | _ => false

/-- `valid_creation_receipt?` -/
def validCreationReceipt (T : Transaction) (receipt : Term) : Bool :=
  closedMap receipt (receiptKeys ++ receiptExtra T.body.type) &&
    looseEq (atomField receipt "type") (sym T.body.type.name) &&
    looseEq (atomField receipt "runtime_id") ((T.body.fields.get "runtime_id").getD nil) &&
    validCreationHead (receiptHead receipt) && validReceiptBody T.body receipt

/-- `@creation_refusals` -/
def creationRefusals : List String :=
  ["invalid_transaction", "tx_id_conflict", "stale_creation_generation", "creation_domain_conflict",
    "creation_in_progress", "runtime_command_conflict", "creation_counter_exhausted",
    "creation_recovery_too_large", "creation_reservation_conflict"]

/-- `{:commit_unknown, tx_id}` -/
def commitUnknown (txId : Identifier) : Term := .tuple [sym "commit_unknown", txId.term]

/-- `normalize_creation_outcome` -/
def normalizeCreationOutcome (reply : Term) (T : Transaction) (txId : Identifier) : Term :=
  match reply with
  | .tuple [tag, id, receipt] =>
    if tag = sym "committed" ∧ id = txId.term ∧ validCreationReceipt T receipt then reply
    else commitUnknown txId
  | .tuple [tag, reason] =>
    if tag = sym "not_committed" ∧ reason ∈ creationRefusals.map sym then reply else commitUnknown txId
  | _ => commitUnknown txId

/-- An outcome, as a term. -/
def Outcome.toTerm : Outcome → Term
  | .committed txId receipt => .tuple [sym "committed", txId.term, receipt.toTerm]
  | .notCommitted reason => .tuple [sym "not_committed", sym reason.name]

/-! ## heads -/

/-- What holds of every head: a generation is spent by every claim and with every version, and an odd
version is a reservation's. -/
structure Head.Valid (h : Head) : Prop where
  generation : h.ownerGeneration ≤ creationUint64
  empty : h.ownerGeneration = 0 → h.ownerSelection = none ∧ h.domainVersion = 0 ∧ h.activeCommandId = none
  claimed : 0 < h.ownerGeneration → h.ownerSelection.isSome ∧ h.domainVersion < h.ownerGeneration
  parity : h.domainVersion % 2 = if h.activeCommandId = none then 0 else 1
  active : h.activeCommandId ≠ none → h.ownerGeneration ≤ creationUint64 - 1

theorem term_ne_nil (id : Identifier) : id.term ≠ nil := by simp [Identifier.term, nil, sym]

@[simp] theorem optionTerm_eq_nil {id : Option Identifier} : optionTerm id = nil ↔ id = none := by
  cases id <;> simp [optionTerm, term_ne_nil]

theorem creationCounter_int {n : ℕ} (h : n ≤ creationUint64) : creationCounter (.int n) = some n := by
  simp [creationCounter, h]

@[simp] theorem creationSelection_term (s : Selection) : creationSelection s.term = true := by
  simp only [creationSelection, Selection.term, s.length, s.isHex]
  rfl

@[simp] theorem creationIdentifier_term (id : Identifier) : creationIdentifier id.term = true := by
  simp [creationIdentifier]

@[simp] theorem creationNullableId_optionTerm (id : Option Identifier) :
    creationNullableId (optionTerm id) = true := by
  cases id <;> simp [optionTerm, creationNullableId]

theorem Head.fields_apart (h : Head) : Apart ((("version", .int 1) :: h.fields).map Prod.fst) :=
  show Apart headKeys by decide +kernel

/-- The fields of a head, read back. -/
theorem Head.atomField_toTerm (h : Head) :
    atomField h.toTerm "version" = .int 1 ∧ atomField h.toTerm "owner_generation" = .int h.ownerGeneration ∧
      atomField h.toTerm "owner_selection" = h.selectionTerm ∧
      atomField h.toTerm "domain_version" = .int h.domainVersion ∧
      atomField h.toTerm "active_command_id" = optionTerm h.activeCommandId := by
  simp only [Head.toTerm, atomField_atomMap h.fields_apart]
  simp [Head.fields]

/-- The counters of a valid head stay below the limits. -/
theorem Head.Valid.bounds {h : Head} (hv : h.Valid) : h.domainVersion ≤ creationUint64 ∧
    (h.activeCommandId ≠ none → 2 ≤ h.ownerGeneration ∧ 1 ≤ h.domainVersion ∧
      h.domainVersion ≤ creationUint64 - 1) := by
  have hg := hv.generation
  rcases Nat.eq_zero_or_pos h.ownerGeneration with h0 | h0
  · obtain ⟨-, hd, ha⟩ := hv.empty h0
    exact ⟨by omega, fun hne => absurd ha hne⟩
  · obtain ⟨-, hlt⟩ := hv.claimed h0
    refine ⟨by omega, fun hne => ?_⟩
    have hp := hv.parity
    rw [if_neg hne] at hp
    omega

/-- **A valid head passes the port's check.** -/
theorem validCreationHead_toTerm {h : Head} (hv : h.Valid) : validCreationHead h.toTerm = true := by
  obtain ⟨h1, h2, h3, h4, h5⟩ := h.atomField_toTerm
  obtain ⟨hd, ha⟩ := hv.bounds
  have hclosed : closedMap h.toTerm headKeys = true :=
    closedMap_atomMap h.fields_apart (by show "__struct__" ∉ headKeys; decide) rfl
  simp only [validCreationHead, hclosed, h1, h2, h3, h4, h5, creationCounter_int hv.generation,
    creationCounter_int hd, creationNullableId_optionTerm, optionTerm_eq_nil, decide_true, Bool.true_and]
  by_cases h0 : h.ownerGeneration = 0
  · obtain ⟨hs, hdv, hac⟩ := hv.empty h0
    simp [h0, hs, hdv, hac, Head.selectionTerm]
  · obtain ⟨hs, hlt⟩ := hv.claimed (Nat.pos_of_ne_zero h0)
    obtain ⟨sel, hsel⟩ := Option.isSome_iff_exists.1 hs
    have hst : h.selectionTerm = sel.term := by simp [Head.selectionTerm, hsel]
    rw [if_neg h0, hst, creationSelection_term]
    simp only [Bool.and_eq_true, Bool.or_eq_true, decide_eq_true_eq, true_and, gt_iff_lt]
    refine ⟨⟨hlt, hv.parity⟩, ?_⟩
    by_cases hac : h.activeCommandId = none
    · exact .inl hac
    · obtain ⟨b1, b2, b3⟩ := ha hac
      exact .inr ⟨⟨⟨b1, hv.active hac⟩, b2⟩, b3⟩

/-- A valid head passes the adapter's own check. -/
theorem creationHeadValid_of_valid {h : Head} (hv : h.Valid) : creationHeadValid h = true := by
  obtain ⟨hd, ha⟩ := hv.bounds
  unfold creationHeadValid
  by_cases h0 : h.ownerGeneration = 0
  · obtain ⟨hs, hdv, hac⟩ := hv.empty h0
    simp [h0, hs, hdv, hac]
  · obtain ⟨hs, hlt⟩ := hv.claimed (Nat.pos_of_ne_zero h0)
    simp only [h0, if_false, Bool.and_eq_true, Bool.or_eq_true, decide_eq_true_eq, hs, true_and, gt_iff_lt]
    refine ⟨⟨hv.generation, hd⟩, hlt, ?_⟩
    by_cases hac : h.activeCommandId = none
    · exact .inl hac
    · obtain ⟨b1, b2, b3⟩ := ha hac
      exact .inr ⟨⟨⟨b1, hv.active hac⟩, b2⟩, b3⟩

/-! ## the head moves -/

namespace Head.Valid

variable {h : Head}

theorem empty_head : (⟨0, none, 0, none⟩ : Head).Valid := by
  constructor <;> simp

/-- A claim within the maximum. -/
theorem claim (hv : h.Valid) (hm : h.ownerGeneration ≤ h.maximum) (s : Selection) :
    (h.claim s).Valid := by
  have hu : creationUint64 = 18446744073709551615 := rfl
  unfold Head.maximum at hm
  have hpos : 0 < h.ownerGeneration ∨ h.ownerGeneration = 0 := by omega
  refine ⟨?_, fun h0 => ?_, fun _ => ⟨rfl, ?_⟩, hv.parity, fun ha => ?_⟩
  · show h.ownerGeneration + 1 ≤ creationUint64
    split at hm <;> omega
  · simp [Head.claim] at h0
  · show h.domainVersion < h.ownerGeneration + 1
    rcases hpos with hp | h0
    · have := (hv.claimed hp).2
      omega
    · have := (hv.empty h0).2.1
      omega
  · have ha' : h.activeCommandId ≠ none := ha
    show h.ownerGeneration + 1 ≤ creationUint64 - 1
    rw [if_neg ha'] at hm
    omega

/-- A reservation spends a generation and takes the next odd version. -/
theorem reserve (hv : h.Valid) (hpos : 0 < h.ownerGeneration) (hi : h.activeCommandId = none)
    (hg : h.ownerGeneration ≤ creationUint64 - 2) (c : Identifier) : (h.advance (some c)).Valid := by
  have hu : creationUint64 = 18446744073709551615 := rfl
  obtain ⟨hs, hlt⟩ := hv.claimed hpos
  have hp := hv.parity
  rw [if_pos hi] at hp
  refine ⟨?_, fun h0 => ?_, fun _ => ⟨hs, ?_⟩, ?_, fun _ => ?_⟩
  · show h.ownerGeneration + 1 ≤ creationUint64
    omega
  · simp [Head.advance] at h0
  · show h.domainVersion + 1 < h.ownerGeneration + 1
    omega
  · show (h.domainVersion + 1) % 2 = if some c = none then 0 else 1
    rw [if_neg (by simp)]
    omega
  · show h.ownerGeneration + 1 ≤ creationUint64 - 1
    omega

/-- The end of a reservation spends a generation and takes the next even version. -/
theorem finish (hv : h.Valid) (ha : h.activeCommandId ≠ none) : (h.advance none).Valid := by
  have hu : creationUint64 = 18446744073709551615 := rfl
  have hp := hv.parity
  rw [if_neg ha] at hp
  have hpos := (hv.bounds.2 ha).1
  obtain ⟨hs, hlt⟩ := hv.claimed (by omega)
  refine ⟨?_, fun h0 => ?_, fun _ => ⟨hs, ?_⟩, ?_, fun hne => absurd rfl hne⟩
  · show h.ownerGeneration + 1 ≤ creationUint64
    have := hv.active ha
    omega
  · simp [Head.advance] at h0
  · show h.domainVersion + 1 < h.ownerGeneration + 1
    omega
  · show (h.domainVersion + 1) % 2 = if (none : Option Identifier) = none then 0 else 1
    rw [if_pos rfl]
    omega

end Head.Valid

end Loopex.Store
