import Loopex.Store.Capsules

/-!
# Recovery of creation custody

Where every capsule agrees with its state, the adapter answers every recovery request and the port accepts
the answer as it is.

* `CapsuleKept.checked` — such a capsule passes the adapter's check;
* `recoverySize_capsule` — a recovery reply is within the byte limit;
* `normalizeCreationRecovery_request` — **the port accepts the answer as it is**;
* `Run.kept` — a run of exact presentations keeps the capsules.
-/

namespace Loopex.Store

open Loopex.Erlang Loopex.Erlang.Term Loopex.Runtime Loopex.System

variable {access : StructAccess} {fuel : ℕ} {S S' : State} {kvs : List (Term × Term)}
  {T : Transaction} {resolution : Resolution} {records : List Record} {events : List Term}
  {head : Head} {c : Capsule}

/-! ## the transactions of a capsule -/

/-- The fields of a mutation have short names. -/
theorem fieldNames_short (type : TransactionType) : (encode (sym type.name)).length ≤ 40 ∧
    ∀ owned, ∀ name ∈ type.fieldNames owned, (encode (sym name)).length ≤ 40 := by
  refine ⟨?_, fun owned => ?_⟩
  · cases type <;> decide +kernel
  · cases type <;> cases owned <;> decide +kernel

/-- The bytes of a mutation are as long as its values, but for a constant for each. -/
theorem Body.encode_le (b : Body) :
    (encodeFields b.fields).length ≤ 132 + (b.values.map fun v => 42 + (encode v).length).sum := by
  obtain ⟨hn, hnames⟩ := fieldNames_short b.type
  have hle : (encodeFields b.fields).length ≤ _ := encodeFields_le (by rw [b.fields_names]; exact hnames _)
  have hvalues : (b.fields.map fun f => 42 + (encode f.2).length) =
      (sym b.type.name :: b.values).map fun v => 42 + (encode v).length := by
    rw [← b.fields_values, List.map_map]
    rfl
  rw [hvalues, List.map_cons, List.sum_cons] at hle
  omega

/-- **A mutation of short values is within the byte limit.** -/
theorem Body.fits {b : Body} (h : ∀ v ∈ b.values, (encode v).length ≤ 70000) :
    (encodeFields b.fields).length ≤ maxMutationBytes := by
  have hnames : ∀ type owned, (TransactionType.fieldNames type owned).length ≤ 14 := by
    intro type owned
    cases type <;> cases owned <;> decide
  have hlen := hnames b.type b.owned
  rw [b.values_length, List.length_cons] at hlen
  have hsum : (b.values.map fun v => 42 + (encode v).length).sum ≤ b.values.length * 70042 := by
    have := List.sum_le_card_nsmul (b.values.map fun v => 42 + (encode v).length) 70042 fun n hn => by
      obtain ⟨v, hv, rfl⟩ := List.mem_map.1 hn
      have := h v hv
      omega
    simpa using this
  have hle := b.encode_le
  rw [maxMutationBytes]
  omega

theorem encode_identifier_le (id : Identifier) : (encode id.term).length ≤ 70000 :=
  (encode_identifier_length id).trans (by decide)

theorem encode_selection_le (s : Selection) : (encode s.term).length ≤ 70000 := by
  rw [encode_selection_length]
  decide

theorem encode_counter_le {n : ℕ} (h : n ≤ creationUint64) : (encode (.int n)).length ≤ 70000 :=
  (encode_counter_length h).trans (by decide)

theorem encode_item_le {t : Term} (h : externalSize t ≤ maxItemBytes) : (encode t).length ≤ 70000 := by
  rw [externalSize_eq, maxItemBytes] at h
  omega

/-- A create is within the byte limit. -/
theorem createSession_fits (t : CreateSession) :
    (encodeFields (Body.createSession t).fields).length ≤ maxMutationBytes := by
  refine Body.fits ?_
  simp only [Body.values, List.forall_mem_cons]
  exact ⟨encode_identifier_le _, encode_identifier_le _, encode_item_le (validateItem_eq_ok.1 t.valid).2, by simp⟩

/-- A reservation is within the byte limit. -/
theorem reserveCreation_fits (t : ReserveCreation) :
    (encodeFields (Body.reserveCreation t).fields).length ≤ maxMutationBytes := by
  refine Body.fits ?_
  simp only [Body.values, List.forall_mem_cons]
  exact ⟨encode_identifier_le _, encode_identifier_le _, encode_counter_le t.generationCounter,
    encode_selection_le _, encode_counter_le t.versionCounter,
    encode_item_le (normalizeCreationGenesis_spec t.normal).2, encode_identifier_le _, by simp⟩

/-- A claim is within the byte limit. -/
theorem claimCreationDomain_fits (t : ClaimCreationDomain) :
    (encodeFields (Body.claimCreationDomain t).fields).length ≤ maxMutationBytes := by
  refine Body.fits ?_
  simp only [Body.values, List.forall_mem_cons]
  exact ⟨encode_identifier_le _, encode_counter_le t.counter, encode_selection_le _, encode_identifier_le _,
    by simp⟩

/-- A normal genesis is within the limits of its create. -/
theorem createSession_total {genesis : Term} (hg : normalizeCreationGenesis genesis = .ok genesis)
    (runtimeId commandId : Identifier) : ∃ final, createSession runtimeId commandId genesis = .ok final := by
  have hv := normalizeCreationGenesis_validateItem hg
  obtain ⟨hn, hsize⟩ := normalizeCreationGenesis_spec hg
  have hfits := createSession_fits ⟨runtimeId, commandId, genesis, hv⟩
  unfold createSession
  rw [hn]
  simp only [bind, Except.bind]
  split
  · exact ⟨_, build_eq_ok.2 ⟨rfl, hfits⟩⟩
  · next e he =>
    rw [hv] at he
    cases he

theorem build_of_createSession {runtimeId commandId : Identifier} {genesis : Term}
    (h : createSession runtimeId commandId genesis = .ok T) : build T.body = .ok T := by
  obtain ⟨normalized, -, h⟩ := Erlang.Except.bind_eq_ok.1 h
  split at h
  · obtain ⟨rfl, -⟩ := build_eq_ok.1 h
    exact h
  · cases h

/-- A reservation is built from its own fields. -/
theorem reserveCreation_of_body (t : ReserveCreation) :
    reserveCreation t.runtimeId t.commandId t.ownerGeneration t.ownerSelection t.expectedDomainVersion
      t.genesis = build (.reserveCreation t) := by
  unfold reserveCreation
  rw [dif_pos ⟨t.positive, t.generationCounter, t.versionCounter⟩]
  simp only [t.normal, dif_pos]

/-! ## the adapter's check -/

theorem CapsuleTerminal.valid {final : Transaction} (h : CapsuleTerminal S c)
    (hspent : (S.creationHead c.runtimeId).Spent c)
    (hf : createSession c.runtimeId c.commandId c.genesis = .ok final) :
    TerminalValid S (S.creationHead c.runtimeId) c final := by
  obtain ⟨hg, hd, ha, -⟩ := hspent
  unfold CapsuleTerminal at h
  unfold TerminalValid
  cases hs : c.state with
  | reserved =>
    rw [hs] at h
    obtain ⟨t, hb, hr, hc, -⟩ := createSession_eq_ok hf
    refine ⟨h.1, h.2.1, ?_⟩
    rw [hb, Body.scope, hr, hc, State.retainedResolution, h.2.2]
    rfl
  | created s =>
    rw [hs] at h
    obtain ⟨h1, h2, final', session, record, rest, hf', he, hses, hrt, hrec, hp⟩ := h
    rw [hf] at hf'
    cases hf'
    exact ⟨h1, by omega, h2, final, session, he, final.sameBinding_self, hses, hrt, record, rest, hrec,
      by rw [hp]; exact looseEq_self _⟩
  | notCommitted =>
    rw [hs] at h
    obtain ⟨h1, h2, final', hf', he⟩ := h
    rw [hf] at hf'
    cases hf'
    exact ⟨h1, by omega, h2, _, final, he, rfl, final.sameBinding_self⟩

/-- **A capsule that agrees with its state passes the adapter's check.** -/
theorem CapsuleKept.checked (hk : CapsuleKept S c) :
    capsuleValid S (S.creationHead c.runtimeId) c = .ok true := by
  obtain ⟨⟨t, T, hT, ho, hl⟩, hg, hv, -, hspent, hterm⟩ := hk
  obtain ⟨state, rfl⟩ : ∃ state, c = { reserveCapsule t with state := state } :=
    ⟨c.state, by rw [← ho]; rfl⟩
  obtain ⟨final, hf⟩ := createSession_total t.normal t.runtimeId t.commandId
  have hres := reserveCreation_of_body t
  rw [hT] at hres
  obtain ⟨body, canonical, digest⟩ := T
  obtain rfl : body = .reserveCreation t := congrArg Transaction.body (build_eq_ok.1 hT).1
  refine capsuleValid_eq_true.2 ⟨⟨t.positive, hg⟩, ⟨Nat.succ_pos _, hv⟩,
    ⟨t, canonical, digest, _, hres, looseEq_self _, rfl, hl, Transaction.sameBinding_self _, rfl⟩,
    ⟨hspent.generation, hspent.version⟩, ?_, final, hf, hterm.valid hspent hf⟩
  by_cases he : (S.creationHead t.runtimeId).ownerGeneration = t.ownerGeneration + 1
  · refine .inr (hspent.selection ?_)
    have h3 := hspent.advances
    have h2 := hspent.version
    simp only [reserveCapsule] at h2 h3 ⊢
    omega
  · exact .inl he

/-! ## the size of a reply -/

def replyKeys : List String := ["version", "runtime_id", "head", "command"]

def requestKeys : List String := ["runtime_id", "command_id"]

/-- The names of a head, of a capsule, of a reply and of a request are short and none is another. -/
theorem keys_apart : Apart capsuleKeys ∧ Apart replyKeys ∧ Apart requestKeys ∧
    ∀ name ∈ headKeys ++ capsuleKeys ++ replyKeys, (encode (sym name)).length ≤ 40 := by
  decide +kernel

theorem Capsule.fields_apart (c : Capsule) : Apart (c.fields.map Prod.fst) := keys_apart.1

theorem replyKeys_apart : Apart replyKeys := keys_apart.2.1

theorem requestKeys_apart : Apart ["runtime_id", "command_id"] := keys_apart.2.2.1

theorem keys_short : ∀ name ∈ headKeys ++ capsuleKeys ++ replyKeys, (encode (sym name)).length ≤ 40 :=
  keys_apart.2.2.2

theorem encode_nil_length : (encode nil).length = 5 := rfl

theorem encode_optionTerm_length (id : Option Identifier) : (encode (optionTerm id)).length ≤ 261 := by
  cases id with
  | none =>
    rw [optionTerm, encode_nil_length]
    decide
  | some id => exact encode_identifier_length id

theorem Head.encode_length {h : Head} (hv : h.Valid) : (encode h.toTerm).length ≤ 600 := by
  have h1 := encode_counter_length hv.generation
  have h2 := encode_counter_length hv.bounds.1
  have h3 := encode_optionTerm_length h.activeCommandId
  have h4 : (encode h.selectionTerm).length ≤ 69 := by
    unfold Head.selectionTerm
    cases h.ownerSelection with
    | none => simp [encode_nil_length]
    | some s => exact (encode_selection_length s).le
  have h5 : (encode (.int 1)).length = 2 := rfl
  have hle := encode_atomMap_le h.fields_apart fun name hn =>
    keys_short name (by simp only [List.mem_append]; exact .inl (.inl hn))
  simp only [Head.toTerm, Head.fields, List.map_cons, List.map_nil, List.sum_cons, List.sum_nil, h5] at hle ⊢
  omega

theorem CapsuleState.encode_length (s : CapsuleState) : (encode s.stateTerm).length ≤ 15 ∧
    (encode s.finalResolution).length ≤ 40 ∧ (encode s.sessionTerm).length ≤ 261 := by
  cases s with
  | created id =>
    have h : (encode (sym "created")).length = 9 ∧ (encode (sym "committed")).length = 11 := ⟨rfl, rfl⟩
    exact ⟨h.1.trans_le (by decide), h.2.trans_le (by decide), encode_identifier_length id⟩
  | _ => exact ⟨by decide, by decide, by decide⟩

/-- A capsule whose genesis is within the record limit, in whatever state. -/
theorem Capsule.encode_length (hg : c.reservationOwnerGeneration ≤ creationUint64)
    (hv : c.reservationDomainVersion ≤ creationUint64) (hs : externalSize c.genesis ≤ maxItemBytes) :
    (encode c.toTerm).length ≤ 70000 := by
  have h1 := encode_counter_length hg
  have h2 := encode_counter_length hv
  have h3 := encode_identifier_length c.runtimeId
  have h4 := encode_identifier_length c.commandId
  have h5 := encode_identifier_length c.reservationTxId
  have h6 := encode_selection_length c.reservationOwnerSelection
  obtain ⟨h7, h8, h9⟩ := c.state.encode_length
  have h10 : (encode c.genesis).length + 1 ≤ maxItemBytes := hs
  have h11 : (encode (.int 1)).length = 2 := rfl
  have hle := encode_atomMap_le c.fields_apart fun name hn =>
    keys_short name (by simp only [List.mem_append]; exact .inl (.inr hn))
  simp only [Capsule.fields, List.map_cons, List.map_nil, List.sum_cons, List.sum_nil, h6, h11, maxItemBytes]
    at hle h10
  rw [Capsule.toTerm, Capsule.fields]
  omega

/-- **A recovery reply is within the byte limit.** -/
theorem recoverySize_reply (r : Identifier) (hv : head.Valid) {command : Option Capsule}
    (hc : ∀ c ∈ command, (encode c.toTerm).length ≤ 70000) :
    recoverySize (recoveryReply r head command) = true := by
  have h1 := encode_identifier_length r
  have h2 := Head.encode_length hv
  have h3 : (encode (.int 1)).length = 2 := rfl
  have h4 : (encode (capsuleTerm command)).length ≤ 70000 := by
    cases command with
    | none => simp [capsuleTerm, encode_nil_length]
    | some c => exact hc c rfl
  have hle : (encode (recoveryReply r head command)).length ≤ _ :=
    encode_atomMap_le replyKeys_apart fun name hn => keys_short name (by simp only [List.mem_append]; exact .inr hn)
  simp only [replyFields, List.map_cons, List.map_nil, List.sum_cons, List.sum_nil, h3] at hle
  rw [recoverySize, decide_eq_true_eq, externalSize_eq, maxMutationBytes]
  omega

/-- **Every reservation fits**: a normal genesis leaves no recovery reply of its capsule too large. -/
theorem prospectiveRecoveryFits_true (t : ReserveCreation) (hv : head.Valid) (hnext : (head.advance none).Valid)
    (hversion : t.expectedDomainVersion + 1 ≤ creationUint64) :
    prospectiveRecoveryFits t.runtimeId head (reserveCapsule t) = true := by
  have hsize := (normalizeCreationGenesis_spec t.normal).2
  have hlen : ∀ state, (encode ({ reserveCapsule t with state := state } : Capsule).toTerm).length ≤ 70000 :=
    fun state => Capsule.encode_length (c := { reserveCapsule t with state := state }) t.generationCounter
      hversion hsize
  have hfits : ∀ {h : Head} {state}, h.Valid →
      recoverySize (recoveryReply t.runtimeId h (some { reserveCapsule t with state := state })) = true :=
    fun hh => recoverySize_reply _ hh fun c hc => by cases hc; exact hlen _
  unfold prospectiveRecoveryFits
  simp only [Bool.and_eq_true]
  exact ⟨⟨hfits hv, hfits hnext⟩, hfits hnext⟩

/-! ## the port's check -/

theorem Capsule.atomField_toTerm (c : Capsule) (name : String) :
    atomField c.toTerm name = (c.fields.get name).getD nil :=
  atomField_atomMap c.fields_apart name

theorem CapsuleState.valid_terminal (s : CapsuleState) :
    validCreationTerminal s.stateTerm s.finalResolution s.sessionTerm = true := by
  cases s with
  | created id =>
    have h : sym "created" ≠ sym "reserved" := by decide
    simp [validCreationTerminal, stateTerm, finalResolution, sessionTerm, h]
  | _ => rfl

theorem CapsuleState.stateTerm_eq_reserved (s : CapsuleState) : s.stateTerm = sym "reserved" ↔ s = .reserved := by
  cases s with
  | created id => simp [stateTerm]
  | _ => decide

/-- The active command of a head, against that of a capsule. -/
theorem looseEq_optionTerm {a : Option Identifier} {b : Identifier} :
    looseEq (optionTerm a) b.term = true ↔ a = some b := by
  refine ⟨fun h => ?_, ?_⟩
  · have := loosen_eq_binary (looseEq_iff.1 h)
    cases a with
    | none => cases this
    | some id => rw [Identifier.term_inj.1 this]
  · rintro rfl
    exact looseEq_self _

/-- What a capsule that ended has that a reserved one has not. -/
theorem CapsuleTerminal.past (h : CapsuleTerminal S c) (hs : c.state ≠ .reserved) :
    (S.creationHead c.runtimeId).activeCommandId ≠ some c.commandId ∧
      c.reservationDomainVersion < (S.creationHead c.runtimeId).domainVersion := by
  unfold CapsuleTerminal at h
  cases hc : c.state with
  | reserved => exact absurd hc hs
  | created s | notCommitted =>
    rw [hc] at h
    exact ⟨h.1, h.2.1⟩

/-- **The counters of a capsule pass the port's check** against those of its head. -/
theorem capsuleCounters_toTerm (hk : CapsuleKept S c) (hodd : c.reservationDomainVersion % 2 = 1) :
    capsuleCounters (S.creationHead c.runtimeId).toTerm c.toTerm c.reservationOwnerGeneration
      c.reservationDomainVersion (S.creationHead c.runtimeId).ownerGeneration
      (S.creationHead c.runtimeId).domainVersion = true := by
  obtain ⟨⟨t, -, -, ho, -⟩, hg, hv, hord, hspent, hterm⟩ := hk
  obtain ⟨state, rfl⟩ : ∃ state, c = { reserveCapsule t with state := state } :=
    ⟨c.state, by rw [← ho]; rfl⟩
  obtain ⟨h1, h2, h3, h4⟩ := hspent
  obtain ⟨-, -, a3, -, a5⟩ := (S.creationHead t.runtimeId).atomField_toTerm
  have hpos := t.positive
  have hsel : (S.creationHead t.runtimeId).ownerGeneration - t.ownerGeneration - 1 ≠
        (S.creationHead t.runtimeId).domainVersion - (t.expectedDomainVersion + 1) ∨
      looseEq (S.creationHead t.runtimeId).selectionTerm t.ownerSelection.term = true := by
    by_cases he : (S.creationHead t.runtimeId).domainVersion - (t.expectedDomainVersion + 1) =
        (S.creationHead t.runtimeId).ownerGeneration - t.ownerGeneration - 1
    · have hs : (S.creationHead t.runtimeId).ownerSelection = some t.ownerSelection := h4 he
      exact .inr (by rw [Head.selectionTerm, hs]; exact looseEq_self _)
    · exact .inl fun h => he h.symm
  simp only [reserveCapsule] at h1 h2 h3 hg hv hord hodd hterm ⊢
  simp only [capsuleCounters, Capsule.atomField_toTerm, a3, a5, Bool.and_eq_true]
  simp only [Capsule.fields, Fields.get_cons, String.reduceEq, if_true, if_false, Option.getD_some,
    creationSelection_term, CapsuleState.valid_terminal, decide_eq_true_eq, Bool.or_eq_true, and_true,
    CapsuleState.stateTerm_eq_reserved, and_assoc]
  refine ⟨hpos, hg, Nat.succ_pos _, hv, hodd, hord, ?_, h1, h2, h3, hsel, ?_⟩
  · exact looseEq_self _
  · by_cases hs : state = .reserved
    · obtain ⟨ha, hd⟩ := hterm.active hs
      simp only [hs, if_true, Bool.and_eq_true, decide_eq_true_eq]
      exact ⟨looseEq_optionTerm.2 ha, hd⟩
    · obtain ⟨ha, hd⟩ := hterm.past hs
      have hd' : t.expectedDomainVersion + 1 < (S.creationHead t.runtimeId).domainVersion := hd
      have hgap : t.ownerGeneration + 2 ≤ (S.creationHead t.runtimeId).ownerGeneration := by
        clear hg hv hord hodd hsel hd
        omega
      simp only [hs, if_false, Bool.and_eq_true, decide_eq_true_eq, Bool.not_eq_true', Bool.eq_false_iff]
      exact ⟨⟨fun h => ha (looseEq_optionTerm.1 h), hgap⟩, hd'⟩

/-- The effective command of a recovery request. -/
def selectedCommand (S : State) (r : Identifier) (command : Option Identifier) : Option Identifier :=
  command.or (S.creationHead r).activeCommandId

/-- **The port accepts a capsule that agrees with its state as it is.** -/
theorem normalizeCreationCapsule_toTerm (hc : S.Custody) (hk : S.Kept) {r : Identifier}
    {command : Option Identifier} {capsule : Option Capsule}
    (hsel : S.selectedCapsule r (selectedCommand S r command) = capsule) :
    normalizeCreationCapsule r.term (optionTerm command) (S.creationHead r).toTerm (capsuleTerm capsule) =
      some (capsuleTerm capsule) := by
  obtain ⟨-, a2, -, a4, a5⟩ := (S.creationHead r).atomField_toTerm
  cases capsule with
  | none =>
    -- the active command has a capsule
    have hne : (S.creationHead r).activeCommandId ≠ selectedCommand S r command ∨
        selectedCommand S r command = none := by
      by_contra h
      obtain ⟨h1, h2⟩ := not_or.1 h
      obtain ⟨k, hk'⟩ := Option.ne_none_iff_exists'.1 h2
      rw [not_not, hk'] at h1
      obtain ⟨c, hl, -⟩ := hk.active r k h1
      rw [hk', State.selectedCapsule, Option.bind_some, hl] at hsel
      cases hsel
    unfold normalizeCreationCapsule
    rw [capsuleTerm, if_pos rfl, a5]
    cases command with
    | none =>
      have : (S.creationHead r).activeCommandId = none := by simpa [selectedCommand] using hne
      simp [optionTerm, this]
    | some k =>
      have hk' : (S.creationHead r).activeCommandId ≠ some k := by simpa [selectedCommand] using hne
      have hl : looseEq (optionTerm (S.creationHead r).activeCommandId) k.term = false := by
        rw [Bool.eq_false_iff]
        exact fun h => hk' (looseEq_optionTerm.1 h)
      have ht : optionTerm (some k) = k.term := rfl
      simp [ht, term_ne_nil, hl]
  | some c =>
    obtain ⟨k, hk', hl⟩ := Option.bind_eq_some_iff.1 hsel
    obtain ⟨rfl, rfl⟩ := hc.filed r k c hl
    have hkept := hk.capsules _ _ c hl
    obtain ⟨hg, hv⟩ := hc.counters _ _ c hl
    have hcounters := capsuleCounters_toTerm hkept (hc.odd _ _ c hl)
    have hne : c.toTerm ≠ nil := by simp [Capsule.toTerm, atomMap, nil, sym]
    have hclosed : closedMap c.toTerm capsuleKeys = true :=
      closedMap_atomMap c.fields_apart (by show "__struct__" ∉ capsuleKeys; decide) rfl
    have hactive : (if optionTerm command = nil then optionTerm (S.creationHead c.runtimeId).activeCommandId
        else optionTerm command) = c.commandId.term := by
      cases command <;> simp_all [selectedCommand, optionTerm, term_ne_nil]
    have hgenesis : normalizeCreationGenesis c.genesis = .ok c.genesis := by
      obtain ⟨⟨t, -, -, ho, -⟩, -⟩ := hkept
      have : c.genesis = t.genesis := congrArg Capsule.genesis ho
      rw [this, t.normal]
    have hput : Term.map (putEntry (sym "genesis") c.genesis c.fields.entries) = c.toTerm := by
      rw [Fields.entries, putEntry_of_mem (ordered_entriesOf _), Capsule.toTerm, atomMap, Fields.entries]
      refine (perm_fields c.fields_apart).mem_iff.2 (List.mem_map.2 ⟨("genesis", c.genesis), ?_, rfl⟩)
      simp [Capsule.fields]
    unfold normalizeCreationCapsule
    rw [capsuleTerm, if_neg hne, a2, a4, a5, hactive, creationCounter_int (hc.heads c.runtimeId).generation,
      creationCounter_int (hc.heads c.runtimeId).bounds.1]
    simp only [hclosed, c.atomField_toTerm, Capsule.fields, Fields.get_cons, String.reduceEq, if_true, if_false,
      Option.getD_some, looseEq_self, creationIdentifier_term, creationCounter_int hg, creationCounter_int hv,
      hcounters, hgenesis, decide_true, Bool.and_self]
    exact congrArg some hput

/-! ## recovery -/

/-- A request for the recovery of a runtime, or of one command of it. -/
def recoveryRequest (r : Identifier) (command : Option Identifier) : Term :=
  atomMap [("runtime_id", r.term), ("command_id", optionTerm command)]

theorem State.Kept.genesis_size (hk : S.Kept) {r k : Identifier}
    (hl : S.creationCapsules.lookup (r, k) = some c) : externalSize c.genesis ≤ maxItemBytes := by
  obtain ⟨⟨t, -, -, ho, -⟩, -⟩ := hk.capsules r k c hl
  have hg : c.genesis = t.genesis := congrArg Capsule.genesis ho
  rw [hg]
  exact (normalizeCreationGenesis_spec t.normal).2

theorem State.Kept.capsuleOf (hc : S.Custody) (hk : S.Kept) {r k : Identifier}
    (hl : S.creationCapsules.lookup (r, k) = some c) :
    Loopex.Store.capsuleOf S (S.creationHead r) c r k = .ok true := by
  obtain ⟨rfl, rfl⟩ := hc.filed r k c hl
  rw [Loopex.Store.capsuleOf, if_pos ⟨rfl, rfl⟩]
  exact (hk.capsules _ _ c hl).checked

theorem recoverySize_selected (hc : S.Custody) (hk : S.Kept) (r : Identifier) (selected : Option Identifier) :
    recoverySize (recoveryReply r (S.creationHead r) (S.selectedCapsule r selected)) = true := by
  refine recoverySize_reply r (hc.heads r) fun c hsel => ?_
  obtain ⟨k, -, hl⟩ := Option.bind_eq_some_iff.1 hsel
  obtain ⟨hg, hv⟩ := hc.counters r k c hl
  exact c.encode_length hg hv (hk.genesis_size hl)

/-- **The adapter's checks pass** for every runtime and every selection. -/
theorem recoveryValid_of_kept (hc : S.Custody) (hk : S.Kept) (r : Identifier) (selected : Option Identifier) :
    recoveryValid S r (S.creationHead r) selected = .ok true := by
  have hactive : activeCapsuleValid S r (S.creationHead r) = .ok true := by
    unfold activeCapsuleValid
    cases ha : (S.creationHead r).activeCommandId with
    | none => rfl
    | some k =>
      obtain ⟨c, hl, hs⟩ := hk.active r k ha
      simp [hl, hs, hk.capsuleOf hc hl]
  have hselected : selectedCapsuleValid S r (S.creationHead r) selected = .ok true := by
    unfold selectedCapsuleValid
    split
    · next k c hsel => exact hk.capsuleOf hc hsel
    · rfl
  have hsome : selected ≠ (S.creationHead r).activeCommandId ∨ selected = none ∨
      (S.selectedCapsule r selected).isSome := by
    cases selected with
    | none => exact .inr (.inl rfl)
    | some k =>
      by_cases ha : (S.creationHead r).activeCommandId = some k
      · obtain ⟨c, hl, -⟩ := hk.active r k ha
        exact .inr (.inr (by simp [State.selectedCapsule, hl]))
      · exact .inl fun h => ha h.symm
  have hlast : ((selected ≠ (S.creationHead r).activeCommandId || selected = none ||
      (S.selectedCapsule r selected).isSome) : Bool) = true := by
    simpa [or_assoc] using hsome
  unfold recoveryValid
  simp only [creationHeadValid_of_valid (hc.heads r), hactive, hselected, if_true,
    recoverySize_selected hc hk r selected, bind, Except.bind]
  rw [hlast]
  rfl

/-- **No request finds the Store unavailable.** -/
theorem creationRecovery_ne_unavailable (hc : S.Custody) (hk : S.Kept) (request : Term) :
    S.creationRecovery request ≠ .unavailable := by
  unfold State.creationRecovery
  split
  · split
    · split
      · simp only [recoveryValid_of_kept hc hk]
        (repeat' split) <;> simp
      · simp
    · simp
  · simp

/-- A request is answered once the checks on its command pass. -/
theorem creationRecovery_eq (r : Identifier) (command : Option Identifier) :
    S.creationRecovery (recoveryRequest r command) =
      match recoveryValid S r (S.creationHead r) (selectedCommand S r command) with
      | .ok true => .reply (recoveryReply r (S.creationHead r)
          (S.selectedCapsule r (selectedCommand S r command)))
      | _ => .unavailable := by
  have hapart : Apart (([("runtime_id", r.term), ("command_id", optionTerm command)] : Fields).map Prod.fst) :=
    requestKeys_apart
  have hclosed : closedMap (recoveryRequest r command) ["runtime_id", "command_id"] = true :=
    closedMap_atomMap hapart (by simp) rfl
  have hr := lookup_entriesOf_fields hapart "runtime_id"
  have hcmd := lookup_entriesOf_fields hapart "command_id"
  simp only [Fields.get_cons, String.reduceEq, if_true, if_false] at hr hcmd
  rw [recoveryRequest, atomMap] at hclosed ⊢
  unfold State.creationRecovery
  simp only [hclosed, if_true, hr, hcmd, Option.bind_some, asIdentifier_term]
  cases command with
  | none => exact if_pos rfl
  | some k =>
    refine (if_neg (term_ne_nil k)).trans ?_
    have ht : asIdentifier (optionTerm (some k)) = some k := asIdentifier_term k
    rw [ht]
    exact rfl

/-- **Every request is answered** with the head of the runtime and the capsule of the command. -/
theorem creationRecovery_request (hc : S.Custody) (hk : S.Kept) (r : Identifier) (command : Option Identifier) :
    S.creationRecovery (recoveryRequest r command) = .reply (recoveryReply r (S.creationHead r)
      (S.selectedCapsule r (selectedCommand S r command))) := by
  rw [creationRecovery_eq, recoveryValid_of_kept hc hk]

/-- **The port accepts the answer as it is.** -/
theorem normalizeCreationRecovery_request (hc : S.Custody) (hk : S.Kept) (r : Identifier)
    (command : Option Identifier) :
    normalizeCreationRecovery r.term (optionTerm command) (.reply (recoveryReply r (S.creationHead r)
        (S.selectedCapsule r (selectedCommand S r command)))) =
      some (recoveryReply r (S.creationHead r) (S.selectedCapsule r (selectedCommand S r command))) := by
  have hcapsule := normalizeCreationCapsule_toTerm hc hk (rfl : S.selectedCapsule r (selectedCommand S r command) = _)
  have hsize := recoverySize_selected hc hk r (selectedCommand S r command)
  have hhead := validCreationHead_toTerm (hc.heads r)
  generalize S.selectedCapsule r (selectedCommand S r command) = capsule at *
  have hapart : Apart ((replyFields r (S.creationHead r) capsule).map Prod.fst) := replyKeys_apart
  have hclosed : closedMap (recoveryReply r (S.creationHead r) capsule) replyKeys = true :=
    closedMap_atomMap hapart (by show "__struct__" ∉ replyKeys; decide) rfl
  have hread : ∀ name, atomField (recoveryReply r (S.creationHead r) capsule) name =
      ((replyFields r (S.creationHead r) capsule).get name).getD nil := atomField_atomMap hapart
  have hput : putEntry (sym "command") (capsuleTerm capsule)
      (replyFields r (S.creationHead r) capsule).entries = (replyFields r (S.creationHead r) capsule).entries := by
    rw [Fields.entries, putEntry_of_mem (ordered_entriesOf _)]
    refine (perm_fields hapart).mem_iff.2 (List.mem_map.2 ⟨("command", capsuleTerm capsule), ?_, rfl⟩)
    simp [replyFields]
  rw [recoveryReply, atomMap] at hclosed hread hsize ⊢
  rw [recoverySize, decide_eq_true_eq] at hsize
  change closedMap _ ["version", "runtime_id", "head", "command"] = true at hclosed
  have hfields : ∀ name v, (replyFields r (S.creationHead r) capsule).get name = some v →
      atomField (.map (replyFields r (S.creationHead r) capsule).entries) name = v := by
    intro name v hv
    rw [hread, hv]
    rfl
  unfold normalizeCreationRecovery
  simp only [hclosed, hfields "version" (.int 1) (by simp [replyFields]),
    hfields "runtime_id" r.term (by simp [replyFields]),
    hfields "head" (S.creationHead r).toTerm (by simp [replyFields]),
    hfields "command" (capsuleTerm capsule) (by simp [replyFields]), looseEq_self, hhead, hcapsule,
    decide_true, Bool.and_self, if_true, hput, if_pos hsize]

/-! ## exact presentations -/

/-- A presentation that is exact: a create presented for a reserved capsule bears its genesis. -/
def ExactPresentation (S : State) (kvs : List (Term × Term)) : Prop :=
  ∀ T, validateTransaction (.map kvs) = .ok T → Exact S T

/-- A presentation that is no create is exact. -/
theorem exactPresentation_of_body (hT : validateTransaction (.map kvs) = .ok T)
    (hb : ∀ t, T.body ≠ .createSession t) : ExactPresentation S kvs := by
  intro T' hT' t c ht
  rw [hT] at hT'
  cases hT'
  exact absurd ht (hb t)

theorem Guarded.kept (h : Guarded (Presents access) ExactPresentation S kvs S') (hI : S.Custody ∧ S.Kept) :
    S'.Custody ∧ S'.Kept := by
  obtain ⟨hp, hx⟩ := h
  obtain ⟨T, resolution, records, events, hT, hn, hm⟩ := hp.moves
  exact ⟨hm.custody hI.1, hm.kept (validate_canonical hT) hn (hx T hT) hI.1 hI.2⟩

theorem Run.kept {presented : List (List (Term × Term))}
    (h : Run (Guarded (Presents access) ExactPresentation) State.new presented S) : S.Custody ∧ S.Kept :=
  h.invariant (I := fun S => S.Custody ∧ S.Kept) ⟨State.custody_new, State.kept_new⟩
    fun _ _ _ hI hs => Guarded.kept hs hI

end Loopex.Store
