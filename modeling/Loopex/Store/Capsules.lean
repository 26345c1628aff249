import Loopex.Store.Custody
import Loopex.Store.Resolution

/-!
# Capsules and their state

A capsule agrees with the reservation it came from, with the head of its runtime, and with the command and
the session it ended in.  While every session is created with the very genesis that was reserved, every
transition leaves every capsule so.

* `CapsuleKept` — a capsule agrees with the rest of the state;
* `State.Kept` — every capsule does, and the active command of a head is a reserved capsule's;
* `Exact` — a create bears the genesis that was reserved;
* `Moves.kept` — **every exact transition keeps the capsules**.
-/

namespace Loopex.Store

open Loopex.Erlang Loopex.Erlang.Term Loopex.Runtime Loopex.System

variable {access : StructAccess} {fuel : ℕ} {S S' : State} {kvs : List (Term × Term)}
  {T : Transaction} {resolution : Resolution} {records : List Record} {events : List Term}
  {head : Head} {c : Capsule}

/-! ## a capsule and its state -/

/-- The capsule as it was reserved. -/
def Capsule.opened (c : Capsule) : Capsule := { c with state := .reserved }

/-- The head has spent the generations and the versions of a capsule, and any generation spent beside a
version was a claim. -/
structure Head.Spent (h : Head) (c : Capsule) : Prop where
  generation : c.reservationOwnerGeneration + 1 ≤ h.ownerGeneration
  version : c.reservationDomainVersion ≤ h.domainVersion
  advances : h.domainVersion - c.reservationDomainVersion ≤
    h.ownerGeneration - c.reservationOwnerGeneration - 1
  selection : h.domainVersion - c.reservationDomainVersion =
    h.ownerGeneration - c.reservationOwnerGeneration - 1 →
      h.ownerSelection = some c.reservationOwnerSelection

/-- What a capsule in each state agrees with. -/
def CapsuleTerminal (S : State) (c : Capsule) : Prop :=
  let h := S.creationHead c.runtimeId
  let entry := S.runtimeCommands.lookup (c.runtimeId, c.commandId)
  match c.state with
  | .reserved => h.activeCommandId = some c.commandId ∧ h.domainVersion = c.reservationDomainVersion ∧
      entry = none
  | .created s => h.activeCommandId ≠ some c.commandId ∧ c.reservationDomainVersion < h.domainVersion ∧
      ∃ final session record rest, createSession c.runtimeId c.commandId c.genesis = .ok final ∧
        entry = some (.created ⟨final, .committed (.create s)⟩ s) ∧ S.sessions.lookup s = some session ∧
        session.runtimeId = c.runtimeId ∧ session.records = record :: rest ∧ record.payload = c.genesis
  | .notCommitted => h.activeCommandId ≠ some c.commandId ∧ c.reservationDomainVersion < h.domainVersion ∧
      ∃ final, createSession c.runtimeId c.commandId c.genesis = .ok final ∧
        entry = some (.refused ⟨final, .notCommitted .creationCancelled⟩)

/-- A capsule agrees with its reservation, its head and its end. -/
structure CapsuleKept (S : State) (c : Capsule) : Prop where
  origin : ∃ t T, build (.reserveCreation t) = .ok T ∧ c.opened = reserveCapsule t ∧
    S.creationResolutions.lookup (t.runtimeId, .reserveCreation, t.txId) =
      some ⟨T, .committed c.receipt⟩
  generation : c.reservationOwnerGeneration ≤ creationUint64 - 2
  version : c.reservationDomainVersion ≤ creationUint64 - 1
  ordered : c.reservationDomainVersion ≤ c.reservationOwnerGeneration
  spent : (S.creationHead c.runtimeId).Spent c
  terminal : CapsuleTerminal S c

/-- Every capsule agrees with its state, and the active command of a head is a reserved capsule's. -/
structure State.Kept (S : State) : Prop where
  capsules : ∀ r k c, S.creationCapsules.lookup (r, k) = some c → CapsuleKept S c
  active : ∀ r k, (S.creationHead r).activeCommandId = some k →
    ∃ c, S.creationCapsules.lookup (r, k) = some c ∧ c.state = .reserved

/-! ## what a transition leaves of a capsule -/

/-- What a head may do under a capsule of a command that is not the one it serves. -/
inductive Head.Moved (k : Identifier) (h : Head) : Head → Prop
  | same : Moved k h h
  | claim (s : Selection) : Moved k h (h.claim s)
  | other (a : Option Identifier) (from_ne : h.activeCommandId ≠ some k) (to_ne : a ≠ some k) :
      Moved k h (h.advance a)

theorem Head.Spent.advance {h : Head} (hs : h.Spent c) (a : Option Identifier) : (h.advance a).Spent c := by
  obtain ⟨h1, h2, h3, h4⟩ := hs
  have hg : (h.advance a).ownerGeneration = h.ownerGeneration + 1 := rfl
  have hd : (h.advance a).domainVersion = h.domainVersion + 1 := rfl
  exact ⟨by omega, by omega, by omega, fun he => h4 (by omega)⟩

theorem Head.Spent.moved {h h' : Head} {k : Identifier} (hs : h.Spent c) (hm : Head.Moved k h h') :
    h'.Spent c := by
  cases hm with
  | same => exact hs
  | claim s =>
    obtain ⟨h1, h2, h3, -⟩ := hs
    have hg : (h.claim s).ownerGeneration = h.ownerGeneration + 1 := rfl
    have hd : (h.claim s).domainVersion = h.domainVersion := rfl
    refine ⟨by omega, h2, by omega, fun he => ?_⟩
    omega
  | other a => exact hs.advance a

/-- The sessions stay, with their records and their runtime. -/
def State.SessionsKept (S S' : State) : Prop :=
  ∀ s session, S.sessions.lookup s = some session → ∃ session' more,
    S'.sessions.lookup s = some session' ∧ session'.runtimeId = session.runtimeId ∧
      session'.records = session.records ++ more

theorem Moves.sessionsKept (h : Moves S T S' resolution records events) : S.SessionsKept S' := by
  have hput : ∀ {id : Identifier} {session session' : Session} {more : List Record},
      S'.sessions = S.sessions.insert id session' → S.sessions.lookup id = some session →
      session'.runtimeId = session.runtimeId → session'.records = session.records ++ more →
      S.SessionsKept S' := by
    intro id session session' more hS hl hr hm s t ht
    rw [hS]
    by_cases he : s = id
    · subst he
      rw [hl] at ht
      cases ht
      exact ⟨session', more, AList.lookup_insert _, hr, hm⟩
    · exact ⟨t, [], by rw [AList.lookup_insert_ne he]; exact ht, rfl, by simp⟩
  cases h with
  | refuse | claim | reserve | closed | cancel | unreserved | absent =>
    exact fun s session hl => ⟨session, [], hl, rfl, by simp⟩
  | @create t c sessionId number body capsule runtime command valid reserved genesis generation version id
      fresh =>
    intro s session hl
    simp only [State.taken, Bool.or_eq_false_iff, Option.isSome_eq_false_iff,
      Option.isNone_iff_eq_none] at fresh
    have hne : s ≠ sessionId := by
      rintro rfl
      rw [fresh.1] at hl
      cases hl
    refine ⟨session, [], ?_, rfl, by simp⟩
    change (S.sessions.insert sessionId (Session.create t.runtimeId t.genesis)).lookup s = some session
    rw [AList.lookup_insert_ne hne]
    exact hl
  | nonCommit scope session_eq | stage body session_eq =>
    exact hput rfl session_eq rfl (List.append_nil _).symm
  | succeed body session_eq | resume body session_eq | commit body session_eq =>
    exact hput rfl session_eq rfl rfl

/-- A capsule whose command and whose head's service are untouched still agrees with the state. -/
theorem CapsuleKept.frame (hk : CapsuleKept S c)
    (hres : Extends S.creationResolutions.fetch S'.creationResolutions.fetch)
    (hcmd : S'.runtimeCommands.lookup (c.runtimeId, c.commandId) =
      S.runtimeCommands.lookup (c.runtimeId, c.commandId))
    (hsess : S.SessionsKept S')
    (hhead : Head.Moved c.commandId (S.creationHead c.runtimeId) (S'.creationHead c.runtimeId)) :
    CapsuleKept S' c := by
  obtain ⟨⟨t, T, hT, ho, hl⟩, hg, hv, hord, hspent, hterm⟩ := hk
  refine ⟨⟨t, T, hT, ho, hres _ _ hl⟩, hg, hv, hord, hspent.moved hhead, ?_⟩
  have hpast : ∀ {h h' : Head}, Head.Moved c.commandId h h' → h.activeCommandId ≠ some c.commandId →
      c.reservationDomainVersion < h.domainVersion →
      h'.activeCommandId ≠ some c.commandId ∧ c.reservationDomainVersion < h'.domainVersion := by
    intro h h' hm ha hd
    cases hm with
    | same | claim => exact ⟨ha, hd⟩
    | other a _ hne => exact ⟨hne, Nat.lt_succ_of_lt hd⟩
  unfold CapsuleTerminal at hterm ⊢
  simp only [hcmd] at hterm ⊢
  cases hs : c.state with
  | reserved =>
    rw [hs] at hterm
    obtain ⟨ha, hd, hn⟩ := hterm
    generalize S'.creationHead c.runtimeId = h' at hhead ⊢
    cases hhead with
    | same | claim => exact ⟨ha, hd, hn⟩
    | other a hne => exact absurd ha hne
  | created s =>
    rw [hs] at hterm
    obtain ⟨ha, hd, final, session, record, rest, hf, he, hses, hrt, hrec, hp⟩ := hterm
    obtain ⟨ha', hd'⟩ := hpast hhead ha hd
    obtain ⟨session', more, hl', hrt', hrec'⟩ := hsess s session hses
    exact ⟨ha', hd', final, session', record, rest ++ more, hf, he, hl', hrt'.trans hrt,
      by rw [hrec', hrec]; rfl, hp⟩
  | notCommitted =>
    rw [hs] at hterm
    obtain ⟨ha, hd, final, hf, he⟩ := hterm
    obtain ⟨ha', hd'⟩ := hpast hhead ha hd
    exact ⟨ha', hd', final, hf, he⟩

/-! ## transitions keep the capsules -/

/-- A create presented for a reserved capsule bears the genesis that was reserved, not one that is merely
`==` to it. -/
def Exact (S : State) (T : Transaction) : Prop :=
  ∀ t c, T.body = .createSession t → S.creationCapsules.lookup (t.runtimeId, t.commandId) = some c →
    c.state = .reserved → looseEq c.genesis t.genesis → c.genesis = t.genesis

theorem State.kept_new : State.new.Kept where
  capsules r k c h := by simp [State.new] at h
  active r k h := by simp [State.new, State.creationHead] at h

theorem State.creationHead_of_heads (h : S'.creationHeads = S.creationHeads) (r : Identifier) :
    S'.creationHead r = S.creationHead r := by
  rw [State.creationHead, State.creationHead, h]

theorem State.creationHead_insert {r : Identifier} (h : S'.creationHeads = S.creationHeads.insert r head)
    (r' : Identifier) : S'.creationHead r' = if r' = r then head else S.creationHead r' := by
  rw [← State.creationHead_putHead, State.creationHead, State.creationHead, State.putHead, h]

/-- A transition that leaves the heads, the capsules and their commands keeps the capsules. -/
theorem State.Kept.frame (hk : S.Kept) (hc : S.Custody)
    (hres : Extends S.creationResolutions.fetch S'.creationResolutions.fetch) (hsess : S.SessionsKept S')
    (hcaps : S'.creationCapsules = S.creationCapsules) (hheads : S'.creationHeads = S.creationHeads)
    (hcmd : ∀ key c, S.creationCapsules.lookup key = some c →
      S'.runtimeCommands.lookup key = S.runtimeCommands.lookup key) : S'.Kept := by
  refine ⟨fun r k c hl => ?_, fun r k ha => ?_⟩
  · rw [hcaps] at hl
    obtain ⟨h1, h2⟩ := hc.filed r k c hl
    refine (hk.capsules r k c hl).frame hres (hcmd _ c ?_) hsess ?_
    · rwa [h1, h2]
    · rw [State.creationHead_of_heads hheads]
      exact .same
  · rw [State.creationHead_of_heads hheads] at ha
    rw [hcaps]
    exact hk.active r k ha

/-- A transition of a head that puts the capsule it serves keeps the capsules, if it leaves this one so. -/
theorem State.Kept.put (hk : S.Kept) (hc : S.Custody)
    (hres : Extends S.creationResolutions.fetch S'.creationResolutions.fetch) (hsess : S.SessionsKept S')
    (hcaps : S'.creationCapsules = S.creationCapsules.insert (c.runtimeId, c.commandId) c)
    {active : Option Identifier}
    (hheads : S'.creationHeads =
      S.creationHeads.insert c.runtimeId ((S.creationHead c.runtimeId).advance active))
    (hactive : active = if c.state = .reserved then some c.commandId else none)
    (hserved : ∀ k, (S.creationHead c.runtimeId).activeCommandId = some k → k = c.commandId)
    (hcmd : ∀ key, key ≠ (c.runtimeId, c.commandId) →
      S'.runtimeCommands.lookup key = S.runtimeCommands.lookup key) (hnew : CapsuleKept S' c) : S'.Kept := by
  have hhead := State.creationHead_insert hheads
  refine ⟨fun r k d hl => ?_, fun r k ha => ?_⟩
  · by_cases hkey : (r, k) = (c.runtimeId, c.commandId)
    · rw [hcaps, hkey, AList.lookup_insert] at hl
      exact Option.some.inj hl ▸ hnew
    · rw [hcaps, AList.lookup_insert_ne hkey] at hl
      obtain ⟨h1, h2⟩ := hc.filed r k d hl
      rw [← h1, ← h2] at hkey
      refine (hk.capsules r k d hl).frame hres (hcmd _ hkey) hsess ?_
      rw [hhead]
      split
      · next he =>
        have hne : d.commandId ≠ c.commandId := fun hd => hkey (by rw [he, hd])
        rw [he]
        refine .other active (fun ha => hne (hserved _ ha)) fun ha => hne ?_
        rw [hactive] at ha
        split at ha
        · exact (Option.some.inj ha).symm
        · cases ha
      · exact .same
  · rw [hhead] at ha
    rw [hcaps]
    split at ha
    · next he =>
      have ha' : active = some k := ha
      rw [hactive] at ha'
      split at ha'
      · next hs =>
        cases ha'
        exact ⟨c, by rw [he]; exact AList.lookup_insert _, hs⟩
      · cases ha'
    · next he =>
      rw [AList.lookup_insert_ne fun hkey => he (congrArg Prod.fst hkey)]
      exact hk.active r k ha

/-- A create within its bounds is the one built from its genesis. -/
theorem createSession_of_body {t : CreateSession} (hb : T.body = .createSession t)
    (hT : build T.body = .ok T) : createSession t.runtimeId t.commandId t.genesis = .ok T := by
  have hn := (validateItem_eq_ok.1 t.valid).1
  unfold createSession
  rw [hn]
  simp only [bind, Except.bind]
  split
  · rwa [hb] at hT
  · next e he =>
    rw [t.valid] at he
    cases he

/-- A head that serves a capsule serves no other. -/
theorem CapsuleTerminal.active (h : CapsuleTerminal S c) (hs : c.state = .reserved) :
    (S.creationHead c.runtimeId).activeCommandId = some c.commandId ∧
      (S.creationHead c.runtimeId).domainVersion = c.reservationDomainVersion := by
  rw [CapsuleTerminal, hs] at h
  exact ⟨h.1, h.2.1⟩

/-- The end of a reserved capsule: its head moves on, and its command is answered. -/
theorem CapsuleKept.finish (hk : CapsuleKept S c) (hs : c.state = .reserved)
    (hres : Extends S.creationResolutions.fetch S'.creationResolutions.fetch)
    (hhead : S'.creationHead c.runtimeId = (S.creationHead c.runtimeId).advance none) {state : CapsuleState}
    (hterm : (S'.creationHead c.runtimeId).activeCommandId ≠ some c.commandId →
      c.reservationDomainVersion < (S'.creationHead c.runtimeId).domainVersion →
      CapsuleTerminal S' { c with state := state }) : CapsuleKept S' { c with state := state } := by
  obtain ⟨-, hd⟩ := hk.terminal.active hs
  obtain ⟨⟨t, T, hT, ho, hl⟩, hg, hv, hord, hspent, -⟩ := hk
  obtain ⟨s1, s2, s3, s4⟩ := hspent.advance none
  rw [← hhead] at s1 s2 s3 s4
  refine ⟨⟨t, T, hT, ho, hres _ _ hl⟩, hg, hv, hord, ⟨s1, s2, s3, s4⟩, hterm ?_ ?_⟩
  · rw [hhead]
    simp [Head.advance]
  · rw [hhead, ← hd]
    exact Nat.lt_succ_self _

/-- **Every exact transition keeps the capsules.** -/
theorem Moves.kept (h : Moves S T S' resolution records events) (hT : build T.body = .ok T)
    (hn : S.retainedResolution T.body.scope = none) (hx : Exact S T) (hc : S.Custody) (hk : S.Kept) :
    S'.Kept := by
  have hres := h.creation_extends hn
  have hsess := h.sessionsKept
  -- a command no capsule is filed under
  have hfree : ∀ {key : Identifier × Identifier} {e : RuntimeCommand}, S.creationCapsules.lookup key = none →
      S'.runtimeCommands = S.runtimeCommands.insert key e → ∀ key' c, S.creationCapsules.lookup key' = some c →
      S'.runtimeCommands.lookup key' = S.runtimeCommands.lookup key' := by
    intro key e hnone hS key' c hl
    rw [hS, AList.lookup_insert_ne]
    rintro rfl
    rw [hnone] at hl
    cases hl
  cases h with
  | refuse | closed | absent | nonCommit | succeed | commit =>
    exact hk.frame hc hres hsess rfl rfl fun _ _ _ => rfl
  | @claim t head body generation maximum head_eq =>
    subst head_eq
    have hhead : ∀ r, (S.claimed T t.runtimeId ((S.creationHead t.runtimeId).claim
        t.ownerSelection)).creationHead r = if r = t.runtimeId then
          (S.creationHead t.runtimeId).claim t.ownerSelection else S.creationHead r :=
      State.creationHead_insert rfl
    refine ⟨fun r k c hl => ?_, fun r k ha => ?_⟩
    · refine (hk.capsules r k c hl).frame hres rfl hsess ?_
      rw [hhead]
      split
      · next he => exact he ▸ .claim _
      · exact .same
    · rw [hhead] at ha
      refine hk.active r k ?_
      split at ha
      · next he => exact he ▸ ha
      · exact ha
  | @reserve t head body eligible idle capsule command generation version head_eq =>
    subst head_eq
    obtain ⟨hg, hsel, hv⟩ := creationEligibility_eq_none.1 eligible
    have hg' : (S.creationHead t.runtimeId).ownerGeneration = t.ownerGeneration := hg
    have hv' : (S.creationHead t.runtimeId).domainVersion = t.expectedDomainVersion := hv
    have hu : creationUint64 = 18446744073709551615 := rfl
    have hpos := t.positive
    have hlt := ((hc.heads t.runtimeId).claimed (by omega)).2
    have hhead : (S.reserved T t ((S.creationHead t.runtimeId).advance (some t.commandId))).creationHead
        t.runtimeId = (S.creationHead t.runtimeId).advance (some t.commandId) :=
      (State.creationHead_insert rfl _).trans (if_pos rfl)
    refine hk.put (c := reserveCapsule t) hc hres hsess rfl rfl rfl (fun k ha => ?_) (fun _ _ => rfl) ?_
    · have ha' : (S.creationHead t.runtimeId).activeCommandId = some k := ha
      rw [idle] at ha'
      cases ha'
    · have hlookup : (S.reserved T t ((S.creationHead t.runtimeId).advance
          (some t.commandId))).creationResolutions.lookup (t.runtimeId, .reserveCreation, t.txId) =
            some ⟨T, .committed (State.reserveReceipt t
              ((S.creationHead t.runtimeId).advance (some t.commandId)))⟩ := by
        simp only [State.reserved, State.putCreationResolution, body]
        exact AList.lookup_insert _
      refine ⟨⟨t, T, body ▸ hT, rfl, ?_⟩, ?_, ?_, ?_, ?_, ?_⟩
      · rw [hlookup]
        simp [State.reserveReceipt, Capsule.receipt, reserveCapsule, Head.advance, hg', hv', hsel,
          ReserveCreation.claimant]
      · show t.ownerGeneration ≤ creationUint64 - 2
        omega
      · show t.expectedDomainVersion + 1 ≤ creationUint64 - 1
        omega
      · show t.expectedDomainVersion + 1 ≤ t.ownerGeneration
        omega
      · change Head.Spent ((S.reserved T t _).creationHead t.runtimeId) _
        rw [hhead]
        refine ⟨?_, ?_, ?_, fun _ => hsel⟩ <;> simp only [Head.advance, reserveCapsule] <;> omega
      · change (_ = _) ∧ (_ = _) ∧ _
        exact ⟨by rw [show (reserveCapsule t).runtimeId = t.runtimeId from rfl, hhead]; rfl,
          by rw [show (reserveCapsule t).runtimeId = t.runtimeId from rfl, hhead, Head.advance, hv']; rfl, command⟩
  | @cancel t c final head body closes unknown eligible generation version head_eq =>
    subst head_eq
    obtain ⟨hs, ha, -⟩ := (capsuleValid_eq_true.1 closes.valid).reserved closes.create unknown
    obtain ⟨hr, -⟩ := hc.filed _ _ c closes.capsule
    rw [← hr] at ha
    have hheads : (S.cancelled T t c final ((S.creationHead t.runtimeId).advance none)).creationHeads =
        S.creationHeads.insert c.runtimeId ((S.creationHead c.runtimeId).advance none) := by
      rw [hr]
      rfl
    refine hk.put (c := c.terminal) hc hres hsess rfl hheads rfl (fun k hk => ?_)
      (fun key hne => AList.lookup_insert_ne hne) ?_
    · exact Option.some.inj (hk.symm.trans ha)
    · refine (hk.capsules _ _ c closes.capsule).finish hs hres
        ((State.creationHead_insert hheads _).trans (if_pos rfl)) fun h1 h2 => ?_
      exact ⟨h1, h2, final, closes.create, AList.lookup_insert _⟩
  | @unreserved t body capsule => exact hk.frame hc hres hsess rfl rfl (hfree capsule rfl)
  | @create t c sessionId number body capsule runtime command valid reserved genesis =>
    obtain ⟨ha, -⟩ := (hk.capsules _ _ c capsule).terminal.active reserved
    have hg := hx t c body capsule reserved genesis
    have hfinal := createSession_of_body body hT
    rw [← runtime, ← command, ← hg] at hfinal
    have hheads : (S.created T t c sessionId number).creationHeads =
        S.creationHeads.insert c.runtimeId ((S.creationHead c.runtimeId).advance none) := by
      rw [runtime]
      rfl
    have hcommands : (S.created T t c sessionId number).runtimeCommands =
        S.runtimeCommands.insert (c.runtimeId, c.commandId)
          (.created ⟨T, .committed (.create sessionId)⟩ sessionId) := by
      rw [runtime, command]
      rfl
    refine hk.put (c := { c with state := .created sessionId }) hc hres hsess rfl hheads rfl (fun k hk => ?_)
      (fun key hne => by rw [hcommands]; exact AList.lookup_insert_ne hne) ?_
    · exact Option.some.inj (hk.symm.trans ha)
    · refine (hk.capsules _ _ c capsule).finish reserved hres
        ((State.creationHead_insert hheads _).trans (if_pos rfl)) fun h1 h2 => ?_
      exact ⟨h1, h2, T, _, _, _, hfinal, by rw [hcommands]; exact AList.lookup_insert _,
        AList.lookup_insert _, runtime.symm, rfl, hg.symm⟩
  | stage body session_eq admitted =>
    obtain ⟨-, -, hnone, -⟩ := stageRefusal_eq_none admitted
    exact hk.frame hc hres hsess rfl rfl (hfree hnone rfl)
  | resume body session_eq admitted command_eq =>
    obtain ⟨hnone, -⟩ := ownerCommandRefusal_eq_none command_eq (successionRefusal_eq_none admitted).1
    exact hk.frame hc hres hsess rfl rfl (hfree hnone rfl)

end Loopex.Store
