import Loopex.Store.CreationPort

/-!
# Creation custody

What every reachable state holds of its creation heads and capsules, whatever was presented.

* `capsuleValid_eq_true` — what the adapter's check of a capsule amounts to;
* `State.Custody` — every head is valid, every capsule is filed under its command and reserved on an odd
  version, and no resume is staged under the command of a capsule;
* `capsuleValid_total` — under custody the check of a capsule does not raise;
* `Reachable.custody` — **custody holds of every reachable state**.
-/

namespace Loopex.Store

open Loopex.Erlang Loopex.Erlang.Term Loopex.Runtime Loopex.System

variable {access : StructAccess} {fuel : ℕ} {S S' : State} {kvs : List (Term × Term)}
  {T : Transaction} {resolution : Resolution} {records : List Record} {events : List Term}
  {head : Head} {c : Capsule}

/-! ## the check of a capsule -/

/-- The terminal check of a capsule, as a proposition. -/
def TerminalValid (S : State) (head : Head) (c : Capsule) (final : Transaction) : Prop :=
  match c.state with
  | .reserved => head.activeCommandId = some c.commandId ∧
      head.domainVersion = c.reservationDomainVersion ∧ S.retainedResolution final.body.scope = none
  | .created s => head.activeCommandId ≠ some c.commandId ∧
      c.reservationOwnerGeneration + 2 ≤ head.ownerGeneration ∧
      c.reservationDomainVersion < head.domainVersion ∧ ∃ binding session,
        S.runtimeCommands.lookup (c.runtimeId, c.commandId) =
          some (.created ⟨binding, .committed (.create s)⟩ s) ∧ binding.sameBinding final ∧
        S.sessions.lookup s = some session ∧ session.runtimeId = c.runtimeId ∧
        ∃ record rest, session.records = record :: rest ∧ looseEq record.payload c.genesis
  | .notCommitted => head.activeCommandId ≠ some c.commandId ∧
      c.reservationOwnerGeneration + 2 ≤ head.ownerGeneration ∧
      c.reservationDomainVersion < head.domainVersion ∧ ∃ entry binding,
        S.runtimeCommands.lookup (c.runtimeId, c.commandId) = some entry ∧
        entry.entry = .retained ⟨binding, .notCommitted .creationCancelled⟩ ∧ binding.sameBinding final

theorem capsuleTerminalValid_eq_true {final : Transaction} :
    capsuleTerminalValid S head c final = .ok true ↔ TerminalValid S head c final := by
  unfold capsuleTerminalValid TerminalValid
  cases hs : c.state with
  | reserved => simp [and_assoc]
  | created s =>
    simp only
    by_cases hh : head.activeCommandId ≠ some c.commandId ∧
        head.ownerGeneration ≥ c.reservationOwnerGeneration + 2 ∧
        head.domainVersion > c.reservationDomainVersion
    · rw [if_pos hh]
      simp only [hh.1, hh.2.1, gt_iff_lt.1 hh.2.2, ne_eq, not_false_eq_true, true_and]
      cases hl : S.runtimeCommands.lookup (c.runtimeId, c.commandId) with
      | none => simp
      | some e =>
        cases e with
        | staged => simp
        | refused r =>
          obtain ⟨binding, resolution⟩ := r
          cases hb : binding.sameBinding final <;> cases resolution <;> simp [hb]
        | created r sessionId =>
          obtain ⟨binding, resolution⟩ := r
          cases hb : binding.sameBinding final <;> cases resolution with
            | notCommitted => simp [hb]
            | committed receipt =>
              cases hse : S.sessions.lookup s with
              | none => simp [hb, hse]
              | some session =>
                cases hrec : session.records <;> simp [hb, hse, hrec, and_assoc]
    · rw [if_neg hh]
      simp only [Except.ok.injEq, Bool.false_eq_true, false_iff]
      exact fun h => hh ⟨h.1, h.2.1, h.2.2.1⟩
  | notCommitted =>
    simp only
    by_cases hh : head.activeCommandId ≠ some c.commandId ∧
        head.ownerGeneration ≥ c.reservationOwnerGeneration + 2 ∧
        head.domainVersion > c.reservationDomainVersion
    · rw [if_pos hh]
      simp only [hh.1, hh.2.1, gt_iff_lt.1 hh.2.2, ne_eq, not_false_eq_true, true_and]
      cases hl : S.runtimeCommands.lookup (c.runtimeId, c.commandId) with
      | none => simp
      | some e =>
        cases e with
        | staged => simp [RuntimeCommand.entry]
        | refused r | created r sessionId =>
          obtain ⟨binding, resolution⟩ := r
          cases hb : binding.sameBinding final <;> cases resolution <;> simp [hb, RuntimeCommand.entry]
    · rw [if_neg hh]
      simp only [Except.ok.injEq, Bool.false_eq_true, false_iff]
      exact fun h => hh ⟨h.1, h.2.1, h.2.2.1⟩

/-- The receipt of the reservation a capsule names. -/
def Capsule.receipt (c : Capsule) : Receipt :=
  .reserve c.runtimeId ⟨c.reservationOwnerGeneration + 1, some c.reservationOwnerSelection,
    c.reservationDomainVersion, some c.commandId⟩ c.reservationTxId c.reservationDomainVersion

/-- The check of a capsule, as a proposition. -/
structure CapsuleChecked (S : State) (head : Head) (c : Capsule) : Prop where
  generation : 0 < c.reservationOwnerGeneration ∧ c.reservationOwnerGeneration ≤ creationUint64 - 2
  version : 0 < c.reservationDomainVersion ∧ c.reservationDomainVersion ≤ creationUint64 - 1
  reservation : ∃ r canonical digest retained, reserveCreation c.runtimeId c.commandId
      c.reservationOwnerGeneration c.reservationOwnerSelection (c.reservationDomainVersion - 1) c.genesis =
        .ok ⟨.reserveCreation r, canonical, digest⟩ ∧ looseEq r.genesis c.genesis ∧
      r.txId = c.reservationTxId ∧
      S.creationResolutions.lookup (c.runtimeId, .reserveCreation, c.reservationTxId) = some retained ∧
      retained.binding.sameBinding ⟨.reserveCreation r, canonical, digest⟩ ∧
      retained.resolution = .committed c.receipt
  spent : c.reservationOwnerGeneration + 1 ≤ head.ownerGeneration ∧
    c.reservationDomainVersion ≤ head.domainVersion
  selection : head.ownerGeneration ≠ c.reservationOwnerGeneration + 1 ∨
    head.ownerSelection = some c.reservationOwnerSelection
  terminal : ∃ final, createSession c.runtimeId c.commandId c.genesis = .ok final ∧
    TerminalValid S head c final

/-- A reservation is built for the runtime and the command it is asked for. -/
theorem reserveCreation_eq_ok {runtimeId commandId : Identifier} {generation version : ℕ} {s : Selection}
    {genesis : Term} (h : reserveCreation runtimeId commandId generation s version genesis = .ok T) :
    ∃ r, T.body = .reserveCreation r ∧ r.runtimeId = runtimeId ∧ r.commandId = commandId ∧
      r.ownerGeneration = generation ∧ r.ownerSelection = s ∧ r.expectedDomainVersion = version ∧
      normalizeCreationGenesis genesis = .ok r.genesis := by
  unfold reserveCreation at h
  split at h
  · split at h
    · next n hn =>
      split at h
      · obtain ⟨rfl, -⟩ := build_eq_ok.1 h
        exact ⟨_, rfl, rfl, rfl, rfl, rfl, rfl, hn⟩
      · cases h
    · cases h
  · cases h

/-- **What the check of a capsule amounts to.** -/
theorem capsuleValid_eq_true : capsuleValid S head c = .ok true ↔ CapsuleChecked S head c := by
  unfold capsuleValid
  constructor
  · intro h
    split at h
    · next hb =>
      split at h
      · next r canonical digest hr =>
        obtain ⟨r', hbody, hrt, -⟩ := reserveCreation_eq_ok hr
        cases hbody
        split at h
        · next retained hl =>
          split at h
          · next hall =>
            obtain ⟨h1, h2, h3, h4, h5, h6, h7⟩ := hall
            split at h
            · next final hf =>
              refine ⟨⟨hb.1, hb.2.1⟩, hb.2.2, ⟨r, canonical, digest, retained, hr, h1, h2, ?_, h3, ?_⟩, ⟨h5, h6⟩,
                h7, final, hf, capsuleTerminalValid_eq_true.1 h⟩
              · rwa [hrt, h2] at hl
              · rw [h4, hrt, h2]
                rfl
            · cases h
          · cases h
        · cases h
      · cases h
    · cases h
  · rintro ⟨hg, hv, ⟨r, canonical, digest, retained, hr, h1, h2, hl, h3, h4⟩, hs, hsel, final, hf, ht⟩
    obtain ⟨r', hbody, hrt, -⟩ := reserveCreation_eq_ok hr
    cases hbody
    rw [if_pos ⟨hg.1, hg.2, hv⟩, hr]
    simp only
    rw [hrt, h2, hl]
    simp only
    rw [if_pos ⟨h1, trivial, h3, h4, hs.1, hs.2, hsel⟩, hf]
    exact capsuleTerminalValid_eq_true.2 ht

/-- A capsule whose final transaction is unknown is still reserved. -/
theorem CapsuleChecked.reserved {final : Transaction} (h : CapsuleChecked S head c)
    (hf : createSession c.runtimeId c.commandId c.genesis = .ok final)
    (hu : S.retainedResolution final.body.scope = none) :
    c.state = .reserved ∧ head.activeCommandId = some c.commandId ∧
      head.domainVersion = c.reservationDomainVersion := by
  obtain ⟨final', hf', ht⟩ := h.terminal
  rw [hf] at hf'
  cases hf'
  obtain ⟨t, hb, hr, hc, -⟩ := createSession_eq_ok hf
  rw [hb, Body.scope, hr, hc] at hu
  have hnone : S.runtimeCommands.lookup (c.runtimeId, c.commandId) = none := by
    simpa [State.retainedResolution] using hu
  unfold TerminalValid at ht
  cases hs : c.state with
  | reserved =>
    rw [hs] at ht
    exact ⟨rfl, ht.1, ht.2.1⟩
  | created s =>
    rw [hs] at ht
    obtain ⟨-, -, -, binding, session, hl, -⟩ := ht
    rw [hnone] at hl
    cases hl
  | notCommitted =>
    rw [hs] at ht
    obtain ⟨-, -, -, entry, binding, hl, -⟩ := ht
    rw [hnone] at hl
    cases hl

/-- A capsule whose final transaction is known is past its reservation. -/
theorem CapsuleChecked.past {final : Transaction} {entry : Entry} (h : CapsuleChecked S head c)
    (hf : createSession c.runtimeId c.commandId c.genesis = .ok final)
    (hk : S.retainedResolution final.body.scope = some entry) :
    c.state ≠ .reserved ∧ head.activeCommandId ≠ some c.commandId ∧
      c.reservationDomainVersion < head.domainVersion := by
  obtain ⟨final', hf', ht⟩ := h.terminal
  rw [hf] at hf'
  cases hf'
  unfold TerminalValid at ht
  cases hs : c.state with
  | reserved =>
    rw [hs] at ht
    rw [hk] at ht
    cases ht.2.2
  | created s | notCommitted =>
    rw [hs] at ht
    exact ⟨by simp, ht.1, ht.2.2.1⟩

/-! ## custody -/

/-- The resolution that an entry of the runtime commands retains. -/
def RuntimeCommand.Sound : RuntimeCommand → Prop
  | created r s => r.resolution = .committed (.create s)
  | refused r => r.resolution = .notCommitted .creationReservationRequired ∨
      r.resolution = .notCommitted .creationCancelled
  | staged .. => True

def RuntimeCommand.isStaged : RuntimeCommand → Bool
  | staged .. => true
  | _ => false

/-- What every reachable state holds of its heads, its capsules and its runtime commands. -/
structure State.Custody (S : State) : Prop where
  heads : ∀ r, (S.creationHead r).Valid
  filed : ∀ r k c, S.creationCapsules.lookup (r, k) = some c → c.runtimeId = r ∧ c.commandId = k
  odd : ∀ r k c, S.creationCapsules.lookup (r, k) = some c → c.reservationDomainVersion % 2 = 1
  counters : ∀ r k c, S.creationCapsules.lookup (r, k) = some c →
    c.reservationOwnerGeneration ≤ creationUint64 ∧ c.reservationDomainVersion ≤ creationUint64
  sound : ∀ key e, S.runtimeCommands.lookup key = some e → e.Sound
  unstaged : ∀ key c e, S.creationCapsules.lookup key = some c → S.runtimeCommands.lookup key = some e →
    e.isStaged = false

theorem State.creationHead_putHead (S : State) (r r' : Identifier) (h : Head) :
    (S.putHead r h).creationHead r' = if r' = r then h else S.creationHead r' := by
  unfold State.creationHead State.putHead
  by_cases hr : r' = r
  · subst hr
    simp [AList.lookup_insert]
  · simp [hr, AList.lookup_insert_ne hr]

/-- The heads after a head is put. -/
theorem heads_put {r : Identifier} {h : Head} (hS : S'.creationHeads = S.creationHeads.insert r h)
    (hv : ∀ r, (S.creationHead r).Valid) (hh : h.Valid) : ∀ r, (S'.creationHead r).Valid := by
  intro r'
  have he : S'.creationHead r' = (S.putHead r h).creationHead r' := by
    simp only [State.creationHead, State.putHead, hS]
  rw [he, State.creationHead_putHead]
  split
  · exact hh
  · exact hv r'

/-- A property of the capsules after a capsule is put under its own key. -/
theorem capsules_put {P : Identifier → Identifier → Capsule → Prop}
    (hS : S'.creationCapsules = S.creationCapsules.insert (c.runtimeId, c.commandId) c)
    (hp : ∀ r k c, S.creationCapsules.lookup (r, k) = some c → P r k c) (hc : P c.runtimeId c.commandId c) :
    ∀ r k c, S'.creationCapsules.lookup (r, k) = some c → P r k c := by
  intro r k d hl
  rw [hS] at hl
  by_cases hk : (r, k) = (c.runtimeId, c.commandId)
  · rw [hk, AList.lookup_insert] at hl
    cases hl
    cases hk
    exact hc
  · rw [AList.lookup_insert_ne hk] at hl
    exact hp r k d hl

/-- A property of the runtime commands after an entry is put. -/
theorem commands_put {P : Identifier × Identifier → RuntimeCommand → Prop} {key : Identifier × Identifier}
    {e : RuntimeCommand} (hS : S'.runtimeCommands = S.runtimeCommands.insert key e)
    (hp : ∀ key e, S.runtimeCommands.lookup key = some e → P key e) (he : P key e) :
    ∀ key e, S'.runtimeCommands.lookup key = some e → P key e := by
  intro key' e' hl
  rw [hS] at hl
  by_cases hk : key' = key
  · rw [hk, AList.lookup_insert] at hl
    cases hl
    rw [hk]
    exact he
  · rw [AList.lookup_insert_ne hk] at hl
    exact hp key' e' hl

/-- An entry that is no attempt, or that no capsule is filed under, is no attempt under a capsule. -/
theorem unstaged_put {key : Identifier × Identifier} {e : RuntimeCommand}
    (hu : ∀ key c e, S.creationCapsules.lookup key = some c → S.runtimeCommands.lookup key = some e →
      e.isStaged = false)
    (hcaps : ∀ key' c, S'.creationCapsules.lookup key' = some c → key' ≠ key →
      ∃ c, S.creationCapsules.lookup key' = some c)
    (hS : S'.runtimeCommands = S.runtimeCommands.insert key e)
    (he : e.isStaged = false ∨ S'.creationCapsules.lookup key = none) :
    ∀ key c e, S'.creationCapsules.lookup key = some c → S'.runtimeCommands.lookup key = some e →
      e.isStaged = false := by
  intro key' c' e' hc hl
  rw [hS] at hl
  by_cases hk : key' = key
  · subst hk
    rw [AList.lookup_insert] at hl
    cases hl
    rcases he with he | he
    · exact he
    · rw [he] at hc
      cases hc
  · rw [AList.lookup_insert_ne hk] at hl
    obtain ⟨c, hc⟩ := hcaps key' c' hc hk
    exact hu key' c e' hc hl

theorem State.custody_new : State.new.Custody where
  heads r := by simpa [State.new, State.creationHead] using Head.Valid.empty_head
  filed r k c h := by simp [State.new] at h
  odd r k c h := by simp [State.new] at h
  counters r k c h := by simp [State.new] at h
  sound key e h := by simp [State.new] at h
  unstaged key c e h := by simp [State.new] at h

/-- A capsule written over its own key files no new key. -/
theorem capsules_rewrite {key : Identifier × Identifier}
    (hS : S'.creationCapsules = S.creationCapsules.insert key c) (key' : Identifier × Identifier)
    (c' : Capsule) (hl : S'.creationCapsules.lookup key' = some c') (hne : key' ≠ key) :
    ∃ c, S.creationCapsules.lookup key' = some c := by
  rw [hS, AList.lookup_insert_ne hne] at hl
  exact ⟨c', hl⟩

/-- **Every transition keeps custody.** -/
theorem Moves.custody (h : Moves S T S' resolution records events) (hc : S.Custody) : S'.Custody := by
  cases h with
  | refuse | closed | absent | nonCommit | succeed | commit =>
    exact ⟨hc.heads, hc.filed, hc.odd, hc.counters, hc.sound, hc.unstaged⟩
  | @claim t head body generation maximum head_eq =>
    subst head_eq
    exact ⟨heads_put rfl hc.heads ((hc.heads t.runtimeId).claim maximum _), hc.filed, hc.odd, hc.counters,
      hc.sound, hc.unstaged⟩
  | @reserve t head body eligible idle capsule command generation version head_eq =>
    subst head_eq
    obtain ⟨hg, -, hv⟩ := creationEligibility_eq_none.1 eligible
    have hpos : 0 < (S.creationHead t.runtimeId).ownerGeneration := by
      rw [hg]
      exact t.positive
    have hodd : (reserveCapsule t).reservationDomainVersion % 2 = 1 := by
      have hp := (hc.heads t.runtimeId).parity
      rw [if_pos idle, hv] at hp
      have hp' : t.expectedDomainVersion % 2 = 0 := hp
      show (t.expectedDomainVersion + 1) % 2 = 1
      omega
    have hversion : t.expectedDomainVersion + 1 ≤ creationUint64 := by
      have hu : creationUint64 = 18446744073709551615 := rfl
      have hv' : (S.creationHead t.runtimeId).domainVersion = t.expectedDomainVersion := hv
      omega
    refine ⟨heads_put rfl hc.heads ((hc.heads t.runtimeId).reserve hpos idle generation _),
      capsules_put (c := reserveCapsule t) rfl hc.filed ⟨rfl, rfl⟩,
      capsules_put (c := reserveCapsule t) rfl hc.odd hodd,
      capsules_put (c := reserveCapsule t) rfl hc.counters ⟨t.generationCounter, hversion⟩, hc.sound,
      fun key c e hl he => ?_⟩
    by_cases hk : key = (t.runtimeId, t.commandId)
    · have he' : S.runtimeCommands.lookup key = some e := he
      rw [hk, command] at he'
      cases he'
    · obtain ⟨c', hc'⟩ := capsules_rewrite (c := reserveCapsule t) rfl key c hl hk
      exact hc.unstaged key c' e hc' he
  | @cancel t c final head body closes unknown eligible generation version head_eq =>
    subst head_eq
    obtain ⟨-, ha, -⟩ := (capsuleValid_eq_true.1 closes.valid).reserved closes.create unknown
    exact ⟨heads_put rfl hc.heads ((hc.heads t.runtimeId).finish (by simp [ha])),
      capsules_put (c := c.terminal) rfl hc.filed ⟨rfl, rfl⟩,
      capsules_put (c := c.terminal) rfl hc.odd (hc.odd _ _ c closes.capsule),
      capsules_put (c := c.terminal) rfl hc.counters (hc.counters _ _ c closes.capsule),
      commands_put rfl hc.sound (.inr rfl),
      unstaged_put hc.unstaged (capsules_rewrite (c := c.terminal) rfl) rfl (.inl rfl)⟩
  | unreserved body capsule =>
    exact ⟨hc.heads, hc.filed, hc.odd, hc.counters, commands_put rfl hc.sound (.inl rfl),
      unstaged_put hc.unstaged (fun _ c hl _ => ⟨c, hl⟩) rfl (.inl rfl)⟩
  | @create t c sessionId number body capsule runtime command valid reserved =>
    obtain ⟨final, -, ht⟩ := (capsuleValid_eq_true.1 valid).terminal
    rw [TerminalValid, reserved] at ht
    have ha : (S.creationHead t.runtimeId).activeCommandId ≠ none := by simp [ht.1]
    have hkey : ∀ key' c', (S.created T t c sessionId number).creationCapsules.lookup key' = some c' →
        key' ≠ (t.runtimeId, t.commandId) → ∃ c, S.creationCapsules.lookup key' = some c := by
      rw [← runtime, ← command]
      exact capsules_rewrite (c := { c with state := .created sessionId }) rfl
    exact ⟨heads_put rfl hc.heads ((hc.heads t.runtimeId).finish ha),
      capsules_put (c := { c with state := .created sessionId }) rfl hc.filed ⟨rfl, rfl⟩,
      capsules_put (c := { c with state := .created sessionId }) rfl hc.odd (hc.odd _ _ c capsule),
      capsules_put (c := { c with state := .created sessionId }) rfl hc.counters
        (hc.counters _ _ c capsule),
      commands_put rfl hc.sound rfl, unstaged_put hc.unstaged hkey rfl (.inl rfl)⟩
  | stage body session_eq admitted =>
    obtain ⟨-, -, hnone, -⟩ := stageRefusal_eq_none admitted
    exact ⟨hc.heads, hc.filed, hc.odd, hc.counters, commands_put rfl hc.sound trivial,
      unstaged_put hc.unstaged (fun _ c hl _ => ⟨c, hl⟩) rfl (.inr hnone)⟩
  | resume body session_eq admitted command_eq =>
    obtain ⟨hnone, -⟩ := ownerCommandRefusal_eq_none command_eq (successionRefusal_eq_none admitted).1
    exact ⟨hc.heads, hc.filed, hc.odd, hc.counters, commands_put rfl hc.sound trivial,
      unstaged_put hc.unstaged (fun _ c hl _ => ⟨c, hl⟩) rfl (.inr hnone)⟩

/-- **Custody holds of every reachable state.** -/
theorem Reachable.custody (h : Reachable access S) : S.Custody :=
  h.invariant State.custody_new fun _ _ _ _ _ _ hc _ _ hm => hm.custody hc

/-! ## the check of a capsule returns -/

/-- The terminal check raises only on an entry custody excludes. -/
theorem capsuleTerminalValid_total (hc : S.Custody) {r k : Identifier}
    (hl : S.creationCapsules.lookup (r, k) = some c) (final : Transaction) :
    ∃ b, capsuleTerminalValid S head c final = .ok b := by
  obtain ⟨h1, h2⟩ := hc.filed r k c hl
  unfold capsuleTerminalValid
  split
  · exact ⟨_, rfl⟩
  · split
    · rw [h1, h2]
      cases he : S.runtimeCommands.lookup (r, k) with
      | none => exact ⟨_, rfl⟩
      | some e =>
        have hs := hc.sound _ e he
        have hu := hc.unstaged _ c e hl he
        cases e with
        | staged => cases hu
        | created ret sessionId =>
          simp only
          repeat' split
          all_goals exact ⟨_, rfl⟩
        | refused ret =>
          obtain ⟨binding, resolution⟩ := ret
          have hres : ∃ reason, resolution = .notCommitted reason := by
            rcases hs with hs | hs <;> exact ⟨_, hs⟩
          obtain ⟨reason, rfl⟩ := hres
          simp only
          cases c.state <;> split <;> exact ⟨_, rfl⟩
    · exact ⟨_, rfl⟩

/-- **Under custody the check of a capsule does not raise.** -/
theorem capsuleValid_total (hc : S.Custody) {r k : Identifier}
    (hl : S.creationCapsules.lookup (r, k) = some c) : ∃ b, capsuleValid S head c = .ok b := by
  unfold capsuleValid
  split
  · split
    · split
      · split
        · split
          · exact capsuleTerminalValid_total hc hl _
          · exact ⟨_, rfl⟩
        · exact ⟨_, rfl⟩
      · exact ⟨_, rfl⟩
    · exact ⟨_, rfl⟩
  · exact ⟨_, rfl⟩

end Loopex.Store
