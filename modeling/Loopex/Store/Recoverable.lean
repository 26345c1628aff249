import Loopex.Store.Opening

/-!
# Custody is recoverable

* `Recoverable` — what recovery of creation custody promises of a state;
* `recoverable` — **in a run of exact presentations custody is always recoverable**;
* `loose_create_unavailable` — a create whose genesis is merely `==` to the reserved one loses the capsule.
-/

namespace Loopex.Store

open Loopex.Erlang Loopex.Erlang.Term Loopex.Runtime Loopex.System

variable {access : StructAccess} {S S' : State} {kvs : List (Term × Term)} {T : Transaction}
  {resolution : Resolution} {records : List Record} {events : List Term} {head : Head} {c : Capsule}

/-- What recovery of creation custody promises of a state. -/
structure Recoverable (S : State) : Prop where
  /-- no request finds the Store unavailable -/
  answered : ∀ request, S.creationRecovery request ≠ .unavailable
  /-- every request is answered, and the port accepts the answer as it is -/
  accepted : ∀ r command, ∃ reply, S.creationRecovery (recoveryRequest r command) = .reply reply ∧
    normalizeCreationRecovery r.term (optionTerm command) (.reply reply) = some reply
  /-- the one reserved capsule of a runtime is that of the active command -/
  reserved : ∀ r k, (S.creationHead r).activeCommandId = some k ↔
    ∃ c, S.creationCapsules.lookup (r, k) = some c ∧ c.state = .reserved
  /-- a created capsule is backed by the create of its own genesis, and by the session -/
  created : ∀ r k c s, S.creationCapsules.lookup (r, k) = some c → c.state = .created s →
    ∃ binding final session record rest,
      S.runtimeCommands.lookup (r, k) = some (.created ⟨binding, .committed (.create s)⟩ s) ∧
      createSession c.runtimeId c.commandId c.genesis = .ok final ∧
      binding.canonicalRecordBytes = final.canonicalRecordBytes ∧
      S.sessions.lookup s = some session ∧ session.records = record :: rest ∧ record.payload = c.genesis

theorem recoverable_of_kept (hc : S.Custody) (hk : S.Kept) : Recoverable S where
  answered := creationRecovery_ne_unavailable hc hk
  accepted r command :=
    ⟨_, creationRecovery_request hc hk r command, normalizeCreationRecovery_request hc hk r command⟩
  reserved r k := by
    refine ⟨hk.active r k, ?_⟩
    rintro ⟨c, hl, hs⟩
    obtain ⟨rfl, rfl⟩ := hc.filed r k c hl
    exact ((hk.capsules _ _ c hl).terminal.active hs).1
  created r k c s hl hs := by
    obtain ⟨rfl, rfl⟩ := hc.filed r k c hl
    have hterm := (hk.capsules _ _ c hl).terminal
    rw [CapsuleTerminal, hs] at hterm
    obtain ⟨-, -, final, session, record, rest, hf, he, hses, -, hrec, hp⟩ := hterm
    exact ⟨final, final, session, record, rest, he, hf, rfl, hses, hrec, hp⟩

/-- **In a run of exact presentations creation custody is always recoverable.** -/
theorem recoverable {presented : List (List (Term × Term))}
    (h : Run (Guarded (Presents access) ExactPresentation) State.new presented S) : Recoverable S :=
  recoverable_of_kept (Run.kept h).1 (Run.kept h).2

/-- A session opened with the genesis it reserved is recoverable. -/
theorem recoverable_bare : Recoverable Opening.bare.opened :=
  recoverable (Opening.bare.run_exact rfl : Run (Guarded (Presents noAccess) ExactPresentation) _ _ _)

/-! ## the create of another genesis -/

theorem recoveryValid_selected {r : Identifier} {selected : Option Identifier}
    (h : recoveryValid S r head selected = .ok true) : selectedCapsuleValid S r head selected = .ok true := by
  unfold recoveryValid at h
  simp only at h
  split at h
  · obtain ⟨active, -, h⟩ := Attempt.bind_eq_ok.1 h
    split at h
    · obtain ⟨valid, hv, h⟩ := Attempt.bind_eq_ok.1 h
      have hvalid : valid = true := by
        simp only [Except.ok.injEq, Bool.and_eq_true] at h
        exact h.1.1
      rw [hv, hvalid]
    · cases h
  · cases h

/-- **A create whose genesis is merely `==` to the reserved one loses the capsule**: its command is
unavailable from then on. -/
theorem loose_create_unavailable (h : Moves S T S' resolution records events) (hT : build T.body = .ok T)
    (hk : S.Kept) {t : CreateSession} (hb : T.body = .createSession t)
    (hl : S.creationCapsules.lookup (t.runtimeId, t.commandId) = some c) (hne : c.genesis ≠ t.genesis) :
    S'.creationRecovery (recoveryRequest t.runtimeId (some t.commandId)) = .unavailable := by
  obtain ⟨⟨r, -, -, ho, -⟩, -⟩ := hk.capsules _ _ c hl
  have hg : c.genesis = r.genesis := congrArg Capsule.genesis ho
  have hnormal : normalizeMeasuredRoot .record c.genesis = .ok c.genesis := by
    rw [hg]
    exact (normalizeCreationGenesis_spec r.normal).1
  have hselected : selectedCommand S' t.runtimeId (some t.commandId) = some t.commandId := rfl
  rw [creationRecovery_eq, hselected]
  split
  · next hvalid =>
    exfalso
    have hof := recoveryValid_selected hvalid
    cases h with
    | unreserved body capsule =>
      rw [hb] at body
      cases body
      rw [hl] at capsule
      cases capsule
    | @create t' c' sessionId number body capsule runtime command =>
      rw [hb] at body
      cases body
      rw [hl] at capsule
      cases capsule
      have hcapsule : (S.created T t c sessionId number).creationCapsules.lookup (t.runtimeId, t.commandId) =
          some { c with state := .created sessionId } := by
        rw [← runtime, ← command]
        exact AList.lookup_insert _
      have hcommand : (S.created T t c sessionId number).runtimeCommands.lookup (c.runtimeId, c.commandId) =
          some (.created ⟨T, .committed (.create sessionId)⟩ sessionId) := by
        rw [runtime, command]
        exact AList.lookup_insert _
      simp only [selectedCapsuleValid, State.selectedCapsule, Option.bind_some, hcapsule] at hof
      obtain ⟨-, -, hof⟩ := capsuleOf_eq_true hof
      obtain ⟨final, hf, hterm⟩ := (capsuleValid_eq_true.1 hof).terminal
      obtain ⟨-, -, -, binding, session, he, hsame, -⟩ := hterm
      rw [hcommand] at he
      cases he
      -- the retained binding is that of the presented genesis, not of the capsule's
      obtain ⟨t', hbf, -, -, hgf⟩ := createSession_eq_ok hf
      have hT' := Transaction.eq_of_sameBinding hT (build_of_createSession hf) (by rw [hb]; trivial)
        (by rw [hbf]; trivial) hsame
      rw [← hT', hb] at hbf
      cases hbf
      rw [hnormal] at hgf
      exact hne (Except.ok.inj hgf)
    | refuse scope | absent scope | nonCommit scope =>
      rw [hb] at scope
      cases scope
    | claim body | reserve body | closed body | cancel body | stage body | succeed body | resume body
      | commit body =>
      rw [hb] at body
      cases body
  · rfl

/-- Opened with a genesis that is not the one reserved, a session is not recoverable. -/
theorem Opening.unavailable (o : Opening) (hne : o.reserved ≠ o.genesis) :
    o.opened.creationRecovery (recoveryRequest o.runtimeId (some o.commandId)) = .unavailable := by
  have hT := validateTransaction_entries (build_seal (createSession_fits o.create)) trivial
  obtain ⟨T, resolution, records, events, hT', -, hm⟩ :=
    (o.presents_create : Presents noAccess _ _ _).moves
  rw [hT] at hT'
  cases hT'
  exact loose_create_unavailable hm (build_seal (createSession_fits o.create)) o.held_kept.2
    (t := o.create) rfl (AList.lookup_insert _) hne

/-- `1` is reserved and `1.0` created: every step is answered as new, and recovery is unavailable. -/
theorem recoverable_mixed : ∃ S, Reachable noAccess S ∧ ∃ request,
    S.creationRecovery request = .unavailable :=
  ⟨_, Opening.mixed.reachable_opened, _, Opening.mixed.unavailable (by decide +kernel)⟩

end Loopex.Store
