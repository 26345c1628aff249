import Loopex.Store.Opening

/-!
# Resume commands

A resume command is staged with a candidate succession, and completed when its own candidate commits.  Staging does not
ask whose succession the candidate is.

* `Bears`, `State.Retains` — the candidate is a succession of the command, and is retained as committed
* `Moves.staged_back` — where the entry of a command comes from
* `State.Completed`, `State.Served`, `State.OneOpen` — what every reachable state holds of its entries
* `resume_linear` — **resume commands are linear**
-/

namespace Loopex.Store

open Loopex.Erlang Loopex.Erlang.Term Loopex.Runtime Loopex.System

variable {access : StructAccess} {S S' : State} {T : Transaction} {resolution : Resolution} {records : List Record}
  {events : List Term} {kvs : List (Term × Term)} {presented : List (List (Term × Term))}

/-! ## candidates -/

/-- The candidate is a succession. -/
def Succession (candidate : Term) (T : Transaction) (t : AdvanceOwner) : Prop :=
  ∃ kvs, candidate = .map kvs ∧ immutableBinding kvs = .ok T ∧ T.body = .advanceOwner t

/-- The candidate is a succession of the command. -/
def Bears (command : OwnerCommand) (candidate : Term) : Prop :=
  ∃ T t c, Succession candidate T t ∧ t.command = some c ∧ c.binding t.sessionId t.mutationDomain = command

namespace State

/-- The candidate is a succession that the session of the command retains as committed. -/
def Retains (S : State) (command : OwnerCommand) (candidate : Term) : Prop :=
  ∃ T t receipt, Succession candidate T t ∧
    S.resolved (.session command.sessionId command.mutationDomain t.txId) = some ⟨T, .committed receipt⟩

/-- The transaction id of the candidate is resolved in the session of the command. -/
def Settles (S : State) (command : OwnerCommand) (candidate : Term) : Prop :=
  ∃ kvs id, candidate = .map kvs ∧ lookup (sym "tx_id") kvs = some id.term ∧
    (S.resolved (.session command.sessionId command.mutationDomain id)).isSome

/-! ## what every state holds -/

/-- An entry stands under the key of its command. -/
def Keyed (S : State) : Prop :=
  ∀ k command status generation candidate result,
    S.runtimeCommands.lookup k = some (.staged command status generation candidate result) →
      k = (command.runtimeId, command.commandId)

/-- A completed entry was completed by its own candidate. -/
def Completed (S : State) : Prop :=
  ∀ k command generation candidate result,
    S.runtimeCommands.lookup k = some (.staged command .completed generation candidate result) →
      Bears command candidate ∧ S.Retains command candidate

/-- A committed succession of a command completed the entry that staged it. -/
def Served (S : State) : Prop :=
  ∀ s d x T t c receipt, S.resolved (.session s d x) = some ⟨T, .committed receipt⟩ → T.body = .advanceOwner t →
    t.command = some c → ∃ generation kvs result, immutableBinding kvs = .ok T ∧
      S.runtimeCommands.lookup (c.runtimeId, c.commandId) =
        some (.staged (c.binding t.sessionId t.mutationDomain) .completed generation (.map kvs) result)

/-- Of two open commands of one session and domain, one has a resolved candidate. -/
def OneOpen (S : State) : Prop :=
  ∀ k k' command command' generation generation' candidate candidate' result result',
    S.runtimeCommands.lookup k = some (.staged command .open generation candidate result) →
    S.runtimeCommands.lookup k' = some (.staged command' .open generation' candidate' result') →
    command.sessionId = command'.sessionId → command.mutationDomain = command'.mutationDomain →
      k = k' ∨ S.Settles command candidate ∨ S.Settles command' candidate'

end State

/-! ## one step -/

/-- An entry of a command is the one before, or it was just staged, or its candidate has just committed. -/
inductive Staged (S : State) (T : Transaction) (resolution : Resolution) (k : Identifier × Identifier)
    (command : OwnerCommand) (status : CommandStatus) (candidate : Term) : Prop
  | kept {generation : ℕ} {result : Option Identifier}
      (entry : S.runtimeCommands.lookup k = some (.staged command status generation candidate result))
  | staged {t : StageOwnerAttempt} {session : Session} (body : T.body = .stageOwnerAttempt t)
      (session_eq : S.sessions.lookup t.sessionId = some session) (admitted : stageRefusal S session t = .ok none)
      (key : k = (t.command.runtimeId, t.command.commandId)) (command_eq : command = t.command.binding t.sessionId t.mutationDomain)
      (status_eq : status = .open)
  | completed {t : AdvanceOwner} {c : SuccessionCommand} {receipt : Receipt} {kvs : List (Term × Term)}
      (body : T.body = .advanceOwner t) (resolution_eq : resolution = .committed receipt)
      (serves : t.command = some c) (key : k = (c.runtimeId, c.commandId))
      (command_eq : command = c.binding t.sessionId t.mutationDomain) (status_eq : status = .completed)
      (candidate_eq : candidate = .map kvs) (binding : immutableBinding kvs = .ok T)

theorem Moves.staged_back {k : Identifier × Identifier} {command : OwnerCommand} {status : CommandStatus}
    {generation : ℕ} {candidate : Term} {result : Option Identifier} (h : Moves S T S' resolution records events)
    (hl : S'.runtimeCommands.lookup k = some (.staged command status generation candidate result)) :
    Staged S T resolution k command status candidate := by
  have hother : ∀ {k' : Identifier × Identifier} {v : RuntimeCommand} {R : State},
      (∀ command status generation candidate result, v ≠ .staged command status generation candidate result) →
      R.runtimeCommands = S.runtimeCommands.insert k' v →
      R.runtimeCommands.lookup k = some (.staged command status generation candidate result) →
      Staged S T resolution k command status candidate := by
    intro k' v R hv hR hl
    rw [hR] at hl
    by_cases hk : k = k'
    · rw [hk, AList.lookup_insert] at hl
      exact absurd (Option.some.inj hl) (hv _ _ _ _ _)
    · rw [AList.lookup_insert_ne hk] at hl
      exact .kept hl
  cases h with
  | refuse | claim | reserve | closed | absent | nonCommit | succeed | commit => exact .kept hl
  | cancel body closes => exact hother (fun _ _ _ _ _ => by simp) rfl hl
  | unreserved body => exact hother (fun _ _ _ _ _ => by simp) rfl hl
  | create body => exact hother (fun _ _ _ _ _ => by simp) rfl hl
  | @stage t session body session_eq admitted =>
    by_cases hk : k = (t.command.runtimeId, t.command.commandId)
    · subst hk
      have hentry := (AList.lookup_insert S.runtimeCommands).symm.trans hl
      cases hentry
      exact .staged body session_eq admitted rfl rfl rfl
    · exact .kept ((AList.lookup_insert_ne hk).symm.trans hl)
  | @resume t session c command' status' generation' candidate' result' body session_eq admitted command_eq entry =>
    obtain ⟨-, kvs, result'', hl', -, hbinding⟩ :=
      ownerCommandRefusal_eq_none command_eq (successionRefusal_eq_none admitted).1
    by_cases hk : k = (c.runtimeId, c.commandId)
    · subst hk
      have hentry := (AList.lookup_insert S.runtimeCommands).symm.trans hl
      rw [hl'] at entry
      cases entry
      cases hentry
      exact .completed body rfl command_eq rfl rfl rfl rfl hbinding
    · exact .kept ((AList.lookup_insert_ne hk).symm.trans hl)

/-- A resolution of a session is the one before, or that of the transaction. -/
theorem Moves.resolved_back {s d x : Identifier} {r : Retained} (h : Moves S T S' resolution records events)
    (hr : S'.resolved (.session s d x) = some r) :
    S.resolved (.session s d x) = some r ∨ r = ⟨T, resolution⟩ := by
  have hs := h.scoped
  unfold State.ScopedAfter at hs
  rw [State.resolved_session] at hr ⊢
  split at hs
  · next s' d' x' hscope =>
    rw [hs s] at hr
    split at hr
    · next hid =>
      by_cases hkey : (d, x) = (d', T.body.txId)
      · rw [hkey, putResolution, AList.lookup_insert] at hr
        exact .inr (Option.some.inj hr).symm
      · rw [putResolution, AList.lookup_insert_ne hkey] at hr
        exact .inl (hid ▸ hr)
    · exact .inl hr
  · rw [hs s] at hr
    exact .inl hr

/-- A succession of a command commits by completing its entry. -/
theorem Moves.resume_of_committed {t : AdvanceOwner} {c : SuccessionCommand} {receipt : Receipt}
    (h : Moves S T S' resolution records events) (hb : T.body = .advanceOwner t) (hc : t.command = some c)
    (hr : resolution = .committed receipt) : ∃ generation kvs result, immutableBinding kvs = .ok T ∧
      S'.runtimeCommands.lookup (c.runtimeId, c.commandId) =
        some (.staged (c.binding t.sessionId t.mutationDomain) .completed generation (.map kvs) result) := by
  cases h with
  | refuse scope =>
    rw [hb] at scope
    cases scope
  | claim body | reserve body | closed body | cancel body | unreserved body | create body | stage body | commit body =>
    rw [hb] at body
    cases body
  | absent | nonCommit => cases hr
  | succeed body _ _ command =>
    rw [hb] at body
    cases body
    rw [hc] at command
    cases command
  | resume body session_eq admitted command_eq entry =>
    rw [hb] at body
    cases body
    rw [hc] at command_eq
    cases command_eq
    obtain ⟨-, kvs, result, hl, -, hbinding⟩ := ownerCommandRefusal_eq_none hc (successionRefusal_eq_none admitted).1
    rw [hl] at entry
    cases entry
    exact ⟨_, kvs, _, hbinding, AList.lookup_insert _⟩

/-- A completed entry stays as it is. -/
theorem State.CommandsKept.completed {k : Identifier × Identifier} {command : OwnerCommand} {generation : ℕ}
    {candidate : Term} {result : Option Identifier} (h : S.CommandsKept S')
    (hl : S.runtimeCommands.lookup k = some (.staged command .completed generation candidate result)) :
    S'.runtimeCommands.lookup k = some (.staged command .completed generation candidate result) := by
  obtain ⟨e', he', hkept⟩ := h k _ hl
  cases hkept
  exact he'

/-! ## the entries of every reachable state -/

theorem Moves.keyed (h : Moves S T S' resolution records events) (hk : S.Keyed) : S'.Keyed := by
  intro k command status generation candidate result hl
  cases h.staged_back hl with
  | kept entry => exact hk _ _ _ _ _ _ entry
  | staged _ _ _ key command_eq => rw [key, command_eq]; rfl
  | completed _ _ _ key command_eq => rw [key, command_eq]; rfl

theorem State.Retains.mono {command : OwnerCommand} {candidate : Term} (h : S.Retains command candidate)
    (hx : Extends S.resolved S'.resolved) : S'.Retains command candidate := by
  obtain ⟨T, t, receipt, hsuccession, hr⟩ := h
  exact ⟨T, t, receipt, hsuccession, hx _ _ hr⟩

theorem State.Settles.mono {command : OwnerCommand} {candidate : Term} (h : S.Settles command candidate)
    (hx : Extends S.resolved S'.resolved) : S'.Settles command candidate := by
  obtain ⟨kvs, id, hkvs, hid, hr⟩ := h
  obtain ⟨r, hr⟩ := Option.isSome_iff_exists.1 hr
  exact ⟨kvs, id, hkvs, hid, by rw [hx _ _ hr]; rfl⟩

theorem Moves.completed (h : Moves S T S' resolution records events)
    (hn : S.retainedResolution T.body.scope = none) (hc : S.Completed) : S'.Completed := by
  intro k command generation candidate result hl
  cases h.staged_back hl with
  | kept entry =>
    obtain ⟨hbears, hretains⟩ := hc _ _ _ _ _ entry
    exact ⟨hbears, hretains.mono (h.extends hn)⟩
  | staged _ _ _ _ _ status_eq => cases status_eq
  | @completed t c receipt kvs body resolution_eq serves key command_eq _ candidate_eq binding =>
    have hsuccession : Succession candidate T t := ⟨kvs, candidate_eq, binding, body⟩
    refine ⟨⟨T, t, c, hsuccession, serves, command_eq.symm⟩, T, t, receipt, hsuccession, ?_⟩
    have hresolved := h.resolved
    rw [body, resolution_eq] at hresolved
    rw [command_eq]
    exact hresolved

theorem Moves.served (h : Moves S T S' resolution records events)
    (hn : S.retainedResolution T.body.scope = none) (hs : S.Served) : S'.Served := by
  intro s d x U t c receipt hr hb hc
  rcases h.resolved_back hr with hold | hnew
  · obtain ⟨generation, kvs, result, hbinding, hl⟩ := hs s d x U t c receipt hold hb hc
    exact ⟨generation, kvs, result, hbinding, (h.commandsKept hn).completed hl⟩
  · cases hnew
    exact h.resume_of_committed hb hc rfl

/-- No entry before the end of a search was found. -/
theorem anyOf_eq_false {check : RuntimeCommand → Attempt Bool} {entries : List RuntimeCommand}
    (h : anyOf check entries = .ok false) : ∀ e ∈ entries, check e = .ok false := by
  induction entries with
  | nil => simp
  | cons entry entries ih =>
    obtain ⟨found, hfound, h⟩ := Attempt.bind_eq_ok.1 h
    cases found with
    | true => cases h
    | false => exact List.forall_mem_cons.2 ⟨hfound, ih h⟩

/-- A staging that is admitted leaves no other command of its session and domain unresolved. -/
theorem settles_of_admitted {t : StageOwnerAttempt} {session : Session} {k : Identifier × Identifier}
    {command : OwnerCommand} {generation : ℕ} {candidate : Term} {result : Option Identifier}
    (hsession : S.sessions.lookup t.sessionId = some session) (ha : stageRefusal S session t = .ok none) (hk : S.Keyed)
    (hl : S.runtimeCommands.lookup k = some (.staged command .open generation candidate result))
    (hne : k ≠ (t.command.runtimeId, t.command.commandId)) (hs : command.sessionId = t.sessionId)
    (hd : command.mutationDomain = t.mutationDomain) : S.Settles command candidate := by
  have hmem : RuntimeCommand.staged command .open generation candidate result ∈
      S.runtimeCommands.entries.map Sigma.snd :=
    List.mem_map.2 ⟨⟨k, _⟩, AList.mem_lookup_iff.1 hl, rfl⟩
  have hcheck := anyOf_eq_false (stageRefusal_eq_none ha).2.1 _ hmem
  have hother : ¬ (command.runtimeId = t.command.runtimeId ∧ command.commandId = t.command.commandId) := by
    rintro ⟨hruntime, hcommand⟩
    exact hne (by rw [hk _ _ _ _ _ _ hl, hruntime, hcommand])
  rw [unresolvedEntry, if_pos ⟨⟨hs, hd⟩, hother⟩] at hcheck
  obtain ⟨txId, htx, hnone⟩ := Attempt.bind_eq_ok.1 hcheck
  have hresolved := Except.ok.inj hnone
  rw [Option.isNone_eq_false_iff, Option.isSome_iff_exists] at hresolved
  obtain ⟨r, hr⟩ := hresolved
  obtain ⟨id, hid, hr⟩ := Option.bind_eq_some_iff.1 hr
  rw [asIdentifier_eq_some] at hid
  unfold candidateTxId at htx
  split at htx
  · split at htx
    · next kvs _ v hv =>
      cases htx
      refine ⟨kvs, id, rfl, hid ▸ hv, ?_⟩
      rw [State.resolved_session, hs, hd, State.scopedResolutions_of_session hsession, hr]
      rfl
    · cases htx
  · cases htx

theorem Moves.oneOpen (h : Moves S T S' resolution records events) (hn : S.retainedResolution T.body.scope = none)
    (hk : S.Keyed) (ho : S.OneOpen) : S'.OneOpen := by
  have hx := h.extends hn
  intro k k' command command' generation generation' candidate candidate' result result' hl hl' hs hd
  have hback := h.staged_back hl
  have hback' := h.staged_back hl'
  cases hback with
  | completed _ _ _ _ _ status_eq => cases status_eq
  | kept entry =>
    cases hback' with
    | completed _ _ _ _ _ status_eq => cases status_eq
    | kept entry' =>
      rcases ho _ _ _ _ _ _ _ _ _ _ entry entry' hs hd with heq | hset | hset
      · exact .inl heq
      · exact .inr (.inl (hset.mono hx))
      · exact .inr (.inr (hset.mono hx))
    | staged _ session_eq admitted key command_eq =>
      by_cases hkk : k = k'
      · exact .inl hkk
      · subst command_eq
        exact .inr (.inl ((settles_of_admitted session_eq admitted hk entry (key ▸ hkk) hs hd).mono hx))
  | staged body session_eq admitted key command_eq =>
    cases hback' with
    | completed _ _ _ _ _ status_eq => cases status_eq
    | kept entry' =>
      by_cases hkk : k = k'
      · exact .inl hkk
      · subst command_eq
        have hne : k' ≠ _ := key ▸ Ne.symm hkk
        exact .inr (.inr ((settles_of_admitted session_eq admitted hk entry' hne hs.symm hd.symm).mono hx))
    | staged body' _ _ key' =>
      rw [body] at body'
      cases body'
      exact .inl (key.trans key'.symm)

/-! ## every reachable state -/

theorem State.keyed_new : State.new.Keyed := fun _ _ _ _ _ _ hl => by cases hl

theorem State.oneOpen_new : State.new.OneOpen := fun _ _ _ _ _ _ _ _ _ _ hl => by cases hl

theorem Reachable.keyed (h : Reachable access S) : S.Keyed :=
  h.invariant State.keyed_new fun _ _ _ _ _ _ hk _ _ hm => hm.keyed hk

theorem Reachable.completed (h : Reachable access S) : S.Completed :=
  h.invariant (fun _ _ _ _ _ hl => by cases hl) fun _ _ _ _ _ _ hc _ hn hm => hm.completed hn hc

theorem Reachable.served (h : Reachable access S) : S.Served :=
  h.invariant (fun _ _ _ _ _ _ _ hr => by cases hr) fun _ _ _ _ _ _ hs _ hn hm => hm.served hn hs

theorem Reachable.oneOpen (h : Reachable access S) : S.OneOpen := by
  refine (h.invariant (I := fun S => S.Keyed ∧ S.OneOpen) ⟨State.keyed_new, State.oneOpen_new⟩ ?_).2
  intro S T S' resolution records events hI _ hn hm
  exact ⟨hm.keyed hI.1, hm.oneOpen hn hI.1 hI.2⟩

/-- An entry is completed if and only if its candidate is a succession of its command and is retained as committed. -/
theorem Reachable.completed_iff (h : Reachable access S) {k : Identifier × Identifier} {command : OwnerCommand}
    {status : CommandStatus} {generation : ℕ} {candidate : Term} {result : Option Identifier}
    (hl : S.runtimeCommands.lookup k = some (.staged command status generation candidate result)) :
    status = .completed ↔ Bears command candidate ∧ S.Retains command candidate := by
  constructor
  · rintro rfl
    exact h.completed _ _ _ _ _ hl
  · rintro ⟨⟨T, t, c, ⟨kvs, rfl, hbinding, hbody⟩, hserves, rfl⟩, T', t', receipt, ⟨kvs', hkvs, hbinding', hbody'⟩, hr⟩
    cases hkvs
    rw [hbinding] at hbinding'
    cases hbinding'
    rw [hbody] at hbody'
    cases hbody'
    obtain ⟨_, _, _, -, hentry⟩ := h.served _ _ _ _ _ _ _ hr hbody hserves
    rw [h.keyed _ _ _ _ _ _ hl] at hl
    have heq := hl.symm.trans hentry
    cases heq
    rfl

/-- A presentation commits a succession of a command. -/
def Fulfils (access : StructAccess) (runtimeId commandId : Identifier) (S : State) (kvs : List (Term × Term))
    (S' : State) : Prop :=
  ∃ fuel frame txId receipt T t c, prepare access fuel S kvs = .ok (.new S' frame (.committed txId receipt)) ∧
    validateTransaction (.map kvs) = .ok T ∧ T.body = .advanceOwner t ∧ t.command = some c ∧
    c.runtimeId = runtimeId ∧ c.commandId = commandId

theorem Fulfils.entry {runtimeId commandId : Identifier} (h : Fulfils access runtimeId commandId S kvs S') :
    ∃ command generation candidate result, S'.runtimeCommands.lookup (runtimeId, commandId) =
      some (.staged command .completed generation candidate result) := by
  obtain ⟨fuel, frame, txId, receipt, T, t, c, hprepare, hT, hbody, hserves, rfl, rfl⟩ := h
  obtain ⟨T', resolution, records, events, hT', -, hm, -, houtcome⟩ := prepare_new hprepare
  rw [hT] at hT'
  cases hT'
  cases resolution with
  | committed receipt' =>
    obtain ⟨generation, kvs', result, -, hl⟩ := hm.resume_of_committed hbody hserves rfl
    exact ⟨_, generation, _, result, hl⟩
  | notCommitted reason => cases houtcome

/-- A completed command is not resumed. -/
theorem not_fulfils {runtimeId commandId : Identifier} {command : OwnerCommand} {generation : ℕ} {candidate : Term}
    {result : Option Identifier} (hl : S.runtimeCommands.lookup (runtimeId, commandId) =
      some (.staged command .completed generation candidate result)) : ¬ Fulfils access runtimeId commandId S kvs S' := by
  rintro ⟨fuel, frame, txId, receipt, T, t, c, hprepare, hT, hbody, hserves, rfl, rfl⟩
  obtain ⟨T', resolution, records, events, hT', -, hm, -, houtcome⟩ := prepare_new hprepare
  rw [hT] at hT'
  cases hT'
  cases hm with
  | refuse scope =>
    rw [hbody] at scope
    cases scope
  | claim body | reserve body | closed body | cancel body | unreserved body | create body | stage body | commit body =>
    rw [hbody] at body
    cases body
  | absent | nonCommit => cases houtcome
  | succeed body _ _ command =>
    rw [hbody] at body
    cases body
    rw [hserves] at command
    cases command
  | resume body session_eq admitted command_eq =>
    rw [hbody] at body
    cases body
    rw [hserves] at command_eq
    cases command_eq
    obtain ⟨-, kvs, result, hopen, -⟩ := ownerCommandRefusal_eq_none hserves (successionRefusal_eq_none admitted).1
    rw [hl] at hopen
    cases hopen

/-- **Resume commands are linear.**  An entry is completed if and only if its own candidate has committed; a command is
resumed at most once, its completed entry never changes, and of the open commands of one session and domain at most one
has an unresolved candidate. -/
theorem resume_linear (h : Reachable access S) :
    (∀ k command status generation candidate result,
      S.runtimeCommands.lookup k = some (.staged command status generation candidate result) →
        (status = .completed ↔ Bears command candidate ∧ S.Retains command candidate)) ∧
    (∀ runtimeId commandId kvs S₁ presented S₂ kvs' S₃, Fulfils access runtimeId commandId S kvs S₁ →
      Run (Presents access) S₁ presented S₂ → ¬ Fulfils access runtimeId commandId S₂ kvs' S₃) ∧
    (∀ k command generation candidate result presented S',
      S.runtimeCommands.lookup k = some (.staged command .completed generation candidate result) →
        Run (Presents access) S presented S' →
          S'.runtimeCommands.lookup k = some (.staged command .completed generation candidate result)) ∧
    S.OneOpen := by
  refine ⟨fun _ _ _ _ _ _ hl => h.completed_iff hl, ?_, ?_, h.oneOpen⟩
  · intro runtimeId commandId kvs S₁ presented S₂ kvs' S₃ hfulfils hrun
    obtain ⟨command, generation, candidate, result, hl⟩ := hfulfils.entry
    exact not_fulfils ((commandsKept_run hrun).completed hl)
  · intro k command generation candidate result presented S' hl hrun
    exact (commandsKept_run hrun).completed hl

/-! ## a resumed command -/

section Resumed

def resumedDomain : Identifier := ⟨utf8 "d", by decide, by decide⟩

/-- The bare session, with its first owner. -/
def ownedState : State :=
  Opening.bare.owned resumedDomain ⟨utf8 "t", by decide, by decide⟩ ⟨utf8 "o", by decide, by decide⟩

def resumeCommand : SuccessionCommand :=
  { runtimeId := Opening.bare.runtimeId
    commandId := ⟨utf8 "x", by decide, by decide⟩
    successionId := ⟨utf8 "q", by decide, by decide⟩
    canonicalCommandBytes := utf8 "resume"
    attemptGeneration := 1
    positive := Nat.one_pos }

/-- The succession of a second owner, for the command. -/
def successor : AdvanceOwner :=
  { sessionId := Opening.bare.sessionId
    mutationDomain := resumedDomain
    txId := ⟨utf8 "u", by decide, by decide⟩
    expectedOwnerEpoch := 1
    expectedJournalVersion := 2
    proposedOwnerIncarnationId := ⟨utf8 "p", by decide, by decide⟩
    command := some resumeCommand }

/-- Its staging. -/
def successorStage : StageOwnerAttempt :=
  { sessionId := Opening.bare.sessionId
    mutationDomain := resumedDomain
    txId := ⟨utf8 "s", by decide, by decide⟩
    command := resumeCommand
    expectedGeneration := 0
    candidate := .map (Transaction.seal (.advanceOwner successor)).entries }

theorem successor_fits : (encodeFields (Body.advanceOwner successor).fields).length ≤ maxMutationBytes := by
  decide +kernel

theorem successorStage_fits :
    (encodeFields (Body.stageOwnerAttempt successorStage).fields).length ≤ maxMutationBytes := by
  decide +kernel

/-- The session, with its first owner. -/
def ownedSession : Session :=
  let first := Opening.bare.succeed resumedDomain ⟨utf8 "t", by decide, by decide⟩ ⟨utf8 "o", by decide, by decide⟩
  (Session.create Opening.bare.runtimeId Opening.bare.genesis).succeed (.seal (.advanceOwner first)) first

theorem ownedState_session : ownedState.sessions.lookup Opening.bare.sessionId = some ownedSession :=
  Opening.bare.owned_session _ _ _

/-- The state once the succession is staged. -/
def stagedState : State :=
  (ownedState.putSession successorStage.sessionId (ownedSession.stage (.seal (.stageOwnerAttempt successorStage))
    successorStage)).putRuntimeCommand successorStage.command.runtimeId successorStage.command.commandId
    (State.stagedEntry successorStage)

theorem successor_valid : validateTransaction (.map (Transaction.seal (.advanceOwner successor)).entries) =
    .ok (.seal (.advanceOwner successor)) :=
  validateTransaction_entries (build_seal successor_fits) trivial

theorem successorStage_fresh :
    (ownedState.scopedResolutions Opening.bare.sessionId).lookup (resumedDomain, successorStage.txId) = none := by
  have hne : (resumedDomain, successorStage.txId) ≠ (resumedDomain, ⟨utf8 "t", by decide, by decide⟩) := by decide
  rw [State.scopedResolutions_of_session ownedState_session]
  exact (AList.lookup_insert_ne hne).trans rfl

theorem successorStage_checks : (Body.stageOwnerAttempt successorStage).Checks
    (verdictOf (Transaction.seal (.stageOwnerAttempt successorStage)).entries) := by
  have hcandidate : lookup (sym "candidate") (Transaction.seal (.stageOwnerAttempt successorStage)).entries =
      some successorStage.candidate := by
    rw [Transaction.lookup_entries]
    rfl
  exact ⟨rfl, (verdictOf_eq_ok hcandidate).2 ⟨_, successor_valid⟩⟩

/-- A staging of a command that nothing is known of is admitted. -/
theorem stageRefusal_of_free {session : Session} {t : StageOwnerAttempt} (hr : session.runtimeId = t.command.runtimeId)
    (hblocked : unresolvedOtherOwnerCommand S session t = .ok false)
    (hcapsule : S.creationCapsules.lookup (t.command.runtimeId, t.command.commandId) = none)
    (hcommand : S.runtimeCommands.lookup (t.command.runtimeId, t.command.commandId) = none)
    (hg : t.expectedGeneration = 0) : stageRefusal S session t = .ok none := by
  simp only [stageRefusal, hr, hblocked, hcapsule, hcommand, hg, bind, Except.bind, ne_eq, not_true_eq_false, if_false,
    Option.isSome_none, Bool.false_eq_true, if_true]

theorem successorStage_admitted : stageRefusal ownedState ownedSession successorStage = .ok none :=
  stageRefusal_of_free rfl rfl (by decide) (by decide) rfl

theorem presents_successorStage : Presents access ownedState
    (Transaction.seal (.stageOwnerAttempt successorStage)).entries stagedState :=
  presents_stage (T := .seal (.stageOwnerAttempt successorStage)) (t := successorStage) rfl
    (build_seal successorStage_fits) successorStage_checks
    (State.retainedResolution_session.2 successorStage_fresh) ownedState_session successorStage_admitted

/-- A succession of a staged command is admitted, if it is the candidate. -/
theorem successionRefusal_of_staged {session : Session} {t : AdvanceOwner} {c : SuccessionCommand}
    {result : Option Identifier} (hc : t.command = some c)
    (hcapsule : S.creationCapsules.lookup (c.runtimeId, c.commandId) = none)
    (hentry : S.runtimeCommands.lookup (c.runtimeId, c.commandId) =
      some (.staged (c.binding t.sessionId t.mutationDomain) .open c.attemptGeneration (.map kvs) result))
    (htx : lookup (sym "tx_id") kvs = some t.txId.term) (hbinding : immutableBinding kvs = .ok T)
    (hepoch : t.expectedOwnerEpoch = session.ownerEpoch) (hversion : t.expectedJournalVersion = session.journalVersion) :
    successionRefusal S session T t = .ok none := by
  simp only [successionRefusal, ownerCommandRefusal, hc, hcapsule, hentry, htx, hbinding, hepoch, hversion, bind,
    Except.bind, Option.isSome_none, Bool.false_eq_true, if_false, and_self, if_true, ne_eq, not_true_eq_false]

/-- The session once the succession is staged. -/
def stagedSession : Session := ownedSession.stage (.seal (.stageOwnerAttempt successorStage)) successorStage

theorem stagedState_session : stagedState.sessions.lookup successor.sessionId = some stagedSession :=
  AList.lookup_insert _

theorem stagedState_entry : stagedState.runtimeCommands.lookup (resumeCommand.runtimeId, resumeCommand.commandId) =
    some (State.stagedEntry successorStage) :=
  AList.lookup_insert _

theorem successor_fresh : (stagedState.scopedResolutions successor.sessionId).lookup (resumedDomain, successor.txId) =
    none := by
  have hne : (resumedDomain, successor.txId) ≠ (resumedDomain, successorStage.txId) := by decide
  have hne' : (resumedDomain, successor.txId) ≠ (resumedDomain, ⟨utf8 "t", by decide, by decide⟩) := by decide
  rw [State.scopedResolutions_of_session stagedState_session]
  exact (AList.lookup_insert_ne hne).trans ((AList.lookup_insert_ne hne').trans rfl)

theorem successor_admitted : successionRefusal stagedState stagedSession (.seal (.advanceOwner successor)) successor =
    .ok none := by
  have hcapsule : stagedState.creationCapsules.lookup (resumeCommand.runtimeId, resumeCommand.commandId) = none := by
    decide
  have htx : lookup (sym "tx_id") (Transaction.seal (.advanceOwner successor)).entries = some successor.txId.term := by
    rw [Transaction.lookup_entries]
    rfl
  exact successionRefusal_of_staged rfl hcapsule stagedState_entry htx (immutableBinding_of_validate successor_valid) rfl
    rfl

/-- The state once the command is resumed. -/
def resumedState : State :=
  (stagedState.putSession successor.sessionId (stagedSession.succeed (.seal (.advanceOwner successor))
    successor)).putRuntimeCommand resumeCommand.runtimeId resumeCommand.commandId
      (.staged (resumeCommand.binding successorStage.sessionId successorStage.mutationDomain) .completed
        resumeCommand.attemptGeneration successorStage.candidate (some successor.sessionId))

theorem presents_successor : Presents access stagedState (Transaction.seal (.advanceOwner successor)).entries
    resumedState :=
  presents_resume (T := .seal (.advanceOwner successor)) (t := successor) rfl (build_seal successor_fits)
    (State.retainedResolution_session.2 successor_fresh) stagedState_session successor_admitted rfl stagedState_entry

theorem reachable_resumed : Reachable access resumedState :=
  (Opening.bare.reachable_owned _ _ _).run (.snoc (.one presents_successorStage) presents_successor)

theorem resumedState_entry : resumedState.runtimeCommands.lookup (resumeCommand.runtimeId, resumeCommand.commandId) =
    some (.staged (resumeCommand.binding successorStage.sessionId successorStage.mutationDomain) .completed
      resumeCommand.attemptGeneration successorStage.candidate (some successor.sessionId)) :=
  AList.lookup_insert _

/-- A command that was resumed is completed, by the succession that it staged. -/
theorem resume_linear_resumed : resumedState.Retains
    (resumeCommand.binding successorStage.sessionId successorStage.mutationDomain) successorStage.candidate :=
  (((resume_linear (reachable_resumed : Reachable noAccess _)).1 _ _ _ _ _ _ resumedState_entry).1 rfl).2

end Resumed

end Loopex.Store
