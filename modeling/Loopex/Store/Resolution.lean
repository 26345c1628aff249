import Loopex.Store.Step

/-!
# Exactly-once resolution

What a state retains under a scope is retained for ever, and a transaction presented again is answered
from it.

* `Moves.resolved` — a transition retains its own resolution under its own scope;
* `Moves.extends` — and overwrites none;
* `Moves.command_kept` — an entry of the runtime commands changes only while it is an open attempt;
* `State.Disjoint` — a session and an orphan never share an id;
* `prepare_known`, `prepare_conflict`, `prepare_loose`, `prepare_raise` — a presentation under a retained
  scope;
* `Answered` — the answer to every map under it.
-/

namespace Loopex.Store

open Loopex.Erlang Loopex.Erlang.Term Loopex.Runtime Loopex.System

variable {access : StructAccess} {fuel : ℕ} {S S' : State} {kvs : List (Term × Term)} {raw : Term}
  {T : Transaction} {p : Prepared} {resolution : Resolution} {records : List Record} {events : List Term}

/-! ## tables -/

namespace Table

variable {κ ν : Type} [DecidableEq κ]

/-- `Map.fetch`, as a partial function. -/
def fetch (m : Table κ ν) (k : κ) : Option ν := m.lookup k

/-- A write at a free key keeps every other entry. -/
theorem extends_insert {m : Table κ ν} {k : κ} (v : ν) (h : m.lookup k = none) :
    Extends m.fetch (fetch (m.insert k v)) := by
  intro k' w hw
  have hne : k' ≠ k := by
    rintro rfl
    rw [fetch, h] at hw
    cases hw
  rw [fetch, AList.lookup_insert_ne hne]
  exact hw

end Table

/-! ## the retained resolutions -/

/-- What is retained with a binding. -/
def Entry.binding? : Entry → Option Retained
  | .retained r => some r
  | .attempt => none

/-- The resolution retained under a scope, with its binding. -/
def State.resolved (S : State) (scope : Scope) : Option Retained :=
  (S.retainedResolution scope).bind Entry.binding?

theorem State.resolved_eq_some {scope : Scope} {r : Retained} :
    S.resolved scope = some r ↔ S.retainedResolution scope = some (.retained r) := by
  unfold State.resolved
  cases h : S.retainedResolution scope with
  | none => simp
  | some e => cases e <;> simp [Entry.binding?]

theorem State.resolved_creation (r : Identifier) (type : TransactionType) (x : Identifier) :
    S.resolved (.creation r type x) = S.creationResolutions.lookup (r, type, x) := by
  simp only [resolved, retainedResolution]
  cases S.creationResolutions.lookup (r, type, x) <;> rfl

theorem State.resolved_command (r c : Identifier) :
    S.resolved (.command r c) =
      (S.runtimeCommands.lookup (r, c)).bind fun e => e.entry.binding? := by
  simp only [resolved, retainedResolution]
  cases S.runtimeCommands.lookup (r, c) <;> rfl

theorem State.resolved_session (s d x : Identifier) :
    S.resolved (.session s d x) = (S.scopedResolutions s).lookup (d, x) := by
  simp only [resolved, retainedResolution]
  cases (S.scopedResolutions s).lookup (d, x) <;> rfl

theorem State.retainedResolution_session {s d x : Identifier} :
    S.retainedResolution (.session s d x) = none ↔ (S.scopedResolutions s).lookup (d, x) = none := by
  simp [retainedResolution]

theorem State.scopedResolutions_of_session {id : Identifier} {session : Session}
    (h : S.sessions.lookup id = some session) : S.scopedResolutions id = session.resolutions := by
  simp [scopedResolutions, h]

theorem State.scopedResolutions_of_absent {id : Identifier} (h : S.sessions.lookup id = none) :
    S.scopedResolutions id = (S.orphanResolutions.lookup id).getD ∅ := by
  simp [scopedResolutions, h]

/-! ## the runtime commands -/

/-- What may become of an entry of the runtime commands: it stays, or it is an open attempt and stays one
of the same command. -/
inductive RuntimeCommand.Kept : RuntimeCommand → RuntimeCommand → Prop
  | same (e : RuntimeCommand) : Kept e e
  | attempt (command : OwnerCommand) (status : CommandStatus) (g g' : ℕ) (c c' : Term)
      (r r' : Option Identifier) :
      Kept (.staged command .open g c r) (.staged command status g' c' r')

theorem RuntimeCommand.Kept.trans {a b c : RuntimeCommand} (h : a.Kept b) (h' : b.Kept c) : a.Kept c := by
  cases h with
  | same => exact h'
  | attempt command status g g' k k' r r' =>
    cases h' with
    | same => exact .attempt ..
    | attempt => exact .attempt ..

/-- Every entry of a state is kept by another. -/
def State.CommandsKept (S S' : State) : Prop :=
  ∀ k e, S.runtimeCommands.lookup k = some e → ∃ e', S'.runtimeCommands.lookup k = some e' ∧ e.Kept e'

theorem State.CommandsKept.refl (S : State) : S.CommandsKept S := fun _ e h => ⟨e, h, .same e⟩

theorem State.CommandsKept.trans {S S' S'' : State} (h : S.CommandsKept S') (h' : S'.CommandsKept S'') :
    S.CommandsKept S'' := by
  intro k e he
  obtain ⟨e', he', hk⟩ := h k e he
  obtain ⟨e'', he'', hk'⟩ := h' k e' he'
  exact ⟨e'', he'', hk.trans hk'⟩

/-- A write keeps the entries if it keeps the one it replaces. -/
theorem State.commandsKept_insert {S S' : State} {k : Identifier × Identifier} {v : RuntimeCommand}
    (h : S'.runtimeCommands = S.runtimeCommands.insert k v)
    (hk : ∀ e, S.runtimeCommands.lookup k = some e → e.Kept v) : S.CommandsKept S' := by
  intro k' e he
  rw [h]
  by_cases hkk : k' = k
  · subst hkk
    exact ⟨v, AList.lookup_insert _, hk e he⟩
  · exact ⟨e, by rw [AList.lookup_insert_ne hkk]; exact he, .same e⟩

/-- **An entry of the runtime commands changes only while it is an open attempt**, and then it stays an
attempt of the same command. -/
theorem Moves.commandsKept (h : Moves S T S' resolution records events)
    (hn : S.retainedResolution T.body.scope = none) : S.CommandsKept S' := by
  have hfree : ∀ {r c : Identifier} {v : RuntimeCommand}, S.runtimeCommands.lookup (r, c) = none →
      S'.runtimeCommands = S.runtimeCommands.insert (r, c) v → S.CommandsKept S' := by
    intro r c v hl hS
    refine State.commandsKept_insert hS fun e he => ?_
    rw [hl] at he
    cases he
  cases h with
  | refuse | claim | reserve | closed | absent | nonCommit | succeed | commit => exact .refl S
  | cancel body closes unknown =>
    obtain ⟨t, hf, h1, h2, -⟩ := createSession_eq_ok closes.create
    rw [hf, Body.scope, h1, h2] at unknown
    exact hfree (by simpa [State.retainedResolution] using unknown) rfl
  | unreserved body =>
    rw [body] at hn
    exact hfree (by simpa [State.retainedResolution, Body.scope] using hn) rfl
  | create body =>
    rw [body] at hn
    exact hfree (by simpa [State.retainedResolution, Body.scope] using hn) rfl
  | stage body session_eq admitted =>
    obtain ⟨-, -, -, hl | ⟨candidate, result, hl⟩⟩ := stageRefusal_eq_none admitted
    · exact hfree hl rfl
    · refine State.commandsKept_insert rfl fun e he => ?_
      rw [hl] at he
      cases he
      exact .attempt ..
  | resume body session_eq admitted command_eq entry =>
    obtain ⟨-, kvs, result, hl, -⟩ :=
      ownerCommandRefusal_eq_none command_eq (successionRefusal_eq_none admitted).1
    refine State.commandsKept_insert rfl fun e he => ?_
    rw [hl] at he entry
    cases he
    cases entry
    exact .attempt ..

/-- A kept entry keeps the resolution it retains. -/
theorem RuntimeCommand.Kept.binding {a b : RuntimeCommand} (h : a.Kept b) {r : Retained}
    (hr : a.entry.binding? = some r) : b.entry.binding? = some r := by
  cases h with
  | same => exact hr
  | attempt => cases hr

/-! ## the session resolutions -/

/-- A write to the resolutions of one id. -/
theorem State.scopedResolutions_putSession (S : State) (id id' : Identifier) (session : Session) :
    (S.putSession id session).scopedResolutions id' =
      if id' = id then session.resolutions else S.scopedResolutions id' := by
  unfold State.scopedResolutions State.putSession
  by_cases h : id' = id
  · subst h
    simp [AList.lookup_insert]
  · simp [h, AList.lookup_insert_ne h]

/-- The resolutions of every id after a transition: a transaction of a session adds its own. -/
def State.ScopedAfter (S S' : State) (T : Transaction) (resolution : Resolution) : Prop :=
  match T.body.scope with
  | .session s d _ => ∀ id, S'.scopedResolutions id =
      if id = s then putResolution (S.scopedResolutions s) d T resolution else S.scopedResolutions id
  | _ => ∀ id, S'.scopedResolutions id = S.scopedResolutions id

/-- A write to a session that retains a resolution. -/
theorem State.scopedAfter_session {S S' : State} {s d x : Identifier} {session session' : Session}
    (hs : T.body.scope = .session s d x) (hl : S.sessions.lookup s = some session)
    (hr : session'.resolutions = putResolution session.resolutions d T resolution)
    (h : ∀ id, S'.scopedResolutions id = (S.putSession s session').scopedResolutions id) :
    S.ScopedAfter S' T resolution := by
  rw [State.ScopedAfter, hs]
  intro id
  rw [h, State.scopedResolutions_putSession, hr, State.scopedResolutions_of_session hl]

/-- A transition of a creation leaves the resolutions of the sessions. -/
theorem State.scopedAfter_creation {S S' : State} {r x : Identifier} {type : TransactionType}
    (hs : T.body.scope = .creation r type x) (h : S'.scopedResolutions = S.scopedResolutions) :
    S.ScopedAfter S' T resolution := by
  rw [State.ScopedAfter, hs, h]
  exact fun _ => rfl

theorem Moves.scoped (h : Moves S T S' resolution records events) : S.ScopedAfter S' T resolution := by
  cases h with
  | refuse scope => exact State.scopedAfter_creation scope rfl
  | claim body | reserve body | closed body | cancel body =>
    exact State.scopedAfter_creation (by rw [body]; rfl) rfl
  | unreserved body =>
    rw [State.ScopedAfter, body]
    exact fun _ => rfl
  | @create t c sessionId number body capsule runtime command valid reserved genesis generation version id
      fresh =>
    rw [State.ScopedAfter, body]
    intro i
    have hS : (S.created T t c sessionId number).scopedResolutions i =
        (S.putSession sessionId (Session.create t.runtimeId t.genesis)).scopedResolutions i := rfl
    rw [hS, State.scopedResolutions_putSession]
    split
    · next hi =>
      simp only [State.taken, Bool.or_eq_false_iff, Option.isSome_eq_false_iff,
        Option.isNone_iff_eq_none] at fresh
      rw [hi, State.scopedResolutions_of_absent fresh.1, fresh.2]
      rfl
    · rfl
  | @absent sessionId domain scope ha =>
    rw [State.ScopedAfter, scope]
    intro i
    rw [State.scopedResolutions_of_absent ha]
    by_cases hi : i = sessionId
    · subst hi
      rw [if_pos rfl, State.scopedResolutions_of_absent (by exact ha)]
      simp [State.orphaned, AList.lookup_insert]
    · rw [if_neg hi]
      simp [State.scopedResolutions, State.orphaned, AList.lookup_insert_ne hi]
  | nonCommit scope session_eq => exact State.scopedAfter_session scope session_eq rfl fun _ => rfl
  | stage body session_eq | succeed body session_eq | resume body session_eq | commit body session_eq =>
    exact State.scopedAfter_session (by rw [body]; rfl) session_eq rfl fun _ => rfl

/-! ## resolutions stay -/

/-- The creation resolutions after a transition. -/
theorem Moves.creation_extends (h : Moves S T S' resolution records events)
    (hn : S.retainedResolution T.body.scope = none) :
    Extends S.creationResolutions.fetch S'.creationResolutions.fetch := by
  have key : ∀ {r : Identifier}, T.body.scope = .creation r T.body.type T.body.txId →
      Extends S.creationResolutions.fetch
        (Table.fetch (S.creationResolutions.insert (r, T.body.type, T.body.txId) ⟨T, resolution⟩)) := by
    intro r hs
    rw [hs] at hn
    exact Table.extends_insert _ (by simpa [State.retainedResolution] using hn)
  cases h with
  | refuse scope => exact key scope
  | claim body | reserve body | closed body | cancel body => exact key (by rw [body]; rfl)
  | unreserved | create | absent | nonCommit | stage | succeed | resume | commit => exact .refl _

theorem Moves.scoped_extends (h : Moves S T S' resolution records events)
    (hn : S.retainedResolution T.body.scope = none) (id : Identifier) :
    Extends (S.scopedResolutions id).fetch (S'.scopedResolutions id).fetch := by
  have hs := h.scoped
  unfold State.ScopedAfter at hs
  split at hs
  · next s d x hscope =>
    rw [hs id]
    split
    · next hid =>
      subst hid
      have hx : x = T.body.txId := by
        revert hscope
        cases T.body <;> simp [Body.scope, Body.txId, eq_comm]
      rw [hscope, hx] at hn
      exact Table.extends_insert _ (State.retainedResolution_session.1 hn)
    · exact .refl _
  · rw [hs id]
    exact .refl _

/-- **A transition overwrites no resolution.** -/
theorem Moves.extends (h : Moves S T S' resolution records events)
    (hn : S.retainedResolution T.body.scope = none) : Extends S.resolved S'.resolved := by
  intro scope r hr
  cases scope with
  | creation r' type x =>
    rw [State.resolved_creation] at hr ⊢
    exact h.creation_extends hn _ _ hr
  | command r' c =>
    rw [State.resolved_command] at hr ⊢
    obtain ⟨e, he, hb⟩ := Option.bind_eq_some_iff.1 hr
    obtain ⟨e', he', hk⟩ := h.commandsKept hn _ _ he
    rw [he']
    exact hk.binding hb
  | session s d x =>
    rw [State.resolved_session] at hr ⊢
    exact h.scoped_extends hn s _ _ hr

/-- **A transition retains its own resolution.** -/
theorem Moves.resolved (h : Moves S T S' resolution records events) :
    S'.resolved T.body.scope = some ⟨T, resolution⟩ := by
  have hcreation : ∀ {r : Identifier} {R : State}, T.body.scope = .creation r T.body.type T.body.txId →
      (R.putCreationResolution r T resolution).resolved T.body.scope = some ⟨T, resolution⟩ := by
    intro r R hs
    rw [hs, State.resolved_creation]
    exact AList.lookup_insert _
  have hsession : ∀ {s d : Identifier}, T.body.scope = .session s d T.body.txId →
      S'.resolved T.body.scope = some ⟨T, resolution⟩ := by
    intro s d hs
    have hafter := h.scoped
    rw [State.ScopedAfter, hs] at hafter
    rw [hs, State.resolved_session, hafter, if_pos rfl]
    exact AList.lookup_insert _
  cases h with
  | refuse scope => exact hcreation scope
  | claim body | reserve body | closed body | cancel body => exact hcreation (by rw [body]; rfl)
  | @unreserved t body =>
    rw [body, Body.scope, State.resolved_command]
    simp [State.putRuntimeCommand, AList.lookup_insert, RuntimeCommand.entry, Entry.binding?]
  | @create t c sessionId number body =>
    rw [body, Body.scope, State.resolved_command]
    simp [State.created, State.putRuntimeCommand, State.putSession, retainCreationIndex, State.putHead,
      State.putCapsule, AList.lookup_insert, RuntimeCommand.entry, Entry.binding?]
  | absent scope | nonCommit scope => exact hsession scope
  | stage body | succeed body | resume body | commit body => exact hsession (by rw [body]; rfl)

/-! ## sessions and orphans -/

/-- The ids of the orphans stay. -/
def State.OrphansKept (S S' : State) : Prop :=
  ∀ id, (S.orphanResolutions.lookup id).isSome → (S'.orphanResolutions.lookup id).isSome

theorem Moves.orphansKept (h : Moves S T S' resolution records events) : S.OrphansKept S' := by
  intro id hid
  cases h with
  | refuse | claim | reserve | closed | cancel | unreserved | create | nonCommit | stage | succeed | resume
  | commit => exact hid
  | @absent sessionId domain =>
    by_cases hs : id = sessionId
    · subst hs
      simp [State.orphaned, AList.lookup_insert]
    · simpa [State.orphaned, AList.lookup_insert_ne hs] using hid

/-- The sessions and the orphans share no id. -/
def State.Disjoint (S : State) : Prop :=
  ∀ id, (S.sessions.lookup id).isSome → S.orphanResolutions.lookup id = none

theorem State.disjoint_new : State.new.Disjoint := fun _ h => by simp [State.new] at h

/-- A session is written only where one is, or under a free id. -/
theorem Moves.disjoint (h : Moves S T S' resolution records events) (hd : S.Disjoint) : S'.Disjoint := by
  have hput : ∀ {id : Identifier} {session session' : Session}, S.sessions.lookup id = some session →
      (S.putSession id session').Disjoint := by
    intro id session session' hl i hi
    by_cases h : i = id
    · subst h
      exact hd i (by simp [hl])
    · exact hd i (by simpa [State.putSession, AList.lookup_insert_ne h] using hi)
  cases h with
  | refuse | claim | reserve | closed | cancel | unreserved => exact hd
  | @create t c sessionId number body capsule runtime command valid reserved genesis generation version id
      fresh =>
    intro i hi
    simp only [State.taken, Bool.or_eq_false_iff, Option.isSome_eq_false_iff,
      Option.isNone_iff_eq_none] at fresh
    have hi' : ((S.sessions.insert sessionId (Session.create t.runtimeId t.genesis)).lookup i).isSome := hi
    show S.orphanResolutions.lookup i = none
    by_cases h : i = sessionId
    · rw [h]
      exact fresh.2
    · exact hd i (by simpa [AList.lookup_insert_ne h] using hi')
  | @absent sessionId domain scope ha =>
    intro i hi
    by_cases h : i = sessionId
    · subst h
      simp [State.orphaned, ha] at hi
    · have := hd i hi
      simpa [State.orphaned, AList.lookup_insert_ne h] using this
  | nonCommit scope session_eq => exact hput session_eq
  | stage body session_eq | succeed body session_eq | resume body session_eq | commit body session_eq =>
    exact hput session_eq

/-! ## presenting again -/

/-- A transaction whose resolution is retained is known. -/
theorem prepare_known (hT : validateTransaction (.map kvs) = .ok T)
    (hr : S.resolved T.body.scope = some ⟨T, resolution⟩) :
    prepare access fuel S kvs = .ok (.known (outcomeOf T.body.txId resolution)) := by
  rw [prepare_of_validate hT, State.resolved_eq_some.1 hr]
  simp [resolveKnown, immutableBinding_of_validate hT]

/-- The name of the field that identifies a transaction in its scope. -/
def TransactionType.idName : TransactionType → String
  | createSession => "command_id"
  | _ => "tx_id"

theorem Body.id_mem_fields (b : Body) : (b.type.idName, b.txId.term) ∈ b.fields := by
  cases b <;> simp [fields, values, type, txId, TransactionType.fieldNames, TransactionType.idName]

/-- Equal bindings have one id. -/
theorem Transaction.txId_of_sameBinding {s t : Transaction} (h : s.sameBinding t = true) :
    s.body.txId = t.body.txId := by
  have hid : ∀ T : Transaction, T.fields.get T.body.type.idName = some T.body.txId.term := fun T =>
    Fields.get_of_mem T.apart.1 (List.mem_append_left _ T.body.id_mem_fields)
  have hget := get_of_sameBinding h s.body.type.idName
  rw [hid, type_of_sameBinding h, hid] at hget
  exact Identifier.term_inj.1 (Option.some.inj hget)

/-- The binding of a presented map is another than the transaction: it is refused, raises or is not equal. -/
def Differs (kvs : List (Term × Term)) (T : Transaction) : Prop := immutableBinding kvs ≠ .ok T

/-- The binding of a presented map is `==` to the transaction. -/
def LooselySame (kvs : List (Term × Term)) (T : Transaction) : Prop :=
  ∃ b, immutableBinding kvs = .ok b ∧ b.sameBinding T = true

/-- A creation transaction passes the port's validation before anything is looked up. -/
def Admitted (kvs : List (Term × Term)) : Prop :=
  (typeOf kvs).any TransactionType.isCreation → ∃ T, validateTransaction (.map kvs) = .ok T

section

variable {scope : Scope} {r : Retained} (hs : scopeOf access kvs = .ok (.at scope))
  (hr : S.resolved scope = some r) (ha : Admitted kvs)

include hs hr ha

/-- A presentation under a retained scope is resolved from what is retained. -/
theorem prepare_of_resolved : prepare access fuel S kvs = resolveKnown (.retained r) kvs := by
  have hvalid : prepareValid access fuel S kvs = resolveKnown (.retained r) kvs :=
    prepareValid_of_retained hs (State.resolved_eq_some.1 hr)
  unfold prepare
  rw [hvalid]
  split
  · next hc =>
    obtain ⟨T', hT'⟩ := ha hc
    rw [hT']
  · rfl

/-- Another binding under a retained scope is a conflict, unless reading it raises. -/
theorem prepare_conflict (hl : ¬ LooselySame kvs r.binding) (hx : ∀ x, immutableBinding kvs ≠ .raise x) :
    prepare access fuel S kvs = .ok (.known (.notCommitted .txIdConflict)) := by
  rw [prepare_of_resolved hs hr ha, resolveKnown]
  cases hb : immutableBinding kvs with
  | raise x => exact absurd hb (hx x)
  | error e => rfl
  | ok b => exact if_neg fun hsame => hl ⟨b, hb, hsame⟩

/-- A binding that is `==` to the one retained is answered with the outcome retained. -/
theorem prepare_loose (hl : LooselySame kvs r.binding) :
    prepare access fuel S kvs = .ok (.known (outcomeOf r.binding.body.txId r.resolution)) := by
  obtain ⟨b, hb, hsame⟩ := hl
  rw [prepare_of_resolved hs hr ha, resolveKnown, hb, ← Transaction.txId_of_sameBinding hsame]
  exact if_pos hsame

/-- Where reading the binding raises, so does the Store. -/
theorem prepare_raise {x : Exn} (hx : immutableBinding kvs = .raise x) :
    prepare access fuel S kvs = .error (.raised x) := by
  rw [prepare_of_resolved hs hr ha, resolveKnown, hx]

end

/-- What is answered to a map under the scope of a resolved transaction. -/
structure Answered (access : StructAccess) (fuel : ℕ) (S : State) (kvs : List (Term × Term)) (T : Transaction)
    (outcome : Outcome) : Prop where
  /-- a creation transaction that the port refuses -/
  invalid : (typeOf kvs).any TransactionType.isCreation → ∀ e, validateTransaction (.map kvs) = .error e →
    prepare access fuel S kvs = .ok (.invalid (.notCommitted .invalidTransaction))
  /-- one on which the port raises -/
  unvalidated : (typeOf kvs).any TransactionType.isCreation → ∀ x, validateTransaction (.map kvs) = .raise x →
    prepare access fuel S kvs = .error (.raised x)
  /-- a binding that is `==` -/
  loose : Admitted kvs → LooselySame kvs T → prepare access fuel S kvs = .ok (.known outcome)
  /-- a binding that cannot be read -/
  unread : Admitted kvs → ∀ x, immutableBinding kvs = .raise x → prepare access fuel S kvs = .error (.raised x)
  /-- every other binding -/
  conflict : Admitted kvs → ¬ LooselySame kvs T → (∀ x, immutableBinding kvs ≠ .raise x) →
    prepare access fuel S kvs = .ok (.known (.notCommitted .txIdConflict))

theorem answered {scope : Scope} {r : Retained} (hs : scopeOf access kvs = .ok (.at scope))
    (hr : S.resolved scope = some r) :
    Answered access fuel S kvs r.binding (outcomeOf r.binding.body.txId r.resolution) where
  invalid hc e he := by
    unfold prepare
    rw [if_pos hc, he]
    rfl
  unvalidated hc x hx := by
    unfold prepare
    rw [if_pos hc, hx]
  loose ha hl := prepare_loose hs hr ha hl
  unread ha _ hx := prepare_raise hs hr ha hx
  conflict ha hl hx := prepare_conflict hs hr ha hl hx

/-! ## runs -/

/-- What a run relates, and keeps, under the guard of fresh transactions. -/
theorem Presents.extends (h : Presents access S kvs S') : Extends S.resolved S'.resolved := by
  obtain ⟨T, resolution, records, events, -, hn, hm⟩ := h.moves
  exact hm.extends hn

theorem Presents.commandsKept (h : Presents access S kvs S') : S.CommandsKept S' := by
  obtain ⟨T, resolution, records, events, -, hn, hm⟩ := h.moves
  exact hm.commandsKept hn

theorem Presents.orphansKept (h : Presents access S kvs S') : S.OrphansKept S' := by
  obtain ⟨T, resolution, records, events, -, hn, hm⟩ := h.moves
  exact hm.orphansKept

variable {presented : List (List (Term × Term))}

theorem resolved_run (h : Run (Presents access) S presented S') : Extends S.resolved S'.resolved :=
  h.extends (I := fun _ => True) trivial (fun _ _ _ _ _ => trivial) fun _ _ _ _ hs => hs.extends

theorem commandsKept_run (h : Run (Presents access) S presented S') : S.CommandsKept S' :=
  h.relates (I := fun _ => True) (R := State.CommandsKept) State.CommandsKept.refl
    (fun _ _ _ => State.CommandsKept.trans) trivial (fun _ _ _ _ _ => trivial)
    fun _ _ _ _ hs => hs.commandsKept

theorem orphansKept_run (h : Run (Presents access) S presented S') : S.OrphansKept S' :=
  h.relates (I := fun _ => True) (R := State.OrphansKept) (fun _ _ hi => hi)
    (fun _ _ _ h h' id hi => h' id (h id hi)) trivial (fun _ _ _ _ _ => trivial)
    fun _ _ _ _ hs => hs.orphansKept

theorem Reachable.disjoint (h : Reachable access S) : S.Disjoint :=
  h.invariant State.disjoint_new fun _ _ _ _ _ _ hd _ _ hm => hm.disjoint hd

theorem Reachable.run (h : Reachable access S) (hrun : Run (Presents access) S presented S') :
    Reachable access S' := by
  obtain ⟨before, h⟩ := h
  exact ⟨before ++ presented, h.trans hrun⟩

end Loopex.Store
