import Loopex.Store.Opening
import Loopex.System.FencedLog

/-!
# The journal of a session

The records of a session are the entries of a fenced log: a committed succession installs an owner, and a
committed session transaction appends under the stamp in force.  The events form a second log, numbered by
their own sequence and told apart by their ids.

* `Session.Journal` — a session keeps the journal of a history;
* `Session.Outbox` — and an outbox of distinct, contiguous events;
* `Moves.journals` — every transition keeps both;
* `journal_shape` — **the columns of every journal, and the fence around its writers**.
-/

namespace Loopex.Store

open Loopex.Erlang Loopex.Erlang.Term Loopex.Runtime Loopex.System Loopex.System.FencedLog

variable {access : StructAccess} {fuel : ℕ} {S S' : State} {kvs : List (Term × Term)}
  {T : Transaction} {resolution : Resolution} {records : List Record} {events : List Term}

/-! ## the history of a session -/

/-- The stamp of a session before its first record. -/
def unowned : Stamp Identifier := ⟨0, none⟩

abbrev History : Type := List (Act Identifier Term)

/-- The record of an entry. -/
def Record.ofEntry (e : LogEntry Identifier Term) : Record :=
  ⟨e.version, e.stamp.epoch, e.stamp.owner, e.act.payload⟩

/-- The records of a history. -/
def recordsOf (acts : History) : List Record := (entries unowned 1 acts).map Record.ofEntry

namespace Session

/-- A committed succession of the session: it appended the record of a version and installed an owner
under an epoch. -/
def Installs (s : Session) (version epoch : ℕ) (owner : Identifier) : Prop :=
  ∃ key T, s.resolutions.lookup key = some ⟨T, .committed (.advance epoch owner version)⟩

/-- The payload of a succession record. -/
def IsSuccession (payload : Term) : Prop :=
  ∃ kvs, payload = .map kvs ∧ lookup (sym "kind") kvs = some (str "owner_advanced")

/-- The session keeps the journal of a history. -/
structure Journal (s : Session) (acts : History) : Prop where
  records : s.records = recordsOf acts
  version : s.journalVersion = acts.length
  stamp : unowned.afterAll acts = ⟨s.ownerEpoch, s.ownerIncarnationId⟩
  created : ∃ genesis rest, acts = .append genesis :: rest
  installs : ∀ v e o, s.Installs v e o ↔ ∃ i p, v = i + 1 ∧ acts[i]? = some (Act.install o p) ∧
    e = (unowned.afterAll (acts.take (i + 1))).epoch
  succession : ∀ (i : ℕ) (o : Identifier) (p : Term), acts[i]? = some (Act.install o p) → IsSuccession p

/-- The events of the session are numbered, identified and distinct. -/
structure Outbox (s : Session) : Prop where
  sequence : s.eventSequence = s.events.length
  stamped : ∀ j e, s.events[j]? = some e →
    ∃ kvs, e = .map kvs ∧ lookup (sym "event_sequence") kvs = some (.int ((j + 1 : ℕ) : ℤ))
  identified : ∀ e ∈ s.events, ∃ id, eventId e = some id
  ids_nodup : (Loopex.Store.eventIds s.events).Nodup
  keys : ∀ id, (s.eventIds.lookup id).isSome ↔ id ∈ Loopex.Store.eventIds s.events

end Session

/-! ## a resolution that installs nobody -/

/-- The receipt of a succession. -/
def Resolution.IsAdvance : Resolution → Prop
  | .committed (.advance ..) => True
  | _ => False

/-- A write at a free key adds the installation of its own resolution. -/
theorem installs_insert {s s' : Session} {d : Identifier}
    (hr : s'.resolutions = putResolution s.resolutions d T resolution)
    (hf : s.resolutions.lookup (d, T.body.txId) = none) (v e : ℕ) (o : Identifier) :
    s'.Installs v e o ↔ s.Installs v e o ∨ resolution = .committed (.advance e o v) := by
  unfold Session.Installs
  rw [hr]
  constructor
  · rintro ⟨key, T', h⟩
    by_cases hk : key = (d, T.body.txId)
    · rw [hk, putResolution, AList.lookup_insert] at h
      cases h
      exact .inr rfl
    · rw [putResolution, AList.lookup_insert_ne hk] at h
      exact .inl ⟨key, T', h⟩
  · rintro (⟨key, T', h⟩ | rfl)
    · have hk : key ≠ (d, T.body.txId) := by
        rintro rfl
        rw [hf] at h
        cases h
      exact ⟨key, T', by rw [putResolution, AList.lookup_insert_ne hk]; exact h⟩
    · exact ⟨_, T, AList.lookup_insert _⟩

/-! ## what the transitions do to a journal -/

section Steps

variable {s : Session} {acts : History}

theorem journal_create (runtimeId : Identifier) (genesis : Term) :
    (Session.create runtimeId genesis).Journal [.append genesis] where
  records := rfl
  version := rfl
  stamp := rfl
  created := ⟨genesis, [], rfl⟩
  installs v e o := by
    constructor
    · rintro ⟨key, T, h⟩
      simp [Session.create] at h
    · rintro ⟨i, p, -, h, -⟩
      cases i <;> simp at h
  succession i o p h := by cases i <;> simp at h

/-- Retaining a resolution that is no succession keeps the journal. -/
theorem Session.Journal.retain {s' : Session} {d : Identifier} (h : s.Journal acts)
    (hrec : s'.records = s.records) (hv : s'.journalVersion = s.journalVersion)
    (he : s'.ownerEpoch = s.ownerEpoch) (ho : s'.ownerIncarnationId = s.ownerIncarnationId)
    (hr : s'.resolutions = putResolution s.resolutions d T resolution)
    (hf : s.resolutions.lookup (d, T.body.txId) = none) (hn : ¬ resolution.IsAdvance) : s'.Journal acts where
  records := hrec.trans h.records
  version := hv.trans h.version
  stamp := by rw [he, ho, h.stamp]
  created := h.created
  installs v e o := by
    rw [installs_insert hr hf, h.installs]
    refine or_iff_left ?_
    rintro rfl
    exact hn trivial
  succession := h.succession

/-- A committed succession installs its owner. -/
theorem Session.Journal.succeed {t : AdvanceOwner} (h : s.Journal acts)
    (hf : s.resolutions.lookup (t.mutationDomain, T.body.txId) = none) :
    (s.succeed T t).Journal
      (acts ++ [.install t.proposedOwnerIncarnationId (successionPayload s t)]) := by
  have hstamp : unowned.afterAll (acts ++ [.install t.proposedOwnerIncarnationId (successionPayload s t)]) =
      ⟨s.ownerEpoch + 1, some t.proposedOwnerIncarnationId⟩ := by
    rw [Stamp.afterAll_append, h.stamp]
    rfl
  refine ⟨?_, ?_, hstamp, ?_, fun v e o => ?_, fun i o p hi => ?_⟩
  · rw [recordsOf, entries_append, List.map_append, h.stamp]
    change s.records ++ [successionRecord s t] = _
    rw [h.records, successionRecord, h.version, Nat.add_comm]
    rfl
  · change s.journalVersion + 1 = _
    rw [h.version]
    simp
  · obtain ⟨genesis, rest, rfl⟩ := h.created
    exact ⟨genesis, _, rfl⟩
  · rw [installs_insert rfl hf, h.installs]
    constructor
    · rintro (⟨i, p, rfl, hi, rfl⟩ | hadv)
      · obtain ⟨hlt, -⟩ := List.getElem?_eq_some_iff.1 hi
        exact ⟨i, p, rfl, by rw [List.getElem?_append_left hlt, hi],
          by rw [List.take_append_of_le_length (by omega)]⟩
      · simp only [successionReceipt, Resolution.committed.injEq, Receipt.advance.injEq] at hadv
        obtain ⟨rfl, rfl, rfl⟩ := hadv
        refine ⟨acts.length, successionPayload s t, by rw [h.version], by simp, ?_⟩
        rw [List.take_of_length_le (by simp), hstamp]
    · rintro ⟨i, p, rfl, hi, rfl⟩
      by_cases hlt : i < acts.length
      · rw [List.getElem?_append_left hlt] at hi
        exact .inl ⟨i, p, rfl, hi, by rw [List.take_append_of_le_length (by omega)]⟩
      · obtain ⟨hi', he⟩ := List.getElem?_eq_some_iff.1 hi
        obtain rfl : i = acts.length := by simp at hi'; omega
        simp only [List.getElem_concat_length, Act.install.injEq] at he
        obtain ⟨rfl, -⟩ := he
        refine .inr ?_
        rw [List.take_of_length_le (by simp), hstamp, successionReceipt, h.version]
  · by_cases hlt : i < acts.length
    · rw [List.getElem?_append_left hlt] at hi
      exact h.succession i o p hi
    · obtain ⟨hi', he⟩ := List.getElem?_eq_some_iff.1 hi
      obtain rfl : i = acts.length := by simp at hi'; omega
      simp only [List.getElem_concat_length, Act.install.injEq] at he
      obtain ⟨-, rfl⟩ := he
      refine ⟨_, rfl, ?_⟩
      rw [entriesOf]
      simp only [List.foldl_cons, List.foldl_nil]
      exact lookup_putEntry_self _ _ _

theorem stampRecords_eq (s : Session) (payloads : List Term) (version : ℕ) :
    stampRecords s version payloads =
      (entries ⟨s.ownerEpoch, s.ownerIncarnationId⟩ version (payloads.map Act.append)).map
        Record.ofEntry := by
  induction payloads generalizing version with
  | nil => rfl
  | cons p payloads ih => simp [stampRecords, entries, ih, Record.ofEntry, Stamp.after, Act.payload]

/-- A commit appends its payloads under the stamp in force. -/
theorem Session.Journal.append {t : SessionCommit} (h : s.Journal acts)
    (hf : s.resolutions.lookup (t.mutationDomain, T.body.txId) = none) :
    (s.append T t).Journal (acts ++ t.records.map Act.append) := by
  have hstamp : unowned.afterAll (acts ++ t.records.map Act.append) =
      ⟨s.ownerEpoch, s.ownerIncarnationId⟩ := by
    rw [Stamp.afterAll_append, Stamp.afterAll_map_append, h.stamp]
  have hget : ∀ (i : ℕ) (o : Identifier) (p : Term), (acts ++ t.records.map Act.append)[i]? = some (Act.install o p) ↔
      acts[i]? = some (Act.install o p) := by
    intro i o p
    by_cases hlt : i < acts.length
    · rw [List.getElem?_append_left hlt]
    · have hnone : acts[i]? = none := List.getElem?_eq_none_iff.2 (by omega)
      rw [List.getElem?_append_right (by omega), List.getElem?_map, hnone]
      cases t.records[i - acts.length]? <;> simp
  refine ⟨?_, ?_, hstamp, ?_, fun v e o => ?_, fun i o p hi => h.succession i o p ((hget i o p).1 hi)⟩
  · rw [recordsOf, entries_append, List.map_append, h.stamp]
    change s.records ++ stampRecords s (s.journalVersion + 1) t.records = _
    rw [h.records, stampRecords_eq, h.version, Nat.add_comm]
    rfl
  · change s.journalVersion + t.records.length = _
    rw [h.version]
    simp
  · obtain ⟨genesis, rest, rfl⟩ := h.created
    exact ⟨genesis, _, rfl⟩
  · rw [installs_insert rfl hf, h.installs]
    simp only [hget, commitReceipt, Resolution.committed.injEq, reduceCtorEq, or_false]
    constructor
    · rintro ⟨i, p, rfl, hi, rfl⟩
      obtain ⟨hlt, -⟩ := List.getElem?_eq_some_iff.1 hi
      exact ⟨i, p, rfl, hi, by rw [List.take_append_of_le_length (by omega)]⟩
    · rintro ⟨i, p, rfl, hi, rfl⟩
      obtain ⟨hlt, -⟩ := List.getElem?_eq_some_iff.1 hi
      exact ⟨i, p, rfl, hi, by rw [List.take_append_of_le_length (by omega)]⟩

end Steps

/-! ## what the transitions do to the events -/

section Events

variable {s : Session}

theorem eventId_stampEvent (sequence : ℕ) (e : Term) : eventId (stampEvent sequence e) = eventId e := by
  cases e with
  | map kvs =>
    have h : encode (sym "event_id") ≠ encode (sym "event_sequence") := by decide
    simp only [stampEvent, eventId]
    rw [lookup_putEntry_ne h]
  | _ => rfl

theorem eventIds_stampEvents (sequence : ℕ) (es : List Term) :
    eventIds (stampEvents sequence es) = eventIds es := by
  induction es generalizing sequence with
  | nil => rfl
  | cons e es ih =>
    simp only [eventIds, stampEvents, List.filterMap_cons, eventId_stampEvent] at ih ⊢
    rw [ih]

@[simp] theorem stampEvents_length (sequence : ℕ) (es : List Term) :
    (stampEvents sequence es).length = es.length := by
  induction es generalizing sequence with
  | nil => rfl
  | cons e es ih => simp [stampEvents, ih]

theorem stampEvents_getElem? (sequence : ℕ) (es : List Term) (j : ℕ) :
    (stampEvents sequence es)[j]? = es[j]?.map (stampEvent (sequence + j)) := by
  induction es generalizing sequence j with
  | nil => rfl
  | cons e es ih =>
    cases j with
    | zero => rfl
    | succ j =>
      simp only [stampEvents, List.getElem?_cons_succ, ih]
      rw [Nat.add_assoc, Nat.add_comm 1]

/-- A stamped event carries its sequence. -/
theorem stampEvent_sequence {e : Term} {id : Identifier} (h : eventId e = some id) (sequence : ℕ) :
    ∃ kvs, stampEvent sequence e = .map kvs ∧
      lookup (sym "event_sequence") kvs = some (.int (sequence : ℤ)) := by
  cases e with
  | map kvs => exact ⟨_, rfl, lookup_putEntry_self _ _ _⟩
  | _ => cases h

theorem lookup_foldl_insert (ids : List Identifier) (m : Table Identifier Unit) (id : Identifier) :
    ((ids.foldl (fun ids id => ids.insert id ()) m).lookup id).isSome ↔
      (m.lookup id).isSome ∨ id ∈ ids := by
  induction ids generalizing m with
  | nil => simp
  | cons i ids ih =>
    rw [List.foldl_cons, ih]
    by_cases h : id = i
    · subst h
      simp [AList.lookup_insert]
    · rw [AList.lookup_insert_ne h]
      simp [h]

theorem outbox_create (runtimeId : Identifier) (genesis : Term) :
    (Session.create runtimeId genesis).Outbox where
  sequence := rfl
  stamped j e h := by simp [Session.create] at h
  identified e h := by simp [Session.create] at h
  ids_nodup := by simp [Session.create, eventIds]
  keys id := by simp [Session.create, eventIds]

/-- A session with the same events has the same outbox. -/
theorem Session.Outbox.congr {s' : Session} (h : s.Outbox) (hq : s'.eventSequence = s.eventSequence)
    (he : s'.events = s.events) (hi : s'.eventIds = s.eventIds) : s'.Outbox where
  sequence := by rw [hq, he, h.sequence]
  stamped := by rw [he]; exact h.stamped
  identified := by rw [he]; exact h.identified
  ids_nodup := by rw [he]; exact h.ids_nodup
  keys := by rw [he, hi]; exact h.keys

/-- A commit appends its events, whose ids are new and distinct. -/
theorem outbox_append {t : SessionCommit} (h : s.Outbox)
    (hnew : ∀ id ∈ eventIds t.outbox, s.eventIds.lookup id = none) : (s.append T t).Outbox := by
  have hids : eventIds (s.append T t).events = eventIds s.events ++ eventIds t.outbox := by
    have := eventIds_stampEvents (s.eventSequence + 1) t.outbox
    simp only [eventIds, Session.append, List.filterMap_append] at this ⊢
    rw [this]
  have hidentified : ∀ e ∈ t.outbox, ∃ id, eventId e = some id :=
    fun e he => eventId_of_validateItem (t.outbox_valid e he)
  have hevents : (s.append T t).events = s.events ++ stampEvents (s.eventSequence + 1) t.outbox := rfl
  refine ⟨?_, fun j e hj => ?_, fun e he => ?_, ?_, fun id => ?_⟩
  · simp [Session.append, h.sequence]
  · rw [hevents] at hj
    by_cases hlt : j < s.events.length
    · rw [List.getElem?_append_left hlt] at hj
      exact h.stamped j e hj
    · rw [List.getElem?_append_right (by omega), stampEvents_getElem?, Option.map_eq_some_iff] at hj
      obtain ⟨e', he', rfl⟩ := hj
      obtain ⟨id, hid⟩ := hidentified e' (List.mem_of_getElem? he')
      have hseq : s.eventSequence + 1 + (j - s.events.length) = j + 1 := by
        rw [h.sequence]
        omega
      rw [hseq]
      exact stampEvent_sequence hid _
  · rw [hevents] at he
    rcases List.mem_append.1 he with he | he
    · exact h.identified e he
    · obtain ⟨j, hj⟩ := List.getElem?_of_mem he
      rw [stampEvents_getElem?, Option.map_eq_some_iff] at hj
      obtain ⟨e', he', rfl⟩ := hj
      rw [eventId_stampEvent]
      exact hidentified e' (List.mem_of_getElem? he')
  · rw [hids]
    refine List.nodup_append.2 ⟨h.ids_nodup, t.ids_nodup, fun a ha b hb hab => ?_⟩
    subst hab
    have := (h.keys a).2 ha
    rw [hnew a hb] at this
    cases this
  · rw [hids, List.mem_append, ← h.keys]
    change ((((eventIds (stampEvents (s.eventSequence + 1) t.outbox)).foldl
      (fun ids id => ids.insert id ()) s.eventIds)).lookup id).isSome ↔ _
    rw [lookup_foldl_insert, eventIds_stampEvents]

end Events

/-! ## every transition keeps every journal -/

/-- Every session keeps a journal and an outbox. -/
def State.Journals (S : State) : Prop :=
  ∀ id session, S.sessions.lookup id = some session →
    (∃ acts, session.Journal acts) ∧ session.Outbox

/-- A write of one session. -/
theorem State.Journals.put {id : Identifier} {session : Session} (h : S.Journals)
    (hS : S'.sessions = S.sessions.insert id session)
    (hj : (∃ acts, session.Journal acts) ∧ session.Outbox) : S'.Journals := by
  intro i s hs
  rw [hS] at hs
  by_cases hi : i = id
  · rw [hi, AList.lookup_insert] at hs
    cases hs
    exact hj
  · rw [AList.lookup_insert_ne hi] at hs
    exact h i s hs

theorem Moves.journals (h : Moves S T S' resolution records events)
    (hn : S.retainedResolution T.body.scope = none) (hj : S.Journals) : S'.Journals := by
  have hfree : ∀ {id d : Identifier} {session : Session}, T.body.scope = .session id d T.body.txId →
      S.sessions.lookup id = some session → session.resolutions.lookup (d, T.body.txId) = none := by
    intro id d session hs hl
    rw [hs, State.retainedResolution_session, State.scopedResolutions_of_session hl] at hn
    exact hn
  cases h with
  | refuse | claim | reserve | closed | cancel | unreserved | absent => exact hj
  | @create t => exact hj.put rfl ⟨⟨_, journal_create t.runtimeId t.genesis⟩, outbox_create _ _⟩
  | nonCommit scope session_eq =>
    obtain ⟨⟨acts, ha⟩, ho⟩ := hj _ _ session_eq
    exact hj.put rfl ⟨⟨acts, ha.retain rfl rfl rfl rfl rfl (hfree scope session_eq) id⟩,
      ho.congr rfl rfl rfl⟩
  | stage body session_eq =>
    obtain ⟨⟨acts, ha⟩, ho⟩ := hj _ _ session_eq
    exact hj.put rfl ⟨⟨acts, ha.retain rfl rfl rfl rfl rfl (hfree (by rw [body]; rfl) session_eq) id⟩,
      ho.congr rfl rfl rfl⟩
  | succeed body session_eq | resume body session_eq =>
    obtain ⟨⟨acts, ha⟩, ho⟩ := hj _ _ session_eq
    exact hj.put rfl ⟨⟨_, ha.succeed (hfree (by rw [body]; rfl) session_eq)⟩, ho.congr rfl rfl rfl⟩
  | commit body session_eq admitted =>
    obtain ⟨⟨acts, ha⟩, ho⟩ := hj _ _ session_eq
    exact hj.put rfl ⟨⟨_, ha.append (hfree (by rw [body]; rfl) session_eq)⟩,
      outbox_append ho (ordinaryRefusal_eq_none.1 admitted).2.2.2⟩

theorem Reachable.journals (h : Reachable access S) : S.Journals :=
  h.invariant (fun _ _ hl => by simp [State.new] at hl) fun _ _ _ _ _ _ hj _ hn hm => hm.journals hn hj

/-! ## the columns -/

namespace Session

variable {s : Session} {acts : History}

/-- The pair installed by the latest succession at or before a version, or the pair a session starts
with. -/
def InForce (s : Session) (version epoch : ℕ) (owner : Option Identifier) : Prop :=
  (epoch = 0 ∧ owner = none ∧ ∀ v e o, v ≤ version → ¬ s.Installs v e o) ∨
    ∃ v o, owner = some o ∧ v ≤ version ∧ s.Installs v epoch o ∧
      ∀ v' e' o', v < v' → v' ≤ version → ¬ s.Installs v' e' o'

/-- The columns of a journal and of an outbox. -/
structure Columns (s : Session) : Prop where
  version : s.journalVersion = s.records.length
  versions : ∀ i r, s.records[i]? = some r → r.journalVersion = i + 1
  sequence : s.eventSequence = s.events.length
  sequences : ∀ j e, s.events[j]? = some e →
    ∃ kvs, e = .map kvs ∧ lookup (sym "event_sequence") kvs = some (.int ((j + 1 : ℕ) : ℤ))
  identified : ∀ e ∈ s.events, ∃ id, eventId e = some id
  ids_nodup : (Loopex.Store.eventIds s.events).Nodup
  ids_keys : ∀ id, (s.eventIds.lookup id).isSome ↔ id ∈ Loopex.Store.eventIds s.events
  monotone : s.records.Pairwise fun r r' => r.ownerEpoch ≤ r'.ownerEpoch
  rises : ∀ i r r' e o, s.records[i]? = some r → s.records[i + 1]? = some r' →
    s.Installs (i + 2) e o → r'.ownerEpoch = r.ownerEpoch + 1
  stays : ∀ i r r', s.records[i]? = some r → s.records[i + 1]? = some r' →
    (∀ e o, ¬ s.Installs (i + 2) e o) → r'.ownerEpoch = r.ownerEpoch
  stamped : ∀ i r, s.records[i]? = some r → s.InForce (i + 1) r.ownerEpoch r.ownerIncarnationId
  succession : ∀ v e o, s.Installs v e o → ∃ r, s.records[v - 1]? = some r ∧ IsSuccession r.payload
  current : s.InForce s.journalVersion s.ownerEpoch s.ownerIncarnationId

theorem Journal.getElem? (h : s.Journal acts) (i : ℕ) : s.records[i]? = acts[i]?.map fun a =>
    ⟨i + 1, (unowned.afterAll (acts.take (i + 1))).epoch, (unowned.afterAll (acts.take (i + 1))).owner,
      a.payload⟩ := by
  rw [h.records, recordsOf, List.getElem?_map, entries_getElem?]
  cases acts[i]? with
  | none => rfl
  | some a => simp [Record.ofEntry, Nat.add_comm]

theorem installs_iff_owner (h : s.Journal acts) (i : ℕ) :
    (∃ e o, s.Installs (i + 1) e o) ↔ (acts[i]?.bind Act.owner?) ≠ none := by
  constructor
  · rintro ⟨e, o, ho⟩
    obtain ⟨j, p, hj, hp, -⟩ := (h.installs _ _ _).1 ho
    obtain rfl : i = j := by omega
    simp [hp, Act.owner?]
  · intro hne
    cases ha : acts[i]? with
    | none => simp [ha] at hne
    | some a =>
      cases a with
      | install o p => exact ⟨_, o, (h.installs _ _ _).2 ⟨i, p, rfl, ha, rfl⟩⟩
      | append p => simp [ha, Act.owner?] at hne

/-- The stamp after a part of the history is the one in force. -/
theorem Journal.inForce (h : s.Journal acts) (n : ℕ) :
    s.InForce n (unowned.afterAll (acts.take n)).epoch (unowned.afterAll (acts.take n)).owner := by
  have hnone : ∀ v, 0 < v → (acts[v - 1]?.bind Act.owner?) = none → ∀ e o, ¬ s.Installs v e o := by
    intro v hv hn e o ho
    have := (installs_iff_owner h (v - 1)).1 ⟨e, o, by rwa [Nat.sub_add_cancel hv]⟩
    exact this hn
  have hpos : ∀ v e o, s.Installs v e o → 0 < v := by
    intro v e o ho
    obtain ⟨i, p, rfl, -⟩ := (h.installs _ _ _).1 ho
    omega
  rcases afterAll_latest (s := unowned) acts n with ⟨hs, hv⟩ | ⟨v, owner, hv, ho, hs, hl⟩
  · rw [hs]
    exact .inl ⟨rfl, rfl, fun v e o hle hi =>
      hnone v (hpos v e o hi) (hv (v - 1) (by have := hpos v e o hi; omega)) e o hi⟩
  · rw [hs]
    refine .inr ⟨v + 1, owner, rfl, hv, ?_, fun v' e' o' hlt hle hi => ?_⟩
    · cases ha : acts[v]? with
      | none => simp [ha] at ho
      | some a =>
        cases a with
        | install o p =>
          obtain rfl : o = owner := by simpa [ha, Act.owner?] using ho
          exact (h.installs _ _ _).2 ⟨v, p, rfl, ha, rfl⟩
        | append p => simp [ha, Act.owner?] at ho
    · exact hnone v' (by omega) (hl (v' - 1) (by omega) (by omega)) e' o' hi

/-- **The columns of a session that keeps a journal and an outbox.** -/
theorem Journal.columns (h : s.Journal acts) (ho : s.Outbox) : s.Columns := by
  have hlen : s.records.length = acts.length := by simp [h.records, recordsOf]
  have hepoch : ∀ i r, s.records[i]? = some r →
      r.ownerEpoch = (unowned.afterAll (acts.take (i + 1))).epoch := by
    intro i r hr
    rw [h.getElem?, Option.map_eq_some_iff] at hr
    obtain ⟨a, -, rfl⟩ := hr
    rfl
  have hstep : ∀ i r r', s.records[i]? = some r → s.records[i + 1]? = some r' →
      ∃ a, acts[i + 1]? = some a ∧
        r'.ownerEpoch = ((unowned.afterAll (acts.take (i + 1))).after a).epoch := by
    intro i r r' _ hr'
    have he := hepoch (i + 1) r' hr'
    rw [h.getElem?, Option.map_eq_some_iff] at hr'
    obtain ⟨a, ha, -⟩ := hr'
    exact ⟨a, ha, by rw [he, afterAll_take_succ ha]⟩
  refine ⟨by rw [h.version, hlen], fun i r hr => ?_, ho.sequence, ho.stamped, ho.identified, ho.ids_nodup,
    ho.keys, ?_, fun i r r' e o hr hr' hi => ?_, fun i r r' hr hr' hi => ?_, fun i r hr => ?_,
    fun v e o hi => ?_, ?_⟩
  · rw [h.getElem?, Option.map_eq_some_iff] at hr
    obtain ⟨a, -, rfl⟩ := hr
    rfl
  · refine List.pairwise_iff_getElem.2 fun i j hi hj hij => ?_
    rw [hepoch i _ (List.getElem?_eq_getElem hi), hepoch j _ (List.getElem?_eq_getElem hj), afterAll_epoch,
      afterAll_epoch]
    have hsub : (acts.take (i + 1)).Sublist (acts.take (j + 1)) :=
      (List.take_prefix_take_left (by omega)).sublist
    have := hsub.countP_le (p := fun a => a.owner?.isSome)
    omega
  · obtain ⟨a, ha, he⟩ := hstep i r r' hr hr'
    obtain ⟨j, p, hj, hp, -⟩ := (h.installs _ _ _).1 hi
    obtain rfl : i + 1 = j := by omega
    rw [ha] at hp
    cases hp
    rw [he, hepoch i r hr]
    rfl
  · obtain ⟨a, ha, he⟩ := hstep i r r' hr hr'
    have hnone : ¬ ∃ e o, s.Installs (i + 1 + 1) e o := fun ⟨e, o, h⟩ => hi e o h
    rw [installs_iff_owner h, not_not, ha] at hnone
    cases a with
    | install o p => cases hnone
    | append p =>
      rw [he, hepoch i r hr]
      rfl
  · rw [h.getElem?, Option.map_eq_some_iff] at hr
    obtain ⟨a, -, rfl⟩ := hr
    exact h.inForce (i + 1)
  · obtain ⟨i, p, rfl, hp, -⟩ := (h.installs _ _ _).1 hi
    refine ⟨_, by rw [Nat.add_sub_cancel, h.getElem?, hp]; rfl, h.succession i o p hp⟩
  · have := h.inForce acts.length
    rwa [List.take_length, h.stamp, ← h.version] at this

end Session

/-- A committed session transaction names the stamp in force. -/
theorem fenced {t : SessionCommit} {receipt : Receipt} (hr : Reachable access S)
    (h : Moves S T S' (.committed receipt) records events) (hb : T.body = .sessionCommit t) :
    ∃ session, S.sessions.lookup t.sessionId = some session ∧
      session.InForce session.journalVersion t.expectedOwnerEpoch (some t.expectedOwnerIncarnationId) := by
  cases h with
  | commit body session_eq admitted =>
    rw [hb] at body
    cases body
    obtain ⟨h1, h2, -⟩ := ordinaryRefusal_eq_none.1 admitted
    obtain ⟨⟨acts, hj⟩, ho⟩ := hr.journals _ _ session_eq
    refine ⟨_, session_eq, ?_⟩
    rw [h1, h2]
    exact (hj.columns ho).current
  | claim body | reserve body | closed body | cancel body | create body | stage body | succeed body
  | resume body => rw [hb] at body; cases body

/-- **Every journal is well shaped, and its writers are fenced**: a session transaction commits only under
the epoch and the incarnation that the latest committed succession installed. -/
theorem journal_shape (hr : Reachable access S) :
    (∀ id session, S.sessions.lookup id = some session → session.Columns) ∧
      ∀ kvs fuel S' frame txId receipt T t, validateTransaction (.map kvs) = .ok T →
        T.body = .sessionCommit t →
        prepare access fuel S kvs = .ok (.new S' frame (.committed txId receipt)) →
        ∃ session, S.sessions.lookup t.sessionId = some session ∧
          session.InForce session.journalVersion t.expectedOwnerEpoch
            (some t.expectedOwnerIncarnationId) := by
  refine ⟨fun id session hl => ?_, fun kvs fuel S' frame txId receipt T t hT hb h => ?_⟩
  · obtain ⟨⟨acts, hj⟩, ho⟩ := hr.journals id session hl
    exact hj.columns ho
  · obtain ⟨T', resolution, records, events, hT', -, hm, -, hout⟩ := prepare_new h
    rw [hT] at hT'
    cases hT'
    cases resolution with
    | committed receipt' => exact fenced hr hm hb
    | notCommitted reason => cases hout

/-- Every journal of an opened session is well shaped. -/
theorem journal_shape_opened : ∃ session, Opening.bare.opened.sessions.lookup Opening.bare.sessionId = some session ∧
    session.Columns :=
  ⟨_, Opening.bare.opened_session,
    (journal_shape (Opening.bare.reachable_opened : Reachable noAccess _)).1 _ _
      Opening.bare.opened_session⟩

/-! ## a record that only looks like a succession -/

section Forged

/-- The payload `%{kind: "owner_advanced"}`. -/
def forgedPayload : Term := mapOf [(sym "kind", str "owner_advanced")]

variable (o : Opening)

/-- A commit of that payload by the first owner of a session. -/
def forge (domain owner forgeId : Identifier) : SessionCommit where
  sessionId := o.sessionId
  mutationDomain := domain
  txId := forgeId
  expectedOwnerEpoch := 1
  expectedOwnerIncarnationId := owner
  expectedJournalVersion := 2
  records := [forgedPayload]
  outbox := []
  records_ne := by simp
  records_valid := by
    simp only [List.forall_mem_singleton]
    decide
  outbox_valid := by simp
  ids_nodup := by simp [eventIds]

theorem forge_fits (domain owner forgeId : Identifier) :
    (encodeFields (Body.sessionCommit (forge o domain owner forgeId)).fields).length ≤ maxMutationBytes := by
  have hint : ∀ n : ℕ, n ≤ 2 → (encode (.int n)).length ≤ 70000 := fun n hn =>
    encode_counter_le (hn.trans (by decide))
  have hlists : (encode (.list [forgedPayload])).length ≤ 70000 ∧ (encode (.list [])).length ≤ 70000 := by
    decide
  refine Body.fits ?_
  simp only [Body.values, forge, List.forall_mem_cons]
  exact ⟨encode_identifier_le _, encode_identifier_le _, encode_identifier_le _, hint 1 (by decide),
    encode_identifier_le _, hint 2 le_rfl, hlists.1, hlists.2, by simp⟩

/-- **A committed record may look like a succession** and leave the epoch as it was. -/
theorem forged_record (domain owner txId forgeId : Identifier) (hne : forgeId ≠ txId) : ∃ S, Reachable access S ∧
    ∃ session r r', S.sessions.lookup o.sessionId = some session ∧ session.records[1]? = some r ∧
      session.records[2]? = some r' ∧ r'.ownerIncarnationId = some owner ∧ r'.payload = forgedPayload ∧
      Session.IsSuccession r'.payload ∧ r'.ownerEpoch = r.ownerEpoch := by
  have hl := o.owned_session domain txId owner
  have hn : ((o.owned domain txId owner).scopedResolutions o.sessionId).lookup (domain, forgeId) = none := by
    rw [State.scopedResolutions_of_session hl]
    exact (AList.lookup_insert_ne fun h => hne (congrArg Prod.snd h)).trans rfl
  have hstep : Presents access (o.owned domain txId owner) _ _ :=
    presents_commit (T := .seal (.sessionCommit (forge o domain owner forgeId))) (t := forge o domain owner forgeId) rfl
      (build_seal (forge_fits o domain owner forgeId)) ⟨by simp [forge, maxItems], by simp [forge, maxItems], rfl⟩
      (State.retainedResolution_session.2 hn) hl
      (ordinaryRefusal_eq_none.2 ⟨rfl, rfl, rfl, by simp [forge, Loopex.Store.eventIds]⟩)
  exact ⟨_, (o.reachable_owned domain txId owner).run (.one hstep), _, _, _, AList.lookup_insert _, rfl, rfl,
    rfl, rfl, ⟨_, rfl, by decide⟩, rfl⟩

end Forged

/-- A reachable journal holds a record of the kind of a succession whose epoch did not rise. -/
theorem journal_shape_forged : ∃ S, Reachable noAccess S ∧ ∃ id session r r',
    S.sessions.lookup id = some session ∧ session.records[1]? = some r ∧ session.records[2]? = some r' ∧
      Session.IsSuccession r'.payload ∧ r'.ownerEpoch = r.ownerEpoch := by
  obtain ⟨S, hr, session, r, r', hl, h1, h2, -, -, h⟩ := forged_record Opening.bare
    ⟨utf8 "d", by decide, by decide⟩ ⟨utf8 "o", by decide, by decide⟩ ⟨utf8 "t", by decide, by decide⟩ ⟨utf8 "u", by decide, by decide⟩ (by decide)
  exact ⟨S, hr, _, session, r, r', hl, h1, h2, h⟩

end Loopex.Store
