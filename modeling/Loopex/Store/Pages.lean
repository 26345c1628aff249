import Loopex.Store.Observations
import Loopex.Store.Normalizer
import Loopex.System.Paging

/-!
# Pages of a journal

A page of the committed records or of the public events of a session, as the Store reads it and as the port checks it.

* `State.loadRecords`, `State.loadEvents` — the pages of the Store
* `loadRecords`, `loadEvents` — what the port makes of them
* `State.Payloads` — a payload is its own normal form, and so is an event without its stamp
* `pages_accepted` — **the port accepts every page of a reachable Store**
-/

namespace Loopex.Store

open Loopex.Erlang Loopex.Erlang.Term Loopex.Runtime Loopex.System

variable {access : StructAccess} {S S' : State} {T : Transaction} {resolution : Resolution} {records : List Record}
  {events : List Term} {kvs : List (Term × Term)} {presented : List (List (Term × Term))} {id : Identifier}

/-! ## the pages of the Store -/

def State.recordsOf (S : State) (sessionId : Identifier) : List Record :=
  match S.sessions.lookup sessionId with
  | some session => session.records
  | none => []

def State.eventsOf (S : State) (sessionId : Identifier) : List Term :=
  match S.sessions.lookup sessionId with
  | some session => session.events
  | none => []

/-- `load_records`. -/
def State.loadRecords (S : State) (sessionId : Identifier) (afterVersion limit : ℕ) : List Record :=
  ((S.recordsOf sessionId).filter fun row => decide (afterVersion < row.journalVersion)).take limit

/-- `Map.fetch!(event, :event_sequence)`, an integer. -/
def eventSequence : Term → Option ℤ
  | .map kvs =>
    match lookup (sym "event_sequence") kvs with
    | some (.int n) => some n
    | _ => none
  | _ => none

/-- `load_events`; `none` if an event has no stamp to compare, which raises. -/
def State.loadEvents (S : State) (sessionId : Identifier) (afterSequence limit : ℕ) : Option (List Term) :=
  if (S.eventsOf sessionId).all fun event => (eventSequence event).isSome then
    some (((S.eventsOf sessionId).filter fun event =>
      decide ((afterSequence : ℤ) < (eventSequence event).getD 0)).take limit)
  else none

/-! ## the port -/

/-- What a page is refused for. -/
inductive PageError where
  | invalidPage | invalidStorePage | unavailable
  deriving DecidableEq

/-- `{:ok, normalized} <- normalize(item), true <- normalized == item`. -/
def normalItem (plane : Plane) (item : Term) : Bool :=
  match normalizeMeasuredRoot plane item with
  | .ok normalized => looseEq normalized item
  | .error _ => false

/-- `validate_private_rows`. -/
def validatePrivateRows : List Record → ℕ → Bool
  | [], _ => true
  | row :: rest, prior =>
    row.journalVersion = prior + 1 && isMap row.payload && normalItem .record row.payload &&
      validatePrivateRows rest row.journalVersion

/-- `validate_event_rows`. -/
def validateEventRows : List Term → ℕ → Bool
  | [], _ => true
  | row :: rest, prior =>
    match row with
    | .map kvs =>
      ((lookup (sym "event_sequence") kvs).any fun t => looseEq t (.int (prior + 1 : ℕ))) &&
        normalItem .event (.map (deleteKey (sym "event_sequence") kvs)) && validateEventRows rest (prior + 1)
    | _ => false

/-- `validate_page`. -/
def validatePage (limit : ℕ) : Bool := 0 < limit && limit ≤ maxItems

theorem validatePage_iff {limit : ℕ} : validatePage limit = true ↔ 0 < limit ∧ limit ≤ maxItems := by
  simp [validatePage]

/-- `Store.load_records`; a Store that does not answer is `none`. -/
def loadRecords (store : Option State) (sessionId : Identifier) (afterVersion limit : ℕ) :
    Except PageError (List Record) :=
  if validatePage limit then
    match store with
    | none => .error .unavailable
    | some S =>
      let rows := S.loadRecords sessionId afterVersion limit
      if rows.length ≤ limit && validatePrivateRows rows afterVersion then .ok rows else .error .invalidStorePage
  else .error .invalidPage

/-- `Store.load_events`. -/
def loadEvents (store : Option State) (sessionId : Identifier) (afterSequence limit : ℕ) :
    Except PageError (List Term) :=
  if validatePage limit then
    match store.bind fun S => S.loadEvents sessionId afterSequence limit with
    | none => .error .unavailable
    | some rows =>
      if rows.length ≤ limit && validateEventRows rows afterSequence then .ok rows else .error .invalidStorePage
  else .error .invalidPage

/-! ## the payload of a succession -/

theorem length_foldl_putEntry_le (kvs acc : List (Term × Term)) :
    (kvs.foldl (fun acc e => putEntry e.1 e.2 acc) acc).length ≤ kvs.length + acc.length := by
  induction kvs generalizing acc with
  | nil => simp
  | cons e kvs ih =>
    have hput := length_putEntry_le e.1 e.2 acc
    have hrest := ih (putEntry e.1 e.2 acc)
    rw [List.foldl_cons, List.length_cons]
    omega

/-- The members of a succession's payload, without its kind. -/
def successionMembers (session : Session) (t : AdvanceOwner) : List (Term × Term) :=
  entriesOf [(str "prior_owner_epoch", .int session.ownerEpoch), (str "owner_epoch", .int (session.ownerEpoch + 1)),
    (str "owner_incarnation_id", t.proposedOwnerIncarnationId.term), (str "owner_transaction_id", t.txId.term)]

theorem successionPayload_eq (session : Session) (t : AdvanceOwner) : successionPayload session t =
    .map (putEntry (sym "kind") (.binary (utf8 "owner_advanced")) (successionMembers session t)) := rfl

theorem normalizeMeasuredRoot_succession (session : Session) (t : AdvanceOwner) :
    normalizeMeasuredRoot .record (successionPayload session t) = .ok (successionPayload session t) := by
  have hmem : ∀ e ∈ successionMembers session t, ∃ name ∈ ["prior_owner_epoch", "owner_epoch", "owner_incarnation_id",
      "owner_transaction_id"], e.1 = str name ∧ ((∃ n, e.2 = .int n) ∨ ∃ b, e.2 = .binary b) := by
    intro e he
    have he := mem_entriesOf he
    simp only [List.mem_cons, List.not_mem_nil, or_false] at he
    rcases he with rfl | rfl | rfl | rfl
    · exact ⟨_, by simp, rfl, .inl ⟨_, rfl⟩⟩
    · exact ⟨_, by simp, rfl, .inl ⟨_, rfl⟩⟩
    · exact ⟨_, by simp, rfl, .inr ⟨_, rfl⟩⟩
    · exact ⟨_, by simp, rfl, .inr ⟨_, rfl⟩⟩
  have hvalue : ∀ e ∈ successionMembers session t, measuredValue .record e.2 1 = .ok e.2 := by
    intro e he
    obtain ⟨-, -, -, ⟨n, hn⟩ | ⟨b, hb⟩⟩ := hmem e he
    · rw [hn]
      simp [measuredValue, maxDepth]
    · rw [hb]
      simp [measuredValue, maxDepth]
  have hparts : RootParts .record (successionMembers session t) ["kind"] := by
    refine ⟨⟨ordered_entriesOf _, fun e he => ?_⟩, fun e he name hname => ?_⟩
    · obtain ⟨name, hname, hkey, -⟩ := hmem e he
      refine ⟨?_, ?_, hvalue e he⟩
      · rw [KeyNorm, memberName, hkey]
        clear hkey
        revert name
        decide
      · rw [memberName, hkey]
        rfl
    · obtain ⟨name', hname', hkey, -⟩ := hmem e he
      obtain rfl : name = "kind" := by simpa using hname
      rw [hkey]
      simp only [List.mem_cons, List.not_mem_nil, or_false] at hname'
      rcases hname' with rfl | rfl | rfl | rfl <;> decide
  have hlen : (successionMembers session t).length + 1 ≤ maxItems := by
    have hle := length_foldl_putEntry_le [(str "prior_owner_epoch", .int session.ownerEpoch),
      (str "owner_epoch", .int (session.ownerEpoch + 1)),
      (str "owner_incarnation_id", t.proposedOwnerIncarnationId.term), (str "owner_transaction_id", t.txId.term)] []
    exact (Nat.succ_le_succ hle).trans (by simp [maxItems])
  rw [successionPayload_eq, normalizeMeasuredRoot_eq_ok]
  refine ⟨_, rfl, lookup_struct fun e he => ?_, measuredRoot_record hparts (by decide) hlen⟩
  rcases mem_putEntry he with rfl | he
  · decide
  · obtain ⟨name, -, hkey, -⟩ := hmem e he
    rw [hkey]
    simp [str, sym]

/-! ## what a journal carries -/

/-- Every payload is its own normal form, and every event is a stamped one that is. -/
def State.Payloads (S : State) : Prop :=
  ∀ id session, S.sessions.lookup id = some session →
    (∀ r ∈ session.records, normalizeMeasuredRoot .record r.payload = .ok r.payload) ∧
      ∀ e ∈ session.events, ∃ sequence event, normalizeMeasuredRoot .event event = .ok event ∧
        e = stampEvent sequence event

theorem mem_stampRecords {session : Session} {payloads : List Term} {version : ℕ} {r : Record}
    (h : r ∈ stampRecords session version payloads) : r.payload ∈ payloads := by
  induction payloads generalizing version with
  | nil => cases h
  | cons payload payloads ih =>
    rcases List.mem_cons.1 h with rfl | h
    · exact List.mem_cons_self ..
    · exact List.mem_cons_of_mem _ (ih h)

theorem mem_stampEvents {es : List Term} {sequence : ℕ} {e : Term} (h : e ∈ stampEvents sequence es) :
    ∃ n, ∃ event ∈ es, e = stampEvent n event := by
  induction es generalizing sequence with
  | nil => cases h
  | cons event es ih =>
    rcases List.mem_cons.1 h with rfl | h
    · exact ⟨_, event, List.mem_cons_self .., rfl⟩
    · obtain ⟨n, event', hmem, rfl⟩ := ih h
      exact ⟨n, event', List.mem_cons_of_mem _ hmem, rfl⟩

theorem Moves.payloads (h : Moves S T S' resolution records events) (hp : S.Payloads) : S'.Payloads := by
  have hput : ∀ {R : State} {id : Identifier} {s s' : Session}, R.sessions = S.sessions.insert id s' →
      S.sessions.lookup id = some s →
      (∀ r ∈ s'.records, r ∈ s.records ∨ normalizeMeasuredRoot .record r.payload = .ok r.payload) →
      (∀ e ∈ s'.events, e ∈ s.events ∨ ∃ sequence event, normalizeMeasuredRoot .event event = .ok event ∧
        e = stampEvent sequence event) → R.Payloads := by
    intro R id s s' hR hl hr he i u hu
    rw [hR] at hu
    by_cases hi : i = id
    · subst hi
      rw [AList.lookup_insert] at hu
      cases hu
      exact ⟨fun r hm => (hr r hm).elim ((hp _ _ hl).1 r) id, fun e hm => (he e hm).elim ((hp _ _ hl).2 e) id⟩
    · rw [AList.lookup_insert_ne hi] at hu
      exact hp _ _ hu
  cases h with
  | refuse | claim | reserve | closed | cancel | unreserved | absent => exact hp
  | @create t c sessionId number body =>
    intro i u hu
    change (S.sessions.insert sessionId (Session.create t.runtimeId t.genesis)).lookup i = some u at hu
    by_cases hi : i = sessionId
    · subst hi
      rw [AList.lookup_insert] at hu
      cases hu
      refine ⟨fun r hm => ?_, fun e hm => by cases hm⟩
      obtain rfl := List.mem_singleton.1 hm
      exact (validateItem_eq_ok.1 t.valid).1
    · rw [AList.lookup_insert_ne hi] at hu
      exact hp _ _ hu
  | nonCommit scope session_eq => exact hput rfl session_eq (fun _ => .inl) fun _ => .inl
  | stage body session_eq => exact hput rfl session_eq (fun _ => .inl) fun _ => .inl
  | @succeed t s body session_eq =>
    refine hput rfl session_eq (fun r hm => ?_) fun _ => .inl
    rcases List.mem_append.1 hm with hm | hm
    · exact .inl hm
    · obtain rfl := List.mem_singleton.1 hm
      exact .inr (normalizeMeasuredRoot_succession s t)
  | @resume t s c command status generation candidate result body session_eq =>
    refine hput rfl session_eq (fun r hm => ?_) fun _ => .inl
    rcases List.mem_append.1 hm with hm | hm
    · exact .inl hm
    · obtain rfl := List.mem_singleton.1 hm
      exact .inr (normalizeMeasuredRoot_succession s t)
  | @commit t s body session_eq =>
    refine hput rfl session_eq (fun r hm => ?_) fun e hm => ?_
    · rcases List.mem_append.1 hm with hm | hm
      · exact .inl hm
      · exact .inr (validateItem_eq_ok.1 (t.records_valid _ (mem_stampRecords hm))).1
    · rcases List.mem_append.1 hm with hm | hm
      · exact .inl hm
      · obtain ⟨n, event, hmem, rfl⟩ := mem_stampEvents hm
        exact .inr ⟨n, event, (validateItem_eq_ok.1 (t.outbox_valid _ hmem)).1, rfl⟩

theorem Reachable.payloads (h : Reachable access S) : S.Payloads :=
  h.invariant (fun _ _ hl => by simp [State.new] at hl) fun _ _ _ _ _ _ hp _ _ hm => hm.payloads hp

/-! ## the port accepts -/

theorem normalItem_of_normal {plane : Plane} {item : Term} (h : normalizeMeasuredRoot plane item = .ok item) :
    normalItem plane item = true := by
  rw [normalItem, h]
  exact looseEq_self item

theorem isMap_of_normal {plane : Plane} {item : Term} (h : normalizeMeasuredRoot plane item = .ok item) :
    isMap item = true := by
  obtain ⟨kvs, rfl, -⟩ := normalizeMeasuredRoot_eq_ok.1 h
  rfl

theorem validatePrivateRows_of_numbered {rows : List Record} {prior : ℕ}
    (hn : ∀ i row, rows[i]? = some row → row.journalVersion = prior + i + 1)
    (hp : ∀ row ∈ rows, normalizeMeasuredRoot .record row.payload = .ok row.payload) :
    validatePrivateRows rows prior = true := by
  induction rows generalizing prior with
  | nil => rfl
  | cons row rows ih =>
    have hrow : row.journalVersion = prior + 1 := hn 0 row rfl
    have hpayload := hp row (List.mem_cons_self ..)
    have hrest : validatePrivateRows rows (prior + 1) = true := by
      refine ih (fun i r hr => ?_) fun r hr => hp r (List.mem_cons_of_mem _ hr)
      rw [hn (i + 1) r (by simpa using hr)]
      omega
    simp only [validatePrivateRows, hrow, isMap_of_normal hpayload, normalItem_of_normal hpayload, hrest,
      decide_true, Bool.and_self]

/-- An event without its stamp is the event that was stamped. -/
theorem unstamped {event : Term} {sequence : ℕ} {kvs : List (Term × Term)}
    (h : normalizeMeasuredRoot .event event = .ok event) (hs : stampEvent sequence event = .map kvs) :
    .map (deleteKey (sym "event_sequence") kvs) = event := by
  obtain ⟨kvs', rfl, -, hm⟩ := normalizeMeasuredRoot_eq_ok.1 h
  obtain ⟨v, kind, id, rest, withoutKind, ms, -, -, -, hms, heq⟩ := measuredRoot_spec hm
  cases hs
  rw [deleteKey_putEntry]
  intro e he
  cases heq
  have hkind : encode (sym "kind") ≠ encode (sym "event_sequence") := by decide
  have hid : encode (sym "event_id") ≠ encode (sym "event_sequence") := by decide
  rcases mem_putEntry he with rfl | he
  · exact hkind
  · simp only [requiredOf, List.foldl_cons, List.foldl_nil] at he
    rcases mem_putEntry he with rfl | he
    · exact hid
    · obtain ⟨e', -, ⟨b, -, hb⟩, -⟩ := hms.mem (mem_entriesOf he)
      rw [hb]
      exact encode_binary_ne_atom

theorem validateEventRows_of_numbered {rows : List Term} {prior : ℕ}
    (hn : ∀ i row, rows[i]? = some row → ∃ kvs, row = .map kvs ∧
      lookup (sym "event_sequence") kvs = some (.int ((prior + i + 1 : ℕ) : ℤ)))
    (hp : ∀ row ∈ rows, ∃ sequence event, normalizeMeasuredRoot .event event = .ok event ∧
      row = stampEvent sequence event) : validateEventRows rows prior = true := by
  induction rows generalizing prior with
  | nil => rfl
  | cons row rows ih =>
    obtain ⟨kvs, rfl, hsequence⟩ := hn 0 row rfl
    obtain ⟨sequence, event, hnormal, hstamp⟩ := hp _ (List.mem_cons_self ..)
    have hrest : validateEventRows rows (prior + 1) = true := by
      refine ih (fun i r hr => ?_) fun r hr => hp r (List.mem_cons_of_mem _ hr)
      obtain ⟨kvs', hr, hs⟩ := hn (i + 1) r (by simpa using hr)
      refine ⟨kvs', hr, ?_⟩
      rw [hs]
      congr 2
      omega
    have hitem := unstamped hnormal hstamp.symm
    simp only [validateEventRows, hsequence, Nat.add_zero, Option.any_some, looseEq_self, hitem,
      normalItem_of_normal hnormal, hrest, Bool.and_self]

/-! ## the pages of a reachable Store -/

theorem Reachable.numbered_records (h : Reachable access S) (id : Identifier) :
    Numbered Record.journalVersion (S.recordsOf id) := by
  intro i row hi
  unfold State.recordsOf at hi
  cases hl : S.sessions.lookup id with
  | none => simp [hl] at hi
  | some session =>
    rw [hl] at hi
    obtain ⟨⟨acts, hj⟩, ho⟩ := h.journals _ _ hl
    exact (hj.columns ho).versions i row hi

theorem Reachable.stamped_events (h : Reachable access S) (id : Identifier) (j : ℕ) (e : Term)
    (hj : (S.eventsOf id)[j]? = some e) :
    ∃ kvs, e = .map kvs ∧ lookup (sym "event_sequence") kvs = some (.int ((j + 1 : ℕ) : ℤ)) := by
  unfold State.eventsOf at hj
  cases hl : S.sessions.lookup id with
  | none => simp [hl] at hj
  | some session =>
    rw [hl] at hj
    exact (h.journals _ _ hl).2.stamped j e hj

theorem eventSequence_of_stamped {e : Term} {n : ℤ}
    (h : ∃ kvs, e = .map kvs ∧ lookup (sym "event_sequence") kvs = some (.int n)) : eventSequence e = some n := by
  obtain ⟨kvs, rfl, hl⟩ := h
  rw [eventSequence, hl]

/-- The pages of a reachable Store are pieces of its logs. -/
theorem Reachable.loadRecords (h : Reachable access S) (id : Identifier) (after limit : ℕ) :
    S.loadRecords id after limit = page (S.recordsOf id) after limit := by
  rw [State.loadRecords, filter_numbered (h.numbered_records id), page]

theorem Reachable.loadEvents (h : Reachable access S) (id : Identifier) (after limit : ℕ) :
    S.loadEvents id after limit = some (page (S.eventsOf id) after limit) := by
  have hstamp := h.stamped_events id
  have hall : ((S.eventsOf id).all fun event => (eventSequence event).isSome) = true := by
    refine List.all_eq_true.2 fun e he => ?_
    obtain ⟨j, hj⟩ := List.getElem?_of_mem he
    rw [eventSequence_of_stamped (hstamp j e hj)]
    rfl
  have hnumbered : Numbered (fun e => ((eventSequence e).getD 0).toNat) (S.eventsOf id) := by
    intro j e hj
    simp [eventSequence_of_stamped (hstamp j e hj)]
  have hfilter : (fun event => decide ((after : ℤ) < (eventSequence event).getD 0)) =
      fun event => decide (after < ((eventSequence event).getD 0).toNat) := by
    funext event
    rw [decide_eq_decide]
    omega
  rw [State.loadEvents, if_pos hall, hfilter, filter_numbered hnumbered, page]

theorem Reachable.payloads_records (h : Reachable access S) (id : Identifier) :
    ∀ r ∈ S.recordsOf id, normalizeMeasuredRoot .record r.payload = .ok r.payload := by
  intro r hr
  unfold State.recordsOf at hr
  cases hl : S.sessions.lookup id with
  | none => simp [hl] at hr
  | some session =>
    rw [hl] at hr
    exact (h.payloads _ _ hl).1 r hr

theorem Reachable.payloads_events (h : Reachable access S) (id : Identifier) :
    ∀ e ∈ S.eventsOf id, ∃ sequence event, normalizeMeasuredRoot .event event = .ok event ∧
      e = stampEvent sequence event := by
  intro e he
  unfold State.eventsOf at he
  cases hl : S.sessions.lookup id with
  | none => simp [hl] at he
  | some session =>
    rw [hl] at he
    exact (h.payloads _ _ hl).2 e he

theorem Reachable.load_records_ok (h : Reachable access S) (id : Identifier) (after : ℕ) {limit : ℕ}
    (hl : validatePage limit = true) :
    Store.loadRecords (some S) id after limit = .ok (page (S.recordsOf id) after limit) := by
  have hrows : validatePrivateRows (page (S.recordsOf id) after limit) after = true :=
    validatePrivateRows_of_numbered
      (fun i row hi => by rw [h.numbered_records id _ row (getElem?_page hi)])
      fun row hr => h.payloads_records id row (mem_of_mem_page hr)
  have hlen := length_page_le (S.recordsOf id) after limit
  simp only [Store.loadRecords, hl, h.loadRecords, hrows, hlen, decide_true, Bool.and_self, if_true]

theorem Reachable.load_events_ok (h : Reachable access S) (id : Identifier) (after : ℕ) {limit : ℕ}
    (hl : validatePage limit = true) :
    Store.loadEvents (some S) id after limit = .ok (page (S.eventsOf id) after limit) := by
  have hrows : validateEventRows (page (S.eventsOf id) after limit) after = true :=
    validateEventRows_of_numbered (fun i row hi => h.stamped_events id _ row (getElem?_page hi))
      fun row hr => h.payloads_events id row (mem_of_mem_page hr)
  have hlen := length_page_le (S.eventsOf id) after limit
  simp only [Store.loadEvents, hl, Option.bind_some, h.loadEvents, hrows, hlen, decide_true, Bool.and_self, if_true]

/-- **The port accepts every page of a reachable Store**: within the limits of a page it answers the rows that follow
the position, in order and each under its number. -/
theorem pages_accepted (h : Reachable access S) (id : Identifier) (after limit : ℕ) (hpos : 0 < limit)
    (hmax : limit ≤ maxItems) :
    (∃ rows, loadRecords (some S) id after limit = .ok rows ∧ rows = ((S.recordsOf id).drop after).take limit ∧
      ∀ i row, rows[i]? = some row → row.journalVersion = after + i + 1) ∧
    ∃ rows, loadEvents (some S) id after limit = .ok rows ∧ rows = ((S.eventsOf id).drop after).take limit ∧
      ∀ i row, rows[i]? = some row → eventSequence row = some ((after + i + 1 : ℕ) : ℤ) := by
  have hl : validatePage limit = true := validatePage_iff.2 ⟨hpos, hmax⟩
  refine ⟨⟨_, h.load_records_ok id after hl, rfl, fun i row hi => ?_⟩,
    ⟨_, h.load_events_ok id after hl, rfl, fun i row hi => ?_⟩⟩
  · exact h.numbered_records id _ row (getElem?_page hi)
  · exact eventSequence_of_stamped (h.stamped_events id _ row (getElem?_page hi))

/-- The journal of the bare session, once it is resumed, on one page. -/
theorem pages_accepted_resumed : ∃ rows, loadRecords (some resumedState) successor.sessionId 1 256 = .ok rows ∧
    rows = ((resumedState.recordsOf successor.sessionId).drop 1).take 256 ∧
      ∀ i row, rows[i]? = some row → row.journalVersion = 1 + i + 1 :=
  (pages_accepted (reachable_resumed : Reachable noAccess _) _ 1 256 (by decide) (by decide)).1

end Loopex.Store
