import Loopex.Erlang.Term
import Loopex.System.Run
import Loopex.System.Tables

/-!
# The request ledger of a connection

What one daemon connection has admitted and not yet answered.  A request in flight occupies one of 32 slots and is
named by its origin: the incarnation of the connection, the slot, and a sequence number that never comes back.

* `RequestLedger` — the account, with the functions of the source
* `RequestLedger.Kept` — its invariant, over the origins issued so far
* `request_ledger_integrity` — slots, names and origins after every run of calls, and the binding from then on
-/

namespace Loopex.Daemon

open Loopex.Erlang Loopex.System

/-- The value of `max_requests_in_flight` in the contract of the daemon. -/
def maxRequestsInFlight : ℕ := 32

/-- `{connection_incarnation, slot, sequence}`. -/
structure OriginId where
  incarnation : Bytes
  slot : ℕ
  sequence : ℕ
  deriving DecidableEq

/-- The account of one request: a map of atoms. -/
abbrev Entry := AList fun _ : Bytes => Term

/-- The key of the request's own identity in its entry. -/
def requestIdKey : Bytes := utf8 "request_id"

inductive Binding where
  | unbound
  | reserving (sessionId requestId : Bytes) (request : Term)
  | bound (sessionId : Bytes)
  deriving DecidableEq

structure RequestLedger where
  incarnation : Bytes
  nextSequence : ℕ := 1
  freeSlots : List ℕ := List.range 32
  requests : AList fun _ : OriginId => Entry := ∅
  requestIds : AList fun _ : Bytes => OriginId := ∅
  binding : Binding := .unbound

inductive BeginError where
  | duplicateRequest | capacityExceeded
  deriving DecidableEq

inductive Reservation where
  | ok (ledger : RequestLedger) | coalesced | sessionConflict

namespace RequestLedger

def new (incarnation : Bytes) : RequestLedger := { incarnation }

/-- The number of requests in flight. -/
def inFlight (L : RequestLedger) : ℕ := L.requests.entries.length

/-- The slots of the requests in flight. -/
def occupied (L : RequestLedger) : List ℕ := L.requests.entries.map fun e => e.1.slot

/-- `begin`.  There is no answer where the source raises: no slot is free. -/
def begin (L : RequestLedger) (requestId : Bytes) (entry : Entry) :
    Option (Except BeginError (OriginId × RequestLedger)) :=
  if (L.requestIds.lookup requestId).isSome then some (.error .duplicateRequest)
  else if maxRequestsInFlight ≤ L.inFlight then some (.error .capacityExceeded)
  else match L.freeSlots with
    | [] => none
    | slot :: freeSlots =>
      let origin : OriginId := ⟨L.incarnation, slot, L.nextSequence⟩
      some (.ok (origin, { L with
        nextSequence := L.nextSequence + 1
        freeSlots := freeSlots
        requests := L.requests.insert origin (entry.insert requestIdKey (.binary requestId))
        requestIds := L.requestIds.insert requestId origin }))

def fetch (L : RequestLedger) (origin : OriginId) : Option Entry := L.requests.lookup origin

def update (L : RequestLedger) (origin : OriginId) (f : Entry → Entry) : RequestLedger :=
  match L.requests.lookup origin with
  | some entry => { L with requests := L.requests.insert origin (f entry) }
  | none => L

/-- The table without an identity; only binaries are in it. -/
def forget (requestIds : AList fun _ : Bytes => OriginId) : Term → AList fun _ : Bytes => OriginId
  | .binary id => requestIds.erase id
  | _ => requestIds

/-- `complete`.  There is no answer where the source raises: the entry has no `request_id`. -/
def complete (L : RequestLedger) (origin : OriginId) : Option (Option Entry × RequestLedger) :=
  match L.requests.lookup origin with
  | none => some (none, L)
  | some entry =>
    match entry.lookup requestIdKey with
    | none => none
    | some requestId =>
      some (some entry, { L with
        requests := L.requests.erase origin
        requestIds := forget L.requestIds requestId
        freeSlots := (origin.slot :: L.freeSlots).mergeSort })

def reserve (L : RequestLedger) (sessionId requestId : Bytes) (request : Term) : Reservation :=
  match L.binding with
  | .unbound => .ok { L with binding := .reserving sessionId requestId request }
  | .reserving s i r => if s = sessionId ∧ i = requestId ∧ r = request then .coalesced else .sessionConflict
  | .bound s => if s = sessionId then .ok L else .sessionConflict

/-- Whether a session may be named by an ordinary request. -/
def admitSession (L : RequestLedger) (sessionId : Bytes) : Bool :=
  match L.binding with
  | .unbound => true
  | .bound s => s = sessionId
  | .reserving .. => false

def bind (L : RequestLedger) (sessionId requestId : Bytes) : RequestLedger :=
  match L.binding with
  | .reserving s i _ => if s = sessionId ∧ i = requestId then { L with binding := .bound sessionId } else L
  | _ => L

def clearReservation (L : RequestLedger) (requestId : Bytes) : RequestLedger :=
  match L.binding with
  | .reserving _ i _ => if i = requestId then { L with binding := .unbound } else L
  | _ => L

/-! ## calls -/

inductive Call where
  | begin (requestId : Bytes) (entry : Entry)
  | complete (origin : OriginId)
  | update (origin : OriginId) (f : Entry → Entry)
  | reserve (sessionId requestId : Bytes) (request : Term)
  | bind (sessionId requestId : Bytes)
  | clearReservation (requestId : Bytes)

/-- The ledger after a call, with the origin it issued; none, if the call raises. -/
def handle (L : RequestLedger) : Call → Option (RequestLedger × List OriginId)
  | .begin requestId entry => (L.begin requestId entry).map fun
      | .ok (origin, L') => (L', [origin])
      | .error _ => (L, [])
  | .complete origin => (L.complete origin).map fun x => (x.2, [])
  | .update origin f => some (L.update origin f, [])
  | .reserve sessionId requestId request => match L.reserve sessionId requestId request with
    | .ok L' => some (L', [])
    | _ => some (L, [])
  | .bind sessionId requestId => some (L.bind sessionId requestId, [])
  | .clearReservation requestId => some (L.clearReservation requestId, [])

/-- A call on the ledger, with the origins issued so far. -/
def Serves (s : RequestLedger × List OriginId) (c : Call) (s' : RequestLedger × List OriginId) : Prop :=
  ∃ origins, s.1.handle c = some (s'.1, origins) ∧ s'.2 = s.2 ++ origins

/-- An update keeps the identity of the request. -/
def Preserves : RequestLedger × List OriginId → Call → Prop
  | _, .update _ f => ∀ entry, (f entry).lookup requestIdKey = entry.lookup requestIdKey
  | _, _ => True

/-- The ledger is consistent, and has issued no origin twice. -/
structure Kept (s : RequestLedger × List OriginId) : Prop where
  slots : (s.1.freeSlots ++ s.1.occupied).Perm (List.range 32)
  named : ∀ o entry, s.1.requests.lookup o = some entry →
    ∃ id, entry.lookup requestIdKey = some (.binary id) ∧ s.1.requestIds.lookup id = some o
  known : ∀ id o, s.1.requestIds.lookup id = some o →
    ∃ entry, s.1.requests.lookup o = some entry ∧ entry.lookup requestIdKey = some (.binary id)
  issued : ∀ o entry, s.1.requests.lookup o = some entry → o ∈ s.2
  below : ∀ o ∈ s.2, o.sequence < s.1.nextSequence
  nodup : s.2.Nodup

variable {L L' : RequestLedger} {o o' : OriginId} {entry : Entry} {id : Bytes} {issued : List OriginId}
  {s s' : RequestLedger × List OriginId} {c : Call}

/-! ## slots -/

theorem slots_perm (h : L.requests.lookup o = some entry) :
    L.occupied.Perm (o.slot :: (L.requests.erase o).entries.map fun e => e.1.slot) :=
  (entries_perm h).map _

theorem slots_insert (h : L.requests.lookup o = some entry) (entry' : Entry) :
    ((L.requests.insert o entry').entries.map fun e => e.1.slot).Perm L.occupied := by
  rw [entries_insert_eq]
  exact (slots_perm h).symm

theorem slots_insert_new (h : L.requests.lookup o = none) (entry' : Entry) :
    (L.requests.insert o entry').entries.map (fun e => e.1.slot) = o.slot :: L.occupied := by
  rw [AList.entries_insert_of_notMem (AList.lookup_eq_none.1 h)]
  rfl

/-- With fewer than 32 requests in flight a slot is free. -/
theorem Kept.free (h : Kept (L, issued)) (hfew : L.inFlight < maxRequestsInFlight) :
    ∃ slot freeSlots, L.freeSlots = slot :: freeSlots := by
  have hlength := h.slots.length_eq
  simp only [List.length_append, List.length_range, occupied, List.length_map] at hlength
  refine List.exists_cons_of_ne_nil fun hnil => ?_
  rw [hnil, List.length_nil] at hlength
  unfold inFlight maxRequestsInFlight at hfew
  omega

/-! ## what a call does -/

theorem begin_eq_ok {x : Except BeginError (OriginId × RequestLedger)} (h : L.begin id entry = some x) :
    (∃ e, x = .error e) ∨ ∃ slot freeSlots, L.requestIds.lookup id = none ∧ L.freeSlots = slot :: freeSlots ∧
      x = .ok (⟨L.incarnation, slot, L.nextSequence⟩, { L with
        nextSequence := L.nextSequence + 1
        freeSlots := freeSlots
        requests := L.requests.insert ⟨L.incarnation, slot, L.nextSequence⟩
          (entry.insert requestIdKey (.binary id))
        requestIds := L.requestIds.insert id ⟨L.incarnation, slot, L.nextSequence⟩ }) := by
  unfold begin at h
  split at h
  · exact .inl ⟨_, (Option.some.inj h).symm⟩
  next hnew =>
    split at h
    · exact .inl ⟨_, (Option.some.inj h).symm⟩
    · split at h
      · cases h
      next slot freeSlots hfree =>
        exact .inr ⟨slot, freeSlots, by simpa using hnew, hfree, (Option.some.inj h).symm⟩

theorem complete_none (h : L.requests.lookup o = none) : L.complete o = some (none, L) := by
  unfold complete
  rw [h]

/-- A consistent ledger completes a request in flight. -/
theorem Kept.complete_eq (hk : Kept (L, issued)) (h : L.requests.lookup o = some entry) :
    ∃ id, entry.lookup requestIdKey = some (.binary id) ∧ L.requestIds.lookup id = some o ∧
      L.complete o = some (some entry, { L with
        requests := L.requests.erase o
        requestIds := L.requestIds.erase id
        freeSlots := (o.slot :: L.freeSlots).mergeSort }) := by
  obtain ⟨id, hid, hname⟩ := hk.named o entry h
  refine ⟨id, hid, hname, ?_⟩
  unfold complete
  rw [h]
  dsimp only
  rw [hid]
  rfl

theorem reserve_eq_ok {session : Bytes} {r : Term} (h : L.reserve session id r = .ok L') :
    L.binding = .unbound ∧ L' = { L with binding := .reserving session id r } ∨
      L.binding = .bound session ∧ L' = L := by
  unfold reserve at h
  split at h
  next hb => exact .inl ⟨hb, (Reservation.ok.inj h).symm⟩
  · split at h
    · cases h
    · cases h
  next hb =>
    split at h
    next heq => exact .inr ⟨heq ▸ hb, (Reservation.ok.inj h).symm⟩
    · cases h

theorem bind_cases (L : RequestLedger) (session id : Bytes) :
    (∃ r, L.binding = .reserving session id r ∧ L.bind session id = { L with binding := .bound session }) ∨
      L.bind session id = L := by
  unfold bind
  split
  next s i r hb =>
    split
    next heq => exact .inl ⟨r, heq.1 ▸ heq.2 ▸ hb, rfl⟩
    · exact .inr rfl
  · exact .inr rfl

theorem clearReservation_cases (L : RequestLedger) (id : Bytes) :
    (∃ session r, L.binding = .reserving session id r ∧
      L.clearReservation id = { L with binding := .unbound }) ∨ L.clearReservation id = L := by
  unfold clearReservation
  split
  next s i r hb =>
    split
    next heq => exact .inl ⟨s, r, heq ▸ hb, rfl⟩
    · exact .inr rfl
  · exact .inr rfl

/-- A consistent ledger answers every call. -/
theorem Kept.serves (hk : Kept s) (c : Call) : ∃ s', Serves s c s' := by
  have hanswer : ∃ x, s.1.handle c = some x := by
    cases c with
    | begin id entry =>
      have hbegin : ∃ x, s.1.begin id entry = some x := by
        unfold begin
        split
        · exact ⟨_, rfl⟩
        split
        · exact ⟨_, rfl⟩
        next hfew =>
          obtain ⟨slot, freeSlots, hfree⟩ := hk.free (by omega)
          rw [hfree]
          exact ⟨_, rfl⟩
      obtain ⟨x, hx⟩ := hbegin
      exact ⟨_, by rw [handle, hx]; rfl⟩
    | complete o =>
      rcases hlookup : s.1.requests.lookup o with _ | entry
      · exact ⟨_, by rw [handle, complete_none hlookup]; rfl⟩
      · obtain ⟨id, -, -, hcomplete⟩ := hk.complete_eq hlookup
        exact ⟨_, by rw [handle, hcomplete]; rfl⟩
    | update o f => exact ⟨_, rfl⟩
    | reserve s id r =>
      simp only [handle]
      split <;> exact ⟨_, rfl⟩
    | bind s id => exact ⟨_, rfl⟩
    | clearReservation id => exact ⟨_, rfl⟩
  obtain ⟨x, hx⟩ := hanswer
  exact ⟨(x.1, s.2 ++ x.2), x.2, hx, rfl⟩

/-! ## the invariant -/

namespace Kept

theorem start (incarnation : Bytes) : Kept (new incarnation, []) := by
  constructor <;> simp [new, occupied]

/-- A call that moves only the binding. -/
theorem rebind (hk : Kept (L, issued)) (b : Binding) : Kept ({ L with binding := b }, issued) :=
  ⟨hk.slots, hk.named, hk.known, hk.issued, hk.below, hk.nodup⟩

theorem begin (hk : Kept (L, issued)) {slot : ℕ} {freeSlots : List ℕ} (hnew : L.requestIds.lookup id = none)
    (hfree : L.freeSlots = slot :: freeSlots) (entry : Entry) :
    Kept ({ L with
      nextSequence := L.nextSequence + 1
      freeSlots := freeSlots
      requests := L.requests.insert ⟨L.incarnation, slot, L.nextSequence⟩
        (entry.insert requestIdKey (.binary id))
      requestIds := L.requestIds.insert id ⟨L.incarnation, slot, L.nextSequence⟩ },
      issued ++ [⟨L.incarnation, slot, L.nextSequence⟩]) := by
  generalize horigin : (⟨L.incarnation, slot, L.nextSequence⟩ : OriginId) = origin
  have hseq : origin.sequence = L.nextSequence := by rw [← horigin]
  have hslot : origin.slot = slot := by rw [← horigin]
  have hunissued : origin ∉ issued := fun hmem => Nat.ne_of_lt (hk.below origin hmem) hseq
  have hunused : L.requests.lookup origin = none := by
    refine Option.eq_none_iff_forall_ne_some.2 fun e he => ?_
    exact hunissued (hk.issued origin e he)
  refine ⟨?_, fun o e he => ?_, fun i o hi => ?_, fun o e he => ?_, fun o ho => ?_, ?_⟩
  · change (freeSlots ++ (L.requests.insert origin _).entries.map fun e => e.1.slot).Perm _
    rw [slots_insert_new hunused, hslot]
    refine List.perm_middle.trans (List.Perm.trans (List.Perm.of_eq ?_) hk.slots)
    rw [hfree]
    rfl
  · change (L.requests.insert origin _).lookup o = _ at he
    by_cases ho : o = origin
    · subst ho
      rw [AList.lookup_insert] at he
      obtain rfl := Option.some.inj he
      exact ⟨id, AList.lookup_insert _, AList.lookup_insert _⟩
    · rw [AList.lookup_insert_ne ho] at he
      obtain ⟨i, hi, hname⟩ := hk.named o e he
      refine ⟨i, hi, (AList.lookup_insert_ne ?_).trans hname⟩
      rintro rfl
      rw [hnew] at hname
      cases hname
  · change (L.requestIds.insert id origin).lookup i = _ at hi
    by_cases hid : i = id
    · subst hid
      rw [AList.lookup_insert] at hi
      obtain rfl := Option.some.inj hi
      exact ⟨_, AList.lookup_insert _, AList.lookup_insert _⟩
    · rw [AList.lookup_insert_ne hid] at hi
      obtain ⟨e, he, hname⟩ := hk.known i o hi
      refine ⟨e, (AList.lookup_insert_ne ?_).trans he, hname⟩
      rintro rfl
      rw [hunused] at he
      cases he
  · change (L.requests.insert origin _).lookup o = _ at he
    rw [List.mem_append, List.mem_singleton]
    by_cases ho : o = origin
    · exact .inr ho
    · rw [AList.lookup_insert_ne ho] at he
      exact .inl (hk.issued o e he)
  · change o.sequence < L.nextSequence + 1
    rcases List.mem_append.1 ho with ho | ho
    · have := hk.below o ho
      dsimp only at this
      omega
    · rw [List.mem_singleton.1 ho]
      omega
  · refine List.nodup_append.2 ⟨hk.nodup, List.nodup_singleton _, fun a ha b hb => ?_⟩
    rw [List.mem_singleton.1 hb]
    rintro rfl
    exact hunissued ha

theorem complete (hk : Kept (L, issued)) (h : L.requests.lookup o = some entry)
    (hid : entry.lookup requestIdKey = some (.binary id)) :
    Kept ({ L with
      requests := L.requests.erase o
      requestIds := L.requestIds.erase id
      freeSlots := (o.slot :: L.freeSlots).mergeSort }, issued) := by
  refine ⟨?_, fun o' e he => ?_, fun i o' hi => ?_, fun o' e he => ?_, hk.below, hk.nodup⟩
  · change ((o.slot :: L.freeSlots).mergeSort ++ (L.requests.erase o).entries.map fun e => e.1.slot).Perm _
    have hfree : ((o.slot :: L.freeSlots).mergeSort).Perm (o.slot :: L.freeSlots) := List.mergeSort_perm _ _
    refine (hfree.append_right _).trans (List.Perm.trans ?_ hk.slots)
    exact (List.perm_middle.symm).trans ((slots_perm h).symm.append_left _)
  · change (L.requests.erase o).lookup o' = _ at he
    have hne : o' ≠ o := by
      rintro rfl
      rw [AList.lookup_erase] at he
      cases he
    rw [AList.lookup_erase_ne hne] at he
    obtain ⟨i, hi, hname⟩ := hk.named o' e he
    refine ⟨i, hi, (AList.lookup_erase_ne ?_).trans hname⟩
    rintro rfl
    obtain ⟨i', hi', hname'⟩ := hk.named o entry h
    obtain rfl : i' = i := by simpa using hi'.symm.trans hid
    exact hne (Option.some.inj (hname.symm.trans hname'))
  · change (L.requestIds.erase id).lookup i = _ at hi
    have hne : i ≠ id := by
      rintro rfl
      rw [AList.lookup_erase] at hi
      cases hi
    rw [AList.lookup_erase_ne hne] at hi
    obtain ⟨e, he, hname⟩ := hk.known i o' hi
    refine ⟨e, (AList.lookup_erase_ne ?_).trans he, hname⟩
    rintro rfl
    obtain rfl := Option.some.inj (h.symm.trans he)
    exact hne (by simpa using hname.symm.trans hid)
  · change (L.requests.erase o).lookup o' = _ at he
    have hne : o' ≠ o := by
      rintro rfl
      rw [AList.lookup_erase] at he
      cases he
    rw [AList.lookup_erase_ne hne] at he
    exact hk.issued o' e he

theorem update (hk : Kept (L, issued)) {f : Entry → Entry}
    (hf : ∀ entry, (f entry).lookup requestIdKey = entry.lookup requestIdKey) (o : OriginId) :
    Kept (L.update o f, issued) := by
  unfold RequestLedger.update
  split
  next entry h =>
    refine ⟨?_, fun o' e he => ?_, fun i o' hi => ?_, fun o' e he => ?_, hk.below, hk.nodup⟩
    · exact ((slots_insert h (f entry)).append_left L.freeSlots).trans hk.slots
    · change (L.requests.insert o (f entry)).lookup o' = _ at he
      by_cases ho : o' = o
      · subst ho
        rw [AList.lookup_insert] at he
        obtain rfl := Option.some.inj he
        rw [hf]
        exact hk.named o' entry h
      · rw [AList.lookup_insert_ne ho] at he
        exact hk.named o' e he
    · obtain ⟨e, he, hname⟩ := hk.known i o' hi
      by_cases ho : o' = o
      · subst ho
        obtain rfl := Option.some.inj (h.symm.trans he)
        exact ⟨f entry, AList.lookup_insert _, (hf entry).trans hname⟩
      · exact ⟨e, (AList.lookup_insert_ne ho).trans he, hname⟩
    · change (L.requests.insert o (f entry)).lookup o' = _ at he
      by_cases ho : o' = o
      · rw [ho]
        exact hk.issued o entry h
      · rw [AList.lookup_insert_ne ho] at he
        exact hk.issued o' e he
  next => exact hk

/-- A call on a consistent ledger leaves a consistent ledger. -/
theorem moved (hk : Kept s) (h : Guarded Serves Preserves s c s') : Kept s' := by
  obtain ⟨⟨origins, hhandle, hissued⟩, hf⟩ := h
  obtain ⟨L, issued⟩ := s
  obtain ⟨L', issued'⟩ := s'
  dsimp only at hhandle hissued
  subst hissued
  cases c with
  | begin id entry =>
    obtain ⟨x, hx, heq⟩ := Option.map_eq_some_iff.1 hhandle
    rcases begin_eq_ok hx with ⟨e, rfl⟩ | ⟨slot, freeSlots, hnew, hfree, rfl⟩
    · obtain ⟨rfl, rfl⟩ := Prod.mk.inj heq
      simpa using hk
    · obtain ⟨rfl, rfl⟩ := Prod.mk.inj heq
      exact hk.begin hnew hfree entry
  | complete o =>
    obtain ⟨x, hx, heq⟩ := Option.map_eq_some_iff.1 hhandle
    obtain ⟨rfl, rfl⟩ := Prod.mk.inj heq
    rw [List.append_nil]
    rcases hlookup : L.requests.lookup o with _ | entry
    · rw [complete_none hlookup] at hx
      obtain rfl := Option.some.inj hx
      exact hk
    · obtain ⟨id, hid, -, hcomplete⟩ := hk.complete_eq hlookup
      rw [hcomplete] at hx
      obtain rfl := Option.some.inj hx
      exact hk.complete hlookup hid
  | update o f =>
    obtain ⟨rfl, rfl⟩ := Prod.mk.inj (Option.some.inj hhandle)
    rw [List.append_nil]
    exact hk.update hf o
  | reserve session id r =>
    simp only [handle] at hhandle
    split at hhandle
    next L'' hreserve =>
      obtain ⟨rfl, rfl⟩ := Prod.mk.inj (Option.some.inj hhandle)
      rw [List.append_nil]
      rcases reserve_eq_ok hreserve with ⟨-, rfl⟩ | ⟨-, rfl⟩
      · exact hk.rebind _
      · exact hk
    next =>
      obtain ⟨rfl, rfl⟩ := Prod.mk.inj (Option.some.inj hhandle)
      rw [List.append_nil]
      exact hk
  | bind session id =>
    obtain ⟨rfl, rfl⟩ := Prod.mk.inj (Option.some.inj hhandle)
    rw [List.append_nil]
    rcases bind_cases L session id with ⟨r, -, heq⟩ | heq
    · rw [heq]
      exact hk.rebind _
    · rw [heq]
      exact hk
  | clearReservation id =>
    obtain ⟨rfl, rfl⟩ := Prod.mk.inj (Option.some.inj hhandle)
    rw [List.append_nil]
    rcases clearReservation_cases L id with ⟨session, r, -, heq⟩ | heq
    · rw [heq]
      exact hk.rebind _
    · rw [heq]
      exact hk

/-- Completing a request leaves the others, and their identities. -/
theorem complete_others (hk : Kept (L, issued)) {answer : Option Entry} (h : L.complete o = some (answer, L'))
    (hne : o' ≠ o) {entry : Entry} (ho' : L.requests.lookup o' = some entry) :
    L'.requests.lookup o' = some entry ∧
      ∀ id, L.requestIds.lookup id = some o' → L'.requestIds.lookup id = some o' := by
  rcases hlookup : L.requests.lookup o with _ | gone
  · rw [complete_none hlookup] at h
    obtain ⟨-, rfl⟩ := Prod.mk.inj (Option.some.inj h)
    exact ⟨ho', fun _ hid => hid⟩
  · obtain ⟨id, hid, hname, hcomplete⟩ := hk.complete_eq hlookup
    rw [hcomplete] at h
    obtain ⟨-, rfl⟩ := Prod.mk.inj (Option.some.inj h)
    refine ⟨(AList.lookup_erase_ne hne).trans ho', fun i hi => (AList.lookup_erase_ne ?_).trans hi⟩
    rintro rfl
    exact hne (Option.some.inj (hi.symm.trans hname))

end Kept

/-! ## the binding -/

/-- No call takes a connection from the session it is bound to. -/
theorem bound_moved {session : Bytes} (hb : s.1.binding = .bound session) (h : Serves s c s') :
    s'.1.binding = .bound session := by
  obtain ⟨origins, hhandle, -⟩ := h
  obtain ⟨L, issued⟩ := s
  obtain ⟨L', issued'⟩ := s'
  dsimp only at hb hhandle ⊢
  cases c with
  | begin id entry =>
    obtain ⟨x, hx, heq⟩ := Option.map_eq_some_iff.1 hhandle
    rcases begin_eq_ok hx with ⟨e, rfl⟩ | ⟨slot, freeSlots, -, -, rfl⟩
    · obtain ⟨rfl, -⟩ := Prod.mk.inj heq
      exact hb
    · obtain ⟨rfl, -⟩ := Prod.mk.inj heq
      exact hb
  | complete o =>
    obtain ⟨x, hx, heq⟩ := Option.map_eq_some_iff.1 hhandle
    obtain ⟨rfl, -⟩ := Prod.mk.inj heq
    unfold complete at hx
    split at hx
    · obtain rfl := Option.some.inj hx
      exact hb
    · split at hx
      · cases hx
      · obtain rfl := Option.some.inj hx
        exact hb
  | update o f =>
    obtain ⟨rfl, -⟩ := Prod.mk.inj (Option.some.inj hhandle)
    unfold update
    split
    · exact hb
    · exact hb
  | reserve session' id r =>
    simp only [handle] at hhandle
    split at hhandle
    next L'' hreserve =>
      obtain ⟨rfl, -⟩ := Prod.mk.inj (Option.some.inj hhandle)
      rcases reserve_eq_ok hreserve with ⟨hunbound, -⟩ | ⟨-, rfl⟩
      · rw [hb] at hunbound
        cases hunbound
      · exact hb
    next =>
      obtain ⟨rfl, -⟩ := Prod.mk.inj (Option.some.inj hhandle)
      exact hb
  | bind session' id =>
    obtain ⟨rfl, -⟩ := Prod.mk.inj (Option.some.inj hhandle)
    rcases bind_cases L session' id with ⟨r, hreserving, -⟩ | heq
    · rw [hb] at hreserving
      cases hreserving
    · rw [heq]
      exact hb
  | clearReservation id =>
    obtain ⟨rfl, -⟩ := Prod.mk.inj (Option.some.inj hhandle)
    rcases clearReservation_cases L id with ⟨session', r, hreserving, -⟩ | heq
    · rw [hb] at hreserving
      cases hreserving
    · rw [heq]
      exact hb

theorem Kept.run {calls : List Call} {incarnation : Bytes}
    (h : Run (Guarded Serves Preserves) (new incarnation, []) calls s) : Kept s :=
  h.invariant (.start incarnation) fun _ _ _ hk hs => hk.moved hs

/-- **Request ledger integrity.** After every run of calls on a new ledger, the updates among them keeping the
identity of a request: the free slots and those of the origins in flight are the 32 slots, each once, and no call
raises; the two tables are inverse to each other; no origin has been issued twice; to complete an origin that is not in
flight changes nothing, and to complete any leaves the requests of the others, whatever their slot; and a connection
bound to a session stays bound to it and refuses every other. -/
theorem request_ledger_integrity {incarnation : Bytes} {calls : List Call}
    (h : Run (Guarded Serves Preserves) (new incarnation, []) calls (L, issued)) :
    (L.freeSlots ++ L.occupied).Perm (List.range 32) ∧
    (∀ c, ∃ s', Serves (L, issued) c s') ∧
    (∀ o entry, L.requests.lookup o = some entry →
      ∃ id, entry.lookup requestIdKey = some (.binary id) ∧ L.requestIds.lookup id = some o) ∧
    (∀ id o, L.requestIds.lookup id = some o →
      ∃ entry, L.requests.lookup o = some entry ∧ entry.lookup requestIdKey = some (.binary id)) ∧
    issued.Nodup ∧
    (∀ o, L.requests.lookup o = none → L.complete o = some (none, L)) ∧
    (∀ o o' answer L' entry, L.complete o = some (answer, L') → o' ≠ o → L.requests.lookup o' = some entry →
      L'.requests.lookup o' = some entry ∧
        ∀ id, L.requestIds.lookup id = some o' → L'.requestIds.lookup id = some o') ∧
    ∀ session, L.binding = .bound session →
      (∀ more L' issued', Run (Guarded Serves Preserves) (L, issued) more (L', issued') →
        L'.binding = .bound session) ∧
      ∀ other, other ≠ session →
        L.admitSession other = false ∧ ∀ id request, L.reserve other id request = .sessionConflict := by
  have hk := Kept.run h
  refine ⟨hk.slots, hk.serves, hk.named, hk.known, hk.nodup, fun _ => complete_none,
    fun _ _ _ _ _ hcomplete hne ho' => hk.complete_others hcomplete hne ho', fun session hb => ⟨?_, ?_⟩⟩
  · intro more L' issued' hmore
    exact hmore.invariant (I := fun s => s.1.binding = .bound session) hb fun _ _ _ hb hs => bound_moved hb hs.1
  · intro other hother
    refine ⟨?_, fun id request => ?_⟩
    · simp [admitSession, hb, hother.symm]
    · simp [reserve, hb, hother.symm]

theorem serves_of_handle (issued : List OriginId) {origins : List OriginId} (h : L.handle c = some (L', origins))
    (hc : Preserves (L, issued) c) :
    Guarded Serves Preserves (L, issued) c (L', issued ++ origins) :=
  ⟨⟨origins, h, rfl⟩, hc⟩

/-- Two requests, the first of them answered after it bound the connection. -/
theorem request_ledger_integrity_bound :
    ∃ (L : RequestLedger) (issued : List OriginId), issued = [⟨[7], 0, 1⟩, ⟨[7], 1, 2⟩] ∧
      L.occupied = [1] ∧ L.binding = .bound [9] ∧ issued.Nodup ∧
      (L.freeSlots ++ L.occupied).Perm (List.range 32) ∧ L.admitSession [8] = false := by
  have hrun : ∃ L : RequestLedger, L.occupied = [1] ∧ L.binding = .bound [9] ∧
      Run (Guarded Serves Preserves) (new [7], [])
        [.begin [1] ∅, .reserve [9] [1] .nil, .bind [9] [1], .begin [2] ∅, .complete ⟨[7], 0, 1⟩]
        (L, [⟨[7], 0, 1⟩, ⟨[7], 1, 2⟩]) := by
    have h₁ := Run.one (serves_of_handle (L := new [7]) (c := .begin [1] ∅) [] rfl trivial)
    have h₂ := h₁.snoc (serves_of_handle (c := .reserve [9] [1] .nil) _ rfl trivial)
    have h₃ := h₂.snoc (serves_of_handle (c := .bind [9] [1]) _ rfl trivial)
    have h₄ := h₃.snoc (serves_of_handle (c := .begin [2] ∅) _ rfl trivial)
    have h₅ := h₄.snoc (serves_of_handle (c := .complete ⟨[7], 0, 1⟩) _ rfl trivial)
    exact ⟨_, rfl, rfl, h₅⟩
  obtain ⟨L, hslots, hb, h⟩ := hrun
  obtain ⟨hperm, -, -, -, hnodup, -, -, hbound⟩ := request_ledger_integrity h
  exact ⟨L, _, rfl, hslots, hb, hnodup, hperm, ((hbound [9] hb).2 [8] (by decide)).1⟩

end RequestLedger

end Loopex.Daemon
