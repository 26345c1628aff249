import Loopex.Runtime.DiagnosticsAdmission

/-!
# Custody of the diagnostics slots

Whatever the senders and the dispatcher do, and wherever a sender is killed, a slot that is held is one that
somebody still answers for.

* `View.Custody` — the slots of one sender are those it owes: claimed and not sent for, or sent for and not
  released
* `Kept` — this of every sender, the slots of the tickets, and the account of the drops
* `diagnostics_custody_fails` — the runs that its wording leaves aside: a kill at the wrong moment, and the counters
  past `2 ^ 63`
* `diagnostics_custody` — the bound on the items admitted, who answers for each slot, what frees one, and the
  drops reported, after every run
-/

namespace Loopex.Runtime.Diagnostics

open Loopex.Erlang Loopex.System

variable {P : Type} [DecidableEq P] {options : Options} {s s' : State P} {p q : P}

/-! ## the counters -/

theorem wrap_of_lt {n : ℤ} (h0 : -2 ^ 63 ≤ n) (h : n < 2 ^ 63) : wrap n = n := by
  unfold wrap
  rw [Int.bmod_eq_of_le] <;> omega

theorem wrap_wrap_add (n m : ℤ) : wrap (wrap n + m) = wrap (n + m) := by
  simp [wrap]

/-! ## the slots of one sender -/

/-- The slots and the tickets a sender has in the table. -/
def keysOf (rows : List (SlotRow P)) (p : P) : List (ℤ × ℤ) :=
  (rows.filter fun r => r.owner = p).map fun r => (r.slot, r.ticket)

/-- What concerns one sender. -/
structure View where
  keys : List (ℤ × ℤ)
  sender : Sender
  inbox : List Signal
  hand : Option (ℤ × ℤ)
  monitor : Option ℕ

def State.view (s : State P) (p : P) : View where
  keys := keysOf s.rows p
  sender := s.senders p
  inbox := s.inbox p
  hand := s.turn.keyOf p
  monitor := s.monitors p

namespace View

variable {v w : View}

/-- The admissions sent and not released. -/
def undelivered (v : View) : List (ℤ × ℤ) := v.inbox.filterMap Signal.key? ++ v.hand.toList

/-- The slots and the tickets a sender owes an item or the dispatcher a release for. -/
def owed (v : View) : List (ℤ × ℤ) := v.sender.phase.key?.toList ++ v.undelivered

/-- The dispatcher monitors the sender, or is asked to. -/
def Watched (v : View) : Prop := .monitorMe ∈ v.inbox ∨ v.monitor.isSome = true

/-- The slots of a sender are those it owes, or it has not registered, or it is dead and reconciled. -/
def Custody (v : View) : Prop :=
  (v.Watched ∧ v.owed.Perm v.keys) ∨
    (v.keys = [] ∧ v.inbox = [] ∧ v.hand = none ∧ v.monitor = none ∧
      (v.sender.alive = true → v.sender = ⟨true, false, .idle⟩))

/-- A sender that is alive and in `admit`, or has registered, is watched. -/
theorem Custody.watched (h : v.Custody) (halive : v.sender.alive = true) (hne : v.sender ≠ ⟨true, false, .idle⟩) :
    v.Watched ∧ v.owed.Perm v.keys := by
  rcases h with h | ⟨-, -, -, -, h⟩
  · exact h
  · exact absurd (h halive) hne

/-- A sender with a slot is watched. -/
theorem Custody.watched_of_key (h : v.Custody) {key : ℤ × ℤ} (hk : key ∈ v.keys) :
    v.Watched ∧ v.owed.Perm v.keys := by
  rcases h with h | ⟨hnil, -⟩
  · exact h
  · rw [hnil] at hk
    cases hk

/-- A sender that is watched goes on in `admit`, with what it owes unchanged. -/
theorem Custody.proceed (h : v.Custody) (halive : v.sender.alive = true) (hne : v.sender ≠ ⟨true, false, .idle⟩)
    {sender : Sender} (hkey : sender.phase.key? = v.sender.phase.key?) : Custody { v with sender := sender } := by
  obtain ⟨hw, hperm⟩ := h.watched halive hne
  refine .inl ⟨hw, ?_⟩
  rw [owed, hkey]
  exact hperm

/-- The first admission of a sender, or a later one. -/
theorem Custody.register (h : v.Custody) {recorded : Bool} (hs : v.sender = ⟨true, recorded, .idle⟩) (item : Term) :
    Custody { v with
      sender := ⟨true, true, .registered item⟩
      inbox := if recorded then v.inbox else v.inbox ++ [.monitorMe] } := by
  have hkey : (Phase.registered item).key? = v.sender.phase.key? := by
    rw [hs]
    rfl
  cases recorded with
  | true => exact h.proceed (by rw [hs]) (by rw [hs]; simp) hkey
  | false =>
    refine .inl ⟨.inl (by simp), ?_⟩
    rcases h with ⟨-, hperm⟩ | ⟨hkeys, hinbox, hhand, -⟩
    · rw [owed, hs] at hperm
      simpa [owed, undelivered, Phase.key?, Signal.key?, List.filterMap_cons] using hperm
    · simp [owed, undelivered, Phase.key?, Signal.key?, hkeys, hinbox, hhand]

theorem Custody.claim (h : v.Custody) {recorded : Bool} {item : Term} {slot ticket : ℤ}
    (hs : v.sender = ⟨true, recorded, .ticketed item ticket⟩) :
    Custody { v with
      keys := (slot, ticket) :: v.keys
      sender := ⟨true, recorded, .claimed item slot ticket⟩ } := by
  obtain ⟨hw, hperm⟩ := h.watched (by rw [hs]) (by rw [hs]; simp)
  refine .inl ⟨hw, ?_⟩
  rw [owed, hs] at hperm
  exact hperm.cons _

theorem Custody.deliver (h : v.Custody) {recorded : Bool} {item : Term} {slot ticket : ℤ}
    (hs : v.sender = ⟨true, recorded, .claimed item slot ticket⟩) :
    Custody { v with
      sender := ⟨true, recorded, .idle⟩
      inbox := v.inbox ++ [.admission slot ticket item] } := by
  obtain ⟨hw, hperm⟩ := h.watched (by rw [hs]) (by rw [hs]; simp)
  refine .inl ⟨hw.imp (fun h => by simp [h]) id, ?_⟩
  refine List.Perm.trans ?_ hperm
  simp only [owed, undelivered, hs, Phase.key?, Signal.key?, Option.toList_none, Option.toList_some, List.nil_append,
    List.filterMap_append, List.filterMap_cons, List.filterMap_nil, List.append_assoc, List.singleton_append]
  exact List.perm_middle

theorem Custody.die (h : v.Custody) : Custody { v with sender := { v.sender with alive := false } } := by
  rcases h with ⟨hw, hperm⟩ | ⟨hkeys, hinbox, hhand, hmonitor, -⟩
  · exact .inl ⟨hw, hperm⟩
  · exact .inr ⟨hkeys, hinbox, hhand, hmonitor, by simp⟩

/-- The request to be monitored is received. -/
theorem Custody.monitor (h : v.Custody) {rest : List Signal} (hi : v.inbox = .monitorMe :: rest) {monitor : Option ℕ}
    (hm : monitor.isSome = true) : Custody { v with inbox := rest, monitor := monitor } := by
  rcases h with ⟨-, hperm⟩ | ⟨-, hnil, -⟩
  · refine .inl ⟨.inr hm, ?_⟩
    rw [owed, undelivered, hi] at hperm
    exact hperm
  · rw [hi] at hnil
    cases hnil

/-- An admission is received. -/
theorem Custody.receive (h : v.Custody) {rest : List Signal} {slot ticket : ℤ} {item : Term}
    (hi : v.inbox = .admission slot ticket item :: rest) (hhand : v.hand = none) :
    Custody { v with inbox := rest, hand := some (slot, ticket) } := by
  rcases h with ⟨hw, hperm⟩ | ⟨-, hnil, -⟩
  · refine .inl ⟨hw.imp (fun h => by simpa [hi] using h) id, ?_⟩
    refine List.Perm.trans ?_ hperm
    simp only [owed, undelivered, hi, hhand, Signal.key?, List.filterMap_cons, Option.toList_none, Option.toList_some,
      List.append_nil]
    exact (List.perm_append_singleton _ _).append_left _
  · rw [hi] at hnil
    cases hnil

theorem Custody.nodup_owed (h : v.Custody) (hn : v.keys.Nodup) {key : ℤ × ℤ} (hk : key ∈ v.keys) :
    v.owed.Nodup ∧ key ∈ v.owed := by
  obtain ⟨-, hperm⟩ := h.watched_of_key hk
  exact ⟨hperm.nodup_iff.2 hn, hperm.mem_iff.2 hk⟩

/-- The slot of an item that is released is the one its message named. -/
theorem Custody.release (h : v.Custody) (hn : v.keys.Nodup) {key : ℤ × ℤ} (hhand : v.hand = some key) :
    Custody { v with keys := v.keys.filter (· ≠ key), hand := none } := by
  rcases h with ⟨hw, hperm⟩ | ⟨-, -, hnone, -⟩
  · refine .inl ⟨hw, ?_⟩
    have hsplit : v.owed = (v.sender.phase.key?.toList ++ v.inbox.filterMap Signal.key?) ++ [key] := by
      simp [owed, undelivered, hhand]
    have hnodup := hperm.nodup_iff.2 hn
    have hfilter := hperm.filter (· ≠ key)
    rw [hsplit, List.nodup_append] at hnodup
    obtain ⟨-, -, hdisjoint⟩ := hnodup
    rw [hsplit, List.filter_append, List.filter_eq_self.2] at hfilter
    · simpa [owed, undelivered] using hfilter
    · intro k hk
      simpa using hdisjoint k hk key (by simp)
  · rw [hhand] at hnone
    cases hnone

/-- A dead sender whose messages have all been received is reconciled. -/
theorem custody_reconciled (halive : v.sender.alive = false) (hi : v.inbox = []) (hhand : v.hand = none) :
    Custody { v with keys := [], monitor := none } :=
  .inr ⟨rfl, hi, hhand, rfl, by simp [halive]⟩

end View

/-! ## what is kept -/

/-- The drops of the summaries sent. -/
def reported (sent : List Delivery) : ℤ := (sent.map Delivery.dropped).sum

/-- What every step keeps. -/
structure Kept (options : Options) (s : State P) : Prop where
  slot : ∀ r ∈ s.rows, r.slot = r.ticket.tmod options.ceiling
  nodup : (s.rows.map SlotRow.slot).Nodup
  counter : s.ticket = wrap s.taken
  early : s.taken < 2 ^ 63 → (∀ r ∈ s.rows, 0 ≤ r.ticket) ∧
    ∀ p item ticket, (s.senders p).phase = .ticketed item ticket → 0 ≤ ticket
  custody : ∀ p, (s.view p).Custody
  installed : ∀ p reference, s.monitors p = some reference → (reference, p) ∈ s.watches
  counted : s.failures + s.discards < 2 ^ 63 → 0 ≤ s.drops ∧ 0 ≤ reported s.sent ∧
    ∃ late : Finset P, (∀ p, p ∈ late ↔ (s.senders p).phase.uncounted = true) ∧
      s.drops + reported s.sent + late.card = s.failures + s.discards

theorem kept_start : Kept options (.start : State P) where
  slot := by simp [State.start]
  nodup := by simp [State.start]
  counter := by simp [State.start, wrap]
  early := fun _ => ⟨by simp [State.start], by simp [State.start]⟩
  custody := fun _ => .inr ⟨rfl, rfl, rfl, rfl, fun _ => rfl⟩
  installed := by simp [State.start]
  counted := fun _ => ⟨le_rfl, le_rfl, ∅, by simp [State.start, Phase.uncounted], by simp [State.start, reported]⟩

/-! ## one step, seen by one sender -/

@[simp] theorem withSender_senders_self (sender : Sender) : (s.withSender p sender).senders p = sender := by
  simp [State.withSender]

theorem withSender_senders_ne (sender : Sender) (h : q ≠ p) : (s.withSender p sender).senders q = s.senders q := by
  simp [State.withSender, h]

/-- A step that leaves all but one sender as it was. -/
theorem custody_of_others (h : ∀ q, (s.view q).Custody) (hothers : ∀ q, q ≠ p → s'.view q = s.view q)
    (hp : (s'.view p).Custody) : ∀ q, (s'.view q).Custody := by
  intro q
  by_cases hq : q = p
  · exact hq ▸ hp
  · exact hothers q hq ▸ h q

theorem keysOf_cons_self (r : SlotRow P) (rows : List (SlotRow P)) :
    keysOf (r :: rows) r.owner = (r.slot, r.ticket) :: keysOf rows r.owner := by
  simp [keysOf]

theorem keysOf_cons_ne {r : SlotRow P} (rows : List (SlotRow P)) (h : q ≠ r.owner) :
    keysOf (r :: rows) q = keysOf rows q := by
  simp [keysOf, Ne.symm h]

theorem mem_keysOf {rows : List (SlotRow P)} {r : SlotRow P} :
    (r.slot, r.ticket) ∈ keysOf rows r.owner ↔ r ∈ rows := by
  constructor
  · intro h
    obtain ⟨row, hrow, heq⟩ := List.mem_map.1 h
    obtain ⟨hmem, howner⟩ := List.mem_filter.1 hrow
    obtain ⟨slot, owner, ticket⟩ := row
    obtain ⟨slot', owner', ticket'⟩ := r
    simp only [decide_eq_true_eq, Prod.mk.injEq] at howner heq
    obtain ⟨rfl, rfl⟩ := heq
    exact howner ▸ hmem
  · intro h
    exact List.mem_map.2 ⟨r, List.mem_filter.2 ⟨h, by simp⟩, rfl⟩

theorem keysOf_deleteObject (rows : List (SlotRow P)) (r : SlotRow P) (q : P) :
    keysOf (deleteObject rows r) q =
      if r.owner = q then (keysOf rows q).filter (· ≠ (r.slot, r.ticket)) else keysOf rows q := by
  induction rows with
  | nil => simp [keysOf, deleteObject]
  | cons row rows ih =>
    obtain ⟨slot, owner, ticket⟩ := row
    obtain ⟨slot', owner', ticket'⟩ := r
    simp only [keysOf, deleteObject, List.filter_cons] at ih ⊢
    grind

theorem keysOf_matchDelete (rows : List (SlotRow P)) (p q : P) :
    keysOf (matchDelete rows p) q = if p = q then [] else keysOf rows q := by
  induction rows with
  | nil => simp [keysOf, matchDelete]
  | cons row rows ih =>
    simp only [keysOf, matchDelete, List.filter_cons] at ih ⊢
    grind

/-- The slots of a sender are distinct. -/
theorem nodup_keysOf (h : (s.rows.map SlotRow.slot).Nodup) (p : P) : (keysOf s.rows p).Nodup := by
  have hfilter : ((s.rows.filter fun r => r.owner = p).map SlotRow.slot).Nodup :=
    h.sublist (List.filter_sublist.map _)
  refine List.Nodup.of_map Prod.fst ?_
  rw [keysOf, List.map_map]
  exact hfilter

/-! ## the steps of a sender -/

/-- The senders between a failed claim and its count, after one sender moved on. -/
theorem late_congr {late : Finset P} {sender : Sender} (hlate : ∀ q, q ∈ late ↔ (s.senders q).phase.uncounted = true)
    (h : sender.phase.uncounted = (s.senders p).phase.uncounted) (q : P) :
    q ∈ late ↔ ((s.withSender p sender).senders q).phase.uncounted = true := by
  rw [hlate]
  by_cases hq : q = p
  · subst hq
    rw [withSender_senders_self, h]
  · rw [withSender_senders_ne _ hq]

/-- The tickets in hand, after one sender moved on. -/
theorem early_congr {sender : Sender} (h : ∀ q item ticket, (s.senders q).phase = .ticketed item ticket → 0 ≤ ticket)
    (hp : ∀ item ticket, sender.phase = .ticketed item ticket → 0 ≤ ticket) (q : P) (item : Term) (ticket : ℤ)
    (hq : ((s.withSender p sender).senders q).phase = .ticketed item ticket) : 0 ≤ ticket := by
  by_cases hqp : q = p
  · subst hqp
    rw [withSender_senders_self] at hq
    exact hp item ticket hq
  · rw [withSender_senders_ne _ hqp] at hq
    exact h q item ticket hq

/-- A sender moves on, holding no ticket and as late as it was, and may send. -/
theorem Kept.move (h : Kept options s) {sender : Sender} {signals : List Signal}
    (hp : ∀ item ticket, sender.phase ≠ .ticketed item ticket)
    (hlate : sender.phase.uncounted = (s.senders p).phase.uncounted)
    (hcustody : View.Custody { s.view p with sender := sender, inbox := signals }) :
    Kept options ((s.withSender p sender).withInbox p signals) where
  slot := h.slot
  nodup := h.nodup
  counter := h.counter
  early := fun hlt => ⟨(h.early hlt).1, early_congr (h.early hlt).2 fun item ticket ht => absurd ht (hp item ticket)⟩
  custody := by
    refine custody_of_others h.custody (p := p) ?_ ?_
    · intro q hq
      simp [State.view, State.withSender, State.withInbox, hq]
    · simpa [State.view, State.withSender, State.withInbox] using hcustody
  installed := h.installed
  counted := by
    intro hlt
    obtain ⟨hdrops, hreported, late, hmem, hsum⟩ := h.counted hlt
    exact ⟨hdrops, hreported, late, late_congr hmem hlate, hsum⟩

theorem withInbox_self (s : State P) (p : P) : s.withInbox p (s.inbox p) = s := by
  simp [State.withInbox]

theorem Kept.register {item : Term} (h : Kept options s) (hs : register s p item = some s') : Kept options s' := by
  unfold Diagnostics.register at hs
  split at hs
  next hp =>
    cases hs
    rw [← withInbox_self (s.withSender p _) p]
    exact h.move (by simp) (by rw [hp]; rfl) ((h.custody p).register hp item)
  next hp =>
    cases hs
    exact h.move (by simp) (by rw [hp]; rfl) ((h.custody p).register hp item)
  next => cases hs

theorem Kept.takeTicket (h : Kept options s) (hs : takeTicket s p = some s') : Kept options s' := by
  unfold Diagnostics.takeTicket at hs
  split at hs
  next recorded item hp =>
    cases hs
    have hcounter : wrap (s.ticket + 1) = wrap (s.taken + 1) := by rw [h.counter, wrap_wrap_add]
    refine ⟨h.slot, h.nodup, ?_, ?_, ?_, h.installed, ?_⟩
    · simpa using hcounter
    · intro hlt
      have hlt' : s.taken < 2 ^ 63 := Nat.lt_of_succ_lt hlt
      refine ⟨(h.early hlt').1, early_congr (h.early hlt').2 ?_⟩
      rintro item' ticket hticket
      cases hticket
      rw [hcounter, wrap_of_lt] <;> simp at hlt <;> omega
    · refine custody_of_others h.custody (p := p) ?_ ?_
      · intro q hq
        simp [State.view, State.withSender, hq]
      · have hcustody : View.Custody { s.view p with sender := ⟨true, recorded, .ticketed item (wrap (s.ticket + 1))⟩ } :=
          (h.custody p).proceed (by simp [State.view, hp]) (by simp [State.view, hp]) (by simp [State.view, hp, Phase.key?])
        simpa [State.view, State.withSender] using hcustody
    · intro hlt
      obtain ⟨hdrops, hreported, late, hmem, hsum⟩ := h.counted hlt
      exact ⟨hdrops, hreported, late, late_congr hmem (by rw [hp]; rfl), hsum⟩
  next => cases hs

omit [DecidableEq P] in
/-- The claim of a slot that is free, or of one that is held. -/
theorem insertNew_cases (rows : List (SlotRow P)) (r : SlotRow P) :
    (insertNew rows r = some (r :: rows) ∧ r.slot ∉ rows.map SlotRow.slot) ∨
      (insertNew rows r = none ∧ r.slot ∈ rows.map SlotRow.slot) := by
  unfold insertNew
  by_cases hany : r.slot ∈ rows.map SlotRow.slot
  · refine .inr ⟨if_pos ?_, hany⟩
    simpa using hany
  · refine .inl ⟨if_neg ?_, hany⟩
    simpa using hany

theorem Kept.claim (h : Kept options s) (hs : claim options s p = some s') : Kept options s' := by
  unfold Diagnostics.claim at hs
  split at hs
  next recorded item ticket hp =>
    have htimely : s.taken < 2 ^ 63 → 0 ≤ ticket := fun hlt => (h.early hlt).2 p item ticket (by rw [hp])
    rcases insertNew_cases s.rows ⟨ticket.tmod options.ceiling, p, ticket⟩ with ⟨hinsert, hfree⟩ | ⟨hinsert, -⟩
    · simp only [hinsert] at hs
      cases hs
      refine ⟨?_, ?_, h.counter, ?_, ?_, h.installed, ?_⟩
      · intro r hr
        rcases List.mem_cons.1 hr with rfl | hr
        · rfl
        · exact h.slot r hr
      · exact List.nodup_cons.2 ⟨hfree, h.nodup⟩
      · intro hlt
        refine ⟨?_, early_congr (h.early hlt).2 (by simp)⟩
        intro r hr
        rcases List.mem_cons.1 hr with rfl | hr
        · exact htimely hlt
        · exact (h.early hlt).1 r hr
      · refine custody_of_others h.custody (p := p) ?_ ?_
        · intro q hq
          have hkeys : keysOf (⟨ticket.tmod options.ceiling, p, ticket⟩ :: s.rows) q = keysOf s.rows q :=
            keysOf_cons_ne s.rows hq
          simp [State.view, State.withSender, hq, hkeys]
        · have hcustody : View.Custody { s.view p with
              keys := (ticket.tmod options.ceiling, ticket) :: keysOf s.rows p
              sender := ⟨true, recorded, .claimed item (ticket.tmod options.ceiling) ticket⟩ } := (h.custody p).claim hp
          have hkeys : keysOf (⟨ticket.tmod options.ceiling, p, ticket⟩ :: s.rows) p =
              (ticket.tmod options.ceiling, ticket) :: keysOf s.rows p :=
            keysOf_cons_self ⟨ticket.tmod options.ceiling, p, ticket⟩ s.rows
          simpa [State.view, State.withSender, hkeys] using hcustody
      · intro hlt
        obtain ⟨hdrops, hreported, late, hmem, hsum⟩ := h.counted hlt
        exact ⟨hdrops, hreported, late, late_congr hmem (by rw [hp]; rfl), hsum⟩
    · simp only [hinsert] at hs
      cases hs
      refine ⟨h.slot, h.nodup, h.counter, ?_, ?_, h.installed, ?_⟩
      · intro hlt
        exact ⟨(h.early hlt).1, early_congr (h.early hlt).2 (by simp)⟩
      · refine custody_of_others h.custody (p := p) ?_ ?_
        · intro q hq
          simp [State.view, State.withSender, hq]
        · have hcustody : View.Custody { s.view p with sender := ⟨true, recorded, .refused item⟩ } :=
            (h.custody p).proceed (by simp [State.view, hp]) (by simp [State.view, hp]) (by simp [State.view, hp, Phase.key?])
          simpa [State.view, State.withSender] using hcustody
      · intro hlt
        have hlt' : s.failures + 1 + s.discards < 2 ^ 63 := hlt
        obtain ⟨hdrops, hreported, late, hmem, hsum⟩ := h.counted (by omega)
        have hfresh : p ∉ late := by
          rw [hmem, hp]
          simp [Phase.uncounted]
        refine ⟨hdrops, hreported, insert p late, ?_, ?_⟩
        · intro q
          by_cases hq : q = p
          · subst hq
            simp [State.withSender, Phase.uncounted]
          · simp [hq, hmem, State.withSender]
        · rw [Finset.card_insert_of_notMem hfresh]
          push_cast
          simp only [State.withSender]
          omega
  next => cases hs

theorem Kept.deliver (h : Kept options s) (hs : deliver s p = some s') : Kept options s' := by
  unfold Diagnostics.deliver at hs
  split at hs
  next recorded item slot ticket hp =>
    cases hs
    exact h.move (by simp) (by rw [hp]; rfl) ((h.custody p).deliver hp)
  next => cases hs

theorem Kept.dropOwn (h : Kept options s) (hs : dropOwn s p = some s') : Kept options s' := by
  unfold Diagnostics.dropOwn at hs
  split at hs
  next recorded item hp =>
    cases hs
    refine ⟨h.slot, h.nodup, h.counter, ?_, ?_, h.installed, ?_⟩
    · intro hlt
      exact ⟨(h.early hlt).1, early_congr (h.early hlt).2 (by simp)⟩
    · refine custody_of_others h.custody (p := p) ?_ ?_
      · intro q hq
        simp [State.view, State.withSender, State.countDrop, hq]
      · have hcustody : View.Custody { s.view p with sender := ⟨true, recorded, .idle⟩ } :=
          (h.custody p).proceed (by simp [State.view, hp]) (by simp [State.view, hp]) (by simp [State.view, hp, Phase.key?])
        simpa [State.view, State.withSender, State.countDrop] using hcustody
    · intro hlt
      obtain ⟨hdrops, hreported, late, hmem, hsum⟩ := h.counted hlt
      have hlate : p ∈ late := by
        rw [hmem, hp]
        rfl
      have hcard := Finset.card_erase_add_one hlate
      have hlt' : s.failures + s.discards < 2 ^ 63 := hlt
      have hwrap : wrap (s.drops + 1) = s.drops + 1 := wrap_of_lt (by omega) (by omega)
      refine ⟨?_, hreported, late.erase p, ?_, ?_⟩
      · simp only [State.countDrop, State.withSender, hwrap]
        omega
      · intro q
        by_cases hq : q = p
        · subst hq
          simp [State.withSender, State.countDrop, Phase.uncounted]
        · simp [hq, hmem, State.withSender, State.countDrop]
      · simp only [State.countDrop, State.withSender, hwrap]
        omega
  next => cases hs

theorem Kept.die (h : Kept options s) (hs : die s p = some s') : Kept options s' := by
  unfold Diagnostics.die at hs
  split at hs
  next =>
    cases hs
    refine ⟨h.slot, h.nodup, h.counter, ?_, ?_, h.installed, ?_⟩
    · intro hlt
      exact ⟨(h.early hlt).1, early_congr (h.early hlt).2 fun item ticket ht => (h.early hlt).2 p item ticket ht⟩
    · refine custody_of_others h.custody (p := p) ?_ ?_
      · intro q hq
        simp [State.view, State.withSender, hq]
      · simpa [State.view, State.withSender] using (h.custody p).die
    · intro hlt
      obtain ⟨hdrops, hreported, late, hmem, hsum⟩ := h.counted hlt
      exact ⟨hdrops, hreported, late, late_congr hmem rfl, hsum⟩
  next => cases hs

/-! ## the steps of the dispatcher -/

/-- The slots and the senders are as they were, and the drops are accounted for. -/
theorem Kept.turn (h : Kept options s) (hrows : s'.rows = s.rows) (hticket : s'.ticket = s.ticket)
    (htaken : s'.taken = s.taken) (hsenders : s'.senders = s.senders) (hcustody : ∀ q, (s'.view q).Custody)
    (hinstalled : ∀ q reference, s'.monitors q = some reference → (reference, q) ∈ s'.watches)
    (hcounted : s'.failures + s'.discards < 2 ^ 63 → 0 ≤ s'.drops ∧ 0 ≤ reported s'.sent ∧
      ∃ late : Finset P, (∀ q, q ∈ late ↔ (s'.senders q).phase.uncounted = true) ∧
        s'.drops + reported s'.sent + late.card = s'.failures + s'.discards) : Kept options s' where
  slot := hrows ▸ h.slot
  nodup := hrows ▸ h.nodup
  counter := by rw [hticket, htaken, h.counter]
  early := by
    rw [hrows, htaken, hsenders]
    exact h.early
  custody := hcustody
  installed := hinstalled
  counted := hcounted

theorem Kept.receive (h : Kept options s) (hs : receive s p = some s') : Kept options s' := by
  unfold Diagnostics.receive at hs
  split at hs
  next rest hturn hinbox =>
    cases hs
    unfold monitorSender
    split
    next hsome =>
      refine h.turn rfl rfl rfl rfl ?_ h.installed h.counted
      refine custody_of_others h.custody (p := p) ?_ ?_
      · intro q hq
        simp [State.view, State.withInbox, hq]
      · have hcustody := (h.custody p).monitor hinbox hsome
        simpa [State.view, State.withInbox] using hcustody
    next =>
      refine h.turn rfl rfl rfl rfl ?_ ?_ h.counted
      · refine custody_of_others h.custody (p := p) ?_ ?_
        · intro q hq
          simp [State.view, State.withInbox, hq]
        · have hcustody := (h.custody p).monitor hinbox (Option.isSome_some (a := s.references))
          simpa [State.view, State.withInbox] using hcustody
      · intro q reference hq
        by_cases hqp : q = p
        · subst hqp
          simp only [State.withInbox, Function.update_self, Option.some.injEq] at hq
          simp [State.withInbox, hq]
        · simp only [State.withInbox, Function.update_of_ne hqp] at hq
          exact List.mem_cons_of_mem _ (h.installed q reference hq)
  next slot ticket item rest hturn hinbox =>
    cases hs
    refine h.turn rfl rfl rfl rfl ?_ h.installed h.counted
    refine custody_of_others h.custody (p := p) ?_ ?_
    · intro q hq
      simp [State.view, State.withInbox, hq, hturn, Turn.keyOf, Ne.symm hq]
    · have hhand : (s.view p).hand = none := by simp [State.view, hturn, Turn.keyOf]
      have hcustody := (h.custody p).receive hinbox hhand
      simpa [State.view, State.withInbox, Turn.keyOf] using hcustody
  next => cases hs

theorem reported_append (sent : List Delivery) (d : Delivery) : reported (sent ++ [d]) = reported sent + d.dropped := by
  simp [reported]

theorem Kept.forward {queued : Option ℕ} (h : Kept options s) (hs : forward options s queued = some s') :
    Kept options s' := by
  unfold Diagnostics.forward at hs
  split at hs
  next p slot ticket item hturn =>
    have hviews : ∀ q, (Turn.releasing p slot ticket).keyOf q = s.turn.keyOf q := by simp [hturn, Turn.keyOf]
    have hcustody : ∀ q, View.Custody { s.view q with hand := (Turn.releasing p slot ticket).keyOf q } := by
      intro q
      rw [hviews]
      exact h.custody q
    simp only at hs
    split at hs
    next =>
      cases hs
      exact h.turn rfl rfl rfl rfl hcustody h.installed h.counted
    next =>
      split at hs
      next =>
        cases hs
        refine h.turn rfl rfl rfl rfl hcustody h.installed ?_
        simp only [reported_append, Delivery.dropped, add_zero]
        exact h.counted
      next =>
        cases hs
        refine h.turn rfl rfl rfl rfl hcustody h.installed ?_
        intro hlt
        have hlt' : s.failures + (s.discards + 1) < 2 ^ 63 := hlt
        obtain ⟨hdrops, hreported, late, hmem, hsum⟩ := h.counted (by omega)
        have hwrap : wrap (s.drops + 1) = s.drops + 1 := wrap_of_lt (by omega) (by omega)
        refine ⟨?_, hreported, late, hmem, ?_⟩
        · simp only [State.countDrop, hwrap]
          omega
        · simp only [State.countDrop, hwrap]
          push_cast
          omega
  next => cases hs

theorem Kept.release (h : Kept options s) (hs : release s = some s') : Kept options s' := by
  unfold Diagnostics.release at hs
  split at hs
  next p slot ticket hturn =>
    cases hs
    have hsublist : (deleteObject s.rows ⟨slot, p, ticket⟩).Sublist s.rows := List.filter_sublist
    refine ⟨fun r hr => h.slot r (hsublist.subset hr), h.nodup.sublist (hsublist.map _), h.counter, ?_, ?_,
      h.installed, h.counted⟩
    · intro hlt
      exact ⟨fun r hr => (h.early hlt).1 r (hsublist.subset hr), (h.early hlt).2⟩
    · refine custody_of_others h.custody (p := p) ?_ ?_
      · intro q hq
        simp [State.view, keysOf_deleteObject, hturn, Turn.keyOf, Ne.symm hq]
      · have hhand : (s.view p).hand = some (slot, ticket) := by simp [State.view, hturn, Turn.keyOf]
        have hcustody := (h.custody p).release (nodup_keysOf h.nodup p) hhand
        simpa [State.view, keysOf_deleteObject, Turn.keyOf] using hcustody
  next => cases hs

theorem Kept.report (h : Kept options s) (hs : report options s = some s') : Kept options s' := by
  unfold Diagnostics.report at hs
  split at hs
  next hturn =>
    have hcustody : ∀ q, View.Custody { s.view q with hand := none } := by
      intro q
      have hq := h.custody q
      simpa [State.view, hturn, Turn.keyOf] using hq
    split at hs
    next =>
      cases hs
      exact h.turn rfl rfl rfl rfl hcustody h.installed h.counted
    next =>
      cases hs
      exact h.turn rfl rfl rfl rfl hcustody h.installed h.counted
  next => cases hs

theorem Kept.takeDrops (h : Kept options s) (hs : takeDrops s = some s') : Kept options s' := by
  unfold Diagnostics.takeDrops at hs
  split at hs
  next windowEnd hturn =>
    have hcustody : ∀ q, View.Custody { s.view q with hand := none } := by
      intro q
      have hq := h.custody q
      simpa [State.view, hturn, Turn.keyOf] using hq
    split at hs
    next =>
      cases hs
      refine h.turn rfl rfl rfl rfl hcustody h.installed ?_
      intro hlt
      obtain ⟨hdrops, hreported, late, hmem, hsum⟩ := h.counted hlt
      refine ⟨le_rfl, ?_, late, hmem, ?_⟩
      · simp only [reported_append, Delivery.dropped]
        omega
      · simp only [reported_append, Delivery.dropped]
        omega
    next hdrops =>
      cases hs
      refine h.turn rfl rfl rfl rfl hcustody h.installed ?_
      intro hlt
      obtain ⟨hnonneg, hreported, late, hmem, hsum⟩ := h.counted hlt
      exact ⟨le_rfl, hreported, late, hmem, by simp only; omega⟩
  next => cases hs

theorem Kept.watch (h : Kept options s) (hs : watch s p = some s') : Kept options s' := by
  unfold Diagnostics.watch at hs
  split at hs
  next =>
    cases hs
    exact h.turn rfl rfl rfl rfl h.custody
      (fun q reference hq => List.mem_cons_of_mem _ (h.installed q reference hq)) h.counted
  next => cases hs

theorem Kept.down {reference : ℕ} (h : Kept options s) (hs : down s reference p = some s') : Kept options s' := by
  unfold Diagnostics.down at hs
  split at hs
  next hturn hinbox =>
    split at hs
    next hdead =>
      simp only at hs
      split at hs
      next hmonitor =>
        cases hs
        have hsublist : (matchDelete s.rows p).Sublist s.rows := List.filter_sublist
        refine ⟨fun r hr => h.slot r (hsublist.subset hr), h.nodup.sublist (hsublist.map _), h.counter, ?_, ?_, ?_,
          h.counted⟩
        · intro hlt
          exact ⟨fun r hr => (h.early hlt).1 r (hsublist.subset hr), (h.early hlt).2⟩
        · refine custody_of_others h.custody (p := p) ?_ ?_
          · intro q hq
            simp [State.view, keysOf_matchDelete, hturn, Turn.keyOf, Ne.symm hq, hq]
          · have hhand : (s.view p).hand = none := by simp [State.view, hturn, Turn.keyOf]
            have hcustody := View.custody_reconciled (v := s.view p) hdead.1 hinbox hhand
            simpa [State.view, keysOf_matchDelete, hturn, Turn.keyOf] using hcustody
        · intro q other hq
          by_cases hqp : q = p
          · subst hqp
            simp at hq
          · simp only [Function.update_of_ne hqp] at hq
            have hne : (other, q) ≠ (reference, p) := by simp [hqp]
            exact (List.mem_erase_of_ne hne).2 (h.installed q other hq)
      next hmonitor =>
        cases hs
        refine h.turn rfl rfl rfl rfl h.custody ?_ h.counted
        intro q other hq
        have hne : (other, q) ≠ (reference, p) := by
          rintro heq
          cases heq
          exact hmonitor hq
        exact (List.mem_erase_of_ne hne).2 (h.installed q other hq)
    next => cases hs
  next => cases hs

/-- Every step keeps what is kept. -/
theorem Kept.step {a : Action P} (h : Kept options s) (hs : Step options s a s') : Kept options s' := by
  cases a with
  | register p item => exact h.register hs
  | takeTicket p => exact h.takeTicket hs
  | claim p => exact h.claim hs
  | deliver p => exact h.deliver hs
  | countDrop p => exact h.dropOwn hs
  | die p => exact h.die hs
  | receive p => exact h.receive hs
  | forward queued => exact h.forward hs
  | release => exact h.release hs
  | report => exact h.report hs
  | takeDrops => exact h.takeDrops hs
  | down reference p => exact h.down hs
  | watch p => exact h.watch hs

theorem kept_run {as : List (Action P)} (h : Run (Step options) .start as s) : Kept options s :=
  h.invariant kept_start fun _ _ _ hk hs => hk.step hs

/-! ## the bound -/

/-- The slots of the tickets that are not negative are those below the ceiling. -/
theorem Kept.rows_le (h : Kept options s) (hlt : s.taken < 2 ^ 63) : s.rows.length ≤ options.ceiling := by
  have hsubset : s.rows.map SlotRow.slot ⊆ (List.range options.ceiling).map Int.ofNat := by
    intro slot hslot
    obtain ⟨r, hr, rfl⟩ := List.mem_map.1 hslot
    have hnonneg := (h.early hlt).1 r hr
    have hpos : (0 : ℤ) < options.ceiling := by exact_mod_cast options.pos
    have hmod : r.slot = r.ticket % options.ceiling := by rw [h.slot r hr, Int.tmod_eq_emod_of_nonneg hnonneg]
    have h0 := Int.emod_nonneg r.ticket hpos.ne'
    have hlt := Int.emod_lt_of_pos r.ticket hpos
    refine List.mem_map.2 ⟨r.slot.toNat, List.mem_range.2 ?_, ?_⟩
    · omega
    · simp only [Int.ofNat_eq_natCast]
      omega
  have hle := (h.nodup.subperm hsubset).length_le
  simpa using hle

/-- The rows of some of the senders are among the rows. -/
theorem sum_keysOf_le (ps : Finset P) (rows : List (SlotRow P)) :
    ∑ p ∈ ps, (keysOf rows p).length ≤ rows.length := by
  induction rows with
  | nil => simp [keysOf]
  | cons r rows ih =>
    have hcons : ∀ p, (keysOf (r :: rows) p).length = (keysOf rows p).length + if r.owner = p then 1 else 0 := by
      intro p
      by_cases hp : r.owner = p <;> simp [keysOf, hp]
    simp only [hcons, Finset.sum_add_distrib, Finset.sum_ite_eq, List.length_cons]
    have hone : (if r.owner ∈ ps then 1 else 0) ≤ 1 := by split <;> omega
    omega

theorem View.Custody.undelivered_le {v : View} (h : v.Custody) : v.undelivered.length ≤ v.keys.length := by
  rcases h with ⟨-, hperm⟩ | ⟨hkeys, hinbox, hhand, -⟩
  · have hlength := hperm.length_eq
    rw [owed, List.length_append] at hlength
    omega
  · simp [undelivered, hinbox, hhand]

theorem View.Custody.mem_keys {v : View} (h : v.Custody) {key : ℤ × ℤ} (hk : key ∈ v.undelivered) : key ∈ v.keys := by
  rcases h with ⟨-, hperm⟩ | ⟨-, hinbox, hhand, -⟩
  · exact hperm.mem_iff.1 (List.mem_append_right _ hk)
  · simp [undelivered, hinbox, hhand] at hk

/-! ## who answers for a slot -/

/-- The sender is dead and its `DOWN` is still to be handled: the dispatcher monitors it, or has yet to receive
its request. -/
def State.DownDue (s : State P) (p : P) : Prop :=
  (s.senders p).alive = false ∧
    (.monitorMe ∈ s.inbox p ∨ ∃ reference, s.monitors p = some reference ∧ (reference, p) ∈ s.watches)

/-- Who answers for a slot: its sender, between its claim and its send; a message; or the `DOWN` of a sender
killed between its claim and its send. -/
inductive Account
  | sender | message | down

/-- The sender of a row has claimed the slot and not sent for it. -/
def State.Unsent (s : State P) (r : SlotRow P) : Prop :=
  (s.senders r.owner).phase.key? = some (r.slot, r.ticket)

def State.Answers (s : State P) (r : SlotRow P) : Account → Prop
  | .sender => (s.senders r.owner).alive = true ∧ s.Unsent r
  | .message => (s.view r.owner).undelivered.count (r.slot, r.ticket) = 1
  | .down => s.DownDue r.owner ∧ s.Unsent r

/-- A slot is answered for once. -/
theorem Kept.answers (h : Kept options s) {r : SlotRow P} (hr : r ∈ s.rows) :
    (∃! account, s.Answers r account) ∧ (s.view r.owner).undelivered.count (r.slot, r.ticket) ≤ 1 := by
  have hkey : (r.slot, r.ticket) ∈ (s.view r.owner).keys := mem_keysOf.2 hr
  obtain ⟨hwatched, -⟩ := (h.custody r.owner).watched_of_key hkey
  obtain ⟨hnodup, hmem⟩ := (h.custody r.owner).nodup_owed (nodup_keysOf h.nodup r.owner) hkey
  rw [View.owed, List.nodup_append] at hnodup
  obtain ⟨-, hnodup, hdisjoint⟩ := hnodup
  have hle := List.nodup_iff_count_le_one.1 hnodup (r.slot, r.ticket)
  refine ⟨?_, hle⟩
  rcases List.mem_append.1 hmem with hunsent | hmessage
  · have hunsent : s.Unsent r := by simpa [State.Unsent, State.view] using hunsent
    have hnone : (s.view r.owner).undelivered.count (r.slot, r.ticket) = 0 := by
      refine List.count_eq_zero.2 fun hmessage => ?_
      refine hdisjoint _ ?_ _ hmessage rfl
      rw [Option.mem_toList]
      exact hunsent
    cases halive : (s.senders r.owner).alive with
    | true =>
      refine ⟨.sender, ⟨halive, hunsent⟩, ?_⟩
      rintro (_ | _ | _) haccount
      · rfl
      · simp [State.Answers, hnone] at haccount
      · simp [State.Answers, State.DownDue, halive] at haccount
    | false =>
      have hdue : s.DownDue r.owner := by
        refine ⟨halive, hwatched.imp id fun hmonitor => ?_⟩
        obtain ⟨reference, href⟩ := Option.isSome_iff_exists.1 hmonitor
        exact ⟨reference, href, h.installed _ _ href⟩
      refine ⟨.down, ⟨hdue, hunsent⟩, ?_⟩
      rintro (_ | _ | _) haccount
      · simp [State.Answers, halive] at haccount
      · simp [State.Answers, hnone] at haccount
      · rfl
  · have hsent : ¬ s.Unsent r := by
      intro hunsent
      refine hdisjoint (r.slot, r.ticket) ?_ _ hmessage rfl
      rw [Option.mem_toList]
      exact hunsent
    have hcount := List.count_pos_iff.2 hmessage
    refine ⟨.message, ?_, ?_⟩
    · simp only [State.Answers]
      omega
    · rintro (_ | _ | _) haccount
      · exact absurd haccount.2 hsent
      · rfl
      · exact absurd haccount.2 hsent

/-! ## what frees a slot -/

/-- A row goes by the release its own message asks for, or when its sender is dead and reconciled. -/
inductive Freed (s : State P) (r : SlotRow P) : Action P → Prop
  | release (hturn : s.turn = .releasing r.owner r.slot r.ticket) : Freed s r .release
  | down {reference : ℕ} (hdead : (s.senders r.owner).alive = false) (hall : (s.view r.owner).undelivered = []) :
    Freed s r (.down reference r.owner)

theorem receive_rows (hs : receive s p = some s') : s'.rows = s.rows := by
  unfold receive at hs
  split at hs
  · cases hs
    unfold monitorSender
    split <;> rfl
  · cases hs
    rfl
  · cases hs

/-- A row stays, or is freed by its own release or reconciliation. -/
theorem freed_of_step {a : Action P} (hs : Step options s a s') {r : SlotRow P} (hr : r ∈ s.rows) :
    r ∈ s'.rows ∨ Freed s r a := by
  unfold Step at hs
  cases a with
  | register p item =>
    simp only [act, register] at hs
    split at hs <;> cases hs <;> exact .inl hr
  | takeTicket p =>
    simp only [act, takeTicket] at hs
    split at hs <;> cases hs
    exact .inl hr
  | claim p =>
    simp only [act, claim] at hs
    split at hs
    next recorded item ticket hp =>
      rcases insertNew_cases s.rows ⟨ticket.tmod options.ceiling, p, ticket⟩ with ⟨hinsert, -⟩ | ⟨hinsert, -⟩
      · simp only [hinsert] at hs
        cases hs
        exact .inl (List.mem_cons_of_mem _ hr)
      · simp only [hinsert] at hs
        cases hs
        exact .inl hr
    next => cases hs
  | deliver p =>
    simp only [act, deliver] at hs
    split at hs <;> cases hs
    exact .inl hr
  | countDrop p =>
    simp only [act, dropOwn] at hs
    split at hs <;> cases hs
    exact .inl hr
  | die p =>
    simp only [act, die] at hs
    split at hs <;> cases hs
    exact .inl hr
  | receive p =>
    left
    rw [receive_rows hs]
    exact hr
  | forward queued =>
    simp only [act, forward] at hs
    split at hs
    · split at hs
      · cases hs
        exact .inl hr
      · split at hs <;> cases hs <;> exact .inl hr
    · cases hs
  | release =>
    simp only [act, release] at hs
    split at hs
    next p slot ticket hturn =>
      cases hs
      by_cases heq : r = ⟨slot, p, ticket⟩
      · subst heq
        exact .inr (.release hturn)
      · exact .inl (List.mem_filter.2 ⟨hr, by simpa using heq⟩)
    next => cases hs
  | report =>
    simp only [act, report] at hs
    split at hs
    · split at hs <;> cases hs <;> exact .inl hr
    · cases hs
  | takeDrops =>
    simp only [act, takeDrops] at hs
    split at hs
    · split at hs <;> cases hs <;> exact .inl hr
    · cases hs
  | down reference p =>
    simp only [act, down] at hs
    split at hs
    next hturn hinbox =>
      split at hs
      next hdead =>
        split at hs
        next =>
          cases hs
          by_cases howner : r.owner = p
          · subst howner
            exact .inr (.down hdead.1 (by simp [View.undelivered, State.view, hturn, hinbox, Turn.keyOf]))
          · exact .inl (List.mem_filter.2 ⟨hr, by simpa using howner⟩)
        next =>
          cases hs
          exact .inl hr
      next => cases hs
    next => cases hs
  | watch p =>
    simp only [act, watch] at hs
    split at hs <;> cases hs
    exact .inl hr

/-! ## the statement -/

/-- **The diagnostics plane keeps custody of its slots.**  After every run, while fewer than `2 ^ 63` tickets have
been taken, no more than a ceiling's worth of slots is held and of items is under way; each slot is answered
for once, each item under way has its slot, and a slot is freed only by its own message or by the `DOWN` of its
own sender; and the drops reported and pending are the claims that failed and the items not forwarded, but for
those of senders that have not counted theirs. -/
theorem diagnostics_custody {as : List (Action P)} (h : Run (Step options) .start as s) :
    (s.taken < 2 ^ 63 → s.rows.length ≤ options.ceiling ∧
      ∀ ps : Finset P, ∑ p ∈ ps, (s.view p).undelivered.length ≤ options.ceiling) ∧
    (∀ r ∈ s.rows, (∃! account, s.Answers r account) ∧
      (s.view r.owner).undelivered.count (r.slot, r.ticket) ≤ 1) ∧
    (∀ p, ∀ key ∈ (s.view p).undelivered, ⟨key.1, p, key.2⟩ ∈ s.rows) ∧
    (∀ a s', Step options s a s' → ∀ r ∈ s.rows, r ∈ s'.rows ∨ Freed s r a) ∧
    (s.failures + s.discards < 2 ^ 63 → ∃ late : Finset P,
      (∀ p, p ∈ late ↔ (s.senders p).phase.uncounted = true) ∧
        s.drops + reported s.sent + late.card = s.failures + s.discards) := by
  have hkept := kept_run h
  refine ⟨fun hlt => ⟨hkept.rows_le hlt, fun ps => ?_⟩, fun r hr => hkept.answers hr, fun p key hkey => ?_,
    fun a s' hs r hr => freed_of_step hs hr, fun hlt => (hkept.counted hlt).2.2⟩
  · calc ∑ p ∈ ps, (s.view p).undelivered.length
        ≤ ∑ p ∈ ps, (keysOf s.rows p).length := Finset.sum_le_sum fun p _ => (hkept.custody p).undelivered_le
      _ ≤ s.rows.length := sum_keysOf_le ps s.rows
      _ ≤ options.ceiling := hkept.rows_le hlt
  · have hkeys : key ∈ keysOf s.rows p := (hkept.custody p).mem_keys hkey
    exact (mem_keysOf (r := ⟨key.1, p, key.2⟩)).1 hkeys

/-! ## where the wording goes too far -/

/-- A sender whose claims all fail. -/
def churning (p : P) : List (Action P) := [.register p .nil, .takeTicket p, .claim p, .countDrop p]

/-- What claims that fail leave of a state. -/
structure Churned (p : P) (s s' : State P) (n : ℕ) : Prop where
  rows : s'.rows = s.rows
  ticket : s'.ticket = wrap (s.ticket + n)
  drops : s'.drops = wrap (s.drops + n)
  failures : s'.failures = s.failures + n
  discards : s'.discards = s.discards
  sent : s'.sent = s.sent
  self : s'.senders p = ⟨true, true, .idle⟩
  others : ∀ q, q ≠ p → s'.senders q = s.senders q

theorem churned_one (hp : s.senders p = ⟨true, true, .idle⟩)
    (hheld : (wrap (s.ticket + 1)).tmod options.ceiling ∈ s.rows.map SlotRow.slot) :
    ∃ s', Run (Step options) s (churning p) s' ∧ Churned p s s' 1 := by
  have hclaim : insertNew s.rows ⟨(wrap (s.ticket + 1)).tmod options.ceiling, p, wrap (s.ticket + 1)⟩ = none := by
    rcases insertNew_cases s.rows ⟨(wrap (s.ticket + 1)).tmod options.ceiling, p, wrap (s.ticket + 1)⟩ with
      ⟨-, hfree⟩ | ⟨hnone, -⟩
    · exact absurd hheld hfree
    · exact hnone
  refine ⟨_, .of_foldlM (f := act options) (t := ?_) ?_, ?_⟩
  rotate_left
  · simp [churning, act, register, takeTicket, claim, dropOwn, hp, hclaim, State.withSender]
    rfl
  · constructor <;> simp +contextual [State.countDrop]

/-- The first claim of a sender, of a slot that is free. -/
theorem claims_free (hp : s.senders p = ⟨true, false, .idle⟩)
    (hfree : (wrap (s.ticket + 1)).tmod options.ceiling ∉ s.rows.map SlotRow.slot) :
    ∃ as s', Run (Step options) s as s' ∧
      s'.rows = ⟨(wrap (s.ticket + 1)).tmod options.ceiling, p, wrap (s.ticket + 1)⟩ :: s.rows := by
  have hclaim : insertNew s.rows ⟨(wrap (s.ticket + 1)).tmod options.ceiling, p, wrap (s.ticket + 1)⟩ =
      some (⟨(wrap (s.ticket + 1)).tmod options.ceiling, p, wrap (s.ticket + 1)⟩ :: s.rows) := by
    rcases insertNew_cases s.rows ⟨(wrap (s.ticket + 1)).tmod options.ceiling, p, wrap (s.ticket + 1)⟩ with
      ⟨hsome, -⟩ | ⟨-, hheld⟩
    · exact hsome
    · exact absurd hheld hfree
  refine ⟨[.register p .nil, .takeTicket p, .claim p], _, .of_foldlM (f := act options) (t := ?_) ?_, ?_⟩
  rotate_left
  · simp [act, register, takeTicket, claim, hp, hclaim, State.withSender, State.send, State.withInbox]
    rfl
  · rfl

/-- Claims that fail for as long as the slots of the tickets are held. -/
theorem churned (hp : s.senders p = ⟨true, true, .idle⟩) (hticket : wrap s.ticket = s.ticket)
    (hdrops : wrap s.drops = s.drops) (n : ℕ)
    (hheld : ∀ i < n, (wrap (s.ticket + (i + 1))).tmod options.ceiling ∈ s.rows.map SlotRow.slot) :
    ∃ as s', Run (Step options) s as s' ∧ Churned p s s' n := by
  induction n with
  | zero => exact ⟨[], s, .nil, ⟨rfl, by simp [hticket], by simp [hdrops], rfl, rfl, rfl, hp, fun _ _ => rfl⟩⟩
  | succ n ih =>
    obtain ⟨as, t, hrun, ht⟩ := ih fun i hi => hheld i (by omega)
    have hnext : wrap (t.ticket + 1) = wrap (s.ticket + (n + 1)) := by rw [ht.ticket, wrap_wrap_add, add_assoc]
    have hslot : (wrap (t.ticket + 1)).tmod options.ceiling ∈ t.rows.map SlotRow.slot := by
      rw [hnext, ht.rows]
      exact hheld n (by omega)
    obtain ⟨u, hrun', hu⟩ := churned_one ht.self hslot
    refine ⟨as ++ churning p, u, hrun.trans hrun', ?_⟩
    refine ⟨by rw [hu.rows, ht.rows], ?_, ?_, ?_, by rw [hu.discards, ht.discards], by rw [hu.sent, ht.sent], hu.self, ?_⟩
    · rw [hu.ticket, ht.ticket]
      push_cast
      rw [wrap_wrap_add, add_assoc]
    · rw [hu.drops, ht.drops]
      push_cast
      rw [wrap_wrap_add, add_assoc]
    · rw [hu.failures, ht.failures, add_assoc]
    · intro q hq
      rw [hu.others q hq, ht.others q hq]

def once : Options := .new 1 (by decide) true

def twice : Options := .new 2 (by decide) true

/-- A sender sends for its slot and is killed. -/
def killed : List (Action ℕ) := [.register 0 .nil, .takeTicket 0, .claim 0, .deliver 0, .die 0]

/-- One slot, held by the first sender; the claims of the second fail. -/
def contended : List (Action ℕ) :=
  [.register 0 .nil, .takeTicket 0, .claim 0, .register 1 .nil, .takeTicket 1, .claim 1]

theorem diagnostics_custody_killed : ∃ s, Run (Step once) .start killed s ∧ s.rows.length ≤ 1 ∧
    ∃! account, s.Answers ⟨0, 0, 1⟩ account := by
  obtain ⟨s, hrun, hrows, htaken⟩ : ∃ s, Run (Step once) .start killed s ∧ s.rows = [⟨0, 0, 1⟩] ∧ s.taken = 1 :=
    ⟨_, .of_foldlM (f := act once) rfl, by decide, by decide⟩
  obtain ⟨hbound, hanswers, -⟩ := diagnostics_custody hrun
  exact ⟨s, hrun, (hbound (by rw [htaken]; decide)).1, (hanswers ⟨0, 0, 1⟩ (by simp [hrows])).1⟩

theorem killed_overlaps : ∃ s, Run (Step once) .start killed s ∧ ∃ r ∈ s.rows,
    (s.view r.owner).undelivered.count (r.slot, r.ticket) = 1 ∧ s.DownDue r.owner := by
  refine ⟨_, .of_foldlM (f := act once) rfl, ⟨0, 0, 1⟩, ?_, ?_, ?_, .inl ?_⟩
  · decide
  · decide
  · rfl
  · exact List.mem_cons_self

theorem contended_uncounted : ∃ s, Run (Step once) .start (contended ++ [.die 1]) s ∧
    s.failures + s.discards = 1 ∧ s.drops + reported s.sent = 0 ∧
    ∀ p, (s.senders p).alive = true → (s.senders p).phase.uncounted = false := by
  refine ⟨_, .of_foldlM (f := act once) rfl, ?_, ?_, ?_⟩
  · decide
  · decide
  · intro p hp
    by_cases h1 : p = 1
    · subst h1
      cases hp
    · by_cases h0 : p = 0
      · subst h0
        rfl
      · simp [State.withSender, State.withInbox, State.send, h0, h1, State.start, Phase.uncounted]

/-- The drop counter is negative once `2 ^ 63` drops are pending. -/
theorem contended_wraps : ∃ as s, Run (Step once) (.start : State ℕ) as s ∧ s.drops + reported s.sent < 0 := by
  obtain ⟨s, hrun, hrows, hticket, hdrops, hsent, hp⟩ : ∃ s, Run (Step once) .start (contended ++ [.countDrop 1]) s ∧
      s.rows = [⟨0, 0, 1⟩] ∧ s.ticket = 2 ∧ s.drops = 1 ∧ reported s.sent = 0 ∧ s.senders 1 = ⟨true, true, .idle⟩ :=
    ⟨_, .of_foldlM (f := act once) rfl, by decide, by decide, by decide, by decide, rfl⟩
  have hheld : ∀ i : ℕ, i < 2 ^ 63 - 1 → (wrap (s.ticket + (i + 1))).tmod once.ceiling ∈ s.rows.map SlotRow.slot := by
    intro i _
    rw [hrows]
    simp [once, Options.new, defaultCeiling]
  obtain ⟨as, t, hrun', ht⟩ := churned hp (by rw [hticket, wrap_of_lt] <;> omega)
    (by rw [hdrops, wrap_of_lt] <;> omega) (2 ^ 63 - 1) hheld
  refine ⟨_, t, hrun.trans hrun', ?_⟩
  rw [ht.sent, hsent, ht.drops, hdrops]
  decide

/-- A ticket past `2 ^ 63` is negative, and so is its slot. -/
theorem ceiling_wraps : ∃ as s, Run (Step twice) (.start : State ℕ) as s ∧ twice.ceiling < s.rows.length := by
  obtain ⟨s, hrun, hrows, hticket, hdrops, hp, hq⟩ : ∃ s, Run (Step twice) .start
      (contended ++ [.register 2 .nil, .takeTicket 2, .claim 2, .countDrop 2]) s ∧
      s.rows = [⟨0, 1, 2⟩, ⟨1, 0, 1⟩] ∧ s.ticket = 3 ∧ s.drops = 1 ∧ s.senders 2 = ⟨true, true, .idle⟩ ∧
      s.senders 3 = ⟨true, false, .idle⟩ :=
    ⟨_, .of_foldlM (f := act twice) rfl, by decide, by decide, by decide, rfl, rfl⟩
  have hheld : ∀ i : ℕ, i < 2 ^ 63 - 3 → (wrap (s.ticket + (i + 1))).tmod twice.ceiling ∈ s.rows.map SlotRow.slot := by
    intro i hi
    have hmod : (wrap (3 + ((i : ℤ) + 1))).tmod 2 = 0 ∨ (wrap (3 + ((i : ℤ) + 1))).tmod 2 = 1 := by
      by_cases hlast : (i : ℤ) = 2 ^ 63 - 4
      · left
        rw [hlast]
        decide
      · rw [wrap_of_lt (by omega) (by omega), Int.tmod_eq_emod_of_nonneg (by omega)]
        omega
    rw [hrows, hticket]
    rcases hmod with hmod | hmod <;> simp [twice, Options.new, defaultCeiling, hmod]
  obtain ⟨as, t, hrun', ht⟩ := churned hp (by rw [hticket, wrap_of_lt] <;> omega)
    (by rw [hdrops, wrap_of_lt] <;> omega) (2 ^ 63 - 3) hheld
  have hlast : wrap (t.ticket + 1) = -2 ^ 63 + 1 := by
    rw [ht.ticket, hticket, wrap_wrap_add]
    decide
  have hslot : (wrap (t.ticket + 1)).tmod twice.ceiling ∉ t.rows.map SlotRow.slot := by
    rw [hlast, ht.rows, hrows]
    decide
  have hq' : t.senders 3 = ⟨true, false, .idle⟩ := by rw [ht.others 3 (by decide), hq]
  obtain ⟨as', u, hrun'', hu⟩ := claims_free hq' hslot
  refine ⟨_, u, (hrun.trans hrun').trans hrun'', ?_⟩
  rw [hu, ht.rows, hrows]
  exact Nat.lt_succ_self 2

/-- **What the wording leaves out.**  An item under way keeps the slot of a dead sender, whose `DOWN` is still due;
a sender killed at the count leaves a drop that is never reported; and once a 64-bit counter has wrapped, drops are
reported as negative and there are more slots than the ceiling. -/
theorem diagnostics_custody_fails :
    (∃ as s, Run (Step once) (.start : State ℕ) as s ∧ ∃ r ∈ s.rows,
      (s.view r.owner).undelivered.count (r.slot, r.ticket) = 1 ∧ s.DownDue r.owner) ∧
    (∃ as s, Run (Step once) (.start : State ℕ) as s ∧ s.failures + s.discards = 1 ∧ s.drops + reported s.sent = 0 ∧
      ∀ p, (s.senders p).alive = true → (s.senders p).phase.uncounted = false) ∧
    (∃ as s, Run (Step once) (.start : State ℕ) as s ∧ s.drops + reported s.sent < 0) ∧
    (∃ as s, Run (Step twice) (.start : State ℕ) as s ∧ twice.ceiling < s.rows.length) :=
  ⟨⟨_, killed_overlaps⟩, ⟨_, contended_uncounted⟩, contended_wraps, ceiling_wraps⟩

end Loopex.Runtime.Diagnostics
