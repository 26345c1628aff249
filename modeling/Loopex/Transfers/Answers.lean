import Loopex.Transfers.Registry
import Mathlib.Data.List.Nodup

/-!
# Every call is answered once or waits

* `Answering` — the calls answered and the calls waiting are together the calls made, each once
* `Unended` — the worker of a call that waits has not gone down since the call was accepted
* `Answering.moved`, `Unended.moved` — every move keeps both
-/

namespace Loopex.Transfers

open Loopex.Erlang Loopex.System Owner

variable {s : System} {m : Move}

/-- The calls that wait. -/
def Owner.waiting (o : Owner) : List From := o.transfers.entries.flatMap fun e => e.2.slots

theorem waiting_put {o : Owner} {id : Ref} {r : Record} (hr : o.transfers.lookup id = some r) (r' : Record) :
    ((o.putRecord id r').waiting ++ r.slots).Perm (r'.slots ++ o.waiting) := by
  have hperm : o.waiting.Perm (r.slots ++ (o.transfers.erase id).entries.flatMap fun e => e.2.slots) :=
    (entries_perm hr).flatMap_right _
  have hput : (o.putRecord id r').waiting =
      r'.slots ++ (o.transfers.erase id).entries.flatMap fun e => e.2.slots := by
    unfold Owner.waiting putRecord
    rw [entries_insert_eq, List.flatMap_cons]
  rw [hput, List.append_assoc]
  exact List.Perm.append_left _ (List.perm_append_comm.trans hperm.symm)

theorem mem_waiting {o : Owner} {c : From} (h : c ∈ o.waiting) :
    ∃ id r slot, o.transfers.lookup id = some r ∧ r.waiting slot = some c := by
  obtain ⟨e, he, hc⟩ := List.mem_flatMap.1 h
  obtain ⟨slot, hslot⟩ := Record.mem_slots.1 hc
  exact ⟨e.1, e.2, slot, lookup_of_mem he, hslot⟩

/-- The calls answered and the calls waiting are together the calls made, and each was made once; a call
that waits was accepted where it waits. -/
structure Answering (s : System) : Prop where
  formed : ∀ id r, s.owner.transfers.lookup id = some r → r.Formed
  calls : (repliedTo s.history ++ s.owner.waiting).Perm (callers s.history)
  nodup : (callers s.history).Nodup
  old : ∀ c ∈ callers s.history, c.tag < s.fresh
  accepted : ∀ slot ref w t c, .accepted slot ref w t c ∈ s.history → c ∈ callers s.history
  once : ∀ slot ref w t slot' ref' w' t' c, .accepted slot ref w t c ∈ s.history →
    .accepted slot' ref' w' t' c ∈ s.history → slot = slot' ∧ ref = ref' ∧ w = w' ∧ t = t'
  bound : ∀ slot ref w t c, .accepted slot ref w t c ∈ s.history →
    w ≠ none ∧ (slot ≠ .opening → t ≠ none)
  known : ∀ id r slot c, s.owner.transfers.lookup id = some r → r.waiting slot = some c →
    .accepted slot id r.worker (r.waitTimer slot) c ∈ s.history

theorem not_accepted_replies {slot : Slot} {ref : Ref} {w : Option Pid} {t : Option Tag} {c : From}
    {es : List Effect} : Event.accepted slot ref w t c ∉ replies es := by
  intro h
  obtain ⟨_, _, he, -⟩ := mem_replies h
  cases he

namespace Answering

theorem start (limits : Limits) (clock : ℤ) : Answering (System.start limits clock) := by
  constructor <;> simp [System.start, repliedTo, callers, Owner.waiting]

/-- A call just made is answered by nobody and waits nowhere. -/
theorem unused (h : Answering s) {c : From} (hc : s.fresh ≤ c.tag) : c ∉ callers s.history := by
  intro hmem
  exact absurd (h.old c hmem) (Nat.not_lt.2 hc)

/-- The arrival of a message is no call and no answer. -/
theorem arrival (h : Answering s) {b : System} {e : Event} (howner : b.owner = s.owner)
    (hfresh : b.fresh = s.fresh) (hhistory : b.history = s.history ++ [e])
    (hreply : repliedTo [e] = []) (hcall : callers [e] = [])
    (haccept : ∀ slot ref w t c, e ≠ .accepted slot ref w t c) : Answering b := by
  have hmem : ∀ slot ref w t c, Event.accepted slot ref w t c ∈ b.history →
      Event.accepted slot ref w t c ∈ s.history := by
    intro slot ref w t c hmem
    rw [hhistory, List.mem_append, List.mem_singleton] at hmem
    exact hmem.resolve_right fun heq => haccept _ _ _ _ _ heq.symm
  refine ⟨?_, ?_, ?_, ?_, ?_, ?_, fun slot ref w t c hc => h.bound _ _ _ _ _ (hmem _ _ _ _ _ hc), ?_⟩
  · rw [howner]
    exact h.formed
  · rw [howner, hhistory, repliedTo_append, callers_append, hreply, hcall, List.append_nil, List.append_nil]
    exact h.calls
  · rw [hhistory, callers_append, hcall, List.append_nil]
    exact h.nodup
  · rw [hhistory, callers_append, hcall, List.append_nil, hfresh]
    exact h.old
  · intro slot ref w t c hc
    rw [hhistory, callers_append, hcall, List.append_nil]
    exact h.accepted slot ref w t c (hmem _ _ _ _ _ hc)
  · intro slot ref w t slot' ref' w' t' c hc hc'
    exact h.once _ _ _ _ _ _ _ _ _ (hmem _ _ _ _ _ hc) (hmem _ _ _ _ _ hc')
  · intro id r slot c hr hc
    rw [howner] at hr
    rw [hhistory]
    exact List.mem_append_left _ (h.known id r slot c hr hc)

theorem received (h : Answering s) (w : Pid) (rep : Report) (rest : List Report) :
    Answering (s.received w rep rest) :=
  h.arrival rfl rfl rfl rfl rfl fun _ _ _ _ _ => Event.noConfusion

theorem fired (h : Answering s) (t : Tag) : Answering (s.fired t) :=
  h.arrival rfl rfl rfl rfl rfl fun _ _ _ _ _ => Event.noConfusion

/-- A turn that changes no record and answers nobody. -/
theorem quiet (h : Answering s) (jobs : Table Tag Pid) :
    Answering (s.turn m ({ s.owner with jobs := jobs }, [])) := by
  have hhistory : (s.turn m ({ s.owner with jobs := jobs }, [])).history = s.history := List.append_nil _
  refine ⟨h.formed, ?_, ?_, ?_, ?_, ?_, ?_, ?_⟩
  · rw [hhistory]
    exact h.calls
  · rw [hhistory]
    exact h.nodup
  · rw [hhistory]
    exact fun c hc => lt_of_used (h.old c hc)
  · rw [hhistory]
    exact h.accepted
  · rw [hhistory]
    exact h.once
  · rw [hhistory]
    exact h.bound
  · rw [hhistory]
    exact h.known

/-- A message handler of one record. -/
theorem put (h : Answering s) {id : Ref} {r : Record} {x : Record × List Effect}
    (hr : s.owner.transfers.lookup id = some r) (hx : Sound r x) :
    Answering (s.turn m (s.owner.put id x)) := by
  have hcallers : callers (s.turn m (s.owner.put id x)).history = callers s.history := by
    change callers (s.history ++ replies x.2) = _
    rw [callers_append, callers_replies, List.append_nil]
  have hmem : ∀ slot ref w t c, Event.accepted slot ref w t c ∈ (s.turn m (s.owner.put id x)).history →
      Event.accepted slot ref w t c ∈ s.history := by
    intro slot ref w t c hc
    exact (List.mem_append.1 hc).resolve_right not_accepted_replies
  refine ⟨?_, ?_, ?_, ?_, ?_, ?_, fun slot ref w t c hc => h.bound _ _ _ _ _ (hmem _ _ _ _ _ hc), ?_⟩
  · intro id' r' hr'
    change (s.owner.transfers.insert id x.1).lookup id' = some r' at hr'
    by_cases hid : id' = id
    · subst hid
      rw [AList.lookup_insert] at hr'
      obtain rfl := Option.some.inj hr'
      exact hx.formed
    · rw [AList.lookup_insert_ne hid] at hr'
      exact h.formed id' r' hr'
  · rw [hcallers]
    change (repliedTo (s.history ++ replies x.2) ++ (s.owner.putRecord id x.1).waiting).Perm _
    rw [repliedTo_append, repliedTo_replies]
    have hput := waiting_put hr x.1
    have hslots := hx.conserves
    refine List.Perm.trans ?_ h.calls
    rw [List.append_assoc]
    refine List.Perm.append_left _ ?_
    refine (List.perm_append_right_iff r.slots).1 ?_
    rw [List.append_assoc]
    refine (List.Perm.append_left _ hput).trans ?_
    rw [← List.append_assoc]
    exact (List.Perm.append_right _ hslots).trans List.perm_append_comm
  · rw [hcallers]
    exact h.nodup
  · rw [hcallers]
    exact fun c hc => lt_of_used (h.old c hc)
  · intro slot ref w t c hc
    rw [hcallers]
    exact h.accepted slot ref w t c (hmem _ _ _ _ _ hc)
  · intro slot ref w t slot' ref' w' t' c hc hc'
    exact h.once _ _ _ _ _ _ _ _ _ (hmem _ _ _ _ _ hc) (hmem _ _ _ _ _ hc')
  · intro id' r' slot c hr' hc
    change (s.owner.transfers.insert id x.1).lookup id' = some r' at hr'
    refine List.mem_append_left _ ?_
    by_cases hid : id' = id
    · subst hid
      rw [AList.lookup_insert] at hr'
      obtain rfl := Option.some.inj hr'
      obtain ⟨hwait, hworker, htimer⟩ := hx.keeps slot c hc
      rw [hworker, htimer]
      exact h.known id' r slot c hr hwait
    · rw [AList.lookup_insert_ne hid] at hr'
      exact h.known id' r' slot c hr' hc

/-! ### calls -/

/-- A call, by what its turn does to the calls. -/
theorem called (h : Answering s) {pid : Pid} {t : Turn} {acc : List Event}
    (hacc : acc = [] ∨ ∃ slot ref w timer, acc = [.accepted slot ref w timer ⟨pid, s.fresh⟩] ∧
      w ≠ none ∧ (slot ≠ .opening → timer ≠ none))
    (hformed : ∀ id r, t.1.transfers.lookup id = some r → r.Formed)
    (hcalls : (answered t.2 ++ t.1.waiting).Perm (s.owner.waiting ++ [⟨pid, s.fresh⟩]))
    (hknown : ∀ id r slot c, t.1.transfers.lookup id = some r → r.waiting slot = some c →
      Event.accepted slot id r.worker (r.waitTimer slot) c ∈ s.history ∨
        Event.accepted slot id r.worker (r.waitTimer slot) c ∈ acc) :
    Answering (((s.log [.called ⟨pid, s.fresh⟩]).turn m t).log acc) := by
  have hquiet : repliedTo acc = [] ∧ callers acc = [] := by
    rcases hacc with rfl | ⟨slot, ref, w, timer, rfl, -⟩ <;> exact ⟨rfl, rfl⟩
  have hcallers : callers (((s.log [.called ⟨pid, s.fresh⟩]).turn m t).log acc).history =
      callers s.history ++ [⟨pid, s.fresh⟩] := by
    change callers (((s.history ++ [_]) ++ replies t.2) ++ acc) = _
    simp [callers, hquiet.2]
  have hunused : (⟨pid, s.fresh⟩ : From) ∉ callers s.history := h.unused (Nat.le_refl _)
  have hmem : ∀ slot ref w timer c,
      Event.accepted slot ref w timer c ∈ (((s.log [.called ⟨pid, s.fresh⟩]).turn m t).log acc).history →
        Event.accepted slot ref w timer c ∈ s.history ∨
          (acc = [.accepted slot ref w timer c] ∧ w ≠ none ∧ (slot ≠ .opening → timer ≠ none)) ∧
            c = ⟨pid, s.fresh⟩ := by
    intro slot ref w timer c hc
    rcases List.mem_append.1 hc with hc | hc
    · rcases List.mem_append.1 hc with hc | hc
      · rcases List.mem_append.1 hc with hc | hc
        · exact .inl hc
        · cases List.mem_singleton.1 hc
      · exact absurd hc not_accepted_replies
    · rcases hacc with rfl | ⟨slot', ref', w', timer', rfl, hbound⟩
      · cases hc
      · have heq := List.mem_singleton.1 hc
        obtain ⟨rfl, rfl, rfl, rfl, rfl⟩ := Event.accepted.inj heq
        exact .inr ⟨⟨rfl, hbound⟩, rfl⟩
  refine ⟨hformed, ?_, ?_, ?_, ?_, ?_, ?_, ?_⟩
  · rw [hcallers]
    change (repliedTo (((s.history ++ [_]) ++ replies t.2) ++ acc) ++ t.1.waiting).Perm _
    simp only [repliedTo_append, repliedTo_replies, hquiet.1, repliedTo, List.append_nil]
    rw [List.append_assoc]
    refine (List.Perm.append_left _ hcalls).trans ?_
    rw [← List.append_assoc]
    exact h.calls.append_right _
  · rw [hcallers]
    refine List.nodup_append.2 ⟨h.nodup, List.nodup_singleton _, ?_⟩
    intro c hc c' hc' heq
    subst heq
    exact hunused (List.mem_singleton.1 hc' ▸ hc)
  · rw [hcallers]
    intro c hc
    rcases List.mem_append.1 hc with hc | hc
    · exact lt_of_used (h.old c hc)
    · rw [List.mem_singleton.1 hc]
      exact Nat.lt_add_of_pos_right (Nat.succ_pos 2)
  · intro slot ref w timer c hc
    rw [hcallers]
    rcases hmem slot ref w timer c hc with hc | ⟨-, rfl⟩
    · exact List.mem_append_left _ (h.accepted slot ref w timer c hc)
    · exact List.mem_append_right _ List.mem_cons_self
  · intro slot ref w timer slot' ref' w' timer' c hc hc'
    rcases hmem _ _ _ _ c hc with hc | ⟨⟨heq, -⟩, rfl⟩
    · rcases hmem _ _ _ _ c hc' with hc' | ⟨-, rfl⟩
      · exact h.once _ _ _ _ _ _ _ _ c hc hc'
      · exact absurd (h.accepted _ _ _ _ _ hc) hunused
    · rcases hmem _ _ _ _ _ hc' with hc' | ⟨⟨heq', -⟩, -⟩
      · exact absurd (h.accepted _ _ _ _ _ hc') hunused
      · obtain ⟨h1, h2, h3, h4, -⟩ := Event.accepted.inj (List.cons.inj (heq.symm.trans heq')).1
        exact ⟨h1, h2, h3, h4⟩
  · intro slot ref w timer c hc
    rcases hmem _ _ _ _ c hc with hc | ⟨⟨-, hbound⟩, -⟩
    · exact h.bound _ _ _ _ _ hc
    · exact hbound
  · intro id r slot c hr hc
    rcases hknown id r slot c hr hc with hk | hk
    · exact List.mem_append_left _ (List.mem_append_left _ (List.mem_append_left _ hk))
    · exact List.mem_append_right _ hk

theorem acceptance_of_answered {c : Call} {sender : From} {t : Turn} (h : sender ∈ answered t.2) :
    acceptance c sender t = [] := by
  unfold acceptance
  split
  · rfl
  split
  · exact if_pos h
  · rfl

/-- A call answered at once, with nobody waiting who did not before. -/
theorem settled (h : Answering s) {pid : Pid} {c : Call} {t : Turn}
    (hanswer : (⟨pid, s.fresh⟩ : From) ∈ answered t.2)
    (hformed : ∀ id r, t.1.transfers.lookup id = some r → r.Formed)
    (hcalls : (answered t.2 ++ t.1.waiting).Perm (s.owner.waiting ++ [⟨pid, s.fresh⟩]))
    (hknown : ∀ id r slot c, t.1.transfers.lookup id = some r → r.waiting slot = some c →
      Event.accepted slot id r.worker (r.waitTimer slot) c ∈ s.history) :
    Answering (((s.log [.called ⟨pid, s.fresh⟩]).turn m t).log (acceptance c ⟨pid, s.fresh⟩ t)) :=
  h.called (.inl (acceptance_of_answered hanswer)) hformed hcalls
    fun id r slot c hr hc => .inl (hknown id r slot c hr hc)

/-- A call that changes one record. -/
theorem change (h : Answering s) {pid : Pid} {c : Call} {id : Ref} {r : Record} {x : Record × List Effect}
    (hr : s.owner.transfers.lookup id = some r) (hx : Taken ⟨pid, s.fresh⟩ c id r x) :
    Answering (((s.log [.called ⟨pid, s.fresh⟩]).turn m (s.owner.put id x)).log
      (acceptance c ⟨pid, s.fresh⟩ (s.owner.put id x))) := by
  have hformed : ∀ id' r', (s.owner.put id x).1.transfers.lookup id' = some r' → r'.Formed := by
    intro id' r' hr'
    change (s.owner.transfers.insert id x.1).lookup id' = some r' at hr'
    by_cases hid : id' = id
    · subst hid
      rw [AList.lookup_insert] at hr'
      obtain rfl := Option.some.inj hr'
      exact hx.formed
    · rw [AList.lookup_insert_ne hid] at hr'
      exact h.formed id' r' hr'
  have hcalls : (answered (s.owner.put id x).2 ++ (s.owner.put id x).1.waiting).Perm
      (s.owner.waiting ++ [⟨pid, s.fresh⟩]) := by
    refine (List.perm_append_right_iff r.slots).1 ?_
    rw [List.append_assoc]
    refine (List.Perm.append_left _ (waiting_put hr x.1)).trans ?_
    rw [← List.append_assoc]
    refine (hx.conserves.append_right _).trans ?_
    rw [List.append_assoc]
    refine List.perm_append_comm.trans ?_
    exact List.Perm.append_right _ (show ([_] ++ s.owner.waiting).Perm _ from List.perm_append_comm)
  rcases hx.keeps with ⟨hanswer, hkeeps⟩ | ⟨hquiet, slot, hslot, hwait, hbound, hothers⟩
  · refine h.settled hanswer hformed hcalls fun id' r' slot c hr' hc => ?_
    change (s.owner.transfers.insert id x.1).lookup id' = some r' at hr'
    by_cases hid : id' = id
    · subst hid
      rw [AList.lookup_insert] at hr'
      obtain rfl := Option.some.inj hr'
      obtain ⟨hwait, hworker, htimer⟩ := hkeeps slot c hc
      rw [hworker, htimer]
      exact h.known id' r slot c hr hwait
    · rw [AList.lookup_insert_ne hid] at hr'
      exact h.known id' r' slot c hr' hc
  · have hacc : acceptance c ⟨pid, s.fresh⟩ (s.owner.put id x) =
        [.accepted slot id x.1.worker (x.1.waitTimer slot) ⟨pid, s.fresh⟩] := by
      unfold acceptance
      simp only [hslot]
      have hfind : (s.owner.put id x).1.transfers.lookup id = some x.1 := AList.lookup_insert _
      have hnone : (⟨pid, s.fresh⟩ : From) ∉ answered (s.owner.put id x).2 := by
        change _ ∉ answered x.2
        simp [hquiet]
      simp only [hfind, if_neg hnone]
    refine h.called (.inr ⟨_, _, _, _, hacc, hbound⟩) hformed hcalls fun id' r' slot' c' hr' hc' => ?_
    change (s.owner.transfers.insert id x.1).lookup id' = some r' at hr'
    by_cases hid : id' = id
    · subst hid
      rw [AList.lookup_insert] at hr'
      obtain rfl := Option.some.inj hr'
      by_cases hs : slot' = slot
      · subst hs
        obtain rfl := Option.some.inj (hwait.symm.trans hc')
        rw [hacc]
        exact .inr List.mem_cons_self
      · obtain ⟨hw, hworker, htimer⟩ := hothers slot' hs c' hc'
        rw [hworker, htimer]
        exact .inl (h.known id' r slot' c' hr hw)
    · rw [AList.lookup_insert_ne hid] at hr'
      exact .inl (h.known id' r' slot' c' hr' hc')

/-- The end of a process. -/
theorem down (h : Answering s) {monitor : Tag} {pid : Pid} {normal : Bool} {t : Turn} {v : Env}
    (ht : DownTurn s.owner v monitor pid normal t) : Answering (s.turn m t) := by
  cases ht with
  | joined id r hr hmonitor hworker =>
    exact h.put hr (Sound.joined (by rw [hworker]; exact Option.some_ne_none pid) normal)
  | left id r hnone hr => exact h.put hr (Sound.beginRetirement (h.formed id r hr) _)
  | job => exact h.quiet _

theorem moved {s' : System} (h : Answering s) (hs : Moved s m s') : Answering s' := by
  cases hs with
  | call pid c t hin ht =>
    cases ht with
    | answer c reply jobs =>
      exact h.settled List.mem_cons_self h.formed List.perm_append_comm h.known
    | reserve request context hnew =>
      have hnone : s.owner.transfers.lookup context.transferRef = none := AList.lookup_eq_none.2 hnew
      have hback : ∀ id r, (s.owner.transfers.insert context.transferRef
          (reservation (s.env m) pid request context)).lookup id = some r →
          r = reservation (s.env m) pid request context ∨ s.owner.transfers.lookup id = some r := by
        intro id r hr
        by_cases hid : id = context.transferRef
        · subst hid
          rw [AList.lookup_insert] at hr
          exact .inl (Option.some.inj hr).symm
        · rw [AList.lookup_insert_ne hid] at hr
          exact .inr hr
      refine h.settled List.mem_cons_self (fun id r hr => ?_) ?_ fun id r slot c hr hc => ?_
      · rcases hback id r hr with rfl | hr
        · constructor <;> simp [reservation]
        · exact h.formed id r hr
      · have hwaiting : (s.owner.putRecord context.transferRef
            (reservation (s.env m) pid request context)).waiting = s.owner.waiting := by
          unfold Owner.waiting putRecord
          rw [AList.entries_insert_of_notMem hnew, List.flatMap_cons]
          rfl
        change ([_] ++ (s.owner.putRecord context.transferRef
          (reservation (s.env m) pid request context)).waiting).Perm _
        rw [hwaiting]
        exact List.perm_append_comm
      · rcases hback id r hr with rfl | hr
        · cases slot <;> cases hc
        · exact h.known id r slot c hr hc
    | free id receipt r hr hstatus hreceipt =>
      have hback : ∀ id' r', (s.owner.transfers.erase id).lookup id' = some r' →
          s.owner.transfers.lookup id' = some r' := by
        intro id' r' hr'
        by_cases hid : id' = id
        · subst hid
          rw [AList.lookup_erase] at hr'
          cases hr'
        · rwa [AList.lookup_erase_ne hid] at hr'
      have hanswered : answered (cancelTimer r.timer ++ cancelTimer r.closeTimer ++
          [.reply (⟨pid, s.fresh⟩ : From) .ok]) = [⟨pid, s.fresh⟩] := by simp [answered]
      have hslots : r.slots = [] := by
        obtain ⟨hopen, hread, hclose⟩ := (h.formed id r hr).settled (.inr hstatus)
        simp [Record.slots, hopen, hread, hclose]
      refine h.settled ?_ (fun id' r' hr' => h.formed id' r' (hback id' r' hr')) ?_
        fun id' r' slot c hr' hc => h.known id' r' slot c (hback id' r' hr') hc
      · rw [hanswered]
        exact List.mem_cons_self
      · rw [hanswered]
        refine List.perm_append_comm.trans (List.Perm.append_right _ ?_)
        have hperm : s.owner.waiting.Perm
            (r.slots ++ (s.owner.transfers.erase id).entries.flatMap fun e => e.2.slots) :=
          (entries_perm hr).flatMap_right _
        rw [hslots, List.nil_append] at hperm
        exact hperm.symm
    | change c id r x hr hx => exact h.change hr (hx.taken (h.formed id r hr))
  | report w k rep rest r x hk hout hdown hr hworker hx =>
    refine (h.received w rep rest).put hr ?_
    exact Sound.onReport (h.formed _ r hr) (by rw [hworker]; exact Option.some_ne_none w) hx
  | stray w k rep rest hk => exact (h.received w rep rest).quiet s.owner.jobs
  | ended w k normal rest t hk hout ht => exact (h.received w _ rest).down ht
  | down monitor pid normal t hin ht => exact h.down ht
  | timeout t timer r x hin htimer hr hx =>
    exact (h.fired t).put hr (Sound.onTimeout (h.formed _ r hr) hx)
  | late t timer => exact (h.fired t).quiet s.owner.jobs
  | act w k a next hk hact => exact ⟨h.formed, h.calls, h.nodup, h.old, h.accepted, h.once, h.bound, h.known⟩

end Answering

/-! ## the end of a worker -/

/-- The worker of a call that waits has not gone down since the call was accepted. -/
def Unended (s : System) : Prop :=
  ∀ id r slot c w normal, s.owner.transfers.lookup id = some r → r.waiting slot = some c →
    r.worker = some w →
      ¬ [Event.accepted slot id (some w) (r.waitTimer slot) c, .reported w (.down normal)].Sublist s.history

/-- A call that waits in a record of the later state waits there in the earlier one. -/
def Kept (s : System) (id : Ref) (r' : Record) (slot : Slot) (c : From) : Prop :=
  ∃ r, s.owner.transfers.lookup id = some r ∧ r.waiting slot = some c ∧ r'.worker = r.worker ∧
    r'.waitTimer slot = r.waitTimer slot

/-- A call that waits in the later state is new to the earlier one, or waits there too. -/
def Backed (s : System) (id : Ref) (r' : Record) (slot : Slot) (c : From) : Prop :=
  c ∉ callers s.history ∨ Kept s id r' slot c

/-- What follows a pair of events in time follows it in a longer history. -/
theorem sublist_of_append {a b : Event} {h es : List Event} (hb : b ∉ es)
    (hsub : [a, b].Sublist (h ++ es)) : [a, b].Sublist h := by
  obtain ⟨l, l', heq, hl, hl'⟩ := List.sublist_append_iff.1 hsub
  rcases l' with _ | ⟨y, l'⟩
  · rw [List.append_nil] at heq
    rwa [heq]
  · refine absurd (hl'.subset ?_) hb
    rcases l with _ | ⟨x, _ | ⟨x', l⟩⟩
    · rw [List.nil_append] at heq
      rw [← heq]
      exact List.mem_cons_of_mem _ List.mem_cons_self
    · obtain ⟨-, h2⟩ := List.cons.inj heq
      have h3 : [b] = y :: l' := h2
      rw [← h3]
      exact List.mem_cons_self
    · have := congrArg List.length heq
      simp at this

theorem Unended.later {s s' : System} (h : Unended s) (ha : Answering s) (es : List Event)
    (hhistory : s'.history = s.history ++ es)
    (hback : ∀ id r' slot c w, s'.owner.transfers.lookup id = some r' → r'.waiting slot = some c →
      r'.worker = some w → (∀ normal, Event.reported w (.down normal) ∉ es) ∧ Backed s id r' slot c) :
    Unended s' := by
  intro id r' slot c w normal hr' hc hw hsub
  obtain ⟨hes, hbacked⟩ := hback id r' slot c w hr' hc hw
  rw [hhistory] at hsub
  have hsub' := sublist_of_append (hes normal) hsub
  rcases hbacked with hnew | ⟨r, hr, hwait, hworker, htimer⟩
  · exact hnew (ha.accepted _ _ _ _ _ (hsub'.subset List.mem_cons_self))
  · rw [htimer] at hsub'
    exact h id r slot c w normal hr hwait (hworker.symm.trans hw) hsub'

section Backs

/-- The records a handler leaves alone, and the one it keeps the calls of. -/
theorem kept_put {b : System} {id id' : Ref} {r r' : Record} {x : Record × List Effect} {slot : Slot}
    {c : From} (hr : b.owner.transfers.lookup id = some r) (hx : r.Keeps x.1)
    (hr' : (b.owner.put id x).1.transfers.lookup id' = some r') (hc : r'.waiting slot = some c) :
    Kept b id' r' slot c := by
  change (b.owner.transfers.insert id x.1).lookup id' = some r' at hr'
  by_cases hid : id' = id
  · subst hid
    rw [AList.lookup_insert] at hr'
    obtain rfl := Option.some.inj hr'
    obtain ⟨hwait, hworker, htimer⟩ := hx slot c hc
    exact ⟨r, hr, hwait, hworker, htimer⟩
  · rw [AList.lookup_insert_ne hid] at hr'
    exact ⟨r', hr', hc, rfl, rfl⟩

/-- A turn logs no report. -/
theorem not_reported_replies {w : Pid} {rep : Report} {es : List Effect} : Event.reported w rep ∉ replies es := by
  intro h
  obtain ⟨_, _, he, -⟩ := mem_replies h
  cases he

theorem not_reported_acceptance {w : Pid} {rep : Report} {c : Call} {sender : From} {t : Turn} :
    Event.reported w rep ∉ acceptance c sender t := by
  unfold acceptance
  split
  · simp
  split
  · split <;> simp
  · simp

end Backs

namespace Unended

theorem start (limits : Limits) (clock : ℤ) : Unended (System.start limits clock) := by
  intro id r slot c w normal hr
  simp [System.start] at hr

/-- A move that reports no end. -/
theorem silent {s s' : System} (h : Unended s) (ha : Answering s) (es : List Event)
    (hhistory : s'.history = s.history ++ es) (hes : ∀ w normal, Event.reported w (.down normal) ∉ es)
    (hback : ∀ id r' slot c, s'.owner.transfers.lookup id = some r' → r'.waiting slot = some c →
      Backed s id r' slot c) : Unended s' :=
  h.later ha es hhistory fun id r' slot c w hr' hc _ => ⟨hes w, hback id r' slot c hr' hc⟩

theorem put_silent {b : System} {id : Ref} {r : Record} {x : Record × List Effect}
    (h : Unended s) (ha : Answering s) (es : List Event) (hhistory : b.history = s.history ++ es)
    (hes : ∀ w normal, Event.reported w (.down normal) ∉ es)
    (hr : s.owner.transfers.lookup id = some r) (hx : r.Keeps x.1) :
    Unended (b.turn m (s.owner.put id x)) := by
  refine h.silent ha (es ++ replies x.2) ?_ ?_ fun id' r' slot c hr' hc => ?_
  · change b.history ++ replies x.2 = _
    rw [hhistory, List.append_assoc]
  · intro w normal hmem
    rcases List.mem_append.1 hmem with hmem | hmem
    · exact hes w normal hmem
    · exact not_reported_replies hmem
  · exact .inr (kept_put hr hx hr' hc)

/-- The records after a call. -/
theorem backed_call {pid : Pid} {c : Call} {t : Turn} (ha : Answering s)
    (ht : CallTurn s.owner (s.env m) ⟨pid, s.fresh⟩ c t) {id : Ref} {r' : Record} {slot : Slot} {d : From}
    (hr' : t.1.transfers.lookup id = some r') (hd : r'.waiting slot = some d) : Backed s id r' slot d := by
  cases ht with
  | answer c reply jobs => exact .inr ⟨r', hr', hd, rfl, rfl⟩
  | reserve request context hnew =>
    change (s.owner.transfers.insert _ _).lookup id = some r' at hr'
    by_cases hid : id = context.transferRef
    · subst hid
      rw [AList.lookup_insert] at hr'
      obtain rfl := Option.some.inj hr'
      cases slot <;> cases hd
    · rw [AList.lookup_insert_ne hid] at hr'
      exact .inr ⟨r', hr', hd, rfl, rfl⟩
  | free id₀ receipt r hr =>
    change (s.owner.transfers.erase id₀).lookup id = some r' at hr'
    by_cases hid : id = id₀
    · subst hid
      rw [AList.lookup_erase] at hr'
      cases hr'
    · rw [AList.lookup_erase_ne hid] at hr'
      exact .inr ⟨r', hr', hd, rfl, rfl⟩
  | change c id₀ r x hr hx =>
    rcases (hx.taken (ha.formed id₀ r hr)).keeps with ⟨-, hkeeps⟩ | ⟨-, slot', -, hwait, -, hothers⟩
    · exact .inr (kept_put hr hkeeps hr' hd)
    · change (s.owner.transfers.insert id₀ x.1).lookup id = some r' at hr'
      by_cases hid : id = id₀
      · subst hid
        rw [AList.lookup_insert] at hr'
        obtain rfl := Option.some.inj hr'
        by_cases hs : slot = slot'
        · subst hs
          obtain rfl := Option.some.inj (hwait.symm.trans hd)
          exact .inl (ha.unused (Nat.le_refl _))
        · obtain ⟨hw, hworker, htimer⟩ := hothers slot hs d hd
          exact .inr ⟨r, hr, hw, hworker, htimer⟩
      · rw [AList.lookup_insert_ne hid] at hr'
        exact .inr ⟨r', hr', hd, rfl, rfl⟩

/-- The end of a worker answers everyone who waited for it. -/
theorem ended {w : Pid} {k : Worker} {normal : Bool} {rest : List Report} {t : Turn} (h : Unended s)
    (ha : Answering s) (hreg : Registered s) (hk : s.workers w = some k)
    (ht : DownTurn s.owner (s.env m) k.monitor w normal t) :
    Unended ((s.received w (.down normal) rest).turn m t) := by
  have hother : ∀ {id : Ref} {r' : Record} {slot : Slot} {c : From} {w' : Pid}, r'.worker = some w' →
      w' ≠ w → Backed s id r' slot c →
        (∀ normal', Event.reported w' (.down normal') ∉ [Event.reported w (.down normal)] ++ replies t.2) ∧
          Backed s id r' slot c := by
    intro id r' slot c w' hw' hne hb
    refine ⟨fun normal' hmem => ?_, hb⟩
    rcases List.mem_append.1 hmem with hmem | hmem
    · obtain ⟨heq, -⟩ := Event.reported.inj (List.mem_singleton.1 hmem)
      exact hne heq
    · exact not_reported_replies hmem
  have hmonitor : ∀ {id : Ref} {r : Record}, s.owner.transfers.lookup id = some r → r.worker = some w →
      r.workerMonitor = some k.monitor := by
    intro id r hr hw
    obtain ⟨k', hk', -, hmonitor, -⟩ := hreg.worker id r w hr hw
    obtain rfl := Option.some.inj (hk.symm.trans hk')
    exact hmonitor
  refine h.later ha ([.reported w (.down normal)] ++ replies t.2) ?_
    fun id' r' slot c w' hr' hc hw' => ?_
  · exact List.append_assoc _ _ _
  cases ht with
  | joined id r hr hm hworker =>
    change (s.owner.transfers.insert id _).lookup id' = some r' at hr'
    by_cases hid : id' = id
    · subst hid
      rw [AList.lookup_insert] at hr'
      obtain rfl := Option.some.inj hr'
      cases slot <;> cases hc
    · rw [AList.lookup_insert_ne hid] at hr'
      refine hother hw' ?_ (.inr ⟨r', hr', hc, rfl, rfl⟩)
      rintro rfl
      exact hid (hreg.inj hr' hr hw' hworker)
  | left id r hnone hr =>
    have hb := kept_put hr (Record.beginRetirement_keeps _ _ _ _ (ha.formed id r hr)) hr' hc
    refine hother hw' ?_ (.inr hb)
    rintro rfl
    obtain ⟨r₀, hr₀, -, hworker, -⟩ := hb
    exact findWorker_none hnone hr₀ ⟨hmonitor hr₀ (hworker.symm.trans hw'), hworker.symm.trans hw'⟩
  | job hnone =>
    refine hother hw' ?_ (.inr ⟨r', hr', hc, rfl, rfl⟩)
    rintro rfl
    exact findWorker_none hnone hr' ⟨hmonitor hr' hw', hw'⟩

theorem moved {s' : System} (h : Unended s) (ha : Answering s) (hreg : Registered s) (hs : Moved s m s') :
    Unended s' := by
  cases hs with
  | call pid c t hin ht =>
    refine h.silent ha ([.called ⟨pid, s.fresh⟩] ++ replies t.2 ++ acceptance c ⟨pid, s.fresh⟩ t) ?_ ?_
      fun id r' slot d hr' hd => backed_call ha ht hr' hd
    · simp [System.turn, System.log]
    · intro w normal hmem
      rcases List.mem_append.1 hmem with hmem | hmem
      · rcases List.mem_append.1 hmem with hmem | hmem
        · cases List.mem_singleton.1 hmem
        · exact not_reported_replies hmem
      · exact not_reported_acceptance hmem
  | report w k rep rest r x hk hout hdown hr hworker hx =>
    have hsound : Sound r x := Sound.onReport (ha.formed _ r hr) (by rw [hworker]; exact Option.some_ne_none w) hx
    refine h.put_silent ha ([.reported w rep]) rfl ?_ hr hsound.keeps
    intro w' normal hmem
    obtain ⟨-, heq⟩ := Event.reported.inj (List.mem_singleton.1 hmem)
    exact hdown normal heq.symm
  | stray w k rep rest hk hout hdown =>
    refine h.silent ha ([.reported w rep]) (List.append_nil _) ?_
      fun id r' slot c hr' hc => .inr ⟨r', hr', hc, rfl, rfl⟩
    intro w' normal hmem
    obtain ⟨-, heq⟩ := Event.reported.inj (List.mem_singleton.1 hmem)
    exact hdown normal heq.symm
  | ended w k normal rest t hk hout ht => exact h.ended ha hreg hk ht
  | down monitor pid normal t hin ht =>
    refine h.silent ha (replies t.2) rfl (fun _ _ => not_reported_replies) fun id' r' slot c hr' hc => ?_
    cases ht with
    | joined id r hr hm hworker =>
      exact .inr (kept_put hr (Sound.joined (by rw [hworker]; exact Option.some_ne_none pid) normal).keeps hr' hc)
    | left id r hnone hr =>
      exact .inr (kept_put hr (Record.beginRetirement_keeps _ _ _ _ (ha.formed id r hr)) hr' hc)
    | job => exact .inr ⟨r', hr', hc, rfl, rfl⟩
  | timeout t timer r x hin htimer hr hx =>
    refine h.put_silent ha ([.fired t]) rfl ?_ hr (Sound.onTimeout (ha.formed _ r hr) hx).keeps
    intro w' normal hmem
    cases List.mem_singleton.1 hmem
  | late t timer =>
    refine h.silent ha ([.fired t]) (List.append_nil _) ?_
      fun id r' slot c hr' hc => .inr ⟨r', hr', hc, rfl, rfl⟩
    intro w' normal hmem
    cases List.mem_singleton.1 hmem
  | act w k a next hk hact => exact h

end Unended

end Loopex.Transfers
