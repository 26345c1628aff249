import Loopex.Transfers.Custody
import Loopex.Transfers.Deadlines

/-!
# Slots, receipts and bytes

* `Delivers`, `Sourced` — a chunk is the answer of a read that waited
* `Bounded` — the transfers and the jobs keep to the capacity
* `Continues`, `slot_freed` — a slot is freed by the acknowledgement of its receipt only
* `transfer_custody` — slots, receipts and bytes, in every run
-/

namespace Loopex.Transfers

open Loopex.Erlang Loopex.System Owner

variable {o : Owner} {v : Env} {sender : From} {id : Ref} {r : Record} {x : Record × List Effect}
  {s : System} {m : Move}

/-! ## chunks go to readers -/

theorem replied_mem {es : List Effect} {c : From} {reply : Reply} :
    Event.replied c reply ∈ replies es ↔ Effect.reply c reply ∈ es := by
  induction es with
  | nil => simp [replies]
  | cons e es ih => cases e <;> simp [replies, ih]

theorem mem_answersTo {cs : List From} {h : List Event} {c : From} {reply : Reply} {result : ReadReply}
    (hc : c ∈ cs) (hmem : .replied c reply ∈ h) (hresult : reply.result = some result) :
    result ∈ answersTo cs h := by
  induction h with
  | nil => cases hmem
  | cons e h ih =>
    rcases List.mem_cons.1 hmem with rfl | hmem
    · simp only [answersTo, if_pos hc, hresult]
      exact List.mem_append_left _ List.mem_cons_self
    · have ih' := ih hmem
      cases e with
      | replied d reply' =>
        simp only [answersTo]
        split
        · exact List.mem_append_right _ ih'
        · exact ih'
      | called => exact ih'
      | accepted => exact ih'
      | reported => exact ih'
      | fired => exact ih'

/-- Whether a turn gives a chunk to a call. -/
def Delivers (c : From) (es : List Effect) : Prop := ∃ chunk, Effect.reply c (.chunk chunk) ∈ es

namespace Delivers

variable {c : From}

theorem none_of_replies {es : List Effect} (h : replies es = []) : ¬ Delivers c es := by
  rintro ⟨chunk, hmem⟩
  have hreply := replied_mem.2 hmem
  rw [h] at hreply
  cases hreply

theorem append {es es' : List Effect} : Delivers c (es ++ es') ↔ Delivers c es ∨ Delivers c es' := by
  simp only [Delivers, List.mem_append, exists_or]

theorem single {d : From} {reply : Reply} (h : ∀ chunk, reply ≠ .chunk chunk) : ¬ Delivers c [.reply d reply] := by
  rintro ⟨chunk, hmem⟩
  exact h chunk (Effect.reply.inj (List.mem_singleton.1 hmem)).2.symm

theorem waiters {d : Option From} {reply : Reply} (h : ∀ chunk, reply ≠ .chunk chunk) :
    ¬ Delivers c (d.toList.map (.reply · reply)) := by
  rintro ⟨chunk, hmem⟩
  obtain ⟨d', -, heq⟩ := List.mem_map.1 hmem
  exact h chunk (Effect.reply.inj heq).2

theorem joined (normal : Bool) : ¬ Delivers c ((r.joined v normal).finishWaiters v) := by
  have hopen : ∀ chunk, (r.joined v normal).openFailure ≠ .chunk chunk := by
    intro chunk
    unfold Record.openFailure
    split <;> exact fun h => by cases h
  have hread : ∀ chunk, (r.joined v normal).readFailure ≠ .chunk chunk := by
    intro chunk
    unfold Record.readFailure
    split <;> exact fun h => by cases h
  have hclose : ∀ chunk, (r.joined v normal).closeAnswer v ≠ .chunk chunk := by
    intro chunk
    unfold Record.closeAnswer
    split <;> exact fun h => by cases h
  unfold Record.finishWaiters
  simp only [append, not_or]
  exact ⟨⟨⟨⟨none_of_replies (replies_cancelTimer _), none_of_replies (replies_cancelTimer _)⟩, waiters hopen⟩,
    waiters hread⟩, waiters hclose⟩

theorem onTimeout {message : Timeout} (h : onTimeout v r message = some x) : ¬ Delivers c x.2 := by
  cases message with
  | expire id =>
    obtain ⟨deadline, -, rfl⟩ := Option.map_eq_some_iff.1 h
    exact none_of_replies (replies_beginRetirement _)
  | closeExpired id deadline =>
    obtain rfl := Option.some.inj h
    unfold onCloseExpired
    split
    · split
      · exact single fun _ h => by cases h
      · exact none_of_replies rfl
    · exact none_of_replies rfl
  | readExpired id deadline =>
    obtain rfl := Option.some.inj h
    unfold onReadExpired
    split
    · split
      · exact fun hd => (append.1 hd).elim (single fun _ h => by cases h)
          (none_of_replies (replies_beginRetirement _))
      · exact none_of_replies rfl
    · exact none_of_replies rfl

/-- Only the result of a read brings a chunk, and only to the reader that waits. -/
theorem onReport {rep : Report} (h : o.onReport v id r rep = some x) (hd : Delivers c x.2) :
    r.readFrom = some c := by
  cases rep with
  | readResult result =>
    have hanswer : ∀ d answer, Delivers c (answerRead r d answer).2 → d = c := by
      rintro d answer ⟨chunk, hmem⟩
      have hreply := replied_mem.2 hmem
      unfold answerRead at hreply
      rw [replies_append, replies_cancelTimer] at hreply
      exact (Event.replied.inj (List.mem_singleton.1 hreply)).1.symm
    change readResult v id r result = some x at h
    unfold readResult at h
    split at h
    next d hread =>
      split at h
      · split at h
        · obtain ⟨deadline, -, rfl⟩ := Option.map_eq_some_iff.1 h
          rcases append.1 hd with hd | hd
          · exact hanswer _ _ hd ▸ hread
          · exact absurd hd (none_of_replies (replies_beginRetirement _))
        · obtain rfl := Option.some.inj h
          exact hanswer _ _ hd ▸ hread
      · obtain rfl := Option.some.inj h
        exact absurd hd (none_of_replies rfl)
    · obtain rfl := Option.some.inj h
      exact absurd hd (none_of_replies rfl)
  | opened transfer use work =>
    obtain rfl := Option.some.inj h
    refine absurd hd ?_
    unfold transferOpened adopt
    split
    · split
      · exact fun hd => (append.1 hd).elim (waiters fun _ h => by cases h) (none_of_replies rfl)
      · exact none_of_replies (replies_beginRetirement _)
    · exact none_of_replies (replies_tell _ _)
  | work | retired | down =>
    obtain rfl := Option.some.inj h
    exact absurd hd (none_of_replies rfl)

theorem down {monitor : Tag} {pid : Pid} {normal : Bool} {t : Turn} (h : DownTurn o v monitor pid normal t) :
    ¬ Delivers c t.2 := by
  cases h with
  | joined id r => exact joined normal
  | left id r => exact none_of_replies (replies_beginRetirement _)
  | job => exact none_of_replies rfl

/-- No call is answered with a chunk at once. -/
theorem handleCall (call : Call) : ¬ Delivers c (o.handleCall v sender call).2 := by
  have hanswer : ∀ reply : Reply, (∀ chunk, reply ≠ .chunk chunk) → ¬ Delivers c (o.answer sender reply).2 :=
    fun reply h => single h
  have herror : ∀ reason, ¬ Delivers c (o.answer sender (.error reason)).2 :=
    fun reason => hanswer _ fun _ h => by cases h
  cases call with
  | reserveJob deadline =>
    change ¬ Delivers c (o.reserveJob v sender deadline).2
    unfold reserveJob
    split
    · split
      · exact single fun _ h => by cases h
      · exact herror _
    · exact herror _
  | releaseJob monitor =>
    change ¬ Delivers c (o.releaseJob sender monitor).2
    unfold releaseJob
    split
    · exact single fun _ h => by cases h
    · exact hanswer _ fun _ h => by cases h
  | reserve request context =>
    change ¬ Delivers c (o.reserve v sender request context).2
    dsimp only [reserve]
    split
    · exact herror _
    split
    · exact herror _
    split
    · exact herror _
    split
    · exact hanswer _ fun _ h => by cases h
    split
    · split
      · exact single fun _ h => by cases h
      · exact hanswer _ fun _ h => by cases h
    · exact hanswer _ fun _ h => by cases h
  | openTransfer request context =>
    change ¬ Delivers c (o.openTransfer v sender request context).2
    dsimp only [openTransfer]
    split
    · exact herror _
    split
    · exact herror _
    split
    · split
      · exact none_of_replies rfl
      · refine single fun chunk => ?_
        unfold Record.openFailure
        split <;> exact fun h => by cases h
    · exact herror _
  | read id length =>
    change ¬ Delivers c (o.read v sender id length).2
    dsimp only [Owner.read]
    split
    · exact herror _
    split
    · exact none_of_replies (replies_tell _ _)
    split
    · exact herror _
    · exact herror _
  | retire selector =>
    dsimp only [Owner.handleCall]
    split
    · dsimp only [Owner.retire]
      split
      · exact hanswer _ fun _ h => by cases h
      split
      · exact herror _
      split
      · exact single fun _ h => by cases h
      split
      · exact herror _
      · change ¬ Delivers c (awaitClose v sender _).2
        unfold awaitClose
        split
        · exact fun hd => (append.1 hd).elim (none_of_replies (replies_beginRetirement _))
            (single fun _ h => by cases h)
        split
        · exact fun hd => (append.1 hd).elim (none_of_replies (replies_beginRetirement _))
            (single fun _ h => by cases h)
        · exact none_of_replies (replies_beginRetirement _)
    · exact herror _
  | acknowledge id receipt =>
    dsimp only [Owner.handleCall]
    split
    · dsimp only [Owner.acknowledge]
      split
      · exact hanswer _ fun _ h => by cases h
      split
      · refine fun hd => (append.1 hd).elim (none_of_replies ?_) (single fun _ h => by cases h)
        rw [replies_append, replies_cancelTimer, replies_cancelTimer]
        rfl
      · exact herror _
    · exact herror _
  | live => exact hanswer _ fun _ h => by cases h

end Delivers

/-- Every chunk answers a read that was accepted. -/
def Sourced (s : System) : Prop :=
  ∀ c chunk, .replied c (.chunk chunk) ∈ s.history → ∃ w, c ∈ readers w s.history

namespace Sourced

theorem later {s' : System} (h : Sourced s) (es : List Event) (hhistory : s'.history = s.history ++ es)
    (hes : ∀ c chunk, .replied c (.chunk chunk) ∈ es → ∃ w, c ∈ readers w s.history) : Sourced s' := by
  intro c chunk hmem
  rw [hhistory] at hmem ⊢
  obtain ⟨w, hw⟩ := (List.mem_append.1 hmem).elim (h c chunk) (hes c chunk)
  refine ⟨w, ?_⟩
  rw [readers_append]
  exact List.mem_append_left _ hw

/-- A turn that delivers to the reader of a record at most. -/
theorem turned {b : System} {t : Turn} {es : List Event} (h : Sourced s) (ha : Answering s)
    (hhistory : b.history = s.history ++ es) (hes : ∀ c chunk, Event.replied c (.chunk chunk) ∉ es)
    (hd : ∀ c, Delivers c t.2 → ∃ id r, s.owner.transfers.lookup id = some r ∧ r.readFrom = some c) :
    Sourced (b.turn m t) := by
  refine h.later (es ++ replies t.2) ?_ fun c chunk hmem => ?_
  · change b.history ++ _ = _
    rw [hhistory, List.append_assoc]
  · have hreply := (List.mem_append.1 hmem).resolve_left (hes c chunk)
    obtain ⟨id, r, hr, hread⟩ := hd c ⟨chunk, replied_mem.1 hreply⟩
    have hknown := ha.known id r .reading c hr hread
    obtain ⟨w, hw⟩ := Option.ne_none_iff_exists'.1 (ha.bound _ _ _ _ _ hknown).1
    rw [hw] at hknown
    exact ⟨w, mem_readers.2 ⟨_, _, hknown⟩⟩

/-- A call is given no chunk at once. -/
theorem call (h : Sourced s) (pid : Pid) (c : Call) : Sourced (s.call m pid c) := by
  refine h.later ([.called ⟨pid, s.fresh⟩] ++ replies (s.owner.handleCall (s.env m) ⟨pid, s.fresh⟩ c).2 ++
    acceptance c ⟨pid, s.fresh⟩ (s.owner.handleCall (s.env m) ⟨pid, s.fresh⟩ c)) ?_ fun d chunk hmem => ?_
  · simp [System.call, System.turn, System.log]
  rcases List.mem_append.1 hmem with hmem | hmem
  · rcases List.mem_append.1 hmem with hmem | hmem
    · cases List.mem_singleton.1 hmem
    · exact absurd ⟨chunk, replied_mem.1 hmem⟩ (Delivers.handleCall c)
  · rcases acceptance_cases c ⟨pid, s.fresh⟩ _ with heq | ⟨-, slot, ref, r, -, heq⟩
    · rw [heq] at hmem
      cases hmem
    · rw [heq] at hmem
      cases List.mem_singleton.1 hmem

theorem step {s' : System} (h : Sourced s) (ha : Answering s) (hs : s.next m = some s') : Sourced s' := by
  have hnone : ∀ {es : List Effect}, (∀ c, ¬ Delivers c es) → ∀ c, Delivers c es →
      ∃ id r, s.owner.transfers.lookup id = some r ∧ r.readFrom = some c := fun hd c h' => absurd h' (hd c)
  have hsingle : ∀ e : Event, (∀ c chunk, e ≠ .replied c (.chunk chunk)) →
      ∀ c chunk, Event.replied c (.chunk chunk) ∉ [e] :=
    fun e he c chunk hmem => he c chunk (List.mem_singleton.1 hmem).symm
  have hmoved := next_moved hs
  cases hmoved with
  | call pid c t hin ht =>
    unfold System.next at hs
    rw [hin] at hs
    rw [← Option.some.inj hs]
    exact h.call pid c
  | report w k rep rest r x hk hout hdown hr hworker hx =>
    refine h.turned ha rfl (hsingle _ fun _ _ => Event.noConfusion) fun c hd => ⟨_, r, hr, ?_⟩
    exact Delivers.onReport hx hd
  | stray w k rep rest =>
    exact h.turned ha rfl (hsingle _ fun _ _ => Event.noConfusion) (hnone fun c => Delivers.none_of_replies rfl)
  | ended w k normal rest t hk hout ht =>
    exact h.turned ha rfl (hsingle _ fun _ _ => Event.noConfusion) (hnone fun c => Delivers.down ht)
  | down monitor pid normal t hin ht =>
    exact h.turned ha (List.append_nil _).symm (fun _ _ => List.not_mem_nil) (hnone fun c => Delivers.down ht)
  | timeout t timer r x hin htimer hr hx =>
    exact h.turned ha rfl (hsingle _ fun _ _ => Event.noConfusion) (hnone fun c => Delivers.onTimeout hx)
  | late t timer =>
    exact h.turned ha rfl (hsingle _ fun _ _ => Event.noConfusion) (hnone fun c => Delivers.none_of_replies rfl)
  | act => exact h

end Sourced

/-! ## capacity -/

/-- The transfers and the jobs keep to the capacity of the store. -/
structure Bounded (limits : Limits) (s : System) : Prop where
  same : s.owner.limits = limits
  capacity : s.owner.transfers.entries.length + s.owner.jobs.entries.length ≤ limits.perRuntime

namespace Bounded

variable {limits : Limits}

theorem start (clock : ℤ) : Bounded limits (System.start limits clock) := by
  refine ⟨rfl, ?_⟩
  simp [System.start]

theorem put (h : Bounded limits s) {b : System} (hr : s.owner.transfers.lookup id = some r) :
    Bounded limits (b.turn m (s.owner.put id x)) := by
  refine ⟨h.same, ?_⟩
  change (s.owner.transfers.insert id x.1).entries.length + _ ≤ _
  rw [length_insert_of_some hr]
  exact h.capacity

theorem fewer (h : Bounded limits s) {s' : System} (hlimits : s'.owner.limits = s.owner.limits)
    (htransfers : s'.owner.transfers.entries.length ≤ s.owner.transfers.entries.length)
    (hjobs : s'.owner.jobs.entries.length ≤ s.owner.jobs.entries.length) : Bounded limits s' :=
  ⟨hlimits.trans h.same, (Nat.add_le_add htransfers hjobs).trans h.capacity⟩

theorem down (h : Bounded limits s) {b : System} {monitor : Tag} {pid : Pid} {normal : Bool} {t : Turn} {v : Env}
    (ht : DownTurn s.owner v monitor pid normal t) : Bounded limits (b.turn m t) := by
  cases ht with
  | joined id r hr => exact h.put hr
  | left id r hnone hr => exact h.put hr
  | job => exact h.fewer rfl le_rfl length_erase_le

theorem moved (h : Bounded limits s) {s' : System} (hs : Moved s m s') : Bounded limits s' := by
  cases hs with
  | call pid c t hin ht =>
    cases ht with
    | answer c reply jobs hjobs =>
      refine ⟨h.same, ?_⟩
      change s.owner.transfers.entries.length + jobs.entries.length ≤ _
      rcases hjobs with hle | hle
      · exact (Nat.add_le_add_left hle _).trans h.capacity
      · rwa [h.same] at hle
    | reserve request context hnew hroom =>
      refine ⟨h.same, ?_⟩
      change (s.owner.transfers.insert _ _).entries.length + _ ≤ _
      rw [length_insert_of_none (AList.lookup_eq_none.2 hnew)]
      rw [h.same] at hroom
      change _ + s.owner.jobs.entries.length ≤ _
      omega
    | free id receipt r => exact h.fewer rfl length_erase_le le_rfl
    | change c id r x hr =>
      have hput : Bounded limits ((s.log [.called ⟨pid, s.fresh⟩]).turn m (s.owner.put id x)) := h.put hr
      exact hput.fewer rfl le_rfl le_rfl
  | report w k rep rest r x hk hout hdown hr => exact h.put hr
  | stray => exact h.fewer rfl le_rfl le_rfl
  | ended w k normal rest t hk hout ht => exact h.down ht
  | down monitor pid normal t hin ht => exact h.down ht
  | timeout t timer r x hin htimer hr => exact h.put hr
  | late => exact h.fewer rfl le_rfl le_rfl
  | act => exact h.fewer rfl le_rfl le_rfl

end Bounded

/-! ## the release of a slot -/

/-- The same reservation: its worker and its receipt stay. -/
structure Continues (r r' : Record) : Prop where
  caller : r'.callerMonitor = r.callerMonitor
  worker : ∀ w, r.worker = some w → r'.worker = some w
  receipt : r.receipt ≠ none → r'.receipt = r.receipt

theorem Holds.continues {r r' : Record} (h : Holds r r') : Continues r r' :=
  ⟨h.caller, fun w hw => (h.started w hw).1, h.issued⟩

theorem Continues.refl (r : Record) : Continues r r := ⟨rfl, fun _ hw => hw, fun _ => rfl⟩

theorem Continues.onReport {rep : Report} (hr : r.Formed) (h : o.onReport v id r rep = some x) :
    Continues r x.1 := by
  cases rep with
  | readResult result => exact (Holds.readResult hr h).continues
  | opened transfer use work =>
    obtain rfl := Option.some.inj h
    exact (Holds.transferOpened hr transfer use work).continues
  | work | retired | down =>
    obtain rfl := Option.some.inj h
    exact ⟨rfl, fun _ hw => hw, fun _ => rfl⟩

/-- The first end of a worker finds no receipt. -/
theorem Continues.joined {w : Pid} {h : List Event} (hh : Held h w r) (hgone : ¬ Gone h w) (normal : Bool) :
    Continues r (r.joined v normal).released := by
  have hbind := joined_binding (v := v) (r := r) normal
  refine ⟨congrArg Binding.callerMonitor hbind, fun w' hw => (congrArg Binding.worker hbind).trans hw, fun hne => ?_⟩
  obtain ⟨outcome, work, hsub⟩ := hh.receipt hne
  exact absurd ⟨true, hsub.subset (List.mem_cons_of_mem _ List.mem_cons_self)⟩ hgone

/-- What a slot of a system becomes. -/
def Follows (s s' : System) : Prop :=
  ∀ id r, s.owner.transfers.lookup id = some r →
    ∃ r', s'.owner.transfers.lookup id = some r' ∧ Continues r r'

theorem Follows.same {s' : System} (h : s'.owner.transfers = s.owner.transfers) : Follows s s' :=
  fun _ r hr => ⟨r, h ▸ hr, .refl r⟩

theorem Follows.put {s' : System} (hr : s.owner.transfers.lookup id = some r)
    (h : s'.owner.transfers = s.owner.transfers.insert id x.1) (hx : Continues r x.1) : Follows s s' := by
  intro id' r' hr'
  rw [h]
  by_cases hid : id' = id
  · subst hid
    obtain rfl := Option.some.inj (hr.symm.trans hr')
    exact ⟨x.1, AList.lookup_insert _, hx⟩
  · exact ⟨r', (AList.lookup_insert_ne hid).trans hr', .refl r'⟩

theorem Follows.down {b : System} {monitor : Tag} {pid : Pid} {normal : Bool} {t : Turn}
    (ha : Answering s) (ht : DownTurn s.owner (s.env m) monitor pid normal t)
    (hjoined : ∀ id r, s.owner.transfers.lookup id = some r → r.worker = some pid →
      r.workerMonitor = some monitor → Continues r (r.joined (s.env m) normal).released) :
    Follows s (b.turn m t) := by
  cases ht with
  | joined id r hr hmonitor hworker => exact .put hr rfl (hjoined id r hr hworker hmonitor)
  | left id r hnone hr => exact .put hr rfl (Holds.beginRetirement (ha.formed id r hr) _).continues
  | job => exact .same rfl

/-- A slot is freed by the acknowledgement of its receipt only. -/
theorem slot_freed {s' : System} (hc : Custody s) (hlines : Lines s) (ha : Answering s) (hreg : Registered s)
    (hs : System.Step s m s') (hr : s.owner.transfers.lookup id = some r) :
    (∃ r', s'.owner.transfers.lookup id = some r' ∧ Continues r r') ∨
      ∃ pid receipt, m.input = .call pid (.acknowledge id receipt) ∧ r.status = .retired ∧
        r.receipt = some receipt := by
  have hmoved := next_moved hs.2
  cases hmoved with
  | call pid c t hin ht =>
    cases ht with
    | answer => exact .inl (Follows.same rfl id r hr)
    | reserve request context hnew =>
      refine .inl ⟨r, (AList.lookup_insert_ne ?_).trans hr, .refl r⟩
      rintro rfl
      rw [AList.lookup_eq_none.2 hnew] at hr
      cases hr
    | free id' receipt r' hr' hstatus hreceipt =>
      by_cases hid : id = id'
      · subst hid
        obtain rfl := Option.some.inj (hr.symm.trans hr')
        exact .inr ⟨pid, receipt, hin, hstatus, hreceipt⟩
      · exact .inl ⟨r, (AList.lookup_erase_ne hid).trans hr, .refl r⟩
    | change c id' r' x hr' hx =>
      exact .inl (Follows.put hr' rfl (Holds.called (ha.formed id' r' hr') hx).continues id r hr)
  | report w k rep rest r' x hk hout hdown hr' hworker hx =>
    exact .inl (Follows.put hr' rfl (.onReport (ha.formed _ r' hr') hx) id r hr)
  | stray => exact .inl (Follows.same rfl id r hr)
  | ended w k normal rest t hk hout ht =>
    refine .inl (Follows.down ha ht (fun id' r' hr' hw hm => ?_) id r hr)
    exact .joined (hc.held id' r' w hr' hw) (hlines.not_gone hk hout) normal
  | down monitor pid normal t hin ht =>
    refine .inl (Follows.down ha ht (fun id' r' hr' hw hm => ?_) id r hr)
    obtain ⟨k, hk, -, hmonitor, -⟩ := hreg.worker id' r' pid hr' hw
    obtain rfl := Option.some.inj (hmonitor.symm.trans hm)
    exact absurd rfl (hs.1.2.2 _ _ _ hin pid k hk)
  | timeout t timer r' x hin htimer hr' hx =>
    exact .inl (Follows.put hr' rfl (Holds.onTimeout (ha.formed _ r' hr') hx).continues id r hr)
  | late => exact .inl (Follows.same rfl id r hr)
  | act => exact .inl (Follows.same rfl id r hr)

/-! ## the transfers of a run -/

/-- Everything that holds of the custody of a run. -/
structure Kempt (limits : Limits) (s : System) : Prop where
  sane : Sane s
  reading : Reading s
  lines : Lines s
  custody : Custody s
  sourced : Sourced s
  bounded : Bounded limits s

theorem Kempt.run {limits : Limits} {clock : ℤ} {ms : List Move} (h : System.Runs limits clock ms s) :
    Kempt limits s := by
  refine h.invariant ?_ fun s m s' hi hs => ?_
  · exact ⟨.start limits clock, .start limits clock, .start limits clock, .start limits clock,
      fun _ _ hmem => (by cases hmem), .start clock⟩
  · have hm := next_moved hs.2
    have hreg := hi.sane.registered
    have ha := hi.sane.answering
    exact ⟨hi.sane.step hs, hi.reading.moved ha hreg hm, hi.lines.moved hreg hm,
      hi.custody.moved hi.lines ha hreg hs.1 hm, hi.sourced.step ha hs.2, hi.bounded.moved hm⟩

/-- Slots, receipts and bytes. -/
structure Accounted (limits : Limits) (s : System) : Prop where
  capacity : s.owner.transfers.entries.length + s.owner.jobs.entries.length ≤ limits.perRuntime
  freed : ∀ m s', System.Step s m s' → ∀ id r, s.owner.transfers.lookup id = some r →
    (∃ r', s'.owner.transfers.lookup id = some r' ∧ Continues r r') ∨
      ∃ pid receipt, m.input = .call pid (.acknowledge id receipt) ∧ r.status = .retired ∧
        r.receipt = some receipt
  issued : ∀ id r, s.owner.transfers.lookup id = some r → r.receipt ≠ none →
    r.worker = none ∨ ∃ w outcome work, r.worker = some w ∧
      [Event.reported w (.retired outcome work true), .reported w (.down true)].Sublist s.history
  sole : ∀ w w' k k', s.workers w = some k → s.workers w' = some k' → k.ref = k'.ref →
    ¬ Gone s.history w → ¬ Gone s.history w' → w = w'
  window : ∀ w k reader, s.workers w = some k → k.reader = some reader →
    windowBounds k.request.start k.request.length reader.content.length =
      .ok ⟨reader.windowStart, reader.windowLength⟩
  pieces : ∀ w k reader, s.workers w = some k → k.reader = some reader →
    Serves reader.content reader.stop reader.windowStart (answers s.history w) ∧
      bytesOf (chunks (answers s.history w)) <+: reader.window
  complete : ∀ w k reader pre post, s.workers w = some k → k.reader = some reader →
    answers s.history w = pre ++ .complete :: post → bytesOf (chunks pre) = reader.window
  late : ∀ w pre post, answers s.history w = pre ++ expired :: post → chunks post = []
  returned : ∀ c chunk, .replied c (.chunk chunk) ∈ s.history →
    ∃ w k reader, c ∈ readers w s.history ∧ .chunk chunk ∈ answers s.history w ∧ s.workers w = some k ∧
      k.reader = some reader

/-- What is served of a window is the front of it. -/
theorem Serves.prefix_window {reader : Reader} {rs : List ReadReply}
    (h : Serves reader.content reader.stop reader.windowStart rs) :
    bytesOf (chunks rs) = reader.window.take (bytesOf (chunks rs)).length := by
  have hle := h.reached_le (Nat.le_add_right _ _)
  rw [reached_eq] at hle
  have hshort : (bytesOf (chunks rs)).length ≤ reader.windowLength := by
    unfold Reader.stop at hle
    omega
  unfold Reader.window
  rw [List.take_take, Nat.min_eq_left hshort]
  exact h.bytes_eq

theorem Kempt.answers_nil {limits : Limits} (h : Kempt limits s) {w : Pid} {k : Worker} (hk : s.workers w = some k)
    (hnone : k.reader = none) : answers s.history w = [] := (h.reading.served w k hk).unopened hnone

theorem Kempt.accounted {limits : Limits} (h : Kempt limits s) : Accounted limits s where
  capacity := h.bounded.capacity
  freed m s' hs id r hr := slot_freed h.custody h.lines h.sane.answering h.sane.registered hs hr
  issued id r hr hne := by
    cases hw : r.worker with
    | none => exact .inl rfl
    | some w =>
      obtain ⟨outcome, work, hsub⟩ := (h.custody.held id r w hr hw).receipt hne
      exact .inr ⟨w, outcome, work, rfl, hsub⟩
  sole w w' k k' hk hk' href hgone hgone' := by
    obtain ⟨r, hr, hw⟩ := h.custody.sole w k hk hgone
    obtain ⟨r', hr', hw'⟩ := h.custody.sole w' k' hk' hgone'
    rw [← href] at hr'
    obtain rfl := Option.some.inj (hr.symm.trans hr')
    exact Option.some.inj (hw.symm.trans hw')
  window w k reader hk hreader := (h.reading.served w k hk).window reader hreader
  pieces w k reader hk hreader := by
    have hserves := (h.reading.served w k hk).serves reader hreader
    refine ⟨hserves, ?_⟩
    rw [hserves.prefix_window]
    exact List.take_prefix _ _
  complete w k reader pre post hk hreader heq := by
    have hserves := (h.reading.served w k hk).serves reader hreader
    rw [heq] at hserves
    obtain ⟨hpre, hstop, -⟩ := serves_append.1 hserves
    rw [reached_eq] at hstop
    have hlength : (bytesOf (chunks pre)).length = reader.windowLength := by
      unfold Reader.stop at hstop
      omega
    rw [hpre.prefix_window, hlength]
    exact List.take_of_length_le (List.length_take_le _ _)
  late w pre post heq := by
    cases hk : s.workers w with
    | none =>
      have hnil : answers s.history w = [] := by
        unfold answers
        rw [h.reading.known w hk]
        exact answersTo_eq_nil fun _ _ => List.not_mem_nil
      rw [hnil] at heq
      exact absurd heq.symm (List.append_ne_nil_of_right_ne_nil _ (List.cons_ne_nil _ _))
    | some k => exact (h.reading.served w k hk).expired pre post heq
  returned c chunk hmem := by
    obtain ⟨w, hw⟩ := h.sourced c chunk hmem
    have hanswer : .chunk chunk ∈ answers s.history w := mem_answersTo hw hmem rfl
    cases hk : s.workers w with
    | none =>
      rw [h.reading.known w hk] at hw
      cases hw
    | some k =>
      cases hreader : k.reader with
      | none =>
        rw [h.answers_nil hk hreader] at hanswer
        cases hanswer
      | some reader => exact ⟨w, k, reader, hw, hanswer, hk, hreader⟩

/-- **Slots, receipts and bytes.** In every run the transfers and the jobs keep to the capacity; a slot is freed
by the acknowledgement of its receipt only, which was issued when no worker had been started or the worker had
proved its work and ended normally; a transfer has one worker at a time; and the chunks its reads return cut the
requested window into consecutive pieces, `complete` only at its end and none after a read that failed its
deadline. -/
theorem transfer_custody {limits : Limits} {clock : ℤ} {ms : List Move} (h : System.Runs limits clock ms s) :
    Accounted limits s := (Kempt.run h).accounted

/-! ### a transfer read and retired -/

/-- A move of the machine in which no process ends. -/
def advance (s : System) (m : Move) : Option System :=
  match m.input with
  | .down _ _ _ => none
  | _ => if s.clock ≤ m.clock.now ∧ m.clock.now ≤ m.clock.later then s.next m else none

theorem step_of_advance {m : Move} {t : System} (h : advance s m = some t) : System.Step s m t := by
  unfold advance at h
  split at h
  · cases h
  next hend =>
    split at h
    next hclock => exact ⟨⟨hclock.1, hclock.2, fun _ _ _ hdown => absurd hdown (hend _ _ _)⟩, h⟩
    · cases h

def plainObject : Object := ⟨hex (sha256 (utf8 "ab")), 2, List.replicate 64 48⟩

def plainReceipt : Ref := List.replicate 32 49

/-- The worker verifies an object of two bytes, serves them one by one, and is retired. -/
def retirement : List Move :=
  [.act 4 (.resolve (.found plainObject (.atom (utf8 "use")) (.ok (utf8 "ab"))) true), .report 4,
    .call 1 (.read plainContext.transferRef 1), .act 4 (.serve true true), .report 4,
    .call 1 (.read plainContext.transferRef 9), .act 4 (.serve true true), .report 4,
    .call 2 (closing 5000), .act 4 (.serve true true), .report 4, .report 4].map
      fun input => { moveAt 0 input with receipt := plainReceipt }

/-- The transfer with its receipt. -/
def retired : System := (retirement.foldlM advance opened).getD opened

theorem transfer_custody_retired : Accounted transferLimits retired ∧
    bytesOf (chunks (answers retired.history 4)) = utf8 "ab" ∧
      (recordOf retired).bind Record.receipt = some plainReceipt := by
  have hevents : (retirement.foldlM advance opened).isSome = true ∧
      bytesOf (chunks (answers retired.history 4)) = utf8 "ab" ∧
        (recordOf retired).bind Record.receipt = some plainReceipt := by decide +kernel
  obtain ⟨t, ht⟩ := Option.isSome_iff_exists.1 hevents.1
  have hrun : Run System.Step opened retirement retired := by
    rw [show retired = t by rw [retired, ht, Option.getD_some]]
    exact (Run.of_foldlM ht).mono fun _ _ _ => step_of_advance
  exact ⟨transfer_custody ((opened_run.mono fun _ _ _ h => h.1).trans hrun), hevents.2⟩

end Loopex.Transfers
