import Loopex.Transfers.System

/-!
# The calls of the transfers

Every call is answered once or waits in one slot of one record.

* `Record.Formed` — what the status of a record says about its other fields
* `Record.Keeps` — the calls that still wait do so where they did
* `Conserved` — the calls answered and the calls waiting are together the calls made
* `Known` — a call that waits was accepted, and its worker has not gone down since
-/

namespace Loopex.Transfers

open Loopex.Erlang Loopex.System Owner

variable {o : Owner} {v : Env} {sender : From} {id : Ref} {r : Record} {x : Record × List Effect}

/-! ## what a turn answers -/

section Answered

@[simp] theorem answered_append (es es' : List Effect) :
    answered (es ++ es') = answered es ++ answered es' := by
  induction es with
  | nil => rfl
  | cons e es ih => cases e <;> simp [answered, ih]

@[simp] theorem answered_cancelTimer (timer : Option Tag) : answered (cancelTimer timer) = [] := by
  cases timer <;> rfl

@[simp] theorem answered_tell (r : Record) (order : Order) : answered (r.tell order) = [] := by
  unfold Record.tell
  cases r.worker <;> rfl

@[simp] theorem answered_replies (c : Option From) (reply : Reply) :
    answered (c.toList.map (.reply · reply)) = c.toList := by
  cases c <;> rfl

@[simp] theorem replies_append (es es' : List Effect) :
    replies (es ++ es') = replies es ++ replies es' := by
  induction es with
  | nil => rfl
  | cons e es ih => cases e <;> simp [replies, ih]

@[simp] theorem replies_cancelTimer (timer : Option Tag) : replies (cancelTimer timer) = [] := by
  cases timer <;> rfl

@[simp] theorem replies_tell (r : Record) (order : Order) : replies (r.tell order) = [] := by
  unfold Record.tell
  cases r.worker <;> rfl

/-- The calls answered in a history. -/
def repliedTo : List Event → List From
  | [] => []
  | .replied c _ :: es => c :: repliedTo es
  | _ :: es => repliedTo es

/-- The calls made in a history. -/
def callers : List Event → List From
  | [] => []
  | .called c :: es => c :: callers es
  | _ :: es => callers es

@[simp] theorem repliedTo_append (es es' : List Event) :
    repliedTo (es ++ es') = repliedTo es ++ repliedTo es' := by
  induction es with
  | nil => rfl
  | cons e es ih => cases e <;> simp [repliedTo, ih]

@[simp] theorem callers_append (es es' : List Event) : callers (es ++ es') = callers es ++ callers es' := by
  induction es with
  | nil => rfl
  | cons e es ih => cases e <;> simp [callers, ih]

@[simp] theorem repliedTo_replies (es : List Effect) : repliedTo (replies es) = answered es := by
  induction es with
  | nil => rfl
  | cons e es ih => cases e <;> simp [replies, repliedTo, answered, ih]

@[simp] theorem callers_replies (es : List Effect) : callers (replies es) = [] := by
  induction es with
  | nil => rfl
  | cons e es ih => cases e <;> simp [replies, callers, ih]

/-- Only replies are logged by a turn. -/
theorem mem_replies {e : Event} {es : List Effect} (h : e ∈ replies es) :
    ∃ c reply, e = .replied c reply ∧ c ∈ answered es := by
  induction es with
  | nil => cases h
  | cons e' es ih =>
    cases e' with
    | reply dest reply =>
      rcases List.mem_cons.1 h with rfl | h
      · exact ⟨dest, reply, rfl, List.mem_cons_self⟩
      · obtain ⟨c, reply', he, hc⟩ := ih h
        exact ⟨c, reply', he, List.mem_cons_of_mem _ hc⟩
    | tell => exact ih h
    | spawn => exact ih h
    | arm => exact ih h
    | cancel => exact ih h

end Answered

/-! ## a record and its slots -/

namespace Record

/-- The calls that wait in a record. -/
def slots (r : Record) : List From := r.openFrom.toList ++ r.readFrom.toList ++ r.closeFrom.toList

theorem mem_slots {c : From} : c ∈ r.slots ↔ ∃ slot, r.waiting slot = some c := by
  simp only [slots, List.mem_append, Option.mem_toList]
  constructor
  · rintro ((h | h) | h)
    · exact ⟨.opening, h⟩
    · exact ⟨.reading, h⟩
    · exact ⟨.closing, h⟩
  · rintro ⟨slot, h⟩
    cases slot with
    | opening => exact .inl (.inl h)
    | reading => exact .inl (.inr h)
    | closing => exact .inr h

/-- What the status of a record says about its other fields. -/
structure Formed (r : Record) : Prop where
  reserved : r.status = .reserved →
    r.worker = none ∧ r.workerJoined = false ∧ r.proof = false ∧ r.receipt = none
  unstarted : r.worker = none → r.status = .reserved ∨ r.status = .retired
  settled : r.status = .reserved ∨ r.status = .retired → r.openFrom = none ∧ r.readFrom = none ∧ r.closeFrom = none
  retired : r.status = .retired → r.workerJoined = true
  verifying : r.status = .verifying → r.readFrom = none ∧ r.closeFrom = none ∧ r.workerJoined = false
  live : r.status = .live → r.openFrom = none ∧ r.closeFrom = none ∧ r.workerJoined = false
  closing : r.closeFrom ≠ none → r.closeTimer ≠ none

theorem Formed.worker_of_live (h : r.Formed) (hlive : r.status = .live) : r.worker ≠ none := by
  intro hnone
  rcases h.unstarted hnone with hs | hs <;> simp [hlive] at hs

theorem Formed.worker_of_verifying (h : r.Formed) (hstatus : r.status = .verifying) : r.worker ≠ none := by
  intro hnone
  rcases h.unstarted hnone with hs | hs <;> simp [hstatus] at hs

/-- The calls that still wait do so in the same slot, for the same worker and timer. -/
def Keeps (r r' : Record) : Prop :=
  ∀ slot c, r'.waiting slot = some c →
    r.waiting slot = some c ∧ r'.worker = r.worker ∧ r'.waitTimer slot = r.waitTimer slot

theorem Keeps.refl (r : Record) : r.Keeps r := fun _ _ h => ⟨h, rfl, rfl⟩

theorem Keeps.trans {r r' r'' : Record} (h : r.Keeps r') (h' : r'.Keeps r'') : r.Keeps r'' := by
  intro slot c hc
  obtain ⟨h1, h2, h3⟩ := h' slot c hc
  obtain ⟨h4, h5, h6⟩ := h slot c h1
  exact ⟨h4, h2.trans h5, h3.trans h6⟩

/-! ### retirement -/

section Retirement

variable (r v id) (deadline : ℤ)

/-- A retirement leaves everything but the status, the outcome and the proof as it was. -/
theorem retire_same :
    (r.retire v).1 =
      { r with
        status := (r.retire v).1.status
        proof := (r.retire v).1.proof
        workerJoined := (r.retire v).1.workerJoined
        receipt := (r.retire v).1.receipt
        outcome := (r.retire v).1.outcome } := by
  unfold retire retireReserved
  split
  · rfl
  split <;> rfl

@[simp] theorem retire_openFrom : (r.retire v).1.openFrom = r.openFrom := by rw [retire_same]

@[simp] theorem retire_readFrom : (r.retire v).1.readFrom = r.readFrom := by rw [retire_same]

@[simp] theorem retire_closeFrom : (r.retire v).1.closeFrom = r.closeFrom := by rw [retire_same]

@[simp] theorem retire_worker : (r.retire v).1.worker = r.worker := by rw [retire_same]

@[simp] theorem retire_readTimer : (r.retire v).1.readTimer = r.readTimer := by rw [retire_same]

@[simp] theorem answered_retire : answered (r.retire v).2 = [] := by
  unfold retire
  split
  · rfl
  split
  · rfl
  · exact answered_tell _ _

theorem retire_status :
    ((r.retire v).1.status = .retired ∧ (r.status = .retired ∨ r.worker = none)) ∨
      ((r.retire v).1.status = .retiring ∧ r.worker ≠ none) := by
  unfold retire retireReserved
  split
  next h => exact .inl ⟨h, .inl h⟩
  split
  next h => exact .inl ⟨rfl, .inr h⟩
  next h => exact .inr ⟨rfl, h⟩

@[simp] theorem answered_retirementTimer : answered (r.retirementTimer v id deadline).2 = [] := by
  unfold retirementTimer
  split <;> rfl

/-- The timer of a retirement is the one armed before, if there was one. -/
theorem retirementTimer_of_some (h : r.closeTimer ≠ none) :
    some (r.retirementTimer v id deadline).1 = r.closeTimer := by
  unfold retirementTimer
  split
  next heq => exact heq.symm
  next heq => exact absurd heq h

@[simp] theorem beginRetirement_openFrom : (r.beginRetirement v id deadline).1.openFrom = r.openFrom :=
  retire_openFrom v r

@[simp] theorem beginRetirement_readFrom : (r.beginRetirement v id deadline).1.readFrom = r.readFrom :=
  retire_readFrom v r

@[simp] theorem beginRetirement_closeFrom : (r.beginRetirement v id deadline).1.closeFrom = r.closeFrom :=
  retire_closeFrom v r

@[simp] theorem beginRetirement_worker : (r.beginRetirement v id deadline).1.worker = r.worker :=
  retire_worker v r

@[simp] theorem beginRetirement_readTimer : (r.beginRetirement v id deadline).1.readTimer = r.readTimer :=
  retire_readTimer v r

@[simp] theorem answered_beginRetirement : answered (r.beginRetirement v id deadline).2 = [] := by
  simp [beginRetirement]

theorem beginRetirement_keeps (h : r.Formed) : r.Keeps (r.beginRetirement v id deadline).1 := by
  intro slot c hc
  cases slot with
  | opening => exact ⟨(beginRetirement_openFrom ..).symm.trans hc, beginRetirement_worker .., rfl⟩
  | reading => exact ⟨(beginRetirement_readFrom ..).symm.trans hc, beginRetirement_worker .., beginRetirement_readTimer ..⟩
  | closing =>
    have hwait : r.closeFrom = some c := (beginRetirement_closeFrom ..).symm.trans hc
    refine ⟨hwait, beginRetirement_worker .., ?_⟩
    exact retirementTimer_of_some _ _ _ _ (h.closing (by rw [hwait]; exact Option.some_ne_none c))

theorem beginRetirement_formed (h : r.Formed) : (r.beginRetirement v id deadline).1.Formed := by
  have hstatus := retire_status v r
  constructor
  · intro heq
    change (r.retire v).1.status = _ at heq
    simp [heq] at hstatus
  · intro hnone
    rw [beginRetirement_worker] at hnone
    refine .inr ?_
    rcases hstatus with hs | hs
    · exact hs.1
    · exact absurd hnone hs.2
  · intro hsettled
    rw [beginRetirement_openFrom, beginRetirement_readFrom, beginRetirement_closeFrom]
    refine h.settled ?_
    change (r.retire v).1.status = _ ∨ (r.retire v).1.status = _ at hsettled
    rcases hstatus with ⟨-, hs | hs⟩ | ⟨hs, -⟩
    · exact .inr hs
    · exact h.unstarted hs
    · simp [hs] at hsettled
  · intro heq
    change (r.retire v).1.status = _ at heq
    change (r.retire v).1.workerJoined = true
    unfold retire at heq ⊢
    split
    next hs => exact h.retired hs
    split
    · rfl
    next hw =>
      rename_i hs
      rw [if_neg hs, if_neg hw] at heq
      cases heq
  · intro heq
    change (r.retire v).1.status = _ at heq
    simp [heq] at hstatus
  · intro heq
    change (r.retire v).1.status = _ at heq
    simp [heq] at hstatus
  · intro _
    exact Option.some_ne_none _

end Retirement

end Record

/-! ## the handlers of messages -/

/-- What a message does to the calls of a record: the ones it answers are the ones it removes. -/
structure Sound (r : Record) (x : Record × List Effect) : Prop where
  formed : x.1.Formed
  keeps : r.Keeps x.1
  conserves : (answered x.2 ++ x.1.slots).Perm r.slots

namespace Sound

variable {o : Owner} {v : Env} {id : Ref} {r : Record} {x : Record × List Effect}

theorem same (h : r.Formed) : Sound r (r, []) := ⟨h, .refl r, .refl _⟩

/-- Beginning the retirement of a record answers nobody. -/
theorem beginRetirement (h : r.Formed) (deadline : ℤ) : Sound r (r.beginRetirement v id deadline) := by
  refine ⟨Record.beginRetirement_formed _ _ _ _ h, Record.beginRetirement_keeps _ _ _ _ h, ?_⟩
  simp [Record.slots]

/-- A handler may go on with the retirement. -/
theorem thenRetire (h : Sound r x) (deadline : ℤ) : Sound r (thenRetire v id x deadline) := by
  have h' : Sound x.1 (x.1.beginRetirement v id deadline) := beginRetirement h.formed deadline
  refine ⟨h'.formed, h.keeps.trans h'.keeps, ?_⟩
  simp only [Owner.thenRetire, answered_append, List.append_assoc]
  exact ((h'.conserves).append_left _).trans h.conserves

theorem adopt (h : r.Formed) (hstatus : r.status = .verifying) (transfer : Transfer) (use : Term)
    (work : Work) : Sound r (o.adopt v id r transfer use work) := by
  obtain ⟨hread, hclose, hjoined⟩ := h.verifying hstatus
  have hworker := h.worker_of_verifying hstatus
  unfold Owner.adopt
  split
  · refine ⟨?_, ?_, ?_⟩
    · constructor <;> simp [hclose, hjoined, hworker]
    · intro slot c hc
      cases slot with
      | opening => cases hc
      | reading => exact ⟨hc, rfl, rfl⟩
      | closing => exact ⟨hc, rfl, rfl⟩
    · rw [answered_append, answered_replies]
      simp [answered, Record.slots]
  · have hsame : Sound r ({ r with outcome := some .openDeadlineExhausted, work := some work }, []) :=
      ⟨⟨h.reserved, h.unstarted, h.settled, h.retired, h.verifying, h.live, h.closing⟩,
        fun _ _ hc => ⟨hc, rfl, rfl⟩, .refl _⟩
    exact hsame.thenRetire _

theorem answerRead {c : From} (h : r.Formed) (hread : r.readFrom = some c) (hlive : r.status = .live)
    (answer : ReadReply) : Sound r (answerRead r c answer) := by
  obtain ⟨hopen, hclose, -⟩ := h.live hlive
  refine ⟨⟨h.reserved, h.unstarted, ?_, h.retired, ?_, h.live, h.closing⟩, ?_, ?_⟩
  · simp [Owner.answerRead, hlive]
  · simp [Owner.answerRead, hlive]
  · intro slot d hd
    cases slot with
    | opening => exact ⟨hd, rfl, rfl⟩
    | reading => cases hd
    | closing => exact ⟨hd, rfl, rfl⟩
  · simp [Owner.answerRead, answered, Record.slots, hread, hopen, hclose]

theorem readResult {result : ReadReply} (h : r.Formed) (hx : readResult v id r result = some x) :
    Sound r x := by
  unfold Owner.readResult at hx
  split at hx
  next c hread =>
    split at hx
    next hlive =>
      split at hx
      · obtain ⟨deadline, -, rfl⟩ := Option.map_eq_some_iff.1 hx
        exact (answerRead h hread hlive _).thenRetire _
      · obtain rfl := Option.some.inj hx
        exact answerRead h hread hlive _
    · obtain rfl := Option.some.inj hx
      exact same h
  · obtain rfl := Option.some.inj hx
    exact same h

theorem transferRetired (h : r.Formed) (hworker : r.worker ≠ none) (outcome : Reason) (work : Work)
    (proof : Bool) : Sound r (transferRetired r outcome work proof) := by
  refine ⟨?_, fun _ _ hc => ⟨hc, rfl, rfl⟩, .refl _⟩
  constructor <;> simp [Owner.transferRetired, hworker]
  exact h.closing

theorem onReport {rep : Report} (h : r.Formed) (hworker : r.worker ≠ none)
    (hx : o.onReport v id r rep = some x) : Sound r x := by
  have hwork : ∀ work, Sound r ({ r with work := work }, []) := fun work =>
    ⟨⟨h.reserved, h.unstarted, h.settled, h.retired, h.verifying, h.live, h.closing⟩,
      fun _ _ hc => ⟨hc, rfl, rfl⟩, .refl _⟩
  cases rep with
  | work work =>
    obtain rfl := Option.some.inj hx
    exact hwork _
  | opened transfer use work =>
    obtain rfl := Option.some.inj hx
    unfold transferOpened
    split
    next hstatus => exact adopt h hstatus transfer use work
    · refine ⟨(hwork (some work)).formed, (hwork (some work)).keeps, ?_⟩
      simp [Record.slots]
  | readResult result => exact readResult h hx
  | retired outcome work proof =>
    obtain rfl := Option.some.inj hx
    exact transferRetired h hworker outcome work proof
  | down normal =>
    obtain rfl := Option.some.inj hx
    exact same h

/-- The end of its worker answers every call that waits in a record. -/
theorem joined (hworker : r.worker ≠ none) (normal : Bool) :
    Sound r ((r.joined v normal).released, (r.joined v normal).finishWaiters v) := by
  have hfields : (r.joined v normal).openFrom = r.openFrom ∧ (r.joined v normal).readFrom = r.readFrom ∧
      (r.joined v normal).closeFrom = r.closeFrom := by
    unfold Record.joined
    split <;> exact ⟨rfl, rfl, rfl⟩
  obtain ⟨hopen, hread, hclose⟩ := hfields
  refine ⟨?_, ?_, ?_⟩
  · unfold Record.joined
    split <;> constructor <;> simp [Record.released, hworker]
  · intro slot c hc
    cases slot <;> cases hc
  · simp [Record.finishWaiters, Record.released, Record.slots, hopen, hread, hclose]

theorem onCloseExpired (h : r.Formed) (deadline : ℤ) : Sound r (onCloseExpired r deadline) := by
  unfold Owner.onCloseExpired
  split
  next c hclose =>
    split
    · refine ⟨⟨h.reserved, h.unstarted, fun hs => ?_, h.retired, fun hs => ?_, fun hs => ?_, ?_⟩, ?_, ?_⟩
      · exact ⟨(h.settled hs).1, (h.settled hs).2.1, rfl⟩
      · exact ⟨(h.verifying hs).1, rfl, (h.verifying hs).2.2⟩
      · exact ⟨(h.live hs).1, rfl, (h.live hs).2.2⟩
      · exact fun hnone => absurd rfl hnone
      · intro slot d hd
        cases slot with
        | opening => exact ⟨hd, rfl, rfl⟩
        | reading => exact ⟨hd, rfl, rfl⟩
        | closing => cases hd
      · simp only [answered, Record.slots, hclose, Option.toList_none, Option.toList_some, List.append_nil]
        exact List.perm_append_comm
    · exact same h
  · exact same h

theorem onReadExpired (h : r.Formed) (deadline : ℤ) : Sound r (onReadExpired v id r deadline) := by
  unfold Owner.onReadExpired
  split
  next c hread =>
    split
    · have hanswer : Sound r ({ r with readFrom := none, readDeadline := none },
          [.reply c (.error .readDeadlineExhausted)]) := by
        refine ⟨⟨h.reserved, h.unstarted, fun hs => ?_, h.retired, fun hs => ?_, h.live, h.closing⟩, ?_, ?_⟩
        · exact ⟨(h.settled hs).1, rfl, (h.settled hs).2.2⟩
        · exact ⟨rfl, (h.verifying hs).2⟩
        · intro slot d hd
          cases slot with
          | opening => exact ⟨hd, rfl, rfl⟩
          | reading => cases hd
          | closing => exact ⟨hd, rfl, rfl⟩
        · simp only [answered, Record.slots, hread, Option.toList_none, Option.toList_some, List.append_nil,
            List.append_assoc]
          exact List.perm_append_comm_assoc _ _ _
      exact hanswer.thenRetire _
    · exact same h
  · exact same h

theorem onTimeout {message : Timeout} (h : r.Formed) (hx : onTimeout v r message = some x) : Sound r x := by
  cases message with
  | expire id =>
    obtain ⟨deadline, -, rfl⟩ := Option.map_eq_some_iff.1 hx
    exact beginRetirement h _
  | closeExpired id deadline =>
    obtain rfl := Option.some.inj hx
    exact onCloseExpired h deadline
  | readExpired id deadline =>
    obtain rfl := Option.some.inj hx
    exact onReadExpired h deadline

end Sound

/-! ## the handlers of calls -/

/-- What a call does to the calls of a record: it is answered, or it waits in a slot that was free. -/
structure Taken (sender : From) (c : Call) (id : Ref) (r : Record) (x : Record × List Effect) : Prop where
  formed : x.1.Formed
  conserves : (answered x.2 ++ x.1.slots).Perm (r.slots ++ [sender])
  keeps : (sender ∈ answered x.2 ∧ r.Keeps x.1) ∨
    answered x.2 = [] ∧ ∃ slot, c.slot = some (slot, id) ∧ x.1.waiting slot = some sender ∧
      (x.1.worker ≠ none ∧ (slot ≠ .opening → x.1.waitTimer slot ≠ none)) ∧
      ∀ other, other ≠ slot → ∀ d, x.1.waiting other = some d →
        r.waiting other = some d ∧ x.1.worker = r.worker ∧ x.1.waitTimer other = r.waitTimer other

theorem Called.slot {limits : Limits} {c : Call} (h : Called limits v sender c id r x) :
    ∃ slot, c.slot = some (slot, id) := by
  cases h <;> exact ⟨_, rfl⟩

/-- The slots of a record whose retirement a call began. -/
theorem taken_awaitClose {c : Call} {y : Record × List Effect} (hc : c.slot = some (.closing, id))
    (hy : Sound r y) (hquiet : answered y.2 = []) (hnone : y.1.closeFrom = none) (htimer : y.1.closeTimer ≠ none)
    (hstatus : y.1.status = .retired ∨ y.1.status = .retiring) :
    Taken sender c id r (awaitClose v sender y) := by
  have hsettle : ∀ reply, Taken sender c id r (y.1, y.2 ++ [.reply sender reply]) := by
    intro reply
    refine ⟨hy.formed, ?_, .inl ⟨by simp [answered], hy.keeps⟩⟩
    rw [answered_append, List.append_assoc]
    refine (List.Perm.append_left _ List.perm_append_comm).trans ?_
    rw [← List.append_assoc]
    exact hy.conserves.append_right [sender]
  unfold awaitClose
  split
  · exact hsettle _
  split
  · exact hsettle _
  next hlive _ =>
    have hretiring := hstatus.resolve_left hlive
    refine ⟨⟨hy.formed.reserved, hy.formed.unstarted, ?_, hy.formed.retired, ?_, ?_, fun _ => htimer⟩, ?_, ?_⟩
    · simp [hretiring]
    · simp [hretiring]
    · simp [hretiring]
    · have hslots := hy.conserves
      simp only [Record.slots, hnone, Option.toList_none, Option.toList_some, List.append_nil] at hslots ⊢
      rw [← List.append_assoc]
      exact hslots.append_right [sender]
    · refine .inr ⟨hquiet, .closing, hc, rfl, ⟨fun hworker => ?_, fun _ => htimer⟩, ?_⟩
      · rcases hy.formed.unstarted hworker with hs | hs <;> simp [hretiring] at hs
      intro other hother d hd
      cases other with
      | opening => exact hy.keeps .opening d hd
      | reading => exact hy.keeps .reading d hd
      | closing => exact absurd rfl hother

theorem Called.taken {limits : Limits} {c : Call} (h : Called limits v sender c id r x) (hr : r.Formed) :
    Taken sender c id r x := by
  cases h with
  | opened r hstatus =>
    obtain ⟨hopen, hread, hclose⟩ := hr.settled (.inl hstatus)
    refine ⟨?_, ?_, .inr ⟨rfl, .opening, rfl, rfl, ⟨Option.some_ne_none _, fun h => absurd rfl h⟩, ?_⟩⟩
    · constructor <;> simp [hread, hclose, (hr.reserved hstatus).2.1]
    · simp [answered, Record.slots, hopen, hread, hclose]
    · intro other hother d hd
      cases other with
      | opening => exact absurd rfl hother
      | reading => simp [Record.waiting, hread] at hd
      | closing => simp [Record.waiting, hclose] at hd
  | expired r hstatus =>
    obtain ⟨hopen, hread, hclose⟩ := hr.settled (.inl hstatus)
    refine ⟨?_, ?_, .inl ⟨List.mem_singleton_self _, fun _ _ hd => ⟨hd, rfl, rfl⟩⟩⟩
    · constructor <;> simp [Record.retireReserved, hopen, hread, hclose]
    · simp [answered, Record.retireReserved, Record.slots, hopen, hread, hclose]
  | read id r length hlive hread hlength =>
    obtain ⟨hopen, hclose, hjoined⟩ := hr.live hlive
    refine ⟨?_, ?_, .inr ⟨?_, .reading, rfl, rfl, ⟨hr.worker_of_live hlive, fun _ => Option.some_ne_none _⟩, ?_⟩⟩
    · constructor <;> simp [hlive, hopen, hclose, hjoined, hr.worker_of_live hlive]
    · simp [answered, Record.slots, hopen, hread, hclose]
    · simp [answered]
    · intro other hother d hd
      cases other with
      | opening => exact ⟨hd, rfl, rfl⟩
      | reading => exact absurd rfl hother
      | closing => exact ⟨hd, rfl, rfl⟩
  | observed r selector hstatus =>
    refine ⟨⟨hr.reserved, hr.unstarted, hr.settled, hr.retired, hr.verifying, hr.live, hr.closing⟩,
      List.perm_append_comm, .inl ⟨List.mem_singleton_self _, fun _ _ hd => ⟨hd, rfl, rfl⟩⟩⟩
  | closed r selector hmatch hstatus hnone =>
    have hsame : Record.Formed { r with closeSelectorDeadline := some selector.closeDeadlineMs } :=
      ⟨hr.reserved, hr.unstarted, hr.settled, hr.retired, hr.verifying, hr.live, hr.closing⟩
    have hbegun : Sound _ (Record.beginRetirement _ v selector.transferRef _) :=
      Sound.beginRetirement hsame selector.closeDeadlineMs
    refine taken_awaitClose rfl ⟨hbegun.formed, hbegun.keeps, hbegun.conserves⟩ ?_ ?_ ?_ ?_
    · exact Record.answered_beginRetirement ..
    · rw [Record.beginRetirement_closeFrom]
      exact hnone
    · exact Option.some_ne_none _
    · rcases Record.retire_status v { r with closeSelectorDeadline := some selector.closeDeadlineMs } with hs | hs
      · exact .inl hs.1
      · exact .inr hs.1

end Loopex.Transfers
