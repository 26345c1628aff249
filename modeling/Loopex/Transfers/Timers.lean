import Loopex.Transfers.Answers

/-!
# The timers of the transfers

* `setTimers_of_ne`, `setTimers_fresh` — the timers after a turn
* `Retimes` — what a handler does to the timers of its record
* `Armed`, `Timed` — every timer a record names carries the record's message, and a reader that waits has
  its timer armed with its own deadline
-/

namespace Loopex.Transfers

open Loopex.Erlang Loopex.System Owner

variable {o : Owner} {v : Env} {sender : From} {id : Ref} {r : Record} {x : Record × List Effect}

/-! ## the timers after a turn -/

section SetTimers

variable {m : Move} {timers : Tag → Option Timer} {es : List Effect} {t : Tag}

/-- A timer that a turn does not arm was armed before. -/
theorem setTimers_le (h : ∀ due message, .arm t due message ∉ es) {timer : Timer}
    (htimer : setTimers m timers es t = some timer) : timers t = some timer := by
  induction es generalizing timers with
  | nil => exact htimer
  | cons e es ih =>
    have ih' := @ih
    have htail : ∀ due message, Effect.arm t due message ∉ es :=
      fun due message hmem => h due message (List.mem_cons_of_mem _ hmem)
    cases e with
    | arm t' due message =>
      have hne : t ≠ t' := by
        rintro rfl
        exact h due message List.mem_cons_self
      exact (Function.update_of_ne hne _ _).symm.trans (ih htail htimer)
    | cancel t' =>
      have hnext := ih htail htimer
      by_cases heq : t = t'
      · subst heq
        rw [Function.update_self] at hnext
        split at hnext
        · exact (Option.filter_eq_some_iff.1 hnext).1
        · cases hnext
      · rwa [Function.update_of_ne heq] at hnext
    | reply => exact ih htail htimer
    | tell => exact ih htail htimer
    | spawn => exact ih htail htimer

/-- A timer that a turn neither arms nor cancels stays as it is. -/
theorem setTimers_of_ne (h : ∀ due message, .arm t due message ∉ es) (hc : Effect.cancel t ∉ es) :
    setTimers m timers es t = timers t := by
  induction es generalizing timers with
  | nil => rfl
  | cons e es ih =>
    have htail : ∀ due message, Effect.arm t due message ∉ es :=
      fun due message hmem => h due message (List.mem_cons_of_mem _ hmem)
    have hctail : Effect.cancel t ∉ es := fun hmem => hc (List.mem_cons_of_mem _ hmem)
    cases e with
    | arm t' due message =>
      have hne : t ≠ t' := by
        rintro rfl
        exact h due message List.mem_cons_self
      exact (ih htail hctail).trans (Function.update_of_ne hne _ _)
    | cancel t' =>
      have hne : t ≠ t' := by
        rintro rfl
        exact hc List.mem_cons_self
      exact (ih htail hctail).trans (Function.update_of_ne hne _ _)
    | reply => exact ih htail hctail
    | tell => exact ih htail hctail
    | spawn => exact ih htail hctail

/-- The timer that a turn arms. -/
theorem setTimers_fresh {due : ℤ} {message : Timeout} (hmem : .arm t due message ∈ es)
    (h : ∀ due' message', .arm t due' message' ∈ es → due' = due ∧ message' = message)
    (hc : Effect.cancel t ∉ es) : setTimers m timers es t = some ⟨due, message⟩ := by
  induction es generalizing timers with
  | nil => cases hmem
  | cons e es ih =>
    have htail : ∀ due' message', Effect.arm t due' message' ∈ es → due' = due ∧ message' = message :=
      fun due' message' hm => h due' message' (List.mem_cons_of_mem _ hm)
    have hctail : Effect.cancel t ∉ es := fun hm => hc (List.mem_cons_of_mem _ hm)
    by_cases hrest : Effect.arm t due message ∈ es
    · cases e <;> exact ih hrest htail hctail
    · rcases List.mem_cons.1 hmem with rfl | hm
      · have hnone : ∀ due' message', Effect.arm t due' message' ∉ es := by
          intro due' message' hm
          obtain ⟨rfl, rfl⟩ := htail due' message' hm
          exact hrest hm
        exact (setTimers_of_ne hnone hctail).trans (Function.update_self _ _ _)
      · exact absurd hm hrest

end SetTimers

/-! ## the timers of one record -/

/-- What a handler does to the timers of its record. -/
structure Retimes (v : Env) (id : Ref) (r : Record) (x : Record × List Effect) : Prop where
  arms : ∀ due message due' message', .arm v.fresh due message ∈ x.2 → .arm v.fresh due' message' ∈ x.2 →
    due' = due ∧ message' = message
  timer : x.1.timer = r.timer ∨ x.1.timer = some v.fresh ∧ ∃ due, .arm v.fresh due (.expire id) ∈ x.2
  readTimer : x.1.readTimer = r.readTimer ∨ x.1.readTimer = none ∨
    ∃ d due, x.1.readTimer = some v.fresh ∧ x.1.readDeadline = some d ∧
      .arm v.fresh due (.readExpired id d) ∈ x.2
  closeTimer : x.1.closeTimer = r.closeTimer ∨
    ∃ d due, x.1.closeTimer = some v.fresh ∧ x.1.closeDeadline = some d ∧
      .arm v.fresh due (.closeExpired id d) ∈ x.2
  reading : x.1.readFrom ≠ none →
    r.readFrom ≠ none ∧ x.1.readTimer = r.readTimer ∧ x.1.readDeadline = r.readDeadline ∨
      ∃ d due, x.1.readTimer = some v.fresh ∧ x.1.readDeadline = some d ∧
        .arm v.fresh due (.readExpired id d) ∈ x.2
  cancels : x.1.readFrom ≠ none ∨ x.1.closeFrom ≠ none → ∀ t, .cancel t ∈ x.2 → r.timer = some t

section Effects

variable {t : Tag} {due : ℤ} {message : Timeout}

@[simp] theorem arm_not_mem_cancelTimer (timer : Option Tag) :
    Effect.arm t due message ∉ cancelTimer timer := by
  cases timer <;> simp [cancelTimer]

@[simp] theorem arm_not_mem_tell (r : Record) (order : Order) :
    Effect.arm t due message ∉ r.tell order := by
  unfold Record.tell
  cases r.worker <;> simp

@[simp] theorem cancel_not_mem_tell (r : Record) (order : Order) : Effect.cancel t ∉ r.tell order := by
  unfold Record.tell
  cases r.worker <;> simp

@[simp] theorem cancel_mem_cancelTimer (timer : Option Tag) :
    Effect.cancel t ∈ cancelTimer timer ↔ timer = some t := by
  cases timer <;> simp [cancelTimer, eq_comm]

@[simp] theorem arm_not_mem_replies (c : Option From) (reply : Reply) :
    Effect.arm t due message ∉ c.toList.map (.reply · reply) := by
  cases c <;> simp

@[simp] theorem cancel_not_mem_replies (c : Option From) (reply : Reply) :
    Effect.cancel t ∉ c.toList.map (.reply · reply) := by
  cases c <;> simp

@[simp] theorem arm_not_mem_retire (r : Record) : Effect.arm t due message ∉ (r.retire v).2 := by
  unfold Record.retire
  split
  · simp
  split <;> simp

@[simp] theorem cancel_not_mem_retire (r : Record) : Effect.cancel t ∉ (r.retire v).2 := by
  unfold Record.retire
  split
  · simp
  split <;> simp

end Effects

namespace Retimes

theorem same : Retimes v id r (r, []) := by
  refine ⟨?_, .inl rfl, .inl rfl, .inl rfl, fun h => .inl ⟨h, rfl, rfl⟩, ?_⟩
  · intro _ _ _ _ h
    cases h
  · intro _ _ h
    cases h

/-- A reply touches no timer. -/
theorem reply (c : From) (answer : Reply) : Retimes v id r (r, [.reply c answer]) := by
  refine ⟨?_, .inl rfl, .inl rfl, .inl rfl, fun h => .inl ⟨h, rfl, rfl⟩, ?_⟩
  · intro _ _ _ _ h
    simp at h
  · intro _ _ h
    simp at h

/-- A handler that leaves the timers and the waiting calls alone. -/
theorem edit {r' : Record} (htimer : r'.timer = r.timer) (hread : r'.readTimer = r.readTimer)
    (hclose : r'.closeTimer = r.closeTimer) (hfrom : r'.readFrom = r.readFrom)
    (hdeadline : r'.readDeadline = r.readDeadline) : Retimes v id r (r', []) := by
  refine ⟨?_, .inl htimer, .inl hread, .inl hclose, fun h => .inl ⟨?_, hread, hdeadline⟩, ?_⟩
  · intro _ _ _ _ h
    cases h
  · rwa [← hfrom]
  · intro _ _ h
    cases h

theorem begun (deadline : ℤ) :
    (r.beginRetirement v id deadline).1.readDeadline = r.readDeadline ∧
      (r.beginRetirement v id deadline).1.timer = r.timer := by
  change (r.retire v).1.readDeadline = _ ∧ (r.retire v).1.timer = _
  rw [Record.retire_same]
  exact ⟨rfl, rfl⟩

/-- The timer that a retirement arms. -/
theorem arm_mem_beginRetirement {t : Tag} {due deadline : ℤ} {message : Timeout}
    (h : .arm t due message ∈ (r.beginRetirement v id deadline).2) :
    r.closeTimer = none ∧ t = v.fresh ∧
      due = v.later + max 0 (r.soonest deadline - v.later) ∧ message = .closeExpired id (r.soonest deadline) := by
  rcases List.mem_append.1 h with h | h
  · rcases List.mem_append.1 h with h | h
    · exact absurd h (arm_not_mem_cancelTimer _)
    · exact absurd h (arm_not_mem_retire _)
  · simp only [Record.retirementTimer] at h
    split at h
    · cases h
    next hnone =>
      obtain ⟨rfl, rfl, rfl⟩ := Effect.arm.inj (List.mem_singleton.1 h)
      exact ⟨hnone, rfl, rfl, rfl⟩

theorem cancel_mem_beginRetirement {t : Tag} {deadline : ℤ}
    (h : .cancel t ∈ (r.beginRetirement v id deadline).2) : r.timer = some t := by
  rcases List.mem_append.1 h with h | h
  · rcases List.mem_append.1 h with h | h
    · exact (cancel_mem_cancelTimer _).1 h
    · exact absurd h (cancel_not_mem_retire _)
  · simp only [Record.retirementTimer] at h
    split at h <;> simp at h

theorem beginRetirement (deadline : ℤ) : Retimes v id r (r.beginRetirement v id deadline) := by
  have hbegun : (r.beginRetirement v id deadline).1.readDeadline = r.readDeadline ∧
      (r.beginRetirement v id deadline).1.timer = r.timer := begun deadline
  obtain ⟨hdeadline, htimer⟩ := hbegun
  refine ⟨?_, .inl htimer, .inl (Record.beginRetirement_readTimer ..), ?_, fun h => .inl ⟨?_, ?_, hdeadline⟩, ?_⟩
  · intro due message due' message' h h'
    obtain ⟨-, -, rfl, rfl⟩ := arm_mem_beginRetirement h
    obtain ⟨-, -, rfl, rfl⟩ := arm_mem_beginRetirement h'
    exact ⟨rfl, rfl⟩
  · cases hclose : r.closeTimer with
    | some t =>
      refine .inl ?_
      rw [← hclose]
      exact Record.retirementTimer_of_some _ _ _ _ (by rw [hclose]; exact Option.some_ne_none t)
    | none =>
      refine .inr ⟨r.soonest deadline, v.later + max 0 (r.soonest deadline - v.later), ?_, rfl, ?_⟩
      · simp [Record.beginRetirement, Record.retirementTimer, hclose]
      · simp [Record.beginRetirement, Record.retirementTimer, hclose]
  · rwa [← Record.beginRetirement_readFrom v id r deadline]
  · exact Record.beginRetirement_readTimer ..
  · intro _ t h
    exact cancel_mem_beginRetirement h

/-- A handler that arms nothing may go on with the retirement. -/
theorem thenRetire (h : Retimes v id r x) (hnone : ∀ t due message, .arm t due message ∉ x.2)
    (htimer : x.1.timer = r.timer) (hclose : x.1.closeTimer = r.closeTimer) (deadline : ℤ) :
    Retimes v id r (thenRetire v id x deadline) := by
  have hb : Retimes v id x.1 (x.1.beginRetirement v id deadline) := beginRetirement deadline
  have hread : x.1.readTimer = r.readTimer ∨ x.1.readTimer = none := by
    rcases h.readTimer with hs | hs | ⟨d, due, -, -, harm⟩
    · exact .inl hs
    · exact .inr hs
    · exact absurd harm (hnone _ _ _)
  have harm : ∀ {t due message}, .arm t due message ∈ (Owner.thenRetire v id x deadline).2 →
      .arm t due message ∈ (x.1.beginRetirement v id deadline).2 := by
    intro t due message hmem
    exact (List.mem_append.1 hmem).resolve_left (hnone _ _ _)
  refine ⟨?_, .inl ?_, ?_, ?_, ?_, ?_⟩
  · intro due message due' message' hm hm'
    exact hb.arms _ _ _ _ (harm hm) (harm hm')
  · exact (begun deadline).2.trans htimer
  · rcases hread with hs | hs
    · exact .inl ((Record.beginRetirement_readTimer ..).trans hs)
    · exact .inr (.inl ((Record.beginRetirement_readTimer ..).trans hs))
  · rcases hb.closeTimer with hs | ⟨d, due, hs, hd, hmem⟩
    · exact .inl (hs.trans hclose)
    · exact .inr ⟨d, due, hs, hd, List.mem_append_right _ hmem⟩
  · intro hwait
    have hwait' : x.1.readFrom ≠ none := by
      rwa [← Record.beginRetirement_readFrom v id x.1 deadline]
    rcases h.reading hwait' with ⟨hr, ht, hd⟩ | ⟨d, due, -, -, hmem⟩
    · exact .inl ⟨hr, (Record.beginRetirement_readTimer ..).trans ht, (begun deadline).1.trans hd⟩
    · exact absurd hmem (hnone _ _ _)
  · intro hwait t hmem
    rcases List.mem_append.1 hmem with hmem | hmem
    · refine h.cancels ?_ t hmem
      rcases hwait with hw | hw
      · refine .inl ?_
        rwa [← Record.beginRetirement_readFrom v id x.1 deadline]
      · refine .inr ?_
        rwa [← Record.beginRetirement_closeFrom v id x.1 deadline]
    · exact htimer.symm.trans (cancel_mem_beginRetirement hmem)

theorem answerRead {c : From} {answer : ReadReply} (h : r.Formed) (hlive : r.status = .live) :
    Retimes v id r (answerRead r c answer) := by
  have hclose := (h.live hlive).2.1
  refine ⟨?_, .inl rfl, .inr (.inl rfl), .inl rfl, fun hw => absurd rfl hw, ?_⟩
  · intro _ _ _ _ hmem
    simp [Owner.answerRead] at hmem
  · rintro (hw | hw)
    · exact absurd rfl hw
    · exact absurd hclose hw

theorem readResult {result : ReadReply} (h : r.Formed) (hx : readResult v id r result = some x) :
    Retimes v id r x := by
  unfold Owner.readResult at hx
  split at hx
  next c hread =>
    split at hx
    next hlive =>
      split at hx
      · obtain ⟨deadline, -, rfl⟩ := Option.map_eq_some_iff.1 hx
        refine (answerRead h hlive).thenRetire (fun t due message hmem => ?_) rfl rfl _
        simp [Owner.answerRead] at hmem
      · obtain rfl := Option.some.inj hx
        exact answerRead h hlive
    · obtain rfl := Option.some.inj hx
      exact same
  · obtain rfl := Option.some.inj hx
    exact same

theorem transferOpened (h : r.Formed) (transfer : Transfer) (use : Term) (work : Work) :
    Retimes v id r (o.transferOpened v id r transfer use work) := by
  unfold Owner.transferOpened adopt
  split
  next hstatus =>
    obtain ⟨hread, hclose, -⟩ := h.verifying hstatus
    split
    · refine ⟨?_, .inr ⟨rfl, v.later + o.limits.lifetimeMs, ?_⟩, .inl rfl, .inl rfl,
        fun hw => absurd hread hw, ?_⟩
      · intro due message due' message' hmem hmem'
        have harm := (List.mem_append.1 hmem).resolve_left (arm_not_mem_replies _ _)
        have harm' := (List.mem_append.1 hmem').resolve_left (arm_not_mem_replies _ _)
        obtain ⟨-, rfl, rfl⟩ := Effect.arm.inj (List.mem_singleton.1 harm)
        obtain ⟨-, rfl, rfl⟩ := Effect.arm.inj (List.mem_singleton.1 harm')
        exact ⟨rfl, rfl⟩
      · exact List.mem_append_right _ List.mem_cons_self
      · rintro (hw | hw)
        · exact absurd hread hw
        · exact absurd hclose hw
    · have hedit : Retimes v id r ({ r with outcome := some .openDeadlineExhausted, work := some work }, []) :=
        edit rfl rfl rfl rfl rfl
      exact hedit.thenRetire (fun _ _ _ hmem => by cases hmem) rfl rfl _
  · refine ⟨?_, .inl rfl, .inl rfl, .inl rfl, fun hw => .inl ⟨hw, rfl, rfl⟩, ?_⟩
    · intro _ _ _ _ hmem
      exact absurd hmem (arm_not_mem_tell _ _)
    · intro _ t hmem
      exact absurd hmem (cancel_not_mem_tell _ _)

theorem onReport {rep : Report} (h : r.Formed) (hx : o.onReport v id r rep = some x) : Retimes v id r x := by
  cases rep with
  | readResult result => exact readResult h hx
  | opened transfer use work =>
    obtain rfl := Option.some.inj hx
    exact transferOpened h transfer use work
  | work | retired =>
    obtain rfl := Option.some.inj hx
    exact edit rfl rfl rfl rfl rfl
  | down =>
    obtain rfl := Option.some.inj hx
    exact same

theorem joined (normal : Bool) :
    Retimes v id r ((r.joined v normal).released, (r.joined v normal).finishWaiters v) := by
  have hfields : (r.joined v normal).released.timer = r.timer ∧
      (r.joined v normal).released.readTimer = r.readTimer ∧
      (r.joined v normal).released.closeTimer = r.closeTimer := by
    unfold Record.joined
    split <;> exact ⟨rfl, rfl, rfl⟩
  refine ⟨?_, .inl hfields.1, .inl hfields.2.1, .inl hfields.2.2, fun hw => absurd rfl hw, ?_⟩
  · intro _ _ _ _ hmem
    simp [Record.finishWaiters] at hmem
  · rintro (hw | hw) <;> exact absurd rfl hw

theorem onCloseExpired (deadline : ℤ) : Retimes v id r (onCloseExpired r deadline) := by
  unfold Owner.onCloseExpired
  split
  · split
    · refine ⟨?_, .inl rfl, .inl rfl, .inl rfl, fun hw => .inl ⟨hw, rfl, rfl⟩, ?_⟩
      · intro _ _ _ _ hmem
        simp at hmem
      · intro _ t hmem
        simp at hmem
    · exact same
  · exact same

theorem onReadExpired (deadline : ℤ) : Retimes v id r (onReadExpired v id r deadline) := by
  unfold Owner.onReadExpired
  split
  next c hread =>
    split
    · have hanswer : Retimes v id r ({ r with readFrom := none, readDeadline := none },
          [.reply c (.error .readDeadlineExhausted)]) := by
        refine ⟨?_, .inl rfl, .inl rfl, .inl rfl, fun hw => absurd rfl hw, ?_⟩
        · intro _ _ _ _ hmem
          simp at hmem
        · intro _ t hmem
          simp at hmem
      exact hanswer.thenRetire (fun t due message hmem => by simp at hmem) rfl rfl _
    · exact same
  · exact same

theorem onTimeout {message : Timeout} (hid : message.ref = id) (hx : onTimeout v r message = some x) :
    Retimes v id r x := by
  cases message with
  | expire id' =>
    obtain ⟨deadline, -, rfl⟩ := Option.map_eq_some_iff.1 hx
    obtain rfl : id' = id := hid
    exact beginRetirement _
  | closeExpired id' deadline =>
    obtain rfl := Option.some.inj hx
    exact onCloseExpired deadline
  | readExpired id' deadline =>
    obtain rfl := Option.some.inj hx
    obtain rfl : id' = id := hid
    exact onReadExpired deadline

/-- Awaiting the end of a retirement touches no timer. -/
theorem awaitClose (h : Retimes v id r x) (hcancel : ∀ t, .cancel t ∈ x.2 → r.timer = some t) :
    Retimes v id r (awaitClose v sender x) := by
  have harm : ∀ {t due message reply}, .arm t due message ∈ x.2 ++ [.reply sender reply] →
      .arm t due message ∈ x.2 := by
    intro t due message reply hmem
    exact (List.mem_append.1 hmem).resolve_right (by simp)
  have hanswer : ∀ reply, Retimes v id r (x.1, x.2 ++ [.reply sender reply]) := by
    intro reply
    refine ⟨fun _ _ _ _ hm hm' => h.arms _ _ _ _ (harm hm) (harm hm'), ?_, ?_, ?_, ?_, ?_⟩
    · exact h.timer.imp_right fun ⟨ht, due, hm⟩ => ⟨ht, due, List.mem_append_left _ hm⟩
    · exact h.readTimer.imp_right fun h' => h'.imp_right fun ⟨d, due, ht, hd, hm⟩ =>
        ⟨d, due, ht, hd, List.mem_append_left _ hm⟩
    · exact h.closeTimer.imp_right fun ⟨d, due, ht, hd, hm⟩ => ⟨d, due, ht, hd, List.mem_append_left _ hm⟩
    · intro hw
      exact (h.reading hw).imp_right fun ⟨d, due, ht, hd, hm⟩ => ⟨d, due, ht, hd, List.mem_append_left _ hm⟩
    · intro _ t hmem
      exact hcancel t ((List.mem_append.1 hmem).resolve_right (by simp))
  unfold Owner.awaitClose
  split
  · exact hanswer _
  split
  · exact hanswer _
  · exact ⟨h.arms, h.timer, h.readTimer, h.closeTimer, h.reading, fun _ => hcancel⟩

theorem called {limits : Limits} {c : Call} (hr : r.Formed) (h : Called limits v sender c id r x) :
    Retimes v id r x := by
  cases h with
  | opened r hstatus =>
    obtain ⟨hopen, hread, hclose⟩ := hr.settled (.inl hstatus)
    refine ⟨?_, .inl rfl, .inl rfl, .inl rfl, fun hw => absurd hread hw, ?_⟩
    · intro _ _ _ _ hmem
      simp at hmem
    · intro _ t hmem
      simp at hmem
  | expired r hstatus =>
    obtain ⟨hopen, hread, hclose⟩ := hr.settled (.inl hstatus)
    refine ⟨?_, .inl rfl, .inl rfl, .inl rfl, fun hw => absurd hread hw, ?_⟩
    · intro _ _ _ _ hmem
      simp at hmem
    · intro _ t hmem
      simp at hmem
  | read id r length hlive hread hlength =>
    refine ⟨?_, .inl rfl, .inr (.inr ⟨_, _, rfl, rfl, List.mem_cons_self⟩), .inl rfl,
      fun _ => .inr ⟨_, _, rfl, rfl, List.mem_cons_self⟩, ?_⟩
    · intro due message due' message' hmem hmem'
      obtain ⟨-, rfl, rfl⟩ := Effect.arm.inj ((List.mem_cons.1 hmem).resolve_right (arm_not_mem_tell _ _))
      obtain ⟨-, rfl, rfl⟩ := Effect.arm.inj ((List.mem_cons.1 hmem').resolve_right (arm_not_mem_tell _ _))
      exact ⟨rfl, rfl⟩
    · intro _ t hmem
      simp at hmem
  | observed r selector hstatus =>
    refine ⟨?_, .inl rfl, .inl rfl, .inl rfl, fun hw => .inl ⟨hw, rfl, rfl⟩, ?_⟩
    · intro _ _ _ _ hmem
      simp at hmem
    · intro _ t hmem
      simp at hmem
  | closed r selector hmatch hstatus hnone =>
    have hedit : Retimes v selector.transferRef r
        ({ r with closeSelectorDeadline := some selector.closeDeadlineMs }, []) :=
      edit rfl rfl rfl rfl rfl
    refine awaitClose (hedit.thenRetire (fun _ _ _ hmem => by cases hmem) rfl rfl _) fun t hmem => ?_
    exact cancel_mem_beginRetirement (r := { r with closeSelectorDeadline := some selector.closeDeadlineMs })
      hmem

end Retimes

/-! ## armed timers -/

/-- Every timer of a record carries its message, and a reader that waits has its timer armed with its own
deadline. -/
structure Armed (timers : Tag → Option Timer) (fresh : Tag) (id : Ref) (r : Record) : Prop where
  timer : ∀ t, r.timer = some t → t < fresh ∧ ∀ tm, timers t = some tm → tm.message = .expire id
  readTimer : ∀ t, r.readTimer = some t →
    t < fresh ∧ ∀ tm, timers t = some tm → ∃ d, tm.message = .readExpired id d
  closeTimer : ∀ t, r.closeTimer = some t →
    t < fresh ∧ ∀ tm, timers t = some tm → ∃ d, tm.message = .closeExpired id d
  reading : r.readFrom ≠ none → ∃ t d due, r.readTimer = some t ∧ r.readDeadline = some d ∧
    timers t = some ⟨due, .readExpired id d⟩

/-- The timers that a handler cancels are its record's. -/
theorem Armed.cancelled {timers : Tag → Option Timer} {fresh : Tag} (h : Armed timers fresh id r) {es : List Effect}
    (hlocal : Local v id r es) {t : Tag} (hmem : .cancel t ∈ es) :
    t < fresh ∧ ∀ tm, timers t = some tm → tm.message.ref = id := by
  rcases hlocal _ hmem with ht | ht | ht
  · refine ⟨(h.timer t ht).1, fun tm htm => ?_⟩
    rw [(h.timer t ht).2 tm htm]
    rfl
  · refine ⟨(h.readTimer t ht).1, fun tm htm => ?_⟩
    obtain ⟨d, hd⟩ := (h.readTimer t ht).2 tm htm
    rw [hd]
    rfl
  · refine ⟨(h.closeTimer t ht).1, fun tm htm => ?_⟩
    obtain ⟨d, hd⟩ := (h.closeTimer t ht).2 tm htm
    rw [hd]
    rfl

section Turns

variable {m : Move} {timers : Tag → Option Timer} {fresh : Tag} {es : List Effect}

/-- A handler arms at the reference that comes next only. -/
theorem Local.arm_ne (hlocal : Local v id r es) (hv : v.fresh = fresh + 1) {t : Tag} (ht : t < fresh) :
    ∀ due message, .arm t due message ∉ es := by
  intro due message hmem
  have heq : t = v.fresh := (hlocal _ hmem).1
  rw [hv] at heq
  exact ne_of_used ht heq

/-- The timers in use after a turn were armed before it. -/
theorem used_before (hlocal : Local v id r es) (hv : v.fresh = fresh + 1) {t : Tag} (ht : t < fresh) {tm : Timer}
    (h : setTimers m timers es t = some tm) : timers t = some tm :=
  setTimers_le (hlocal.arm_ne hv ht) h

/-- The turn of a handler leaves the timers of the other records. -/
theorem Armed.other {id' : Ref} {r' : Record} (h' : Armed timers fresh id' r') (h : Armed timers fresh id r)
    (hne : id' ≠ id) (hlocal : Local v id r es) (hv : v.fresh = fresh + 1) :
    Armed (setTimers m timers es) (fresh + 3) id' r' := by
  refine ⟨fun t ht => ?_, fun t ht => ?_, fun t ht => ?_, fun hw => ?_⟩
  · obtain ⟨hlt, hmsg⟩ := h'.timer t ht
    exact ⟨lt_of_used hlt, fun tm htm => hmsg tm (used_before hlocal hv hlt htm)⟩
  · obtain ⟨hlt, hmsg⟩ := h'.readTimer t ht
    exact ⟨lt_of_used hlt, fun tm htm => hmsg tm (used_before hlocal hv hlt htm)⟩
  · obtain ⟨hlt, hmsg⟩ := h'.closeTimer t ht
    exact ⟨lt_of_used hlt, fun tm htm => hmsg tm (used_before hlocal hv hlt htm)⟩
  · obtain ⟨t, d, due, ht, hd, htm⟩ := h'.reading hw
    refine ⟨t, d, due, ht, hd, ?_⟩
    rw [setTimers_of_ne (hlocal.arm_ne hv (h'.readTimer t ht).1), htm]
    intro hmem
    exact hne ((h.cancelled hlocal hmem).2 _ htm)

/-- A timer that a handler arms is armed after the turn. -/
theorem armed_fresh (h : Armed timers fresh id r) (hx : Retimes v id r x) (hlocal : Local v id r x.2)
    (hv : v.fresh = fresh + 1) {due : ℤ} {message : Timeout} (hmem : .arm v.fresh due message ∈ x.2) :
    setTimers m timers x.2 v.fresh = some ⟨due, message⟩ := by
  refine setTimers_fresh hmem (fun due' message' hmem' => hx.arms _ _ _ _ hmem hmem') fun hcancel => ?_
  have hlt := (h.cancelled hlocal hcancel).1
  rw [hv] at hlt
  exact absurd hlt (Nat.not_lt.2 (Nat.le_succ _))

/-- The timers of the record after its handler. -/
theorem Armed.put (h : Armed timers fresh id r) (hx : Retimes v id r x) (hlocal : Local v id r x.2)
    (hv : v.fresh = fresh + 1) : Armed (setTimers m timers x.2) (fresh + 3) id x.1 := by
  have hlt : v.fresh < fresh + 3 := by
    rw [hv]
    exact (taken_lt fresh).1
  refine ⟨fun t ht => ?_, fun t ht => ?_, fun t ht => ?_, fun hw => ?_⟩
  · rcases hx.timer with hs | ⟨hs, due, hmem⟩
    · obtain ⟨hold, hmsg⟩ := h.timer t (hs.symm.trans ht)
      exact ⟨lt_of_used hold, fun tm htm => hmsg tm (used_before hlocal hv hold htm)⟩
    · obtain rfl := Option.some.inj (hs.symm.trans ht)
      refine ⟨hlt, fun tm htm => ?_⟩
      obtain rfl := Option.some.inj ((armed_fresh h hx hlocal hv hmem).symm.trans htm)
      rfl
  · rcases hx.readTimer with hs | hs | ⟨d, due, hs, -, hmem⟩
    · obtain ⟨hold, hmsg⟩ := h.readTimer t (hs.symm.trans ht)
      exact ⟨lt_of_used hold, fun tm htm => hmsg tm (used_before hlocal hv hold htm)⟩
    · exact absurd (hs.symm.trans ht) (Option.some_ne_none t).symm
    · obtain rfl := Option.some.inj (hs.symm.trans ht)
      refine ⟨hlt, fun tm htm => ⟨d, ?_⟩⟩
      obtain rfl := Option.some.inj ((armed_fresh h hx hlocal hv hmem).symm.trans htm)
      rfl
  · rcases hx.closeTimer with hs | ⟨d, due, hs, -, hmem⟩
    · obtain ⟨hold, hmsg⟩ := h.closeTimer t (hs.symm.trans ht)
      exact ⟨lt_of_used hold, fun tm htm => hmsg tm (used_before hlocal hv hold htm)⟩
    · obtain rfl := Option.some.inj (hs.symm.trans ht)
      refine ⟨hlt, fun tm htm => ⟨d, ?_⟩⟩
      obtain rfl := Option.some.inj ((armed_fresh h hx hlocal hv hmem).symm.trans htm)
      rfl
  · rcases hx.reading hw with ⟨hwait, hs, hd⟩ | ⟨d, due, hs, hd, hmem⟩
    · obtain ⟨t, d, due, ht, hdead, htm⟩ := h.reading hwait
      refine ⟨t, d, due, hs.trans ht, hd.trans hdead, ?_⟩
      rw [setTimers_of_ne (hlocal.arm_ne hv (h.readTimer t ht).1), htm]
      intro hmem
      have hexpire := (h.timer t (hx.cancels (.inl hw) t hmem)).2 _ htm
      cases hexpire
    · exact ⟨v.fresh, d, due, hs, hd, armed_fresh h hx hlocal hv hmem⟩

end Turns

/-- Every record's timers are its own, and a timer that fired is gone. -/
structure Timed (s : System) : Prop where
  used : ∀ t tm, s.timers t = some tm → t < s.fresh
  armed : ∀ id r, s.owner.transfers.lookup id = some r → Armed s.timers s.fresh id r
  fired : ∀ t, .fired t ∈ s.history → t < s.fresh ∧ s.timers t = none

namespace Timed

variable {s : System} {m : Move}

theorem start (limits : Limits) (clock : ℤ) : Timed (System.start limits clock) := by
  constructor <;> simp [System.start]

/-- A longer history without further timers. -/
theorem log (h : Timed s) {es : List Event} (hes : ∀ t, Event.fired t ∉ es) : Timed (s.log es) :=
  ⟨h.used, h.armed, fun t ht => h.fired t ((List.mem_append.1 ht).resolve_right (hes t))⟩

theorem received (h : Timed s) (w : Pid) (rep : Report) (rest : List Report) :
    Timed (s.received w rep rest) := by
  refine ⟨h.used, h.armed, fun t ht => h.fired t ((List.mem_append.1 ht).resolve_right ?_)⟩
  intro hmem
  cases List.mem_singleton.1 hmem

theorem not_fired_replies {t : Tag} {es : List Effect} : Event.fired t ∉ replies es := by
  intro h
  obtain ⟨_, _, he, -⟩ := mem_replies h
  cases he

theorem not_fired_acceptance {t : Tag} {c : Call} {sender : From} {turn : Turn} :
    Event.fired t ∉ acceptance c sender turn := by
  unfold acceptance
  split
  · simp
  split
  · split <;> simp
  · simp

/-- A turn that arms nothing and leaves every record it keeps as it was. -/
theorem quiet (h : Timed s) {t : Turn} (hsub : ∀ id r, t.1.transfers.lookup id = some r →
      s.owner.transfers.lookup id = some r) (hes : setTimers m s.timers t.2 = s.timers) :
    Timed (s.turn m t) := by
  refine ⟨fun t' tm htm => ?_, fun id r hr => ?_, fun t' ht => ?_⟩
  · simp only [System.turn, hes] at htm
    exact lt_of_used (h.used t' tm htm)
  · have ha := h.armed id r (hsub id r hr)
    simp only [System.turn, hes]
    exact ⟨fun t' ht => ⟨lt_of_used (ha.timer t' ht).1, (ha.timer t' ht).2⟩,
      fun t' ht => ⟨lt_of_used (ha.readTimer t' ht).1, (ha.readTimer t' ht).2⟩,
      fun t' ht => ⟨lt_of_used (ha.closeTimer t' ht).1, (ha.closeTimer t' ht).2⟩, ha.reading⟩
  · have hf := h.fired t' ((List.mem_append.1 ht).resolve_right not_fired_replies)
    simp only [System.turn, hes]
    exact ⟨lt_of_used hf.1, hf.2⟩

/-- A turn of a handler of one record, which sees it as `q`. -/
theorem put {id : Ref} {q : Record} {x : Record × List Effect}
    (hused : ∀ t tm, s.timers t = some tm → t < s.fresh)
    (hothers : ∀ id' r', id' ≠ id → s.owner.transfers.lookup id' = some r' → Armed s.timers s.fresh id' r')
    (hfired : ∀ t, .fired t ∈ s.history → t < s.fresh ∧ s.timers t = none)
    (harmed : Armed s.timers s.fresh id q) (hx : Retimes (s.env m) id q x)
    (hlocal : Local (s.env m) id q x.2) : Timed (s.turn m (s.owner.put id x)) := by
  refine ⟨fun t tm htm => ?_, fun id' r' hr' => ?_, fun t ht => ?_⟩
  · change setTimers m s.timers x.2 t = some tm at htm
    change t < s.fresh + 3
    by_cases hfresh : t = s.fresh + 1
    · rw [hfresh]
      exact (taken_lt s.fresh).1
    · refine lt_of_used (hused t tm (setTimers_le (fun due message hmem => ?_) htm))
      exact hfresh (hlocal _ hmem).1
  · change (s.owner.transfers.insert id x.1).lookup id' = some r' at hr'
    by_cases hid : id' = id
    · subst hid
      rw [AList.lookup_insert] at hr'
      obtain rfl := Option.some.inj hr'
      exact harmed.put hx hlocal rfl
    · rw [AList.lookup_insert_ne hid] at hr'
      exact (hothers id' r' hid hr').other harmed hid hlocal rfl
  · obtain ⟨hlt, hnone⟩ := hfired t ((List.mem_append.1 ht).resolve_right not_fired_replies)
    refine ⟨lt_of_used hlt, ?_⟩
    change setTimers m s.timers x.2 t = none
    cases htm : setTimers m s.timers x.2 t with
    | none => rfl
    | some tm => exact absurd ((used_before hlocal rfl hlt htm).symm.trans hnone) (Option.some_ne_none tm)

theorem put' {id : Ref} {r : Record} {x : Record × List Effect} (h : Timed s)
    (hr : s.owner.transfers.lookup id = some r) (hx : Retimes (s.env m) id r x)
    (hlocal : Local (s.env m) id r x.2) : Timed (s.turn m (s.owner.put id x)) :=
  put h.used (fun id' r' _ hr' => h.armed id' r' hr') h.fired (h.armed id r hr) hx hlocal

theorem down (h : Timed s) {monitor : Tag} {pid : Pid} {normal : Bool} {t : Turn}
    (ht : DownTurn s.owner (s.env m) monitor pid normal t) : Timed (s.turn m t) := by
  cases ht with
  | joined id r hr => exact h.put' hr (.joined normal) (.joined normal)
  | left id r hnone hr => exact h.put' hr (.beginRetirement _) (.beginRetirement _)
  | job => exact h.quiet (fun id r hr => hr) rfl

/-- A timer that fires is none that a record with another reference names. -/
theorem armed_update {timers : Tag → Option Timer} {fresh : Tag} {id : Ref} {r : Record} (h : Armed timers fresh id r)
    {t : Tag} (hread : r.readFrom ≠ none → r.readTimer ≠ some t) :
    Armed (Function.update timers t none) fresh id r := by
  have hback : ∀ t' tm, Function.update timers t none t' = some tm → timers t' = some tm := by
    intro t' tm htm
    by_cases heq : t' = t
    · subst heq
      rw [Function.update_self] at htm
      cases htm
    · rwa [Function.update_of_ne heq] at htm
  refine ⟨fun t' ht => ⟨(h.timer t' ht).1, fun tm htm => (h.timer t' ht).2 tm (hback t' tm htm)⟩,
    fun t' ht => ⟨(h.readTimer t' ht).1, fun tm htm => (h.readTimer t' ht).2 tm (hback t' tm htm)⟩,
    fun t' ht => ⟨(h.closeTimer t' ht).1, fun tm htm => (h.closeTimer t' ht).2 tm (hback t' tm htm)⟩,
    fun hw => ?_⟩
  obtain ⟨t', d, due, ht, hd, htm⟩ := h.reading hw
  refine ⟨t', d, due, ht, hd, ?_⟩
  rw [Function.update_of_ne, htm]
  rintro rfl
  exact hread hw ht

/-- What holds of the timers when one of them fires, apart from the record it is about. -/
theorem fired_base (h : Timed s) {t : Tag} {timer : Timer} (htimer : s.timers t = some timer) :
    (∀ t' tm, (s.fired t).timers t' = some tm → t' < s.fresh) ∧
      (∀ id' r', id' ≠ timer.message.ref → s.owner.transfers.lookup id' = some r' →
        Armed (s.fired t).timers s.fresh id' r') ∧
      ∀ t', .fired t' ∈ (s.fired t).history → t' < s.fresh ∧ (s.fired t).timers t' = none := by
  refine ⟨fun t' tm htm => ?_, fun id' r' hid hr' => ?_, fun t' hmem => ?_⟩
  · by_cases heq : t' = t
    · subst heq
      exact h.used t' timer htimer
    · exact h.used t' tm ((Function.update_of_ne heq _ _).symm.trans htm)
  · refine armed_update (h.armed id' r' hr') fun hw heq => hid ?_
    obtain ⟨t', d, due, ht, -, htm⟩ := (h.armed id' r' hr').reading hw
    obtain rfl := Option.some.inj (ht.symm.trans heq)
    obtain rfl := Option.some.inj (htm.symm.trans htimer)
    rfl
  · by_cases heq : t' = t
    · subst heq
      exact ⟨h.used t' timer htimer, Function.update_self _ _ _⟩
    · rcases List.mem_append.1 hmem with hmem | hmem
      · exact ⟨(h.fired t' hmem).1, (Function.update_of_ne heq _ _).trans (h.fired t' hmem).2⟩
      · exact absurd (Event.fired.inj (List.mem_singleton.1 hmem)) heq

/-- A reader that waits is not left without its timer: the timer that fires answers it. -/
theorem fire (h : Timed s) {t : Tag} {timer : Timer} {id : Ref} {r : Record} {x : Record × List Effect}
    (htimer : s.timers t = some timer) (hid : timer.message.ref = id)
    (hr : s.owner.transfers.lookup id = some r)
    (hx : onTimeout (s.env m) r timer.message = some x) :
    Timed ((s.fired t).turn m (s.owner.put id x)) := by
  have ha := h.armed _ r hr
  obtain ⟨hused, hothers, hfired⟩ := h.fired_base htimer
  rw [hid] at hothers
  by_cases hread : r.readFrom ≠ none ∧ r.readTimer = some t
  · -- the read timer of a reader that waits carries its deadline, so that the handler answers the reader
    obtain ⟨hw, ht⟩ := hread
    obtain ⟨t', d, due, ht', hd, htm⟩ := ha.reading hw
    obtain rfl := Option.some.inj (ht'.symm.trans ht)
    obtain rfl := Option.some.inj (htm.symm.trans htimer)
    obtain ⟨c, hc⟩ := Option.ne_none_iff_exists'.1 hw
    obtain rfl := Option.some.inj hx
    simp only [onReadExpired, hc, hd, if_true]
    refine put (q := { r with readFrom := none, readDeadline := none }) hused hothers hfired ?_ ?_ ?_
    · exact armed_update (r := { r with readFrom := none, readDeadline := none })
        ⟨ha.timer, ha.readTimer, ha.closeTimer, fun hw' => absurd rfl hw'⟩ fun hw' => absurd rfl hw'
    · refine (Retimes.reply c (.error .readDeadlineExhausted)).thenRetire (fun _ _ _ hmem => ?_) rfl rfl _
      simp at hmem
    · exact Local.reply.append (.beginRetirement _)
  · exact put hused hothers hfired (armed_update ha fun hw heq => hread ⟨hw, heq⟩) (.onTimeout hid hx)
      (.onTimeout hid hx)

/-- A reservation brings a record without timers. -/
theorem reserve (h : Timed s) {pid : Pid} {request : Request} {context : Context} {es : List Effect}
    (hes : setTimers m s.timers es = s.timers) :
    Timed (s.turn m
      (s.owner.putRecord context.transferRef (reservation (s.env m) pid request context), es)) := by
  have hq : Timed (s.turn m (s.owner, es)) := h.quiet (fun id r hr => hr) hes
  refine ⟨hq.used, fun id r hr => ?_, hq.fired⟩
  change (s.owner.transfers.insert _ _).lookup id = some r at hr
  by_cases hid : id = context.transferRef
  · subst hid
    rw [AList.lookup_insert] at hr
    obtain rfl := Option.some.inj hr
    constructor <;> simp [reservation]
  · rw [AList.lookup_insert_ne hid] at hr
    exact hq.armed id r hr

/-- A release cancels the timers of its record. -/
theorem free (h : Timed s) {id : Ref} {r : Record} (hr : s.owner.transfers.lookup id = some r) {c : From}
    {reply : Reply} :
    Timed (s.turn m ({ s.owner with transfers := s.owner.transfers.erase id },
      cancelTimer r.timer ++ cancelTimer r.closeTimer ++ [.reply c reply])) := by
  have hlocal : Local (s.env m) id r (cancelTimer r.timer ++ cancelTimer r.closeTimer ++ [.reply c reply]) :=
    ((Local.cancel (.inl rfl)).append (.cancel (.inr (.inr rfl)))).append .reply
  have hle : ∀ t tm, setTimers m s.timers
      (cancelTimer r.timer ++ cancelTimer r.closeTimer ++ [.reply c reply]) t = some tm →
        s.timers t = some tm := fun t tm => setTimers_le fun due message hmem => by simp at hmem
  refine ⟨fun t tm htm => lt_of_used (h.used t tm (hle t tm htm)), fun id' r' hr' => ?_, fun t ht => ?_⟩
  · change (s.owner.transfers.erase id).lookup id' = some r' at hr'
    by_cases hid : id' = id
    · subst hid
      rw [AList.lookup_erase] at hr'
      cases hr'
    · rw [AList.lookup_erase_ne hid] at hr'
      exact (h.armed id' r' hr').other (h.armed id r hr) hid hlocal rfl
  · obtain ⟨hlt, hnone⟩ := h.fired t ((List.mem_append.1 ht).resolve_right not_fired_replies)
    refine ⟨lt_of_used hlt, ?_⟩
    cases htm : (s.turn m (_, cancelTimer r.timer ++ cancelTimer r.closeTimer ++ [.reply c reply])).timers t with
    | none => rfl
    | some tm => exact absurd ((hle t tm htm).symm.trans hnone) (Option.some_ne_none tm)

theorem moved {s' : System} (h : Timed s) (ha : Answering s) (hs : Moved s m s') : Timed s' := by
  cases hs with
  | call pid c t hin ht =>
    have hlog : Timed (s.log [.called ⟨pid, s.fresh⟩]) := h.log fun t' hmem => by
      cases List.mem_singleton.1 hmem
    refine log ?_ fun _ => not_fired_acceptance
    cases ht with
    | answer c reply jobs => exact hlog.quiet (fun id r hr => hr) rfl
    | reserve request context hnew => exact hlog.reserve rfl
    | free id receipt r hr => exact hlog.free hr
    | change c id r x hr hx =>
      exact hlog.put' hr (.called (ha.formed id r hr) hx) (.called hx)
  | report w k rep rest r x hk hout hdown hr hworker hx =>
    exact (h.received w rep rest).put' hr (.onReport (ha.formed _ r hr) hx) (.onReport hx)
  | stray w k rep rest hk => exact (h.received w rep rest).quiet (fun id r hr => hr) rfl
  | ended w k normal rest t hk hout ht => exact (h.received w _ rest).down ht
  | down monitor pid normal t hin ht => exact h.down ht
  | timeout t timer r x hin htimer hr hx => exact h.fire htimer rfl hr hx
  | late t timer htimer hnone =>
    obtain ⟨hused, hothers, hfired⟩ := h.fired_base htimer
    have hbase : Timed (s.fired t) := by
      refine ⟨hused, fun id r hr => hothers id r ?_ hr, hfired⟩
      rintro rfl
      exact absurd (hnone.symm.trans hr) (Option.some_ne_none r).symm
    exact hbase.quiet (fun id r hr => hr) rfl
  | act w k a next hk hact => exact ⟨h.used, h.armed, h.fired⟩

end Timed

end Loopex.Transfers
