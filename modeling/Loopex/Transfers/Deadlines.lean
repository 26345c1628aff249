import Loopex.Transfers.Timers

/-!
# Nobody waits without a deadline

A caller that waits for a read or for a close waits on a timer.  The timer of a read carries the deadline of
the read in every run.  The timer of a close is armed once, when the retirement begins; a retirement that
lowers the deadline afterwards, or a close that comes after the timer was cancelled, leaves the caller
without one.

* `Guard` — the moves that keep the deadline of a close with its timer
* `Attended` — every caller that waits for a close has its timer armed with its own deadline
* `transfer_deadlines` — in a run of such moves every waiting caller has its timer, and every accepted call
  is answered once
-/

namespace Loopex.Transfers

open Loopex.Erlang Loopex.System Owner

variable {v : Env} {id : Ref} {r : Record} {x : Record × List Effect}

/-! ## the moves -/

/-- A retirement proposed while a close waits is not due before it. -/
def Unhurried (r : Record) (deadline : ℤ) : Prop :=
  r.closeFrom ≠ none → ∀ d, r.closeDeadline = some d → d ≤ deadline

/-- The deadline at which a timer's message would retire the record. -/
def proposed (r : Record) : Timeout → Option ℤ
  | .expire _ => r.lifetimeDeadline.map (· + 5000)
  | .closeExpired _ _ => none
  | .readExpired _ deadline =>
    if r.readFrom ≠ none ∧ r.readDeadline = some deadline then some (deadline + 5000) else none

/-- A close that would wait for a record with a retirement timer finds it still armed, and for the deadline
from then on. -/
def Matched (timers : Tag → Option Timer) (later : ℤ) (selector : RetireSelector) (r : Record) : Prop :=
  ¬ mismatched r selector → r.status ≠ .retired → r.worker ≠ none → r.closeFrom = none →
    later < r.soonest selector.closeDeadlineMs → ∀ t, r.closeTimer = some t →
      ∃ due, timers t =
        some ⟨due, .closeExpired selector.transferRef (r.soonest selector.closeDeadlineMs)⟩

/-- The moves that keep the deadline of a waiting close with its timer. -/
def Guard (s : System) (m : Move) : Prop :=
  match m.input with
  | .call _ (.retire selector) =>
    ∀ r, s.owner.transfers.lookup selector.transferRef = some r → Matched s.timers m.clock.later selector r
  | .down monitor pid _ =>
    ∀ id r, s.owner.transfers.lookup id = some r → r.callerMonitor = monitor → r.caller = pid →
      Unhurried r (m.clock.now + 5000)
  | .fire t =>
    ∀ timer, s.timers t = some timer → ∀ r, s.owner.transfers.lookup timer.message.ref = some r →
      ∀ deadline, proposed r timer.message = some deadline → Unhurried r deadline
  | _ => True

/-! ## the timer of a close -/

/-- A close that waits has its timer armed with its own deadline. -/
def Closing (timers : Tag → Option Timer) (id : Ref) (r : Record) : Prop :=
  r.closeFrom ≠ none → ∃ t d due, r.closeTimer = some t ∧ r.closeDeadline = some d ∧
    timers t = some ⟨due, .closeExpired id d⟩

/-- What a handler leaves to a close that waits: the timer and the deadline it had, or new ones. -/
def Awaits (v : Env) (timers : Tag → Option Timer) (id : Ref) (r : Record) (x : Record × List Effect) : Prop :=
  x.1.closeFrom ≠ none →
    (∃ t d due, r.closeTimer = some t ∧ x.1.closeTimer = some t ∧ x.1.closeDeadline = some d ∧
      timers t = some ⟨due, .closeExpired id d⟩) ∨
      ∃ d due, x.1.closeTimer = some v.fresh ∧ x.1.closeDeadline = some d ∧
        .arm v.fresh due (.closeExpired id d) ∈ x.2

section Records

variable {timers : Tag → Option Timer} {fresh : Tag} {m : Move}

theorem Closing.put (ha : Armed timers fresh id r) (hx : Retimes v id r x) (hlocal : Local v id r x.2)
    (hv : v.fresh = fresh + 1) (hw : Awaits v timers id r x) : Closing (setTimers m timers x.2) id x.1 := by
  intro hclose
  rcases hw hclose with ⟨t, d, due, ht, ht', hd, htm⟩ | ⟨d, due, ht, hd, hmem⟩
  · refine ⟨t, d, due, ht', hd, ?_⟩
    rw [setTimers_of_ne (hlocal.arm_ne hv (ha.closeTimer t ht).1), htm]
    intro hmem
    have hexpire := (ha.timer t (hx.cancels (.inr hclose) t hmem)).2 _ htm
    cases hexpire
  · exact ⟨v.fresh, d, due, ht, hd, armed_fresh ha hx hlocal hv hmem⟩

theorem Closing.other {id' : Ref} {r' : Record} {es : List Effect} (h : Closing timers id' r')
    (ha' : Armed timers fresh id' r') (ha : Armed timers fresh id r) (hne : id' ≠ id)
    (hlocal : Local v id r es) (hv : v.fresh = fresh + 1) : Closing (setTimers m timers es) id' r' := by
  intro hclose
  obtain ⟨t, d, due, ht, hd, htm⟩ := h hclose
  refine ⟨t, d, due, ht, hd, ?_⟩
  rw [setTimers_of_ne (hlocal.arm_ne hv (ha'.closeTimer t ht).1), htm]
  intro hmem
  exact hne ((ha.cancelled hlocal hmem).2 _ htm)

/-- A timer that fires is the one of a waiting close only when it carries the deadline of the close. -/
theorem Closing.update (h : Closing timers id r) {t : Tag} (hne : r.closeFrom ≠ none → r.closeTimer ≠ some t) :
    Closing (Function.update timers t none) id r := by
  intro hclose
  obtain ⟨t', d, due, ht, hd, htm⟩ := h hclose
  refine ⟨t', d, due, ht, hd, ?_⟩
  rw [Function.update_of_ne, htm]
  rintro rfl
  exact hne hclose ht

namespace Awaits

/-- A handler that leaves the close alone. -/
theorem kept (h : Closing timers id r) (hfrom : x.1.closeFrom ≠ none → r.closeFrom ≠ none)
    (htimer : x.1.closeTimer = r.closeTimer) (hdeadline : x.1.closeDeadline = r.closeDeadline) :
    Awaits v timers id r x := by
  intro hclose
  obtain ⟨t, d, due, ht, hd, htm⟩ := h (hfrom hclose)
  exact .inl ⟨t, d, due, ht, htimer.trans ht, hdeadline.trans hd, htm⟩

theorem none_waiting (h : x.1.closeFrom = none) : Awaits v timers id r x := fun hclose => absurd h hclose

/-- A retirement that is not due before a waiting close leaves it its timer and its deadline. -/
theorem beginRetirement (h : Closing timers id r) {deadline : ℤ} (hu : Unhurried r deadline) :
    Awaits v timers id r (r.beginRetirement v id deadline) := by
  intro hclose
  rw [Record.beginRetirement_closeFrom] at hclose
  obtain ⟨t, d, due, ht, hd, htm⟩ := h hclose
  refine .inl ⟨t, d, due, ht, ?_, ?_, htm⟩
  · exact (Record.retirementTimer_of_some _ _ _ _ (by rw [ht]; exact Option.some_ne_none t)).trans ht
  · simp only [Record.beginRetirement, Record.soonest, hd, Option.elim_some]
    rw [min_eq_left (hu hclose d hd)]

/-- A handler that leaves the close alone may go on with the retirement. -/
theorem thenRetire (h : Closing timers id x.1) (hclose : x.1.closeTimer = r.closeTimer)
    {deadline : ℤ} (hu : Unhurried x.1 deadline) :
    Awaits v timers id r (thenRetire v id x deadline) := by
  intro hwait
  rcases beginRetirement h hu hwait with ⟨t, d, due, ht, ht', hd, htm⟩ | ⟨d, due, ht, hd, hmem⟩
  · exact .inl ⟨t, d, due, hclose.symm.trans ht, ht', hd, htm⟩
  · exact .inr ⟨d, due, ht, hd, List.mem_append_right _ hmem⟩

theorem readResult {result : ReadReply} (hr : r.Formed) (h : Closing timers id r)
    (hx : readResult v id r result = some x) : Awaits v timers id r x := by
  unfold Owner.readResult at hx
  split at hx
  next c hread =>
    split at hx
    next hlive =>
      have hnone := (hr.live hlive).2.1
      split at hx
      · obtain ⟨deadline, -, rfl⟩ := Option.map_eq_some_iff.1 hx
        refine none_waiting ?_
        exact (Record.beginRetirement_closeFrom ..).trans hnone
      · obtain rfl := Option.some.inj hx
        exact none_waiting hnone
    · obtain rfl := Option.some.inj hx
      exact kept h (fun hw => hw) rfl rfl
  · obtain rfl := Option.some.inj hx
    exact kept h (fun hw => hw) rfl rfl

theorem onReport {o : Owner} {rep : Report} (hr : r.Formed) (h : Closing timers id r)
    (hx : o.onReport v id r rep = some x) : Awaits v timers id r x := by
  cases rep with
  | readResult result => exact readResult hr h hx
  | opened transfer use work =>
    obtain rfl := Option.some.inj hx
    unfold transferOpened
    split
    next hstatus =>
      have hnone := (hr.verifying hstatus).2.1
      unfold adopt
      split
      · exact none_waiting hnone
      · exact none_waiting ((Record.beginRetirement_closeFrom ..).trans hnone)
    · exact kept h (fun hw => hw) rfl rfl
  | work | retired | down =>
    obtain rfl := Option.some.inj hx
    exact kept h (fun hw => hw) rfl rfl

/-- A close that waits waits on the timer the retirement has from then on. -/
theorem closed {sender : From} {selector : RetireSelector} (hmatch : ¬ mismatched r selector)
    (hstatus : r.status ≠ .retired) (hnone : r.closeFrom = none) (hm : Matched timers v.later selector r) :
    Awaits v timers selector.transferRef r (closeRetiring v sender selector r) := by
  have hquiet : ({ r with closeSelectorDeadline := some selector.closeDeadlineMs }.beginRetirement v
      selector.transferRef selector.closeDeadlineMs).1.closeFrom = none :=
    (Record.beginRetirement_closeFrom ..).trans hnone
  unfold closeRetiring awaitClose
  split
  · exact none_waiting hquiet
  next hlive =>
    split
    · exact none_waiting hquiet
    next htimely =>
      have hworker : r.worker ≠ none := by
        rcases Record.retire_status v { r with closeSelectorDeadline := some selector.closeDeadlineMs } with hs | hs
        · exact absurd hs.1 hlive
        · exact hs.2
      have hlater : v.later < r.soonest selector.closeDeadlineMs := by
        have ht := eq_true_of_ne_false htimely
        exact of_decide_eq_true ht
      intro _
      cases hclose : r.closeTimer with
      | some t =>
        obtain ⟨due, htm⟩ := hm hmatch hstatus hworker hnone hlater t hclose
        refine .inl ⟨t, _, due, rfl, ?_, rfl, htm⟩
        simp only [Record.beginRetirement, Record.retirementTimer]
      | none =>
        refine .inr ⟨_, v.later + max 0 (r.soonest selector.closeDeadlineMs - v.later), ?_, rfl, ?_⟩
        · simp only [Record.beginRetirement, Record.retirementTimer]
        · exact List.mem_append_right _ List.mem_cons_self

theorem called {limits : Limits} {sender : From} {c : Call} (h : Closing timers id r)
    (hm : ∀ selector, c = .retire selector → Matched timers v.later selector r)
    (hx : Called limits v sender c id r x) : Awaits v timers id r x := by
  cases hx with
  | opened r hstatus => exact kept h (fun hw => hw) rfl rfl
  | expired r hstatus => exact kept h (fun hw => hw) rfl rfl
  | read id r length => exact kept h (fun hw => hw) rfl rfl
  | observed r selector => exact kept h (fun hw => hw) rfl rfl
  | closed r selector hmatch hstatus hnone => exact closed hmatch hstatus hnone (hm selector rfl)

/-- A timer that fires for a record leaves a waiting close what it has. -/
theorem onTimeout {message : Timeout} (hid : message.ref = id) (h : Closing timers id r)
    (hg : ∀ deadline, proposed r message = some deadline → Unhurried r deadline)
    (hx : onTimeout v r message = some x) : Awaits v timers id r x := by
  cases message with
  | expire id' =>
    obtain ⟨deadline, hd, rfl⟩ := Option.map_eq_some_iff.1 hx
    obtain rfl : id' = id := hid
    exact beginRetirement h (hg _ (by simp only [proposed, hd, Option.map_some]))
  | closeExpired id' deadline =>
    obtain rfl := Option.some.inj hx
    unfold onCloseExpired
    split
    · split
      · exact none_waiting rfl
      · exact kept h (fun hw => hw) rfl rfl
    · exact kept h (fun hw => hw) rfl rfl
  | readExpired id' deadline =>
    obtain rfl := Option.some.inj hx
    obtain rfl : id' = id := hid
    unfold onReadExpired
    split
    next c hread =>
      split
      next hdeadline =>
        refine thenRetire h rfl (hg _ ?_)
        simp only [proposed, hread, hdeadline, ne_eq, reduceCtorEq, not_false_eq_true, and_self, if_true]
      · exact kept h (fun hw => hw) rfl rfl
    · exact kept h (fun hw => hw) rfl rfl

end Awaits

end Records

/-! ## the whole run -/

/-- Every caller that waits for a close has its timer armed with its own deadline. -/
def Attended (s : System) : Prop :=
  ∀ id r, s.owner.transfers.lookup id = some r → Closing s.timers id r

namespace Attended

variable {s : System} {m : Move}

theorem start (limits : Limits) (clock : ℤ) : Attended (System.start limits clock) := by
  intro id r hr
  simp [System.start] at hr

/-- A turn of a handler of one record, which sees it as `q`. -/
theorem put {q : Record}
    (hothers : ∀ id' r', id' ≠ id → s.owner.transfers.lookup id' = some r' →
      Closing s.timers id' r' ∧ Armed s.timers s.fresh id' r')
    (harmed : Armed s.timers s.fresh id q) (hx : Retimes (s.env m) id q x)
    (hlocal : Local (s.env m) id q x.2) (hw : Awaits (s.env m) s.timers id q x) :
    Attended (s.turn m (s.owner.put id x)) := by
  intro id' r' hr'
  change (s.owner.transfers.insert id x.1).lookup id' = some r' at hr'
  by_cases hid : id' = id
  · subst hid
    rw [AList.lookup_insert] at hr'
    obtain rfl := Option.some.inj hr'
    exact Closing.put harmed hx hlocal rfl hw
  · rw [AList.lookup_insert_ne hid] at hr'
    obtain ⟨hc, ha⟩ := hothers id' r' hid hr'
    exact hc.other ha harmed hid hlocal rfl

theorem put' (h : Attended s) (ht : Timed s) (hr : s.owner.transfers.lookup id = some r)
    (hx : Retimes (s.env m) id r x) (hlocal : Local (s.env m) id r x.2)
    (hw : Awaits (s.env m) s.timers id r x) : Attended (s.turn m (s.owner.put id x)) :=
  put (fun id' r' _ hr' => ⟨h id' r' hr', ht.armed id' r' hr'⟩) (ht.armed id r hr) hx hlocal hw

/-- A turn that arms nothing and leaves every record it keeps as it was. -/
theorem quiet (h : Attended s) {t : Turn} (hsub : ∀ id r, t.1.transfers.lookup id = some r →
      s.owner.transfers.lookup id = some r) (hes : setTimers m s.timers t.2 = s.timers) :
    Attended (s.turn m t) := by
  intro id r hr
  simp only [System.turn, hes]
  exact h id r (hsub id r hr)

theorem free (h : Attended s) (ht : Timed s) (hr : s.owner.transfers.lookup id = some r) {c : From}
    {reply : Reply} :
    Attended (s.turn m ({ s.owner with transfers := s.owner.transfers.erase id },
      cancelTimer r.timer ++ cancelTimer r.closeTimer ++ [.reply c reply])) := by
  have hlocal : Local (s.env m) id r (cancelTimer r.timer ++ cancelTimer r.closeTimer ++ [.reply c reply]) :=
    ((Local.cancel (.inl rfl)).append (.cancel (.inr (.inr rfl)))).append .reply
  intro id' r' hr'
  change (s.owner.transfers.erase id).lookup id' = some r' at hr'
  by_cases hid : id' = id
  · subst hid
    rw [AList.lookup_erase] at hr'
    cases hr'
  · rw [AList.lookup_erase_ne hid] at hr'
    exact (h id' r' hr').other (ht.armed id' r' hr') (ht.armed id r hr) hid hlocal rfl

/-- A close that waits is not left without its timer: the timer that fires answers it. -/
theorem fire (h : Attended s) (ht : Timed s) {t : Tag} {timer : Timer}
    (htimer : s.timers t = some timer) (hid : timer.message.ref = id)
    (hr : s.owner.transfers.lookup id = some r) (hx : onTimeout (s.env m) r timer.message = some x)
    (hg : ∀ deadline, proposed r timer.message = some deadline → Unhurried r deadline) :
    Attended ((s.fired t).turn m (s.owner.put id x)) := by
  have harm := ht.armed id r hr
  obtain ⟨-, hothers, -⟩ := ht.fired_base htimer
  rw [hid] at hothers
  have hclosings : ∀ id' r', id' ≠ id → s.owner.transfers.lookup id' = some r' →
      Closing (s.fired t).timers id' r' ∧ Armed (s.fired t).timers s.fresh id' r' := by
    intro id' r' hne hr'
    refine ⟨(h id' r' hr').update fun hw heq => hne ?_, hothers id' r' hne hr'⟩
    obtain ⟨t', d, due, hclose, -, htm⟩ := h id' r' hr' hw
    obtain rfl := Option.some.inj (hclose.symm.trans heq)
    obtain rfl := Option.some.inj (htm.symm.trans htimer)
    exact hid
  by_cases hclose : r.closeFrom ≠ none ∧ r.closeTimer = some t
  · -- the timer of a close that waits carries its deadline, so that the handler answers the close
    obtain ⟨hw, heq⟩ := hclose
    obtain ⟨t', d, due, hct, hd, htm⟩ := h id r hr hw
    obtain rfl := Option.some.inj (hct.symm.trans heq)
    obtain rfl := Option.some.inj (htm.symm.trans htimer)
    have harmed : Armed (s.fired t').timers s.fresh id r := by
      refine Timed.armed_update harm fun hw' hread => ?_
      obtain ⟨d', hd'⟩ := (harm.readTimer t' hread).2 _ htm
      cases hd'
    obtain ⟨c, hc⟩ := Option.ne_none_iff_exists'.1 hw
    obtain rfl := Option.some.inj hx
    refine put hclosings harmed (.onCloseExpired d) (.onTimeout rfl hx) (.none_waiting ?_)
    simp only [onCloseExpired, hc, hd, if_true]
  · have hbase : Closing (s.fired t).timers id r :=
      (h id r hr).update fun hw heq => hclose ⟨hw, heq⟩
    have hawaits := Awaits.onTimeout hid hbase hg hx
    by_cases hread : r.readFrom ≠ none ∧ r.readTimer = some t
    · obtain ⟨hw, heq⟩ := hread
      obtain ⟨t', d, due, hrt, hd, htm⟩ := harm.reading hw
      obtain rfl := Option.some.inj (hrt.symm.trans heq)
      obtain rfl := Option.some.inj (htm.symm.trans htimer)
      obtain ⟨c, hc⟩ := Option.ne_none_iff_exists'.1 hw
      obtain rfl := Option.some.inj hx
      have hx' : onReadExpired (s.env m) id r d = thenRetire (s.env m) id
          ({ r with readFrom := none, readDeadline := none }, [.reply c (.error .readDeadlineExhausted)])
          (d + 5000) := by
        simp only [onReadExpired, hc, hd, if_true]
      rw [hx'] at hawaits ⊢
      refine put (q := { r with readFrom := none, readDeadline := none }) hclosings ?_ ?_ ?_ hawaits
      · exact Timed.armed_update (r := { r with readFrom := none, readDeadline := none })
          ⟨harm.timer, harm.readTimer, harm.closeTimer, fun hw' => absurd rfl hw'⟩ fun hw' => absurd rfl hw'
      · refine (Retimes.reply c (.error .readDeadlineExhausted)).thenRetire (fun _ _ _ hmem => ?_) rfl rfl _
        simp at hmem
      · exact Local.reply.append (.beginRetirement _)
    · exact put hclosings (Timed.armed_update harm fun hw heq => hread ⟨hw, heq⟩) (.onTimeout hid hx)
        (.onTimeout hid hx) hawaits

theorem moved {s' : System} (h : Attended s) (ht : Timed s) (ha : Answering s) (hreg : Registered s)
    (hg : Guard s m) (hs : Moved s m s') : Attended s' := by
  unfold Guard at hg
  cases hs with
  | call pid c t hin hturn =>
    have hlog : Timed (s.log [.called ⟨pid, s.fresh⟩]) := ht.log fun t' hmem => by
      cases List.mem_singleton.1 hmem
    change Attended ((s.log [.called ⟨pid, s.fresh⟩]).turn m t)
    have hlog' : Attended (s.log [.called ⟨pid, s.fresh⟩]) := h
    cases hturn with
    | answer c reply jobs => exact hlog'.quiet (fun id r hr => hr) rfl
    | reserve request context hnew =>
      intro id r hr
      change (s.owner.transfers.insert _ _).lookup id = some r at hr
      by_cases hid : id = context.transferRef
      · subst hid
        rw [AList.lookup_insert] at hr
        obtain rfl := Option.some.inj hr
        exact fun hclose => absurd rfl hclose
      · rw [AList.lookup_insert_ne hid] at hr
        exact h id r hr
    | free id receipt r hr => exact hlog'.free hlog hr
    | change c id r x hr hx =>
      refine hlog'.put' hlog hr (.called (ha.formed id r hr) hx) (.called hx) (.called (h id r hr) ?_ hx)
      rintro selector rfl
      rw [hin] at hg
      cases hx with
      | observed => exact hg _ hr
      | closed => exact hg _ hr
  | report w k rep rest r x hk hout hdown hr hworker hx =>
    have hbase : Attended (s.received w rep rest) := h
    exact hbase.put' (ht.received w rep rest) hr (.onReport (ha.formed _ r hr) hx) (.onReport hx)
      (.onReport (ha.formed _ r hr) (h _ r hr) hx)
  | stray w k rep rest hk =>
    have hbase : Attended (s.received w rep rest) := h
    exact hbase.quiet (fun id r hr => hr) rfl
  | ended w k normal rest t hk hout hturn =>
    have hbase : Attended (s.received w (.down normal) rest) := h
    cases hturn with
    | joined id r hr =>
      exact hbase.put' (ht.received w _ rest) hr (.joined normal) (.joined normal) (.none_waiting rfl)
    | left id r hnone hr hmonitor => exact absurd hmonitor ((hreg.caller id r hr).2 w k hk)
    | job => exact hbase.quiet (fun id r hr => hr) rfl
  | down monitor pid normal t hin hturn =>
    rw [hin] at hg
    cases hturn with
    | joined id r hr => exact h.put' ht hr (.joined normal) (.joined normal) (.none_waiting rfl)
    | left id r hnone hr hmonitor hcaller =>
      exact h.put' ht hr (.beginRetirement _) (.beginRetirement _)
        (.beginRetirement (h id r hr) (hg id r hr hmonitor hcaller))
    | job => exact h.quiet (fun id r hr => hr) rfl
  | timeout t timer r x hin htimer hr hx =>
    rw [hin] at hg
    exact h.fire ht htimer rfl hr hx (hg timer htimer r hr)
  | late t timer htimer hnone =>
    have hbase : Attended (s.fired t) := by
      intro id r hr
      refine (h id r hr).update fun hw heq => ?_
      obtain ⟨t', d, due, hclose, -, htm⟩ := h id r hr hw
      obtain rfl := Option.some.inj (hclose.symm.trans heq)
      obtain rfl := Option.some.inj (htm.symm.trans htimer)
      exact absurd (hnone.symm.trans hr) (Option.some_ne_none r).symm
    exact hbase.quiet (fun id r hr => hr) rfl
  | act w k a next hk hact => exact h

end Attended

/-- What holds of the transfers in every run. -/
structure Sane (s : System) : Prop where
  registered : Registered s
  answering : Answering s
  unended : Unended s
  timed : Timed s

theorem Sane.start (limits : Limits) (clock : ℤ) : Sane (System.start limits clock) :=
  ⟨.start limits clock, .start limits clock, .start limits clock, .start limits clock⟩

theorem Sane.step {s s' : System} {m : Move} (h : Sane s) (hs : System.Step s m s') : Sane s' := by
  have hm := next_moved hs.2
  exact ⟨h.registered.moved hm, h.answering.moved hm, h.unended.moved h.answering h.registered hm,
    h.timed.moved h.answering hm⟩

theorem Sane.run {limits : Limits} {clock : ℤ} {ms : List Move} {s : System}
    (h : System.Runs limits clock ms s) : Sane s :=
  h.invariant (.start limits clock) fun _ _ _ => .step

/-- Nobody waits without a deadline, and every accepted call is answered once. -/
structure Attentive (s : System) : Prop where
  closing : ∀ id r, s.owner.transfers.lookup id = some r → r.closeFrom ≠ none →
    ∃ t d due, r.closeTimer = some t ∧ r.closeDeadline = some d ∧
      s.timers t = some ⟨due, .closeExpired id d⟩
  reading : ∀ id r, s.owner.transfers.lookup id = some r → r.readFrom ≠ none →
    ∃ t d due, r.readTimer = some t ∧ r.readDeadline = some d ∧ s.timers t = some ⟨due, .readExpired id d⟩
  owned : ∀ slot id w timer c, .accepted slot id w timer c ∈ s.history →
    w ≠ none ∧ (slot ≠ .opening → timer ≠ none)
  atMostOnce : ∀ c, (repliedTo s.history).count c ≤ 1
  joined : ∀ slot id pid timer c normal,
    [.accepted slot id (some pid) timer c, .reported pid (.down normal)].Sublist s.history →
      (repliedTo s.history).count c = 1
  expired : ∀ slot id w t c,
    [.accepted slot id w (some t) c, .fired t].Sublist s.history → (repliedTo s.history).count c = 1

section Answers

variable {s : System}

theorem Answering.count_le (h : Answering s) (c : From) : (repliedTo s.history).count c ≤ 1 := by
  have hnodup := (h.calls.nodup_iff).2 h.nodup
  exact List.nodup_iff_count_le_one.1 (List.nodup_append.1 hnodup).1 c

/-- An accepted call is answered, or still waits where it was accepted. -/
theorem Answering.answered_or (h : Answering s) {slot : Slot} {id : Ref} {w : Option Pid} {timer : Option Tag}
    {c : From} (hacc : .accepted slot id w timer c ∈ s.history) :
    (repliedTo s.history).count c = 1 ∨
      ∃ r, s.owner.transfers.lookup id = some r ∧ r.waiting slot = some c ∧ r.worker = w ∧
        r.waitTimer slot = timer := by
  have hcall : c ∈ repliedTo s.history ++ s.owner.waiting := h.calls.mem_iff.2 (h.accepted _ _ _ _ _ hacc)
  rcases List.mem_append.1 hcall with hc | hc
  · exact .inl (Nat.le_antisymm (h.count_le c) (List.count_pos_iff.2 hc))
  · obtain ⟨id', r, slot', hr, hwait⟩ := mem_waiting hc
    obtain ⟨rfl, rfl, rfl, rfl⟩ := h.once _ _ _ _ _ _ _ _ _ hacc (h.known id' r slot' c hr hwait)
    exact .inr ⟨r, hr, hwait, rfl, rfl⟩

theorem Sane.joined (h : Sane s) {slot : Slot} {id : Ref} {pid : Pid} {timer : Option Tag} {c : From}
    {normal : Bool}
    (hsub : [.accepted slot id (some pid) timer c, .reported pid (.down normal)].Sublist s.history) :
    (repliedTo s.history).count c = 1 := by
  rcases h.answering.answered_or (hsub.subset List.mem_cons_self) with hc | ⟨r, hr, hwait, hw, ht⟩
  · exact hc
  · subst ht
    exact absurd hsub (h.unended id r slot c pid normal hr hwait hw)

theorem Sane.expired (h : Sane s) (ha : Attended s) {slot : Slot} {id : Ref} {w : Option Pid} {t : Tag} {c : From}
    (hsub : [.accepted slot id w (some t) c, .fired t].Sublist s.history) :
    (repliedTo s.history).count c = 1 := by
  have hfired := (h.timed.fired t (hsub.subset (List.mem_cons_of_mem _ List.mem_cons_self))).2
  rcases h.answering.answered_or (hsub.subset List.mem_cons_self) with hc | ⟨r, hr, hwait, -, ht⟩
  · exact hc
  · have hne : ∀ slot', r.waiting slot' = some c → r.waiting slot' ≠ none := by
      intro slot' hs
      rw [hs]
      exact Option.some_ne_none c
    cases slot with
    | opening => cases ht
    | reading =>
      obtain ⟨t', d, due, hrt, -, htm⟩ := (h.timed.armed id r hr).reading (hne .reading hwait)
      obtain rfl := Option.some.inj (hrt.symm.trans ht)
      exact absurd (htm.symm.trans hfired) (Option.some_ne_none _)
    | closing =>
      obtain ⟨t', d, due, hct, -, htm⟩ := ha id r hr (hne .closing hwait)
      obtain rfl := Option.some.inj (hct.symm.trans ht)
      exact absurd (htm.symm.trans hfired) (Option.some_ne_none _)

end Answers

/-- **Deadlines.** In a run of guarded moves a caller that waits for a close or a read has its timer armed
with its own deadline, and every accepted call is answered at most once, and once when its worker has gone
down or its timer has fired. -/
theorem transfer_deadlines {limits : Limits} {clock : ℤ} {ms : List Move} {s : System}
    (h : Run (Guarded System.Step Guard) (System.start limits clock) ms s) : Attentive s := by
  have hboth : Sane s ∧ Attended s := by
    refine h.invariant (I := fun s => Sane s ∧ Attended s) ⟨.start limits clock, .start limits clock⟩
      fun s m s' hi hs => ?_
    exact ⟨hi.1.step hs.1, hi.2.moved hi.1.timed hi.1.answering hi.1.registered hs.2 (next_moved hs.1.2)⟩
  obtain ⟨hsane, hattended⟩ := hboth
  exact ⟨hattended, fun id r hr => (hsane.timed.armed id r hr).reading, hsane.answering.bound,
    hsane.answering.count_le, fun _ _ _ _ _ _ => hsane.joined, fun _ _ _ _ _ => hsane.expired hattended⟩

/-! ### a transfer opened and closed -/

/-- A move of a machine on which everyone is alive and the clock reads `now`. -/
def moveAt (now : ℤ) (input : Input) : Move :=
  ⟨input, ⟨now, now⟩, fun _ => true, fun _ => true, [], fun _ => false⟩

def plainRequest : Request := ⟨utf8 "s", utf8 "use:" ++ List.replicate 64 48, 0, none⟩

def plainContext : Context := ⟨List.replicate 32 48, 60000, 134217728, 131073⟩

/-- A transfer reserved and opened by process 1. -/
def opened : System :=
  ((System.start transferLimits 0).call (moveAt 0 (.call 1 (.reserve plainRequest plainContext))) 1
      (.reserve plainRequest plainContext)).call
    (moveAt 0 (.call 1 (.openTransfer plainRequest plainContext))) 1 (.openTransfer plainRequest plainContext)

/-- The close of that transfer by process 2, with a deadline. -/
def closing (deadline : ℤ) : Call := .retire ⟨plainContext.transferRef, 60000, deadline⟩

theorem opened_run : Run (Guarded System.Step Guard) (System.start transferLimits 0)
    [moveAt 0 (.call 1 (.reserve plainRequest plainContext)),
      moveAt 0 (.call 1 (.openTransfer plainRequest plainContext))] opened := by
  refine Run.snoc (Run.snoc (Run.nil) ⟨⟨⟨by decide, by decide, ?_⟩, rfl⟩, trivial⟩)
    ⟨⟨⟨by decide, by decide, ?_⟩, rfl⟩, trivial⟩
  · intro monitor pid normal h
    cases h
  · intro monitor pid normal h
    cases h

/-- The record of the transfer. -/
def recordOf (s : System) : Option Record := s.owner.transfers.lookup plainContext.transferRef

theorem transfer_deadlines_close :
    Attentive (opened.call (moveAt 0 (.call 2 (closing 5000))) 2 (closing 5000)) := by
  have hstep : Guarded System.Step Guard opened (moveAt 0 (.call 2 (closing 5000)))
      (opened.call (moveAt 0 (.call 2 (closing 5000))) 2 (closing 5000)) := by
    refine ⟨⟨⟨by decide, by decide, fun _ _ _ h => by cases h⟩, rfl⟩, ?_⟩
    intro r hr _ _ _ _ _ t ht
    have hnone : (recordOf opened).map Record.closeTimer = some none := by decide
    rw [recordOf, hr] at hnone
    cases ht.symm.trans (Option.some.inj hnone)
  exact transfer_deadlines (opened_run.snoc hstep)

/-- The transfer after its caller went down at 3, which armed the timer of its retirement for 5003. -/
def abandoned : System :=
  opened.turn (moveAt 3 (.down 1 1 false))
    (opened.owner.down (opened.env (moveAt 3 (.down 1 1 false))) 1 1 false)

/-- A close that is due at 5000 then waits with no timer of its own. -/
def unattended : System := abandoned.call (moveAt 3 (.call 2 (closing 5000))) 2 (closing 5000)

theorem unattended_run : ∃ ms, System.Runs transferLimits 0 ms unattended := by
  have hopened : System.Runs transferLimits 0 _ opened := opened_run.mono fun _ _ _ h => h.1
  have hdown : System.Step opened (moveAt 3 (.down 1 1 false)) abandoned := by
    refine ⟨⟨by decide, by decide, fun monitor pid normal h w k hk => ?_⟩, rfl⟩
    obtain ⟨rfl, -, -⟩ := Input.down.inj h
    obtain ⟨r, hr⟩ := Option.isSome_iff_exists.1 (show (recordOf opened).isSome = true by decide)
    have hmonitor : (recordOf opened).map Record.callerMonitor = some 1 := by decide
    rw [hr] at hmonitor
    have hne := ((Sane.run hopened).registered.caller _ r hr).2 w k hk
    rw [Option.some.inj hmonitor] at hne
    exact hne.symm
  have hclose : System.Step abandoned (moveAt 3 (.call 2 (closing 5000))) unattended :=
    ⟨⟨by decide, by decide, fun _ _ _ h => by cases h⟩, rfl⟩
  exact ⟨_, (hopened.snoc hdown).snoc hclose⟩

theorem transfer_deadlines_lost : ∃ ms s, System.Runs transferLimits 0 ms s ∧
    ∃ id r, s.owner.transfers.lookup id = some r ∧ r.closeFrom ≠ none ∧
      ¬ ∃ t d due, r.closeTimer = some t ∧ r.closeDeadline = some d ∧
        s.timers t = some ⟨due, .closeExpired id d⟩ := by
  obtain ⟨ms, hrun⟩ := unattended_run
  obtain ⟨r, hr⟩ := Option.isSome_iff_exists.1 (show (recordOf unattended).isSome = true by decide)
  have hwaits : (recordOf unattended).map (fun r => (r.closeFrom, r.closeTimer, r.closeDeadline)) =
      some (some ⟨2, 9⟩, some 7, some 5000) := by decide
  rw [hr] at hwaits
  obtain ⟨hfrom, hrest⟩ := Prod.mk.inj (Option.some.inj hwaits)
  obtain ⟨htimer, hdeadline⟩ := Prod.mk.inj hrest
  refine ⟨ms, unattended, hrun, plainContext.transferRef, r, hr, ?_, ?_⟩
  · rw [hfrom]
    exact Option.some_ne_none _
  · rintro ⟨t, d, due, ht, hd, htm⟩
    obtain rfl := Option.some.inj (htimer.symm.trans ht)
    obtain rfl := Option.some.inj (hdeadline.symm.trans hd)
    have harmed : unattended.timers 7 = some ⟨5003, .closeExpired plainContext.transferRef 5003⟩ := by decide
    rw [harmed] at htm
    obtain ⟨-, hmessage⟩ := Timer.mk.inj (Option.some.inj htm)
    exact absurd (Timeout.closeExpired.inj hmessage).2 (by decide)

end Loopex.Transfers
