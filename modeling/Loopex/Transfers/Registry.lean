import Loopex.Transfers.Calls

/-!
# The workers and monitors of the records

* `Record.binding` — what a record is bound to, which no message changes
* `Allowed` — the effects a handler of one record may have
* `Registered` — every record finds its worker, and every worker its record
-/

namespace Loopex.Transfers

open Loopex.Erlang Loopex.System Owner

variable {o : Owner} {v : Env} {sender : From} {id : Ref} {r : Record} {x : Record × List Effect}

/-! ## what a record is bound to -/

/-- The request, the processes and the monitors of a record. -/
structure Binding where
  request : Request
  context : Context
  caller : Pid
  callerMonitor : Tag
  worker : Option Pid
  workerMonitor : Option Tag

def Record.binding (r : Record) : Binding :=
  ⟨r.request, r.context, r.caller, r.callerMonitor, r.worker, r.workerMonitor⟩

theorem beginRetirement_binding (deadline : ℤ) :
    (r.beginRetirement v id deadline).1.binding = r.binding := by
  change (r.retire v).1.binding = _
  rw [Record.retire_same]
  rfl

theorem thenRetire_binding (h : x.1.binding = r.binding) (deadline : ℤ) :
    (thenRetire v id x deadline).1.binding = r.binding :=
  (beginRetirement_binding deadline).trans h

theorem readResult_binding {result : ReadReply} (h : readResult v id r result = some x) :
    x.1.binding = r.binding := by
  unfold readResult at h
  split at h
  · split at h
    · split at h
      · obtain ⟨deadline, -, rfl⟩ := Option.map_eq_some_iff.1 h
        exact thenRetire_binding rfl _
      · obtain rfl := Option.some.inj h
        rfl
    · obtain rfl := Option.some.inj h
      rfl
  · obtain rfl := Option.some.inj h
    rfl

theorem transferOpened_binding (transfer : Transfer) (use : Term) (work : Work) :
    (o.transferOpened v id r transfer use work).1.binding = r.binding := by
  unfold transferOpened adopt
  split
  · split
    · rfl
    · exact beginRetirement_binding _
  · rfl

theorem onReport_binding {rep : Report} (h : o.onReport v id r rep = some x) :
    x.1.binding = r.binding := by
  cases rep with
  | readResult result => exact readResult_binding h
  | opened transfer use work =>
    obtain rfl := Option.some.inj h
    exact transferOpened_binding transfer use work
  | work | retired | down =>
    obtain rfl := Option.some.inj h
    rfl

theorem joined_binding (normal : Bool) : (r.joined v normal).released.binding = r.binding := by
  unfold Record.joined
  split <;> rfl

theorem onTimeout_binding {message : Timeout} (h : onTimeout v r message = some x) :
    x.1.binding = r.binding := by
  cases message with
  | expire id =>
    obtain ⟨deadline, -, rfl⟩ := Option.map_eq_some_iff.1 h
    exact beginRetirement_binding _
  | closeExpired id deadline =>
    obtain rfl := Option.some.inj h
    unfold onCloseExpired
    split
    · split <;> rfl
    · rfl
  | readExpired id deadline =>
    obtain rfl := Option.some.inj h
    unfold onReadExpired
    split
    · split
      · exact thenRetire_binding rfl _
      · rfl
    · rfl

theorem awaitClose_binding : (awaitClose v sender x).1.binding = x.1.binding := by
  unfold awaitClose
  split
  · rfl
  split <;> rfl

/-- A call keeps what a record is bound to, or starts the worker of a reserved one. -/
theorem Called.binding {limits : Limits} {c : Call} (h : Called limits v sender c id r x) :
    x.1.binding = r.binding ∨
      r.status = .reserved ∧ x.2 = [.spawn v.fresh (ioWorker v r.request r.context)] ∧
        id = r.context.transferRef ∧
        x.1.binding = { r.binding with worker := some v.fresh, workerMonitor := some (v.fresh + 1) } := by
  cases h with
  | opened r hstatus => exact .inr ⟨hstatus, rfl, rfl, rfl⟩
  | expired | read | observed => exact .inl rfl
  | closed r selector =>
    refine .inl (awaitClose_binding.trans ?_)
    exact beginRetirement_binding _

/-! ## the effects of a handler -/

/-- The effects that concern a record and the reference that comes next. -/
def Allowed (v : Env) (id : Ref) (r : Record) : Effect → Prop
  | .reply _ _ => True
  | .tell w _ => r.worker = some w
  | .spawn w k => w = v.fresh ∧ k = ioWorker v r.request r.context ∧ id = r.context.transferRef
  | .arm t _ message => t = v.fresh ∧ message.ref = id
  | .cancel t => r.timer = some t ∨ r.readTimer = some t ∨ r.closeTimer = some t

/-- A handler with effects of its record only. -/
def Local (v : Env) (id : Ref) (r : Record) (es : List Effect) : Prop := ∀ e ∈ es, Allowed v id r e

namespace Local

theorem nil : Local v id r [] := by
  intro e he
  cases he

theorem append {es es' : List Effect} (h : Local v id r es) (h' : Local v id r es') :
    Local v id r (es ++ es') := by
  intro e he
  rcases List.mem_append.1 he with he | he
  · exact h e he
  · exact h' e he

theorem replies {c : Option From} {reply : Reply} : Local v id r (c.toList.map (.reply · reply)) := by
  intro e he
  obtain ⟨c, -, rfl⟩ := List.mem_map.1 he
  trivial

theorem reply {c : From} {reply : Reply} : Local v id r [.reply c reply] := by
  intro e he
  obtain rfl := List.mem_singleton.1 he
  trivial

theorem tell (order : Order) : Local v id r (r.tell order) := by
  intro e he
  obtain ⟨w, hw, rfl⟩ := List.mem_map.1 he
  exact Option.mem_toList.1 hw

theorem arm {due : ℤ} {message : Timeout} (h : message.ref = id) : Local v id r [.arm v.fresh due message] := by
  intro e he
  obtain rfl := List.mem_singleton.1 he
  exact ⟨rfl, h⟩

theorem cancel {timer : Option Tag} (h : timer = r.timer ∨ timer = r.readTimer ∨ timer = r.closeTimer) :
    Local v id r (cancelTimer timer) := by
  intro e he
  obtain ⟨t, ht, rfl⟩ := List.mem_map.1 he
  obtain rfl := Option.mem_toList.1 ht
  rcases h with h | h | h
  · exact .inl h.symm
  · exact .inr (.inl h.symm)
  · exact .inr (.inr h.symm)

/-- The effects of a handler on a record that differs in what does not matter to them. -/
theorem mono {r' : Record} {es : List Effect} (h : Local v id r' es) (hworker : r'.worker = r.worker)
    (htimer : r'.timer = r.timer ∨ r'.timer = none)
    (hread : r'.readTimer = r.readTimer ∨ r'.readTimer = none) (hclose : r'.closeTimer = r.closeTimer)
    (hrequest : r'.request = r.request) (hcontext : r'.context = r.context) : Local v id r es := by
  intro e he
  have ha := h e he
  cases e with
  | reply => trivial
  | tell w order => exact hworker.symm.trans ha
  | spawn w k =>
    simp only [Allowed, hrequest, hcontext] at ha ⊢
    exact ha
  | arm => exact ha
  | cancel t =>
    rcases ha with ha | ha | ha
    · exact htimer.elim (fun hs => .inl (hs.symm.trans ha)) fun hs => by simp [hs] at ha
    · exact hread.elim (fun hs => .inr (.inl (hs.symm.trans ha))) fun hs => by simp [hs] at ha
    · exact .inr (.inr (hclose.symm.trans ha))

theorem retire : Local v id r (r.retire v).2 := by
  unfold Record.retire
  split
  · exact nil
  split
  · exact nil
  · exact tell _

theorem beginRetirement (deadline : ℤ) : Local v id r (r.beginRetirement v id deadline).2 := by
  refine ((cancel (.inl rfl)).append retire).append ?_
  unfold Record.retirementTimer
  split
  · exact nil
  · exact arm rfl

theorem answerRead {c : From} {answer : ReadReply} : Local v id r (answerRead r c answer).2 :=
  (cancel (.inr (.inl rfl))).append reply

theorem readResult {result : ReadReply} (h : readResult v id r result = some x) : Local v id r x.2 := by
  unfold Owner.readResult at h
  split at h
  next c hread =>
    split at h
    · split at h
      · obtain ⟨deadline, -, rfl⟩ := Option.map_eq_some_iff.1 h
        exact answerRead.append ((beginRetirement _).mono rfl (.inl rfl) (.inr rfl) rfl rfl rfl)
      · obtain rfl := Option.some.inj h
        exact answerRead
    · obtain rfl := Option.some.inj h
      exact nil
  · obtain rfl := Option.some.inj h
    exact nil

theorem onReport {rep : Report} (h : o.onReport v id r rep = some x) : Local v id r x.2 := by
  cases rep with
  | readResult result => exact readResult h
  | opened transfer use work =>
    obtain rfl := Option.some.inj h
    unfold transferOpened adopt
    split
    · split
      · exact replies.append (arm rfl)
      · exact (beginRetirement _).mono rfl (.inl rfl) (.inl rfl) rfl rfl rfl
    · exact tell _
  | work | retired | down =>
    obtain rfl := Option.some.inj h
    exact nil

theorem joined (normal : Bool) : Local v id r ((r.joined v normal).finishWaiters v) := by
  have hsame : (r.joined v normal).closeTimer = r.closeTimer ∧ (r.joined v normal).readTimer = r.readTimer := by
    unfold Record.joined
    split <;> exact ⟨rfl, rfl⟩
  unfold Record.finishWaiters
  rw [hsame.1, hsame.2]
  exact ((((cancel (.inr (.inr rfl))).append (cancel (.inr (.inl rfl)))).append replies).append
    replies).append replies

theorem onTimeout {message : Timeout} (hid : message.ref = id) (h : onTimeout v r message = some x) :
    Local v id r x.2 := by
  cases message with
  | expire id' =>
    obtain ⟨deadline, -, rfl⟩ := Option.map_eq_some_iff.1 h
    obtain rfl : id' = id := hid
    exact beginRetirement _
  | closeExpired id' deadline =>
    obtain rfl := Option.some.inj h
    unfold onCloseExpired
    split
    · split
      · exact reply
      · exact nil
    · exact nil
  | readExpired id' deadline =>
    obtain rfl := Option.some.inj h
    obtain rfl : id' = id := hid
    unfold onReadExpired
    split
    · split
      · exact reply.append ((beginRetirement _).mono rfl (.inl rfl) (.inl rfl) rfl rfl rfl)
      · exact nil
    · exact nil

theorem awaitClose (h : Local v id r x.2) : Local v id r (awaitClose v sender x).2 := by
  unfold Owner.awaitClose
  split
  · exact h.append reply
  split
  · exact h.append reply
  · exact h

theorem called {limits : Limits} {c : Call} (h : Called limits v sender c id r x) : Local v id r x.2 := by
  cases h with
  | opened r hstatus =>
    intro e he
    obtain rfl := List.mem_singleton.1 he
    exact ⟨rfl, rfl, rfl⟩
  | expired | observed => exact reply
  | read id r length =>
    have harm : Local v id r [.arm v.fresh (v.later + limits.readDeadlineMs)
        (.readExpired id (v.now + limits.readDeadlineMs))] := arm rfl
    exact harm.append (tell _)
  | closed r selector =>
    exact awaitClose ((beginRetirement _).mono rfl (.inl rfl) (.inl rfl) rfl rfl rfl)

end Local

/-! ## the workers after a turn -/

/-- The orders a turn sends to a worker. -/
def ordersTo (w : Pid) : List Effect → List Order
  | [] => []
  | .tell w' order :: es => if w' = w then order :: ordersTo w es else ordersTo w es
  | _ :: es => ordersTo w es

def Worker.deliver (k : Worker) (orders : List Order) : Worker := { k with inbox := k.inbox ++ orders }

theorem ordersTo_append (w : Pid) (es es' : List Effect) :
    ordersTo w (es ++ es') = ordersTo w es ++ ordersTo w es' := by
  induction es with
  | nil => rfl
  | cons e es ih =>
    cases e with
    | tell w' order =>
      simp only [List.cons_append, ordersTo]
      split
      · rw [ih, List.cons_append]
      · exact ih
    | reply => exact ih
    | spawn => exact ih
    | arm => exact ih
    | cancel => exact ih

/-- Orders go to the worker of the record only. -/
theorem Local.ordersTo_eq_nil {es : List Effect} {w : Pid} (h : Local v id r es) (hw : r.worker ≠ some w) :
    ordersTo w es = [] := by
  induction es with
  | nil => rfl
  | cons e es ih =>
    have ih' := ih fun e' he' => h e' (List.mem_cons_of_mem _ he')
    cases e with
    | tell w' order =>
      have hother : w' ≠ w := by
        rintro rfl
        exact hw (h _ List.mem_cons_self)
      simp only [ordersTo, if_neg hother]
      exact ih'
    | reply => exact ih'
    | spawn => exact ih'
    | arm => exact ih'
    | cancel => exact ih'

/-- A worker that was there gets the orders of the turn. -/
theorem setWorkers_of_ne {es : List Effect} {w : Pid} (h : Local v id r es) (hw : w ≠ v.fresh)
    (workers : Pid → Option Worker) :
    setWorkers workers es w = (workers w).map fun k => k.deliver (ordersTo w es) := by
  induction es generalizing workers with
  | nil =>
    cases hk : workers w <;> simp [setWorkers, ordersTo, Worker.deliver, hk]
  | cons e es ih =>
    have ih' := ih fun e' he' => h e' (List.mem_cons_of_mem _ he')
    cases e with
    | tell w' order =>
      simp only [setWorkers, ordersTo]
      rw [ih']
      by_cases heq : w' = w
      · subst heq
        simp only [Function.update_self, if_true, Option.map_map]
        congr 1
        funext k
        simp [Worker.told, Worker.deliver]
      · rw [Function.update_of_ne (Ne.symm heq), if_neg heq]
    | spawn w' k =>
      simp only [setWorkers, ordersTo]
      rw [ih', Function.update_of_ne]
      rw [(h _ List.mem_cons_self).1]
      exact hw
    | reply => exact ih' workers
    | arm => exact ih' workers
    | cancel => exact ih' workers

/-- What identifies a worker, which nothing changes. -/
def Worker.identity (k : Worker) : Ref × Tag × Request × Context := (k.ref, k.monitor, k.request, k.context)

theorem Worker.finish_identity (k : Worker) (outcome : Reason) (proof : Bool) :
    (k.finish outcome proof).1.identity = k.identity := rfl

theorem Worker.resolve_identity (k : Worker) (limits : Limits) (now : ℤ) (resolution : Resolution)
    (proof : Bool) : (k.resolve limits now resolution proof).1.identity = k.identity := by
  unfold Worker.resolve
  split
  · rfl
  split
  · rfl
  split
  · rfl
  split <;> rfl

theorem Worker.serve_identity {k : Worker} {limits : Limits} {clock : Clock} {reader : Reader}
    {pread proof : Bool} {next : Worker × List Report}
    (h : k.serve limits clock reader pread proof = some next) : next.1.identity = k.identity := by
  unfold Worker.serve at h
  split at h
  · cases h
  · obtain rfl := Option.some.inj h
    rfl
  · split at h
    · obtain rfl := Option.some.inj h
      rfl
    · obtain rfl := Option.some.inj h
      rfl

theorem Worker.act_identity {k : Worker} {limits : Limits} {clock : Clock} {a : Act}
    {next : Worker × List Report} (h : k.act limits clock a = some next) :
    next.1.identity = k.identity := by
  unfold Worker.act at h
  split at h
  · cases h
  · obtain rfl := Option.some.inj h
    rfl
  · obtain rfl := Option.some.inj h
    rfl
  · obtain rfl := Option.some.inj h
    exact Worker.resolve_identity _ _ _ _ _
  · obtain ⟨reader, -, h⟩ := Option.bind_eq_some_iff.1 h
    exact Worker.serve_identity h
  · cases h

/-- A worker after a turn was there before, or was started in it. -/
theorem setWorkers_some {es : List Effect} (h : Local v id r es) {workers : Pid → Option Worker} {w : Pid}
    {k : Worker} (hk : setWorkers workers es w = some k) :
    (∃ k', workers w = some k' ∧ k.identity = k'.identity ∧ k.reader = k'.reader) ∨
      w = v.fresh ∧ k.identity = (ioWorker v r.request r.context).identity ∧ id = r.context.transferRef ∧
        k.reader = none := by
  induction es generalizing workers with
  | nil => exact .inl ⟨k, hk, rfl, rfl⟩
  | cons e es ih =>
    have ih' := @ih fun e' he' => h e' (List.mem_cons_of_mem _ he')
    cases e with
    | tell w' order =>
      rcases ih' hk with ⟨k', hk', hid⟩ | hnew
      · by_cases heq : w = w'
        · subst heq
          rw [Function.update_self] at hk'
          obtain ⟨k'', hk'', rfl⟩ := Option.map_eq_some_iff.1 hk'
          exact .inl ⟨k'', hk'', hid⟩
        · rw [Function.update_of_ne heq] at hk'
          exact .inl ⟨k', hk', hid⟩
      · exact .inr hnew
    | spawn w' k₀ =>
      obtain ⟨hw, hk₀, hid⟩ := h _ List.mem_cons_self
      rcases ih' hk with ⟨k', hk', hsame, hreader⟩ | hnew
      · by_cases heq : w = w'
        · subst heq
          rw [Function.update_self] at hk'
          obtain rfl := Option.some.inj hk'
          exact .inr ⟨hw, hsame.trans (congrArg Worker.identity hk₀), hid,
            hreader.trans (congrArg Worker.reader hk₀)⟩
        · rw [Function.update_of_ne heq] at hk'
          exact .inl ⟨k', hk', hsame, hreader⟩
      · exact .inr hnew
    | reply => exact ih' hk
    | arm => exact ih' hk
    | cancel => exact ih' hk

theorem setWorkers_free (r : Record) {workers : Pid → Option Worker} {reply : Reply} :
    setWorkers workers (cancelTimer r.timer ++ cancelTimer r.closeTimer ++ [.reply sender reply]) =
      workers := by
  cases r.timer <;> cases r.closeTimer <;> rfl

/-! ## workers and records -/

/-- A reference in use is not one that a move takes, and stays in use. -/
theorem lt_of_used {n fresh : ℕ} (h : n < fresh) : n < fresh + 3 := by omega

theorem ne_of_used {n fresh : ℕ} (h : n < fresh) : n ≠ fresh + 1 := by omega

theorem ne_monitor_of_used {n fresh : ℕ} (h : n < fresh) : n ≠ fresh + 1 + 1 := by omega

theorem taken_lt (fresh : ℕ) : fresh + 1 < fresh + 3 ∧ fresh + 1 + 1 < fresh + 3 := by omega

/-- Every record finds its worker, and references are used once. -/
structure Registered (s : System) : Prop where
  worker : ∀ id r w, s.owner.transfers.lookup id = some r → r.worker = some w →
    ∃ k, s.workers w = some k ∧ k.ref = id ∧ r.workerMonitor = some k.monitor ∧ k.request = r.request
  fresh : ∀ w k, s.workers w = some k → w < s.fresh ∧ k.monitor < s.fresh
  caller : ∀ id r, s.owner.transfers.lookup id = some r →
    r.callerMonitor < s.fresh ∧ ∀ w k, s.workers w = some k → r.callerMonitor ≠ k.monitor
  idle : ∀ w, s.workers w = none → s.outbox w = []

namespace Registered

variable {s : System} {m : Move}

theorem start (limits : Limits) (clock : ℤ) : Registered (System.start limits clock) := by
  constructor <;> simp [System.start]

theorem log (h : Registered s) (es : List Event) : Registered (s.log es) :=
  ⟨h.worker, h.fresh, h.caller, h.idle⟩

theorem fired (h : Registered s) (t : Tag) : Registered (s.fired t) :=
  ⟨h.worker, h.fresh, h.caller, h.idle⟩

theorem received (h : Registered s) {w : Pid} {k : Worker} (hk : s.workers w = some k) (rep : Report)
    (rest : List Report) : Registered (s.received w rep rest) := by
  refine ⟨h.worker, h.fresh, h.caller, fun w' hw' => ?_⟩
  have hne : w' ≠ w := by
    rintro rfl
    exact absurd (hk.symm.trans hw') (Option.some_ne_none k)
  exact (Function.update_of_ne hne _ _).trans (h.idle w' hw')

/-- Two records do not share a worker. -/
theorem inj (h : Registered s) {id id' : Ref} {r r' : Record} {w : Pid}
    (hr : s.owner.transfers.lookup id = some r) (hr' : s.owner.transfers.lookup id' = some r')
    (hw : r.worker = some w) (hw' : r'.worker = some w) : id = id' := by
  obtain ⟨k, hk, href, -, -⟩ := h.worker id r w hr hw
  obtain ⟨k', hk', href', -, -⟩ := h.worker id' r' w hr' hw'
  obtain rfl := Option.some.inj (hk.symm.trans hk')
  exact href.symm.trans href'

/-- A turn without effects on the records and the workers. -/
theorem quiet (h : Registered s) (jobs : Table Tag Pid) {es : List Effect}
    (hes : setWorkers s.workers es = s.workers) :
    Registered (s.turn m ({ s.owner with jobs := jobs }, es)) := by
  refine ⟨fun id r w hr hw => ?_, fun w k hk => ?_, fun id r hr => ?_, fun w hw => ?_⟩
  · simp only [System.turn, hes]
    exact h.worker id r w hr hw
  · simp only [System.turn, hes] at hk ⊢
    exact ⟨lt_of_used (h.fresh w k hk).1, lt_of_used (h.fresh w k hk).2⟩
  · simp only [System.turn, hes]
    obtain ⟨hlt, hne⟩ := h.caller id r hr
    exact ⟨lt_of_used hlt, hne⟩
  · simp only [System.turn, hes] at hw ⊢
    exact h.idle w hw

/-- A turn of a handler of one record. -/
theorem put (h : Registered s) {id : Ref} {r : Record} {x : Record × List Effect}
    (hr : s.owner.transfers.lookup id = some r) (hlocal : Local (s.env m) id r x.2)
    (hbind : x.1.binding = r.binding ∨
      x.2 = [.spawn (s.env m).fresh (ioWorker (s.env m) r.request r.context)] ∧
        id = r.context.transferRef ∧
        x.1.binding =
          { r.binding with
            worker := some (s.env m).fresh, workerMonitor := some ((s.env m).fresh + 1) }) :
    Registered (s.turn m (s.owner.put id x)) := by
  have hold : ∀ w k, s.workers w = some k →
      ∃ k', setWorkers s.workers x.2 w = some k' ∧ k'.identity = k.identity := by
    intro w k hk
    have hne : w ≠ (s.env m).fresh := ne_of_used (h.fresh w k hk).1
    rw [setWorkers_of_ne hlocal hne, hk]
    exact ⟨_, rfl, rfl⟩
  refine ⟨fun id' r' w hr' hw => ?_, fun w k hk => ?_, fun id' r' hr' => ?_, fun w hw => ?_⟩
  · change (s.owner.transfers.insert id x.1).lookup id' = some r' at hr'
    change ∃ k, setWorkers s.workers x.2 w = some k ∧ _
    have hkeep : ∀ r₀, s.owner.transfers.lookup id' = some r₀ → r'.binding = r₀.binding →
        ∃ k, setWorkers s.workers x.2 w = some k ∧ k.ref = id' ∧
          r'.workerMonitor = some k.monitor ∧ k.request = r'.request := by
      intro r₀ hr₀ heq
      have hworker : r₀.worker = some w := (congrArg Binding.worker heq).symm.trans hw
      obtain ⟨k, hk, href, hmonitor, hrequest⟩ := h.worker id' r₀ w hr₀ hworker
      obtain ⟨k', hk', hid⟩ := hold w k hk
      simp only [Worker.identity, Prod.mk.injEq] at hid
      refine ⟨k', hk', hid.1.trans href, ?_, ?_⟩
      · rw [hid.2.1]
        exact (congrArg Binding.workerMonitor heq).trans hmonitor
      · rw [hid.2.2.1, hrequest]
        exact (congrArg Binding.request heq).symm
    by_cases hid : id' = id
    · subst hid
      rw [AList.lookup_insert] at hr'
      obtain rfl := Option.some.inj hr'
      rcases hbind with heq | ⟨hes, href, heq⟩
      · exact hkeep r hr heq
      · have hw' : w = (s.env m).fresh := Option.some.inj (hw.symm.trans (congrArg Binding.worker heq))
        subst hw'
        refine ⟨ioWorker (s.env m) r.request r.context, ?_, href.symm, congrArg Binding.workerMonitor heq,
          (congrArg Binding.request heq).symm⟩
        rw [hes]
        exact Function.update_self _ _ _
    · rw [AList.lookup_insert_ne hid] at hr'
      exact hkeep r' hr' rfl
  · change w < s.fresh + 3 ∧ k.monitor < s.fresh + 3
    rcases setWorkers_some hlocal hk with ⟨k', hk', hid, -⟩ | ⟨rfl, hid, -⟩
    · simp only [Worker.identity, Prod.mk.injEq] at hid
      rw [hid.2.1]
      exact ⟨lt_of_used (h.fresh w k' hk').1, lt_of_used (h.fresh w k' hk').2⟩
    · simp only [Worker.identity, ioWorker, Prod.mk.injEq] at hid
      rw [hid.2.1]
      exact taken_lt s.fresh
  · have hcaller : ∃ r₀ id₀, s.owner.transfers.lookup id₀ = some r₀ ∧ r'.callerMonitor = r₀.callerMonitor := by
      change (s.owner.transfers.insert id x.1).lookup id' = some r' at hr'
      by_cases hid : id' = id
      · subst hid
        rw [AList.lookup_insert] at hr'
        obtain rfl := Option.some.inj hr'
        refine ⟨r, id', hr, ?_⟩
        rcases hbind with heq | ⟨-, -, heq⟩
        · exact congrArg Binding.callerMonitor heq
        · exact congrArg Binding.callerMonitor heq
      · rw [AList.lookup_insert_ne hid] at hr'
        exact ⟨r', id', hr', rfl⟩
    obtain ⟨r₀, id₀, hr₀, heq⟩ := hcaller
    obtain ⟨hlt, hne⟩ := h.caller id₀ r₀ hr₀
    rw [heq]
    refine ⟨lt_of_used hlt, fun w k hk => ?_⟩
    rcases setWorkers_some hlocal hk with ⟨k', hk', hid, -⟩ | ⟨rfl, hid, -⟩
    · simp only [Worker.identity, Prod.mk.injEq] at hid
      rw [hid.2.1]
      exact hne w k' hk'
    · simp only [Worker.identity, ioWorker, Prod.mk.injEq] at hid
      rw [hid.2.1]
      exact ne_monitor_of_used hlt
  · change s.outbox w = []
    cases hk : s.workers w with
    | none => exact h.idle w hk
    | some k =>
      obtain ⟨k', hk', -⟩ := hold w k hk
      exact absurd (hk'.symm.trans hw) (Option.some_ne_none k')

/-- A reservation brings a record without a worker. -/
theorem reserve (h : Registered s) {pid : Pid} {request : Request} {context : Context} {es : List Effect}
    (hes : setWorkers s.workers es = s.workers) :
    Registered (s.turn m
      (s.owner.putRecord context.transferRef (reservation (s.env m) pid request context), es)) := by
  refine ⟨fun id r w hr hw => ?_, fun w k hk => ?_, fun id r hr => ?_, fun w hw => ?_⟩
  · change (s.owner.transfers.insert _ _).lookup id = some r at hr
    simp only [System.turn, hes]
    by_cases hid : id = context.transferRef
    · subst hid
      rw [AList.lookup_insert] at hr
      obtain rfl := Option.some.inj hr
      cases hw
    · rw [AList.lookup_insert_ne hid] at hr
      exact h.worker id r w hr hw
  · simp only [System.turn, hes] at hk ⊢
    exact ⟨lt_of_used (h.fresh w k hk).1, lt_of_used (h.fresh w k hk).2⟩
  · change (s.owner.transfers.insert _ _).lookup id = some r at hr
    simp only [System.turn, hes]
    by_cases hid : id = context.transferRef
    · subst hid
      rw [AList.lookup_insert] at hr
      obtain rfl := Option.some.inj hr
      exact ⟨(taken_lt s.fresh).1, fun w k hk => (ne_of_used (h.fresh w k hk).2).symm⟩
    · rw [AList.lookup_insert_ne hid] at hr
      exact ⟨lt_of_used (h.caller id r hr).1, (h.caller id r hr).2⟩
  · simp only [System.turn, hes] at hw ⊢
    exact h.idle w hw

/-- A release takes a record away. -/
theorem free (h : Registered s) (id : Ref) {es : List Effect} (hes : setWorkers s.workers es = s.workers) :
    Registered (s.turn m ({ s.owner with transfers := s.owner.transfers.erase id }, es)) := by
  have hsub : ∀ id' r, (s.owner.transfers.erase id).lookup id' = some r →
      s.owner.transfers.lookup id' = some r := by
    intro id' r hr
    by_cases hid : id' = id
    · subst hid
      rw [AList.lookup_erase] at hr
      cases hr
    · rwa [AList.lookup_erase_ne hid] at hr
  refine ⟨fun id' r w hr hw => ?_, fun w k hk => ?_, fun id' r hr => ?_, fun w hw => ?_⟩
  · simp only [System.turn, hes]
    exact h.worker id' r w (hsub id' r hr) hw
  · simp only [System.turn, hes] at hk ⊢
    exact ⟨lt_of_used (h.fresh w k hk).1, lt_of_used (h.fresh w k hk).2⟩
  · simp only [System.turn, hes]
    exact ⟨lt_of_used (h.caller id' r (hsub id' r hr)).1, (h.caller id' r (hsub id' r hr)).2⟩
  · simp only [System.turn, hes] at hw ⊢
    exact h.idle w hw

theorem down (h : Registered s) {monitor : Tag} {pid : Pid} {normal : Bool} {t : Turn} {v : Env}
    (hv : v = s.env m) (ht : DownTurn s.owner v monitor pid normal t) : Registered (s.turn m t) := by
  subst hv
  cases ht with
  | joined id r hr hmonitor hworker => exact h.put hr (.joined normal) (.inl (joined_binding normal))
  | left id r hnone hr hmonitor hcaller =>
    exact h.put hr (.beginRetirement _) (.inl (beginRetirement_binding _))
  | job hnone => exact h.quiet _ rfl

/-- A worker that acts stays the same worker. -/
theorem act (h : Registered s) {w : Pid} {k : Worker} {a : Act} {next : Worker × List Report}
    (hk : s.workers w = some k) (hact : k.act s.owner.limits m.clock a = some next) :
    Registered (s.acted m w next) := by
  have hid := Worker.act_identity hact
  simp only [Worker.identity, Prod.mk.injEq] at hid
  have hback : ∀ w' k', (s.acted m w next).workers w' = some k' →
      ∃ k₀, s.workers w' = some k₀ ∧ k'.monitor = k₀.monitor := by
    intro w' k' hk'
    by_cases heq : w' = w
    · subst heq
      rw [System.acted_worker] at hk'
      obtain rfl := Option.some.inj hk'
      exact ⟨k, hk, hid.2.1⟩
    · rw [System.acted_worker_of_ne _ _ _ heq] at hk'
      exact ⟨k', hk', rfl⟩
  refine ⟨fun id r w' hr hw => ?_, fun w' k' hk' => ?_, fun id r hr => ?_, fun w' hw' => ?_⟩
  · obtain ⟨k', hk', href, hmonitor, hrequest⟩ := h.worker id r w' hr hw
    by_cases heq : w' = w
    · subst heq
      obtain rfl := Option.some.inj (hk.symm.trans hk')
      refine ⟨next.1, System.acted_worker _ _ _, hid.1.trans href, ?_, hid.2.2.1.trans hrequest⟩
      rw [hid.2.1]
      exact hmonitor
    · exact ⟨k', (System.acted_worker_of_ne _ _ _ heq).trans hk', href, hmonitor, hrequest⟩
  · obtain ⟨k₀, hk₀, hmonitor⟩ := hback w' k' hk'
    rw [hmonitor]
    exact h.fresh w' k₀ hk₀
  · refine ⟨(h.caller id r hr).1, fun w' k' hk' => ?_⟩
    obtain ⟨k₀, hk₀, hmonitor⟩ := hback w' k' hk'
    rw [hmonitor]
    exact (h.caller id r hr).2 w' k₀ hk₀
  · have heq : w' ≠ w := by
      rintro rfl
      rw [System.acted_worker] at hw'
      cases hw'
    rw [System.acted_outbox_of_ne _ _ _ heq]
    rw [System.acted_worker_of_ne _ _ _ heq] at hw'
    exact h.idle w' hw'

theorem moved {s' : System} (h : Registered s) (hs : Moved s m s') : Registered s' := by
  cases hs with
  | call pid c t hin ht =>
    refine log ?_ _
    cases ht with
    | answer c reply jobs => exact (h.log _).quiet _ rfl
    | reserve request context => exact (h.log _).reserve rfl
    | free id receipt r => exact (h.log _).free id (setWorkers_free r)
    | change c id r x hr hx =>
      refine (h.log _).put hr (.called hx) ?_
      rcases hx.binding with heq | ⟨-, hes, href, heq⟩
      · exact .inl heq
      · exact .inr ⟨hes, href, heq⟩
  | report w k rep rest r x hk hout hdown hr hworker hx =>
    exact (h.received hk rep rest).put hr (.onReport hx) (.inl (onReport_binding hx))
  | stray w k rep rest hk => exact (h.received hk rep rest).quiet s.owner.jobs rfl
  | ended w k normal rest t hk hout ht => exact (h.received hk _ rest).down rfl ht
  | down monitor pid normal t hin ht => exact h.down rfl ht
  | timeout t timer r x hin htimer hr hx =>
    exact (h.fired t).put hr (.onTimeout rfl hx) (.inl (onTimeout_binding hx))
  | late t timer => exact (h.fired t).quiet s.owner.jobs rfl
  | act w k a next hk hact => exact h.act hk hact

end Registered

end Loopex.Transfers
