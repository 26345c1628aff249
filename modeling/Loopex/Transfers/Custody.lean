import Loopex.Transfers.Reads

/-!
# The custody of the transfers

* `Gone`, `Line`, `Lines` — the end of a worker is its last message
* `launches` — no message starts a worker
* `Holds`, `Held` — what a handler leaves of the custody of its record, and what the record says of its worker
* `Custody` — a receipt stands for a worker that proved its work and ended, and a worker that has not ended is
  the worker of a record
-/

namespace Loopex.Transfers

open Loopex.Erlang Loopex.System Owner

variable {o : Owner} {v : Env} {sender : From} {id : Ref} {r : Record} {x : Record × List Effect}
  {s : System} {m : Move} {w : Pid}

/-! ## the end of a worker -/

/-- The end of a worker has been reported. -/
def Gone (history : List Event) (w : Pid) : Prop := ∃ normal, Event.reported w (.down normal) ∈ history

theorem gone_append {h es : List Event} : Gone (h ++ es) w ↔ Gone h w ∨ Gone es w := by
  simp only [Gone, List.mem_append, exists_or]

theorem not_gone_replies {es : List Effect} : ¬ Gone (replies es) w :=
  fun ⟨_, hmem⟩ => not_reported_replies hmem

theorem not_gone_call {c : Call} {t : Turn} :
    ¬ Gone ([.called sender] ++ replies t.2 ++ acceptance c sender t) w := by
  rintro ⟨normal, hmem⟩
  rcases List.mem_append.1 hmem with hmem | hmem
  · rcases List.mem_append.1 hmem with hmem | hmem
    · cases List.mem_singleton.1 hmem
    · exact not_reported_replies hmem
  · exact not_reported_acceptance hmem

theorem gone_single {e : Event} : Gone [e] w ↔ ∃ normal, e = .reported w (.down normal) := by
  simp only [Gone, List.mem_singleton, eq_comm]

/-- The reports that end a worker. -/
def Report.ends : Report → Bool
  | .down _ => true
  | _ => false

/-- The messages of a worker: its end is the last, and after it there are none. -/
structure Line (history : List Event) (w : Pid) (out : List Report) (k : Worker) : Prop where
  order : out.Pairwise fun rep _ => rep.ends = false
  running : k.phase ≠ .exited → ¬ Gone history w ∧ ∀ rep ∈ out, rep.ends = false
  gone : Gone history w → out = []

theorem act_line {limits : Limits} {clock : Clock} {k : Worker} {a : Act} {next : Worker × List Report}
    (h : k.act limits clock a = some next) :
    k.phase ≠ .exited ∧ next.2.Pairwise (fun rep _ => rep.ends = false) ∧
      (next.1.phase ≠ .exited → ∀ rep ∈ next.2, rep.ends = false) := by
  have hfinish : ∀ outcome proof, (k.finish outcome proof).2.Pairwise (fun rep _ => rep.ends = false) ∧
      ((k.finish outcome proof).1.phase ≠ .exited → ∀ rep ∈ (k.finish outcome proof).2, rep.ends = false) := by
    intro outcome proof
    refine ⟨?_, fun hne => absurd rfl hne⟩
    simp [Worker.finish, Report.ends]
  have hsingle : ∀ rep : Report, rep.ends = false →
      [rep].Pairwise (fun rep _ => rep.ends = false) ∧ ∀ rep' ∈ [rep], rep'.ends = false := by
    intro rep hrep
    refine ⟨List.pairwise_singleton _ _, fun rep' hmem => ?_⟩
    rw [List.mem_singleton.1 hmem]
    exact hrep
  unfold Worker.act at h
  split at h
  · cases h
  next hphase =>
    obtain rfl := Option.some.inj h
    exact ⟨hphase, List.pairwise_singleton _ _, fun hne => absurd rfl hne⟩
  next work hphase =>
    obtain rfl := Option.some.inj h
    refine ⟨?_, (hsingle _ rfl).1, fun _ => (hsingle _ rfl).2⟩
    rw [hphase]
    decide
  next resolution proof hphase =>
    obtain rfl := Option.some.inj h
    refine ⟨by rw [hphase]; decide, ?_⟩
    unfold Worker.resolve
    split
    · exact hfinish _ _
    split
    · exact hfinish _ _
    split
    · exact hfinish _ _
    split
    · exact ⟨(hsingle _ rfl).1, fun _ => (hsingle _ rfl).2⟩
    · exact hfinish _ _
  next pread proof hphase =>
    obtain ⟨reader, -, h⟩ := Option.bind_eq_some_iff.1 h
    refine ⟨by rw [hphase]; decide, ?_⟩
    unfold Worker.serve at h
    split at h
    · cases h
    · obtain rfl := Option.some.inj h
      exact hfinish _ _
    · split at h
      · obtain rfl := Option.some.inj h
        exact hfinish _ _
      · obtain rfl := Option.some.inj h
        exact ⟨(hsingle _ rfl).1, fun _ => (hsingle _ rfl).2⟩
  · cases h

namespace Line

variable {h es : List Event} {out : List Report} {k : Worker}

/-- What others do does not matter to the line. -/
theorem keep (hl : Line h w out k) (hes : ¬ Gone es w) (orders : List Order) :
    Line (h ++ es) w out (k.deliver orders) := by
  have hsame : Gone (h ++ es) w ↔ Gone h w := by
    rw [gone_append]
    exact or_iff_left hes
  refine ⟨hl.order, fun hphase => ?_, fun hg => hl.gone (hsame.1 hg)⟩
  obtain ⟨h1, h2⟩ := hl.running hphase
  exact ⟨fun hg => h1 (hsame.1 hg), h2⟩

/-- A message arrives. -/
theorem pop {rep : Report} {rest : List Report} (hl : Line h w (rep :: rest) k)
    (hes : ∀ w', Gone es w' → w' = w ∧ rep.ends = true) (orders : List Order) : Line (h ++ es) w rest (k.deliver orders) := by
  obtain ⟨hlast, horder⟩ := List.pairwise_cons.1 hl.order
  have hnone : ¬ Gone h w := fun hg => by cases hl.gone hg
  refine ⟨horder, fun hphase => ?_, fun hg => ?_⟩
  · obtain ⟨-, hout⟩ := hl.running hphase
    have hrep := hout rep List.mem_cons_self
    refine ⟨fun hg => ?_, fun rep' hmem => hout rep' (List.mem_cons_of_mem _ hmem)⟩
    rcases gone_append.1 hg with hg | hg
    · exact hnone hg
    · exact absurd ((hes w hg).2.symm.trans hrep) (by decide)
  · have hrep := (hes w ((gone_append.1 hg).resolve_left hnone)).2
    refine List.eq_nil_iff_forall_not_mem.2 fun rep' hmem => ?_
    exact absurd (hrep.symm.trans (hlast rep' hmem)) (by decide)

theorem acted {limits : Limits} {clock : Clock} {a : Act} {next : Worker × List Report} (hl : Line h w out k)
    (hact : k.act limits clock a = some next) : Line h w (out ++ next.2) next.1 := by
  obtain ⟨hphase, horder, hnext⟩ := act_line hact
  obtain ⟨hgone, hout⟩ := hl.running hphase
  refine ⟨List.pairwise_append.2 ⟨hl.order, horder, fun rep hmem _ _ => hout rep hmem⟩, fun hp => ⟨hgone, ?_⟩,
    fun hg => absurd hg hgone⟩
  intro rep hmem
  exact (List.mem_append.1 hmem).elim (hout rep) (hnext hp rep)

end Line

/-! ## the lines of the workers -/

/-- A worker after a move of the owner was there before, with the orders it was sent, or is new. -/
def Succeeds (s s' : System) : Prop :=
  (∀ w k, s'.workers w = some k →
    (∃ k₀ os, s.workers w = some k₀ ∧ k = k₀.deliver os) ∨ s.workers w = none ∧ k.reader = none) ∧
  ∀ w, s'.workers w = none → s.workers w = none

theorem Succeeds.same {s' : System} (h : s'.workers = s.workers) : Succeeds s s' := by
  refine ⟨fun w k hk => .inl ⟨k, [], h ▸ hk, by simp [Worker.deliver]⟩, fun w hw => h ▸ hw⟩

theorem Registered.succeeds {s' : System} {es : List Effect} (h : Registered s) (hlocal : Local (s.env m) id r es)
    (hworkers : s'.workers = setWorkers s.workers es) : Succeeds s s' := by
  refine ⟨fun w k hk => ?_, fun w hw => ?_⟩
  · rw [hworkers] at hk
    rcases h.worker_back hlocal hk with ⟨k₀, hk₀, rfl⟩ | hnew
    · exact .inl ⟨k₀, _, hk₀, rfl⟩
    · exact .inr hnew
  · rw [hworkers] at hw
    exact h.worker_none hlocal hw

theorem Registered.succeeds_call (h : Registered s) {pid : Pid} {c : Call} {t : Turn}
    (ht : CallTurn s.owner (s.env m) ⟨pid, s.fresh⟩ c t) (es : List Event) :
    Succeeds s (((s.log [.called ⟨pid, s.fresh⟩]).turn m t).log es) := by
  cases ht with
  | answer => exact .same rfl
  | reserve => exact .same rfl
  | free id receipt r => exact .same (setWorkers_free r)
  | change c id r x hr hx => exact h.succeeds (.called hx) rfl

theorem Registered.succeeds_down (h : Registered s) {b : System} (hb : b.workers = s.workers) {monitor : Tag}
    {pid : Pid} {normal : Bool} {t : Turn} (ht : DownTurn s.owner (s.env m) monitor pid normal t) :
    Succeeds s (b.turn m t) := by
  cases ht with
  | joined id r hr =>
    have hlocal : Local (s.env m) id r ((r.joined (s.env m) normal).finishWaiters (s.env m)) := .joined normal
    exact h.succeeds hlocal (congrArg (setWorkers · _) hb)
  | left id r hnone hr =>
    have hlocal : Local (s.env m) id r (r.beginRetirement (s.env m) id ((s.env m).now + 5000)).2 :=
      .beginRetirement _
    exact h.succeeds hlocal (congrArg (setWorkers · _) hb)
  | job => exact .same hb

/-- The messages of every worker are in line, and a worker that is not there has sent nothing. -/
structure Lines (s : System) : Prop where
  line : ∀ w k, s.workers w = some k → Line s.history w (s.outbox w) k
  unheard : ∀ w, s.workers w = none → ¬ Gone s.history w

namespace Lines

theorem start (limits : Limits) (clock : ℤ) : Lines (System.start limits clock) := by
  constructor <;> simp [System.start, Gone]

/-- A move on which no worker's end arrives. -/
theorem keep {s' : System} {es : List Event} (h : Lines s) (hreg : Registered s) (hsucc : Succeeds s s')
    (hhistory : s'.history = s.history ++ es) (hes : ∀ w, ¬ Gone es w)
    (hout : ∀ w k₀ os, s.workers w = some k₀ → Line s.history w (s.outbox w) k₀ →
      Line (s.history ++ es) w (s'.outbox w) (k₀.deliver os)) (hidle : ∀ w, s.workers w = none → s'.outbox w = s.outbox w) :
    Lines s' := by
  refine ⟨fun w k hk => ?_, fun w hw hg => ?_⟩
  · rw [hhistory]
    rcases hsucc.1 w k hk with ⟨k₀, os, hk₀, rfl⟩ | ⟨hnone, -⟩
    · exact hout w k₀ os hk₀ (h.line w k₀ hk₀)
    · have hnil : s'.outbox w = [] := (hidle w hnone).trans (hreg.idle w hnone)
      rw [hnil]
      refine ⟨List.Pairwise.nil, fun _ => ⟨fun hg => ?_, fun _ hmem => by cases hmem⟩, fun _ => rfl⟩
      exact (gone_append.1 hg).elim (h.unheard w hnone) (hes w)
  · rw [hhistory] at hg
    exact (gone_append.1 hg).elim (h.unheard w (hsucc.2 w hw)) (hes w)

theorem received {s' : System} {rep : Report} {rest : List Report} {k : Worker} (h : Lines s) (es : List Effect)
    (hreg : Registered s) (hsucc : Succeeds s s') (hk : s.workers w = some k)
    (hout : s.outbox w = rep :: rest) (hbox : s'.outbox = Function.update s.outbox w rest)
    (hhistory : s'.history = s.history ++ ([.reported w rep] ++ replies es)) : Lines s' := by
  have hes : ∀ w', Gone ([.reported w rep] ++ replies es) w' → w' = w ∧ rep.ends = true := by
    intro w' hg
    obtain ⟨normal, heq⟩ := gone_single.1 ((gone_append.1 hg).resolve_right not_gone_replies)
    obtain ⟨rfl, rfl⟩ := Event.reported.inj heq
    exact ⟨rfl, rfl⟩
  refine ⟨fun w' k' hk' => ?_, fun w' hw' hg => ?_⟩
  · rw [hhistory, hbox]
    rcases hsucc.1 w' k' hk' with ⟨k₀, os, hk₀, rfl⟩ | ⟨hnone, -⟩
    · by_cases heq : w' = w
      · subst heq
        rw [Function.update_self]
        have hline := h.line w' k₀ hk₀
        rw [hout] at hline
        exact hline.pop hes os
      · rw [Function.update_of_ne heq]
        exact (h.line w' k₀ hk₀).keep (fun hg => heq (hes w' hg).1) os
    · have hne : w' ≠ w := by
        rintro rfl
        exact absurd (hk.symm.trans hnone) (Option.some_ne_none k)
      rw [Function.update_of_ne hne, hreg.idle w' hnone]
      refine ⟨List.Pairwise.nil, fun _ => ⟨fun hg => ?_, fun _ hmem => by cases hmem⟩, fun _ => rfl⟩
      exact (gone_append.1 hg).elim (h.unheard w' hnone) fun hg => hne (hes w' hg).1
  · rw [hhistory] at hg
    have hnone := hsucc.2 w' hw'
    rcases gone_append.1 hg with hg | hg
    · exact h.unheard w' hnone hg
    · obtain ⟨rfl, -⟩ := hes w' hg
      exact absurd (hk.symm.trans hnone) (Option.some_ne_none k)

theorem moved {s' : System} (h : Lines s) (hreg : Registered s) (hs : Moved s m s') : Lines s' := by
  have hquiet : ∀ {s' : System} (es : List Event), Succeeds s s' → s'.history = s.history ++ es →
      (∀ w, ¬ Gone es w) → s'.outbox = s.outbox → Lines s' := by
    intro s' es hsucc hhistory hes hout
    refine h.keep hreg hsucc hhistory hes (fun w k₀ os hk₀ hl => ?_) fun w hw => by rw [hout]
    rw [hout]
    exact hl.keep (hes w) os
  cases hs with
  | call pid c t hin ht =>
    refine hquiet ([.called ⟨pid, s.fresh⟩] ++ replies t.2 ++ acceptance c ⟨pid, s.fresh⟩ t)
      (hreg.succeeds_call ht _) ?_ (fun w => not_gone_call) rfl
    simp [System.turn, System.log]
  | report w k rep rest r x hk hout hdown hr hworker hx =>
    exact h.received x.2 hreg (hreg.succeeds (.onReport hx) rfl) hk hout rfl (List.append_assoc _ _ _)
  | stray w k rep rest hk hout => exact h.received [] hreg (.same rfl) hk hout rfl (List.append_assoc _ _ _)
  | ended w k normal rest t hk hout ht =>
    exact h.received t.2 hreg (hreg.succeeds_down rfl ht) hk hout rfl (List.append_assoc _ _ _)
  | down monitor pid normal t hin ht =>
    exact hquiet _ (hreg.succeeds_down rfl ht) rfl (fun w => not_gone_replies) rfl
  | timeout t timer r x hin htimer hr hx =>
    refine hquiet ([Event.fired t] ++ replies x.2) (hreg.succeeds (.onTimeout rfl hx) rfl)
      (List.append_assoc s.history [Event.fired t] (replies x.2)) (fun w hg => ?_) rfl
    obtain ⟨normal, heq⟩ := gone_single.1 ((gone_append.1 hg).resolve_right not_gone_replies)
    cases heq
  | late t timer =>
    refine hquiet [.fired t] (.same rfl) (List.append_nil _) (fun w hg => ?_) rfl
    obtain ⟨normal, heq⟩ := gone_single.1 hg
    cases heq
  | act w k a next hk hact =>
    refine ⟨fun w' k' hk' => ?_, fun w' hw' => ?_⟩
    · change Line s.history w' _ k'
      by_cases heq : w' = w
      · subst heq
        rw [System.acted_worker] at hk'
        obtain rfl := Option.some.inj hk'
        rw [System.acted_outbox]
        exact (h.line w' k hk).acted hact
      · rw [System.acted_worker_of_ne _ _ _ heq] at hk'
        rw [System.acted_outbox_of_ne _ _ _ heq]
        exact h.line w' k' hk'
    · have heq : w' ≠ w := by
        rintro rfl
        rw [System.acted_worker] at hw'
        cases hw'
      rw [System.acted_worker_of_ne _ _ _ heq] at hw'
      exact h.unheard w' hw'

end Lines

/-! ## no message starts a worker -/

/-- Whether a turn starts a worker. -/
def launches : List Effect → Bool
  | [] => false
  | .spawn _ _ :: _ => true
  | _ :: es => launches es

section Launches

@[simp] theorem launches_append (es es' : List Effect) : launches (es ++ es') = (launches es || launches es') := by
  induction es with
  | nil => rfl
  | cons e es ih =>
    cases e with
    | spawn => rfl
    | reply => exact ih
    | tell => exact ih
    | arm => exact ih
    | cancel => exact ih

@[simp] theorem launches_cancelTimer (timer : Option Tag) : launches (cancelTimer timer) = false := by
  cases timer <;> rfl

@[simp] theorem launches_tell (r : Record) (order : Order) : launches (r.tell order) = false := by
  unfold Record.tell
  cases r.worker <;> rfl

@[simp] theorem launches_replies (c : Option From) (reply : Reply) :
    launches (c.toList.map (.reply · reply)) = false := by
  cases c <;> rfl

@[simp] theorem launches_beginRetirement (deadline : ℤ) : launches (r.beginRetirement v id deadline).2 = false := by
  have hretire : launches (r.retire v).2 = false := by
    unfold Record.retire
    split
    · rfl
    split
    · rfl
    · exact launches_tell _ _
  have harm : ∀ d, launches (r.retirementTimer v id d).2 = false := by
    intro d
    unfold Record.retirementTimer
    split <;> rfl
  simp [Record.beginRetirement, hretire, harm]

@[simp] theorem launches_thenRetire (deadline : ℤ) : launches (thenRetire v id x deadline).2 = launches x.2 := by
  simp [thenRetire]

theorem launches_onReport {rep : Report} (h : o.onReport v id r rep = some x) : launches x.2 = false := by
  have hanswer : ∀ c answer, launches (answerRead r c answer).2 = false := by
    intro c answer
    simp [answerRead, launches]
  cases rep with
  | readResult result =>
    change readResult v id r result = some x at h
    unfold readResult at h
    split at h
    · split at h
      · split at h
        · obtain ⟨deadline, -, rfl⟩ := Option.map_eq_some_iff.1 h
          rw [launches_thenRetire]
          exact hanswer _ _
        · obtain rfl := Option.some.inj h
          exact hanswer _ _
      · obtain rfl := Option.some.inj h
        rfl
    · obtain rfl := Option.some.inj h
      rfl
  | opened transfer use work =>
    obtain rfl := Option.some.inj h
    unfold transferOpened adopt
    split
    · split
      · simp [launches]
      · exact launches_beginRetirement _
    · exact launches_tell _ _
  | work | retired | down =>
    obtain rfl := Option.some.inj h
    rfl

theorem launches_onTimeout {message : Timeout} (h : onTimeout v r message = some x) : launches x.2 = false := by
  cases message with
  | expire id =>
    obtain ⟨deadline, -, rfl⟩ := Option.map_eq_some_iff.1 h
    exact launches_beginRetirement _
  | closeExpired id deadline =>
    obtain rfl := Option.some.inj h
    unfold onCloseExpired
    split
    · split <;> rfl
    · rfl
  | readExpired id deadline =>
    obtain rfl := Option.some.inj h
    unfold onReadExpired
    split
    · split
      · rw [launches_thenRetire]
        rfl
      · rfl
    · rfl

theorem launches_down {monitor : Tag} {pid : Pid} {normal : Bool} {t : Turn}
    (h : DownTurn o v monitor pid normal t) : launches t.2 = false := by
  cases h with
  | joined id r =>
    change launches ((r.joined v normal).finishWaiters v) = false
    simp [Record.finishWaiters]
  | left id r => exact launches_beginRetirement _
  | job => rfl

theorem launches_awaitClose (h : launches x.2 = false) : launches (awaitClose v sender x).2 = false := by
  unfold awaitClose
  split
  · rw [launches_append, h]
    rfl
  split
  · rw [launches_append, h]
    rfl
  · exact h

/-- Only the opening of a transfer starts a worker. -/
theorem Called.launches {limits : Limits} {c : Call} (h : Called limits v sender c id r x) :
    launches x.2 = false ∨ x.2 = [.spawn v.fresh (ioWorker v r.request r.context)] ∧ id = r.context.transferRef ∧
      x.1.worker = some v.fresh := by
  cases h with
  | opened r hstatus => exact .inr ⟨rfl, rfl, rfl⟩
  | expired => exact .inl rfl
  | read id r length => exact .inl (launches_tell r _)
  | observed => exact .inl rfl
  | closed r selector => exact .inl (launches_awaitClose (launches_beginRetirement _))

/-- Without a start there is no new worker. -/
theorem setWorkers_back {es : List Effect} (h : launches es = false) {workers : Pid → Option Worker} {k : Worker}
    (hk : setWorkers workers es w = some k) : ∃ k₀, workers w = some k₀ ∧ k.ref = k₀.ref := by
  induction es generalizing workers with
  | nil => exact ⟨k, hk, rfl⟩
  | cons e es ih =>
    cases e with
    | tell w' order =>
      obtain ⟨k₀, hk₀, href⟩ := ih h hk
      by_cases heq : w = w'
      · subst heq
        rw [Function.update_self] at hk₀
        obtain ⟨k₁, hk₁, rfl⟩ := Option.map_eq_some_iff.1 hk₀
        exact ⟨k₁, hk₁, href⟩
      · rw [Function.update_of_ne heq] at hk₀
        exact ⟨k₀, hk₀, href⟩
    | spawn => cases h
    | reply => exact ih h hk
    | arm => exact ih h hk
    | cancel => exact ih h hk

end Launches

/-! ## what a handler does to the custody of its record -/

/-- The reservation stays, and with a worker, or a receipt, all that stands for them. -/
structure Holds (r r' : Record) : Prop where
  caller : r'.callerMonitor = r.callerMonitor
  started : ∀ w, r.worker = some w → r'.worker = some w ∧ r'.workerJoined = r.workerJoined ∧ r'.proof = r.proof ∧
    r'.receipt = r.receipt
  issued : r.receipt ≠ none → r'.receipt = r.receipt

namespace Holds

theorem trans {r r' r'' : Record} (h : Holds r r') (h' : Holds r' r'') : Holds r r'' := by
  refine ⟨h'.caller.trans h.caller, fun w hw => ?_, fun hne => ?_⟩
  · obtain ⟨h1, h2, h3, h4⟩ := h.started w hw
    obtain ⟨h5, h6, h7, h8⟩ := h'.started w h1
    exact ⟨h5, h6.trans h2, h7.trans h3, h8.trans h4⟩
  · have heq := h.issued hne
    exact (h'.issued (by rwa [heq])).trans heq

/-- A handler that touches none of it. -/
theorem same {r' : Record} (hbind : r'.binding = r.binding) (hjoined : r'.workerJoined = r.workerJoined)
    (hproof : r'.proof = r.proof) (hreceipt : r'.receipt = r.receipt) : Holds r r' := by
  have hworker : r'.worker = r.worker := congrArg Binding.worker hbind
  exact ⟨congrArg Binding.callerMonitor hbind, fun w hw => ⟨hworker.trans hw, hjoined, hproof, hreceipt⟩,
    fun _ => hreceipt⟩

theorem beginRetirement (hr : r.Formed) (deadline : ℤ) : Holds r (r.beginRetirement v id deadline).1 := by
  have hbind : (r.beginRetirement v id deadline).1.binding = r.binding := beginRetirement_binding deadline
  refine ⟨congrArg Binding.callerMonitor hbind, fun w hw => ?_, fun hne => ?_⟩
  · have hworker : (r.beginRetirement v id deadline).1.worker = r.worker := congrArg Binding.worker hbind
    refine ⟨hworker.trans hw, ?_⟩
    change (r.retire v).1.workerJoined = _ ∧ (r.retire v).1.proof = _ ∧ (r.retire v).1.receipt = _
    unfold Record.retire
    split
    · exact ⟨rfl, rfl, rfl⟩
    rw [if_neg (by rw [hw]; exact Option.some_ne_none w)]
    exact ⟨rfl, rfl, rfl⟩
  · change (r.retire v).1.receipt = _
    unfold Record.retire
    split
    · rfl
    next hstatus =>
      split
      next hworker =>
        exact absurd (hr.reserved ((hr.unstarted hworker).resolve_right hstatus)).2.2.2 hne
      · rfl

theorem thenRetire (h : Holds r x.1) (hx : x.1.Formed) (deadline : ℤ) : Holds r (thenRetire v id x deadline).1 :=
  h.trans (beginRetirement hx deadline)

theorem readResult {result : ReadReply} (hr : r.Formed) (h : readResult v id r result = some x) : Holds r x.1 := by
  unfold Owner.readResult at h
  split at h
  next c hread =>
    split at h
    next hlive =>
      have hanswer : Holds r (answerRead r c (readAnswer v r result)).1 := same rfl rfl rfl rfl
      split at h
      · obtain ⟨deadline, -, rfl⟩ := Option.map_eq_some_iff.1 h
        exact hanswer.thenRetire (Sound.answerRead hr hread hlive _).formed _
      · obtain rfl := Option.some.inj h
        exact hanswer
    · obtain rfl := Option.some.inj h
      exact same rfl rfl rfl rfl
  · obtain rfl := Option.some.inj h
    exact same rfl rfl rfl rfl

theorem transferOpened (hr : r.Formed) (transfer : Transfer) (use : Term) (work : Work) :
    Holds r (o.transferOpened v id r transfer use work).1 := by
  unfold Owner.transferOpened adopt
  split
  · split
    · exact same rfl rfl rfl rfl
    · have hsame : Record.Formed { r with outcome := some .openDeadlineExhausted, work := some work } :=
        ⟨hr.reserved, hr.unstarted, hr.settled, hr.retired, hr.verifying, hr.live, hr.closing⟩
      have hout : Holds r { r with outcome := some .openDeadlineExhausted, work := some work } := same rfl rfl rfl rfl
      exact hout.trans (beginRetirement hsame _)
  · exact same rfl rfl rfl rfl

theorem onTimeout {message : Timeout} (hr : r.Formed) (h : onTimeout v r message = some x) : Holds r x.1 := by
  cases message with
  | expire id =>
    obtain ⟨deadline, -, rfl⟩ := Option.map_eq_some_iff.1 h
    exact beginRetirement hr _
  | closeExpired id deadline =>
    obtain rfl := Option.some.inj h
    unfold onCloseExpired
    split
    · split <;> exact same rfl rfl rfl rfl
    · exact same rfl rfl rfl rfl
  | readExpired id deadline =>
    obtain rfl := Option.some.inj h
    have hread : ∀ c, r.readFrom = some c → Record.Formed { r with readFrom := none, readDeadline := none } := by
      intro c hc
      refine ⟨hr.reserved, hr.unstarted, fun hs => ?_, hr.retired, fun hs => ?_, hr.live, hr.closing⟩
      · exact ⟨(hr.settled hs).1, rfl, (hr.settled hs).2.2⟩
      · exact ⟨rfl, (hr.verifying hs).2⟩
    unfold onReadExpired
    split
    next c hc =>
      split
      · have hanswer : Holds r { r with readFrom := none, readDeadline := none } := same rfl rfl rfl rfl
        exact hanswer.trans (beginRetirement (hread c hc) _)
      · exact same rfl rfl rfl rfl
    · exact same rfl rfl rfl rfl

theorem called {limits : Limits} {c : Call} (hr : r.Formed) (h : Called limits v sender c id r x) :
    Holds r x.1 := by
  cases h with
  | opened r hstatus =>
    obtain ⟨hworker, -, -, -⟩ := hr.reserved hstatus
    refine ⟨rfl, fun w hw => ?_, fun _ => rfl⟩
    rw [hworker] at hw
    cases hw
  | expired r hstatus =>
    obtain ⟨hworker, -, -, hreceipt⟩ := hr.reserved hstatus
    refine ⟨rfl, fun w hw => ?_, fun hne => absurd hreceipt hne⟩
    rw [hworker] at hw
    cases hw
  | read | observed => exact same rfl rfl rfl rfl
  | closed r selector =>
    have hsame : Record.Formed { r with closeSelectorDeadline := some selector.closeDeadlineMs } :=
      ⟨hr.reserved, hr.unstarted, hr.settled, hr.retired, hr.verifying, hr.live, hr.closing⟩
    have hselect : Holds r { r with closeSelectorDeadline := some selector.closeDeadlineMs } := same rfl rfl rfl rfl
    have hbegin : Holds { r with closeSelectorDeadline := some selector.closeDeadlineMs }
        ({ r with closeSelectorDeadline := some selector.closeDeadlineMs }.beginRetirement v selector.transferRef
          selector.closeDeadlineMs).1 := beginRetirement hsame selector.closeDeadlineMs
    have hclose := hselect.trans hbegin
    unfold closeRetiring awaitClose
    split
    · exact hclose
    split
    · exact hclose
    · exact hclose.trans (same rfl rfl rfl rfl)

end Holds

/-! ## receipts -/

/-- What the fields of a record say about its worker. -/
structure Held (history : List Event) (w : Pid) (r : Record) : Prop where
  joined : r.workerJoined = true ↔ Gone history w
  proof : r.proof = true → ∃ outcome work, Event.reported w (.retired outcome work true) ∈ history
  receipt : r.receipt ≠ none → ∃ outcome work,
    [Event.reported w (.retired outcome work true), .reported w (.down true)].Sublist history

theorem Held.keep {h es : List Event} {r' : Record} (hh : Held h w r) (hr : Holds r r') (hw : r.worker = some w)
    (hes : ¬ Gone es w) : Held (h ++ es) w r' := by
  obtain ⟨-, hjoined, hproof, hreceipt⟩ := hr.started w hw
  refine ⟨?_, fun hp => ?_, fun hne => ?_⟩
  · rw [hjoined, gone_append, or_iff_left hes]
    exact hh.joined
  · obtain ⟨outcome, work, hmem⟩ := hh.proof (hproof.symm.trans hp)
    exact ⟨outcome, work, List.mem_append_left _ hmem⟩
  · rw [hreceipt] at hne
    obtain ⟨outcome, work, hsub⟩ := hh.receipt hne
    exact ⟨outcome, work, hsub.trans (List.sublist_append_left _ _)⟩

/-- A report of retirement sets the proof. -/
theorem Held.retired {h es : List Event} (hh : Held h w r) (outcome : Reason) (work : Work) (proof : Bool)
    (hes : es = [.reported w (.retired outcome work proof)]) :
    Held (h ++ es) w (transferRetired r outcome work proof).1 := by
  have hgone : ¬ Gone es w := by
    rintro ⟨normal, hmem⟩
    rw [hes] at hmem
    cases List.mem_singleton.1 hmem
  refine ⟨?_, fun hp => ?_, fun hne => ?_⟩
  · rw [gone_append, or_iff_left hgone]
    exact hh.joined
  · obtain rfl : proof = true := hp
    rw [hes]
    exact ⟨outcome, work, List.mem_append_right _ List.mem_cons_self⟩
  · obtain ⟨outcome', work', hsub⟩ := hh.receipt hne
    exact ⟨outcome', work', hsub.trans (List.sublist_append_left _ _)⟩

/-- The end of the worker: a receipt is issued after a normal end with proof. -/
theorem Held.joined_released {h es : List Event} (hh : Held h w r) (hgone : ¬ Gone h w) (normal : Bool)
    (hes : es = [.reported w (.down normal)]) : Held (h ++ es) w (r.joined v normal).released := by
  have hfirst : r.receipt = none := by
    by_contra hne
    obtain ⟨outcome, work, hsub⟩ := hh.receipt hne
    exact hgone ⟨true, hsub.subset (List.mem_cons_of_mem _ List.mem_cons_self)⟩
  have hnow : Gone (h ++ es) w := gone_append.2 (.inr ⟨normal, hes ▸ List.mem_cons_self⟩)
  unfold Record.joined
  split
  next hboth =>
    obtain ⟨rfl, hproof⟩ := hboth
    obtain ⟨outcome, work, hmem⟩ := hh.proof hproof
    refine ⟨iff_of_true rfl hnow, fun _ => ⟨outcome, work, List.mem_append_left _ hmem⟩, fun _ => ?_⟩
    refine ⟨outcome, work, ?_⟩
    rw [hes]
    exact (List.singleton_sublist.2 hmem).append (List.Sublist.refl _)
  · exact ⟨iff_of_true rfl hnow, fun hp => (by cases hp), fun hne => absurd hfirst hne⟩

/-- Every record stands for its worker, and a worker that has not gone has its record. -/
structure Custody (s : System) : Prop where
  held : ∀ id r w, s.owner.transfers.lookup id = some r → r.worker = some w → Held s.history w r
  sole : ∀ w k, s.workers w = some k → ¬ Gone s.history w →
    ∃ r, s.owner.transfers.lookup k.ref = some r ∧ r.worker = some w

namespace Custody

theorem start (limits : Limits) (clock : ℤ) : Custody (System.start limits clock) := by
  constructor <;> simp [System.start]

/-- A move that leaves the records and starts no worker. -/
theorem quiet {s' : System} (h : Custody s) (es : List Event) (howner : s'.owner.transfers = s.owner.transfers)
    (hback : ∀ w k, s'.workers w = some k → ∃ k₀, s.workers w = some k₀ ∧ k.ref = k₀.ref)
    (hhistory : s'.history = s.history ++ es)
    (hes : ∀ id r w, s.owner.transfers.lookup id = some r → r.worker = some w → ¬ Gone es w) : Custody s' := by
  refine ⟨fun id r w hr hw => ?_, fun w k hk hgone => ?_⟩
  · rw [howner] at hr
    rw [hhistory]
    exact (h.held id r w hr hw).keep (.same rfl rfl rfl rfl) hw (hes id r w hr hw)
  · obtain ⟨k₀, hk₀, href⟩ := hback w k hk
    rw [howner, href]
    refine h.sole w k₀ hk₀ fun hg => hgone ?_
    rw [hhistory]
    exact gone_append.2 (.inl hg)

/-- A message handler of one record. -/
theorem put {s' : System} (h : Custody s) (es : List Event) (hr : s.owner.transfers.lookup id = some r)
    (hrecords : s'.owner.transfers = s.owner.transfers.insert id x.1)
    (hback : ∀ w k, s'.workers w = some k → ∃ k₀, s.workers w = some k₀ ∧ k.ref = k₀.ref)
    (hhistory : s'.history = s.history ++ es) (hbind : x.1.binding = r.binding)
    (hes : ∀ id' r' w, id' ≠ id → s.owner.transfers.lookup id' = some r' → r'.worker = some w → ¬ Gone es w)
    (hheld : ∀ w, r.worker = some w → Held s.history w r → Held (s.history ++ es) w x.1) : Custody s' := by
  have hworker : x.1.worker = r.worker := congrArg Binding.worker hbind
  refine ⟨fun id' r' w hr' hw => ?_, fun w k hk hgone => ?_⟩
  · rw [hrecords] at hr'
    rw [hhistory]
    by_cases hid : id' = id
    · subst hid
      rw [AList.lookup_insert] at hr'
      obtain rfl := Option.some.inj hr'
      have hw' := hworker.symm.trans hw
      exact hheld w hw' (h.held id' r w hr hw')
    · rw [AList.lookup_insert_ne hid] at hr'
      exact (h.held id' r' w hr' hw).keep (.same rfl rfl rfl rfl) hw (hes id' r' w hid hr' hw)
  · obtain ⟨k₀, hk₀, href⟩ := hback w k hk
    have hgone₀ : ¬ Gone s.history w := by
      intro hg
      rw [hhistory] at hgone
      exact hgone (gone_append.2 (.inl hg))
    obtain ⟨r₀, hr₀, hw₀⟩ := h.sole w k₀ hk₀ hgone₀
    rw [hrecords, href]
    by_cases hid : k₀.ref = id
    · rw [hid] at hr₀ ⊢
      obtain rfl := Option.some.inj (hr.symm.trans hr₀)
      exact ⟨x.1, AList.lookup_insert _, hworker.trans hw₀⟩
    · exact ⟨r₀, (AList.lookup_insert_ne hid).trans hr₀, hw₀⟩

/-- The end of a process. -/
theorem down {monitor : Tag} {pid : Pid} {normal : Bool} {t : Turn} (h : Custody s) (b : System) (es : List Event)
    (hformed : ∀ id r, s.owner.transfers.lookup id = some r → r.Formed) (hreg : Registered s)
    (ht : DownTurn s.owner (s.env m) monitor pid normal t)
    (hworkers : b.workers = s.workers) (hhistory : b.history = s.history ++ es)
    (hes : ∀ id r w, s.owner.transfers.lookup id = some r → r.worker = some w →
      w ≠ pid ∨ r.workerMonitor ≠ some monitor → ¬ Gone es w)
    (hheld : ∀ id r, s.owner.transfers.lookup id = some r → r.worker = some pid →
      r.workerMonitor = some monitor → Held s.history pid r →
      Held (s.history ++ (es ++ replies t.2)) pid (r.joined (s.env m) normal).released) :
    Custody (b.turn m t) := by
  have hback : ∀ w k, (b.turn m t).workers w = some k → ∃ k₀, s.workers w = some k₀ ∧ k.ref = k₀.ref := by
    intro w k hk
    change setWorkers b.workers t.2 w = some k at hk
    rw [hworkers] at hk
    exact setWorkers_back (launches_down ht) hk
  have hhistory' : (b.turn m t).history = s.history ++ (es ++ replies t.2) := by
    change b.history ++ _ = _
    rw [hhistory, List.append_assoc]
  have hgone : ∀ id r w, s.owner.transfers.lookup id = some r → r.worker = some w →
      w ≠ pid ∨ r.workerMonitor ≠ some monitor → ¬ Gone (es ++ replies t.2) w := by
    intro id r w hr hw hne hg
    exact hes id r w hr hw hne ((gone_append.1 hg).resolve_right not_gone_replies)
  cases ht with
  | joined id r hr hmonitor hworker =>
    refine h.put _ hr rfl hback hhistory' (joined_binding normal) (fun id' r' w hid hr' hw => ?_) fun w hw hh => ?_
    · refine hgone id' r' w hr' hw (.inl ?_)
      rintro rfl
      exact hid (hreg.inj hr' hr hw hworker)
    · obtain rfl := Option.some.inj (hworker.symm.trans hw)
      exact hheld id r hr hworker hmonitor hh
  | left id r hnone hr =>
    refine h.put _ hr rfl hback hhistory' (beginRetirement_binding _) (fun id' r' w hid hr' hw => ?_) ?_
    · exact hgone id' r' w hr' hw (apart_of_findWorker hnone hr' hw)
    · intro w hw hh
      exact hh.keep (.beginRetirement (hformed id r hr) _) hw
        (hgone id r w hr hw (apart_of_findWorker hnone hr hw))
  | job hnone =>
    exact h.quiet _ rfl hback hhistory' fun id r w hr hw => hgone id r w hr hw (apart_of_findWorker hnone hr hw)

end Custody

/-- A worker of a record has not gone while it sends. -/
theorem Lines.not_gone {k : Worker} {rep : Report} {rest : List Report} (h : Lines s) (hk : s.workers w = some k)
    (hout : s.outbox w = rep :: rest) : ¬ Gone s.history w := by
  intro hg
  rw [(h.line w k hk).gone hg] at hout
  cases hout

/-- A report that ends nobody. -/
theorem not_gone_report {rep : Report} (hdown : ∀ normal, rep ≠ .down normal) (es : List Effect) (w' : Pid) :
    ¬ Gone ([Event.reported w rep] ++ replies es) w' := by
  intro hg
  obtain ⟨normal, heq⟩ := gone_single.1 ((gone_append.1 hg).resolve_right not_gone_replies)
  exact hdown normal (Event.reported.inj heq).2

theorem Custody.onReport {w : Pid} {rep : Report} (hdown : ∀ normal, rep ≠ .down normal) (hr : r.Formed)
    (hw : r.worker = some w) (hx : o.onReport v id r rep = some x) {h : List Event} (hh : Held h w r) :
    Held (h ++ ([.reported w rep] ++ replies x.2)) w x.1 := by
  have hquiet : Holds r x.1 → Held (h ++ ([.reported w rep] ++ replies x.2)) w x.1 := fun hholds =>
    hh.keep hholds hw (not_gone_report hdown _ _)
  cases rep with
  | work work =>
    obtain rfl := Option.some.inj hx
    exact hquiet (.same rfl rfl rfl rfl)
  | opened transfer use work =>
    obtain rfl := Option.some.inj hx
    exact hquiet (.transferOpened hr transfer use work)
  | readResult result => exact hquiet (.readResult hr hx)
  | retired outcome work proof =>
    obtain rfl := Option.some.inj hx
    exact hh.retired outcome work proof rfl
  | down normal => exact absurd rfl (hdown normal)

namespace Custody

/-- A call that changes one record. -/
theorem change {s' : System} {es : List Event} {limits : Limits} {c : Call} (h : Custody s) (hlines : Lines s)
    (hreg : Registered s) (hformed : r.Formed) (hr : s.owner.transfers.lookup id = some r)
    (hx : Called limits (s.env m) sender c id r x) (hrecords : s'.owner.transfers = s.owner.transfers.insert id x.1)
    (hworkers : s'.workers = setWorkers s.workers x.2) (hhistory : s'.history = s.history ++ es)
    (hes : ∀ w, ¬ Gone es w) : Custody s' := by
  have hlocal : Local (s.env m) id r x.2 := .called hx
  have hholds := Holds.called hformed hx
  have hnew : ∀ w, r.worker = none → x.1.worker = some w → ¬ Gone s.history w ∧ x.1.workerJoined = false ∧
      x.1.proof = false ∧ x.1.receipt = none := by
    intro w hnone hw
    obtain ⟨rfl, -, -, -, hfields⟩ := hx.started hformed hnone hw
    refine ⟨hlines.unheard _ (Option.eq_none_iff_forall_not_mem.2 fun k hk => ?_), hfields⟩
    exact ne_of_used (hreg.fresh _ k hk).1 rfl
  refine ⟨fun id' r' w hr' hw => ?_, fun w k hk hgone => ?_⟩
  · rw [hrecords] at hr'
    rw [hhistory]
    by_cases hid : id' = id
    · subst hid
      rw [AList.lookup_insert] at hr'
      obtain rfl := Option.some.inj hr'
      by_cases hnone : r.worker = none
      · obtain ⟨hgone, hjoined, hproof, hreceipt⟩ := hnew w hnone hw
        refine ⟨?_, fun hp => ?_, fun hne => absurd hreceipt hne⟩
        · rw [hjoined, gone_append]
          exact iff_of_false Bool.false_ne_true fun hg => hg.elim hgone (hes w)
        · rw [hproof] at hp
          cases hp
      · have hw' := (hx.worker_of_started hformed hnone).symm.trans hw
        exact (h.held id' r w hr hw').keep hholds hw' (hes w)
    · rw [AList.lookup_insert_ne hid] at hr'
      exact (h.held id' r' w hr' hw).keep (.same rfl rfl rfl rfl) hw (hes w)
  · rw [hhistory] at hgone
    rw [hworkers] at hk
    rw [hrecords]
    by_cases hw : w = (s.env m).fresh
    · subst hw
      rcases hx.launches with hquiet | ⟨hes', href, hworker⟩
      · obtain ⟨k₀, hk₀, -⟩ := setWorkers_back hquiet hk
        exact absurd rfl (ne_of_used (hreg.fresh _ k₀ hk₀).1)
      · rw [hes'] at hk
        obtain rfl : ioWorker (s.env m) r.request r.context = k :=
          Option.some.inj ((Function.update_self (s.env m).fresh _ s.workers).symm.trans hk)
        exact ⟨x.1, by rw [href]; exact AList.lookup_insert _, hworker⟩
    · rw [setWorkers_of_ne hlocal hw] at hk
      obtain ⟨k₀, hk₀, rfl⟩ := Option.map_eq_some_iff.1 hk
      obtain ⟨r₀, hr₀, hw₀⟩ := h.sole w k₀ hk₀ fun hg => hgone (gone_append.2 (.inl hg))
      change ∃ r, (s.owner.transfers.insert id x.1).lookup k₀.ref = some r ∧ _
      by_cases hid : k₀.ref = id
      · rw [hid] at hr₀ ⊢
        obtain rfl := Option.some.inj (hr.symm.trans hr₀)
        exact ⟨x.1, AList.lookup_insert _, (hholds.started w hw₀).1⟩
      · exact ⟨r₀, (AList.lookup_insert_ne hid).trans hr₀, hw₀⟩

end Custody

theorem Custody.moved {s' : System} (h : Custody s) (hlines : Lines s) (ha : Answering s) (hreg : Registered s)
    (hadmits : s.Admits m) (hs : Moved s m s') : Custody s' := by
  have hstill : ∀ {s' : System}, s'.workers = s.workers → ∀ w k, s'.workers w = some k →
      ∃ k₀, s.workers w = some k₀ ∧ k.ref = k₀.ref := by
    intro s' heq w k hk
    exact ⟨k, heq ▸ hk, rfl⟩
  cases hs with
  | call pid c t hin ht =>
    have hhistory : (((s.log [.called ⟨pid, s.fresh⟩]).turn m t).log (acceptance c ⟨pid, s.fresh⟩ t)).history =
        s.history ++ ([.called ⟨pid, s.fresh⟩] ++ replies t.2 ++ acceptance c ⟨pid, s.fresh⟩ t) := by
      simp [System.turn, System.log]
    cases ht with
    | answer c reply jobs => exact h.quiet _ rfl (hstill rfl) hhistory fun _ _ w _ _ => not_gone_call
    | reserve request context hnew =>
      have hnone : s.owner.transfers.lookup context.transferRef = none := AList.lookup_eq_none.2 hnew
      refine ⟨fun id r w hr hw => ?_, fun w k hk hgone => ?_⟩
      · rw [hhistory]
        change (s.owner.transfers.insert _ _).lookup id = some r at hr
        by_cases hid : id = context.transferRef
        · subst hid
          rw [AList.lookup_insert] at hr
          obtain rfl := Option.some.inj hr
          cases hw
        · rw [AList.lookup_insert_ne hid] at hr
          exact (h.held id r w hr hw).keep (.same rfl rfl rfl rfl) hw not_gone_call
      · obtain ⟨r, hr, hw⟩ := h.sole w k hk fun hg => hgone (by rw [hhistory]; exact gone_append.2 (.inl hg))
        have hid : k.ref ≠ context.transferRef := by
          intro heq
          rw [heq, hnone] at hr
          cases hr
        exact ⟨r, (AList.lookup_insert_ne hid).trans hr, hw⟩
    | free id receipt r hr hstatus hreceipt =>
      have hback : ∀ id' r', (s.owner.transfers.erase id).lookup id' = some r' →
          s.owner.transfers.lookup id' = some r' := by
        intro id' r' hr'
        by_cases hid : id' = id
        · subst hid
          rw [AList.lookup_erase] at hr'
          cases hr'
        · rwa [AList.lookup_erase_ne hid] at hr'
      refine ⟨fun id' r' w hr' hw => ?_, fun w k hk hgone => ?_⟩
      · rw [hhistory]
        exact (h.held id' r' w (hback id' r' hr') hw).keep (.same rfl rfl rfl rfl) hw not_gone_call
      · change setWorkers s.workers _ w = some k at hk
        rw [setWorkers_free] at hk
        have hgone₀ : ¬ Gone s.history w := fun hg => hgone (by rw [hhistory]; exact gone_append.2 (.inl hg))
        obtain ⟨r', hr', hw⟩ := h.sole w k hk hgone₀
        refine ⟨r', ?_, hw⟩
        change (s.owner.transfers.erase id).lookup k.ref = some r'
        by_cases hid : k.ref = id
        · rw [hid] at hr'
          obtain rfl := Option.some.inj (hr.symm.trans hr')
          exact absurd ((h.held id r w hr hw).joined.1 ((ha.formed id r hr).retired hstatus)) hgone₀
        · exact (AList.lookup_erase_ne hid).trans hr'
    | change c id r x hr hx =>
      exact h.change hlines hreg (ha.formed id r hr) hr hx rfl rfl hhistory fun w => not_gone_call
  | report w k rep rest r x hk hout hdown hr hworker hx =>
    refine h.put ([Event.reported w rep] ++ replies x.2) hr rfl
      (fun _ _ => setWorkers_back (launches_onReport hx)) (List.append_assoc s.history [Event.reported w rep] _)
      (onReport_binding hx) (fun _ _ w' _ _ _ => not_gone_report hdown _ w') ?_
    intro w' hw' hh
    obtain rfl := Option.some.inj (hworker.symm.trans hw')
    exact onReport hdown (ha.formed _ r hr) hworker hx hh
  | stray w k rep rest hk hout hdown =>
    exact h.quiet ([Event.reported w rep] ++ replies []) rfl (hstill rfl)
      (List.append_assoc s.history [Event.reported w rep] _)
      fun _ _ w' _ _ => not_gone_report hdown _ w'
  | ended w k normal rest t hk hout ht =>
    refine h.down (s.received w (.down normal) rest) [.reported w (.down normal)]
      (fun id r => ha.formed id r) hreg ht rfl rfl (fun id' r' w' hr' hw' hne hg => ?_)
      fun id' r hr hw hmonitor hh => ?_
    · obtain ⟨normal', heq⟩ := gone_single.1 hg
      obtain ⟨rfl, -⟩ := Event.reported.inj heq
      obtain ⟨k', hk', -, hm, -⟩ := hreg.worker id' r' w hr' hw'
      obtain rfl := Option.some.inj (hk.symm.trans hk')
      exact hne.elim (fun h' => h' rfl) fun h' => h' hm
    · rw [← List.append_assoc]
      exact (hh.joined_released (hlines.not_gone hk hout) normal rfl).keep (.same rfl rfl rfl rfl)
        ((congrArg Binding.worker (joined_binding (v := s.env m) normal)).trans hw) not_gone_replies
  | down monitor pid normal t hin ht =>
    refine h.down s [] (fun id r => ha.formed id r) hreg ht rfl (List.append_nil _).symm
      (fun _ _ _ _ _ _ hg => ?_) fun id r hr hw hmonitor hh => ?_
    · obtain ⟨normal', hmem⟩ := hg
      cases hmem
    · obtain ⟨k, hk, -, hm, -⟩ := hreg.worker id r pid hr hw
      obtain rfl := Option.some.inj (hm.symm.trans hmonitor)
      exact absurd rfl (hadmits.2.2 _ _ _ hin pid k hk)
  | timeout t timer r x hin htimer hr hx =>
    have hes : ∀ w, ¬ Gone ([Event.fired t] ++ replies x.2) w := by
      intro w hg
      obtain ⟨normal, heq⟩ := gone_single.1 ((gone_append.1 hg).resolve_right not_gone_replies)
      cases heq
    refine h.put ([Event.fired t] ++ replies x.2) hr rfl
      (fun _ _ => setWorkers_back (launches_onTimeout hx)) (List.append_assoc s.history [Event.fired t] _)
      (onTimeout_binding hx) (fun _ _ w _ _ _ => hes w) fun w hw hh => ?_
    exact hh.keep (.onTimeout (ha.formed _ r hr) hx) hw (hes w)
  | late t timer =>
    refine h.quiet [Event.fired t] rfl (hstill rfl) (List.append_nil _) fun _ _ w _ _ hg => ?_
    obtain ⟨normal, heq⟩ := gone_single.1 hg
    cases heq
  | act w k a next hk hact =>
    have hid := Worker.act_identity hact
    simp only [Worker.identity, Prod.mk.injEq] at hid
    refine h.quiet [] rfl (fun w' k' hk' => ?_) (List.append_nil _).symm fun _ _ w' _ _ hg => ?_
    · by_cases heq : w' = w
      · subst heq
        rw [System.acted_worker] at hk'
        obtain rfl := Option.some.inj hk'
        exact ⟨k, hk, hid.1⟩
      · rw [System.acted_worker_of_ne _ _ _ heq] at hk'
        exact ⟨k', hk', rfl⟩
    · obtain ⟨normal', hmem⟩ := hg
      cases hmem

end Loopex.Transfers
