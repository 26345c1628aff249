import Loopex.Transfers.Answers

/-!
# The chunks a transfer returns

* `answers` — what the reads of one worker were answered with
* `Acted`, `act_acted` — everything a worker does in one step
* `Flow` — while a transfer is live, its answers and the result on its way serve the window
* `Served` — the answers of every worker serve its window, and no chunk follows a read that failed its
  deadline
-/

namespace Loopex.Transfers

open Loopex.Erlang Loopex.System Owner

/-! ## answers -/

/-- The result a reply is. -/
def Reply.result : Reply → Option ReadReply
  | .chunk c => some (.chunk c)
  | .complete => some .complete
  | .error reason => some (.error reason)
  | _ => none

@[simp] theorem result_reply (result : ReadReply) : result.reply.result = some result := by
  cases result <;> rfl

/-- The reads accepted for a worker. -/
def readers (w : Pid) : List Event → List From
  | [] => []
  | .accepted .reading _ (some w') _ c :: es => if w' = w then c :: readers w es else readers w es
  | _ :: es => readers w es

/-- What the calls of a list were answered with. -/
def answersTo (cs : List From) : List Event → List ReadReply
  | [] => []
  | .replied c reply :: es =>
    if c ∈ cs then reply.result.toList ++ answersTo cs es else answersTo cs es
  | _ :: es => answersTo cs es

/-- What the reads of a worker were answered with, in order. -/
def answers (history : List Event) (w : Pid) : List ReadReply := answersTo (readers w history) history

section Answers

variable {w : Pid} {cs cs' : List From} {h es : List Event}

theorem readers_accepted (ref : Ref) (w' : Pid) (t : Option Tag) (c : From) :
    readers w (.accepted .reading ref (some w') t c :: es) = if w' = w then c :: readers w es else readers w es := rfl

theorem answersTo_replied (c : From) (reply : Reply) : answersTo cs (.replied c reply :: es) =
    if c ∈ cs then reply.result.toList ++ answersTo cs es else answersTo cs es := rfl

theorem mem_readers {c : From} : c ∈ readers w h ↔ ∃ ref t, .accepted .reading ref (some w) t c ∈ h := by
  induction h with
  | nil =>
    change c ∈ [] ↔ _
    simp
  | cons e h ih =>
    rcases e with c' | ⟨_ | _ | _, ref, _ | w', t, c'⟩ | ⟨c', reply⟩ | ⟨w', rep⟩ | t
    case accepted.reading.some =>
      rw [readers_accepted]
      split
      next heq =>
        subst heq
        simp only [List.mem_cons, ih, Event.accepted.injEq, true_and]
        constructor
        · rintro (rfl | ⟨ref', t', hm⟩)
          · exact ⟨ref, t, .inl ⟨rfl, rfl, rfl⟩⟩
          · exact ⟨ref', t', .inr hm⟩
        · rintro ⟨ref', t', ⟨-, -, rfl⟩ | hm⟩
          · exact .inl rfl
          · exact .inr ⟨ref', t', hm⟩
      next hne =>
        rw [ih]
        constructor
        · rintro ⟨ref', t', hm⟩
          exact ⟨ref', t', List.mem_cons_of_mem _ hm⟩
        · rintro ⟨ref', t', hm⟩
          rcases List.mem_cons.1 hm with heq | hm
          · obtain ⟨-, -, hw, -⟩ := Event.accepted.inj heq
            exact absurd (Option.some.inj hw).symm hne
          · exact ⟨ref', t', hm⟩
    all_goals
      change c ∈ readers w h ↔ _
      simp only [ih, List.mem_cons, reduceCtorEq, false_or, Event.accepted.injEq, false_and, and_false]

theorem readers_append : readers w (h ++ es) = readers w h ++ readers w es := by
  induction h with
  | nil => rfl
  | cons e h ih =>
    rcases e with c' | ⟨_ | _ | _, ref, _ | w', t, c'⟩ | ⟨c', reply⟩ | ⟨w', rep⟩ | t
    case accepted.reading.some =>
      simp only [readers_accepted, List.cons_append]
      split
      · rw [ih, List.cons_append]
      · exact ih
    all_goals exact ih

theorem answersTo_append : answersTo cs (h ++ es) = answersTo cs h ++ answersTo cs es := by
  induction h with
  | nil => rfl
  | cons e h ih =>
    cases e with
    | replied c reply =>
      simp only [List.cons_append, answersTo_replied]
      split
      · rw [ih, List.append_assoc]
      · exact ih
    | called => exact ih
    | accepted => exact ih
    | reported => exact ih
    | fired => exact ih

/-- Calls that a history does not answer do not matter to it. -/
theorem answersTo_congr (heq : ∀ c ∈ repliedTo h, c ∈ cs ↔ c ∈ cs') : answersTo cs h = answersTo cs' h := by
  induction h with
  | nil => rfl
  | cons e h ih =>
    cases e with
    | replied c reply =>
      have ih' := ih fun c' hc' => heq c' (List.mem_cons_of_mem _ hc')
      have hc := heq c List.mem_cons_self
      simp only [answersTo_replied, ih', hc]
    | called => exact ih heq
    | accepted => exact ih heq
    | reported => exact ih heq
    | fired => exact ih heq

theorem answersTo_eq_nil (hnone : ∀ c ∈ repliedTo h, c ∉ cs) : answersTo cs h = [] := by
  induction h with
  | nil => rfl
  | cons e h ih =>
    cases e with
    | replied c reply =>
      have hc := hnone c List.mem_cons_self
      simp only [answersTo_replied, if_neg hc]
      exact ih fun c' hc' => hnone c' (List.mem_cons_of_mem _ hc')
    | called => exact ih hnone
    | accepted => exact ih hnone
    | reported => exact ih hnone
    | fired => exact ih hnone

end Answers

/-! ## what a worker does -/

/-- The answer to a read that failed its deadline. -/
abbrev expired : ReadReply := .error .readDeadlineExhausted

/-- The reports that open a transfer. -/
def Report.opens : Report → Bool
  | .opened _ _ _ => true
  | _ => false

/-- What a worker does in one step: it says something, it opens its reader, or it serves a read. -/
inductive Acted (limits : Limits) (k : Worker) : Worker × List Report → Prop
  | said (next : Worker × List Report) :
    next.1.reader = k.reader → next.1.inbox = k.inbox → next.1.identity = k.identity →
      (next.1.phase = .opening → k.phase = .opening) → results next.2 = [] →
      (∀ rep ∈ next.2, rep.opens = false) → Acted limits k next
  | opened (reader : Reader) (rep : Report) :
    k.phase = .opening → reader.Opened k.request → rep.opens = true →
      Acted limits k ({ k with phase := .reading, reader := some reader }, [rep])
  | served (reader : Reader) (length deadline : ℤ) (rest : List Order) (pread : Bool) (reply : ReadReply) :
    k.phase = .reading → k.reader = some reader → k.inbox = .read length deadline :: rest →
      (reply = (emit reader length limits pread).1 ∨ reply = expired) →
      Acted limits k
        ({ k with inbox := rest, reader := some (emit reader length limits pread).2 }, [.readResult reply])

theorem acted_finish {limits : Limits} {k : Worker} (outcome : Reason) (proof : Bool) :
    Acted limits k (k.finish outcome proof) := by
  refine .said _ rfl rfl rfl (fun h => by cases h) rfl fun rep hrep => ?_
  rcases List.mem_cons.1 hrep with rfl | hrep
  · rfl
  · rw [List.mem_singleton.1 hrep]
    rfl

theorem acted_resolve {limits : Limits} {k : Worker} (hphase : k.phase = .opening) (now : ℤ)
    (resolution : Resolution) (proof : Bool) : Acted limits k (k.resolve limits now resolution proof) := by
  unfold Worker.resolve
  split
  · exact acted_finish _ _
  split
  · exact acted_finish _ _
  split
  · exact acted_finish _ _
  next reader hsource =>
    split
    · exact .opened reader _ hphase (transferSource_opened hsource) rfl
    · exact acted_finish _ _

/-- Everything a worker does in one step. -/
theorem act_acted {limits : Limits} {k : Worker} {clock : Clock} {a : Act} {next : Worker × List Report}
    (h : k.act limits clock a = some next) : Acted limits k next := by
  unfold Worker.act at h
  split at h
  · cases h
  · obtain rfl := Option.some.inj h
    refine .said _ rfl rfl rfl (fun hp => by cases hp) rfl fun rep hrep => ?_
    rw [List.mem_singleton.1 hrep]
    rfl
  next hphase =>
    obtain rfl := Option.some.inj h
    refine .said _ rfl rfl rfl (fun _ => hphase) rfl fun rep hrep => ?_
    rw [List.mem_singleton.1 hrep]
    rfl
  next resolution proof hphase =>
    obtain rfl := Option.some.inj h
    exact acted_resolve hphase _ resolution proof
  next pread proof hphase =>
    obtain ⟨reader, hreader, h⟩ := Option.bind_eq_some_iff.1 h
    unfold Worker.serve at h
    split at h
    · cases h
    · obtain rfl := Option.some.inj h
      exact acted_finish _ _
    next length deadline rest hinbox =>
      split at h
      · obtain rfl := Option.some.inj h
        exact acted_finish _ _
      · obtain rfl := Option.some.inj h
        refine .served reader length deadline rest pread _ hphase hreader hinbox ?_
        split
        · exact .inl rfl
        · exact .inr rfl
  · cases h

/-! ## the answers of one worker -/

/-- The answers of a worker serve its window, and no chunk follows a read that failed its deadline. -/
structure Served (ans : List ReadReply) (k : Worker) : Prop where
  window : ∀ reader, k.reader = some reader →
    windowBounds k.request.start k.request.length reader.content.length =
      .ok ⟨reader.windowStart, reader.windowLength⟩
  serves : ∀ reader, k.reader = some reader → Serves reader.content reader.stop reader.windowStart ans
  unopened : k.reader = none → ans = []
  expired : ∀ pre post, ans = pre ++ expired :: post → chunks post = []
  opening : k.phase = .opening → k.reader = none

/-- While a transfer is live, its answers and the result on its way serve the window, and at most the read
that waits is on its way. -/
structure Flow (ans : List ReadReply) (out : List Report) (k : Worker) (r : Record) : Prop where
  live : r.status = .live → ∃ reader, k.reader = some reader ∧ Transfers.expired ∉ ans ∧
    (Transfers.expired ∈ results out ∨ reader.At (ans ++ results out)) ∧
      reads k.inbox + (results out).length ≤ r.readFrom.toList.length
  verifying : r.status = .verifying → reads k.inbox = 0 ∧ results out = [] ∧ ans = [] ∧
    ((∃ rep ∈ out, rep.opens = true) → k.reader ≠ none) ∧ ∀ reader, k.reader = some reader → reader.At []
  reading : r.readFrom ≠ none → k.reader ≠ none

namespace Served

variable {ans : List ReadReply} {k : Worker} {limits : Limits} {next : Worker × List Report}

/-- An error adds nothing to what was served. -/
theorem snoc_error (h : Served ans k) (hreader : k.reader ≠ none) (reason : Reason) :
    Served (ans ++ [.error reason]) k := by
  refine ⟨h.window, fun reader hr => serves_append.2 ⟨h.serves reader hr, trivial⟩,
    fun hnone => absurd hnone hreader, fun pre post heq => ?_, h.opening⟩
  rcases List.eq_nil_or_concat post with rfl | ⟨post', last, rfl⟩
  · rfl
  · rw [List.concat_eq_append, ← List.cons_append, ← List.append_assoc] at heq
    obtain ⟨hans, hlast⟩ := List.append_inj' heq rfl
    rw [List.concat_eq_append, chunks_append, h.expired pre post' hans, ← List.singleton_inj.1 hlast]
    rfl

/-- An answer before any read failed its deadline. -/
theorem snoc (h : Served ans k) (hnone : Transfers.expired ∉ ans) {reader : Reader} (hr : k.reader = some reader)
    {result : ReadReply} (hat : Serves reader.content reader.stop reader.windowStart (ans ++ [result])) :
    Served (ans ++ [result]) k := by
  refine ⟨h.window, fun reader' hr' => ?_, fun hnone' => ?_, fun pre post heq => ?_, h.opening⟩
  · obtain rfl := Option.some.inj (hr.symm.trans hr')
    exact hat
  · rw [hr] at hnone'
    cases hnone'
  · rcases List.eq_nil_or_concat post with rfl | ⟨post', last, rfl⟩
    · rfl
    · rw [List.concat_eq_append, ← List.cons_append, ← List.append_assoc] at heq
      obtain ⟨hans, -⟩ := List.append_inj' heq rfl
      refine absurd ?_ hnone
      rw [hans]
      exact List.mem_append_right _ List.mem_cons_self

theorem deliver (h : Served ans k) (orders : List Order) : Served ans (k.deliver orders) :=
  ⟨h.window, h.serves, h.unopened, h.expired, h.opening⟩

theorem acted (h : Served ans k) (ha : Acted limits k next) : Served ans next.1 := by
  cases ha with
  | said next hreader hinbox hid hphase =>
    simp only [Worker.identity, Prod.mk.injEq] at hid
    refine ⟨fun reader hr => ?_, fun reader hr => h.serves reader (hreader.symm.trans hr),
      fun hnone => h.unopened (hreader.symm.trans hnone), h.expired, fun hp => hreader.trans (h.opening (hphase hp))⟩
    rw [hid.2.2.1]
    exact h.window reader (hreader.symm.trans hr)
  | opened reader rep hphase hopened =>
    have hnil := h.unopened (h.opening hphase)
    subst hnil
    refine ⟨fun reader' hr => ?_, fun _ _ => trivial, fun hnone => (by cases hnone), h.expired, fun hp => (by cases hp)⟩
    obtain rfl := Option.some.inj hr
    exact hopened.bounds
  | served reader length deadline rest pread reply hphase hreader =>
    have hkeeps := emit_keeps reader length limits pread
    refine ⟨fun reader' hr => ?_, fun reader' hr => ?_, fun hnone => (by cases hnone), h.expired, fun hp => ?_⟩
    · obtain rfl := Option.some.inj hr
      rw [hkeeps]
      exact h.window reader hreader
    · obtain rfl := Option.some.inj hr
      rw [hkeeps]
      exact h.serves reader hreader
    · exact absurd (hphase.symm.trans hp) (by decide)

end Served

theorem Flow.acted {ans : List ReadReply} {out : List Report} {k : Worker} {r : Record} {limits : Limits}
    {next : Worker × List Report} (h : Flow ans out k r) (hs : Served ans k) (ha : Acted limits k next) :
    Flow ans (out ++ next.2) next.1 r := by
  cases ha with
  | said next hreader hinbox hid hphase hresults hopens =>
    refine ⟨fun hlive => ?_, fun hverifying => ?_, fun hw => ?_⟩
    · rw [results_append, hresults, List.append_nil, hreader, hinbox]
      exact h.live hlive
    · obtain ⟨h1, h2, h3, h4, h5⟩ := h.verifying hverifying
      rw [results_append, hresults, List.append_nil, hreader, hinbox]
      refine ⟨h1, h2, h3, fun ⟨rep, hrep, ho⟩ => h4 ⟨rep, ?_, ho⟩, h5⟩
      refine (List.mem_append.1 hrep).resolve_right fun hn => ?_
      rw [hopens rep hn] at ho
      cases ho
    · rw [hreader]
      exact h.reading hw
  | opened reader rep hphase hopened hrep =>
    have hnone := hs.opening hphase
    have hresults : results [rep] = [] := by
      cases rep <;> first | rfl | cases hrep
    refine ⟨fun hlive => ?_, fun hverifying => ?_, fun _ => Option.some_ne_none _⟩
    · obtain ⟨reader', hr, -⟩ := h.live hlive
      rw [hnone] at hr
      cases hr
    · obtain ⟨h1, h2, h3, -, -⟩ := h.verifying hverifying
      refine ⟨h1, ?_, h3, fun _ => Option.some_ne_none _, fun reader' hr => ?_⟩
      · rw [results_append, hresults, h2]
        rfl
      · obtain rfl := Option.some.inj hr
        exact hopened.start_at
  | served reader length deadline rest pread reply hphase hreader hinbox hreply =>
    refine ⟨fun hlive => ?_, fun hverifying => ?_, fun _ => Option.some_ne_none _⟩
    · obtain ⟨reader', hr, hans, hat, hcount⟩ := h.live hlive
      obtain rfl := Option.some.inj (hreader.symm.trans hr)
      rw [hinbox] at hcount
      simp only [reads] at hcount
      have hone : r.readFrom.toList.length ≤ 1 := by cases r.readFrom <;> simp
      have hempty : results out = [] := List.length_eq_zero_iff.1 (by omega)
      have hat' : reader.At ans := by
        rw [hempty, List.append_nil] at hat
        exact hat.resolve_left List.not_mem_nil
      refine ⟨_, rfl, hans, ?_, ?_⟩
      · rw [results_append, hempty]
        rcases hreply with rfl | rfl
        · exact .inr (emit_serves hat' length limits pread)
        · exact .inl List.mem_cons_self
      · rw [results_append, hempty]
        simp only [results, List.nil_append, List.length_singleton]
        omega
    · obtain ⟨h1, -⟩ := h.verifying hverifying
      rw [hinbox] at h1
      simp [reads] at h1

/-! ## what a handler does to the reads of its record -/

section Handlers

variable {o : Owner} {v : Env} {sender : From} {id : Ref} {r : Record} {x : Record × List Effect}

/-- What a turn answers to the reader of a record. -/
def told (r : Record) (es : List Effect) : List ReadReply := answersTo r.readFrom.toList (replies es)

/-- A handler after which the record serves no read, and which answers the reader with errors only. -/
structure Quits (r : Record) (x : Record × List Effect) : Prop where
  status : x.1.status ≠ .live ∧ x.1.status ≠ .verifying
  readFrom : x.1.readFrom ≠ none → r.readFrom ≠ none
  errors : ∀ result ∈ told r x.2, ∃ reason, result = .error reason

/-- A handler that leaves the reads alone. -/
structure Stays (r : Record) (x : Record × List Effect) : Prop where
  status : x.1.status = r.status
  readFrom : x.1.readFrom = r.readFrom
  silent : told r x.2 = []
  orders : ∀ w, reads (ordersTo w x.2) = 0

theorem answersTo_error {cs : List From} {es : List Effect}
    (h : ∀ c reply, .reply c reply ∈ es → ∀ result, reply.result = some result → ∃ reason, result = .error reason) :
    ∀ result ∈ answersTo cs (replies es), ∃ reason, result = .error reason := by
  induction es with
  | nil =>
    intro result hresult
    cases hresult
  | cons e es ih =>
    have ih' := ih fun c reply hmem => h c reply (List.mem_cons_of_mem _ hmem)
    cases e with
    | reply c reply =>
      intro result hresult
      simp only [replies, answersTo] at hresult
      split at hresult
      · rcases List.mem_append.1 hresult with hr | hr
        · exact h c reply List.mem_cons_self result (Option.mem_toList.1 hr)
        · exact ih' result hr
      · exact ih' result hresult
    | tell => exact ih'
    | spawn => exact ih'
    | arm => exact ih'
    | cancel => exact ih'

theorem beginRetirement_status (deadline : ℤ) :
    (r.beginRetirement v id deadline).1.status ≠ .live ∧ (r.beginRetirement v id deadline).1.status ≠ .verifying := by
  change (r.retire v).1.status ≠ _ ∧ (r.retire v).1.status ≠ _
  rcases Record.retire_status v r with ⟨hs, -⟩ | ⟨hs, -⟩
  · rw [hs]
    exact ⟨by decide, by decide⟩
  · rw [hs]
    exact ⟨by decide, by decide⟩

@[simp] theorem replies_beginRetirement (deadline : ℤ) : replies (r.beginRetirement v id deadline).2 = [] := by
  have hretire : replies (r.retire v).2 = [] := by
    unfold Record.retire
    split
    · rfl
    split
    · rfl
    · exact replies_tell _ _
  have harm : ∀ d, replies (r.retirementTimer v id d).2 = [] := by
    intro d
    unfold Record.retirementTimer
    split <;> rfl
  simp [Record.beginRetirement, hretire, harm]

namespace Quits

theorem thenRetire (hfrom : x.1.readFrom ≠ none → r.readFrom ≠ none)
    (herrors : ∀ result ∈ told r x.2, ∃ reason, result = .error reason) (deadline : ℤ) :
    Quits r (thenRetire v id x deadline) := by
  refine ⟨beginRetirement_status deadline, fun hw => hfrom ?_, ?_⟩
  · rwa [← Record.beginRetirement_readFrom v id x.1 deadline]
  · intro result hresult
    refine herrors result ?_
    unfold told Owner.thenRetire at hresult
    rw [replies_append, replies_beginRetirement, List.append_nil] at hresult
    exact hresult

theorem beginRetirement (deadline : ℤ) : Quits r (r.beginRetirement v id deadline) := by
  refine ⟨beginRetirement_status deadline, fun hw => ?_, ?_⟩
  · rwa [← Record.beginRetirement_readFrom v id r deadline]
  · simp [told, answersTo]

theorem joined (normal : Bool) :
    Quits r ((r.joined v normal).released, (r.joined v normal).finishWaiters v) := by
  refine ⟨?_, fun hw => absurd rfl hw, answersTo_error fun c reply hmem result hresult => ?_⟩
  · unfold Record.joined
    split <;> exact ⟨fun hs => (by cases hs), fun hs => (by cases hs)⟩
  · have hreply : reply = (r.joined v normal).openFailure ∨ reply = (r.joined v normal).readFailure ∨
        reply = (r.joined v normal).closeAnswer v := by
      simp only [Record.finishWaiters, List.mem_append, List.mem_map, cancelTimer] at hmem
      rcases hmem with (((⟨_, _, he⟩ | ⟨_, _, he⟩) | ⟨_, _, he⟩) | ⟨_, _, he⟩) | ⟨_, _, he⟩
      · cases he
      · cases he
      · exact .inl (Effect.reply.inj he).2.symm
      · exact .inr (.inl (Effect.reply.inj he).2.symm)
      · exact .inr (.inr (Effect.reply.inj he).2.symm)
    rcases hreply with rfl | rfl | rfl
    · unfold Record.openFailure at hresult
      split at hresult
      · exact ⟨_, (Option.some.inj hresult).symm⟩
      · cases hresult
    · unfold Record.readFailure at hresult
      split at hresult <;> exact ⟨_, (Option.some.inj hresult).symm⟩
    · unfold Record.closeAnswer at hresult
      split at hresult
      · cases hresult
      · exact ⟨_, (Option.some.inj hresult).symm⟩

theorem awaitClose (hstatus : x.1.status ≠ .live ∧ x.1.status ≠ .verifying) (hfrom : x.1.readFrom = r.readFrom)
    (hquiet : replies x.2 = []) : Quits r (awaitClose v sender x) := by
  have hanswer : ∀ reply : Reply, (∀ result, reply.result = some result → ∃ reason, result = .error reason) →
      Quits r (x.1, x.2 ++ [.reply sender reply]) := by
    intro reply hreply
    refine ⟨hstatus, fun hw => by rwa [← hfrom], ?_⟩
    intro result hresult
    unfold told at hresult
    rw [replies_append, hquiet] at hresult
    have hall : ∀ result ∈ answersTo r.readFrom.toList (replies [.reply sender reply]),
        ∃ reason, result = ReadReply.error reason := ?_
    · exact hall result hresult
    refine answersTo_error ?_
    intro c reply' hmem result' hresult'
    obtain ⟨-, rfl⟩ := Effect.reply.inj (List.mem_singleton.1 hmem)
    exact hreply result' hresult'
  unfold Owner.awaitClose
  split
  · exact hanswer _ fun result hresult => by cases hresult
  split
  · exact hanswer _ fun result hresult => ⟨_, (Option.some.inj hresult).symm⟩
  · refine ⟨hstatus, fun hw => by rwa [← hfrom], ?_⟩
    intro result hresult
    unfold told at hresult
    rw [hquiet] at hresult
    cases hresult

end Quits

/-- A timer leaves the reads alone, or ends them. -/
theorem onTimeout_reads {message : Timeout} (hr : r.Formed) (hx : onTimeout v r message = some x) :
    Quits r x ∨ Stays r x := by
  have hsame : Stays r (r, []) := ⟨rfl, rfl, rfl, fun _ => rfl⟩
  cases message with
  | expire id =>
    obtain ⟨deadline, -, rfl⟩ := Option.map_eq_some_iff.1 hx
    exact .inl (Quits.beginRetirement _)
  | closeExpired id deadline =>
    obtain rfl := Option.some.inj hx
    unfold onCloseExpired
    split
    next c hclose =>
      split
      · have hne : r.closeFrom ≠ none := by
          rw [hclose]
          exact Option.some_ne_none c
        refine .inl ⟨⟨fun hs => hne (hr.live hs).2.1, fun hs => hne (hr.verifying hs).2.1⟩, fun hw => hw, ?_⟩
        refine answersTo_error fun c' reply hmem result hresult => ?_
        obtain ⟨-, rfl⟩ := Effect.reply.inj (List.mem_singleton.1 hmem)
        exact ⟨_, (Option.some.inj hresult).symm⟩
      · exact .inr hsame
    · exact .inr hsame
  | readExpired id deadline =>
    obtain rfl := Option.some.inj hx
    unfold onReadExpired
    split
    · split
      · refine .inl (Quits.thenRetire (fun hw => absurd rfl hw) ?_ _)
        refine answersTo_error fun c' reply hmem result hresult => ?_
        obtain ⟨-, rfl⟩ := Effect.reply.inj (List.mem_singleton.1 hmem)
        exact ⟨_, (Option.some.inj hresult).symm⟩
      · exact .inr hsame
    · exact .inr hsame

/-! ### answers served, by the handler -/

theorem Served.append_errors {ans T : List ReadReply} {k : Worker} (h : Served ans k) (hreader : k.reader ≠ none)
    (hT : ∀ result ∈ T, ∃ reason, result = .error reason) : Served (ans ++ T) k := by
  induction T generalizing ans with
  | nil =>
    rw [List.append_nil]
    exact h
  | cons result T ih =>
    obtain ⟨reason, rfl⟩ := hT result List.mem_cons_self
    rw [List.append_cons]
    exact ih (h.snoc_error hreader reason) fun result' hr => hT result' (List.mem_cons_of_mem _ hr)

/-- The answers of a worker serve its window, and so does what is on its way while its transfer is live. -/
structure Serving (ans : List ReadReply) (out : List Report) (k : Worker) (r : Record) : Prop where
  flow : Flow ans out k r
  served : Served ans k

theorem Quits.flow {ans ans' : List ReadReply} {out out' : List Report} {k : Worker} (h : Quits r x)
    (hf : Flow ans out k r) (orders : List Order) : Flow ans' out' (k.deliver orders) x.1 :=
  ⟨fun hs => absurd hs h.status.1, fun hs => absurd hs h.status.2, fun hw => hf.reading (h.readFrom hw)⟩

theorem Quits.serving {ans : List ReadReply} {out out' : List Report} {k : Worker} (h : Quits r x)
    (hs : Serving ans out k r) (orders : List Order) :
    Serving (ans ++ told r x.2) out' (k.deliver orders) x.1 := by
  refine ⟨h.flow hs.flow orders, Served.deliver ?_ orders⟩
  by_cases hw : r.readFrom = none
  · have hnil : told r x.2 = [] := by
      unfold told
      rw [hw]
      exact answersTo_eq_nil fun _ _ => List.not_mem_nil
    rw [hnil, List.append_nil]
    exact hs.served
  · exact hs.served.append_errors (hs.flow.reading hw) h.errors

theorem Stays.serving {ans : List ReadReply} {out out' : List Report} {k : Worker} (h : Stays r x)
    (hs : Serving ans out k r) (hout : out'.Sublist out) (hresults : results out' = results out) (w : Pid) :
    Serving (ans ++ told r x.2) out' (k.deliver (ordersTo w x.2)) x.1 := by
  rw [h.silent, List.append_nil]
  have hreads : reads (k.deliver (ordersTo w x.2)).inbox = reads k.inbox := by
    change reads (k.inbox ++ _) = _
    rw [reads_append, h.orders w, Nat.add_zero]
  refine ⟨⟨fun hlive => ?_, fun hverifying => ?_, fun hw => ?_⟩, hs.served.deliver _⟩
  · rw [hreads, hresults, h.readFrom]
    exact hs.flow.live (h.status.symm.trans hlive)
  · rw [hreads, hresults]
    obtain ⟨h1, h2, h3, h4, h5⟩ := hs.flow.verifying (h.status.symm.trans hverifying)
    exact ⟨h1, h2, h3, fun ⟨rep, hrep, hopen⟩ => h4 ⟨rep, hout.subset hrep, hopen⟩, h5⟩
  · rw [h.readFrom] at hw
    exact hs.flow.reading hw

/-- The opening of a transfer. -/
theorem Serving.adopt {ans : List ReadReply} {rest : List Report} {k : Worker} {transfer : Transfer}
    {use : Term} {work work' : Work} {transfer' : Transfer} {use' : Term} (hr : r.Formed)
    (hstatus : r.status = .verifying) (hs : Serving ans (.opened transfer use work :: rest) k r) (w : Pid) :
    Serving (ans ++ told r (o.adopt v id r transfer' use' work').2) rest
      (k.deliver (ordersTo w (o.adopt v id r transfer' use' work').2)) (o.adopt v id r transfer' use' work').1 := by
  have hread := (hr.verifying hstatus).1
  have hquiet : ∀ es, told r es = [] := by
    intro es
    unfold told
    rw [hread]
    exact answersTo_eq_nil fun _ _ => List.not_mem_nil
  unfold Owner.adopt
  split
  · obtain ⟨h1, h2, rfl, h4, h5⟩ := hs.flow.verifying hstatus
    obtain ⟨reader, hreader⟩ := Option.ne_none_iff_exists'.1 (h4 ⟨_, List.mem_cons_self, rfl⟩)
    have horders : ordersTo w (r.openFrom.toList.map (.reply · (.opened transfer' use' work')) ++
        [.arm v.fresh (v.later + o.limits.lifetimeMs) (.expire id)]) = [] := by
      cases r.openFrom <;> rfl
    rw [hquiet, horders]
    refine ⟨⟨fun _ => ⟨reader, hreader, List.not_mem_nil, .inr ?_, ?_⟩, fun hv => (by cases hv),
      fun hw => absurd hread hw⟩, hs.served.deliver _⟩
    · have hrest : results rest = [] := h2
      rw [hrest]
      exact h5 reader hreader
    · have hrest : results rest = [] := h2
      change reads (k.inbox ++ []) + (results rest).length ≤ _
      rw [List.append_nil, h1, hrest]
      exact Nat.zero_le _
  · have hq : Quits r ({ r with outcome := some .openDeadlineExhausted, work := some work' }.beginRetirement v id
        (r.context.openDeadlineMs + 5000)) := by
      refine ⟨beginRetirement_status _, fun hw => ?_, ?_⟩
      · rw [Record.beginRetirement_readFrom] at hw
        exact hw
      · rw [hquiet]
        exact fun _ h => by cases h
    exact hq.serving hs _

/-- The answer of a read, on the way to a reader who waits for it. -/
theorem told_answerRead {c : From} (hread : r.readFrom = some c) (answer : ReadReply) :
    told r (answerRead r c answer).2 = [answer] := by
  unfold told Owner.answerRead
  rw [hread, replies_append, replies_cancelTimer]
  simp [replies, answersTo]

theorem ordersTo_answerRead {c : From} (answer : ReadReply) (w : Pid) :
    ordersTo w (answerRead r c answer).2 = [] := by
  unfold Owner.answerRead
  cases r.readTimer <;> rfl

/-- A read result. -/
theorem Serving.readResult {ans : List ReadReply} {rest : List Report} {k : Worker} {result : ReadReply}
    (hs : Serving ans (.readResult result :: rest) k r) (hx : readResult v id r result = some x) (w : Pid) :
    Serving (ans ++ told r x.2) rest (k.deliver (ordersTo w x.2)) x.1 := by
  have hone : r.readFrom = none → r.status ≠ .live := by
    intro hnone hlive
    obtain ⟨reader, -, -, -, hcount⟩ := hs.flow.live hlive
    rw [hnone] at hcount
    simp [results] at hcount
  have hother : r.status ≠ .live → x = (r, []) →
      Serving (ans ++ told r x.2) rest (k.deliver (ordersTo w x.2)) x.1 := by
    rintro hlive rfl
    refine (Quits.serving (x := (r, [])) ⟨⟨hlive, fun hverifying => ?_⟩, fun hw => hw, fun _ h => by cases h⟩ hs _)
    obtain ⟨-, h2, -⟩ := hs.flow.verifying hverifying
    cases h2
  unfold Owner.readResult at hx
  split at hx
  next c hread =>
    split at hx
    next hlive =>
      obtain ⟨reader, hreader, hans, hat, hcount⟩ := hs.flow.live hlive
      rw [hread] at hcount
      simp only [results, List.length_cons, Option.toList_some, List.length_nil] at hcount
      have hreads : reads k.inbox = 0 := by omega
      have hrest : results rest = [] := List.length_eq_zero_iff.1 (by omega)
      split at hx
      next hexpired =>
        obtain ⟨deadline, -, rfl⟩ := Option.map_eq_some_iff.1 hx
        refine Quits.serving (Quits.thenRetire (fun hw => absurd rfl hw) ?_ _) hs _
        rw [told_answerRead hread, hexpired]
        intro result' hresult
        exact ⟨_, List.mem_singleton.1 hresult⟩
      next hexpired =>
        obtain rfl := Option.some.inj hx
        have hanswer : readAnswer v r result = result := by
          unfold readAnswer at hexpired ⊢
          split
          · rfl
          next hlate =>
            rw [if_neg hlate] at hexpired
            exact absurd rfl hexpired
        rw [hanswer] at hexpired ⊢
        have hat' : reader.At (ans ++ [result]) := by
          simp only [results, hrest] at hat
          refine hat.resolve_left fun hmem => ?_
          exact hexpired (List.mem_singleton.1 hmem).symm
        rw [told_answerRead hread, ordersTo_answerRead]
        refine ⟨⟨fun _ => ⟨reader, hreader, ?_, .inr ?_, ?_⟩, fun hv => ?_, fun hw => absurd rfl hw⟩,
          (hs.served.snoc hans hreader hat'.serves).deliver _⟩
        · rw [List.mem_append, List.mem_singleton]
          rintro (hmem | hmem)
          · exact hans hmem
          · exact hexpired hmem.symm
        · rw [hrest, List.append_nil]
          exact hat'
        · change reads (k.inbox ++ []) + _ ≤ _
          rw [List.append_nil, hreads, hrest]
          exact Nat.zero_le _
        · exact absurd (hlive.symm.trans hv) (by decide)
    next hlive => exact hother hlive (Option.some.inj hx).symm
  next hnone => exact hother (hone hnone) (Option.some.inj hx).symm

/-- A message of the worker. -/
theorem Serving.onReport {ans : List ReadReply} {rep : Report} {rest : List Report} {k : Worker} {w : Pid}
    (hr : r.Formed) (hs : Serving ans (rep :: rest) k r) (hdown : ∀ normal, rep ≠ .down normal)
    (hx : o.onReport v id r rep = some x) :
    Serving (ans ++ told r x.2) rest (k.deliver (ordersTo w x.2)) x.1 := by
  cases rep with
  | work work =>
    obtain rfl := Option.some.inj hx
    have hsilent : results rest = results (.work work :: rest) := rfl
    have hstays : Stays r ({ r with work := some work }, []) := ⟨rfl, rfl, rfl, fun _ => rfl⟩
    exact hstays.serving hs (List.sublist_cons_self _ _) hsilent w
  | opened transfer use work =>
    obtain rfl := Option.some.inj hx
    unfold transferOpened
    split
    next hstatus => exact hs.adopt hr hstatus w
    · have hsilent : results rest = results (.opened transfer use work :: rest) := rfl
      have hstays : Stays r ({ r with work := some work }, r.tell .retire) := by
        refine ⟨rfl, rfl, ?_, fun w' => ?_⟩
        · simp [told, answersTo]
        · unfold Record.tell
          cases r.worker with
          | none => rfl
          | some w₀ =>
            simp only [Option.toList_some, List.map_cons, List.map_nil, ordersTo]
            split <;> rfl
      exact hstays.serving hs (List.sublist_cons_self _ _) hsilent w
  | readResult result => exact hs.readResult hx w
  | retired outcome work proof =>
    obtain rfl := Option.some.inj hx
    have hstatus : (transferRetired r outcome work proof).1.status = .retiring := rfl
    have hquits : Quits r (transferRetired r outcome work proof) := by
      refine ⟨?_, fun hw => hw, fun _ h => by cases h⟩
      rw [hstatus]
      exact ⟨by decide, by decide⟩
    exact hquits.serving hs _
  | down normal => exact absurd rfl (hdown normal)

/-- A message of a timer. -/
theorem Serving.onTimeout {ans : List ReadReply} {out : List Report} {k : Worker} {message : Timeout}
    (hr : r.Formed) (hs : Serving ans out k r) (hx : onTimeout v r message = some x) (w : Pid) :
    Serving (ans ++ told r x.2) out (k.deliver (ordersTo w x.2)) x.1 := by
  rcases onTimeout_reads hr hx with hq | hstay
  · exact hq.serving hs _
  · exact hstay.serving hs (List.Sublist.refl out) rfl w

/-- A call keeps the worker that was started. -/
theorem Called.worker_of_started {limits : Limits} {c : Call} (hx : Called limits v sender c id r x)
    (hr : r.Formed) (hw : r.worker ≠ none) : x.1.worker = r.worker := by
  rcases hx.binding with heq | ⟨hstatus, -⟩
  · exact congrArg Binding.worker heq
  · exact absurd (hr.reserved hstatus).1 hw

/-- A call that gives a record its worker starts it. -/
theorem Called.started {limits : Limits} {c : Call} {w : Pid} (hx : Called limits v sender c id r x)
    (hr : r.Formed) (hnone : r.worker = none) (hw : x.1.worker = some w) :
    w = v.fresh ∧ x.2 = [.spawn v.fresh (ioWorker v r.request r.context)] ∧ x.1.readFrom = none ∧
      x.1.status = .verifying ∧ x.1.workerJoined = false ∧ x.1.proof = false ∧ x.1.receipt = none := by
  have hsame : x.1.binding = r.binding → False := by
    intro heq
    have hworker : x.1.worker = r.worker := congrArg Binding.worker heq
    rw [hworker, hnone] at hw
    cases hw
  cases hx with
  | opened r hstatus =>
    exact ⟨(Option.some.inj hw).symm, rfl, (hr.settled (.inl hstatus)).2.1, rfl, (hr.reserved hstatus).2⟩
  | expired | read | observed => exact (hsame rfl).elim
  | closed => exact (hsame (awaitClose_binding.trans (beginRetirement_binding _))).elim

/-- A call of the transfer, when it has a worker already. -/
theorem Serving.called {ans : List ReadReply} {out : List Report} {k : Worker} {limits : Limits} {c : Call}
    {w : Pid} (hr : r.Formed) (hs : Serving ans out k r) (hw : r.worker = some w)
    (hx : Called limits v sender c id r x) : Serving ans out (k.deliver (ordersTo w x.2)) x.1 := by
  have hreserved : r.status ≠ .reserved := by
    intro hstatus
    rw [(hr.reserved hstatus).1] at hw
    cases hw
  cases hx with
  | opened r hstatus => exact absurd hstatus hreserved
  | expired r hstatus => exact absurd hstatus hreserved
  | read id r length hlive hread =>
    obtain ⟨reader, hreader, hans, hat, hcount⟩ := hs.flow.live hlive
    refine ⟨⟨fun _ => ⟨reader, hreader, hans, hat, ?_⟩, fun hv => ?_, fun _ => ?_⟩, hs.served.deliver _⟩
    · have horders : ordersTo w (Effect.arm v.fresh (v.later + limits.readDeadlineMs)
          (.readExpired id (v.now + limits.readDeadlineMs)) ::
            r.tell (.read length (v.now + limits.readDeadlineMs))) =
          [.read length (v.now + limits.readDeadlineMs)] := by
        unfold Record.tell
        rw [hw]
        simp [ordersTo]
      rw [horders]
      rw [hread] at hcount
      simp only [Option.toList_none, List.length_nil] at hcount
      change reads (k.inbox ++ _) + _ ≤ 1
      rw [reads_append]
      simp only [reads]
      omega
    · exact absurd (hlive.symm.trans hv) (by decide)
    · rw [show (k.deliver _).reader = k.reader from rfl, hreader]
      exact Option.some_ne_none reader
  | observed r selector hstatus =>
    refine ⟨Quits.flow (r := r) ⟨⟨fun h => ?_, fun h => ?_⟩, fun hw => hw, ?_⟩ hs.flow _, hs.served.deliver _⟩
    · exact absurd (hstatus.symm.trans h) (by decide)
    · exact absurd (hstatus.symm.trans h) (by decide)
    · exact answersTo_error fun c' reply hmem result hresult => by
        obtain ⟨-, rfl⟩ := Effect.reply.inj (List.mem_singleton.1 hmem)
        cases hresult
  | closed r selector =>
    refine ⟨Quits.flow (r := r) (Quits.awaitClose (beginRetirement_status _) ?_ (replies_beginRetirement _)) hs.flow _,
      hs.served.deliver _⟩
    exact Record.beginRetirement_readFrom ..

end Handlers

/-! ## the answers after a turn -/

section Turns

variable {s : System} {m : Move} {w : Pid} {id : Ref} {r : Record} {x : Record × List Effect}

theorem readers_eq_nil {l : List Event} (h : ∀ slot ref w t c, Event.accepted slot ref w t c ∉ l) :
    readers w l = [] := by
  refine List.eq_nil_iff_forall_not_mem.2 fun c hc => ?_
  obtain ⟨ref, t, hmem⟩ := mem_readers.1 hc
  exact h _ _ _ _ _ hmem

/-- The calls a message answers are reads of a worker when they wait for that worker's result. -/
theorem Answering.readers_iff (h : Answering s) (hr : s.owner.transfers.lookup id = some r) (hx : Sound r x)
    {c : From} (hc : c ∈ answered x.2) :
    c ∈ readers w s.history ↔ r.worker = some w ∧ c ∈ r.readFrom.toList := by
  obtain ⟨slot, hslot⟩ := Record.mem_slots.1 (hx.conserves.subset (List.mem_append_left _ hc))
  have hknown := h.known id r slot c hr hslot
  rw [mem_readers, Option.mem_toList]
  constructor
  · rintro ⟨ref, t, hmem⟩
    obtain ⟨rfl, -, hw, -⟩ := h.once _ _ _ _ _ _ _ _ _ hmem hknown
    exact ⟨hw.symm, hslot⟩
  · rintro ⟨hw, hread⟩
    have hread' := h.known id r .reading c hr hread
    rw [hw] at hread'
    exact ⟨_, _, hread'⟩

/-- A message answers the reads of the worker of its record. -/
theorem Answering.answers_put (h : Answering s) (hr : s.owner.transfers.lookup id = some r) (hx : Sound r x)
    {es : List Event} (haccept : ∀ slot ref w t c, Event.accepted slot ref w t c ∉ es) (hreply : repliedTo es = []) :
    answers (s.history ++ es ++ replies x.2) w =
      answers s.history w ++ if r.worker = some w then told r x.2 else [] := by
  have hreaders : readers w (s.history ++ es ++ replies x.2) = readers w s.history := by
    rw [readers_append, readers_append, readers_eq_nil haccept,
      readers_eq_nil fun _ _ _ _ _ => not_accepted_replies, List.append_nil, List.append_nil]
  have hes : answersTo (readers w s.history) es = [] := by
    refine answersTo_eq_nil fun c hc => ?_
    rw [hreply] at hc
    cases hc
  unfold answers
  rw [hreaders, answersTo_append, answersTo_append, hes, List.append_nil]
  congr 1
  split
  next hw =>
    refine answersTo_congr fun c hc => ?_
    rw [repliedTo_replies] at hc
    rw [h.readers_iff hr hx hc]
    simp [hw]
  next hw =>
    refine answersTo_eq_nil fun c hc hmem => ?_
    rw [repliedTo_replies] at hc
    exact hw ((h.readers_iff hr hx hc).1 hmem).1

/-- A turn that replies to nobody answers no read. -/
theorem answers_quiet {es : List Event} (haccept : ∀ slot ref w t c, Event.accepted slot ref w t c ∉ es)
    (hreply : repliedTo es = []) : answers (s.history ++ es) w = answers s.history w := by
  unfold answers
  rw [readers_append, readers_eq_nil haccept, List.append_nil, answersTo_append,
    answersTo_eq_nil (h := es) (fun c hc => by rw [hreply] at hc; cases hc), List.append_nil]

theorem answered_awaitClose {v : Env} {sender : From} (hx : answered x.2 = []) :
    ∀ d ∈ answered (awaitClose v sender x).2, d = sender := by
  intro d hd
  unfold awaitClose at hd
  split at hd
  · simp only [answered_append, hx, answered, List.nil_append, List.mem_singleton] at hd
    exact hd
  split at hd
  · simp only [answered_append, hx, answered, List.nil_append, List.mem_singleton] at hd
    exact hd
  · rw [hx] at hd
    cases hd

/-- A call is answered to its caller only. -/
theorem Called.answered {limits : Limits} {v : Env} {sender : From} {c : Call} (h : Called limits v sender c id r x) :
    ∀ d ∈ answered x.2, d = sender := by
  intro d hd
  cases h with
  | opened => cases hd
  | expired => exact List.mem_singleton.1 hd
  | read =>
    simp only [Transfers.answered, answered_tell] at hd
    cases hd
  | observed => exact List.mem_singleton.1 hd
  | closed r selector => exact answered_awaitClose (Record.answered_beginRetirement ..) d hd

theorem CallTurn.answered {o : Owner} {v : Env} {sender : From} {c : Call} {t : Turn}
    (h : CallTurn o v sender c t) : ∀ d ∈ answered t.2, d = sender := by
  intro d hd
  cases h with
  | answer => exact List.mem_singleton.1 hd
  | reserve => exact List.mem_singleton.1 hd
  | free id receipt r =>
    simp only [answered_append, answered_cancelTimer, Transfers.answered, List.nil_append, List.mem_singleton] at hd
    exact hd
  | change c id r x hr hx => exact hx.answered d hd

theorem acceptance_cases (c : Call) (sender : From) (t : Turn) :
    acceptance c sender t = [] ∨
      sender ∉ answered t.2 ∧ ∃ slot ref r, t.1.transfers.lookup ref = some r ∧
        acceptance c sender t = [.accepted slot ref r.worker (r.waitTimer slot) sender] := by
  unfold acceptance
  split
  · exact .inl rfl
  split
  next r hr =>
    split
    · exact .inl rfl
    next hnone => exact .inr ⟨hnone, _, _, r, hr, rfl⟩
  · exact .inl rfl

/-- A call answers no read made before. -/
theorem Answering.answers_call (h : Answering s) {pid : Pid} {c : Call} {t : Turn}
    (ht : CallTurn s.owner (s.env m) ⟨pid, s.fresh⟩ c t) :
    answers (((s.log [.called ⟨pid, s.fresh⟩]).turn m t).log (acceptance c ⟨pid, s.fresh⟩ t)).history w =
      answers s.history w := by
  generalize hsender : (⟨pid, s.fresh⟩ : From) = sender at ht ⊢
  have hunused : sender ∉ callers s.history := hsender ▸ h.unused (Nat.le_refl _)
  have hacc : ∀ d, d ∈ readers w (acceptance c sender t) → d = sender ∧ sender ∉ answered t.2 := by
    intro d hd
    rcases acceptance_cases c sender t with heq | ⟨hnone, slot, ref, r, -, heq⟩
    · rw [heq] at hd
      cases hd
    · rw [heq] at hd
      obtain ⟨ref', t', hmem⟩ := mem_readers.1 hd
      exact ⟨(Event.accepted.inj (List.mem_singleton.1 hmem)).2.2.2.2, hnone⟩
  have hreaders : readers w (s.history ++ [.called sender] ++ replies t.2 ++ acceptance c sender t) =
      readers w s.history ++ readers w (acceptance c sender t) := by
    rw [readers_append, readers_append, readers_append, readers_eq_nil (l := replies t.2) fun _ _ _ _ _ =>
      not_accepted_replies]
    simp [readers]
  have hold : answersTo (readers w s.history ++ readers w (acceptance c sender t)) s.history =
      answers s.history w := by
    refine answersTo_congr fun d hd => ?_
    rw [List.mem_append, or_iff_left_iff_imp]
    intro hmem
    rw [(hacc d hmem).1] at hd
    exact absurd (h.calls.subset (List.mem_append_left _ hd)) hunused
  have hnew : answersTo (readers w s.history ++ readers w (acceptance c sender t)) (replies t.2) = [] := by
    refine answersTo_eq_nil fun d hd hmem => ?_
    rw [repliedTo_replies] at hd
    obtain rfl := ht.answered d hd
    rcases List.mem_append.1 hmem with hmem | hmem
    · obtain ⟨ref, t', hm⟩ := mem_readers.1 hmem
      exact hunused (h.accepted _ _ _ _ _ hm)
    · exact (hacc d hmem).2 hd
  have hlast : ∀ cs, answersTo cs (acceptance c sender t) = [] := by
    intro cs
    rcases acceptance_cases c sender t with heq | ⟨-, slot, ref, r, -, heq⟩
    · rw [heq]
      rfl
    · rw [heq]
      rfl
  change answersTo (readers w (s.history ++ [.called sender] ++ replies t.2 ++ acceptance c sender t))
    (s.history ++ [.called sender] ++ replies t.2 ++ acceptance c sender t) = _
  rw [hreaders, answersTo_append, answersTo_append, answersTo_append, hlast, hnew, hold]
  simp [answersTo]

end Turns

/-! ## every answer serves its window -/

/-- The answers of every worker serve its window, and nobody reads from a worker that is not there. -/
structure Reading (s : System) : Prop where
  flow : ∀ id r w k, s.owner.transfers.lookup id = some r → r.worker = some w → s.workers w = some k →
    Flow (answers s.history w) (s.outbox w) k r
  served : ∀ w k, s.workers w = some k → Served (answers s.history w) k
  known : ∀ w, s.workers w = none → readers w s.history = []

theorem Served.fresh {k : Worker} (h : k.reader = none) : Served [] k := by
  refine ⟨fun reader hr => ?_, fun _ _ => trivial, fun _ => rfl, fun pre post heq => ?_, fun _ => h⟩
  · rw [h] at hr
    cases hr
  · exact absurd heq.symm (List.append_ne_nil_of_right_ne_nil _ (List.cons_ne_nil _ _))

/-- A worker of a later state, seen from the earlier one. -/
theorem Registered.worker_back {s : System} {m : Move} {id : Ref} {r : Record} {es : List Effect} {w : Pid}
    {k : Worker} (h : Registered s) (hlocal : Local (s.env m) id r es) (hk : setWorkers s.workers es w = some k) :
    (∃ k₀, s.workers w = some k₀ ∧ k = k₀.deliver (ordersTo w es)) ∨ s.workers w = none ∧ k.reader = none := by
  by_cases hw : w = (s.env m).fresh
  · have hnone : s.workers w = none := by
      refine Option.eq_none_iff_forall_not_mem.2 fun k₀ hk₀ => ?_
      exact ne_of_used (h.fresh w k₀ hk₀).1 hw
    rcases setWorkers_some hlocal hk with ⟨k', hk', -⟩ | ⟨-, -, -, hreader⟩
    · rw [hnone] at hk'
      cases hk'
    · exact .inr ⟨hnone, hreader⟩
  · rw [setWorkers_of_ne hlocal hw] at hk
    obtain ⟨k₀, hk₀, rfl⟩ := Option.map_eq_some_iff.1 hk
    exact .inl ⟨k₀, hk₀, rfl⟩

theorem Registered.worker_none {s : System} {m : Move} {id : Ref} {r : Record} {es : List Effect} {w : Pid}
    (h : Registered s) (hlocal : Local (s.env m) id r es) (hw : setWorkers s.workers es w = none) :
    s.workers w = none := by
  refine Option.eq_none_iff_forall_not_mem.2 fun k hk => ?_
  rw [setWorkers_of_ne hlocal (ne_of_used (h.fresh w k hk).1), hk] at hw
  cases hw

namespace Reading

variable {s : System} {m : Move}

theorem start (limits : Limits) (clock : ℤ) : Reading (System.start limits clock) := by
  constructor <;> simp [System.start, readers]

/-- A message handler of one record; `b` is the system on the arrival of the message. -/
theorem put {b : System} {id : Ref} {r : Record} {x : Record × List Effect} {es : List Event}
    (h : Reading s) (ha : Answering s) (hreg : Registered s) (hr : s.owner.transfers.lookup id = some r)
    (hx : Sound r x) (hlocal : Local (s.env m) id r x.2) (hbind : x.1.binding = r.binding)
    (hworkers : b.workers = s.workers) (hhistory : b.history = s.history ++ es)
    (haccept : ∀ slot ref w t c, Event.accepted slot ref w t c ∉ es) (hreply : repliedTo es = [])
    (houtbox : ∀ id' r' w, id' ≠ id → s.owner.transfers.lookup id' = some r' → r'.worker = some w →
      b.outbox w = s.outbox w)
    (hserving : ∀ w k, r.worker = some w → s.workers w = some k → Serving (answers s.history w) (s.outbox w) k r →
      Serving (answers s.history w ++ told r x.2) (b.outbox w) (k.deliver (ordersTo w x.2)) x.1) :
    Reading (b.turn m (s.owner.put id x)) := by
  have hanswers : ∀ w, answers (b.history ++ replies x.2) w =
      answers s.history w ++ if r.worker = some w then told r x.2 else [] := by
    intro w
    rw [hhistory]
    exact ha.answers_put hr hx haccept hreply
  have hown : ∀ w k, r.worker = some w → s.workers w = some k →
      Serving (answers (b.history ++ replies x.2) w) (b.outbox w) (k.deliver (ordersTo w x.2)) x.1 := by
    intro w k hw hk
    rw [hanswers, if_pos hw]
    exact hserving w k hw hk ⟨h.flow id r w k hr hw hk, h.served w k hk⟩
  have hother : ∀ w, r.worker ≠ some w → answers (b.history ++ replies x.2) w = answers s.history w := by
    intro w hw
    rw [hanswers, if_neg hw, List.append_nil]
  have hworker : ∀ w k, setWorkers b.workers x.2 w = some k →
      (∃ k₀, s.workers w = some k₀ ∧ k = k₀.deliver (ordersTo w x.2)) ∨ s.workers w = none ∧ k.reader = none := by
    intro w k hk
    rw [hworkers] at hk
    exact hreg.worker_back hlocal hk
  have hthere : ∀ id' r' w, s.owner.transfers.lookup id' = some r' → r'.worker = some w → s.workers w ≠ none := by
    intro id' r' w hr' hw hnone
    obtain ⟨k, hk, -⟩ := hreg.worker id' r' w hr' hw
    rw [hnone] at hk
    cases hk
  refine ⟨fun id' r' w k hr' hw hk => ?_, fun w k hk => ?_, fun w hw => ?_⟩
  · change (s.owner.transfers.insert id x.1).lookup id' = some r' at hr'
    change Flow (answers (b.history ++ replies x.2) w) (b.outbox w) k r'
    by_cases hid : id' = id
    · subst hid
      rw [AList.lookup_insert] at hr'
      obtain rfl := Option.some.inj hr'
      have hw' : r.worker = some w := (congrArg Binding.worker hbind).symm.trans hw
      rcases hworker w k hk with ⟨k₀, hk₀, rfl⟩ | ⟨hnone, -⟩
      · exact (hown w k₀ hw' hk₀).flow
      · exact absurd hnone (hthere id' r w hr hw')
    · rw [AList.lookup_insert_ne hid] at hr'
      have hne : r.worker ≠ some w := fun hw' => hid (hreg.inj hr' hr hw hw')
      rcases hworker w k hk with ⟨k₀, hk₀, rfl⟩ | ⟨hnone, -⟩
      · rw [hother w hne, houtbox id' r' w hid hr' hw, hlocal.ordersTo_eq_nil hne]
        have hsame : k₀.deliver [] = k₀ := by simp [Worker.deliver]
        rw [hsame]
        exact h.flow id' r' w k₀ hr' hw hk₀
      · exact absurd hnone (hthere id' r' w hr' hw)
  · change Served (answers (b.history ++ replies x.2) w) k
    rcases hworker w k hk with ⟨k₀, hk₀, rfl⟩ | ⟨hnone, hreader⟩
    · by_cases hw : r.worker = some w
      · exact (hown w k₀ hw hk₀).served
      · rw [hother w hw]
        exact (h.served w k₀ hk₀).deliver _
    · have hw : r.worker ≠ some w := fun hw => hthere id r w hr hw hnone
      rw [hother w hw]
      unfold answers
      rw [h.known w hnone]
      rw [answersTo_eq_nil fun _ _ => List.not_mem_nil]
      exact Served.fresh hreader
  · change readers w (b.history ++ replies x.2) = []
    change setWorkers b.workers x.2 w = none at hw
    rw [hworkers] at hw
    rw [hhistory, readers_append, readers_append, readers_eq_nil haccept,
      readers_eq_nil fun _ _ _ _ _ => not_accepted_replies, h.known w (hreg.worker_none hlocal hw)]
    rfl

/-- A message that changes no record. -/
theorem quiet {b : System} {o : Owner} {es : List Event} (h : Reading s) (hworkers : b.workers = s.workers)
    (howner : o.transfers = s.owner.transfers) (hhistory : b.history = s.history ++ es)
    (haccept : ∀ slot ref w t c, Event.accepted slot ref w t c ∉ es) (hreply : repliedTo es = [])
    (houtbox : ∀ id' r' w, s.owner.transfers.lookup id' = some r' → r'.worker = some w → b.outbox w = s.outbox w) :
    Reading (b.turn m (o, [])) := by
  have hsame : (b.turn m (o, [])).history = s.history ++ es := by
    change b.history ++ [] = _
    rw [List.append_nil, hhistory]
  refine ⟨fun id r w k hr hw hk => ?_, fun w k hk => ?_, fun w hw => ?_⟩
  · change o.transfers.lookup id = some r at hr
    rw [howner] at hr
    change b.workers w = some k at hk
    rw [hworkers] at hk
    rw [hsame, answers_quiet haccept hreply]
    change Flow _ (b.outbox w) _ _
    rw [houtbox id r w hr hw]
    exact h.flow id r w k hr hw hk
  · change b.workers w = some k at hk
    rw [hworkers] at hk
    rw [hsame, answers_quiet haccept hreply]
    exact h.served w k hk
  · change b.workers w = none at hw
    rw [hworkers] at hw
    rw [hsame, readers_append, readers_eq_nil haccept, h.known w hw]
    rfl

/-- A call; `hback` and `hforth` tell which workers there are after it. -/
theorem called (h : Reading s) (ha : Answering s) {pid : Pid} {c : Call} {t : Turn}
    (hreg' : Registered (((s.log [.called ⟨pid, s.fresh⟩]).turn m t).log (acceptance c ⟨pid, s.fresh⟩ t)))
    (ht : CallTurn s.owner (s.env m) ⟨pid, s.fresh⟩ c t)
    (hback : ∀ w k, setWorkers s.workers t.2 w = some k →
      (∃ k₀ os, s.workers w = some k₀ ∧ k = k₀.deliver os) ∨ s.workers w = none ∧ k.reader = none)
    (hforth : ∀ w, setWorkers s.workers t.2 w = none → s.workers w = none)
    (hflow : ∀ id r w k, t.1.transfers.lookup id = some r → r.worker = some w →
      setWorkers s.workers t.2 w = some k → Flow (answers s.history w) (s.outbox w) k r) :
    Reading (((s.log [.called ⟨pid, s.fresh⟩]).turn m t).log (acceptance c ⟨pid, s.fresh⟩ t)) := by
  refine ⟨fun id r w k hr hw hk => ?_, fun w k hk => ?_, fun w hw => ?_⟩
  · rw [ha.answers_call ht]
    exact hflow id r w k hr hw hk
  · rw [ha.answers_call ht]
    rcases hback w k hk with ⟨k₀, os, hk₀, rfl⟩ | ⟨hnone, hreader⟩
    · exact (h.served w k₀ hk₀).deliver os
    · unfold answers
      rw [h.known w hnone]
      rw [answersTo_eq_nil fun _ _ => List.not_mem_nil]
      exact Served.fresh hreader
  · have hacc : readers w (acceptance c ⟨pid, s.fresh⟩ t) = [] := by
      rcases acceptance_cases c ⟨pid, s.fresh⟩ t with heq | ⟨-, slot, ref, r, hr, heq⟩
      · rw [heq]
        rfl
      · refine List.eq_nil_iff_forall_not_mem.2 fun d hd => ?_
        rw [heq] at hd
        obtain ⟨ref', t', hmem⟩ := mem_readers.1 hd
        obtain ⟨-, -, hworker, -⟩ := Event.accepted.inj (List.mem_singleton.1 hmem)
        obtain ⟨k, hk, -⟩ := hreg'.worker ref r w hr hworker.symm
        rw [hw] at hk
        cases hk
    change readers w (s.history ++ [.called ⟨pid, s.fresh⟩] ++ replies t.2 ++ acceptance c ⟨pid, s.fresh⟩ t) = []
    rw [readers_append, readers_append, readers_append, hacc,
      readers_eq_nil (l := replies t.2) fun _ _ _ _ _ => not_accepted_replies, h.known w (hforth w hw)]
    rfl

/-- A call that changes one record. -/
theorem change (h : Reading s) (ha : Answering s) (hreg : Registered s) {pid : Pid} {c : Call} {id : Ref}
    {r : Record} {x : Record × List Effect} (hr : s.owner.transfers.lookup id = some r)
    (hx : Called s.owner.limits (s.env m) ⟨pid, s.fresh⟩ c id r x)
    (hreg' : Registered (((s.log [.called ⟨pid, s.fresh⟩]).turn m (s.owner.put id x)).log
      (acceptance c ⟨pid, s.fresh⟩ (s.owner.put id x)))) :
    Reading (((s.log [.called ⟨pid, s.fresh⟩]).turn m (s.owner.put id x)).log
      (acceptance c ⟨pid, s.fresh⟩ (s.owner.put id x))) := by
  have hlocal : Local (s.env m) id r x.2 := .called hx
  have hother : ∀ id' r' w k, id' ≠ id → s.owner.transfers.lookup id' = some r' → r'.worker = some w →
      setWorkers s.workers x.2 w = some k → Flow (answers s.history w) (s.outbox w) k r' := by
    intro id' r' w k hid hr' hw hk
    obtain ⟨k₀, hk₀, -⟩ := hreg.worker id' r' w hr' hw
    rw [setWorkers_of_ne hlocal (ne_of_used (hreg.fresh w k₀ hk₀).1), hk₀,
      hlocal.ordersTo_eq_nil fun hw' => hid (hreg.inj hr' hr hw hw')] at hk
    obtain rfl : k₀.deliver [] = k := Option.some.inj hk
    have hsame : k₀.deliver [] = k₀ := by simp [Worker.deliver]
    rw [hsame]
    exact h.flow id' r' w k₀ hr' hw hk₀
  refine h.called ha hreg' (.change c id r x hr hx) (fun w k hk => ?_) (fun w hw => hreg.worker_none hlocal hw)
    fun id' r' w k hr' hw hk => ?_
  · rcases hreg.worker_back hlocal hk with ⟨k₀, hk₀, rfl⟩ | hnew
    · exact .inl ⟨k₀, _, hk₀, rfl⟩
    · exact .inr hnew
  change (s.owner.transfers.insert id x.1).lookup id' = some r' at hr'
  change setWorkers s.workers x.2 w = some k at hk
  by_cases hid : id' = id
  · subst hid
    rw [AList.lookup_insert] at hr'
    obtain rfl := Option.some.inj hr'
    by_cases hstarted : r.worker = none
    · obtain ⟨rfl, hes, hread, hstatus, -⟩ := hx.started (ha.formed id' r hr) hstarted hw
      have hnone : s.workers (s.env m).fresh = none := by
        refine Option.eq_none_iff_forall_not_mem.2 fun k₀ hk₀ => ?_
        exact ne_of_used (hreg.fresh _ k₀ hk₀).1 rfl
      have hanswers : answers s.history (s.env m).fresh = [] := by
        unfold answers
        rw [h.known _ hnone]
        exact answersTo_eq_nil fun _ _ => List.not_mem_nil
      rw [hes] at hk
      obtain rfl : ioWorker (s.env m) r.request r.context = k :=
        Option.some.inj ((Function.update_self (s.env m).fresh _ s.workers).symm.trans hk)
      rw [hanswers, hreg.idle _ hnone]
      refine ⟨fun hlive => ?_, fun _ => ⟨rfl, rfl, rfl, ?_, fun reader hreader => by cases hreader⟩, fun hne => ?_⟩
      · exact absurd (hstatus.symm.trans hlive) (by decide)
      · rintro ⟨rep, hmem, -⟩
        cases hmem
      · exact absurd hread hne
    · obtain ⟨w', hw'⟩ := Option.ne_none_iff_exists'.1 hstarted
      have hsame : x.1.worker = r.worker := hx.worker_of_started (ha.formed id' r hr) hstarted
      obtain rfl : w' = w := Option.some.inj (hw'.symm.trans (hsame.symm.trans hw))
      obtain ⟨k₀, hk₀, -⟩ := hreg.worker id' r w' hr hw'
      rw [setWorkers_of_ne hlocal (ne_of_used (hreg.fresh w' k₀ hk₀).1), hk₀] at hk
      obtain rfl := Option.some.inj hk
      exact (Serving.called (ha.formed id' r hr) ⟨h.flow id' r w' k₀ hr hw' hk₀, h.served w' k₀ hk₀⟩ hw' hx).flow
  · rw [AList.lookup_insert_ne hid] at hr'
    exact hother id' r' w k hid hr' hw hk

theorem not_accepted_arrival {e : Event} (he : ∀ slot ref w t c, e ≠ .accepted slot ref w t c) :
    ∀ slot ref w t c, Event.accepted slot ref w t c ∉ [e] := by
  intro slot ref w t c hmem
  exact he slot ref w t c (List.mem_singleton.1 hmem).symm

/-- Another worker's messages stay where they are. -/
theorem received_outbox {w w' : Pid} (rep : Report) (rest : List Report) (hne : w' ≠ w) :
    (s.received w rep rest).outbox w' = s.outbox w' :=
  Function.update_of_ne hne _ _

/-- The end of a process; `b` is the system on the arrival of the message. -/
theorem down {b : System} {monitor : Tag} {pid : Pid} {normal : Bool} {t : Turn} {es : List Event}
    (h : Reading s) (ha : Answering s) (hreg : Registered s)
    (ht : DownTurn s.owner (s.env m) monitor pid normal t)
    (hworkers : b.workers = s.workers) (hhistory : b.history = s.history ++ es)
    (haccept : ∀ slot ref w t c, Event.accepted slot ref w t c ∉ es) (hreply : repliedTo es = [])
    (houtbox : ∀ id' r' w, s.owner.transfers.lookup id' = some r' → r'.worker = some w →
      w ≠ pid ∨ r'.workerMonitor ≠ some monitor → b.outbox w = s.outbox w) :
    Reading (b.turn m t) := by
  cases ht with
  | joined id r hr hmonitor hworker =>
    have hsound : Sound r ((r.joined (s.env m) normal).released, (r.joined (s.env m) normal).finishWaiters (s.env m)) :=
      Sound.joined (by rw [hworker]; exact Option.some_ne_none pid) normal
    refine h.put ha hreg hr hsound (.joined normal) (joined_binding normal) hworkers hhistory haccept hreply ?_ ?_
    · intro id' r' w hid hr' hw
      refine houtbox id' r' w hr' hw (.inl ?_)
      rintro rfl
      exact hid (hreg.inj hr' hr hw hworker)
    · intro w k hw hk hs
      exact (Quits.joined normal).serving hs _
  | left id r hnone hr =>
    refine h.put ha hreg hr (Sound.beginRetirement (ha.formed id r hr) _) (.beginRetirement _)
      (beginRetirement_binding _) hworkers hhistory haccept hreply ?_ fun w k hw hk hs => ?_
    · intro id' r' w hid hr' hw
      exact houtbox id' r' w hr' hw (apart_of_findWorker hnone hr' hw)
    · exact (Quits.beginRetirement _).serving hs _
  | job hnone =>
    refine h.quiet hworkers rfl hhistory haccept hreply fun id' r' w hr' hw => ?_
    exact houtbox id' r' w hr' hw (apart_of_findWorker hnone hr' hw)

theorem moved {s' : System} (h : Reading s) (ha : Answering s) (hreg : Registered s) (hs : Moved s m s') :
    Reading s' := by
  have hreg' := hreg.moved hs
  cases hs with
  | call pid c t hin ht =>
    have hsame : setWorkers s.workers t.2 = s.workers → (∀ id r w, t.1.transfers.lookup id = some r →
        r.worker = some w → s.owner.transfers.lookup id = some r) →
        Reading (((s.log [.called ⟨pid, s.fresh⟩]).turn m t).log (acceptance c ⟨pid, s.fresh⟩ t)) := by
      intro hworkers hrecords
      refine h.called ha hreg' ht (fun w k hk => ?_) (fun w hw => ?_) fun id r w k hr hw hk => ?_
      · rw [hworkers] at hk
        exact .inl ⟨k, [], hk, by simp [Worker.deliver]⟩
      · rwa [hworkers] at hw
      · rw [hworkers] at hk
        exact h.flow id r w k (hrecords id r w hr hw) hw hk
    cases ht with
    | answer c reply jobs => exact hsame rfl fun _ _ _ hr _ => hr
    | reserve request context =>
      refine hsame rfl fun id r w hr hw => ?_
      change (s.owner.transfers.insert _ _).lookup id = some r at hr
      by_cases hid : id = context.transferRef
      · subst hid
        rw [AList.lookup_insert] at hr
        obtain rfl := Option.some.inj hr
        cases hw
      · rwa [AList.lookup_insert_ne hid] at hr
    | free id receipt r =>
      refine hsame (setWorkers_free r) fun id' r' w hr' hw => ?_
      change (s.owner.transfers.erase id).lookup id' = some r' at hr'
      by_cases hid : id' = id
      · subst hid
        rw [AList.lookup_erase] at hr'
        cases hr'
      · rwa [AList.lookup_erase_ne hid] at hr'
    | change c id r x hr hx => exact h.change ha hreg hr hx hreg'
  | report w k rep rest r x hk hout hdown hr hworker hx =>
    have hformed := ha.formed _ r hr
    refine h.put (b := s.received w rep rest) ha hreg hr
      (Sound.onReport hformed (by rw [hworker]; exact Option.some_ne_none w) hx) (.onReport hx)
      (onReport_binding hx) rfl rfl (not_accepted_arrival fun _ _ _ _ _ => Event.noConfusion) rfl ?_ ?_
    · intro id' r' w' hid hr' hw'
      refine received_outbox rep rest ?_
      rintro rfl
      exact hid (hreg.inj hr' hr hw' hworker)
    · intro w' k' hw' hk' hs
      obtain rfl : w = w' := Option.some.inj (hworker.symm.trans hw')
      rw [hout] at hs
      have hrest : (s.received w rep rest).outbox w = rest := Function.update_self _ _ _
      rw [hrest]
      exact hs.onReport hformed hdown hx
  | stray w k rep rest hk hout hdown hnone =>
    refine h.quiet (b := s.received w rep rest) rfl rfl rfl
      (not_accepted_arrival fun _ _ _ _ _ => Event.noConfusion) rfl fun id' r' w' hr' hw' => ?_
    refine received_outbox rep rest ?_
    rintro rfl
    obtain ⟨k', hk', href, -⟩ := hreg.worker id' r' w' hr' hw'
    obtain rfl := Option.some.inj (hk.symm.trans hk')
    rw [← href] at hr'
    exact hnone r' hr' hw'
  | ended w k normal rest t hk hout ht =>
    refine h.down (b := s.received w (.down normal) rest) ha hreg ht rfl rfl
      (not_accepted_arrival fun _ _ _ _ _ => Event.noConfusion) rfl fun id' r' w' hr' hw' hne => ?_
    refine received_outbox _ rest ?_
    rintro rfl
    obtain ⟨k', hk', -, hmonitor, -⟩ := hreg.worker id' r' w' hr' hw'
    obtain rfl := Option.some.inj (hk.symm.trans hk')
    exact hne.elim (fun h' => h' rfl) fun h' => h' hmonitor
  | down monitor pid normal t hin ht =>
    exact h.down (b := s) ha hreg ht rfl (List.append_nil _).symm (fun _ _ _ _ _ => List.not_mem_nil) rfl
      fun _ _ _ _ _ _ => rfl
  | timeout t timer r x hin htimer hr hx =>
    have hformed := ha.formed _ r hr
    refine h.put (b := s.fired t) ha hreg hr (Sound.onTimeout hformed hx) (.onTimeout rfl hx)
      (onTimeout_binding hx) rfl rfl (not_accepted_arrival fun _ _ _ _ _ => Event.noConfusion) rfl
      (fun _ _ _ _ _ _ => rfl) fun w k hw hk hs => ?_
    exact hs.onTimeout hformed hx w
  | late t timer =>
    exact h.quiet (b := s.fired t) rfl rfl rfl (not_accepted_arrival fun _ _ _ _ _ => Event.noConfusion) rfl
      fun _ _ _ _ _ => rfl
  | act w k a next hk hact =>
    have hacted := act_acted hact
    refine ⟨fun id r w' k' hr hw hk' => ?_, fun w' k' hk' => ?_, fun w' hw' => ?_⟩
    · change Flow (answers s.history w') _ k' r
      by_cases heq : w' = w
      · subst heq
        rw [System.acted_worker] at hk'
        obtain rfl := Option.some.inj hk'
        rw [System.acted_outbox]
        exact (h.flow id r w' k hr hw hk).acted (h.served w' k hk) hacted
      · rw [System.acted_worker_of_ne _ _ _ heq] at hk'
        rw [System.acted_outbox_of_ne _ _ _ heq]
        exact h.flow id r w' k' hr hw hk'
    · change Served (answers s.history w') k'
      by_cases heq : w' = w
      · subst heq
        rw [System.acted_worker] at hk'
        obtain rfl := Option.some.inj hk'
        exact (h.served w' k hk).acted hacted
      · rw [System.acted_worker_of_ne _ _ _ heq] at hk'
        exact h.served w' k' hk'
    · have heq : w' ≠ w := by
        rintro rfl
        rw [System.acted_worker] at hw'
        cases hw'
      rw [System.acted_worker_of_ne _ _ _ heq] at hw'
      exact h.known w' hw'

end Reading

end Loopex.Transfers
