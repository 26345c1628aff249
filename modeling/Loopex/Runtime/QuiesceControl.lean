import Loopex.Runtime.QuiesceFence

/-!
# Quiescing a runtime: the control's side of a fence

The runtime's control spawns the process of each fence, announces it to the phase owner once it waits,
relays what it reports, and tells of its end.  A reference that is asked for once, and not after it was
cancelled, is announced at most once and never after its cancellation is acknowledged.

* `handle_turn` — what one input does to one reference;
* `control_orderly` — the order in which control sends;
* `quiesce_fence_join` — the join, the classification and the admissions, together.
-/

namespace Loopex.Runtime.Quiesce

open Loopex.Erlang Loopex.Erlang.Term Loopex.System

/-! ## the fences of control -/

inductive FenceStatus where
  | starting | waiting | authorized | done | cancelling
  deriving DecidableEq

structure Fence where
  pid : Pid
  monitor : Ref
  phaseOwner : Pid
  sessionId : Session
  drainId : Bytes
  deadline : ℤ
  status : FenceStatus
  result : Term
  deriving DecidableEq

/-- The part of the control's state its fences live in. -/
structure Control where
  token : Ref
  quiescing : Option Bytes
  writerDomains : Option (List Session)
  fences : AList fun _ : Ref => Fence
  monitors : AList fun _ : Ref => Ref

/-- What control sends to a phase owner. -/
inductive Sent where
  | started (ref : Ref) (sessionId : Session) (pid : Pid)
  | head (ref : Ref) (sessionId : Session) (pid : Pid) (head : Term)
  | result (ref : Ref) (sessionId : Session) (pid : Pid) (result : Term)
  | closed (ref : Ref)
  | cancelled (ref : Ref)
  | refused (ref : Ref) (sessionId : Session)
  | failed (ref : Ref) (sessionId : Session)

/-- What control receives about fences.  `start` carries whether the owner is alive, and the process and
monitor a spawn returns. -/
inductive ControlInput where
  | start (token : Ref) (drainId : Bytes) (ref : Ref) (phaseOwner : Pid) (sessionId : Session) (deadline now : ℤ)
    (alive : Bool) (pid : Pid) (monitor : Ref)
  | waiting (ref : Ref) (pid : Pid)
  | authorize (token : Ref) (drainId : Bytes) (ref : Ref) (phaseOwner : Pid) (deadline now : ℤ)
  | cancel (token : Ref) (drainId : Bytes) (ref : Ref) (phaseOwner : Pid)
  | head (ref : Ref) (pid : Pid) (head : Term)
  | result (ref : Ref) (pid : Pid) (result : Term)
  | down (monitor : Ref) (pid : Pid)

/-- What control tells of the end of a fence. -/
def endOf (ref : Ref) (fence : Fence) : Sent :=
  match fence.status with
  | .cancelling => .cancelled ref
  | .done => .closed ref
  | _ => .failed ref fence.sessionId

/-- The handlers of control: the state after an input, and what is sent to whom. -/
def handle (state : Control) : ControlInput → Control × List (Pid × Sent)
  | .start token drainId ref phaseOwner sessionId deadline now alive pid monitor =>
    if token = state.token ∧ state.quiescing = some drainId ∧ sessionId ∈ state.writerDomains.getD [] ∧
        deadline > now ∧ alive ∧ ref ∉ state.fences ∧
        state.fences.entries.all fun e => e.2.sessionId ≠ sessionId then
      let fence : Fence := ⟨pid, monitor, phaseOwner, sessionId, drainId, deadline, .starting, nil⟩
      ({ state with
        fences := state.fences.insert ref fence
        monitors := state.monitors.insert monitor ref }, [])
    else (state, [(phaseOwner, .refused ref sessionId)])
  | .waiting ref pid =>
    match state.fences.lookup ref with
    | some fence =>
      if fence.pid = pid ∧ fence.status = .starting then
        ({ state with fences := state.fences.insert ref { fence with status := .waiting } },
          [(fence.phaseOwner, .started ref fence.sessionId pid)])
      else (state, [])
    | none => (state, [])
  | .authorize token drainId ref phaseOwner deadline now =>
    match state.fences.lookup ref with
    | some fence =>
      if fence.phaseOwner = phaseOwner ∧ fence.drainId = drainId ∧ fence.deadline = deadline ∧
          fence.status = .waiting ∧ token = state.token then
        let status := if deadline > now then FenceStatus.authorized else .cancelling
        ({ state with fences := state.fences.insert ref { fence with status } }, [])
      else (state, [])
    | none => (state, [])
  | .cancel token drainId ref phaseOwner =>
    match state.fences.lookup ref with
    | some fence =>
      if fence.phaseOwner = phaseOwner ∧ fence.drainId = drainId ∧ token = state.token then
        ({ state with fences := state.fences.insert ref { fence with status := .cancelling } }, [])
      else (state, [])
    | none =>
      if token = state.token ∧ state.quiescing = some drainId then (state, [(phaseOwner, .cancelled ref)])
      else (state, [])
  | .head ref pid head =>
    match state.fences.lookup ref, head with
    | some fence, .map _ =>
      if fence.pid = pid then (state, [(fence.phaseOwner, .head ref fence.sessionId pid head)]) else (state, [])
    | _, _ => (state, [])
  | .result ref pid result =>
    match state.fences.lookup ref with
    | some fence =>
      if fence.pid = pid then
        ({ state with fences := state.fences.insert ref { fence with result, status := .done } },
          [(fence.phaseOwner, .result ref fence.sessionId pid result)])
      else (state, [])
    | none => (state, [])
  | .down monitor pid =>
    match state.monitors.lookup monitor with
    | some ref =>
      let sent := match state.fences.lookup ref with
        | some fence => if fence.pid = pid then [(fence.phaseOwner, endOf ref fence)] else []
        | none => []
      ({ state with fences := state.fences.erase ref, monitors := state.monitors.erase monitor }, sent)
    | none => (state, [])

/-! ## one reference -/

namespace Sent

def announces (ref : Ref) : Sent → Bool
  | .started r _ _ => r = ref
  | _ => false

def cancels (ref : Ref) : Sent → Bool
  | .cancelled r => r = ref
  | _ => false

end Sent

namespace ControlInput

/-- Whether an input asks for the fence of a reference. -/
def starts (ref : Ref) : ControlInput → Bool
  | .start _ _ r _ _ _ _ _ _ _ => r = ref
  | _ => false

/-- Whether an input asks for its cancellation. -/
def cancels (ref : Ref) : ControlInput → Bool
  | .cancel _ _ r _ => r = ref
  | _ => false

end ControlInput

/-- What one input does to one reference: its fence before and after, and what is sent. -/
structure Turn (input : ControlInput) (ref : Ref) (before after : Option Fence) (sent : List (Pid × Sent)) :
    Prop where
  single : sent.length ≤ 1
  announced : ∀ m ∈ sent, m.2.announces ref = true → ∃ fence, before = some fence ∧ fence.status = .starting
  starting : ∀ fence, after = some fence → fence.status = .starting →
    (before = some fence ∨ input.starts ref = true) ∧ ∀ m ∈ sent, m.2.announces ref = false
  present : ∀ fence, after = some fence → (before.isSome = true ∨ input.starts ref = true) ∧
    ∀ m ∈ sent, m.2.cancels ref = false
  silent : before = none → input.starts ref = false → after = none ∧
    (input.cancels ref = false → ∀ m ∈ sent, m.2.cancels ref = false)

/-- An input that does not concern a reference. -/
theorem Turn.idle {input : ControlInput} {ref : Ref} {o : Option Fence} {sent : List (Pid × Sent)}
    (hs : sent.length ≤ 1) (ha : ∀ m ∈ sent, m.2.announces ref = false)
    (hc : ∀ m ∈ sent, m.2.cancels ref = false) : Turn input ref o o sent where
  single := hs
  announced m hm h := by rw [ha m hm] at h; cases h
  starting fence ho _ := ⟨.inl ho, ha⟩
  present fence ho := ⟨.inl (by rw [ho]; rfl), hc⟩
  silent ho _ := ⟨ho, fun _ => hc⟩

/-- A fence that is no longer starting is written back, and something else is told of it. -/
theorem Turn.moved {input : ControlInput} {ref : Ref} {fence fence' : Fence} {sent : List (Pid × Sent)}
    (hstatus : fence'.status ≠ .starting) (hs : sent.length ≤ 1)
    (ha : ∀ m ∈ sent, m.2.announces ref = true → fence.status = .starting)
    (hc : ∀ m ∈ sent, m.2.cancels ref = false) : Turn input ref (some fence) (some fence') sent where
  single := hs
  announced m hm h := ⟨fence, rfl, ha m hm h⟩
  starting f hf hst := absurd (Option.some.inj hf ▸ hst) hstatus
  present f _ := ⟨.inl rfl, hc⟩
  silent h := by cases h

/-- A fence is dropped, and its end is told. -/
theorem Turn.ended {input : ControlInput} {ref : Ref} {fence : Fence} {sent : List (Pid × Sent)}
    (hs : sent.length ≤ 1) (ha : ∀ m ∈ sent, m.2.announces ref = false) :
    Turn input ref (some fence) none sent where
  single := hs
  announced m hm h := by rw [ha m hm] at h; cases h
  starting f hf := by cases hf
  present f hf := by cases hf
  silent h := by cases h

section Turns

variable {state : Control} {ref r : Ref}

theorem lookup_insert_other {m : AList fun _ : Ref => Fence} {fence : Fence} (h : ref ≠ r) :
    (m.insert r fence).lookup ref = m.lookup ref := AList.lookup_insert_ne h

theorem endOf_announces (r : Ref) (fence : Fence) : (endOf r fence).announces ref = false := by
  unfold endOf
  split <;> rfl

theorem endOf_cancels (h : ref ≠ r) (fence : Fence) : (endOf r fence).cancels ref = false := by
  unfold endOf
  split <;> simp [Sent.cancels, h.symm]

/-- **What one input does to one reference.** -/
theorem handle_turn (state : Control) (input : ControlInput) (ref : Ref) :
    Turn input ref (state.fences.lookup ref) ((handle state input).1.fences.lookup ref) (handle state input).2 := by
  have hidle : Turn input ref (state.fences.lookup ref) (state.fences.lookup ref) [] :=
    .idle (by simp) (by simp) (by simp)
  cases input with
  | start token drainId r phaseOwner sessionId deadline now alive pid monitor =>
    simp only [handle]
    split
    · next hv =>
      by_cases hr : ref = r
      · subst hr
        have hnone : state.fences.lookup ref = none := AList.lookup_eq_none.2 hv.2.2.2.2.2.1
        rw [AList.lookup_insert, hnone]
        refine ⟨by simp, by simp, fun f hf hst => ?_, fun f hf => ?_, fun _ h => ?_⟩
        · exact ⟨.inr (by simp [ControlInput.starts]), by simp⟩
        · exact ⟨.inr (by simp [ControlInput.starts]), by simp⟩
        · simp [ControlInput.starts] at h
      · rw [lookup_insert_other hr]
        exact hidle
    · exact .idle (by simp) (by simp [Sent.announces]) (by simp [Sent.cancels])
  | waiting r pid =>
    simp only [handle]
    split
    · next fence hf =>
      split
      · next hc =>
        by_cases hr : ref = r
        · subst hr
          rw [AList.lookup_insert, hf]
          exact .moved (by simp) (by simp) (fun _ _ _ => hc.2) (by simp [Sent.cancels])
        · rw [lookup_insert_other hr]
          exact .idle (by simp) (by simp [Sent.announces, Ne.symm hr]) (by simp [Sent.cancels])
      · exact hidle
    · exact hidle
  | authorize token drainId r phaseOwner deadline now =>
    simp only [handle]
    split
    · next fence hf =>
      split
      · next hc =>
        by_cases hr : ref = r
        · subst hr
          rw [AList.lookup_insert, hf]
          refine .moved ?_ (by simp) (by simp) (by simp)
          dsimp only
          split <;> simp
        · rw [lookup_insert_other hr]
          exact hidle
      · exact hidle
    · exact hidle
  | cancel token drainId r phaseOwner =>
    simp only [handle]
    split
    · next fence hf =>
      split
      · by_cases hr : ref = r
        · subst hr
          rw [AList.lookup_insert, hf]
          exact .moved (by simp) (by simp) (by simp) (by simp)
        · rw [lookup_insert_other hr]
          exact hidle
      · exact hidle
    · next hf =>
      split
      · by_cases hr : ref = r
        · subst hr
          rw [hf]
          refine ⟨by simp, by simp [Sent.announces], by simp, by simp, fun _ _ => ⟨rfl, fun h => ?_⟩⟩
          simp [ControlInput.cancels] at h
        · exact .idle (by simp) (by simp [Sent.announces]) (by simp [Sent.cancels, Ne.symm hr])
      · exact hidle
  | head r pid head =>
    simp only [handle]
    split
    · next fence _ hf =>
      split
      · exact .idle (by simp) (by simp [Sent.announces]) (by simp [Sent.cancels])
      · exact hidle
    · exact hidle
  | result r pid result =>
    simp only [handle]
    split
    · next fence hf =>
      split
      · by_cases hr : ref = r
        · subst hr
          rw [AList.lookup_insert, hf]
          exact .moved (by simp) (by simp) (by simp [Sent.announces]) (by simp [Sent.cancels])
        · rw [lookup_insert_other hr]
          exact .idle (by simp) (by simp [Sent.announces]) (by simp [Sent.cancels])
      · exact hidle
    · exact hidle
  | down monitor pid =>
    simp only [handle]
    split
    · next r hm =>
      by_cases hr : ref = r
      · subst hr
        dsimp only
        rw [AList.lookup_erase]
        cases hf : state.fences.lookup ref with
        | none => exact .idle (by simp) (by simp) (by simp)
        | some fence =>
          dsimp only
          split
          · exact .ended (by simp) (by simp [endOf_announces])
          · exact .ended (by simp) (by simp)
      · dsimp only
        rw [AList.lookup_erase_ne hr]
        cases hf : state.fences.lookup r with
        | none => exact .idle (by simp) (by simp) (by simp)
        | some fence =>
          dsimp only
          split
          · exact .idle (by simp) (by simp [endOf_announces]) (by simp [endOf_cancels hr])
          · exact .idle (by simp) (by simp) (by simp)
    · exact hidle

end Turns

/-! ## the order of what is sent -/

/-- The state of control and all it sent. -/
abbrev Served := Control × List (Pid × Sent)

/-- One input, with what it makes control send added to the rest. -/
def serve (s : Served) (input : ControlInput) : Served :=
  ((handle s.1 input).1, s.2 ++ (handle s.1 input).2)

/-- The reference is asked for once, and not after its cancellation is. -/
def AskedOnce (inputs : List ControlInput) (ref : Ref) : Prop :=
  inputs.Pairwise fun a b => a.starts ref = true ∨ a.cancels ref = true → b.starts ref = false

/-- No announcement of the reference after another, nor after its cancellation. -/
def SentOrderly (sent : List (Pid × Sent)) (ref : Ref) : Prop :=
  sent.Pairwise fun a b => a.2.announces ref = true ∨ a.2.cancels ref = true → b.2.announces ref = false

/-- What has been sent of a reference, by the fence it has. -/
structure SentSoFar (inputs : List ControlInput) (s : Served) (ref : Ref) : Prop where
  unasked : (∀ i ∈ inputs, i.starts ref = false ∧ i.cancels ref = false) → s.1.fences.lookup ref = none ∧
    ∀ m ∈ s.2, m.2.announces ref = false ∧ m.2.cancels ref = false
  starting : ∀ fence, s.1.fences.lookup ref = some fence → fence.status = .starting →
    ∀ m ∈ s.2, m.2.announces ref = false
  present : ∀ fence, s.1.fences.lookup ref = some fence → ∀ m ∈ s.2, m.2.cancels ref = false
  orderly : SentOrderly s.2 ref

theorem SentSoFar.serve {inputs : List ControlInput} {s : Served} {ref : Ref} (h : SentSoFar inputs s ref)
    {input : ControlInput} (hasked : AskedOnce (inputs ++ [input]) ref) :
    SentSoFar (inputs ++ [input]) (serve s input) ref := by
  have hturn := handle_turn s.1 input ref
  -- an input that asks for the reference is the first about it
  have hfirst : input.starts ref = true → ∀ m ∈ s.2, m.2.announces ref = false ∧ m.2.cancels ref = false := by
    intro hs
    refine (h.unasked fun i hi => ?_).2
    have hpair := (List.pairwise_append.1 hasked).2.2 i hi input (by simp)
    constructor <;> by_contra hc <;> simp_all
  refine ⟨fun hno => ?_, fun fence hf hst m hm => ?_, fun fence hf m hm => ?_, ?_⟩
  · obtain ⟨hnone, hsent⟩ := h.unasked fun i hi => hno i (List.mem_append_left _ hi)
    obtain ⟨hs, hc⟩ := hno input (by simp)
    rw [hnone] at hturn
    obtain ⟨hafter, hcancel⟩ := hturn.silent rfl hs
    refine ⟨hafter, fun m hm => ?_⟩
    rcases List.mem_append.1 hm with hm | hm
    · exact hsent m hm
    · refine ⟨?_, hcancel hc m hm⟩
      by_contra ha
      obtain ⟨f, hf, -⟩ := hturn.announced m hm (by simpa using ha)
      cases hf
  · obtain ⟨hbefore, hout⟩ := hturn.starting fence hf hst
    rcases List.mem_append.1 hm with hm | hm
    · rcases hbefore with hb | hb
      · exact h.starting fence hb hst m hm
      · exact (hfirst hb m hm).1
    · exact hout m hm
  · obtain ⟨hbefore, hout⟩ := hturn.present fence hf
    rcases List.mem_append.1 hm with hm | hm
    · rcases hbefore with hb | hb
      · obtain ⟨f, hb⟩ := Option.isSome_iff_exists.1 hb
        exact h.present f hb m hm
      · exact (hfirst hb m hm).2
    · exact hout m hm
  · refine List.pairwise_append.2 ⟨h.orderly, ?_, fun a ha b hb hab => ?_⟩
    · have hlen := hturn.single
      rcases hsent : (handle s.1 input).2 with _ | ⟨m, _ | ⟨m', rest⟩⟩
      · exact .nil
      · exact List.pairwise_singleton _ _
      · rw [hsent] at hlen
        simp at hlen
    · by_contra hann
      obtain ⟨f, hf, hst⟩ := hturn.announced b hb (by simpa using hann)
      rcases hab with hab | hab
      · rw [h.starting f hf hst a ha] at hab
        cases hab
      · rw [h.present f hf a ha] at hab
        cases hab

/-- **Control announces a reference at most once, and not after it acknowledged its cancellation.** -/
theorem control_orderly {state : Control} (hempty : state.fences = ∅) {inputs : List ControlInput} {ref : Ref}
    (hasked : AskedOnce inputs ref) : SentOrderly (inputs.foldl serve (state, [])).2 ref := by
  suffices h : SentSoFar inputs (inputs.foldl serve (state, [])) ref from h.orderly
  induction inputs using List.reverseRecOn with
  | nil => exact ⟨fun _ => by simp [hempty], by simp, by simp, .nil⟩
  | append_singleton inputs input ih =>
    rw [List.foldl_append]
    exact (ih (List.pairwise_append.1 hasked).1).serve hasked

/-! ## control and its owner -/

/-- What of a message control sent; the end of a process and a timeout come from elsewhere. -/
def Notice.sent : Notice → Option Sent
  | .started ref sessionId pid _ => some (.started ref sessionId pid)
  | .head ref sessionId pid t => some (.head ref sessionId pid t)
  | .result ref sessionId pid t => some (.result ref sessionId pid t)
  | .closed ref => some (.closed ref)
  | .cancelled ref => some (.cancelled ref)
  | .refused ref sessionId => some (.refused ref sessionId)
  | .failed ref sessionId => some (.failed ref sessionId)
  | .down _ _ | .exit _ | .timeout => none

theorem Notice.sent_announces {ref : Ref} {notice : Notice} (h : notice.announces ref = true) :
    ∃ m, notice.sent = some m ∧ m.announces ref = true := by
  cases notice <;> simp_all [Notice.announces, Notice.sent, Sent.announces]

theorem Notice.sent_cancels {ref : Ref} {notice : Notice} (h : notice.cancels ref = true) :
    ∃ m, notice.sent = some m ∧ m.cancels ref = true := by
  cases notice <;> simp_all [Notice.cancels, Notice.sent, Sent.cancels]

/-- An owner whose mailbox keeps the order of what control sent has the announcements in order. -/
theorem orderly_of_sent {sent : List (Pid × Sent)} {past : List Notice} {ref : Ref} (h : SentOrderly sent ref)
    (hs : (past.filterMap Notice.sent).Sublist (sent.map Prod.snd)) : Orderly past ref := by
  have hmap : (sent.map Prod.snd).Pairwise fun a b : Sent =>
      a.announces ref = true ∨ a.cancels ref = true → b.announces ref = false := List.pairwise_map.2 h
  refine (List.pairwise_filterMap.1 (hmap.sublist hs)).imp fun {a b} hab hd => ?_
  by_contra hb
  obtain ⟨y, hy, hyb⟩ := Notice.sent_announces (by simpa using hb)
  rcases hd with ha | ha
  · obtain ⟨x, hx, hxa⟩ := Notice.sent_announces ha
    rw [hab x hx y hy (.inl hxa)] at hyb
    cases hyb
  · obtain ⟨x, hx, hxa⟩ := Notice.sent_cancels ha
    rw [hab x hx y hy (.inr hxa)] at hyb
    cases hyb

/-! ## the phase owner -/

/-- `projection_keys`. -/
def projectionKeys (entries : List Entry) : List Session := sortSessions (entries.map Entry.sessionId)

/-- The end of `phase_owner`: the census, the second projection of the same sessions, and their fences. -/
def classifyAndFence (context : Context) (entries projected : List Entry) (admissions : Admissions)
    (censusOuter censusStart : ℤ) (census : List (WorkerEvent StatusReply × ℤ)) (fenceStart : ℤ)
    (events : List Event) : Outcome (Classification × (AList fun _ : Session => Term) × List Event) :=
  match classifySessions entries admissions censusOuter censusStart census with
  | .ok c =>
    if projectionKeys projected = projectionKeys entries then
      match awaitFences context fenceStart (fenceOperations projected) false events with
      | .ok (fences, rest) => .ok (applyFenceClassification c fences, fences, rest)
      | .unavailable => .unavailable
      | .callerLost => .callerLost
      | .crashed => .crashed
      | .waiting => .waiting
    else .unavailable
  | .unavailable => .unavailable
  | .callerLost => .callerLost
  | .crashed => .crashed
  | .waiting => .waiting

theorem mem_of_projectionKeys {entries projected : List Entry}
    (h : projectionKeys projected = projectionKeys entries) (s : Session) :
    s ∈ projected.map Entry.sessionId ↔ s ∈ entries.map Entry.sessionId := by
  have hs : s ∈ projectionKeys projected ↔ s ∈ projectionKeys entries := by rw [h]
  exact (mem_sortSessions.symm.trans hs).trans mem_sortSessions

/-- What the fences answer for is what was asked. -/
theorem mem_awaitFences {context : Context} {now : ℤ} {entries : List Entry} {events rest : List Event}
    {results : AList fun _ : Session => Term}
    (h : awaitFences context now (fenceOperations entries) false events = .ok (results, rest)) (s : Session) :
    s ∈ results ↔ s ∈ entries.map Entry.sessionId := by
  have hj : AllJoined [] (fenceOperations entries) := by
    intro ref op ho
    rw [lookup_fenceOperations ho]
    exact joined_initial _ _
  obtain ⟨consumed, operations', -, rfl, -, hs, -⟩ := awaitFences_spec hj h
  rw [mem_fenceResults, hs, sessionOf_fenceOperations]

theorem classifyAndFence_partition {context : Context} {entries projected : List Entry} {admissions : Admissions}
    {censusOuter censusStart fenceStart : ℤ} {census : List (WorkerEvent StatusReply × ℤ)}
    {events rest : List Event} {c : Classification} {fences : AList fun _ : Session => Term}
    (h : classifyAndFence context entries projected admissions censusOuter censusStart census fenceStart events =
      .ok (c, fences, rest)) : Partition c (entries.map Entry.sessionId) fences := by
  unfold classifyAndFence at h
  split at h
  · next c' hc =>
    split at h
    · next hk =>
      split at h
      · next fences' rest' hf =>
        cases h
        obtain ⟨results, rfl, hr⟩ := classifySessions_eq_ok hc
        exact applyFenceClassification_partition hr fun s =>
          (mem_awaitFences hf s).trans (mem_of_projectionKeys hk s)
      all_goals cases h
    · cases h
  all_goals cases h

/-- **What a joined set of fences means**, over any order of messages. -/
theorem awaitFences_joined {context : Context} {now : ℤ} {entries : List Entry} {events rest : List Event}
    {results : AList fun _ : Session => Term}
    (h : awaitFences context now (fenceOperations entries) false events = .ok (results, rest)) :
    ∃ consumed, events = consumed ++ rest ∧
      (∀ ref s, sessionOf (fenceOperations entries) ref = some s →
        FenceJoined (consumed.map Event.notice) ref s ∧ ∃ t, results.lookup s = some t ∧ t ≠ nil) ∧
      ∀ s, results.lookup s = some (sym "committed") →
        ∃ ref, sessionOf (fenceOperations entries) ref = some s ∧ ∃ pid monitor,
          [Notice.started ref s pid monitor, .result ref s pid (sym "committed")].Sublist
            (consumed.map Event.notice) := by
  have hj : AllJoined [] (fenceOperations entries) := by
    intro ref op ho
    rw [lookup_fenceOperations ho]
    exact joined_initial _ _
  obtain ⟨consumed, operations', rfl, rfl, hc, hs, hj'⟩ := awaitFences_spec hj h
  refine ⟨consumed, rfl, fun ref s hsession => ?_, fun s hcommitted => ?_⟩
  · obtain ⟨op, ho, rfl⟩ := Option.map_eq_some_iff.1 (hs ▸ hsession)
    obtain ⟨-, hdown, hclosed⟩ := fencesComplete_lookup hc ho
    have hjoined := hj' ref op ho
    refine ⟨⟨hjoined.closed hclosed, hjoined.gone hdown⟩, ?_⟩
    have hmem : op.sessionId ∈ fenceResults operations' := mem_fenceResults.2 ⟨ref, by simp [sessionOf, ho]⟩
    obtain ⟨t, ht⟩ := Option.isSome_iff_exists.1 (AList.lookup_isSome.2 hmem)
    obtain ⟨ref', op', ho', -, rfl⟩ := lookup_fenceResults ht
    exact ⟨_, ht, (fencesComplete_lookup hc ho').1⟩
  · obtain ⟨ref, op, ho, rfl, hres⟩ := lookup_fenceResults hcommitted
    obtain ⟨pid, monitor, hsub⟩ := (hj' ref op ho).committed hres
    exact ⟨ref, by rw [← hs]; simp [sessionOf, ho], pid, monitor, hsub⟩

/-- **The fence join, the classification and the admissions.**  Every fence the owner returns with has a result,
is closed, and has no process left to join; a committed session was reported so by a process announced for its
fence; in the order in which control sends, the process seen to be gone is the one announced.  The frozen
sessions are sorted into three disjoint lists, and only a fenced one is settled or absent.  A definitive
admission stays. -/
theorem quiesce_fence_join :
    (∀ context now entries events results rest,
      awaitFences context now (fenceOperations entries) false events = .ok (results, rest) →
      ∃ consumed, events = consumed ++ rest ∧
        (∀ ref s, sessionOf (fenceOperations entries) ref = some s →
          (∃ t, results.lookup s = some t ∧ t ≠ nil) ∧ FenceJoined (consumed.map Event.notice) ref s ∧
          (Orderly (consumed.map Event.notice) ref →
            (∃ pid monitor, [Notice.started ref s pid monitor, .down monitor pid].Sublist
                (consumed.map Event.notice) ∧
              ∀ p m, .started ref s p m ∈ consumed.map Event.notice → p = pid ∧ m = monitor) ∨
            .refused ref s ∈ consumed.map Event.notice ∨
            (.cancelled ref ∈ consumed.map Event.notice ∧
              ∀ p m, .started ref s p m ∉ consumed.map Event.notice))) ∧
        ∀ s, results.lookup s = some (sym "committed") →
          ∃ ref, sessionOf (fenceOperations entries) ref = some s ∧ ∃ pid monitor,
            [Notice.started ref s pid monitor, .result ref s pid (sym "committed")].Sublist
              (consumed.map Event.notice)) ∧
    (∀ (state : Control) inputs ref past, state.fences = ∅ → AskedOnce inputs ref →
      (past.filterMap Notice.sent).Sublist ((inputs.foldl serve (state, [])).2.map Prod.snd) →
      Orderly past ref) ∧
    (∀ context entries projected admissions censusOuter censusStart census fenceStart events c fences rest,
      classifyAndFence context entries projected admissions censusOuter censusStart census fenceStart events =
        .ok (c, fences, rest) → Partition c (entries.map Entry.sessionId) fences) ∧
    ∀ (admissions : Admissions) entries notices session a, admissions.lookup session = some a →
      definitiveAdmission a = true →
      (collectAdmissionNotices admissions entries notices).lookup session = some a := by
  refine ⟨fun context now entries events results rest h => ?_, fun state inputs ref past he ha hs => ?_,
    fun _ _ _ _ _ _ _ _ _ _ _ _ h => classifyAndFence_partition h,
    fun _ _ notices _ _ h ha => collectAdmissionNotices_definitive h ha notices⟩
  · obtain ⟨consumed, hsplit, hjoined, hcommitted⟩ := awaitFences_joined h
    refine ⟨consumed, hsplit, fun ref s hs => ?_, hcommitted⟩
    obtain ⟨hf, hresult⟩ := hjoined ref s hs
    exact ⟨hresult, hf, hf.gone.orderly⟩
  · exact orderly_of_sent (control_orderly he ha) hs

/-- A fence that is announced, commits, is closed and ends. -/
def committedFence : List Event :=
  [⟨.started 0 (utf8 "a") 7 8, 0, 0⟩, ⟨.result 0 (utf8 "a") 7 (sym "committed"), 0, 0⟩, ⟨.closed 0, 0, 0⟩,
    ⟨.down 8 7, 0, 0⟩]

theorem quiesce_fence_join_committed : ∃ consumed, committedFence = consumed ++ [] ∧
    FenceJoined (consumed.map Event.notice) 0 (utf8 "a") := by
  obtain ⟨consumed, hsplit, hjoined, -⟩ :=
    quiesce_fence_join.1 ⟨1, 2, 3, 4, 100, 200⟩ 0 [⟨utf8 "a", nil⟩] committedFence _ [] rfl
  exact ⟨consumed, hsplit, (hjoined 0 (utf8 "a") (by decide +kernel)).2.1⟩

/-- Two sessions of one drain. -/
def twoEntries : List Entry := [⟨utf8 "a", nil⟩, ⟨utf8 "b", nil⟩]

/-- The fence of the first is announced after its cancellation was acknowledged, that of the other refused. -/
def announcedLate : List Event :=
  [⟨.cancelled 0, 0, 0⟩, ⟨.started 0 (utf8 "a") 7 8, 0, 0⟩, ⟨.refused 1 (utf8 "b"), 0, 0⟩]

/-- **An announcement after the cancellation is not joined**: the owner returns, and never saw the announced
process go. -/
theorem quiesce_fence_join_fails :
    (∃ results, awaitFences ⟨1, 2, 3, 4, 100, 200⟩ 0 (fenceOperations twoEntries) false announcedLate =
      .ok (results, [])) ∧
    sessionOf (fenceOperations twoEntries) 0 = some (utf8 "a") ∧
    .started 0 (utf8 "a") 7 8 ∈ announcedLate.map Event.notice ∧
    (∀ monitor pid, .down monitor pid ∉ announcedLate.map Event.notice) ∧
    ∀ s, .refused 0 s ∉ announcedLate.map Event.notice := by
  refine ⟨⟨_, rfl⟩, by decide +kernel, by decide +kernel, ?_, ?_⟩ <;> simp [announcedLate]

end Loopex.Runtime.Quiesce
