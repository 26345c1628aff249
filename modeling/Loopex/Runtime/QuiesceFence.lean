import Loopex.Runtime.Quiesce

/-!
# Quiescing a runtime: the fence join

For every session the phase owner has the runtime's control fence its writer, and waits until each fence
has a result, is closed, and the process announced for it is gone.  `receive` is one round of that wait;
`awaitFences` the loop.

* `receive_spec` — what one message can do to one operation (`Change`);
* `Joined` — what the messages so far say of an operation, kept by every round;
* `awaitFences_spec` — what the loop returns with, over any order of messages.
-/

namespace Loopex.Runtime.Quiesce

open Loopex.Erlang Loopex.Erlang.Term Loopex.System

/-! ## the operations -/

/-- A fence as its owner knows it; `nil` for a head or a result that has not come. -/
structure Operation where
  sessionId : Session
  pid : Option Pid
  monitor : Option Ref
  head : Term
  result : Term
  down : Bool
  closed : Bool
  deriving DecidableEq

abbrev Operations := AList fun _ : Ref => Operation

def Operation.initial (sessionId : Session) : Operation :=
  ⟨sessionId, none, none, nil, nil, false, false⟩

/-- What the owner receives.  `started` carries the monitor the owner takes of the process; `timeout` is the
`after` of its `receive`. -/
inductive Notice where
  | started (ref : Ref) (sessionId : Session) (pid : Pid) (monitor : Ref)
  | head (ref : Ref) (sessionId : Session) (pid : Pid) (head : Term)
  | result (ref : Ref) (sessionId : Session) (pid : Pid) (result : Term)
  | closed (ref : Ref)
  | cancelled (ref : Ref)
  | refused (ref : Ref) (sessionId : Session)
  | failed (ref : Ref) (sessionId : Session)
  | down (monitor : Ref) (pid : Pid)
  | exit (pid : Pid)
  | timeout
  deriving DecidableEq

/-- How a fence is to treat the abort of its session. -/
inductive AbortResolution where
  | known | unresolved | unknown (result : Term)

/-- What the owner asks of control, and whom it kills. -/
inductive Command where
  | start (ref : Ref) (sessionId : Session) (deadline : ℤ) (resolution : AbortResolution)
  | authorize (ref : Ref) (deadline : ℤ)
  | cancel (ref : Ref)
  | kill (pid : Pid)

/-- The processes the owner depends on, and its two deadlines. -/
structure Context where
  caller : Pid
  callerMonitor : Ref
  control : Pid
  controlMonitor : Ref
  workDeadline : ℤ
  outerDeadline : ℤ

/-- `fences_complete?`. -/
def fencesComplete (operations : Operations) : Bool :=
  operations.entries.all fun e => e.2.result ≠ nil && e.2.down && e.2.closed

/-- `update_fence_operation`. -/
def updateFenceOperation (operations : Operations) (ref : Ref) (sessionId : Session)
    (update : Operation → Operation) : Operations :=
  match operations.lookup ref with
  | some op => if op.sessionId = sessionId then operations.insert ref (update op) else operations
  | none => operations

/-- `mark_fence_closed`. -/
def markFenceClosed (operations : Operations) (ref : Ref) : Operations :=
  match operations.lookup ref with
  | some op => operations.insert ref { op with closed := true }
  | none => operations

/-- `mark_fence_cancelled`: without an announced process there is none to join. -/
def markFenceCancelled (operations : Operations) (ref : Ref) : Operations :=
  match operations.lookup ref with
  | some op =>
    if op.pid = none then operations.insert ref { op with closed := true, down := true }
    else operations.insert ref { op with closed := true }
  | none => operations

/-- `fence_unknown`. -/
def fenceUnknown (op : Operation) : Term :=
  if op.head = nil then .tuple [sym "unknown", sym "no_head"] else .tuple [sym "unknown", sym "fence", op.head]

/-- `ensure_cutoff_fence_result`. -/
def ensureCutoffFenceResult (operations : Operations) (ref : Ref) : Operations :=
  match operations.lookup ref with
  | some op => if op.result = nil then operations.insert ref { op with result := fenceUnknown op } else operations
  | none => operations

/-- `fence_down`; `none` where no fence has the monitor. -/
def fenceDown (operations : Operations) (monitor : Ref) (pid : Pid) : Option Operations :=
  (operations.entries.find? fun e => e.2.monitor = some monitor ∧ e.2.pid = some pid).map fun e =>
    operations.insert e.1 { e.2 with down := true }

/-- `operation.result || fence_unknown(operation)`. -/
def cutoffResult (op : Operation) : Term :=
  if op.result = nil ∨ op.result = sym "false" then fenceUnknown op else op.result

/-- `cancel_fences`. -/
def cancelFences (operations : Operations) : Operations × List Command :=
  (mapValues (fun op => { op with result := cutoffResult op }) operations,
    operations.entries.flatMap fun e => (e.2.pid.map Command.kill).toList ++ [.cancel e.1])

/-! ## the loop -/

/-- Where a round of the loop leads. -/
inductive Next where
  | loop (operations : Operations) (cutoff : Bool) (sent : List Command)
  | unavailable (sent : List Command)
  | callerLost (sent : List Command)

/-- One message, received at `now`. -/
def receive (context : Context) (operations : Operations) (cutoff : Bool) (now : ℤ) : Notice → Next
  | .started ref sessionId pid monitor =>
    let sent := match operations.lookup ref with
      | some op =>
        if op.sessionId = sessionId then
          if now < context.workDeadline then [.authorize ref context.workDeadline] else [.kill pid, .cancel ref]
        else []
      | none => []
    .loop (updateFenceOperation operations ref sessionId fun op =>
      { op with pid := some pid, monitor := some monitor }) cutoff sent
  | .head ref sessionId pid head =>
    .loop (updateFenceOperation operations ref sessionId fun op =>
      if op.pid = some pid then { op with head } else op) cutoff []
  | .result ref sessionId pid result =>
    .loop (updateFenceOperation operations ref sessionId fun op =>
      if op.pid = some pid then { op with result } else op) cutoff []
  | .closed ref => .loop (markFenceClosed operations ref) cutoff []
  | .cancelled ref => .loop (markFenceCancelled (ensureCutoffFenceResult operations ref) ref) cutoff []
  | .refused ref sessionId =>
    .loop (updateFenceOperation operations ref sessionId fun op =>
      { op with result := fenceUnknown op, down := true, closed := true }) cutoff []
  | .failed ref sessionId =>
    .loop (updateFenceOperation operations ref sessionId fun op =>
      { op with result := fenceUnknown op, closed := true }) cutoff []
  | .down monitor pid =>
    match fenceDown operations monitor pid with
    | some operations' => .loop operations' cutoff []
    | none =>
      -- `fence_control_down`
      if monitor = context.callerMonitor ∧ pid = context.caller then .callerLost (cancelFences operations).2
      else if monitor = context.controlMonitor ∧ pid = context.control then
        .unavailable (cancelFences operations).2
      else .loop operations cutoff []
  | .exit _ => .loop operations cutoff []
  | .timeout =>
    if cutoff then .unavailable []
    else .loop (cancelFences operations).1 true (cancelFences operations).2

/-- A message with the clock when it is received and when the loop goes round. -/
structure Event where
  notice : Notice
  now : ℤ
  next : ℤ

/-- The results by session. -/
def fenceResults (operations : Operations) : AList fun _ : Session => Term :=
  newTable (operations.entries.map fun e => (e.2.sessionId, e.2.result))

/-- `await_fences`: the results, and the messages it leaves in the mailbox. -/
def awaitFences (context : Context) (now : ℤ) (operations : Operations) (cutoff : Bool) :
    List Event → Outcome ((AList fun _ : Session => Term) × List Event)
  | [] =>
    if operations.entries.isEmpty then .ok (∅, [])
    else if fencesComplete operations then withinOuter context.outerDeadline now (fenceResults operations, [])
    else .waiting
  | event :: events =>
    if operations.entries.isEmpty then .ok (∅, event :: events)
    else if fencesComplete operations then
      withinOuter context.outerDeadline now (fenceResults operations, event :: events)
    else match receive context operations cutoff event.now event.notice with
    | .loop operations' cutoff' _ => awaitFences context event.next operations' cutoff' events
    | .unavailable _ => .unavailable
    | .callerLost _ => .callerLost

/-- The abort resolution of `fence_writer_domains`. -/
def abortResolution : Option Admission → AbortResolution
  | some (.unknown result) => .unknown result
  | some (.candidate result) => .unknown result
  | some (.error _) => .unresolved
  | _ => .known

/-- The operations of `fence_writer_domains`, numbered in the order they are asked for. -/
def fenceOperations (entries : List Entry) : Operations :=
  newTable (entries.zipIdx.map fun e => (e.2, Operation.initial e.1.sessionId))

/-- What `fence_writer_domains` asks of control. -/
def fenceStarts (context : Context) (entries : List Entry) (admissions : Admissions) : List Command :=
  entries.zipIdx.map fun e =>
    .start e.2 e.1.sessionId context.workDeadline (abortResolution (admissions.lookup e.1.sessionId))

/-! ## one round -/

/-- What a message can do to the operation of a reference. -/
inductive Change (notice : Notice) (ref : Ref) (op : Operation) : Operation → Prop
  | same : (∀ pid monitor, notice ≠ .started ref op.sessionId pid monitor) → Change notice ref op op
  | started {pid : Pid} {monitor : Ref} : notice = .started ref op.sessionId pid monitor →
    Change notice ref op { op with pid := some pid, monitor := some monitor }
  | head {pid : Pid} {head : Term} : notice = .head ref op.sessionId pid head →
    Change notice ref op { op with head }
  | result {pid : Pid} {result : Term} : notice = .result ref op.sessionId pid result → op.pid = some pid →
    Change notice ref op { op with result }
  | closed : notice = .closed ref → Change notice ref op { op with closed := true }
  | cancelled {result : Term} {down : Bool} : notice = .cancelled ref →
    (result = op.result ∨ result = fenceUnknown op) → (down = op.down ∨ op.pid = none) →
    Change notice ref op { op with result, down, closed := true }
  | refused : notice = .refused ref op.sessionId →
    Change notice ref op { op with result := fenceUnknown op, down := true, closed := true }
  | failed : notice = .failed ref op.sessionId →
    Change notice ref op { op with result := fenceUnknown op, closed := true }
  | down {monitor : Ref} {pid : Pid} : notice = .down monitor pid → op.monitor = some monitor →
    op.pid = some pid → Change notice ref op { op with down := true }
  | cutoff {result : Term} : notice = .timeout → (result = op.result ∨ result = fenceUnknown op) →
    Change notice ref op { op with result }

/-- Every operation stays, changed as the message can change it. -/
def Changed (notice : Notice) (operations operations' : Operations) : Prop :=
  ∀ ref, Option.Rel (Change notice ref) (operations.lookup ref) (operations'.lookup ref)

section Round

variable {notice : Notice} {operations operations' : Operations} {ref : Ref} {op op' : Operation}

theorem changed_refl (h : ∀ ref op pid monitor, operations.lookup ref = some op →
    notice ≠ .started ref op.sessionId pid monitor) : Changed notice operations operations := by
  intro ref
  cases ho : operations.lookup ref with
  | none => exact .none
  | some op => exact .some (.same fun pid monitor => h ref op pid monitor ho)

theorem changed_insert (hother : ∀ r s pid monitor, notice = .started r s pid monitor → r = ref)
    (ho : operations.lookup ref = some op) (hc : Change notice ref op op') :
    Changed notice operations (operations.insert ref op') := by
  intro r
  by_cases hr : r = ref
  · subst hr
    rw [ho, AList.lookup_insert]
    exact .some hc
  · rw [AList.lookup_insert_ne hr]
    cases h : operations.lookup r with
    | none => exact .none
    | some op₁ => exact .some (.same fun pid monitor he => hr (hother _ _ _ _ he))

theorem changed_update {sessionId : Session} {update : Operation → Operation}
    (hother : ∀ r s pid monitor, notice = .started r s pid monitor → r = ref ∧ s = sessionId)
    (hc : ∀ op, op.sessionId = sessionId → Change notice ref op (update op)) :
    Changed notice operations (updateFenceOperation operations ref sessionId update) := by
  have hmiss : (∀ op, operations.lookup ref = some op → op.sessionId ≠ sessionId) →
      Changed notice operations operations := by
    intro hne
    refine changed_refl fun r op pid monitor ho he => ?_
    obtain ⟨rfl, hs⟩ := hother _ _ _ _ he
    exact hne op ho hs
  unfold updateFenceOperation
  split
  · next op ho =>
    split
    · next hs => exact changed_insert (fun r s pid monitor he => (hother r s pid monitor he).1) ho (hc op hs)
    · next hs =>
      refine hmiss fun op' ho' => ?_
      rw [ho] at ho'
      rwa [← Option.some.inj ho']
  · next ho =>
    refine hmiss fun op' ho' => ?_
    rw [ho] at ho'
    cases ho'

theorem changed_cancelled (hn : notice = .cancelled ref) :
    Changed notice operations (markFenceCancelled (ensureCutoffFenceResult operations ref) ref) := by
  subst hn
  cases ho : operations.lookup ref with
  | none =>
    have hself : markFenceCancelled (ensureCutoffFenceResult operations ref) ref = operations := by
      simp [markFenceCancelled, ensureCutoffFenceResult, ho]
    rw [hself]
    exact changed_refl (by simp)
  | some op =>
    have hself : markFenceCancelled (ensureCutoffFenceResult operations ref) ref =
        operations.insert ref { op with
          result := if op.result = nil then fenceUnknown op else op.result
          down := if op.pid = none then true else op.down
          closed := true } := by
      by_cases hnil : op.result = nil <;> by_cases hp : op.pid = none <;>
        simp [markFenceCancelled, ensureCutoffFenceResult, ho, hnil, hp, AList.insert_insert]
    rw [hself]
    refine changed_insert (by simp) ho (.cancelled rfl ?_ ?_)
    · split
      · exact .inr rfl
      · exact .inl rfl
    · split
      · next hp => exact .inr hp
      · exact .inl rfl

theorem changed_cancelFences (hn : notice = .timeout) : Changed notice operations (cancelFences operations).1 := by
  subst hn
  intro ref
  rw [cancelFences, lookup_mapValues]
  cases operations.lookup ref with
  | none => exact .none
  | some op =>
    refine .some (.cutoff rfl ?_)
    unfold cutoffResult
    split
    · exact .inr rfl
    · exact .inl rfl

theorem changed_fenceDown {monitor : Ref} {pid : Pid} (hn : notice = .down monitor pid)
    (h : fenceDown operations monitor pid = some operations') : Changed notice operations operations' := by
  subst hn
  obtain ⟨e, he, rfl⟩ := Option.map_eq_some_iff.1 h
  have hmp := List.find?_some he
  simp only [decide_eq_true_eq] at hmp
  exact changed_insert (by simp) (lookup_of_find he) (.down rfl hmp.1 hmp.2)

/-- **One message changes an operation as it may**, and no other. -/
theorem receive_spec {context : Context} {cutoff cutoff' : Bool} {now : ℤ} {sent : List Command}
    (h : receive context operations cutoff now notice = .loop operations' cutoff' sent) :
    Changed notice operations operations' := by
  cases notice with
  | started ref sessionId pid monitor =>
    cases h
    refine changed_update ?_ ?_
    · rintro r s p m he
      cases he
      exact ⟨rfl, rfl⟩
    · rintro op rfl
      exact .started rfl
  | head ref sessionId pid head =>
    cases h
    refine changed_update (by simp) ?_
    rintro op rfl
    split
    · exact .head rfl
    · exact .same (by simp)
  | result ref sessionId pid result =>
    cases h
    refine changed_update (by simp) ?_
    rintro op rfl
    split
    · next hp => exact .result rfl hp
    · exact .same (by simp)
  | closed ref =>
    cases h
    unfold markFenceClosed
    split
    · next op ho => exact changed_insert (by simp) ho (.closed rfl)
    · exact changed_refl (by simp)
  | cancelled ref =>
    cases h
    exact changed_cancelled rfl
  | refused ref sessionId =>
    cases h
    refine changed_update (by simp) ?_
    rintro op rfl
    exact .refused rfl
  | failed ref sessionId =>
    cases h
    refine changed_update (by simp) ?_
    rintro op rfl
    exact .failed rfl
  | down monitor pid =>
    simp only [receive] at h
    split at h
    · next hd =>
      cases h
      exact changed_fenceDown rfl hd
    · split at h
      · cases h
      · split at h
        · cases h
        · cases h
          exact changed_refl (by simp)
  | exit pid =>
    cases h
    exact changed_refl (by simp)
  | timeout =>
    simp only [receive] at h
    split at h
    · cases h
    · cases h
      exact changed_cancelFences rfl

end Round

/-! ## what the messages say of an operation -/

/-- The messages that close the operation of a reference. -/
def closing (ref : Ref) (sessionId : Session) : List Notice :=
  [.closed ref, .cancelled ref, .refused ref sessionId, .failed ref sessionId]

/-- Why there is no process left to join: one announced for the operation was seen to be gone, or the fence was
refused, or it was cancelled when none had been announced. -/
inductive Gone (past : List Notice) (ref : Ref) (sessionId : Session) : Prop
  | down {pid : Pid} {monitor : Ref} :
    [Notice.started ref sessionId pid monitor, .down monitor pid].Sublist past → Gone past ref sessionId
  | refused : .refused ref sessionId ∈ past → Gone past ref sessionId
  | cancelled {before after : List Notice} : past = before ++ .cancelled ref :: after →
    (∀ pid monitor, .started ref sessionId pid monitor ∉ before) → Gone past ref sessionId

/-- What the messages so far say of an operation. -/
structure Joined (past : List Notice) (ref : Ref) (op : Operation) : Prop where
  closed : op.closed = true → ∃ notice ∈ past, notice ∈ closing ref op.sessionId
  gone : op.down = true → Gone past ref op.sessionId
  announced : ∀ pid, op.pid = some pid → ∃ monitor, .started ref op.sessionId pid monitor ∈ past
  monitored : ∀ pid monitor, op.pid = some pid → op.monitor = some monitor →
    .started ref op.sessionId pid monitor ∈ past
  unannounced : op.pid = none → ∀ pid monitor, .started ref op.sessionId pid monitor ∉ past
  committed : op.result = sym "committed" → ∃ pid monitor,
    [Notice.started ref op.sessionId pid monitor, .result ref op.sessionId pid (sym "committed")].Sublist past

theorem joined_initial (ref : Ref) (sessionId : Session) : Joined [] ref (.initial sessionId) := by
  refine ⟨?_, ?_, ?_, ?_, ?_, ?_⟩ <;> simp [Operation.initial, nil]

section Past

variable {past : List Notice} {notice : Notice} {ref : Ref} {op op' : Operation} {sessionId : Session}

theorem Gone.snoc (h : Gone past ref sessionId) (notice : Notice) : Gone (past ++ [notice]) ref sessionId := by
  cases h with
  | down hs => exact .down (hs.trans (List.sublist_append_left _ _))
  | refused hm => exact .refused (List.mem_append_left _ hm)
  | @cancelled before after hp hn =>
    exact @Gone.cancelled _ _ _ before (after ++ [notice]) (by rw [hp]; simp) hn

/-- A message after one that came before. -/
theorem sublist_pair {a : Notice} (h : a ∈ past) (b : Notice) : [a, b].Sublist (past ++ [b]) :=
  (List.singleton_sublist.2 h).append (List.Sublist.refl [b])

theorem fenceUnknown_ne_committed (op : Operation) : fenceUnknown op ≠ sym "committed" := by
  unfold fenceUnknown
  split <;> simp [sym]

/-- What a message leaves of an operation whose process is the one it had. -/
theorem Joined.keep (h : Joined past ref op) (hs : op'.sessionId = op.sessionId) (hp : op'.pid = op.pid)
    (hm : op'.monitor = op.monitor) (hn : ∀ pid monitor, notice ≠ .started ref op.sessionId pid monitor)
    (hclosed : op'.closed = true → op.closed = true ∨ notice ∈ closing ref op.sessionId)
    (hgone : op'.down = true → op.down = true ∨ Gone (past ++ [notice]) ref op.sessionId)
    (hresult : op'.result = sym "committed" → op.result = sym "committed" ∨
      ∃ pid, op.pid = some pid ∧ notice = .result ref op.sessionId pid (sym "committed")) :
    Joined (past ++ [notice]) ref op' := by
  refine ⟨fun hc => ?_, fun hd => ?_, fun pid hpid => ?_, fun pid monitor hpid hmon => ?_,
    fun hnone pid monitor hin => ?_, fun hr => ?_⟩
  · rw [hs]
    rcases hclosed hc with hc | hc
    · obtain ⟨n, hin, hcl⟩ := h.closed hc
      exact ⟨n, List.mem_append_left _ hin, hcl⟩
    · exact ⟨notice, by simp, hc⟩
  · rw [hs]
    rcases hgone hd with hd | hd
    · exact (h.gone hd).snoc notice
    · exact hd
  · rw [hs]
    obtain ⟨monitor, hin⟩ := h.announced pid (hp ▸ hpid)
    exact ⟨monitor, List.mem_append_left _ hin⟩
  · rw [hs]
    exact List.mem_append_left _ (h.monitored pid monitor (hp ▸ hpid) (hm ▸ hmon))
  · rw [hs] at hin
    rcases List.mem_append.1 hin with hin | hin
    · exact h.unannounced (hp ▸ hnone) pid monitor hin
    · exact hn pid monitor (List.mem_singleton.1 hin).symm
  · rw [hs]
    rcases hresult hr with hr | ⟨pid, hpid, rfl⟩
    · obtain ⟨pid, monitor, hsub⟩ := h.committed hr
      exact ⟨pid, monitor, hsub.trans (List.sublist_append_left _ _)⟩
    · obtain ⟨monitor, hin⟩ := h.announced pid hpid
      exact ⟨pid, monitor, sublist_pair hin _⟩

/-- **One message keeps what is known of an operation.** -/
theorem Joined.change (h : Joined past ref op) (hc : Change notice ref op op') :
    Joined (past ++ [notice]) ref op' := by
  cases hc with
  | same hn => exact h.keep rfl rfl rfl hn .inl .inl .inl
  | @started pid monitor hn =>
    subst hn
    refine ⟨fun hc => ?_, fun hd => (h.gone hd).snoc _, fun p hp => ?_, fun p m hp hm => ?_,
      fun hnone => by simp at hnone, fun hr => ?_⟩
    · obtain ⟨n, hin, hcl⟩ := h.closed hc
      exact ⟨n, List.mem_append_left _ hin, hcl⟩
    · cases hp
      exact ⟨monitor, by simp⟩
    · cases hp
      cases hm
      simp
    · obtain ⟨p, m, hsub⟩ := h.committed hr
      exact ⟨p, m, hsub.trans (List.sublist_append_left _ _)⟩
  | head hn =>
    subst hn
    exact h.keep rfl rfl rfl (by simp) .inl .inl .inl
  | @result pid result hn hp =>
    subst hn
    refine h.keep rfl rfl rfl (by simp) .inl .inl fun hr => .inr ⟨pid, hp, ?_⟩
    obtain rfl : result = sym "committed" := hr
    rfl
  | closed hn =>
    subst hn
    exact h.keep rfl rfl rfl (by simp) (fun _ => .inr (by simp [closing])) .inl .inl
  | cancelled hn hr hd =>
    subst hn
    refine h.keep rfl rfl rfl (by simp) (fun _ => .inr (by simp [closing])) (fun hdown => ?_) fun hres => ?_
    · rcases hd with hd | hd
      · exact .inl (hd ▸ hdown)
      · exact .inr (@Gone.cancelled _ _ _ past [] rfl (h.unannounced hd))
    · rcases hr with hr | hr
      · exact .inl (hr ▸ hres)
      · exact absurd (hr ▸ hres) (fenceUnknown_ne_committed op)
  | refused hn =>
    subst hn
    exact h.keep rfl rfl rfl (by simp) (fun _ => .inr (by simp [closing]))
      (fun _ => .inr (.refused (by simp))) fun hres => absurd hres (fenceUnknown_ne_committed op)
  | failed hn =>
    subst hn
    exact h.keep rfl rfl rfl (by simp) (fun _ => .inr (by simp [closing])) .inl
      fun hres => absurd hres (fenceUnknown_ne_committed op)
  | @down monitor pid hn hm hp =>
    subst hn
    exact h.keep rfl rfl rfl (by simp) .inl
      (fun _ => .inr (.down (sublist_pair (h.monitored pid monitor hp hm) _))) .inl
  | cutoff hn hr =>
    subst hn
    refine h.keep rfl rfl rfl (by simp) .inl .inl fun hres => ?_
    rcases hr with hr | hr
    · exact .inl (hr ▸ hres)
    · exact absurd (hr ▸ hres) (fenceUnknown_ne_committed op)

theorem Change.session_eq (hc : Change notice ref op op') : op'.sessionId = op.sessionId := by
  cases hc <;> rfl

end Past

/-! ## the join -/

/-- The messages so far say enough of every operation. -/
def AllJoined (past : List Notice) (operations : Operations) : Prop :=
  ∀ ref op, operations.lookup ref = some op → Joined past ref op

/-- The session of every reference. -/
def sessionOf (operations : Operations) (ref : Ref) : Option Session :=
  (operations.lookup ref).map Operation.sessionId

theorem AllJoined.changed {past : List Notice} {notice : Notice} {operations operations' : Operations}
    (h : AllJoined past operations) (hc : Changed notice operations operations') :
    AllJoined (past ++ [notice]) operations' ∧ sessionOf operations' = sessionOf operations := by
  constructor
  · intro ref op' ho'
    obtain ⟨op, ho, hch⟩ : ∃ op, operations.lookup ref = some op ∧ Change notice ref op op' := by
      have hrel := hc ref
      rw [ho'] at hrel
      generalize operations.lookup ref = o at hrel
      cases hrel with
      | some hch => exact ⟨_, rfl, hch⟩
    exact (h ref op ho).change hch
  · funext ref
    have hrel := hc ref
    unfold sessionOf
    generalize operations.lookup ref = o, operations'.lookup ref = o' at hrel ⊢
    cases hrel with
    | none => rfl
    | some hch => simp [hch.session_eq]

/-- **What the loop returns with**, over any order of messages: it took some of them, and they say enough of
every operation, which is complete. -/
theorem awaitFences_spec {context : Context} {past : List Notice} {now : ℤ} {operations : Operations}
    {cutoff : Bool} {events rest : List Event} {results : AList fun _ : Session => Term}
    (hj : AllJoined past operations)
    (h : awaitFences context now operations cutoff events = .ok (results, rest)) :
    ∃ consumed operations', events = consumed ++ rest ∧ results = fenceResults operations' ∧
      fencesComplete operations' = true ∧ sessionOf operations' = sessionOf operations ∧
      AllJoined (past ++ consumed.map Event.notice) operations' := by
  induction events generalizing past now operations cutoff with
  | nil =>
    simp only [awaitFences] at h
    split at h
    · next he =>
      cases h
      refine ⟨[], operations, rfl, ?_, ?_, rfl, by simpa using hj⟩
      · simp [fenceResults, newTable, List.isEmpty_iff.1 he]
      · simp [fencesComplete, List.isEmpty_iff.1 he]
    · split at h
      · next hc =>
        cases withinOuter_eq_ok h
        exact ⟨[], operations, rfl, rfl, hc, rfl, by simpa using hj⟩
      · cases h
  | cons event events ih =>
    simp only [awaitFences] at h
    split at h
    · next he =>
      cases h
      refine ⟨[], operations, rfl, ?_, ?_, rfl, by simpa using hj⟩
      · simp [fenceResults, newTable, List.isEmpty_iff.1 he]
      · simp [fencesComplete, List.isEmpty_iff.1 he]
    · split at h
      · next hc =>
        cases withinOuter_eq_ok h
        exact ⟨[], operations, rfl, rfl, hc, rfl, by simpa using hj⟩
      · split at h
        · next operations₁ cutoff₁ sent hr =>
          obtain ⟨hj₁, hs₁⟩ := hj.changed (receive_spec hr)
          obtain ⟨consumed, operations', rfl, hres, hc, hs, hj'⟩ := ih hj₁ h
          refine ⟨event :: consumed, operations', rfl, hres, hc, hs.trans hs₁, ?_⟩
          simpa using hj'
        · cases h
        · cases h

/-- What the loop has of an operation when it returns. -/
structure FenceJoined (past : List Notice) (ref : Ref) (sessionId : Session) : Prop where
  closed : ∃ notice ∈ past, notice ∈ closing ref sessionId
  gone : Gone past ref sessionId

theorem mem_fenceResults {operations : Operations} {s : Session} :
    s ∈ fenceResults operations ↔ ∃ ref, sessionOf operations ref = some s := by
  simp only [fenceResults, mem_newTable, List.mem_map, sessionOf, Option.map_eq_some_iff]
  constructor
  · rintro ⟨t, e, he, heq⟩
    cases heq
    exact ⟨e.1, e.2, lookup_of_mem he, rfl⟩
  · rintro ⟨ref, op, ho, rfl⟩
    exact ⟨op.result, ⟨ref, op⟩, mem_of_lookup ho, rfl⟩

theorem lookup_fenceResults {operations : Operations} {s : Session} {t : Term}
    (h : (fenceResults operations).lookup s = some t) :
    ∃ ref op, operations.lookup ref = some op ∧ op.sessionId = s ∧ op.result = t := by
  obtain ⟨e, he, heq⟩ := List.mem_map.1 (mem_of_lookup_newTable h)
  cases heq
  exact ⟨e.1, e.2, lookup_of_mem he, rfl, rfl⟩

theorem fencesComplete_lookup {operations : Operations} (h : fencesComplete operations = true) {ref : Ref}
    {op : Operation} (ho : operations.lookup ref = some op) :
    op.result ≠ nil ∧ op.down = true ∧ op.closed = true := by
  have := List.all_eq_true.1 h _ (mem_of_lookup ho)
  simpa [and_assoc] using this

theorem lookup_fenceOperations {entries : List Entry} {ref : Ref} {op : Operation}
    (h : (fenceOperations entries).lookup ref = some op) : op = .initial op.sessionId := by
  obtain ⟨e, -, heq⟩ := List.mem_map.1 (mem_of_lookup_newTable h)
  cases heq
  rfl

theorem sessionOf_fenceOperations {entries : List Entry} {s : Session} :
    (∃ ref, sessionOf (fenceOperations entries) ref = some s) ↔ s ∈ entries.map Entry.sessionId := by
  simp only [sessionOf, Option.map_eq_some_iff, List.mem_map]
  constructor
  · rintro ⟨ref, op, ho, rfl⟩
    obtain ⟨e, he, heq⟩ := List.mem_map.1 (mem_of_lookup_newTable ho)
    cases heq
    obtain ⟨-, -, hget⟩ := List.mem_zipIdx he
    exact ⟨e.1, hget ▸ List.getElem_mem _, rfl⟩
  · rintro ⟨e, he, rfl⟩
    obtain ⟨i, hi, rfl⟩ := List.getElem_of_mem he
    have hm : i ∈ fenceOperations entries := by
      refine mem_newTable.2 ⟨.initial entries[i].sessionId, List.mem_map.2 ⟨(entries[i], i), ?_, rfl⟩⟩
      rw [List.mk_mem_zipIdx_iff_getElem?]
      simp [hi]
    obtain ⟨op, ho⟩ := Option.isSome_iff_exists.1 (AList.lookup_isSome.2 hm)
    refine ⟨i, op, ho, ?_⟩
    obtain ⟨⟨e, j⟩, he', heq⟩ := List.mem_map.1 (mem_of_lookup_newTable ho)
    cases heq
    rw [List.mk_mem_zipIdx_iff_getElem?, List.getElem?_eq_getElem hi] at he'
    rw [Option.some.inj he']
    rfl

/-! ## announcements in order -/

/-- Whether a message announces a process for the reference. -/
def Notice.announces (ref : Ref) : Notice → Bool
  | .started r _ _ _ => r = ref
  | _ => false

/-- Whether a message acknowledges the cancellation of the reference. -/
def Notice.cancels (ref : Ref) : Notice → Bool
  | .cancelled r => r = ref
  | _ => false

/-- No process is announced for the reference after one was, nor after its cancellation. -/
def Orderly (past : List Notice) (ref : Ref) : Prop :=
  past.Pairwise fun a b => a.announces ref = true ∨ a.cancels ref = true → b.announces ref = false

/-- No two announcements. -/
def ApartFor (ref : Ref) (a b : Notice) : Prop := ¬ (a.announces ref = true ∧ b.announces ref = true)

instance (ref : Ref) : Std.Symm (ApartFor ref) := ⟨fun _ _ h hba => h hba.symm⟩

/-- **In that order the process seen to be gone is the one announced**, or none ever was. -/
theorem Gone.orderly {past : List Notice} {ref : Ref} {sessionId : Session} (h : Gone past ref sessionId)
    (ho : Orderly past ref) :
    (∃ pid monitor, [Notice.started ref sessionId pid monitor, .down monitor pid].Sublist past ∧
      ∀ p m, .started ref sessionId p m ∈ past → p = pid ∧ m = monitor) ∨
    .refused ref sessionId ∈ past ∨
    (.cancelled ref ∈ past ∧ ∀ p m, .started ref sessionId p m ∉ past) := by
  cases h with
  | @down pid monitor hs =>
    left
    refine ⟨pid, monitor, hs, fun p m hin => ?_⟩
    have hmem : Notice.started ref sessionId pid monitor ∈ past := hs.subset (by simp)
    have hpair : past.Pairwise (ApartFor ref) := ho.imp fun hab hh => by simp [hab (.inl hh.1)] at hh
    by_contra hne
    have hneq : Notice.started ref sessionId p m ≠ .started ref sessionId pid monitor := by
      simpa using hne
    exact hpair.forall hin hmem hneq (by simp [Notice.announces])
  | refused hm => exact .inr (.inl hm)
  | @cancelled before after hp hn =>
    right; right
    subst hp
    refine ⟨by simp, fun p m hin => ?_⟩
    rcases List.mem_append.1 hin with hin | hin
    · exact hn p m hin
    · rcases List.mem_cons.1 hin with hin | hin
      · cases hin
      · have hafter := (List.pairwise_cons.1 (List.pairwise_append.1 ho).2.1).1 _ hin
        simp [Notice.announces, Notice.cancels] at hafter

end Loopex.Runtime.Quiesce
