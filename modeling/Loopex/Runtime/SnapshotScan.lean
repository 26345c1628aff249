import Loopex.Protocol.SessionViews

/-!
# Snapshot scans

A client attaches at a cursor of the public history: the events are read in pages, and reduced to the views that a
snapshot at that cursor shows (`start_snapshot_scan`, `scan_snapshot_page`, `finish_snapshot_scan`).  The events are
committed ones, plain maps with the atoms `kind`, `event_id` and `event_sequence` beside their binary keys.

* `advancePublic`, `advanceOpenInteraction`, … — what one event does to each view
* `advance` — one event, and `advanceScan` the same with the anchor's views kept
* `attach` — a whole scan, `snapshot` the snapshot it ends with
* `reduce`, `scanPage_eq` — a scan is the reduction of the history, with the reduction at the anchor beside it
* `attach_exact` — neither the pages nor what follows the anchor matters
-/

namespace Loopex.Runtime.SnapshotScan

open Loopex.Erlang Loopex.Erlang.Term Loopex.Protocol
open Loopex.Store (lookup hasKey)
open Loopex.Runtime.ToolDefinition (among)

/-- Why a scan refuses. -/
inductive HistoryError where
  | invalidPublicHistory | invalidPublicRunTransition
  | invalidPublicInteraction | invalidPublicInteractionAnswer | invalidPublicInteractionTransition
  | invalidPublicMaintenanceView | invalidPublicMaintenanceTransition
  | invalidPublicConfiguration | invalidPublicConfigurationTransition
  | invalidPublicCheckpoint | invalidPublicCheckpointTransition
  | invalidPublicCompactCompletion | invalidPublicCompactTransition
  | invalidPublicSnapshot | cursorExpired
  deriving DecidableEq

inductive Phase where
  | admittedUnstaged | started
  deriving DecidableEq

def Phase.toTerm : Phase → Term
  | .admittedUnstaged => str "admitted_unstaged"
  | .started => str "started"

structure ActiveRun where
  runId : Bytes
  phase : Phase
  deriving DecidableEq

/-- The views that a snapshot takes over as they are. -/
structure Views where
  openInteraction : Term
  configuration : Term
  checkpoint : Term
  activeMaintenance : Term
  lastCompact : Term
  deriving DecidableEq

/-- The six views of one cursor. -/
structure Projection extends Views where
  activeRun : Option ActiveRun
  deriving DecidableEq

/-- Accept, or refuse with `e`. -/
def ensure (b : Bool) (e : HistoryError) : Except HistoryError Unit := if b then .ok () else .error e

/-! ## events -/

/-- The member of an event under an atom. -/
def member (event : Term) (name : String) : Option Term :=
  match event with
  | .map kvs => lookup (sym name) kvs
  | _ => none

/-- `Map.drop(event, [:kind, :event_id, :event_sequence])`. -/
def payload (event : Term) : Term :=
  match event with
  | .map kvs => .map (kvs.filter fun e => e.1 ∉ ["kind", "event_id", "event_sequence"].map sym)
  | t => t

/-- The event is of this kind. -/
def isKind (event : Term) (kind : String) : Bool := member event "kind" = some (str kind)

/-- The binary keys that the command of a record adds to its closed keys. -/
def revisionKeys (t : Term) : List String :=
  if isPlainMap t && among (get t "command_type") ["prompt", "follow_up"] then
    ["command_revision"] ++ if get t "admission" = str "accepted" then ["authored_bounds"] else []
  else []

/-- `closed_history_map?`. -/
def closedHistoryMap (map : Term) (required optional : List Term) : Bool :=
  let required := required ++ (revisionKeys map).map str
  isPlainMap map && (required.all fun key => key ∈ keys map) && (keys map).all fun key => key ∈ required ++ optional

/-- The members under these keys are equal. -/
def agree (a b : Term) (names : List String) : Bool := names.all fun name => looseEq (get a name) (get b name)

/-! ## the run -/

/-- `advance_public_projection`: the phase of the one run. -/
def advancePublic (active : Option ActiveRun) (event : Term) (expected : ℕ) : Except HistoryError (Option ActiveRun) :=
  if member event "event_sequence" = some (.int expected) && (member event "event_id").any isBinary then
    if isKind event "user.message_appended" then
      match active, fetch event "run_id" with
      | none, some (.binary runId) =>
        if runId = [] then .error .invalidPublicRunTransition else .ok (some ⟨runId, .admittedUnstaged⟩)
      | some run, some (.binary runId) =>
        if runId = run.runId then .ok active else .error .invalidPublicRunTransition
      | _, _ => .error .invalidPublicRunTransition
    else if isKind event "run.started" then
      match active with
      | some ⟨runId, .admittedUnstaged⟩ =>
        if fetch event "run_id" = some (.binary runId) then .ok (some ⟨runId, .started⟩)
        else .error .invalidPublicRunTransition
      | _ => .error .invalidPublicRunTransition
    else if isKind event "run.finished" then
      match active with
      | some run =>
        if fetch event "run_id" = some (.binary run.runId) then .ok none else .error .invalidPublicRunTransition
      | none => .error .invalidPublicRunTransition
    else if (member event "kind").any isBinary then .ok active
    else .error .invalidPublicHistory
  else .error .invalidPublicHistory

/-! ## the question -/

def questionKeys : List String := ["interaction_id", "run_id", "turn", "tool_call_id"]

def closingKinds : List String :=
  ["interaction.resolved", "interaction.expired", "interaction.cancelled", "interaction.answered",
    "interaction.declined"]

/-- `interaction_event_kind`. -/
def interactionEventKind (resolution : Term) : String :=
  if resolution = str "expired" then "interaction.expired"
  else if resolution = str "cancelled" then "interaction.cancelled"
  else "interaction.resolved"

/-- The question that an event asks. -/
def projected (event : Term) : Term :=
  let model := looseEq (get event "producer") (str "model_tool")
  Session.mapWith [("interaction_id", get event "interaction_id"), ("run_id", get event "run_id"),
    ("turn", get event "turn"), ("tool_call_id", get event "tool_call_id"), ("prompt", get event "prompt"),
    ("choices", get event "choices"), ("expires_at", get event "expires_at"), ("status", str "pending"),
    ("producer", str (if model then "model_tool" else "policy_defer")),
    ("kind", if model then get event "interaction_kind" else str "choice")]

/-- One of the `choices` of a question has this identity. -/
def offers (question id : Term) : Bool :=
  match get question "choices" with
  | .list choices => choices.any fun choice => looseEq (get choice "id") id
  | _ => false

/-- `answer_matches?`: how the retained answer may end. -/
def answerMatches (question closing : Term) : Bool :=
  if get question "status" = str "pending" then
    among (get closing "resolution") ["expired", "cancelled"] && get closing "answer_command_id" = nil
  else
    looseEq (get closing "answer_command_id") (get question "answer_command_id") &&
      looseEq (get closing "choice_id") (get question "answer_choice_id")

/-- A terminal of the open policy question. -/
def closes (question event : Term) : Bool :=
  let closing := payload event
  let required := questionKeys ++ ["resolution", "answer_command_id"] ++
    if get closing "answer_command_id" = nil then [] else ["choice_id"]
  closedHistoryMap closing (required.map str) [str "reason"] &&
    ((fetch closing "reason").all fun reason => match reason with
      | .binary b => b.length ≤ 65536
      | _ => false) &&
    agree closing question questionKeys &&
    among (get closing "resolution") ["allowed", "denied", "expired", "cancelled"] &&
    isKind event (interactionEventKind (get closing "resolution")) && answerMatches question closing

/-- `advance_open_interaction`. -/
def advanceOpenInteraction (question event : Term) : Except HistoryError Term :=
  let policy := get question "producer" = str "policy_defer" && get question "kind" = str "choice"
  if isKind event "interaction.requested" && question = nil then do
    ensure ((looseEq (get event "producer") (str "model_tool") ||
      closedHistoryMap (payload event) ((questionKeys ++ ["prompt", "choices", "expires_at"]).map str) []) &&
      (Session.OpenInteraction.encodeWire (projected event)).isSome) .invalidPublicInteraction
    .ok (projected event)
  else if isKind event "interaction.answer_admitted" && policy && get question "status" = str "pending" then do
    let answer := payload event
    ensure ((Session.OpenInteraction.encodeAnswerAdmitted answer).isSome && agree answer question questionKeys &&
      offers question (get answer "answer_choice_id")) .invalidPublicInteractionAnswer
    .ok (Session.merge question [("status", str "answered"), ("answer_choice_id", get answer "answer_choice_id"),
      ("answer_command_id", get answer "answer_command_id")])
  else if isKind event "interaction.requested" || isKind event "interaction.answer_admitted" then
    .error .invalidPublicInteractionTransition
  else if closingKinds.any (isKind event) then
    if policy then do
      ensure (closes question event) .invalidPublicInteractionTransition
      .ok nil
    else match fetch question "interaction_id" with
      | some id => do
        ensure (looseEq (get event "interaction_id") id) .invalidPublicInteractionTransition
        .ok nil
      | none => if question = nil then .error .invalidPublicInteractionTransition else .ok question
  else .ok question

/-! ## maintenance -/

/-- `same_public_maintenance_episode?`. -/
def sameEpisode (current next : Term) : Bool :=
  current = nil || next = nil || agree current next ["episode_id", "owner"]

/-- `advance_maintenance_projection`. -/
def advanceMaintenance (current event : Term) : Except HistoryError Term :=
  if isKind event "context.maintenance_changed" then do
    ensure (Session.MaintenanceView.encodeWire (payload event)).isSome .invalidPublicMaintenanceView
    let next := get (payload event) "active_maintenance"
    ensure (!looseEq current next && sameEpisode current next) .invalidPublicMaintenanceTransition
    .ok next
  else .ok current

/-- `valid_public_maintenance_owner`. -/
def maintenanceOwned (maintenance : Term) (run : Option ActiveRun) (question : Term) : Bool :=
  let owner := get maintenance "owner"
  maintenance = nil ||
    (question = nil && get owner "kind" = str "run" &&
      run.any fun run => fetch owner "id" = some (.binary run.runId)) ||
    (question = nil && get owner "kind" = str "compact" && run = none)

/-! ## settings, checkpoints and completions -/

/-- `advance_configuration_projection`. -/
def advanceConfiguration (current event : Term) (run : Option ActiveRun) (maintenance question : Term) :
    Except HistoryError Term :=
  if isKind event "session.configured" then do
    ensure (Session.Configuration.encodeChange (payload event)).isSome .invalidPublicConfiguration
    let next := get (payload event) "configuration"
    ensure (run = none && maintenance = nil && question = nil && Session.native next "configuration_version" =
      Session.native current "configuration_version" + 1) .invalidPublicConfigurationTransition
    .ok next
  else .ok current

/-- `checkpoint_projection_id`. -/
def checkpointId (checkpoint : Term) : Term := if checkpoint = nil then nil else get checkpoint "checkpoint_id"

/-- `advance_checkpoint_projection`. -/
def advanceCheckpoint (current event maintenance : Term) : Except HistoryError Term :=
  if isKind event "context.compacted" then do
    let next := payload event
    ensure (Session.Checkpoint.encodeWire next).isSome .invalidPublicCheckpoint
    ensure (isMap maintenance &&
      agree next maintenance ["episode_id", "owner", "model", "reasoning", "configuration_version"] &&
      looseEq (get next "prior_checkpoint_id") (checkpointId current) &&
      (current = nil || get current "source_excerpted" = sym "false" || get next "source_excerpted" = sym "true"))
      .invalidPublicCheckpointTransition
    .ok next
  else .ok current

/-- `advance_compact_projection`. -/
def advanceCompact (current event maintenance : Term) (run : Option ActiveRun) (question : Term) :
    Except HistoryError Term :=
  if isKind event "context.compaction_finished" then do
    let next := payload event
    ensure (Session.CompactResult.encodeCompletion next).isSome .invalidPublicCompactCompletion
    ensure (maintenance = nil && run = none && question = nil &&
      (current = nil || !looseEq (get current "command_id") (get next "command_id"))) .invalidPublicCompactTransition
    .ok next
  else .ok current

/-! ## the scan -/

/-- One event at position `expected`: the views after it. -/
def advance (p : Projection) (event : Term) (expected : ℕ) : Except HistoryError Projection := do
  let question ← advanceOpenInteraction p.openInteraction event
  let run ← advancePublic p.activeRun event expected
  let maintenance ← advanceMaintenance p.activeMaintenance event
  ensure (maintenanceOwned maintenance run question) .invalidPublicMaintenanceTransition
  let configuration ← advanceConfiguration p.configuration event run maintenance question
  let checkpoint ← advanceCheckpoint p.checkpoint event maintenance
  let compact ← advanceCompact p.lastCompact event maintenance run question
  .ok ⟨⟨question, configuration, checkpoint, maintenance, compact⟩, run⟩

/-- The accumulator of a scan; `anchorProjection` is `:pending` until the requested position is reached. -/
structure Scan extends Projection where
  sessionId : Bytes
  requestedAnchor : Option ℕ
  tail : ℕ
  anchorProjection : Option Projection
  deriving DecidableEq

/-- The views of a session that has no event yet. -/
def initial (configuration : Term) : Projection := ⟨⟨nil, configuration, nil, nil, nil⟩, none⟩

/-- `start_snapshot_scan`. -/
def startScan (sessionId : Bytes) (anchor : Option ℕ) (configuration : Term) : Except HistoryError Scan := do
  ensure (Session.Configuration.encodeWire configuration).isSome .invalidPublicConfiguration
  .ok { initial configuration with
    sessionId, requestedAnchor := anchor, tail := 0
    anchorProjection := if anchor = some 0 then some (initial configuration) else none }

/-- `advance_snapshot_scan`. -/
def advanceScan (scan : Scan) (event : Term) : Except HistoryError Scan := do
  let expected := scan.tail + 1
  let p ← advance scan.toProjection event expected
  .ok { scan with
    toProjection := p, tail := expected
    anchorProjection := if scan.requestedAnchor = some expected then some p else scan.anchorProjection }

/-- `scan_snapshot_page`. -/
def scanPage (scan : Scan) (events : List Term) : Except HistoryError Scan := events.foldlM advanceScan scan

/-- What a scan ends with. -/
structure Finished extends Views where
  tail : ℕ
  snapshot : Term
  deriving DecidableEq

/-- The snapshot of a session at a cursor. -/
def snapshotOf (sessionId : Bytes) (anchor : ℕ) (p : Projection) : Term :=
  mapOf [(sym "open_interaction", p.openInteraction), (sym "configuration", p.configuration),
    (sym "checkpoint", p.checkpoint), (sym "active_maintenance", p.activeMaintenance),
    (sym "last_compact", p.lastCompact), (sym "snapshot_revision", .int 3), (sym "session_id", .binary sessionId),
    (sym "event_sequence", .int anchor),
    (sym "active_run_id", match p.activeRun with | some run => .binary run.runId | none => nil),
    (sym "active_run_phase", match p.activeRun with | some run => run.phase.toTerm | none => nil)]

/-- `finish_snapshot_projection`. -/
def finishProjection (sessionId : Bytes) (anchor tail : ℕ) (p : Projection) : Except HistoryError Finished := do
  ensure (Session.Snapshot.encodeWire (snapshotOf sessionId anchor p)).isSome .invalidPublicSnapshot
  .ok { p.toViews with tail, snapshot := snapshotOf sessionId anchor p }

/-- `finish_snapshot_scan`. -/
def finishScan (scan : Scan) : Except HistoryError Finished :=
  match scan.requestedAnchor, scan.anchorProjection with
  | none, _ => finishProjection scan.sessionId scan.tail scan.tail scan.toProjection
  | some anchor, some p =>
    if anchor ≤ scan.tail then finishProjection scan.sessionId anchor scan.tail p else .error .cursorExpired
  | some _, none => .error .cursorExpired

/-- An attachment: the pages of the history, one after the other. -/
def attach (sessionId : Bytes) (anchor : Option ℕ) (configuration : Term) (pages : List (List Term)) :
    Except HistoryError Finished := do
  let scan ← startScan sessionId anchor configuration
  let scan ← pages.foldlM scanPage scan
  finishScan scan

/-- `snapshot`. -/
def snapshot (sessionId : Bytes) (anchor : ℕ) (events : List Term) (configuration : Term) : Except HistoryError Term := do
  let scan ← startScan sessionId (some anchor) configuration
  let scan ← scanPage scan events
  let finished ← finishScan scan
  .ok finished.snapshot

/-! ## the history without pages -/

@[simp] theorem except_ok_bind {α β : Type} {a : α} {f : α → Except HistoryError β} : (Except.ok a >>= f) = f a := rfl
@[simp] theorem except_error_bind {α β : Type} {e : HistoryError} {f : α → Except HistoryError β} :
    (Except.error e >>= f) = .error e := rfl

/-- The views after some more events, from position `n` on. -/
def reduceFrom (p : Projection) (n : ℕ) : List Term → Except HistoryError Projection
  | [] => .ok p
  | event :: events => do
    let q ← advance p event (n + 1)
    reduceFrom q (n + 1) events

/-- The views after a history: no pages and no anchors. -/
def reduce (configuration : Term) (events : List Term) : Except HistoryError Projection :=
  reduceFrom (initial configuration) 0 events

variable {sessionId : Bytes} {configuration event : Term} {events : List Term} {anchor : Option ℕ}

theorem reduceFrom_append {p : Projection} {n : ℕ} {later : List Term} :
    reduceFrom p n (events ++ later) = reduceFrom p n events >>= fun q => reduceFrom q (n + events.length) later := by
  induction events generalizing p n with
  | nil => rfl
  | cons event events ih =>
    simp only [List.cons_append, reduceFrom, ih, bind_assoc, List.length_cons]
    congr 1
    funext q
    rw [show n + 1 + events.length = n + (events.length + 1) by omega]

theorem reduce_concat : reduce configuration (events ++ [event]) =
    reduce configuration events >>= fun p => advance p event (events.length + 1) := by
  rw [reduce, reduceFrom_append]
  simp only [reduceFrom, Nat.zero_add]
  congr 1
  funext p
  cases advance p event (events.length + 1) <;> rfl

/-- The history before a position can be reduced if the whole can. -/
theorem reduce_take {p : Projection} (h : reduce configuration events = .ok p) (k : ℕ) :
    ∃ q, reduce configuration (events.take k) = .ok q := by
  rw [reduce, ← List.take_append_drop k events, reduceFrom_append] at h
  obtain ⟨q, hq, -⟩ := Except.bind_eq_ok.1 h
  exact ⟨q, hq⟩

/-- The accumulator after a history whose views are `p`. -/
def scanAt (sessionId : Bytes) (anchor : Option ℕ) (configuration : Term) (events : List Term) (p : Projection) : Scan :=
  { p with
    sessionId, requestedAnchor := anchor, tail := events.length
    anchorProjection := anchor.bind fun k =>
      if k ≤ events.length then (reduce configuration (events.take k)).toOption else none }

theorem advanceScan_scanAt {p : Projection} (h : reduce configuration events = .ok p) :
    advanceScan (scanAt sessionId anchor configuration events p) event =
      (advance p event (events.length + 1)).map (scanAt sessionId anchor configuration (events ++ [event])) := by
  have hstep : reduce configuration (events ++ [event]) = advance p event (events.length + 1) := by
    rw [reduce_concat, h]
    rfl
  simp only [advanceScan, scanAt]
  cases hq : advance p event (events.length + 1) with
  | error e => rfl
  | ok q =>
    refine congrArg Except.ok ?_
    simp only [scanAt, List.length_append, List.length_singleton, Scan.mk.injEq, true_and]
    cases anchor with
    | none => rfl
    | some k =>
      simp only [Option.bind_some, Option.some.injEq]
      by_cases hk : k = events.length + 1
      · -- the anchor is this event, and its views are the ones kept
        rw [if_pos hk, if_pos (by omega), List.take_of_length_le (by simp [hk]), hstep, hq]
        rfl
      · rw [if_neg hk]
        by_cases hle : k ≤ events.length
        · rw [if_pos hle, if_pos (by omega), List.take_append_of_le_length hle]
        · rw [if_neg hle, if_neg (by omega)]

theorem startScan_eq : startScan sessionId anchor configuration = (do
    ensure (Session.Configuration.encodeWire configuration).isSome .invalidPublicConfiguration
    .ok (scanAt sessionId anchor configuration [] (initial configuration))) := by
  unfold startScan
  congr 1
  funext _
  refine congrArg Except.ok ?_
  simp only [scanAt, List.length_nil, Scan.mk.injEq, true_and]
  rcases anchor with _ | _ | k
  · rfl
  · rfl
  · rw [if_neg (by simp), Option.bind_some, if_neg (by omega)]

/-- **A scan is the reduction of the history.**  Beside it stands the reduction up to the anchor. -/
theorem scanPage_eq : scanPage (scanAt sessionId anchor configuration [] (initial configuration)) events =
    (reduce configuration events).map (scanAt sessionId anchor configuration events) := by
  induction events using List.reverseRecOn with
  | nil => rfl
  | append_singleton events event ih =>
    have hlast : scanPage (scanAt sessionId anchor configuration [] (initial configuration)) (events ++ [event]) =
        scanPage (scanAt sessionId anchor configuration [] (initial configuration)) events >>= fun scan =>
          advanceScan scan event := by
      simp [scanPage]
    rw [hlast, ih, reduce_concat]
    cases hp : reduce configuration events with
    | error e => rfl
    | ok p => exact advanceScan_scanAt hp

/-- Pages are scanned one after the other. -/
theorem foldlM_scanPage {scan : Scan} {pages : List (List Term)} :
    pages.foldlM scanPage scan = scanPage scan pages.flatten := by
  induction pages generalizing scan with
  | nil => rfl
  | cons page pages ih =>
    rw [List.foldlM_cons, List.flatten_cons, scanPage, scanPage, List.foldlM_append]
    congr 1
    funext q
    exact ih

/-- An attachment, in terms of the reduction. -/
theorem attach_eq {pages : List (List Term)} : attach sessionId anchor configuration pages = (do
    ensure (Session.Configuration.encodeWire configuration).isSome .invalidPublicConfiguration
    let p ← reduce configuration pages.flatten
    finishScan (scanAt sessionId anchor configuration pages.flatten p)) := by
  simp only [attach, startScan_eq, foldlM_scanPage, bind_assoc, except_ok_bind, scanPage_eq]
  congr 1
  funext _
  cases reduce configuration pages.flatten with
  | error e => simp only [Except.map, except_error_bind]
  | ok p => simp only [Except.map, except_ok_bind]

theorem snapshot_eq {k : ℕ} : snapshot sessionId k events configuration = (do
    let finished ← attach sessionId (some k) configuration [events]
    .ok finished.snapshot) := by
  simp only [snapshot, attach, foldlM_scanPage, List.flatten_singleton, bind_assoc]

/-- What a scan ends with, within the tail and beyond it. -/
theorem finishScan_scanAt {p : Projection} {k : ℕ} (h : reduce configuration events = .ok p) :
    finishScan (scanAt sessionId (some k) configuration events p) =
      if k ≤ events.length then reduce configuration (events.take k) >>= finishProjection sessionId k events.length
      else .error .cursorExpired := by
  obtain ⟨q, hq⟩ := reduce_take h k
  by_cases hle : k ≤ events.length
  · simp only [finishScan, scanAt, Option.bind_some, if_pos hle, hq, Except.toOption, except_ok_bind]
  · simp only [finishScan, scanAt, Option.bind_some, if_neg hle]

/-- The views do not depend on the tail, which is only reported. -/
theorem finishProjection_tail {p : Projection} {k n m : ℕ} : finishProjection sessionId k n p = (do
    let finished ← finishProjection sessionId k m p
    .ok { finished with tail := n }) := by
  simp only [finishProjection, ensure]
  split
  · simp only [except_ok_bind]
  · simp only [except_error_bind]

/-- **A snapshot is exact.**  Pages do not matter, and without an anchor the tail is the anchor.  Within the tail the
snapshot is that of the history up to the anchor alone, whatever follows, as long as the scan gets through it; beyond
the tail there is none. -/
theorem attach_exact (sessionId : Bytes) (configuration : Term) :
    (∀ anchor pages, attach sessionId anchor configuration pages =
      attach sessionId anchor configuration [pages.flatten]) ∧
    (∀ events, attach sessionId none configuration [events] =
      attach sessionId (some events.length) configuration [events]) ∧
    ∀ k events, attach sessionId (some k) configuration [events] = (do
      let scan ← startScan sessionId none configuration
      let _ ← scanPage scan events
      if k ≤ events.length then
        let finished ← attach sessionId none configuration [events.take k]
        .ok { finished with tail := events.length }
      else .error .cursorExpired) := by
  have hnone : ∀ events, attach sessionId none configuration [events] = (do
      ensure (Session.Configuration.encodeWire configuration).isSome .invalidPublicConfiguration
      let p ← reduce configuration events
      finishProjection sessionId events.length events.length p) := by
    intro events
    rw [attach_eq, List.flatten_singleton]
    congr 1
  have hsome : ∀ k events, attach sessionId (some k) configuration [events] = (do
      ensure (Session.Configuration.encodeWire configuration).isSome .invalidPublicConfiguration
      let _ ← reduce configuration events
      if k ≤ events.length then reduce configuration (events.take k) >>= finishProjection sessionId k events.length
      else .error .cursorExpired) := by
    intro k events
    rw [attach_eq, List.flatten_singleton]
    congr 1
    funext _
    cases hp : reduce configuration events with
    | error e => simp only [except_error_bind]
    | ok p => simp only [except_ok_bind, finishScan_scanAt hp]
  refine ⟨fun anchor pages => ?_, fun events => ?_, fun k events => ?_⟩
  · simp only [attach_eq, List.flatten_singleton]
  · rw [hnone, hsome, if_pos le_rfl, List.take_length]
    refine congrArg _ (funext fun _ => ?_)
    cases reduce configuration events with
    | error e => simp only [except_error_bind]
    | ok p => simp only [except_ok_bind]
  · rw [hsome, hnone, startScan_eq, bind_assoc]
    unfold ensure
    split
    · simp only [except_ok_bind, scanPage_eq, bind_assoc]
      cases hp : reduce configuration events with
      | error e => simp only [Except.map, except_error_bind]
      | ok p =>
        simp only [Except.map, except_ok_bind]
        obtain ⟨q, hq⟩ := reduce_take hp k
        refine ite_congr rfl (fun hle => ?_) fun _ => rfl
        simp only [hq, except_ok_bind, List.length_take, min_eq_left hle]
        exact finishProjection_tail
    · simp only [except_error_bind]

end Loopex.Runtime.SnapshotScan
