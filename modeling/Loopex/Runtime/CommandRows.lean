import Loopex.Runtime.Commands

/-!
# The rows of commands

Every fresh command of a session is committed as one private row, accepted or refused; a command that could not be
written down leaves a refusal that says which candidate was too large.  Resource commands leave rows of their own.
What the reducer rechecks when it applies a row that it has just built is not repeated here, nor are the public events
of an answer.

* `proposeNew`, `propose` — the row of a command, and the session after it
* `commitResourceCommand` — the row of a resource command
* `Commits` — the rows that a session commits, of commands or other
* `RowOf` — the rows of commands by their shape, `rowOf_proposeNew`
-/

namespace Loopex.Runtime

open Loopex.Erlang Loopex.Erlang.Term Loopex.Store
open Loopex.Runtime.ConfigureCommand (itemSize Work)
open Loopex.Runtime.SnapshotScan (revisionKeys)

/-- A question that the session has asked. -/
structure Question where
  /-- The run it was asked in. -/
  runId : Bytes
  pending : Bool
  /-- Its producer is the model, not a policy that deferred. -/
  modelTool : Bool
  createdAt : ℤ
  expiresAt : ℤ
  /-- The answers that its request admits: `Interaction.offered?`, or `Interaction.model_answer`. -/
  admits : Answer → Bool

/-- What the admission of commands reads of a session. -/
structure Session where
  sessionId : Bytes
  cleanupGraceMs : Term
  configuration : Term
  /-- The definitions of the tool selection. -/
  definitions : Term
  work : Work
  /-- The runs that a steer is queued for. -/
  queuedSteers : List Bytes
  questions : List (Bytes × Question)
  /-- The identities that are bound, each to the digest of its command. -/
  commands : List (Bytes × Bytes)

/-- What the host resolved for a command: the clock, the settings of a run, the candidate of a configuration. -/
structure Resolved where
  admittedAt : Option ℤ
  maxTurns : ℤ
  tokenBudget : ℤ
  deadlineMs : ℤ
  contextTokenBudget : ℤ
  configure : ConfigureCommand.Resolved

/-- A private row. -/
structure Row where
  kind : String
  fields : Fields
  deriving DecidableEq

def Row.toTerm (r : Row) : Term := record r.kind r.fields

/-- The fields of every row of a command. -/
def identityFields (c : Command) (admission : Term) : Fields :=
  [("command_id", .binary c.commandId), ("command_digest", .binary c.digest), ("command_type", str c.content.type),
    ("admission", admission)]

/-- `retain_authored_bounds`: what a prompt or a follow-up retains besides. -/
def retainAuthoredBounds (fields : Fields) (c : Command) : Fields :=
  match c.content with
  | .prompt _ bounds | .followUp _ bounds =>
    fields ++ ("command_revision", .int 2) ::
      if fields.get "admission" = some (str "accepted") then [("authored_bounds", Authored.retained bounds)] else []
  | _ => fields

/-- The row of a command, with the fields that its kind adds. -/
def commandRow (kind : String) (c : Command) (admission : Term) (more : Fields) : Row :=
  ⟨kind, retainAuthoredBounds (identityFields c admission ++ more) c⟩

/-- The row of a refusal. -/
def refusalRow (c : Command) (admission : String) : Row := commandRow "command_admitted" c (str admission) []

/-- `prompt_events`. -/
def promptEvents (sessionId commandId runId content : Bytes) : List Term :=
  [mapOf [(str "command_id", .binary commandId), (str "run_id", .binary runId), (str "content", .binary content),
    (sym "event_id", .binary (stableId "event-user" sessionId commandId)), (sym "kind", str "user.message_appended")]]

/-! ## the preflight -/

/-- What a measurement comes to. -/
inductive Verdict where
  | fits
  | tooLarge (dimension candidate : String) (observed : ℕ)
  | invalid
  deriving DecidableEq

/-- The first verdict that is not `fits`. -/
def Verdict.andThen : Verdict → Verdict → Verdict
  | .fits, v => v
  | v, _ => v

/-- `preflight_candidate`. -/
def preflightCandidate (plane : Plane) (candidate : Term) (dimension name : String) : Verdict :=
  match itemSize plane candidate with
  | some bytes => if bytes ≤ maxItemBytes then .fits else .tooLarge dimension name bytes
  | none => .invalid

/-- `preflight_events`. -/
def preflightEvents (events : List Term) (type : String) : Verdict :=
  events.foldl (fun v event => v.andThen <|
    if type = "follow_up" then preflightCandidate .event event "command_event_bytes" "follow_up_user_message_event"
    else match preflightCandidate .event event "" "" with
      | .fits => .fits
      | _ => .invalid) .fits

/-- `future_bound_candidate` of the private plane. -/
def futureBoundRecord (s : Session) (runId : Term) (bound : String) (declaredLimit observed : ℤ) (source : Term) : Term :=
  record "run_terminal_committed" [("run_id", runId), ("outcome", str "bound_reached"), ("bound", str bound),
    ("observed", .int observed), ("declared_limit", .int declaredLimit), ("accounting_source", source),
    ("reconciliation_ref", nil), ("cleanup_grace_ms", s.cleanupGraceMs), ("command_id", nil)]

/-- `future_bound_candidate` of the public plane. -/
def futureBoundEvent (s : Session) (runId : Bytes) (bound : String) (declaredLimit observed : ℤ) (source : Term) : Term :=
  mapOf [(str "run_id", .binary runId), (str "outcome", str "bound_reached"), (str "reconciliation_ref", nil),
    (str "cleanup_grace_ms", s.cleanupGraceMs), (str "command_id", nil), (str "bound", str bound),
    (str "observed", .int observed), (str "declared_limit", .int declaredLimit), (str "accounting_source", source),
    (sym "event_id", .binary (stableId "event-run-finished" s.sessionId runId)), (sym "kind", str "run.finished")]

/-- `Enum.max_by` of the candidates: the first of the largest. -/
def largest (plane : Plane) (candidates : List Term) : Term :=
  let size := fun t => (itemSize plane t).getD 0
  (candidates.tail).foldl (fun best t => if size best < size t then t else best) (candidates.headD nil)

/-- `preflight_bound`. -/
def preflightBound (s : Session) (runId : Bytes) (bound : String) (declaredLimit observed : ℤ) : Verdict :=
  let sources := [nil, str "reported", str "estimated"]
  (preflightCandidate .record
      (largest .record (sources.map (futureBoundRecord s (.binary runId) bound declaredLimit observed)))
      "future_bound_record_bytes" (bound ++ "_private_terminal")).andThen
    (preflightCandidate .event (largest .event (sources.map (futureBoundEvent s runId bound declaredLimit observed)))
      "future_bound_record_bytes" (bound ++ "_public_finish"))

/-- `preflight_future_bounds`: of the rows that commit the two unbounded domains. -/
def preflightFutureBounds (s : Session) (row : Row) (runId : Bytes) : Verdict :=
  match row.fields.get "max_turns", row.fields.get "token_budget" with
  | some (.int maxTurns), some (.int tokenBudget) =>
    ((preflightBound s runId "max_turns" maxTurns maxTurns).andThen
      (preflightBound s runId "token_budget" tokenBudget (tokenBudget - 1 + 2 * uint64Max))).andThen
      (preflightBound s runId "deadline" uint64Max uint64Max)
  | _, _ => .fits

/-- `preflight_command`. -/
def preflightCommand (s : Session) (c : Command) (row : Row) (events : List Term) (runId : Bytes) : Verdict :=
  ((preflightCandidate .record row.toTerm "command_record_bytes" (c.content.type ++ "_record")).andThen
    (preflightEvents events c.content.type)).andThen (preflightFutureBounds s row runId)

/-- The row of `command_too_large`. -/
def tooLargeRow (c : Command) (dimension candidate : String) (observed : ℕ) : Row :=
  commandRow "command_admission_refused_v1" c (str "rejected_durable_candidate_bytes") [("dimension", str dimension),
    ("candidate", str candidate), ("observed", .int observed), ("limit", .int maxItemBytes)]

/-! ## admission -/

/-- The session with the identity of a command bound. -/
def Session.bind (s : Session) (c : Command) : Session := { s with commands := (c.commandId, c.digest) :: s.commands }

/-- `admitted_proposal`: the row if everything it makes reachable can be written down, else its refusal. -/
def admittedProposal (s : Session) (c : Command) (row : Row) (candidates : List Term) (next : Session) :
    Option (Row × Session) :=
  let runId := match row.fields.get "run_id" with
    | some (.binary runId) => runId
    | _ => commandRunId s.sessionId c.commandId
  match preflightCommand s c row candidates runId with
  | .fits => some (row, next)
  | .tooLarge dimension candidate observed => some (tooLargeRow c dimension candidate observed, s.bind c)
  | .invalid => none

/-- The row of an input whose absolute deadline has passed when it is admitted. -/
def elapsedRow (c : Command) (now ceiling : ℤ) : Row :=
  commandRow "command_admitted" c (str "rejected_deadline_elapsed") [("admitted_at", .int now),
    ("deadline_at_ms", .int ceiling)]

/-- The clock and the ceiling of a command that is admitted too late. -/
def elapsed (c : Command) (r : Resolved) : Option (ℤ × ℤ) :=
  match c.content, r.admittedAt with
  | .prompt _ (some bounds), some now | .followUp _ (some bounds), some now =>
    bounds.deadlineAtMs.bind fun ceiling => if ceiling ≤ now then some (now, ceiling) else none
  | _, _ => none

/-- What the admission of a configuration reads of a session. -/
def Session.settings (s : Session) : ConfigureCommand.State :=
  { sessionId := s.sessionId, configuration := s.configuration, definitions := s.definitions, work := s.work,
    commands := [], expectedEvents := [] }

/-- `Interaction.digest`. -/
def interactionDigest (t : Term) : Bytes := hex (sha256 (termToBinary t))

/-- `command_answer`. -/
def Answer.toTerm : Answer → Term
  | .choice choiceId => plainMap [("choice_id", .binary choiceId)]
  | .answer normalized => normalized

/-- `answerable`: the question that an answer settles, or why there is none. -/
def answerable (s : Session) (interactionId : Bytes) (answer : Answer) (admittedAt : Option ℤ) : Except String Question :=
  match s.questions.lookup interactionId with
  | none => .error "rejected_interaction_absent"
  | some question =>
    if !question.pending then .error "rejected_interaction_resolved"
    else if s.work.openInteraction ≠ some interactionId then .error "rejected_interaction_resolved"
    else if question.modelTool && !admittedAt.any fun at' => question.createdAt ≤ at' && at' < question.expiresAt then
      .error "rejected_interaction_resolved"
    else if question.admits answer then .ok question
    else .error "rejected_invalid_interaction_answer"

/-- The row of an admitted answer. -/
def answerRow (c : Command) (r : Resolved) (interactionId : Bytes) (answer : Answer) (question : Question) : Row :=
  if question.modelTool then
    commandRow "model_question_response_admitted_v2" c (str "accepted") [("interaction_id", .binary interactionId),
      ("answer", answer.toTerm),
      ("disposition", str (if answer.toTerm = plainMap [("disposition", str "declined")] then "declined" else "answered")),
      ("responded_at", .int (r.admittedAt.getD 0))]
  else
    let choiceId := match answer with
      | .choice choiceId => .binary choiceId
      | .answer _ => nil
    commandRow "policy_interaction_answer_admitted_v1" c (str "accepted") [("interaction_id", .binary interactionId),
      ("choice_id", choiceId), ("answer_digest", .binary (interactionDigest (mapOf [(sym "choice_id", choiceId)])))]

/-- The session after an answer: a model question is closed, a policy's decision is still owed. -/
def Session.answered (s : Session) (interactionId : Bytes) (question : Question) : Session :=
  { s with
    questions := (interactionId, { question with pending := false }) :: s.questions
    work := if question.modelTool then { s.work with openInteraction := none } else s.work }

/-- The session after an abort of its run: the queues are resolved, and so is the open question. -/
def Session.aborted (s : Session) (runId commandId : Bytes) : Session :=
  { s with
    queuedSteers := s.queuedSteers.filter (· ≠ runId)
    work := { s.work with aborting := some commandId, followUp := none, openInteraction := none } }

/-- The configure command that a command is. -/
def Command.configureCommand (c : Command) : Option ConfigureCommand.Command :=
  match c with
  | ⟨id, .configure changes, nonempty, valid⟩ => some ⟨id, changes, nonempty, valid.1, valid.2⟩
  | _ => none

/-- `propose_new` of a configure command: its row, or the refusal of one that is too large. -/
def proposeConfigure (s : Session) (c : Command) (r : Resolved) (command : ConfigureCommand.Command) :
    Option (Row × Session) :=
  match ConfigureCommand.proposeNew s.settings command r.configure with
  | .proposed configured _ next =>
    some (commandRow "session_configuration_admitted_v2" c configured.admission.toTerm [("changes", configured.changes),
      ("prior_configuration_version", configured.priorConfigurationVersion), ("configuration", configured.configuration)],
      { s.bind c with configuration := next.configuration })
  | .tooLarge observed => some (tooLargeRow c "command_record_bytes" "configure_record" observed, s.bind c)
  | _ => none

/-- `propose_new` of a session that compacts no history of its own. -/
def proposeIdle (s : Session) (c : Command) (r : Resolved) : Option (Row × Session) :=
  let id := c.commandId
  match c.content, s.work.activeRunId with
  | .compact bounds, active =>
    let fields := [("bounds", bounds.toTerm), ("episode_id", .binary (stableId "compact" s.sessionId id))]
    match active with
    | none => admittedProposal s c (commandRow "compact_command_admitted_v1" c (str "accepted") fields) []
        { s.bind c with work := { s.work with pendingCompact := some id } }
    | some _ =>
      admittedProposal s c (commandRow "compact_command_admitted_v1" c (str "rejected_run_active") fields) [] (s.bind c)
  | .configure _, _ => c.configureCommand.bind fun command => proposeConfigure s c r command
  | .prompt content _, none =>
    let runId := commandRunId s.sessionId id
    if s.configuration = nil then none
    else admittedProposal s c (commandRow "prompt_admitted_v3" c (str "accepted") [("run_id", .binary runId),
        ("content", .binary content), ("max_turns", .int r.maxTurns), ("token_budget", .int r.tokenBudget),
        ("deadline_ms", .int r.deadlineMs), ("context_token_budget", .int r.contextTokenBudget),
        ("configuration_version", ConfigureCommand.configurationVersion s.settings)])
      (promptEvents s.sessionId id runId content) { s.bind c with work := { s.work with activeRunId := some runId } }
  | .prompt .., some _ => if s.configuration = nil then none else some (refusalRow c "rejected_run_active", s.bind c)
  | .steer runId content, some active =>
    if runId ≠ active then some (refusalRow c "rejected_run_mismatch", s.bind c)
    else if active ∈ s.queuedSteers then some (refusalRow c "rejected_steer_pending", s.bind c)
    else admittedProposal s c (commandRow "command_admitted" c (str "accepted") [("run_id", .binary active),
        ("content", .binary content)]) [] { s.bind c with queuedSteers := active :: s.queuedSteers }
  | .steer .., none | .followUp .., none => some (refusalRow c "rejected_no_active_run", s.bind c)
  | .followUp content _, some active =>
    if s.work.followUp.isSome then some (refusalRow c "rejected_follow_up_pending", s.bind c)
    else admittedProposal s c (commandRow "command_admitted" c (str "accepted") [("run_id", .binary active),
        ("content", .binary content)]) (promptEvents s.sessionId id (commandRunId s.sessionId id) content)
      { s.bind c with work := { s.work with followUp := some id } }
  | .abort, some active =>
    let kind := if ((s.work.openInteraction.bind fun open' => s.questions.lookup open').any fun question =>
        question.modelTool) then
      "model_question_abort_admitted_v2" else "command_admitted"
    some (commandRow kind c (str "accepted") [("run_id", .binary active)], (s.bind c).aborted active id)
  | .abort, none => some (refusalRow c "rejected_no_active_run", s.bind c)
  | .interactionAnswer interactionId answer, _ =>
    match answerable s interactionId answer r.admittedAt with
    | .error admission => some (refusalRow c admission, s.bind c)
    | .ok question =>
      admittedProposal s c (answerRow c r interactionId answer question) [] ((s.bind c).answered interactionId question)

/-- `propose_new`. -/
def proposeNew (s : Session) (c : Command) (r : Resolved) : Option (Row × Session) :=
  match elapsed c r, s.work.pendingCompact, c.content with
  | some (now, ceiling), _, _ => some (elapsedRow c now ceiling, s.bind c)
  | none, some compactId, .abort =>
    admittedProposal s c (commandRow "compact_abort_admitted_v1" c (str "accepted")
      [("compact_command_id", .binary compactId), ("episode_id", .binary (stableId "compact" s.sessionId compactId))]) []
      (s.bind c)
  | none, some _, _ => some (refusalRow c "rejected_maintenance_active", s.bind c)
  | none, none, _ => proposeIdle s c r

/-- `propose`, of a command that is not bound yet. -/
def propose (s : Session) (c : Command) (r : Resolved) : Option (Row × Session) :=
  if (s.commands.lookup c.commandId).isSome then none else proposeNew s c r

/-! ## resource commands -/

/-- What `normalize_resource_command` gives: its identity, and the members of its type. -/
structure ResourceCommand where
  commandId : Bytes
  members : Fields

def ResourceCommand.toTerm (c : ResourceCommand) : Term := plainMap (("command_id", .binary c.commandId) :: c.members)

/-- What the snapshot of the resources answers. -/
inductive ResourceResolution where
  | accepted (resolved : Term)
  | refused (reason : String)

/-- The most bytes of a resource row. -/
def maxResourceBytes : ℕ := 16384

/-- The row of a resource command. -/
def resourceRow (c : ResourceCommand) (disposition : String) (resolved : Term) : Row :=
  ⟨"resource_command_v1", [("command", c.toTerm), ("command_digest", .binary (commandDigest c.toTerm)),
    ("disposition", str disposition), ("resolved", resolved)]⟩

/-- `commit_resource_command`: refused while a run is active, else as the snapshot resolves it. -/
def commitResourceCommand (s : Session) (c : ResourceCommand) (resolution : ResourceResolution) : Option (Row × Session) :=
  let resolution := if s.work.activeRunId.isSome then .refused "run_active" else resolution
  let row := match resolution with
    | .accepted resolved => resourceRow c "accepted" resolved
    | .refused reason => resourceRow c reason nil
  if (s.commands.lookup c.commandId).isSome then none
  else if (itemSize .record row.toTerm).any fun bytes => bytes ≤ maxResourceBytes then
    some (row, { s with commands := (c.commandId, commandDigest c.toTerm) :: s.commands })
  else none

/-! ## reading a row -/

def identityNames : List String := ["command_id", "command_digest", "command_type", "admission"]

/-- Fields that do not meet those of every row. -/
def Beside (more : Fields) : Prop :=
  (identityNames ++ more.map Prod.fst ++ ["command_revision", "authored_bounds"]).Nodup

variable {c : Command} {kind : String} {admission : Term} {more : Fields}

theorem beside_of_names {names : List String} (hn : more.map Prod.fst = names)
    (h : (identityNames ++ names ++ ["command_revision", "authored_bounds"]).Nodup) : Beside more := by
  subst hn
  exact h

/-- What `retain_authored_bounds` adds. -/
def revisionFields (c : Command) (admission : Term) : Fields :=
  match c.content with
  | .prompt _ bounds | .followUp _ bounds =>
    ("command_revision", .int 2) :: if admission = str "accepted" then [("authored_bounds", Authored.retained bounds)] else []
  | _ => []

theorem commandRow_fields : (commandRow kind c admission more).fields =
    identityFields c admission ++ more ++ revisionFields c admission := by
  have hget : (identityFields c admission ++ more).get "admission" = some admission := by
    simp [identityFields]
  rw [commandRow, retainAuthoredBounds, revisionFields]
  split <;> simp [hget]

theorem sublist_revisionFields :
    ((revisionFields c admission).map Prod.fst).Sublist ["command_revision", "authored_bounds"] := by
  unfold revisionFields
  split <;> (try split) <;> simp

theorem nodup_commandRow (h : Beside more) : ((commandRow kind c admission more).fields.map Prod.fst).Nodup := by
  rw [commandRow_fields, List.map_append, List.map_append]
  exact ((List.Sublist.refl _).append sublist_revisionFields).nodup h

/-- A field that no row has. -/
theorem commandRow_get_none {name : String} (hname : name ∉ identityNames ++ ["command_revision", "authored_bounds"])
    (hmore : more.get name = none) : (commandRow kind c admission more).fields.get name = none := by
  rw [List.mem_append, not_or] at hname
  have hidentity : (identityFields c admission).get name = none := by
    rw [← Option.not_isSome_iff_eq_none, Fields.get_isSome]
    exact hname.1
  have hrevision : (revisionFields c admission).get name = none := by
    rw [← Option.not_isSome_iff_eq_none, Fields.get_isSome]
    exact fun hmem => hname.2 (sublist_revisionFields.subset hmem)
  rw [commandRow_fields, Fields.get_append, Fields.get_append, hidentity, hmore, hrevision]
  rfl

section
variable (h : Beside more)
include h

theorem fetch_commandRow (name : String) : fetch (commandRow kind c admission more).toTerm name =
    ((identityFields c admission).get name).or ((more.get name).or ((revisionFields c admission).get name)) := by
  rw [Row.toTerm, fetch_record (nodup_commandRow h), commandRow_fields, Fields.get_append, Fields.get_append,
    Option.or_assoc]

theorem kindOf_commandRow : kindOf (commandRow kind c admission more).toTerm = str kind :=
  kindOf_record (nodup_commandRow h)

theorem get_commandId : get (commandRow kind c admission more).toTerm "command_id" = .binary c.commandId := by
  rw [get, fetch_commandRow h]
  rfl

theorem get_commandDigest : get (commandRow kind c admission more).toTerm "command_digest" = .binary c.digest := by
  rw [get, fetch_commandRow h]
  rfl

theorem get_commandType : get (commandRow kind c admission more).toTerm "command_type" = str c.content.type := by
  rw [get, fetch_commandRow h]
  rfl

theorem get_admission : get (commandRow kind c admission more).toTerm "admission" = admission := by
  rw [get, fetch_commandRow h]
  rfl

/-- A field that the kind of a row adds. -/
theorem get_more {name : String} {v : Term} (hv : more.get name = some v) :
    get (commandRow kind c admission more).toTerm name = v := by
  have hname : name ∉ identityNames := by
    have hmem := Fields.get_isSome.1 (Option.isSome_iff_exists.2 ⟨v, hv⟩)
    unfold Beside at h
    rw [List.append_assoc] at h
    exact fun hid => (List.disjoint_of_nodup_append h) hid (List.mem_append_left _ hmem)
  have hnone : (identityFields c admission).get name = none := by
    rw [← Option.not_isSome_iff_eq_none, Fields.get_isSome]
    exact hname
  rw [get, fetch_commandRow h, hnone, hv]
  rfl

theorem fetch_revision {name : String} (hname : name ∈ ["command_revision", "authored_bounds"]) :
    fetch (commandRow kind c admission more).toTerm name = (revisionFields c admission).get name := by
  have hnone : (identityFields c admission ++ more).get name = none := by
    rw [← Option.not_isSome_iff_eq_none, Fields.get_isSome, List.map_append]
    exact fun hmem => (List.disjoint_of_nodup_append h) hmem hname
  rw [Row.toTerm, fetch_record (nodup_commandRow h), commandRow_fields, Fields.get_append, hnone, Option.none_or]

theorem revisionKeys_commandRow :
    revisionKeys (commandRow kind c admission more).toTerm = (revisionFields c admission).map Prod.fst := by
  rw [revisionKeys, Row.toTerm, isPlainMap_record (nodup_commandRow h), ← Row.toTerm, get_commandType h, get_admission h]
  unfold revisionFields
  cases c.content <;> by_cases ha : admission = str "accepted" <;> simp [Content.type, ToolDefinition.among, ha]

/-- **A row is closed on its own fields.** -/
theorem closedHistory_commandRow : closedHistory (commandRow kind c admission more).toTerm
    (identityNames ++ more.map Prod.fst) = true := by
  refine (closedHistory_record (nodup_commandRow h)).2 fun name => ?_
  rw [← Row.toTerm, revisionKeys_commandRow h, commandRow_fields, List.map_append, List.map_append]
  rfl

end

end Loopex.Runtime
