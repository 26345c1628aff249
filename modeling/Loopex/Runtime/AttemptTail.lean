import Loopex.Runtime.CommandRows
import Loopex.System.Run

/-!
# The tail of an open attempt

Control reads the rows from the opening of a provider attempt to the head of the journal, and gives the attempt its
permit if nothing after the opening could have invalidated it.  The filter is a second grammar of the rows of commands:
accepted rows recompute their identity, refused rows keep only the fields that their writers emit.

* `providerAttemptTailRecord` — the filter, clause by clause
* `providerAdmissionTail` — a tail, with the run that a maintenance attempt does not name
* `Commits`, `Session.Open` — what a session commits, and what holds of it while an attempt is open
* `Admits`, `admits_of_proposeNew` — the rows of commands while an attempt is open
* `providerAdmissionTail_iff` — the tails that are accepted
* `tail_exact` — when the filter is exact
-/

namespace Loopex.Runtime

open Loopex.Erlang Loopex.Erlang.Term Loopex.Store Loopex.System
open Loopex.Runtime.ToolDefinition (among)
open Loopex.Runtime.ConfigureCommand (itemSize Work)

/-! ## the filter -/

def isNonempty : Term → Bool
  | .binary b => 0 < b.length
  | _ => false

/-- The digest of a command that the row says is its own. -/
def digests (row command : Term) : Bool := looseEq (.binary (commandDigest command)) (get row "command_digest")

/-- A prompt or a follow-up put together from its row. -/
def authoredCommand (type : String) (row : Term) (bounds : Option Authored) : Term :=
  atomMap ([("type", sym type), ("command_id", get row "command_id"), ("content", get row "content")] ++
    (bounds.map fun b => ("bounds", b.native)).toList)

/-- `validate_authored_bounds_record`. -/
def validateAuthoredBoundsRecord (row : Term) : Bool :=
  let kind := if get row "command_type" = str "prompt" then BoundsKind.prompt else .followUp
  let type := if get row "command_type" = str "prompt" then "prompt" else "follow_up"
  if among (get row "command_type") ["prompt", "follow_up"] then
    looseEq (get row "command_revision") (.int 2) &&
      if get row "admission" = str "accepted" then
        (fetch row "authored_bounds").isSome &&
          match Authored.decodeRetained (get row "authored_bounds") kind with
          | some bounds => digests row (authoredCommand type row bounds)
          | none => false
      else (fetch row "authored_bounds").isNone
  else true

/-- The clause of an accepted steer or follow-up. -/
def acceptedInput (row runId : Term) : Bool :=
  let command :=
    if get row "command_type" = str "steer" then
      atomMap [("type", sym "steer"), ("command_id", get row "command_id"), ("content", get row "content"),
        ("run_id", runId)]
    else authoredCommand "follow_up" row ((Authored.decodeRetained (get row "authored_bounds") .followUp).getD none)
  validateAuthoredBoundsRecord row && closedHistory row (identityNames ++ ["run_id", "content"]) && isBinary runId &&
    looseEq (get row "run_id") runId && isNonempty (get row "content") && digests row command

/-- The clause of an input that was admitted after its deadline. -/
def elapsedInput (row : Term) : Bool :=
  validateAuthoredBoundsRecord row && closedHistory row (identityNames ++ ["admitted_at", "deadline_at_ms"]) &&
    among (get row "command_type") ["prompt", "follow_up"] &&
    (Authored.authored (atomMap [("deadline_at_ms", get row "deadline_at_ms")]) .followUp).isSome &&
    match get row "admitted_at", get row "deadline_at_ms" with
    | .int now, .int ceiling => ceiling ≤ now
    | _, _ => false

/-- The refusals that keep nothing but an identity. -/
def refusals : List (String × String) :=
  [("prompt", "rejected_run_active"), ("steer", "rejected_run_mismatch"), ("steer", "rejected_steer_pending"),
    ("steer", "rejected_no_active_run"), ("follow_up", "rejected_follow_up_pending"),
    ("follow_up", "rejected_no_active_run"), ("abort", "rejected_no_active_run"),
    ("interaction_answer", "rejected_interaction_absent"), ("interaction_answer", "rejected_interaction_resolved"),
    ("interaction_answer", "rejected_invalid_interaction_answer")]

/-- The commands that a pending compaction refuses. -/
def refusedTypes : List String := ["prompt", "steer", "follow_up", "configure", "compact", "interaction_answer"]

/-- The clause of the other generic admissions. -/
def refusedCommand (row : Term) : Bool :=
  (closedHistory row identityNames &&
      (get row "command_type", get row "admission") ∈ refusals.map fun r => (str r.1, str r.2)) ||
    (closedHistory row identityNames && get row "admission" = str "rejected_maintenance_active" &&
      among (get row "command_type") refusedTypes)

/-- `valid_refused_candidate?`. -/
def validRefusedCandidate (dimension candidate : Term) : Bool :=
  if dimension = str "command_record_bytes" then
    among candidate ["prompt_record", "steer_record", "follow_up_record", "interaction_answer_record"]
  else if dimension = str "command_event_bytes" then candidate = str "follow_up_user_message_event"
  else if dimension = str "future_bound_record_bytes" then
    among candidate ["max_turns_private_terminal", "max_turns_public_finish", "token_budget_private_terminal",
      "token_budget_public_finish", "deadline_private_terminal", "deadline_public_finish"]
  else false

/-- The clause of a command that was too large, with `admissible_command_kind?`. -/
def refusedCandidate (row : Term) : Bool :=
  closedHistory row (identityNames ++ ["dimension", "candidate", "observed", "limit"]) &&
    among (get row "command_type") ["prompt", "steer", "follow_up", "interaction_answer"] &&
    get row "admission" = str "rejected_durable_candidate_bytes" && looseEq (get row "limit") (.int 65536) &&
    (match get row "observed" with
    | .int observed => 65536 < observed
    | _ => false) &&
    validRefusedCandidate (get row "dimension") (get row "candidate")

/-- The clause of a configuration that is refused because work is in progress. -/
def refusedConfiguration (row : Term) : Bool :=
  closedHistory row (identityNames ++ ["changes", "prior_configuration_version", "configuration"]) &&
    get row "command_type" = str "configure" && get row "admission" = str "rejected_configuration_not_settled" &&
    get row "configuration" = nil &&
    (match get row "prior_configuration_version" with
    | .int version => 0 < version
    | _ => false) &&
    SessionConfiguration.validateUpdate (get row "changes") &&
    digests row (atomMap [("type", sym "configure"), ("command_id", get row "command_id"), ("changes", get row "changes")])

/-- The clause of a compaction that is refused because a run is active. -/
def refusedCompact (row : Term) (sessionId : Bytes) : Bool :=
  closedHistory row (identityNames ++ ["bounds", "episode_id"]) && get row "command_type" = str "compact" &&
    get row "admission" = str "rejected_run_active" &&
    ((normalizeCompactBounds (get row "bounds")).any fun bounds => looseEq bounds.toTerm (get row "bounds")) &&
    (match get row "command_id" with
    | .binary commandId => looseEq (get row "episode_id") (.binary (stableId "compact" sessionId commandId))
    | _ => false) &&
    digests row (atomMap [("type", sym "compact"), ("command_id", get row "command_id"), ("bounds", get row "bounds")])

/-- `provider_attempt_tail_record?`. -/
def providerAttemptTailRecord (row runId : Term) (sessionId : Bytes) : Bool :=
  isPlainMap row && isNonempty (get row "command_id") && isDigest (get row "command_digest") &&
    validateAuthoredBoundsRecord row &&
    if kindOf row = str "command_admitted" then
      if get row "admission" = str "accepted" && among (get row "command_type") ["steer", "follow_up"] then
        acceptedInput row runId
      else if get row "admission" = str "rejected_deadline_elapsed" then elapsedInput row
      else refusedCommand row
    else if kindOf row = str "command_admission_refused_v1" then refusedCandidate row
    else if kindOf row = str "session_configuration_admitted_v2" then refusedConfiguration row
    else if kindOf row = str "compact_command_admitted_v1" then refusedCompact row sessionId
    else false

/-- What the tail of an attempt reads of its binding: a maintenance attempt names no run. -/
structure AttemptBinding where
  sessionId : Bytes
  runId : Option Bytes

/-- One row of a tail: the run whose attempt it is, and the commands so far. -/
def tailStep (sessionId : Bytes) (acc : Term × List Term) (row : Term) : Option (Term × List Term) :=
  let parent := if acc.1 = nil && get row "admission" = str "accepted" then get row "run_id" else acc.1
  let commandId := get row "command_id"
  if commandId ∉ acc.2 && providerAttemptTailRecord row parent sessionId then some (parent, commandId :: acc.2) else none

/-- `provider_admission_tail?`. -/
def providerAdmissionTail (rows : List Term) (binding : AttemptBinding) : Bool :=
  (rows.foldlM (tailStep binding.sessionId) ((binding.runId.map .binary).getD nil, [])).isSome

/-! ## what is committed -/

/-- The kinds of rows that commands are committed as. -/
def commandKinds : List String :=
  ["command_admitted", "model_question_abort_admitted_v2", "prompt_admitted_v3", "model_question_response_admitted_v2",
    "policy_interaction_answer_admitted_v1", "session_configuration_admitted_v2", "compact_command_admitted_v1",
    "compact_abort_admitted_v1", "command_admission_refused_v1", "resource_command_v1"]

/-- One committed row: of a command, of a resource command, or of another kind, which may change anything. -/
inductive Commits : Session → Term → Session → Prop
  | command {s next : Session} {row : Row} (c : Command) (r : Resolved) (h : propose s c r = some (row, next)) :
    Commits s row.toTerm next
  | resource {s next : Session} {row : Row} (c : ResourceCommand) (resolution : ResourceResolution)
    (h : commitResourceCommand s c resolution = some (row, next)) : Commits s row.toTerm next
  | other {s next : Session} {row : Term} (hkind : kindOf row ∉ commandKinds.map str) : Commits s row next

/-- An attempt of this binding is open: one run is active or one compaction is pending, and nothing is being asked. -/
structure Session.Open (s : Session) (binding : AttemptBinding) : Prop where
  session : binding.sessionId = s.sessionId
  run : ∀ runId ∈ binding.runId, s.work.activeRunId = some runId
  owner : s.work.pendingCompact.isSome = s.work.activeRunId.isNone
  question : s.work.openInteraction = none
  configured : SessionConfiguration.validate s.configuration s.definitions = true

/-- The rows after which an attempt has no authority: an accepted abort, and what is not a command's. -/
def Invalidates (row : Term) : Prop :=
  kindOf row ∉ commandKinds.map str ∨ get row "command_type" = str "abort" ∧ get row "admission" = str "accepted"

/-- The rows that the filter has no clause for: a resource command's, and a configure, compact or abort command's that
was too large. -/
def Overlooked (row : Term) : Prop :=
  kindOf row = str "resource_command_v1" ∨
    kindOf row = str "command_admission_refused_v1" ∧ among (get row "command_type") ["configure", "compact", "abort"] = true

/-- A command leaves the attempt as it was, but for its identity and the queues. -/
structure Keeps (s : Session) (c : Command) (next : Session) : Prop where
  sessionId : next.sessionId = s.sessionId
  configuration : next.configuration = s.configuration
  definitions : next.definitions = s.definitions
  activeRunId : next.work.activeRunId = s.work.activeRunId
  pendingCompact : next.work.pendingCompact = s.work.pendingCompact
  openInteraction : next.work.openInteraction = s.work.openInteraction
  commands : next.commands = (c.commandId, c.digest) :: s.commands

variable {s next : Session} {c : Command} {r : Resolved} {row : Row} {binding : AttemptBinding}

theorem keeps_bind : Keeps s c (s.bind c) := by constructor <;> rfl

theorem Session.Open.kept (h : s.Open binding) (hk : Keeps s c next) : next.Open binding where
  session := h.session.trans hk.sessionId.symm
  run runId hrun := hk.activeRunId.trans (h.run runId hrun)
  owner := by rw [hk.pendingCompact, hk.activeRunId, h.owner]
  question := hk.openInteraction.trans h.question
  configured := by rw [hk.configuration, hk.definitions, h.configured]

/-- The rows of commands while an attempt is open. -/
inductive Admits (s : Session) (c : Command) : Row → Session → Prop
  | elapsed {now ceiling : ℤ} (htype : c.content.type ∈ ["prompt", "follow_up"])
    (hceiling : 0 < ceiling ∧ ceiling ≤ jsonIntegerMax) (hnow : ceiling ≤ now) :
    Admits s c (elapsedRow c now ceiling) (s.bind c)
  | refused {admission : String} (h : (c.content.type, admission) ∈ refusals) :
    Admits s c (refusalRow c admission) (s.bind c)
  | maintenance (h : c.content.type ∈ refusedTypes) : Admits s c (refusalRow c "rejected_maintenance_active") (s.bind c)
  | input {active content : Bytes} {next : Session} (hactive : s.work.activeRunId = some active)
    (hc : c.content = .steer active content ∨ ∃ bounds, c.content = .followUp content bounds) (hk : Keeps s c next) :
    Admits s c (commandRow "command_admitted" c (str "accepted") [("run_id", .binary active), ("content", .binary content)])
      next
  | compact {bounds : CompactBounds} (hc : c.content = .compact bounds) :
    Admits s c (commandRow "compact_command_admitted_v1" c (str "rejected_run_active") [("bounds", bounds.toTerm),
      ("episode_id", .binary (stableId "compact" s.sessionId c.commandId))]) (s.bind c)
  | configure {changes : Term} {version : ℤ} {next : Session} (hc : c.content = .configure changes) (hversion : 0 < version)
    (hk : Keeps s c next) :
    Admits s c (commandRow "session_configuration_admitted_v2" c (str "rejected_configuration_not_settled")
      [("changes", changes), ("prior_configuration_version", .int version), ("configuration", nil)]) next
  | tooLarge {dimension candidate : String} {observed : ℕ} (hobserved : maxItemBytes < observed)
    (h : among (str c.content.type) ["prompt", "steer", "follow_up", "interaction_answer"] = true →
      validRefusedCandidate (str dimension) (str candidate) = true) :
    Admits s c (tooLargeRow c dimension candidate observed) (s.bind c)
  | abort {kind : String} {more : Fields} {next : Session} (hc : c.content = .abort) (hmore : Beside more) :
    Admits s c (commandRow kind c (str "accepted") more) next

/-! ## the rows while an attempt is open -/

theorem preflightCandidate_tooLarge {plane : Plane} {t : Term} {dimension name d n : String} {observed : ℕ}
    (h : preflightCandidate plane t dimension name = .tooLarge d n observed) :
    d = dimension ∧ n = name ∧ maxItemBytes < observed := by
  unfold preflightCandidate at h
  split at h
  · split at h
    · cases h
    · next hlarge =>
      cases h
      exact ⟨rfl, rfl, by omega⟩
  · cases h

theorem Verdict.andThen_eq_tooLarge {v w : Verdict} {d n : String} {observed : ℕ}
    (h : v.andThen w = .tooLarge d n observed) : v = .tooLarge d n observed ∨ w = .tooLarge d n observed := by
  cases v with
  | fits => exact .inr h
  | tooLarge d' n' o' => exact .inl h
  | invalid => cases h

theorem preflightEvents_tooLarge {events : List Term} {type d n : String} {observed : ℕ}
    (h : preflightEvents events type = .tooLarge d n observed) :
    type = "follow_up" ∧ d = "command_event_bytes" ∧ n = "follow_up_user_message_event" ∧ maxItemBytes < observed := by
  unfold preflightEvents at h
  induction events using List.reverseRecOn with
  | nil => cases h
  | append_singleton events event ih =>
    rw [List.foldl_append, List.foldl_cons, List.foldl_nil] at h
    rcases Verdict.andThen_eq_tooLarge h with h | h
    · exact ih h
    · split at h
      · next htype => exact ⟨htype, preflightCandidate_tooLarge h⟩
      · split at h <;> cases h

/-- A row without bounds of its own is refused for itself, or for the event of its promotion. -/
theorem preflightCommand_tooLarge {events : List Term} {runId : Bytes} {d n : String} {observed : ℕ}
    (hbounds : row.fields.get "max_turns" = none) (h : preflightCommand s c row events runId = .tooLarge d n observed) :
    maxItemBytes < observed ∧
      (among (str c.content.type) ["prompt", "steer", "follow_up", "interaction_answer"] = true →
        validRefusedCandidate (str d) (str n) = true) := by
  rcases Verdict.andThen_eq_tooLarge h with h | h
  · rcases Verdict.andThen_eq_tooLarge h with h | h
    · obtain ⟨rfl, rfl, hlarge⟩ := preflightCandidate_tooLarge h
      refine ⟨hlarge, fun htype => ?_⟩
      simp only [among, List.map_cons, List.map_nil, List.mem_cons, str_inj, List.not_mem_nil, or_false,
        decide_eq_true_eq] at htype
      rcases htype with htype | htype | htype | htype <;> rw [htype] <;> decide
    · obtain ⟨htype, rfl, rfl, hlarge⟩ := preflightEvents_tooLarge h
      exact ⟨hlarge, fun _ => by decide⟩
  · rw [preflightFutureBounds, hbounds] at h
    cases h

/-- A proposal is its own row, or the refusal of one that is too large. -/
theorem admittedProposal_eq_some {events : List Term} {proposed : Row} {kept : Session}
    (hbounds : proposed.fields.get "max_turns" = none) (h : admittedProposal s c proposed events kept = some (row, next)) :
    row = proposed ∧ next = kept ∨ Admits s c row next := by
  simp only [admittedProposal] at h
  generalize hverdict : preflightCommand s c proposed events _ = verdict at h
  cases verdict with
  | fits =>
    cases h
    exact .inl ⟨rfl, rfl⟩
  | tooLarge dimension candidate observed =>
    cases h
    obtain ⟨hobserved, hvalid⟩ := preflightCommand_tooLarge hbounds hverdict
    exact .inr (.tooLarge hobserved hvalid)
  | invalid => cases h

theorem configurationVersion_positive (ho : s.Open binding) :
    ∃ version : ℤ, 0 < version ∧ ConfigureCommand.configurationVersion s.settings = .int version := by
  obtain ⟨hclosed, hpositive, -⟩ := SessionConfiguration.validate_spec ho.configured
  have hne : s.settings.configuration ≠ nil := by
    intro hnil
    rw [show s.configuration = nil from hnil] at hclosed
    cases hclosed
  rw [ConfigureCommand.configurationVersion, if_neg hne]
  change ∃ version : ℤ, 0 < version ∧ get s.configuration "configuration_version" = .int version
  cases hv : get s.configuration "configuration_version" with
  | int version =>
    rw [hv] at hpositive
    simp only [positive, Bool.and_eq_true, decide_eq_true_eq] at hpositive
    exact ⟨version, by omega, rfl⟩
  | _ => rw [hv] at hpositive; cases hpositive

/-- A configuration is not settled while a run is active. -/
theorem admits_proposeConfigure {active : Bytes} {command : ConfigureCommand.Command} (ho : s.Open binding)
    (hactive : s.work.activeRunId = some active) (hc : c.content = .configure command.changes)
    (h : proposeConfigure s c r command = some (row, next)) : Admits s c row next := by
  unfold proposeConfigure at h
  split at h
  next configured events after hproposed =>
    cases h
    obtain ⟨rfl, happly⟩ := ConfigureCommand.proposeNew_eq_proposed hproposed
    have hsettled : ConfigureCommand.configurationSettled s.settings.work = false := by
      simp [ConfigureCommand.configurationSettled, Session.settings, hactive]
    have hadmission : ConfigureCommand.admissionOf s.settings command r.configure = .rejectedConfigurationNotSettled := by
      simp [ConfigureCommand.admissionOf, hsettled]
    obtain ⟨version, hpositive, hversion⟩ := configurationVersion_positive ho
    obtain ⟨kept, reply, heffect, rfl⟩ := ConfigureCommand.applyCommandRecord_eq_some happly
    obtain ⟨-, -, -, -, -, hkept⟩ := ConfigureCommand.commandEffect_eq_some heffect
    have hsame : kept.configuration = s.configuration := hkept (by simp [ConfigureCommand.recordOf, hadmission])
    have hkeeps : Keeps s c { s.bind c with configuration := kept.configuration } :=
      ⟨rfl, hsame, rfl, rfl, rfl, rfl, rfl⟩
    have hrow := Admits.configure hc hpositive hkeeps
    simp only [ConfigureCommand.recordOf, hadmission, hversion, ConfigureCommand.Admission.toTerm,
      ConfigureCommand.configurationRecordChanges, reduceCtorEq, if_false]
    exact hrow
  next observed hlarge =>
    cases h
    refine .tooLarge (ConfigureCommand.proposeNew_eq_tooLarge hlarge) fun htype => ?_
    rw [hc] at htype
    simp [Content.type, among] at htype
  next => cases h

theorem answerable_error {interactionId : Bytes} {answer : Answer} {admittedAt : Option ℤ} {admission : String}
    (h : answerable s interactionId answer admittedAt = .error admission) :
    ("interaction_answer", admission) ∈ refusals := by
  unfold answerable at h
  repeat' split at h
  all_goals cases h
  all_goals decide

/-- No question is answered where none is open. -/
theorem answerable_ok {interactionId : Bytes} {answer : Answer} {admittedAt : Option ℤ} {question : Question}
    (h : answerable s interactionId answer admittedAt = .ok question) : s.work.openInteraction = some interactionId := by
  by_contra hopen
  simp only [answerable, ne_eq, hopen, not_false_eq_true, if_true] at h
  repeat' split at h
  all_goals cases h

theorem admits_proposeIdle (ho : s.Open binding) (hidle : s.work.pendingCompact = none)
    (h : proposeIdle s c r = some (row, next)) : Admits s c row next := by
  obtain ⟨active, hactive⟩ : ∃ active, s.work.activeRunId = some active := by
    have howner := ho.owner
    rw [hidle] at howner
    exact Option.isSome_iff_exists.1 (by simpa using howner)
  unfold proposeIdle at h
  rw [hactive] at h
  cases hc : c.content with
  | prompt content bounds =>
    simp only [hc] at h
    split at h
    · cases h
    · cases h
      exact .refused (by rw [hc]; simp [Content.type, refusals])
  | configure changes =>
    simp only [hc, Option.bind_eq_some_iff] at h
    obtain ⟨command, hcommand, h⟩ := h
    refine admits_proposeConfigure ho hactive ?_ h
    obtain ⟨id, content, hid, hvalid⟩ := c
    obtain rfl := hc
    cases hcommand
    rfl
  | compact bounds =>
    simp only [hc] at h
    rcases admittedProposal_eq_some (commandRow_get_none (by decide) rfl) h with ⟨rfl, rfl⟩ | h
    · exact .compact hc
    · exact h
  | abort =>
    simp only [hc] at h
    cases h
    exact .abort hc (@beside_of_names _ ["run_id"] rfl (by decide))
  | steer runId content =>
    simp only [hc] at h
    split at h
    · cases h
      exact .refused (by rw [hc]; simp [Content.type, refusals])
    · next hrun =>
      split at h
      · cases h
        exact .refused (by rw [hc]; simp [Content.type, refusals])
      · rcases admittedProposal_eq_some (commandRow_get_none (by decide) rfl) h with ⟨rfl, rfl⟩ | h
        · obtain rfl : runId = active := by simpa using hrun
          exact .input hactive (.inl hc) ⟨rfl, rfl, rfl, rfl, rfl, rfl, rfl⟩
        · exact h
  | followUp content bounds =>
    simp only [hc] at h
    split at h
    · cases h
      exact .refused (by rw [hc]; simp [Content.type, refusals])
    · rcases admittedProposal_eq_some (commandRow_get_none (by decide) rfl) h with ⟨rfl, rfl⟩ | h
      · exact .input hactive (.inr ⟨bounds, hc⟩) ⟨rfl, rfl, rfl, rfl, rfl, rfl, rfl⟩
      · exact h
  | interactionAnswer interactionId answer =>
    simp only [hc] at h
    split at h
    next admission herror =>
      cases h
      exact .refused (by rw [hc]; exact answerable_error herror)
    next question hok =>
      have := answerable_ok hok
      rw [ho.question] at this
      cases this

/-- The ceiling of a command that is too late is in the domain of its bounds. -/
theorem elapsed_eq_some {now ceiling : ℤ} (h : elapsed c r = some (now, ceiling)) :
    c.content.type ∈ ["prompt", "follow_up"] ∧ (0 < ceiling ∧ ceiling ≤ jsonIntegerMax) ∧ ceiling ≤ now := by
  unfold elapsed at h
  split at h
  next content bounds hc hnow =>
    have hvalid := c.valid
    rw [hc] at hvalid
    obtain ⟨ceiling', hceiling, h⟩ := Option.bind_eq_some_iff.1 h
    split at h
    next hle =>
      cases h
      exact ⟨by simp [hc, Content.type], (hvalid.2 _ rfl).deadlineAtMs hceiling, hle⟩
    next => cases h
  next content bounds hc hnow =>
    have hvalid := c.valid
    rw [hc] at hvalid
    obtain ⟨ceiling', hceiling, h⟩ := Option.bind_eq_some_iff.1 h
    split at h
    next hle =>
      cases h
      exact ⟨by simp [hc, Content.type], (hvalid.2 _ rfl).deadlineAtMs hceiling, hle⟩
    next => cases h
  next => cases h

/-- **The rows of commands while an attempt is open.** -/
theorem admits_proposeNew (ho : s.Open binding) (h : proposeNew s c r = some (row, next)) : Admits s c row next := by
  unfold proposeNew at h
  split at h
  next now ceiling helapsed =>
    cases h
    obtain ⟨htype, hceiling, hnow⟩ := elapsed_eq_some helapsed
    exact .elapsed htype hceiling hnow
  next compactId hpending hc =>
    rcases admittedProposal_eq_some (commandRow_get_none (by decide) rfl) h with ⟨rfl, rfl⟩ | h
    · exact .abort hc (@beside_of_names _ ["compact_command_id", "episode_id"] rfl (by decide))
    · exact h
  next compactId hpending hne =>
    cases h
    refine .maintenance ?_
    cases hc : c.content <;> simp_all [Content.type, refusedTypes]
  next hpending => exact admits_proposeIdle ho hpending h

/-! ## the rows that are accepted -/

section
variable {kind : String} {admission : Term} {more : Fields} {parent : Term} {sessionId : Bytes}

theorem digests_self {fields : Fields} (h : Beside more) (hcommand : c.toTerm = atomMap fields) :
    digests (commandRow kind c admission more).toTerm (atomMap fields) = true := by
  rw [digests, get_commandDigest h, ← hcommand]
  exact looseEq_self _

/-- A row of an authored command is put together to that command. -/
theorem authoredCommand_eq {type : String} {content : Bytes} {bounds : Option Authored} (h : Beside more)
    (hcontent : more.get "content" = some (.binary content)) :
    authoredCommand type (commandRow kind c admission more).toTerm bounds =
      atomMap ([("type", sym type), ("command_id", .binary c.commandId), ("content", .binary content)] ++
        (bounds.map fun b => ("bounds", b.native)).toList) := by
  rw [authoredCommand, get_commandId h, get_more h hcontent]

/-- An authored command is its type, its identity, its content and the bounds it declares. -/
theorem toTerm_authored {content : Bytes} {bounds : Option Authored}
    (hc : c.content = .prompt content bounds ∨ c.content = .followUp content bounds) :
    c.toTerm = atomMap ([("type", sym c.content.type), ("command_id", .binary c.commandId), ("content", .binary content)] ++
      (bounds.map fun b => ("bounds", b.native)).toList) := by
  rcases hc with hc | hc <;> rw [Command.toTerm, hc] <;> rfl

/-- The bounds that a row retains are those of its command, and agree with its digest. -/
theorem authored_commandRow (h : Beside more) {content : Bytes} {bounds : Option Authored}
    (hc : c.content = .prompt content bounds ∨ c.content = .followUp content bounds)
    (hcontent : more.get "content" = some (.binary content)) :
    fetch (commandRow kind c (str "accepted") more).toTerm "authored_bounds" = some (Authored.retained bounds) ∧
      digests (commandRow kind c (str "accepted") more).toTerm
        (authoredCommand c.content.type (commandRow kind c (str "accepted") more).toTerm bounds) = true := by
  constructor
  · rw [fetch_revision h (by simp)]
    rcases hc with hc | hc <;> simp [revisionFields, hc]
  · rw [authoredCommand_eq h hcontent]
    exact digests_self h (toTerm_authored hc)

/-- What a row retains of its command's bounds agrees with its digest. -/
theorem validateAuthoredBoundsRecord_commandRow (h : Beside more)
    (hcontent : ∀ content bounds, c.content = .prompt content bounds ∨ c.content = .followUp content bounds →
      admission = str "accepted" → more.get "content" = some (.binary content)) :
    validateAuthoredBoundsRecord (commandRow kind c admission more).toTerm = true := by
  unfold validateAuthoredBoundsRecord
  rw [get_commandType h, get_admission h]
  by_cases htype : ∃ content bounds, c.content = .prompt content bounds ∨ c.content = .followUp content bounds
  · obtain ⟨content, bounds, hc⟩ := htype
    have hamong : among (str c.content.type) ["prompt", "follow_up"] = true := by
      rcases hc with hc | hc <;> simp [hc, Content.type, among]
    have hrevision : get (commandRow kind c admission more).toTerm "command_revision" = .int 2 := by
      rw [get, fetch_revision h (by simp)]
      rcases hc with hc | hc <;> simp [revisionFields, hc]
    rw [hamong, hrevision, if_pos rfl, looseEq_self, Bool.true_and]
    by_cases ha : admission = str "accepted"
    · subst ha
      obtain ⟨hbounds, hdigest⟩ := @authored_commandRow c kind more h content bounds hc (hcontent content bounds hc rfl)
      have hdecoded : Authored.decodeRetained (Authored.retained bounds)
          (if str c.content.type = str "prompt" then BoundsKind.prompt else .followUp) = some bounds := by
        have hvalid := c.valid
        rcases hc with hc | hc <;> rw [hc] at hvalid ⊢
        · exact Authored.decodeRetained_retained hvalid.2
        · exact Authored.decodeRetained_retained hvalid.2
      have htype : (if str c.content.type = str "prompt" then "prompt" else "follow_up") = c.content.type := by
        rcases hc with hc | hc <;> simp [hc, Content.type]
      rw [if_pos rfl, hbounds, get, hbounds, Option.getD_some, hdecoded, htype, Option.isSome_some, Bool.true_and]
      exact hdigest
    · rw [if_neg ha, fetch_revision h (by simp)]
      rcases hc with hc | hc <;> simp [revisionFields, hc, ha]
  · have hamong : among (str c.content.type) ["prompt", "follow_up"] = false := by
      cases hc : c.content <;> simp_all [Content.type, among]
    rw [hamong, if_neg (by simp)]

/-- Every row of a command names its command. -/
theorem tailRecord_commandRow (h : Beside more)
    (hcontent : ∀ content bounds, c.content = .prompt content bounds ∨ c.content = .followUp content bounds →
      admission = str "accepted" → more.get "content" = some (.binary content)) :
    providerAttemptTailRecord (commandRow kind c admission more).toTerm parent sessionId =
      if kind = "command_admitted" then
        if admission = str "accepted" ∧ c.content.type ∈ ["steer", "follow_up"] then
          acceptedInput (commandRow kind c admission more).toTerm parent
        else if admission = str "rejected_deadline_elapsed" then elapsedInput (commandRow kind c admission more).toTerm
        else refusedCommand (commandRow kind c admission more).toTerm
      else if kind = "command_admission_refused_v1" then refusedCandidate (commandRow kind c admission more).toTerm
      else if kind = "session_configuration_admitted_v2" then refusedConfiguration (commandRow kind c admission more).toTerm
      else if kind = "compact_command_admitted_v1" then refusedCompact (commandRow kind c admission more).toTerm sessionId
      else false := by
  have hplain : isPlainMap (commandRow kind c admission more).toTerm = true := isPlainMap_record (nodup_commandRow h)
  have hid : isNonempty (.binary c.commandId) = true := by
    simpa [isNonempty] using List.length_pos_iff.2 c.nonempty
  have hdigest : isDigest (.binary c.digest) = true := by
    obtain ⟨hlen, hhex⟩ := commandDigest_hex c.toTerm
    simp only [isDigest, Command.digest, hlen, hhex, decide_true, Bool.and_self]
  rw [providerAttemptTailRecord, hplain, get_commandId h, hid, get_commandDigest h, hdigest,
    validateAuthoredBoundsRecord_commandRow h hcontent, kindOf_commandRow h, get_admission h, get_commandType h]
  simp only [Bool.and_self, Bool.true_and, str_inj, among, List.map_cons, List.map_nil, List.mem_cons, List.not_mem_nil,
    or_false, Bool.and_eq_true, decide_eq_true_eq]

/-- An accepted steer or follow-up of the run is let pass. -/
theorem input_accepted {active content : Bytes}
    (hc : c.content = .steer active content ∨ ∃ bounds, c.content = .followUp content bounds) :
    providerAttemptTailRecord (commandRow "command_admitted" c (str "accepted")
      [("run_id", .binary active), ("content", .binary content)]).toTerm (.binary active) sessionId = true := by
  have h : Beside [("run_id", .binary active), ("content", .binary content)] :=
    @beside_of_names _ ["run_id", "content"] rfl (by decide)
  have hown : ∀ content' bounds, c.content = .prompt content' bounds ∨ c.content = .followUp content' bounds →
      str "accepted" = str "accepted" →
      Fields.get [("run_id", .binary active), ("content", .binary content)] "content" = some (.binary content') := by
    intro content' bounds hcontent _
    rcases hc with hc | ⟨bounds', hc⟩ <;> rw [hc] at hcontent <;> simp_all
  have hne : isNonempty (.binary content) = true := by
    have hvalid := c.valid
    rcases hc with hc | ⟨bounds, hc⟩ <;> rw [hc] at hvalid
    · simpa [isNonempty] using List.length_pos_iff.2 hvalid.2
    · simpa [isNonempty] using List.length_pos_iff.2 hvalid.1
  have htype : c.content.type ∈ ["steer", "follow_up"] := by
    rcases hc with hc | ⟨bounds, hc⟩ <;> simp [hc, Content.type]
  have hvalid := @validateAuthoredBoundsRecord_commandRow c "command_admitted" _ _ h hown
  have hclosed := @closedHistory_commandRow c "command_admitted" (str "accepted") _ h
  have hcontent := @get_more c "command_admitted" (str "accepted") _ h "content" (.binary content) (by simp)
  have hrun := @get_more c "command_admitted" (str "accepted") _ h "run_id" (.binary active) (by simp)
  rw [tailRecord_commandRow h hown, if_pos rfl, if_pos ⟨rfl, htype⟩, acceptedInput, hvalid, hcontent, hrun, hne,
    looseEq_self, get_commandType h, get_commandId h]
  simp only [List.map_cons, List.map_nil] at hclosed
  simp only [hclosed, isBinary, Bool.and_self, Bool.true_and]
  rcases hc with hc | ⟨bounds, hc⟩
  · rw [if_pos (by rw [hc]; rfl)]
    exact digests_self h (by rw [Command.toTerm, hc]; rfl)
  · obtain ⟨hbounds, hdigest⟩ := @authored_commandRow c "command_admitted" _ h content bounds (.inr hc) (by simp)
    have hvalid := c.valid
    rw [hc] at hvalid hdigest
    rw [if_neg (by simp [hc, Content.type]), get, hbounds, Option.getD_some, Authored.decodeRetained_retained hvalid.2]
    exact hdigest

/-- A refusal that keeps nothing but an identity is let pass. -/
theorem refused_accepted {refusal : String}
    (h : (c.content.type, refusal) ∈ refusals ∨ refusal = "rejected_maintenance_active" ∧ c.content.type ∈ refusedTypes) :
    providerAttemptTailRecord (refusalRow c refusal).toTerm parent sessionId = true := by
  have hb : Beside [] := by unfold Beside; decide
  have hadmission : refusal ≠ "accepted" ∧ refusal ≠ "rejected_deadline_elapsed" := by
    rcases h with h | ⟨rfl, -⟩
    · simp only [refusals, List.mem_cons, Prod.mk.injEq, List.not_mem_nil, or_false] at h
      rcases h with h | h | h | h | h | h | h | h | h | h <;> rw [h.2] <;> decide
    · decide
  have hclosed : closedHistory (refusalRow c refusal).toTerm identityNames = true := closedHistory_commandRow hb
  rw [refusalRow, tailRecord_commandRow hb fun _ _ _ ha => absurd (str_inj.1 ha) hadmission.1, if_pos rfl,
    if_neg fun ha => hadmission.1 (str_inj.1 ha.1), if_neg fun ha => hadmission.2 (str_inj.1 ha), ← refusalRow,
    refusedCommand, hclosed, refusalRow, get_commandType hb, get_admission hb]
  rcases h with h | ⟨rfl, h⟩
  · have hmem : (str c.content.type, str refusal) ∈ refusals.map fun r => (str r.1, str r.2) :=
      List.mem_map.2 ⟨_, h, rfl⟩
    simp only [hmem, decide_true, Bool.and_self, Bool.true_or]
  · have hmem : among (str c.content.type) refusedTypes = true := decide_eq_true (List.mem_map_of_mem h)
    simp only [hmem, decide_true, Bool.and_self, Bool.or_true]

/-- A ceiling in its domain is read as authored bounds of a follow-up. -/
theorem authored_ceiling {ceiling : ℤ} (hceiling : 0 < ceiling ∧ ceiling ≤ jsonIntegerMax) :
    (Authored.authored (atomMap [("deadline_at_ms", .int ceiling)]) .followUp).isSome = true := by
  have hmap : atomMap [("deadline_at_ms", .int ceiling)] = .map [(sym "deadline_at_ms", .int ceiling)] := rfl
  have hatom : ∀ name, SnapshotScan.member (.map [(sym "deadline_at_ms", .int ceiling)]) name =
      if "deadline_at_ms" = name then some (.int ceiling) else none := by
    intro name
    by_cases hname : "deadline_at_ms" = name <;> simp [SnapshotScan.member, lookup, hname]
  have hbinary : ∀ name, fetch (.map [(sym "deadline_at_ms", .int ceiling)]) name = none := by
    intro name
    simp [fetch, lookup, sym, str]
  have hplain : isPlainMap (.map [(sym "deadline_at_ms", .int ceiling)]) = true := by
    rw [isPlainMap, lookup_struct fun e he => ?_]
    · rfl
    · obtain rfl := List.mem_singleton.1 he
      exact fun heq => absurd (sym_inj.1 heq) (by decide)
  have hmembers : Authored.members .followUp (fun name =>
      (SnapshotScan.member (.map [(sym "deadline_at_ms", .int ceiling)]) name).or
        (fetch (.map [(sym "deadline_at_ms", .int ceiling)]) name)) = some ⟨none, none, none, some ceiling⟩ := by
    simp [Authored.members, Authored.member, hatom, hbinary, BoundsKind.fields, Authored.quantity, hceiling]
  rw [hmap, Authored.authored, if_pos, hmembers]
  · rfl
  · simp [hplain, keys, hbinary, boundNames]

/-- An input that was admitted too late is let pass. -/
theorem elapsed_accepted {now ceiling : ℤ} (htype : c.content.type ∈ ["prompt", "follow_up"])
    (hceiling : 0 < ceiling ∧ ceiling ≤ jsonIntegerMax) (hnow : ceiling ≤ now) :
    providerAttemptTailRecord (elapsedRow c now ceiling).toTerm parent sessionId = true := by
  have h : Beside [("admitted_at", .int now), ("deadline_at_ms", .int ceiling)] :=
    @beside_of_names _ ["admitted_at", "deadline_at_ms"] rfl (by decide)
  have hown : ∀ content bounds, c.content = .prompt content bounds ∨ c.content = .followUp content bounds →
      str "rejected_deadline_elapsed" = str "accepted" →
      Fields.get [("admitted_at", .int now), ("deadline_at_ms", .int ceiling)] "content" = some (.binary content) :=
    fun _ _ _ ha => absurd (str_inj.1 ha) (by decide)
  have hvalid := @validateAuthoredBoundsRecord_commandRow c "command_admitted" _ _ h hown
  have hclosed := @closedHistory_commandRow c "command_admitted" (str "rejected_deadline_elapsed") _ h
  have hadmitted := @get_more c "command_admitted" (str "rejected_deadline_elapsed") _ h "admitted_at" (.int now) (by simp)
  have hdeadline :=
    @get_more c "command_admitted" (str "rejected_deadline_elapsed") _ h "deadline_at_ms" (.int ceiling) (by simp)
  have hamong : among (str c.content.type) ["prompt", "follow_up"] = true := decide_eq_true (List.mem_map_of_mem htype)
  rw [elapsedRow, tailRecord_commandRow h hown, if_pos rfl, if_neg fun ha => absurd (str_inj.1 ha.1) (by decide),
    if_pos rfl, elapsedInput, hvalid, hadmitted, hdeadline, authored_ceiling hceiling, get_commandType h, hamong]
  simp only [List.map_cons, List.map_nil] at hclosed
  simp only [hclosed, Bool.and_self, hnow, decide_true]

/-- A configuration that was refused because work is in progress is let pass. -/
theorem configure_accepted {changes : Term} {version : ℤ} (hc : c.content = .configure changes) (hversion : 0 < version) :
    providerAttemptTailRecord (commandRow "session_configuration_admitted_v2" c
      (str "rejected_configuration_not_settled") [("changes", changes), ("prior_configuration_version", .int version),
        ("configuration", nil)]).toTerm parent sessionId = true := by
  have h : Beside [("changes", changes), ("prior_configuration_version", .int version), ("configuration", nil)] :=
    @beside_of_names _ ["changes", "prior_configuration_version", "configuration"] rfl (by decide)
  have hown : ∀ content bounds, c.content = .prompt content bounds ∨ c.content = .followUp content bounds →
      str "rejected_configuration_not_settled" = str "accepted" → Fields.get [("changes", changes),
        ("prior_configuration_version", .int version), ("configuration", nil)] "content" = some (.binary content) :=
    fun _ _ _ ha => absurd (str_inj.1 ha) (by decide)
  have hclosed := @closedHistory_commandRow c "session_configuration_admitted_v2"
    (str "rejected_configuration_not_settled") _ h
  have hchanges := @get_more c "session_configuration_admitted_v2" (str "rejected_configuration_not_settled") _ h
    "changes" changes (by simp)
  have hprior := @get_more c "session_configuration_admitted_v2" (str "rejected_configuration_not_settled") _ h
    "prior_configuration_version" (.int version) (by simp)
  have hnone := @get_more c "session_configuration_admitted_v2" (str "rejected_configuration_not_settled") _ h
    "configuration" nil (by simp)
  have hvalid := c.valid
  rw [hc] at hvalid
  have htype : c.content.type = "configure" := by rw [hc]; rfl
  rw [tailRecord_commandRow h hown, if_neg (by decide), if_neg (by decide), if_pos rfl, refusedConfiguration, hchanges,
    hprior, hnone, get_commandType h, get_admission h, get_commandId h, htype, hvalid.1]
  simp only [List.map_cons, List.map_nil] at hclosed
  simp only [hclosed, hversion, decide_true, Bool.and_self, Bool.true_and]
  exact digests_self h (by rw [Command.toTerm, hc]; rfl)

/-- A compaction that was refused because a run is active is let pass. -/
theorem compact_accepted {bounds : CompactBounds} (hc : c.content = .compact bounds) :
    providerAttemptTailRecord (commandRow "compact_command_admitted_v1" c (str "rejected_run_active")
      [("bounds", bounds.toTerm), ("episode_id", .binary (stableId "compact" sessionId c.commandId))]).toTerm parent
      sessionId = true := by
  have h : Beside [("bounds", bounds.toTerm), ("episode_id", .binary (stableId "compact" sessionId c.commandId))] :=
    @beside_of_names _ ["bounds", "episode_id"] rfl (by decide)
  have hown : ∀ content bounds', c.content = .prompt content bounds' ∨ c.content = .followUp content bounds' →
      str "rejected_run_active" = str "accepted" → Fields.get [("bounds", bounds.toTerm),
        ("episode_id", .binary (stableId "compact" sessionId c.commandId))] "content" = some (.binary content) :=
    fun _ _ _ ha => absurd (str_inj.1 ha) (by decide)
  have hclosed := @closedHistory_commandRow c "compact_command_admitted_v1" (str "rejected_run_active") _ h
  have hbounds := @get_more c "compact_command_admitted_v1" (str "rejected_run_active") _ h "bounds" bounds.toTerm (by simp)
  have hepisode := @get_more c "compact_command_admitted_v1" (str "rejected_run_active") _ h "episode_id"
    (.binary (stableId "compact" sessionId c.commandId)) (by simp)
  have htype : c.content.type = "compact" := by rw [hc]; rfl
  rw [tailRecord_commandRow h hown, if_neg (by decide), if_neg (by decide), if_neg (by decide), if_pos rfl, refusedCompact,
    hbounds, hepisode, get_commandType h, get_admission h, get_commandId h, htype, normalizeCompactBounds_toTerm]
  simp only [List.map_cons, List.map_nil] at hclosed
  simp only [hclosed, Option.any_some, looseEq_self, decide_true, Bool.and_self, Bool.true_and]
  exact digests_self h (by rw [Command.toTerm, hc]; rfl)

/-- A command that was too large is let pass if it is one of four. -/
theorem tooLarge_accepted {dimension candidate : String} {observed : ℕ} (hobserved : maxItemBytes < observed)
    (hvalid : among (str c.content.type) ["prompt", "steer", "follow_up", "interaction_answer"] = true →
      validRefusedCandidate (str dimension) (str candidate) = true) :
    providerAttemptTailRecord (tooLargeRow c dimension candidate observed).toTerm parent sessionId =
      among (str c.content.type) ["prompt", "steer", "follow_up", "interaction_answer"] := by
  have h : Beside [("dimension", str dimension), ("candidate", str candidate), ("observed", .int observed),
      ("limit", .int maxItemBytes)] := @beside_of_names _ ["dimension", "candidate", "observed", "limit"] rfl (by decide)
  have hown : ∀ content bounds, c.content = .prompt content bounds ∨ c.content = .followUp content bounds →
      str "rejected_durable_candidate_bytes" = str "accepted" → Fields.get [("dimension", str dimension),
        ("candidate", str candidate), ("observed", .int observed), ("limit", .int maxItemBytes)] "content" =
          some (.binary content) := fun _ _ _ ha => absurd (str_inj.1 ha) (by decide)
  have hclosed := @closedHistory_commandRow c "command_admission_refused_v1" (str "rejected_durable_candidate_bytes") _ h
  have hdimension := @get_more c "command_admission_refused_v1" (str "rejected_durable_candidate_bytes") _ h
    "dimension" (str dimension) (by simp)
  have hcandidate := @get_more c "command_admission_refused_v1" (str "rejected_durable_candidate_bytes") _ h
    "candidate" (str candidate) (by simp)
  have hcount := @get_more c "command_admission_refused_v1" (str "rejected_durable_candidate_bytes") _ h
    "observed" (.int observed) (by simp)
  have hlimit := @get_more c "command_admission_refused_v1" (str "rejected_durable_candidate_bytes") _ h
    "limit" (.int maxItemBytes) (by simp)
  have hlarge : (65536 : ℤ) < observed := by
    have : maxItemBytes = 65536 := rfl
    omega
  rw [tooLargeRow, tailRecord_commandRow h hown, if_neg (by decide), if_pos rfl, refusedCandidate, hdimension, hcandidate,
    hcount, hlimit, get_commandType h, get_admission h]
  simp only [List.map_cons, List.map_nil] at hclosed
  have hsame : looseEq (.int (maxItemBytes : ℕ)) (.int 65536) = true := looseEq_self (.int 65536)
  simp only [hclosed, hsame, hlarge, decide_true, Bool.and_true, Bool.true_and]
  cases hamong : among (str c.content.type) ["prompt", "steer", "follow_up", "interaction_answer"] with
  | false => rfl
  | true => rw [hvalid hamong, Bool.true_and]

/-- An accepted abort is never let pass. -/
theorem abort_refused (hc : c.content = .abort) (h : Beside more) :
    providerAttemptTailRecord (commandRow kind c (str "accepted") more).toTerm parent sessionId = false := by
  have hown : ∀ content bounds, c.content = .prompt content bounds ∨ c.content = .followUp content bounds →
      str "accepted" = str "accepted" → more.get "content" = some (.binary content) := by
    rintro content bounds (hcontent | hcontent) <;> rw [hc] at hcontent <;> cases hcontent
  have htype : c.content.type = "abort" := by rw [hc]; rfl
  rw [tailRecord_commandRow h hown, htype]
  split
  · rw [if_neg (by decide), if_neg (by decide), refusedCommand, get_commandType h, get_admission h, htype]
    have hlisted : (str "abort", str "accepted") ∉ refusals.map fun r => (str r.1, str r.2) := by decide
    have hmaintenance : str "accepted" ≠ str "rejected_maintenance_active" := by decide
    simp only [hlisted, hmaintenance, decide_false, Bool.and_false, Bool.false_and, Bool.or_self]
  · split
    · have hamong : among (str "abort") ["prompt", "steer", "follow_up", "interaction_answer"] = false := by decide
      rw [refusedCandidate, get_commandType h, htype, hamong]
      simp only [Bool.and_false, Bool.false_and]
    · split
      · have hne : str "abort" ≠ str "configure" := by decide
        rw [refusedConfiguration, get_commandType h, htype]
        simp only [hne, decide_false, Bool.and_false, Bool.false_and]
      · split
        · have hne : str "abort" ≠ str "compact" := by decide
          rw [refusedCompact, get_commandType h, htype]
          simp only [hne, decide_false, Bool.and_false, Bool.false_and]
        · rfl

end

/-! ## one row -/

/-- The runs that a tail may take an attempt to be of. -/
def ParentOf (s : Session) (parent : Term) : Prop :=
  parent = nil ∨ ∃ active, s.work.activeRunId = some active ∧ parent = .binary active

theorem other_refused {row parent : Term} {sessionId : Bytes} (hkind : kindOf row ∉ commandKinds.map str) :
    providerAttemptTailRecord row parent sessionId = false := by
  have hne : ∀ kind ∈ commandKinds, kindOf row ≠ str kind := fun kind hmem heq => hkind (heq ▸ List.mem_map_of_mem hmem)
  rw [providerAttemptTailRecord, if_neg (hne _ (by decide)), if_neg (hne _ (by decide)), if_neg (hne _ (by decide)),
    if_neg (hne _ (by decide)), Bool.and_false]

/-- The row of a resource command names no command of the session. -/
theorem resource_refused {command : ResourceCommand} {disposition : String} {resolved parent : Term} {sessionId : Bytes} :
    providerAttemptTailRecord (resourceRow command disposition resolved).toTerm parent sessionId = false := by
  have hn : ((resourceRow command disposition resolved).fields.map Prod.fst).Nodup := by simp [resourceRow]
  have hid : get (resourceRow command disposition resolved).toTerm "command_id" = nil := by
    rw [Row.toTerm, get_record hn]
    simp [resourceRow]
  rw [providerAttemptTailRecord, hid]
  simp [isNonempty, nil, sym]

/-- The run that an attempt is taken to be of once a row is read. -/
def parentAfter (parent row : Term) : Term :=
  if parent = nil && get row "admission" = str "accepted" then get row "run_id" else parent

theorem harmless_commandRow {kind : String} {admission : Term} {more : Fields} (h : Beside more)
    (hkind : kind ∈ commandKinds) (hresource : kind ≠ "resource_command_v1")
    (hlarge : kind = "command_admission_refused_v1" → among (str c.content.type) ["configure", "compact", "abort"] = false)
    (habort : admission = str "accepted" → c.content.type ≠ "abort") :
    ¬Invalidates (commandRow kind c admission more).toTerm ∧ ¬Overlooked (commandRow kind c admission more).toTerm := by
  rw [Invalidates, Overlooked, kindOf_commandRow h, get_commandType h, get_admission h]
  constructor
  · rintro (hother | ⟨htype, hadmission⟩)
    · exact hother (List.mem_map_of_mem hkind)
    · exact habort hadmission (str_inj.1 htype)
  · rintro (hkind' | ⟨hkind', htype⟩)
    · exact hresource (str_inj.1 hkind')
    · rw [hlarge (str_inj.1 hkind')] at htype
      cases htype

theorem parentAfter_refused {kind : String} {admission parent : Term} {more : Fields} (h : Beside more)
    (hadmission : admission ≠ str "accepted") : parentAfter parent (commandRow kind c admission more).toTerm = parent := by
  rw [parentAfter, get_admission h]
  simp [hadmission]

/-- What the filter makes of a row of the session that committed it. -/
structure LetPass (s : Session) (row : Term) : Prop where
  valid : ¬Invalidates row
  seen : ¬Overlooked row
  pass : ∀ parent, ParentOf s parent →
    ParentOf s (parentAfter parent row) ∧ providerAttemptTailRecord row (parentAfter parent row) s.sessionId = true

theorem LetPass.refused {kind : String} {admission : Term} {more : Fields} (h : Beside more) (hkind : kind ∈ commandKinds)
    (hresource : kind ≠ "resource_command_v1")
    (hlarge : kind = "command_admission_refused_v1" → among (str c.content.type) ["configure", "compact", "abort"] = false)
    (hadmission : admission ≠ str "accepted")
    (hpass : ∀ parent, providerAttemptTailRecord (commandRow kind c admission more).toTerm parent s.sessionId = true) :
    LetPass s (commandRow kind c admission more).toTerm := by
  obtain ⟨hvalid, hseen⟩ := harmless_commandRow h hkind hresource hlarge fun ha => absurd ha hadmission
  refine ⟨hvalid, hseen, fun parent hparent => ?_⟩
  rw [parentAfter_refused h hadmission]
  exact ⟨hparent, hpass parent⟩

theorem Admits.commandId (h : Admits s c row next) : get row.toTerm "command_id" = .binary c.commandId := by
  cases h with
  | elapsed => exact get_commandId (@beside_of_names _ ["admitted_at", "deadline_at_ms"] rfl (by decide))
  | refused => exact get_commandId (@beside_of_names _ [] rfl (by decide))
  | maintenance => exact get_commandId (@beside_of_names _ [] rfl (by decide))
  | input => exact get_commandId (@beside_of_names _ ["run_id", "content"] rfl (by decide))
  | compact => exact get_commandId (@beside_of_names _ ["bounds", "episode_id"] rfl (by decide))
  | configure =>
    exact get_commandId (@beside_of_names _ ["changes", "prior_configuration_version", "configuration"] rfl (by decide))
  | tooLarge => exact get_commandId (@beside_of_names _ ["dimension", "candidate", "observed", "limit"] rfl (by decide))
  | abort _ hmore => exact get_commandId hmore

/-- **One row of a command.**  It is let pass and keeps the attempt open, or it is refused and invalidates the attempt or
is overlooked. -/
theorem Admits.letPass (h : Admits s c row next) : LetPass s row.toTerm ∧ Keeps s c next ∨
    (Invalidates row.toTerm ∨ Overlooked row.toTerm) ∧
      ∀ parent, providerAttemptTailRecord row.toTerm parent s.sessionId = false := by
  cases h with
  | @elapsed now ceiling htype hceiling hnow =>
    have hb : Beside [("admitted_at", .int now), ("deadline_at_ms", .int ceiling)] :=
      @beside_of_names _ ["admitted_at", "deadline_at_ms"] rfl (by decide)
    exact .inl ⟨.refused hb (by decide) (by decide) (fun hk => absurd hk (by decide)) (by decide)
      fun parent => elapsed_accepted htype hceiling hnow, keeps_bind⟩
  | @refused admission hlisted =>
    have hb : Beside [] := by unfold Beside; decide
    have hne : str admission ≠ str "accepted" := by
      intro heq
      obtain rfl := str_inj.1 heq
      simp [refusals] at hlisted
    exact .inl ⟨.refused hb (by decide) (by decide) (fun hk => absurd hk (by decide)) hne
      fun parent => refused_accepted (.inl hlisted), keeps_bind⟩
  | maintenance htype =>
    have hb : Beside [] := by unfold Beside; decide
    exact .inl ⟨.refused hb (by decide) (by decide) (fun hk => absurd hk (by decide)) (by decide)
      fun parent => refused_accepted (.inr ⟨rfl, htype⟩), keeps_bind⟩
  | @input active content _ hactive hc hk =>
    have hb : Beside [("run_id", .binary active), ("content", .binary content)] :=
      @beside_of_names _ ["run_id", "content"] rfl (by decide)
    obtain ⟨hvalid, hseen⟩ := @harmless_commandRow c "command_admitted" (str "accepted") _ hb (by decide) (by decide)
      (fun hk => absurd hk (by decide)) fun _ => by rcases hc with hc | ⟨bounds, hc⟩ <;> simp [hc, Content.type]
    refine .inl ⟨⟨hvalid, hseen, fun parent hparent => ?_⟩, hk⟩
    have hafter : parentAfter parent (commandRow "command_admitted" c (str "accepted")
        [("run_id", .binary active), ("content", .binary content)]).toTerm = .binary active := by
      rw [parentAfter, get_admission hb, @get_more c "command_admitted" _ _ hb "run_id" (.binary active) (by simp)]
      rcases hparent with rfl | ⟨active', hactive', rfl⟩
      · simp
      · rw [hactive] at hactive'
        obtain rfl := Option.some.inj hactive'
        simp
    rw [hafter]
    exact ⟨.inr ⟨active, hactive, rfl⟩, input_accepted hc⟩
  | @compact bounds hc =>
    have hb : Beside [("bounds", bounds.toTerm), ("episode_id", .binary (stableId "compact" s.sessionId c.commandId))] :=
      @beside_of_names _ ["bounds", "episode_id"] rfl (by decide)
    exact .inl ⟨.refused hb (by decide) (by decide) (fun hk => absurd hk (by decide)) (by decide)
      fun parent => compact_accepted hc, keeps_bind⟩
  | @configure changes version _ hc hversion hk =>
    have hb : Beside [("changes", changes), ("prior_configuration_version", .int version), ("configuration", nil)] :=
      @beside_of_names _ ["changes", "prior_configuration_version", "configuration"] rfl (by decide)
    exact .inl ⟨.refused hb (by decide) (by decide) (fun hk => absurd hk (by decide)) (by decide)
      fun parent => configure_accepted hc hversion, hk⟩
  | @tooLarge dimension candidate observed hobserved hvalid =>
    have hb : Beside [("dimension", str dimension), ("candidate", str candidate), ("observed", .int observed),
        ("limit", .int maxItemBytes)] := @beside_of_names _ ["dimension", "candidate", "observed", "limit"] rfl (by decide)
    cases hfour : among (str c.content.type) ["prompt", "steer", "follow_up", "interaction_answer"] with
    | true =>
      have hother : among (str c.content.type) ["configure", "compact", "abort"] = false := by
        cases hc : c.content <;> simp_all [Content.type, among]
      exact .inl ⟨.refused hb (by decide) (by decide) (fun _ => hother) (by decide)
        fun parent => (tooLarge_accepted hobserved hvalid).trans hfour, keeps_bind⟩
    | false =>
      have hother : among (str c.content.type) ["configure", "compact", "abort"] = true := by
        cases hc : c.content <;> simp_all [Content.type, among]
      refine .inr ⟨.inr (.inr ⟨kindOf_commandRow hb, ?_⟩), fun parent => (tooLarge_accepted hobserved hvalid).trans hfour⟩
      rw [tooLargeRow, get_commandType hb]
      exact hother
  | @abort kind more _ hc hmore =>
    refine .inr ⟨.inl (.inr ⟨?_, get_admission hmore⟩), fun parent => abort_refused hc hmore⟩
    rw [get_commandType hmore, hc]
    rfl

/-! ## a whole tail -/

/-- What is known of a tail that has been let pass so far. -/
structure Followed (s : Session) (binding : AttemptBinding) (acc : Term × List Term) : Prop where
  isOpen : s.Open binding
  parent : ParentOf s acc.1
  bound : ∀ key ∈ acc.2, ∃ id, key = .binary id ∧ (s.commands.lookup id).isSome = true

theorem Followed.start (h : s.Open binding) : Followed s binding ((binding.runId.map .binary).getD nil, []) where
  isOpen := h
  parent := by
    cases hrun : binding.runId with
    | none => exact .inl rfl
    | some runId => exact .inr ⟨runId, h.run runId hrun, rfl⟩
  bound key hkey := by cases hkey

theorem tailStep_eq (sessionId : Bytes) (acc : Term × List Term) (row : Term) : tailStep sessionId acc row =
    if get row "command_id" ∉ acc.2 ∧ providerAttemptTailRecord row (parentAfter acc.1 row) sessionId = true then
      some (parentAfter acc.1 row, get row "command_id" :: acc.2) else none := by
  rw [tailStep]
  simp only [parentAfter, Bool.and_eq_true, decide_eq_true_eq]

theorem commitResourceCommand_row {command : ResourceCommand} {resolution : ResourceResolution}
    (h : commitResourceCommand s command resolution = some (row, next)) :
    ∃ disposition resolved, row = resourceRow command disposition resolved := by
  simp only [commitResourceCommand] at h
  generalize (if s.work.activeRunId.isSome = true then ResourceResolution.refused "run_active" else resolution) = final at h
  cases final with
  | accepted resolved =>
    simp only [Option.ite_none_left_eq_some, Option.ite_none_right_eq_some, Option.some.injEq, Prod.mk.injEq] at h
    exact ⟨_, _, h.2.2.1.symm⟩
  | refused reason =>
    simp only [Option.ite_none_left_eq_some, Option.ite_none_right_eq_some, Option.some.injEq, Prod.mk.injEq] at h
    exact ⟨_, _, h.2.2.1.symm⟩

/-- **One row of a tail.** -/
theorem tailStep_commits {row : Term} {acc : Term × List Term} (h : Commits s row next) (hf : Followed s binding acc) :
    (¬Invalidates row ∧ ¬Overlooked row ∧
      ∃ acc', tailStep binding.sessionId acc row = some acc' ∧ Followed next binding acc') ∨
    (Invalidates row ∨ Overlooked row) ∧ tailStep binding.sessionId acc row = none := by
  have hsession := hf.isOpen.session
  have refused : ∀ row : Term, (∀ parent, providerAttemptTailRecord row parent s.sessionId = false) →
      tailStep binding.sessionId acc row = none := by
    intro row hrow
    rw [tailStep_eq, hsession, hrow]
    exact if_neg fun hc => absurd hc.2 (by simp)
  cases h with
  | @command _ row c r h =>
    unfold propose at h
    split at h
    · cases h
    next hfresh =>
    have hadmits := admits_proposeNew hf.isOpen h
    rcases hadmits.letPass with ⟨hpass, hk⟩ | ⟨hbad, hrow⟩
    · obtain ⟨hparent, hlet⟩ := hpass.pass acc.1 hf.parent
      have hid := hadmits.commandId
      have hnew : get row.toTerm "command_id" ∉ acc.2 := by
        rw [hid]
        intro hmem
        obtain ⟨id, heq, hbound⟩ := hf.bound _ hmem
        obtain rfl := Term.binary.inj heq
        exact hfresh hbound
      refine .inl ⟨hpass.valid, hpass.seen, (parentAfter acc.1 row.toTerm, get row.toTerm "command_id" :: acc.2), ?_,
        hf.isOpen.kept hk, ?_, ?_⟩
      · rw [tailStep_eq, hsession, if_pos ⟨hnew, hlet⟩]
      · rcases hparent with hnil | ⟨active, hactive, heq⟩
        · exact .inl hnil
        · exact .inr ⟨active, hk.activeRunId.trans hactive, heq⟩
      · intro key hkey
        rw [hk.commands]
        rcases List.mem_cons.1 hkey with rfl | hkey
        · exact ⟨c.commandId, hid, by simp⟩
        · obtain ⟨id, rfl, hbound⟩ := hf.bound key hkey
          refine ⟨id, rfl, ?_⟩
          rw [List.lookup_cons]
          split
          · rfl
          · exact hbound
    · exact .inr ⟨hbad, refused _ hrow⟩
  | @resource _ row c resolution h =>
    obtain ⟨disposition, resolved, rfl⟩ := commitResourceCommand_row h
    refine .inr ⟨.inr (.inl ?_), refused _ fun parent => resource_refused⟩
    exact kindOf_record (by simp [resourceRow])
  | other hkind => exact .inr ⟨.inl (.inl hkind), refused _ fun parent => other_refused hkind⟩

/-- A tail that is let pass, and one that is not. -/
theorem run_followed {rows : List Term} (ho : s.Open binding) (h : Run Commits s rows next) :
    (∀ row ∈ rows, ¬Invalidates row ∧ ¬Overlooked row) ∧
      (∃ acc, rows.foldlM (tailStep binding.sessionId) ((binding.runId.map .binary).getD nil, []) = some acc ∧
        Followed next binding acc) ∨
    (∃ row ∈ rows, Invalidates row ∨ Overlooked row) ∧
      rows.foldlM (tailStep binding.sessionId) ((binding.runId.map .binary).getD nil, []) = none := by
  induction h with
  | nil => exact .inl ⟨by simp, _, rfl, .start ho⟩
  | @snoc rows s' row next' _ hrow ih =>
    rw [List.foldlM_append]
    rcases ih with ⟨hgood, acc, hacc, hf⟩ | ⟨⟨bad, hmem, hbad⟩, hnone⟩
    · rw [hacc]
      rcases tailStep_commits hrow hf with ⟨hvalid, hseen, acc', hstep, hf'⟩ | ⟨hbad, hstep⟩
      · refine .inl ⟨?_, acc', ?_, hf'⟩
        · intro other hother
          rcases List.mem_append.1 hother with hother | hother
          · exact hgood other hother
          · obtain rfl := List.mem_singleton.1 hother
            exact ⟨hvalid, hseen⟩
        · simpa using hstep
      · exact .inr ⟨⟨row, by simp, hbad⟩, by simpa using hstep⟩
    · exact .inr ⟨⟨bad, List.mem_append_left _ hmem, hbad⟩, by rw [hnone]; rfl⟩

/-- **The tails that are accepted** hold no row that invalidates the attempt and none that is overlooked. -/
theorem providerAdmissionTail_iff {rows : List Term} (ho : s.Open binding) (h : Run Commits s rows next) :
    providerAdmissionTail rows binding = true ↔ ∀ row ∈ rows, ¬Invalidates row ∧ ¬Overlooked row := by
  rw [providerAdmissionTail]
  rcases run_followed ho h with ⟨hgood, acc, hacc, -⟩ | ⟨⟨bad, hmem, hbad⟩, hnone⟩
  · rw [hacc]
    exact iff_of_true rfl hgood
  · rw [hnone]
    refine iff_of_false (by simp) fun hall => ?_
    obtain ⟨hvalid, hseen⟩ := hall bad hmem
    exact hbad.elim hvalid hseen

/-- **The filter is exact** for a tail of an open attempt, accepting it if and only if no row invalidates the attempt, if
and only if some row does or no row is overlooked. -/
theorem tail_exact {rows : List Term} (ho : s.Open binding) (h : Run Commits s rows next) :
    ((providerAdmissionTail rows binding = true ↔ ∀ row ∈ rows, ¬Invalidates row) ↔
      (∃ row ∈ rows, Invalidates row) ∨ ∀ row ∈ rows, ¬Overlooked row) := by
  rw [providerAdmissionTail_iff ho h]
  constructor
  · intro hexact
    by_cases hvalid : ∀ row ∈ rows, ¬Invalidates row
    · exact .inr fun row hrow => (hexact.2 hvalid row hrow).2
    · simp only [not_forall, not_not] at hvalid
      obtain ⟨row, hrow, hbad⟩ := hvalid
      exact .inl ⟨row, hrow, hbad⟩
  · rintro (⟨row, hrow, hbad⟩ | hseen)
    · exact iff_of_false (fun hall => (hall row hrow).1 hbad) fun hall => hall row hrow hbad
    · exact ⟨fun hall row hrow => (hall row hrow).1, fun hall row hrow => ⟨hall row hrow, hseen row hrow⟩⟩

/-! ## a resource command during an attempt -/

/-- A session whose run `r` waits for its model. -/
def waitingSession : Session :=
  { sessionId := utf8 "s"
    cleanupGraceMs := .int 5000
    configuration := ConfigureCommand.settledState.configuration
    definitions := .list []
    work := ⟨some (utf8 "r"), [utf8 "r"], none, none, none, none, none, false, some false⟩
    queuedSteers := []
    questions := []
    commands := [] }

def waitingAttempt : AttemptBinding := ⟨utf8 "s", some (utf8 "r")⟩

/-- The activation of a skill. -/
def activateSkill : ResourceCommand :=
  { commandId := utf8 "c"
    members := [("type", str "activate_skill"), ("manifest_digest", .binary (List.replicate 64 48)),
      ("source_id", str "local"), ("name", str "skill"), ("pack_digest", .binary (List.replicate 64 48)),
      ("supporting_labels", .list [])] }

theorem waitingSession_open : waitingSession.Open waitingAttempt where
  session := rfl
  run runId hrun := hrun
  owner := rfl
  question := rfl
  configured := by decide +kernel

/-- It is refused, and its row is committed. -/
theorem activateSkill_commits : ∃ next,
    Run Commits waitingSession [(resourceRow activateSkill "run_active" nil).toTerm] next := by
  have hsize : ((itemSize .record (resourceRow activateSkill "run_active" nil).toTerm).any fun bytes =>
      bytes ≤ maxResourceBytes) = true := by decide +kernel
  refine ⟨{ waitingSession with commands := [(activateSkill.commandId, commandDigest activateSkill.toTerm)] },
    .one (.resource activateSkill (.refused "run_active") ?_)⟩
  simp only [commitResourceCommand, waitingSession, Option.isSome_some, if_true, List.lookup_nil, Option.isSome_none,
    Bool.false_eq_true, if_false, hsize]

/-- **A refused resource command costs the attempt its permit.** -/
theorem tail_exact_fails : ∃ next rows, waitingSession.Open waitingAttempt ∧ Run Commits waitingSession rows next ∧
    rows = [(resourceRow activateSkill "run_active" nil).toTerm] ∧ (∀ row ∈ rows, ¬Invalidates row) ∧
    providerAdmissionTail rows waitingAttempt = false := by
  obtain ⟨next, hrun⟩ := activateSkill_commits
  have hn : ((resourceRow activateSkill "run_active" nil).fields.map Prod.fst).Nodup := by decide
  have hkind : kindOf (resourceRow activateSkill "run_active" nil).toTerm = str "resource_command_v1" := kindOf_record hn
  have htype : get (resourceRow activateSkill "run_active" nil).toTerm "command_type" = nil := get_record hn _
  refine ⟨next, _, waitingSession_open, hrun, rfl, ?_, ?_⟩
  · intro row hrow
    obtain rfl := List.mem_singleton.1 hrow
    rintro (hother | ⟨habort, -⟩)
    · rw [hkind] at hother
      exact hother (List.mem_map_of_mem (by decide))
    · rw [htype] at habort
      simp [nil, sym, str] at habort
  · rw [← Bool.not_eq_true, providerAdmissionTail_iff waitingSession_open hrun]
    exact fun hall => (hall _ (by simp)).2 (.inl hkind)

/-! ## harmless commands during an attempt -/

/-- Another prompt. -/
def secondPrompt : Command :=
  { commandId := utf8 "w"
    content := .prompt (utf8 "wait") none
    nonempty := by decide
    valid := ⟨by decide, fun _ h => by cases h⟩ }

/-- A steer of the run. -/
def steerRun : Command :=
  { commandId := utf8 "q"
    content := .steer (utf8 "r") (utf8 "on")
    nonempty := by decide
    valid := ⟨by decide, by decide⟩ }

/-- What is resolved for them. -/
def noBounds : Resolved :=
  { admittedAt := none
    maxTurns := 1
    tokenBudget := 1
    deadlineMs := 1000
    contextTokenBudget := 1000
    configure := ⟨nil, true, none⟩ }

def secondRow : Row := refusalRow secondPrompt "rejected_run_active"

def steerRow : Row :=
  commandRow "command_admitted" steerRun (str "accepted") [("run_id", str "r"), ("content", str "on")]

/-- The prompt is refused and the steer is accepted. -/
theorem harmless_commits : ∃ next, Run Commits waitingSession [secondRow.toTerm, steerRow.toTerm] next := by
  have hconfigured : ¬ waitingSession.configuration = nil := by decide
  have hidle : propose waitingSession secondPrompt noBounds = proposeIdle waitingSession secondPrompt noBounds := rfl
  have hsecond : propose waitingSession secondPrompt noBounds = some (secondRow, waitingSession.bind secondPrompt) := by
    rw [hidle]
    unfold proposeIdle
    exact if_neg hconfigured
  have hfree : ¬ ((waitingSession.bind secondPrompt).commands.lookup steerRun.commandId).isSome = true := by
    have hne : (steerRun.commandId == secondPrompt.commandId) = false := by decide
    simp [Session.bind, waitingSession, List.lookup_cons, hne]
  have hsteer : propose (waitingSession.bind secondPrompt) steerRun noBounds = admittedProposal
      (waitingSession.bind secondPrompt) steerRun steerRow [] { (waitingSession.bind secondPrompt).bind steerRun with
        queuedSteers := [utf8 "r"] } := by
    rw [propose, if_neg hfree]
    change proposeIdle (waitingSession.bind secondPrompt) steerRun noBounds = _
    unfold proposeIdle
    exact (if_neg (by decide)).trans (if_neg (by decide))
  have hfits : preflightCommand (waitingSession.bind secondPrompt) steerRun steerRow [] (utf8 "r") = .fits := by
    decide +kernel
  have hrun : steerRow.fields.get "run_id" = some (str "r") := by simp [steerRow, commandRow_fields, identityFields]
  simp only [admittedProposal, hrun, str, hfits] at hsteer
  exact ⟨_, .snoc (.one (.command secondPrompt noBounds hsecond)) (.command steerRun noBounds hsteer)⟩

/-- They do not cost the attempt its permit. -/
theorem tail_exact_harmless : providerAdmissionTail [secondRow.toTerm, steerRow.toTerm] waitingAttempt = true := by
  have hkinds : ∀ row ∈ [secondRow.toTerm, steerRow.toTerm], kindOf row = str "command_admitted" ∧
      get row "command_type" ≠ str "abort" := by decide
  have hvalid : ∀ row ∈ [secondRow.toTerm, steerRow.toTerm], ¬Invalidates row := by
    rintro row hrow (hother | ⟨habort, -⟩)
    · rw [(hkinds row hrow).1] at hother
      exact hother (List.mem_map_of_mem (by decide))
    · exact (hkinds row hrow).2 habort
  have hseen : ∀ row ∈ [secondRow.toTerm, steerRow.toTerm], ¬Overlooked row := by
    rintro row hrow (hresource | ⟨hlarge, -⟩)
    · rw [(hkinds row hrow).1] at hresource
      exact absurd hresource (by decide)
    · rw [(hkinds row hrow).1] at hlarge
      exact absurd hlarge (by decide)
  obtain ⟨next, hrun⟩ := harmless_commits
  exact ((tail_exact waitingSession_open hrun).2 (.inr hseen)).2 hvalid

end Loopex.Runtime
