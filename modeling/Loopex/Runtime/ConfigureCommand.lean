import Loopex.Runtime.HistoryRecord
import Loopex.System.Run

/-!
# Configure commands

The session owner admits a configuration change in one private record: it carries the candidate in full, and of the
authored instructions only their version and digest.  Replay rebuilds the authored changes from the two.  What the
rest of the owner's state says about a change is in `Work`; rows of other kinds do not touch the settings.

* `proposeNew`, `propose` — the admission of a command
* `configurationCommandChanges`, `commandEffect`, `applyCommandRecord` — what replay makes of a record
* `restore_elided` — the changes of an accepted record are the authored ones
* `configure_follows` — what an accepted command commits, and that its record is replayed to the same
* `configurationVersion_run` — the version counts the accepted commands
-/

namespace Loopex.Runtime.ConfigureCommand

open Loopex.Erlang Loopex.Erlang.Term Loopex.Store Loopex.Protocol Loopex.System
open Loopex.Runtime.SessionConfiguration

/-- What `normalize_command` gives for a configure command. -/
structure Command where
  commandId : Bytes
  changes : Term
  nonempty : commandId ≠ []
  valid : validateUpdate changes = true
  wellFormed : WellFormed changes

inductive Preflight where
  | invalidSessionConfiguration | compactionRequired
  deriving DecidableEq

/-- What the host resolved for a command. -/
structure Resolved where
  candidate : Term
  ownerSettled : Bool
  preflight : Option Preflight

inductive Refusal where
  | configurationNotSettled | configurationNotPrepared | invalidSessionConfiguration | compactionRequired
  deriving DecidableEq

inductive Admission where
  | accepted
  | rejectedConfigurationNotSettled | rejectedConfigurationOwnerBusy | rejectedConfigurationNotPrepared
  | rejectedInvalidSessionConfiguration | rejectedConfigurationCompactionRequired
  deriving DecidableEq

def Admission.toTerm : Admission → Term
  | .accepted => str "accepted"
  | .rejectedConfigurationNotSettled => str "rejected_configuration_not_settled"
  | .rejectedConfigurationOwnerBusy => str "rejected_configuration_owner_busy"
  | .rejectedConfigurationNotPrepared => str "rejected_configuration_not_prepared"
  | .rejectedInvalidSessionConfiguration => str "rejected_invalid_session_configuration"
  | .rejectedConfigurationCompactionRequired => str "rejected_configuration_compaction_required"

/-- The row of kind `session_configuration_admitted_v2`. -/
structure Record where
  commandId : Bytes
  commandDigest : Bytes
  admission : Admission
  changes : Term
  priorConfigurationVersion : Term
  configuration : Term
  deriving DecidableEq

def Record.toTerm (r : Record) : Term :=
  mapOf [(sym "kind", str "session_configuration_admitted_v2"), (str "command_type", str "configure"),
    (str "command_id", .binary r.commandId), (str "command_digest", .binary r.commandDigest),
    (str "admission", r.admission.toTerm), (str "changes", r.changes),
    (str "prior_configuration_version", r.priorConfigurationVersion), (str "configuration", r.configuration)]

/-- What the rest of the session says about a change of its settings. -/
structure Work where
  activeRunId : Option Bytes
  pendingWork : List Bytes
  aborting : Option Bytes
  openInteraction : Option Bytes
  contextRefusal : Option Bytes
  followUp : Option Bytes
  pendingCompact : Option Bytes
  /-- Some tool result of the conversation has an unknown outcome. -/
  outcomeUnknown : Bool
  /-- `Conversation.terminal_tool_history` of the elements that no checkpoint covers; `none` is its refusal. -/
  terminalToolHistory : Option Bool
  deriving DecidableEq

inductive Reply where
  | accepted
  | refused (reason : Refusal)
  deriving DecidableEq

structure Binding where
  digest : Bytes
  reply : Reply
  deriving DecidableEq

structure State where
  sessionId : Bytes
  configuration : Term
  /-- The definitions of the tool selection. -/
  definitions : Term
  work : Work
  commands : List (Bytes × Binding)
  expectedEvents : List Term
  deriving DecidableEq

/-! ## identities -/

/-- The digest of a configure command. -/
def commandDigest (commandId : Bytes) (changes : Term) : Bytes :=
  Runtime.commandDigest
    (mapOf [(sym "type", sym "configure"), (sym "command_id", .binary commandId), (sym "changes", changes)])

/-- `public_view`. -/
def publicView (configuration : Term) : Term :=
  put (take configuration ["configuration_version", "model", "reasoning", "max_tokens", "context_token_budget",
      "system_class_tokens"])
    "instructions" (take (get configuration "instructions") ["version", "digest"])

def publicChange (commandId : Bytes) (configuration : Term) : Term :=
  mapOf [(str "command_id", .binary commandId), (str "configuration", publicView configuration)]

/-- The event of an accepted change. -/
def configuredEvent (s : State) (r : Record) : Term :=
  mapOf [(str "command_id", .binary r.commandId), (str "configuration", publicView r.configuration),
    (sym "event_id", .binary (stableId "event-configuration" s.sessionId r.commandId)),
    (sym "kind", str "session.configured")]

/-! ## admission -/

/-- `configuration_version`. -/
def configurationVersion (s : State) : Term :=
  if s.configuration = nil then nil else get s.configuration "configuration_version"

/-- `configuration_settled?`. -/
def configurationSettled (w : Work) : Bool :=
  w.activeRunId.isNone && w.pendingWork = [] && w.aborting.isNone && w.openInteraction.isNone &&
    w.contextRefusal.isNone && w.followUp.isNone && w.pendingCompact.isNone && !w.outcomeUnknown

/-- `preflight_history`. -/
def preflightHistory (candidate : Term) (terminalToolHistory : Option Bool) : Bool :=
  terminalToolHistory.any fun required =>
    !required || get (get candidate "provider_mapping") "canonical_terminal_tool_history" = sym "true"

/-- `configuration_candidate`. -/
def configurationCandidate (s : State) (changes candidate : Term) : Bool :=
  validateCandidate s.configuration changes candidate s.definitions &&
    preflightHistory candidate s.work.terminalToolHistory

/-- `configuration_record_changes`: an accepted record keeps the instructions in its candidate only. -/
def configurationRecordChanges (changes : Term) (admission : Admission) : Term :=
  match admission, changes with
  | .accepted, .map kvs =>
    .map (kvs.map fun e => if e.1 = str "instructions" then (e.1, take e.2 ["version", "digest"]) else e)
  | _, _ => changes

/-- `configuration_command_changes`. -/
def configurationCommandChanges (r : Record) : Option Term :=
  if r.admission = .accepted && isMap r.changes && (fetch r.changes "instructions").isSome then
    let instructions := get r.configuration "instructions"
    let restored := put r.changes "instructions" instructions
    if isMap r.configuration && isMap instructions &&
        looseEq (get r.changes "instructions") (take instructions ["version", "digest"]) &&
        validateUpdate restored then some restored
    else none
  else if validateUpdate r.changes then some r.changes
  else none

/-- `configuration_refusal`. -/
def configurationRefusal (s : State) (admission : Admission) : Option Refusal :=
  match admission with
  | .rejectedConfigurationNotSettled =>
    if configurationSettled s.work then none else some .configurationNotSettled
  | .accepted => none
  | _ =>
    if isMap s.configuration && configurationSettled s.work then
      match admission with
      | .rejectedConfigurationNotPrepared => some .configurationNotPrepared
      | .rejectedInvalidSessionConfiguration => some .invalidSessionConfiguration
      | .rejectedConfigurationOwnerBusy => some .configurationNotSettled
      | _ => some .compactionRequired
    else none

/-- `command_effect`: the state after a record, with its reply. -/
def commandEffect (s : State) (r : Record) : Option (State × Reply) := do
  let changes ← configurationCommandChanges r
  guard (commandDigest r.commandId changes = r.commandDigest)
  guard (looseEq r.priorConfigurationVersion (configurationVersion s))
  if r.admission = .accepted then
    guard (configurationSettled s.work && configurationCandidate s changes r.configuration)
    guard (Session.Configuration.encodeChange (publicChange r.commandId r.configuration)).isSome
    some ({ s with
      configuration := r.configuration
      expectedEvents := s.expectedEvents ++ [configuredEvent s r] }, .accepted)
  else
    guard (r.configuration = nil)
    let reason ← configurationRefusal s r.admission
    some (s, .refused reason)

/-- The normalized size of an item. -/
def itemSize (plane : Plane) (item : Term) : Option ℕ :=
  match normalizeAndMeasureItem plane item with
  | .ok (_, bytes) => some bytes
  | .error _ => none

/-- `apply_command_record`. -/
def applyCommandRecord (s : State) (r : Record) : Option State := do
  guard (s.commands.lookup r.commandId).isNone
  guard s.work.pendingCompact.isNone
  let _ ← itemSize .record r.toTerm
  let (next, reply) ← commandEffect s r
  some { next with commands := (r.commandId, ⟨r.commandDigest, reply⟩) :: s.commands }

/-- The admission of a fresh command. -/
def admissionOf (s : State) (command : Command) (resolved : Resolved) : Admission :=
  if !configurationSettled s.work then .rejectedConfigurationNotSettled
  else if !resolved.ownerSettled then .rejectedConfigurationOwnerBusy
  else if resolved.candidate = nil then .rejectedConfigurationNotPrepared
  else if !configurationCandidate s command.changes resolved.candidate then .rejectedInvalidSessionConfiguration
  else if resolved.preflight = some .invalidSessionConfiguration then .rejectedInvalidSessionConfiguration
  else if resolved.preflight = some .compactionRequired then .rejectedConfigurationCompactionRequired
  else .accepted

/-- The record of a fresh command. -/
def recordOf (s : State) (command : Command) (resolved : Resolved) : Record :=
  let admission := admissionOf s command resolved
  { commandId := command.commandId
    commandDigest := commandDigest command.commandId command.changes
    admission
    changes := configurationRecordChanges command.changes admission
    priorConfigurationVersion := configurationVersion s
    configuration := if admission = .accepted then resolved.candidate else nil }

/-- What a command comes to: its own record, another row in its place, or nothing. -/
inductive Outcome where
  | proposed (record : Record) (events : List Term) (next : State)
  | maintenanceActive
  | tooLarge (observed : ℕ)
  | replayed (reply : Reply)
  | refused
  deriving DecidableEq

/-- `propose_new` of a configure command. -/
def proposeNew (s : State) (command : Command) (resolved : Resolved) : Outcome :=
  if s.work.pendingCompact.isSome then .maintenanceActive
  else if s.configuration = nil then .refused
  else
    let record := recordOf s command resolved
    match applyCommandRecord s record with
    | none => .refused
    | some next =>
      let events := next.expectedEvents.drop s.expectedEvents.length
      match itemSize .record record.toTerm with
      | none => .refused
      | some bytes =>
        if maxItemBytes < bytes then .tooLarge bytes
        else if events.all fun event => (itemSize .event event).any fun bytes => bytes ≤ maxItemBytes then
          .proposed record events next
        else .refused

/-- `propose` of a configure command. -/
def propose (s : State) (command : Command) (resolved : Resolved) : Outcome :=
  match s.commands.lookup command.commandId with
  | some binding =>
    if binding.digest = commandDigest command.commandId command.changes then .replayed binding.reply else .refused
  | none => proposeNew s command resolved

/-! ## the elided instructions -/

variable {s s' : State} {r : Record} {command : Command} {resolved : Resolved}

/-- An entry that was replaced in place is put back. -/
theorem putEntry_replaced {key v : Term} {f : Term → Term} {kvs : List (Term × Term)} (ho : Ordered kvs)
    (hm : (key, v) ∈ kvs) : putEntry key v (kvs.map fun e => if e.1 = key then (e.1, f e.2) else e) = kvs := by
  induction kvs with
  | nil => cases hm
  | cons e kvs ih =>
    obtain ⟨l, w⟩ := e
    obtain ⟨hhead, htail⟩ := List.pairwise_cons.1 ho
    by_cases hl : l = key
    · subst hl
      have hrest : ∀ e ∈ kvs, e.1 ≠ l := by
        intro e he heq
        have := hhead e he
        rw [heq] at this
        exact keyLt_asymm this this
      have hw : v = w := by
        rcases List.mem_cons.1 hm with heq | hm
        · exact (Prod.mk.inj heq).2
        · exact absurd rfl (hrest _ hm)
      have hsame : (kvs.map fun e => if e.1 = l then (e.1, f e.2) else e) = kvs :=
        (List.map_congr_left fun e he => if_neg (hrest e he)).trans (List.map_id _)
      rw [List.map_cons, if_pos rfl, hsame, putEntry, if_neg fun h => keyLt_asymm h h, if_neg fun h => keyLt_asymm h h, hw]
    · have hm : (key, v) ∈ kvs := by
        rcases List.mem_cons.1 hm with heq | hm
        · exact absurd (Prod.mk.inj heq).1.symm hl
        · exact hm
      have hlt : keyLt l key := hhead _ hm
      rw [List.map_cons, if_neg hl, putEntry, if_neg (keyLt_asymm hlt), if_pos hlt, ih htail hm]

theorem lookup_replaced {key : Term} {f : Term → Term} {kvs : List (Term × Term)} :
    lookup key (kvs.map fun e => if e.1 = key then (e.1, f e.2) else e) = (lookup key kvs).map f := by
  induction kvs with
  | nil => rfl
  | cons e kvs ih =>
    by_cases he : e.1 = key
    · simp [lookup, he]
    · simp [lookup, he, ih]

theorem validateUpdate_instructions {changes v : Term} (h : validateUpdate changes = true)
    (hv : fetch changes "instructions" = some v) : Instructions.validate v = true := by
  cases changes with
  | map kvs =>
    simp only [validateUpdate, Bool.and_eq_true, List.all_eq_true] at h
    have hmem := h.2.2 _ (lookup_eq_some hv)
    simpa [str_inj] using hmem
  | _ => cases hv

theorem isMap_of_validInstructions {v : Term} (h : Instructions.validate v = true) : isMap v = true := by
  simp only [Instructions.validate, Bool.and_eq_true] at h
  exact isMap_of_closed h.1

/-- **The changes of an accepted record are the authored ones**, as the candidate holds their instructions. -/
theorem restore_elided (hrecord : r.changes = configurationRecordChanges command.changes .accepted)
    (hadmission : r.admission = .accepted) (hmap : isMap r.configuration = true)
    (hinstructions : ∀ v, fetch command.changes "instructions" = some v → get r.configuration "instructions" = v) :
    configurationCommandChanges r = some command.changes := by
  obtain ⟨hchanges, -⟩ := validateUpdate_spec command.valid
  have hwell := command.wellFormed
  cases hk : command.changes with
  | map kvs =>
    rw [hk] at hwell hrecord
    cases hwell with
    | map ho _ _ =>
    cases hv : fetch command.changes "instructions" with
    | none =>
      -- nothing was elided
      have hne : ∀ e ∈ kvs, e.1 ≠ str "instructions" := by
        rw [hk] at hv
        exact lookup_eq_none.1 hv
      have hsame : r.changes = .map kvs := by
        rw [hrecord, configurationRecordChanges]
        exact congrArg Term.map ((List.map_congr_left fun e he => if_neg (hne e he)).trans (List.map_id _))
      unfold configurationCommandChanges
      rw [hsame, ← hk, hv, if_neg (by simp), if_pos command.valid]
    | some v =>
      have hrestored : put r.changes "instructions" v = command.changes := by
        rw [hrecord, hk, configurationRecordChanges]
        refine congrArg Term.map (putEntry_replaced (f := fun v => take v ["version", "digest"]) ho ?_)
        rw [hk] at hv
        exact lookup_eq_some hv
      have helided : fetch r.changes "instructions" = some (take v ["version", "digest"]) := by
        rw [hrecord, configurationRecordChanges]
        refine (lookup_replaced (f := fun v => take v ["version", "digest"])).trans ?_
        rw [hk] at hv
        rw [show lookup (str "instructions") kvs = some v from hv]
        rfl
      have hv' : isMap v = true := isMap_of_validInstructions (validateUpdate_instructions command.valid hv)
      have hmap' : isMap r.changes = true := by
        rw [hrecord]
        rfl
      unfold configurationCommandChanges
      simp only [hadmission, hmap', helided, Option.isSome_some, decide_true, Bool.and_self, if_true]
      rw [hinstructions v hv, hrestored, get, helided]
      have hvalid : validateUpdate (.map kvs) = true := hk ▸ command.valid
      simp only [hmap, hv', hvalid, Option.getD_some, looseEq, decide_true, Bool.and_self, if_true, hk]
  | _ => rw [hk] at hchanges; cases hchanges

/-! ## what a record does -/

/-- An accepted record installs its candidate; any other leaves the settings. -/
theorem commandEffect_eq_some {reply : Reply} (h : commandEffect s r = some (s', reply)) :
    ∃ changes, configurationCommandChanges r = some changes ∧ commandDigest r.commandId changes = r.commandDigest ∧
      s'.definitions = s.definitions ∧
      (r.admission = .accepted → s'.configuration = r.configuration ∧ configurationSettled s.work = true ∧
        configurationCandidate s changes r.configuration = true) ∧
      (r.admission ≠ .accepted → s'.configuration = s.configuration) := by
  simp only [commandEffect, Option.bind_eq_bind, Option.bind_eq_some_iff, Option.guard_eq_some', exists_const] at h
  obtain ⟨changes, hchanges, hdigest, -, h⟩ := h
  refine ⟨changes, hchanges, hdigest, ?_⟩
  split at h
  · next haccepted =>
    simp only [Option.bind_eq_some_iff, Option.guard_eq_some', exists_const, Bool.and_eq_true, Option.some.injEq,
      Prod.mk.injEq] at h
    obtain ⟨⟨hsettled, hcandidate⟩, -, rfl, -⟩ := h
    exact ⟨rfl, fun _ => ⟨rfl, hsettled, hcandidate⟩, fun hne => absurd haccepted hne⟩
  · next hne =>
    simp only [Option.bind_eq_some_iff, Option.guard_eq_some', exists_const, Option.some.injEq, Prod.mk.injEq] at h
    obtain ⟨-, _, -, rfl, -⟩ := h
    exact ⟨rfl, fun haccepted => absurd haccepted hne, fun _ => rfl⟩

theorem applyCommandRecord_eq_some (h : applyCommandRecord s r = some s') : ∃ next reply,
    commandEffect s r = some (next, reply) ∧
      s' = { next with commands := (r.commandId, ⟨r.commandDigest, reply⟩) :: s.commands } := by
  simp only [applyCommandRecord, Option.bind_eq_bind, Option.bind_eq_some_iff, Option.guard_eq_some', exists_const,
    Prod.exists, Option.some.injEq] at h
  obtain ⟨-, -, -, -, next, reply, heffect, rfl⟩ := h
  exact ⟨next, reply, heffect, rfl⟩

/-- **An accepted record raises the version by one.** -/
theorem applyCommandRecord_version {v : ℤ} (h : applyCommandRecord s r = some s')
    (hv : get s.configuration "configuration_version" = .int v) :
    get s'.configuration "configuration_version" = .int (v + if r.admission = .accepted then 1 else 0) := by
  obtain ⟨next, reply, heffect, rfl⟩ := applyCommandRecord_eq_some h
  obtain ⟨changes, -, -, -, haccepted, hrefused⟩ := commandEffect_eq_some heffect
  by_cases ha : r.admission = .accepted
  · obtain ⟨hconfiguration, -, hcandidate⟩ := haccepted ha
    simp only [configurationCandidate, Bool.and_eq_true] at hcandidate
    obtain ⟨w, hw, hnext⟩ := (validateCandidate_follows hcandidate.1).2.version
    obtain rfl := Term.int.inj (hw.symm.trans hv)
    rw [hconfiguration, hnext, if_pos ha]
  · rw [hrefused ha, hv, if_neg ha, add_zero]

/-! ## what a command commits -/

theorem proposeNew_eq_proposed {record : Record} {events : List Term} {next : State}
    (h : proposeNew s command resolved = .proposed record events next) :
    record = recordOf s command resolved ∧ applyCommandRecord s record = some next := by
  unfold proposeNew at h
  split at h
  · cases h
  · split at h
    · cases h
    · dsimp only at h
      split at h
      · cases h
      · next hnext =>
        split at h
        · cases h
        · split at h
          · cases h
          · split at h
            · cases h
              exact ⟨rfl, hnext⟩
            · cases h

theorem propose_eq_proposed {record : Record} {events : List Term} {next : State}
    (h : propose s command resolved = .proposed record events next) :
    record = recordOf s command resolved ∧ applyCommandRecord s record = some next := by
  unfold propose at h
  split at h
  · split at h <;> cases h
  · exact proposeNew_eq_proposed h

theorem proposeNew_eq_tooLarge {observed : ℕ} (h : proposeNew s command resolved = .tooLarge observed) :
    maxItemBytes < observed := by
  unfold proposeNew at h
  split at h
  · cases h
  · split at h
    · cases h
    · dsimp only at h
      split at h
      · cases h
      · split at h
        · cases h
        · split at h
          · next hlarge =>
            cases h
            exact hlarge
          · split at h <;> cases h

theorem admissionOf_accepted (h : admissionOf s command resolved = .accepted) : resolved.candidate ≠ nil ∧
    configurationCandidate s command.changes resolved.candidate = true := by
  unfold admissionOf at h
  repeat' split at h
  all_goals cases h
  next hne hcandidate _ _ => exact ⟨hne, by simpa using hcandidate⟩

/-- The authored instructions are in the candidate. -/
theorem candidate_instructions {current authored candidate definitions v : Term}
    (h : validateCandidate current authored candidate definitions = true) (hmap : isMap authored = true)
    (hv : fetch authored "instructions" = some v) : get candidate "instructions" = v := by
  refine (validateCandidate_follows h).2.named "instructions" (by decide) v ?_
  rw [fetch_effectiveChanges hmap, if_neg fun hc => absurd hc.1 (by decide), hv]

/-- The context ceiling is kept where neither it nor the reply reserve is named and the window is the same. -/
theorem candidate_context {current authored candidate definitions : Term}
    (h : validateCandidate current authored candidate definitions = true) (hmap : isMap authored = true)
    (hcontext : fetch authored "context_token_budget" = none) (hreserve : fetch authored "max_tokens" = none)
    (hwindow : get (get candidate "model_capabilities") "context_window" =
      get (get current "model_capabilities") "context_window") :
    get candidate "context_token_budget" = get current "context_token_budget" ∧
      origin candidate "context_token_budget" = origin current "context_token_budget" := by
  refine (validateCandidate_follows h).2.context_kept (validateCandidate_current h) ?_ ?_ hwindow
  · rw [fetch_effectiveChanges hmap, if_neg fun hc => absurd hc.1 (by decide), hcontext]
  · rw [fetch_effectiveChanges hmap, if_neg fun hc => absurd hc.1 (by decide), hreserve]

/-- **What an accepted command commits.** -/
theorem configure_follows {record : Record} {events : List Term} {next : State}
    (h : propose s command resolved = .proposed record events next) (haccepted : record.admission = .accepted) :
    record.configuration = resolved.candidate ∧ next.configuration = resolved.candidate ∧
      validate resolved.candidate s.definitions = true ∧
      Follows s.configuration (effectiveChanges command.changes resolved.candidate) resolved.candidate ∧
      (fetch command.changes "context_token_budget" = none → fetch command.changes "max_tokens" = none →
        get (get resolved.candidate "model_capabilities") "context_window" =
          get (get s.configuration "model_capabilities") "context_window" →
        get resolved.candidate "context_token_budget" = get s.configuration "context_token_budget" ∧
          origin resolved.candidate "context_token_budget" = origin s.configuration "context_token_budget") ∧
      configurationCommandChanges record = some command.changes ∧
      commandDigest record.commandId command.changes = record.commandDigest ∧
      applyCommandRecord s record = some next := by
  obtain ⟨rfl, happly⟩ := propose_eq_proposed h
  have hadmission : admissionOf s command resolved = .accepted := haccepted
  obtain ⟨-, hcandidate⟩ := admissionOf_accepted hadmission
  simp only [configurationCandidate, Bool.and_eq_true] at hcandidate
  have hvalid := validateCandidate_follows hcandidate.1
  have hmap : isMap command.changes = true := (validateUpdate_spec command.valid).1
  have hconfiguration : (recordOf s command resolved).configuration = resolved.candidate := by
    simp only [recordOf, if_pos hadmission]
  have hchanges : configurationCommandChanges (recordOf s command resolved) = some command.changes := by
    refine restore_elided ?_ haccepted ?_ fun v hv => ?_
    · simp only [recordOf, hadmission]
    · rw [hconfiguration]
      exact isMap_of_closed (validate_spec hvalid.1).1
    · rw [hconfiguration]
      exact candidate_instructions hcandidate.1 hmap hv
  refine ⟨hconfiguration, ?_, hvalid.1, hvalid.2, fun hcontext hreserve hwindow =>
    candidate_context hcandidate.1 hmap hcontext hreserve hwindow, hchanges, rfl, happly⟩
  obtain ⟨next', reply, heffect, rfl⟩ := applyCommandRecord_eq_some happly
  obtain ⟨_, -, -, -, hnext, -⟩ := commandEffect_eq_some heffect
  exact (hnext haccepted).1.trans hconfiguration

/-! ## runs -/

/-- A row of the private journal: a configure record, or one of another kind, which leaves the settings. -/
def Step (s : State) (row : Option Record) (s' : State) : Prop :=
  match row with
  | some r => applyCommandRecord s r = some s'
  | none => s'.configuration = s.configuration ∧ s'.definitions = s.definitions

/-- The accepted configure commands of a history. -/
def acceptedCount (rows : List (Option Record)) : ℕ :=
  rows.countP fun row => row.any fun r => r.admission = .accepted

/-- **The version counts the accepted commands.** -/
theorem configurationVersion_run {start : State} {rows : List (Option Record)} {v : ℤ}
    (hstart : get start.configuration "configuration_version" = .int v) (h : Run Step start rows s) :
    get s.configuration "configuration_version" = .int (v + acceptedCount rows) := by
  induction h with
  | nil => simpa [acceptedCount] using hstart
  | @snoc rows t row u _ hstep ih =>
    cases row with
    | none =>
      rw [hstep.1, ih]
      simp [acceptedCount]
    | some r =>
      rw [applyCommandRecord_version hstep ih]
      by_cases ha : r.admission = .accepted
      · simp [acceptedCount, ha, add_assoc]
      · simp [acceptedCount, ha]

/-- **A configuration update is exact and replayable.**  The candidate of an accepted command has the authored
settings, the model as the host resolved it, and keeps the others; a context ceiling that is not explicit is derived
from the captured window and the reply reserve.  Its record is replayed to the same changes, digest and settings. -/
theorem configure_exact :
    (∀ (s : State) (command : Command) (resolved : Resolved) (record : Record) (events : List Term) (next : State),
      propose s command resolved = .proposed record events next → record.admission = .accepted →
      record.configuration = resolved.candidate ∧ next.configuration = resolved.candidate ∧
      validate resolved.candidate s.definitions = true ∧
      Follows s.configuration (effectiveChanges command.changes resolved.candidate) resolved.candidate ∧
      (fetch command.changes "context_token_budget" = none → fetch command.changes "max_tokens" = none →
        get (get resolved.candidate "model_capabilities") "context_window" =
          get (get s.configuration "model_capabilities") "context_window" →
        get resolved.candidate "context_token_budget" = get s.configuration "context_token_budget" ∧
          origin resolved.candidate "context_token_budget" = origin s.configuration "context_token_budget") ∧
      configurationCommandChanges record = some command.changes ∧
      commandDigest record.commandId command.changes = record.commandDigest ∧
      applyCommandRecord s record = some next) ∧
    ∀ (start s : State) (rows : List (Option Record)) (v : ℤ),
      get start.configuration "configuration_version" = .int v → Run Step start rows s →
      get s.configuration "configuration_version" = .int (v + acceptedCount rows) :=
  ⟨fun _ _ _ _ _ _ h haccepted => configure_follows h haccepted,
    fun _ _ _ _ hstart h => configurationVersion_run hstart h⟩

/-! ## a window that the host resolves anew -/

/-- The captured facts of a model with this window. -/
def capabilitiesWith (window : Term) : Term :=
  mapOf [(str "model", str "m"), (str "context_window", window), (str "output_limit", nil),
    (str "reasoning_levels", .list []), (str "source_revision", str "r"),
    (str "source_digest", .binary (List.replicate 64 48))]

/-- Settings whose context ceiling is derived from this window. -/
def configurationWith (window context : Term) (contextOrigin systemOrigin : String) (system version : ℤ) : Term :=
  mapOf [(str "model", str "m"), (str "reasoning", str "default"), (str "configuration_version", .int version),
    (str "instructions", (Instructions.capture (mapOf [(str "version", str "v1"), (str "base", str "x"),
      (str "environment", str ""), (str "appendix", str "")])).getD nil),
    (str "max_tokens", .int 1000), (str "context_token_budget", context), (str "system_class_tokens", .int system),
    (str "budget_origins", mapOf [(str "context_token_budget", str contextOrigin),
      (str "system_class_tokens", str systemOrigin)]),
    (str "model_capabilities", capabilitiesWith window), (str "provider_mapping", generic)]

/-- A settled session whose model has no known window. -/
def settledState : State :=
  { sessionId := utf8 "s"
    configuration := configurationWith nil (.int 8192) "unknown_window" "legacy_default" 1000 1
    definitions := .list []
    work := ⟨none, [], none, none, none, none, none, false, some false⟩
    commands := []
    expectedEvents := [] }

/-- A command that names the system ceiling only. -/
def systemCommand : Command :=
  { commandId := utf8 "c"
    changes := .map [(str "system_class_tokens", .int 2000)]
    nonempty := by decide
    valid := by decide
    wellFormed := .map (by simp [Ordered]) (by simp [str, WellFormed.binary]) (by simp [WellFormed.int]) }

/-- The host has found out the window. -/
def foundWindow : Resolved :=
  { candidate := configurationWith (.int 100000) (.int 99000) "model_window" "explicit" 2000 2
    ownerSettled := true
    preflight := none }

/-- The command is accepted, and its record has this context ceiling. -/
def acceptsContext (outcome : Outcome) (context : Term) : Bool :=
  match outcome with
  | .proposed record _ _ => record.admission = .accepted && get record.configuration "context_token_budget" = context
  | _ => false

/-- A setting that was not named, and that no named setting is used for, need not be kept. -/
theorem configure_exact_fails : ¬ ∀ (s : State) (command : Command) (resolved : Resolved) (record : Record)
    (events : List Term) (next : State), propose s command resolved = .proposed record events next →
    record.admission = .accepted → fetch command.changes "context_token_budget" = none →
    fetch command.changes "model" = none → fetch command.changes "max_tokens" = none →
    get record.configuration "context_token_budget" = get s.configuration "context_token_budget" := by
  intro h
  have haccepts : acceptsContext (propose settledState systemCommand foundWindow) (.int 99000) = true := by
    decide +kernel
  cases houtcome : propose settledState systemCommand foundWindow with
  | proposed record events next =>
    rw [houtcome, acceptsContext, Bool.and_eq_true, decide_eq_true_eq, decide_eq_true_eq] at haccepts
    have hkept := h _ _ _ _ _ _ houtcome haccepts.1 (by decide) (by decide) (by decide)
    rw [haccepts.2] at hkept
    exact absurd hkept (by decide)
  | _ => rw [houtcome] at haccepts; cases haccepts

end Loopex.Runtime.ConfigureCommand
