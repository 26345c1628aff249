import Loopex.Erlang.Check
import Loopex.Protocol.Canonical
import Loopex.Runtime.HistoryRecord
import Loopex.Runtime.ToolResultExcerpt
import Loopex.System.Run

/-!
# Preparation of artifacts

The durable episode in which the oldest inline results of a run are retained: a source is reserved, and then
completed by a reference to the exact bytes or failed, within a deadline and two limits.  Every step writes a
record; its replay computes the step again at the clock of the record and compares.

* `Episode`, `reserve`, `complete`, `failure` — the steps
* `replayReservation`, `replayCompletion`, `replayFailure` — what a record is checked against
* `preparation_episodes` — the account of an episode, what its replay accepts, and that it never sticks
-/

namespace Loopex.Runtime.ArtifactPreparation

open Loopex.Erlang Loopex.Erlang.Term Loopex.Store Loopex.System
open Loopex.Protocol.Canonical (spelling sortPairs encode_eq_some order_list order_map order_empty)
open Loopex.Runtime.ArtifactStore (stringKeys)

/-! ## episodes -/

def sourceLimit : ℤ := 16

def byteLimit : ℤ := 1048576

def sourceByteLimit : ℤ := 65536

def episodeMs : ℤ := 60000

/-- The atoms that the steps answer with, and those they are asked to fail with. -/
inductive Reason
  | contextProjectionInvalid
  | invalidClock
  | invalidTransition
  | alreadyReserved
  | invalidPreparedReference
  | runDeadlineReached
  | countExhausted
  | bytesExhausted
  | deadline
  | failed
  | other (name : Bytes)
  deriving DecidableEq

/-- `Atom.to_string`. -/
def Reason.toBytes : Reason → Bytes
  | .contextProjectionInvalid => utf8 "context_projection_invalid"
  | .invalidClock => utf8 "invalid_artifact_preparation_clock"
  | .invalidTransition => utf8 "invalid_artifact_preparation_transition"
  | .alreadyReserved => utf8 "artifact_preparation_already_reserved"
  | .invalidPreparedReference => utf8 "invalid_artifact_prepared_reference"
  | .runDeadlineReached => utf8 "run_deadline_reached"
  | .countExhausted => utf8 "artifact_preparation_count_exhausted"
  | .bytesExhausted => utf8 "artifact_preparation_bytes_exhausted"
  | .deadline => utf8 "artifact_preparation_deadline"
  | .failed => utf8 "artifact_preparation_failed"
  | .other name => name

/-- The staging identity of an episode. -/
structure Identity where
  episodeId : Bytes
  runId : Bytes
  turnId : Bytes
  deriving DecidableEq

def Identity.fields (identity : Identity) : Fields :=
  [("episode_id", .binary identity.episodeId), ("run_id", .binary identity.runId),
    ("turn_id", .binary identity.turnId)]

/-- A receipt with an inline result. -/
structure Source where
  sourceReference : Term
  journalVersion : Term
  recordDigest : Term
  recordByteCost : ℤ
  content : Bytes
  metadata : Term

/-- `Canonical.digest_bytes`, as a term. -/
def digestBytes (b : Bytes) : Term := .binary (hex (sha256 b))

/-- `fingerprint`. -/
def fingerprint (source : Source) : Term :=
  plainMap [("source_reference", source.sourceReference), ("receipt_journal_version", source.journalVersion),
    ("receipt_digest", source.recordDigest), ("record_byte_cost", .int source.recordByteCost),
    ("source_byte_count", .int source.content.length), ("source_digest", digestBytes source.content),
    ("metadata", source.metadata)]

inductive Status
  | reserved | completed | failed
  deriving DecidableEq

def Status.toTerm : Status → Term
  | .reserved => str "reserved"
  | .completed => str "completed"
  | .failed => str "failed"

inductive Origin
  | run | preparation
  deriving DecidableEq

def Origin.toTerm : Origin → Term
  | .run => str "run"
  | .preparation => str "preparation"

/-- What a reservation starts from. -/
structure Base where
  identity : Identity
  startedAt : ℤ
  deadline : ℤ
  origin : Origin
  sourceCount : ℤ
  sourceRecordBytes : ℤ
  cursor : ℤ
  completedAt : Option ℤ
  failure : Option (Reason × ℤ)

/-- An episode, which is also the record of its last reservation. -/
structure Episode extends Base where
  status : Status
  reservedAt : ℤ
  source : Term

def Episode.fields (e : Episode) : Fields :=
  e.identity.fields ++
    [("projection_revision", .int 1), ("started_at_ms", .int e.startedAt), ("deadline_ms", .int e.deadline),
      ("deadline_origin", e.origin.toTerm), ("source_count", .int e.sourceCount),
      ("source_record_bytes", .int e.sourceRecordBytes), ("cursor", .int e.cursor), ("source", e.source),
      ("status", e.status.toTerm), ("reserved_at_ms", .int e.reservedAt)] ++
    (e.completedAt.toList.map fun now => ("completed_at_ms", .int now)) ++
    (e.failure.toList.flatMap fun f => [("cause", .binary f.1.toBytes), ("observed_at_ms", .int f.2)])

def Episode.toTerm (e : Episode) : Term := record "tool_result_preparation_state_v1" e.fields

/-- The episode after the completion of its source. -/
def Episode.completed (e : Episode) (now : ℤ) : Episode :=
  { e with status := .completed, cursor := e.cursor + 1, completedAt := some now, source := nil }

/-- The episode after its failure. -/
def Episode.failed (e : Episode) (cause : Reason) (now : ℤ) : Episode :=
  { e with status := .failed, failure := some (cause, now) }

/-! ## the steps -/

/-- `source_admitted`. -/
def sourceAdmitted (source : Source) : Check Reason Unit :=
  Check.require (decide (1 ≤ source.recordByteCost) && decide (source.recordByteCost ≤ sourceByteLimit) &&
    validUtf8 source.content) .contextProjectionInvalid

/-- `clock_admitted`. -/
def clockAdmitted : Term → Check Reason ℤ
  | .int now => if 0 ≤ now ∧ now ≤ uint64Max then .ok now else .error .invalidClock
  | _ => .error .invalidClock

/-- `episode_base`. -/
def episodeBase (episode : Option Episode) (identity : Identity) (now : ℤ) (runDeadline : Option ℤ) :
    Check Reason Base :=
  match episode with
  | none =>
    if now + episodeMs ≤ uint64Max then
      let (deadline, origin) := match runDeadline with
        | some runDeadline =>
          if runDeadline < now + episodeMs then (runDeadline, Origin.run) else (now + episodeMs, .preparation)
        | none => (now + episodeMs, .preparation)
      .ok ⟨identity, now, deadline, origin, 0, 0, 0, none, none⟩
    else .error .invalidClock
  | some e =>
    if e.status = .completed then
      if e.identity = identity then .ok e.toBase else .error .invalidTransition
    else .error .alreadyReserved

/-- `within_deadline`. -/
def withinDeadline (base : Base) (now : ℤ) : Check Reason Unit :=
  if now < base.deadline then .ok ()
  else if base.origin = .run then .error .runDeadlineReached
  else .error .deadline

/-- `reservation_capacity`. -/
def reservationCapacity (base : Base) (source : Source) (now : ℤ) : Check Reason Unit := do
  withinDeadline base now
  if sourceLimit ≤ base.sourceCount then .error .countExhausted
  else if byteLimit < base.sourceRecordBytes + source.recordByteCost then .error .bytesExhausted
  else .ok ()

/-- The episode with a source reserved. -/
def Base.reserved (base : Base) (source : Source) (now : ℤ) : Episode :=
  { base with
    sourceCount := base.sourceCount + 1
    sourceRecordBytes := base.sourceRecordBytes + source.recordByteCost
    status := .reserved
    reservedAt := now
    source := fingerprint source }

/-- `reserve`. -/
def reserve (episode : Option Episode) (identity : Identity) (source : Source) (now : Term) (runDeadline : Option ℤ) :
    Check Reason Episode := do
  sourceAdmitted source
  let now ← clockAdmitted now
  let base ← episodeBase episode identity now runDeadline
  reservationCapacity base source now
  pure (base.reserved source now)

/-- The use of an artifact that a reference names. -/
def artifactUse (reference metadata : Term) : Term :=
  mapOf [(sym "canonicalization_version", str "loopex.canonical.v1"),
    (sym "object_digest", ArtifactStore.field reference "digest"),
    (sym "object_size", ArtifactStore.field reference "size"),
    (sym "object_locator", ArtifactStore.field reference "locator"),
    (sym "media_type", ArtifactStore.field reference "media_type"),
    (sym "role", ArtifactStore.field reference "role"),
    (sym "metadata", metadata)]

/-- `reference_use_matches?`; metadata that is no plain data raises. -/
def referenceUseMatches (reference metadata : Term) : Check Reason Bool :=
  match Protocol.Canonical.encode (.list [str "artifact-use-v2", artifactUse reference metadata]) with
  | none => .raise .badArgument
  | some bytes =>
    let digest := hex (sha256 bytes)
    .ok (ArtifactStore.field reference "use_canonicalization_version" = str "loopex.canonical.v1" &&
      ArtifactStore.field reference "use_digest" = .binary digest &&
      ArtifactStore.field reference "use_locator" = .binary (utf8 "use:" ++ digest))

section
-- a match of the pattern for control, format and separator characters
variable (unsafeText : Bytes → Bool)

/-- The record of a completion. -/
def preparedRecord (e : Episode) (source : Source) (reference : Term) (now : ℤ) : Term :=
  record "tool_result_reference_prepared"
    ([("version", .int 1)] ++ e.identity.fields ++ [("projection_revision", .int 1), ("completed_at_ms", .int now),
      ("source", fingerprint source), ("reference", stringKeys reference)])

/-- `complete`. -/
def complete (episode : Option Episode) (source : Source) (reference now : Term) : Check Reason Term :=
  match episode with
  | some e =>
    if e.status = .reserved then do
      sourceAdmitted source
      let now ← clockAdmitted now
      withinDeadline e.toBase now
      Check.require (looseEq e.source (fingerprint source)) .invalidPreparedReference
      Check.require (ArtifactStore.validReference unsafeText reference) .invalidPreparedReference
      Check.require (looseEq (ArtifactStore.field reference "digest") (digestBytes source.content))
        .invalidPreparedReference
      Check.require (looseEq (ArtifactStore.field reference "size") (.int source.content.length))
        .invalidPreparedReference
      Check.require (looseEq (ArtifactStore.field reference "role") (str "tool_output")) .invalidPreparedReference
      let matched ← referenceUseMatches reference source.metadata
      Check.require matched .invalidPreparedReference
      pure (preparedRecord e source reference now)
    else .error .invalidPreparedReference
  | none => .error .invalidPreparedReference

end

/-- `failure_agrees?`. -/
def failureAgrees (e : Episode) (source : Source) (now : ℤ) : Reason → Bool
  | .failed => e.status = .reserved && looseEq e.source (fingerprint source) && withinDeadline e.toBase now = .ok ()
  | .countExhausted => e.status = .completed && reservationCapacity e.toBase source now = .error .countExhausted
  | .bytesExhausted => e.status = .completed && reservationCapacity e.toBase source now = .error .bytesExhausted
  | .deadline => (e.status = .reserved || e.status = .completed) && withinDeadline e.toBase now = .error .deadline
  | _ => false

/-- The record of a failure. -/
def failureRecord (identity : Identity) (source : Source) (cause : Reason) (now : ℤ) : Term :=
  record "tool_result_preparation_failed_v1"
    (identity.fields ++ [("cause", .binary cause.toBytes), ("observed_at_ms", .int now), ("source", fingerprint source)])

/-- `failure`. -/
def failure (episode : Option Episode) (identity : Identity) (source : Source) (now : Term) (cause : Reason) :
    Check Reason Term :=
  match episode with
  | some e =>
    (do
      sourceAdmitted source
      let now ← clockAdmitted now
      Check.require (decide (e.identity = identity)) .invalidTransition
      Check.require (failureAgrees e source now cause) .invalidTransition
      pure (failureRecord identity source cause now) : Check Reason Term).orError .invalidTransition
  | none => .error .invalidTransition

/-! ## replay -/

/-- `replay_reservation`. -/
def replayReservation (episode : Option Episode) (row : Term) (identity : Identity) (source : Source)
    (runDeadline : Option ℤ) : Check Reason Term :=
  (do
    let expected ← reserve episode identity source (get row "reserved_at_ms") runDeadline
    Check.require (looseEq row expected.toTerm) .invalidTransition
    pure row : Check Reason Term).orError .invalidTransition

/-- `replay_completion`; the clock of the record is one that `complete` has admitted. -/
def replayCompletion (unsafeText : Bytes → Bool) (episode : Option Episode) (row : Term) (source : Source)
    (reference : Term) : Check Reason Episode :=
  match episode with
  | some e =>
    (do
      let expected ← complete unsafeText (some e) source reference (get row "completed_at_ms")
      Check.require (looseEq expected row) .invalidTransition
      let now ← clockAdmitted (get row "completed_at_ms")
      pure (e.completed now) : Check Reason Episode).orError .invalidTransition
  | none => .error .invalidTransition

/-- `failure_cause`. -/
def failureCause (row : Term) : Option Reason :=
  [Reason.countExhausted, .bytesExhausted, .deadline, .failed].find? fun cause => get row "cause" = .binary cause.toBytes

/-- `replay_failure`. -/
def replayFailure (episode : Option Episode) (row : Term) (identity : Identity) (source : Source) :
    Check Reason Episode :=
  match episode, failureCause row with
  | some e, some cause =>
    (do
      let expected ← failure (some e) identity source (get row "observed_at_ms") cause
      Check.require (looseEq row expected) .invalidTransition
      let now ← clockAdmitted (get row "observed_at_ms")
      pure (e.failed cause now) : Check Reason Episode).orError .invalidTransition
  | _, _ => .error .invalidTransition

/-! ## what the steps ask -/

variable {unsafeText : Bytes → Bool} {identity : Identity} {runDeadline : Option ℤ} {source : Source} {e next : Episode}
  {episode : Option Episode} {cause : Reason} {reference row t : Term}

theorem clockAdmitted_eq_ok {now : ℤ} : clockAdmitted t = .ok now ↔ t = .int now ∧ 0 ≤ now ∧ now ≤ uint64Max := by
  cases t with
  | int n =>
    simp only [clockAdmitted]
    split
    next h =>
      simp only [Check.ok.injEq, Term.int.injEq]
      exact ⟨fun he => ⟨he, he ▸ h⟩, fun he => he.1⟩
    next h =>
      simp only [reduceCtorEq, Term.int.injEq, false_iff]
      rintro ⟨rfl, hn⟩
      exact h hn
  | _ => simp [clockAdmitted]

theorem reserve_eq_ok : reserve episode identity source t runDeadline = .ok next ↔
    ∃ now base, sourceAdmitted source = .ok () ∧ clockAdmitted t = .ok now ∧
      episodeBase episode identity now runDeadline = .ok base ∧ reservationCapacity base source now = .ok () ∧
      base.reserved source now = next := by
  simp only [reserve, Check.bind_eq_ok, Check.pure_eq, Check.ok.injEq]
  constructor
  · rintro ⟨_, hs, now, hnow, base, hbase, _, hcapacity, hnext⟩
    exact ⟨now, base, hs, hnow, hbase, hcapacity, hnext⟩
  · rintro ⟨now, base, hs, hnow, hbase, hcapacity, hnext⟩
    exact ⟨(), hs, now, hnow, base, hbase, (), hcapacity, hnext⟩

/-- What `complete` asks of the reference of a source. -/
def Prepares (unsafeText : Bytes → Bool) (e : Episode) (source : Source) (reference : Term) : Prop :=
  looseEq e.source (fingerprint source) = true ∧ ArtifactStore.validReference unsafeText reference = true ∧
    looseEq (ArtifactStore.field reference "digest") (digestBytes source.content) = true ∧
    looseEq (ArtifactStore.field reference "size") (.int source.content.length) = true ∧
    looseEq (ArtifactStore.field reference "role") (str "tool_output") = true ∧
    referenceUseMatches reference source.metadata = .ok true

theorem complete_eq_ok : complete unsafeText (some e) source reference t = .ok row ↔
    ∃ now, e.status = .reserved ∧ sourceAdmitted source = .ok () ∧ clockAdmitted t = .ok now ∧
      withinDeadline e.toBase now = .ok () ∧ Prepares unsafeText e source reference ∧
      preparedRecord e source reference now = row := by
  by_cases hstatus : e.status = .reserved
  · simp only [complete, hstatus, if_true, Check.bind_eq_ok, Check.require_eq_ok, Check.pure_eq, Check.ok.injEq, Prepares]
    constructor
    · rintro ⟨_, hs, now, hnow, _, hwithin, _, h1, _, h2, _, h3, _, h4, _, h5, matched, h6, _, rfl, hrow⟩
      exact ⟨now, trivial, hs, hnow, hwithin, ⟨h1, h2, h3, h4, h5, h6⟩, hrow⟩
    · rintro ⟨now, -, hs, hnow, hwithin, ⟨h1, h2, h3, h4, h5, h6⟩, hrow⟩
      exact ⟨(), hs, now, hnow, (), hwithin, (), h1, (), h2, (), h3, (), h4, (), h5, true, h6, (), rfl, hrow⟩
  · simp [complete, hstatus]

theorem failure_eq_ok : failure (some e) identity source t cause = .ok row ↔
    ∃ now, sourceAdmitted source = .ok () ∧ clockAdmitted t = .ok now ∧ e.identity = identity ∧
      failureAgrees e source now cause = true ∧ failureRecord identity source cause now = row := by
  simp only [failure, Check.orError_eq_ok, Check.bind_eq_ok, Check.require_eq_ok, decide_eq_true_eq, Check.pure_eq,
    Check.ok.injEq]
  constructor
  · rintro ⟨_, hs, now, hnow, _, hidentity, _, hagrees, hrow⟩
    exact ⟨now, hs, hnow, hidentity, hagrees, hrow⟩
  · rintro ⟨now, hs, hnow, hidentity, hagrees, hrow⟩
    exact ⟨(), hs, now, hnow, (), hidentity, (), hagrees, hrow⟩

/-- A source is within its limit. -/
theorem sourceAdmitted_le (h : sourceAdmitted source = .ok ()) :
    1 ≤ source.recordByteCost ∧ source.recordByteCost ≤ sourceByteLimit := by
  simp only [sourceAdmitted, Check.require_eq_ok, Bool.and_eq_true, decide_eq_true_eq] at h
  exact h.1

theorem reservationCapacity_eq_ok {base : Base} {now : ℤ} : reservationCapacity base source now = .ok () ↔
    withinDeadline base now = .ok () ∧ base.sourceCount < sourceLimit ∧
      base.sourceRecordBytes + source.recordByteCost ≤ byteLimit := by
  simp only [reservationCapacity, Check.bind_eq_ok]
  constructor
  · rintro ⟨_, hwithin, h⟩
    split at h
    · cases h
    · split at h
      · cases h
      · exact ⟨hwithin, by omega, by omega⟩
  · rintro ⟨hwithin, hcount, hbytes⟩
    exact ⟨(), hwithin, by rw [if_neg (by omega), if_neg (by omega)]⟩

/-! ## the records -/

theorem nodup_fields (e : Episode) : (e.fields.map Prod.fst).Nodup := by
  have hsome : ∀ (now : ℤ) (f : Reason × ℤ), ({ e with completedAt := some now, failure := some f } : Episode).fields.map
      Prod.fst = ["episode_id", "run_id", "turn_id", "projection_revision", "started_at_ms", "deadline_ms",
        "deadline_origin", "source_count", "source_record_bytes", "cursor", "source", "status", "reserved_at_ms",
        "completed_at_ms", "cause", "observed_at_ms"] := fun _ _ => rfl
  have hsublist : (e.fields.map Prod.fst).Sublist (({ e with
      completedAt := some 0
      failure := some (.failed, 0) } : Episode).fields.map Prod.fst) := by
    cases hc : e.completedAt <;> cases hf : e.failure <;> simp [Episode.fields, hc, hf]
  refine List.Nodup.sublist hsublist ?_
  rw [hsome]
  decide

theorem get_reservedAt (e : Episode) : get e.toTerm "reserved_at_ms" = .int e.reservedAt := by
  rw [Episode.toTerm, get_record (nodup_fields e)]
  simp [Episode.fields, Identity.fields]

theorem get_completedAt {now : ℤ} : get (preparedRecord e source reference now) "completed_at_ms" = .int now := by
  rw [preparedRecord, get_record (by simp [Identity.fields])]
  simp [Identity.fields]

theorem get_observedAt {now : ℤ} : get (failureRecord identity source cause now) "observed_at_ms" = .int now := by
  rw [failureRecord, get_record (by simp [Identity.fields])]
  simp [Identity.fields]

theorem get_cause {now : ℤ} : get (failureRecord identity source cause now) "cause" = .binary cause.toBytes := by
  rw [failureRecord, get_record (by simp [Identity.fields])]
  simp [Identity.fields]

/-- The cause of a failure is read off its record. -/
theorem failureCause_record {now n : ℤ} (h : failureAgrees e source n cause = true) :
    failureCause (failureRecord identity source cause now) = some cause := by
  unfold failureCause
  rw [get_cause]
  cases cause <;> first | decide | (simp [failureAgrees] at h)

/-! ## what is replayed -/

/-- A reservation is accepted when it equals the one made at its own clock. -/
theorem replayReservation_eq_ok : replayReservation episode row identity source runDeadline = .ok t ↔
    t = row ∧ ∃ next, reserve episode identity source (get row "reserved_at_ms") runDeadline = .ok next ∧
      looseEq row next.toTerm = true := by
  simp only [replayReservation, Check.orError_eq_ok, Check.bind_eq_ok, Check.require_eq_ok, Check.pure_eq, Check.ok.injEq]
  constructor
  · rintro ⟨next, hnext, _, hloose, hrow⟩
    exact ⟨hrow.symm, next, hnext, hloose⟩
  · rintro ⟨hrow, next, hnext, hloose⟩
    exact ⟨next, hnext, (), hloose, hrow.symm⟩

/-- A completion is accepted when it equals the one made at its own clock. -/
theorem replayCompletion_eq_ok : replayCompletion unsafeText (some e) row source reference = .ok next ↔
    ∃ now expected, get row "completed_at_ms" = .int now ∧
      complete unsafeText (some e) source reference (.int now) = .ok expected ∧ looseEq expected row = true ∧
      next = e.completed now := by
  simp only [replayCompletion, Check.orError_eq_ok, Check.bind_eq_ok, Check.require_eq_ok, Check.pure_eq, Check.ok.injEq,
    clockAdmitted_eq_ok]
  constructor
  · rintro ⟨expected, hexpected, _, hloose, now, ⟨hnow, -⟩, hnext⟩
    exact ⟨now, expected, hnow, hnow ▸ hexpected, hloose, hnext.symm⟩
  · rintro ⟨now, expected, hnow, hexpected, hloose, hnext⟩
    obtain ⟨n, -, -, hclock, -⟩ := complete_eq_ok.1 hexpected
    obtain ⟨hn, hrange⟩ := clockAdmitted_eq_ok.1 hclock
    cases hn
    exact ⟨expected, hnow ▸ hexpected, (), hloose, now, ⟨hnow, hrange⟩, hnext.symm⟩

/-- A failure is accepted when it equals the one of its own cause at its own clock. -/
theorem replayFailure_eq_ok : replayFailure (some e) row identity source = .ok next ↔
    ∃ cause now expected, failureCause row = some cause ∧ get row "observed_at_ms" = .int now ∧
      failure (some e) identity source (.int now) cause = .ok expected ∧ looseEq row expected = true ∧
      next = e.failed cause now := by
  unfold replayFailure
  split
  next cause he hcause =>
    cases he
    simp only [Check.orError_eq_ok, Check.bind_eq_ok, Check.require_eq_ok, Check.pure_eq, Check.ok.injEq,
      clockAdmitted_eq_ok]
    constructor
    · rintro ⟨expected, hexpected, _, hloose, now, ⟨hnow, -⟩, hnext⟩
      exact ⟨cause, now, expected, hcause, hnow, hnow ▸ hexpected, hloose, hnext.symm⟩
    · rintro ⟨cause', now, expected, hcause', hnow, hexpected, hloose, hnext⟩
      obtain rfl := Option.some.inj (hcause'.symm.trans hcause)
      obtain ⟨n, -, hclock, -⟩ := failure_eq_ok.1 hexpected
      obtain ⟨hn, hrange⟩ := clockAdmitted_eq_ok.1 hclock
      cases hn
      exact ⟨expected, hnow ▸ hexpected, (), hloose, now, ⟨hnow, hrange⟩, hnext.symm⟩
  next hnone =>
    simp only [reduceCtorEq, false_iff]
    rintro ⟨cause, now, expected, hcause, -⟩
    exact hnone e cause rfl hcause

/-- A reservation is replayed to the episode it made. -/
theorem replay_reserve {now : ℤ} (h : reserve episode identity source (.int now) runDeadline = .ok next) :
    replayReservation episode next.toTerm identity source runDeadline = .ok next.toTerm := by
  have hclock : next.reservedAt = now := by
    obtain ⟨n, base, -, hn, -, -, rfl⟩ := reserve_eq_ok.1 h
    cases (clockAdmitted_eq_ok.1 hn).1
    rfl
  refine replayReservation_eq_ok.2 ⟨rfl, next, ?_, looseEq_self _⟩
  rw [get_reservedAt, hclock]
  exact h

/-- A completion is replayed to the completed episode. -/
theorem replay_complete {now : ℤ} (h : complete unsafeText (some e) source reference (.int now) = .ok row) :
    replayCompletion unsafeText (some e) row source reference = .ok (e.completed now) := by
  obtain ⟨n, -, -, hn, -, -, hrow⟩ := complete_eq_ok.1 h
  cases (clockAdmitted_eq_ok.1 hn).1
  exact replayCompletion_eq_ok.2 ⟨now, row, hrow ▸ get_completedAt, h, looseEq_self _, rfl⟩

/-- A failure is replayed to the failed episode. -/
theorem replay_failure {now : ℤ} (h : failure (some e) identity source (.int now) cause = .ok row) :
    replayFailure (some e) row identity source = .ok (e.failed cause now) := by
  obtain ⟨n, -, hn, -, hagrees, hrow⟩ := failure_eq_ok.1 h
  cases (clockAdmitted_eq_ok.1 hn).1
  exact replayFailure_eq_ok.2 ⟨cause, now, row, hrow ▸ failureCause_record hagrees, hrow ▸ get_observedAt, h,
    looseEq_self _, rfl⟩

/-! ## the account of a run -/

/-- A step that was made. -/
inductive Move
  | reserve (source : Source) (now : ℤ)
  | complete (source : Source) (reference : Term) (now : ℤ)
  | failure (source : Source) (now : ℤ) (cause : Reason)

/-- The steps of the episode of an identity. -/
inductive Step (unsafeText : Bytes → Bool) (identity : Identity) (runDeadline : Option ℤ) :
    Option Episode → Move → Option Episode → Prop
  | reserve {episode : Option Episode} {source : Source} {now : ℤ} {next : Episode}
      (h : ArtifactPreparation.reserve episode identity source (.int now) runDeadline = .ok next) :
      Step unsafeText identity runDeadline episode (.reserve source now) (some next)
  | complete {e : Episode} {source : Source} {reference row : Term} {now : ℤ}
      (h : ArtifactPreparation.complete unsafeText (some e) source reference (.int now) = .ok row) :
      Step unsafeText identity runDeadline (some e) (.complete source reference now) (some (e.completed now))
  | failure {e : Episode} {source : Source} {row : Term} {now : ℤ} {cause : Reason}
      (h : ArtifactPreparation.failure (some e) identity source (.int now) cause = .ok row) :
      Step unsafeText identity runDeadline (some e) (.failure source now cause) (some (e.failed cause now))

/-- The bytes of the record that a reservation takes. -/
def Move.cost? : Move → Option ℤ
  | .reserve source _ => some source.recordByteCost
  | _ => none

def Move.completes : Move → Bool
  | .complete .. => true
  | _ => false

/-- The costs of the sources reserved. -/
def costs (moves : List Move) : List ℤ := moves.filterMap Move.cost?

/-- The sources completed. -/
def completions (moves : List Move) : ℕ := moves.countP Move.completes

/-- What an episode records of the moves made, and its limits. -/
structure Accounted (identity : Identity) (moves : List Move) (e : Episode) : Prop where
  identity : e.identity = identity
  count : e.sourceCount = (costs moves).length
  bytes : e.sourceRecordBytes = (costs moves).sum
  cursor : e.cursor = completions moves
  count_le : e.sourceCount ≤ sourceLimit
  bytes_le : e.sourceRecordBytes ≤ byteLimit
  reserved : e.status = .reserved → e.sourceCount = e.cursor + 1
  completed : e.status = .completed → e.sourceCount = e.cursor
  between : e.cursor ≤ e.sourceCount ∧ e.sourceCount ≤ e.cursor + 1

theorem costs_append (moves : List Move) (move : Move) : costs (moves ++ [move]) = costs moves ++ move.cost?.toList := by
  cases h : move.cost? <;> simp [costs, h]

theorem completions_append (moves : List Move) (move : Move) :
    completions (moves ++ [move]) = completions moves + if move.completes then 1 else 0 := by
  cases h : move.completes <;> simp [completions, h]

/-- What a reservation starts from is within the limits, and completed. -/
theorem episodeBase_accounted {moves : List Move} {now : ℤ} {base : Base}
    (h : ∀ e, episode = some e → Accounted identity moves e) (hnone : episode = none → moves = [])
    (hbase : episodeBase episode identity now runDeadline = .ok base) :
    base.identity = identity ∧ base.sourceCount = (costs moves).length ∧ base.sourceRecordBytes = (costs moves).sum ∧
      base.cursor = completions moves ∧ base.sourceCount = base.cursor := by
  cases episode with
  | none =>
    simp only [episodeBase] at hbase
    split at hbase
    · cases hbase
      rw [hnone rfl]
      exact ⟨rfl, rfl, rfl, rfl, rfl⟩
    · cases hbase
  | some e =>
    simp only [episodeBase] at hbase
    split at hbase
    next hstatus =>
      split at hbase
      next hidentity =>
        cases hbase
        have hacc := h e rfl
        exact ⟨hidentity, hacc.count, hacc.bytes, hacc.cursor, hacc.completed hstatus⟩
      · cases hbase
    · cases hbase

/-- **An episode stays bounded**: it accounts for the moves of its run. -/
theorem accounted_run {moves : List Move} (h : Run (Step unsafeText identity runDeadline) none moves episode) :
    (episode = none → moves = []) ∧ ∀ e, episode = some e → Accounted identity moves e := by
  induction h with
  | nil => exact ⟨fun _ => rfl, by simp⟩
  | @snoc moves s move s' _ hs ih =>
    obtain ⟨hnone, hsome⟩ := ih
    refine ⟨?_, ?_⟩
    · rintro rfl
      cases hs
    · rintro e rfl
      cases hs with
      | reserve hreserve =>
        obtain ⟨now, base, -, -, hbase, hcapacity, rfl⟩ := reserve_eq_ok.1 hreserve
        obtain ⟨hidentity, hcount, hbytes, hcursor, heq⟩ := episodeBase_accounted hsome hnone hbase
        obtain ⟨-, hlt, hle⟩ := reservationCapacity_eq_ok.1 hcapacity
        constructor
        · exact hidentity
        · simp [costs_append, Move.cost?, Base.reserved, hcount]
        · simp [costs_append, Move.cost?, Base.reserved, hbytes]
        · simp [completions_append, Move.completes, Base.reserved, hcursor]
        · simp only [Base.reserved]
          omega
        · exact hle
        · intro _
          simp only [Base.reserved]
          omega
        · intro hstatus
          cases hstatus
        · simp only [Base.reserved]
          omega
      | @complete e source reference row now hcomplete =>
        obtain ⟨n, hstatus, -⟩ := complete_eq_ok.1 hcomplete
        have hacc := hsome e rfl
        have hreserved := hacc.reserved hstatus
        constructor
        · exact hacc.identity
        · simp [costs_append, Move.cost?, Episode.completed, hacc.count]
        · simp [costs_append, Move.cost?, Episode.completed, hacc.bytes]
        · simp [completions_append, Move.completes, Episode.completed, hacc.cursor]
        · exact hacc.count_le
        · exact hacc.bytes_le
        · intro h
          cases h
        · intro _
          exact hreserved
        · simp only [Episode.completed]
          omega
      | @failure e source row now cause hfailure =>
        have hacc := hsome e rfl
        constructor
        · exact hacc.identity
        · simp [costs_append, Move.cost?, Episode.failed, hacc.count]
        · simp [costs_append, Move.cost?, Episode.failed, hacc.bytes]
        · simp [completions_append, Move.completes, Episode.failed, hacc.cursor]
        · exact hacc.count_le
        · exact hacc.bytes_le
        · intro h
          cases h
        · intro h
          cases h
        · exact hacc.between

/-- The deadline of an episode, and where it came from, are those of its first reservation. -/
theorem deadline_run {moves : List Move} (h : Run (Step unsafeText identity runDeadline) (some e) moves episode) :
    ∃ next, episode = some next ∧ next.deadline = e.deadline ∧ next.origin = e.origin ∧ next.startedAt = e.startedAt := by
  induction h with
  | nil => exact ⟨e, rfl, rfl, rfl, rfl⟩
  | snoc _ hs ih =>
    obtain ⟨t, rfl, hdeadline, horigin, hstarted⟩ := ih
    cases hs with
    | reserve hreserve =>
      obtain ⟨now, base, -, -, hbase, -, rfl⟩ := reserve_eq_ok.1 hreserve
      simp only [episodeBase] at hbase
      split at hbase
      · split at hbase
        · cases hbase
          exact ⟨_, rfl, hdeadline, horigin, hstarted⟩
        · cases hbase
      · cases hbase
    | complete => exact ⟨_, rfl, hdeadline, horigin, hstarted⟩
    | failure => exact ⟨_, rfl, hdeadline, horigin, hstarted⟩

/-! ## an episode never sticks -/

/-- What comes of a further source. -/
inductive Outcome
  | reserved | failed | runDeadline | clock

/-- The clock is a uint64, and so is the cutoff of a first reservation. -/
def Representable (episode : Option Episode) (now : Term) : Prop :=
  ∃ n, now = .int n ∧ 0 ≤ n ∧ n + (if episode.isNone then episodeMs else 0) ≤ uint64Max

def Occurs (episode : Option Episode) (identity : Identity) (source : Source) (now : Term) (runDeadline : Option ℤ) :
    Outcome → Prop
  | .reserved => ∃ next, reserve episode identity source now runDeadline = .ok next
  | .failed => ∃! cause, ∃ row, failure episode identity source now cause = .ok row
  | .runDeadline => reserve episode identity source now runDeadline = .error .runDeadlineReached
  | .clock => ¬ Representable episode now

/-- A further source with a clock that is representable is judged by the capacity of its base. -/
theorem reserve_of_base {now : ℤ} {base : Base} (hs : sourceAdmitted source = .ok ())
    (hn : clockAdmitted t = .ok now) (hbase : episodeBase episode identity now runDeadline = .ok base) :
    reserve episode identity source t runDeadline =
      (reservationCapacity base source now >>= fun _ => .ok (base.reserved source now)) := by
  simp only [reserve, hs, hn, hbase, Check.ok_bind, Check.pure_eq]

/-- A completed episode fails for the reason that its capacity refuses, unless it is the deadline of the run. -/
theorem failureAgrees_completed {now : ℤ} (h : e.status = .completed) :
    failureAgrees e source now cause = true ↔
      reservationCapacity e.toBase source now = .error cause ∧ cause ≠ .runDeadlineReached := by
  have hreasons : ∀ reason, reservationCapacity e.toBase source now = .error reason →
      reason ∈ [Reason.countExhausted, .bytesExhausted, .deadline, .runDeadlineReached] := by
    intro reason hreason
    simp only [reservationCapacity, withinDeadline] at hreason
    repeat' split at hreason
    all_goals simp_all
  have hdeadline : reservationCapacity e.toBase source now = .error .deadline ↔
      withinDeadline e.toBase now = .error .deadline := by
    simp only [reservationCapacity]
    cases hwithin : withinDeadline e.toBase now with
    | ok => simp only [Check.ok_bind]; split <;> [skip; split] <;> simp
    | error => simp
    | raise => simp
  cases cause with
  | countExhausted => simp [failureAgrees, h]
  | bytesExhausted => simp [failureAgrees, h]
  | deadline => simp [failureAgrees, h, hdeadline]
  | _ =>
    simp only [failureAgrees, h, reduceCtorEq, decide_false, Bool.false_and, Bool.false_eq_true, false_iff]
    rintro ⟨hcapacity, hne⟩
    have hmem := hreasons _ hcapacity
    simp at hmem hne

/-- A first reservation starts from nothing, and its cutoff is the run's or yet to come. -/
theorem episodeBase_none {now : ℤ} {base : Base} (h : episodeBase none identity now runDeadline = .ok base) :
    base.sourceCount = 0 ∧ base.sourceRecordBytes = 0 ∧ (base.origin = .run ∨ now < base.deadline) := by
  simp only [episodeBase] at h
  split at h
  · cases h
    refine ⟨rfl, rfl, ?_⟩
    cases runDeadline with
    | none =>
      right
      simp [episodeMs]
    | some d =>
      by_cases hd : d < now + episodeMs
      · simp only [hd, if_true, true_or]
      · right
        simp only [hd, if_false]
        simp [episodeMs]
  · cases h

/-- The first reservation is refused by nothing but the deadline of the run. -/
theorem capacity_first {now : ℤ} {base : Base} (hs : sourceAdmitted source = .ok ())
    (hbase : episodeBase none identity now runDeadline = .ok base) :
    reservationCapacity base source now = .ok () ∨ reservationCapacity base source now = .error .runDeadlineReached := by
  obtain ⟨hcount, hbytes, horigin⟩ := episodeBase_none hbase
  have hle := (sourceAdmitted_le hs).2
  by_cases hlt : now < base.deadline
  · left
    refine reservationCapacity_eq_ok.2 ⟨if_pos hlt, ?_, ?_⟩
    · rw [hcount]
      decide
    · rw [hbytes]
      simp only [sourceByteLimit] at hle
      simp only [byteLimit]
      omega
  · right
    have hrun := horigin.resolve_right hlt
    simp [reservationCapacity, withinDeadline, hlt, hrun]

theorem failure_none {now : Term} : failure none identity source now cause ≠ .ok row := by
  simp [failure]

/-- A first source with a clock that is representable. -/
theorem outcome_first {now : ℤ} {base : Base} (hs : sourceAdmitted source = .ok ()) (hn : clockAdmitted (.int now) = .ok now)
    (hbase : episodeBase none identity now runDeadline = .ok base) (hclock : Representable none (.int now)) :
    ∃! outcome, Occurs none identity source (.int now) runDeadline outcome := by
  have hreserve := reserve_of_base hs hn hbase
  have hfailed : ¬ Occurs none identity source (.int now) runDeadline .failed := by
    rintro ⟨cause, ⟨row, hrow⟩, -⟩
    exact failure_none hrow
  rcases capacity_first hs hbase with hcapacity | hcapacity
  · rw [hcapacity, Check.ok_bind] at hreserve
    refine ⟨.reserved, ⟨_, hreserve⟩, ?_⟩
    rintro (_ | _ | _ | _) hoccurs
    · rfl
    · exact absurd hoccurs hfailed
    · simp [Occurs, hreserve] at hoccurs
    · exact absurd hclock hoccurs
  · rw [hcapacity, Check.error_bind] at hreserve
    refine ⟨.runDeadline, hreserve, ?_⟩
    rintro (_ | _ | _ | _) hoccurs
    · simp [Occurs, hreserve] at hoccurs
    · exact absurd hoccurs hfailed
    · rfl
    · exact absurd hclock hoccurs

theorem reservationCapacity_ne_raise {base : Base} {now : ℤ} {x : Exn} :
    reservationCapacity base source now ≠ .raise x := by
  intro h
  simp only [reservationCapacity, withinDeadline] at h
  repeat' split at h
  all_goals simp_all

/-- A further source of a completed episode, with a clock that is representable. -/
theorem outcome_completed {now : ℤ} (hs : sourceAdmitted source = .ok ()) (hn : clockAdmitted (.int now) = .ok now)
    (hstatus : e.status = .completed) (hidentity : e.identity = identity)
    (hclock : Representable (some e) (.int now)) :
    ∃! outcome, Occurs (some e) identity source (.int now) runDeadline outcome := by
  have hbase : episodeBase (some e) identity now runDeadline = .ok e.toBase := by
    simp [episodeBase, hstatus, hidentity]
  have hreserve := reserve_of_base hs hn hbase
  have hfailure : ∀ cause, (∃ row, failure (some e) identity source (.int now) cause = .ok row) ↔
      reservationCapacity e.toBase source now = .error cause ∧ cause ≠ .runDeadlineReached := by
    intro cause
    rw [← failureAgrees_completed hstatus]
    constructor
    · rintro ⟨row, hrow⟩
      obtain ⟨m, -, hm, -, hagrees, -⟩ := failure_eq_ok.1 hrow
      cases (clockAdmitted_eq_ok.1 hm).1
      exact hagrees
    · intro hagrees
      exact ⟨_, failure_eq_ok.2 ⟨now, hs, hn, hidentity, hagrees, rfl⟩⟩
  cases hcapacity : reservationCapacity e.toBase source now with
  | ok =>
    rw [hcapacity, Check.ok_bind] at hreserve
    refine ⟨.reserved, ⟨_, hreserve⟩, ?_⟩
    rintro (_ | _ | _ | _) hoccurs
    · rfl
    · obtain ⟨cause, hcause, -⟩ := hoccurs
      rw [hfailure, hcapacity] at hcause
      cases hcause.1
    · simp [Occurs, hreserve] at hoccurs
    · exact absurd hclock hoccurs
  | error reason =>
    rw [hcapacity, Check.error_bind] at hreserve
    by_cases hreason : reason = .runDeadlineReached
    · subst hreason
      refine ⟨.runDeadline, hreserve, ?_⟩
      rintro (_ | _ | _ | _) hoccurs
      · simp [Occurs, hreserve] at hoccurs
      · obtain ⟨cause, hcause, -⟩ := hoccurs
        rw [hfailure, hcapacity] at hcause
        cases hcause.1
        exact absurd rfl hcause.2
      · rfl
      · exact absurd hclock hoccurs
    · refine ⟨.failed, ⟨reason, (hfailure reason).2 ⟨hcapacity, hreason⟩, ?_⟩, ?_⟩
      · intro cause hcause
        rw [hfailure, hcapacity] at hcause
        cases hcause.1
        rfl
      · rintro (_ | _ | _ | _) hoccurs
        · simp [Occurs, hreserve] at hoccurs
        · rfl
        · simp only [Occurs, hreserve, Check.error.injEq] at hoccurs
          exact absurd hoccurs hreason
        · exact absurd hclock hoccurs
  | raise x => exact absurd hcapacity reservationCapacity_ne_raise

theorem clockAdmitted_cases (t : Term) : (∃ now, clockAdmitted t = .ok now) ∨ clockAdmitted t = .error .invalidClock := by
  cases t with
  | int n =>
    simp only [clockAdmitted]
    split
    · exact .inl ⟨n, rfl⟩
    · exact .inr rfl
  | _ => exact .inr rfl

/-- A source with a clock that is not representable. -/
theorem outcome_clock {now : Term} (hs : sourceAdmitted source = .ok ()) (hclock : ¬ Representable episode now) :
    ∃! outcome, Occurs episode identity source now runDeadline outcome := by
  have hrefused : ∀ n, clockAdmitted now = .ok n → episode = none ∧ (uint64Max : ℤ) < n + episodeMs := by
    intro n hn
    obtain ⟨rfl, h0, hle⟩ := clockAdmitted_eq_ok.1 hn
    cases episode with
    | none =>
      refine ⟨rfl, ?_⟩
      by_contra hlt
      exact hclock ⟨n, rfl, h0, by simp only [Option.isNone_none, if_true]; omega⟩
    | some e => exact absurd ⟨n, rfl, h0, by simpa using hle⟩ hclock
  have hreserve : reserve episode identity source now runDeadline = .error .invalidClock := by
    simp only [reserve, hs, Check.ok_bind]
    rcases clockAdmitted_cases now with ⟨n, hn⟩ | hn
    · obtain ⟨rfl, hlt⟩ := hrefused n hn
      simp only [hn, Check.ok_bind, episodeBase]
      rw [if_neg (by omega)]
      rfl
    · rw [hn]
      rfl
  refine ⟨.clock, hclock, ?_⟩
  rintro (_ | _ | _ | _) hoccurs
  · simp [Occurs, hreserve] at hoccurs
  · obtain ⟨cause, ⟨row, hrow⟩, -⟩ := hoccurs
    cases episode with
    | none => exact absurd hrow failure_none
    | some e =>
      obtain ⟨n, -, hn, -⟩ := failure_eq_ok.1 hrow
      cases (hrefused n hn).1
  · simp [Occurs, hreserve] at hoccurs
  · rfl

/-- **An episode never sticks**: of a further source exactly one thing comes. -/
theorem outcome_unique {now : Term} (hs : sourceAdmitted source = .ok ())
    (h : ∀ e, episode = some e → e.status = .completed ∧ e.identity = identity) :
    ∃! outcome, Occurs episode identity source now runDeadline outcome := by
  by_cases hclock : Representable episode now
  · obtain ⟨n, rfl, h0, hle⟩ := id hclock
    have hn : clockAdmitted (.int n) = .ok n := by
      refine clockAdmitted_eq_ok.2 ⟨rfl, h0, ?_⟩
      simp only [episodeMs] at hle
      split at hle <;> omega
    cases episode with
    | none =>
      obtain ⟨base, hbase⟩ : ∃ base, episodeBase none identity n runDeadline = .ok base := by
        simp only [episodeBase, Option.isNone_none, if_true] at hle ⊢
        rw [if_pos hle]
        exact ⟨_, rfl⟩
      exact outcome_first hs hn hbase hclock
    | some e =>
      obtain ⟨hstatus, hidentity⟩ := h e rfl
      exact outcome_completed hs hn hstatus hidentity hclock
  · exact outcome_clock hs hclock

/-! ## the statement -/

/-- What the replay of an episode accepts: the record of each step, and the records equal to one at their own
clock. -/
structure Replays (unsafeText : Bytes → Bool) (identity : Identity) (runDeadline : Option ℤ)
    (episode : Option Episode) : Prop where
  reserved : ∀ source now next, reserve episode identity source (.int now) runDeadline = .ok next →
    replayReservation episode next.toTerm identity source runDeadline = .ok next.toTerm
  completed : ∀ e source reference now row, episode = some e →
    complete unsafeText episode source reference (.int now) = .ok row →
      replayCompletion unsafeText episode row source reference = .ok (e.completed now)
  failed : ∀ e source now cause row, episode = some e → failure episode identity source (.int now) cause = .ok row →
    replayFailure episode row identity source = .ok (e.failed cause now)
  reservation : ∀ source row t, replayReservation episode row identity source runDeadline = .ok t ↔
    t = row ∧ ∃ next, reserve episode identity source (get row "reserved_at_ms") runDeadline = .ok next ∧
      looseEq row next.toTerm = true
  completion : ∀ source reference row next, replayCompletion unsafeText episode row source reference = .ok next ↔
    ∃ e now expected, episode = some e ∧ get row "completed_at_ms" = .int now ∧
      complete unsafeText episode source reference (.int now) = .ok expected ∧ looseEq expected row = true ∧
      next = e.completed now
  failure : ∀ source row next, replayFailure episode row identity source = .ok next ↔
    ∃ e cause now expected, episode = some e ∧ failureCause row = some cause ∧ get row "observed_at_ms" = .int now ∧
      failure episode identity source (.int now) cause = .ok expected ∧ looseEq row expected = true ∧
      next = e.failed cause now

theorem replays (unsafeText : Bytes → Bool) (identity : Identity) (runDeadline : Option ℤ) (episode : Option Episode) :
    Replays unsafeText identity runDeadline episode where
  reserved _ _ _ h := replay_reserve h
  completed := by
    rintro e source reference now row rfl h
    exact replay_complete h
  failed := by
    rintro e source now cause row rfl h
    exact replay_failure h
  reservation _ _ _ := replayReservation_eq_ok
  completion := by
    intro source reference row next
    cases episode with
    | none => simp [replayCompletion]
    | some e => simp [replayCompletion_eq_ok]
  failure := by
    intro source row next
    cases episode with
    | none => simp [replayFailure]
    | some e => simp [replayFailure_eq_ok]

def smallIdentity : Identity := ⟨[101], [114], [116]⟩

def smallSource : Source := ⟨str "receipt", .int 1, str "digest", 1, [97], plainMap []⟩

/-- The episode of a first reservation at the start of the clock. -/
def smallEpisode : Episode := Base.reserved ⟨smallIdentity, 0, 60000, .preparation, 0, 0, 0, none, none⟩ smallSource 0

theorem reserve_small : reserve none smallIdentity smallSource (.int 0) none = .ok smallEpisode :=
  reserve_eq_ok.2 ⟨0, _, by decide +kernel, by decide, rfl, by decide, rfl⟩

def smallDigest : Bytes := hex (sha256 smallSource.content)

/-- The use of the small source, as its canonical bytes spell it. -/
def spelledUse : Term :=
  .list [str "artifact-use-v2", spelling [(sym "role", str "tool_output"), (sym "metadata", spelling []),
    (sym "media_type", str "text/plain"), (sym "object_size", .int 1), (sym "object_digest", .binary smallDigest),
    (sym "object_locator", str "blob:a"), (sym "canonicalization_version", str "loopex.canonical.v1")]]

/-- The reference of the small source. -/
def smallReference : Term :=
  let use := hex (sha256 (termToBinary spelledUse))
  mapOf [(sym "digest", .binary smallDigest), (sym "size", .int 1), (sym "locator", str "blob:a"),
    (sym "media_type", str "text/plain"), (sym "role", str "tool_output"),
    (sym "use_canonicalization_version", str "loopex.canonical.v1"), (sym "use_digest", .binary use),
    (sym "use_locator", .binary (utf8 "use:" ++ use))]

theorem artifactUse_small : artifactUse smallReference smallSource.metadata = .map [(sym "role", str "tool_output"),
    (sym "metadata", .map []), (sym "media_type", str "text/plain"), (sym "object_size", .int 1),
    (sym "object_digest", .binary smallDigest), (sym "object_locator", str "blob:a"),
    (sym "canonicalization_version", str "loopex.canonical.v1")] := by
  decide

theorem encode_use : Protocol.Canonical.encode (.list [str "artifact-use-v2",
    artifactUse smallReference smallSource.metadata]) = some (termToBinary spelledUse) := by
  rw [artifactUse_small]
  refine encode_eq_some.2 ⟨spelledUse, order_list.2 ⟨_, rfl, .cons rfl (.cons ?_ .nil)⟩, by decide, rfl⟩
  have hempty : Protocol.Canonical.order (.map []) = some (spelling []) := order_empty
  have hsorted : sortPairs [(sym "role", str "tool_output"), (sym "metadata", spelling []),
      (sym "media_type", str "text/plain"), (sym "object_size", .int 1), (sym "object_digest", .binary smallDigest),
      (sym "object_locator", str "blob:a"), (sym "canonicalization_version", str "loopex.canonical.v1")] = _ :=
    List.Pairwise.insertionSort_eq (by decide)
  refine order_map.2 ⟨rfl, _, by rw [hsorted], ?_⟩
  exact .cons ⟨rfl, rfl⟩ (.cons ⟨rfl, hempty⟩ (.cons ⟨rfl, rfl⟩ (.cons ⟨rfl, rfl⟩ (.cons ⟨rfl, rfl⟩ (.cons ⟨rfl, rfl⟩
    (.cons ⟨rfl, rfl⟩ .nil))))))

theorem prepares_small : Prepares (fun _ => false) smallEpisode smallSource smallReference := by
  have hfields : looseEq smallEpisode.source (fingerprint smallSource) = true ∧
      ArtifactStore.validReference (fun _ => false) smallReference = true ∧
      looseEq (ArtifactStore.field smallReference "digest") (digestBytes smallSource.content) = true ∧
      looseEq (ArtifactStore.field smallReference "size") (.int smallSource.content.length) = true ∧
      looseEq (ArtifactStore.field smallReference "role") (str "tool_output") = true := by
    decide +kernel
  obtain ⟨h1, h2, h3, h4, h5⟩ := hfields
  refine ⟨h1, h2, h3, h4, h5, ?_⟩
  rw [referenceUseMatches, encode_use]
  decide +kernel

/-- The episode after the source is completed, and a second one reserved. -/
def secondEpisode : Episode := (smallEpisode.completed 1).toBase.reserved smallSource 2

/-- A source is completed, and a second one fails. -/
def smallMoves : List Move :=
  [.reserve smallSource 0, .complete smallSource smallReference 1, .reserve smallSource 2, .failure smallSource 3 .failed]

theorem run_small : Run (Step (fun _ => false) smallIdentity none) none smallMoves
    (some (secondEpisode.failed .failed 3)) := by
  have hcomplete : complete (fun _ => false) (some smallEpisode) smallSource smallReference (.int 1) = .ok _ :=
    complete_eq_ok.2 ⟨1, rfl, by decide +kernel, by decide, by decide, prepares_small, rfl⟩
  have hreserve : reserve (some (smallEpisode.completed 1)) smallIdentity smallSource (.int 2) none = .ok secondEpisode :=
    reserve_eq_ok.2 ⟨2, _, by decide +kernel, by decide, rfl, by decide, rfl⟩
  have hfailure : failure (some secondEpisode) smallIdentity smallSource (.int 3) .failed = .ok _ :=
    failure_eq_ok.2 ⟨3, by decide +kernel, by decide, rfl, by decide +kernel, rfl⟩
  exact .snoc (.snoc (.snoc (.one (.reserve reserve_small)) (.complete hcomplete)) (.reserve hreserve)) (.failure hfailure)

end Loopex.Runtime.ArtifactPreparation
