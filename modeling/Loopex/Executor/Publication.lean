import Loopex.Executor.Validators
import Loopex.Executor.Ledger
import Loopex.Erlang.Sha256
import Loopex.System.Program

/-!
# Publication in the receipt ledger

The admission of a job is two files of a prepared root, the open entry and then the marker; each is written where none
is, and a refusal is renamed over the marker that was read.  A call may fail at each of its operations on the files,
and may be cut off behind each.

* `Operation`, `effect` — the operations on the files
* `admitJob`, `refuse`, `closeOpen`, `restoreOpen` — the calls, operation by operation
* `Step` — a call up to one of its moments
-/

namespace Loopex.Executor.Ledger

open Loopex.Erlang Loopex.Erlang.Term Loopex.Store Loopex.System Loopex.System.Program

/-! ## files -/

/-- The files of a prepared root; the name is the digest of a job's id. -/
inductive Path where
  | opened (name : Bytes)
  | marker (name : Bytes)
  | staging (name : Bytes) (n : ℕ)
  deriving DecidableEq

/-- What the files hold. -/
abbrev Disk := Path → Option Bytes

inductive Posix where
  | enoent | eexist
  | other (name : Bytes)
  deriving DecidableEq

inductive FileType where
  | regular (size : ℕ)
  | other
  deriving DecidableEq

inductive Operation where
  | uniqueInteger
  | makeDirectories (path : Path)
  | openDirectory (path : Path)
  | syncDirectory (path : Path)
  | closeDirectory (path : Path)
  | lstat (path : Path)
  | read (path : Path)
  | create (path : Path)
  | write (path : Path) (bytes : Bytes)
  | sync (path : Path)
  | close (path : Path)
  | rename (source destination : Path)
  | remove (path : Path)

def Operation.Reply : Operation → Type
  | .uniqueInteger => ℕ
  | .lstat _ => Except Posix FileType
  | .read _ => Except Posix Bytes
  | _ => Except Posix Unit

def put (disk : Disk) (path : Path) (content : Option Bytes) : Disk := fun p => if p = path then content else disk p

/-- A file becomes another. -/
def moved (s : Disk) (source destination : Path) (bytes : Bytes) : Disk := put (put s destination (some bytes)) source none

/-- What an operation replies and leaves.  It may fail for a reason of its own, and may have been done then; there is no
file only where there is none, and what fails to be written is written in part. -/
def effect : (op : Operation) → Disk → op.Reply → Disk → Prop
  | .uniqueInteger, s, _, t => t = s
  | .makeDirectories _, s, _, t => t = s
  | .openDirectory _, s, _, t => t = s
  | .syncDirectory _, s, _, t => t = s
  | .closeDirectory _, s, _, t => t = s
  | .lstat path, s, r, t => t = s ∧ match r with
    | .ok (.regular size) => ∃ bytes, s path = some bytes ∧ size = bytes.length
    | .ok .other => False
    | .error .enoent => s path = none
    | .error _ => True
  | .read path, s, r, t => t = s ∧ match r with
    | .ok bytes => s path = some bytes
    | .error _ => True
  | .create path, s, r, t => match r with
    | .ok _ => s path = none ∧ t = put s path (some [])
    | .error _ => t = s ∨ s path = none ∧ t = put s path (some [])
  | .write path bytes, s, r, t => match r with
    | .ok _ => t = put s path (some bytes)
    | .error _ => ∃ n, t = put s path (some (bytes.take n))
  | .sync _, s, _, t => t = s
  | .close _, s, _, t => t = s
  | .rename source destination, s, r, t => match r with
    | .ok _ => ∃ bytes, s source = some bytes ∧ t = moved s source destination bytes
    | .error _ => t = s ∨ ∃ bytes, s source = some bytes ∧ t = moved s source destination bytes
  | .remove path, s, r, t => match r with
    | .ok _ => t = put s path none
    | .error .enoent => s path = none ∧ t = s
    | .error _ => t = s ∨ t = put s path none

/-! ## programs -/

inductive Failure where
  | posix (reason : Posix)
  | unavailable (reason : Failure)
  | record (reason : Unavailable)
  | admissionRecordMismatch | recordNotARegularFile | markerIdentityMismatch | invalidJobId | openAuthorityChanged
  | refusalIdentityMismatch | admissionMarkerPresent
  deriving DecidableEq

abbrev Task (α : Type) := Program Operation Operation.Reply (Check Failure α)

/-- The next clause of a `with`. -/
def Task.andThen {α β : Type} (task : Task α) (next : α → Task β) : Task β :=
  task.bind fun
    | .ok a => next a
    | .error reason => .done (.error reason)
    | .raise x => .done (.raise x)

/-- The reply of an operation, with its reason as it is. -/
def replied : Except Posix Unit → Check Failure Unit
  | .ok _ => .ok ()
  | .error reason => .error (.posix reason)

def makeDirectories (path : Path) : Task Unit := .ask (.makeDirectories path) fun r => .done (replied r)

def rename (source destination : Path) : Task Unit := .ask (.rename source destination) fun r => .done (replied r)

/-- `sync_parent`. -/
def syncParent (path : Path) : Task Unit :=
  .ask (.openDirectory path) fun
    | .error reason => .done (.error (.unavailable (.posix reason)))
    | .ok _ => .ask (.syncDirectory path) fun result => .ask (.closeDirectory path) fun closed => .done <|
      match result, closed with
      | .ok _, .ok _ => .ok ()
      | .error reason, _ => .error (.unavailable (.posix reason))
      | .ok _, .error reason => .error (.unavailable (.posix reason))

/-- `write_synced`, of a file that is created. -/
def writeSynced (path : Path) (bytes : Bytes) : Task Unit :=
  .ask (.create path) fun
    | .error reason => .done (.error (.posix reason))
    | .ok _ => .ask (.write path bytes) fun
      | .ok _ => .ask (.sync path) fun result => .ask (.close path) fun closed => .done <|
        match result, closed with
        | .ok _, .ok _ => .ok ()
        | .error reason, _ => .error (.posix reason)
        | .ok _, .error reason => .error (.posix reason)
      | .error reason => .ask (.close path) fun _ => .done (.error (.posix reason))

def publish (path : Path) (bytes : Bytes) : Task Unit :=
  (makeDirectories path).andThen fun _ => (writeSynced path bytes).andThen fun _ => syncParent path

/-- `replace`, of the marker of a name. -/
def replace (name bytes : Bytes) : Task Unit :=
  .ask .uniqueInteger fun n =>
    let renamed : Task Unit := (makeDirectories (.marker name)).andThen fun _ =>
      (writeSynced (.staging name n) bytes).andThen fun _ =>
        (rename (.staging name n) (.marker name)).andThen fun _ => syncParent (.marker name)
    renamed.bind fun
      | .error reason => .ask (.remove (.staging name n)) fun _ => .done (.error (.unavailable reason))
      | result => .done result

/-- The base name of a job's files. -/
def digest (job : Bytes) : Bytes := hex (sha256 job)

/-- A string of a record whose fields are valid. -/
def textOf (record : Term) (key : String) : Bytes :=
  match field record (str key) with
  | .binary b => b
  | _ => []

/-- `same_fields?`, of records that have the fields. -/
def sameFields (left right : Term) (fields : List String) : Bool :=
  fields.all fun key => looseEq (field left (str key)) (field right (str key))

variable (R : Runtime)

/-- What a check of a record fails for. -/
def checked {α : Type} : Check Unavailable α → Check Failure α
  | .ok a => .ok a
  | .error reason => .error (.unavailable (.record reason))
  | .raise x => .raise x

/-- `read_record`: nothing where there is no file. -/
def readRecord (path : Path) (kinds : List Term) : Task (Option Term) :=
  .ask (.lstat path) fun
    | .ok (.regular size) =>
      if size ≤ recordCeiling then
        .ask (.read path) fun
          | .ok bytes => .done (checked (decodeCapturedRecord R bytes kinds recordCeiling) >>= fun record => .ok (some record))
          | .error reason => .done (.error (.unavailable (.posix reason)))
      else .done (.error (.unavailable (.record .recordTooLarge)))
    | .ok .other => .done (.error (.unavailable .recordNotARegularFile))
    | .error .enoent => .done (.ok none)
    | .error reason => .done (.error (.unavailable (.posix reason)))

/-- `read_marker`, by the id of a job. -/
def readMarker (job : Bytes) : Task (Option Term) :=
  if boundedIdentifier (.binary job) then
    (readRecord R (.marker (digest job)) [markerKind, refusalKind]).andThen fun
      | some record =>
        if looseEq (field record (str "job_id")) (.binary job) then .done (.ok (some record))
        else .done (.error (.unavailable .markerIdentityMismatch))
      | none => .done (.ok none)
  else .done (.error (.unavailable .invalidJobId))

def admitJob (marker opened : Term) : Task Unit :=
  .andThen (.done (checked (validateRecord R marker [markerKind] recordCeiling))) fun markerBytes =>
    .andThen (.done (checked (validateRecord R opened [openKind] recordCeiling))) fun openBytes =>
      if sameFields marker opened ["job_id", "canonical_request_digest", "cleanup_grace_ms"] then
        (publish (.opened (digest (textOf opened "job_id"))) openBytes).andThen fun _ =>
          publish (.marker (digest (textOf marker "job_id"))) markerBytes
      else .done (.error (.unavailable .admissionRecordMismatch))

def refuse (refusal : Term) : Task Unit :=
  .andThen (.done (checked (validateRecord R refusal [refusalKind] recordCeiling))) fun _ =>
    let job := textOf refusal "job_id"
    (readMarker R job).andThen fun
      | none => replace (digest job) (termToBinary refusal)
      | some existing =>
        if field existing (sym "ledger_kind") = refusalKind then
          if sameFields existing refusal ["job_id", "canonical_request_digest", "operation_id", "attempt"] then
            replace (digest job) (termToBinary refusal)
          else .done (.error .refusalIdentityMismatch)
        else .done (.error .admissionMarkerPresent)

def closeOpen (job : Bytes) : Task Unit :=
  .ask (.remove (.opened (digest job))) fun
    | .ok _ => syncParent (.opened (digest job))
    | .error .enoent => .done (.ok ())
    | .error reason => .done (.error (.unavailable (.posix reason)))

def restoreOpen (opened : Term) : Task Unit :=
  .andThen (.done (checked (validateRecord R opened [openKind] recordCeiling))) fun bytes =>
    let path := Path.opened (digest (textOf opened "job_id"))
    (readRecord R path [openKind]).andThen fun
      | none => publish path bytes
      | some existing =>
        if existing = opened then .done (.ok ()) else .done (.error (.unavailable .openAuthorityChanged))

/-! ## calls -/

inductive Call where
  | admitJob (marker opened : Term)
  | refuse (refusal : Term)
  | closeOpen (job : Bytes)
  | restoreOpen (opened : Term)

def Call.task : Call → Task Unit
  | .admitJob marker opened => Ledger.admitJob R marker opened
  | .refuse refusal => Ledger.refuse R refusal
  | .closeOpen job => Ledger.closeOpen job
  | .restoreOpen opened => Ledger.restoreOpen R opened

/-- The records of a call are values of the runtime. -/
def Call.WellFormed : Call → Prop
  | .admitJob marker opened => Erlang.WellFormed marker ∧ Erlang.WellFormed opened
  | .refuse refusal => Erlang.WellFormed refusal
  | .closeOpen _ => True
  | .restoreOpen opened => Erlang.WellFormed opened

/-- A call up to one of its moments: there it has answered, or is cut off. -/
inductive Step : Disk → Call × Option (Check Failure Unit) → Disk → Prop
  | answered {s call result t} (wellFormed : call.WellFormed) (moment : Moment effect (call.task R) s (.done result) t) :
      Step s (call, some result) t
  | cut {s call rest t} (wellFormed : call.WellFormed) (moment : Moment effect (call.task R) s rest t) :
      Step s (call, none) t

end Loopex.Executor.Ledger
