import Loopex.Erlang.ExternalFormat
import Loopex.Erlang.Utf8
import Loopex.Runtime.ToolDefinition

/-!
# The codec of retained restore records

`encode` and `decode` of every type of record the local executor retains across a restore.  A type is a
validator: a check that accepts a term, refuses it, or raises.  A type with a schema is `closed`: a map
with exactly its keys, every field in its domain, and the relations between the fields.

* `Runtime` — what the codec relies on of the runtime: reading a binary as a term, and what a struct
  answers when it is indexed.
* `generation`, `manifest`, and one definition for every schema — the types.
* `limits` — the window of an invocation, which depends on the clock.
-/

namespace Loopex.Executor

open Loopex.Erlang Loopex.Erlang.Term Loopex.Store

/-- The atoms that stand in a retained record. -/
def literalAtoms : List Bytes := [utf8 "nil", utf8 "true", utf8 "ledger_kind"]

/-- The part of the Erlang runtime that the codecs of retained records use. -/
structure Runtime where
  /-- The atoms that exist. -/
  known : Bytes → Bool
  literals : ∀ name ∈ literalAtoms, known name = true
  /-- `binary_to_term(b, [safe, used])`. -/
  binaryToTerm : Bytes → Option (Term × ℕ)
  wellFormed : ∀ {b t n}, binaryToTerm b = some (t, n) → WellFormed t
  roundTrip : ∀ {t}, Plain t → (termToBinary t).length < 2 ^ 32 → (∀ a ∈ t.atoms, known a = true) →
    binaryToTerm (termToBinary t) = some (t, (termToBinary t).length)
  /-- `Access.get` of a struct, by the name of its module: the module decides, and where it has no
  `fetch` the runtime raises. -/
  structGet : Bytes → Term → Term → Check Unit Term
  /-- The units of the monotonic clock in a second. -/
  nativePerSecond : ℕ

/-- A check of one term: it accepts, refuses, or raises. -/
abbrev Validator := Term → Check Unit Unit

/-- `rescue ArgumentError -> :error`. -/
def rescueArgument {α : Type} : Check Unit α → Check Unit α
  | .raise .badArgument => .error ()
  | c => c

/-- `a == b`. -/
def equal (a b : Term) : Check Unit Unit := Check.require (looseEq a b) ()

/-- The argument of a function on binaries. -/
def binaryOf : Term → Check Unit Bytes
  | .binary b => .ok b
  | _ => .raise .functionClause

/-- The argument of an arithmetic operation. -/
def integerOf : Term → Check Unit ℤ
  | .int n => .ok n
  | _ => .raise .functionClause

/-- The argument of a function on enumerables. -/
def listOf : Term → Check Unit (List Term)
  | .list xs => .ok xs
  | _ => .raise .functionClause

/-! ## paths -/

/-- The separator of a path. -/
def slash : UInt8 := 47

/-- `Path.type(path) == :absolute`. -/
def isAbsolute (path : Bytes) : Bool := path.head? = some slash

/-- The parts of a path between its separators. -/
def segments (path : Bytes) : List Bytes := (path.splitOn slash).filter (· ≠ [])

/-- `Path.expand` of an absolute path. -/
def expand (path : Bytes) : Bytes :=
  let parts := (segments path).foldl
    (fun acc part => if part = utf8 "." then acc else if part = utf8 ".." then acc.dropLast else acc ++ [part]) []
  slash :: [slash].intercalate parts

/-- `Path.join`. -/
def joinPath (left right : Bytes) : Bytes :=
  (if isAbsolute left then [slash] else []) ++ [slash].intercalate (segments left ++ segments right)

/-- `Path.dirname`. -/
def dirname (path : Bytes) : Bytes :=
  let parent := ((path.reverse.dropWhile (· ≠ slash)).dropWhile (· = slash)).reverse
  if parent ≠ [] then parent else if isAbsolute path then [slash] else utf8 "."

/-- `independent_roots?`: no root is another one, lies under another one, or is the root directory. -/
def independentRoots (roots : List Bytes) : Bool :=
  roots.all fun a => (roots.erase a).all fun b =>
    a ≠ b && !(b ++ [slash]).isPrefixOf a && !(a ++ [slash]).isPrefixOf b && a ≠ [slash] && b ≠ [slash]

/-! ## domains -/

def maxU64 : ℕ := 18446744073709551615
def epochMax : ℕ := 115792089237316195423570985008687907853269984665640564039457584007913129639935

/-- `value === wanted`. -/
def literal (wanted : Term) : Validator := fun value => Check.require (value = wanted) ()

/-- One of some strings. -/
def oneOf (choices : List String) : Validator := fun value => Check.require (value ∈ choices.map str) ()

def range (low high : ℕ) : Validator
  | .int n => Check.require ((low : ℤ) ≤ n ∧ n ≤ (high : ℤ)) ()
  | _ => .error ()

def nullable (domain : Validator) : Validator := fun value => if value = nil then .ok () else domain value

/-- `text?`. -/
def text (bound : ℕ) : Validator
  | .binary b => Check.require (1 ≤ b.length ∧ b.length ≤ bound ∧ validUtf8 b = true) ()
  | _ => .error ()

def u64 : Validator := range 0 maxU64
def positive : Validator := range 1 maxU64
def ordinal : Validator := range 1 64
def runtimeId : Validator := text 256
def label : Validator := text 8192

def hexDigest : Validator
  | .binary b => Check.require (b.length = 64 ∧ b.all isHex = true) ()
  | _ => .error ()

def workspaceRef : Validator
  | .binary b =>
    if (utf8 "workspace:").isPrefixOf b then hexDigest (.binary (b.drop (utf8 "workspace:").length)) else .error ()
  | _ => .error ()

def absolute : Validator := fun value => do
  text 8192 value
  let path ← binaryOf value
  Check.require (0 ∉ path ∧ isAbsolute path = true ∧ expand path = path) ()

def relative : Validator := fun value => do
  text 8192 value
  let path ← binaryOf value
  Check.require (0 ∉ path ∧ isAbsolute path = false ∧
    (path.splitOn slash).all fun part => part ∉ [[], utf8 ".", utf8 ".."]) ()

def manifestPath : Validator := fun value => if value = str "." then .ok () else relative value

/-! ## maps and lists -/

variable (R : Runtime)

/-- `t[key]`. -/
def Runtime.get : Term → Term → Check Unit Term := Loopex.Runtime.access R.structGet

/-- `exact?`: no struct, and exactly these keys. -/
def exactKeys (kvs : List (Term × Term)) (keys : List Term) : Bool :=
  !isStruct kvs && kvs.length = keys.length && keys.all fun key => hasKey key kvs

/-- `a < b`, on the binaries that order the records of a list. -/
def keyBefore : Term → Term → Bool
  | .binary a, .binary b => a < b
  | _, _ => false

/-- `increasing?`. -/
def increasing : List Term → Bool
  | a :: b :: tail => keyBefore a b && increasing (b :: tail)
  | _ => true

/-- `sorted?`: at most so many values of a domain, in increasing order of a key or of themselves. -/
def sorted (domain : Validator) (bound : ℕ) (key : Option String) : Validator
  | .list values => do
    Check.require (values.length ≤ bound) ()
    values.forM domain
    let keys ← values.mapM fun value => match key with
      | some key => R.get value (str key)
      | none => .ok value
    Check.require (increasing keys) ()
  | .improper _ _ => .raise .badArgument
  | _ => .error ()

/-- The keys of a schema. -/
def keysOf (fields : List (String × Validator)) : List Term := fields.map fun field => str field.1

/-- A map of exactly these fields, each in its domain, that keeps the relations. -/
def closed (fields : List (String × Validator)) (relations : Validator) : Validator
  | .map kvs => do
    Check.require (exactKeys kvs (keysOf fields)) ()
    fields.forM fun field => do field.2 (← R.get (.map kvs) (str field.1))
    relations (.map kvs)
  | _ => .error ()

/-- `relations?` of a type that has none. -/
def noRelations : Validator := fun _ => .ok ()

/-! ## encoding and decoding -/

/-- `encode`. -/
def encodeWith (valid : Validator) (ceiling : ℕ) (value : Term) : Check Unit Bytes := rescueArgument do
  valid value
  Check.require ((termToBinary value).length ≤ ceiling) ()
  .ok (termToBinary value)

/-- The version byte, and a term that is not compressed. -/
def uncompressed : Bytes → Bool
  | 131 :: tag :: _ => tag ≠ 80
  | _ => false

/-- `binary_to_term(b, [safe])`: bytes after the term are not looked at. -/
def Runtime.read (bytes : Bytes) : Check Unit Term :=
  match R.binaryToTerm bytes with
  | some (value, _) => .ok value
  | none => .raise .badArgument

/-- `decode`. -/
def decodeWith (valid : Validator) (ceiling : ℕ) (bytes : Bytes) : Check Unit Term := rescueArgument do
  Check.require (bytes.length ≤ ceiling) ()
  Check.require (uncompressed bytes) ()
  let value ← R.read bytes
  let again ← encodeWith valid ceiling value
  Check.require (again = bytes) ()
  .ok value

/-- `digest_bytes`. -/
def digestBytes (bytes : Bytes) : Bytes := hex (sha256 bytes)

/-- `digest`: the digest of some bytes in a domain. -/
def digest (domain : String) (bytes : Bytes) : Bytes := digestBytes (utf8 domain ++ [0] ++ bytes)

/-! ## generations -/

def generationKeys : List Term :=
  [sym "ledger_kind", str "executor_epoch", str "executor_identity", str "generation_id", str "root_binding"]

def generationKind : Term := str "local_executor_generation_v1"

/-- `Base.encode16(<<epoch::unsigned-256>>, case: :lower)`. -/
def generationId (epoch : ℤ) : Bytes := hex (be 32 epoch.toNat)

/-- `valid?(:generation, _)`: the epoch is read before the keys are checked. -/
def generation : Validator
  | .map kvs => do
    let epoch ← R.get (.map kvs) (str "executor_epoch")
    Check.require (exactKeys kvs generationKeys) ()
    equal (← R.get (.map kvs) (sym "ledger_kind")) generationKind
    match ← R.get (.map kvs) (str "executor_identity") with
    | .binary identity => do
      Check.require (identity ≠ []) ()
      match epoch with
      | .int epoch => do
        Check.require (0 < epoch ∧ epoch ≤ epochMax) ()
        equal (← R.get (.map kvs) (str "generation_id")) (.binary (generationId epoch))
        hexDigest (← R.get (.map kvs) (str "root_binding"))
      | _ => .error ()
    | _ => .error ()
  | _ => .error ()

/-- `ceiling(:generation)`. -/
def generationCeiling : ℕ := 2048

/-- `decode(:generation, _)`. -/
def decodeGeneration : Term → Check Unit Term
  | .binary bytes => decodeWith R (generation R) generationCeiling bytes
  | _ => .error ()

def generationBytes : Validator := fun value => (decodeGeneration R value).verdict

/-! ## placements -/

def placement : Validator :=
  closed R [("expanded_root", absolute), ("major_device", u64), ("inode", u64)] noRelations

/-- `binding`: the digest of a placement. -/
def binding (domain : String) (value : Term) : Check Unit Bytes := do
  placement R value
  let path ← binaryOf (← R.get value (str "expanded_root"))
  let major ← integerOf (← R.get value (str "major_device"))
  let inode ← integerOf (← R.get value (str "inode"))
  .ok (digest domain (be 8 path.length ++ path ++ be 8 major.toNat ++ be 8 inode.toNat))

def stateBinding : Term → Check Unit Bytes := binding R "loopex:current-state-root-binding:v1"

def ledgerBinding : Term → Check Unit Bytes := binding R "loopex:local-root-binding:v1"

/-- `{:ok, value} = result`. -/
def matched {α : Type} : Check Unit α → Check Unit α
  | .error _ => .raise .badMatch
  | c => c

/-! ## plans -/

def ledgerDescriptor : Validator :=
  closed R [("relative_root", relative), ("executor_identity", label), ("source_generation_sha256", hexDigest),
    ("source_placement", placement R)] noRelations

def storeDescriptor : Validator := closed R [("relative_path", relative), ("sha256", hexDigest)] noRelations

def workspace : Validator := closed R [("root", absolute), ("workspace_ref", workspaceRef)] noRelations

def attestation : Validator :=
  closed R [("latest_cut", literal (sym "true")), ("no_post_cut_activity", literal (sym "true")),
    ("all_other_copies_excluded", literal (sym "true")),
    ("old_authority_termination", oneOf ["joined", "host_rebooted"]),
    ("host_ledgers_validated", literal (sym "true")), ("evidence_sha256", hexDigest)] noRelations

/-- `relations?(:plan, _)`. -/
def planRelations : Validator := fun plan => do
  let source ← R.get plan (str "source_state_root")
  let backup ← R.get plan (str "backup_state_root")
  let destination ← R.get plan (str "destination_state_root")
  let workspaceRoot ← R.get (← R.get plan (str "workspace")) (str "root")
  equal (← R.get (← R.get plan (str "source_state_placement")) (str "expanded_root")) source
  let roots ← [source, backup, destination, workspaceRoot].mapM binaryOf
  Check.require (independentRoots roots) ()
  (← listOf (← R.get plan (str "ledgers"))).forM fun descriptor => do
    let expanded ← R.get (← R.get descriptor (str "source_placement")) (str "expanded_root")
    let root ← binaryOf source
    let relativeRoot ← binaryOf (← R.get descriptor (str "relative_root"))
    equal expanded (.binary (joinPath root relativeRoot))
  if looseEq (← R.get plan (str "prior_restore_count")) (.int 0) then
    equal (← R.get plan (str "prior_lineage_sha256"))
      (.binary (digest "loopex:current-restore-lineage:v1" (termToBinary (.list []))))
  else .ok ()

def plan : Validator :=
  closed R [("version", literal (.int 1)), ("tx_id", hexDigest), ("source_state_root", absolute),
    ("source_state_placement", placement R), ("source_status", oneOf ["available", "lost"]),
    ("backup_state_root", absolute), ("destination_state_root", absolute), ("manifest_sha256", hexDigest),
    ("cut_id", hexDigest), ("prior_restore_count", range 0 64), ("prior_lineage_sha256", hexDigest),
    ("runtime_ids", sorted R runtimeId 256 none),
    ("stores", sorted R (storeDescriptor R) 1024 (some "relative_path")),
    ("ledgers", sorted R (ledgerDescriptor R) 128 (some "relative_root")), ("workspace", workspace R),
    ("host_attestation", attestation R)] (planRelations R)

/-- `plan_digest`. -/
def planDigest (value : Term) : Check Unit Bytes := do
  let bytes ← encodeWith (plan R) 65536 value
  .ok (digest "loopex:current-restore-plan:v1" bytes)

/-! ## limits and invocations -/

def limitsRecord : Validator := closed R [("work_ms", positive), ("cleanup_grace_ms", positive)] noRelations

/-- What `limits` answers. -/
structure Limits where
  workMs : ℤ
  cleanupGraceMs : ℤ
  cleanupWindowMs : ℤ
  deriving DecidableEq

/-- `max(10_000, grace + 2_000)`. -/
def cleanupWindow (grace : ℤ) : ℤ := max 10000 (grace + 2000)

/-- `System.convert_time_unit(ms, :millisecond, :native)`. -/
def toNative (ms : ℤ) : ℤ := ms * R.nativePerSecond / 1000

def maxNative : ℤ := 9223372036854775807

/-- `limits`: the window from `now` on, if the clock can count it. -/
def limits (now : ℤ) (value : Term) : Check Unit Limits := do
  let _ ← encodeWith (limitsRecord R) 512 value
  let work ← integerOf (← R.get value (str "work_ms"))
  let grace ← integerOf (← R.get value (str "cleanup_grace_ms"))
  Check.require (work + cleanupWindow grace ≤ (maxU64 : ℤ)) ()
  Check.require (toNative R (work + cleanupWindow grace) ≤ maxNative) ()
  Check.require (now + toNative R (work + cleanupWindow grace) ≤ maxNative) ()
  .ok ⟨work, grace, cleanupWindow grace⟩

/-- `Map.take`. -/
def takeKeys (keys : List Term) : Term → Term
  | .map kvs => .map (kvs.filter fun e => e.1 ∈ keys)
  | t => t

/-- `relations?(:invocation, _)`. -/
def invocationRelations (now : ℤ) : Validator := fun value => do
  let authority ← R.get value (str "prior_admin_authority")
  let evidence ← R.get value (str "prior_admin_evidence_sha256")
  Check.require (looseEq authority (str "none") = decide (evidence = nil)) ()
  (limits R now (takeKeys [str "work_ms", str "cleanup_grace_ms"] value)).verdict

def invocation (now : ℤ) : Validator :=
  closed R [("work_ms", positive), ("cleanup_grace_ms", positive), ("max_total_file_bytes", u64),
    ("prior_admin_authority", oneOf ["none", "joined", "host_rebooted"]),
    ("prior_admin_evidence_sha256", nullable hexDigest)] (invocationRelations R now)

/-! ## manifests -/

/-- The pattern `%{"kind" => "directory"}`. -/
def isDirectory : Term → Bool
  | .map kvs => lookup (str "kind") kvs = some (str "directory")
  | _ => false

/-- `relations?(:entry, _)`. -/
def entryRelations : Validator := fun value => do
  if isDirectory value then do
    equal (← R.get value (str "size")) (.int 0)
    Check.require ((← R.get value (str "sha256")) = nil) ()
  else hexDigest (← R.get value (str "sha256"))

def entry : Validator :=
  closed R [("path", manifestPath), ("kind", oneOf ["directory", "regular"]), ("mode", range 0 4095),
    ("size", u64), ("sha256", nullable hexDigest)] (entryRelations R)

/-- `manifest_tree?`: the root and the parent of every path are directories of the manifest. -/
def manifestTree (entries : List Term) : Check Unit Unit := do
  let paths ← entries.mapM fun e => R.get e (str "path")
  -- a later entry replaces an earlier one of the same path
  let directoryAt (path : Term) : Bool := (lookup path (paths.zip entries).reverse).any isDirectory
  Check.require (directoryAt (str ".")) ()
  paths.forM fun path =>
    if looseEq path (str ".") then .ok () else do
      Check.require (directoryAt (.binary (dirname (← binaryOf path)))) ()

def manifest : Validator
  | .list [tag, entries] => do
    Check.require (tag = str "loopex:current-state-manifest:v1") ()
    sorted R (entry R) 65536 (some "path") entries
    manifestTree R (← listOf entries)
  | _ => .error ()

/-! ## intents -/

/-- `relations?(:candidate, _)`. -/
def candidateRelations : Validator := fun value => do
  let source ← matched (decodeGeneration R (← R.get value (str "source_generation_bytes")))
  let destination ← matched (decodeGeneration R (← R.get value (str "destination_generation_bytes")))
  let bound ← matched (ledgerBinding R (← R.get value (str "destination_ledger_placement")))
  let identity ← R.get value (str "executor_identity")
  equal (← R.get source (str "executor_identity")) identity
  equal (← R.get destination (str "executor_identity")) identity
  equal (← R.get source (str "root_binding")) (← R.get value (str "source_ledger_binding"))
  equal (← R.get destination (str "root_binding")) (← R.get value (str "destination_ledger_binding"))
  equal (.binary bound) (← R.get value (str "destination_ledger_binding"))
  Check.require (!looseEq (← R.get source (str "executor_epoch")) (← R.get destination (str "executor_epoch"))) ()

def candidateFields : List (String × Validator) :=
  [("relative_root", relative), ("executor_identity", label), ("source_generation_bytes", generationBytes R),
    ("destination_generation_bytes", generationBytes R), ("source_ledger_binding", hexDigest),
    ("destination_ledger_placement", placement R), ("destination_ledger_binding", hexDigest)]

def candidate : Validator := closed R (candidateFields R) (candidateRelations R)

/-- `candidate_matches?`. -/
def candidateMatches (plan candidate descriptor : Term) : Check Unit Unit := do
  let bound ← matched (ledgerBinding R (← R.get descriptor (str "source_placement")))
  equal (← R.get candidate (str "relative_root")) (← R.get descriptor (str "relative_root"))
  equal (← R.get candidate (str "executor_identity")) (← R.get descriptor (str "executor_identity"))
  let bytes ← binaryOf (← R.get candidate (str "source_generation_bytes"))
  equal (.binary (digestBytes bytes)) (← R.get descriptor (str "source_generation_sha256"))
  equal (← R.get candidate (str "source_ledger_binding")) (.binary bound)
  let root ← binaryOf (← R.get plan (str "destination_state_root"))
  let relativeRoot ← binaryOf (← R.get candidate (str "relative_root"))
  equal (← R.get (← R.get candidate (str "destination_ledger_placement")) (str "expanded_root"))
    (.binary (joinPath root relativeRoot))

/-- `distinct_candidate_epochs?`. -/
def distinctCandidateEpochs (candidates : List Term) : Check Unit Unit := do
  let epochs ← candidates.mapM fun candidate => do
    let generation ← matched (decodeGeneration R (← R.get candidate (str "destination_generation_bytes")))
    R.get generation (str "executor_epoch")
  Check.require (epochs.dedup.length = epochs.length) ()

/-- `relations?(:intent, _)`. -/
def intentRelations : Validator := fun value => do
  let plan ← R.get value (str "plan")
  let candidates ← R.get value (str "generations")
  let digested ← planDigest R plan
  let source ← stateBinding R (← R.get plan (str "source_state_placement"))
  let destination ← stateBinding R (← R.get value (str "destination_state_placement"))
  let count ← integerOf (← R.get plan (str "prior_restore_count"))
  equal (← R.get value (str "ordinal")) (.int (count + 1))
  equal (← R.get value (str "tx_id")) (← R.get plan (str "tx_id"))
  equal (← R.get value (str "plan_digest")) (.binary digested)
  equal (← R.get value (str "prior_lineage_sha256")) (← R.get plan (str "prior_lineage_sha256"))
  equal (← R.get value (str "source_state_binding")) (.binary source)
  equal (← R.get value (str "destination_state_binding")) (.binary destination)
  equal (← R.get (← R.get value (str "destination_state_placement")) (str "expanded_root"))
    (← R.get plan (str "destination_state_root"))
  let generations ← listOf candidates
  let ledgers ← listOf (← R.get plan (str "ledgers"))
  Check.require (generations.length = ledgers.length) ()
  (generations.zip ledgers).forM fun pair => candidateMatches R plan pair.1 pair.2
  distinctCandidateEpochs R generations

def intentFields : List (String × Validator) :=
  [("kind", literal (str "loopex_current_restore_intent_v1")), ("ordinal", ordinal), ("tx_id", hexDigest),
    ("plan_digest", hexDigest), ("plan", plan R), ("prior_lineage_sha256", hexDigest),
    ("source_state_binding", hexDigest), ("destination_state_placement", placement R),
    ("destination_state_binding", hexDigest),
    ("generations", sorted R (candidate R) 128 (some "relative_root"))]

def intent : Validator := closed R (intentFields R) (intentRelations R)

def ledgerIntent : Validator :=
  closed R [("kind", literal (str "loopex_current_restore_ledger_intent_v1")), ("ordinal", ordinal),
    ("tx_id", hexDigest), ("intent_sha256", hexDigest), ("relative_root", relative),
    ("source_state_binding", hexDigest), ("destination_state_binding", hexDigest),
    ("source_generation_sha256", hexDigest), ("destination_generation_sha256", hexDigest),
    ("source_ledger_binding", hexDigest), ("destination_ledger_binding", hexDigest)] noRelations

/-! ## retirement and commitment -/

def ledgerRetired : Validator :=
  closed R [("kind", literal (str "loopex_current_restore_ledger_retired_v1")), ("ordinal", ordinal),
    ("tx_id", hexDigest), ("intent_sha256", hexDigest), ("ledger_intent_sha256", hexDigest),
    ("relative_root", relative), ("source_state_binding", hexDigest), ("source_ledger_binding", hexDigest),
    ("source_generation_sha256", hexDigest), ("destination_state_binding", hexDigest),
    ("destination_generation_sha256", hexDigest)] noRelations

def retirementEntry : Validator :=
  closed R [("relative_root", relative), ("record_sha256", nullable hexDigest)] noRelations

/-- `relations?(:source_retirement, _)`. -/
def sourceRetirementRelations : Validator := fun value => do
  (← listOf (← R.get value (str "ledger_retirements"))).forM fun retirement => do
    let lost := looseEq (← R.get value (str "disposition")) (str "lost_source_host_excluded")
    let digest ← R.get retirement (str "record_sha256")
    Check.require (lost = decide (digest = nil)) ()

def sourceRetirement : Validator :=
  closed R [("kind", literal (str "loopex_current_restore_source_retirement_v1")), ("ordinal", ordinal),
    ("tx_id", hexDigest), ("intent_sha256", hexDigest),
    ("disposition", oneOf ["source_retired", "lost_source_host_excluded"]),
    ("source_state_binding", hexDigest), ("destination_state_binding", hexDigest),
    ("host_evidence_sha256", hexDigest),
    ("ledger_retirements", sorted R (retirementEntry R) 128 (some "relative_root"))]
    (sourceRetirementRelations R)

def ledgerCommitted : Validator :=
  closed R [("kind", literal (str "loopex_current_restore_ledger_committed_v1")), ("ordinal", ordinal),
    ("tx_id", hexDigest), ("intent_sha256", hexDigest), ("relative_root", relative),
    ("ledger_intent_sha256", hexDigest), ("source_retirement_sha256", hexDigest),
    ("destination_state_binding", hexDigest), ("destination_ledger_binding", hexDigest),
    ("destination_generation_sha256", hexDigest)] noRelations

def proofEntry : Validator := closed R [("relative_root", relative), ("record_sha256", hexDigest)] noRelations

def committed : Validator :=
  closed R [("kind", literal (str "loopex_current_restore_committed_v1")), ("ordinal", ordinal),
    ("tx_id", hexDigest), ("intent_sha256", hexDigest), ("plan_digest", hexDigest),
    ("prior_lineage_sha256", hexDigest), ("baseline_manifest_sha256", hexDigest),
    ("activation_manifest_sha256", hexDigest), ("source_retirement_sha256", hexDigest),
    ("destination_state_binding", hexDigest),
    ("ledger_proofs", sorted R (proofEntry R) 128 (some "relative_root"))] noRelations

/-! ## claims, receipts and reports -/

def phases : List String :=
  ["claim", "inventory", "baseline_copy", "destination_intent", "source_retirement", "destination_generations",
    "destination_proofs", "claim_release", "complete"]

def reasons : List String :=
  ["none", "deadline", "caller_lost", "io_error", "readback_mismatch", "fsync_unconfirmed", "worker_unjoined",
    "descriptor_unclosed", "authority_unconfirmed", "history_invalid", "claim_release_unconfirmed"]

def refusals : List String :=
  ["invalid_plan", "invalid_placement", "restore_conflict", "authority_unconfirmed", "destination_not_empty",
    "inventory_unavailable", "inventory_limit_exceeded", "inventory_mismatch", "invalid_current_history",
    "source_changed"]

def lookupCodes : List String :=
  ["invalid_query", "administrative_path_unavailable", "restore_history_invalid", "restore_conflict",
    "physical_destination_changed", "inventory_limit_exceeded", "deadline", "cleanup_unconfirmed"]

def claim : Validator :=
  closed R [("kind", literal (str "loopex_current_restore_claim_v1")), ("tx_id", hexDigest),
    ("plan_digest", hexDigest), ("claim_nonce", hexDigest), ("state_root", absolute),
    ("role", oneOf ["source", "destination"])] noRelations

def receipt : Validator :=
  closed R [("kind", literal (str "loopex_current_restore_receipt_v1")), ("tx_id", hexDigest),
    ("ordinal", ordinal), ("plan_digest", hexDigest), ("intent_sha256", hexDigest),
    ("committed_sha256", hexDigest), ("source_retirement_sha256", hexDigest),
    ("baseline_manifest_sha256", hexDigest), ("activation_manifest_sha256", hexDigest),
    ("prior_lineage_sha256", hexDigest), ("destination_state_binding", hexDigest),
    ("ledger_count", range 0 128)] noRelations

def observation : Validator :=
  closed R [("kind", literal (str "loopex_current_restore_observation_v1")), ("tx_id", hexDigest),
    ("ordinal", nullable ordinal), ("phase", oneOf phases),
    ("intent", oneOf ["absent", "may_exist", "validated"]), ("cleanup", oneOf ["joined", "unconfirmed"]),
    ("claim", oneOf ["none", "held", "retained"]), ("reason", oneOf reasons)] noRelations

def refusal : Validator :=
  closed R [("kind", literal (str "loopex_current_restore_refusal_v1")), ("tx_id", nullable hexDigest),
    ("code", oneOf refusals), ("phase", oneOf phases), ("cleanup", literal (str "joined")),
    ("claim", oneOf ["none", "retained"])] noRelations

def lookupRefusal : Validator :=
  closed R [("kind", literal (str "loopex_current_restore_lookup_refusal_v1")), ("tx_id", nullable hexDigest),
    ("code", oneOf lookupCodes), ("cleanup", oneOf ["joined", "unconfirmed"])] noRelations

/-! ## the types of records -/

inductive RecordType where
  | placement | ledgerDescriptor | storeDescriptor | workspace | attestation | plan | invocation | limits
  | entry | candidate | intent | ledgerIntent | ledgerRetired | retirementEntry | sourceRetirement
  | ledgerCommitted | proofEntry | committed | claim | receipt | observation | refusal | lookupRefusal
  | generation | manifest
  deriving DecidableEq

/-- `ceiling`. -/
def RecordType.ceiling : RecordType → ℕ
  | .manifest => 4194304
  | .generation => generationCeiling
  | .limits => 512
  | .invocation | .claim | .receipt | .observation | .refusal | .lookupRefusal => 2048
  | _ => 65536

/-- `valid?`, at an instant of the monotonic clock. -/
def RecordType.valid (now : ℤ) : RecordType → Validator
  | .placement => Executor.placement R
  | .ledgerDescriptor => Executor.ledgerDescriptor R
  | .storeDescriptor => Executor.storeDescriptor R
  | .workspace => Executor.workspace R
  | .attestation => Executor.attestation R
  | .plan => Executor.plan R
  | .invocation => Executor.invocation R now
  | .limits => Executor.limitsRecord R
  | .entry => Executor.entry R
  | .candidate => Executor.candidate R
  | .intent => Executor.intent R
  | .ledgerIntent => Executor.ledgerIntent R
  | .ledgerRetired => Executor.ledgerRetired R
  | .retirementEntry => Executor.retirementEntry R
  | .sourceRetirement => Executor.sourceRetirement R
  | .ledgerCommitted => Executor.ledgerCommitted R
  | .proofEntry => Executor.proofEntry R
  | .committed => Executor.committed R
  | .claim => Executor.claim R
  | .receipt => Executor.receipt R
  | .observation => Executor.observation R
  | .refusal => Executor.refusal R
  | .lookupRefusal => Executor.lookupRefusal R
  | .generation => Executor.generation R
  | .manifest => Executor.manifest R

/-- `encode`. -/
def RecordType.encode (now : ℤ) (type : RecordType) (value : Term) : Check Unit Bytes :=
  encodeWith (type.valid R now) type.ceiling value

/-- `decode`. -/
def RecordType.decode (now : ℤ) (type : RecordType) (bytes : Bytes) : Check Unit Term :=
  decodeWith R (type.valid R now) type.ceiling bytes

end Loopex.Executor
