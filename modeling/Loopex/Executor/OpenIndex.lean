import Loopex.Executor.Publication
import Loopex.Executor.RetainedRecords
import Mathlib.Data.List.Dedup

/-!
# The index of open entries

The open entries of a root are read twice: live, under a claim with a nonce, and by an audit from the entries that it
captured.  Both bound the external size of the observation, of which the nonce is a part in the first only.

* `openSnapshot`, `validateCapturedOpenIndex` — the two readers
* `observation_size` — the captured size with the nonce's is the live one
* `captured_as_live` — what one accepts, the other does
-/

namespace Loopex.Executor.Ledger

open Loopex.Erlang Loopex.Erlang.Term Loopex.Store

/-! ## the readers -/

/-- The refusals of an index; `{:ledger_unavailable, _}`. -/
inductive IndexError where
  | record (reason : Unavailable)
  | missingClaimContext | capacity | malformedOpenEntry | snapshotTooLarge
  deriving DecidableEq

def snapshotCeiling : ℕ := 4194304

def maxOpenEntries : ℕ := 1024

/-- A name with its record. -/
abbrev Entry := Bytes × Term

/-- `Enum.sort`. -/
def sortNames (names : List Bytes) : List Bytes := names.mergeSort fun a b => decide (a ≤ b)

/-- `Enum.sort_by(entries, &elem(&1, 0))`. -/
def sortEntries (entries : List Entry) : List Entry := entries.mergeSort fun a b => decide (a.1 ≤ b.1)

def openIndexCapacity (count : ℕ) : Check IndexError Unit := Check.require (count ≤ maxOpenEntries) .capacity

/-- `snapshot_members`. -/
def snapshotMembers (entries : List Entry) : List Term :=
  entries.map fun e => .list [.binary e.1, .binary (digest (termToBinary e.2)), e.2]

/-- `bound_snapshot_size`. -/
def boundSnapshotSize (size : ℕ) (entries : List Entry) : Check IndexError (List Term) :=
  if size ≤ snapshotCeiling then .ok (entries.map Prod.snd) else .error .snapshotTooLarge

/-- What `bound_snapshot` measures. -/
def liveObservation (generation binding nonce : Bytes) (entries : List Entry) : Term :=
  .list [str "loopex:local-root-snapshot:v1", .binary generation, .binary binding, .binary nonce, .int entries.length,
    .list (snapshotMembers entries)]

def boundSnapshot (generation binding nonce : Bytes) (entries : List Entry) : Check IndexError (List Term) :=
  boundSnapshotSize (externalSize (liveObservation generation binding nonce entries)) entries

/-- What the audit measures. -/
def capturedObservation (generation binding : Bytes) (entries : List Entry) : Term :=
  .list [str "loopex:local-root-snapshot:v1", .binary generation, .binary binding, .int entries.length,
    .list (snapshotMembers entries)]

variable (R : Runtime)

/-- `decode_captured_record` of an open entry. -/
def decodeOpen (bytes : Bytes) : Check IndexError Term :=
  match decodeCapturedRecord R bytes [openKind] recordCeiling with
  | .ok record => .ok record
  | .error reason => .error (.record reason)
  | .raise x => .raise x

/-- The step of `read_open_entries`: `read_record`, of a directory of files. -/
def readOpenEntry (files : List (Bytes × Bytes)) (name : Bytes) : Check IndexError Entry :=
  match files.lookup name with
  | some bytes =>
    if bytes.length ≤ recordCeiling then do
      let record ← decodeOpen R bytes
      Check.require (name = digest (textOf record "job_id")) IndexError.malformedOpenEntry
      .ok (name, record)
    else .error (.record .recordTooLarge)
  | none => .error .malformedOpenEntry

/-- `open_snapshot`, over the files of the open directory. -/
def openSnapshot (generation binding nonce : Bytes) (files : List (Bytes × Bytes)) : Check IndexError (List Term) := do
  Check.require (isHexDigest (.binary nonce)) .missingClaimContext
  openIndexCapacity files.length
  let entries ← (sortNames (files.map Prod.fst)).mapM (readOpenEntry R files)
  boundSnapshot generation binding nonce entries

/-- `captured_open_entry?`. -/
def capturedOpenEntry (e : Entry) : Bool :=
  match validateRecord R e.2 [openKind] recordCeiling with
  | .ok _ => e.1 = digest (textOf e.2 "job_id")
  | _ => false

/-- An entry as a term. -/
def entryTerm (e : Entry) : Term := .tuple [.binary e.1, e.2]

/-- `validate_captured_open_index`. -/
def validateCapturedOpenIndex (generation binding : Bytes) (entries : List Entry) : Check IndexError (List Term) := do
  Check.require (isHexDigest (.binary generation) && isHexDigest (.binary binding)) .malformedOpenEntry
  openIndexCapacity entries.length
  Check.require (entries.all (capturedOpenEntry R)) .malformedOpenEntry
  Check.require (looseEq (.list (entries.map entryTerm)) (.list ((sortEntries entries).map entryTerm)))
    .malformedOpenEntry
  Check.require ((entries.map Prod.fst).dedup.length = entries.length) .malformedOpenEntry
  boundSnapshotSize (externalSize (capturedObservation generation binding entries) + 69) entries

/-- A file that an audit captures. -/
def decodedEntry (files : List (Bytes × Bytes)) (name : Bytes) : Check IndexError Entry :=
  match files.lookup name with
  | some bytes => do
    let record ← decodeOpen R bytes
    .ok (name, record)
  | none => .error .malformedOpenEntry

/-- The entries that an audit captures: every file decoded, in the order of the names. -/
def decodedEntries (files : List (Bytes × Bytes)) : Check IndexError (List Entry) :=
  (sortNames (files.map Prod.fst)).mapM (decodedEntry R files)

/-! ## sizes -/

/-- **The sizes are the same.** The nonce of 64 bytes is 69 bytes of the live observation. -/
theorem observation_size {generation binding nonce : Bytes} {entries : List Entry} (h : nonce.length = 64) :
    externalSize (capturedObservation generation binding entries) + 69 =
      externalSize (liveObservation generation binding nonce entries) := by
  have hcaptured : byteList [str "loopex:local-root-snapshot:v1", .binary generation, .binary binding,
      .int entries.length, .list (snapshotMembers entries)] = none := rfl
  have hlive : byteList [str "loopex:local-root-snapshot:v1", .binary generation, .binary binding, .binary nonce,
      .int entries.length, .list (snapshotMembers entries)] = none := rfl
  rw [externalSize_eq, externalSize_eq, capturedObservation, liveObservation, encode, if_neg (List.cons_ne_nil _ _),
    hcaptured, encode, if_neg (List.cons_ne_nil _ _), hlive]
  simp only [encodeList, List.length_append, List.length_cons, List.length_nil, be_length, encode_binary_length, h]
  omega

/-! ## the entries that are read -/

section
variable {R : Runtime} {files : List (Bytes × Bytes)} {entries : List Entry} {name : Bytes} {e : Entry}

theorem sortNames_perm (names : List Bytes) : (sortNames names).Perm names := List.mergeSort_perm _ _

theorem sortNames_sorted (names : List Bytes) : (sortNames names).Pairwise (· ≤ ·) := by
  refine (List.pairwise_mergeSort ?_ ?_ names).imp (by simp)
  · intro a b c hab hbc
    simp only [decide_eq_true_eq] at *
    exact List.le_trans hab hbc
  · intro a b
    simpa using List.le_total a b

/-- A file whose record is read. -/
def Decoded (R : Runtime) (files : List (Bytes × Bytes)) (name : Bytes) (e : Entry) : Prop :=
  e.1 = name ∧ ∃ bytes, files.lookup name = some bytes ∧ decodeCapturedRecord R bytes [openKind] recordCeiling = .ok e.2

theorem decodeOpen_eq_ok {bytes : Bytes} {record : Term} :
    decodeOpen R bytes = .ok record ↔ decodeCapturedRecord R bytes [openKind] recordCeiling = .ok record := by
  unfold decodeOpen
  split <;> simp_all

theorem readOpenEntry_eq_ok : readOpenEntry R files name = .ok e ↔
    Decoded R files name e ∧ e.1 = digest (textOf e.2 "job_id") := by
  obtain ⟨key, record⟩ := e
  unfold readOpenEntry Decoded
  cases hl : files.lookup name with
  | none => simp
  | some bytes =>
    dsimp only
    constructor
    · intro h
      split at h
      · obtain ⟨record', hrecord, h⟩ := Check.bind_eq_ok.1 h
        obtain ⟨_, hname, h⟩ := Check.bind_eq_ok.1 h
        cases h
        exact ⟨⟨rfl, bytes, rfl, decodeOpen_eq_ok.1 hrecord⟩, of_decide_eq_true (Check.require_eq_ok.1 hname)⟩
      · cases h
    · rintro ⟨⟨rfl, bytes', hbytes, hrecord⟩, hname⟩
      obtain rfl := Option.some.inj hbytes
      rw [if_pos (decodeCapturedRecord_eq_ok.1 hrecord).1]
      exact Check.bind_eq_ok.2 ⟨record, decodeOpen_eq_ok.2 hrecord, Check.bind_eq_ok.2
        ⟨(), Check.require_eq_ok.2 (decide_eq_true hname), rfl⟩⟩

theorem decodedEntry_eq_ok : decodedEntry R files name = .ok e ↔ Decoded R files name e := by
  obtain ⟨key, record⟩ := e
  unfold decodedEntry Decoded
  cases hl : files.lookup name with
  | none => simp
  | some bytes =>
    simp only [Check.bind_eq_ok, decodeOpen_eq_ok, Check.ok.injEq, Prod.mk.injEq, Option.some.injEq]
    constructor
    · rintro ⟨record, hrecord, rfl, rfl⟩
      exact ⟨rfl, bytes, rfl, hrecord⟩
    · rintro ⟨rfl, bytes', rfl, hrecord⟩
      exact ⟨_, hrecord, rfl, rfl⟩

theorem decodedEntries_eq_ok : decodedEntries R files = .ok entries ↔
    List.Forall₂ (Decoded R files) (sortNames (files.map Prod.fst)) entries := by
  rw [decodedEntries, Check.mapM_eq_ok]
  exact ⟨fun h => h.imp fun _ _ => decodedEntry_eq_ok.1, fun h => h.imp fun _ _ => decodedEntry_eq_ok.2⟩

theorem names_of_decoded {names : List Bytes} (h : List.Forall₂ (Decoded R files) names entries) :
    entries.map Prod.fst = names := by
  induction h with
  | nil => rfl
  | cons he _ ih => rw [List.map_cons, he.1, ih]

/-! ## what is accepted -/

theorem capturedOpenEntry_eq_true : capturedOpenEntry R e = true ↔
    (∃ bytes, validateRecord R e.2 [openKind] recordCeiling = .ok bytes) ∧ e.1 = digest (textOf e.2 "job_id") := by
  unfold capturedOpenEntry
  split <;> simp_all

/-- The name of an entry's term. -/
def nameOf : Term → Bytes
  | .tuple (.binary name :: _) => name
  | _ => []

/-- Entries that are `==` to themselves in the order of the names are in that order. -/
theorem sorted_of_looseEq
    (h : looseEq (.list (entries.map entryTerm)) (.list ((sortEntries entries).map entryTerm)) = true) :
    (entries.map Prod.fst).Pairwise (· ≤ ·) := by
  have hloose := looseEq_iff.1 h
  rw [loosen_list, loosen_list, Term.list.injEq] at hloose
  have hnames : ∀ es : List Entry, ((es.map entryTerm).map loosen).map nameOf = es.map Prod.fst := by
    intro es
    rw [List.map_map, List.map_map]
    refine List.map_congr_left fun e _ => ?_
    simp [entryTerm, nameOf]
  have heq : entries.map Prod.fst = (sortEntries entries).map Prod.fst := by
    rw [← hnames entries, hloose, hnames]
  rw [heq, List.pairwise_map]
  refine (List.pairwise_mergeSort ?_ ?_ entries).imp (by simp)
  · intro a b c hab hbc
    simp only [decide_eq_true_eq] at *
    exact List.le_trans hab hbc
  · intro a b
    simpa using List.le_total a.1 b.1

theorem sortEntries_sorted (h : (entries.map Prod.fst).Pairwise (· ≤ ·)) : sortEntries entries = entries := by
  apply List.mergeSort_of_pairwise
  refine (List.pairwise_map.1 h).imp fun hle => ?_
  simpa using hle

theorem dedup_length {names : List Bytes} : names.dedup.length = names.length ↔ names.Nodup :=
  ⟨fun h => List.dedup_eq_self.1 ((List.dedup_sublist names).eq_of_length h), fun h => by rw [List.dedup_eq_self.2 h]⟩

variable {generation binding nonce : Bytes} {records : List Term}

/-- What the audit accepts. -/
theorem validateCapturedOpenIndex_eq_ok : validateCapturedOpenIndex R generation binding entries = .ok records ↔
    (isHexDigest (.binary generation) = true ∧ isHexDigest (.binary binding) = true) ∧ entries.length ≤ maxOpenEntries ∧
      (∀ e ∈ entries, capturedOpenEntry R e = true) ∧ (entries.map Prod.fst).Pairwise (· ≤ ·) ∧
      (entries.map Prod.fst).Nodup ∧ externalSize (capturedObservation generation binding entries) + 69 ≤ snapshotCeiling ∧
      entries.map Prod.snd = records := by
  simp only [validateCapturedOpenIndex, openIndexCapacity, Check.bind_eq_ok, Check.require_eq_ok, Bool.and_eq_true,
    decide_eq_true_eq, List.all_eq_true, boundSnapshotSize]
  constructor
  · rintro ⟨_, hdigests, _, hcount, _, hentries, _, hsorted, _, hunique, hsize⟩
    split at hsize
    next hle =>
      exact ⟨hdigests, hcount, hentries, sorted_of_looseEq hsorted,
        dedup_length.1 (hunique.trans (List.length_map _).symm), hle, Check.ok.inj hsize⟩
    · cases hsize
  · rintro ⟨hdigests, hcount, hentries, hsorted, hunique, hle, hrecords⟩
    refine ⟨(), hdigests, (), hcount, (), hentries, (), ?_, (), ?_, ?_⟩
    · rw [sortEntries_sorted hsorted, looseEq_self]
    · rw [dedup_length.2 hunique, List.length_map]
    · rw [if_pos hle, hrecords]

/-- What the live reader accepts. -/
theorem openSnapshot_eq_ok : openSnapshot R generation binding nonce files = .ok records ↔
    isHexDigest (.binary nonce) = true ∧ files.length ≤ maxOpenEntries ∧ ∃ entries,
      List.Forall₂ (fun name e => Decoded R files name e ∧ e.1 = digest (textOf e.2 "job_id"))
        (sortNames (files.map Prod.fst)) entries ∧
      externalSize (liveObservation generation binding nonce entries) ≤ snapshotCeiling ∧
      entries.map Prod.snd = records := by
  have hread : ∀ entries, (sortNames (files.map Prod.fst)).mapM (readOpenEntry R files) = .ok entries ↔
      List.Forall₂ (fun name e => Decoded R files name e ∧ e.1 = digest (textOf e.2 "job_id"))
        (sortNames (files.map Prod.fst)) entries := by
    intro entries
    rw [Check.mapM_eq_ok]
    exact ⟨fun h => h.imp fun _ _ => readOpenEntry_eq_ok.1, fun h => h.imp fun _ _ => readOpenEntry_eq_ok.2⟩
  simp only [openSnapshot, openIndexCapacity, boundSnapshot, Check.bind_eq_ok, Check.require_eq_ok, decide_eq_true_eq,
    boundSnapshotSize, hread]
  constructor
  · rintro ⟨_, hnonce, _, hcount, entries, hentries, hsize⟩
    split at hsize
    next hle => exact ⟨hnonce, hcount, entries, hentries, hle, Check.ok.inj hsize⟩
    · cases hsize
  · rintro ⟨hnonce, hcount, entries, hentries, hle, hrecords⟩
    exact ⟨(), hnonce, (), hcount, entries, hentries, by rw [if_pos hle, hrecords]⟩

theorem validateCapturedOpenIndex_ne_raise {x : Exn} : validateCapturedOpenIndex R generation binding entries ≠ .raise x := by
  intro h
  simp only [validateCapturedOpenIndex, openIndexCapacity, boundSnapshotSize, Check.bind_eq_raise, Check.require_ne_raise,
    false_or] at h
  obtain ⟨_, -, _, -, _, -, _, -, _, -, h⟩ := h
  split at h <;> cases h

theorem exists_of_forall₂ {α β : Type} {P : α → β → Prop} {xs : List α} {ys : List β} (h : List.Forall₂ P xs ys) {y : β}
    (hy : y ∈ ys) : ∃ x ∈ xs, P x y := by
  induction h with
  | nil => cases hy
  | @cons x y' xs ys hP _ ih =>
    rcases List.mem_cons.1 hy with rfl | hy
    · exact ⟨x, List.mem_cons_self, hP⟩
    · obtain ⟨x', hx', hP'⟩ := ih hy
      exact ⟨x', List.mem_cons_of_mem _ hx', hP'⟩

theorem forall₂_and {α β : Type} {P : α → β → Prop} {Q : β → Prop} {xs : List α} {ys : List β}
    (h : List.Forall₂ P xs ys) (hQ : ∀ y ∈ ys, Q y) : List.Forall₂ (fun x y => P x y ∧ Q y) xs ys := by
  induction h with
  | nil => exact .nil
  | cons hP _ ih =>
    obtain ⟨hy, hys⟩ := List.forall_mem_cons.1 hQ
    exact .cons ⟨hP, hy⟩ (ih hys)

/-- **A captured index is judged as the live one.** Over the same files and under any nonce of a claim, the live reader
accepts exactly if every file is read and the audit accepts the entries, and both come to the same records; they
measure the same size; and the audit refuses every list out of order, of one name twice or with a wrong name. -/
theorem captured_as_live (hgeneration : isHexDigest (.binary generation) = true)
    (hbinding : isHexDigest (.binary binding) = true) (hnonce : isHexDigest (.binary nonce) = true)
    (hnodup : (files.map Prod.fst).Nodup) :
    (∀ records, openSnapshot R generation binding nonce files = .ok records ↔
      ∃ entries, decodedEntries R files = .ok entries ∧
        validateCapturedOpenIndex R generation binding entries = .ok records) ∧
    (∀ entries, externalSize (capturedObservation generation binding entries) + 69 =
      externalSize (liveObservation generation binding nonce entries)) ∧
    ∀ entries : List Entry, (¬ (entries.map Prod.fst).Pairwise (· ≤ ·) ∨ ¬ (entries.map Prod.fst).Nodup ∨
        ∃ e ∈ entries, e.1 ≠ digest (textOf e.2 "job_id")) →
      ∃ reason, validateCapturedOpenIndex R generation binding entries = .error reason := by
  have hlength : nonce.length = 64 := by
    simp only [isHexDigest, isDigest, Bool.and_eq_true, decide_eq_true_eq] at hnonce
    exact hnonce.1
  have hsize : ∀ entries, externalSize (capturedObservation generation binding entries) + 69 =
      externalSize (liveObservation generation binding nonce entries) := fun entries => observation_size hlength
  refine ⟨fun records => ?_, hsize, fun entries hbad => ?_⟩
  · rw [openSnapshot_eq_ok]
    constructor
    · rintro ⟨-, hcount, entries, hentries, hle, hrecords⟩
      have hdecoded := hentries.imp fun _ _ h => h.1
      have hnames := names_of_decoded hdecoded
      refine ⟨entries, decodedEntries_eq_ok.2 hdecoded, validateCapturedOpenIndex_eq_ok.2
        ⟨⟨hgeneration, hbinding⟩, ?_, fun e he => ?_, hnames ▸ sortNames_sorted _,
          hnames ▸ (sortNames_perm _).nodup_iff.2 hnodup, (hsize entries).trans_le hle, hrecords⟩⟩
      · rwa [← hentries.length_eq, (sortNames_perm _).length_eq, List.length_map]
      · obtain ⟨name, -, ⟨-, bytes, -, hrecord⟩, hname⟩ := exists_of_forall₂ hentries he
        obtain ⟨-, -, -, kvs, hkvs, hvalid⟩ := decodeCapturedRecord_eq_ok.1 hrecord
        exact capturedOpenEntry_eq_true.2 ⟨⟨bytes, hkvs ▸ hvalid⟩, hname⟩
    · rintro ⟨entries, hdecoded, hvalid⟩
      rw [decodedEntries_eq_ok] at hdecoded
      obtain ⟨-, hcount, hentries, -, -, hle, hrecords⟩ := validateCapturedOpenIndex_eq_ok.1 hvalid
      refine ⟨hnonce, ?_, entries, ?_, (hsize entries).symm.trans_le hle, hrecords⟩
      · rwa [← hdecoded.length_eq, (sortNames_perm _).length_eq, List.length_map] at hcount
      · refine forall₂_and hdecoded fun e he => ?_
        exact (capturedOpenEntry_eq_true.1 (hentries e he)).2
  · cases hanswer : validateCapturedOpenIndex R generation binding entries with
    | error reason => exact ⟨reason, rfl⟩
    | ok records =>
      obtain ⟨-, -, hentries, hsorted, hunique, -, -⟩ := validateCapturedOpenIndex_eq_ok.1 hanswer
      rcases hbad with h | h | ⟨e, he, hne⟩
      · exact absurd hsorted h
      · exact absurd hunique h
      · exact absurd (capturedOpenEntry_eq_true.1 (hentries e he)).2 hne
    | raise x => exact absurd hanswer (validateCapturedOpenIndex_ne_raise)

end

/-- The file of a job's open record. -/
def openFile (job : Bytes) : Bytes × Bytes := (digest job, termToBinary (openRecord job))

/-- What the audit captures of two jobs. -/
theorem captured_jobs :
    let digits : Bytes := List.replicate 64 48
    let files := [openFile (utf8 "other"), openFile (utf8 "job")]
    let entries := [(digest (utf8 "job"), openRecord (utf8 "job")), (digest (utf8 "other"), openRecord (utf8 "other"))]
    decodedEntries bareRuntime files = .ok entries ∧
      validateCapturedOpenIndex bareRuntime digits digits entries = .ok (entries.map Prod.snd) := by
  intro digits files entries
  have hle : digest (utf8 "job") ≤ digest (utf8 "other") ∧ digest (utf8 "job") ≠ digest (utf8 "other") := by
    decide
  have hsort : sortNames (files.map Prod.fst) = [digest (utf8 "job"), digest (utf8 "other")] :=
    ((sortNames_perm _).trans (.swap _ _ _)).eq_of_pairwise (fun _ _ _ _ => List.le_antisymm) (sortNames_sorted _)
      (.cons (by simpa using hle.1) (.cons (by simp) .nil))
  have hread : ∀ job ∈ [utf8 "job", utf8 "other"], files.lookup (digest job) = some (termToBinary (openRecord job)) ∧
      decodeCapturedRecord bareRuntime (termToBinary (openRecord job)) [openKind] recordCeiling = .ok (openRecord job) ∧
      capturedOpenEntry bareRuntime (digest job, openRecord job) = true := by
    decide +kernel
  simp only [List.forall_mem_cons] at hread
  obtain ⟨⟨hj1, hj2, hj3⟩, ⟨ho1, ho2, ho3⟩, -⟩ := hread
  constructor
  · rw [decodedEntries_eq_ok, hsort]
    exact .cons ⟨rfl, _, hj1, hj2⟩ (.cons ⟨rfl, _, ho1, ho2⟩ .nil)
  · refine validateCapturedOpenIndex_eq_ok.2 ⟨by decide +kernel, by decide, ?_, ?_, ?_, by decide +kernel, rfl⟩
    · simp only [entries, List.forall_mem_cons]
      exact ⟨hj3, ho3, List.forall_mem_nil _⟩
    · exact .cons (by simpa using hle.1) (.cons (by simp) .nil)
    · exact .cons (by simpa using hle.2) (.cons (by simp) .nil)

/-- The index of two jobs, which the live reader accepts as the audit does. -/
theorem captured_as_live_small :
    let digits : Bytes := List.replicate 64 48
    openSnapshot bareRuntime digits digits digits [openFile (utf8 "other"), openFile (utf8 "job")] =
      .ok [openRecord (utf8 "job"), openRecord (utf8 "other")] := by
  intro digits
  have hdigits : isHexDigest (.binary digits) = true := by decide
  exact ((captured_as_live hdigits hdigits hdigits (by decide)).1 _).2 ⟨_, captured_jobs⟩

/-- Under a nonce of 64 characters that are no hexadecimal digits the live reader refuses what the audit accepts. -/
theorem captured_as_live_fails :
    let digits : Bytes := List.replicate 64 48
    let nonce : Bytes := List.replicate 64 122
    nonce.length = 64 ∧ openSnapshot bareRuntime digits digits nonce [] = .error .missingClaimContext ∧
      decodedEntries bareRuntime [] = .ok [] ∧ validateCapturedOpenIndex bareRuntime digits digits [] = .ok [] := by
  refine ⟨rfl, ?_, ?_, ?_⟩ <;> decide +kernel

end Loopex.Executor.Ledger
