import Loopex.Erlang.Check
import Loopex.Erlang.Sha256
import Loopex.Erlang.Term

/-!
# The reader of a transfer

One I/O worker opens the object of a transfer, verifies it whole into a private snapshot, and then reads
the requested window in bounded pieces.  It takes the orders of the owner one at a time and reports to it.

* `windowBounds`, `transferSource`, `emit`, `checkIo` — the functions of the source
* `Worker.act` — what the worker does next, with the answers of the file system as an argument
* `Serves` — read results that cut a window into consecutive pieces
* `emit_serves` — every read serves the next piece
-/

namespace Loopex.Transfers

open Loopex.Erlang

/-- The identity of a transfer, and of a retirement receipt. -/
abbrev Ref := Bytes
abbrev Pid := ℕ
/-- The reference of a monitor, of a timer or of a call. -/
abbrev Tag := ℕ

/-- `transfer_limits`. -/
structure Limits where
  objectBytes : ℕ
  openWorkBytes : ℕ
  chunkBytes : ℕ
  readDeadlineMs : ℕ
  lifetimeMs : ℕ
  perRuntime : ℕ

def transferLimits : Limits := ⟨67108864, 134217728, 32768, 5000, 600000, 4⟩

inductive Reason where
  | invalidArtifactRequest | invalidOpenContext | reservationRequired | reservationConflict
  | unknownArtifactUse | artifactUseMismatch | artifactIntegrityFailed | artifactDigestMismatch
  | unknownArtifact | artifactTooLarge | invalidWindow | openDeadlineExhausted | openWorkBudgetExhausted
  | transferLimitReached | transfersUnavailable | artifactUnreadable | cancelled
  | invalidChunkLength | unknownTransfer | readDeadlineExhausted
  | invalidCloseContext | cleanupUnproved | retirementReceiptMismatch
  deriving DecidableEq

/-! ## requests -/

/-- What an opening asks for; without a length, the rest of the object. -/
structure Request where
  sessionId : Bytes
  useLocator : Bytes
  start : ℤ
  length : Option ℤ
  deriving DecidableEq

structure Context where
  transferRef : Ref
  openDeadlineMs : ℤ
  objectWorkBytes : ℤ
  metadataReadBytes : ℤ
  deriving DecidableEq

def validSize (n : ℤ) : Bool := decide (0 ≤ n ∧ n ≤ 18446744073709551615)

def validTransferRef (ref : Ref) : Bool := decide (ref.length = 32) && ref.all isHex

def validTransferUseLocator (locator : Bytes) : Bool :=
  decide (locator.take 4 = utf8 "use:") && decide (locator.length = 68) && (locator.drop 4).all isHex

/-- `valid_transfer_request?` of a term of the shape of a request. -/
def validTransferRequest (request : Request) : Bool :=
  decide (1 ≤ request.sessionId.length ∧ request.sessionId.length ≤ 256)
    && validTransferUseLocator request.useLocator && validSize request.start
    && request.length.all validSize

/-- `valid_open_context?` of a term of the shape of a context. -/
def validOpenContext (context : Context) : Bool :=
  validTransferRef context.transferRef && decide (context.objectWorkBytes = 134217728)
    && decide (context.metadataReadBytes = 131073)

/-! ## opening -/

/-- The identity of stored bytes. -/
structure Object where
  digest : Bytes
  size : ℕ
  locator : Bytes
  deriving DecidableEq

/-- The part of an object that a transfer emits. -/
structure Bounds where
  start : ℕ
  length : ℕ
  deriving DecidableEq

/-- `window_bounds`. -/
def windowBounds (start : ℤ) (length : Option ℤ) (size : ℕ) : Except Reason Bounds :=
  if start < 0 then .error .invalidWindow
  else if (size : ℤ) < start then .error .invalidWindow
  else
    match length with
    | none => .ok ⟨start.toNat, size - start.toNat⟩
    | some length =>
      if length < 0 then .error .invalidWindow
      else if (size : ℤ) < start + length then .error .invalidWindow
      else .ok ⟨start.toNat, length.toNat⟩

theorem windowBounds_le {start : ℤ} {length : Option ℤ} {size : ℕ} {b : Bounds}
    (h : windowBounds start length size = .ok b) : b.start + b.length ≤ size := by
  unfold windowBounds at h
  split at h
  · cases h
  split at h
  · cases h
  split at h
  · obtain rfl := Except.ok.inj h
    simp only
    omega
  · split at h
    · cases h
    split at h
    · cases h
    obtain rfl := Except.ok.inj h
    simp only
    omega

/-- `reserve_open_work`. -/
def reserveOpenWork (size : ℕ) (budget : ℤ) : Except Reason Unit :=
  if 2 * (size : ℤ) ≤ budget then .ok () else .error .openWorkBudgetExhausted

/-- The record of an open reader: the verified snapshot, the window and the next position. -/
structure Reader where
  content : Bytes
  windowStart : ℕ
  windowLength : ℕ
  cursor : ℕ
  deriving DecidableEq

/-- The end of the window. -/
def Reader.stop (reader : Reader) : ℕ := reader.windowStart + reader.windowLength

/-- The bytes of the window. -/
def Reader.window (reader : Reader) : Bytes :=
  (reader.content.drop reader.windowStart).take reader.windowLength

/-- `{:ok, path}` of `object_path`. -/
def objectPath (object : Object) : Except Reason Unit :=
  if object.locator.length = 64 ∧ object.locator.all isHex = true then .ok () else .error .unknownArtifact

/-- `verified_snapshot`: the bytes copied are those of the object. -/
def verifiedSnapshot (object : Object) (copied : Except Reason Bytes) : Except Reason Bytes := do
  let content ← copied
  if content.length = object.size ∧ hex (sha256 content) = object.digest then .ok content
  else .error .artifactDigestMismatch

/-- `transfer_source`, up to the report of the opening; `copied` is what the file system gave. -/
def transferSource (limits : Limits) (request : Request) (context : Context) (object : Object)
    (copied : Except Reason Bytes) : Except Reason Reader := do
  objectPath object
  if limits.objectBytes < object.size then .error .artifactTooLarge
  reserveOpenWork object.size (min context.objectWorkBytes limits.openWorkBytes)
  let bounds ← windowBounds request.start request.length object.size
  let content ← verifiedSnapshot object copied
  .ok ⟨content, bounds.start, bounds.length, bounds.start⟩

/-- An opened reader stands at the start of the requested window, which lies in the verified object. -/
structure Reader.Opened (reader : Reader) (request : Request) : Prop where
  bounds : windowBounds request.start request.length reader.content.length =
    .ok ⟨reader.windowStart, reader.windowLength⟩
  start : reader.cursor = reader.windowStart

theorem verifiedSnapshot_ok {object : Object} {copied : Except Reason Bytes} {content : Bytes}
    (h : verifiedSnapshot object copied = .ok content) :
    content.length = object.size ∧ hex (sha256 content) = object.digest := by
  cases copied with
  | error e => cases h
  | ok b =>
    change (if b.length = object.size ∧ hex (sha256 b) = object.digest then Except.ok b
      else Except.error Reason.artifactDigestMismatch) = .ok content at h
    split at h
    next hb =>
      obtain rfl := Except.ok.inj h
      exact hb
    next => cases h

theorem transferSource_opened {limits : Limits} {request : Request} {context : Context}
    {object : Object} {copied : Except Reason Bytes} {reader : Reader}
    (h : transferSource limits request context object copied = .ok reader) :
    reader.Opened request := by
  unfold transferSource at h
  obtain ⟨_, _, h⟩ := Except.bind_eq_ok.1 h
  split at h
  · cases h
  obtain ⟨_, _, h⟩ := Except.bind_eq_ok.1 h
  obtain ⟨bounds, hbounds, h⟩ := Except.bind_eq_ok.1 h
  obtain ⟨content, hcontent, h⟩ := Except.bind_eq_ok.1 h
  obtain rfl := Except.ok.inj h
  refine ⟨?_, rfl⟩
  rw [(verifiedSnapshot_ok hcontent).1]
  exact hbounds

/-! ## reading -/

structure Chunk where
  offset : ℕ
  bytes : Bytes
  chunkDigest : Bytes
  deriving DecidableEq

/-- What a read gives: `{:ok, chunk}`, `{:ok, :complete}` or an error. -/
inductive ReadReply where
  | chunk (c : Chunk)
  | complete
  | error (reason : Reason)
  deriving DecidableEq

/-- `emit`; `pread` tells whether the device gives the bytes asked for. -/
def emit (reader : Reader) (length : ℤ) (limits : Limits) (pread : Bool) : ReadReply × Reader :=
  if length ≤ 0 then (.error .invalidChunkLength, reader)
  else if reader.stop ≤ reader.cursor then (.complete, reader)
  else
    let wanted := min (min length.toNat limits.chunkBytes) (reader.stop - reader.cursor)
    let bytes := (reader.content.drop reader.cursor).take wanted
    if pread = true ∧ bytes.length = wanted then
      (.chunk ⟨reader.cursor, bytes, hex (sha256 bytes)⟩, { reader with cursor := reader.cursor + wanted })
    else (.error .artifactUnreadable, reader)

/-! ## pieces of a window -/

/-- The position after the results, read from `position`. -/
def reached (position : ℕ) : List ReadReply → ℕ
  | [] => position
  | .chunk c :: rs => reached (position + c.bytes.length) rs
  | _ :: rs => reached position rs

/-- The results read `content` from `position` to `stop`, each chunk where the one before it ended, and
`complete` at `stop` only. -/
def Serves (content : Bytes) (stop : ℕ) (position : ℕ) : List ReadReply → Prop
  | [] => True
  | .chunk c :: rs =>
    c.offset = position ∧ c.bytes = (content.drop position).take c.bytes.length ∧
      position + c.bytes.length ≤ stop ∧ c.chunkDigest = hex (sha256 c.bytes) ∧
      Serves content stop (position + c.bytes.length) rs
  | .complete :: rs => position = stop ∧ Serves content stop position rs
  | .error _ :: rs => Serves content stop position rs

@[simp] theorem reached_append (position : ℕ) (rs rs' : List ReadReply) :
    reached position (rs ++ rs') = reached (reached position rs) rs' := by
  induction rs generalizing position with
  | nil => rfl
  | cons r rs ih => cases r <;> exact ih _

theorem serves_append {content : Bytes} {stop position : ℕ} {rs rs' : List ReadReply} :
    Serves content stop position (rs ++ rs') ↔
      Serves content stop position rs ∧ Serves content stop (reached position rs) rs' := by
  induction rs generalizing position with
  | nil => simp [Serves, reached]
  | cons r rs ih => cases r <;> simp [Serves, reached, ih, and_assoc]

/-- The chunks among the results. -/
def chunks : List ReadReply → List Chunk
  | [] => []
  | .chunk c :: rs => c :: chunks rs
  | _ :: rs => chunks rs

@[simp] theorem chunks_append (rs rs' : List ReadReply) : chunks (rs ++ rs') = chunks rs ++ chunks rs' := by
  induction rs with
  | nil => rfl
  | cons r rs ih => cases r <;> simp [chunks, ih]

/-- The bytes of the chunks, one after the other. -/
def bytesOf (cs : List Chunk) : Bytes := cs.flatMap Chunk.bytes

theorem reached_eq (position : ℕ) (rs : List ReadReply) :
    reached position rs = position + (bytesOf (chunks rs)).length := by
  induction rs generalizing position with
  | nil => simp [reached, chunks, bytesOf]
  | cons r rs ih =>
    cases r with
    | chunk c => simp [reached, chunks, bytesOf, ih]; omega
    | complete => exact ih position
    | error e => exact ih position

/-- The bytes served are those of the content from the first position on. -/
theorem Serves.bytes_eq {content : Bytes} {stop position : ℕ} {rs : List ReadReply}
    (h : Serves content stop position rs) :
    bytesOf (chunks rs) = (content.drop position).take (bytesOf (chunks rs)).length := by
  induction rs generalizing position with
  | nil => simp [chunks, bytesOf]
  | cons r rs ih =>
    cases r with
    | chunk c =>
      obtain ⟨-, hbytes, -, -, hrest⟩ := h
      have hih := ih hrest
      simp only [chunks, bytesOf, List.flatMap_cons, List.length_append] at hih ⊢
      rw [List.take_add, List.drop_drop, ← hbytes, ← hih]
    | complete => exact ih h.2
    | error e => exact ih h

/-- What is served stays below the end. -/
theorem Serves.reached_le {content : Bytes} {stop position : ℕ} {rs : List ReadReply}
    (h : Serves content stop position rs) (hle : position ≤ stop) : reached position rs ≤ stop := by
  induction rs generalizing position with
  | nil => exact hle
  | cons r rs ih =>
    cases r with
    | chunk c => exact ih h.2.2.2.2 h.2.2.1
    | complete => exact ih h.2 hle
    | error e => exact ih h hle

/-- A reader that stands where the results read from its window end. -/
structure Reader.At (reader : Reader) (rs : List ReadReply) : Prop where
  serves : Serves reader.content reader.stop reader.windowStart rs
  cursor : reader.cursor = reached reader.windowStart rs
  inside : reader.stop ≤ reader.content.length

theorem Reader.At.le {reader : Reader} {rs : List ReadReply} (h : reader.At rs) :
    reader.cursor ≤ reader.stop := by
  rw [h.cursor]
  exact h.serves.reached_le (Nat.le_add_right _ _)

theorem Reader.Opened.start_at {reader : Reader} {request : Request} (h : reader.Opened request) :
    reader.At [] :=
  ⟨trivial, h.start, windowBounds_le h.bounds⟩

/-- A read keeps everything of a reader but the cursor. -/
theorem emit_keeps (reader : Reader) (length : ℤ) (limits : Limits) (pread : Bool) :
    (emit reader length limits pread).2 =
      { reader with cursor := (emit reader length limits pread).2.cursor } := by
  unfold emit
  split
  · rfl
  split
  · rfl
  simp only
  split <;> rfl

/-- A read serves the next piece, and the reader stands after it. -/
theorem emit_serves {reader : Reader} {rs : List ReadReply} (h : reader.At rs) (length : ℤ)
    (limits : Limits) (pread : Bool) :
    (emit reader length limits pread).2.At (rs ++ [(emit reader length limits pread).1]) := by
  have hle := h.le
  have hcursor := h.cursor
  unfold emit
  split
  · exact ⟨serves_append.2 ⟨h.serves, trivial⟩, by simpa [reached] using h.cursor, h.inside⟩
  split
  next hdone =>
    refine ⟨serves_append.2 ⟨h.serves, ?_, trivial⟩, by simpa [reached] using h.cursor, h.inside⟩
    rw [← hcursor]
    exact Nat.le_antisymm hle hdone
  simp only
  split
  next hmore hread =>
    generalize hw : min (min length.toNat limits.chunkBytes) (reader.stop - reader.cursor) = wanted at hread ⊢
    refine ⟨serves_append.2 ⟨h.serves, ?_⟩, ?_, h.inside⟩
    · simp only [Serves, hread.2, Reader.stop] at hw ⊢
      rw [← hcursor]
      refine ⟨rfl, rfl, ?_, trivial, trivial⟩
      simp only [Reader.stop] at hmore
      omega
    · simp only [reached_append, reached, hread.2, ← hcursor]
  · exact ⟨serves_append.2 ⟨h.serves, trivial⟩, by simpa [reached] using h.cursor, h.inside⟩

/-! ## the I/O worker -/

/-- The accounting of the work done for a transfer. -/
structure Work where
  sourceReadBytes : ℕ
  snapshotWriteDebit : ℕ
  metadataReadBytes : ℕ
  writeUncertain : Bool
  deriving DecidableEq

def emptyWork : Work := ⟨0, 0, 0, false⟩

/-- The description of an open transfer. -/
structure Transfer where
  transferRef : Ref
  object : Object
  useLocator : Bytes
  totalSize : ℕ
  windowStart : ℕ
  windowLength : ℕ
  objectDigest : Bytes
  deriving DecidableEq

/-- What the owner sends to a worker. -/
inductive Order where
  | retire
  | read (length : ℤ) (deadline : ℤ)
  deriving DecidableEq

/-- What a worker sends to the owner, its end included. -/
inductive Report where
  | work (work : Work)
  | opened (transfer : Transfer) (use : Term) (work : Work)
  | readResult (result : ReadReply)
  | retired (outcome : Reason) (work : Work) (proof : Bool)
  | down (normal : Bool)
  deriving DecidableEq

inductive Phase where
  | opening | reading | exited
  deriving DecidableEq

/-- A worker: what it was started with, its reader once it has opened, and its mailbox. -/
structure Worker where
  ref : Ref
  monitor : Tag
  request : Request
  context : Context
  phase : Phase
  reader : Option Reader
  work : Work
  inbox : List Order
  deriving DecidableEq

/-- What the use record of a request led to. -/
inductive Resolution where
  | refused (reason : Reason)
  | found (object : Object) (use : Term) (copied : Except Reason Bytes)

/-- What a worker does next.  `proof` tells whether every descriptor was closed. -/
inductive Act where
  | publish (work : Work)
  | resolve (resolution : Resolution) (proof : Bool)
  | serve (pread proof : Bool)
  | crash

/-- The two clock readings of a step. -/
structure Clock where
  now : ℤ
  later : ℤ

/-- `check_io!`: why the worker stops. -/
def checkIo (inbox : List Order) (now deadline : ℤ) (exhausted : Reason) : Option Reason :=
  if Order.retire ∈ inbox then some .cancelled
  else if now < deadline then none
  else some exhausted

namespace Worker

/-- The end of `transfer_io`. -/
def finish (k : Worker) (outcome : Reason) (proof : Bool) : Worker × List Report :=
  ({ k with phase := .exited }, [.retired outcome k.work proof, .down true])

/-- The opening, from the use record to the report. -/
def resolve (k : Worker) (limits : Limits) (now : ℤ) (resolution : Resolution) (proof : Bool) :
    Worker × List Report :=
  match checkIo k.inbox now k.context.openDeadlineMs .openDeadlineExhausted with
  | some reason => k.finish reason proof
  | none =>
    match resolution with
    | .refused reason => k.finish reason proof
    | .found object use copied =>
      match transferSource limits k.request k.context object copied with
      | .error reason => k.finish reason proof
      | .ok reader =>
        if proof then
          let transfer : Transfer :=
            ⟨k.context.transferRef, object, k.request.useLocator, object.size, reader.windowStart,
              reader.windowLength, hex (sha256 reader.content)⟩
          ({ k with phase := .reading, reader := some reader }, [.opened transfer use k.work])
        else k.finish .artifactUnreadable proof

/-- `transfer_reader` on the first message of the mailbox. -/
def serve (k : Worker) (limits : Limits) (clock : Clock) (reader : Reader) (pread proof : Bool) :
    Option (Worker × List Report) :=
  match k.inbox with
  | [] => none
  | .retire :: _ => some (k.finish .cancelled proof)
  | .read length deadline :: rest =>
    match checkIo rest clock.now deadline .readDeadlineExhausted with
    | some reason => some (k.finish reason proof)
    | none =>
      let (reply, next) := emit reader length limits pread
      let reply := if clock.later < deadline then reply else .error .readDeadlineExhausted
      some ({ k with inbox := rest, reader := some next }, [.readResult reply])

/-- One step of a worker, and what it sends. -/
def act (k : Worker) (limits : Limits) (clock : Clock) (a : Act) : Option (Worker × List Report) :=
  match k.phase, a with
  | .exited, _ => none
  | _, .crash => some ({ k with phase := .exited }, [.down false])
  | .opening, .publish work => some ({ k with work := work }, [.work work])
  | .opening, .resolve resolution proof => some (k.resolve limits clock.now resolution proof)
  | .reading, .serve pread proof => k.reader.bind fun reader => k.serve limits clock reader pread proof
  | _, _ => none

end Worker

/-- The read results among the reports. -/
def results : List Report → List ReadReply
  | [] => []
  | .readResult r :: rs => r :: results rs
  | _ :: rs => results rs

@[simp] theorem results_append (rs rs' : List Report) : results (rs ++ rs') = results rs ++ results rs' := by
  induction rs with
  | nil => rfl
  | cons r rs ih => cases r <;> simp [results, ih]

/-- The reads among the orders. -/
def reads : List Order → ℕ
  | [] => 0
  | .read _ _ :: os => reads os + 1
  | .retire :: os => reads os

@[simp] theorem reads_append (os os' : List Order) : reads (os ++ os') = reads os + reads os' := by
  induction os with
  | nil => simp [reads]
  | cons o os ih => cases o <;> simp [reads, ih]; omega

end Loopex.Transfers
