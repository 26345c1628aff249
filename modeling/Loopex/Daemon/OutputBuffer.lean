import Loopex.Erlang.Check
import Loopex.Erlang.Term
import Loopex.System.Run
import Mathlib.Algebra.BigOperators.Group.List.Basic
import Mathlib.Data.List.Induction
import Mathlib.Tactic.Linarith

/-!
# The output buffer of a daemon connection

A connection retains encoded frames until their emission is acknowledged.  Ordinary and progress frames
share one bounded queue with the notice and the replies of a succession, for which a reservation keeps room
from the moment it is made.

* `enqueue`, `enqueueProgress`, `discardProgress`, `reserveSuccession`, … — the functions of the source
* `Line` — a buffer in use, with the log of what its operations did
* `Accounted`, `Line.Ordered` — what every buffer in use satisfies
-/

namespace Loopex.Daemon

open Loopex.Erlang Loopex.Erlang.Term

/-! ## encoded frames -/

mutual
/-- `IO.iodata_to_binary`; `none` where it raises. -/
def iodataToBinary : Term → Option Bytes
  | .binary b => some b
  | .list xs => iolistToBinary xs
  | .improper xs (.binary tail) => (iolistToBinary xs).map fun b => b ++ tail
  | _ => none
def iolistToBinary : List Term → Option Bytes
  | [] => some []
  | .int n :: xs =>
    if 0 ≤ n ∧ n < 256 then (iolistToBinary xs).map fun b => UInt8.ofNat n.toNat :: b else none
  | x :: xs => (iodataToBinary x).bind fun b => (iolistToBinary xs).map fun rest => b ++ rest
end

/-- `encoded_binary`: the bytes of a frame, of which there is at least one. -/
def encodedBinary (encoded : Term) : Option Bytes :=
  match iodataToBinary encoded with
  | some bytes => if 0 < bytes.length then some bytes else none
  | none => none

inductive Kind where
  | ordinary | progress | notice | reply
  deriving DecidableEq

/-- A retained frame under its reference. -/
structure OutputFrame where
  ref : ℕ
  bytes : Bytes
  kind : Kind
  deriving DecidableEq

def OutputFrame.size (f : OutputFrame) : ℤ := f.bytes.length

/-- A reference as a value. -/
def refTerm (ref : ℕ) : Term := .handle .reference ref

def isReference : Term → Bool
  | .handle .reference _ => true
  | _ => false

@[simp] theorem refTerm_inj {a b : ℕ} : refTerm a = refTerm b ↔ a = b := by
  simp [refTerm]

/-! ## the buffer -/

inductive Phase where
  | reserved
  | noticePending (ref : ℕ) (size : ℤ)
  | replyReady
  | replyPending (ref : ℕ) (size : ℤ)
  deriving DecidableEq

structure Succession where
  noticeBytes : ℤ
  replyBytes : ℤ
  phase : Phase
  deriving DecidableEq

/-- The part of a reservation that no retained frame uses. -/
def Succession.unused (s : Succession) : ℤ :=
  match s.phase with
  | .reserved => s.noticeBytes + s.replyBytes
  | .noticePending _ size => s.noticeBytes - size + s.replyBytes
  | .replyReady => s.replyBytes
  | .replyPending _ size => s.replyBytes - size

/-- The counters are integers, as the source computes them. -/
structure OutputBuffer where
  maxBytes : ℤ
  frames : List OutputFrame
  bytes : ℤ
  progressItems : ℤ
  progressBytes : ℤ
  claim : Option ℕ
  succession : Option Succession
  deriving DecidableEq

inductive BufferRefusal where
  | capacityExceeded | successionPending | frameMismatch | claimed | alreadyReserved | invalidReserve
  | notReserved | noticeUnavailable | replyUnavailable | claimMismatch
  deriving DecidableEq

abbrev Admitted (α : Type) : Type := Except BufferRefusal α

def progressItemLimit : ℤ := 32
def progressByteLimit : ℤ := 524288

namespace OutputBuffer

def new (maxBytes : ℤ) : OutputBuffer := ⟨maxBytes, [], 0, 0, 0, none, none⟩

def withSuccession (b : OutputBuffer) (s : Option Succession) : OutputBuffer := { b with succession := s }

/-- `commitment`: the retained bytes and the unused part of the reservation. -/
def commitment (b : OutputBuffer) : ℤ :=
  match b.succession with
  | none => b.bytes
  | some s => b.bytes + s.unused

/-- `push_with_ref`, under the reference `make_ref` answers. -/
def pushWithRef (b : OutputBuffer) (ref : ℕ) (bytes : Bytes) (kind : Kind) : OutputBuffer :=
  let b := { b with frames := b.frames ++ [⟨ref, bytes, kind⟩], bytes := b.bytes + bytes.length }
  if kind = .progress then
    { b with progressItems := b.progressItems + 1, progressBytes := b.progressBytes + bytes.length }
  else b

/-- `ordinary_admissible`. -/
def ordinaryAdmissible (b : OutputBuffer) (size : ℤ) : Admitted Unit :=
  match b.succession with
  | none => if b.bytes + size ≤ b.maxBytes then .ok () else .error .capacityExceeded
  | some ⟨notice, reply, .reserved⟩ =>
    if b.bytes + size ≤ b.maxBytes - notice - reply then .ok () else .error .capacityExceeded
  | some _ => .error .successionPending

/-- `enqueue`. -/
def enqueue (b : OutputBuffer) (ref : ℕ) (encoded : Term) : Admitted OutputBuffer :=
  match encodedBinary encoded with
  | none => .error .capacityExceeded
  | some bytes => do
    b.ordinaryAdmissible bytes.length
    .ok (b.pushWithRef ref bytes .ordinary)

/-- `enqueue_progress`. -/
def enqueueProgress (b : OutputBuffer) (ref : ℕ) (encoded : Term) : Admitted (ℕ × OutputBuffer) :=
  match encodedBinary encoded with
  | none => .error .capacityExceeded
  | some bytes =>
    if b.progressItems < progressItemLimit ∧ b.progressBytes + bytes.length ≤ progressByteLimit then do
      b.ordinaryAdmissible bytes.length
      .ok (ref, b.pushWithRef ref bytes .progress)
    else .error .capacityExceeded

/-- The references of the resident progress frames. -/
def progressRefs (b : OutputBuffer) : List ℕ :=
  (b.frames.filter fun f => f.kind = .progress).map OutputFrame.ref

/-- The frames under these references leave. -/
def without (b : OutputBuffer) (refs : List Term) : OutputBuffer :=
  let discarded := b.frames.filter fun f => refTerm f.ref ∈ refs
  let bytes := (discarded.map OutputFrame.size).sum
  { b with
    frames := b.frames.filter fun f => refTerm f.ref ∉ refs
    bytes := b.bytes - bytes
    progressItems := b.progressItems - discarded.length
    progressBytes := b.progressBytes - bytes }

/-- `discard_progress`. -/
def discardProgress (b : OutputBuffer) : Term → Admitted OutputBuffer
  | .list refs =>
    if refs.length ≤ 32 then
      if refs.Nodup ∧ refs.all isReference ∧ ∀ r ∈ refs, r ∈ b.progressRefs.map refTerm then
        match b.claim with
        | some ref => if refTerm ref ∈ refs then .error .claimed else .ok (b.without refs)
        | none => .ok (b.without refs)
      else .error .frameMismatch
    else .error .frameMismatch
  | _ => .error .frameMismatch

/-- The references of the progress frames but the claimed one. -/
def unclaimedRefs (b : OutputBuffer) : List ℕ := b.progressRefs.filter fun r => some r ≠ b.claim

/-- `discard_unclaimed_progress`; a refusal does not match and raises. -/
def discardUnclaimedProgress (b : OutputBuffer) : Option (List ℕ × OutputBuffer) :=
  match b.discardProgress (.list (b.unclaimedRefs.map refTerm)) with
  | .ok output => some (b.unclaimedRefs, output)
  | .error _ => none

/-- `reserve_succession`. -/
def reserveSuccession (b : OutputBuffer) (notice reply : Term) : Admitted OutputBuffer :=
  match b.succession with
  | some _ => .error .alreadyReserved
  | none =>
    match notice, reply with
    | .int n, .int r =>
      if 0 < n ∧ 0 < r then
        if n + r < b.maxBytes ∧ b.bytes ≤ b.maxBytes - (n + r) then
          .ok (b.withSuccession (some ⟨n, r, .reserved⟩))
        else .error .capacityExceeded
      else .error .invalidReserve
    | _, _ => .error .invalidReserve

/-- `release_succession`. -/
def releaseSuccession (b : OutputBuffer) : Admitted OutputBuffer :=
  match b.succession with
  | some ⟨_, _, .reserved⟩ => .ok (b.withSuccession none)
  | none => .error .notReserved
  | some _ => .error .successionPending

/-- `finish_succession`. -/
def finishSuccession (b : OutputBuffer) : Admitted OutputBuffer :=
  match b.succession with
  | some ⟨_, _, .replyReady⟩ => .ok (b.withSuccession none)
  | none => .error .notReserved
  | some _ => .error .successionPending

/-- `enqueue_succession_notice`. -/
def enqueueSuccessionNotice (b : OutputBuffer) (ref : ℕ) (encoded : Term) : Admitted OutputBuffer :=
  match b.succession with
  | some ⟨allowance, reply, .reserved⟩ =>
    match encodedBinary encoded with
    | some bytes =>
      if (bytes.length : ℤ) ≤ allowance ∧ b.bytes + bytes.length ≤ b.maxBytes then
        .ok ((b.pushWithRef ref bytes .notice).withSuccession
          (some ⟨allowance, reply, .noticePending ref bytes.length⟩))
      else .error .capacityExceeded
    | none => .error .capacityExceeded
  | _ => .error .noticeUnavailable

/-- `enqueue_reply`. -/
def enqueueReply (b : OutputBuffer) (s : Succession) (ref : ℕ) (encoded : Term) : Admitted OutputBuffer :=
  match encodedBinary encoded with
  | some bytes =>
    if (bytes.length : ℤ) ≤ s.replyBytes ∧ b.bytes + bytes.length ≤ b.maxBytes then
      .ok ((b.pushWithRef ref bytes .reply).withSuccession
        (some { s with phase := .replyPending ref bytes.length }))
    else .error .capacityExceeded
  | none => .error .capacityExceeded

/-- `enqueue_succession_reply`, under the value of its option. -/
def enqueueSuccessionReply (b : OutputBuffer) (ref : ℕ) (encoded withoutNotice : Term) :
    Admitted OutputBuffer :=
  match b.succession with
  | some ⟨notice, reply, .replyReady⟩ =>
    if withoutNotice = sym "false" then b.enqueueReply ⟨notice, reply, .replyReady⟩ ref encoded
    else .error .replyUnavailable
  | some ⟨notice, reply, .reserved⟩ =>
    if withoutNotice = sym "true" then b.enqueueReply ⟨notice, reply, .reserved⟩ ref encoded
    else .error .replyUnavailable
  | _ => .error .replyUnavailable

/-- `claim`: the head of the queue, with the buffer that is owed its emission; `none` where it is empty. -/
def claimHead (b : OutputBuffer) : Admitted (Option OutputFrame × OutputBuffer) :=
  match b.claim with
  | some _ => .error .claimed
  | none =>
    match b.frames with
    | f :: _ => .ok (some f, { b with claim := some f.ref })
    | [] => .ok (none, b)

/-- `advance_succession`. -/
def advanceSuccession (b : OutputBuffer) (kind : Kind) (ref : ℕ) : OutputBuffer :=
  match b.succession, kind with
  | some ⟨notice, reply, .noticePending pending _⟩, .notice =>
    if pending = ref then b.withSuccession (some ⟨notice, reply, .replyReady⟩) else b
  | some ⟨notice, reply, .replyPending pending _⟩, .reply =>
    if pending = ref then b.withSuccession (some ⟨notice, reply, .replyReady⟩) else b
  | _, _ => b

/-- The head is out. -/
def dropHead (b : OutputBuffer) (f : OutputFrame) (rest : List OutputFrame) : OutputBuffer :=
  let b := { b with frames := rest, bytes := b.bytes - f.bytes.length, claim := none }
  let b :=
    if f.kind = .progress then
      { b with progressItems := b.progressItems - 1, progressBytes := b.progressBytes - f.bytes.length }
    else b
  b.advanceSuccession f.kind f.ref

/-- `emitted`. -/
def emitted (b : OutputBuffer) (frameRef : Term) : Admitted OutputBuffer :=
  match b.claim with
  | some ref =>
    if frameRef = refTerm ref then
      match b.frames with
      | f :: rest => if f.ref = ref then .ok (b.dropHead f rest) else .error .claimMismatch
      | [] => .error .claimMismatch
    else .error .claimMismatch
  | none => .error .claimMismatch

end OutputBuffer

/-! ## a buffer in use -/

inductive BufferOp where
  | enqueue (encoded : Term)
  | enqueueProgress (encoded : Term)
  | discardProgress (refs : Term)
  | discardUnclaimedProgress
  | reserveSuccession (notice reply : Term)
  | releaseSuccession
  | finishSuccession
  | enqueueSuccessionNotice (encoded : Term)
  | enqueueSuccessionReply (encoded withoutNotice : Term)
  | claim
  | emitted (frameRef : Term)

/-- What an operation did; `waived` marks a reply enqueued without a notice. -/
inductive BufferEvent where
  | enqueued (f : OutputFrame) (waived : Bool)
  | discarded (frames : List OutputFrame)
  | reserved
  | emitted (f : OutputFrame)
  deriving DecidableEq

/-- A buffer with the number of references made for it and the log of its operations. -/
structure Line where
  buffer : OutputBuffer
  made : ℕ
  log : List BufferEvent

namespace Line

def start (maxBytes : ℤ) : Line := ⟨.new maxBytes, 0, []⟩

/-- The line after an operation that was admitted or refused. -/
def commit (l : Line) (result : Admitted OutputBuffer) (events : OutputBuffer → List BufferEvent) : Line :=
  match result with
  | .ok b => ⟨b, l.made + 1, l.log ++ events b⟩
  | .error _ => { l with made := l.made + 1 }

/-- The frames at the end of the queue that were not there before. -/
def appended (l : Line) (waived : Bool) (b : OutputBuffer) : List BufferEvent :=
  (b.frames.drop l.buffer.frames.length).map fun f => .enqueued f waived

/-- The frames under these references. -/
def named (l : Line) : Term → List OutputFrame
  | .list refs => l.buffer.frames.filter fun f => refTerm f.ref ∈ refs
  | _ => []

/-- One operation, under a fresh reference. -/
def next (l : Line) : BufferOp → Line
  | .enqueue encoded => l.commit (l.buffer.enqueue l.made encoded) (l.appended false)
  | .enqueueProgress encoded =>
    l.commit ((l.buffer.enqueueProgress l.made encoded).map Prod.snd) (l.appended false)
  | .discardProgress refs => l.commit (l.buffer.discardProgress refs) fun _ => [.discarded (l.named refs)]
  | .discardUnclaimedProgress =>
    match l.buffer.discardUnclaimedProgress with
    | some (refs, b) => l.commit (.ok b) fun _ => [.discarded (l.named (.list (refs.map refTerm)))]
    | none => { l with made := l.made + 1 }
  | .reserveSuccession notice reply =>
    l.commit (l.buffer.reserveSuccession notice reply) fun _ => [.reserved]
  | .releaseSuccession => l.commit l.buffer.releaseSuccession fun _ => []
  | .finishSuccession => l.commit l.buffer.finishSuccession fun _ => []
  | .enqueueSuccessionNotice encoded =>
    l.commit (l.buffer.enqueueSuccessionNotice l.made encoded) (l.appended false)
  | .enqueueSuccessionReply encoded withoutNotice =>
    l.commit (l.buffer.enqueueSuccessionReply l.made encoded withoutNotice)
      (l.appended (decide (withoutNotice = sym "true")))
  | .claim => l.commit (l.buffer.claimHead.map Prod.snd) fun _ => []
  | .emitted frameRef =>
    l.commit (l.buffer.emitted frameRef) fun _ => (l.buffer.frames.take 1).map .emitted

def after (maxBytes : ℤ) (ops : List BufferOp) : Line := ops.foldl next (start maxBytes)

theorem run_after (maxBytes : ℤ) (ops : List BufferOp) :
    System.Run (fun l op l' => l' = next l op) (start maxBytes) ops (after maxBytes ops) := by
  induction ops using List.reverseRecOn with
  | nil => exact .nil
  | append_singleton ops op ih => exact .snoc ih (by simp [after])

end Line

/-! ## what an operation can do -/

section Moves

open OutputBuffer

/-- The change an operation makes to a buffer, under the reference made for it. -/
inductive BufferMove (b : OutputBuffer) (ref : ℕ) : OutputBuffer → List BufferEvent → Prop
  | refused : BufferMove b ref b []
  | ordinary (bytes : Bytes) (hpos : 0 < bytes.length) (h : b.ordinaryAdmissible bytes.length = .ok ()) :
      BufferMove b ref (b.pushWithRef ref bytes .ordinary) [.enqueued ⟨ref, bytes, .ordinary⟩ false]
  | progress (bytes : Bytes) (hpos : 0 < bytes.length) (h : b.ordinaryAdmissible bytes.length = .ok ())
      (hitems : b.progressItems < progressItemLimit)
      (hbytes : b.progressBytes + bytes.length ≤ progressByteLimit) :
      BufferMove b ref (b.pushWithRef ref bytes .progress) [.enqueued ⟨ref, bytes, .progress⟩ false]
  | discard (refs : List Term) (hprogress : ∀ r ∈ refs, r ∈ b.progressRefs.map refTerm)
      (hclaim : ∀ r, b.claim = some r → refTerm r ∉ refs) :
      BufferMove b ref (b.without refs) [.discarded (b.frames.filter fun f => refTerm f.ref ∈ refs)]
  | reserve (notice reply : ℤ) (hs : b.succession = none) (hn : 0 < notice) (hr : 0 < reply)
      (hlt : notice + reply < b.maxBytes) (hle : b.bytes ≤ b.maxBytes - (notice + reply)) :
      BufferMove b ref (b.withSuccession (some ⟨notice, reply, .reserved⟩)) [.reserved]
  | release (notice reply : ℤ) (hs : b.succession = some ⟨notice, reply, .reserved⟩) :
      BufferMove b ref (b.withSuccession none) []
  | finish (notice reply : ℤ) (hs : b.succession = some ⟨notice, reply, .replyReady⟩) :
      BufferMove b ref (b.withSuccession none) []
  | notice (bytes : Bytes) (allowance reply : ℤ) (hpos : 0 < bytes.length)
      (hs : b.succession = some ⟨allowance, reply, .reserved⟩) (hle : (bytes.length : ℤ) ≤ allowance) :
      BufferMove b ref ((b.pushWithRef ref bytes .notice).withSuccession
        (some ⟨allowance, reply, .noticePending ref bytes.length⟩))
        [.enqueued ⟨ref, bytes, .notice⟩ false]
  | reply (bytes : Bytes) (notice allowance : ℤ) (waived : Bool) (hpos : 0 < bytes.length)
      (hs : b.succession = some ⟨notice, allowance, if waived then .reserved else .replyReady⟩)
      (hle : (bytes.length : ℤ) ≤ allowance) :
      BufferMove b ref ((b.pushWithRef ref bytes .reply).withSuccession
        (some ⟨notice, allowance, .replyPending ref bytes.length⟩))
        [.enqueued ⟨ref, bytes, .reply⟩ waived]
  | claim (f : OutputFrame) (rest : List OutputFrame) (hf : b.frames = f :: rest) (hc : b.claim = none) :
      BufferMove b ref { b with claim := some f.ref } []
  | emit (f : OutputFrame) (rest : List OutputFrame) (hf : b.frames = f :: rest) (hc : b.claim = some f.ref) :
      BufferMove b ref (b.dropHead f rest) [.emitted f]

variable {b b' : OutputBuffer} {ref : ℕ}

theorem encodedBinary_eq_some {encoded : Term} {bytes : Bytes} (h : encodedBinary encoded = some bytes) :
    0 < bytes.length := by
  unfold encodedBinary at h
  split at h
  next =>
    split at h
    next hpos => exact Option.some.inj h ▸ hpos
    next => cases h
  next => cases h

@[simp] theorem frames_pushWithRef (b : OutputBuffer) (ref : ℕ) (bytes : Bytes) (kind : Kind) :
    (b.pushWithRef ref bytes kind).frames = b.frames ++ [⟨ref, bytes, kind⟩] := by
  cases kind <;> rfl

theorem enqueue_eq_ok {encoded : Term} (h : b.enqueue ref encoded = .ok b') : ∃ bytes : Bytes,
    0 < bytes.length ∧ b.ordinaryAdmissible bytes.length = .ok () ∧ b' = b.pushWithRef ref bytes .ordinary := by
  unfold enqueue at h
  split at h
  next => cases h
  next bytes he =>
    obtain ⟨_, ha, h⟩ := Except.bind_eq_ok.1 h
    cases h
    exact ⟨bytes, encodedBinary_eq_some he, ha, rfl⟩

theorem enqueueProgress_eq_ok {encoded : Term} {r : ℕ} (h : b.enqueueProgress ref encoded = .ok (r, b')) :
    ∃ bytes : Bytes, 0 < bytes.length ∧ b.ordinaryAdmissible bytes.length = .ok () ∧
      b.progressItems < progressItemLimit ∧ b.progressBytes + bytes.length ≤ progressByteLimit ∧
      b' = b.pushWithRef ref bytes .progress := by
  unfold enqueueProgress at h
  split at h
  next => cases h
  next bytes he =>
    split at h
    next hlim =>
      obtain ⟨_, ha, h⟩ := Except.bind_eq_ok.1 h
      cases h
      exact ⟨bytes, encodedBinary_eq_some he, ha, hlim.1, hlim.2, rfl⟩
    next => cases h

theorem discardProgress_eq_ok {t : Term} (h : b.discardProgress t = .ok b') : ∃ refs, t = .list refs ∧
    (∀ r ∈ refs, r ∈ b.progressRefs.map refTerm) ∧ (∀ r, b.claim = some r → refTerm r ∉ refs) ∧
    b' = b.without refs := by
  unfold discardProgress at h
  split at h
  next refs =>
    split at h
    next =>
      split at h
      next hr =>
        split at h
        next ref hc =>
          split at h
          next => cases h
          next hn =>
            cases h
            exact ⟨refs, rfl, hr.2.2, fun r hr => Option.some.inj (hc.symm.trans hr) ▸ hn, rfl⟩
        next hc =>
          cases h
          exact ⟨refs, rfl, hr.2.2, fun r h => absurd (hc.symm.trans h) (by simp), rfl⟩
      next => cases h
    next => cases h
  next => cases h

theorem discardUnclaimedProgress_eq_some {refs : List ℕ} (h : b.discardUnclaimedProgress = some (refs, b')) :
    refs = b.unclaimedRefs ∧ b.discardProgress (.list (b.unclaimedRefs.map refTerm)) = .ok b' := by
  unfold discardUnclaimedProgress at h
  split at h
  next output ho =>
    obtain ⟨rfl, rfl⟩ := Prod.mk.inj (Option.some.inj h)
    exact ⟨rfl, ho⟩
  next => cases h

theorem reserveSuccession_eq_ok {notice reply : Term} (h : b.reserveSuccession notice reply = .ok b') :
    ∃ n r : ℤ, b.succession = none ∧ 0 < n ∧ 0 < r ∧ n + r < b.maxBytes ∧ b.bytes ≤ b.maxBytes - (n + r) ∧
      b' = b.withSuccession (some ⟨n, r, .reserved⟩) := by
  unfold reserveSuccession at h
  split at h
  next => cases h
  next hs =>
    split at h
    next n r =>
      split at h
      next hpos =>
        split at h
        next hle =>
          cases h
          exact ⟨n, r, hs, hpos.1, hpos.2, hle.1, hle.2, rfl⟩
        next => cases h
      next => cases h
    next => cases h

theorem enqueueSuccessionNotice_eq_ok {encoded : Term} (h : b.enqueueSuccessionNotice ref encoded = .ok b') :
    ∃ (bytes : Bytes) (allowance reply : ℤ), 0 < bytes.length ∧
      b.succession = some ⟨allowance, reply, .reserved⟩ ∧ (bytes.length : ℤ) ≤ allowance ∧
      b' = (b.pushWithRef ref bytes .notice).withSuccession
        (some ⟨allowance, reply, .noticePending ref bytes.length⟩) := by
  unfold enqueueSuccessionNotice at h
  split at h
  next allowance reply hs =>
    split at h
    next bytes he =>
      split at h
      next hle =>
        cases h
        exact ⟨bytes, allowance, reply, encodedBinary_eq_some he, hs, hle.1, rfl⟩
      next => cases h
    next => cases h
  next => cases h

theorem enqueueReply_eq_ok {s : Succession} {encoded : Term} (h : b.enqueueReply s ref encoded = .ok b') :
    ∃ bytes : Bytes, 0 < bytes.length ∧ (bytes.length : ℤ) ≤ s.replyBytes ∧
      b' = (b.pushWithRef ref bytes .reply).withSuccession
        (some { s with phase := .replyPending ref bytes.length }) := by
  unfold enqueueReply at h
  split at h
  next bytes he =>
    split at h
    next hle =>
      cases h
      exact ⟨bytes, encodedBinary_eq_some he, hle.1, rfl⟩
    next => cases h
  next => cases h

theorem enqueueSuccessionReply_eq_ok {encoded option : Term}
    (h : b.enqueueSuccessionReply ref encoded option = .ok b') : ∃ (bytes : Bytes) (notice allowance : ℤ),
      0 < bytes.length ∧ (bytes.length : ℤ) ≤ allowance ∧
      b.succession = some ⟨notice, allowance, if option = sym "true" then .reserved else .replyReady⟩ ∧
      b' = (b.pushWithRef ref bytes .reply).withSuccession
        (some ⟨notice, allowance, .replyPending ref bytes.length⟩) := by
  unfold enqueueSuccessionReply at h
  split at h
  next notice reply hs =>
    split at h
    next ho =>
      obtain ⟨bytes, hpos, hle, rfl⟩ := enqueueReply_eq_ok h
      exact ⟨bytes, notice, reply, hpos, hle, by simp [hs, ho], rfl⟩
    next => cases h
  next notice reply hs =>
    split at h
    next ho =>
      obtain ⟨bytes, hpos, hle, rfl⟩ := enqueueReply_eq_ok h
      exact ⟨bytes, notice, reply, hpos, hle, by simp [hs, ho], rfl⟩
    next => cases h
  next => cases h

theorem claimHead_eq_ok {f : Option OutputFrame} (h : b.claimHead = .ok (f, b')) :
    b' = b ∨ ∃ f rest, b.claim = none ∧ b.frames = f :: rest ∧ b' = { b with claim := some f.ref } := by
  unfold claimHead at h
  split at h
  next => cases h
  next hc =>
    split at h
    next f rest hf =>
      cases h
      exact .inr ⟨f, rest, hc, hf, rfl⟩
    next =>
      cases h
      exact .inl rfl

theorem emitted_eq_ok {t : Term} (h : b.emitted t = .ok b') : ∃ f rest, b.frames = f :: rest ∧
    b.claim = some f.ref ∧ t = refTerm f.ref ∧ b' = b.dropHead f rest := by
  unfold emitted at h
  split at h
  next r hc =>
    split at h
    next ht =>
      split at h
      next f rest hf =>
        split at h
        next hr =>
          cases h
          exact ⟨f, rest, hf, hr ▸ hc, hr ▸ ht, rfl⟩
        next => cases h
      next => cases h
    next => cases h
  next => cases h

theorem releaseSuccession_eq_ok (h : b.releaseSuccession = .ok b') : ∃ notice reply : ℤ,
    b.succession = some ⟨notice, reply, .reserved⟩ ∧ b' = b.withSuccession none := by
  unfold releaseSuccession at h
  split at h
  next notice reply hs =>
    cases h
    exact ⟨notice, reply, hs, rfl⟩
  next => cases h
  next => cases h

theorem finishSuccession_eq_ok (h : b.finishSuccession = .ok b') : ∃ notice reply : ℤ,
    b.succession = some ⟨notice, reply, .replyReady⟩ ∧ b' = b.withSuccession none := by
  unfold finishSuccession at h
  split at h
  next notice reply hs =>
    cases h
    exact ⟨notice, reply, hs, rfl⟩
  next => cases h
  next => cases h

/-- **Every operation makes one of the moves**, and logs it. -/
theorem Line.next_moves (l : Line) (op : BufferOp) : ∃ events,
    BufferMove l.buffer l.made (l.next op).buffer events ∧ (l.next op).log = l.log ++ events ∧
      (l.next op).made = l.made + 1 := by
  have of_commit : ∀ {result : Admitted OutputBuffer} {events : OutputBuffer → List BufferEvent},
      (∀ b, result = .ok b → BufferMove l.buffer l.made b (events b)) → ∃ es,
        BufferMove l.buffer l.made (l.commit result events).buffer es ∧
          (l.commit result events).log = l.log ++ es ∧ (l.commit result events).made = l.made + 1 := by
    intro result events h
    cases result with
    | ok b => exact ⟨events b, h b rfl, rfl, rfl⟩
    | error e => exact ⟨[], .refused, by simp [commit], rfl⟩
  have appended_push : ∀ (waived : Bool) (bytes : Bytes) (kind : Kind) {b : OutputBuffer},
      b.frames = (l.buffer.pushWithRef l.made bytes kind).frames →
        l.appended waived b = [.enqueued ⟨l.made, bytes, kind⟩ waived] := by
    intro waived bytes kind b hb
    simp [appended, hb]
  cases op with
  | enqueue encoded =>
    refine of_commit fun b hb => ?_
    obtain ⟨bytes, hpos, ha, rfl⟩ := enqueue_eq_ok hb
    rw [appended_push false bytes .ordinary rfl]
    exact .ordinary bytes hpos ha
  | enqueueProgress encoded =>
    refine of_commit fun b hb => ?_
    cases hp : l.buffer.enqueueProgress l.made encoded with
    | error e => simp [hp, Except.map] at hb
    | ok p =>
      obtain ⟨r, b'⟩ := p
      obtain ⟨bytes, hpos, ha, hi, hl, he⟩ := enqueueProgress_eq_ok hp
      obtain rfl : b' = b := by simpa [hp, Except.map] using hb
      rw [he, appended_push false bytes .progress rfl]
      exact .progress bytes hpos ha hi hl
  | discardProgress refs =>
    refine of_commit fun b hb => ?_
    obtain ⟨rs, rfl, hr, hc, rfl⟩ := discardProgress_eq_ok hb
    exact .discard rs hr hc
  | discardUnclaimedProgress =>
    cases hd : l.buffer.discardUnclaimedProgress with
    | none => exact ⟨[], by simpa [next, hd] using .refused, by simp [next, hd], by simp [next, hd]⟩
    | some p =>
      obtain ⟨refs, b⟩ := p
      obtain ⟨rfl, ho⟩ := discardUnclaimedProgress_eq_some hd
      obtain ⟨rs, hrs, hr, hc, rfl⟩ := discardProgress_eq_ok ho
      obtain rfl : l.buffer.unclaimedRefs.map refTerm = rs := by simpa using hrs
      simp only [next, hd]
      refine of_commit fun b hb => ?_
      obtain rfl := Except.ok.inj hb
      exact .discard _ hr hc
  | reserveSuccession notice reply =>
    refine of_commit fun b hb => ?_
    obtain ⟨n, r, hs, hn, hr, hlt, hle, rfl⟩ := reserveSuccession_eq_ok hb
    exact .reserve n r hs hn hr hlt hle
  | releaseSuccession =>
    refine of_commit fun b hb => ?_
    obtain ⟨n, r, hs, rfl⟩ := releaseSuccession_eq_ok hb
    exact .release n r hs
  | finishSuccession =>
    refine of_commit fun b hb => ?_
    obtain ⟨n, r, hs, rfl⟩ := finishSuccession_eq_ok hb
    exact .finish n r hs
  | enqueueSuccessionNotice encoded =>
    refine of_commit fun b hb => ?_
    obtain ⟨bytes, allowance, reply, hpos, hs, hle, rfl⟩ := enqueueSuccessionNotice_eq_ok hb
    rw [appended_push false bytes .notice (b := withSuccession _ _) rfl]
    exact .notice bytes allowance reply hpos hs hle
  | enqueueSuccessionReply encoded option =>
    refine of_commit fun b hb => ?_
    obtain ⟨bytes, notice, allowance, hpos, hle, hs, rfl⟩ := enqueueSuccessionReply_eq_ok hb
    rw [appended_push _ bytes .reply (b := withSuccession _ _) rfl]
    exact .reply bytes notice allowance _ hpos (by simpa using hs) hle
  | claim =>
    refine of_commit fun b hb => ?_
    cases hp : l.buffer.claimHead with
    | error e => simp [hp, Except.map] at hb
    | ok p =>
      obtain ⟨f, b'⟩ := p
      obtain rfl : b' = b := by simpa [hp, Except.map] using hb
      rcases claimHead_eq_ok hp with he | ⟨f, rest, hc, hf, he⟩
      · rw [he]
        exact .refused
      · rw [he]
        exact .claim f rest hf hc
  | emitted t =>
    refine of_commit fun b hb => ?_
    obtain ⟨f, rest, hf, hc, -, rfl⟩ := emitted_eq_ok hb
    rw [hf]
    exact .emit f rest hf hc

end Moves

end Loopex.Daemon
