import Loopex.Erlang.Sha256
import Loopex.Erlang.ExternalFormat
import Loopex.System.Framing

/-!
# The transaction log

A frame is a magic prefix, the length of the payload, a digest of those two, a digest of the payload and
the payload, which is the map of one transaction in the external term format.

* `Log.encode`, `Log.decodeBytes` — writing one frame, reading a captured image;
* `Log.reads`, `Log.sound` — the reader reads back what `encode` writes and nothing else.

`binary_to_term` raises on an atom the runtime does not know: `SafeRead` is what it makes of some bytes.
-/

namespace Loopex.Store.Log

open Loopex.Erlang Loopex.Erlang.Term Loopex.System

/-- `LXST\x02`. -/
def magic : Bytes := [76, 88, 83, 84, 2]

def digestBytes : ℕ := 32
def headerBytes : ℕ := magic.length + 4 + digestBytes * 2
def maxFrameBytes : ℕ := 4 * 1048576
def maxLogBytes : ℕ := 256 * 1048576

inductive LogError where
  | storeFrameTooLarge
  | storeLogTooLarge (size limit : ℕ)
  | storeSchemaUnavailable (module : Bytes) (reason : Term)

/-- The digest in the header of a payload of some length. -/
def headerDigest (size : ℕ) : Bytes := sha256 (magic ++ be 4 size)

/-- The bytes of a frame with some payload. -/
def frameOf (payload : Bytes) : Bytes :=
  magic ++ (be 4 payload.length ++ (headerDigest payload.length ++ (sha256 payload ++ payload)))

/-- `encode`. -/
def encode (frame : Term) : Except LogError Bytes :=
  if (termToBinary frame).length ≤ maxFrameBytes then .ok (frameOf (termToBinary frame))
  else .error .storeFrameTooLarge

/-! ## decoding -/

/-- `binary_to_term(_, [safe, used])`, or nothing where it raises. -/
abbrev SafeRead : Type := Bytes → Option (Term × ℕ)

/-- The fields of a header at the head of some bytes. -/
def sizeOf (b : Bytes) : ℕ := ofBe ((b.drop magic.length).take 4)

def headerDigestOf (b : Bytes) : Bytes := (b.drop (magic.length + 4)).take digestBytes

def payloadDigestOf (b : Bytes) : Bytes := (b.drop (magic.length + 4 + digestBytes)).take digestBytes

/-- The payload behind a header. -/
def payloadOf (b : Bytes) : Bytes := (b.drop headerBytes).take (sizeOf b)

/-- `possible_header_prefix?`. -/
def possibleHeaderPrefix (b : Bytes) : Bool :=
  if b.length < magic.length then magic.take b.length = b
  else if b.take magic.length = magic then
    if magic.length + 4 + digestBytes ≤ b.length then
      sizeOf b ≤ maxFrameBytes && headerDigestOf b = headerDigest (sizeOf b)
    else true
  else false

def isMap : Term → Bool
  | .map _ => true
  | _ => false

/-- `decode_payload`. -/
def decodePayload (read : SafeRead) (payload : Bytes) : Option Term :=
  match payload with
  | 131 :: 116 :: _ =>
    match read payload with
    | some (frame, used) =>
      if isMap frame = true ∧ used = payload.length ∧ termToBinary frame = payload then some frame else none
    | none => none
  | _ => none

/-- The clauses of `decode` on non-empty bytes: the first frame, or why there is none. -/
def readFrame (read : SafeRead) (b : Bytes) : Found Term :=
  if b.length < headerBytes then
    if possibleHeaderPrefix b then .torn else .corrupt
  else if b.take magic.length = magic then
    if headerDigestOf b ≠ headerDigest (sizeOf b) then .corrupt
    else if sizeOf b > maxFrameBytes then .corrupt
    else if (b.drop headerBytes).length < sizeOf b then .torn
    else if payloadDigestOf b = sha256 (payloadOf b) then
      match decodePayload read (payloadOf b) with
      | some frame => .item frame (headerBytes + sizeOf b)
      | none => .corrupt
    else .corrupt
  else .corrupt

theorem readFrame_item {read : SafeRead} {b : Bytes} {frame : Term} {n : ℕ}
    (h : readFrame read b = .item frame n) :
    b.take magic.length = magic ∧ headerDigestOf b = headerDigest (sizeOf b) ∧ sizeOf b ≤ maxFrameBytes ∧
      payloadDigestOf b = sha256 (payloadOf b) ∧ decodePayload read (payloadOf b) = some frame ∧
      n = headerBytes + sizeOf b ∧ n ≤ b.length := by
  unfold readFrame at h
  split at h
  · split at h <;> cases h
  split at h <;> [skip; cases h]
  next hl hm =>
  split at h <;> [cases h; skip]
  next hd =>
  split at h <;> [cases h; skip]
  next hs =>
  split at h <;> [cases h; skip]
  next hr =>
  split at h <;> [skip; cases h]
  next hp =>
  split at h <;> [skip; cases h]
  next frame' hf =>
  obtain ⟨rfl, rfl⟩ : frame' = frame ∧ headerBytes + sizeOf b = n := by simpa using h
  rw [List.length_drop] at hr
  exact ⟨hm, not_not.1 hd, by omega, hp, hf, rfl, by omega⟩

/-- The reader of frames. -/
def reader (read : SafeRead) : Reader UInt8 Term where
  read := readFrame read
  pos h := by
    obtain ⟨-, -, -, -, -, rfl, -⟩ := readFrame_item h
    simp [headerBytes, magic]

/-- The tail of an image, with the evidence of a torn one. -/
inductive ImageTail where
  | complete
  | torn (offset size : ℕ) (digest : Bytes)
  | corrupt (offset : ℕ)
  deriving DecidableEq

/-- The evidence of a torn tail is the length and the digest of the image. -/
def evidence (b : Bytes) : Tail → ImageTail
  | .complete => .complete
  | .torn offset => .torn offset b.length (sha256 b)
  | .corrupt offset => .corrupt offset

/-- `decode_bounded`. -/
def decodeBounded (read : SafeRead) (b : Bytes) : List Term × ImageTail :=
  let (frames, tail) := scan (reader read) b 0 []
  (frames, evidence b tail)

/-- `decode_bytes`; `load` is what `load_envelope_atom_modules` makes readable. -/
def decodeBytes (load : Except LogError SafeRead) (b : Bytes) : Except LogError (List Term × ImageTail) :=
  if b.length ≤ maxLogBytes then do
    let read ← load
    .ok (decodeBounded read b)
  else .error (.storeLogTooLarge b.length maxLogBytes)

theorem decodeBytes_eq_ok {read : SafeRead} {b : Bytes} {frames : List Term} {tail : ImageTail} :
    decodeBytes (.ok read) b = .ok (frames, tail) ↔
      b.length ≤ maxLogBytes ∧ ∃ end', scan (reader read) b 0 [] = (frames, end') ∧ tail = evidence b end' := by
  unfold decodeBytes
  split
  · next hl =>
    simp only [bind, Except.bind, decodeBounded, Except.ok.injEq, Prod.mk.injEq, hl, true_and]
    constructor
    · rintro ⟨rfl, rfl⟩
      exact ⟨_, rfl, rfl⟩
    · rintro ⟨end', h, rfl⟩
      rw [h]
      exact ⟨rfl, rfl⟩
  · next hl => simp [hl]

/-! ## the fields of a written header -/

@[simp] theorem magic_length : magic.length = 5 := rfl

@[simp] theorem headerBytes_eq : headerBytes = 73 := rfl

theorem encode_eq_ok {frame : Term} {e : Bytes} :
    encode frame = .ok e ↔ (termToBinary frame).length ≤ maxFrameBytes ∧ e = frameOf (termToBinary frame) := by
  unfold encode
  split <;> simp_all [eq_comm]

section

variable (payload rest : Bytes)

@[simp] theorem headerDigest_length (size : ℕ) : (headerDigest size).length = digestBytes := by
  simp [headerDigest, digestBytes]

@[simp] theorem frameOf_length : (frameOf payload).length = headerBytes + payload.length := by
  simp only [frameOf, List.length_append, be_length, headerDigest_length, sha256_length, magic_length,
    headerBytes_eq, digestBytes]
  omega

/-- The parts of a frame, one after the other. -/
theorem frameOf_append : frameOf payload ++ rest = magic ++ (be 4 payload.length ++
    (headerDigest payload.length ++ (sha256 payload ++ (payload ++ rest)))) := by
  simp [frameOf, List.append_assoc]

/-- A part behind another. -/
theorem drop_part {a b : Bytes} {n : ℕ} (k : ℕ) (h : a.length = n) : (a ++ b).drop (n + k) = b.drop k := by
  subst h
  rw [List.drop_append, List.drop_eq_nil_of_le (Nat.le_add_right _ _), List.nil_append, Nat.add_sub_cancel_left]

@[simp] theorem take_magic : (frameOf payload ++ rest).take magic.length = magic := by
  rw [frameOf_append, List.take_left]

theorem sizeOf_frameOf (h : payload.length ≤ maxFrameBytes) :
    sizeOf (frameOf payload ++ rest) = payload.length := by
  have hlt : payload.length < 256 ^ 4 := Nat.lt_of_le_of_lt h (by decide)
  rw [sizeOf, frameOf_append, List.drop_left, List.take_left' (be_length 4 _), ofBe_be hlt]

theorem headerDigestOf_frameOf : headerDigestOf (frameOf payload ++ rest) = headerDigest payload.length := by
  rw [headerDigestOf, frameOf_append, drop_part 4 rfl, List.drop_left' (be_length 4 _),
    List.take_left' (headerDigest_length _)]

theorem payloadDigestOf_frameOf : payloadDigestOf (frameOf payload ++ rest) = sha256 payload := by
  rw [payloadDigestOf, frameOf_append, Nat.add_assoc, drop_part _ rfl, drop_part _ (be_length 4 _),
    List.drop_left' (headerDigest_length _), List.take_left' (show _ = digestBytes from sha256_length _)]

theorem payloadOf_frameOf (h : payload.length ≤ maxFrameBytes) :
    payloadOf (frameOf payload ++ rest) = payload := by
  have hheader : headerBytes = magic.length + (4 + (digestBytes + digestBytes)) := rfl
  rw [payloadOf, sizeOf_frameOf payload rest h, frameOf_append, hheader, drop_part _ rfl,
    drop_part _ (be_length 4 _), drop_part _ (headerDigest_length _),
    List.drop_left' (show _ = digestBytes from sha256_length _), List.take_left]

end

/-! ## the fields of a cut header -/

section

variable {b : Bytes} {n : ℕ}

theorem take_magic_take (h : magic.length ≤ n) : (b.take n).take magic.length = b.take magic.length := by
  rw [List.take_take, Nat.min_eq_left h]

theorem sizeOf_take (h : magic.length + 4 ≤ n) : sizeOf (b.take n) = sizeOf b := by
  rw [sizeOf, List.drop_take, List.take_take, Nat.min_eq_left (by omega), sizeOf]

theorem headerDigestOf_take (h : magic.length + 4 + digestBytes ≤ n) :
    headerDigestOf (b.take n) = headerDigestOf b := by
  rw [headerDigestOf, List.drop_take, List.take_take, Nat.min_eq_left (by omega), headerDigestOf]

end

/-! ## what the reader reads -/

/-- A decoder reads back the maps of a class that fit a frame. -/
def ReadsBack (read : SafeRead) (stored : Term → Prop) : Prop :=
  ∀ frame, stored frame → (termToBinary frame).length ≤ maxFrameBytes →
    read (termToBinary frame) = some (frame, (termToBinary frame).length)

/-- An encoded map of a class. -/
def Writes (stored : Term → Prop) (frame : Term) (e : Bytes) : Prop :=
  stored frame ∧ isMap frame = true ∧ encode frame = .ok e

theorem decodePayload_termToBinary {read : SafeRead} {stored : Term → Prop} (hr : ReadsBack read stored)
    {frame : Term} (hc : stored frame) (hm : isMap frame = true)
    (hl : (termToBinary frame).length ≤ maxFrameBytes) :
    decodePayload read (termToBinary frame) = some frame := by
  have hread := hr frame hc hl
  cases frame with
  | map kvs =>
    have hshape : termToBinary (.map kvs) = 131 :: 116 :: (be 4 kvs.length ++ encodeEntries kvs) := rfl
    unfold decodePayload
    split
    · rw [hread]
      simp [isMap]
    · next hne => exact absurd hshape (hne _)
  | _ => simp [isMap] at hm

theorem decodePayload_eq_some {read : SafeRead} {payload : Bytes} {frame : Term}
    (h : decodePayload read payload = some frame) : isMap frame = true ∧ termToBinary frame = payload := by
  unfold decodePayload at h
  split at h <;> [skip; cases h]
  split at h <;> [skip; cases h]
  split at h <;> [skip; cases h]
  next hc =>
  cases h
  exact ⟨hc.1, hc.2.2⟩

/-- A part of a header that is not the whole of it is the start of one. -/
theorem possibleHeaderPrefix_take {payload : Bytes} {n : ℕ} (h : payload.length ≤ maxFrameBytes)
    (hn : n < headerBytes) : possibleHeaderPrefix ((frameOf payload).take n) = true := by
  have hl : ((frameOf payload).take n).length = n := by
    rw [List.length_take, frameOf_length]
    omega
  have hm := take_magic payload []
  have hs := sizeOf_frameOf payload [] h
  have hd := headerDigestOf_frameOf payload []
  rw [List.append_nil] at hm hs hd
  unfold possibleHeaderPrefix
  rw [hl]
  split
  · next hlt =>
    have : (frameOf payload).take n = magic.take n := by
      rw [← hm, List.take_take, Nat.min_eq_left (by omega)]
    rw [this]
    exact decide_eq_true rfl
  next hge =>
  rw [take_magic_take (by omega), hm, if_pos rfl]
  split
  · next hlong => simp [sizeOf_take (b := frameOf payload) (n := n) (by omega), headerDigestOf_take hlong, hs, hd, h]
  · rfl

/-- **The reader reads back what `encode` writes**, and takes any cut of it for torn. -/
theorem reads {read : SafeRead} {stored : Term → Prop} (hr : ReadsBack read stored) :
    Reads (reader read) (Writes stored) where
  whole := by
    rintro frame e ⟨hc, hm, he⟩ rest
    obtain ⟨hl, rfl⟩ := encode_eq_ok.1 he
    have hlong : ¬ (frameOf (termToBinary frame) ++ rest).length < headerBytes := by
      rw [List.length_append, frameOf_length]
      omega
    have hrest : ¬ ((frameOf (termToBinary frame) ++ rest).drop headerBytes).length <
        (termToBinary frame).length := by
      rw [List.length_drop, List.length_append, frameOf_length]
      omega
    have hpayload := decodePayload_termToBinary hr hc hm hl
    simp only [reader, readFrame, if_neg hlong, take_magic, if_true, sizeOf_frameOf _ rest hl,
      headerDigestOf_frameOf, payloadDigestOf_frameOf, payloadOf_frameOf _ rest hl, hpayload, if_neg hrest,
      ne_eq, not_true_eq_false, if_false, if_neg (Nat.not_lt.2 hl), frameOf_length, gt_iff_lt]
  cut := by
    rintro frame e n ⟨hc, hm, he⟩ hpos hn
    obtain ⟨hl, rfl⟩ := encode_eq_ok.1 he
    rw [frameOf_length] at hn
    have hlen : ((frameOf (termToBinary frame)).take n).length = n := by
      rw [List.length_take, frameOf_length]
      omega
    have hmagic := take_magic (termToBinary frame) []
    have hsize := sizeOf_frameOf (termToBinary frame) [] hl
    have hdigest := headerDigestOf_frameOf (termToBinary frame) []
    rw [List.append_nil] at hmagic hsize hdigest
    simp only [reader, readFrame, hlen]
    split
    · next hshort => rw [possibleHeaderPrefix_take hl hshort, if_pos rfl]
    next hlong =>
    rw [headerBytes_eq] at hlong hn
    have hrest : (((frameOf (termToBinary frame)).take n).drop headerBytes).length < (termToBinary frame).length := by
      rw [List.length_drop, hlen, headerBytes_eq]
      omega
    simp only [take_magic_take (b := frameOf (termToBinary frame)) (n := n) (by simp; omega), hmagic, if_true,
      sizeOf_take (b := frameOf (termToBinary frame)) (n := n) (by simp; omega), hsize,
      headerDigestOf_take (b := frameOf (termToBinary frame)) (n := n) (by simp [digestBytes]; omega), hdigest,
      ne_eq, not_true_eq_false, if_false, gt_iff_lt, if_neg (Nat.not_lt.2 hl), if_pos hrest]

/-- The parts of an accepted header are those `encode` writes. -/
theorem take_eq_frameOf {b : Bytes} (hl : headerBytes + sizeOf b ≤ b.length) (hm : b.take magic.length = magic)
    (hd : headerDigestOf b = headerDigest (sizeOf b)) (hp : payloadDigestOf b = sha256 (payloadOf b)) :
    b.take (headerBytes + sizeOf b) = frameOf (payloadOf b) := by
  have hsize : (payloadOf b).length = sizeOf b := by
    rw [payloadOf, List.length_take, List.length_drop]
    omega
  have hbe : be 4 (sizeOf b) = (b.drop magic.length).take 4 := by
    apply be_ofBe
    rw [List.length_take, List.length_drop, magic_length]
    rw [headerBytes_eq] at hl
    omega
  have hparts : headerBytes + sizeOf b =
      magic.length + (4 + (digestBytes + (digestBytes + sizeOf b))) := by
    simp only [headerBytes, magic_length]
    omega
  have hsplit : ∀ (c : Bytes) (m k : ℕ), c.take (m + k) = c.take m ++ (c.drop m).take k := fun c m k =>
    List.take_add
  rw [hparts, hsplit, hsplit, hsplit, hsplit, hm, ← hbe, List.drop_drop, List.drop_drop, List.drop_drop, frameOf,
    hsize]
  rw [headerDigestOf] at hd
  rw [payloadDigestOf] at hp
  rw [hd, hp, payloadOf]
  rfl

/-- **The reader accepts only what `encode` writes.** -/
theorem sound (read : SafeRead) :
    Sound (reader read) fun frame e => isMap frame = true ∧ encode frame = .ok e := by
  intro b frame n h
  obtain ⟨hm, hd, hs, hp, hf, rfl, hn⟩ := readFrame_item h
  obtain ⟨hmap, hbytes⟩ := decodePayload_eq_some hf
  refine ⟨hn, hmap, encode_eq_ok.2 ⟨?_, ?_⟩⟩
  · rw [hbytes, payloadOf, List.length_take, List.length_drop]
    omega
  · rw [take_eq_frameOf hn hm hd hp, hbytes]

end Loopex.Store.Log
