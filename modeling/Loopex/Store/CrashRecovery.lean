import Loopex.Store.Replay
import Loopex.Store.Opening

/-!
# Crash recovery

A live Store appends one frame for every commit, and a crash cuts the log somewhere.  What is left decodes
to the frames before the cut, is never taken for corrupt, and replays to the state after just those commits.

* `decode_image`, `decode_cut` — decoding a log and a cut log;
* `Recovers`, `crash_recovery` — **recovery of every cut within the limit of a log**;
* `Orphans` — successions of a session that does not exist, each of which commits one frame more.
-/

namespace Loopex.Store

open Loopex.Erlang Loopex.Erlang.Term Loopex.Runtime Loopex.System

variable {access : StructAccess} {read : Log.SafeRead} {presented : List (List (Term × Term))}
  {commits : List Commit}

/-! ## decoding -/

theorem boundary_commits (commits : List Commit) (n : ℕ) :
    boundary (commits.map Commit.bytes) n = (image (commits.take n)).length := by
  rw [boundary, image, List.map_take]

theorem image_take (commits : List Commit) (n : ℕ) :
    (image commits).take (image (commits.take n)).length = image (commits.take n) := by
  have hsplit : image commits = image (commits.take n) ++ image (commits.drop n) := by
    simp only [image]
    rw [← List.flatten_append, ← List.map_append, List.take_append_drop]
  rw [hsplit, List.take_left]

/-- A log within the limit decodes completely. -/
theorem decode_image (hread : Log.ReadsBack read Stored) (h : Run (Serves access) [] presented commits)
    (hl : (image commits).length ≤ Log.maxLogBytes) :
    Log.decodeBytes (.ok read) (image commits) = .ok (frames commits, .complete) :=
  Log.decodeBytes_eq_ok.2 ⟨hl, _, scan_flatten (Log.reads hread) (serves_writes h), rfl⟩

/-- The tail of the log of some commits, of which the first `n` are whole. -/
def tailOf (commits : List Commit) (cut n : ℕ) : Log.ImageTail :=
  let left := (image commits).take cut
  let offset := (image (commits.take n)).length
  if offset = left.length then .complete else .torn offset left.length (sha256 left)

/-- A cut log decodes to the frames before the cut. -/
theorem decode_cut (hread : Log.ReadsBack read Stored) (h : Run (Serves access) [] presented commits)
    {cut : ℕ} (hl : ((image commits).take cut).length ≤ Log.maxLogBytes) :
    Log.decodeBytes (.ok read) ((image commits).take cut) =
      .ok (frames (commits.take (whole cut (commits.map Commit.bytes))),
        tailOf commits cut (whole cut (commits.map Commit.bytes))) := by
  have hscan := scan_take (Log.reads hread) (serves_writes h) cut 0 []
  rw [← image, boundary_commits, List.reverse_nil, List.nil_append, Nat.zero_add, frames, ← List.map_take] at hscan
  refine Log.decodeBytes_eq_ok.2 ⟨hl, _, hscan, ?_⟩
  unfold tailOf
  split
  · next he => exact if_pos he
  · next he => exact if_neg he

/-! ## recovery -/

/-- The recovery of a log cut at a position: `n` is the number of frames before the cut. -/
structure Recovers (access : StructAccess) (read : Log.SafeRead) (commits : List Commit) (cut n : ℕ) :
    Prop where
  inside : n ≤ commits.length
  before : (image (commits.take n)).length ≤ cut
  most : ∀ m ≤ commits.length, (image (commits.take m)).length ≤ cut → m ≤ n
  decoded : Log.decodeBytes (.ok read) ((image commits).take cut) =
    .ok (frames (commits.take n), tailOf commits cut n)
  truncated : Log.decodeBytes (.ok read) (((image commits).take cut).take (image (commits.take n)).length) =
    .ok (frames (commits.take n), .complete)
  replayed : ∃ least, ∀ fuel ≥ least,
    replay access fuel (frames (commits.take n)) = .ok (.ok (live (commits.take n)))

theorem recovers (hread : Log.ReadsBack read Stored) (h : Run (Serves access) [] presented commits) {cut : ℕ}
    (hl : ((image commits).take cut).length ≤ Log.maxLogBytes) :
    Recovers access read commits cut (whole cut (commits.map Commit.bytes)) := by
  have hbefore := boundary_whole_le cut (commits.map Commit.bytes)
  rw [boundary_commits] at hbefore
  obtain ⟨presented', hrun⟩ := serves_take h (whole cut (commits.map Commit.bytes))
  refine ⟨?_, hbefore, fun m hm hle => ?_, decode_cut hread h hl, ?_, replay_serves hrun⟩
  · simpa using whole_le cut (commits.map Commit.bytes)
  · exact le_whole (by simpa using hm) (by rw [boundary_commits]; exact hle)
  · rw [List.take_take, Nat.min_eq_left hbefore, image_take]
    refine decode_image hread hrun ?_
    rw [← image_take, List.length_take]
    rw [List.length_take] at hl
    omega

/-- The bytes are the encoded frames, one after the other. -/
def Concatenates (decoded : List Term) (b : Bytes) : Prop :=
  ∃ es, List.Forall₂ (fun frame e => Log.encode frame = .ok e) decoded es ∧ b = es.flatten

theorem concatenates {b : Bytes} {decoded : List Term}
    (h : Log.decodeBytes (.ok read) b = .ok (decoded, .complete)) : Concatenates decoded b := by
  obtain ⟨-, tail, hscan, ht⟩ := Log.decodeBytes_eq_ok.1 h
  obtain rfl : tail = .complete := by
    cases tail with
    | complete => rfl
    | torn offset => cases ht
    | corrupt offset => cases ht
  obtain ⟨new, es, rfl, hes, rfl⟩ := scan_complete (Log.sound read) hscan
  exact ⟨es, hes.imp fun _ _ he => he.2, rfl⟩

/-- **Crash recovery refines the live Store**: any cut of its log that is within the limit of a log recovers,
and whatever decodes completely is the concatenation of what it decodes to. -/
theorem crash_recovery (access : StructAccess) (read : Log.SafeRead) (hread : Log.ReadsBack read Stored) :
    (∀ presented commits cut, Run (Serves access) [] presented commits →
      ((image commits).take cut).length ≤ Log.maxLogBytes → ∃ n, Recovers access read commits cut n) ∧
    ∀ b decoded, Log.decodeBytes (.ok read) b = .ok (decoded, .complete) → Concatenates decoded b :=
  ⟨fun _ _ _ h hl => ⟨_, recovers hread h hl⟩, fun _ _ h => concatenates h⟩

/-! ## the decoder of the runtime -/

/-- The runtime knows the atoms of the Store's vocabulary. -/
def knowsEnvelope (known : Bytes → Bool) : Prop := ∀ name ∈ envelopeNames, known (utf8 name) = true

theorem readsBack_safe {known : Bytes → Bool} (hk : knowsEnvelope known) :
    Log.ReadsBack (binaryToTermSafe known) Stored := by
  intro frame hs hl
  have hlong : (termToBinary frame).length < 2 ^ 32 := Nat.lt_of_le_of_lt hl (by decide)
  rw [binaryToTermSafe, binaryToTerm_termToBinary hs.plain hlong, Option.filter_some, if_pos]
  refine List.all_eq_true.2 fun a ha => ?_
  obtain ⟨name, hn, rfl⟩ := hs.atoms a ha
  exact hk name hn

/-! ## successions of an absent session -/

/-- Every frame takes at least its header, and no more than a header and the largest payload. -/
theorem image_length (h : Run (Serves access) [] presented commits) :
    Log.headerBytes * commits.length ≤ (image commits).length ∧
      (image commits).length ≤ (Log.headerBytes + Log.maxFrameBytes) * commits.length := by
  have hbytes : ∀ c ∈ commits, Log.headerBytes ≤ c.bytes.length ∧
      c.bytes.length ≤ Log.headerBytes + Log.maxFrameBytes := by
    intro c hc
    obtain ⟨i, hi, rfl⟩ := List.getElem_of_mem hc
    obtain ⟨-, -, he⟩ := (List.forall₂_iff_get.1 (serves_writes h)).2 i (by simpa [frames] using hi) (by simpa using hi)
    rw [List.get_eq_getElem, List.get_eq_getElem, List.getElem_map] at he
    obtain ⟨hl, he⟩ := Log.encode_eq_ok.1 he
    rw [he, Log.frameOf_length]
    exact ⟨Nat.le_add_right _ _, Nat.add_le_add_left hl _⟩
  clear h
  induction commits with
  | nil => simp [image]
  | cons c cs ih =>
    obtain ⟨hc, hcs⟩ := List.forall_mem_cons.1 hbytes
    have := ih hcs
    simp only [image, List.map_cons, List.flatten_cons, List.length_append, List.length_cons, Nat.mul_add_one] at this ⊢
    omega

namespace Orphans

def sessionId : Identifier := ⟨[115], by decide, by decide⟩

def domain : Identifier := ⟨[100], by decide, by decide⟩

def txId (i : ℕ) : Identifier := ⟨be 8 i, by simp, by simp [maxIdentifierBytes]⟩

/-- The `i`-th succession. -/
def advance (i : ℕ) : AdvanceOwner := ⟨sessionId, domain, txId i, 0, 0, sessionId, none⟩

def transaction (i : ℕ) : Transaction := .seal (.advanceOwner (advance i))

def frame (i : ℕ) : Frame := bareFrame (transaction i) (.map (transaction i).entries) (.notCommitted .sessionNotFound)

theorem txId_inj {i j : ℕ} (hi : i < 2 ^ 64) (hj : j < 2 ^ 64) (h : txId i = txId j) : i = j := by
  have hbytes : be 8 i = be 8 j := congrArg Identifier.bytes h
  rw [← ofBe_be (show i < 256 ^ 8 by omega), ← ofBe_be (show j < 256 ^ 8 by omega), hbytes]

theorem fits (i : ℕ) : (encodeFields (Body.advanceOwner (advance i)).fields).length ≤ maxMutationBytes := by
  refine Body.fits ?_
  simp only [Body.values, advance, List.append_nil, List.forall_mem_cons]
  exact ⟨encode_identifier_le _, encode_identifier_le _, encode_identifier_le _, by decide, by decide,
    encode_identifier_le _, by simp⟩

theorem validates (i : ℕ) : validateTransaction (.map (transaction i).entries) = .ok (transaction i) :=
  validateTransaction_entries (build_seal (fits i)) trivial

/-- The transaction is stored data. -/
theorem stored (i : ℕ) : Stored (.map (transaction i).entries) := by
  have hfields := (Body.advanceOwner (advance i)).stored_fields (by simp)
  refine stored_atomMap _ (fieldNames_mem .advanceOwner false) (transaction i).names ?_
  rw [Transaction.fields, List.forall_mem_append]
  refine ⟨hfields, ?_⟩
  simp only [List.forall_mem_cons]
  exact ⟨Stored.inherited.binary _, Stored.inherited.binary _, by simp⟩

/-- What the Store knows after `i` of them. -/
structure Known (S : State) (i : ℕ) : Prop where
  absent : S.sessions.lookup sessionId = none
  unknown : ∀ j, i ≤ j → j < 2 ^ 64 → (S.scopedResolutions sessionId).lookup (domain, txId j) = none

theorem known_new : Known State.new 0 := ⟨rfl, fun _ _ _ => rfl⟩

/-- The next of them is answered as new. -/
theorem prepare_advance {S : State} {i : ℕ} (h : Known S i) (hi : i < 2 ^ 64) :
    prepare access 0 S (transaction i).entries =
      .ok (.new (S.orphaned (transaction i) sessionId domain) (frame i) (.notCommitted .sessionNotFound)) := by
  have hn : S.retainedResolution (transaction i).body.scope = none :=
    congrArg (Option.map Entry.retained) (h.unknown i le_rfl hi)
  rw [prepare_of_validate (validates i), hn]
  simp only [linearize, transaction, Transaction.seal, linearizeAdvance, advance, h.absent]
  rfl

theorem known_orphaned {S : State} {i : ℕ} (h : Known S i) (hi : i < 2 ^ 64) :
    Known (S.orphaned (transaction i) sessionId domain) (i + 1) := by
  refine ⟨h.absent, fun j hij hj => ?_⟩
  have hne : (domain, txId j) ≠ (domain, (transaction i).body.txId) := by
    intro he
    have := txId_inj hj hi (congrArg Prod.snd he)
    omega
  have hold := h.unknown j (by omega) hj
  have habsent : (S.orphaned (transaction i) sessionId domain).sessions.lookup sessionId = none := h.absent
  rw [State.scopedResolutions, h.absent] at hold
  rw [State.scopedResolutions, habsent]
  simp only [State.orphaned, AList.lookup_insert, Option.getD_some, putResolution, AList.lookup_insert_ne hne]
  exact hold

theorem encode_entries (i : ℕ) : (encode (.map (transaction i).entries)).length ≤ 2000000 := by
  have hnames : ∀ name ∈ (transaction i).fields.map Prod.fst, (encode (sym name)).length ≤ 40 := by
    rw [Transaction.names]
    exact (by decide +kernel : ∀ name ∈ TransactionType.fieldNames .advanceOwner false ++ canonicalFieldNames,
      (encode (sym name)).length ≤ 40)
  have hle := encode_atomMap_le (transaction i).apart hnames
  have hcanonical : (transaction i).canonicalRecordBytes.length ≤ 1048576 := fits i
  have hdigest : (transaction i).canonicalMutationDigest.length = 32 := sha256_length _
  have hbody : (transaction i).body.fields = [("type", sym "advance_owner"), ("session_id", sessionId.term),
      ("mutation_domain", domain.term), ("tx_id", (txId i).term), ("expected_owner_epoch", .int 0),
      ("expected_journal_version", .int 0), ("proposed_owner_incarnation_id", sessionId.term)] := rfl
  have htype : (encode (sym "advance_owner")).length = 15 := by decide +kernel
  have hzero : (encode (.int 0)).length = 2 := by decide
  have hsession := encode_identifier_length sessionId
  have hdomain := encode_identifier_length domain
  have htx := encode_identifier_length (txId i)
  refine Nat.le_trans hle ?_
  simp only [Transaction.fields, hbody, List.map_append, List.map_cons, List.map_nil, List.sum_append,
    List.sum_cons, List.sum_nil, encode_binary_length, htype, hzero, hdigest]
  clear hle
  omega

theorem encodes (i : ℕ) : ∃ bytes, Log.encode (frame i).toTerm = .ok bytes := by
  refine ⟨_, Log.encode_eq_ok.2 ⟨?_, rfl⟩⟩
  have hnames : ∀ name ∈ ["schema_version", "transition_id", "transaction", "resolution", "records", "events"],
      (encode (sym name)).length ≤ 40 := by decide +kernel
  have hle : (encode (frame i).toTerm).length ≤ _ := encode_atomMap_le Frame.names_apart hnames
  have htransaction := encode_entries i
  have hresolution : (encode (Resolution.notCommitted .sessionNotFound).toTerm).length ≤ 200 := by decide +kernel
  have hid : (encode (sym "session_journal_advance_owner")).length ≤ 200 := by decide +kernel
  have hversion : (encode (.int schemaVersion)).length = 2 := by decide
  have hnil : (encode (.list [])).length = 1 := by decide
  simp only [frame, bareFrame, transaction, Transaction.seal, Body.type, TransactionType.transition,
    List.map_cons, List.map_nil, List.sum_cons, List.sum_nil, hversion, hnil] at hle htransaction
  rw [termToBinary, List.length_cons, Log.maxFrameBytes]
  simp only [frame, bareFrame, transaction, Transaction.seal, Body.type]
  omega

/-- Any number of them is a run, with one commit for each. -/
theorem run (n : ℕ) (hn : n ≤ 2 ^ 64) : ∃ presented commits, Run (Serves access) [] presented commits ∧
    commits.length = n ∧ Known (live commits) n := by
  induction n with
  | zero => exact ⟨[], [], .nil, rfl, known_new⟩
  | succ n ih =>
    obtain ⟨presented, commits, hrun, hlen, hknown⟩ := ih (by omega)
    obtain ⟨bytes, hbytes⟩ := encodes n
    refine ⟨_, _, hrun.snoc (.new (stored n).genuine (prepare_advance hknown (by omega)) hbytes), ?_, ?_⟩
    · rw [List.length_append, hlen, List.length_singleton]
    · rw [live_append]
      exact known_orphaned hknown (by omega)

end Orphans

/-- The decoder of a runtime that knows the vocabulary and nothing else. -/
def envelopeRead : Log.SafeRead := binaryToTermSafe fun a => envelopeNames.any fun name => utf8 name = a

theorem readsBack_envelopeRead : Log.ReadsBack envelopeRead Stored :=
  readsBack_safe fun name hn => List.any_eq_true.2 ⟨name, hn, by simp⟩

/-- A log of two commits recovers from every cut. -/
theorem crash_recovery_two : ∃ presented commits, Run (Serves noAccess) [] presented commits ∧
    commits.length = 2 ∧ ∀ cut, ∃ n, Recovers noAccess envelopeRead commits cut n := by
  obtain ⟨presented, commits, hrun, hlen, -⟩ := Orphans.run 2 (by decide)
  refine ⟨presented, commits, hrun, hlen, fun cut => ?_⟩
  refine (crash_recovery noAccess envelopeRead readsBack_envelopeRead).1 presented commits cut hrun ?_
  have hle := (image_length hrun).2
  rw [hlen] at hle
  rw [List.length_take]
  exact Nat.le_trans (Nat.min_le_right _ _) (Nat.le_trans hle (by decide))

/-- The log of four million successions of an absent session is over the limit, and is not decoded at all. -/
theorem crash_recovery_too_large : ∃ presented commits, Run (Serves noAccess) [] presented commits ∧
    ∀ load, Log.decodeBytes load ((image commits).take (image commits).length) =
      .error (.storeLogTooLarge (image commits).length Log.maxLogBytes) := by
  obtain ⟨presented, commits, hrun, hlen, -⟩ := Orphans.run 4000000 (by decide)
  refine ⟨presented, commits, hrun, fun load => ?_⟩
  have hle := (image_length hrun).1
  rw [hlen] at hle
  have hlong : ¬ (image commits).length ≤ Log.maxLogBytes :=
    Nat.not_le.2 (Nat.lt_of_lt_of_le (by decide) hle)
  rw [List.take_length, Log.decodeBytes, if_neg hlong]

end Loopex.Store
