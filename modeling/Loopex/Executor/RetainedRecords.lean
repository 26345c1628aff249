import Loopex.Executor.RecordTypes
import Loopex.Executor.Ledger

/-!
# Retained records have one codec

Bytes that are decoded are the bytes the value is encoded to, and a value that is encoded decodes to
itself.  The decoder does not raise, but for one kind of bytes: where it reads a generation, it asks a
struct for the epoch before it looks at the keys, and the module of the struct may not answer.

* `Struck` — the bytes of such a struct; `StruckRecord` — a record of a type that reads them
* `decode_raises` — `decode` raises on these bytes and no others
* `decode_encoded` — the round trip, at any later instant
* `Ledger.decodeBytes_eq_ok`, `generation_readers` — the ledger reads the same generations
* `retained_records` — the codec of retained records
-/

namespace Loopex.Executor

open Loopex.Erlang Loopex.Erlang.Term Loopex.Store

variable {R : Runtime} {v : Term} {kvs : List (Term × Term)} {bytes : Bytes} {now : ℤ} {x : Exn}

/-! ## bytes that are not answered for -/

variable (R) in
/-- The bytes of a struct whose module raises when it is asked for the epoch of a generation. -/
def Struck (bytes : Bytes) : Prop :=
  bytes.length ≤ generationCeiling ∧ uncompressed bytes = true ∧
    ∃ kvs n name x, R.binaryToTerm bytes = some (.map kvs, n) ∧
      lookup (sym "__struct__") kvs = some (.atom name) ∧
      R.structGet name (.map kvs) (str "executor_epoch") = .raise x ∧ x ≠ .badArgument

variable (R) in
/-- A field of a record holds struck bytes. -/
def StruckField (v : Term) (key : String) : Prop := ∃ bytes, field v (str key) = .binary bytes ∧ Struck R bytes

variable (R) in
/-- A candidate that is valid up to a generation of struck bytes. -/
def StruckCandidate (v : Term) : Prop :=
  ∃ kvs, v = .map kvs ∧ exactKeys kvs (keysOf (candidateFields R)) = true ∧
    (∀ f ∈ (candidateFields R).take 2, f.2 (field v (str f.1)) = .ok ()) ∧
    (StruckField R v "source_generation_bytes" ∨
      generationBytes R (field v (str "source_generation_bytes")) = .ok () ∧
        StruckField R v "destination_generation_bytes")

variable (R) in
/-- An intent that is valid up to a struck candidate. -/
def StruckIntent (v : Term) : Prop :=
  ∃ kvs, v = .map kvs ∧ exactKeys kvs (keysOf (intentFields R)) = true ∧
    (∀ f ∈ (intentFields R).take 9, f.2 (field v (str f.1)) = .ok ()) ∧
    ∃ before w after, field v (str "generations") = .list (before ++ w :: after) ∧
      (before ++ w :: after).length ≤ 128 ∧ (∀ u ∈ before, candidate R u = .ok ()) ∧ StruckCandidate R w

variable (R) in
/-- The bytes of a record that is struck where it reads a generation. -/
def StruckRecord : RecordType → Bytes → Prop
  | .generation, bytes => Struck R bytes
  | .candidate, bytes => bytes.length ≤ RecordType.candidate.ceiling ∧ uncompressed bytes = true ∧
      ∃ v n, R.binaryToTerm bytes = some (v, n) ∧ StruckCandidate R v
  | .intent, bytes => bytes.length ≤ RecordType.intent.ceiling ∧ uncompressed bytes = true ∧
      ∃ v n, R.binaryToTerm bytes = some (v, n) ∧ StruckIntent R v
  | _, _ => False

/-! ## generations -/

/-- What follows the keys of a generation does not raise. -/
theorem generation_eq_raise : generation R v = .raise x ↔ ∃ kvs name, v = .map kvs ∧
    lookup (sym "__struct__") kvs = some (.atom name) ∧
    R.structGet name (.map kvs) (str "executor_epoch") = .raise x := by
  refine ⟨fun h => ?_, ?_⟩
  · unfold generation at h
    split at h
    · next kvs =>
      rcases Check.bind_eq_raise.1 h with h | ⟨epoch, -, h⟩
      · rw [get_map] at h
        split at h
        · next name hname => exact ⟨kvs, name, rfl, hname, h⟩
        · cases h
      · -- the keys are exact, so the map is no struct and every field is there to be read
        rcases Check.bind_eq_raise.1 h with h | ⟨_, hexact, h⟩
        · cases Check.require_ne_raise h
        have hrec := record_of_exactKeys (Check.require_eq_ok.1 hexact)
        simp only [hrec.get, Check.ok_bind] at h
        refine absurd h (calm_equal.bind (fun _ _ => ?_) x)
        split
        · refine calm_require.bind fun _ _ => ?_
          split
          · exact calm_require.bind fun _ _ => calm_equal.bind fun _ _ => calm_hexDigest
          · exact calm_error
        · exact calm_error
    · cases h
  · rintro ⟨kvs, name, rfl, hname, h⟩
    rw [generation, get_map, hname]
    exact Check.bind_eq_raise.2 (.inl h)

/-- **A generation raises on struck bytes.** -/
theorem decode_generation_raises :
    (∃ x, decodeWith R (generation R) generationCeiling bytes = .raise x) ↔ Struck R bytes := by
  simp only [decodeWith_eq_raise, generation_eq_raise]
  refine ⟨?_, ?_⟩
  · rintro ⟨x, hlen, htag, v, n, hr, ⟨kvs, name, rfl, hname, h⟩, hne⟩
    exact ⟨hlen, htag, kvs, n, name, x, hr, hname, h, hne⟩
  · rintro ⟨hlen, htag, kvs, n, name, x, hr, hname, h, hne⟩
    exact ⟨x, hlen, htag, _, n, hr, ⟨kvs, name, rfl, hname, h⟩, hne⟩

theorem generationBytes_raises {key : String} :
    (∃ x, generationBytes R (field v (str key)) = .raise x) ↔ StruckField R v key := by
  simp only [generationBytes, Check.verdict_eq_raise, StruckField]
  cases hf : field v (str key) with
  | binary b => simp [decodeGeneration, decode_generation_raises]
  | _ => simp [decodeGeneration]

/-- The generation in a record never raises what would be rescued. -/
theorem generationBytes_ne_badArgument (h : generationBytes R v = .raise x) : x ≠ .badArgument := by
  rw [generationBytes, Check.verdict_eq_raise] at h
  unfold decodeGeneration at h
  split at h
  · obtain ⟨-, -, _, _, -, -, hne⟩ := decodeWith_eq_raise.1 h
    exact hne
  · cases h

/-! ## candidates and intents -/

theorem candidate_raises : (∃ x, candidate R v = .raise x ∧ x ≠ .badArgument) ↔ StruckCandidate R v := by
  refine ⟨?_, ?_⟩
  · rintro ⟨x, h, -⟩
    obtain ⟨kvs, rfl, hexact, h | ⟨hok, h⟩⟩ := closed_eq_raise.1 h
    · refine ⟨kvs, rfl, hexact, ?_⟩
      rw [candidateFields] at h
      simp only [forM_cons_eq_raise] at h
      rcases h with h | ⟨hroot, h | ⟨hidentity, h⟩⟩
      · exact absurd h (calm_relative x)
      · exact absurd h (calm_text _ x)
      have htake : ∀ f ∈ (candidateFields R).take 2, f.2 (field (.map kvs) (str f.1)) = .ok () := by
        simp only [candidateFields, List.take_succ_cons, List.take_zero, List.forall_mem_cons]
        exact ⟨hroot, hidentity, by simp⟩
      refine ⟨htake, ?_⟩
      rcases h with h | ⟨hsource, h | ⟨-, h | ⟨-, h | ⟨-, h | ⟨-, h⟩⟩⟩⟩⟩
      · exact .inl (generationBytes_raises.1 ⟨x, h⟩)
      · exact .inr ⟨hsource, generationBytes_raises.1 ⟨x, h⟩⟩
      · exact absurd h (calm_hexDigest x)
      · exact absurd h (calm_placement x)
      · exact absurd h (calm_hexDigest x)
      · cases h
    · exact absurd h (calm_candidateRelations (record_of_exactKeys hexact) hok x)
  · rintro ⟨kvs, rfl, hexact, htake, h⟩
    simp only [candidateFields, List.take_succ_cons, List.take_zero, List.forall_mem_cons] at htake
    obtain ⟨hroot, hidentity, -⟩ := htake
    obtain ⟨x, hx⟩ : ∃ x, (candidateFields R).forM (fun f => f.2 (field (.map kvs) (str f.1))) = .raise x ∧
        x ≠ .badArgument := by
      simp only [candidateFields, forM_cons_eq_raise]
      rcases h with h | ⟨hsource, h⟩
      · obtain ⟨x, hx⟩ := generationBytes_raises.2 h
        exact ⟨x, .inr ⟨hroot, .inr ⟨hidentity, .inl hx⟩⟩, generationBytes_ne_badArgument hx⟩
      · obtain ⟨x, hx⟩ := generationBytes_raises.2 h
        exact ⟨x, .inr ⟨hroot, .inr ⟨hidentity, .inr ⟨hsource, .inl hx⟩⟩⟩, generationBytes_ne_badArgument hx⟩
    exact ⟨x, closed_eq_raise.2 ⟨kvs, rfl, hexact, .inl hx.1⟩, hx.2⟩

theorem intent_raises : (∃ x, intent R v = .raise x ∧ x ≠ .badArgument) ↔ StruckIntent R v := by
  have hquiet : ∀ f ∈ (intentFields R).take 9, Quiet f.2 := by
    simp only [intentFields, List.take_succ_cons, List.take_zero]
    simp
  have hsplit : intentFields R = (intentFields R).take 9 ++
      [("generations", sorted R (candidate R) 128 (some "relative_root"))] := rfl
  refine ⟨?_, ?_⟩
  · rintro ⟨x, h, hne⟩
    obtain ⟨kvs, rfl, hexact, h | ⟨hok, h⟩⟩ := closed_eq_raise.1 h
    · refine ⟨kvs, rfl, hexact, ?_⟩
      obtain ⟨before, f, after, hfs, hbefore, hf⟩ := forM_eq_raise.1 h
      by_cases hmem : f ∈ (intentFields R).take 9
      · exact absurd (hquiet f hmem _ x hf) hne
      -- only the last field is left
      obtain ⟨rfl, rfl⟩ : before = (intentFields R).take 9 ∧
          f = ("generations", sorted R (candidate R) 128 (some "relative_root")) := by
        rcases List.eq_nil_or_concat after with rfl | ⟨after, g, rfl⟩
        · obtain ⟨htake, hlast⟩ := List.append_inj' (hsplit.symm.trans hfs) rfl
          exact ⟨htake.symm, (List.cons.inj hlast).1.symm⟩
        · have hfs := hsplit.symm.trans hfs
          rw [List.concat_eq_append, ← List.cons_append, ← List.append_assoc] at hfs
          exact absurd (by rw [(List.append_inj' hfs rfl).1]; simp) hmem
      refine ⟨hbefore, ?_⟩
      have hf : sorted R (candidate R) 128 (some "relative_root") (field (.map kvs) (str "generations")) = .raise x := hf
      rcases sorted_raise record_of_closed hf with rfl | ⟨xs, pre, w, post, hxs, hlen, rfl, hpre, hw⟩
      · exact absurd rfl hne
      · exact ⟨pre, w, post, hxs, hlen, hpre, candidate_raises.1 ⟨x, hw, hne⟩⟩
    · exact absurd h (calm_intentRelations (record_of_exactKeys hexact) hok x)
  · rintro ⟨kvs, rfl, hexact, htake, before, w, after, hxs, hlen, hbefore, hw⟩
    obtain ⟨x, hw, hne⟩ := candidate_raises.2 hw
    refine ⟨x, closed_eq_raise.2 ⟨kvs, rfl, hexact, .inl (forM_eq_raise.2 ⟨_, _, [], hsplit, htake, ?_⟩)⟩, hne⟩
    simp only [hxs, sorted]
    exact Check.bind_eq_raise.2 (.inr ⟨(), by simpa using hlen,
      Check.bind_eq_raise.2 (.inl (forM_eq_raise.2 ⟨before, w, after, rfl, hbefore, hw⟩))⟩)

/-- **`decode` raises on struck records**, and on no other bytes. -/
theorem decode_raises {type : RecordType} :
    (∃ x, type.decode R now bytes = .raise x) ↔ StruckRecord R type bytes := by
  by_cases h1 : type = .generation
  · subst h1
    exact decode_generation_raises
  by_cases h2 : type = .candidate
  · subst h2
    simp only [RecordType.decode, decodeWith_eq_raise, StruckRecord]
    refine ⟨?_, ?_⟩
    · rintro ⟨x, hlen, htag, v, n, hr, h⟩
      exact ⟨hlen, htag, v, n, hr, candidate_raises.1 ⟨x, h⟩⟩
    · rintro ⟨hlen, htag, v, n, hr, h⟩
      obtain ⟨x, h⟩ := candidate_raises.2 h
      exact ⟨x, hlen, htag, v, n, hr, h⟩
  by_cases h3 : type = .intent
  · subst h3
    simp only [RecordType.decode, decodeWith_eq_raise, StruckRecord]
    refine ⟨?_, ?_⟩
    · rintro ⟨x, hlen, htag, v, n, hr, h⟩
      exact ⟨hlen, htag, v, n, hr, intent_raises.1 ⟨x, h⟩⟩
    · rintro ⟨hlen, htag, v, n, hr, h⟩
      obtain ⟨x, h⟩ := intent_raises.2 h
      exact ⟨x, hlen, htag, v, n, hr, h⟩
  have hstruck : ¬ StruckRecord R type bytes := by
    cases type <;> first | exact id | contradiction
  refine iff_of_false ?_ hstruck
  rintro ⟨x, h⟩
  obtain ⟨-, -, v, n, -, h, hne⟩ := decodeWith_eq_raise.1 h
  exact hne (quiet_valid h1 h2 h3 v x h)

/-! ## the round trip -/

variable (R) in
/-- The window of an invocation ends before the clock does. -/
def Fits (later : ℤ) (v : Term) : Prop :=
  ∃ work grace : ℤ, field v (str "work_ms") = .int work ∧ field v (str "cleanup_grace_ms") = .int grace ∧
    later + toNative R (work + cleanupWindow grace) ≤ maxNative

theorem lookup_filter {key : Term} {keys : List Term} (h : key ∈ keys) :
    lookup key (kvs.filter fun e => e.1 ∈ keys) = lookup key kvs := by
  induction kvs with
  | nil => rfl
  | cons e kvs ih =>
    obtain ⟨k, w⟩ := e
    by_cases hk : k ∈ keys
    · rw [List.filter_cons_of_pos (by simpa using hk), lookup, lookup, ih]
    · rw [List.filter_cons_of_neg (by simpa using hk), lookup, if_neg (by rintro rfl; exact hk h), ih]

theorem field_takeKeys {key : Term} {keys : List Term} (h : key ∈ keys) : field (takeKeys keys v) key = field v key := by
  cases v with
  | map kvs => rw [takeKeys, field, lookup_filter h, field]
  | _ => rfl

/-- The limits of an invocation at a later instant. -/
theorem limits_later {later : ℤ} {l : Limits} (h : limits R now v = .ok l) :
    (∃ l, limits R later v = .ok l) ↔ Fits R later v := by
  obtain ⟨bytes, henc, h⟩ := Check.bind_eq_ok.1 h
  obtain ⟨hv, work, grace, hwork, hgrace⟩ := limitsRecord_ok (encodeWith_eq_ok.1 henc).1
  simp only [hv.get, hwork, hgrace, Check.ok_bind, integerOf, Check.bind_eq_ok, Check.require_eq_ok,
    decide_eq_true_eq] at h
  obtain ⟨_, hmax, _, hnative, -⟩ := h
  simp only [limits, henc, hv.get, hwork, hgrace, Check.ok_bind, integerOf, Check.bind_eq_ok, Check.require_eq_ok,
    decide_eq_true_eq, Fits]
  refine ⟨?_, ?_⟩
  · rintro ⟨l, _, -, _, -, _, hlater, -⟩
    exact ⟨work, grace, rfl, rfl, hlater⟩
  · rintro ⟨work', grace', hw, hg, hlater⟩
    cases hw
    cases hg
    exact ⟨_, (), hmax, (), hnative, (), hlater, rfl⟩

/-- An invocation that is valid at one instant, at another one. -/
theorem invocation_later {later : ℤ} (h : invocation R now v = .ok ()) :
    invocation R later v = .ok () ↔ Fits R later v := by
  obtain ⟨⟨kvs, rfl, hexact⟩, hfields, hrel⟩ := closed_eq_ok.1 h
  have hrec := record_of_exactKeys hexact
  simp only [invocationRelations, hrec.get, Check.ok_bind, Check.bind_eq_ok, Check.require_eq_ok,
    Check.verdict_eq_ok] at hrel
  obtain ⟨_, hauthority, l, hl⟩ := hrel
  have hrelations : invocationRelations R later (.map kvs) = .ok () ↔ Fits R later (.map kvs) := by
    simp only [invocationRelations, hrec.get, Check.ok_bind, Check.bind_eq_ok, Check.require_eq_ok,
      Check.verdict_eq_ok, limits_later hl, hauthority, Fits]
    rw [field_takeKeys (by simp), field_takeKeys (by simp)]
    constructor
    · rintro ⟨-, -, h⟩
      exact h
    · exact fun h => ⟨(), trivial, h⟩
  rw [← hrelations]
  exact ⟨fun h => (closed_eq_ok.1 h).2.2, fun h => closed_eq_ok.2 ⟨⟨kvs, rfl, hexact⟩, hfields, h⟩⟩

/-- The validity of a record at another instant. -/
theorem valid_later {later : ℤ} {type : RecordType} (h : type.valid R now v = .ok ()) :
    type.valid R later v = .ok () ↔ (type = .invocation → Fits R later v) := by
  by_cases ht : type = .invocation
  · subst ht
    exact (invocation_later h).trans ⟨fun h _ => h, fun h => h rfl⟩
  · have heq : type.valid R later = type.valid R now := by
      cases type <;> first | rfl | contradiction
    rw [heq]
    exact iff_of_true h fun hi => absurd hi ht

theorem ceiling_lt (type : RecordType) : type.ceiling < 2 ^ 32 := by
  cases type <;> decide

/-- **What is encoded decodes to itself**, at any later instant that an invocation still fits in. -/
theorem decode_encoded {type : RecordType} (hwf : WellFormed v) (h : type.encode R now v = .ok bytes) (later : ℤ) :
    type.decode R later bytes = .ok v ↔ (type = .invocation → Fits R later v) := by
  obtain ⟨hvalid, hlen, rfl⟩ := encodeWith_eq_ok.1 h
  have hceil := ceiling_lt type
  have hdata := admits_valid now type v hwf hvalid
  have hread := R.roundTrip hdata.1 (by omega) fun a ha => R.literals a (hdata.2 a ha)
  have htag : uncompressed (termToBinary v) = true := by
    obtain ⟨tag, rest, he, hne⟩ := encode_tag v
    simp [termToBinary, he, uncompressed, hne]
  rw [← valid_later hvalid, RecordType.decode, decodeWith_eq_ok, encodeWith_eq_ok]
  constructor
  · rintro ⟨-, -, -, -, h, -⟩
    exact h
  · exact fun h => ⟨hlen, htag, _, hread, h, hlen, rfl⟩

/-! ## the two readers of a generation -/

namespace Ledger

variable {kind : Term} {keys kinds : List Term} {ceiling : ℕ}

theorem hexDigest_eq (t : Term) : hexDigest t = Check.require (isHexDigest t) () := by
  cases t with
  | binary b =>
    simp only [hexDigest, isHexDigest, isDigest, Bool.decide_and, Bool.decide_eq_true]
  | _ => rfl

theorem kindKeys_eq_some (h : kindKeys kind = some keys) :
    sym "__struct__" ∉ keys ∧ kind ∈ [generationKind, markerKind, refusalKind, openKind] := by
  unfold kindKeys at h
  split at h
  · cases h
    exact ⟨by decide, by simp_all⟩
  split at h
  · cases h
    exact ⟨by decide, by simp_all⟩
  split at h
  · cases h
    exact ⟨by decide, by simp_all⟩
  split at h
  · cases h
    exact ⟨by decide, by simp_all⟩
  · cases h

theorem exactKindKeys_ok (h : exactKindKeys kvs = true) : Record (.map kvs) ∧
    (lookup (sym "ledger_kind") kvs).getD nil ∈ [generationKind, markerKind, refusalKind, openKind] := by
  unfold exactKindKeys at h
  split at h
  · next keys hkeys =>
    obtain ⟨hstruct, hkind⟩ := kindKeys_eq_some hkeys
    have hperm := List.isPerm_iff.1 h
    have hnone : lookup (sym "__struct__") kvs = none := lookup_eq_none.2 fun e he heq =>
      hstruct (hperm.mem_iff.1 (List.mem_map.2 ⟨e, he, heq⟩))
    exact ⟨⟨kvs, rfl, by simp [isStruct, hnone]⟩, hkind⟩
  · cases h

theorem calm_validAttemptFields (hv : Record v) : Calm (validAttemptFields R v) := by
  simp only [validAttemptFields, hv.get, Check.ok_bind]
  refine calm_require.bind fun _ _ => calm_require.bind fun _ _ => calm_require.bind fun _ _ => ?_
  split
  · exact calm_require
  · exact calm_error

theorem calm_validRecordFields (h : exactKindKeys kvs = true) : Calm (validRecordFields R kvs) := by
  obtain ⟨hv, hkind⟩ := exactKindKeys_ok h
  simp only [validRecordFields]
  split
  · simp only [validGenerationFields, hv.get, Check.ok_bind]
    split
    · refine calm_require.bind fun _ _ => ?_
      split
      · exact calm_require.bind fun _ _ => calm_equal.bind fun _ _ => calm_require
      · exact calm_error
    · exact calm_error
  split
  · simp only [validMarkerFields, hv.get, Check.ok_bind]
    exact (calm_validAttemptFields hv).bind fun _ _ => calm_require.bind fun _ _ => calm_require
  split
  · simp only [validRefusalFields, hv.get, Check.ok_bind]
    exact (calm_validAttemptFields hv).bind fun _ _ => calm_require
  split
  · simp only [validOpenFields, hv.get, Check.ok_bind]
    refine calm_require.bind fun _ _ => calm_require.bind fun _ _ => calm_require.bind fun _ _ => ?_
    split
    · exact calm_require.bind fun _ _ => calm_require
    · exact calm_error
  · simp_all

theorem validateRecord_ne_raise (v : Term) : validateRecord R v kinds ceiling ≠ .raise x := by
  unfold validateRecord
  split
  · rw [Ne, Check.orError_eq_raise]
    refine calm_require.bind (fun _ _ => calm_require.bind fun _ hexact => ?_) x
    exact (calm_validRecordFields (Check.require_eq_ok.1 hexact)).bind fun _ _ => calm_require.bind fun _ _ => calm_ok
  · intro h
    cases h

/-- **The ledger's reader does not raise.** -/
theorem decodeBytes_ne_raise (kind : Term) : decodeBytes R bytes kind ≠ .raise x := by
  have hcaptured : ∀ kinds ceiling, decodeCapturedRecord R bytes kinds ceiling ≠ .raise x := by
    intro kinds ceiling h
    unfold decodeCapturedRecord at h
    split at h
    · cases h
    split at h
    · rcases Check.bind_eq_raise.1 h with h | ⟨_, -, h⟩
      · exact validateRecord_ne_raise _ h
      · rcases Check.bind_eq_raise.1 h with h | ⟨_, -, h⟩
        · exact Check.require_ne_raise h
        · cases h
    · cases h
  unfold decodeBytes
  split
  · exact hcaptured _ _
  split
  · exact hcaptured _ _
  · intro h
    cases h

theorem validateRecord_eq_ok {b : Bytes} : validateRecord R (.map kvs) kinds ceiling = .ok b ↔
    (lookup (sym "ledger_kind") kvs).getD nil ∈ kinds ∧ exactKindKeys kvs = true ∧
      validRecordFields R kvs = .ok () ∧ (termToBinary (.map kvs)).length ≤ ceiling ∧ termToBinary (.map kvs) = b := by
  simp [validateRecord, Check.bind_eq_ok, Unique.exists_iff]

theorem safeDecode_eq_some : safeDecode R bytes ceiling = some v ↔
    (∃ rest, bytes = 131 :: 116 :: rest) ∧ bytes.length ≤ ceiling ∧ R.binaryToTerm bytes = some (v, bytes.length) := by
  unfold safeDecode
  split
  · next rest =>
    split
    · next hlen =>
      cases hr : R.binaryToTerm (131 :: 116 :: rest) with
      | none => simp
      | some r =>
        obtain ⟨w, used⟩ := r
        simp only [Option.some.injEq, Prod.mk.injEq, List.cons.injEq, true_and, exists_eq', hlen]
        split
        · next h => simp only [Option.some.injEq, h, and_true]
        · next h => exact iff_of_false (by simp) fun h' => h h'.2
    · next hlen => exact iff_of_false (by simp) fun h => hlen h.2.1
  · next hne =>
    refine iff_of_false (by simp) ?_
    rintro ⟨⟨rest, rfl⟩, -⟩
    exact hne rest rfl

/-- What the ledger reads of some kinds. -/
theorem decodeCapturedRecord_eq_ok : decodeCapturedRecord R bytes kinds ceiling = .ok v ↔
    bytes.length ≤ ceiling ∧ (∃ rest, bytes = 131 :: 116 :: rest) ∧ R.binaryToTerm bytes = some (v, bytes.length) ∧
      ∃ kvs, v = .map kvs ∧ validateRecord R (.map kvs) kinds ceiling = .ok bytes := by
  unfold decodeCapturedRecord
  split
  · next hlen => exact iff_of_false (by simp) fun h => absurd h.1 (by omega)
  · next hlen =>
    have hlen : bytes.length ≤ ceiling := by omega
    split
    · next kvs hs =>
      obtain ⟨hmap, -, hr⟩ := safeDecode_eq_some.1 hs
      simp only [Check.bind_eq_ok, Check.require_eq_ok, decide_eq_true_eq, Check.ok.injEq, hlen, hmap, hr,
        Option.some.injEq, Prod.mk.injEq, and_true, true_and]
      refine ⟨?_, ?_⟩
      · rintro ⟨b, hb, _, rfl, rfl⟩
        exact ⟨rfl, kvs, rfl, hb⟩
      · rintro ⟨rfl, kvs', heq, hb⟩
        cases heq
        exact ⟨bytes, hb, (), rfl, rfl⟩
    · next hne =>
      refine iff_of_false (by simp) ?_
      rintro ⟨-, hmap, hr, kvs, rfl, -⟩
      exact hne kvs (safeDecode_eq_some.2 ⟨hmap, hlen, hr⟩)

/-- **What the ledger reads is written as it was read.** -/
theorem decodeBytes_encoded (h : decodeBytes R bytes kind = .ok v) : termToBinary v = bytes := by
  have hcaptured : ∀ kinds ceiling, decodeCapturedRecord R bytes kinds ceiling = .ok v → termToBinary v = bytes := by
    intro kinds ceiling h
    obtain ⟨-, -, -, kvs, rfl, hb⟩ := decodeCapturedRecord_eq_ok.1 h
    exact (validateRecord_eq_ok.1 hb).2.2.2.2
  unfold decodeBytes at h
  split at h
  · exact hcaptured _ _ h
  split at h
  · exact hcaptured _ _ h
  · cases h

theorem exactKindKeys_generation (ho : Ordered kvs)
    (hkind : (lookup (sym "ledger_kind") kvs).getD nil = generationKind) :
    exactKindKeys kvs = true ↔ exactKeys kvs generationKeys = true := by
  have hkeys : kindKeys generationKind = some generationKeys := rfl
  rw [exactKindKeys, hkind, hkeys]
  refine ⟨fun h => ?_, fun h => List.isPerm_iff.2 (perm_of_exactKeys h (by decide))⟩
  have hperm := List.isPerm_iff.1 h
  have hexact : exactKindKeys kvs = true := by rw [exactKindKeys, hkind, hkeys]; exact h
  obtain ⟨⟨_, heq, hstruct⟩, -⟩ := exactKindKeys_ok hexact
  cases heq
  simp only [exactKeys, hstruct, Bool.not_false, Bool.true_and, Bool.and_eq_true, decide_eq_true_eq, List.all_eq_true]
  refine ⟨by rw [← hperm.length_eq, List.length_map], fun key hkey => ?_⟩
  obtain ⟨e, he, rfl⟩ := List.mem_map.1 (hperm.mem_iff.2 hkey)
  rw [hasKey, lookup_of_mem ho.nodup he]
  rfl

end Ledger

/-- A generation, field by field. -/
theorem generation_eq_ok : generation R (.map kvs) = .ok () ↔ exactKeys kvs generationKeys = true ∧
    (lookup (sym "ledger_kind") kvs).getD nil = generationKind ∧
    Ledger.validGenerationFields R (.map kvs) = .ok () := by
  by_cases hexact : exactKeys kvs generationKeys = true
  · have hrec := record_of_exactKeys hexact
    have hkind : looseEq ((lookup (sym "ledger_kind") kvs).getD nil) generationKind = true ↔
        (lookup (sym "ledger_kind") kvs).getD nil = generationKind :=
      ⟨fun h => loosen_eq_binary (looseEq_iff.1 h), fun h => by rw [h]; exact looseEq_self _⟩
    have hfields : generation R (.map kvs) =
        (equal ((lookup (sym "ledger_kind") kvs).getD nil) generationKind >>=
          fun _ => Ledger.validGenerationFields R (.map kvs)) := by
      -- the two sides read alike, but each under the matches of its own definition
      have hleft := Eq.refl (generation R (.map kvs))
      have hright := Eq.refl (Ledger.validGenerationFields R (.map kvs))
      conv_rhs at hleft =>
        simp only [generation, hrec.get, Check.ok_bind, Ledger.hexDigest_eq, hexact, Check.require, if_true, field]
      conv_rhs at hright =>
        simp only [Ledger.validGenerationFields, hrec.get, Check.ok_bind, Check.require, field]
      rw [hright]
      exact hleft
    rw [hfields, Check.bind_eq_ok, ← hkind]
    constructor
    · rintro ⟨_, h, h'⟩
      exact ⟨hexact, Check.require_eq_ok.1 h, h'⟩
    · rintro ⟨_, h, h'⟩
      exact ⟨(), Check.require_eq_ok.2 h, h'⟩
  · refine iff_of_false (fun h => ?_) fun h => hexact h.1
    simp only [generation, Check.bind_eq_ok, Check.require_eq_ok] at h
    obtain ⟨_, _, _, h, -⟩ := h
    exact hexact h

/-- **The two readers of a generation agree.** -/
theorem generation_readers : RecordType.generation.decode R now bytes = .ok v ↔
    Ledger.decodeBytes R bytes generationKind = .ok v := by
  rw [Ledger.decodeBytes, if_pos rfl, Ledger.decodeCapturedRecord_eq_ok, RecordType.decode, decodeWith_eq_ok]
  refine ⟨?_, ?_⟩
  · rintro ⟨hlen, -, n, hr, henc⟩
    obtain ⟨hvalid, hle, rfl⟩ := encodeWith_eq_ok.1 henc
    have hwf := R.wellFormed hr
    have hdata := admits_generation v hwf hvalid
    obtain ⟨kvs, rfl, -⟩ := record_of_generation hvalid
    have hread := R.roundTrip hdata.1 (hlen.trans_lt (ceiling_lt .generation)) fun a ha => R.literals a (hdata.2 a ha)
    obtain ⟨hexact, hkind, hfields⟩ := generation_eq_ok.1 hvalid
    cases hwf with
    | map ho _ _ =>
      refine ⟨hlen, ⟨_, rfl⟩, hread, kvs, rfl, Ledger.validateRecord_eq_ok.2 ⟨by simp [hkind], ?_, ?_, hle, rfl⟩⟩
      · exact (Ledger.exactKindKeys_generation ho hkind).2 hexact
      · simpa only [Ledger.validRecordFields, hkind, if_true] using hfields
  · rintro ⟨hlen, ⟨rest, rfl⟩, hr, kvs, rfl, hb⟩
    obtain ⟨hkind, hexact, hfields, hle, henc⟩ := Ledger.validateRecord_eq_ok.1 hb
    replace hkind := List.mem_singleton.1 hkind
    simp only [Ledger.validRecordFields, hkind, if_true] at hfields
    refine ⟨hlen, rfl, _, hr, encodeWith_eq_ok.2 ⟨generation_eq_ok.2 ⟨?_, hkind, hfields⟩, hle, henc⟩⟩
    cases R.wellFormed hr with
    | map ho _ _ => exact (Ledger.exactKindKeys_generation ho hkind).1 hexact

/-! ## the codec -/

/-- **Retained records have one codec.**  It does not raise, except on struck records; what is decoded is
encoded to the same bytes; what is encoded decodes to itself; and both readers of a generation agree. -/
theorem retained_records (R : Runtime) :
    (∀ now type bytes, (∀ x, type.decode R now bytes ≠ .raise x) ↔ ¬ StruckRecord R type bytes) ∧
    (∀ bytes kind x, Ledger.decodeBytes R bytes kind ≠ .raise x) ∧
    (∀ now type bytes v, RecordType.decode R now type bytes = .ok v → type.encode R now v = .ok bytes) ∧
    (∀ bytes kind v, Ledger.decodeBytes R bytes kind = .ok v → termToBinary v = bytes) ∧
    (∀ now type v bytes, WellFormed v → RecordType.encode R now type v = .ok bytes →
      type.decode R now bytes = .ok v ∧
        ∀ later, type.decode R later bytes = .ok v ↔ (type = .invocation → Fits R later v)) ∧
    ∀ now bytes v, RecordType.generation.decode R now bytes = .ok v ↔
      Ledger.decodeBytes R bytes generationKind = .ok v := by
  refine ⟨fun now type bytes => ?_, fun bytes kind x => Ledger.decodeBytes_ne_raise kind,
    fun now type bytes v h => ?_, fun bytes kind v h => Ledger.decodeBytes_encoded h,
    fun now type v bytes hwf h => ⟨?_, decode_encoded hwf h⟩, fun now bytes v => generation_readers⟩
  · rw [← @decode_raises R bytes now, not_exists]
  · obtain ⟨-, -, n, -, henc⟩ := decodeWith_eq_ok.1 h
    exact henc
  · refine (decode_encoded hwf h now).2 fun ht => ?_
    subst ht
    exact (invocation_later (encodeWith_eq_ok.1 h).1).1 (encodeWith_eq_ok.1 h).1

/-- A runtime on which no module answers for its structs. -/
def bareRuntime : Runtime where
  known name := name ∈ utf8 "__struct__" :: literalAtoms
  literals name h := by simp [h]
  binaryToTerm := binaryToTermSafe fun name => name ∈ utf8 "__struct__" :: literalAtoms
  wellFormed h := by
    obtain ⟨h, -⟩ := Option.filter_eq_some_iff.1 h
    exact wellFormed_binaryToTerm h
  roundTrip ht hlen hknown := by
    rw [binaryToTermSafe, binaryToTerm_termToBinary ht hlen, Option.filter_some, if_pos]
    simpa using hknown
  structGet _ _ _ := .raise .undefinedFunction
  nativePerSecond := 1000000000

/-- The open record of a job. -/
def openRecord (job : Bytes) : Term :=
  .map (entriesOf [(sym "ledger_kind", Ledger.openKind), (str "canonical_request_digest", .binary (List.replicate 64 48)),
    (str "cleanup_grace_ms", .int 1), (str "executor_identity", str "executor"), (str "job_id", .binary job),
    (str "origin_executor_epoch", .int 0)])

/-- The bytes of the map of `true` under `__struct__`. -/
def structBytes : Bytes := termToBinary (.map [(sym "__struct__", sym "true")])

/-- **A struct is not refused**: the decoder raises. -/
theorem retained_records_fails :
    RecordType.generation.decode bareRuntime 0 structBytes = .raise .undefinedFunction := by
  have hplain : Plain (.map [(sym "__struct__", sym "true")]) :=
    .map (by simp [Ordered]) (by simpa [sym] using .atom (by decide)) (by simpa [sym] using .atom (by decide))
  have hread := bareRuntime.roundTrip hplain (by decide) (by decide)
  exact decodeWith_eq_raise.2 ⟨by decide, by decide, _, _, hread,
    generation_eq_raise.2 ⟨_, utf8 "true", rfl, by decide, rfl⟩, by decide⟩

end Loopex.Executor
