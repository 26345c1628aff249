import Loopex.Executor.Validators

/-!
# The types of retained records

Every type admits plain data only, and raises nothing the codec does not rescue, except where it reads a
generation: a `candidate` reads two, and an `intent` reads its candidates.

* `admits_valid` — every type admits plain data
* `quiet_valid` — every type but `generation`, `candidate` and `intent` is quiet
* `calm_candidateRelations`, `calm_intentRelations` — the relations of the other ones do not raise
-/

namespace Loopex.Executor

open Loopex.Erlang Loopex.Erlang.Term Loopex.Store

variable {R : Runtime} {v w : Term} {kvs : List (Term × Term)} {d : Validator} {now : ℤ} {x : Exn}

/-! ## the domains of the schemas -/

attribute [simp] admits_oneOf admits_range admits_text admits_hexDigest

@[simp] theorem admits_u64 : Admits u64 := admits_range _ _
@[simp] theorem admits_positive : Admits positive := admits_range _ _
@[simp] theorem admits_ordinal : Admits ordinal := admits_range _ _
@[simp] theorem admits_runtimeId : Admits runtimeId := admits_text _
@[simp] theorem admits_label : Admits label := admits_text _
@[simp] theorem admits_absolute : Admits absolute := admits_binary absolute_ok
@[simp] theorem admits_relative : Admits relative := admits_binary relative_ok
@[simp] theorem admits_workspaceRef : Admits workspaceRef := admits_binary workspaceRef_ok
@[simp] theorem admits_manifestPath : Admits manifestPath := admits_binary manifestPath_ok
@[simp] theorem admits_nullableHex : Admits (nullable hexDigest) := admits_nullable admits_hexDigest
@[simp] theorem admits_nullableOrdinal : Admits (nullable ordinal) := admits_nullable admits_ordinal
@[simp] theorem admits_kind (s : String) : Admits (literal (str s)) := admits_literal (data_str s)
@[simp] theorem admits_number (n : ℤ) : Admits (literal (.int n)) := admits_literal (data_int n)
@[simp] theorem admits_true : Admits (literal (sym "true")) :=
  admits_literal (data_atom (by decide) (by decide))

@[simp] theorem admits_generationBytes : Admits (generationBytes R) := admits_binary fun {v} h => by
  obtain ⟨g, hg⟩ := Check.verdict_eq_ok.1 h
  unfold decodeGeneration at hg
  split at hg
  · exact ⟨_, rfl⟩
  · cases hg

/-! ## every type admits plain data -/

@[simp] theorem admits_placement : Admits (placement R) := admits_closed (by simp) (by simp)

@[simp] theorem admits_ledgerDescriptor : Admits (ledgerDescriptor R) := admits_closed (by simp) (by simp)

@[simp] theorem admits_storeDescriptor : Admits (storeDescriptor R) := admits_closed (by simp) (by simp)

@[simp] theorem admits_workspace : Admits (workspace R) := admits_closed (by simp) (by simp)

@[simp] theorem admits_attestation : Admits (attestation R) := admits_closed (by simp) (by simp)

@[simp] theorem admits_plan : Admits (plan R) := admits_closed (by simp) (by simp [admits_sorted])

@[simp] theorem admits_entry : Admits (entry R) := admits_closed (by simp) (by simp)

@[simp] theorem admits_candidate : Admits (candidate R) :=
  admits_closed (by simp [candidateFields]) (by simp [candidateFields])

@[simp] theorem admits_retirementEntry : Admits (retirementEntry R) := admits_closed (by simp) (by simp)

@[simp] theorem admits_proofEntry : Admits (proofEntry R) := admits_closed (by simp) (by simp)

theorem admits_generation : Admits (generation R) := by
  intro v hwf h
  unfold generation at h
  split at h
  · next kvs =>
    simp only [Check.bind_eq_ok, Check.require_eq_ok] at h
    obtain ⟨epoch, hepoch, _, hexact, kind, hkind, _, heq, identity, hidentity, h⟩ := h
    have hrec := record_of_exactKeys hexact
    simp only [hrec.get, Check.ok.injEq] at hepoch hkind hidentity
    subst hepoch hkind hidentity
    split at h
    · next identity hid =>
      simp only [Check.bind_eq_ok, Check.require_eq_ok] at h
      obtain ⟨_, _, h⟩ := h
      split at h
      · next epoch hepoch =>
        simp only [Check.bind_eq_ok, Check.require_eq_ok, hrec.get, Check.ok.injEq, exists_eq_left'] at h
        obtain ⟨_, _, _, hgen, hroot⟩ := h
        have hkind := loosen_eq_binary (looseEq_iff.1 (Check.require_eq_ok.1 heq))
        have hgen := loosen_eq_binary (looseEq_iff.1 (Check.require_eq_ok.1 hgen))
        obtain ⟨root, hroot, -⟩ := hexDigest_ok hroot
        refine data_of_exactKeys hwf hexact (by decide) ?_ ?_
        · simp only [generationKeys, List.forall_mem_cons]
          exact ⟨data_atom (by decide) (by decide), data_str _, data_str _, data_str _, data_str _, by simp⟩
        · simp only [generationKeys, List.forall_mem_cons, hid, hkind, hepoch, hgen, hroot]
          exact ⟨data_binary _, data_int _, data_binary _, data_binary _, data_binary _, by simp⟩
      · cases h
    · cases h
  · cases h

theorem admits_manifest : Admits (manifest R) := by
  intro v hwf h
  unfold manifest at h
  split at h
  · next tag entries =>
    simp only [Check.bind_eq_ok, Check.require_eq_ok, decide_eq_true_eq] at h
    obtain ⟨_, rfl, _, hsorted, -⟩ := h
    cases hwf with
    | list hwf =>
      have hentries := admits_sorted admits_entry 65536 (some "path") entries (hwf entries (by simp)) hsorted
      exact data_list (by simp [hentries, data_str])
  · cases h

/-- **A record is plain data**, of every type. -/
theorem admits_valid (now : ℤ) (type : RecordType) : Admits (type.valid R now) := by
  cases type with
  | placement => exact admits_placement
  | ledgerDescriptor => exact admits_ledgerDescriptor
  | storeDescriptor => exact admits_storeDescriptor
  | workspace => exact admits_workspace
  | attestation => exact admits_attestation
  | plan => exact admits_plan
  | entry => exact admits_entry
  | candidate => exact admits_candidate
  | intent => exact admits_closed (by simp [intentFields]) (by simp [intentFields, admits_sorted])
  | retirementEntry => exact admits_retirementEntry
  | proofEntry => exact admits_proofEntry
  | generation => exact admits_generation
  | manifest => exact admits_manifest
  | _ => exact admits_closed (by simp) (by simp [admits_sorted])

/-! ## what the domains raise -/

@[simp] theorem quiet_literal (wanted : Term) : Quiet (literal wanted) := quiet_of_calm fun _ => calm_literal wanted
@[simp] theorem quiet_oneOf (choices : List String) : Quiet (oneOf choices) := quiet_of_calm fun _ => calm_oneOf choices
@[simp] theorem quiet_range (low high : ℕ) : Quiet (range low high) := quiet_of_calm fun _ => calm_range low high
@[simp] theorem quiet_u64 : Quiet u64 := quiet_range _ _
@[simp] theorem quiet_positive : Quiet positive := quiet_range _ _
@[simp] theorem quiet_ordinal : Quiet ordinal := quiet_range _ _
@[simp] theorem quiet_runtimeId : Quiet runtimeId := quiet_of_calm fun _ => calm_text _
@[simp] theorem quiet_label : Quiet label := quiet_of_calm fun _ => calm_text _
@[simp] theorem quiet_hexDigest : Quiet hexDigest := quiet_of_calm fun _ => calm_hexDigest
@[simp] theorem quiet_workspaceRef : Quiet workspaceRef := quiet_of_calm fun _ => calm_workspaceRef
@[simp] theorem quiet_absolute : Quiet absolute := quiet_of_calm fun _ => calm_absolute
@[simp] theorem quiet_relative : Quiet relative := quiet_of_calm fun _ => calm_relative
@[simp] theorem quiet_manifestPath : Quiet manifestPath := quiet_of_calm fun _ => calm_manifestPath
@[simp] theorem quiet_nullableHex : Quiet (nullable hexDigest) := quiet_of_calm fun _ => calm_nullable calm_hexDigest
@[simp] theorem quiet_nullableOrdinal : Quiet (nullable ordinal) :=
  quiet_of_calm fun _ => calm_nullable (calm_range _ _)

/-! ## the schemas without relations -/

theorem quiet_plainSchema {fields : List (String × Validator)} (h : ∀ f ∈ fields, Quiet f.2) :
    Quiet (closed R fields noRelations) := quiet_closed h fun _ _ _ => calm_ok

@[simp] theorem quiet_placement : Quiet (placement R) := quiet_plainSchema (by simp)

@[simp] theorem quiet_ledgerDescriptor : Quiet (ledgerDescriptor R) := quiet_plainSchema (by simp)

@[simp] theorem quiet_storeDescriptor : Quiet (storeDescriptor R) := quiet_plainSchema (by simp)

@[simp] theorem quiet_workspace : Quiet (workspace R) := quiet_plainSchema (by simp)

@[simp] theorem quiet_attestation : Quiet (attestation R) := quiet_plainSchema (by simp)

@[simp] theorem quiet_limitsRecord : Quiet (limitsRecord R) := quiet_plainSchema (by simp)

@[simp] theorem quiet_retirementEntry : Quiet (retirementEntry R) := quiet_plainSchema (by simp)

@[simp] theorem quiet_proofEntry : Quiet (proofEntry R) := quiet_plainSchema (by simp)

/-- The values of a list of records have keys to be ordered by. -/
theorem record_of_closed {fields : List (String × Validator)} {relations : Validator} {key : Option String} :
    ∀ w, closed R fields relations w = .ok () → key = none ∨ Record w := fun _ h => .inr (closed_ok h).1

@[simp] theorem quiet_runtimeIds {bound : ℕ} : Quiet (sorted R runtimeId bound none) :=
  quiet_sorted quiet_runtimeId fun _ _ => .inl rfl

@[simp] theorem quiet_stores {bound : ℕ} {key : Option String} : Quiet (sorted R (storeDescriptor R) bound key) :=
  quiet_sorted quiet_storeDescriptor record_of_closed

@[simp] theorem quiet_ledgers {bound : ℕ} {key : Option String} : Quiet (sorted R (ledgerDescriptor R) bound key) :=
  quiet_sorted quiet_ledgerDescriptor record_of_closed

@[simp] theorem quiet_retirements {bound : ℕ} {key : Option String} : Quiet (sorted R (retirementEntry R) bound key) :=
  quiet_sorted quiet_retirementEntry record_of_closed

@[simp] theorem quiet_proofs {bound : ℕ} {key : Option String} : Quiet (sorted R (proofEntry R) bound key) :=
  quiet_sorted quiet_proofEntry record_of_closed

/-! ## encoding and decoding -/

theorem rescueArgument_eq_ok {α : Type} {c : Check Unit α} {a : α} : rescueArgument c = .ok a ↔ c = .ok a := by
  unfold rescueArgument
  split <;> simp

theorem rescueArgument_eq_raise {α : Type} {c : Check Unit α} :
    rescueArgument c = .raise x ↔ c = .raise x ∧ x ≠ .badArgument := by
  unfold rescueArgument
  split
  · simp [eq_comm]
  · next hne =>
    refine ⟨fun h => ⟨h, ?_⟩, fun h => h.1⟩
    rintro rfl
    exact hne h

theorem encodeWith_eq_ok {ceiling : ℕ} {bytes : Bytes} : encodeWith d ceiling v = .ok bytes ↔
    d v = .ok () ∧ (termToBinary v).length ≤ ceiling ∧ termToBinary v = bytes := by
  simp [encodeWith, rescueArgument_eq_ok, Check.bind_eq_ok, Unique.exists_iff]

theorem encodeWith_eq_raise {ceiling : ℕ} :
    encodeWith d ceiling v = .raise x ↔ d v = .raise x ∧ x ≠ .badArgument := by
  rw [encodeWith, rescueArgument_eq_raise, Check.bind_eq_raise]
  refine and_congr_left fun _ => or_iff_left ?_
  rintro ⟨_, -, h⟩
  exact (calm_require.bind fun _ _ => calm_ok) x h

/-- A quiet validator makes an encoder that does not raise. -/
theorem calm_encodeWith (h : Quiet d) {ceiling : ℕ} : Calm (encodeWith d ceiling v) := by
  intro x hx
  obtain ⟨hd, hne⟩ := encodeWith_eq_raise.1 hx
  exact hne (h v x hd)

theorem read_eq_ok {bytes : Bytes} : R.read bytes = .ok v ↔ ∃ n, R.binaryToTerm bytes = some (v, n) := by
  unfold Runtime.read
  split
  · next w n hr => simp [hr]
  · next hr => simp [hr]

theorem read_eq_raise {bytes : Bytes} (h : R.read bytes = .raise x) : x = .badArgument := by
  unfold Runtime.read at h
  split at h
  · cases h
  · exact (Check.raise.inj h).symm

theorem decodeWith_eq_ok {ceiling : ℕ} {bytes : Bytes} : decodeWith R d ceiling bytes = .ok v ↔
    bytes.length ≤ ceiling ∧ uncompressed bytes = true ∧ ∃ n, R.binaryToTerm bytes = some (v, n) ∧
      encodeWith d ceiling v = .ok bytes := by
  simp only [decodeWith, rescueArgument_eq_ok, Check.bind_eq_ok, Check.require_eq_ok, decide_eq_true_eq,
    read_eq_ok, Check.ok.injEq]
  refine ⟨?_, ?_⟩
  · rintro ⟨_, hlen, _, htag, w, ⟨n, hr⟩, _, henc, _, rfl, rfl⟩
    exact ⟨hlen, htag, n, hr, henc⟩
  · rintro ⟨hlen, htag, n, hr, henc⟩
    exact ⟨(), hlen, (), htag, v, ⟨n, hr⟩, bytes, henc, (), rfl, rfl⟩

theorem decodeWith_eq_raise {ceiling : ℕ} {bytes : Bytes} : decodeWith R d ceiling bytes = .raise x ↔
    bytes.length ≤ ceiling ∧ uncompressed bytes = true ∧ ∃ v n, R.binaryToTerm bytes = some (v, n) ∧
      d v = .raise x ∧ x ≠ .badArgument := by
  simp only [decodeWith, rescueArgument_eq_raise, Check.bind_eq_raise, Check.require_ne_raise, false_or,
    Check.require_eq_ok, decide_eq_true_eq, encodeWith_eq_raise, read_eq_ok]
  refine ⟨?_, ?_⟩
  · rintro ⟨⟨_, hlen, _, htag, h | ⟨w, ⟨n, hr⟩, ⟨hd, -⟩ | ⟨_, -, _, -, h⟩⟩⟩, hne⟩
    · exact absurd (read_eq_raise h) hne
    · exact ⟨hlen, htag, w, n, hr, hd, hne⟩
    · cases h
  · rintro ⟨hlen, htag, w, n, hr, hd, hne⟩
    exact ⟨⟨(), hlen, (), htag, .inr ⟨w, ⟨n, hr⟩, .inl ⟨hd, hne⟩⟩⟩, hne⟩

/-! ## plans -/

/-- What an accepted placement has. -/
theorem placement_ok (h : placement R v = .ok ()) : Record v ∧ ∃ path major inode,
    field v (str "expanded_root") = .binary path ∧ field v (str "major_device") = .int major ∧
      field v (str "inode") = .int inode := by
  obtain ⟨hv, hf, -⟩ := closed_ok h
  simp only [List.forall_mem_cons] at hf
  obtain ⟨hpath, hmajor, hinode, -⟩ := hf
  obtain ⟨path, hpath⟩ := absolute_ok hpath
  obtain ⟨major, hmajor, -⟩ := range_ok hmajor
  obtain ⟨inode, hinode, -⟩ := range_ok hinode
  exact ⟨hv, path, major, inode, hpath, hmajor, hinode⟩

theorem calm_plainSchema {fields : List (String × Validator)} (h : ∀ f ∈ fields, ∀ v, Calm (f.2 v)) :
    Calm (closed R fields noRelations v) := by
  intro x hx
  obtain ⟨kvs, rfl, -, hx | ⟨-, hx⟩⟩ := closed_eq_raise.1 hx
  · obtain ⟨before, f, after, rfl, -, hf⟩ := forM_eq_raise.1 hx
    exact h f (by simp) _ x hf
  · cases hx

theorem calm_placement : Calm (placement R v) := by
  refine calm_plainSchema ?_
  simp only [List.forall_mem_cons]
  exact ⟨fun _ => calm_absolute, fun _ => calm_range _ _, fun _ => calm_range _ _, by simp⟩

theorem binding_ok (h : placement R v = .ok ()) (domain : String) : ∃ b, binding R domain v = .ok b := by
  obtain ⟨hv, path, major, inode, hpath, hmajor, hinode⟩ := placement_ok h
  refine ⟨digest domain (be 8 path.length ++ path ++ be 8 major.toNat ++ be 8 inode.toNat), ?_⟩
  simp only [binding, h, hv.get, hpath, hmajor, hinode, Check.ok_bind, binaryOf, integerOf]

theorem calm_binding (domain : String) : Calm (binding R domain v) := by
  refine calm_placement.bind fun _ h => ?_
  obtain ⟨b, hb⟩ := binding_ok h domain
  rw [binding, h, Check.ok_bind] at hb
  rw [hb]
  exact calm_ok

/-- What an accepted ledger descriptor has. -/
theorem ledgerDescriptor_ok (h : ledgerDescriptor R v = .ok ()) : Record v ∧
    (∃ root, field v (str "relative_root") = .binary root) ∧ placement R (field v (str "source_placement")) = .ok () := by
  obtain ⟨hv, hf, -⟩ := closed_ok h
  simp only [List.forall_mem_cons] at hf
  obtain ⟨hroot, -, -, hplacement, -⟩ := hf
  exact ⟨hv, relative_ok hroot, hplacement⟩

/-- What an accepted plan has. -/
theorem plan_ok (h : plan R v = .ok ()) : Record v ∧
    (∃ root, field v (str "destination_state_root") = .binary root) ∧
    placement R (field v (str "source_state_placement")) = .ok () ∧
    (∃ count, field v (str "prior_restore_count") = .int count) ∧
    ∃ ledgers, field v (str "ledgers") = .list ledgers ∧ ∀ w ∈ ledgers, ledgerDescriptor R w = .ok () := by
  obtain ⟨hv, hf, -⟩ := closed_ok h
  simp only [List.forall_mem_cons] at hf
  obtain ⟨-, -, -, hplacement, -, -, hroot, -, -, hcount, -, -, -, hledgers, -⟩ := hf
  obtain ⟨count, hcount, -⟩ := range_ok hcount
  obtain ⟨ledgers, hledgers, -, hall⟩ := sorted_ok hledgers
  exact ⟨hv, absolute_ok hroot, hplacement, ⟨count, hcount⟩, ledgers, hledgers, hall⟩

@[simp] theorem quiet_plan : Quiet (plan R) := by
  refine quiet_closed (by simp) fun v hv hf => ?_
  simp only [List.forall_mem_cons] at hf
  obtain ⟨-, -, hsource, hplacement, -, hbackup, hdestination, -, -, -, -, -, -, hledgers, hworkspace, -⟩ := hf
  obtain ⟨source, hsource⟩ := absolute_ok hsource
  obtain ⟨backup, hbackup⟩ := absolute_ok hbackup
  obtain ⟨destination, hdestination⟩ := absolute_ok hdestination
  obtain ⟨hw, hroot, -⟩ := closed_ok hworkspace
  simp only [List.forall_mem_cons] at hroot
  obtain ⟨root, hroot⟩ := absolute_ok hroot.1
  obtain ⟨ledgers, hledgers, -, hall⟩ := sorted_ok hledgers
  have hp := (placement_ok hplacement).1
  simp only [planRelations, hv.get, hw.get, hp.get, hsource, hbackup, hdestination, hroot, hledgers, Check.ok_bind,
    binaryOf, listOf, List.mapM_cons, List.mapM_nil, Check.pure_eq]
  refine calm_equal.bind fun _ _ => calm_require.bind fun _ _ => (calm_forM fun w hw => ?_).bind fun _ _ => ?_
  · obtain ⟨hrec, ⟨relativeRoot, hrelative⟩, hplaced⟩ := ledgerDescriptor_ok (hall w hw)
    simp only [hrec.get, (placement_ok hplaced).1.get, hrelative, Check.ok_bind]
    exact calm_equal
  · split
    · exact calm_equal
    · exact calm_ok

theorem calm_planDigest : Calm (planDigest R v) := (calm_encodeWith quiet_plan).bind fun _ _ => calm_ok

/-! ## invocations, manifests and retirements -/

/-- What accepted limits have. -/
theorem limitsRecord_ok (h : limitsRecord R v = .ok ()) : Record v ∧ ∃ work grace : ℤ,
    field v (str "work_ms") = .int work ∧ field v (str "cleanup_grace_ms") = .int grace := by
  obtain ⟨hv, hf, -⟩ := closed_ok h
  simp only [List.forall_mem_cons] at hf
  obtain ⟨work, hwork, -⟩ := range_ok hf.1
  obtain ⟨grace, hgrace, -⟩ := range_ok hf.2.1
  exact ⟨hv, work, grace, hwork, hgrace⟩

theorem calm_limits : Calm (limits R now v) := by
  refine (calm_encodeWith quiet_limitsRecord).bind fun _ h => ?_
  obtain ⟨hv, work, grace, hwork, hgrace⟩ := limitsRecord_ok (encodeWith_eq_ok.1 h).1
  simp only [hv.get, hwork, hgrace, Check.ok_bind, integerOf]
  exact calm_require.bind fun _ _ => calm_require.bind fun _ _ => calm_require.bind fun _ _ => calm_ok

theorem calm_verdict {α : Type} {c : Check Unit α} (h : Calm c) : Calm c.verdict :=
  fun x hx => h x (Check.verdict_eq_raise.1 hx)

theorem quiet_invocation : Quiet (invocation R now) := by
  refine quiet_closed (by simp) fun v hv _ => ?_
  simp only [invocationRelations, hv.get, Check.ok_bind]
  exact calm_require.bind fun _ _ => calm_verdict calm_limits

@[simp] theorem quiet_entry : Quiet (entry R) := by
  refine quiet_closed (by simp) fun v hv _ => ?_
  simp only [entryRelations, hv.get, Check.ok_bind]
  split
  · exact calm_equal.bind fun _ _ => calm_require
  · exact calm_hexDigest

theorem quiet_sourceRetirement : Quiet (sourceRetirement R) := by
  refine quiet_closed (by simp) fun v hv hf => ?_
  simp only [List.forall_mem_cons] at hf
  obtain ⟨-, -, -, -, -, -, -, -, hretirements, -⟩ := hf
  obtain ⟨retirements, hretirements, -, hall⟩ := sorted_ok hretirements
  simp only [sourceRetirementRelations, hv.get, hretirements, Check.ok_bind, listOf]
  refine calm_forM fun w hw => ?_
  simp only [(closed_ok (hall w hw)).1.get, Check.ok_bind]
  exact calm_require

/-- What an accepted entry has. -/
theorem entry_ok (h : entry R v = .ok ()) : Record v ∧ ∃ path, field v (str "path") = .binary path := by
  obtain ⟨hv, hf, -⟩ := closed_ok h
  simp only [List.forall_mem_cons] at hf
  exact ⟨hv, manifestPath_ok hf.1⟩

theorem calm_manifestTree {entries : List Term} (h : ∀ w ∈ entries, entry R w = .ok ()) :
    Calm (manifestTree R entries) := by
  have hpaths : entries.mapM (fun e => R.get e (str "path")) = .ok (entries.map fun e => field e (str "path")) :=
    Check.mapM_ok fun e he => (entry_ok (h e he)).1.get _
  simp only [manifestTree, hpaths, Check.ok_bind]
  refine calm_require.bind fun _ _ => calm_forM fun path hpath => ?_
  obtain ⟨e, he, rfl⟩ := List.mem_map.1 hpath
  obtain ⟨-, path, hpath⟩ := entry_ok (h e he)
  split
  · exact calm_ok
  · rw [hpath]
    exact calm_require

theorem quiet_manifest : Quiet (manifest R) := by
  intro v x hv
  unfold manifest at hv
  split at hv
  · next tag entries =>
    rcases Check.bind_eq_raise.1 hv with hv | ⟨_, -, hv⟩
    · cases Check.require_ne_raise hv
    rcases Check.bind_eq_raise.1 hv with hv | ⟨_, hsorted, hv⟩
    · exact quiet_sorted quiet_entry record_of_closed entries x hv
    · obtain ⟨xs, rfl, -, hall⟩ := sorted_ok hsorted
      exact absurd hv (calm_manifestTree hall x)
  · cases hv

/-! ## candidates and intents -/

/-- What an accepted generation is. -/
theorem record_of_generation (h : generation R v = .ok ()) : Record v := by
  unfold generation at h
  split at h
  · simp only [Check.bind_eq_ok, Check.require_eq_ok] at h
    obtain ⟨_, _, _, hexact, -⟩ := h
    exact record_of_exactKeys hexact
  · cases h

/-- The generation in a field of an accepted candidate. -/
theorem generationBytes_ok (h : generationBytes R v = .ok ()) : (∃ bytes, v = .binary bytes) ∧
    ∃ g, decodeGeneration R v = .ok g ∧ Record g := by
  obtain ⟨g, hg⟩ := Check.verdict_eq_ok.1 h
  refine ⟨?_, g, hg, ?_⟩ <;> unfold decodeGeneration at hg <;> split at hg
  · exact ⟨_, rfl⟩
  · cases hg
  · obtain ⟨-, -, n, -, henc⟩ := decodeWith_eq_ok.1 hg
    exact record_of_generation (encodeWith_eq_ok.1 henc).1
  · cases hg

/-- What an accepted candidate has. -/
theorem candidate_ok (h : candidate R v = .ok ()) : Record v ∧
    (∃ root, field v (str "relative_root") = .binary root) ∧
    generationBytes R (field v (str "source_generation_bytes")) = .ok () ∧
    generationBytes R (field v (str "destination_generation_bytes")) = .ok () ∧
    placement R (field v (str "destination_ledger_placement")) = .ok () := by
  obtain ⟨hv, hf, -⟩ := closed_ok h
  simp only [candidateFields, List.forall_mem_cons] at hf
  obtain ⟨hroot, -, hsource, hdestination, -, hplacement, -⟩ := hf
  exact ⟨hv, relative_ok hroot, hsource, hdestination, hplacement⟩

theorem calm_candidateRelations (hv : Record v)
    (hf : ∀ f ∈ candidateFields R, f.2 (field v (str f.1)) = .ok ()) : Calm (candidateRelations R v) := by
  simp only [candidateFields, List.forall_mem_cons] at hf
  obtain ⟨-, -, hsource, hdestination, -, hplacement, -⟩ := hf
  obtain ⟨-, source, hsource, hs⟩ := generationBytes_ok hsource
  obtain ⟨-, destination, hdestination, hd⟩ := generationBytes_ok hdestination
  obtain ⟨bound, hbound⟩ := binding_ok hplacement "loopex:local-root-binding:v1"
  simp only [candidateRelations, hv.get, hs.get, hd.get, hsource, hdestination, ledgerBinding, hbound, matched,
    Check.ok_bind]
  exact calm_equal.bind fun _ _ => calm_equal.bind fun _ _ => calm_equal.bind fun _ _ =>
    calm_equal.bind fun _ _ => calm_equal.bind fun _ _ => calm_require

theorem calm_candidateMatches {plan candidate descriptor : Term} {root : Bytes} (hp : Record plan)
    (hroot : field plan (str "destination_state_root") = .binary root)
    (hc : Executor.candidate R candidate = .ok ()) (hd : ledgerDescriptor R descriptor = .ok ()) :
    Calm (candidateMatches R plan candidate descriptor) := by
  obtain ⟨hc, ⟨relativeRoot, hrelative⟩, hsource, -, hplaced⟩ := candidate_ok hc
  obtain ⟨hd, -, hplacement⟩ := ledgerDescriptor_ok hd
  obtain ⟨⟨bytes, hbytes⟩, -⟩ := generationBytes_ok hsource
  obtain ⟨bound, hbound⟩ := binding_ok hplacement "loopex:local-root-binding:v1"
  simp only [candidateMatches, hc.get, hd.get, hp.get, (placement_ok hplaced).1.get, hbytes, hroot, hrelative,
    ledgerBinding, hbound, matched, binaryOf, Check.ok_bind]
  exact calm_equal.bind fun _ _ => calm_equal.bind fun _ _ => calm_equal.bind fun _ _ =>
    calm_equal.bind fun _ _ => calm_equal

theorem calm_distinctCandidateEpochs {candidates : List Term} (h : ∀ w ∈ candidates, candidate R w = .ok ()) :
    Calm (distinctCandidateEpochs R candidates) := by
  refine (calm_mapM fun w hw => ?_).bind fun _ _ => calm_require
  obtain ⟨hw, -, -, hdestination, -⟩ := candidate_ok (h w hw)
  obtain ⟨-, g, hg, hrec⟩ := generationBytes_ok hdestination
  simp only [hw.get, hg, hrec.get, matched, Check.ok_bind]
  exact calm_ok

theorem calm_intentRelations (hv : Record v)
    (hf : ∀ f ∈ intentFields R, f.2 (field v (str f.1)) = .ok ()) : Calm (intentRelations R v) := by
  simp only [intentFields, List.forall_mem_cons] at hf
  obtain ⟨-, -, -, -, hplan, -, -, hplacement, -, hgenerations, -⟩ := hf
  obtain ⟨hp, ⟨root, hroot⟩, -, ⟨count, hcount⟩, ledgers, hledgers, hdescriptors⟩ := plan_ok hplan
  obtain ⟨candidates, hcandidates, -, hall⟩ := sorted_ok hgenerations
  simp only [intentRelations, hv.get, hp.get, (placement_ok hplacement).1.get, hcandidates, hledgers, hcount, listOf,
    integerOf, Check.ok_bind]
  refine calm_planDigest.bind fun _ _ => (calm_binding _).bind fun _ _ => (calm_binding _).bind fun _ _ => ?_
  refine calm_equal.bind fun _ _ => calm_equal.bind fun _ _ => calm_equal.bind fun _ _ => ?_
  refine calm_equal.bind fun _ _ => calm_equal.bind fun _ _ => calm_equal.bind fun _ _ => ?_
  refine calm_equal.bind fun _ _ => calm_require.bind fun _ _ => (calm_forM fun pair hpair => ?_).bind fun _ _ => ?_
  · obtain ⟨hc, hd⟩ := List.of_mem_zip hpair
    exact calm_candidateMatches hp hroot (hall _ hc) (hdescriptors _ hd)
  · exact calm_distinctCandidateEpochs hall

/-- Every type but those that read a generation is quiet. -/
theorem quiet_valid {type : RecordType} (h1 : type ≠ .generation) (h2 : type ≠ .candidate) (h3 : type ≠ .intent) :
    Quiet (type.valid R now) := by
  cases type with
  | generation => exact absurd rfl h1
  | candidate => exact absurd rfl h2
  | intent => exact absurd rfl h3
  | plan => exact quiet_plan
  | invocation => exact quiet_invocation
  | entry => exact quiet_entry
  | sourceRetirement => exact quiet_sourceRetirement
  | manifest => exact quiet_manifest
  | _ => exact quiet_plainSchema (by simp)

end Loopex.Executor
