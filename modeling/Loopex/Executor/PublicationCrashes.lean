import Loopex.Executor.Publication
import Loopex.Executor.RetainedRecords
import Loopex.System.Run

/-!
# Publication that is cut off

Whatever operation of a call fails or is its last, an admission that is published stays, with the open entry in front
of it.

* `publish_safe`, `replace_safe` — what a publication and a replacement touch
* `admit_safe`, `refuse_safe`, `closeOpen_safe`, `restoreOpen_safe` — what each call touches
* `publication_fails_closed` — the markers and the entries of every run of calls
-/

namespace Loopex.Executor.Ledger

open Loopex.Erlang Loopex.Erlang.Term Loopex.Store Loopex.System Loopex.System.Program

/-! ## rules -/

section
variable {α β : Type} {I : Disk → Prop} {P : α → Disk → Prop} {P' : β → Disk → Prop} {s t : Disk} {path : Path}
variable {bytes : Bytes}

/-- A condition of a task that succeeds. -/
def Answers (P : α → Disk → Prop) (answer : Check Failure α) (t : Disk) : Prop := ∀ a, answer = .ok a → P a t

theorem safe_andThen {task : Task α} {next : α → Task β} (h : Safe effect I (Answers P) task s)
    (hnext : ∀ a t, I t → P a t → Safe effect I (Answers P') (next a) t) :
    Safe effect I (Answers P') (task.andThen next) s := by
  refine h.bind fun answer t ht hP => ?_
  rcases answer with a | reason | x
  · exact hnext a t ht (hP a rfl)
  · exact ⟨ht, nofun⟩
  · exact ⟨ht, nofun⟩

/-- A check that is made without the files. -/
theorem safe_check {check : Check Failure α} {next : α → Task β} (hI : I s)
    (hnext : ∀ a, check = .ok a → Safe effect I (Answers P') (next a) s) :
    Safe effect I (Answers P') (Task.andThen (.done check) next) s := by
  rcases check with a | reason | x
  · exact hnext a rfl
  · exact ⟨hI, nofun⟩
  · exact ⟨hI, nofun⟩

theorem checked_eq_ok {check : Check Unavailable α} {a : α} : checked check = .ok a ↔ check = .ok a := by
  cases check <;> simp [checked]

@[simp] theorem put_same (disk : Disk) (path : Path) (content : Option Bytes) : put disk path content path = content :=
  if_pos rfl

theorem put_other {disk : Disk} {p : Path} (content : Option Bytes) (h : p ≠ path) : put disk path content p = disk p :=
  if_neg h

@[simp] theorem put_staging_marker (disk : Disk) (name : Bytes) (n : ℕ) (content : Option Bytes) :
    put disk (.staging name n) content (.marker name) = disk (.marker name) := put_other content Path.noConfusion

/-- A task that leaves the files as they are keeps what holds of them. -/
theorem safe_same {task : Task α} (h : Safe effect (· = s) (Answers P) task s) (hI : I s) :
    Safe effect I (Answers fun a t => P a t ∧ t = s) task s := by
  refine h.imp (fun t ht => ?_) fun answer t ht hP a ha => ⟨hP a ha, ht⟩
  rw [ht]
  exact hI

theorem makeDirectories_safe : Safe effect (· = s) (Answers fun _ _ => True) (makeDirectories path) s :=
  ⟨rfl, fun _ _ h => ⟨h, fun _ _ => trivial⟩⟩

theorem syncParent_safe : Safe effect (· = s) (Answers fun _ _ => True) (syncParent path) s := by
  refine ⟨rfl, fun r t h => ?_⟩
  rcases r with reason | u
  · exact ⟨h, nofun⟩
  · refine ⟨h, fun result t' h' => ⟨Eq.trans h' h, fun closed t'' h'' => ⟨Eq.trans h'' (Eq.trans h' h), fun _ _ => trivial⟩⟩⟩

/-! ## writing -/

/-- Only one file is touched, and only if there was none. -/
structure Only (s : Disk) (path : Path) (t : Disk) : Prop where
  others : ∀ p ≠ path, t p = s p
  kept : ∀ bytes, s path = some bytes → t path = some bytes

theorem Only.refl (s : Disk) (path : Path) : Only s path s := ⟨fun _ _ => rfl, fun _ h => h⟩

theorem Only.put (content : Option Bytes) (h : Only s path t) (hnone : s path = none) : Only s path (put t path content) :=
  ⟨fun p hp => (put_other content hp).trans (h.others p hp), fun bytes hbytes => by rw [hnone] at hbytes; cases hbytes⟩

/-- What is written is written where nothing was. -/
theorem writeSynced_safe : Safe effect (Only s path) (Answers fun _ t => s path = none ∧ t path = some bytes)
    (writeSynced path bytes) s := by
  have hstart := Only.refl s path
  refine ⟨hstart, fun r t h => ?_⟩
  rcases r with reason | u
  · rcases h with rfl | ⟨hnone, rfl⟩
    · exact ⟨hstart, nofun⟩
    · exact ⟨hstart.put _ hnone, nofun⟩
  · obtain ⟨hnone, rfl⟩ := h
    have hcreated := hstart.put (some []) hnone
    refine ⟨hcreated, fun r t h => ?_⟩
    rcases r with reason | u
    · obtain ⟨n, rfl⟩ := h
      refine ⟨hcreated.put _ hnone, fun closed t' h' => ?_⟩
      obtain rfl := h'
      exact ⟨hcreated.put _ hnone, nofun⟩
    · obtain rfl := h
      have hwritten := hcreated.put (some bytes) hnone
      refine ⟨hwritten, fun result t h => ?_⟩
      obtain rfl := h
      refine ⟨hwritten, fun closed t h => ?_⟩
      obtain rfl := h
      exact ⟨hwritten, fun _ _ => ⟨hnone, put_same _ _ _⟩⟩

/-- **A publication touches one file, and overwrites none.** -/
theorem publish_safe : Safe effect (Only s path) (Answers fun _ t => s path = none ∧ t path = some bytes)
    (publish path bytes) s := by
  refine safe_andThen (safe_same makeDirectories_safe (Only.refl s path)) fun _ t _ h => ?_
  obtain rfl := h.2
  refine safe_andThen writeSynced_safe fun _ t' honly hwritten => ?_
  refine (safe_same syncParent_safe honly).imp (fun _ h => h) fun answer u _ hsynced a ha => ?_
  obtain rfl := (hsynced a ha).2
  exact hwritten

/-- What a replacement has touched: its staging file, and the marker once the file is written. -/
structure Replacing (s : Disk) (name bytes : Bytes) (t : Disk) : Prop where
  others : ∀ p, p ≠ .marker name → (∀ n, p ≠ .staging name n) → t p = s p
  marker : t (.marker name) = s (.marker name) ∨ t (.marker name) = some bytes

variable {name : Bytes}

theorem Replacing.put {n : ℕ} (h : Replacing s name bytes t) (content : Option Bytes) :
    Replacing s name bytes (put t (.staging name n) content) := by
  refine ⟨fun p hp hstaging => (put_other content (hstaging n)).trans (h.others p hp hstaging), ?_⟩
  rw [put_staging_marker]
  exact h.marker

theorem Only.replacing {n : ℕ} (h : Only s (.staging name n) t) : Replacing s name bytes t :=
  ⟨fun p _ hstaging => h.others p (hstaging n), .inl (h.others _ nofun)⟩

/-- A staging file that is complete becomes the marker. -/
theorem Replacing.moved {n : ℕ} (h : Replacing s name bytes t) :
    Replacing s name bytes (moved t (.staging name n) (.marker name) bytes) := by
  refine ⟨fun p hp hstaging => ?_, .inr ?_⟩
  · rw [Ledger.moved, put_other none (hstaging n), put_other _ hp]
    exact h.others p hp hstaging
  · rw [Ledger.moved, put_staging_marker, put_same]

/-- **A replacement renames the whole record over the marker**, and touches no other marker or entry. -/
theorem replace_safe : Safe effect (Replacing s name bytes) (Answers fun _ t => t (.marker name) = some bytes)
    (replace name bytes) s := by
  have hstart : Replacing s name bytes s := ⟨fun _ _ _ => rfl, .inl rfl⟩
  refine ⟨hstart, fun (n : ℕ) t h => ?_⟩
  obtain rfl := h
  have hrenamed : Safe effect (Replacing t name bytes) (Answers fun _ u => u (.marker name) = some bytes)
      ((makeDirectories (.marker name)).andThen fun _ => (writeSynced (.staging name n) bytes).andThen fun _ =>
        (rename (.staging name n) (.marker name)).andThen fun _ => syncParent (.marker name)) t := by
    refine safe_andThen (safe_same makeDirectories_safe hstart) fun _ t' _ h => ?_
    obtain rfl := h.2
    refine safe_andThen (writeSynced_safe.imp (fun _ honly => honly.replacing) fun _ _ _ h => h) fun _ u hu hwritten => ?_
    refine safe_andThen (P := fun _ v => v (.marker name) = some bytes) ⟨hu, fun r v h => ?_⟩ fun _ v hv hmarker => ?_
    · have hmoved : ∀ content, u (.staging name n) = some content →
          Replacing t' name bytes (moved u (.staging name n) (.marker name) content) ∧
            moved u (.staging name n) (.marker name) content (.marker name) = some bytes := by
        intro content hcontent
        obtain rfl := Option.some.inj (hwritten.2.symm.trans hcontent)
        refine ⟨hu.moved, ?_⟩
        rw [Ledger.moved, put_staging_marker, put_same]
      rcases r with reason | _
      · rcases h with rfl | ⟨content, hcontent, rfl⟩
        · exact ⟨hu, nofun⟩
        · exact ⟨(hmoved content hcontent).1, nofun⟩
      · obtain ⟨content, hcontent, rfl⟩ := h
        exact ⟨(hmoved content hcontent).1, fun _ _ => (hmoved content hcontent).2⟩
    · refine (safe_same syncParent_safe hv).imp (fun _ h => h) fun answer w _ hsynced a ha => ?_
      obtain rfl := (hsynced a ha).2
      exact hmarker
  refine hrenamed.bind fun answer u hu hanswer => ?_
  rcases answer with a | reason | x
  · exact ⟨hu, hanswer⟩
  · refine ⟨hu, fun r v h => ?_⟩
    rcases r with reason' | _
    · rcases reason' with _ | _ | _
      · obtain ⟨-, rfl⟩ := h
        exact ⟨hu, nofun⟩
      all_goals
        rcases h with rfl | rfl
        · exact ⟨hu, nofun⟩
        · exact ⟨hu.put none, nofun⟩
    · obtain rfl := h
      exact ⟨hu.put none, nofun⟩
  · exact ⟨hu, nofun⟩

end

/-! ## reading -/

section
variable {R : Runtime} {s t : Disk} {path : Path} {kinds : List Term} {job : Bytes}

/-- What is found at a path. -/
inductive Found (R : Runtime) (s : Disk) (path : Path) (kinds : List Term) : Option Term → Prop
  | nothing (absent : s path = none) : Found R s path kinds none
  | record {bytes record} (present : s path = some bytes)
      (decoded : decodeCapturedRecord R bytes kinds recordCeiling = .ok record) : Found R s path kinds (some record)

theorem readRecord_safe :
    Safe effect (· = s) (Answers fun found _ => Found R s path kinds found) (readRecord R path kinds) s := by
  refine ⟨rfl, fun r t h => ?_⟩
  obtain ⟨rfl, h⟩ := h
  rcases r with reason | type
  · rcases reason with _ | _ | _
    · exact ⟨rfl, fun _ hfound => by cases hfound; exact .nothing h⟩
    · exact ⟨rfl, nofun⟩
    · exact ⟨rfl, nofun⟩
  · rcases type with size | _
    · change Safe effect _ _ (if size ≤ recordCeiling then _ else _) _
      split
      · refine ⟨rfl, fun r u h => ?_⟩
        obtain ⟨rfl, h⟩ := h
        rcases r with reason | bytes
        · exact ⟨rfl, nofun⟩
        · refine ⟨rfl, fun found hfound => ?_⟩
          obtain ⟨record, hrecord, hsome⟩ := Check.bind_eq_ok.1 hfound
          cases hsome
          exact .record h (checked_eq_ok.1 hrecord)
      · exact ⟨rfl, nofun⟩
    · cases h

theorem readMarker_safe : Safe effect (· = s)
    (Answers fun found _ => Found R s (.marker (digest job)) [markerKind, refusalKind] found) (readMarker R job) s := by
  unfold readMarker
  split
  · refine safe_andThen readRecord_safe fun found t ht hfound => ?_
    obtain rfl := ht
    rcases found with _ | record
    · exact ⟨rfl, fun _ h => by cases h; exact hfound⟩
    · dsimp only
      split
      · exact ⟨rfl, fun _ h => by cases h; exact hfound⟩
      · exact ⟨rfl, nofun⟩
  · exact ⟨rfl, nofun⟩

/-! ## calls -/

/-- What an admission has touched. -/
structure Admitting (s : Disk) (name openBytes : Bytes) (t : Disk) : Prop where
  others : ∀ p, p ≠ .opened name → p ≠ .marker name → t p = s p
  opened : ∀ bytes, s (.opened name) = some bytes → t (.opened name) = some bytes
  marker : t (.marker name) = s (.marker name) ∨
    s (.marker name) = none ∧ s (.opened name) = none ∧ t (.opened name) = some openBytes

variable {marker opened refusal : Term}

theorem textOf_eq (h : looseEq (field marker (str "job_id")) (field opened (str "job_id")) = true) :
    textOf marker "job_id" = textOf opened "job_id" := by
  have hloose := looseEq_iff.1 h
  unfold textOf
  generalize field marker (str "job_id") = a at hloose
  generalize field opened (str "job_id") = b at hloose
  split
  next x =>
    rw [loosen_binary] at hloose
    rw [loosen_eq_binary hloose.symm]
  next hother =>
    split
    next x =>
      rw [loosen_binary] at hloose
      exact absurd (loosen_eq_binary hloose) (hother x)
    · rfl

/-- **An admission publishes the open entry first, and overwrites nothing.** -/
theorem admit_safe : Safe effect
    (fun t => t = s ∨ ∃ openBytes, validateRecord R opened [openKind] recordCeiling = .ok openBytes ∧
      Admitting s (digest (textOf opened "job_id")) openBytes t)
    (Answers fun _ t => ∃ openBytes markerBytes, validateRecord R opened [openKind] recordCeiling = .ok openBytes ∧
      validateRecord R marker [markerKind] recordCeiling = .ok markerBytes ∧
      textOf marker "job_id" = textOf opened "job_id" ∧
      s (.opened (digest (textOf opened "job_id"))) = none ∧ s (.marker (digest (textOf opened "job_id"))) = none ∧
      t (.opened (digest (textOf opened "job_id"))) = some openBytes ∧
      t (.marker (digest (textOf opened "job_id"))) = some markerBytes)
    (admitJob R marker opened) s := by
  refine safe_check (.inl rfl) fun markerBytes hmarker => safe_check (.inl rfl) fun openBytes hopened => ?_
  rw [checked_eq_ok] at hmarker hopened
  split
  · next hsame =>
    have hjob : textOf marker "job_id" = textOf opened "job_id" := by
      simp only [sameFields, List.all_cons, Bool.and_eq_true] at hsame
      exact textOf_eq hsame.1
    rw [hjob]
    generalize digest (textOf opened "job_id") = name
    refine safe_andThen (publish_safe.imp (fun t honly => .inr ⟨openBytes, hopened, ?_⟩) fun _ t honly h a ha =>
      (⟨honly, h a ha⟩ : Only s (.opened name) t ∧ s (.opened name) = none ∧ t (.opened name) = some openBytes))
      fun _ u _ hu => ?_
    · exact ⟨fun p hp _ => honly.others p hp, honly.kept, .inl (honly.others _ Path.noConfusion)⟩
    obtain ⟨honly, hnone, hpublished⟩ := hu
    have hmarkerSame : u (.marker name) = s (.marker name) := honly.others _ Path.noConfusion
    refine publish_safe.imp (fun t ht => .inr ⟨openBytes, hopened, ?_⟩) fun _ t ht h a ha => ?_
    · have hopen : t (.opened name) = u (.opened name) := ht.others _ Path.noConfusion
      refine ⟨fun p hp hp' => (ht.others p hp').trans (honly.others p hp), fun bytes hbytes => ?_, ?_⟩
      · rw [hopen]
        exact honly.kept bytes hbytes
      · cases hum : u (.marker name) with
        | none => exact .inr ⟨hmarkerSame ▸ hum, hnone, hopen.trans hpublished⟩
        | some bytes => exact .inl ((ht.kept bytes hum).trans (hum.symm.trans hmarkerSame))
    · obtain ⟨hunmarked, hmarked⟩ := h a ha
      exact ⟨openBytes, markerBytes, hopened, hmarker, rfl, hnone, hmarkerSame ▸ hunmarked,
        (ht.others _ Path.noConfusion).trans hpublished, hmarked⟩
  · exact ⟨.inl rfl, nofun⟩

/-- What a refusal may stand over: nothing, or a refusal of the same identity. -/
inductive Replaceable (R : Runtime) (s : Disk) (refusal : Term) : Prop
  | absent (absent : s (.marker (digest (textOf refusal "job_id"))) = none)
  | same {bytes existing} (present : s (.marker (digest (textOf refusal "job_id"))) = some bytes)
      (decoded : decodeMarkerBytes R bytes = .ok existing) (kind : field existing (sym "ledger_kind") = refusalKind)
      (identity : sameFields existing refusal ["job_id", "canonical_request_digest", "operation_id", "attempt"] = true)

/-- What a refusal has touched. -/
structure Refusing (R : Runtime) (s : Disk) (refusal : Term) (t : Disk) : Prop where
  others : ∀ p, p ≠ .marker (digest (textOf refusal "job_id")) → (∀ name n, p ≠ .staging name n) → t p = s p
  marker : t (.marker (digest (textOf refusal "job_id"))) = s (.marker (digest (textOf refusal "job_id"))) ∨
    t (.marker (digest (textOf refusal "job_id"))) = some (termToBinary refusal) ∧ Replaceable R s refusal ∧
      validateRecord R refusal [refusalKind] recordCeiling = .ok (termToBinary refusal)

theorem validateRecord_bytes {v : Term} {ceiling : ℕ} {bytes : Bytes} (h : validateRecord R v kinds ceiling = .ok bytes) :
    ∃ kvs, v = .map kvs ∧ termToBinary v = bytes := by
  cases v with
  | map kvs => exact ⟨kvs, rfl, (validateRecord_eq_ok.1 h).2.2.2.2⟩
  | _ => cases h

/-- **A refusal replaces nothing, or a refusal of its identity.** -/
theorem refuse_safe : Safe effect (Refusing R s refusal) (Answers fun _ _ => True) (refuse R refusal) s := by
  have hstart : Refusing R s refusal s := ⟨fun _ _ _ => rfl, .inl rfl⟩
  refine safe_check hstart fun bytes hvalid => ?_
  rw [checked_eq_ok] at hvalid
  obtain ⟨-, -, hbytes⟩ := validateRecord_bytes hvalid
  rw [← hbytes] at hvalid
  have hreplace : Replaceable R s refusal → Safe effect (Refusing R s refusal) (Answers fun _ _ => True)
      (replace (digest (textOf refusal "job_id")) (termToBinary refusal)) s := fun hmay =>
    replace_safe.imp
      (fun t ht => ⟨fun p hp hstaging => ht.others p hp (hstaging _), ht.marker.imp_right fun h => ⟨h, hmay, hvalid⟩⟩)
      fun _ _ _ _ _ _ => trivial
  refine safe_andThen (safe_same readMarker_safe hstart) fun found t _ h => ?_
  obtain ⟨hfound, rfl⟩ := h
  cases hfound with
  | nothing absent => exact hreplace (.absent absent)
  | @record bytes' existing present decoded =>
    dsimp only
    split
    · next hkind =>
      split
      · next hsame => exact hreplace (.same present decoded hkind hsame)
      · exact ⟨hstart, nofun⟩
    · exact ⟨hstart, nofun⟩

theorem closeOpen_safe : Safe effect (fun t => ∀ p ≠ .opened (digest job), t p = s p) (Answers fun _ _ => True)
    (closeOpen job) s := by
  have hremoved : ∀ p ≠ Path.opened (digest job), put s (.opened (digest job)) none p = s p := fun p hp => put_other none hp
  refine ⟨fun _ _ => rfl, fun r t h => ?_⟩
  rcases r with reason | _
  · rcases reason with _ | _ | _
    · obtain ⟨-, rfl⟩ := h
      exact ⟨fun _ _ => rfl, fun _ _ => trivial⟩
    all_goals
      rcases h with rfl | rfl
      · exact ⟨fun _ _ => rfl, nofun⟩
      · exact ⟨hremoved, nofun⟩
  · obtain rfl := h
    exact (safe_same syncParent_safe hremoved).imp (fun _ h => h) fun _ _ _ _ _ _ => trivial

theorem restoreOpen_safe : Safe effect (Only s (.opened (digest (textOf opened "job_id")))) (Answers fun _ _ => True)
    (restoreOpen R opened) s := by
  have hstart := Only.refl s (.opened (digest (textOf opened "job_id")))
  refine safe_check hstart fun bytes _ => safe_andThen (safe_same readRecord_safe hstart) fun found t _ h => ?_
  obtain ⟨-, rfl⟩ := h
  rcases found with _ | existing
  · exact publish_safe.imp (fun _ h => h) fun _ _ _ _ _ _ => trivial
  · dsimp only
    split
    · exact ⟨hstart, fun _ _ => trivial⟩
    · exact ⟨hstart, nofun⟩

/-! ## refusals that are read -/

theorem validReason_eq_true {kvs : List (Term × Term)} (h : validReason (.map kvs) = true) :
    ∃ code text, lookup (str "code") kvs = some code ∧ lookup (str "field") kvs = some text ∧ kvs.length = 2 ∧
      code ∈ refusalCodes.map str ∧ (text = nil ∨ text ∈ bindingFields.map str) := by
  rw [validReason] at h
  cases hcode : lookup (str "code") kvs with
  | none =>
    rw [hcode] at h
    cases h
  | some code =>
    cases htext : lookup (str "field") kvs with
    | none =>
      rw [hcode, htext] at h
      cases h
    | some text =>
      rw [hcode, htext] at h
      simp only [Bool.and_eq_true, Bool.or_eq_true, decide_eq_true_eq] at h
      exact ⟨code, text, rfl, rfl, h.1.1, h.1.2, h.2.imp_right And.right⟩

theorem data_reason {v : Term} (hwf : WellFormed v) (h : validReason v = true) : Data v := by
  cases v with
  | map kvs =>
    obtain ⟨code, text, hcode, htext, hlength, hmem, hfield⟩ := validReason_eq_true h
    have hstrings : ∀ {w : Term} {names : List String}, w ∈ names.map str → Data w := by
      intro w names hw
      obtain ⟨name, -, rfl⟩ := List.mem_map.1 hw
      exact data_str name
    have hperm : (kvs.map Prod.fst).Perm [str "code", str "field"] := by
      refine perm_of_lookup (by decide) hlength ?_
      simp only [List.forall_mem_cons]
      exact ⟨by rw [hcode]; rfl, by rw [htext]; rfl, List.forall_mem_nil _⟩
    refine data_of_perm hwf hperm ?_ ?_
    · simp only [List.forall_mem_cons]
      exact ⟨data_str _, data_str _, List.forall_mem_nil _⟩
    · simp only [List.forall_mem_cons]
      refine ⟨?_, ?_, List.forall_mem_nil _⟩
      · rw [field, hcode]
        exact hstrings hmem
      · rw [field, htext]
        rcases hfield with hnil | hbinding
        · exact hnil ▸ data_nil
        · exact hstrings hbinding
  | _ => cases h

/-- A refusal that is published is plain data. -/
theorem data_refusal {v : Term} {bytes : Bytes} (hwf : WellFormed v)
    (h : validateRecord R v [refusalKind] recordCeiling = .ok bytes) : Data v := by
  obtain ⟨kvs, rfl, -⟩ := validateRecord_bytes h
  obtain ⟨hkind, hexact, hfields, -⟩ := validateRecord_eq_ok.1 h
  have hrecord := (exactKindKeys_ok hexact).1
  rw [List.mem_singleton] at hkind
  have hperm : (kvs.map Prod.fst).Perm [sym "ledger_kind", str "attempt", str "canonical_request_digest", str "job_id",
      str "operation_id", str "reason"] := by
    have hkeys : kindKeys refusalKind = some [sym "ledger_kind", str "attempt", str "canonical_request_digest",
        str "job_id", str "operation_id", str "reason"] := by decide
    rw [exactKindKeys, hkind, hkeys] at hexact
    exact List.isPerm_iff.1 hexact
  have hrefusal : validRefusalFields R (.map kvs) = .ok () := by
    have hg : refusalKind ≠ generationKind := by decide
    have hm : refusalKind ≠ markerKind := by decide
    rw [validRecordFields, hkind, if_neg hg, if_neg hm, if_pos rfl] at hfields
    exact hfields
  simp only [validRefusalFields, validAttemptFields, hrecord.get, Check.ok_bind, Check.bind_eq_ok,
    Check.require_eq_ok] at hrefusal
  obtain ⟨_, ⟨_, hjob, _, hoperation, _, hdigest, hattempt⟩, hreason⟩ := hrefusal
  have hbounded : ∀ {w : Term}, boundedIdentifier w = true → Data w := by
    intro w hw
    cases w with
    | binary b => exact data_binary b
    | _ => cases hw
  refine data_of_perm hwf hperm ?_ ?_
  · simp only [List.forall_mem_cons]
    exact ⟨data_atom (by decide) (by decide), data_str _, data_str _, data_str _, data_str _, data_str _,
      List.forall_mem_nil _⟩
  · simp only [List.forall_mem_cons]
    refine ⟨?_, ?_, ?_, hbounded hjob, hbounded hoperation, ?_, List.forall_mem_nil _⟩
    · rw [field, hkind]
      exact data_str _
    · split at hattempt
      next n hn =>
        rw [hn]
        exact data_int n
      · cases hattempt
    · cases hd : field (.map kvs) (str "canonical_request_digest") with
      | binary b => exact data_binary b
      | _ =>
        rw [hd] at hdigest
        cases hdigest
    · exact data_reason (wellFormed_field hwf _) hreason

/-- A refusal that is published is read as it is. -/
theorem decode_refusal {v : Term} (hwf : WellFormed v)
    (h : validateRecord R v [refusalKind] recordCeiling = .ok (termToBinary v)) :
    decodeMarkerBytes R (termToBinary v) = .ok v := by
  obtain ⟨kvs, rfl, -⟩ := validateRecord_bytes h
  obtain ⟨hkind, hexact, hfields, hsize, -⟩ := validateRecord_eq_ok.1 h
  have hdata := data_refusal hwf h
  refine decodeCapturedRecord_eq_ok.2 ⟨hsize, ?_, ?_, kvs, rfl, validateRecord_eq_ok.2 ⟨?_, hexact, hfields, hsize, rfl⟩⟩
  · rw [termToBinary, encode]
    exact ⟨_, rfl⟩
  · refine R.roundTrip hdata.1 (hsize.trans_lt (by decide)) fun a ha => R.literals a (hdata.2 a ha)
  · exact List.mem_cons_of_mem _ hkind

/-! ## runs -/

/-- What a call has touched at one of its moments. -/
def Call.Touches (R : Runtime) (s t : Disk) : Call → Prop
  | .admitJob _ opened => t = s ∨ ∃ openBytes, validateRecord R opened [openKind] recordCeiling = .ok openBytes ∧
      Admitting s (digest (textOf opened "job_id")) openBytes t
  | .refuse refusal => Refusing R s refusal t
  | .closeOpen job => ∀ p ≠ Path.opened (digest job), t p = s p
  | .restoreOpen opened => Only s (.opened (digest (textOf opened "job_id"))) t

theorem touches_of_moment {call : Call} {rest : Task Unit} (h : Moment effect (call.task R) s rest t) :
    call.Touches R s t := by
  cases call with
  | admitJob marker opened => exact admit_safe.moment h
  | refuse refusal => exact refuse_safe.moment h
  | closeOpen job => exact closeOpen_safe.moment h
  | restoreOpen opened => exact restoreOpen_safe.moment h

theorem Step.touches {i : Call × Option (Check Failure Unit)} (h : Step R s i t) :
    i.1.Touches R s t ∧ i.1.WellFormed := by
  cases h with
  | answered wellFormed moment => exact ⟨touches_of_moment moment, wellFormed⟩
  | cut wellFormed moment => exact ⟨touches_of_moment moment, wellFormed⟩

/-- An admission that is completely published under a name. -/
def Admitted (R : Runtime) (s : Disk) (name : Bytes) (record : Term) : Prop :=
  ∃ bytes, s (.marker name) = some bytes ∧ decodeMarkerBytes R bytes = .ok record ∧
    field record (sym "ledger_kind") = markerKind

/-- The open entry of a name. -/
def HasOpen (R : Runtime) (s : Disk) (name : Bytes) : Prop :=
  ∃ opened bytes, s (.opened name) = some bytes ∧ validateRecord R opened [openKind] recordCeiling = .ok bytes ∧
    digest (textOf opened "job_id") = name

variable {name : Bytes} {record : Term} {i : Call × Option (Check Failure Unit)}

theorem markerKind_ne : markerKind ≠ refusalKind := by decide

/-- **A call leaves an admission as it is.** -/
theorem Step.admission_kept (h : Step R s i t) (hadmitted : Admitted R s name record) :
    t (.marker name) = s (.marker name) := by
  obtain ⟨bytes, hpresent, hdecoded, hkind⟩ := hadmitted
  obtain ⟨call, answer⟩ := i
  have htouches := h.touches.1
  cases call with
  | admitJob marker opened =>
    rcases htouches with rfl | ⟨openBytes, -, htouched⟩
    · rfl
    · by_cases hname : name = digest (textOf opened "job_id")
      · subst hname
        rcases htouched.marker with hsame | ⟨hnone, -⟩
        · exact hsame
        · rw [hpresent] at hnone
          cases hnone
      · exact htouched.others _ Path.noConfusion fun heq => hname (Path.marker.inj heq)
  | refuse refusal =>
    by_cases hname : name = digest (textOf refusal "job_id")
    · subst hname
      rcases htouches.marker with hsame | ⟨-, hreplaceable, -⟩
      · exact hsame
      · cases hreplaceable with
        | absent absent =>
          rw [hpresent] at absent
          cases absent
        | same present decoded kind =>
          obtain rfl := Option.some.inj (hpresent.symm.trans present)
          obtain rfl := Check.ok.inj (hdecoded.symm.trans decoded)
          exact absurd (hkind.symm.trans kind) markerKind_ne
    · exact htouches.others _ (fun heq => hname (Path.marker.inj heq)) fun _ _ => Path.noConfusion
  | closeOpen job => exact htouches _ Path.noConfusion
  | restoreOpen opened => exact htouches.others _ Path.noConfusion

/-- **An admission is published behind its open entry.** -/
theorem Step.admission_opened (h : Step R s i t) (hadmitted : Admitted R t name record) :
    Admitted R s name record ∨ HasOpen R t name := by
  obtain ⟨bytes, hpresent, hdecoded, hkind⟩ := hadmitted
  have hsame : t (.marker name) = s (.marker name) → Admitted R s name record := fun hsame =>
    ⟨bytes, hsame ▸ hpresent, hdecoded, hkind⟩
  obtain ⟨call, answer⟩ := i
  obtain ⟨htouches, hwf⟩ := h.touches
  cases call with
  | admitJob marker opened =>
    rcases htouches with rfl | ⟨openBytes, hvalid, htouched⟩
    · exact .inl (hsame rfl)
    · by_cases hname : name = digest (textOf opened "job_id")
      · subst hname
        rcases htouched.marker with hmarker | ⟨-, -, hopened⟩
        · exact .inl (hsame hmarker)
        · exact .inr ⟨opened, openBytes, hopened, hvalid, rfl⟩
      · exact .inl (hsame (htouched.others _ Path.noConfusion fun heq => hname (Path.marker.inj heq)))
  | refuse refusal =>
    by_cases hname : name = digest (textOf refusal "job_id")
    · subst hname
      rcases htouches.marker with hmarker | ⟨hrefused, -, hvalid⟩
      · exact .inl (hsame hmarker)
      · -- what is renamed over the marker is read as the refusal that it is
        obtain rfl := Option.some.inj (hpresent.symm.trans hrefused)
        obtain rfl := Check.ok.inj (hdecoded.symm.trans (decode_refusal hwf hvalid))
        obtain ⟨kvs, rfl, -⟩ := validateRecord_bytes hvalid
        have hrefusal := List.mem_singleton.1 (validateRecord_eq_ok.1 hvalid).1
        exact absurd (hkind.symm.trans hrefusal) markerKind_ne
    · exact .inl (hsame (htouches.others _ (fun heq => hname (Path.marker.inj heq)) fun _ _ => Path.noConfusion))
  | closeOpen job => exact .inl (hsame (htouches _ Path.noConfusion))
  | restoreOpen opened => exact .inl (hsame (htouches.others _ Path.noConfusion))

/-- **Only a close removes an open entry.** -/
theorem Step.open_kept (h : Step R s i t) (hopen : HasOpen R s name) :
    HasOpen R t name ∨ ∃ job, i.1 = .closeOpen job ∧ digest job = name := by
  obtain ⟨entry, bytes, hpresent, hvalid, hname⟩ := hopen
  have hsame : t (.opened name) = some bytes → HasOpen R t name := fun hsame => ⟨entry, bytes, hsame, hvalid, hname⟩
  obtain ⟨call, answer⟩ := i
  have htouches := h.touches.1
  cases call with
  | admitJob marker opened =>
    rcases htouches with rfl | ⟨openBytes, -, htouched⟩
    · exact .inl (hsame hpresent)
    · by_cases hother : name = digest (textOf opened "job_id")
      · exact .inl (hsame (hother ▸ htouched.opened bytes (hother ▸ hpresent)))
      · exact .inl (hsame ((htouched.others _ (fun heq => hother (Path.opened.inj heq)) Path.noConfusion).trans hpresent))
  | refuse refusal => exact .inl (hsame ((htouches.others _ Path.noConfusion fun _ _ => Path.noConfusion).trans hpresent))
  | closeOpen job =>
    by_cases hother : digest job = name
    · exact .inr ⟨job, rfl, hother⟩
    · exact .inl (hsame ((htouches _ fun heq => hother (Path.opened.inj heq).symm).trans hpresent))
  | restoreOpen opened =>
    by_cases hother : name = digest (textOf opened "job_id")
    · exact .inl (hsame (hother ▸ htouches.kept bytes (hother ▸ hpresent)))
    · exact .inl (hsame ((htouches.others _ fun heq => hother (Path.opened.inj heq)).trans hpresent))

/-- No file of the root. -/
def empty : Disk := fun _ => none

variable {is : List (Call × Option (Check Failure Unit))}

/-- An admission of a run stays as it was published. -/
theorem run_admission_kept (h : Run (Step R) s is t) (hadmitted : Admitted R s name record) :
    t (.marker name) = s (.marker name) := by
  induction h with
  | nil => rfl
  | snoc _ hs ih =>
    obtain ⟨bytes, hpresent, hdecoded, hkind⟩ := hadmitted
    exact (hs.admission_kept ⟨bytes, ih.trans hpresent, hdecoded, hkind⟩).trans ih

/-- An admission of a run has its open entry, or was closed later. -/
theorem run_admission_opened (h : Run (Step R) empty is s) (hadmitted : Admitted R s name record) :
    HasOpen R s name ∨ ∃ before after u, is = before ++ after ∧ Run (Step R) empty before u ∧ Run (Step R) u after s ∧
      Admitted R u name record ∧ ∃ job answer, (Call.closeOpen job, answer) ∈ after ∧ digest job = name := by
  induction h with
  | nil =>
    obtain ⟨bytes, hpresent, -⟩ := hadmitted
    cases hpresent
  | @snoc is u i t hr hs ih =>
    rcases hs.admission_opened hadmitted with hbefore | hopen
    · rcases ih hbefore with hopen | ⟨before, after, v, rfl, hrun, hrun', hv, job, answer, hmem, hjob⟩
      · rcases hs.open_kept hopen with hopen | ⟨job, hcall, hjob⟩
        · exact .inl hopen
        · refine .inr ⟨is, [i], u, rfl, hr, .one hs, hbefore, job, i.2, ?_, hjob⟩
          rw [← hcall]
          exact List.mem_singleton_self _
      · exact .inr ⟨before, after ++ [i], v, List.append_assoc _ _ _, hrun, hrun'.snoc hs, hv, job, answer,
          List.mem_append_left _ hmem, hjob⟩
    · exact .inl hopen

/-- **Publication fails closed.** Whatever calls are made one after the other, each up to any of its moments: an
admission that is published is never replaced; it has its open entry unless that was closed since; an admission that
succeeds has published both of its records where none were; and a refusal replaces nothing, or a refusal of its
identity. -/
theorem publication_fails_closed (h : Run (Step R) empty is s) :
    (∀ js t name record, Run (Step R) s js t → Admitted R s name record → t (.marker name) = s (.marker name)) ∧
    (∀ name record, Admitted R s name record → HasOpen R s name ∨
      ∃ before after u, is = before ++ after ∧ Run (Step R) empty before u ∧ Run (Step R) u after s ∧
        Admitted R u name record ∧ ∃ job answer, (Call.closeOpen job, answer) ∈ after ∧ digest job = name) ∧
    (∀ marker opened t, Step R s (.admitJob marker opened, some (.ok ())) t →
      textOf marker "job_id" = textOf opened "job_id" ∧
      s (.opened (digest (textOf opened "job_id"))) = none ∧ s (.marker (digest (textOf marker "job_id"))) = none ∧
      t (.opened (digest (textOf opened "job_id"))) = some (termToBinary opened) ∧
      t (.marker (digest (textOf marker "job_id"))) = some (termToBinary marker)) ∧
    ∀ refusal answer t, Step R s (.refuse refusal, answer) t →
      (t (.marker (digest (textOf refusal "job_id"))) = s (.marker (digest (textOf refusal "job_id"))) ∨
        t (.marker (digest (textOf refusal "job_id"))) = some (termToBinary refusal) ∧ Replaceable R s refusal) ∧
      ∀ name ≠ digest (textOf refusal "job_id"), t (.marker name) = s (.marker name) := by
  refine ⟨fun _ _ _ _ hrun hadmitted => run_admission_kept hrun hadmitted,
    fun _ _ hadmitted => run_admission_opened h hadmitted, fun marker opened t hstep => ?_, fun refusal answer t hstep => ?_⟩
  · cases hstep with
    | answered _ moment =>
      obtain ⟨openBytes, markerBytes, hopened, hmarker, hjob, hnone, hunmarked, hentry, hmarked⟩ :=
        admit_safe.answer moment () rfl
      obtain ⟨-, -, rfl⟩ := validateRecord_bytes hopened
      obtain ⟨-, -, rfl⟩ := validateRecord_bytes hmarker
      rw [hjob]
      exact ⟨rfl, hnone, hunmarked, hentry, hmarked⟩
  · have htouches : Refusing R s refusal t := hstep.touches.1
    exact ⟨htouches.marker.imp_right fun hchanged => ⟨hchanged.1, hchanged.2.1⟩, fun name hname =>
      htouches.others _ (fun heq => hname (Path.marker.inj heq)) fun _ _ => Path.noConfusion⟩

/-- A publication where nothing is may succeed. -/
theorem publish_succeeds {bytes : Bytes} (h : s path = none) :
    Moment effect (publish path bytes) s (.done (.ok ())) (put (put s path (some [])) path (some bytes)) := by
  have hcreate : effect (.create path) s (.ok () : Except Posix Unit) (put s path (some [])) := ⟨h, rfl⟩
  have hwrite : effect (.write path bytes) (put s path (some [])) (.ok () : Except Posix Unit)
      (put (put s path (some [])) path (some bytes)) := rfl
  have hsync : ∀ t, effect (.sync path) t (.ok () : Except Posix Unit) t := fun _ => rfl
  have hclose : ∀ t, effect (.close path) t (.ok () : Except Posix Unit) t := fun _ => rfl
  have hdirectories : effect (.makeDirectories path) s (.ok () : Except Posix Unit) s := rfl
  have hparent : ∀ t, effect (.openDirectory path) t (.ok () : Except Posix Unit) t := fun _ => rfl
  have hparentSync : ∀ t, effect (.syncDirectory path) t (.ok () : Except Posix Unit) t := fun _ => rfl
  have hparentClose : ∀ t, effect (.closeDirectory path) t (.ok () : Except Posix Unit) t := fun _ => rfl
  refine .bind (.later hdirectories .here) (.bind (.later hcreate (.later hwrite (.later (hsync _)
    (.later (hclose _) .here)))) ?_)
  exact .later (hparent _) (.later (hparentSync _) (.later (hparentClose _) .here))

/-- An admission where nothing is may succeed. -/
theorem admit_succeeds {marker opened : Term} {markerBytes openBytes : Bytes}
    (hmarker : validateRecord R marker [markerKind] recordCeiling = .ok markerBytes)
    (hopened : validateRecord R opened [openKind] recordCeiling = .ok openBytes)
    (hsame : sameFields marker opened ["job_id", "canonical_request_digest", "cleanup_grace_ms"] = true) :
    ∃ t, Moment effect (admitJob R marker opened) empty (.done (.ok ())) t := by
  have hunfold : admitJob R marker opened = (publish (.opened (digest (textOf opened "job_id"))) openBytes).andThen fun _ =>
      publish (.marker (digest (textOf marker "job_id"))) markerBytes := by
    rw [admitJob, hmarker, hopened]
    change (if _ then _ else _) = _
    rw [if_pos hsame]
  rw [hunfold]
  refine ⟨_, .bind (publish_succeeds rfl) (publish_succeeds ?_)⟩
  rw [put_other _ Path.noConfusion, put_other _ Path.noConfusion]
  rfl

end

theorem wellFormed_entriesOf {kvs : List (Term × Term)} (h : ∀ e ∈ kvs, WellFormed e.1 ∧ WellFormed e.2) :
    WellFormed (.map (entriesOf kvs)) :=
  .map (ordered_entriesOf kvs) (fun e he => (h e (mem_entriesOf he)).1) fun e he => (h e (mem_entriesOf he)).2

/-- The records of a small job. -/
def smallMarker : Term :=
  .map (entriesOf [(sym "ledger_kind", markerKind), (str "admission_nonce", .binary (List.replicate 64 48)),
    (str "attempt", .int 1), (str "canonical_request_digest", .binary (List.replicate 64 48)),
    (str "cleanup_grace_ms", .int 1), (str "job_id", str "job"), (str "operation_id", str "operation")])

def smallOpen : Term := openRecord (utf8 "job")

/-- An admission of a small job is published, and no later call replaces its marker. -/
theorem publication_fails_closed_small : ∃ s,
    Run (Step bareRuntime) empty [(.admitJob smallMarker smallOpen, some (.ok ()))] s ∧
    Admitted bareRuntime s (digest (utf8 "job")) smallMarker ∧ HasOpen bareRuntime s (digest (utf8 "job")) ∧
    ∀ js t, Run (Step bareRuntime) s js t → t (.marker (digest (utf8 "job"))) = some (termToBinary smallMarker) := by
  have hmarker : validateRecord bareRuntime smallMarker [markerKind] recordCeiling = .ok (termToBinary smallMarker) := by
    decide +kernel
  have hopened : validateRecord bareRuntime smallOpen [openKind] recordCeiling = .ok (termToBinary smallOpen) := by
    decide +kernel
  obtain ⟨t, hmoment⟩ := admit_succeeds hmarker hopened (by decide)
  have hwf : WellFormed smallMarker ∧ WellFormed smallOpen := by
    constructor
    · refine wellFormed_entriesOf ?_
      simp only [List.forall_mem_cons]
      exact ⟨⟨.atom, .binary⟩, ⟨.binary, .binary⟩, ⟨.binary, .int⟩, ⟨.binary, .binary⟩, ⟨.binary, .int⟩,
        ⟨.binary, .binary⟩, ⟨.binary, .binary⟩, List.forall_mem_nil _⟩
    · refine wellFormed_entriesOf ?_
      simp only [List.forall_mem_cons]
      exact ⟨⟨.atom, .binary⟩, ⟨.binary, .binary⟩, ⟨.binary, .int⟩, ⟨.binary, .binary⟩, ⟨.binary, .binary⟩,
        ⟨.binary, .int⟩, List.forall_mem_nil _⟩
  have hstep : Step bareRuntime empty (.admitJob smallMarker smallOpen, some (.ok ())) t := .answered hwf hmoment
  have hrun := Run.one hstep
  obtain ⟨-, -, -, hentry, hmarked⟩ := (publication_fails_closed Run.nil).2.2.1 _ _ _ hstep
  have hjob : textOf smallMarker "job_id" = utf8 "job" ∧ textOf smallOpen "job_id" = utf8 "job" := by decide
  rw [hjob.1] at hmarked
  rw [hjob.2] at hentry
  have hadmitted : Admitted bareRuntime t (digest (utf8 "job")) smallMarker :=
    ⟨_, hmarked, by decide +kernel, by decide +kernel⟩
  refine ⟨t, hrun, hadmitted, ⟨smallOpen, _, hentry, hopened, by rw [hjob.2]⟩, fun js u hlater => ?_⟩
  rw [(publication_fails_closed hrun).1 js u _ _ hlater hadmitted, hmarked]

end Loopex.Executor.Ledger
