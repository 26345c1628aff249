import Loopex.Store.Item

/-!
# One normalizer

`normalizeAndMeasureItem` is the only answer to what an item is.  What it returns is its own normal form,
and it does not look at the order in which a map is enumerated nor at how a key is spelled.

* `measuredMapMembers_perm`, `measuredMapMembers_congr` — the members of a map, in any order;
* `normalizeAndMeasureItem_idem` — the result normalizes to itself, at the same size;
* `Respelled`, `normalizeAndMeasureItem_respelled` — the result, or the exact refusal, for two spellings
  of one item.
-/

namespace Loopex.Store

open Loopex.Erlang Loopex.Erlang.Term

/-! ## the members of a map -/

/-- The bytes of a key, however it is spelled. -/
def keyBytes : Term → Option Bytes
  | .atom b | .binary b => some b
  | _ => none

theorem normalizeUserKey_congr {s t : Term} (h : keyBytes s = keyBytes t) :
    normalizeUserKey s = normalizeUserKey t := by
  unfold keyBytes at h
  unfold normalizeUserKey
  split at h <;> split at h <;> simp_all

/-- The name of a member. -/
def memberName (e : Term × Term) : Bytes := (keyBytes e.1).getD []

theorem KeyNorm.name {plane : Plane} {e : Term × Term} {b : Bytes} (h : KeyNorm plane e.1 b) :
    b = memberName e := by
  rcases h.spelling with hs | hs <;> simp [memberName, hs, keyBytes]

theorem measuredKeys_of_keyNorm {plane : Plane} {kvs : List (Term × Term)} {keyed : List Bytes}
    (hk : ∀ e ∈ kvs, KeyNorm plane e.1 (memberName e)) (hn : (kvs.map memberName).Nodup)
    (hd : ∀ e ∈ kvs, memberName e ∉ keyed) :
    measuredKeys plane kvs keyed = .ok (kvs.map memberName) := by
  induction kvs generalizing keyed with
  | nil => rfl
  | cons e kvs ih =>
    obtain ⟨he, hkvs⟩ := List.forall_mem_cons.1 hk
    obtain ⟨hne, hn⟩ := List.nodup_cons.1 hn
    obtain ⟨hde, hd⟩ := List.forall_mem_cons.1 hd
    have hrest : measuredKeys plane kvs (memberName e :: keyed) = .ok (kvs.map memberName) := by
      apply ih hkvs hn
      intro e' he' hm
      rcases List.mem_cons.1 hm with heq | hm
      · exact hne (heq ▸ List.mem_map_of_mem he')
      · exact hd e' he' hm
    simp only [measuredKeys, he.1, he.2, hde, not_false_eq_true, and_self, if_true, hrest]
    rfl

/-- The keys are in order iff each is normal and they are distinct. -/
theorem measuredKeys_eq_ok {plane : Plane} {kvs : List (Term × Term)} {keys : List Bytes} :
    measuredKeys plane kvs [] = .ok keys ↔ keys = kvs.map memberName ∧
      (∀ e ∈ kvs, KeyNorm plane e.1 (memberName e)) ∧ (kvs.map memberName).Nodup := by
  constructor
  · intro h
    obtain ⟨hf, hn, -⟩ := measuredKeys_spec h
    have hkeys : keys = kvs.map memberName := by
      clear h hn
      induction hf with
      | nil => rfl
      | cons hb _ ih => rw [List.map_cons, ← hb.name, ih]
    refine ⟨hkeys, ?_, hkeys ▸ hn⟩
    subst hkeys
    rw [List.forall₂_map_right_iff, List.forall₂_same] at hf
    exact hf
  · rintro ⟨rfl, hk, hn⟩
    exact measuredKeys_of_keyNorm hk hn (by simp)

theorem measuredKeys_error {plane : Plane} {kvs : List (Term × Term)} {keyed : List Bytes} {e : Reason}
    (h : measuredKeys plane kvs keyed = .error e) : e = invalidItemReason plane := by
  induction kvs generalizing keyed with
  | nil => cases h
  | cons x kvs ih =>
    simp only [measuredKeys] at h
    split at h
    · next b _ =>
      split at h
      · cases hr : measuredKeys plane kvs (b :: keyed) with
        | ok rest => rw [hr] at h; cases h
        | error e' =>
          rw [hr] at h
          cases h
          exact ih hr
      · cases h; rfl
    · cases h; rfl

/-- The normal form of a member, if its value has one. -/
def member (val : Term × Term → Except Reason Term) (e : Term × Term) : Term × Term :=
  (.binary (memberName e), match val e with
    | .ok v => v
    | .error _ => nil)

theorem gather_eq_some {val : Term × Term → Except Reason Term} {kvs ms : List (Term × Term)} :
    gather (kvs.map memberName) (kvs.map val) = some ms ↔
      (∀ e ∈ kvs, ∃ v, val e = .ok v) ∧ ms = kvs.map (member val) := by
  induction kvs generalizing ms with
  | nil => simp [gather, eq_comm]
  | cons e kvs ih =>
    rw [List.map_cons, List.map_cons, List.forall_mem_cons]
    cases he : val e with
    | error r => simp [gather]
    | ok v =>
      simp only [gather, Option.map_eq_some_iff, ih, Except.ok.injEq, exists_eq', true_and, List.map_cons,
        member, he]
      constructor
      · rintro ⟨ms', ⟨h, rfl⟩, rfl⟩
        exact ⟨h, rfl⟩
      · rintro ⟨h, rfl⟩
        exact ⟨_, ⟨h, rfl⟩, rfl⟩

theorem zip_map_memberName (val : Term × Term → Except Reason Term) (kvs : List (Term × Term)) :
    (kvs.map memberName).zip (kvs.map val) = kvs.map fun e => (memberName e, val e) := by
  rw [List.zip_map']

/-- Members whose names differ are found in the same order however they are enumerated. -/
theorem mergeSort_perm {kvs kvs' : List (Term × Term)} (val : Term × Term → Except Reason Term)
    (h : kvs.Perm kvs') (hn : (kvs.map memberName).Nodup) :
    ((kvs.map memberName).zip (kvs.map val)).mergeSort (fun a b => decide (a.1 ≤ b.1)) =
      ((kvs'.map memberName).zip (kvs'.map val)).mergeSort fun a b => decide (a.1 ≤ b.1) := by
  rw [zip_map_memberName, zip_map_memberName]
  have hp := h.map fun e => (memberName e, val e)
  have hsorted : ∀ l : List (Bytes × Except Reason Term),
      (l.mergeSort fun a b => decide (a.1 ≤ b.1)).Pairwise fun a b => decide (a.1 ≤ b.1) = true :=
    fun l => List.pairwise_mergeSort
      (fun a b c hab hbc => by simp only [decide_eq_true_eq] at *; exact List.le_trans hab hbc)
      (fun a b => by simpa using List.le_total a.1 b.1) l
  have hinj := List.inj_on_of_nodup_map hn
  refine (((List.mergeSort_perm _ _).trans hp).trans (List.mergeSort_perm _ _).symm).eq_of_pairwise ?_
    (hsorted _) (hsorted _)
  intro a b ha hb hab hba
  obtain ⟨x, hx, rfl⟩ := List.mem_map.1 ((List.mergeSort_perm _ _).mem_iff.1 ha)
  obtain ⟨y, hy, rfl⟩ := List.mem_map.1 ((List.mergeSort_perm _ _).mem_iff.1 hb)
  simp only [decide_eq_true_eq] at hab hba
  rw [hinj hx (h.mem_iff.2 hy) (List.le_antisymm hab hba)]

theorem perm_member {val : Term × Term → Except Reason Term} {kvs : List (Term × Term)}
    (hn : (kvs.map memberName).Nodup) : (entriesOf (kvs.map (member val))).Perm (kvs.map (member val)) := by
  refine perm_entriesOf (List.pairwise_map.2 ((List.pairwise_map.1 hn).imp fun hne heq => hne ?_))
  exact encode_binary_inj.1 heq

/-- **The members of a map do not depend on its enumeration.** -/
theorem measuredMapMembers_perm {plane : Plane} {kvs kvs' : List (Term × Term)} (h : kvs.Perm kvs')
    (depth : ℕ) : measuredMapMembers plane kvs depth = measuredMapMembers plane kvs' depth := by
  unfold measuredMapMembers
  cases hk : measuredKeys plane kvs [] with
  | error e =>
    cases hk' : measuredKeys plane kvs' [] with
    | error e' => rw [measuredKeys_error hk, measuredKeys_error hk']; rfl
    | ok keys =>
      obtain ⟨-, hkey, hn⟩ := measuredKeys_eq_ok.1 hk'
      have hok := @measuredKeys_of_keyNorm plane kvs [] (fun e he => hkey e (h.mem_iff.1 he))
        (((h.map memberName).nodup_iff).2 hn) (by simp)
      rw [hok] at hk
      cases hk
  | ok keys =>
    obtain ⟨rfl, hkey, hn⟩ := measuredKeys_eq_ok.1 hk
    have hn' := ((h.map memberName).nodup_iff).1 hn
    rw [measuredKeys_of_keyNorm (fun e he => hkey e (h.mem_iff.2 he)) hn' (by simp)]
    change measuredChildren _ _ _ = measuredChildren _ _ _
    rw [measuredValues_eq, measuredValues_eq]
    unfold measuredChildren
    dsimp only
    rw [mergeSort_perm _ h hn]
    cases hg : gather (kvs.map memberName) (kvs.map fun e => measuredValue plane e.2 (depth + 1)) with
    | some ms =>
      obtain ⟨hall, rfl⟩ := gather_eq_some.1 hg
      rw [gather_eq_some.2 ⟨fun e he => hall e (h.mem_iff.2 he), rfl⟩]
      refine congrArg Except.ok (Ordered.eq_of_perm (ordered_entriesOf _) (ordered_entriesOf _) ?_)
      exact ((perm_member hn).trans (h.map _)).trans (perm_member hn').symm
    | none =>
      cases hg' : gather (kvs'.map memberName)
          (kvs'.map fun e => measuredValue plane e.2 (depth + 1)) with
      | none => rfl
      | some ms' =>
        have hall := (gather_eq_some.1 hg').1
        rw [gather_eq_some.2 ⟨fun e he => hall e (h.mem_iff.1 he), rfl⟩] at hg
        cases hg

theorem measuredKeys_congr {plane : Plane} {kvs kvs' : List (Term × Term)}
    (h : List.Forall₂ (fun e e' => keyBytes e.1 = keyBytes e'.1) kvs kvs') (keyed : List Bytes) :
    measuredKeys plane kvs keyed = measuredKeys plane kvs' keyed := by
  induction h generalizing keyed with
  | nil => rfl
  | @cons e e' kvs kvs' he _ ih => simp only [measuredKeys, normalizeUserKey_congr he, ih]

/-- Members that are named alike and measure alike. -/
theorem measuredMapMembers_congr {plane : Plane} {kvs kvs' : List (Term × Term)} {depth : ℕ}
    (h : List.Forall₂ (fun e e' => keyBytes e.1 = keyBytes e'.1 ∧
      measuredValue plane e.2 (depth + 1) = measuredValue plane e'.2 (depth + 1)) kvs kvs') :
    measuredMapMembers plane kvs depth = measuredMapMembers plane kvs' depth := by
  unfold measuredMapMembers
  rw [measuredKeys_congr (h.imp fun _ _ he => he.1), measuredValues_eq, measuredValues_eq]
  have hv : kvs.map (fun e => measuredValue plane e.2 (depth + 1)) =
      kvs'.map fun e => measuredValue plane e.2 (depth + 1) := by
    induction h with
    | nil => rfl
    | cons he _ ih => rw [List.map_cons, List.map_cons, he.2, ih]
  rw [hv]

/-! ## a normal form is its own -/

/-- The entries of a map that is its own normal form. -/
def Settled (plane : Plane) (depth : ℕ) (es : List (Term × Term)) : Prop :=
  Ordered es ∧ ∀ e ∈ es, KeyNorm plane e.1 (memberName e) ∧ e.1 = .binary (memberName e) ∧
    measuredValue plane e.2 (depth + 1) = .ok e.2

theorem Settled.fixed {plane : Plane} {depth : ℕ} {es : List (Term × Term)} (h : Settled plane depth es) :
    measuredMapMembers plane es depth = .ok es := by
  obtain ⟨hord, he⟩ := h
  have hn : (es.map memberName).Nodup := by
    refine List.pairwise_map.2 ((List.pairwise_map.1 hord.nodup).imp_of_mem fun {a b} ha hb hne heq => hne ?_)
    rw [(he a ha).2.1, (he b hb).2.1, heq]
  have hself : es.map (member fun e => measuredValue plane e.2 (depth + 1)) = es := by
    refine (List.map_congr_left fun e hm => ?_).trans (List.map_id es)
    obtain ⟨-, hb, hv⟩ := he e hm
    simp only [member, hv, ← hb, id]
  unfold measuredMapMembers
  rw [measuredKeys_of_keyNorm (fun e hm => (he e hm).1) hn (by simp)]
  change measuredChildren _ _ _ = _
  rw [measuredValues_eq]
  unfold measuredChildren
  rw [gather_eq_some.2 ⟨fun e hm => ⟨_, (he e hm).2.2⟩, rfl⟩]
  simp only [hself, entriesOf_ordered hord]

theorem Settled.not_isStruct {plane : Plane} {depth : ℕ} {es : List (Term × Term)}
    (h : Settled plane depth es) : isStruct es = false := by
  have hnone : lookup (sym "__struct__") es = none := by
    rw [lookup_eq_none]
    intro e he
    rw [(h.2 e he).2.1]
    simp [sym]
  simp [isStruct, hnone]

/-- The normal members of a map are settled, once their values are. -/
theorem Members.settled {plane : Plane} {depth : ℕ} {kvs ms : List (Term × Term)}
    (h : Members plane depth kvs ms)
    (ih : ∀ e ∈ kvs, ∀ y, measuredValue plane e.2 (depth + 1) = .ok y →
      measuredValue plane y (depth + 1) = .ok y) : Settled plane depth (entriesOf ms) := by
  refine ⟨ordered_entriesOf ms, fun m hm => ?_⟩
  obtain ⟨e, he, ⟨b, hb, hmb⟩, hv⟩ := h.mem (h.perm.mem_iff.1 hm)
  have hname : memberName m = b := by simp [memberName, hmb, keyBytes]
  rw [hname]
  refine ⟨⟨?_, hb.2⟩, hmb, ih e he _ hv⟩
  simp [hmb, normalizeUserKey, hb.length]

theorem Members.length_eq {plane : Plane} {depth : ℕ} {kvs ms : List (Term × Term)}
    (h : Members plane depth kvs ms) : (entriesOf ms).length = kvs.length := by
  rw [h.perm.length_eq, h.1.length_eq]

theorem measuredListMembers_of_forall₂ {plane : Plane} {xs ys : List Term} {depth : ℕ}
    (h : List.Forall₂ (fun x y => measuredValue plane x (depth + 1) = .ok y) xs ys) :
    measuredListMembers plane xs depth = .ok ys := by
  induction h with
  | nil => rfl
  | cons hx _ ih => simp only [measuredListMembers, hx, ih]; rfl

theorem measuredCardinality_eq_ok {size : ℕ} {u : Unit} : measuredCardinality size = .ok u ↔ size ≤ maxItems := by
  unfold measuredCardinality
  split
  · next h => simpa using h
  · next h => simpa using h

/-- A value on the way down: what `measuredValue` asks of a collection before its members. -/
theorem measuredValue_list_eq_ok {plane : Plane} {xs : List Term} {depth : ℕ} {y : Term} :
    measuredValue plane (.list xs) depth = .ok y ↔ depth ≤ maxDepth ∧ xs.length ≤ maxItems ∧
      ∃ ys, measuredListMembers plane xs depth = .ok ys ∧ y = .list ys := by
  rw [measuredValue]
  split
  · next hd => simp only [reduceCtorEq, false_iff, not_and]; omega
  · next hd =>
    simp only [Except.bind_eq_ok, measuredCardinality_eq_ok, exists_const, Except.ok.injEq]
    have : depth ≤ maxDepth := by omega
    simp only [this, true_and, eq_comm]

theorem measuredValue_map_eq (plane : Plane) (kvs : List (Term × Term)) (depth : ℕ) :
    measuredValue plane (.map kvs) depth =
      if depth > maxDepth then .error (.itemStructureExceeded .depth depth maxDepth)
      else if isStruct kvs then .error (invalidItemReason plane)
      else measuredCardinality kvs.length >>= fun _ =>
        measuredMapMembers plane kvs depth >>= fun es => .ok (.map es) := by
  rw [measuredValue]
  simp only [measuredMapMembers, bind_assoc]

theorem measuredValue_map_eq_ok {plane : Plane} {kvs : List (Term × Term)} {depth : ℕ} {y : Term} :
    measuredValue plane (.map kvs) depth = .ok y ↔ depth ≤ maxDepth ∧ isStruct kvs = false ∧
      kvs.length ≤ maxItems ∧ ∃ es, measuredMapMembers plane kvs depth = .ok es ∧ y = .map es := by
  rw [measuredValue_map_eq]
  split
  · next hd => simp only [reduceCtorEq, false_iff, not_and]; omega
  · next hd =>
    have hd : depth ≤ maxDepth := by omega
    split
    · next hs => simp [hs]
    · next hs =>
      simp only [Except.bind_eq_ok, measuredCardinality_eq_ok, exists_const, Except.ok.injEq, hd, true_and, hs,
        @eq_comm _ y]

/-- What is no collection is its own normal form. -/
theorem measuredValue_leaf {plane : Plane} {x y : Term} {depth : ℕ} (h : measuredValue plane x depth = .ok y)
    (hl : ∀ xs, x ≠ .list xs) (hm : ∀ kvs, x ≠ .map kvs) : y = x := by
  cases x with
  | list xs => exact absurd rfl (hl xs)
  | map kvs => exact absurd rfl (hm kvs)
  | improper xs t =>
    rw [measuredValue] at h
    split at h
    · cases h
    · obtain ⟨-, -, h⟩ := Except.bind_eq_ok.1 h
      cases h
  | _ =>
    simp only [measuredValue] at h
    (repeat' split at h) <;> simp_all

/-- **Idempotence, below the root.** -/
theorem measuredValue_idem {plane : Plane} {x y : Term} {depth : ℕ}
    (h : measuredValue plane x depth = .ok y) : measuredValue plane y depth = .ok y := by
  induction x using Term.ind generalizing depth y with
  | list xs ih =>
    obtain ⟨hd, hl, ys, hys, rfl⟩ := measuredValue_list_eq_ok.1 h
    have hf := measuredListMembers_spec hys
    refine measuredValue_list_eq_ok.2 ⟨hd, hf.length_eq ▸ hl, ys, ?_, rfl⟩
    apply measuredListMembers_of_forall₂
    refine List.forall₂_same.2 fun y hy => ?_
    obtain ⟨i, hi, rfl⟩ := List.getElem_of_mem hy
    have hi' : i < xs.length := by rw [hf.length_eq]; exact hi
    exact ih _ (List.getElem_mem hi') ((List.forall₂_iff_get.1 hf).2 i hi' hi)
  | map kvs ih =>
    obtain ⟨hd, -, hl, es, hes, rfl⟩ := measuredValue_map_eq_ok.1 h
    obtain ⟨ms, hms, rfl⟩ := measuredMapMembers_spec hes
    have hset := hms.settled fun e he y hy => (ih e he).2 hy
    exact measuredValue_map_eq_ok.2 ⟨hd, hset.not_isStruct, hms.length_eq ▸ hl, _, hset.fixed, rfl⟩
  | _ =>
    obtain rfl := measuredValue_leaf h (by simp) (by simp)
    exact h

/-! ### the root -/

theorem keyBytes_eq_some {t : Term} {b : Bytes} : keyBytes t = some b ↔ t = .atom b ∨ t = .binary b := by
  cases t <;> simp [keyBytes]

/-- What `take_required` leaves is smaller, and holds the field under neither spelling. -/
theorem takeRequired_rest {kvs rest : List (Term × Term)} {field : String} {v : Term}
    (h : takeRequired kvs field = .ok (v, rest)) :
    (∀ e ∈ rest, e ∈ kvs ∧ keyBytes e.1 ≠ some (utf8 field)) ∧ rest.length + 1 ≤ kvs.length := by
  obtain ⟨key, other, hk, hsome, hnone, rfl⟩ := takeRequired_eq_ok h
  have hmem := lookup_eq_some hsome
  constructor
  · intro e he
    obtain ⟨hin, hne⟩ := List.mem_filter.1 he
    have hne : e.1 ≠ key := by simpa using hne
    have hno := lookup_eq_none.1 hnone e hin
    refine ⟨hin, fun hb => ?_⟩
    rcases keyBytes_eq_some.1 hb with hb | hb <;> rcases hk with ⟨rfl, rfl⟩ | ⟨rfl, rfl⟩
    · exact hne hb
    · exact hno hb
    · exact hno hb
    · exact hne hb
  · rw [deleteKey, ← List.countP_eq_length_filter, Nat.succ_le_iff]
    refine lt_of_le_of_ne List.countP_le_length fun heq => ?_
    have := (List.countP_eq_length.1 heq) _ hmem
    simp at this

theorem takeRequired_putEntry {es : List (Term × Term)} {field : String} (v : Term)
    (h1 : ∀ e ∈ es, encode e.1 ≠ encode (sym field)) (h2 : ∀ e ∈ es, e.1 ≠ str field) :
    takeRequired (putEntry (sym field) v es) field = .ok (v, es) := by
  have hnone : lookup (str field) (putEntry (sym field) v es) = none := by
    rw [lookup_eq_none]
    intro e he
    rcases mem_putEntry he with rfl | he
    · simp [sym, str]
    · exact h2 e he
  rw [takeRequired, lookup_putEntry_self, hnone, deleteKey_putEntry h1]

theorem length_putEntry_le (k v : Term) (kvs : List (Term × Term)) :
    (putEntry k v kvs).length ≤ kvs.length + 1 := by
  induction kvs with
  | nil => simp [putEntry]
  | cons e kvs ih =>
    simp only [putEntry]
    split
    · simp
    · split
      · simpa using ih
      · simp

theorem lookup_struct {es : List (Term × Term)} (h : ∀ e ∈ es, e.1 ≠ sym "__struct__") : isStruct es = false := by
  simp [isStruct, lookup_eq_none.2 h]

/-- What a root is put together from: its members, none of them named like what is put back. -/
structure RootParts (plane : Plane) (es : List (Term × Term)) (names : List String) : Prop where
  settled : Settled plane 0 es
  apart : ∀ e ∈ es, ∀ name ∈ names, e.1 ≠ str name

theorem RootParts.encode_ne {plane : Plane} {es : List (Term × Term)} {names : List String}
    (h : RootParts plane es names) (name : String) : ∀ e ∈ es, encode e.1 ≠ encode (sym name) := by
  intro e he
  rw [(h.settled.2 e he).2.1]
  exact encode_binary_ne_atom

theorem measuredRoot_record {es : List (Term × Term)} {kind : Bytes} (h : RootParts .record es ["kind"])
    (hk : 0 < kind.length ∧ kind.length ≤ maxIdentifierBytes) (hl : es.length + 1 ≤ maxItems) :
    measuredRoot .record (putEntry (sym "kind") (.binary kind) es) =
      .ok (.map (putEntry (sym "kind") (.binary kind) es)) := by
  have hlen := length_putEntry_le (sym "kind") (.binary kind) es
  have hcard := (measuredCardinality_eq_ok (u := ())).2 (hlen.trans hl)
  have htake := takeRequired_putEntry (.binary kind) (h.encode_ne "kind")
    fun e he => h.apart e he _ (by simp)
  have hkind : normalizeKind (.binary kind) = .ok kind := by simp [normalizeKind, hk]
  unfold measuredRoot
  simp only [hcard, htake, hkind, takeMeasuredEventId, h.settled.fixed, bind, Except.bind, List.foldl_nil]

theorem measuredRoot_event {es : List (Term × Term)} {kind : Bytes} {id : Identifier}
    (h : RootParts .event es ["kind", "event_id"])
    (hk : 0 < kind.length ∧ kind.length ≤ maxIdentifierBytes) (hl : es.length + 2 ≤ maxItems) :
    measuredRoot .event (putEntry (sym "kind") (.binary kind) (putEntry (sym "event_id") (.binary id.bytes) es)) =
      .ok (.map (putEntry (sym "kind") (.binary kind)
        (putEntry (sym "event_id") (.binary id.bytes) es))) := by
  have hlen := length_putEntry_le (sym "kind") (.binary kind) (putEntry (sym "event_id") (.binary id.bytes) es)
  have hlen' := length_putEntry_le (sym "event_id") (.binary id.bytes) es
  have hcard := (measuredCardinality_eq_ok (u := ())).2 (hlen.trans (by omega : _ ≤ maxItems))
  have hid : encode (sym "event_id") ≠ encode (sym "kind") := by decide
  have htake : takeRequired (putEntry (sym "kind") (.binary kind)
      (putEntry (sym "event_id") (.binary id.bytes) es)) "kind" =
        .ok (.binary kind, putEntry (sym "event_id") (.binary id.bytes) es) := by
    apply takeRequired_putEntry
    · intro e he
      rcases mem_putEntry he with rfl | he
      · exact hid
      · exact h.encode_ne "kind" e he
    · intro e he
      rcases mem_putEntry he with rfl | he
      · simp [sym, str]
      · exact h.apart e he _ (by simp)
  have htake' := takeRequired_putEntry (.binary id.bytes) (h.encode_ne "event_id")
    fun e he => h.apart e he _ (by simp)
  have hkind : normalizeKind (.binary kind) = .ok kind := by simp [normalizeKind, hk]
  have hident : validateIdentifier (.binary id.bytes) = .ok id := by simp
  unfold measuredRoot
  simp only [hcard, htake, hkind, takeMeasuredEventId, htake', hident, h.settled.fixed, bind, Except.bind,
    List.foldl_cons, List.foldl_nil]

theorem Members.rootParts {plane : Plane} {rest ms : List (Term × Term)} (h : Members plane 0 rest ms)
    {names : List String} (hn : ∀ e ∈ rest, ∀ name ∈ names, keyBytes e.1 ≠ some (utf8 name)) :
    RootParts plane (entriesOf ms) names := by
  refine ⟨h.settled fun e _ y hy => measuredValue_idem hy, fun m hm name hname heq => ?_⟩
  obtain ⟨e, he, ⟨b, hb, hmb⟩, -⟩ := h.mem (h.perm.mem_iff.1 hm)
  rw [hmb] at heq
  cases heq
  exact hn e he name hname (keyBytes_eq_some.2 hb.spelling)

/-- **A normalized item is its own normal form.** -/
theorem normalizeMeasuredRoot_idem {plane : Plane} {item n : Term}
    (h : normalizeMeasuredRoot plane item = .ok n) : normalizeMeasuredRoot plane n = .ok n := by
  obtain ⟨kvs, rfl, -, h⟩ := normalizeMeasuredRoot_eq_ok.1 h
  have hcard : kvs.length ≤ maxItems := by
    unfold measuredRoot at h
    obtain ⟨u, hu, -⟩ := Except.bind_eq_ok.1 h
    exact measuredCardinality_eq_ok.1 hu
  obtain ⟨v, kind, id, rest, withoutKind, ms, hv, hkind, hreq, hms, rfl⟩ := measuredRoot_spec h
  obtain ⟨hkeys, hlen⟩ := takeRequired_rest hv
  have hk := (normalizeKind_eq hkind).2
  have hbin : ∀ e ∈ entriesOf ms, e.1 ≠ sym "__struct__" := by
    intro e he heq
    obtain ⟨b, hb⟩ := hms.binary (hms.perm.mem_iff.1 he)
    rw [hb] at heq
    cases heq
  cases plane with
  | record =>
    cases hreq
    have hparts := @Members.rootParts _ _ _ hms ["kind"] fun e he name hname => by
      rw [List.mem_singleton.1 hname]
      exact (hkeys e he).2
    have hl : (entriesOf ms).length + 1 ≤ maxItems := by
      rw [hms.length_eq]
      exact hlen.trans hcard
    refine normalizeMeasuredRoot_eq_ok.2 ⟨_, rfl, lookup_struct fun e he => ?_,
      measuredRoot_record hparts hk hl⟩
    rcases mem_putEntry he with rfl | he
    · simp
    · exact hbin e he
  | event =>
    simp only [takeMeasuredEventId] at hreq
    obtain ⟨⟨w, rest'⟩, hw, hreq⟩ := Except.bind_eq_ok.1 hreq
    obtain ⟨id', -, hreq⟩ := Except.bind_eq_ok.1 hreq
    obtain rfl : rest' = rest := congrArg Prod.snd (Except.ok.inj hreq)
    obtain ⟨hkeys', hlen'⟩ := takeRequired_rest hw
    have hparts := @Members.rootParts _ _ _ hms ["kind", "event_id"] fun e he name hname => by
      rcases List.mem_cons.1 hname with rfl | hname
      · exact (hkeys e (hkeys' e he).1).2
      · rw [List.mem_singleton.1 hname]
        exact (hkeys' e he).2
    have hl : (entriesOf ms).length + 2 ≤ maxItems := by
      rw [hms.length_eq]
      omega
    refine normalizeMeasuredRoot_eq_ok.2 ⟨_, rfl, lookup_struct fun e he => ?_,
      measuredRoot_event hparts hk hl⟩
    rcases mem_putEntry he with rfl | he
    · simp
    · rcases mem_putEntry he with rfl | he
      · simp
      · exact hbin e he

/-- **The result of the normalizer is its own**, at the same size. -/
theorem normalizeAndMeasureItem_idem {plane : Plane} {item n : Term} {size : ℕ}
    (h : normalizeAndMeasureItem plane item = .ok (n, size)) :
    normalizeAndMeasureItem plane n = .ok (n, size) := by
  obtain ⟨n', hn, h⟩ := Except.bind_eq_ok.1 h
  cases h
  unfold normalizeAndMeasureItem
  rw [normalizeMeasuredRoot_idem hn]
  rfl

/-! ## two spellings of one item -/

/-- `x` and `y` are one item, up to the order in which maps are enumerated and to whether a key is an atom
or a binary.  The one key whose spelling is read is a `__struct__` over an atom: it makes a map a struct. -/
inductive Respelled : Term → Term → Prop
  | refl (x : Term) : Respelled x x
  | symm {x y : Term} : Respelled x y → Respelled y x
  | trans {x y z : Term} : Respelled x y → Respelled y z → Respelled x z
  | order {kvs kvs' : List (Term × Term)} : (kvs.map Prod.fst).Nodup → kvs.Perm kvs' →
    Respelled (.map kvs) (.map kvs')
  | key {xs zs : List (Term × Term)} {b : Bytes} {v : Term} :
    ((xs ++ (.atom b, v) :: zs).map Prod.fst).Nodup → ((xs ++ (.binary b, v) :: zs).map Prod.fst).Nodup →
    (b = utf8 "__struct__" → ∀ a, v ≠ .atom a) →
    Respelled (.map (xs ++ (.atom b, v) :: zs)) (.map (xs ++ (.binary b, v) :: zs))
  | value {xs zs : List (Term × Term)} {k v w : Term} : ((xs ++ (k, v) :: zs).map Prod.fst).Nodup →
    Respelled v w → Respelled (.map (xs ++ (k, v) :: zs)) (.map (xs ++ (k, w) :: zs))
  | inKey {xs zs : List (Term × Term)} {k l v : Term} : ((xs ++ (k, v) :: zs).map Prod.fst).Nodup →
    ((xs ++ (l, v) :: zs).map Prod.fst).Nodup → Respelled k l →
    Respelled (.map (xs ++ (k, v) :: zs)) (.map (xs ++ (l, v) :: zs))
  | member {xs zs : List Term} {v w : Term} : Respelled v w →
    Respelled (.list (xs ++ v :: zs)) (.list (xs ++ w :: zs))
  | inTuple {xs zs : List Term} {v w : Term} : Respelled v w →
    Respelled (.tuple (xs ++ v :: zs)) (.tuple (xs ++ w :: zs))
  | inImproper {xs zs : List Term} {t v w : Term} : Respelled v w →
    Respelled (.improper (xs ++ v :: zs) t) (.improper (xs ++ w :: zs) t)
  | inTail {xs : List Term} {v w : Term} : Respelled v w → Respelled (.improper xs v) (.improper xs w)

/-- What the checks that do not go below a term see of it. -/
def leaf : Term → Option Term
  | .atom b => some (.atom b)
  | .binary b => some (.binary b)
  | _ => none

theorem normalizeKind_leaf {v w : Term} (h : leaf v = leaf w) : normalizeKind v = normalizeKind w := by
  unfold leaf at h
  split at h <;> split at h <;> simp_all [normalizeKind]

theorem validateIdentifier_leaf {v w : Term} (h : leaf v = leaf w) :
    validateIdentifier v = validateIdentifier w := by
  unfold leaf at h
  split at h <;> split at h <;> simp_all [validateIdentifier]

theorem keyBytes_leaf {v w : Term} (h : leaf v = leaf w) : keyBytes v = keyBytes w := by
  unfold leaf at h
  split at h <;> split at h <;> simp_all [keyBytes]

def namesModule : Term → Bool
  | .atom _ => true
  | _ => false

theorem namesModule_leaf {v w : Term} (h : leaf v = leaf w) : namesModule v = namesModule w := by
  unfold leaf at h
  split at h <;> split at h <;> simp_all [namesModule]

/-- Whether a member makes its map a struct. -/
def structMember (e : Term × Term) : Bool := e.1 = sym "__struct__" && namesModule e.2

theorem leaf_eq_sym {t : Term} {name : String} : leaf t = some (sym name) ↔ t = sym name := by
  cases t <;> simp [leaf, sym]

theorem structMember_leaf {e e' : Term × Term} (hk : leaf e.1 = leaf e'.1) (hv : leaf e.2 = leaf e'.2) :
    structMember e = structMember e' := by
  have hkey : e.1 = sym "__struct__" ↔ e'.1 = sym "__struct__" := by
    rw [← leaf_eq_sym, hk, leaf_eq_sym]
  rw [Bool.eq_iff_iff]
  simp only [structMember, Bool.and_eq_true, decide_eq_true_eq, hkey, namesModule_leaf hv]

theorem isStruct_eq_any {kvs : List (Term × Term)} (hn : (kvs.map Prod.fst).Nodup) :
    isStruct kvs = kvs.any structMember := by
  rw [Bool.eq_iff_iff, List.any_eq_true]
  unfold isStruct
  constructor
  · intro h
    split at h
    · next a ha => exact ⟨_, lookup_eq_some ha, by simp [structMember, namesModule]⟩
    · cases h
  · rintro ⟨⟨k, v⟩, he, hs⟩
    simp only [structMember, Bool.and_eq_true, decide_eq_true_eq] at hs
    obtain ⟨rfl, hs⟩ := hs
    rw [lookup_of_mem hn he]
    unfold namesModule at hs
    split at hs
    · rfl
    · cases hs

/-- Two terms that nothing in the normalizer tells apart. -/
structure Agree (x y : Term) : Prop where
  leaf : leaf x = leaf y
  value : ∀ plane depth, measuredValue plane x depth = measuredValue plane y depth
  root : ∀ plane, normalizeMeasuredRoot plane x = normalizeMeasuredRoot plane y

/-- Two members that nothing in the normalizer tells apart. -/
structure AlikeMember (e e' : Term × Term) : Prop where
  key : keyBytes e.1 = keyBytes e'.1
  struct : structMember e = structMember e'
  value : Agree e.2 e'.2

/-- Two maps with the same members, in some order. -/
structure AlikeMap (kvs kvs' : List (Term × Term)) : Prop where
  nodup : (kvs.map Prod.fst).Nodup
  nodup' : (kvs'.map Prod.fst).Nodup
  members : ∃ ms, kvs.Perm ms ∧ List.Forall₂ AlikeMember ms kvs'

namespace AlikeMap

variable {plane : Plane} {kvs kvs' : List (Term × Term)}

theorem length_eq (h : AlikeMap kvs kvs') : kvs.length = kvs'.length := by
  obtain ⟨ms, hp, hf⟩ := h.members
  rw [hp.length_eq, hf.length_eq]

theorem isStruct_eq (h : AlikeMap kvs kvs') : isStruct kvs = isStruct kvs' := by
  obtain ⟨ms, hp, hf⟩ := h.members
  have hms : ms.any structMember = kvs'.any structMember := by
    clear hp h
    induction hf with
    | nil => rfl
    | cons he _ ih => rw [List.any_cons, List.any_cons, he.struct, ih]
  have hperm : kvs.any structMember = ms.any structMember := by
    rw [Bool.eq_iff_iff, List.any_eq_true, List.any_eq_true]
    simp only [hp.mem_iff]
  rw [isStruct_eq_any h.nodup, isStruct_eq_any h.nodup', hperm, hms]

theorem members_eq (h : AlikeMap kvs kvs') (depth : ℕ) :
    measuredMapMembers plane kvs depth = measuredMapMembers plane kvs' depth := by
  obtain ⟨ms, hp, hf⟩ := h.members
  rw [measuredMapMembers_perm hp]
  exact measuredMapMembers_congr (hf.imp fun _ _ he => ⟨he.key, he.value.value _ _⟩)

/-- Alike maps stay alike without the members of one name. -/
theorem filter (h : AlikeMap kvs kvs') (b : Bytes) :
    AlikeMap (kvs.filter fun e => keyBytes e.1 ≠ some b) (kvs'.filter fun e => keyBytes e.1 ≠ some b) := by
  obtain ⟨ms, hp, hf⟩ := h.members
  refine ⟨h.nodup.sublist (List.filter_sublist.map _), h.nodup'.sublist (List.filter_sublist.map _), _,
    hp.filter _, ?_⟩
  clear hp h
  induction hf with
  | nil => exact .nil
  | cons he _ ih =>
    simp only [List.filter_cons, he.key]
    split
    · exact .cons he ih
    · exact ih

end AlikeMap

/-- The members of one name. -/
def named (field : String) (kvs : List (Term × Term)) : List (Term × Term) :=
  kvs.filter fun e => keyBytes e.1 = some (utf8 field)

/-- The members of other names. -/
def unnamed (field : String) (kvs : List (Term × Term)) : List (Term × Term) :=
  kvs.filter fun e => keyBytes e.1 ≠ some (utf8 field)

theorem named_eq_singleton {kvs : List (Term × Term)} {key other v : Term} {field : String}
    (hn : (kvs.map Prod.fst).Nodup)
    (hk : key = sym field ∧ other = str field ∨ key = str field ∧ other = sym field)
    (hsome : lookup key kvs = some v) (hnone : lookup other kvs = none) :
    named field kvs = [(key, v)] ∧ deleteKey key kvs = unnamed field kvs := by
  have hkey : ∀ e ∈ kvs, keyBytes e.1 = some (utf8 field) ↔ e.1 = key := by
    intro e he
    have hno := lookup_eq_none.1 hnone e he
    rw [keyBytes_eq_some]
    change e.1 = sym field ∨ e.1 = str field ↔ _
    rcases hk with ⟨rfl, rfl⟩ | ⟨rfl, rfl⟩
    · exact or_iff_left hno
    · exact or_iff_right hno
  constructor
  · apply List.perm_singleton.1
    refine (List.perm_ext_iff_of_nodup ((List.Nodup.of_map _ hn).filter _) (List.nodup_singleton _)).2 fun e => ?_
    rw [List.mem_filter, List.mem_singleton, decide_eq_true_eq]
    constructor
    · rintro ⟨he, hb⟩
      have hek := (hkey e he).1 hb
      have hv := lookup_of_mem hn (show (key, e.2) ∈ kvs from hek ▸ he)
      rw [hsome] at hv
      exact Prod.ext hek (Option.some.inj hv).symm
    · rintro rfl
      exact ⟨lookup_eq_some hsome, (hkey _ (lookup_eq_some hsome)).2 rfl⟩
  · apply List.filter_congr
    intro e he
    simp only [hkey e he, ne_eq]

/-- `take_required` succeeds iff one member has the name. -/
theorem takeRequired_iff {kvs rest : List (Term × Term)} {field : String} {v : Term}
    (hn : (kvs.map Prod.fst).Nodup) : takeRequired kvs field = .ok (v, rest) ↔
      ∃ e, named field kvs = [e] ∧ v = e.2 ∧ rest = unnamed field kvs := by
  constructor
  · intro h
    obtain ⟨key, other, hk, hsome, hnone, rfl⟩ := takeRequired_eq_ok h
    obtain ⟨h1, h2⟩ := named_eq_singleton hn hk hsome hnone
    exact ⟨_, h1, rfl, h2⟩
  · rintro ⟨e, he, rfl, rfl⟩
    have hmem : ∀ key w, (key = sym field ∨ key = str field) → lookup key kvs = some w → (key, w) = e := by
      intro key w hk hw
      have hm : (key, w) ∈ named field kvs := by
        refine List.mem_filter.2 ⟨lookup_eq_some hw, ?_⟩
        rw [decide_eq_true_eq, keyBytes_eq_some]
        exact hk
      rw [he] at hm
      exact List.mem_singleton.1 hm
    unfold takeRequired
    split
    · next w hsome hnone =>
      have hw := hmem _ _ (.inl rfl) hsome
      rw [(named_eq_singleton hn (.inl ⟨rfl, rfl⟩) hsome hnone).2, ← hw]
    · next w hnone hsome =>
      have hw := hmem _ _ (.inr rfl) hsome
      rw [(named_eq_singleton hn (.inr ⟨rfl, rfl⟩) hsome hnone).2, ← hw]
    · next h1 h2 =>
      have hm : e ∈ named field kvs := by simp [he]
      obtain ⟨hin, hb⟩ := List.mem_filter.1 hm
      rw [decide_eq_true_eq, keyBytes_eq_some] at hb
      have hl := lookup_of_mem hn (show (e.1, e.2) ∈ kvs from hin)
      cases ha : lookup (sym field) kvs with
      | some w =>
        cases hs : lookup (str field) kvs with
        | none => exact absurd hs (h1 w ha)
        | some w' =>
          have h3 := (hmem _ _ (.inl rfl) ha).trans (hmem _ _ (.inr rfl) hs).symm
          simp [sym, str] at h3
      | none =>
        cases hs : lookup (str field) kvs with
        | some w' => exact absurd hs (h2 w' ha)
        | none =>
          rcases hb with hb | hb
          · rw [hb] at hl
            rw [show Term.atom (utf8 field) = sym field from rfl, ha] at hl
            cases hl
          · rw [hb] at hl
            rw [show Term.binary (utf8 field) = str field from rfl, hs] at hl
            cases hl

theorem takeRequired_error {kvs : List (Term × Term)} {field : String} {e : Reason}
    (h : takeRequired kvs field = .error e) : e = .invalidRequiredField := by
  unfold takeRequired at h
  split at h <;> cases h
  rfl

theorem forall₂_named {ms kvs : List (Term × Term)} (h : List.Forall₂ AlikeMember ms kvs) (field : String) :
    List.Forall₂ AlikeMember (named field ms) (named field kvs) := by
  induction h with
  | nil => exact .nil
  | cons he _ ih =>
    simp only [named, List.filter_cons, he.key] at ih ⊢
    split
    · exact .cons he ih
    · exact ih

/-- **`take_required` takes the same member of two alike maps.** -/
theorem takeRequired_alike {kvs kvs' : List (Term × Term)} (h : AlikeMap kvs kvs') (field : String) :
    (takeRequired kvs field = .error .invalidRequiredField ∧
      takeRequired kvs' field = .error .invalidRequiredField) ∨
    ∃ v v' rest rest', takeRequired kvs field = .ok (v, rest) ∧ takeRequired kvs' field = .ok (v', rest') ∧
      Agree v v' ∧ AlikeMap rest rest' := by
  obtain ⟨ms, hp, hf⟩ := h.members
  have hpn : (named field kvs).Perm (named field ms) := hp.filter _
  have hfn := forall₂_named hf field
  cases hk : takeRequired kvs field with
  | ok r =>
    obtain ⟨e, he, hv, hrest⟩ := (@takeRequired_iff _ r.2 _ r.1 h.nodup).1 hk
    rw [he, List.singleton_perm] at hpn
    rw [← hpn] at hfn
    obtain ⟨e', l, hee, hl, heq⟩ := List.forall₂_cons_left_iff.1 hfn
    rw [List.forall₂_nil_left_iff] at hl
    subst hl
    refine .inr ⟨r.1, e'.2, r.2, unnamed field kvs', rfl, (takeRequired_iff h.nodup').2 ⟨e', heq, rfl, rfl⟩, ?_⟩
    rw [hv, hrest]
    exact ⟨hee.value, h.filter _⟩
  | error e =>
    obtain rfl := takeRequired_error hk
    cases hk' : takeRequired kvs' field with
    | error e' => exact .inl ⟨rfl, congrArg _ (takeRequired_error hk')⟩
    | ok r =>
      obtain ⟨e', he', -, -⟩ := (@takeRequired_iff _ r.2 _ r.1 h.nodup').1 hk'
      rw [he'] at hfn
      obtain ⟨e, l, -, hl, heq⟩ := List.forall₂_cons_right_iff.1 hfn
      rw [List.forall₂_nil_right_iff] at hl
      subst hl
      rw [heq, List.perm_singleton] at hpn
      rw [(takeRequired_iff h.nodup).2 ⟨e, hpn, rfl, rfl⟩] at hk
      cases hk

theorem measuredRoot_alike {kvs kvs' : List (Term × Term)} (h : AlikeMap kvs kvs') (plane : Plane) :
    measuredRoot plane kvs = measuredRoot plane kvs' := by
  unfold measuredRoot
  rw [h.length_eq]
  refine congrArg (_ >>= ·) (funext fun _ => ?_)
  rcases takeRequired_alike h "kind" with ⟨h1, h2⟩ | ⟨v, v', rest, rest', h1, h2, hv, hr⟩
  · rw [h1, h2]
  rw [h1, h2]
  change (normalizeKind v >>= _) = (normalizeKind v' >>= _)
  rw [normalizeKind_leaf hv.leaf]
  refine congrArg (_ >>= ·) (funext fun kind => ?_)
  cases plane with
  | record =>
    change (measuredMapMembers .record rest 0 >>= _) = (measuredMapMembers .record rest' 0 >>= _)
    rw [hr.members_eq]
  | event =>
    simp only [takeMeasuredEventId]
    rcases takeRequired_alike hr "event_id" with ⟨h3, h4⟩ | ⟨w, w', rest₂, rest₂', h3, h4, hw, hr₂⟩
    · rw [h3, h4]
    rw [h3, h4]
    simp only [bind, Except.bind, validateIdentifier_leaf hw.leaf]
    cases validateIdentifier w' with
    | error e => rfl
    | ok id => simp only [hr₂.members_eq]

/-- **Nothing in the normalizer tells two alike maps apart.** -/
theorem AlikeMap.agree {kvs kvs' : List (Term × Term)} (h : AlikeMap kvs kvs') : Agree (.map kvs) (.map kvs') := by
  refine ⟨rfl, fun plane depth => ?_, fun plane => ?_⟩
  · rw [measuredValue_map_eq, measuredValue_map_eq, h.isStruct_eq, h.length_eq, h.members_eq]
  · simp only [normalizeMeasuredRoot, h.isStruct_eq, measuredRoot_alike h]

theorem Agree.refl (x : Term) : Agree x x := ⟨rfl, fun _ _ => rfl, fun _ => rfl⟩

theorem Agree.alikeMember {k v w : Term} (h : Agree v w) : AlikeMember (k, v) (k, w) :=
  ⟨rfl, structMember_leaf rfl h.leaf, h⟩

theorem AlikeMap.of_member {xs zs : List (Term × Term)} {e e' : Term × Term}
    (hn : ((xs ++ e :: zs).map Prod.fst).Nodup) (hn' : ((xs ++ e' :: zs).map Prod.fst).Nodup)
    (h : AlikeMember e e') : AlikeMap (xs ++ e :: zs) (xs ++ e' :: zs) := by
  have hself : ∀ l : List (Term × Term), List.Forall₂ AlikeMember l l :=
    fun l => List.forall₂_same.2 fun e _ => (Agree.refl e.2).alikeMember
  exact ⟨hn, hn', _, .refl _, List.rel_append (hself xs) (.cons h (hself zs))⟩

theorem measuredListMembers_congr {plane : Plane} {v w : Term} (h : Agree v w) (xs zs : List Term)
    (depth : ℕ) :
    measuredListMembers plane (xs ++ v :: zs) depth = measuredListMembers plane (xs ++ w :: zs) depth := by
  induction xs with
  | nil => simp only [List.nil_append, measuredListMembers, h.value]
  | cons x xs ih => simp only [List.cons_append, measuredListMembers, ih]

/-- **Nothing in the normalizer tells two spellings of one item apart.** -/
theorem Respelled.agree {x y : Term} (h : Respelled x y) : Agree x y := by
  induction h with
  | refl x => exact .refl x
  | symm _ ih => exact ⟨ih.leaf.symm, fun p d => (ih.value p d).symm, fun p => (ih.root p).symm⟩
  | trans _ _ ih ih' =>
    exact ⟨ih.leaf.trans ih'.leaf, fun p d => (ih.value p d).trans (ih'.value p d),
      fun p => (ih.root p).trans (ih'.root p)⟩
  | @order kvs kvs' hn hp =>
    have hself : List.Forall₂ AlikeMember kvs' kvs' :=
      List.forall₂_same.2 fun e _ => (Agree.refl e.2).alikeMember
    exact AlikeMap.agree ⟨hn, ((hp.map _).nodup_iff).1 hn, kvs', hp, hself⟩
  | @key xs zs b v hn hn' hs =>
    refine AlikeMap.agree (.of_member hn hn' ⟨rfl, ?_, .refl _⟩)
    have hbinary : structMember (.binary b, v) = false := by simp [structMember, sym]
    rw [hbinary, structMember, Bool.and_eq_false_iff]
    by_cases hb : b = utf8 "__struct__"
    · right
      cases v with
      | atom a => exact absurd rfl (hs hb a)
      | _ => rfl
    · left
      simpa [sym] using hb
  | @value xs zs k v w hn _ ih =>
    have hn' : ((xs ++ (k, w) :: zs).map Prod.fst).Nodup := by simpa using hn
    exact AlikeMap.agree (.of_member hn hn' ih.alikeMember)
  | inKey hn hn' _ ih =>
    exact AlikeMap.agree (.of_member hn hn' ⟨keyBytes_leaf ih.leaf, structMember_leaf ih.leaf rfl, .refl _⟩)
  | member _ ih =>
    refine ⟨rfl, fun plane depth => ?_, fun plane => rfl⟩
    rw [measuredValue, measuredValue, measuredListMembers_congr ih]
    simp only [List.length_append, List.length_cons]
  | inTuple _ ih => exact ⟨rfl, fun plane depth => by simp only [measuredValue], fun plane => rfl⟩
  | inImproper _ ih =>
    refine ⟨rfl, fun plane depth => ?_, fun plane => rfl⟩
    rw [measuredValue, measuredValue]
    simp only [List.length_append, List.length_cons]
  | inTail _ ih => exact ⟨rfl, fun plane depth => by rw [measuredValue, measuredValue], fun plane => rfl⟩

/-- **The result, or the exact refusal, is the same for two spellings of one item.** -/
theorem normalizeAndMeasureItem_respelled {x y : Term} (h : Respelled x y) (plane : Plane) :
    normalizeAndMeasureItem plane x = normalizeAndMeasureItem plane y := by
  unfold normalizeAndMeasureItem
  rw [h.agree.root]

end Loopex.Store
