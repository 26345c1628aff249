import Loopex.Erlang.Check
import Loopex.Erlang.Sha256

/-!
# Durable items

What the Store port accepts as one private record or one public event: bounded plain data with binary
keys under an atom `kind` (and `event_id`).  `normalizeAndMeasureItem` rewrites a candidate into that
shape or names the first limit it breaks; `validateItem` accepts exactly the items it leaves alone.

* `measuredValue_inherits`, `measuredValue_loose` — a normalized value is plain data in canonical form,
  and is `==` to what it came from only if it *is* what it came from.
-/

namespace Loopex.Store

open Loopex.Erlang Loopex.Erlang.Term

/-- The two planes of durable data. -/
inductive Plane where
  | record | event
  deriving DecidableEq

inductive Dimension where
  | depth | cardinality
  deriving DecidableEq

/-- The refusals of the Store port. -/
inductive Reason where
  | itemStructureExceeded (dimension : Dimension) (observed limit : ℕ)
  | itemTooLarge (observed limit : ℕ)
  | invalidItem | invalidEvent | notPlainData
  | invalidRequiredField | invalidKind | invalidIdentifier
  | missingField (field : String) | invalidField (field : String)
  | unknownTransactionType | invalidTransactionShape
  | invalidCreationTransaction | invalidOwnerAttempt | invalidOwnerCommand
  | invalidRecords | invalidEvents | ownerCapabilityInPublicEvent | tooManyItems
  | mutationTooLarge | canonicalBindingMismatch
  | invalidSessionGenesis | sessionConfigurationTooLarge | invalidSessionCreation
  deriving DecidableEq

def maxIdentifierBytes : ℕ := 256
def maxItemBytes : ℕ := 65536
def maxMutationBytes : ℕ := 1048576
def maxItems : ℕ := 1024
def maxDepth : ℕ := 12

/-- The value of a map under a key; `nil` where there is none, and for what is not a map. -/
def lookup (key : Term) : List (Term × Term) → Option Term
  | [] => none
  | (k, v) :: kvs => if k = key then some v else lookup key kvs

def hasKey (key : Term) (kvs : List (Term × Term)) : Bool := (lookup key kvs).isSome

/-- `Map.delete`. -/
def deleteKey (key : Term) (kvs : List (Term × Term)) : List (Term × Term) :=
  kvs.filter fun e => e.1 ≠ key

/-- `is_struct`: the map names a module. -/
def isStruct (kvs : List (Term × Term)) : Bool :=
  match lookup (sym "__struct__") kvs with
  | some (.atom _) => true
  | _ => false

/-- A binary of 1 to 256 bytes. -/
structure Identifier where
  bytes : Bytes
  pos : 0 < bytes.length
  le : bytes.length ≤ maxIdentifierBytes
  deriving DecidableEq

/-- `validate_identifier`. -/
def validateIdentifier : Term → Except Reason Identifier
  | .binary b =>
    if h : 0 < b.length ∧ b.length ≤ maxIdentifierBytes then .ok ⟨b, h.1, h.2⟩
    else .error .invalidIdentifier
  | _ => .error .invalidIdentifier

def invalidItemReason : Plane → Reason
  | .record => .invalidItem
  | .event => .invalidEvent

/-- `normalize_kind`. -/
def normalizeKind : Term → Except Reason Bytes
  | .atom b | .binary b =>
    if 0 < b.length ∧ b.length ≤ maxIdentifierBytes then .ok b else .error .invalidKind
  | _ => .error .invalidKind

/-- `normalize_user_key`. -/
def normalizeUserKey : Term → Except Reason Bytes
  | .atom b | .binary b =>
    if 0 < b.length ∧ b.length ≤ maxIdentifierBytes then .ok b else .error .notPlainData
  | _ => .error .notPlainData

/-- The stamps the Store owns. -/
def reservedEventBinaryFields : List Bytes :=
  [utf8 "event_sequence", utf8 "owner_epoch", utf8 "owner_incarnation_id"]

/-- `measured_reserved_key`: whether an item of this plane may use the key. -/
def measuredReservedKey : Plane → Bytes → Bool
  | .record, _ => true
  | .event, key => key ∉ reservedEventBinaryFields

/-- `measured_keys`: the normalized keys, none reserved and none twice. -/
def measuredKeys (plane : Plane) : List (Term × Term) → List Bytes → Except Reason (List Bytes)
  | [], _ => .ok []
  | (key, _) :: kvs, keyed =>
    match normalizeUserKey key with
    | .ok b =>
      if measuredReservedKey plane b ∧ b ∉ keyed then do
        let rest ← measuredKeys plane kvs (b :: keyed)
        .ok (b :: rest)
      else .error (invalidItemReason plane)
    | .error _ => .error (invalidItemReason plane)

/-- `measured_cardinality`. -/
def measuredCardinality (size : ℕ) : Except Reason Unit :=
  if size > maxItems then .error (.itemStructureExceeded .cardinality (maxItems + 1) maxItems) else .ok ()

/-- The results of the children, all successful. -/
def gather : List Bytes → List (Except Reason Term) → Option (List (Term × Term))
  | key :: keys, .ok v :: vs => (gather keys vs).map ((.binary key, v) :: ·)
  | [], [] => some []
  | _, _ => none

/-- `measured_children`: the map of the children, or the first refusal in the order of their keys. -/
def measuredChildren (plane : Plane) (keys : List Bytes) (vs : List (Except Reason Term)) :
    Except Reason (List (Term × Term)) :=
  match gather keys vs with
  | some kvs => .ok (entriesOf kvs)
  | none =>
    let sorted := (keys.zip vs).mergeSort fun a b => decide (a.1 ≤ b.1)
    match sorted.findSome? fun e => match e.2 with
      | .error reason => some reason
      | .ok _ => none with
    | some reason => .error reason
    | none => .error (invalidItemReason plane)

mutual
/-- `measured_value`: depth, then form, then cardinality, then keys, then children.  The source's comment puts form
before depth; its first clause asks for the depth. -/
def measuredValue (plane : Plane) : Term → ℕ → Except Reason Term
  | t, depth =>
    if depth > maxDepth then .error (.itemStructureExceeded .depth depth maxDepth)
    else match t with
    | .binary b => .ok (.binary b)
    | .int n => .ok (.int n)
    | .float x => .ok (.float x)
    | .atom name =>
      if name = utf8 "nil" ∨ name = utf8 "true" ∨ name = utf8 "false" then .ok (.atom name)
      else .error (invalidItemReason plane)
    | .list xs => do
      measuredCardinality xs.length
      let ys ← measuredListMembers plane xs depth
      .ok (.list ys)
    | .improper xs _ => do
      measuredCardinality xs.length
      .error .notPlainData
    | .map kvs =>
      if isStruct kvs then .error (invalidItemReason plane)
      else do
        measuredCardinality kvs.length
        let keys ← measuredKeys plane kvs []
        let es ← measuredChildren plane keys (measuredValues plane kvs depth)
        .ok (.map es)
    | _ => .error (invalidItemReason plane)
/-- `measured_list_members`. -/
def measuredListMembers (plane : Plane) : List Term → ℕ → Except Reason (List Term)
  | [], _ => .ok []
  | x :: xs, depth => do
    let y ← measuredValue plane x (depth + 1)
    let ys ← measuredListMembers plane xs depth
    .ok (y :: ys)
/-- Every child of a map measured one level down. -/
def measuredValues (plane : Plane) : List (Term × Term) → ℕ → List (Except Reason Term)
  | [], _ => []
  | (_, v) :: kvs, depth => measuredValue plane v (depth + 1) :: measuredValues plane kvs depth
end

/-- `measured_map_members`. -/
def measuredMapMembers (plane : Plane) (kvs : List (Term × Term)) (depth : ℕ) :
    Except Reason (List (Term × Term)) := do
  let keys ← measuredKeys plane kvs []
  measuredChildren plane keys (measuredValues plane kvs depth)

/-- `take_required`: the member under exactly one of its two spellings, and the rest. -/
def takeRequired (kvs : List (Term × Term)) (field : String) :
    Except Reason (Term × List (Term × Term)) :=
  match lookup (sym field) kvs, lookup (str field) kvs with
  | some v, none => .ok (v, deleteKey (sym field) kvs)
  | none, some v => .ok (v, deleteKey (str field) kvs)
  | _, _ => .error .invalidRequiredField

/-- `take_measured_event_id`. -/
def takeMeasuredEventId (plane : Plane) (kvs : List (Term × Term)) :
    Except Reason (List (Term × Term) × List (Term × Term)) :=
  match plane with
  | .record => .ok ([], kvs)
  | .event => do
    let (id, rest) ← takeRequired kvs "event_id"
    let id ← validateIdentifier id
    .ok ([(sym "event_id", .binary id.bytes)], rest)

/-- The chain of `normalize_measured_root`, before its `else` clause. -/
def measuredRoot (plane : Plane) (kvs : List (Term × Term)) : Except Reason Term := do
  measuredCardinality kvs.length
  let (kind, withoutKind) ← takeRequired kvs "kind"
  let normalizedKind ← normalizeKind kind
  let (required, rest) ← takeMeasuredEventId plane withoutKind
  let normalizedRest ← measuredMapMembers plane rest 0
  let merged := required.foldl (fun acc e => putEntry e.1 e.2 acc) normalizedRest
  .ok (.map (putEntry (sym "kind") (.binary normalizedKind) merged))

/-- `normalize_measured_root`. -/
def normalizeMeasuredRoot (plane : Plane) (item : Term) : Except Reason Term :=
  match item with
  | .map kvs =>
    if isStruct kvs then .error (invalidItemReason plane)
    else match measuredRoot plane kvs with
    | .ok t => .ok t
    | .error (.itemStructureExceeded d o l) => .error (.itemStructureExceeded d o l)
    | .error _ => .error (invalidItemReason plane)
  | _ => .error (invalidItemReason plane)

/-- `normalize_and_measure_item`: the normalized item and its encoded size. -/
def normalizeAndMeasureItem (plane : Plane) (item : Term) : Except Reason (Term × ℕ) := do
  let normalized ← normalizeMeasuredRoot plane item
  .ok (normalized, externalSize normalized)

/-- `admit_bounded`. -/
def admitBounded (t : Term) : Except Reason ℕ := do
  let normalized ← measuredValue .record t 0
  if externalSize normalized ≤ maxItemBytes then .ok (externalSize normalized)
  else .error (.itemTooLarge (externalSize normalized) maxItemBytes)

/-- `validate_item`: the normalizer returns the item itself, within the byte ceiling. -/
def validateItem (plane : Plane) (item : Term) : Except Reason Unit := do
  let (normalized, observed) ← normalizeAndMeasureItem plane item
  if normalized = item then
    if observed ≤ maxItemBytes then .ok () else .error (.itemTooLarge observed maxItemBytes)
  else .error (invalidItemReason plane)

/-! ## entries -/

theorem lookup_eq_some {key v : Term} {kvs : List (Term × Term)} (h : lookup key kvs = some v) :
    (key, v) ∈ kvs := by
  induction kvs with
  | nil => simp [lookup] at h
  | cons e kvs ih =>
    simp only [lookup] at h
    split at h
    · next he => simp_all [Prod.ext_iff]
    · exact List.mem_cons_of_mem _ (ih h)

theorem lookup_eq_none {key : Term} {kvs : List (Term × Term)} :
    lookup key kvs = none ↔ ∀ e ∈ kvs, e.1 ≠ key := by
  induction kvs with
  | nil => simp [lookup]
  | cons e kvs ih =>
    simp only [lookup]
    split
    · simp_all
    · simp_all

theorem lookup_of_mem {key v : Term} {kvs : List (Term × Term)} (hn : (kvs.map Prod.fst).Nodup)
    (h : (key, v) ∈ kvs) : lookup key kvs = some v := by
  induction kvs with
  | nil => simp at h
  | cons e kvs ih =>
    rw [List.map_cons, List.nodup_cons] at hn
    rcases List.mem_cons.1 h with rfl | h
    · simp [lookup]
    · have hne : e.1 ≠ key := fun he => hn.1 (List.mem_map.2 ⟨_, h, he.symm⟩)
      simp [lookup, hne, ih hn.2 h]

/-- A map of as many entries as keys has these keys, if it has something under each. -/
theorem perm_of_lookup {kvs : List (Term × Term)} {keys : List Term} (hn : keys.Nodup) (hlen : kvs.length = keys.length)
    (h : ∀ key ∈ keys, (lookup key kvs).isSome) : (kvs.map Prod.fst).Perm keys := by
  have hsub : keys ⊆ kvs.map Prod.fst := by
    intro key hkey
    obtain ⟨w, hw⟩ := Option.isSome_iff_exists.1 (h key hkey)
    exact List.mem_map_of_mem (f := Prod.fst) (lookup_eq_some hw)
  exact ((hn.subperm hsub).perm_of_length_le (by rw [List.length_map, hlen])).symm

theorem lookup_putEntry_self (key v : Term) (kvs : List (Term × Term)) :
    lookup key (putEntry key v kvs) = some v := by
  induction kvs with
  | nil => simp [putEntry, lookup]
  | cons e kvs ih =>
    simp only [putEntry]
    split
    · simp [lookup]
    · next h =>
      split
      · next h' =>
        have hne : e.1 ≠ key := by rintro rfl; exact h h'
        simp [lookup, hne, ih]
      · simp [lookup]

theorem lookup_putEntry_ne {key key' v : Term} {kvs : List (Term × Term)}
    (h : encode key ≠ encode key') : lookup key (putEntry key' v kvs) = lookup key kvs := by
  have hne : key' ≠ key := fun he => h (by rw [he])
  induction kvs with
  | nil => simp [putEntry, lookup, hne]
  | cons e kvs ih =>
    obtain ⟨l, w⟩ := e
    simp only [putEntry]
    split
    · simp [lookup, hne]
    · next h1 =>
      split
      · simp [lookup, ih]
      · next h2 =>
        have hl : l ≠ key := by
          rintro rfl
          exact h (List.le_antisymm h1 h2)
        simp [lookup, hne, hl]

/-! ## what a normalized map is made of -/

/-- The normal form `b` of a key. -/
def KeyNorm (plane : Plane) (key : Term) (b : Bytes) : Prop :=
  normalizeUserKey key = .ok b ∧ measuredReservedKey plane b = true

theorem KeyNorm.spelling {plane : Plane} {key : Term} {b : Bytes} (h : KeyNorm plane key b) :
    key = .atom b ∨ key = .binary b := by
  have h := h.1
  unfold normalizeUserKey at h
  split at h
  · split at h <;> simp_all
  · split at h <;> simp_all
  · cases h

theorem KeyNorm.length {plane : Plane} {key : Term} {b : Bytes} (h : KeyNorm plane key b) :
    0 < b.length ∧ b.length ≤ maxIdentifierBytes := by
  have h := h.1
  unfold normalizeUserKey at h
  split at h
  · split at h <;> simp_all
  · split at h <;> simp_all
  · cases h

theorem measuredKeys_spec {plane : Plane} {kvs : List (Term × Term)} {keyed keys : List Bytes}
    (h : measuredKeys plane kvs keyed = .ok keys) :
    List.Forall₂ (fun e b => KeyNorm plane e.1 b) kvs keys ∧ keys.Nodup ∧ ∀ b ∈ keys, b ∉ keyed := by
  induction kvs generalizing keyed keys with
  | nil => simp_all [measuredKeys]
  | cons e kvs ih =>
    simp only [measuredKeys] at h
    split at h
    · next b hb =>
      split at h
      · next hr =>
        obtain ⟨rest, hrest, hk⟩ := Except.bind_eq_ok.1 h
        obtain ⟨h1, h2, h3⟩ := ih hrest
        cases hk
        refine ⟨.cons ⟨hb, hr.1⟩ h1, List.nodup_cons.2 ⟨fun hm => h3 b hm (by simp), h2⟩, ?_⟩
        intro b' hb'
        rcases List.mem_cons.1 hb' with rfl | hb'
        · exact hr.2
        · exact fun hm => h3 b' hb' (by simp [hm])
      · cases h
    · cases h

theorem gather_spec {keys : List Bytes} {vs : List (Except Reason Term)} {ms : List (Term × Term)}
    (h : gather keys vs = some ms) :
    ms.map Prod.fst = keys.map Term.binary ∧ vs = ms.map fun m => .ok m.2 := by
  induction keys generalizing vs ms with
  | nil => cases vs <;> simp_all [gather]
  | cons b keys ih =>
    cases vs with
    | nil => simp [gather] at h
    | cons v vs =>
      cases v with
      | error e => simp [gather] at h
      | ok v =>
        simp only [gather] at h
        obtain ⟨ms', hms', rfl⟩ := Option.map_eq_some_iff.1 h
        obtain ⟨h1, h2⟩ := ih hms'
        simp [h1, h2]

theorem measuredValues_eq (plane : Plane) (kvs : List (Term × Term)) (depth : ℕ) :
    measuredValues plane kvs depth = kvs.map fun e => measuredValue plane e.2 (depth + 1) := by
  induction kvs with
  | nil => simp [measuredValues]
  | cons e kvs ih => simp [measuredValues, ih]

/-- `ms` are the normalized members of `kvs`, one for one. -/
def Members (plane : Plane) (depth : ℕ) (kvs ms : List (Term × Term)) : Prop :=
  List.Forall₂ (fun e m => (∃ b, KeyNorm plane e.1 b ∧ m.1 = .binary b) ∧
    measuredValue plane e.2 (depth + 1) = .ok m.2) kvs ms ∧ (ms.map Prod.fst).Nodup

theorem measuredMapMembers_spec {plane : Plane} {kvs es : List (Term × Term)} {depth : ℕ}
    (hes : measuredMapMembers plane kvs depth = .ok es) :
    ∃ ms, Members plane depth kvs ms ∧ es = entriesOf ms := by
  obtain ⟨keys, hkeys, h⟩ := Except.bind_eq_ok.1 hes
  clear hes
  obtain ⟨h1, h2, -⟩ := measuredKeys_spec hkeys
  unfold measuredChildren at h
  split at h
  · next ms hg =>
    cases h
    obtain ⟨g1, g2⟩ := gather_spec hg
    refine ⟨ms, ⟨?_, by rw [g1]; exact h2.map fun a b h => by simpa using h⟩, rfl⟩
    rw [measuredValues_eq] at g2
    clear hkeys hg h2
    induction h1 generalizing ms with
    | nil => cases ms <;> simp_all
    | cons hb _ ih =>
      cases ms with
      | nil => simp at g1
      | cons m ms =>
        simp only [List.map_cons, List.cons.injEq] at g1 g2
        exact .cons ⟨⟨_, hb, g1.1⟩, g2.1⟩ (ih ms g1.2 g2.2)
  · dsimp only at h
    split at h <;> cases h

theorem Members.binary {plane : Plane} {depth : ℕ} {kvs ms : List (Term × Term)}
    (h : Members plane depth kvs ms) {m : Term × Term} (hm : m ∈ ms) :
    ∃ b, m.1 = .binary b := by
  obtain ⟨i, hi, rfl⟩ := List.getElem_of_mem hm
  obtain ⟨⟨b, -, hb⟩, -⟩ := (List.forall₂_iff_get.1 h.1).2 i (by rw [h.1.length_eq]; exact hi) hi
  exact ⟨b, hb⟩

theorem Members.mem {plane : Plane} {depth : ℕ} {kvs ms : List (Term × Term)}
    (h : Members plane depth kvs ms) {m : Term × Term} (hm : m ∈ ms) :
    ∃ e ∈ kvs, (∃ b, KeyNorm plane e.1 b ∧ m.1 = .binary b) ∧
      measuredValue plane e.2 (depth + 1) = .ok m.2 := by
  obtain ⟨i, hi, rfl⟩ := List.getElem_of_mem hm
  have hi' : i < kvs.length := by rw [h.1.length_eq]; exact hi
  exact ⟨kvs[i], List.getElem_mem hi', (List.forall₂_iff_get.1 h.1).2 i hi' hi⟩

theorem Members.perm {plane : Plane} {depth : ℕ} {kvs ms : List (Term × Term)}
    (h : Members plane depth kvs ms) : (entriesOf ms).Perm ms := by
  refine perm_entriesOf ?_
  have hb := fun m (hm : m ∈ ms) => h.binary hm
  refine (List.pairwise_map.1 h.2).imp_of_mem fun {a b} ha hb' hne heq => hne ?_
  obtain ⟨x, hx⟩ := hb a ha
  obtain ⟨y, hy⟩ := hb b hb'
  rw [hx, hy] at heq ⊢
  rw [encode_binary_inj.1 heq]

/-! ## plain data -/

theorem measuredListMembers_spec {plane : Plane} {xs ys : List Term} {depth : ℕ}
    (h : measuredListMembers plane xs depth = .ok ys) :
    List.Forall₂ (fun x y => measuredValue plane x (depth + 1) = .ok y) xs ys := by
  induction xs generalizing ys with
  | nil => simp_all [measuredListMembers]
  | cons x xs ih =>
    simp only [measuredListMembers] at h
    obtain ⟨y, hy, h⟩ := Except.bind_eq_ok.1 h
    obtain ⟨ys', hys, h⟩ := Except.bind_eq_ok.1 h
    cases h
    exact .cons hy (ih hys)

theorem measuredValue_list {plane : Plane} {xs : List Term} {depth : ℕ} {y : Term}
    (h : measuredValue plane (.list xs) depth = .ok y) :
    ∃ ys, List.Forall₂ (fun x y => measuredValue plane x (depth + 1) = .ok y) xs ys ∧ y = .list ys := by
  rw [measuredValue] at h
  split at h
  · cases h
  · obtain ⟨-, -, h⟩ := Except.bind_eq_ok.1 h
    obtain ⟨ys, hys, h⟩ := Except.bind_eq_ok.1 h
    cases h
    exact ⟨ys, measuredListMembers_spec hys, rfl⟩

theorem measuredValue_map {plane : Plane} {kvs : List (Term × Term)} {depth : ℕ} {y : Term}
    (h : measuredValue plane (.map kvs) depth = .ok y) :
    ∃ ms, Members plane depth kvs ms ∧ y = .map (entriesOf ms) := by
  rw [measuredValue] at h
  split at h
  · cases h
  split at h
  · cases h
  obtain ⟨-, -, h⟩ := Except.bind_eq_ok.1 h
  obtain ⟨keys, hkeys, h⟩ := Except.bind_eq_ok.1 h
  obtain ⟨es, hes, h⟩ := Except.bind_eq_ok.1 h
  cases h
  obtain ⟨ms, hms, rfl⟩ := measuredMapMembers_spec (Except.bind_eq_ok.2 ⟨keys, hkeys, hes⟩)
  exact ⟨ms, hms, rfl⟩

theorem inherited_entriesOf {P : Term → Prop} (hP : Inherited P) {plane : Plane} {depth : ℕ}
    {kvs ms : List (Term × Term)} (h : Members plane depth kvs ms) (hp : ∀ m ∈ ms, P m.2) :
    P (.map (entriesOf ms)) := by
  refine hP.map (ordered_entriesOf ms) (fun m hm => ?_) fun m hm => hp m (h.perm.mem_iff.1 hm)
  obtain ⟨b, hb⟩ := h.binary (h.perm.mem_iff.1 hm)
  rw [hb]
  exact hP.binary b

/-- **A normalized value is plain data**, with no atoms but these three. -/
theorem measuredValue_inherits {P : Term → Prop} (hP : Inherited P)
    (hatoms : ∀ s ∈ ["nil", "true", "false"], P (sym s)) {plane : Plane} {x y : Term} {depth : ℕ}
    (h : measuredValue plane x depth = .ok y) : P y := by
  induction x using Term.ind generalizing depth y with
  | list xs ih =>
    obtain ⟨ys, hys, rfl⟩ := measuredValue_list h
    refine hP.list fun y hy => ?_
    obtain ⟨i, hi, rfl⟩ := List.getElem_of_mem hy
    have hi' : i < xs.length := by rw [hys.length_eq]; exact hi
    exact ih _ (List.getElem_mem hi') ((List.forall₂_iff_get.1 hys).2 i hi' hi)
  | map kvs ih =>
    obtain ⟨ms, hms, rfl⟩ := measuredValue_map h
    refine inherited_entriesOf hP hms fun m hm => ?_
    obtain ⟨e, he, -, hv⟩ := hms.mem hm
    exact (ih e he).2 hv
  | atom name =>
    rw [measuredValue] at h
    split at h
    · cases h
    · split at h
      · next hn =>
        cases h
        rcases hn with rfl | rfl | rfl
        · exact hatoms "nil" (by simp)
        · exact hatoms "true" (by simp)
        · exact hatoms "false" (by simp)
      · cases h
  | int n =>
    rw [measuredValue] at h
    split at h <;> cases h
    exact hP.int _
  | float x =>
    rw [measuredValue] at h
    split at h <;> cases h
    exact hP.float _
  | binary b =>
    rw [measuredValue] at h
    split at h <;> cases h
    exact hP.binary _
  | improper xs t _ _ =>
    rw [measuredValue] at h
    split at h
    · cases h
    · obtain ⟨-, -, h⟩ := Except.bind_eq_ok.1 h
      cases h
  | bitstring b n => simp only [measuredValue] at h; split at h <;> cases h
  | tuple xs _ => simp only [measuredValue] at h; split at h <;> cases h
  | handle k n => simp only [measuredValue] at h; split at h <;> cases h

/-! ## normalization and `==` -/

/-- An entry with its value up to the kind of its numbers. -/
def looseEntry (e : Term × Term) : Term × Term := (e.1, e.2.loosen)

theorem Members.eq_of_loose {plane : Plane} {depth : ℕ} {kvs ms : List (Term × Term)}
    (h : Members plane depth kvs ms)
    (ih : ∀ e ∈ kvs, ∀ y, measuredValue plane e.2 (depth + 1) = .ok y → y.loosen = e.2.loosen → y = e.2)
    (hl : (entriesOf ms).map looseEntry = kvs.map looseEntry) : entriesOf ms = kvs := by
  have hkeys : (entriesOf ms).map Prod.fst = kvs.map Prod.fst := by
    have := congrArg (List.map Prod.fst) hl
    simpa [List.map_map, Function.comp_def, looseEntry] using this
  -- the keys of `kvs` are binaries, so they are their own normal forms
  have hms : ms.map Prod.fst = kvs.map Prod.fst := by
    have hb : ∀ e ∈ kvs, ∃ b, e.1 = .binary b := by
      intro e he
      obtain ⟨m, hm, hme⟩ := List.mem_map.1 (hkeys ▸ List.mem_map_of_mem (f := Prod.fst) he)
      obtain ⟨b, hb⟩ := h.binary (h.perm.mem_iff.1 hm)
      exact ⟨b, hme ▸ hb⟩
    have h1 := h.1
    clear hl hkeys h ih
    induction h1 with
    | nil => rfl
    | @cons e m kvs ms hem _ ih =>
      obtain ⟨⟨b, hk, hm⟩, -⟩ := hem
      have : e.1 = m.1 := by
        obtain ⟨b', hb'⟩ := hb e (by simp)
        rcases hk.spelling with hs | hs
        · rw [hb'] at hs; cases hs
        · rw [hs, hm]
      simp [this, ih fun e he => hb e (by simp [he])]
  have hord : Ordered ms := by
    have ho := ordered_entriesOf ms
    unfold Ordered at ho ⊢
    rw [← List.pairwise_map (R := keyLt) (f := Prod.fst)] at ho ⊢
    rwa [hms, ← hkeys]
  rw [entriesOf_ordered hord] at hl ⊢
  have h1 := h.1
  clear hkeys hms hord h
  induction h1 with
  | nil => rfl
  | @cons e m kvs ms hem _ ih' =>
    simp only [List.map_cons, List.cons.injEq, looseEntry, Prod.mk.injEq] at hl
    have hv := ih e (by simp) m.2 hem.2 hl.1.2
    rw [ih' (fun e he => ih e (by simp [he])) hl.2]
    congr 1
    exact Prod.ext hl.1.1 hv

/-- **Normalization changes nothing that `==` can overlook**: a value `==` to its normal form is its
normal form. -/
theorem measuredValue_loose {plane : Plane} {x y : Term} {depth : ℕ}
    (h : measuredValue plane x depth = .ok y) (hl : y.loosen = x.loosen) : y = x := by
  induction x using Term.ind generalizing depth y with
  | list xs ih =>
    obtain ⟨ys, hys, rfl⟩ := measuredValue_list h
    simp only [loosen_list, Term.list.injEq] at hl
    clear h
    induction hys with
    | nil => rfl
    | @cons x y xs ys hxy _ ih' =>
      simp only [List.map_cons, List.cons.injEq] at hl
      have hv := ih x (by simp) hxy hl.1
      have := ih' (fun x hx => ih x (by simp [hx])) hl.2
      simp_all
  | map kvs ih =>
    obtain ⟨ms, hms, rfl⟩ := measuredValue_map h
    rw [loosen_map, loosen_map] at hl
    have := hms.eq_of_loose (fun e he y hy hl => (ih e he).2 hy hl) (Term.map.inj hl)
    rw [this]
  | improper xs t _ _ =>
    rw [measuredValue] at h
    split at h
    · cases h
    · obtain ⟨-, -, h⟩ := Except.bind_eq_ok.1 h
      cases h
  | atom name => rw [measuredValue] at h; (repeat' split at h) <;> simp_all
  | int n => rw [measuredValue] at h; split at h <;> simp_all
  | float x => rw [measuredValue] at h; split at h <;> simp_all
  | binary b => rw [measuredValue] at h; split at h <;> simp_all
  | bitstring b n => simp only [measuredValue] at h; split at h <;> cases h
  | tuple xs _ => simp only [measuredValue] at h; split at h <;> cases h
  | handle k n => simp only [measuredValue] at h; split at h <;> cases h

/-! ## the root -/

theorem normalizeKind_eq {t : Term} {b : Bytes} (h : normalizeKind t = .ok b) :
    (t = .atom b ∨ t = .binary b) ∧ 0 < b.length ∧ b.length ≤ maxIdentifierBytes := by
  unfold normalizeKind at h
  split at h
  · split at h <;> simp_all
  · split at h <;> simp_all
  · cases h

@[simp] theorem validateIdentifier_eq_ok {t : Term} {id : Identifier} :
    validateIdentifier t = .ok id ↔ t = .binary id.bytes := by
  obtain ⟨bytes, h0, h1⟩ := id
  unfold validateIdentifier
  split
  · next b =>
    by_cases hb : 0 < b.length ∧ b.length ≤ maxIdentifierBytes
    · simp [hb]
    · simp only [hb, ↓reduceDIte, reduceCtorEq, binary.injEq, false_iff]
      rintro rfl
      exact hb ⟨h0, h1⟩
  · next hne => simpa using hne bytes

/-- The entries a root starts from besides its members: its `event_id`, on the public plane. -/
def requiredOf (plane : Plane) (id : Identifier) : List (Term × Term) :=
  match plane with
  | .record => []
  | .event => [(sym "event_id", .binary id.bytes)]

theorem measuredRoot_spec {plane : Plane} {kvs : List (Term × Term)} {n : Term}
    (h : measuredRoot plane kvs = .ok n) :
    ∃ v kind id rest withoutKind ms, takeRequired kvs "kind" = .ok (v, withoutKind) ∧
      normalizeKind v = .ok kind ∧
      takeMeasuredEventId plane withoutKind = .ok (requiredOf plane id, rest) ∧
      Members plane 0 rest ms ∧
      n = .map (putEntry (sym "kind") (.binary kind)
        ((requiredOf plane id).foldl (fun acc e => putEntry e.1 e.2 acc) (entriesOf ms))) := by
  unfold measuredRoot at h
  obtain ⟨-, -, h⟩ := Except.bind_eq_ok.1 h
  obtain ⟨⟨v, withoutKind⟩, hv, h⟩ := Except.bind_eq_ok.1 h
  obtain ⟨kind, hkind, h⟩ := Except.bind_eq_ok.1 h
  obtain ⟨⟨required, rest⟩, hreq, h⟩ := Except.bind_eq_ok.1 h
  obtain ⟨es, hes, h⟩ := Except.bind_eq_ok.1 h
  obtain ⟨ms, hms, rfl⟩ := measuredMapMembers_spec hes
  cases h
  cases plane with
  | record => cases hreq; exact ⟨v, kind, ⟨[0], by simp, by decide⟩, _, _, ms, hv, hkind, rfl, hms, rfl⟩
  | event =>
    have hreq' := hreq
    simp only [takeMeasuredEventId] at hreq'
    obtain ⟨⟨id, rest'⟩, -, hreq'⟩ := Except.bind_eq_ok.1 hreq'
    obtain ⟨b, hb, hreq'⟩ := Except.bind_eq_ok.1 hreq'
    cases hreq'
    exact ⟨v, kind, b, _, _, ms, hv, hkind, hreq, hms, rfl⟩

theorem normalizeMeasuredRoot_eq_ok {plane : Plane} {item n : Term} :
    normalizeMeasuredRoot plane item = .ok n ↔
      ∃ kvs, item = .map kvs ∧ isStruct kvs = false ∧ measuredRoot plane kvs = .ok n := by
  unfold normalizeMeasuredRoot
  split
  · next kvs =>
    split
    · next hs => simp [hs]
    · next hs => split <;> simp_all
  · next hne => simpa using fun kvs hk => absurd hk (hne kvs)

theorem plain_sym {s : String} (h : (utf8 s).length < 2 ^ 16) : Plain (sym s) := .atom h

/-- **A normalized item is plain data**, with no atoms but these. -/
theorem normalizeMeasuredRoot_inherits {P : Term → Prop} (hP : Inherited P)
    (hatoms : ∀ s ∈ ["nil", "true", "false", "kind", "event_id"], P (sym s)) {plane : Plane} {item n : Term}
    (h : normalizeMeasuredRoot plane item = .ok n) : P n := by
  obtain ⟨kvs, -, -, h⟩ := normalizeMeasuredRoot_eq_ok.1 h
  obtain ⟨v, kind, id, rest, withoutKind, ms, -, -, -, hms, rfl⟩ := measuredRoot_spec h
  have hvalues : ∀ s ∈ ["nil", "true", "false"], P (sym s) := by
    intro s hs
    apply hatoms
    simp only [List.mem_cons, List.not_mem_nil, or_false] at hs ⊢
    rcases hs with rfl | rfl | rfl <;> simp
  have hentry : ∀ e ∈ putEntry (sym "kind") (.binary kind)
      ((requiredOf plane id).foldl (fun acc e => putEntry e.1 e.2 acc) (entriesOf ms)), P e.1 ∧ P e.2 := by
    have hsub : ∀ e ∈ entriesOf ms, P e.1 ∧ P e.2 := by
      intro e he
      have he := hms.perm.mem_iff.1 he
      obtain ⟨b, hb⟩ := hms.binary he
      obtain ⟨e', -, -, hv⟩ := hms.mem he
      exact ⟨hb ▸ hP.binary b, measuredValue_inherits hP hvalues hv⟩
    intro e he
    rcases mem_putEntry he with rfl | he
    · exact ⟨hatoms "kind" (by simp), hP.binary _⟩
    · cases plane with
      | record => exact hsub e he
      | event =>
        rcases mem_putEntry he with rfl | he
        · exact ⟨hatoms "event_id" (by simp), hP.binary _⟩
        · exact hsub e he
  exact hP.map (ordered_putEntry (ordered_foldl_putEntry _ _ (ordered_entriesOf ms)) _ _)
    (fun e he => (hentry e he).1) fun e he => (hentry e he).2

theorem normalizeMeasuredRoot_plain {plane : Plane} {item n : Term}
    (h : normalizeMeasuredRoot plane item = .ok n) : Plain n := by
  refine normalizeMeasuredRoot_inherits Plain.inherited (fun s hs => plain_sym ?_) h
  revert s
  decide

theorem deleteKey_of_ne {key : Term} {kvs : List (Term × Term)} (h : ∀ e ∈ kvs, e.1 ≠ key) :
    deleteKey key kvs = kvs :=
  List.filter_eq_self.2 fun e he => by simpa using h e he

theorem deleteKey_putEntry {key v : Term} {kvs : List (Term × Term)}
    (h : ∀ e ∈ kvs, encode e.1 ≠ encode key) : deleteKey key (putEntry key v kvs) = kvs := by
  have hne : ∀ e ∈ kvs, e.1 ≠ key := fun e he heq => h e he (by rw [heq])
  induction kvs with
  | nil => simp [putEntry, deleteKey]
  | cons e kvs ih =>
    obtain ⟨l, w⟩ := e
    have he : l ≠ key := hne (l, w) (by simp)
    have hk : ∀ e ∈ kvs, e.1 ≠ key := fun e he => hne e (by simp [he])
    simp only [putEntry]
    split
    · simpa [deleteKey] using deleteKey_of_ne hne
    · next h1 =>
      split
      · simpa [deleteKey, he] using ih (fun e he => h e (by simp [he])) hk
      · next h2 => exact absurd (List.le_antisymm h1 h2) (h (l, w) (by simp))

theorem encode_binary_ne_atom {b name : Bytes} : encode (.binary b) ≠ encode (.atom name) := by
  intro h
  simp only [encode] at h
  split at h <;> simp at h

/-- Two lists of entries with the same keys agree if they agree on one key and off it. -/
theorem eq_of_deleteKey {key w : Term} {xs ys : List (Term × Term)}
    (hk : xs.map Prod.fst = ys.map Prod.fst) (hd : deleteKey key xs = deleteKey key ys)
    (hx : ∀ e ∈ xs, e.1 = key → e.2 = w) (hy : ∀ e ∈ ys, e.1 = key → e.2 = w) : xs = ys := by
  induction xs generalizing ys with
  | nil => simpa using hk
  | cons x xs ih =>
    cases ys with
    | nil => simp at hk
    | cons y ys =>
      simp only [List.map_cons, List.cons.injEq] at hk
      by_cases hkey : x.1 = key
      · have hy' : y.1 = key := hk.1 ▸ hkey
        have hxy : x = y := Prod.ext hk.1 ((hx x (by simp) hkey).trans (hy y (by simp) hy').symm)
        have hd : deleteKey key xs = deleteKey key ys := by simpa [deleteKey, hkey, hy'] using hd
        rw [hxy, ih hk.2 hd (fun e he => hx e (by simp [he])) fun e he => hy e (by simp [he])]
      · have hy' : y.1 ≠ key := hk.1 ▸ hkey
        have hd : x = y ∧ deleteKey key xs = deleteKey key ys := by
          simpa [deleteKey, hkey, hy'] using hd
        rw [hd.1, ih hk.2 hd.2 (fun e he => hx e (by simp [he])) fun e he => hy e (by simp [he])]

theorem map_deleteKey (key : Term) (kvs : List (Term × Term)) :
    (deleteKey key kvs).map looseEntry = deleteKey key (kvs.map looseEntry) := by
  unfold deleteKey
  rw [List.filter_map]
  rfl

theorem takeRequired_eq_ok {kvs rest : List (Term × Term)} {field : String} {v : Term}
    (h : takeRequired kvs field = .ok (v, rest)) :
    ∃ key other, (key = sym field ∧ other = str field ∨ key = str field ∧ other = sym field) ∧
      lookup key kvs = some v ∧ lookup other kvs = none ∧ rest = deleteKey key kvs := by
  unfold takeRequired at h
  split at h <;> cases h
  · next h2 h1 => exact ⟨_, _, .inl ⟨rfl, rfl⟩, h1, h2, rfl⟩
  · next h1 h2 => exact ⟨_, _, .inr ⟨rfl, rfl⟩, h2, h1, rfl⟩

/-- **Normalizing a record changes nothing that `==` can overlook.** -/
theorem normalizeMeasuredRoot_loose {item n : Term} (h : normalizeMeasuredRoot .record item = .ok n)
    (hl : n.loosen = item.loosen) : n = item := by
  obtain ⟨kvs, rfl, -, h⟩ := normalizeMeasuredRoot_eq_ok.1 h
  obtain ⟨v, kind, id, rest, withoutKind, ms, hv, hkind, hid, hms, rfl⟩ := measuredRoot_spec h
  cases hid
  rw [loosen_map, loosen_map, Term.map.injEq] at hl
  change List.map looseEntry _ = List.map looseEntry _ at hl
  simp only [requiredOf, List.foldl_nil] at hl ⊢
  have hkeys := congrArg (List.map Prod.fst) hl
  simp only [List.map_map, Function.comp_def, looseEntry] at hkeys
  have hms_ne : ∀ e ∈ entriesOf ms, encode e.1 ≠ encode (sym "kind") := by
    intro e he
    obtain ⟨b, hb⟩ := hms.binary (hms.perm.mem_iff.1 he)
    rw [hb]
    exact encode_binary_ne_atom
  -- the item spells its kind as the normal form does
  have hself := lookup_putEntry_self (sym "kind") (.binary kind) (entriesOf ms)
  obtain ⟨w, hw, hwl⟩ : ∃ w, (sym "kind", w) ∈ kvs ∧ w.loosen = .binary kind := by
    have := List.mem_map_of_mem (f := looseEntry) (lookup_eq_some hself)
    rw [hl] at this
    obtain ⟨e, he, heq⟩ := List.mem_map.1 this
    simp only [looseEntry, Prod.mk.injEq, loosen_binary] at heq
    exact ⟨e.2, heq.1 ▸ he, heq.2⟩
  obtain rfl := loosen_eq_binary hwl
  have hrest : rest = deleteKey (sym "kind") kvs := by
    obtain ⟨key, other, hk, -, hnone, rfl⟩ := takeRequired_eq_ok hv
    rcases hk with ⟨rfl, -⟩ | ⟨-, rfl⟩
    · rfl
    · exact absurd rfl (lookup_eq_none.1 hnone _ hw)
  have hdel : entriesOf ms = rest := by
    refine hms.eq_of_loose (fun e _ y hy => measuredValue_loose hy) ?_
    rw [hrest, map_deleteKey, ← hl, ← map_deleteKey, deleteKey_putEntry hms_ne]
  have hnodup : (kvs.map Prod.fst).Nodup := hkeys ▸ (ordered_putEntry (ordered_entriesOf ms) _ _).nodup
  have hoff : deleteKey (sym "kind") (putEntry (sym "kind") (.binary kind) (entriesOf ms)) =
      deleteKey (sym "kind") kvs := by
    rw [deleteKey_putEntry hms_ne, hdel, hrest]
  refine congrArg Term.map (eq_of_deleteKey hkeys hoff (w := .binary kind) ?_ ?_)
  · intro e he hkey
    rcases mem_putEntry he with rfl | he
    · rfl
    · exact absurd (congrArg encode hkey) (hms_ne e he)
  · intro e he hkey
    have h1 := lookup_of_mem hnodup (show (sym "kind", e.2) ∈ kvs from hkey ▸ he)
    rw [lookup_of_mem hnodup hw] at h1
    exact (Option.some.inj h1).symm

/-! ## validity -/

theorem validateItem_eq_ok {plane : Plane} {item : Term} :
    validateItem plane item = .ok () ↔
      normalizeMeasuredRoot plane item = .ok item ∧ externalSize item ≤ maxItemBytes := by
  unfold validateItem normalizeAndMeasureItem
  cases hn : normalizeMeasuredRoot plane item with
  | error e => simp [bind, Except.bind]
  | ok n =>
    simp only [bind, Except.bind, Except.ok.injEq]
    by_cases he : n = item
    · subst he
      by_cases hs : externalSize n ≤ maxItemBytes <;> simp [hs]
    · simp [he]

theorem validateItem_inherits {P : Term → Prop} (hP : Inherited P)
    (hatoms : ∀ s ∈ ["nil", "true", "false", "kind", "event_id"], P (sym s)) {plane : Plane} {item : Term}
    (h : validateItem plane item = .ok ()) : P item :=
  normalizeMeasuredRoot_inherits hP hatoms (validateItem_eq_ok.1 h).1

theorem validateItem_plain {plane : Plane} {item : Term} (h : validateItem plane item = .ok ()) :
    Plain item :=
  normalizeMeasuredRoot_plain (validateItem_eq_ok.1 h).1

/-- The identity of an event, `event.event_id`. -/
def eventId : Term → Option Identifier
  | .map kvs => match lookup (sym "event_id") kvs with
    | some t => (validateIdentifier t).toOption
    | none => none
  | _ => none

/-- Every valid event has an identity. -/
theorem eventId_of_validateItem {event : Term} (h : validateItem .event event = .ok ()) :
    ∃ id, eventId event = some id := by
  obtain ⟨kvs, -, -, hm⟩ := normalizeMeasuredRoot_eq_ok.1 (validateItem_eq_ok.1 h).1
  obtain ⟨v, kind, id, rest, withoutKind, ms, -, -, -, hms, rfl⟩ := measuredRoot_spec hm
  refine ⟨id, ?_⟩
  have h1 : encode (sym "event_id") ≠ encode (sym "kind") := by decide
  simp only [eventId, requiredOf, List.foldl_cons, List.foldl_nil]
  rw [lookup_putEntry_ne h1, lookup_putEntry_self]
  have hid : validateIdentifier (.binary id.bytes) = .ok id := by simp
  simp [hid, Except.toOption]

end Loopex.Store
