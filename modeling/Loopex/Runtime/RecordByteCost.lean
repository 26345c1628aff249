import Loopex.Erlang.IntWidth
import Loopex.Store.AtomMap
import Loopex.Store.Normalizer
import Loopex.Runtime.ToolDefinition

/-!
# The byte cost of a record

A context receipt states the size of the record that contains it.  `convergeRecordByteCost` writes a cost
into the receipt, has the Store measure the record, and goes on from what was measured until the two agree.

* `Slot` — the entries of a map around one whose value is left open;
* `normalize_stating` — the normal form and the size of a record, as functions of the cost it states;
* `resolveRecordByteCost_converges` — the loop ends with a record whose stated cost is its size;
* `convergeRecordByteCost_available` — no record makes the fixed point unavailable.
-/

namespace Loopex.Runtime

open Loopex.Erlang Loopex.Erlang.Term Loopex.Store

/-- The refusals of the fixed point. -/
inductive PreflightError where
  | contextRecordPreflightUnavailable
  | store (reason : Store.Reason)
  deriving DecidableEq

/-- `put_in(record, ["context_receipt", "record_byte_cost"], current)`: no struct gives this access. -/
def putByteCost (record : Term) (current : Term) : Check PreflightError Term :=
  if isPlainMap record && isPlainMap (get record "context_receipt") then
    .ok (put record "context_receipt" (put (get record "context_receipt") "record_byte_cost" current))
  else .raise .undefinedFunction

/-- `converge_record_byte_cost`. -/
def convergeRecordByteCost (record : Term) : ℕ → ℕ → Check PreflightError Term
  | _, 0 => .error .contextRecordPreflightUnavailable
  | current, fuel + 1 => do
    let candidate ← putByteCost record (.int current)
    match normalizeAndMeasureItem .record candidate with
    | .ok (normalized, measured) =>
      if measured = current then .ok normalized else convergeRecordByteCost record measured fuel
    | .error reason => .error (.store reason)

/-- `resolve_record_byte_cost`. -/
def resolveRecordByteCost (record : Term) : Check PreflightError Term :=
  match fetch record "context_receipt" with
  | some (.map receipt) =>
    if hasKey (str "record_byte_cost") receipt then convergeRecordByteCost record 0 8 else .ok record
  | _ => .ok record

/-- The cost that the receipt of a record states. -/
def statedCost (record : Term) : Option Term := fetch (get record "context_receipt") "record_byte_cost"

/-! ## one member of a map -/

/-- What the members of a map have to be, and what they become. -/
theorem measuredMapMembers_eq_ok {plane : Plane} {kvs es : List (Term × Term)} {depth : ℕ} :
    measuredMapMembers plane kvs depth = .ok es ↔
    (∀ e ∈ kvs, KeyNorm plane e.1 (memberName e)) ∧ (kvs.map memberName).Nodup ∧
      (∀ e ∈ kvs, ∃ y, measuredValue plane e.2 (depth + 1) = .ok y) ∧
      es = entriesOf (kvs.map (member fun e => measuredValue plane e.2 (depth + 1))) := by
  constructor
  · intro h
    obtain ⟨keys, hkeys, h⟩ := Except.bind_eq_ok.1 h
    obtain ⟨rfl, hk, hn⟩ := measuredKeys_eq_ok.1 hkeys
    rw [measuredValues_eq] at h
    unfold measuredChildren at h
    split at h
    · next ms hg =>
      obtain ⟨hall, rfl⟩ := gather_eq_some.1 hg
      cases h
      exact ⟨hk, hn, hall, rfl⟩
    · dsimp only at h
      split at h <;> cases h
  · rintro ⟨hk, hn, hall, rfl⟩
    unfold measuredMapMembers
    rw [measuredKeys_eq_ok.2 ⟨rfl, hk, hn⟩]
    change measuredChildren _ _ _ = _
    rw [measuredValues_eq, measuredChildren, gather_eq_some.2 ⟨hall, rfl⟩]

/-- The entries of a map around the one that is left open. -/
structure Slot where
  before : List (Term × Term)
  key : Term
  after : List (Term × Term)

namespace Slot

/-- The map with a value in the open place. -/
def fill (s : Slot) (w : Term) : List (Term × Term) := s.before ++ (s.key, w) :: s.after

variable (s : Slot)

/-- The place of a key does not depend on what is put under it. -/
theorem exists_putEntry (k : Term) (kvs : List (Term × Term)) :
    ∃ s : Slot, s.key = k ∧ ∀ w, putEntry k w kvs = s.fill w := by
  induction kvs with
  | nil => exact ⟨⟨[], k, []⟩, rfl, fun _ => rfl⟩
  | cons e kvs ih =>
    obtain ⟨l, u⟩ := e
    obtain ⟨s, hs, hput⟩ := ih
    by_cases hkl : keyLt k l
    · exact ⟨⟨[], k, (l, u) :: kvs⟩, rfl, fun w => by simp [putEntry, hkl, fill]⟩
    by_cases hlk : keyLt l k
    · exact ⟨⟨(l, u) :: s.before, k, s.after⟩, rfl, fun w => by simp [putEntry, hkl, hlk, hput, fill, hs]⟩
    · exact ⟨⟨[], k, kvs⟩, rfl, fun w => by simp [putEntry, hkl, hlk, fill]⟩

theorem lookup_fill {key : Term} (h : key ≠ s.key) (v w : Term) :
    lookup key (s.fill v) = lookup key (s.fill w) := by
  obtain ⟨before, k, after⟩ := s
  induction before with
  | nil => simp only [fill, List.nil_append, lookup, if_neg (Ne.symm h)]
  | cons e before ih =>
    simp only [fill, List.cons_append, lookup] at ih ⊢
    rw [ih h]

theorem length_fill (v w : Term) : (s.fill v).length = (s.fill w).length := by
  simp only [fill, List.length_append, List.length_cons]

theorem isStruct_fill (h : sym "__struct__" ≠ s.key) (v w : Term) :
    isStruct (s.fill v) = isStruct (s.fill w) := by
  rw [isStruct, isStruct, s.lookup_fill h v w]

/-- The entries but those under a key. -/
def without (key : Term) : Slot := ⟨deleteKey key s.before, s.key, deleteKey key s.after⟩

theorem deleteKey_fill {key : Term} (h : key ≠ s.key) (w : Term) :
    deleteKey key (s.fill w) = (s.without key).fill w := by
  simp [deleteKey, fill, without, List.filter_append, Ne.symm h]

/-- The normal members of a map around the one that is left open. -/
def normal (plane : Plane) (depth : ℕ) : Slot where
  before := s.before.map (member fun e => measuredValue plane e.2 (depth + 1))
  key := .binary (memberName (s.key, nil))
  after := s.after.map (member fun e => measuredValue plane e.2 (depth + 1))

variable {s} {plane : Plane} {depth : ℕ} {v w w' : Term} {es : List (Term × Term)}

theorem map_memberName_fill (v w : Term) : (s.fill v).map memberName = (s.fill w).map memberName := by
  simp [fill, memberName]

theorem map_member_fill (h : measuredValue plane w (depth + 1) = .ok w') :
    (s.fill w).map (member fun e => measuredValue plane e.2 (depth + 1)) = (s.normal plane depth).fill w' := by
  simp [fill, normal, member, h, memberName]

/-- The open place of a map takes any value that has a normal form there. -/
theorem members_fill (hes : measuredMapMembers plane (s.fill v) depth = .ok es)
    (h : measuredValue plane w (depth + 1) = .ok w') :
    measuredMapMembers plane (s.fill w) depth = .ok (entriesOf ((s.normal plane depth).fill w')) ∧
      (entriesOf ((s.normal plane depth).fill w')).Perm ((s.normal plane depth).fill w') := by
  obtain ⟨hk, hn, hall, -⟩ := measuredMapMembers_eq_ok.1 hes
  rw [map_memberName_fill v w] at hn
  rw [← map_member_fill h]
  refine ⟨measuredMapMembers_eq_ok.2 ⟨fun e he => ?_, hn, fun e he => ?_, rfl⟩, perm_member hn⟩
  · simp only [fill, List.mem_append, List.mem_cons] at he hk
    rcases he with he | rfl | he
    · exact hk e (.inl he)
    · exact hk (s.key, v) (.inr (.inl rfl))
    · exact hk e (.inr (.inr he))
  · simp only [fill, List.mem_append, List.mem_cons] at he hall
    rcases he with he | rfl | he
    · exact hall e (.inl he)
    · exact ⟨w', h⟩
    · exact hall e (.inr (.inr he))

theorem measured_of_members (hes : measuredMapMembers plane (s.fill v) depth = .ok es) :
    ∃ y, measuredValue plane v (depth + 1) = .ok y :=
  (measuredMapMembers_eq_ok.1 hes).2.2.1 (s.key, v) (by simp [fill])

theorem binary_of_mem_normal {e : Term × Term} (he : e ∈ (s.normal plane depth).fill w') :
    ∃ b, e.1 = .binary b := by
  simp only [fill, normal, List.mem_append, List.mem_cons, List.mem_map] at he
  rcases he with ⟨e, -, rfl⟩ | rfl | ⟨e, -, rfl⟩
  · exact ⟨_, rfl⟩
  · exact ⟨_, rfl⟩
  · exact ⟨_, rfl⟩

/-- The size of the entries besides the value in the open place. -/
def base (s : Slot) : ℕ :=
  (encodeEntries s.before).length + (encode s.key).length + (encodeEntries s.after).length

theorem encodeEntries_perm {xs ys : List (Term × Term)} (h : xs.Perm ys) :
    (encodeEntries xs).length = (encodeEntries ys).length := by
  rw [encodeEntries_length, encodeEntries_length, (h.map _).sum_eq]

theorem encodeEntries_fill (s : Slot) (w : Term) :
    (encodeEntries (s.fill w)).length = s.base + (encode w).length := by
  simp only [encodeEntries_length, fill, base, List.map_append, List.map_cons, List.sum_append, List.sum_cons]
  omega

theorem key_normal {name : String} (h : s.key = str name) : (s.normal plane depth).key = str name := by
  simp [normal, h, memberName, keyBytes, str]

theorem encode_map_length (kvs : List (Term × Term)) :
    (encode (.map kvs)).length = 5 + (encodeEntries kvs).length := by
  simp only [encode, List.length_append, List.length_cons, be_length]

theorem mem_fill (w : Term) : (s.key, w) ∈ s.fill w := by simp [fill]

/-- What is in the open place is found under its key. -/
theorem lookup_entriesOf_fill (h : (entriesOf (s.fill w)).Perm (s.fill w)) :
    lookup s.key (entriesOf (s.fill w)) = some w :=
  lookup_of_mem (ordered_entriesOf _).nodup (h.mem_iff.2 (mem_fill w))

/-- A map with an open place: what it becomes, where its value is found, and its size. -/
theorem measuredValue_fill {name : String} {y : Term} (hkey : s.key = str name)
    (hy : measuredValue plane (.map (s.fill v)) depth = .ok y) :
    ∃ normal : Term → Term, ∃ base, ∀ w w', measuredValue plane w (depth + 1) = .ok w' →
      measuredValue plane (.map (s.fill w)) depth = .ok (normal w') ∧
      fetch (normal w') name = some w' ∧ (encode (normal w')).length = base + (encode w').length := by
  obtain ⟨hd, hs, hlen, es, hes, -⟩ := measuredValue_map_eq_ok.1 hy
  refine ⟨fun w' => .map (entriesOf ((s.normal plane depth).fill w')), 5 + (s.normal plane depth).base,
    fun w w' h => ?_⟩
  obtain ⟨hmembers, hperm⟩ := members_fill hes h
  refine ⟨measuredValue_map_eq_ok.2 ⟨hd, ?_, ?_, _, hmembers, rfl⟩, ?_, ?_⟩
  · rw [s.isStruct_fill (by simp [hkey, sym, str]) w v, hs]
  · rw [s.length_fill w v]
    exact hlen
  · have hread := lookup_entriesOf_fill hperm
    rwa [key_normal hkey] at hread
  · rw [encode_map_length, encodeEntries_perm hperm, encodeEntries_fill]
    omega

/-- The kind of a record stands beside its members. -/
theorem encode_kind {kind : Bytes} {es : List (Term × Term)} (h : ∀ e ∈ es, ∃ b, e.1 = .binary b) :
    (encode (.map (putEntry (sym "kind") (.binary kind) es))).length =
      5 + ((encode (sym "kind")).length + (encode (.binary kind)).length) + (encodeEntries es).length := by
  have hne : ∀ e ∈ es, encode e.1 ≠ encode (sym "kind") := by
    intro e he
    obtain ⟨b, hb⟩ := h e he
    rw [hb]
    exact encode_binary_ne_atom
  rw [encode_map_length, encodeEntries_perm (perm_putEntry hne)]
  simp only [encodeEntries, List.length_append]
  omega

/-- A record with an open place: what it becomes, where its value is found, and its size. -/
theorem normalizeMeasuredRoot_fill {name : String} {n : Term} (hkey : s.key = str name) (hname : name ≠ "kind")
    (hn : normalizeMeasuredRoot .record (.map (s.fill v)) = .ok n) :
    (∃ y, measuredValue .record v 1 = .ok y) ∧
    ∃ normal : Term → Term, ∃ base, ∀ w w', measuredValue .record w 1 = .ok w' →
      normalizeMeasuredRoot .record (.map (s.fill w)) = .ok (normal w') ∧
      fetch (normal w') name = some w' ∧ (encode (normal w')).length = base + (encode w').length := by
  have hsym : sym "kind" ≠ s.key := by simp [hkey, sym, str]
  have hstr : str "kind" ≠ s.key := by
    rw [hkey]
    exact fun heq => hname (utf8_inj.1 (Term.binary.inj heq)).symm
  obtain ⟨kvs, hkvs, hs, hroot⟩ := normalizeMeasuredRoot_eq_ok.1 hn
  cases hkvs
  unfold measuredRoot at hroot
  obtain ⟨⟨⟩, hcard, hroot⟩ := Except.bind_eq_ok.1 hroot
  obtain ⟨⟨kindValue, withoutKind⟩, htake, hroot⟩ := Except.bind_eq_ok.1 hroot
  obtain ⟨kind, hkind, hroot⟩ := Except.bind_eq_ok.1 hroot
  obtain ⟨⟨required, rest⟩, hrequired, hroot⟩ := Except.bind_eq_ok.1 hroot
  cases hrequired
  obtain ⟨es, hes, -⟩ := Except.bind_eq_ok.1 hroot
  obtain ⟨key, other, hor, hsome, hnone, rfl⟩ := takeRequired_eq_ok htake
  have hne : key ≠ s.key := by
    rcases hor with ⟨rfl, -⟩ | ⟨rfl, -⟩
    · exact hsym
    · exact hstr
  rw [s.deleteKey_fill hne] at hes
  refine ⟨measured_of_members hes, fun w' => .map (putEntry (sym "kind") (.binary kind)
    (entriesOf (((s.without key).normal .record 0).fill w'))),
    5 + ((encode (sym "kind")).length + (encode (.binary kind)).length) + ((s.without key).normal .record 0).base,
    fun w w' h => ?_⟩
  obtain ⟨hmembers, hperm⟩ := members_fill hes h
  refine ⟨normalizeMeasuredRoot_eq_ok.2 ⟨_, rfl, ?_, ?_⟩, ?_, ?_⟩
  · rw [s.isStruct_fill (by simp [hkey, sym, str]) w v, hs]
  · -- the kind is found under the same key, with the same value
    have htake' : takeRequired (s.fill w) "kind" = .ok (kindValue, (s.without key).fill w) := by
      rw [takeRequired, s.lookup_fill hsym w v, s.lookup_fill hstr w v, s.deleteKey_fill hsym,
        s.deleteKey_fill hstr]
      rcases hor with ⟨rfl, rfl⟩ | ⟨rfl, rfl⟩
      · rw [hsome, hnone]
      · rw [hsome, hnone]
    unfold measuredRoot
    rw [s.length_fill w v, hcard, htake']
    change (normalizeKind kindValue >>= _) = _
    rw [hkind]
    change (measuredMapMembers .record ((s.without key).fill w) 0 >>= _) = _
    rw [hmembers]
    rfl
  · have hread := lookup_entriesOf_fill hperm
    rw [key_normal (show (s.without key).key = str name from hkey)] at hread
    have hname : encode (str name) ≠ encode (sym "kind") := encode_binary_ne_atom
    exact (lookup_putEntry_ne hname).trans hread
  · rw [encode_kind fun e he => binary_of_mem_normal (hperm.mem_iff.1 he), encodeEntries_perm hperm,
      encodeEntries_fill]
    omega

end Slot

/-! ## the record, by the cost it states -/

/-- The record that states `cost` in its receipt. -/
def stating (kvs receipt : List (Term × Term)) (cost : Term) : Term :=
  .map (putEntry (str "context_receipt") (.map (putEntry (str "record_byte_cost") cost receipt)) kvs)

/-- **The normal form and the size of a record, by the cost it states**: the size is that of everything else
and of the cost. -/
theorem normalize_stating {kvs receipt : List (Term × Term)} {t n : Term}
    (hn : normalizeMeasuredRoot .record (stating kvs receipt t) = .ok n) :
    isStruct (putEntry (str "record_byte_cost") t receipt) = false ∧
    ∃ normal : ℕ → Term, ∃ base, ∀ cost : ℕ,
      normalizeAndMeasureItem .record (stating kvs receipt (.int cost)) = .ok (normal cost, restated base cost) ∧
      statedCost (normal cost) = some (.int cost) := by
  obtain ⟨inner, hinner, hputi⟩ := Slot.exists_putEntry (str "record_byte_cost") receipt
  obtain ⟨outer, houter, hputo⟩ := Slot.exists_putEntry (str "context_receipt") kvs
  have hstating : ∀ cost, stating kvs receipt cost = .map (outer.fill (.map (inner.fill cost))) := by
    intro cost
    rw [stating, hputi, hputo]
  rw [hstating] at hn
  obtain ⟨⟨y, hy⟩, normalRecord, baseRecord, hrecord⟩ := Slot.normalizeMeasuredRoot_fill houter (by decide) hn
  obtain ⟨normalReceipt, baseReceipt, hreceipt⟩ := Slot.measuredValue_fill hinner hy
  refine ⟨hputi t ▸ (measuredValue_map_eq_ok.1 hy).2.1,
    fun cost => normalRecord (normalReceipt (.int cost)), 1 + baseRecord + baseReceipt, fun cost => ?_⟩
  have hcost : measuredValue .record (.int cost) 2 = .ok (.int cost) := by simp [measuredValue, maxDepth]
  obtain ⟨hr1, hr2, hr3⟩ := hreceipt _ _ hcost
  obtain ⟨h1, h2, h3⟩ := hrecord _ _ hr1
  constructor
  · have hint : (encode (.int cost)).length = intWidth cost := encodeInt_length cost
    have hsize : externalSize (normalRecord (normalReceipt (.int cost))) =
        restated (1 + baseRecord + baseReceipt) cost := by
      rw [externalSize_eq, h3, hr3, hint, restated]
      omega
    rw [normalizeAndMeasureItem, hstating, h1, ← hsize]
    rfl
  · rw [statedCost, get, h2]
    exact hr2

/-! ## the loop -/

variable {record : Term} {normal : ℕ → Term} {base : ℕ}

/-- The record is legal with any cost, and its size is that of everything else and of the cost. -/
def Sized (record : Term) (normal : ℕ → Term) (base : ℕ) : Prop :=
  ∀ cost : ℕ, ∃ candidate, putByteCost record (.int cost) = .ok candidate ∧
    normalizeAndMeasureItem .record candidate = .ok (normal cost, restated base cost) ∧
    statedCost (normal cost) = some (.int cost)

theorem Sized.step (h : Sized record normal base) (cost fuel : ℕ) :
    convergeRecordByteCost record cost (fuel + 1) =
      if restated base cost = cost then .ok (normal cost)
      else convergeRecordByteCost record (restated base cost) fuel := by
  obtain ⟨candidate, hput, hmeasure, -⟩ := h cost
  rw [convergeRecordByteCost, hput]
  simp only [Check.ok_bind, hmeasure]

/-- The loop ends once the sizes it goes through repeat, if the fuel lasts until then. -/
theorem Sized.run (h : Sized record normal base) {n : ℕ} :
    ∀ {cost fuel : ℕ}, n < fuel → restated base ((restated base)^[n] cost) = (restated base)^[n] cost →
      ∃ c, convergeRecordByteCost record cost fuel = .ok (normal c) ∧ restated base c = c := by
  induction n with
  | zero =>
    intro cost fuel hfuel hfixed
    obtain ⟨fuel, rfl⟩ := Nat.exists_eq_add_one.2 hfuel
    rw [Function.iterate_zero_apply] at hfixed
    exact ⟨cost, by rw [h.step, if_pos hfixed], hfixed⟩
  | succ n ih =>
    intro cost fuel hfuel hfixed
    obtain ⟨fuel, rfl⟩ := Nat.exists_eq_add_one.2 (Nat.zero_lt_of_lt hfuel)
    rw [Function.iterate_succ_apply] at hfixed
    by_cases hnow : restated base cost = cost
    · exact ⟨cost, by rw [h.step, if_pos hnow], hnow⟩
    · obtain ⟨c, hc, htrue⟩ := ih (Nat.lt_of_succ_lt_succ hfuel) hfixed
      exact ⟨c, by rw [h.step, if_neg hnow, hc], htrue⟩

/-- **Eight steps are enough**, and the cost that is stated is the size. -/
theorem Sized.converges (h : Sized record normal base) :
    ∃ fixed cost, convergeRecordByteCost record 0 8 = .ok fixed ∧ statedCost fixed = some (.int (cost : ℕ)) ∧
      normalizeAndMeasureItem .record fixed = .ok (fixed, cost) := by
  obtain ⟨cost, hrun, htrue⟩ := h.run (n := 3) (show 3 < 8 by decide) (restated_fixed base)
  obtain ⟨candidate, -, hmeasure, hstated⟩ := h cost
  rw [htrue] at hmeasure
  exact ⟨normal cost, cost, hrun, hstated, normalizeAndMeasureItem_idem hmeasure⟩

theorem putByteCost_map {kvs receipt : List (Term × Term)} (hs : isStruct kvs = false)
    (hreceipt : lookup (str "context_receipt") kvs = some (.map receipt)) (hr : isStruct receipt = false)
    (t : Term) : putByteCost (.map kvs) t = .ok (stating kvs receipt t) := by
  have hget : get (.map kvs) "context_receipt" = .map receipt := by rw [get, fetch, hreceipt, Option.getD_some]
  simp only [putByteCost, hget, isPlainMap, hs, hr, Bool.not_false, Bool.and_self, if_true]
  rfl

theorem get_eq_map {receipt : List (Term × Term)} {key : String} (h : get record key = .map receipt) :
    ∃ kvs, record = .map kvs ∧ lookup (str key) kvs = some (.map receipt) := by
  unfold get at h
  cases hf : fetch record key with
  | none =>
    rw [hf] at h
    cases h
  | some x =>
    rw [hf] at h
    unfold fetch at hf
    split at hf
    · next kvs => exact ⟨kvs, rfl, hf.trans (congrArg some h)⟩
    · cases hf

theorem isPlain_record (h : (isPlainMap record && isPlainMap (get record "context_receipt")) = true) :
    ∃ kvs receipt, record = .map kvs ∧ isStruct kvs = false ∧
      lookup (str "context_receipt") kvs = some (.map receipt) ∧ isStruct receipt = false := by
  obtain ⟨h1, h2⟩ := Bool.and_eq_true_iff.1 h
  unfold isPlainMap at h2
  split at h2
  · next receipt hget =>
    obtain ⟨kvs, rfl, hl⟩ := get_eq_map hget
    exact ⟨kvs, receipt, rfl, by simpa [isPlainMap] using h1, hl, by simpa using h2⟩
  · cases h2

theorem statedCost_eq_some {t : Term} : statedCost record = some t ↔ ∃ kvs receipt, record = .map kvs ∧
    lookup (str "context_receipt") kvs = some (.map receipt) ∧
    lookup (str "record_byte_cost") receipt = some t := by
  constructor
  · intro h
    unfold statedCost fetch at h
    split at h
    · next receipt hget =>
      obtain ⟨kvs, rfl, hl⟩ := get_eq_map hget
      exact ⟨kvs, receipt, rfl, hl, h⟩
    · cases h
  · rintro ⟨kvs, receipt, rfl, hr, ht⟩
    rw [statedCost, get, fetch, hr]
    exact ht

/-- A record without its stated cost is the record that states it. -/
theorem stating_self {kvs receipt : List (Term × Term)} {t : Term} (ho : Ordered kvs) (hor : Ordered receipt)
    (hr : lookup (str "context_receipt") kvs = some (.map receipt))
    (ht : lookup (str "record_byte_cost") receipt = some t) : stating kvs receipt t = .map kvs := by
  rw [stating, putEntry_of_mem hor (lookup_eq_some ht), putEntry_of_mem ho (lookup_eq_some hr)]

/-- **The size that a record states is found.**  A legal record whose receipt has the field comes out of the
loop, entered at zero with fuel for eight steps, as a record whose stated cost is the size that the Store
measures; the fixed point is never unavailable. -/
theorem resolveRecordByteCost_converges {record m t : Term} {size : ℕ} (hw : WellFormed record)
    (hlegal : normalizeAndMeasureItem .record record = .ok (m, size)) (hstated : statedCost record = some t) :
    ∃ fixed cost, convergeRecordByteCost record 0 8 = .ok fixed ∧ resolveRecordByteCost record = .ok fixed ∧
      statedCost fixed = some (.int (cost : ℕ)) ∧ normalizeAndMeasureItem .record fixed = .ok (fixed, cost) := by
  obtain ⟨kvs, receipt, rfl, hr, ht⟩ := statedCost_eq_some.1 hstated
  obtain ⟨n, hn, -⟩ := Except.bind_eq_ok.1 hlegal
  cases hw with
  | map ho _ hv =>
    have hwr : WellFormed (.map receipt) := hv _ (lookup_eq_some hr)
    cases hwr with
    | map hor _ _ =>
      have hs : isStruct kvs = false := by
        obtain ⟨kvs', heq, hs, -⟩ := normalizeMeasuredRoot_eq_ok.1 hn
        cases heq
        exact hs
      rw [← stating_self ho hor hr ht] at hn
      obtain ⟨hrs, normal, base, hsized⟩ := normalize_stating hn
      rw [putEntry_of_mem hor (lookup_eq_some ht)] at hrs
      have hall : Sized (.map kvs) normal base :=
        fun cost => ⟨_, putByteCost_map hs hr hrs _, hsized cost⟩
      obtain ⟨fixed, cost, hrun, hcost, hsize⟩ := hall.converges
      refine ⟨fixed, cost, hrun, ?_, hcost, hsize⟩
      rw [resolveRecordByteCost, fetch, hr]
      simp only [hasKey, ht, Option.isSome_some, if_true, hrun]

/-- A request record that states no cost yet. -/
def unsizedRecord : Term :=
  .map [(str "context_receipt", .map [(str "record_byte_cost", .int 0)]), (sym "kind", str "request")]

theorem unsizedRecord_wellFormed : WellFormed unsizedRecord := by
  refine .map (by decide) ?_ ?_
  · simp only [List.mem_cons, List.not_mem_nil, or_false, forall_eq_or_imp, forall_eq]
    exact ⟨.binary, .atom⟩
  · simp only [List.mem_cons, List.not_mem_nil, or_false, forall_eq_or_imp, forall_eq]
    refine ⟨.map (by decide) ?_ ?_, .binary⟩
    · simp only [List.mem_singleton, forall_eq]
      exact .binary
    · simp only [List.mem_singleton, forall_eq]
      exact .int

theorem resolveRecordByteCost_unsizedRecord : ∃ fixed cost, convergeRecordByteCost unsizedRecord 0 8 = .ok fixed ∧
    resolveRecordByteCost unsizedRecord = .ok fixed ∧ statedCost fixed = some (.int (cost : ℕ)) ∧
      normalizeAndMeasureItem .record fixed = .ok (fixed, cost) :=
  have hlegal : normalizeAndMeasureItem .record unsizedRecord = .ok (unsizedRecord, 72) := by rfl
  have hstated : statedCost unsizedRecord = some (.int 0) := by decide
  resolveRecordByteCost_converges unsizedRecord_wellFormed hlegal hstated

/-- **The fixed point is available to every record**: whatever the loop refuses or raises, the Store or the
access does. -/
theorem convergeRecordByteCost_available (record : Term) :
    convergeRecordByteCost record 0 8 ≠ .error .contextRecordPreflightUnavailable := by
  by_cases hplain : isPlainMap record && isPlainMap (get record "context_receipt")
  · obtain ⟨kvs, receipt, rfl, hs, hr, hrs⟩ := isPlain_record hplain
    have hput := putByteCost_map hs hr hrs
    cases hn : normalizeMeasuredRoot .record (stating kvs receipt (.int 0)) with
    | error reason =>
      have hmeasure : normalizeAndMeasureItem .record (stating kvs receipt (.int 0)) = .error reason := by
        rw [normalizeAndMeasureItem, hn]
        rfl
      rw [convergeRecordByteCost, Nat.cast_zero, hput, Check.ok_bind, hmeasure]
      simp
    | ok n =>
      obtain ⟨-, normal, base, hsized⟩ := normalize_stating hn
      have hall : Sized (.map kvs) normal base := fun cost => ⟨_, hput _, hsized cost⟩
      obtain ⟨fixed, cost, hrun, -⟩ := hall.converges
      rw [hrun]
      simp
  · rw [convergeRecordByteCost, putByteCost, if_neg hplain]
    simp

end Loopex.Runtime
