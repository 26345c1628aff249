import Loopex.Store.Validation
import Mathlib.Algebra.Order.BigOperators.Group.List

/-!
# Maps under atom keys

The maps the Store builds, receipts, heads, records and transactions, are written as named fields.  Under
names that spell distinct atoms a field is read back as it was written.

* `lookup_entriesOf_fields` — a map holds the fields it was built from;
* `closedMap_atomMap` — and is closed on their names;
* `encode_atomMap_length` — its encoding is as long as its fields.
-/

namespace Loopex.Store

open Loopex.Erlang Loopex.Erlang.Term Loopex.Runtime

namespace Fields

@[simp] theorem get_nil (name : String) : get [] name = none := rfl

@[simp] theorem get_cons (name : String) (f : String × Term) (fs : Fields) :
    get (f :: fs) name = if f.1 = name then some f.2 else get fs name := by
  unfold get
  rw [List.find?_cons]
  by_cases h : f.1 = name <;> simp [h]

theorem get_of_mem {fs : Fields} (hn : (fs.map Prod.fst).Nodup) {f : String × Term} (hf : f ∈ fs) :
    fs.get f.1 = some f.2 := by
  induction fs with
  | nil => simp at hf
  | cons g fs ih =>
    rw [List.map_cons, List.nodup_cons] at hn
    rcases List.mem_cons.1 hf with rfl | hf
    · simp
    · have hne : g.1 ≠ f.1 := fun he => hn.1 (he ▸ List.mem_map_of_mem hf)
      simpa [hne] using ih hn.2 hf

theorem mem_of_get {fs : Fields} {name : String} {v : Term} (h : fs.get name = some v) :
    (name, v) ∈ fs := by
  induction fs with
  | nil => simp at h
  | cons g fs ih =>
    rw [get_cons] at h
    split at h
    · next he =>
      obtain rfl := Option.some.inj h
      simp [← he]
    · exact List.mem_cons_of_mem _ (ih h)

theorem get_append (fs gs : Fields) (name : String) :
    get (fs ++ gs) name = (fs.get name).or (gs.get name) := by
  induction fs with
  | nil => simp
  | cons f fs ih =>
    simp only [List.cons_append, get_cons, ih]
    split <;> simp

theorem get_isSome {fs : Fields} {name : String} : (fs.get name).isSome ↔ name ∈ fs.map Prod.fst := by
  constructor
  · intro h
    obtain ⟨v, hv⟩ := Option.isSome_iff_exists.1 h
    exact List.mem_map_of_mem (f := Prod.fst) (mem_of_get hv)
  · intro h
    induction fs with
    | nil => simp at h
    | cons f fs ih =>
      rw [get_cons]
      by_cases hf : f.1 = name
      · simp [hf]
      · rw [if_neg hf]
        exact ih ((List.mem_cons.1 h).resolve_left fun he => hf he.symm)

end Fields

/-- Names that spell distinct atoms. -/
def Apart (names : List String) : Prop :=
  names.Nodup ∧ names.Pairwise fun a b => encode (sym a) ≠ encode (sym b)

instance (names : List String) : Decidable (Apart names) := inferInstanceAs (Decidable (_ ∧ _))

variable {fs : Fields}

theorem perm_fields (h : Apart (fs.map Prod.fst)) : fs.entries.Perm (fs.map fun f => (sym f.1, f.2)) := by
  have h' := (List.pairwise_map (R := fun a b => encode (sym a) ≠ encode (sym b))).1 h.2
  exact perm_entriesOf (List.pairwise_map.2 h')

/-- **A map holds the fields it was built from.** -/
theorem lookup_entriesOf_fields (h : Apart (fs.map Prod.fst)) (name : String) :
    lookup (sym name) fs.entries = fs.get name := by
  have hperm := perm_fields h
  have hnodup := (ordered_entriesOf (fs.map fun f => (sym f.1, f.2))).nodup
  cases hg : fs.get name with
  | some v =>
    exact lookup_of_mem hnodup (hperm.mem_iff.2 (List.mem_map.2 ⟨_, Fields.mem_of_get hg, rfl⟩))
  | none =>
    refine lookup_eq_none.2 fun e hmem hkey => ?_
    obtain ⟨f, hf, rfl⟩ := List.mem_map.1 (hperm.mem_iff.1 hmem)
    have hname : f.1 = name := by simpa using hkey
    have := Fields.get_of_mem h.1 hf
    rw [hname, hg] at this
    cases this

theorem hasKey_fields (h : Apart (fs.map Prod.fst)) (name : String) :
    hasKey (sym name) fs.entries = true ↔ name ∈ fs.map Prod.fst := by
  rw [hasKey, lookup_entriesOf_fields h, Fields.get_isSome]

/-- **A map is closed on the names of its fields.** -/
theorem closedMap_atomMap (h : Apart (fs.map Prod.fst)) (hs : "__struct__" ∉ fs.map Prod.fst)
    {names : List String} (hn : names = fs.map Prod.fst) : closedMap (atomMap fs) names = true := by
  subst hn
  have hstruct : isStruct fs.entries = false := by
    have hno : ¬ hasKey (sym "__struct__") fs.entries = true := fun hk => hs ((hasKey_fields h _).1 hk)
    rw [hasKey, Bool.not_eq_true, Option.isSome_eq_false_iff, Option.isNone_iff_eq_none] at hno
    rw [isStruct, hno]
  have hlen := (perm_fields h).length_eq
  rw [atomMap, closedMap, hstruct, closedBy, hlen]
  simp only [Bool.not_false, List.length_map, decide_true, Bool.true_and, List.all_eq_true, List.mem_map]
  rintro _ ⟨_, ⟨f, hf, rfl⟩, rfl⟩
  exact (hasKey_fields h _).2 (List.mem_map_of_mem hf)

/-- `map.name`, of a closed map. -/
def atomField (t : Term) (name : String) : Term :=
  match t with
  | .map kvs => (lookup (sym name) kvs).getD nil
  | _ => nil

theorem atomField_atomMap (h : Apart (fs.map Prod.fst)) (name : String) :
    atomField (atomMap fs) name = (fs.get name).getD nil := by
  rw [atomMap, atomField, lookup_entriesOf_fields h]

/-! ## sizes -/

theorem encodeEntries_length (kvs : List (Term × Term)) :
    (encodeEntries kvs).length = (kvs.map fun e => (encode e.1).length + (encode e.2).length).sum := by
  induction kvs with
  | nil => rfl
  | cons e kvs ih => simp [encodeEntries, ih, Nat.add_assoc]

/-- The encoding of a map is as long as its fields. -/
theorem encode_atomMap_length (h : Apart (fs.map Prod.fst)) : (encode (atomMap fs)).length =
    5 + (fs.map fun f => (encode (sym f.1)).length + (encode f.2).length).sum := by
  have hsum := ((perm_fields h).map fun e => (encode e.1).length + (encode e.2).length).sum_eq
  rw [List.map_map] at hsum
  rw [atomMap, encode, List.length_append, List.length_cons, be_length, encodeEntries_length, hsum]
  simp only [Function.comp_def]

/-- The length of a map, from bounds on its values; the names of this program are short. -/
theorem encode_atomMap_le (h : Apart (fs.map Prod.fst))
    (hn : ∀ name ∈ fs.map Prod.fst, (encode (sym name)).length ≤ 40) :
    (encode (atomMap fs)).length ≤ 5 + (fs.map fun f => 40 + (encode f.2).length).sum := by
  rw [encode_atomMap_length h]
  refine Nat.add_le_add_left (List.sum_le_sum fun f hf => ?_) 5
  exact Nat.add_le_add_right (hn f.1 (List.mem_map_of_mem hf)) _

theorem encode_identifier_length (id : Identifier) : (encode id.term).length ≤ 261 := by
  have := id.le
  rw [Identifier.term, encode_binary_length]
  exact Nat.add_le_add_right this 5

theorem encode_counter_length {n : ℕ} (h : n ≤ creationUint64) : (encode (.int n)).length ≤ 11 :=
  encode_int_length (Nat.lt_succ_of_le h)

theorem encode_selection_length (s : Selection) : (encode s.term).length = 69 := by
  rw [Selection.term, encode_binary_length, s.length]

/-- The length of the bytes of a mutation. -/
theorem encodeFields_le (hn : ∀ name ∈ fs.map Prod.fst, (encode (sym name)).length ≤ 40) :
    (encodeFields fs).length ≤ 50 + (fs.map fun f => 42 + (encode f.2).length).sum := by
  have htag : (encode (str "loopex_store_transaction_v1")).length = 32 := by decide +kernel
  have htuple : ∀ f ∈ fs, (encode (.tuple [sym f.1, f.2])).length ≤ 42 + (encode f.2).length := by
    intro f hf
    have := hn f.1 (List.mem_map_of_mem hf)
    simp only [encode, encodeList, List.length_cons, List.length_nil]
    rw [if_pos (by decide)]
    simp only [List.length_cons, List.length_append, List.length_nil]
    omega
  have hsum : (fs.map fun f => (encode (.tuple [sym f.1, f.2])).length).sum ≤
      (fs.map fun f => 42 + (encode f.2).length).sum := List.sum_le_sum htuple
  have hbytes : byteList (str "loopex_store_transaction_v1" ::
      fs.map fun f => .tuple [sym f.1, f.2]) = none := rfl
  rw [encodeFields, termToBinary, encode, if_neg (by simp), hbytes]
  simp only [List.length_cons, List.length_append, be_length, encodeList, encodeList_length, List.map_map,
    List.length_nil, Function.comp_def, htag]
  omega

end Loopex.Store
