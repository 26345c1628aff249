import Loopex.Erlang.ExternalFormat
import Loopex.Erlang.Sha256
import Mathlib.Data.List.Forall2
import Mathlib.Data.List.Sort

/-!
# Canonical bytes

`Canonical.encode` writes a term after it has put every map as `{loopex_map, pairs}`, the pairs sorted by the
bytes of their keys.

* `order`, `encode` — the functions of the source; the entries of a map come in the order it enumerates them
* `Listing a' a` — `a'` is the term `a` with the entries of its maps in some order of enumeration
* `Unspelled t` — no tuple in `t` spells out a map
* `order_inj`, `order_listing` — terms without spelled maps have their own canonical form, in any enumeration
-/

namespace Loopex.Protocol.Canonical

open Loopex.Erlang Loopex.Erlang.Term

/-! ## the functions of the source -/

/-- `is_struct` of a map. -/
def isStruct (kvs : List (Term × Term)) : Bool :=
  kvs.any fun e => e.1 = sym "__struct__" && match e.2 with
    | .atom _ => true
    | _ => false

/-- The tuple that stands for a map. -/
def spelling (ps : List (Term × Term)) : Term :=
  .tuple [sym "loopex_map", .list (ps.map fun p => .tuple [p.1, p.2])]

/-- The order of pairs by the bytes of their keys. -/
abbrev KeyLE (p q : Term × Term) : Prop := termToBinary p.1 ≤ termToBinary q.1

/-- `Enum.sort_by` on the bytes of the keys. -/
def sortPairs (ps : List (Term × Term)) : List (Term × Term) := ps.insertionSort KeyLE

mutual
/-- `order`; `none` is an exception.  The entries of a map come in the order it enumerates them. -/
def order : Term → Option Term
  | .map kvs => if isStruct kvs then none else (orderEntries kvs).map fun ps => spelling (sortPairs ps)
  | .list xs => (orderList xs).map .list
  | .tuple xs => (orderList xs).map .tuple
  | .binary b => some (.binary b)
  | .int n => some (.int n)
  | .float x => some (.float x)
  | .atom a => some (.atom a)
  | _ => none
def orderList : List Term → Option (List Term)
  | [] => some []
  | x :: xs => do
    let y ← order x
    let ys ← orderList xs
    some (y :: ys)
def orderEntries : List (Term × Term) → Option (List (Term × Term))
  | [] => some []
  | (k, v) :: kvs => do
    let k ← order k
    let v ← order v
    let ps ← orderEntries kvs
    some ((k, v) :: ps)
end

/-- `encode`; `none` is an exception, of `order` or for a length that does not fit. -/
def encode (t : Term) : Option Bytes := do
  let o ← order t
  if fits o then some (termToBinary o) else none

/-- `digest_bytes`. -/
def digestBytes (b : Bytes) : Bytes := hex (sha256 b)

/-! ## enumeration -/

mutual
/-- The first term is the second with the entries of its maps in some order of enumeration. -/
def Listing : Term → Term → Prop
  | .list xs, .list ys => ListingAll xs ys
  | .tuple xs, .tuple ys => ListingAll xs ys
  | .map kvs, .map lws => ∃ lws', lws'.Perm lws ∧ ListingEntries kvs lws'
  | .atom a, .atom b => a = b
  | .int m, .int n => m = n
  | .float x, .float y => x = y
  | .binary a, .binary b => a = b
  | _, _ => False
def ListingAll : List Term → List Term → Prop
  | [], [] => True
  | x :: xs, y :: ys => Listing x y ∧ ListingAll xs ys
  | _, _ => False
def ListingEntries : List (Term × Term) → List (Term × Term) → Prop
  | [], [] => True
  | (k, v) :: kvs, (l, w) :: lws => Listing k l ∧ Listing v w ∧ ListingEntries kvs lws
  | _, _ => False
end

/-! ## spelled maps -/

/-- The key of an element of a spelled map: a pair's first component, and a map is itself put as a pair. -/
def keyOf : Term → Option Term
  | .tuple [k, _] => some k
  | .map _ => some (sym "loopex_map")
  | _ => none

/-- The first key's bytes are the lesser. -/
def KeyBefore (k l : Term) : Prop := ∃ x y, encode k = some x ∧ encode l = some y ∧ x < y

/-- A tuple spells out a map: `{loopex_map, pairs}` with the keys of the pairs in the order of their bytes, each
once.  A pair that would make the map a struct does not count. -/
def Spells (xs : List Term) : Prop :=
  ∃ (ys ks : List Term), xs = [sym "loopex_map", .list ys] ∧ ys.map keyOf = ks.map some ∧ ks.Pairwise KeyBefore ∧
    ∀ a, .tuple [sym "__struct__", .atom a] ∉ ys

/-- Plain data no tuple of which spells out a map. -/
inductive Unspelled : Term → Prop
  | atom {a} : Unspelled (.atom a)
  | int {n} : Unspelled (.int n)
  | float {x} : Unspelled (.float x)
  | binary {b} : Unspelled (.binary b)
  | list {xs} : (∀ x ∈ xs, Unspelled x) → Unspelled (.list xs)
  | tuple {xs} : ¬ Spells xs → (∀ x ∈ xs, Unspelled x) → Unspelled (.tuple xs)
  | map {kvs : List (Term × Term)} : (∀ e ∈ kvs, Unspelled e.1) → (∀ e ∈ kvs, Unspelled e.2) → Unspelled (.map kvs)

/-! ## what `order` does, once -/

theorem orderList_iff {xs ys : List Term} :
    orderList xs = some ys ↔ List.Forall₂ (fun x y => order x = some y) xs ys := by
  induction xs generalizing ys with
  | nil => simp [orderList, eq_comm]
  | cons x xs ih =>
    simp only [orderList, Option.bind_eq_bind, Option.bind_eq_some_iff, Option.some.injEq]
    constructor
    · rintro ⟨y, hy, ys, hys, rfl⟩
      exact .cons hy (ih.1 hys)
    · intro h
      rcases h with _ | ⟨hy, hys⟩
      exact ⟨_, hy, _, ih.2 hys, rfl⟩

theorem orderEntries_iff {kvs ps : List (Term × Term)} :
    orderEntries kvs = some ps ↔
      List.Forall₂ (fun e p => order e.1 = some p.1 ∧ order e.2 = some p.2) kvs ps := by
  induction kvs generalizing ps with
  | nil => simp [orderEntries, eq_comm]
  | cons e kvs ih =>
    obtain ⟨k, v⟩ := e
    simp only [orderEntries, Option.bind_eq_bind, Option.bind_eq_some_iff, Option.some.injEq]
    constructor
    · rintro ⟨k', hk, v', hv, ps, hps, rfl⟩
      exact .cons ⟨hk, hv⟩ (ih.1 hps)
    · intro h
      rcases h with _ | ⟨⟨hk, hv⟩, hps⟩
      exact ⟨_, hk, _, hv, _, ih.2 hps, rfl⟩

@[simp] theorem order_list {xs : List Term} {o : Term} :
    order (.list xs) = some o ↔ ∃ ys, o = .list ys ∧ List.Forall₂ (fun x y => order x = some y) xs ys := by
  simp only [order, Option.map_eq_some_iff, orderList_iff]
  exact ⟨fun ⟨ys, h, e⟩ => ⟨ys, e.symm, h⟩, fun ⟨ys, e, h⟩ => ⟨ys, h, e.symm⟩⟩

@[simp] theorem order_tuple {xs : List Term} {o : Term} :
    order (.tuple xs) = some o ↔ ∃ ys, o = .tuple ys ∧ List.Forall₂ (fun x y => order x = some y) xs ys := by
  simp only [order, Option.map_eq_some_iff, orderList_iff]
  exact ⟨fun ⟨ys, h, e⟩ => ⟨ys, e.symm, h⟩, fun ⟨ys, e, h⟩ => ⟨ys, h, e.symm⟩⟩

@[simp] theorem order_map {kvs : List (Term × Term)} {o : Term} :
    order (.map kvs) = some o ↔ isStruct kvs = false ∧ ∃ ps, o = spelling (sortPairs ps) ∧
      List.Forall₂ (fun e p => order e.1 = some p.1 ∧ order e.2 = some p.2) kvs ps := by
  rw [order]
  cases isStruct kvs with
  | true => simp
  | false =>
    simp only [Bool.false_eq_true, if_false, Option.map_eq_some_iff, orderEntries_iff, true_and]
    exact ⟨fun ⟨ps, h, e⟩ => ⟨ps, e.symm, h⟩, fun ⟨ps, e, h⟩ => ⟨ps, h, e.symm⟩⟩

theorem encode_eq_some {t : Term} {b : Bytes} :
    encode t = some b ↔ ∃ o, order t = some o ∧ fits o = true ∧ b = termToBinary o := by
  simp only [encode, Option.bind_eq_bind, Option.bind_eq_some_iff]
  constructor
  · rintro ⟨o, ho, h⟩
    split at h <;> [skip; cases h]
    next hf => exact ⟨o, ho, hf, (Option.some.inj h).symm⟩
  · rintro ⟨o, ho, hf, rfl⟩
    exact ⟨o, ho, if_pos hf⟩

theorem sortPairs_perm (ps : List (Term × Term)) : (sortPairs ps).Perm ps := List.perm_insertionSort _ _

instance : Std.Total KeyLE := ⟨fun p q => List.le_total (termToBinary p.1) (termToBinary q.1)⟩
instance : IsTrans (Term × Term) KeyLE := ⟨fun _ _ _ => List.le_trans⟩

theorem sortPairs_sorted (ps : List (Term × Term)) :
    (sortPairs ps).Pairwise fun p q => termToBinary p.1 ≤ termToBinary q.1 := List.pairwise_insertionSort _ _

/-- The first components' bytes ascend. -/
def Ascending (ps : List (Term × Term)) : Prop := ps.Pairwise fun p q => termToBinary p.1 < termToBinary q.1

theorem sortPairs_ascending {ps : List (Term × Term)} (h : Ascending ps) : sortPairs ps = ps :=
  (h.imp List.le_of_lt).insertionSort_eq

/-- Pairs with different keys come in one order, whatever order they are sorted from. -/
theorem sortPairs_of_perm {ps qs : List (Term × Term)} (hp : ps.Perm qs)
    (hd : ps.Pairwise fun p q => termToBinary p.1 ≠ termToBinary q.1) :
    sortPairs ps = sortPairs qs ∧ Ascending (sortPairs ps) := by
  have hd' : (sortPairs ps).Pairwise fun p q => termToBinary p.1 ≠ termToBinary q.1 :=
    (sortPairs_perm ps).symm.pairwise hd fun h => h.symm
  refine ⟨?_, ?_⟩
  · refine (((sortPairs_perm ps).trans hp).trans (sortPairs_perm qs).symm).eq_of_pairwise ?_ (sortPairs_sorted ps)
      (sortPairs_sorted qs)
    intro a b ha hb hab hba
    have heq := List.le_antisymm hab hba
    have hb' : b ∈ ps := hp.mem_iff.2 ((sortPairs_perm qs).mem_iff.1 hb)
    have ha' : a ∈ ps := (sortPairs_perm ps).mem_iff.1 ha
    have hnd : (ps.map fun p => termToBinary p.1).Nodup := List.pairwise_map.2 hd
    exact List.inj_on_of_nodup_map hnd ha' hb' heq
  · refine (sortPairs_sorted ps).imp₂ (fun p q hle hne => ?_) hd'
    by_contra hlt
    exact hne (List.le_antisymm hle (List.not_lt.1 hlt))

theorem order_eq_atom {t : Term} {a : Bytes} : order t = some (.atom a) ↔ t = .atom a := by
  constructor
  · intro h
    cases t <;> simp_all [order, spelling]
  · rintro rfl
    rfl

theorem order_eq_list {t : Term} {zs : List Term} (h : order t = some (.list zs)) :
    ∃ ys, t = .list ys ∧ List.Forall₂ (fun x y => order x = some y) ys zs := by
  cases t with
  | list ys =>
    obtain ⟨zs', hz, hall⟩ := order_list.1 h
    cases hz
    exact ⟨ys, rfl, hall⟩
  | map kvs =>
    obtain ⟨-, ps, hps, -⟩ := order_map.1 h
    cases hps
  | tuple xs =>
    obtain ⟨ys, hys, -⟩ := order_tuple.1 h
    cases hys
  | _ => simp [order] at h

theorem order_eq_tuple {t : Term} {zs : List Term} (h : order t = some (.tuple zs)) :
    (∃ xs, t = .tuple xs) ∨ ∃ kvs, t = .map kvs := by
  cases t with
  | tuple xs => exact .inl ⟨xs, rfl⟩
  | map kvs => exact .inr ⟨kvs, rfl⟩
  | list xs =>
    obtain ⟨ys, hys, -⟩ := order_list.1 h
    cases hys
  | _ => simp [order] at h

/-- Only a list is put as a list, and only a tuple or a map as a tuple. -/
theorem eq_of_order {t o : Term} (h : order t = some o) (hl : ∀ xs, o ≠ .list xs) (ht : ∀ xs, o ≠ .tuple xs) :
    t = o := by
  cases t with
  | list xs =>
    obtain ⟨ys, hys, -⟩ := order_list.1 h
    exact absurd hys (hl ys)
  | tuple xs =>
    obtain ⟨ys, hys, -⟩ := order_tuple.1 h
    exact absurd hys (ht ys)
  | map kvs =>
    obtain ⟨-, ps, hps, -⟩ := order_map.1 h
    exact absurd hps (ht _)
  | _ => simp_all [order]

/-- An element with a key is put as a pair with that key. -/
theorem pair_of_keyOf {y k z : Term} (hk : keyOf y = some k) (hz : order y = some z) :
    ∃ p : Term × Term, z = .tuple [p.1, p.2] ∧ order k = some p.1 ∧
      ∀ a, p = (sym "__struct__", .atom a) → y = .tuple [sym "__struct__", .atom a] := by
  unfold keyOf at hk
  split at hk
  · next k' v =>
    cases hk
    obtain ⟨ys, rfl, hall⟩ := order_tuple.1 hz
    rcases hall with _ | ⟨h1, _ | ⟨h2, hnil⟩⟩
    cases hnil
    next o1 o2 =>
    refine ⟨(o1, o2), rfl, h1, ?_⟩
    rintro a ha
    obtain ⟨rfl, rfl⟩ := Prod.mk.inj ha
    rw [order_eq_atom.1 h1, order_eq_atom.1 h2]
    rfl
  · next kvs =>
    cases hk
    obtain ⟨-, ps, rfl, -⟩ := order_map.1 hz
    refine ⟨(sym "loopex_map", _), rfl, rfl, ?_⟩
    rintro a ha
    have := sym_inj.1 (Prod.mk.inj ha).1
    simp at this
  · cases hk

/-- An element that is put as a pair has its key. -/
theorem keyOf_of_pair {y : Term} {p : Term × Term} (h : order y = some (.tuple [p.1, p.2])) :
    ∃ k, keyOf y = some k ∧ order k = some p.1 ∧
      ∀ a, y = .tuple [sym "__struct__", .atom a] → p = (sym "__struct__", .atom a) := by
  cases y with
  | tuple xs =>
    obtain ⟨ys, hys, hall⟩ := order_tuple.1 h
    cases hys
    rcases hall with _ | ⟨h1, _ | ⟨h2, hnil⟩⟩
    cases hnil
    next x1 x2 =>
    refine ⟨x1, rfl, h1, ?_⟩
    rintro a ha
    simp only [Term.tuple.injEq, List.cons.injEq, and_true] at ha
    obtain ⟨rfl, rfl⟩ := ha
    exact Prod.ext (Option.some.inj h1).symm (Option.some.inj h2).symm
  | map kvs =>
    obtain ⟨-, ps, hps, -⟩ := order_map.1 h
    simp only [spelling, Term.tuple.injEq, List.cons.injEq, and_true] at hps
    exact ⟨sym "loopex_map", rfl, by rw [hps.1]; rfl, fun a ha => by cases ha⟩
  | list xs =>
    obtain ⟨ys, hys, -⟩ := order_list.1 h
    cases hys
  | _ => simp [order] at h

/-! ## spelled maps, before and after `order` -/

theorem exists_of_forall₂ {α β : Type} {R : α → β → Prop} {xs : List α} {ys : List β} (h : List.Forall₂ R xs ys)
    {y : β} (hy : y ∈ ys) : ∃ x ∈ xs, R x y := by
  induction h with
  | nil => simp at hy
  | cons hxy _ ih =>
    rcases List.mem_cons.1 hy with rfl | hy
    · exact ⟨_, List.mem_cons_self .., hxy⟩
    · obtain ⟨x, hx, hr⟩ := ih hy
      exact ⟨x, List.mem_cons_of_mem _ hx, hr⟩

theorem pairwise_of_forall₂ {α β : Type} {R : α → β → Prop} {S : α → α → Prop} {T : β → β → Prop}
    {xs : List α} {ys : List β} (h : List.Forall₂ R xs ys) (hs : xs.Pairwise S)
    (ht : ∀ a ∈ xs, ∀ b ∈ ys, ∀ c ∈ xs, ∀ d ∈ ys, R a b → R c d → S a c → T b d) : ys.Pairwise T := by
  induction h with
  | nil => exact .nil
  | @cons x y xs ys hxy hall ih =>
    obtain ⟨hx, hs⟩ := List.pairwise_cons.1 hs
    refine .cons ?_ (ih hs fun a ha b hb c hc d hd =>
      ht a (by simp [ha]) b (by simp [hb]) c (by simp [hc]) d (by simp [hd]))
    intro d hd
    obtain ⟨c, hc, hcd⟩ := exists_of_forall₂ hall hd
    exact ht x (by simp) y (by simp) c (by simp [hc]) d (by simp [hd]) hxy hcd (hx c hc)

/-- A pair as a tuple. -/
def pairTerm (p : Term × Term) : Term := .tuple [p.1, p.2]

/-- The entry that makes a map a struct. -/
theorem isStruct_iff {kvs : List (Term × Term)} :
    isStruct kvs = true ↔ ∃ a, (sym "__struct__", .atom a) ∈ kvs := by
  simp only [isStruct, List.any_eq_true, Bool.and_eq_true, decide_eq_true_eq]
  constructor
  · rintro ⟨⟨k, v⟩, hm, rfl, hv⟩
    cases v <;> simp at hv
    exact ⟨_, hm⟩
  · rintro ⟨a, hm⟩
    exact ⟨_, hm, rfl, rfl⟩

theorem pairs_of_keys {ys zs ks : List Term} (h : List.Forall₂ (fun x y => order x = some y) ys zs)
    (hk : ys.map keyOf = ks.map some) :
    ∃ ps : List (Term × Term), zs = ps.map pairTerm ∧ List.Forall₂ (fun k p => order k = some p.1) ks ps ∧
      ∀ a, (sym "__struct__", .atom a) ∈ ps → .tuple [sym "__struct__", .atom a] ∈ ys := by
  induction h generalizing ks with
  | nil =>
    obtain rfl : ks = [] := by simpa using hk
    exact ⟨[], rfl, .nil, by simp⟩
  | @cons y z ys zs hy hall ih =>
    rcases ks with _ | ⟨k, ks⟩
    · simp at hk
    obtain ⟨hk1, hk2⟩ := List.cons.inj hk
    obtain ⟨p, rfl, hp, hs⟩ := pair_of_keyOf hk1 hy
    obtain ⟨ps, rfl, hps, hss⟩ := ih hk2
    refine ⟨p :: ps, rfl, .cons hp hps, fun a ha => ?_⟩
    rcases List.mem_cons.1 ha with h | h
    · rw [hs a h.symm]
      exact List.mem_cons_self ..
    · exact List.mem_cons_of_mem _ (hss a h)

theorem keys_of_pairs {ps : List (Term × Term)} : ∀ {ys : List Term},
    List.Forall₂ (fun x y => order x = some y) ys (ps.map pairTerm) →
    ∃ ks : List Term, ys.map keyOf = ks.map some ∧ List.Forall₂ (fun p k => order k = some p.1) ps ks ∧
      ∀ a, .tuple [sym "__struct__", .atom a] ∈ ys → (sym "__struct__", .atom a) ∈ ps := by
  induction ps with
  | nil =>
    rintro ys ⟨⟩
    exact ⟨[], rfl, .nil, by simp⟩
  | cons p ps ih =>
    rintro ys (_ | ⟨hy, hall⟩)
    obtain ⟨k, hk, hp, hs⟩ := keyOf_of_pair hy
    obtain ⟨ks, hks, hall', hss⟩ := ih hall
    refine ⟨k :: ks, by simp [hk, hks], .cons hp hall', fun a ha => ?_⟩
    rcases List.mem_cons.1 ha with h | h
    · rw [hs a h.symm]
      exact List.mem_cons_self ..
    · exact List.mem_cons_of_mem _ (hss a h)

theorem spelling_eq (ps : List (Term × Term)) : spelling ps = .tuple [sym "loopex_map", .list (ps.map pairTerm)] := rfl

theorem spelling_inj {ps qs : List (Term × Term)} (h : spelling ps = spelling qs) : ps = qs := by
  simp only [spelling_eq, Term.tuple.injEq, List.cons.injEq, Term.list.injEq, true_and, and_true] at h
  refine List.map_injective_iff.2 ?_ h
  intro p q hpq
  simp only [pairTerm, Term.tuple.injEq, List.cons.injEq, and_true] at hpq
  exact Prod.ext hpq.1 hpq.2

/-- **A tuple spells out a map exactly if** it is put as the tuple of one whose keys' bytes ascend. -/
theorem spells_iff {xs os : List Term} (h : List.Forall₂ (fun x y => order x = some y) xs os)
    (hf : fits (.tuple os) = true) :
    Spells xs ↔ ∃ ps, .tuple os = spelling ps ∧ Ascending ps ∧ isStruct ps = false := by
  constructor
  · rintro ⟨ys, ks, rfl, hk, hasc, hns⟩
    rcases h with _ | ⟨h1, _ | ⟨h2, hnil⟩⟩
    cases hnil
    cases h1
    obtain ⟨zs, rfl, hall⟩ := order_list.1 h2
    obtain ⟨ps, rfl, hkeys, hs⟩ := pairs_of_keys hall hk
    refine ⟨ps, rfl, ?_, ?_⟩
    · refine pairwise_of_forall₂ hkeys hasc ?_
      rintro k - p - l - q - hp hq ⟨x, y, hx, hy, hlt⟩
      obtain ⟨o, ho, -, rfl⟩ := encode_eq_some.1 hx
      obtain ⟨o', ho', -, rfl⟩ := encode_eq_some.1 hy
      rw [hp] at ho
      rw [hq] at ho'
      cases ho
      cases ho'
      exact hlt
    · rw [← Bool.not_eq_true, isStruct_iff]
      rintro ⟨a, ha⟩
      exact hns a (hs a ha)
  · rintro ⟨ps, hos, hasc, hns⟩
    rw [spelling_eq] at hos
    cases hos
    rcases h with _ | ⟨h1, _ | ⟨h2, hnil⟩⟩
    cases hnil
    obtain rfl := order_eq_atom.1 h1
    obtain ⟨ys, rfl, hall⟩ := order_eq_list h2
    obtain ⟨ks, hk, hkeys, hs⟩ := keys_of_pairs hall
    refine ⟨ys, ks, rfl, hk, ?_, ?_⟩
    · refine pairwise_of_forall₂ hkeys hasc ?_
      rintro p hp k - q hq l - hk hl hlt
      have hfit : ∀ r ∈ ps, fits r.1 = true := by
        intro r hr
        have h1 := (fits_tuple.1 hf).2 (.list (ps.map pairTerm)) (by simp)
        have h2 := (fits_list.1 h1).2 (pairTerm r) (List.mem_map_of_mem hr)
        exact (fits_tuple.1 h2).2 r.1 (by simp)
      exact ⟨_, _, encode_eq_some.2 ⟨_, hk, hfit p hp, rfl⟩, encode_eq_some.2 ⟨_, hl, hfit q hq, rfl⟩, hlt⟩
    · intro a ha
      rw [← Bool.not_eq_true, isStruct_iff] at hns
      exact hns ⟨a, hs a ha⟩

/-! ## terms without spelled maps -/

theorem sizeOf_list {x : Term} {xs : List Term} (h : x ∈ xs) : sizeOf x < sizeOf (Term.list xs) := by
  have := List.sizeOf_lt_of_mem h
  simp
  omega

theorem sizeOf_tuple {x : Term} {xs : List Term} (h : x ∈ xs) : sizeOf x < sizeOf (Term.tuple xs) := by
  have := List.sizeOf_lt_of_mem h
  simp
  omega

theorem sizeOf_map {e : Term × Term} {kvs : List (Term × Term)} (h : e ∈ kvs) :
    sizeOf e.1 < sizeOf (Term.map kvs) ∧ sizeOf e.2 < sizeOf (Term.map kvs) := by
  have := List.sizeOf_lt_of_mem h
  obtain ⟨k, v⟩ := e
  simp at *
  omega

/-- Plain data without maps. -/
inductive Flat : Term → Prop
  | atom {a} : a.length < 2 ^ 16 → Flat (.atom a)
  | int {n} : Flat (.int n)
  | float {x} : Flat (.float x)
  | binary {b} : Flat (.binary b)
  | list {xs} : (∀ x ∈ xs, Flat x) → Flat (.list xs)
  | tuple {xs} : (∀ x ∈ xs, Flat x) → Flat (.tuple xs)

theorem Flat.plain {t : Term} (h : Flat t) : Plain t := by
  induction h with
  | atom h => exact .atom h
  | int => exact .int
  | float => exact .float
  | binary => exact .binary
  | list _ ih => exact .list ih
  | tuple _ ih => exact .tuple ih

/-- Plain data is put as plain data without maps. -/
theorem order_flat {t : Term} (ht : Plain t) : ∀ {o : Term}, order t = some o → Flat o := by
  induction t using Term.ind with
  | list xs ih =>
    intro o h
    cases ht with
    | list hx =>
    obtain ⟨ys, rfl, hall⟩ := order_list.1 h
    refine .list fun y hy => ?_
    obtain ⟨x, hm, hr⟩ := exists_of_forall₂ hall hy
    exact ih x hm (hx x hm) hr
  | tuple xs ih =>
    intro o h
    cases ht with
    | tuple hx =>
    obtain ⟨ys, rfl, hall⟩ := order_tuple.1 h
    refine .tuple fun y hy => ?_
    obtain ⟨x, hm, hr⟩ := exists_of_forall₂ hall hy
    exact ih x hm (hx x hm) hr
  | map kvs ih =>
    intro o h
    cases ht with
    | map ho hk hv =>
    obtain ⟨-, ps, rfl, hall⟩ := order_map.1 h
    have hps : ∀ p ∈ sortPairs ps, Flat p.1 ∧ Flat p.2 := by
      intro p hp
      obtain ⟨e, hm, h1, h2⟩ := exists_of_forall₂ hall ((sortPairs_perm ps).mem_iff.1 hp)
      exact ⟨(ih e hm).1 (hk e hm) h1, (ih e hm).2 (hv e hm) h2⟩
    refine .tuple fun x hx => ?_
    simp only [List.mem_cons, List.not_mem_nil, or_false] at hx
    rcases hx with rfl | rfl
    · exact .atom (by decide)
    · refine .list fun y hy => ?_
      obtain ⟨p, hp, rfl⟩ := List.mem_map.1 hy
      obtain ⟨h1, h2⟩ := hps p hp
      exact .tuple (by simpa using ⟨h1, h2⟩)
  | atom a =>
    intro o h
    cases h
    cases ht with
    | atom ha => exact .atom ha
  | int n => intro o h; cases h; exact .int
  | float x => intro o h; cases h; exact .float
  | binary b => intro o h; cases h; exact .binary
  | bitstring b n => cases ht
  | improper xs t _ _ => cases ht
  | handle k n => cases ht

theorem order_plain {t o : Term} (ht : Plain t) (h : order t = some o) : Plain o := (order_flat ht h).plain

theorem fits_spelling {ps : List (Term × Term)} (h : fits (spelling ps) = true) :
    ∀ p ∈ ps, fits p.1 = true ∧ fits p.2 = true := by
  intro p hp
  have h1 := (fits_tuple.1 h).2 (.list (ps.map pairTerm)) (by simp [pairTerm])
  have h2 := fits_tuple.1 ((fits_list.1 h1).2 (pairTerm p) (List.mem_map_of_mem hp))
  exact ⟨h2.2 p.1 (by simp), h2.2 p.2 (by simp)⟩

/-- Terms that are put alike are alike, as far as size `n`. -/
def InjectiveTo (n : ℕ) : Prop := ∀ a b o, sizeOf a < n → sizeOf b < n → Plain a → Plain b → Unspelled a →
  Unspelled b → order a = some o → order b = some o → fits o = true → a = b

/-- The keys of a map are put as terms of different bytes. -/
theorem distinct_keys {n : ℕ} (ih : InjectiveTo n) {kvs ps : List (Term × Term)} (hn : sizeOf (Term.map kvs) ≤ n)
    (hp : Plain (.map kvs)) (hu : Unspelled (.map kvs))
    (hall : List.Forall₂ (fun e p => order e.1 = some p.1 ∧ order e.2 = some p.2) kvs ps)
    (hf : ∀ p ∈ ps, fits p.1 = true) : ps.Pairwise fun p q => termToBinary p.1 ≠ termToBinary q.1 := by
  cases hp with
  | map ho hk hv =>
  cases hu with
  | map huk huv =>
  refine pairwise_of_forall₂ hall ho ?_
  rintro e he p hp e' he' q hq ⟨h1, -⟩ ⟨h2, -⟩ hlt heq
  have hpq : p.1 = q.1 := termToBinary_inj_of_fits (order_plain (hk e he) h1) (order_plain (hk e' he') h2) (hf p hp)
    (hf q hq) heq
  have hs := (sizeOf_map he).1
  have hs' := (sizeOf_map he').1
  have hee : e.1 = e'.1 := ih _ _ _ (by omega) (by omega) (hk e he) (hk e' he') (huk e he) (huk e' he') h1
    (hpq ▸ h2) (hf p hp)
  rw [keyLt, hee] at hlt
  exact List.lt_irrefl _ hlt

/-- A map is not put as a tuple that spells out no map. -/
theorem map_ne_tuple {n : ℕ} (ih : InjectiveTo n) {kvs : List (Term × Term)} {xs : List Term} {o : Term}
    (hn : sizeOf (Term.map kvs) ≤ n) (hp : Plain (.map kvs)) (hu : Unspelled (.map kvs))
    (hxs : Unspelled (.tuple xs)) (hm : order (.map kvs) = some o) (ht : order (.tuple xs) = some o)
    (hf : fits o = true) : False := by
  obtain ⟨hstruct, ps, rfl, hall⟩ := order_map.1 hm
  obtain ⟨os, hos, hxs'⟩ := order_tuple.1 ht
  have hfit : ∀ p ∈ ps, fits p.1 = true := fun p hp =>
    (fits_spelling hf p ((sortPairs_perm ps).mem_iff.2 hp)).1
  obtain ⟨-, hasc⟩ := sortPairs_of_perm (.refl ps) (distinct_keys ih hn hp hu hall hfit)
  cases hxs with
  | tuple hns _ =>
  refine hns ((spells_iff hxs' (hos ▸ hf)).2 ⟨sortPairs ps, hos.symm, hasc, ?_⟩)
  rw [← Bool.not_eq_true, isStruct_iff] at hstruct ⊢
  rintro ⟨a, ha⟩
  obtain ⟨e, he, h1, h2⟩ := exists_of_forall₂ hall ((sortPairs_perm ps).mem_iff.1 ha)
  have hentry : e = (sym "__struct__", .atom a) := Prod.ext (order_eq_atom.1 h1) (order_eq_atom.1 h2)
  exact hstruct ⟨a, hentry ▸ he⟩

theorem forall₂_inj {α β : Type} {R : α → β → Prop} {xs ys : List α} {zs : List β} (hx : List.Forall₂ R xs zs)
    (hy : List.Forall₂ R ys zs) (h : ∀ x ∈ xs, ∀ y ∈ ys, ∀ z ∈ zs, R x z → R y z → x = y) : xs = ys := by
  induction hx generalizing ys with
  | nil =>
    cases hy
    rfl
  | @cons x z xs zs hxz _ ih =>
    rcases hy with _ | ⟨hyz, hy⟩
    rw [h x (by simp) _ (by simp) z (by simp) hxz hyz,
      ih hy fun x hx y hy z hz => h x (by simp [hx]) y (by simp [hy]) z (by simp [hz])]

/-- Maps in canonical order with the same entries. -/
theorem ordered_ext {kvs lws : List (Term × Term)} (hk : Ordered kvs) (hl : Ordered lws)
    (h : ∀ e, e ∈ kvs ↔ e ∈ lws) : kvs = lws := by
  have hp : kvs.Perm lws := (List.perm_ext_iff_of_nodup hk.nodup.of_map hl.nodup.of_map).2 h
  refine hp.eq_of_pairwise ?_ hk hl
  intro a b _ _ hab hba
  exact absurd hba (keyLt_asymm hab)

theorem entries_subset {n : ℕ} (ih : InjectiveTo n) {kvs lws ps qs : List (Term × Term)}
    (hn : sizeOf (Term.map kvs) ≤ n) (hn' : sizeOf (Term.map lws) ≤ n) (hp : Plain (.map kvs)) (hp' : Plain (.map lws))
    (hu : Unspelled (.map kvs)) (hu' : Unspelled (.map lws))
    (hk : List.Forall₂ (fun e p => order e.1 = some p.1 ∧ order e.2 = some p.2) kvs ps)
    (hl : List.Forall₂ (fun e p => order e.1 = some p.1 ∧ order e.2 = some p.2) lws qs)
    (hpq : ∀ p ∈ ps, p ∈ qs ∧ fits p.1 = true ∧ fits p.2 = true) : ∀ e ∈ kvs, e ∈ lws := by
  intro e he
  obtain ⟨p, hpm, h1, h2⟩ := exists_of_forall₂ hk.flip he
  obtain ⟨hq, hf1, hf2⟩ := hpq p hpm
  obtain ⟨e', he', h1', h2'⟩ := exists_of_forall₂ hl hq
  have hs := sizeOf_map he
  have hs' := sizeOf_map he'
  cases hp with
  | map _ hpk hpv =>
  cases hp' with
  | map _ hpk' hpv' =>
  cases hu with
  | map huk huv =>
  cases hu' with
  | map huk' huv' =>
  have e1 := ih e.1 e'.1 p.1 (by omega) (by omega) (hpk e he) (hpk' e' he') (huk e he) (huk' e' he') h1 h1' hf1
  have e2 := ih e.2 e'.2 p.2 (by omega) (by omega) (hpv e he) (hpv' e' he') (huv e he) (huv' e' he') h2 h2' hf2
  rwa [show e = e' from Prod.ext e1 e2]

theorem order_inj_to (n : ℕ) : InjectiveTo n := by
  induction n with
  | zero => intro a b o ha; omega
  | succ n ih =>
    intro a b o ha hb hpa hpb hua hub hoa hob hf
    have hlist : ∀ {xs ys zs : List Term}, (∀ x ∈ xs, sizeOf x < n ∧ Plain x ∧ Unspelled x) →
        (∀ y ∈ ys, sizeOf y < n ∧ Plain y ∧ Unspelled y) → (∀ z ∈ zs, fits z = true) →
        List.Forall₂ (fun x y => order x = some y) xs zs → List.Forall₂ (fun x y => order x = some y) ys zs →
        xs = ys := by
      intro xs ys zs hxs hys hzs hx hy
      refine forall₂_inj hx hy fun x hx y hy z hz h1 h2 => ?_
      obtain ⟨hx1, hx2, hx3⟩ := hxs x hx
      obtain ⟨hy1, hy2, hy3⟩ := hys y hy
      exact ih x y z hx1 hy1 hx2 hy2 hx3 hy3 h1 h2 (hzs z hz)
    have hother : (∀ xs, o ≠ .list xs) → (∀ xs, o ≠ .tuple xs) → a = b := fun hl ht => by
      rw [eq_of_order hoa hl ht, eq_of_order hob hl ht]
    cases a with
    | list xs =>
      obtain ⟨zs, rfl, hx⟩ := order_list.1 hoa
      obtain ⟨ys, rfl, hy⟩ := order_eq_list hob
      cases hpa with
      | list hpx =>
      cases hpb with
      | list hpy =>
      cases hua with
      | list hux =>
      cases hub with
      | list huy =>
      rw [hlist (fun x hx => ⟨by have := sizeOf_list hx; omega, hpx x hx, hux x hx⟩)
        (fun y hy => ⟨by have := sizeOf_list hy; omega, hpy y hy, huy y hy⟩) (fits_list.1 hf).2 hx hy]
    | tuple xs =>
      obtain ⟨zs, rfl, hx⟩ := order_tuple.1 hoa
      rcases order_eq_tuple hob with ⟨ys, rfl⟩ | ⟨lws, rfl⟩
      · obtain ⟨zs', hz, hy⟩ := order_tuple.1 hob
        cases hz
        cases hpa with
        | tuple hpx =>
        cases hpb with
        | tuple hpy =>
        cases hua with
        | tuple _ hux =>
        cases hub with
        | tuple _ huy =>
        rw [hlist (fun x hx => ⟨by have := sizeOf_tuple hx; omega, hpx x hx, hux x hx⟩)
          (fun y hy => ⟨by have := sizeOf_tuple hy; omega, hpy y hy, huy y hy⟩) (fits_tuple.1 hf).2 hx hy]
      · exact (map_ne_tuple ih (by omega) hpb hub hua hob hoa hf).elim
    | map kvs =>
      obtain ⟨-, ps, rfl, hk⟩ := order_map.1 hoa
      rcases order_eq_tuple hob with ⟨ys, rfl⟩ | ⟨lws, rfl⟩
      · exact (map_ne_tuple ih (by omega) hpa hua hub hoa hob hf).elim
      · obtain ⟨-, qs, hqs, hl⟩ := order_map.1 hob
        have hsort : sortPairs ps = sortPairs qs := spelling_inj hqs
        have hperm : ps.Perm qs := (sortPairs_perm ps).symm.trans (hsort ▸ sortPairs_perm qs)
        have hfit : ∀ p ∈ ps, fits p.1 = true ∧ fits p.2 = true := fun p hp =>
          fits_spelling hf p ((sortPairs_perm ps).mem_iff.2 hp)
        have h1 := entries_subset ih (by omega) (by omega) hpa hpb hua hub hk hl
          fun p hp => ⟨hperm.mem_iff.1 hp, hfit p hp⟩
        have h2 := entries_subset ih (by omega) (by omega) hpb hpa hub hua hl hk
          fun p hp => ⟨hperm.mem_iff.2 hp, hfit p (hperm.mem_iff.2 hp)⟩
        cases hpa with
        | map hok _ _ =>
        cases hpb with
        | map hol _ _ =>
        rw [ordered_ext hok hol fun e => ⟨h1 e, h2 e⟩]
    | bitstring b n => cases hpa
    | improper xs t => cases hpa
    | handle k n => cases hpa
    | atom x =>
      cases hoa
      exact hother (by simp) (by simp)
    | int x =>
      cases hoa
      exact hother (by simp) (by simp)
    | float x =>
      cases hoa
      exact hother (by simp) (by simp)
    | binary x =>
      cases hoa
      exact hother (by simp) (by simp)

/-- **Terms without spelled maps have a canonical form of their own.** -/
theorem order_inj {a b o : Term} (hpa : Plain a) (hpb : Plain b) (hua : Unspelled a) (hub : Unspelled b)
    (ha : order a = some o) (hb : order b = some o) (hf : fits o = true) : a = b :=
  order_inj_to (max (sizeOf a) (sizeOf b) + 1) a b o (by omega) (by omega) hpa hpb hua hub ha hb hf

/-! ## any enumeration -/

theorem listingAll_iff {xs ys : List Term} : ListingAll xs ys ↔ List.Forall₂ Listing xs ys := by
  induction xs generalizing ys with
  | nil => cases ys <;> simp [ListingAll]
  | cons x xs ih => cases ys <;> simp [ListingAll, ih]

/-- An entry of a map, its key and its value in some order of enumeration. -/
def ListingEntry (e f : Term × Term) : Prop := Listing e.1 f.1 ∧ Listing e.2 f.2

theorem listingEntries_iff {kvs lws : List (Term × Term)} :
    ListingEntries kvs lws ↔ List.Forall₂ ListingEntry kvs lws := by
  induction kvs generalizing lws with
  | nil => cases lws <;> simp [ListingEntries]
  | cons e kvs ih => cases lws <;> simp [ListingEntries, ListingEntry, ih, and_assoc]

theorem forall₂_congr_left {α β γ : Type} {L : α → β → Prop} {R : α → γ → Prop} {S : β → γ → Prop}
    {xs : List α} {ys : List β} (h : List.Forall₂ L xs ys) :
    ∀ {zs : List γ}, (∀ x ∈ xs, ∀ y ∈ ys, L x y → ∀ z ∈ zs, R x z ↔ S y z) →
    (List.Forall₂ R xs zs ↔ List.Forall₂ S ys zs) := by
  induction h with
  | nil => intro zs _; cases zs <;> simp
  | @cons x y xs ys hxy _ ih =>
    intro zs hrs
    rcases zs with _ | ⟨z, zs⟩
    · simp
    · rw [List.forall₂_cons, List.forall₂_cons, hrs x (by simp) y (by simp) hxy z (by simp),
        ih fun x hx y hy hl z hz => hrs x (by simp [hx]) y (by simp [hy]) hl z (by simp [hz])]

theorem listing_atom {t : Term} {a : Bytes} : Listing t (.atom a) ↔ t = .atom a := by
  cases t <;> simp [Listing]

theorem listing_of_atom {t : Term} {a : Bytes} : Listing (.atom a) t ↔ t = .atom a := by
  cases t <;> simp [Listing, eq_comm]

/-- Enumeration does not make a struct. -/
theorem isStruct_listing {kvs lws lws' : List (Term × Term)} (hp : lws'.Perm lws)
    (h : List.Forall₂ ListingEntry kvs lws') : isStruct kvs = isStruct lws := by
  rw [Bool.eq_iff_iff, isStruct_iff, isStruct_iff]
  constructor
  · rintro ⟨a, ha⟩
    obtain ⟨⟨k, v⟩, hf, hk, hv⟩ := exists_of_forall₂ h.flip ha
    obtain rfl := listing_of_atom.1 hk
    obtain rfl := listing_of_atom.1 hv
    exact ⟨a, hp.mem_iff.1 hf⟩
  · rintro ⟨a, ha⟩
    obtain ⟨⟨k, v⟩, hf, hk, hv⟩ := exists_of_forall₂ h (hp.mem_iff.2 ha)
    obtain rfl := listing_atom.1 hk
    obtain rfl := listing_atom.1 hv
    exact ⟨a, hf⟩

/-- **The order of enumeration does not matter** to a term without spelled maps. -/
theorem order_listing (t : Term) : ∀ (a o : Term), Listing t a → Plain a → Unspelled a → fits o = true →
    (order t = some o ↔ order a = some o) := by
  induction t using Term.ind with
  | list xs ih =>
    intro a o hl hp hu hf
    cases a with
    | list ys =>
      rw [Listing, listingAll_iff] at hl
      cases hp with
      | list hpy =>
      cases hu with
      | list huy =>
      rw [order_list, order_list]
      refine exists_congr fun zs => and_congr_right fun hz => ?_
      subst hz
      exact forall₂_congr_left hl fun x hx y hy h z hz => ih x hx y z h (hpy y hy) (huy y hy) ((fits_list.1 hf).2 z hz)
    | _ => simp [Listing] at hl
  | tuple xs ih =>
    intro a o hl hp hu hf
    cases a with
    | tuple ys =>
      rw [Listing, listingAll_iff] at hl
      cases hp with
      | tuple hpy =>
      cases hu with
      | tuple _ huy =>
      rw [order_tuple, order_tuple]
      refine exists_congr fun zs => and_congr_right fun hz => ?_
      subst hz
      exact forall₂_congr_left hl fun x hx y hy h z hz => ih x hx y z h (hpy y hy) (huy y hy) ((fits_tuple.1 hf).2 z hz)
    | _ => simp [Listing] at hl
  | map kvs ih =>
    intro a o hl hp hu hf
    cases a with
    | map lws =>
      obtain ⟨lws', hperm, hl⟩ : ∃ lws' : List (Term × Term), lws'.Perm lws ∧ ListingEntries kvs lws' := hl
      rw [listingEntries_iff] at hl
      have hdist := fun qs => @distinct_keys _ (order_inj_to (sizeOf (Term.map lws))) lws qs (Nat.le_refl _) hp hu
      cases hp with
      | map _ hpk hpv =>
      cases hu with
      | map huk huv =>
      have htrans : ∀ ps : List (Term × Term), (∀ p ∈ ps, fits p.1 = true ∧ fits p.2 = true) →
          (List.Forall₂ (fun e p => order e.1 = some p.1 ∧ order e.2 = some p.2) kvs ps ↔
            List.Forall₂ (fun e p => order e.1 = some p.1 ∧ order e.2 = some p.2) lws' ps) := by
        intro ps hps
        refine forall₂_congr_left hl fun e he f hf' h p hp => ?_
        have hm := hperm.mem_iff.1 hf'
        obtain ⟨h1, h2⟩ := hps p hp
        rw [(ih e he).1 f.1 p.1 h.1 (hpk f hm) (huk f hm) h1, (ih e he).2 f.2 p.2 h.2 (hpv f hm) (huv f hm) h2]
      rw [order_map, order_map, isStruct_listing hperm hl]
      refine and_congr_right fun _ => ⟨?_, ?_⟩
      · rintro ⟨ps, rfl, hk⟩
        have hfit : ∀ p ∈ ps, fits p.1 = true ∧ fits p.2 = true := fun p hp =>
          fits_spelling hf p ((sortPairs_perm ps).mem_iff.2 hp)
        obtain ⟨qs, hq, hqp⟩ := List.perm_comp_forall₂ hperm.symm ((htrans ps hfit).1 hk)
        have hd := hdist qs hq fun q hq => (hfit q (hqp.mem_iff.1 hq)).1
        exact ⟨qs, by rw [(sortPairs_of_perm hqp hd).1], hq⟩
      · rintro ⟨qs, rfl, hq⟩
        have hfit : ∀ q ∈ qs, fits q.1 = true ∧ fits q.2 = true := fun q hq =>
          fits_spelling hf q ((sortPairs_perm qs).mem_iff.2 hq)
        obtain ⟨ps, hk, hpq⟩ := List.perm_comp_forall₂ hperm hq
        have hd := hdist qs hq fun q hq => (hfit q hq).1
        refine ⟨ps, by rw [(sortPairs_of_perm hpq.symm hd).1], (htrans ps fun p hp => ?_).2 hk⟩
        exact hfit p (hpq.mem_iff.1 hp)
    | _ => simp [Listing] at hl
  | bitstring b n => intro a o hl; cases a <;> simp [Listing] at hl
  | improper xs t _ _ => intro a o hl; cases a <;> simp [Listing] at hl
  | handle k n => intro a o hl; cases a <;> simp [Listing] at hl
  | atom n => intro a o hl; cases a <;> simp_all [Listing]
  | int n => intro a o hl; cases a <;> simp_all [Listing]
  | float n => intro a o hl; cases a <;> simp_all [Listing]
  | binary n => intro a o hl; cases a <;> simp_all [Listing]

/-! ## every spelled map is spelled by a map -/

theorem exists_forall₂ {α β : Type} {Q : α → β → Prop} {ys : List β} (h : ∀ y ∈ ys, ∃ x, Q x y) :
    ∃ xs, List.Forall₂ Q xs ys := by
  induction ys with
  | nil => exact ⟨[], .nil⟩
  | cons y ys ih =>
    obtain ⟨x, hx⟩ := h y (by simp)
    obtain ⟨xs, hxs⟩ := ih fun z hz => h z (by simp [hz])
    exact ⟨x :: xs, .cons hx hxs⟩

/-- `b` is put as `o`, and spells no map. -/
structure Preimage (b o : Term) : Prop where
  plain : Plain b
  unspelled : Unspelled b
  order : order b = some o
  fits : fits b = true

/-- Preimages of the pairs of a spelled map make a map. -/
theorem preimage_map {es ps : List (Term × Term)}
    (hall : List.Forall₂ (fun e p => Preimage e.1 p.1 ∧ Preimage e.2 p.2) es ps) (hasc : Ascending ps)
    (hns : isStruct ps = false) (hl : ps.length < 2 ^ 32) : Preimage (.map (entriesOf es)) (spelling ps) := by
  have hkeys : es.Pairwise fun e f => Erlang.encode e.1 ≠ Erlang.encode f.1 := by
    refine pairwise_of_forall₂ hall.flip hasc ?_
    rintro p - e - q - f - ⟨he, -⟩ ⟨hf, -⟩ hlt heq
    have hef : e.1 = f.1 := termToBinary_inj_of_fits he.plain hf.plain he.fits hf.fits (by rw [termToBinary, heq]; rfl)
    have hpq : p.1 = q.1 := Option.some.inj (he.order.symm.trans (hef ▸ hf.order))
    rw [hpq] at hlt
    exact List.lt_irrefl _ hlt
  have hperm := perm_entriesOf hkeys
  have hin : ∀ e ∈ entriesOf es, ∃ p ∈ ps, Preimage e.1 p.1 ∧ Preimage e.2 p.2 := fun e he =>
    exists_of_forall₂ hall.flip (hperm.mem_iff.1 he)
  have hord : List.Forall₂ (fun e p => order e.1 = some p.1 ∧ order e.2 = some p.2) es ps :=
    hall.imp fun _ _ h => ⟨h.1.order, h.2.order⟩
  obtain ⟨qs, hq, hqp⟩ := List.perm_comp_forall₂ hperm hord
  have hdist : ps.Pairwise fun p q => termToBinary p.1 ≠ termToBinary q.1 := by
    refine hasc.imp fun hlt heq => ?_
    rw [heq] at hlt
    exact List.lt_irrefl _ hlt
  have hsort : sortPairs qs = ps := by
    rw [← (sortPairs_of_perm hqp.symm hdist).1, sortPairs_ascending hasc]
  refine ⟨.map (ordered_entriesOf es) (fun e he => ?_) fun e he => ?_, .map (fun e he => ?_) fun e he => ?_,
    order_map.2 ⟨?_, qs, by rw [hsort], hq⟩, fits_map.2 ⟨?_, fun e he => ?_⟩⟩
  iterate 4
    obtain ⟨p, -, h1, h2⟩ := hin e he
    first
    | exact h1.plain
    | exact h2.plain
    | exact h1.unspelled
    | exact h2.unspelled
  · rw [← Bool.not_eq_true, isStruct_iff] at hns ⊢
    rintro ⟨a, ha⟩
    obtain ⟨p, hp, h1, h2⟩ := hin _ ha
    have hentry : p = (sym "__struct__", .atom a) :=
      Prod.ext (Option.some.inj h1.order).symm (Option.some.inj h2.order).symm
    exact hns ⟨a, hentry ▸ hp⟩
  · rw [hperm.length_eq, hall.length_eq]
    exact hl
  · obtain ⟨p, -, h1, h2⟩ := hin e he
    exact ⟨h1.fits, h2.fits⟩

theorem exists_preimage (n : ℕ) : ∀ o, sizeOf o < n → Flat o → fits o = true → ∃ b, Preimage b o := by
  induction n with
  | zero => intro o h; omega
  | succ n ih =>
    intro o hn ho hf
    cases ho with
    | atom h => exact ⟨_, .atom h, .atom, rfl, hf⟩
    | int => exact ⟨_, .int, .int, rfl, hf⟩
    | float => exact ⟨_, .float, .float, rfl, hf⟩
    | binary => exact ⟨_, .binary, .binary, rfl, hf⟩
    | @list xs hx =>
      obtain ⟨hl, hfx⟩ := fits_list.1 hf
      obtain ⟨bs, hbs⟩ := exists_forall₂ fun x hm => ih x (by have := sizeOf_list hm; omega) (hx x hm) (hfx x hm)
      have hin : ∀ b ∈ bs, ∃ x, Preimage b x := fun b hb => (exists_of_forall₂ hbs.flip hb).imp fun _ h => h.2
      refine ⟨.list bs, .list fun b hb => ?_, .list fun b hb => ?_, order_list.2 ⟨xs, rfl, hbs.imp fun _ _ h => h.order⟩,
        fits_list.2 ⟨by rw [hbs.length_eq]; exact hl, fun b hb => ?_⟩⟩ <;> obtain ⟨x, h⟩ := hin b hb
      · exact h.plain
      · exact h.unspelled
      · exact h.fits
    | @tuple xs hx =>
      obtain ⟨hl, hfx⟩ := fits_tuple.1 hf
      by_cases hsp : ∃ ps, Term.tuple xs = spelling ps ∧ Ascending ps ∧ isStruct ps = false
      · obtain ⟨ps, he, hasc, hns⟩ := hsp
        have hxs : xs = [sym "loopex_map", .list (ps.map pairTerm)] := by
          rw [spelling_eq] at he
          exact Term.tuple.inj he
        have hlist : Term.list (ps.map pairTerm) ∈ xs := by simp [hxs]
        have hpair : ∀ p ∈ ps, ∃ e : Term × Term, Preimage e.1 p.1 ∧ Preimage e.2 p.2 := by
          intro p hp
          have hmem : pairTerm p ∈ ps.map pairTerm := List.mem_map_of_mem hp
          have hflat : Flat p.1 ∧ Flat p.2 := by
            rcases hx _ hlist with _ | _ | _ | _ | hps
            rcases hps _ hmem with _ | _ | _ | _ | _ | hp
            exact ⟨hp p.1 (by simp), hp p.2 (by simp)⟩
          obtain ⟨hf1, hf2⟩ := fits_spelling (he ▸ hf) p hp
          have h1 : sizeOf p.1 < sizeOf (pairTerm p) ∧ sizeOf p.2 < sizeOf (pairTerm p) :=
            ⟨sizeOf_tuple (by simp), sizeOf_tuple (by simp)⟩
          have h2 := sizeOf_list hmem
          have h3 := sizeOf_tuple hlist
          obtain ⟨b1, hb1⟩ := ih p.1 (by omega) hflat.1 hf1
          obtain ⟨b2, hb2⟩ := ih p.2 (by omega) hflat.2 hf2
          exact ⟨(b1, b2), hb1, hb2⟩
        obtain ⟨es, hes⟩ := exists_forall₂ hpair
        rw [he]
        refine ⟨_, preimage_map hes hasc hns ?_⟩
        have := (fits_list.1 (hfx _ hlist)).1
        rwa [List.length_map] at this
      · obtain ⟨bs, hbs⟩ := exists_forall₂ fun x hm => ih x (by have := sizeOf_tuple hm; omega) (hx x hm) (hfx x hm)
        have hin : ∀ b ∈ bs, ∃ x, Preimage b x := fun b hb => (exists_of_forall₂ hbs.flip hb).imp fun _ h => h.2
        have hord := hbs.imp fun _ _ h => h.order
        refine ⟨.tuple bs, .tuple fun b hb => ?_, .tuple ?_ fun b hb => ?_, order_tuple.2 ⟨xs, rfl, hord⟩,
          fits_tuple.2 ⟨by rw [hbs.length_eq]; exact hl, fun b hb => ?_⟩⟩
        · obtain ⟨x, h⟩ := hin b hb
          exact h.plain
        · exact fun hs => hsp ((spells_iff hord hf).1 hs)
        · obtain ⟨x, h⟩ := hin b hb
          exact h.unspelled
        · obtain ⟨x, h⟩ := hin b hb
          exact h.fits

/-! ## identity -/

theorem listing_refl {t : Term} (h : Plain t) : Listing t t := by
  induction h with
  | list _ ih => exact listingAll_iff.2 (List.forall₂_same.2 ih)
  | tuple _ ih => exact listingAll_iff.2 (List.forall₂_same.2 ih)
  | @map kvs _ _ _ ihk ihv =>
    exact ⟨kvs, .refl _, listingEntries_iff.2 (List.forall₂_same.2 fun e he => ⟨ihk e he, ihv e he⟩)⟩
  | _ => simp [Listing]

/-- `a` has bytes of its own among the terms without spelled maps, however the maps of either are enumerated. -/
def Identified (a : Term) : Prop :=
  ∀ b, Plain b → Unspelled b → ∀ a' b', Listing a' a → Listing b' b → (encode a' = encode b' ↔ a = b)

/-- The bytes of a term without spelled maps do not depend on the enumeration. -/
theorem encode_listing {a a' : Term} {bytes : Bytes} (hp : Plain a) (hu : Unspelled a) (hl : Listing a' a) :
    encode a' = some bytes ↔ encode a = some bytes := by
  simp only [encode_eq_some]
  constructor
  · rintro ⟨o, ho, hf, rfl⟩
    exact ⟨o, (order_listing a' a o hl hp hu hf).1 ho, hf, rfl⟩
  · rintro ⟨o, ho, hf, rfl⟩
    exact ⟨o, (order_listing a' a o hl hp hu hf).2 ho, hf, rfl⟩

theorem encode_inj {a b : Term} {bytes : Bytes} (hpa : Plain a) (hpb : Plain b) (hua : Unspelled a)
    (hub : Unspelled b) (ha : encode a = some bytes) (hb : encode b = some bytes) : a = b := by
  obtain ⟨o, ho, hf, rfl⟩ := encode_eq_some.1 ha
  obtain ⟨o', ho', hf', heq⟩ := encode_eq_some.1 hb
  have hoo : o = o' := termToBinary_inj_of_fits (order_plain hpa ho) (order_plain hpb ho') hf hf' heq
  exact order_inj hpa hpb hua hub ho (hoo ▸ ho') hf

/-- **A term that is encoded has bytes of its own exactly if no tuple in it spells out a map.** -/
theorem identified_iff (a : Term) (bytes : Bytes) (hp : Plain a) (he : encode a = some bytes) :
    Identified a ↔ Unspelled a := by
  constructor
  · intro h
    obtain ⟨o, ho, hf, rfl⟩ := encode_eq_some.1 he
    obtain ⟨b, hb⟩ := exists_preimage (sizeOf o + 1) o (by omega) (order_flat hp ho) hf
    have hbytes : encode b = some (termToBinary o) := encode_eq_some.2 ⟨o, hb.order, hf, rfl⟩
    have hab : a = b := (h b hb.plain hb.unspelled a b (listing_refl hp) (listing_refl hb.plain)).1 (he.trans hbytes.symm)
    exact hab ▸ hb.unspelled
  · intro hu b hpb hub a' b' hla hlb
    have ha : encode a' = some bytes := (encode_listing hp hu hla).2 he
    rw [ha]
    constructor
    · intro hb
      exact encode_inj hp hpb hu hub he ((encode_listing hpb hub hlb).1 hb.symm)
    · rintro rfl
      exact ((encode_listing hp hu hlb).2 he).symm

/-- `{loopex_map, []}` -/
def spelledEmpty : Term := .tuple [sym "loopex_map", .list []]

theorem order_empty : order (.map []) = some spelledEmpty :=
  order_map.2 ⟨rfl, [], by simp [sortPairs, spelling, spelledEmpty], .nil⟩

theorem encode_empty : encode (.map []) = some (termToBinary spelledEmpty) :=
  encode_eq_some.2 ⟨spelledEmpty, order_empty, by decide, rfl⟩

theorem plain_empty : Plain (.map []) := .map .nil (by simp) (by simp)

/-- A map with a map in it, and what spells it. -/
def nestedMap : Term := .map [(str "a", .int 1), (str "b", .map [])]

def spelledNested : Term := spelling [(str "a", .int 1), (str "b", spelledEmpty)]

theorem order_nested : order nestedMap = some spelledNested := by
  have hsorted : sortPairs [(str "a", .int 1), (str "b", spelledEmpty)] = [(str "a", .int 1), (str "b", spelledEmpty)] := by
    decide
  exact order_map.2 ⟨rfl, _, by rw [hsorted, spelledNested], .cons ⟨rfl, rfl⟩ (.cons ⟨rfl, order_empty⟩ .nil)⟩

theorem plain_nested : Plain nestedMap := by
  refine .map (by decide) ?_ ?_ <;> simp only [List.forall_mem_cons]
  · exact ⟨.binary, .binary, List.forall_mem_nil _⟩
  · exact ⟨.int, plain_empty, List.forall_mem_nil _⟩

/-- A map with a map in it has bytes of its own among the terms without spelled maps. -/
theorem identified_iff_nested : Identified nestedMap := by
  refine (identified_iff nestedMap _ plain_nested (encode_eq_some.2 ⟨spelledNested, order_nested, by decide, rfl⟩)).2 ?_
  refine .map ?_ ?_ <;> simp only [List.forall_mem_cons]
  · exact ⟨.binary, .binary, List.forall_mem_nil _⟩
  · exact ⟨.int, .map (List.forall_mem_nil _) (List.forall_mem_nil _), List.forall_mem_nil _⟩

/-- The empty map and `{loopex_map, []}` have the same bytes. -/
theorem encode_collides : ¬ ∀ a b, Plain a → Plain b → (encode a = encode b ↔ a = b) := by
  intro h
  have ht : Plain spelledEmpty := order_plain plain_empty order_empty
  have hb : encode spelledEmpty = some (termToBinary spelledEmpty) :=
    encode_eq_some.2 ⟨spelledEmpty, rfl, by decide, rfl⟩
  have heq : (.map [] : Term) = spelledEmpty := (h _ _ plain_empty ht).1 (encode_empty.trans hb.symm)
  cases heq

end Loopex.Protocol.Canonical
