import Mathlib.Data.List.Basic
import Mathlib.Algebra.Group.Nat.Defs
import Mathlib.Algebra.Group.Int.Defs

/-!
# Erlang terms

The universe of values a BEAM program passes around, as far as a program can take them apart: atoms,
integers, finite doubles, binaries, bit strings, proper and improper lists, tuples, maps, and the
handles (processes, ports, references, functions) that only compare.

* `Term.ind` is the induction principle with the sub-terms of a list, a tuple or a map as hypotheses;
* `Term.loosen` sends a float with an integer value to that integer, so that `a.loosen = b.loosen` is
  the runtime's `a == b` and `a = b` its `a === b`.  The keys of a map are compared exactly by both.
-/

namespace Loopex.Erlang

abbrev Bytes := List UInt8

instance : LawfulBEq Bytes := inferInstance

/-- The UTF-8 bytes of a string. -/
def utf8 (s : String) : Bytes := s.toByteArray.data.toList

theorem utf8_inj {s t : String} : utf8 s = utf8 t ↔ s = t := by
  refine ⟨fun h => ?_, fun h => h ▸ rfl⟩
  apply String.toByteArray_inj.1
  exact ByteArray.ext (Array.toList_inj.1 h)

/-! ## doubles -/

/-- A finite IEEE 754 double, by its bits. -/
structure Double where
  bits : ℕ
  lt : bits < 2 ^ 64
  finite : bits / 2 ^ 52 % 2 ^ 11 ≠ 2047
  deriving DecidableEq

namespace Double

/-- The value of `x` times `2 ^ 1074`, the reciprocal of the least positive double. -/
def scaled (x : Double) : ℤ :=
  let exponent : ℕ := x.bits / 2 ^ 52 % 2 ^ 11
  let fraction : ℕ := x.bits % 2 ^ 52
  let magnitude : ℕ := if exponent = 0 then fraction else (2 ^ 52 + fraction) * 2 ^ (exponent - 1)
  if x.bits / 2 ^ 63 = 1 then -(magnitude : ℤ) else magnitude

/-- The integer `x` is equal to, if it is one. -/
def toInt? (x : Double) : Option ℤ :=
  if x.scaled % 2 ^ 1074 = 0 then some (x.scaled / 2 ^ 1074) else none

/-- The double `1.0`. -/
def one : Double := ⟨0x3FF0000000000000, by decide, by decide⟩

theorem toInt?_one : one.toInt? = some 1 := by decide +kernel

end Double

/-! ## terms -/

inductive HandleKind where
  | pid | port | reference | function
  deriving DecidableEq

/-- A term.  A map is the list of its entries; the operations of `Dict` keep them in one fixed order of
the keys, so that equal maps are equal lists. -/
inductive Term where
  | atom (name : Bytes)
  | int (n : ℤ)
  | float (x : Double)
  | binary (b : Bytes)
  | bitstring (b : Bytes) (spare : ℕ)
  | list (xs : List Term)
  | improper (xs : List Term) (tail : Term)
  | tuple (xs : List Term)
  | map (kvs : List (Term × Term))
  | handle (kind : HandleKind) (id : ℕ)

namespace Term

/-- The atom of a name. -/
def sym (s : String) : Term := .atom (utf8 s)

/-- The binary of a string. -/
def str (s : String) : Term := .binary (utf8 s)

def nil : Term := sym "nil"

@[simp] theorem sym_inj {s t : String} : sym s = sym t ↔ s = t := by
  simp [sym, utf8_inj]

@[simp] theorem str_inj {s t : String} : str s = str t ↔ s = t := by
  simp [str, utf8_inj]

instance : Inhabited Term := ⟨nil⟩

/-- Induction on terms, with the hypothesis for every sub-term of a compound one. -/
theorem ind {P : Term → Prop} (atom : ∀ n, P (.atom n)) (int : ∀ n, P (.int n))
    (float : ∀ x, P (.float x)) (binary : ∀ b, P (.binary b))
    (bitstring : ∀ b n, P (.bitstring b n)) (list : ∀ xs, (∀ x ∈ xs, P x) → P (.list xs))
    (improper : ∀ xs t, (∀ x ∈ xs, P x) → P t → P (.improper xs t))
    (tuple : ∀ xs, (∀ x ∈ xs, P x) → P (.tuple xs))
    (map : ∀ kvs : List (Term × Term), (∀ e ∈ kvs, P e.1 ∧ P e.2) → P (.map kvs))
    (handle : ∀ k n, P (.handle k n)) : ∀ t, P t := by
  intro t
  refine Term.rec (motive_1 := P) (motive_2 := fun xs => ∀ x ∈ xs, P x)
    (motive_3 := fun kvs => ∀ e ∈ kvs, P e.1 ∧ P e.2) (motive_4 := fun e => P e.1 ∧ P e.2)
    atom int float binary bitstring (fun xs ih => list xs ih) (fun xs t ih iht => improper xs t ih iht)
    (fun xs ih => tuple xs ih) (fun kvs ih => map kvs ih) handle (by simp) ?_ (by simp) ?_ ?_ t
  · intro x xs hx hxs y hy
    rcases List.mem_cons.1 hy with rfl | hy
    · exact hx
    · exact hxs y hy
  · intro e es he hes e' he'
    rcases List.mem_cons.1 he' with rfl | he'
    · exact he
    · exact hes e' he'
  · exact fun a b ha hb => ⟨ha, hb⟩

/-! ## exact equality -/

mutual
/-- `a === b`. -/
def beq : Term → Term → Bool
  | .atom a, .atom b => a == b
  | .int a, .int b => a == b
  | .float a, .float b => a == b
  | .binary a, .binary b => a == b
  | .bitstring a n, .bitstring b m => a == b && n == m
  | .list xs, .list ys => beqList xs ys
  | .improper xs s, .improper ys t => beqList xs ys && beq s t
  | .tuple xs, .tuple ys => beqList xs ys
  | .map xs, .map ys => beqEntries xs ys
  | .handle k n, .handle l m => k == l && n == m
  | _, _ => false
def beqList : List Term → List Term → Bool
  | [], [] => true
  | x :: xs, y :: ys => beq x y && beqList xs ys
  | _, _ => false
def beqEntries : List (Term × Term) → List (Term × Term) → Bool
  | [], [] => true
  | (k, v) :: xs, (l, w) :: ys => beq k l && beq v w && beqEntries xs ys
  | _, _ => false
end

theorem beqList_iff {xs : List Term} (h : ∀ x ∈ xs, ∀ y, beq x y = true ↔ x = y) :
    ∀ ys, beqList xs ys = true ↔ xs = ys := by
  induction xs with
  | nil => intro ys; cases ys <;> simp [beqList]
  | cons x xs ih =>
    intro ys
    cases ys with
    | nil => simp [beqList]
    | cons y ys =>
      simp only [beqList, Bool.and_eq_true, List.cons.injEq, h x (by simp)]
      rw [ih (fun z hz => h z (by simp [hz]))]

theorem beqEntries_iff {xs : List (Term × Term)}
    (h : ∀ e ∈ xs, (∀ y, beq e.1 y = true ↔ e.1 = y) ∧ ∀ y, beq e.2 y = true ↔ e.2 = y) :
    ∀ ys, beqEntries xs ys = true ↔ xs = ys := by
  induction xs with
  | nil => intro ys; cases ys <;> simp [beqEntries]
  | cons e xs ih =>
    obtain ⟨k, v⟩ := e
    intro ys
    cases ys with
    | nil => simp [beqEntries]
    | cons e' ys =>
      obtain ⟨l, w⟩ := e'
      obtain ⟨hk, hv⟩ := h (k, v) (by simp)
      simp only [beqEntries, Bool.and_eq_true, List.cons.injEq, Prod.mk.injEq, hk, hv]
      rw [ih (fun z hz => h z (by simp [hz]))]

theorem beq_iff (a : Term) : ∀ b, beq a b = true ↔ a = b := by
  induction a using Term.ind with
  | list xs ih => intro b; cases b <;> simp [beq, beqList_iff ih]
  | improper xs t ih iht => intro b; cases b <;> simp [beq, beqList_iff ih, iht]
  | tuple xs ih => intro b; cases b <;> simp [beq, beqList_iff ih]
  | map xs ih => intro b; cases b <;> simp [beq, beqEntries_iff ih]
  | _ => intro b; cases b <;> simp [beq]

instance : DecidableEq Term := fun a b => decidable_of_iff _ (beq_iff a b)

instance : LawfulBEq (Term × Term) := inferInstance

/-! ## equality up to the kind of a number -/

mutual
/-- The term with every float of integer value replaced by that integer, map keys aside. -/
def loosen : Term → Term
  | .float x => match x.toInt? with
    | some n => .int n
    | none => .float x
  | .list xs => .list (loosenList xs)
  | .improper xs t => .improper (loosenList xs) (loosen t)
  | .tuple xs => .tuple (loosenList xs)
  | .map kvs => .map (loosenEntries kvs)
  | t => t
def loosenList : List Term → List Term
  | [] => []
  | x :: xs => loosen x :: loosenList xs
def loosenEntries : List (Term × Term) → List (Term × Term)
  | [] => []
  | (k, v) :: xs => (k, loosen v) :: loosenEntries xs
end

/-- `a == b`. -/
def looseEq (a b : Term) : Bool := loosen a = loosen b

@[simp] theorem looseEq_self (a : Term) : looseEq a a = true := by simp [looseEq]

theorem looseEq_iff {a b : Term} : looseEq a b = true ↔ loosen a = loosen b := by simp [looseEq]

theorem loosenList_eq (xs : List Term) : loosenList xs = xs.map loosen := by
  induction xs with
  | nil => rfl
  | cons x xs ih => simp [loosenList, ih]

theorem loosenEntries_eq (kvs : List (Term × Term)) :
    loosenEntries kvs = kvs.map fun e => (e.1, loosen e.2) := by
  induction kvs with
  | nil => rfl
  | cons e kvs ih => simp [loosenEntries, ih]

@[simp] theorem loosen_atom (n : Bytes) : loosen (.atom n) = .atom n := rfl
@[simp] theorem loosen_binary (b : Bytes) : loosen (.binary b) = .binary b := rfl
@[simp] theorem loosen_int (n : ℤ) : loosen (.int n) = .int n := rfl
@[simp] theorem loosen_sym (s : String) : loosen (sym s) = sym s := rfl

@[simp] theorem loosen_list (xs : List Term) : loosen (.list xs) = .list (xs.map loosen) := by
  simp [loosen, loosenList_eq]

@[simp] theorem loosen_tuple (xs : List Term) : loosen (.tuple xs) = .tuple (xs.map loosen) := by
  simp [loosen, loosenList_eq]

@[simp] theorem loosen_map (kvs : List (Term × Term)) :
    loosen (.map kvs) = .map (kvs.map fun e => (e.1, loosen e.2)) := by
  simp [loosen, loosenEntries_eq]

/-- A binary is only `==` to itself. -/
theorem loosen_eq_binary {t : Term} {b : Bytes} (h : loosen t = .binary b) : t = .binary b := by
  cases t with
  | float x => simp only [loosen] at h; split at h <;> cases h
  | _ => simp_all [loosen]

end Term

end Loopex.Erlang
