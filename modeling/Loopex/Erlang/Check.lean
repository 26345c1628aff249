import Mathlib.Data.List.Forall2
import Mathlib.Tactic.Basic

/-!
# Computations that can refuse or raise

`Check ε α` is the result of a function that returns a value, returns a refusal `ε`, or raises.  A
refusal is an ordinary value that the caller goes on with; an exception ends the process unless it is
rescued.  The bind is that of a chain of checks: the first refusal or exception is the result.
-/

namespace Loopex.Erlang

/-- The exceptions a built-in operation raises. -/
inductive Exn where
  | badArgument
  | badKey
  | badMatch
  | undefinedFunction
  | functionClause
  deriving DecidableEq

inductive Check (ε α : Type) where
  | ok (a : α)
  | error (e : ε)
  | raise (x : Exn)
  deriving DecidableEq

namespace Check

variable {ε δ α β : Type}

@[simp] protected def bind (c : Check ε α) (f : α → Check ε β) : Check ε β :=
  match c with
  | .ok a => f a
  | .error e => .error e
  | .raise x => .raise x

instance {ε : Type} : Monad (Check ε) where
  pure := .ok
  bind := Check.bind

@[simp] theorem pure_eq (a : α) : (pure a : Check ε α) = .ok a := rfl
@[simp] theorem ok_bind (a : α) (f : α → Check ε β) : (Check.ok a >>= f) = f a := rfl
@[simp] theorem error_bind (e : ε) (f : α → Check ε β) : (Check.error e >>= f) = .error e := rfl
@[simp] theorem raise_bind (x : Exn) (f : α → Check ε β) : (Check.raise x >>= f) = .raise x := rfl

theorem bind_eq_ok {c : Check ε α} {f : α → Check ε β} {b : β} :
    (c >>= f) = .ok b ↔ ∃ a, c = .ok a ∧ f a = .ok b := by
  cases c <;> simp

theorem bind_eq_raise {c : Check ε α} {f : α → Check ε β} {x : Exn} :
    (c >>= f) = .raise x ↔ c = .raise x ∨ ∃ a, c = .ok a ∧ f a = .raise x := by
  cases c <;> simp

instance {ε : Type} : LawfulMonad (Check ε) :=
  LawfulMonad.mk' _ (fun c => by cases c <;> rfl) (fun _ _ => rfl) fun c _ _ => by cases c <;> rfl

theorem mapM_ok {f : α → Check ε β} {g : α → β} {xs : List α} (h : ∀ x ∈ xs, f x = .ok (g x)) :
    xs.mapM f = .ok (xs.map g) := by
  induction xs with
  | nil => rfl
  | cons x xs ih =>
    rw [List.mapM_cons, h x (by simp), ih fun y hy => h y (by simp [hy])]
    rfl

theorem mapM_eq_ok {f : α → Check ε β} {xs : List α} {ys : List β} :
    xs.mapM f = .ok ys ↔ List.Forall₂ (fun x y => f x = .ok y) xs ys := by
  induction xs generalizing ys with
  | nil => simp [eq_comm]
  | cons x xs ih =>
    rw [List.mapM_cons, bind_eq_ok, List.forall₂_cons_left_iff]
    constructor
    · rintro ⟨y, hy, hys⟩
      obtain ⟨zs, hzs, hok⟩ := bind_eq_ok.1 hys
      cases hok
      exact ⟨y, zs, hy, ih.1 hzs, rfl⟩
    · rintro ⟨y, zs, hy, hzs, rfl⟩
      exact ⟨y, hy, bind_eq_ok.2 ⟨zs, ih.2 hzs, rfl⟩⟩

theorem mapM_flatMap {γ : Type} {f : β → Check ε γ} {g : α → List β} {k : α → List γ} {xs : List α}
    (h : ∀ x ∈ xs, (g x).mapM f = .ok (k x)) : (xs.flatMap g).mapM f = .ok (xs.flatMap k) := by
  induction xs with
  | nil => rfl
  | cons x xs ih =>
    rw [List.flatMap_cons, List.mapM_append, h x (by simp), ih fun y hy => h y (by simp [hy])]
    rfl

/-- Refuse with `e` unless `b`. -/
def require (b : Bool) (e : ε) : Check ε Unit := if b then .ok () else .error e

@[simp] theorem require_eq_ok {b : Bool} {e : ε} {u : Unit} : require b e = .ok u ↔ b = true := by
  cases b <;> simp [require]

@[simp] theorem require_ne_raise {b : Bool} {e : ε} {x : Exn} : require b e ≠ .raise x := by
  cases b <;> simp [require]

/-- The `else` clause of a chain: every refusal becomes `e`. -/
def orError (c : Check δ α) (e : ε) : Check ε α :=
  match c with
  | .ok a => .ok a
  | .error _ => .error e
  | .raise x => .raise x

@[simp] theorem orError_eq_ok {c : Check δ α} {e : ε} {a : α} : c.orError e = .ok a ↔ c = .ok a := by
  cases c <;> simp [orError]

@[simp] theorem orError_eq_raise {c : Check δ α} {e : ε} {x : Exn} :
    c.orError e = .raise x ↔ c = .raise x := by
  cases c <;> simp [orError]

/-- The verdict of a check, without its value. -/
def verdict (c : Check ε α) : Check ε Unit :=
  match c with
  | .ok _ => .ok ()
  | .error e => .error e
  | .raise x => .raise x

@[simp] theorem verdict_eq_ok {c : Check ε α} {u : Unit} : c.verdict = .ok u ↔ ∃ a, c = .ok a := by
  cases c <;> simp [verdict]

@[simp] theorem verdict_eq_raise {c : Check ε α} {x : Exn} : c.verdict = .raise x ↔ c = .raise x := by
  cases c <;> simp [verdict]

/-- The value of an option, or the refusal `e`. -/
def ofOption (o : Option α) (e : ε) : Check ε α :=
  match o with
  | some a => .ok a
  | none => .error e

@[simp] theorem ofOption_eq_ok {o : Option α} {e : ε} {a : α} : ofOption o e = .ok a ↔ o = some a := by
  cases o <;> simp [ofOption]

@[simp] theorem ofOption_ne_raise {o : Option α} {e : ε} {x : Exn} : ofOption o e ≠ .raise x := by
  cases o <;> simp [ofOption]

/-- A check that cannot raise, as one that could. -/
def ofExcept (c : Except ε α) : Check ε α :=
  match c with
  | .ok a => .ok a
  | .error e => .error e

@[simp] theorem ofExcept_eq_ok {c : Except ε α} {a : α} : ofExcept c = .ok a ↔ c = .ok a := by
  cases c <;> simp [ofExcept]

@[simp] theorem ofExcept_ne_raise {c : Except ε α} {x : Exn} : ofExcept c ≠ .raise x := by
  cases c <;> simp [ofExcept]

end Check

/-- The value of a check that only refuses or succeeds, unfolded one step. -/
theorem Except.bind_eq_ok {ε α β : Type} {c : Except ε α} {f : α → Except ε β} {b : β} :
    (c >>= f) = .ok b ↔ ∃ a, c = .ok a ∧ f a = .ok b := by
  cases c <;> simp [bind, Except.bind]

end Loopex.Erlang
