import Mathlib.Data.Set.Basic

/-!
# Programs that may be cut off

A program asks for one operation after the other and goes on from the reply to each; what an operation does to the
state and what it replies is a relation, so that it may fail.  A program can be cut off behind any of its operations.

* `Program` — programs, with the operation they ask for first
* `Moment` — where a program has come to after some of its operations
* `Safe` — a condition holds at every moment, and another of every answer: one rule for each way to build a program
-/

namespace Loopex.System

variable {Op : Type} {Reply : Op → Type} {σ α β : Type}

inductive Program (Op : Type) (Reply : Op → Type) (α : Type) where
  | done (a : α)
  | ask (op : Op) (next : Reply op → Program Op Reply α)

namespace Program

/-- One program behind another. -/
def bind : Program Op Reply α → (α → Program Op Reply β) → Program Op Reply β
  | done a, f => f a
  | ask op next, f => ask op fun r => (next r).bind f

/-- Where a program is after some of its operations. -/
inductive Moment (effect : (op : Op) → σ → Reply op → σ → Prop) :
    Program Op Reply α → σ → Program Op Reply α → σ → Prop
  | here {p s} : Moment effect p s p s
  | later {op next r s t q u} : effect op s r t → Moment effect (next r) t q u → Moment effect (ask op next) s q u

/-- Whatever the operations reply, `I` holds at every moment and `Q` of the answer. -/
def Safe (effect : (op : Op) → σ → Reply op → σ → Prop) (I : σ → Prop) (Q : α → σ → Prop) : Program Op Reply α → σ → Prop
  | done a, s => I s ∧ Q a s
  | ask op next, s => I s ∧ ∀ r t, effect op s r t → Safe effect I Q (next r) t

variable {effect : (op : Op) → σ → Reply op → σ → Prop} {I J : σ → Prop} {Q Q' : α → σ → Prop}
variable {p q : Program Op Reply α} {s t u : σ}

/-- One program that answers, and another behind it. -/
theorem Moment.bind {a : α} {f : α → Program Op Reply β} {r : Program Op Reply β} (h : Moment effect p s (done a) t)
    (h' : Moment effect (f a) t r u) : Moment effect (p.bind f) s r u := by
  generalize hd : done a = d at h
  induction h with
  | here =>
    subst hd
    exact h'
  | later heffect _ ih => exact .later heffect (ih h' hd)

namespace Safe

theorem here (h : Safe effect I Q p s) : I s := by
  cases p <;> exact h.1

/-- At every moment the rest of the program is safe. -/
theorem at_moment (h : Safe effect I Q p s) (hm : Moment effect p s q t) : Safe effect I Q q t := by
  induction hm with
  | here => exact h
  | later heffect _ ih => exact ih (h.2 _ _ heffect)

theorem moment (h : Safe effect I Q p s) (hm : Moment effect p s q t) : I t := (h.at_moment hm).here

theorem answer {a : α} (h : Safe effect I Q p s) (hm : Moment effect p s (done a) t) : Q a t := (h.at_moment hm).2

theorem imp (h : Safe effect I Q p s) (hI : ∀ t, I t → J t) (hQ : ∀ a t, I t → Q a t → Q' a t) :
    Safe effect J Q' p s := by
  induction p generalizing s with
  | done a => exact ⟨hI _ h.1, hQ _ _ h.1 h.2⟩
  | ask op next ih => exact ⟨hI _ h.1, fun r t heffect => ih r (h.2 r t heffect)⟩

theorem bind {R : β → σ → Prop} {f : α → Program Op Reply β} (h : Safe effect I Q p s)
    (hf : ∀ a t, I t → Q a t → Safe effect I R (f a) t) : Safe effect I R (p.bind f) s := by
  induction p generalizing s with
  | done a => exact hf a s h.1 h.2
  | ask op next ih => exact ⟨h.1, fun r t heffect => ih r (h.2 r t heffect)⟩

end Safe

end Program

end Loopex.System
