import Mathlib.Algebra.BigOperators.Group.List.Basic
import Mathlib.Data.List.Nodup
import Mathlib.Tactic.Common
import Mathlib.Tactic.Linarith

/-!
# Work ledgers

Calls are admitted for an account at their worst case, and settled at most once at what they cost.  What a settled call
was released of may be taken up again when its cost is disputed.

* `WorkCall` — a call: its worst case, what it was charged, and what was taken up again
* `heldBy`, `spentBy` — what an account has reserved, and what it was charged
* `Sound` — every call is settled once at most, within its worst case; what `enter`, `settle` and `raise` keep
* `moved_le` — what the calls moved is covered by what is held and spent
-/

namespace Loopex.System

/-- A call of an account; `charges` are the costs it was settled at, one after the other. -/
structure WorkCall (κ α : Type) where
  id : κ
  account : α
  worst : ℤ
  charges : List ℤ
  raised : ℤ

namespace WorkCall

variable {κ α : Type} (c : WorkCall κ α)

/-- What is reserved for a call: its worst case until it is settled, then what was taken up again. -/
def held : ℤ := if c.charges = [] then c.worst else c.raised

def spent : ℤ := c.charges.sum

/-- What a call may have moved, as far as its charges tell. -/
def cover : ℤ := c.held + c.spent

/-- Settled at most once and within the worst case; a dispute takes up the whole rest again. -/
structure Sound : Prop where
  worst_nonneg : 0 ≤ c.worst
  cases : (c.charges = [] ∧ c.raised = 0) ∨
    ∃ cost, c.charges = [cost] ∧ 0 ≤ cost ∧ cost ≤ c.worst ∧ (c.raised = 0 ∨ c.raised = c.worst - cost)

end WorkCall

/-- The calls admitted so far. -/
abbrev WorkLedger (κ α : Type) := List (WorkCall κ α)

namespace WorkLedger

variable {κ α : Type}

def enter (calls : WorkLedger κ α) (id : κ) (a : α) (worst : ℤ) : WorkLedger κ α := calls ++ [⟨id, a, worst, [], 0⟩]

/-- No call is named twice, and every call is sound. -/
structure Sound (calls : WorkLedger κ α) : Prop where
  nodup : (calls.map WorkCall.id).Nodup
  calls : ∀ c ∈ calls, c.Sound

variable {calls : WorkLedger κ α} {c : WorkCall κ α} {f : WorkCall κ α → WorkCall κ α} {g : WorkCall κ α → ℤ} {a : α} {id : κ}
  {cost amount worst : ℤ}

/-! ## sound ledgers -/

theorem eq_of_id (h : (calls.map WorkCall.id).Nodup) {d : WorkCall κ α} (hc : c ∈ calls) (hd : d ∈ calls)
    (heq : c.id = d.id) : c = d :=
  List.inj_on_of_nodup_map h hc hd heq

theorem Sound.enter (h : Sound calls) (hid : id ∉ calls.map WorkCall.id) (hworst : 0 ≤ worst) :
    Sound (calls.enter id a worst) := by
  constructor
  · rw [WorkLedger.enter, List.map_append, List.nodup_append]
    refine ⟨h.nodup, by simp, ?_⟩
    rintro x hx y hy rfl
    obtain rfl := List.mem_singleton.1 hy
    exact hid hx
  · intro c hc
    rcases List.mem_append.1 hc with hc | hc
    · exact h.calls c hc
    · obtain rfl := List.mem_singleton.1 hc
      exact ⟨hworst, .inl ⟨rfl, rfl⟩⟩

theorem held_nonneg (h : c.Sound) : 0 ≤ c.held := by
  rw [WorkCall.held]
  rcases h.cases with ⟨hnil, -⟩ | ⟨cost, hcharges, -, hle, hraised⟩
  · rw [if_pos hnil]
    exact h.worst_nonneg
  · rw [if_neg (by simp [hcharges])]
    omega

/-- No call is settled twice. -/
theorem Sound.once (h : Sound calls) (hc : c ∈ calls) : c.charges.length ≤ 1 := by
  rcases (h.calls c hc).cases with ⟨hnil, -⟩ | ⟨_, hcharges, -⟩
  · rw [hnil]
    exact Nat.zero_le 1
  · rw [hcharges]
    exact le_refl 1

/-! ## updates -/

section
variable [DecidableEq κ]

def update (calls : WorkLedger κ α) (id : κ) (f : WorkCall κ α → WorkCall κ α) : WorkLedger κ α :=
  calls.map fun c => if c.id = id then f c else c

def settle (calls : WorkLedger κ α) (id : κ) (cost : ℤ) : WorkLedger κ α :=
  calls.update id fun c => { c with charges := c.charges ++ [cost] }

def raise (calls : WorkLedger κ α) (id : κ) (amount : ℤ) : WorkLedger κ α :=
  calls.update id fun c => { c with raised := c.raised + amount }

theorem update_of_not_mem (h : id ∉ calls.map WorkCall.id) : calls.update id f = calls := by
  refine List.map_congr_left (fun c hc => ?_) |>.trans (List.map_id calls)
  rw [if_neg]
  · rfl
  · rintro rfl
    exact h (List.mem_map_of_mem hc)

theorem update_cons (c : WorkCall κ α) :
    update (c :: calls) id f = (if c.id = id then f c else c) :: update calls id f := rfl

theorem mem_update {d : WorkCall κ α} (h : d ∈ calls.update id f) :
    ∃ c ∈ calls, d = if c.id = id then f c else c := by
  obtain ⟨c, hc, rfl⟩ := List.mem_map.1 h
  exact ⟨c, hc, rfl⟩

theorem ids_update (hf : ∀ c, (f c).id = c.id) : (calls.update id f).map WorkCall.id = calls.map WorkCall.id := by
  rw [update, List.map_map]
  refine List.map_congr_left fun c _ => ?_
  rw [Function.comp_apply]
  split
  · exact hf c
  · rfl

/-- Another call stays as it is. -/
theorem mem_update_of_ne (hc : c ∈ calls) (hne : c.id ≠ id) : c ∈ calls.update id f :=
  List.mem_map.2 ⟨c, hc, if_neg hne⟩

theorem mem_update_self (hc : c ∈ calls) : f c ∈ calls.update c.id f :=
  List.mem_map.2 ⟨c, hc, if_pos rfl⟩

theorem Sound.update (h : Sound calls) (hc : c ∈ calls) (hf : ∀ c, (f c).id = c.id) (hsound : (f c).Sound) :
    Sound (calls.update c.id f) := by
  constructor
  · rw [ids_update hf]
    exact h.nodup
  · intro d hd
    obtain ⟨e, he, rfl⟩ := mem_update hd
    split
    next heq =>
      rw [eq_of_id h.nodup he hc heq]
      exact hsound
    · exact h.calls e he

theorem Sound.settle (h : Sound calls) (hc : c ∈ calls) (hopen : c.charges = []) (hcost : 0 ≤ cost) (hle : cost ≤ c.worst) :
    Sound (calls.settle c.id cost) := by
  refine h.update hc (fun _ => rfl) ⟨(h.calls c hc).worst_nonneg, .inr ⟨cost, ?_, hcost, hle, .inl ?_⟩⟩
  · rw [hopen]
    rfl
  · rcases (h.calls c hc).cases with ⟨-, hraised⟩ | ⟨_, hcharges, -⟩
    · exact hraised
    · rw [hopen] at hcharges
      cases hcharges

theorem Sound.raise (h : Sound calls) (hc : c ∈ calls) (hcharges : c.charges = [cost]) (hraised : c.raised = 0) :
    Sound (calls.raise c.id (c.worst - cost)) := by
  rcases (h.calls c hc).cases with ⟨hnil, -⟩ | ⟨cost', hcharges', hnonneg, hle, -⟩
  · rw [hcharges] at hnil
    cases hnil
  · obtain rfl := List.head_eq_of_cons_eq (hcharges.symm.trans hcharges')
    refine h.update hc (fun _ => rfl) ⟨(h.calls c hc).worst_nonneg, .inr ⟨cost, hcharges, hnonneg, hle, .inr ?_⟩⟩
    simp only [hraised]
    omega

end

/-! ## sums -/

section
variable [DecidableEq α]

/-- A sum over the calls of an account. -/
def total (f : WorkCall κ α → ℤ) (a : α) (calls : WorkLedger κ α) : ℤ :=
  ((calls.filter fun c => c.account = a).map f).sum

def heldBy (calls : WorkLedger κ α) (a : α) : ℤ := total WorkCall.held a calls

def spentBy (calls : WorkLedger κ α) (a : α) : ℤ := total WorkCall.spent a calls

theorem total_nil : total g a [] = 0 := rfl

theorem total_cons : total g a (c :: calls) = (if c.account = a then g c else 0) + total g a calls := by
  unfold total
  by_cases h : c.account = a
  · rw [List.filter_cons_of_pos (by simpa using h), List.map_cons, List.sum_cons, if_pos h]
  · rw [List.filter_cons_of_neg (by simpa using h), if_neg h, zero_add]

theorem total_append (calls' : WorkLedger κ α) : total g a (calls ++ calls') = total g a calls + total g a calls' := by
  unfold total
  rw [List.filter_append, List.map_append, List.sum_append]

theorem total_le {g' : WorkCall κ α → ℤ} (h : ∀ c ∈ calls, g c ≤ g' c) : total g a calls ≤ total g' a calls := by
  induction calls with
  | nil => exact le_refl _
  | cons c calls ih =>
    obtain ⟨hc, hcalls⟩ := List.forall_mem_cons.1 h
    have := ih hcalls
    rw [total_cons, total_cons]
    split <;> omega

theorem total_eq_zero (h : ∀ c ∈ calls, c.account ≠ a) : total g a calls = 0 := by
  have hnone : calls.filter (fun c => c.account = a) = [] :=
    List.filter_eq_nil_iff.2 fun c hc => by simpa using h c hc
  rw [total, hnone]
  rfl

theorem total_cover : total WorkCall.cover a calls = heldBy calls a + spentBy calls a := by
  induction calls with
  | nil => rfl
  | cons c calls ih =>
    unfold heldBy spentBy at ih ⊢
    rw [total_cons, total_cons, total_cons, ih, WorkCall.cover]
    split <;> omega

theorem heldBy_enter : heldBy (calls.enter id a worst) a = heldBy calls a + worst := by
  rw [heldBy, enter, total_append, total_cons, total_nil, if_pos rfl, heldBy]
  simp [WorkCall.held]

theorem heldBy_enter_of_ne {b : α} (h : a ≠ b) : heldBy (calls.enter id a worst) b = heldBy calls b := by
  rw [heldBy, enter, total_append, total_cons, total_nil, if_neg h, heldBy]
  omega

theorem spentBy_enter {b : α} : spentBy (calls.enter id a worst) b = spentBy calls b := by
  rw [spentBy, enter, total_append, total_cons, total_nil, spentBy]
  simp [WorkCall.spent]

theorem heldBy_nonneg (h : Sound calls) : 0 ≤ heldBy calls a := by
  have hle : total (fun _ => 0) a calls ≤ total WorkCall.held a calls := total_le fun c hc => held_nonneg (h.calls c hc)
  have hzero : total (fun _ : WorkCall κ α => 0) a calls = 0 := by
    unfold total
    simp
  rw [hzero] at hle
  exact hle

/-- What the calls of an account moved is covered by what is held and spent. -/
theorem moved_le {moved : κ → ℤ} (h : ∀ c ∈ calls, moved c.id ≤ c.cover) :
    total (fun c => moved c.id) a calls ≤ heldBy calls a + spentBy calls a := by
  rw [← total_cover]
  exact total_le h

end

section
variable [DecidableEq κ] [DecidableEq α]

/-- What a sum loses and gains with the update of one call. -/
theorem total_update (hnodup : (calls.map WorkCall.id).Nodup) (hc : c ∈ calls) (hf : (f c).account = c.account) :
    total g a (calls.update c.id f) = total g a calls + if c.account = a then g (f c) - g c else 0 := by
  induction calls with
  | nil => cases hc
  | cons d calls ih =>
    rw [List.map_cons, List.nodup_cons] at hnodup
    rw [update_cons]
    rcases List.mem_cons.1 hc with rfl | hc
    · rw [if_pos rfl, update_of_not_mem hnodup.1, total_cons, total_cons, hf]
      split <;> omega
    · have hne : d.id ≠ c.id := by
        intro heq
        rw [heq] at hnodup
        exact hnodup.1 (List.mem_map_of_mem hc)
      rw [if_neg hne, total_cons, total_cons, ih hnodup.2 hc]
      omega

theorem heldBy_settle (h : Sound calls) (hc : c ∈ calls) (hopen : c.charges = []) :
    heldBy (calls.settle c.id cost) a = heldBy calls a - if c.account = a then c.worst else 0 := by
  have hraised : c.raised = 0 := by
    rcases (h.calls c hc).cases with ⟨-, hraised⟩ | ⟨_, hcharges, -⟩
    · exact hraised
    · rw [hopen] at hcharges
      cases hcharges
  rw [heldBy, settle, total_update h.nodup hc]
  · simp only [WorkCall.held, hopen, hraised, heldBy]
    split <;> simp [sub_eq_add_neg]
  · rfl

theorem spentBy_settle (h : Sound calls) (hc : c ∈ calls) :
    spentBy (calls.settle c.id cost) a = spentBy calls a + if c.account = a then cost else 0 := by
  rw [spentBy, settle, total_update h.nodup hc]
  · simp only [WorkCall.spent, List.sum_append, List.sum_singleton, spentBy]
    split <;> omega
  · rfl

theorem heldBy_raise (h : Sound calls) (hc : c ∈ calls) (hcharged : c.charges ≠ []) :
    heldBy (calls.raise c.id amount) a = heldBy calls a + if c.account = a then amount else 0 := by
  rw [heldBy, raise, total_update h.nodup hc]
  · simp only [WorkCall.held, if_neg hcharged, heldBy]
    split <;> omega
  · rfl

theorem spentBy_raise (h : Sound calls) (hc : c ∈ calls) : spentBy (calls.raise c.id amount) a = spentBy calls a := by
  rw [spentBy, raise, total_update h.nodup hc]
  · simp [WorkCall.spent, spentBy]
  · rfl

end

end WorkLedger

end Loopex.System
