import Mathlib.Data.List.Basic
import Mathlib.Data.List.Induction

/-!
# Runs

A machine takes inputs one at a time; `step s i s'` says that input `i` takes it from `s` to `s'`.  A
`Run` is a finite sequence of steps with the inputs it took.

* `Run.invariant` — what holds at the start and is kept by every step holds after every run;
* `Run.relates` — what every step relates, and composes, every run relates;
* `Run.trans`, `Run.of_prefix` — runs compose and split at any point;
* `Run.of_foldlM` — the steps of a function are a run;
* `Run.mono` — a run of guarded steps is a run of the steps;
* `Run.extends` — what every step only adds to, every run only adds to.
-/

namespace Loopex.System

variable {σ ι : Type}

/-- A sequence of steps from `start`, with its inputs in order. -/
inductive Run (step : σ → ι → σ → Prop) (start : σ) : List ι → σ → Prop
  | nil : Run step start [] start
  | snoc {is s i s'} : Run step start is s → step s i s' → Run step start (is ++ [i]) s'

/-- The steps whose state and input meet a condition. -/
def Guarded (step : σ → ι → σ → Prop) (guard : σ → ι → Prop) (s : σ) (i : ι) (s' : σ) : Prop :=
  step s i s' ∧ guard s i

variable {step step' : σ → ι → σ → Prop} {start s t : σ} {is js : List ι}

namespace Run

theorem one {i : ι} (h : step s i t) : Run step s [i] t := snoc nil h

/-- An invariant of the steps holds after every run from a state it holds in. -/
theorem invariant {I : σ → Prop} (hstart : I start) (hstep : ∀ s i s', I s → step s i s' → I s')
    (h : Run step start is s) : I s := by
  induction h with
  | nil => exact hstart
  | snoc _ hs ih => exact hstep _ _ _ ih hs

/-- A preorder every step climbs is climbed by every run, under an invariant. -/
theorem relates {I : σ → Prop} {R : σ → σ → Prop} (hrefl : ∀ s, R s s)
    (htrans : ∀ s t u, R s t → R t u → R s u) (hstart : I start)
    (hinv : ∀ s i s', I s → step s i s' → I s') (hstep : ∀ s i s', I s → step s i s' → R s s')
    (h : Run step start is s) : R start s := by
  induction h with
  | nil => exact hrefl _
  | snoc hr hs ih => exact htrans _ _ _ ih (hstep _ _ _ (hr.invariant hstart hinv) hs)

theorem trans (h : Run step start is s) (h' : Run step s js t) : Run step start (is ++ js) t := by
  induction h' with
  | nil => simpa using h
  | snoc _ hs ih =>
    rw [← List.append_assoc]
    exact snoc ih hs

/-- A run splits where its inputs do. -/
theorem of_prefix (h : Run step start (is ++ js) t) : ∃ s, Run step start is s ∧ Run step s js t := by
  generalize hks : is ++ js = ks at h
  induction h generalizing js with
  | nil =>
    obtain ⟨rfl, rfl⟩ := List.append_eq_nil_iff.1 hks
    exact ⟨_, nil, nil⟩
  | @snoc ks s i s' hr hs ih =>
    rcases List.eq_nil_or_concat js with rfl | ⟨js, j, rfl⟩
    · rw [List.append_nil] at hks
      exact ⟨_, hks ▸ snoc hr hs, nil⟩
    · rw [List.concat_eq_append, ← List.append_assoc] at hks
      obtain ⟨rfl, hj⟩ := List.append_inj' hks rfl
      obtain ⟨u, hu, hu'⟩ := ih rfl
      rw [List.concat_eq_append, hj]
      exact ⟨u, hu, snoc hu' hs⟩

theorem mono (hle : ∀ s i s', step s i s' → step' s i s') (h : Run step start is s) :
    Run step' start is s := by
  induction h with
  | nil => exact nil
  | snoc _ hs ih => exact snoc ih (hle _ _ _ hs)

/-- The steps of a function that answers at each of its inputs are a run. -/
theorem of_foldlM {f : σ → ι → Option σ} (h : is.foldlM f s = some t) : Run (fun s i s' => f s i = some s') s is t := by
  induction is using List.reverseRecOn generalizing t with
  | nil =>
    cases h
    exact nil
  | append_singleton is i ih =>
    rw [List.foldlM_append, Option.bind_eq_bind, Option.bind_eq_some_iff] at h
    obtain ⟨u, hu, h⟩ := h
    simp only [List.foldlM_cons, List.foldlM_nil, Option.bind_eq_bind, Option.bind_eq_some_iff, Option.pure_def,
      Option.some.injEq] at h
    obtain ⟨v, hv, rfl⟩ := h
    exact snoc (ih hu) hv

end Run

/-! ## write-once observations -/

/-- A partial function that agrees with another wherever that one is defined. -/
def Extends {κ ν : Type} (f g : κ → Option ν) : Prop := ∀ k v, f k = some v → g k = some v

namespace Extends

variable {κ ν : Type} {f g h : κ → Option ν}

theorem refl (f : κ → Option ν) : Extends f f := fun _ _ hv => hv

theorem trans (hfg : Extends f g) (hgh : Extends g h) : Extends f h :=
  fun k v hv => hgh k v (hfg k v hv)

end Extends

/-- What every step only adds to, every run only adds to. -/
theorem Run.extends {κ ν : Type} {I : σ → Prop} {f : σ → κ → Option ν} (hstart : I start)
    (hinv : ∀ s i s', I s → step s i s' → I s')
    (hstep : ∀ s i s', I s → step s i s' → Extends (f s) (f s'))
    (h : Run step start is s) : Extends (f start) (f s) :=
  h.relates (R := fun s s' => Extends (f s) (f s')) (fun _ => .refl _) (fun _ _ _ => .trans) hstart hinv
    hstep

end Loopex.System
