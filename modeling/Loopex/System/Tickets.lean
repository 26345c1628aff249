import Mathlib.Data.List.Nodup
import Mathlib.Data.Multiset.ZeroCons
import Mathlib.Data.Multiset.UnionInter
import Mathlib.Tactic.Common

/-!
# Tickets

A custodian takes tickets one at a time and gives each a last answer, or drops it when it is told to.  What
became of the tickets is its log, the newest entry first.

* `Entry` — a ticket is handed over, answered, dropped, or asked for when it was answered or is not there
* `Proper` — no ticket is handed over twice or answered twice, and none is answered once it is dropped
* `Kept` — the tickets that are handed over are held, answered or dropped; one rule for each entry
-/

namespace Loopex.System.Tickets

variable {τ : Type}

/-- What becomes of a ticket. -/
inductive Entry (τ : Type) where
  | hand (t : τ)
  | answer (t : τ)
  | drop (t : τ)
  /-- It is asked for, and its answer is given already. -/
  | late (t : τ)
  /-- It is asked for, and is not there. -/
  | miss (t : τ)
  deriving DecidableEq

/-- The tickets that are handed over. -/
def handed : List (Entry τ) → List τ
  | [] => []
  | .hand t :: l => t :: handed l
  | _ :: l => handed l

/-- The tickets that are answered. -/
def answered : List (Entry τ) → List τ
  | [] => []
  | .answer t :: l => t :: answered l
  | _ :: l => answered l

/-- The tickets that are dropped. -/
def dropped : List (Entry τ) → List τ
  | [] => []
  | .drop t :: l => t :: dropped l
  | _ :: l => dropped l

/-- What an entry asks of the entries before it. -/
def Entry.Follows : Entry τ → List (Entry τ) → Prop
  | .hand t, l => t ∉ handed l
  | .answer t, l => t ∈ handed l ∧ t ∉ answered l ∧ t ∉ dropped l
  | .drop t, l => t ∈ handed l ∧ t ∉ answered l
  | .late t, l => t ∈ answered l
  | .miss t, l => t ∈ answered l ∨ t ∈ dropped l

/-- A log whose entries all follow those before them. -/
def Proper : List (Entry τ) → Prop
  | [] => True
  | e :: l => e.Follows l ∧ Proper l

section proper

variable {l l' : List (Entry τ)} {e : Entry τ} {t : τ}

theorem answered_append : answered (l' ++ l) = answered l' ++ answered l := by
  induction l' with
  | nil => rfl
  | cons e l' ih => cases e <;> simp [answered, ih]

theorem dropped_append : dropped (l' ++ l) = dropped l' ++ dropped l := by
  induction l' with
  | nil => rfl
  | cons e l' ih => cases e <;> simp [dropped, ih]

theorem Proper.handed_of_answered (h : Proper l) (ht : t ∈ answered l) : t ∈ handed l := by
  induction l with
  | nil => cases ht
  | cons e l ih =>
    cases e with
    | answer u =>
      rcases List.mem_cons.1 ht with rfl | ht
      · exact h.1.1
      · exact ih h.2 ht
    | hand u => exact List.mem_cons_of_mem _ (ih h.2 ht)
    | drop u => exact ih h.2 ht
    | late u => exact ih h.2 ht
    | miss u => exact ih h.2 ht

theorem Proper.handed_of_dropped (h : Proper l) (ht : t ∈ dropped l) : t ∈ handed l := by
  induction l with
  | nil => cases ht
  | cons e l ih =>
    cases e with
    | drop u =>
      rcases List.mem_cons.1 ht with rfl | ht
      · exact h.1.1
      · exact ih h.2 ht
    | hand u => exact List.mem_cons_of_mem _ (ih h.2 ht)
    | answer u => exact ih h.2 ht
    | late u => exact ih h.2 ht
    | miss u => exact ih h.2 ht

theorem Proper.append (h : Proper (l' ++ l)) : Proper l := by
  induction l' with
  | nil => exact h
  | cons e l' ih => exact ih h.2

/-- **An answer is given once.** -/
theorem Proper.answered_nodup (h : Proper l) : (answered l).Nodup := by
  induction l with
  | nil => exact List.nodup_nil
  | cons e l ih =>
    have hl := ih h.2
    cases e with
    | answer t => exact List.nodup_cons.2 ⟨h.1.2.1, hl⟩
    | _ => exact hl

/-- **What is dropped is not answered**, before or after. -/
theorem Proper.not_answered (h : Proper l) (hd : t ∈ dropped l) : t ∉ answered l := by
  induction l with
  | nil => cases hd
  | cons e l ih =>
    cases e with
    | answer u =>
      have hne : t ≠ u := fun heq => h.1.2.2 (heq ▸ hd)
      exact List.not_mem_cons_of_ne_of_not_mem hne (ih h.2 hd)
    | drop u =>
      rcases List.mem_cons.1 hd with rfl | hd
      · exact h.1.2
      · exact ih h.2 hd
    | hand u => exact ih h.2 hd
    | late u => exact ih h.2 hd
    | miss u => exact ih h.2 hd

/-- What is dropped gets no answer from then on. -/
theorem Proper.silent (h : Proper (l' ++ .drop t :: l)) : t ∉ answered l' := by
  have hd : t ∈ dropped (l' ++ .drop t :: l) := by
    rw [dropped_append]
    exact List.mem_append_right _ (List.mem_cons_self ..)
  have hnot := h.not_answered hd
  rw [answered_append, List.mem_append, not_or] at hnot
  exact hnot.1

end proper

/-! ## custody -/

/-- The tickets in `held`, and no others, still wait for what becomes of them. -/
structure Kept (held : Multiset τ) (log : List (Entry τ)) : Prop where
  proper : Proper log
  nodup : held.Nodup
  waits : ∀ t ∈ held, t ∈ handed log ∧ t ∉ answered log ∧ t ∉ dropped log
  whole : ∀ t ∈ handed log, t ∈ held ∨ t ∈ answered log ∨ t ∈ dropped log

variable {held : Multiset τ} {log : List (Entry τ)} {t : τ}

theorem Kept.empty : Kept (0 : Multiset τ) [] :=
  ⟨trivial, Multiset.nodup_zero, fun _ h => absurd h (Multiset.notMem_zero _), nofun⟩

/-- A ticket is handed over. -/
theorem Kept.hand (h : Kept held log) (hnew : t ∉ handed log) : Kept (t ::ₘ held) (.hand t :: log) where
  proper := ⟨hnew, h.proper⟩
  nodup := Multiset.nodup_cons.2 ⟨fun ht => hnew (h.waits t ht).1, h.nodup⟩
  waits := by
    intro u hu
    rcases Multiset.mem_cons.1 hu with rfl | hu
    · exact ⟨List.mem_cons_self .., fun ha => hnew (h.proper.handed_of_answered ha),
        fun hd => hnew (h.proper.handed_of_dropped hd)⟩
    · obtain ⟨h1, h2⟩ := h.waits u hu
      exact ⟨List.mem_cons_of_mem _ h1, h2⟩
  whole := by
    intro u hu
    rcases List.mem_cons.1 hu with rfl | hu
    · exact .inl (Multiset.mem_cons_self _ _)
    · exact (h.whole u hu).imp_left Multiset.mem_cons_of_mem

/-- A ticket that waits is answered. -/
theorem Kept.answer (h : Kept (t ::ₘ held) log) : Kept held (.answer t :: log) where
  proper := ⟨h.waits t (Multiset.mem_cons_self _ _), h.proper⟩
  nodup := (Multiset.nodup_cons.1 h.nodup).2
  waits := by
    intro u hu
    obtain ⟨h1, h2, h3⟩ := h.waits u (Multiset.mem_cons_of_mem hu)
    have hne : u ≠ t := fun heq => (Multiset.nodup_cons.1 h.nodup).1 (heq ▸ hu)
    exact ⟨h1, List.not_mem_cons_of_ne_of_not_mem hne h2, h3⟩
  whole := by
    intro u hu
    rcases h.whole u hu with hheld | ha | hd
    · rcases Multiset.mem_cons.1 hheld with rfl | hheld
      · exact .inr (.inl (List.mem_cons_self ..))
      · exact .inl hheld
    · exact .inr (.inl (List.mem_cons_of_mem _ ha))
    · exact .inr (.inr hd)

/-- A ticket that waits is dropped. -/
theorem Kept.drop (h : Kept (t ::ₘ held) log) : Kept held (.drop t :: log) where
  proper := ⟨⟨(h.waits t (Multiset.mem_cons_self _ _)).1, (h.waits t (Multiset.mem_cons_self _ _)).2.1⟩, h.proper⟩
  nodup := (Multiset.nodup_cons.1 h.nodup).2
  waits := by
    intro u hu
    obtain ⟨h1, h2, h3⟩ := h.waits u (Multiset.mem_cons_of_mem hu)
    have hne : u ≠ t := fun heq => (Multiset.nodup_cons.1 h.nodup).1 (heq ▸ hu)
    exact ⟨h1, h2, List.not_mem_cons_of_ne_of_not_mem hne h3⟩
  whole := by
    intro u hu
    rcases h.whole u hu with hheld | ha | hd
    · rcases Multiset.mem_cons.1 hheld with rfl | hheld
      · exact .inr (.inr (List.mem_cons_self ..))
      · exact .inl hheld
    · exact .inr (.inl ha)
    · exact .inr (.inr (List.mem_cons_of_mem _ hd))

/-- A ticket that was dropped is dropped once more. -/
theorem Kept.drop_again (h : Kept held log) (hd : t ∈ dropped log) : Kept held (.drop t :: log) where
  proper := ⟨⟨h.proper.handed_of_dropped hd, h.proper.not_answered hd⟩, h.proper⟩
  nodup := h.nodup
  waits := by
    intro u hu
    obtain ⟨h1, h2, h3⟩ := h.waits u hu
    have hne : u ≠ t := fun heq => h3 (heq ▸ hd)
    exact ⟨h1, h2, List.not_mem_cons_of_ne_of_not_mem hne h3⟩
  whole := by
    intro u hu
    exact (h.whole u hu).imp_right (Or.imp_right (List.mem_cons_of_mem _))

theorem Kept.late (h : Kept held log) (ha : t ∈ answered log) : Kept held (.late t :: log) :=
  ⟨⟨ha, h.proper⟩, h.nodup, h.waits, h.whole⟩

/-- A ticket that no longer waits is not there. -/
theorem Kept.miss (h : Kept held log) (hhand : t ∈ handed log) (hnot : t ∉ held) : Kept held (.miss t :: log) :=
  ⟨⟨(h.whole t hhand).resolve_left hnot, h.proper⟩, h.nodup, h.waits, h.whole⟩

end Loopex.System.Tickets
