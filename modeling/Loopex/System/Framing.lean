import Mathlib.Data.List.Forall2
import Mathlib.Data.List.Basic

/-!
# Framed logs

A log is the concatenation of self-delimiting records.  A reader looks at the head of some symbols and
finds a record with its length, or the start of one that is torn off, or neither; `scan` reads record
after record until it stops.

* `whole cut es` — how many of the records `es` lie before a cut;
* `scan_take` — a cut of a log reads back as the records before the cut, and is torn exactly where it does
  not fall between two records;
* `scan_complete` — what reads back completely is a concatenation of records.
-/

namespace Loopex.System

variable {β α : Type}

/-- What a reader finds at the head of a non-empty log. -/
inductive Found (α : Type) where
  | torn
  | corrupt
  | item (a : α) (size : ℕ)
  deriving DecidableEq

/-- A reader makes progress. -/
structure Reader (β α : Type) where
  read : List β → Found α
  pos : ∀ {b a n}, read b = .item a n → 0 < n

/-- How a scan ended, and at which offset. -/
inductive Tail where
  | complete
  | torn (offset : ℕ)
  | corrupt (offset : ℕ)
  deriving DecidableEq

/-- Reads records from an offset on; `items` are those read already, the last one first. -/
def scan (r : Reader β α) (b : List β) (offset : ℕ) (items : List α) : List α × Tail :=
  match b with
  | [] => (items.reverse, .complete)
  | x :: xs =>
    match _h : r.read (x :: xs) with
    | .torn => (items.reverse, .torn offset)
    | .corrupt => (items.reverse, .corrupt offset)
    | .item a n => scan r ((x :: xs).drop n) (offset + n) (a :: items)
termination_by b.length
decreasing_by
  have := r.pos _h
  simp only [List.length_drop, List.length_cons]
  omega

section

variable {r : Reader β α} {b : List β} {offset : ℕ} {items : List α}

@[simp] theorem scan_nil : scan r [] offset items = (items.reverse, .complete) := by
  unfold scan
  rfl

theorem scan_torn (hb : b ≠ []) (h : r.read b = .torn) : scan r b offset items = (items.reverse, .torn offset) := by
  obtain ⟨x, xs, rfl⟩ := List.exists_cons_of_ne_nil hb
  unfold scan
  split <;> simp_all

theorem scan_corrupt (hb : b ≠ []) (h : r.read b = .corrupt) :
    scan r b offset items = (items.reverse, .corrupt offset) := by
  obtain ⟨x, xs, rfl⟩ := List.exists_cons_of_ne_nil hb
  unfold scan
  split <;> simp_all

theorem scan_item {a : α} {n : ℕ} (hb : b ≠ []) (h : r.read b = .item a n) :
    scan r b offset items = scan r (b.drop n) (offset + n) (a :: items) := by
  obtain ⟨x, xs, rfl⟩ := List.exists_cons_of_ne_nil hb
  rw [scan]
  split <;> simp_all

end

/-! ## a cut log -/

/-- How many records lie before a cut. -/
def whole (cut : ℕ) : List (List β) → ℕ
  | [] => 0
  | e :: es => if e.length ≤ cut then whole (cut - e.length) es + 1 else 0

/-- The offset of a record: the length of those before it. -/
def boundary (es : List (List β)) (n : ℕ) : ℕ := (es.take n).flatten.length

@[simp] theorem boundary_zero (es : List (List β)) : boundary es 0 = 0 := by simp [boundary]

@[simp] theorem boundary_cons (e : List β) (es : List (List β)) (n : ℕ) :
    boundary (e :: es) (n + 1) = e.length + boundary es n := by
  simp [boundary]

theorem whole_le (cut : ℕ) (es : List (List β)) : whole cut es ≤ es.length := by
  induction es generalizing cut with
  | nil => simp [whole]
  | cons e es ih =>
    unfold whole
    split
    · simpa using ih _
    · omega

/-- The records counted lie before the cut. -/
theorem boundary_whole_le (cut : ℕ) (es : List (List β)) : boundary es (whole cut es) ≤ cut := by
  induction es generalizing cut with
  | nil => simp [whole]
  | cons e es ih =>
    unfold whole
    split
    · have := ih (cut - e.length)
      rw [boundary_cons]
      omega
    · simp

/-- The next record does not. -/
theorem lt_boundary_whole {cut : ℕ} {es : List (List β)} (h : whole cut es < es.length) :
    cut < boundary es (whole cut es + 1) := by
  induction es generalizing cut with
  | nil => simp at h
  | cons e es ih =>
    unfold whole at h ⊢
    split
    · next he =>
      rw [if_pos he] at h
      have := @ih (cut - e.length) (by simpa using h)
      rw [boundary_cons]
      omega
    · simp
      omega

theorem boundary_mono (es : List (List β)) {m n : ℕ} (h : m ≤ n) : boundary es m ≤ boundary es n := by
  obtain ⟨k, rfl⟩ := Nat.exists_eq_add_of_le h
  rw [boundary, boundary, List.take_add, List.flatten_append, List.length_append]
  exact Nat.le_add_right _ _

/-- The records counted are all that lie before the cut. -/
theorem le_whole {cut n : ℕ} {es : List (List β)} (hn : n ≤ es.length) (h : boundary es n ≤ cut) :
    n ≤ whole cut es := by
  by_contra hlt
  have hnext : whole cut es + 1 ≤ n := by omega
  have h1 := lt_boundary_whole (show whole cut es < es.length by omega)
  have h2 := boundary_mono es hnext
  omega

theorem whole_flatten (es : List (List β)) : whole es.flatten.length es = es.length := by
  apply Nat.le_antisymm (whole_le _ _)
  exact le_whole (Nat.le_refl _) (by simp [boundary])

/-- A reader reads back what an encoding wrote: a whole record whatever follows it, and less than a record
as torn. -/
structure Reads (r : Reader β α) (writes : α → List β → Prop) : Prop where
  whole : ∀ {a e}, writes a e → ∀ rest, r.read (e ++ rest) = .item a e.length
  cut : ∀ {a e n}, writes a e → 0 < n → n < e.length → r.read (e.take n) = .torn

/-- **A cut log reads back** as the records before the cut; what is left of the next one is torn. -/
theorem scan_take {r : Reader β α} {writes : α → List β → Prop} (hr : Reads r writes) {as : List α}
    {es : List (List β)} (h : List.Forall₂ writes as es) (cut offset : ℕ) (items : List α) :
    scan r (es.flatten.take cut) offset items = (items.reverse ++ as.take (whole cut es),
      if boundary es (whole cut es) = (es.flatten.take cut).length then .complete
      else .torn (offset + boundary es (whole cut es))) := by
  induction h generalizing cut offset items with
  | nil => simp [whole]
  | @cons a e as es ha _ ih =>
    have hread := hr.whole ha
    have hpos : 0 < e.length := r.pos (hread [])
    unfold whole
    split
    · next hle =>
      have htake : (e :: es).flatten.take cut = e ++ es.flatten.take (cut - e.length) := by
        rw [List.flatten_cons, List.take_append, List.take_of_length_le hle]
      have hne : e ++ es.flatten.take (cut - e.length) ≠ [] := by
        intro h0
        simp [List.append_eq_nil_iff.1 h0] at hpos
      rw [htake, scan_item hne (hread _), List.drop_left, ih]
      simp only [List.reverse_cons, List.append_assoc, List.cons_append, List.nil_append, List.take_succ_cons,
        boundary_cons, List.length_append, Nat.add_left_cancel_iff, Nat.add_assoc]
    · next hlt =>
      have htake : (e :: es).flatten.take cut = e.take cut := by
        rw [List.flatten_cons, List.take_append_of_le_length (by omega)]
      rw [htake]
      rcases Nat.eq_zero_or_pos cut with rfl | hc
      · simp
      · have hlen : (e.take cut).length = cut := by
          rw [List.length_take]
          omega
        have hne : e.take cut ≠ [] := fun h0 => by simp [h0] at hlen; omega
        rw [scan_torn hne (hr.cut ha hc (by omega)), hlen, if_neg (by simp; omega)]
        simp

/-- A whole log reads back completely. -/
theorem scan_flatten {r : Reader β α} {writes : α → List β → Prop} (hr : Reads r writes) {as : List α}
    {es : List (List β)} (h : List.Forall₂ writes as es) : scan r es.flatten 0 [] = (as, .complete) := by
  have hcut := scan_take hr h es.flatten.length 0 []
  rw [List.take_length, whole_flatten, boundary, List.take_length, if_pos rfl, ← h.length_eq, List.take_length] at hcut
  simpa using hcut

/-! ## what is accepted -/

/-- A reader accepts only what an encoding writes. -/
def Sound (r : Reader β α) (writes : α → List β → Prop) : Prop :=
  ∀ b a n, r.read b = .item a n → n ≤ b.length ∧ writes a (b.take n)

/-- **What reads back completely is a concatenation of records.** -/
theorem scan_complete {r : Reader β α} {writes : α → List β → Prop} (hs : Sound r writes) {b : List β}
    {offset : ℕ} {items as : List α} (h : scan r b offset items = (as, .complete)) :
    ∃ new es, as = items.reverse ++ new ∧ List.Forall₂ writes new es ∧ b = es.flatten := by
  induction hk : b.length using Nat.strongRecOn generalizing b offset items with
  | ind k ih =>
    rcases List.eq_nil_or_concat b with rfl | hb
    · rw [scan_nil] at h
      cases h
      exact ⟨[], [], by simp, .nil, rfl⟩
    have hb : b ≠ [] := by
      obtain ⟨xs, x, rfl⟩ := hb
      simp
    cases hread : r.read b with
    | torn =>
      rw [scan_torn hb hread] at h
      cases h
    | corrupt =>
      rw [scan_corrupt hb hread] at h
      cases h
    | item a n =>
      rw [scan_item hb hread] at h
      obtain ⟨hn, hw⟩ := hs b a n hread
      have hpos := r.pos hread
      obtain ⟨new, es, rfl, hnew, hrest⟩ := ih _ (by rw [List.length_drop]; omega) h rfl
      refine ⟨a :: new, b.take n :: es, by simp, .cons hw hnew, ?_⟩
      rw [List.flatten_cons, ← hrest, List.take_append_drop]

end Loopex.System
