import Mathlib.Data.List.AList
import Mathlib.Data.List.Induction

/-!
# Finite tables

What an insertion and an erasure do to the entries of a table.

* `length_insert_of_some`, `length_insert_of_none` — how the entries are counted
* `entries_perm` — the entries, with the one of a key first
* `lookup_of_find` — what a search finds is in the table
* `newTable`, `mapValues` — a table of given entries, and one with every value replaced
-/

namespace Loopex.System

variable {κ ν : Type} [DecidableEq κ] {m : AList fun _ : κ => ν} {k : κ} {v w : ν}

/-- The entry of a key, and the others. -/
theorem entries_perm (h : m.lookup k = some w) : m.entries.Perm (⟨k, w⟩ :: (m.erase k).entries) := by
  have hmem : k ∈ m.entries.keys := AList.lookup_isSome.1 (by rw [h]; rfl)
  obtain ⟨w', l, l', -, hsplit, herase⟩ := List.exists_of_kerase hmem
  have hw : m.lookup k = some w' :=
    AList.mem_lookup_iff.2 (by rw [hsplit]; simp)
  obtain rfl := Option.some.inj (h.symm.trans hw)
  change m.entries.Perm (⟨k, w⟩ :: List.kerase k m.entries)
  rw [herase, hsplit]
  exact List.perm_middle

/-- The entries after an insertion. -/
theorem entries_insert_eq : (m.insert k v).entries = ⟨k, v⟩ :: (m.erase k).entries := AList.entries_insert

theorem length_insert_of_some (h : m.lookup k = some w) :
    (m.insert k v).entries.length = m.entries.length := by
  rw [entries_insert_eq, (entries_perm h).length_eq]
  rfl

theorem length_insert_of_none (h : m.lookup k = none) :
    (m.insert k v).entries.length = m.entries.length + 1 := by
  rw [AList.entries_insert_of_notMem (AList.lookup_eq_none.1 h), List.length_cons]

theorem length_erase_le : (m.erase k).entries.length ≤ m.entries.length :=
  (List.kerase_sublist _ _).length_le

theorem lookup_of_mem {e : Sigma fun _ : κ => ν} (h : e ∈ m.entries) : m.lookup e.1 = some e.2 :=
  AList.mem_lookup_iff.2 h

theorem mem_of_lookup (h : m.lookup k = some w) : (⟨k, w⟩ : Sigma fun _ : κ => ν) ∈ m.entries :=
  AList.mem_lookup_iff.1 h

theorem lookup_of_find {p : (Sigma fun _ : κ => ν) → Bool} {e : Sigma fun _ : κ => ν}
    (h : m.entries.find? p = some e) : m.lookup e.1 = some e.2 :=
  lookup_of_mem (List.mem_of_find?_eq_some h)

/-! ## tables of given entries -/

/-- The table of some entries: of several under one key, the last. -/
def newTable (es : List (κ × ν)) : AList fun _ : κ => ν := es.foldl (fun m e => m.insert e.1 e.2) ∅

theorem newTable_concat (es : List (κ × ν)) (e : κ × ν) : newTable (es ++ [e]) = (newTable es).insert e.1 e.2 := by
  simp [newTable]

theorem mem_of_lookup_newTable {es : List (κ × ν)} (h : (newTable es).lookup k = some v) : (k, v) ∈ es := by
  induction es using List.reverseRecOn with
  | nil => simp [newTable] at h
  | append_singleton es e ih =>
    rw [newTable_concat] at h
    by_cases hk : k = e.1
    · subst hk
      rw [AList.lookup_insert] at h
      simp [← Option.some.inj h]
    · rw [AList.lookup_insert_ne hk] at h
      simp [ih h]

theorem mem_newTable {es : List (κ × ν)} : k ∈ newTable es ↔ ∃ v, (k, v) ∈ es := by
  induction es using List.reverseRecOn with
  | nil => simp [newTable]
  | append_singleton es e ih =>
    rw [newTable_concat, AList.mem_insert, ih]
    simp only [List.mem_append, List.mem_singleton]
    constructor
    · rintro (rfl | ⟨v, hv⟩)
      · exact ⟨e.2, .inr rfl⟩
      · exact ⟨v, .inl hv⟩
    · rintro ⟨v, hv | rfl⟩
      · exact .inr ⟨v, hv⟩
      · exact .inl rfl

/-- The table with every value replaced. -/
def mapValues {ν' : Type} (f : ν → ν') (m : AList fun _ : κ => ν) : AList fun _ : κ => ν' where
  entries := m.entries.map fun e => ⟨e.1, f e.2⟩
  nodupKeys := by
    have hkeys : (m.entries.map fun e => (⟨e.1, f e.2⟩ : Sigma fun _ : κ => ν')).keys = m.entries.keys := by
      simp [List.keys, Function.comp_def]
    have h := m.nodupKeys
    unfold List.NodupKeys at h ⊢
    rwa [hkeys]

theorem lookup_mapValues {ν' : Type} (f : ν → ν') : (mapValues f m).lookup k = (m.lookup k).map f := by
  cases h : m.lookup k with
  | some v =>
    apply lookup_of_mem (e := ⟨k, f v⟩)
    exact List.mem_map.2 ⟨⟨k, v⟩, mem_of_lookup h, rfl⟩
  | none =>
    rw [Option.map_none, AList.lookup_eq_none]
    intro hm
    obtain ⟨w, hw⟩ := List.exists_of_mem_keys hm
    obtain ⟨e, he, heq⟩ := List.mem_map.1 hw
    have := lookup_of_mem he
    simp only [Sigma.mk.injEq] at heq
    rw [heq.1, h] at this
    cases this

end Loopex.System
