import Mathlib.Data.List.Basic
import Mathlib.Tactic.Common

/-!
# Fenced logs

A log with one writer at a time.  The owners are numbered by an epoch: installing an owner raises the
epoch and appends the entry that says so, and every other entry is appended under the stamp, epoch and
owner, in force.  A history is the list of what was done; the entries and the stamp are computed from it.

* `entries_getElem?` — entry `i` carries version `v + i` and the stamp in force after it;
* `afterAll_take_succ` — the stamp changes only at an installation;
* `afterAll_epoch` — the epoch counts the installations;
* `afterAll_latest` — the stamp in force is that of the latest installation.
-/

namespace Loopex.System.FencedLog

variable {ω π : Type}

/-- The epoch and the owner in force. -/
structure Stamp (ω : Type) where
  epoch : ℕ
  owner : Option ω
  deriving DecidableEq

/-- What is done to a log. -/
inductive Act (ω π : Type) where
  | install (owner : ω) (payload : π)
  | append (payload : π)

namespace Act

def payload : Act ω π → π
  | install _ p => p
  | append p => p

def owner? : Act ω π → Option ω
  | install o _ => some o
  | append _ => none

end Act

namespace Stamp

/-- The stamp in force after an act. -/
def after (s : Stamp ω) : Act ω π → Stamp ω
  | .install o _ => ⟨s.epoch + 1, some o⟩
  | .append _ => s

/-- The stamp in force after a history. -/
def afterAll (s : Stamp ω) (acts : List (Act ω π)) : Stamp ω := acts.foldl after s

@[simp] theorem afterAll_nil (s : Stamp ω) : s.afterAll ([] : List (Act ω π)) = s := rfl

@[simp] theorem afterAll_cons (s : Stamp ω) (a : Act ω π) (acts : List (Act ω π)) :
    s.afterAll (a :: acts) = (s.after a).afterAll acts := rfl

@[simp] theorem afterAll_append (s : Stamp ω) (acts acts' : List (Act ω π)) :
    s.afterAll (acts ++ acts') = (s.afterAll acts).afterAll acts' := by
  simp [afterAll]

/-- Appending leaves the stamp. -/
theorem afterAll_map_append (s : Stamp ω) (payloads : List π) :
    s.afterAll (payloads.map Act.append) = s := by
  induction payloads with
  | nil => rfl
  | cons p payloads ih => simpa [after] using ih

end Stamp

/-- A stamped entry, with the act it records. -/
structure LogEntry (ω π : Type) where
  version : ℕ
  stamp : Stamp ω
  act : Act ω π

/-- The entries of a history, from a stamp and a version on. -/
def entries (s : Stamp ω) (version : ℕ) : List (Act ω π) → List (LogEntry ω π)
  | [] => []
  | a :: acts => ⟨version, s.after a, a⟩ :: entries (s.after a) (version + 1) acts

variable {s : Stamp ω} {version : ℕ} {acts acts' : List (Act ω π)}

@[simp] theorem entries_length : (entries s version acts).length = acts.length := by
  induction acts generalizing s version with
  | nil => rfl
  | cons a acts ih => simp [entries, ih]

theorem entries_append : entries s version (acts ++ acts') =
    entries s version acts ++ entries (s.afterAll acts) (version + acts.length) acts' := by
  induction acts generalizing s version with
  | nil => simp [entries]
  | cons a acts ih =>
    simp only [List.cons_append, entries, Stamp.afterAll_cons, List.length_cons, ih]
    rw [Nat.add_assoc, Nat.add_comm 1]

/-- **An entry carries its position and the stamp in force after it.** -/
theorem entries_getElem? (i : ℕ) : (entries s version acts)[i]? =
    acts[i]?.map fun a => ⟨version + i, s.afterAll (acts.take (i + 1)), a⟩ := by
  induction acts generalizing s version i with
  | nil => simp [entries]
  | cons a acts ih =>
    cases i with
    | zero => simp [entries]
    | succ i =>
      simp only [entries, List.getElem?_cons_succ, List.take_succ_cons, Stamp.afterAll_cons, ih]
      rw [Nat.add_assoc, Nat.add_comm 1]

/-- The stamp after one more act of a history. -/
theorem afterAll_take_succ {i : ℕ} {a : Act ω π} (h : acts[i]? = some a) :
    s.afterAll (acts.take (i + 1)) = (s.afterAll (acts.take i)).after a := by
  obtain ⟨hi, rfl⟩ := List.getElem?_eq_some_iff.1 h
  rw [List.take_succ_eq_append_getElem hi, Stamp.afterAll_append]
  rfl

/-- **The epoch counts the installations.** -/
theorem afterAll_epoch (s : Stamp ω) (acts : List (Act ω π)) :
    (s.afterAll acts).epoch = s.epoch + acts.countP fun a => a.owner?.isSome := by
  induction acts generalizing s with
  | nil => simp
  | cons a acts ih =>
    rw [Stamp.afterAll_cons, ih]
    cases a <;> simp [Stamp.after, Act.owner?]
    omega

/-- The latest installation of a history puts its stamp in force: `n` acts, of which act `v` installed
`owner` and no later one installed any. -/
def Latest (s : Stamp ω) (acts : List (Act ω π)) (n v : ℕ) (owner : ω) : Prop :=
  v < n ∧ (acts[v]?.bind Act.owner?) = some owner ∧
    (s.afterAll (acts.take n)) = ⟨(s.afterAll (acts.take (v + 1))).epoch, some owner⟩ ∧
    ∀ v', v < v' → v' < n → (acts[v']?.bind Act.owner?) = none

/-- **The stamp in force is that of the latest installation**, or the first where there was none. -/
theorem afterAll_latest (acts : List (Act ω π)) (n : ℕ) : (s.afterAll (acts.take n) = s ∧
      ∀ v < n, (acts[v]?.bind Act.owner?) = none) ∨ ∃ v owner, Latest s acts n v owner := by
  induction n with
  | zero => exact .inl ⟨by simp, by simp⟩
  | succ n ih =>
    cases ha : acts[n]? with
    | none =>
      have hlen : acts.length ≤ n := List.getElem?_eq_none_iff.1 ha
      have htake : acts.take (n + 1) = acts.take n := by
        rw [List.take_of_length_le (by omega), List.take_of_length_le hlen]
      have hlast : ∀ v, v < n + 1 → ¬ v < n → (acts[v]?.bind Act.owner?) = none := by
        intro v h1 h2
        obtain rfl : v = n := by omega
        simp [ha]
      rcases ih with ⟨hs, hv⟩ | ⟨v, owner, hv, ho, hs, hl⟩
      · exact .inl ⟨htake ▸ hs, fun v h => if h' : v < n then hv v h' else hlast v h h'⟩
      · exact .inr ⟨v, owner, by omega, ho, htake ▸ hs,
          fun v' h h' => if h'' : v' < n then hl v' h h'' else hlast v' h' h''⟩
    | some a =>
      have hstep := afterAll_take_succ (s := s) ha
      cases a with
      | install owner p =>
        refine .inr ⟨n, owner, by omega, by simp [ha, Act.owner?], ?_, fun v' h h' => by omega⟩
        rw [hstep]
        rfl
      | append p =>
        have hlast : ∀ v, v < n + 1 → ¬ v < n → (acts[v]?.bind Act.owner?) = none := by
          intro v h1 h2
          obtain rfl : v = n := by omega
          simp [ha, Act.owner?]
        rcases ih with ⟨hs, hv⟩ | ⟨v, owner, hv, ho, hs, hl⟩
        · exact .inl ⟨by rw [hstep, hs]; rfl,
            fun v h => if h' : v < n then hv v h' else hlast v h h'⟩
        · exact .inr ⟨v, owner, by omega, ho, by rw [hstep, ← hs]; rfl,
            fun v' h h' => if h'' : v' < n then hl v' h h'' else hlast v' h' h''⟩

end Loopex.System.FencedLog
