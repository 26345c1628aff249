import Loopex.Store.Envelope
import Loopex.Store.Log

/-!
# Replay

A recovered Store presents the transaction of every frame of its log again, and refuses a log whose frames
are not the ones it would have written.

* `replay` — the state of some frames;
* `prepare_mono` — a new answer does not depend on the fuel of its search;
* `Serves` — a live Store appends the frame of every new answer to an image;
* `replay_serves` — **the frames of a live Store replay to its state**.
-/

namespace Loopex.Store

open Loopex.Erlang Loopex.Erlang.Term Loopex.Runtime Loopex.System

/-! ## replay -/

inductive ReplayError where
  | frameDoesNotMatchTransition
  | duplicateTransactionFrame
  | invalidTransactionFrame
  | invalidFrameSchema
  deriving DecidableEq

variable {access : StructAccess} {fuel fuel' : ℕ} {S S' : State} {T : Transaction} {p : Prepared}
  {kvs : List (Term × Term)}

/-- `replay_frame`. -/
def replayFrame (access : StructAccess) (fuel : ℕ) (S : State) (frame : Term) :
    Attempt (Except ReplayError State) :=
  match frame with
  | .map entries =>
    if lookup (sym "schema_version") entries = some (.int schemaVersion) then
      match lookup (sym "transaction") entries with
      | some (.map kvs) => do
        match ← prepare access fuel S kvs with
        | .new next expected _ =>
          .ok (if looseEq expected.toTerm frame then .ok next else .error .frameDoesNotMatchTransition)
        | .known _ => .ok (.error .duplicateTransactionFrame)
        | .invalid _ => .ok (.error .invalidTransactionFrame)
      | some _ => .error (.raised .functionClause)
      | none => .ok (.error .invalidFrameSchema)
    else .ok (.error .invalidFrameSchema)
  | _ => .ok (.error .invalidFrameSchema)

/-- `replay` from a state and an index on. -/
def replayFrom (access : StructAccess) (fuel : ℕ) :
    State → ℕ → List Term → Attempt (Except (ℕ × ReplayError) State)
  | S, _, [] => .ok (.ok S)
  | S, index, frame :: frames => do
    match ← replayFrame access fuel S frame with
    | .ok next => replayFrom access fuel next (index + 1) frames
    | .error e => .ok (.error (index, e))

/-- `replay`. -/
def replay (access : StructAccess) (fuel : ℕ) (frames : List Term) :
    Attempt (Except (ℕ × ReplayError) State) :=
  replayFrom access fuel State.new 0 frames

theorem replayFrom_cons {frame : Term} {frames : List Term} {index : ℕ}
    (h : replayFrame access fuel S frame = .ok (.ok S')) :
    replayFrom access fuel S index (frame :: frames) = replayFrom access fuel S' (index + 1) frames := by
  simp only [replayFrom, h, bind, Except.bind]

theorem replayFrom_append {frames frames' : List Term} {index : ℕ}
    (h : replayFrom access fuel S index frames = .ok (.ok S')) :
    replayFrom access fuel S index (frames ++ frames') =
      replayFrom access fuel S' (index + frames.length) frames' := by
  induction frames generalizing S index with
  | nil =>
    cases h
    rfl
  | cons frame frames ih =>
    obtain ⟨r, hr, hrest⟩ := Attempt.bind_eq_ok.1 h
    rcases r with e | next
    · cases hrest
    · have hlen : index + (frame :: frames).length = index + 1 + frames.length := by
        rw [List.length_cons]
        omega
      rw [List.cons_append, replayFrom_cons hr, hlen]
      exact ih hrest

/-! ## fuel -/

theorem allocateSessionId_mono {runtimeId commandId : Identifier} {number : ℕ} {r : Identifier × ℕ}
    (hle : fuel ≤ fuel') (h : allocateSessionId S runtimeId commandId fuel number = .ok r) :
    allocateSessionId S runtimeId commandId fuel' number = .ok r := by
  induction fuel generalizing number fuel' with
  | zero => cases h
  | succ fuel ih =>
    obtain ⟨fuel', rfl⟩ : ∃ f, fuel' = f + 1 := ⟨fuel' - 1, by omega⟩
    unfold allocateSessionId at h ⊢
    split at h
    · next ht =>
      rw [if_pos ht]
      exact ih (by omega) h
    · next ht =>
      rw [if_neg ht]
      exact h

theorem linearizeCreate_mono {raw : Term} {t : CreateSession} (hle : fuel ≤ fuel')
    (h : linearizeCreate S T raw t fuel = .ok p) : linearizeCreate S T raw t fuel' = .ok p := by
  unfold linearizeCreate at h ⊢
  simp only at h ⊢
  split at h
  · exact h
  next c hc =>
  obtain ⟨valid, hv, h⟩ := Attempt.bind_eq_ok.1 h
  refine Attempt.bind_eq_ok.2 ⟨valid, hv, ?_⟩
  split at h
  · next hs => rw [if_pos hs, h]
  next hs =>
  rw [if_neg hs]
  split at h
  · next hg => rw [if_pos hg, h]
  next hg =>
  rw [if_neg hg]
  split at h
  · next hn => rw [if_pos hn, h]
  next hn =>
  rw [if_neg hn]
  obtain ⟨x, hx, h⟩ := Attempt.bind_eq_ok.1 h
  obtain ⟨r, hr, hx⟩ := Attempt.bind_eq_ok.1 hx
  exact Attempt.bind_eq_ok.2 ⟨x, Attempt.bind_eq_ok.2 ⟨r, allocateSessionId_mono hle hr, hx⟩, h⟩

theorem linearize_mono {raw : Term} (hle : fuel ≤ fuel') (h : linearize fuel S T raw = .ok p) :
    linearize fuel' S T raw = .ok p := by
  unfold linearize at h ⊢
  split at h
  case h_4 => exact linearizeCreate_mono hle h
  all_goals exact h

/-- **A new answer stays what it is** with more fuel. -/
theorem prepare_mono {frame : Frame} {outcome : Outcome} (hle : fuel ≤ fuel')
    (h : prepare access fuel S kvs = .ok (.new S' frame outcome)) :
    prepare access fuel' S kvs = .ok (.new S' frame outcome) := by
  obtain ⟨T, hT, hn, hl⟩ := linearize_of_new h
  rw [prepare_of_validate hT, hn]
  exact linearize_mono hle hl

/-! ## a live Store -/

/-- What a commit appended to the log, and the state it left. -/
structure Commit where
  frame : Frame
  bytes : Bytes
  state : State

/-- The state of a Store after some commits. -/
def live (commits : List Commit) : State := (commits.getLast?.map Commit.state).getD State.new

def frames (commits : List Commit) : List Term := commits.map fun c => c.frame.toTerm

/-- The log of some commits. -/
def image (commits : List Commit) : Bytes := (commits.map Commit.bytes).flatten

@[simp] theorem live_append (commits : List Commit) (c : Commit) : live (commits ++ [c]) = c.state := by
  simp [live]

/-- A presentation to a live Store: the frame of a new answer is encoded and appended. -/
inductive Serves (access : StructAccess) (commits : List Commit) (kvs : List (Term × Term)) :
    List Commit → Prop
  | known {fuel outcome} : prepare access fuel (live commits) kvs = .ok (.known outcome) →
      Serves access commits kvs commits
  | invalid {fuel outcome} : prepare access fuel (live commits) kvs = .ok (.invalid outcome) →
      Serves access commits kvs commits
  | new {fuel next frame outcome bytes} : Genuine (.map kvs) →
      prepare access fuel (live commits) kvs = .ok (.new next frame outcome) →
      Log.encode frame.toTerm = .ok bytes → Serves access commits kvs (commits ++ [⟨frame, bytes, next⟩])

variable {presented : List (List (Term × Term))} {commits : List Commit}

/-- Every number of commits is that of a run. -/
theorem serves_take (h : Run (Serves access) [] presented commits) (n : ℕ) :
    ∃ presented', Run (Serves access) [] presented' (commits.take n) := by
  induction h with
  | nil => exact ⟨[], by simpa using Run.nil⟩
  | @snoc _ cs kvs cs' hr hs ih =>
    rcases hs with _ | _ | ⟨hg, hp, he⟩
    · exact ih
    · exact ih
    · rcases Nat.lt_or_ge cs.length n with hlt | hle
      · rw [List.take_of_length_le (by rw [List.length_append, List.length_singleton]; omega)]
        exact ⟨_, hr.snoc (.new hg hp he)⟩
      · rw [List.take_append_of_le_length hle]
        exact ih

/-- The log of a live Store is one encoded stored map after another. -/
theorem serves_writes (h : Run (Serves access) [] presented commits) :
    List.Forall₂ (Log.Writes Stored) (frames commits) (commits.map Commit.bytes) := by
  induction h with
  | nil => exact .nil
  | snoc _ hs ih =>
    rcases hs with _ | _ | ⟨hg, hp, he⟩
    · exact ih
    · exact ih
    · rw [frames, List.map_append, List.map_append]
      exact List.rel_append ih (.cons ⟨stored_of_prepare hg hp, rfl, he⟩ .nil)

/-! ## the frames of a live Store -/

theorem Frame.names_apart :
    Apart ["schema_version", "transition_id", "transaction", "resolution", "records", "events"] := by
  decide +kernel

/-- The fields of a frame that replay reads. -/
theorem Frame.lookup_toTerm (f : Frame) : ∃ entries, f.toTerm = .map entries ∧
    lookup (sym "schema_version") entries = some (.int schemaVersion) ∧
    lookup (sym "transaction") entries = some f.transaction := by
  have hfields : ∀ name, lookup (sym name) (Fields.entries [("schema_version", .int schemaVersion),
      ("transition_id", sym f.transition.transition), ("transaction", f.transaction),
      ("resolution", f.resolution.toTerm), ("records", .list (f.records.map Record.toTerm)),
      ("events", .list f.events)]) = Fields.get _ name := lookup_entriesOf_fields Frame.names_apart
  exact ⟨_, rfl, hfields "schema_version", hfields "transaction"⟩

/-- The frame of a new answer is replayed by the same answer. -/
theorem replayFrame_new {frame : Frame} {outcome : Outcome}
    (h : prepare access fuel S kvs = .ok (.new S' frame outcome)) :
    replayFrame access fuel S frame.toTerm = .ok (.ok S') := by
  obtain ⟨T, resolution, records, events, -, -, -, hf, -⟩ := prepare_new h
  have htransaction : frame.transaction = .map kvs := by rw [hf]
  obtain ⟨entries, he, hversion, htx⟩ := frame.lookup_toTerm
  rw [htransaction] at htx
  simp only [he, replayFrame, hversion, if_true, htx, h, bind, Except.bind, looseEq_self]

/-- **The frames of a live Store replay to its state**, with enough fuel. -/
theorem replay_serves (h : Run (Serves access) [] presented commits) :
    ∃ least, ∀ fuel ≥ least, replay access fuel (frames commits) = .ok (.ok (live commits)) := by
  induction h with
  | nil => exact ⟨0, fun _ _ => rfl⟩
  | snoc _ hs ih =>
    rcases hs with _ | _ | @⟨fuel, next, frame, outcome, bytes, -, hp, -⟩
    · exact ih
    · exact ih
    · obtain ⟨least, hleast⟩ := ih
      refine ⟨max least fuel, fun fuel' hle => ?_⟩
      have hframe := replayFrame_new (prepare_mono (Nat.le_trans (Nat.le_max_right _ _) hle) hp)
      have hprefix := hleast fuel' (Nat.le_trans (Nat.le_max_left _ _) hle)
      rw [replay, frames, List.map_append]
      rw [replay, frames] at hprefix
      rw [replayFrom_append hprefix, List.map_singleton, replayFrom_cons hframe, live_append]
      rfl

end Loopex.Store
