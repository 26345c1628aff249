import Loopex.Store.Item
import Loopex.System.Tables

/-!
# Quiescing a runtime: admissions and classification

While a runtime drains, its phase owner collects one admission for each session, asks the admitted ones
whether their run has ended, and sorts the sessions into settled, unsettled and absent.  A session whose
writer could not be fenced is unsettled whatever it was before.

* `collectAdmissionNotices_definitive` — a definitive admission is never replaced;
* `classifySessions_mem` — every frozen session is sorted, into one list;
* `applyFenceClassification_partition` — and still is, after the fences.
-/

namespace Loopex.Runtime.Quiesce

open Loopex.Erlang Loopex.Erlang.Term Loopex.Store Loopex.System

abbrev Session := Bytes
abbrev Pid := ℕ
abbrev Ref := ℕ

/-- A session of the frozen census, with the process that coordinates it. -/
structure Entry where
  sessionId : Session
  coordinator : Term
  deriving DecidableEq

/-! ## admissions -/

/-- What a session answers to the drain's abort. -/
inductive Admission where
  | admitted (result : Term) | rejectedNoActiveRun | unknown (result : Term) | candidate (result : Term)
  | absent | unsettled | error (reason : Term) | other (reply : Term)
  deriving DecidableEq

abbrev Admissions := AList fun _ : Session => Admission

/-- `definitive_admission?`. -/
def definitiveAdmission : Admission → Bool
  | .admitted _ | .rejectedNoActiveRun | .unknown _ => true
  | _ => false

/-- `merge_admission_notice`. -/
def mergeAdmissionNotice (current reply : Admission) : Admission :=
  if definitiveAdmission current then current
  else if definitiveAdmission reply then reply
  else match reply with
    | .candidate _ => reply
    | _ => current

/-- A notice of a session about its admission. -/
structure AdmissionNotice where
  sessionId : Session
  coordinator : Term
  reply : Admission

/-- The frozen census by session. -/
def entryTable (entries : List Entry) : AList fun _ : Session => Entry :=
  newTable (entries.map fun e => (e.sessionId, e))

/-- `merge_admission_message`: only the coordinator of the census speaks for its session. -/
def mergeAdmissionMessage (entries : AList fun _ : Session => Entry) (admissions : Admissions)
    (notice : AdmissionNotice) : Admissions :=
  match entries.lookup notice.sessionId with
  | some entry =>
    if entry.coordinator = notice.coordinator then
      match admissions.lookup notice.sessionId with
      | some current => admissions.insert notice.sessionId (mergeAdmissionNotice current notice.reply)
      | none => admissions.insert notice.sessionId notice.reply
    else admissions
  | none => admissions

/-- `collect_admission_notices`: the notices waiting in the mailbox, in their order. -/
def collectAdmissionNotices (admissions : Admissions) (entries : List Entry) (notices : List AdmissionNotice) :
    Admissions :=
  notices.foldl (mergeAdmissionMessage (entryTable entries)) admissions

theorem mergeAdmissionNotice_definitive {current : Admission} (h : definitiveAdmission current = true)
    (reply : Admission) : mergeAdmissionNotice current reply = current := by
  simp [mergeAdmissionNotice, h]

theorem mergeAdmissionMessage_definitive {entries : AList fun _ : Session => Entry} {admissions : Admissions}
    {session : Session} {a : Admission} (h : admissions.lookup session = some a)
    (ha : definitiveAdmission a = true) (notice : AdmissionNotice) :
    (mergeAdmissionMessage entries admissions notice).lookup session = some a := by
  unfold mergeAdmissionMessage
  split
  · split
    · by_cases hs : session = notice.sessionId
      · subst hs
        rw [h]
        dsimp only
        rw [mergeAdmissionNotice_definitive ha, AList.lookup_insert]
      · split
        · rw [AList.lookup_insert_ne hs, h]
        · rw [AList.lookup_insert_ne hs, h]
    · exact h
  · exact h

/-- **A definitive admission is never replaced**, whatever notices arrive in whatever order. -/
theorem collectAdmissionNotices_definitive {admissions : Admissions} {entries : List Entry} {session : Session}
    {a : Admission} (h : admissions.lookup session = some a) (ha : definitiveAdmission a = true)
    (notices : List AdmissionNotice) :
    (collectAdmissionNotices admissions entries notices).lookup session = some a := by
  unfold collectAdmissionNotices
  induction notices generalizing admissions with
  | nil => exact h
  | cons notice notices ih => exact ih (mergeAdmissionMessage_definitive h ha notice)

/-! ## workers -/

/-- What ends a loop of the phase owner. -/
inductive Outcome (α : Type) where
  | ok (a : α)
  | unavailable
  | callerLost
  | crashed
  | waiting

/-- What the owner of some workers receives; `timeout` is the `after` of its `receive`. -/
inductive WorkerEvent (ρ : Type) where
  | finished (pid : Pid) (sessionId : Session) (result : ρ)
  | exited (pid : Pid)
  | callerDown
  | controlDown
  | timeout

section Workers

variable {ρ : Type}

/-- `within_outer`. -/
def withinOuter {α : Type} (outer now : ℤ) (a : α) : Outcome α := if now > outer then .unavailable else .ok a

/-- `collect_workers`, over the events it receives, each with the clock when the loop goes round. -/
def collectWorkers (unavailable : ρ) (outer : ℤ) (now : ℤ) (workers : AList fun _ : Pid => Session)
    (results : AList fun _ : Session => ρ) (killed : Bool) :
    List (WorkerEvent ρ × ℤ) → Outcome (AList fun _ : Session => ρ)
  | [] => if workers.entries.isEmpty then withinOuter outer now results else .waiting
  | (event, next) :: events =>
    if workers.entries.isEmpty then withinOuter outer now results
    else match event with
    | .finished pid sessionId result =>
      match workers.lookup pid with
      | some expected =>
        if expected = sessionId then
          collectWorkers unavailable outer next (workers.erase pid) (results.insert sessionId result) killed
            events
        else .crashed
      | none => collectWorkers unavailable outer next workers results killed events
    | .exited pid =>
      match workers.lookup pid with
      | some sessionId =>
        collectWorkers unavailable outer next (workers.erase pid) (results.insert sessionId unavailable)
          killed events
      | none => collectWorkers unavailable outer next workers results killed events
    | .callerDown => .callerLost
    | .controlDown => .unavailable
    | .timeout =>
      if killed then .unavailable
      else collectWorkers unavailable outer next workers results true events

theorem withinOuter_eq_ok {α : Type} {outer now : ℤ} {a b : α} (h : withinOuter outer now a = .ok b) : a = b := by
  unfold withinOuter at h
  split at h <;> cases h
  rfl

theorem lookup_of_isEmpty {workers : AList fun _ : Pid => Session} (h : workers.entries.isEmpty = true) (pid : Pid) :
    workers.lookup pid = none := by
  rw [AList.lookup_eq_none, AList.mem_keys, AList.keys, List.isEmpty_iff.1 h]
  simp

/-- A worker that is done hands its session over to the results. -/
theorem mem_handed {workers : AList fun _ : Pid => Session} {results : AList fun _ : Session => ρ} {pid : Pid}
    {s t : Session} {r : ρ} (ht : workers.lookup pid = some t) :
    (s ∈ results.insert t r ∨ ∃ p, (workers.erase pid).lookup p = some s) ↔
      (s ∈ results ∨ ∃ p, workers.lookup p = some s) := by
  rw [AList.mem_insert]
  constructor
  · rintro ((rfl | hs) | ⟨p, hp⟩)
    · exact .inr ⟨pid, ht⟩
    · exact .inl hs
    · have hne : p ≠ pid := by
        rintro rfl
        rw [AList.lookup_erase] at hp
        cases hp
      exact .inr ⟨p, by rwa [AList.lookup_erase_ne hne] at hp⟩
  · rintro (hs | ⟨p, hp⟩)
    · exact .inl (.inr hs)
    · by_cases hpid : p = pid
      · subst hpid
        exact .inl (.inl (Option.some.inj (hp.symm.trans ht)))
      · exact .inr ⟨p, by rwa [AList.lookup_erase_ne hpid]⟩

/-- What an ended census answers for: what it answered for before, and its workers' sessions. -/
theorem collectWorkers_mem {unavailable : ρ} {outer now : ℤ} {workers : AList fun _ : Pid => Session}
    {results results' : AList fun _ : Session => ρ} {killed : Bool} {events : List (WorkerEvent ρ × ℤ)}
    (h : collectWorkers unavailable outer now workers results killed events = .ok results') (s : Session) :
    s ∈ results' ↔ s ∈ results ∨ ∃ pid, workers.lookup pid = some s := by
  induction events generalizing now workers results killed with
  | nil =>
    simp only [collectWorkers] at h
    split at h
    · next he =>
      obtain rfl := withinOuter_eq_ok h
      simp [lookup_of_isEmpty he]
    · cases h
  | cons e events ih =>
    obtain ⟨event, next⟩ := e
    simp only [collectWorkers] at h
    split at h
    · next he =>
      obtain rfl := withinOuter_eq_ok h
      simp [lookup_of_isEmpty he]
    · split at h
      · next pid sessionId result =>
        split at h
        · next expected hl =>
          split at h
          · next heq =>
            subst heq
            rw [ih h, mem_handed hl]
          · cases h
        · exact ih h
      · next pid =>
        split at h
        · next sessionId hl => rw [ih h, mem_handed hl]
        · exact ih h
      · cases h
      · cases h
      · split at h
        · cases h
        · exact ih h

end Workers

/-! ## classification -/

/-- What the census makes of a session; `unavailable` is a status that could not be read. -/
inductive Disposition where
  | settled | unsettled | absent | unavailable
  deriving DecidableEq

/-- The parts of a session's status the census reads. -/
structure Status where
  activeRunId : Term
  pendingWorkIds : List Term

/-- What comes of asking for a status: an answer, a refusal, or an exception in the worker that asks. -/
inductive StatusReply where
  | status (s : Status)
  | unavailable
  | raised

/-- `classify_status`, in its worker. -/
def classifyStatus (reply : StatusReply) (runId : Term) : Disposition :=
  match reply with
  | .status s => if s.activeRunId ≠ runId ∧ runId ∉ s.pendingWorkIds then .settled else .unsettled
  | .unavailable => .unsettled
  | .raised => .unavailable

/-- The run an admission names, `result.run_id`. -/
def admittedRun : Admission → Option Term
  | .admitted (.map kvs) => lookup (sym "run_id") kvs
  | _ => none

/-- What `classify_sessions` knows of a session without asking it; `none` for one it asks. -/
def knownDisposition (a : Option Admission) : Option Disposition :=
  match a with
  | some .rejectedNoActiveRun => some .settled
  | some .absent => some .absent
  | some a => if (admittedRun a).isSome then none else some .unsettled
  | none => some .unsettled

/-- One session of the census: a worker, numbered in the order they are spawned, or a result. -/
def classifyEntry (admissions : Admissions)
    (acc : AList (fun _ : Pid => Session) × AList fun _ : Session => Disposition) (entry : Entry) :
    AList (fun _ : Pid => Session) × AList fun _ : Session => Disposition :=
  match knownDisposition (admissions.lookup entry.sessionId) with
  | some disposition => (acc.1, acc.2.insert entry.sessionId disposition)
  | none => (acc.1.insert acc.1.entries.length entry.sessionId, acc.2)

/-- The worker of a session asks for its status, and holds it against the run its admission names. -/
def classifyEvent (admissions : Admissions) : WorkerEvent StatusReply → WorkerEvent Disposition
  | .finished pid sessionId reply =>
    .finished pid sessionId
      (classifyStatus reply (((admissions.lookup sessionId).bind admittedRun).getD nil))
  | .exited pid => .exited pid
  | .callerDown => .callerDown
  | .controlDown => .controlDown
  | .timeout => .timeout

structure Classification where
  settled : List Session
  unsettled : List Session
  absent : List Session
  deriving DecidableEq

/-- `Enum.sort` of session ids. -/
def sortSessions (ids : List Session) : List Session := ids.mergeSort fun a b => decide (a ≤ b)

/-- `ids_with`, for the results that `p` holds of. -/
def idsWith (results : AList fun _ : Session => Disposition) (p : Disposition → Bool) : List Session :=
  sortSessions ((results.entries.filter fun e => p e.2).map Sigma.fst)

/-- The lists of `classify_sessions`: `ids_with` and `ids_without_settled_or_absent`. -/
def classification (results : AList fun _ : Session => Disposition) : Classification where
  settled := idsWith results (· = .settled)
  unsettled := idsWith results fun d => ¬ (d = .settled ∨ d = .absent)
  absent := idsWith results (· = .absent)

/-- `classify_sessions`. -/
def classifySessions (entries : List Entry) (admissions : Admissions) (outer now : ℤ)
    (events : List (WorkerEvent StatusReply × ℤ)) : Outcome Classification :=
  let (workers, initial) := entries.foldl (classifyEntry admissions) (∅, ∅)
  match collectWorkers .unavailable outer now workers initial false
      (events.map fun e => (classifyEvent admissions e.1, e.2)) with
  | .ok results => .ok (classification results)
  | .unavailable => .unavailable
  | .callerLost => .callerLost
  | .crashed => .crashed
  | .waiting => .waiting

/-- `apply_fence_classification`: what was not fenced is unsettled. -/
def applyFenceClassification (c : Classification) (fences : AList fun _ : Session => Term) : Classification :=
  let unsettledByFence := (fences.entries.filter fun e => e.2 ≠ sym "committed").map Sigma.fst
  { settled := c.settled.filter (· ∉ unsettledByFence)
    absent := c.absent.filter (· ∉ unsettledByFence)
    unsettled := sortSessions (c.unsettled ++ unsettledByFence).dedup }

/-! ### every session is sorted -/

/-- Who is classified or asked after some entries of the census; the workers are numbered from 0. -/
structure Asked (sessions : List Session)
    (acc : AList (fun _ : Pid => Session) × AList fun _ : Session => Disposition) : Prop where
  numbered : ∀ pid ∈ acc.1, pid < acc.1.entries.length
  mem : ∀ s, (s ∈ acc.2 ∨ ∃ pid, acc.1.lookup pid = some s) ↔ s ∈ sessions

theorem Asked.classifyEntry {sessions : List Session}
    {acc : AList (fun _ : Pid => Session) × AList fun _ : Session => Disposition} (h : Asked sessions acc)
    (admissions : Admissions) (entry : Entry) :
    Asked (sessions ++ [entry.sessionId]) (classifyEntry admissions acc entry) := by
  unfold Quiesce.classifyEntry
  split
  · refine ⟨h.numbered, fun s => ?_⟩
    rw [List.mem_append, ← h.mem, AList.mem_insert, List.mem_singleton]
    tauto
  · have hnew : acc.1.lookup acc.1.entries.length = none := by
      rw [AList.lookup_eq_none]
      exact fun hm => absurd (h.numbered _ hm) (lt_irrefl _)
    have hlen := length_insert_of_none (v := entry.sessionId) hnew
    refine ⟨fun pid hpid => ?_, fun s => ?_⟩
    · rw [AList.mem_insert] at hpid
      rw [hlen]
      rcases hpid with rfl | hpid
      · exact Nat.lt_succ_self _
      · exact (h.numbered pid hpid).trans (Nat.lt_succ_self _)
    · rw [List.mem_append, ← h.mem, List.mem_singleton]
      constructor
      · rintro (hs | ⟨pid, hpid⟩)
        · exact .inl (.inl hs)
        · by_cases hp : pid = acc.1.entries.length
          · subst hp
            rw [AList.lookup_insert] at hpid
            exact .inr (Option.some.inj hpid).symm
          · rw [AList.lookup_insert_ne hp] at hpid
            exact .inl (.inr ⟨pid, hpid⟩)
      · rintro ((hs | ⟨pid, hpid⟩) | rfl)
        · exact .inl hs
        · have hp : pid ≠ acc.1.entries.length := by
            rintro rfl
            rw [hnew] at hpid
            cases hpid
          exact .inr ⟨pid, by rwa [AList.lookup_insert_ne hp]⟩
        · exact .inr ⟨_, AList.lookup_insert _⟩

theorem asked_foldl (admissions : Admissions) (entries : List Entry) :
    Asked (entries.map Entry.sessionId) (entries.foldl (classifyEntry admissions) (∅, ∅)) := by
  induction entries using List.reverseRecOn with
  | nil => exact ⟨by simp, by simp⟩
  | append_singleton entries entry ih =>
    rw [List.foldl_append, List.map_append]
    exact ih.classifyEntry admissions entry

/-- A classification comes of results for exactly the frozen sessions. -/
theorem classifySessions_eq_ok {entries : List Entry} {admissions : Admissions} {outer now : ℤ}
    {events : List (WorkerEvent StatusReply × ℤ)} {c : Classification}
    (h : classifySessions entries admissions outer now events = .ok c) :
    ∃ results, c = classification results ∧ ∀ s, s ∈ results ↔ s ∈ entries.map Entry.sessionId := by
  unfold classifySessions at h
  dsimp only at h
  split at h <;> cases h
  next results hr => exact ⟨results, rfl, fun s => (collectWorkers_mem hr s).trans ((asked_foldl _ _).mem s)⟩

theorem mem_sortSessions {ids : List Session} {s : Session} : s ∈ sortSessions ids ↔ s ∈ ids :=
  (List.mergeSort_perm _ _).mem_iff

theorem mem_idsWith {results : AList fun _ : Session => Disposition} {p : Disposition → Bool} {s : Session} :
    s ∈ idsWith results p ↔ ∃ d, results.lookup s = some d ∧ p d = true := by
  simp only [idsWith, mem_sortSessions, List.mem_map, List.mem_filter]
  constructor
  · rintro ⟨e, ⟨he, hp⟩, rfl⟩
    exact ⟨e.2, lookup_of_mem he, hp⟩
  · rintro ⟨d, hd, hp⟩
    exact ⟨⟨s, d⟩, ⟨mem_of_lookup hd, hp⟩, rfl⟩

/-- The sessions that have no committed fence. -/
theorem mem_unfenced {fences : AList fun _ : Session => Term} {s : Session} :
    s ∈ (fences.entries.filter fun e => e.2 ≠ sym "committed").map Sigma.fst ↔
      ∃ t, fences.lookup s = some t ∧ t ≠ sym "committed" := by
  simp only [List.mem_map, List.mem_filter, decide_eq_true_eq]
  constructor
  · rintro ⟨e, ⟨he, hp⟩, rfl⟩
    exact ⟨e.2, lookup_of_mem he, hp⟩
  · rintro ⟨t, ht, hp⟩
    exact ⟨⟨s, t⟩, ⟨mem_of_lookup ht, hp⟩, rfl⟩

/-- The three lists are a partition of the sessions, and the settled and the absent ones are fenced. -/
structure Partition (c : Classification) (sessions : List Session) (fences : AList fun _ : Session => Term) :
    Prop where
  settled_unsettled : c.settled.Disjoint c.unsettled
  settled_absent : c.settled.Disjoint c.absent
  unsettled_absent : c.unsettled.Disjoint c.absent
  all : ∀ s, s ∈ sessions ↔ s ∈ c.settled ∨ s ∈ c.unsettled ∨ s ∈ c.absent
  fenced : ∀ s, s ∈ c.settled ∨ s ∈ c.absent → fences.lookup s = some (sym "committed")

/-- **After the fences every frozen session is in exactly one list**, and only a fenced one is settled or
absent. -/
theorem applyFenceClassification_partition {results : AList fun _ : Session => Disposition}
    {fences : AList fun _ : Session => Term} {sessions : List Session}
    (hr : ∀ s, s ∈ results ↔ s ∈ sessions) (hf : ∀ s, s ∈ fences ↔ s ∈ sessions) :
    Partition (applyFenceClassification (classification results) fences) sessions fences := by
  have hsettled : ∀ s, s ∈ (applyFenceClassification (classification results) fences).settled ↔
      results.lookup s = some .settled ∧ ¬ ∃ t, fences.lookup s = some t ∧ t ≠ sym "committed" := by
    intro s
    simp only [applyFenceClassification, classification, List.mem_filter, decide_eq_true_eq, mem_unfenced,
      mem_idsWith]
    simp
  have habsent : ∀ s, s ∈ (applyFenceClassification (classification results) fences).absent ↔
      results.lookup s = some .absent ∧ ¬ ∃ t, fences.lookup s = some t ∧ t ≠ sym "committed" := by
    intro s
    simp only [applyFenceClassification, classification, List.mem_filter, decide_eq_true_eq, mem_unfenced,
      mem_idsWith]
    simp
  have hunsettled : ∀ s, s ∈ (applyFenceClassification (classification results) fences).unsettled ↔
      (∃ d, results.lookup s = some d ∧ d ≠ .settled ∧ d ≠ .absent) ∨
        ∃ t, fences.lookup s = some t ∧ t ≠ sym "committed" := by
    intro s
    simp only [applyFenceClassification, classification, mem_sortSessions, List.mem_dedup, List.mem_append,
      mem_unfenced, mem_idsWith]
    simp
  refine ⟨fun s h1 h2 => ?_, fun s h1 h2 => ?_, fun s h1 h2 => ?_, fun s => ?_, fun s h => ?_⟩
  · obtain ⟨hs, hn⟩ := (hsettled s).1 h1
    rcases (hunsettled s).1 h2 with ⟨d, hd, hne, -⟩ | hu
    · rw [hs] at hd
      exact hne (Option.some.inj hd).symm
    · exact hn hu
  · have := ((hsettled s).1 h1).1.symm.trans ((habsent s).1 h2).1
    cases this
  · obtain ⟨hs, hn⟩ := (habsent s).1 h2
    rcases (hunsettled s).1 h1 with ⟨d, hd, -, hne⟩ | hu
    · rw [hs] at hd
      exact hne (Option.some.inj hd).symm
    · exact hn hu
  · rw [hsettled, hunsettled, habsent, ← hr]
    constructor
    · intro hs
      obtain ⟨d, hd⟩ := Option.isSome_iff_exists.1 (AList.lookup_isSome.2 hs)
      by_cases hu : ∃ t, fences.lookup s = some t ∧ t ≠ sym "committed"
      · exact .inr (.inl (.inr hu))
      · cases d with
        | settled => exact .inl ⟨hd, hu⟩
        | absent => exact .inr (.inr ⟨hd, hu⟩)
        | unsettled => exact .inr (.inl (.inl ⟨_, hd, by simp⟩))
        | unavailable => exact .inr (.inl (.inl ⟨_, hd, by simp⟩))
    · rintro (⟨hd, -⟩ | (⟨d, hd, -⟩ | ⟨t, ht, -⟩) | ⟨hd, -⟩)
      · exact AList.lookup_isSome.1 (by rw [hd]; rfl)
      · exact AList.lookup_isSome.1 (by rw [hd]; rfl)
      · rw [hr, ← hf]
        exact AList.lookup_isSome.1 (by rw [ht]; rfl)
      · exact AList.lookup_isSome.1 (by rw [hd]; rfl)
  · have hn : ¬ ∃ t, fences.lookup s = some t ∧ t ≠ sym "committed" := by
      rcases h with h | h
      · exact ((hsettled s).1 h).2
      · exact ((habsent s).1 h).2
    have hmem : s ∈ results := by
      rcases h with h | h
      · exact AList.lookup_isSome.1 (by rw [((hsettled s).1 h).1]; rfl)
      · exact AList.lookup_isSome.1 (by rw [((habsent s).1 h).1]; rfl)
    obtain ⟨t, ht⟩ := Option.isSome_iff_exists.1 (AList.lookup_isSome.2 ((hf s).2 ((hr s).1 hmem)))
    by_cases hc : t = sym "committed"
    · rw [ht, hc]
    · exact absurd ⟨t, ht, hc⟩ hn

end Loopex.Runtime.Quiesce
