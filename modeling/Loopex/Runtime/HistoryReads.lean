import Loopex.Store.Pages
import Loopex.Store.CreationPaging

/-!
# Reads of a retained history

Three readers of a journal, each of them a loop over pages of the Store while other transactions commit.

* `Observed` — the Stores that the calls of a reader reach, one after another
* `RunEvidence.read` — the evidence of a run, from the prefix of the journal up to a captured head
* `SessionCoordinator.loadPages` — a whole journal, or all the events of a session
* `Control.collectReceiptRecords` — a range of a journal
* `RunEvidence.read_captured`, `SessionCoordinator.load_all_records`, `Control.collected_range` — **every reader
  has read a piece of the journal as it stood at one moment**
-/

namespace Loopex.Runtime

open Loopex.Erlang Loopex.Erlang.Term Loopex.Store Loopex.Store.CreationProvenance Loopex.System

variable {access : StructAccess} {S S' : State} {stores : ℕ → Option State} {presented : List (List (Term × Term))}
  {id : Identifier}

/-! ## what a reader reaches -/

/-- The Stores that the calls of a reader reach, in the order of the calls: states of one run, or no answer. -/
def Observed (access : StructAccess) (stores : ℕ → Option State) : Prop :=
  ∀ m n S S', m ≤ n → stores m = some S → stores n = some S' →
    Reachable access S ∧ ∃ presented, Run (Presents access) S presented S'

theorem recordsOf_run (h : Run (Presents access) S presented S') (id : Identifier) :
    S.recordsOf id <+: S'.recordsOf id := by
  unfold State.recordsOf
  cases hl : S.sessions.lookup id with
  | none => exact List.nil_prefix
  | some s =>
    obtain ⟨s', hl', hg⟩ := grows_run h id s hl
    rw [hl']
    exact hg.records

theorem eventsOf_run (h : Run (Presents access) S presented S') (id : Identifier) :
    S.eventsOf id <+: S'.eventsOf id := by
  unfold State.eventsOf
  cases hl : S.sessions.lookup id with
  | none => exact List.nil_prefix
  | some s =>
    obtain ⟨s', hl', hg⟩ := grows_run h id s hl
    rw [hl']
    exact hg.events

/-- The journal of a session, as each call finds it. -/
def journals (stores : ℕ → Option State) (id : Identifier) (n : ℕ) : Option (List Record) :=
  (stores n).map fun S => S.recordsOf id

/-- The events of a session, as each call finds them. -/
def outboxes (stores : ℕ → Option State) (id : Identifier) (n : ℕ) : Option (List Term) :=
  (stores n).map fun S => S.eventsOf id

namespace Observed

theorem reachable (h : Observed access stores) {n : ℕ} (hn : stores n = some S) : Reachable access S :=
  (h n n S S le_rfl hn hn).1

theorem growing_journals (h : Observed access stores) (id : Identifier) : Growing (journals stores id) := by
  intro m n xs ys hle hm hn
  obtain ⟨S, hS, rfl⟩ := Option.map_eq_some_iff.1 hm
  obtain ⟨S', hS', rfl⟩ := Option.map_eq_some_iff.1 hn
  obtain ⟨-, presented, hrun⟩ := h m n S S' hle hS hS'
  exact recordsOf_run hrun id

theorem growing_outboxes (h : Observed access stores) (id : Identifier) : Growing (outboxes stores id) := by
  intro m n xs ys hle hm hn
  obtain ⟨S, hS, rfl⟩ := Option.map_eq_some_iff.1 hm
  obtain ⟨S', hS', rfl⟩ := Option.map_eq_some_iff.1 hn
  obtain ⟨-, presented, hrun⟩ := h m n S S' hle hS hS'
  exact eventsOf_run hrun id

end Observed

/-- A call for a page of records: the Store does not answer, or the page is a piece of its journal. -/
theorem Observed.loadRecords (h : Observed access stores) (id : Identifier) (n after : ℕ) {limit : ℕ}
    (hl : validatePage limit = true) :
    (stores n = none ∧ Store.loadRecords (stores n) id after limit = .error .unavailable) ∨
      ∃ S, stores n = some S ∧ Store.loadRecords (stores n) id after limit = .ok (page (S.recordsOf id) after limit) := by
  cases hn : stores n with
  | none =>
    refine .inl ⟨rfl, ?_⟩
    simp only [Store.loadRecords, hl, if_true]
  | some S => exact .inr ⟨S, rfl, (h.reachable hn).load_records_ok id after hl⟩

/-! ## the evidence of a run -/

namespace RunEvidence

/-- `@page`. -/
def pageSize : ℕ := 256

/-- The rows of a page, each of them the next one and none past the head. -/
def consume (through : ℕ) : List Record → ℕ → List Record → Option (ℕ × List Record)
  | [], last, rows => some (last, rows)
  | record :: records, last, rows =>
    if record.journalVersion = last + 1 && record.journalVersion ≤ through then
      consume through records record.journalVersion (record :: rows)
    else none

/-- `load`, from the `n`th call on; an inner `none` is `:error`, and an outer one that the fuel ran out. -/
def load (stores : ℕ → Option State) (id : Identifier) (through : ℕ) :
    ℕ → ℕ → ℕ → List Record → Option (Option (List Record))
  | 0, _, _, _ => none
  | fuel + 1, n, after, acc =>
    if after = through then some (some acc.reverse)
    else match Store.loadRecords (stores n) id after (min pageSize (through - after)) with
      | .ok (record :: records) =>
        match consume through (record :: records) after acc with
        | some (last, rows) => load stores id through fuel (n + 1) last rows
        | none => some none
      | _ => some none

theorem consume_of_numbered {through last : ℕ} {records rows : List Record}
    (hn : ∀ i row, records[i]? = some row → row.journalVersion = last + i + 1)
    (hle : last + records.length ≤ through) :
    consume through records last rows = some (last + records.length, records.reverse ++ rows) := by
  induction records generalizing last rows with
  | nil => rfl
  | cons record records ih =>
    have hrecord : record.journalVersion = last + 1 := hn 0 record rfl
    rw [List.length_cons] at hle
    have hlast : last + 1 ≤ through := by omega
    simp only [consume, hrecord, hlast, decide_true, Bool.and_self, if_true]
    rw [ih (fun i row hi => ?_) (by omega)]
    · simp [Nat.add_comm, Nat.add_left_comm]
    · rw [hn (i + 1) row (by simpa using hi)]
      omega

/-- **The rows of the prefix, or the Store did not answer.** -/
theorem load_prefix (ho : Observed access stores) {through : ℕ} {captured : List Record}
    (hlen : captured.length = through) {fuel n after : ℕ} {acc : List Record}
    (hread : ReadTo (journals stores id) n after acc) (hafter : after ≤ through)
    (hacc : acc.reverse = captured.take after)
    (hcaptured : ∀ m rows, n ≤ m → journals stores id m = some rows → captured <+: rows)
    (hfuel : through - after < fuel) :
    load stores id through fuel n after acc = some (some captured) ∨
      load stores id through fuel n after acc = some none ∧ ∃ m, n ≤ m ∧ stores m = none := by
  induction fuel generalizing n after acc with
  | zero => omega
  | succ fuel ih =>
    rw [load]
    split
    · next he =>
      rw [hacc, he, ← hlen, List.take_length]
      exact .inl rfl
    · next hne =>
      have hl : validatePage (min pageSize (through - after)) = true := by
        refine validatePage_iff.2 ?_
        simp only [pageSize, maxItems]
        omega
      rcases ho.loadRecords id n after hl with ⟨hn, hload⟩ | ⟨S, hn, hload⟩
      · rw [hload]
        exact .inr ⟨rfl, n, le_rfl, hn⟩
      · have hjournal : journals stores id n = some (S.recordsOf id) := by rw [journals, hn]; rfl
        have hpre := hcaptured n _ le_rfl hjournal
        have hplen := length_page (S.recordsOf id) after (min pageSize (through - after))
        have hpre_le := hpre.length_le
        have hnext : ReadTo _ (n + 1) (after + (page (S.recordsOf id) after (min pageSize (through - after))).length) _ :=
          hread.page (ho.growing_journals id) hjournal
        rw [hload]
        cases hpage : page (S.recordsOf id) after (min pageSize (through - after)) with
        | nil =>
          rw [hpage, List.length_nil] at hplen
          simp only [pageSize] at hplen
          omega
        | cons record records =>
          rw [hpage] at hplen hnext
          have hconsume : consume through (record :: records) after acc =
              some (after + (record :: records).length, (record :: records).reverse ++ acc) :=
            consume_of_numbered (fun i row hi => (ho.reachable hn).numbered_records id _ row
              (getElem?_page (hpage ▸ hi))) (by omega)
          have hpos : 0 < (record :: records).length := by simp
          simp only [hconsume]
          have hrec := ih (hnext) (by omega) ?_ (fun m rows hm => hcaptured m rows (by omega)) (by omega)
          · rcases hrec with h | ⟨h, m, hm, hnone⟩
            · exact .inl h
            · exact .inr ⟨h, m, by omega, hnone⟩
          · rw [List.reverse_append, List.reverse_reverse, hacc, ← hpage,
              ← take_of_isPrefix hpre (by omega : after ≤ captured.length), take_add_page,
              take_of_isPrefix hpre]
            rw [hpage]
            omega

/-- `Store.creation_provenance` of a session. -/
def creationProvenance (store : Option State) (runtimeId sessionId : Identifier) : Provenance :=
  match store with
  | some S => normalize runtimeId.term (.session sessionId.term)
      (S.creationProvenance runtimeId.term (.session sessionId.term))
  | none => .unavailable

/-- The answers of `Store.ownership_head`. -/
inductive HeadAnswer where
  | head (ownerEpoch journalVersion : ℕ)
  | absent
  | unavailable
  deriving DecidableEq

/-- `Store.ownership_head`. -/
def ownershipHead (store : Option State) (sessionId : Identifier) : HeadAnswer :=
  match store with
  | some S =>
    match S.ownershipHead sessionId with
    | some (epoch, version) => if 0 < version then .head epoch version else .unavailable
    | none => .absent
  | none => .unavailable

/-- What the reducer refuses a history for. -/
inductive Refused where
  | unknownRun
  | invalid
  deriving DecidableEq

/-- The refusals of `read`. -/
inductive ReadError where
  | unknownRun
  | runtimeUnavailable
  deriving DecidableEq

variable {Evidence : Type}

/-- The answer under the reducer's verdict. -/
def answerOf : Except Refused Evidence → Except ReadError Evidence
  | .ok evidence => .ok evidence
  | .error .unknownRun => .error .unknownRun
  | .error .invalid => .error .runtimeUnavailable

/-- `read`; `runEvidence` is the reducer's `run_evidence`, and `none` that the fuel ran out. -/
def read (runEvidence : Identifier → List Record → Bytes → Except Refused Evidence) (stores : ℕ → Option State)
    (runtimeId sessionId : Identifier) (runId : Bytes) (fuel : ℕ) : Option (Except ReadError Evidence) :=
  if 1 ≤ runId.length && runId.length ≤ 8192 then
    match creationProvenance (stores 0) runtimeId sessionId with
    | .historical _ =>
      match ownershipHead (stores 1) sessionId with
      | .head _ through =>
        (load stores sessionId through fuel 2 0 []).map fun loaded =>
          match loaded with
          | some records => answerOf (runEvidence sessionId records runId)
          | none => .error .runtimeUnavailable
      | .absent => some (.error .unknownRun)
      | .unavailable => some (.error .runtimeUnavailable)
    | .absent | .conflict => some (.error .unknownRun)
    | _ => some (.error .runtimeUnavailable)
  else some (.error .unknownRun)

theorem session_of_historical {runtimeId sessionId : Identifier} {row : Term}
    (h : creationProvenance (some S) runtimeId sessionId = .historical row) :
    ∃ session, S.sessions.lookup sessionId = some session := by
  cases hl : S.sessions.lookup sessionId with
  | some session => exact ⟨session, rfl⟩
  | none =>
    have hquery : creationQuery S runtimeId (.session sessionId.term) = .absent := by
      simp [creationQuery, creationQuerySession, hl]
    simp only [creationProvenance, State.creationProvenance, asIdentifier_term, hquery] at h
    split at h <;> cases h

/-- The head of a session counts its records. -/
theorem ownershipHead_of_session (hr : Reachable access S) {session : Store.Session}
    (hl : S.sessions.lookup id = some session) :
    ownershipHead (some S) id = .head session.ownerEpoch (S.recordsOf id).length ∧ 0 < (S.recordsOf id).length := by
  obtain ⟨⟨acts, hj⟩, ho⟩ := hr.journals _ _ hl
  have hversion : session.journalVersion = (S.recordsOf id).length := by
    rw [State.recordsOf, hl]
    exact (hj.columns ho).version
  have hpos : 0 < session.journalVersion := by
    obtain ⟨genesis, rest, rfl⟩ := hj.created
    rw [hj.version]
    simp
  rw [hversion] at hpos
  refine ⟨?_, hpos⟩
  simp only [ownershipHead, State.ownershipHead, hl, Option.map_some, hversion, hpos, if_true]

/-- **The evidence of a run is that of the captured prefix.**  Once the session is known to be the runtime's and its
head is captured, the reducer is asked about exactly the journal of that moment, whatever commits while its pages are
read; if a page cannot be read, the answer is that the runtime is unavailable, and never that the run is unknown. -/
theorem read_captured {runEvidence : Identifier → List Record → Bytes → Except Refused Evidence}
    {runtimeId sessionId : Identifier} {runId : Bytes} {row : Term} {fuel : ℕ} (ho : Observed access stores)
    (hrun : 1 ≤ runId.length ∧ runId.length ≤ 8192)
    (hprovenance : creationProvenance (stores 0) runtimeId sessionId = .historical row) (hcapture : stores 1 = some S)
    (hfuel : (S.recordsOf sessionId).length < fuel) :
    read runEvidence stores runtimeId sessionId runId fuel =
        some (answerOf (runEvidence sessionId (S.recordsOf sessionId) runId)) ∨
      read runEvidence stores runtimeId sessionId runId fuel = some (.error .runtimeUnavailable) ∧
        ∃ n, 2 ≤ n ∧ stores n = none := by
  obtain ⟨S₀, hS₀⟩ : ∃ S₀, stores 0 = some S₀ := by
    cases h : stores 0 with
    | none =>
      rw [h] at hprovenance
      cases hprovenance
    | some S₀ => exact ⟨S₀, rfl⟩
  obtain ⟨session₀, hl₀⟩ := session_of_historical (hS₀ ▸ hprovenance)
  obtain ⟨-, presented, hstores⟩ := ho 0 1 S₀ S (by omega) hS₀ hcapture
  obtain ⟨session, hl, -⟩ := grows_run hstores _ _ hl₀
  have hhead := (ownershipHead_of_session (ho.reachable hcapture) hl).1
  have hcaptured : ∀ m rows, 2 ≤ m → journals stores sessionId m = some rows → S.recordsOf sessionId <+: rows := by
    intro m rows hm hrows
    exact ho.growing_journals sessionId 1 m _ _ (by omega) (by rw [journals, hcapture]; rfl) hrows
  have hload := load_prefix ho rfl (ReadTo.start (journals stores sessionId) 2) (Nat.zero_le _) rfl hcaptured
    (by omega : _ - 0 < fuel)
  have hguard : (decide (1 ≤ runId.length) && decide (runId.length ≤ 8192)) = true := by simp [hrun]
  rcases hload with h | ⟨h, n, hn, hnone⟩
  · exact .inl (by simp only [read, hguard, if_true, hprovenance, hcapture, hhead, h, Option.map_some])
  · refine .inr ⟨?_, n, hn, hnone⟩
    simp only [read, hguard, if_true, hprovenance, hcapture, hhead, h, Option.map_some]

end RunEvidence

/-! ## a whole journal -/

namespace SessionCoordinator

/-- `@page_size`. -/
def pageSize : ℕ := 1024

/-- The refusals of `load_pages`. -/
inductive LoadError where
  | storeUnavailable
  | page (error : PageError)
  deriving DecidableEq

variable {α : Type}

/-- `load_pages`, from the `n`th call on; `none` is that the fuel ran out. -/
def loadPages (loader : ℕ → ℕ → Except PageError (List α)) (position : α → Option ℤ) :
    ℕ → ℕ → ℕ → List α → Option (Except LoadError (List α))
  | 0, _, _, _ => none
  | fuel + 1, n, pos, accumulated =>
    match loader n pos with
    | .ok rows =>
      match rows.getLast? with
      | none => some (.ok accumulated.reverse)
      | some last =>
        match position last with
        | some next =>
          if (pos : ℤ) < next then
            loadPages loader position fuel (n + 1) next.toNat (rows.reverse ++ accumulated)
          else some (.error (.page .invalidStorePage))
        | none => some (.error (.page .invalidStorePage))
    | .error .unavailable => some (.error .storeUnavailable)
    | .error error => some (.error (.page error))

/-- The position of the last of the rows read before. -/
def lastPosition (earlier : List Record) : ℕ :=
  match earlier.getLast? with
  | some last => last.journalVersion
  | none => 0

/-- `load_all_records`, from the first call after the one that read the earlier part. -/
def loadAllRecords (stores : ℕ → Option State) (id : Identifier) (earlier : List Record) (fuel : ℕ) :
    Option (Except LoadError (List Record)) :=
  (loadPages (fun n after => Store.loadRecords (stores n) id after pageSize) (fun row => some row.journalVersion) fuel 1
    (lastPosition earlier) []).map fun answer => answer.map fun rows => earlier ++ rows

/-- `load_all_events`. -/
def loadAllEvents (stores : ℕ → Option State) (id : Identifier) (fuel : ℕ) :
    Option (Except LoadError (List Term)) :=
  loadPages (fun n after => Store.loadEvents (stores n) id after pageSize) eventSequence fuel 1 0 []

/-- A loader reads pieces of the logs, whose rows carry their positions. -/
structure Loads (logs : ℕ → Option (List α)) (loader : ℕ → ℕ → Except PageError (List α)) (position : α → Option ℤ) :
    Prop where
  page : ∀ n pos rows, logs n = some rows → loader n pos = .ok (page rows pos pageSize)
  unavailable : ∀ n pos, logs n = none → loader n pos = .error .unavailable
  position : ∀ n rows i row, logs n = some rows → rows[i]? = some row → position row = some ((i + 1 : ℕ) : ℤ)

/-- **The loop has read a log as one call found it, or the Store did not answer.** -/
theorem loadPages_spec {logs : ℕ → Option (List α)} {loader : ℕ → ℕ → Except PageError (List α)}
    {position : α → Option ℤ} (hg : Growing logs) (hloads : Loads logs loader position) {fuel n pos : ℕ}
    {first accumulated : List α} {answer : Except LoadError (List α)}
    (hread : ReadTo logs n pos (accumulated ++ first.reverse))
    (h : loadPages loader position fuel n pos accumulated = some answer) :
    (∃ m rows rest, n ≤ m ∧ logs m = some rows ∧ answer = .ok rest ∧ first ++ rest = rows) ∨
      answer = .error .storeUnavailable ∧ ∃ m, n ≤ m ∧ logs m = none := by
  induction fuel generalizing n pos accumulated with
  | zero => cases h
  | succ fuel ih =>
    rw [loadPages] at h
    cases hn : logs n with
    | none =>
      rw [hloads.unavailable n pos hn] at h
      cases h
      exact .inr ⟨rfl, n, le_rfl, hn⟩
    | some rows =>
      rw [hloads.page n pos rows hn] at h
      obtain ⟨hpos, hrows⟩ := hread n rows le_rfl hn
      have hnext : ReadTo logs (n + 1) (pos + (page rows pos pageSize).length) _ := hread.page hg hn
      cases hlast : (page rows pos pageSize).getLast? with
      | none =>
        simp only [hlast] at h
        cases h
        have hend := (page_eq_nil (by decide)).1 (List.getLast?_eq_none_iff.1 hlast)
        refine .inl ⟨n, rows, _, le_rfl, hn, rfl, ?_⟩
        rw [List.reverse_append, List.reverse_reverse, List.take_of_length_le hend] at hrows
        exact hrows
      | some last =>
        have hlen : 0 < (page rows pos pageSize).length := by
          rw [List.length_pos_iff]
          rintro hnil
          rw [hnil] at hlast
          cases hlast
        have hrow : rows[pos + ((page rows pos pageSize).length - 1)]? = some last := by
          rw [List.getLast?_eq_getElem?] at hlast
          exact getElem?_page hlast
        have hposition : position last = some ((pos + (page rows pos pageSize).length : ℕ) : ℤ) := by
          rw [hloads.position n rows _ last hn hrow]
          congr 2
          omega
        have hlt : (pos : ℤ) < ((pos + (page rows pos pageSize).length : ℕ) : ℤ) := by omega
        simp only [hlast, hposition, hlt, if_true, Int.toNat_natCast] at h
        rw [← List.append_assoc] at hnext
        rcases ih hnext h with ⟨m, rows', rest, hm, h⟩ | ⟨h, m, hm, hnone⟩
        · exact .inl ⟨m, rows', rest, by omega, h⟩
        · exact .inr ⟨h, m, by omega, hnone⟩

/-- The loop ends once the log stops growing. -/
theorem loadPages_total {logs : ℕ → Option (List α)} {loader : ℕ → ℕ → Except PageError (List α)}
    {position : α → Option ℤ} (hloads : Loads logs loader position) {bound fuel n pos : ℕ} {accumulated : List α}
    (hbound : ∀ m rows, logs m = some rows → rows.length ≤ bound) (hfuel : bound - pos < fuel) :
    ∃ answer, loadPages loader position fuel n pos accumulated = some answer := by
  induction fuel generalizing n pos accumulated with
  | zero => omega
  | succ fuel ih =>
    rw [loadPages]
    cases hn : logs n with
    | none =>
      rw [hloads.unavailable n pos hn]
      exact ⟨_, rfl⟩
    | some rows =>
      rw [hloads.page n pos rows hn]
      cases hlast : (page rows pos pageSize).getLast? with
      | none =>
        simp only [hlast]
        exact ⟨_, rfl⟩
      | some last =>
        have hend := hlast
        rw [List.getLast?_eq_getElem?] at hend
        have hrow := getElem?_page hend
        have hlt := (List.getElem?_eq_some_iff.1 hrow).1
        have hrows := hbound n rows hn
        simp only [hlast, hloads.position n rows _ last hn hrow, Int.toNat_natCast]
        split
        · exact ih (by omega)
        · exact ⟨_, rfl⟩

theorem loads_records (ho : Observed access stores) (id : Identifier) : Loads (journals stores id)
    (fun n after => Store.loadRecords (stores n) id after pageSize) (fun row => some row.journalVersion) where
  page n pos rows hn := by
    obtain ⟨S, hS, rfl⟩ := Option.map_eq_some_iff.1 hn
    simp only [hS]
    exact (ho.reachable hS).load_records_ok id pos (by decide)
  unavailable n pos hn := by
    simp only [Option.map_eq_none_iff.1 hn]
    rfl
  position n rows i row hn hi := by
    obtain ⟨S, hS, rfl⟩ := Option.map_eq_some_iff.1 hn
    rw [(ho.reachable hS).numbered_records id i row hi]

theorem loads_events (ho : Observed access stores) (id : Identifier) : Loads (outboxes stores id)
    (fun n after => Store.loadEvents (stores n) id after pageSize) eventSequence where
  page n pos rows hn := by
    obtain ⟨S, hS, rfl⟩ := Option.map_eq_some_iff.1 hn
    simp only [hS]
    exact (ho.reachable hS).load_events_ok id pos (by decide)
  unavailable n pos hn := by
    simp only [Option.map_eq_none_iff.1 hn]
    rfl
  position n rows i row hn hi := by
    obtain ⟨S, hS, rfl⟩ := Option.map_eq_some_iff.1 hn
    exact eventSequence_of_stamped ((ho.reachable hS).stamped_events id i row hi)

/-- A reader that goes on from a journal it read before starts at the end of it. -/
theorem readTo_earlier (ho : Observed access stores) {earlier : List Record}
    (hearlier : earlier = [] ∨ ∃ P, stores 0 = some P ∧ earlier = P.recordsOf id) :
    ReadTo (journals stores id) 1 (lastPosition earlier) earlier.reverse := by
  have hposition : lastPosition earlier = earlier.length := by
    rcases hearlier with rfl | ⟨P, hP, rfl⟩
    · rfl
    · rw [lastPosition]
      cases hlast : (P.recordsOf id).getLast? with
      | none => rw [List.getLast?_eq_none_iff.1 hlast, List.length_nil]
      | some last =>
        rw [List.getLast?_eq_getElem?] at hlast
        have hlt := (List.getElem?_eq_some_iff.1 hlast).1
        have hlast := (ho.reachable hP).numbered_records id _ last hlast
        simp only [hlast]
        omega
  rw [hposition]
  intro m rows hm hrows
  rcases hearlier with rfl | ⟨P, hP, rfl⟩
  · exact ⟨Nat.zero_le _, rfl⟩
  · have hpre := ho.growing_journals id 0 m (P.recordsOf id) rows (by omega) (by rw [journals, hP]; rfl) hrows
    refine ⟨hpre.length_le, ?_⟩
    rw [List.reverse_reverse, take_of_isPrefix hpre le_rfl, List.take_length]

/-- **A loaded history is the history of one moment.**  Whatever commits while its pages are read, a session's records,
or those after a part read before, and its events are answered as one of the calls found them, none left out and none
twice; the only refusal is that a call was not answered, and the loops end once the session stops growing. -/
theorem history_loaded (ho : Observed access stores) (id : Identifier) {earlier : List Record}
    (hearlier : earlier = [] ∨ ∃ P, stores 0 = some P ∧ earlier = P.recordsOf id) (fuel : ℕ) :
    (∀ answer, loadAllRecords stores id earlier fuel = some answer →
      (∃ n S, 1 ≤ n ∧ stores n = some S ∧ answer = .ok (S.recordsOf id)) ∨
        answer = .error .storeUnavailable ∧ ∃ n, 1 ≤ n ∧ stores n = none) ∧
    (∀ answer, loadAllEvents stores id fuel = some answer →
      (∃ n S, 1 ≤ n ∧ stores n = some S ∧ answer = .ok (S.eventsOf id)) ∨
        answer = .error .storeUnavailable ∧ ∃ n, 1 ≤ n ∧ stores n = none) ∧
    ((∀ n S, stores n = some S → (S.recordsOf id).length < fuel ∧ (S.eventsOf id).length < fuel) → 0 < fuel →
      (∃ answer, loadAllRecords stores id earlier fuel = some answer) ∧
        ∃ answer, loadAllEvents stores id fuel = some answer) := by
  refine ⟨fun answer h => ?_, fun answer h => ?_, fun hbound hpos => ⟨?_, ?_⟩⟩
  · obtain ⟨loaded, hloaded, rfl⟩ := Option.map_eq_some_iff.1 h
    have hread : ReadTo (journals stores id) 1 (lastPosition earlier) ([] ++ earlier.reverse) :=
      readTo_earlier ho hearlier
    rcases loadPages_spec (ho.growing_journals id) (loads_records ho id) hread hloaded with
      ⟨n, rows, rest, hn, hrows, rfl, rfl⟩ | ⟨rfl, n, hn, hnone⟩
    · obtain ⟨S, hS, heq⟩ := Option.map_eq_some_iff.1 hrows
      exact .inl ⟨n, S, hn, hS, by rw [heq]; rfl⟩
    · exact .inr ⟨rfl, n, hn, Option.map_eq_none_iff.1 hnone⟩
  · have hread : ReadTo (outboxes stores id) 1 0 ([] ++ [].reverse) := ReadTo.start _ 1
    rcases loadPages_spec (ho.growing_outboxes id) (loads_events ho id) hread h with
      ⟨n, rows, rest, hn, hrows, rfl, rfl⟩ | ⟨rfl, n, hn, hnone⟩
    · obtain ⟨S, hS, heq⟩ := Option.map_eq_some_iff.1 hrows
      exact .inl ⟨n, S, hn, hS, by rw [heq]; rfl⟩
    · exact .inr ⟨rfl, n, hn, Option.map_eq_none_iff.1 hnone⟩
  · have hrecords : ∀ m rows, journals stores id m = some rows → rows.length ≤ fuel - 1 := by
      intro m rows hm
      obtain ⟨S, hS, rfl⟩ := Option.map_eq_some_iff.1 hm
      have := (hbound m S hS).1
      omega
    obtain ⟨loaded, hloaded⟩ : ∃ loaded, loadPages (fun n after => Store.loadRecords (stores n) id after pageSize)
        (fun row => some row.journalVersion) fuel 1 (lastPosition earlier) [] = some loaded :=
      loadPages_total (loads_records ho id) hrecords (by omega)
    exact ⟨_, by rw [loadAllRecords, hloaded, Option.map_some]⟩
  · refine loadPages_total (loads_events ho id) (fun m rows hm => ?_) (by omega : fuel - 1 - 0 < fuel)
    obtain ⟨S, hS, rfl⟩ := Option.map_eq_some_iff.1 hm
    have := (hbound m S hS).2
    omega

end SessionCoordinator

/-! ## a range of a journal -/

namespace Control

/-- The refusals of `collect_receipt_records`. -/
inductive RangeError where
  | incompleteSettlementRange
  | unavailable
  | page (error : PageError)
  deriving DecidableEq

/-- `contiguous?` -/
def contiguous : List Record → ℕ → Bool
  | [], _ => true
  | record :: records, expected => record.journalVersion = expected && contiguous records (expected + 1)

/-- `collect_receipt_records`, from the `n`th call on; `none` is that the fuel ran out. -/
def collectReceiptRecords (stores : ℕ → Option State) (id : Identifier) :
    ℕ → ℕ → ℕ → ℕ → List Record → Option (Except RangeError (List Record))
  | 0, _, _, _, _ => none
  | fuel + 1, n, after, remaining, records =>
    if remaining = 0 then some (.ok records.reverse)
    else match Store.loadRecords (stores n) id after remaining with
      | .ok rows =>
        match rows.getLast? with
        | none => some (.error .incompleteSettlementRange)
        | some last =>
          if rows.length ≤ remaining && contiguous rows (after + 1) then
            collectReceiptRecords stores id fuel (n + 1) last.journalVersion (remaining - rows.length)
              (rows.reverse ++ records)
          else some (.error .incompleteSettlementRange)
      | .error .unavailable => some (.error .unavailable)
      | .error error => some (.error (.page error))

theorem contiguous_of_numbered {records : List Record} {expected : ℕ}
    (h : ∀ i row, records[i]? = some row → row.journalVersion = expected + i) : contiguous records expected = true := by
  induction records generalizing expected with
  | nil => rfl
  | cons record records ih =>
    have hrecord : record.journalVersion = expected := h 0 record rfl
    have hrest : contiguous records (expected + 1) = true := by
      refine ih fun i row hi => ?_
      rw [h (i + 1) row (by simpa using hi)]
      omega
    simp only [contiguous, hrecord, hrest, decide_true, Bool.and_self]

/-- The rows are a range of the journal, as some call found it. -/
def RangeOf (stores : ℕ → Option State) (id : Identifier) (first limit : ℕ) (rows : List Record) : Prop :=
  rows.length = limit ∧ ∃ m S, stores m = some S ∧ rows = ((S.recordsOf id).drop first).take limit

/-- The loop goes on `pos` rows past the start of the range, until it has them all or a page stands in its way. -/
theorem collect_spec (ho : Observed access stores) {first limit : ℕ} (hmax : limit ≤ maxItems) {fuel n pos : ℕ}
    {records : List Record} (hpos : pos ≤ limit) (hfuel : limit - pos < fuel)
    (hread : ReadTo (fun n => (journals stores id n).map (List.drop first)) n pos records)
    (hdone : pos = limit → RangeOf stores id first limit records.reverse) :
    ∃ answer, collectReceiptRecords stores id fuel n (first + pos) (limit - pos) records = some answer ∧
      ((∃ rows, answer = .ok rows ∧ RangeOf stores id first limit rows) ∨
        (answer = .error .incompleteSettlementRange ∧ ∃ m S, n ≤ m ∧ stores m = some S ∧
          (S.recordsOf id).length < first + limit) ∨
        answer = .error .unavailable ∧ ∃ m, n ≤ m ∧ stores m = none) := by
  induction fuel generalizing n pos records with
  | zero => omega
  | succ fuel ih =>
    rw [collectReceiptRecords]
    split
    · next hzero => exact ⟨_, rfl, .inl ⟨_, rfl, hdone (by omega)⟩⟩
    · next hzero =>
      rcases ho.loadRecords id n (first + pos) (validatePage_iff.2 ⟨by omega, by omega⟩ : validatePage (limit - pos) = _)
        with ⟨hn, hload⟩ | ⟨S, hn, hload⟩
      · rw [hload]
        exact ⟨_, rfl, .inr (.inr ⟨rfl, n, le_rfl, hn⟩)⟩
      · rw [hload, page_drop]
        have hlog : (journals stores id n).map (List.drop first) = some ((S.recordsOf id).drop first) := by
          rw [journals, hn]
          rfl
        have hlen := length_page ((S.recordsOf id).drop first) pos (limit - pos)
        have hdrop : ((S.recordsOf id).drop first).length = (S.recordsOf id).length - first := List.length_drop
        have hnumbered := (ho.reachable hn).numbered_records id
        obtain ⟨hle, hrows⟩ := hread n _ le_rfl hlog
        have hnext : ReadTo _ (n + 1) (pos + (page ((S.recordsOf id).drop first) pos (limit - pos)).length) _ :=
          hread.page ((ho.growing_journals id).drop first) hlog
        have hat : ∀ i row, (page ((S.recordsOf id).drop first) pos (limit - pos))[i]? = some row →
            row.journalVersion = first + pos + 1 + i := by
          intro i row hi
          have hi := getElem?_page hi
          rw [List.getElem?_drop] at hi
          rw [hnumbered _ row hi]
          omega
        cases hlast : (page ((S.recordsOf id).drop first) pos (limit - pos)).getLast? with
        | none =>
          simp only [hlast]
          rw [List.getLast?_eq_none_iff.1 hlast, List.length_nil] at hlen
          exact ⟨_, rfl, .inr (.inl ⟨rfl, n, S, le_rfl, hn, by omega⟩)⟩
        | some last =>
          have hend := hlast
          rw [List.getLast?_eq_getElem?] at hend
          have hpositive := (List.getElem?_eq_some_iff.1 hend).1
          have hposition := hat _ last hend
          have hguard : (decide ((page ((S.recordsOf id).drop first) pos (limit - pos)).length ≤ limit - pos) &&
              contiguous (page ((S.recordsOf id).drop first) pos (limit - pos)) (first + pos + 1)) = true := by
            rw [contiguous_of_numbered hat, Bool.and_true, decide_eq_true_eq]
            exact length_page_le ..
          simp only [hlast, hguard, if_true]
          have hrec := ih (by omega) (by omega) hnext fun hfull => ?_
          · rw [show first + (pos + (page ((S.recordsOf id).drop first) pos (limit - pos)).length) =
              last.journalVersion by omega, show limit - (pos + (page ((S.recordsOf id).drop first) pos
                (limit - pos)).length) = limit - pos - (page ((S.recordsOf id).drop first) pos (limit - pos)).length by
              omega] at hrec
            obtain ⟨answer, hanswer, h | ⟨h, m, S', hm, hshort⟩ | ⟨h, m, hm, hnone⟩⟩ := hrec
            · exact ⟨answer, hanswer, .inl h⟩
            · exact ⟨answer, hanswer, .inr (.inl ⟨h, m, S', by omega, hshort⟩)⟩
            · exact ⟨answer, hanswer, .inr (.inr ⟨h, m, by omega, hnone⟩)⟩
          · have hall : ((page ((S.recordsOf id).drop first) pos (limit - pos)).reverse ++ records).reverse =
                ((S.recordsOf id).drop first).take limit := by
              rw [List.reverse_append, List.reverse_reverse, hrows, take_add_page, hfull]
            refine ⟨?_, n, S, hn, hall⟩
            rw [hall, List.length_take]
            omega

/-- **A collected range is complete.**  The rows answered are the `limit` records after a position, as the journal of
one call has them; the range is incomplete only if a call found the journal too short for it. -/
theorem collected_range (ho : Observed access stores) (id : Identifier) (after limit : ℕ) (hpos : 0 < limit)
    (hmax : limit ≤ maxItems) : ∃ answer, collectReceiptRecords stores id (limit + 1) 0 after limit [] = some answer ∧
      ((∃ rows, answer = .ok rows ∧ rows.length = limit ∧ ∃ m S, stores m = some S ∧
          rows = ((S.recordsOf id).drop after).take limit) ∨
        (answer = .error .incompleteSettlementRange ∧ ∃ m S, stores m = some S ∧
          (S.recordsOf id).length < after + limit) ∨
        answer = .error .unavailable ∧ ∃ m, stores m = none) := by
  obtain ⟨answer, hanswer, h⟩ := collect_spec ho hmax (Nat.zero_le limit) (by omega : limit - 0 < limit + 1)
    (ReadTo.start (fun n => (journals stores id n).map (List.drop after)) 0) (fun h => by omega)
  refine ⟨answer, hanswer, ?_⟩
  rcases h with h | ⟨h, m, S, -, hS, hshort⟩ | ⟨h, m, -, hnone⟩
  · exact .inl h
  · exact .inr (.inl ⟨h, m, S, hS, hshort⟩)
  · exact .inr (.inr ⟨h, m, hnone⟩)

end Control

/-! ## a session that is resumed while it is read -/

section Resumed

/-- The first two calls find the bare session as it was opened, and the later ones find it resumed. -/
def resumedStores (n : ℕ) : Option State := if n ≤ 1 then some Opening.bare.opened else some resumedState

theorem observed_resumed : Observed noAccess resumedStores := by
  have hopened : Reachable noAccess Opening.bare.opened := Opening.bare.reachable_opened
  intro m n S S' hle hm hn
  simp only [resumedStores] at hm hn
  split at hm
  · cases hm
    refine ⟨hopened, ?_⟩
    split at hn
    · cases hn
      exact ⟨[], .nil⟩
    · cases hn
      exact ⟨_, .snoc (.snoc (.one (Opening.bare.presents_succeed _ _ _)) presents_successorStage) presents_successor⟩
  · rw [if_neg (by omega)] at hn
    cases hm
    cases hn
    exact ⟨reachable_resumed, [], .nil⟩

/-- A session of a ledger is one of its runtime's history. -/
theorem historical_of_recorded {L : Ledger} (h : Recorded access L) {id runtimeId : Identifier} {session : Store.Session}
    (hl : L.1.sessions.lookup id = some session) (hr : session.runtimeId = runtimeId) :
    ∃ row, RunEvidence.creationProvenance (some L.1) runtimeId id = .historical row := by
  obtain ⟨hindexed, hcustody⟩ := h.indexed
  obtain ⟨c, hc, rfl⟩ := hindexed.known id (by rw [hl]; rfl)
  obtain ⟨session', hl', hruntime⟩ := hindexed.sessions c hc
  rw [hl] at hl'
  cases hl'
  obtain ⟨row, -, -, -, hpoint⟩ := hindexed.point hcustody hc
  obtain ⟨hanswer, hnormal⟩ := hpoint (.session c.sessionId.term) (by simp)
  rw [← hruntime, hr] at hanswer hnormal
  refine ⟨row.point, ?_⟩
  rw [RunEvidence.creationProvenance]
  exact (congrArg _ hanswer).trans hnormal

theorem recorded_opened : ∃ created, Recorded noAccess (Opening.bare.opened, created) := by
  obtain ⟨genesis, hg, -⟩ := Except.bind_eq_ok.1 Opening.bareGenesis_normal
  exact Opening.bare.recorded noAccess hg

theorem historical_opened : ∃ row, RunEvidence.creationProvenance (some Opening.bare.opened) Opening.bare.runtimeId
    Opening.bare.sessionId = .historical row := by
  obtain ⟨created, h⟩ := recorded_opened
  exact historical_of_recorded h Opening.bare.opened_session rfl

theorem recorded_resumed : ∃ created, Recorded noAccess (resumedState, created) := by
  obtain ⟨created, h⟩ := recorded_opened
  have hrun : Run (Guarded (Presents noAccess) Indexable) Opening.bare.opened _ resumedState :=
    .snoc (.snoc (.one ⟨Opening.bare.presents_succeed _ _ _, indexable_seal (Opening.bare.succeed_fits _ _ _) trivial
      fun _ h => by cases h⟩)
      ⟨presents_successorStage, indexable_seal successorStage_fits successorStage_checks fun _ h => by cases h⟩)
      ⟨presents_successor, indexable_seal successor_fits trivial fun _ h => by cases h⟩
  obtain ⟨created', hr⟩ := recorded_run noAccess hrun created
  exact ⟨created', h.run hr⟩

/-- The session, once it is resumed. -/
def resumedSession : Store.Session := stagedSession.succeed (.seal (.advanceOwner successor)) successor

theorem resumedState_session : resumedState.sessions.lookup Opening.bare.sessionId = some resumedSession :=
  AList.lookup_insert _

theorem historical_resumed : ∃ row, RunEvidence.creationProvenance (some resumedState) Opening.bare.runtimeId
    Opening.bare.sessionId = .historical row := by
  obtain ⟨created, h⟩ := recorded_resumed
  exact historical_of_recorded h resumedState_session rfl

/-- The evidence is asked of the genesis alone, though the pages are read after the session was resumed. -/
theorem read_captured_resumed : RunEvidence.read (fun _ records _ => .ok records) resumedStores Opening.bare.runtimeId
    Opening.bare.sessionId [1] 2 = some (.ok [stampGenesis Opening.bare.genesis]) := by
  obtain ⟨row, hrow⟩ := historical_opened
  have hrecords : Opening.bare.opened.recordsOf Opening.bare.sessionId = [stampGenesis Opening.bare.genesis] := by
    rw [State.recordsOf, Opening.bare.opened_session]
    rfl
  have hrun : 1 ≤ ([1] : Bytes).length ∧ ([1] : Bytes).length ≤ 8192 := by decide
  have hread : RunEvidence.read (fun _ records _ => .ok records) resumedStores Opening.bare.runtimeId
      Opening.bare.sessionId [1] 2 =
        some (RunEvidence.answerOf (.ok (Opening.bare.opened.recordsOf Opening.bare.sessionId))) ∨ _ :=
    RunEvidence.read_captured observed_resumed hrun hrow rfl (by rw [hrecords]; decide)
  rcases hread with h | ⟨-, n, hn, hnone⟩
  · rw [hrecords] at h
    exact h
  · rw [resumedStores, if_neg (by omega)] at hnone
    cases hnone

/-- A session read to its end, from the part that was read before it was resumed. -/
theorem history_loaded_resumed : ∃ answer, SessionCoordinator.loadAllRecords resumedStores Opening.bare.sessionId
    (Opening.bare.opened.recordsOf Opening.bare.sessionId) 8 = some answer := by
  have hresumed : (resumedState.recordsOf Opening.bare.sessionId).length = 3 ∧
      (resumedState.eventsOf Opening.bare.sessionId).length = 0 := by
    rw [State.recordsOf, State.eventsOf, resumedState_session]
    exact ⟨rfl, rfl⟩
  have hopened : (Opening.bare.opened.recordsOf Opening.bare.sessionId).length = 1 ∧
      (Opening.bare.opened.eventsOf Opening.bare.sessionId).length = 0 := by
    rw [State.recordsOf, State.eventsOf, Opening.bare.opened_session]
    exact ⟨rfl, rfl⟩
  refine ((SessionCoordinator.history_loaded observed_resumed Opening.bare.sessionId (.inr ⟨_, rfl, rfl⟩) 8).2.2
    (fun n S hS => ?_) (by decide)).1
  rw [resumedStores] at hS
  split at hS
  · cases hS
    omega
  · cases hS
    omega

/-- The two successions that follow the genesis. -/
theorem collected_range_resumed : ∃ answer,
    Control.collectReceiptRecords resumedStores Opening.bare.sessionId 3 0 1 2 [] = some answer := by
  obtain ⟨answer, h, -⟩ := Control.collected_range observed_resumed Opening.bare.sessionId 1 2 (by decide) (by decide)
  exact ⟨answer, h⟩

end Resumed

end Loopex.Runtime
