import Loopex.Runtime.HistoryReads

/-!
# Coverage of effect intents

A private reader of a journal: a captured head, a page of at most sixteen records at a time, and a token of the last
record scanned, under which a later reader goes on.  The projection of a record is the reducer's and is a parameter.

* `prefixToken`, `scan`, `cut`, `read` — as the source computes them
* `Page.fits` — a page of rows that fit is within its ceiling, so that no scan stops before its page ends
* `read_covers`, `read_answered` — what one page covers, and when it is answered
* `coverage` — **a chain of pages covers a captured prefix, and a later reader goes on from it**
-/

namespace Loopex.Runtime.EffectIntents

open Loopex.Erlang Loopex.Erlang.Term Loopex.Store Loopex.Store.CreationProvenance Loopex.System

variable {access : StructAccess} {S S' : State} {stores : ℕ → Option State}

/-! ## queries -/

/-- The refusals of `read`. -/
inductive ReadError where
  | invalidQuery | sessionAbsent | historyUnavailable | invalidHistory
  deriving DecidableEq

/-- A cursor, in one of its two closed forms. -/
inductive Cursor where
  | page (version : ℤ) (runtimeId sessionId : Identifier) (throughVersion afterVersion : ℕ)
  | resume (version : ℤ) (runtimeId sessionId : Identifier) (resumeAfterVersion : ℕ) (prefixToken : Bytes)
  deriving DecidableEq

/-- `version?` -/
def isVersion (n : ℕ) : Bool := n ≤ creationUint64

/-- `positive_version?` -/
def positiveVersion (n : ℕ) : Bool := isVersion n && 0 < n

/-- `valid_cursor?` -/
def validCursor (cursor : Option Cursor) (runtimeId sessionId : Identifier) : Bool :=
  match cursor with
  | none => true
  | some (.page version runtime session through after) =>
    version = 1 && runtime = runtimeId && session = sessionId && positiveVersion through && isVersion after &&
      after ≤ through
  | some (.resume version runtime session after token) =>
    version = 1 && runtime = runtimeId && session = sessionId && positiveVersion after && token.length = 32

/-- `validate_query`. -/
def validateQuery (runtimeId sessionId : Identifier) (cursor : Option Cursor) (limit : ℕ) : Except ReadError Unit :=
  if (1 ≤ limit && limit ≤ 16) && validCursor cursor runtimeId sessionId then .ok () else .error .invalidQuery

/-- `scope`. -/
def scope (store : Option State) (runtimeId sessionId : Identifier) : Except ReadError Unit :=
  match RunEvidence.creationProvenance store runtimeId sessionId with
  | .historical _ => .ok ()
  | .absent => .error .sessionAbsent
  | .conflict => .error .invalidQuery
  | _ => .error .historyUnavailable

/-- `head`. -/
def head (store : Option State) (sessionId : Identifier) : Except ReadError ℕ :=
  match RunEvidence.ownershipHead store sessionId with
  | .head _ version => if positiveVersion version then .ok version else .error .invalidHistory
  | .absent => .error .invalidHistory
  | .unavailable => .error .historyUnavailable

/-- `load`. -/
def load (store : Option State) (sessionId : Identifier) (after limit : ℕ) : Except ReadError (List Record) :=
  match loadRecords store sessionId after limit with
  | .ok records => .ok records
  | .error .invalidStorePage => .error .invalidHistory
  | .error _ => .error .historyUnavailable

/-! ## records -/

/-- `prefix_token`. -/
def prefixToken (record : Record) : Bytes :=
  sha256 (termToBinary (.tuple [.int record.journalVersion, .int record.ownerEpoch,
    optionTerm record.ownerIncarnationId, .binary (termToBinary record.payload)]))

/-- `bounded_stamp?`; an incarnation that is there is an identifier. -/
def boundedStamp (record : Record) : Bool := positiveVersion record.journalVersion && isVersion record.ownerEpoch

/-- `boundary_token`. -/
def boundaryToken (record : Record) : Except ReadError Bytes :=
  if boundedStamp record then .ok (prefixToken record) else .error .invalidHistory

/-- The verdict of a projection: a row, no row, or no record of this history. -/
abbrev Projection : Type := Identifier → Record → Option (Option (List (Term × Term)))

variable (projection : Projection)

/-- `Map.put(projection, :journal_version, record.journal_version)`. -/
def rowTerm (record : Record) (entries : List (Term × Term)) : Term :=
  .map (putEntry (sym "journal_version") (.int record.journalVersion) entries)

/-! ## pages -/

structure Page where
  runtimeId : Identifier
  sessionId : Identifier
  throughVersion : ℕ
  scannedThrough : ℕ
  prefixToken : Option Bytes
  rows : List Term
  nextCursor : Option Cursor
  deriving DecidableEq

/-- `page`. -/
def pageOf (runtimeId sessionId : Identifier) (through scanned : ℕ) (token : Option Bytes) (reversed : List Term) :
    Page where
  runtimeId := runtimeId
  sessionId := sessionId
  throughVersion := through
  scannedThrough := scanned
  prefixToken := token
  rows := reversed.reverse
  nextCursor := if scanned = through then none else some (.page 1 runtimeId sessionId through scanned)

def cursorFields (runtimeId sessionId : Identifier) (through after : ℕ) : Fields :=
  [("version", .int 1), ("runtime_id", runtimeId.term), ("session_id", sessionId.term),
    ("through_version", .int through), ("after_version", .int after)]

/-- The cursor of a page as a map. -/
def nextTerm (page : Page) : Term :=
  match page.nextCursor with
  | some (.page _ runtimeId sessionId through after) => atomMap (cursorFields runtimeId sessionId through after)
  | _ => nil

def tokenTerm (token : Option Bytes) : Term :=
  match token with
  | some b => .binary b
  | none => nil

def Page.fields (page : Page) : Fields :=
  [("version", .int 1), ("runtime_id", page.runtimeId.term), ("session_id", page.sessionId.term),
    ("through_version", .int page.throughVersion), ("scanned_through", .int page.scannedThrough),
    ("prefix_token", tokenTerm page.prefixToken), ("rows", .list page.rows), ("next_cursor", nextTerm page)]

def Page.toTerm (page : Page) : Term := atomMap page.fields

/-- `@page_bytes`. -/
def pageBytes : ℕ := 1114112

def rowBytes : ℕ := 65536

/-- `scan`. -/
def scan (runtimeId sessionId : Identifier) (through : ℕ) :
    List Record → ℕ → Option Bytes → List Term → Except ReadError Page
  | [], scanned, token, reversed => .ok (pageOf runtimeId sessionId through scanned token reversed)
  | record :: rest, scanned, token, reversed =>
    if boundedStamp record && (record.journalVersion = scanned + 1 && record.journalVersion ≤ through) then
      match projection sessionId record with
      | none => .error .invalidHistory
      | some projected =>
        let nextRows := match projected with
          | some entries => rowTerm record entries :: reversed
          | none => reversed
        let nextToken := prefixToken record
        let candidate := pageOf runtimeId sessionId through record.journalVersion (some nextToken) nextRows
        if (projected.any fun entries => decide (rowBytes < externalSize (rowTerm record entries))) then
          .error .invalidHistory
        else if externalSize (.tuple [sym "ok", candidate.toTerm]) ≤ pageBytes then
          scan runtimeId sessionId through rest record.journalVersion (some nextToken) nextRows
        else if token.isSome then .ok (pageOf runtimeId sessionId through scanned token reversed)
        else .error .invalidHistory
    else .error .invalidHistory

/-- `cut`: the head of the prefix, the position to go on from, and the token of the record there. -/
def cut (store : Option State) (sessionId : Identifier) (cursor : Option Cursor) (version : ℕ) :
    Except ReadError (ℕ × ℕ × Option Bytes) :=
  match cursor with
  | none => .ok (version, 0, none)
  | some (.resume _ _ _ after expected) =>
    if after ≤ version then
      match load store sessionId (after - 1) 1 with
      | .ok [record] => do
        let actual ← boundaryToken record
        if actual = expected then
          match projection sessionId record with
          | some _ => .ok (version, after, some expected)
          | none => .error .invalidHistory
        else .error .invalidQuery
      | .ok _ => .error .invalidHistory
      | .error error => .error error
    else .error .invalidQuery
  | some (.page _ _ _ through after) =>
    if through > version then .error .invalidQuery
    else if after < through then .ok (through, after, none)
    else match load store sessionId (after - 1) 1 with
      | .ok [record] =>
        if boundedStamp record && (projection sessionId record).isSome then
          .ok (through, after, some (prefixToken record))
        else .error .invalidHistory
      | .ok _ => .error .invalidHistory
      | .error error => .error error

/-- `records`. -/
def recordsAfter (store : Option State) (sessionId : Identifier) (after through limit : ℕ) :
    Except ReadError (List Record) :=
  if after = through then .ok []
  else match load store sessionId after (min limit (through - after)) with
    | .ok [] => .error .invalidHistory
    | result => result

/-- `read`; its calls reach `stores`, one after another. -/
def read (stores : ℕ → Option State) (runtimeId sessionId : Identifier) (cursor : Option Cursor) (limit : ℕ) :
    Except ReadError Page := do
  validateQuery runtimeId sessionId cursor limit
  scope (stores 0) runtimeId sessionId
  let version ← head (stores 1) sessionId
  let (through, after, boundary) ← cut projection (stores 2) sessionId cursor version
  let records ← recordsAfter (stores 3) sessionId after through limit
  scan projection runtimeId sessionId through records after boundary []

/-! ## a page of rows that fit is within its ceiling -/

def pageKeys : List String :=
  ["version", "runtime_id", "session_id", "through_version", "scanned_through", "prefix_token", "rows", "next_cursor"]

def cursorKeys : List String := ["version", "runtime_id", "session_id", "through_version", "after_version"]

/-- The names of a page and of a cursor are short and none is another. -/
theorem page_names : Apart pageKeys ∧ Apart cursorKeys ∧
    ∀ name ∈ pageKeys ++ cursorKeys, (encode (sym name)).length ≤ 40 := by
  decide +kernel

theorem encode_rows_le {rows : List Term} (hlen : rows.length ≤ 16) (hmap : ∀ row ∈ rows, ∃ kvs, row = .map kvs)
    (hrow : ∀ row ∈ rows, externalSize row ≤ rowBytes) : (encode (.list rows)).length ≤ 6 + 16 * 65536 := by
  have hsum : (encodeList rows).length ≤ rows.length * 65536 := by
    rw [encodeList_length]
    have hle : ∀ n ∈ rows.map fun row => (encode row).length, n ≤ 65536 := by
      intro n hn
      obtain ⟨row, hmem, rfl⟩ := List.mem_map.1 hn
      have hsize := hrow row hmem
      rw [externalSize_eq, rowBytes] at hsize
      omega
    simpa using List.sum_le_card_nsmul _ 65536 hle
  cases rows with
  | nil => decide
  | cons row rows =>
    obtain ⟨kvs, rfl⟩ := hmap row (List.mem_cons_self ..)
    have hbytes : byteList (.map kvs :: rows) = none := rfl
    rw [encode, if_neg (by simp), hbytes]
    simp only [List.length_append, List.length_cons, be_length, List.length_nil] at hsum hlen ⊢
    omega

/-- The parts of a page that a scan puts together. -/
structure Page.Parts (page : Page) : Prop where
  through : page.throughVersion ≤ creationUint64
  scanned : page.scannedThrough ≤ creationUint64
  token : ∀ token, page.prefixToken = some token → token.length = 32
  few : page.rows.length ≤ 16
  maps : ∀ row ∈ page.rows, ∃ kvs, row = .map kvs
  small : ∀ row ∈ page.rows, externalSize row ≤ rowBytes
  next : page.nextCursor = none ∨
    page.nextCursor = some (.page 1 page.runtimeId page.sessionId page.throughVersion page.scannedThrough)

theorem Page.fits {page : Page} (h : page.Parts) : externalSize (.tuple [sym "ok", page.toTerm]) ≤ pageBytes := by
  have hnames := page_names
  have hnil : (encode nil).length ≤ 40 := by decide
  have hone : (encode (.int 1)).length = 2 := rfl
  have hid := encode_identifier_length page.runtimeId
  have hsession := encode_identifier_length page.sessionId
  have hthrough := encode_counter_length h.through
  have hscanned := encode_counter_length h.scanned
  have htoken : (encode (tokenTerm page.prefixToken)).length ≤ 40 := by
    cases ht : page.prefixToken with
    | none => exact hnil
    | some token =>
      have hlen := h.token token ht
      simp only [tokenTerm, encode_binary_length]
      omega
  have hrows := encode_rows_le h.few h.maps h.small
  have hnext : (encode (nextTerm page)).length ≤ 1000 := by
    rcases h.next with hn | hn
    · rw [nextTerm, hn]
      exact hnil.trans (by decide)
    · have hkeys : Apart ((cursorFields page.runtimeId page.sessionId page.throughVersion page.scannedThrough).map
          Prod.fst) := hnames.2.1
      have hle := encode_atomMap_le hkeys fun name hm => hnames.2.2 name (List.mem_append_right _ hm)
      simp only [cursorFields, List.map_cons, List.map_nil, List.sum_cons, List.sum_nil, hone] at hle
      rw [nextTerm, hn]
      simp only [cursorFields]
      omega
  have hkeys : Apart (page.fields.map Prod.fst) := hnames.1
  have hle := encode_atomMap_le hkeys fun name hm => hnames.2.2 name (List.mem_append_left _ hm)
  simp only [Page.fields, List.map_cons, List.map_nil, List.sum_cons, List.sum_nil, hone] at hle
  have htuple : (encode (.tuple [sym "ok", page.toTerm])).length = 6 + (encode page.toTerm).length := by
    have hok : (encode (sym "ok")).length = 4 := by decide
    simp only [encode, encodeList, List.length_cons, List.length_nil]
    rw [if_pos (by decide)]
    simp only [List.length_cons, List.length_append, List.length_nil, hok]
    omega
  rw [externalSize_eq, htuple, pageBytes, Page.toTerm]
  simp only [Page.fields]
  omega

/-! ## what a scan makes of its records -/

/-- What a record adds to a page: a row, nothing, or the refusal of the history. -/
def rowOf (sessionId : Identifier) (record : Record) : Option (Option Term) :=
  if boundedStamp record then
    match projection sessionId record with
    | none => none
    | some none => some none
    | some (some entries) =>
      if externalSize (rowTerm record entries) ≤ rowBytes then some (some (rowTerm record entries)) else none
  else none

/-- The rows of a piece of a journal, if none of its records is refused. -/
def rowsOf (sessionId : Identifier) : List Record → Option (List Term)
  | [] => some []
  | record :: rest => do
    let row ← rowOf projection sessionId record
    let rows ← rowsOf sessionId rest
    some (row.toList ++ rows)

/-- The token of the last record scanned. -/
def lastToken (token : Option Bytes) (records : List Record) : Option Bytes :=
  match records.getLast? with
  | some record => some (prefixToken record)
  | none => token

theorem lastToken_cons (token : Option Bytes) (record : Record) (records : List Record) :
    lastToken token (record :: records) = lastToken (some (prefixToken record)) records := by
  unfold lastToken
  rw [List.getLast?_cons]
  cases records.getLast? <;> rfl

theorem rowsOf_append (sessionId : Identifier) (xs ys : List Record) : rowsOf projection sessionId (xs ++ ys) =
    (rowsOf projection sessionId xs).bind fun rows =>
      (rowsOf projection sessionId ys).map fun rows' => rows ++ rows' := by
  induction xs with
  | nil => simp [rowsOf]
  | cons record xs ih =>
    simp only [List.cons_append, rowsOf, Option.bind_eq_bind, ih]
    cases rowOf projection sessionId record with
    | none => rfl
    | some row =>
      cases rowsOf projection sessionId xs with
      | none => rfl
      | some rows =>
        cases rowsOf projection sessionId ys with
        | none => rfl
        | some rows' => simp

theorem length_prefixToken (record : Record) : (prefixToken record).length = 32 := sha256_length _

variable {projection} {runtimeId sessionId : Identifier} {through : ℕ}

/-- **A scan runs through its page.**  It never stops for the size of the page, and refuses the history only for a
record that is no row of it. -/
theorem scan_eq (hthrough : through ≤ creationUint64) {records : List Record} {scanned : ℕ} {token : Option Bytes}
    {reversed : List Term} (hn : ∀ i record, records[i]? = some record → record.journalVersion = scanned + i + 1)
    (hle : scanned + records.length ≤ through) (hfew : reversed.length + records.length ≤ 16)
    (hmaps : ∀ row ∈ reversed, ∃ kvs, row = .map kvs) (hsmall : ∀ row ∈ reversed, externalSize row ≤ rowBytes) :
    scan projection runtimeId sessionId through records scanned token reversed =
      (rowsOf projection sessionId records).elim (.error .invalidHistory) fun rows =>
        .ok (pageOf runtimeId sessionId through (scanned + records.length) (lastToken token records)
          (rows.reverse ++ reversed)) := by
  induction records generalizing scanned token reversed with
  | nil => rfl
  | cons record rest ih =>
    have hversion : record.journalVersion = scanned + 1 := hn 0 record rfl
    rw [List.length_cons] at hle hfew
    have hnext : ∀ i record, rest[i]? = some record → record.journalVersion = scanned + 1 + i + 1 := by
      intro i record hi
      rw [hn (i + 1) record (by simpa using hi)]
      omega
    have hguard : (decide (record.journalVersion = scanned + 1) && decide (record.journalVersion ≤ through)) = true := by
      rw [Bool.and_eq_true, decide_eq_true_eq, decide_eq_true_eq]
      omega
    have hfits : ∀ rows : List Term, rows.length ≤ reversed.length + 1 → (∀ row ∈ rows, ∃ kvs, row = .map kvs) →
        (∀ row ∈ rows, externalSize row ≤ rowBytes) →
        externalSize (.tuple [sym "ok", (pageOf runtimeId sessionId through record.journalVersion
          (some (prefixToken record)) rows).toTerm]) ≤ pageBytes := by
      intro rows hlen hmaps hsmall
      refine Page.fits ⟨hthrough, ?_, ?_, ?_, ?_, ?_, ?_⟩
      · show record.journalVersion ≤ creationUint64
        omega
      · rintro _ ⟨⟩
        exact length_prefixToken record
      · show rows.reverse.length ≤ 16
        rw [List.length_reverse]
        omega
      · exact fun row hrow => hmaps row (List.mem_reverse.1 hrow)
      · exact fun row hrow => hsmall row (List.mem_reverse.1 hrow)
      · simp only [pageOf]
        split
        · exact .inl rfl
        · exact .inr rfl
    rw [lastToken_cons, List.length_cons, show scanned + (rest.length + 1) = record.journalVersion + rest.length by omega]
    rw [scan, rowsOf, rowOf, hguard]
    rw [← hversion] at hnext
    by_cases hb : boundedStamp record = true
    · rw [hb, Bool.and_true, if_pos rfl, if_pos rfl]
      cases hp : projection sessionId record with
      | none => rfl
      | some projected =>
        cases projected with
        | none =>
          have hsize := hfits reversed (by omega) hmaps hsmall
          simp only [Option.any_none, Bool.false_eq_true, if_false, hsize, if_true, bind, Option.bind_some]
          rw [ih hnext (by omega) (by omega) hmaps hsmall]
          cases rowsOf projection sessionId rest <;> rfl
        | some entries =>
          simp only [Option.any_some]
          by_cases hrow : externalSize (rowTerm record entries) ≤ rowBytes
          · have hmaps' : ∀ row ∈ rowTerm record entries :: reversed, ∃ kvs, row = .map kvs :=
              List.forall_mem_cons.2 ⟨⟨_, rfl⟩, hmaps⟩
            have hsmall' : ∀ row ∈ rowTerm record entries :: reversed, externalSize row ≤ rowBytes :=
              List.forall_mem_cons.2 ⟨hrow, hsmall⟩
            have hsize := hfits (rowTerm record entries :: reversed) (by simp) hmaps' hsmall'
            simp only [Nat.not_lt.2 hrow, decide_false, Bool.false_eq_true, if_false, hsize, hrow, if_true, bind,
              Option.bind_some]
            rw [ih hnext (by omega) (by rw [List.length_cons]; omega) hmaps' hsmall']
            cases rowsOf projection sessionId rest with
            | none => rfl
            | some rows => simp
          · simp only [Nat.lt_of_not_le hrow, decide_true, if_true, hrow, if_false, bind, Option.bind_none]
            rfl
    · rw [Bool.not_eq_true] at hb
      rw [hb]
      rfl

/-- A scan of a page of a journal. -/
theorem scan_page (hr : Reachable access S) {after count : ℕ} (hmax : through ≤ creationUint64)
    (hle : after + count ≤ through) (hcount : count ≤ 16) (hbound : through ≤ (S.recordsOf sessionId).length)
    (token : Option Bytes) :
    scan projection runtimeId sessionId through (System.page (S.recordsOf sessionId) after count) after token [] =
      (rowsOf projection sessionId (System.page (S.recordsOf sessionId) after count)).elim (.error .invalidHistory)
        fun rows => .ok (pageOf runtimeId sessionId through (after + count)
          (lastToken token (System.page (S.recordsOf sessionId) after count)) (rows.reverse ++ [])) := by
  have hlen : (System.page (S.recordsOf sessionId) after count).length = count := by
    rw [length_page]
    omega
  have hnumbered : ∀ i record, (System.page (S.recordsOf sessionId) after count)[i]? = some record →
      record.journalVersion = after + i + 1 :=
    fun i record hi => hr.numbered_records sessionId _ record (getElem?_page hi)
  rw [scan_eq hmax hnumbered (by omega) (by rw [List.length_nil]; omega) (by simp) (by simp), hlen]

/-! ## what a page covers -/

/-- Where a cursor goes on. -/
def startOf : Option Cursor → ℕ
  | none => 0
  | some (.page _ _ _ _ after) => after
  | some (.resume _ _ _ after _) => after

/-- The prefix of a cursor, or the one captured. -/
def throughOf (version : ℕ) : Option Cursor → ℕ
  | some (.page _ _ _ through _) => through
  | _ => version

theorem load_ok (hr : Reachable access S) (after : ℕ) {limit : ℕ} (hl : validatePage limit = true) :
    load (some S) sessionId after limit = .ok (System.page (S.recordsOf sessionId) after limit) := by
  rw [load, hr.load_records_ok sessionId after hl]

/-- The record before a position. -/
theorem page_boundary {records : List Record} {after : ℕ} {record : Record}
    (h : System.page records (after - 1) 1 = [record]) : records[after - 1]? = some record := by
  have hi : (System.page records (after - 1) 1)[0]? = some record := by rw [h]; rfl
  simpa using getElem?_page hi

/-- A cut of a journal at the position of a cursor. -/
structure Cut (records : List Record) (cursor : Option Cursor) (version through after : ℕ) (boundary : Option Bytes) :
    Prop where
  start : after = startOf cursor
  through_eq : through = throughOf version cursor
  pos : 0 < through
  le : after ≤ through
  bound : through ≤ version
  boundary_eq : boundary = none ∧ after < through ∨
    0 < after ∧ ∃ record, records[after - 1]? = some record ∧ boundary = some (prefixToken record)

theorem cut_spec (hr : ∀ S, stores 2 = some S → Reachable access S) {cursor : Option Cursor} {version after : ℕ}
    {boundary : Option Bytes} (hpos : 0 < version) (hcursor : validCursor cursor runtimeId sessionId = true)
    (h : cut projection (stores 2) sessionId cursor version = .ok (through, after, boundary)) :
    Cut (((stores 2).map fun S => S.recordsOf sessionId).getD []) cursor version through after boundary := by
  have hload : ∀ {after : ℕ} {record : Record}, load (stores 2) sessionId (after - 1) 1 = .ok [record] →
      (((stores 2).map fun S => S.recordsOf sessionId).getD [])[after - 1]? = some record := by
    intro after record hl
    cases hS : stores 2 with
    | none =>
      rw [hS] at hl
      cases hl
    | some S =>
      rw [hS, load_ok (hr S hS) (after - 1) (by decide)] at hl
      exact page_boundary (Except.ok.inj hl)
  unfold cut at h
  split at h
  · cases h
    exact ⟨rfl, rfl, hpos, Nat.zero_le _, le_rfl, .inl ⟨rfl, hpos⟩⟩
  · next expected =>
    simp only [validCursor, Bool.and_eq_true, decide_eq_true_eq, positiveVersion] at hcursor
    split at h
    · next hle =>
      split at h
      · next record hl =>
        obtain ⟨actual, hactual, h⟩ := Except.bind_eq_ok.1 h
        split at h
        · next heq =>
          split at h
          · cases h
            rw [boundaryToken] at hactual
            split at hactual <;> cases hactual
            exact ⟨rfl, rfl, hpos, hle, le_rfl, .inr ⟨hcursor.1.2.2, record, hload hl, by rw [heq]⟩⟩
          · cases h
        · cases h
      · cases h
      · cases h
    · cases h
  · simp only [validCursor, Bool.and_eq_true, decide_eq_true_eq, positiveVersion] at hcursor
    split at h
    · cases h
    · next hle =>
      split at h
      · next hlt =>
        cases h
        exact ⟨rfl, rfl, hcursor.1.1.2.2, hcursor.2, Nat.le_of_not_lt hle, .inl ⟨rfl, hlt⟩⟩
      · next hge =>
        split at h
        · next record hl =>
          split at h
          · cases h
            have hafter : 0 < after := by omega
            exact ⟨rfl, rfl, hcursor.1.1.2.2, hcursor.2, Nat.le_of_not_lt hle, .inr ⟨hafter, record, hload hl, rfl⟩⟩
          · cases h
        · cases h
        · cases h

/-- What a page covers of the journal that its head was captured of. -/
structure Covers (projection : Projection) (runtimeId sessionId : Identifier) (captured : List Record)
    (cursor : Option Cursor) (limit : ℕ) (page : Page) : Prop where
  through : page.throughVersion = throughOf captured.length cursor
  pos : 0 < page.throughVersion
  bound : page.throughVersion ≤ captured.length
  start : startOf cursor ≤ page.throughVersion
  scanned : page.scannedThrough = min (startOf cursor + limit) page.throughVersion
  rows : rowsOf projection sessionId ((captured.take page.scannedThrough).drop (startOf cursor)) = some page.rows
  token : ∃ record, captured[page.scannedThrough - 1]? = some record ∧ page.prefixToken = some (prefixToken record)
  next : page.nextCursor = if page.scannedThrough = page.throughVersion then none
    else some (.page 1 runtimeId sessionId page.throughVersion page.scannedThrough)

theorem head_ok (hr : ∀ S, stores 1 = some S → Reachable access S) {version : ℕ}
    (h : head (stores 1) sessionId = .ok version) :
    ∃ S, stores 1 = some S ∧ version = (S.recordsOf sessionId).length ∧ 0 < version ∧ version ≤ creationUint64 := by
  cases hS : stores 1 with
  | none =>
    rw [hS] at h
    cases h
  | some S =>
    cases hl : S.sessions.lookup sessionId with
    | none =>
      rw [hS] at h
      simp [head, RunEvidence.ownershipHead, State.ownershipHead, hl] at h
    | some session =>
      obtain ⟨hhead, hpos⟩ := RunEvidence.ownershipHead_of_session (hr S hS) hl
      rw [hS, head, hhead] at h
      simp only at h
      split at h
      · next hversion =>
        cases h
        simp only [positiveVersion, isVersion, Bool.and_eq_true, decide_eq_true_eq] at hversion
        exact ⟨S, rfl, rfl, hpos, hversion.1⟩
      · cases h

/-- **What one page covers.** -/
theorem read_covers (ho : Observed access stores) {cursor : Option Cursor} {limit : ℕ} {page : Page}
    (h : read projection stores runtimeId sessionId cursor limit = .ok page) :
    ∃ S, stores 1 = some S ∧ Covers projection runtimeId sessionId (S.recordsOf sessionId) cursor limit page := by
  obtain ⟨_, hquery, h⟩ := Except.bind_eq_ok.1 h
  obtain ⟨-, -, h⟩ := Except.bind_eq_ok.1 h
  obtain ⟨version, hhead, h⟩ := Except.bind_eq_ok.1 h
  obtain ⟨⟨through, after, boundary⟩, hcut, h⟩ := Except.bind_eq_ok.1 h
  obtain ⟨records, hrecords, hscan⟩ := Except.bind_eq_ok.1 h
  have hvalid : (1 ≤ limit ∧ limit ≤ 16) ∧ validCursor cursor runtimeId sessionId = true := by
    unfold validateQuery at hquery
    split at hquery
    · next hv => simpa using hv
    · cases hquery
  obtain ⟨S, hS, rfl, hpos, hmax⟩ := head_ok (fun S hS => ho.reachable hS) hhead
  have hc := cut_spec (fun S hS => ho.reachable hS) hpos hvalid.2 hcut
  have hafter := hc.le
  have hbound := hc.bound
  have hgrows := ho.growing_journals sessionId
  have hcaptured : journals stores sessionId 1 = some (S.recordsOf sessionId) := by rw [journals, hS]; rfl
  -- what the last call reads is within the captured prefix
  have hpage : records = System.page (S.recordsOf sessionId) after (min limit (through - after)) := by
    rw [recordsAfter] at hrecords
    split at hrecords
    · next he =>
      cases hrecords
      rw [he, Nat.sub_self, Nat.min_zero, System.page, List.take_zero]
    · next hne =>
      have hlimit : validatePage (min limit (through - after)) = true := by
        refine validatePage_iff.2 ?_
        simp only [maxItems]
        omega
      cases hS3 : stores 3 with
      | none =>
        rw [hS3, load, Store.loadRecords, hlimit] at hrecords
        cases hrecords
      | some S3 =>
        rw [hS3, load_ok (ho.reachable hS3) after hlimit] at hrecords
        have hpre := hgrows 1 3 _ (S3.recordsOf sessionId) (by omega) hcaptured (by rw [journals, hS3]; rfl)
        rw [page_of_isPrefix hpre (by omega)] at hrecords
        split at hrecords
        · cases hrecords
        · exact (Except.ok.inj hrecords).symm
  have hlen : records.length = min limit (through - after) := by
    rw [hpage, length_page]
    omega
  have hnumbered : ∀ i record, records[i]? = some record → record.journalVersion = after + i + 1 := by
    intro i record hi
    rw [hpage] at hi
    exact (ho.reachable hS).numbered_records sessionId _ record (getElem?_page hi)
  rw [scan_eq (hbound.trans hmax) hnumbered (by omega) (by rw [List.length_nil]; omega) (by simp) (by simp)] at hscan
  cases hrows : rowsOf projection sessionId records with
  | none =>
    rw [hrows] at hscan
    cases hscan
  | some rows =>
    rw [hrows] at hscan
    cases hscan
    have hscanned : after + records.length = min (startOf cursor + limit) through := by
      rw [← hc.start]
      omega
    refine ⟨S, hS, hc.through_eq, hc.pos, hbound, hc.start ▸ hafter, hscanned, ?_, ?_, rfl⟩
    · show rowsOf projection sessionId (((S.recordsOf sessionId).take (after + records.length)).drop (startOf cursor)) =
        some (rows.reverse ++ []).reverse
      rw [List.append_nil, List.reverse_reverse, ← hrows, ← hc.start, hlen, ← page_eq_drop, ← hpage]
    · show ∃ record, (S.recordsOf sessionId)[after + records.length - 1]? = some record ∧
        lastToken boundary records = some (prefixToken record)
      unfold lastToken
      cases hlast : records.getLast? with
      | some record =>
        refine ⟨record, ?_, rfl⟩
        have hsome : 0 < records.length := by
          cases records with
          | nil => cases hlast
          | cons => simp
        rw [List.getLast?_eq_getElem?, hpage] at hlast
        rw [← getElem?_page hlast, ← hpage]
        congr 1
        omega
      | none =>
        rw [List.getLast?_eq_none_iff] at hlast
        rw [hlast, List.length_nil] at hlen
        rcases hc.boundary_eq with ⟨-, hlt⟩ | ⟨hpositive, record, hrecord, hboundary⟩
        · omega
        · refine ⟨record, ?_, hboundary⟩
          rw [hlast, List.length_nil, Nat.add_zero]
          cases hS2 : stores 2 with
          | none =>
            rw [hS2] at hrecord
            cases hrecord
          | some S2 =>
            rw [hS2] at hrecord
            have hpre := hgrows 1 2 _ (S2.recordsOf sessionId) (by omega) hcaptured (by rw [journals, hS2]; rfl)
            rw [← getElem?_of_isPrefix hpre (by omega)]
            exact hrecord

/-! ## when a page is answered -/

theorem rowsOf_isSome {records : List Record} : (rowsOf projection sessionId records).isSome ↔
    ∀ record ∈ records, (rowOf projection sessionId record).isSome := by
  induction records with
  | nil => simp [rowsOf]
  | cons record records ih =>
    rw [List.forall_mem_cons, ← ih, rowsOf]
    cases rowOf projection sessionId record with
    | none => simp
    | some row => cases rowsOf projection sessionId records <;> simp

/-- A record of a history has a bounded stamp and a projection. -/
theorem rowOf_isSome {record : Record} (h : (rowOf projection sessionId record).isSome) :
    boundedStamp record = true ∧ (projection sessionId record).isSome := by
  unfold rowOf at h
  split at h
  · next hb =>
    refine ⟨hb, ?_⟩
    cases hp : projection sessionId record with
    | none =>
      rw [hp] at h
      cases h
    | some projected => rfl
  · cases h

/-- A cursor is one of this journal: its prefix is not longer, and its token is that of the record it goes on from. -/
def Fitting (records : List Record) : Option Cursor → Prop
  | none => True
  | some (.page _ _ _ through _) => through ≤ records.length
  | some (.resume _ _ _ after token) =>
    ∃ record, records[after - 1]? = some record ∧ prefixToken record = token

/-- Every call is answered, by a Store that knows the session as the runtime's and whose journal is within the
counters. -/
structure Answered (stores : ℕ → Option State) (runtimeId sessionId : Identifier) (n : ℕ) : Prop where
  answer : ∀ m, n ≤ m → ∃ S, stores m = some S ∧ scope (some S) runtimeId sessionId = .ok () ∧
    (S.recordsOf sessionId).length ≤ creationUint64

theorem load_boundary (ho : Observed access stores) {n m after : ℕ} {captured : List Record} {record : Record}
    (hle : n ≤ m) (hn : journals stores sessionId n = some captured) (hm : stores m = some S)
    (hrecord : captured[after - 1]? = some record) : load (stores m) sessionId (after - 1) 1 = .ok [record] := by
  have hpre := ho.growing_journals sessionId n m _ (S.recordsOf sessionId) hle hn (by rw [journals, hm]; rfl)
  have hlt := (List.getElem?_eq_some_iff.1 hrecord).1
  rw [hm, load_ok (ho.reachable hm) (after - 1) (by decide), page_of_isPrefix hpre (by omega), System.page,
    List.drop_eq_getElem_cons hlt, (List.getElem?_eq_some_iff.1 hrecord).2]
  rfl

theorem cut_answered (ho : Observed access stores) {cursor : Option Cursor} {captured : List Record}
    (hcaptured : journals stores sessionId 1 = some captured) (hanswer : ∃ S, stores 2 = some S)
    (hcursor : validCursor cursor runtimeId sessionId = true) (hfit : Fitting captured cursor)
    (hrows : ∀ record ∈ captured, (rowOf projection sessionId record).isSome) : ∃ boundary,
      cut projection (stores 2) sessionId cursor captured.length =
        .ok (throughOf captured.length cursor, startOf cursor, boundary) := by
  obtain ⟨S, hS⟩ := hanswer
  match cursor with
  | none => exact ⟨none, rfl⟩
  | some (.resume version runtime session after token) =>
    simp only [validCursor, Bool.and_eq_true, decide_eq_true_eq, positiveVersion] at hcursor
    obtain ⟨record, hrecord, htoken⟩ := hfit
    have hload := load_boundary ho (by omega) hcaptured hS hrecord
    have hlt := (List.getElem?_eq_some_iff.1 hrecord).1
    obtain ⟨hstamp, hprojection⟩ := rowOf_isSome (hrows record (List.mem_of_getElem? hrecord))
    obtain ⟨projected, hprojected⟩ := Option.isSome_iff_exists.1 hprojection
    refine ⟨some token, ?_⟩
    have hle : after ≤ captured.length := by omega
    simp only [cut, hle, if_true, hload, boundaryToken, hstamp, htoken, hprojected, bind, Except.bind]
    rfl
  | some (.page version runtime session through after) =>
    simp only [validCursor, Bool.and_eq_true, decide_eq_true_eq, positiveVersion] at hcursor
    have hthrough : through ≤ captured.length := hfit
    have hnot : ¬ through > captured.length := by omega
    by_cases hlt : after < through
    · refine ⟨none, ?_⟩
      simp only [cut, hnot, if_false, hlt, if_true]
      rfl
    · have hafter : after = through := by omega
      obtain ⟨record, hrecord⟩ : ∃ record, captured[after - 1]? = some record :=
        ⟨_, List.getElem?_eq_getElem (by omega : after - 1 < captured.length)⟩
      have hload := load_boundary ho (by omega) hcaptured hS hrecord
      obtain ⟨hstamp, hprojection⟩ := rowOf_isSome (hrows record (List.mem_of_getElem? hrecord))
      refine ⟨some (prefixToken record), ?_⟩
      simp only [cut, hnot, if_false, hlt, hload, hstamp, hprojection, Bool.and_self, if_true]
      rfl

/-- **A page is answered** of a session of the runtime whose records are all of its history. -/
theorem read_answered (ho : Observed access stores) (ha : Answered stores runtimeId sessionId 0)
    {cursor : Option Cursor} {limit : ℕ} (hlimit : 1 ≤ limit ∧ limit ≤ 16)
    (hcursor : validCursor cursor runtimeId sessionId = true) (hS : stores 1 = some S)
    (hfit : Fitting (S.recordsOf sessionId) cursor)
    (hrows : (rowsOf projection sessionId (S.recordsOf sessionId)).isSome) :
    ∃ page, read projection stores runtimeId sessionId cursor limit = .ok page := by
  obtain ⟨S₀, hS₀, hscope, -⟩ := ha.answer 0 le_rfl
  obtain ⟨S₁, hS₁, -, hmax⟩ := ha.answer 1 (Nat.zero_le _)
  rw [hS] at hS₁
  cases hS₁
  obtain ⟨S₂, hS₂, -⟩ := ha.answer 2 (Nat.zero_le _)
  obtain ⟨S₃, hS₃, -⟩ := ha.answer 3 (Nat.zero_le _)
  have hcaptured : journals stores sessionId 1 = some (S.recordsOf sessionId) := by rw [journals, hS]; rfl
  have hquery : validateQuery runtimeId sessionId cursor limit = .ok () := by
    simp [validateQuery, hlimit, hcursor]
  have hhead : head (stores 1) sessionId = .ok (S.recordsOf sessionId).length := by
    obtain ⟨row, hrow⟩ : ∃ row, RunEvidence.creationProvenance (some S₀) runtimeId sessionId = .historical row := by
      unfold scope at hscope
      split at hscope
      · next row h => exact ⟨row, h⟩
      all_goals cases hscope
    obtain ⟨session₀, hl₀⟩ := RunEvidence.session_of_historical hrow
    obtain ⟨-, presented, hrun⟩ := ho 0 1 S₀ S (by omega) hS₀ hS
    obtain ⟨session, hl, -⟩ := grows_run hrun _ _ hl₀
    obtain ⟨hanswer, hpos⟩ := RunEvidence.ownershipHead_of_session (ho.reachable hS) hl
    have hversion : positiveVersion (S.recordsOf sessionId).length = true := by
      simp [positiveVersion, isVersion, hmax, hpos]
    simp only [head, hS, hanswer, hversion, if_true]
  have hall := rowsOf_isSome.1 hrows
  obtain ⟨boundary, hcut⟩ := cut_answered ho hcaptured ⟨S₂, hS₂⟩ hcursor hfit hall
  have hpos : 0 < (S.recordsOf sessionId).length := by
    obtain ⟨S', hS', -, hpos, -⟩ := head_ok (fun S hS => ho.reachable hS) hhead
    exact hpos
  have hc := cut_spec (fun S hS => ho.reachable hS) hpos hcursor hcut
  have hle := hc.le
  have hbound := hc.bound
  have hpre := ho.growing_journals sessionId 1 3 _ (S₃.recordsOf sessionId) (by omega) hcaptured
    (by rw [journals, hS₃]; rfl)
  have hrecords : recordsAfter (stores 3) sessionId (startOf cursor) (throughOf (S.recordsOf sessionId).length cursor)
      limit = .ok (System.page (S.recordsOf sessionId) (startOf cursor)
        (min limit (throughOf (S.recordsOf sessionId).length cursor - startOf cursor))) := by
    rw [recordsAfter]
    split
    · next he => rw [he, Nat.sub_self, Nat.min_zero, System.page, List.take_zero]
    · next hne =>
      have hl : validatePage (min limit (throughOf (S.recordsOf sessionId).length cursor - startOf cursor)) = true := by
        refine validatePage_iff.2 ?_
        simp only [maxItems]
        omega
      rw [hS₃, load_ok (ho.reachable hS₃) _ hl, page_of_isPrefix hpre (by omega)]
      have hlen := length_page (S.recordsOf sessionId) (startOf cursor)
        (min limit (throughOf (S.recordsOf sessionId).length cursor - startOf cursor))
      split
      · next hnil =>
        rw [Except.ok.inj hnil, List.length_nil] at hlen
        omega
      · rfl
  have hscan : scan projection runtimeId sessionId _ _ _ boundary [] = _ :=
    scan_page (ho.reachable hS) (hbound.trans hmax)
      (by omega : startOf cursor + min limit (throughOf (S.recordsOf sessionId).length cursor - startOf cursor) ≤ _)
      (by omega) hbound boundary
  obtain ⟨rows, hpage⟩ := Option.isSome_iff_exists.1 (rowsOf_isSome.2 fun record hrecord =>
    hall record (mem_of_mem_page hrecord))
  rw [hpage] at hscan
  have hread : read projection stores runtimeId sessionId cursor limit = scan projection runtimeId sessionId
      (throughOf (S.recordsOf sessionId).length cursor) (System.page (S.recordsOf sessionId) (startOf cursor)
        (min limit (throughOf (S.recordsOf sessionId).length cursor - startOf cursor))) (startOf cursor) boundary [] := by
    rw [read, hquery, hS₀, hscope, hhead]
    simp only [bind, Except.bind, hcut, hrecords]
  exact ⟨_, hread.trans hscan⟩

/-! ## a chain of pages -/

section Chain

variable {β : Type} {f : β → Term → β}

/-- The loop of a host over the pages of a session, from the `n`th call on: it folds the rows, and ends with the page
that has no next cursor; `none` is that the fuel ran out. -/
def scanIntents (projection : Projection) (f : β → Term → β) (stores : ℕ → Option State)
    (runtimeId sessionId : Identifier) : ℕ → ℕ → Option Cursor → β → Option (Except ReadError (β × Page))
  | 0, _, _, _ => none
  | fuel + 1, n, cursor, intents =>
    match read projection (fun m => stores (n + m)) runtimeId sessionId cursor 16 with
    | .ok page =>
      match page.nextCursor with
      | some next =>
        scanIntents projection f stores runtimeId sessionId fuel (n + 4) (some next) (page.rows.foldl f intents)
      | none => some (.ok (page.rows.foldl f intents, page))
    | .error error => some (.error error)

theorem Observed.shift (ho : Observed access stores) (n : ℕ) : Observed access fun m => stores (n + m) :=
  fun _ _ S S' hle hS hS' => ho _ _ S S' (by omega) hS hS'

/-- What the pages from a position on cover of a captured journal. -/
structure Covered (projection : Projection) (sessionId : Identifier) (f : β → Term → β) (captured : List Record)
    (after : ℕ) (intents : β) (result : β × Page) : Prop where
  rows : ∃ rows, rowsOf projection sessionId (captured.drop after) = some rows ∧ result.1 = rows.foldl f intents
  through : result.2.throughVersion = captured.length
  scanned : result.2.scannedThrough = captured.length
  token : ∃ record, captured[captured.length - 1]? = some record ∧ result.2.prefixToken = some (prefixToken record)

theorem drop_take_drop {records : List Record} {after scanned : ℕ} (hle : after ≤ scanned) :
    (records.take scanned).drop after ++ records.drop scanned = records.drop after := by
  conv_rhs => rw [← List.take_append_drop scanned records]
  rcases Nat.lt_or_ge records.length scanned with h | h
  · rw [List.take_of_length_le h.le, List.drop_eq_nil_of_le h.le, List.append_nil, List.append_nil]
  · rw [List.drop_append_of_le_length (by rw [List.length_take]; omega)]

/-- The step: the journals of the calls to come start with the captured one, and the cursor goes on in it. -/
theorem scanIntents_covered (ho : Observed access stores) {captured : List Record} {fuel n : ℕ}
    {cursor : Option Cursor} {intents : β} {result : β × Page}
    (hstarts : ∀ m S, n ≤ m → stores (m + 1) = some S → captured <+: S.recordsOf sessionId)
    (hthrough : ∀ S, stores (n + 1) = some S → throughOf (S.recordsOf sessionId).length cursor = captured.length)
    (h : scanIntents projection f stores runtimeId sessionId fuel n cursor intents = some (.ok result)) :
    Covered projection sessionId f captured (startOf cursor) intents result := by
  induction fuel generalizing n cursor intents with
  | zero => cases h
  | succ fuel ih =>
    rw [scanIntents] at h
    cases hread : read projection (fun m => stores (n + m)) runtimeId sessionId cursor 16 with
    | error error =>
      rw [hread] at h
      cases h
    | ok page =>
      obtain ⟨S, hS, hc⟩ := read_covers (Observed.shift ho n) hread
      have hpre := hstarts n S le_rfl hS
      have hlen : page.throughVersion = captured.length := hc.through.trans (hthrough S hS)
      have hscanned := hc.scanned
      have hstart := hc.start
      have hrows := hc.rows
      rw [take_of_isPrefix hpre (by omega)] at hrows
      rw [hread] at h
      cases hnext : page.nextCursor with
      | none =>
        simp only [hnext] at h
        cases h
        have hfull : page.scannedThrough = captured.length := by
          have hn := hc.next
          rw [hnext] at hn
          split at hn
          · next he => rw [he, hlen]
          · cases hn
        rw [hfull, List.take_length] at hrows
        obtain ⟨record, hrecord, htoken⟩ := hc.token
        refine ⟨⟨page.rows, hrows, rfl⟩, hlen, hfull, record, ?_, htoken⟩
        rw [hfull] at hrecord
        have hpos : 0 < captured.length := hlen ▸ hc.pos
        rw [← getElem?_of_isPrefix hpre (by omega)]
        exact hrecord
      | some next =>
        simp only [hnext] at h
        have hn := hc.next
        rw [hnext] at hn
        split at hn
        · cases hn
        · next hne =>
          cases hn
          have hrec : Covered projection sessionId f captured
              (startOf (some (.page 1 runtimeId sessionId page.throughVersion page.scannedThrough))) _ result :=
            ih (fun m S hm => hstarts m S (by omega)) (fun S _ => hlen) h
          obtain ⟨⟨rows, hrest, heq⟩, hlater, hend, htoken⟩ := hrec
          refine ⟨⟨page.rows ++ rows, ?_, ?_⟩, hlater, hend, htoken⟩
          · rw [← drop_take_drop (by omega : startOf cursor ≤ page.scannedThrough), rowsOf_append, hrows]
            show (rowsOf projection sessionId (captured.drop page.scannedThrough)).map _ = _
            rw [show startOf (some _) = page.scannedThrough from rfl] at hrest
            rw [hrest]
            rfl
          · rw [List.foldl_append]
            exact heq

/-- The records of every journal to come are records of this history. -/
def Projects (projection : Projection) (stores : ℕ → Option State) (sessionId : Identifier) (n : ℕ) : Prop :=
  ∀ m S, n ≤ m → stores m = some S → (rowsOf projection sessionId (S.recordsOf sessionId)).isSome

/-- The loop ends, if every call is answered. -/
theorem scanIntents_total (ho : Observed access stores) {captured : List Record} {fuel n : ℕ}
    {cursor : Option Cursor} {intents : β} (ha : Answered stores runtimeId sessionId n)
    (hproject : Projects projection stores sessionId n)
    (hstarts : ∀ m S, n ≤ m → stores (m + 1) = some S → captured <+: S.recordsOf sessionId)
    (hthrough : ∀ S, stores (n + 1) = some S → throughOf (S.recordsOf sessionId).length cursor = captured.length ∧
      Fitting (S.recordsOf sessionId) cursor)
    (hcursor : validCursor cursor runtimeId sessionId = true) (hfuel : captured.length - startOf cursor < fuel) :
    ∃ result, scanIntents projection f stores runtimeId sessionId fuel n cursor intents = some (.ok result) := by
  induction fuel generalizing n cursor intents with
  | zero => omega
  | succ fuel ih =>
    obtain ⟨S, hS, -, hmax⟩ := ha.answer (n + 1) (by omega)
    obtain ⟨hlen, hfit⟩ := hthrough S hS
    have ha' : Answered (fun m => stores (n + m)) runtimeId sessionId 0 := ⟨fun m _ => ha.answer (n + m) (by omega)⟩
    obtain ⟨page, hread⟩ := read_answered (Observed.shift ho n) ha' (by decide : 1 ≤ 16 ∧ 16 ≤ 16) hcursor hS hfit
      (hproject (n + 1) S (by omega) hS)
    obtain ⟨S', hS', hc⟩ := read_covers (Observed.shift ho n) hread
    obtain rfl : S = S' := Option.some.inj (hS.symm.trans hS')
    have hscanned := hc.scanned
    have hstart := hc.start
    have hbound := hc.bound
    have hpagelen : page.throughVersion = captured.length := hc.through.trans hlen
    rw [scanIntents, hread]
    cases hnext : page.nextCursor with
    | none =>
      simp only [hnext]
      exact ⟨_, rfl⟩
    | some next =>
      simp only [hnext]
      have hn := hc.next
      rw [hnext] at hn
      split at hn
      · cases hn
      · next hne =>
        cases hn
        refine ih ⟨fun m hm => ha.answer m (by omega)⟩ (fun m S hm => hproject m S (by omega))
          (fun m S hm => hstarts m S (by omega)) (fun S hS => ⟨hpagelen, ?_⟩) ?_ ?_
        · have hle := (hstarts (n + 4) S (by omega) hS).length_le
          show page.throughVersion ≤ _
          omega
        · have hpos := hc.pos
          have h1 : page.throughVersion ≤ creationUint64 := hbound.trans hmax
          have h2 : page.scannedThrough ≤ page.throughVersion := by omega
          simp [validCursor, positiveVersion, isVersion, hpos, h1, h2, h2.trans h1]
        · show captured.length - page.scannedThrough < fuel
          omega

/-- **Pages cover a prefix, and a later reader goes on from it.**  A chain of pages from the start, or from the token of
an earlier one, ends with the head its first call captured, whatever commits between the calls: every record of the
captured journal past the start has been projected once and in order, and the token of the last page is one that every
later journal still has.  If the calls are answered and no record is refused, the chain does end.  No page is cut short
for its size: every one that is answered, whatever its cursor, is scanned to its limit or to the head. -/
theorem coverage (ho : Observed access stores) {cursor : Option Cursor} {n : ℕ}
    (hstart : ∀ v r s through after, cursor ≠ some (.page v r s through after)) (fuel : ℕ) (intents : β) :
    (∀ result page,
      scanIntents projection f stores runtimeId sessionId fuel n cursor intents = some (.ok (result, page)) →
      ∃ S rows, stores (n + 1) = some S ∧
        rowsOf projection sessionId ((S.recordsOf sessionId).drop (startOf cursor)) = some rows ∧
        result = rows.foldl f intents ∧ page.scannedThrough = (S.recordsOf sessionId).length ∧
        ∃ token, page.prefixToken = some token ∧ ∀ m S', n + 1 ≤ m → stores m = some S' →
          Fitting (S'.recordsOf sessionId) (some (.resume 1 runtimeId sessionId page.scannedThrough token))) ∧
    (Answered stores runtimeId sessionId n → Projects projection stores sessionId n →
      validCursor cursor runtimeId sessionId = true →
      (∀ S, stores (n + 1) = some S →
        Fitting (S.recordsOf sessionId) cursor ∧ (S.recordsOf sessionId).length - startOf cursor < fuel) →
      ∃ result, scanIntents projection f stores runtimeId sessionId fuel n cursor intents = some (.ok result)) ∧
    ∀ m cursor' limit page,
      read projection (fun k => stores (m + k)) runtimeId sessionId cursor' limit = .ok page →
      page.scannedThrough = min (startOf cursor' + limit) page.throughVersion := by
  have hgrows := ho.growing_journals sessionId
  have hthrough : ∀ version, throughOf version cursor = version := by
    intro version
    unfold throughOf
    split
    · next v r s through after => exact absurd rfl (hstart v r s through after)
    · rfl
  have hstarts : ∀ S, stores (n + 1) = some S → ∀ m S', n ≤ m → stores (m + 1) = some S' →
      S.recordsOf sessionId <+: S'.recordsOf sessionId := by
    intro S hS m S' hm hS'
    exact hgrows (n + 1) (m + 1) _ _ (by omega) (by rw [journals, hS]; rfl) (by rw [journals, hS']; rfl)
  refine ⟨?_, ?_, ?_⟩
  · intro result page h
    cases hS : stores (n + 1) with
    | none =>
      cases fuel with
      | zero => cases h
      | succ fuel =>
        rw [scanIntents] at h
        cases hread : read projection (fun m => stores (n + m)) runtimeId sessionId cursor 16 with
        | error error =>
          rw [hread] at h
          cases h
        | ok page' =>
          obtain ⟨S, hS', -⟩ := read_covers (Observed.shift ho n) hread
          exact absurd (hS.symm.trans hS') (by simp)
    | some S =>
      obtain ⟨⟨rows, hrows, heq⟩, -, hscanned, record, hrecord, htoken⟩ := scanIntents_covered ho (hstarts S hS)
        (fun S' hS' => by rw [hthrough, Option.some.inj (hS.symm.trans hS')]) h
      refine ⟨S, rows, rfl, hrows, heq, hscanned, _, htoken, fun m S' hm hS' => ⟨record, ?_, rfl⟩⟩
      have hpre := hgrows (n + 1) m _ (S'.recordsOf sessionId) hm (by rw [journals, hS]; rfl) (by rw [journals, hS']; rfl)
      have hlt := (List.getElem?_eq_some_iff.1 hrecord).1
      rw [show page.scannedThrough = (S.recordsOf sessionId).length from hscanned, getElem?_of_isPrefix hpre hlt]
      exact hrecord
  · intro ha hproject hcursor hfit
    obtain ⟨S, hS, -⟩ := ha.answer (n + 1) (by omega)
    refine scanIntents_total ho ha hproject (hstarts S hS) (fun S' hS' => ⟨?_, (hfit S' hS').1⟩) hcursor (hfit S hS).2
    rw [hthrough, Option.some.inj (hS.symm.trans hS')]
  · intro m cursor' limit page hread
    obtain ⟨S, -, hcovers⟩ := read_covers (Observed.shift ho m) hread
    exact hcovers.scanned

end Chain

/-! ## the coverage of a resumed session -/

section Resumed

theorem observed_settled : Observed noAccess fun _ => some resumedState := by
  intro m n S S' _ hS hS'
  cases hS
  cases hS'
  exact ⟨reachable_resumed, [], .nil⟩

theorem recordsOf_resumed : resumedState.recordsOf Opening.bare.sessionId = resumedSession.records := by
  rw [State.recordsOf, resumedState_session]

theorem scope_resumed : scope (some resumedState) Opening.bare.runtimeId Opening.bare.sessionId = .ok () := by
  obtain ⟨row, hrow⟩ := historical_resumed
  rw [scope, hrow]

/-- The successions of a journal are projected to their epochs, and its other records to nothing. -/
def epochs : Projection := fun _ record =>
  if record.ownerEpoch = 0 then some none else some (some [(sym "owner_epoch", .int record.ownerEpoch)])

theorem epochs_resumed : resumedSession.records.length = 3 ∧
    (rowsOf epochs Opening.bare.sessionId resumedSession.records).map List.length = some 2 := by
  decide +kernel

/-- The two successions of a session that was resumed, in one chain. -/
theorem coverage_resumed : ∃ page, scanIntents epochs (fun count _ => count + 1) (fun _ => some resumedState)
    Opening.bare.runtimeId Opening.bare.sessionId 4 0 none 0 = some (.ok (2, page)) ∧ page.scannedThrough = 3 := by
  obtain ⟨hlen, hrows⟩ := epochs_resumed
  have hends : ∃ result, scanIntents epochs (fun count _ => count + 1) (fun _ => some resumedState)
      Opening.bare.runtimeId Opening.bare.sessionId 4 0 none 0 = some (.ok result) := by
    refine (coverage observed_settled (fun _ _ _ _ _ h => by cases h) 4 0).2.1
      ⟨fun m _ => ⟨_, rfl, scope_resumed, ?_⟩⟩ ?_ rfl ?_
    · rw [recordsOf_resumed, hlen]
      decide
    · rintro m S - ⟨⟩
      rw [recordsOf_resumed, ← Option.isSome_map, hrows]
      rfl
    · rintro S ⟨⟩
      rw [recordsOf_resumed, hlen]
      exact ⟨trivial, by decide⟩
  obtain ⟨⟨count, page⟩, hresult⟩ := hends
  obtain ⟨S, rows, hS, hall, rfl, hscanned, -⟩ :=
    (coverage observed_settled (fun _ _ _ _ _ h => by cases h) 4 0).1 count page hresult
  cases hS
  rw [recordsOf_resumed] at hall hscanned
  rw [show resumedSession.records.drop (startOf none) = resumedSession.records from rfl] at hall
  rw [hall] at hrows
  have hcount : rows.foldl (fun count _ => count + 1) 0 = 2 := by
    rw [List.foldl_const, Nat.succ_iterate, Nat.zero_add]
    exact Option.some.inj hrows
  exact ⟨page, by rw [hresult, hcount], by rw [hscanned, hlen]⟩

end Resumed

end Loopex.Runtime.EffectIntents
