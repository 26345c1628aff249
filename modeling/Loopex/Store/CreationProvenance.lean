import Loopex.Store.CreationPort

/-!
# Creation provenance

Historical observations of the sessions a runtime created: by their command, by their identity, or page by page
up to the creations of a first page.  `CreationProvenance` validates an observation, for the port and for the
Store; `State.creationProvenance` makes one.

* `Selector`, `Provenance` — what is asked, and the answer
* `normalize` — the validator; a row is a map without `__struct__`
* `State.creationProvenance` — the query
* `normalize_point`, `normalize_page` — the validator passes the rows of the index
-/

namespace Loopex.Store

open Loopex.Erlang Loopex.Erlang.Term Loopex.Runtime

namespace CreationProvenance

def rowBytes : ℕ := 65536

def pageBytes : ℕ := 1114112

/-! ## selectors and answers -/

inductive Selector where
  | command (commandId : Term)
  | session (sessionId : Term)
  | runtimePage (cursor : Term) (limit : ℤ)

inductive Provenance where
  | absent
  | conflict
  | unavailable
  | unexpected
  | historical (row : Term)
  | page (page : Term)
  deriving DecidableEq

/-- `identifier?` -/
def identifier (t : Term) : Bool := (asIdentifier t).isSome

/-- `quantity?`, with the quantity. -/
def quantity (t : Term) : Option ℕ := creationCounter t

def cursorKeys : List String := ["version", "runtime_id", "through_create_ordinal", "after_create_ordinal"]

/-- `valid_cursor?` -/
def validCursor (runtime cursor : Term) : Bool :=
  if cursor = nil then identifier runtime
  else closedMap cursor cursorKeys && atomField cursor "version" = .int 1 &&
    atomField cursor "runtime_id" = runtime && identifier runtime &&
    match quantity (atomField cursor "through_create_ordinal"), quantity (atomField cursor "after_create_ordinal") with
    | some through, some after => after ≤ through
    | _, _ => false

/-- `valid_selector?` -/
def validSelector (runtime : Term) : Selector → Bool
  | .command command => identifier runtime && identifier command
  | .session session => identifier runtime && identifier session
  | .runtimePage cursor limit => identifier runtime && 1 ≤ limit && limit ≤ 16 && validCursor runtime cursor

def cursorFields (runtime : Term) (through after : ℕ) : Fields :=
  [("version", .int 1), ("runtime_id", runtime), ("through_create_ordinal", .int through),
    ("after_create_ordinal", .int after)]

/-- `cursor`: none after the last ordinal. -/
def cursor (runtime : Term) (through after : ℕ) : Term :=
  if after = through then nil else atomMap (cursorFields runtime through after)

/-! ## the validator -/

/-- `digest?` -/
def digest : Term → Bool := isDigest

/-- `valid_row?` -/
def validRow (runtime row : Term) (ordinal : Bool) : Bool :=
  match row with
  | .map kvs =>
    looseEq (atomField row "version") (.int 1) && looseEq (atomField row "runtime_id") runtime &&
      kvs.length = (if ordinal then 7 else 6) && identifier (atomField row "runtime_id") &&
      identifier (atomField row "command_id") && identifier (atomField row "session_id") &&
      looseEq (atomField row "genesis_version") (.int 3) && digest (atomField row "canonical_create_digest") &&
      (!ordinal || (quantity (atomField row "create_ordinal")).any (0 < ·)) && externalSize row ≤ rowBytes
  | _ => false

/-- `valid_rows?` -/
def validRows (runtime : Term) : List Term → ℤ → ℤ → List Term → Bool
  | [], _, remaining, _ => remaining = 0
  | row :: rest, previous, remaining, seen =>
    1 ≤ remaining && remaining ≤ 16 && validRow runtime row true &&
      looseEq (atomField row "create_ordinal") (.int (previous + 1)) &&
      seen.all (fun s => !looseEq (atomField s "command_id") (atomField row "command_id") &&
        !looseEq (atomField s "session_id") (atomField row "session_id")) &&
      validRows runtime rest (previous + 1) (remaining - 1) (row :: seen)

/-- `page_start` -/
def pageStart (cursor through : Term) : Option Term :=
  if cursor = nil then some (.int 0)
  else if atomField cursor "through_create_ordinal" = through then some (atomField cursor "after_create_ordinal")
  else none

def pageKeys : List String := ["version", "runtime_id", "through_create_ordinal", "rows", "next_cursor"]

/-- The checks on a page. -/
def validPage (runtime cursor : Term) (limit : ℤ) (page : Term) : Bool :=
  closedMap page pageKeys && atomField page "version" = .int 1 && atomField page "runtime_id" = runtime &&
    match quantity (atomField page "through_create_ordinal"),
      pageStart cursor (atomField page "through_create_ordinal"), atomField page "rows" with
    | some through, some (.int after), .list rows =>
      validRows runtime rows after (min limit (through - after)) [] &&
        looseEq (atomField page "next_cursor")
          (CreationProvenance.cursor runtime through (min (after + limit) through).toNat) &&
        externalSize page ≤ pageBytes
    | _, _, _ => false

/-- `normalize` -/
def normalize (runtime : Term) : Selector → Provenance → Provenance
  | .command command, .historical row =>
    if validRow runtime row false && looseEq (atomField row "command_id") command then .historical row
    else .unavailable
  | .session session, .historical row =>
    if validRow runtime row false && looseEq (atomField row "session_id") session then .historical row
    else .unavailable
  | .runtimePage cursor limit, .page page =>
    if validPage runtime cursor limit page then .page page else .unavailable
  | .command _, .absent | .session _, .absent => .absent
  | .command _, .conflict | .session _, .conflict => .conflict
  | .runtimePage .., .conflict => .unexpected
  | _, _ => .unavailable

end CreationProvenance

open CreationProvenance

/-! ## rows as maps -/

/-- A row without its ordinal. -/
def CreationRow.fields (row : CreationRow) : Fields :=
  [("version", .int 1), ("runtime_id", row.runtimeId.term), ("command_id", row.commandId.term),
    ("session_id", row.sessionId.term), ("genesis_version", .int 3),
    ("canonical_create_digest", .binary row.canonicalCreateDigest)]

/-- `Map.delete(row, :create_ordinal)` -/
def CreationRow.point (row : CreationRow) : Term := atomMap row.fields

/-- A row with its ordinal. -/
def CreationRow.ordinalFields (row : CreationRow) : Fields :=
  row.fields ++ [("create_ordinal", .int row.createOrdinal)]

def CreationRow.toTerm (row : CreationRow) : Term := atomMap row.ordinalFields

/-- A row of the index, which may be `:unavailable`. -/
def rowTerm : Option CreationRow → Term
  | some row => row.toTerm
  | none => sym "unavailable"

/-! ## the query -/

/-- `creation_endpoints?` -/
def creationEndpoints (S : State) (r : Identifier) (through : ℕ) : Bool :=
  if through = 0 then (S.creationRows.lookup (r, 1)).isNone
  else (S.creationRows.lookup (r, 1)).isSome && (S.creationRows.lookup (r, through)).isSome

/-- `complete_creation_index?` -/
def completeCreationIndex (S : State) (r : Identifier) : Bool :=
  S.creationRows.entries.length = S.sessions.entries.length &&
    S.sessionCreations.entries.length = S.sessions.entries.length &&
    creationEndpoints S r ((S.createOrdinals.lookup r).getD 0)

/-- `creation_query` of a session. -/
def creationQuerySession (S : State) (r : Identifier) (session : Identifier) : Provenance :=
  match S.sessions.lookup session with
  | none => .absent
  | some found =>
    if found.runtimeId ≠ r then .conflict
    else match S.sessionCreations.lookup session with
      | some (runtime, ordinal) =>
        if runtime ≠ r then .unavailable
        else match S.creationRows.lookup (r, ordinal) with
          | some (some row) => if row.sessionId = session then .historical row.point else .unavailable
          | _ => .unavailable
      | none => .unavailable

/-- `creation_query` of a command. -/
def creationQueryCommand (S : State) (r : Identifier) (command : Identifier) : Provenance :=
  match S.runtimeCommands.lookup (r, command) with
  | none => .absent
  | some (.created _ session) => creationQuerySession S r session
  | some _ => .conflict

def pageFields (r : Identifier) (through : ℕ) (rows : List Term) (last : ℕ) : Fields :=
  [("version", .int 1), ("runtime_id", r.term), ("through_create_ordinal", .int through), ("rows", .list rows),
    ("next_cursor", CreationProvenance.cursor r.term through last)]

/-- The rows after an ordinal. -/
def creationRowsAfter (S : State) (r : Identifier) (after last : ℕ) : List Term :=
  (List.range' (after + 1) (last - after)).map fun n => rowTerm ((S.creationRows.lookup (r, n)).getD none)

/-- The page after an ordinal. -/
def creationPage (S : State) (r : Identifier) (through after last : ℕ) : Term :=
  atomMap (pageFields r through (creationRowsAfter S r after last) last)

/-- `creation_query` of a page. -/
def creationQueryPage (S : State) (r : Identifier) (cursor : Term) (limit : ℕ) : Provenance :=
  let current := (S.createOrdinals.lookup r).getD 0
  let through := if cursor = nil then some current else quantity (atomField cursor "through_create_ordinal")
  let after := if cursor = nil then some 0 else quantity (atomField cursor "after_create_ordinal")
  match through, after with
  | some through, some after =>
    if through > current then .conflict
    else
      let last := min (after + limit) through
      normalize r.term (.runtimePage cursor limit) (.page (creationPage S r through after last))
  | _, _ => .unavailable

/-- `creation_query` -/
def creationQuery (S : State) (r : Identifier) : Selector → Provenance
  | .command command => ((asIdentifier command).map (creationQueryCommand S r)).getD .absent
  | .session session => ((asIdentifier session).map (creationQuerySession S r)).getD .absent
  | .runtimePage cursor limit => creationQueryPage S r cursor limit.toNat

/-- `creation_provenance` -/
def State.creationProvenance (S : State) (runtime : Term) (selector : Selector) : Provenance :=
  match asIdentifier runtime with
  | some r =>
    if validSelector runtime selector && completeCreationIndex S r then creationQuery S r selector
    else .unavailable
  | none => .unavailable

/-! ## the names -/

def pointKeys : List String :=
  ["version", "runtime_id", "command_id", "session_id", "genesis_version", "canonical_create_digest"]

/-- The names of a row, of a page and of a cursor are short and none is another. -/
theorem provenance_keys : Apart pointKeys ∧ Apart (pointKeys ++ ["create_ordinal"]) ∧ Apart pageKeys ∧
    Apart cursorKeys ∧ ∀ name ∈ pointKeys ++ ["create_ordinal"] ++ pageKeys ++ cursorKeys,
      (encode (sym name)).length ≤ 40 := by
  decide +kernel

theorem CreationRow.fields_apart (row : CreationRow) : Apart (row.fields.map Prod.fst) := provenance_keys.1

theorem CreationRow.ordinalFields_apart (row : CreationRow) : Apart (row.ordinalFields.map Prod.fst) :=
  provenance_keys.2.1

theorem CreationRow.atomField_point (row : CreationRow) (name : String) :
    atomField row.point name = (row.fields.get name).getD nil :=
  atomField_atomMap row.fields_apart name

theorem CreationRow.atomField_toTerm (row : CreationRow) (name : String) :
    atomField row.toTerm name = (row.ordinalFields.get name).getD nil :=
  atomField_atomMap row.ordinalFields_apart name

/-! ## rows -/

/-- A row of the index. -/
structure CreationRow.Sound (row : CreationRow) : Prop where
  digest : row.canonicalCreateDigest.length = 64 ∧ row.canonicalCreateDigest.all isHex = true
  positive : 0 < row.createOrdinal
  bounded : row.createOrdinal ≤ creationUint64

@[simp] theorem identifier_term (id : Identifier) : identifier id.term = true := by simp [identifier]

theorem quantity_int {n : ℕ} (h : n ≤ creationUint64) : quantity (.int n) = some n := creationCounter_int h

variable {row : CreationRow}

theorem CreationRow.encode_toTerm (h : row.Sound) : (encode row.toTerm).length ≤ 1600 := by
  have h1 := encode_identifier_length row.runtimeId
  have h2 := encode_identifier_length row.commandId
  have h3 := encode_identifier_length row.sessionId
  have h4 := encode_counter_length h.bounded
  have h5 : (encode (.binary row.canonicalCreateDigest)).length = 69 := by
    rw [encode_binary_length, h.digest.1]
  have h6 : (encode (.int 1)).length = 2 ∧ (encode (.int 3)).length = 2 := ⟨rfl, rfl⟩
  have hle : (encode row.toTerm).length ≤ _ := encode_atomMap_le row.ordinalFields_apart fun name hn =>
    provenance_keys.2.2.2.2 name (List.mem_append_left _ (List.mem_append_left _ hn))
  simp only [CreationRow.ordinalFields, CreationRow.fields, List.cons_append, List.nil_append, List.map_cons,
    List.map_nil, List.sum_cons, List.sum_nil, h5, h6.1, h6.2] at hle
  omega

theorem CreationRow.encode_point (h : row.Sound) : (encode row.point).length ≤ 1600 := by
  have h1 := encode_identifier_length row.runtimeId
  have h2 := encode_identifier_length row.commandId
  have h3 := encode_identifier_length row.sessionId
  have h5 : (encode (.binary row.canonicalCreateDigest)).length = 69 := by
    rw [encode_binary_length, h.digest.1]
  have h6 : (encode (.int 1)).length = 2 ∧ (encode (.int 3)).length = 2 := ⟨rfl, rfl⟩
  have hle : (encode row.point).length ≤ _ := encode_atomMap_le row.fields_apart fun name hn =>
    provenance_keys.2.2.2.2 name (List.mem_append_left _ (List.mem_append_left _ (List.mem_append_left _ hn)))
  simp only [CreationRow.fields, List.map_cons, List.map_nil, List.sum_cons, List.sum_nil, h5, h6.1, h6.2] at hle
  omega

/-- A row of the index is valid, with its ordinal and without. -/
theorem CreationRow.valid (h : row.Sound) : validRow row.runtimeId.term row.toTerm true = true ∧
    validRow row.runtimeId.term row.point false = true := by
  have hdigest : CreationProvenance.digest (.binary row.canonicalCreateDigest) = true := by
    simp [CreationProvenance.digest, isDigest, h.digest]
  have hrow := CreationRow.encode_toTerm h
  have hpoint := CreationRow.encode_point h
  constructor
  · have hlen : row.ordinalFields.entries.length = 7 := (perm_fields row.ordinalFields_apart).length_eq
    have hsize : externalSize row.toTerm ≤ rowBytes := by
      rw [externalSize_eq, rowBytes]
      omega
    have hfield := row.atomField_toTerm
    unfold validRow
    rw [CreationRow.toTerm, atomMap] at hfield hsize ⊢
    simp only [hfield, hlen, hsize]
    simp [CreationRow.ordinalFields, CreationRow.fields, hdigest, quantity_int h.bounded, h.positive]
  · have hlen : row.fields.entries.length = 6 := (perm_fields row.fields_apart).length_eq
    have hsize : externalSize row.point ≤ rowBytes := by
      rw [externalSize_eq, rowBytes]
      omega
    have hfield := row.atomField_point
    unfold validRow
    rw [CreationRow.point, atomMap] at hfield hsize ⊢
    simp only [hfield, hlen, hsize]
    simp [CreationRow.fields, hdigest]

/-! ## pages -/

@[simp] theorem looseEq_identifier {a b : Identifier} : looseEq a.term b.term = true ↔ a = b := by
  rw [looseEq_iff, Identifier.term, Identifier.term, loosen_binary, loosen_binary]
  exact Identifier.term_inj

/-- **The rows of a page are valid**: they go on from the row before, and none has the command or the session of
another. -/
theorem validRows_rows {r : Identifier} {rows : List CreationRow} (seen : List CreationRow) {previous : ℕ}
    (hle : rows.length ≤ 16)
    (hsound : ∀ row ∈ rows, row.Sound ∧ row.runtimeId = r)
    (hordinals : rows.map CreationRow.createOrdinal = List.range' (previous + 1) rows.length)
    (hapart : rows.Pairwise fun a b => a.commandId ≠ b.commandId ∧ a.sessionId ≠ b.sessionId)
    (hseen : ∀ s ∈ seen, ∀ row ∈ rows, s.commandId ≠ row.commandId ∧ s.sessionId ≠ row.sessionId) :
    validRows r.term (rows.map CreationRow.toTerm) previous rows.length (seen.map CreationRow.toTerm) = true := by
  induction rows generalizing previous seen with
  | nil => simp [validRows]
  | cons row rows ih =>
    obtain ⟨⟨hs, rfl⟩, hsound'⟩ := List.forall_mem_cons.1 hsound
    rw [List.map_cons, List.length_cons, List.range'_succ, List.cons.injEq] at hordinals
    obtain ⟨hordinal, hordinals'⟩ := hordinals
    obtain ⟨hhead, hapart'⟩ := List.pairwise_cons.1 hapart
    rw [List.length_cons] at hle
    have hfield : ∀ s : CreationRow, atomField s.toTerm "command_id" = s.commandId.term ∧
        atomField s.toTerm "session_id" = s.sessionId.term ∧
        atomField s.toTerm "create_ordinal" = .int s.createOrdinal := by
      intro s
      simp only [s.atomField_toTerm, CreationRow.ordinalFields, CreationRow.fields, List.cons_append, List.nil_append]
      exact ⟨rfl, rfl, rfl⟩
    have hrest : validRows row.runtimeId.term (rows.map CreationRow.toTerm) (previous + 1 : ℤ) rows.length
        ((row :: seen).map CreationRow.toTerm) = true := by
      refine ih _ (by omega) hsound' hordinals' hapart' (List.forall_mem_cons.2 ⟨hhead, fun s hs row' hrow' => ?_⟩)
      exact hseen s hs row' (List.mem_cons_of_mem _ hrow')
    have hseen' : (seen.map CreationRow.toTerm).all (fun s =>
        !looseEq (atomField s "command_id") (atomField row.toTerm "command_id") &&
          !looseEq (atomField s "session_id") (atomField row.toTerm "session_id")) = true := by
      rw [List.all_map, List.all_eq_true]
      intro s hs
      obtain ⟨h1, h2⟩ := hseen s hs row List.mem_cons_self
      have h1' := mt looseEq_identifier.1 h1
      have h2' := mt looseEq_identifier.1 h2
      simp [(hfield s).1, (hfield s).2.1, (hfield row).1, (hfield row).2.1, h1', h2']
    have hlen : ((row :: rows).length : ℤ) - 1 = rows.length := by simp
    rw [List.map_cons] at hrest
    rw [List.map_cons, validRows, hlen, hrest, hseen', (CreationRow.valid hs).1, (hfield row).2.2, hordinal]
    simp
    omega

theorem encode_rows {rows : List CreationRow} (hsound : ∀ row ∈ rows, row.Sound) :
    (encode (.list (rows.map CreationRow.toTerm))).length ≤ 6 + rows.length * 1600 := by
  have hsum : (encodeList (rows.map CreationRow.toTerm)).length ≤ rows.length * 1600 := by
    rw [encodeList_length, List.map_map]
    have hle : ∀ n ∈ rows.map ((fun x => (encode x).length) ∘ CreationRow.toTerm), n ≤ 1600 := by
      intro n hn
      obtain ⟨row, hrow, rfl⟩ := List.mem_map.1 hn
      exact CreationRow.encode_toTerm (hsound row hrow)
    simpa using List.sum_le_card_nsmul _ 1600 hle
  cases rows with
  | nil => decide
  | cons row rows =>
    have hbytes : byteList ((row :: rows).map CreationRow.toTerm) = none := rfl
    rw [encode, if_neg (by simp), hbytes]
    simp only [List.length_append, List.length_cons, be_length, List.length_nil] at hsum ⊢
    omega

theorem cursorFields_apart (runtime : Term) (through after : ℕ) :
    Apart ((cursorFields runtime through after).map Prod.fst) := provenance_keys.2.2.2.1

theorem encode_cursor_length (r : Identifier) {through after : ℕ} (hthrough : through ≤ creationUint64)
    (hafter : after ≤ creationUint64) : (encode (CreationProvenance.cursor r.term through after)).length ≤ 500 := by
  unfold CreationProvenance.cursor
  split
  · rw [show (encode nil).length = 5 from rfl]
    decide
  · have h1 := encode_identifier_length r
    have h2 := encode_counter_length hthrough
    have h3 := encode_counter_length hafter
    have h4 : (encode (.int 1)).length = 2 := rfl
    have hle := encode_atomMap_le (cursorFields_apart r.term through after) fun name hn =>
      provenance_keys.2.2.2.2 name (List.mem_append_right _ hn)
    simp only [cursorFields, List.map_cons, List.map_nil, List.sum_cons, List.sum_nil, h4] at hle
    rw [cursorFields]
    omega

theorem pageFields_apart (r : Identifier) (through : ℕ) (rows : List Term) (last : ℕ) :
    Apart ((pageFields r through rows last).map Prod.fst) := provenance_keys.2.2.1

/-- A page with a row that is unavailable is not valid. -/
theorem validPage_unavailable {runtime cursor : Term} {limit : ℤ} {r : Identifier} {through last : ℕ} {rows : List Term} :
    validPage runtime cursor limit (atomMap (pageFields r through (sym "unavailable" :: rows) last)) = false := by
  have hread : atomField (atomMap (pageFields r through (sym "unavailable" :: rows) last)) "rows" =
      .list (sym "unavailable" :: rows) := by
    rw [atomField_atomMap (pageFields_apart r through _ last)]
    rfl
  have hrow : validRow runtime (sym "unavailable") true = false := rfl
  unfold validPage
  rw [hread, Bool.and_eq_false_iff]
  right
  split
  · next through' after rows' _ _ hrows =>
    obtain rfl := Term.list.inj hrows
    simp [validRows, hrow]
  · rfl

/-- **A page of sound rows is valid.** -/
theorem validPage_rows {r : Identifier} {cursor : Term} {through after limit : ℕ} {rows : List CreationRow}
    (hstart : pageStart cursor (.int through) = some (.int after)) (hlimit : limit ≤ 16) (hafter : after ≤ through)
    (hthrough : through ≤ creationUint64) (hlen : rows.length = min limit (through - after))
    (hsound : ∀ row ∈ rows, row.Sound ∧ row.runtimeId = r)
    (hordinals : rows.map CreationRow.createOrdinal = List.range' (after + 1) rows.length)
    (hapart : rows.Pairwise fun a b => a.commandId ≠ b.commandId ∧ a.sessionId ≠ b.sessionId) :
    validPage r.term cursor limit
      (atomMap (pageFields r through (rows.map CreationRow.toTerm) (min (after + limit) through))) = true := by
  have hfield := atomField_atomMap
    (pageFields_apart r through (rows.map CreationRow.toTerm) (min (after + limit) through))
  have hclosed := closedMap_atomMap
    (pageFields_apart r through (rows.map CreationRow.toTerm) (min (after + limit) through)) (by simp [pageFields])
    (rfl : pageKeys = _)
  have hsize : externalSize
      (atomMap (pageFields r through (rows.map CreationRow.toTerm) (min (after + limit) through))) ≤ pageBytes := by
    have h1 := encode_identifier_length r
    have h2 := encode_counter_length hthrough
    have h3 := encode_rows fun row hrow => (hsound row hrow).1
    have h4 := encode_cursor_length r hthrough (show min (after + limit) through ≤ creationUint64 by omega)
    have h5 : (encode (.int 1)).length = 2 := rfl
    have hle := encode_atomMap_le
      (pageFields_apart r through (rows.map CreationRow.toTerm) (min (after + limit) through)) fun name hn =>
        provenance_keys.2.2.2.2 name (List.mem_append_left _ (List.mem_append_right _ hn))
    simp only [pageFields, List.map_cons, List.map_nil, List.sum_cons, List.sum_nil, h5] at hle
    rw [externalSize_eq, pageBytes]
    simp only [pageFields]
    omega
  have hrows : validRows r.term (rows.map CreationRow.toTerm) after (min (limit : ℤ) (through - after)) [] = true := by
    have := validRows_rows [] (by omega) hsound hordinals hapart (by simp)
    rw [hlen] at this
    rw [show min (limit : ℤ) ((through : ℤ) - after) = ((min limit (through - after) : ℕ) : ℤ) by omega]
    exact this
  have hlast : (min ((after : ℤ) + limit) through).toNat = min (after + limit) through := by omega
  unfold validPage
  simp only [hclosed, hfield, hsize]
  simp [pageFields, quantity_int hthrough, hstart, hrows, hlast]

end Loopex.Store
