import Loopex.Erlang.Binary
import Loopex.Erlang.Sha256
import Loopex.Erlang.Utf8
import Loopex.Protocol.Wire

/-!
# The image of the session index

`SessionIndex.Codec`: a header, rows in the order of their session identities, and a digest of what is in front of it.

* `encode`, `decode` — as the source computes them
* `encode_eq_ok` — the rows that are encoded, and their image
* `decode_eq_ok` — the images that are decoded: those laid out from texts that decode to rows in order
* `image_spelling` — an image is the one its rows are encoded to if and only if no identity in it has spare bits
-/

namespace Loopex.Daemon.SessionIndex

open Loopex.Erlang Loopex.Protocol

def header : Bytes := utf8 "\x7b\"format\":\"loopex-session-index\",\"version\":1\x7d"
def rowPrefix : Bytes := utf8 "\x7b\"session_id\":\""
def rowMiddle : Bytes := utf8 "\",\"placement_identity\":\""
def rowSuffix : Bytes := utf8 "\"\x7d"
def trailerPrefix : Bytes := utf8 "\x7b\"sha256\":\""
def trailerSuffix : Bytes := utf8 "\"\x7d"

def maxEntries : ℕ := 4096
def maxLines : ℕ := maxEntries + 2
def maxFileBytes : ℕ := 4 * 1024 * 1024
def maxRowBytesIncludingLf : ℕ := 726

structure Row where
  sessionId : Bytes
  placementIdentity : Bytes
  deriving DecidableEq

inductive Refusal where
  | sessionIndexFull
  | invalidIndexEntry
  | sessionIndexTooLarge
  | sessionIndexCorrupt
  deriving DecidableEq

/-! ## encoding -/

/-- `identity?`. -/
def isIdentity (identity : Bytes) : Bool := 1 ≤ identity.length && identity.length ≤ 256

/-- `normalize_rows`: the rows are gathered in reverse and then sorted. -/
def normalizeRows (rows : List Row) : Except Refusal (List Row) :=
  if rows.all fun row => isIdentity row.sessionId && isIdentity row.placementIdentity then
    .ok (rows.reverse.mergeSort fun a b => a.sessionId ≤ b.sessionId)
  else .error .invalidIndexEntry

/-- The loop of `unique_session_ids`. -/
def uniqueFrom (previous : Option Bytes) : List Row → Bool
  | [] => true
  | row :: rows => if some row.sessionId = previous then false else uniqueFrom (some row.sessionId) rows

/-- `unique_session_ids`. -/
def uniqueSessionIds (rows : List Row) : Except Refusal Unit :=
  if uniqueFrom none rows then .ok () else .error .invalidIndexEntry

/-- The texts of a row. -/
def rowTexts (row : Row) : Bytes × Bytes :=
  (Wire.encodeIdentity row.sessionId, Wire.encodeIdentity row.placementIdentity)

/-- A line of two texts. -/
def rowLine (texts : Bytes × Bytes) : Bytes := rowPrefix ++ (texts.1 ++ (rowMiddle ++ texts.2) ++ rowSuffix)

/-- `domain_from_lines`. -/
def domainFromLines (lines : List Bytes) : Bytes := header ++ 10 :: unlines lines

/-- `encode_domain`. -/
def encodeDomain (rows : List Row) : Bytes := domainFromLines (rows.map fun row => rowLine (rowTexts row))

/-- `sha256`. -/
def digestText (bytes : Bytes) : Bytes := hex (sha256 bytes)

/-- `encode` of a list. -/
def encode (rows : List Row) : Except Refusal Bytes :=
  if rows.length > maxEntries then .error .sessionIndexFull
  else do
    let normalized ← normalizeRows rows
    uniqueSessionIds normalized
    let domain := encodeDomain normalized
    .ok (domain ++ (trailerPrefix ++ (digestText domain ++ trailerSuffix) ++ [10]))

/-! ## decoding -/

/-- `split_complete_lines`. -/
def splitCompleteLines (image : Bytes) (lines : List Bytes) : ℕ → Option (List Bytes)
  | 0 => none
  | remaining + 1 =>
    match cutLine image with
    | some (line, rest) =>
      if rest = [] then some (line :: lines).reverse else splitCompleteLines rest (line :: lines) remaining
    | none => none

/-- `image_lines`. -/
def imageLines : List Bytes → Option (List Bytes × Bytes)
  | [] => none
  | line :: rest =>
    if line = header then rest.getLast?.map fun trailer => (rest.dropLast, trailer) else none

/-- `decode_row`; `none` is its error. -/
def decodeRow (line : Bytes) : Check Refusal (Option Row) :=
  if rowPrefix.isPrefixOf line && rowSuffix.isSuffixOf line then do
    let body ← binaryPart line rowPrefix.length (line.length - rowPrefix.length - rowSuffix.length)
    match splitFirst rowMiddle body with
    | some (encodedSessionId, encodedPlacement) =>
      match Wire.sessionIdentity (.binary encodedSessionId), Wire.sessionIdentity (.binary encodedPlacement) with
      | some sessionId, some placementIdentity => pure (some ⟨sessionId, placementIdentity⟩)
      | _, _ => pure none
    | none => pure none
  else pure none

/-- The loop of `decode_rows`. -/
def decodeRowsFrom (previous : Option Bytes) : List Bytes → Check Refusal (Option (List Row))
  | [] => pure (some [])
  | line :: lines =>
    if line.length + 1 ≤ maxRowBytesIncludingLf then do
      match ← decodeRow line with
      | some row =>
        if previous.all fun id => id < row.sessionId then do
          let rows ← decodeRowsFrom (some row.sessionId) lines
          pure (rows.map (row :: ·))
        else pure none
      | none => pure none
    else pure none

/-- `lowercase_sha256?`. -/
def lowercaseSha256 (digest : Bytes) : Bool :=
  digest.length = 64 && digest.all fun byte => (48 ≤ byte && byte ≤ 57) || (97 ≤ byte && byte ≤ 102)

/-- `verify_trailer`. -/
def verifyTrailer (trailer : Bytes) (rowLines : List Bytes) : Check Refusal Bool :=
  if trailerPrefix.isPrefixOf trailer && trailerSuffix.isSuffixOf trailer then do
    let digest ← binaryPart trailer trailerPrefix.length
      (trailer.length - trailerPrefix.length - trailerSuffix.length)
    pure (lowercaseSha256 digest && digest = digestText (domainFromLines rowLines))
  else pure false

/-- `decode_bounded`. -/
def decodeBounded (image : Bytes) : Check Refusal (List Row) :=
  if validUtf8 image then
    match (splitCompleteLines image [] maxLines).bind imageLines with
    | some (rowLines, trailer) =>
      if rowLines.length ≤ maxEntries then do
        match ← decodeRowsFrom none rowLines with
        | some rows => if ← verifyTrailer trailer rowLines then pure rows else .error .sessionIndexCorrupt
        | none => .error .sessionIndexCorrupt
      else .error .sessionIndexCorrupt
    | none => .error .sessionIndexCorrupt
  else .error .sessionIndexCorrupt

/-- `decode` of a binary. -/
def decode (image : Bytes) : Check Refusal (List Row) :=
  if image.length > maxFileBytes then .error .sessionIndexTooLarge else decodeBounded image

/-! ## texts of identities -/

/-- A text of an identity: its characters, its length, and the spare bits it may have. -/
theorem sessionIdentity_spec {t x : Bytes} (h : Wire.sessionIdentity (.binary t) = some x) :
    Base64Text t ∧ t.length ≤ 342 ∧ isIdentity x = true ∧ (Wire.encodeIdentity x = t ↔ spareBits t = 0) := by
  obtain ⟨hbytes, hpos⟩ := Wire.identity_eq_some.1 h
  obtain ⟨hpad, hdecoded, hmax⟩ := Wire.urlDecode64_of_bytes hbytes
  obtain ⟨htext, hlen⟩ := urlDecode64_eq_some hpad hdecoded
  have hmax' : x.length ≤ 256 := by exact_mod_cast hmax
  refine ⟨htext, by omega, ?_, urlEncode64_decode hpad hdecoded⟩
  simp [isIdentity, hpos, hmax']

theorem sessionIdentity_encode {x : Bytes} (h : isIdentity x = true) :
    Wire.sessionIdentity (.binary (Wire.encodeIdentity x)) = some x := by
  simp only [isIdentity, Bool.and_eq_true, decide_eq_true_eq] at h
  exact Wire.identity_eq_some.2 ⟨Wire.bytes_encode (by exact_mod_cast h.2), h.1⟩

/-- A byte of a line: ASCII, and no newline. -/
def isLineByte (c : UInt8) : Bool := 32 ≤ c.toNat && c.toNat < 128

/-- The characters of the alphabet are bytes of a line, and none is a quote. -/
theorem base64_byte {c : UInt8} (h : (base64Value c).isSome) : isLineByte c = true ∧ c ≠ 34 := by
  have hall : ∀ n < 256, (base64Value (.ofNat n)).isSome → isLineByte (.ofNat n) = true ∧ UInt8.ofNat n ≠ 34 := by
    decide +kernel
  have hc := hall c.toNat c.toNat_lt
  rw [UInt8.ofNat_toNat] at hc
  exact hc h

theorem text_line {t : Bytes} (h : Base64Text t) : t.all isLineByte = true ∧ 34 ∉ t := by
  refine ⟨List.all_eq_true.2 fun c hc => (base64_byte (h.1 c hc)).1, fun hm => (base64_byte (h.1 34 hm)).2 rfl⟩

theorem no_newline {b : Bytes} (h : b.all isLineByte = true) : 10 ∉ b := by
  intro hm
  have := List.all_eq_true.1 h 10 hm
  simp [isLineByte] at this

/-! ## rows -/

/-- The fixed parts of a row: a quote opens the middle one, all are bytes of a line, and their lengths. -/
theorem row_parts : rowMiddle = 34 :: utf8 ",\"placement_identity\":\"" ∧
    (rowPrefix.all isLineByte = true ∧ rowMiddle.all isLineByte = true ∧ rowSuffix.all isLineByte = true) ∧
    rowPrefix.length = 15 ∧ rowMiddle.length = 24 ∧ rowSuffix.length = 2 := by decide

/-- The two texts of a line decode to the identities of a row. -/
def Spells (texts : Bytes × Bytes) (row : Row) : Prop :=
  Wire.sessionIdentity (.binary texts.1) = some row.sessionId ∧
    Wire.sessionIdentity (.binary texts.2) = some row.placementIdentity

theorem rowLine_eq (texts : Bytes × Bytes) :
    rowLine texts = rowPrefix ++ ((texts.1 ++ (rowMiddle ++ texts.2)) ++ rowSuffix) := rfl

theorem splitFirst_texts {texts : Bytes × Bytes} {row : Row} (h : Spells texts row) :
    splitFirst rowMiddle (texts.1 ++ (rowMiddle ++ texts.2)) = some texts := by
  rw [row_parts.1]
  exact splitFirst_append (text_line (sessionIdentity_spec h.1).1).2

/-- **A line of two texts is read.** -/
theorem decodeRow_rowLine {texts : Bytes × Bytes} {row : Row} (h : Spells texts row) :
    decodeRow (rowLine texts) = .ok (some row) := by
  have hprefix : rowPrefix.isPrefixOf (rowLine texts) = true := List.isPrefixOf_iff_prefix.2 (List.prefix_append _ _)
  have hsuffix : rowSuffix.isSuffixOf (rowLine texts) = true := by
    rw [rowLine_eq, ← List.append_assoc]
    exact List.isSuffixOf_iff_suffix.2 (List.suffix_append _ _)
  rw [decodeRow, hprefix, hsuffix]
  rw [rowLine_eq, binaryPart_middle, Check.ok_bind, splitFirst_texts h]
  simp only [h.1, h.2]
  rfl

/-- **A line that is read holds two texts**, and no line raises. -/
theorem decodeRow_spec (line : Bytes) :
    decodeRow line = .ok none ∨ ∃ texts row, decodeRow line = .ok (some row) ∧ line = rowLine texts ∧ Spells texts row := by
  unfold decodeRow
  by_cases hcond : (rowPrefix.isPrefixOf line && rowSuffix.isSuffixOf line) = true
  · rw [if_pos hcond]
    rw [Bool.and_eq_true] at hcond
    obtain ⟨hfront, hmiddle, hsuffix⟩ := row_parts.2.2
    obtain ⟨m, hm, hcut⟩ := @binaryPart_cut line rowPrefix rowSuffix Refusal hcond.1 hcond.2 (by omega)
    rw [hm, Check.ok_bind]
    rcases hsplit : splitFirst rowMiddle m with _ | ⟨a, b⟩
    · exact .inl rfl
    · have hline : line = rowLine (a, b) := by
        rcases hcut with hline | ⟨hshort, -⟩
        · rw [hline, splitFirst_eq_some hsplit]
          rfl
        · have hlong := splitFirst_length hsplit
          omega
      dsimp only
      rcases hid : Wire.sessionIdentity (.binary a) with _ | id
      · exact .inl rfl
      · rcases hplacement : Wire.sessionIdentity (.binary b) with _ | placement
        · exact .inl rfl
        · exact .inr ⟨(a, b), ⟨id, placement⟩, rfl, hline, hid, hplacement⟩
  · rw [if_neg hcond]
    exact .inl rfl

theorem rowLine_bytes {texts : Bytes × Bytes} {row : Row} (h : Spells texts row) :
    (rowLine texts).all isLineByte = true ∧ (rowLine texts).length + 1 ≤ maxRowBytesIncludingLf := by
  obtain ⟨h1, hlen1, -⟩ := sessionIdentity_spec h.1
  obtain ⟨h2, hlen2, -⟩ := sessionIdentity_spec h.2
  obtain ⟨-, ⟨hfront, hmiddle, hsuffix⟩, hlens⟩ := row_parts
  refine ⟨by simp [rowLine_eq, hfront, hmiddle, hsuffix, -List.all_eq_true, (text_line h1).1, (text_line h2).1], ?_⟩
  rw [rowLine_eq, maxRowBytesIncludingLf]
  simp only [List.length_append]
  omega

/-! ## rows in order -/

/-- The texts of an image: they decode to the rows, which are in the order of their session identities. -/
structure Layout (texts : List (Bytes × Bytes)) (rows : List Row) : Prop where
  count : texts.length ≤ maxEntries
  spells : List.Forall₂ Spells texts rows
  ordered : rows.Pairwise fun a b => a.sessionId < b.sessionId

/-- Every row comes after an identity. -/
def After (previous : Option Bytes) (rows : List Row) : Prop :=
  ∀ id, previous = some id → ∀ row ∈ rows, id < row.sessionId

theorem after_all {previous : Option Bytes} {row : Row} {rows : List Row} (h : After previous (row :: rows)) :
    (previous.all fun id => id < row.sessionId) = true := by
  rcases previous with _ | id
  · rfl
  · simpa using h id rfl row (by simp)

/-- **Rows in order are read from their lines.** -/
theorem decodeRowsFrom_map {previous : Option Bytes} {texts : List (Bytes × Bytes)} {rows : List Row}
    (h : List.Forall₂ Spells texts rows) (ho : rows.Pairwise fun a b => a.sessionId < b.sessionId)
    (ha : After previous rows) : decodeRowsFrom previous (texts.map rowLine) = .ok (some rows) := by
  induction h generalizing previous with
  | nil => rfl
  | @cons text row texts rows hspells _ ih =>
    obtain ⟨hrow, hrows⟩ := List.pairwise_cons.1 ho
    have hrest : decodeRowsFrom (some row.sessionId) (texts.map rowLine) = .ok (some rows) := by
      refine ih hrows fun id hid r hr => ?_
      cases hid
      exact hrow r hr
    rw [List.map_cons, decodeRowsFrom, if_pos (rowLine_bytes hspells).2, decodeRow_rowLine hspells, Check.ok_bind]
    dsimp only
    rw [if_pos (after_all ha), hrest]
    rfl

/-- **What is read from lines are rows in order**, and no lines raise. -/
theorem decodeRowsFrom_spec (previous : Option Bytes) (lines : List Bytes) :
    decodeRowsFrom previous lines = .ok none ∨ ∃ texts rows, decodeRowsFrom previous lines = .ok (some rows) ∧
      lines = texts.map rowLine ∧ List.Forall₂ Spells texts rows ∧
      (rows.Pairwise fun a b => a.sessionId < b.sessionId) ∧ After previous rows := by
  induction lines generalizing previous with
  | nil => exact .inr ⟨[], [], rfl, rfl, .nil, .nil, fun _ _ _ h => nomatch h⟩
  | cons line lines ih =>
    rw [decodeRowsFrom]
    split <;> [skip; exact .inl rfl]
    rcases decodeRow_spec line with hnone | ⟨text, row, hsome, hline, hspells⟩
    · rw [hnone]
      exact .inl rfl
    rw [hsome, Check.ok_bind]
    dsimp only
    split <;> [skip; exact .inl rfl]
    next hafter =>
    rcases ih (some row.sessionId) with hnone | ⟨texts, rows, hrest, hlines, hall, ho, hlater⟩
    · rw [hnone]
      exact .inl rfl
    · refine .inr ⟨text :: texts, row :: rows, by rw [hrest]; rfl, by rw [hline, hlines]; rfl, .cons hspells hall,
        List.pairwise_cons.2 ⟨hlater _ rfl, ho⟩, fun id hid r hr => ?_⟩
      subst hid
      have hrow : id < row.sessionId := by simpa using hafter
      rcases List.mem_cons.1 hr with rfl | hr
      · exact hrow
      · exact List.lt_trans hrow (hlater _ rfl r hr)

/-! ## lines and trailer -/

/-- **Complete lines**: every one ends with a newline, and there are no more than may be. -/
theorem splitCompleteLines_eq_some {image : Bytes} {acc ls : List Bytes} {remaining : ℕ} :
    splitCompleteLines image acc remaining = some ls ↔ ∃ lines, ls = acc.reverse ++ lines ∧ lines ≠ [] ∧
      image = unlines lines ∧ (∀ line ∈ lines, 10 ∉ line) ∧ lines.length ≤ remaining := by
  induction remaining generalizing image acc with
  | zero =>
    refine ⟨(fun h => nomatch h), ?_⟩
    rintro ⟨lines, -, hne, -, -, hlen⟩
    exact absurd (List.eq_nil_of_length_eq_zero (by omega)) hne
  | succ remaining ih =>
    rw [splitCompleteLines]
    constructor
    · intro h
      split at h <;> [skip; cases h]
      next line rest hcut =>
      obtain ⟨hline, himage⟩ := cutLine_eq_some hcut
      split at h
      next hrest =>
        cases h
        exact ⟨[line], by simp, by simp, by simp [himage, hrest], by simpa using hline, by simp⟩
      next hrest =>
        obtain ⟨lines, hls, hne, hrest', hall, hlen⟩ := ih.1 h
        refine ⟨line :: lines, by simp [hls], by simp, by rw [unlines_cons, himage, hrest'], ?_, by simpa using hlen⟩
        exact List.forall_mem_cons.2 ⟨hline, hall⟩
    · rintro ⟨lines, rfl, hne, rfl, hall, hlen⟩
      rcases lines with _ | ⟨line, lines⟩
      · exact absurd rfl hne
      obtain ⟨hline, hlines⟩ := List.forall_mem_cons.1 hall
      rw [unlines_cons, cutLine_append hline]
      dsimp only
      rcases lines with _ | ⟨next, lines⟩
      · simp
      · have hmore : ¬unlines (next :: lines) = [] := by simp
        rw [if_neg hmore]
        exact ih.2 ⟨next :: lines, by simp, by simp, rfl, hlines, by simpa using hlen⟩

theorem imageLines_eq_some {lines rowLines : List Bytes} {trailer : Bytes} :
    imageLines lines = some (rowLines, trailer) ↔ lines = header :: (rowLines ++ [trailer]) := by
  rcases lines with _ | ⟨line, rest⟩
  · simp [imageLines]
  rw [imageLines]
  constructor
  · intro h
    split at h <;> [skip; cases h]
    next hline =>
    obtain ⟨last, hlast, heq⟩ := Option.map_eq_some_iff.1 h
    cases heq
    rw [hline, List.dropLast_append_getLast? _ hlast]
  · intro h
    obtain ⟨hline, hrest⟩ := List.cons.inj h
    rw [if_pos hline, hrest]
    simp

theorem lowercaseSha256_hex (b : Bytes) : lowercaseSha256 (digestText b) = true := by
  have hlen : (digestText b).length = 64 := by rw [digestText, hex_length, sha256_length]
  have hall := all_isHex_hex (sha256 b)
  rw [lowercaseSha256, hlen]
  simp only [digestText, List.all_eq_true] at hall ⊢
  simp only [decide_true, Bool.true_and, List.all_eq_true]
  intro x hx
  have hx := hall x hx
  simp only [isHex, Bool.or_eq_true, Bool.and_eq_true, decide_eq_true_eq] at hx
  simp only [Bool.or_eq_true, Bool.and_eq_true, decide_eq_true_eq, UInt8.le_iff_toNat_le]
  exact hx

/-- The trailer of some lines. -/
def trailerOf (rowLines : List Bytes) : Bytes :=
  trailerPrefix ++ (digestText (domainFromLines rowLines) ++ trailerSuffix)

/-- The fixed parts of a trailer are bytes of a line, and their lengths. -/
theorem trailer_parts : (trailerPrefix.all isLineByte = true ∧ trailerSuffix.all isLineByte = true) ∧
    trailerPrefix.length = 11 ∧ trailerSuffix.length = 2 := by decide

theorem verifyTrailer_spec (trailer : Bytes) (rowLines : List Bytes) :
    ∃ b, verifyTrailer trailer rowLines = .ok b ∧ (b = true ↔ trailer = trailerOf rowLines) := by
  unfold verifyTrailer
  by_cases hcond : (trailerPrefix.isPrefixOf trailer && trailerSuffix.isSuffixOf trailer) = true
  · rw [if_pos hcond]
    rw [Bool.and_eq_true] at hcond
    obtain ⟨hfront, hsmall⟩ := trailer_parts.2
    obtain ⟨m, hm, hcut⟩ := @binaryPart_cut trailer trailerPrefix trailerSuffix Refusal hcond.1 hcond.2 (by omega)
    rw [hm, Check.ok_bind]
    refine ⟨_, rfl, ?_⟩
    rw [Bool.and_eq_true, decide_eq_true_eq]
    have hlen : (digestText (domainFromLines rowLines)).length = 64 := by
      rw [digestText, hex_length, sha256_length]
    rcases hcut with htrailer | ⟨hshort, hover⟩
    · constructor
      · rintro ⟨-, heq⟩
        rw [htrailer, heq, trailerOf]
      · intro heq
        rw [htrailer, trailerOf, List.append_cancel_left_eq, List.append_cancel_right_eq] at heq
        rw [heq]
        exact ⟨lowercaseSha256_hex _, rfl⟩
    · constructor
      · rintro ⟨-, heq⟩
        rw [heq] at hshort
        omega
      · intro heq
        rw [heq, trailerOf] at hover
        simp only [List.length_append] at hover
        omega
  · rw [if_neg hcond]
    refine ⟨false, rfl, (fun h => nomatch h), fun heq => absurd ?_ hcond⟩
    rw [Bool.and_eq_true]
    refine ⟨List.isPrefixOf_iff_prefix.2 (heq ▸ List.prefix_append _ _), List.isSuffixOf_iff_suffix.2 ?_⟩
    rw [heq, trailerOf, ← List.append_assoc]
    exact List.suffix_append _ _

/-! ## images -/

/-- The lines of an image. -/
def imageLinesOf (texts : List (Bytes × Bytes)) : List Bytes :=
  header :: (texts.map rowLine ++ [trailerOf (texts.map rowLine)])

/-- The image laid out from some texts. -/
def imageOf (texts : List (Bytes × Bytes)) : Bytes := unlines (imageLinesOf texts)

theorem imageOf_eq (texts : List (Bytes × Bytes)) : imageOf texts =
    domainFromLines (texts.map rowLine) ++ (trailerOf (texts.map rowLine) ++ [10]) := by
  rw [imageOf, imageLinesOf, unlines_cons, unlines_append, domainFromLines]
  simp

theorem header_bytes : header.all isLineByte = true ∧ header.length = 45 := by decide

theorem trailerOf_bytes (rowLines : List Bytes) :
    (trailerOf rowLines).all isLineByte = true ∧ (trailerOf rowLines).length = 77 := by
  obtain ⟨⟨hfront, hsuffix⟩, hfrontlen, hsuffixlen⟩ := trailer_parts
  have hlen : (digestText (domainFromLines rowLines)).length = 64 := by
    rw [digestText, hex_length, sha256_length]
  have hdigest : (digestText (domainFromLines rowLines)).all isLineByte = true := by
    refine List.all_eq_true.2 fun x hx => ?_
    have h := List.all_eq_true.1 (all_isHex_hex _) x hx
    simp only [isHex, Bool.or_eq_true, Bool.and_eq_true, decide_eq_true_eq] at h
    simp only [isLineByte, Bool.and_eq_true, decide_eq_true_eq]
    omega
  constructor
  · rw [trailerOf, List.all_append, List.all_append, hfront, hdigest, hsuffix]
    rfl
  · rw [trailerOf, List.length_append, List.length_append, hfrontlen, hlen, hsuffixlen]

theorem spells_mem {texts : List (Bytes × Bytes)} {rows : List Row} (h : List.Forall₂ Spells texts rows) :
    ∀ text ∈ texts, ∃ row, Spells text row := by
  induction h with
  | nil => exact fun _ h => nomatch h
  | cons hspells _ ih => exact List.forall_mem_cons.2 ⟨⟨_, hspells⟩, ih⟩

/-- **The limits of a layout**: every line is text within the length of a row, and so is the image within the file. -/
theorem Layout.limits {texts : List (Bytes × Bytes)} {rows : List Row} (h : Layout texts rows) :
    (∀ line ∈ imageLinesOf texts, line.all isLineByte = true ∧ line.length + 1 ≤ maxRowBytesIncludingLf) ∧
      (imageLinesOf texts).length ≤ maxLines ∧ (imageOf texts).length ≤ maxFileBytes := by
  have hlines : ∀ line ∈ imageLinesOf texts,
      line.all isLineByte = true ∧ line.length + 1 ≤ maxRowBytesIncludingLf := by
    obtain ⟨hheader, hheaderlen⟩ := header_bytes
    obtain ⟨htrailer, htrailerlen⟩ := trailerOf_bytes (texts.map rowLine)
    refine List.forall_mem_cons.2 ⟨⟨hheader, by rw [hheaderlen]; decide⟩, fun line hline => ?_⟩
    rcases List.mem_append.1 hline with hline | hline
    · obtain ⟨text, htext, rfl⟩ := List.mem_map.1 hline
      obtain ⟨row, hspells⟩ := spells_mem h.spells text htext
      exact rowLine_bytes hspells
    · rw [List.mem_singleton.1 hline]
      exact ⟨htrailer, by rw [htrailerlen]; decide⟩
  have hcount : (imageLinesOf texts).length ≤ maxLines := by
    have hmax := h.count
    simp only [imageLinesOf, List.length_cons, List.length_append, List.length_map, maxLines, List.length_nil]
    omega
  refine ⟨hlines, hcount, ?_⟩
  have hsum : ∀ lines : List Bytes, (∀ line ∈ lines, line.length + 1 ≤ maxRowBytesIncludingLf) →
      (unlines lines).length ≤ lines.length * maxRowBytesIncludingLf := by
    intro lines hall
    induction lines with
    | nil => simp
    | cons line lines ih =>
      obtain ⟨hline, hrest⟩ := List.forall_mem_cons.1 hall
      have hmore := ih hrest
      rw [unlines_cons, List.length_append, List.length_cons, List.length_cons, Nat.add_mul]
      omega
  have hall := hsum _ fun line hline => (hlines line hline).2
  exact hall.trans ((Nat.mul_le_mul_right _ hcount).trans (by decide))

theorem validUtf8_ascii {b : Bytes} (h : ∀ x ∈ b, x.toNat < 128) : validUtf8 b = true := by
  refine validUtf8_iff.2 ⟨b.map UInt8.toNat, fun c hc => ?_, ?_⟩
  · obtain ⟨x, hx, rfl⟩ := List.mem_map.1 hc
    exact .inl (by have := h x hx; omega)
  · induction b with
    | nil => rfl
    | cons x b ih =>
      obtain ⟨hx, hb⟩ := List.forall_mem_cons.1 h
      rw [List.map_cons, utf8All_cons, ← ih hb, utf8Encode, if_pos hx, UInt8.ofNat_toNat]
      rfl

theorem splitCompleteLines_imageOf {texts : List (Bytes × Bytes)} {rows : List Row} (h : Layout texts rows) :
    splitCompleteLines (imageOf texts) [] maxLines = some (imageLinesOf texts) := by
  obtain ⟨hlines, hcount, -⟩ := h.limits
  exact splitCompleteLines_eq_some.2 ⟨imageLinesOf texts, rfl, List.cons_ne_nil _ _, rfl,
    fun line hline => no_newline (hlines line hline).1, hcount⟩

theorem validUtf8_imageOf {texts : List (Bytes × Bytes)} {rows : List Row} (h : Layout texts rows) :
    validUtf8 (imageOf texts) = true := by
  refine validUtf8_ascii fun x hx => ?_
  obtain ⟨line, hline, hx⟩ := List.mem_flatMap.1 hx
  rcases List.mem_append.1 hx with hx | hx
  · have hbyte := List.all_eq_true.1 (h.limits.1 line hline).1 x hx
    simp only [isLineByte, Bool.and_eq_true, decide_eq_true_eq] at hbyte
    exact hbyte.2
  · rw [List.mem_singleton.1 hx]
    decide

/-- **An image that is laid out is decoded.** -/
theorem decode_imageOf {texts : List (Bytes × Bytes)} {rows : List Row} (h : Layout texts rows) :
    decode (imageOf texts) = .ok rows := by
  obtain ⟨-, -, hfile⟩ := h.limits
  have hlines : (splitCompleteLines (imageOf texts) [] maxLines).bind imageLines =
      some (texts.map rowLine, trailerOf (texts.map rowLine)) := by
    rw [splitCompleteLines_imageOf h]
    exact imageLines_eq_some.2 rfl
  obtain ⟨b, hb, hverify⟩ := verifyTrailer_spec (trailerOf (texts.map rowLine)) (texts.map rowLine)
  obtain rfl : b = true := hverify.2 rfl
  have hrows : decodeRowsFrom none (texts.map rowLine) = .ok (some rows) :=
    decodeRowsFrom_map h.spells h.ordered fun id hid => nomatch hid
  rw [decode, if_neg (by omega), decodeBounded, if_pos (validUtf8_imageOf h), hlines]
  dsimp only
  rw [if_pos (by rw [List.length_map]; exact h.count), hrows, Check.ok_bind]
  dsimp only
  rw [hb]
  rfl

/-- **What `decode` comes to**: an image that is laid out, or a refusal. -/
theorem decode_spec (image : Bytes) :
    (∃ refusal, decode image = .error refusal) ∨
      ∃ texts rows, decode image = .ok rows ∧ Layout texts rows ∧ image = imageOf texts := by
  rw [decode]
  split
  · exact .inl ⟨_, rfl⟩
  rw [decodeBounded]
  split <;> [skip; exact .inl ⟨_, rfl⟩]
  split <;> [skip; exact .inl ⟨_, rfl⟩]
  next rowLines trailer hlines =>
  split <;> [skip; exact .inl ⟨_, rfl⟩]
  next hcount =>
  obtain ⟨lines, hsplit, himage⟩ := Option.bind_eq_some_iff.1 hlines
  obtain ⟨lines', hacc, -, himageEq, -, -⟩ := splitCompleteLines_eq_some.1 hsplit
  obtain rfl : lines = lines' := hacc
  obtain rfl := imageLines_eq_some.1 himage
  rcases decodeRowsFrom_spec none rowLines with hnone | ⟨texts, rows, hrows, rfl, hspells, ho, -⟩
  · rw [hnone]
    exact .inl ⟨_, rfl⟩
  · obtain ⟨b, hb, hverify⟩ := verifyTrailer_spec trailer (texts.map rowLine)
    rw [hrows, Check.ok_bind]
    dsimp only
    rw [hb, Check.ok_bind]
    rcases b with _ | _
    · exact .inl ⟨_, rfl⟩
    · obtain rfl := hverify.1 rfl
      rw [List.length_map] at hcount
      exact .inr ⟨texts, rows, rfl, ⟨hcount, hspells, ho⟩, himageEq⟩

/-- **The images that are decoded.** -/
theorem decode_eq_ok {image : Bytes} {rows : List Row} :
    decode image = .ok rows ↔ ∃ texts, Layout texts rows ∧ image = imageOf texts := by
  constructor
  · intro h
    rcases decode_spec image with ⟨refusal, herror⟩ | ⟨texts, rows', hok, hlayout, himage⟩
    · rw [h] at herror
      cases herror
    · rw [h] at hok
      cases hok
      exact ⟨texts, hlayout, himage⟩
  · rintro ⟨texts, hlayout, rfl⟩
    exact decode_imageOf hlayout

/-! ## one spelling -/

/-- The texts of an image are determined by it. -/
theorem imageOf_inj {texts texts' : List (Bytes × Bytes)} {rows rows' : List Row} (h : Layout texts rows)
    (h' : Layout texts' rows') (heq : imageOf texts = imageOf texts') : texts = texts' := by
  have hlines : imageLinesOf texts = imageLinesOf texts' := by
    have hsplit := splitCompleteLines_imageOf h
    rw [heq, splitCompleteLines_imageOf h'] at hsplit
    exact (Option.some.inj hsplit).symm
  have hrows : texts.map rowLine = texts'.map rowLine := by
    have hsome := @imageLines_eq_some (imageLinesOf texts) (texts.map rowLine) (trailerOf (texts.map rowLine))
    have himage := hsome.2 rfl
    rw [hlines] at himage
    have hsome' := imageLines_eq_some.1 himage
    have hrest := (List.cons.inj hsome').2
    exact ((List.append_inj' hrest rfl).1).symm
  clear heq hlines
  obtain ⟨-, hspells, -⟩ := h
  obtain ⟨-, hspells', -⟩ := h'
  induction hspells generalizing texts' rows' with
  | nil =>
    rcases texts' with _ | ⟨text', texts'⟩
    · rfl
    · cases hrows
  | @cons text row texts rows hspell _ ih =>
    rcases texts' with _ | ⟨text', texts'⟩
    · cases hrows
    · obtain ⟨hline, hrest⟩ := List.cons.inj hrows
      cases hspells' with
      | cons hspell' hmore =>
        have hbody : text.1 ++ (rowMiddle ++ text.2) = text'.1 ++ (rowMiddle ++ text'.2) := by
          rw [rowLine_eq, rowLine_eq] at hline
          exact List.append_cancel_right (List.append_cancel_left hline)
        have hsplit := splitFirst_texts hspell
        rw [hbody, splitFirst_texts hspell'] at hsplit
        rw [Option.some.inj hsplit, ih hrest hmore]

/-! ## rows that are encoded -/

/-- The rows as they are encoded. -/
def sortRows (rows : List Row) : List Row := rows.reverse.mergeSort fun a b => a.sessionId ≤ b.sessionId

theorem sortRows_perm (rows : List Row) : (sortRows rows).Perm rows :=
  (List.mergeSort_perm _ _).trans (List.reverse_perm rows)

theorem sortRows_sorted (rows : List Row) : (sortRows rows).Pairwise fun a b => a.sessionId ≤ b.sessionId := by
  refine (List.pairwise_mergeSort ?_ ?_ rows.reverse).imp (by simp)
  · intro a b c h1 h2
    simp only [decide_eq_true_eq] at h1 h2 ⊢
    exact List.le_trans h1 h2
  · intro a b
    simp only [Bool.or_eq_true, decide_eq_true_eq]
    exact List.le_total _ _

/-- Sorted rows are unique if and only if they are in strict order. -/
theorem uniqueFrom_iff {previous : Option Bytes} {rows : List Row}
    (hs : rows.Pairwise fun a b => a.sessionId ≤ b.sessionId)
    (hp : ∀ id, previous = some id → ∀ row ∈ rows, id ≤ row.sessionId) :
    uniqueFrom previous rows = true ↔ (rows.Pairwise fun a b => a.sessionId < b.sessionId) ∧ After previous rows := by
  induction rows generalizing previous with
  | nil => simp [uniqueFrom, After]
  | cons row rows ih =>
    obtain ⟨hrow, hrows⟩ := List.pairwise_cons.1 hs
    have hnext : ∀ id, some row.sessionId = some id → ∀ r ∈ rows, id ≤ r.sessionId := by
      rintro id hid r hr
      cases hid
      exact hrow r hr
    rw [uniqueFrom]
    constructor
    · intro h
      split at h <;> [cases h; skip]
      next hne =>
      obtain ⟨ho, hafter⟩ := (ih hrows hnext).1 h
      refine ⟨List.pairwise_cons.2 ⟨hafter _ rfl, ho⟩, fun id hid r hr => ?_⟩
      subst hid
      have hlt : id < row.sessionId := by
        rcases List.le_iff_lt_or_eq.1 (hp id rfl row (by simp)) with hlt | heq
        · exact hlt
        · exact absurd (congrArg some heq.symm) hne
      rcases List.mem_cons.1 hr with rfl | hr
      · exact hlt
      · exact List.lt_trans hlt (hafter _ rfl r hr)
    · rintro ⟨ho, hafter⟩
      obtain ⟨hlater, ho⟩ := List.pairwise_cons.1 ho
      have hne : ¬some row.sessionId = previous := by
        intro heq
        exact List.lt_irrefl _ (hafter _ heq.symm row (by simp))
      rw [if_neg hne]
      refine (ih hrows hnext).2 ⟨ho, fun id hid r hr => ?_⟩
      cases hid
      exact hlater r hr

/-- The image of some rows. -/
def imageOfRows (rows : List Row) : Bytes := imageOf (rows.map rowTexts)

/-- **The rows that are encoded**, and their image. -/
theorem encode_eq_ok {rows : List Row} {image : Bytes} : encode rows = .ok image ↔
    rows.length ≤ maxEntries ∧
      (∀ row ∈ rows, isIdentity row.sessionId = true ∧ isIdentity row.placementIdentity = true) ∧
      ((sortRows rows).Pairwise fun a b => a.sessionId < b.sessionId) ∧ image = imageOfRows (sortRows rows) := by
  have himage : encodeDomain (sortRows rows) ++ (trailerPrefix ++ (digestText (encodeDomain (sortRows rows)) ++
      trailerSuffix) ++ [10]) = imageOfRows (sortRows rows) := by
    rw [imageOfRows, imageOf_eq, trailerOf, encodeDomain, List.map_map]
    rfl
  have hunique := @uniqueFrom_iff none (sortRows rows) (sortRows_sorted rows) fun id hid => nomatch hid
  have hafter : After none (sortRows rows) := fun id hid => nomatch hid
  by_cases hcount : rows.length > maxEntries
  · rw [encode, if_pos hcount]
    exact ⟨(fun h => nomatch h), fun h => absurd h.1 (by omega)⟩
  by_cases hall : (rows.all fun row => isIdentity row.sessionId && isIdentity row.placementIdentity) = true
  · have hvalid : ∀ row ∈ rows, isIdentity row.sessionId = true ∧ isIdentity row.placementIdentity = true := by
      simpa using hall
    have hbody : encode rows = uniqueSessionIds (sortRows rows) >>= fun _ => .ok (imageOfRows (sortRows rows)) := by
      rw [encode, if_neg hcount, normalizeRows, if_pos hall, ← himage]
      rfl
    rw [hbody, uniqueSessionIds]
    by_cases hu : uniqueFrom none (sortRows rows) = true
    · rw [if_pos hu]
      constructor
      · intro h
        exact ⟨by omega, hvalid, (hunique.1 hu).1, (Except.ok.inj h).symm⟩
      · rintro ⟨-, -, -, rfl⟩
        rfl
    · rw [if_neg hu]
      exact ⟨(fun h => nomatch h), fun h => absurd (hunique.2 ⟨h.2.2.1, hafter⟩) hu⟩
  · rw [encode, if_neg hcount, normalizeRows, if_neg hall]
    refine ⟨(fun h => nomatch h), fun h => absurd ?_ hall⟩
    simpa using h.2.1

theorem layout_rowTexts {rows : List Row} (hcount : rows.length ≤ maxEntries)
    (hvalid : ∀ row ∈ rows, isIdentity row.sessionId = true ∧ isIdentity row.placementIdentity = true)
    (ho : rows.Pairwise fun a b => a.sessionId < b.sessionId) : Layout (rows.map rowTexts) rows := by
  refine ⟨by rwa [List.length_map], ?_, ho⟩
  rw [List.forall₂_map_left_iff, List.forall₂_same]
  intro row hrow
  exact ⟨sessionIdentity_encode (hvalid row hrow).1, sessionIdentity_encode (hvalid row hrow).2⟩

/-- Rows in strict order are sorted already. -/
theorem sortRows_of_ordered {rows : List Row} (h : rows.Pairwise fun a b => a.sessionId < b.sessionId) :
    sortRows rows = rows := by
  have hkeys : ∀ {a b : Row}, a ∈ rows → b ∈ rows → a.sessionId = b.sessionId → a = b := by
    intro a b ha hb heq
    have hnodup : (rows.map Row.sessionId).Nodup := by
      refine List.pairwise_map.2 (h.imp fun {a b} hlt heq => ?_)
      rw [heq] at hlt
      exact List.lt_irrefl _ hlt
    exact List.inj_on_of_nodup_map hnodup ha hb heq
  have hperm := sortRows_perm rows
  refine hperm.eq_of_pairwise (fun a b ha hb h1 h2 => ?_) (sortRows_sorted rows) (h.imp List.le_of_lt)
  exact hkeys (hperm.mem_iff.1 ha) hb (List.le_antisymm h1 h2)

/-- **Rows are encoded in no order.** -/
theorem encode_perm {rows rows' : List Row} (hp : rows.Perm rows') {image : Bytes} (h : encode rows = .ok image) :
    encode rows' = .ok image := by
  obtain ⟨hcount, hvalid, ho, himage⟩ := encode_eq_ok.1 h
  have hsame : sortRows rows = sortRows rows' := by
    have hperm : (sortRows rows').Perm (sortRows rows) :=
      (sortRows_perm rows').trans (hp.symm.trans (sortRows_perm rows).symm)
    have hkeys : ((sortRows rows).map Row.sessionId).Nodup := by
      refine List.pairwise_map.2 (ho.imp fun {a b} hlt heq => ?_)
      rw [heq] at hlt
      exact List.lt_irrefl _ hlt
    refine (hperm.eq_of_pairwise (fun a b ha hb h1 h2 => ?_) (sortRows_sorted rows') (sortRows_sorted rows)).symm
    exact List.inj_on_of_nodup_map hkeys (hperm.mem_iff.1 ha) hb (List.le_antisymm h1 h2)
  rw [hsame] at ho himage
  exact encode_eq_ok.2 ⟨by rw [← hp.length_eq]; exact hcount, fun row hrow => hvalid row (hp.mem_iff.2 hrow), ho, himage⟩

/-- **An image and the image of its rows** are the same if and only if no text has spare bits. -/
theorem encode_decoded {texts : List (Bytes × Bytes)} {rows : List Row} (h : Layout texts rows) :
    encode rows = .ok (imageOf texts) ↔ ∀ text ∈ texts, spareBits text.1 = 0 ∧ spareBits text.2 = 0 := by
  have hvalid : ∀ row ∈ rows, isIdentity row.sessionId = true ∧ isIdentity row.placementIdentity = true := by
    obtain ⟨-, hspells, -⟩ := h
    induction hspells with
    | nil => exact fun _ hr => nomatch hr
    | cons hspell _ ih =>
      exact List.forall_mem_cons.2 ⟨⟨(sessionIdentity_spec hspell.1).2.2.1, (sessionIdentity_spec hspell.2).2.2.1⟩, ih⟩
  have hcount : rows.length ≤ maxEntries := h.spells.length_eq ▸ h.count
  have hlayout := layout_rowTexts hcount hvalid h.ordered
  have hsorted := sortRows_of_ordered h.ordered
  have htexts : rows.map rowTexts = texts ↔ ∀ text ∈ texts, spareBits text.1 = 0 ∧ spareBits text.2 = 0 := by
    clear hvalid hcount hlayout hsorted
    obtain ⟨-, hspells, -⟩ := h
    induction hspells with
    | nil => simp
    | @cons text row texts rows hspell _ ih =>
      obtain ⟨-, -, -, h1⟩ := sessionIdentity_spec hspell.1
      obtain ⟨-, -, -, h2⟩ := sessionIdentity_spec hspell.2
      rw [List.map_cons, List.cons.injEq, ih, List.forall_mem_cons, ← h1, ← h2, rowTexts, Prod.ext_iff]
  rw [encode_eq_ok, hsorted, ← htexts]
  constructor
  · rintro ⟨-, -, -, heq⟩
    exact imageOf_inj hlayout h heq.symm
  · intro heq
    exact ⟨hcount, hvalid, h.ordered, by rw [imageOfRows, heq]⟩

/-- **The image of a session index has one spelling, but for spare bits.**  Rows that are encoded are read back in
order, from an image that does not depend on theirs and is within every limit; no image raises; and an image is the one
that the rows decoded from it are encoded to if and only if it is not laid out from texts of which one has spare bits. -/
theorem image_spelling (image : Bytes) :
    (∀ rows, encode rows = .ok image → ∃ sorted, decode image = .ok sorted ∧ sorted.Perm rows ∧
      sorted.Pairwise fun a b => a.sessionId < b.sessionId) ∧
    (∀ rows rows', rows.Perm rows' → encode rows = .ok image → encode rows' = .ok image) ∧
    (∀ rows, encode rows = .ok image → image.length ≤ maxFileBytes ∧ ∃ lines, image = unlines lines ∧
      (∀ line ∈ lines, 10 ∉ line ∧ line.length + 1 ≤ maxRowBytesIncludingLf) ∧ lines.length ≤ maxLines) ∧
    (∀ x, decode image ≠ .raise x) ∧
    ((∀ rows, decode image = .ok rows → encode rows = .ok image) ↔
      ∀ texts rows, Layout texts rows → image = imageOf texts →
        ∀ text ∈ texts, spareBits text.1 = 0 ∧ spareBits text.2 = 0) := by
  refine ⟨fun rows h => ?_, fun rows rows' hp h => encode_perm hp h, fun rows h => ?_,
    fun x hraise => ?_, fun h texts rows hlayout himage => ?_, fun h rows hrows => ?_⟩
  · obtain ⟨hcount, hvalid, ho, rfl⟩ := encode_eq_ok.1 h
    have hperm := sortRows_perm rows
    exact ⟨sortRows rows, decode_imageOf (layout_rowTexts (by rwa [hperm.length_eq])
      (fun row hrow => hvalid row (hperm.mem_iff.1 hrow)) ho), hperm, ho⟩
  · obtain ⟨hcount, hvalid, ho, rfl⟩ := encode_eq_ok.1 h
    have hperm := sortRows_perm rows
    obtain ⟨hlines, hnumber, hfile⟩ := (layout_rowTexts (by rwa [hperm.length_eq])
      (fun row hrow => hvalid row (hperm.mem_iff.1 hrow)) ho).limits
    exact ⟨hfile, _, rfl, fun line hline => ⟨no_newline (hlines line hline).1, (hlines line hline).2⟩, hnumber⟩
  · rcases decode_spec image with ⟨refusal, h⟩ | ⟨texts, rows, h, -⟩ <;> rw [h] at hraise <;> cases hraise
  · subst himage
    exact (encode_decoded hlayout).1 (h rows (decode_imageOf hlayout))
  · obtain ⟨texts, hlayout, rfl⟩ := decode_eq_ok.1 hrows
    exact (encode_decoded hlayout).2 (h texts rows hlayout rfl)

/-- The image of one row whose session identity is spelled with a spare bit. -/
def spareImage : Bytes := imageOf [(utf8 "AB", utf8 "AA")]

/-- **A second spelling is decoded.** -/
theorem image_spelling_fails : decode spareImage = .ok [⟨[0], [0]⟩] ∧ encode [⟨[0], [0]⟩] ≠ .ok spareImage := by
  have hlayout : Layout [(utf8 "AB", utf8 "AA")] [⟨[0], [0]⟩] :=
    ⟨by decide, .cons ⟨by decide, by decide⟩ .nil, by simp⟩
  refine ⟨decode_imageOf hlayout, fun h => ?_⟩
  have hspare := (encode_decoded hlayout).1 h (utf8 "AB", utf8 "AA") (by simp)
  exact absurd hspare.1 (by decide)

end Loopex.Daemon.SessionIndex
