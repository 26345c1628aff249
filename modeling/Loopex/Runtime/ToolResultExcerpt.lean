import Loopex.Erlang.Sha256
import Loopex.Erlang.Unicode
import Loopex.Protocol.FrameSize
import Loopex.System.BinarySearch
import Mathlib.Order.Bounds.Basic

/-!
# The excerpt of a tool result

What the model is shown of a retained artifact: a prefix of the receipt text inside a notice, and the notice as the
content of the tool message, escaped twice.  The longest prefix whose message fits is found by binary search over the
ends of its characters.

* `encode` — the excerpt, as the source computes it
* `notice_lighter` — a longer prefix is never cheaper, counted as the escaped content of a message
* `excerpt_optimal` — the search agrees with trying every boundary
-/

namespace Loopex.Runtime

open Loopex.Erlang Loopex.Erlang.Term Loopex.Protocol Loopex.Protocol.Frame Loopex.System
open Loopex.Store (lookup hasKey isStruct)

/-! ## references of artifacts -/

namespace ArtifactStore

def maxMediaTypeBytes : ℕ := 255
def maxLocatorBytes : ℕ := 1024
def maxSize : ℤ := 18446744073709551615

def referenceKeys : List String :=
  ["digest", "locator", "media_type", "role", "size", "use_canonicalization_version", "use_digest", "use_locator"]

/-- A field of a reference, by its atom. -/
def field (t : Term) (name : String) : Term :=
  match t with
  | .map kvs => (lookup (sym name) kvs).getD nil
  | _ => nil

def validDigest : Term → Bool
  | .binary d => d.length = 64 && validUtf8 d && d.all isHex
  | _ => false

def validSize : Term → Bool
  | .int n => 0 ≤ n && n ≤ maxSize
  | _ => false

/-- A reference with its keys as strings. -/
def stringKeys : Term → Term
  | .map kvs => mapOf (kvs.map fun e => (match e.1 with
    | .atom key => .binary key
    | key => key, e.2))
  | t => t

section
-- a match of the pattern for control, format and separator characters
variable (unsafeText : Bytes → Bool)

def validMediaType : Term → Bool
  | .binary m => 1 ≤ m.length && m.length ≤ maxMediaTypeBytes && validUtf8 m && !unsafeText m
  | _ => false

def validLocator : Term → Bool
  | .binary l => 1 ≤ l.length && l.length ≤ maxLocatorBytes && validUtf8 l && !unsafeText l
  | _ => false

/-- `"use:" <> digest`. -/
def useLocator : Term → Option Term
  | .binary d => some (.binary (utf8 "use:" ++ d))
  | _ => none

/-- `valid_reference?`. -/
def validReference (reference : Term) : Bool :=
  match reference with
  | .map kvs =>
    !isStruct kvs && (kvs.length = 8 && referenceKeys.all fun k => hasKey (sym k) kvs) &&
      validDigest (field reference "digest") && validMediaType unsafeText (field reference "media_type") &&
      validSize (field reference "size") && field reference "role" = str "tool_output" &&
      validLocator unsafeText (field reference "locator") &&
      field reference "use_canonicalization_version" = str "loopex.canonical.v1" &&
      validDigest (field reference "use_digest") &&
      some (field reference "use_locator") = useLocator (field reference "use_digest")
  | _ => false

end

end ArtifactStore

namespace ToolResultExcerpt

open ArtifactStore

/-! ## the excerpt -/

def ceiling : ℕ := 2048

def outcomes : List String := ["completed", "failed", "denied", "cancelled", "outcome_unknown"]

/-- What the notice says of the reference and of the source. -/
structure Metadata where
  useLocator : Term
  objectDigest : Term
  objectSize : Term
  sourceByteCount : ℕ
  description : Option Bytes := none

def Metadata.entries (m : Metadata) : List (Term × Term) :=
  [(str "use_locator", m.useLocator), (str "object_digest", m.objectDigest), (str "object_size", m.objectSize),
    (str "excerpt_source", str "receipt_content"), (str "source_byte_count", .int m.sourceByteCount),
    (str "excerpt_offset", .int 0)] ++
  match m.description with
  | some d => [(str "description", .binary d)]
  | none => []

def bool (b : Bool) : Term := if b then sym "true" else sym "false"

/-- The notice: the metadata, and the excerpt with its length. -/
def notice (m : Metadata) (excerpt : Bytes) (count : ℕ) : Term :=
  mapOf (m.entries ++ [(str "excerpt", .binary excerpt), (str "excerpt_byte_count", .int count),
    (str "omitted", bool (count < m.sourceByteCount))])

structure SourceRange where
  sourceByteCount : ℕ
  offset : ℕ
  byteCount : ℕ
  sourceDigest : Option Bytes := none
  deriving DecidableEq

structure Projection where
  message : Term
  sourceRange : SourceRange
  deriving DecidableEq

inductive ExcerptError where
  | contextProjectionInvalid | artifactMetadataUnrepresentable
  deriving DecidableEq

/-- A result, an error, or an exception. -/
inductive Outcome where
  | ok (p : Projection)
  | error (e : ExcerptError)
  | raised
  deriving DecidableEq

section
variable (unsafeText : Bytes → Bool) (otherString : Term → Option Bytes)

/-- `json`: a frame without its last byte. -/
def json (value : Term) : Encoding :=
  match Frame.encode otherString value with
  | .ok frame => .ok (frame.take (frame.length - 1))
  | other => other

/-- `project`, on the entries of the message. -/
def project (message : List (Term × Term)) (m : Metadata) (excerpt : Bytes) (count : ℕ) : Outcome :=
  match json otherString (notice m excerpt count) with
  | .raised => .raised
  | .outputRecordTooLarge => .error .artifactMetadataUnrepresentable
  | .ok inner =>
    let projected : Term := .map (putEntry (str "content") (.binary inner) message)
    match json otherString projected with
    | .raised => .raised
    | .outputRecordTooLarge => .error .artifactMetadataUnrepresentable
    | .ok outer =>
      if outer.length ≤ ceiling then
        .ok ⟨projected, { sourceByteCount := m.sourceByteCount, offset := 0, byteCount := count }⟩
      else .error .artifactMetadataUnrepresentable

/-- `largest`: the offsets are read by their index. -/
def largest (message : List (Term × Term)) (m : Metadata) (text : Bytes) (offsets : List ℕ) (low high : ℤ)
    (best : Option Projection) : Outcome :=
  if high < low then
    match best with
    | some p => .ok p
    | none => .error .artifactMetadataUnrepresentable
  else
    let middle := (low + high) / 2
    let count := offsets.getD middle.toNat 0
    match project otherString message m (text.take count) count with
    | .ok p => largest message m text offsets (middle + 1) high (some p)
    | .error .artifactMetadataUnrepresentable => largest message m text offsets low (middle - 1) best
    | _ => .raised
termination_by (high + 1 - low).toNat

/-- `utf8_prefix`; there is no clause for bytes that are not UTF-8. -/
def utf8Prefix (source : Bytes) (allowance : ℕ) : Option Bytes :=
  match charactersToBinary (source.take (min source.length allowance)) with
  | .text t => some t
  | .incomplete t _ => some t
  | .error .. => none

/-- The offsets at which a character ends, from the start of the text. -/
def boundaries (text : Bytes) : List ℕ := ((codepoints text).map List.length).scanl (fun acc n => n + acc) 0

/-- The clause of `encode` for a tool message. -/
def encodeSource (message : List (Term × Term)) (call source : Bytes) (reference : Term) (allowance : ℕ) : Outcome :=
  if validUtf8 call && !call.isEmpty then
    if validReference unsafeText reference then
      let m : Metadata := {
        useLocator := field reference "use_locator"
        objectDigest := field reference "digest"
        objectSize := field reference "size"
        sourceByteCount := source.length }
      let result :=
        if validUtf8 source then
          match utf8Prefix source allowance with
          | some text =>
            let offsets := boundaries text
            largest otherString message m text offsets 0 (offsets.length - 1) none
          | none => .raised
        else project otherString message { m with description := some (utf8 "Binary receipt content.") } [] 0
      match result with
      | .ok p => .ok { p with sourceRange := { p.sourceRange with sourceDigest := some (hex (sha256 source)) } }
      | other => other
    else .error .contextProjectionInvalid
  else .error .contextProjectionInvalid

/-- `encode`. -/
def encode (message reference : Term) (allowance : ℤ) : Outcome :=
  match message with
  | .map kvs =>
    match lookup (str "tool_call_id") kvs, lookup (str "outcome") kvs, lookup (str "content") kvs with
    | some (.binary call), some outcome, some (.binary source) =>
      if lookup (str "role") kvs = some (str "tool") ∧ kvs.length = 4 ∧ outcome ∈ outcomes.map str ∧
          0 ≤ allowance ∧ allowance ≤ ceiling then
        encodeSource unsafeText otherString kvs call source reference allowance.toNat
      else .error .contextProjectionInvalid
    | _, _, _ => .error .contextProjectionInvalid
  | _ => .error .contextProjectionInvalid

end

/-! ## messages -/

/-- The entries of a tool message, in the order of their keys. -/
def toolEntries (call outcome content : Bytes) : List (Term × Term) :=
  [(str "role", str "tool"), (str "content", .binary content), (str "outcome", .binary outcome),
    (str "tool_call_id", .binary call)]

/-- A message of a tool: a map of exactly these four entries. -/
def toolMessage (call outcome content : Bytes) : Term := .map (toolEntries call outcome content)

theorem ordered_toolEntries (call outcome content : Bytes) : Ordered (toolEntries call outcome content) := by
  have h₁ : keyLt (str "role") (str "content") := by decide
  have h₂ : keyLt (str "content") (str "outcome") := by decide
  have h₃ : keyLt (str "outcome") (str "tool_call_id") := by decide
  simp [toolEntries, Ordered, h₁, h₂, h₃, keyLt_trans h₁ h₂, keyLt_trans h₂ h₃, keyLt_trans h₁ (keyLt_trans h₂ h₃)]

theorem putEntry_content (call outcome content inner : Bytes) :
    putEntry (str "content") (.binary inner) (toolEntries call outcome content) = toolEntries call outcome inner := by
  have h₁ : ¬ keyLt (str "content") (str "role") := by decide
  have h₂ : keyLt (str "role") (str "content") := by decide
  have h₃ : ¬ keyLt (str "content") (str "content") := by decide
  simp [toolEntries, putEntry, h₁, h₂, h₃]

theorem lookup_toolEntries (call outcome content : Bytes) :
    lookup (str "role") (toolEntries call outcome content) = some (str "tool") ∧
      lookup (str "tool_call_id") (toolEntries call outcome content) = some (.binary call) ∧
      lookup (str "outcome") (toolEntries call outcome content) = some (.binary outcome) ∧
      lookup (str "content") (toolEntries call outcome content) = some (.binary content) := by
  simp [toolEntries, lookup]

/-! ## the size of a message -/

section
variable {unsafeText : Bytes → Bool} {otherString : Term → Option Bytes} {m : Metadata}
  {call outcome source : Bytes} {cs ds : List ℕ} {reference : Term} {μ : Bytes → ℕ}

/-- Metadata that is written as JSON. -/
structure Metadata.Sound (otherString : Term → Option Bytes) (m : Metadata) : Prop where
  useLocator : Encodes otherString m.useLocator
  objectDigest : Encodes otherString m.objectDigest
  objectSize : Encodes otherString m.objectSize
  description : m.description = none

theorem encodes_str {s : String} (h : ((utf8 s).all fun x => 0x20 ≤ x.toNat && x.toNat < 0x80) = true) :
    Encodes otherString (str s) := encodes_binary (validUtf8_name h)

theorem lighter_entry {s : String} {v v' : Term}
    (hs : ((utf8 s).all fun x => 0x20 ≤ x.toNat && x.toNat < 0x80) = true) (h : Lighter otherString μ v v') :
    LighterEntry otherString μ (str s, v) (str s, v') :=
  ⟨rfl, ⟨utf8 s, rfl, validUtf8_name hs⟩, h⟩

/-- **A longer prefix is never cheaper.** Its notice has more text, a count of no fewer digits, and a flag that can
only turn to the longer word. -/
theorem notice_lighter (hμ : Measure μ) (hm : m.Sound otherString) (hcs : ∀ c ∈ cs, Scalar c)
    (hds : ∀ c ∈ ds, Scalar c) :
    Lighter otherString μ (notice m (utf8All cs) (utf8All cs).length)
      (notice m (utf8All (cs ++ ds)) (utf8All (cs ++ ds)).length) := by
  have hle : (utf8All cs).length ≤ (utf8All (cs ++ ds)).length := by
    rw [utf8All_append, List.length_append]
    omega
  have hflag : Lighter otherString μ (bool ((utf8All cs).length < m.sourceByteCount))
      (bool ((utf8All (cs ++ ds)).length < m.sourceByteCount)) := by
    by_cases hlater : (utf8All (cs ++ ds)).length < m.sourceByteCount
    · rw [decide_eq_true hlater, decide_eq_true (Nat.lt_of_le_of_lt hle hlater)]
      exact (encodes_flag true).refl
    · rw [decide_eq_false hlater]
      by_cases hearlier : (utf8All cs).length < m.sourceByteCount
      · rw [decide_eq_true hearlier]
        exact lighter_flag hμ
      · rw [decide_eq_false hearlier]
        exact (encodes_flag false).refl
  unfold notice Metadata.entries
  rw [hm.description, List.append_nil]
  refine lighter_mapOf hμ ?_
  refine .cons (lighter_entry (by decide) hm.useLocator.refl) ?_
  refine .cons (lighter_entry (by decide) hm.objectDigest.refl) ?_
  refine .cons (lighter_entry (by decide) hm.objectSize.refl) ?_
  refine .cons (lighter_entry (by decide) (encodes_str (by decide)).refl) ?_
  refine .cons (lighter_entry (by decide) (encodes_int _).refl) ?_
  refine .cons (lighter_entry (by decide) (encodes_int _).refl) ?_
  refine .cons (lighter_entry (by decide) (lighter_append hμ hcs hds)) ?_
  refine .cons (lighter_entry (by decide) (lighter_int hμ hle)) ?_
  exact .cons (lighter_entry (by decide) hflag) .nil

/-- The message of a content that is no longer when it is escaped. -/
theorem message_lighter {a b : Bytes} (hcall : validUtf8 call = true) (houtcome : validUtf8 outcome = true)
    (ha : validUtf8 a = true) (hb : validUtf8 b = true) (hle : escaped a ≤ escaped b) :
    Lighter otherString List.length (toolMessage call outcome a) (toolMessage call outcome b) := by
  have hcontent : Lighter otherString List.length (.binary a) (.binary b) := by
    obtain ⟨ta, hta, hva, hla⟩ := encodeString_length ha
    obtain ⟨tb, htb, hvb, hlb⟩ := encodeString_length hb
    exact ⟨ta, tb, hta, htb, hva, hvb, by omega⟩
  refine lighter_map measure_length ?_
  refine .cons (lighter_entry (by decide) (encodes_str (by decide)).refl) ?_
  refine .cons (lighter_entry (by decide) hcontent) ?_
  refine .cons (lighter_entry (by decide) (encodes_binary houtcome).refl) ?_
  exact .cons (lighter_entry (by decide) (encodes_binary hcall).refl) .nil

/-! ## probes -/

/-- The complete message of the first `n` bytes of the source fits. -/
def Fits (otherString : Term → Option Bytes) (m : Metadata) (call outcome source : Bytes) (n : ℕ) : Prop :=
  ∃ inner outer, json otherString (notice m (source.take n) n) = .ok inner ∧
    json otherString (toolMessage call outcome inner) = .ok outer ∧ outer.length ≤ ceiling

theorem json_map {kvs : List (Term × Term)} {text : Bytes} (h : encodeValue otherString (.map kvs) = some text) :
    json otherString (.map kvs) = if outputRecordBytes < text.length + 1 then .outputRecordTooLarge else .ok text := by
  simp only [json, Frame.encode, h, List.length_append, List.length_singleton]
  by_cases hlarge : outputRecordBytes < text.length + 1
  · rw [if_pos hlarge, if_pos hlarge]
  · rw [if_neg hlarge, if_neg hlarge]
    simp

theorem json_of_encodes {kvs : List (Term × Term)} (h : Encodes otherString (.map kvs)) :
    json otherString (.map kvs) = .outputRecordTooLarge ∨
      ∃ text, encodeValue otherString (.map kvs) = some text ∧ validUtf8 text = true ∧
        json otherString (.map kvs) = .ok text := by
  obtain ⟨text, htext, hvalid⟩ := h
  rw [json_map htext]
  split
  · exact .inl rfl
  · exact .inr ⟨text, htext, hvalid, rfl⟩

/-- A probe comes to the message if it fits, and else the metadata is unrepresentable. -/
theorem project_cases {n : ℕ} (hnotice : Encodes otherString (notice m (source.take n) n))
    (hmessage : ∀ inner, validUtf8 inner = true → Encodes otherString (toolMessage call outcome inner))
    (content : Bytes) :
    (∃ inner, Fits otherString m call outcome source n ∧ json otherString (notice m (source.take n) n) = .ok inner ∧
      project otherString (toolEntries call outcome content) m (source.take n) n =
        .ok ⟨toolMessage call outcome inner, { sourceByteCount := m.sourceByteCount, offset := 0, byteCount := n }⟩) ∨
      ¬ Fits otherString m call outcome source n ∧
        project otherString (toolEntries call outcome content) m (source.take n) n =
          .error .artifactMetadataUnrepresentable := by
  unfold project
  rcases json_of_encodes hnotice with hlarge | ⟨inner, -, hvalid, hinner⟩
  · refine .inr ⟨fun hfits => ?_, by rw [notice, mapOf, hlarge]⟩
    obtain ⟨inner, outer, hok, -⟩ := hfits
    rw [notice, mapOf, hlarge] at hok
    cases hok
  have hinner' : json otherString (notice m (source.take n) n) = .ok inner := hinner
  rw [hinner']
  dsimp only
  rw [putEntry_content]
  rcases json_of_encodes (hmessage inner hvalid) with hlarge | ⟨outer, -, -, houter⟩
  · refine .inr ⟨fun hfits => ?_, by rw [hlarge]⟩
    obtain ⟨inner', outer, hok, houter, -⟩ := hfits
    obtain rfl := Encoding.ok.inj (hinner'.symm.trans hok)
    rw [toolMessage, hlarge] at houter
    cases houter
  · rw [houter]
    dsimp only
    by_cases hsize : outer.length ≤ ceiling
    · rw [if_pos hsize]
      exact .inl ⟨inner, ⟨inner, outer, hinner', houter, hsize⟩, rfl, rfl⟩
    · rw [if_neg hsize]
      refine .inr ⟨fun hfits => ?_, rfl⟩
      obtain ⟨inner', outer', hok, houter', hsize'⟩ := hfits
      obtain rfl := Encoding.ok.inj (hinner'.symm.trans hok)
      obtain rfl := Encoding.ok.inj (houter.symm.trans houter')
      exact hsize hsize'

/-- **What fits, fits with fewer characters.** -/
theorem fits_of_longer (hm : m.Sound otherString) (hcall : validUtf8 call = true) (houtcome : validUtf8 outcome = true)
    (hcs : ∀ c ∈ cs, Scalar c) {i j : ℕ} (hij : i ≤ j)
    (h : Fits otherString m call outcome (utf8All cs) (utf8All (cs.take j)).length) :
    Fits otherString m call outcome (utf8All cs) (utf8All (cs.take i)).length := by
  obtain ⟨innerj, outerj, hinnerj, houterj, hsize⟩ := h
  have hsplit := (List.take_append_drop i (cs.take j)).symm
  rw [List.take_take, Nat.min_eq_left hij] at hsplit
  have hfront : ∀ c ∈ cs.take i, Scalar c := fun c hc => hcs c (List.mem_of_mem_take hc)
  have hback : ∀ c ∈ (cs.take j).drop i, Scalar c := fun c hc =>
    hcs c (List.mem_of_mem_take (List.mem_of_mem_drop hc))
  rw [take_utf8All] at hinnerj
  rw [hsplit] at hinnerj
  -- the notice is shorter, and shorter once it is escaped
  obtain ⟨a, b, ha, hb, hva, hvb, hlength⟩ := notice_lighter measure_length hm hfront hback
  obtain ⟨a', b', ha', hb', -, -, hescaped⟩ := notice_lighter measure_escaped hm hfront hback
  obtain rfl := Option.some.inj (ha.symm.trans ha')
  obtain rfl := Option.some.inj (hb.symm.trans hb')
  have hjsonj := json_map hb
  have hjsoni := json_map ha
  change json otherString (notice _ _ _) = _ at hjsonj hjsoni
  rw [hjsonj] at hinnerj
  split at hinnerj
  · cases hinnerj
  next hsmall =>
    obtain rfl := Encoding.ok.inj hinnerj
    have hmessage : Lighter otherString List.length (toolMessage call outcome a) (toolMessage call outcome b) :=
      message_lighter hcall houtcome hva hvb hescaped
    obtain ⟨x, y, hx, hy, -, -, hxy⟩ := hmessage
    have hjsony := json_map hy
    have hjsonx := json_map hx
    change json otherString (toolMessage _ _ _) = _ at hjsony hjsonx
    rw [hjsony] at houterj
    split at houterj
    · cases houterj
    next hsmall' =>
      obtain rfl := Encoding.ok.inj houterj
      refine ⟨a, x, ?_, ?_, hxy.trans hsize⟩
      · rw [take_utf8All, hjsoni, if_neg (by omega)]
      · rw [hjsonx, if_neg (by omega)]

/-! ## the search -/

theorem scanl_lengths (ds : List ℕ) (a : ℕ) :
    let offsets := (ds.map fun c => (utf8Encode c).length).scanl (fun acc n => n + acc) a
    offsets.length = ds.length + 1 ∧
      ∀ i ≤ ds.length, offsets.getD i 0 = a + (utf8All (ds.take i)).length := by
  induction ds generalizing a with
  | nil => simp
  | cons d ds ih =>
    obtain ⟨hlen, hget⟩ := ih ((utf8Encode d).length + a)
    simp only [List.map_cons, List.scanl_cons, List.length_cons]
    refine ⟨by rw [hlen], fun i hi => ?_⟩
    rcases i with _ | i
    · simp
    · rw [List.getD_cons_succ, hget i (by omega), List.take_succ_cons, utf8All_cons, List.length_append]
      omega

/-- The offsets are the ends of the characters. -/
theorem boundaries_utf8All {ds : List ℕ} (h : ∀ c ∈ ds, Scalar c) :
    (boundaries (utf8All ds)).length = ds.length + 1 ∧
      ∀ i ≤ ds.length, (boundaries (utf8All ds)).getD i 0 = (utf8All (ds.take i)).length := by
  obtain ⟨hlen, hget⟩ := scanl_lengths ds 0
  rw [boundaries, codepoints_utf8All h, List.map_map]
  exact ⟨hlen, fun i hi => (hget i hi).trans (Nat.zero_add _)⟩

/-- The message of an index of the search. -/
def probe (otherString : Term → Option Bytes) (message : List (Term × Term)) (m : Metadata) (text : Bytes)
    (offsets : List ℕ) (i : ℕ) : Option Projection :=
  match project otherString message m (text.take (offsets.getD i 0)) (offsets.getD i 0) with
  | .ok p => some p
  | _ => none

/-- A search whose probes do not raise is the binary search for the last success. -/
theorem largest_eq {message : List (Term × Term)} {text : Bytes} {offsets : List ℕ} {n : ℕ}
    (hprobe : ∀ i ≤ n, (∃ p, project otherString message m (text.take (offsets.getD i 0)) (offsets.getD i 0) = .ok p) ∨
      project otherString message m (text.take (offsets.getD i 0)) (offsets.getD i 0) =
        .error .artifactMetadataUnrepresentable) {low high : ℤ} {best : Option Projection} (hlow : 0 ≤ low)
    (hhigh : high ≤ n) :
    largest otherString message m text offsets low high best =
      match lastSuccess (probe otherString message m text offsets) low high best with
      | some p => .ok p
      | none => .error .artifactMetadataUnrepresentable := by
  induction low, high, best using lastSuccess.induct (probe otherString message m text offsets) with
  | case1 low high best hdone =>
    rw [largest.eq_def, lastSuccess.eq_def, if_pos hdone, if_pos hdone]
  | case2 low high best hgo middle p hp ih =>
    have hmiddle : middle = (low + high) / 2 := rfl
    rw [largest.eq_def, lastSuccess.eq_def, if_neg hgo, if_neg hgo]
    dsimp only
    rw [← hmiddle, hp]
    dsimp only
    rw [probe] at hp
    rcases hprobe middle.toNat (by omega) with ⟨q, hq⟩ | herror
    · rw [hq] at hp ⊢
      obtain rfl := Option.some.inj hp
      exact ih (by omega) hhigh
    · rw [herror] at hp
      cases hp
  | case3 low high best hgo middle hp ih =>
    have hmiddle : middle = (low + high) / 2 := rfl
    rw [largest.eq_def, lastSuccess.eq_def, if_neg hgo, if_neg hgo]
    dsimp only
    rw [← hmiddle, hp]
    dsimp only
    rw [probe] at hp
    rcases hprobe middle.toNat (by omega) with ⟨q, hq⟩ | herror
    · rw [hq] at hp
      cases hp
    · rw [herror]
      exact ih hlow (by omega)

/-- The reference's part of the notice. -/
def metadataOf (reference : Term) (source : Bytes) : Metadata where
  useLocator := field reference "use_locator"
  objectDigest := field reference "digest"
  objectSize := field reference "size"
  sourceByteCount := source.length

theorem validDigest_eq_true {t : Term} (h : validDigest t = true) : ∃ d, t = .binary d ∧ validUtf8 d = true := by
  unfold validDigest at h
  split at h
  next d =>
    simp only [Bool.and_eq_true] at h
    exact ⟨d, rfl, h.1.2⟩
  · cases h

/-- What a valid reference says is written as JSON. -/
theorem metadataOf_sound (h : validReference unsafeText reference = true) (source : Bytes) :
    (metadataOf reference source).Sound otherString := by
  unfold validReference at h
  split at h
  next kvs =>
    simp only [Bool.and_eq_true, decide_eq_true_eq] at h
    obtain ⟨⟨⟨⟨⟨⟨⟨⟨⟨-, -⟩, hdigest⟩, -⟩, hsize⟩, -⟩, -⟩, -⟩, huse⟩, hlocator⟩ := h
    obtain ⟨d, hd, hvalid⟩ := validDigest_eq_true hdigest
    obtain ⟨u, hu, huvalid⟩ := validDigest_eq_true huse
    have hint : ∃ n, field (.map kvs) "size" = .int n := by
      unfold validSize at hsize
      split at hsize
      next n hn => exact ⟨n, hn⟩
      · cases hsize
    obtain ⟨n, hn⟩ := hint
    refine ⟨?_, ?_, ?_, rfl⟩
    · rw [hu, useLocator] at hlocator
      change Encodes otherString (field (.map kvs) "use_locator")
      rw [Option.some.inj hlocator]
      exact encodes_binary (validUtf8_append (validUtf8_name (by decide)) huvalid)
    · change Encodes otherString (field (.map kvs) "digest")
      rw [hd]
      exact encodes_binary hvalid
    · change Encodes otherString (field (.map kvs) "size")
      rw [hn]
      exact encodes_int n
  · cases h

theorem utf8Prefix_spec (hcs : ∀ c ∈ cs, Scalar c) (allowance : ℕ) :
    ∃ j ≤ cs.length, utf8Prefix (utf8All cs) allowance = some (utf8All (cs.take j)) ∧
      ∀ i ≤ cs.length, (utf8All (cs.take i)).length ≤ allowance ↔ i ≤ j := by
  obtain ⟨j, hj, hiff, hchars⟩ := charactersToBinary_take hcs (min (utf8All cs).length allowance)
  refine ⟨j, hj, ?_, fun i hi => ?_⟩
  · unfold utf8Prefix
    rcases hchars with h | ⟨rest, h⟩
    · rw [h]
    · rw [h]
  · have hle : (utf8All (cs.take i)).length ≤ (utf8All cs).length := by
      rw [utf8All_take_drop cs i, List.length_append]
      omega
    rw [← hiff i hi]
    omega

/-- Every probe of the search ends at a character, and comes to the message if that fits. -/
theorem probe_spec (hm : m.Sound otherString) (hcall : validUtf8 call = true) (houtcome : validUtf8 outcome = true)
    (hcs : ∀ c ∈ cs, Scalar c) (j : ℕ) (hj : j ≤ cs.length) {i : ℕ} (hi : i ≤ j) (content : Bytes) :
    let text := utf8All (cs.take j)
    let n := (utf8All (cs.take i)).length
    (boundaries text).getD i 0 = n ∧ text.take n = (utf8All cs).take n ∧
      ((∃ inner, Fits otherString m call outcome (utf8All cs) n ∧
        json otherString (notice m ((utf8All cs).take n) n) = .ok inner ∧
        project otherString (toolEntries call outcome content) m ((utf8All cs).take n) n =
          .ok ⟨toolMessage call outcome inner, { sourceByteCount := m.sourceByteCount, offset := 0, byteCount := n }⟩) ∨
      ¬ Fits otherString m call outcome (utf8All cs) n ∧
        project otherString (toolEntries call outcome content) m ((utf8All cs).take n) n =
          .error .artifactMetadataUnrepresentable) := by
  have htext : ∀ c ∈ cs.take j, Scalar c := fun c hc => hcs c (List.mem_of_mem_take hc)
  have hfront : ∀ c ∈ cs.take i, Scalar c := fun c hc => hcs c (List.mem_of_mem_take hc)
  have hshorter : (cs.take j).take i = cs.take i := by rw [List.take_take, Nat.min_eq_left hi]
  have hoffset := (boundaries_utf8All htext).2 i (by rw [List.length_take]; omega)
  rw [hshorter] at hoffset
  have hcut := take_utf8All (cs.take j) i
  rw [hshorter] at hcut
  refine ⟨hoffset, hcut.trans (take_utf8All cs i).symm, project_cases ?_ (fun inner hinner => ?_) content⟩
  · rw [take_utf8All]
    exact (notice_lighter measure_length hm hfront (List.forall_mem_nil _)).encodes
  · exact (message_lighter hcall houtcome hinner hinner (Nat.le_refl _)).encodes

/-- The search finds the longest of the prefixes that fit. -/
theorem search_spec (hm : m.Sound otherString) (hcall : validUtf8 call = true) (houtcome : validUtf8 outcome = true)
    (hcs : ∀ c ∈ cs, Scalar c) {j : ℕ} (hj : j ≤ cs.length) (content : Bytes) :
    (∃ i ≤ j, ∃ inner, Fits otherString m call outcome (utf8All cs) (utf8All (cs.take i)).length ∧
        (∀ k, i < k → k ≤ j → ¬ Fits otherString m call outcome (utf8All cs) (utf8All (cs.take k)).length) ∧
        json otherString (notice m ((utf8All cs).take (utf8All (cs.take i)).length) (utf8All (cs.take i)).length) =
          .ok inner ∧
        largest otherString (toolEntries call outcome content) m (utf8All (cs.take j)) (boundaries (utf8All (cs.take j)))
          0 j none = .ok ⟨toolMessage call outcome inner, {
            sourceByteCount := m.sourceByteCount
            offset := 0
            byteCount := (utf8All (cs.take i)).length }⟩) ∨
      (∀ k ≤ j, ¬ Fits otherString m call outcome (utf8All cs) (utf8All (cs.take k)).length) ∧
        largest otherString (toolEntries call outcome content) m (utf8All (cs.take j)) (boundaries (utf8All (cs.take j)))
          0 j none = .error .artifactMetadataUnrepresentable := by
  have hspec := fun {i : ℕ} (hi : i ≤ j) => probe_spec hm hcall houtcome hcs j hj hi content
  have hlargest : largest otherString (toolEntries call outcome content) m (utf8All (cs.take j))
      (boundaries (utf8All (cs.take j))) 0 j none =
      match lastSuccess (probe otherString (toolEntries call outcome content) m (utf8All (cs.take j))
        (boundaries (utf8All (cs.take j)))) 0 j none with
      | some p => .ok p
      | none => .error .artifactMetadataUnrepresentable := by
    refine largest_eq (n := j) (fun i hi => ?_) (Int.le_refl 0) (Int.le_refl _)
    obtain ⟨hoffset, hcut, hcases⟩ := hspec hi
    rw [hoffset, hcut]
    rcases hcases with ⟨inner, -, -, hok⟩ | ⟨-, herror⟩
    · exact .inl ⟨_, hok⟩
    · exact .inr herror
  generalize hP : probe otherString (toolEntries call outcome content) m (utf8All (cs.take j))
    (boundaries (utf8All (cs.take j))) = P at hlargest
  have hanswer : ∀ i ≤ j, (∃ inner, Fits otherString m call outcome (utf8All cs) (utf8All (cs.take i)).length ∧
      json otherString (notice m ((utf8All cs).take (utf8All (cs.take i)).length) (utf8All (cs.take i)).length) =
        .ok inner ∧
      P i = some ⟨toolMessage call outcome inner, {
            sourceByteCount := m.sourceByteCount
            offset := 0
            byteCount := (utf8All (cs.take i)).length }⟩) ∨
      ¬ Fits otherString m call outcome (utf8All cs) (utf8All (cs.take i)).length ∧ P i = none := by
    intro i hi
    obtain ⟨hoffset, hcut, hcases⟩ := hspec hi
    rw [← hP, probe, hoffset, hcut]
    rcases hcases with ⟨inner, hfits, hinner, hok⟩ | ⟨hfits, herror⟩
    · rw [hok]
      exact .inl ⟨inner, hfits, hinner, rfl⟩
    · rw [herror]
      exact .inr ⟨hfits, rfl⟩
  have hsome : ∀ i ≤ j, (P i).isSome ↔
      Fits otherString m call outcome (utf8All cs) (utf8All (cs.take i)).length := by
    intro i hi
    rcases hanswer i hi with ⟨inner, hfits, -, hp⟩ | ⟨hfits, hp⟩
    · exact iff_of_true (by rw [hp]; rfl) hfits
    · exact iff_of_false (by rw [hp]; simp) hfits
  have hlast : IsLast P j (lastSuccess P 0 j none) :=
    lastSuccess_spec fun i k hik hk h =>
      (hsome i (hik.trans hk)).2 (fits_of_longer hm hcall houtcome hcs hik ((hsome k hk).1 h))
  have hfails : ∀ k ≤ j, P k = none → ¬ Fits otherString m call outcome (utf8All cs) (utf8All (cs.take k)).length := by
    intro k hk hnone hfits
    have hk' := (hsome k hk).2 hfits
    rw [hnone] at hk'
    cases hk'
  rw [hlargest]
  rcases hlast with ⟨hnone, hall⟩ | ⟨i, hi, hbest, hisSome, hall⟩
  · rw [hnone]
    exact .inr ⟨fun k hk => hfails k hk (hall k hk), rfl⟩
  · rw [hbest]
    rcases hanswer i hi with ⟨inner, hfits, hinner, hp⟩ | ⟨-, hp⟩
    · rw [hp]
      exact .inl ⟨i, hi, inner, hfits, fun k hik hk => hfails k hk (hall k hik hk), hinner, rfl⟩
    · rw [hp] at hisSome
      cases hisSome

theorem validUtf8_outcome (h : outcome ∈ outcomes.map utf8) : validUtf8 outcome = true := by
  obtain ⟨s, hs, rfl⟩ := List.mem_map.1 h
  have hall : (outcomes.all fun s => (utf8 s).all fun x => 0x20 ≤ x.toNat && x.toNat < 0x80) = true := by
    decide
  exact validUtf8_name (List.all_eq_true.1 hall s hs)

/-- The search over a source that is valid text. -/
theorem encodeSource_eq (hcall : validUtf8 call = true) (hne : call ≠ []) (hsource : validUtf8 source = true)
    (href : validReference unsafeText reference = true) (message : List (Term × Term)) {allowance : ℕ} {text : Bytes}
    (htext : utf8Prefix source allowance = some text) :
    encodeSource unsafeText otherString message call source reference allowance =
      match largest otherString message (metadataOf reference source) text (boundaries text) 0
        ((boundaries text).length - 1) none with
      | .ok p => .ok { p with sourceRange := { p.sourceRange with sourceDigest := some (hex (sha256 source)) } }
      | other => other := by
  have hguard : (validUtf8 call && !call.isEmpty) = true := by simp [hcall, hne]
  unfold encodeSource
  rw [if_pos hguard, if_pos href]
  dsimp only
  rw [if_pos hsource, htext]
  rfl

/-- **The excerpt is optimal.** For a tool message of valid text and a valid reference, the projection has the longest
prefix of the content that ends on a character, is within the allowance and whose complete message fits; there is none
only if the message of the empty prefix does not fit. -/
theorem excerpt_optimal {allowance : ℤ} (hcall : validUtf8 call = true) (hne : call ≠ [])
    (houtcome : outcome ∈ outcomes.map utf8) (hsource : validUtf8 source = true)
    (href : validReference unsafeText reference = true) (hpos : 0 ≤ allowance) (hmax : allowance ≤ ceiling) :
    (∃ n inner, IsGreatest {k | k ≤ source.length ∧ (k : ℤ) ≤ allowance ∧ validUtf8 (source.take k) = true ∧
          Fits otherString (metadataOf reference source) call outcome source k} n ∧
        json otherString (notice (metadataOf reference source) (source.take n) n) = .ok inner ∧
        encode unsafeText otherString (toolMessage call outcome source) reference allowance =
          .ok ⟨toolMessage call outcome inner, {
            sourceByteCount := source.length
            offset := 0
            byteCount := n
            sourceDigest := some (hex (sha256 source)) }⟩) ∨
      ¬ Fits otherString (metadataOf reference source) call outcome source 0 ∧
        encode unsafeText otherString (toolMessage call outcome source) reference allowance =
          .error .artifactMetadataUnrepresentable := by
  obtain ⟨a, rfl⟩ := Int.eq_ofNat_of_zero_le hpos
  obtain ⟨hrole, hcallKey, houtcomeKey, hcontent⟩ := lookup_toolEntries call outcome source
  have hlisted : (.binary outcome : Term) ∈ outcomes.map str := by
    obtain ⟨s, hs, rfl⟩ := List.mem_map.1 houtcome
    exact List.mem_map.2 ⟨s, hs, rfl⟩
  have hencode : encode unsafeText otherString (toolMessage call outcome source) reference a =
      encodeSource unsafeText otherString (toolEntries call outcome source) call source reference a := by
    simp only [encode, toolMessage, hcallKey, houtcomeKey, hcontent]
    rw [if_pos ⟨hrole, rfl, hlisted, hpos, hmax⟩]
    rfl
  have hm : (metadataOf reference source).Sound otherString := metadataOf_sound href source
  have houtcome' := validUtf8_outcome houtcome
  obtain ⟨cs, hcs, rfl⟩ := validUtf8_iff.1 hsource
  obtain ⟨j, hj, htext, hallowed⟩ := utf8Prefix_spec hcs a
  have hlength : (boundaries (utf8All (cs.take j))).length = j + 1 := by
    rw [(boundaries_utf8All fun c hc => hcs c (List.mem_of_mem_take hc)).1, List.length_take, Nat.min_eq_left hj]
  have hhigh : ((j + 1 : ℕ) : ℤ) - 1 = j := by omega
  rw [hencode, encodeSource_eq hcall hne hsource href _ htext, hlength, hhigh]
  rcases search_spec hm hcall houtcome' hcs hj (utf8All cs) with
    ⟨i, hi, inner, hfits, hlongest, hinner, hfound⟩ | ⟨hnone, hfound⟩
  · rw [hfound]
    have hile : i ≤ cs.length := hi.trans hj
    have hwithin : (utf8All (cs.take i)).length ≤ (utf8All cs).length := by
      rw [utf8All_take_drop cs i, List.length_append]
      omega
    refine .inl ⟨(utf8All (cs.take i)).length, inner, ⟨⟨hwithin, ?_, ?_, hfits⟩, ?_⟩, hinner, rfl⟩
    · exact_mod_cast (hallowed i hile).2 hi
    · exact (boundary_iff hcs hwithin).2 ⟨i, hile, rfl⟩
    · rintro k ⟨hk, hka, hkvalid, hkfits⟩
      obtain ⟨i', hi', rfl⟩ := (boundary_iff hcs hk).1 hkvalid
      have hi'j : i' ≤ j := (hallowed i' hi').1 (by exact_mod_cast hka)
      have hi'i : i' ≤ i := by
        by_contra hlt
        exact hlongest i' (by omega) hi'j hkfits
      rw [← Nat.min_eq_left hi'i, ← List.take_take, utf8All_take_drop (cs.take i) i', List.length_append]
      omega
  · rw [hfound]
    exact .inr ⟨hnone 0 (Nat.zero_le _), rfl⟩

end

/-- A reference to an artifact of nine bytes. -/
def smallReference : Term :=
  let digest : Bytes := List.replicate 64 48
  mapOf [(sym "digest", .binary digest), (sym "locator", str "object"), (sym "media_type", str "text/plain"),
    (sym "role", str "tool_output"), (sym "size", .int 9),
    (sym "use_canonicalization_version", str "loopex.canonical.v1"), (sym "use_digest", .binary digest),
    (sym "use_locator", .binary (utf8 "use:" ++ digest))]

/-- The excerpt of a small result. -/
theorem excerpt_optimal_small :
    let content := utf8 "hello"
    let m := metadataOf smallReference content
    let message := toolMessage (utf8 "call") (utf8 "completed")
    (∃ n inner, IsGreatest {k | k ≤ content.length ∧ (k : ℤ) ≤ 3 ∧ validUtf8 (content.take k) = true ∧
          Fits (fun _ => none) m (utf8 "call") (utf8 "completed") content k} n ∧
        json (fun _ => none) (notice m (content.take n) n) = .ok inner ∧
        encode (fun _ => false) (fun _ => none) (message content) smallReference 3 =
          .ok ⟨message inner, {
            sourceByteCount := content.length
            offset := 0
            byteCount := n
            sourceDigest := some (hex (sha256 content)) }⟩) ∨
      ¬ Fits (fun _ => none) m (utf8 "call") (utf8 "completed") content 0 ∧
        encode (fun _ => false) (fun _ => none) (message content) smallReference 3 =
          .error .artifactMetadataUnrepresentable := by
  have href : validReference (fun _ => false) smallReference = true := by decide +kernel
  exact excerpt_optimal (validUtf8_name (by decide)) (by decide) (by decide)
    (validUtf8_name (by decide)) href (by decide) (by decide)

end ToolResultExcerpt

end Loopex.Runtime
