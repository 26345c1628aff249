import Loopex.Runtime.HistoryRecord
import Loopex.Runtime.ToolResultExcerpt
import Loopex.System.Run

/-!
# Ranges of an artifact

A read of a text artifact comes to the longest prefix of its window that ends on a character and whose result fits
the limit once it is wrapped in the message of a tool and escaped a second time, with the offset to go on from.

* `encode` — the range of a window, found by binary search over the ends of its characters
* `range_lighter` — a longer range is never cheaper, although the flag of the end is the shorter word
* `range_optimal`, `range_reassembles` — the range is the longest that fits, and ranges read one after the other are the
  object
-/

namespace Loopex.Executor.ArtifactRange

open Loopex.Erlang Loopex.Erlang.Term Loopex.Protocol Loopex.Protocol.Frame Loopex.Store Loopex.System
open Loopex.Runtime Loopex.Runtime.ArtifactStore
open Loopex.Runtime.ToolResultExcerpt (bool json toolMessage message_lighter json_map json_of_encodes
  boundaries_utf8All validDigest_eq_true encodes_str)

/-! ## the range of a window -/

def ceiling : ℤ := 8192

/-- An identity of a call as long as any. -/
@[irreducible] def measurementId : Bytes := utf8 "lx_" ++ List.replicate 48 48

inductive RangeError
  | invalidRange | unsupportedContent | unrepresentable
  deriving DecidableEq

/-- The result of a range. -/
def range (reference : Term) (offset size : ℕ) (content : Bytes) (count : ℕ) : Term :=
  plainMap [("artifact", reference), ("excerpt_source", str "artifact_object"), ("offset", .int offset),
    ("content", .binary content), ("byte_count", .int count), ("next_offset", .int (offset + count : ℕ)),
    ("eof", bool (decide (offset + count = size)))]

/-- `text`: a character cut off by the window is left out of it, unless the object ends there. -/
def text (bytes : Bytes) (eof : Bool) : Check RangeError Bytes :=
  match charactersToBinary bytes with
  | .text t => .ok t
  | .incomplete t _ => if eof then .error .unsupportedContent else .ok t
  | .error .. => .error .unsupportedContent

/-- The offsets at which the characters of a text end, `Enum.scan`. -/
def boundaries (text : Bytes) : List ℕ := (ToolResultExcerpt.boundaries text).tail

/-- `largest`, of the fit of a count; the offsets are read by their index. -/
def largest (fit : ℕ → Check RangeError (Term × Bytes)) (boundaries : List ℕ) (low high : ℤ)
    (best : Option (Term × Bytes)) : Check RangeError (Term × Bytes) :=
  if high < low then
    match best with
    | some encoded => .ok encoded
    | none => .error .unrepresentable
  else
    let middle := (low + high) / 2
    match fit (boundaries.getD middle.toNat 0) with
    | .ok encoded => largest fit boundaries (middle + 1) high (some encoded)
    | .error .unrepresentable => largest fit boundaries low (middle - 1) best
    | .error _ => .raise .functionClause
    | .raise x => .raise x
termination_by (high + 1 - low).toNat

section
variable (otherString : Term → Option Bytes)

/-- The message that a content comes to. -/
def wrapped (inner : Bytes) : Encoding := json otherString (toolMessage measurementId (utf8 "completed") inner)

/-- `fit`: the result beside its JSON. -/
def fit (reference : Term) (offset : ℕ) (text : Bytes) (count size : ℕ) (limit : ℤ) : Check RangeError (Term × Bytes) :=
  match json otherString (range reference offset size (text.take count) count) with
  | .raised => .raise .badArgument
  | .outputRecordTooLarge => .error .unrepresentable
  | .ok inner =>
    match wrapped otherString inner with
    | .raised => .raise .badArgument
    | .outputRecordTooLarge => .error .unrepresentable
    | .ok message =>
      if (message.length : ℤ) ≤ limit then .ok (range reference offset size (text.take count) count, inner)
      else .error .unrepresentable

/-- `encode`. -/
def encode (reference : Term) (offset length : ℤ) (bytes : Bytes) (limit : ℤ) : Check RangeError (Term × Bytes) :=
  match fetch reference "size" with
  | some (.int size) =>
    if 0 ≤ offset ∧ offset ≤ size ∧ 1 ≤ length ∧ length ≤ 4096 ∧ (bytes.length : ℤ) = min length (size - offset) ∧
        1 ≤ limit ∧ limit ≤ ceiling then
      text bytes (decide (offset + bytes.length = size)) >>= fun t =>
        if offset = size then fit otherString reference offset.toNat t 0 size.toNat limit
        else largest (fun count => fit otherString reference offset.toNat t count size.toNat limit) (boundaries t) 0
          ((boundaries t).length - 1) none
    else .error .invalidRange
  | _ => .error .invalidRange

end

/-! ## references -/

section
variable {unsafeText : Bytes → Bool} {otherString : Term → Option Bytes} {reference : Term}

/-- The keys of a reference are apart, and they and its fixed texts are printable. -/
theorem referenceKeys_spelled : (referenceKeys.map sym).Nodup ∧ (referenceKeys.map str).Nodup ∧
    ∀ k ∈ "tool_output" :: "loopex.canonical.v1" :: "use:" :: referenceKeys,
      ((utf8 k).all fun x => 0x20 ≤ x.toNat && x.toNat < 0x80) = true := by decide

/-- The keys of a valid reference. -/
theorem perm_referenceKeys {kvs : List (Term × Term)} (h : validReference unsafeText (.map kvs) = true) :
    (kvs.map Prod.fst).Perm (referenceKeys.map sym) := by
  simp only [validReference, Bool.and_eq_true, decide_eq_true_eq, List.all_eq_true] at h
  obtain ⟨⟨⟨⟨⟨⟨⟨⟨⟨-, hlength, hkeys⟩, -⟩, -⟩, -⟩, -⟩, -⟩, -⟩, -⟩, -⟩ := h
  exact perm_of_lookup referenceKeys_spelled.1 hlength fun key hkey => by
    obtain ⟨k, hk, rfl⟩ := List.mem_map.1 hkey
    exact hkeys k hk

/-- What a valid reference says is written as JSON. -/
theorem encodes_field {kvs : List (Term × Term)} (h : validReference unsafeText (.map kvs) = true) {k : String}
    (hk : k ∈ referenceKeys) : Encodes otherString (ArtifactStore.field (.map kvs) k) := by
  simp only [validReference, Bool.and_eq_true, decide_eq_true_eq] at h
  obtain ⟨⟨⟨⟨⟨⟨⟨⟨⟨-, -⟩, hdigest⟩, hmedia⟩, hsize⟩, hrole⟩, hlocator⟩, hversion⟩, huse⟩, huseLocator⟩ := h
  obtain ⟨d, hd, hdvalid⟩ := validDigest_eq_true hdigest
  obtain ⟨u, hu, huvalid⟩ := validDigest_eq_true huse
  have hspelled := referenceKeys_spelled.2.2
  simp only [referenceKeys, List.mem_cons, List.not_mem_nil, or_false] at hk
  rcases hk with rfl | rfl | rfl | rfl | rfl | rfl | rfl | rfl
  · rw [hd]
    exact encodes_binary hdvalid
  · unfold validLocator at hlocator
    split at hlocator
    next l hl =>
      simp only [Bool.and_eq_true] at hlocator
      rw [hl]
      exact encodes_binary hlocator.1.2
    · cases hlocator
  · unfold validMediaType at hmedia
    split at hmedia
    next m hm =>
      simp only [Bool.and_eq_true] at hmedia
      rw [hm]
      exact encodes_binary hmedia.1.2
    · cases hmedia
  · rw [hrole]
    exact encodes_str (hspelled _ (by simp))
  · unfold validSize at hsize
    split at hsize
    next n hn =>
      rw [hn]
      exact encodes_int n
    · cases hsize
  · rw [hversion]
    exact encodes_str (hspelled _ (by simp))
  · rw [hu]
    exact encodes_binary huvalid
  · rw [hu, useLocator] at huseLocator
    rw [Option.some.inj huseLocator]
    exact encodes_binary (validUtf8_append (validUtf8_name (hspelled _ (by simp))) huvalid)

/-- An entry of a reference, with its key as a string. -/
def stringKey (e : Term × Term) : Term × Term :=
  (match e.1 with
    | .atom key => .binary key
    | key => key, e.2)

/-- A valid reference is written as JSON, with its keys as strings. -/
theorem encodes_reference (h : validReference unsafeText reference = true) :
    Encodes otherString (stringKeys reference) := by
  cases reference with
  | map kvs =>
    have hkeys := perm_referenceKeys h
    have hnodup : (kvs.map Prod.fst).Nodup := hkeys.nodup_iff.2 referenceKeys_spelled.1
    refine Lighter.encodes (lighter_mapOf measure_length (List.forall₂_same.2 ?_))
    intro e he
    obtain ⟨⟨key, value⟩, hmem, rfl⟩ := List.mem_map.1 he
    obtain ⟨k, hk, rfl⟩ := List.mem_map.1 (hkeys.mem_iff.1 (List.mem_map_of_mem (f := Prod.fst) hmem))
    have hfield : ArtifactStore.field (.map kvs) k = value := by
      rw [ArtifactStore.field, lookup_of_mem hnodup hmem]
      rfl
    refine ⟨rfl, ⟨utf8 k, rfl, validUtf8_name (referenceKeys_spelled.2.2 k (by simp [hk]))⟩, ?_⟩
    have hvalue : Encodes otherString value := hfield ▸ encodes_field h hk
    exact hvalue.refl
  | _ => cases h

/-- The size that a reference gives is the one read off its string keys. -/
theorem fetch_size {size : ℕ} (h : validReference unsafeText reference = true)
    (hsize : ArtifactStore.field reference "size" = .int size) : fetch (stringKeys reference) "size" = some (.int size) := by
  cases reference with
  | map kvs =>
    have hkeys := perm_referenceKeys h
    have hmem : (sym "size", .int size) ∈ kvs := by
      rw [ArtifactStore.field] at hsize
      cases hl : lookup (sym "size") kvs with
      | none =>
        rw [hl] at hsize
        cases hsize
      | some value =>
        rw [hl, Option.getD_some] at hsize
        exact lookup_eq_some (hsize ▸ hl)
    have hbinary : ((kvs.map stringKey).map Prod.fst).Perm (referenceKeys.map str) := by
      have hmap := hkeys.map fun key => (stringKey (key, nil)).1
      rw [List.map_map] at hmap ⊢
      exact hmap
    have hnodup : ((kvs.map stringKey).map Prod.fst).Nodup := hbinary.nodup_iff.2 referenceKeys_spelled.2.1
    have hapart : (kvs.map stringKey).Pairwise fun a b => Erlang.encode a.1 ≠ Erlang.encode b.1 := by
      have hnames : ∀ e ∈ kvs.map stringKey, ∃ name, e.1 = str name := by
        intro e he
        obtain ⟨name, -, hname⟩ := List.mem_map.1 (hbinary.mem_iff.1 (List.mem_map_of_mem (f := Prod.fst) he))
        exact ⟨name, hname.symm⟩
      refine (List.pairwise_map.1 hnodup).imp_of_mem fun {a b} ha hb hne hsame => hne ?_
      obtain ⟨k, hk⟩ := hnames a ha
      obtain ⟨l, hl⟩ := hnames b hb
      rw [hk, hl] at hsame ⊢
      exact congrArg Term.binary (encode_binary_inj.1 hsame)
    have hperm := perm_entriesOf hapart
    have hentry : (str "size", .int size) ∈ entriesOf (kvs.map stringKey) :=
      hperm.mem_iff.2 (List.mem_map.2 ⟨_, hmem, rfl⟩)
    exact lookup_of_mem ((hperm.map _).nodup_iff.2 hnodup) hentry
  | _ => cases h

end

/-! ## the size of a result -/

section
variable {otherString : Term → Option Bytes} {reference : Term} {cs ds : List ℕ} {offset size : ℕ} {μ : Bytes → ℕ}

theorem bool_encodes (b : Bool) : Encodes otherString (bool b) := encodes_flag b

/-- The entries of a range. -/
def rangeEntries (reference : Term) (offset size : ℕ) (content : Bytes) (count : ℕ) : List (Term × Term) :=
  [(str "artifact", reference), (str "excerpt_source", str "artifact_object"), (str "offset", .int offset),
    (str "content", .binary content), (str "byte_count", .int count), (str "next_offset", .int (offset + count : ℕ)),
    (str "eof", bool (decide (offset + count = size)))]

theorem range_eq (content : Bytes) (count : ℕ) :
    range reference offset size content count = mapOf (rangeEntries reference offset size content count) := rfl

theorem encodesEntry_name {s : String} {v : Term} (hs : ((utf8 s).all fun x => 0x20 ≤ x.toNat && x.toNat < 0x80) = true)
    (h : Encodes otherString v) : EncodesEntry otherString (str s, v) := ⟨⟨utf8 s, rfl, validUtf8_name hs⟩, h⟩

theorem rangeEntries_encode (href : Encodes otherString reference) {content : Bytes} (hc : validUtf8 content = true)
    (count : ℕ) : ∀ e ∈ rangeEntries reference offset size content count, EncodesEntry otherString e := by
  simp only [rangeEntries, List.forall_mem_cons]
  exact ⟨encodesEntry_name (by decide) href, encodesEntry_name (by decide) (encodes_str (by decide)),
    encodesEntry_name (by decide) (encodes_int _), encodesEntry_name (by decide) (encodes_binary hc),
    encodesEntry_name (by decide) (encodes_int _), encodesEntry_name (by decide) (encodes_int _),
    encodesEntry_name (by decide) (bool_encodes _), List.forall_mem_nil _⟩

theorem rangeEntries_apart (content : Bytes) (count : ℕ) :
    (rangeEntries reference offset size content count).Pairwise fun a b => Erlang.encode a.1 ≠ Erlang.encode b.1 := by
  have hnames : (["artifact", "excerpt_source", "offset", "content", "byte_count", "next_offset", "eof"] : List String).Pairwise
      (· ≠ ·) := by decide
  have hkeys : (rangeEntries reference offset size content count).map Prod.fst =
      ["artifact", "excerpt_source", "offset", "content", "byte_count", "next_offset", "eof"].map str := rfl
  rw [← List.pairwise_map (f := Prod.fst) (R := fun a b => Erlang.encode a ≠ Erlang.encode b), hkeys, List.pairwise_map]
  exact hnames.imp fun hne => SessionConfiguration.encode_str_ne hne

/-- A range that is written. -/
theorem range_encodes (href : Encodes otherString reference) {content : Bytes} (hc : validUtf8 content = true)
    (count : ℕ) : Encodes otherString (range reference offset size content count) := by
  have hentries := @rangeEntries_encode otherString reference offset size href content hc count
  obtain ⟨t, ht, hvalid, -⟩ := weight_mapOf measure_length hentries (rangeEntries_apart _ _)
  exact ⟨t, ht, hvalid⟩

theorem weight_int_le (hμ : Measure μ) {m n : ℕ} (h : m ≤ n) :
    μ (textOf otherString (.int m)) ≤ μ (textOf otherString (.int n)) := by
  have hlighter : Lighter otherString μ (.int m) (.int n) := lighter_int hμ h
  obtain ⟨a, b, ha, hb, -, -, hle⟩ := hlighter
  rwa [textOf, textOf, ha, hb]

/-- **A longer range is never cheaper.** Its content weighs one more at least, and its flag one less at most. -/
theorem range_lighter (hμ : FineMeasure μ) (href : Encodes otherString reference) (hcs : ∀ c ∈ cs, Scalar c)
    (hds : ∀ c ∈ ds, Scalar c) (hle : offset + (utf8All (cs ++ ds)).length ≤ size) :
    Lighter otherString μ (range reference offset size (utf8All cs) (utf8All cs).length)
      (range reference offset size (utf8All (cs ++ ds)) (utf8All (cs ++ ds)).length) := by
  have hvalid : validUtf8 (utf8All cs) = true := valid_utf8All hcs
  have hvalid' : validUtf8 (utf8All (cs ++ ds)) = true :=
    valid_utf8All fun c hc => (List.mem_append.1 hc).elim (hcs c) (hds c)
  rcases List.eq_nil_or_concat ds with rfl | ⟨front, last, hlast⟩
  · rw [List.append_nil]
    exact (range_encodes href hvalid _).refl
  have hne : ds ≠ [] := by
    rw [hlast]
    simp
  have hentries := @rangeEntries_encode otherString reference offset size href _ hvalid (utf8All cs).length
  have hentries' := @rangeEntries_encode otherString reference offset size href _ hvalid' (utf8All (cs ++ ds)).length
  obtain ⟨t, ht, htvalid, hweight⟩ := weight_mapOf hμ.toMeasure hentries (rangeEntries_apart _ _)
  obtain ⟨t', ht', htvalid', hweight'⟩ := weight_mapOf hμ.toMeasure hentries' (rangeEntries_apart _ _)
  refine ⟨t, t', ht, ht', htvalid, htvalid', ?_⟩
  have hcontent : μ (textOf otherString (.binary (utf8All cs))) + 1 ≤
      μ (textOf otherString (.binary (utf8All (cs ++ ds)))) := weight_string_lt hμ hcs hds hne
  have hlength : (utf8All cs).length ≤ (utf8All (cs ++ ds)).length := by
    rw [utf8All_append, List.length_append]
    omega
  have hcount : μ (textOf otherString (.int (utf8All cs).length)) ≤
      μ (textOf otherString (.int (utf8All (cs ++ ds)).length)) := weight_int_le hμ.toMeasure hlength
  have hnext : μ (textOf otherString (.int (offset + (utf8All cs).length : ℕ))) ≤
      μ (textOf otherString (.int (offset + (utf8All (cs ++ ds)).length : ℕ))) :=
    weight_int_le hμ.toMeasure (by omega)
  have htrue : textOf otherString (bool true) = utf8 "true" := by simp [textOf, ToolResultExcerpt.bool, sym, encodeValue]
  have hfalse : textOf otherString (bool false) = utf8 "false" := by simp [textOf, ToolResultExcerpt.bool, sym, encodeValue]
  have hflag : ∀ b b' : Bool, μ (textOf otherString (bool b)) ≤ μ (textOf otherString (bool b')) + 1 := by
    have h1 := hμ.flag
    have h2 := hμ.unflag
    intro b b'
    cases b <;> cases b' <;> simp only [htrue, hfalse] <;> omega
  have hflags := hflag (decide (offset + (utf8All cs).length = size)) (decide (offset + (utf8All (cs ++ ds)).length = size))
  rw [hweight, hweight']
  simp only [rangeEntries, List.map_cons, List.map_nil, List.sum_cons, List.sum_nil, entryWeight, List.length_cons,
    List.length_nil]
  omega

/-! ## what fits -/

/-- The message of the first `n` bytes of a window is within the limit. -/
def Fits (otherString : Term → Option Bytes) (reference : Term) (offset size : ℕ) (window : Bytes) (limit : ℤ) (n : ℕ) :
    Prop :=
  ∃ inner message, json otherString (range reference offset size (window.take n) n) = .ok inner ∧
    wrapped otherString inner = .ok message ∧ (message.length : ℤ) ≤ limit

variable {limit : ℤ}

theorem wrapped_lighter {a b : Bytes} (ha : validUtf8 a = true) (hb : validUtf8 b = true) (hle : escaped a ≤ escaped b) :
    Lighter otherString List.length (toolMessage measurementId (utf8 "completed") a)
      (toolMessage measurementId (utf8 "completed") b) := by
  refine message_lighter ?_ (validUtf8_name (by decide)) ha hb hle
  rw [measurementId]
  decide +kernel

/-- The fit of a count comes to the range if that fits, and is unrepresentable if not. -/
theorem fit_cases (href : Encodes otherString reference) {text : Bytes} {n : ℕ} (htext : validUtf8 (text.take n) = true) :
    (∃ inner, Fits otherString reference offset size text limit n ∧
      json otherString (range reference offset size (text.take n) n) = .ok inner ∧
      fit otherString reference offset text n size limit = .ok (range reference offset size (text.take n) n, inner)) ∨
      ¬ Fits otherString reference offset size text limit n ∧
        fit otherString reference offset text n size limit = .error .unrepresentable := by
  have hrange : Encodes otherString (range reference offset size (text.take n) n) := range_encodes href htext n
  unfold fit
  rcases @json_of_encodes otherString (entriesOf (rangeEntries reference offset size (text.take n) n)) hrange with
    hlarge | ⟨inner, -, hvalid, hinner⟩
  · have hlarge : json otherString (range reference offset size (text.take n) n) = .outputRecordTooLarge := hlarge
    refine .inr ⟨fun hfits => ?_, by rw [hlarge]⟩
    obtain ⟨inner, message, hok, -⟩ := hfits
    rw [hlarge] at hok
    cases hok
  have hinner : json otherString (range reference offset size (text.take n) n) = .ok inner := hinner
  have hmessage : Encodes otherString (toolMessage measurementId (utf8 "completed") inner) :=
    (wrapped_lighter hvalid hvalid (Nat.le_refl _)).encodes
  rw [hinner]
  dsimp only
  rcases json_of_encodes hmessage with hlarge | ⟨message, -, -, hmessage⟩
  · have hlarge : wrapped otherString inner = .outputRecordTooLarge := hlarge
    refine .inr ⟨fun hfits => ?_, by rw [hlarge]⟩
    obtain ⟨inner', message, hok, hwrapped, -⟩ := hfits
    obtain rfl := Encoding.ok.inj (hinner.symm.trans hok)
    rw [hlarge] at hwrapped
    cases hwrapped
  · have hmessage : wrapped otherString inner = .ok message := hmessage
    rw [hmessage]
    dsimp only
    by_cases hsize : (message.length : ℤ) ≤ limit
    · rw [if_pos hsize]
      exact .inl ⟨inner, ⟨inner, message, hinner, hmessage, hsize⟩, rfl, rfl⟩
    · rw [if_neg hsize]
      refine .inr ⟨fun hfits => ?_, rfl⟩
      obtain ⟨inner', message', hok, hwrapped, hle⟩ := hfits
      obtain rfl := Encoding.ok.inj (hinner.symm.trans hok)
      obtain rfl := Encoding.ok.inj (hmessage.symm.trans hwrapped)
      exact hsize hle

/-- **What fits, fits with fewer characters.** -/
theorem fits_of_longer (href : Encodes otherString reference) (hcs : ∀ c ∈ cs, Scalar c)
    (hsize : offset + (utf8All cs).length ≤ size) {i j : ℕ} (hij : i ≤ j)
    (h : Fits otherString reference offset size (utf8All cs) limit (utf8All (cs.take j)).length) :
    Fits otherString reference offset size (utf8All cs) limit (utf8All (cs.take i)).length := by
  obtain ⟨innerj, messagej, hinnerj, hmessagej, hlimit⟩ := h
  have hsplit := (List.take_append_drop i (cs.take j)).symm
  rw [List.take_take, Nat.min_eq_left hij] at hsplit
  have hfront : ∀ c ∈ cs.take i, Scalar c := fun c hc => hcs c (List.mem_of_mem_take hc)
  have hback : ∀ c ∈ (cs.take j).drop i, Scalar c := fun c hc =>
    hcs c (List.mem_of_mem_take (List.mem_of_mem_drop hc))
  have hwithin : offset + (utf8All (cs.take i ++ (cs.take j).drop i)).length ≤ size := by
    have hall := congrArg List.length (utf8All_take_drop cs j)
    rw [List.length_append] at hall
    rw [← hsplit]
    omega
  rw [take_utf8All, hsplit] at hinnerj
  -- the result is shorter, and shorter once it is escaped
  obtain ⟨a, b, ha, hb, hva, hvb, hlength⟩ := range_lighter fineMeasure_length href hfront hback hwithin
  obtain ⟨a', b', ha', hb', -, -, hescaped⟩ := range_lighter fineMeasure_escaped href hfront hback hwithin
  obtain rfl := Option.some.inj (ha.symm.trans ha')
  obtain rfl := Option.some.inj (hb.symm.trans hb')
  have hjsonj := json_map hb
  have hjsoni := json_map ha
  change json otherString (range _ _ _ _ _) = _ at hjsonj hjsoni
  rw [hjsonj] at hinnerj
  split at hinnerj
  · cases hinnerj
  next hsmall =>
    obtain rfl := Encoding.ok.inj hinnerj
    have hmessage : Lighter otherString List.length (toolMessage measurementId (utf8 "completed") a)
        (toolMessage measurementId (utf8 "completed") b) := wrapped_lighter hva hvb hescaped
    obtain ⟨x, y, hx, hy, -, -, hxy⟩ := hmessage
    have hjsony := json_map hy
    have hjsonx := json_map hx
    change wrapped otherString _ = _ at hjsony hjsonx
    rw [hjsony] at hmessagej
    split at hmessagej
    · cases hmessagej
    next hsmall' =>
      obtain rfl := Encoding.ok.inj hmessagej
      refine ⟨a, x, ?_, ?_, ?_⟩
      · rw [take_utf8All, hjsoni, if_neg (by omega)]
      · rw [hjsonx, if_neg (by omega)]
      · omega

/-! ## the search -/

/-- The offsets are the ends of the characters. -/
theorem boundaries_ends (hcs : ∀ c ∈ cs, Scalar c) :
    (boundaries (utf8All cs)).length = cs.length ∧
      ∀ i < cs.length, (boundaries (utf8All cs)).getD i 0 = (utf8All (cs.take (i + 1))).length := by
  obtain ⟨hlength, hget⟩ := boundaries_utf8All hcs
  rcases hall : ToolResultExcerpt.boundaries (utf8All cs) with _ | ⟨first, rest⟩
  · rw [hall] at hlength
    simp at hlength
  · rw [hall] at hlength hget
    rw [boundaries, hall, List.tail_cons]
    refine ⟨by simpa using hlength, fun i hi => ?_⟩
    exact hget (i + 1) hi

/-- The result of an index of the search. -/
def probe (fit : ℕ → Check RangeError (Term × Bytes)) (boundaries : List ℕ) (i : ℕ) : Option (Term × Bytes) :=
  match fit (boundaries.getD i 0) with
  | .ok encoded => some encoded
  | _ => none

/-- A search whose fits do not raise is the binary search for the last success. -/
theorem largest_eq {fit : ℕ → Check RangeError (Term × Bytes)} {boundaries : List ℕ} {n : ℕ}
    (hfit : ∀ i ≤ n, (∃ encoded, fit (boundaries.getD i 0) = .ok encoded) ∨
      fit (boundaries.getD i 0) = .error .unrepresentable)
    {low high : ℤ} {best : Option (Term × Bytes)} (hlow : 0 ≤ low) (hhigh : high ≤ n) :
    largest fit boundaries low high best =
      match lastSuccess (probe fit boundaries) low high best with
      | some encoded => .ok encoded
      | none => .error .unrepresentable := by
  induction low, high, best using lastSuccess.induct (probe fit boundaries) with
  | case1 low high best hdone =>
    rw [largest.eq_def, lastSuccess.eq_def, if_pos hdone, if_pos hdone]
  | case2 low high best hgo middle encoded hp ih =>
    have hmiddle : middle = (low + high) / 2 := rfl
    rw [largest.eq_def, lastSuccess.eq_def, if_neg hgo, if_neg hgo]
    dsimp only
    rw [← hmiddle, hp]
    dsimp only
    rw [probe] at hp
    rcases hfit middle.toNat (by omega) with ⟨found, hfound⟩ | herror
    · rw [hfound] at hp ⊢
      obtain rfl := Option.some.inj hp
      exact ih (by omega) hhigh
    · rw [herror] at hp
      cases hp
  | case3 low high best hgo middle hp ih =>
    have hmiddle : middle = (low + high) / 2 := rfl
    rw [largest.eq_def, lastSuccess.eq_def, if_neg hgo, if_neg hgo]
    dsimp only
    rw [← hmiddle, hp]
    dsimp only
    rw [probe] at hp
    rcases hfit middle.toNat (by omega) with ⟨found, hfound⟩ | herror
    · rw [hfound] at hp
      cases hp
    · rw [herror]
      exact ih hlow (by omega)

/-- The search finds the longest of the prefixes that fit. -/
theorem search_spec (href : Encodes otherString reference) (hcs : ∀ c ∈ cs, Scalar c)
    (hsize : offset + (utf8All cs).length ≤ size) {j : ℕ} (hj : j ≤ cs.length) :
    let text := utf8All (cs.take j)
    let found := largest (fun count => fit otherString reference offset text count size limit) (boundaries text) 0
      ((boundaries text).length - 1) none
    (∃ i inner, 0 < i ∧ i ≤ j ∧
        Fits otherString reference offset size (utf8All cs) limit (utf8All (cs.take i)).length ∧
        (∀ k, i < k → k ≤ j →
          ¬ Fits otherString reference offset size (utf8All cs) limit (utf8All (cs.take k)).length) ∧
        json otherString (range reference offset size (utf8All (cs.take i)) (utf8All (cs.take i)).length) = .ok inner ∧
        found = .ok (range reference offset size (utf8All (cs.take i)) (utf8All (cs.take i)).length, inner)) ∨
      (∀ k, 0 < k → k ≤ j →
        ¬ Fits otherString reference offset size (utf8All cs) limit (utf8All (cs.take k)).length) ∧
        found = .error .unrepresentable := by
  intro text found
  have htext : ∀ c ∈ cs.take j, Scalar c := fun c hc => hcs c (List.mem_of_mem_take hc)
  obtain ⟨hlength, hends⟩ := boundaries_ends htext
  rw [List.length_take, Nat.min_eq_left hj] at hlength hends
  rcases j with _ | m
  · refine .inr ⟨fun k hk hle => by omega, ?_⟩
    have hhigh : ((boundaries text).length : ℤ) - 1 < 0 := by
      rw [hlength]
      decide
    change largest _ _ _ _ _ = _
    rw [largest, if_pos hhigh]
  have hhigh : ((boundaries text).length : ℤ) - 1 = m := by
    rw [hlength]
    omega
  -- every fit of the search is at the end of a character
  have hcases : ∀ i ≤ m, (boundaries text).getD i 0 = (utf8All (cs.take (i + 1))).length ∧
      ((∃ inner, Fits otherString reference offset size (utf8All cs) limit (utf8All (cs.take (i + 1))).length ∧
        json otherString (range reference offset size (utf8All (cs.take (i + 1))) (utf8All (cs.take (i + 1))).length) =
          .ok inner ∧
        fit otherString reference offset text (utf8All (cs.take (i + 1))).length size limit =
          .ok (range reference offset size (utf8All (cs.take (i + 1))) (utf8All (cs.take (i + 1))).length, inner)) ∨
      ¬ Fits otherString reference offset size (utf8All cs) limit (utf8All (cs.take (i + 1))).length ∧
        fit otherString reference offset text (utf8All (cs.take (i + 1))).length size limit =
          .error .unrepresentable) := by
    intro i hi
    have hshorter : (cs.take (m + 1)).take (i + 1) = cs.take (i + 1) := by
      rw [List.take_take, Nat.min_eq_left (by omega)]
    have hend := hends i (by omega)
    have hcut := take_utf8All (cs.take (m + 1)) (i + 1)
    rw [hshorter] at hend hcut
    have hvalid : validUtf8 (text.take (utf8All (cs.take (i + 1))).length) = true := by
      rw [hcut]
      exact valid_utf8All fun c hc => hcs c (List.mem_of_mem_take hc)
    have hfits : ∀ n, n = (utf8All (cs.take (i + 1))).length →
        (Fits otherString reference offset size text limit n ↔
          Fits otherString reference offset size (utf8All cs) limit n) := by
      rintro n rfl
      rw [Fits, Fits, hcut, take_utf8All]
    refine ⟨hend, ?_⟩
    rcases @fit_cases otherString reference offset size limit href text _ hvalid with
      ⟨inner, hfit, hinner, hok⟩ | ⟨hfit, herror⟩
    · rw [hcut] at hinner hok
      exact .inl ⟨inner, (hfits _ rfl).1 hfit, hinner, hok⟩
    · exact .inr ⟨fun hfit' => hfit ((hfits _ rfl).2 hfit'), herror⟩
  have hfound : found = match lastSuccess (probe (fun count => fit otherString reference offset text count size limit)
      (boundaries text)) 0 m none with
      | some encoded => .ok encoded
      | none => .error .unrepresentable := by
    change largest _ _ _ _ _ = _
    rw [hhigh]
    refine largest_eq (fun i hi => ?_) (Int.le_refl 0) (Int.le_refl _)
    obtain ⟨hend, ⟨inner, -, -, hok⟩ | ⟨-, herror⟩⟩ := hcases i hi
    · rw [hend]
      exact .inl ⟨_, hok⟩
    · rw [hend]
      exact .inr herror
  generalize hP : probe (fun count => fit otherString reference offset text count size limit) (boundaries text) = P
    at hfound
  have hanswer : ∀ i ≤ m, (P i).isSome ↔
      Fits otherString reference offset size (utf8All cs) limit (utf8All (cs.take (i + 1))).length := by
    intro i hi
    obtain ⟨hend, ⟨inner, hfit, -, hok⟩ | ⟨hfit, herror⟩⟩ := hcases i hi
    · refine iff_of_true ?_ hfit
      rw [← hP, probe, hend, hok]
      rfl
    · refine iff_of_false ?_ hfit
      rw [← hP, probe, hend, herror]
      simp
  have hlast : IsLast P m (lastSuccess P 0 m none) :=
    lastSuccess_spec fun i k hik hk h =>
      (hanswer i (hik.trans hk)).2 (fits_of_longer href hcs hsize (by omega) ((hanswer k hk).1 h))
  have hfails : ∀ k, 0 < k → k ≤ m + 1 → P (k - 1) = none →
      ¬ Fits otherString reference offset size (utf8All cs) limit (utf8All (cs.take k)).length := by
    intro k hpos hk hnone hfit
    have hsome := (hanswer (k - 1) (by omega)).2 (by rwa [Nat.sub_add_cancel hpos])
    rw [hnone] at hsome
    cases hsome
  rw [hfound]
  rcases hlast with ⟨hnone, hall⟩ | ⟨i, hi, hbest, hisSome, hall⟩
  · rw [hnone]
    exact .inr ⟨fun k hpos hk => hfails k hpos hk (hall (k - 1) (by omega)), rfl⟩
  · obtain ⟨hend, ⟨inner, hfit, hinner, hok⟩ | ⟨hfit, -⟩⟩ := hcases i hi
    · have hp : P i = some
          (range reference offset size (utf8All (cs.take (i + 1))) (utf8All (cs.take (i + 1))).length, inner) := by
        rw [← hP, probe, hend, hok]
      rw [hbest, hp]
      refine .inl ⟨i + 1, inner, by omega, by omega, hfit, fun k hik hk => ?_, hinner, rfl⟩
      exact hfails k (by omega) hk (hall (k - 1) (by omega) (by omega))
    · exact absurd ((hanswer i hi).1 hisSome) hfit

/-! ## windows -/

/-- The counts of a window that a read may come to: the ends of its characters, of which the start is one only at the
end of the object. -/
def prefixes (otherString : Term → Option Bytes) (reference : Term) (offset size : ℕ) (window : Bytes) (limit : ℤ) :
    Set ℕ :=
  {k | k ≤ window.length ∧ (0 < k ∨ offset = size) ∧ validUtf8 (window.take k) = true ∧
    Fits otherString reference offset size window limit k}

/-- What a read of a window comes to. -/
inductive Answers (otherString : Term → Option Bytes) (reference : Term) (offset size : ℕ) (window : Bytes) (limit : ℤ) :
    Check RangeError (Term × Bytes) → Prop
  | range {n : ℕ} {inner : Bytes} (greatest : IsGreatest (prefixes otherString reference offset size window limit) n)
      (written : json otherString (range reference offset size (window.take n) n) = .ok inner) :
      Answers otherString reference offset size window limit
        (.ok (range reference offset size (window.take n) n, inner))
  | unrepresentable (none_fits : prefixes otherString reference offset size window limit = ∅) :
      Answers otherString reference offset size window limit (.error .unrepresentable)

/-- The whole characters of a window, of which the last is cut only in front of the end. -/
theorem text_window (hcs : ∀ c ∈ cs, Scalar c) (hsize : offset + (utf8All cs).length = size) (length : ℕ) :
    ∃ j ≤ cs.length, (∀ i ≤ cs.length, (utf8All (cs.take i)).length ≤ length ↔ i ≤ j) ∧
      text ((utf8All cs).take length) (decide ((offset : ℤ) + ((utf8All cs).take length).length = size)) =
        .ok (utf8All (cs.take j)) := by
  obtain ⟨j, hj, hiff, hchars⟩ := charactersToBinary_take hcs length
  refine ⟨j, hj, hiff, ?_⟩
  rcases hchars with h | ⟨rest, h⟩
  · rw [text, h]
  · have hshort : ¬ (offset : ℤ) + ((utf8All cs).take length).length = size := by
      intro hend
      rw [List.take_of_length_le (by rw [List.length_take] at hend; omega), charactersToBinary_utf8All hcs] at h
      cases h
    rw [text, h, decide_eq_false hshort]
    rfl

/-- A read in front of a character. -/
theorem answers_of_boundary (href : Encodes otherString reference) (hcs : ∀ c ∈ cs, Scalar c)
    (hsize : offset + (utf8All cs).length = size) {length : ℕ} (hpos : 1 ≤ length) (hmax : length ≤ 4096)
    (hlow : 1 ≤ limit) (hhigh : limit ≤ ceiling) (hfetch : fetch reference "size" = some (.int size)) :
    Answers otherString reference offset size ((utf8All cs).take length) limit
      (encode otherString reference offset length ((utf8All cs).take length) limit) := by
  obtain ⟨j, hj, hiff, htext⟩ := text_window hcs hsize length
  have hguard : 0 ≤ (offset : ℤ) ∧ (offset : ℤ) ≤ (size : ℤ) ∧ 1 ≤ (length : ℤ) ∧ (length : ℤ) ≤ 4096 ∧
      (((utf8All cs).take length).length : ℤ) = min (length : ℤ) (size - offset) ∧ 1 ≤ limit ∧ limit ≤ ceiling := by
    refine ⟨by omega, by omega, by omega, by omega, ?_, hlow, hhigh⟩
    rw [List.length_take]
    omega
  have htake : ∀ i ≤ cs.length, (utf8All (cs.take i)).length ≤ length →
      ((utf8All cs).take length).take (utf8All (cs.take i)).length = utf8All (cs.take i) := by
    intro i _ hle
    rw [List.take_take, Nat.min_eq_left hle, take_utf8All]
  have hfits : ∀ k ≤ length, Fits otherString reference offset size ((utf8All cs).take length) limit k ↔
      Fits otherString reference offset size (utf8All cs) limit k := by
    intro k hk
    rw [Fits, Fits, List.take_take, Nat.min_eq_left hk]
  -- a count of the window is the end of one of its characters
  have hcount : ∀ k ∈ prefixes otherString reference offset size ((utf8All cs).take length) limit,
      ∃ i ≤ j, k = (utf8All (cs.take i)).length ∧ (0 < k ∨ offset = size) ∧
        Fits otherString reference offset size (utf8All cs) limit k := by
    rintro k ⟨hk, hstart, hvalid, hfit⟩
    rw [List.length_take] at hk
    rw [List.take_take, Nat.min_eq_left (by omega)] at hvalid
    obtain ⟨i, hi, rfl⟩ := (boundary_iff hcs (by omega)).1 hvalid
    exact ⟨i, (hiff i hi).1 (by omega), rfl, hstart, (hfits _ (by omega)).1 hfit⟩
  have hmem : ∀ i ≤ j, (0 < (utf8All (cs.take i)).length ∨ offset = size) →
      Fits otherString reference offset size (utf8All cs) limit (utf8All (cs.take i)).length →
      (utf8All (cs.take i)).length ∈ prefixes otherString reference offset size ((utf8All cs).take length) limit := by
    intro i hi hstart hfit
    have hle := (hiff i (hi.trans hj)).2 hi
    have hwithin : (utf8All (cs.take i)).length ≤ (utf8All cs).length := by
      rw [utf8All_take_drop cs i, List.length_append]
      omega
    refine ⟨by rw [List.length_take]; omega, hstart, ?_, (hfits _ hle).2 hfit⟩
    rw [htake i (hi.trans hj) hle]
    exact valid_utf8All fun c hc => hcs c (List.mem_of_mem_take hc)
  have hencode : encode otherString reference offset length ((utf8All cs).take length) limit =
      if (offset : ℤ) = size then fit otherString reference offset (utf8All (cs.take j)) 0 size limit
      else largest (fun count => fit otherString reference offset (utf8All (cs.take j)) count size limit)
        (boundaries (utf8All (cs.take j))) 0 ((boundaries (utf8All (cs.take j))).length - 1) none := by
    rw [encode, hfetch]
    dsimp only
    rw [if_pos hguard, htext]
    rfl
  rw [hencode]
  by_cases hend : offset = size
  · have hempty : cs = [] := by
      rcases cs with _ | ⟨c, cs⟩
      · rfl
      · have hlen := List.length_pos_iff.2 (utf8Encode_ne_nil c)
        rw [utf8All_cons, List.length_append] at hsize
        omega
    subst hempty
    rw [if_pos (by exact_mod_cast hend)]
    have hzero : ∀ k ∈ prefixes otherString reference offset size ((utf8All []).take length) limit, k = 0 := by
      rintro k ⟨hk, -⟩
      simpa using hk
    rcases @fit_cases otherString reference offset size limit href [] 0 (valid_utf8All (List.forall_mem_nil _)) with
      ⟨inner, hfit, hinner, hok⟩ | ⟨hfit, herror⟩
    · have hzeroMem : 0 ∈ prefixes otherString reference offset size ((utf8All []).take length) limit :=
        hmem 0 (Nat.zero_le _) (.inr hend) hfit
      have hanswer := Answers.range (n := 0) ⟨hzeroMem, fun k hk => (hzero k hk).le⟩ hinner
      rw [List.take_nil, utf8All_nil, hok]
      exact hanswer
    · rw [List.take_nil, utf8All_nil, herror]
      refine .unrepresentable (Set.eq_empty_iff_forall_notMem.2 fun k hk => ?_)
      obtain rfl := hzero k hk
      obtain ⟨i, -, -, -, hfit'⟩ := hcount 0 hk
      exact hfit hfit'
  · rw [if_neg (by exact_mod_cast hend)]
    rcases @search_spec otherString reference cs offset size limit href hcs hsize.le j hj with
      ⟨i, inner, hipos, hij, hfit, hlongest, hinner, hfound⟩ | ⟨hnone, hfound⟩
    · have hle := (hiff i (hij.trans hj)).2 hij
      have hpositive : 0 < (utf8All (cs.take i)).length := by
        rcases cs with _ | ⟨c, cs⟩
        · simp only [List.length_nil] at hj
          omega
        · obtain ⟨i, rfl⟩ := Nat.exists_eq_succ_of_ne_zero (by omega : i ≠ 0)
          have hlen := List.length_pos_iff.2 (utf8Encode_ne_nil c)
          rw [List.take_succ_cons, utf8All_cons, List.length_append]
          omega
      have hcut := htake i (hij.trans hj) hle
      have hgreatest : IsGreatest (prefixes otherString reference offset size ((utf8All cs).take length) limit)
          (utf8All (cs.take i)).length := by
        refine ⟨hmem i hij (.inl hpositive) hfit, fun k hk => ?_⟩
        obtain ⟨i', hi'j, rfl, -, hfit'⟩ := hcount k hk
        have hi'i : i' ≤ i := by
          by_contra hlt
          exact hlongest i' (by omega) hi'j hfit'
        rw [← Nat.min_eq_left hi'i, ← List.take_take, utf8All_take_drop (cs.take i) i', List.length_append]
        omega
      have hanswer := Answers.range hgreatest (by rw [hcut]; exact hinner)
      rw [hcut] at hanswer
      rw [hfound]
      exact hanswer
    · rw [hfound]
      refine .unrepresentable (Set.eq_empty_iff_forall_notMem.2 fun k hk => ?_)
      obtain ⟨i, hi, rfl, hstart, hfit⟩ := hcount k hk
      refine hnone i ?_ hi hfit
      rcases Nat.eq_zero_or_pos i with rfl | hipos
      · rcases hstart with h | h
        · simp at h
        · exact absurd h hend
      · exact hipos

end

/-! ## reading an object -/

section
variable {unsafeText : Bytes → Bool} {otherString : Term → Option Bytes} {reference : Term} {object : Bytes}

/-- **A range is the longest that fits.** In front of a character of a text object a read comes to the longest of the
prefixes of its window, and within a character it is refused. -/
theorem range_optimal (hobject : validUtf8 object = true) (href : validReference unsafeText reference = true)
    (hfield : ArtifactStore.field reference "size" = .int object.length) {offset length : ℕ} {limit : ℤ}
    (hoffset : offset ≤ object.length) (hpos : 1 ≤ length) (hmax : length ≤ 4096) (hlow : 1 ≤ limit)
    (hhigh : limit ≤ ceiling) :
    let window := (object.drop offset).take length
    let answer := encode otherString (stringKeys reference) offset length window limit
    (validUtf8 (object.take offset) = true →
      Answers otherString (stringKeys reference) offset object.length window limit answer) ∧
    (validUtf8 (object.take offset) = false →
      answer = .error .unsupportedContent ∧ ∃ rest, charactersToBinary window = .error [] rest) := by
  intro window answer
  have hfetch := fetch_size href hfield
  have hencodes : Encodes otherString (stringKeys reference) := encodes_reference href
  obtain ⟨cs, hcs, rfl⟩ := validUtf8_iff.1 hobject
  constructor
  · intro hvalid
    obtain ⟨i, hi, rfl⟩ := (boundary_iff hcs hoffset).1 hvalid
    have hdrop : (utf8All cs).drop (utf8All (cs.take i)).length = utf8All (cs.drop i) := by
      rw [utf8All_take_drop cs i, List.drop_left]
    have hsize : (utf8All (cs.take i)).length + (utf8All (cs.drop i)).length = (utf8All cs).length := by
      rw [utf8All_take_drop cs i, List.length_append]
    have hanswer := answers_of_boundary hencodes (fun c hc => hcs c (List.mem_of_mem_drop hc)) hsize hpos hmax hlow hhigh
      hfetch
    rw [← hdrop] at hanswer
    exact hanswer
  · intro hinvalid
    rcases cut_cases hcs hoffset with ⟨i, hi, hcut⟩ | ⟨m, x, xs, hx, hdrop⟩
    · rw [(boundary_iff hcs hoffset).2 ⟨i, hi, hcut⟩] at hinvalid
      cases hinvalid
    · have hwindow : window = x :: xs.take (length - 1) := by
        obtain ⟨k, rfl⟩ := Nat.exists_eq_succ_of_ne_zero (by omega : length ≠ 0)
        change ((utf8All cs).drop offset).take (k + 1) = _
        rw [hdrop, List.take_succ_cons]
        rfl
      have hchars := charactersToBinary_continuation hx (xs.take (length - 1))
      have hguard : 0 ≤ (offset : ℤ) ∧ (offset : ℤ) ≤ ((utf8All cs).length : ℤ) ∧ 1 ≤ (length : ℤ) ∧
          (length : ℤ) ≤ 4096 ∧
          (window.length : ℤ) = min (length : ℤ) ((utf8All cs).length - offset) ∧ 1 ≤ limit ∧ limit ≤ ceiling := by
        refine ⟨by omega, by omega, by omega, by omega, ?_, hlow, hhigh⟩
        change ((((utf8All cs).drop offset).take length).length : ℤ) = _
        rw [List.length_take, List.length_drop]
        omega
      refine ⟨?_, _, hwindow ▸ hchars⟩
      change encode otherString (stringKeys reference) offset length window limit = _
      rw [encode, hfetch]
      dsimp only
      rw [if_pos hguard, text, hwindow, hchars]
      rfl

/-- Where a reader is in an object. -/
structure Reader where
  offset : ℕ
  contents : List Bytes
  eof : Bool

/-- The next read of a reader that is not at the end, with a length and a limit of its own. -/
inductive Follow (otherString : Term → Option Bytes) (reference : Term) (object : Bytes) :
    Reader → ℕ × ℤ → Reader → Prop
  | read {s : Reader} {length : ℕ} {limit : ℤ} {result : Term} {inner content : Bytes} {next : ℕ} {eof : Bool}
      (more : s.eof = false)
      (answer : encode otherString reference s.offset length ((object.drop s.offset).take length) limit =
        .ok (result, inner))
      (content_eq : fetch result "content" = some (.binary content))
      (next_eq : fetch result "next_offset" = some (.int next)) (eof_eq : fetch result "eof" = some (bool eof)) :
      Follow otherString reference object s (length, limit) ⟨next, s.contents ++ [content], eof⟩

/-- What a reader has read. -/
structure Reading (object : Bytes) (s : Reader) : Prop where
  le : s.offset ≤ object.length
  boundary : validUtf8 (object.take s.offset) = true
  contents : s.contents.flatten = object.take s.offset
  count : s.contents.length ≤ max 1 s.offset
  more : s.eof = false → s.contents.length ≤ s.offset ∧ (s.offset = object.length → object = [])
  done : s.eof = true → s.offset = object.length

/-- What is read off a range. -/
theorem fetch_range (reference : Term) (offset size : ℕ) (content : Bytes) (count : ℕ) :
    fetch (range reference offset size content count) "content" = some (.binary content) ∧
      fetch (range reference offset size content count) "next_offset" = some (.int (offset + count : ℕ)) ∧
      fetch (range reference offset size content count) "eof" = some (bool (decide (offset + count = size))) := by
  have hnodup : (([("artifact", reference), ("excerpt_source", str "artifact_object"), ("offset", .int offset),
      ("content", .binary content), ("byte_count", .int count), ("next_offset", .int (offset + count : ℕ)),
      ("eof", bool (decide (offset + count = size)))] : Fields).map Prod.fst).Nodup := by
    change (["artifact", "excerpt_source", "offset", "content", "byte_count", "next_offset", "eof"] : List String).Nodup
    decide
  exact ⟨fetch_plainMap hnodup "content", fetch_plainMap hnodup "next_offset", fetch_plainMap hnodup "eof"⟩

theorem bool_inj {a b : Bool} (h : bool a = bool b) : a = b := by
  have hne : sym "true" ≠ sym "false" := by decide
  cases a <;> cases b <;> first | rfl | exact absurd h hne | exact absurd h.symm hne

/-- A read that has a range has its arguments in their bounds. -/
theorem encode_guard {offset length limit : ℤ} {bytes : Bytes} {encoded : Term × Bytes}
    (h : encode otherString reference offset length bytes limit = .ok encoded) :
    1 ≤ length ∧ length ≤ 4096 ∧ 1 ≤ limit ∧ limit ≤ ceiling := by
  unfold encode at h
  split at h
  · split at h
    next hguard => exact ⟨hguard.2.2.1, hguard.2.2.2.1, hguard.2.2.2.2.2.1, hguard.2.2.2.2.2.2⟩
    · cases h
  · cases h

/-- Every read goes on from a character to a character. -/
theorem reading_follow (hobject : validUtf8 object = true) (href : validReference unsafeText reference = true)
    (hfield : ArtifactStore.field reference "size" = .int object.length) {s t : Reader} {i : ℕ × ℤ} (hs : Reading object s)
    (h : Follow otherString (stringKeys reference) object s i t) : Reading object t := by
  cases h with
  | @read length limit result inner content next eof more answer content_eq next_eq eof_eq =>
    obtain ⟨hpos, hmax, hlow, hhigh⟩ := encode_guard answer
    have hone : 1 ≤ length := by omega
    have hmost : length ≤ 4096 := by omega
    have hanswer : Answers otherString (stringKeys reference) s.offset object.length
        ((object.drop s.offset).take length) limit _ :=
      (range_optimal hobject href hfield hs.le hone hmost hlow hhigh).1 hs.boundary
    rw [answer] at hanswer
    generalize hw : (object.drop s.offset).take length = window at hanswer
    cases hanswer with
    | @range n inner hgreatest written =>
      obtain ⟨⟨hn, hstart, hvalid, -⟩, -⟩ := hgreatest
      obtain ⟨hcontent, hnext, heof⟩ := fetch_range (stringKeys reference) s.offset object.length (window.take n) n
      obtain rfl := Term.binary.inj (Option.some.inj (hcontent.symm.trans content_eq))
      obtain rfl := Int.ofNat.inj (Term.int.inj (Option.some.inj (hnext.symm.trans next_eq)))
      obtain rfl := bool_inj (Option.some.inj (heof.symm.trans eof_eq))
      have hlength : window.length ≤ length ∧ window.length ≤ object.length - s.offset := by
        rw [← hw, List.length_take, List.length_drop]
        omega
      have hcut : window.take n = (object.drop s.offset).take n := by
        rw [← hw, List.take_take, Nat.min_eq_left (by omega)]
      have hjoin : object.take s.offset ++ window.take n = object.take (s.offset + n) := by
        rw [hcut, List.take_add]
      obtain ⟨hcount, hempty⟩ := hs.more more
      have hle := hs.le
      have hnext : s.offset + n ≤ object.length := by omega
      refine ⟨hnext, ?_, ?_, ?_, ?_, fun hdone => of_decide_eq_true hdone⟩
      · rw [← hjoin]
        exact validUtf8_append hs.boundary hvalid
      · rw [List.flatten_append, hs.contents, ← hjoin]
        simp
      · rw [List.length_append, List.length_singleton]
        dsimp only
        rcases hstart with hn | hend
        · omega
        · rw [hempty hend] at hle
          simp only [List.length_nil] at hle
          omega
      · intro hmore
        have hfar : s.offset + n ≠ object.length := of_decide_eq_false hmore
        refine ⟨?_, fun hend => absurd hend hfar⟩
        rw [List.length_append, List.length_singleton]
        dsimp only
        rcases hstart with hn | hend
        · omega
        · omega

/-- A reader that follows the offsets has read what is in front of it, and reads no more often than there are bytes. -/
theorem run_reading (hobject : validUtf8 object = true) (href : validReference unsafeText reference = true)
    (hfield : ArtifactStore.field reference "size" = .int object.length) {is : List (ℕ × ℤ)} {s : Reader}
    (h : Run (Follow otherString (stringKeys reference) object) ⟨0, [], false⟩ is s) :
    Reading object s ∧ is.length = s.contents.length := by
  induction h with
  | nil =>
    refine ⟨⟨Nat.zero_le _, ?_, rfl, Nat.zero_le _, fun _ => ⟨Nat.le_refl _, fun hend => ?_⟩, nofun⟩, rfl⟩
    · rw [List.take_zero]
      exact valid_utf8All (List.forall_mem_nil _)
    · exact List.length_eq_zero_iff.1 hend.symm
  | @snoc is s i t _ hs ih =>
    obtain ⟨hreading, hcount⟩ := ih
    refine ⟨reading_follow hobject href hfield hreading hs, ?_⟩
    cases hs
    simp [hcount]

/-- **Ranges reassemble the object.** Every read in front of a character comes to the longest range that fits, and a
read within one is refused; a reader that follows the offsets stays in front of a character, has read what is in front
of it, is done after as many reads as there are bytes, and has the object then. -/
theorem range_reassembles (hobject : validUtf8 object = true) (href : validReference unsafeText reference = true)
    (hfield : ArtifactStore.field reference "size" = .int object.length) :
    (∀ (offset length : ℕ) (limit : ℤ), offset ≤ object.length → 1 ≤ length → length ≤ 4096 → 1 ≤ limit →
      limit ≤ ceiling →
      let window := (object.drop offset).take length
      let answer := encode otherString (stringKeys reference) offset length window limit
      (validUtf8 (object.take offset) = true →
        Answers otherString (stringKeys reference) offset object.length window limit answer) ∧
      (validUtf8 (object.take offset) = false →
        answer = .error .unsupportedContent ∧ ∃ rest, charactersToBinary window = .error [] rest)) ∧
    ∀ (is : List (ℕ × ℤ)) (s : Reader), Run (Follow otherString (stringKeys reference) object) ⟨0, [], false⟩ is s →
      s.offset ≤ object.length ∧ validUtf8 (object.take s.offset) = true ∧
        s.contents.flatten = object.take s.offset ∧ is.length ≤ max 1 object.length ∧
        (s.eof = true → s.contents.flatten = object) ∧
        (s.eof = false → s.offset = object.length → is = [] ∧ object = []) := by
  refine ⟨fun offset length limit hoffset hpos hmax hlow hhigh =>
    range_optimal hobject href hfield hoffset hpos hmax hlow hhigh, fun is s hrun => ?_⟩
  obtain ⟨hreading, hlength⟩ := run_reading hobject href hfield hrun
  have hle := hreading.le
  have hcount := hreading.count
  refine ⟨hle, hreading.boundary, hreading.contents, by omega, fun hdone => ?_, fun hmore hend => ?_⟩
  · rw [hreading.contents, hreading.done hdone, List.take_length]
  · obtain ⟨hfew, hempty⟩ := hreading.more hmore
    have hnil := hempty hend
    rw [hend, hnil] at hfew
    refine ⟨List.length_eq_zero_iff.1 ?_, hnil⟩
    simp only [List.length_nil] at hfew
    omega

/-- The ranges of a text of nine bytes. -/
theorem range_reassembles_small :
    let object := utf8 "nine byte"
    let reference := stringKeys ToolResultExcerpt.smallReference
    (∀ (offset length : ℕ) (limit : ℤ), offset ≤ object.length → 1 ≤ length → length ≤ 4096 → 1 ≤ limit →
      limit ≤ ceiling →
      let window := (object.drop offset).take length
      let answer := encode (fun _ => none) reference offset length window limit
      (validUtf8 (object.take offset) = true →
        Answers (fun _ => none) reference offset object.length window limit answer) ∧
      (validUtf8 (object.take offset) = false →
        answer = .error .unsupportedContent ∧ ∃ rest, charactersToBinary window = .error [] rest)) ∧
    ∀ (is : List (ℕ × ℤ)) (s : Reader), Run (Follow (fun _ => none) reference object) ⟨0, [], false⟩ is s →
      s.offset ≤ object.length ∧ validUtf8 (object.take s.offset) = true ∧
        s.contents.flatten = object.take s.offset ∧ is.length ≤ max 1 object.length ∧
        (s.eof = true → s.contents.flatten = object) ∧
        (s.eof = false → s.offset = object.length → is = [] ∧ object = []) := by
  have href : validReference (fun _ => false) ToolResultExcerpt.smallReference = true := by decide +kernel
  exact range_reassembles (validUtf8_name (by decide)) href (by decide)

end

end Loopex.Executor.ArtifactRange
