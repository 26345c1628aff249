import Loopex.Erlang.Check
import Loopex.Protocol.FrameSize

/-!
# The summary of a compacted range

`CompactionSummary.validate` and `validate_prior`: the closed shape of a summary with its carry-forward, and of a
checkpoint that an earlier compaction left.

* `json_eq_ok` — the canonical text of one value
* `validatePrior_written` — an accepted checkpoint has a text, of bounded length
-/

namespace Loopex.Runtime.CompactionSummary

open Loopex.Erlang Loopex.Erlang.Term Loopex.Protocol Loopex.Protocol.Frame Loopex.Store

/-- The two refusals. -/
def maintenanceSummaryInvalid : Bytes := utf8 "maintenance_summary_invalid"
def contextProjectionInvalid : Bytes := utf8 "context_projection_invalid"

section
variable (otherString : Term → Option Bytes)

/-- `json`: the value between the name and the brace of an encoded map. -/
def json (value : Term) : Check Bytes Bytes :=
  match Frame.encode otherString (mapOf [(str "v", value)]) with
  | .ok bytes => .ok ((bytes.drop 5).take (bytes.length - 7))
  | .outputRecordTooLarge => .raise .badMatch
  | .raised => .raise .functionClause

end

def isList : Term → Bool
  | .list _ => true
  | .improper _ _ => true
  | _ => false

/-- The paths of `valid_carry?`; an improper list has no length. -/
def validPaths : Term → Check Bytes Bool
  | .list paths => .ok (paths.length ≤ 32 && paths.all fun path => match path with
      | .binary b => b.length ≤ 1024 && validUtf8 b
      | _ => false)
  | .improper _ _ => .raise .badArgument
  | _ => .ok false

/-- `valid_carry?`. -/
def validCarry : Term → Check Bytes Bool
  | .map carry =>
    match lookup (str "files_read") carry, lookup (str "files_changed") carry with
    | some read, some changed =>
      if carry.length = 2 ∧ isList read ∧ isList changed then do
        if ← validPaths read then validPaths changed else pure false
      else .ok false
    | _, _ => .ok false
  | _ => .ok false

/-- `valid_digest?`: 64 lowercase hexadecimal digits. -/
def validDigest : Term → Bool := isDigest

section
variable (otherString : Term → Option Bytes)

/-- The body of `validate`. -/
def validateOutput (summary carry output : Term) : Check Bytes Unit :=
  match summary with
  | .binary b => do
    Check.require (b.length ≤ 4094 && validUtf8 b) maintenanceSummaryInvalid
    Check.require (← validCarry carry) maintenanceSummaryInvalid
    Check.require ((← json otherString summary).length ≤ 4096) maintenanceSummaryInvalid
    Check.require ((← json otherString carry).length ≤ 2048) maintenanceSummaryInvalid
    Check.require ((← json otherString output).length ≤ 6144) maintenanceSummaryInvalid
  | _ => .error maintenanceSummaryInvalid

/-- `validate`. -/
def validate : Term → Check Bytes Unit
  | .map output =>
    match lookup (str "summary") output, lookup (str "carry_forward") output with
    | some summary, some carry =>
      if output.length = 2 then validateOutput otherString summary carry (.map output)
      else .error maintenanceSummaryInvalid
    | _, _ => .error maintenanceSummaryInvalid
  | _ => .error maintenanceSummaryInvalid

/-- `validate_prior`. -/
def validatePrior : Term → Check Bytes Unit
  | .map prior =>
    match lookup (str "covered_range_digest") prior, lookup (str "summary") prior,
      lookup (str "carry_forward") prior, lookup (str "source_excerpted") prior with
    | some digest, some summary, some carry, some excerpted => do
      Check.require (prior.length = 4 && validDigest digest) contextProjectionInvalid
      Check.require (excerpted = sym "true" || excerpted = sym "false") contextProjectionInvalid
      (validate otherString (mapOf [(str "summary", summary), (str "carry_forward", carry)])).orError
        contextProjectionInvalid
    | _, _, _, _ => .error contextProjectionInvalid
  | _ => .error contextProjectionInvalid

end

variable {otherString : Term → Option Bytes}

/-! ## texts -/

theorem encodeString_v : encodeString (utf8 "v") = some [34, 118, 34] := by
  have hv : utf8 "v" = utf8All [118] := by decide
  rw [hv, encodeString, escape_all (by decide)]
  decide

theorem encode_v (value : Term) : encodeValue otherString (mapOf [(str "v", value)]) =
    (encodeValue otherString value).map fun text => [123, 34, 118, 34, 58] ++ (text ++ [125]) := by
  have hmap : mapOf [(str "v", value)] = .map [(.binary (utf8 "v"), value)] := rfl
  rw [hmap, encodeValue, if_neg (by simp [sym]), encodeMembers, keyString, encodeMembers]
  cases encodeValue otherString value with
  | none => simp
  | some text => simp [encodeString_v, object, List.intercalate]

/-- The text of a value in its record. -/
theorem cut_v (text : Bytes) :
    (([123, 34, 118, 34, 58] ++ (text ++ [125]) ++ [10] : Bytes).drop 5).take (text.length + 7 - 7) = text := by
  simp

/-- **The canonical text of a value.**  It is refused if the record around it is too large. -/
theorem json_eq_ok {value : Term} {text : Bytes} : json otherString value = .ok text ↔
    encodeValue otherString value = some text ∧ text.length + 7 ≤ outputRecordBytes := by
  have hencode : Frame.encode otherString (mapOf [(str "v", value)]) =
      (encodeValue otherString (mapOf [(str "v", value)])).elim .raised fun text =>
        if (text ++ [10]).length > outputRecordBytes then .outputRecordTooLarge else .ok (text ++ [10]) := by
    simp only [mapOf, Frame.encode]
    rcases encodeValue otherString _ with _ | text <;> rfl
  rw [json, hencode, encode_v]
  rcases encodeValue otherString value with _ | t
  · simp
  · have hlen : ([123, 34, 118, 34, 58] ++ (t ++ [125]) ++ [10] : Bytes).length = t.length + 7 := by simp
    simp only [Option.map_some, Option.elim_some, hlen, Option.some.injEq]
    split
    next bytes h =>
      split at h <;> [cases h; skip]
      next hsmall =>
      obtain rfl := Encoding.ok.inj h
      rw [hlen, cut_v, Check.ok.injEq]
      exact ⟨fun heq => ⟨heq, by rw [← heq]; omega⟩, fun heq => heq.1⟩
    next h =>
      split at h <;> [skip; cases h]
      simp only [reduceCtorEq, false_iff, not_and]
      rintro rfl
      omega
    next h => split at h <;> cases h

theorem json_of_writtenIn {n : ℕ} {value : Term} (h : WrittenIn otherString n value) (hn : n + 7 ≤ outputRecordBytes) :
    ∃ text, encodeValue otherString value = some text ∧ json otherString value = .ok text := by
  obtain ⟨text, htext, hlen⟩ := h
  exact ⟨text, htext, json_eq_ok.2 ⟨htext, by omega⟩⟩

/-! ## accepted checkpoints -/

/-- A map with as many entries as names that are found holds those entries only. -/
theorem mem_of_lookups {kvs : List (Term × Term)} {names : List Bytes} (hnodup : names.Nodup)
    (hlen : kvs.length = names.length) (h : ∀ name ∈ names, ∃ v, lookup (.binary name) kvs = some v) :
    ∀ e ∈ kvs, ∃ name ∈ names, e.1 = .binary name ∧ lookup (.binary name) kvs = some e.2 := by
  let entry (name : Bytes) : Term × Term := (.binary name, (lookup (.binary name) kvs).getD nil)
  have hinj : Function.Injective entry := fun a b hab => Term.binary.inj (congrArg Prod.fst hab)
  have hsub : names.map entry ⊆ kvs := by
    intro e he
    obtain ⟨name, hname, rfl⟩ := List.mem_map.1 he
    obtain ⟨v, hv⟩ := h name hname
    simpa [entry, hv] using lookup_eq_some hv
  have hperm : (names.map entry).Perm kvs :=
    (List.subperm_of_subset (hnodup.map hinj) hsub).perm_of_length_le (by simp [hlen])
  intro e he
  obtain ⟨name, hname, rfl⟩ := List.mem_map.1 (hperm.mem_iff.2 he)
  obtain ⟨v, hv⟩ := h name hname
  exact ⟨name, hname, rfl, by simp [entry, hv]⟩

theorem validateOutput_eq_ok {summary carry output : Term} {u : Unit}
    (h : validateOutput otherString summary carry output = .ok u) :
    WrittenIn otherString 4096 summary ∧ WrittenIn otherString 2048 carry := by
  unfold validateOutput at h
  split at h <;> [skip; cases h]
  simp only [Check.bind_eq_ok, Check.require_eq_ok, decide_eq_true_eq] at h
  obtain ⟨-, -, -, -, -, -, s, hs, -, hslen, c, hc, -, hclen, -⟩ := h
  exact ⟨⟨s, (json_eq_ok.1 hs).1, hslen⟩, c, (json_eq_ok.1 hc).1, hclen⟩

theorem writtenIn_digest {digest : Term} (h : validDigest digest = true) : WrittenIn otherString 386 digest := by
  unfold validDigest isDigest at h
  split at h <;> [skip; cases h]
  next b =>
  simp only [isHex, Bool.and_eq_true, decide_eq_true_eq, List.all_eq_true, Bool.or_eq_true] at h
  obtain ⟨hlen, hall⟩ := h
  refine (writtenIn_binary (validUtf8_ascii fun x hx => ?_)).mono (by omega)
  have hx := hall x hx
  omega

theorem writtenIn_flag {flag : Term} (h : flag = sym "true" ∨ flag = sym "false") : WrittenIn otherString 5 flag := by
  rcases h with rfl | rfl
  · exact ⟨utf8 "true", by simp [sym, encodeValue], by decide⟩
  · exact ⟨utf8 "false", by simp [sym, encodeValue], by decide⟩

/-- **An accepted checkpoint has a text**, of bounded length. -/
theorem validatePrior_written {prior : Term} (h : validatePrior otherString prior = .ok ()) :
    WrittenIn otherString 18000 prior := by
  unfold validatePrior at h
  split at h <;> [skip; cases h]
  next kvs =>
  split at h <;> [skip; cases h]
  next digest summary carry excerpted hdigest hsummary hcarry hexcerpted =>
  simp only [Check.bind_eq_ok, Check.require_eq_ok, Check.orError_eq_ok, Bool.and_eq_true, Bool.or_eq_true,
    decide_eq_true_eq] at h
  obtain ⟨-, ⟨hlen, hvalid⟩, -, hflag, hvalidate⟩ := h
  have hmap : mapOf [(str "summary", summary), (str "carry_forward", carry)] =
      .map [(str "summary", summary), (str "carry_forward", carry)] := rfl
  have hbody : validateOutput otherString summary carry
      (.map [(str "summary", summary), (str "carry_forward", carry)]) = .ok () := by
    simpa [hmap, validate, lookup] using hvalidate
  obtain ⟨hs, hc⟩ := validateOutput_eq_ok hbody
  have hkeys := @mem_of_lookups kvs
    [utf8 "covered_range_digest", utf8 "summary", utf8 "carry_forward", utf8 "source_excerpted"] (by decide)
    hlen (by simpa [str] using ⟨⟨_, hdigest⟩, ⟨_, hsummary⟩, ⟨_, hcarry⟩, ⟨_, hexcerpted⟩⟩)
  refine (writtenIn_map (n := 4096) fun e he => ?_).mono (by omega)
  obtain ⟨name, hname, hkey, hvalue⟩ := hkeys e he
  refine ⟨name, hkey, ?_⟩
  simp only [List.mem_cons, List.not_mem_nil, or_false] at hname
  rcases hname with rfl | rfl | rfl | rfl
  · rw [← str, hdigest] at hvalue
    obtain rfl := Option.some.inj hvalue
    exact ⟨validUtf8_name (by decide), by decide, (writtenIn_digest hvalid).mono (by omega)⟩
  · rw [← str, hsummary] at hvalue
    obtain rfl := Option.some.inj hvalue
    exact ⟨validUtf8_name (by decide), by decide, hs⟩
  · rw [← str, hcarry] at hvalue
    obtain rfl := Option.some.inj hvalue
    exact ⟨validUtf8_name (by decide), by decide, hc.mono (by omega)⟩
  · rw [← str, hexcerpted] at hvalue
    obtain rfl := Option.some.inj hvalue
    exact ⟨validUtf8_name (by decide), by decide, (writtenIn_flag hflag).mono (by omega)⟩

end Loopex.Runtime.CompactionSummary
