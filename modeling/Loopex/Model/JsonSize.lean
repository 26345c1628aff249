import Loopex.Protocol.FrameSize

/-!
# The size of a JSON value

`ContentReferences.json_size` walks a term and spends a budget of bytes; it builds no text.  `compact` is the
text it speaks of: compact JSON, short escapes, floats by their shortest numeral.

* `measure`, `jsonSize` — the walk
* `compact` — the compact JSON text of plain data, `height` — how deep it is nested, `Narrow` — no more than
  1,024 members or elements anywhere
* `measure_eq_some` — the walk spends the length of the text, as far as the depth and the numbers allow
* `jsonSize_eq_some` — the size is the length of the text
-/

namespace Loopex.Model

open Loopex.Erlang Loopex.Erlang.Term Loopex.Protocol.Frame Loopex.Store

/-- `@limit`. -/
def limit : ℕ := 16384

def maxDepth : ℕ := 12
def maxMembers : ℕ := 1024

/-! ## the walk -/

/-- `spend`. -/
def spend (remaining : ℤ) (bytes : ℕ) : Option ℤ := if (bytes : ℤ) ≤ remaining then some (remaining - bytes) else none

/-- The bytes a character takes in a string. -/
def characterSize (code : ℕ) : ℕ :=
  if code ∈ [34, 92, 8, 12, 10, 13, 9] then 2 else if code < 32 then 6 else (utf8Encode code).length

/-- `string_size`. -/
def stringSize (b : Bytes) (remaining : ℤ) : Option ℤ :=
  if remaining < 0 then none
  else match b with
    | [] => some remaining
    | x :: xs =>
      match _h : utf8Decode (x :: xs) with
      | some (code, rest) => stringSize rest (remaining - characterSize code)
      | none => none
termination_by b.length
decreasing_by exact utf8Decode_length _h

/-- `measure` of a binary. -/
def measureString (b : Bytes) (remaining : ℤ) : Option ℤ :=
  if (b.length : ℤ) + 2 ≤ remaining then stringSize b (remaining - 2) else none

/-- `measure` of an integer: one that needs more digits than there are bytes is not written out. -/
def measureInt (n remaining : ℤ) : Option ℤ :=
  let digits := remaining - if n < 0 then 1 else 0
  if 0 < digits then
    let bound : ℤ := 10 ^ digits.toNat
    if -bound < n ∧ n < bound then spend remaining (integerToString n).length else none
  else none

/-- The clause that stops the walk: the budget is overspent, or the value too deep. -/
def guarded (remaining : ℤ) (depth : ℕ) (walk : Option ℤ) : Option ℤ :=
  if remaining < 0 ∨ maxDepth < depth then none else walk

mutual
/-- The clauses of `measure` behind the first one. -/
def measureValue : Term → ℤ → ℕ → Option ℤ
  | .atom a, remaining, _ =>
    if a = utf8 "nil" then spend remaining 4
    else if a = utf8 "true" then spend remaining 4
    else if a = utf8 "false" then spend remaining 5
    else none
  | .binary b, remaining, _ => measureString b remaining
  | .int n, remaining, _ => measureInt n remaining
  | .float x, remaining, _ => spend remaining x.toBinary.length
  | .map kvs, remaining, depth =>
    if isStruct kvs then none
    else if kvs.length ≤ maxMembers then do
      let budget ← spend remaining (2 + (kvs.length - 1))
      measureMembers kvs budget depth
    else none
  | .list xs, remaining, depth => measureElements xs (remaining - 2) depth 0
  | _, _, _ => none
/-- The members of a map. -/
def measureMembers : List (Term × Term) → ℤ → ℕ → Option ℤ
  | [], budget, _ => some budget
  | (key, member) :: kvs, budget, depth =>
    match key with
    | .binary b => do
      let budget ← guarded budget (depth + 1) (measureString b budget)
      let budget ← spend budget 1
      let budget ← guarded budget (depth + 1) (measureValue member budget (depth + 1))
      measureMembers kvs budget depth
    | _ => none
/-- `measure_list`. -/
def measureElements : List Term → ℤ → ℕ → ℕ → Option ℤ
  | [], remaining, _, _ => spend remaining 0
  | head :: tail, remaining, depth, count =>
    if count < maxMembers then do
      let remaining ← spend remaining (if 0 < count then 1 else 0)
      let remaining ← guarded remaining (depth + 1) (measureValue head remaining (depth + 1))
      measureElements tail remaining depth (count + 1)
    else none
end

/-- `measure`. -/
def measure (value : Term) (remaining : ℤ) (depth : ℕ) : Option ℤ :=
  guarded remaining depth (measureValue value remaining depth)

/-- `json_size`. -/
def jsonSize (value : Term) : Option ℤ := (measure value limit 0).map fun remaining => limit - remaining

/-! ## the text -/

/-- A text between quotes. -/
def quoted (b : Bytes) : Option Bytes := if validUtf8 b then encodeString b else none

mutual
/-- The compact JSON text of plain data. -/
def compact : Term → Option Bytes
  | .atom a =>
    if a = utf8 "nil" then some (utf8 "null")
    else if a = utf8 "true" ∨ a = utf8 "false" then some a
    else none
  | .binary b => quoted b
  | .int n => some (integerToString n)
  | .float x => some x.toBinary
  | .map kvs => if isStruct kvs then none else (compactMembers kvs).map fun ms => 123 :: (List.intercalate [44] ms ++ [125])
  | .list xs => (compactElements xs).map array
  | _ => none
def compactMembers : List (Term × Term) → Option (List Bytes)
  | [] => some []
  | (key, member) :: kvs =>
    match key with
    | .binary b => do
      let name ← quoted b
      let text ← compact member
      let rest ← compactMembers kvs
      some ((name ++ 58 :: text) :: rest)
    | _ => none
def compactElements : List Term → Option (List Bytes)
  | [] => some []
  | x :: xs => do
    let text ← compact x
    let rest ← compactElements xs
    some (text :: rest)
end

mutual
/-- How deep the values in a value are nested. -/
def height : Term → ℕ
  | .list xs => heightElements xs
  | .map kvs => heightMembers kvs
  | _ => 0
def heightElements : List Term → ℕ
  | [] => 0
  | x :: xs => max (height x + 1) (heightElements xs)
def heightMembers : List (Term × Term) → ℕ
  | [] => 0
  | (_, v) :: kvs => max (height v + 1) (heightMembers kvs)
end

mutual
/-- No list and no map of a value has more than 1,024 elements or members. -/
def narrow : Term → Bool
  | .list xs => xs.length ≤ maxMembers && narrowElements xs
  | .map kvs => kvs.length ≤ maxMembers && narrowMembers kvs
  | _ => true
def narrowElements : List Term → Bool
  | [] => true
  | x :: xs => narrow x && narrowElements xs
def narrowMembers : List (Term × Term) → Bool
  | [] => true
  | (_, v) :: kvs => narrow v && narrowMembers kvs
end

/-! ## strings and integers -/

variable {remaining r : ℤ} {depth : ℕ} {b : Bytes} {t : Term}

theorem spend_eq_some {n : ℕ} : spend remaining n = some r ↔ r = remaining - n ∧ 0 ≤ r := by
  unfold spend
  split
  · next h => simp only [Option.some.injEq]; omega
  · next h => simp only [reduceCtorEq, false_iff]; omega

/-- A character is written in the bytes it is counted for. -/
theorem characterSize_eq (c : ℕ) : characterSize c = (escapeChar c).length := by
  have hsmall : ∀ c < 128, characterSize c = (escapeChar c).length := by decide +kernel
  by_cases hc : c < 128
  · exact hsmall c hc
  · have hlist : ∀ d ∈ [34, 92, 8, 12, 10, 13, 9], d < 128 := by decide
    rw [escapeChar, if_neg hc, characterSize, if_neg fun hm => hc (hlist c hm), if_neg (by omega)]

theorem stringSize_neg (h : remaining < 0) : stringSize b remaining = none := by
  rw [stringSize.eq_def, if_pos h]

theorem stringSize_cons {c : ℕ} (hc : Scalar c) (rest : Bytes) (h : 0 ≤ remaining) :
    stringSize (utf8Encode c ++ rest) remaining = stringSize rest (remaining - characterSize c) := by
  have hd := utf8Decode_encode hc rest
  obtain ⟨x, xs, hx⟩ := List.exists_cons_of_ne_nil (List.append_ne_nil_of_left_ne_nil (utf8Encode_ne_nil c) rest)
  rw [hx] at hd ⊢
  rw [stringSize, if_neg (by omega)]
  split
  · next code rest' heq =>
    rw [hd] at heq
    cases heq
    rfl
  · next heq =>
    rw [hd] at heq
    cases heq

theorem stringSize_eq_some {cs : List ℕ} (h : ∀ c ∈ cs, Scalar c) :
    stringSize (utf8All cs) remaining = some r ↔ r = remaining - (cs.flatMap escapeChar).length ∧ 0 ≤ r := by
  by_cases hneg : remaining < 0
  · rw [stringSize_neg hneg]
    simp only [reduceCtorEq, false_iff]
    omega
  induction cs generalizing remaining with
  | nil =>
    rw [utf8All_nil, stringSize, if_neg hneg]
    simp only [Option.some.injEq, List.flatMap_nil, List.length_nil]
    omega
  | cons c cs ih =>
    obtain ⟨hc, hcs⟩ := List.forall_mem_cons.1 h
    rw [utf8All_cons, stringSize_cons hc _ (by omega), List.flatMap_cons, List.length_append, characterSize_eq]
    by_cases hrest : remaining - (escapeChar c).length < 0
    · rw [stringSize_neg hrest]
      simp only [reduceCtorEq, false_iff]
      omega
    · rw [ih hcs hrest]
      omega

/-- Bytes that are no text have no size. -/
theorem valid_of_stringSize (h : stringSize b remaining = some r) : validUtf8 b = true := by
  induction b, remaining using stringSize.induct with
  | case1 b remaining hneg =>
    rw [stringSize_neg hneg] at h
    cases h
  | case2 remaining hneg => exact validUtf8_iff.2 ⟨[], by simp, rfl⟩
  | case3 remaining hneg x xs code rest hd ih =>
    rw [stringSize, if_neg hneg] at h
    split at h
    · next code' rest' hd' =>
      rw [hd] at hd'
      cases hd'
      obtain ⟨hc, heq⟩ := utf8Decode_eq_some hd
      rw [heq, validUtf8_cons hc]
      exact ih h
    · cases h
  | case4 remaining hneg x xs hd =>
    rw [stringSize, if_neg hneg] at h
    split at h
    · next hd' => rw [hd] at hd'; cases hd'
    · cases h

/-- **A string is measured as it is written.** -/
theorem measureString_eq_some : measureString b remaining = some r ↔
    ∃ text, quoted b = some text ∧ r = remaining - text.length ∧ 0 ≤ r := by
  unfold quoted
  cases hv : validUtf8 b with
  | false =>
    refine iff_of_false (fun h => ?_) (by simp)
    unfold measureString at h
    split at h
    · rw [valid_of_stringSize h] at hv
      cases hv
    · cases h
  | true =>
    obtain ⟨cs, hcs, rfl⟩ := validUtf8_iff.1 hv
    obtain ⟨text, htext, -, hlen⟩ := encodeString_length hv
    have hle := length_le_escaped hv
    have he := escaped_all hcs
    simp only [if_true, htext, Option.some.injEq, exists_eq_left', measureString]
    split
    · rw [stringSize_eq_some hcs]
      omega
    · simp only [reduceCtorEq, false_iff]
      omega

/-- The digits of a number. -/
theorem decimal_length_le {n k : ℕ} (hk : 0 < k) : (decimal n).length ≤ k ↔ n < 10 ^ k := by
  unfold decimal
  split
  · next h =>
    subst h
    exact iff_of_true hk (by positivity)
  · rw [List.length_reverse]
    exact Nat.digits_length_le_iff (by decide) n

theorem decimal_pos (n : ℕ) : 0 < (decimal n).length := by
  unfold decimal
  split
  · exact Nat.one_pos
  · next h => simpa [List.length_pos_iff, Nat.digits_ne_nil_iff_ne_zero] using h

theorem integerToString_length (n : ℤ) :
    (integerToString n).length = (decimal n.natAbs).length + if n < 0 then 1 else 0 := by
  unfold integerToString
  split <;> simp [digits]

/-- **An integer is measured as it is written.** -/
theorem measureInt_eq_some {n : ℤ} :
    measureInt n remaining = some r ↔ r = remaining - (integerToString n).length ∧ 0 ≤ r := by
  have hlen := integerToString_length n
  have hpos := decimal_pos n.natAbs
  have hsign : ((if n < 0 then 1 else 0 : ℕ) : ℤ) = if n < 0 then 1 else 0 := by split <;> rfl
  generalize hs : (if n < 0 then 1 else 0 : ℤ) = sign at *
  unfold measureInt
  simp only [hs]
  by_cases hdigits : 0 < remaining - sign
  · obtain ⟨k, hk⟩ := Int.eq_ofNat_of_zero_le hdigits.le
    have hbound : (-(10 : ℤ) ^ k < n ∧ n < (10 : ℤ) ^ k) ↔ (decimal n.natAbs).length ≤ k := by
      rw [decimal_length_le (by omega), ← Int.ofNat_lt]
      push_cast
      exact abs_lt.symm
    rw [if_pos hdigits, hk, Int.toNat_natCast]
    by_cases h : -(10 : ℤ) ^ k < n ∧ n < (10 : ℤ) ^ k
    · rw [if_pos h, spend_eq_some]
    · rw [if_neg h]
      have hmore := mt hbound.2 h
      simp only [reduceCtorEq, false_iff]
      omega
  · rw [if_neg hdigits]
    simp only [reduceCtorEq, false_iff]
    omega

/-! ## values -/

theorem guarded_eq_some {walk : Option ℤ} :
    guarded remaining depth walk = some r ↔ 0 ≤ remaining ∧ depth ≤ maxDepth ∧ walk = some r := by
  unfold guarded
  split
  · simp only [reduceCtorEq, false_iff]
    omega
  · refine ⟨fun h => ⟨by omega, by omega, h⟩, fun h => h.2.2⟩

/-- The walk from a value spends the length of its text, if the value is not too deep and not too wide. -/
def Measured (t : Term) : Prop := ∀ remaining r depth, measure t remaining depth = some r ↔
  (∃ text, compact t = some text ∧ r = remaining - text.length) ∧ 0 ≤ r ∧ height t + depth ≤ maxDepth ∧
    narrow t = true

theorem measured_string (b : Bytes) : Measured (.binary b) := by
  intro remaining r depth
  rw [measure, guarded_eq_some, measureValue, measureString_eq_some, compact]
  simp only [height, narrow, and_true, Nat.zero_add]
  refine ⟨?_, ?_⟩
  · rintro ⟨hpos, hdepth, text, htext, hr, hnn⟩
    exact ⟨⟨text, htext, hr⟩, hnn, hdepth⟩
  · rintro ⟨⟨text, htext, hr⟩, hnn, hdepth⟩
    exact ⟨by omega, hdepth, text, htext, hr, hnn⟩

/-- A value that is written without a look at its parts. -/
theorem measured_of_spend {text : Bytes} (h : ∀ remaining r depth, measureValue t remaining depth = some r ↔
    r = remaining - text.length ∧ 0 ≤ r) (hc : compact t = some text) (hh : height t = 0) (hn : narrow t = true) :
    Measured t := by
  intro remaining r depth
  rw [measure, guarded_eq_some, h, hc, hh, hn]
  simp only [Option.some.injEq, exists_eq_left', and_true, Nat.zero_add]
  refine ⟨?_, ?_⟩
  · rintro ⟨-, hdepth, hr, hnn⟩
    exact ⟨hr, hnn, hdepth⟩
  · rintro ⟨hr, hnn, hdepth⟩
    exact ⟨by omega, hdepth, hr, hnn⟩

/-- A value that is no JSON. -/
theorem measured_of_none (h : ∀ remaining depth, measureValue t remaining depth = none) (hc : compact t = none) :
    Measured t := by
  intro remaining r depth
  rw [measure, guarded_eq_some, h, hc]
  simp

theorem measured_atom (a : Bytes) : Measured (.atom a) := by
  by_cases hnil : a = utf8 "nil"
  · have hc : compact (.atom a) = some (utf8 "null") := by rw [compact, if_pos hnil]
    refine measured_of_spend (fun remaining r depth => ?_) hc rfl rfl
    rw [measureValue, if_pos hnil, spend_eq_some]
    rfl
  by_cases htrue : a = utf8 "true"
  · have hc : compact (.atom a) = some (utf8 "true") := by rw [compact, if_neg hnil, if_pos (.inl htrue), htrue]
    refine measured_of_spend (fun remaining r depth => ?_) hc rfl rfl
    rw [measureValue, if_neg hnil, if_pos htrue, spend_eq_some]
    rfl
  by_cases hfalse : a = utf8 "false"
  · have hc : compact (.atom a) = some (utf8 "false") := by rw [compact, if_neg hnil, if_pos (.inr hfalse), hfalse]
    refine measured_of_spend (fun remaining r depth => ?_) hc rfl rfl
    rw [measureValue, if_neg hnil, if_neg htrue, if_pos hfalse, spend_eq_some]
    rfl
  · exact measured_of_none (fun _ _ => by rw [measureValue, if_neg hnil, if_neg htrue, if_neg hfalse])
      (by rw [compact, if_neg hnil, if_neg (by tauto)])

/-! ## lists and maps -/

/-- The length of texts with commas between them. -/
theorem intercalate_length (ts : List Bytes) :
    (List.intercalate [44] ts).length = (ts.map List.length).sum + (ts.length - 1) := by
  induction ts with
  | nil => rfl
  | cons t ts ih =>
    cases ts with
    | nil => simp [List.intercalate]
    | cons u ts =>
      rw [List.intercalate_cons_cons]
      simp only [List.length_append, ih, List.map_cons, List.sum_cons, List.length_cons, List.length_nil]
      omega

/-- What the commas in front of some elements take, `count` elements in. -/
def commas (count n : ℕ) : ℕ := if count = 0 then n - 1 else n

theorem commas_succ (count n : ℕ) : commas count (n + 1) = (if 0 < count then 1 else 0) + commas (count + 1) n := by
  unfold commas
  split <;> split <;> split <;> omega

theorem compactElements_length {xs : List Term} {ts : List Bytes} (h : compactElements xs = some ts) :
    ts.length = xs.length := by
  induction xs generalizing ts with
  | nil => cases h; rfl
  | cons x xs ih =>
    simp only [compactElements, Option.bind_eq_bind, Option.bind_eq_some_iff, Option.some.injEq] at h
    obtain ⟨text, -, rest, hrest, rfl⟩ := h
    rw [List.length_cons, List.length_cons, ih hrest]

/-- The walk along a list, element by element. -/
theorem measureElements_eq_some {xs : List Term} (h : ∀ x ∈ xs, Measured x) {count : ℕ} (hcount : count ≤ maxMembers)
    (hdepth : depth ≤ maxDepth) : measureElements xs remaining depth count = some r ↔
      (∃ ts, compactElements xs = some ts ∧ r = remaining - (ts.map List.length).sum - commas count xs.length) ∧
      0 ≤ r ∧ heightElements xs + depth ≤ maxDepth ∧ count + xs.length ≤ maxMembers ∧ narrowElements xs = true := by
  induction xs generalizing remaining count with
  | nil =>
    have hcommas : commas count 0 = 0 := by unfold commas; split <;> rfl
    rw [measureElements, spend_eq_some]
    simp only [compactElements, Option.some.injEq, exists_eq_left', List.map_nil, List.sum_nil, hcommas,
      List.length_nil, heightElements, narrowElements, and_true]
    omega
  | cons x xs ih =>
    obtain ⟨hx, hxs⟩ := List.forall_mem_cons.1 h
    have hwalk : measureElements (x :: xs) remaining depth count = some r ↔ count < maxMembers ∧
        ∃ r1, spend remaining (if 0 < count then 1 else 0) = some r1 ∧
          ∃ r2, measure x r1 (depth + 1) = some r2 ∧ measureElements xs r2 depth (count + 1) = some r := by
      rw [measureElements]
      split
      · next hc =>
        simp only [Option.bind_eq_bind, Option.bind_eq_some_iff, hc, true_and]
        rfl
      · next hc => simp [hc]
    rw [hwalk, compactElements, heightElements, narrowElements, List.length_cons, commas_succ]
    simp only [spend_eq_some, hx _ _ _, Option.bind_eq_bind, Option.bind_eq_some_iff, Option.some.injEq,
      Bool.and_eq_true]
    refine ⟨?_, ?_⟩
    · rintro ⟨hc, r1, ⟨rfl, h1⟩, r2, ⟨⟨text, htext, rfl⟩, h2, hheight, hnarrow⟩, hrest⟩
      obtain ⟨⟨ts, hts, rfl⟩, hr, hh, hlen, hn⟩ := (ih hxs (by omega)).1 hrest
      refine ⟨⟨text :: ts, ⟨text, htext, ts, hts, rfl⟩, ?_⟩, hr, by omega, by omega, hnarrow, hn⟩
      rw [List.map_cons, List.sum_cons]
      omega
    · rintro ⟨⟨_, ⟨text, htext, ts, hts, rfl⟩, rfl⟩, hr, hh, hlen, hnarrow, hn⟩
      rw [List.map_cons, List.sum_cons] at hr ⊢
      have hone : (if 0 < count then 1 else 0) ≤ 1 := by split <;> omega
      refine ⟨by omega, _, ⟨rfl, by omega⟩, _, ⟨⟨text, htext, rfl⟩, by omega, by omega, hnarrow⟩, ?_⟩
      refine (ih hxs (by omega)).2 ⟨⟨ts, hts, ?_⟩, hr, by omega, by omega, hn⟩
      rw [List.map_cons, List.sum_cons]
      push_cast
      ring

theorem compactMembers_length {kvs : List (Term × Term)} {ms : List Bytes} (h : compactMembers kvs = some ms) :
    ms.length = kvs.length := by
  induction kvs generalizing ms with
  | nil => cases h; rfl
  | cons e kvs ih =>
    obtain ⟨key, member⟩ := e
    cases key with
    | binary b =>
      simp only [compactMembers, Option.bind_eq_bind, Option.bind_eq_some_iff, Option.some.injEq] at h
      obtain ⟨name, -, text, -, rest, hrest, rfl⟩ := h
      rw [List.length_cons, List.length_cons, ih hrest]
    | _ => cases h

/-- The walk along a map, member by member. -/
theorem measureMembers_eq_some {kvs : List (Term × Term)} (h : ∀ e ∈ kvs, Measured e.2) (hdepth : depth ≤ maxDepth)
    (hpos : 0 ≤ remaining) : measureMembers kvs remaining depth = some r ↔
      (∃ ms, compactMembers kvs = some ms ∧ r = remaining - (ms.map List.length).sum) ∧
      0 ≤ r ∧ heightMembers kvs + depth ≤ maxDepth ∧ narrowMembers kvs = true := by
  induction kvs generalizing remaining with
  | nil =>
    simp only [measureMembers, compactMembers, Option.some.injEq, exists_eq_left', List.map_nil, List.sum_nil,
      heightMembers, narrowMembers, and_true]
    omega
  | cons e kvs ih =>
    obtain ⟨key, member⟩ := e
    obtain ⟨hmember, hkvs⟩ := List.forall_mem_cons.1 h
    cases key with
    | binary b =>
      have hwalk : measureMembers ((.binary b, member) :: kvs) remaining depth = some r ↔
          ∃ r1, measure (.binary b) remaining (depth + 1) = some r1 ∧ ∃ r2, spend r1 1 = some r2 ∧
            ∃ r3, measure member r2 (depth + 1) = some r3 ∧ measureMembers kvs r3 depth = some r := by
        simp only [measureMembers, Option.bind_eq_bind, Option.bind_eq_some_iff, measure, measureValue]
      have hmember : Measured member := hmember
      rw [hwalk, compactMembers, heightMembers, narrowMembers]
      simp only [spend_eq_some, measured_string b _ _ _, hmember _ _ _, compact, height, narrow, and_true, Nat.zero_add,
        Option.bind_eq_bind, Option.bind_eq_some_iff, Option.some.injEq, Bool.and_eq_true]
      refine ⟨?_, ?_⟩
      · rintro ⟨r1, ⟨⟨name, hname, rfl⟩, h1, hkey⟩, r2, ⟨rfl, h2⟩, r3, ⟨⟨text, htext, rfl⟩, h3, hheight, hnarrow⟩, hrest⟩
        obtain ⟨⟨ms, hms, rfl⟩, hr, hh, hn⟩ := (ih hkvs h3).1 hrest
        refine ⟨⟨(name ++ 58 :: text) :: ms, ⟨name, hname, text, htext, ms, hms, rfl⟩, ?_⟩, hr, by omega, hnarrow, hn⟩
        rw [List.map_cons, List.sum_cons, List.length_append, List.length_cons]
        push_cast
        ring
      · rintro ⟨⟨_, ⟨name, hname, text, htext, ms, hms, rfl⟩, rfl⟩, hr, hh, hnarrow, hn⟩
        have hsum : ((((name ++ 58 :: text) :: ms).map List.length).sum : ℤ) =
            name.length + 1 + text.length + (ms.map List.length).sum := by
          rw [List.map_cons, List.sum_cons, List.length_append, List.length_cons]
          push_cast
          ring
        refine ⟨_, ⟨⟨name, hname, rfl⟩, by omega, by omega⟩, _, ⟨rfl, by omega⟩, _,
          ⟨⟨text, htext, rfl⟩, by omega, by omega, hnarrow⟩, ?_⟩
        refine (ih hkvs (by omega)).2 ⟨⟨ms, hms, ?_⟩, hr, by omega, hn⟩
        rw [hsum]
        push_cast
        ring
    | _ => simp [measureMembers, compactMembers]

theorem measured_list {xs : List Term} (h : ∀ x ∈ xs, Measured x) : Measured (.list xs) := by
  intro remaining r depth
  rw [measure, guarded_eq_some, measureValue, compact, height, narrow]
  have hlength : ∀ ts, compactElements xs = some ts → ((array ts).length : ℤ) =
      2 + (ts.map List.length).sum + commas 0 xs.length := by
    intro ts hts
    have hlen := compactElements_length hts
    rw [array, List.length_cons, List.length_append, intercalate_length, hlen, commas, if_pos rfl]
    push_cast
    simp only [List.length_cons, List.length_nil]
    omega
  simp only [Bool.and_eq_true, decide_eq_true_eq, Option.map_eq_some_iff]
  refine ⟨?_, ?_⟩
  · rintro ⟨hpos, hdepth, hwalk⟩
    obtain ⟨⟨ts, hts, rfl⟩, hr, hh, hlen, hn⟩ := (measureElements_eq_some h (Nat.zero_le _) hdepth).1 hwalk
    refine ⟨⟨array ts, ⟨ts, hts, rfl⟩, ?_⟩, hr, hh, by omega, hn⟩
    rw [hlength ts hts]
    ring
  · rintro ⟨⟨_, ⟨ts, hts, rfl⟩, rfl⟩, hr, hh, hlen, hn⟩
    have htext := hlength ts hts
    refine ⟨by omega, by omega, (measureElements_eq_some h (Nat.zero_le _) (by omega)).2 ⟨⟨ts, hts, ?_⟩, hr, hh, by omega, hn⟩⟩
    rw [htext]
    ring

theorem measured_map {kvs : List (Term × Term)} (h : ∀ e ∈ kvs, Measured e.2) : Measured (.map kvs) := by
  intro remaining r depth
  rw [measure, guarded_eq_some, measureValue, compact, height, narrow]
  split
  · simp
  have hlength : ∀ ms, compactMembers kvs = some ms → ((123 :: (List.intercalate [44] ms ++ [125]) : Bytes).length : ℤ) =
      (2 + (kvs.length - 1) : ℕ) + (ms.map List.length).sum := by
    intro ms hms
    have hlen := compactMembers_length hms
    rw [List.length_cons, List.length_append, intercalate_length, hlen]
    simp only [List.length_cons, List.length_nil]
    omega
  simp only [Bool.and_eq_true, decide_eq_true_eq, Option.map_eq_some_iff]
  refine ⟨?_, ?_⟩
  · rintro ⟨hpos, hdepth, hwalk⟩
    split at hwalk <;> [skip; cases hwalk]
    next hwide =>
    simp only [Option.bind_eq_bind, Option.bind_eq_some_iff, spend_eq_some] at hwalk
    obtain ⟨r1, ⟨rfl, h1⟩, hwalk⟩ := hwalk
    obtain ⟨⟨ms, hms, rfl⟩, hr, hh, hn⟩ := (measureMembers_eq_some h hdepth h1).1 hwalk
    refine ⟨⟨_, ⟨ms, hms, rfl⟩, ?_⟩, hr, hh, hwide, hn⟩
    rw [hlength ms hms]
    ring
  · rintro ⟨⟨_, ⟨ms, hms, rfl⟩, rfl⟩, hr, hh, hwide, hn⟩
    have htext := hlength ms hms
    refine ⟨by omega, by omega, ?_⟩
    rw [if_pos hwide]
    simp only [Option.bind_eq_bind, Option.bind_eq_some_iff, spend_eq_some]
    refine ⟨_, ⟨rfl, by omega⟩, (measureMembers_eq_some h (by omega) (by omega)).2 ⟨⟨ms, hms, ?_⟩, hr, hh, hn⟩⟩
    rw [htext]
    ring

/-- **Every value is measured as it is written.** -/
theorem measured (t : Term) : Measured t := by
  induction t using Term.ind with
  | atom a => exact measured_atom a
  | int n =>
    exact measured_of_spend (fun _ _ _ => by rw [measureValue, measureInt_eq_some]) rfl rfl rfl
  | float x =>
    exact measured_of_spend (fun _ _ _ => by rw [measureValue, spend_eq_some]) rfl rfl rfl
  | binary b => exact measured_string b
  | list xs ih => exact measured_list ih
  | map kvs ih => exact measured_map fun e he => (ih e he).2
  | _ => exact measured_of_none (fun _ _ => rfl) rfl

/-- **The size of a value is the length of its text**, and it is refused if the length, the depth or a number of
members or elements exceeds its limit, or if it is no plain data. -/
theorem jsonSize_eq_some {n : ℤ} : jsonSize t = some n ↔
    (∃ text, compact t = some text ∧ n = text.length) ∧ n ≤ limit ∧ height t ≤ maxDepth ∧ narrow t = true := by
  simp only [jsonSize, Option.map_eq_some_iff, measured t _ _ _, Nat.add_zero]
  refine ⟨?_, ?_⟩
  · rintro ⟨_, ⟨⟨text, htext, rfl⟩, hr, hh, hn⟩, rfl⟩
    exact ⟨⟨text, htext, by omega⟩, by omega, hh, hn⟩
  · rintro ⟨⟨text, htext, rfl⟩, hlimit, hh, hn⟩
    exact ⟨_, ⟨⟨text, htext, rfl⟩, by omega, hh, hn⟩, by omega⟩

end Loopex.Model
