import Loopex.Runtime.CompactionSource

/-!
# What a compaction source streams

The accumulator after some chunks is a function of their concatenation, and the chunks of a list of canonical
messages concatenate to the frame encoding of that list.

* `Acc.of` — the accumulator of a stream
* `Emits m text out` — a computation appends a text to the stream
* `emits_value` — the encoder streams what the frame encoder writes
* `encode_streams` — complete candidates and excerpts, against the frame encoding
-/

namespace Loopex.Runtime.CompactionSource

open Loopex.Erlang Loopex.Erlang.Term Loopex.Protocol Loopex.Protocol.Frame Loopex.Runtime.CompactionSummary

/-- A check that always answers ok. -/
def okay : ℕ → Option Bytes := fun _ => none

/-- The last `n` bytes. -/
@[irreducible] def lastBytes (n : ℕ) (b : Bytes) : Bytes := b.drop (b.length - n)

/-- The accumulator of a stream. -/
def Acc.of (b : Bytes) : Acc where
  count := b.length
  hash := b
  complete := if b.length ≤ cap then some b else none
  prefixBytes := b.take endCap
  suffixBytes := lastBytes endCap b

@[simp] theorem Acc.of_count (b : Bytes) : (Acc.of b).count = b.length := rfl
@[simp] theorem Acc.of_hash (b : Bytes) : (Acc.of b).hash = b := rfl
theorem Acc.of_complete (b : Bytes) : (Acc.of b).complete = if b.length ≤ cap then some b else none := rfl
@[simp] theorem Acc.of_prefixBytes (b : Bytes) : (Acc.of b).prefixBytes = b.take endCap := rfl
@[simp] theorem Acc.of_suffixBytes (b : Bytes) : (Acc.of b).suffixBytes = lastBytes endCap b := by
  simp only [Acc.of]

theorem initialScan_eq : initialScan = Acc.of [] := by
  rw [Acc.of, lastBytes]
  rfl

theorem Acc.of_eta (b : Bytes) : Acc.of b =
    ⟨b.length, b, (Acc.of b).complete, (Acc.of b).prefixBytes, (Acc.of b).suffixBytes⟩ := rfl

/-! ## computations -/

theorem lift_ok_bind {α β : Type} (a : α) (k : α → Scan β) (n : ℕ) :
    ((Check.ok a : Check Bytes α) >>= k : Scan β) n = k a n := rfl

/-! ## texts that are emitted -/

/-- From the accumulator of a stream, a computation goes to that of the stream with a text behind it, unless that is
too long to count. -/
def Emits {α : Type} (m : Acc → Scan α) (text : Bytes) (out : Acc → α) : Prop :=
  ∀ b, b.length ≤ uint64 → ∀ n, ∃ n', m (Acc.of b) n =
    if (b ++ text).length ≤ uint64 then .ok (out (Acc.of (b ++ text)), n') else .error contextProjectionInvalid

section Emits

variable {α β : Type} {a b t : Bytes} {out : Acc → α}

/-- A computation that goes on with a result. -/
theorem Emits.andThen {m : Acc → Scan β} {r : Acc → β} {f : β → Scan α} (hm : Emits m a r)
    (hf : Emits (fun acc => f (r acc)) t out) : Emits (fun acc => m acc >>= f) (a ++ t) out := by
  intro b hb n
  obtain ⟨n₁, h₁⟩ := hm b hb n
  have hbind : (m (Acc.of b) >>= f) n = m (Acc.of b) n >>= fun p => f p.1 p.2 := rfl
  dsimp only
  rw [hbind, h₁]
  by_cases hfits : (b ++ a).length ≤ uint64
  · obtain ⟨n₂, h₂⟩ := hf (b ++ a) hfits n₁
    refine ⟨n₂, ?_⟩
    rw [if_pos hfits, ← List.append_assoc]
    exact h₂
  · refine ⟨0, ?_⟩
    have hmore : ¬(b ++ (a ++ t)).length ≤ uint64 := by
      simp only [List.length_append] at hfits ⊢
      omega
    rw [if_neg hfits, if_neg hmore]
    rfl

theorem Emits.bind {m : Acc → Scan Acc} {f : Acc → Scan α} (hm : Emits m a id) (hf : Emits f t out) :
    Emits (fun acc => m acc >>= f) (a ++ t) out :=
  hm.andThen hf

theorem Emits.pure : Emits (fun acc => (Pure.pure (out acc) : Scan α)) [] out := by
  intro b hb n
  refine ⟨n, ?_⟩
  rw [List.append_nil, if_pos hb]
  rfl

theorem Emits.congr {m m' : Acc → Scan α} (h : Emits m' t out) (heq : ∀ acc, m acc = m' acc) : Emits m t out := by
  intro b hb n
  rw [heq]
  exact h b hb n

theorem drop_eq_lastBytes (n : ℕ) (b : Bytes) : b.drop (b.length - n) = lastBytes n b := by rw [lastBytes]

theorem lastBytes_append (n : ℕ) (a b : Bytes) : lastBytes n (lastBytes n a ++ b) = lastBytes n (a ++ b) := by
  unfold lastBytes
  rw [← List.drop_append_of_le_length (by omega), List.drop_drop, List.length_drop, List.length_append]
  congr 1
  omega

/-- **A chunk is appended to the stream**, whatever its length. -/
theorem emits_consume (bytes : Bytes) : Emits (consume okay bytes) bytes id := by
  intro b hb n
  by_cases hbytes : bytes = []
  · subst hbytes
    refine ⟨n, ?_⟩
    rw [List.append_nil, if_pos hb, consume, if_pos rfl]
    rfl
  · refine ⟨n + 1, ?_⟩
    have hask : ∀ (k : Unit → Scan Acc), (ask okay >>= k) n = k () (n + 1) := fun _ => rfl
    have hlen : (b ++ bytes).length = b.length + bytes.length := List.length_append
    rw [consume, if_neg hbytes, hask, Acc.of_count, hlen]
    by_cases hfits : b.length + bytes.length ≤ uint64
    · have hcomplete : completed (Acc.of b) bytes = .ok (Acc.of (b ++ bytes)).complete := by
        rw [completed, Acc.of_count, Acc.of_complete, Acc.of_complete, hlen]
        by_cases hcap : b.length + bytes.length ≤ cap
        · rw [if_pos hcap, if_pos hcap, if_pos (by omega)]
        · rw [if_neg hcap, if_neg hcap]
      have hfront : (Acc.of b).prefixBytes ++ bytes.take (endCap - (Acc.of b).prefixBytes.length) =
          (Acc.of (b ++ bytes)).prefixBytes := by
        rw [Acc.of_prefixBytes, Acc.of_prefixBytes, List.take_append, List.length_take]
        congr 2
        omega
      have hback : ((Acc.of b).suffixBytes ++ bytes).drop
          (((Acc.of b).suffixBytes ++ bytes).length - endCap) = (Acc.of (b ++ bytes)).suffixBytes := by
        rw [Acc.of_suffixBytes, Acc.of_suffixBytes, ← lastBytes_append]
        exact drop_eq_lastBytes endCap _
      rw [if_pos hfits, if_pos hfits, hcomplete, hfront, hback, lift_ok_bind, ← hlen, Acc.of_hash, ← Acc.of_eta]
      rfl
    · rw [if_neg hfits, if_neg hfits]
      rfl

/-- **Chunks stream their concatenation.** -/
theorem emits_chunks (chunks : List Bytes) :
    Emits (fun acc => chunks.foldlM (fun acc chunk => consume okay chunk acc) acc) chunks.flatten id := by
  induction chunks with
  | nil => exact Emits.pure
  | cons chunk chunks ih => exact (emits_consume chunk).bind ih

end Emits

/-! ## strings and numbers -/

theorem escape_eq {c : ℕ} (hc : c < 128) : escape c = escapeChar c := by
  have hall : ∀ c < 128, escape c = escapeChar c := by decide
  exact hall c hc

/-- The two encoders escape a character alike. -/
theorem escape_eq_escapeChar (c : ℕ) : escape c = escapeChar c := by
  by_cases hc : c < 128
  · exact escape_eq hc
  · have hge : ¬c < 0x80 := hc
    rw [escapeChar, if_neg hge, escape]
    simp only [if_neg (show ¬c = 34 by omega), if_neg (show ¬c = 92 by omega), if_neg (show ¬c = 8 by omega),
      if_neg (show ¬c = 12 by omega), if_neg (show ¬c = 10 by omega), if_neg (show ¬c = 13 by omega),
      if_neg (show ¬c = 9 by omega), if_neg (show ¬c < 32 by omega)]

/-- **The text of a string does not depend on where it is cut.** -/
theorem emits_string {cs : List ℕ} (hcs : ∀ c ∈ cs, Scalar c) (chunks : List Bytes) (size : ℕ) :
    Emits (string okay (utf8All cs) chunks size) (chunks.reverse.flatten ++ cs.flatMap escapeChar) id := by
  generalize hrest : utf8All cs = rest
  suffices key : ∀ (acc : Acc) (cs : List ℕ), (∀ c ∈ cs, Scalar c) → utf8All cs = rest →
      Emits (string okay rest chunks size) (chunks.reverse.flatten ++ cs.flatMap escapeChar) id from
    key initialScan cs hcs hrest
  clear hcs hrest cs
  intro acc
  induction rest, chunks, size, acc using string.induct with
  | case1 rest chunks size acc hsize ih =>
    intro cs hcs hrest
    have htail := ih acc cs hcs hrest
    rw [List.reverse_nil, List.flatten_nil, List.nil_append] at htail
    exact ((emits_consume _).bind htail).congr fun acc => string_full hsize
  | case2 chunks size acc hsize =>
    intro cs hcs hrest
    rcases cs with _ | ⟨c, cs⟩
    · rw [List.flatMap_nil, List.append_nil]
      exact (emits_consume _).congr fun acc => string_nil (by omega)
    · rw [utf8All_cons, List.append_eq_nil_iff] at hrest
      exact absurd hrest.1 (utf8Encode_ne_nil c)
  | case3 chunks size acc hsize x xs character rest hdecode ih =>
    intro cs hcs hrest
    rcases cs with _ | ⟨c, cs⟩
    · cases hrest
    · obtain ⟨hc, hcs'⟩ := List.forall_mem_cons.1 hcs
      have hd := utf8Decode_encode hc (utf8All cs)
      rw [← utf8All_cons, hrest, hdecode] at hd
      cases hd
      have htail := ih cs hcs' rfl
      rw [List.reverse_cons, List.flatten_append, List.flatten_singleton, escape_eq_escapeChar,
        List.append_assoc, ← List.flatMap_cons] at htail
      exact htail.congr fun acc => by rw [string_cons (by omega) hdecode, escape_eq_escapeChar]
  | case4 chunks size acc hsize x xs hdecode =>
    intro cs hcs hrest
    rcases cs with _ | ⟨c, cs⟩
    · cases hrest
    · have hd := utf8Decode_encode (hcs c (by simp)) (utf8All cs)
      rw [← utf8All_cons, hrest, hdecode] at hd
      cases hd

theorem emits_quoted {text : Bytes} (h : validUtf8 text = true) :
    ∃ e, encodeString text = some e ∧ Emits (quoted okay text) e id := by
  obtain ⟨cs, hcs, rfl⟩ := validUtf8_iff.1 h
  have hquote : utf8 "\"" = [34] := by decide
  refine ⟨34 :: (cs.flatMap escapeChar ++ [34]), by rw [encodeString, escape_all hcs]; rfl, ?_⟩
  have hbody := emits_string hcs [] 0
  rw [List.reverse_nil, List.flatten_nil, List.nil_append] at hbody
  have hall := (emits_consume [34]).bind (hbody.bind (emits_consume [34]))
  exact hall.congr fun acc => by rw [quoted, hquote]

theorem emits_numberChunks (bytes : Bytes) : Emits (numberChunks okay bytes) bytes id := by
  suffices key : ∀ acc : Acc, Emits (numberChunks okay bytes) bytes id from key initialScan
  intro acc
  induction bytes, acc using numberChunks.induct with
  | case1 bytes acc hsize ih =>
    have hall := (emits_consume (bytes.take 1024)).bind (ih acc)
    rw [List.take_append_drop] at hall
    exact hall.congr fun acc => by rw [numberChunks, if_pos hsize]
  | case2 bytes acc hsize => exact (emits_consume bytes).congr fun acc => by rw [numberChunks, if_neg hsize]

/-! ## containers -/

/-- Texts with commas between them, and one in front but at the start. -/
def joined : Bool → List Bytes → Bytes
  | _, [] => []
  | first, t :: ts => (if first then [] else [44]) ++ (t ++ joined false ts)

theorem joined_eq_intercalate (ts : List Bytes) : joined true ts = List.intercalate [44] ts := by
  induction ts with
  | nil => rfl
  | cons t ts ih =>
    rcases ts with _ | ⟨u, us⟩
    · simp [joined, List.intercalate]
    · rw [List.intercalate_cons_cons, ← ih]
      simp [joined]

theorem comma_eq (first : Bool) : (if first then [] else utf8 ",") = if first then [] else ([44] : Bytes) := by
  cases first <;> decide

theorem emits_separated {α : Type} {encode : α → Acc → Scan Acc} {text : α → Bytes} {values : List α}
    (h : ∀ a ∈ values, Emits (encode a) (text a) id) (first : Bool) :
    Emits (separated okay encode first values) (joined first (values.map text)) id := by
  induction values generalizing first with
  | nil => exact Emits.pure
  | cons a values ih =>
    obtain ⟨ha, hvalues⟩ := List.forall_mem_cons.1 h
    have hall := (emits_consume (if first then [] else [44])).bind (ha.bind (ih hvalues false))
    exact hall.congr fun acc => by rw [separated, comma_eq]

/-! ## values -/

/-- Strings, integers, booleans, nil, lists and string-keyed maps, `left` containers deep at most. -/
inductive Plain : ℕ → Term → Prop
  | flag {left} {a : Bytes} : a = utf8 "true" ∨ a = utf8 "false" ∨ a = utf8 "nil" → Plain left (.atom a)
  | int {left n} : Plain left (.int n)
  | string {left b} : validUtf8 b = true → Plain left (.binary b)
  | list {left xs} : (∀ x ∈ xs, Plain left x) → Plain (left + 1) (.list xs)
  | map {left kvs} : (∀ e ∈ kvs, ∃ k, e.1 = .binary k ∧ validUtf8 k = true) → (∀ e ∈ kvs, Plain left e.2) →
      Plain (left + 1) (.map kvs)

section
variable (otherString : Term → Option Bytes)

/-- A value is written, and the stream goes on with what is written. -/
def Streams (m : Acc → Scan Acc) (t : Term) : Prop :=
  ∃ text, encodeValue otherString t = some text ∧ Emits m text id

/-- A value as it is written. -/
def valueText (t : Term) : Bytes := (encodeValue otherString t).getD []

/-- A member as it is written. -/
def memberText (m : Bytes × Term) : Bytes := (encodeString m.1).getD [] ++ 58 :: valueText otherString m.2

end

variable {otherString : Term → Option Bytes}

theorem members_eq {kvs : List (Term × Term)} {left : ℕ}
    (hk : ∀ e ∈ kvs, ∃ k, e.1 = .binary k ∧ validUtf8 k = true)
    (hv : ∀ e ∈ kvs, Streams otherString (value okay left e.2) e.2) :
    ∃ ms, members kvs = some ms ∧
      encodeMembers otherString kvs = some (ms.map fun m => (m.1, memberText otherString m)) ∧
      ∀ m ∈ ms, validUtf8 m.1 = true ∧ Streams otherString (value okay left m.2) m.2 := by
  induction kvs with
  | nil => exact ⟨[], rfl, rfl, by simp⟩
  | cons e kvs ih =>
    obtain ⟨⟨k, hkey, hvalid⟩, hkeys⟩ := List.forall_mem_cons.1 hk
    obtain ⟨hvalue, hvalues⟩ := List.forall_mem_cons.1 hv
    obtain ⟨ms, hms, hencode, hall⟩ := ih hkeys hvalues
    obtain ⟨key, v⟩ := e
    dsimp only at hkey
    subst hkey
    refine ⟨(k, v) :: ms, ?_, ?_, List.forall_mem_cons.2 ⟨⟨hvalid, hvalue⟩, hall⟩⟩
    · rw [members] at hms ⊢
      simp [List.mapM_cons, hms]
    · obtain ⟨name, hname, -⟩ := emits_quoted hvalid
      obtain ⟨text, htext, -⟩ := hvalue
      simp [encodeMembers, keyString, hname, htext, hencode, memberText, valueText]

/-- The members in the order of their keys. -/
theorem object_eq (ms : List (Bytes × Term)) : object (ms.map fun m => (m.1, memberText otherString m)) =
    123 :: (joined true ((sorted ms).map (memberText otherString)) ++ [125]) := by
  have hsort := List.map_mergeSort (r := fun a b : Bytes × Term => decide (a.1 ≤ b.1))
    (s := fun a b : Bytes × Bytes => decide (a.1 ≤ b.1)) (f := fun m : Bytes × Term => (m.1, memberText otherString m))
    (l := ms) fun _ _ _ _ => rfl
  rw [object, ← hsort, joined_eq_intercalate, sorted, List.map_map]
  rfl

theorem emits_member {left : ℕ} {m : Bytes × Term} (hvalid : validUtf8 m.1 = true)
    (hvalue : Streams otherString (value okay left m.2) m.2) :
    Emits (fun acc => do
      let acc ← quoted okay m.1 acc
      let acc ← consume okay (utf8 ":") acc
      value okay left m.2 acc) (memberText otherString m) id := by
  obtain ⟨name, hname, hquoted⟩ := emits_quoted hvalid
  obtain ⟨text, htext, hemits⟩ := hvalue
  have hcolon : utf8 ":" = [58] := by decide
  have hall := hquoted.bind ((emits_consume [58]).bind hemits)
  rw [memberText, valueText, hname, htext, hcolon]
  exact hall

theorem streams_atom {left : ℕ} {a : Bytes} (ha : a = utf8 "true" ∨ a = utf8 "false" ∨ a = utf8 "nil") :
    Streams otherString (value okay left (.atom a)) (.atom a) := by
  have hvalue : ∀ acc, value okay left (.atom a) acc =
      if a = utf8 "true" then consume okay (utf8 "true") acc
      else if a = utf8 "false" then consume okay (utf8 "false") acc
      else if a = utf8 "nil" then consume okay (utf8 "null") acc
      else invalid := by
    intro acc
    cases left <;> rfl
  have hft : ¬utf8 "false" = utf8 "true" := by decide
  have hnt : ¬utf8 "nil" = utf8 "true" := by decide
  have hnf : ¬utf8 "nil" = utf8 "false" := by decide
  rcases ha with rfl | rfl | rfl
  · exact ⟨utf8 "true", by simp [encodeValue], (emits_consume _).congr fun acc => by rw [hvalue, if_pos rfl]⟩
  · exact ⟨utf8 "false", by simp [encodeValue],
      (emits_consume _).congr fun acc => by rw [hvalue, if_neg hft, if_pos rfl]⟩
  · exact ⟨utf8 "null", by simp [encodeValue, hnt, hnf],
      (emits_consume _).congr fun acc => by rw [hvalue, if_neg hnt, if_neg hnf, if_pos rfl]⟩

theorem encodeValue_list {xs : List Term} (h : ∀ x ∈ xs, ∃ text, encodeValue otherString x = some text) :
    encodeValue otherString (.list xs) = some (91 :: (joined true (xs.map (valueText otherString)) ++ [93])) := by
  have helements : encodeElements otherString xs = some (xs.map (valueText otherString)) := by
    induction xs with
    | nil => rfl
    | cons x xs ih =>
      obtain ⟨⟨t, ht⟩, hxs⟩ := List.forall_mem_cons.1 h
      simp [encodeElements, ht, ih hxs, valueText]
  rw [encodeValue, helements, joined_eq_intercalate]
  rfl

theorem streams_list {left : ℕ} {xs : List Term} (h : ∀ x ∈ xs, Streams otherString (value okay left x) x) :
    Streams otherString (value okay (left + 1) (.list xs)) (.list xs) := by
  have hemits : ∀ x ∈ xs, Emits (value okay left x) (valueText otherString x) id := by
    intro x hx
    obtain ⟨t, ht, hemit⟩ := h x hx
    simpa only [valueText, ht, Option.getD_some] using hemit
  have hopen : utf8 "[" = [91] := by decide
  have hclose : utf8 "]" = [93] := by decide
  have hall := (emits_consume [91]).bind ((emits_separated hemits true).bind (emits_consume [93]))
  exact ⟨_, encodeValue_list fun x hx => (h x hx).imp fun _ ht => ht.1,
    hall.congr fun acc => by rw [value, hopen, hclose]⟩

theorem streams_map {left : ℕ} {kvs : List (Term × Term)} (hk : ∀ e ∈ kvs, ∃ k, e.1 = .binary k ∧ validUtf8 k = true)
    (hv : ∀ e ∈ kvs, Streams otherString (value okay left e.2) e.2) :
    Streams otherString (value okay (left + 1) (.map kvs)) (.map kvs) := by
  obtain ⟨ms, hms, hencode, hall⟩ := members_eq hk hv
  have hmember : ∀ m ∈ sorted ms, Emits (fun acc => do
      let acc ← quoted okay m.1 acc
      let acc ← consume okay (utf8 ":") acc
      value okay left m.2 acc) (memberText otherString m) id := by
    intro m hm
    obtain ⟨hvalid, hvalue⟩ := hall m (List.mem_mergeSort.1 hm)
    exact emits_member hvalid hvalue
  have hopen : utf8 "\x7b" = [123] := by decide
  have hclose : utf8 "\x7d" = [125] := by decide
  have hemits := (emits_consume [123]).bind ((emits_separated hmember true).bind (emits_consume [125]))
  refine ⟨[123] ++ (joined true ((sorted ms).map (memberText otherString)) ++ [125]), ?_,
    hemits.congr fun acc => by simp only [value, hms, hopen, hclose]⟩
  have hstruct : (kvs.any fun e => e.1 = sym "__struct__") = false := by
    rw [List.any_eq_false]
    intro e he
    obtain ⟨k, hkey, -⟩ := hk e he
    simp [hkey, sym]
  rw [encodeValue, hstruct, hencode, Option.map_some, object_eq]
  rfl

/-- **The encoder streams what the frame encoder writes.** -/
theorem streams_value {left : ℕ} {t : Term} (h : Plain left t) : Streams otherString (value okay left t) t := by
  induction h with
  | flag ha => exact streams_atom ha
  | @int left n => exact ⟨_, rfl, (emits_numberChunks _).congr fun acc => by cases left <;> rfl⟩
  | @string left b hb =>
    obtain ⟨e, he, hemits⟩ := emits_quoted hb
    exact ⟨e, he, hemits.congr fun acc => by cases left <;> rfl⟩
  | list _ ih => exact streams_list ih
  | map hk _ ih => exact streams_map hk ih

/-! ## messages -/

/-- A canonical message of plain values, within the depth of the encoder. -/
structure Message (m : Term) : Prop where
  canonical : canonicalMessage m = .ok true
  plain : Plain 16 m

theorem Message.errorItem {m : Term} (h : Message m) : errorItem m = none := by
  obtain ⟨hcanonical, hplain⟩ := h
  cases hplain <;> simp_all [canonicalMessage, CompactionSource.errorItem]

theorem Message.streams {m : Term} (h : Message m) : Streams otherString (value okay 16 m) m := streams_value h.plain

theorem Message.emits {m : Term} (h : Message m) : Emits (value okay 16 m) (valueText otherString m) id := by
  obtain ⟨text, htext, hemits⟩ := @Message.streams otherString m h
  rw [valueText, htext]
  exact hemits

/-- **Units are scanned as the messages they hold.** -/
theorem scanUnit_append (check : ℕ → Option Bytes) (xs ys : List Term) (acc : Acc) (first : Bool) :
    scanUnit check (xs ++ ys) acc first = scanUnit check xs acc first >>= fun r => scanUnit check ys r.1 r.2 := by
  induction xs generalizing acc first with
  | nil => rfl
  | cons x xs ih =>
    rw [List.cons_append, scanUnit, scanUnit]
    rcases errorItem x with _ | reason
    · simp only [ih, bind_assoc]
      congr 1
      funext canonical
      split
      · rw [bind_assoc]
        congr 1
        funext acc
        rw [bind_assoc]
      · rfl
    · rfl

theorem emits_scanUnit {messages : List Term} (h : ∀ m ∈ messages, Message m) (first : Bool) :
    Emits (fun acc => scanUnit okay messages acc first) (joined first (messages.map (valueText otherString)))
      fun acc => (acc, first && messages.isEmpty) := by
  induction messages generalizing first with
  | nil => simpa [scanUnit, joined] using Emits.pure
  | cons m messages ih =>
    obtain ⟨hm, hmessages⟩ := List.forall_mem_cons.1 h
    have hm' : Emits (value okay 16 m) (valueText otherString m) id := hm.emits
    have hall := (emits_consume (if first then [] else [44])).bind (hm'.bind (ih hmessages false))
    rw [List.isEmpty_cons, Bool.and_false]
    refine hall.congr fun acc => ?_
    rw [scanUnit, hm.errorItem, hm.canonical, comma_eq]
    rfl

variable (otherString) in
/-- The messages as one array. -/
def messagesText (messages : List Term) : Bytes := 91 :: (joined true (messages.map (valueText otherString)) ++ [93])

theorem encodeValue_messages {messages : List Term} (h : ∀ m ∈ messages, Message m) :
    encodeValue otherString (.list messages) = some (messagesText otherString messages) :=
  encodeValue_list fun m hm => (h m hm).streams.imp fun _ ht => ht.1

/-- **A scan streams the array of the messages.** -/
theorem scan_eq {messages : List Term} (hne : messages ≠ []) (h : ∀ m ∈ messages, Message m) (n : ℕ) :
    ∃ n', scan okay messages n =
      if (messagesText otherString messages).length ≤ uint64 then
        .ok (Acc.of (messagesText otherString messages), n')
      else .error contextProjectionInvalid := by
  have hopen : utf8 "[" = [91] := by decide
  have hclose : utf8 "]" = [93] := by decide
  have hempty : messages.isEmpty = false := by simpa using hne
  have htail : Emits (fun acc => scanUnit okay messages acc true >>= fun r =>
      if r.2 then invalid else consume okay [93] r.1)
      (joined true (messages.map (valueText otherString)) ++ [93]) id := by
    refine (emits_scanUnit h true).andThen ?_
    simpa [hempty] using emits_consume [93]
  obtain ⟨n', hn⟩ := (emits_consume [91]).bind htail [] (by simp) n
  refine ⟨n', ?_⟩
  rw [scan, hopen, hclose, initialScan_eq]
  exact hn

/-- **Units are scanned as their messages.** -/
theorem scanUnits_eq (check : ℕ → Option Bytes) (units : List (List Term)) (acc : Acc) (first : Bool) :
    units.foldlM (fun r unit => scanUnit check unit r.1 r.2) (acc, first) = scanUnit check units.flatten acc first := by
  induction units generalizing acc first with
  | nil => rfl
  | cons unit units ih =>
    rw [List.foldlM_cons, List.flatten_cons, scanUnit_append]
    congr 1
    funext r
    exact ih r.1 r.2

/-! ## the envelope -/

/-- The envelope of the whole messages, as one value. -/
def completeSource (prior : Term) (messages : List Term) : Term :=
  mapOf [(str "version", str "loopex.compaction.source.v2"), (str "prior_checkpoint", prior),
    (str "messages", mapOf [(str "kind", str "complete"), (str "value", .list messages)])]

theorem encodeValue_completeSource {prior : Term} {messages : List Term} {array p : Bytes}
    (ha : encodeValue otherString (.list messages) = some array) (hp : encodeValue otherString prior = some p) :
    encodeValue otherString (completeSource prior messages) = some (completeBytes array p) := by
  have hstring : ∀ s : String, plainText (utf8 s) = true →
      encodeValue otherString (str s) = some (34 :: (utf8 s ++ [34])) := fun s hs => encodeString_plain hs
  have hmessages : encodeValue otherString (mapOf [(str "kind", str "complete"), (str "value", .list messages)]) =
      some (utf8 "\x7b\"kind\":\"complete\",\"value\":" ++ array ++ utf8 "\x7d") := by
    have h := @encodeValue_fields otherString
      [("kind", str "complete", 34 :: (utf8 "complete" ++ [34])), ("value", .list messages, array)] _ (List.Perm.refl _)
      (show [utf8 "kind", utf8 "value"].Pairwise (· < ·) by decide)
      (show ([utf8 "kind", utf8 "value"].all plainText) = true by decide)
      (by simpa [ha] using hstring "complete" (by decide))
    refine h.trans (congrArg some ?_)
    have hopen : utf8 "\x7b\"kind\":\"complete\",\"value\":" = 123 :: 34 :: (utf8 "kind" ++ 34 :: 58 :: 34 ::
        (utf8 "complete" ++ 34 :: 44 :: 34 :: (utf8 "value" ++ [34, 58]))) := by decide
    have hclose : utf8 "\x7d" = [125] := by decide
    simp [hopen, hclose, List.intercalate]
  have h := @encodeValue_fields otherString
    [("version", str "loopex.compaction.source.v2", 34 :: (utf8 "loopex.compaction.source.v2" ++ [34])),
      ("messages", mapOf [(str "kind", str "complete"), (str "value", .list messages)],
        utf8 "\x7b\"kind\":\"complete\",\"value\":" ++ array ++ utf8 "\x7d"), ("prior_checkpoint", prior, p)]
    [("messages", mapOf [(str "kind", str "complete"), (str "value", .list messages)],
        utf8 "\x7b\"kind\":\"complete\",\"value\":" ++ array ++ utf8 "\x7d"), ("prior_checkpoint", prior, p),
      ("version", str "loopex.compaction.source.v2", 34 :: (utf8 "loopex.compaction.source.v2" ++ [34]))]
    (@List.perm_append_comm _ [_] [_, _])
    (show [utf8 "messages", utf8 "prior_checkpoint", utf8 "version"].Pairwise (· < ·) by decide)
    (show ([utf8 "messages", utf8 "prior_checkpoint", utf8 "version"].all plainText) = true by decide)
    (by simpa [hmessages, hp] using hstring "loopex.compaction.source.v2" (by decide))
  refine h.trans (congrArg some ?_)
  have hopen : utf8 "\x7b\"messages\":\x7b\"kind\":\"complete\",\"value\":" = 123 :: 34 :: (utf8 "messages" ++ 34 :: 58 ::
      utf8 "\x7b\"kind\":\"complete\",\"value\":") := by decide
  have hmiddle : utf8 "\x7d,\"prior_checkpoint\":" = utf8 "\x7d" ++ 44 :: 34 :: (utf8 "prior_checkpoint" ++ [34, 58]) := by
    decide
  have hclose : utf8 ",\"version\":\"loopex.compaction.source.v2\"\x7d" = 44 :: 34 :: (utf8 "version" ++ 34 :: 58 :: 34 ::
      (utf8 "loopex.compaction.source.v2" ++ [34, 125])) := by decide
  simp [completeBytes, hopen, hmiddle, hclose, List.intercalate]

theorem validPrior_written {prior : Term} (h : validPrior otherString prior = .ok ()) :
    WrittenIn otherString 18000 prior := by
  unfold validPrior at h
  split at h
  next hnil =>
    subst hnil
    have hnt : ¬utf8 "nil" = utf8 "true" := by decide
    have hnf : ¬utf8 "nil" = utf8 "false" := by decide
    exact ⟨utf8 "null", by simp [nil, sym, encodeValue, hnt, hnf], by decide⟩
  next => exact validatePrior_written h

/-- **The complete candidate**: the envelope of the whole messages, if it is within the cap. -/
theorem complete_of {prior : Term} {array p : Bytes} (hp : json otherString prior = .ok p) :
    complete otherString (Acc.of array) prior =
      .ok (if (completeBytes array p).length ≤ cap then
        [{ candidate (completeBytes array p) false none with messageByteLength := some array.length }] else []) := by
  rw [complete, Acc.of_complete]
  by_cases hcap : array.length ≤ cap
  · rw [if_pos hcap]
    simp only [hp, Check.ok_bind, Acc.of_count]
  · have hlong : ¬(completeBytes array p).length ≤ cap := by
      simp only [completeBytes, List.length_append]
      omega
    rw [if_neg hcap, if_neg hlong]

/-! ## excerpts -/

/-- Two fragments of an array, with something left out between them, in an envelope within the cap. -/
structure Excerpt (otherString : Term → Option Bytes) (prior : Term) (array : Bytes) (quota : ℕ) (front : Bytes)
    (offset : ℕ) (back : Bytes) (source : Candidate) : Prop where
  quota_mem : quota ∈ quotas
  front_bytes : (array.drop 0).take front.length = front
  back_bytes : (array.drop offset).take back.length = back
  front_valid : validUtf8 front = true
  back_valid : validUtf8 back = true
  omitted : front.length < offset
  ends : offset + back.length = array.length
  envelope : encodeValue otherString
    (excerptSource prior (hex (sha256 array)) array.length front offset back) = some source.bytes
  fits : source.bytes.length ≤ cap
  source_eq : source = candidate source.bytes true (some quota)

theorem fragment_some {buffer f : Bytes} {quota : ℕ} {side : Side} (h : fragment buffer quota side = some f) :
    f.length ≤ buffer.length ∧ validUtf8 f = true ∧
      f = match side with
        | .leading => buffer.take f.length
        | .trailing => buffer.drop (buffer.length - f.length) := by
  obtain ⟨extra, -, h⟩ := List.exists_of_findSome?_eq_some h
  dsimp only at h
  split at h <;> [skip; cases h]
  next hsize =>
  rcases side with _ | _
  · dsimp only at h
    split at h <;> [skip; cases h]
    next hvalid =>
    obtain rfl := Option.some.inj h
    have hlen : (buffer.take (quota + extra)).length = quota + extra := by
      rw [List.length_take]
      omega
    exact ⟨by omega, hvalid, by rw [hlen]⟩
  · dsimp only at h
    split at h <;> [skip; cases h]
    next hvalid =>
    obtain rfl := Option.some.inj h
    have hlen : (buffer.drop (buffer.length - (quota + extra))).length = quota + extra := by
      rw [List.length_drop]
      omega
    exact ⟨by omega, hvalid, by rw [hlen]⟩

/-- A fragment of the first window. -/
theorem fragment_leading {array f : Bytes} {quota : ℕ}
    (h : fragment (Acc.of array).prefixBytes quota .leading = some f) :
    f.length ≤ endCap ∧ validUtf8 f = true ∧ (array.drop 0).take f.length = f := by
  obtain ⟨hlen, hvalid, heq⟩ := fragment_some h
  rw [Acc.of_prefixBytes, List.length_take] at hlen
  dsimp only at heq
  rw [Acc.of_prefixBytes, List.take_take, Nat.min_eq_left (by omega)] at heq
  exact ⟨by omega, hvalid, heq.symm⟩

/-- A fragment of the last window. -/
theorem fragment_trailing {array f : Bytes} {quota : ℕ}
    (h : fragment (Acc.of array).suffixBytes quota .trailing = some f) :
    f.length ≤ endCap ∧ f.length ≤ array.length ∧ validUtf8 f = true ∧ array.drop (array.length - f.length) = f := by
  obtain ⟨hlen, hvalid, heq⟩ := fragment_some h
  have hsuffix : (Acc.of array).suffixBytes.length = min endCap array.length := by
    rw [Acc.of_suffixBytes, ← drop_eq_lastBytes, List.length_drop]
    omega
  rw [hsuffix] at hlen
  dsimp only at heq
  rw [hsuffix, Acc.of_suffixBytes, ← drop_eq_lastBytes, List.drop_drop] at heq
  have hat : array.length - endCap + (min endCap array.length - f.length) = array.length - f.length := by omega
  rw [hat] at heq
  exact ⟨by omega, by omega, hvalid, heq.symm⟩

/-! ### the envelope of an excerpt is within a frame -/

theorem plainText_valid {b : Bytes} (h : plainText b = true) : validUtf8 b = true := by
  refine validUtf8_ascii fun x hx => ?_
  have hbyte := List.all_eq_true.1 h x hx
  simp only [Bool.and_eq_true, decide_eq_true_eq] at hbyte
  exact ⟨(escapeByte_none hbyte.2).1, hbyte.1⟩

theorem writtenIn_str {s : String} {n : ℕ} (h : plainText (utf8 s) = true) (hn : (utf8 s).length + 2 ≤ n) :
    WrittenIn otherString n (str s) := by
  refine ⟨34 :: (utf8 s ++ [34]), encodeString_plain h, ?_⟩
  simp only [List.length_cons, List.length_append, List.length_nil]
  omega

theorem writtenIn_hex (b : Bytes) : WrittenIn otherString (12 * b.length + 2) (.binary (Erlang.hex b)) := by
  refine (writtenIn_binary (validUtf8_ascii fun x hx => ?_)).mono (by rw [hex_length]; omega)
  have h := List.all_eq_true.1 (all_isHex_hex b) x hx
  simp only [isHex, Bool.or_eq_true, Bool.and_eq_true, decide_eq_true_eq] at h
  omega

/-- A count of the scan. -/
theorem writtenIn_count {n : ℕ} (h : n ≤ uint64) : WrittenIn otherString 20 (.int n) := by
  refine ⟨_, rfl, ?_⟩
  rw [integerToString, if_neg (by omega), Int.natAbs_natCast, digits, List.length_map, decimal]
  split
  · simp
  · rw [List.length_reverse]
    exact (Nat.digits_length_le_iff (by omega) n).2 (by unfold uint64 at h; omega)

/-- A name that is written as it is, in few bytes. -/
def shortName (s : String) : Bool := plainText (utf8 s) && (utf8 s).length ≤ 60

theorem writtenIn_named {n : ℕ} {kvs : List (String × Term)} (hk : ((kvs.map Prod.fst).all shortName) = true)
    (hv : ∀ e ∈ kvs, WrittenIn otherString n e.2) :
    WrittenIn otherString (kvs.length * (n + 364) + 2) (.map (kvs.map fun e => (str e.1, e.2))) := by
  have hmap := @writtenIn_map otherString n (kvs.map fun e => (str e.1, e.2)) fun e he => ?_
  · rwa [List.length_map] at hmap
  · obtain ⟨field, hfield, rfl⟩ := List.mem_map.1 he
    have hname := List.all_eq_true.1 hk _ (List.mem_map_of_mem hfield)
    simp only [shortName, Bool.and_eq_true, decide_eq_true_eq] at hname
    exact ⟨utf8 field.1, rfl, plainText_valid hname.1, hname.2, hv field hfield⟩

/-- A fragment with its offset. -/
def fragmentEntry (offset : ℕ) (text : Bytes) : Term := mapOf [(str "offset", .int offset), (str "text", .binary text)]

theorem writtenIn_fragment {offset : ℕ} {text : Bytes} (ho : offset ≤ uint64) (hvalid : validUtf8 text = true)
    (hlen : text.length ≤ endCap) : WrittenIn otherString 50000 (fragmentEntry offset text) := by
  have htext : WrittenIn otherString 24596 (.binary text) :=
    (writtenIn_binary hvalid).mono (by unfold endCap at hlen; omega)
  have hoffset : WrittenIn otherString 24596 (.int offset) := (writtenIn_count ho).mono (by omega)
  have hmap := @writtenIn_named otherString 24596 [("text", .binary text), ("offset", .int offset)]
    (show (["text", "offset"].all shortName) = true by decide) (by simpa using ⟨htext, hoffset⟩)
  exact hmap.mono (by simp)

/-- **The envelope of an excerpt is never too large for a frame.** -/
theorem writtenIn_excerptSource {prior : Term} {digest front back : Bytes} {count offset : ℕ}
    (hp : WrittenIn otherString 18000 prior) (hd : digest.length = 32) (hc : count ≤ uint64)
    (hfront : WrittenIn otherString 50000 (fragmentEntry 0 front))
    (hback : WrittenIn otherString 50000 (fragmentEntry offset back)) :
    WrittenIn otherString 2000000 (excerptSource prior (Erlang.hex digest) count front offset back) := by
  have hfragments := @writtenIn_list otherString 50000 [fragmentEntry 0 front, fragmentEntry offset back]
    (by simpa using ⟨hfront, hback⟩)
  have hkind : WrittenIn otherString 100004 (str "serialized_excerpt") :=
    writtenIn_str (by decide) (by decide)
  have hencoding : WrittenIn otherString 100004 (str "loopex.compaction.messages_json.v1") :=
    writtenIn_str (by decide) (by decide)
  have hversion : WrittenIn otherString 502000 (str "loopex.compaction.source.v2") :=
    writtenIn_str (by decide) (by decide)
  have hdigest : WrittenIn otherString 100004 (.binary (Erlang.hex digest)) :=
    (writtenIn_hex digest).mono (by omega)
  have hcount : WrittenIn otherString 100004 (.int count) := (writtenIn_count hc).mono (by omega)
  have hmessages := @writtenIn_named otherString 100004 [("kind", str "serialized_excerpt"),
    ("sha256", .binary (Erlang.hex digest)), ("encoding", str "loopex.compaction.messages_json.v1"),
    ("fragments", .list [fragmentEntry 0 front, fragmentEntry offset back]), ("byte_length", .int count)]
    (show (["kind", "sha256", "encoding", "fragments", "byte_length"].all shortName) = true by decide)
    (by simpa using ⟨hkind, hdigest, hencoding, hfragments.mono (by simp), hcount⟩)
  have henvelope := @writtenIn_named otherString 502000 [("version", str "loopex.compaction.source.v2"),
    ("messages", _), ("prior_checkpoint", prior)]
    (show (["version", "messages", "prior_checkpoint"].all shortName) = true by decide)
    (by simpa using ⟨hversion, hmessages.mono (by simp), hp.mono (by omega)⟩)
  exact henvelope.mono (by simp)

/-- **The excerpts of a quota.** -/
theorem excerpt_of {prior : Term} {array : Bytes} {quota : ℕ} (hp : WrittenIn otherString 18000 prior)
    (hlen : array.length ≤ uint64) (hq : quota ∈ quotas) :
    ∃ l, excerpt otherString (Acc.of array) prior quota = .ok l ∧
      ∀ source ∈ l, ∃ front offset back, Excerpt otherString prior array quota front offset back source := by
  unfold excerpt
  split
  next front back hfront hback =>
    obtain ⟨hflen, hfvalid, hfbytes⟩ := fragment_leading hfront
    obtain ⟨hblen, hble, hbvalid, hbbytes⟩ := fragment_trailing hback
    dsimp only
    rw [Acc.of_count]
    split
    next homitted =>
      have hwritten := @writtenIn_excerptSource otherString prior (sha256 array) front back array.length
        (array.length - back.length) hp (sha256_length array) hlen
        (writtenIn_fragment (by omega) hfvalid hflen) (writtenIn_fragment (by omega) hbvalid hblen)
      obtain ⟨text, htext, hjson⟩ := json_of_writtenIn hwritten (by decide)
      have hdigest : (Acc.of array).digest = Erlang.hex (sha256 array) := rfl
      rw [hdigest, hjson]
      refine ⟨_, rfl, fun source hsource => ?_⟩
      split at hsource
      next hfits =>
        obtain rfl := List.mem_singleton.1 hsource
        refine ⟨front, array.length - back.length, back, hq, hfbytes, ?_, hfvalid, hbvalid, homitted, by omega,
          htext, hfits, rfl⟩
        rw [hbbytes, List.take_length]
      next => cases hsource
    next => exact ⟨[], rfl, by simp⟩
  next => exact ⟨[], rfl, by simp⟩

theorem mapM_forall {α β : Type} {f : α → Check Bytes β} {P : β → Prop} {xs : List α}
    (h : ∀ x ∈ xs, ∃ y, f x = .ok y ∧ P y) : ∃ ys, xs.mapM f = .ok ys ∧ ∀ y ∈ ys, P y := by
  induction xs with
  | nil => exact ⟨[], rfl, by simp⟩
  | cons x xs ih =>
    obtain ⟨⟨y, hy, hP⟩, hxs⟩ := List.forall_mem_cons.1 h
    obtain ⟨ys, hys, hall⟩ := ih hxs
    refine ⟨y :: ys, ?_, List.forall_mem_cons.2 ⟨hP, hall⟩⟩
    rw [List.mapM_cons, hy, hys]
    rfl

theorem excerpts_of {prior : Term} {array : Bytes} (hp : WrittenIn otherString 18000 prior)
    (hlen : array.length ≤ uint64) :
    excerpts otherString (Acc.of array) prior = .error compactionExcerptBudgetTooSmall ∨
      ∃ sources, excerpts otherString (Acc.of array) prior = .ok sources ∧
        ∀ source ∈ sources, ∃ quota front offset back,
          Excerpt otherString prior array quota front offset back source := by
  obtain ⟨ls, hls, hall⟩ := mapM_forall (P := fun l => ∀ source ∈ l, ∃ quota front offset back,
    Excerpt otherString prior array quota front offset back source) fun quota hq => by
      obtain ⟨l, hl, hsources⟩ := excerpt_of hp hlen hq
      exact ⟨l, hl, fun source hs => ⟨quota, hsources source hs⟩⟩
  simp only [excerpts, hls, Check.ok_bind]
  by_cases hnone : ls.flatten = []
  · rw [if_pos hnone]
    exact .inl rfl
  · rw [if_neg hnone]
    refine .inr ⟨ls.flatten, rfl, fun source hs => ?_⟩
    obtain ⟨l, hl, hsource⟩ := List.mem_flatten.1 hs
    exact hall l hl source hsource

/-! ## the streamed encoding -/

variable (otherString) in
/-- The candidates of a finished scan. -/
def candidatesOf (form : Form) (scanned : Acc) (prior : Term) : Check Bytes (List Candidate) :=
  match form with
  | .complete => complete otherString scanned prior
  | .excerpt => excerpts otherString scanned prior

theorem encode_eq {messages : List Term} {prior : Term} (hne : messages ≠ []) (h : ∀ m ∈ messages, Message m)
    (hprior : validPrior otherString prior = .ok ()) (form : Form) (n : ℕ) :
    ∃ n', encode otherString okay (some messages) prior form n =
      if (messagesText otherString messages).length ≤ uint64 then
        (candidatesOf otherString form (Acc.of (messagesText otherString messages)) prior).bind fun l => .ok (l, n')
      else .error contextProjectionInvalid := by
  obtain ⟨n', hn⟩ := @scan_eq otherString messages hne h n
  refine ⟨n', ?_⟩
  have hencode : encode otherString okay (some messages) prior form n = scan okay messages n >>= fun r =>
      (candidatesOf otherString form r.1 prior).bind fun l => .ok (l, r.2) := by
    rw [encode, hprior]
    cases form <;> rfl
  rw [hencode, hn]
  split <;> rfl

/-- What the stream of an array of messages comes to: its count and hash, the complete candidate and the excerpts,
and that neither units nor chunks show in it. -/
structure Streamed (otherString : Term → Option Bytes) (messages : List Term) (prior : Term) (array p : Bytes) :
    Prop where
  scanned : ∀ n, ∃ acc n', scan okay messages n = .ok (acc, n') ∧ acc.count = array.length ∧ acc.hash = array ∧
    acc.digest = hex (sha256 array)
  complete : ∀ n, ∃ n', encode otherString okay (some messages) prior .complete n =
    .ok (if (completeBytes array p).length ≤ cap then
      [⟨completeBytes array p, Protocol.Canonical.digestBytes (completeBytes array p), false, none, some array.length⟩]
      else [], n')
  envelope : encodeValue otherString (completeSource prior messages) = some (completeBytes array p)
  excerpts : ∀ n, encode otherString okay (some messages) prior .excerpt n = .error compactionExcerptBudgetTooSmall ∨
    ∃ sources n', encode otherString okay (some messages) prior .excerpt n = .ok (sources, n') ∧
      ∀ source ∈ sources, ∃ quota front offset back,
        Excerpt otherString prior array quota front offset back source
  units : ∀ check acc first, ∀ units : List (List Term), units.flatten = messages →
    units.foldlM (fun r unit => scanUnit check unit r.1 r.2) (acc, first) = scanUnit check messages acc first
  chunks : ∀ chunks : List Bytes, chunks.flatten = array → ∀ n, ∃ n₁ n₂ acc,
    chunks.foldlM (fun acc chunk => consume okay chunk acc) initialScan n = .ok (acc, n₁) ∧
      scan okay messages n = .ok (acc, n₂)

/-- **A nonempty list of canonical messages streams its frame encoding**, up to what a scan can count. -/
theorem encode_streams {messages : List Term} {prior : Term} (hne : messages ≠ []) (h : ∀ m ∈ messages, Message m)
    (hprior : validPrior otherString prior = .ok ()) :
    ∃ array p, encodeValue otherString (.list messages) = some array ∧ encodeValue otherString prior = some p ∧
      (array.length ≤ uint64 → Streamed otherString messages prior array p) ∧
      (uint64 < array.length → ∀ form n,
        encode otherString okay (some messages) prior form n = .error contextProjectionInvalid) := by
  have hwritten := validPrior_written hprior
  obtain ⟨p, hp, hjson⟩ := json_of_writtenIn hwritten (by decide)
  have harray := @encodeValue_messages otherString messages h
  refine ⟨messagesText otherString messages, p, harray, hp, fun hfits => ?_, fun hlong form n => ?_⟩
  · have hscan : ∀ n, ∃ n', scan okay messages n = .ok (Acc.of (messagesText otherString messages), n') := by
      intro n
      obtain ⟨n', hn⟩ := @scan_eq otherString messages hne h n
      exact ⟨n', by rw [hn, if_pos hfits]⟩
    refine ⟨fun n => ?_, fun n => ?_, encodeValue_completeSource harray hp, fun n => ?_, ?_, ?_⟩
    · obtain ⟨n', hn⟩ := hscan n
      exact ⟨_, n', hn, rfl, rfl, rfl⟩
    · obtain ⟨n', hn⟩ := encode_eq hne h hprior .complete n
      refine ⟨n', ?_⟩
      rw [hn, if_pos hfits, candidatesOf, complete_of hjson]
      rfl
    · obtain ⟨n', hn⟩ := encode_eq hne h hprior .excerpt n
      rw [hn, if_pos hfits, candidatesOf]
      rcases excerpts_of hwritten hfits with hnone | ⟨sources, hsome, hall⟩
      · rw [hnone]
        exact .inl rfl
      · rw [hsome]
        exact .inr ⟨sources, n', rfl, hall⟩
    · rintro check acc first units rfl
      exact scanUnits_eq check units acc first
    · intro chunks hchunks n
      obtain ⟨n₁, h₁⟩ := emits_chunks chunks [] (by simp) n
      obtain ⟨n₂, h₂⟩ := hscan n
      rw [List.nil_append, hchunks, if_pos hfits] at h₁
      exact ⟨n₁, n₂, _, by rw [initialScan_eq]; exact h₁, h₂⟩
  · obtain ⟨n', hn⟩ := encode_eq hne h hprior form n
    rw [hn, if_neg (by omega)]

/-- An empty enumerable is refused, though its envelope is far below the cap. -/
theorem encode_streams_fails :
    (∀ m ∈ ([] : List Term), Message m) ∧ validPrior (fun _ => none) nil = .ok () ∧
      encodeValue (fun _ => none) (.list []) = some (utf8 "[]") ∧ encodeValue (fun _ => none) nil = some (utf8 "null") ∧
      (completeBytes (utf8 "[]") (utf8 "null")).length ≤ cap ∧
      encode (fun _ => none) okay (some []) nil .complete 0 = .error contextProjectionInvalid := by
  refine ⟨by simp, rfl, by decide, by decide, by decide, by decide⟩

/-- A user's message. -/
def userMessage (text : Bytes) : Term := mapOf [(str "role", str "user"), (str "content", .binary text)]

theorem message_userMessage {text : Bytes} (h : validUtf8 text = true) : Message (userMessage text) := by
  have hmap : userMessage text = .map [(str "role", str "user"), (str "content", .binary text)] := rfl
  rw [hmap]
  refine ⟨?_, .map ?_ ?_⟩
  · simp [canonicalMessage, Store.lookup, isBinary]
  · simpa using ⟨⟨utf8 "role", rfl, validUtf8_name (by decide)⟩,
      ⟨utf8 "content", rfl, validUtf8_name (by decide)⟩⟩
  · simpa using ⟨Plain.string (b := utf8 "user") (validUtf8_name (by decide)), Plain.string h⟩

/-- What the model said, with the user's text around it. -/
def exchange : List Term :=
  [userMessage (utf8 "hi"), .map [(str "role", str "assistant"), (str "content", str "so"), (str "tool_calls", .list [])],
    userMessage (utf8 "go on")]

theorem message_exchange : ∀ m ∈ exchange, Message m := by
  have hvalid : ∀ b ∈ [utf8 "hi", utf8 "go on", utf8 "role", utf8 "content", utf8 "tool_calls", utf8 "assistant",
      utf8 "so"], validUtf8 b = true := by
    simp only [List.forall_mem_cons]
    exact ⟨validUtf8_name (by decide), validUtf8_name (by decide), validUtf8_name (by decide),
      validUtf8_name (by decide), validUtf8_name (by decide), validUtf8_name (by decide), validUtf8_name (by decide),
      List.forall_mem_nil _⟩
  simp only [List.forall_mem_cons] at hvalid
  obtain ⟨hhi, hgo, hrole, hcontent, hcalls, hassistant, hso, -⟩ := hvalid
  simp only [exchange, List.forall_mem_cons]
  refine ⟨message_userMessage hhi, ⟨by decide, .map ?_ ?_⟩, message_userMessage hgo, List.forall_mem_nil _⟩ <;>
    simp only [List.forall_mem_cons]
  · exact ⟨⟨_, rfl, hrole⟩, ⟨_, rfl, hcontent⟩, ⟨_, rfl, hcalls⟩, List.forall_mem_nil _⟩
  · exact ⟨.string hassistant, .string hso, .list (List.forall_mem_nil _), List.forall_mem_nil _⟩

/-- A map of members is written in the order of their names. -/
theorem encodeValue_of_perm {otherString : Term → Option Bytes} {kvs : List (Term × Term)} {ms ms' : List (Bytes × Bytes)}
    (hstruct : (kvs.any fun e => e.1 = sym "__struct__") = false) (h : encodeMembers otherString kvs = some ms)
    (hp : ms.Perm ms') (hs : (ms'.map Prod.fst).Pairwise (· < ·)) :
    encodeValue otherString (.map kvs) = some (123 :: (List.intercalate [44] (ms'.map Prod.snd) ++ [125])) := by
  rw [encodeValue, if_neg (by rw [hstruct]; exact Bool.false_ne_true), h, Option.map_some, object_of_perm hp hs]

theorem encodeMembers_exchange :
    encodeMembers (fun _ => none) [(str "role", str "user"), (str "content", str "hi")] =
      some [(utf8 "role", utf8 "\"role\":\"user\""), (utf8 "content", utf8 "\"content\":\"hi\"")] ∧
    encodeMembers (fun _ => none) [(str "role", str "user"), (str "content", str "go on")] =
      some [(utf8 "role", utf8 "\"role\":\"user\""), (utf8 "content", utf8 "\"content\":\"go on\"")] ∧
    encodeMembers (fun _ => none) [(str "role", str "assistant"), (str "content", str "so"), (str "tool_calls", .list [])] =
      some [(utf8 "role", utf8 "\"role\":\"assistant\""), (utf8 "content", utf8 "\"content\":\"so\""),
        (utf8 "tool_calls", utf8 "\"tool_calls\":[]")] := by
  decide +kernel

/-- The array of the three messages. -/
def exchangeText : Bytes :=
  utf8 ("[\x7b\"content\":\"hi\",\"role\":\"user\"\x7d,\x7b\"content\":\"so\",\"role\":\"assistant\",\"tool_calls\":[]\x7d," ++
    "\x7b\"content\":\"go on\",\"role\":\"user\"\x7d]")

theorem encodeValue_exchange : encodeValue (fun _ => none) (.list exchange) = some exchangeText := by
  obtain ⟨hhi, hgo, hso⟩ := encodeMembers_exchange
  have h1 := encodeValue_of_perm (by decide) hhi (.swap _ _ _) (by decide)
  have h2 := encodeValue_of_perm (by decide) hso (.swap _ _ _) (by decide)
  have h3 := encodeValue_of_perm (by decide) hgo (.swap _ _ _) (by decide)
  have hmaps : exchange = [.map [(str "role", str "user"), (str "content", str "hi")],
      .map [(str "role", str "assistant"), (str "content", str "so"), (str "tool_calls", .list [])],
      .map [(str "role", str "user"), (str "content", str "go on")]] := rfl
  rw [hmaps, encodeValue]
  simp only [encodeElements, h1, h2, h3, Option.bind_eq_bind, Option.bind_some, Option.map_some]
  decide

/-- The three messages stream the array that a frame writes of them. -/
theorem encode_streams_exchange : ∃ p, encodeValue (fun _ => none) nil = some p ∧
    Streamed (fun _ => none) exchange nil exchangeText p := by
  obtain ⟨array, p, harray, hp, hstreamed, -⟩ := @encode_streams (fun _ => none) exchange nil (by simp [exchange])
    message_exchange rfl
  rw [encodeValue_exchange] at harray
  cases harray
  exact ⟨p, hp, hstreamed (by decide)⟩

end Loopex.Runtime.CompactionSource
