import Loopex.Runtime.CompactionSummary

/-!
# The source of a compaction

`CompactionSource`: canonical messages are encoded in one pass, chunk by chunk, into a bounded candidate and two
windows at the ends of the stream; a selection tries the whole units of a range as complete candidates, and an
excerpt where a small prefix would strand the unit behind it.

* `consume` — one chunk of the stream, after the caller's check
* `value` — the encoder
* `encode`, `select` — the candidates of a list of messages, and the choice among the prefixes of a range
* `heeds_select` — a check that answers an error ends the computation with that error, and otherwise changes nothing
-/

namespace Loopex.Runtime.CompactionSource

open Loopex.Erlang Loopex.Erlang.Term Loopex.Protocol Loopex.Protocol.Frame Loopex.Runtime.CompactionSummary
open Loopex.Store (lookup)

/-- `@cap`, `@end_cap`, `@quotas` and `@uint64`. -/
def cap : ℕ := 16384
def endCap : ℕ := 4099
def quotas : List ℕ := [4096, 2048, 1024, 512]
def uint64 : ℕ := 18446744073709551615

def compactionExcerptBudgetTooSmall : Bytes := utf8 "compaction_excerpt_budget_too_small"

/-- A computation that calls the caller's check; the state counts the calls made. -/
abbrev Scan (α : Type) := StateT ℕ (Check Bytes) α

/-- What a scan keeps: a hash context is the bytes it was given. -/
structure Acc where
  count : ℕ
  hash : Bytes
  complete : Option Bytes
  prefixBytes : Bytes
  suffixBytes : Bytes
  deriving DecidableEq

structure Candidate where
  bytes : Bytes
  digest : Bytes
  sourceExcerpted : Bool
  quota : Option ℕ
  messageByteLength : Option ℕ
  deriving DecidableEq

structure Selection where
  source : Candidate
  unitCount : ℕ
  deriving DecidableEq

inductive Form where
  | complete
  | excerpt
  deriving DecidableEq

/-- What the preflight answers. -/
inductive Answer where
  | ok
  | refused
  | error (reason : Bytes)
  | invalid
  deriving DecidableEq

/-- The items of an enumerable, or a term that is none. -/
abbrev Enumeration := Option (List Term)

/-- `{:error, :context_projection_invalid}`. -/
def invalid {α : Type} : Scan α := fun _ => .error contextProjectionInvalid

/-! ## the stream -/

section
-- the answers of the caller's check, call by call
variable (check : ℕ → Option Bytes)

/-- `check.()`. -/
def ask : Scan Unit := fun n =>
  match check n with
  | none => .ok ((), n + 1)
  | some reason => .error reason

/-- The complete text after a chunk; there is none to append to once it was given up. -/
def completed (acc : Acc) (bytes : Bytes) : Check Bytes (Option Bytes) :=
  if acc.count + bytes.length ≤ cap then
    match acc.complete with
    | some text => .ok (some (text ++ bytes))
    | none => .raise .badArgument
  else .ok none

/-- `consume`. -/
def consume (bytes : Bytes) (acc : Acc) : Scan Acc :=
  if bytes = [] then pure acc
  else do
    ask check
    if acc.count + bytes.length ≤ uint64 then do
      let joined := acc.suffixBytes ++ bytes
      let complete ← completed acc bytes
      pure {
        count := acc.count + bytes.length
        hash := acc.hash ++ bytes
        complete
        prefixBytes := acc.prefixBytes ++ bytes.take (endCap - acc.prefixBytes.length)
        suffixBytes := joined.drop (joined.length - endCap) }
    else invalid

/-! ## the encoder -/

/-- `Integer.to_string(n, 16)`. -/
def hexadecimal (n : ℕ) : Bytes :=
  (if n = 0 then [0] else (Nat.digits 16 n).reverse).map fun d => UInt8.ofNat (if d < 10 then 48 + d else 55 + d)

/-- `String.downcase` of hexadecimal digits. -/
def downcase (b : Bytes) : Bytes := b.map fun x => if 65 ≤ x ∧ x ≤ 90 then x + 32 else x

/-- `String.pad_leading(b, n, "0")`. -/
def padLeading (n : ℕ) (b : Bytes) : Bytes := List.replicate (n - b.length) 48 ++ b

/-- `escape`. -/
def escape (code : ℕ) : Bytes :=
  if code = 34 then utf8 "\\\""
  else if code = 92 then utf8 "\\\\"
  else if code = 8 then utf8 "\\b"
  else if code = 12 then utf8 "\\f"
  else if code = 10 then utf8 "\\n"
  else if code = 13 then utf8 "\\r"
  else if code = 9 then utf8 "\\t"
  else if code < 32 then utf8 "\\u" ++ downcase (padLeading 4 (hexadecimal code))
  else utf8Encode code

/-- `string`; the chunks are those since the last one that was consumed, the latest first. -/
def string (rest : Bytes) (chunks : List Bytes) (size : ℕ) (acc : Acc) : Scan Acc :=
  if 1024 ≤ size then do
    let acc ← consume check chunks.reverse.flatten acc
    string rest [] 0 acc
  else
    match rest with
    | [] => consume check chunks.reverse.flatten acc
    | x :: xs =>
      match _h : utf8Decode (x :: xs) with
      | some (character, rest) =>
        string rest (escape character :: chunks) (size + (escape character).length) acc
      | none => invalid
termination_by (rest.length, size)
decreasing_by
  · exact Prod.Lex.right _ (by omega)
  · exact Prod.Lex.left _ _ (utf8Decode_length _h)

section
variable {check} {rest chunksRest : Bytes} {chunks : List Bytes} {size : ℕ} {acc : Acc}

theorem string_full (h : 1024 ≤ size) : string check rest chunks size acc =
    consume check chunks.reverse.flatten acc >>= fun acc => string check rest [] 0 acc := by
  rw [string.eq_def, if_pos h]

theorem string_nil (h : size < 1024) : string check [] chunks size acc = consume check chunks.reverse.flatten acc := by
  rw [string.eq_def, if_neg (by omega)]

theorem string_cons {character : ℕ} {b : Bytes} (h : size < 1024) (hd : utf8Decode b = some (character, rest)) :
    string check b chunks size acc =
      string check rest (escape character :: chunks) (size + (escape character).length) acc := by
  rcases b with _ | ⟨x, xs⟩
  · cases hd
  · rw [string.eq_def, if_neg (by omega)]
    dsimp only
    split
    next heq => rw [hd] at heq; cases heq; rfl
    next heq => rw [hd] at heq; cases heq

theorem string_invalid {x : UInt8} {xs : Bytes} (h : size < 1024) (hd : utf8Decode (x :: xs) = none) :
    string check (x :: xs) chunks size acc = invalid := by
  rw [string.eq_def, if_neg (by omega)]
  dsimp only
  split
  next heq => rw [hd] at heq; cases heq
  next => rfl

end

/-- `number_chunks`. -/
def numberChunks (bytes : Bytes) (acc : Acc) : Scan Acc :=
  if 1024 < bytes.length then do
    let acc ← consume check (bytes.take 1024) acc
    numberChunks (bytes.drop 1024) acc
  else consume check bytes acc
termination_by bytes.length
decreasing_by
  rw [List.length_drop]
  omega

/-- `separated`. -/
def separated {α : Type} (encode : α → Acc → Scan Acc) (first : Bool) (values : List α) (acc : Acc) : Scan Acc :=
  match values with
  | [] => pure acc
  | member :: values => do
    let acc ← consume check (if first then [] else utf8 ",") acc
    let acc ← encode member acc
    separated encode false values acc

/-- The clause of `value` for a binary. -/
def quoted (text : Bytes) (acc : Acc) : Scan Acc := do
  let acc ← consume check (utf8 "\"") acc
  let acc ← string check text [] 0 acc
  consume check (utf8 "\"") acc

/-- The members of a map whose keys are all binaries. -/
def members (kvs : List (Term × Term)) : Option (List (Bytes × Term)) :=
  kvs.mapM fun e => match e.1 with
    | .binary key => some (key, e.2)
    | _ => none

/-- `Enum.sort_by` of the keys. -/
def sorted (ms : List (Bytes × Term)) : List (Bytes × Term) := ms.mergeSort fun a b => a.1 ≤ b.1

/-- `value`, `17 - left` levels deep.  A struct has a key that is no binary; the end of an improper list raises. -/
def value : ℕ → Term → Acc → Scan Acc
  | left + 1, .map kvs, acc =>
    match members kvs with
    | some ms => do
      let acc ← consume check (utf8 "\x7b") acc
      let acc ← separated check (fun m acc => do
        let acc ← quoted check m.1 acc
        let acc ← consume check (utf8 ":") acc
        value left m.2 acc) true (sorted ms) acc
      consume check (utf8 "\x7d") acc
    | none => invalid
  | left + 1, .list xs, acc => do
    let acc ← consume check (utf8 "[") acc
    let acc ← separated check (value left) true xs acc
    consume check (utf8 "]") acc
  | left + 1, .improper xs _, acc => do
    let acc ← consume check (utf8 "[") acc
    let _ ← separated check (value left) true xs acc
    (Check.raise .functionClause : Check Bytes Acc)
  | _, .binary text, acc => quoted check text acc
  | _, .atom a, acc =>
    if a = utf8 "true" then consume check (utf8 "true") acc
    else if a = utf8 "false" then consume check (utf8 "false") acc
    else if a = utf8 "nil" then consume check (utf8 "null") acc
    else invalid
  | _, .int n, acc => numberChunks check (integerToString n) acc
  | _, .float x, acc => consume check x.toBinary acc
  | _, _, _ => invalid

/-! ## messages -/

def isBinary : Term → Bool
  | .binary _ => true
  | _ => false

def isMap : Term → Bool
  | .map _ => true
  | _ => false

/-- `canonical_call?`. -/
def canonicalCall : Term → Bool
  | .map kvs =>
    match lookup (str "tool_call_id") kvs, lookup (str "arguments") kvs with
    | some call, some arguments =>
      match lookup (str "tool_id") kvs, lookup (str "tool_version") kvs, lookup (str "definition_digest") kvs with
      | some id, some version, some digest =>
        kvs.length = 5 && isBinary call && call ≠ str "" && isBinary id && isBinary version && isBinary digest &&
          isMap arguments
      | _, _, _ =>
        match lookup (str "name") kvs with
        | some name => kvs.length = 3 && isBinary call && call ≠ str "" && isBinary name && isMap arguments
        | none => false
    | _, _ => false
  | _ => false

/-- `is_list(calls) and Enum.all?(calls, &canonical_call?/1)`. -/
def canonicalCalls : Term → Check Bytes Bool
  | .list calls => .ok (calls.all canonicalCall)
  | .improper calls _ => if calls.all canonicalCall then .raise .functionClause else .ok false
  | _ => .ok false

/-- The outcomes of a tool. -/
def outcomes : List Term := [str "completed", str "failed", str "denied", str "cancelled", str "outcome_unknown"]

/-- `canonical_message?`. -/
def canonicalMessage : Term → Check Bytes Bool
  | .map kvs =>
    match lookup (str "role") kvs, lookup (str "content") kvs with
    | some role, some text =>
      if role = str "user" then .ok (kvs.length = 2 && isBinary text)
      else if role = str "assistant" then
        match lookup (str "tool_calls") kvs with
        | some calls => if kvs.length = 3 ∧ isBinary text then canonicalCalls calls else .ok false
        | none => .ok false
      else if role = str "tool" then
        match lookup (str "tool_call_id") kvs, lookup (str "outcome") kvs with
        | some call, some outcome => .ok (kvs.length = 4 && isBinary text && isBinary call && outcome ∈ outcomes)
        | _, _ => .ok false
      else .ok false
    | _, _ => .ok false
  | _ => .ok false

/-- An item `{:error, reason}`. -/
def errorItem : Term → Option Bytes
  | .tuple [.atom tag, .atom reason] => if tag = utf8 "error" then some reason else none
  | _ => none

/-- `scan_unit`. -/
def scanUnit : List Term → Acc → Bool → Scan (Acc × Bool)
  | [], acc, first => pure (acc, first)
  | message :: messages, acc, first =>
    match errorItem message with
    | some reason => (Check.error reason : Check Bytes (Acc × Bool))
    | none => do
      if ← canonicalMessage message then do
        let acc ← consume check (if first then [] else utf8 ",") acc
        let acc ← value check 16 message acc
        scanUnit messages acc false
      else invalid

/-- `initial_scan`. -/
def initialScan : Acc where
  count := 0
  hash := []
  complete := some []
  prefixBytes := []
  suffixBytes := []

/-- `scan`. -/
def scan (messages : List Term) : Scan Acc := do
  let initial ← consume check (utf8 "[") initialScan
  let (scanned, first) ← scanUnit check messages initial true
  if first then invalid else consume check (utf8 "]") scanned

end

/-- The digest of a finished scan. -/
def Acc.digest (acc : Acc) : Bytes := hex (sha256 acc.hash)

/-! ## candidates -/

/-- `candidate`. -/
def candidate (bytes : Bytes) (excerpted : Bool) (quota : Option ℕ) : Candidate where
  bytes
  digest := Protocol.Canonical.digestBytes bytes
  sourceExcerpted := excerpted
  quota
  messageByteLength := none

/-- The text of `complete`. -/
def completeBytes (array prior : Bytes) : Bytes :=
  utf8 "\x7b\"messages\":\x7b\"kind\":\"complete\",\"value\":" ++ array ++ utf8 "\x7d,\"prior_checkpoint\":" ++ prior ++
    utf8 ",\"version\":\"loopex.compaction.source.v2\"\x7d"

inductive Side where
  | leading
  | trailing
  deriving DecidableEq

/-- `fragment`. -/
def fragment (buffer : Bytes) (quota : ℕ) (side : Side) : Option Bytes :=
  (List.range 4).findSome? fun extra =>
    let size := quota + extra
    if size ≤ buffer.length then
      let bytes := match side with
        | .leading => buffer.take size
        | .trailing => buffer.drop (buffer.length - size)
      if validUtf8 bytes then some bytes else none
    else none

/-- The value of `excerpts`. -/
def excerptSource (prior : Term) (digest : Bytes) (count : ℕ) (front : Bytes) (offset : ℕ) (back : Bytes) : Term :=
  mapOf [(str "version", str "loopex.compaction.source.v2"), (str "prior_checkpoint", prior),
    (str "messages", mapOf [(str "kind", str "serialized_excerpt"),
      (str "encoding", str "loopex.compaction.messages_json.v1"), (str "sha256", .binary digest),
      (str "byte_length", .int count),
      (str "fragments", .list [mapOf [(str "offset", .int 0), (str "text", .binary front)],
        mapOf [(str "offset", .int offset), (str "text", .binary back)]])])]

section
variable (otherString : Term → Option Bytes)

/-- `complete`. -/
def complete (scanned : Acc) (prior : Term) : Check Bytes (List Candidate) :=
  match scanned.complete with
  | none => .ok []
  | some array => do
    let bytes := completeBytes array (← json otherString prior)
    .ok (if bytes.length ≤ cap then [{ candidate bytes false none with messageByteLength := some scanned.count }]
      else [])

/-- The excerpt of one quota. -/
def excerpt (scanned : Acc) (prior : Term) (quota : ℕ) : Check Bytes (List Candidate) :=
  match fragment scanned.prefixBytes quota .leading, fragment scanned.suffixBytes quota .trailing with
  | some front, some back =>
    let offset := scanned.count - back.length
    if front.length < offset then do
      let bytes ← json otherString (excerptSource prior scanned.digest scanned.count front offset back)
      .ok (if bytes.length ≤ cap then [candidate bytes true (some quota)] else [])
    else .ok []
  | _, _ => .ok []

/-- `excerpts`. -/
def excerpts (scanned : Acc) (prior : Term) : Check Bytes (List Candidate) := do
  let candidates := (← quotas.mapM (excerpt otherString scanned prior)).flatten
  if candidates = [] then .error compactionExcerptBudgetTooSmall else .ok candidates

/-- `valid_prior`. -/
def validPrior (prior : Term) : Check Bytes Unit :=
  if prior = nil then .ok () else validatePrior otherString prior

variable (check : ℕ → Option Bytes)

/-- `encode`. -/
def encode (messages : Enumeration) (prior : Term) (form : Form) : Scan (List Candidate) :=
  match messages with
  | none => invalid
  | some messages => do
    validPrior otherString prior
    let scanned ← scan check messages
    match form with
    | .complete => complete otherString scanned prior
    | .excerpt => excerpts otherString scanned prior

/-! ## selection -/

variable (preflight : Candidate → ℕ → Answer)

/-- `prefix_candidate`. -/
def prefixCandidate (acc : Acc) (prior : Term) : Check Bytes (List Candidate) :=
  match acc.complete with
  | none => .ok []
  | some text => complete otherString { acc with complete := some (text ++ utf8 "]"), count := acc.count + 1 } prior

/-- `admit_prefix`. -/
def admitPrefix (candidates : List Candidate) (index : ℕ) (best : Option Selection) : Scan (Option Selection) :=
  match candidates with
  | [] => pure best
  | [source] => do
    ask check
    match preflight source index with
    | .ok => pure (some ⟨source, index⟩)
    | .refused => pure best
    | .error reason => (Check.error reason : Check Bytes (Option Selection))
    | .invalid => invalid
  | _ => (Check.raise .functionClause : Check Bytes (Option Selection))

/-- The loop of `complete_prefixes`. -/
def admitPrefixes (prior : Term) : List Enumeration → ℕ → Acc → Bool → Option Selection → Scan (Option Selection)
  | [], _, _, _, best => pure best
  | unit :: units, index, acc, first, best => do
    ask check
    match unit with
    | none => invalid
    | some messages => do
      let (scanned, first) ← scanUnit check messages acc first
      if first = false ∧ acc.count < scanned.count then do
        let candidates ← prefixCandidate otherString scanned prior
        let best ← admitPrefix check preflight candidates index best
        if candidates = [] then pure best else admitPrefixes prior units (index + 1) scanned false best
      else invalid

/-- `complete_prefixes`. -/
def completePrefixes (units : List Enumeration) (prior : Term) : Scan (Option Selection) := do
  let initial ← consume check (utf8 "[") initialScan
  admitPrefixes otherString check preflight prior units 1 initial true none

/-- The loop of `select_excerpt`. -/
def admitExcerpt (candidates : List Candidate) (count : ℕ) : Scan Selection :=
  match candidates with
  | [] => (Check.error compactionExcerptBudgetTooSmall : Check Bytes Selection)
  | source :: candidates => do
    ask check
    match preflight source count with
    | .ok => pure ⟨source, count⟩
    | .refused => admitExcerpt candidates count
    | .error reason => (Check.error reason : Check Bytes Selection)
    | .invalid => invalid

/-- `select_excerpt`; a unit that is no enumerable has no items to chain. -/
def selectExcerpt (units : List Enumeration) (count : ℕ) (prior : Term) : Scan Selection :=
  match (units.take count).mapM id with
  | none => (Check.raise .undefinedFunction : Check Bytes Selection)
  | some units => do
    let candidates ← encode otherString check (some units.flatten) prior .excerpt
    admitExcerpt check preflight candidates count

/-- `select`. -/
def select (units : List Enumeration) (prior : Term) : Scan (Option Selection) := do
  validPrior otherString prior
  let best ← completePrefixes otherString check preflight units prior
  if units = [] then pure none
  else match best with
  | none => some <$> selectExcerpt otherString check preflight units 1 prior
  | some best =>
    if best.unitCount < units.length then
      match best.source.messageByteLength with
      | none => (Check.raise .badKey : Check Bytes (Option Selection))
      | some length =>
        if length ≤ 6144 then some <$> selectExcerpt otherString check preflight units (best.unitCount + 1) prior
        else pure (some best)
    else pure (some best)

end

/-! ## the caller's check -/

/-- A check that answers an error ends the computation with it; the answers change nothing else. -/
def Heeds {α : Type} (m : (ℕ → Option Bytes) → Scan α) : Prop :=
  ∀ check n, m check n = m (fun _ => none) n ∨ ∃ i reason, check i = some reason ∧ m check n = .error reason

section Heeds

variable {α β : Type} {otherString : Term → Option Bytes} {preflight : Candidate → ℕ → Answer}

theorem heeds_const (m : Scan α) : Heeds fun _ => m := fun _ _ => .inl rfl

theorem heeds_ask : Heeds ask := by
  intro check n
  rcases h : check n with _ | reason
  · exact .inl (by simp [ask, h])
  · exact .inr ⟨n, reason, h, by simp [ask, h]⟩

theorem Heeds.congr {m m' : (ℕ → Option Bytes) → Scan α} (hm : Heeds m') (h : ∀ check, m check = m' check) :
    Heeds m := by
  intro check n
  rw [h, h]
  exact hm check n

theorem Heeds.bind {m : (ℕ → Option Bytes) → Scan α} {f : (ℕ → Option Bytes) → α → Scan β} (hm : Heeds m)
    (hf : ∀ a, Heeds fun check => f check a) : Heeds fun check => m check >>= f check := by
  intro check n
  have hbind : ∀ check, (m check >>= f check) n = m check n >>= fun p => f check p.1 p.2 := fun _ => rfl
  dsimp only
  rw [hbind, hbind]
  rcases hm check n with h | ⟨i, reason, hi, h⟩
  · rw [h]
    rcases hok : m (fun _ => none) n with p | reason | x
    · exact hf p.1 check p.2
    · exact .inl rfl
    · exact .inl rfl
  · exact .inr ⟨i, reason, hi, by rw [h]; rfl⟩

theorem heeds_consume (bytes : Bytes) (acc : Acc) : Heeds fun check => consume check bytes acc := by
  unfold consume
  by_cases hb : bytes = []
  · simpa only [if_pos hb] using heeds_const _
  · simp only [if_neg hb]
    exact heeds_ask.bind fun _ => heeds_const _

theorem heeds_string (rest : Bytes) (chunks : List Bytes) (size : ℕ) (acc : Acc) :
    Heeds fun check => string check rest chunks size acc := by
  induction rest, chunks, size, acc using string.induct with
  | case1 rest chunks size acc hsize ih =>
    exact Heeds.congr ((heeds_consume _ _).bind fun acc => ih acc) fun check => string_full hsize
  | case2 chunks size acc hsize =>
    exact Heeds.congr (heeds_consume _ _) fun check => string_nil (by omega)
  | case3 chunks size acc hsize x xs character rest hdecode ih =>
    exact ih.congr fun check => string_cons (by omega) hdecode
  | case4 chunks size acc hsize x xs hdecode =>
    exact (heeds_const invalid).congr fun check => string_invalid (by omega) hdecode

theorem heeds_numberChunks (bytes : Bytes) (acc : Acc) : Heeds fun check => numberChunks check bytes acc := by
  induction bytes, acc using numberChunks.induct with
  | case1 bytes acc hsize ih =>
    exact Heeds.congr ((heeds_consume _ _).bind fun acc => ih acc) fun check => by rw [numberChunks, if_pos hsize]
  | case2 bytes acc hsize =>
    exact (heeds_consume _ _).congr fun check => by rw [numberChunks, if_neg hsize]

theorem heeds_quoted (text : Bytes) (acc : Acc) : Heeds fun check => quoted check text acc :=
  (heeds_consume _ _).bind fun _ => (heeds_string _ _ _ _).bind fun _ => heeds_consume _ _

theorem heeds_separated {encode : (ℕ → Option Bytes) → α → Acc → Scan Acc}
    (h : ∀ a acc, Heeds fun check => encode check a acc) (first : Bool) (values : List α) (acc : Acc) :
    Heeds fun check => separated check (encode check) first values acc := by
  induction values generalizing first acc with
  | nil => exact heeds_const _
  | cons a values ih => exact (heeds_consume _ _).bind fun _ => (h _ _).bind fun _ => ih _ _

theorem heeds_value (left : ℕ) (t : Term) (acc : Acc) : Heeds fun check => value check left t acc := by
  have hatom : ∀ a acc, Heeds fun check =>
      (if a = utf8 "true" then consume check (utf8 "true") acc
        else if a = utf8 "false" then consume check (utf8 "false") acc
        else if a = utf8 "nil" then consume check (utf8 "null") acc
        else invalid) := by
    intro a acc
    by_cases h1 : a = utf8 "true"
    · simpa only [if_pos h1] using heeds_consume _ _
    by_cases h2 : a = utf8 "false"
    · simpa only [if_neg h1, if_pos h2] using heeds_consume _ _
    by_cases h3 : a = utf8 "nil"
    · simpa only [if_neg h1, if_neg h2, if_pos h3] using heeds_consume _ _
    · simpa only [if_neg h1, if_neg h2, if_neg h3] using heeds_const _
  induction left generalizing t acc with
  | zero =>
    cases t with
    | binary text => exact heeds_quoted _ _
    | atom a => exact hatom a acc
    | int n => exact heeds_numberChunks _ _
    | float x => exact heeds_consume _ _
    | _ => exact heeds_const _
  | succ left ih =>
    cases t with
    | map kvs =>
      simp only [value]
      rcases members kvs with _ | ms
      · exact heeds_const _
      · refine (heeds_consume _ _).bind fun acc => Heeds.bind (heeds_separated (fun m acc => ?_) _ _ _) fun acc =>
          heeds_consume _ _
        exact (heeds_quoted _ _).bind fun _ => (heeds_consume _ _).bind fun _ => ih _ _
    | list xs =>
      exact (heeds_consume _ _).bind fun _ => (heeds_separated ih _ _ _).bind fun _ => heeds_consume _ _
    | improper xs tail =>
      exact (heeds_consume _ _).bind fun _ => (heeds_separated ih _ _ _).bind fun _ => heeds_const _
    | binary text => exact heeds_quoted _ _
    | atom a => exact hatom a acc
    | int n => exact heeds_numberChunks _ _
    | float x => exact heeds_consume _ _
    | _ => exact heeds_const _

theorem heeds_scanUnit (messages : List Term) (acc : Acc) (first : Bool) :
    Heeds fun check => scanUnit check messages acc first := by
  induction messages generalizing acc first with
  | nil => exact heeds_const _
  | cons message messages ih =>
    simp only [scanUnit]
    rcases errorItem message with _ | reason
    · refine (heeds_const _).bind fun canonical => ?_
      cases canonical with
      | true => exact (heeds_consume _ _).bind fun _ => (heeds_value _ _ _).bind fun _ => ih _ _
      | false => exact heeds_const _
    · exact heeds_const _

theorem heeds_scan (messages : List Term) : Heeds fun check => scan check messages := by
  refine (heeds_consume _ _).bind fun initial => (heeds_scanUnit _ _ _).bind fun p => ?_
  obtain ⟨scanned, first⟩ := p
  cases first with
  | true => exact heeds_const _
  | false => simpa using heeds_consume _ _

theorem heeds_encode (messages : Enumeration) (prior : Term) (form : Form) :
    Heeds fun check => encode otherString check messages prior form := by
  rcases messages with _ | messages
  · exact heeds_const _
  · exact (heeds_const _).bind fun _ => (heeds_scan _).bind fun _ => heeds_const _

theorem heeds_admitPrefix (candidates : List Candidate) (index : ℕ) (best : Option Selection) :
    Heeds fun check => admitPrefix check preflight candidates index best := by
  rcases candidates with _ | ⟨source, _ | ⟨other, rest⟩⟩
  · exact heeds_const _
  · exact heeds_ask.bind fun _ => heeds_const _
  · exact heeds_const _

theorem heeds_admitPrefixes (prior : Term) (units : List Enumeration) (index : ℕ) (acc : Acc) (first : Bool)
    (best : Option Selection) :
    Heeds fun check => admitPrefixes otherString check preflight prior units index acc first best := by
  induction units generalizing index acc first best with
  | nil => exact heeds_const _
  | cons unit units ih =>
    refine heeds_ask.bind fun _ => ?_
    rcases unit with _ | messages
    · exact heeds_const _
    · refine (heeds_scanUnit _ _ _).bind fun p => ?_
      obtain ⟨scanned, first⟩ := p
      by_cases hp : first = false ∧ acc.count < scanned.count
      · simp only [if_pos hp]
        refine (heeds_const _).bind fun candidates => (heeds_admitPrefix _ _ _).bind fun best => ?_
        by_cases hc : candidates = []
        · simpa only [if_pos hc] using heeds_const _
        · simpa only [if_neg hc] using ih _ _ _ _
      · simpa only [if_neg hp] using heeds_const _

theorem heeds_admitExcerpt (candidates : List Candidate) (count : ℕ) :
    Heeds fun check => admitExcerpt check preflight candidates count := by
  induction candidates with
  | nil => exact heeds_const _
  | cons source candidates ih =>
    simp only [admitExcerpt]
    refine heeds_ask.bind fun _ => ?_
    rcases preflight source count with _ | _ | reason | _
    · exact heeds_const _
    · exact ih
    · exact heeds_const _
    · exact heeds_const _

theorem heeds_selectExcerpt (units : List Enumeration) (count : ℕ) (prior : Term) :
    Heeds fun check => selectExcerpt otherString check preflight units count prior := by
  unfold selectExcerpt
  rcases (units.take count).mapM id with _ | units
  · exact heeds_const _
  · exact (heeds_encode _ _ _).bind fun _ => heeds_admitExcerpt _ _

/-- **A selection is that of a check which always answers ok, or the error a check answered.** -/
theorem heeds_select (units : List Enumeration) (prior : Term) :
    Heeds fun check => select otherString check preflight units prior := by
  have hexcerpt : ∀ count, Heeds fun check =>
      some <$> selectExcerpt otherString check preflight units count prior := by
    intro count
    have hbind := (@heeds_selectExcerpt otherString preflight units count prior).bind
      fun s => heeds_const (pure (some s))
    exact hbind.congr fun check => map_eq_pure_bind _ _
  refine (heeds_const _).bind fun _ => ?_
  refine Heeds.bind ((heeds_consume _ _).bind fun _ => heeds_admitPrefixes _ _ _ _ _ _) fun best => ?_
  by_cases hu : units = []
  · simpa only [if_pos hu] using heeds_const _
  simp only [if_neg hu]
  rcases best with _ | best
  · exact hexcerpt 1
  by_cases hcount : best.unitCount < units.length
  · simp only [if_pos hcount]
    rcases best.source.messageByteLength with _ | length
    · exact heeds_const _
    by_cases hlength : length ≤ 6144
    · simpa only [if_pos hlength] using hexcerpt _
    · simpa only [if_neg hlength] using heeds_const _
  · simpa only [if_neg hcount] using heeds_const _

end Heeds

end Loopex.Runtime.CompactionSource
