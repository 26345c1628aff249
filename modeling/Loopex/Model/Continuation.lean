import Loopex.Model.ContentReferences

/-!
# Continuations

`Continuation.expand`: an envelope of capsules accompanies the messages of a request; every entry names an assistant
message and binds each of its calls to a tool result behind it.

* `calls`, `entries`, `expand` — the expansion
* `renderIds` — the identities the history is rendered with: those of the envelope where it has an entry
* `Bound`, `Chained` — the calls of an entry, and the entries of an envelope, each behind the one before
* `expand_bound` — what an accepted envelope is
* `references_expand` — references expand to exactly the reply
-/

namespace Loopex.Model.Continuation

open Loopex.Erlang Loopex.Erlang.Term Loopex.Runtime
open Loopex.Store (lookup)

def envelopeKeys : List String :=
  ["format", "provider", "model", "configuration_version", "exchange_id", "base_request_digest", "entries"]
def entryKeys : List String := ["source", "assistant_message_index", "calls", "capsule"]
def sourceKeys : List String := ["run_id", "turn_id", "operation_id", "attempt", "settlement_digest"]
def callKeys : List String := ["canonical_call_id", "native_id", "result_message_index"]

def uint64Max : ℤ := 18446744073709551615

/-- `valid_source?`. -/
def validSource (source : Term) : Bool :=
  closed source sourceKeys && (["run_id", "turn_id", "operation_id"].all fun key => isText (get source key)) &&
    (get source "attempt" = .int 1 || get source "attempt" = .int 2) && isDigest (get source "settlement_digest")

/-- `Map.take(source, _)`: what a source is known by. -/
def identityOf : Term → Term
  | .map kvs =>
    .map (kvs.filter fun e => e.1 ∈ [str "run_id", str "turn_id", str "operation_id", str "attempt"])
  | t => t

/-- `at`. -/
def messageAt (messages : List Term) (index : ℤ) : Option Term :=
  if 0 ≤ index then messages[index.toNat]? else none

/-- The tags of the identities seen so far. -/
inductive IdKind where
  | canonical | native
  deriving DecidableEq

/-- What a list of native identities is taken from. -/
def nativeIds (content : Term) : List Term :=
  match content with
  | .list nodes => nodes.filterMap fun t =>
    if fetch t "kind" = some (str "tool_use_ref") then fetch t "native_id" else none
  | _ => []

/-- The pattern of a tool result. -/
def isResult (message id : Term) : Bool :=
  fetch message "role" = some (str "tool") && fetch message "tool_call_id" = some id

section
variable (structGet : Bytes → Term → Term → Check Unit Term)

/-- `calls`: the bindings of an entry against the calls of its message. -/
def calls (messages : List Term) : List Term → List Term → List Term → ℤ → List (IdKind × Term) →
    Check Unit (ℤ × List (IdKind × Term))
  | [], [], [], previous, ids => .ok (previous, ids)
  | binding :: rest, call :: remaining, native :: natives, previous, ids => do
    Check.require (closed binding callKeys) ()
    let id ← access structGet call (str "tool_call_id")
    Check.require (isText id && looseEq (get binding "canonical_call_id") id) ()
    Check.require (looseEq (get binding "native_id") native) ()
    Check.require ((IdKind.canonical, id) ∉ ids) ()
    Check.require ((IdKind.native, native) ∉ ids) ()
    match get binding "result_message_index" with
    | .int index => do
      Check.require (previous < index) ()
      Check.require ((messageAt messages index).any fun message => isResult message id) ()
      calls messages rest remaining natives index ((.native, native) :: (.canonical, id) :: ids)
    | _ => .error ()
  | _, _, _, _, _ => .error ()

/-- The assistant message of an entry: its text and its calls, where `is_list`, `length` and `is_map` hold. -/
def assistantMessage (message : Term) : Check Unit (Term × List Term) :=
  match fetch message "content", fetch message "tool_calls" with
  | some text, some (.list calls) => do
    Check.require (fetch message "role" = some (str "assistant")) ()
    Check.require (calls ≠ [] ∧ calls.length ≤ 128) ()
    Check.require (calls.all isMap) ()
    .ok (text, calls)
  | some _, some (.improper _ _) =>
    if fetch message "role" = some (str "assistant") then .raise .badArgument else .error ()
  | _, _ => .error ()

/-- `entries`. -/
def entries (messages : List Term) (envelope : Term) : List Term → ℤ → ℕ → ℤ → List Term → List (IdKind × Term) →
    List Term → Check Unit (List Term)
  | [], _, _, _, _, _, reversed => .ok reversed.reverse
  | entry :: rest, previous, blocks, budget, sources, ids, reversed => do
    Check.require (closed entry entryKeys) ()
    let source := get entry "source"
    Check.require (validSource source) ()
    Check.require (looseEq (get source "operation_id") (get envelope "exchange_id") || reversed ≠ []) ()
    Check.require (reversed.head?.all fun first =>
      looseEq (get source "run_id") (get (get first "source") "run_id")) ()
    let identity := identityOf source
    Check.require (identity ∉ sources) ()
    match get entry "assistant_message_index" with
    | .int index => do
      Check.require (previous < index) ()
      let message ← Check.ofOption (messageAt messages index) ()
      let (text, messageCalls) ← assistantMessage message
      -- the envelope was measured, so that no map in it is a struct
      let capsule := get entry "capsule"
      Check.require (isMap capsule) ()
      Check.require (looseEq (get capsule "model") (get envelope "model") &&
        looseEq (get capsule "status") (str "open")) ()
      let arguments := messageCalls.map fun call => get call "arguments"
      let native ← Check.ofOption (ContentReferences.expand capsule text (.list arguments)) ()
      Check.require (blocks + List.length native ≤ 128) ()
      let bindings ← Check.ofOption (ContentReferences.listOf (get entry "calls")) ()
      let (last, ids) ← calls structGet messages bindings messageCalls (nativeIds (get capsule "content")) index ids
      let expanded := updateKey "capsule" (updateKey "content" (.list native) capsule) entry
      let size ← Check.ofOption (jsonSize expanded) ()
      let remaining := budget - size - if reversed = [] then 0 else 1
      Check.require (0 ≤ remaining) ()
      entries messages envelope rest last (blocks + List.length native) remaining (identity :: sources) ids
        (expanded :: reversed)
    | _ => .error ()

/-- `canonical_ids`. -/
def canonicalIds (message : Term) : Check Unit (List Term) :=
  match message with
  | .map kvs =>
    if lookup (str "role") kvs = some (str "assistant") then
      match (lookup (str "tool_calls") kvs).getD (.list []) with
      | .list calls => do
        Check.require (calls.length ≤ 128) ()
        calls.forM fun call => do
          Check.require (isMap call) ()
          Check.require (isText (← access structGet call (str "tool_call_id"))) ()
        calls.mapM fun call => access structGet call (str "tool_call_id")
      | .improper _ _ => .raise .badArgument
      | _ => .error ()
    else .ok []
  | _ => .error ()

/-- The native identities that stand for the calls of a message; a later entry replaces an earlier one. -/
def replacements (entries : List Term) : List (Term × List Term) :=
  (entries.map fun entry => (get entry "assistant_message_index",
    ((ContentReferences.listOf (get entry "calls")).getD []).map fun call => get call "native_id")).reverse

/-- `rendered_ids`, from a message on. -/
def renderIds (replaced : List (Term × List Term)) : List Term → ℕ → List Term → Check Unit (List Term)
  | [], _, ids => .ok ids
  | message :: rest, index, ids =>
    match replaced.lookup (.int index) with
    | some native => renderIds replaced rest (index + 1) (native ++ ids)
    | none => do
      let canonical ← canonicalIds structGet message
      renderIds replaced rest (index + 1) (canonical ++ ids)

/-- The proper list that `length` takes. -/
def properList : Term → Check Unit (List Term)
  | .list xs => .ok xs
  | .improper _ _ => .raise .badArgument
  | _ => .error ()

/-- `expand`. -/
def expand (envelope model messages : Term) : Check Unit Term :=
  if envelope = nil then .ok nil
  else do
    Check.require (isMap envelope) ()
    Check.require (match messages with | .list _ | .improper _ _ => true | _ => false) ()
    Check.require (closed envelope envelopeKeys) ()
    Check.require (looseEq (get envelope "format") ContentReferences.format &&
      looseEq (get envelope "provider") (str "anthropic")) ()
    Check.require (looseEq (get envelope "model") model && isText model) ()
    Check.require (match get envelope "configuration_version" with
      | .int version => 1 ≤ version && version ≤ uint64Max
      | _ => false) ()
    Check.require (isText (get envelope "exchange_id") && isDigest (get envelope "base_request_digest")) ()
    let _ ← Check.ofOption (jsonSize envelope) ()
    let listed ← Check.ofOption (ContentReferences.listOf (get envelope "entries")) ()
    Check.require (1 ≤ listed.length ∧ listed.length ≤ 32) ()
    let messages ← properList messages
    Check.require (messages.length ≤ 1024) ()
    let overhead ← Check.ofOption (jsonSize (updateKey "entries" (.list []) envelope)) ()
    let expanded ← entries structGet messages envelope listed (-1) 0 (limit - overhead) [] [] []
    let result := updateKey "entries" (.list expanded) envelope
    let _ ← Check.ofOption (jsonSize result) ()
    let ids ← renderIds structGet (replacements listed) messages 0 []
    Check.require (ids.length = ids.dedup.length) ()
    .ok result

/-! ## bindings -/

/-- The calls of a message, each bound to a tool result behind the message and behind the results before it. -/
inductive Bound (messages : List Term) : ℤ → List Term → List Term → ℤ → Prop
  | nil {previous : ℤ} : Bound messages previous [] [] previous
  | cons {previous index last : ℤ} {binding call id message : Term} {bindings remaining : List Term} :
      access structGet call (str "tool_call_id") = .ok id → get binding "canonical_call_id" = id →
      get binding "result_message_index" = .int index → previous < index → messageAt messages index = some message →
      isResult message id = true → Bound messages index bindings remaining last →
      Bound messages previous (binding :: bindings) (call :: remaining) last

/-- The entries of an envelope, each bound to an assistant message behind the last result before it. -/
inductive Chained (messages : List Term) : ℤ → List Term → Prop
  | nil {previous : ℤ} : Chained messages previous []
  | cons {previous index last : ℤ} {entry message : Term} {rest messageCalls bindings : List Term} :
      get entry "assistant_message_index" = .int index → previous < index → messageAt messages index = some message →
      fetch message "role" = some (str "assistant") → fetch message "tool_calls" = some (.list messageCalls) →
      get entry "calls" = .list bindings → Bound structGet messages index bindings messageCalls last →
      Chained messages last rest →
      Chained messages previous (entry :: rest)

/-- The identities a message is rendered with. -/
def Rendered (replaced : List (Term × List Term)) (index : ℕ) (message : Term) (ids : List Term) : Prop :=
  match replaced.lookup (.int index) with
  | some native => ids = native
  | none => canonicalIds structGet message = .ok ids

/-- The indices of the tool results an entry names. -/
def resultIndices (entry : Term) : List Term :=
  ((ContentReferences.listOf (get entry "calls")).getD []).map fun binding => get binding "result_message_index"

variable {structGet} {messages : List Term} {envelope : Term}

theorem isText_eq {t : Term} (h : isText t = true) : ∃ b, t = .binary b := by
  unfold isText at h
  split at h
  · exact ⟨_, rfl⟩
  · cases h

/-- **The calls of an entry are bound.** -/
theorem calls_bound {bindings remaining natives : List Term} {previous last : ℤ} {ids ids' : List (IdKind × Term)}
    (h : calls structGet messages bindings remaining natives previous ids = .ok (last, ids')) :
    Bound structGet messages previous bindings remaining last := by
  induction bindings generalizing remaining natives previous ids with
  | nil =>
    cases remaining <;> cases natives <;> simp only [calls] at h <;> cases h
    exact .nil
  | cons binding bindings ih =>
    cases remaining with
    | nil => cases h
    | cons call remaining =>
    cases natives with
    | nil => cases h
    | cons native natives =>
    simp only [calls, Check.bind_eq_ok, Check.require_eq_ok, Bool.and_eq_true] at h
    obtain ⟨_, -, id, hid, _, ⟨htext, hcanonical⟩, _, -, _, -, _, -, h⟩ := h
    split at h <;> [skip; cases h]
    next index hindex =>
    simp only [Check.bind_eq_ok, Check.require_eq_ok, decide_eq_true_eq, Option.any_eq_true] at h
    obtain ⟨_, hlt, _, ⟨message, hmessage, hresult⟩, h⟩ := h
    obtain ⟨b, rfl⟩ := isText_eq htext
    exact .cons hid (loosen_eq_binary (looseEq_iff.1 hcanonical)) hindex hlt hmessage hresult (ih h)

theorem assistantMessage_ok {message text : Term} {messageCalls : List Term}
    (h : assistantMessage message = .ok (text, messageCalls)) :
    fetch message "role" = some (str "assistant") ∧ fetch message "tool_calls" = some (.list messageCalls) := by
  unfold assistantMessage at h
  split at h
  · next text' messageCalls' hcontent hcalls =>
    simp only [Check.bind_eq_ok, Check.require_eq_ok, decide_eq_true_eq, Check.ok.injEq, Prod.mk.injEq] at h
    obtain ⟨_, hrole, _, -, _, -, -, rfl⟩ := h
    exact ⟨hrole, hcalls⟩
  · split at h <;> cases h
  · cases h

theorem listOf_eq_some {t : Term} {xs : List Term} : ContentReferences.listOf t = some xs ↔ t = .list xs := by
  cases t <;> simp [ContentReferences.listOf]

/-- **The entries of an envelope are chained.** -/
theorem entries_chained {es out sources reversed : List Term} {previous : ℤ} {blocks : ℕ} {budget : ℤ}
    {ids : List (IdKind × Term)}
    (h : entries structGet messages envelope es previous blocks budget sources ids reversed = .ok out) :
    Chained structGet messages previous es := by
  induction es generalizing previous blocks budget sources ids reversed with
  | nil => exact .nil
  | cons entry rest ih =>
    simp only [entries, Check.bind_eq_ok, Check.require_eq_ok] at h
    obtain ⟨_, -, _, -, _, -, _, -, _, -, h⟩ := h
    split at h <;> [skip; cases h]
    next index hindex =>
    simp only [Check.bind_eq_ok, Check.require_eq_ok, Check.ofOption_eq_ok, decide_eq_true_eq, Prod.exists] at h
    obtain ⟨_, hlt, message, hmessage, text, messageCalls, hassistant, _, -, _, -, native, -, _, -, bindings, hbindings,
      last, ids', hcalls, size, -, _, -, h⟩ := h
    obtain ⟨hrole, htool⟩ := assistantMessage_ok hassistant
    exact .cons hindex hlt hmessage hrole htool (listOf_eq_some.1 hbindings) (calls_bound hcalls) (ih h)

/-- The results of an entry lie behind each other. -/
theorem Bound.indices {bindings remaining : List Term} {previous last : ℤ}
    (h : Bound structGet messages previous bindings remaining last) : previous ≤ last ∧ ∃ ns : List ℤ,
      (bindings.map fun binding => get binding "result_message_index") = ns.map .int ∧ ns.Pairwise (· < ·) ∧
        ∀ n ∈ ns, previous < n ∧ n ≤ last := by
  induction h with
  | nil => exact ⟨le_rfl, [], rfl, .nil, by simp⟩
  | @cons previous index last _ _ _ _ _ _ _ _ hindex hlt _ _ _ ih =>
    obtain ⟨hle, ns, hns, hpair, hbetween⟩ := ih
    refine ⟨by omega, index :: ns, by rw [List.map_cons, List.map_cons, hindex, hns], ?_, ?_⟩
    · exact List.pairwise_cons.2 ⟨fun n hn => (hbetween n hn).1, hpair⟩
    · intro n hn
      rcases List.mem_cons.1 hn with rfl | hn
      · exact ⟨hlt, hle⟩
      · have := hbetween n hn
        exact ⟨by omega, this.2⟩

theorem Chained.indices {es : List Term} {previous : ℤ} (h : Chained structGet messages previous es) :
    ∃ ns : List ℤ, es.flatMap resultIndices = ns.map .int ∧ ns.Pairwise (· < ·) ∧ ∀ n ∈ ns, previous < n := by
  induction h with
  | nil => exact ⟨[], rfl, .nil, by simp⟩
  | cons _ hlt _ _ _ hbindings hbound _ ih =>
    obtain ⟨hle, ns, hns, hpair, hbetween⟩ := hbound.indices
    obtain ⟨ms, hms, hpair', hlater⟩ := ih
    refine ⟨ns ++ ms, ?_, List.pairwise_append.2 ⟨hpair, hpair', fun n hn m hm => ?_⟩, fun n hn => ?_⟩
    · rw [List.flatMap_cons, hms, List.map_append, ← hns, resultIndices, hbindings]
      rfl
    · have := hbetween n hn
      have := hlater m hm
      omega
    · rcases List.mem_append.1 hn with hn | hn
      · have := hbetween n hn
        omega
      · have := hlater n hn
        omega

/-- **No two calls share a result.** -/
theorem Chained.own {es : List Term} {previous : ℤ} (h : Chained structGet messages previous es) :
    (es.flatMap resultIndices).Nodup := by
  obtain ⟨ns, hns, hpair, -⟩ := h.indices
  rw [hns]
  refine List.Nodup.map (fun a b hab => Term.int.inj hab) (hpair.imp fun hlt => ?_)
  omega

/-- **What is rendered**, message by message. -/
theorem renderIds_rendered {replaced : List (Term × List Term)} {ms out ids : List Term} {index : ℕ}
    (h : renderIds structGet replaced ms index ids = .ok out) : ∃ parts : List (List Term),
      parts.length = ms.length ∧ out = parts.reverse.flatten ++ ids ∧
        ∀ i message part, ms[i]? = some message → parts[i]? = some part →
          Rendered structGet replaced (index + i) message part := by
  induction ms generalizing index ids with
  | nil =>
    cases h
    exact ⟨[], rfl, rfl, by simp⟩
  | cons message ms ih =>
    have hpart : ∃ part, Rendered structGet replaced index message part ∧
        renderIds structGet replaced ms (index + 1) (part ++ ids) = .ok out := by
      rw [renderIds] at h
      unfold Rendered
      split at h
      · exact ⟨_, rfl, h⟩
      · exact Check.bind_eq_ok.1 h
    obtain ⟨part, hpart, h⟩ := hpart
    obtain ⟨parts, hlen, rfl, hrest⟩ := ih h
    refine ⟨part :: parts, by simp [hlen], by simp, fun i message' part' hm hp => ?_⟩
    cases i with
    | zero =>
      cases hm
      cases hp
      exact hpart
    | succ i =>
      have := hrest i message' part' (by simpa using hm) (by simpa using hp)
      rwa [show index + (i + 1) = index + 1 + i by omega]

/-- **An accepted envelope.**  No two identities of the rendered history are alike, every call is bound to its own
later result, and the expanded envelope is written within the limit. -/
theorem expand_bound {model messages result : Term} (hne : envelope ≠ nil)
    (h : expand structGet envelope model messages = .ok result) : ∃ (ms es : List Term) (parts : List (List Term)),
      messages = .list ms ∧ get envelope "entries" = .list es ∧ parts.length = ms.length ∧
      (∀ i message part, ms[i]? = some message → parts[i]? = some part →
        Rendered structGet (replacements es) i message part) ∧
      parts.flatten.Nodup ∧ Chained structGet ms (-1) es ∧ (es.flatMap resultIndices).Nodup ∧
      ∃ image, compact result = some image ∧ image.length ≤ limit := by
  unfold expand at h
  rw [if_neg hne] at h
  simp only [Check.bind_eq_ok, Check.require_eq_ok, Check.ofOption_eq_ok, decide_eq_true_eq] at h
  obtain ⟨_, -, _, -, _, -, _, -, _, -, _, -, _, -, _, -, es, hes, _, -, ms, hms, _, -, overhead, -, expanded, hentries,
    size, hsize, ids, hids, _, hdistinct, h⟩ := h
  obtain rfl := Check.ok.inj h
  have hms : messages = .list ms := by
    unfold properList at hms
    split at hms <;> cases hms
    rfl
  obtain ⟨parts, hlen, rfl, hrendered⟩ := renderIds_rendered hids
  have hchained := entries_chained hentries
  obtain ⟨⟨image, himage, rfl⟩, hlimit, -⟩ := jsonSize_eq_some.1 hsize
  refine ⟨ms, es, parts, hms, listOf_eq_some.1 hes, hlen, by simpa using hrendered, ?_, hchained, hchained.own, image,
    himage, by omega⟩
  rw [List.append_nil] at hdistinct
  have hnodup : parts.reverse.flatten.Nodup := by
    rw [← (List.dedup_sublist _).eq_of_length hdistinct.symm]
    exact List.nodup_dedup _
  exact (List.reverse_perm parts).flatten.nodup_iff.1 hnodup

end

/-- **References expand to exactly the reply.** -/
theorem references_expand :
    (∀ capsule text arguments blocks, ContentReferences.expand capsule text arguments = some blocks →
      ∃ b given content slices, text = .binary b ∧ arguments = .list given ∧ get capsule "content" = .list content ∧
        ContentReferences.Assembled 0 content blocks slices given ∧ slices.flatten = b ∧
        (∀ slice ∈ slices, validUtf8 slice = true) ∧
        ∃ image, compact (updateKey "content" (.list blocks) capsule) = some image ∧ image.length ≤ limit) ∧
    (∀ t image, compact t = some image → jsonSize t =
      if image.length ≤ limit ∧ height t ≤ maxDepth ∧ narrow t = true then some (image.length : ℤ) else none) ∧
    ∀ structGet envelope model messages result, envelope ≠ nil → expand structGet envelope model messages = .ok result →
      ∃ (ms es : List Term) (parts : List (List Term)), messages = .list ms ∧ get envelope "entries" = .list es ∧
        parts.length = ms.length ∧
        (∀ i message part, ms[i]? = some message → parts[i]? = some part →
          Rendered structGet (replacements es) i message part) ∧
        parts.flatten.Nodup ∧ Chained structGet ms (-1) es ∧ (es.flatMap resultIndices).Nodup ∧
        ∃ image, compact result = some image ∧ image.length ≤ limit := by
  refine ⟨fun capsule text arguments blocks h => ContentReferences.expand_assembled h, fun t image himage => ?_,
    fun structGet envelope model messages result hne h => expand_bound hne h⟩
  split
  · next h => exact jsonSize_eq_some.2 ⟨⟨image, himage, rfl⟩, by omega, h.2.1, h.2.2⟩
  · next h =>
    cases hsize : jsonSize t with
    | none => rfl
    | some n =>
      obtain ⟨⟨image', himage', rfl⟩, hlimit, hheight, hnarrow⟩ := jsonSize_eq_some.1 hsize
      obtain rfl := Option.some.inj (himage.symm.trans himage')
      exact absurd ⟨by omega, hheight, hnarrow⟩ h

end Loopex.Model.Continuation
