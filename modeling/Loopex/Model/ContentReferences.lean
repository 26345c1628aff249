import Loopex.Model.JsonSize

/-!
# Content references

`ContentReferences.expand`: the content of a private capsule is a list of nodes, literal blocks and references to
the text and the tool arguments of the same exchange; each reference is replaced by a block with the value put in.

* `node`, `nodes`, `expand` — the expansion, under a budget of bytes
* `Assembled` — how nodes become blocks, and from which pieces
* `nodes_assembled` — one walk over the nodes
* `expand_assembled` — the pieces are the text and the arguments, and the expanded capsule keeps the limit
-/

namespace Loopex.Model

open Loopex.Erlang Loopex.Erlang.Term Loopex.Protocol.Frame Loopex.Runtime
open Loopex.Store (lookup hasKey isStruct lookup_eq_some lookup_eq_none perm_of_lookup)

/-- `%{map | key => value}`. -/
def updateKey (key : String) (value : Term) : Term → Term
  | .map kvs => .map (kvs.map fun e => if e.1 = str key then (e.1, value) else e)
  | t => t

/-! ## maps with exactly some keys -/

/-- The keys of a closed map are those asked for, each once. -/
theorem nodup_of_closed {kvs : List (Term × Term)} {names : List String} (h : closed (.map kvs) names = true)
    (hn : names.Nodup) : (kvs.map Prod.fst).Nodup ∧ ∀ key, key ∈ kvs.map Prod.fst ↔ key ∈ names.map str := by
  simp only [closed, closedBy, Bool.and_eq_true, decide_eq_true_eq, List.all_eq_true, List.length_map] at h
  have hnames : (names.map str).Nodup := hn.map fun a b hab => str_inj.1 hab
  have hperm := perm_of_lookup hnames (by rw [List.length_map, h.1]) h.2
  exact ⟨hperm.nodup_iff.2 hnames, fun key => hperm.mem_iff⟩

theorem isStruct_of_compactMembers {kvs : List (Term × Term)} {ms : List Bytes} (h : compactMembers kvs = some ms) :
    isStruct kvs = false := by
  have hbinary : ∀ e ∈ kvs, e.1 ≠ sym "__struct__" := by
    induction kvs generalizing ms with
    | nil => simp
    | cons e kvs ih =>
      obtain ⟨key, member⟩ := e
      cases key with
      | binary b =>
        simp only [compactMembers, Option.bind_eq_bind, Option.bind_eq_some_iff] at h
        obtain ⟨-, -, -, -, rest, hrest, -⟩ := h
        exact List.forall_mem_cons.2 ⟨by simp [sym], ih hrest⟩
      | _ => cases h
  simp [isStruct, lookup_eq_none.2 hbinary]

theorem compact_map_eq_some {kvs : List (Term × Term)} {image : Bytes} : compact (.map kvs) = some image ↔
    ∃ ms, compactMembers kvs = some ms ∧ 123 :: (List.intercalate [44] ms ++ [125]) = image := by
  rw [compact]
  split
  · next hs =>
    refine iff_of_false (by simp) ?_
    rintro ⟨ms, hms, -⟩
    rw [isStruct_of_compactMembers hms] at hs
    cases hs
  · rw [Option.map_eq_some_iff]

/-- The members of a map after an update: only the value that was replaced changes the length. -/
theorem compactMembers_update {kvs : List (Term × Term)} {key : String} {v w : Term} {ms : List Bytes} {x y : Bytes}
    (hn : (kvs.map Prod.fst).Nodup) (hkey : str key ∈ kvs.map Prod.fst) (hv : compact v = some x) (hw : compact w = some y)
    (h : compactMembers (kvs.map fun e => if e.1 = str key then (e.1, v) else e) = some ms) :
    ∃ ms', compactMembers (kvs.map fun e => if e.1 = str key then (e.1, w) else e) = some ms' ∧
      (ms'.map List.length).sum + x.length = (ms.map List.length).sum + y.length := by
  induction kvs generalizing ms with
  | nil => simp at hkey
  | cons e kvs ih =>
    obtain ⟨k, u⟩ := e
    simp only [List.map_cons, List.nodup_cons] at hn
    by_cases hk : k = str key
    · subst hk
      have hrest : ∀ u : Term, (kvs.map fun e => if e.1 = str key then (e.1, u) else e) = kvs := by
        intro u
        refine (List.map_congr_left fun e he => if_neg fun heq => ?_).trans (List.map_id _)
        exact hn.1 (List.mem_map.2 ⟨e, he, heq⟩)
      simp only [List.map_cons, if_true, hrest] at h ⊢
      simp only [str, compactMembers, hv, hw, Option.bind_eq_bind, Option.bind_eq_some_iff, Option.some.injEq,
        exists_eq_left'] at h ⊢
      obtain ⟨name, hname, rest, hms, rfl⟩ := h
      refine ⟨_, ⟨name, hname, rest, hms, rfl⟩, ?_⟩
      simp only [List.map_cons, List.sum_cons, List.length_append, List.length_cons]
      omega
    · simp only [List.map_cons, if_neg hk] at h ⊢
      have hrest : str key ∈ kvs.map Prod.fst := by
        rcases List.mem_cons.1 hkey with heq | hm
        · exact absurd heq.symm hk
        · exact hm
      cases k with
      | binary b =>
        simp only [compactMembers, Option.bind_eq_bind, Option.bind_eq_some_iff, Option.some.injEq] at h ⊢
        obtain ⟨name, hname, text, htext, rest, hms, rfl⟩ := h
        obtain ⟨ms', hms', hsum⟩ := ih hn.2 hrest hms
        refine ⟨_, ⟨name, hname, text, htext, ms', hms', rfl⟩, ?_⟩
        simp only [List.map_cons, List.sum_cons]
        omega
      | _ => cases h

/-- **The length of an updated map.** -/
theorem compact_update {t : Term} {key : String} {names : List String} {v w : Term} {image x y : Bytes}
    (hclosed : closed t names = true) (hn : names.Nodup) (hkey : key ∈ names) (hv : compact v = some x)
    (hw : compact w = some y) (h : compact (updateKey key v t) = some image) :
    ∃ image', compact (updateKey key w t) = some image' ∧ image'.length + x.length = image.length + y.length := by
  cases t with
  | map kvs =>
    obtain ⟨hnodup, hkeys⟩ := nodup_of_closed hclosed hn
    rw [updateKey] at h ⊢
    obtain ⟨ms, hms, rfl⟩ := compact_map_eq_some.1 h
    obtain ⟨ms', hms', hsum⟩ := compactMembers_update hnodup ((hkeys _).2 (List.mem_map_of_mem hkey)) hv hw hms
    refine ⟨_, compact_map_eq_some.2 ⟨ms', hms', rfl⟩, ?_⟩
    have hlen := compactMembers_length hms
    have hlen' := compactMembers_length hms'
    simp only [List.length_map] at hlen hlen'
    simp only [List.length_cons, List.length_append, intercalate_length, hlen, hlen']
    omega
  | _ => cases hclosed

namespace ContentReferences

def format : Term := str "loopex.anthropic.content_refs.v1"

def capsuleKeys : List String := ["format", "provider", "model", "status", "content"]

def maxNodes : ℕ := 128

/-- `valid_status?`. -/
def validStatus (status : Term) (count : ℕ) : Bool :=
  if status = str "open" then 0 < count else if status = str "closed" then count = 0 else false

/-- `argument_count`. -/
def argumentCount : List Term → ℕ → Option ℕ
  | [], count => some count
  | .map kvs :: tail, count =>
    if count < maxNodes ∧ isStruct kvs = false then argumentCount tail (count + 1) else none
  | _, _ => none

/-- `insert`. -/
def insert (template field value : Term) : Option Term :=
  match template, field with
  | .map kvs, .binary f =>
    if 1 ≤ f.length ∧ f.length ≤ 128 ∧ (f.all fun x => x < 128) = true ∧ hasKey field kvs = false then
      some (.map (putEntry field value kvs))
    else none
  | _, _ => none

/-- `node`, of a literal. -/
def literalNode (kvs : List (Term × Term)) (offset used : ℕ) : Option (Term × ℕ × ℕ) :=
  match lookup (str "value") kvs with
  | some (.map value) => if kvs.length = 2 then some (.map value, offset, used) else none
  | _ => none

/-- `node`, of a slice of the text. -/
def textNode (kvs : List (Term × Term)) (text : Bytes) (offset used : ℕ) : Option (Term × ℕ × ℕ) :=
  match lookup (str "byte_length") kvs, lookup (str "template") kvs, lookup (str "field") kvs with
  | some (.int length), some template, some field => do
    guard (kvs.length = 4 ∧ 0 ≤ length)
    guard (length ≤ (text.length : ℤ) - offset)
    let slice := (text.drop offset).take length.toNat
    guard (validUtf8 slice)
    let block ← insert template field (.binary slice)
    some (block, offset + length.toNat, used)
  | _, _, _ => none

/-- `node`, of the arguments of a call. -/
def toolNode (kvs : List (Term × Term)) (arguments : List Term) (offset used : ℕ) : Option (Term × ℕ × ℕ) :=
  match lookup (str "call_index") kvs, lookup (str "native_id") kvs, lookup (str "template") kvs,
    lookup (str "field") kvs with
  | some (.int index), some (.binary id), some template, some field => do
    guard (kvs.length = 5 ∧ index = used ∧ id ≠ [])
    guard (validUtf8 id)
    let argument ← arguments[used]?
    guard (isMap argument)
    let block ← insert template field argument
    some (block, offset, used + 1)
  | _, _, _, _ => none

/-- `node`: the block of a node, and how far the text and the arguments are used up. -/
def node (t : Term) (text : Bytes) (arguments : List Term) (offset used : ℕ) : Option (Term × ℕ × ℕ) :=
  match t with
  | .map kvs =>
    if lookup (str "kind") kvs = some (str "literal") then literalNode kvs offset used
    else if lookup (str "kind") kvs = some (str "text_ref") then textNode kvs text offset used
    else if lookup (str "kind") kvs = some (str "tool_use_ref") then toolNode kvs arguments offset used
    else none
  | _ => none

/-- `nodes`. -/
def nodes (text : Bytes) (arguments : List Term) : List Term → ℕ → ℕ → ℕ → ℤ → List Term → Option (List Term × ℕ × ℕ)
  | [], offset, used, _, _, blocks => some (blocks.reverse, offset, used)
  | t :: rest, offset, used, count, budget, blocks => do
    guard (count < maxNodes)
    let (block, nextOffset, nextUsed) ← node t text arguments offset used
    let budget ← spend budget (if 0 < count then 1 else 0)
    let budget ← measure block budget 2
    nodes text arguments rest nextOffset nextUsed (count + 1) budget (block :: blocks)

/-- The name of a model. -/
def validModel : Term → Bool
  | .binary model => 1 ≤ model.length && model.length ≤ 512 && validUtf8 model
  | _ => false

/-- The elements of a list. -/
def listOf : Term → Option (List Term)
  | .list xs => some xs
  | _ => none

/-- `expand`. -/
def expand (capsule text arguments : Term) : Option (List Term) :=
  match text, arguments with
  | .binary text, .list arguments => do
    guard (closed capsule capsuleKeys)
    guard (get capsule "format" = format ∧ get capsule "provider" = str "anthropic")
    guard (validModel (get capsule "model"))
    let _ ← jsonSize capsule
    let callCount ← argumentCount arguments 0
    guard (validStatus (get capsule "status") callCount)
    guard (text.length ≤ limit ∧ validUtf8 text = true)
    let overhead ← jsonSize (updateKey "content" (.list []) capsule)
    let content ← listOf (get capsule "content")
    let (blocks, offset, used) ← nodes text arguments content 0 0 0 (limit - overhead) []
    guard (offset = text.length ∧ used = callCount)
    some blocks
  | _, _ => none

/-! ## what is assembled -/

/-- A literal node, and its value. -/
def Literal (t value : Term) : Prop :=
  ∃ kvs, t = .map kvs ∧ lookup (str "kind") kvs = some (str "literal") ∧ lookup (str "value") kvs = some value

/-- A node that refers to some bytes of the text. -/
def TextRef (t : Term) (length : ℕ) (template field : Term) : Prop :=
  ∃ kvs, t = .map kvs ∧ lookup (str "kind") kvs = some (str "text_ref") ∧
    lookup (str "byte_length") kvs = some (.int length) ∧ lookup (str "template") kvs = some template ∧
    lookup (str "field") kvs = some field

/-- A node that refers to the arguments of a call. -/
def ToolRef (t : Term) (index : ℕ) (template field : Term) : Prop :=
  ∃ kvs, t = .map kvs ∧ lookup (str "kind") kvs = some (str "tool_use_ref") ∧
    lookup (str "call_index") kvs = some (.int index) ∧ lookup (str "template") kvs = some template ∧
    lookup (str "field") kvs = some field

/-- A template with a value put in under a field that was absent. -/
def Inserted (template field value block : Term) : Prop :=
  ∃ kvs, template = .map kvs ∧ lookup field kvs = none ∧ block = .map (putEntry field value kvs)

/-- The blocks of some nodes: literal values, slices of a text and arguments, each in the order of the nodes; the
arguments are numbered from `used` on. -/
inductive Assembled : ℕ → List Term → List Term → List Bytes → List Term → Prop
  | nil {used} : Assembled used [] [] [] []
  | literal {used t value ts blocks slices given} : Literal t value → Assembled used ts blocks slices given →
      Assembled used (t :: ts) (value :: blocks) slices given
  | text {used t template field slice block ts blocks slices given} : TextRef t slice.length template field →
      Inserted template field (.binary slice) block → Assembled used ts blocks slices given →
      Assembled used (t :: ts) (block :: blocks) (slice :: slices) given
  | tool {used t template field argument block ts blocks slices given} : ToolRef t used template field →
      Inserted template field argument block → Assembled (used + 1) ts blocks slices given →
      Assembled used (t :: ts) (block :: blocks) slices (argument :: given)

variable {text : Bytes} {arguments : List Term} {t block : Term} {offset used offset' used' : ℕ}

theorem insert_eq_some {template field value : Term} (h : insert template field value = some block) :
    Inserted template field value block := by
  unfold insert at h
  split at h
  · next kvs f =>
    split at h
    · next hf =>
      cases h
      exact ⟨kvs, rfl, by simpa [hasKey] using hf.2.2.2, rfl⟩
    · cases h
  · cases h

/-- What one node takes of the text and of the arguments. -/
inductive Takes (text : Bytes) (arguments : List Term) (t block : Term) : ℕ → ℕ → ℕ → ℕ → Prop
  | literal {offset used : ℕ} : Literal t block → Takes text arguments t block offset used offset used
  | text {offset used : ℕ} {template field : Term} {slice : Bytes} : TextRef t slice.length template field →
      Inserted template field (.binary slice) block → text.drop offset = slice ++ text.drop (offset + slice.length) →
      validUtf8 slice = true → Takes text arguments t block offset used (offset + slice.length) used
  | tool {offset used : ℕ} {template field argument : Term} : ToolRef t used template field →
      Inserted template field argument block → arguments[used]? = some argument →
      Takes text arguments t block offset used offset (used + 1)

/-- **One node.** -/
theorem node_takes (h : node t text arguments offset used = some (block, offset', used')) :
    Takes text arguments t block offset used offset' used' := by
  unfold node at h
  split at h <;> [skip; cases h]
  next kvs =>
  split at h
  · next hkind =>
    unfold literalNode at h
    split at h <;> [skip; cases h]
    next value hvalue =>
    split at h <;> cases h
    exact .literal ⟨kvs, rfl, hkind, hvalue⟩
  split at h
  · next hkind =>
    unfold textNode at h
    split at h <;> [skip; cases h]
    next length template field hlength htemplate hfield =>
    simp only [Option.bind_eq_bind, Option.bind_eq_some_iff, Option.guard_eq_some', Option.some.injEq,
      Prod.mk.injEq] at h
    obtain ⟨_, ⟨-, hpos⟩, _, hle, _, hvalid, block', hinsert, rfl, rfl, rfl⟩ := h
    obtain ⟨n, rfl⟩ := Int.eq_ofNat_of_zero_le hpos
    have hn : ((text.drop offset).take n).length = n := by
      rw [List.length_take, List.length_drop]
      omega
    have hcut : text.drop offset = (text.drop offset).take n ++ text.drop (offset + n) := by
      rw [← List.drop_drop, List.take_append_drop]
    simp only [Int.toNat_natCast] at hinsert hvalid hlength ⊢
    generalize (text.drop offset).take n = slice at *
    subst hn
    exact .text ⟨kvs, rfl, hkind, hlength, htemplate, hfield⟩ (insert_eq_some hinsert) hcut hvalid
  split at h
  · next hkind =>
    unfold toolNode at h
    split at h <;> [skip; cases h]
    next index id template field hindex hid htemplate hfield =>
    simp only [Option.bind_eq_bind, Option.bind_eq_some_iff, Option.guard_eq_some', Option.some.injEq,
      Prod.mk.injEq] at h
    obtain ⟨_, ⟨-, rfl, -⟩, _, -, argument, hargument, _, -, block', hinsert, rfl, rfl, rfl⟩ := h
    exact .tool ⟨kvs, rfl, hkind, hindex, htemplate, hfield⟩ (insert_eq_some hinsert) hargument
  · cases h

/-- The length of a list of texts with commas between them, behind `count` others. -/
def listed (count : ℕ) (texts : List Bytes) : ℕ := (texts.map List.length).sum + commas count texts.length

theorem listed_cons (count : ℕ) (x : Bytes) (texts : List Bytes) :
    listed count (x :: texts) = (if 0 < count then 1 else 0) + x.length + listed (count + 1) texts := by
  rw [listed, listed, List.map_cons, List.sum_cons, List.length_cons, commas_succ]
  omega

/-- **The walk over the nodes.**  Each node takes the next bytes of the text or the next argument, and spends the
length of its block. -/
theorem nodes_assembled {ts blocks acc : List Term} {count : ℕ} {budget : ℤ} (hbudget : 0 ≤ budget)
    (h : nodes text arguments ts offset used count budget acc = some (blocks, offset', used')) :
    ∃ new slices given texts, blocks = acc.reverse ++ new ∧ Assembled used ts new slices given ∧
      offset' = offset + slices.flatten.length ∧ text.drop offset = slices.flatten ++ text.drop offset' ∧
      (∀ slice ∈ slices, validUtf8 slice = true) ∧ used' = used + given.length ∧
      arguments.drop used = given ++ arguments.drop used' ∧ compactElements new = some texts ∧
      (listed count texts : ℤ) ≤ budget := by
  induction ts generalizing offset used count budget acc with
  | nil =>
    simp only [nodes, Option.some.injEq, Prod.mk.injEq] at h
    obtain ⟨rfl, rfl, rfl⟩ := h
    refine ⟨[], [], [], [], by simp, .nil, by simp, by simp, by simp, rfl, rfl, rfl, ?_⟩
    simpa [listed, commas] using hbudget
  | cons t ts ih =>
    simp only [nodes, Option.bind_eq_bind, Option.bind_eq_some_iff, Option.guard_eq_some', spend_eq_some,
      measured _ _ _ _, Prod.exists] at h
    obtain ⟨_, -, block, offset₁, used₁, hnode, b₁, ⟨rfl, -⟩, b₂, ⟨⟨x, hx, rfl⟩, hpos, -⟩, h⟩ := h
    obtain ⟨new, slices, given, texts, rfl, hnew, rfl, htext, hvalid, rfl, hgiven, htexts, hle⟩ := ih hpos h
    have hcompact : compactElements (block :: new) = some (x :: texts) := by simp [compactElements, hx, htexts]
    have hlisted : (listed count (x :: texts) : ℤ) ≤ budget := by
      rw [listed_cons]
      push_cast at hle ⊢
      omega
    cases node_takes hnode with
    | literal hliteral =>
      exact ⟨block :: new, slices, given, _, by simp, .literal hliteral hnew, rfl, htext, hvalid, rfl, hgiven, hcompact,
        hlisted⟩
    | text href hinsert hcut hslice =>
      next template field slice =>
      refine ⟨block :: new, slice :: slices, given, _, by simp, .text href hinsert hnew, ?_, ?_, ?_, rfl, hgiven,
        hcompact, hlisted⟩
      · rw [List.flatten_cons, List.length_append, Nat.add_assoc]
      · rw [hcut, htext, List.flatten_cons, List.append_assoc]
      · exact List.forall_mem_cons.2 ⟨hslice, hvalid⟩
    | tool href hinsert hargument =>
      next template field argument =>
      refine ⟨block :: new, slices, argument :: given, _, by simp, .tool href hinsert hnew, rfl, htext, hvalid, ?_, ?_,
        hcompact, hlisted⟩
      · rw [List.length_cons]
        omega
      · obtain ⟨hlt, rfl⟩ := List.getElem?_eq_some_iff.1 hargument
        rw [List.drop_eq_getElem_cons hlt, hgiven, List.cons_append]

theorem argumentCount_eq {xs : List Term} {count n : ℕ} (h : argumentCount xs count = some n) : n = count + xs.length := by
  induction xs generalizing count with
  | nil => simpa [argumentCount, eq_comm] using h
  | cons x xs ih =>
    cases x with
    | map kvs =>
      rw [argumentCount] at h
      split at h
      · rw [ih h, List.length_cons]
        omega
      · cases h
    | _ => cases h

theorem compact_list {xs : List Term} {texts : List Bytes} (h : compactElements xs = some texts) :
    ∃ image, compact (.list xs) = some image ∧ image.length = 2 + listed 0 texts := by
  refine ⟨array texts, by rw [compact, h, Option.map_some], ?_⟩
  rw [array, List.length_cons, List.length_append, intercalate_length, listed, commas, if_pos rfl]
  simp only [List.length_cons, List.length_nil]
  omega

/-- **An expansion is exact.**  The slices are the text, the arguments stand in the blocks in their order, each once,
the literal blocks are the literal values, and the expanded capsule is written within the limit. -/
theorem expand_assembled {capsule text arguments : Term} {blocks : List Term}
    (h : expand capsule text arguments = some blocks) : ∃ b given content slices,
      text = .binary b ∧ arguments = .list given ∧ get capsule "content" = .list content ∧
      Assembled 0 content blocks slices given ∧ slices.flatten = b ∧ (∀ slice ∈ slices, validUtf8 slice = true) ∧
      ∃ image, compact (updateKey "content" (.list blocks) capsule) = some image ∧ image.length ≤ limit := by
  unfold expand at h
  split at h <;> [skip; cases h]
  next b arguments =>
  simp only [Option.bind_eq_bind, Option.bind_eq_some_iff, Option.guard_eq_some', Option.some.injEq, jsonSize_eq_some,
    Prod.exists] at h
  obtain ⟨_, hclosed, _, -, _, -, size, -, callCount, hcount, _, -, _, -, overhead,
    ⟨⟨empty, hempty, rfl⟩, hsmall, -⟩, content, hcontent, blocks', offset, used, hnodes, _, ⟨rfl, rfl⟩, rfl⟩ := h
  obtain ⟨new, slices, given, texts, hnew, hassembled, hoffset, htext, hvalid, hused, hgiven, htexts, hle⟩ :=
    nodes_assembled (by omega) hnodes
  obtain rfl : blocks' = new := by simpa using hnew
  have hcontent : get capsule "content" = .list content := by
    unfold listOf at hcontent
    split at hcontent
    · next heq => cases hcontent; exact heq
    · cases hcontent
  have hall : given = arguments := by
    have hlen := argumentCount_eq hcount
    have hdrop : arguments.drop used = [] := List.drop_eq_nil_of_le (by omega)
    simpa [hdrop] using hgiven.symm
  subst hall
  have hflat : slices.flatten = b := by simpa using htext.symm
  obtain ⟨image, himage, hlen⟩ := compact_list htexts
  have hnil : compact (.list []) = some [91, 93] := rfl
  obtain ⟨whole, hwhole, hwholeLen⟩ := compact_update hclosed (by decide) (by decide) hnil himage hempty
  refine ⟨b, given, content, slices, rfl, rfl, hcontent, hassembled, hflat, hvalid, whole, hwhole, ?_⟩
  simp only [List.length_cons, List.length_nil] at hwholeLen
  omega

end ContentReferences

end Loopex.Model
