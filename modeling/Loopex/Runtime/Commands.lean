import Loopex.Runtime.ConfigureCommand
import Loopex.Runtime.HistoryRecord

/-!
# Commands

The seven commands of a session as `normalize_command` gives them, the bounds that a prompt or a follow-up declares, and
the digest that identifies a command.  A record keeps the bounds under binary keys, and replay reads them back.

* `Authored`, `Authored.decodeRetained` — the bounds of a command, and how a record's are read
* `CompactBounds`, `normalizeCompactBounds` — the declaration of an explicit compaction
* `Command` — a command, with its digest
* `decodeRetained_retained`, `normalizeCompactBounds_toTerm` — what a record keeps is what was declared
-/

namespace Loopex.Runtime

open Loopex.Erlang Loopex.Erlang.Term Loopex.Store
open Loopex.Runtime.ToolDefinition (among)

/-! ## authored bounds -/

/-- The commands that declare bounds for their run. -/
inductive BoundsKind where
  | prompt | followUp
  deriving DecidableEq

def jsonIntegerMax : ℕ := 9007199254740991

/-- The members that `CommandBounds` permits a command, each with its maximum. -/
def BoundsKind.fields : BoundsKind → List (String × Option ℕ)
  | .prompt =>
    [("max_turns", none), ("token_budget", none), ("deadline_ms", some uint64Max), ("deadline_at_ms", some jsonIntegerMax)]
  | .followUp => [("deadline_at_ms", some jsonIntegerMax)]

/-- The bounds a command declares; what is left out stays so. -/
structure Authored where
  maxTurns : Option ℤ
  tokenBudget : Option ℤ
  deadlineMs : Option ℤ
  deadlineAtMs : Option ℤ
  deriving DecidableEq

def boundNames : List String := ["max_turns", "token_budget", "deadline_ms", "deadline_at_ms"]

namespace Authored

/-- The members, under their names. -/
def slots (b : Authored) : List (String × Option ℤ) :=
  [("max_turns", b.maxTurns), ("token_budget", b.tokenBudget), ("deadline_ms", b.deadlineMs),
    ("deadline_at_ms", b.deadlineAtMs)]

/-- The members that are declared. -/
def fields (b : Authored) : Fields := b.slots.filterMap fun f => f.2.map fun n => (f.1, .int n)

/-- The bounds as a command carries them, under atoms. -/
def native (b : Authored) : Term := atomMap b.fields

/-- `retained_authored_bounds`. -/
def retained : Option Authored → Term
  | none => nil
  | some b => plainMap b.fields

/-- `quantity`: a positive integer up to the maximum, where there is one. -/
def quantity (maximum : Option ℕ) : Term → Option ℤ
  | .int n => if 0 < n ∧ maximum.all fun m => n ≤ m then some n else none
  | _ => none

/-- One member: left out, or of the kind's domain. -/
def member (kind : BoundsKind) (read : String → Option Term) (name : String) : Option (Option ℤ) :=
  match read name, kind.fields.lookup name with
  | none, _ => some none
  | some v, some maximum => (quantity maximum v).map some
  | some _, none => none

/-- The four members. -/
def members (kind : BoundsKind) (read : String → Option Term) : Option Authored := do
  let maxTurns ← member kind read "max_turns"
  let tokenBudget ← member kind read "token_budget"
  let deadlineMs ← member kind read "deadline_ms"
  let deadlineAtMs ← member kind read "deadline_at_ms"
  some { maxTurns, tokenBudget, deadlineMs, deadlineAtMs }

/-- `Bounds.authored`: the keys are atoms or binaries, and no member is spelled as both. -/
def authored (value : Term) (kind : BoundsKind) : Option Authored :=
  if isPlainMap value && ((keys value).all fun key => key ∈ boundNames.map sym || key ∈ boundNames.map str) &&
      boundNames.all fun name => (SnapshotScan.member value name).isNone || (fetch value name).isNone then
    members kind fun name => (SnapshotScan.member value name).or (fetch value name)
  else none

/-- `decode_retained_authored_bounds`: binary keys only, read as `Bounds.authored` reads the atoms they become. -/
def decodeRetained (value : Term) (kind : BoundsKind) : Option (Option Authored) :=
  if value = nil then some none
  else if isPlainMap value && (keys value).all (· ∈ boundNames.map str) then (members kind (fetch value)).map some
  else none

/-- The bounds are of the kind's domain. -/
def Fits (kind : BoundsKind) (b : Authored) : Prop := members kind b.fields.get = some b

instance (kind : BoundsKind) (b : Authored) : Decidable (b.Fits kind) := inferInstanceAs (Decidable (_ = _))

variable {b : Authored} {kind : BoundsKind} {read : String → Option Term} {name : String}

theorem sublist_filterMap (slots : List (String × Option ℤ)) :
    ((slots.filterMap fun f => f.2.map fun n => (f.1, Term.int n)).map Prod.fst).Sublist (slots.map Prod.fst) := by
  induction slots with
  | nil => exact .slnil
  | cons f slots ih =>
    obtain ⟨name, _ | n⟩ := f
    · simpa using ih.trans (List.sublist_cons_self _ _)
    · simpa using ih

theorem get_filterMap {slots : List (String × Option ℤ)} (hn : (slots.map Prod.fst).Nodup) :
    Fields.get (slots.filterMap fun f => f.2.map fun n => (f.1, Term.int n)) name =
      (slots.lookup name).bind fun n => n.map .int := by
  induction slots with
  | nil => rfl
  | cons f slots ih =>
    rw [List.map_cons, List.nodup_cons] at hn
    have hout : name = f.1 → Fields.get (slots.filterMap fun f => f.2.map fun n => (f.1, Term.int n)) name = none := by
      intro heq
      rw [← Option.not_isSome_iff_eq_none, Fields.get_isSome, heq]
      exact fun hmem => hn.1 ((sublist_filterMap slots).subset hmem)
    obtain ⟨key, n⟩ := f
    by_cases heq : name = key
    · subst heq
      cases n <;> simp [hout]
    · have hne : (name == key) = false := by simpa using heq
      cases n <;> simp [List.lookup_cons, hne, ih hn.2, Ne.symm heq]

theorem nodup_fields (b : Authored) : (b.fields.map Prod.fst).Nodup :=
  (sublist_filterMap b.slots).nodup (by simp [slots])

theorem get_fields (b : Authored) (name : String) : b.fields.get name = (b.slots.lookup name).bind fun n => n.map .int :=
  get_filterMap (by simp [slots])

/-- A member that is read is read again from the bounds that hold it. -/
theorem member_get {n : Option ℤ} (h : member kind read name = some n) (hslot : b.slots.lookup name = some n) :
    member kind b.fields.get name = some n := by
  have hget : b.fields.get name = n.map .int := by rw [get_fields, hslot, Option.bind_some]
  unfold member at h ⊢
  rw [hget]
  split at h
  next hnone =>
    obtain rfl := Option.some.inj h
    rfl
  next v maximum hv hmax =>
    obtain ⟨m, hm, rfl⟩ := Option.map_eq_some_iff.1 h
    unfold quantity at hm
    split at hm
    next k =>
      split at hm
      next hpos =>
        obtain rfl := Option.some.inj hm
        simp only [Option.map_some, hmax, quantity, if_pos hpos]
      next => cases hm
    next => cases hm
  next => cases h

/-- What `Bounds.authored` gives is of the kind's domain. -/
theorem fits_of_members (h : members kind read = some b) : b.Fits kind := by
  simp only [members, Option.bind_eq_bind, Option.bind_eq_some_iff] at h
  obtain ⟨maxTurns, h1, tokenBudget, h2, deadlineMs, h3, deadlineAtMs, h4, hb⟩ := h
  obtain rfl := Option.some.inj hb
  simp only [Fits, members, Option.bind_eq_bind]
  rw [member_get h1 rfl, Option.bind_some, member_get h2 rfl, Option.bind_some, member_get h3 rfl, Option.bind_some,
    member_get h4 rfl, Option.bind_some]

theorem authored_fits {value : Term} (h : authored value kind = some b) : b.Fits kind := by
  unfold authored at h
  split at h
  · exact fits_of_members h
  · cases h

/-- An absolute deadline is one that JSON can carry. -/
theorem Fits.deadlineAtMs {n : ℤ} (h : b.Fits kind) (hn : b.deadlineAtMs = some n) : 0 < n ∧ n ≤ jsonIntegerMax := by
  simp only [Fits, members, Option.bind_eq_bind, Option.bind_eq_some_iff] at h
  obtain ⟨_, -, _, -, _, -, deadline, hdeadline, hb⟩ := h
  have hslot : b.deadlineAtMs = deadline := by
    rw [← Option.some.inj hb]
  have hget : b.fields.get "deadline_at_ms" = some (.int n) := by
    rw [get_fields, slots, hn]
    rfl
  have hlookup : kind.fields.lookup "deadline_at_ms" = some (some jsonIntegerMax) := by cases kind <;> rfl
  rw [member, hget, hlookup] at hdeadline
  obtain ⟨m, hm, -⟩ := Option.map_eq_some_iff.1 hdeadline
  simp only [quantity] at hm
  split at hm
  next hpos => exact ⟨hpos.1, by simpa using hpos.2⟩
  next => cases hm

/-- **The bounds that a record keeps are read back.** -/
theorem decodeRetained_retained {declared : Option Authored} (h : ∀ b ∈ declared, b.Fits kind) :
    decodeRetained (retained declared) kind = some declared := by
  cases declared with
  | none => rfl
  | some b =>
    have hkeys : (keys (retained (some b))).all (· ∈ boundNames.map str) = true := by
      rw [List.all_eq_true]
      intro key hkey
      obtain ⟨name, hname, rfl⟩ := (mem_keys_plainMap b.nodup_fields).1 hkey
      exact decide_eq_true (List.mem_map_of_mem ((sublist_filterMap b.slots).subset hname))
    have hmap : isPlainMap (retained (some b)) = true := isPlainMap_plainMap b.nodup_fields
    have hne : retained (some b) ≠ nil := fun heq => by rw [heq] at hmap; exact absurd hmap (by decide)
    have hread : fetch (retained (some b)) = b.fields.get := funext fun name => fetch_plainMap b.nodup_fields name
    rw [decodeRetained, if_neg hne, hmap, hkeys, Bool.true_and, if_pos rfl, hread, h b rfl]
    rfl

end Authored

/-! ## compact bounds -/

/-- The declaration of an explicit compaction. -/
structure CompactBounds where
  maxAttempts : ℤ
  deadlineMs : ℤ
  tokenBudget : ℤ
  attempts : 1 ≤ maxAttempts ∧ maxAttempts ≤ 4
  deadline : 1 ≤ deadlineMs ∧ deadlineMs ≤ 60000
  tokens : 1 ≤ tokenBudget ∧ tokenBudget ≤ 32768

namespace CompactBounds

def fields (b : CompactBounds) : Fields :=
  [("max_attempts", .int b.maxAttempts), ("deadline_ms", .int b.deadlineMs), ("token_budget", .int b.tokenBudget)]

def toTerm (b : CompactBounds) : Term := plainMap b.fields

end CompactBounds

/-- `fetch`: under the atom, else under the binary. -/
def fetchEither (t : Term) (name : String) : Option Term := (SnapshotScan.member t name).or (fetch t name)

/-- `normalize_compact_bounds`. -/
def normalizeCompactBounds (bounds : Term) : Option CompactBounds :=
  if (keys bounds).length = 3 then
    match fetchEither bounds "max_attempts", fetchEither bounds "deadline_ms", fetchEither bounds "token_budget" with
    | some (.int attempts), some (.int deadline), some (.int tokens) =>
      if h : (1 ≤ attempts ∧ attempts ≤ 4) ∧ (1 ≤ deadline ∧ deadline ≤ 60000) ∧ 1 ≤ tokens ∧ tokens ≤ 32768 then
        some ⟨attempts, deadline, tokens, h.1, h.2.1, h.2.2⟩
      else none
    | _, _, _ => none
  else none

theorem member_plainMap {fields : Fields} (h : (fields.map Prod.fst).Nodup) (name : String) :
    SnapshotScan.member (plainMap fields) name = none := by
  refine lookup_eq_none.2 fun e he hkey => ?_
  obtain ⟨f, -, rfl⟩ := List.mem_map.1 ((perm_plainMap h).mem_iff.1 he)
  simp [sym, str] at hkey

/-- **The declaration that a record keeps is read back.** -/
theorem normalizeCompactBounds_toTerm (b : CompactBounds) : normalizeCompactBounds b.toTerm = some b := by
  obtain ⟨attempts, deadline, tokens, ha, hd, ht⟩ := b
  have hn : ((CompactBounds.fields ⟨attempts, deadline, tokens, ha, hd, ht⟩).map Prod.fst).Nodup := by
    simp [CompactBounds.fields]
  have hread : ∀ name, fetchEither (CompactBounds.toTerm ⟨attempts, deadline, tokens, ha, hd, ht⟩) name =
      (CompactBounds.fields ⟨attempts, deadline, tokens, ha, hd, ht⟩).get name := by
    intro name
    rw [fetchEither, CompactBounds.toTerm, member_plainMap hn, fetch_plainMap hn, Option.none_or]
  have hlen : (keys (CompactBounds.toTerm ⟨attempts, deadline, tokens, ha, hd, ht⟩)).length = 3 :=
    length_keys_plainMap hn
  rw [normalizeCompactBounds, if_pos hlen, hread, hread, hread]
  simp [CompactBounds.fields, ha, hd, ht]

/-! ## commands -/

/-- What an interaction is answered with: one of the choices offered, or a normalized answer to a question. -/
inductive Answer where
  | choice (choiceId : Bytes)
  | answer (normalized : Term)
  deriving DecidableEq

inductive Content where
  | prompt (content : Bytes) (bounds : Option Authored)
  | configure (changes : Term)
  | compact (bounds : CompactBounds)
  | abort
  | steer (runId content : Bytes)
  | followUp (content : Bytes) (bounds : Option Authored)
  | interactionAnswer (interactionId : Bytes) (answer : Answer)

namespace Content

/-- `Atom.to_string(command.type)`. -/
def type : Content → String
  | .prompt .. => "prompt"
  | .configure _ => "configure"
  | .compact _ => "compact"
  | .abort => "abort"
  | .steer .. => "steer"
  | .followUp .. => "follow_up"
  | .interactionAnswer .. => "interaction_answer"

/-- The members that a command carries besides its type and its identity, under atoms. -/
def fields : Content → Fields
  | .prompt content bounds | .followUp content bounds =>
    ("content", .binary content) :: (bounds.map fun b => ("bounds", b.native)).toList
  | .configure changes => [("changes", changes)]
  | .compact bounds => [("bounds", bounds.toTerm)]
  | .abort => []
  | .steer runId content => [("content", .binary content), ("run_id", .binary runId)]
  | .interactionAnswer interactionId (.choice choiceId) =>
    [("interaction_id", .binary interactionId), ("choice_id", .binary choiceId)]
  | .interactionAnswer interactionId (.answer normalized) =>
    [("interaction_id", .binary interactionId), ("answer", normalized)]

/-- What `normalize_command` checks. -/
def Valid : Content → Prop
  | .prompt content bounds => content ≠ [] ∧ ∀ b ∈ bounds, b.Fits .prompt
  | .configure changes => SessionConfiguration.validateUpdate changes = true ∧ WellFormed changes
  | .compact _ | .abort => True
  | .steer runId content => runId ≠ [] ∧ content ≠ []
  | .followUp content bounds => content ≠ [] ∧ ∀ b ∈ bounds, b.Fits .followUp
  | .interactionAnswer interactionId _ => interactionId ≠ []

end Content

/-- What `normalize_command` gives. -/
structure Command where
  commandId : Bytes
  content : Content
  nonempty : commandId ≠ []
  valid : content.Valid

namespace Command

/-- The command as it is digested. -/
def toTerm (c : Command) : Term :=
  atomMap ([("type", sym c.content.type), ("command_id", .binary c.commandId)] ++ c.content.fields)

def digest (c : Command) : Bytes := commandDigest c.toTerm

end Command

/-- `command_run_id`. -/
def commandRunId (sessionId commandId : Bytes) : Bytes := stableId "run" sessionId commandId

end Loopex.Runtime
