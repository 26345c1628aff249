import Loopex.Protocol.SessionViews
import Loopex.Runtime.ConfigurationUpdate
import Loopex.Runtime.SnapshotScan
import Loopex.Store.AtomMap
import Loopex.Store.Normalizer

/-!
# Records of a private history

A record is a plain map, the atom `kind` beside binary keys.

* `record` — a record from its fields
* `closedHistory` — `closed_history_map?`, with the keys that a record of a prompt or a follow-up owes besides
* `fetch_record`, `closedHistory_record` — a record is read as it was written
* `commandDigest`, `stableId` — the identities of the history
-/

namespace Loopex.Runtime

open Loopex.Erlang Loopex.Erlang.Term Loopex.Store
open Loopex.Runtime.ToolDefinition (among)
open Loopex.Runtime.SessionConfiguration (encode_str_ne)
open Loopex.Runtime.SnapshotScan (revisionKeys)

/-- The record of this kind with these fields. -/
def record (kind : String) (fields : Fields) : Term :=
  mapOf ((sym "kind", str kind) :: fields.map fun f => (str f.1, f.2))

/-- `Map.get(record, :kind)`. -/
def kindOf (t : Term) : Term := (SnapshotScan.member t "kind").getD nil

/-- `closed_history_map?` of a record: these binary keys beside its kind. -/
def closedHistory (t : Term) (names : List String) : Bool :=
  SnapshotScan.closedHistoryMap t (sym "kind" :: names.map str) []

/-- A map under binary keys. -/
def plainMap (fields : Fields) : Term := mapOf (fields.map fun f => (str f.1, f.2))

variable {fields : Fields} {kind : String}

section
variable (h : (fields.map Prod.fst).Nodup)
include h

theorem pairwise_fields : (fields.map fun f => (str f.1, f.2)).Pairwise fun a b => encode a.1 ≠ encode b.1 := by
  rw [List.pairwise_map]
  exact (List.pairwise_map.1 h).imp fun hne => encode_str_ne hne

theorem lookup_fields {kvs : List (Term × Term)} (hn : (kvs.map Prod.fst).Nodup)
    (hkvs : ∀ name v, (str name, v) ∈ kvs ↔ (name, v) ∈ fields) (name : String) :
    lookup (str name) kvs = fields.get name := by
  cases hg : fields.get name with
  | some v => exact lookup_of_mem hn ((hkvs name v).2 (Fields.mem_of_get hg))
  | none =>
    refine lookup_eq_none.2 fun e hmem hkey => ?_
    obtain ⟨key, v⟩ := e
    obtain rfl : key = str name := hkey
    have hget := Fields.get_of_mem h ((hkvs name v).1 hmem)
    rw [hg] at hget
    cases hget

theorem perm_plainMap :
    (entriesOf (fields.map fun f => (str f.1, f.2))).Perm (fields.map fun f => (str f.1, f.2)) :=
  perm_entriesOf (pairwise_fields h)

theorem fetch_plainMap (name : String) : fetch (plainMap fields) name = fields.get name := by
  refine lookup_fields h (ordered_entriesOf _).nodup (fun name v => ?_) name
  rw [(perm_plainMap h).mem_iff, List.mem_map]
  constructor
  · rintro ⟨f, hf, heq⟩
    obtain ⟨hkey, rfl⟩ := Prod.mk.inj heq
    obtain rfl := str_inj.1 hkey
    exact hf
  · exact fun hf => ⟨_, hf, rfl⟩

theorem mem_keys_plainMap {key : Term} : key ∈ keys (plainMap fields) ↔ ∃ name ∈ fields.map Prod.fst, key = str name := by
  rw [plainMap, mapOf, keys, ((perm_plainMap h).map Prod.fst).mem_iff]
  simp only [List.map_map, List.mem_map, Function.comp_apply]
  constructor
  · rintro ⟨f, hf, rfl⟩
    exact ⟨_, ⟨f, hf, rfl⟩, rfl⟩
  · rintro ⟨_, ⟨f, hf, rfl⟩, rfl⟩
    exact ⟨f, hf, rfl⟩

theorem length_keys_plainMap : (keys (plainMap fields)).length = fields.length := by
  rw [plainMap, mapOf, keys, List.length_map, (perm_plainMap h).length_eq, List.length_map]

theorem isPlainMap_plainMap : isPlainMap (plainMap fields) = true := by
  have hno : isStruct (entriesOf (fields.map fun f => (str f.1, f.2))) = false := by
    refine lookup_struct fun e he hkey => ?_
    obtain ⟨f, -, rfl⟩ := List.mem_map.1 ((perm_plainMap h).mem_iff.1 he)
    simp [sym, str] at hkey
  simp only [plainMap, mapOf, isPlainMap, hno, Bool.not_false]

theorem perm_record : (entriesOf ((sym "kind", str kind) :: fields.map fun f => (str f.1, f.2))).Perm
    ((sym "kind", str kind) :: fields.map fun f => (str f.1, f.2)) := by
  refine perm_entriesOf (List.pairwise_cons.2 ⟨fun e he heq => ?_, pairwise_fields h⟩)
  obtain ⟨f, -, rfl⟩ := List.mem_map.1 he
  have hhead := congrArg List.head? heq
  simp only [sym, str, encode] at hhead
  split at hhead <;> simp at hhead

theorem fetch_record (name : String) : fetch (record kind fields) name = fields.get name := by
  refine lookup_fields h (ordered_entriesOf _).nodup (fun name v => ?_) name
  rw [(perm_record h).mem_iff, List.mem_cons, List.mem_map]
  constructor
  · rintro (heq | ⟨f, hf, heq⟩)
    · simp [sym, str] at heq
    · obtain ⟨hkey, rfl⟩ := Prod.mk.inj heq
      obtain rfl := str_inj.1 hkey
      exact hf
  · exact fun hf => .inr ⟨_, hf, rfl⟩

theorem get_record (name : String) : get (record kind fields) name = (fields.get name).getD nil := by
  rw [get, fetch_record h]

theorem kindOf_record : kindOf (record kind fields) = str kind := by
  have hnodup := (ordered_entriesOf ((sym "kind", str kind) :: fields.map fun f => (str f.1, f.2))).nodup
  have hlookup := lookup_of_mem hnodup ((perm_record h).mem_iff.2 List.mem_cons_self)
  simp only [kindOf, SnapshotScan.member, record, mapOf, hlookup, Option.getD_some]

theorem mem_keys_record {key : Term} :
    key ∈ keys (record kind fields) ↔ key = sym "kind" ∨ ∃ name ∈ fields.map Prod.fst, key = str name := by
  rw [record, mapOf, keys, ((perm_record h).map Prod.fst).mem_iff]
  simp only [List.map_cons, List.map_map, List.mem_cons, List.mem_map, Function.comp_apply]
  constructor
  · rintro (rfl | ⟨f, hf, rfl⟩)
    · exact .inl rfl
    · exact .inr ⟨_, ⟨f, hf, rfl⟩, rfl⟩
  · rintro (rfl | ⟨_, ⟨f, hf, rfl⟩, rfl⟩)
    · exact .inl rfl
    · exact .inr ⟨f, hf, rfl⟩

theorem isPlainMap_record : isPlainMap (record kind fields) = true := by
  have hno : isStruct (entriesOf ((sym "kind", str kind) :: fields.map fun f => (str f.1, f.2))) = false := by
    refine lookup_struct fun e he hkey => ?_
    rcases List.mem_cons.1 ((perm_record h).mem_iff.1 he) with rfl | he
    · exact absurd (sym_inj.1 hkey) (by decide)
    · obtain ⟨f, -, rfl⟩ := List.mem_map.1 he
      simp [sym, str] at hkey
  simp only [record, mapOf, isPlainMap, hno, Bool.not_false]

/-- **A record is closed on the names of its fields**, and on no others. -/
theorem closedHistory_record {names : List String} : closedHistory (record kind fields) names = true ↔
    ∀ name, name ∈ names ++ revisionKeys (record kind fields) ↔ name ∈ fields.map Prod.fst := by
  simp only [closedHistory, SnapshotScan.closedHistoryMap, isPlainMap_record h, Bool.true_and, Bool.and_eq_true,
    List.all_eq_true, decide_eq_true_eq, mem_keys_record h, List.cons_append, ← List.map_append, List.append_nil,
    List.mem_cons, List.mem_map (f := str)]
  constructor
  · rintro ⟨hreq, hkeys⟩ name
    constructor
    · intro hname
      rcases hreq (str name) (.inr ⟨name, hname, rfl⟩) with hkey | ⟨other, hother, heq⟩
      · simp [sym, str] at hkey
      · rwa [str_inj.1 heq]
    · intro hname
      rcases hkeys (str name) (.inr ⟨name, hname, rfl⟩) with hkey | ⟨other, hother, heq⟩
      · simp [sym, str] at hkey
      · rwa [← str_inj.1 heq]
  · intro hiff
    constructor
    · rintro key (rfl | ⟨name, hname, rfl⟩)
      · exact .inl rfl
      · exact .inr ⟨name, (hiff name).1 hname, rfl⟩
    · rintro key (rfl | ⟨name, hname, rfl⟩)
      · exact .inl rfl
      · exact .inr ⟨name, (hiff name).2 hname, rfl⟩

end

/-! ## identities -/

/-- `command_digest`. -/
def commandDigest (command : Term) : Bytes :=
  let revision :=
    if (SnapshotScan.member command "type").any fun type => type ∈ [sym "prompt", sym "follow_up"] then "loopex_command_v2"
    else "loopex_command_v1"
  hex (sha256 (termToBinary (.list [str revision, command])))

/-- A digest is what `validate` asks of one: sixty-four hexadecimal digits. -/
theorem commandDigest_hex (command : Term) :
    (commandDigest command).length = 64 ∧ (commandDigest command).all isHex = true :=
  ⟨by simp [commandDigest], all_isHex_hex _⟩

/-- `stable_id`. -/
def stableId (namespaced : String) (sessionId commandId : Bytes) : Bytes :=
  let encoded := hex (sha256 (termToBinary (.list [str namespaced, .binary sessionId, .binary commandId])))
  (utf8 namespaced).take 8 ++ utf8 "_" ++ encoded.take 30

end Loopex.Runtime
