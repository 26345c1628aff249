import Loopex.Store.State
import Loopex.System.Run
import Mathlib.Data.Set.Insert

/-!
# The owner lane

A session owner and runtime control present every Store mutation through an owner lane.  Presenting a
transaction fences its scope with the immutable binding; while the fence stands no other binding of the
scope is admitted, and only the outcome of that binding lifts it.  The one exception is the close of a
creation reservation, which replaces the fence of the reservation or creation it is bound to and keeps
that predecessor until it is settled itself.

* `admitTransaction`, `admitCreationClose`, `observe` — the functions of the source
* `Fenced` — a predecessor is kept under the fence of a close bound to it
* `Watched` — a lane with what is outstanding at the Store, by what was presented and answered
* `owner_lane_fencing` — a fenced scope admits its binding or the close bound to it, an outcome moves the
  fence of its own binding only, and at most one proposal of a scope is outstanding
-/

namespace Loopex.Store

open Loopex.Erlang Loopex.Erlang.Term Loopex.Runtime

/-! ## scopes and bindings -/

inductive LaneScope where
  | runtimeControl (runtimeId : Bytes)
  | session (sessionId mutationDomain : Bytes)
  deriving DecidableEq

/-- The types whose scope is the runtime's. -/
def controlTypes : List Term :=
  [sym "create_session", sym "claim_creation_domain", sym "reserve_creation",
    sym "close_creation_reservation"]

def controlScope (kvs : List (Term × Term)) : Option LaneScope :=
  match lookup (sym "type") kvs, lookup (sym "runtime_id") kvs with
  | some type, some (.binary runtimeId) =>
    if type ∈ controlTypes then some (.runtimeControl runtimeId) else none
  | _, _ => none

def sessionScope (kvs : List (Term × Term)) : Option LaneScope :=
  match lookup (sym "session_id") kvs, lookup (sym "mutation_domain") kvs with
  | some (.binary sessionId), some (.binary mutationDomain) => some (.session sessionId mutationDomain)
  | _, _ => none

/-- `scope`. -/
def laneScope : Term → Option LaneScope
  | .map kvs => (controlScope kvs).or (sessionScope kvs)
  | _ => none

/-- `Store.immutable_binding` of any term. -/
def bindingOf : Term → Check Reason Transaction
  | .map kvs => immutableBinding kvs
  | _ => .raise .functionClause

/-- `fetch_identifier` on a map. -/
def fetchIdentifier (kvs : List (Term × Term)) (name : String) : Except Reason Identifier :=
  match lookup (sym name) kvs with
  | some v => validateIdentifier v
  | none => .error (.missingField name)

/-- `Store.transaction_id`. -/
def transactionId : Term → Check Reason Identifier
  | .map kvs =>
    let name := if lookup (sym "type") kvs = some (sym "create_session") then "command_id" else "tx_id"
    Check.ofExcept (fetchIdentifier kvs name)
  | _ => .raise .badArgument

/-- The scope and the binding of a transaction; the refusals are not told apart. -/
def scopedBinding (t : Term) : Check Unit (LaneScope × Transaction) := do
  let scope ← Check.ofOption (laneScope t) ()
  let binding ← (bindingOf t).orError ()
  .ok (scope, binding)

/-! ## the lane -/

/-- The unresolved binding of every scope, and the predecessor an unresolved close keeps. -/
structure OwnerLane where
  fences : LaneScope → Option Transaction
  creationPrior : LaneScope → Option Transaction

inductive LaneRefusal where
  | fenced
  | invalidTransaction
  deriving DecidableEq

/-- The binding under which a transaction may be presented, with the lane from then on. -/
abbrev Admission := Check (LaneRefusal × OwnerLane) (Transaction × OwnerLane)

namespace OwnerLane

def new : OwnerLane := ⟨fun _ => none, fun _ => none⟩

def putFence (owner : OwnerLane) (scope : LaneScope) (fence : Option Transaction) : OwnerLane :=
  { owner with fences := Function.update owner.fences scope fence }

def putPrior (owner : OwnerLane) (scope : LaneScope) (prior : Option Transaction) : OwnerLane :=
  { owner with creationPrior := Function.update owner.creationPrior scope prior }

/-- `admit`. -/
def admitTransaction (owner : OwnerLane) (t : Term) : Admission :=
  match scopedBinding t with
  | .ok (scope, binding) =>
    match owner.fences scope with
    | none => .ok (binding, owner.putFence scope (some binding))
    | some fence => if fence = binding then .ok (binding, owner) else .error (.fenced, owner)
  | .error _ => .error (.invalidTransaction, owner)
  | .raise x => .raise x

/-- What an outcome says of the transaction with the identity `id`. -/
inductive Settlement where
  | committed
  | notCommitted
  | unresolved
  deriving DecidableEq

def settlement (id : Identifier) : Term → Settlement
  | .tuple [tag, t, _] => if tag = sym "committed" ∧ t = id.term then .committed else .unresolved
  | .tuple [tag, _] => if tag = sym "not_committed" then .notCommitted else .unresolved
  | _ => .unresolved

/-- `Map.fetch` of the scope, its match with the binding, and `Store.transaction_id`. -/
def currentFence (owner : OwnerLane) (t : Term) : Check Unit (LaneScope × Identifier) := do
  let (scope, binding) ← scopedBinding t
  Check.require (decide (owner.fences scope = some binding)) ()
  let id ← (transactionId t).orError ()
  .ok (scope, id)

/-- `observe`. -/
def observe (owner : OwnerLane) (t outcome : Term) : Check Empty OwnerLane :=
  match owner.currentFence t with
  | .ok (scope, id) =>
    match settlement id outcome with
    | .committed => .ok ((owner.putFence scope none).putPrior scope none)
    | .notCommitted => .ok ((owner.putFence scope (owner.creationPrior scope)).putPrior scope none)
    | .unresolved => .ok owner
  | .error _ => .ok owner
  | .raise x => .raise x

/-- `creation_close_fence`. -/
def creationCloseFence (owner : OwnerLane) (scope : LaneScope) (close original : Transaction) : OwnerLane :=
  (owner.putFence scope (some close)).putPrior scope (some original)

/-- The close carries the bytes and the digest of the final transaction, a creation in this runtime. -/
def carries (runtimeId : Bytes) (close : CloseCreationReservation) (final : Transaction)
    (t : CreateSession) : Bool :=
  t.runtimeId.bytes = runtimeId && close.commandId = t.commandId &&
    close.finalCanonicalRecordBytes = final.canonicalRecordBytes &&
    close.finalCanonicalMutationDigest = final.canonicalMutationDigest

/-- The close names this reservation, made for the genesis of the final creation. -/
def releases (runtimeId : Bytes) (close : CloseCreationReservation) (reserve : ReserveCreation)
    (t : CreateSession) : Bool :=
  reserve.runtimeId.bytes = runtimeId && reserve.commandId = t.commandId &&
    reserve.txId = close.reservationTxId && looseEq reserve.genesis t.genesis &&
    reserve.expectedDomainVersion + 1 = close.reservationDomainVersion

/-- A close and its final transaction, by what was checked of them. -/
structure ClosePair where
  runtimeId : Bytes
  closeBinding : Transaction
  finalBinding : Transaction
  close : CloseCreationReservation
  final : CreateSession

/-- The guards of `admit_creation_close`. -/
def closePair (close final : Term) : Check Unit ClosePair := do
  Check.require (match close with
    | .map kvs => lookup (sym "type") kvs = some (sym "close_creation_reservation")
    | _ => false) ()
  match laneScope close with
  | some (.runtimeControl runtimeId) => do
    let finalBinding ← (bindingOf final).orError ()
    let closeBinding ← (bindingOf close).orError ()
    match closeBinding.body, finalBinding.body with
    | .closeCreationReservation c, .createSession f =>
      if carries runtimeId c finalBinding f then .ok ⟨runtimeId, closeBinding, finalBinding, c, f⟩ else .error ()
    | _, _ => .error ()
  | _ => .error ()

/-- `admit_creation_close`. -/
def admitCreationClose (owner : OwnerLane) (close final : Term) : Admission :=
  match closePair close final with
  | .ok p =>
    let scope := .runtimeControl p.runtimeId
    match owner.fences scope with
    | none => owner.admitTransaction close
    | some fence =>
      if fence = p.closeBinding then owner.admitTransaction close
      else if fence = p.finalBinding then
        .ok (p.closeBinding, owner.creationCloseFence scope p.closeBinding p.finalBinding)
      else match fence.body with
        | .reserveCreation reserve =>
          if releases p.runtimeId p.close reserve p.final then
            .ok (p.closeBinding, owner.creationCloseFence scope p.closeBinding fence)
          else .error (.fenced, owner)
        | _ => .error (.fenced, owner)
  | .error _ => .error (.invalidTransaction, owner)
  | .raise x => .raise x

/-! ## what a call can do -/

/-- The close is bound to exactly this proposal: the creation whose bytes it carries, or the reservation it
names, made for the genesis of that creation. -/
def ClosesOf (scope : LaneScope) (close original : Transaction) : Prop :=
  ∃ runtimeId c final f, scope = .runtimeControl runtimeId ∧ close.body = .closeCreationReservation c ∧
    final.body = .createSession f ∧ carries runtimeId c final f = true ∧
    (original = final ∨ ∃ r, original.body = .reserveCreation r ∧ releases runtimeId c r f = true)

variable {owner owner' : OwnerLane} {t close final outcome : Term} {scope : LaneScope} {b original : Transaction}

theorem scopedBinding_eq_ok :
    scopedBinding t = .ok (scope, b) ↔ laneScope t = some scope ∧ bindingOf t = .ok b := by
  simp [scopedBinding, Check.bind_eq_ok]

/-- A close binding is no proposal it could be bound to. -/
theorem ClosesOf.ne {close : Transaction} (h : ClosesOf scope close original) : original ≠ close := by
  obtain ⟨runtimeId, c, final, f, -, hc, hf, -, ho⟩ := h
  rintro rfl
  rcases ho with rfl | ⟨r, hr, -⟩
  · rw [hf] at hc
    cases hc
  · rw [hr] at hc
    cases hc

theorem admit_eq_ok (h : owner.admitTransaction t = .ok (b, owner')) : ∃ scope, scopedBinding t = .ok (scope, b) ∧
    (owner.fences scope = none ∧ owner' = owner.putFence scope (some b) ∨
      owner.fences scope = some b ∧ owner' = owner) := by
  unfold admitTransaction at h
  cases hs : scopedBinding t with
  | ok p =>
    obtain ⟨scope, binding⟩ := p
    simp only [hs] at h
    split at h
    next hf =>
      cases h
      exact ⟨scope, rfl, .inl ⟨hf, rfl⟩⟩
    next fence hf =>
      split at h
      next hb =>
        cases h
        exact ⟨scope, rfl, .inr ⟨hb ▸ hf, rfl⟩⟩
      next => cases h
  | error e => simp [hs] at h
  | raise x => simp [hs] at h

theorem admit_eq_error {r : LaneRefusal} (h : owner.admitTransaction t = .error (r, owner')) : owner' = owner := by
  unfold admitTransaction at h
  cases hs : scopedBinding t with
  | ok p =>
    simp only [hs] at h
    split at h
    · cases h
    · split at h <;> cases h
      rfl
  | error e =>
    simp only [hs] at h
    cases h
    rfl
  | raise x => simp [hs] at h

theorem closePair_eq_ok {p : ClosePair} (h : closePair close final = .ok p) :
    scopedBinding close = .ok (.runtimeControl p.runtimeId, p.closeBinding) ∧
      bindingOf final = .ok p.finalBinding ∧ p.closeBinding.body = .closeCreationReservation p.close ∧
      p.finalBinding.body = .createSession p.final ∧ carries p.runtimeId p.close p.finalBinding p.final = true := by
  unfold closePair at h
  simp only [Check.bind_eq_ok, Check.require_eq_ok] at h
  obtain ⟨_, -, h⟩ := h
  split at h
  next runtimeId hs =>
    simp only [Check.bind_eq_ok, Check.orError_eq_ok] at h
    obtain ⟨finalBinding, hf, closeBinding, hc, h⟩ := h
    split at h
    next c f hc' hf' =>
      split at h
      next hcarries =>
        cases h
        exact ⟨scopedBinding_eq_ok.2 ⟨hs, hc⟩, hf, hc', hf', hcarries⟩
      next => cases h
    next => cases h
  next => cases h

/-- A close is admitted as any transaction is, or in the place of the proposal it is bound to. -/
theorem admitCreationClose_eq_ok (h : owner.admitCreationClose close final = .ok (b, owner')) :
    ∃ scope, scopedBinding close = .ok (scope, b) ∧
      (owner.fences scope = none ∧ owner' = owner.putFence scope (some b) ∨
        owner.fences scope = some b ∧ owner' = owner ∨
        ∃ original, owner.fences scope = some original ∧ ClosesOf scope b original ∧
          owner' = owner.creationCloseFence scope b original) := by
  have of_admitted : owner.admitTransaction close = .ok (b, owner') → ∃ scope, scopedBinding close = .ok (scope, b) ∧
      (owner.fences scope = none ∧ owner' = owner.putFence scope (some b) ∨
        owner.fences scope = some b ∧ owner' = owner ∨
        ∃ original, owner.fences scope = some original ∧ ClosesOf scope b original ∧
          owner' = owner.creationCloseFence scope b original) := by
    intro ha
    obtain ⟨scope, hs, ho⟩ := admit_eq_ok ha
    exact ⟨scope, hs, ho.imp_right .inl⟩
  unfold admitCreationClose at h
  cases hp : closePair close final with
  | ok p =>
    obtain ⟨hs, -, hc, hf, hcarries⟩ := closePair_eq_ok hp
    simp only [hp] at h
    split at h
    next => exact of_admitted h
    next fence hfence =>
      split at h
      next => exact of_admitted h
      next hne =>
        split at h
        next heq =>
          cases h
          exact ⟨_, hs, .inr (.inr ⟨fence, hfence,
            ⟨p.runtimeId, p.close, p.finalBinding, p.final, rfl, hc, hf, hcarries, .inl heq⟩, heq ▸ rfl⟩)⟩
        next =>
          split at h
          next reserve hr =>
            split at h
            next hreleases =>
              cases h
              exact ⟨_, hs, .inr (.inr ⟨fence, hfence,
                ⟨p.runtimeId, p.close, p.finalBinding, p.final, rfl, hc, hf, hcarries,
                  .inr ⟨reserve, hr, hreleases⟩⟩, rfl⟩)⟩
            next => cases h
          next => cases h
  | error e => simp [hp] at h
  | raise x => simp [hp] at h

theorem admitCreationClose_eq_error {r : LaneRefusal}
    (h : owner.admitCreationClose close final = .error (r, owner')) : owner' = owner := by
  unfold admitCreationClose at h
  cases hp : closePair close final with
  | ok p =>
    simp only [hp] at h
    split at h
    next => exact admit_eq_error h
    next =>
      split at h
      next => exact admit_eq_error h
      next =>
        split at h
        next => cases h
        next =>
          split at h
          next => split at h <;> cases h; rfl
          next => cases h; rfl
  | error e =>
    simp only [hp] at h
    cases h
    rfl
  | raise x => simp [hp] at h

/-- The outcome `outcome` of the transaction `t`, under its scope and binding, says `s` of it. -/
def Settles (t outcome : Term) (scope : LaneScope) (b : Transaction) (s : Settlement) : Prop :=
  scopedBinding t = .ok (scope, b) ∧ ∃ id, transactionId t = .ok id ∧ settlement id outcome = s

theorem currentFence_eq_ok {id : Identifier} : owner.currentFence t = .ok (scope, id) ↔
    ∃ b, scopedBinding t = .ok (scope, b) ∧ owner.fences scope = some b ∧ transactionId t = .ok id := by
  unfold currentFence
  simp only [Check.bind_eq_ok, Check.require_eq_ok, decide_eq_true_eq, Check.orError_eq_ok]
  constructor
  · rintro ⟨⟨scope', b⟩, hs, _, hf, id', hid, ⟨⟩⟩
    exact ⟨b, hs, hf, hid⟩
  · rintro ⟨b, hs, hf, hid⟩
    exact ⟨(scope, b), hs, (), hf, id, hid, rfl⟩

/-- What an observation leaves. -/
theorem observe_eq_ok (h : owner.observe t outcome = .ok owner') :
    owner' = owner ∨ ∃ scope b, owner.fences scope = some b ∧
      (Settles t outcome scope b .committed ∧ owner' = (owner.putFence scope none).putPrior scope none ∨
        Settles t outcome scope b .notCommitted ∧
          owner' = (owner.putFence scope (owner.creationPrior scope)).putPrior scope none) := by
  unfold observe at h
  cases hc : owner.currentFence t with
  | ok p =>
    obtain ⟨scope, id⟩ := p
    obtain ⟨b, hs, hf, hid⟩ := currentFence_eq_ok.1 hc
    simp only [hc] at h
    split at h
    next ho =>
      cases h
      exact .inr ⟨scope, b, hf, .inl ⟨⟨hs, id, hid, ho⟩, rfl⟩⟩
    next ho =>
      cases h
      exact .inr ⟨scope, b, hf, .inr ⟨⟨hs, id, hid, ho⟩, rfl⟩⟩
    next =>
      cases h
      exact .inl rfl
  | error e =>
    simp only [hc] at h
    cases h
    exact .inl rfl
  | raise x => simp [hc] at h

/-! ## histories of calls -/

end OwnerLane

inductive LaneCall where
  | admitTransaction (t : Term)
  | admitCreationClose (close final : Term)
  | observe (t outcome : Term)

namespace OwnerLane

variable {owner owner' : OwnerLane} {scope : LaneScope} {b original : Transaction}

/-- The lane an admission leaves its caller with; an exception leaves the one it had. -/
def laneOf (owner : OwnerLane) : Admission → OwnerLane
  | .ok (_, owner') => owner'
  | .error (_, owner') => owner'
  | .raise _ => owner

/-- The lane after a call. -/
def next (owner : OwnerLane) : LaneCall → OwnerLane
  | .admitTransaction t => owner.laneOf (owner.admitTransaction t)
  | .admitCreationClose close final => owner.laneOf (owner.admitCreationClose close final)
  | .observe t outcome =>
    match owner.observe t outcome with
    | .ok owner' => owner'
    | .error _ | .raise _ => owner

/-- The call presents the binding `b` of `scope` to the Store, and leaves the lane `owner'`. -/
def Admits (owner : OwnerLane) : LaneCall → LaneScope → Transaction → OwnerLane → Prop
  | .admitTransaction t, scope, b, owner' => laneScope t = some scope ∧ owner.admitTransaction t = .ok (b, owner')
  | .admitCreationClose close final, scope, b, owner' =>
    laneScope close = some scope ∧ owner.admitCreationClose close final = .ok (b, owner')
  | .observe _ _, _, _, _ => False

/-- What a call that presents a binding does. -/
theorem Admits.cases {call : LaneCall} (h : owner.Admits call scope b owner') : owner.next call = owner' ∧
    (owner.fences scope = none ∧ owner' = owner.putFence scope (some b) ∨
      owner.fences scope = some b ∧ owner' = owner ∨
      ∃ close final original, call = .admitCreationClose close final ∧ owner.fences scope = some original ∧
        ClosesOf scope b original ∧ owner' = owner.creationCloseFence scope b original) := by
  cases call with
  | admitTransaction t =>
    obtain ⟨ht, ha⟩ := h
    obtain ⟨scope', hs, ho⟩ := admit_eq_ok ha
    obtain rfl : scope = scope' := Option.some.inj (ht.symm.trans (scopedBinding_eq_ok.1 hs).1)
    exact ⟨by simp [next, ha, laneOf], ho.imp_right .inl⟩
  | admitCreationClose close final =>
    obtain ⟨ht, ha⟩ := h
    obtain ⟨scope', hs, ho⟩ := admitCreationClose_eq_ok ha
    obtain rfl : scope = scope' := Option.some.inj (ht.symm.trans (scopedBinding_eq_ok.1 hs).1)
    refine ⟨by simp [next, ha, laneOf], ho.imp_right (.imp_right ?_)⟩
    rintro ⟨original, hf, hc, rfl⟩
    exact ⟨close, final, original, rfl, hf, hc, rfl⟩
  | observe t outcome => exact h.elim

/-- **What a call can do to a lane**: nothing, present a binding, or settle the fence of one. -/
theorem next_cases (owner : OwnerLane) (call : LaneCall) : owner.next call = owner ∨
    (∃ scope b, owner.Admits call scope b (owner.next call)) ∨
    ∃ t outcome scope b, call = .observe t outcome ∧ owner.fences scope = some b ∧
      (Settles t outcome scope b .committed ∧
          owner.next call = (owner.putFence scope none).putPrior scope none ∨
        Settles t outcome scope b .notCommitted ∧
          owner.next call = (owner.putFence scope (owner.creationPrior scope)).putPrior scope none) := by
  cases call with
  | admitTransaction t =>
    cases ha : owner.admitTransaction t with
    | ok p =>
      obtain ⟨scope, hs, -⟩ := admit_eq_ok ha
      exact .inr (.inl ⟨scope, p.1, (scopedBinding_eq_ok.1 hs).1, by simp [next, ha, laneOf]⟩)
    | error e => exact .inl (by simp [next, ha, laneOf, admit_eq_error ha])
    | raise x => exact .inl (by simp [next, ha, laneOf])
  | admitCreationClose close final =>
    cases ha : owner.admitCreationClose close final with
    | ok p =>
      obtain ⟨scope, hs, -⟩ := admitCreationClose_eq_ok ha
      exact .inr (.inl ⟨scope, p.1, (scopedBinding_eq_ok.1 hs).1, by simp [next, ha, laneOf]⟩)
    | error e => exact .inl (by simp [next, ha, laneOf, admitCreationClose_eq_error ha])
    | raise x => exact .inl (by simp [next, ha, laneOf])
  | observe t outcome =>
    cases ho : owner.observe t outcome with
    | ok owner' =>
      have hn : owner.next (.observe t outcome) = owner' := by simp [next, ho]
      rw [hn]
      rcases observe_eq_ok ho with rfl | ⟨scope, b, hf, h⟩
      · exact .inl rfl
      · exact .inr (.inr ⟨t, outcome, scope, b, rfl, hf, h⟩)
    | error e => exact e.elim
    | raise x => exact .inl (by simp [next, ho])

@[simp] theorem fences_putFence (owner : OwnerLane) (scope scope' : LaneScope) (fence : Option Transaction) :
    (owner.putFence scope fence).fences scope' = if scope' = scope then fence else owner.fences scope' := by
  simp [putFence, Function.update_apply]

@[simp] theorem prior_putFence (owner : OwnerLane) (scope : LaneScope) (fence : Option Transaction) :
    (owner.putFence scope fence).creationPrior = owner.creationPrior := rfl

@[simp] theorem fences_putPrior (owner : OwnerLane) (scope : LaneScope) (prior : Option Transaction) :
    (owner.putPrior scope prior).fences = owner.fences := rfl

@[simp] theorem prior_putPrior (owner : OwnerLane) (scope scope' : LaneScope) (prior : Option Transaction) :
    (owner.putPrior scope prior).creationPrior scope' =
      if scope' = scope then prior else owner.creationPrior scope' := by
  simp [putPrior, Function.update_apply]

/-- An admitted binding is the fence of its scope from then on. -/
theorem Admits.fence {call : LaneCall} (h : owner.Admits call scope b owner') :
    owner'.fences scope = some b := by
  rcases h.cases.2 with ⟨-, rfl⟩ | ⟨hf, rfl⟩ | ⟨_, _, original, -, -, -, rfl⟩
  · simp
  · exact hf
  · simp [creationCloseFence]

/-- A predecessor is kept under the fence of a close bound to it. -/
def Fenced (owner : OwnerLane) : Prop :=
  ∀ scope original, owner.creationPrior scope = some original →
    ∃ close, owner.fences scope = some close ∧ ClosesOf scope close original

theorem Fenced.prior_eq_none (h : owner.Fenced) (hf : owner.fences scope = none) :
    owner.creationPrior scope = none := by
  cases hp : owner.creationPrior scope with
  | none => rfl
  | some original =>
    obtain ⟨close, hc, -⟩ := h scope original hp
    rw [hf] at hc
    cases hc

/-- A proposal a close could replace keeps no predecessor. -/
theorem Fenced.prior_of_closesOf (h : owner.Fenced) (hf : owner.fences scope = some original)
    (hc : ClosesOf scope b original) : owner.creationPrior scope = none := by
  cases hp : owner.creationPrior scope with
  | none => rfl
  | some prior =>
    obtain ⟨close, hclose, ⟨_, c, _, _, -, hbody, -⟩⟩ := h scope prior hp
    obtain rfl : original = close := Option.some.inj (hf.symm.trans hclose)
    obtain ⟨_, _, final, _, -, -, hfinal, -, rfl | ⟨_, hr, -⟩⟩ := hc
    · rw [hbody] at hfinal
      cases hfinal
    · rw [hbody] at hr
      cases hr

/-- A call keeps the predecessors under their closes. -/
theorem Fenced.next (h : owner.Fenced) (call : LaneCall) : (owner.next call).Fenced := by
  rcases next_cases owner call with hn | ⟨scope, b, ha⟩ | ⟨t, outcome, scope, b, -, hf, ⟨-, hn⟩ | ⟨-, hn⟩⟩
  · rw [hn]
    exact h
  · rcases ha.cases.2 with ⟨hf, hn⟩ | ⟨-, hn⟩ | ⟨_, _, original, -, hf, hc, hn⟩
    · rw [hn]
      intro scope' original' hp
      obtain ⟨close, hclose, hc⟩ := h scope' original' hp
      refine ⟨close, ?_, hc⟩
      rw [fences_putFence, if_neg, hclose]
      rintro rfl
      rw [hf] at hclose
      cases hclose
    · rw [hn]
      exact h
    · rw [hn]
      intro scope' original' hp
      simp only [creationCloseFence, prior_putPrior, prior_putFence] at hp
      simp only [creationCloseFence, fences_putPrior, fences_putFence]
      split at hp
      next heq =>
        obtain rfl := Option.some.inj hp
        exact ⟨b, by simp [heq], heq ▸ hc⟩
      next hne =>
        obtain ⟨close, hclose, hc'⟩ := h scope' original' hp
        exact ⟨close, by simp [hne, hclose], hc'⟩
  all_goals
    rw [hn]
    intro scope' original' hp
    simp only [prior_putPrior, prior_putFence] at hp
    split at hp
    next => cases hp
    next hne =>
      obtain ⟨close, hclose, hc⟩ := h scope' original' hp
      exact ⟨close, by simp [hne, hclose], hc⟩

/-! ## what is outstanding at the Store -/

/-- The outcome settles the proposal: it is terminal for it, or commits a close bound to it. -/
def SettlesProposal (t outcome : Term) (scope : LaneScope) (proposal : Transaction) : Prop :=
  ∃ b, Settles t outcome scope b .committed ∧ (proposal = b ∨ ClosesOf scope b proposal) ∨
    Settles t outcome scope b .notCommitted ∧ proposal = b

/-- A lane with the proposals of every scope that were presented and not settled since. -/
structure Watched where
  lane : OwnerLane
  outstanding : LaneScope → Set Transaction

namespace Watched

def start : Watched := ⟨.new, fun _ => ∅⟩

/-- A call, with what it presents to the Store and what it tells of the Store's answers. -/
def next (w : Watched) (call : LaneCall) : Watched where
  lane := w.lane.next call
  outstanding scope :=
    match call with
    | .observe t outcome => {b ∈ w.outstanding scope | ¬ SettlesProposal t outcome scope b}
    | call => w.outstanding scope ∪ {b | ∃ owner', w.lane.Admits call scope b owner'}

/-- The lane and the outstanding proposals after a history of calls. -/
def after (calls : List LaneCall) : Watched := calls.foldl next start

theorem run_after (calls : List LaneCall) :
    System.Run (fun w call w' => w' = next w call) start calls (after calls) := by
  induction calls using List.reverseRecOn with
  | nil => exact .nil
  | append_singleton calls call ih =>
    exact .snoc ih (by simp [after])

/-- Every outstanding proposal is the fence of its scope or the predecessor kept under it. -/
structure Retained (w : Watched) : Prop where
  fenced : w.lane.Fenced
  retained : ∀ scope, ∀ b ∈ w.outstanding scope, w.lane.fences scope = some b ∨ w.lane.creationPrior scope = some b

theorem retained_start : start.Retained where
  fenced := by
    intro scope original h
    cases h
  retained := by
    intro scope b h
    cases h

variable {w : Watched} {call : LaneCall}

/-- What is outstanding after a call that presents bindings was outstanding before, or is presented. -/
theorem outstanding_next {scope : LaneScope} {b : Transaction} (h : b ∈ (w.next call).outstanding scope) :
    b ∈ w.outstanding scope ∧ (∀ t outcome, call = .observe t outcome → ¬ SettlesProposal t outcome scope b) ∨
      ∃ owner', w.lane.Admits call scope b owner' := by
  cases call with
  | observe t outcome =>
    refine .inl ⟨h.1, ?_⟩
    rintro _ _ ⟨⟩
    exact h.2
  | admitTransaction t =>
    rcases h with h | h
    · exact .inl ⟨h, fun _ _ hc => by cases hc⟩
    · exact .inr h
  | admitCreationClose close final =>
    rcases h with h | h
    · exact .inl ⟨h, fun _ _ hc => by cases hc⟩
    · exact .inr h

/-- A call keeps what is outstanding under a fence or a predecessor. -/
theorem Retained.next (h : w.Retained) (call : LaneCall) : (w.next call).Retained where
  fenced := h.fenced.next call
  retained := by
    intro scope b hb
    show (w.lane.next call).fences scope = some b ∨ (w.lane.next call).creationPrior scope = some b
    rcases outstanding_next hb with ⟨hb, hn⟩ | ⟨owner', ha⟩
    · have hr := h.retained scope b hb
      rcases next_cases w.lane call with he | ⟨scope', b', ha⟩ | ⟨t, outcome, scope', b', rfl, hf, hs⟩
      · rw [he]
        exact hr
      · rcases ha.cases.2 with ⟨hf, he⟩ | ⟨-, he⟩ | ⟨_, _, original, -, hf, hc, he⟩
        · rw [he]
          by_cases hscope : scope = scope'
          · subst hscope
            rw [hf, h.fenced.prior_eq_none hf] at hr
            simp at hr
          · simpa [hscope] using hr
        · rw [he]
          exact hr
        · rw [he]
          by_cases hscope : scope = scope'
          · subst hscope
            rw [hf, h.fenced.prior_of_closesOf hf hc] at hr
            simpa [creationCloseFence] using .inr (by simpa using hr)
          · simpa [creationCloseFence, hscope] using hr
      · by_cases hscope : scope = scope'
        · subst hscope
          rcases hs with ⟨hs, -⟩ | ⟨hs, he⟩
          · -- the committed fence and the predecessor a committed close is bound to are both settled
            refine absurd ⟨b', .inl ⟨hs, ?_⟩⟩ (hn t outcome rfl)
            rcases hr with hr | hr
            · exact .inl (Option.some.inj (hr.symm.trans hf))
            · obtain ⟨close, hclose, hc⟩ := h.fenced scope b hr
              obtain rfl : close = b' := Option.some.inj (hclose.symm.trans hf)
              exact .inr hc
          · rcases hr with hr | hr
            · exact absurd ⟨b', .inr ⟨hs, Option.some.inj (hr.symm.trans hf)⟩⟩ (hn t outcome rfl)
            · exact .inl (by simp [he, hr])
        · rcases hs with ⟨-, he⟩ | ⟨-, he⟩ <;> simpa [he, hscope] using hr
    · rw [ha.cases.1]
      exact .inl ha.fence

theorem retained_after (calls : List LaneCall) : (after calls).Retained :=
  (run_after calls).invariant retained_start fun _ call _ h hs => by
    subst hs
    exact h.next call

/-- Of two outstanding proposals of a scope one is a close. -/
theorem Retained.unique (h : w.Retained) {scope : LaneScope} {b b' : Transaction} (hb : b ∈ w.outstanding scope)
    (hb' : b' ∈ w.outstanding scope) (hc : b.body.type ≠ .closeCreationReservation)
    (hc' : b'.body.type ≠ .closeCreationReservation) : b = b' := by
  have close_of_prior : ∀ {x y : Transaction}, w.lane.fences scope = some x →
      w.lane.creationPrior scope = some y → x.body.type = .closeCreationReservation := by
    intro x y hx hy
    obtain ⟨close, hclose, ⟨_, c, _, _, -, hbody, -⟩⟩ := h.fenced scope y hy
    rw [Option.some.inj (hx.symm.trans hclose), hbody]
    rfl
  rcases h.retained scope b hb with hf | hp <;> rcases h.retained scope b' hb' with hf' | hp'
  · exact Option.some.inj (hf.symm.trans hf')
  · exact absurd (close_of_prior hf hp') hc
  · exact absurd (close_of_prior hf' hp) hc'
  · exact Option.some.inj (hp.symm.trans hp')

end Watched

/-! ## fencing -/

theorem observe_of_settles {owner : OwnerLane} {t outcome : Term} {scope : LaneScope} {b : Transaction}
    {s : Settlement} (hf : owner.fences scope = some b) (hs : Settles t outcome scope b s) :
    owner.next (.observe t outcome) = match s with
      | .committed => (owner.putFence scope none).putPrior scope none
      | .notCommitted => (owner.putFence scope (owner.creationPrior scope)).putPrior scope none
      | .unresolved => owner := by
  obtain ⟨hb, id, hid, ho⟩ := hs
  have hc : owner.currentFence t = .ok (scope, id) := currentFence_eq_ok.2 ⟨b, hb, hf, hid⟩
  cases s <;> simp [next, observe, hc, ho]

/-- An outcome of a binding that is not the fence of its scope changes nothing. -/
theorem observe_of_stale {owner : OwnerLane} {t outcome : Term}
    (h : ∀ scope b, scopedBinding t = .ok (scope, b) → owner.fences scope ≠ some b) :
    owner.next (.observe t outcome) = owner := by
  cases hc : owner.currentFence t with
  | ok p =>
    obtain ⟨b, hs, hf, -⟩ := currentFence_eq_ok.1 hc
    exact absurd hf (h _ _ hs)
  | error e => simp [next, observe, hc]
  | raise x => simp [next, observe, hc]

/-- **Owner-lane fencing.**  After any calls, with any transactions and outcomes: a scope with a fence admits
its binding, which changes nothing, or the close of a creation bound to it, which keeps it as predecessor; an
outcome of the fence lifts it with its predecessor if it committed, puts the predecessor in its place if it did
not, and leaves both if that is unknown; an outcome of any other binding changes nothing; a fence gives way
only to a terminal outcome of its own binding or to the close that keeps it; and two outstanding proposals of
one scope are the same unless one is a close. -/
theorem owner_lane_fencing (calls : List LaneCall) :
    (∀ scope b, (Watched.after calls).lane.fences scope = some b → ∀ call b' owner',
      (Watched.after calls).lane.Admits call scope b' owner' →
        b' = b ∧ owner' = (Watched.after calls).lane ∨
        ∃ close final, call = .admitCreationClose close final ∧ ClosesOf scope b' b ∧
          owner' = (Watched.after calls).lane.creationCloseFence scope b' b) ∧
    (∀ scope close original, (Watched.after calls).lane.creationPrior scope = some original →
      (Watched.after calls).lane.fences scope = some close →
        ClosesOf scope close original ∧ ∀ t outcome,
          (Settles t outcome scope close .notCommitted →
            (Watched.after calls).lane.next (.observe t outcome) =
              ((Watched.after calls).lane.putFence scope (some original)).putPrior scope none) ∧
          (Settles t outcome scope close .committed →
            (Watched.after calls).lane.next (.observe t outcome) =
              ((Watched.after calls).lane.putFence scope none).putPrior scope none) ∧
          (Settles t outcome scope close .unresolved →
            (Watched.after calls).lane.next (.observe t outcome) = (Watched.after calls).lane)) ∧
    (∀ t outcome, (∀ scope b, scopedBinding t = .ok (scope, b) →
        (Watched.after calls).lane.fences scope ≠ some b) →
      (Watched.after calls).lane.next (.observe t outcome) = (Watched.after calls).lane) ∧
    (∀ call scope b, (Watched.after calls).lane.fences scope = some b →
      ((Watched.after calls).lane.next call).fences scope ≠ some b →
        (∃ t outcome s, call = .observe t outcome ∧ s ≠ .unresolved ∧ Settles t outcome scope b s) ∨
        ∃ close, ClosesOf scope close b ∧ ((Watched.after calls).lane.next call).fences scope = some close ∧
          ((Watched.after calls).lane.next call).creationPrior scope = some b) ∧
    (∀ scope, ∀ b ∈ (Watched.after calls).outstanding scope, ∀ b' ∈ (Watched.after calls).outstanding scope,
      b.body.type ≠ .closeCreationReservation → b'.body.type ≠ .closeCreationReservation → b = b') := by
  have hr := Watched.retained_after calls
  generalize Watched.after calls = w at hr ⊢
  refine ⟨?_, ?_, fun t outcome => observe_of_stale, ?_, fun scope b hb b' hb' => hr.unique hb hb'⟩
  · intro scope b hf call b' owner' ha
    rcases ha.cases.2 with ⟨hn, -⟩ | ⟨hs, he⟩ | ⟨close, final, original, hcall, ho, hc, he⟩
    · rw [hf] at hn
      cases hn
    · exact .inl ⟨Option.some.inj (hs.symm.trans hf), he⟩
    · obtain rfl : original = b := Option.some.inj (ho.symm.trans hf)
      exact .inr ⟨close, final, hcall, hc, he⟩
  · intro scope close original hp hf
    obtain ⟨close', hclose, hc⟩ := hr.fenced scope original hp
    obtain rfl : close' = close := Option.some.inj (hclose.symm.trans hf)
    refine ⟨hc, fun t outcome => ⟨fun hs => ?_, fun hs => ?_, fun hs => ?_⟩⟩
    · simpa [hp] using observe_of_settles hf hs
    · exact observe_of_settles hf hs
    · exact observe_of_settles hf hs
  · intro call scope b hf hn
    rcases next_cases w.lane call with he | ⟨scope', b', ha⟩ | ⟨t, outcome, scope', b', rfl, hf', hs⟩
    · exact absurd (by rw [he]; exact hf) hn
    · rcases ha.cases.2 with ⟨hnone, he⟩ | ⟨-, he⟩ | ⟨_, _, original, -, ho, hc, he⟩
      · rw [he, fences_putFence] at hn
        split at hn
        next heq =>
          rw [← heq, hf] at hnone
          cases hnone
        next => exact absurd hf hn
      · exact absurd (by rw [he]; exact hf) hn
      · rw [he] at hn ⊢
        by_cases heq : scope = scope'
        · subst heq
          obtain rfl : original = b := Option.some.inj (ho.symm.trans hf)
          exact .inr ⟨b', hc, by simp [creationCloseFence]⟩
        · exact absurd (by simp [creationCloseFence, heq, hf]) hn
    · have hscope : scope = scope' := by
        by_contra hne
        rcases hs with ⟨-, he⟩ | ⟨-, he⟩ <;> simp [he, hne, hf] at hn
      subst hscope
      obtain rfl : b' = b := Option.some.inj (hf'.symm.trans hf)
      rcases hs with ⟨hs, -⟩ | ⟨hs, -⟩
      · exact .inl ⟨t, outcome, .committed, rfl, by simp, hs⟩
      · exact .inl ⟨t, outcome, .notCommitted, rfl, by simp, hs⟩

end OwnerLane

end Loopex.Store
