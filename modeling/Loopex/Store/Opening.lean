import Loopex.Store.Progress
import Loopex.Store.Recovery

/-!
# Opening a session

A new Store opens a session in three presentations: a claim of the creation domain of a runtime, a
reservation, and a create.

* `Transaction.seal` — the transaction of a body, with its bytes and digest;
* `Opening` — the runtime, the command, the owner and the genesis of a session;
* `Opening.presents_create` — **every normal genesis opens a session**.
-/

namespace Loopex.Store

open Loopex.Erlang Loopex.Erlang.Term Loopex.Runtime Loopex.System

variable {access : StructAccess}

/-- No struct implements `Access`. -/
def noAccess : StructAccess := fun _ _ _ => .error .undefinedFunction

/-- The transaction of a body. -/
def Transaction.seal (b : Body) : Transaction := ⟨b, encodeFields b.fields, sha256 (encodeFields b.fields)⟩

theorem build_seal {b : Body} (h : (encodeFields b.fields).length ≤ maxMutationBytes) :
    build b = .ok (.seal b) :=
  build_eq_ok.2 ⟨rfl, h⟩

/-- What a session is opened with: the genesis reserved, and the genesis created. -/
structure Opening where
  runtimeId : Identifier
  commandId : Identifier
  selection : Selection
  reserved : Term
  genesis : Term
  normal : normalizeCreationGenesis reserved = .ok reserved
  valid : validateItem .record genesis = .ok ()
  loose : looseEq reserved genesis = true

namespace Opening

variable (o : Opening)

def claim : ClaimCreationDomain := ⟨o.runtimeId, 0, o.selection, Nat.zero_le _⟩

def reserve : ReserveCreation :=
  ⟨o.runtimeId, o.commandId, 1, o.selection, 0, o.reserved, Nat.one_pos, by decide, by decide, o.normal⟩

def create : CreateSession := ⟨o.runtimeId, o.commandId, o.genesis, o.valid⟩

/-- The head of the runtime after the claim. -/
def claimedHead : Head := ⟨1, some o.selection, 0, none⟩

/-- The head of the runtime after the reservation. -/
def reservedHead : Head := ⟨2, some o.selection, 1, some o.commandId⟩

def claimed : State := State.new.claimed (.seal (.claimCreationDomain o.claim)) o.runtimeId o.claimedHead

def held : State := o.claimed.reserved (.seal (.reserveCreation o.reserve)) o.reserve o.reservedHead

def sessionId : Identifier := sessionIdOf o.runtimeId o.commandId 1

def opened : State :=
  o.held.created (.seal (.createSession o.create)) o.create (reserveCapsule o.reserve) o.sessionId 1

/-- The presented maps, in order. -/
def presented : List (List (Term × Term)) :=
  [(Transaction.seal (.claimCreationDomain o.claim)).entries,
    (Transaction.seal (.reserveCreation o.reserve)).entries,
    (Transaction.seal (.createSession o.create)).entries]

theorem presents_claim :
    Presents access State.new (Transaction.seal (.claimCreationDomain o.claim)).entries o.claimed :=
  Loopex.Store.presents_claim (t := o.claim) rfl (build_seal (claimCreationDomain_fits _)) rfl rfl
    (Nat.zero_le _)

theorem moves_claim : Moves State.new (.seal (.claimCreationDomain o.claim)) o.claimed
    (.committed (.claim o.runtimeId o.claimedHead)) [] [] :=
  .claim (t := o.claim) rfl rfl (Nat.zero_le _) rfl

theorem claimed_head : o.claimed.creationHead o.runtimeId = o.claimedHead :=
  (State.creationHead_insert rfl _).trans (if_pos rfl)

theorem presents_reserve :
    Presents access o.claimed (Transaction.seal (.reserveCreation o.reserve)).entries o.held := by
  have hv : o.reservedHead.Valid := by
    constructor <;> simp [reservedHead, creationUint64]
  have hnext : (o.reservedHead.advance none).Valid := by
    constructor <;> simp [reservedHead, Head.advance, creationUint64]
  have hne : (o.runtimeId, TransactionType.reserveCreation, o.reserve.txId) ≠
      (o.runtimeId, .claimCreationDomain, o.claim.txId) := by simp
  have hn : o.claimed.creationResolutions.lookup (o.runtimeId, .reserveCreation, o.reserve.txId) = none :=
    AList.lookup_insert_ne hne
  have he : creationEligibility o.claimedHead o.reserve.claimant = none :=
    creationEligibility_eq_none.2 ⟨rfl, rfl, rfl⟩
  exact Loopex.Store.presents_reserve (t := o.reserve) o.claimedHead rfl
    (build_seal (reserveCreation_fits _)) (congrArg (Option.map Entry.retained) hn) o.claimed_head he rfl rfl rfl
    (by simp [claimedHead, creationUint64]) (by simp [claimedHead])
    (prospectiveRecoveryFits_true o.reserve hv hnext (by simp [reserve, creationUint64]))

/-- The run up to the reservation is exact. -/
theorem run_held : Run (Guarded (Presents access) ExactPresentation) State.new (o.presented.take 2) o.held := by
  have hclaim : ExactPresentation State.new (Transaction.seal (.claimCreationDomain o.claim)).entries :=
    exactPresentation_of_body
      (validateTransaction_entries (build_seal (claimCreationDomain_fits o.claim)) trivial) (by simp [Transaction.seal])
  have hreserve : ExactPresentation o.claimed (Transaction.seal (.reserveCreation o.reserve)).entries :=
    exactPresentation_of_body
      (validateTransaction_entries (build_seal (reserveCreation_fits o.reserve)) trivial) (by simp [Transaction.seal])
  exact .snoc (.snoc .nil ⟨o.presents_claim, hclaim⟩) ⟨o.presents_reserve, hreserve⟩

theorem held_kept : o.held.Custody ∧ o.held.Kept := Run.kept (o.run_held : Run (Guarded (Presents noAccess) _) _ _ _)

/-- **Every normal genesis opens a session.** -/
theorem presents_create :
    Presents access o.held (Transaction.seal (.createSession o.create)).entries o.opened := by
  have hhead : o.held.creationHead o.runtimeId = o.reservedHead :=
    (State.creationHead_insert rfl _).trans (if_pos rfl)
  have hcap : o.held.creationCapsules.lookup (o.runtimeId, o.commandId) = some (reserveCapsule o.reserve) :=
    AList.lookup_insert _
  have hof := State.Kept.capsuleOf o.held_kept.1 o.held_kept.2 hcap
  rw [hhead] at hof
  exact Loopex.Store.presents_create (t := o.create) rfl (build_seal (createSession_fits _)) rfl hhead hcap hof rfl
    o.loose (by simp [reservedHead, creationUint64]) (by simp [reservedHead, creationUint64]) rfl rfl rfl

/-- The run up to the create is exact where the genesis created is the one reserved. -/
theorem run_exact (h : o.reserved = o.genesis) :
    Run (Guarded (Presents access) ExactPresentation) State.new o.presented o.opened := by
  refine .snoc o.run_held ⟨o.presents_create, fun T hT t c hb hl _ _ => ?_⟩
  rw [validateTransaction_entries (build_seal (createSession_fits o.create)) trivial] at hT
  cases hT
  cases hb
  cases (AList.lookup_insert _ : o.held.creationCapsules.lookup (o.runtimeId, o.commandId) = _).symm.trans hl
  exact h

theorem run_opened : Run (Presents access) State.new o.presented o.opened :=
  .snoc (o.run_held.mono fun _ _ _ h => h.1) o.presents_create

theorem reachable_opened : Reachable access o.opened := ⟨_, o.run_opened⟩

/-- The session, as it is opened. -/
theorem opened_session : o.opened.sessions.lookup o.sessionId = some (Session.create o.runtimeId o.genesis) :=
  AList.lookup_insert _

/-! ## the first owner -/

/-- The succession that installs the first owner. -/
def succeed (domain txId owner : Identifier) : AdvanceOwner := ⟨o.sessionId, domain, txId, 0, 1, owner, none⟩

/-- The state once the first owner is installed. -/
def owned (domain txId owner : Identifier) : State :=
  o.opened.putSession o.sessionId ((Session.create o.runtimeId o.genesis).succeed
    (.seal (.advanceOwner (o.succeed domain txId owner))) (o.succeed domain txId owner))

theorem succeed_fits (domain txId owner : Identifier) :
    (encodeFields (Body.advanceOwner (o.succeed domain txId owner)).fields).length ≤ maxMutationBytes := by
  have hint : ∀ n : ℕ, n ≤ 1 → (encode (.int n)).length ≤ 70000 := fun n hn =>
    encode_counter_le (hn.trans (by decide))
  refine Body.fits ?_
  simp only [Body.values, succeed, List.append_nil, List.forall_mem_cons]
  exact ⟨encode_identifier_le _, encode_identifier_le _, encode_identifier_le _, hint 0 (by decide), hint 1 le_rfl,
    encode_identifier_le _, by simp⟩

/-- **An opened session takes its first owner.** -/
theorem presents_succeed (domain txId owner : Identifier) :
    Presents access o.opened (Transaction.seal (.advanceOwner (o.succeed domain txId owner))).entries
      (o.owned domain txId owner) := by
  have hscoped : o.opened.scopedResolutions o.sessionId = ∅ :=
    State.scopedResolutions_of_session o.opened_session
  have hn : (o.opened.scopedResolutions o.sessionId).lookup (domain, txId) = none := by
    rw [hscoped]
    rfl
  exact Loopex.Store.presents_succeed (t := o.succeed domain txId owner) rfl
    (build_seal (o.succeed_fits domain txId owner)) (State.retainedResolution_session.2 hn) o.opened_session rfl rfl

theorem reachable_owned (domain txId owner : Identifier) : Reachable access (o.owned domain txId owner) :=
  o.reachable_opened.run (.one (o.presents_succeed domain txId owner))

/-- The session, with its first owner. -/
theorem owned_session (domain txId owner : Identifier) :
    (o.owned domain txId owner).sessions.lookup o.sessionId = some ((Session.create o.runtimeId o.genesis).succeed
      (.seal (.advanceOwner (o.succeed domain txId owner))) (o.succeed domain txId owner)) :=
  AList.lookup_insert _

/-! ## a bare session -/

/-- A genesis without tools, under given options. -/
def bareGenesis (options : Term) : Term :=
  let text := mapOf [(str "version", str "v"), (str "base", str "b"), (str "environment", str ""),
    (str "appendix", str "")]
  let explicit := mapOf [(str "context_token_budget", str "explicit"), (str "system_class_tokens", str "explicit")]
  let capabilities := mapOf [(str "model", str "m"), (str "context_window", nil), (str "output_limit", nil),
    (str "reasoning_levels", .list []), (str "source_revision", str "r"),
    (str "source_digest", .binary (List.replicate 64 48))]
  mapOf [(sym "kind", str "session_genesis_v3"), (str "options", options),
    (str "runtime_configuration", mapOf [(str "cleanup_grace_ms", .int 1)]),
    (str "initial_configuration", mapOf [(str "model", str "m"), (str "reasoning", str "default"),
      (str "configuration_version", .int 1), (str "instructions", (Instructions.capture text).getD nil),
      (str "max_tokens", .int 1), (str "context_token_budget", .int 1000), (str "system_class_tokens", .int 1000),
      (str "budget_origins", explicit), (str "model_capabilities", capabilities),
      (str "provider_mapping", SessionConfiguration.generic)]),
    (str "tool_selection", mapOf [(str "definitions", .list []), (str "names", mapOf []),
      (str "artifact_read", nil)]),
    (str "policy_defer_mode", str "admit")]

/-- The options `%{"x" => 1}`, and `%{"x" => 1.0}`. -/
def wholeOptions : Term := mapOf [(str "x", .int 1)]
def floatOptions : Term := mapOf [(str "x", .float .one)]

theorem bareGenesis_normal :
    normalizeCreationGenesis (bareGenesis wholeOptions) = .ok (bareGenesis wholeOptions) := by
  decide +kernel

/-- A session of a bare genesis. -/
def bare : Opening :=
  { runtimeId := ⟨utf8 "r", by decide, by decide⟩
    commandId := ⟨utf8 "c", by decide, by decide⟩
    selection := ⟨List.replicate 64 48, by decide, by decide⟩
    reserved := bareGenesis wholeOptions
    genesis := bareGenesis wholeOptions
    normal := bareGenesis_normal
    valid := normalizeCreationGenesis_validateItem bareGenesis_normal
    loose := looseEq_self _ }

/-- The same session, created with a genesis that is `==` to the one reserved. -/
def mixed : Opening :=
  { bare with
    genesis := bareGenesis floatOptions
    valid := by decide +kernel
    loose := by decide +kernel }

end Opening

end Loopex.Store
