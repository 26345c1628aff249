import Loopex.Store.CreationProvenance
import Loopex.Store.Opening
import Loopex.System.Tables

/-!
# Paging the creations of a runtime

A reader asks for the first page of a runtime and follows the cursors, while the Store goes on.

* `Records` — a step of the Store, with the sessions it created
* `Indexed` — what the three indexes hold of the sessions created
* `Reading` — the rows read so far, and the cursor
* `creation_paging` — the rows are the creations of the runtime up to the cut of the first page
-/

namespace Loopex.Store

open Loopex.Erlang Loopex.Erlang.Term Loopex.Runtime Loopex.System CreationProvenance

variable {access : StructAccess} {S S' : State} {T : Transaction} {kvs : List (Term × Term)}
  {resolution : Resolution} {records : List Record} {events : List Term}

/-! ## the sessions created -/

/-- A session, as it was created. -/
structure Creation where
  runtimeId : Identifier
  commandId : Identifier
  sessionId : Identifier
  digest : Bytes

def Creation.row (c : Creation) (ordinal : ℕ) : CreationRow :=
  ⟨c.runtimeId, c.commandId, c.sessionId, hex c.digest, ordinal⟩

/-- The creations of a runtime, in their order. -/
def creationsIn (created : List Creation) (r : Identifier) : List Creation :=
  created.filter fun c => c.runtimeId = r

/-- What an answer created. -/
def creationOf (kvs : List (Term × Term)) : Outcome → List Creation
  | .committed _ (.create sessionId) =>
    match validateTransaction (.map kvs) with
    | .ok ⟨.createSession t, _, digest⟩ => [⟨t.runtimeId, t.commandId, sessionId, digest⟩]
    | _ => []
  | _ => []

/-- A state, and the sessions created so far. -/
abbrev Ledger : Type := State × List Creation

/-- A step of the Store, with the session it created. -/
def Records (access : StructAccess) (L : Ledger) (kvs : List (Term × Term)) (L' : Ledger) : Prop :=
  ∃ fuel frame outcome, prepare access fuel L.1 kvs = .ok (.new L'.1 frame outcome) ∧
    L'.2 = L.2 ++ creationOf kvs outcome

/-- A create of a reserved capsule bears a genesis in its normal form, if not the one reserved. -/
def Indexable (S : State) (kvs : List (Term × Term)) : Prop :=
  ∀ T t c, validateTransaction (.map kvs) = .ok T → T.body = .createSession t →
    S.creationCapsules.lookup (t.runtimeId, t.commandId) = some c → c.state = .reserved →
    looseEq c.genesis t.genesis = true → ∃ genesis, SessionGenesis.normalize t.genesis = .ok genesis

/-! ## the indexes -/

/-- The three indexes, the sessions and the commands of the sessions created. -/
structure Indexed (S : State) (created : List Creation) : Prop where
  ordinals : ∀ r, (S.createOrdinals.lookup r).getD 0 = (creationsIn created r).length
  rows : ∀ r n, S.creationRows.lookup (r, n) =
    if n = 0 then none else (creationsIn created r)[n - 1]?.map fun c => some (c.row n)
  sessionCreations : ∀ r n c, (creationsIn created r)[n]? = some c →
    S.sessionCreations.lookup c.sessionId = some (r, n + 1)
  indexed : ∀ s, (S.sessionCreations.lookup s).isSome → ∃ c ∈ created, c.sessionId = s
  sizes : S.creationRows.entries.length = created.length ∧ S.sessionCreations.entries.length = created.length ∧
    S.sessions.entries.length = created.length
  known : ∀ s, (S.sessions.lookup s).isSome → ∃ c ∈ created, c.sessionId = s
  sessions : ∀ c ∈ created, ∃ session, S.sessions.lookup c.sessionId = some session ∧ session.runtimeId = c.runtimeId
  commands : ∀ c ∈ created, ∃ retained,
    S.runtimeCommands.lookup (c.runtimeId, c.commandId) = some (.created retained c.sessionId)
  distinct : (created.map Creation.sessionId).Nodup ∧ (created.map fun c => (c.runtimeId, c.commandId)).Nodup
  digests : ∀ c ∈ created, c.digest.length = 32
  bound : ∀ r, (creationsIn created r).length ≤ (S.creationHead r).domainVersion

theorem indexed_new : Indexed State.new [] := by
  constructor <;> simp [State.new, creationsIn]

theorem mem_of_creationsIn {created : List Creation} {r : Identifier} {n : ℕ} {c : Creation}
    (h : (creationsIn created r)[n]? = some c) : c ∈ created ∧ c.runtimeId = r := by
  simpa [creationsIn] using List.mem_of_getElem? h

/-! ## steps that create nothing -/

/-- The heads only count up. -/
theorem Moves.versions (h : Moves S T S' resolution records events) (r : Identifier) :
    (S.creationHead r).domainVersion ≤ (S'.creationHead r).domainVersion := by
  have hput : ∀ {r' : Identifier} {head : Head}, S'.creationHeads = S.creationHeads.insert r' head →
      (S.creationHead r').domainVersion ≤ head.domainVersion →
      (S.creationHead r).domainVersion ≤ (S'.creationHead r).domainVersion := by
    intro r' head hS hle
    rw [State.creationHead_insert hS]
    split
    · next hr => rwa [hr]
    · exact le_rfl
  cases h with
  | claim body generation maximum head_eq =>
    subst head_eq
    exact hput rfl le_rfl
  | reserve body eligible idle capsule command generation version head_eq
    | cancel body closes unknown eligible generation version head_eq =>
    subst head_eq
    exact hput rfl (Nat.le_succ _)
  | create => exact hput rfl (Nat.le_succ _)
  | _ => exact le_rfl

/-- A step that leaves the indexes keeps what they hold. -/
theorem Indexed.frame {created : List Creation} (h : Indexed S created)
    (hordinals : S'.createOrdinals = S.createOrdinals) (hrows : S'.creationRows = S.creationRows)
    (hcreations : S'.sessionCreations = S.sessionCreations) (hkept : S.SessionsKept S')
    (hsize : S'.sessions.entries.length = S.sessions.entries.length)
    (hknown : ∀ s, (S'.sessions.lookup s).isSome → (S.sessions.lookup s).isSome) (hcommands : S.CommandsKept S')
    (hversions : ∀ r, (S.creationHead r).domainVersion ≤ (S'.creationHead r).domainVersion) :
    Indexed S' created where
  ordinals := by rw [hordinals]; exact h.ordinals
  rows := by rw [hrows]; exact h.rows
  sessionCreations := by rw [hcreations]; exact h.sessionCreations
  indexed := by rw [hcreations]; exact h.indexed
  sizes := by rw [hrows, hcreations, hsize]; exact h.sizes
  known := fun s hs => h.known s (hknown s hs)
  sessions := by
    intro c hc
    obtain ⟨session, hl, hr⟩ := h.sessions c hc
    obtain ⟨session', -, hl', hr', -⟩ := hkept _ _ hl
    exact ⟨session', hl', hr'.trans hr⟩
  commands := by
    intro c hc
    obtain ⟨retained, hl⟩ := h.commands c hc
    obtain ⟨e, he, hk⟩ := hcommands _ _ hl
    cases hk
    exact ⟨retained, he⟩
  distinct := h.distinct
  digests := h.digests
  bound := fun r => (h.bound r).trans (hversions r)

/-- A step that is no create keeps the indexes. -/
theorem Moves.indexed {created : List Creation} (h : Moves S T S' resolution records events)
    (hn : S.retainedResolution T.body.scope = none) (hi : Indexed S created)
    (hc : ∀ s, resolution ≠ .committed (.create s)) : Indexed S' created := by
  have hkept := h.sessionsKept
  have hcommands := h.commandsKept hn
  have hversions := h.versions
  have hput : ∀ {id : Identifier} {session session' : Session}, S.sessions.lookup id = some session →
      S'.sessions = S.sessions.insert id session' → S'.createOrdinals = S.createOrdinals →
      S'.creationRows = S.creationRows → S'.sessionCreations = S.sessionCreations → Indexed S' created := by
    intro id session session' hl hS h1 h2 h3
    refine hi.frame h1 h2 h3 hkept ?_ (fun s hs => ?_) hcommands hversions
    · rw [hS]
      exact length_insert_of_some hl
    · rw [hS] at hs
      by_cases he : s = id
      · rw [he, hl]
        rfl
      · rwa [AList.lookup_insert_ne he] at hs
  cases h with
  | refuse | claim | reserve | closed | cancel | unreserved | absent =>
    exact hi.frame rfl rfl rfl hkept rfl (fun _ hs => hs) hcommands hversions
  | create => exact absurd rfl (hc _)
  | nonCommit scope session_eq | stage body session_eq | succeed body session_eq | resume body session_eq
    | commit body session_eq => exact hput session_eq rfl rfl rfl rfl

/-! ## the step that creates -/

/-- The row of a create whose genesis is in its normal form. -/
theorem creationRow_normal {t : CreateSession} (hb : T.body = .createSession t) (hT : build T.body = .ok T)
    {genesis : Term} (hg : SessionGenesis.normalize t.genesis = .ok genesis) (sessionId : Identifier) (n : ℕ) :
    creationRow T t sessionId n =
      some ((⟨t.runtimeId, t.commandId, sessionId, T.canonicalMutationDigest⟩ : Creation).row n) := by
  have hsame : genesis = t.genesis := by
    have h1 := (SessionGenesis.normalize_eq_ok hg).1
    have h2 := (validateItem_eq_ok.1 t.valid).1
    rw [h1] at h2
    exact Except.ok.inj h2
  subst hsame
  rw [creationRow, hg]
  simp only [createSession_of_body hb hT, and_self, if_true]
  rfl

theorem creationsIn_append (created : List Creation) (x : Creation) (r : Identifier) :
    creationsIn (created ++ [x]) r =
      if x.runtimeId = r then creationsIn created r ++ [x] else creationsIn created r := by
  unfold creationsIn
  rw [List.filter_append]
  by_cases h : x.runtimeId = r <;> simp [h]

/-- **A create extends the indexes.** -/
theorem Indexed.create {created : List Creation} {t : CreateSession} {c : Capsule} {sessionId : Identifier}
    {number : ℕ} (hi : Indexed S created) (hb : T.body = .createSession t) (hT : build T.body = .ok T)
    (hfresh : S.sessions.lookup sessionId = none)
    (hfree : S.runtimeCommands.lookup (t.runtimeId, t.commandId) = none)
    (hnormal : ∃ genesis, SessionGenesis.normalize t.genesis = .ok genesis)
    (hkept : S.SessionsKept (S.created T t c sessionId number))
    (hcommands : S.CommandsKept (S.created T t c sessionId number)) :
    Indexed (S.created T t c sessionId number)
      (created ++ [⟨t.runtimeId, t.commandId, sessionId, T.canonicalMutationDigest⟩]) := by
  obtain ⟨genesis, hg⟩ := hnormal
  have hnew : ∀ x ∈ created, x.sessionId ≠ sessionId := by
    intro x hx he
    obtain ⟨session, hl, -⟩ := hi.sessions x hx
    rw [he, hfresh] at hl
    cases hl
  have hcommand : ∀ x ∈ created, (x.runtimeId, x.commandId) ≠ (t.runtimeId, t.commandId) := by
    intro x hx he
    obtain ⟨retained, hl⟩ := hi.commands x hx
    rw [he, hfree] at hl
    cases hl
  have hunindexed : S.sessionCreations.lookup sessionId = none := by
    rw [← Option.not_isSome_iff_eq_none]
    intro hs
    obtain ⟨x, hx, he⟩ := hi.indexed sessionId hs
    exact hnew x hx he
  have hordinal := hi.ordinals t.runtimeId
  have hrow : S.creationRows.lookup (t.runtimeId, (S.createOrdinals.lookup t.runtimeId).getD 0 + 1) = none := by
    rw [hi.rows, hordinal]
    simp
  constructor
  · intro r
    change ((S.createOrdinals.insert t.runtimeId ((S.createOrdinals.lookup t.runtimeId).getD 0 + 1)).lookup r).getD 0 = _
    rw [creationsIn_append]
    by_cases hr : t.runtimeId = r
    · subst hr
      simp [hordinal]
    · rw [AList.lookup_insert_ne (Ne.symm hr), hi.ordinals]
      simp [hr]
  · intro r n
    change (S.creationRows.insert (t.runtimeId, (S.createOrdinals.lookup t.runtimeId).getD 0 + 1)
      (creationRow T t sessionId ((S.createOrdinals.lookup t.runtimeId).getD 0 + 1))).lookup (r, n) = _
    rw [creationRow_normal hb hT hg, creationsIn_append]
    by_cases hkey : (r, n) = (t.runtimeId, (S.createOrdinals.lookup t.runtimeId).getD 0 + 1)
    · obtain ⟨rfl, rfl⟩ := Prod.mk.inj hkey
      rw [AList.lookup_insert, hordinal]
      simp
    · rw [AList.lookup_insert_ne hkey, hi.rows]
      by_cases hn : n = 0
      · simp [hn]
      · rw [if_neg hn, if_neg hn]
        congr 1
        by_cases hr : t.runtimeId = r
        · subst hr
          have hne : n - 1 ≠ (creationsIn created t.runtimeId).length := by
            intro he
            refine hkey ?_
            rw [hordinal, ← he]
            congr 1
            omega
          simp only [if_true]
          rcases Nat.lt_or_ge (n - 1) (creationsIn created t.runtimeId).length with hlt | hge
          · rw [List.getElem?_append_left hlt]
          · rw [List.getElem?_eq_none hge, List.getElem?_eq_none (by simp; omega)]
        · simp [hr]
  · intro r n x hx
    change (S.sessionCreations.insert sessionId
      (t.runtimeId, (S.createOrdinals.lookup t.runtimeId).getD 0 + 1)).lookup x.sessionId = _
    rw [creationsIn_append] at hx
    by_cases hr : t.runtimeId = r
    · subst hr
      simp only [if_true] at hx
      rcases Nat.lt_or_ge n (creationsIn created t.runtimeId).length with hlt | hge
      · rw [List.getElem?_append_left hlt] at hx
        rw [AList.lookup_insert_ne (hnew x (mem_of_creationsIn hx).1)]
        exact hi.sessionCreations _ _ _ hx
      · rw [List.getElem?_append_right hge, List.getElem?_singleton] at hx
        split at hx <;> [skip; cases hx]
        next hzero =>
        obtain rfl := Option.some.inj hx
        rw [AList.lookup_insert, hordinal]
        congr 2
        omega
    · rw [if_neg hr] at hx
      rw [AList.lookup_insert_ne (hnew x (mem_of_creationsIn hx).1)]
      exact hi.sessionCreations _ _ _ hx
  · intro s hs
    change ((S.sessionCreations.insert sessionId _).lookup s).isSome at hs
    by_cases he : s = sessionId
    · exact ⟨_, List.mem_append_right _ List.mem_cons_self, he.symm⟩
    · rw [AList.lookup_insert_ne he] at hs
      obtain ⟨x, hx, hxs⟩ := hi.indexed s hs
      exact ⟨x, List.mem_append_left _ hx, hxs⟩
  · obtain ⟨h1, h2, h3⟩ := hi.sizes
    rw [List.length_append, List.length_singleton, ← h1]
    refine ⟨length_insert_of_none hrow, (length_insert_of_none hunindexed).trans ?_,
      (length_insert_of_none hfresh).trans ?_⟩
    · rw [h2, h1]
    · rw [h3, h1]
  · intro s hs
    change ((S.sessions.insert sessionId _).lookup s).isSome at hs
    by_cases he : s = sessionId
    · exact ⟨_, List.mem_append_right _ List.mem_cons_self, he.symm⟩
    · rw [AList.lookup_insert_ne he] at hs
      obtain ⟨x, hx, hxs⟩ := hi.known s hs
      exact ⟨x, List.mem_append_left _ hx, hxs⟩
  · intro x hx
    rcases List.mem_append.1 hx with hx | hx
    · obtain ⟨session, hl, hr⟩ := hi.sessions x hx
      obtain ⟨session', -, hl', hr', -⟩ := hkept _ _ hl
      exact ⟨session', hl', hr'.trans hr⟩
    · obtain rfl := List.mem_singleton.1 hx
      exact ⟨_, AList.lookup_insert _, rfl⟩
  · intro x hx
    rcases List.mem_append.1 hx with hx | hx
    · obtain ⟨retained, hl⟩ := hi.commands x hx
      obtain ⟨e, he, hk⟩ := hcommands _ _ hl
      cases hk
      exact ⟨retained, he⟩
    · obtain rfl := List.mem_singleton.1 hx
      exact ⟨_, AList.lookup_insert _⟩
  · rw [List.map_append, List.map_append, List.nodup_append, List.nodup_append]
    refine ⟨⟨hi.distinct.1, by simp, ?_⟩, hi.distinct.2, by simp, ?_⟩
    · simpa using hnew
    · intro a ha b hb'
      obtain ⟨x, hx, rfl⟩ := List.mem_map.1 ha
      rw [List.map_singleton, List.mem_singleton] at hb'
      exact hb' ▸ hcommand x hx
  · intro x hx
    rcases List.mem_append.1 hx with hx | hx
    · exact hi.digests x hx
    · obtain rfl := List.mem_singleton.1 hx
      rw [(build_eq_ok.1 hT).1]
      exact sha256_length _
  · intro r
    have hle := hi.bound r
    have hhead : (S.created T t c sessionId number).creationHead r = _ := State.creationHead_insert rfl r
    rw [hhead, creationsIn_append]
    by_cases hr : t.runtimeId = r
    · subst hr
      simpa [Head.advance] using hle
    · rw [if_neg hr, if_neg (Ne.symm hr)]
      exact hle

/-! ## runs -/

/-- The steps whose creates bear a genesis in its normal form. -/
abbrev Indexing (access : StructAccess) : Ledger → List (Term × Term) → Ledger → Prop :=
  Guarded (Records access) fun L kvs => Indexable L.1 kvs

theorem Records.presents {L L' : Ledger} (h : Records access L kvs L') : Presents access L.1 kvs L'.1 := by
  obtain ⟨fuel, frame, outcome, h, -⟩ := h
  exact ⟨fuel, frame, outcome, h⟩

/-- **An indexable step keeps what the indexes hold.** -/
theorem Indexing.indexed {L L' : Ledger} (h : Indexing access L kvs L') (hi : Indexed L.1 L.2) :
    Indexed L'.1 L'.2 := by
  obtain ⟨S, created⟩ := L
  obtain ⟨S', created'⟩ := L'
  obtain ⟨⟨fuel, frame, outcome, hp, hcreated⟩, hindexable⟩ := h
  obtain ⟨T, resolution, records, events, hT, hn, hm, -, rfl⟩ := prepare_new hp
  simp only at hcreated hi hindexable ⊢
  by_cases hc : ∃ s, resolution = .committed (.create s)
  · obtain ⟨s, rfl⟩ := hc
    have hkept := hm.sessionsKept
    have hcommands := hm.commandsKept hn
    cases hm with
    | @create t c _ number body capsule runtime command valid reserved genesis generation version id fresh =>
      have hbuild := validate_canonical hT
      have hnew : creationOf kvs (outcomeOf T.body.txId (.committed (.create s))) =
          [⟨t.runtimeId, t.commandId, s, T.canonicalMutationDigest⟩] := by
        obtain ⟨b, bytes, digest⟩ := T
        simp only at body
        subst body
        simp only [creationOf, outcomeOf, hT]
      rw [hcreated, hnew]
      simp only [State.taken, Bool.or_eq_false_iff, Option.isSome_eq_false_iff, Option.isNone_iff_eq_none] at fresh
      rw [body] at hn
      exact hi.create body hbuild fresh.1 (by simpa [State.retainedResolution, Body.scope] using hn)
        (hindexable T _ _ hT body capsule reserved genesis) hkept hcommands
  · have hnone : ∀ s, resolution ≠ .committed (.create s) := fun s he => hc ⟨s, he⟩
    have hnew : creationOf kvs (outcomeOf T.body.txId resolution) = [] := by
      cases resolution with
      | notCommitted => rfl
      | committed receipt =>
        cases receipt with
        | create s => exact absurd rfl (hnone s)
        | _ => rfl
    rw [hcreated, hnew, List.append_nil]
    exact hm.indexed hn hi hnone

/-- The ledgers that indexable runs reach. -/
def Recorded (access : StructAccess) (L : Ledger) : Prop :=
  ∃ presented, Run (Indexing access) (State.new, []) presented L

theorem Recorded.indexed {L : Ledger} (h : Recorded access L) : Indexed L.1 L.2 ∧ L.1.Custody := by
  obtain ⟨presented, h⟩ := h
  refine h.invariant (I := fun L => Indexed L.1 L.2 ∧ L.1.Custody) ⟨indexed_new, State.custody_new⟩ ?_
  intro L kvs L' hI hs
  obtain ⟨T, resolution, records, events, -, -, hm⟩ := hs.1.presents.moves
  exact ⟨Indexing.indexed hs hI.1, hm.custody hI.2⟩

theorem Recorded.run {L L' : Ledger} {presented : List (List (Term × Term))} (h : Recorded access L)
    (hr : Run (Indexing access) L presented L') : Recorded access L' := by
  obtain ⟨before, h⟩ := h
  exact ⟨_, h.trans hr⟩

/-- The creations only grow. -/
theorem creations_extend {L L' : Ledger} {presented : List (List (Term × Term))}
    (hr : Run (Indexing access) L presented L') (r : Identifier) :
    creationsIn L.2 r <+: creationsIn L'.2 r := by
  refine hr.relates (I := fun _ => True) (R := fun L L' => creationsIn L.2 r <+: creationsIn L'.2 r)
    (fun _ => List.prefix_rfl) ?_ trivial (fun _ _ _ _ _ => trivial) ?_
  · intro L M N h h'
    exact h.trans h'
  · intro L kvs L' _ h
    obtain ⟨⟨_, _, _, -, hc⟩, -⟩ := h
    simp only [hc, creationsIn, List.filter_append]
    exact List.prefix_append _ _

/-! ## the rows -/

/-- The rows of a runtime, in the order of its creations. -/
def rowList (created : List Creation) (r : Identifier) : List CreationRow :=
  (creationsIn created r).mapIdx fun i c => c.row (i + 1)

@[simp] theorem rowList_length (created : List Creation) (r : Identifier) :
    (rowList created r).length = (creationsIn created r).length := List.length_mapIdx

theorem rowList_getElem? (created : List Creation) (r : Identifier) (i : ℕ) :
    (rowList created r)[i]? = (creationsIn created r)[i]?.map fun c => c.row (i + 1) := List.getElem?_mapIdx

/-- The rows only grow. -/
theorem rowList_prefix {created created' : List Creation} {r : Identifier}
    (h : creationsIn created r <+: creationsIn created' r) : rowList created r <+: rowList created' r := by
  obtain ⟨more, hmore⟩ := h
  rw [rowList, rowList, ← hmore, List.mapIdx_append]
  exact List.prefix_append _ _

variable {created : List Creation} {r : Identifier}

theorem rowList_sound (hi : Indexed S created) (hc : S.Custody) {row : CreationRow} (h : row ∈ rowList created r) :
    row.Sound ∧ row.runtimeId = r := by
  obtain ⟨i, hrow⟩ := List.mem_iff_getElem?.1 h
  rw [rowList_getElem?] at hrow
  obtain ⟨c, hget, rfl⟩ := Option.map_eq_some_iff.1 hrow
  obtain ⟨hmem, hr⟩ := mem_of_creationsIn hget
  have hlt := (List.getElem?_eq_some_iff.1 hget).1
  have hbound := hi.bound r
  have hv := ((hc.heads r).bounds).1
  refine ⟨⟨⟨?_, all_isHex_hex _⟩, Nat.succ_pos _, ?_⟩, hr⟩
  · change (hex c.digest).length = 64
    rw [hex_length, hi.digests c hmem]
  · change i + 1 ≤ creationUint64
    omega

theorem rowList_ordinals (created : List Creation) (r : Identifier) :
    (rowList created r).map CreationRow.createOrdinal = List.range' 1 (creationsIn created r).length := by
  apply List.ext_getElem?
  intro i
  rw [List.getElem?_map, rowList_getElem?, Option.map_map]
  rcases Nat.lt_or_ge i (creationsIn created r).length with hlt | hge
  · rw [List.getElem?_eq_getElem hlt, List.getElem?_range' hlt]
    simp [Creation.row, Nat.add_comm]
  · rw [List.getElem?_eq_none hge, List.getElem?_eq_none (by simpa using hge)]
    rfl

/-- No two rows of a runtime have a command or a session in common. -/
theorem rowList_apart (hi : Indexed S created) :
    (rowList created r).Pairwise fun a b => a.commandId ≠ b.commandId ∧ a.sessionId ≠ b.sessionId := by
  have hsub : (creationsIn created r).Sublist created := List.filter_sublist
  have hsessions := (hsub.map Creation.sessionId).nodup hi.distinct.1
  have hcommands := (hsub.map fun c => (c.runtimeId, c.commandId)).nodup hi.distinct.2
  rw [List.Nodup, List.pairwise_map] at hsessions hcommands
  rw [List.pairwise_iff_getElem] at hsessions hcommands ⊢
  intro i j hi' hj' hij
  rw [rowList_length] at hi' hj'
  have hr : ∀ {n} (hn : n < (creationsIn created r).length), ((creationsIn created r)[n]).runtimeId = r := fun hn =>
    (mem_of_creationsIn (List.getElem?_eq_getElem hn)).2
  have h1 := hsessions i j hi' hj' hij
  have h2 := hcommands i j hi' hj' hij
  rw [hr hi', hr hj'] at h2
  simp only [rowList, List.getElem_mapIdx, Creation.row]
  exact ⟨fun he => h2 (by rw [he]), h1⟩

/-- The rows a page reads. -/
theorem creationRowsAfter_eq (hi : Indexed S created) {after last : ℕ} (hlast : last ≤ (creationsIn created r).length) :
    creationRowsAfter S r after last =
      (((rowList created r).drop after).take (last - after)).map CreationRow.toTerm := by
  apply List.ext_getElem?
  intro i
  rw [creationRowsAfter, List.getElem?_map, List.getElem?_map]
  rcases Nat.lt_or_ge i (last - after) with hlt | hge
  · have hin : after + i < (creationsIn created r).length := by omega
    rw [List.getElem?_range' hlt, List.getElem?_take_of_lt hlt, List.getElem?_drop, rowList_getElem?,
      List.getElem?_eq_getElem hin]
    simp only [Option.map_some, hi.rows, Nat.one_mul]
    rw [if_neg (by omega), show after + 1 + i - 1 = after + i by omega, List.getElem?_eq_getElem hin]
    simp only [Option.map_some, Option.getD_some, rowTerm, show after + 1 + i = after + i + 1 by omega]
  · rw [List.getElem?_eq_none (by simpa using hge), List.getElem?_eq_none (by simp; omega)]
    rfl

/-- **The index of a runtime is complete.** -/
theorem Indexed.complete (hi : Indexed S created) (r : Identifier) : completeCreationIndex S r = true := by
  obtain ⟨h1, h2, h3⟩ := hi.sizes
  have hends : creationEndpoints S r ((S.createOrdinals.lookup r).getD 0) = true := by
    rw [hi.ordinals]
    unfold creationEndpoints
    split
    · next hzero =>
      have hnil := List.length_eq_zero_iff.1 hzero
      simp [hi.rows, hnil]
    · next hpos =>
      have h1 : 0 < (creationsIn created r).length := Nat.pos_of_ne_zero hpos
      have h2 : (creationsIn created r).length - 1 < (creationsIn created r).length := by omega
      simp [hi.rows, hpos, List.getElem?_eq_getElem h1, List.getElem?_eq_getElem h2]
  simp [completeCreationIndex, h1, h2, h3, hends]

/-! ## one page -/

/-- A cursor that stands after an ordinal of a cut. -/
inductive Resumes (r : Identifier) (count : ℕ) : Term → ℕ → ℕ → Prop
  | first : Resumes r count nil count 0
  | after {through after : ℕ} (more : after < through) (cut : through ≤ count) :
      Resumes r count (CreationProvenance.cursor r.term through after) through after

theorem atomMap_ne_nil (fs : Fields) : atomMap fs ≠ nil := by
  rw [atomMap, nil, sym]
  exact Term.noConfusion

theorem cursor_eq_nil {r : Identifier} {through after : ℕ} :
    CreationProvenance.cursor r.term through after = nil ↔ after = through := by
  unfold CreationProvenance.cursor
  split
  · next h => simp [h]
  · next h => simp [h, atomMap_ne_nil]

/-- What is read of a cursor. -/
theorem Resumes.reads {count through after : ℕ} {cursor : Term} (h : Resumes r count cursor through after)
    (hcount : count ≤ creationUint64) :
    (if cursor = nil then some count else quantity (atomField cursor "through_create_ordinal")) = some through ∧
      (if cursor = nil then some 0 else quantity (atomField cursor "after_create_ordinal")) = some after ∧
      pageStart cursor (.int through) = some (.int after) ∧ validCursor r.term cursor = true ∧ after ≤ through ∧
      through ≤ count := by
  cases h with
  | first => simp [pageStart, validCursor]
  | @after through after more cut =>
    have hne := cursor_eq_nil (r := r).not.2 more.ne
    have hthrough := quantity_int (cut.trans hcount)
    have hafter := quantity_int (more.le.trans (cut.trans hcount))
    rw [if_neg hne, if_neg hne, pageStart, if_neg hne, validCursor, if_neg hne, CreationProvenance.cursor,
      if_neg more.ne]
    have hclosed : closedMap (atomMap (cursorFields r.term through after)) cursorKeys = true :=
      closedMap_atomMap (cursorFields_apart r.term through after) (by simp [cursorFields]) rfl
    simp only [hclosed, atomField_atomMap (cursorFields_apart r.term through after)]
    simp [cursorFields, hthrough, hafter, more.le, cut]

/-- The rows after an ordinal, a page of them. -/
def slice (created : List Creation) (r : Identifier) (through after limit : ℕ) : List CreationRow :=
  ((rowList created r).drop after).take (min (after + limit) through - after)

/-- The page that is answered. -/
def pageOf (created : List Creation) (r : Identifier) (through after limit : ℕ) : Term :=
  atomMap (pageFields r through ((slice created r through after limit).map CreationRow.toTerm)
    (min (after + limit) through))

/-- **Every page is answered, and passes the validator.** -/
theorem Indexed.answer (hi : Indexed S created) (hc : S.Custody) {cursor : Term} {through after limit : ℕ}
    (hcursor : Resumes r (creationsIn created r).length cursor through after) (hpos : 1 ≤ limit) (hlimit : limit ≤ 16) :
    S.creationProvenance r.term (.runtimePage cursor limit) = .page (pageOf created r through after limit) ∧
      normalize r.term (.runtimePage cursor limit) (.page (pageOf created r through after limit)) =
        .page (pageOf created r through after limit) := by
  have hcount : (creationsIn created r).length ≤ creationUint64 := (hi.bound r).trans (hc.heads r).bounds.1
  obtain ⟨h1, h2, h3, h4, h5, h6⟩ := hcursor.reads hcount
  have hlen : (slice created r through after limit).length = min limit (through - after) := by
    rw [slice, List.length_take, List.length_drop, rowList_length]
    omega
  have hmem : ∀ row ∈ slice created r through after limit, row ∈ rowList created r := fun row h =>
    List.mem_of_mem_drop (List.mem_of_mem_take h)
  have hordinals : (slice created r through after limit).map CreationRow.createOrdinal =
      List.range' (after + 1) (slice created r through after limit).length := by
    rw [hlen, slice, List.map_take, List.map_drop, rowList_ordinals, List.drop_range',
      List.take_range'_of_length_ge (by omega)]
    congr 1 <;> omega
  have hvalid := validPage_rows h3 hlimit h5 (h6.trans hcount) hlen (fun row h => rowList_sound hi hc (hmem row h))
    hordinals ((rowList_apart hi).sublist ((List.take_sublist _ _).trans (List.drop_sublist _ _)))
  have hnormal : normalize r.term (.runtimePage cursor limit) (.page (pageOf created r through after limit)) =
      .page (pageOf created r through after limit) := by
    rw [CreationProvenance.normalize, pageOf, if_pos hvalid]
  refine ⟨?_, hnormal⟩
  have hselector : validSelector r.term (.runtimePage cursor limit) = true := by
    simp [validSelector, h4]
    omega
  have hpage : creationPage S r through after (min (after + limit) through) = pageOf created r through after limit := by
    rw [creationPage, creationRowsAfter_eq hi (by omega)]
    rfl
  simp only [State.creationProvenance, asIdentifier_term, hselector, hi.complete r, Bool.and_self, if_true,
    creationQuery, creationQueryPage, hi.ordinals, h1, h2, Int.toNat_natCast, hpage, hnormal]
  rw [if_neg (by omega)]

/-! ## reading page by page -/

/-- The rows of a page. -/
def pageRows (page : Term) : List Term :=
  match atomField page "rows" with
  | .list rows => rows
  | _ => []

/-- A reader of the pages of a runtime: the cut of its first page, the cursor it follows, and the rows it read.
Other transactions are committed before every further page. -/
inductive Reading (access : StructAccess) (r : Identifier) : Ledger → ℕ → Term → List Term → Prop
  | first {L : Ledger} {limit through : ℕ} {page : Term} (reached : Recorded access L) (pos : 1 ≤ limit)
      (le : limit ≤ 16)
      (answer : L.1.creationProvenance r.term (.runtimePage nil limit) = .page page)
      (cut : atomField page "through_create_ordinal" = .int through) :
      Reading access r L through (atomField page "next_cursor") (pageRows page)
  | next {L L' : Ledger} {through limit : ℕ} {cursor : Term} {rows : List Term} {page : Term}
      {presented : List (List (Term × Term))} (before : Reading access r L through cursor rows) (more : cursor ≠ nil)
      (others : Run (Indexing access) L presented L') (pos : 1 ≤ limit) (le : limit ≤ 16)
      (answer : L'.1.creationProvenance r.term (.runtimePage cursor limit) = .page page) :
      Reading access r L' through (atomField page "next_cursor") (rows ++ pageRows page)

theorem atomField_pageOf (created : List Creation) (r : Identifier) (through after limit : ℕ) :
    atomField (pageOf created r through after limit) "through_create_ordinal" = .int through ∧
      atomField (pageOf created r through after limit) "next_cursor" =
        CreationProvenance.cursor r.term through (min (after + limit) through) ∧
      pageRows (pageOf created r through after limit) =
        (slice created r through after limit).map CreationRow.toTerm := by
  have hfield := atomField_atomMap (pageFields_apart r through
    ((slice created r through after limit).map CreationRow.toTerm) (min (after + limit) through))
  rw [pageRows, pageOf]
  simp only [hfield]
  simp [pageFields]

/-- The rows up to a cut. -/
def rowsThrough (created : List Creation) (r : Identifier) (through : ℕ) : List Term :=
  ((rowList created r).take through).map CreationRow.toTerm

/-- The rows read, and the next page. -/
theorem rowsThrough_slice {created created' : List Creation} {r : Identifier} {through after : ℕ} (limit : ℕ)
    (h : creationsIn created r <+: creationsIn created' r) (hafter : after ≤ through)
    (hcut : through ≤ (creationsIn created r).length) :
    rowsThrough created r after ++ (slice created' r through after limit).map CreationRow.toTerm =
      rowsThrough created' r (min (after + limit) through) := by
  have hprefix := rowList_prefix h
  have htake : (rowList created r).take after = (rowList created' r).take after := by
    obtain ⟨more, hmore⟩ := hprefix
    rw [← hmore, List.take_append_of_le_length]
    rw [rowList_length]
    omega
  rw [rowsThrough, rowsThrough, htake, slice, ← List.map_append]
  congr 1
  rw [show min (after + limit) through = after + (min (after + limit) through - after) by omega]
  rw [List.take_add, Nat.add_sub_cancel_left]

/-- **What a reader has read**: the first rows of the cut, up to its cursor. -/
theorem Reading.spec {L : Ledger} {r : Identifier} {through : ℕ} {cursor : Term} {rows : List Term}
    (h : Reading access r L through cursor rows) : Recorded access L ∧ through ≤ (creationsIn L.2 r).length ∧
      ∃ n ≤ through, rows = rowsThrough L.2 r n ∧ cursor = CreationProvenance.cursor r.term through n := by
  induction h with
  | @first L limit through page reached pos le answer cut =>
    obtain ⟨hi, hc⟩ := reached.indexed
    obtain ⟨hanswer, -⟩ := hi.answer hc (.first (r := r)) pos le
    rw [hanswer] at answer
    cases answer
    obtain ⟨h1, h2, h3⟩ := atomField_pageOf L.2 r (creationsIn L.2 r).length 0 limit
    rw [h1] at cut
    obtain rfl : (creationsIn L.2 r).length = through := by simpa using cut
    refine ⟨reached, le_rfl, min (0 + limit) _, by omega, ?_, h2⟩
    have hrows := rowsThrough_slice limit (List.prefix_refl (creationsIn L.2 r)) (Nat.zero_le _) le_rfl
    rw [h3, ← hrows]
    simp [rowsThrough]
  | @next L L' through limit cursor rows page presented before more others pos le answer ih =>
    obtain ⟨hr, hcut, n, hn, rfl, rfl⟩ := ih
    have hr' := hr.run others
    obtain ⟨hi, hc⟩ := hr'.indexed
    have hprefix := creations_extend others r
    have hlen := hprefix.length_le
    have hlt : n < through := Nat.lt_of_le_of_ne hn (mt cursor_eq_nil.2 more)
    obtain ⟨hanswer, -⟩ := hi.answer hc (.after hlt (hcut.trans hlen)) pos le
    rw [hanswer] at answer
    cases answer
    obtain ⟨-, h2, h3⟩ := atomField_pageOf L'.2 r through n limit
    refine ⟨hr', hcut.trans hlen, min (n + limit) through, by omega, ?_, h2⟩
    rw [h3, rowsThrough_slice limit hprefix hn hcut]

/-- A page that is answered passes the validator unchanged. -/
theorem page_passes {r : Identifier} {cursor page : Term} {limit : ℤ}
    (h : S.creationProvenance r.term (.runtimePage cursor limit) = .page page) :
    normalize r.term (.runtimePage cursor limit) (.page page) = .page page := by
  simp only [State.creationProvenance, asIdentifier_term] at h
  split at h <;> [skip; cases h]
  next hselector =>
  have hpos : 1 ≤ limit := by
    simp only [validSelector, Bool.and_eq_true, decide_eq_true_eq] at hselector
    exact hselector.1.1.1.2
  simp only [creationQuery, creationQueryPage] at h
  split at h <;> [skip; cases h]
  split at h <;> [cases h; skip]
  rw [show ((limit.toNat : ℕ) : ℤ) = limit by omega, CreationProvenance.normalize] at h
  split at h <;> [skip; cases h]
  next hvalid =>
  cases h
  rw [CreationProvenance.normalize, if_pos hvalid]

/-- **The point queries of a session created** answer its row. -/
theorem Indexed.point (hi : Indexed S created) (hc : S.Custody) {c : Creation} (h : c ∈ created) :
    ∃ row ∈ rowList created c.runtimeId, row.commandId = c.commandId ∧ row.sessionId = c.sessionId ∧
      ∀ selector ∈ [Selector.command c.commandId.term, .session c.sessionId.term],
        S.creationProvenance c.runtimeId.term selector = .historical row.point ∧
          normalize c.runtimeId.term selector (.historical row.point) = .historical row.point := by
  have hmem : c ∈ creationsIn created c.runtimeId := List.mem_filter.2 ⟨h, by simp⟩
  obtain ⟨i, hget⟩ := List.mem_iff_getElem?.1 hmem
  have hrow : c.row (i + 1) ∈ rowList created c.runtimeId := by
    refine List.mem_iff_getElem?.2 ⟨i, ?_⟩
    rw [rowList_getElem?, hget]
    rfl
  obtain ⟨hsound, -⟩ := rowList_sound hi hc hrow
  obtain ⟨-, hvalid⟩ := CreationRow.valid hsound
  obtain ⟨session, hsession, hruntime⟩ := hi.sessions c h
  obtain ⟨retained, hcommand⟩ := hi.commands c h
  have hcreation := hi.sessionCreations _ _ _ hget
  have hlookup : S.creationRows.lookup (c.runtimeId, i + 1) = some (some (c.row (i + 1))) := by
    rw [hi.rows, if_neg (Nat.succ_ne_zero i), Nat.add_sub_cancel, hget]
    rfl
  have hquery : creationQuerySession S c.runtimeId c.sessionId = .historical (c.row (i + 1)).point := by
    simp [creationQuerySession, hsession, hruntime, hcreation, hlookup, Creation.row]
  have hfields : atomField (c.row (i + 1)).point "command_id" = c.commandId.term ∧
      atomField (c.row (i + 1)).point "session_id" = c.sessionId.term := by
    rw [CreationRow.atomField_point, CreationRow.atomField_point]
    exact ⟨rfl, rfl⟩
  have hvalid' : validRow c.runtimeId.term (c.row (i + 1)).point false = true := hvalid
  refine ⟨_, hrow, rfl, rfl, ?_⟩
  simp only [List.forall_mem_cons, List.not_mem_nil, false_imp_iff, implies_true, and_true]
  constructor
  · constructor
    · simp [State.creationProvenance, validSelector, hi.complete, creationQuery, creationQueryCommand, hcommand, hquery]
    · simp [CreationProvenance.normalize, hvalid', hfields.1]
  · constructor
    · simp [State.creationProvenance, validSelector, hi.complete, creationQuery, hquery]
    · simp [CreationProvenance.normalize, hvalid', hfields.2]

/-- **Paging is complete and stable.** In every ledger an indexable run reaches, the sessions are the creations, each
once; a first page is answered, and cuts the creations of its runtime where they end; whatever is committed between
the pages, every page is answered and passes the validator, every further page has rows, and a reader has read the
rows of the first creations in their order, all those of the cut where the cursor ends; and the command and the session
of a creation are answered with its row. -/
theorem creation_paging {L : Ledger} (h : Recorded access L) (r : Identifier) :
    (L.2.map Creation.sessionId).Nodup ∧
    (∀ s, (L.1.sessions.lookup s).isSome ↔ ∃ c ∈ L.2, c.sessionId = s) ∧
    (∀ c ∈ L.2, ∃ session, L.1.sessions.lookup c.sessionId = some session ∧ session.runtimeId = c.runtimeId) ∧
    (∀ limit : ℕ, 1 ≤ limit → limit ≤ 16 → ∃ page,
      L.1.creationProvenance r.term (.runtimePage nil limit) = .page page ∧
        atomField page "through_create_ordinal" = .int (creationsIn L.2 r).length) ∧
    (∀ through cursor rows, Reading access r L through cursor rows →
      (∃ n ≤ through, rows = rowsThrough L.2 r n ∧ (cursor = nil ↔ n = through)) ∧
      (cursor ≠ nil → ∀ presented L', Run (Indexing access) L presented L' → ∀ limit : ℕ, 1 ≤ limit → limit ≤ 16 →
        ∃ page, L'.1.creationProvenance r.term (.runtimePage cursor limit) = .page page ∧ pageRows page ≠ [])) ∧
    (∀ cursor limit page, L.1.creationProvenance r.term (.runtimePage cursor limit) = .page page →
      normalize r.term (.runtimePage cursor limit) (.page page) = .page page) ∧
    ∀ c ∈ L.2, ∃ row ∈ rowList L.2 c.runtimeId, row.commandId = c.commandId ∧ row.sessionId = c.sessionId ∧
      ∀ selector ∈ [Selector.command c.commandId.term, .session c.sessionId.term],
        L.1.creationProvenance c.runtimeId.term selector = .historical row.point ∧
          normalize c.runtimeId.term selector (.historical row.point) = .historical row.point := by
  obtain ⟨hi, hc⟩ := h.indexed
  refine ⟨hi.distinct.1, fun s => ⟨hi.known s, ?_⟩, hi.sessions, ?_, ?_, fun _ _ _ => page_passes, fun c => hi.point hc⟩
  · rintro ⟨c, hmem, rfl⟩
    obtain ⟨session, hl, -⟩ := hi.sessions c hmem
    rw [hl]
    rfl
  · intro limit hpos hle
    exact ⟨_, (hi.answer hc .first hpos hle).1, (atomField_pageOf L.2 r _ 0 limit).1⟩
  · intro through cursor rows hreading
    obtain ⟨-, hcut, n, hn, hrows, hcursor⟩ := hreading.spec
    refine ⟨⟨n, hn, hrows, by rw [hcursor, cursor_eq_nil]⟩, ?_⟩
    intro hmore presented L' hrun limit hpos hle
    obtain ⟨hi', hc'⟩ := (h.run hrun).indexed
    have hlen := (creations_extend hrun r).length_le
    rw [hcursor] at hmore ⊢
    have hlt : n < through := Nat.lt_of_le_of_ne hn (mt cursor_eq_nil.2 hmore)
    refine ⟨_, (hi'.answer hc' (.after hlt (hcut.trans hlen)) hpos hle).1, ?_⟩
    rw [(atomField_pageOf L'.2 r through n limit).2.2]
    intro hnil
    have hzero := congrArg List.length hnil
    rw [List.length_map, slice, List.length_take, List.length_drop, rowList_length, List.length_nil] at hzero
    omega

/-- A presented run, with the sessions it created. -/
theorem recorded_run (access : StructAccess) {presented : List (List (Term × Term))}
    (h : Run (Guarded (Presents access) Indexable) S presented S')
    (created : List Creation) : ∃ created', Run (Indexing access) (S, created) presented (S', created') := by
  induction h with
  | nil => exact ⟨created, .nil⟩
  | @snoc is s kvs s' _ hs ih =>
    obtain ⟨created', hr⟩ := ih
    obtain ⟨⟨fuel, frame, outcome, hp⟩, hg⟩ := hs
    exact ⟨_, .snoc hr ⟨⟨fuel, frame, outcome, hp, rfl⟩, hg⟩⟩

/-- A presentation that is no create is indexable. -/
theorem indexable_of_body (hT : validateTransaction (.map kvs) = .ok T) (hb : ∀ t, T.body ≠ .createSession t) :
    Indexable S kvs := by
  intro T' t c hT' ht
  rw [hT] at hT'
  cases hT'
  exact absurd ht (hb t)

/-- A transaction that is no create is indexable. -/
theorem indexable_seal {b : Body} (hfits : (encodeFields b.fields).length ≤ maxMutationBytes)
    (hchecks : b.Checks (verdictOf (Transaction.seal b).entries)) (hb : ∀ t, b ≠ .createSession t) :
    Indexable S (Transaction.seal b).entries :=
  indexable_of_body (validateTransaction_entries (build_seal hfits) hchecks) hb

theorem indexable_claim (t : ClaimCreationDomain) : Indexable S (Transaction.seal (.claimCreationDomain t)).entries :=
  indexable_seal (claimCreationDomain_fits t) trivial fun _ h => by cases h

theorem indexable_reserve (t : ReserveCreation) : Indexable S (Transaction.seal (.reserveCreation t)).entries :=
  indexable_seal (reserveCreation_fits t) trivial fun _ h => by cases h

/-- A create is, if its genesis has a normal form. -/
theorem indexable_create {t : CreateSession} {genesis : Term} (hg : SessionGenesis.normalize t.genesis = .ok genesis) :
    Indexable S (Transaction.seal (.createSession t)).entries := by
  intro T t' c hT hb _ _ _
  rw [validateTransaction_entries (build_seal (createSession_fits t)) trivial] at hT
  cases hT
  cases hb
  exact ⟨genesis, hg⟩

/-- An opened session is in the index, if its genesis is in its normal form. -/
theorem Opening.recorded (o : Opening) (access : StructAccess) {genesis : Term}
    (hg : SessionGenesis.normalize o.genesis = .ok genesis) :
    ∃ created, Recorded access (o.opened, created) := by
  obtain ⟨created, hr⟩ := recorded_run access
    (.snoc (.snoc (.snoc .nil ⟨o.presents_claim, indexable_claim _⟩) ⟨o.presents_reserve, indexable_reserve _⟩)
      ⟨o.presents_create, indexable_create hg⟩) []
  exact ⟨created, _, hr⟩

/-! ### a second session of the runtime -/

namespace Opening

/-- The command of a second session in the runtime of the bare one. -/
def second : Identifier := ⟨utf8 "e", by decide, by decide⟩

def reserveSecond : ReserveCreation :=
  ⟨bare.runtimeId, second, 3, bare.selection, 2, bare.reserved, by decide, by decide, by decide, bare.normal⟩

def createSecond : CreateSession := ⟨bare.runtimeId, second, bare.genesis, bare.valid⟩

def heldSecond : State :=
  bare.opened.reserved (.seal (.reserveCreation reserveSecond)) reserveSecond ⟨4, some bare.selection, 3, some second⟩

def openedSecond : State :=
  heldSecond.created (.seal (.createSession createSecond)) createSecond (reserveCapsule reserveSecond)
    (sessionIdOf bare.runtimeId second 2) 2

theorem unused_second :
    (bare.opened.creationResolutions.lookup (bare.runtimeId, .reserveCreation, reserveSecond.txId)).isNone = true ∧
    (bare.opened.creationCapsules.lookup (bare.runtimeId, second)).isNone = true ∧
    (bare.opened.runtimeCommands.lookup (bare.runtimeId, second)).isNone = true ∧
    heldSecond.taken (sessionIdOf bare.runtimeId second 2) = false := by
  decide +kernel

theorem bare_creationHead : bare.opened.creationHead bare.runtimeId = ⟨3, some bare.selection, 2, none⟩ := by
  have hheld : bare.held.creationHead bare.runtimeId = bare.reservedHead :=
    (State.creationHead_insert rfl _).trans (if_pos rfl)
  refine (State.creationHead_insert rfl _).trans ((if_pos rfl).trans ?_)
  rw [show bare.create.runtimeId = bare.runtimeId from rfl, hheld]
  rfl

theorem presents_reserveSecond :
    Presents access bare.opened (Transaction.seal (.reserveCreation reserveSecond)).entries heldSecond := by
  have hv : (⟨4, some bare.selection, 3, some second⟩ : Head).Valid := by
    constructor <;> simp [creationUint64]
  have hnext : ((⟨4, some bare.selection, 3, some second⟩ : Head).advance none).Valid := by
    constructor <;> simp [Head.advance, creationUint64]
  obtain ⟨hn, hcap, hcmd, -⟩ := unused_second
  rw [Option.isNone_iff_eq_none] at hn hcap hcmd
  have hfree : bare.opened.retainedResolution (Transaction.seal (.reserveCreation reserveSecond)).body.scope = none := by
    rw [Transaction.seal, Body.scope, State.retainedResolution]
    exact congrArg (Option.map Entry.retained) hn
  have he : creationEligibility ⟨3, some bare.selection, 2, none⟩ reserveSecond.claimant = none :=
    creationEligibility_eq_none.2 ⟨rfl, rfl, rfl⟩
  exact Loopex.Store.presents_reserve (t := reserveSecond) ⟨3, some bare.selection, 2, none⟩ rfl
    (build_seal (reserveCreation_fits _)) hfree bare_creationHead
    he rfl hcap hcmd (by decide) (by decide)
    (prospectiveRecoveryFits_true reserveSecond hv hnext (by decide))

theorem presents_createSecond :
    Presents access heldSecond (Transaction.seal (.createSession createSecond)).entries openedSecond := by
  have hreserve : ExactPresentation bare.opened (Transaction.seal (.reserveCreation reserveSecond)).entries :=
    exactPresentation_of_body
      (validateTransaction_entries (build_seal (reserveCreation_fits _)) trivial) (by simp [Transaction.seal])
  obtain ⟨hcustody, hkept⟩ := Run.kept (.snoc (bare.run_exact rfl)
    ⟨presents_reserveSecond, hreserve⟩ : Run (Guarded (Presents noAccess) ExactPresentation) State.new _ heldSecond)
  have hhead : heldSecond.creationHead bare.runtimeId = ⟨4, some bare.selection, 3, some second⟩ :=
    (State.creationHead_insert rfl _).trans (if_pos rfl)
  have hcap : heldSecond.creationCapsules.lookup (bare.runtimeId, second) = some (reserveCapsule reserveSecond) :=
    AList.lookup_insert _
  have hof := State.Kept.capsuleOf hcustody hkept hcap
  rw [hhead] at hof
  have hn : heldSecond.retainedResolution (Transaction.seal (.createSession createSecond)).body.scope = none := by
    obtain ⟨-, -, hcmd, -⟩ := unused_second
    rw [Option.isNone_iff_eq_none] at hcmd
    exact congrArg (Option.map RuntimeCommand.entry) hcmd
  exact Loopex.Store.presents_create (t := createSecond) rfl (build_seal (createSession_fits _)) hn hhead hcap hof rfl
    (looseEq_self _) (by decide) (by decide) rfl rfl unused_second.2.2.2

/-- Both sessions are in the index. -/
theorem recorded_second (access : StructAccess) : ∃ created, Recorded access (openedSecond, created) ∧
    (creationsIn created bare.runtimeId).length = 2 := by
  obtain ⟨genesis, hg, -⟩ := Except.bind_eq_ok.1 bareGenesis_normal
  obtain ⟨created, h⟩ := bare.recorded access hg
  obtain ⟨created', hr⟩ := recorded_run access
    (.snoc (.one ⟨presents_reserveSecond, indexable_reserve _⟩) ⟨presents_createSecond, indexable_create hg⟩) created
  refine ⟨created', h.run hr, ?_⟩
  rw [← (h.run hr).indexed.1.ordinals]
  refine (congrArg (Option.getD · 0) (AList.lookup_insert _)).trans ?_
  exact congrArg (fun n => n + 1 + 1) rfl

/-- A claim of another runtime. -/
def claimOther : ClaimCreationDomain := ⟨second, 0, bare.selection, Nat.zero_le _⟩

def claimedOther : State :=
  openedSecond.claimed (.seal (.claimCreationDomain claimOther)) claimOther.runtimeId
    ((openedSecond.creationHead claimOther.runtimeId).claim claimOther.ownerSelection)

theorem presents_claimOther :
    Presents access openedSecond (Transaction.seal (.claimCreationDomain claimOther)).entries claimedOther := by
  have hunused : (openedSecond.creationHead claimOther.runtimeId).ownerGeneration = 0 ∧
      (openedSecond.creationResolutions.lookup
        (claimOther.runtimeId, .claimCreationDomain, claimOther.txId)).isNone = true := by decide +kernel
  obtain ⟨hgeneration, hn⟩ := hunused
  have hfree : openedSecond.retainedResolution (Transaction.seal (.claimCreationDomain claimOther)).body.scope = none := by
    rw [Transaction.seal, Body.scope, State.retainedResolution]
    exact congrArg (Option.map Entry.retained) (Option.isNone_iff_eq_none.1 hn)
  exact Loopex.Store.presents_claim (t := claimOther) rfl (build_seal (claimCreationDomain_fits _)) hfree hgeneration
    (hgeneration.symm ▸ Nat.zero_le _)

end Opening

/-- A reader takes the first session of the runtime, and after the claim of another runtime the second. -/
theorem creation_paging_second : ∃ created created' cursor rows rows',
    Reading noAccess Opening.bare.runtimeId (Opening.openedSecond, created) 2 cursor rows ∧ cursor ≠ nil ∧ rows' ≠ [] ∧
    Reading noAccess Opening.bare.runtimeId (Opening.claimedOther, created') 2 nil (rows ++ rows') ∧
    rows ++ rows' = rowsThrough created' Opening.bare.runtimeId 2 := by
  obtain ⟨created, hrec, hlen⟩ := Opening.recorded_second noAccess
  obtain ⟨created', hrun⟩ := recorded_run noAccess (.one ⟨Opening.presents_claimOther, indexable_claim _⟩) created
  -- the page of one row
  obtain ⟨hi, hc⟩ := hrec.indexed
  obtain ⟨hcut, hcursor, hrows⟩ := atomField_pageOf created Opening.bare.runtimeId 2 0 1
  have hpage := (hi.answer (r := Opening.bare.runtimeId) hc .first le_rfl (by decide : 1 ≤ 16)).1
  rw [hlen] at hpage
  have h := Reading.first hrec le_rfl (by decide) hpage hcut
  have hmore : atomField (pageOf created Opening.bare.runtimeId 2 0 1) "next_cursor" ≠ nil := by
    rw [hcursor, Ne, cursor_eq_nil]
    decide
  -- the page after it
  obtain ⟨-, hnext⟩ := (creation_paging hrec Opening.bare.runtimeId).2.2.2.2.1 _ _ _ h
  obtain ⟨page, hanswer, hne⟩ := hnext hmore _ _ hrun 16 (by decide) le_rfl
  have h' := Reading.next h hmore hrun (by decide) le_rfl hanswer
  obtain ⟨⟨n, hn, hread, hend⟩, -⟩ := (creation_paging (hrec.run hrun) Opening.bare.runtimeId).2.2.2.2.1 _ _ _ h'
  have htwo : n = 2 := by
    have hcount := congrArg List.length hread
    rw [List.length_append, hrows, List.length_map, slice, List.length_take, List.length_drop, rowList_length, hlen,
      rowsThrough, List.length_map, List.length_take] at hcount
    have hpos := List.length_pos_iff.2 hne
    omega
  rw [htwo] at hread
  rw [hend.2 htwo] at h'
  exact ⟨created, created', _, _, _, h, hmore, hne, h', hread⟩

/-! ## the create of an unusual genesis -/

/-- **A create whose genesis is `==` to the reserved one but has no normal form hides its runtime**: no page and no
row of it is answered. -/
theorem Opening.unindexed (o : Opening) (hg : ∀ genesis, SessionGenesis.normalize o.genesis ≠ .ok genesis) (limit : ℕ)
    (hpos : 1 ≤ limit) :
    o.opened.creationProvenance o.runtimeId.term (.runtimePage nil limit) = .unavailable ∧
      o.opened.creationProvenance o.runtimeId.term (.session o.sessionId.term) = .unavailable := by
  have hordinal : (o.opened.createOrdinals.lookup o.runtimeId).getD 0 = 1 := by
    change (AList.lookup o.runtimeId (AList.insert o.runtimeId 1 _)).getD 0 = 1
    rw [AList.lookup_insert]
    rfl
  have hrow : o.opened.creationRows.lookup (o.runtimeId, 1) = some none := by
    refine (AList.lookup_insert _).trans (congrArg some ?_)
    rw [creationRow]
    split
    · next genesis h => exact absurd h (hg genesis)
    · rfl
  have hcreation : o.opened.sessionCreations.lookup o.sessionId = some (o.runtimeId, 1) := AList.lookup_insert _
  constructor
  · have hrows : creationRowsAfter o.opened o.runtimeId 0 1 = [sym "unavailable"] := by
      simp [creationRowsAfter, hrow, rowTerm]
    have hinvalid : validPage o.runtimeId.term nil limit (creationPage o.opened o.runtimeId 1 0 1) = false := by
      rw [creationPage, hrows]
      exact validPage_unavailable
    have hlast : min limit 1 = 1 := by omega
    simp only [State.creationProvenance, asIdentifier_term]
    split <;> [skip; rfl]
    simp [creationQuery, creationQueryPage, hordinal, hlast, CreationProvenance.normalize, hinvalid]
  · have hquery : creationQuerySession o.opened o.runtimeId o.sessionId = .unavailable := by
      simp [creationQuerySession, o.opened_session, Session.create, hcreation, hrow]
    simp only [State.creationProvenance, asIdentifier_term]
    split <;> [skip; rfl]
    simp [creationQuery, hquery]

/-- A bare genesis whose cleanup grace is a float. -/
def floatGrace : Term :=
  put (Opening.bareGenesis Opening.wholeOptions) "runtime_configuration" (mapOf [(str "cleanup_grace_ms", .float .one)])

theorem floatGrace_loose : validateItem .record floatGrace = .ok () ∧
    looseEq (Opening.bareGenesis Opening.wholeOptions) floatGrace = true ∧
    SessionGenesis.normalize floatGrace = .error .invalidSessionGenesis := by
  decide +kernel

/-- `cleanup_grace_ms` is reserved as `1` and created as `1.0`: the create commits, and its session is in no page. -/
theorem creation_paging_loose : ∃ S, Reachable noAccess S ∧ ∃ r s : Identifier, (S.sessions.lookup s).isSome ∧
    S.creationProvenance r.term (.runtimePage nil 16) = .unavailable ∧
    S.creationProvenance r.term (.session s.term) = .unavailable := by
  obtain ⟨hvalid, hloose, hg⟩ := floatGrace_loose
  let o : Opening :=
    ⟨Opening.bare.runtimeId, Opening.bare.commandId, Opening.bare.selection, Opening.bareGenesis Opening.wholeOptions,
      floatGrace, Opening.bareGenesis_normal, hvalid, hloose⟩
  have hno : ∀ genesis, SessionGenesis.normalize o.genesis ≠ .ok genesis := by
    intro genesis h
    rw [show o.genesis = floatGrace from rfl, hg] at h
    cases h
  refine ⟨o.opened, o.reachable_opened, o.runtimeId, o.sessionId, ?_, o.unindexed hno 16 (by decide)⟩
  rw [o.opened_session]
  rfl

end Loopex.Store
