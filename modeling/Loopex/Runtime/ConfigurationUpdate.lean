import Loopex.Runtime.SessionConfiguration

/-!
# Configuration updates

An operator authors changes to a few settings, the host resolves the facts of the model, and the two make the next
configuration (`SessionConfiguration.update`).  The session owner does not trust the host: a candidate counts only if
the same update computes it again (`validate_candidate`).

* `resolve`, `update`, `validateCandidate` — as the source computes them
* `fetch_put`, `fetch_take`, `fetch_mergeMap` — reading the maps that an update builds
* `Follows` — what the next configuration has from the changes, from the current settings and from the host
* `update_follows`, `validateCandidate_follows` — an accepted candidate follows
* `Follows.context_kept` — a derived ceiling moves with the reply reserve and with the captured window only
-/

namespace Loopex.Runtime.SessionConfiguration

open Loopex.Erlang Loopex.Erlang.Term Loopex.Store

def declarationRequired : List String := ["model", "reasoning", "configuration_version", "instructions", "max_tokens"]
def declarationOptional : List String := ["context_token_budget", "system_class_tokens"]

/-- `declaration_shape?`. -/
def declarationShape (declaration : Term) : Bool :=
  (declarationRequired.all fun key => (fetch declaration key).isSome) &&
    onlyKeys declaration (declarationRequired ++ declarationOptional)

/-- How a setting was selected. -/
def origin (configuration : Term) (key : String) : Term := get (get configuration "budget_origins") key

/-- The context ceiling that follows from the captured window, with its origin. -/
def derivedContext (window reserve : Term) : Term × Term :=
  match window, reserve with
  | .int w, .int r => (.int (w - r), str "model_window")
  | _, _ => (.int 8192, str "unknown_window")

/-- `resolve_budgets`. -/
def resolveBudgets (candidate : Term) : Term :=
  let (context, contextOrigin) :=
    match fetch candidate "context_token_budget" with
    | some explicit => (explicit, str "explicit")
    | none => derivedContext (get (get candidate "model_capabilities") "context_window") (get candidate "max_tokens")
  let (system, systemOrigin) :=
    match fetch candidate "system_class_tokens" with
    | some explicit => (explicit, "explicit")
    | none => (.int 1000, "legacy_default")
  put (put (put candidate "context_token_budget" context) "system_class_tokens" system) "budget_origins"
    (mapOf [(str "context_token_budget", contextOrigin), (str "system_class_tokens", str systemOrigin)])

/-- `resolve`: a configuration from explicit selections and captured facts. -/
def resolve (declaration capabilities mapping definitions : Term) : Option Term :=
  if isPlainMap declaration && declarationShape declaration && positive (get declaration "max_tokens") then
    let candidate := put (put declaration "model_capabilities" capabilities) "provider_mapping" mapping
    if validCapabilities candidate && validate (resolveBudgets candidate) definitions then
      some (resolveBudgets candidate)
    else none
  else none

/-- `retain_explicit_ceiling`. -/
def retainExplicitCeiling (current : Term) (key : String) (declaration : Term) : Term :=
  if origin current key = str "explicit" then put declaration key (get current key) else declaration

/-- One member of a merge: `t` takes the member of `b`. -/
def mergeOne (b t key : Term) : Term :=
  match t, b with
  | .map kvs, .map members => .map (putEntry key ((lookup key members).getD nil) kvs)
  | t, _ => t

/-- `Map.merge`: the members of the second map replace those of the first. -/
def mergeMap (a b : Term) : Term := (keys b).foldl (mergeOne b) a

/-- `configuration_version + 1`. -/
def nextVersion : Term → Term
  | .int n => .int (n + 1)
  | t => t

/-- What an update declares. -/
def declaration (current changes : Term) : Term :=
  put (mergeMap (retainExplicitCeiling current "system_class_tokens" (retainExplicitCeiling current
    "context_token_budget" (take current declarationRequired))) changes)
    "configuration_version" (nextVersion (get current "configuration_version"))

inductive UpdateError where
  | invalidConfigurationUpdate | invalidSessionConfiguration
  deriving DecidableEq

/-- `update`. -/
def update (current changes capabilities mapping definitions : Term) : Except UpdateError Term :=
  if !validateUpdate changes then .error .invalidConfigurationUpdate
  else if !validate current definitions then .error .invalidSessionConfiguration
  else match resolve (declaration current changes) capabilities mapping definitions with
    | some candidate => .ok candidate
    | none => .error .invalidSessionConfiguration

/-- The authored changes with the model the host resolved, where a model was authored. -/
def effectiveChanges (authored candidate : Term) : Term :=
  if (fetch authored "model").isSome then put authored "model" (get candidate "model") else authored

/-- `validate_candidate`. -/
def validateCandidate (current authored candidate definitions : Term) : Bool :=
  isMap current && isMap authored && isMap candidate && validateUpdate authored &&
    ((fetch authored "model").isSome || looseEq (get candidate "model") (get current "model")) &&
    update current (effectiveChanges authored candidate) (get candidate "model_capabilities")
      (get candidate "provider_mapping") definitions = .ok candidate

/-! ## reading what was written -/

variable {t a b current changes authored candidate capabilities mapping definitions : Term}

theorem encode_str_ne {k l : String} (h : k ≠ l) : encode (str k) ≠ encode (str l) := by
  intro heq
  exact h (utf8_inj.1 (encode_binary_inj.1 heq))

@[simp] theorem isMap_put {k : String} {v : Term} : isMap (put t k v) = isMap t := by
  cases t <;> rfl

@[simp] theorem isMap_take {names : List String} : isMap (take t names) = isMap t := by
  cases t <;> rfl

theorem fetch_put_self {k : String} {v : Term} (h : isMap t = true) : fetch (put t k v) k = some v := by
  cases t with
  | map kvs => exact lookup_putEntry_self _ _ _
  | _ => cases h

theorem fetch_put_ne {k l : String} {v : Term} (h : k ≠ l) : fetch (put t l v) k = fetch t k := by
  cases t with
  | map kvs => exact lookup_putEntry_ne (encode_str_ne h)
  | _ => rfl

theorem get_put_self {k : String} {v : Term} (h : isMap t = true) : get (put t k v) k = v := by
  rw [get, fetch_put_self h]
  rfl

theorem get_put_ne {k l : String} {v : Term} (h : k ≠ l) : get (put t l v) k = get t k := by
  rw [get, fetch_put_ne h, get]

theorem lookup_filter_mem {key : Term} {p : Term → Bool} {kvs : List (Term × Term)} :
    lookup key (kvs.filter fun e => p e.1) = if p key then lookup key kvs else none := by
  induction kvs with
  | nil => simp [lookup]
  | cons e kvs ih =>
    rw [List.filter_cons]
    by_cases he : e.1 = key
    · subst he
      cases hp : p e.1 with
      | true => simp [lookup]
      | false => simp [ih, hp]
    · cases hp : p e.1 with
      | true => simp [lookup, he, ih]
      | false => simp [lookup, he, ih]

theorem fetch_take {names : List String} {k : String} : fetch (take t names) k = if k ∈ names then fetch t k else none := by
  cases t with
  | map kvs =>
    have h := @lookup_filter_mem (str k) (fun key => decide (key ∈ names.map str)) kvs
    refine h.trans ?_
    simp only [decide_eq_true_eq, List.mem_map, str_inj, exists_eq_right, fetch]
  | _ => simp [take, fetch]

theorem isMap_mergeOne {key : Term} : isMap (mergeOne b t key) = isMap t := by
  cases t <;> cases b <;> rfl

theorem isMap_foldl_mergeOne {ks : List Term} : isMap (ks.foldl (mergeOne b) t) = isMap t := by
  induction ks generalizing t with
  | nil => rfl
  | cons key ks ih => rw [List.foldl_cons, ih, isMap_mergeOne]

theorem fetch_mergeOne {key : Term} {k : String} (hb : isMap b = true) (ht : isMap t = true)
    (hkey : ∃ l, key = str l) :
    fetch (mergeOne b t key) k = if key = str k then some ((fetch b k).getD nil) else fetch t k := by
  obtain ⟨l, rfl⟩ := hkey
  cases b with
  | map members =>
    cases t with
    | map kvs =>
      by_cases hl : l = k
      · subst hl
        rw [if_pos rfl]
        exact lookup_putEntry_self _ _ _
      · rw [if_neg (by simpa using hl)]
        exact lookup_putEntry_ne (encode_str_ne (Ne.symm hl))
    | _ => cases ht
  | _ => cases hb

theorem fetch_foldl_mergeOne {ks : List Term} {k : String} (hb : isMap b = true) (ht : isMap t = true)
    (hks : ∀ key ∈ ks, ∃ l, key = str l) : fetch (ks.foldl (mergeOne b) t) k =
      if str k ∈ ks then some ((fetch b k).getD nil) else fetch t k := by
  induction ks generalizing t with
  | nil => simp
  | cons key ks ih =>
    rw [List.foldl_cons, ih (by rwa [isMap_mergeOne]) fun key hkey => hks key (List.mem_cons_of_mem _ hkey),
      fetch_mergeOne hb ht (hks key List.mem_cons_self)]
    by_cases hmem : str k ∈ ks
    · rw [if_pos hmem, if_pos (List.mem_cons_of_mem _ hmem)]
    · by_cases hk : key = str k
      · rw [if_neg hmem, if_pos hk, if_pos (List.mem_cons.2 (Or.inl hk.symm))]
      · rw [if_neg hmem, if_neg hk, if_neg fun h => (List.mem_cons.1 h).elim (fun h => hk h.symm) hmem]

theorem mem_keys {k : String} : str k ∈ keys b ↔ (fetch b k).isSome = true := by
  cases b with
  | map kvs =>
    constructor
    · intro h
      obtain ⟨e, he, hk⟩ := List.mem_map.1 h
      cases hf : fetch (.map kvs) k with
      | none => exact absurd hk (lookup_eq_none.1 hf e he)
      | some v => rfl
    · intro h
      obtain ⟨v, hv⟩ := Option.isSome_iff_exists.1 h
      exact List.mem_map_of_mem (f := Prod.fst) (lookup_eq_some hv)
  | _ => simp [keys, fetch]

/-- **A merge.**  The second map answers for its keys, the first for the others. -/
theorem fetch_mergeMap {k : String} {names : List String} (ha : isMap a = true) (hb : isMap b = true)
    (hnames : onlyKeys b names = true) : fetch (mergeMap a b) k = (fetch b k).or (fetch a k) := by
  have hks : ∀ key ∈ keys b, ∃ l, key = str l := by
    intro key hkey
    obtain ⟨l, -, hl⟩ := List.mem_map.1 (of_decide_eq_true (List.all_eq_true.1 hnames key hkey))
    exact ⟨l, hl.symm⟩
  refine (fetch_foldl_mergeOne hb ha hks).trans ?_
  cases hf : fetch b k with
  | none => rw [if_neg fun h => by rw [mem_keys, hf] at h; cases h]; rfl
  | some v => rw [if_pos (mem_keys.2 (by rw [hf]; rfl))]; rfl

/-! ## the declaration -/

theorem isMap_retainExplicitCeiling {key : String} : isMap (retainExplicitCeiling current key t) = isMap t := by
  unfold retainExplicitCeiling
  split
  · exact isMap_put
  · rfl

theorem fetch_retainExplicitCeiling {key k : String} (h : isMap t = true) :
    fetch (retainExplicitCeiling current key t) k =
      if k = key ∧ origin current key = str "explicit" then some (get current key) else fetch t k := by
  unfold retainExplicitCeiling
  by_cases horigin : origin current key = str "explicit"
  · rw [if_pos horigin]
    by_cases hk : k = key
    · subst hk
      rw [if_pos ⟨rfl, horigin⟩, fetch_put_self h]
    · rw [if_neg fun hc => hk hc.1, fetch_put_ne hk]
  · rw [if_neg horigin, if_neg fun hc => horigin hc.2]

/-- The members of the current configuration that a declaration takes over. -/
theorem fetch_retained {k : String} (h : isMap current = true) :
    fetch (retainExplicitCeiling current "system_class_tokens" (retainExplicitCeiling current "context_token_budget"
      (take current declarationRequired))) k =
      if k ∈ declarationOptional ∧ origin current k = str "explicit" then some (get current k)
      else if k ∈ declarationRequired then fetch current k else none := by
  have ht : isMap (take current declarationRequired) = true := by rw [isMap_take, h]
  rw [fetch_retainExplicitCeiling (by rw [isMap_retainExplicitCeiling, ht]), fetch_retainExplicitCeiling ht, fetch_take]
  by_cases hs : k = "system_class_tokens"
  · subst hs
    simp [declarationOptional]
  · by_cases hc : k = "context_token_budget"
    · subst hc
      simp [declarationOptional]
    · simp [declarationOptional, hs, hc]

theorem validateUpdate_spec (h : validateUpdate changes = true) :
    isMap changes = true ∧ onlyKeys changes mutable = true := by
  simp only [validateUpdate, Bool.and_eq_true] at h
  refine ⟨?_, h.1.2⟩
  cases changes with
  | map kvs => rfl
  | _ => cases h.1.1.1

theorem fetch_declaration {k : String} (hcurrent : isMap current = true) (hchanges : validateUpdate changes = true)
    (hk : k ≠ "configuration_version") : fetch (declaration current changes) k =
      (fetch changes k).or (if k ∈ declarationOptional ∧ origin current k = str "explicit" then some (get current k)
        else if k ∈ declarationRequired then fetch current k else none) := by
  obtain ⟨hmap, hkeys⟩ := validateUpdate_spec hchanges
  rw [declaration, fetch_put_ne hk, fetch_mergeMap ?_ hmap hkeys, fetch_retained hcurrent]
  rw [isMap_retainExplicitCeiling, isMap_retainExplicitCeiling, isMap_take, hcurrent]

theorem isMap_declaration (hcurrent : isMap current = true) : isMap (declaration current changes) = true := by
  rw [declaration, isMap_put, mergeMap, isMap_foldl_mergeOne, isMap_retainExplicitCeiling, isMap_retainExplicitCeiling,
    isMap_take, hcurrent]

/-! ## the budgets -/

theorem fetch_resolveBudgets {k : String} (hk : k ∉ ["context_token_budget", "system_class_tokens", "budget_origins"]) :
    fetch (resolveBudgets t) k = fetch t k := by
  simp only [List.mem_cons, List.not_mem_nil, or_false, not_or] at hk
  rw [resolveBudgets, fetch_put_ne hk.2.2, fetch_put_ne hk.2.1, fetch_put_ne hk.1]

/-- The origins of a resolved configuration. -/
theorem origin_resolveBudgets {key : String} (h : isMap t = true) : origin (resolveBudgets t) key =
    get (mapOf [
      (str "context_token_budget", match fetch t "context_token_budget" with
        | some _ => str "explicit"
        | none => (derivedContext (get (get t "model_capabilities") "context_window") (get t "max_tokens")).2),
      (str "system_class_tokens", match fetch t "system_class_tokens" with
        | some _ => str "explicit"
        | none => str "legacy_default")]) key := by
  rw [origin, resolveBudgets, get_put_self (by rw [isMap_put, isMap_put, h])]
  cases fetch t "context_token_budget" <;> cases fetch t "system_class_tokens" <;> rfl

/-- The two members of a map with two keys. -/
theorem get_pair {k l : String} {v w : Term} (h : k ≠ l) :
    get (mapOf [(str k, v), (str l, w)]) k = v ∧ get (mapOf [(str k, v), (str l, w)]) l = w := by
  have hmap : mapOf [(str k, v), (str l, w)] = put (put (.map []) k v) l w := rfl
  rw [hmap]
  exact ⟨by rw [get_put_ne h, get_put_self rfl], get_put_self rfl⟩

/-- The context ceiling of a resolved configuration, with its origin. -/
theorem resolveBudgets_context (h : isMap t = true) :
    (get (resolveBudgets t) "context_token_budget", origin (resolveBudgets t) "context_token_budget") =
      match fetch t "context_token_budget" with
      | some explicit => (explicit, str "explicit")
      | none => derivedContext (get (get t "model_capabilities") "context_window") (get t "max_tokens") := by
  rw [origin_resolveBudgets h, (get_pair (by decide)).1, resolveBudgets, get_put_ne (by decide), get_put_ne (by decide),
    get_put_self h]
  cases fetch t "context_token_budget" <;> rfl

/-- The system ceiling of a resolved configuration, with its origin. -/
theorem resolveBudgets_system (h : isMap t = true) :
    (get (resolveBudgets t) "system_class_tokens", origin (resolveBudgets t) "system_class_tokens") =
      match fetch t "system_class_tokens" with
      | some explicit => (explicit, str "explicit")
      | none => (.int 1000, str "legacy_default") := by
  rw [origin_resolveBudgets h, (get_pair (by decide)).2, resolveBudgets, get_put_ne (by decide),
    get_put_self (by rw [isMap_put, h])]
  cases fetch t "system_class_tokens" <;> rfl

/-! ## what an update is -/

/-- The next configuration, from the changes, the current settings and the facts of the host. -/
structure Follows (current changes candidate : Term) : Prop where
  version : ∃ v, get current "configuration_version" = .int v ∧ get candidate "configuration_version" = .int (v + 1)
  named : ∀ key ∈ mutable, ∀ value, fetch changes key = some value → get candidate key = value
  namedOrigin : ∀ key ∈ declarationOptional, (fetch changes key).isSome → origin candidate key = str "explicit"
  kept : ∀ key ∈ mutable, fetch changes key = none → key ≠ "context_token_budget" → get candidate key = get current key
  systemOrigin : fetch changes "system_class_tokens" = none →
    origin candidate "system_class_tokens" = origin current "system_class_tokens"
  context : fetch changes "context_token_budget" = none →
    (get candidate "context_token_budget", origin candidate "context_token_budget") =
      if origin current "context_token_budget" = str "explicit" then
        (get current "context_token_budget", str "explicit")
      else derivedContext (get (get candidate "model_capabilities") "context_window") (get candidate "max_tokens")

theorem closed_isSome {names : List String} {k : String} (h : closed t names = true) (hk : k ∈ names) :
    (fetch t k).isSome = true := by
  cases t with
  | map kvs =>
    simp only [closed, closedBy, Bool.and_eq_true, List.all_eq_true] at h
    exact h.2 _ (List.mem_map_of_mem hk)
  | _ => cases h

/-- The parts of a validation that an update relies on. -/
theorem validate_spec (h : validate t definitions = true) : closed t configurationKeys = true ∧
    positive (get t "configuration_version") = true ∧ validBudgets t = true := by
  unfold validate at h
  split at h
  · simp only [Bool.and_eq_true] at h
    tauto
  · cases h

theorem isMap_of_closed {names : List String} (h : closed t names = true) : isMap t = true := by
  cases t with
  | map kvs => rfl
  | _ => cases h

theorem resolve_eq_some {declared : Term} (h : resolve declared capabilities mapping definitions = some candidate) :
    candidate = resolveBudgets (put (put declared "model_capabilities" capabilities) "provider_mapping" mapping) ∧
      validate candidate definitions = true := by
  unfold resolve at h
  split at h
  · dsimp only at h
    split at h
    · next hvalid =>
      obtain rfl := Option.some.inj h
      exact ⟨rfl, (Bool.and_eq_true _ _ ▸ hvalid).2⟩
    · cases h
  · cases h

theorem update_eq_ok (h : update current changes capabilities mapping definitions = .ok candidate) :
    validateUpdate changes = true ∧ validate current definitions = true ∧
      resolve (declaration current changes) capabilities mapping definitions = some candidate := by
  unfold update at h
  split at h
  · cases h
  · next hchanges =>
    split at h
    · cases h
    · next hcurrent =>
      split at h
      · next hresolve =>
        obtain rfl := Except.ok.inj h
        exact ⟨by simpa using hchanges, by simpa using hcurrent, hresolve⟩
      · cases h

/-- A member of the candidate that no budget rule touches is the declared one. -/
theorem get_candidate {declared : Term} {k : String}
    (hk : k ∉ ["context_token_budget", "system_class_tokens", "budget_origins", "model_capabilities", "provider_mapping"]) :
    get (resolveBudgets (put (put declared "model_capabilities" capabilities) "provider_mapping" mapping)) k =
      get declared k := by
  simp only [List.mem_cons, List.not_mem_nil, or_false, not_or] at hk
  rw [get, fetch_resolveBudgets (by simp [hk.1, hk.2.1, hk.2.2.1]), fetch_put_ne hk.2.2.2.2, fetch_put_ne hk.2.2.2.1, get]

theorem context_candidate {declared : Term} (h : isMap declared = true) :
    let candidate := resolveBudgets (put (put declared "model_capabilities" capabilities) "provider_mapping" mapping)
    (get candidate "context_token_budget", origin candidate "context_token_budget") =
      match fetch declared "context_token_budget" with
      | some explicit => (explicit, str "explicit")
      | none => derivedContext (get (get candidate "model_capabilities") "context_window") (get candidate "max_tokens") := by
  intro candidate
  have hcapabilities : get candidate "model_capabilities" =
      get (put (put declared "model_capabilities" capabilities) "provider_mapping" mapping) "model_capabilities" := by
    rw [get, fetch_resolveBudgets (by decide), get]
  have hreserve : get candidate "max_tokens" =
      get (put (put declared "model_capabilities" capabilities) "provider_mapping" mapping) "max_tokens" := by
    rw [get, fetch_resolveBudgets (by decide), get]
  rw [hcapabilities, hreserve, resolveBudgets_context (by rw [isMap_put, isMap_put, h]), fetch_put_ne (by decide),
    fetch_put_ne (by decide)]

theorem system_candidate {declared : Term} (h : isMap declared = true) :
    let candidate := resolveBudgets (put (put declared "model_capabilities" capabilities) "provider_mapping" mapping)
    (get candidate "system_class_tokens", origin candidate "system_class_tokens") =
      match fetch declared "system_class_tokens" with
      | some explicit => (explicit, str "explicit")
      | none => (.int 1000, str "legacy_default") := by
  intro candidate
  rw [resolveBudgets_system (by rw [isMap_put, isMap_put, h]), fetch_put_ne (by decide), fetch_put_ne (by decide)]

/-- An explicit or a default system ceiling: there is no third one. -/
theorem validBudgets_system (h : validBudgets t = true) : origin t "system_class_tokens" = str "explicit" ∨
    origin t "system_class_tokens" = str "legacy_default" ∧ get t "system_class_tokens" = .int 1000 := by
  simp only [validBudgets, Bool.and_eq_true, Bool.or_eq_true, decide_eq_true_eq, ToolDefinition.among, List.map_cons,
    List.map_nil, List.mem_cons, List.not_mem_nil, or_false] at h
  obtain ⟨⟨⟨⟨⟨-, hamong⟩, hdefault⟩, -⟩, -⟩, -⟩ := h
  rcases hamong with hlegacy | hexplicit
  · refine Or.inr ⟨hlegacy, ?_⟩
    rcases hdefault with hne | heq
    · exact absurd hlegacy hne
    · exact heq
  · exact Or.inl hexplicit

theorem plain_of_mutable {k : String} (hk : k ∈ mutable) (hc : k ≠ "context_token_budget") (hs : k ≠ "system_class_tokens") :
    k ∉ ["context_token_budget", "system_class_tokens", "budget_origins", "model_capabilities", "provider_mapping"] ∧
      k ≠ "configuration_version" ∧ k ∉ declarationOptional ∧ k ∈ declarationRequired := by
  simp only [mutable, List.mem_cons, List.not_mem_nil, or_false] at hk
  rcases hk with rfl | rfl | rfl | rfl | rfl | rfl
  iterate 4 exact ⟨by decide, by decide, by decide, by decide⟩
  · exact absurd rfl hc
  · exact absurd rfl hs

/-- **An update follows** the changes, the current settings and the captured facts. -/
theorem update_follows (h : update current changes capabilities mapping definitions = .ok candidate) :
    validate candidate definitions = true ∧ Follows current changes candidate := by
  obtain ⟨hchanges, hvalid, hresolve⟩ := update_eq_ok h
  obtain ⟨rfl, hcandidate⟩ := resolve_eq_some hresolve
  obtain ⟨hclosed, hpositive, hbudgets⟩ := validate_spec hvalid
  have hcurrent := isMap_of_closed hclosed
  have hdeclared := @isMap_declaration _ changes hcurrent
  have hfetch := fun k hk => fetch_declaration (k := k) hcurrent hchanges hk
  have hcontext := @context_candidate capabilities mapping _ hdeclared
  have hsystem := @system_candidate capabilities mapping _ hdeclared
  rw [hfetch _ (by decide)] at hcontext hsystem
  refine ⟨hcandidate, ?version, ?named, ?namedOrigin, ?kept, ?systemOrigin, ?context⟩
  case version =>
    rw [get_candidate (by decide), declaration, get_put_self]
    · unfold positive at hpositive
      split at hpositive
      · next n hn => exact ⟨n, hn, by rw [hn]; rfl⟩
      · cases hpositive
    · rw [← isMap_put (k := "configuration_version") (v := nextVersion (get current "configuration_version"))]
      exact hdeclared
  case named =>
    intro key hkey value hvalue
    by_cases hc : key = "context_token_budget"
    · subst hc
      rw [hvalue] at hcontext
      exact congrArg Prod.fst hcontext
    · by_cases hs : key = "system_class_tokens"
      · subst hs
        rw [hvalue] at hsystem
        exact congrArg Prod.fst hsystem
      · obtain ⟨hplain, hversion, -, -⟩ := plain_of_mutable hkey hc hs
        rw [get_candidate hplain, get, hfetch _ hversion, hvalue]
        rfl
  case namedOrigin =>
    intro key hkey hsome
    obtain ⟨value, hvalue⟩ := Option.isSome_iff_exists.1 hsome
    simp only [declarationOptional, List.mem_cons, List.not_mem_nil, or_false] at hkey
    rcases hkey with rfl | rfl
    · rw [hvalue] at hcontext
      exact congrArg Prod.snd hcontext
    · rw [hvalue] at hsystem
      exact congrArg Prod.snd hsystem
  case kept =>
    intro key hkey hnone hc
    by_cases hs : key = "system_class_tokens"
    · subst hs
      rw [hnone] at hsystem
      rcases validBudgets_system hbudgets with hexplicit | ⟨hdefault, hvalue⟩
      · rw [if_pos ⟨by decide, hexplicit⟩] at hsystem
        exact congrArg Prod.fst hsystem
      · rw [if_neg (by simp [hdefault]), if_neg (by decide)] at hsystem
        rw [hvalue]
        exact congrArg Prod.fst hsystem
    · obtain ⟨hplain, hversion, hoptional, hrequired⟩ := plain_of_mutable hkey hc hs
      rw [get_candidate hplain, get, hfetch _ hversion, hnone, if_neg fun h => hoptional h.1, if_pos hrequired, get]
      rfl
  case systemOrigin =>
    intro hnone
    rw [hnone] at hsystem
    rcases validBudgets_system hbudgets with hexplicit | ⟨hdefault, -⟩
    · rw [if_pos ⟨by decide, hexplicit⟩] at hsystem
      rw [hexplicit]
      exact congrArg Prod.snd hsystem
    · rw [if_neg (by simp [hdefault]), if_neg (by decide)] at hsystem
      rw [hdefault]
      exact congrArg Prod.snd hsystem
  case context =>
    intro hnone
    rw [hnone] at hcontext
    refine hcontext.trans ?_
    by_cases hexplicit : origin current "context_token_budget" = str "explicit"
    · rw [if_pos hexplicit, if_pos ⟨by decide, hexplicit⟩]
      rfl
    · rw [if_neg hexplicit, if_neg fun h => hexplicit h.2, if_neg (by decide)]
      rfl

/-! ## candidates -/

theorem fetch_effectiveChanges {key : String} (h : isMap authored = true) : fetch (effectiveChanges authored candidate) key =
    if key = "model" ∧ (fetch authored "model").isSome then some (get candidate "model") else fetch authored key := by
  unfold effectiveChanges
  split
  · next hmodel =>
    by_cases hk : key = "model"
    · subst hk
      rw [fetch_put_self h, if_pos ⟨rfl, hmodel⟩]
    · rw [fetch_put_ne hk, if_neg fun hc => hk hc.1]
  · next hmodel => rw [if_neg fun hc => hmodel hc.2]

/-- **An accepted candidate follows** the authored changes, with the model the host resolved for the authored one. -/
theorem validateCandidate_follows (h : validateCandidate current authored candidate definitions = true) :
    validate candidate definitions = true ∧ Follows current (effectiveChanges authored candidate) candidate := by
  simp only [validateCandidate, Bool.and_eq_true, decide_eq_true_eq] at h
  exact update_follows h.2

theorem validateCandidate_current (h : validateCandidate current authored candidate definitions = true) :
    validate current definitions = true := by
  simp only [validateCandidate, Bool.and_eq_true, decide_eq_true_eq] at h
  exact (update_eq_ok h.2).2.1

/-- A context ceiling that is not explicit is the derived one. -/
theorem validBudgets_context (h : validBudgets t = true) (hne : origin t "context_token_budget" ≠ str "explicit") :
    (get t "context_token_budget", origin t "context_token_budget") =
      derivedContext (get (get t "model_capabilities") "context_window") (get t "max_tokens") := by
  simp only [validBudgets, Bool.and_eq_true] at h
  have horigin := h.2
  change validContextOrigin (origin t "context_token_budget") _ _ _ = true at horigin
  unfold validContextOrigin at horigin
  rw [if_neg hne] at horigin
  split at horigin
  · next hunknown =>
    rw [hunknown.1, hunknown.2, of_decide_eq_true horigin]
    rfl
  · split at horigin
    · next hmodel =>
      split at horigin
      · next w r i hw hr hi =>
        rw [hmodel, hw, hr, hi, of_decide_eq_true horigin]
        rfl
      · cases horigin
    · cases horigin

/-- **A derived context ceiling** moves with the reply reserve and with the captured window only. -/
theorem Follows.context_kept (h : Follows current changes candidate) (hvalid : validate current definitions = true)
    (hcontext : fetch changes "context_token_budget" = none) (hreserve : fetch changes "max_tokens" = none)
    (hwindow : get (get candidate "model_capabilities") "context_window" =
      get (get current "model_capabilities") "context_window") :
    get candidate "context_token_budget" = get current "context_token_budget" ∧
      origin candidate "context_token_budget" = origin current "context_token_budget" := by
  have hnext := h.context hcontext
  rw [h.kept "max_tokens" (by decide) hreserve (by decide), hwindow] at hnext
  by_cases hexplicit : origin current "context_token_budget" = str "explicit"
  · rw [if_pos hexplicit] at hnext
    exact ⟨congrArg Prod.fst hnext, (congrArg Prod.snd hnext).trans hexplicit.symm⟩
  · rw [if_neg hexplicit, ← validBudgets_context (validate_spec hvalid).2.2 hexplicit] at hnext
    exact ⟨congrArg Prod.fst hnext, congrArg Prod.snd hnext⟩

end Loopex.Runtime.SessionConfiguration
