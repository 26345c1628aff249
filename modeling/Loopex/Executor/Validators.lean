import Loopex.Executor.RestoreCodec

/-!
# What a validator accepts and raises

* `Record`, `field` — a map that is no struct, and what stands under a key of it
* `closed_ok` — what a schema knows of a map it accepts
* `Admits` — a validator accepts plain data only
* `Quiet` — a validator raises what the codec rescues only
* `Calm` — a check that does not raise
-/

namespace Loopex.Executor

open Loopex.Erlang Loopex.Erlang.Term Loopex.Store

variable {R : Runtime} {v : Term} {kvs : List (Term × Term)} {keys : List Term} {d : Validator}
  {fields : List (String × Validator)} {relations : Validator} {α β : Type}

/-! ## checks that do not raise -/

/-- The check does not raise. -/
def Calm (c : Check Unit α) : Prop := ∀ x, c ≠ .raise x

@[simp] theorem calm_ok {a : α} : Calm (.ok a) := fun _ h => by cases h

@[simp] theorem calm_error : Calm (.error () : Check Unit α) := fun _ h => by cases h

@[simp] theorem calm_require {b : Bool} : Calm (Check.require b ()) := fun _ => Check.require_ne_raise

@[simp] theorem calm_equal {a b : Term} : Calm (equal a b) := calm_require

theorem Calm.bind {c : Check Unit α} {f : α → Check Unit β} (hc : Calm c) (hf : ∀ a, c = .ok a → Calm (f a)) :
    Calm (c >>= f) := by
  intro x h
  rcases Check.bind_eq_raise.1 h with h | ⟨a, ha, h⟩
  · exact hc x h
  · exact hf a ha x h

theorem forM_cons {xs : List α} {a : α} {f : α → Check Unit Unit} :
    (a :: xs).forM f = f a >>= fun _ => xs.forM f := rfl

theorem calm_forM {xs : List α} {f : α → Check Unit Unit} (h : ∀ a ∈ xs, Calm (f a)) : Calm (xs.forM f) := by
  induction xs with
  | nil => exact calm_ok
  | cons a xs ih =>
    rw [forM_cons]
    exact (h a (by simp)).bind fun _ _ => ih fun b hb => h b (by simp [hb])

theorem calm_mapM {xs : List α} {f : α → Check Unit β} (h : ∀ a ∈ xs, Calm (f a)) : Calm (xs.mapM f) := by
  induction xs with
  | nil => exact calm_ok
  | cons a xs ih =>
    rw [List.mapM_cons]
    exact (h a (by simp)).bind fun _ _ => (ih fun b hb => h b (by simp [hb])).bind fun _ _ => calm_ok

theorem forM_eq_ok {xs : List α} {f : α → Check Unit Unit} : xs.forM f = .ok () ↔ ∀ a ∈ xs, f a = .ok () := by
  induction xs with
  | nil => simp
  | cons a xs ih =>
    rw [forM_cons, Check.bind_eq_ok, List.forall_mem_cons, ← ih]
    exact ⟨fun ⟨_, ha, hxs⟩ => ⟨ha, hxs⟩, fun ⟨ha, hxs⟩ => ⟨(), ha, hxs⟩⟩

theorem forM_cons_eq_raise {xs : List α} {a : α} {f : α → Check Unit Unit} {x : Exn} :
    (a :: xs).forM f = .raise x ↔ f a = .raise x ∨ f a = .ok () ∧ xs.forM f = .raise x := by
  rw [forM_cons, Check.bind_eq_raise]
  exact or_congr_right ⟨fun ⟨_, ha, h⟩ => ⟨ha, h⟩, fun ⟨ha, h⟩ => ⟨(), ha, h⟩⟩

/-- A list of checks raises at the first one that does not accept. -/
theorem forM_eq_raise {xs : List α} {f : α → Check Unit Unit} {x : Exn} :
    xs.forM f = .raise x ↔ ∃ before a after, xs = before ++ a :: after ∧ (∀ b ∈ before, f b = .ok ()) ∧
      f a = .raise x := by
  induction xs with
  | nil => simp
  | cons a xs ih =>
    rw [forM_cons, Check.bind_eq_raise, ih]
    refine ⟨?_, ?_⟩
    · rintro (h | ⟨_, ha, before, b, after, rfl, hbefore, hb⟩)
      · exact ⟨[], a, xs, rfl, by simp, h⟩
      · refine ⟨a :: before, b, after, rfl, fun c hc => ?_, hb⟩
        rcases List.mem_cons.1 hc with rfl | hc
        · exact ha
        · exact hbefore c hc
    · rintro ⟨_ | ⟨b, before⟩, c, after, heq, hbefore, hc⟩ <;> cases heq
      · exact .inl hc
      · exact .inr ⟨(), hbefore a (by simp), before, c, after, rfl, fun b hb => hbefore b (by simp [hb]), hc⟩

/-! ## records -/

/-- A map that is no struct. -/
def Record (v : Term) : Prop := ∃ kvs, v = .map kvs ∧ isStruct kvs = false

/-- What stands under a key, `nil` where nothing does. -/
def field (v key : Term) : Term :=
  match v with
  | .map kvs => (lookup key kvs).getD nil
  | _ => nil

theorem get_map (key : Term) : R.get (.map kvs) key =
    match lookup (sym "__struct__") kvs with
    | some (.atom name) => R.structGet name (.map kvs) key
    | _ => .ok ((lookup key kvs).getD nil) := rfl

theorem get_of_isStruct (h : isStruct kvs = false) (key : Term) :
    R.get (.map kvs) key = .ok (field (.map kvs) key) := by
  rw [get_map]
  split
  · next hs => simp [isStruct, hs] at h
  · rfl

theorem Record.get (h : Record v) (key : Term) : R.get v key = .ok (field v key) := by
  obtain ⟨kvs, rfl, hs⟩ := h
  exact get_of_isStruct hs key

theorem record_of_exactKeys (h : exactKeys kvs keys = true) : Record (.map kvs) := by
  simp only [exactKeys, Bool.and_eq_true, Bool.not_eq_true'] at h
  exact ⟨kvs, rfl, h.1.1⟩

theorem wellFormed_field (h : WellFormed v) (key : Term) : WellFormed (field v key) := by
  unfold field
  split
  · next kvs =>
    cases hl : lookup key kvs with
    | none => exact .atom
    | some w =>
      cases h with
      | map _ _ hv => exact hv _ (lookup_eq_some hl)
  · exact .atom

/-- The keys of an exact map are those asked for. -/
theorem perm_of_exactKeys (h : exactKeys kvs keys = true) (hn : keys.Nodup) :
    (kvs.map Prod.fst).Perm keys := by
  simp only [exactKeys, Bool.and_eq_true, decide_eq_true_eq, List.all_eq_true] at h
  exact perm_of_lookup hn h.1.2 h.2

/-! ## plain data -/

/-- Plain data, with no atoms but those of the codec. -/
def Data (v : Term) : Prop := Plain v ∧ ∀ a ∈ v.atoms, a ∈ literalAtoms

/-- Only plain data is accepted. -/
def Admits (d : Validator) : Prop := ∀ v, WellFormed v → d v = .ok () → Data v

/-- Nothing is raised but what the codec rescues. -/
def Quiet (d : Validator) : Prop := ∀ v x, d v = .raise x → x = .badArgument

theorem data_str (s : String) : Data (str s) := ⟨.binary, by simp [str, Term.atoms]⟩

theorem data_binary (b : Bytes) : Data (.binary b) := ⟨.binary, by simp [Term.atoms]⟩

theorem data_int (n : ℤ) : Data (.int n) := ⟨.int, by simp [Term.atoms]⟩

theorem data_atom {s : String} (hl : (utf8 s).length < 2 ^ 16) (h : utf8 s ∈ literalAtoms) : Data (sym s) :=
  ⟨.atom hl, by simpa [sym, Term.atoms] using h⟩

theorem data_nil : Data nil := data_atom (by decide) (by decide)

theorem data_list {xs : List Term} (h : ∀ x ∈ xs, Data x) : Data (.list xs) := by
  refine ⟨.list fun x hx => (h x hx).1, fun a ha => ?_⟩
  obtain ⟨x, hx, ha⟩ := Term.mem_atoms_list.1 ha
  exact (h x hx).2 a ha

theorem data_of_perm (hwf : WellFormed (.map kvs)) (hperm : (kvs.map Prod.fst).Perm keys)
    (hk : ∀ key ∈ keys, Data key) (hv : ∀ key ∈ keys, Data (field (.map kvs) key)) : Data (.map kvs) := by
  cases hwf with
  | map ho _ _ =>
    have hentry : ∀ e ∈ kvs, Data e.1 ∧ Data e.2 := by
      intro e he
      have hkey := hperm.mem_iff.1 (List.mem_map_of_mem (f := Prod.fst) he)
      have hval := hv e.1 hkey
      rw [field, lookup_of_mem ho.nodup he] at hval
      exact ⟨hk e.1 hkey, hval⟩
    refine ⟨.map ho (fun e he => (hentry e he).1.1) fun e he => (hentry e he).2.1, fun a ha => ?_⟩
    obtain ⟨e, he, ha | ha⟩ := Term.mem_atoms_map.1 ha
    · exact (hentry e he).1.2 a ha
    · exact (hentry e he).2.2 a ha

theorem data_of_exactKeys (hwf : WellFormed (.map kvs)) (h : exactKeys kvs keys = true) (hn : keys.Nodup)
    (hk : ∀ key ∈ keys, Data key) (hv : ∀ key ∈ keys, Data (field (.map kvs) key)) : Data (.map kvs) :=
  data_of_perm hwf (perm_of_exactKeys h hn) hk hv

/-! ## the domains -/

theorem literal_ok {wanted : Term} (h : literal wanted v = .ok ()) : v = wanted := by
  simpa [literal] using h

theorem oneOf_ok {choices : List String} (h : oneOf choices v = .ok ()) : ∃ s ∈ choices, v = str s := by
  simp only [oneOf, Check.require_eq_ok, decide_eq_true_eq, List.mem_map] at h
  obtain ⟨s, hs, rfl⟩ := h
  exact ⟨s, hs, rfl⟩

theorem range_ok {low high : ℕ} (h : range low high v = .ok ()) :
    ∃ n : ℤ, v = .int n ∧ (low : ℤ) ≤ n ∧ n ≤ (high : ℤ) := by
  unfold range at h
  split at h
  · next n => exact ⟨n, rfl, by simpa using h⟩
  · cases h

theorem nullable_ok (h : nullable d v = .ok ()) : v = nil ∨ d v = .ok () := by
  unfold nullable at h
  split at h
  · exact .inl ‹_›
  · exact .inr h

theorem text_ok {bound : ℕ} (h : text bound v = .ok ()) : ∃ b, v = .binary b := by
  unfold text at h
  split at h
  · exact ⟨_, rfl⟩
  · cases h

theorem hexDigest_ok (h : hexDigest v = .ok ()) : ∃ b, v = .binary b ∧ b.length = 64 ∧ b.all isHex = true := by
  unfold hexDigest at h
  split at h
  · next b => exact ⟨b, rfl, by simpa using h⟩
  · cases h

theorem workspaceRef_ok (h : workspaceRef v = .ok ()) : ∃ b, v = .binary b := by
  unfold workspaceRef at h
  split at h
  · exact ⟨_, rfl⟩
  · cases h

theorem absolute_ok (h : absolute v = .ok ()) : ∃ b, v = .binary b := by
  obtain ⟨_, htext, _⟩ := Check.bind_eq_ok.1 h
  exact text_ok htext

theorem relative_ok (h : relative v = .ok ()) : ∃ b, v = .binary b := by
  obtain ⟨_, htext, _⟩ := Check.bind_eq_ok.1 h
  exact text_ok htext

theorem manifestPath_ok (h : manifestPath v = .ok ()) : ∃ b, v = .binary b := by
  unfold manifestPath at h
  split at h
  · next heq => exact ⟨_, heq⟩
  · exact relative_ok h

theorem sorted_ok {bound : ℕ} {key : Option String} (h : sorted R d bound key v = .ok ()) :
    ∃ xs, v = .list xs ∧ xs.length ≤ bound ∧ ∀ x ∈ xs, d x = .ok () := by
  unfold sorted at h
  split at h
  · next xs =>
    simp only [Check.bind_eq_ok, Check.require_eq_ok, decide_eq_true_eq] at h
    obtain ⟨_, hlen, _, hall, _⟩ := h
    exact ⟨xs, rfl, hlen, forM_eq_ok.1 hall⟩
  · cases h
  · cases h

theorem closed_eq_ok : closed R fields relations v = .ok () ↔
    (∃ kvs, v = .map kvs ∧ exactKeys kvs (keysOf fields) = true) ∧
      (∀ f ∈ fields, f.2 (field v (str f.1)) = .ok ()) ∧ relations v = .ok () := by
  refine ⟨fun h => ?_, ?_⟩
  · unfold closed at h
    split at h
    · next kvs =>
      simp only [Check.bind_eq_ok, Check.require_eq_ok] at h
      obtain ⟨_, hexact, _, hfields, hrel⟩ := h
      simp only [(record_of_exactKeys hexact).get, Check.ok_bind] at hfields
      exact ⟨⟨kvs, rfl, hexact⟩, forM_eq_ok.1 hfields, hrel⟩
    · cases h
  · rintro ⟨⟨kvs, rfl, hexact⟩, hfields, hrel⟩
    have hget := (record_of_exactKeys hexact).get (R := R)
    simp only [closed, hexact, hget, Check.require, if_true, Check.ok_bind, forM_eq_ok.2 hfields, hrel]

/-- What a schema knows of a map it accepts. -/
theorem closed_ok (h : closed R fields relations v = .ok ()) :
    Record v ∧ (∀ f ∈ fields, f.2 (field v (str f.1)) = .ok ()) ∧ relations v = .ok () := by
  obtain ⟨⟨kvs, rfl, hexact⟩, h⟩ := closed_eq_ok.1 h
  exact ⟨record_of_exactKeys hexact, h⟩

/-- A schema raises where one of its fields does, or its relations. -/
theorem closed_eq_raise {x : Exn} : closed R fields relations v = .raise x ↔
    ∃ kvs, v = .map kvs ∧ exactKeys kvs (keysOf fields) = true ∧
      ((fields.forM fun f => f.2 (field v (str f.1))) = .raise x ∨
        (∀ f ∈ fields, f.2 (field v (str f.1)) = .ok ()) ∧ relations v = .raise x) := by
  refine ⟨fun h => ?_, ?_⟩
  · unfold closed at h
    split at h
    · next kvs =>
      rcases Check.bind_eq_raise.1 h with h | ⟨_, hexact, h⟩
      · cases Check.require_ne_raise h
      have hexact := Check.require_eq_ok.1 hexact
      simp only [(record_of_exactKeys hexact).get, Check.ok_bind] at h
      refine ⟨kvs, rfl, hexact, ?_⟩
      rcases Check.bind_eq_raise.1 h with h | ⟨_, hfields, h⟩
      · exact .inl h
      · exact .inr ⟨forM_eq_ok.1 hfields, h⟩
    · cases h
  · rintro ⟨kvs, rfl, hexact, h⟩
    have hget := (record_of_exactKeys hexact).get (R := R)
    simp only [closed, hexact, hget, Check.require, if_true, Check.ok_bind]
    refine Check.bind_eq_raise.2 (h.imp id ?_)
    rintro ⟨hok, h⟩
    exact ⟨(), forM_eq_ok.2 hok, h⟩

/-! ## what is accepted is plain data -/

theorem admits_literal {wanted : Term} (h : Data wanted) : Admits (literal wanted) := by
  intro v _ hv
  rwa [literal_ok hv]

theorem admits_oneOf (choices : List String) : Admits (oneOf choices) := by
  intro v _ hv
  obtain ⟨s, -, rfl⟩ := oneOf_ok hv
  exact data_str s

theorem admits_range (low high : ℕ) : Admits (range low high) := by
  intro v _ hv
  obtain ⟨n, rfl, -⟩ := range_ok hv
  exact data_int n

theorem admits_nullable (h : Admits d) : Admits (nullable d) := by
  intro v hwf hv
  rcases nullable_ok hv with rfl | hv
  · exact data_nil
  · exact h v hwf hv

/-- A domain of binaries. -/
theorem admits_binary (h : ∀ {v}, d v = .ok () → ∃ b, v = .binary b) : Admits d := by
  intro v _ hv
  obtain ⟨b, rfl⟩ := h hv
  exact data_binary b

theorem admits_text (bound : ℕ) : Admits (text bound) := admits_binary text_ok

theorem admits_hexDigest : Admits hexDigest := admits_binary fun h => (hexDigest_ok h).imp fun _ hb => hb.1

theorem admits_sorted (h : Admits d) (bound : ℕ) (key : Option String) : Admits (sorted R d bound key) := by
  intro v hwf hv
  obtain ⟨xs, rfl, -, hxs⟩ := sorted_ok hv
  cases hwf with
  | list hwf => exact data_list fun x hx => h x (hwf x hx) (hxs x hx)

theorem admits_closed (hn : (fields.map Prod.fst).Nodup) (h : ∀ f ∈ fields, Admits f.2) :
    Admits (closed R fields relations) := by
  intro v hwf hv
  obtain ⟨⟨kvs, rfl, hexact⟩, hfields, -⟩ := closed_eq_ok.1 hv
  refine data_of_exactKeys hwf hexact ?_ ?_ ?_
  · have hmap := hn.map (f := str) fun a b hab => str_inj.1 hab
    rwa [List.map_map] at hmap
  · intro key hkey
    obtain ⟨f, -, rfl⟩ := List.mem_map.1 hkey
    exact data_str f.1
  · intro key hkey
    obtain ⟨f, hf, rfl⟩ := List.mem_map.1 hkey
    exact h f hf _ (wellFormed_field hwf _) (hfields f hf)

/-! ## what is raised -/

theorem quiet_of_calm (h : ∀ v, Calm (d v)) : Quiet d := fun v x hv => absurd hv (h v x)

theorem calm_literal (wanted : Term) : Calm (literal wanted v) := calm_require

theorem calm_oneOf (choices : List String) : Calm (oneOf choices v) := calm_require

theorem calm_range (low high : ℕ) : Calm (range low high v) := by
  unfold range
  split
  · exact calm_require
  · exact calm_error

theorem calm_nullable (h : Calm (d v)) : Calm (nullable d v) := by
  unfold nullable
  split
  · exact calm_ok
  · exact h

theorem calm_text (bound : ℕ) : Calm (text bound v) := by
  unfold text
  split
  · exact calm_require
  · exact calm_error

theorem calm_hexDigest : Calm (hexDigest v) := by
  unfold hexDigest
  split
  · exact calm_require
  · exact calm_error

theorem calm_workspaceRef : Calm (workspaceRef v) := by
  unfold workspaceRef
  split
  · split
    · exact calm_hexDigest
    · exact calm_error
  · exact calm_error

theorem calm_absolute : Calm (absolute v) := by
  refine (calm_text 8192).bind fun _ h => ?_
  obtain ⟨b, rfl⟩ := text_ok h
  exact calm_require

theorem calm_relative : Calm (relative v) := by
  refine (calm_text 8192).bind fun _ h => ?_
  obtain ⟨b, rfl⟩ := text_ok h
  exact calm_require

theorem calm_manifestPath : Calm (manifestPath v) := by
  unfold manifestPath
  split
  · exact calm_ok
  · exact calm_relative

/-- A list raises where one of its values does, or when it is improper. -/
theorem sorted_raise {bound : ℕ} {key : Option String} {x : Exn}
    (hd : ∀ w, d w = .ok () → key = none ∨ Record w) (h : sorted R d bound key v = .raise x) :
    x = .badArgument ∨ ∃ xs before w after, v = .list xs ∧ xs.length ≤ bound ∧ xs = before ++ w :: after ∧
      (∀ u ∈ before, d u = .ok ()) ∧ d w = .raise x := by
  unfold sorted at h
  split at h
  · next xs =>
    rcases Check.bind_eq_raise.1 h with h | ⟨_, hlen, h⟩
    · cases Check.require_ne_raise h
    rcases Check.bind_eq_raise.1 h with h | ⟨_, hall, h⟩
    · obtain ⟨before, w, after, hxs, hbefore, hw⟩ := forM_eq_raise.1 h
      exact .inr ⟨xs, before, w, after, rfl, by simpa using hlen, hxs, hbefore, hw⟩
    · refine absurd h (Calm.bind (calm_mapM fun w hw => ?_) (fun _ _ => calm_require) x)
      rcases hd w (forM_eq_ok.1 hall w hw) with rfl | hrec
      · exact calm_ok
      · split
        · rw [hrec.get]
          exact calm_ok
        · exact calm_ok
  · cases h
    exact .inl rfl
  · cases h

theorem quiet_sorted (h : Quiet d) {bound : ℕ} {key : Option String}
    (hd : ∀ w, d w = .ok () → key = none ∨ Record w) : Quiet (sorted R d bound key) := by
  intro v x hv
  rcases sorted_raise hd hv with hx | ⟨_, _, w, _, _, _, _, _, hw⟩
  · exact hx
  · exact h w x hw

theorem quiet_closed (hf : ∀ f ∈ fields, Quiet f.2)
    (hr : ∀ v, Record v → (∀ f ∈ fields, f.2 (field v (str f.1)) = .ok ()) → Calm (relations v)) :
    Quiet (closed R fields relations) := by
  intro v x hv
  obtain ⟨kvs, rfl, hexact, hx | ⟨hok, hx⟩⟩ := closed_eq_raise.1 hv
  · obtain ⟨before, f, after, rfl, -, hx⟩ := forM_eq_raise.1 hx
    exact hf f (by simp) _ x hx
  · exact absurd hx (hr _ (record_of_exactKeys hexact) hok x)

end Loopex.Executor
