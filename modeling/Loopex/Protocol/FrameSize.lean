import Loopex.Erlang.Unicode
import Loopex.Protocol.FrameEncoder
import Loopex.Runtime.ToolDefinition
import Mathlib.Algebra.Order.BigOperators.Group.List

/-!
# In how many bytes a value is written

Texts are weighed by a measure that adds up: their own length, or the length they have once they are escaped into a
string.  A value is lighter than another if it is written in a text of no more weight.

* `escaped` — the length of a text inside a string
* `Measure` — a weight of texts
* `Lighter` — the comparison of two values, through maps, strings, quantities and flags
-/

namespace Loopex.Protocol.Frame

open Loopex.Erlang Loopex.Erlang.Term Loopex.Runtime

/-! ## escaped length -/

/-- The length of a text inside a string. -/
def escaped (b : Bytes) : ℕ := ((escape b).map List.length).getD 0

theorem escape_append {cs : List ℕ} (h : ∀ c ∈ cs, Scalar c) (b : Bytes) :
    escape (utf8All cs ++ b) = (escape b).map (cs.flatMap escapeChar ++ ·) := by
  induction cs with
  | nil => simp
  | cons c cs ih =>
    obtain ⟨hc, hcs⟩ := List.forall_mem_cons.1 h
    rw [utf8All_cons, List.append_assoc, escape_cons hc, ih hcs, Option.map_map]
    congr 1
    funext e
    simp

theorem escape_all {cs : List ℕ} (h : ∀ c ∈ cs, Scalar c) : escape (utf8All cs) = some (cs.flatMap escapeChar) := by
  have hall := escape_append h []
  rw [List.append_nil, escape] at hall
  simpa using hall

theorem escaped_all {cs : List ℕ} (h : ∀ c ∈ cs, Scalar c) :
    escaped (utf8All cs) = (cs.flatMap escapeChar).length := by
  rw [escaped, escape_all h]
  rfl

theorem escaped_append {a b : Bytes} (ha : validUtf8 a = true) (hb : validUtf8 b = true) :
    escaped (a ++ b) = escaped a + escaped b := by
  obtain ⟨cs, hcs, rfl⟩ := validUtf8_iff.1 ha
  obtain ⟨ds, hds, rfl⟩ := validUtf8_iff.1 hb
  have hall : ∀ c ∈ cs ++ ds, Scalar c := fun c hc => (List.mem_append.1 hc).elim (hcs c) (hds c)
  rw [← utf8All_append, escaped_all hall, escaped_all hcs, escaped_all hds, List.flatMap_append, List.length_append]

theorem length_le_escapeChar {c : ℕ} : (utf8Encode c).length ≤ (escapeChar c).length := by
  unfold escapeChar
  split
  next hc =>
    rcases h : escapeByte (UInt8.ofNat c) with _ | e
    · exact Nat.le_refl _
    · have hlen : (utf8Encode c).length = 1 := by
        rw [utf8Encode, if_pos hc]
        rfl
      rw [hlen]
      unfold escapeByte at h
      (repeat' split at h) <;> simp_all <;> subst h <;> simp
  · exact Nat.le_refl _

/-- Escaping makes no text shorter. -/
theorem length_le_escaped {b : Bytes} (h : validUtf8 b = true) : b.length ≤ escaped b := by
  obtain ⟨cs, hcs, rfl⟩ := validUtf8_iff.1 h
  rw [escaped_all hcs]
  clear h hcs
  induction cs with
  | nil => exact Nat.le_refl _
  | cons c cs ih =>
    have hc := length_le_escapeChar (c := c)
    rw [utf8All_cons, List.flatMap_cons, List.length_append, List.length_append]
    omega

/-- A string is written between quotes. -/
theorem encodeString_length {b : Bytes} (h : validUtf8 b = true) :
    ∃ text, encodeString b = some text ∧ validUtf8 text = true ∧ text.length = escaped b + 2 := by
  obtain ⟨e, -, hencode, -, -, hprintable⟩ := encodeString_spec h
  refine ⟨_, hencode, hprintable.quoted.valid, ?_⟩
  obtain ⟨e', he, heq⟩ := Option.map_eq_some_iff.1 hencode
  have hsame : e' = e := by simpa using heq
  rw [escaped, he, hsame]
  simp

/-! ## measures -/

/-- A weight of texts that adds up, and in which a digit weighs one. -/
structure Measure (μ : Bytes → ℕ) : Prop where
  append : ∀ a b, validUtf8 a = true → validUtf8 b = true → μ (a ++ b) = μ a + μ b
  digit : ∀ d < 10, μ [UInt8.ofNat (48 + d)] = 1
  flag : μ (utf8 "true") ≤ μ (utf8 "false")

theorem measure_length : Measure List.length where
  append a b _ _ := List.length_append
  digit _ _ := rfl
  flag := by decide

theorem validUtf8_ascii {b : Bytes} (h : ∀ x ∈ b, 0x20 ≤ x.toNat ∧ x.toNat < 0x80) : validUtf8 b = true :=
  (printable_ascii h).valid

theorem digits_ascii {ds : List ℕ} (h : ∀ d ∈ ds, d < 10) : ∀ x ∈ digits ds, 0x20 ≤ x.toNat ∧ x.toNat < 0x80 := by
  intro x hx
  obtain ⟨d, hd, rfl⟩ := List.mem_map.1 hx
  have := h d hd
  rw [toNat_ofNat (by omega)]
  omega

theorem escaped_digit {d : ℕ} (h : d < 10) : escaped [UInt8.ofNat (48 + d)] = 1 := by
  have hall : ∀ d < 10, escapeChar (48 + d) = [UInt8.ofNat (48 + d)] := by decide
  have hone : utf8All [48 + d] = [UInt8.ofNat (48 + d)] := by
    rw [utf8All_cons, utf8All_nil, List.append_nil, utf8Encode, if_pos (by omega)]
  have hscalar : ∀ c ∈ [48 + d], Scalar c := by
    intro c hc
    rw [List.mem_singleton.1 hc]
    unfold Scalar
    omega
  rw [← hone, escaped_all hscalar]
  simp [hall d h]

theorem measure_escaped : Measure escaped where
  append _ _ := escaped_append
  digit _ := escaped_digit
  flag := by
    have htrue : utf8 "true" = utf8All [116, 114, 117, 101] := by decide
    have hfalse : utf8 "false" = utf8All [102, 97, 108, 115, 101] := by decide
    rw [htrue, hfalse, escaped_all (by decide), escaped_all (by decide)]
    decide

variable {μ : Bytes → ℕ}

namespace Measure

theorem nil (hμ : Measure μ) : μ [] = 0 := by
  have h := hμ.append [] [] (by rw [validUtf8]) (by rw [validUtf8])
  rw [List.append_nil] at h
  omega

theorem digits (hμ : Measure μ) {ds : List ℕ} (h : ∀ d ∈ ds, d < 10) : μ (digits ds) = ds.length := by
  induction ds with
  | nil => exact hμ.nil
  | cons d ds ih =>
    obtain ⟨hd, hds⟩ := List.forall_mem_cons.1 h
    have happend := hμ.append [UInt8.ofNat (48 + d)] (Erlang.digits ds)
      (validUtf8_ascii (digits_ascii (List.forall_mem_singleton.2 hd))) (validUtf8_ascii (digits_ascii hds))
    rw [hμ.digit d hd, ih hds] at happend
    rw [List.length_cons, Nat.add_comm]
    exact happend

theorem cons (hμ : Measure μ) {x : UInt8} {b : Bytes} (hx : 0x20 ≤ x.toNat ∧ x.toNat < 0x80)
    (hb : validUtf8 b = true) : μ (x :: b) = μ [x] + μ b :=
  hμ.append [x] b (validUtf8_ascii (by simpa using hx)) hb

/-- Texts with commas between them. -/
theorem intercalate (hμ : Measure μ) {ts : List Bytes} (h : ∀ t ∈ ts, validUtf8 t = true) :
    μ (List.intercalate [44] ts) = (ts.map μ).sum + (ts.length - 1) * μ [44] := by
  induction ts with
  | nil => simpa [List.intercalate] using hμ.nil
  | cons t ts ih =>
    obtain ⟨ht, hts⟩ := List.forall_mem_cons.1 h
    rcases ts with _ | ⟨t', ts⟩
    · simp [List.intercalate]
    · have hrest : validUtf8 (List.intercalate [44] (t' :: ts)) = true := by
        clear ih h
        induction ts generalizing t' with
        | nil => simpa [List.intercalate] using hts
        | cons u us ihu =>
          obtain ⟨ht', hus⟩ := List.forall_mem_cons.1 hts
          rw [List.intercalate_cons_cons]
          exact validUtf8_append (validUtf8_append ht' (validUtf8_ascii (by simp))) (ihu u hus)
      rw [List.intercalate_cons_cons, hμ.append _ _ (validUtf8_append ht (validUtf8_ascii (by simp))) hrest,
        hμ.append _ _ ht (validUtf8_ascii (by simp)), ih hts]
      simp only [List.map_cons, List.sum_cons, List.length_cons, Nat.add_sub_cancel]
      ring

end Measure

/-! ## lighter values -/

/-- Two values are written, the first in a text of no more weight. -/
def Lighter (otherString : Term → Option Bytes) (μ : Bytes → ℕ) (t t' : Term) : Prop :=
  ∃ a b, encodeValue otherString t = some a ∧ encodeValue otherString t' = some b ∧
    validUtf8 a = true ∧ validUtf8 b = true ∧ μ a ≤ μ b

/-- A value is written in a valid text. -/
def Encodes (otherString : Term → Option Bytes) (t : Term) : Prop :=
  ∃ a, encodeValue otherString t = some a ∧ validUtf8 a = true

/-- Entries of one name, of which the first has the lighter value. -/
def LighterEntry (otherString : Term → Option Bytes) (μ : Bytes → ℕ) (e e' : Term × Term) : Prop :=
  e.1 = e'.1 ∧ (∃ k, e.1 = .binary k ∧ validUtf8 k = true) ∧ Lighter otherString μ e.2 e'.2

variable {otherString : Term → Option Bytes}

theorem Encodes.refl {t : Term} (h : Encodes otherString t) : Lighter otherString μ t t := by
  obtain ⟨a, ha, hvalid⟩ := h
  exact ⟨a, a, ha, ha, hvalid, hvalid, Nat.le_refl _⟩

theorem Lighter.encodes {t t' : Term} (h : Lighter otherString μ t t') : Encodes otherString t := by
  obtain ⟨a, -, ha, -, hvalid, -, -⟩ := h
  exact ⟨a, ha, hvalid⟩

theorem encodes_binary {b : Bytes} (h : validUtf8 b = true) : Encodes otherString (.binary b) := by
  obtain ⟨text, htext, hvalid, -⟩ := encodeString_length h
  exact ⟨text, htext, hvalid⟩

theorem encodes_int (n : ℤ) : Encodes otherString (.int n) :=
  ⟨_, rfl, (integerToString_spec n).2.valid⟩

theorem lighter_int (hμ : Measure μ) {m n : ℕ} (h : m ≤ n) : Lighter otherString μ (.int m) (.int n) := by
  have htext : ∀ k : ℕ, integerToString k = digits (decimal k) := by
    intro k
    rw [integerToString, if_neg (by omega), Int.natAbs_natCast]
  refine ⟨_, _, rfl, rfl, (integerToString_spec m).2.valid, (integerToString_spec n).2.valid, ?_⟩
  rw [htext, htext, hμ.digits (decimal_lt m), hμ.digits (decimal_lt n)]
  unfold decimal
  split
  · split
    · exact Nat.le_refl _
    next hn =>
      rw [List.length_reverse]
      exact List.length_pos_iff.2 (by simpa [Nat.digits_eq_nil_iff_eq_zero] using hn)
  next hm =>
    rw [if_neg (by omega), List.length_reverse, List.length_reverse]
    exact Nat.le_length_digits_le 10 m n h

theorem validUtf8_name {s : String} (h : ((utf8 s).all fun x => 0x20 ≤ x.toNat && x.toNat < 0x80) = true) :
    validUtf8 (utf8 s) = true := (printable_all h).valid

/-- The flag that is set is the lighter one. -/
theorem lighter_flag (hμ : Measure μ) : Lighter otherString μ (sym "true") (sym "false") := by
  have htrue : encodeValue otherString (sym "true") = some (utf8 "true") := by simp [sym, encodeValue]
  have hfalse : encodeValue otherString (sym "false") = some (utf8 "false") := by simp [sym, encodeValue]
  exact ⟨_, _, htrue, hfalse, validUtf8_name (by decide), validUtf8_name (by decide), hμ.flag⟩

theorem encodes_flag (b : Bool) : Encodes otherString (if b then sym "true" else sym "false") := by
  have hflag : Lighter otherString List.length (sym "true") (sym "false") := lighter_flag measure_length
  obtain ⟨a, b', ha, hb, hva, hvb, -⟩ := hflag
  cases b with
  | true => exact ⟨a, ha, hva⟩
  | false => exact ⟨b', hb, hvb⟩

/-- A string is lighter than what it is the start of. -/
theorem lighter_append (hμ : Measure μ) {cs ds : List ℕ} (hcs : ∀ c ∈ cs, Scalar c) (hds : ∀ c ∈ ds, Scalar c) :
    Lighter otherString μ (.binary (utf8All cs)) (.binary (utf8All (cs ++ ds))) := by
  have hprintable : ∀ {es : List ℕ}, (∀ c ∈ es, Scalar c) → Printable (es.flatMap escapeChar) := by
    intro es hes
    obtain ⟨e, he, -, hp⟩ := escape_utf8All hes
    rw [escape_all hes] at he
    exact Option.some.inj he ▸ hp
  have hall : ∀ c ∈ cs ++ ds, Scalar c := fun c hc => (List.mem_append.1 hc).elim (hcs c) (hds c)
  have htext : ∀ {es : List ℕ}, (∀ c ∈ es, Scalar c) →
      encodeValue otherString (.binary (utf8All es)) = some (34 :: (es.flatMap escapeChar ++ [34])) := by
    intro es hes
    rw [encodeValue, encodeString, escape_all hes]
    rfl
  have hweight : ∀ {es : List ℕ}, (∀ c ∈ es, Scalar c) →
      μ (34 :: (es.flatMap escapeChar ++ [34])) = μ [34] + (μ (es.flatMap escapeChar) + μ [34]) := by
    intro es hes
    have hquote : validUtf8 [34] = true := validUtf8_ascii (by simp)
    rw [hμ.cons (by decide) (validUtf8_append (hprintable hes).valid hquote), hμ.append _ _ (hprintable hes).valid hquote]
  refine ⟨_, _, htext hcs, htext hall, (hprintable hcs).quoted.valid, (hprintable hall).quoted.valid, ?_⟩
  rw [hweight hcs, hweight hall, List.flatMap_append, hμ.append _ _ (hprintable hcs).valid (hprintable hds).valid]
  omega

/-! ## maps -/

theorem forall₂_putEntry {R : Term × Term → Term × Term → Prop} (hR : ∀ e e', R e e' → e.1 = e'.1)
    {kvs kvs' : List (Term × Term)} (h : List.Forall₂ R kvs kvs') {k v v' : Term} (hv : R (k, v) (k, v')) :
    List.Forall₂ R (putEntry k v kvs) (putEntry k v' kvs') := by
  induction h with
  | nil => exact .cons hv .nil
  | @cons e e' kvs kvs' he hkvs ih =>
    obtain ⟨l, w⟩ := e
    obtain ⟨l', w'⟩ := e'
    obtain rfl : l = l' := hR _ _ he
    simp only [putEntry]
    split
    · exact .cons hv (.cons he hkvs)
    · split
      · exact .cons he ih
      · exact .cons hv hkvs

theorem forall₂_entriesOf {R : Term × Term → Term × Term → Prop} (hR : ∀ e e', R e e' → e.1 = e'.1)
    {kvs kvs' : List (Term × Term)} (h : List.Forall₂ R kvs kvs') :
    List.Forall₂ R (entriesOf kvs) (entriesOf kvs') := by
  suffices key : ∀ acc acc' : List (Term × Term), List.Forall₂ R acc acc' →
      List.Forall₂ R (kvs.foldl (fun acc e => putEntry e.1 e.2 acc) acc)
        (kvs'.foldl (fun acc e => putEntry e.1 e.2 acc) acc') from key [] [] .nil
  induction h with
  | nil => exact fun acc acc' hacc => hacc
  | @cons e e' kvs kvs' he hkvs ih =>
    intro acc acc' hacc
    obtain ⟨k, v⟩ := e
    obtain ⟨k', v'⟩ := e'
    obtain rfl : k = k' := hR _ _ he
    exact ih _ _ (forall₂_putEntry hR hacc he)

/-- The members of an object, by the sum of their weights. -/
theorem measure_object (hμ : Measure μ) {ms : List (Bytes × Bytes)} (h : ∀ m ∈ ms, validUtf8 m.2 = true) :
    validUtf8 (object ms) = true ∧
      μ (object ms) = μ [123] + ((ms.map fun m => μ m.2).sum + (ms.length - 1) * μ [44]) + μ [125] := by
  have hperm : ((ms.mergeSort fun a b => a.1 ≤ b.1).map Prod.snd).Perm (ms.map Prod.snd) :=
    (List.mergeSort_perm _ _).map _
  have hall : ∀ t ∈ (ms.mergeSort fun a b => a.1 ≤ b.1).map Prod.snd, validUtf8 t = true := by
    intro t ht
    obtain ⟨m, hm, rfl⟩ := List.mem_map.1 (hperm.mem_iff.1 ht)
    exact h m hm
  have hvalid : validUtf8 (List.intercalate [44] ((ms.mergeSort fun a b => a.1 ≤ b.1).map Prod.snd)) = true := by
    clear hperm
    generalize (ms.mergeSort fun a b => a.1 ≤ b.1).map Prod.snd = ts at hall
    induction ts with
    | nil => rw [List.intercalate]; exact validUtf8_ascii (by simp)
    | cons t ts ih =>
      obtain ⟨ht, hts⟩ := List.forall_mem_cons.1 hall
      rcases ts with _ | ⟨u, us⟩
      · simpa [List.intercalate] using ht
      · rw [List.intercalate_cons_cons]
        exact validUtf8_append (validUtf8_append ht (validUtf8_ascii (by simp))) (ih hts)
  have hbrace : validUtf8 [125] = true := validUtf8_ascii (by simp)
  have hrest := validUtf8_append hvalid hbrace
  refine ⟨validUtf8_append (a := [123]) (validUtf8_ascii (by simp)) hrest, ?_⟩
  rw [object, hμ.cons (by decide) hrest, hμ.append _ _ hvalid hbrace, hμ.intercalate hall, (hperm.map μ).sum_eq,
    hperm.length_eq, List.length_map, List.map_map]
  rw [Nat.add_assoc (μ [123])]
  rfl

/-- Names and values of entries, written. -/
theorem encodeMembers_lighter (hμ : Measure μ) {kvs kvs' : List (Term × Term)}
    (h : List.Forall₂ (LighterEntry otherString μ) kvs kvs') :
    ∃ ms ms', encodeMembers otherString kvs = some ms ∧ encodeMembers otherString kvs' = some ms' ∧
      (∀ m ∈ ms, validUtf8 m.2 = true) ∧ (∀ m ∈ ms', validUtf8 m.2 = true) ∧ ms.length = ms'.length ∧
      (ms.map fun m => μ m.2).sum ≤ (ms'.map fun m => μ m.2).sum := by
  induction h with
  | nil => exact ⟨[], [], rfl, rfl, by simp, by simp, rfl, Nat.le_refl _⟩
  | @cons e e' kvs kvs' he _ ih =>
    obtain ⟨ms, ms', hms, hms', hvalid, hvalid', hlen, hsum⟩ := ih
    obtain ⟨k, v⟩ := e
    obtain ⟨k', v'⟩ := e'
    obtain ⟨hkey, ⟨name, hname, hnamevalid⟩, a, b, ha, hb, hva, hvb, hle⟩ := he
    dsimp only at hkey hname ha hb
    subst hname
    subst hkey
    obtain ⟨text, htext, htextvalid, -⟩ := encodeString_length hnamevalid
    have hcolon : ∀ {x : Bytes}, validUtf8 x = true →
        validUtf8 (58 :: x) = true ∧ μ (text ++ 58 :: x) = μ text + (μ [58] + μ x) := by
      intro x hx
      have hvalid : validUtf8 (58 :: x) = true :=
        validUtf8_append (a := [58]) (validUtf8_ascii (by simp)) hx
      exact ⟨hvalid, by rw [hμ.append _ _ htextvalid hvalid, hμ.cons (by decide) hx]⟩
    refine ⟨(name, text ++ 58 :: a) :: ms, (name, text ++ 58 :: b) :: ms', ?_, ?_, ?_, ?_, ?_, ?_⟩
    · simp [encodeMembers, keyString, htext, ha, hms]
    · simp [encodeMembers, keyString, htext, hb, hms']
    · exact List.forall_mem_cons.2 ⟨validUtf8_append htextvalid (hcolon hva).1, hvalid⟩
    · exact List.forall_mem_cons.2 ⟨validUtf8_append htextvalid (hcolon hvb).1, hvalid'⟩
    · rw [List.length_cons, List.length_cons, hlen]
    · simp only [List.map_cons, List.sum_cons, (hcolon hva).2, (hcolon hvb).2]
      omega

/-- A map is lighter than another with its names, if its values are. -/
theorem lighter_map (hμ : Measure μ) {kvs kvs' : List (Term × Term)}
    (h : List.Forall₂ (LighterEntry otherString μ) kvs kvs') : Lighter otherString μ (.map kvs) (.map kvs') := by
  have hstruct : ∀ {l l' : List (Term × Term)}, List.Forall₂ (LighterEntry otherString μ) l l' →
      (l.any fun e => e.1 = sym "__struct__") = false ∧ (l'.any fun e => e.1 = sym "__struct__") = false := by
    intro l l' hl
    induction hl with
    | nil => exact ⟨rfl, rfl⟩
    | @cons e e' l l' he _ ih =>
      obtain ⟨hkey, ⟨name, hname, -⟩, -⟩ := he
      have hne : e.1 ≠ sym "__struct__" := by
        rw [hname]
        exact fun h => by cases h
      rw [List.any_cons, List.any_cons, ih.1, ih.2, ← hkey]
      simp [hne]
  obtain ⟨ms, ms', hms, hms', hvalid, hvalid', hlen, hsum⟩ := encodeMembers_lighter hμ h
  obtain ⟨hobject, hweight⟩ := measure_object hμ hvalid
  obtain ⟨hobject', hweight'⟩ := measure_object hμ hvalid'
  refine ⟨object ms, object ms', ?_, ?_, hobject, hobject', ?_⟩
  · rw [encodeValue, (hstruct h).1, hms]
    rfl
  · rw [encodeValue, (hstruct h).2, hms']
    rfl
  · rw [hweight, hweight', hlen]
    omega

theorem lighter_mapOf (hμ : Measure μ) {kvs kvs' : List (Term × Term)}
    (h : List.Forall₂ (LighterEntry otherString μ) kvs kvs') : Lighter otherString μ (mapOf kvs) (mapOf kvs') :=
  lighter_map hμ (forall₂_entriesOf (fun _ _ he => he.1) h)

/-! ## weights of maps -/

/-- The text of a value that is written. -/
def textOf (otherString : Term → Option Bytes) (t : Term) : Bytes := (encodeValue otherString t).getD []

/-- The weight of an entry, its name, the colon and its value. -/
def entryWeight (otherString : Term → Option Bytes) (μ : Bytes → ℕ) (e : Term × Term) : ℕ :=
  μ (textOf otherString e.1) + (μ [58] + μ (textOf otherString e.2))

/-- An entry of a name and a value that is written. -/
def EncodesEntry (otherString : Term → Option Bytes) (e : Term × Term) : Prop :=
  (∃ k, e.1 = .binary k ∧ validUtf8 k = true) ∧ Encodes otherString e.2

theorem encodeMembers_weight (hμ : Measure μ) {kvs : List (Term × Term)} (h : ∀ e ∈ kvs, EncodesEntry otherString e) :
    ∃ ms, encodeMembers otherString kvs = some ms ∧ (∀ m ∈ ms, validUtf8 m.2 = true) ∧
      (ms.map fun m => μ m.2) = kvs.map (entryWeight otherString μ) := by
  induction kvs with
  | nil => exact ⟨[], rfl, by simp, rfl⟩
  | cons e kvs ih =>
    obtain ⟨he, hkvs⟩ := List.forall_mem_cons.1 h
    obtain ⟨ms, hms, hvalid, hweight⟩ := ih hkvs
    obtain ⟨k, v⟩ := e
    obtain ⟨⟨name, rfl, hname⟩, a, ha, hva⟩ := he
    obtain ⟨text, htext, htextvalid, -⟩ := encodeString_length hname
    have hcolon : validUtf8 (58 :: a) = true := validUtf8_append (a := [58]) (validUtf8_ascii (by simp)) hva
    refine ⟨(name, text ++ 58 :: a) :: ms, ?_, ?_, ?_⟩
    · simp [encodeMembers, keyString, htext, ha, hms]
    · exact List.forall_mem_cons.2 ⟨validUtf8_append htextvalid hcolon, hvalid⟩
    · have hkey : encodeValue otherString (.binary name) = some text := htext
      simp only [List.map_cons, hweight, entryWeight, textOf, ha, hkey, Option.getD_some]
      rw [hμ.append _ _ htextvalid hcolon, hμ.cons (by decide) hva]

/-- The weight of a map is the sum of the weights of its entries, with its braces and commas. -/
theorem weight_map (hμ : Measure μ) {kvs : List (Term × Term)} (h : ∀ e ∈ kvs, EncodesEntry otherString e) :
    ∃ text, encodeValue otherString (.map kvs) = some text ∧ validUtf8 text = true ∧
      μ text = μ [123] + ((kvs.map (entryWeight otherString μ)).sum + (kvs.length - 1) * μ [44]) + μ [125] := by
  have hstruct : (kvs.any fun e => e.1 = sym "__struct__") = false := by
    rw [List.any_eq_false]
    intro e he
    obtain ⟨⟨name, hname, -⟩, -⟩ := h e he
    simp [hname, sym]
  obtain ⟨ms, hms, hvalid, hweight⟩ := encodeMembers_weight hμ h
  obtain ⟨hobject, hsum⟩ := measure_object hμ hvalid
  have hlength := congrArg List.length hweight
  rw [List.length_map, List.length_map] at hlength
  refine ⟨object ms, ?_, hobject, ?_⟩
  · rw [encodeValue, hstruct, hms]
    rfl
  · rw [hsum, hweight, hlength]

theorem weight_mapOf (hμ : Measure μ) {kvs : List (Term × Term)} (h : ∀ e ∈ kvs, EncodesEntry otherString e)
    (hd : kvs.Pairwise fun a b => Erlang.encode a.1 ≠ Erlang.encode b.1) :
    ∃ text, encodeValue otherString (mapOf kvs) = some text ∧ validUtf8 text = true ∧
      μ text = μ [123] + ((kvs.map (entryWeight otherString μ)).sum + (kvs.length - 1) * μ [44]) + μ [125] := by
  have hperm := perm_entriesOf hd
  obtain ⟨text, htext, hvalid, hweight⟩ := weight_map hμ fun e he => h e (hperm.mem_iff.1 he)
  refine ⟨text, htext, hvalid, ?_⟩
  rw [hweight, (hperm.map _).sum_eq, hperm.length_eq]

/-- A measure in which nothing is for nothing, and a flag that is set weighs one less. -/
structure FineMeasure (μ : Bytes → ℕ) : Prop extends Measure μ where
  pos : ∀ b, validUtf8 b = true → b ≠ [] → 1 ≤ μ b
  unflag : μ (utf8 "false") ≤ μ (utf8 "true") + 1

theorem fineMeasure_length : FineMeasure List.length where
  toMeasure := measure_length
  pos b _ hb := List.length_pos_iff.2 hb
  unflag := by decide

theorem fineMeasure_escaped : FineMeasure escaped where
  toMeasure := measure_escaped
  pos b hvalid hb := (List.length_pos_iff.2 hb).trans_le (length_le_escaped hvalid)
  unflag := by decide +kernel

/-- More text weighs more. -/
theorem weight_string_lt (hμ : FineMeasure μ) {cs ds : List ℕ} (hcs : ∀ c ∈ cs, Scalar c) (hds : ∀ c ∈ ds, Scalar c)
    (hne : ds ≠ []) :
    μ (textOf otherString (.binary (utf8All cs))) + 1 ≤ μ (textOf otherString (.binary (utf8All (cs ++ ds)))) := by
  have hprintable : ∀ {es : List ℕ}, (∀ c ∈ es, Scalar c) → Printable (es.flatMap escapeChar) := by
    intro es hes
    obtain ⟨e, he, -, hp⟩ := escape_utf8All hes
    rw [escape_all hes] at he
    exact Option.some.inj he ▸ hp
  have hall : ∀ c ∈ cs ++ ds, Scalar c := fun c hc => (List.mem_append.1 hc).elim (hcs c) (hds c)
  have hweight : ∀ {es : List ℕ}, (∀ c ∈ es, Scalar c) →
      μ (textOf otherString (.binary (utf8All es))) = μ [34] + (μ (es.flatMap escapeChar) + μ [34]) := by
    intro es hes
    have hquote : validUtf8 [34] = true := validUtf8_ascii (by simp)
    have htext : textOf otherString (.binary (utf8All es)) = 34 :: (es.flatMap escapeChar ++ [34]) := by
      rw [textOf, encodeValue, encodeString, escape_all hes]
      rfl
    rw [htext, hμ.toMeasure.cons (by decide) (validUtf8_append (hprintable hes).valid hquote),
      hμ.append _ _ (hprintable hes).valid hquote]
  have hmore : ds.flatMap escapeChar ≠ [] := by
    obtain ⟨d, rest, rfl⟩ := List.exists_cons_of_ne_nil hne
    have hd := @length_le_escapeChar d
    have hpos := List.length_pos_iff.2 (utf8Encode_ne_nil d)
    rw [List.flatMap_cons]
    intro hnil
    have hnil := congrArg List.length (List.append_eq_nil_iff.1 hnil).1
    simp only [List.length_nil] at hnil
    omega
  have hpos := hμ.pos _ (hprintable hds).valid hmore
  rw [hweight hcs, hweight hall, List.flatMap_append, hμ.append _ _ (hprintable hcs).valid (hprintable hds).valid]
  omega

/-! ## bounds -/

/-- A value is written in `n` bytes at most. -/
def WrittenIn (otherString : Term → Option Bytes) (n : ℕ) (t : Term) : Prop :=
  ∃ text, encodeValue otherString t = some text ∧ text.length ≤ n

theorem WrittenIn.mono {m n : ℕ} {t : Term} (h : WrittenIn otherString m t) (hmn : m ≤ n) :
    WrittenIn otherString n t :=
  h.imp fun _ ht => ⟨ht.1, ht.2.trans hmn⟩

/-- A character takes no more than six bytes for each of its own. -/
theorem escapeChar_length (c : ℕ) : (escapeChar c).length ≤ 6 * (utf8Encode c).length := by
  have hpos : 0 < (utf8Encode c).length := List.length_pos_iff.2 (utf8Encode_ne_nil c)
  unfold escapeChar
  split
  next hc =>
    rcases h : escapeByte (UInt8.ofNat c) with _ | e
    · rw [Option.getD_none]
      omega
    · have hlen : e.length ≤ 6 := by
        unfold escapeByte at h
        (repeat' split at h) <;> simp_all <;> subst h <;> simp
      rw [Option.getD_some]
      omega
  · omega

theorem escaped_le {b : Bytes} (h : validUtf8 b = true) : escaped b ≤ 6 * b.length := by
  obtain ⟨cs, hcs, rfl⟩ := validUtf8_iff.1 h
  rw [escaped_all hcs]
  clear h hcs
  induction cs with
  | nil => simp
  | cons c cs ih =>
    have hc := escapeChar_length c
    rw [List.flatMap_cons, utf8All_cons, List.length_append, List.length_append]
    omega

theorem writtenIn_binary {b : Bytes} (h : validUtf8 b = true) :
    WrittenIn otherString (6 * b.length + 2) (.binary b) := by
  obtain ⟨text, htext, -, hlen⟩ := encodeString_length h
  have hle := escaped_le h
  exact ⟨text, htext, by omega⟩

theorem intercalate_length_le {n : ℕ} {ts : List Bytes} (h : ∀ t ∈ ts, t.length ≤ n) :
    (List.intercalate [44] ts).length ≤ ts.length * (n + 1) := by
  induction ts with
  | nil => simp [List.intercalate]
  | cons t ts ih =>
    obtain ⟨ht, hts⟩ := List.forall_mem_cons.1 h
    have hrest := ih hts
    rcases ts with _ | ⟨u, us⟩
    · simp only [List.intercalate, List.intersperse_singleton, List.flatten_singleton, List.length_singleton]
      omega
    · rw [List.intercalate_cons_cons, List.length_append, List.length_append, List.length_singleton,
        List.length_cons, Nat.add_mul]
      omega

theorem writtenIn_list {n : ℕ} {xs : List Term} (h : ∀ x ∈ xs, WrittenIn otherString n x) :
    WrittenIn otherString (xs.length * (n + 1) + 2) (.list xs) := by
  have helements : ∃ ts, encodeElements otherString xs = some ts ∧ ts.length = xs.length ∧ ∀ t ∈ ts, t.length ≤ n := by
    induction xs with
    | nil => exact ⟨[], rfl, rfl, by simp⟩
    | cons x xs ih =>
      obtain ⟨⟨text, htext, hlen⟩, hxs⟩ := List.forall_mem_cons.1 h
      obtain ⟨ts, hts, hsame, hle⟩ := ih hxs
      refine ⟨text :: ts, by simp [encodeElements, htext, hts], by simp [hsame], ?_⟩
      exact List.forall_mem_cons.2 ⟨hlen, hle⟩
  obtain ⟨ts, hts, hsame, hle⟩ := helements
  refine ⟨array ts, by rw [encodeValue, hts]; rfl, ?_⟩
  have hjoin := intercalate_length_le hle
  rw [hsame] at hjoin
  rw [array, List.length_cons, List.length_append, List.length_singleton]
  omega

/-- A map with short names. -/
theorem writtenIn_map {n : ℕ} {kvs : List (Term × Term)}
    (h : ∀ e ∈ kvs, ∃ k, e.1 = .binary k ∧ validUtf8 k = true ∧ k.length ≤ 60 ∧ WrittenIn otherString n e.2) :
    WrittenIn otherString (kvs.length * (n + 364) + 2) (.map kvs) := by
  have hmembers : ∃ ms, encodeMembers otherString kvs = some ms ∧ ms.length = kvs.length ∧
      ∀ m ∈ ms, m.2.length ≤ n + 363 := by
    induction kvs with
    | nil => exact ⟨[], rfl, rfl, by simp⟩
    | cons e kvs ih =>
      obtain ⟨⟨k, hk, hvalid, hshort, text, htext, hlen⟩, hkvs⟩ := List.forall_mem_cons.1 h
      obtain ⟨ms, hms, hsame, hle⟩ := ih hkvs
      obtain ⟨name, hname, -, hnamelen⟩ := encodeString_length hvalid
      have hescaped := escaped_le hvalid
      obtain ⟨key, value⟩ := e
      dsimp only at hk htext
      subst hk
      refine ⟨(k, name ++ 58 :: text) :: ms, ?_, by simp [hsame], List.forall_mem_cons.2 ⟨?_, hle⟩⟩
      · simp [encodeMembers, keyString, hname, htext, hms]
      · rw [List.length_append, List.length_cons]
        omega
  have hstruct : (kvs.any fun e => e.1 = sym "__struct__") = false := by
    rw [List.any_eq_false]
    intro e he
    obtain ⟨k, hk, -⟩ := h e he
    simp [hk, sym]
  obtain ⟨ms, hms, hsame, hle⟩ := hmembers
  refine ⟨object ms, by rw [encodeValue, hstruct, hms]; rfl, ?_⟩
  have hjoin : (List.intercalate [44] ((ms.mergeSort fun a b => a.1 ≤ b.1).map Prod.snd)).length ≤
      ((ms.mergeSort fun a b => a.1 ≤ b.1).map Prod.snd).length * (n + 364) := by
    refine intercalate_length_le fun t ht => ?_
    obtain ⟨m, hm, rfl⟩ := List.mem_map.1 ht
    exact hle m (List.mem_mergeSort.1 hm)
  rw [List.length_map, List.length_mergeSort, hsame] at hjoin
  rw [object, List.length_cons, List.length_append, List.length_singleton]
  omega

/-! ## maps with plain names -/

theorem escape_plain {b : Bytes} (h : ∀ x ∈ b, x.toNat < 0x80 ∧ escapeByte x = none) : escape b = some b := by
  induction b with
  | nil => rw [escape]
  | cons x b ih =>
    obtain ⟨⟨hx, hplain⟩, hb⟩ := List.forall_mem_cons.1 h
    have hcons := escape_cons (c := x.toNat) (.inl (by omega)) b
    rw [utf8Encode_ascii hx, escapeChar_ascii hx, hplain, ih hb] at hcons
    exact hcons

/-- A text that no byte is escaped in. -/
def plainText (b : Bytes) : Bool := b.all fun x => x.toNat < 0x80 && escapeByte x = none

theorem encodeString_plain {b : Bytes} (h : plainText b = true) : encodeString b = some (34 :: (b ++ [34])) := by
  rw [encodeString, escape_plain (by simpa [plainText] using h)]
  rfl

/-- Members in the order of their names. -/
theorem object_of_perm {ms ms' : List (Bytes × Bytes)} (h : ms.Perm ms')
    (hs : (ms'.map Prod.fst).Pairwise (· < ·)) :
    object ms = 123 :: (List.intercalate [44] (ms'.map Prod.snd) ++ [125]) := by
  have hkeys : (ms'.map Prod.fst).Nodup := by
    refine hs.imp fun {a b} h => ?_
    rintro rfl
    exact List.lt_irrefl _ h
  have hle : ms'.Pairwise fun a b => decide (a.1 ≤ b.1) = true :=
    (List.pairwise_map.1 hs).imp fun h => by simpa using List.le_of_lt h
  have hperm := (List.mergeSort_perm ms fun a b => decide (a.1 ≤ b.1)).trans h
  have hsorted : (ms.mergeSort fun a b => a.1 ≤ b.1) = ms' := by
    refine hperm.eq_of_pairwise ?_ ?_ hle
    · intro a b ha hb h1 h2
      simp only [decide_eq_true_eq] at h1 h2
      exact List.inj_on_of_nodup_map hkeys (hperm.mem_iff.1 ha) hb (List.le_antisymm h1 h2)
    · refine List.pairwise_mergeSort ?_ ?_ _
      · intro a b c h1 h2
        simp only [decide_eq_true_eq] at h1 h2 ⊢
        exact List.le_trans h1 h2
      · intro a b
        simp only [Bool.or_eq_true, decide_eq_true_eq]
        exact List.le_total _ _
  rw [object, hsorted]

/-- **A map with plain names**: its fields, each a name, a value and its text, in the order of the names. -/
theorem encodeValue_fields {fs fs' : List (String × Term × Bytes)} (hp : fs.Perm fs')
    (hs : (fs'.map fun f => utf8 f.1).Pairwise (· < ·))
    (hn : ((fs'.map fun f => utf8 f.1).all plainText) = true)
    (hv : ∀ f ∈ fs', encodeValue otherString f.2.1 = some f.2.2) :
    encodeValue otherString (.map (fs.map fun f => (str f.1, f.2.1))) =
      some (123 :: (List.intercalate [44] (fs'.map fun f => 34 :: (utf8 f.1 ++ 34 :: 58 :: f.2.2)) ++ [125])) := by
  have hmembers : ∀ l : List (String × Term × Bytes), (∀ f ∈ l, f ∈ fs') →
      encodeMembers otherString (l.map fun f => (str f.1, f.2.1)) =
        some (l.map fun f => (utf8 f.1, 34 :: (utf8 f.1 ++ 34 :: 58 :: f.2.2))) := by
    intro l hl
    induction l with
    | nil => rfl
    | cons f l ih =>
      obtain ⟨hf, hrest⟩ := List.forall_mem_cons.1 hl
      have hname := encodeString_plain (List.all_eq_true.1 hn _ (List.mem_map_of_mem hf))
      have htail := ih hrest
      simp only [str] at htail
      simp [encodeMembers, str, keyString, hname, hv f hf, htail]
  have hstruct : ((fs.map fun f => (str f.1, f.2.1)).any fun e => e.1 = sym "__struct__") = false := by
    rw [List.any_eq_false]
    intro e he
    obtain ⟨f, -, rfl⟩ := List.mem_map.1 he
    simp [str, sym]
  rw [encodeValue, hstruct, hmembers fs fun f hf => hp.mem_iff.1 hf, Option.map_some,
    object_of_perm (hp.map _) (by rw [List.map_map]; exact hs), List.map_map]
  rfl

end Loopex.Protocol.Frame
