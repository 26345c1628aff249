import Loopex.Protocol.FrameValues

/-!
# What the frame encoder writes

`Frame.encode` against the grammar of JSON texts and against `Frame.decode`.

* `Wire n t` — the records of the wire: plain JSON data within the limits of a frame
* `encodeValue_wire` — a record is written as a text of the standard that denotes it, on one line
* `encode_decode` — what is written is read back; two records are never written alike
-/

namespace Loopex.Protocol.Frame

open Loopex.Erlang Loopex.Erlang.Term Loopex.Protocol.Json

/-! ## the encoder -/

/-- `hex`. -/
def hex (value : ℕ) : UInt8 := if value < 10 then UInt8.ofNat (48 + value) else UInt8.ofNat (97 + value - 10)

/-- The clauses of `escape` that rewrite a byte. -/
def escapeByte (x : UInt8) : Option Bytes :=
  if x = 34 then some [92, 34]
  else if x = 92 then some [92, 92]
  else if x = 8 then some [92, 98]
  else if x = 12 then some [92, 102]
  else if x = 10 then some [92, 110]
  else if x = 13 then some [92, 114]
  else if x = 9 then some [92, 116]
  else if x < 0x20 then some [92, 117, 48, 48, hex (x.toNat / 16), hex (x.toNat % 16)]
  else none

/-- `escape`; it has no clause for bytes that are not UTF-8. -/
def escape (b : Bytes) : Option Bytes :=
  match b with
  | [] => some []
  | x :: xs =>
    match escapeByte x with
    | some e => (escape xs).map (e ++ ·)
    | none =>
      match _h : utf8Decode (x :: xs) with
      | some (code, rest) => (escape rest).map (utf8Encode code ++ ·)
      | none => none
termination_by b.length
decreasing_by
  · simp
  · exact utf8Decode_length _h

/-- `encode_string`. -/
def encodeString (value : Bytes) : Option Bytes := (escape value).map fun e => 34 :: (e ++ [34])

section
-- `to_string` of a key that is not a binary, an atom or an integer
variable (otherString : Term → Option Bytes)

/-- `to_string` of a key. -/
def keyString : Term → Option Bytes
  | .binary b => some b
  | .atom a => some (if a = utf8 "nil" then [] else a)
  | .int n => some (integerToString n)
  | t => otherString t

/-- The members of an object in the order of their names, and commas between them. -/
def object (members : List (Bytes × Bytes)) : Bytes :=
  123 :: (List.intercalate [44] ((members.mergeSort fun a b => a.1 ≤ b.1).map Prod.snd) ++ [125])

/-- An array. -/
def array (elements : List Bytes) : Bytes := 91 :: (List.intercalate [44] elements ++ [93])

mutual
/-- `encode_value`; `none` is an exception.  A struct has no enumeration, and the members are written before
they are sorted. -/
def encodeValue : Term → Option Bytes
  | .map kvs =>
    if kvs.any fun e => e.1 = sym "__struct__" then none else (encodeMembers kvs).map object
  | .list xs => (encodeElements xs).map array
  | .binary b => encodeString b
  | .int n => some (integerToString n)
  | .atom a =>
    if a = utf8 "true" ∨ a = utf8 "false" then some a
    else if a = utf8 "nil" then some (utf8 "null")
    else encodeString a
  | _ => none
/-- The values of a list. -/
def encodeElements : List Term → Option (List Bytes)
  | [] => some []
  | x :: xs => do
    let text ← encodeValue x
    let rest ← encodeElements xs
    some (text :: rest)
/-- The entries of a map, each with the string of its key. -/
def encodeMembers : List (Term × Term) → Option (List (Bytes × Bytes))
  | [] => some []
  | (k, v) :: kvs => do
    let key ← keyString otherString k
    let name ← encodeString key
    let text ← encodeValue v
    let rest ← encodeMembers kvs
    some ((key, name ++ 58 :: text) :: rest)
end

/-- What `encode` comes to. -/
inductive Encoding where
  | ok (bytes : Bytes)
  | outputRecordTooLarge
  | raised
  deriving DecidableEq

/-- `encode`. -/
def encode (record : Term) : Encoding :=
  match record with
  | .map kvs =>
    match encodeValue otherString (.map kvs) with
    | some text =>
      let encoded := text ++ [10]
      if encoded.length > outputRecordBytes then .outputRecordTooLarge else .ok encoded
    | none => .raised
  | _ => .raised

end

/-! ## records -/

/-- Plain JSON data within the limits of a frame, `n` containers deep at most. -/
inductive Wire : ℕ → Term → Prop
  | true {n} : Wire n (sym "true")
  | false {n} : Wire n (sym "false")
  | nil {n} : Wire n nil
  | int {n i} : integerMin ≤ i → i ≤ integerMax → Wire n (.int i)
  | string {n b} : validUtf8 b = true → b.length ≤ maxStringBytes → Wire n (.binary b)
  | list {n xs} : xs.length ≤ maxMembers → (∀ x ∈ xs, Wire n x) → Wire (n + 1) (.list xs)
  | map {n kvs} : Ordered kvs → kvs.length ≤ maxMembers →
      (∀ e ∈ kvs, ∃ k, e.1 = .binary k ∧ validUtf8 k = true ∧ k.length ≤ maxStringBytes) →
      (∀ e ∈ kvs, Wire n e.2) → Wire (n + 1) (.map kvs)

theorem Wire.within {n : ℕ} {t : Term} (h : Wire n t) : Within n t := by
  induction h with
  | true => exact .atom
  | false => exact .atom
  | nil => exact .atom
  | int h1 h2 => exact .int h1 h2
  | string _ hl => exact .string hl
  | list hl _ ih => exact .list hl ih
  | map _ hl hk _ ih => exact .map hl (fun e he => (hk e he).imp fun _ h => ⟨h.1, h.2.2⟩) ih

/-! ## lines -/

/-- A text on one line. -/
def Printable (b : Bytes) : Prop := ∃ cs, (∀ c ∈ cs, Scalar c ∧ 0x20 ≤ c) ∧ b = utf8All cs

theorem Printable.append {a b : Bytes} (ha : Printable a) (hb : Printable b) : Printable (a ++ b) := by
  obtain ⟨cs, hc, rfl⟩ := ha
  obtain ⟨ds, hd, rfl⟩ := hb
  refine ⟨cs ++ ds, ?_, (utf8All_append cs ds).symm⟩
  intro c hc'
  rcases List.mem_append.1 hc' with h | h
  · exact hc c h
  · exact hd c h

theorem utf8Encode_ascii {x : UInt8} (h : x.toNat < 0x80) : utf8Encode x.toNat = [x] := by
  rw [utf8Encode, if_pos h, UInt8.ofNat_toNat]

theorem printable_ascii {b : Bytes} (h : ∀ x ∈ b, 0x20 ≤ x.toNat ∧ x.toNat < 0x80) : Printable b := by
  induction b with
  | nil => exact ⟨[], by simp, rfl⟩
  | cons x b ih =>
    obtain ⟨h1, h2⟩ := h x (by simp)
    have hx : Printable [x] := by
      refine ⟨[x.toNat], ?_, by simp [utf8Encode_ascii h2]⟩
      simpa using ⟨.inl (by omega), h1⟩
    exact hx.append (ih fun y hy => h y (by simp [hy]))

/-- A text over the ASCII range, by evaluation. -/
theorem printable_all {b : Bytes} (h : (b.all fun x => 0x20 ≤ x.toNat && x.toNat < 0x80) = true) : Printable b :=
  printable_ascii (by simpa using h)

theorem Printable.valid {b : Bytes} (h : Printable b) : validUtf8 b = true := by
  obtain ⟨cs, hc, rfl⟩ := h
  exact validUtf8_iff.2 ⟨cs, fun c hc' => (hc c hc').1, rfl⟩

/-- A printable character takes printable bytes. -/
theorem utf8Encode_ge {c : ℕ} (hs : Scalar c) (h : 0x20 ≤ c) : ∀ x ∈ utf8Encode c, 0x20 ≤ x.toNat := by
  have hmax : c < 0x110000 := by
    unfold Scalar at hs
    omega
  have hn : ∀ n < 256, (UInt8.ofNat n).toNat = n := fun n hn => toNat_ofNat hn
  unfold utf8Encode
  split
  · intro x hx
    rw [List.mem_singleton.1 hx, hn c (by omega)]
    exact h
  split
  · intro x hx
    simp only [List.mem_cons, List.not_mem_nil, or_false] at hx
    rcases hx with rfl | rfl <;> rw [hn _ (by omega)] <;> omega
  split
  · intro x hx
    simp only [List.mem_cons, List.not_mem_nil, or_false] at hx
    rcases hx with rfl | rfl | rfl <;> rw [hn _ (by omega)] <;> omega
  · intro x hx
    simp only [List.mem_cons, List.not_mem_nil, or_false] at hx
    rcases hx with rfl | rfl | rfl | rfl <;> rw [hn _ (by omega)] <;> omega

/-- No byte of a line is a newline. -/
theorem Printable.no_newline {b : Bytes} (h : Printable b) : 10 ∉ b := by
  obtain ⟨cs, hc, rfl⟩ := h
  intro hm
  obtain ⟨c, hc', hx⟩ := List.mem_flatMap.1 hm
  obtain ⟨hs, h20⟩ := hc c hc'
  exact absurd (utf8Encode_ge hs h20 10 hx) (by decide)

/-! ## strings -/

/-- A character as `escape` writes it. -/
def escapeChar (c : ℕ) : Bytes :=
  if c < 0x80 then (escapeByte (UInt8.ofNat c)).getD (utf8Encode c) else utf8Encode c

theorem digitValue_hex : ∀ v < 16, digitValue 16 (hex v) = some v := by decide

theorem hex_ascii : ∀ v < 16, 0x20 ≤ (hex v).toNat ∧ (hex v).toNat < 0x80 := by decide

/-- What is written for a byte that is rewritten. -/
theorem escapeByte_some {x : UInt8} {e : Bytes} (h : escapeByte x = some e) :
    x.toNat < 0x80 ∧ Character strict e x.toNat ∧ ∀ y ∈ e, 0x20 ≤ y.toNat ∧ y.toNat < 0x80 := by
  unfold escapeByte at h
  iterate 7
    split at h
    · next hx =>
      cases h
      subst hx
      exact ⟨by decide, .short rfl, by simp⟩
  split at h <;> [skip; cases h]
  next hx =>
  cases h
  have hlt : x.toNat < 0x20 := by simpa [UInt8.lt_iff_toNat_lt] using hx
  have h1 := digitValue_hex (x.toNat / 16) (by omega)
  have h2 := digitValue_hex (x.toNat % 16) (by omega)
  have h0 : digitValue 16 48 = some 0 := by decide
  refine ⟨by omega, .unicode (h := [48, 48, _, _]) ⟨rfl, [0, 0, x.toNat / 16, x.toNat % 16], ?_, ?_⟩ (.inl (by omega)),
    ?_⟩
  · simp [List.mapM_cons, h0, h1, h2]
  · simp [ofDigits]
    omega
  · intro y hy
    simp only [List.mem_cons, List.not_mem_nil, or_false] at hy
    rcases hy with rfl | rfl | rfl | rfl | rfl | rfl
    iterate 4 decide
    · exact hex_ascii _ (by omega)
    · exact hex_ascii _ (by omega)

/-- A byte that stands for itself. -/
theorem escapeByte_none {x : UInt8} (h : escapeByte x = none) :
    0x20 ≤ x.toNat ∧ x.toNat ≠ 34 ∧ x.toNat ≠ 92 := by
  refine ⟨?_, ?_, ?_⟩
  · by_contra hx
    have hlt : x < 0x20 := by
      rw [UInt8.lt_iff_toNat_lt]
      simpa using hx
    unfold escapeByte at h
    (repeat' split at h) <;> simp_all
  · intro hx
    have hx' : x = 34 := UInt8.toNat_inj.1 hx
    subst hx'
    simp [escapeByte] at h
  · intro hx
    have hx' : x = 92 := UInt8.toNat_inj.1 hx
    subst hx'
    simp [escapeByte] at h

theorem escapeByte_large {x : UInt8} (h : 0x80 ≤ x.toNat) : escapeByte x = none := by
  cases he : escapeByte x with
  | none => rfl
  | some e => exact absurd (escapeByte_some he).1 (by omega)

theorem escapeChar_ascii {x : UInt8} (h : x.toNat < 0x80) : escapeChar x.toNat = (escapeByte x).getD [x] := by
  rw [escapeChar, if_pos h, UInt8.ofNat_toNat, utf8Encode_ascii h]

/-- The byte of a character below 128. -/
theorem exists_byte {c : ℕ} (h : c < 0x80) : ∃ x : UInt8, x.toNat = c := ⟨UInt8.ofNat c, toNat_ofNat (by omega)⟩

theorem escapeChar_spec {c : ℕ} (hs : Scalar c) : Character strict (escapeChar c) c ∧ Printable (escapeChar c) := by
  by_cases hc : c < 0x80
  · obtain ⟨x, rfl⟩ := exists_byte hc
    rw [escapeChar_ascii hc]
    cases he : escapeByte x with
    | some e =>
      obtain ⟨-, h1, h2⟩ := escapeByte_some he
      exact ⟨h1, printable_ascii h2⟩
    | none =>
      obtain ⟨h1, h2, h3⟩ := escapeByte_none he
      refine ⟨?_, printable_ascii (by simpa using ⟨h1, hc⟩)⟩
      rw [Option.getD_none, ← utf8Encode_ascii hc]
      exact .plain hs h1 h2 h3
  · rw [escapeChar, if_neg hc]
    refine ⟨.plain hs (by omega) (by omega) (by omega), [c], ?_, by simp⟩
    simpa using ⟨hs, by omega⟩

theorem escape_cons {c : ℕ} (hs : Scalar c) (b : Bytes) :
    escape (utf8Encode c ++ b) = (escape b).map (escapeChar c ++ ·) := by
  have hd := utf8Decode_encode hs b
  have hplain : ∀ x p, utf8Encode c = x :: p → escapeByte x = none → escapeChar c = utf8Encode c →
      escape (utf8Encode c ++ b) = (escape b).map (escapeChar c ++ ·) := by
    intro x p hp hx he
    rw [he]
    rw [hp, List.cons_append] at hd ⊢
    rw [escape, hx]
    simp only
    split
    · next code rest h =>
      rw [hd] at h
      cases h
      rw [hp]
    · next h =>
      rw [hd] at h
      cases h
  by_cases hc : c < 0x80
  · obtain ⟨x, rfl⟩ := exists_byte hc
    have hx := utf8Encode_ascii hc
    cases he : escapeByte x with
    | some e => rw [hx, escapeChar_ascii hc, List.singleton_append, escape, he]; rfl
    | none => exact hplain x [] hx he (by rw [escapeChar_ascii hc, he, hx]; rfl)
  · obtain ⟨x, p, hp, -, hge⟩ := utf8Encode_head hs
    exact hplain x p hp (escapeByte_large (hge (by omega))) (if_neg hc)

theorem escape_utf8All {cs : List ℕ} (h : ∀ c ∈ cs, Scalar c) :
    ∃ e, escape (utf8All cs) = some e ∧ Chars strict e cs ∧ Printable e := by
  induction cs with
  | nil => exact ⟨[], by rw [utf8All_nil, escape], .nil, printable_ascii (by simp)⟩
  | cons c cs ih =>
    obtain ⟨e, he, hc, hp⟩ := ih fun x hx => h x (by simp [hx])
    have hs := h c (by simp)
    obtain ⟨h1, h2⟩ := escapeChar_spec hs
    exact ⟨escapeChar c ++ e, by rw [utf8All_cons, escape_cons hs, he]; rfl, .cons h1 hc, h2.append hp⟩

/-- What is written for a valid binary. -/
theorem encodeString_spec {b : Bytes} (h : validUtf8 b = true) :
    ∃ e cs, encodeString b = some (34 :: (e ++ [34])) ∧ Chars strict e cs ∧ b = utf8All cs ∧ Printable e := by
  obtain ⟨cs, hcs, rfl⟩ := validUtf8_iff.1 h
  obtain ⟨e, he, hc, hp⟩ := escape_utf8All hcs
  exact ⟨e, cs, by rw [encodeString, he]; rfl, hc, rfl, hp⟩

theorem Printable.quoted {e : Bytes} (h : Printable e) : Printable (34 :: (e ++ [34])) :=
  (printable_all (b := [34]) (by decide)).append (h.append (printable_all (by decide)))

/-! ## integers -/

theorem integerToString_spec (n : ℤ) : strict.int (integerToString n) n ∧ Printable (integerToString n) := by
  have hd := decimal_lt n.natAbs
  have hp : ∀ x ∈ digits (decimal n.natAbs), 0x20 ≤ x.toNat ∧ x.toNat < 0x80 := by
    intro x hx
    obtain ⟨d, hd', rfl⟩ := List.mem_map.1 hx
    have := hd d hd'
    rw [toNat_ofNat (by omega)]
    omega
  have hv := ofDigits_decimal n.natAbs
  unfold integerToString
  split
  · refine ⟨⟨_, hd, decimal_ne_nil _, decimal_head _, .inr ⟨rfl, by rw [hv]; omega⟩⟩, ?_⟩
    exact (printable_all (b := [45]) (by decide)).append (printable_ascii hp)
  · exact ⟨⟨_, hd, decimal_ne_nil _, decimal_head _, .inl ⟨rfl, by rw [hv]; omega⟩⟩, printable_ascii hp⟩

/-! ## values -/

theorem ws_nil : Ws [] := by simp [Ws]

theorem elements_intercalate {L : Lexis} {ts : List Bytes} {vs : List Term} (h : List.Forall₂ (Value L) ts vs)
    (hne : ts ≠ []) : Elements L (List.intercalate [44] ts) vs := by
  induction h with
  | nil => exact absurd rfl hne
  | @cons t v ts vs hv hts ih =>
    rcases ts with _ | ⟨t', ts⟩
    · cases hts
      have := Elements.one ws_nil hv ws_nil
      simpa [List.intercalate] using this
    · have := Elements.cons ws_nil hv ws_nil (ih (by simp))
      simpa [List.intercalate, List.intersperse] using this

/-- A member as it is written. -/
def WrittenMember (L : Lexis) (t : Bytes) (m : Bytes × Term) : Prop :=
  ∃ e cs b, t = 34 :: (e ++ 34 :: 58 :: b) ∧ Chars L e cs ∧ m.1 = utf8All cs ∧ Value L b m.2

theorem members_intercalate {L : Lexis} {ts : List Bytes} {ms : List (Bytes × Term)}
    (h : List.Forall₂ (WrittenMember L) ts ms) (hne : ts ≠ []) : Members L (List.intercalate [44] ts) ms := by
  induction h with
  | nil => exact absurd rfl hne
  | @cons t m ts ms hm hts ih =>
    obtain ⟨e, cs, b, rfl, hc, hk, hv⟩ := hm
    obtain ⟨k, v⟩ := m
    obtain rfl : k = utf8All cs := hk
    rcases ts with _ | ⟨t', ts⟩
    · cases hts
      have := Members.one ws_nil hc ws_nil ws_nil hv ws_nil
      simpa [List.intercalate] using this
    · have := Members.cons ws_nil hc ws_nil ws_nil hv ws_nil (ih (by simp))
      simpa [List.intercalate, List.intersperse] using this

theorem printable_intercalate {ts : List Bytes} (h : ∀ t ∈ ts, Printable t) : Printable (List.intercalate [44] ts) := by
  induction ts with
  | nil => exact printable_ascii (by simp [List.intercalate])
  | cons t ts ih =>
    have ht := h t (by simp)
    rcases ts with _ | ⟨t', ts⟩
    · simpa [List.intercalate] using ht
    · have := ht.append ((printable_all (b := [44]) (by decide)).append (ih fun x hx => h x (by simp [hx])))
      simpa [List.intercalate, List.intersperse] using this

/-- The entries of an object, in whatever order it names them. -/
theorem entriesOfMembers_of_perm {ms : List (Bytes × Term)} {kvs : List (Term × Term)} (ho : Ordered kvs)
    (hp : (ms.map fun m => ((.binary m.1, m.2) : Term × Term)).Perm kvs) :
    (ms.map Prod.fst).Nodup ∧ entriesOfMembers ms = kvs := by
  have hnd : (ms.map Prod.fst).Nodup := by
    have hk : ((ms.map fun m => ((.binary m.1, m.2) : Term × Term)).map Prod.fst).Nodup :=
      (hp.map Prod.fst).nodup_iff.2 ho.nodup
    refine List.pairwise_map.2 ?_
    rw [List.map_map] at hk
    exact (List.pairwise_map.1 hk).imp fun hne he => hne (by simp [he])
  refine ⟨hnd, ?_⟩
  refine ((entriesOfMembers_perm hnd).trans hp).eq_of_pairwise ?_ (ordered_entriesOf _) ho
  intro a b _ _ hab hba
  exact absurd hba (keyLt_asymm hab)

/-! ## records -/

section
variable (otherString : Term → Option Bytes)

/-- What a record is written as. -/
def Written (t : Term) : Prop := ∃ b, encodeValue otherString t = some b ∧ Value strict b t ∧ Printable b

theorem encodeElements_written {xs : List Term} (h : ∀ x ∈ xs, Written otherString x) :
    ∃ ts, encodeElements otherString xs = some ts ∧ List.Forall₂ (Value strict) ts xs ∧ ∀ t ∈ ts, Printable t := by
  induction xs with
  | nil => exact ⟨[], rfl, .nil, by simp⟩
  | cons x xs ih =>
    obtain ⟨b, hb, hv, hp⟩ := h x (by simp)
    obtain ⟨ts, hts, hvs, hps⟩ := ih fun y hy => h y (by simp [hy])
    refine ⟨b :: ts, by simp [encodeElements, hb, hts], .cons hv hvs, ?_⟩
    simpa using ⟨hp, hps⟩

/-- The members of a record: their names, values and texts. -/
theorem encodeMembers_written {kvs : List (Term × Term)} (hk : ∀ e ∈ kvs, ∃ k, e.1 = .binary k ∧ validUtf8 k = true)
    (hv : ∀ e ∈ kvs, Written otherString e.2) :
    ∃ qs : List ((Bytes × Term) × Bytes), kvs = qs.map (fun q => (.binary q.1.1, q.1.2)) ∧
      encodeMembers otherString kvs = some (qs.map fun q => (q.1.1, q.2)) ∧
      ∀ q ∈ qs, WrittenMember strict q.2 q.1 ∧ Printable q.2 := by
  induction kvs with
  | nil => exact ⟨[], rfl, rfl, by simp⟩
  | cons e kvs ih =>
    obtain ⟨k, v⟩ := e
    obtain ⟨key, hkey, hval⟩ := hk (k, v) (by simp)
    obtain rfl : k = .binary key := hkey
    obtain ⟨b, hb, hv', hp⟩ := hv (.binary key, v) (by simp)
    obtain ⟨qs, rfl, hqs, hw⟩ := ih (fun y hy => hk y (by simp [hy])) fun y hy => hv y (by simp [hy])
    obtain ⟨e, cs, he, hc, rfl, hpe⟩ := encodeString_spec hval
    refine ⟨((utf8All cs, v), 34 :: (e ++ [34]) ++ 58 :: b) :: qs, rfl, ?_, ?_⟩
    · simp only at hb
      simp [encodeMembers, keyString, he, hb, hqs]
    · intro q hq
      rcases List.mem_cons.1 hq with rfl | hq
      · refine ⟨⟨e, cs, b, by simp, hc, rfl, hv'⟩, ?_⟩
        exact hpe.quoted.append ((printable_all (b := [58]) (by decide)).append hp)
      · exact hw q hq

theorem object_written {qs : List ((Bytes × Term) × Bytes)} {kvs : List (Term × Term)} (ho : Ordered kvs)
    (hkvs : kvs = qs.map fun q => (.binary q.1.1, q.1.2))
    (hw : ∀ q ∈ qs, WrittenMember strict q.2 q.1 ∧ Printable q.2) :
    Value strict (object (qs.map fun q => (q.1.1, q.2))) (.map kvs) ∧
      Printable (object (qs.map fun q => (q.1.1, q.2))) := by
  -- sorting the texts by name sorts the members with them
  obtain ⟨qs', hperm, hsort⟩ : ∃ qs' : List ((Bytes × Term) × Bytes), qs'.Perm qs ∧
      (qs.map fun q => (q.1.1, q.2)).mergeSort (fun a b => a.1 ≤ b.1) = qs'.map fun q => (q.1.1, q.2) := by
    refine ⟨qs.mergeSort fun a b => a.1.1 ≤ b.1.1, List.mergeSort_perm _ _, ?_⟩
    symm
    apply List.map_mergeSort
    exact fun _ _ _ _ => rfl
  have hw' : ∀ q ∈ qs', WrittenMember strict q.2 q.1 ∧ Printable q.2 := fun q hq => hw q (hperm.mem_iff.1 hq)
  have htexts : (qs'.map fun q => (q.1.1, q.2)).map Prod.snd = qs'.map Prod.snd := by simp
  rw [object, hsort, htexts]
  have hp : Printable (List.intercalate [44] (qs'.map Prod.snd)) := by
    apply printable_intercalate
    intro t ht
    obtain ⟨q, hq, rfl⟩ := List.mem_map.1 ht
    exact (hw' q hq).2
  refine ⟨?_, (printable_all (b := [123]) (by decide)).append (hp.append (printable_all (by decide)))⟩
  have hmembers : ((qs'.map Prod.fst).map fun m => ((.binary m.1, m.2) : Term × Term)).Perm kvs := by
    rw [hkvs, List.map_map]
    exact hperm.map _
  obtain ⟨hnd, hent⟩ := entriesOfMembers_of_perm ho hmembers
  rcases hqs : qs' with _ | ⟨q, qs''⟩
  · rw [hqs] at hmembers
    obtain rfl : kvs = [] := hmembers.symm.eq_nil
    exact .object ws_nil
  · have hall : List.Forall₂ (WrittenMember strict) (qs'.map Prod.snd) (qs'.map Prod.fst) := by
      rw [List.forall₂_map_left_iff, List.forall₂_map_right_iff, List.forall₂_same]
      exact fun q hq => (hw' q hq).1
    have hm := members_intercalate hall (by simp [hqs])
    rw [← hqs, ← hent]
    exact .members hm hnd

/-- **A record is written as a text of the standard that denotes it, on one line.** -/
theorem encodeValue_wire {n : ℕ} {t : Term} (h : Wire n t) : Written otherString t := by
  induction h with
  | true => exact ⟨utf8 "true", by simp [encodeValue, sym], .true, printable_all (by decide)⟩
  | false => exact ⟨utf8 "false", by simp [encodeValue, sym], .false, printable_all (by decide)⟩
  | nil =>
    have h1 : utf8 "nil" ≠ utf8 "true" ∧ utf8 "nil" ≠ utf8 "false" := by decide
    exact ⟨utf8 "null", by simp [encodeValue, Term.nil, sym, h1], .null, printable_all (by decide)⟩
  | int _ _ =>
    obtain ⟨h1, h2⟩ := integerToString_spec _
    exact ⟨_, rfl, .int h1, h2⟩
  | string hu _ =>
    obtain ⟨e, cs, he, hc, rfl, hp⟩ := encodeString_spec hu
    exact ⟨_, he, .string hc, hp.quoted⟩
  | @list _ xs _ _ ih =>
    obtain ⟨ts, hts, hv, hp⟩ := encodeElements_written otherString ih
    refine ⟨array ts, by rw [encodeValue, hts]; rfl, ?_,
      (printable_all (b := [91]) (by decide)).append ((printable_intercalate hp).append (printable_all (by decide)))⟩
    rcases ts with _ | ⟨t, ts⟩
    · cases hv
      exact .array ws_nil
    · exact .elements (elements_intercalate hv (by simp))
  | @map _ kvs ho _ hk _ ih =>
    obtain ⟨qs, hkvs, hqs, hw⟩ := encodeMembers_written otherString (fun e he => (hk e he).imp fun _ h => ⟨h.1, h.2.1⟩) ih
    have hstruct : kvs.any (fun e => e.1 = sym "__struct__") = false := by
      rw [← Bool.not_eq_true, List.any_eq_true]
      rintro ⟨e, he, hs⟩
      obtain ⟨k, hkey, -⟩ := hk e he
      rw [hkey] at hs
      simp [sym] at hs
    obtain ⟨h1, h2⟩ := object_written ho hkvs hw
    exact ⟨_, by rw [encodeValue, hstruct, hqs]; rfl, h1, h2⟩

/-- A record that is written and short enough. -/
theorem encode_eq_ok {record : Term} {bytes : Bytes} (h : Wire maxDepth record)
    (he : encode otherString record = .ok bytes) :
    ∃ text, bytes = text ++ [10] ∧ Value strict text record ∧ Printable text ∧ ∃ kvs, record = .map kvs := by
  obtain ⟨text, htext, hv, hp⟩ := encodeValue_wire otherString h
  unfold encode at he
  split at he
  · next kvs =>
    rw [htext] at he
    simp only at he
    split at he
    · cases he
    · cases he
      exact ⟨text, rfl, hv, hp, kvs, rfl⟩
  · cases he

/-- **What is written is read back**: one line, one newline at its end, and the decoder reads the record. -/
theorem encode_decode {record : Term} {bytes : Bytes} (h : Wire maxDepth record)
    (he : encode otherString record = .ok bytes) :
    ∃ text, bytes = text ++ [10] ∧ 10 ∉ text ∧ ∀ limit, text.length ≤ limit → decode text limit = .ok record := by
  obtain ⟨text, rfl, hv, hp, hm⟩ := encode_eq_ok otherString h he
  refine ⟨text, rfl, hp.no_newline, fun limit hl => ?_⟩
  exact decode_eq_ok.2 ⟨hl, hp.valid, hm, hv.mono strict_le_lenient, h.within⟩

/-- **The frame of a record**: one newline, its last byte; the decoder reads the record off the rest, under any
limit that admits it; and no other record has this frame. -/
theorem frame_round_trip {record : Term} {bytes : Bytes} (h : Wire maxDepth record)
    (he : encode otherString record = .ok bytes) :
    (∃ text, bytes = text ++ [10] ∧ 10 ∉ text ∧ ∀ limit, text.length ≤ limit → decode text limit = .ok record) ∧
    ∀ other, Wire maxDepth other → encode otherString other = .ok bytes → other = record := by
  obtain ⟨text, rfl, hn, hd⟩ := encode_decode otherString h he
  refine ⟨⟨text, rfl, hn, hd⟩, fun other ho heo => ?_⟩
  obtain ⟨text', heq, -, hd'⟩ := encode_decode otherString ho heo
  have ht : text = text' := List.append_cancel_right heq
  have h1 := hd text.length (Nat.le_refl _)
  have h2 := hd' text.length (by rw [ht])
  rw [← ht, h1] at h2
  exact (Except.ok.inj h2).symm

/-- `%{"a" => 1}` -/
def smallRecord : Term := .map [(.binary [97], .int 1)]

/-- `{"a":1}` and a newline. -/
def smallFrame : Bytes := [123, 34, 97, 34, 58, 49, 125, 10]

theorem wire_smallRecord : Wire maxDepth smallRecord := by
  refine .map (List.pairwise_singleton _ _) (by decide) ?_ ?_
  all_goals
    intro e he
    rw [List.mem_singleton.1 he]
  · exact ⟨[97], rfl, validUtf8_iff.2 ⟨[97], by decide, rfl⟩, by decide⟩
  · exact .int (by decide) (by decide)

theorem encode_smallRecord : encode otherString smallRecord = .ok smallFrame := by
  have hs : encodeString [97] = some [34, 97, 34] := by
    have := escape_cons (c := 97) (by decide) []
    rw [show utf8Encode 97 ++ [] = [97] by decide, escape, show escapeChar 97 = [97] by decide] at this
    rw [encodeString, this]
    rfl
  have hm : encodeMembers otherString [(.binary [97], .int 1)] = some [([97], [34, 97, 34, 58, 49])] := by
    simp [encodeMembers, keyString, hs, encodeValue, integerToString, decimal, digits]
  simp only [encode, smallRecord, encodeValue, hm]
  simp [object, sym, List.intercalate, smallFrame, outputRecordBytes]

end

/-- The frame of `%{"a" => 1}`. -/
theorem frame_round_trip_small :
    (∃ text, smallFrame = text ++ [10] ∧ 10 ∉ text ∧
      ∀ limit, text.length ≤ limit → decode text limit = .ok smallRecord) ∧
    ∀ other, Wire maxDepth other → encode (fun _ => none) other = .ok smallFrame → other = smallRecord :=
  frame_round_trip (fun _ => none) wire_smallRecord (encode_smallRecord _)

end Loopex.Protocol.Frame
