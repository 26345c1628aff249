import Loopex.Erlang.Term
import Mathlib.Data.Nat.Digits.Defs
import Mathlib.Data.Nat.Digits.Lemmas

/-!
# The external term format

`encode` is the layout of one term without the version byte, `termToBinary` what
`term_to_binary(_, [deterministic])` writes, `binaryToTerm` what `binary_to_term(_, [used])` reads
back.  The runtime fixes the order of a map's entries without saying which it is; here it is the order
of the encoded keys.

* `be`, `ofBe` — fixed-width big-endian numbers;
* `putEntry`, `entriesOf` — the entries of a map built from a list of pairs, in canonical order;
* `Plain t` — plain data, every map of which is in that order;
* `Term.atoms`, `binaryToTermSafe` — the atoms of a term, and reading without creating any;
* `fits t` — every length in a term is one that its field holds;
* `decode_encode` — a canonical term whose lengths fit reads back, whatever follows it;
* `wellFormed_decode` — what is read from any bytes has its maps in canonical order.
-/

namespace Loopex.Erlang

open Term

/-! ## big-endian numbers -/

/-- `n` in `w` bytes, most significant first. -/
def be : ℕ → ℕ → Bytes
  | 0, _ => []
  | w + 1, n => UInt8.ofNat (n / 256 ^ w) :: be w n

def ofBe (b : Bytes) : ℕ := b.foldl (fun acc x => acc * 256 + x.toNat) 0

@[simp] theorem be_length (w n : ℕ) : (be w n).length = w := by
  induction w with
  | zero => rfl
  | succ w ih => simp [be, ih]

theorem foldl_be (w n acc : ℕ) :
    (be w n).foldl (fun acc x => acc * 256 + x.toNat) acc = acc * 256 ^ w + n % 256 ^ w := by
  induction w generalizing acc with
  | zero => simp [be, Nat.mod_one]
  | succ w ih =>
    have hsplit : n % 256 ^ (w + 1) = n / 256 ^ w % 256 * 256 ^ w + n % 256 ^ w := by
      rw [Nat.pow_succ, Nat.mod_mul, Nat.mul_comm (256 ^ w), Nat.add_comm]
    simp only [be, List.foldl_cons, UInt8.toNat_ofNat', ih, hsplit]
    ring_nf

theorem ofBe_be {w n : ℕ} (h : n < 256 ^ w) : ofBe (be w n) = n := by
  simp [ofBe, foldl_be, Nat.mod_eq_of_lt h]

theorem ofBe_cons (x : UInt8) (b : Bytes) : ofBe (x :: b) = x.toNat * 256 ^ b.length + ofBe b := by
  have key : ∀ (b : Bytes) (acc : ℕ),
      b.foldl (fun acc x => acc * 256 + x.toNat) acc = acc * 256 ^ b.length + ofBe b := by
    intro b
    induction b with
    | nil => simp [ofBe]
    | cons y b ih =>
      intro acc
      have h0 := ih y.toNat
      simp only [ofBe, List.foldl_cons, Nat.zero_mul, Nat.zero_add, List.length_cons] at h0 ih ⊢
      rw [ih (acc * 256 + y.toNat), h0, Nat.pow_succ]
      ring
  simpa [ofBe] using key b x.toNat

theorem ofBe_lt (b : Bytes) : ofBe b < 256 ^ b.length := by
  induction b with
  | nil => simp [ofBe]
  | cons x b ih =>
    have hx : x.toNat < 256 := x.toNat_lt
    have hmul : (x.toNat + 1) * 256 ^ b.length ≤ 256 * 256 ^ b.length := Nat.mul_le_mul_right _ hx
    rw [ofBe_cons, List.length_cons, Nat.pow_succ]
    rw [Nat.add_mul] at hmul
    omega

theorem ofBe_inj {a b : Bytes} (hl : a.length = b.length) (h : ofBe a = ofBe b) : a = b := by
  induction a generalizing b with
  | nil => exact (List.length_eq_zero_iff.1 hl.symm).symm
  | cons x a ih =>
    obtain ⟨y, b, rfl⟩ := List.exists_cons_of_length_eq_add_one (hl.symm.trans List.length_cons)
    replace hl : a.length = b.length := by simpa using hl
    rw [ofBe_cons, ofBe_cons, hl] at h
    have ha := ofBe_lt a
    have hb := ofBe_lt b
    rw [hl] at ha
    have hdiv := congrArg (· / 256 ^ b.length) h
    have hmod := congrArg (· % 256 ^ b.length) h
    simp only [Nat.mul_add_mod_self_right, Nat.mod_eq_of_lt ha, Nat.mod_eq_of_lt hb] at hmod
    simp only [Nat.add_comm (_ * _), Nat.add_mul_div_right _ _ (Nat.pow_pos (show 0 < 256 by decide)),
      Nat.div_eq_of_lt ha, Nat.div_eq_of_lt hb, Nat.zero_add] at hdiv
    rw [ih hl hmod, UInt8.toNat_inj.1 hdiv]

/-- A number of fixed width is written back as it was read. -/
theorem be_ofBe {w : ℕ} {b : Bytes} (h : b.length = w) : be w (ofBe b) = b := by
  subst h
  exact ofBe_inj (be_length _ _) (ofBe_be (ofBe_lt b))

/-! ## integers -/

/-- The bytes of a magnitude, least significant first. -/
def magnitude (n : ℕ) : Bytes := (Nat.digits 256 n).map UInt8.ofNat

def ofMagnitude (b : Bytes) : ℕ := Nat.ofDigits 256 (b.map UInt8.toNat)

theorem ofMagnitude_magnitude (n : ℕ) : ofMagnitude (magnitude n) = n := by
  have h : ((Nat.digits 256 n).map UInt8.ofNat).map UInt8.toNat = Nat.digits 256 n := by
    rw [List.map_map]
    conv_rhs => rw [← List.map_id (Nat.digits 256 n)]
    refine List.map_congr_left fun d hd => ?_
    have : d < 256 := Nat.digits_lt_base (by decide) hd
    simp [UInt8.toNat_ofNat', Nat.mod_eq_of_lt this]
  rw [ofMagnitude, magnitude, h, Nat.ofDigits_digits]

def encodeInt (n : ℤ) : Bytes :=
  if 0 ≤ n ∧ n < 256 then [97, UInt8.ofNat n.toNat]
  else if -2 ^ 31 ≤ n ∧ n < 2 ^ 31 then 98 :: be 4 (n % 2 ^ 32).toNat
  else
    let m := magnitude n.natAbs
    let sign : UInt8 := if n < 0 then 1 else 0
    if m.length < 256 then 110 :: UInt8.ofNat m.length :: sign :: m
    else 111 :: be 4 m.length ++ sign :: m

/-! ## encoding -/

/-- The elements of a list of bytes, if `xs` is one. -/
def byteList : List Term → Option Bytes
  | [] => some []
  | .int n :: xs => if 0 ≤ n ∧ n < 256 then (byteList xs).map (UInt8.ofNat n.toNat :: ·) else none
  | _ :: _ => none

mutual
def encode : Term → Bytes
  | .atom name =>
    if name.length < 256 then 119 :: UInt8.ofNat name.length :: name
    else 118 :: be 2 name.length ++ name
  | .int n => encodeInt n
  | .float x => 70 :: be 8 x.bits
  | .binary b => 109 :: be 4 b.length ++ b
  | .bitstring b spare => 77 :: be 4 b.length ++ UInt8.ofNat spare :: b
  | .list xs =>
    if xs = [] then [106]
    else match byteList xs with
    | some b =>
      if b.length < 2 ^ 16 then 107 :: be 2 b.length ++ b
      else 108 :: be 4 xs.length ++ encodeList xs ++ [106]
    | none => 108 :: be 4 xs.length ++ encodeList xs ++ [106]
  | .improper xs t => 108 :: be 4 xs.length ++ encodeList xs ++ encode t
  | .tuple xs =>
    if xs.length < 256 then 104 :: UInt8.ofNat xs.length :: encodeList xs
    else 105 :: be 4 xs.length ++ encodeList xs
  | .map kvs => 116 :: be 4 kvs.length ++ encodeEntries kvs
  | .handle .pid id => 88 :: be 8 id
  | .handle .port id => 120 :: be 8 id
  | .handle .reference id => 90 :: be 8 id
  | .handle .function id => 112 :: be 8 id
def encodeList : List Term → Bytes
  | [] => []
  | x :: xs => encode x ++ encodeList xs
def encodeEntries : List (Term × Term) → Bytes
  | [] => []
  | (k, v) :: kvs => encode k ++ encode v ++ encodeEntries kvs
end

/-- `term_to_binary(t, [deterministic])`. -/
def termToBinary (t : Term) : Bytes := 131 :: encode t

/-- `external_size(t, [deterministic])`. -/
def externalSize (t : Term) : ℕ := (termToBinary t).length

theorem externalSize_eq (t : Term) : externalSize t = (encode t).length + 1 := rfl

/-! ## the entries of a map -/

/-- The order of two keys in a map. -/
def keyLt (k l : Term) : Prop := encode k < encode l

instance (k l : Term) : Decidable (keyLt k l) := inferInstanceAs (Decidable (_ < _))

/-- `Map.put` on entries in canonical order. -/
def putEntry (k v : Term) : List (Term × Term) → List (Term × Term)
  | [] => [(k, v)]
  | (l, w) :: kvs =>
    if keyLt k l then (k, v) :: (l, w) :: kvs
    else if keyLt l k then (l, w) :: putEntry k v kvs
    else (k, v) :: kvs

/-- `Map.new` on a list of pairs. -/
def entriesOf (kvs : List (Term × Term)) : List (Term × Term) :=
  kvs.foldl (fun acc e => putEntry e.1 e.2 acc) []

/-- The entries come in canonical order, each key once. -/
def Ordered (kvs : List (Term × Term)) : Prop := kvs.Pairwise fun a b => keyLt a.1 b.1

instance (kvs : List (Term × Term)) : Decidable (Ordered kvs) :=
  inferInstanceAs (Decidable (List.Pairwise _ _))

theorem keyLt_trans {a b c : Term} (h : keyLt a b) (h' : keyLt b c) : keyLt a c :=
  List.lt_trans h h'

theorem keyLt_asymm {a b : Term} (h : keyLt a b) : ¬ keyLt b a := List.lt_asymm h

theorem putEntry_append {kvs : List (Term × Term)} {k v : Term} (h : ∀ e ∈ kvs, keyLt e.1 k) :
    putEntry k v kvs = kvs ++ [(k, v)] := by
  induction kvs with
  | nil => rfl
  | cons e kvs ih =>
    have he := h e (by simp)
    simp [putEntry, keyLt_asymm he, he, ih fun e' he' => h e' (by simp [he'])]

/-- Entries already in order stay as they are. -/
theorem entriesOf_ordered {kvs : List (Term × Term)} (h : Ordered kvs) : entriesOf kvs = kvs := by
  suffices key : ∀ acc, Ordered (acc ++ kvs) →
      kvs.foldl (fun acc e => putEntry e.1 e.2 acc) acc = acc ++ kvs by
    simpa [entriesOf] using key [] (by simpa using h)
  clear h
  induction kvs with
  | nil => simp
  | cons e kvs ih =>
    intro acc hacc
    have happ : putEntry e.1 e.2 acc = acc ++ [e] :=
      putEntry_append fun e' he' => (List.pairwise_append.1 hacc).2.2 e' he' e (by simp)
    rw [List.foldl_cons, happ, ih _ (by simpa using hacc)]
    simp

theorem mem_putEntry {kvs : List (Term × Term)} {k v : Term} {e : Term × Term}
    (h : e ∈ putEntry k v kvs) : e = (k, v) ∨ e ∈ kvs := by
  induction kvs with
  | nil => simpa [putEntry] using h
  | cons e' kvs ih =>
    simp only [putEntry] at h
    split at h
    · simpa using h
    · split at h
      · rcases List.mem_cons.1 h with rfl | h
        · simp
        · rcases ih h with rfl | h <;> simp_all
      · rcases List.mem_cons.1 h with rfl | h <;> simp_all

theorem ordered_putEntry {kvs : List (Term × Term)} (h : Ordered kvs) (k v : Term) :
    Ordered (putEntry k v kvs) := by
  induction kvs with
  | nil => simp [putEntry, Ordered]
  | cons e kvs ih =>
    obtain ⟨l, w⟩ := e
    obtain ⟨hl, hk⟩ := List.pairwise_cons.1 h
    simp only [putEntry]
    split
    · next hkl =>
      refine List.pairwise_cons.2 ⟨fun e he => ?_, h⟩
      rcases List.mem_cons.1 he with rfl | he
      · exact hkl
      · exact keyLt_trans hkl (hl e he)
    · next hkl =>
      split
      · next hlk =>
        refine List.pairwise_cons.2 ⟨fun e he => ?_, ih hk⟩
        rcases mem_putEntry he with rfl | he
        · exact hlk
        · exact hl e he
      · next hlk =>
        -- the two keys have the same encoding
        have heq : encode k = encode l := List.le_antisymm hlk hkl
        refine List.pairwise_cons.2 ⟨fun e he => ?_, hk⟩
        simpa only [keyLt, heq] using hl e he

theorem ordered_foldl_putEntry (kvs acc : List (Term × Term)) (h : Ordered acc) :
    Ordered (kvs.foldl (fun acc e => putEntry e.1 e.2 acc) acc) := by
  induction kvs generalizing acc with
  | nil => exact h
  | cons e kvs ih => exact ih _ (ordered_putEntry h e.1 e.2)

theorem ordered_entriesOf (kvs : List (Term × Term)) : Ordered (entriesOf kvs) :=
  ordered_foldl_putEntry kvs [] .nil

theorem perm_putEntry {kvs : List (Term × Term)} {k v : Term}
    (h : ∀ e ∈ kvs, encode e.1 ≠ encode k) : (putEntry k v kvs).Perm ((k, v) :: kvs) := by
  induction kvs with
  | nil => exact .refl _
  | cons e kvs ih =>
    obtain ⟨l, w⟩ := e
    simp only [putEntry]
    split
    · exact .refl _
    · next hkl =>
      split
      · exact ((ih fun e he => h e (by simp [he])).cons _).trans (.swap _ _ _)
      · next hlk => exact absurd (List.le_antisymm hkl hlk) (h (l, w) (by simp))

/-- Keys that differ in their encoding keep all their entries. -/
theorem perm_entriesOf {kvs : List (Term × Term)}
    (h : kvs.Pairwise fun a b => encode a.1 ≠ encode b.1) : (entriesOf kvs).Perm kvs := by
  suffices key : ∀ acc : List (Term × Term), (∀ a ∈ acc, ∀ e ∈ kvs, encode a.1 ≠ encode e.1) →
      (kvs.foldl (fun acc e => putEntry e.1 e.2 acc) acc).Perm (kvs ++ acc) by
    simpa [entriesOf] using key [] (by simp)
  induction kvs with
  | nil => intro acc _; exact .refl _
  | cons e kvs ih =>
    intro acc hacc
    obtain ⟨he, hk⟩ := List.pairwise_cons.1 h
    have hput := perm_putEntry (v := e.2) fun a ha => hacc a ha e (by simp)
    refine (ih hk _ fun a ha e' he' => ?_).trans ?_
    · rcases List.mem_cons.1 (hput.mem_iff.1 ha) with rfl | ha
      · exact he e' he'
      · exact hacc a ha e' (by simp [he'])
    · exact (hput.append_left kvs).trans List.perm_middle

/-- Putting an entry that is there changes nothing. -/
theorem putEntry_of_mem {kvs : List (Term × Term)} (h : Ordered kvs) {k v : Term} (hm : (k, v) ∈ kvs) :
    putEntry k v kvs = kvs := by
  induction kvs with
  | nil => simp at hm
  | cons e kvs ih =>
    obtain ⟨hl, hk⟩ := List.pairwise_cons.1 h
    rcases List.mem_cons.1 hm with rfl | hm
    · have hirr : ¬ keyLt k k := List.lt_irrefl _
      simp [putEntry, hirr]
    · have hlt := hl (k, v) hm
      simp [putEntry, hlt, keyLt_asymm hlt, ih hk hm]

theorem Ordered.eq_of_perm {xs ys : List (Term × Term)} (hx : Ordered xs) (hy : Ordered ys)
    (h : xs.Perm ys) : xs = ys :=
  h.eq_of_pairwise (fun _ _ _ _ hab hba => absurd hba (keyLt_asymm hab)) hx hy

theorem Ordered.nodup {kvs : List (Term × Term)} (h : Ordered kvs) : (kvs.map Prod.fst).Nodup := by
  refine List.pairwise_map.2 (h.imp fun hlt heq => ?_)
  rw [keyLt, heq] at hlt
  exact List.lt_irrefl _ hlt

theorem encode_binary_inj {a b : Bytes} : encode (.binary a) = encode (.binary b) ↔ a = b := by
  refine ⟨fun h => ?_, fun h => h ▸ rfl⟩
  simp only [encode, List.cons_append, List.cons.injEq, true_and] at h
  exact (List.append_inj h (by simp)).2

/-! ## decoding -/

/-- The first `n` bytes and the rest. -/
def takeBytes (n : ℕ) (b : Bytes) : Option (Bytes × Bytes) :=
  if n ≤ b.length then some (b.take n, b.drop n) else none

def readNat (w : ℕ) (b : Bytes) : Option (ℕ × Bytes) :=
  (takeBytes w b).map fun p => (ofBe p.1, p.2)

/-- The sign and the `n` bytes of magnitude of a large integer. -/
def readBig (n : ℕ) (b : Bytes) : Option (Term × Bytes) := do
  let (sign, b) ← readNat 1 b
  let (m, b) ← takeBytes n b
  some (.int (if sign = 0 then ofMagnitude m else -(ofMagnitude m : ℤ)), b)

def readAtom (n : ℕ) (b : Bytes) : Option (Term × Bytes) :=
  (takeBytes n b).map fun p => (.atom p.1, p.2)

/-- `n` terms in a row. -/
def decodeMany (d : Bytes → Option (Term × Bytes)) : ℕ → Bytes → Option (List Term × Bytes)
  | 0, b => some ([], b)
  | n + 1, b => do
    let (x, b) ← d b
    let (xs, b) ← decodeMany d n b
    some (x :: xs, b)

/-- `n` entries in a row. -/
def decodePairs (d : Bytes → Option (Term × Bytes)) : ℕ → Bytes → Option (List (Term × Term) × Bytes)
  | 0, b => some ([], b)
  | n + 1, b => do
    let (k, b) ← d b
    let (v, b) ← d b
    let (kvs, b) ← decodePairs d n b
    some ((k, v) :: kvs, b)

/-- One term from the front of `b`, reading at most `fuel` levels deep. -/
def decode : ℕ → Bytes → Option (Term × Bytes)
  | 0, _ => none
  | _ + 1, [] => none
  | fuel + 1, tag :: b =>
    match tag.toNat with
    | 97 => do
      let (n, b) ← readNat 1 b
      some (.int n, b)
    | 98 => do
      let (n, b) ← readNat 4 b
      some (.int (if n < 2 ^ 31 then n else n - 2 ^ 32), b)
    | 110 => do
      let (n, b) ← readNat 1 b
      readBig n b
    | 111 => do
      let (n, b) ← readNat 4 b
      readBig n b
    | 70 => do
      let (n, b) ← readNat 8 b
      if h : n < 2 ^ 64 ∧ n / 2 ^ 52 % 2 ^ 11 ≠ 2047 then some (.float ⟨n, h.1, h.2⟩, b) else none
    | 119 => do
      let (n, b) ← readNat 1 b
      readAtom n b
    | 118 => do
      let (n, b) ← readNat 2 b
      readAtom n b
    | 109 => do
      let (n, b) ← readNat 4 b
      let (x, b) ← takeBytes n b
      some (.binary x, b)
    | 77 => do
      let (n, b) ← readNat 4 b
      let (spare, b) ← readNat 1 b
      let (x, b) ← takeBytes n b
      some (.bitstring x spare, b)
    | 106 => some (.list [], b)
    | 107 => do
      let (n, b) ← readNat 2 b
      let (x, b) ← takeBytes n b
      some (.list (x.map fun c => .int c.toNat), b)
    | 108 => do
      let (n, b) ← readNat 4 b
      let (xs, b) ← decodeMany (decode fuel) n b
      let (tail, b) ← decode fuel b
      match tail with
      | .list ys => some (.list (xs ++ ys), b)
      | .improper ys t => some (.improper (xs ++ ys) t, b)
      | t => some (.improper xs t, b)
    | 104 => do
      let (n, b) ← readNat 1 b
      let (xs, b) ← decodeMany (decode fuel) n b
      some (.tuple xs, b)
    | 105 => do
      let (n, b) ← readNat 4 b
      let (xs, b) ← decodeMany (decode fuel) n b
      some (.tuple xs, b)
    | 116 => do
      let (n, b) ← readNat 4 b
      let (kvs, b) ← decodePairs (decode fuel) n b
      -- a repeated key is refused
      if (entriesOf kvs).length = kvs.length then some (.map (entriesOf kvs), b) else none
    | _ => none

/-- `binary_to_term(b, [used])`: the term and the number of bytes it took. -/
def binaryToTerm (b : Bytes) : Option (Term × ℕ) :=
  match b with
  | 131 :: r => (decode r.length r).map fun p => (p.1, b.length - p.2.length)
  | _ => none

mutual
/-- The names of the atoms of a term. -/
def Term.atoms : Term → List Bytes
  | .atom name => [name]
  | .list xs => Term.atomsList xs
  | .improper xs t => Term.atomsList xs ++ Term.atoms t
  | .tuple xs => Term.atomsList xs
  | .map kvs => Term.atomsEntries kvs
  | _ => []
def Term.atomsList : List Term → List Bytes
  | [] => []
  | x :: xs => Term.atoms x ++ Term.atomsList xs
def Term.atomsEntries : List (Term × Term) → List Bytes
  | [] => []
  | (k, v) :: kvs => Term.atoms k ++ Term.atoms v ++ Term.atomsEntries kvs
end

/-- `binary_to_term(b, [safe, used])`, where the runtime knows some atoms and creates none. -/
def binaryToTermSafe (known : Bytes → Bool) (b : Bytes) : Option (Term × ℕ) :=
  (binaryToTerm b).filter fun p => p.1.atoms.all known

@[simp] theorem Term.mem_atoms_list {a : Bytes} {xs : List Term} :
    a ∈ (Term.list xs).atoms ↔ ∃ x ∈ xs, a ∈ x.atoms := by
  rw [Term.atoms]
  induction xs with
  | nil => simp [Term.atomsList]
  | cons x xs ih => simp [Term.atomsList, ih]

@[simp] theorem Term.mem_atoms_tuple {a : Bytes} {xs : List Term} :
    a ∈ (Term.tuple xs).atoms ↔ ∃ x ∈ xs, a ∈ x.atoms :=
  Term.mem_atoms_list

@[simp] theorem Term.mem_atoms_map {a : Bytes} {kvs : List (Term × Term)} :
    a ∈ (Term.map kvs).atoms ↔ ∃ e ∈ kvs, a ∈ e.1.atoms ∨ a ∈ e.2.atoms := by
  rw [Term.atoms]
  induction kvs with
  | nil => simp [Term.atomsEntries]
  | cons e kvs ih =>
    rw [Term.atomsEntries, List.mem_append, List.mem_append, ih]
    simp

/-! ## the round trip -/

/-- Plain data in canonical form: no handle, bit string or improper list, and every map in order. -/
inductive Plain : Term → Prop
  | atom {name} : name.length < 2 ^ 16 → Plain (.atom name)
  | int {n} : Plain (.int n)
  | float {x} : Plain (.float x)
  | binary {b} : Plain (.binary b)
  | list {xs} : (∀ x ∈ xs, Plain x) → Plain (.list xs)
  | tuple {xs} : (∀ x ∈ xs, Plain x) → Plain (.tuple xs)
  | map {kvs : List (Term × Term)} : Ordered kvs → (∀ e ∈ kvs, Plain e.1) → (∀ e ∈ kvs, Plain e.2) →
      Plain (.map kvs)

/-- A property that plain data has as soon as its atoms have it. -/
structure Inherited (P : Term → Prop) : Prop where
  int : ∀ n, P (.int n)
  float : ∀ x, P (.float x)
  binary : ∀ b, P (.binary b)
  list : ∀ {xs}, (∀ x ∈ xs, P x) → P (.list xs)
  tuple : ∀ {xs}, (∀ x ∈ xs, P x) → P (.tuple xs)
  map : ∀ {kvs}, Ordered kvs → (∀ e ∈ kvs, P e.1) → (∀ e ∈ kvs, P e.2) → P (.map kvs)

theorem Plain.inherited : Inherited Plain where
  int _ := .int
  float _ := .float
  binary _ := .binary
  list := .list
  tuple := .tuple
  map := .map

@[simp] theorem takeBytes_append (a b : Bytes) : takeBytes a.length (a ++ b) = some (a, b) := by
  simp [takeBytes]

theorem readNat_be {w n : ℕ} (h : n < 256 ^ w) (b : Bytes) : readNat w (be w n ++ b) = some (n, b) := by
  have := takeBytes_append (be w n) b
  rw [be_length] at this
  simp [readNat, this, ofBe_be h]

theorem readNat_one {n : ℕ} (h : n < 256) (b : Bytes) :
    readNat 1 (UInt8.ofNat n :: b) = some (n, b) := by
  have := readNat_be (w := 1) (n := n) (by omega) b
  simpa [be] using this

theorem encode_pos (t : Term) : 0 < (encode t).length := by
  cases t with
  | atom name => simp only [encode]; split <;> simp
  | int n => simp only [encode, encodeInt]; (repeat' split) <;> simp
  | list xs => simp only [encode]; (repeat' split) <;> simp
  | tuple xs => simp only [encode]; split <;> simp
  | handle k n => cases k <;> simp [encode]
  | _ => simp [encode]

@[simp] theorem encode_binary_length (b : Bytes) : (encode (.binary b)).length = b.length + 5 := by
  simp only [encode, List.length_cons, List.length_append, be_length]
  omega

/-- The length of a 64-bit counter. -/
theorem encode_int_length {n : ℕ} (h : n < 2 ^ 64) : (encode (.int n)).length ≤ 11 := by
  have hm : (magnitude n).length ≤ 8 := by
    rw [magnitude, List.length_map]
    exact (Nat.digits_length_le_iff (by decide) n).2 (by omega)
  have hm' : (magnitude (n : ℤ).natAbs).length < 256 := by
    rw [Int.natAbs_natCast]
    omega
  simp only [encode, encodeInt]
  split
  · simp
  · split
    · simp
    · next h1 h2 =>
      simp only [List.length_cons, Int.natAbs_natCast]
      omega

theorem encodeList_length (xs : List Term) :
    (encodeList xs).length = (xs.map fun x => (encode x).length).sum := by
  induction xs with
  | nil => rfl
  | cons x xs ih => simp [encodeList, ih]

theorem length_le_encodeList (xs : List Term) : xs.length ≤ (encodeList xs).length := by
  induction xs with
  | nil => simp
  | cons x xs ih =>
    have := encode_pos x
    simp only [encodeList, List.length_cons, List.length_append]
    omega

theorem length_le_encodeEntries (kvs : List (Term × Term)) :
    kvs.length ≤ (encodeEntries kvs).length := by
  induction kvs with
  | nil => simp
  | cons e kvs ih =>
    have := encode_pos e.1
    simp only [encodeEntries, List.length_cons, List.length_append]
    omega

theorem encode_le_encodeList {xs : List Term} {x : Term} (h : x ∈ xs) :
    (encode x).length ≤ (encodeList xs).length := by
  induction xs with
  | nil => simp at h
  | cons y xs ih =>
    simp only [encodeList, List.length_append]
    rcases List.mem_cons.1 h with rfl | h
    · omega
    · have := ih h
      omega

theorem encode_le_encodeEntries {kvs : List (Term × Term)} {e : Term × Term} (h : e ∈ kvs) :
    (encode e.1).length + (encode e.2).length ≤ (encodeEntries kvs).length := by
  induction kvs with
  | nil => simp at h
  | cons e' kvs ih =>
    simp only [encodeEntries, List.length_append]
    rcases List.mem_cons.1 h with rfl | h
    · omega
    · have := ih h
      omega

theorem byteList_eq {xs : List Term} {b : Bytes} (h : byteList xs = some b) :
    xs = b.map fun c => .int c.toNat := by
  induction xs generalizing b with
  | nil => simp_all [byteList]
  | cons x xs ih =>
    cases x with
    | int n =>
      simp only [byteList] at h
      split at h
      · next hn =>
        obtain ⟨b', hb', rfl⟩ := Option.map_eq_some_iff.1 h
        have h0 : (UInt8.ofNat n.toNat).toNat = n.toNat := by
          rw [UInt8.toNat_ofNat', Nat.mod_eq_of_lt (by omega)]
        simp only [List.map_cons, ← ih hb', List.cons.injEq, Term.int.injEq, and_true, h0]
        omega
      · cases h
    | _ => simp [byteList] at h

theorem decodeMany_encodeList {d : Bytes → Option (Term × Bytes)} (xs : List Term)
    (h : ∀ x ∈ xs, ∀ r, d (encode x ++ r) = some (x, r)) (r : Bytes) :
    decodeMany d xs.length (encodeList xs ++ r) = some (xs, r) := by
  induction xs with
  | nil => rfl
  | cons x xs ih =>
    have hx := h x (by simp) (encodeList xs ++ r)
    have ih := ih fun y hy => h y (by simp [hy])
    simp [decodeMany, encodeList, List.append_assoc, hx, ih]

theorem decodePairs_encodeEntries {d : Bytes → Option (Term × Bytes)} (kvs : List (Term × Term))
    (h : ∀ e ∈ kvs, (∀ r, d (encode e.1 ++ r) = some (e.1, r)) ∧ ∀ r, d (encode e.2 ++ r) = some (e.2, r))
    (r : Bytes) : decodePairs d kvs.length (encodeEntries kvs ++ r) = some (kvs, r) := by
  induction kvs with
  | nil => rfl
  | cons e kvs ih =>
    obtain ⟨k, v⟩ := e
    obtain ⟨hk, hv⟩ := h (k, v) (by simp)
    have hk := hk (encode v ++ (encodeEntries kvs ++ r))
    have hv := hv (encodeEntries kvs ++ r)
    have ih := ih fun y hy => h y (by simp [hy])
    simp_all [decodePairs, encodeEntries, List.append_assoc]

theorem readBig_magnitude (n : ℤ) (r : Bytes) :
    readBig (magnitude n.natAbs).length ((if n < 0 then 1 else 0) :: (magnitude n.natAbs ++ r)) =
      some (.int n, r) := by
  have h1 := readNat_one (n := if n < 0 then 1 else 0) (by split <;> omega) (magnitude n.natAbs ++ r)
  have h2 : UInt8.ofNat (if n < 0 then 1 else 0) = if n < 0 then 1 else 0 := by split <;> rfl
  rw [h2] at h1
  simp only [readBig, h1, takeBytes_append, ofMagnitude_magnitude, Option.bind_eq_bind,
    Option.bind_some, Option.some.injEq, Prod.mk.injEq, Term.int.injEq, and_true]
  split <;> omega

theorem decode_encodeInt (n : ℤ) (fuel : ℕ) (r : Bytes) (h : (magnitude n.natAbs).length < 2 ^ 32) :
    decode (fuel + 1) (encodeInt n ++ r) = some (.int n, r) := by
  unfold encodeInt
  by_cases h1 : 0 ≤ n ∧ n < 256
  · have := readNat_one (n := n.toNat) (by omega) r
    simp only [h1, and_self, if_true, List.cons_append, List.nil_append, decode]
    simp only [this, UInt8.reduceToNat, Option.bind_eq_bind, Option.bind_some, Option.some.injEq,
      Prod.mk.injEq, Term.int.injEq, and_true]
    omega
  by_cases h2 : -2 ^ 31 ≤ n ∧ n < 2 ^ 31
  · have := readNat_be (w := 4) (n := (n % 2 ^ 32).toNat) (by omega) r
    simp only [h1, if_false, h2, and_self, if_true, List.cons_append, decode]
    simp only [this, UInt8.reduceToNat, Option.bind_eq_bind, Option.bind_some, Option.some.injEq,
      Prod.mk.injEq, Term.int.injEq, and_true]
    split <;> omega
  simp only [h1, h2, if_false]
  by_cases h3 : (magnitude n.natAbs).length < 256
  · have := readNat_one h3 ((if n < 0 then 1 else 0) :: (magnitude n.natAbs ++ r))
    simp only [h3, if_true, List.cons_append, decode, UInt8.reduceToNat, this, Option.bind_eq_bind,
      Option.bind_some, readBig_magnitude]
  · have := readNat_be (w := 4) (n := (magnitude n.natAbs).length) (by omega)
      ((if n < 0 then 1 else 0) :: (magnitude n.natAbs ++ r))
    simp only [h3, if_false, List.cons_append, List.append_assoc, decode, UInt8.reduceToNat, this,
      Option.bind_eq_bind, Option.bind_some, readBig_magnitude]

/-! ## lengths -/

mutual
/-- Every length in a term is one its field holds; `term_to_binary` raises on the others. -/
def fits : Term → Bool
  | .atom name => name.length < 2 ^ 16
  | .int n => (magnitude n.natAbs).length < 2 ^ 32
  | .float _ => true
  | .binary b => b.length < 2 ^ 32
  | .bitstring b _ => b.length < 2 ^ 32
  | .list xs => xs.length < 2 ^ 32 && fitsList xs
  | .improper xs t => xs.length < 2 ^ 32 && fitsList xs && fits t
  | .tuple xs => xs.length < 2 ^ 32 && fitsList xs
  | .map kvs => kvs.length < 2 ^ 32 && fitsEntries kvs
  | .handle _ _ => true
def fitsList : List Term → Bool
  | [] => true
  | x :: xs => fits x && fitsList xs
def fitsEntries : List (Term × Term) → Bool
  | [] => true
  | (k, v) :: kvs => fits k && fits v && fitsEntries kvs
end

theorem fits_atom_eq (name : Bytes) : fits (.atom name) = decide (name.length < 2 ^ 16) := rfl

theorem fits_int_eq (n : ℤ) : fits (.int n) = decide ((magnitude n.natAbs).length < 2 ^ 32) := rfl

theorem fits_float_eq (x : Double) : fits (.float x) = true := rfl

theorem fits_binary_eq (b : Bytes) : fits (.binary b) = decide (b.length < 2 ^ 32) := rfl

theorem fits_list_eq (xs : List Term) : fits (.list xs) = (decide (xs.length < 2 ^ 32) && fitsList xs) := rfl

theorem fits_tuple_eq (xs : List Term) : fits (.tuple xs) = (decide (xs.length < 2 ^ 32) && fitsList xs) := rfl

theorem fits_map_eq (kvs : List (Term × Term)) :
    fits (.map kvs) = (decide (kvs.length < 2 ^ 32) && fitsEntries kvs) := rfl

theorem fitsList_nil : fitsList [] = true := rfl

theorem fitsList_cons (x : Term) (xs : List Term) : fitsList (x :: xs) = (fits x && fitsList xs) := rfl

theorem fitsEntries_nil : fitsEntries [] = true := rfl

theorem fitsEntries_cons (k v : Term) (kvs : List (Term × Term)) :
    fitsEntries ((k, v) :: kvs) = (fits k && fits v && fitsEntries kvs) := rfl

theorem fitsList_iff {xs : List Term} : fitsList xs = true ↔ ∀ x ∈ xs, fits x = true := by
  induction xs with
  | nil => simp [fitsList_nil]
  | cons x xs ih => simp [fitsList_cons, ih]

theorem fitsEntries_iff {kvs : List (Term × Term)} :
    fitsEntries kvs = true ↔ ∀ e ∈ kvs, fits e.1 = true ∧ fits e.2 = true := by
  induction kvs with
  | nil => simp [fitsEntries_nil]
  | cons e kvs ih =>
    obtain ⟨k, v⟩ := e
    simp [fitsEntries_cons, ih, and_assoc]

@[simp] theorem fits_list {xs : List Term} :
    fits (.list xs) = true ↔ xs.length < 2 ^ 32 ∧ ∀ x ∈ xs, fits x = true := by
  simp [fits_list_eq, fitsList_iff]

@[simp] theorem fits_tuple {xs : List Term} :
    fits (.tuple xs) = true ↔ xs.length < 2 ^ 32 ∧ ∀ x ∈ xs, fits x = true := by
  simp [fits_tuple_eq, fitsList_iff]

@[simp] theorem fits_map {kvs : List (Term × Term)} :
    fits (.map kvs) = true ↔ kvs.length < 2 ^ 32 ∧ ∀ e ∈ kvs, fits e.1 = true ∧ fits e.2 = true := by
  simp [fits_map_eq, fitsEntries_iff]

/-- The elements of a list that is encoded as a string. -/
theorem fits_of_byteList {xs : List Term} {b : Bytes} (h : byteList xs = some b) : ∀ x ∈ xs, fits x = true := by
  rw [byteList_eq h]
  intro x hx
  obtain ⟨c, -, rfl⟩ := List.mem_map.1 hx
  have hc : c.toNat < 256 := c.toNat_lt
  have hl : (Nat.digits 256 c.toNat).length ≤ 1 := (Nat.digits_length_le_iff (by decide) _).2 (by omega)
  simp only [fits_int_eq, magnitude, List.length_map, decide_eq_true_eq, Int.natAbs_natCast]
  omega

/-- A plain term that is short enough as a whole. -/
theorem fits_of_length {t : Term} (ht : Plain t) : (encode t).length < 2 ^ 32 → fits t = true := by
  induction t using Term.ind with
  | int n =>
    intro hs
    simp only [fits_int_eq, decide_eq_true_eq]
    by_cases hn : n.natAbs < 256 ^ 4
    · have hl : (Nat.digits 256 n.natAbs).length ≤ 4 := (Nat.digits_length_le_iff (by decide) _).2 hn
      rw [magnitude, List.length_map]
      omega
    · simp only [encode, encodeInt, if_neg (show ¬ (0 ≤ n ∧ n < 256) by omega),
        if_neg (show ¬ (-2 ^ 31 ≤ n ∧ n < 2 ^ 31) by omega)] at hs
      split at hs
      · omega
      · simp only [List.length_append, List.length_cons] at hs
        omega
  | atom name =>
    intro _
    cases ht with
    | atom hn => simpa [fits_atom_eq] using hn
  | float x => exact fun _ => fits_float_eq x
  | binary b =>
    intro hs
    simp only [encode, List.length_append, List.length_cons, be_length] at hs
    simp only [fits_binary_eq, decide_eq_true_eq]
    omega
  | list xs ih =>
    intro hs
    cases ht with
    | list hx =>
    have hlong : encode (.list xs) = 108 :: be 4 xs.length ++ encodeList xs ++ [106] → fits (.list xs) = true := by
      intro he
      rw [he] at hs
      simp only [List.length_append, List.length_cons, be_length, List.length_nil] at hs
      have hl := length_le_encodeList xs
      refine fits_list.2 ⟨by omega, fun x hm => ih x hm (hx x hm) ?_⟩
      have := encode_le_encodeList hm
      omega
    by_cases h0 : xs = []
    · subst h0
      simp
    cases hb : byteList xs with
    | none => exact hlong (by simp [encode, h0, hb])
    | some b =>
      by_cases hbl : b.length < 2 ^ 16
      · refine fits_list.2 ⟨?_, fits_of_byteList hb⟩
        rw [byteList_eq hb, List.length_map]
        omega
      · exact hlong (by simp only [encode, h0, if_false, hb, if_neg hbl])
  | tuple xs ih =>
    intro hs
    cases ht with
    | tuple hx =>
    have hl := length_le_encodeList xs
    have hin : (encodeList xs).length < (encode (.tuple xs)).length := by
      simp only [encode]; split <;> simp
    refine fits_tuple.2 ⟨by omega, fun x hm => ih x hm (hx x hm) ?_⟩
    have := encode_le_encodeList hm
    omega
  | map kvs ih =>
    intro hs
    cases ht with
    | map ho hk hv =>
    simp only [encode, List.length_append, List.length_cons, be_length] at hs
    have hl := length_le_encodeEntries kvs
    refine fits_map.2 ⟨by omega, fun e hm => ?_⟩
    have hle := encode_le_encodeEntries hm
    exact ⟨(ih e hm).1 (hk e hm) (by omega), (ih e hm).2 (hv e hm) (by omega)⟩
  | bitstring b n => cases ht
  | improper xs t _ _ => cases ht
  | handle k n => cases ht

/-- **A plain term reads back**, whatever bytes follow it. -/
theorem decode_encode {t : Term} (ht : Plain t) :
    ∀ (fuel : ℕ) (r : Bytes), (encode t).length ≤ fuel → fits t = true →
      decode fuel (encode t ++ r) = some (t, r) := by
  induction t using Term.ind with
  | int n =>
    intro fuel r hf hs
    obtain ⟨fuel, rfl⟩ : ∃ f, fuel = f + 1 := ⟨fuel - 1, by have := encode_pos (.int n); omega⟩
    exact decode_encodeInt n fuel r (by simpa [fits_int_eq] using hs)
  | atom name =>
    intro fuel r hf hs
    cases ht with
    | atom hn =>
    obtain ⟨fuel, rfl⟩ : ∃ f, fuel = f + 1 := ⟨fuel - 1, by have := encode_pos (.atom name); omega⟩
    by_cases h : name.length < 256
    · have := readNat_one h (name ++ r)
      simp [encode, h, decode, readAtom, this]
    · have := readNat_be (w := 2) (n := name.length) (by omega) (name ++ r)
      simp [encode, h, decode, readAtom, this]
  | float x =>
    intro fuel r hf hs
    obtain ⟨fuel, rfl⟩ : ∃ f, fuel = f + 1 := ⟨fuel - 1, by have := encode_pos (.float x); omega⟩
    have := readNat_be (w := 8) (n := x.bits) (by have := x.lt; omega) r
    have hx : x.bits < 2 ^ 64 ∧ x.bits / 2 ^ 52 % 2 ^ 11 ≠ 2047 := ⟨x.lt, x.finite⟩
    simp only [encode, List.cons_append, decode, UInt8.reduceToNat, this, Option.bind_eq_bind,
      Option.bind_some, dif_pos hx]
  | binary b =>
    intro fuel r hf hs
    obtain ⟨fuel, rfl⟩ : ∃ f, fuel = f + 1 := ⟨fuel - 1, by have := encode_pos (.binary b); omega⟩
    have := readNat_be (w := 4) (n := b.length) (by simpa [fits_binary_eq] using hs) (b ++ r)
    simp [encode, decode, this]
  | list xs ih =>
    intro fuel r hf hs
    cases ht with
    | list hx =>
    obtain ⟨fuel, rfl⟩ : ∃ f, fuel = f + 1 := ⟨fuel - 1, by have := encode_pos (.list xs); omega⟩
    by_cases h0 : xs = []
    · subst h0
      simp [encode, decode]
    have hlong : encode (.list xs) = 108 :: be 4 xs.length ++ encodeList xs ++ [106] →
        decode (fuel + 1) (encode (.list xs) ++ r) = some (.list xs, r) := by
      intro he
      have hl := length_le_encodeList xs
      rw [he] at hf ⊢
      simp only [List.length_append, List.length_cons, be_length, List.length_nil] at hf
      obtain ⟨hxs, hfit⟩ := fits_list.1 hs
      have h1 := readNat_be (w := 4) (n := xs.length) (by omega) (encodeList xs ++ (106 :: r))
      have h2 := decodeMany_encodeList (d := decode fuel) xs
        (fun x hm r => ih x hm (hx x hm) fuel r (by have := encode_le_encodeList hm; omega) (hfit x hm)) (106 :: r)
      obtain ⟨f', rfl⟩ : ∃ f', fuel = f' + 1 := ⟨fuel - 1, by omega⟩
      simp [decode, h1, h2]
    cases hb : byteList xs with
    | none => exact hlong (by simp [encode, h0, hb])
    | some b =>
      by_cases hbl : b.length < 2 ^ 16
      · have := readNat_be (w := 2) (n := b.length) (by omega) (b ++ r)
        have hxs := byteList_eq hb
        simp only [encode, h0, if_false, hb, if_pos hbl, List.cons_append, List.append_assoc, decode,
          UInt8.reduceToNat, this, Option.bind_eq_bind, Option.bind_some, takeBytes_append, ← hxs]
      · exact hlong (by simp only [encode, h0, if_false, hb, if_neg hbl])
  | tuple xs ih =>
    intro fuel r hf hs
    cases ht with
    | tuple hx =>
    obtain ⟨fuel, rfl⟩ : ∃ f, fuel = f + 1 := ⟨fuel - 1, by have := encode_pos (.tuple xs); omega⟩
    have hl := length_le_encodeList xs
    have hin : (encodeList xs).length < (encode (.tuple xs)).length := by
      simp only [encode]; split <;> simp
    obtain ⟨hxs, hfit⟩ := fits_tuple.1 hs
    have h2 := decodeMany_encodeList (d := decode fuel) xs
      (fun x hm r => ih x hm (hx x hm) fuel r (by have := encode_le_encodeList hm; omega) (hfit x hm)) r
    by_cases h : xs.length < 256
    · have h1 := readNat_one h (encodeList xs ++ r)
      simp [encode, h, decode, h1, h2]
    · have h1 := readNat_be (w := 4) (n := xs.length) (by omega) (encodeList xs ++ r)
      simp [encode, h, decode, h1, h2]
  | map kvs ih =>
    intro fuel r hf hs
    cases ht with
    | map ho hk hv =>
    obtain ⟨fuel, rfl⟩ : ∃ f, fuel = f + 1 := ⟨fuel - 1, by have := encode_pos (.map kvs); omega⟩
    simp only [encode, List.length_append, List.length_cons, be_length] at hf
    obtain ⟨hkvs, hfit⟩ := fits_map.1 hs
    have hl := length_le_encodeEntries kvs
    have h1 := readNat_be (w := 4) (n := kvs.length) (by omega) (encodeEntries kvs ++ r)
    have h2 := decodePairs_encodeEntries (d := decode fuel) kvs (fun e hm =>
      have hle := encode_le_encodeEntries hm
      ⟨fun r => (ih e hm).1 (hk e hm) fuel r (by omega) (hfit e hm).1,
        fun r => (ih e hm).2 (hv e hm) fuel r (by omega) (hfit e hm).2⟩) r
    simp [encode, decode, h1, h2, entriesOf_ordered ho]
  | bitstring b n => cases ht
  | improper xs t _ _ => cases ht
  | handle k n => cases ht

theorem binaryToTerm_termToBinary {t : Term} (ht : Plain t) (hs : (termToBinary t).length < 2 ^ 32) :
    binaryToTerm (termToBinary t) = some (t, (termToBinary t).length) := by
  simp only [termToBinary, List.length_cons] at hs
  have := decode_encode ht (encode t).length [] le_rfl (fits_of_length ht (by omega))
  rw [List.append_nil] at this
  simp [binaryToTerm, termToBinary, this]

/-- **The format is injective** on plain terms. -/
theorem termToBinary_inj {s t : Term} (hs : Plain s) (ht : Plain t)
    (hl : (termToBinary s).length < 2 ^ 32) (h : termToBinary s = termToBinary t) : s = t := by
  have h1 := binaryToTerm_termToBinary hs hl
  have h2 := binaryToTerm_termToBinary ht (h ▸ hl)
  rw [h, h2] at h1
  simpa using h1.symm

/-- **The format is injective** on plain terms whose lengths fit. -/
theorem termToBinary_inj_of_fits {s t : Term} (hs : Plain s) (ht : Plain t) (fs : fits s = true) (ft : fits t = true)
    (h : termToBinary s = termToBinary t) : s = t := by
  have he : encode s = encode t := List.cons_inj_right 131 |>.1 h
  have h1 := decode_encode hs (encode s).length [] le_rfl fs
  have h2 := decode_encode ht (encode t).length [] le_rfl ft
  rw [he, h2] at h1
  simpa using h1.symm

/-! ## what is read -/

/-- Every map in a term is in canonical order, as in the terms of a program. -/
inductive WellFormed : Term → Prop
  | atom {name} : WellFormed (.atom name)
  | int {n} : WellFormed (.int n)
  | float {x} : WellFormed (.float x)
  | binary {b} : WellFormed (.binary b)
  | bitstring {b spare} : WellFormed (.bitstring b spare)
  | list {xs} : (∀ x ∈ xs, WellFormed x) → WellFormed (.list xs)
  | improper {xs t} : (∀ x ∈ xs, WellFormed x) → WellFormed t → WellFormed (.improper xs t)
  | tuple {xs} : (∀ x ∈ xs, WellFormed x) → WellFormed (.tuple xs)
  | map {kvs : List (Term × Term)} : Ordered kvs → (∀ e ∈ kvs, WellFormed e.1) →
      (∀ e ∈ kvs, WellFormed e.2) → WellFormed (.map kvs)
  | handle {kind id} : WellFormed (.handle kind id)

theorem Plain.wellFormed {t : Term} (h : Plain t) : WellFormed t := by
  induction h with
  | atom => exact .atom
  | int => exact .int
  | float => exact .float
  | binary => exact .binary
  | list _ ih => exact .list ih
  | tuple _ ih => exact .tuple ih
  | map ho _ _ ihk ihv => exact .map ho ihk ihv

/-- The reader `d` gives well-formed terms only. -/
def ReadsWell (d : Bytes → Option (Term × Bytes)) : Prop := ∀ b t r, d b = some (t, r) → WellFormed t

theorem wellFormed_decodeMany {d : Bytes → Option (Term × Bytes)} (hd : ReadsWell d) {n : ℕ} {b r : Bytes}
    {xs : List Term} (h : decodeMany d n b = some (xs, r)) : ∀ x ∈ xs, WellFormed x := by
  induction n generalizing b xs r with
  | zero =>
    simp only [decodeMany, Option.some.injEq, Prod.mk.injEq] at h
    simp [← h.1]
  | succ n ih =>
    simp only [decodeMany, Option.bind_eq_bind, Option.bind_eq_some_iff, Option.some.injEq, Prod.mk.injEq,
      Prod.exists] at h
    obtain ⟨x, _, hx, ys, _, hys, rfl, -⟩ := h
    intro y hy
    rcases List.mem_cons.1 hy with rfl | hy
    · exact hd _ _ _ hx
    · exact ih hys y hy

theorem wellFormed_decodePairs {d : Bytes → Option (Term × Bytes)} (hd : ReadsWell d) {n : ℕ} {b r : Bytes}
    {kvs : List (Term × Term)} (h : decodePairs d n b = some (kvs, r)) :
    ∀ e ∈ kvs, WellFormed e.1 ∧ WellFormed e.2 := by
  induction n generalizing b kvs r with
  | zero =>
    simp only [decodePairs, Option.some.injEq, Prod.mk.injEq] at h
    simp [← h.1]
  | succ n ih =>
    simp only [decodePairs, Option.bind_eq_bind, Option.bind_eq_some_iff, Option.some.injEq, Prod.mk.injEq,
      Prod.exists] at h
    obtain ⟨k, _, hk, v, _, hv, rest, _, hrest, rfl, -⟩ := h
    intro e he
    rcases List.mem_cons.1 he with rfl | he
    · exact ⟨hd _ _ _ hk, hd _ _ _ hv⟩
    · exact ih hrest e he

theorem mem_entriesOf {kvs : List (Term × Term)} {e : Term × Term} (h : e ∈ entriesOf kvs) : e ∈ kvs := by
  suffices key : ∀ acc : List (Term × Term),
      e ∈ kvs.foldl (fun acc e => putEntry e.1 e.2 acc) acc → e ∈ acc ∨ e ∈ kvs by
    simpa using key [] h
  clear h
  induction kvs with
  | nil => simp
  | cons e' kvs ih =>
    intro acc h
    rcases ih _ h with h | h
    · rcases mem_putEntry h with rfl | h
      · simp
      · exact .inl h
    · simp [h]

/-- **What is read is well formed**, whatever the bytes. -/
theorem wellFormed_decode (fuel : ℕ) : ReadsWell (decode fuel) := by
  induction fuel with
  | zero => intro b t r h; simp [decode] at h
  | succ fuel ih =>
    intro b t r h
    cases b with
    | nil => simp [decode] at h
    | cons tag b =>
      simp only [decode] at h
      split at h <;>
        simp only [Option.bind_eq_bind, Option.bind_eq_some_iff, Option.some.injEq, Prod.mk.injEq, Prod.exists,
          readBig, readAtom, Option.map_eq_some_iff, reduceCtorEq] at h
      · obtain ⟨n, _, -, rfl, -⟩ := h
        exact .int
      · obtain ⟨n, _, -, rfl, -⟩ := h
        exact .int
      · obtain ⟨n, _, -, sign, _, -, m, _, -, rfl, -⟩ := h
        exact .int
      · obtain ⟨n, _, -, sign, _, -, m, _, -, rfl, -⟩ := h
        exact .int
      · obtain ⟨n, _, -, h⟩ := h
        split at h
        · cases h
          exact .float
        · cases h
      · obtain ⟨n, _, -, name, _, -, rfl, -⟩ := h
        exact .atom
      · obtain ⟨n, _, -, name, _, -, rfl, -⟩ := h
        exact .atom
      · obtain ⟨n, _, -, x, _, -, rfl, -⟩ := h
        exact .binary
      · obtain ⟨n, _, -, spare, _, -, x, _, -, rfl, -⟩ := h
        exact .bitstring
      · obtain ⟨rfl, -⟩ := h
        exact .list (by simp)
      · obtain ⟨n, _, -, x, _, -, rfl, -⟩ := h
        refine .list fun y hy => ?_
        obtain ⟨c, -, rfl⟩ := List.mem_map.1 hy
        exact .int
      · obtain ⟨n, _, -, xs, _, hxs, tail, _, htail, h⟩ := h
        have hwf := wellFormed_decodeMany ih hxs
        have ht := ih _ _ _ htail
        split at h <;> cases h
        · cases ht with
          | list hys => exact .list fun y hy => (List.mem_append.1 hy).elim (hwf y) (hys y)
        · cases ht with
          | improper hys htail => exact .improper (fun y hy => (List.mem_append.1 hy).elim (hwf y) (hys y)) htail
        · exact .improper hwf ht
      · obtain ⟨n, _, -, xs, _, hxs, rfl, -⟩ := h
        exact .tuple (wellFormed_decodeMany ih hxs)
      · obtain ⟨n, _, -, xs, _, hxs, rfl, -⟩ := h
        exact .tuple (wellFormed_decodeMany ih hxs)
      · obtain ⟨n, _, -, kvs, _, hkvs, h⟩ := h
        have hwf := wellFormed_decodePairs ih hkvs
        split at h
        · cases h
          exact .map (ordered_entriesOf kvs) (fun e he => (hwf e (mem_entriesOf he)).1) fun e he =>
            (hwf e (mem_entriesOf he)).2
        · cases h

theorem wellFormed_binaryToTerm {b : Bytes} {t : Term} {n : ℕ} (h : binaryToTerm b = some (t, n)) :
    WellFormed t := by
  unfold binaryToTerm at h
  split at h
  · obtain ⟨p, hp, heq⟩ := Option.map_eq_some_iff.1 h
    cases heq
    exact wellFormed_decode _ _ _ p.2 hp
  · cases h

/-- No term is written under the tag of a compressed one. -/
theorem encode_tag (t : Term) : ∃ tag rest, encode t = tag :: rest ∧ tag ≠ 80 := by
  cases t with
  | atom name => simp only [encode]; split <;> exact ⟨_, _, rfl, by decide⟩
  | int n => simp only [encode, encodeInt]; (repeat' split) <;> exact ⟨_, _, rfl, by decide⟩
  | list xs => simp only [encode]; (repeat' split) <;> exact ⟨_, _, rfl, by decide⟩
  | tuple xs => simp only [encode]; split <;> exact ⟨_, _, rfl, by decide⟩
  | handle k n => cases k <;> exact ⟨_, _, rfl, by decide⟩
  | _ => exact ⟨_, _, rfl, by decide⟩

end Loopex.Erlang
