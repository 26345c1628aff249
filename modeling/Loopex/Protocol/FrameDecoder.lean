import Loopex.Protocol.Frame
import Loopex.Protocol.Json

/-!
# What the frame decoder reads

The decoder against the grammar of JSON texts.  It reads the grammar with the spellings of `Integer.parse`,
which pads its integers with zeros and signs the digits of an escape, and an escape of a negative number
makes it raise.

* `lenient` — the spellings of `Integer.parse`; `strict_le_lenient`
* `Within n v` — the limits on a value, with `n` nested containers
* `Stuck n b` — the texts that lead to an escape of a negative number
* `parseValue_sound`, `parseValue_complete`, `parseValue_stuck` — what the parser reads, and where it raises
-/

namespace Loopex.Protocol.Frame

open Loopex.Erlang Loopex.Erlang.Term Loopex.Protocol.Json

/-! ## spellings and limits -/

/-- The spellings of `Integer.parse`, behind the dispatch on the first character of a value. -/
def lenient : Lexis where
  int b v := b.head? ≠ some 43 ∧ integerParse 10 b = some (v, [])
  hex h c := h.length = 4 ∧ integerParse 16 h = some ((c : ℤ), [])

/-- Four characters that `Integer.parse` reads as a negative number. -/
def NegativeEscape (h : Bytes) : Prop := h.length = 4 ∧ ∃ c < 0, integerParse 16 h = some (c, [])

/-- The limits on a value: `n` nested containers, their members, and what the decoded strings take. -/
inductive Within : ℕ → Term → Prop
  | atom {n a} : Within n (.atom a)
  | int {n i} : integerMin ≤ i → i ≤ integerMax → Within n (.int i)
  | string {n b} : b.length ≤ maxStringBytes → Within n (.binary b)
  | list {n vs} : vs.length ≤ maxMembers → (∀ v ∈ vs, Within n v) → Within (n + 1) (.list vs)
  | map {n es} : es.length ≤ maxMembers → (∀ e ∈ es, ∃ k, e.1 = .binary k ∧ k.length ≤ maxStringBytes) →
      (∀ e ∈ es, Within n e.2) → Within (n + 1) (.map es)

theorem strict_le_lenient : strict.le lenient := by
  refine ⟨?_, ?_⟩
  · rintro b v ⟨ds, hds, hne, -, ⟨rfl, rfl⟩ | ⟨rfl, rfl⟩⟩
    · refine ⟨?_, integerParse_of_mapM (mapM_digits hds) hne⟩
      intro h
      have hx := isSome_of_mapM (mapM_digits hds) 43 (List.mem_of_head? h)
      exact (ne_sign_of_isSome hx).1 rfl
    · exact ⟨by simp, integerParse_minus (mapM_digits hds) hne⟩
  · rintro h c ⟨hl, ds, hds, rfl⟩
    refine ⟨hl, integerParse_of_mapM hds ?_⟩
    rintro rfl
    have := length_of_mapM hds
    simp only [List.length_nil] at this
    omega

/-! ## space -/

theorem skipSpace_append {w : Bytes} (hw : Ws w) (b : Bytes) : skipSpace (w ++ b) = skipSpace b := by
  induction w with
  | nil => rfl
  | cons x w ih =>
    have hx : isSpace x = true := hw x (by simp)
    simp only [isSpace, Bool.or_eq_true, decide_eq_true_eq] at hx
    rw [List.cons_append, skipSpace, if_pos (by simpa using hx)]
    exact ih fun y hy => hw y (by simp [hy])

theorem skipSpace_cons {x : UInt8} (h : isSpace x = false) (b : Bytes) : skipSpace (x :: b) = x :: b := by
  rw [skipSpace]
  exact if_neg (by simpa [isSpace] using h)

/-- What is skipped is white space. -/
theorem skipSpace_spec (b : Bytes) : ∃ w, Ws w ∧ b = w ++ skipSpace b := by
  induction b with
  | nil => exact ⟨[], by simp [Ws], rfl⟩
  | cons x b ih =>
    unfold skipSpace
    split
    · next hx =>
      obtain ⟨w, hw, he⟩ := ih
      refine ⟨x :: w, ?_, by rw [List.cons_append, ← he]⟩
      intro y hy
      rcases List.mem_cons.1 hy with rfl | hy
      · simpa [isSpace] using hx
      · exact hw y hy
    · exact ⟨[], by simp [Ws], rfl⟩

/-! ## strings -/

theorem shortEscape_eq {x : UInt8} {c : ℕ} (h : shortEscape x = some c) (rest : Bytes) :
    simpleEscape x rest = .char c rest := by
  unfold shortEscape at h
  unfold simpleEscape
  (repeat' split at h) <;> simp_all

theorem simpleEscape_spec {x : UInt8} {rest : Bytes} :
    (∃ c, shortEscape x = some c ∧ simpleEscape x rest = .char c rest) ∨
      simpleEscape x rest = .stop (.refused .malformed) := by
  unfold shortEscape simpleEscape
  (repeat' split) <;> simp_all

/-- The first byte of a character. -/
theorem utf8Encode_head {c : ℕ} (hc : Scalar c) : ∃ x p, utf8Encode c = x :: p ∧
    (c < 0x80 → x.toNat = c) ∧ (0x80 ≤ c → 0x80 ≤ x.toNat) := by
  have hmax : c < 0x110000 := by
    unfold Scalar at hc
    omega
  unfold utf8Encode
  split
  · next h => exact ⟨_, _, rfl, fun _ => toNat_ofNat (by omega), fun h' => by omega⟩
  split
  · next h1 h2 =>
    have hn := toNat_ofNat (show 0xC0 + c / 64 < 256 by omega)
    exact ⟨_, _, rfl, fun h' => by omega, fun _ => by omega⟩
  split
  · next h1 h2 h3 =>
    have hn := toNat_ofNat (show 0xE0 + c / 4096 < 256 by omega)
    exact ⟨_, _, rfl, fun h' => by omega, fun _ => by omega⟩
  · next h1 h2 h3 =>
    have hn := toNat_ofNat (show 0xF0 + c / 262144 < 256 by omega)
    exact ⟨_, _, rfl, fun h' => by omega, fun _ => by omega⟩

theorem nextChar_of_plain {c : ℕ} (hc : Scalar c) (h1 : 0x20 ≤ c) (h2 : c ≠ 34) (h3 : c ≠ 92) (rest : Bytes) :
    nextChar (utf8Encode c ++ rest) = .char c rest := by
  obtain ⟨x, p, he, hlt, hge⟩ := utf8Encode_head hc
  have hd := utf8Decode_encode hc rest
  have hx : 0x20 ≤ x.toNat ∧ x.toNat ≠ 34 ∧ x.toNat ≠ 92 := by
    by_cases hc : c < 0x80
    · rw [hlt hc]
      exact ⟨h1, h2, h3⟩
    · have := hge (by omega)
      omega
  rw [he, List.cons_append] at hd ⊢
  unfold nextChar
  split
  · next h => exact absurd (by rw [(List.cons.inj h).1]; rfl) hx.2.1
  · next h => exact absurd (by rw [(List.cons.inj h).1]; rfl) hx.2.2
  · next h => exact absurd (by rw [(List.cons.inj h).1]; rfl) hx.2.2
  · simp only [plainChar, hd]
    exact if_neg (by rw [UInt8.lt_iff_toNat_lt]; simpa using hx.1)

/-- **A character of the grammar is read**, whatever follows it. -/
theorem nextChar_of_character {p : Bytes} {c : ℕ} (hp : Character lenient p c) (rest : Bytes) :
    nextChar (p ++ rest) = .char c rest := by
  rcases hp with ⟨hs, h1, h2, h3⟩ | hx | @⟨h, _, ⟨hl, hi⟩, hs⟩ | @⟨h, h', high, low, ⟨hl, hi⟩, ⟨hl', hi'⟩, h1, h2⟩
  · exact nextChar_of_plain hs h1 h2 h3 rest
  · next x =>
    have hu : x ≠ 117 := by
      rintro rfl
      simp [shortEscape] at hx
    simp only [List.cons_append, List.nil_append]
    unfold nextChar
    split
    · next h => exact absurd (List.cons.inj h).1 (by decide)
    · next h => exact absurd (List.cons.inj (List.cons.inj h).2).1 hu
    · next h =>
      obtain ⟨rfl, rfl⟩ := List.cons.inj (List.cons.inj h).2
      exact shortEscape_eq hx rest
    · next h => exact absurd rfl (h _ _)
  · obtain ⟨a, b, c', d, rfl⟩ := List.length_eq_four.1 hl
    simp only [List.cons_append, List.nil_append, nextChar, unicodeEscape, hi]
    rw [if_neg (by unfold Scalar at hs; omega), if_neg (by unfold Scalar at hs; omega), if_neg (by omega)]
    simp
  · obtain ⟨a, b, c', d, rfl⟩ := List.length_eq_four.1 hl
    obtain ⟨a', b', c'', d', rfl⟩ := List.length_eq_four.1 hl'
    unfold HighSurrogate at h1
    unfold LowSurrogate at h2
    simp only [List.cons_append, List.nil_append, nextChar, unicodeEscape, hi]
    rw [if_pos (by omega)]
    simp only [parseSurrogate, hi', Int.toNat_natCast]
    rw [if_pos (by omega)]
    rfl

theorem nextChar_close (rest : Bytes) : nextChar (34 :: rest) = .close rest := rfl

/-- An escape of a negative number raises. -/
theorem nextChar_of_negative {h : Bytes} (hn : NegativeEscape h) (rest : Bytes) :
    nextChar (92 :: 117 :: (h ++ rest)) = .stop .raised := by
  obtain ⟨hl, c, hc, hi⟩ := hn
  obtain ⟨a, b, c', d, rfl⟩ := List.length_eq_four.1 hl
  simp only [List.cons_append, List.nil_append, nextChar, unicodeEscape, hi]
  rw [if_neg (by omega), if_neg (by omega), if_pos hc]

/-- What `parse_surrogate` reads. -/
theorem parseSurrogate_spec (high : ℕ) (input : Bytes) :
    (∃ h low rest, input = 92 :: 117 :: (h ++ rest) ∧ lenient.hex h low ∧ LowSurrogate low ∧
      parseSurrogate high input = .char (pairOf high low) rest) ∨
    parseSurrogate high input = .stop (.refused .malformed) := by
  unfold parseSurrogate
  split
  · next a b c d rest =>
    split
    · next low hi =>
      split
      · next hlow =>
        refine .inl ⟨[a, b, c, d], low.toNat, rest, rfl, ⟨rfl, ?_⟩, ?_, rfl⟩
        · rw [hi, Int.toNat_of_nonneg (by omega)]
        · unfold LowSurrogate
          omega
      · exact .inr rfl
    · exact .inr rfl
  · exact .inr rfl

/-- **What the clauses of `parse_string` find**: the closing mark, a character of the grammar, or an escape
of a negative number. -/
theorem nextChar_spec (input : Bytes) :
    (∃ rest, input = 34 :: rest ∧ nextChar input = .close rest) ∨
    (∃ p c rest, input = p ++ rest ∧ Character lenient p c ∧ nextChar input = .char c rest) ∨
    (input = [92] ∧ nextChar input = .char 92 []) ∨
    (∃ h rest, input = 92 :: 117 :: (h ++ rest) ∧ NegativeEscape h ∧ nextChar input = .stop .raised) ∨
    ∃ reason, nextChar input = .stop (.refused reason) := by
  unfold nextChar
  split
  · next rest => exact .inl ⟨rest, rfl, rfl⟩
  · next a b c d rest =>
    unfold unicodeEscape
    split
    · next code hi =>
      split
      · next hhigh =>
        have hhex : lenient.hex [a, b, c, d] code.toNat := ⟨rfl, by rw [hi, Int.toNat_of_nonneg (by omega)]⟩
        have hh : HighSurrogate code.toNat := by
          unfold HighSurrogate
          omega
        rcases parseSurrogate_spec code.toNat rest with ⟨h, low, rest', rfl, hlow, hl, he⟩ | he
        · refine .inr (.inl ⟨_, _, rest', ?_, .pair hhex hlow hh hl, he⟩)
          simp
        · exact .inr (.inr (.inr (.inr ⟨_, he⟩)))
      split
      · exact .inr (.inr (.inr (.inr ⟨_, rfl⟩)))
      split
      · next hneg => exact .inr (.inr (.inr (.inl ⟨[a, b, c, d], rest, rfl, ⟨rfl, code, hneg, hi⟩, rfl⟩)))
      · next h1 h2 h3 =>
        have hhex : lenient.hex [a, b, c, d] code.toNat := ⟨rfl, by rw [hi, Int.toNat_of_nonneg (by omega)]⟩
        have hlt : code < 16 ^ 4 := integerParse_lt (by decide) hi
        refine .inr (.inl ⟨92 :: 117 :: [a, b, c, d], _, rest, rfl, .unicode hhex ?_, rfl⟩)
        unfold Scalar
        omega
    · exact .inr (.inr (.inr (.inr ⟨_, rfl⟩)))
  · next escape rest h =>
    rcases @simpleEscape_spec escape rest with ⟨c, hc, he⟩ | he
    · exact .inr (.inl ⟨[92, escape], c, rest, rfl, .short hc, he⟩)
    · exact .inr (.inr (.inr (.inr ⟨_, he⟩)))
  · next h34 h92 hesc =>
    unfold plainChar
    split
    · exact .inr (.inr (.inr (.inr ⟨_, rfl⟩)))
    · next b rest =>
      split
      · exact .inr (.inr (.inr (.inr ⟨_, rfl⟩)))
      · next hb =>
        split
        · next code rest' hd =>
          obtain ⟨hs, he⟩ := utf8Decode_eq_some hd
          obtain ⟨x, p, hp, hlt, hge⟩ := utf8Encode_head hs
          have hbx : b = x := by
            rw [hp] at he
            exact (List.cons.inj he).1
          subst hbx
          have h20 : 0x20 ≤ b.toNat := by
            rw [UInt8.lt_iff_toNat_lt] at hb
            simpa using hb
          have hbyte : ∀ n < 128, code = n → b = UInt8.ofNat n := fun n hn hc => by
            rw [← hc, ← hlt (by omega), UInt8.ofNat_toNat]
          by_cases h : code = 92
          · -- a backslash ends the input
            obtain rfl := hbyte 92 (by decide) h
            rcases rest with _ | ⟨y, rest⟩
            · cases hd
              exact .inr (.inr (.inl ⟨rfl, rfl⟩))
            · exact absurd rfl (hesc y rest)
          · refine .inr (.inl ⟨_, _, rest', he, .plain hs ?_ ?_ h, rfl⟩)
            · by_cases hc : code < 0x80
              · rw [← hlt hc]
                exact h20
              · omega
            · intro hc
              obtain rfl := hbyte 34 (by decide) hc
              exact h34 rest rfl
        · exact .inr (.inr (.inr (.inr ⟨_, rfl⟩)))

theorem length_le_utf8All (cs : List ℕ) : cs.length ≤ (utf8All cs).length := by
  induction cs with
  | nil => simp
  | cons c cs ih =>
    have := List.length_pos_iff.2 (utf8Encode_ne_nil c)
    simp only [utf8All_cons, List.length_append, List.length_cons]
    omega

/-- What a stage of the parser comes to: a value and what follows it, or an exception. -/
def Meets {α : Type} (ok : α → Bytes → Prop) (raises : Prop) : Except Stop (α × Bytes) → Prop
  | .ok r => ok r.1 r.2
  | .error .raised => raises
  | .error (.refused _) => True
  | .error .unfinished => False

/-- The rest of a string that leads to an escape of a negative number; `count` characters stand before it. -/
def StuckString (count : ℕ) (b : Bytes) : Prop :=
  ∃ e cs h rest, b = e ++ 92 :: 117 :: (h ++ rest) ∧ Chars lenient e cs ∧ NegativeEscape h ∧
    count + cs.length ≤ maxStringBytes

theorem StuckString.cons {count c : ℕ} {p b : Bytes} (hp : Character lenient p c) (h : StuckString (count + 1) b) :
    StuckString count (p ++ b) := by
  obtain ⟨e, cs, x, rest, rfl, he, hx, hl⟩ := h
  refine ⟨p ++ e, c :: cs, x, rest, by simp, .cons hp he, hx, ?_⟩
  simp only [List.length_cons]
  omega

/-- A string that is read is one of the grammar. -/
theorem parseString_sound (fuel : ℕ) : ∀ (input : Bytes) (acc : List Bytes) (cs : List ℕ), input.length < fuel →
    acc.reverse.flatten = utf8All cs →
    Meets (fun s rest => ∃ e cs', input = e ++ 34 :: rest ∧ Chars lenient e cs' ∧ s = utf8All (cs ++ cs') ∧
      s.length ≤ maxStringBytes) (StuckString cs.length input) (parseString fuel input acc cs.length) := by
  induction fuel with
  | zero => intro input acc cs hf; omega
  | succ fuel ih =>
    intro input acc cs hf hacc
    unfold parseString
    split
    · trivial
    next hcount =>
    rcases nextChar_spec input with ⟨rest, rfl, he⟩ | ⟨p, c, rest, rfl, hp, he⟩ | ⟨rfl, he⟩ |
      ⟨h, rest, rfl, hn, he⟩ | ⟨reason, he⟩ <;> rw [he]
    · simp only
      split
      · trivial
      split
      · trivial
      · next hl _ =>
        refine ⟨[], [], rfl, .nil, by simp [hacc], ?_⟩
        exact Nat.not_lt.1 hl
    · have hpos := hp.pos
      have hacc' : (utf8Encode c :: acc).reverse.flatten = utf8All (cs ++ [c]) := by
        simp [hacc, utf8All_append]
      have := ih rest _ (cs ++ [c]) (by simp at hf; omega) hacc'
      rw [List.length_append, List.length_singleton] at this
      simp only
      revert this
      cases hr : parseString fuel rest (utf8Encode c :: acc) (cs.length + 1) with
      | ok r =>
        rintro ⟨e, cs', rfl, he, hs, hl⟩
        exact ⟨p ++ e, c :: cs', by simp, .cons hp he, by simpa using hs, hl⟩
      | error s =>
        cases s with
        | raised => exact fun h => h.cons hp
        | refused _ => exact fun _ => trivial
        | unfinished => exact fun h => h
    · -- nothing follows the backslash
      simp only
      cases fuel with
      | zero => simp at hf
      | succ fuel =>
        unfold parseString
        split <;> exact trivial
    · exact ⟨[], [], h, rest, rfl, .nil, hn, by simpa using hcount⟩
    · trivial

/-- **A string of the grammar is read.** -/
theorem parseString_complete {e : Bytes} {cs' : List ℕ} (he : Chars lenient e cs') (rest : Bytes) :
    ∀ (fuel : ℕ) (acc : List Bytes) (cs : List ℕ), (e ++ 34 :: rest).length < fuel → (∀ c ∈ cs, Scalar c) →
    acc.reverse.flatten = utf8All cs → (utf8All (cs ++ cs')).length ≤ maxStringBytes →
    parseString fuel (e ++ 34 :: rest) acc cs.length = .ok (utf8All (cs ++ cs'), rest) := by
  induction he with
  | nil =>
    intro fuel acc cs hf hcs hacc hl
    rw [List.append_nil] at hl
    have hc := length_le_utf8All cs
    obtain ⟨fuel, rfl⟩ : ∃ f, fuel = f + 1 := ⟨fuel - 1, by omega⟩
    have hv : validUtf8 (utf8All cs) = true := validUtf8_iff.2 ⟨cs, hcs, rfl⟩
    simp only [List.nil_append, parseString, nextChar_close, hacc, List.append_nil, hv]
    rw [if_neg (by omega), if_neg (by omega)]
    rfl
  | @cons p c e cs' hp he ih =>
    intro fuel acc cs hf hcs hacc hl
    have hc := length_le_utf8All (cs ++ c :: cs')
    simp only [List.length_append, List.length_cons] at hc hf
    obtain ⟨fuel, rfl⟩ : ∃ f, fuel = f + 1 := ⟨fuel - 1, by omega⟩
    have hpos := hp.pos
    rw [List.append_assoc, parseString, if_neg (by omega), nextChar_of_character hp]
    have hacc' : (utf8Encode c :: acc).reverse.flatten = utf8All (cs ++ [c]) := by
      simp [hacc, utf8All_append]
    have hs : ∀ x ∈ cs ++ [c], Scalar x := by
      intro x hx
      rcases List.mem_append.1 hx with hx | hx
      · exact hcs x hx
      · rw [List.mem_singleton.1 hx]
        exact hp.scalar
    have := ih fuel (utf8Encode c :: acc) (cs ++ [c]) (by simp; omega) hs hacc' (by simpa using hl)
    simpa using this

/-- **A string that leads to an escape of a negative number raises.** -/
theorem parseString_stuck {e : Bytes} {cs' : List ℕ} (he : Chars lenient e cs') {h : Bytes} (hn : NegativeEscape h)
    (rest : Bytes) : ∀ (fuel : ℕ) (acc : List Bytes) (count : ℕ),
    (e ++ 92 :: 117 :: (h ++ rest)).length < fuel → count + cs'.length ≤ maxStringBytes →
    parseString fuel (e ++ 92 :: 117 :: (h ++ rest)) acc count = .error .raised := by
  induction he with
  | nil =>
    intro fuel acc count hf hl
    obtain ⟨fuel, rfl⟩ : ∃ f, fuel = f + 1 := ⟨fuel - 1, by omega⟩
    rw [List.nil_append, parseString, if_neg (by simpa using hl), nextChar_of_negative hn]
  | @cons p c e cs' hp he ih =>
    intro fuel acc count hf hl
    simp only [List.length_append, List.length_cons] at hf hl
    obtain ⟨fuel, rfl⟩ : ∃ f, fuel = f + 1 := ⟨fuel - 1, by omega⟩
    have hpos := hp.pos
    rw [List.append_assoc, parseString, if_neg (by omega), nextChar_of_character hp]
    exact ih fuel _ (count + 1) (by simp; omega) (by omega)

/-! ## numbers -/

theorem digit_range {x : UInt8} (h : (digitValue 10 x).isSome) : 48 ≤ x ∧ x ≤ 57 := by
  obtain ⟨v, hv⟩ := Option.isSome_iff_exists.1 h
  by_contra hn
  simp only [UInt8.le_iff_toNat_le] at hn
  have hge : ¬ (if 97 ≤ x.toNat ∧ x.toNat ≤ 122 then x.toNat - 87
      else if 65 ≤ x.toNat ∧ x.toNat ≤ 90 then x.toNat - 55 else 10) < 10 := by
    (repeat' split) <;> omega
  simp only [digitValue, if_neg (show ¬ (48 ≤ x.toNat ∧ x.toNat ≤ 57) from hn), if_neg hge] at hv
  cases hv

theorem isNumberByte_of_digit {x : UInt8} (h : (digitValue 10 x).isSome) :
    isNumberByte x = true ∧ x ≠ 46 ∧ x ≠ 101 ∧ x ≠ 69 := by
  have hx := digit_range h
  refine ⟨?_, ?_, ?_, ?_⟩
  · simp [isNumberByte, hx.1, hx.2]
  all_goals
    rintro rfl
    exact absurd hx (by decide)

/-- A number that is read is one of the grammar. -/
theorem parseNumber_sound {x : UInt8} {input : Bytes} (hx : x ≠ 43) (n : ℕ) (P : Prop) :
    Meets (fun v rest => ∃ b, x :: input = b ++ rest ∧ Value lenient b v ∧ Within n v) P
      (parseNumber (x :: input)) := by
  have happ : (x :: input).takeWhile isNumberByte ++ (x :: input).dropWhile isNumberByte = x :: input :=
    List.takeWhile_append_dropWhile
  have hhead : ((x :: input).takeWhile isNumberByte).head? ≠ some 43 := by
    rw [List.takeWhile_cons]
    split
    · simpa using hx
    · simp
  unfold parseNumber takeNumber
  rw [List.span_eq_takeWhile_dropWhile]
  generalize (x :: input).takeWhile isNumberByte = d at happ hhead ⊢
  generalize (x :: input).dropWhile isNumberByte = r at happ ⊢
  simp only
  by_cases h1 : d = []
  · rw [if_pos h1]
    trivial
  rw [if_neg h1]
  split
  · trivial
  split
  · next v hi =>
    split
    · next hr => exact ⟨d, happ.symm, .int ⟨hhead, hi⟩, .int hr.1 hr.2⟩
    · trivial
  · trivial

/-- **A number of the grammar is read**, when no part of a number follows it. -/
theorem parseNumber_complete {b rest : Bytes} {v : ℤ} (hb : lenient.int b v) (hr : integerMin ≤ v ∧ v ≤ integerMax)
    (hf : ∀ x, rest.head? = some x → isNumberByte x = false) : parseNumber (b ++ rest) = .ok (.int v, rest) := by
  obtain ⟨h43, hi⟩ := hb
  obtain ⟨hne, hall⟩ := bytes_of_integerParse hi
  have hbyte : ∀ x ∈ b, isNumberByte x = true ∧ x ≠ 46 ∧ x ≠ 101 ∧ x ≠ 69 := by
    intro x hx
    rcases hall x hx with rfl | rfl | hd
    · decide
    · decide
    · exact isNumberByte_of_digit hd
  have htake : takeNumber (b ++ rest) = (b, rest) := by
    rw [takeNumber, List.span_eq_takeWhile_dropWhile, List.takeWhile_append_of_pos fun x hx => (hbyte x hx).1,
      List.dropWhile_append_of_pos fun x hx => (hbyte x hx).1]
    cases rest with
    | nil => simp
    | cons y rest => simp [hf y rfl]
  simp only [parseNumber, htake, hi]
  rw [if_neg hne, if_neg, if_pos hr]
  simp only [List.any_eq_true, not_exists, not_and]
  intro x hx
  obtain ⟨-, h1, h2, h3⟩ := hbyte x hx
  simp [h1, h2, h3]

end Loopex.Protocol.Frame
