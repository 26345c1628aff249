import Loopex.Erlang.ExternalFormat
import Loopex.Erlang.Utf8
import Loopex.Erlang.Numeral

/-!
# JSON texts

The grammar of RFC 8259 over bytes, with the value each text denotes.  Objects have distinct names and
numbers are integers; how an integer and the four characters of a `\u` escape are spelled is left to a
`Lexis`, so that the grammar can be read with the standard's spellings or with more.

* `Value L b v` — the text `b` denotes `v`;
* `strict` — the spellings of the standard;
* `Value.mono` — more spellings only add texts.
-/

namespace Loopex.Protocol.Json

open Loopex.Erlang Loopex.Erlang.Term

/-! ## spellings -/

/-- How integers and the four characters of an escape are spelled. -/
structure Lexis where
  int : Bytes → ℤ → Prop
  hex : Bytes → ℕ → Prop

/-- The standard: no zero stands before another digit, and an escape is four hexadecimal digits. -/
def strict : Lexis where
  int b v := ∃ ds : List ℕ, (∀ d ∈ ds, d < 10) ∧ ds ≠ [] ∧ (ds.head? = some 0 → ds = [0]) ∧
    ((b = digits ds ∧ v = ofDigits 10 ds) ∨ (b = 45 :: digits ds ∧ v = -ofDigits 10 ds))
  hex h c := h.length = 4 ∧ ∃ ds, h.mapM (digitValue 16) = some ds ∧ c = ofDigits 16 ds

/-- Every spelling of one is a spelling of the other. -/
def Lexis.le (L M : Lexis) : Prop := (∀ b v, L.int b v → M.int b v) ∧ ∀ h c, L.hex h c → M.hex h c

def isSpace (b : UInt8) : Bool := b = 32 || b = 9 || b = 10 || b = 13

/-- White space. -/
def Ws (w : Bytes) : Prop := ∀ b ∈ w, isSpace b = true

/-- The character a two-character escape stands for. -/
def shortEscape (b : UInt8) : Option ℕ :=
  if b = 34 then some 34
  else if b = 92 then some 92
  else if b = 47 then some 47
  else if b = 98 then some 8
  else if b = 102 then some 12
  else if b = 110 then some 10
  else if b = 114 then some 13
  else if b = 116 then some 9
  else none

def HighSurrogate (c : ℕ) : Prop := 0xD800 ≤ c ∧ c ≤ 0xDBFF

def LowSurrogate (c : ℕ) : Prop := 0xDC00 ≤ c ∧ c ≤ 0xDFFF

/-- The code point of a pair of surrogates. -/
def pairOf (high low : ℕ) : ℕ := 0x10000 + (high - 0xD800) * 0x400 + (low - 0xDC00)

/-- One character of a string. -/
inductive Character (L : Lexis) : Bytes → ℕ → Prop
  | plain {c} : Scalar c → 0x20 ≤ c → c ≠ 34 → c ≠ 92 → Character L (utf8Encode c) c
  | short {x c} : shortEscape x = some c → Character L [92, x] c
  | unicode {h c} : L.hex h c → Scalar c → Character L (92 :: 117 :: h) c
  | pair {h h' high low} : L.hex h high → L.hex h' low → HighSurrogate high → LowSurrogate low →
      Character L (92 :: 117 :: (h ++ 92 :: 117 :: h')) (pairOf high low)

/-- The characters of a string between its quotation marks. -/
inductive Chars (L : Lexis) : Bytes → List ℕ → Prop
  | nil : Chars L [] []
  | cons {p c e cs} : Character L p c → Chars L e cs → Chars L (p ++ e) (c :: cs)

/-- The members of an object, as the entries of a map. -/
def entriesOfMembers (ms : List (Bytes × Term)) : List (Term × Term) :=
  entriesOf (ms.map fun m => (.binary m.1, m.2))

/-! ## values -/

mutual
/-- A text and the value it denotes. -/
inductive Value (L : Lexis) : Bytes → Term → Prop
  | string {e cs} : Chars L e cs → Value L (34 :: (e ++ [34])) (.binary (utf8All cs))
  | true : Value L [116, 114, 117, 101] (sym "true")
  | false : Value L [102, 97, 108, 115, 101] (sym "false")
  | null : Value L [110, 117, 108, 108] nil
  | int {b v} : L.int b v → Value L b (.int v)
  | array {w} : Ws w → Value L (91 :: (w ++ [93])) (.list [])
  | elements {b vs} : Elements L b vs → Value L (91 :: (b ++ [93])) (.list vs)
  | object {w} : Ws w → Value L (123 :: (w ++ [125])) (.map [])
  | members {b ms} : Members L b ms → (ms.map Prod.fst).Nodup →
      Value L (123 :: (b ++ [125])) (.map (entriesOfMembers ms))
/-- Values between commas. -/
inductive Elements (L : Lexis) : Bytes → List Term → Prop
  | one {w b w' v} : Ws w → Value L b v → Ws w' → Elements L (w ++ (b ++ w')) [v]
  | cons {w b w' v b' vs} : Ws w → Value L b v → Ws w' → Elements L b' vs →
      Elements L (w ++ (b ++ (w' ++ 44 :: b'))) (v :: vs)
/-- Named values between commas. -/
inductive Members (L : Lexis) : Bytes → List (Bytes × Term) → Prop
  | one {w e cs w₁ w₂ b w' v} : Ws w → Chars L e cs → Ws w₁ → Ws w₂ → Value L b v → Ws w' →
      Members L (w ++ 34 :: (e ++ 34 :: (w₁ ++ 58 :: (w₂ ++ (b ++ w'))))) [(utf8All cs, v)]
  | cons {w e cs w₁ w₂ b w' v b' ms} : Ws w → Chars L e cs → Ws w₁ → Ws w₂ → Value L b v → Ws w' →
      Members L b' ms →
      Members L (w ++ 34 :: (e ++ 34 :: (w₁ ++ 58 :: (w₂ ++ (b ++ (w' ++ 44 :: b')))))) ((utf8All cs, v) :: ms)
end

variable {L M : Lexis}

theorem Character.mono (h : L.le M) {p : Bytes} {c : ℕ} (hc : Character L p c) : Character M p c := by
  rcases hc with ⟨hs, h1, h2, h3⟩ | hx | ⟨hx, hs⟩ | ⟨hx, hy, h1, h2⟩
  · exact .plain hs h1 h2 h3
  · exact .short hx
  · exact .unicode (h.2 _ _ hx) hs
  · exact .pair (h.2 _ _ hx) (h.2 _ _ hy) h1 h2

theorem Chars.mono (h : L.le M) {e : Bytes} {cs : List ℕ} (hc : Chars L e cs) : Chars M e cs := by
  induction hc with
  | nil => exact .nil
  | cons hp _ ih => exact .cons (hp.mono h) ih

theorem Character.scalar {L : Lexis} {p : Bytes} {c : ℕ} (h : Character L p c) : Scalar c := by
  rcases h with ⟨hs, -, -, -⟩ | hx | ⟨-, hs⟩ | ⟨-, -, h1, h2⟩
  · exact hs
  · left
    unfold shortEscape at hx
    (repeat' split at hx) <;> simp_all <;> omega
  · exact hs
  · unfold HighSurrogate at h1
    unfold LowSurrogate at h2
    right
    unfold pairOf
    omega

theorem Chars.scalars {L : Lexis} {e : Bytes} {cs : List ℕ} (h : Chars L e cs) : ∀ c ∈ cs, Scalar c := by
  induction h with
  | nil => simp
  | cons hp _ ih =>
    intro c hc
    rcases List.mem_cons.1 hc with rfl | hc
    · exact hp.scalar
    · exact ih c hc

theorem Character.pos {L : Lexis} {p : Bytes} {c : ℕ} (h : Character L p c) : 0 < p.length := by
  rcases h with ⟨-, -, -, -⟩ | hx | ⟨-, -⟩ | ⟨-, -, -, -⟩
  · exact List.length_pos_iff.2 (utf8Encode_ne_nil _)
  all_goals simp

theorem Ws.append {w w' : Bytes} (h : Ws w) (h' : Ws w') : Ws (w ++ w') := by
  intro x hx
  rcases List.mem_append.1 hx with hx | hx
  · exact h x hx
  · exact h' x hx

/-- White space in front of the first value. -/
theorem Elements.space {w b : Bytes} {vs : List Term} (hw : Ws w) (h : Elements L b vs) :
    Elements L (w ++ b) vs := by
  rcases h with ⟨h, hv, h'⟩ | ⟨h, hv, h', he⟩ <;> rw [← List.append_assoc]
  · exact .one (hw.append h) hv h'
  · exact .cons (hw.append h) hv h' he

/-- White space in front of the first name. -/
theorem Members.space {w b : Bytes} {ms : List (Bytes × Term)} (hw : Ws w) (h : Members L b ms) :
    Members L (w ++ b) ms := by
  rcases h with ⟨h, hc, h1, h2, hv, h'⟩ | ⟨h, hc, h1, h2, hv, h', hm⟩ <;> rw [← List.append_assoc]
  · exact .one (hw.append h) hc h1 h2 hv h'
  · exact .cons (hw.append h) hc h1 h2 hv h' hm

mutual
/-- **More spellings only add texts.** -/
theorem Value.mono (h : L.le M) : ∀ {b : Bytes} {v : Term}, Value L b v → Value M b v
  | _, _, .string hc => .string (hc.mono h)
  | _, _, .true => .true
  | _, _, .false => .false
  | _, _, .null => .null
  | _, _, .int hi => .int (h.1 _ _ hi)
  | _, _, .array hw => .array hw
  | _, _, .elements he => .elements (he.mono h)
  | _, _, .object hw => .object hw
  | _, _, .members hm hn => .members (hm.mono h) hn
theorem Elements.mono (h : L.le M) : ∀ {b : Bytes} {vs : List Term}, Elements L b vs → Elements M b vs
  | _, _, .one hw hv hw' => .one hw (hv.mono h) hw'
  | _, _, .cons hw hv hw' he => .cons hw (hv.mono h) hw' (he.mono h)
theorem Members.mono (h : L.le M) :
    ∀ {b : Bytes} {ms : List (Bytes × Term)}, Members L b ms → Members M b ms
  | _, _, .one hw hc h1 h2 hv hw' => .one hw (hc.mono h) h1 h2 (hv.mono h) hw'
  | _, _, .cons hw hc h1 h2 hv hw' hm => .cons hw (hc.mono h) h1 h2 (hv.mono h) hw' (hm.mono h)
end

end Loopex.Protocol.Json
