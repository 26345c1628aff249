import Loopex.Protocol.FrameValues

/-!
# The decoder against the standard

`Frame.decode` is to accept the objects of RFC 8259 within its limits, and to refuse everything else.  It
hands integers and escapes to `Integer.parse`, which reads padded integers and signed escapes as well, and
`<<code::utf8>>` raises on the negative ones.

* `Exact payload limit` — the decoder never raises here, and accepts what the standard does;
* `exact_iff` — it is exact but for signed escapes and padded integers.
-/

namespace Loopex.Protocol.Frame

open Loopex.Erlang Loopex.Erlang.Term Loopex.Protocol.Json

/-- The payload is refused or accepted, and accepted with the value it denotes exactly if it is one object of
the standard, short enough, valid UTF-8 and within the limits. -/
def Exact (payload : Bytes) (limit : ℕ) : Prop :=
  ((∃ v, decode payload limit = .ok v) ∨ ∃ reason, decode payload limit = .error (.refused reason)) ∧
  ∀ v, decode payload limit = .ok v ↔
    payload.length ≤ limit ∧ validUtf8 payload = true ∧ (∃ es, v = .map es) ∧ Value strict payload v ∧
      Within maxDepth v

/-- An object that leads to an escape of a negative number, as in `\u-001`. -/
def NegativelyEscaped (payload : Bytes) : Prop := payload.head? = some 123 ∧ Stuck maxDepth payload

/-- An object within the limits that is one only with padded integers or signed escapes, as in `01` and `\u+041`. -/
def Padded (payload : Bytes) : Prop :=
  ∃ es, Value lenient payload (.map es) ∧ Within maxDepth (.map es) ∧ ¬ Value strict payload (.map es)

/-- **The decoder is exact but for signed escapes and padded integers.** -/
theorem exact_iff (payload : Bytes) (limit : ℕ) (hpos : 0 < limit) :
    Exact payload limit ↔
      (payload.length ≤ limit → validUtf8 payload = true → ¬ NegativelyEscaped payload ∧ ¬ Padded payload) := by
  constructor
  · rintro ⟨hret, hok⟩ hl hu
    refine ⟨?_, ?_⟩
    · rintro ⟨hb, hs⟩
      have hr : decode payload limit = .error .raised := (decode_eq_raised hpos).2 ⟨hl, hu, hb, hs⟩
      rcases hret with ⟨v, hv⟩ | ⟨reason, hv⟩ <;> rw [hr] at hv <;> cases hv
    · rintro ⟨es, hv, hn, hns⟩
      have hd : decode payload limit = .ok (.map es) := decode_eq_ok.2 ⟨hl, hu, ⟨es, rfl⟩, hv, hn⟩
      exact hns ((hok _).1 hd).2.2.2.1
  · intro h
    refine ⟨?_, fun v => ?_⟩
    · rcases decode_cases payload hpos with ⟨v, hv, -⟩ | ⟨-, hl, hu, hb, hs⟩ | hr
      · exact .inl ⟨v, hv⟩
      · exact absurd ⟨hb, hs⟩ (h hl hu).1
      · exact .inr hr
    · rw [decode_eq_ok]
      constructor
      · rintro ⟨hl, hu, ⟨es, rfl⟩, hv, hn⟩
        refine ⟨hl, hu, ⟨es, rfl⟩, ?_, hn⟩
        by_contra hns
        exact (h hl hu).2 ⟨es, hv, hn, hns⟩
      · rintro ⟨hl, hu, hm, hv, hn⟩
        exact ⟨hl, hu, hm, hv.mono strict_le_lenient, hn⟩

/-- `{"a":1,"b":[true]}` -/
def twoMembers : Bytes :=
  [123, 34, 97, 34, 58, 49, 44, 34, 98, 34, 58, 91, 116, 114, 117, 101, 93, 125]

/-- What it denotes. -/
def twoEntries : List (Term × Term) := entriesOfMembers [(utf8All [97], .int 1), (utf8All [98], .list [sym "true"])]

theorem value_twoMembers : Value strict twoMembers (.map twoEntries) := by
  have hspace : Ws [] := by simp [Ws]
  have hname : ∀ {c : ℕ}, Scalar c → 0x20 ≤ c ∧ c ≠ 34 ∧ c ≠ 92 → Chars strict (utf8Encode c ++ []) [c] :=
    fun hs hc => .cons (.plain hs hc.1 hc.2.1 hc.2.2) .nil
  have hone : Value strict [49] (.int 1) :=
    .int ⟨[1], by decide, by decide, by decide, .inl ⟨by decide, by decide⟩⟩
  have htrue : Value strict (91 :: (([] ++ ([116, 114, 117, 101] ++ [])) ++ [93])) (.list [sym "true"]) :=
    .elements (.one hspace .true hspace)
  exact .members (.cons hspace (hname (c := 97) (by decide) (by decide)) hspace hspace hone hspace
    (.one hspace (hname (c := 98) (by decide) (by decide)) hspace hspace htrue hspace)) (by decide)

/-- An object of two members is decoded exactly. -/
theorem exact_iff_members : Exact twoMembers 18 := by
  have hdecode : decode twoMembers 18 = .ok (.map twoEntries) := by
    decide +kernel
  refine (exact_iff twoMembers 18 (by decide)).2 fun hl hu => ⟨fun ⟨hb, hs⟩ => ?_, ?_⟩
  · rw [(decode_eq_raised (by decide)).2 ⟨hl, hu, hb, hs⟩] at hdecode
    cases hdecode
  · rintro ⟨es, hv, hn, hns⟩
    have heq := (decode_eq_ok (v := .map es)).2 ⟨hl, hu, ⟨es, rfl⟩, hv, hn⟩
    rw [hdecode] at heq
    cases heq
    exact hns value_twoMembers

/-- `{"\u-001":1}` -/
def escapedNegative : Bytes := [123, 34, 92, 117, 45, 48, 48, 49, 34, 58, 49, 125]

theorem negativelyEscaped_escapedNegative : NegativelyEscaped escapedNegative := by
  have hneg : NegativeEscape [45, 48, 48, 49] := ⟨rfl, -1, by decide, by decide⟩
  have hstuck : StuckString 0 [92, 117, 45, 48, 48, 49, 34, 58, 49, 125] :=
    ⟨[], [], [45, 48, 48, 49], [34, 58, 49, 125], rfl, .nil, hneg, by decide⟩
  exact ⟨rfl, .object (.key (w := []) (by simp [Ws]) hstuck)⟩

/-- The decoder raises on `{"\u-001":1}`. -/
theorem decode_raises : ¬ ∀ (payload : Bytes) (limit : ℕ), 0 < limit → Exact payload limit := by
  intro h
  have hu : validUtf8 escapedNegative = true :=
    validUtf8_iff.2 ⟨[123, 34, 92, 117, 45, 48, 48, 49, 34, 58, 49, 125], by decide, by decide⟩
  obtain ⟨hb, hs⟩ := negativelyEscaped_escapedNegative
  have hr : decode escapedNegative 12 = .error .raised :=
    (decode_eq_raised (by decide)).2 ⟨by decide, hu, hb, hs⟩
  rcases (h escapedNegative 12 (by decide)).1 with ⟨v, hv⟩ | ⟨reason, hv⟩ <;> rw [hr] at hv <;> cases hv

end Loopex.Protocol.Frame
