import Loopex.Daemon.OutputBuffer
import Mathlib.Data.List.Nodup

/-!
# Custody of daemon output

What every buffer in use satisfies, whatever was asked of it: its counters are those of the frames it
retains, its commitment stays within its capacity, a reservation is never eaten up, and the frames leave in
the order they came.

* `Accounted` — the counters, the claimed head and the succession slots of a buffer
* `Ordered` — the retained and the emitted frames are the enqueued ones but the discarded, in order
* `output_custody` — both hold of every buffer in use, and the reserved room is there when it is asked for
* `output_custody_departs` — a reply without a notice makes the slot reusable, and no frame is empty
-/

namespace Loopex.Daemon

open Loopex.Erlang Loopex.Erlang.Term OutputBuffer

/-! ## sizes -/

def sizes (fs : List OutputFrame) : ℤ := (fs.map OutputFrame.size).sum

def progressOf (fs : List OutputFrame) : List OutputFrame := fs.filter fun f => f.kind = .progress

/-- The frames of a succession. -/
def slotsOf (fs : List OutputFrame) : List OutputFrame := fs.filter fun f => f.kind = .notice ∨ f.kind = .reply

@[simp] theorem sizes_nil : sizes [] = 0 := rfl

@[simp] theorem sizes_cons (f : OutputFrame) (fs : List OutputFrame) :
    sizes (f :: fs) = f.bytes.length + sizes fs := by
  simp [sizes, OutputFrame.size]

@[simp] theorem sizes_append (fs gs : List OutputFrame) : sizes (fs ++ gs) = sizes fs + sizes gs := by
  simp [sizes]

theorem sizes_nonneg (fs : List OutputFrame) : 0 ≤ sizes fs := by
  induction fs with
  | nil => simp
  | cons f fs ih => rw [sizes_cons]; omega

/-- The sizes of a queue are those of the frames that leave and those that stay. -/
theorem sizes_filter_add (p : OutputFrame → Bool) (fs : List OutputFrame) :
    sizes (fs.filter p) + sizes (fs.filter fun f => !p f) = sizes fs := by
  induction fs with
  | nil => simp
  | cons f fs ih =>
    cases h : p f <;> simp [h] <;> omega

@[simp] theorem progressOf_append (fs gs : List OutputFrame) :
    progressOf (fs ++ gs) = progressOf fs ++ progressOf gs := by
  simp [progressOf]

@[simp] theorem slotsOf_append (fs gs : List OutputFrame) : slotsOf (fs ++ gs) = slotsOf fs ++ slotsOf gs := by
  simp [slotsOf]

theorem progressOf_single (f : OutputFrame) : progressOf [f] = if f.kind = .progress then [f] else [] := by
  by_cases h : f.kind = .progress <;> simp [progressOf, h]

theorem slotsOf_single (f : OutputFrame) :
    slotsOf [f] = if f.kind = .notice ∨ f.kind = .reply then [f] else [] := by
  by_cases h : f.kind = .notice ∨ f.kind = .reply <;> simp [slotsOf, h]

/-! ## accounting -/

/-- The slots of a succession hold what its phase says. -/
def SlotsHold : Option Succession → List OutputFrame → Prop
  | none, slots => slots = []
  | some s, slots => 0 < s.noticeBytes ∧ 0 < s.replyBytes ∧
    match s.phase with
    | .reserved | .replyReady => slots = []
    | .noticePending ref size => size ≤ s.noticeBytes ∧
      ∃ bytes : Bytes, size = bytes.length ∧ slots = [⟨ref, bytes, .notice⟩]
    | .replyPending ref size => size ≤ s.replyBytes ∧
      ∃ bytes : Bytes, size = bytes.length ∧ slots = [⟨ref, bytes, .reply⟩]

/-- What a buffer satisfies after `made` references were made for it. -/
structure Accounted (b : OutputBuffer) (made : ℕ) : Prop where
  bytes : b.bytes = sizes b.frames
  items : b.progressItems = (progressOf b.frames).length
  progressBytes : b.progressBytes = sizes (progressOf b.frames)
  items_le : b.progressItems ≤ progressItemLimit
  progressBytes_le : b.progressBytes ≤ progressByteLimit
  within : b.commitment ≤ b.maxBytes
  nodup : (b.frames.map OutputFrame.ref).Nodup
  made : ∀ f ∈ b.frames, f.ref < made
  claimed : ∀ r, b.claim = some r → ∃ f rest, b.frames = f :: rest ∧ f.ref = r
  slots : SlotsHold b.succession (slotsOf b.frames)

theorem accounted_new {maxBytes : ℤ} (h : 0 < maxBytes) : Accounted (.new maxBytes) 0 where
  bytes := rfl
  items := rfl
  progressBytes := rfl
  items_le := by simp [new, progressItemLimit]
  progressBytes_le := by simp [new, progressByteLimit]
  within := by simp [new, commitment]; omega
  nodup := by simp [new]
  made := by simp [new]
  claimed := by simp [new]
  slots := rfl

variable {b b' : OutputBuffer} {made : ℕ} {events : List BufferEvent}

theorem Accounted.mono (h : Accounted b made) {made' : ℕ} (hle : made ≤ made') : Accounted b made' :=
  { h with made := fun f hf => lt_of_lt_of_le (h.made f hf) hle }

/-- A frame with the reference of a progress frame is a progress frame. -/
theorem Accounted.progress_of_ref (h : Accounted b made) {f : OutputFrame} (hf : f ∈ b.frames)
    (hr : f.ref ∈ b.progressRefs) : f.kind = .progress := by
  obtain ⟨g, hg, hgr⟩ := List.mem_map.1 hr
  obtain ⟨hg, hk⟩ := List.mem_filter.1 hg
  rw [← List.inj_on_of_nodup_map h.nodup hg hf hgr]
  exact of_decide_eq_true hk

/-- A frame at the end of the queue, admitted in a phase that reserves nothing for it. -/
theorem Accounted.push (h : Accounted b made) {bytes : Bytes} {kind : Kind} (s : Option Succession)
    (hitems : kind = .progress → b.progressItems < progressItemLimit ∧
      b.progressBytes + bytes.length ≤ progressByteLimit)
    (hwithin : ((b.pushWithRef made bytes kind).withSuccession s).commitment ≤ b.maxBytes)
    (hslots : SlotsHold s (slotsOf (b.frames ++ [⟨made, bytes, kind⟩]))) :
    Accounted ((b.pushWithRef made bytes kind).withSuccession s) (made + 1) where
  bytes := by
    have : ((b.pushWithRef made bytes kind).withSuccession s).bytes = b.bytes + bytes.length := by
      cases kind <;> rfl
    rw [this, h.bytes]
    simp [withSuccession]
  items := by
    by_cases hk : kind = .progress
    · subst hk
      simp [withSuccession, progressOf_single]
      simp [pushWithRef, h.items]
    · have : (b.pushWithRef made bytes kind).progressItems = b.progressItems := by
        simp [pushWithRef, hk]
      simp [withSuccession, progressOf_single, hk, this, h.items]
  progressBytes := by
    by_cases hk : kind = .progress
    · subst hk
      simp [withSuccession, progressOf_single]
      simp [pushWithRef, h.progressBytes]
    · have : (b.pushWithRef made bytes kind).progressBytes = b.progressBytes := by
        simp [pushWithRef, hk]
      simp [withSuccession, progressOf_single, hk, this, h.progressBytes]
  items_le := by
    by_cases hk : kind = .progress
    · have := (hitems hk).1
      simp only [withSuccession, pushWithRef, hk, if_true]
      omega
    · simpa [withSuccession, pushWithRef, hk] using h.items_le
  progressBytes_le := by
    by_cases hk : kind = .progress
    · have := (hitems hk).2
      simp only [withSuccession, pushWithRef, hk, if_true]
      omega
    · simpa [withSuccession, pushWithRef, hk] using h.progressBytes_le
  within := by
    have : ((b.pushWithRef made bytes kind).withSuccession s).maxBytes = b.maxBytes := by cases kind <;> rfl
    rw [this]
    exact hwithin
  nodup := by
    have hn : made ∉ b.frames.map OutputFrame.ref := by
      intro hm
      obtain ⟨f, hf, hr⟩ := List.mem_map.1 hm
      exact absurd (h.made f hf) (by omega)
    simpa [withSuccession, List.nodup_append] using ⟨h.nodup, fun f hf hr => hn (hr ▸ List.mem_map_of_mem hf)⟩
  made := by
    intro f hf
    simp only [withSuccession, frames_pushWithRef, List.mem_append, List.mem_singleton] at hf
    rcases hf with hf | rfl
    · exact Nat.lt_succ_of_lt (h.made f hf)
    · exact Nat.lt_succ_self _
  claimed := by
    intro r hr
    have hc : ((b.pushWithRef made bytes kind).withSuccession s).claim = b.claim := by cases kind <;> rfl
    obtain ⟨f, rest, hf, hfr⟩ := h.claimed r (hc ▸ hr)
    exact ⟨f, rest ++ [⟨made, bytes, kind⟩], by simp [withSuccession, hf], hfr⟩
  slots := by
    simpa [withSuccession] using hslots

theorem bytes_push (b : OutputBuffer) (ref : ℕ) (bytes : Bytes) (kind : Kind) :
    (b.pushWithRef ref bytes kind).bytes = b.bytes + bytes.length := by
  cases kind <;> rfl

/-- A frame that is no slot's leaves the succession. -/
theorem push_withSuccession (b : OutputBuffer) (ref : ℕ) (bytes : Bytes) (kind : Kind) :
    (b.pushWithRef ref bytes kind).withSuccession b.succession = b.pushWithRef ref bytes kind := by
  cases kind <;> rfl

theorem ordinaryAdmissible_eq_ok {size : ℤ} (h : b.ordinaryAdmissible size = .ok ()) :
    b.commitment + size ≤ b.maxBytes := by
  unfold ordinaryAdmissible at h
  split at h
  next hs =>
    split at h
    next hle => simpa [commitment, hs] using hle
    next => cases h
  next notice reply hs =>
    split at h
    next hle =>
      simp only [commitment, hs, Succession.unused]
      omega
    next => cases h
  next => cases h

theorem Accounted.ordinary (h : Accounted b made) {bytes : Bytes} {kind : Kind}
    (hk : kind = .ordinary ∨ kind = .progress) (ha : b.ordinaryAdmissible bytes.length = .ok ())
    (hitems : kind = .progress → b.progressItems < progressItemLimit ∧
      b.progressBytes + bytes.length ≤ progressByteLimit) :
    Accounted (b.pushWithRef made bytes kind) (made + 1) := by
  rw [← push_withSuccession]
  refine h.push b.succession hitems ?_ ?_
  · have hle := ordinaryAdmissible_eq_ok ha
    have hc : ((b.pushWithRef made bytes kind).withSuccession b.succession).commitment =
        b.commitment + bytes.length := by
      simp only [commitment, withSuccession, bytes_push]
      split <;> omega
    omega
  · have : slotsOf [⟨made, bytes, kind⟩] = [] := by
      rcases hk with rfl | rfl <;> simp [slotsOf_single]
    simpa [this] using h.slots

/-- The frames that leave with a discard are progress frames. -/
theorem Accounted.discarded_progress (h : Accounted b made) {refs : List Term}
    (hrefs : ∀ r ∈ refs, r ∈ b.progressRefs.map refTerm) {f : OutputFrame} (hf : f ∈ b.frames)
    (hr : refTerm f.ref ∈ refs) : f.kind = .progress := by
  obtain ⟨r, hr, he⟩ := List.mem_map.1 (hrefs _ hr)
  exact h.progress_of_ref hf (refTerm_inj.1 he ▸ hr)

theorem Accounted.discard (h : Accounted b made) {refs : List Term}
    (hrefs : ∀ r ∈ refs, r ∈ b.progressRefs.map refTerm) (hclaim : ∀ r, b.claim = some r → refTerm r ∉ refs) :
    Accounted (b.without refs) made := by
  have hprogress : ∀ f ∈ b.frames, refTerm f.ref ∈ refs → f.kind = .progress :=
    fun f hf => h.discarded_progress hrefs hf
  have hd : b.frames.filter (fun f => refTerm f.ref ∈ refs) =
      (progressOf b.frames).filter fun f => refTerm f.ref ∈ refs := by
    simp only [progressOf, List.filter_filter]
    refine List.filter_congr fun f hf => ?_
    by_cases hr : refTerm f.ref ∈ refs <;> simp [hr, hprogress f hf]
  have hk : progressOf (b.frames.filter fun f => refTerm f.ref ∉ refs) =
      (progressOf b.frames).filter fun f => !decide (refTerm f.ref ∈ refs) := by
    simp only [progressOf, List.filter_filter, decide_not, Bool.and_comm]
  have hsum := sizes_filter_add (fun f => decide (refTerm f.ref ∈ refs)) b.frames
  have hsumP := sizes_filter_add (fun f => decide (refTerm f.ref ∈ refs)) (progressOf b.frames)
  have hlenP := List.length_eq_length_filter_add (l := progressOf b.frames) fun f => decide (refTerm f.ref ∈ refs)
  have hnonneg := sizes_nonneg (b.frames.filter fun f => refTerm f.ref ∈ refs)
  have hbytes := h.bytes
  have hitems := h.items
  have hpbytes := h.progressBytes
  refine ⟨?_, ?_, ?_, ?_, ?_, ?_, ?_, ?_, ?_, ?_⟩
  · simp only [without, decide_not, ← sizes.eq_1]
    omega
  · simp only [without, hk, hd]
    omega
  · simp only [without, hk, ← sizes.eq_1]
    rw [hd]
    omega
  · have := h.items_le
    simp only [without]
    omega
  · have := h.progressBytes_le
    simp only [without, ← sizes.eq_1]
    omega
  · have := h.within
    simp only [commitment, without, ← sizes.eq_1] at this ⊢
    split at this <;> simp_all <;> omega
  · exact h.nodup.sublist ((List.filter_sublist).map _)
  · exact fun f hf => h.made f (List.mem_filter.1 hf).1
  · intro r hr
    obtain ⟨f, rest, hf, rfl⟩ := h.claimed r hr
    have := hclaim _ hr
    exact ⟨f, rest.filter fun g => refTerm g.ref ∉ refs, by simp [without, hf, this], rfl⟩
  · have : slotsOf (b.without refs).frames = slotsOf b.frames := by
      simp only [slotsOf, without, List.filter_filter]
      refine List.filter_congr fun f hf => ?_
      by_cases hr : refTerm f.ref ∈ refs <;> simp [hr, hprogress f hf]
    rw [this]
    exact h.slots

theorem advanceSuccession_eq (b : OutputBuffer) (kind : Kind) (ref : ℕ) :
    b.advanceSuccession kind ref = b.withSuccession (b.advanceSuccession kind ref).succession := by
  unfold advanceSuccession
  split <;> [skip; skip; rfl] <;> split <;> rfl

/-- The head before it advances the succession. -/
theorem dropHead_fields (b : OutputBuffer) (f : OutputFrame) (rest : List OutputFrame) :
    (b.dropHead f rest).frames = rest ∧ (b.dropHead f rest).bytes = b.bytes - f.bytes.length ∧
      (b.dropHead f rest).claim = none ∧ (b.dropHead f rest).maxBytes = b.maxBytes ∧
      (b.dropHead f rest).progressItems = b.progressItems - (progressOf [f]).length ∧
      (b.dropHead f rest).progressBytes = b.progressBytes - sizes (progressOf [f]) := by
  unfold dropHead
  simp only
  rw [advanceSuccession_eq]
  by_cases hk : f.kind = .progress <;> simp [withSuccession, hk, progressOf_single]

theorem succession_advance {b c : OutputBuffer} (h : c.succession = b.succession) (kind : Kind) (ref : ℕ) :
    (c.advanceSuccession kind ref).succession = (b.advanceSuccession kind ref).succession := by
  obtain ⟨_, _, _, _, _, _, s⟩ := b
  obtain ⟨_, _, _, _, _, _, s'⟩ := c
  obtain rfl : s' = s := h
  unfold advanceSuccession
  simp only
  split <;> [skip; skip; rfl] <;> split <;> rfl

theorem dropHead_succession (b : OutputBuffer) (f : OutputFrame) (rest : List OutputFrame) :
    (b.dropHead f rest).succession = (b.advanceSuccession f.kind f.ref).succession := by
  unfold dropHead
  refine succession_advance ?_ f.kind f.ref
  split <;> rfl

/-- The emission of a slot's frame makes the reply slot ready, any other leaves the succession. -/
theorem Accounted.advance (h : Accounted b made) {f : OutputFrame} {rest : List OutputFrame}
    (hf : b.frames = f :: rest) :
    (f.kind = .notice ∧ ∃ n r : ℤ, b.succession = some ⟨n, r, .noticePending f.ref f.bytes.length⟩ ∧
        (b.dropHead f rest).succession = some ⟨n, r, .replyReady⟩ ∧ slotsOf rest = []) ∨
      (f.kind = .reply ∧ ∃ n r : ℤ, b.succession = some ⟨n, r, .replyPending f.ref f.bytes.length⟩ ∧
        (b.dropHead f rest).succession = some ⟨n, r, .replyReady⟩ ∧ slotsOf rest = []) ∨
      (f.kind ≠ .notice ∧ f.kind ≠ .reply ∧ (b.dropHead f rest).succession = b.succession ∧
        slotsOf b.frames = slotsOf rest) := by
  have hs := h.slots
  have hsplit : slotsOf b.frames = slotsOf [f] ++ slotsOf rest := by rw [hf, ← slotsOf_append]; rfl
  rw [dropHead_succession]
  by_cases hslot : f.kind = .notice ∨ f.kind = .reply
  · rw [slotsOf_single, if_pos hslot] at hsplit
    rw [hsplit] at hs
    cases hb : b.succession with
    | none => simp [hb, SlotsHold] at hs
    | some s =>
      obtain ⟨n, r, phase⟩ := s
      rw [hb] at hs
      obtain ⟨-, -, hs⟩ := hs
      cases phase with
      | reserved => simp at hs
      | replyReady => simp at hs
      | noticePending ref size =>
        obtain ⟨-, bytes, rfl, hs⟩ := hs
        obtain ⟨rfl, hrest⟩ := List.cons.inj hs
        exact .inl ⟨rfl, n, r, rfl, by simp [advanceSuccession, hb, withSuccession], hrest⟩
      | replyPending ref size =>
        obtain ⟨-, bytes, rfl, hs⟩ := hs
        obtain ⟨rfl, hrest⟩ := List.cons.inj hs
        exact .inr (.inl ⟨rfl, n, r, rfl, by simp [advanceSuccession, hb, withSuccession], hrest⟩)
  · rw [slotsOf_single, if_neg hslot, List.nil_append] at hsplit
    obtain ⟨hn, hr⟩ := not_or.1 hslot
    refine .inr (.inr ⟨hn, hr, ?_, hsplit⟩)
    unfold advanceSuccession
    split
    next heq => exact absurd heq hn
    next heq => exact absurd heq hr
    next => rfl

theorem Accounted.emit (h : Accounted b made) {f : OutputFrame} {rest : List OutputFrame}
    (hf : b.frames = f :: rest) : Accounted (b.dropHead f rest) made := by
  obtain ⟨hframes, hbytes, hclaim, hmax, hitems, hpbytes⟩ := dropHead_fields b f rest
  have hb : b.bytes = f.bytes.length + sizes rest := by rw [h.bytes, hf, sizes_cons]
  have hi : b.progressItems = (progressOf [f]).length + (progressOf rest).length := by
    rw [h.items, hf, ← List.singleton_append, progressOf_append, List.length_append]
    push_cast
    rfl
  have hp : b.progressBytes = sizes (progressOf [f]) + sizes (progressOf rest) := by
    rw [h.progressBytes, hf, ← List.singleton_append, progressOf_append, sizes_append]
  have hnonneg := sizes_nonneg (progressOf [f])
  have hnodup := h.nodup
  rw [hf] at hnodup
  refine ⟨?_, ?_, ?_, ?_, ?_, ?_, ?_, ?_, ?_, ?_⟩
  · rw [hbytes, hframes]
    omega
  · rw [hitems, hframes]
    omega
  · rw [hpbytes, hframes]
    omega
  · have := h.items_le
    omega
  · have := h.progressBytes_le
    omega
  · have hw := h.within
    rw [hmax]
    have hslots := h.slots
    rcases h.advance hf with ⟨-, n, r, hs, hs', -⟩ | ⟨-, n, r, hs, hs', -⟩ | ⟨-, -, hs', -⟩
    · rw [hs] at hslots
      obtain ⟨-, -, hle, -⟩ := hslots
      simp only [commitment, hs, hs', Succession.unused, hbytes] at hw hle ⊢
      omega
    · simp only [commitment, hs, hs', Succession.unused, hbytes] at hw ⊢
      omega
    · simp only [commitment, hs', hbytes] at hw ⊢
      split at hw <;> simp_all <;> omega
  · rw [hframes]
    exact (List.nodup_cons.1 hnodup).2
  · intro g hg
    rw [hframes] at hg
    exact h.made g (by simp [hf, hg])
  · intro r hr
    rw [hclaim] at hr
    cases hr
  · rw [hframes]
    have hslots := h.slots
    rcases h.advance hf with ⟨-, n, r, hs, hs', hrest⟩ | ⟨-, n, r, hs, hs', hrest⟩ | ⟨-, -, hs', hrest⟩
    · rw [hs] at hslots
      rw [hs', hrest]
      exact ⟨hslots.1, hslots.2.1, rfl⟩
    · rw [hs] at hslots
      rw [hs', hrest]
      exact ⟨hslots.1, hslots.2.1, rfl⟩
    · rw [hs', ← hrest]
      exact hslots

/-- A succession that changes while the frames stay. -/
theorem Accounted.withSuccession (h : Accounted b made) (s : Option Succession)
    (hwithin : (b.withSuccession s).commitment ≤ b.maxBytes) (hslots : SlotsHold s (slotsOf b.frames)) :
    Accounted (b.withSuccession s) made :=
  ⟨h.bytes, h.items, h.progressBytes, h.items_le, h.progressBytes_le, hwithin, h.nodup, h.made, h.claimed, hslots⟩

theorem Accounted.bytes_le (h : Accounted b made) : b.bytes ≤ b.commitment := by
  have hslots := h.slots
  cases hs : b.succession with
  | none => simp [commitment, hs]
  | some s =>
    obtain ⟨n, r, phase⟩ := s
    rw [hs] at hslots
    obtain ⟨hn, hr, hslots⟩ := hslots
    simp only [commitment, hs, Succession.unused]
    cases phase with
    | reserved => simp at *; omega
    | replyReady => simp at *; omega
    | noticePending ref size =>
      have := hslots.1
      simp at *
      omega
    | replyPending ref size =>
      have := hslots.1
      simp at *
      omega

/-- **A move keeps the accounting.** -/
theorem Accounted.move (h : Accounted b made) (hm : BufferMove b made b' events) :
    Accounted b' (made + 1) := by
  cases hm with
  | refused => exact h.mono (Nat.le_succ _)
  | ordinary bytes hpos ha => exact h.ordinary (.inl rfl) ha (by simp)
  | progress bytes hpos ha hitems hbytes => exact h.ordinary (.inr rfl) ha fun _ => ⟨hitems, hbytes⟩
  | discard refs hprogress hclaim => exact (h.discard hprogress hclaim).mono (Nat.le_succ _)
  | reserve notice reply hs hn hr hlt hle =>
    refine (h.withSuccession _ ?_ ?_).mono (Nat.le_succ _)
    · simp only [commitment, OutputBuffer.withSuccession, Succession.unused]
      omega
    · have hslots := h.slots
      rw [hs] at hslots
      exact ⟨hn, hr, hslots⟩
  | release notice reply hs =>
    have hslots := h.slots
    rw [hs] at hslots
    refine (h.withSuccession none ?_ hslots.2.2).mono (Nat.le_succ _)
    exact h.bytes_le.trans h.within
  | finish notice reply hs =>
    have hslots := h.slots
    rw [hs] at hslots
    refine (h.withSuccession none ?_ hslots.2.2).mono (Nat.le_succ _)
    exact h.bytes_le.trans h.within
  | notice bytes allowance reply hpos hs hle =>
    have hslots := h.slots
    rw [hs] at hslots
    obtain ⟨hn, hr, hslots⟩ := hslots
    refine h.push _ (by simp) ?_ ⟨hn, hr, hle, bytes, rfl, ?_⟩
    · have hw := h.within
      simp only [commitment, hs, OutputBuffer.withSuccession, Succession.unused, bytes_push] at hw ⊢
      omega
    · rw [slotsOf_append, slotsOf_single, if_pos (by simp), hslots, List.nil_append]
  | reply bytes notice allowance waived hpos hs hle =>
    have hslots := h.slots
    rw [hs] at hslots
    obtain ⟨hn, hr, hslots⟩ := hslots
    refine h.push _ (by simp) ?_ ⟨hn, hr, hle, bytes, rfl, ?_⟩
    · have hw := h.within
      cases waived <;>
        simp [commitment, hs, OutputBuffer.withSuccession, Succession.unused, bytes_push] at hw hn ⊢ <;> omega
    · have : slotsOf b.frames = [] := by cases waived <;> simpa using hslots
      rw [slotsOf_append, slotsOf_single, if_pos (by simp), this, List.nil_append]
  | claim f rest hf hc =>
    refine ⟨h.bytes, h.items, h.progressBytes, h.items_le, h.progressBytes_le, h.within, h.nodup,
      fun g hg => Nat.lt_succ_of_lt (h.made g hg), ?_, h.slots⟩
    intro r hr
    exact ⟨f, rest, hf, Option.some.inj hr⟩
  | emit f rest hf hc => exact (h.emit hf).mono (Nat.le_succ _)

/-! ## the log -/

def enqueuedOf (log : List BufferEvent) : List OutputFrame :=
  log.filterMap fun
    | .enqueued f _ => some f
    | _ => none

def emittedOf (log : List BufferEvent) : List OutputFrame :=
  log.filterMap fun
    | .emitted f => some f
    | _ => none

def discardedOf (log : List BufferEvent) : List OutputFrame :=
  log.flatMap fun
    | .discarded fs => fs
    | _ => []

/-- What was logged since the reservation in force was made. -/
def sinceReserved (log : List BufferEvent) : List BufferEvent :=
  (log.reverse.takeWhile fun e => e ≠ .reserved).reverse

/-- The notice of the reservation is out, or a reply went without one. -/
def Opened (log : List BufferEvent) : Prop :=
  ∃ e ∈ sinceReserved log, (∃ f, e = .emitted f ∧ f.kind = .notice) ∨ ∃ f, e = .enqueued f true

theorem sinceReserved_append {log : List BufferEvent} {e : BufferEvent} (h : e ≠ .reserved) :
    sinceReserved (log ++ [e]) = sinceReserved log ++ [e] := by
  simp [sinceReserved, h]

theorem Opened.append {log : List BufferEvent} (h : Opened log) {e : BufferEvent} (he : e ≠ .reserved) :
    Opened (log ++ [e]) := by
  obtain ⟨e', hmem, h'⟩ := h
  exact ⟨e', by rw [sinceReserved_append he]; simp [hmem], h'⟩

theorem opened_last {log : List BufferEvent} {e : BufferEvent} (he : e ≠ .reserved)
    (h : (∃ f, e = .emitted f ∧ f.kind = .notice) ∨ ∃ f, e = .enqueued f true) : Opened (log ++ [e]) :=
  ⟨e, by rw [sinceReserved_append he]; simp, h⟩

/-- What a line satisfies besides the accounting of its buffer. -/
structure Ordered (l : Line) : Prop where
  /-- The retained frames follow the emitted ones, in the order of the enqueued ones. -/
  order : emittedOf l.log ++ l.buffer.frames = (enqueuedOf l.log).filter fun f => f ∉ discardedOf l.log
  nodup : ((enqueuedOf l.log).map OutputFrame.ref).Nodup
  made : ∀ f ∈ enqueuedOf l.log, f.ref < l.made
  discarded : ∀ f ∈ discardedOf l.log, f ∈ enqueuedOf l.log ∧ f.kind = .progress
  opened : ∀ s, l.buffer.succession = some s →
    (s.phase = .replyReady ∨ ∃ ref size, s.phase = .replyPending ref size) → Opened l.log

@[simp] theorem enqueuedOf_append (log log' : List BufferEvent) :
    enqueuedOf (log ++ log') = enqueuedOf log ++ enqueuedOf log' := by
  simp [enqueuedOf]

@[simp] theorem emittedOf_append (log log' : List BufferEvent) :
    emittedOf (log ++ log') = emittedOf log ++ emittedOf log' := by
  simp [emittedOf]

@[simp] theorem discardedOf_append (log log' : List BufferEvent) :
    discardedOf (log ++ log') = discardedOf log ++ discardedOf log' := by
  simp [discardedOf]

variable {l l' : Line}

theorem Ordered.discarded_lt (h : Ordered l) {f : OutputFrame} (hf : f ∈ discardedOf l.log) : f.ref < l.made :=
  h.made f (h.discarded f hf).1

/-- The retained and the emitted frames have references of their own. -/
theorem Ordered.retained_nodup (h : Ordered l) :
    ((emittedOf l.log ++ l.buffer.frames).map OutputFrame.ref).Nodup := by
  rw [h.order]
  exact h.nodup.sublist (List.filter_sublist.map _)

/-- The order of a line that enqueued one frame. -/
theorem Ordered.enqueue (h : Ordered l) {f : OutputFrame} {waived : Bool} (hf : f.ref = l.made)
    (hlog : l'.log = l.log ++ [.enqueued f waived]) (hmade : l.made < l'.made)
    (hframes : l'.buffer.frames = l.buffer.frames ++ [f])
    (hopened : ∀ s, l'.buffer.succession = some s →
      (s.phase = .replyReady ∨ ∃ ref size, s.phase = .replyPending ref size) → Opened l'.log) : Ordered l' := by
  have he : enqueuedOf l'.log = enqueuedOf l.log ++ [f] := by simp [hlog, enqueuedOf]
  have hd : discardedOf l'.log = discardedOf l.log := by simp [hlog, discardedOf]
  have hm : emittedOf l'.log = emittedOf l.log := by simp [hlog, emittedOf]
  have hnew : f ∉ discardedOf l.log := fun hf' => absurd (h.discarded_lt hf') (by omega)
  refine ⟨?_, ?_, ?_, ?_, hopened⟩
  · rw [hm, hframes, he, hd, List.filter_append, ← h.order, List.append_assoc]
    simp [hnew]
  · rw [he, List.map_append, List.nodup_append]
    refine ⟨h.nodup, by simp, ?_⟩
    intro r hr r' hr' heq
    obtain ⟨g, hg, rfl⟩ := List.mem_map.1 hr
    have := h.made g hg
    simp only [List.map_cons, List.map_nil, List.mem_singleton] at hr'
    omega
  · intro g hg
    rw [he, List.mem_append, List.mem_singleton] at hg
    rcases hg with hg | rfl
    · exact (h.made g hg).trans hmade
    · omega
  · intro g hg
    rw [hd] at hg
    rw [he]
    exact ⟨List.mem_append_left _ (h.discarded g hg).1, (h.discarded g hg).2⟩

/-- The order of a line whose frames and frame events stay. -/
theorem Ordered.keep (h : Ordered l) {events : List BufferEvent} (hlog : l'.log = l.log ++ events)
    (hevents : ∀ e ∈ events, e = .reserved) (hmade : l.made ≤ l'.made)
    (hframes : l'.buffer.frames = l.buffer.frames)
    (hopened : ∀ s, l'.buffer.succession = some s →
      (s.phase = .replyReady ∨ ∃ ref size, s.phase = .replyPending ref size) → Opened l'.log) : Ordered l' := by
  have he : enqueuedOf l'.log = enqueuedOf l.log := by
    rw [hlog, enqueuedOf_append, List.append_right_eq_self]
    exact List.filterMap_eq_nil_iff.2 fun e he => by rw [hevents e he]
  have hd : discardedOf l'.log = discardedOf l.log := by
    rw [hlog, discardedOf_append, List.append_right_eq_self]
    exact List.flatMap_eq_nil_iff.2 fun e he => by rw [hevents e he]
  have hm : emittedOf l'.log = emittedOf l.log := by
    rw [hlog, emittedOf_append, List.append_right_eq_self]
    exact List.filterMap_eq_nil_iff.2 fun e he => by rw [hevents e he]
  refine ⟨by rw [he, hd, hm, hframes, h.order], by rw [he]; exact h.nodup, ?_, ?_, hopened⟩
  · intro f hf
    exact lt_of_lt_of_le (h.made f (he ▸ hf)) hmade
  · rw [he, hd]
    exact h.discarded

theorem Ordered.discard (h : Ordered l) {refs : List Term}
    (hprogress : ∀ f ∈ l.buffer.frames, refTerm f.ref ∈ refs → f.kind = .progress)
    (hlog : l'.log = l.log ++ [.discarded (l.buffer.frames.filter fun f => refTerm f.ref ∈ refs)])
    (hmade : l.made ≤ l'.made)
    (hframes : l'.buffer.frames = l.buffer.frames.filter fun f => refTerm f.ref ∉ refs)
    (hopened : ∀ s, l'.buffer.succession = some s →
      (s.phase = .replyReady ∨ ∃ ref size, s.phase = .replyPending ref size) → Opened l'.log) : Ordered l' := by
  have he : enqueuedOf l'.log = enqueuedOf l.log := by simp [hlog, enqueuedOf]
  have hm : emittedOf l'.log = emittedOf l.log := by simp [hlog, emittedOf]
  have hd : discardedOf l'.log =
      discardedOf l.log ++ l.buffer.frames.filter fun f => refTerm f.ref ∈ refs := by
    simp [hlog, discardedOf]
  have hdisjoint : ∀ f ∈ emittedOf l.log, f ∉ l.buffer.frames := by
    intro f hf hf'
    have := h.retained_nodup
    rw [List.map_append, List.nodup_append] at this
    exact this.2.2 _ (List.mem_map_of_mem hf) _ (List.mem_map_of_mem hf') rfl
  have hsub : ∀ f ∈ l.buffer.frames, f ∈ enqueuedOf l.log := by
    intro f hf
    have : f ∈ emittedOf l.log ++ l.buffer.frames := List.mem_append_right _ hf
    rw [h.order] at this
    exact (List.mem_filter.1 this).1
  refine ⟨?_, by rw [he]; exact h.nodup, ?_, ?_, hopened⟩
  · have hfilter : (enqueuedOf l.log).filter (fun f => f ∉ discardedOf l'.log) =
        (emittedOf l.log ++ l.buffer.frames).filter fun f =>
          f ∉ l.buffer.frames.filter fun f => refTerm f.ref ∈ refs := by
      rw [h.order, List.filter_filter, hd]
      refine List.filter_congr fun f _ => ?_
      simp [List.mem_append, not_or, Bool.and_comm]
    rw [he, hm, hframes, hfilter, List.filter_append]
    congr 1
    · symm
      rw [List.filter_eq_self]
      intro f hf
      simp [hdisjoint f hf]
    · refine List.filter_congr fun f hf => ?_
      simp [hf]
  · intro f hf
    exact lt_of_lt_of_le (h.made f (he ▸ hf)) hmade
  · intro f hf
    rw [hd, List.mem_append] at hf
    rw [he]
    rcases hf with hf | hf
    · exact h.discarded f hf
    · obtain ⟨hf, hr⟩ := List.mem_filter.1 hf
      exact ⟨hsub f hf, hprogress f hf (of_decide_eq_true hr)⟩

theorem Ordered.emit (h : Ordered l) {f : OutputFrame} (hf : l.buffer.frames = f :: l'.buffer.frames)
    (hlog : l'.log = l.log ++ [.emitted f]) (hmade : l.made ≤ l'.made)
    (hopened : ∀ s, l'.buffer.succession = some s →
      (s.phase = .replyReady ∨ ∃ ref size, s.phase = .replyPending ref size) → Opened l'.log) : Ordered l' := by
  have he : enqueuedOf l'.log = enqueuedOf l.log := by simp [hlog, enqueuedOf]
  have hm : emittedOf l'.log = emittedOf l.log ++ [f] := by simp [hlog, emittedOf]
  have hd : discardedOf l'.log = discardedOf l.log := by simp [hlog, discardedOf]
  refine ⟨?_, by rw [he]; exact h.nodup, ?_, ?_, hopened⟩
  · rw [hm, he, hd, ← h.order, hf]
    simp
  · intro g hg
    exact lt_of_lt_of_le (h.made g (he ▸ hg)) hmade
  · rw [he, hd]
    exact h.discarded

theorem succession_push (b : OutputBuffer) (ref : ℕ) (bytes : Bytes) (kind : Kind) :
    (b.pushWithRef ref bytes kind).succession = b.succession := by
  cases kind <;> rfl

/-- **A move keeps the order.** -/
theorem Ordered.move (h : Ordered l) (ha : Accounted l.buffer l.made)
    (hm : BufferMove l.buffer l.made l'.buffer events) (hlog : l'.log = l.log ++ events)
    (hmade : l'.made = l.made + 1) : Ordered l' := by
  have hle : l.made ≤ l'.made := hmade ▸ Nat.le_succ _
  have hlt : l.made < l'.made := hmade ▸ Nat.lt_succ_self _
  -- what opened the reply slot stays in the log as long as no reservation is made
  have kept : ∀ {e : BufferEvent}, e ≠ .reserved → l'.log = l.log ++ [e] →
      l'.buffer.succession = l.buffer.succession → ∀ s, l'.buffer.succession = some s →
        (s.phase = .replyReady ∨ ∃ ref size, s.phase = .replyPending ref size) → Opened l'.log := by
    intro e he hl hsame s hs hp
    rw [hl]
    exact (h.opened s (hsame ▸ hs) hp).append he
  obtain ⟨b', made', log'⟩ := l'
  simp only at hm hlog hle hlt
  subst hlog
  cases hm with
  | refused => exact h.keep rfl (by simp) hle rfl (by simpa using h.opened)
  | ordinary bytes hpos hadm =>
    exact h.enqueue rfl rfl hlt (by simp) (kept (by simp) rfl (succession_push _ _ _ _))
  | progress bytes hpos hadm hitems hbytes =>
    exact h.enqueue rfl rfl hlt (by simp) (kept (by simp) rfl (succession_push _ _ _ _))
  | discard refs hprogress hclaim =>
    exact h.discard (fun f hf => ha.discarded_progress hprogress hf) rfl hle rfl (kept (by simp) rfl rfl)
  | reserve notice reply hs hn hr _ _ =>
    refine h.keep rfl (by simp) hle rfl ?_
    intro s hs' hp
    obtain rfl := Option.some.inj hs'
    simp at hp
  | release notice reply hs =>
    refine h.keep rfl (by simp) hle rfl ?_
    intro s hs' hp
    cases hs'
  | finish notice reply hs =>
    refine h.keep rfl (by simp) hle rfl ?_
    intro s hs' hp
    cases hs'
  | notice bytes allowance reply hpos hs hle =>
    refine h.enqueue rfl rfl hlt (by simp [withSuccession]) ?_
    intro s hs' hp
    obtain rfl := Option.some.inj hs'
    simp at hp
  | reply bytes notice allowance waived hpos hs hle =>
    refine h.enqueue rfl rfl hlt (by simp [withSuccession]) ?_
    intro s hs' hp
    cases waived with
    | true => exact opened_last (by simp) (.inr ⟨_, rfl⟩)
    | false => exact (h.opened _ hs (.inl rfl)).append (by simp)
  | claim f rest hf hc => exact h.keep rfl (by simp) hle rfl (by simpa using h.opened)
  | emit f rest hf hc =>
    have hframes := (dropHead_fields l.buffer f rest).1
    refine h.emit (by rw [hframes]; exact hf) rfl hle ?_
    rcases ha.advance hf with ⟨hk, n, r, hs, hs', -⟩ | ⟨-, n, r, hs, hs', -⟩ | ⟨-, -, hs', -⟩
    · exact fun _ _ _ => opened_last (by simp) (.inl ⟨f, rfl, hk⟩)
    · exact fun _ _ _ => (h.opened _ hs (.inr ⟨_, _, rfl⟩)).append (by simp)
    · exact kept (by simp) rfl hs'

/-- The accounting and the order hold of every line. -/
theorem custody_after {maxBytes : ℤ} (h : 0 < maxBytes) (ops : List BufferOp) :
    Accounted (Line.after maxBytes ops).buffer (Line.after maxBytes ops).made ∧
      Ordered (Line.after maxBytes ops) := by
  refine (Line.run_after maxBytes ops).invariant
    (I := fun l => Accounted l.buffer l.made ∧ Ordered l) ?_ ?_
  · refine ⟨accounted_new h, ⟨rfl, ?_, ?_, ?_, ?_⟩⟩ <;> simp [Line.start, new, enqueuedOf, discardedOf]
  · rintro l op _ ⟨ha, ho⟩ rfl
    obtain ⟨events, hm, hlog, hmade⟩ := l.next_moves op
    exact ⟨hmade ▸ ha.move hm, ho.move ha hm hlog hmade⟩

/-! ## the reserved room -/

variable {encoded : Term} {bytes : Bytes} {s : Succession}

/-- A notice that fits the reservation fits the buffer. -/
theorem Accounted.notice_admitted (h : Accounted b made) (hs : b.succession = some s) (hp : s.phase = .reserved)
    (he : encodedBinary encoded = some bytes) (hle : (bytes.length : ℤ) ≤ s.noticeBytes) (ref : ℕ) :
    ∃ b', b.enqueueSuccessionNotice ref encoded = .ok b' := by
  obtain ⟨notice, reply, phase⟩ := s
  obtain rfl : phase = .reserved := hp
  have hw := h.within
  have hslots := h.slots
  rw [hs] at hslots
  have hr : 0 < reply := hslots.2.1
  simp only [commitment, hs, Succession.unused] at hw hle
  have hcap : b.bytes + bytes.length ≤ b.maxBytes := by omega
  simp only [enqueueSuccessionNotice, hs, he, if_pos (And.intro hle hcap)]
  exact ⟨_, rfl⟩

/-- A reply that fits the reservation fits the buffer. -/
theorem Accounted.reply_admitted (h : Accounted b made) (hs : b.succession = some s)
    (he : encodedBinary encoded = some bytes) (hle : (bytes.length : ℤ) ≤ s.replyBytes) (ref : ℕ) :
    (s.phase = .replyReady → ∃ b', b.enqueueSuccessionReply ref encoded (sym "false") = .ok b') ∧
      (s.phase = .reserved → ∃ b', b.enqueueSuccessionReply ref encoded (sym "true") = .ok b') := by
  obtain ⟨notice, reply, phase⟩ := s
  have hw := h.within
  have hslots := h.slots
  rw [hs] at hslots
  have hn : 0 < notice := hslots.1
  constructor
  all_goals
    intro hp
    obtain rfl : phase = _ := hp
    simp only [commitment, hs, Succession.unused] at hw hle
    have hcap : b.bytes + bytes.length ≤ b.maxBytes := by omega
    simp only [enqueueSuccessionReply, hs, if_true, enqueueReply, he, if_pos (And.intro hle hcap)]
    exact ⟨_, rfl⟩

/-- The frame that leaves is the head; a slot's frame leaves the reply slot ready. -/
theorem Accounted.emitted_head (h : Accounted b made) {t : Term} (he : b.emitted t = .ok b') :
    ∃ f, b.frames = f :: b'.frames ∧ b.claim = some f.ref ∧ (f.kind = .notice ∨ f.kind = .reply →
      ∃ s, b.succession = some s ∧ b'.succession = some { s with phase := .replyReady }) := by
  obtain ⟨f, rest, hf, hc, -, rfl⟩ := emitted_eq_ok he
  refine ⟨f, by rw [(dropHead_fields b f rest).1]; exact hf, hc, fun hk => ?_⟩
  rcases h.advance hf with ⟨-, n, r, hs, hs', -⟩ | ⟨-, n, r, hs, hs', -⟩ | ⟨hn, hr, -, -⟩
  · exact ⟨_, hs, hs'⟩
  · exact ⟨_, hs, hs'⟩
  · exact absurd hk (by simp [hn, hr])

/-- The discard of the unclaimed progress is never refused. -/
theorem Accounted.discardUnclaimed (h : Accounted b made) : b.discardUnclaimedProgress.isSome := by
  have hlen : b.unclaimedRefs.length ≤ 32 := by
    have hitems := h.items
    have hle := h.items_le
    have : b.unclaimedRefs.length ≤ b.progressRefs.length := List.length_filter_le _ _
    simp only [progressRefs, List.length_map] at this
    simp only [progressItemLimit, progressOf] at hitems hle
    omega
  have hnodup : (b.unclaimedRefs.map refTerm).Nodup := by
    refine (List.Nodup.filter _ ?_).map fun _ _ he => refTerm_inj.1 he
    exact h.nodup.sublist (List.filter_sublist.map _)
  have hmem : ∀ r ∈ b.unclaimedRefs.map refTerm, r ∈ b.progressRefs.map refTerm := by
    intro r hr
    obtain ⟨ref, hmem, rfl⟩ := List.mem_map.1 hr
    exact List.mem_map_of_mem (List.mem_filter.1 hmem).1
  have href : (b.unclaimedRefs.map refTerm).all isReference = true := by
    simp [refTerm, isReference]
  have hclaim : ∀ r, b.claim = some r → refTerm r ∉ b.unclaimedRefs.map refTerm := by
    intro r hr hm
    obtain ⟨r', hmem, he⟩ := List.mem_map.1 hm
    obtain rfl := refTerm_inj.1 he
    simpa [hr] using (List.mem_filter.1 hmem).2
  have hd : b.discardProgress (.list (b.unclaimedRefs.map refTerm)) =
      .ok (b.without (b.unclaimedRefs.map refTerm)) := by
    simp only [discardProgress, List.length_map]
    rw [if_pos hlen, if_pos ⟨hnodup, href, hmem⟩]
    cases hc : b.claim with
    | none => rfl
    | some r => simp only [if_neg (hclaim r hc)]
  simp [discardUnclaimedProgress, hd]

/-- At most one frame of a kind is retained in a slot. -/
theorem Accounted.replies (h : Accounted b made) : (b.frames.filter fun f => f.kind = .reply).length ≤ 1 := by
  have hle : (b.frames.filter fun f => f.kind = .reply).length ≤ (slotsOf b.frames).length := by
    refine (List.monotone_filter_right b.frames fun f hf => ?_).length_le
    simp_all
  have hone : (slotsOf b.frames).length ≤ 1 := by
    have hslots := h.slots
    revert hslots
    generalize slotsOf b.frames = slots
    intro hslots
    unfold SlotsHold at hslots
    split at hslots
    next => simp [hslots]
    next s =>
      obtain ⟨-, -, hslots⟩ := hslots
      split at hslots
      next => simp [hslots]
      next => simp [hslots]
      next =>
        obtain ⟨-, _, -, rfl⟩ := hslots
        simp
      next =>
        obtain ⟨-, _, -, rfl⟩ := hslots
        simp
  omega

/-! ## custody -/

/-- **The custody of output.**  After any operations on a new buffer the counters are those of the retained
frames, the progress stays within its limits and the commitment within the capacity; the claimed frame is the
head, and what leaves is the claimed frame; a reservation admits a notice, and a ready slot a reply, of any
nonempty size up to its own; the emitted frames and then the retained ones are the enqueued ones, each once
and in order, but for discarded progress; at most one reply is retained, and where one is admitted under the
plain option, the reservation in force had its notice emitted or had a reply enqueued without one. -/
theorem output_custody {maxBytes : ℤ} (hmax : 0 < maxBytes) (ops : List BufferOp) :
    ((Line.after maxBytes ops).buffer.bytes = sizes (Line.after maxBytes ops).buffer.frames ∧
      (Line.after maxBytes ops).buffer.progressItems =
        (progressOf (Line.after maxBytes ops).buffer.frames).length ∧
      (Line.after maxBytes ops).buffer.progressBytes =
        sizes (progressOf (Line.after maxBytes ops).buffer.frames) ∧
      (Line.after maxBytes ops).buffer.progressItems ≤ 32 ∧
      (Line.after maxBytes ops).buffer.progressBytes ≤ 524288 ∧
      (Line.after maxBytes ops).buffer.commitment ≤ (Line.after maxBytes ops).buffer.maxBytes) ∧
    (∀ s ref encoded bytes, (Line.after maxBytes ops).buffer.succession = some s →
      encodedBinary encoded = some bytes →
        (s.phase = .reserved → (bytes.length : ℤ) ≤ s.noticeBytes →
          ∃ b', (Line.after maxBytes ops).buffer.enqueueSuccessionNotice ref encoded = .ok b') ∧
        (s.phase = .replyReady → (bytes.length : ℤ) ≤ s.replyBytes →
          ∃ b', (Line.after maxBytes ops).buffer.enqueueSuccessionReply ref encoded (sym "false") = .ok b') ∧
        (s.phase = .reserved → (bytes.length : ℤ) ≤ s.replyBytes →
          ∃ b', (Line.after maxBytes ops).buffer.enqueueSuccessionReply ref encoded (sym "true") = .ok b')) ∧
    (∀ t b', (Line.after maxBytes ops).buffer.emitted t = .ok b' →
      ∃ f, (Line.after maxBytes ops).buffer.frames = f :: b'.frames ∧
        (Line.after maxBytes ops).buffer.claim = some f.ref ∧ (f.kind = .notice ∨ f.kind = .reply →
          ∃ s, (Line.after maxBytes ops).buffer.succession = some s ∧
            b'.succession = some { s with phase := .replyReady })) ∧
    (∀ r, (Line.after maxBytes ops).buffer.claim = some r →
      ∃ f rest, (Line.after maxBytes ops).buffer.frames = f :: rest ∧ f.ref = r) ∧
    (emittedOf (Line.after maxBytes ops).log ++ (Line.after maxBytes ops).buffer.frames =
        (enqueuedOf (Line.after maxBytes ops).log).filter (fun f => f ∉ discardedOf (Line.after maxBytes ops).log) ∧
      ((enqueuedOf (Line.after maxBytes ops).log).map OutputFrame.ref).Nodup ∧
      ∀ f ∈ discardedOf (Line.after maxBytes ops).log, f.kind = .progress) ∧
    ((Line.after maxBytes ops).buffer.frames.filter fun f => f.kind = .reply).length ≤ 1 ∧
    (∀ ref encoded b',
      (Line.after maxBytes ops).buffer.enqueueSuccessionReply ref encoded (sym "false") = .ok b' →
        Opened (Line.after maxBytes ops).log) ∧
    (Line.after maxBytes ops).buffer.discardUnclaimedProgress.isSome := by
  obtain ⟨ha, ho⟩ := custody_after hmax ops
  generalize Line.after maxBytes ops = l at ha ho ⊢
  refine ⟨⟨ha.bytes, ha.items, ha.progressBytes, ha.items_le, ha.progressBytes_le, ha.within⟩, ?_,
    fun t b' => ha.emitted_head, ha.claimed, ⟨ho.order, ho.nodup, fun f hf => (ho.discarded f hf).2⟩,
    ha.replies, ?_, ha.discardUnclaimed⟩
  · intro s ref encoded bytes hs he
    exact ⟨fun hp hle => ha.notice_admitted hs hp he hle ref,
      fun hp hle => (ha.reply_admitted hs he hle ref).1 hp, fun hp hle => (ha.reply_admitted hs he hle ref).2 hp⟩
  · intro ref encoded b' hb
    obtain ⟨bytes, notice, allowance, -, -, hs, -⟩ := enqueueSuccessionReply_eq_ok hb
    exact ho.opened _ hs (.inl (by simp))

/-- The operations of a refused attachment: a reservation, a reply without a notice, and its emission. -/
def refusedAttach : List BufferOp :=
  [.reserveSuccession (.int 4) (.int 6), .enqueueSuccessionReply (str "refuse") (sym "true"), .claim,
    .emitted (refTerm 1)]

theorem output_custody_refusedAttach : Opened (Line.after 20 refusedAttach).log := by
  obtain ⟨-, -, -, -, -, -, hopened, -⟩ := output_custody (by decide : (0 : ℤ) < 20) refusedAttach
  have hok : ((Line.after 20 refusedAttach).buffer.enqueueSuccessionReply 4 (str "again")
      (sym "false")).toOption.isSome = true := by decide +kernel
  cases hb : (Line.after 20 refusedAttach).buffer.enqueueSuccessionReply 4 (str "again") (sym "false") with
  | ok b' => exact hopened 4 (str "again") b' hb
  | error e => simp [hb, Except.toOption] at hok

/-- **Where the custody departs.**  An empty notice is refused for capacity, though it is within the reserved
bytes; and once a reply went without a notice, a reply under the plain option is admitted though no notice was
ever enqueued. -/
theorem output_custody_departs :
    (Line.after 20 [.reserveSuccession (.int 4) (.int 6)]).buffer.enqueueSuccessionNotice 1 (str "") =
        .error .capacityExceeded ∧
      ((Line.after 20 refusedAttach).buffer.enqueueSuccessionReply 4 (str "again") (sym "false")).toOption.isSome ∧
      ∀ f ∈ enqueuedOf (Line.after 20 refusedAttach).log, f.kind ≠ .notice := by
  decide +kernel

end Loopex.Daemon
