import Loopex.Dispatcher.Transfers

/-!
# What the custody of transfers leaves alone

Most of what the dispatcher does with a transfer changes neither an account nor what an entry has reserved.

* `Entry.Same` — two states of an entry that are the same for its account
* `Frame` — two states of the dispatcher that are the same for every account
* `frame_retireArtifact`, `frame_dropHolder`, … — the functions that stay in the frame
-/

namespace Loopex.Dispatcher

open Loopex.Erlang Loopex.System
open Loopex.Transfers (Ref Pid Tag Request Context Reason Object Transfer Work From Table)

/-! ## entries -/

/-- The identity of a read and what it has reserved. -/
def Read.key (read : Read) : Tag × ℤ := (read.id, read.reserved)

/-- What the account of a transfer depends on stays; an acknowledgement is observed of a receipt only. -/
structure Entry.Same (e e' : Entry) : Prop where
  id : e'.id = e.id
  holder : e'.holder = e.holder
  custodian : e'.custodian = e.custodian
  workReserved : e'.workReserved = e.workReserved
  openingCharged : e'.openingCharged = e.openingCharged
  openingWork : e'.openingWork = e.openingWork
  read : e'.read.map Read.key = e.read.map Read.key
  transfer : e'.transfer = e.transfer
  cursor : e'.cursor = e.cursor
  receipt : e'.receipt = e.receipt
  acknowledge : e'.observation = .acknowledge → e.observation = .acknowledge ∨ e.receipt.isSome = true
  reserve : e'.invocation = .reserve → e.invocation = .reserve

namespace Entry.Same

variable {e e' e'' : Entry}

theorem refl (e : Entry) : Same e e := ⟨rfl, rfl, rfl, rfl, rfl, rfl, rfl, rfl, rfl, rfl, .inl, fun h => h⟩

theorem trans (h : Same e e') (h' : Same e' e'') : Same e e'' where
  id := h'.id.trans h.id
  holder := h'.holder.trans h.holder
  custodian := h'.custodian.trans h.custodian
  workReserved := h'.workReserved.trans h.workReserved
  openingCharged := h'.openingCharged.trans h.openingCharged
  openingWork := h'.openingWork.trans h.openingWork
  read := h'.read.trans h.read
  transfer := h'.transfer.trans h.transfer
  cursor := h'.cursor.trans h.cursor
  receipt := h'.receipt.trans h.receipt
  acknowledge hack := by
    rcases h'.acknowledge hack with hack | hreceipt
    · exact h.acknowledge hack
    · rw [h.receipt] at hreceipt
      exact .inr hreceipt
  reserve hinvocation := h.reserve (h'.reserve hinvocation)

/-- The caller of a read is answered. -/
theorem answered {read : Read} (h : Same e e') (hread : e'.read = some read) :
    Same e { e' with read := some { read with caller := none } } where
  __ := h
  read := by
    rw [← h.read, hread]
    rfl

theorem loss (kind : LossKind) : Same e (e.loss kind) := ⟨rfl, rfl, rfl, rfl, rfl, rfl, rfl, rfl, rfl, rfl, .inl, fun h => h⟩

end Entry.Same

/-! ## frames -/

/-- The account of a holder. -/
def Holder.account (h : Holder) : ℤ × ℤ × Bool × Bool :=
  (h.transferDebit, h.transferReserved, h.transferUncertain, h.alive)

/-- Every entry stands under its own name. -/
def State.Keyed (s : State) : Prop := ∀ id e, s.artifactTransfers.lookup id = some e → e.id = id

/-- No account changes, and no entry in what its account depends on. -/
structure Frame (s s' : State) : Prop where
  calls : s'.calls = s.calls
  next : s.next ≤ s'.next
  failed : s'.failed = s.failed
  holders : ∀ h, (s'.holders.lookup h).map Holder.account = (s.holders.lookup h).map Holder.account
  entries : ∀ id, Option.Rel Entry.Same (s.artifactTransfers.lookup id) (s'.artifactTransfers.lookup id)

variable {s s' s'' : State} {e e' : Entry} {id : Ref} {v : Env} {pid : Pid} {attachRef : Tag}

theorem rel_refl (o : Option Entry) : Option.Rel Entry.Same o o := by
  cases o with
  | none => exact .none
  | some e => exact .some (.refl e)

theorem rel_trans {o o' o'' : Option Entry} (h : Option.Rel Entry.Same o o') (h' : Option.Rel Entry.Same o' o'') :
    Option.Rel Entry.Same o o'' := by
  cases h with
  | none =>
    cases h'
    exact .none
  | some h =>
    cases h' with
    | some h' => exact .some (h.trans h')

namespace Frame

theorem refl (s : State) : Frame s s := ⟨rfl, le_refl _, rfl, fun _ => rfl, fun _ => rel_refl _⟩

theorem trans (h : Frame s s') (h' : Frame s' s'') : Frame s s'' where
  calls := h'.calls.trans h.calls
  next := h.next.trans h'.next
  failed := h'.failed.trans h.failed
  holders pid := (h'.holders pid).trans (h.holders pid)
  entries id := rel_trans (h.entries id) (h'.entries id)

/-- Only what no account depends on changes. -/
theorem of_eq (calls : s'.calls = s.calls) (next : s.next ≤ s'.next) (failed : s'.failed = s.failed)
    (holders : s'.holders = s.holders) (entries : s'.artifactTransfers = s.artifactTransfers) : Frame s s' where
  calls := calls
  next := next
  failed := failed
  holders pid := by rw [holders]
  entries id := by
    rw [entries]
    exact rel_refl _

theorem lookup (h : Frame s s') (he : s.artifactTransfers.lookup id = some e) :
    ∃ e', s'.artifactTransfers.lookup id = some e' ∧ e.Same e' := by
  have hrel := h.entries id
  rw [he] at hrel
  cases hs' : s'.artifactTransfers.lookup id with
  | none =>
    rw [hs'] at hrel
    cases hrel
  | some e' =>
    rw [hs'] at hrel
    cases hrel with
    | some hsame => exact ⟨e', rfl, hsame⟩

theorem lookup' (h : Frame s s') (he : s'.artifactTransfers.lookup id = some e') :
    ∃ e, s.artifactTransfers.lookup id = some e ∧ e.Same e' := by
  have hrel := h.entries id
  rw [he] at hrel
  cases hs : s.artifactTransfers.lookup id with
  | none =>
    rw [hs] at hrel
    cases hrel
  | some e =>
    rw [hs] at hrel
    cases hrel with
    | some hsame => exact ⟨e, rfl, hsame⟩

theorem keyed (h : Frame s s') (hs : s.Keyed) : s'.Keyed := by
  intro id e' he'
  obtain ⟨e, he, hsame⟩ := h.lookup' he'
  exact hsame.id.trans (hs id e he)

theorem holder (h : Frame s s') {r' : Holder} (hr : s'.holders.lookup pid = some r') :
    ∃ r, s.holders.lookup pid = some r ∧ r'.account = r.account := by
  have heq := h.holders pid
  rw [hr] at heq
  obtain ⟨r, hr, hacc⟩ := Option.map_eq_some_iff.1 heq.symm
  exact ⟨r, hr, hacc.symm⟩

theorem holder' (h : Frame s s') {r : Holder} (hr : s.holders.lookup pid = some r) :
    ∃ r', s'.holders.lookup pid = some r' ∧ r'.account = r.account := by
  have heq := h.holders pid
  rw [hr] at heq
  exact Option.map_eq_some_iff.1 heq

end Frame

/-! ## one entry -/

theorem lookup_putEntry (id : Ref) : (s.putEntry e).artifactTransfers.lookup id =
    if id = e.id then some e else s.artifactTransfers.lookup id := by
  rw [State.putEntry]
  split
  next h => rw [h, AList.lookup_insert]
  next h => exact AList.lookup_insert_ne h

theorem fetchEntry_of_lookup {f : Entry → State} (h : s.artifactTransfers.lookup id = some e) : s.fetchEntry id f = f e := by
  rw [State.fetchEntry, h]

theorem Frame.putEntry (h : Frame s s') (he : s.artifactTransfers.lookup e'.id = some e) (hsame : e.Same e') :
    Frame s (s'.putEntry e') where
  calls := h.calls
  next := h.next
  failed := h.failed
  holders := h.holders
  entries id := by
    rw [lookup_putEntry]
    split
    next heq =>
      rw [heq, he]
      exact .some hsame
    · exact h.entries id

theorem frame_putEntry (he : s.artifactTransfers.lookup e'.id = some e) (hsame : e.Same e') : Frame s (s.putEntry e') :=
  (Frame.refl s).putEntry he hsame

theorem keyed_putEntry (hs : s.Keyed) : (s.putEntry e).Keyed := by
  intro id e' he'
  rw [lookup_putEntry] at he'
  split at he'
  next heq =>
    cases he'
    exact heq.symm
  · exact hs id e' he'

theorem frame_finishArtifactActors (hs : s.Keyed) (h : s.artifactTransfers.lookup id = some e) :
    Frame s (s.finishArtifactActors id) := by
  obtain rfl := hs id e h
  rw [State.finishArtifactActors, fetchEntry_of_lookup h]
  split
  · exact frame_putEntry h ⟨rfl, rfl, rfl, rfl, rfl, rfl, rfl, rfl, rfl, rfl, .inl, fun h => h⟩
  · exact .refl s

theorem frame_advanceArtifactCleanup (hs : s.Keyed) (h : s.artifactTransfers.lookup id = some e) :
    Frame s (s.advanceArtifactCleanup id) := by
  obtain rfl := hs id e h
  rw [State.advanceArtifactCleanup, fetchEntry_of_lookup h]
  split
  · exact frame_finishArtifactActors hs h
  split
  · exact frame_finishArtifactActors hs h
  split
  next hreceipt =>
    exact frame_putEntry h ⟨rfl, rfl, rfl, rfl, rfl, rfl, rfl, rfl, rfl, rfl, fun _ => .inr hreceipt.1, fun h => h⟩
  · exact .refl s

theorem frame_observeArtifactRetirement (hs : s.Keyed) (h : s.artifactTransfers.lookup id = some e) :
    Frame s (s.observeArtifactRetirement v id) := by
  obtain rfl := hs id e h
  rw [State.observeArtifactRetirement, fetchEntry_of_lookup h]
  split
  · exact .refl s
  split
  · exact frame_finishArtifactActors hs h
  split
  · exact frame_advanceArtifactCleanup hs h
  split
  · exact frame_putEntry h ⟨rfl, rfl, rfl, rfl, rfl, rfl, rfl, rfl, rfl, rfl, nofun, fun h => h⟩
  · exact .refl s

theorem frame_replyArtifactOpen (hs : s.Keyed) (h : s.artifactTransfers.lookup id = some e) :
    Frame s (s.replyArtifactOpen id) := by
  obtain rfl := hs id e h
  rw [State.replyArtifactOpen, fetchEntry_of_lookup h]
  split
  · have hput : Frame s (s.putEntry { e with openFrom := none }) :=
      frame_putEntry h ⟨rfl, rfl, rfl, rfl, rfl, rfl, rfl, rfl, rfl, rfl, .inl, fun h => h⟩
    exact hput.trans (.of_eq rfl (le_refl _) rfl rfl rfl)
  · exact .refl s

theorem frame_retireArtifact (hs : s.Keyed) (id : Ref) (reason : Reason) (anchor : ℤ) :
    Frame s (s.retireArtifact v id reason anchor) := by
  rw [State.retireArtifact]
  split
  · exact .refl s
  next e he =>
    obtain rfl := hs id e he
    generalize hretiring : (if e.cleanup = none then
        { e with phase := .retiring, cleanup := some (anchor + cleanupDeadlineMs), reason := some reason }
      else { e with phase := .retiring } : Entry) = retiring
    have hsame : e.Same retiring := by
      rw [← hretiring]
      split <;> exact ⟨rfl, rfl, rfl, rfl, rfl, rfl, rfl, rfl, rfl, rfl, .inl, fun h => h⟩
    have hput : Frame s (s.putEntry retiring) := frame_putEntry (by rwa [hsame.id]) hsame
    have hlookup : (s.putEntry retiring).artifactTransfers.lookup e.id = some retiring := by
      rw [lookup_putEntry, if_pos hsame.id.symm]
    have hreply := hput.trans (frame_replyArtifactOpen (hput.keyed hs) hlookup)
    have hobserve : ∀ t, Frame s t → Frame s (t.observeArtifactRetirement v e.id) := by
      intro t hanswer
      obtain ⟨answered, hanswered, -⟩ := hanswer.lookup he
      exact hanswer.trans (frame_observeArtifactRetirement (hanswer.keyed hs) hanswered)
    refine hobserve _ ?_
    split
    next read hread =>
      split
      · exact hreply.putEntry (by rwa [← hsame.id] at he) (hsame.answered hread)
      · exact hreply
    · exact hreply

/-- A retirement that goes on to the cleanup. -/
theorem frame_retire_advance (hs : s.Keyed) (h : s.artifactTransfers.lookup id = some e) {reason : Reason} {anchor : ℤ} :
    Frame s ((s.retireArtifact v id reason anchor).advanceArtifactCleanup id) := by
  have hretire := frame_retireArtifact (v := v) hs id reason anchor
  obtain ⟨e', he', -⟩ := hretire.lookup h
  exact hretire.trans (frame_advanceArtifactCleanup (hretire.keyed hs) he')

/-- A fold of steps that stay in the frame. -/
theorem frame_foldl {α : Type} {f : State → α → State} (hf : ∀ s x, s.Keyed → Frame s (f s x)) (hs : s.Keyed) (xs : List α) :
    Frame s (xs.foldl f s) := by
  induction xs generalizing s with
  | nil => exact .refl s
  | cons x xs ih =>
    have hstep := hf s x hs
    exact hstep.trans (ih (hstep.keyed hs))

/-! ## attachments and holders -/

theorem frame_updateHolder {f : Holder → Holder} (hf : ∀ r, (f r).account = r.account) : Frame s (s.updateHolder pid f) := by
  rw [State.updateHolder]
  split
  · exact .refl s
  next r hr =>
    refine ⟨rfl, le_refl _, rfl, fun h => ?_, fun _ => rel_refl _⟩
    by_cases heq : h = pid
    · rw [heq, State.putHolder, AList.lookup_insert, hr, Option.map_some, Option.map_some, hf]
    · rw [State.putHolder, AList.lookup_insert_ne heq]

theorem frame_dropStagedAttachment : Frame s (s.dropStagedAttachment attachRef) := by
  rw [State.dropStagedAttachment]
  split
  · exact .refl s
  · have herase : Frame s { s with staged := s.staged.erase attachRef } := .of_eq rfl (le_refl _) rfl rfl rfl
    exact herase.trans (frame_updateHolder fun _ => rfl)

theorem frame_releaseTransfers (hs : s.Keyed) (a : Attachment) : Frame s (s.releaseTransfers v a) :=
  frame_foldl (fun _ _ hs => frame_retireArtifact hs _ _ _) hs _

theorem frame_dropAttachment (hs : s.Keyed) (attachmentId : Bytes) : Frame s (s.dropAttachment v attachmentId) := by
  rw [State.dropAttachment]
  split
  · exact .refl s
  next a ha =>
    have herase : Frame s { s with attachments := s.attachments.erase attachmentId } :=
      .of_eq rfl (le_refl _) rfl rfl rfl
    have hrelease := herase.trans (frame_releaseTransfers (v := v) (herase.keyed hs) a)
    exact hrelease.trans (frame_updateHolder fun _ => rfl)

theorem frame_dropAttachments (hs : s.Keyed) (ids : List Bytes) : Frame s (s.dropAttachments v ids) :=
  frame_foldl (fun _ _ hs => frame_dropAttachment hs _) hs ids

theorem frame_dropStaged (hs : s.Keyed) (refs : List Tag) : Frame s (s.dropStaged refs) :=
  frame_foldl (fun _ _ _ => frame_dropStagedAttachment) hs refs

theorem frame_invalidateSession (hs : s.Keyed) (sessionId : Bytes) : Frame s (s.invalidateSession v sessionId) := by
  have hstaged := frame_dropStaged hs ((s.staged.entries.filter fun t => t.2.sessionId = sessionId).map Sigma.fst)
  exact hstaged.trans (frame_dropAttachments (hstaged.keyed hs) _)

theorem frame_dropPublished (hs : s.Keyed) (attachmentId incarnationId : Bytes) :
    Frame s (s.dropPublished v attachmentId incarnationId) := by
  rw [State.dropPublished]
  split
  · split
    · exact frame_dropAttachment hs _
    · exact .refl s
  · exact .refl s

theorem frame_scanFinished (worker : Pid) (result : Option Bool) : Frame s (s.scanFinished attachRef worker result) := by
  rw [State.scanFinished]
  split
  · split
    · split
      · split
        · exact .of_eq rfl (le_refl _) rfl rfl rfl
        · exact frame_dropStagedAttachment
      · exact frame_dropStagedAttachment
    · exact .refl s
  · exact .refl s

theorem frame_prepareReplacement (hs : s.Keyed) {pending : Staged} (h : s.prepareReplacement v pending = some s') :
    Frame s s' := by
  rw [State.prepareReplacement] at h
  split at h
  · cases h
    exact .refl s
  · split at h
    · split at h
      · cases h
        exact frame_dropAttachment hs _
      · cases h
    · cases h

theorem frame_authorizeAttachment (hs : s.Keyed) (incarnation : Tag) (control : Pid) (attachmentId incarnationId : Bytes) :
    Frame s (s.authorizeAttachment v incarnation control attachRef attachmentId incarnationId) := by
  rw [State.authorizeAttachment]
  split
  · split
    next a _ =>
      split
      · split
        · split
          next prepared hprepared =>
            have hput : Frame prepared { prepared with
                staged := prepared.staged.erase attachRef
                attachments := prepared.attachments.insert attachmentId a } := .of_eq rfl (le_refl _) rfl rfl rfl
            exact (frame_prepareReplacement hs hprepared).trans (hput.trans (frame_updateHolder fun _ => rfl))
          · exact frame_dropStagedAttachment
        · exact frame_dropStagedAttachment
      · exact .refl s
    · exact .refl s
  · exact .refl s

/-! ## transfers -/

theorem frame_closeTransfer (hs : s.Keyed) (token : Tag) (sessionId attachmentId incarnationId : Bytes) (transferRef : Ref)
    (anchor : ℤ) (caller : From) :
    Frame s (s.closeTransfer v token sessionId attachmentId incarnationId transferRef anchor caller) := by
  rw [State.closeTransfer]
  split
  next a e ha he =>
    split
    · obtain rfl := hs _ _ he
      simp only
      generalize (if (e.cleanup.any fun deadline => deadline ≤ v.now .answer e.id) = true then none else some caller) =
        closeFrom
      have hput : Frame s (s.putEntry { e with closeFrom := closeFrom }) :=
        frame_putEntry he ⟨rfl, rfl, rfl, rfl, rfl, rfl, rfl, rfl, rfl, rfl, .inl, fun h => h⟩
      have hretire := hput.trans (frame_retireArtifact (v := v) (hput.keyed hs) e.id .cancelled anchor)
      obtain ⟨e', he', -⟩ := hretire.lookup he
      exact hretire.trans (frame_observeArtifactRetirement (hretire.keyed hs) he')
    · exact .refl s
  · exact .refl s

theorem frame_cancelArtifactOpen (hs : s.Keyed) (token : Tag) (sessionId attachmentId incarnationId : Bytes)
    (context : Context) : Frame s (s.cancelArtifactOpen v token sessionId attachmentId incarnationId context) := by
  rw [State.cancelArtifactOpen]
  split
  · split
    · exact frame_retireArtifact hs _ _ _
    · exact .refl s
  · exact .refl s

theorem frame_cancelArtifactRead (hs : s.Keyed) (token : Tag) (sessionId attachmentId incarnationId : Bytes)
    (transferRef : Ref) (deadline : ℤ) :
    Frame s (s.cancelArtifactRead v token sessionId attachmentId incarnationId transferRef deadline) := by
  rw [State.cancelArtifactRead]
  split
  · split
    · exact frame_retireArtifact hs _ _ _
    · exact .refl s
  · exact .refl s

theorem frame_expireArtifactCleanup (hs : s.Keyed) (h : s.artifactTransfers.lookup id = some e) :
    Frame s (s.expireArtifactCleanup id) := by
  have hreply := frame_replyArtifactOpen hs h
  obtain ⟨e', he', -⟩ := hreply.lookup h
  have hid := hreply.keyed hs _ _ he'
  rw [State.expireArtifactCleanup, fetchEntry_of_lookup he']
  have hown : (s.replyArtifactOpen id).artifactTransfers.lookup e'.id = some e' := by rw [hid, he']
  have hput : Frame (s.replyArtifactOpen id) ((s.replyArtifactOpen id).putEntry { e' with closeFrom := none }) :=
    frame_putEntry hown ⟨rfl, rfl, rfl, rfl, rfl, rfl, rfl, rfl, rfl, rfl, .inl, fun h => h⟩
  exact hreply.trans hput

theorem frame_openExpired (hs : s.Keyed) : Frame s (s.openExpired v id) := by
  rw [State.openExpired]
  split
  next e he =>
    split
    · exact .refl s
    · have hretire := frame_retireArtifact (v := v) hs id .openDeadlineExhausted e.context.openDeadlineMs
      obtain ⟨e', he', -⟩ := hretire.lookup he
      exact hretire.trans (frame_replyArtifactOpen (hretire.keyed hs) he')
  · exact .refl s

theorem frame_lifetimeExpired (hs : s.Keyed) : Frame s (s.lifetimeExpired v id) := by
  rw [State.lifetimeExpired]
  split
  · split
    · exact frame_retireArtifact hs _ _ _
    · exact .refl s
  · exact .refl s

theorem frame_readExpired (hs : s.Keyed) (readId : Tag) : Frame s (s.readExpired v id readId) := by
  rw [State.readExpired]
  split
  next e he =>
    split
    next read hread =>
      split
      · obtain rfl := hs _ _ he
        have hput : Frame s (s.putEntry { e with read := some { read with caller := none } }) :=
          frame_putEntry he ((Entry.Same.refl e).answered hread)
        exact hput.trans (frame_retireArtifact (hput.keyed hs) _ _ _)
      · exact .refl s
    · exact .refl s
  · exact .refl s

end Loopex.Dispatcher
