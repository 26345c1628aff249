import Loopex.Dispatcher.Custody
import Loopex.System.Run

/-!
# The work budget of a connection

What a connection's transfers may read and write is reserved before the store is called, and the reservation is
settled by what the store reports.  A refusal of the store is not checked against the receipt that may already have
settled the opening, so the accounts hold in the runs where no such refusal comes.

* `Account`, `Kept`, `Inv` — an account and its ledger agree, and every transfer knows its calls
* `Later` — what a later state keeps of an earlier one: debits, seals, and the calls of sealed accounts
* `moves_handle` — every message keeps the accounts
* `budget_kept` — the accounts in every run
* `withinBudget_step_iff` — a step keeps them unless it takes a refusal that comes late
* `refused_twice` — the run that drives a reservation negative
-/

namespace Loopex.Dispatcher

open Loopex.Erlang Loopex.System
open Loopex.Transfers (Ref Pid Tag Request Context Reason Object Transfer Work From Table validTransferRef
  validTransferRequest validOpenContext)

/-! ## accounts -/

/-- What the transfers of one connection may read and write. -/
def connectionBudget : ℤ := 1073741824

/-- The transfer that a call is for. -/
def StoreCall.ref : StoreCall → Ref
  | .opening id _ => id
  | .read id _ => id

/-- An account agrees with the ledger, and unless it is uncertain it stays within the budget. -/
structure Account (dead : List Pid) (calls : WorkLedger StoreCall Pid) (pid : Pid) (r : Holder) : Prop where
  debit : r.transferDebit = calls.spentBy pid
  reserved : r.transferReserved = calls.heldBy pid
  budget : r.transferUncertain = false → r.transferDebit + r.transferReserved ≤ connectionBudget
  ended : r.alive = false → pid ∈ dead

/-- The call of an opening, as the transfer knows it: open, charged, or disputed. -/
inductive Opening (e : Entry) (c : WorkCall StoreCall Pid) : Prop where
  | uncharged : e.openingCharged = false → e.openingWork = none → c.charges = [] → Opening e c
  | charged : e.openingCharged = true → e.openingWork ≠ some .unavailable →
      c.charges = [State.previousDebit e.openingWork] → c.raised = 0 → Opening e c
  | disputed : e.openingCharged = true → e.openingWork = some .unavailable → c.charges ≠ [] → Opening e c

/-- A transfer and the calls that were admitted for it. -/
structure Kept (s : State) (e : Entry) : Prop where
  holder : (s.holders.lookup e.holder).isSome = true
  workReserved : e.workReserved = State.openWorkReservation
  opening : ∃ c ∈ s.calls, c.id = .opening e.id e.custodian ∧ c.account = e.holder ∧ c.worst = e.workReserved ∧
    Opening e c
  read : ∀ r, e.read = some r → ∃ c ∈ s.calls, c.id = .read e.id r.id ∧ c.account = e.holder ∧ c.worst = r.reserved ∧
    c.charges = []
  cursor : e.cursor ≤ e.stop
  acknowledge : e.observation = .acknowledge → e.receipt.isSome = true

/-- While the store may still refuse to register a transfer, only a receipt has charged its opening. -/
def Entry.Evidenced (e : Entry) : Prop :=
  e.invocation = .reserve → e.openingCharged = true → e.receipt.isSome = true

def State.Evidenced (s : State) : Prop := ∀ id e, s.artifactTransfers.lookup id = some e → e.Evidenced

/-- Accounts, transfers and the ledger agree; an account without a record belongs to a process that has ended. -/
structure Inv (dead : List Pid) (s : State) : Prop where
  keyed : s.Keyed
  failed : s.failed = false
  sound : s.calls.Sound
  fresh : ∀ c ∈ s.calls, c.id.tag < s.next
  known : ∀ c ∈ s.calls, c.account ∈ dead ∨ (s.holders.lookup c.account).isSome = true
  accounts : ∀ pid r, s.holders.lookup pid = some r → Account dead s.calls pid r
  entries : ∀ id e, s.artifactTransfers.lookup id = some e → Kept s e

/-! ## later states -/

/-- The process has ended, and its record is forgotten. -/
def Gone (dead : List Pid) (s : State) (pid : Pid) : Prop := s.holders.lookup pid = none ∧ pid ∈ dead

/-- Nothing more is admitted for the process. -/
def Sealed (dead : List Pid) (s : State) (pid : Pid) : Prop :=
  (∃ r, s.holders.lookup pid = some r ∧ r.transferUncertain = true) ∨ Gone dead s pid

/-- A call of the ledger, without what it was charged. -/
def Called (s : State) (call : StoreCall) (pid : Pid) : Prop := ∃ c ∈ s.calls, c.id = call ∧ c.account = pid

/-- Debits do not decrease, sealed accounts stay sealed, and no call is admitted for them. -/
structure Later (dead dead' : List Pid) (s s' : State) : Prop where
  ended : dead ⊆ dead'
  debit : ∀ pid r, s.holders.lookup pid = some r → (∃ r', s'.holders.lookup pid = some r' ∧
    r.transferDebit ≤ r'.transferDebit ∧ (r.transferUncertain = true → r'.transferUncertain = true)) ∨ Gone dead' s' pid
  gone : ∀ pid, Gone dead s pid → Gone dead' s' pid
  kept : ∀ call pid, Called s call pid → Called s' call pid
  admitted : ∀ call pid, Called s' call pid → Called s call pid ∨ ¬ Sealed dead s pid

namespace Later

variable {dead dead' dead'' : List Pid} {s s' s'' : State}

theorem refl (dead : List Pid) (s : State) : Later dead dead s s where
  ended := fun _ h => h
  debit _ r hr := .inl ⟨r, hr, le_refl _, fun h => h⟩
  gone _ h := h
  kept _ _ h := h
  admitted _ _ h := .inl h

/-- A sealed account stays sealed. -/
theorem sealed (h : Later dead dead' s s') {pid : Pid} (hseal : Sealed dead s pid) : Sealed dead' s' pid := by
  rcases hseal with ⟨r, hr, huncertain⟩ | hgone
  · rcases h.debit pid r hr with ⟨r', hr', -, hstays⟩ | hgone
    · exact .inl ⟨r', hr', hstays huncertain⟩
    · exact .inr hgone
  · exact .inr (h.gone pid hgone)

theorem trans (h : Later dead dead' s s') (h' : Later dead' dead'' s' s'') : Later dead dead'' s s'' where
  ended := fun _ hpid => h'.ended (h.ended hpid)
  debit pid r hr := by
    rcases h.debit pid r hr with ⟨r', hr', hle, hstays⟩ | hgone
    · rcases h'.debit pid r' hr' with ⟨r'', hr'', hle', hstays'⟩ | hgone
      · exact .inl ⟨r'', hr'', hle.trans hle', fun hu => hstays' (hstays hu)⟩
      · exact .inr hgone
    · exact .inr (h'.gone pid hgone)
  gone pid hgone := h'.gone pid (h.gone pid hgone)
  kept call pid hcalled := h'.kept call pid (h.kept call pid hcalled)
  admitted call pid hcalled := by
    rcases h'.admitted call pid hcalled with hcalled | hopen
    · exact h.admitted call pid hcalled
    · exact .inr fun hseal => hopen (h.sealed hseal)

/-- Accounts that stay as they are. -/
theorem of_eq (hcalls : s'.calls = s.calls)
    (hholders : ∀ pid, (s'.holders.lookup pid).map Holder.account = (s.holders.lookup pid).map Holder.account) :
    Later dead dead s s' where
  ended := fun _ h => h
  debit pid r hr := by
    have heq := hholders pid
    rw [hr] at heq
    obtain ⟨r', hr', hacc⟩ := Option.map_eq_some_iff.1 heq
    simp only [Holder.account, Prod.mk.injEq] at hacc
    exact .inl ⟨r', hr', by rw [hacc.1], fun hu => by rw [hacc.2.2.1, hu]⟩
  gone pid hgone := by
    refine ⟨?_, hgone.2⟩
    have heq := hholders pid
    rw [hgone.1] at heq
    simpa using heq
  kept call pid hcalled := by
    rw [Called, hcalls]
    exact hcalled
  admitted call pid hcalled := by
    rw [Called, hcalls] at hcalled
    exact .inl hcalled

end Later

/-- A step keeps the accounts. -/
structure Moves (dead : List Pid) (s s' : State) : Prop where
  inv : Inv dead s'
  later : Later dead dead s s'
  evidenced : s.Evidenced → s'.Evidenced

namespace Moves

variable {dead : List Pid} {s s' s'' : State}

theorem refl (h : Inv dead s) : Moves dead s s := ⟨h, .refl dead s, fun h => h⟩

theorem trans (h : Moves dead s s') (h' : Moves dead s' s'') : Moves dead s s'' :=
  ⟨h'.inv, h.later.trans h'.later, fun hs => h'.evidenced (h.evidenced hs)⟩

end Moves

variable {dead : List Pid} {s s' : State} {e e' : Entry} {id : Ref} {pid : Pid} {r r' : Holder} {v : Env}
  {c : WorkCall StoreCall Pid} {cost : ℤ}

/-! ## what stays -/

theorem Opening.congr (hcharged : e'.openingCharged = e.openingCharged) (hwork : e'.openingWork = e.openingWork)
    (h : Opening e c) : Opening e' c := by
  cases h with
  | uncharged h1 h2 h3 => exact .uncharged (hcharged.trans h1) (hwork.trans h2) h3
  | charged h1 h2 h3 h4 => exact .charged (hcharged.trans h1) (by rwa [hwork]) (by rw [h3, hwork]) h4
  | disputed h1 h2 h3 => exact .disputed (hcharged.trans h1) (hwork.trans h2) h3

theorem Kept.same (hsame : e.Same e') (h : Kept s e) : Kept s e' where
  holder := by rw [hsame.holder]; exact h.holder
  workReserved := hsame.workReserved.trans h.workReserved
  opening := by
    obtain ⟨c, hc, hid, haccount, hworst, hopening⟩ := h.opening
    refine ⟨c, hc, ?_, haccount.trans hsame.holder.symm, hworst.trans hsame.workReserved.symm,
      hopening.congr hsame.openingCharged hsame.openingWork⟩
    rw [hid, hsame.id, hsame.custodian]
  read r' hr' := by
    have heq := hsame.read
    rw [hr'] at heq
    obtain ⟨r, hr, hkey⟩ := Option.map_eq_some_iff.1 heq.symm
    obtain ⟨c, hc, hid, haccount, hworst, hcharges⟩ := h.read r hr
    simp only [Read.key, Prod.mk.injEq] at hkey
    refine ⟨c, hc, ?_, haccount.trans hsame.holder.symm, hworst.trans hkey.2, hcharges⟩
    rw [hid, hsame.id, hkey.1]
  cursor := by
    have hcursor := h.cursor
    rw [Entry.stop] at hcursor ⊢
    rwa [hsame.cursor, hsame.transfer]
  acknowledge hack := by
    rw [hsame.receipt]
    rcases hsame.acknowledge hack with hack | hreceipt
    · exact h.acknowledge hack
    · exact hreceipt

/-- A transfer is kept in another stage of its use. -/
theorem Kept.stage (h : Kept s e) (hid : e'.id = e.id) (hholder : e'.holder = e.holder)
    (hcustodian : e'.custodian = e.custodian) (hreserved : e'.workReserved = e.workReserved)
    (hcharged : e'.openingCharged = e.openingCharged) (hwork : e'.openingWork = e.openingWork)
    (hread : e'.read = e.read ∨ e'.read = none) (hcursor : e'.cursor ≤ e'.stop)
    (hack : e'.observation = .acknowledge → e'.receipt.isSome = true) : Kept s e' where
  holder := by rw [hholder]; exact h.holder
  workReserved := hreserved.trans h.workReserved
  opening := by
    obtain ⟨c, hc, hcid, haccount, hworst, hopening⟩ := h.opening
    refine ⟨c, hc, ?_, haccount.trans hholder.symm, hworst.trans hreserved.symm, hopening.congr hcharged hwork⟩
    rw [hcid, hid, hcustodian]
  read r hr := by
    rcases hread with hread | hread
    · obtain ⟨c, hc, hcid, haccount, hrest⟩ := h.read r (hread ▸ hr)
      exact ⟨c, hc, hid ▸ hcid, haccount.trans hholder.symm, hrest⟩
    · rw [hread] at hr
      cases hr
  cursor := hcursor
  acknowledge := hack

/-- A transfer is kept where its holder and its calls are. -/
theorem Kept.of_mem (h : Kept s e) (hholder : (s'.holders.lookup e.holder).isSome = true)
    (hmem : ∀ c ∈ s.calls, c.id.ref = e.id → c ∈ s'.calls) : Kept s' e where
  holder := hholder
  workReserved := h.workReserved
  opening := by
    obtain ⟨c, hc, hid, hrest⟩ := h.opening
    exact ⟨c, hmem c hc (by rw [hid]; rfl), hid, hrest⟩
  read r hr := by
    obtain ⟨c, hc, hid, hrest⟩ := h.read r hr
    exact ⟨c, hmem c hc (by rw [hid]; rfl), hid, hrest⟩
  cursor := h.cursor
  acknowledge := h.acknowledge

theorem Frame.isSome (h : Frame s s') (pid : Pid) :
    (s'.holders.lookup pid).isSome = (s.holders.lookup pid).isSome := by
  rw [← Option.isSome_map (f := Holder.account), h.holders pid, Option.isSome_map]

/-- Nothing in the frame concerns an account. -/
theorem Inv.frame (h : Inv dead s) (hframe : Frame s s') : Moves dead s s' where
  inv :=
    { keyed := hframe.keyed h.keyed
      failed := hframe.failed.trans h.failed
      sound := by rw [hframe.calls]; exact h.sound
      fresh := by
        rw [hframe.calls]
        exact fun c hc => lt_of_lt_of_le (h.fresh c hc) hframe.next
      known := by
        rw [hframe.calls]
        intro c hc
        rw [hframe.isSome]
        exact h.known c hc
      accounts := by
        intro pid r' hr'
        obtain ⟨r, hr, hacc⟩ := hframe.holder hr'
        have hold := h.accounts pid r hr
        simp only [Holder.account, Prod.mk.injEq] at hacc
        obtain ⟨hdebit, hreserved, huncertain, halive⟩ := hacc
        rw [hframe.calls]
        constructor
        · rw [hdebit]
          exact hold.debit
        · rw [hreserved]
          exact hold.reserved
        · rw [hdebit, hreserved, huncertain]
          exact hold.budget
        · rw [halive]
          exact hold.ended
      entries := by
        intro id e' he'
        obtain ⟨e, he, hsame⟩ := hframe.lookup' he'
        refine ((h.entries id e he).same hsame).of_mem ?_ ?_
        · rw [hframe.isSome, hsame.holder]
          exact (h.entries id e he).holder
        · rw [hframe.calls]
          exact fun c hc _ => hc }
  later := .of_eq hframe.calls hframe.holders
  evidenced hs id e' he' := by
    obtain ⟨e, he, hsame⟩ := hframe.lookup' he'
    intro hreserve hcharged
    rw [hsame.receipt]
    exact hs id e he (hsame.reserve hreserve) (hsame.openingCharged.symm.trans hcharged)

theorem lookup_putEntry_self (s : State) (e : Entry) : (s.putEntry e).artifactTransfers.lookup e.id = some e := by
  rw [lookup_putEntry, if_pos rfl]

theorem lookup_putEntry_cases {id₁ : Ref} {e₁ : Entry} (h : (s.putEntry e').artifactTransfers.lookup id₁ = some e₁) :
    id₁ = e'.id ∧ e₁ = e' ∨ id₁ ≠ e'.id ∧ s.artifactTransfers.lookup id₁ = some e₁ := by
  rw [lookup_putEntry] at h
  split at h
  next heq => exact .inl ⟨heq, (Option.some.inj h).symm⟩
  next hne => exact .inr ⟨hne, h⟩

/-- A transfer changes, and its calls do not. -/
theorem Inv.putEntry (h : Inv dead s) (hkept : Kept s e') (hev : s.Evidenced → e'.Evidenced) :
    Moves dead s (s.putEntry e') where
  inv :=
    { keyed := keyed_putEntry h.keyed
      failed := h.failed
      sound := h.sound
      fresh := h.fresh
      known := h.known
      accounts := h.accounts
      entries := by
        intro id₁ e₁ he₁
        rcases lookup_putEntry_cases he₁ with ⟨-, rfl⟩ | ⟨-, he₁⟩
        · exact hkept.of_mem hkept.holder fun c hc _ => hc
        · exact (h.entries id₁ e₁ he₁).of_mem (h.entries id₁ e₁ he₁).holder fun c hc _ => hc }
  later := .of_eq rfl fun _ => rfl
  evidenced hs id₁ e₁ he₁ := by
    rcases lookup_putEntry_cases he₁ with ⟨-, rfl⟩ | ⟨-, he₁⟩
    · exact hev hs
    · exact hs id₁ e₁ he₁

/-! ## a change of one account -/

/-- One account changes with the calls of one transfer, and the transfer with them. -/
structure Change (s s' : State) (pid : Pid) (r r' : Holder) (e' : Entry) : Prop where
  account : s.holders.lookup pid = some r
  holders : s'.holders = s.holders.insert pid r'
  transfers : s'.artifactTransfers = s.artifactTransfers.insert e'.id e'
  next : s.next ≤ s'.next
  failed : s'.failed = s.failed
  debit : r.transferDebit ≤ r'.transferDebit
  uncertain : r.transferUncertain = true → r'.transferUncertain = true
  mem : ∀ c ∈ s.calls, c.id.ref ≠ e'.id → c ∈ s'.calls
  kept : ∀ call a, Called s call a → Called s' call a
  admitted : ∀ call a, Called s' call a → Called s call a ∨ a = pid ∧ r.transferUncertain = false
  other : ∀ b, b ≠ pid → s'.calls.heldBy b = s.calls.heldBy b ∧ s'.calls.spentBy b = s.calls.spentBy b

namespace Change

theorem lookup_holder (h : Change s s' pid r r' e') (b : Pid) :
    s'.holders.lookup b = if b = pid then some r' else s.holders.lookup b := by
  rw [h.holders]
  split
  next heq => rw [heq, AList.lookup_insert]
  next hne => exact AList.lookup_insert_ne hne

theorem lookup_entry (h : Change s s' pid r r' e') (id : Ref) :
    s'.artifactTransfers.lookup id = if id = e'.id then some e' else s.artifactTransfers.lookup id := by
  rw [h.transfers]
  split
  next heq => rw [heq, AList.lookup_insert]
  next hne => exact AList.lookup_insert_ne hne

theorem isSome (h : Change s s' pid r r' e') {b : Pid} (hb : (s.holders.lookup b).isSome = true) :
    (s'.holders.lookup b).isSome = true := by
  rw [h.lookup_holder]
  split
  · rfl
  · exact hb

theorem inv (h : Change s s' pid r r' e') (hinv : Inv dead s) (hsound : s'.calls.Sound)
    (hfresh : ∀ c ∈ s'.calls, c.id.tag < s'.next) (haccount : Account dead s'.calls pid r') (hkept : Kept s' e') :
    Inv dead s' where
  keyed id₁ e₁ he₁ := by
    rw [h.lookup_entry] at he₁
    split at he₁
    next heq =>
      cases he₁
      exact heq.symm
    · exact hinv.keyed id₁ e₁ he₁
  failed := h.failed.trans hinv.failed
  sound := hsound
  fresh := hfresh
  known c hc := by
    rcases h.admitted c.id c.account ⟨c, hc, rfl, rfl⟩ with ⟨c₀, hc₀, -, haccount₀⟩ | ⟨heq, -⟩
    · rcases hinv.known c₀ hc₀ with hdead | hsome
      · exact .inl (haccount₀ ▸ hdead)
      · exact .inr (h.isSome (haccount₀ ▸ hsome))
    · right
      rw [h.lookup_holder, if_pos heq]
      rfl
  accounts b r₁ hr₁ := by
    rw [h.lookup_holder] at hr₁
    split at hr₁
    next heq =>
      cases hr₁
      exact heq ▸ haccount
    next hne =>
      have hold := hinv.accounts b r₁ hr₁
      obtain ⟨hheld, hspent⟩ := h.other b hne
      exact ⟨hold.debit.trans hspent.symm, hold.reserved.trans hheld.symm, hold.budget, hold.ended⟩
  entries id₁ e₁ he₁ := by
    rw [h.lookup_entry] at he₁
    split at he₁
    · cases he₁
      exact hkept
    next hne =>
      have hold := hinv.entries id₁ e₁ he₁
      have hid := hinv.keyed id₁ e₁ he₁
      exact hold.of_mem (h.isSome hold.holder) fun c hc href => h.mem c hc (by rwa [href, hid])

theorem later (h : Change s s' pid r r' e') : Later dead dead s s' where
  ended := fun _ h => h
  debit b r₁ hr₁ := by
    left
    rw [h.lookup_holder]
    split
    next heq =>
      rw [heq, h.account] at hr₁
      cases hr₁
      exact ⟨r', rfl, h.debit, h.uncertain⟩
    · exact ⟨r₁, hr₁, le_refl _, fun hu => hu⟩
  gone b hgone := by
    refine ⟨?_, hgone.2⟩
    rw [h.lookup_holder, if_neg]
    · exact hgone.1
    · rintro rfl
      have haccount := h.account
      rw [hgone.1] at haccount
      cases haccount
  kept := h.kept
  admitted call a hcalled := by
    rcases h.admitted call a hcalled with hcalled | ⟨rfl, hu⟩
    · exact .inl hcalled
    · right
      rintro (⟨r₁, hr₁, hu₁⟩ | hgone)
      · rw [h.account] at hr₁
        cases hr₁
        rw [hu] at hu₁
        cases hu₁
      · have haccount := h.account
        rw [hgone.1] at haccount
        cases haccount

theorem evidenced (h : Change s s' pid r r' e') (hs : s.Evidenced) (he' : e'.Evidenced) : s'.Evidenced := by
  intro id₁ e₁ he₁
  rw [h.lookup_entry] at he₁
  split at he₁
  · cases he₁
    exact he'
  · exact hs id₁ e₁ he₁

end Change

/-! ## settling a call -/

theorem called_update {calls : WorkLedger StoreCall Pid} {k call : StoreCall} {a : Pid}
    {f : WorkCall StoreCall Pid → WorkCall StoreCall Pid} (hid : ∀ c, (f c).id = c.id)
    (haccount : ∀ c, (f c).account = c.account) :
    (∃ c ∈ calls.update k f, c.id = call ∧ c.account = a) ↔ ∃ c ∈ calls, c.id = call ∧ c.account = a := by
  constructor
  · rintro ⟨c', hc', rfl, rfl⟩
    obtain ⟨c, hc, rfl⟩ := WorkLedger.mem_update hc'
    refine ⟨c, hc, ?_, ?_⟩
    · split
      · exact (hid c).symm
      · rfl
    · split
      · exact (haccount c).symm
      · rfl
  · rintro ⟨c, hc, rfl, rfl⟩
    refine ⟨if c.id = k then f c else c, List.mem_map.2 ⟨c, hc, rfl⟩, ?_, ?_⟩
    · split
      · exact hid c
      · rfl
    · split
      · exact haccount c
      · rfl

/-- An account and one of its calls change together. -/
theorem change_update (r' : Holder) (e' : Entry) {f : WorkCall StoreCall Pid → WorkCall StoreCall Pid} (h : Inv dead s)
    (hr : s.holders.lookup pid = some r) (hc : c ∈ s.calls) (haccount : c.account = pid) (href : c.id.ref = e'.id)
    (hid : ∀ c, (f c).id = c.id) (hf : ∀ c, (f c).account = c.account) (hdebit : r.transferDebit ≤ r'.transferDebit)
    (huncertain : r.transferUncertain = true → r'.transferUncertain = true) :
    Change s ({ s.putHolder pid r' with calls := s.calls.update c.id f }.putEntry e') pid r r' e' where
  account := hr
  holders := rfl
  transfers := rfl
  next := le_refl _
  failed := rfl
  debit := hdebit
  uncertain := huncertain
  mem d hd hne := WorkLedger.mem_update_of_ne hd fun heq => hne (by rw [heq, href])
  kept _ _ hcalled := (called_update hid hf).2 hcalled
  admitted _ _ hcalled := .inl ((called_update hid hf).1 hcalled)
  other b hne := by
    have hne : c.account ≠ b := by
      rw [haccount]
      exact hne.symm
    refine ⟨?_, ?_⟩
    · rw [WorkLedger.heldBy, State.putEntry, WorkLedger.total_update h.sound.nodup hc (hf c), if_neg hne, add_zero]
      rfl
    · rw [WorkLedger.spentBy, State.putEntry, WorkLedger.total_update h.sound.nodup hc (hf c), if_neg hne, add_zero]
      rfl

theorem fresh_update {f : WorkCall StoreCall Pid → WorkCall StoreCall Pid} (h : Inv dead s) (hid : ∀ c, (f c).id = c.id) :
    ∀ d ∈ s.calls.update c.id f, d.id.tag < s.next := by
  intro d' hd'
  obtain ⟨d, hd, rfl⟩ := WorkLedger.mem_update hd'
  have hlt := h.fresh d hd
  split
  · rwa [hid]
  · exact hlt

theorem settleConnectionWork_of_lookup {call : StoreCall} {reserved : ℤ} (hr : s.holders.lookup pid = some r) :
    s.settleConnectionWork call pid reserved cost =
      { s.putHolder pid { r with
          transferReserved := r.transferReserved - reserved
          transferDebit := r.transferDebit + cost } with
        calls := s.calls.settle call cost } := by
  rw [State.settleConnectionWork, hr]

/-- A call is charged: its account, and the transfer as it is afterwards. -/
theorem Inv.charge (e' : Entry) (cost : ℤ) (h : Inv dead s) (hsome : (s.holders.lookup pid).isSome = true) (hc : c ∈ s.calls)
    (haccount : c.account = pid) (href : c.id.ref = e'.id) (hopen : c.charges = []) (hcost : 0 ≤ cost)
    (hle : cost ≤ c.worst) (hkept : Kept (s.settleConnectionWork c.id pid c.worst cost) e') :
    Inv dead ((s.settleConnectionWork c.id pid c.worst cost).putEntry e') ∧
      Later dead dead s ((s.settleConnectionWork c.id pid c.worst cost).putEntry e') ∧
      (s.Evidenced → e'.Evidenced → ((s.settleConnectionWork c.id pid c.worst cost).putEntry e').Evidenced) := by
  obtain ⟨r, hr⟩ := Option.isSome_iff_exists.1 hsome
  have hold := h.accounts pid r hr
  rw [settleConnectionWork_of_lookup hr] at hkept ⊢
  have hchange := change_update
    { r with transferReserved := r.transferReserved - c.worst, transferDebit := r.transferDebit + cost } e'
    (f := fun c => { c with charges := c.charges ++ [cost] }) h hr hc haccount href (fun _ => rfl)
    (fun _ => rfl) (by simpa using hcost) fun hu => hu
  have hheld : WorkLedger.heldBy (s.calls.settle c.id cost) pid = s.calls.heldBy pid - c.worst := by
    rw [WorkLedger.heldBy_settle h.sound hc hopen, if_pos haccount]
  have hspent : WorkLedger.spentBy (s.calls.settle c.id cost) pid = s.calls.spentBy pid + cost := by
    rw [WorkLedger.spentBy_settle h.sound hc, if_pos haccount]
  have hafter : Account dead (s.calls.settle c.id cost) pid
      { r with transferReserved := r.transferReserved - c.worst, transferDebit := r.transferDebit + cost } := by
    constructor
    · rw [hspent, ← hold.debit]
    · rw [hheld, ← hold.reserved]
    · intro hu
      have hbudget := hold.budget hu
      simp only
      omega
    · exact hold.ended
  exact ⟨hchange.inv h (h.sound.settle hc hopen hcost hle) (fresh_update h fun _ => rfl) hafter
    (hkept.of_mem hkept.holder fun c hc _ => hc), hchange.later, hchange.evidenced⟩

theorem raised_of_open (h : c.Sound) (hopen : c.charges = []) : c.raised = 0 := by
  rcases h.cases with ⟨-, hraised⟩ | ⟨_, hcharges, -⟩
  · exact hraised
  · rw [hopen] at hcharges
    cases hcharges

theorem openWorkReservation_eq : State.openWorkReservation = 134348801 := by decide

/-- An opening is charged at most what was reserved for it. -/
theorem previousDebit_bounds {report : WorkReport} (h : State.validTransferWork report = true) :
    0 ≤ State.previousDebit (some report) ∧ State.previousDebit (some report) ≤ State.openWorkReservation := by
  cases report with
  | unavailable => cases h
  | work work =>
    simp only [State.validTransferWork, Bool.and_eq_true, decide_eq_true_eq] at h
    rw [openWorkReservation_eq]
    simp only [State.previousDebit, State.workDebit]
    omega

/-- An opening is charged, for the work `w`. -/
theorem Inv.chargeOpening (h : Inv dead s) (he : s.artifactTransfers.lookup id = some e)
    (hcharged : e.openingCharged = false) {w : Option WorkReport} (hw : w ≠ some .unavailable)
    (hnonneg : 0 ≤ State.previousDebit w) (hle : State.previousDebit w ≤ State.openWorkReservation) :
    let s' := (s.settleConnectionWork (.opening id e.custodian) e.holder e.workReserved (State.previousDebit w)).putEntry
      { e with openingCharged := true, openingWork := w }
    Inv dead s' ∧ Later dead dead s s' ∧
      (s.Evidenced → { e with openingCharged := true, openingWork := w : Entry }.Evidenced → s'.Evidenced) := by
  obtain rfl := h.keyed id e he
  have hkept := h.entries _ e he
  obtain ⟨c, hc, hid, haccount, hworst, hopening⟩ := hkept.opening
  have hopen : c.charges = [] := by
    cases hopening with
    | uncharged _ _ hcharges => exact hcharges
    | charged hcharged' => rw [hcharged] at hcharged'; cases hcharged'
    | disputed hcharged' => rw [hcharged] at hcharged'; cases hcharged'
  obtain ⟨r, hr⟩ := Option.isSome_iff_exists.1 hkept.holder
  have hstep := Inv.charge { e with openingCharged := true, openingWork := w } (State.previousDebit w) h
    hkept.holder hc haccount (by rw [hid]; rfl) hopen hnonneg (by rw [hworst, hkept.workReserved]; exact hle)
  rw [hid, hworst] at hstep
  apply hstep
  rw [settleConnectionWork_of_lookup hr]
  constructor
  · change (AList.lookup e.holder (AList.insert _ _ _)).isSome = true
    rw [AList.lookup_insert]
    rfl
  · exact hkept.workReserved
  · refine ⟨{ c with charges := c.charges ++ [State.previousDebit w] }, ?_, hid, haccount, hworst, ?_⟩
    · rw [← hid]
      exact WorkLedger.mem_update_self (f := fun c => { c with charges := c.charges ++ [State.previousDebit w] }) hc
    · have hraised : c.raised = 0 := raised_of_open (h.sound.calls c hc) hopen
      exact .charged rfl hw (by rw [hopen]; rfl) hraised
  · intro read hread
    obtain ⟨d, hd, hdid, hrest⟩ := hkept.read read hread
    exact ⟨d, WorkLedger.mem_update_of_ne hd (by rw [hdid]; simp), hdid, hrest⟩
  · exact hkept.cursor
  · exact hkept.acknowledge

/-- A refusal to register settles an opening that nothing has charged. -/
theorem moves_settleNeverReserved (h : Inv dead s) (he : s.artifactTransfers.lookup id = some e)
    (hcharged : e.openingCharged = false) (hev : e.invocation ≠ .reserve) :
    Moves dead s (s.settleNeverReserved id) := by
  have hwork : e.openingWork = none := by
    obtain ⟨c, -, -, -, -, hopening⟩ := (h.entries id e he).opening
    cases hopening with
    | uncharged _ hwork _ => exact hwork
    | charged hcharged' => rw [hcharged] at hcharged'; cases hcharged'
    | disputed hcharged' => rw [hcharged] at hcharged'; cases hcharged'
  have hdebit : State.previousDebit e.openingWork = 1048576 := by
    rw [hwork]
    rfl
  have hstep := h.chargeOpening he hcharged (w := e.openingWork) (by rw [hwork]; simp) (by rw [hdebit]; decide)
    (by rw [hdebit]; decide)
  rw [hdebit] at hstep
  rw [State.settleNeverReserved, fetchEntry_of_lookup he]
  exact ⟨hstep.1, hstep.2.1, fun hs => hstep.2.2 hs fun hreserve => absurd hreserve hev⟩

theorem disputeOpeningWork_of_lookup (hr : s.holders.lookup e.holder = some r) :
    s.disputeOpeningWork e = { s.putHolder e.holder { r with
          transferReserved := r.transferReserved + e.workReserved - State.previousDebit e.openingWork
          transferUncertain := true } with
        calls := s.calls.raise (.opening e.id e.custodian) (e.workReserved - State.previousDebit e.openingWork) }.putEntry
      { e with openingWork := some .unavailable } := by
  rw [State.disputeOpeningWork, hr]

theorem settleNeverReserved_lookup (he : s.artifactTransfers.lookup id = some e) :
    (s.settleNeverReserved id).artifactTransfers.lookup e.id = some { e with openingCharged := true } := by
  rw [State.settleNeverReserved, fetchEntry_of_lookup he, lookup_putEntry, if_pos rfl]

/-- Contradicting work takes up the rest of the reservation again, and seals the account. -/
theorem Inv.dispute (h : Inv dead s) (he : s.artifactTransfers.lookup id = some e) (hcharged : e.openingCharged = true)
    (hwork : e.openingWork ≠ some .unavailable) :
    Inv dead (s.disputeOpeningWork e) ∧ Later dead dead s (s.disputeOpeningWork e) := by
  obtain rfl := h.keyed id e he
  have hkept := h.entries _ e he
  obtain ⟨c, hc, hid, haccount, hworst, hopening⟩ := hkept.opening
  have hcharges : c.charges = [State.previousDebit e.openingWork] ∧ c.raised = 0 := by
    cases hopening with
    | uncharged hcharged' => rw [hcharged] at hcharged'; cases hcharged'
    | charged _ _ hcharges hraised => exact ⟨hcharges, hraised⟩
    | disputed _ hwork' => exact absurd hwork' hwork
  obtain ⟨r, hr⟩ := Option.isSome_iff_exists.1 hkept.holder
  have hold := h.accounts e.holder r hr
  rw [disputeOpeningWork_of_lookup hr, ← hid]
  have hchange := change_update
    { r with
      transferReserved := r.transferReserved + e.workReserved - State.previousDebit e.openingWork
      transferUncertain := true }
    { e with openingWork := some .unavailable }
    (f := fun d => { d with raised := d.raised + (e.workReserved - State.previousDebit e.openingWork) })
    h hr hc haccount (by rw [hid]; rfl) (fun _ => rfl) (fun _ => rfl) (le_refl _) fun _ => rfl
  have hheld : WorkLedger.heldBy (s.calls.raise c.id (e.workReserved - State.previousDebit e.openingWork)) e.holder =
      s.calls.heldBy e.holder + (e.workReserved - State.previousDebit e.openingWork) := by
    rw [WorkLedger.heldBy_raise h.sound hc (by rw [hcharges.1]; simp), if_pos haccount]
  have hsound := h.sound.raise hc hcharges.1 hcharges.2
  rw [hworst] at hsound
  have hafter : Account dead (s.calls.raise c.id (e.workReserved - State.previousDebit e.openingWork)) e.holder
      { r with
        transferReserved := r.transferReserved + e.workReserved - State.previousDebit e.openingWork
        transferUncertain := true } := by
    refine ⟨?_, ?_, nofun, hold.ended⟩
    · rw [WorkLedger.spentBy_raise h.sound hc, ← hold.debit]
    · rw [hheld, ← hold.reserved]
      simp only
      omega
  refine ⟨hchange.inv h hsound (fresh_update h fun _ => rfl) hafter ?_, hchange.later⟩
  constructor
  · change (AList.lookup e.holder (AList.insert _ _ _)).isSome = true
    rw [AList.lookup_insert]
    rfl
  · exact hkept.workReserved
  · exact ⟨_, WorkLedger.mem_update_self hc, hid, haccount, hworst,
      .disputed hcharged rfl (by rw [hcharges.1]; simp)⟩
  · intro read hread
    obtain ⟨d, hd, hdid, hrest⟩ := hkept.read read hread
    exact ⟨d, WorkLedger.mem_update_of_ne hd (by rw [hdid, hid]; simp), hdid, hrest⟩
  · exact hkept.cursor
  · exact hkept.acknowledge

/-- **What reported work does to an account**, and to its transfer: nothing but the charge of the opening changes. -/
theorem settleOpeningWork_spec (h : Inv dead s) (he : s.artifactTransfers.lookup id = some e) (report : WorkReport) :
    Inv dead (s.settleOpeningWork id report) ∧ Later dead dead s (s.settleOpeningWork id report) ∧
      ∃ charged work, ∀ id₁, (s.settleOpeningWork id report).artifactTransfers.lookup id₁ =
        if id₁ = id then some { e with openingCharged := charged, openingWork := work }
        else s.artifactTransfers.lookup id₁ := by
  obtain rfl := h.keyed id e he
  have hsame : Inv dead s ∧ Later dead dead s s ∧ ∃ charged work, ∀ id₁, s.artifactTransfers.lookup id₁ =
      if id₁ = e.id then some { e with openingCharged := charged, openingWork := work }
      else s.artifactTransfers.lookup id₁ := by
    refine ⟨h, .refl dead s, e.openingCharged, e.openingWork, fun id₁ => ?_⟩
    split
    next heq => rw [heq, he]
    · rfl
  obtain ⟨r, hr⟩ := Option.isSome_iff_exists.1 (h.entries _ e he).holder
  rw [State.settleOpeningWork, fetchEntry_of_lookup he]
  split
  next work hcharged =>
    split
    next hvalid =>
      obtain ⟨hnonneg, hle⟩ := previousDebit_bounds hvalid
      have hstep := h.chargeOpening he hcharged (by simp) hnonneg hle
      refine ⟨hstep.1, hstep.2.1, true, some (.work work), fun id₁ => ?_⟩
      rw [lookup_putEntry, settleConnectionWork_of_lookup hr]
      rfl
    · exact hsame
  · exact hsame
  next _ hcharged =>
    split
    next hwork =>
      have hstep := h.dispute he hcharged hwork.2
      refine ⟨hstep.1, hstep.2, e.openingCharged, some .unavailable, fun id₁ => ?_⟩
      rw [disputeOpeningWork_of_lookup hr, lookup_putEntry]
      rfl
    · exact hsame

/-- Reported work, once the store has answered the reservation. -/
theorem moves_settleOpeningWork (h : Inv dead s) (he : s.artifactTransfers.lookup id = some e)
    (hev : e.invocation ≠ .reserve) (report : WorkReport) :
    Moves dead s (s.settleOpeningWork id report) ∧ ∃ charged work,
      (s.settleOpeningWork id report).artifactTransfers.lookup id =
        some { e with openingCharged := charged, openingWork := work } := by
  obtain ⟨hinv, hlater, charged, work, hlookup⟩ := settleOpeningWork_spec h he report
  refine ⟨⟨hinv, hlater, fun hs id₁ e₁ he₁ => ?_⟩, charged, work, by rw [hlookup, if_pos rfl]⟩
  rw [hlookup] at he₁
  split at he₁
  · cases he₁
    exact fun hreserve => absurd hreserve hev
  · exact hs id₁ e₁ he₁

/-! ## results -/

theorem moves_reserveResult (h : Inv dead s) (he : s.artifactTransfers.lookup id = some e)
    (hev : e.invocation ≠ .reserve) (result : ReserveResult)
    (hguard : ∀ reason ref notReserved, result = .error reason ref notReserved →
      validReserveResult result e.context = true → e.openingCharged = false) :
    Moves dead s (s.reserveResult v id result) := by
  obtain rfl := h.keyed id e he
  rw [State.reserveResult, fetchEntry_of_lookup he]
  split
  next hvalid =>
    split
    · have hput : Frame s (s.putEntry { e with reserved := true, phase := .reserved }) :=
        frame_putEntry he ⟨rfl, rfl, rfl, rfl, rfl, rfl, rfl, rfl, rfl, rfl, .inl, fun h => h⟩
      obtain ⟨e', he', hsame⟩ := hput.lookup he
      dsimp only
      split
      · refine h.frame (hput.putEntry he ?_)
        exact ⟨rfl, rfl, rfl, rfl, rfl, rfl, rfl, rfl, rfl, rfl, .inl, nofun⟩
      · have hretire := hput.trans (frame_retireArtifact (v := v) (hput.keyed h.keyed) e.id
          (State.lateReason v { e with reserved := true, phase := .reserved })
          (State.cancelAnchor v { e with reserved := true, phase := .reserved }))
        obtain ⟨e₁, he₁, -⟩ := hretire.lookup he
        exact h.frame (hretire.trans (frame_observeArtifactRetirement (hretire.keyed h.keyed) he₁))
    next reason ref notReserved =>
      have hcharged := hguard reason ref notReserved rfl hvalid
      have hput : Frame s (s.putEntry { e with
          notReserved := true
          noReservationProof := some .reply
          reason := some reason }) :=
        frame_putEntry he ⟨rfl, rfl, rfl, rfl, rfl, rfl, rfl, rfl, rfl, rfl, .inl, fun h => h⟩
      have hmoves := h.frame hput
      have hlookup := lookup_putEntry_self s { e with
        notReserved := true
        noReservationProof := some .reply
        reason := some reason }
      have hsettle := moves_settleNeverReserved hmoves.inv hlookup hcharged hev
      have hretire := frame_retireArtifact (v := v) hsettle.inv.keyed e.id reason (State.cancelAnchor v e)
      have hpresent := settleNeverReserved_lookup hlookup
      obtain ⟨e₁, he₁, -⟩ := hretire.lookup hpresent
      have hfinish := frame_finishArtifactActors (hretire.keyed hsettle.inv.keyed) he₁
      exact (hmoves.trans hsettle).trans (hsettle.inv.frame (hretire.trans hfinish))
    · exact .refl h
  · exact h.frame (frame_retireArtifact h.keyed _ _ _)

theorem moves_openResult {ev : Evidence} (h : Inv dead s) (he : s.artifactTransfers.lookup id = some e)
    (hev : e.invocation ≠ .reserve) (result : OpenResult) : Moves dead s (s.openResult ev v id result) := by
  obtain rfl := h.keyed id e he
  rw [State.openResult, fetchEntry_of_lookup he]
  split
  · split
    next transfer _ work _ =>
      obtain ⟨hsettle, charged, openingWork, he₁⟩ := moves_settleOpeningWork h he hev work
      dsimp only
      rw [fetchEntry_of_lookup he₁]
      have hkept := hsettle.inv.entries e.id _ he₁
      generalize s.settleOpeningWork e.id work = s₁ at hsettle he₁ hkept
      split
      · have hcursor : transfer.windowStart ≤ transfer.windowStart + transfer.windowLength := Nat.le_add_right _ _
        have hstaged : Kept s₁ { e with
            openingCharged := charged
            openingWork := openingWork
            phase := .live
            transfer := some transfer
            cursor := transfer.windowStart
            lifetimeDeadline := e.callbackCompletedAt.map (· + lifetimeMs) } :=
          hkept.stage rfl rfl rfl rfl rfl rfl (.inl rfl) hcursor hkept.acknowledge
        have hlive := hsettle.inv.putEntry hstaged
          (fun _ hreserve => absurd hreserve hev)
        have he₂ := lookup_putEntry_self s₁ { e with
            openingCharged := charged
            openingWork := openingWork
            phase := .live
            transfer := some transfer
            cursor := transfer.windowStart
            lifetimeDeadline := e.callbackCompletedAt.map (· + lifetimeMs) }
        refine hsettle.trans (hlive.trans ?_)
        split
        · exact hlive.inv.frame (frame_replyArtifactOpen hlive.inv.keyed he₂)
        · have hretire := frame_retireArtifact (v := v) hlive.inv.keyed e.id .openDeadlineExhausted e.context.openDeadlineMs
          obtain ⟨e₃, he₃, -⟩ := hretire.lookup he₂
          exact hlive.inv.frame (hretire.trans (frame_replyArtifactOpen (hretire.keyed hlive.inv.keyed) he₃))
      · exact hsettle.trans (hsettle.inv.frame (frame_retire_advance hsettle.inv.keyed he₁))
    next reason _ work _ _ =>
      obtain ⟨hsettle, charged, openingWork, he₁⟩ := moves_settleOpeningWork h he hev work
      exact hsettle.trans (hsettle.inv.frame (frame_retire_advance hsettle.inv.keyed he₁))
    · exact .refl h
  · exact h.frame (frame_retire_advance h.keyed he)

/-- A valid result of a read is no longer than what was reserved for it, and stays in the window. -/
theorem artifactReadResult_bounds {result : ReadResult} {length : ℤ} {bytes : ℕ} (hlength : 0 ≤ length)
    (h : artifactReadResult result e length = (true, bytes)) : (bytes : ℤ) ≤ length ∧ e.cursor + bytes ≤ e.stop := by
  unfold artifactReadResult at h
  split at h
  · split at h
    next hok =>
      cases h
      exact ⟨hok.2.1, hok.2.2.2.1⟩
    · cases h
  · simp only [Prod.mk.injEq, decide_eq_true_eq] at h
    obtain ⟨hcursor, rfl⟩ := h
    exact ⟨hlength, by omega⟩
  · cases h
  · cases h

/-- A read that ends: its call is charged if the result is valid, and stays reserved if it is not. -/
theorem Inv.endRead (h : Inv dead s) (he : s.artifactTransfers.lookup id = some e) {read : Read}
    (hread : e.read = some read) (hev : e.invocation ≠ .reserve) (valid : Bool) (bytes : ℕ)
    (hbounds : valid = true → (bytes : ℤ) ≤ read.reserved ∧ e.cursor + bytes ≤ e.stop) :
    Moves dead s ((if valid = true then s.settleConnectionWork (.read id read.id) e.holder read.reserved bytes
      else s).putEntry { e with read := none, cursor := if valid = true then e.cursor + bytes else e.cursor }) := by
  obtain rfl := h.keyed id e he
  have hkept := h.entries _ e he
  cases valid with
  | false =>
    exact h.putEntry (hkept.stage rfl rfl rfl rfl rfl rfl (.inr rfl) hkept.cursor hkept.acknowledge)
      fun _ hreserve => absurd hreserve hev
  | true =>
    obtain ⟨hle, hcursor⟩ := hbounds rfl
    obtain ⟨c, hc, hid, haccount, hworst, hopen⟩ := hkept.read read hread
    obtain ⟨r, hr⟩ := Option.isSome_iff_exists.1 hkept.holder
    have hstep := Inv.charge { e with read := none, cursor := e.cursor + bytes } bytes h hkept.holder hc haccount
      (by rw [hid]; rfl) hopen (Int.natCast_nonneg bytes) (by rwa [hworst])
    rw [hid, hworst] at hstep
    have hend := hstep ?_
    · exact ⟨hend.1, hend.2.1, fun hs => hend.2.2 hs fun hreserve => absurd hreserve hev⟩
    rw [settleConnectionWork_of_lookup hr]
    constructor
    · change (AList.lookup e.holder (AList.insert _ _ _)).isSome = true
      rw [AList.lookup_insert]
      rfl
    · exact hkept.workReserved
    · obtain ⟨d, hd, hdid, hrest⟩ := hkept.opening
      exact ⟨d, WorkLedger.mem_update_of_ne hd (by rw [hdid]; simp), hdid, hrest.1, hrest.2.1,
        .congr (e := e) rfl rfl hrest.2.2⟩
    · exact nofun
    · exact hcursor
    · exact hkept.acknowledge

theorem moves_readResult (h : Inv dead s) (he : s.artifactTransfers.lookup id = some e) (hev : e.invocation ≠ .reserve)
    (readId : Tag) (result : ReadResult) : Moves dead s (s.readResult v id readId result) := by
  obtain rfl := h.keyed id e he
  rw [State.readResult, fetchEntry_of_lookup he]
  split
  next read hread =>
    split
    · obtain ⟨c, hc, -, -, hworst, -⟩ := (h.entries _ e he).read read hread
      have hnonneg : 0 ≤ read.reserved := hworst ▸ (h.sound.calls c hc).worst_nonneg
      cases hresult : artifactReadResult result e read.reserved with
      | mk valid bytes =>
        have hend := h.endRead he hread hev valid bytes fun hvalid => by
          subst hvalid
          exact artifactReadResult_bounds hnonneg hresult
        dsimp only
        split
        · have he₁ := lookup_putEntry_self (if valid = true then
              s.settleConnectionWork (.read e.id read.id) e.holder read.reserved bytes else s)
            { e with read := none, cursor := if valid = true then e.cursor + bytes else e.cursor }
          exact hend.trans (hend.inv.frame (frame_retire_advance hend.inv.keyed he₁))
        · exact hend
    · exact .refl h
  · exact .refl h

/-- A receipt settles the opening and is kept. -/
theorem moves_receipt (h : Inv dead s) (he : s.artifactTransfers.lookup id = some e) (receipt : Receipt)
    (report : WorkReport) : Moves dead s ((s.settleOpeningWork id report).fetchEntry id fun entry =>
      (((s.settleOpeningWork id report).putEntry { (if entry.notReserved then entry.loss .other else entry : Entry) with
        receipt := some receipt }).advanceArtifactCleanup id)) := by
  obtain rfl := h.keyed id e he
  obtain ⟨hinv, hlater, charged, work, hlookup⟩ := settleOpeningWork_spec h he report
  have he₁ : (s.settleOpeningWork e.id report).artifactTransfers.lookup e.id =
      some { e with openingCharged := charged, openingWork := work } := by rw [hlookup, if_pos rfl]
  rw [fetchEntry_of_lookup he₁]
  have hkept := hinv.entries e.id _ he₁
  generalize hentry : ({ (if e.notReserved = true then
      Entry.loss { e with openingCharged := charged, openingWork := work } .other
    else { e with openingCharged := charged, openingWork := work } : Entry) with receipt := some receipt } : Entry) = e₂
  have hid : e₂.id = e.id := by
    rw [← hentry]
    dsimp only
    split <;> rfl
  have hreceipt : e₂.receipt.isSome = true := by
    rw [← hentry]
    rfl
  have hkept₂ : Kept (s.settleOpeningWork e.id report) e₂ := by
    rw [← hentry]
    split
    · exact hkept.stage rfl rfl rfl rfl rfl rfl (.inl rfl) hkept.cursor fun _ => rfl
    · exact hkept.stage rfl rfl rfl rfl rfl rfl (.inl rfl) hkept.cursor fun _ => rfl
  have hput : Moves dead s ((s.settleOpeningWork e.id report).putEntry e₂) := by
    have hmoves := hinv.putEntry hkept₂ fun _ _ _ => hreceipt
    refine ⟨hmoves.inv, hlater.trans hmoves.later, fun hs id₁ e₁ he₁ => ?_⟩
    rcases lookup_putEntry_cases he₁ with ⟨-, rfl⟩ | ⟨hne, he₁⟩
    · exact fun _ _ => hreceipt
    · rw [hlookup, if_neg (hid ▸ hne)] at he₁
      exact hs id₁ e₁ he₁
  have he₂ := lookup_putEntry_self (s.settleOpeningWork e.id report) e₂
  rw [hid] at he₂
  exact hput.trans (hput.inv.frame (frame_advanceArtifactCleanup hput.inv.keyed he₂))

theorem moves_retireResult (h : Inv dead s) (hs : s.Evidenced) (he : s.artifactTransfers.lookup id = some e)
    (result : CloseResult) : Moves dead s (s.retireResult v id result) := by
  obtain rfl := h.keyed id e he
  have hother : Moves dead s (if e.notReserved then s.finishArtifactActors e.id else s.expireArtifactCleanup e.id) := by
    split
    · exact h.frame (frame_finishArtifactActors h.keyed he)
    · exact h.frame (frame_expireArtifactCleanup h.keyed he)
  rw [State.retireResult, fetchEntry_of_lookup he]
  split
  next transferRef receiptRef work =>
    split
    · exact moves_receipt h he ⟨receiptRef, work⟩ work
    · exact hother
  · split
    next hproof =>
      have hcandidate := hproof.2.2.2
      simp only [Entry.lostRegistrationCandidate, Bool.and_eq_true, decide_eq_true_eq, Option.isNone_iff_eq_none]
        at hcandidate
      have hcharged : e.openingCharged = false := by
        cases hcharged : e.openingCharged with
        | false => rfl
        | true =>
          have hreceipt := hs _ e he hcandidate.1.2 hcharged
          rw [hcandidate.1.1.1.2] at hreceipt
          cases hreceipt
      have hput : Frame s (s.putEntry { e with
          notReserved := true
          noReservationProof := some .lostRegistration
          invocation := .joined }) :=
        frame_putEntry he ⟨rfl, rfl, rfl, rfl, rfl, rfl, rfl, rfl, rfl, rfl, .inl, nofun⟩
      have hmoves := h.frame hput
      have he₁ := lookup_putEntry_self s { e with
        notReserved := true
        noReservationProof := some .lostRegistration
        invocation := .joined }
      have hsettle := moves_settleNeverReserved hmoves.inv he₁ hcharged nofun
      have hfinish := frame_finishArtifactActors hsettle.inv.keyed (settleNeverReserved_lookup he₁)
      exact (hmoves.trans hsettle).trans (hsettle.inv.frame hfinish)
    · exact hother
  · exact hother

theorem moves_acknowledgeResult (h : Inv dead s) (he : s.artifactTransfers.lookup id = some e)
    (hreceipt : e.receipt.isSome = true) (result : CloseResult) : Moves dead s (s.acknowledgeResult id result) := by
  obtain rfl := h.keyed id e he
  rw [State.acknowledgeResult, fetchEntry_of_lookup he]
  split
  · split
    · have hput : Frame s (s.putEntry { e with acknowledged := true }) :=
        frame_putEntry he ⟨rfl, rfl, rfl, rfl, rfl, rfl, rfl, rfl, rfl, rfl, .inl, fun h => h⟩
      exact h.frame (hput.trans (frame_finishArtifactActors (hput.keyed h.keyed) (lookup_putEntry_self s _)))
    · exact .refl h
  · exact .refl h
  next _ hnone =>
    rw [hnone] at hreceipt
    cases hreceipt

/-! ## ends -/

/-- A process that has ended is forgotten once nothing is open for it. -/
theorem moves_forgetDeadArtifactHolder (h : Inv dead s) (pid : Pid) : Moves dead s (s.forgetDeadArtifactHolder pid) := by
  rw [State.forgetDeadArtifactHolder]
  split
  next r hr =>
    split
    next hidle =>
      have hdead := (h.accounts pid r hr).ended hidle.1
      have hlookup : ∀ b, (s.holders.erase pid).lookup b = if b = pid then none else s.holders.lookup b := by
        intro b
        split
        next heq => rw [heq, AList.lookup_erase]
        next hne => exact AList.lookup_erase_ne hne
      refine ⟨⟨h.keyed, h.failed, h.sound, h.fresh, ?_, ?_, ?_⟩, ?_, fun hs => hs⟩
      · intro c hc
        change _ ∨ (AList.lookup c.account (s.holders.erase pid)).isSome = true
        rw [hlookup]
        split
        next heq => exact .inl (heq ▸ hdead)
        · exact h.known c hc
      · intro b r₁ hr₁
        change AList.lookup b (s.holders.erase pid) = some r₁ at hr₁
        rw [hlookup] at hr₁
        split at hr₁
        · cases hr₁
        · exact h.accounts b r₁ hr₁
      · intro id₁ e₁ he₁
        have hkept := h.entries id₁ e₁ he₁
        refine hkept.of_mem ?_ fun c hc _ => hc
        have hall := List.all_eq_true.1 hidle.2.1 _ (AList.mem_lookup_iff.1 he₁)
        change (AList.lookup e₁.holder (s.holders.erase pid)).isSome = true
        rw [hlookup, if_neg (by simpa using hall)]
        exact hkept.holder
      · have hgone : ∀ b, Gone dead s b → (s.holders.erase pid).lookup b = none := by
          intro b hb
          rw [hlookup]
          split
          · rfl
          · exact hb.1
        refine ⟨fun _ hb => hb, fun b r₁ hr₁ => ?_, fun b hb => ⟨hgone b hb, hb.2⟩, fun _ _ hc => hc,
          fun _ _ hc => .inl hc⟩
        by_cases heq : b = pid
        · exact .inr ⟨by change AList.lookup b (s.holders.erase pid) = none; rw [hlookup, if_pos heq], heq ▸ hdead⟩
        · left
          refine ⟨r₁, ?_, le_refl _, fun hu => hu⟩
          change AList.lookup b (s.holders.erase pid) = some r₁
          rw [hlookup, if_neg heq, hr₁]
    · exact .refl h
  · exact .refl h

theorem moves_maybeReleaseArtifact (h : Inv dead s) (he : s.artifactTransfers.lookup id = some e) :
    Moves dead s (s.maybeReleaseArtifact id) := by
  rw [State.maybeReleaseArtifact, fetchEntry_of_lookup he]
  dsimp only
  split
  · have hlookup : ∀ id₁ e₁, (s.artifactTransfers.erase id).lookup id₁ = some e₁ →
        s.artifactTransfers.lookup id₁ = some e₁ := by
      intro id₁ e₁ he₁
      by_cases heq : id₁ = id
      · rw [heq, AList.lookup_erase] at he₁
        cases he₁
      · rwa [AList.lookup_erase_ne heq] at he₁
    have herase : Moves dead s { s with
        artifactTransfers := s.artifactTransfers.erase id
        artifactMonitors := ((s.artifactMonitors.erase e.custodianMonitor).erase e.observerMonitor).erase
          e.callerMonitor } := by
      refine ⟨⟨fun id₁ e₁ he₁ => h.keyed id₁ e₁ (hlookup id₁ e₁ he₁), h.failed, h.sound, h.fresh, h.known, h.accounts,
        fun id₁ e₁ he₁ => ?_⟩, .of_eq rfl fun _ => rfl, fun hs id₁ e₁ he₁ => hs id₁ e₁ (hlookup id₁ e₁ he₁)⟩
      have hkept := h.entries id₁ e₁ (hlookup id₁ e₁ he₁)
      exact hkept.of_mem hkept.holder fun c hc _ => hc
    exact herase.trans (moves_forgetDeadArtifactHolder herase.inv e.holder)
  · exact .refl h

theorem moves_artifactOriginalDown (h : Inv dead s) (watch : Watch) (normal : Bool) :
    Moves dead s (s.artifactOriginalDown v id watch normal) := by
  rw [State.artifactOriginalDown]
  split
  · exact .refl h
  next e he =>
    obtain rfl := h.keyed id e he
    split
    · have hreply := frame_replyArtifactOpen h.keyed he
      exact h.frame (hreply.trans (frame_retireArtifact (hreply.keyed h.keyed) _ _ _))
    · dsimp only
      generalize hdown : (if watch = .custodian then { e with custodianDown := some normal }
        else { e with observerDown := some normal } : Entry) = down
      have hsame : e.Same down := by
        rw [← hdown]
        split <;> exact ⟨rfl, rfl, rfl, rfl, rfl, rfl, rfl, rfl, rfl, rfl, .inl, fun h => h⟩
      generalize hlost : (if down.stopping && normal then down
        else down.loss (if watch = .custodian then .custodian else .other) : Entry) = lost
      have hsame' : e.Same lost := by
        rw [← hlost]
        split
        · exact hsame
        · exact hsame.trans (.loss _)
      have hput : Frame s (s.putEntry lost) := frame_putEntry (by rwa [hsame'.id]) hsame'
      have hmoves := h.frame hput
      have he₁ := lookup_putEntry_self s lost
      rw [hsame'.id] at he₁
      split
      · exact hmoves.trans (moves_maybeReleaseArtifact hmoves.inv he₁)
      · exact hmoves.trans (hmoves.inv.frame (frame_retireArtifact hmoves.inv.keyed _ _ _))

/-! ## holders -/

/-- The account of a process that has ended is marked. -/
theorem moves_putHolder_dead (h : Inv dead s) (hdead : pid ∈ dead) (hr : s.holders.lookup pid = some r) :
    Moves dead s (s.putHolder pid { r with alive := false }) := by
  have hlookup : ∀ b, (s.putHolder pid { r with alive := false }).holders.lookup b =
      if b = pid then some { r with alive := false } else s.holders.lookup b := by
    intro b
    rw [State.putHolder]
    split
    next heq => rw [heq, AList.lookup_insert]
    next hne => exact AList.lookup_insert_ne hne
  have hsome : ∀ b, ((s.putHolder pid { r with alive := false }).holders.lookup b).isSome =
      (s.holders.lookup b).isSome := by
    intro b
    rw [hlookup]
    split
    next heq =>
      rw [heq, hr]
      rfl
    · rfl
  refine ⟨⟨h.keyed, h.failed, h.sound, h.fresh, ?_, ?_, ?_⟩, ?_, fun hs => hs⟩
  · intro c hc
    rw [hsome]
    exact h.known c hc
  · intro b r₁ hr₁
    rw [hlookup] at hr₁
    split at hr₁
    next heq =>
      cases hr₁
      have hold := h.accounts pid r hr
      exact ⟨heq ▸ hold.debit, heq ▸ hold.reserved, hold.budget, fun _ => heq ▸ hdead⟩
    · exact h.accounts b r₁ hr₁
  · intro id₁ e₁ he₁
    have hkept := h.entries id₁ e₁ he₁
    exact hkept.of_mem (by rw [hsome]; exact hkept.holder) fun c hc _ => hc
  · refine ⟨fun _ hb => hb, fun b r₁ hr₁ => ?_, fun b hb => ⟨?_, hb.2⟩, fun _ _ hc => hc, fun _ _ hc => .inl hc⟩
    · left
      rw [hlookup]
      split
      next heq =>
        rw [heq, hr] at hr₁
        cases hr₁
        exact ⟨_, rfl, le_refl _, fun hu => hu⟩
      · exact ⟨r₁, hr₁, le_refl _, fun hu => hu⟩
    · have hnone := hsome b
      rw [hb.1] at hnone
      exact Option.isSome_eq_false_iff.1 hnone |> Option.isNone_iff_eq_none.1

theorem moves_dropHolder (h : Inv dead s) (unavailable : Bool) (hdead : unavailable = true → pid ∈ dead) :
    Moves dead s (s.dropHolder v pid unavailable) := by
  rw [State.dropHolder]
  split
  · exact .refl h
  next r hr =>
    have hstaged := frame_dropStaged h.keyed ((s.staged.entries.filter fun t => t.2.holder = pid).map Sigma.fst)
    have hdropped := hstaged.trans (frame_dropAttachments (v := v) (hstaged.keyed h.keyed) r.attachments)
    have hmoves := h.frame hdropped
    dsimp only
    split
    next hunavailable =>
      obtain ⟨r', hr', -⟩ := hdropped.holder' hr
      rw [hr']
      have hmarked := moves_putHolder_dead hmoves.inv (hdead hunavailable) hr'
      exact (hmoves.trans hmarked).trans (moves_forgetDeadArtifactHolder hmarked.inv pid)
    · exact hmoves

/-- A process that is alive and has no record starts with an empty account. -/
theorem moves_registerHolderPending (h : Inv dead s) (halive : pid ∉ dead) (attachRef : Tag) :
    Moves dead s (s.registerHolderPending pid attachRef) := by
  rw [State.registerHolderPending]
  split
  next hnone =>
    have hnever : ∀ c ∈ s.calls, c.account ≠ pid := by
      rintro c hc rfl
      rcases h.known c hc with hdead | hsome
      · exact halive hdead
      · rw [hnone] at hsome
        cases hsome
    have hlookup : ∀ (b : Pid) (r : Holder), (s.holders.insert pid r).lookup b =
        if b = pid then some r else s.holders.lookup b := by
      intro b r
      split
      next heq => rw [heq, AList.lookup_insert]
      next hne => exact AList.lookup_insert_ne hne
    refine ⟨⟨h.keyed, h.failed, h.sound, fun c hc => Nat.lt_succ_of_lt (h.fresh c hc), ?_, ?_, ?_⟩, ?_, fun hs => hs⟩
    · intro c hc
      change _ ∨ (AList.lookup c.account (s.holders.insert pid _)).isSome = true
      rw [hlookup, if_neg (hnever c hc)]
      exact h.known c hc
    · intro b r₁ hr₁
      change AList.lookup b (s.holders.insert pid _) = some r₁ at hr₁
      rw [hlookup] at hr₁
      split at hr₁
      next heq =>
        cases hr₁
        rw [heq]
        refine ⟨(WorkLedger.total_eq_zero hnever).symm, (WorkLedger.total_eq_zero hnever).symm, fun _ => ?_, nofun⟩
        simp [connectionBudget]
      · exact h.accounts b r₁ hr₁
    · intro id₁ e₁ he₁
      have hkept := h.entries id₁ e₁ he₁
      refine hkept.of_mem ?_ fun c hc _ => hc
      change (AList.lookup e₁.holder (s.holders.insert pid _)).isSome = true
      rw [hlookup]
      split
      · rfl
      · exact hkept.holder
    · refine ⟨fun _ hb => hb, fun b r₁ hr₁ => ?_, fun b hb => ⟨?_, hb.2⟩, fun _ _ hc => hc, fun _ _ hc => .inl hc⟩
      · refine .inl ⟨r₁, ?_, le_refl _, fun hu => hu⟩
        change AList.lookup b (s.holders.insert pid _) = some r₁
        rw [hlookup, if_neg, hr₁]
        rintro rfl
        rw [hnone] at hr₁
        cases hr₁
      · change AList.lookup b (s.holders.insert pid _) = none
        rw [hlookup, if_neg, hb.1]
        rintro rfl
        exact halive hb.2
  next r hr =>
    have hframe : Frame s (s.updateHolder pid fun r => { r with pending := r.pending.insert attachRef }) :=
      frame_updateHolder fun _ => rfl
    rw [State.updateHolder, hr] at hframe
    exact h.frame hframe

/-! ## admission -/

/-- What is admitted: within the budget of a live account that is not uncertain. -/
theorem reserveConnectionWork_eq_ok {call : StoreCall} {amount : ℤ} (h : s.reserveConnectionWork call pid amount = .ok s') :
    ∃ r, s.holders.lookup pid = some r ∧ r.transferUncertain = false ∧
      r.transferDebit + r.transferReserved + amount ≤ connectionBudget ∧
      s' = { s.putHolder pid { r with transferReserved := r.transferReserved + amount } with
        calls := s.calls.enter call pid amount } := by
  rw [State.reserveConnectionWork] at h
  split at h
  next r hr =>
    split at h
    next hopen =>
      split at h
      next hle =>
        cases h
        exact ⟨r, hr, hopen.2, hle, rfl⟩
      · cases h
    · cases h
  · cases h

/-- A call is admitted, with the transfer that makes it; `s'` differs from `s` in nothing else that matters. -/
theorem Inv.enter (e' : Entry) {call : StoreCall} {amount : ℤ} (h : Inv dead s) (hr : s.holders.lookup pid = some r)
    (huncertain : r.transferUncertain = false)
    (hbudget : r.transferDebit + r.transferReserved + amount ≤ connectionBudget) (hamount : 0 ≤ amount)
    (htag : call.tag = s.next) (href : call.ref = e'.id)
    (hholders : s'.holders = s.holders.insert pid { r with transferReserved := r.transferReserved + amount })
    (htransfers : s'.artifactTransfers = s.artifactTransfers.insert e'.id e')
    (hcalls : s'.calls = s.calls.enter call pid amount) (hnext : s.next < s'.next) (hfailed : s'.failed = s.failed)
    (hkept : Kept s' e') (hev : s.Evidenced → e'.Evidenced) : Moves dead s s' := by
  have hnew : call ∉ s.calls.map WorkCall.id := by
    intro hmem
    obtain ⟨c, hc, rfl⟩ := List.mem_map.1 hmem
    have hlt := h.fresh c hc
    rw [htag] at hlt
    exact lt_irrefl _ hlt
  have hmem : ∀ c, c ∈ s'.calls ↔ c ∈ s.calls ∨ c = ⟨call, pid, amount, [], 0⟩ := by
    intro c
    rw [hcalls, WorkLedger.enter, List.mem_append, List.mem_singleton]
  have hchange : Change s s' pid r { r with transferReserved := r.transferReserved + amount } e' := by
    refine ⟨hr, hholders, htransfers, hnext.le, hfailed, le_refl _, fun hu => hu, fun c hc _ => (hmem c).2 (.inl hc),
      fun call₁ a hcalled => ?_, fun call₁ a hcalled => ?_, fun b hne => ?_⟩
    · obtain ⟨c, hc, hrest⟩ := hcalled
      exact ⟨c, (hmem c).2 (.inl hc), hrest⟩
    · obtain ⟨c, hc, hrest⟩ := hcalled
      rcases (hmem c).1 hc with hc | rfl
      · exact .inl ⟨c, hc, hrest⟩
      · exact .inr ⟨hrest.2.symm, huncertain⟩
    · rw [hcalls]
      exact ⟨WorkLedger.heldBy_enter_of_ne hne.symm, WorkLedger.spentBy_enter⟩
  have hold := h.accounts pid r hr
  refine ⟨hchange.inv h ?_ ?_ ?_ hkept, hchange.later, fun hs => hchange.evidenced hs (hev hs)⟩
  · rw [hcalls]
    exact h.sound.enter hnew hamount
  · intro c hc
    rcases (hmem c).1 hc with hc | rfl
    · exact lt_trans (h.fresh c hc) hnext
    · rw [htag]
      exact hnext
  · rw [hcalls]
    refine ⟨hold.debit.trans WorkLedger.spentBy_enter.symm, ?_, fun _ => ?_, hold.ended⟩
    · rw [WorkLedger.heldBy_enter, ← hold.reserved]
    · simp only
      omega

theorem moves_openTransfer (h : Inv dead s) {token : Tag} {sessionId attachmentId incarnationId : Bytes}
    {request : Request} {context : Context} {caller : From}
    (hok : s.openTransfer v token sessionId attachmentId incarnationId request context caller = .ok s') :
    Moves dead s s' := by
  rw [State.openTransfer] at hok
  split at hok
  · cases hok
  next a ha =>
    split at hok
    · split at hok
      · split at hok
        · split at hok
          next s₁ hreserve =>
            cases hok
            obtain ⟨r, hr, huncertain, hbudget, rfl⟩ := reserveConnectionWork_eq_ok hreserve
            refine Inv.enter (State.openingEntry _ a request context caller) h hr huncertain hbudget (by decide) rfl rfl
              rfl rfl rfl ?_ rfl ?_ fun _ _ hcharged => by cases hcharged
            · exact Nat.lt_add_of_pos_right (by decide)
            · constructor
              · change (AList.lookup a.holder (AList.insert _ _ _)).isSome = true
                rw [AList.lookup_insert]
                rfl
              · rfl
              · exact ⟨_, List.mem_append_right _ (List.mem_singleton.2 rfl), rfl, rfl, rfl, .uncharged rfl rfl rfl⟩
              · exact nofun
              · exact le_refl _
              · exact nofun
          · cases hok
        · cases hok
      · cases hok
    · cases hok

/-- A read reserves something: there are bytes left, or nothing is reserved. -/
theorem wanted_nonneg (h : Kept s e) {length : ℤ} (hlength : 0 < length) : 0 ≤ State.wanted e length := by
  have hcursor := h.cursor
  have hle : (e.cursor : ℤ) ≤ (e.stop : ℤ) := by exact_mod_cast hcursor
  simp only [State.wanted, chunkBytes]
  omega

theorem moves_readTransfer (h : Inv dead s) {token : Tag} {sessionId attachmentId incarnationId : Bytes}
    {transferRef : Ref} {length deadline : ℤ} {caller : From}
    (hok : s.readTransfer v token sessionId attachmentId incarnationId transferRef length deadline caller = .ok s') :
    Moves dead s s' := by
  rw [State.readTransfer] at hok
  split at hok
  · cases hok
  · cases hok
  next a e ha he =>
    obtain rfl := h.keyed _ e he
    have hkept := h.entries _ e he
    split at hok
    next hlive =>
      split at hok
      · cases hok
      next hlength =>
        split at hok
        · split at hok
          next s₁ hreserve =>
            cases hok
            obtain ⟨r, hr, huncertain, hbudget, rfl⟩ := reserveConnectionWork_eq_ok hreserve
            refine Inv.enter
              { e with
                read := some ⟨s.next, some caller, deadline, State.wanted e length⟩
                invocation := .read s.next }
              h hr huncertain hbudget (wanted_nonneg hkept (by omega)) rfl rfl rfl rfl rfl ?_ rfl ?_ nofun
            · exact Nat.lt_succ_self _
            · constructor
              · change (AList.lookup e.holder (AList.insert _ _ _)).isSome = true
                rw [AList.lookup_insert]
                rfl
              · exact hkept.workReserved
              · obtain ⟨c, hc, hid, haccount, hworst, hopening⟩ := hkept.opening
                exact ⟨c, List.mem_append_left _ hc, hid, haccount, hworst, .congr (e := e) rfl rfl hopening⟩
              · rintro _ ⟨⟩
                exact ⟨_, List.mem_append_right _ (List.mem_singleton.2 rfl), rfl, rfl, rfl, rfl⟩
              · exact hkept.cursor
              · exact hkept.acknowledge
          · cases hok
        · cases hok
    · cases hok

/-! ## messages -/

/-- A valid refusal to register comes for a transfer whose opening has been charged. -/
def State.LateRefusal (s : State) : Message → Prop
  | .custodianResult id custodian (.reserve (.error reason transferRef notReserved)) _ =>
    ∃ entry, s.artifactTransfers.lookup id = some entry ∧ entry.custodian = custodian ∧ entry.invocation = .reserve ∧
      validReserveResult (.error reason transferRef notReserved) entry.context = true ∧ entry.openingCharged = true
  | _ => False

theorem moves_custodianResult {ev : Evidence} (h : Inv dead s) (custodian : Pid) (answer : Answer) (completedAt : ℤ)
    (hguard : ¬ s.LateRefusal (.custodianResult id custodian answer completedAt)) :
    Moves dead s (s.custodianResult ev v id custodian answer completedAt) := by
  rw [State.custodianResult]
  split
  next e he =>
    obtain rfl := h.keyed id e he
    split
    next hown =>
      have hput : Frame s (s.putEntry { e with invocation := .idle, callbackCompletedAt := some completedAt }) :=
        frame_putEntry he ⟨rfl, rfl, rfl, rfl, rfl, rfl, rfl, rfl, rfl, rfl, .inl, nofun⟩
      have hmoves := h.frame hput
      have he₁ := lookup_putEntry_self s { e with invocation := .idle, callbackCompletedAt := some completedAt }
      dsimp only
      split
      next result =>
        refine hmoves.trans (moves_reserveResult hmoves.inv he₁ nofun result ?_)
        rintro reason transferRef notReserved rfl hvalid
        cases hcharged : e.openingCharged with
        | false => rfl
        | true => exact absurd ⟨e, he, hown.1, hown.2, hvalid, hcharged⟩ hguard
      · exact hmoves.trans (moves_openResult hmoves.inv he₁ nofun _)
      · exact hmoves.trans (moves_readResult hmoves.inv he₁ nofun _ _)
    · exact .refl h
  · exact .refl h

theorem moves_observerResult (h : Inv dead s) (hs : s.Evidenced) (observer : Pid) (operation : Observation)
    (result : CloseResult) : Moves dead s (s.observerResult v id observer operation result) := by
  rw [State.observerResult]
  split
  next e he =>
    obtain rfl := h.keyed id e he
    split
    next hown =>
      have hput : Frame s (s.putEntry { e with observation := .idle }) :=
        frame_putEntry he ⟨rfl, rfl, rfl, rfl, rfl, rfl, rfl, rfl, rfl, rfl, nofun, fun h => h⟩
      have hmoves := h.frame hput
      have he₁ := lookup_putEntry_self s { e with observation := .idle }
      dsimp only
      split
      · exact hmoves.trans (moves_retireResult hmoves.inv (hmoves.evidenced hs) he₁ result)
      · have hreceipt := (h.entries _ e he).acknowledge hown.2
        exact hmoves.trans (moves_acknowledgeResult hmoves.inv he₁ hreceipt result)
      · exact hmoves
    · exact .refl h
  · exact .refl h

theorem moves_stageAttachment (h : Inv dead s) (hv : ∀ pid, v.alive pid = true → pid ∉ dead) (control : Pid)
    (attachRef : Tag) (t : Transaction) : Moves dead s (s.stageAttachment v control attachRef t) := by
  rw [State.stageAttachment]
  split
  next hstaged =>
    have hnext : Frame s { s with next := s.next + 1 } := .of_eq rfl (Nat.le_succ _) rfl rfl rfl
    have hmoves := h.frame hnext
    have hregister := moves_registerHolderPending hmoves.inv (hv _ hstaged.2.1) attachRef
    exact (hmoves.trans hregister).trans (hregister.inv.frame (.of_eq rfl (le_refl _) rfl rfl rfl))
  · exact .refl h

theorem moves_down (h : Inv dead s) (monitor : Tag) (hdead : pid ∈ dead) (normal : Bool) :
    Moves dead s (s.down v monitor pid normal) := by
  rw [State.down]
  split
  · split
    · exact moves_artifactOriginalDown h _ _
    · exact .refl h
  · split
    · split
      · exact h.frame (.of_eq rfl (le_refl _) rfl rfl rfl)
      · exact .refl h
    · split
      · split
        · exact moves_dropHolder h true fun _ => hdead
        · exact .refl h
      · exact .refl h

theorem moves_answerOr (h : Inv dead s) {answer : Except Refusal State}
    (hanswer : ∀ s', answer = .ok s' → Moves dead s s') : Moves dead s (s.answerOr answer) := by
  cases answer with
  | ok s' => exact hanswer s' rfl
  | error reason => exact .refl h

/-- **Every message keeps the accounts**, but for a refusal that comes late. -/
theorem moves_handle {ev : Evidence} (h : Inv dead s) (hs : s.Evidenced) (hv : ∀ pid, v.alive pid = true → pid ∉ dead)
    (m : Message) (hdown : ∀ monitor pid normal, m = .down monitor pid normal → pid ∈ dead)
    (hguard : ¬ s.LateRefusal m) : Moves dead s (s.handle ev v m) := by
  cases m with
  | stageAttachment control attachRef t => exact moves_stageAttachment h hv control attachRef t
  | scanFinished attachRef worker result => exact h.frame (frame_scanFinished worker result)
  | workerExit worker =>
    rw [State.handle]
    split
    · exact h.frame frame_dropStagedAttachment
    · exact .refl h
  | authorizeAttachment incarnation control attachRef attachmentId incarnationId =>
    exact h.frame (frame_authorizeAttachment h.keyed incarnation control attachmentId incarnationId)
  | discardStaged incarnation control attachRef =>
    rw [State.handle]
    split
    · split
      · exact h.frame frame_dropStagedAttachment
      · exact .refl h
    · exact .refl h
  | removePublished incarnation attachmentId incarnationId =>
    rw [State.handle]
    split
    · exact h.frame (frame_dropPublished h.keyed attachmentId incarnationId)
    · exact .refl h
  | releaseAttachment attachmentId incarnationId =>
    exact h.frame (frame_dropPublished h.keyed attachmentId incarnationId)
  | releaseHolder holder => exact moves_dropHolder h false nofun
  | invalidateSession sessionId => exact h.frame (frame_invalidateSession h.keyed sessionId)
  | disconnected attachmentId =>
    rw [State.handle]
    split
    · exact h.frame (.of_eq rfl (le_refl _) rfl rfl rfl)
    · exact .refl h
  | diagnosticMonitor pid =>
    rw [State.handle]
    split
    · exact .refl h
    · exact h.frame (.of_eq rfl (Nat.le_succ _) rfl rfl rfl)
  | openTransfer token sessionId attachmentId incarnationId request context caller =>
    exact moves_answerOr h fun _ => moves_openTransfer h
  | readTransfer token sessionId attachmentId incarnationId transferRef length deadline caller =>
    exact moves_answerOr h fun _ => moves_readTransfer h
  | closeTransfer token sessionId attachmentId incarnationId transferRef anchor caller =>
    exact h.frame (frame_closeTransfer h.keyed token sessionId attachmentId incarnationId transferRef anchor caller)
  | cancelArtifactOpen token sessionId attachmentId incarnationId context =>
    exact h.frame (frame_cancelArtifactOpen h.keyed token sessionId attachmentId incarnationId context)
  | cancelArtifactRead token sessionId attachmentId incarnationId transferRef deadline =>
    exact h.frame (frame_cancelArtifactRead h.keyed token sessionId attachmentId incarnationId transferRef deadline)
  | custodianResult id custodian answer completedAt => exact moves_custodianResult h custodian answer completedAt hguard
  | observerResult id observer operation result => exact moves_observerResult h hs observer operation result
  | openExpired id => exact h.frame (frame_openExpired h.keyed)
  | closeExpired id =>
    rw [State.handle]
    split
    next e he => exact h.frame (frame_expireArtifactCleanup h.keyed he)
    · exact .refl h
  | lifetimeExpired id => exact h.frame (frame_lifetimeExpired h.keyed)
  | readExpired id readId => exact h.frame (frame_readExpired h.keyed readId)
  | down monitor pid normal => exact moves_down h monitor (hdown monitor pid normal rfl) normal

/-! ## runs -/

/-- The input is no refusal that comes late. -/
def World.Meets (w : World) : Input → Prop
  | .exit _ => True
  | .message _ m => ¬ w.dispatcher.LateRefusal m

/-- What holds of the dispatcher among processes. -/
def World.Sound (w : World) : Prop := Inv w.dead w.dispatcher ∧ w.dispatcher.Evidenced

/-- What a world keeps of an earlier one. -/
def World.Later (w w' : World) : Prop := Dispatcher.Later w.dead w'.dead w.dispatcher w'.dispatcher

theorem sound_initial (token incarnation : Tag) (supportsTransfer : Bool) (next : Tag) (dead : List Pid) :
    World.Sound ⟨.initial token incarnation supportsTransfer next, dead⟩ := by
  have hentries : ∀ id e, ¬ AList.lookup id (∅ : Table Ref Entry) = some e := by
    intro id e he
    rw [AList.lookup_empty] at he
    cases he
  have hholders : ∀ pid r, ¬ AList.lookup pid (∅ : Table Pid Holder) = some r := by
    intro pid r hr
    rw [AList.lookup_empty] at hr
    cases hr
  constructor
  · constructor
    · exact fun id e he => absurd he (hentries id e)
    · rfl
    · exact ⟨List.nodup_nil, fun c hc => absurd hc List.not_mem_nil⟩
    · exact fun c hc => absurd hc List.not_mem_nil
    · exact fun c hc => absurd hc List.not_mem_nil
    · exact fun pid r hr => absurd hr (hholders pid r)
    · exact fun id e he => absurd he (hentries id e)
  · exact fun id e he => absurd he (hentries id e)

/-- More processes end. -/
theorem Inv.exit (h : Inv dead s) (pid : Pid) : Inv (pid :: dead) s where
  keyed := h.keyed
  failed := h.failed
  sound := h.sound
  fresh := h.fresh
  known c hc := (h.known c hc).imp_left (List.mem_cons_of_mem _)
  accounts b r hr := by
    have hold := h.accounts b r hr
    exact ⟨hold.debit, hold.reserved, hold.budget, fun halive => List.mem_cons_of_mem _ (hold.ended halive)⟩
  entries := h.entries

theorem sound_step {ev : Evidence} {w w' : World} {i : Input} (h : w.Sound) (hstep : Guarded (Step ev) World.Meets w i w') :
    w'.Sound ∧ w.Later w' := by
  obtain ⟨⟨hallows, rfl⟩, hmeets⟩ := hstep
  cases i with
  | exit pid =>
    refine ⟨⟨h.1.exit pid, h.2⟩, fun _ hb => List.mem_cons_of_mem _ hb, fun b r hr => .inl ⟨r, hr, le_refl _, fun hu => hu⟩,
      fun b hb => ⟨hb.1, List.mem_cons_of_mem _ hb.2⟩, fun _ _ hc => hc, fun _ _ hc => .inl hc⟩
  | message now m =>
    have halive : ∀ pid, decide (pid ∉ w.dead) = true → pid ∉ w.dead := fun _ => of_decide_eq_true
    have hdown : ∀ monitor pid normal, m = .down monitor pid normal → pid ∈ w.dead := by
      rintro monitor pid normal rfl
      exact hallows
    have hmoves : Moves w.dead w.dispatcher (w.next ev (.message now m)).dispatcher :=
      moves_handle h.1 h.2 halive m hdown hmeets
    exact ⟨⟨hmoves.inv, hmoves.evidenced h.2⟩, hmoves.later⟩

/-- What the accounts promise: reservations are what the calls still hold, no call is settled twice, and what a
connection moved stays within its budget. -/
structure State.WithinBudget (s : State) : Prop where
  reserved : ∀ pid r, s.holders.lookup pid = some r → 0 ≤ r.transferReserved ∧ r.transferReserved = s.calls.heldBy pid
  once : ∀ c ∈ s.calls, c.charges.length ≤ 1
  budget : ∀ pid r, s.holders.lookup pid = some r → r.transferUncertain = false →
    r.transferDebit + r.transferReserved ≤ connectionBudget
  moved : ∀ pid r, s.holders.lookup pid = some r → r.transferUncertain = false →
    ∀ moved : StoreCall → ℤ, (∀ c ∈ s.calls, moved c.id ≤ c.cover) →
      WorkLedger.total (fun c => moved c.id) pid s.calls ≤ connectionBudget
  failed : s.failed = false

theorem Inv.withinBudget (h : Inv dead s) : s.WithinBudget where
  reserved pid r hr := by
    have hreserved := (h.accounts pid r hr).reserved
    exact ⟨hreserved ▸ WorkLedger.heldBy_nonneg h.sound, hreserved⟩
  once c hc := h.sound.once hc
  budget pid r hr hu := (h.accounts pid r hr).budget hu
  moved pid r hr hu moved hmoved := by
    have haccount := h.accounts pid r hr
    have hbudget := haccount.budget hu
    have hle := WorkLedger.moved_le (a := pid) hmoved
    rw [← haccount.reserved, ← haccount.debit] at hle
    omega
  failed := h.failed

/-- **The budget of a connection.**  In every run without a refusal that comes late, reservations are what the calls
still hold, every call is settled once at most, nothing moves beyond the budget and no settlement misses its account;
and between any two points of it no debit decreases, and a sealed account admits nothing. -/
theorem budget_kept {ev : Evidence} {token incarnation : Tag} {supportsTransfer : Bool} {next : Tag} {dead : List Pid}
    {is js : List Input} {w w' : World}
    (h : Run (Guarded (Step ev) World.Meets) ⟨.initial token incarnation supportsTransfer next, dead⟩ is w)
    (h' : Run (Guarded (Step ev) World.Meets) w js w') : w'.dispatcher.WithinBudget ∧ w.Later w' := by
  have hstep : ∀ w i w', World.Sound w → Guarded (Step ev) World.Meets w i w' → World.Sound w' :=
    fun _ _ _ hs hg => (sound_step hs hg).1
  have hsound := h.invariant (sound_initial token incarnation supportsTransfer next dead) hstep
  refine ⟨(h'.invariant hsound hstep).1.withinBudget, ?_⟩
  exact h'.relates (R := World.Later) (fun _ => .refl _ _) (fun _ _ _ => .trans) hsound hstep
    fun _ _ _ hs hg => (sound_step hs hg).2

/-! ## a refusal that comes late -/

theorem keyed_settleConnectionWork {call : StoreCall} {reserved : ℤ} (hs : s.Keyed) :
    (s.settleConnectionWork call pid reserved cost).Keyed := by
  rw [State.settleConnectionWork]
  split
  · exact hs
  · exact hs

theorem calls_settleConnectionWork {call : StoreCall} {reserved : ℤ} (hr : s.holders.lookup pid = some r) :
    (s.settleConnectionWork call pid reserved cost).calls = s.calls.settle call cost := by
  rw [settleConnectionWork_of_lookup hr]

/-- The calls after a valid refusal. -/
theorem calls_refused {reason : Reason} {transferRef : Ref} {notReserved : Bool} (hs : s.Keyed)
    (he : s.artifactTransfers.lookup id = some e)
    (hvalid : validReserveResult (.error reason transferRef notReserved) e.context = true)
    (hr : s.holders.lookup e.holder = some r) :
    (s.reserveResult v id (.error reason transferRef notReserved)).calls =
      s.calls.settle (.opening id e.custodian) 1048576 := by
  obtain rfl := hs id e he
  rw [State.reserveResult, fetchEntry_of_lookup he, if_pos hvalid]
  dsimp only
  have he₁ := lookup_putEntry_self s { e with
    notReserved := true
    noReservationProof := some .reply
    reason := some reason }
  have hkeyed : (s.putEntry { e with
      notReserved := true
      noReservationProof := some .reply
      reason := some reason }).Keyed := keyed_putEntry hs
  have hpresent := settleNeverReserved_lookup he₁
  have hsettled : ((s.putEntry { e with
      notReserved := true
      noReservationProof := some .reply
      reason := some reason }).settleNeverReserved e.id).Keyed := by
    rw [State.settleNeverReserved, fetchEntry_of_lookup he₁]
    exact keyed_putEntry (keyed_settleConnectionWork hkeyed)
  have hretire := frame_retireArtifact (v := v) hsettled e.id reason (State.cancelAnchor v e)
  obtain ⟨e₂, he₂, -⟩ := hretire.lookup hpresent
  rw [(hretire.trans (frame_finishArtifactActors (hretire.keyed hsettled) he₂)).calls, State.settleNeverReserved,
    fetchEntry_of_lookup he₁]
  exact calls_settleConnectionWork (s := s.putEntry _) hr

/-- A refusal that comes late settles its opening a second time. -/
theorem settled_twice (ev : Evidence) (v : Env) {m : Message} (h : Inv dead s) (hlate : s.LateRefusal m) :
    ∃ c ∈ (s.handle ev v m).calls, 1 < c.charges.length := by
  unfold State.LateRefusal at hlate
  split at hlate
  next id custodian reason transferRef notReserved completedAt =>
    obtain ⟨e, he, hcustodian, hinvocation, hvalid, hcharged⟩ := hlate
    obtain rfl := h.keyed id e he
    have hkept := h.entries _ e he
    obtain ⟨c, hc, hid, -, -, hopening⟩ := hkept.opening
    have hsettled : c.charges ≠ [] := by
      cases hopening with
      | uncharged hcharged' => rw [hcharged] at hcharged'; cases hcharged'
      | charged _ _ hcharges => rw [hcharges]; simp
      | disputed _ _ hcharges => exact hcharges
    obtain ⟨r, hr⟩ := Option.isSome_iff_exists.1 hkept.holder
    subst hcustodian
    rw [State.handle, State.custodianResult, he]
    dsimp only
    rw [if_pos ⟨rfl, hinvocation⟩]
    have he₁ := lookup_putEntry_self s { e with invocation := .idle, callbackCompletedAt := some completedAt }
    have hkeyed : (s.putEntry { e with invocation := .idle, callbackCompletedAt := some completedAt }).Keyed :=
      keyed_putEntry h.keyed
    have hmem := WorkLedger.mem_update_self (f := fun c => { c with charges := c.charges ++ [1048576] }) hc
    rw [hid] at hmem
    rw [calls_refused hkeyed he₁ hvalid hr]
    refine ⟨_, hmem, ?_⟩
    rw [List.length_append]
    exact Nat.lt_add_of_pos_left (List.length_pos_of_ne_nil hsettled)
  · cases hlate

/-- **The condition is exact**: from a sound world, a step keeps the budget unless it takes a refusal that comes late. -/
theorem withinBudget_step_iff {ev : Evidence} {w w' : World} {i : Input} (h : w.Sound) (hstep : Step ev w i w') :
    w'.dispatcher.WithinBudget ↔ w.Meets i := by
  refine ⟨fun hbudget => ?_, fun hmeets => (sound_step h ⟨hstep, hmeets⟩).1.1.withinBudget⟩
  cases i with
  | exit pid => trivial
  | message now m =>
    intro hlate
    obtain ⟨-, rfl⟩ := hstep
    obtain ⟨c, hc, htwice⟩ := settled_twice ev ⟨now, fun pid => pid ∉ w.dead⟩ h.1 hlate
    have honce := hbudget.once c hc
    omega

/-- A message, at the start of the clock. -/
def Message.early (m : Message) : Input := .message (fun _ _ => 0) m

def plainRequest : Request := ⟨utf8 "s", utf8 "use:" ++ List.replicate 64 48, 0, none⟩

def plainRef : Ref := List.replicate 32 48

def plainContext : Context := ⟨plainRef, 60000, 134217728, 131073⟩

/-- A transfer is opened, and its attachment is released while the store is asked to reserve it. -/
def openedAndReleased : List Input := [
  (Message.stageAttachment 1 7 ⟨utf8 "s", 2, utf8 "a", utf8 "i", 0, none⟩).early,
  (Message.scanFinished 7 10 (some true)).early,
  (Message.authorizeAttachment 0 1 7 (utf8 "a") (utf8 "i")).early,
  (Message.openTransfer 0 (utf8 "s") (utf8 "a") (utf8 "i") plainRequest plainContext ⟨3, 0⟩).early,
  (Message.releaseAttachment (utf8 "a") (utf8 "i")).early,
  (Message.observerResult plainRef 14 .retire (.retired plainRef plainRef (.work ⟨0, 0, 0, false⟩))).early]

/-- Then the store refuses to register it. -/
def refusal : Input :=
  (Message.custodianResult plainRef 12 (.reserve (.error .transferLimitReached plainRef true)) 0).early

/-- No evidence is accepted; none is needed here. -/
def noEvidence : Evidence := ⟨fun _ => false, fun _ _ => false⟩

def freshWorld : World := ⟨.initial 0 0 true 10, []⟩

/-- The world after inputs that need no permission. -/
def World.after (ev : Evidence) (w : World) (is : List Input) : World := is.foldl (World.next ev) w

theorem run_after {ev : Evidence} {guard : World → Input → Prop} {is : List Input}
    (h : ∀ i ∈ is, ∀ w : World, w.Allows i ∧ guard w i) (w : World) : Run (Guarded (Step ev) guard) w is (w.after ev is) := by
  induction is using List.reverseRecOn with
  | nil => exact .nil
  | append_singleton is i ih =>
    have hi := h i (by simp) (w.after ev is)
    have hstep : Guarded (Step ev) guard (w.after ev is) i (w.after ev (is ++ [i])) := by
      refine ⟨⟨hi.1, ?_⟩, hi.2⟩
      rw [World.after, World.after, List.foldl_append]
      rfl
    exact .snoc (ih fun j hj => h j (by simp [hj])) hstep

theorem openedAndReleased_meets : ∀ i ∈ openedAndReleased, ∀ w : World, w.Allows i ∧ w.Meets i := by
  intro i hi w
  simp only [openedAndReleased, List.mem_cons, List.not_mem_nil, or_false] at hi
  rcases hi with rfl | rfl | rfl | rfl | rfl | rfl <;> exact ⟨trivial, fun hlate => hlate⟩

theorem budget_kept_openedAndReleased :
    (freshWorld.after noEvidence openedAndReleased).dispatcher.WithinBudget ∧
      (freshWorld.after noEvidence openedAndReleased).Later (freshWorld.after noEvidence openedAndReleased) := by
  have hrun : Run (Guarded (Step noEvidence) World.Meets) ⟨.initial 0 0 true 10, []⟩ openedAndReleased
      (freshWorld.after noEvidence openedAndReleased) := run_after openedAndReleased_meets freshWorld
  exact budget_kept hrun .nil

/-- **A refusal after a receipt settles the opening a second time**, and the reservation falls below zero. -/
theorem refused_twice : ¬ ∀ is w, Run (Step noEvidence) freshWorld is w → w.dispatcher.WithinBudget := by
  intro hall
  have hallows : ∀ i ∈ openedAndReleased ++ [refusal], ∀ w : World, w.Allows i ∧ True := by
    intro i hi w
    rcases List.mem_append.1 hi with hi | hi
    · exact ⟨(openedAndReleased_meets i hi w).1, trivial⟩
    · obtain rfl := List.mem_singleton.1 hi
      exact ⟨trivial, trivial⟩
  have hrun : Run (Step noEvidence) freshWorld (openedAndReleased ++ [refusal])
      (freshWorld.after noEvidence (openedAndReleased ++ [refusal])) :=
    (run_after hallows freshWorld).mono fun _ _ _ hstep => hstep.1
  have hbudget := hall _ _ hrun
  have hreserved : ((freshWorld.after noEvidence (openedAndReleased ++ [refusal])).dispatcher.holders.lookup 2).map
      Holder.transferReserved = some (-134348801) := by decide +kernel
  obtain ⟨r, hr, hnegative⟩ := Option.map_eq_some_iff.1 hreserved
  have hnonneg := (hbudget.reserved 2 r hr).1
  omega

end Loopex.Dispatcher
