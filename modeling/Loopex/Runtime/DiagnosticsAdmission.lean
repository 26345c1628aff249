import Loopex.System.Run
import Loopex.Erlang.Term
import Mathlib.Algebra.BigOperators.Ring.Finset
import Mathlib.Algebra.Order.BigOperators.Group.Finset
import Mathlib.Algebra.BigOperators.Group.Finset.Basic
import Mathlib.Data.Finset.Card
import Mathlib.Data.List.Perm.Basic
import Mathlib.Data.List.Nodup
import Mathlib.Logic.Function.Basic

/-!
# Admission of diagnostics

The senders of diagnostics and the dispatcher they send to, one atomic operation a step: the ticket counter
and the drop counter, two 64-bit cells, the table of slots, what every sender has sent and the dispatcher not
received, the monitors of the dispatcher.  The messages of a sender arrive in order, and its `DOWN` after them.

* `State`, `Action`, `act` — the states, what happens in them, and what it does
* `Kept` — what every step keeps: the slots of a sender are those it owes an item or a release for
-/

namespace Loopex.Runtime.Diagnostics

open Loopex.Erlang Loopex.Erlang.Term Loopex.System

/-! ## items -/

/-- The 64-bit value of a cell of the counters, `:atomics.new(2, signed: true)`. -/
def wrap (n : ℤ) : ℤ := n.bmod (2 ^ 64)

def defaultCeiling : ℕ := 4096

def maxTransientItems : ℕ := 128

def maxTransientBytes : ℕ := 65536

mutual
/-- `transient_budget`, at a depth: the items and the bytes a value leaves.  The source raises on an improper list and on
a struct that is not enumerable, where this refuses the one and goes through the entries of the other. -/
def transientBudget (depth : ℕ) : Term → ℕ × ℕ → Option (ℕ × ℕ)
  | .binary b, (items, bytes) =>
    if depth ≤ 8 ∧ 0 < items ∧ b.length ≤ bytes then some (items - 1, bytes - b.length) else none
  | .int _, (items, bytes) | .float _, (items, bytes) =>
    if depth ≤ 8 ∧ 0 < items ∧ 16 ≤ bytes then some (items - 1, bytes - 16) else none
  | .atom a, (items, bytes) =>
    if depth ≤ 8 ∧ a ∈ [utf8 "true", utf8 "false", utf8 "nil"] ∧ 0 < items ∧ 16 ≤ bytes then
      some (items - 1, bytes - 16)
    else none
  | .list xs, (items, bytes) =>
    if depth ≤ 8 ∧ 0 < items then transientList (depth + 1) xs (items - 1, bytes) else none
  | .map kvs, (items, bytes) =>
    if depth ≤ 8 ∧ 0 < items then transientEntries (depth + 1) kvs (items - 1, bytes) else none
  | _, _ => none
def transientList (depth : ℕ) : List Term → ℕ × ℕ → Option (ℕ × ℕ)
  | [], left => some left
  | x :: xs, left => (transientBudget depth x left).bind (transientList depth xs)
def transientEntries (depth : ℕ) : List (Term × Term) → ℕ × ℕ → Option (ℕ × ℕ)
  | [], left => some left
  | (k, v) :: kvs, left =>
    ((transientBudget depth k left).bind (transientBudget depth v)).bind (transientEntries depth kvs)
end

/-- `plain_transient?`. -/
def plainTransient (item : Term) : Bool := (transientBudget 0 item (maxTransientItems, maxTransientBytes)).isSome

/-! ## states -/

/-- A row of the table of slots, `{slot, owner_pid, ticket}`. -/
structure SlotRow (P : Type) where
  slot : ℤ
  owner : P
  ticket : ℤ
  deriving DecidableEq

/-- A message of a sender to the dispatcher. -/
inductive Signal
  | monitorMe
  | admission (slot ticket : ℤ) (item : Term)

/-- The slot and the ticket of an admission. -/
def Signal.key? : Signal → Option (ℤ × ℤ)
  | .monitorMe => none
  | .admission slot ticket _ => some (slot, ticket)

/-- Where a sender is in `admit`. -/
inductive Phase
  | idle
  | registered (item : Term)
  | ticketed (item : Term) (ticket : ℤ)
  | claimed (item : Term) (slot ticket : ℤ)
  | refused (item : Term)

/-- The slot and the ticket a sender has claimed and not sent for. -/
def Phase.key? : Phase → Option (ℤ × ℤ)
  | .claimed _ slot ticket => some (slot, ticket)
  | _ => none

def Phase.uncounted : Phase → Bool
  | .refused _ => true
  | _ => false

/-- A sender, dead or alive, where it is or was in `admit`, and whether its process dictionary holds the
record of its registration. -/
structure Sender where
  alive : Bool
  recorded : Bool
  phase : Phase

/-- Where the dispatcher is: between two messages, at the item of an admission, at its release, at the report
of drops, or between the reads of the report and the exchange. -/
inductive Turn (P : Type)
  | ready
  | forwarding (owner : P) (slot ticket : ℤ) (item : Term)
  | releasing (owner : P) (slot ticket : ℤ)
  | reporting
  | taking (windowEnd : ℤ)

/-- The slot and the ticket the dispatcher has received from a sender and not released. -/
def Turn.keyOf {P : Type} [DecidableEq P] (p : P) : Turn P → Option (ℤ × ℤ)
  | .forwarding owner slot ticket _ => if owner = p then some (slot, ticket) else none
  | .releasing owner slot ticket => if owner = p then some (slot, ticket) else none
  | _ => none

/-- What the host's sink is sent. -/
inductive Delivery
  | item (item : Term)
  | summary (fromTicket toTicket dropped : ℤ)

def Delivery.dropped : Delivery → ℤ
  | .item _ => 0
  | .summary _ _ dropped => dropped

/-- What the runtime is started with: the ceiling of `DiagnosticsAdmission.new`, which a host may lower and
never raise, and whether there is a sink. -/
structure Options where
  ceiling : ℕ
  pos : 0 < ceiling
  le : ceiling ≤ defaultCeiling
  sink : Bool

/-- `new`. -/
def Options.new (ceiling : ℕ) (h : 0 < ceiling) (sink : Bool) : Options where
  ceiling := min ceiling defaultCeiling
  pos := by simp [defaultCeiling]; omega
  le := Nat.min_le_right _ _
  sink := sink

/-- The counters, the slots, the senders, the messages under way, the dispatcher, and what happened so far:
the tickets taken, the claims that failed and the admitted items that were not forwarded to the sink. -/
structure State (P : Type) where
  ticket : ℤ
  drops : ℤ
  rows : List (SlotRow P)
  senders : P → Sender
  inbox : P → List Signal
  monitors : P → Option ℕ
  watches : List (ℕ × P)
  references : ℕ
  turn : Turn P
  windowStart : ℤ
  sent : List Delivery
  taken : ℕ
  failures : ℕ
  discards : ℕ

/-- The dispatcher and the senders before any registration. -/
def State.start {P : Type} : State P where
  ticket := 0
  drops := 0
  rows := []
  senders := fun _ => ⟨true, false, .idle⟩
  inbox := fun _ => []
  monitors := fun _ => none
  watches := []
  references := 0
  turn := .ready
  windowStart := 0
  sent := []
  taken := 0
  failures := 0
  discards := 0

variable {P : Type} [DecidableEq P]

/-! ## operations -/

/-- `:ets.insert_new/2`. -/
def insertNew (rows : List (SlotRow P)) (r : SlotRow P) : Option (List (SlotRow P)) :=
  if rows.any fun row => row.slot = r.slot then none else some (r :: rows)

/-- `:ets.delete_object(slots, {slot, pid, ticket})`. -/
def deleteObject (rows : List (SlotRow P)) (r : SlotRow P) : List (SlotRow P) := rows.filter fun row => row ≠ r

/-- `:ets.match_delete(slots, {:_, pid, :_})`. -/
def matchDelete (rows : List (SlotRow P)) (pid : P) : List (SlotRow P) := rows.filter fun row => row.owner ≠ pid

namespace State

variable (s : State P)

def withSender (p : P) (sender : Sender) : State P := { s with senders := Function.update s.senders p sender }

def withInbox (p : P) (signals : List Signal) : State P := { s with inbox := Function.update s.inbox p signals }

def send (p : P) (signal : Signal) : State P := s.withInbox p (s.inbox p ++ [signal])

/-- `count_drop`. -/
def countDrop : State P := { s with drops := wrap (s.drops + 1) }

end State

/-- What happens: a step of a sender in `admit`, its death, a step of the dispatcher, or a monitor the
dispatcher sets up for another reason. -/
inductive Action (P : Type)
  | register (p : P) (item : Term)
  | takeTicket (p : P)
  | claim (p : P)
  | deliver (p : P)
  | countDrop (p : P)
  | die (p : P)
  | receive (p : P)
  | forward (queued : Option ℕ)
  | release
  | report
  | takeDrops
  | down (reference : ℕ) (p : P)
  | watch (p : P)

/-- `register`: the first admission of a sender asks to be monitored. -/
def register (s : State P) (p : P) (item : Term) : Option (State P) :=
  match s.senders p with
  | ⟨true, true, .idle⟩ => some (s.withSender p ⟨true, true, .registered item⟩)
  | ⟨true, false, .idle⟩ => some ((s.withSender p ⟨true, true, .registered item⟩).send p .monitorMe)
  | _ => none

/-- `take_ticket`. -/
def takeTicket (s : State P) (p : P) : Option (State P) :=
  match s.senders p with
  | ⟨true, recorded, .registered item⟩ =>
    some { s.withSender p ⟨true, recorded, .ticketed item (wrap (s.ticket + 1))⟩ with
      ticket := wrap (s.ticket + 1), taken := s.taken + 1 }
  | _ => none

/-- `claim`. -/
def claim (options : Options) (s : State P) (p : P) : Option (State P) :=
  match s.senders p with
  | ⟨true, recorded, .ticketed item ticket⟩ =>
    let slot := ticket.tmod options.ceiling
    match insertNew s.rows ⟨slot, p, ticket⟩ with
    | some rows => some { s.withSender p ⟨true, recorded, .claimed item slot ticket⟩ with rows := rows }
    | none => some { s.withSender p ⟨true, recorded, .refused item⟩ with failures := s.failures + 1 }
  | _ => none

/-- `deliver`. -/
def deliver (s : State P) (p : P) : Option (State P) :=
  match s.senders p with
  | ⟨true, recorded, .claimed item slot ticket⟩ =>
    some ((s.withSender p ⟨true, recorded, .idle⟩).send p (.admission slot ticket item))
  | _ => none

/-- The drop of a failed claim. -/
def dropOwn (s : State P) (p : P) : Option (State P) :=
  match s.senders p with
  | ⟨true, recorded, .refused _⟩ => some (s.withSender p ⟨true, recorded, .idle⟩).countDrop
  | _ => none

def die (s : State P) (p : P) : Option (State P) :=
  if (s.senders p).alive then some (s.withSender p { s.senders p with alive := false }) else none

/-- `monitor_sender`. -/
def monitorSender (s : State P) (p : P) : State P :=
  if (s.monitors p).isSome then s
  else { s with
    monitors := Function.update s.monitors p (some s.references)
    watches := (s.references, p) :: s.watches
    references := s.references + 1 }

/-- The oldest message of a sender is received. -/
def receive (s : State P) (p : P) : Option (State P) :=
  match s.turn, s.inbox p with
  | .ready, .monitorMe :: rest => some (monitorSender (s.withInbox p rest) p)
  | .ready, .admission slot ticket item :: rest =>
    some { s.withInbox p rest with turn := .forwarding p slot ticket item }
  | _, _ => none

/-- `sink_saturated?`: the sink's queue, when it is alive. -/
def sinkSaturated (options : Options) : Option ℕ → Bool
  | some queued => decide (options.ceiling ≤ queued)
  | none => true

/-- `forward_admitted`. -/
def forward (options : Options) (s : State P) (queued : Option ℕ) : Option (State P) :=
  match s.turn with
  | .forwarding p slot ticket item =>
    let s := { s with turn := .releasing p slot ticket }
    if options.sink = false then some s
    else if plainTransient item && !sinkSaturated options queued then
      some { s with sent := s.sent ++ [.item item] }
    else some { s.countDrop with discards := s.discards + 1 }
  | _ => none

/-- `release`. -/
def release (s : State P) : Option (State P) :=
  match s.turn with
  | .releasing p slot ticket => some { s with rows := deleteObject s.rows ⟨slot, p, ticket⟩, turn := .reporting }
  | _ => none

/-- `report_drops` up to the exchange. -/
def report (options : Options) (s : State P) : Option (State P) :=
  match s.turn with
  | .reporting =>
    if options.sink && decide (s.rows.length < options.ceiling / 2) && decide (0 < s.drops) then
      some { s with turn := .taking s.ticket }
    else some { s with turn := .ready }
  | _ => none

/-- `take_drops`, and the summary. -/
def takeDrops (s : State P) : Option (State P) :=
  match s.turn with
  | .taking windowEnd =>
    if 0 < s.drops then
      some { s with
        drops := 0
        turn := .ready
        windowStart := windowEnd
        sent := s.sent ++ [.summary s.windowStart windowEnd s.drops] }
    else some { s with drops := 0, turn := .ready }
  | _ => none

/-- The `DOWN` of a monitor, once its process is dead and all it sent has been received: `reconcile`, when the
monitor is the sender's. -/
def down (s : State P) (reference : ℕ) (p : P) : Option (State P) :=
  match s.turn, s.inbox p with
  | .ready, [] =>
    if (s.senders p).alive = false ∧ (reference, p) ∈ s.watches then
      let s := { s with watches := s.watches.erase (reference, p) }
      if s.monitors p = some reference then
        some { s with
          rows := matchDelete s.rows p
          monitors := Function.update s.monitors p none
          turn := .reporting }
      else some s
    else none
  | _, _ => none

/-- The dispatcher monitors a process that holds an attachment. -/
def watch (s : State P) (p : P) : Option (State P) :=
  match s.turn with
  | .ready => some { s with watches := (s.references, p) :: s.watches, references := s.references + 1 }
  | _ => none

/-- What an action does. -/
def act (options : Options) (s : State P) : Action P → Option (State P)
  | .register p item => register s p item
  | .takeTicket p => takeTicket s p
  | .claim p => claim options s p
  | .deliver p => deliver s p
  | .countDrop p => dropOwn s p
  | .die p => die s p
  | .receive p => receive s p
  | .forward queued => forward options s queued
  | .release => release s
  | .report => report options s
  | .takeDrops => takeDrops s
  | .down reference p => down s reference p
  | .watch p => watch s p

/-- The steps of the plane. -/
def Step (options : Options) (s : State P) (a : Action P) (s' : State P) : Prop := act options s a = some s'

end Loopex.Runtime.Diagnostics
