import Keyspace.Clock
import Keyspace.Deadline

/-!
# Contexts

Every request is made in a context: the database that it works on, the family that the context
belongs to and, if it has one, a deadline on the steady clock. A context made from another one is
of the same family, and cancelling one member cancels the family; a deadline belongs to its context
and to those made from it later. `Families` keeps the families apart and knows the canceled ones.

A request asks its context three times whether to go on: at the gates, before its transaction and
at the end of the transaction. In the meantime the steady clock runs, and whoever holds a context of
the same family may cancel it; an `Interlude` is what happens from one check to the next. `Call` is
what a request sees of its context, together with the clocks and the interludes.
-/

namespace Keyspace

/-- Cancellation comes before the deadline, which is missed from its very moment on. -/
def interruption (canceled : Bool) (deadline : Option Nat) (steady : Nat) : Option Error :=
  if canceled then some .canceled
  else match deadline with
    | some d => if d ≤ steady then some .deadlineExceeded else none
    | none => none

theorem interruption_eq (canceled : Bool) (deadline : Option Nat) (steady : Nat) :
    interruption canceled deadline steady = if canceled then some .canceled
      else if ∃ d, deadline = some d ∧ d ≤ steady then some .deadlineExceeded else none := by
  cases deadline <;> simp [interruption]

theorem interruption_iff (canceled : Bool) (deadline : Option Nat) (steady : Nat) :
    (interruption canceled deadline steady = some .canceled ↔ canceled = true) ∧
    (interruption canceled deadline steady = some .deadlineExceeded ↔
      ¬ canceled = true ∧ ∃ d, deadline = some d ∧ d ≤ steady) ∧
    (interruption canceled deadline steady = none ↔
      ¬ canceled = true ∧ ¬ ∃ d, deadline = some d ∧ d ≤ steady) := by
  rw [interruption_eq]
  by_cases hlate : ∃ d, deadline = some d ∧ d ≤ steady <;> cases canceled <;> simp [hlate]

/-- What does not interrupt later did not interrupt before. -/
theorem interruption_eq_none_of_le {canceled canceled' : Bool} {deadline : Option Nat}
    {steady steady' : Nat} (hcanceled : canceled = true → canceled' = true)
    (hsteady : steady ≤ steady') (h : interruption canceled' deadline steady' = none) :
    interruption canceled deadline steady = none := by
  obtain ⟨hnot, hlate⟩ := (interruption_iff _ _ _).2.2.1 h
  exact (interruption_iff _ _ _).2.2.2
    ⟨fun hc => hnot (hcanceled hc), fun ⟨d, hd, hle⟩ => hlate ⟨d, hd, Nat.le_trans hle hsteady⟩⟩

/-- The circumstances that a caller chooses for its requests. -/
structure Context where
  db : DbId
  family : Nat
  deadline : Option Nat
  deriving DecidableEq, Repr

/-- The families made so far, numbered in order, and those of them that are canceled. -/
structure Families where
  count : Nat
  canceled : List Nat
  deriving DecidableEq, Repr

namespace Families

/-- No family yet. -/
def empty : Families := ⟨0, []⟩

/-- A context without deadline that starts a family of its own. -/
def start (f : Families) (db : DbId) : Context × Families :=
  (⟨db, f.count, none⟩, { f with count := f.count + 1 })

/-- Cancels the family of a context. -/
def cancel (f : Families) (c : Context) : Families := { f with canceled := c.family :: f.canceled }

end Families

namespace Context

/-- The same circumstances in another database. -/
def select (c : Context) (db : DbId) : Context := { c with db }

/-- The same circumstances with a deadline. -/
def withDeadline (c : Context) (steady : Nat) : Context := { c with deadline := some steady }

/-- The same circumstances with a deadline `ms` from now. -/
def withTimeout (c : Context) (now : Clock) (ms : Nat) : Context := c.withDeadline (now.steady + ms)

/-- The family of the context is canceled. -/
def isCanceled (c : Context) (f : Families) : Bool := c.family ∈ f.canceled

/-- What interrupts a request made now in this context. -/
def interruption (c : Context) (f : Families) (now : Clock) : Option Error :=
  Keyspace.interruption (c.isCanceled f) c.deadline now.steady

end Context

/-! ## Requests -/

/-- What happens to the context of a request from one check to the next: time passes on the steady
clock, and the context may be canceled. -/
structure Interlude where
  ms : Nat
  cancels : Bool
  deriving DecidableEq, Repr

namespace Interlude

/-- Nothing happens. -/
def none : Interlude := ⟨0, false⟩

/-- One interlude and then another. -/
def andThen (i j : Interlude) : Interlude := ⟨i.ms + j.ms, i.cancels || j.cancels⟩

end Interlude

/-- The families after an interlude in a request of the family, if the request is of one that
others know. -/
def Families.after (f : Families) (family : Option Nat) (i : Interlude) : Families :=
  match family with
  | some n => if i.cancels then { f with canceled := n :: f.canceled } else f
  | none => f

/-- The interludes between the three checks of a request: before its transaction, and during it. -/
structure Interludes where
  before : Interlude
  during : Interlude
  deriving DecidableEq, Repr

namespace Interludes

/-- The request is left alone. -/
def none : Interludes := ⟨.none, .none⟩

/-- Time passes during the transaction, and nothing else happens. -/
def delay (ms : Nat) : Interludes := ⟨.none, ⟨ms, false⟩⟩

/-- A number of milliseconds stands for a delay. -/
instance : Coe Nat Interludes := ⟨delay⟩

/-- All that happens until the end of the transaction. -/
def total (i : Interludes) : Interlude := i.before.andThen i.during

end Interludes

/-- The circumstances of one request: its context, with the family if others know it, the clocks as
the request begins, and what happens between its checks. -/
structure Call where
  db : DbId
  family : Option Nat
  canceled : Bool
  deadline : Option Nat
  clock : Clock
  interludes : Interludes
  deriving DecidableEq, Repr

namespace Call

/-- A request made in a context of its own, without a deadline. -/
def alone (db : DbId) (now : Clock) (i : Interludes) : Call := ⟨db, none, false, none, now, i⟩

/-- A request made in a context. -/
def ofContext (c : Context) (f : Families) (now : Clock) (i : Interludes) : Call :=
  ⟨c.db, some c.family, c.isCanceled f, c.deadline, now, i⟩

/-- What interrupts the request if it asks after an interlude. -/
def interruptionAfter (c : Call) (i : Interlude) : Option Error :=
  Keyspace.interruption (c.canceled || i.cancels) c.deadline (c.clock.steady + i.ms)

/-- What interrupts the request at its start. -/
def interruption (c : Call) : Option Error :=
  Keyspace.interruption c.canceled c.deadline c.clock.steady

/-- What interrupts the request before its transaction. -/
def pendingInterruption (c : Call) : Option Error := c.interruptionAfter c.interludes.before

/-- What interrupts the request at the end of its transaction. -/
def lateInterruption (c : Call) : Option Error := c.interruptionAfter c.interludes.total

theorem pendingInterruption_of_late {c : Call} (h : c.lateInterruption = none) :
    c.pendingInterruption = none := by
  refine interruption_eq_none_of_le (fun hc => ?_) ?_ h
  · show (c.canceled || (c.interludes.before.cancels || c.interludes.during.cancels)) = true
    rw [← Bool.or_assoc, hc, Bool.true_or]
  · exact Nat.add_le_add_left (Nat.le_add_right _ _) _

end Call

end Keyspace
