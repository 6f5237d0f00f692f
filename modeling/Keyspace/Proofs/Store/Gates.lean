import Keyspace.Proofs.Store.Requests

/-!
# The gates of a command

Before a command looks at a record it passes six gates, in the order of `Gate.order`: its keys, its
arguments, and four that are the same for every command. `Gate.answer` says of each of them, apart
from the others, what it answers to a call that it stops, and `Store.verdict` is the answer of the
first gate that stops the call. A command `Obeys` its verdict: if it is stopped it answers just that
and leaves the store as it is, and if not it gets to its database (`obeys_perform`).

The last four gates are what `Store.refusal` has against a call (`findSome?_shared`), so for a
transaction there is nothing more to show (`obeys_run`). The first two are `checkKey` and
`KeyCommand.shortcut` for a command on a key (`keyAnswer_onKey`, `argumentAnswer_onKey`), and for a
removal the keys that can be keys (`keyAnswer_del`).
-/

namespace Keyspace

/-! ## Each gate on its own -/

theorem isKey_iff {key : Bytes} : isKey key = true ↔ 0 < key.length ∧ key.length ≤ 511 := by
  unfold isKey checkKey maxKeyLength
  cases key with
  | nil => simp
  | cons b key =>
    by_cases hlong : 511 < (b :: key).length
    · simp only [List.isEmpty_cons, Bool.false_eq_true, if_false, if_pos hlong, false_iff]
      omega
    · simp only [List.isEmpty_cons, Bool.false_eq_true, if_false, if_neg hlong, true_iff]
      exact ⟨Nat.zero_lt_succ _, by omega⟩

namespace Command

/-- The answer of a command on byte strings that are no keys, being too short or too long. The
question whether a key is there has an answer even then, and so does the removal of no key at all.
-/
def keyAnswer : Command → Option (Except Error Reply)
  | onKey key k =>
    if key.length = 0 then
      some (if k = .query .isPresent then .ok (.flag false) else .error .emptyKey)
    else if 511 < key.length then
      some (if k = .query .isPresent then .ok (.flag false)
        else .error (.keyTooLarge key.length 511))
    else none
  | del keys =>
    if ∀ key ∈ keys, key.length = 0 ∨ 511 < key.length then some (.ok (.number 0)) else none
  | _ => none

/-- The answer of a command whose other arguments decide it. -/
def argumentAnswer : Command → Option (Except Error Reply)
  | onKey _ (.change (.zadd score _)) => if score.isNaN then some (.error .invalidScore) else none
  | onKey _ (.query (.zcount min max)) => if max.lt min then some (.ok (.number 0)) else none
  | onKey _ (.lifetime (.expire seconds)) => if seconds < 0 then some (.ok (.flag false)) else none
  | _ => none

theorem keyAnswer_onKey (key : Bytes) (k : KeyCommand) :
    (onKey key k).keyAnswer = match checkKey key with
      | .ok () => none
      | .error e => some (k.refuse e) := by
  unfold keyAnswer checkKey KeyCommand.refuse maxKeyLength
  cases key with
  | nil => rfl
  | cons b key =>
    simp only [List.length_cons, Nat.add_one_ne_zero, if_false, List.isEmpty_cons,
      Bool.false_eq_true]
    by_cases hlong : 511 < key.length + 1
    · rw [if_pos hlong, if_pos hlong]
    · rw [if_neg hlong, if_neg hlong]

theorem keyAnswer_del (keys : List Bytes) :
    (del keys).keyAnswer =
      if (keys.filter isKey).isEmpty then some (.ok (.number 0)) else none := by
  have hnone : (keys.filter isKey).isEmpty = true ↔
      ∀ key ∈ keys, key.length = 0 ∨ 511 < key.length := by
    rw [List.isEmpty_iff, List.filter_eq_nil_iff]
    refine forall₂_congr fun key _ => ?_
    rw [isKey_iff]
    omega
  simp only [keyAnswer, hnone]

theorem argumentAnswer_onKey (key : Bytes) (k : KeyCommand) :
    (onKey key k).argumentAnswer = k.shortcut := by
  unfold argumentAnswer KeyCommand.shortcut
  split <;> first | rfl | simp_all

end Command

/-- What a command has to pass before it looks at a record. -/
inductive Gate
  | keys
  | arguments
  | closed
  | canceled
  | late
  | range
  deriving DecidableEq, Repr

namespace Gate

/-- What a gate answers to a call that it stops. -/
def answer (s : Store) (c : Call) (command : Command) : Gate → Option (Except Error Reply)
  | keys => command.keyAnswer
  | arguments => command.argumentAnswer
  | closed => if s.isClosed then some (.error .closed) else none
  | canceled => if c.canceled then some (.error .canceled) else none
  | late =>
    if ∃ d, c.deadline = some d ∧ d ≤ c.clock.steady then some (.error .deadlineExceeded) else none
  | range =>
    if s.config.maxDatabases ≤ c.db.toNat then
      some (.error (.invalidDatabase c.db.toNat s.config.maxDatabases))
    else none

/-- The gates that are the same for every command. -/
def shared : List Gate := [closed, canceled, late, range]

/-- All gates, in the order in which a command passes them. -/
def order : List Gate := keys :: arguments :: shared

theorem interruption_eq (c : Call) :
    c.interruption = if c.canceled then some .canceled
      else if ∃ d, c.deadline = some d ∧ d ≤ c.clock.steady then some .deadlineExceeded
      else none :=
  Keyspace.interruption_eq _ _ _

theorem findSome?_shared (s : Store) (c : Call) (command : Command) :
    shared.findSome? (answer s c command) = (s.refusal c).map .error := by
  simp only [shared, List.findSome?_cons, List.findSome?_nil, answer, Store.refusal,
    interruption_eq]
  by_cases hclosed : s.isClosed = true
  · simp [hclosed]
  by_cases hcanceled : c.canceled = true
  · simp [hclosed, hcanceled]
  by_cases hlate : ∃ d, c.deadline = some d ∧ d ≤ c.clock.steady
  · simp [hclosed, hcanceled, hlate]
  by_cases hrange : s.config.maxDatabases ≤ c.db.toNat
  · simp [hclosed, hcanceled, hlate, hrange]
  · simp [hclosed, hcanceled, hlate, hrange]

end Gate

/-! ## All gates -/

namespace Store

/-- The answer of the first gate that stops a call, if any does. -/
def verdict (s : Store) (c : Call) (command : Command) : Option (Except Error Reply) :=
  Gate.order.findSome? (Gate.answer s c command)

theorem verdict_eq (s : Store) (c : Call) (command : Command) :
    s.verdict c command =
      (command.keyAnswer.or command.argumentAnswer).or ((s.refusal c).map .error) := by
  rw [verdict, Gate.order, List.findSome?_cons, List.findSome?_cons, Gate.findSome?_shared]
  simp only [Gate.answer]
  cases command.keyAnswer with
  | some a => rfl
  | none => cases command.argumentAnswer <;> rfl

/-- The outcome is what the verdict says, and nothing else happens; or there is no verdict, and the
call has got to its database. -/
def Obeys {α : Type} (s : Store) (c : Call) (verdict : Option (Except Error α)) (o : Outcome α) :
    Prop :=
  match verdict with
  | some a => o = ⟨a, s, .none⟩
  | none => c.db ∈ o.store.resolved

theorem mem_resolved_ready (s : Store) (db : DbId) : db ∈ (s.ready db).resolved := by
  unfold ready
  dsimp only
  split
  · assumption
  · exact List.mem_cons_self

theorem obeys_run {α : Type} (s : Store) (c : Call)
    (body : Storage → Except Error (α × Storage)) :
    Obeys s c ((s.refusal c).map .error) (s.run c body) := by
  generalize ho : s.run c body = o
  have hran : Ran s c body o := ho ▸ ran_run s c body
  cases hran with
  | refused h =>
    rw [h]
    rfl
  | failed h | done h =>
    rw [h]
    exact mem_resolved_ready s c.db

/-- What is made of the answer later does not get in the way of the gates. -/
theorem Obeys.andThen {α β : Type} {s : Store} {c : Call} {o : Outcome α}
    (h : Obeys s c ((s.refusal c).map .error) o) (f : α → Except Error β) :
    Obeys s c ((s.refusal c).map .error) (o.andThen f) := by
  cases hgate : s.refusal c with
  | some e =>
    rw [hgate] at h
    obtain rfl : o = ⟨.error e, s, .none⟩ := h
    rfl
  | none =>
    rw [hgate] at h
    exact h

theorem obeys_onKey (s : Store) (c : Call) (key : Bytes) (k : KeyCommand) :
    Obeys s c (s.verdict c (.onKey key k)) (s.perform c (.onKey key k)) := by
  rw [verdict_eq, Command.keyAnswer_onKey, Command.argumentAnswer_onKey, perform, performOnKey]
  cases checkKey key with
  | error e => rfl
  | ok _ =>
    cases k.shortcut with
    | some a => rfl
    | none => exact (obeys_run s c _).andThen _

theorem obeys_del (s : Store) (c : Call) (keys : List Bytes) :
    Obeys s c (s.verdict c (.del keys)) (s.perform c (.del keys)) := by
  rw [verdict_eq, Command.keyAnswer_del, perform, del]
  split
  · rfl
  · exact (obeys_run s c _).andThen _

theorem obeys_flushAll (s : Store) (c : Call) :
    Obeys s c (s.verdict c .flushAll) (s.perform c .flushAll) := by
  rw [verdict_eq, perform, flushAll_eq]
  exact (obeys_run s c _).andThen _

theorem obeys_dbSize (s : Store) (c : Call) :
    Obeys s c (s.verdict c .dbSize) (s.perform c .dbSize) := by
  rw [verdict_eq, perform, dbSize, enter_eq]
  cases s.refusal c with
  | some e => rfl
  | none => exact mem_resolved_ready s c.db

/-- A removal skips what can be no key. -/
theorem del_filter_isKey (s : Store) (c : Call) (keys : List Bytes) :
    s.perform c (.del (keys.filter isKey)) = s.perform c (.del keys) := by
  simp only [perform, del, List.filter_filter, Bool.and_self]

/-- **Every command but the closing of the store obeys the gates.** -/
theorem obeys_perform (s : Store) (c : Call) {command : Command} (h : command ≠ .close) :
    Obeys s c (s.verdict c command) (s.perform c command) := by
  cases command with
  | onKey key k => exact obeys_onKey s c key k
  | del keys => exact obeys_del s c keys
  | flushAll => exact obeys_flushAll s c
  | dbSize => exact obeys_dbSize s c
  | close => exact absurd rfl h

end Store

end Keyspace
