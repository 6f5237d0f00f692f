import Keyspace.Deadline

/-!
# Slots

A slot is all that is stored about one key of one database: its value and the record of its
deadline. A value alone means a key that stays; a deadline record alone means nothing to readers.
`Slot.settle` is the first thing that almost every command does: it fails on a deadline record that
cannot be read and empties the slot of a key that has expired. What a command then does to the
value is a `Write`.
-/

namespace Keyspace

/-- The value of a key and the record of its deadline, each if there is one. -/
structure Slot where
  value : Option Bytes
  deadline : Option Bytes
  deriving DecidableEq, Repr

/-- What happens to the value of a key. -/
inductive Write
  /-- Nothing changes. -/
  | keep
  /-- This is the value from now on; a deadline stays. -/
  | put (value : Bytes)
  /-- The key goes, and its deadline with it. -/
  | drop
  deriving DecidableEq, Repr

namespace Slot

/-- The slot of a key about which nothing is stored. -/
def empty : Slot := ⟨none, none⟩

/-- The slot after a write. -/
def write (s : Slot) : Write → Slot
  | .keep => s
  | .put value => { s with value := some value }
  | .drop => empty

/-- The deadline of the key, if it has one that can be read. -/
def deadline? (s : Slot) : Option Deadline := s.deadline.bind Deadline.decode?

/-- The deadline record can be read and lies in the past. -/
def isExpired (s : Slot) (now : Nat) : Bool := s.deadline?.any (·.isExpired now)

/-- There is a deadline record that cannot be read. -/
def isMalformed (s : Slot) : Bool := s.deadline.any fun b => (Deadline.decode? b).isNone

/-- The failure of a command on a key whose deadline record cannot be read. -/
def malformed (key : Bytes) : Error := .damaged key "bad ttl metadata"

/-- The slot as the key is at `now`: what has expired is gone. -/
def settle (s : Slot) (key : Bytes) (now : Nat) : Except Error Slot :=
  if s.isMalformed then .error (malformed key)
  else if s.isExpired now then .ok empty
  else .ok s

/-- Removes the key whatever its deadline record; the flag says that the key was there, which one
with an unreadable record is as long as it has a value. -/
def purge (s : Slot) (now : Nat) : Bool × Slot := (s.value.isSome && !s.isExpired now, empty)

theorem settle_eq_error_iff {s : Slot} {key : Bytes} {now : Nat} {e : Error} :
    s.settle key now = .error e ↔ s.isMalformed = true ∧ e = malformed key := by
  unfold settle
  split
  · rename_i h
    exact ⟨fun he => ⟨h, (Except.error.inj he).symm⟩, fun he => by rw [he.2]⟩
  · split <;> simp_all

theorem settle_eq_ok_iff {s t : Slot} {key : Bytes} {now : Nat} :
    s.settle key now = .ok t ↔
      s.isMalformed = false ∧ t = if s.isExpired now then empty else s := by
  unfold settle
  split
  · simp_all
  · rename_i h
    simp only [Bool.not_eq_true] at h
    split
    · exact ⟨fun he => ⟨h, (Except.ok.inj he).symm⟩, fun he => by rw [he.2]⟩
    · exact ⟨fun he => ⟨h, (Except.ok.inj he).symm⟩, fun he => by rw [he.2]⟩

end Slot

end Keyspace
