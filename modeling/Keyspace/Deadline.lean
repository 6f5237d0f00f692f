import Keyspace.Error

/-!
# Deadlines of keys

A key may have a deadline: the second at which it expires and the second at which that was decided.
Deadlines are kept apart from the values, all databases together, under the `tag` of the database
and the key. `Deadline.ofDuration` and `Deadline.ofTimestamp` make a deadline from a duration or a
point in time, no further ahead than `maxTtl`; a `Refusal` says why there is none.
`decode?_encode` says that a recorded deadline reads back, `untag_eq_some_iff` that a tag determines
database and key, and `tag_lt_tag_iff` that tags are ordered by database and then by key.
-/

namespace Keyspace

/-- The number of a database. -/
abbrev DbId := UInt32

/-- When a key expires and when that was decided, in seconds since 1970. -/
structure Deadline where
  expiresAt : Nat
  createdAt : Nat
  deriving DecidableEq, Repr

namespace Deadline

/-- The longest time that a key can be given: one year, in seconds. -/
def maxTtl : Nat := 365 * 24 * 60 * 60

/-- The answer about the remaining time of a key that is not there. -/
def notFound : Int := -2

/-- The answer about the remaining time of a key without a deadline. -/
def persistent : Int := -1

/-! ## Making a deadline -/

/-- Why a deadline cannot be set. -/
inductive Refusal
  | negativeDuration (seconds : Int)
  | durationTooLong (seconds : Int)
  | negativeTimestamp (timestamp : Int)
  | timestampTooFar (timestamp : Int)
  deriving DecidableEq, Repr

/-- The description of a refusal. -/
def Refusal.message : Refusal → String
  | negativeDuration seconds => s!"negative duration {seconds}"
  | durationTooLong seconds => s!"{seconds} seconds exceeds the maximum of {maxTtl}"
  | negativeTimestamp timestamp => s!"negative timestamp {timestamp}"
  | timestampTooFar timestamp => s!"timestamp {timestamp} is more than {maxTtl} seconds ahead"

/-- The failure of a request for a deadline that cannot be set. -/
def Refusal.toError (r : Refusal) : Error := .invalidTtl r.message

/-- The deadline `seconds` from `now`. -/
def ofDuration (now : Nat) (seconds : Int) : Except Refusal Deadline :=
  if seconds < 0 then .error (.negativeDuration seconds)
  else if maxTtl < seconds then .error (.durationTooLong seconds)
  else .ok ⟨now + seconds.toNat, now⟩

/-- The deadline at the second `timestamp`, set at `now`. The furthest allowed second is held at
the greatest 64-bit number. -/
def ofTimestamp (now : Nat) (timestamp : Int) : Except Refusal Deadline :=
  if timestamp < 0 then .error (.negativeTimestamp timestamp)
  else if min (now + maxTtl) 0xffffffffffffffff < timestamp then .error (.timestampTooFar timestamp)
  else .ok ⟨timestamp.toNat, now⟩

/-- The deadline has passed. -/
def isExpired (d : Deadline) (now : Nat) : Bool := d.expiresAt ≤ now

/-! ## The record of a deadline -/

/-- The number of bytes of a recorded deadline. -/
def width : Nat := 16

/-- The record of a deadline: both seconds in eight bytes. -/
def encode (d : Deadline) : Bytes := BigEndian.ofNat 8 d.expiresAt ++ BigEndian.ofNat 8 d.createdAt

/-- The deadline that a record holds, if it has the right length. -/
def decode? (b : Bytes) : Option Deadline :=
  if b.length = width then some ⟨BigEndian.toNat (b.take 8), BigEndian.toNat (b.drop 8)⟩ else none

/-- The deadline that a record holds, or what is wrong with it. -/
def decode (b : Bytes) : Except Error Deadline :=
  match decode? b with
  | some d => .ok d
  | none => .error (.corrupt "<ttl metadata>" s!"expected {width} bytes, got {b.length}")

@[simp] theorem length_encode (d : Deadline) : d.encode.length = width := by
  simp [encode, width]

theorem decode?_encode {d : Deadline} (he : d.expiresAt ≤ 0xffffffffffffffff)
    (hc : d.createdAt ≤ 0xffffffffffffffff) : decode? d.encode = some d := by
  rw [decode?, if_pos (length_encode d), encode,
    List.take_left' (BigEndian.length_ofNat _ _), List.drop_left' (BigEndian.length_ofNat _ _),
    BigEndian.toNat_ofNat_of_lt (Nat.lt_add_one_of_le he),
    BigEndian.toNat_ofNat_of_lt (Nat.lt_add_one_of_le hc)]

theorem decode?_eq_none_iff {b : Bytes} : decode? b = none ↔ b.length ≠ width := by
  simp [decode?]

/-! ## Tags -/

/-- The key under which the deadline of `key` in the database `db` is kept. -/
def tag (db : DbId) (key : Bytes) : Bytes := BigEndian.ofNat 4 db.toNat ++ key

/-- The database and the key of a tag. -/
def untag (t : Bytes) : Option (DbId × Bytes) :=
  (Bytes.splitAt? 4 t).map fun (p, key) => (UInt32.ofNat (BigEndian.toNat p), key)

theorem untag_tag (db : DbId) (key : Bytes) : untag (tag db key) = some (db, key) := by
  have h := BigEndian.toNat_ofNat_of_lt (w := 4) (show db.toNat < 256 ^ 4 from db.toNat_lt)
  simp [untag, tag, Bytes.splitAt?_append _ (BigEndian.length_ofNat _ _), h]

theorem untag_eq_some_iff {t key : Bytes} {db : DbId} :
    untag t = some (db, key) ↔ t = tag db key := by
  constructor
  · intro h
    obtain ⟨⟨p, k⟩, hs, he⟩ := Option.map_eq_some_iff.1 h
    obtain ⟨rfl, rfl⟩ := Prod.mk.inj he
    obtain ⟨rfl, hp⟩ := Bytes.splitAt?_eq_some_iff.1 hs
    have hlt := BigEndian.toNat_lt p
    rw [hp] at hlt
    have hq := BigEndian.ofNat_toNat p
    rw [hp] at hq
    have hm : BigEndian.toNat p % 2 ^ 32 = BigEndian.toNat p := Nat.mod_eq_of_lt hlt
    rw [tag, UInt32.toNat_ofNat', hm, hq]
  · rintro rfl
    exact untag_tag db key

theorem untag_eq_none_iff {t : Bytes} : untag t = none ↔ t.length < 4 := by
  simp [untag, Bytes.splitAt?_eq_none_iff]

theorem tag_injective {db db' : DbId} {key key' : Bytes} (h : tag db key = tag db' key') :
    db = db' ∧ key = key' := by
  have := untag_tag db key
  rw [h, untag_tag] at this
  obtain ⟨rfl, rfl⟩ := Prod.mk.inj (Option.some.inj this)
  exact ⟨rfl, rfl⟩

/-- Tags are ordered by the number of the database and then by the key. -/
theorem tag_lt_tag_iff {db db' : DbId} {key key' : Bytes} :
    tag db key < tag db' key' ↔ db < db' ∨ db = db' ∧ key < key' := by
  have hdb : ∀ d : DbId, d.toNat < 256 ^ 4 := fun d => by simpa using d.toNat_lt
  have hl : (BigEndian.ofNat 4 db.toNat).length = (BigEndian.ofNat 4 db'.toNat).length := by simp
  rw [tag, tag, Bytes.append_lt_append_iff _ _ hl, BigEndian.lt_iff_toNat_lt hl,
    BigEndian.toNat_ofNat_of_lt (hdb _), BigEndian.toNat_ofNat_of_lt (hdb _),
    UInt32.lt_iff_toNat_lt]
  constructor
  · exact Or.imp_right (And.imp_left fun h =>
      UInt32.toNat_inj.1 (BigEndian.ofNat_injective (hdb _) (hdb _) h))
  · exact Or.imp_right (And.imp_left fun h => by rw [h])

end Deadline

end Keyspace
