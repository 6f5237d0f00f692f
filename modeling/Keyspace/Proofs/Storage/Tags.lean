import Keyspace.Proofs.Storage.Slots
import Keyspace.Store.Sweep

/-!
# Tags keep the databases apart and in order

All databases share one tree of deadlines, in which the entry of a key stands under its tag: the
four bytes of the number of the database, then the key. `tag_faithful` says what this layout gives.
Databases and keys are what tags are read as, without a confusion and in the same order, as
four bytes with the most significant one first are ordered like the number that they write, and
as the rest is compared only between tags of one database.

For the tree this means that a scan goes through the databases by their numbers
(`pairwise_untag_keys`), that the tags of one database are the ones with its four bytes in front
(`keysFrom_prefix`), and that a record under one tag is no other tag's (`get?_set_tag`). A sweep
finds expired keys in the same order (`pairwise_expired_all`).
-/

namespace Keyspace

namespace Deadline

/-- The place of a key in the deadlines: the databases by their numbers, and within a database the
keys byte by byte. -/
def Before (p q : DbId × Bytes) : Prop := p.1.toNat < q.1.toNat ∨ p.1 = q.1 ∧ p.2 < q.2

theorem tag_lt_tag_iff_before {p q : DbId × Bytes} : tag p.1 p.2 < tag q.1 q.2 ↔ Before p q := by
  rw [tag_lt_tag_iff, UInt32.lt_iff_toNat_lt, Before]

theorem tag_inj {db db' : DbId} {key key' : Bytes} :
    tag db key = tag db' key' ↔ db = db' ∧ key = key' :=
  ⟨tag_injective, fun ⟨hdb, hkey⟩ => by rw [hdb, hkey]⟩

/-- A byte string is a tag if it is long enough for the number of a database. -/
theorem exists_eq_tag_iff {raw : Bytes} : (∃ db key, raw = tag db key) ↔ 4 ≤ raw.length := by
  rw [← Nat.not_lt, ← untag_eq_none_iff]
  constructor
  · rintro ⟨db, key, rfl⟩ h
    rw [untag_tag] at h
    cases h
  · exact (untag_eq_none_or raw).resolve_left

/-- A tag has the four bytes of a number in front exactly when it is of the database with that
number. -/
theorem isPrefixOf_eq_decide (db : DbId) (raw : Bytes) :
    (BigEndian.ofNat 4 db.toNat).isPrefixOf raw = decide ((untag raw).map (·.1) = some db) := by
  have hstart : BigEndian.ofNat 4 db.toNat = tag db [] := (List.append_nil _).symm
  rcases untag_eq_none_or raw with h | ⟨db', key, rfl⟩
  · -- a shorter byte string has no four bytes in front
    rw [h, Bool.eq_iff_iff, List.isPrefixOf_iff_prefix]
    refine iff_of_false (fun hp => ?_) (by simp)
    have hlen := hp.length_le
    rw [BigEndian.length_ofNat] at hlen
    exact Nat.not_lt.2 hlen (untag_eq_none_iff.1 h)
  · rw [hstart, isPrefixOf_tag, untag_tag, Bool.eq_iff_iff]
    simp [eq_comm]

section Tree

variable {α : Type} (m : OrderedMap α)

/-- A scan of the tree meets the databases by their numbers, and their keys in order. -/
theorem pairwise_untag_keys : (m.keys.filterMap untag).Pairwise Before := by
  rw [List.pairwise_filterMap, OrderedMap.keys, List.pairwise_map]
  refine m.sorted.imp fun hlt p hp q hq => ?_
  rw [untag_eq_some_iff.1 hp, untag_eq_some_iff.1 hq] at hlt
  exact tag_lt_tag_iff_before.1 hlt

theorem keysFrom_prefix (db : DbId) :
    m.keysFrom (BigEndian.ofNat 4 db.toNat) =
      m.keys.filter fun raw => (untag raw).map (·.1) = some db :=
  List.filter_congr fun raw _ => isPrefixOf_eq_decide db raw

theorem get?_set_tag (db db' : DbId) (key key' : Bytes) (o : Option α) :
    (m.set (tag db key) o).get? (tag db' key') =
      if db = db' ∧ key = key' then o else m.get? (tag db' key') := by
  rw [OrderedMap.get?_set]
  simp only [tag_inj]

end Tree

/-- **Tags.** A tag reads back as its database and key, and the byte strings that are the tag of
what they are read as are those of four bytes or more. Tags are ordered by the number of the
database and then by the key. So a scan goes through the databases by their numbers, the entries
of a database are found by the four bytes of its number, and no two keys, of one database or of
two, share an entry. -/
theorem tag_faithful :
    (∀ db key, untag (tag db key) = some (db, key)) ∧
    (∀ raw, (∃ db key, untag raw = some (db, key) ∧ tag db key = raw) ↔ 4 ≤ raw.length) ∧
    (∀ db db' key key',
      (tag db key < tag db' key' ↔ db.toNat < db'.toNat ∨ db = db' ∧ key < key') ∧
      (tag db key = tag db' key' ↔ db = db' ∧ key = key')) ∧
    ∀ {α : Type} (m : OrderedMap α),
      (m.keys.filterMap untag).Pairwise Before ∧
      ((m.keys.filterMap untag).map (·.1.toNat)).Pairwise (· ≤ ·) ∧
      (∀ db, m.keysFrom (BigEndian.ofNat 4 db.toNat) =
        m.keys.filter fun raw => (untag raw).map (·.1) = some db) ∧
      ∀ db db' key key' o, (m.set (tag db key) o).get? (tag db' key') =
        if db = db' ∧ key = key' then o else m.get? (tag db' key') := by
  refine ⟨untag_tag, fun raw => ?read, fun db db' key key' => ?order, fun m => ?scan⟩
  case read =>
    rw [← exists_eq_tag_iff]
    constructor
    · rintro ⟨db, key, -, rfl⟩
      exact ⟨db, key, rfl⟩
    · rintro ⟨db, key, rfl⟩
      exact ⟨db, key, untag_tag db key, rfl⟩
  case order => exact ⟨tag_lt_tag_iff_before (p := (db, key)) (q := (db', key')), tag_inj⟩
  case scan =>
    have hscan := pairwise_untag_keys m
    refine ⟨hscan, ?_, keysFrom_prefix m, get?_set_tag m⟩
    refine List.pairwise_map.2 (hscan.imp fun hbefore => ?_)
    rcases hbefore with h | ⟨h, -⟩
    · exact Nat.le_of_lt h
    · exact Nat.le_of_eq (congrArg UInt32.toNat h)

-- an empty key, a key and one that begins with it, and a database whose lowest byte is 0
example : tag 1 [0xff] < tag 256 [] ∧ tag 256 [] < tag 256 [0x61] ∧
    tag 256 [0x61] < tag 256 [0x61, 0x00] := by decide

end Deadline

namespace Finding

/-- The database and the key of an expired entry. -/
def expired? : Finding → Option (DbId × Bytes)
  | expired db key => some (db, key)
  | malformed _ => none

theorem untag_of_expired? {now : Nat} {e : Bytes × Bytes} {f : Finding} {p : DbId × Bytes}
    (hf : classify now e = some f) (hp : f.expired? = some p) : Deadline.untag e.1 = some p := by
  unfold classify at hf
  split at hf
  · rename_i db key d htag hd
    split at hf
    · obtain rfl := Option.some.inj hf
      rw [htag, ← hp]
      rfl
    · cases hf
  · obtain rfl := Option.some.inj hf
    cases hp

/-- A sweep finds the expired keys of a database before those of the next, in their order. -/
theorem pairwise_expired_all (now : Nat) (s : Storage) :
    ((all now s).filterMap expired?).Pairwise Deadline.Before := by
  have hsorted := Deadline.pairwise_untag_keys s.deadlines
  rw [OrderedMap.keys, List.filterMap_map, List.pairwise_filterMap] at hsorted
  rw [all, List.pairwise_filterMap, List.pairwise_filterMap]
  refine hsorted.imp fun hbefore f hf g hg p hp q hq => ?_
  exact hbefore p (untag_of_expired? hf hp) q (untag_of_expired? hg hq)

end Finding

end Keyspace
