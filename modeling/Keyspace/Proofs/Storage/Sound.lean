import Keyspace.Config
import Keyspace.Proofs.Slot.Live
import Keyspace.Proofs.Storage.Slots

/-!
# Sound storages

A storage is `Storage.Sound` if every deadline belongs to a key that has a value, can be read and
is at most `Deadline.maxTtl` ahead of its making, if every key has a length that a key may have, and
if every tree but that of the deadlines is the table of a database.

The slots decide most of it: `sound_iff` splits soundness into `Slot.Sound` for every slot, no
deadline with a tag too short for a key, and no tree with another name. The latter two are what a
`Storage.Frame` keeps (`Sound.frame`), so an operation is left with the slots. What a command can
make of a sound slot is sound (`Slot.Sound.turns`).
-/

namespace Keyspace

/-! ## Sound slots -/

/-- The slot of `key` in the database `db` is as commands leave it. -/
structure Slot.Sound (db : DbId) (key : Bytes) (s : Slot) : Prop where
  /-- What has a value is a key. -/
  key : s.value.isSome = true → 1 ≤ key.length ∧ key.length ≤ maxKeyLength
  /-- What has a deadline has a value. -/
  value : s.deadline.isSome = true → s.value.isSome = true ∧ db.toNat < Config.mostDatabases
  /-- A deadline can be read, and is not too far ahead. -/
  deadline : ∀ record, s.deadline = some record → ∃ d, Deadline.decode? record = some d ∧
    d.createdAt ≤ d.expiresAt ∧ d.expiresAt ≤ d.createdAt + Deadline.maxTtl

theorem checkKey_eq_ok_iff {key : Bytes} :
    checkKey key = .ok () ↔ 1 ≤ key.length ∧ key.length ≤ maxKeyLength := by
  have hempty : key.isEmpty = true ↔ key.length = 0 := by simp
  unfold checkKey
  split
  · rename_i h
    refine ⟨nofun, fun hl => ?_⟩
    rw [hempty] at h
    omega
  · rename_i h
    rw [hempty] at h
    split
    · refine ⟨nofun, fun hl => ?_⟩
      omega
    · refine ⟨fun _ => ?_, fun _ => rfl⟩
      omega

namespace Slot.Sound

variable {db : DbId} {key : Bytes} {s t : Slot}

theorem empty : Slot.empty.Sound db key where
  key h := by cases h
  value h := by cases h
  deadline _ h := by cases h

/-- Without its deadline a sound slot is sound. -/
theorem without (h : s.Sound db key) : Slot.Sound db key { s with deadline := none } where
  key := h.key
  value hd := by cases hd
  deadline _ hd := by cases hd

theorem live (h : s.Sound db key) (now : Nat) : (s.live now).Sound db key := by
  rcases live_eq_or s now with h' | h' <;> rw [h']
  · exact .empty
  · exact h

theorem not_isMalformed (h : s.Sound db key) : s.isMalformed = false := by
  unfold isMalformed
  cases hd : s.deadline with
  | none => rfl
  | some record =>
    obtain ⟨d, hdec, -⟩ := h.deadline record hd
    simp [hdec]

/-- What has a deadline is a key. -/
theorem checkKey (h : s.Sound db key) (hd : s.deadline.isSome = true) : checkKey key = .ok () :=
  checkKey_eq_ok_iff.2 (h.key (h.value hd).1)

/-- A sound slot without a value that counts has nothing that counts. -/
theorem live_of_absent {now : Nat} (h : s.Sound db key) (hs : s.Absent now) :
    s.live now = .empty := by
  rcases live_eq_or s now with hl | hl
  · exact hl
  · rw [Absent, hl] at hs
    obtain ⟨value, deadline⟩ := s
    obtain rfl : value = none := hs
    cases deadline with
    | none => exact hl
    | some record => cases (h.value rfl).1

/-- What a command can make of a sound slot is sound. -/
theorem turns {clock : Clock} (h : s.Sound db key) (hdb : db.toNat < Config.mostDatabases)
    (hkey : 1 ≤ key.length ∧ key.length ≤ maxKeyLength) (ht : s.Turns clock.seconds t) :
    t.Sound db key := by
  have hlive := h.live clock.seconds
  cases ht with
  | same => exact h
  | settled => exact hlive
  | put value => exact ⟨fun _ => hkey, fun _ => ⟨rfl, hdb⟩, hlive.deadline⟩
  | dropped => exact .empty
  | restricted d there created ahead near =>
    refine ⟨fun _ => hkey, fun _ => ⟨there, hdb⟩, fun record hr => ?_⟩
    cases hr
    exact ⟨d, Deadline.decode?_encode_of_near created near, by omega, by omega⟩
  | released there => exact hlive.without

end Slot.Sound

/-! ## Sound storages -/

namespace Storage

/-- Every deadline belongs to a value, every key is a key and every tree is a table. -/
structure Sound (s : Storage) : Prop where
  deadline : ∀ tag record, s.deadlines.get? tag = some record →
    ∃ db key d, tag = Deadline.tag db key ∧ db.toNat < Config.mostDatabases ∧
      1 ≤ key.length ∧ key.length ≤ maxKeyLength ∧ Deadline.decode? record = some d ∧
      d.createdAt ≤ d.expiresAt ∧ d.expiresAt ≤ d.createdAt + Deadline.maxTtl ∧
      ∃ value, (s.table db).get? key = some value
  key : ∀ name key value, (s.tree name).get? key = some value →
    1 ≤ key.length ∧ key.length ≤ maxKeyLength
  tree : ∀ name t, s.trees.get? name = some t →
    ∃ db : DbId, db.toNat < Config.mostDatabases ∧ name = tableName db

theorem sound_empty : Sound .empty where
  deadline _ _ h := by cases h
  key _ _ _ h := by cases h
  tree _ _ h := by cases h

theorem Sound.slot {s : Storage} (h : s.Sound) (db : DbId) (key : Bytes) :
    (s.slot db key).Sound db key where
  key hv := by
    obtain ⟨value, hv⟩ := Option.isSome_iff_exists.1 hv
    exact h.key _ _ _ hv
  value hd := by
    obtain ⟨record, hr⟩ := Option.isSome_iff_exists.1 hd
    obtain ⟨db', key', d, htag, hdb, -, -, -, -, -, value, hv⟩ := h.deadline _ _ hr
    obtain ⟨rfl, rfl⟩ := Deadline.tag_injective htag
    exact ⟨Option.isSome_iff_exists.2 ⟨value, hv⟩, hdb⟩
  deadline record hr := by
    obtain ⟨db', key', d, -, -, -, -, hdec, hle, hnear, -⟩ := h.deadline _ _ hr
    exact ⟨d, hdec, hle, hnear⟩

theorem Sound.stray {s : Storage} (h : s.Sound) {tag : Bytes} (ht : Deadline.untag tag = none) :
    s.deadlines.get? tag = none := by
  cases hr : s.deadlines.get? tag with
  | none => rfl
  | some record =>
    obtain ⟨db, key, d, htag, -⟩ := h.deadline _ _ hr
    exact absurd htag.symm (Deadline.tag_ne_of_untag ht db key)

theorem Sound.trees {s : Storage} (h : s.Sound) {name : Bytes}
    (hn : ∀ db : DbId, db.toNat < Config.mostDatabases → tableName db ≠ name) :
    s.trees.get? name = none := by
  cases ht : s.trees.get? name with
  | none => rfl
  | some t =>
    obtain ⟨db, hdb, hname⟩ := h.tree _ _ ht
    exact absurd hname.symm (hn db hdb)

/-- Soundness, slot by slot. -/
theorem sound_iff {s : Storage} :
    s.Sound ↔ (∀ db key, (s.slot db key).Sound db key) ∧
      (∀ tag, Deadline.untag tag = none → s.deadlines.get? tag = none) ∧
      ∀ name, (∀ db : DbId, db.toNat < Config.mostDatabases → tableName db ≠ name) →
        s.trees.get? name = none := by
  refine ⟨fun h => ⟨h.slot, fun _ => h.stray, fun _ => h.trees⟩, ?_⟩
  rintro ⟨hslot, hstray, htrees⟩
  have htree : ∀ name t, s.trees.get? name = some t →
      ∃ db : DbId, db.toNat < Config.mostDatabases ∧ name = tableName db := by
    intro name t ht
    apply Classical.byContradiction
    intro hn
    rw [htrees name fun db hdb he => hn ⟨db, hdb, he.symm⟩] at ht
    cases ht
  refine ⟨fun tag record hr => ?_, fun name key value hv => ?_, htree⟩
  · rcases Deadline.untag_eq_none_or tag with ht | ⟨db, key, rfl⟩
    · rw [hstray tag ht] at hr
      cases hr
    · have h := hslot db key
      obtain ⟨hv, hdb⟩ := h.value (Option.isSome_iff_exists.2 ⟨record, hr⟩)
      obtain ⟨d, hdec, hle, hnear⟩ := h.deadline record hr
      obtain ⟨hpos, hmax⟩ := h.key hv
      exact ⟨db, key, d, rfl, hdb, hpos, hmax, hdec, hle, hnear, Option.isSome_iff_exists.1 hv⟩
  · cases ht : s.trees.get? name with
    | none =>
      rw [Storage.tree, ht] at hv
      cases hv
    | some t =>
      obtain ⟨db, -, rfl⟩ := htree name t ht
      exact (hslot db key).key (Option.isSome_iff_exists.2 ⟨value, hv⟩)

/-- Between a sound storage and one that keeps to its databases only the slots count. -/
theorem Sound.frame {n : Nat} {s t : Storage} (h : s.Sound) (hn : n ≤ Config.mostDatabases)
    (hf : Frame n s t) (hslot : ∀ db key, (t.slot db key).Sound db key) : t.Sound := by
  refine sound_iff.2 ⟨hslot, fun tag ht => hf.stray_eq_none ht (h.stray ht), fun name hname => ?_⟩
  rw [hf.trees name fun db hdb => hname db (by omega)]
  exact h.trees hname

end Storage

end Keyspace
