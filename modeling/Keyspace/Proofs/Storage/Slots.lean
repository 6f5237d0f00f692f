import Keyspace.Storage

/-!
# A storage by its slots

A storage is known by the slots of all keys, by the deadlines whose tag is too short for a key and
by the trees that are no database's (`sameRecords_of_slots`). This module says what every
operation of the storage does to slots (`slot_setSlot`, `slot_purgeAll`, `slot_clear`,
`slot_eraseDeadline`) and that it keeps to the databases that it works on: `Frame n` holds between
two storages that differ at most in databases below `n` and in deadlines, of which those with a
tag too short can only go.

`SameRecords` compares two storages record by record. A tree without records is the same as none, as
far as records go; storages with the same trees are then equal (`SameRecords.eq`). So the removal of
all that is found of a database, key after key, clears it (`removeAll_eq_clear`).
-/

namespace Keyspace

theorem Deadline.untag_eq_none_or (tag : Bytes) :
    Deadline.untag tag = none ∨ ∃ db key, tag = Deadline.tag db key := by
  cases h : Deadline.untag tag with
  | none => exact .inl rfl
  | some p => exact .inr ⟨p.1, p.2, Deadline.untag_eq_some_iff.1 h⟩

theorem Deadline.tag_ne_of_untag {tag : Bytes} (h : Deadline.untag tag = none) (db : DbId)
    (key : Bytes) : Deadline.tag db key ≠ tag := by
  rintro rfl
  rw [Deadline.untag_tag] at h
  cases h

/-- The tags of a database are those that begin with the four bytes of its number. -/
theorem Deadline.isPrefixOf_iff {db : DbId} {tag : Bytes} :
    (Deadline.tag db []).isPrefixOf tag = true ↔ BigEndian.ofNat 4 db.toNat <+: tag := by
  rw [List.isPrefixOf_iff_prefix, Deadline.tag, List.append_nil]

theorem Deadline.isPrefixOf_tag (db db' : DbId) (key : Bytes) :
    (Deadline.tag db []).isPrefixOf (Deadline.tag db' key) = decide (db = db') := by
  rw [Bool.eq_iff_iff, isPrefixOf_iff, decide_eq_true_eq]
  constructor
  · rintro ⟨r, hr⟩
    have htag : Deadline.tag db r = Deadline.tag db' key := hr
    exact (Deadline.tag_injective htag).1
  · rintro rfl
    exact ⟨key, rfl⟩

theorem OrderedMap.mem_keys_iff {α : Type} {m : OrderedMap α} {k : Bytes} :
    k ∈ m.keys ↔ (m.get? k).isSome = true := by
  rw [Option.isSome_iff_exists, OrderedMap.keys, List.mem_map]
  constructor
  · rintro ⟨e, he, rfl⟩
    exact ⟨e.2, OrderedMap.mem_entries_iff.1 he⟩
  · rintro ⟨v, hv⟩
    exact ⟨(k, v), OrderedMap.mem_entries_iff.2 hv, rfl⟩

theorem OrderedMap.mem_keysFrom_iff {α : Type} {m : OrderedMap α} {start k : Bytes} :
    k ∈ m.keysFrom start ↔ (m.get? k).isSome = true ∧ start.isPrefixOf k = true := by
  rw [OrderedMap.keysFrom, List.mem_filter, OrderedMap.mem_keys_iff]

/-- To erase all keys with some beginning, as they are found, is to refuse them. -/
theorem OrderedMap.eraseAll_keysFrom {α : Type} (m : OrderedMap α) (start : Bytes) :
    m.eraseAll (m.keysFrom start) = m.filterKeys fun k => !start.isPrefixOf k := by
  ext k : 1
  rw [OrderedMap.get?_eraseAll, OrderedMap.get?_filterKeys]
  simp only [OrderedMap.mem_keysFrom_iff]
  cases start.isPrefixOf k <;> cases m.get? k <;> simp

namespace Storage

/-! ## Slots after an operation -/

theorem slot_setSlot (s : Storage) (db db' : DbId) (key key' : Bytes) (t : Slot) :
    (s.setSlot db key t).slot db' key' =
      if db = db' ∧ key = key' then t else s.slot db' key' := by
  split
  · rename_i h
    obtain ⟨rfl, rfl⟩ := h
    exact slot_setSlot_self s db key t
  · rename_i h
    exact slot_setSlot_of_ne t fun he => h (Prod.mk.inj he)

@[simp] theorem slot_empty (db : DbId) (key : Bytes) : empty.slot db key = .empty := rfl

/-- The storage without the deadlines of a database. -/
def dropDeadlines (s : Storage) (db : DbId) : Storage :=
  { s with deadlines := s.deadlines.filterKeys fun tag => !(Deadline.tag db []).isPrefixOf tag }

/-- The storage without the values and the deadlines of a database. -/
def clear (s : Storage) (db : DbId) : Storage := (s.dropDeadlines db).setTable db .empty

/-- The storage without the deadline under `tag`. -/
def eraseDeadline (s : Storage) (tag : Bytes) : Storage :=
  { s with deadlines := s.deadlines.erase tag }

theorem slot_eraseDeadline (s : Storage) (tag : Bytes) (db : DbId) (key : Bytes) :
    (s.eraseDeadline tag).slot db key =
      if tag = Deadline.tag db key then { s.slot db key with deadline := none }
      else s.slot db key := by
  have htable : (s.eraseDeadline tag).table db = s.table db := rfl
  have hd : (s.eraseDeadline tag).deadlines = s.deadlines.erase tag := rfl
  rw [slot, htable, hd, OrderedMap.get?_erase]
  split <;> rfl

theorem get?_deadlines_dropDeadlines (s : Storage) (db : DbId) (tag : Bytes) :
    (s.dropDeadlines db).deadlines.get? tag =
      if !(Deadline.tag db []).isPrefixOf tag then s.deadlines.get? tag else none :=
  OrderedMap.get?_filterKeys _ _ _

theorem slot_dropDeadlines (s : Storage) (db db' : DbId) (key : Bytes) :
    (s.dropDeadlines db).slot db' key =
      if db = db' then { s.slot db' key with deadline := none } else s.slot db' key := by
  have htable : (s.dropDeadlines db).table db' = s.table db' := rfl
  rw [slot, htable, get?_deadlines_dropDeadlines, Deadline.isPrefixOf_tag]
  by_cases h : db = db' <;> simp [h, slot]

theorem slot_clear (s : Storage) (db db' : DbId) (key : Bytes) :
    (s.clear db).slot db' key = if db = db' then .empty else s.slot db' key := by
  have htable : (s.clear db).table db' = if db = db' then .empty else s.table db' :=
    table_setTable _ db db' _
  have hd : (s.clear db).deadlines = (s.dropDeadlines db).deadlines := rfl
  rw [slot, htable, hd, get?_deadlines_dropDeadlines, Deadline.isPrefixOf_tag]
  by_cases h : db = db' <;> simp [h, slot, Slot.empty]

theorem slot_purgeAll (s : Storage) (now : Nat) (db db' : DbId) (keys : List Bytes)
    (key' : Bytes) :
    (s.purgeAll now db keys).2.slot db' key' =
      if db = db' ∧ key' ∈ keys then .empty else s.slot db' key' := by
  induction keys generalizing s with
  | nil => simp [purgeAll]
  | cons key keys ih =>
    simp only [purgeAll]
    rw [ih, slot_setSlot]
    by_cases hkey : key = key'
    · subst hkey
      by_cases hdb : db = db' <;> simp [hdb, Slot.purge]
    · simp [hkey, Ne.symm hkey]

/-! ## What an operation keeps -/

/-- The two storages differ at most in the databases below `n` and in deadlines, and no deadline
with a tag too short for a key is new in the second. -/
structure Frame (n : Nat) (s t : Storage) : Prop where
  trees : ∀ name, (∀ db : DbId, db.toNat < n → tableName db ≠ name) →
    t.trees.get? name = s.trees.get? name
  stray : ∀ tag, Deadline.untag tag = none →
    t.deadlines.get? tag = s.deadlines.get? tag ∨ t.deadlines.get? tag = none

namespace Frame

variable {n : Nat} {s t u : Storage}

theorem refl (n : Nat) (s : Storage) : Frame n s s := ⟨fun _ _ => rfl, fun _ _ => .inl rfl⟩

theorem trans (h : Frame n s t) (h' : Frame n t u) : Frame n s u where
  trees name hn := (h'.trees name hn).trans (h.trees name hn)
  stray tag ht := by
    rcases h'.stray tag ht with h₁ | h₁
    · rw [h₁]
      exact h.stray tag ht
    · exact .inr h₁

theorem tree (h : Frame n s t) {name : Bytes}
    (hn : ∀ db : DbId, db.toNat < n → tableName db ≠ name) : t.tree name = s.tree name := by
  rw [Storage.tree, Storage.tree, h.trees name hn]

theorem stray_eq_none (h : Frame n s t) {tag : Bytes} (ht : Deadline.untag tag = none)
    (hs : s.deadlines.get? tag = none) : t.deadlines.get? tag = none := by
  rcases h.stray tag ht with h' | h'
  · exact h'.trans hs
  · exact h'

end Frame

theorem get?_trees_setTable {s : Storage} {db : DbId} {t : Tree} {name : Bytes}
    (h : tableName db ≠ name) : (s.setTable db t).trees.get? name = s.trees.get? name := by
  rw [setTable, OrderedMap.get?_insert, if_neg h]

theorem frame_addTable (s : Storage) {db : DbId} {n : Nat} (hdb : db.toNat < n) :
    Frame n s (s.addTable db) where
  trees _ hn := get?_trees_setTable (hn db hdb)
  stray _ _ := .inl rfl

theorem frame_setSlot (s : Storage) {db : DbId} {n : Nat} (hdb : db.toNat < n) (key : Bytes)
    (t : Slot) : Frame n s (s.setSlot db key t) where
  trees _ hn := get?_trees_setTable (hn db hdb)
  stray tag ht := by
    refine .inl ?_
    have hd : (s.setSlot db key t).deadlines = s.deadlines.set (Deadline.tag db key) t.deadline :=
      rfl
    rw [hd, OrderedMap.get?_set, if_neg (Deadline.tag_ne_of_untag ht db key)]

theorem frame_purgeAll (s : Storage) (now : Nat) {db : DbId} {n : Nat} (hdb : db.toNat < n)
    (keys : List Bytes) : Frame n s (s.purgeAll now db keys).2 := by
  induction keys generalizing s with
  | nil => exact .refl n s
  | cons key keys ih => exact (frame_setSlot s hdb key _).trans (ih _)

theorem frame_clear (s : Storage) {db : DbId} {n : Nat} (hdb : db.toNat < n) :
    Frame n s (s.clear db) where
  trees _ hn := get?_trees_setTable (hn db hdb)
  stray tag _ := by
    have hd : (s.clear db).deadlines = (s.dropDeadlines db).deadlines := rfl
    rw [hd, get?_deadlines_dropDeadlines]
    split
    · exact .inl rfl
    · exact .inr rfl

theorem frame_eraseDeadline (s : Storage) (tag : Bytes) (n : Nat) :
    Frame n s (s.eraseDeadline tag) where
  trees _ _ := rfl
  stray _ _ := by
    have hd : (s.eraseDeadline tag).deadlines = s.deadlines.erase tag := rfl
    rw [hd, OrderedMap.get?_erase]
    split
    · exact .inr rfl
    · exact .inl rfl

/-! ## The same records -/

/-- The two storages hold the same records in every tree. -/
structure SameRecords (s t : Storage) : Prop where
  deadlines : s.deadlines = t.deadlines
  tree : ∀ name, s.tree name = t.tree name

namespace SameRecords

variable {s t u : Storage}

theorem refl (s : Storage) : SameRecords s s := ⟨rfl, fun _ => rfl⟩

theorem trans (h : SameRecords s t) (h' : SameRecords t u) : SameRecords s u :=
  ⟨h.deadlines.trans h'.deadlines, fun name => (h.tree name).trans (h'.tree name)⟩

end SameRecords

/-- Storages with the same slots, the same deadlines without a key and the same trees that are no
database's hold the same records. -/
theorem sameRecords_of_slots {s t : Storage}
    (hslot : ∀ db key, s.slot db key = t.slot db key)
    (hstray : ∀ tag, Deadline.untag tag = none →
      s.deadlines.get? tag = t.deadlines.get? tag)
    (htree : ∀ name, (∀ db, tableName db ≠ name) → s.tree name = t.tree name) :
    SameRecords s t where
  deadlines := by
    ext tag : 1
    rcases Deadline.untag_eq_none_or tag with h | ⟨db, key, rfl⟩
    · exact hstray tag h
    · exact congrArg Slot.deadline (hslot db key)
  tree name := by
    by_cases h : ∃ db, tableName db = name
    · obtain ⟨db, rfl⟩ := h
      ext key : 1
      exact congrArg Slot.value (hslot db key)
    · exact htree name fun db hdb => h ⟨db, hdb⟩

theorem sameRecords_addTable (s : Storage) (db : DbId) : SameRecords (s.addTable db) s :=
  ⟨rfl, tree_addTable s db⟩

/-- To store a slot as it is changes no record. -/
theorem sameRecords_setSlot_slot (s : Storage) (db : DbId) (key : Bytes) :
    SameRecords (s.setSlot db key (s.slot db key)) s where
  deadlines := OrderedMap.set_get? s.deadlines _
  tree name := by
    have h : (s.setSlot db key (s.slot db key)).tree name =
        (s.setTable db ((s.table db).set key ((s.table db).get? key))).tree name := rfl
    rw [h, OrderedMap.set_get?, tree_setTable]
    split
    · rename_i hn
      rw [← hn]
      rfl
    · rfl

theorem SameRecords.setSlot {s t : Storage} (h : SameRecords s t) (db : DbId) (key : Bytes)
    (u : Slot) : SameRecords (s.setSlot db key u) (t.setSlot db key u) where
  deadlines := by
    show s.deadlines.set _ _ = t.deadlines.set _ _
    rw [h.deadlines]
  tree name := by
    have htree : ∀ r : Storage, (r.setSlot db key u).tree name =
        (r.setTable db ((r.table db).set key u.value)).tree name := fun _ => rfl
    rw [htree s, htree t, tree_setTable, tree_setTable, table, table, h.tree, h.tree]

/-! ## Storages with the same trees -/

theorem get?_trees_eq {s : Storage} {name : Bytes} (h : (s.trees.get? name).isSome = true) :
    s.trees.get? name = some (s.tree name) := by
  rw [tree]
  obtain ⟨t, ht⟩ := Option.isSome_iff_exists.1 h
  rw [ht]
  rfl

/-- Storages that hold the same records and have the same trees are equal. -/
theorem SameRecords.eq {s t : Storage} (h : SameRecords s t)
    (htrees : ∀ name, (s.trees.get? name).isSome = (t.trees.get? name).isSome) : s = t := by
  have hsame : s.trees = t.trees := by
    ext name : 1
    cases hs : (s.trees.get? name).isSome with
    | true => rw [get?_trees_eq hs, get?_trees_eq ((htrees name).symm.trans hs), h.tree]
    | false =>
      have ht := (htrees name).symm.trans hs
      rw [Option.isSome_eq_false_iff, Option.isNone_iff_eq_none] at hs ht
      rw [hs, ht]
  obtain ⟨deadlines, trees⟩ := s
  obtain ⟨deadlines', trees'⟩ := t
  obtain rfl : deadlines = deadlines' := h.deadlines
  obtain rfl : trees = trees' := hsame
  rfl

theorem hasTable_setTable (s : Storage) (db : DbId) (t : Tree) :
    ((s.setTable db t).trees.get? (tableName db)).isSome = true := by
  rw [setTable, OrderedMap.get?_insert, if_pos rfl]
  rfl

section Removal

variable {s : Storage} {db : DbId} (now : Nat) (keys : List Bytes)

theorem stray_purgeAll {tag : Bytes} (ht : Deadline.untag tag = none) :
    (s.purgeAll now db keys).2.deadlines.get? tag = s.deadlines.get? tag := by
  induction keys generalizing s with
  | nil => rfl
  | cons key keys ih =>
    have hd : (s.setSlot db key .empty).deadlines = s.deadlines.erase (Deadline.tag db key) := rfl
    refine (ih (s := s.setSlot db key .empty)).trans ?_
    rw [hd, OrderedMap.get?_erase, if_neg (Deadline.tag_ne_of_untag ht db key)]

theorem get?_trees_purgeAll {name : Bytes} (h : tableName db ≠ name) :
    (s.purgeAll now db keys).2.trees.get? name = s.trees.get? name := by
  induction keys generalizing s with
  | nil => rfl
  | cons key keys ih => exact ih.trans (get?_trees_setTable h)

/-- The table of a database that has one is there after a removal, too. -/
theorem hasTable_purgeAll (h : (s.trees.get? (tableName db)).isSome = true) :
    ((s.purgeAll now db keys).2.trees.get? (tableName db)).isSome = true := by
  induction keys generalizing s with
  | nil => exact h
  | cons key keys ih => exact ih (s := s.setSlot db key _) (hasTable_setTable s db _)

/-- Without the deadlines given, what is removed is keys, whatever the time. -/
theorem removeAll_eq (s : Storage) (db : DbId) (tags : List Bytes) :
    s.removeAll db tags keys =
      ({ s with deadlines := s.deadlines.eraseAll tags }.purgeAll now db keys).2 := by
  unfold removeAll
  generalize { s with deadlines := s.deadlines.eraseAll tags } = t
  induction keys generalizing t with
  | nil => rfl
  | cons key keys ih => exact ih _

/-- Once the deadlines of a database are gone, the removal of all its keys clears it. -/
theorem purgeAll_keys (h : (s.trees.get? (tableName db)).isSome = true) :
    ((s.dropDeadlines db).purgeAll now db (s.table db).keys).2 = s.clear db := by
  have hsame : SameRecords ((s.dropDeadlines db).purgeAll now db (s.table db).keys).2
      (s.clear db) := by
    refine sameRecords_of_slots (fun db' key => ?_) (fun tag ht => ?_) fun name hn => ?_
    · rw [slot_purgeAll, slot_clear, slot_dropDeadlines]
      by_cases hdb : db = db'
      · subst hdb
        -- what is no key of the table has no value, and the deadline is gone
        simp only [OrderedMap.mem_keys_iff, slot]
        cases (s.table db).get? key <;> simp [Slot.empty]
      · simp [hdb]
    · exact stray_purgeAll now _ ht
    · have hfar := fun db' (_ : db'.toNat < db.toNat + 1) => hn db'
      have hdb := Nat.lt_succ_self db.toNat
      rw [(frame_purgeAll _ now hdb _).tree hfar, (frame_clear s hdb).tree hfar]
      rfl
  refine hsame.eq fun name => ?_
  by_cases hname : tableName db = name
  · subst hname
    have hleft := hasTable_purgeAll (s := s.dropDeadlines db) now (s.table db).keys h
    exact hleft.trans (hasTable_setTable _ db .empty).symm
  · have hclear : (s.clear db).trees.get? name = s.trees.get? name := get?_trees_setTable hname
    rw [get?_trees_purgeAll now _ hname, hclear]
    rfl

/-- To remove the values found in the table of a database, and the deadlines found under its tags,
is to clear the database. -/
theorem removeAll_eq_clear (h : (s.trees.get? (tableName db)).isSome = true) :
    s.removeAll db (s.deadlines.keysFrom (Deadline.tag db [])) (s.table db).keys = s.clear db := by
  rw [removeAll_eq 0, OrderedMap.eraseAll_keysFrom]
  exact purgeAll_keys 0 h

end Removal

end Storage

end Keyspace
