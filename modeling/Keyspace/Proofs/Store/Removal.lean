import Keyspace.Proofs.Store.Locality
import Mathlib.Data.Finset.Card

/-!
# The removal of keys

`del_exact` says what a removal of keys removes and counts. It goes through its keys one after the
other, and each purge sees what those before it have left. Since the slot of a purged key is empty,
a key counts at most once, where it stands first (`Storage.there_setSlot_empty`): so the count is
that of the distinct keys that were there (`Storage.count_purgeAll`), and the whole removal depends
on no more than which keys are listed (`Storage.purgeAll_congr`).
-/

namespace Keyspace

namespace Storage

variable {s t u : Storage} {now : Nat} {db : DbId} {key : Bytes} {keys keys' : List Bytes}

/-! ## What a removal counts -/

/-- The distinct ones of the keys that have a value, and no deadline that can be read and has
passed. -/
def there (s : Storage) (now : Nat) (db : DbId) (keys : List Bytes) : Finset Bytes :=
  keys.toFinset.filter fun key =>
    (s.slot db key).value.isSome = true ∧ (s.slot db key).isExpired now = false

theorem mem_there_iff : key ∈ s.there now db keys ↔
    key ∈ keys ∧ ((s.slot db key).purge now).1 = true := by
  simp only [there, Finset.mem_filter, List.mem_toFinset, Slot.purge, Bool.and_eq_true,
    Bool.not_eq_true']

/-- A key that has been removed is not there any more, all others are as they were. -/
theorem there_setSlot_empty (s : Storage) (now : Nat) (db : DbId) (key : Bytes)
    (keys : List Bytes) :
    (s.setSlot db key .empty).there now db keys = (s.there now db keys).erase key := by
  ext key'
  rw [Finset.mem_erase, mem_there_iff, mem_there_iff, slot_setSlot]
  by_cases h : key = key'
  · subst h
    simp [Slot.purge, Slot.empty]
  · simp [h, Ne.symm h]

/-- A key that was there counts once, wherever else it stands. -/
theorem there_cons (s : Storage) (now : Nat) (db : DbId) (key : Bytes) (keys : List Bytes) :
    s.there now db (key :: keys) =
      if ((s.slot db key).purge now).1 then insert key ((s.there now db keys).erase key)
      else (s.there now db keys).erase key := by
  ext key'
  rw [mem_there_iff, List.mem_cons]
  by_cases he : key' = key
  · subst he
    cases h : ((s.slot db key').purge now).1 <;> simp
  · cases h : ((s.slot db key).purge now).1 <;> simp [he, mem_there_iff]

/-- The removal of keys counts those that were there, each once. -/
theorem count_purgeAll (s : Storage) (now : Nat) (db : DbId) (keys : List Bytes) :
    (s.purgeAll now db keys).1 = (s.there now db keys).card := by
  induction keys generalizing s with
  | nil => rfl
  | cons key keys ih =>
    have hrest := ih (s.setSlot db key .empty)
    rw [there_setSlot_empty] at hrest
    have hcount : (s.purgeAll now db (key :: keys)).1 =
        if ((s.slot db key).purge now).1 then ((s.there now db keys).erase key).card + 1
        else ((s.there now db keys).erase key).card := by rw [← hrest]; rfl
    rw [hcount, there_cons]
    split
    · rw [Finset.card_insert_of_notMem (Finset.notMem_erase _ _)]
    · rfl

theorem there_congr (h : ∀ key, key ∈ keys ↔ key ∈ keys') :
    s.there now db keys = s.there now db keys' := by
  ext key
  rw [mem_there_iff, mem_there_iff, h]

theorem there_filter_ne (s : Storage) (now : Nat) (db : DbId) (key : Bytes) (keys : List Bytes) :
    s.there now db ((keys.filter (· ≠ key)).filter isKey) =
      (s.there now db (keys.filter isKey)).erase key := by
  ext key'
  simp only [Finset.mem_erase, mem_there_iff, List.mem_filter, decide_eq_true_eq]
  tauto

theorem there_addTable (s : Storage) (db' : DbId) (now : Nat) (db : DbId) (keys : List Bytes) :
    (s.addTable db').there now db keys = s.there now db keys := by
  ext key
  rw [mem_there_iff, mem_there_iff, slot_addTable]

/-! ## What a removal leaves -/

/-- The second storage is the first one without some keys of a database: their slots are empty, and
every other record is as it was. -/
structure Without (db : DbId) (gone : Bytes → Prop) (s t : Storage) : Prop where
  empty : ∀ key, gone key → t.slot db key = .empty
  slot : ∀ db' key, ¬ (db' = db ∧ gone key) → t.slot db' key = s.slot db' key
  stray : ∀ tag, Deadline.untag tag = none → t.deadlines.get? tag = s.deadlines.get? tag
  tree : ∀ name, (∀ db', tableName db' ≠ name) → t.tree name = s.tree name

/-- It does not matter in which way keys were removed. -/
theorem Without.sameRecords {gone gone' : Bytes → Prop} (h : Without db gone s t)
    (h' : Without db gone' s u) (hgone : ∀ key, gone key ↔ gone' key) : SameRecords t u := by
  refine sameRecords_of_slots (fun db' key => ?_) (fun tag ht => ?_) fun name hn => ?_
  · by_cases hkey : db' = db ∧ gone key
    · obtain ⟨rfl, hkey⟩ := hkey
      rw [h.empty key hkey, h'.empty key ((hgone key).1 hkey)]
    · rw [h.slot db' key hkey, h'.slot db' key (by rwa [← hgone])]
  · rw [h.stray tag ht, h'.stray tag ht]
  · rw [h.tree name hn, h'.tree name hn]

theorem without_none (db : DbId) (s : Storage) : Without db (· ∈ []) s s where
  empty _ hkey := absurd hkey List.not_mem_nil
  slot _ _ _ := rfl
  stray _ _ := rfl
  tree _ _ := rfl

theorem Without.of_addTable {gone : Bytes → Prop} (h : Without db gone (s.addTable db) t) :
    Without db gone s t where
  empty := h.empty
  slot db' key hne := (h.slot db' key hne).trans (slot_addTable s db db' key)
  stray := h.stray
  tree name hn := (h.tree name hn).trans (tree_addTable s db name)

theorem without_purgeAll (s : Storage) (now : Nat) (db : DbId) (keys : List Bytes) :
    Without db (· ∈ keys) s (s.purgeAll now db keys).2 where
  empty key hkey := by rw [slot_purgeAll, if_pos ⟨rfl, hkey⟩]
  slot db' key hne := by rw [slot_purgeAll, if_neg fun h => hne ⟨h.1.symm, h.2⟩]
  stray _ ht := stray_purgeAll now keys ht
  tree _ hn := (frame_purgeAll s now db.toNat_lt keys).tree fun db' _ => hn db'

/-! ## The removal of the same keys -/

/-- A removal from a database that has a table depends on no more than which keys are listed. -/
theorem purgeAll_congr (hs : (s.trees.get? (tableName db)).isSome = true)
    (h : ∀ key, key ∈ keys ↔ key ∈ keys') (now : Nat) :
    s.purgeAll now db keys = s.purgeAll now db keys' := by
  have hsame : SameRecords (s.purgeAll now db keys).2 (s.purgeAll now db keys').2 :=
    (without_purgeAll s now db keys).sameRecords (without_purgeAll s now db keys') h
  have hcount : (s.purgeAll now db keys).1 = (s.purgeAll now db keys').1 := by
    rw [count_purgeAll, count_purgeAll, there_congr h]
  refine Prod.ext hcount (hsame.eq fun name => ?_)
  by_cases hname : tableName db = name
  · subst hname
    rw [hasTable_purgeAll now keys hs, hasTable_purgeAll now keys' hs]
  · rw [get?_trees_purgeAll now keys hname, get?_trees_purgeAll now keys' hname]

end Storage

namespace Store

variable {s : Store} {c : Call} {keys keys' : List Bytes}

/-- A removal is a transaction, if there is a key to be removed. -/
theorem perform_del (s : Store) (c : Call) (keys : List Bytes) :
    s.perform c (.del keys) =
      if (keys.filter isKey).isEmpty then ⟨.ok (.count 0), s, .none⟩
      else (s.run c fun storage =>
        .ok (storage.purgeAll c.clock.seconds c.db (keys.filter isKey))).andThen
          fun n => .ok (.count n) := by
  simp only [perform, del]
  split <;> rfl

theorem exists_ok_del_iff : (∃ r, (s.perform c (.del keys)).answer = .ok r) ↔
    keys.filter isKey = [] ∨ s.refusal c = none ∧ c.lateInterruption = none := by
  rw [perform_del, ← List.isEmpty_iff]
  split
  · rename_i hempty
    exact ⟨fun _ => .inl hempty, fun _ => ⟨_, rfl⟩⟩
  · rename_i hempty
    rw [or_iff_right hempty]
    constructor
    · rintro ⟨r, h⟩
      obtain ⟨n, hn, -⟩ := Outcome.count_eq_ok_iff.1 h
      obtain ⟨hgate, hlate, -⟩ := exists_ok_run_iff.1 ⟨n, hn⟩
      exact ⟨hgate, hlate⟩
    · rintro ⟨hgate, hlate⟩
      exact ⟨_, Outcome.count_eq_ok_iff.2 ⟨_, by rw [run_of_late hgate hlate rfl], rfl⟩⟩

theorem removes_of_ok {r : Reply} (h : (s.perform c (.del keys)).answer = .ok r) :
    r = .count (s.storage.there c.clock.seconds c.db (keys.filter isKey)).card ∧
      Storage.Without c.db (· ∈ keys.filter isKey) s.storage
        (s.perform c (.del keys)).store.storage := by
  by_cases hempty : keys.filter isKey = []
  · rw [perform_del, if_pos (List.isEmpty_iff.2 hempty)] at h ⊢
    cases h
    rw [hempty]
    exact ⟨rfl, Storage.without_none _ _⟩
  · obtain ⟨hgate, hlate⟩ := (exists_ok_del_iff.1 ⟨r, h⟩).resolve_left hempty
    rw [perform_del, if_neg (mt List.isEmpty_iff.1 hempty), run_of_late hgate hlate rfl] at h ⊢
    cases h
    rw [ready_storage, Storage.count_purgeAll, Storage.there_addTable]
    exact ⟨rfl, (Storage.without_purgeAll _ _ _ _).of_addTable⟩

theorem perform_del_congr (h : ∀ key, key ∈ keys ↔ key ∈ keys') :
    s.perform c (.del keys) = s.perform c (.del keys') := by
  have hfilter : ∀ key, key ∈ keys.filter isKey ↔ key ∈ keys'.filter isKey := by
    intro key
    rw [List.mem_filter, List.mem_filter, h]
  have hempty : (keys.filter isKey).isEmpty = (keys'.filter isKey).isEmpty := by
    rw [Bool.eq_iff_iff, List.isEmpty_iff, List.isEmpty_iff, List.eq_nil_iff_forall_not_mem,
      List.eq_nil_iff_forall_not_mem]
    exact forall_congr' fun key => not_congr (hfilter key)
  have htable : ((s.ready c.db).storage.trees.get? (tableName c.db)).isSome = true :=
    Storage.hasTable_setTable s.storage c.db _
  have hrun : (s.run c fun storage =>
      .ok (storage.purgeAll c.clock.seconds c.db (keys.filter isKey))) =
      s.run c fun storage => .ok (storage.purgeAll c.clock.seconds c.db (keys'.filter isKey)) :=
    run_congr (congrArg Except.ok (Storage.purgeAll_congr htable hfilter c.clock.seconds))
  rw [perform_del, perform_del, hempty, hrun]

/-- **A removal removes exactly the listed keys and counts exactly those that were there.** Byte
strings that can be no keys are skipped. After a removal that succeeds, nothing is stored about the
others, all else is as it was, and the answer is the number of the distinct ones among them that had
a value and no deadline that could be read and had passed. It succeeds if there is no key to be
removed, or the call is let through and not interrupted. Lists of the same byte strings, in whatever
order and with whatever repetitions, come to the same. -/
theorem del_exact :
    (∀ (s : Store) (c : Call) (keys : List Bytes) (r : Reply),
      (s.perform c (.del keys)).answer = .ok r →
        r = .count (s.storage.there c.clock.seconds c.db (keys.filter isKey)).card ∧
        Storage.Without c.db (· ∈ keys.filter isKey) s.storage
          (s.perform c (.del keys)).store.storage) ∧
    (∀ (s : Store) (c : Call) (keys : List Bytes),
      (∃ r, (s.perform c (.del keys)).answer = .ok r) ↔
        keys.filter isKey = [] ∨ s.refusal c = none ∧ c.lateInterruption = none) ∧
    ∀ (s : Store) (c : Call) (keys keys' : List Bytes), (∀ key, key ∈ keys ↔ key ∈ keys') →
      s.perform c (.del keys) = s.perform c (.del keys') := by
  exact ⟨fun _ _ _ _ => removes_of_ok, fun _ _ _ => exists_ok_del_iff,
    fun _ _ _ _ => perform_del_congr⟩

/-- A list with a string that is no key, a key twice, one that has expired, one whose deadline
cannot be read, a deadline without a value and a key that is not there. -/
theorem del_exact_mixed :
    let storage := Storage.empty.setSlot 0 [97] ⟨some [55], none⟩
      |>.setSlot 0 [98] ⟨some [55], some (Deadline.encode ⟨4, 1⟩)⟩
      |>.setSlot 0 [99] ⟨some [55], some [1, 2, 3]⟩
      |>.setSlot 0 [100] ⟨none, some (Deadline.encode ⟨9, 1⟩)⟩
      |>.setSlot 1 [97] ⟨some [56], none⟩
    let s : Store := .fresh {} storage
    let c : Call := .alone 0 ⟨5000, 0⟩ .none
    let keys : List Bytes := [[97], [], [98], [99], [97], [100], [101]]
    (s.perform c (.del keys)).answer = .ok (.count 2) ∧
      s.storage.there c.clock.seconds c.db (keys.filter isKey) = {[97], [99]} ∧
      Storage.Without c.db (· ∈ keys.filter isKey) storage (s.perform c (.del keys)).store.storage ∧
      s.perform c (.del keys) =
        s.perform c (.del [[], [101], [100], [99], [98], [97]]) := by
  intro storage s c keys
  obtain ⟨hremoves, hok, hcongr⟩ := del_exact
  obtain ⟨r, hr⟩ := (hok s c keys).2 (.inr ⟨by rfl, rfl⟩)
  obtain ⟨hcount, hwithout⟩ := hremoves s c keys r hr
  have hthere : s.storage.there c.clock.seconds c.db (keys.filter isKey) = {[97], [99]} := by
    decide
  rw [hthere] at hcount
  refine ⟨by rw [hr, hcount]; rfl, hthere, hwithout, hcongr s c _ _ fun key => ?_⟩
  simp only [keys, List.mem_cons, List.not_mem_nil]
  tauto

end Store

end Keyspace
