import Keyspace.Bytes.Decimal
import Keyspace.OrderedMap
import Keyspace.Slot

/-!
# Storage

The storage is one tree with the deadlines of all keys and any number of named trees, of which
those with a name of the form `tableName db` hold the values of the databases. `Storage.slot` looks
at one key of one database and `Storage.setSlot` changes it: the slot changed reads back
(`slot_setSlot_self`) and no other one changes (`slot_setSlot_of_ne`). Making the tree of a database
changes none (`slot_addTable`).
-/

namespace Keyspace

/-- An ordered tree of records. -/
abbrev Tree := OrderedMap Bytes

/-- The tree of the deadlines and the other trees by their names. -/
structure Storage where
  deadlines : Tree
  trees : OrderedMap Tree
  deriving DecidableEq, Repr

/-- The name of the tree with the values of a database: the number has at least two digits. -/
def tableName (db : DbId) : Bytes :=
  let digits := Decimal.ofNat db.toNat
  Bytes.ofAscii ['d', 'b', '_'] ++ if digits.length < 2 then 48 :: digits else digits

/-- The name of the tree of the deadlines. -/
def deadlinesName : Bytes := Bytes.ofAscii ['e', 'x', 'p', 'i', 'r', 'e']

/-- A database is known by the name of its tree. -/
theorem tableName_injective {db db' : DbId} (h : tableName db = tableName db') : db = db' := by
  have value : ∀ d : DbId, Decimal.toNat ((tableName d).drop 3) = d.toNat := by
    intro d
    have h₃ : (Bytes.ofAscii ['d', 'b', '_']).length = 3 := by decide
    simp only [tableName, List.drop_left' h₃]
    split
    · rw [Decimal.toNat, List.foldl_cons]
      exact Decimal.toNat_ofNat _
    · exact Decimal.toNat_ofNat _
  exact UInt32.toNat_inj.1 (by rw [← value db, h, value])

namespace Storage

/-- No record and no tree but that of the deadlines. -/
def empty : Storage := ⟨.empty, .empty⟩

/-- The tree of a name, which is empty as long as there is none. -/
def tree (s : Storage) (name : Bytes) : Tree := (s.trees.get? name).getD .empty

/-- The values of a database. -/
def table (s : Storage) (db : DbId) : Tree := s.tree (tableName db)

/-- The storage with a tree for the database. -/
def addTable (s : Storage) (db : DbId) : Storage :=
  { s with trees := s.trees.insert (tableName db) (s.table db) }

/-- The storage with these values in the database. -/
def setTable (s : Storage) (db : DbId) (t : Tree) : Storage :=
  { s with trees := s.trees.insert (tableName db) t }

/-! ## Slots -/

/-- All that is stored about a key. -/
def slot (s : Storage) (db : DbId) (key : Bytes) : Slot :=
  ⟨(s.table db).get? key, s.deadlines.get? (Deadline.tag db key)⟩

/-- The storage with this slot for a key. -/
def setSlot (s : Storage) (db : DbId) (key : Bytes) (t : Slot) : Storage :=
  { s.setTable db ((s.table db).set key t.value) with
    deadlines := s.deadlines.set (Deadline.tag db key) t.deadline }

theorem tree_setTable (s : Storage) (db : DbId) (t : Tree) (name : Bytes) :
    (s.setTable db t).tree name = if tableName db = name then t else s.tree name := by
  simp only [tree, setTable, OrderedMap.get?_insert]
  split <;> rfl

theorem table_setTable (s : Storage) (db db' : DbId) (t : Tree) :
    (s.setTable db t).table db' = if db = db' then t else s.table db' := by
  rw [table, tree_setTable]
  by_cases h : db = db'
  · simp [h]
  · rw [if_neg fun h' => h (tableName_injective h'), if_neg h, table]

@[simp] theorem slot_setSlot_self (s : Storage) (db : DbId) (key : Bytes) (t : Slot) :
    (s.setSlot db key t).slot db key = t := by
  have h : (s.setSlot db key t).table db = (s.table db).set key t.value :=
    (table_setTable s db db _).trans (if_pos rfl)
  have hd : (s.setSlot db key t).deadlines = s.deadlines.set (Deadline.tag db key) t.deadline := rfl
  simp [slot, h, hd, OrderedMap.get?_set]

/-- A change to one key leaves every other one alone. -/
theorem slot_setSlot_of_ne {s : Storage} {db db' : DbId} {key key' : Bytes} (t : Slot)
    (h : (db, key) ≠ (db', key')) : (s.setSlot db key t).slot db' key' = s.slot db' key' := by
  have htag : Deadline.tag db key ≠ Deadline.tag db' key' := fun he =>
    h (by rw [(Deadline.tag_injective he).1, (Deadline.tag_injective he).2])
  have htable : ((s.setSlot db key t).table db').get? key' = (s.table db').get? key' := by
    rw [show (s.setSlot db key t).table db' = _ from table_setTable s db db' _]
    split
    · rename_i hdb
      subst hdb
      rw [OrderedMap.get?_set, if_neg fun he => h (by rw [he])]
    · rfl
  have hd : (s.setSlot db key t).deadlines = s.deadlines.set (Deadline.tag db key) t.deadline := rfl
  simp [slot, htable, hd, OrderedMap.get?_set, htag]

theorem tree_addTable (s : Storage) (db : DbId) (name : Bytes) :
    (s.addTable db).tree name = s.tree name := by
  rw [show s.addTable db = s.setTable db (s.table db) from rfl, tree_setTable]
  split
  · rename_i h
    rw [table, h]
  · rfl

/-- Making a tree for a database changes nothing about any key. -/
@[simp] theorem slot_addTable (s : Storage) (db db' : DbId) (key : Bytes) :
    (s.addTable db).slot db' key = s.slot db' key := by
  rw [slot, table, tree_addTable]
  rfl

/-! ## Several keys -/

/-- Removes keys one after the other; the number is that of the keys that were there. -/
def purgeAll (s : Storage) (now : Nat) (db : DbId) : List Bytes → Nat × Storage
  | [] => (0, s)
  | key :: keys =>
    let (wasThere, t) := (s.slot db key).purge now
    let (n, s) := (s.setSlot db key t).purgeAll now db keys
    (if wasThere then n + 1 else n, s)

/-- Removes the deadlines with these tags, and then the keys of a database, each with its deadline.
-/
def removeAll (s : Storage) (db : DbId) (tags keys : List Bytes) : Storage :=
  keys.foldl (fun s key => s.setSlot db key .empty)
    { s with deadlines := s.deadlines.eraseAll tags }

/-! ## Records -/

/-- One record put straight into a tree, or taken out of it; the tree is made if need be. -/
structure RawWrite where
  tree : Bytes
  key : Bytes
  value : Option Bytes
  deriving DecidableEq, Repr

/-- The storage after a record was put or taken out. -/
def rawWrite (s : Storage) (w : RawWrite) : Storage :=
  if w.tree = deadlinesName then { s with deadlines := s.deadlines.set w.key w.value }
  else { s with trees := s.trees.insert w.tree ((s.tree w.tree).set w.key w.value) }

/-- Every tree with its name and its records. -/
def contents (s : Storage) : List (Bytes × List (Bytes × Bytes)) :=
  (deadlinesName, s.deadlines.entries) :: s.trees.entries.map fun (name, t) => (name, t.entries)

end Storage

end Keyspace
