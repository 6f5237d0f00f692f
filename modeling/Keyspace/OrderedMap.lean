import Keyspace.Bytes

/-!
# Maps ordered by their byte keys

A map is its list of entries, in strictly increasing order of the keys, so a scan of the map is
the list itself and two maps with the same look-ups are equal (`ext`). `get?_insert`, `get?_erase`,
`get?_eraseAll`, `get?_set` and `get?_filterKeys` say what each operation does to look-ups;
`mem_entries_iff` ties the scan to them.
-/

namespace Keyspace

/-- A map from byte strings to `α`, its entries in increasing order of their keys. -/
structure OrderedMap (α : Type) where
  entries : List (Bytes × α)
  sorted : entries.Pairwise fun a b => a.1 < b.1 := by exact .nil
  deriving DecidableEq, Repr

namespace OrderedMap

variable {α : Type}

/-- The map without entries. -/
def empty : OrderedMap α := { entries := [] }

instance : Inhabited (OrderedMap α) := ⟨empty⟩

/-- The number of entries. -/
def size (m : OrderedMap α) : Nat := m.entries.length

/-- The keys in increasing order. -/
def keys (m : OrderedMap α) : List Bytes := m.entries.map (·.1)

/-- The keys that begin with some bytes, in increasing order. -/
def keysFrom (m : OrderedMap α) (start : Bytes) : List Bytes := m.keys.filter start.isPrefixOf

/-! ## Look-up -/

/-- The value of the first entry with this key. -/
def lookup (k : Bytes) : List (Bytes × α) → Option α
  | [] => none
  | e :: l => if e.1 = k then some e.2 else lookup k l

/-- The value under a key. -/
def get? (m : OrderedMap α) (k : Bytes) : Option α := lookup k m.entries

@[simp] theorem get?_empty (k : Bytes) : (empty : OrderedMap α).get? k = none := rfl

theorem lookup_eq_some_iff {k : Bytes} {v : α} {l : List (Bytes × α)}
    (hl : l.Pairwise fun a b => a.1 < b.1) : lookup k l = some v ↔ (k, v) ∈ l := by
  induction l with
  | nil => simp [lookup]
  | cons e l ih =>
    obtain ⟨he, hl⟩ := List.pairwise_cons.1 hl
    by_cases h : e.1 = k
    · subst h
      simp only [lookup, ↓reduceIte, Option.some.injEq, List.mem_cons]
      constructor
      · rintro rfl; exact .inl rfl
      · rintro (h | h)
        · rw [← h]
        · exact absurd (he _ h) (List.lt_irrefl _)
    · simp only [lookup, h, ↓reduceIte, ih hl, List.mem_cons]
      exact ⟨.inr, fun h' => h'.resolve_left fun h'' => h (by rw [← h''])⟩

theorem mem_entries_iff {m : OrderedMap α} {k : Bytes} {v : α} :
    (k, v) ∈ m.entries ↔ m.get? k = some v :=
  (lookup_eq_some_iff m.sorted).symm

/-- Increasing lists of entries with the same look-ups are the same list. -/
theorem entries_ext : ∀ {l l' : List (Bytes × α)}, (l.Pairwise fun a b => a.1 < b.1) →
    (l'.Pairwise fun a b => a.1 < b.1) → (∀ e, e ∈ l ↔ e ∈ l') → l = l'
  | [], [], _, _, _ => rfl
  | [], e :: l', _, _, h => absurd ((h e).2 (by simp)) (by simp)
  | e :: l, [], _, _, h => absurd ((h e).1 (by simp)) (by simp)
  | e :: l, e' :: l', hl, hl', h => by
    obtain ⟨he, ht⟩ := List.pairwise_cons.1 hl
    obtain ⟨he', ht'⟩ := List.pairwise_cons.1 hl'
    have heq : e = e' := by
      rcases List.mem_cons.1 ((h e).1 (by simp)) with h₁ | h₁
      · exact h₁
      · rcases List.mem_cons.1 ((h e').2 (by simp)) with h₂ | h₂
        · exact h₂.symm
        · exact absurd (List.lt_trans (he _ h₂) (he' _ h₁)) (List.lt_irrefl _)
    subst heq
    congr 1
    refine entries_ext ht ht' fun x => ?_
    have hx := h x
    simp only [List.mem_cons] at hx
    constructor
    · intro hm
      rcases hx.1 (.inr hm) with rfl | h'
      · exact absurd (he _ hm) (List.lt_irrefl _)
      · exact h'
    · intro hm
      rcases hx.2 (.inr hm) with rfl | h'
      · exact absurd (he' _ hm) (List.lt_irrefl _)
      · exact h'

@[ext] theorem ext {m m' : OrderedMap α} (h : ∀ k, m.get? k = m'.get? k) : m = m' := by
  have : m.entries = m'.entries :=
    entries_ext m.sorted m'.sorted fun (k, v) => by
      rw [mem_entries_iff, mem_entries_iff, h]
  cases m; cases m'; simp_all

/-! ## Change -/

/-- The entries with the value under `k` replaced, or a new entry in its place in the order. -/
def insertEntry (k : Bytes) (v : α) : List (Bytes × α) → List (Bytes × α)
  | [] => [(k, v)]
  | e :: l =>
    if k < e.1 then (k, v) :: e :: l
    else if e.1 = k then (k, v) :: l
    else e :: insertEntry k v l

theorem fst_mem_insertEntry {k : Bytes} {v : α} {l : List (Bytes × α)} {e : Bytes × α}
    (h : e ∈ insertEntry k v l) : e.1 = k ∨ e ∈ l := by
  induction l with
  | nil => simp only [insertEntry, List.mem_singleton] at h; exact .inl (by rw [h])
  | cons x l ih =>
    simp only [insertEntry] at h
    split at h
    · rcases List.mem_cons.1 h with rfl | h
      · exact .inl rfl
      · exact .inr h
    · split at h
      · rcases List.mem_cons.1 h with rfl | h
        · exact .inl rfl
        · exact .inr (List.mem_cons_of_mem _ h)
      · rcases List.mem_cons.1 h with rfl | h
        · exact .inr (by simp)
        · exact (ih h).imp_right (List.mem_cons_of_mem _)

theorem pairwise_insertEntry {k : Bytes} {v : α} {l : List (Bytes × α)}
    (hl : l.Pairwise fun a b => a.1 < b.1) :
    (insertEntry k v l).Pairwise fun a b => a.1 < b.1 := by
  induction l with
  | nil => simp [insertEntry]
  | cons x l ih =>
    obtain ⟨hx, hl⟩ := List.pairwise_cons.1 hl
    simp only [insertEntry]
    split
    · rename_i hk
      refine List.pairwise_cons.2 ⟨fun e he => ?_, List.pairwise_cons.2 ⟨hx, hl⟩⟩
      rcases List.mem_cons.1 he with rfl | he
      · exact hk
      · exact List.lt_trans hk (hx _ he)
    · split
      · rename_i hk
        subst hk
        exact List.pairwise_cons.2 ⟨hx, hl⟩
      · rename_i hlt hne
        refine List.pairwise_cons.2 ⟨fun e he => ?_, ih hl⟩
        rcases fst_mem_insertEntry he with h | h
        · rw [h]
          exact Std.lt_of_le_of_ne (List.not_lt.1 hlt) hne
        · exact hx _ h

theorem lookup_insertEntry (k k' : Bytes) (v : α) (l : List (Bytes × α)) :
    lookup k' (insertEntry k v l) = if k = k' then some v else lookup k' l := by
  induction l with
  | nil => simp [insertEntry, lookup]
  | cons x l ih =>
    simp only [insertEntry]
    split
    · simp [lookup]
    · split
      · rename_i hx
        by_cases hk : k = k' <;> simp [lookup, hx, hk]
      · rename_i hx
        by_cases hk : k = k'
        · subst hk; simp [lookup, hx, ih]
        · simp [lookup, hk, ih]

/-- The map with `v` under `k`. -/
def insert (m : OrderedMap α) (k : Bytes) (v : α) : OrderedMap α where
  entries := insertEntry k v m.entries
  sorted := pairwise_insertEntry m.sorted

/-- The map without an entry for the keys that `p` refuses. -/
def filterKeys (p : Bytes → Bool) (m : OrderedMap α) : OrderedMap α where
  entries := m.entries.filter fun e => p e.1
  sorted := m.sorted.filter _

/-- The map without an entry for `k`. -/
def erase (m : OrderedMap α) (k : Bytes) : OrderedMap α := m.filterKeys (· ≠ k)

/-- The map after several keys were erased, one after the other. -/
def eraseAll (m : OrderedMap α) (ks : List Bytes) : OrderedMap α := ks.foldl erase m

/-- The map with `o` as the look-up of `k`. -/
def set (m : OrderedMap α) (k : Bytes) : Option α → OrderedMap α
  | none => m.erase k
  | some v => m.insert k v

theorem get?_insert (m : OrderedMap α) (k k' : Bytes) (v : α) :
    (m.insert k v).get? k' = if k = k' then some v else m.get? k' :=
  lookup_insertEntry k k' v m.entries

theorem get?_filterKeys (p : Bytes → Bool) (m : OrderedMap α) (k : Bytes) :
    (m.filterKeys p).get? k = if p k then m.get? k else none := by
  simp only [get?, filterKeys]
  induction m.entries with
  | nil => simp [lookup]
  | cons e l ih =>
    by_cases hp : p e.1 = true
    · by_cases he : e.1 = k
      · subst he; simp [lookup, hp]
      · simp [lookup, hp, he, ih]
    · by_cases he : e.1 = k
      · subst he; simp [hp, ih]
      · simp [lookup, hp, he, ih]

theorem get?_erase (m : OrderedMap α) (k k' : Bytes) :
    (m.erase k).get? k' = if k = k' then none else m.get? k' := by
  rw [erase, get?_filterKeys]
  by_cases h : k = k' <;> simp [h, eq_comm]

theorem get?_eraseAll (m : OrderedMap α) (ks : List Bytes) (k : Bytes) :
    (m.eraseAll ks).get? k = if k ∈ ks then none else m.get? k := by
  induction ks generalizing m with
  | nil => rfl
  | cons k' ks ih =>
    rw [eraseAll, List.foldl_cons]
    refine (ih (m.erase k')).trans ?_
    rw [get?_erase]
    by_cases h : k = k' <;> by_cases hks : k ∈ ks <;> simp [h, hks, eq_comm]

theorem get?_set (m : OrderedMap α) (k k' : Bytes) (o : Option α) :
    (m.set k o).get? k' = if k = k' then o else m.get? k' := by
  cases o with
  | none => exact get?_erase m k k'
  | some v => exact get?_insert m k k' v

@[simp] theorem set_get? (m : OrderedMap α) (k : Bytes) : m.set k (m.get? k) = m := by
  ext k' : 1
  rw [get?_set]
  split
  · rename_i h; rw [h]
  · rfl

end OrderedMap

end Keyspace
