import Keyspace.Proofs.Store.Requests
import Keyspace.Store.Opening

/-!
# What a command on one key reads and changes

A command that `Concerns` one key reads nothing but the slot of that key, and changes nothing else:
`concerns_local` says so of any two stores that agree on the slot, and draws the consequence that
commands about different keys may change places. Both rest on the tags of the deadlines, which all
databases keep in one tree: different keys never share one (`Deadline.tag_injective`).

`Storage.SameBut` holds between two storages that differ at most in one slot. A transaction on the
slot of a key, which every such command is (`del_singleton`), leaves such a storage
(`sameBut_runOnKey`), and in two stores with this slot it does the same (`runOnKey_related`).
-/

namespace Keyspace

namespace Storage

/-- The storages hold the same about one key. -/
abbrev SameSlot (db : DbId) (key : Bytes) (s t : Storage) : Prop := s.slot db key = t.slot db key

/-- The storages differ at most in the slot of one key. -/
structure SameBut (db : DbId) (key : Bytes) (s t : Storage) : Prop where
  slot : ∀ db' key', (db', key') ≠ (db, key) → t.slot db' key' = s.slot db' key'
  stray : ∀ tag, Deadline.untag tag = none → t.deadlines.get? tag = s.deadlines.get? tag
  tree : ∀ name, (∀ db', tableName db' ≠ name) → t.tree name = s.tree name

namespace SameBut

variable {db : DbId} {key : Bytes} {s t u : Storage}

theorem refl (db : DbId) (key : Bytes) (s : Storage) : SameBut db key s s :=
  ⟨fun _ _ _ => rfl, fun _ _ => rfl, fun _ _ => rfl⟩

theorem trans (h : SameBut db key s t) (h' : SameBut db key t u) : SameBut db key s u where
  slot db' key' hne := (h'.slot db' key' hne).trans (h.slot db' key' hne)
  stray tag ht := (h'.stray tag ht).trans (h.stray tag ht)
  tree name hn := (h'.tree name hn).trans (h.tree name hn)

theorem addTable (db' : DbId) (key : Bytes) (s : Storage) : SameBut db key s (s.addTable db') where
  slot _ _ _ := slot_addTable s db' _ _
  stray _ _ := rfl
  tree name _ := tree_addTable s db' name

theorem setSlot (db : DbId) (key : Bytes) (s : Storage) (t : Slot) :
    SameBut db key s (s.setSlot db key t) where
  slot db' key' hne := slot_setSlot_of_ne t fun h => hne h.symm
  stray tag ht := by
    have hd : (s.setSlot db key t).deadlines = s.deadlines.set (Deadline.tag db key) t.deadline :=
      rfl
    rw [hd, OrderedMap.get?_set, if_neg (Deadline.tag_ne_of_untag ht db key)]
  tree name hn := (frame_setSlot s db.toNat_lt key t).tree fun db' _ => hn db'

end SameBut

end Storage

/-- The command is about one key and no other. -/
inductive Command.Concerns (key : Bytes) : Command → Prop
  | onKey (k : KeyCommand) : Concerns key (.onKey key k)
  | del : Concerns key (.del [key])

namespace Store

open Storage (SameSlot SameBut SameRecords)

variable {c : Call} {key : Bytes} {command : Command} {s t : Store}

/-! ## Transactions on a slot -/

theorem runOnKey_related {α : Type} (h : s.Related (SameSlot c.db key) t)
    (body : Slot → Except Error (α × Slot)) :
    (s.runOnKey c key body).Related Eq (SameSlot c.db key) (t.runOnKey c key body) := by
  refine run_related h ?_ ?_
  · rw [SameSlot, Storage.slot_addTable, Storage.slot_addTable]
    exact h.storage
  · rw [Storage.slot_addTable, Storage.slot_addTable, h.storage]
    cases body (t.storage.slot c.db key) with
    | error e => exact .error e
    | ok p =>
      refine .ok ⟨rfl, ?_⟩
      rw [SameSlot, Storage.slot_setSlot_self, Storage.slot_setSlot_self]

theorem sameBut_runOnKey {α : Type} (s : Store) (c : Call) (key : Bytes)
    (body : Slot → Except Error (α × Slot)) :
    SameBut c.db key s.storage (s.runOnKey c key body).store.storage := by
  unfold runOnKey
  generalize ho : s.run c _ = o
  have h : Ran s c _ o := ho ▸ ran_run s c _
  cases h with
  | refused h => exact .refl _ _ _
  | failed h => exact .addTable _ _ _
  | done h hbody =>
    obtain ⟨p, -, he⟩ := map_eq_ok_iff.1 hbody
    cases he
    exact (SameBut.addTable _ _ _).trans (.setSlot _ _ _ _)

/-- To remove one key is a transaction on its slot. -/
theorem del_singleton (s : Store) (c : Call) (hkey : isKey key = true) :
    s.del c [key] = s.runOnKey c key fun t =>
      .ok (if (t.purge c.clock.seconds).1 then 1 else 0, (t.purge c.clock.seconds).2) := by
  simp only [del, List.filter_cons_of_pos hkey, List.filter_nil]
  rfl

theorem del_singleton_of_not_isKey (s : Store) (c : Call) (hkey : isKey key = false) :
    s.del c [key] = ⟨.ok 0, s, .none⟩ := by
  simp [del, hkey]

/-! ## Commands about one key -/

theorem perform_related (hk : command.Concerns key) (h : s.Related (SameSlot c.db key) t) :
    (s.perform c command).Related Eq (SameSlot c.db key) (t.perform c command) := by
  cases hk with
  | onKey k =>
    simp only [perform, performOnKey]
    split
    · exact ⟨.self _, h, rfl⟩
    · split
      · exact ⟨.self _, h, rfl⟩
      · exact (runOnKey_related h _).andThen fun r r' hr => hr ▸ .self _
  | del =>
    simp only [perform]
    refine Outcome.Related.andThen (R := Eq) ?_ fun n n' hn => hn ▸ .self _
    cases hkey : isKey key with
    | true =>
      rw [del_singleton s c hkey, del_singleton t c hkey]
      exact runOnKey_related h _
    | false =>
      rw [del_singleton_of_not_isKey s c hkey, del_singleton_of_not_isKey t c hkey]
      exact ⟨.self _, h, rfl⟩

theorem sameBut_perform (hk : command.Concerns key) (s : Store) (c : Call) :
    SameBut c.db key s.storage (s.perform c command).store.storage := by
  cases hk with
  | onKey k =>
    simp only [perform, performOnKey]
    split
    · exact .refl _ _ _
    · split
      · exact .refl _ _ _
      · exact sameBut_runOnKey s c key _
  | del =>
    simp only [perform]
    cases hkey : isKey key with
    | true =>
      rw [del_singleton s c hkey]
      exact sameBut_runOnKey s c key _
    | false =>
      rw [del_singleton_of_not_isKey s c hkey]
      exact .refl _ _ _

/-- After a command about another key the store is the same to a command about this one. -/
theorem related_perform {c' : Call} {key' : Bytes} (hk : command.Concerns key)
    (hne : (c'.db, key') ≠ (c.db, key)) :
    (s.perform c command).store.Related (SameSlot c'.db key') s where
  isClosed := (performs_perform s c command).isClosed (by rintro rfl; cases hk)
  maxDatabases := by rw [perform_config]
  storage := (sameBut_perform hk s c).slot _ _ hne

/-- **A command about one key stays with it.** On stores that agree on the slot of the key, it
answers the same and leaves the same slot, and it leaves the slot of every other key alone. So it
may change places with a command about another key: both answer the same in either order, and the
same records are stored after both. -/
theorem concerns_local (hk : command.Concerns key) :
    (∀ s t : Store, s.config = t.config → s.isClosed = t.isClosed →
      s.storage.slot c.db key = t.storage.slot c.db key →
        (s.perform c command).answer = (t.perform c command).answer ∧
          (s.perform c command).store.storage.slot c.db key =
            (t.perform c command).store.storage.slot c.db key) ∧
    (∀ (s : Store) db' key', (db', key') ≠ (c.db, key) →
      (s.perform c command).store.storage.slot db' key' = s.storage.slot db' key') ∧
    ∀ (s : Store) c' key' (command' : Command), command'.Concerns key' →
      (c'.db, key') ≠ (c.db, key) →
        ((s.perform c' command').store.perform c command).answer = (s.perform c command).answer ∧
        ((s.perform c command).store.perform c' command').answer =
          (s.perform c' command').answer ∧
        SameRecords ((s.perform c command).store.perform c' command').store.storage
          ((s.perform c' command').store.perform c command).store.storage := by
  refine ⟨fun s t hconfig hclosed hslot => ?_, fun s db' key' => (sameBut_perform hk s c).slot _ _,
    fun s c' key' command' hk' hne => ?_⟩
  · have h := perform_related hk ⟨hclosed, congrArg Config.maxDatabases hconfig, hslot⟩
    exact ⟨h.answer.eq, h.store.storage⟩
  · -- each command finds the slot of its key as it is without the other one
    have h₁ := perform_related (s := (s.perform c' command').store) hk
      (related_perform hk' hne.symm)
    have h₂ := perform_related (s := (s.perform c command).store) hk' (related_perform hk hne)
    have hs₁ := sameBut_perform hk s c
    have hs₂ := sameBut_perform hk' s c'
    have hs₁₂ := sameBut_perform hk' (s.perform c command).store c'
    have hs₂₁ := sameBut_perform hk (s.perform c' command').store c
    refine ⟨h₁.answer.eq, h₂.answer.eq, Storage.sameRecords_of_slots (fun db₀ key₀ => ?_)
      (fun tag ht => ?_) fun name hn => ?_⟩
    · by_cases he : (db₀, key₀) = (c.db, key)
      · obtain ⟨rfl, rfl⟩ := Prod.mk.inj he
        rw [hs₁₂.slot _ _ hne.symm]
        exact h₁.store.storage.symm
      · by_cases he' : (db₀, key₀) = (c'.db, key')
        · obtain ⟨rfl, rfl⟩ := Prod.mk.inj he'
          rw [hs₂₁.slot _ _ hne]
          exact h₂.store.storage
        · rw [hs₁₂.slot _ _ he', hs₁.slot _ _ he, hs₂₁.slot _ _ he, hs₂.slot _ _ he']
    · rw [hs₁₂.stray tag ht, hs₁.stray tag ht, hs₂₁.stray tag ht, hs₂.stray tag ht]
    · rw [hs₁₂.tree name hn, hs₁.tree name hn, hs₂₁.tree name hn, hs₂.tree name hn]

/-- A key that begins like a tag of another database, in two stores of which one holds more. -/
theorem concerns_local_prefix :
    let key : Bytes := [0, 0, 0, 1, 107]
    let s : Store := .fresh {} (Storage.empty.setSlot 0 key ⟨some [49], none⟩)
    let t : Store := .fresh {} (s.storage.setSlot 1 [107] ⟨some [50], some [0]⟩)
    let c : Call := .alone 0 ⟨1000, 0⟩ .none
    let c' : Call := .alone 1 ⟨1000, 0⟩ .none
    let incr : Command := .onKey key (.change .incr)
    (s.perform c incr).answer = (t.perform c incr).answer ∧
      (t.perform c incr).store.storage.slot 1 [107] = t.storage.slot 1 [107] ∧
      SameRecords ((t.perform c incr).store.perform c' (.del [[107]])).store.storage
        ((t.perform c' (.del [[107]])).store.perform c incr).store.storage := by
  intro key s t c c' incr
  have hslot : s.storage.slot c.db key = t.storage.slot c.db key := by decide
  have hincr : incr.Concerns key := .onKey _
  obtain ⟨htwo, hother, hswap⟩ := concerns_local (c := c) hincr
  exact ⟨(htwo s t rfl rfl hslot).1, hother t 1 [107] (by decide),
    (hswap t c' [107] _ .del (by decide)).2.2⟩

end Store

end Keyspace
