import Keyspace.Proofs.Store.Requests

/-!
# Stores that look alike

Two storages are `Alike` at a moment if the live slot of every key is the same in both: they differ
in what has expired and is still there. No command tells them apart. `perform_alike` says of two
stores whose storages are alike that a command takes the same time on both, answers the same, and
leaves them alike. Only the commands that count records (`Command.isCount`) count those that have
expired, and answer different numbers.

A deadline that cannot be read makes commands fail, so the slots that a command looks at must have
none.
-/

namespace Keyspace

theorem KeyCommand.run_agree {s t : Slot} {clock : Clock} (hs : s.isMalformed = false)
    (ht : t.isMalformed = false) (h : s.live clock.seconds = t.live clock.seconds) (key : Bytes)
    (k : KeyCommand) :
    Agree (fun p q => p.1 = q.1 ∧ p.2.live clock.seconds = q.2.live clock.seconds)
      (k.run key clock s) (k.run key clock t) := by
  have hrun := run_live hs key clock k
  rw [h, run_live ht key clock k] at hrun
  exact (Agree.of_map_eq hrun.symm).mono fun p q hpq => Prod.mk.inj hpq

/-- The purge of a key tells whether the key is there at `now`. -/
theorem Slot.purge_eq (s : Slot) (now : Nat) :
    s.purge now = ((s.live now).value.isSome, .empty) := by
  cases h : s.isExpired now with
  | true => simp [purge, h, live_of_isExpired h, empty]
  | false => simp [purge, h, live_of_not_isExpired h]

/-! ## Alike storages -/

namespace Storage

/-- The storages hold the same keys at `now`, and the same in trees that are no table. -/
structure Alike (now : Nat) (s t : Storage) : Prop where
  slot : ∀ db key, (s.slot db key).live now = (t.slot db key).live now
  tree : ∀ name, (∀ db, tableName db ≠ name) → s.tree name = t.tree name

namespace Alike

variable {now : Nat} {s t : Storage}

theorem refl (now : Nat) (s : Storage) : Alike now s s := ⟨fun _ _ => rfl, fun _ _ => rfl⟩

/-- What is alike stays alike as time passes. -/
theorem mono {later : Nat} (hle : now ≤ later) (h : Alike now s t) : Alike later s t where
  slot db key := by rw [← Slot.live_live hle, h.slot, Slot.live_live hle]
  tree := h.tree

/-- Operations on tables keep storages alike if they do so for all slots. -/
theorem frame {m n : Nat} {s' t' : Storage} (h : Alike now s t) (hs : Frame m s s')
    (ht : Frame n t t')
    (hslot : ∀ db key, (s'.slot db key).live now = (t'.slot db key).live now) :
    Alike now s' t' where
  slot := hslot
  tree name hn := by rw [hs.tree fun db _ => hn db, ht.tree fun db _ => hn db, h.tree name hn]

theorem addTable (h : Alike now s t) (db : DbId) : Alike now (s.addTable db) (t.addTable db) := by
  have hdb := Nat.lt_succ_self db.toNat
  apply h.frame (frame_addTable s hdb) (frame_addTable t hdb)
  intro db' key
  rw [slot_addTable, slot_addTable]
  exact h.slot db' key

theorem setSlot {u v : Slot} (h : Alike now s t) (db : DbId) (key : Bytes)
    (huv : u.live now = v.live now) : Alike now (s.setSlot db key u) (t.setSlot db key v) := by
  have hdb := Nat.lt_succ_self db.toNat
  apply h.frame (frame_setSlot s hdb key u) (frame_setSlot t hdb key v)
  intro db' key'
  rw [slot_setSlot, slot_setSlot]
  split
  · exact huv
  · exact h.slot db' key'

theorem clear (h : Alike now s t) (db : DbId) : Alike now (s.clear db) (t.clear db) := by
  have hdb := Nat.lt_succ_self db.toNat
  apply h.frame (frame_clear s hdb) (frame_clear t hdb)
  intro db' key
  rw [slot_clear, slot_clear]
  split
  · rfl
  · exact h.slot db' key

theorem purgeAll (h : Alike now s t) (db : DbId) (keys : List Bytes) :
    (s.purgeAll now db keys).1 = (t.purgeAll now db keys).1 ∧
      Alike now (s.purgeAll now db keys).2 (t.purgeAll now db keys).2 := by
  induction keys generalizing s t with
  | nil => exact ⟨rfl, h⟩
  | cons key keys ih =>
    obtain ⟨hn, hst⟩ := ih (h.setSlot db key (u := .empty) (v := .empty) rfl)
    simp only [Storage.purgeAll, Slot.purge_eq, h.slot, hn]
    exact ⟨trivial, hst⟩

end Alike

end Storage

/-! ## Alike stores -/

/-- The stores have the same databases, are open or closed alike and hold the same keys. -/
structure Store.Alike (now : Nat) (a b : Store) : Prop where
  isClosed : a.isClosed = b.isClosed
  maxDatabases : a.config.maxDatabases = b.config.maxDatabases
  storage : Storage.Alike now a.storage b.storage

/-- The outcomes take the same time, answer alike and leave alike stores. -/
structure Outcome.Alike {α β : Type} (now : Nat) (R : α → β → Prop) (o : Outcome α)
    (p : Outcome β) : Prop where
  answer : Agree R o.answer p.answer
  store : o.store.Alike now p.store
  passed : o.passed = p.passed

theorem Outcome.Alike.andThen {α β γ δ : Type} {now : Nat} {R : α → β → Prop} {S : γ → δ → Prop}
    {o : Outcome α} {p : Outcome β} {f : α → Except Error γ} {g : β → Except Error δ}
    (h : o.Alike now R p) (hfg : ∀ a b, R a b → Agree S (f a) (g b)) :
    (o.andThen f).Alike now S (p.andThen g) where
  answer := h.answer.bind hfg
  store := h.store
  passed := h.passed

/-- The command counts records, and those that have expired with them. -/
def Command.isCount : Command → Bool
  | .flushAll | .dbSize => true
  | _ => false

namespace Store

variable {now : Nat} {a b : Store}

namespace Alike

theorem refusal (h : a.Alike now b) (c : Call) : a.refusal c = b.refusal c := by
  rw [Store.refusal, Store.refusal, h.isClosed, h.maxDatabases]

theorem mono {later : Nat} (hle : now ≤ later) (h : a.Alike now b) : a.Alike later b :=
  ⟨h.isClosed, h.maxDatabases, h.storage.mono hle⟩

theorem ready (h : a.Alike now b) (db : DbId) : (a.ready db).Alike now (b.ready db) :=
  ⟨h.isClosed, h.maxDatabases, h.storage.addTable db⟩

theorem close (h : a.Alike now b) : a.close.Alike now b.close :=
  ⟨rfl, h.maxDatabases, h.storage⟩

end Alike

/-- Transactions whose bodies agree have outcomes that agree. -/
theorem run_alike {α β : Type} {R : α → β → Prop} (h : a.Alike now b) (c : Call)
    {f : Storage → Except Error (α × Storage)} {g : Storage → Except Error (β × Storage)}
    (hfg : Agree (fun p q => R p.1 q.1 ∧ Storage.Alike now p.2 q.2)
      (f (a.ready c.db).storage) (g (b.ready c.db).storage)) :
    (a.run c f).Alike now R (b.run c g) := by
  have hrun := run_related ⟨h.isClosed, h.maxDatabases, h.storage⟩ (h.storage.addTable c.db) hfg
  exact ⟨hrun.answer, ⟨hrun.store.isClosed, hrun.store.maxDatabases, hrun.store.storage⟩,
    hrun.passed⟩

theorem performOnKey_alike {c : Call} {key : Bytes} (h : a.Alike c.clock.seconds b)
    (ha : (a.storage.slot c.db key).isMalformed = false)
    (hb : (b.storage.slot c.db key).isMalformed = false) (k : KeyCommand) :
    (a.performOnKey c key k).Alike c.clock.seconds Eq (b.performOnKey c key k) := by
  unfold performOnKey
  split
  · exact ⟨.self _, h, rfl⟩
  · split
    · exact ⟨.self _, h, rfl⟩
    · refine Outcome.Alike.andThen (R := Eq) (run_alike h c ?_) fun r r' hr => hr ▸ .self _
      simp only [ready_storage, Storage.slot_addTable]
      apply (KeyCommand.run_agree ha hb (h.storage.slot c.db key) key k).bind
      intro p q hpq
      exact .ok ⟨hpq.1, (h.storage.addTable c.db).setSlot c.db key hpq.2⟩

theorem del_alike {c : Call} (h : a.Alike c.clock.seconds b) (keys : List Bytes) :
    (a.del c keys).Alike c.clock.seconds Eq (b.del c keys) := by
  unfold del
  dsimp only
  split
  · exact ⟨.ok rfl, h, rfl⟩
  · exact run_alike h c (.ok ((h.storage.addTable c.db).purgeAll c.db _))

theorem flushAll_alike (h : a.Alike now b) (c : Call) :
    (a.flushAll c).Alike now (fun _ _ => True) (b.flushAll c) := by
  rw [flushAll_eq, flushAll_eq]
  exact run_alike h c (.ok ⟨trivial, (h.storage.addTable c.db).clear c.db⟩)

theorem dbSize_alike (h : a.Alike now b) (c : Call) :
    (a.dbSize c).Alike now (fun _ _ => True) (b.dbSize c) := by
  have hgate := h.refusal c
  unfold dbSize
  rw [enter_eq, enter_eq, hgate]
  cases b.refusal c with
  | some e => exact ⟨.error e, h, rfl⟩
  | none => exact ⟨.ok trivial, h.ready c.db, rfl⟩

/-- **Commands do not tell alike stores apart**, if they find no deadline that cannot be read. -/
theorem perform_alike {c : Call} (h : a.Alike c.clock.seconds b)
    (ha : ∀ key, (a.storage.slot c.db key).isMalformed = false)
    (hb : ∀ key, (b.storage.slot c.db key).isMalformed = false) (command : Command) :
    (a.perform c command).Alike c.clock.seconds (fun r r' => command.isCount = false → r = r')
      (b.perform c command) := by
  cases command with
  | onKey key k =>
    have hk := performOnKey_alike h (ha key) (hb key) k
    exact ⟨hk.answer.mono fun _ _ hr _ => hr, hk.store, hk.passed⟩
  | del keys => exact (del_alike h keys).andThen fun n n' hn => .ok fun _ => by rw [hn]
  | flushAll => exact (flushAll_alike h c).andThen fun n n' _ => .ok nofun
  | dbSize => exact (dbSize_alike h c).andThen fun n n' _ => .ok nofun
  | close => exact ⟨.ok fun _ => rfl, h.close, rfl⟩

end Store

end Keyspace
