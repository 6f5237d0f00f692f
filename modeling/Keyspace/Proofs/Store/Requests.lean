import Keyspace.Proofs.Slot.Live
import Keyspace.Proofs.Storage.Slots
import Keyspace.Store

/-!
# What a request does to a store

`Store.refusal` is what the gates have against a call, and `Store.ready` what they do to a store
when they let the call through (`enter_eq`). A transaction is refused, fails or is done
(`Ran`, `ran_run`): only in the last case does its body change the records.

`Performs` lists what a command can do to a store, with its answer (`performs_perform`). What
follows for the records is stated once: `Performs.frame` says which trees can change,
`Performs.slot` what can happen to the slot of a key, and `Performs.forall_slot` when a property of
slots lasts. A command on a key that answers has run on the slot of the key, unless the answer needs
no look at it (`onKey_of_ok`, `answer_onKey`). Queries of a call that `Reaches` a key are answered
from its value (`Reaches.answer_query`).

`Outcome.Related` compares what comes of two requests. Transactions whose bodies are related by what
they read are related as a whole (`run_related`).
-/

namespace Keyspace

namespace Store

/-! ## Gates -/

/-- Why the gates do not let a call through, if they do not. -/
def refusal (s : Store) (c : Call) : Option Error :=
  if s.isClosed then some .closed
  else match c.interruption with
    | some e => some e
    | none =>
      if s.config.maxDatabases ≤ c.db.toNat then
        some (.invalidDatabase c.db.toNat s.config.maxDatabases)
      else none

/-- The store with the database resolved. -/
def ready (s : Store) (db : DbId) : Store :=
  { s with
    storage := s.storage.addTable db
    resolved := if db ∈ s.resolved then s.resolved else db :: s.resolved }

@[simp] theorem ready_storage (s : Store) (db : DbId) :
    (s.ready db).storage = s.storage.addTable db := rfl

theorem resolve_eq (s : Store) (db : DbId) :
    s.resolve db = if s.config.maxDatabases ≤ db.toNat then
      .error (.invalidDatabase db.toNat s.config.maxDatabases) else .ok (s.ready db) := rfl

theorem resolve_eq_ok {s t : Store} {db : DbId} (h : s.resolve db = .ok t) :
    db.toNat < s.config.maxDatabases ∧ t = s.ready db := resolve_eq_ok_iff.1 h

theorem enter_eq (s : Store) (c : Call) :
    s.enter c = match s.refusal c with
      | some e => .error e
      | none => .ok (s.ready c.db) := by
  unfold enter refusal
  rw [resolve_eq]
  cases s.isClosed with
  | true => rfl
  | false =>
    cases c.interruption with
    | some e => rfl
    | none =>
      by_cases h : s.config.maxDatabases ≤ c.db.toNat <;> simp [h]

theorem lt_of_refusal {s : Store} {c : Call} (h : s.refusal c = none) :
    c.db.toNat < s.config.maxDatabases := by
  unfold refusal at h
  split at h
  · cases h
  · split at h
    · cases h
    · split at h
      · cases h
      · omega

/-- A call of its own is let through where any call on the database is. -/
theorem refusal_alone {s : Store} {c : Call} (h : s.refusal c = none) (now : Clock)
    (i : Interludes) : s.refusal (.alone c.db now i) = none := by
  have halone : (Call.alone c.db now i).interruption = none := rfl
  have hrange := lt_of_refusal h
  unfold refusal at h ⊢
  split at h
  · cases h
  · rename_i hclosed
    rw [if_neg hclosed, halone]
    exact if_neg (Nat.not_le.2 hrange)

/-! ## Transactions -/

/-- What can come of a transaction. -/
inductive Ran {α : Type} (s : Store) (c : Call)
    (body : Storage → Except Error (α × Storage)) : Outcome α → Prop
  /-- The gates refuse the call. -/
  | refused {e : Error} (h : s.refusal c = some e) : Ran s c body ⟨.error e, s, .none⟩
  /-- The body fails, or the context is interrupted before it or by its end. -/
  | failed {e : Error} {passed : Interlude} (h : s.refusal c = none) :
      Ran s c body ⟨.error e, s.ready c.db, passed⟩
  /-- The body succeeds in time. -/
  | done {a : α} {storage : Storage} (h : s.refusal c = none)
      (hbody : body (s.ready c.db).storage = .ok (a, storage)) :
      Ran s c body ⟨.ok a, { s.ready c.db with storage }, c.interludes.total⟩

theorem run_of_refusal {α : Type} {s : Store} {c : Call} {e : Error}
    (h : s.refusal c = some e) (body : Storage → Except Error (α × Storage)) :
    s.run c body = ⟨.error e, s, .none⟩ := by
  rw [run, enter_eq, h]

theorem run_of_admitted {α : Type} {s : Store} {c : Call} (h : s.refusal c = none)
    (body : Storage → Except Error (α × Storage)) :
    s.run c body = (s.ready c.db).transact c body := by
  rw [run, enter_eq, h]

theorem ran_run {α : Type} (s : Store) (c : Call)
    (body : Storage → Except Error (α × Storage)) : Ran s c body (s.run c body) := by
  cases h : s.refusal c with
  | some e =>
    rw [run_of_refusal h]
    exact .refused h
  | none =>
    rw [run_of_admitted h, transact]
    split
    · exact .failed h
    · split
      · exact .failed h
      · rename_i hbody
        split
        · exact .failed h
        · exact .done h hbody

/-- A transaction depends on its body only where it is run. -/
theorem run_congr {α : Type} {s : Store} {c : Call}
    {f g : Storage → Except Error (α × Storage)}
    (h : f (s.ready c.db).storage = g (s.ready c.db).storage) : s.run c f = s.run c g := by
  cases hgate : s.refusal c with
  | some e => rw [run_of_refusal hgate, run_of_refusal hgate]
  | none => rw [run_of_admitted hgate, run_of_admitted hgate, transact, transact, h]

/-- What comes of a transaction that nothing interrupts and whose body succeeds. -/
theorem run_of_late {α : Type} {s : Store} {c : Call} {a : α} {storage : Storage}
    {body : Storage → Except Error (α × Storage)} (hgate : s.refusal c = none)
    (hlate : c.lateInterruption = none)
    (hbody : body (s.ready c.db).storage = .ok (a, storage)) :
    s.run c body = ⟨.ok a, { s.ready c.db with storage }, c.interludes.total⟩ := by
  simp only [run_of_admitted hgate, transact, Call.pendingInterruption_of_late hlate, hbody, hlate]

/-- A transaction is done just if it is let through, nothing interrupts it and its body succeeds. -/
theorem exists_ok_run_iff {α : Type} {s : Store} {c : Call}
    {body : Storage → Except Error (α × Storage)} :
    (∃ a, (s.run c body).answer = .ok a) ↔ s.refusal c = none ∧ c.lateInterruption = none ∧
      ∃ p, body (s.ready c.db).storage = .ok p := by
  constructor
  · rintro ⟨a, h⟩
    cases hgate : s.refusal c with
    | some e =>
      rw [run_of_refusal hgate] at h
      cases h
    | none =>
      rw [run_of_admitted hgate, transact] at h
      split at h
      · cases h
      · split at h
        · cases h
        · rename_i hbody
          split at h
          · cases h
          · rename_i hlate
            exact ⟨rfl, hlate, _, hbody⟩
  · rintro ⟨hgate, hlate, p, hbody⟩
    exact ⟨p.1, by rw [run_of_late hgate hlate hbody]⟩

end Store

/-- A number that is counted becomes the reply. -/
theorem Outcome.count_eq_ok_iff {o : Outcome Nat} {r : Reply} :
    (o.andThen fun n => .ok (.count n)).answer = .ok r ↔
      ∃ n, o.answer = .ok n ∧ r = .count n := by
  obtain ⟨answer, store, passed⟩ := o
  cases answer with
  | error e => exact ⟨nofun, nofun⟩
  | ok n => exact ⟨fun h => ⟨n, rfl, (Except.ok.inj h).symm⟩, fun ⟨_, rfl, h⟩ => h ▸ rfl⟩

namespace Store

/-! ## Two transactions side by side -/

/-- The stores have the same databases and are open or closed alike, and `S` relates what they
hold. -/
structure Related (S : Storage → Storage → Prop) (a b : Store) : Prop where
  isClosed : a.isClosed = b.isClosed
  maxDatabases : a.config.maxDatabases = b.config.maxDatabases
  storage : S a.storage b.storage

theorem Related.refusal {S : Storage → Storage → Prop} {a b : Store} (h : a.Related S b)
    (c : Call) : a.refusal c = b.refusal c := by
  rw [Store.refusal, Store.refusal, h.isClosed, h.maxDatabases]

end Store

/-- The same happens to the contexts, `R` relates the answers and `S` the records after them. -/
structure Outcome.Related {α β : Type} (R : α → β → Prop) (S : Storage → Storage → Prop)
    (o : Outcome α) (p : Outcome β) : Prop where
  answer : Agree R o.answer p.answer
  store : o.store.Related S p.store
  passed : o.passed = p.passed

theorem Outcome.Related.andThen {α β γ δ : Type} {R : α → β → Prop} {R' : γ → δ → Prop}
    {S : Storage → Storage → Prop} {o : Outcome α} {p : Outcome β} {f : α → Except Error γ}
    {g : β → Except Error δ} (h : o.Related R S p) (hfg : ∀ a b, R a b → Agree R' (f a) (g b)) :
    (o.andThen f).Related R' S (p.andThen g) where
  answer := h.answer.bind hfg
  store := h.store
  passed := h.passed

namespace Store

/-- Transactions are related if their bodies are. -/
theorem run_related {α β : Type} {R : α → β → Prop} {S : Storage → Storage → Prop} {a b : Store}
    {c : Call} (h : a.Related S b)
    (hready : S (a.storage.addTable c.db) (b.storage.addTable c.db))
    {f : Storage → Except Error (α × Storage)} {g : Storage → Except Error (β × Storage)}
    (hfg : Agree (fun p q => R p.1 q.1 ∧ S p.2 q.2)
      (f (a.storage.addTable c.db)) (g (b.storage.addTable c.db))) :
    (a.run c f).Related R S (b.run c g) := by
  have hgate := h.refusal c
  cases ha : a.refusal c with
  | some e =>
    rw [run_of_refusal ha, run_of_refusal (hgate ▸ ha)]
    exact ⟨.error e, h, rfl⟩
  | none =>
    rw [run_of_admitted ha, run_of_admitted (hgate ▸ ha), transact, transact, ready_storage,
      ready_storage]
    have hrelated : (a.ready c.db).Related S (b.ready c.db) := ⟨h.isClosed, h.maxDatabases, hready⟩
    cases c.pendingInterruption with
    | some e => exact ⟨.error e, hrelated, rfl⟩
    | none =>
      generalize f (a.storage.addTable c.db) = x at hfg ⊢
      generalize g (b.storage.addTable c.db) = y at hfg ⊢
      cases hfg with
      | error e => exact ⟨.error e, hrelated, rfl⟩
      | @ok p q hpq =>
        dsimp only
        cases c.lateInterruption with
        | some e => exact ⟨.error e, hrelated, rfl⟩
        | none => exact ⟨.ok hpq.1, ⟨h.isClosed, h.maxDatabases, hpq.2⟩, rfl⟩

/-! ## Commands -/

/-- What a command can do to a store, with its answer. -/
inductive Performs (s : Store) (c : Call) : Command → Except Error Reply → Store → Prop
  /-- Nothing is looked at: the arguments decide, or the gates refuse the call. -/
  | stays {command : Command} {answer : Except Error Reply} : Performs s c command answer s
  /-- No record is touched: the transaction fails, or only counts. -/
  | admits {command : Command} {answer : Except Error Reply} (h : s.refusal c = none) :
      Performs s c command answer (s.ready c.db)
  | onKey {key : Bytes} {k : KeyCommand} {r : Reply} {t : Slot} (h : s.refusal c = none)
      (hkey : checkKey key = .ok ())
      (hrun : k.run key c.clock (s.storage.slot c.db key) = .ok (r, t)) :
      Performs s c (.onKey key k) (k.finish r)
        { s.ready c.db with storage := (s.storage.addTable c.db).setSlot c.db key t }
  | del {keys : List Bytes} (h : s.refusal c = none) (n : Nat) :
      Performs s c (.del keys) (.ok (.count n))
        { s.ready c.db with
          storage := ((s.storage.addTable c.db).purgeAll c.clock.seconds c.db
            (keys.filter isKey)).2 }
  | flushAll (h : s.refusal c = none) (n : Nat) :
      Performs s c .flushAll (.ok (.count n))
        { s.ready c.db with storage := (s.storage.addTable c.db).clear c.db }
  | close : Performs s c .close (.ok .done) s.close

theorem performs_performOnKey (s : Store) (c : Call) (key : Bytes) (k : KeyCommand) :
    Performs s c (.onKey key k) (s.performOnKey c key k).answer (s.performOnKey c key k).store := by
  unfold performOnKey runOnKey
  split
  · exact .stays
  · rename_i hkey
    split
    · exact .stays
    · generalize ho : s.run c _ = o
      have h : Ran s c _ o := ho ▸ ran_run s c _
      cases h with
      | refused h => exact .stays
      | failed h => exact .admits h
      | done h hbody =>
        obtain ⟨⟨r, t⟩, hrun, he⟩ := map_eq_ok_iff.1 hbody
        cases he
        rw [ready_storage, Storage.slot_addTable] at hrun
        exact .onKey h hkey hrun

theorem performs_del (s : Store) (c : Call) (keys : List Bytes) :
    Performs s c (.del keys) ((s.del c keys).answer.bind fun n => .ok (.count n))
      (s.del c keys).store := by
  unfold del
  dsimp only
  split
  · exact .stays
  · generalize ho : s.run c _ = o
    have h : Ran s c _ o := ho ▸ ran_run s c _
    cases h with
    | refused h => exact .stays
    | failed h => exact .admits h
    | done h hbody =>
      obtain rfl := congrArg Prod.snd (Except.ok.inj hbody)
      exact .del h _

/-- What is found before the transaction is all that there is in it: a database is emptied by
clearing it. -/
theorem flushAll_eq (s : Store) (c : Call) :
    s.flushAll c =
      s.run c fun storage => .ok ((storage.table c.db).size, storage.clear c.db) := by
  unfold flushAll run
  rw [enter_eq]
  cases s.refusal c with
  | some e => rfl
  | none =>
    have htable : ((s.ready c.db).storage.trees.get? (tableName c.db)).isSome = true :=
      Storage.hasTable_setTable s.storage c.db _
    have hsize : ((s.ready c.db).storage.table c.db).keys.length =
        ((s.ready c.db).storage.table c.db).size := List.length_map _
    simp only [transact, Storage.removeAll_eq_clear htable, hsize]

theorem performs_flushAll (s : Store) (c : Call) :
    Performs s c .flushAll ((s.flushAll c).answer.bind fun n => .ok (.count n))
      (s.flushAll c).store := by
  rw [flushAll_eq]
  generalize ho : s.run c _ = o
  have h : Ran s c _ o := ho ▸ ran_run s c _
  cases h with
  | refused h => exact .stays
  | failed h => exact .admits h
  | done h hbody =>
    cases hbody
    exact .flushAll h _

theorem performs_dbSize (s : Store) (c : Call) :
    Performs s c .dbSize ((s.dbSize c).answer.bind fun n => .ok (.count n))
      (s.dbSize c).store := by
  unfold dbSize
  rw [enter_eq]
  cases h : s.refusal c with
  | some e => exact .stays
  | none => exact .admits h

/-- **What a command does to a store.** -/
theorem performs_perform (s : Store) (c : Call) (command : Command) :
    Performs s c command (s.perform c command).answer (s.perform c command).store := by
  cases command with
  | onKey key k => exact performs_performOnKey s c key k
  | del keys => exact performs_del s c keys
  | flushAll => exact performs_flushAll s c
  | dbSize => exact performs_dbSize s c
  | close => exact .close

namespace Performs

variable {s s' : Store} {c : Call} {command : Command} {answer : Except Error Reply}

theorem config (h : Performs s c command answer s') : s'.config = s.config := by
  cases h <;> rfl

theorem isClosed (h : Performs s c command answer s') (hc : command ≠ .close) :
    s'.isClosed = s.isClosed := by
  cases h with
  | close => exact absurd rfl hc
  | _ => rfl

/-- Only the database of the call changes, and it is in the configured range. -/
theorem frame (h : Performs s c command answer s') :
    Storage.Frame s.config.maxDatabases s.storage s'.storage := by
  cases h with
  | stays => exact .refl _ _
  | close => exact .refl _ _
  | admits h => exact Storage.frame_addTable _ (lt_of_refusal h)
  | onKey h hkey hrun =>
    exact (Storage.frame_addTable _ (lt_of_refusal h)).trans
      (Storage.frame_setSlot _ (lt_of_refusal h) _ _)
  | del h n =>
    exact (Storage.frame_addTable _ (lt_of_refusal h)).trans
      (Storage.frame_purgeAll _ _ (lt_of_refusal h) _)
  | flushAll h n =>
    exact (Storage.frame_addTable _ (lt_of_refusal h)).trans
      (Storage.frame_clear _ (lt_of_refusal h))

/-- The slot of a key stays as it is, unless the call is on its database. Then it may be emptied,
or be the slot that a command on the key leaves. -/
theorem slot (h : Performs s c command answer s') (db : DbId) (key : Bytes) :
    s'.storage.slot db key = s.storage.slot db key ∨
      c.db = db ∧ s.refusal c = none ∧
        (s'.storage.slot db key = .empty ∨
          ∃ k r, command = .onKey key k ∧ checkKey key = .ok () ∧ answer = k.finish r ∧
            k.run key c.clock (s.storage.slot db key) = .ok (r, s'.storage.slot db key)) := by
  cases h with
  | stays => exact .inl rfl
  | close => exact .inl rfl
  | admits h => exact .inl (Storage.slot_addTable _ _ _ _)
  | @onKey key' k r t h hkey hrun =>
    by_cases he : c.db = db ∧ key' = key
    · obtain ⟨rfl, rfl⟩ := he
      refine .inr ⟨rfl, h, .inr ⟨k, r, rfl, hkey, rfl, ?_⟩⟩
      rw [Storage.slot_setSlot_self]
      exact hrun
    · refine .inl ?_
      rw [Storage.slot_setSlot, if_neg he, Storage.slot_addTable]
  | @del keys h n =>
    rw [Storage.slot_purgeAll]
    split
    · rename_i he
      exact .inr ⟨he.1, h, .inl rfl⟩
    · exact .inl (Storage.slot_addTable _ _ _ _)
  | flushAll h n =>
    rw [Storage.slot_clear]
    split
    · rename_i he
      exact .inr ⟨he, h, .inl rfl⟩
    · exact .inl (Storage.slot_addTable _ _ _ _)

/-- What holds of the slot of every key still holds after a command, if it holds of empty slots and
of what commands on a key make of its slot. -/
theorem forall_slot {P : DbId → Bytes → Slot → Prop} (h : Performs s c command answer s')
    (empty : ∀ db key, P db key .empty)
    (turns : ∀ key t u, c.db.toNat < s.config.maxDatabases → checkKey key = .ok () →
      P c.db key t → t.Turns c.clock.seconds u → P c.db key u)
    (hs : ∀ db key, P db key (s.storage.slot db key)) (db : DbId) (key : Bytes) :
    P db key (s'.storage.slot db key) := by
  rcases h.slot db key with he | ⟨rfl, hgate, he | ⟨k, r, -, hkey, -, hrun⟩⟩
  · rw [he]
    exact hs db key
  · rw [he]
    exact empty _ _
  · have ht := KeyCommand.turns_of_run hrun
    exact turns key _ _ (lt_of_refusal hgate) hkey (hs _ key) ht

/-- An absent key stays absent, unless the command is a change that leaves a value under it. -/
theorem absent {db : DbId} {key : Bytes} (h : Performs s c command answer s')
    (hs : (s.storage.slot db key).Absent c.clock.seconds) :
    (s'.storage.slot db key).Absent c.clock.seconds ∨
      c.db = db ∧ (∃ change r, command = .onKey key (.change change) ∧ answer = .ok r) ∧
        (s'.storage.slot db key).value.isSome = true := by
  rcases h.slot db key with he | ⟨hdb, -, he | ⟨k, r, rfl, -, rfl, hrun⟩⟩
  · rw [he]
    exact .inl hs
  · rw [he]
    exact .inl (Slot.absent_empty _)
  · rcases KeyCommand.absent_of_run hs hrun with ht | ⟨⟨change, rfl⟩, hvalue⟩
    · exact .inl ht
    · exact .inr ⟨hdb, ⟨change, r, rfl, rfl⟩, hvalue⟩

end Performs

theorem perform_config (s : Store) (c : Call) (command : Command) :
    (s.perform c command).store.config = s.config := (performs_perform s c command).config

/-! ## Commands that answer -/

/-- A command on a key answers without a look at the store, or from the slot of the key. -/
theorem onKey_of_ok {s : Store} {c : Call} {key : Bytes} {k : KeyCommand} {r : Reply}
    (h : (s.perform c (.onKey key k)).answer = .ok r) :
    (s.perform c (.onKey key k)).store = s ∧
        (k = .query .isPresent ∨ k.shortcut = some (.ok r)) ∨
      ∃ t, s.refusal c = none ∧ checkKey key = .ok () ∧
        k.run key c.clock (s.storage.slot c.db key) = .ok (r, t) ∧
        (s.perform c (.onKey key k)).store =
          { s.ready c.db with storage := (s.storage.addTable c.db).setSlot c.db key t } := by
  simp only [perform, performOnKey] at h ⊢
  split at h
  · refine .inl ⟨rfl, .inl ?_⟩
    unfold KeyCommand.refuse at h
    split at h
    · assumption
    · cases h
  · rename_i hkey
    split at h
    · rename_i hshort
      exact .inl ⟨rfl, .inr (hshort.trans (congrArg some h))⟩
    · unfold runOnKey at h ⊢
      generalize ho : s.run c _ = o at h ⊢
      have hran : Ran s c _ o := ho ▸ ran_run s c _
      cases hran with
      | refused hgate => cases h
      | failed hgate => cases h
      | @done r' _ hgate hbody =>
        obtain ⟨⟨_, t⟩, hrun, he⟩ := map_eq_ok_iff.1 hbody
        cases he
        rw [ready_storage, Storage.slot_addTable] at hrun
        obtain rfl : r' = r := by
          simp only [Outcome.andThen, Except.bind, KeyCommand.finish] at h
          split at h
          · cases h
          · exact Except.ok.inj h
        exact .inr ⟨t, hgate, hkey, hrun, rfl⟩

/-- What a command that answers on a key did to its slot, if the answer needed a look at it. -/
theorem slot_of_ok {s : Store} {c : Call} {key : Bytes} {k : KeyCommand} {r : Reply}
    (h : (s.perform c (.onKey key k)).answer = .ok r) :
    (s.perform c (.onKey key k)).store.storage.slot c.db key = s.storage.slot c.db key ∧
        (k = .query .isPresent ∨ k.shortcut = some (.ok r)) ∨
      k.run key c.clock (s.storage.slot c.db key) =
        .ok (r, (s.perform c (.onKey key k)).store.storage.slot c.db key) := by
  rcases onKey_of_ok h with ⟨hs, hk⟩ | ⟨t, -, -, hrun, hs⟩
  · exact .inl ⟨by rw [hs], hk⟩
  · rw [hs, Storage.slot_setSlot_self]
    exact .inr hrun

/-- What comes of a command on a key whose arguments decide it. -/
theorem perform_of_shortcut {c : Call} {key : Bytes} {k : KeyCommand} {answer : Except Error Reply}
    (hkey : checkKey key = .ok ()) (hshort : k.shortcut = some answer) (s : Store) :
    s.perform c (.onKey key k) = ⟨answer, s, .none⟩ := by
  simp only [perform, performOnKey, hkey, hshort]

/-- What comes of a command on a key that is let through to its transaction, as far as its arguments
do not decide. -/
theorem perform_onKey {s : Store} {c : Call} {key : Bytes} {k : KeyCommand}
    (hkey : checkKey key = .ok ()) (hshort : k.shortcut = none) (hgate : s.refusal c = none)
    (hpending : c.pendingInterruption = none) :
    s.perform c (.onKey key k) =
      match k.run key c.clock (s.storage.slot c.db key), c.lateInterruption with
      | .error e, _ => ⟨.error e, s.ready c.db, c.interludes.total⟩
      | .ok _, some e => ⟨.error e, s.ready c.db, c.interludes.total⟩
      | .ok (r, t), none => ⟨k.finish r,
          { s.ready c.db with storage := (s.storage.addTable c.db).setSlot c.db key t },
          c.interludes.total⟩ := by
  simp only [perform, performOnKey, hkey, hshort, runOnKey, run_of_admitted hgate, transact,
    hpending, ready_storage, Storage.slot_addTable]
  cases k.run key c.clock (s.storage.slot c.db key) with
  | error e => rfl
  | ok p => cases c.lateInterruption <;> rfl

/-- What comes of a command on a key that is interrupted before its transaction. -/
theorem perform_of_pending {s : Store} {c : Call} {key : Bytes} {k : KeyCommand} {e : Error}
    (hkey : checkKey key = .ok ()) (hshort : k.shortcut = none) (hgate : s.refusal c = none)
    (hpending : c.pendingInterruption = some e) :
    s.perform c (.onKey key k) = ⟨.error e, s.ready c.db, c.interludes.before⟩ := by
  simp only [perform, performOnKey, hkey, hshort, runOnKey, run_of_admitted hgate, transact,
    hpending]
  rfl

/-- A command that is let through and not interrupted answers from the slot, as far as its arguments
do not decide. -/
theorem answer_of_admitted {s : Store} {c : Call} {key : Bytes} {k : KeyCommand}
    (hkey : checkKey key = .ok ()) (hshort : k.shortcut = none) (hgate : s.refusal c = none)
    (hlate : c.lateInterruption = none) :
    (s.perform c (.onKey key k)).answer =
      ((k.run key c.clock (s.storage.slot c.db key)).map (·.1)).bind k.finish := by
  rw [perform_onKey hkey hshort hgate (Call.pendingInterruption_of_late hlate), hlate]
  cases k.run key c.clock (s.storage.slot c.db key) <;> rfl

theorem answer_onKey {s : Store} {c : Call} {key : Bytes} {k : KeyCommand} {r : Reply} {t : Slot}
    (hkey : checkKey key = .ok ()) (hshort : k.shortcut = none) (hgate : s.refusal c = none)
    (hlate : c.lateInterruption = none)
    (hrun : k.run key c.clock (s.storage.slot c.db key) = .ok (r, t)) :
    (s.perform c (.onKey key k)).answer = k.finish r := by
  rw [answer_of_admitted hkey hshort hgate hlate, hrun]
  rfl

/-! ## Calls that reach a key -/

/-- The call gets through to the key, which it finds live. -/
structure Reaches (s : Store) (c : Call) (key : Bytes) : Prop where
  isKey : checkKey key = .ok ()
  gate : s.refusal c = none
  late : c.lateInterruption = none
  readable : (s.storage.slot c.db key).isMalformed = false
  live : (s.storage.slot c.db key).isExpired c.clock.seconds = false

/-- A query about a live key is answered from its value. -/
theorem Reaches.answer_query {s : Store} {c : Call} {key : Bytes} {q : Query}
    (h : s.Reaches c key) (hshort : (KeyCommand.query q).shortcut = none) (hq : q ≠ .get) :
    (s.perform c (.onKey key (.query q))).answer =
      q.answer key (s.storage.slot c.db key).value := by
  have hsettle := Slot.settle_eq_live h.readable key c.clock.seconds
  rw [Slot.live_of_not_isExpired h.live] at hsettle
  have hfinish : ∀ r, (KeyCommand.query q).finish r = .ok r := fun r =>
    if_neg fun hk => hq (KeyCommand.query.inj hk.1)
  rw [answer_of_admitted h.isKey hshort h.gate h.late, KeyCommand.run, hsettle]
  simp only [bind, Except.bind]
  cases q.answer key (s.storage.slot c.db key).value with
  | error e => rfl
  | ok r => exact hfinish r

/-- Commands that leave the deadline of a key alone leave it within the reach of the same calls. -/
theorem reaches_perform_iff {s : Store} {c c' : Call} {key : Bytes} {command : Command}
    (hclose : command ≠ .close)
    (hdeadline : ((s.perform c command).store.storage.slot c'.db key).deadline =
      (s.storage.slot c'.db key).deadline) :
    (s.perform c command).store.Reaches c' key ↔ s.Reaches c' key := by
  have hp := s.performs_perform c command
  have hgate : (s.perform c command).store.refusal c' = s.refusal c' := by
    rw [refusal, refusal, hp.isClosed hclose, hp.config]
  have hmalformed : ((s.perform c command).store.storage.slot c'.db key).isMalformed =
      (s.storage.slot c'.db key).isMalformed := by
    rw [Slot.isMalformed, Slot.isMalformed, hdeadline]
  have hexpired : ∀ now, ((s.perform c command).store.storage.slot c'.db key).isExpired now =
      (s.storage.slot c'.db key).isExpired now := by
    intro now
    rw [Slot.isExpired, Slot.isExpired, Slot.deadline?, Slot.deadline?, hdeadline]
  constructor
  · rintro ⟨hkey, hg, hlate, hm, he⟩
    exact ⟨hkey, hgate ▸ hg, hlate, hmalformed ▸ hm, hexpired _ ▸ he⟩
  · rintro ⟨hkey, hg, hlate, hm, he⟩
    exact ⟨hkey, hgate.trans hg, hlate, hmalformed.trans hm, (hexpired _).trans he⟩

end Store

end Keyspace
