import Keyspace.Proofs.Store.Locality

/-!
# Objects kept under a key

A `Kind` is a kind of object that can be the value of a key: what each change answers and makes of
an object, and when a value `Holds` an object, such that changes do to the value what they do to the
object. What one request does, a run of requests does (`Kind.Keeps.serve`): whatever is asked
of the store, as long as the key is changed by changes of the kind only (`Store.Tame`), the value
holds the object that the admitted changes have made of the first one (`Store.history`,
`Kind.after`), and the next change answers as it does for this object (`Kind.Keeps.answer_change`).
-/

namespace Keyspace

/-! ## Slots without a deadline -/

/-- The value after a write. -/
def Write.result (value : Option Bytes) : Write → Option Bytes
  | .keep => value
  | .put b => some b
  | .drop => none

namespace Slot

/-- From `now` on the key counts as one with this value and without a deadline. -/
structure Steady (now : Nat) (value : Option Bytes) (s : Slot) : Prop where
  readable : s.isMalformed = false
  live : ∀ later, now ≤ later → s.live later = ⟨value, none⟩

theorem steady_of_deadline (now : Nat) (value : Option Bytes) : Steady now value ⟨value, none⟩ :=
  ⟨rfl, fun _ _ => rfl⟩

theorem steady_of_live {now : Nat} {s : Slot} (h : s.isMalformed = false)
    (hlive : s.live now = .empty) : Steady now none s where
  readable := h
  live later hle := by
    rw [← live_live hle, hlive, live_empty]
    rfl

/-- From a slot that counts as one with `value` to one with another value: it is the same slot, or
it has been written. -/
inductive Becomes (value : Option Bytes) (s : Slot) : Option Bytes → Slot → Prop
  | same : Becomes value s value s
  | written (value' : Option Bytes) : Becomes value s value' ⟨value', none⟩

namespace Becomes

variable {value value' value'' : Option Bytes} {s t u : Slot} {now : Nat}

theorem of_eq (h : t = s) : Becomes value s value t := h ▸ .same

theorem of_written (h : t = ⟨value', none⟩) : Becomes value s value' t := h ▸ .written value'

theorem trans (h : Becomes value s value' t) (h' : Becomes value' t value'' u) :
    Becomes value s value'' u := by
  cases h' with
  | same => exact h
  | written value'' => exact .written value''

theorem steady (h : Becomes value s value' t) (hs : s.Steady now value) : t.Steady now value' := by
  cases h with
  | same => exact hs
  | written value' => exact steady_of_deadline now value'

/-- Slots that have no deadline get none. -/
theorem eq_of_persistent (h : Becomes value ⟨value, none⟩ value' t) : t = ⟨value', none⟩ := by
  cases h <;> rfl

/-- A value where there was none has been written. -/
theorem eq_of_some {b : Bytes} (h : Becomes none s (some b) t) : t = ⟨some b, none⟩ := by
  cases h
  rfl

end Becomes

theorem write_eq (value : Option Bytes) (w : Write) :
    (⟨value, none⟩ : Slot).write w = ⟨w.result value, none⟩ := by
  cases w <;> rfl

end Slot

/-! ## Requests -/

namespace KeyCommand

/-- The command reads, and does no more. -/
def IsRead : KeyCommand → Prop
  | query _ | lifetime .ttl | lifetime .pttl => True
  | _ => False

theorem eq_live_of_read {s t : Slot} {key : Bytes} {clock : Clock} {k : KeyCommand} {r : Reply}
    (hk : k.IsRead) (h : k.run key clock s = .ok (r, t)) : t = s.live clock.seconds := by
  cases k with
  | query q => exact eq_live_of_query h
  | change c => cases hk
  | lifetime l =>
    cases l with
    | expire | expireAt | persist => cases hk
    | ttl | pttl =>
      obtain ⟨u, hu, h⟩ := bind_eq_ok_iff.1 h
      obtain ⟨-, rfl⟩ := Slot.eq_live_of_settle hu
      cases h
      rfl

end KeyCommand

namespace Store

variable {s : Store} {c : Call} {db : DbId} {key : Bytes}

/-- The call is on the key, gets through to it and is not interrupted. -/
structure Admits (s : Store) (c : Call) (db : DbId) (key : Bytes) : Prop where
  db : c.db = db
  isKey : checkKey key = .ok ()
  gate : s.refusal c = none
  late : c.lateInterruption = none

instance (key : Bytes) : Decidable (checkKey key = .ok ()) :=
  match checkKey key with
  | .ok () => .isTrue rfl
  | .error _ => .isFalse nofun

instance (s : Store) (c : Call) (db : DbId) (key : Bytes) : Decidable (s.Admits c db key) :=
  decidable_of_iff
    (c.db = db ∧ checkKey key = .ok () ∧ s.refusal c = none ∧ c.lateInterruption = none)
    ⟨fun ⟨h₁, h₂, h₃, h₄⟩ => ⟨h₁, h₂, h₃, h₄⟩, fun ⟨h₁, h₂, h₃, h₄⟩ => ⟨h₁, h₂, h₃, h₄⟩⟩

/-- The answer to a command on a key. -/
abbrev answer (s : Store) (c : Call) (key : Bytes) (k : KeyCommand) : Except Error Reply :=
  (s.perform c (.onKey key k)).answer

/-- What comes of a command on a key that is admitted, as far as its arguments do not decide. -/
theorem Admits.perform (h : s.Admits c db key) {k : KeyCommand} (hshort : k.shortcut = none) :
    s.perform c (.onKey key k) =
      match k.run key c.clock (s.storage.slot db key) with
      | .error e => ⟨.error e, s.ready db, c.interludes.total⟩
      | .ok (r, t) => ⟨k.finish r,
          { s.ready db with storage := (s.storage.addTable db).setSlot db key t },
          c.interludes.total⟩ := by
  obtain ⟨rfl, hkey, hgate, hlate⟩ := h
  rw [perform_onKey hkey hshort hgate (Call.pendingInterruption_of_late hlate), hlate]
  cases k.run key c.clock (s.storage.slot c.db key) <;> rfl

theorem Admits.answer_of_run (h : s.Admits c db key) {k : KeyCommand} {r : Reply} {t : Slot}
    (hshort : k.shortcut = none) (hrun : k.run key c.clock (s.storage.slot db key) = .ok (r, t)) :
    s.answer c key k = k.finish r := by
  obtain ⟨rfl, hkey, hgate, hlate⟩ := h
  exact answer_onKey hkey hshort hgate hlate hrun

/-- A command that is not admitted does no more than to make sure of its table. -/
theorem store_of_not_admits {k : KeyCommand} (h : ¬ s.Admits c c.db key) :
    (s.perform c (.onKey key k)).store = s ∨ (s.perform c (.onKey key k)).store = s.ready c.db := by
  cases hkey : checkKey key with
  | error e =>
    refine .inl ?_
    simp only [Store.perform, performOnKey, hkey]
  | ok _ =>
    cases hshort : k.shortcut with
    | some answer =>
      rw [perform_of_shortcut hkey hshort]
      exact .inl rfl
    | none =>
      cases hgate : s.refusal c with
      | some e =>
        simp only [Store.perform, performOnKey, hkey, hshort, runOnKey, run_of_refusal hgate]
        exact .inl rfl
      | none =>
        cases hpending : c.pendingInterruption with
        | some e =>
          rw [perform_of_pending hkey hshort hgate hpending]
          exact .inr rfl
        | none =>
          cases hlate : c.lateInterruption with
          | none => exact absurd ⟨rfl, hkey, hgate, hlate⟩ h
          | some e =>
            rw [perform_onKey hkey hshort hgate hpending, hlate]
            cases k.run key c.clock (s.storage.slot c.db key) <;> exact .inr rfl

theorem slot_of_not_admits {k : KeyCommand} (h : ¬ s.Admits c c.db key) (db' : DbId)
    (key' : Bytes) :
    (s.perform c (.onKey key k)).store.storage.slot db' key' = s.storage.slot db' key' := by
  rcases store_of_not_admits (k := k) h with he | he
  · rw [he]
  · rw [he]
    exact Storage.slot_addTable _ _ _ _

/-! ## Histories -/

/-- The command that a call gives does nothing to the key, or is a change of it. -/
inductive Tame (db : DbId) (key : Bytes) (c : Call) : Command → Prop
  | change (ch : Change) (h : c.db = db) : Tame db key c (.onKey key (.change ch))
  | read {k : KeyCommand} (key' : Bytes) (h : k.IsRead) : Tame db key c (.onKey key' k)
  | size : Tame db key c .dbSize
  | aside {key' : Bytes} {command : Command} (h : command.Concerns key')
      (hne : (db, key) ≠ (c.db, key')) : Tame db key c command

/-- The change of the key that a request is, if it is one and is admitted. -/
def change? (s : Store) (db : DbId) (key : Bytes) : Call × Command → Option Change
  | (c, .onKey key' (.change ch)) => if key' = key ∧ s.Admits c db key then some ch else none
  | _ => none

/-- The changes of the key that are admitted, among requests. -/
def history (s : Store) (db : DbId) (key : Bytes) (reqs : List (Call × Command)) : List Change :=
  reqs.filterMap (s.change? db key)

theorem change?_eq_some {command : Command} {ch : Change}
    (h : s.change? db key (c, command) = some ch) :
    command = .onKey key (.change ch) ∧ s.Admits c db key := by
  unfold change? at h
  split at h
  · rename_i heq
    obtain ⟨rfl, rfl⟩ := Prod.mk.inj heq
    obtain ⟨⟨rfl, hc⟩, hch⟩ := Option.ite_none_right_eq_some.1 h
    exact ⟨by rw [Option.some.inj hch], hc⟩
  · cases h

/-- The store after requests that are made one after the other. -/
def serve (s : Store) (reqs : List (Call × Command)) : Store :=
  reqs.foldl (fun s q => (s.perform q.1 q.2).store) s

theorem admits_congr {t : Store} (hc : s.config = t.config) (ho : s.isClosed = t.isClosed)
    (c : Call) (db : DbId) (key : Bytes) : s.Admits c db key ↔ t.Admits c db key := by
  have hgate : s.refusal c = t.refusal c := by rw [refusal, refusal, hc, ho]
  constructor
  · rintro ⟨h₁, h₂, h₃, h₄⟩
    exact ⟨h₁, h₂, hgate ▸ h₃, h₄⟩
  · rintro ⟨h₁, h₂, h₃, h₄⟩
    exact ⟨h₁, h₂, hgate.trans h₃, h₄⟩

/-- Stores that admit the same calls have the same history. -/
theorem history_congr {t : Store} (h : ∀ c, s.Admits c db key ↔ t.Admits c db key) :
    s.history db key = t.history db key := by
  have hchange : s.change? db key = t.change? db key := by
    funext q
    unfold change?
    split
    · simp only [h]
    · rfl
  funext reqs
  rw [history, history, hchange]

theorem Tame.ne_close {command : Command} (h : Tame db key c command) : command ≠ .close := by
  rintro rfl
  cases h with
  | aside h => cases h

/-- A query is answered from the value that counts. -/
theorem Admits.answer_query (h : s.Admits c db key) {now : Nat} (hnow : now ≤ c.clock.seconds)
    {value : Option Bytes} (hslot : (s.storage.slot db key).Steady now value) {q : Query}
    (hshort : (KeyCommand.query q).shortcut = none) (hq : q ≠ .get) :
    s.answer c key (.query q) = q.answer key value := by
  have hsettle : (s.storage.slot db key).settle key c.clock.seconds = .ok ⟨value, none⟩ := by
    rw [Slot.settle_eq_live hslot.readable, hslot.live _ hnow]
  rw [answer, h.perform hshort, KeyCommand.run, hsettle]
  simp only [bind, Except.bind]
  cases q.answer key value with
  | error e => rfl
  | ok r => exact if_neg fun hk => hq (KeyCommand.query.inj hk.1)

theorem Tame.admits_iff {command : Command} (h : Tame db key c command) (c' : Call) :
    (s.perform c command).store.Admits c' db key ↔ s.Admits c' db key :=
  admits_congr (perform_config s c command) ((s.performs_perform c command).isClosed h.ne_close)
    c' db key

/-- A command that reads leaves the slot of its key as it is, or as it counts. -/
theorem slot_eq_or_of_read {k : KeyCommand} (hk : k.IsRead) :
    (s.perform c (.onKey key k)).store.storage.slot c.db key = s.storage.slot c.db key ∨
      (s.perform c (.onKey key k)).store.storage.slot c.db key =
        (s.storage.slot c.db key).live c.clock.seconds := by
  by_cases hc : s.Admits c c.db key
  · cases hshort : k.shortcut with
    | some answer =>
      rw [perform_of_shortcut hc.isKey hshort]
      exact .inl rfl
    | none =>
      rw [hc.perform hshort]
      cases hrun : k.run key c.clock (s.storage.slot c.db key) with
      | error e => exact .inl (Storage.slot_addTable _ _ _ _)
      | ok p =>
        refine .inr ?_
        rw [← KeyCommand.eq_live_of_read hk hrun]
        exact Storage.slot_setSlot_self _ _ _ _
  · exact .inl (slot_of_not_admits hc _ _)

theorem slot_of_read {k : KeyCommand} (hk : k.IsRead) (now : Nat) (hnow : now ≤ c.clock.seconds)
    {value : Option Bytes} (hslot : (s.storage.slot c.db key).Steady now value) :
    (s.storage.slot c.db key).Becomes value value
      ((s.perform c (.onKey key k)).store.storage.slot c.db key) := by
  rcases slot_eq_or_of_read hk with he | he
  · exact .of_eq he
  · exact .of_written (he.trans (hslot.live _ hnow))

/-- A request that is no admitted change of the key removes at most what has expired. -/
theorem slot_of_tame {command : Command} (h : Tame db key c command)
    (hchange : s.change? db key (c, command) = none) {now : Nat} (hnow : now ≤ c.clock.seconds)
    {value : Option Bytes} (hslot : (s.storage.slot db key).Steady now value) :
    (s.storage.slot db key).Becomes value value
      ((s.perform c command).store.storage.slot db key) := by
  cases h with
  | change ch hdb =>
    subst hdb
    simp only [change?, true_and, ite_eq_right_iff, reduceCtorEq, imp_false] at hchange
    exact .of_eq (slot_of_not_admits hchange _ _)
  | read key' hk =>
    by_cases he : (db, key) = (c.db, key')
    · obtain ⟨rfl, rfl⟩ := Prod.mk.inj he
      exact slot_of_read hk now hnow hslot
    · exact .of_eq ((sameBut_perform (.onKey _) s c).slot _ _ he)
  | size =>
    have hp := s.performs_perform c .dbSize
    generalize (s.perform c .dbSize).store = t at hp ⊢
    cases hp with
    | stays => exact .of_eq rfl
    | admits h => exact .of_eq (Storage.slot_addTable _ _ _ _)
  | aside hconcerns hne => exact .of_eq ((sameBut_perform hconcerns s c).slot _ _ hne)

end Store

/-! ## Kinds -/

/-- The answer is the same, and the value after the write holds the object. -/
def Follows {α : Type} (Holds : α → Option Bytes → Prop) (value : Option Bytes) (p : Reply × Write)
    (q : Reply × α) : Prop :=
  p.1 = q.1 ∧ Holds q.2 (p.2.result value)

/-- A kind of object that a key can have for a value. -/
structure Kind (α : Type) where
  /-- The changes that are made to objects of the kind. -/
  Changes : Change → Prop
  /-- What a change answers and makes of an object. -/
  act : α → Change → Except Error (Reply × α)
  /-- The number of elements of an object. -/
  size : α → Nat
  /-- The object is what the value holds. -/
  Holds : α → Option Bytes → Prop
  /-- A change adds one element at most. -/
  grows : ∀ {a ch r b}, act a ch = .ok (r, b) → size b ≤ size a + 1
  /-- A change that its arguments decide is refused. -/
  refuses : ∀ {a ch answer}, Changes ch → (KeyCommand.change ch).shortcut = some answer →
    ∃ e, answer = .error e ∧ act a ch = .error e
  /-- Changes do to the value what they do to the object that it holds. -/
  agree : ∀ {a value ch} (key : Bytes), Holds a value → size a ≤ Position.longest → Changes ch →
    (KeyCommand.change ch).shortcut = none →
    Agree (Follows Holds value) (ch.apply key value) (act a ch)

namespace Kind

variable {α : Type} (k : Kind α) {s : Store} {c : Call} {db : DbId} {key : Bytes} {now : Nat}
  {a : α} {value : Option Bytes}

/-- The object after a change: the same if the change fails. -/
def next (a : α) (ch : Change) : α :=
  match k.act a ch with
  | .ok (_, b) => b
  | .error _ => a

/-- The object after changes that are made one after the other. -/
def after (a : α) (h : List Change) : α := h.foldl k.next a

theorem size_next_le (a : α) (ch : Change) : k.size (k.next a ch) ≤ k.size a + 1 := by
  unfold next
  split
  · rename_i hact
    exact k.grows hact
  · omega

/-- Objects do not grow faster than changes are made to them. -/
theorem size_after_le (a : α) (h : List Change) : k.size (k.after a h) ≤ k.size a + h.length := by
  induction h generalizing a with
  | nil => exact Nat.le_refl _
  | cons ch h ih =>
    have hnext := k.size_next_le a ch
    have hafter := ih (k.next a ch)
    rw [List.length_cons]
    show k.size (k.after (k.next a ch) h) ≤ _
    omega

theorem size_of_length {a : α} {h : List Change} (hlen : k.size a + h.length ≤ Position.longest)
    (h' : List Change) (hpre : h' <+: h) : k.size (k.after a h') ≤ Position.longest := by
  have hafter := k.size_after_le a h'
  have hle := hpre.length_le
  omega

/-- A change answers what it answers for the object, and the value afterwards holds what it makes
of the object. -/
theorem answer_of_holds {ch : Change} (hc : s.Admits c db key) (hnow : now ≤ c.clock.seconds)
    (hslot : (s.storage.slot db key).Steady now value) (hvalue : k.Holds a value)
    (hsize : k.size a ≤ Position.longest) (hch : k.Changes ch) :
    s.answer c key (.change ch) = (k.act a ch).map (·.1) ∧
      ∃ value', k.Holds (k.next a ch) value' ∧
        (s.storage.slot db key).Becomes value value'
          ((s.perform c (.onKey key (.change ch))).store.storage.slot db key) := by
  cases hshort : (KeyCommand.change ch).shortcut with
  | some answer =>
    obtain ⟨e, rfl, hact⟩ := k.refuses (a := a) hch hshort
    rw [Store.answer, Store.perform_of_shortcut hc.isKey hshort, next, hact]
    exact ⟨rfl, value, hvalue, .same⟩
  | none =>
    have hagree := k.agree key hvalue hsize hch hshort
    have hsettle : (s.storage.slot db key).settle key c.clock.seconds = .ok ⟨value, none⟩ := by
      rw [Slot.settle_eq_live hslot.readable, hslot.live _ hnow]
    rw [Store.answer, hc.perform hshort, KeyCommand.run, hsettle, next]
    simp only [bind, Except.bind]
    generalize ch.apply key value = x at hagree ⊢
    generalize k.act a ch = y at hagree ⊢
    cases hagree with
    | error e => exact ⟨rfl, value, hvalue, .of_eq (Storage.slot_addTable _ _ _ _)⟩
    | @ok p q hpq =>
      obtain ⟨r, w⟩ := p
      obtain ⟨rfl, hholds⟩ := hpq
      refine ⟨rfl, w.result value, hholds, .of_written ?_⟩
      exact (Storage.slot_setSlot_self _ _ _ _).trans (Slot.write_eq value w)

/-- From `now` on, requests that leave a key an object of the kind: it is one at the beginning, only
changes of the kind are made to it, and it never grows too large. -/
structure Keeps (s : Store) (db : DbId) (key : Bytes) (now : Nat) (value : Option Bytes) (a : α)
    (reqs : List (Call × Command)) : Prop where
  slot : (s.storage.slot db key).Steady now value
  holds : k.Holds a value
  tame : ∀ q ∈ reqs, Store.Tame db key q.1 q.2
  time : ∀ q ∈ reqs, now ≤ q.1.clock.seconds
  changes : ∀ ch ∈ s.history db key reqs, k.Changes ch
  size : ∀ h, h <+: s.history db key reqs → k.size (k.after a h) ≤ Position.longest

variable {k} {reqs : List (Call × Command)}

/-- For a key without a deadline the time does not matter. -/
theorem Keeps.of_slot (hslot : s.storage.slot db key = ⟨value, none⟩) (holds : k.Holds a value)
    (tame : ∀ q ∈ reqs, Store.Tame db key q.1 q.2)
    (changes : ∀ ch ∈ s.history db key reqs, k.Changes ch)
    (size : ∀ h, h <+: s.history db key reqs → k.size (k.after a h) ≤ Position.longest) :
    k.Keeps s db key 0 value a reqs where
  slot := hslot ▸ Slot.steady_of_deadline 0 value
  holds := holds
  tame := tame
  time _ _ := Nat.zero_le _
  changes := changes
  size := size

/-- What one request leaves to those after it. -/
theorem Keeps.step {q : Call × Command} (h : k.Keeps s db key now value a (q :: reqs)) :
    ∃ value' a', k.Keeps (s.perform q.1 q.2).store db key now value' a' reqs ∧
      k.after a (s.history db key (q :: reqs)) =
        k.after a' ((s.perform q.1 q.2).store.history db key reqs) ∧
      (s.storage.slot db key).Becomes value value'
        ((s.perform q.1 q.2).store.storage.slot db key) := by
  obtain ⟨c, command⟩ := q
  obtain ⟨htame, htame'⟩ := List.forall_mem_cons.1 h.tame
  obtain ⟨hnow, htime'⟩ := List.forall_mem_cons.1 h.time
  have hhistory : (s.perform c command).store.history db key = s.history db key :=
    Store.history_congr htame.admits_iff
  have hchanges := h.changes
  have hsize := h.size
  cases hchange : s.change? db key (c, command) with
  | none =>
    have hcons : s.history db key ((c, command) :: reqs) = s.history db key reqs :=
      List.filterMap_cons_none hchange
    rw [hcons, ← hhistory] at hchanges hsize ⊢
    have hslot := Store.slot_of_tame htame hchange hnow h.slot
    exact ⟨value, a, ⟨hslot.steady h.slot, h.holds, htame', htime', hchanges, hsize⟩, rfl, hslot⟩
  | some ch =>
    have hcons : s.history db key ((c, command) :: reqs) = ch :: s.history db key reqs :=
      List.filterMap_cons_some hchange
    rw [hcons, ← hhistory] at hchanges hsize ⊢
    obtain ⟨hch, hchanges'⟩ := List.forall_mem_cons.1 hchanges
    obtain ⟨rfl, hc⟩ := Store.change?_eq_some hchange
    obtain ⟨-, value', hholds, hslot⟩ := k.answer_of_holds hc hnow h.slot h.holds
      (hsize [] List.nil_prefix) hch
    refine ⟨value', k.next a ch, ⟨hslot.steady h.slot, hholds, htame', htime', hchanges', ?_⟩, rfl,
      hslot⟩
    exact fun h' hpre => hsize (ch :: h') (List.cons_prefix_cons.2 ⟨rfl, hpre⟩)

/-- **Requests on a key do to its value what the changes among them do to the object.** -/
theorem Keeps.serve (h : k.Keeps s db key now value a reqs) :
    ∃ value', k.Holds (k.after a (s.history db key reqs)) value' ∧
      (s.storage.slot db key).Becomes value value' ((s.serve reqs).storage.slot db key) := by
  induction reqs generalizing s value a with
  | nil => exact ⟨value, h.holds, .same⟩
  | cons q reqs ih =>
    obtain ⟨value', a', hkeeps, hafter, hslot⟩ := h.step
    obtain ⟨value'', hholds, hserve⟩ := ih hkeeps
    exact ⟨value'', hafter ▸ hholds, hslot.trans hserve⟩

/-- Requests do not change which calls are admitted. -/
theorem Keeps.admits (h : k.Keeps s db key now value a reqs) (hc : s.Admits c db key) :
    (s.serve reqs).Admits c db key := by
  induction reqs generalizing s value a with
  | nil => exact hc
  | cons q reqs ih =>
    obtain ⟨value', a', hkeeps, -, -⟩ := h.step
    exact ih hkeeps (((h.tame q List.mem_cons_self).admits_iff c).2 hc)

theorem Keeps.steady (h : k.Keeps s db key now value a reqs) :
    ∃ value', k.Holds (k.after a (s.history db key reqs)) value' ∧
      ((s.serve reqs).storage.slot db key).Steady now value' := by
  obtain ⟨value', hholds, hserve⟩ := h.serve
  exact ⟨value', hholds, hserve.steady h.slot⟩

/-- A key that never had a deadline has none after requests, and queries are answered from the value
that holds the object. -/
theorem Keeps.persistent (h : k.Keeps s db key now value a reqs)
    (hslot : s.storage.slot db key = ⟨value, none⟩) :
    ∃ value', k.Holds (k.after a (s.history db key reqs)) value' ∧
      (s.serve reqs).storage.slot db key = ⟨value', none⟩ ∧
      ∀ c, s.Admits c db key → ∀ q, (KeyCommand.query q).shortcut = none → q ≠ .get →
        (s.serve reqs).answer c key (.query q) = q.answer key value' := by
  obtain ⟨value', hholds, hserve⟩ := h.serve
  rw [hslot] at hserve
  replace hserve := hserve.eq_of_persistent
  refine ⟨value', hholds, hserve, fun c hc q hshort hq => ?_⟩
  exact (h.admits hc).answer_query (Nat.zero_le _) (hserve ▸ Slot.steady_of_deadline 0 value')
    hshort hq

/-- After requests, a change answers as it does for the object. -/
theorem Keeps.answer_change (h : k.Keeps s db key now value a reqs)
    (hc : s.Admits c db key) (hnow : now ≤ c.clock.seconds) {ch : Change} (hch : k.Changes ch) :
    (s.serve reqs).answer c key (.change ch) =
      (k.act (k.after a (s.history db key reqs)) ch).map (·.1) := by
  obtain ⟨value', hholds, hsteady⟩ := h.steady
  exact (k.answer_of_holds (h.admits hc) hnow hsteady hholds (h.size _ (List.prefix_refl _)) hch).1

end Kind

end Keyspace
