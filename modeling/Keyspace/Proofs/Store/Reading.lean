import Keyspace.Proofs.Kind

/-!
# Reading removes what has expired, and nothing else

A command that reads runs as a transaction that may write: it removes its key if the key has
expired. `reads_pure` says that this is all that it ever changes, whatever is stored, and that at a
standing clock the removal cannot be noticed: among any reads, each answers as it would alone.

The latter holds since the slots of two stores between which only reads lie are the same up to what
has `Lapsed`, and no command on a key answers differently for that (`answer_of_lapsed`).
-/

namespace Keyspace

/-! ## What has lapsed -/

namespace Slot

variable {s t u : Slot} {now : Nat}

/-- A deadline that cannot be read does not pass. -/
theorem not_isMalformed_of_isExpired (h : s.isExpired now = true) : s.isMalformed = false := by
  obtain ⟨d, hd, -⟩ := (Option.any_eq_true _ _).1 h
  obtain ⟨record, hrecord, hdecode⟩ := Option.bind_eq_some_iff.1 hd
  rw [isMalformed, hrecord, Option.any_some, hdecode]
  rfl

theorem isExpired_of_isMalformed (h : s.isMalformed = true) (now : Nat) :
    s.isExpired now = false := by
  refine Bool.eq_false_iff.2 fun he => ?_
  rw [not_isMalformed_of_isExpired he] at h
  cases h

theorem live_of_isMalformed (h : s.isMalformed = true) (now : Nat) : s.live now = s :=
  live_of_not_isExpired (isExpired_of_isMalformed h now)

/-- The slot is as it was, or is gone if it has expired by `now`. -/
def Lapsed (now : Nat) (s t : Slot) : Prop := t = s ∨ t = s.live now

theorem Lapsed.trans (h : Lapsed now s t) (h' : Lapsed now t u) : Lapsed now s u := by
  rcases h with rfl | rfl
  · exact h'
  · rcases h' with rfl | rfl
    · exact .inr rfl
    · exact .inr (live_live (Nat.le_refl now) s)

/-- Commands answer the same whether what has expired is still there or not. -/
theorem Lapsed.run {clock : Clock} (h : Lapsed clock.seconds s t) (key : Bytes) (k : KeyCommand) :
    Agree (fun p q => p.1 = q.1) (k.run key clock s) (k.run key clock t) := by
  rcases h with rfl | rfl
  · exact (Agree.self _).mono fun p q hpq => congrArg Prod.fst hpq
  · cases hm : s.isMalformed with
    | true =>
      rw [live_of_isMalformed hm]
      exact (Agree.self _).mono fun p q hpq => congrArg Prod.fst hpq
    | false =>
      refine (Agree.of_map_eq (KeyCommand.run_live hm key clock k).symm).mono fun p q hpq => ?_
      exact (Prod.mk.inj hpq).1

end Slot

/-- Every slot is as it was, or is gone if it has expired by `now`. -/
def Storage.Lapsed (now : Nat) (s t : Storage) : Prop :=
  ∀ db key, (s.slot db key).Lapsed now (t.slot db key)

/-- The command reads a key, and does no more. -/
def Command.IsRead : Command → Prop
  | .onKey _ k => k.IsRead
  | _ => False

namespace Store

variable {s t u : Store} {c : Call} {key : Bytes} {k : KeyCommand} {now : Nat}

/-! ## What one read changes -/

/-- The command runs on the slot of the key, and what it leaves there is stored. -/
structure Commits (s : Store) (c : Call) (key : Bytes) (k : KeyCommand) : Prop where
  admits : s.Admits c c.db key
  undecided : k.shortcut = none
  runs : ∃ r t, k.run key c.clock (s.storage.slot c.db key) = .ok (r, t)

theorem sameRecords_of_not_commits (h : ¬ s.Commits c key k) :
    Storage.SameRecords (s.perform c (.onKey key k)).store.storage s.storage := by
  by_cases hc : s.Admits c c.db key
  · cases hshort : k.shortcut with
    | some answer =>
      rw [perform_of_shortcut hc.isKey hshort]
      exact .refl _
    | none =>
      rw [hc.perform hshort]
      cases hrun : k.run key c.clock (s.storage.slot c.db key) with
      | error e => exact Storage.sameRecords_addTable _ _
      | ok p => exact absurd ⟨hc, hshort, p.1, p.2, hrun⟩ h
  · rcases store_of_not_admits (k := k) hc with he | he
    · rw [he]
      exact .refl _
    · rw [he]
      exact Storage.sameRecords_addTable _ _

/-- A read that commits leaves the slot of its key as it counts. -/
theorem Commits.sameRecords_of_read (h : s.Commits c key k) (hk : k.IsRead) :
    Storage.SameRecords (s.perform c (.onKey key k)).store.storage
      (s.storage.setSlot c.db key ((s.storage.slot c.db key).live c.clock.seconds)) := by
  obtain ⟨hc, hshort, r, t, hrun⟩ := h
  rw [hc.perform hshort, hrun, KeyCommand.eq_live_of_read hk hrun]
  exact (Storage.sameRecords_addTable s.storage c.db).setSlot c.db key _

/-- Of a key that has expired everything can be read: that there is nothing. -/
theorem Admits.commits_of_isExpired (h : s.Admits c c.db key) (hshort : k.shortcut = none)
    (hk : k.IsRead) (hexpired : (s.storage.slot c.db key).isExpired c.clock.seconds = true) :
    s.Commits c key k := by
  refine ⟨h, hshort, ?_⟩
  have hsettle := Slot.settle_eq_live (Slot.not_isMalformed_of_isExpired hexpired) key
    c.clock.seconds
  rw [Slot.live_of_isExpired hexpired] at hsettle
  cases k with
  | query q =>
    obtain ⟨r, hr⟩ : ∃ r, q.answer key none = .ok r := by cases q <;> exact ⟨_, rfl⟩
    refine ⟨r, .empty, ?_⟩
    rw [KeyCommand.run, hsettle]
    simp only [bind, Except.bind, Slot.empty, hr]
    rfl
  | change ch => cases hk
  | lifetime l =>
    cases l with
    | ttl | pttl =>
      refine ⟨.number (-2), .empty, ?_⟩
      rw [KeyCommand.run, Lifetime.run, hsettle]
      rfl
    | _ => cases hk

/-! ## What any reads answer -/

theorem Related.trans_lapsed (h : s.Related (Storage.Lapsed now) t)
    (h' : t.Related (Storage.Lapsed now) u) : s.Related (Storage.Lapsed now) u where
  isClosed := h.isClosed.trans h'.isClosed
  maxDatabases := h.maxDatabases.trans h'.maxDatabases
  storage db key := (h.storage db key).trans (h'.storage db key)

theorem answer_of_lapsed (h : s.Related (Storage.Lapsed c.clock.seconds) t) (key : Bytes)
    (k : KeyCommand) : s.answer c key k = t.answer c key k := by
  have hrelated : (s.performOnKey c key k).Related Eq (fun _ _ => True)
      (t.performOnKey c key k) := by
    have hany : s.Related (fun _ _ => True) t := ⟨h.isClosed, h.maxDatabases, trivial⟩
    unfold performOnKey
    split
    · exact ⟨.self _, hany, rfl⟩
    · split
      · exact ⟨.self _, hany, rfl⟩
      · refine Outcome.Related.andThen (R := Eq) (run_related hany trivial ?_)
          fun r r' hr => hr ▸ .self _
        simp only [Storage.slot_addTable]
        apply ((h.storage c.db key).run key k).bind
        exact fun p q hpq => .ok ⟨hpq, trivial⟩
  exact hrelated.answer.eq

theorem lapsed_of_read (hk : k.IsRead) :
    s.Related (Storage.Lapsed c.clock.seconds) (s.perform c (.onKey key k)).store where
  isClosed := ((s.performs_perform c (.onKey key k)).isClosed nofun).symm
  maxDatabases := by rw [perform_config]
  storage db key' := by
    by_cases he : (db, key') = (c.db, key)
    · obtain ⟨rfl, rfl⟩ := Prod.mk.inj he
      exact slot_eq_or_of_read hk
    · exact .inl ((sameBut_perform (.onKey k) s c).slot db key' he)

/-- The answers to requests that are made one after the other. -/
def answers (s : Store) : List (Call × Command) → List (Except Error Reply)
  | [] => []
  | (c, command) :: reqs =>
    (s.perform c command).answer :: (s.perform c command).store.answers reqs

theorem answers_of_lapsed {reqs : List (Call × Command)}
    (h : s.Related (Storage.Lapsed now) t)
    (hreads : ∀ q ∈ reqs, q.2.IsRead ∧ q.1.clock.seconds = now) :
    t.answers reqs = reqs.map fun q => (s.perform q.1 q.2).answer := by
  induction reqs generalizing t with
  | nil => rfl
  | cons q reqs ih =>
    obtain ⟨c, command⟩ := q
    obtain ⟨⟨hread, hnow⟩, hreads'⟩ := List.forall_mem_cons.1 hreads
    cases command with
    | onKey key k =>
      cases hnow
      rw [answers, List.map_cons, ih (h.trans_lapsed (lapsed_of_read hread)) hreads']
      exact congrArg (· :: _) (answer_of_lapsed h key k).symm
    | _ => cases hread

/-- **Reads are pure, up to what has expired.** After a command that reads, all records are as they
were, unless the deadline of its key can be read and has passed and the transaction commits; then
the value and the deadline of the key are removed and nothing else. So as long as the clock stands
still, among any reads in any order each of them answers as it would if it were the only one. -/
theorem reads_pure :
    (∀ (s : Store) (c : Call) (key : Bytes) (k : KeyCommand), k.IsRead →
      let after := (s.perform c (.onKey key k)).store.storage
      let removes :=
        (s.storage.slot c.db key).isExpired c.clock.seconds = true ∧ s.Commits c key k
      (removes → after.SameRecords (s.storage.setSlot c.db key .empty)) ∧
      (¬ removes → after.SameRecords s.storage)) ∧
    ∀ (s : Store) (now : Nat) (reqs : List (Call × Command)),
      (∀ q ∈ reqs, q.2.IsRead ∧ q.1.clock.seconds = now) →
        s.answers reqs = reqs.map fun q => (s.perform q.1 q.2).answer := by
  constructor
  · intro s c key k hk after removes
    constructor
    · rintro ⟨hexpired, hcommits⟩
      have h := hcommits.sameRecords_of_read hk
      rwa [Slot.live_of_isExpired hexpired] at h
    · intro h
      by_cases hcommits : s.Commits c key k
      · have hlive : (s.storage.slot c.db key).isExpired c.clock.seconds = false :=
          Bool.eq_false_iff.2 fun he => h ⟨he, hcommits⟩
        have hsame := hcommits.sameRecords_of_read hk
        rw [Slot.live_of_not_isExpired hlive] at hsame
        exact hsame.trans (Storage.sameRecords_setSlot_slot _ _ _)
      · exact sameRecords_of_not_commits hcommits
  · intro s now reqs hreads
    exact answers_of_lapsed ⟨rfl, rfl, fun db key => .inl rfl⟩ hreads

/-- An expired value, one that is cut short and one with a deadline that cannot be read. -/
theorem reads_pure_three :
    let storage := Storage.empty.setSlot 0 [97] ⟨some [55], some (Deadline.encode ⟨4, 1⟩)⟩
      |>.setSlot 0 [98] ⟨some [0, 0, 0, 0, 0, 0, 0, 1], none⟩
      |>.setSlot 0 [99] ⟨some [55], some [1, 2, 3]⟩
    let s : Store := .fresh {} storage
    let c : Call := .alone 0 ⟨5000, 0⟩ .none
    let reqs : List (Call × Command) :=
      [(c, .onKey [97] (.query .get)), (c, .onKey [99] (.lifetime .ttl)),
        (c, .onKey [97] (.lifetime .ttl)), (c, .onKey [98] (.query .llen)),
        (c, .onKey [97] (.query .get))]
    (s.perform c (.onKey [97] (.query .get))).store.storage.SameRecords
      (storage.setSlot 0 [97] .empty) ∧
    (s.perform c (.onKey [98] (.query .llen))).store.storage.SameRecords storage ∧
    (s.perform c (.onKey [99] (.lifetime .ttl))).store.storage.SameRecords storage ∧
    s.answers reqs = reqs.map fun q => (s.perform q.1 q.2).answer := by
  intro storage s c reqs
  obtain ⟨hrecords, hanswers⟩ := reads_pure
  obtain ⟨hexpired, -⟩ := hrecords s c [97] (.query .get) trivial
  obtain ⟨-, hcut⟩ := hrecords s c [98] (.query .llen) trivial
  obtain ⟨-, hmalformed⟩ := hrecords s c [99] (.lifetime .ttl) trivial
  have hpassed : (s.storage.slot c.db [97]).isExpired c.clock.seconds = true := by decide
  have hadmits : s.Admits c c.db [97] := ⟨rfl, rfl, by rfl, rfl⟩
  refine ⟨hexpired ⟨hpassed, hadmits.commits_of_isExpired rfl trivial hpassed⟩,
    hcut fun h => absurd h.1 (by decide), hmalformed fun h => absurd h.1 (by decide),
    hanswers s 5 reqs ?_⟩
  have hnow : c.clock.seconds = 5 := by decide
  simp only [reqs, List.forall_mem_cons]
  exact ⟨⟨trivial, hnow⟩, ⟨trivial, hnow⟩, ⟨trivial, hnow⟩, ⟨trivial, hnow⟩, ⟨trivial, hnow⟩,
    nofun⟩

end Store

end Keyspace
