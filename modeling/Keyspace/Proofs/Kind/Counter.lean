import Keyspace.Proofs.Kind
import Keyspace.Proofs.Kind.Apart
import Keyspace.Proofs.Record.Numeral

/-!
# Counters as integers

Each of the four changes of a counter adds a step to it (`Change.step?`), and fails if that leads
out of the range. `Counter.act` says so of the integer, and the changes do the same to any text that
is read as this integer (`Counter.kind`): the number that is written is read back at the next change
(`decode_encode`). Along runs a counter is therefore the sum of its first value and of the steps
that do not overflow (`Counter.moved`, `counter_adds_exactly`).
-/

namespace Keyspace

/-! ## Steps -/

namespace Change

variable {ch : Change} {d : Int}

/-- The step by which a change moves a counter, if it is one that does. -/
def step? : Change → Option Int
  | incr => some 1
  | decr => some (-1)
  | incrBy delta => some delta
  | decrBy delta => some (-delta)
  | _ => none

theorem moves_of_step (h : ch.step? = some d) : ch.Moves := by
  cases ch with
  | incr => exact .incr
  | decr => exact .decr
  | incrBy delta => exact .incrBy delta
  | decrBy delta => exact .decrBy delta
  | _ => cases h

theorem Moves.exists_step (h : ch.Moves) : ∃ d, ch.step? = some d := by
  cases h <;> exact ⟨_, rfl⟩

/-- To take something away is to add its negative. -/
theorem apply_of_step (h : ch.step? = some d) (key : Bytes) (value : Option Bytes) :
    ch.apply key value = Reply.via .number (Text.update (· + d) value) := by
  cases ch with
  | incr | decr | incrBy | decrBy =>
    cases h
    rfl
  | _ => cases h

end Change

namespace Counter

variable {first value : Option Bytes} {n d : Int} {ch : Change}

theorem fits_of_counter (h : Text.counter value = .ok n) : Fits n := by
  unfold Text.counter at h
  split at h
  · cases h
    exact ⟨by decide, by decide⟩
  · split at h
    · rename_i hdecode
      cases h
      exact (decode_eq_some_iff.1 hdecode).2
    · cases h

theorem counter_encode (h : Fits n) : Text.counter (some (encode n)) = .ok n := by
  rw [Text.counter, decode_encode h.1 h.2]

theorem update_of_counter (h : Text.counter value = .ok n) (d : Int) :
    Text.update (· + d) value = match fit? (n + d) with
      | some m => .ok (m, .put (encode m))
      | none => .error .overflow := by
  rw [Text.update, h]
  simp only [bind, Except.bind]
  cases fit? (n + d) <;> rfl

/-! ## Changes -/

/-- What a change answers and makes of an integer. -/
def act (n : Int) (ch : Change) : Except Error (Reply × Int) :=
  match ch.step? with
  | none => throw .wrongType
  | some d =>
    match fit? (n + d) with
    | some m => return (.number m, m)
    | none => throw .overflow

theorem act_of_step (h : ch.step? = some d) (n : Int) :
    act n ch = match fit? (n + d) with
      | some m => .ok (.number m, m)
      | none => .error .overflow := by
  rw [act, h]
  rfl

/-- The value is read as the integer. It is the first one, or the text of the integer. -/
def Holds (first : Option Bytes) (n : Int) (value : Option Bytes) : Prop :=
  Text.counter value = .ok n ∧ (value = first ∨ value = some (encode n))

theorem agree_step (h : Holds first n value) (hch : ch.step? = some d) (key : Bytes) :
    Agree (Follows (Holds first) value) (ch.apply key value) (act n ch) := by
  rw [Change.apply_of_step hch, update_of_counter h.1, act_of_step hch]
  cases hm : fit? (n + d) with
  | none => exact .error _
  | some m =>
    obtain ⟨rfl, hfits⟩ := fit?_eq_some_iff.1 hm
    exact .ok ⟨rfl, counter_encode hfits, .inr rfl⟩

/-- Integers as values, next to the one that was there first. -/
def kind (first : Option Bytes) : Kind Int where
  Changes := Change.Moves
  act := act
  size _ := 0
  Holds := Holds first
  grows _ := Nat.zero_le _
  refuses hch hshort := by
    rw [hch.shortcut] at hshort
    cases hshort
  agree key h _ hch _ := by
    obtain ⟨d, hd⟩ := hch.exists_step
    exact agree_step h hd key

/-! ## Sums -/

/-- The counter after steps that are made one after the other; a step out of the range is not
made. -/
def moved (n : Int) (steps : List Int) : Int := steps.foldl (fun n d => (fit? (n + d)).getD n) n

/-- As long as no sum is out of the range, all steps are made. -/
theorem moved_eq_sum {steps : List Int} (h : ∀ p, p <+: steps → Fits (n + p.sum)) :
    moved n steps = n + steps.sum := by
  induction steps generalizing n with
  | nil => exact (Int.add_zero n).symm
  | cons d steps ih =>
    have hd : Fits (n + d) := by simpa using h [d] ⟨steps, rfl⟩
    have htail : moved (n + d) steps = n + d + steps.sum := by
      refine ih fun p hp => ?_
      have hp' := h (d :: p) (List.cons_prefix_cons.2 ⟨rfl, hp⟩)
      rwa [List.sum_cons, ← Int.add_assoc] at hp'
    rw [moved, List.foldl_cons, fit?_of_fits hd, List.sum_cons, ← Int.add_assoc]
    exact htail

theorem next_of_step (h : ch.step? = some d) :
    (kind first).next n ch = (fit? (n + d)).getD n := by
  have hact : (kind first).act n ch = _ := act_of_step h n
  rw [Kind.next, hact]
  cases fit? (n + d) <;> rfl

/-- What changes make of a counter that all have a step. -/
theorem after_eq_moved {changes : List Change} {steps : List Int}
    (h : changes.map Change.step? = steps.map some) :
    (kind first).after n changes = moved n steps := by
  induction changes generalizing n steps with
  | nil =>
    obtain rfl := List.map_eq_nil_iff.1 h.symm
    rfl
  | cons ch changes ih =>
    obtain ⟨d, steps, rfl, hd, hsteps⟩ := List.map_eq_cons_iff.1 h.symm
    rw [Kind.after, List.foldl_cons, next_of_step hd.symm, moved, List.foldl_cons]
    exact ih hsteps.symm

/-! ## Runs -/

/-- Requests to a key without a deadline whose value is read as `n`, such that the changes of the
key among them that are admitted are changes of a counter, by these steps. -/
structure Adds (s : Store) (db : DbId) (key : Bytes) (value : Option Bytes) (n : Int)
    (reqs : List (Call × Command)) (steps : List Int) : Prop where
  slot : s.storage.slot db key = ⟨value, none⟩
  value : Text.counter value = .ok n
  tame : ∀ q ∈ reqs, Store.Tame db key q.1 q.2
  steps : (s.history db key reqs).map Change.step? = steps.map some

variable {s : Store} {c : Call} {db : DbId} {key : Bytes} {reqs : List (Call × Command)}
  {steps : List Int}

theorem Adds.keeps (h : Adds s db key value n reqs steps) :
    (kind value).Keeps s db key 0 value n reqs := by
  refine .of_slot h.slot ⟨h.value, .inl rfl⟩ h.tame (fun ch hch => ?_) fun _ _ => Nat.zero_le _
  have hmem : ch.step? ∈ steps.map some := h.steps ▸ List.mem_map_of_mem hch
  obtain ⟨d, -, hd⟩ := List.mem_map.1 hmem
  exact Change.moves_of_step hd.symm

theorem Adds.serve (h : Adds s db key value n reqs steps) :
    ∃ value', (s.serve reqs).storage.slot db key = ⟨value', none⟩ ∧
      Holds value (moved n steps) value' := by
  obtain ⟨value', hvalue, hslot, -⟩ := h.keeps.persistent h.slot
  rw [after_eq_moved h.steps] at hvalue
  exact ⟨value', hslot, hvalue⟩

/-- What comes of a step that is admitted. -/
theorem perform_of_step (hc : s.Admits c db key) (hslot : s.storage.slot db key = ⟨value, none⟩)
    (hvalue : Text.counter value = .ok n) (hch : ch.step? = some d) :
    s.perform c (.onKey key (.change ch)) = match fit? (n + d) with
      | some m => ⟨.ok (.number m), { s.ready db with
          storage := (s.storage.addTable db).setSlot db key ⟨some (encode m), none⟩ },
          c.interludes.total⟩
      | none => ⟨.error .overflow, s.ready db, c.interludes.total⟩ := by
  have hrun : (KeyCommand.change ch).run key c.clock (s.storage.slot db key) =
      match fit? (n + d) with
      | some m => .ok (.number m, ⟨some (encode m), none⟩)
      | none => .error .overflow := by
    rw [KeyCommand.run, hslot, Slot.settle_eq_live rfl, Slot.live_of_not_isExpired rfl]
    simp only [bind, Except.bind]
    rw [Change.apply_of_step hch, update_of_counter hvalue]
    cases fit? (n + d) <;> rfl
  rw [hc.perform (Change.moves_of_step hch).shortcut, hrun]
  cases fit? (n + d) <;> rfl

theorem perform_of_fits (hc : s.Admits c db key) (hslot : s.storage.slot db key = ⟨value, none⟩)
    (hvalue : Text.counter value = .ok n) (hch : ch.step? = some d) (hfits : Fits (n + d)) :
    s.answer c key (.change ch) = .ok (.number (n + d)) ∧
      (s.perform c (.onKey key (.change ch))).store.storage.slot db key =
        ⟨some (encode (n + d)), none⟩ := by
  rw [Store.answer, perform_of_step hc hslot hvalue hch, fit?_of_fits hfits]
  exact ⟨rfl, Storage.slot_setSlot_self _ _ _ _⟩

theorem fails_of_not_fits (hc : s.Admits c db key) (hslot : s.storage.slot db key = ⟨value, none⟩)
    (hvalue : Text.counter value = .ok n) (hch : ch.step? = some d) (hfits : ¬ Fits (n + d)) :
    s.Fails c key (.change ch) .overflow := by
  have hperform := perform_of_step hc hslot hvalue hch
  rw [fit?_of_not_fits hfits] at hperform
  constructor
  · rw [hperform]
  · rw [hperform]
    exact Storage.sameRecords_addTable s.storage db

/-- What is taken away from a counter is added to it as a negative number. -/
theorem perform_decrBy (s : Store) (c : Call) (key : Bytes) (d : Int) :
    s.perform c (.onKey key (.change (.decrBy d))) =
      s.perform c (.onKey key (.change (.incrBy (-d)))) := rfl

/-- The negative of the least counter is too large for any counter but a negative one. -/
theorem fits_sub_least_iff (h : Fits n) : Fits (n + -least) ↔ n < 0 := by
  simp only [Fits, least, greatest] at *
  omega

/-- **Counters are added up exactly.** Whatever is asked of the store, as long as the changes of a
key without a deadline are steps of a counter, the value is read as the sum of the first number and
of all steps that led to a number within the range; if none led out of it, this is the sum of all.
It is as it was at first, or it is the text of this number. The next step answers the sum with it
and writes the text of that, or it overflows and changes no record. To take a number away is the
same as to add its negative, and the least of all can be taken from the negative counters only. -/
theorem counter_adds_exactly {value : Option Bytes} {n : Int}
    (h : Adds s db key value n reqs steps) :
    let t := s.serve reqs
    let m := moved n steps
    ((∀ p, p <+: steps → Fits (n + p.sum)) → m = n + steps.sum) ∧
    (∃ value', t.storage.slot db key = ⟨value', none⟩ ∧ Holds value m value') ∧
    (∀ c d, t.perform c (.onKey key (.change (.decrBy d))) =
      t.perform c (.onKey key (.change (.incrBy (-d))))) ∧
    ∀ c, s.Admits c db key →
      (∀ ch d, ch.step? = some d →
        (Fits (m + d) → t.answer c key (.change ch) = .ok (.number (m + d)) ∧
          (t.perform c (.onKey key (.change ch))).store.storage.slot db key =
            ⟨some (encode (m + d)), none⟩) ∧
        (¬ Fits (m + d) → t.Fails c key (.change ch) .overflow)) ∧
      ((∃ r, t.answer c key (.change (.decrBy least)) = .ok r) ↔ m < 0) := by
  intro t m
  obtain ⟨value', hslot, hholds⟩ := h.serve
  refine ⟨moved_eq_sum, ⟨value', hslot, hholds⟩, fun c d => perform_decrBy t c key d,
    fun c hc => ?_⟩
  have hadmits : t.Admits c db key := h.keeps.admits hc
  refine ⟨fun ch d hch => ⟨perform_of_fits hadmits hslot hholds.1 hch,
    fails_of_not_fits hadmits hslot hholds.1 hch⟩, ?_⟩
  have hleast : (Change.decrBy least).step? = some (-least) := rfl
  rw [← fits_sub_least_iff (fits_of_counter hholds.1)]
  constructor
  · rintro ⟨r, hr⟩
    by_contra hover
    have herror := (fails_of_not_fits hadmits hslot hholds.1 hleast hover).answer
    rw [Store.answer, herror] at hr
    cases hr
  · exact fun hm => ⟨_, (perform_of_fits hadmits hslot hholds.1 hleast hm).1⟩

/-- From the text `+007` on, with a step too far up and one too far down, to the number `-1`, from
which the least counter can be taken. -/
theorem counter_adds_exactly_extremes :
    let key : Bytes := [107]
    let first : Bytes := [43, 48, 48, 55]
    let s : Store := .fresh {} (Storage.empty.setSlot 0 key ⟨some first, none⟩)
    let c : Call := .alone 0 ⟨1000, 0⟩ .none
    let reqs : List (Call × Command) := [
      (c, .onKey key (.change (.incrBy greatest))),
      (c, .onKey key (.change (.decrBy 8))),
      (c, .onKey [108] (.change .incr)),
      (c, .onKey key (.change (.decrBy greatest))),
      (c, .onKey key (.change .decr)),
      (c, .onKey key (.query .get)),
      (c, .onKey key (.change (.incrBy greatest)))]
    let steps := [greatest, -8, -greatest, -1, greatest]
    let t := s.serve reqs
    Adds s 0 key (some first) 7 reqs steps ∧ moved 7 steps = -1 ∧
      t.answer c key (.change (.decrBy least)) = .ok (.number greatest) ∧
      (t.perform c (.onKey key (.change (.decrBy least)))).store.storage.slot 0 key =
        ⟨some (encode greatest), none⟩ ∧
      t.Fails c key (.change (.incrBy least)) .overflow := by
  intro key first s c reqs steps t
  have hadds : Adds s 0 key (some first) 7 reqs steps := by
    refine ⟨by rfl, by rfl, ?_, by rfl⟩
    have haside : Store.Tame 0 key c (.onKey [108] (.change .incr)) :=
      .aside (.onKey _) (by decide)
    simp only [reqs, List.forall_mem_cons]
    exact ⟨.change _ rfl, .change _ rfl, haside, .change _ rfl, .change _ rfl, .read _ trivial,
      .change _ rfl, List.forall_mem_nil _⟩
  have hmoved : moved 7 steps = -1 := by decide
  obtain ⟨-, -, -, h⟩ := counter_adds_exactly hadds
  obtain ⟨hstep, -⟩ := h c ⟨rfl, rfl, by rfl, rfl⟩
  rw [hmoved] at hstep
  obtain ⟨hanswer, hslot⟩ := (hstep (.decrBy least) (-least) rfl).1 (by decide)
  exact ⟨hadds, hmoved, hanswer, hslot, (hstep (.incrBy least) least rfl).2 (by decide)⟩

end Counter

end Keyspace
