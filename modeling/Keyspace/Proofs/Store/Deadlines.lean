import Keyspace.Proofs.Kind

/-!
# Two ways to set a deadline

A key is given a deadline by a duration or by the point in time at which it ends. Both commands look
at the key and at the deadline in their own order and with their own limits, and word their refusals
differently. For a duration that is positive either command is `Slot.expiring`, up to the refusal
(`Lifetime.run_expire`, `Lifetime.run_expireAt`), and a duration below zero is turned down by both.
So the commands do the same on every store: `Store.expire_agrees_with_expireAt`.
-/

namespace Keyspace

/-- The failure without the words that say why a time cannot be set. -/
def Error.bare : Error → Error
  | invalidTtl _ => .invalidTtl ""
  | e => e

namespace Deadline

/-- The deadline after a positive time, unless that is too long. -/
def after (now : Nat) (seconds : Int) (r : Refusal) : Except Refusal Deadline :=
  if maxTtl < seconds then .error r else .ok ⟨now + seconds.toNat, now⟩

theorem ofDuration_eq_after {now : Nat} {seconds : Int} (hpos : 0 < seconds) :
    ofDuration now seconds = after now seconds (.durationTooLong seconds) :=
  if_neg (by omega)

/-- The clock is so far from the end of 64 bits that the furthest second is not held there. -/
theorem ofTimestamp_eq_after {clock : Clock} {seconds : Int} (hpos : 0 < seconds) :
    ofTimestamp clock.seconds (clock.seconds + seconds) =
      after clock.seconds seconds (.timestampTooFar (clock.seconds + seconds)) := by
  have hclock := clock.seconds_le
  have hheld : min (clock.seconds + maxTtl) 0xffffffffffffffff = clock.seconds + maxTtl := by
    unfold maxTtl
    omega
  have hfar : ((clock.seconds + maxTtl : Nat) : Int) < clock.seconds + seconds ↔
      (maxTtl : Int) < seconds := by
    omega
  have hseconds : ((clock.seconds : Int) + seconds).toNat = clock.seconds + seconds.toNat := by
    omega
  rw [ofTimestamp, if_neg (by omega)]
  simp only [hheld, hfar, hseconds, after]

end Deadline

namespace Slot

/-- What becomes of a slot, and what is answered, when its key is to expire after a positive time.
The refusal says why the time is too long. -/
def expiring (key : Bytes) (now : Nat) (seconds : Int) (r : Deadline.Refusal) (s : Slot) :
    Except Error (Reply × Slot) :=
  if s.isMalformed then .error (malformed key)
  else if (s.live now).value.isNone then .ok (.flag false, s.live now)
  else if Deadline.maxTtl < seconds then .error r.toError
  else .ok (.flag true, { s.live now with
    deadline := some (Deadline.encode ⟨now + seconds.toNat, now⟩) })

/-- The key is there at `now`, with no deadline or one that can be read. -/
def Present (s : Slot) (now : Nat) : Prop := s.isMalformed = false ∧ ¬ s.Absent now

section Expiring

variable (key : Bytes) (now : Nat) (seconds : Int) (r : Deadline.Refusal) (s : Slot)

/-- Only the words of a failure tell two refusals apart. -/
theorem expiring_bare (r' : Deadline.Refusal) :
    (s.expiring key now seconds r).mapError Error.bare =
      (s.expiring key now seconds r').mapError Error.bare := by
  unfold expiring
  split
  · rfl
  · split
    · rfl
    · split <;> rfl

/-- The answer to a request for a deadline so many seconds ahead: the time is refused just if the
key is there and the time is longer than allowed, and the deadline is set just if the key is there
and the time lies ahead and is not longer than allowed. -/
structure Tells (s : Slot) (now : Nat) (seconds : Int) (answer : Except Error Reply) : Prop where
  refused : (∃ why, answer = .error (.invalidTtl why)) ↔
    s.Present now ∧ Deadline.maxTtl < seconds
  granted : answer = .ok (.flag true) ↔
    s.Present now ∧ 0 < seconds ∧ seconds ≤ Deadline.maxTtl

variable {seconds}

theorem tells_of_neg (hneg : seconds < 0) : s.Tells now seconds (.ok (.flag false)) :=
  ⟨⟨nofun, fun h => by omega⟩, ⟨nofun, fun h => by omega⟩⟩

theorem tells_of_not_present {answer : Except Error Reply} (habsent : ¬ s.Present now)
    (hrefused : ∀ why, answer ≠ .error (.invalidTtl why)) (hgranted : answer ≠ .ok (.flag true)) :
    s.Tells now seconds answer :=
  ⟨⟨fun ⟨why, h⟩ => absurd h (hrefused why), fun h => absurd h.1 habsent⟩,
    ⟨fun h => absurd h hgranted, fun h => absurd h.1 habsent⟩⟩

theorem tells_expiring (hpos : 0 < seconds) :
    s.Tells now seconds ((s.expiring key now seconds r).map (·.1)) := by
  unfold expiring
  split
  · rename_i hmalformed
    have habsent : ¬ s.Present now := fun h => by simp [h.1] at hmalformed
    exact tells_of_not_present now s habsent nofun nofun
  · rename_i hmalformed
    split
    · rename_i hnone
      have habsent : ¬ s.Present now := fun h => h.2 (Option.isNone_iff_eq_none.1 hnone)
      exact tells_of_not_present now s habsent nofun nofun
    · rename_i hsome
      have hpresent : s.Present now :=
        ⟨by simpa using hmalformed, fun h => hsome (Option.isNone_iff_eq_none.2 h)⟩
      split
      · rename_i hfar
        exact ⟨⟨fun _ => ⟨hpresent, hfar⟩, fun _ => ⟨_, rfl⟩⟩, ⟨nofun, fun h => by omega⟩⟩
      · rename_i hnear
        exact ⟨⟨nofun, fun h => absurd h.2 hnear⟩,
          ⟨fun _ => ⟨hpresent, hpos, Int.not_lt.1 hnear⟩, fun _ => rfl⟩⟩

end Expiring

end Slot

namespace Lifetime

open Slot

variable {key : Bytes} {clock : Clock} {seconds : Int} {s : Slot}

/-- To settle a slot and to restrict it then. -/
theorem restrict_settle_eq_expiring (s : Slot) (key : Bytes) (now : Nat) (seconds : Int)
    (r : Deadline.Refusal) :
    (do
      let t ← s.settle key now
      let (b, t) ← restrict (Deadline.after now seconds r) t
      return (Reply.flag b, t)) = s.expiring key now seconds r := by
  unfold expiring
  cases hmalformed : s.isMalformed with
  | true =>
    rw [settle, if_pos hmalformed]
    rfl
  | false =>
    rw [settle_eq_live hmalformed]
    simp only [bind, Except.bind, restrict, Deadline.after]
    cases (s.live now).value with
    | none => rfl
    | some value =>
      by_cases hfar : (Deadline.maxTtl : Int) < seconds <;> simp [hfar, pure, Except.pure]

theorem run_expire (hpos : 0 < seconds) :
    run key clock s (.expire seconds) =
      s.expiring key clock.seconds seconds (.durationTooLong seconds) := by
  rw [run, Deadline.ofDuration_eq_after hpos, restrict_settle_eq_expiring]

theorem run_expireAt (hpos : 0 < seconds) :
    run key clock s (.expireAt (clock.seconds + seconds)) =
      s.expiring key clock.seconds seconds (.timestampTooFar (clock.seconds + seconds)) := by
  have hahead : ¬ (clock.seconds : Int) + seconds ≤ clock.seconds := by omega
  rw [run, if_neg hahead, Deadline.ofTimestamp_eq_after hpos, restrict_settle_eq_expiring]

end Lifetime

namespace Store

variable {s : Store} {c : Call} {db : DbId} {key : Bytes} {l l' : Lifetime}

/-- A command on a deadline answers as it runs on the slot of its key. -/
theorem Admits.answer_lifetime (h : s.Admits c db key)
    (hshort : (KeyCommand.lifetime l).shortcut = none) :
    s.answer c key (.lifetime l) = (l.run key c.clock (s.storage.slot db key)).map (·.1) := by
  rw [answer, h.perform hshort, KeyCommand.run]
  cases l.run key c.clock (s.storage.slot db key) with
  | error e => rfl
  | ok p =>
    have hfinish : (KeyCommand.lifetime l).finish p.1 = .ok p.1 := if_neg (by simp)
    exact hfinish

/-- Commands on a deadline that do the same but for the words of a failure give the same answer, up
to these words, and leave the same store. -/
theorem Admits.lifetime_congr (h : s.Admits c db key)
    (hshort : (KeyCommand.lifetime l).shortcut = none)
    (hshort' : (KeyCommand.lifetime l').shortcut = none)
    (hrun : (l.run key c.clock (s.storage.slot db key)).mapError Error.bare =
      (l'.run key c.clock (s.storage.slot db key)).mapError Error.bare) :
    (s.answer c key (.lifetime l)).mapError Error.bare =
        (s.answer c key (.lifetime l')).mapError Error.bare ∧
      (s.perform c (.onKey key (.lifetime l))).store =
        (s.perform c (.onKey key (.lifetime l'))).store := by
  rw [h.answer_lifetime hshort, h.answer_lifetime hshort', h.perform hshort, h.perform hshort',
    KeyCommand.run, KeyCommand.run]
  generalize l.run key c.clock (s.storage.slot db key) = x at hrun ⊢
  generalize l'.run key c.clock (s.storage.slot db key) = y at hrun ⊢
  cases x with
  | error e =>
    cases y with
    | error e' => exact ⟨congrArg Except.error (Except.error.inj hrun), rfl⟩
    | ok q => cases hrun
  | ok p =>
    cases y with
    | error e' => cases hrun
    | ok q =>
      obtain rfl : p = q := Except.ok.inj hrun
      exact ⟨rfl, rfl⟩

/-- A duration below zero is turned down by its sign. -/
theorem Admits.expire_of_neg (h : s.Admits c db key) {seconds : Int} (hneg : seconds < 0) :
    s.perform c (.onKey key (.lifetime (.expire seconds))) = ⟨.ok (.flag false), s, .none⟩ := by
  have hshort : (KeyCommand.lifetime (.expire seconds)).shortcut = some (.ok (.flag false)) :=
    if_pos hneg
  exact perform_of_shortcut h.isKey hshort s

/-- A point in time that has passed is turned down by a transaction that stores the slot as it
is. -/
theorem Admits.expireAt_of_passed (h : s.Admits c db key) {timestamp : Int}
    (hpassed : timestamp ≤ c.clock.seconds) :
    s.answer c key (.lifetime (.expireAt timestamp)) = .ok (.flag false) ∧
      Storage.SameRecords
        (s.perform c (.onKey key (.lifetime (.expireAt timestamp)))).store.storage s.storage := by
  have hrun : (KeyCommand.lifetime (.expireAt timestamp)).run key c.clock
      (s.storage.slot db key) = .ok (.flag false, s.storage.slot db key) := by
    rw [KeyCommand.run, Lifetime.run, if_pos hpassed]
    rfl
  have hrecords : Storage.SameRecords
      ((s.storage.addTable db).setSlot db key (s.storage.slot db key)) s.storage :=
    ((Storage.sameRecords_addTable s.storage db).setSlot db key _).trans
      (Storage.sameRecords_setSlot_slot s.storage db key)
  rw [Store.answer, h.perform rfl, hrun]
  exact ⟨rfl, hrecords⟩

/-- **A duration and the time at which it ends set the same deadline.** Whatever is stored, for a
duration that is not zero both commands give the same answer, up to the words of a refusal, and
leave the same records in every tree. The time is refused just if the key is there and the time is
longer than allowed. -/
theorem expire_agrees_with_expireAt (h : s.Admits c db key) {seconds : Int} (hne : seconds ≠ 0) :
    let relative := s.perform c (.onKey key (.lifetime (.expire seconds)))
    let absolute := s.perform c (.onKey key (.lifetime (.expireAt (c.clock.seconds + seconds))))
    relative.answer.mapError Error.bare = absolute.answer.mapError Error.bare ∧
    Storage.SameRecords absolute.store.storage relative.store.storage ∧
    (s.storage.slot db key).Tells c.clock.seconds seconds relative.answer ∧
    (s.storage.slot db key).Tells c.clock.seconds seconds absolute.answer := by
  intro relative absolute
  rcases Int.lt_or_gt_of_ne hne with hneg | hpos
  · have hrelative : relative = ⟨.ok (.flag false), s, .none⟩ := h.expire_of_neg hneg
    have hpassed : (c.clock.seconds : Int) + seconds ≤ c.clock.seconds := by omega
    obtain ⟨hanswer, hrecords⟩ := h.expireAt_of_passed hpassed
    have habsolute : absolute.answer = .ok (.flag false) := hanswer
    have htells := (s.storage.slot db key).tells_of_neg c.clock.seconds hneg
    rw [hrelative, habsolute]
    exact ⟨rfl, hrecords, htells, htells⟩
  · have hshort : (KeyCommand.lifetime (.expire seconds)).shortcut = none := if_neg (by omega)
    have hrelative : relative.answer = _ := h.answer_lifetime hshort
    have habsolute : absolute.answer = _ :=
      h.answer_lifetime (l := .expireAt (c.clock.seconds + seconds)) rfl
    have hrun : (Lifetime.run key c.clock (s.storage.slot db key) (.expire seconds)).mapError
        Error.bare = (Lifetime.run key c.clock (s.storage.slot db key)
          (.expireAt (c.clock.seconds + seconds))).mapError Error.bare := by
      rw [Lifetime.run_expire hpos, Lifetime.run_expireAt hpos, Slot.expiring_bare]
    obtain ⟨hsame, hstore⟩ := h.lifetime_congr hshort rfl hrun
    rw [Lifetime.run_expire hpos] at hrelative
    rw [Lifetime.run_expireAt hpos] at habsolute
    refine ⟨hsame, ?_, ?_, ?_⟩
    · rw [hstore]
      exact .refl _
    · rw [hrelative]
      exact Slot.tells_expiring key _ _ _ hpos
    · rw [habsolute]
      exact Slot.tells_expiring key _ _ _ hpos

/-- The longest time and one second more for a key without a deadline, and some time for a key that
has expired. -/
theorem expire_agrees_with_expireAt_longest :
    let storage := Storage.empty.setSlot 0 [97] ⟨some [1], none⟩
      |>.setSlot 0 [98] ⟨some [2], some (Deadline.encode ⟨9, 1⟩)⟩
    let s : Store := .fresh {} storage
    let c : Call := .alone 0 ⟨10000, 0⟩ .none
    s.Admits c 0 [97] ∧ s.Admits c 0 [98] ∧
      s.answer c [97] (.lifetime (.expireAt (c.clock.seconds + Deadline.maxTtl))) =
        .ok (.flag true) ∧
      (∃ why, s.answer c [97] (.lifetime (.expire (Deadline.maxTtl + 1))) =
        .error (.invalidTtl why)) ∧
      s.answer c [98] (.lifetime (.expire 5)) ≠ .ok (.flag true) ∧
      Storage.SameRecords
        (s.perform c (.onKey [98] (.lifetime (.expireAt (c.clock.seconds + 5))))).store.storage
        (s.perform c (.onKey [98] (.lifetime (.expire 5)))).store.storage := by
  intro storage s c
  have hthere : s.Admits c 0 [97] := ⟨rfl, rfl, by rfl, rfl⟩
  have hexpired : s.Admits c 0 [98] := ⟨rfl, rfl, by rfl, rfl⟩
  have hpresent : (s.storage.slot 0 [97]).Present c.clock.seconds := ⟨by rfl, nofun⟩
  have habsent : ¬ (s.storage.slot 0 [98]).Present c.clock.seconds := fun h =>
    h.2 (Slot.absent_of_isExpired (by decide))
  obtain ⟨-, -, -, hlongest⟩ :=
    expire_agrees_with_expireAt hthere (show (Deadline.maxTtl : Int) ≠ 0 by decide)
  obtain ⟨-, -, hlonger, -⟩ :=
    expire_agrees_with_expireAt hthere (show (Deadline.maxTtl + 1 : Int) ≠ 0 by decide)
  obtain ⟨-, hrecords, hanswer, -⟩ :=
    expire_agrees_with_expireAt hexpired (show (5 : Int) ≠ 0 by decide)
  exact ⟨hthere, hexpired, hlongest.granted.2 ⟨hpresent, by decide, Int.le_refl _⟩,
    hlonger.refused.2 ⟨hpresent, by decide⟩, fun h => habsent (hanswer.granted.1 h).1, hrecords⟩

end Store

end Keyspace
