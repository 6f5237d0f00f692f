import Keyspace.Proofs.Storage.Sound
import Mathlib.Algebra.Group.Nat.Defs

/-!
# The status of a key

A key is absent, stays, or has a deadline ahead. `Slot.Status` says which, together with the seconds
and the milliseconds that are left: of these the commands on remaining times tell (`Status.seconds`,
`Status.millis`), with `-2` for a key that is absent and `-1` for one that stays.

Whether a key is live is decided in whole seconds, and the milliseconds are counted from the exact
time. The two never disagree: a key with a deadline ahead has at least a millisecond left, and the
seconds left are the milliseconds left, rounded up (`Status.times`). The commands count with numbers
of 64 bits that wrap around, and tell the time left of a deadline that is `Slot.Near`.
-/

namespace Keyspace

/-! ## Time left -/

namespace Lifetime

variable {d : Deadline} {s : Slot} {left : Deadline → Int}

/-- The difference of two numbers that are not negative does not wrap around. -/
theorem toInt_sub_of_nonneg {x y : Int64} (hx : 0 ≤ x.toInt) (hy : 0 ≤ y.toInt) :
    (x - y).toInt = x.toInt - y.toInt := by
  have hxlt := x.toInt_lt
  have hylt := y.toInt_lt
  rw [Int64.toInt_sub, Int.bmod_eq_of_le (by omega) (by omega)]

theorem secondsLeft_eq (clock : Clock) (h : d.expiresAt * 1000 < 2 ^ 63) :
    secondsLeft clock d = d.expiresAt - clock.seconds := by
  have hdue : (Int64.ofNat d.expiresAt).toInt = d.expiresAt := Int64.toInt_ofNat_of_lt (by omega)
  have hnow : (Int64.ofNat clock.seconds).toInt = clock.seconds :=
    Int64.toInt_ofNat_of_lt (by have := clock.seconds_le; omega)
  rw [secondsLeft, toInt_sub_of_nonneg (by omega) (by omega), hdue, hnow]

theorem toInt_dueMillis (h : d.expiresAt * 1000 < 2 ^ 63) :
    (dueMillis d).toInt = d.expiresAt * 1000 := by
  have hdue : (Int64.ofNat d.expiresAt).toInt = d.expiresAt := Int64.toInt_ofNat_of_lt (by omega)
  rw [dueMillis, hdue, Int64.toInt_ofIntClamp
    (by rw [Int64.toInt_minValue]; omega) (by rw [Int64.toInt_maxValue]; omega)]

theorem millisLeft_eq (clock : Clock) (h : d.expiresAt * 1000 < 2 ^ 63) :
    millisLeft clock d = d.expiresAt * 1000 - clock.millis := by
  have hnow : (Int64.ofNat clock.millis).toInt = clock.millis :=
    Int64.toInt_ofNat_of_lt clock.millis_lt
  have hdue := toInt_dueMillis h
  rw [millisLeft, toInt_sub_of_nonneg (by omega) (by omega), hdue, hnow]

/-- Of a deadline that is not so near the numbers say little: they wrap around, or it seems to have
passed. -/
example : secondsLeft ⟨1000, 0⟩ ⟨2 ^ 63, 0⟩ = 2 ^ 63 - 1 ∧
    secondsLeft ⟨1000, 0⟩ ⟨2 ^ 64 - 1, 0⟩ = -2 := by decide

theorem remaining_of_absent (h : s.value = none) : remaining left s = -2 := by
  rw [remaining, h]
  rfl

theorem remaining_of_persistent (hv : s.value.isSome = true) (hd : s.deadline? = none) :
    remaining left s = -1 := by
  rw [remaining, if_neg (by simpa [Option.isSome_iff_ne_none] using hv), hd]
  rfl

theorem remaining_of_pos (hv : s.value.isSome = true) (hd : s.deadline? = some d)
    (hpos : 1 ≤ left d) : remaining left s = left d := by
  rw [remaining, if_neg (by simpa [Option.isSome_iff_ne_none] using hv), hd]
  exact if_neg (by omega)

end Lifetime

/-! ## The status of a slot -/

namespace Slot

variable {clock : Clock} {s : Slot} {ttl pttl : Int}

/-- How a key stands at the time of a clock, with the seconds and the milliseconds that it has
left. -/
inductive Status (clock : Clock) (s : Slot) : Int → Int → Prop
  | absent (h : s.Absent clock.seconds) : Status clock s (-2) (-2)
  | persistent (there : s.value.isSome = true) (h : s.deadline = none) : Status clock s (-1) (-1)
  | limited {d : Deadline} (there : s.value.isSome = true) (h : s.deadline? = some d)
    (ahead : clock.seconds < d.expiresAt) :
    Status clock s (d.expiresAt - clock.seconds) (d.expiresAt * 1000 - clock.millis)

theorem isExpired_of_deadline {d : Deadline} (h : s.deadline? = some d) (now : Nat) :
    s.isExpired now = decide (d.expiresAt ≤ now) := by
  rw [isExpired, h]
  rfl

theorem isExpired_of_none (h : s.deadline = none) (now : Nat) : s.isExpired now = false := by
  rw [isExpired, deadline?, h]
  rfl

theorem exists_status {db : DbId} {key : Bytes} (h : s.Sound db key) (clock : Clock) :
    ∃ ttl pttl, s.Status clock ttl pttl := by
  cases hv : s.value with
  | none => exact ⟨_, _, .absent (absent_of_value hv)⟩
  | some value =>
    have there : s.value.isSome = true := by rw [hv]; rfl
    cases hd : s.deadline with
    | none => exact ⟨_, _, .persistent there hd⟩
    | some record =>
      obtain ⟨d, hdec, -⟩ := h.deadline record hd
      have hdeadline : s.deadline? = some d := by rw [deadline?, hd, Option.bind_some, hdec]
      rcases Nat.lt_or_ge clock.seconds d.expiresAt with hahead | hpast
      · exact ⟨_, _, .limited there hdeadline hahead⟩
      · exact ⟨_, _, .absent (absent_of_isExpired (by simpa [isExpired_of_deadline hdeadline]))⟩

/-- The deadline of a sound slot is not before its making, and not too far after it. -/
theorem Sound.bounds {db : DbId} {key : Bytes} {d : Deadline} (h : s.Sound db key)
    (hd : s.deadline? = some d) :
    d.createdAt ≤ d.expiresAt ∧ d.expiresAt ≤ d.createdAt + Deadline.maxTtl := by
  obtain ⟨record, hrecord, hdec⟩ := Option.bind_eq_some_iff.1 hd
  obtain ⟨d', hdec', hbounds⟩ := h.deadline record hrecord
  obtain rfl := Option.some.inj (hdec.symm.trans hdec')
  exact hbounds

/-- The deadline of the slot is so near that its milliseconds fit 64 bits. -/
def Near (s : Slot) : Prop := ∀ d, s.deadline? = some d → d.expiresAt * 1000 < 2 ^ 63

namespace Status

/-- A key that is not absent counts as it is stored. -/
theorem live_eq (h : s.Status clock ttl pttl) (hne : ttl ≠ -2) : s.live clock.seconds = s := by
  cases h with
  | absent => exact absurd rfl hne
  | persistent _ h => exact live_of_not_isExpired (isExpired_of_none h _)
  | limited _ h ahead =>
    refine live_of_not_isExpired ?_
    rw [isExpired_of_deadline h]
    exact decide_eq_false (by omega)

/-- To look does not change the status. -/
theorem live (h : s.Status clock ttl pttl) : (s.live clock.seconds).Status clock ttl pttl := by
  by_cases hne : ttl = -2
  · cases h with
    | absent h => exact .absent (absent_of_value h)
    | persistent => cases hne
    | limited _ _ ahead => omega
  · rw [h.live_eq hne]
    exact h

theorem absent_iff (h : s.Status clock ttl pttl) : ttl = -2 ↔ s.Absent clock.seconds := by
  constructor
  · rintro rfl
    generalize hm : (-2 : Int) = m at h
    cases h with
    | absent h => exact h
    | persistent => cases hm
    | limited _ _ ahead => omega
  · intro ha
    by_cases hne : ttl = -2
    · exact hne
    · rw [Absent, h.live_eq hne] at ha
      cases h with
      | absent => rfl
      | persistent there | limited there =>
        rw [ha] at there
        cases there

/-- Either both times are `-2`, or both are `-1`, or both are positive and the seconds are the
milliseconds rounded up. -/
theorem times (h : s.Status clock ttl pttl) :
    (ttl = -2 ∧ pttl = -2) ∨ (ttl = -1 ∧ pttl = -1) ∨
      (1 ≤ ttl ∧ 1 ≤ pttl ∧ ttl = (pttl + 999) / 1000) := by
  cases h with
  | absent => exact .inl ⟨rfl, rfl⟩
  | persistent => exact .inr (.inl ⟨rfl, rfl⟩)
  | limited _ _ ahead =>
    -- the second of the deadline has not begun, so at least a millisecond is left of this one
    have hsec : clock.seconds = clock.millis / 1000 := rfl
    exact .inr (.inr ⟨by omega, by omega, by omega⟩)

theorem millis_absent_iff (h : s.Status clock ttl pttl) : ttl = -2 ↔ pttl = -2 := by
  have := h.times
  omega

theorem millis_persistent_iff (h : s.Status clock ttl pttl) : ttl = -1 ↔ pttl = -1 := by
  have := h.times
  omega

theorem limited_eq (h : s.Status clock ttl pttl) (habsent : ttl ≠ -2) (hpersistent : ttl ≠ -1) :
    1 ≤ ttl ∧ 1 ≤ pttl ∧ ttl = (pttl + 999) / 1000 := by
  have := h.times
  omega

theorem persistent_iff (h : s.Status clock ttl pttl) :
    ttl = -1 ↔ s.value.isSome = true ∧ s.deadline = none := by
  cases h with
  | absent h =>
    refine ⟨nofun, fun ⟨there, hd⟩ => ?_⟩
    rw [Absent, live_of_not_isExpired (isExpired_of_none hd _)] at h
    rw [h] at there
    cases there
  | persistent there h => exact ⟨fun _ => ⟨there, h⟩, fun _ => rfl⟩
  | limited _ h ahead =>
    refine ⟨fun he => ?_, fun ⟨_, hd⟩ => ?_⟩
    · omega
    · rw [deadline?, hd] at h
      cases h

theorem seconds (h : s.Status clock ttl pttl) (hnear : s.Near) :
    Lifetime.remaining (Lifetime.secondsLeft clock) (s.live clock.seconds) = ttl := by
  by_cases hne : ttl = -2
  · rw [Lifetime.remaining_of_absent (h.absent_iff.1 hne), hne]
  · rw [h.live_eq hne]
    cases h with
    | absent => exact absurd rfl hne
    | persistent there h =>
      exact Lifetime.remaining_of_persistent there (by rw [deadline?, h]; rfl)
    | limited there h ahead =>
      have hleft := Lifetime.secondsLeft_eq clock (hnear _ h)
      rw [Lifetime.remaining_of_pos there h (by omega), hleft]

theorem millis (h : s.Status clock ttl pttl) (hnear : s.Near) :
    Lifetime.remaining (Lifetime.millisLeft clock) (s.live clock.seconds) = pttl := by
  by_cases hne : ttl = -2
  · rw [Lifetime.remaining_of_absent (h.absent_iff.1 hne), h.millis_absent_iff.1 hne]
  · rw [h.live_eq hne]
    cases h with
    | absent => exact absurd rfl hne
    | persistent there h =>
      exact Lifetime.remaining_of_persistent there (by rw [deadline?, h]; rfl)
    | limited there h ahead =>
      have hleft := Lifetime.millisLeft_eq clock (hnear _ h)
      have hsec : clock.seconds = clock.millis / 1000 := rfl
      rw [Lifetime.remaining_of_pos there h (by omega), hleft]

/-! ## The status commands -/

variable (key : Bytes)

theorem isSome_live (h : s.Status clock ttl pttl) :
    (s.live clock.seconds).value.isSome = decide (ttl ≠ -2) := by
  rw [Bool.eq_iff_iff, decide_eq_true_eq, Option.isSome_iff_ne_none, Ne, Ne, h.absent_iff, Absent]

theorem run_isPresent (h : s.Status clock ttl pttl) (hread : s.isMalformed = false) :
    KeyCommand.run key clock s (.query .isPresent) =
      .ok (.flag (decide (ttl ≠ -2)), s.live clock.seconds) := by
  rw [KeyCommand.run, settle_eq_live hread, ← h.isSome_live]
  rfl

theorem run_get (hread : s.isMalformed = false) :
    KeyCommand.run key clock s (.query .get) =
      .ok (.bytes? (s.live clock.seconds).value, s.live clock.seconds) := by
  rw [KeyCommand.run, settle_eq_live hread]
  rfl

theorem run_ttl (h : s.Status clock ttl pttl) (hread : s.isMalformed = false) (hnear : s.Near) :
    KeyCommand.run key clock s (.lifetime .ttl) = .ok (.number ttl, s.live clock.seconds) := by
  rw [KeyCommand.run, Lifetime.run, settle_eq_live hread, ← h.seconds hnear]
  rfl

theorem run_pttl (h : s.Status clock ttl pttl) (hread : s.isMalformed = false) (hnear : s.Near) :
    KeyCommand.run key clock s (.lifetime .pttl) = .ok (.number pttl, s.live clock.seconds) := by
  rw [KeyCommand.run, Lifetime.run, settle_eq_live hread, ← h.millis hnear]
  rfl

theorem isSome_value (h : s.Status clock ttl pttl) (hne : ttl ≠ -2) : s.value.isSome = true := by
  cases h with
  | absent => exact absurd rfl hne
  | persistent there | limited there => exact there

theorem release_eq (h : s.Status clock ttl pttl) (hne : ttl ≠ -2) :
    Lifetime.release s = (decide (ttl ≠ -1), { s with deadline := none }) := by
  have hvalue : ¬ s.value.isNone = true := by
    simpa [Option.isSome_iff_ne_none] using h.isSome_value hne
  rw [Lifetime.release, if_neg hvalue]
  cases h with
  | absent => exact absurd rfl hne
  | persistent _ h =>
    rw [h]
    rfl
  | limited _ h ahead =>
    have hsome : s.deadline.isSome = true := by
      rw [Option.isSome_iff_ne_none]
      intro hd
      rw [deadline?, hd] at h
      cases h
    rw [hsome, decide_eq_true (by omega)]

/-- A deadline is taken exactly from a key that has one, which then stays. -/
theorem run_persist (h : s.Status clock ttl pttl) (hread : s.isMalformed = false) :
    ∃ t, KeyCommand.run key clock s (.lifetime .persist) =
        .ok (.flag (decide (ttl ≠ -2 ∧ ttl ≠ -1)), t) ∧
      (ttl ≠ -2 → t = { s with deadline := none }) := by
  have hrun : KeyCommand.run key clock s (.lifetime .persist) =
      .ok (.flag (Lifetime.release (s.live clock.seconds)).1,
        (Lifetime.release (s.live clock.seconds)).2) := by
    rw [KeyCommand.run, Lifetime.run, settle_eq_live hread]
    rfl
  by_cases hne : ttl = -2
  · have habsent : (s.live clock.seconds).value.isNone = true := by
      rw [h.absent_iff.1 hne]
      rfl
    refine ⟨s.live clock.seconds, ?_, fun h => absurd hne h⟩
    rw [hrun, Lifetime.release, if_pos habsent, decide_eq_false fun h => h.1 hne]
  · refine ⟨{ s with deadline := none }, ?_, fun _ => rfl⟩
    rw [hrun, h.live_eq hne, h.release_eq hne]
    simp [hne]

end Status

end Slot

end Keyspace
