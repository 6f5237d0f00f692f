import Keyspace.Command
import Keyspace.Proofs.Answers

/-!
# Slots as commands see them

`Slot.live` is the slot of a key at a moment: empty from its deadline on. Settling a slot whose
deadline record can be read gives the live slot (`settle_eq_live`), so all that a command answers
and leaves is decided by the live slot (`run_live`), and to look later is to look again
(`live_live`).

What a command on deadlines does to the live slot says `Lifetime.run_cases`, and what a change does
says `KeyCommand.write_of_change`. `Slot.Turns` lists what any command on a key can make of its
slot (`turns_of_run`): nothing else ever happens to a key by name. A key is `Absent` once its live
slot has no value; no command but a change that stores a value brings it back (`absent_of_run`).
-/

namespace Keyspace

namespace Slot

/-! ## The live slot -/

/-- The slot as it counts at `now`: empty once the deadline has passed. -/
def live (s : Slot) (now : Nat) : Slot := if s.isExpired now then empty else s

@[simp] theorem isMalformed_empty : empty.isMalformed = false := rfl

theorem live_of_isExpired {s : Slot} {now : Nat} (h : s.isExpired now = true) :
    s.live now = empty := if_pos h

theorem live_of_not_isExpired {s : Slot} {now : Nat} (h : s.isExpired now = false) :
    s.live now = s := if_neg (by simp [h])

theorem live_eq_or (s : Slot) (now : Nat) : s.live now = empty ∨ s.live now = s := by
  unfold live
  split
  · exact .inl rfl
  · exact .inr rfl

@[simp] theorem live_empty (now : Nat) : empty.live now = empty := rfl

theorem isMalformed_live {s : Slot} (h : s.isMalformed = false) (now : Nat) :
    (s.live now).isMalformed = false := by
  rcases live_eq_or s now with h' | h' <;> rw [h']
  · exact isMalformed_empty
  · exact h

theorem deadline_of_isExpired {s : Slot} {now : Nat} (h : s.isExpired now = true) :
    s.deadline.isSome = true := by
  unfold isExpired deadline? at h
  cases hd : s.deadline with
  | none =>
    rw [hd] at h
    cases h
  | some record => rfl

/-- What has expired stays expired. -/
theorem isExpired_mono {s : Slot} {now later : Nat} (hle : now ≤ later)
    (h : s.isExpired now = true) : s.isExpired later = true := by
  simp only [isExpired, Option.any_eq_true, Deadline.isExpired, decide_eq_true_eq] at h ⊢
  obtain ⟨d, hd, hdn⟩ := h
  exact ⟨d, hd, by omega⟩

/-- To look later is to look again. -/
theorem live_live {now later : Nat} (hle : now ≤ later) (s : Slot) :
    (s.live now).live later = s.live later := by
  cases h : s.isExpired now with
  | true =>
    rw [live_of_isExpired h, live_empty, live_of_isExpired (isExpired_mono hle h)]
  | false => rw [live_of_not_isExpired h]

theorem settle_eq_live {s : Slot} (h : s.isMalformed = false) (key : Bytes) (now : Nat) :
    s.settle key now = .ok (s.live now) := settle_eq_ok_iff.2 ⟨h, rfl⟩

theorem eq_live_of_settle {s t : Slot} {key : Bytes} {now : Nat}
    (h : s.settle key now = .ok t) : s.isMalformed = false ∧ t = s.live now :=
  settle_eq_ok_iff.1 h

theorem settle_live {s : Slot} (h : s.isMalformed = false) (key : Bytes) (now : Nat) :
    (s.live now).settle key now = s.settle key now := by
  rw [settle_eq_live (isMalformed_live h now), settle_eq_live h, live_live (Nat.le_refl now)]

/-! ## What becomes of a slot -/

/-- What a command on a key can make of its slot at `now`. -/
inductive Turns (now : Nat) (s : Slot) : Slot → Prop
  /-- The slot is left as it is. -/
  | same : Turns now s s
  /-- What has expired is removed. -/
  | settled : Turns now s (s.live now)
  /-- A value is stored; a live deadline stays. -/
  | put (value : Bytes) : Turns now s { s.live now with value := some value }
  /-- The key is removed. -/
  | dropped : Turns now s empty
  /-- A key that is there gets a deadline, at most `Deadline.maxTtl` ahead. -/
  | restricted (d : Deadline) (there : (s.live now).value.isSome = true)
      (created : d.createdAt = now) (ahead : now ≤ d.expiresAt)
      (near : d.expiresAt ≤ now + Deadline.maxTtl) :
      Turns now s { s.live now with deadline := some d.encode }
  /-- A key that is there loses its deadline. -/
  | released (there : (s.live now).value.isSome = true) :
      Turns now s { s.live now with deadline := none }

/-- The key has no value that counts at `now`. -/
def Absent (s : Slot) (now : Nat) : Prop := (s.live now).value = none

theorem absent_empty (now : Nat) : empty.Absent now := rfl

theorem absent_of_value {s : Slot} {now : Nat} (h : s.value = none) : s.Absent now := by
  rcases live_eq_or s now with h' | h' <;> rw [Absent, h']
  · rfl
  · exact h

theorem absent_of_isExpired {s : Slot} {now : Nat} (h : s.isExpired now = true) :
    s.Absent now := by
  rw [Absent, live_of_isExpired h]
  rfl

theorem Absent.mono {s : Slot} {now later : Nat} (hle : now ≤ later) (h : s.Absent now) :
    s.Absent later := by
  rw [Absent, ← live_live hle]
  exact absent_of_value h

end Slot

/-! ## Deadlines that commands make -/

namespace Deadline

/-- A duration that is allowed counts from now. -/
theorem ofDuration_eq_ok {now : Nat} {seconds : Int} {d : Deadline}
    (h : ofDuration now seconds = .ok d) :
    d = ⟨now + seconds.toNat, now⟩ ∧ d.expiresAt ≤ now + maxTtl := by
  unfold ofDuration at h
  split at h
  · cases h
  · split at h
    · cases h
    · obtain rfl := Except.ok.inj h
      exact ⟨rfl, by simp only; omega⟩

/-- A point in time that is allowed is not too far ahead. -/
theorem ofTimestamp_eq_ok {now : Nat} {timestamp : Int} {d : Deadline}
    (h : ofTimestamp now timestamp = .ok d) :
    d = ⟨timestamp.toNat, now⟩ ∧ d.expiresAt ≤ now + maxTtl := by
  unfold ofTimestamp at h
  split at h
  · cases h
  · split at h
    · cases h
    · obtain rfl := Except.ok.inj h
      exact ⟨rfl, by simp only; omega⟩

/-- The deadlines that commands make read back. -/
theorem decode?_encode_of_near {d : Deadline} {clock : Clock}
    (created : d.createdAt = clock.seconds) (near : d.expiresAt ≤ clock.seconds + maxTtl) :
    decode? d.encode = some d := by
  have hclock := clock.seconds_le
  unfold maxTtl at near
  exact decode?_encode (by omega) (by omega)

end Deadline

/-! ## Commands on live slots -/

namespace Lifetime

open Slot

/-- The deadline that a command gives to a key when it succeeds, if it leaves it one. -/
def grants (now : Nat) : Lifetime → Option Deadline
  | expire seconds => some ⟨now + seconds.toNat, now⟩
  | expireAt timestamp => some ⟨timestamp.toNat, now⟩
  | _ => none

/-- A key that is there is given a deadline, or nothing happens. -/
theorem restrict_cases {s t : Slot} {b : Bool} {deadline : Except Deadline.Refusal Deadline}
    (h : restrict deadline s = .ok (b, t)) :
    b = false ∧ t = s ∨ b = true ∧ s.value.isSome = true ∧
      ∃ d, deadline = .ok d ∧ t = { s with deadline := some d.encode } := by
  unfold restrict at h
  split at h
  · cases h
    exact .inl ⟨rfl, rfl⟩
  · rename_i hv
    cases deadline with
    | error r => cases h
    | ok d =>
      cases h
      exact .inr ⟨rfl, by simpa [Option.isSome_iff_ne_none] using hv, d, rfl, rfl⟩

/-- A deadline is taken from a key that has one, or nothing happens. -/
theorem release_cases {s t : Slot} {b : Bool} (h : release s = (b, t)) :
    b = false ∧ t = s ∨ b = true ∧ s.value.isSome = true ∧ t = { s with deadline := none } := by
  unfold release at h
  obtain ⟨value, deadline⟩ := s
  cases value with
  | none =>
    obtain ⟨rfl, rfl⟩ := Prod.mk.inj h
    exact .inl ⟨rfl, rfl⟩
  | some value =>
    cases deadline with
    | none =>
      obtain ⟨rfl, rfl⟩ := Prod.mk.inj h
      exact .inl ⟨rfl, rfl⟩
    | some record =>
      obtain ⟨rfl, rfl⟩ := Prod.mk.inj h
      exact .inr ⟨rfl, rfl, rfl⟩

/-- A command on a deadline succeeds on a live key, which then has the deadline that the command
grants, or it does no more than to remove what has expired. -/
theorem run_cases {s t : Slot} {key : Bytes} {clock : Clock} {l : Lifetime} {r : Reply}
    (h : l.run key clock s = .ok (r, t)) :
    r ≠ .flag true ∧ (t = s ∨ t = s.live clock.seconds) ∨
      r = .flag true ∧ (s.live clock.seconds).value.isSome = true ∧
        t = { s.live clock.seconds with
          deadline := (l.grants clock.seconds).map Deadline.encode } ∧
        ∀ d, l.grants clock.seconds = some d → d.createdAt = clock.seconds ∧
          clock.seconds ≤ d.expiresAt ∧ d.expiresAt ≤ clock.seconds + Deadline.maxTtl := by
  cases l with
  | expire seconds =>
    obtain ⟨u, hu, h⟩ := bind_eq_ok_iff.1 h
    obtain ⟨-, rfl⟩ := eq_live_of_settle hu
    obtain ⟨⟨b, t'⟩, hr, h⟩ := bind_eq_ok_iff.1 h
    obtain ⟨rfl, rfl⟩ := Prod.mk.inj (Except.ok.inj h)
    rcases restrict_cases hr with ⟨rfl, rfl⟩ | ⟨rfl, there, d, hd, rfl⟩
    · exact .inl ⟨nofun, .inr rfl⟩
    · obtain ⟨rfl, hnear⟩ := Deadline.ofDuration_eq_ok hd
      refine .inr ⟨rfl, there, rfl, fun d hd => ?_⟩
      obtain rfl := Option.some.inj hd
      exact ⟨rfl, Nat.le_add_right _ _, hnear⟩
  | expireAt timestamp =>
    rw [run] at h
    split at h
    · obtain ⟨rfl, rfl⟩ := Prod.mk.inj (Except.ok.inj h)
      exact .inl ⟨nofun, .inl rfl⟩
    · rename_i hahead
      obtain ⟨u, hu, h⟩ := bind_eq_ok_iff.1 h
      obtain ⟨-, rfl⟩ := eq_live_of_settle hu
      obtain ⟨⟨b, t'⟩, hr, h⟩ := bind_eq_ok_iff.1 h
      obtain ⟨rfl, rfl⟩ := Prod.mk.inj (Except.ok.inj h)
      rcases restrict_cases hr with ⟨rfl, rfl⟩ | ⟨rfl, there, d, hd, rfl⟩
      · exact .inl ⟨nofun, .inr rfl⟩
      · obtain ⟨rfl, hnear⟩ := Deadline.ofTimestamp_eq_ok hd
        refine .inr ⟨rfl, there, rfl, fun d hd => ?_⟩
        obtain rfl := Option.some.inj hd
        exact ⟨rfl, by simp only; omega, hnear⟩
  | ttl | pttl =>
    obtain ⟨u, hu, h⟩ := bind_eq_ok_iff.1 h
    obtain ⟨-, rfl⟩ := eq_live_of_settle hu
    obtain ⟨rfl, rfl⟩ := Prod.mk.inj (Except.ok.inj h)
    exact .inl ⟨nofun, .inr rfl⟩
  | persist =>
    obtain ⟨u, hu, h⟩ := bind_eq_ok_iff.1 h
    obtain ⟨-, rfl⟩ := eq_live_of_settle hu
    obtain ⟨rfl, rfl⟩ := Prod.mk.inj (Except.ok.inj h)
    rcases release_cases rfl with ⟨hb, ht⟩ | ⟨hb, there, ht⟩ <;> rw [hb, ht]
    · exact .inl ⟨nofun, .inr rfl⟩
    · exact .inr ⟨rfl, there, rfl, nofun⟩

theorem turns_of_run {s t : Slot} {key : Bytes} {clock : Clock} {l : Lifetime} {r : Reply}
    (h : l.run key clock s = .ok (r, t)) : s.Turns clock.seconds t := by
  rcases run_cases h with ⟨-, rfl | rfl⟩ | ⟨-, there, rfl, hbounds⟩
  · exact .same
  · exact .settled
  · cases hd : l.grants clock.seconds with
    | none => exact .released there
    | some d =>
      obtain ⟨hcreated, hahead, hnear⟩ := hbounds d hd
      exact .restricted d there hcreated hahead hnear

/-- The commands on deadlines never touch the value of a key that is there. -/
theorem value_of_run {s t : Slot} {key : Bytes} {clock : Clock} {l : Lifetime} {r : Reply}
    (h : l.run key clock s = .ok (r, t)) : t = s ∨ t.value = (s.live clock.seconds).value := by
  rcases run_cases h with ⟨-, rfl | rfl⟩ | ⟨-, -, rfl, -⟩
  · exact .inl rfl
  · exact .inr rfl
  · exact .inr rfl

end Lifetime

namespace KeyCommand

open Slot

/-- Commands do not tell a slot from its live slot: they answer the same, and what they leave
counts the same. -/
theorem run_live {s : Slot} (h : s.isMalformed = false) (key : Bytes) (clock : Clock)
    (k : KeyCommand) :
    ((k.run key clock (s.live clock.seconds)).map fun p => (p.1, p.2.live clock.seconds)) =
      (k.run key clock s).map fun p => (p.1, p.2.live clock.seconds) := by
  have hs := settle_live h key clock.seconds
  cases k with
  | query q => rw [run, run, hs]
  | change c => rw [run, run, hs]
  | lifetime l =>
    cases l with
    | expireAt timestamp =>
      rw [run, run, Lifetime.run, Lifetime.run, hs]
      split
      · -- a point in time that has passed is refused before the slot is settled
        simp [pure, Except.pure, Except.map, live_live (Nat.le_refl _)]
      · rfl
    | expire seconds => rw [run, run, Lifetime.run, Lifetime.run, hs]
    | ttl => rw [run, run, Lifetime.run, Lifetime.run, hs]
    | pttl => rw [run, run, Lifetime.run, Lifetime.run, hs]
    | persist => rw [run, run, Lifetime.run, Lifetime.run, hs]

/-- A query leaves the live slot. -/
theorem eq_live_of_query {s t : Slot} {key : Bytes} {clock : Clock} {q : Query} {r : Reply}
    (h : run key clock s (.query q) = .ok (r, t)) : t = s.live clock.seconds := by
  obtain ⟨u, hu, h⟩ := bind_eq_ok_iff.1 h
  obtain ⟨-, rfl⟩ := eq_live_of_settle hu
  obtain ⟨r', -, h⟩ := bind_eq_ok_iff.1 h
  cases h
  rfl

/-- The only failure that comes after a command has run is not to find the value asked for. -/
theorem finish_eq_error {k : KeyCommand} {r : Reply} {e : Error}
    (h : k.finish r = .error e) : k = .query .get ∧ r = .missing ∧ e = .keyNotFound := by
  unfold finish at h
  split at h
  · rename_i hk
    cases h
    exact ⟨hk.1, hk.2, rfl⟩
  · cases h

/-- A change answers from the live value, and writes to the live slot. -/
theorem write_of_change {s t : Slot} {key : Bytes} {clock : Clock} {c : Change} {r : Reply}
    (h : run key clock s (.change c) = .ok (r, t)) :
    s.isMalformed = false ∧ ∃ w, c.apply key (s.live clock.seconds).value = .ok (r, w) ∧
      t = (s.live clock.seconds).write w := by
  obtain ⟨u, hu, h⟩ := bind_eq_ok_iff.1 h
  obtain ⟨hread, rfl⟩ := eq_live_of_settle hu
  obtain ⟨⟨r', w⟩, happly, h⟩ := bind_eq_ok_iff.1 h
  cases h
  exact ⟨hread, w, happly, rfl⟩

theorem turns_of_write (s : Slot) (now : Nat) (w : Write) :
    s.Turns now ((s.live now).write w) := by
  cases w with
  | keep => exact .settled
  | put value => exact .put value
  | drop => exact .dropped

/-- **What a command makes of its slot.** -/
theorem turns_of_run {s t : Slot} {key : Bytes} {clock : Clock} {k : KeyCommand} {r : Reply}
    (h : k.run key clock s = .ok (r, t)) : s.Turns clock.seconds t := by
  cases k with
  | query q =>
    obtain rfl := eq_live_of_query h
    exact .settled
  | change c =>
    obtain ⟨-, w, -, rfl⟩ := write_of_change h
    exact turns_of_write s clock.seconds w
  | lifetime l => exact Lifetime.turns_of_run h

/-- An absent key stays absent, unless a change stores a value under it. -/
theorem absent_of_run {s t : Slot} {key : Bytes} {clock : Clock} {k : KeyCommand} {r : Reply}
    (hs : s.Absent clock.seconds) (h : k.run key clock s = .ok (r, t)) :
    t.Absent clock.seconds ∨ (∃ c, k = .change c) ∧ t.value.isSome = true := by
  cases k with
  | query q =>
    obtain rfl := eq_live_of_query h
    exact .inl (absent_of_value hs)
  | change c =>
    cases hv : t.value with
    | none => exact .inl (absent_of_value hv)
    | some value => exact .inr ⟨⟨c, rfl⟩, rfl⟩
  | lifetime l =>
    rcases Lifetime.value_of_run h with rfl | hv
    · exact .inl hs
    · exact .inl (absent_of_value (hv.trans hs))

end KeyCommand

end Keyspace
