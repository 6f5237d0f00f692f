import Keyspace.Proofs.Storage.Sound

/-!
# The deadline follows the life of its key

`KeyCommand.Respects` says how a command on a key treats the record of its deadline: a change keeps
it as long as the key is there, a new key has none, and a key that goes takes it along; only a
command on deadlines that succeeds on a live key changes it. All commands do so on sound slots
(`respects_of_run`).

`KeyCommand.dates` keeps book of the deadline that a key should have, from the commands on it and
their answers. A slot is `Slot.Dated` by an entry if its deadline is that of the entry, as long as
it has a value; commands keep slots dated by the book (`dated_of_run`).
-/

namespace Keyspace

namespace Slot

theorem live_of_not_absent {s : Slot} {now : Nat} (h : ¬ s.Absent now) : s.live now = s := by
  rcases live_eq_or s now with h' | h'
  · exact absurd (congrArg Slot.value h') h
  · exact h'

theorem Sound.deadline_eq_none {db : DbId} {key : Bytes} {s : Slot} (h : s.Sound db key)
    (hv : s.value = none) : s.deadline = none := by
  cases hd : s.deadline with
  | none => rfl
  | some record =>
    have hthere := (h.value (by rw [hd, Option.isSome_some])).1
    rw [hv] at hthere
    cases hthere

/-- What the slot has for a deadline, if it has a value, is `d`. -/
def Dated (d : Option Deadline) (s : Slot) : Prop := s.value.isSome = true → s.deadline? = d

theorem dated_of_value {d : Option Deadline} {s : Slot} (h : s.value = none) : s.Dated d := by
  intro hv
  rw [h] at hv
  cases hv

theorem dated_none {s : Slot} (h : s.deadline = none) : s.Dated none := by
  intro _
  rw [deadline?, h]
  rfl

theorem Dated.live {d : Option Deadline} {s : Slot} (h : s.Dated d) (now : Nat) :
    (s.live now).Dated d := by
  rcases live_eq_or s now with h' | h' <;> rw [h']
  · exact dated_of_value rfl
  · exact h

end Slot

namespace KeyCommand

open Slot

/-- How a command that answers `r` at `now` treats the deadline of the key, when it makes the slot
`t` of `s`. -/
structure Respects (k : KeyCommand) (now : Nat) (r : Reply) (s t : Slot) : Prop where
  /-- A change that finds the key and leaves it there keeps the record. -/
  kept : ∀ c, k = .change c → ¬ s.Absent now → t.value.isSome = true → t.deadline = s.deadline
  /-- A change that does not find the key and leaves a value leaves no deadline. -/
  created : ∀ c, k = .change c → s.Absent now → t.value.isSome = true → t.deadline = none
  /-- Without a value there is no deadline. -/
  gone : t.value = none → t.deadline = none
  /-- A command on deadlines leaves the value of a live key alone. -/
  value : ∀ l, k = .lifetime l → ¬ s.Absent now → t.value = s.value
  /-- It keeps the record of a live key unless it succeeds. -/
  refused : ∀ l, k = .lifetime l → ¬ s.Absent now → r ≠ .flag true → t.deadline = s.deadline
  /-- It does not succeed on a key that it does not find, and may remove what has expired. -/
  missing : ∀ l, k = .lifetime l → s.Absent now → r ≠ .flag true ∧ (t = s ∨ t = .empty)

/-- The deadline that a key should have once a command has answered `r`, if it should have had `d`
before; the key was there or not. -/
def dates (k : KeyCommand) (now : Nat) (there : Bool) (r : Reply) (d : Option Deadline) :
    Option Deadline :=
  match k with
  | .query _ => d
  | .change _ => if there then d else none
  | .lifetime l => if r = .flag true then l.grants now else d

variable {db : DbId} {key : Bytes} {clock : Clock} {k : KeyCommand} {r : Reply} {s t : Slot}
  {d : Option Deadline}

/-- A command that answers without a look at the slot is no change, and sets no deadline. -/
theorem cases_of_shortcut (h : k = .query .isPresent ∨ k.shortcut = some (.ok r)) :
    (∃ q, k = .query q) ∨ ∃ l, k = .lifetime l ∧ r ≠ .flag true := by
  rcases h with rfl | h
  · exact .inl ⟨_, rfl⟩
  · unfold shortcut at h
    split at h
    · split at h
      · obtain rfl := Except.ok.inj (Option.some.inj h)
        exact .inr ⟨_, rfl, nofun⟩
      · cases h
    · split at h <;> cases h
    · exact .inl ⟨_, rfl⟩
    · cases h

theorem respects_of_shortcut (hs : s.Sound db key)
    (h : k = .query .isPresent ∨ k.shortcut = some (.ok r)) (now : Nat) :
    k.Respects now r s s := by
  have hcases := cases_of_shortcut h
  refine ⟨?_, ?_, hs.deadline_eq_none, fun _ _ _ => rfl, fun _ _ _ _ => rfl, ?_⟩
  · exact fun _ _ _ _ => rfl
  · rintro c rfl
    rcases hcases with ⟨q, hq⟩ | ⟨l, hl, -⟩
    · cases hq
    · cases hl
  · rintro l rfl -
    rcases hcases with ⟨q, hq⟩ | ⟨l', -, hr⟩
    · cases hq
    · exact ⟨hr, .inl rfl⟩

/-- **Commands respect the deadlines of keys.** -/
theorem respects_of_run (hs : s.Sound db key) (h : k.run key clock s = .ok (r, t)) :
    k.Respects clock.seconds r s t := by
  have hlive := hs.live clock.seconds
  cases k with
  | query q =>
    obtain rfl := eq_live_of_query h
    exact ⟨nofun, nofun, hlive.deadline_eq_none, nofun, nofun, nofun⟩
  | change c =>
    obtain ⟨-, w, -, rfl⟩ := write_of_change h
    refine ⟨fun _ _ hthere hv => ?_, fun _ _ habsent hv => ?_, fun hv => ?_, nofun, nofun, nofun⟩
    · rw [live_of_not_absent hthere] at hv ⊢
      cases w with
      | keep | put => rfl
      | drop => cases hv
    · rw [hs.live_of_absent habsent]
      cases w <;> rfl
    · cases w with
      | keep => exact hlive.deadline_eq_none hv
      | put => cases hv
      | drop => rfl
  | lifetime l =>
    rcases Lifetime.run_cases h with ⟨hr, ht⟩ | ⟨rfl, hthere, rfl, -⟩
    · refine ⟨nofun, nofun, ?_, fun _ _ hthere => ?_, fun _ _ hthere _ => ?_,
        fun _ _ habsent => ⟨hr, ?_⟩⟩
      · rcases ht with rfl | rfl
        · exact hs.deadline_eq_none
        · exact hlive.deadline_eq_none
      · rw [live_of_not_absent hthere, or_self] at ht
        rw [ht]
      · rw [live_of_not_absent hthere, or_self] at ht
        rw [ht]
      · rwa [hs.live_of_absent habsent] at ht
    · refine ⟨nofun, nofun, fun hv => ?_, fun _ _ hpresent => ?_, fun _ _ _ hr => absurd rfl hr,
        fun _ _ habsent => ?_⟩
      · rw [hv] at hthere
        cases hthere
      · rw [live_of_not_absent hpresent]
      · rw [habsent] at hthere
        cases hthere

theorem dated_of_shortcut (hd : s.Dated d)
    (h : k = .query .isPresent ∨ k.shortcut = some (.ok r)) (now : Nat) (there : Bool) :
    s.Dated (k.dates now there r d) := by
  rcases cases_of_shortcut h with ⟨q, rfl⟩ | ⟨l, rfl, hr⟩
  · exact hd
  · rwa [dates, if_neg hr]

/-- **Commands keep to the book.** -/
theorem dated_of_run (hs : s.Sound db key) (hd : s.Dated d)
    (h : k.run key clock s = .ok (r, t)) :
    t.Dated (k.dates clock.seconds (s.live clock.seconds).value.isSome r d) := by
  cases k with
  | query q =>
    obtain rfl := eq_live_of_query h
    exact hd.live _
  | change c =>
    have hrespects := respects_of_run hs h
    intro hv
    by_cases habsent : s.Absent clock.seconds
    · rw [dates, habsent]
      exact dated_none (hrespects.created c rfl habsent hv) hv
    · have hrecord := hrespects.kept c rfl habsent hv
      have hthere : (s.live clock.seconds).value.isSome = true :=
        Option.isSome_iff_ne_none.2 habsent
      have hold : s.value.isSome = true := by rwa [live_of_not_absent habsent] at hthere
      rw [dates, hthere, if_pos rfl, ← hd hold, deadline?, deadline?, hrecord]
  | lifetime l =>
    rcases Lifetime.run_cases h with ⟨hr, ht⟩ | ⟨rfl, hthere, rfl, hbounds⟩
    · rw [dates, if_neg hr]
      rcases ht with rfl | rfl
      · exact hd
      · exact hd.live _
    · rw [dates, if_pos rfl]
      intro _
      cases hgrants : l.grants clock.seconds with
      | none => rfl
      | some d' =>
        obtain ⟨hcreated, -, hnear⟩ := hbounds d' hgrants
        exact Deadline.decode?_encode_of_near hcreated hnear

end KeyCommand

end Keyspace
