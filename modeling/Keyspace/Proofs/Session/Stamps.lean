import Keyspace.Proofs.Session.Soundness
import Keyspace.Proofs.Slot.Status
import Mathlib.Algebra.Group.Nat.Defs

/-!
# When deadlines were made

A deadline says when it was made, which is never later than the latest second that the clock has
shown. So in a run in which the wall clock stays below a bound, all deadlines were made below the
bound (`reachable_stamped`); and if the wall clock is never set back, none was made in the future
(`reachable_stamped_now`). From this follows how far ahead a deadline can be: `Slot.Stamped.near`
and `Slot.Stamped.ttl_le`.

`Session.Every` says that all slots of a session have a property, those on the disk and those in the
store. A step keeps it if commands on keys and sweeps do (`Every.step`).
-/

namespace Keyspace

/-! ## Slots -/

namespace Slot

variable {now m : Nat} {s t : Slot}

/-- The deadline of the slot, if there is one, was made at the second `m` at the latest. -/
def Stamped (m : Nat) (s : Slot) : Prop := ∀ d, s.deadline? = some d → d.createdAt ≤ m

namespace Stamped

theorem empty (m : Nat) : Slot.empty.Stamped m := nofun

theorem mono {n : Nat} (hle : m ≤ n) (h : s.Stamped m) : s.Stamped n :=
  fun d hd => Nat.le_trans (h d hd) hle

theorem of_deadline (hd : t.deadline = s.deadline) (h : s.Stamped m) : t.Stamped m := by
  unfold Stamped deadline?
  rw [hd]
  exact h

theorem of_none (hd : s.deadline = none) : s.Stamped m := by
  unfold Stamped deadline?
  rw [hd]
  exact nofun

theorem live (h : s.Stamped m) (now : Nat) : (s.live now).Stamped m := by
  rcases live_eq_or s now with hl | hl <;> rw [hl]
  · exact empty m
  · exact h

/-- Commands make deadlines now. -/
theorem turns {clock : Clock} (hnow : clock.seconds ≤ m) (h : s.Stamped m)
    (ht : s.Turns clock.seconds t) : t.Stamped m := by
  have hlive := h.live clock.seconds
  cases ht with
  | same => exact h
  | settled => exact hlive
  | put => exact hlive.of_deadline rfl
  | dropped => exact empty m
  | restricted d there created ahead near =>
    intro d' hd'
    rw [deadline?, Option.bind_some, Deadline.decode?_encode_of_near created near] at hd'
    obtain rfl := Option.some.inj hd'
    omega
  | released => exact of_none rfl

/-- Sweeps make no deadlines. -/
theorem swept {inRange : Prop} (h : s.Stamped m) (ht : s.Swept now inRange t) : t.Stamped m := by
  cases ht with
  | kept => exact h
  | removed => exact empty m
  | stripped | mended => exact of_none rfl

/-- What was made within half the time that 64 bits of milliseconds can say ends within it. -/
theorem near {db : DbId} {key : Bytes} (h : s.Stamped m) (hs : s.Sound db key)
    (hm : m ≤ 2 ^ 62 / 1000) : s.Near := by
  intro d hd
  obtain ⟨-, hle⟩ := hs.bounds hd
  have hcreated := h d hd
  unfold Deadline.maxTtl at hle
  omega

/-- What was made by now ends within the longest time that a key can be given. -/
theorem ttl_le {db : DbId} {key : Bytes} {clock : Clock} {ttl pttl : Int}
    (h : s.Stamped clock.seconds) (hs : s.Sound db key) (hstatus : s.Status clock ttl pttl) :
    ttl ≤ Deadline.maxTtl := by
  cases hstatus with
  | absent | persistent => decide
  | limited _ hd ahead =>
    obtain ⟨-, hle⟩ := hs.bounds hd
    have hcreated := h _ hd
    omega

end Stamped

end Slot

/-! ## Sessions -/

namespace Session

variable {P : Slot → Prop} {s s' : Session} {t : Step} {a : Answer}

/-- All slots on the disk and in the store have the property. -/
structure Every (P : Slot → Prop) (s : Session) : Prop where
  disk : ∀ db key, P (s.disk.slot db key)
  store : ∀ store, s.store = some store → ∀ db key, P (store.storage.slot db key)

namespace Every

theorem records (h : s.Every P) (db : DbId) (key : Bytes) : P (s.records.slot db key) := by
  unfold Session.records
  split
  · exact h.disk db key
  · rename_i store hstore
    split
    · exact h.disk db key
    · exact h.store store hstore db key

theorem mono {Q : Slot → Prop} (hPQ : ∀ t, P t → Q t) (h : s.Every P) : s.Every Q where
  disk db key := hPQ _ (h.disk db key)
  store store hstore db key := hPQ _ (h.store store hstore db key)

variable (empty : P .empty)
  (swept : ∀ inRange t u, P t → t.Swept s.clock.seconds inRange u → P u)

include empty swept in
theorem mount (h : s.Every P) (config : Option Config) : (s.mount [] config).2.Every P := by
  obtain ⟨opened, hmount, hopened, -⟩ := s.mount_eq config
  rw [hmount]
  refine ⟨h.records, fun store hstore db key => ?_⟩
  obtain ⟨c, -, ho⟩ := hopened store hstore
  refine swept _ _ _ ?_ ((Store.sweeps_openOn ho).2.slot db key)
  show P ((if c.temporary then Storage.empty else s.records).slot db key)
  split
  · exact empty
  · exact h.records db key

include empty swept in
/-- A property of slots that commands and sweeps keep, a step of the session keeps. -/
theorem step (turns : ∀ t u, P t → t.Turns s.clock.seconds u → P u) (h : s.Every P)
    (hraw : t.writes = []) (ht : s.step t = some (a, s')) : s'.Every P := by
  cases moves_of_step ht with
  | around hstore hdisk hconfig =>
    refine ⟨fun db key => ?_, fun store hs => ?_⟩
    · rw [hdisk]
      exact h.disk db key
    · rw [hstore] at hs
      exact h.store store hs
  | @request caller i command c store hstore hc =>
    refine ⟨h.disk, fun store' hs => ?_⟩
    cases hs
    have hp := store.performs_perform c command
    refine hp.forall_slot (fun _ _ => empty) (fun _ t u _ _ ht hturns => ?_) (h.store store hstore)
    rw [call?_clock hc] at hturns
    exact turns t u ht hturns
  | @upkeep _ _ store store' hstore hu failed =>
    refine ⟨h.disk, fun store'' hs => ?_⟩
    cases hs
    rcases hu.records with ⟨-, hs⟩ | ⟨-, hs⟩
    · rw [hs]
      exact fun _ _ => empty
    · exact fun db key => swept _ _ _ (h.store store hstore db key) (hs db key)
  | @reopens writes config a answers =>
    obtain rfl : writes = [] := hraw
    exact h.mount empty swept _

end Every

theorem every_bare (empty : P .empty) (wall : Int64) : (bare wall).Every P where
  disk _ _ := empty
  store _ h := by cases h

theorem stamped_step {m : Nat} (hnow : s.clock.seconds ≤ m) (h : s.Every (Slot.Stamped m))
    (hraw : t.writes = []) (ht : s.step t = some (a, s')) : s'.Every (Slot.Stamped m) :=
  h.step (.empty m) (fun _ _ _ ht hu => ht.swept hu) (fun _ _ ht hu => ht.turns hnow hu) hraw ht

/-- **Deadlines are made while the clock runs.** They are made within the time in which all of the
run takes place. -/
theorem reachable_stamped {wall : Int64} {steps : List Step} (hraw : ∀ t ∈ steps, t.writes = [])
    {m : Nat} (hstart : (bare wall).clock.seconds ≤ m)
    (hclock : (bare wall).Along (fun _ _ _ s' => s'.clock.seconds ≤ m) steps) :
    ((bare wall).run steps).2.clock.seconds ≤ m ∧
      ((bare wall).run steps).2.Every (Slot.Stamped m) := by
  have halong := (along_of_forall (fun t ht _ _ _ => hraw t ht) (bare wall)).and hclock
  refine halong.run (P := fun s => s.clock.seconds ≤ m ∧ s.Every (Slot.Stamped m)) ?_
    ⟨hstart, every_bare (.empty m) wall⟩
  rintro s t a s' ht ⟨hw, hle⟩ ⟨hnow, h⟩
  exact ⟨hle, stamped_step hnow h hw ht⟩

/-- If the wall clock is never set back, they are not made in the future. -/
theorem reachable_stamped_now {wall : Int64} {steps : List Step}
    (hraw : ∀ t ∈ steps, t.writes = [])
    (hclock : (bare wall).Along (fun s _ _ s' => s.clock.wall ≤ s'.clock.wall) steps) :
    let s := ((bare wall).run steps).2
    s.Every (Slot.Stamped s.clock.seconds) := by
  intro s
  have halong := (along_of_forall (fun t ht _ _ _ => hraw t ht) (bare wall)).and hclock
  refine halong.run (P := fun s => s.Every (Slot.Stamped s.clock.seconds)) ?_
    (every_bare (.empty _) wall)
  rintro s t a s' ht ⟨hw, hle⟩ h
  have hnow : s.clock.seconds ≤ s'.clock.seconds := Clock.seconds_le_seconds hle
  exact (stamped_step (Nat.le_refl _) h hw ht).mono fun _ => Slot.Stamped.mono hnow

end Session

end Keyspace
