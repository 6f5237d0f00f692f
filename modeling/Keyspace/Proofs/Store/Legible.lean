import Keyspace.Proofs.Store.Alike
import Keyspace.Proofs.Store.Sweeps
import Mathlib.Algebra.Group.Nat.Defs

/-!
# Sweeping removes only what has expired

A storage is `Storage.Legible n` if every deadline can be read and is that of a key in a database
below `n`. Commands and sweeps keep the storage of a store legible (`Performs.legible`,
`Sweeps.legible`). In a legible storage a sweep finds nothing but expired keys within range, and so
it leaves a store that looks like the one before (`Sweeps.alike`).

`Storage.withoutExpired` is the storage with all expired keys erased. Alike storages that are
legible hold the same records then (`Alike.sameRecords`).
-/

namespace Keyspace

/-! ## Legible slots -/

/-- The deadline of the slot, if there is one, can be read, and then `inRange` holds. -/
structure Slot.Legible (inRange : Prop) (s : Slot) : Prop where
  readable : s.isMalformed = false
  inRange : s.deadline.isSome = true → inRange

namespace Slot.Legible

variable {inRange : Prop} {s t : Slot}

theorem of_none (h : s.deadline = none) : s.Legible inRange where
  readable := by rw [isMalformed, h, Option.any_none]
  inRange hd := by
    rw [h] at hd
    cases hd

theorem live (h : s.Legible inRange) (now : Nat) : (s.live now).Legible inRange := by
  rcases live_eq_or s now with h' | h' <;> rw [h']
  · exact of_none rfl
  · exact h

/-- What a command can make of a legible slot within range is legible. -/
theorem turns {clock : Clock} (h : s.Legible inRange) (hin : inRange)
    (ht : s.Turns clock.seconds t) : t.Legible inRange := by
  have hlive := h.live clock.seconds
  cases ht with
  | same => exact h
  | settled => exact hlive
  | put value => exact ⟨hlive.readable, hlive.inRange⟩
  | dropped => exact of_none rfl
  | restricted d there created ahead near =>
    refine ⟨?_, fun _ => hin⟩
    have hdec := Deadline.decode?_encode_of_near created near
    simp [isMalformed, hdec]
  | released there => exact of_none rfl

theorem swept {now : Nat} (h : s.Legible inRange) (ht : s.Swept now inRange t) :
    t.Legible inRange := by
  cases ht with
  | kept => exact h
  | removed | stripped | mended => exact of_none rfl

end Slot.Legible

/-- Sweeps make of a legible slot one that counts the same. -/
theorem Slot.Swept.live_eq {now : Nat} {inRange : Prop} {s t : Slot} (ht : s.Swept now inRange t)
    (h : s.Legible inRange) : t.live now = s.live now := by
  cases ht with
  | kept => rfl
  | removed hexp hin => rw [live_of_isExpired hexp, live_empty]
  | stripped hexp hout => exact absurd (h.inRange (deadline_of_isExpired hexp)) hout
  | mended hmal =>
    rw [h.readable] at hmal
    cases hmal

/-! ## Legible storages -/

namespace Storage

/-- Every deadline can be read and is that of a key in a database below `n`. -/
def Legible (n : Nat) (s : Storage) : Prop :=
  ∀ tag record, s.deadlines.get? tag = some record →
    ∃ db key d, tag = Deadline.tag db key ∧ db.toNat < n ∧ Deadline.decode? record = some d

theorem legible_empty (n : Nat) : Legible n .empty := by
  intro tag record h
  cases h

/-- Legibility, slot by slot. -/
theorem legible_iff {n : Nat} {s : Storage} :
    s.Legible n ↔ (∀ db key, (s.slot db key).Legible (db.toNat < n)) ∧
      ∀ tag, Deadline.untag tag = none → s.deadlines.get? tag = none := by
  constructor
  · intro h
    refine ⟨fun db key => ?_, fun tag ht => ?_⟩
    · cases hr : s.deadlines.get? (Deadline.tag db key) with
      | none => exact .of_none hr
      | some record =>
        obtain ⟨db', key', d, htag, hdb, hdec⟩ := h _ _ hr
        obtain ⟨rfl, rfl⟩ := Deadline.tag_injective htag
        refine ⟨?_, fun _ => hdb⟩
        simp [Slot.isMalformed, slot, hr, hdec]
    · cases hr : s.deadlines.get? tag with
      | none => rfl
      | some record =>
        obtain ⟨db, key, d, htag, -⟩ := h _ _ hr
        exact absurd htag.symm (Deadline.tag_ne_of_untag ht db key)
  · rintro ⟨hslot, hstray⟩ tag record hr
    rcases Deadline.untag_eq_none_or tag with ht | ⟨db, key, rfl⟩
    · rw [hstray tag ht] at hr
      cases hr
    · obtain ⟨hread, hin⟩ := hslot db key
      have hsome : (Deadline.decode? record).isSome = true := by
        simpa [Slot.isMalformed, slot, hr] using hread
      obtain ⟨d, hdec⟩ := Option.isSome_iff_exists.1 hsome
      exact ⟨db, key, d, rfl, hin (Option.isSome_iff_exists.2 ⟨record, hr⟩), hdec⟩

variable {m n : Nat} {s t : Storage}

theorem Legible.slot (h : s.Legible n) (db : DbId) (key : Bytes) :
    (s.slot db key).Legible (db.toNat < n) := (legible_iff.1 h).1 db key

theorem Legible.stray (h : s.Legible n) {tag : Bytes} (ht : Deadline.untag tag = none) :
    s.deadlines.get? tag = none := (legible_iff.1 h).2 tag ht

theorem Legible.frame (h : s.Legible n) (hf : Frame m s t)
    (hslot : ∀ db key, (t.slot db key).Legible (db.toNat < n)) : t.Legible n :=
  legible_iff.2 ⟨hslot, fun _ ht => hf.stray_eq_none ht (h.stray ht)⟩

/-! ## Erasing what has expired -/

/-- The storage without the key of a finding, if it is one of an expired key. -/
def forget (s : Storage) : Finding → Storage
  | .expired db key => s.setSlot db key .empty
  | .malformed _ => s

/-- The storage with every key erased that has expired at `now`. -/
def withoutExpired (s : Storage) (now : Nat) : Storage := (Finding.all now s).foldl forget s

theorem slot_foldl_forget (s : Storage) (found : List Finding) (db : DbId) (key : Bytes) :
    (found.foldl forget s).slot db key =
      if .expired db key ∈ found then .empty else s.slot db key := by
  induction found generalizing s with
  | nil => simp
  | cons f found ih =>
    rw [List.foldl_cons, ih]
    cases f with
    | malformed tag => simp [forget]
    | expired db' key' =>
      rw [forget, slot_setSlot]
      by_cases he : db' = db ∧ key' = key
      · obtain ⟨rfl, rfl⟩ := he
        simp
      · have hne : Finding.expired db key ≠ .expired db' key' := by
          rintro h
          cases h
          exact he ⟨rfl, rfl⟩
        simp [he, hne]

theorem frame_foldl_forget (s : Storage) (found : List Finding) :
    Frame (2 ^ 32) s (found.foldl forget s) := by
  induction found generalizing s with
  | nil => exact .refl _ s
  | cons f found ih =>
    cases f with
    | malformed tag => exact ih s
    | expired db key => exact (frame_setSlot s db.toNat_lt key .empty).trans (ih _)

theorem slot_withoutExpired (s : Storage) (now : Nat) (db : DbId) (key : Bytes) :
    (s.withoutExpired now).slot db key = (s.slot db key).live now := by
  rw [withoutExpired, slot_foldl_forget, Slot.live]
  simp only [Finding.expired_mem_all_iff]

/-- Alike storages hold the same records once what has expired is erased. -/
theorem Alike.sameRecords {now : Nat} (h : Alike now s t) (hs : s.Legible m) (ht : t.Legible n) :
    SameRecords (s.withoutExpired now) (t.withoutExpired now) := by
  have hfs := frame_foldl_forget s (Finding.all now s)
  have hft := frame_foldl_forget t (Finding.all now t)
  refine sameRecords_of_slots (fun db key => ?_) (fun tag htag => ?_) fun name hn => ?_
  · rw [slot_withoutExpired, slot_withoutExpired, h.slot]
  · rw [withoutExpired, withoutExpired, hfs.stray_eq_none htag (hs.stray htag),
      hft.stray_eq_none htag (ht.stray htag)]
  · rw [withoutExpired, withoutExpired, hfs.tree fun db _ => hn db, hft.tree fun db _ => hn db,
      h.tree name hn]

end Storage

/-! ## Legible stores -/

namespace Store

/-- Every deadline can be read and is that of a database in the configured range. -/
abbrev Legible (s : Store) : Prop := s.storage.Legible s.config.maxDatabases

variable {now : Nat} {a s t : Store}

theorem Performs.legible {c : Call} {command : Command} {answer : Except Error Reply}
    (hp : Performs s c command answer t) (h : s.Legible) : t.Legible := by
  rw [Legible, hp.config]
  apply h.frame hp.frame
  apply hp.forall_slot (fun _ _ => .of_none rfl) ?_ h.slot
  intro key t u hdb hkey ht hturns
  exact ht.turns hdb hturns

theorem Sweeps.legible (hs : Sweeps now s t) (h : s.Legible) : t.Legible := by
  rw [Legible, hs.config]
  exact h.frame hs.frame fun db key => (h.slot db key).swept (hs.slot db key)

/-- **Sweeping a legible store is not to be noticed.** -/
theorem Sweeps.alike (hs : Sweeps now s t) (h : s.Legible) (ha : a.Alike now s) :
    a.Alike now t where
  isClosed := ha.isClosed.trans hs.isClosed.symm
  maxDatabases := by rw [hs.config, ha.maxDatabases]
  storage := by
    apply ha.storage.frame (.refl 0 _) hs.frame
    intro db key
    rw [(hs.slot db key).live_eq (h.slot db key), ha.storage.slot]

end Store

end Keyspace
