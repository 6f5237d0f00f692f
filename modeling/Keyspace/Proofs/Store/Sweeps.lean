import Keyspace.Proofs.Store.Requests
import Keyspace.Store.Opening

/-!
# What sweeps do to a store

The findings of a sweep are the expired and the unreadable deadlines (`expired_mem_all_iff`,
`malformed_mem_all_iff`), and `slot_collectAll` says what becomes of the slot of a key when a list
of findings is dealt with: an expired key in the configured range goes, any other finding takes
the deadline away and leaves the value.

All work in the background is sweeping: `Sweeps` holds between the stores before and after any
number of sweeps, and so between those around `Store.restoreAll` (`sweeps_restoreAll`) and, but for
the closing, around `Store.clean` (`sweeps_clean`). `Slot.Swept` lists what any number of sweeps
can make of a slot (`Sweeps.slot`).
-/

namespace Keyspace

/-- A slot without its deadline. -/
def Slot.release (s : Slot) : Slot := { s with deadline := none }

@[simp] theorem Slot.release_release (s : Slot) : s.release.release = s.release := rfl

@[simp] theorem Slot.release_empty : Slot.empty.release = .empty := rfl

/-! ## Findings -/

namespace Finding

theorem mem_all_iff {now : Nat} {storage : Storage} {f : Finding} :
    f ∈ all now storage ↔
      ∃ tag record, storage.deadlines.get? tag = some record ∧
        classify now (tag, record) = some f := by
  simp only [all, List.mem_filterMap, Prod.exists, OrderedMap.mem_entries_iff]

theorem classify_tag (now : Nat) (db : DbId) (key record : Bytes) :
    classify now (Deadline.tag db key, record) =
      match Deadline.decode? record with
      | some d => if d.isExpired now then some (.expired db key) else none
      | none => some (.malformed (Deadline.tag db key)) := by
  simp only [classify, Deadline.untag_tag]
  cases Deadline.decode? record <;> rfl

theorem classify_of_untag {tag : Bytes} (h : Deadline.untag tag = none) (now : Nat)
    (record : Bytes) : classify now (tag, record) = some (.malformed tag) := by
  simp only [classify, h]

/-- A sweep finds the expired keys. -/
theorem expired_mem_all_iff {now : Nat} {storage : Storage} {db : DbId} {key : Bytes} :
    .expired db key ∈ all now storage ↔ (storage.slot db key).isExpired now = true := by
  have hslot : (storage.slot db key).isExpired now = true ↔
      ∃ record d, storage.deadlines.get? (Deadline.tag db key) = some record ∧
        Deadline.decode? record = some d ∧ d.isExpired now = true := by
    simp only [Slot.isExpired, Slot.deadline?, Storage.slot, Option.any_eq_true,
      Option.bind_eq_some_iff]
    constructor
    · rintro ⟨d, ⟨record, hr, hd⟩, he⟩
      exact ⟨record, d, hr, hd, he⟩
    · rintro ⟨record, d, hr, hd, he⟩
      exact ⟨d, ⟨record, hr, hd⟩, he⟩
  rw [mem_all_iff, hslot]
  constructor
  · rintro ⟨tag, record, hr, hc⟩
    rcases Deadline.untag_eq_none_or tag with ht | ⟨db', key', rfl⟩
    · rw [classify_of_untag ht] at hc
      cases hc
    · rw [classify_tag] at hc
      split at hc
      · rename_i d hd
        split at hc
        · rename_i he
          cases hc
          exact ⟨record, d, hr, hd, he⟩
        · cases hc
      · cases hc
  · rintro ⟨record, d, hr, hd, he⟩
    exact ⟨_, record, hr, by rw [classify_tag, hd]; simp [he]⟩

/-- A sweep finds the keys whose deadline cannot be read. -/
theorem malformed_mem_all_iff {now : Nat} {storage : Storage} {db : DbId} {key : Bytes} :
    .malformed (Deadline.tag db key) ∈ all now storage ↔
      (storage.slot db key).isMalformed = true := by
  have hslot : (storage.slot db key).isMalformed = true ↔
      ∃ record, storage.deadlines.get? (Deadline.tag db key) = some record ∧
        Deadline.decode? record = none := by
    simp [Slot.isMalformed, Storage.slot, Option.any_eq_true]
  rw [mem_all_iff, hslot]
  constructor
  · rintro ⟨tag, record, hr, hc⟩
    rcases Deadline.untag_eq_none_or tag with ht | ⟨db', key', rfl⟩
    · rw [classify_of_untag ht] at hc
      cases hc
      exact absurd rfl (Deadline.tag_ne_of_untag ht db key)
    · rw [classify_tag] at hc
      split at hc
      · split at hc <;> cases hc
      · rename_i hd
        have ht := Finding.malformed.inj (Option.some.inj hc)
        exact ⟨record, ht ▸ hr, hd⟩
  · rintro ⟨record, hr, hd⟩
    exact ⟨_, record, hr, by rw [classify_tag, hd]⟩

end Finding

/-! ## Dealing with findings -/

namespace Store

theorem dropEntry_storage (s : Store) (tag : Bytes) :
    (s.dropEntry tag).storage = s.storage.eraseDeadline tag := rfl

theorem collect_expired (s : Store) (db : DbId) (key : Bytes) :
    s.collect (.expired db key) =
      if db.toNat < s.config.maxDatabases then
        { s.ready db with storage := (s.storage.addTable db).setSlot db key .empty }
      else s.dropEntry (Deadline.tag db key) := by
  rw [collect, resolve_eq]
  by_cases h : db.toNat < s.config.maxDatabases
  · rw [if_neg (Nat.not_le.2 h), if_pos h]
    rfl
  · rw [if_pos (Nat.le_of_not_lt h), if_neg h]

@[simp] theorem collect_config (s : Store) (f : Finding) : (s.collect f).config = s.config := by
  cases f with
  | expired db key =>
    rw [collect_expired]
    split <;> rfl
  | malformed tag => rfl

theorem collect_isClosed (s : Store) (f : Finding) : (s.collect f).isClosed = s.isClosed := by
  cases f with
  | expired db key =>
    rw [collect_expired]
    split <;> rfl
  | malformed tag => rfl

theorem frame_collect (s : Store) (f : Finding) :
    Storage.Frame s.config.maxDatabases s.storage (s.collect f).storage := by
  cases f with
  | expired db key =>
    rw [collect_expired]
    split
    · rename_i hdb
      exact (Storage.frame_addTable _ hdb).trans (Storage.frame_setSlot _ hdb _ _)
    · exact Storage.frame_eraseDeadline _ _ _
  | malformed tag => exact Storage.frame_eraseDeadline _ _ _

theorem slot_collect_expired (s : Store) (db db' : DbId) (key key' : Bytes) :
    (s.collect (.expired db' key')).storage.slot db key =
      if db' = db ∧ key' = key then
        if db.toNat < s.config.maxDatabases then .empty else (s.storage.slot db key).release
      else s.storage.slot db key := by
  rw [collect_expired]
  by_cases hdb : db'.toNat < s.config.maxDatabases
  · rw [if_pos hdb, Storage.slot_setSlot, Storage.slot_addTable]
    split
    · rename_i he
      rw [← he.1, if_pos hdb]
    · rfl
  · rw [if_neg hdb, dropEntry_storage, Storage.slot_eraseDeadline]
    by_cases he : db' = db ∧ key' = key
    · obtain ⟨rfl, rfl⟩ := he
      rw [if_pos rfl, if_pos ⟨rfl, rfl⟩, if_neg hdb]
      rfl
    · rw [if_neg fun ht => he (Deadline.tag_injective ht), if_neg he]

theorem slot_collect_malformed (s : Store) (tag : Bytes) (db : DbId) (key : Bytes) :
    (s.collect (.malformed tag)).storage.slot db key =
      if tag = Deadline.tag db key then (s.storage.slot db key).release
      else s.storage.slot db key := Storage.slot_eraseDeadline s.storage tag db key

/-- The store after findings were dealt with one after the other. -/
abbrev collectAll (s : Store) (found : List Finding) : Store := found.foldl collect s

theorem collectAll_config (s : Store) (found : List Finding) :
    (s.collectAll found).config = s.config := by
  induction found generalizing s with
  | nil => rfl
  | cons f found ih => exact (ih _).trans (collect_config s f)

theorem collectAll_isClosed (s : Store) (found : List Finding) :
    (s.collectAll found).isClosed = s.isClosed := by
  induction found generalizing s with
  | nil => rfl
  | cons f found ih => exact (ih _).trans (collect_isClosed s f)

theorem frame_collectAll (s : Store) (found : List Finding) :
    Storage.Frame s.config.maxDatabases s.storage (s.collectAll found).storage := by
  induction found generalizing s with
  | nil => exact .refl _ _
  | cons f found ih =>
    have h := ih (s.collect f)
    rw [collect_config] at h
    exact (frame_collect s f).trans h

/-- **What becomes of a key when findings are dealt with**: an expired key in range goes, and any
other finding takes its deadline away. -/
theorem slot_collectAll (s : Store) (found : List Finding) (db : DbId) (key : Bytes) :
    (s.collectAll found).storage.slot db key =
      if .expired db key ∈ found ∧ db.toNat < s.config.maxDatabases then .empty
      else if .expired db key ∈ found ∨ .malformed (Deadline.tag db key) ∈ found then
        (s.storage.slot db key).release
      else s.storage.slot db key := by
  induction found generalizing s with
  | nil => simp
  | cons f found ih =>
    rw [collectAll, List.foldl_cons, ← collectAll, ih, collect_config]
    cases f with
    | expired db' key' =>
      rw [slot_collect_expired]
      by_cases he : db' = db ∧ key' = key
      · obtain ⟨rfl, rfl⟩ := he
        by_cases hdb : db'.toNat < s.config.maxDatabases <;> simp [hdb]
      · have hne : Finding.expired db key ≠ .expired db' key' := by
          rintro h
          cases h
          exact he ⟨rfl, rfl⟩
        simp [he, hne]
    | malformed tag =>
      rw [slot_collect_malformed]
      by_cases ht : tag = Deadline.tag db key
      · subst ht
        by_cases h : .expired db key ∈ found ∧ db.toNat < s.config.maxDatabases
        · simp [h.1, h.2]
        · simp [h]
      · simp [ht, Ne.symm ht]

/-! ## Sweeping -/

theorem sweepOnce_config (s : Store) (now : Nat) : (s.sweepOnce now).2.config = s.config :=
  collectAll_config s _

theorem sweepOnce_isClosed (s : Store) (now : Nat) :
    (s.sweepOnce now).2.isClosed = s.isClosed :=
  collectAll_isClosed s _

theorem frame_sweepOnce (s : Store) (now : Nat) :
    Storage.Frame s.config.maxDatabases s.storage (s.sweepOnce now).2.storage :=
  frame_collectAll s _

end Store

/-- What sweeps can make of a slot; `inRange` says that its database is in the configured range. -/
inductive Slot.Swept (now : Nat) (inRange : Prop) (s : Slot) : Slot → Prop
  | kept : Swept now inRange s s
  /-- An expired key in range goes. -/
  | removed (h : s.isExpired now = true) (hin : inRange) : Swept now inRange s empty
  /-- An expired key out of range loses its deadline. -/
  | stripped (h : s.isExpired now = true) (hout : ¬ inRange) : Swept now inRange s s.release
  /-- A key whose deadline cannot be read loses it. -/
  | mended (h : s.isMalformed = true) : Swept now inRange s s.release

theorem Slot.Swept.trans {now : Nat} {inRange : Prop} {s t u : Slot} (h : s.Swept now inRange t)
    (h' : t.Swept now inRange u) : s.Swept now inRange u := by
  cases h with
  | kept => exact h'
  | removed h hin =>
    cases h' with
    | kept => exact .removed h hin
    | removed h' | stripped h' | mended h' => cases h'
  | stripped h hout =>
    cases h' with
    | kept => exact .stripped h hout
    | removed h' | stripped h' | mended h' => cases h'
  | mended h =>
    cases h' with
    | kept => exact .mended h
    | removed h' | stripped h' | mended h' => cases h'

namespace Store

theorem swept_sweepOnce (s : Store) (now : Nat) (db : DbId) (key : Bytes) :
    (s.storage.slot db key).Swept now (db.toNat < s.config.maxDatabases)
      ((s.sweepOnce now).2.storage.slot db key) := by
  have hexp : ∀ {n}, .expired db key ∈ (Finding.all now s.storage).take n →
      (s.storage.slot db key).isExpired now = true :=
    fun h => Finding.expired_mem_all_iff.1 (List.mem_of_mem_take h)
  rw [sweepOnce, slot_collectAll]
  split
  · rename_i h
    exact .removed (hexp h.1) h.2
  · rename_i hnot
    split
    · rename_i h
      rcases h with h | h
      · exact .stripped (hexp h) fun hin => hnot ⟨h, hin⟩
      · exact .mended (Finding.malformed_mem_all_iff.1 (List.mem_of_mem_take h))
    · exact .kept

/-- The second store is the first after some sweeps at `now`. -/
inductive Sweeps (now : Nat) : Store → Store → Prop
  | none (s : Store) : Sweeps now s s
  | more {s t : Store} (h : Sweeps now (s.sweepOnce now).2 t) : Sweeps now s t

namespace Sweeps

variable {now : Nat} {s t : Store}

theorem config (h : Sweeps now s t) : t.config = s.config := by
  induction h with
  | none => rfl
  | @more s _ _ ih => exact ih.trans (sweepOnce_config s now)

theorem isClosed (h : Sweeps now s t) : t.isClosed = s.isClosed := by
  induction h with
  | none => rfl
  | @more s _ _ ih => exact ih.trans (sweepOnce_isClosed s now)

theorem frame (h : Sweeps now s t) :
    Storage.Frame s.config.maxDatabases s.storage t.storage := by
  induction h with
  | none => exact .refl _ _
  | @more s _ _ ih =>
    rw [sweepOnce_config] at ih
    exact (frame_sweepOnce s now).trans ih

/-- **What sweeps make of the slot of a key.** -/
theorem slot (h : Sweeps now s t) (db : DbId) (key : Bytes) :
    (s.storage.slot db key).Swept now (db.toNat < s.config.maxDatabases)
      (t.storage.slot db key) := by
  induction h with
  | none => exact .kept
  | @more s _ _ ih =>
    rw [sweepOnce_config] at ih
    exact (swept_sweepOnce s now db key).trans ih

end Sweeps

theorem sweeps_drain (now fuel : Nat) (s : Store) : Sweeps now s (drain now fuel s).2 := by
  induction fuel generalizing s with
  | zero => exact .none s
  | succ fuel ih =>
    simp only [drain]
    split
    · exact .more (.none _)
    · exact .more (ih _)

theorem sweeps_restoreAll (s : Store) (now : Nat) : Sweeps now s (s.restoreAll now).2 :=
  sweeps_drain now _ s

theorem sweeps_of_sweep {s t : Store} {now n : Nat} (h : s.sweep now = .ok (n, t)) :
    Sweeps now s t := by
  unfold sweep at h
  split at h
  · cases h
  · cases h
    exact .more (.none _)

theorem sweeps_of_restore {s t : Store} {now n : Nat} (h : s.restore now = .ok (n, t)) :
    Sweeps now s t := by
  unfold restore at h
  split at h
  · cases h
  · obtain rfl := congrArg Prod.snd (Except.ok.inj h)
    exact sweeps_restoreAll s now

/-- Cleaning in the background sweeps and then closes. -/
theorem sweeps_clean (now n : Nat) (s : Store) : ∃ t, Sweeps now s t ∧ s.clean now n = t.close := by
  induction n generalizing s with
  | zero => exact ⟨s, .none s, rfl⟩
  | succ n ih =>
    rw [clean]
    split
    · rename_i h
      unfold sweep at h
      split at h
      · cases h
      · cases h
        obtain ⟨t, ht, he⟩ := ih (s.sweepOnce now).2
        exact ⟨t, .more ht, he⟩
    · exact ⟨s, .none s, rfl⟩

/-- Opening starts afresh on the records that are there, and sweeps at most. -/
theorem sweeps_openOn {config : Config} {storage : Storage} {now : Nat} {s : Store}
    (h : openOn config storage now = .ok s) :
    config.validate = .ok () ∧ Sweeps now (fresh config storage) s := by
  unfold openOn at h
  split at h
  · cases h
  · rename_i hv
    cases h
    refine ⟨hv, ?_⟩
    split
    · exact sweeps_restoreAll _ now
    · exact .none _

end Store

end Keyspace
