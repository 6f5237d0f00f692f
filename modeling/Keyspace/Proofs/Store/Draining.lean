import Keyspace.Proofs.Store.Sweeps

/-!
# Restoring drains completely

`restore_drains`: whatever is stored, restoring an open store comes to an end, and then the
deadlines are those that can be read and have not passed, and of the values those of the expired
keys in range are gone. How many entries one sweep may remove does not matter.

The findings of a storage come in the order of their tags (`Finding.pairwise_all`), and dealing with
some of them takes away the entries with their tags and no other (`entries_collectAll`). So after a
sweep that dealt with the first findings the others are left (`all_collectAll_take`), and sweep
after sweep comes to dealing with all of them at once (`drains_collectAll`). `Store.Drains` is the
loop of sweeps without a bound on their number; the bound of `Store.restoreAll` never cuts it short
(`Drains.drain_eq`).
-/

namespace Keyspace

/-! ## Entries of the deadlines -/

namespace Deadline

/-- The tag of an entry is long enough for a database, and its record has the width of a deadline.
-/
def IsWellFormed (e : Bytes × Bytes) : Prop := 4 ≤ e.1.length ∧ e.2.length = 16

/-- The second at which a deadline expires, the first eight bytes of its record, is not ahead. -/
def IsDue (now : Nat) (e : Bytes × Bytes) : Prop := BigEndian.toNat (e.2.take 8) ≤ now

instance (e : Bytes × Bytes) : Decidable (IsWellFormed e) := inferInstanceAs (Decidable (_ ∧ _))

instance (now : Nat) (e : Bytes × Bytes) : Decidable (IsDue now e) :=
  inferInstanceAs (Decidable (_ ≤ _))

theorem decode?_of_length {b : Bytes} (h : b.length = 16) :
    decode? b = some ⟨BigEndian.toNat (b.take 8), BigEndian.toNat (b.drop 8)⟩ := if_pos h

end Deadline

namespace Finding

open Deadline

/-- The tag of the entry that a finding is about. -/
def tag : Finding → Bytes
  | expired db key => Deadline.tag db key
  | malformed tag => tag

variable {now : Nat} {e : Bytes × Bytes} {f : Finding} {storage : Storage}

/-- What a sweep makes of a well-formed entry. -/
theorem classify_of_isWellFormed (now : Nat) (h : IsWellFormed e) :
    ∃ db key, e.1 = Deadline.tag db key ∧
      classify now e = if IsDue now e then some (.expired db key) else none := by
  obtain ⟨tag, record⟩ := e
  obtain ⟨htag, hrecord⟩ := h
  rcases untag_eq_none_or tag with hnone | ⟨db, key, rfl⟩
  · have := untag_eq_none_iff.1 hnone
    exact absurd htag (by simp only; omega)
  · refine ⟨db, key, rfl, ?_⟩
    have hexpired : (Deadline.mk (BigEndian.toNat (record.take 8))
        (BigEndian.toNat (record.drop 8))).isExpired now =
          decide (IsDue now (Deadline.tag db key, record)) := rfl
    rw [classify_tag, decode?_of_length hrecord]
    simp only [hexpired, decide_eq_true_eq]

/-- Every other entry is a finding of its own. -/
theorem classify_of_not_isWellFormed (h : ¬ IsWellFormed e) :
    classify now e = some (.malformed e.1) := by
  obtain ⟨tag, record⟩ := e
  rcases untag_eq_none_or tag with hnone | ⟨db, key, rfl⟩
  · exact classify_of_untag hnone now record
  · have hrecord : record.length ≠ width := fun hl => h ⟨by simp [Deadline.tag], hl⟩
    rw [classify_tag, decode?_eq_none_iff.2 hrecord]

theorem tag_of_classify (h : classify now e = some f) : f.tag = e.1 := by
  by_cases hwf : IsWellFormed e
  · obtain ⟨db, key, htag, hc⟩ := classify_of_isWellFormed now hwf
    rw [hc] at h
    split at h
    · cases h
      exact htag.symm
    · cases h
  · rw [classify_of_not_isWellFormed hwf] at h
    cases h
    rfl

/-- A sweep passes over the entries that are well-formed and not due. -/
theorem classify_eq_none_iff : classify now e = none ↔ IsWellFormed e ∧ ¬ IsDue now e := by
  by_cases hwf : IsWellFormed e
  · obtain ⟨db, key, -, hc⟩ := classify_of_isWellFormed now hwf
    by_cases hdue : IsDue now e <;> simp [hc, hwf, hdue]
  · simp [classify_of_not_isWellFormed hwf, hwf]

/-- It counts those that are well-formed and due. -/
theorem isCounted_classify (now : Nat) (e : Bytes × Bytes) :
    ((classify now e).map isCounted).getD false = decide (IsWellFormed e ∧ IsDue now e) := by
  by_cases hwf : IsWellFormed e
  · obtain ⟨db, key, -, hc⟩ := classify_of_isWellFormed now hwf
    by_cases hdue : IsDue now e <;> simp [hc, hwf, hdue, isCounted]
  · simp [classify_of_not_isWellFormed hwf, hwf, isCounted]

theorem countP_filterMap_classify (now : Nat) (l : List (Bytes × Bytes)) :
    (l.filterMap (classify now)).countP isCounted =
      l.countP fun e => IsWellFormed e ∧ IsDue now e := by
  rw [List.countP_filterMap]
  exact List.countP_congr fun e _ => by rw [isCounted_classify]

theorem countP_all (now : Nat) (storage : Storage) :
    (all now storage).countP isCounted =
      storage.deadlines.entries.countP fun e => IsWellFormed e ∧ IsDue now e :=
  countP_filterMap_classify now storage.deadlines.entries

/-- The expired keys among the findings are those of the well-formed entries that are due. -/
theorem expired_mem_filterMap_iff {l : List (Bytes × Bytes)} {db : DbId} {key : Bytes} :
    .expired db key ∈ l.filterMap (classify now) ↔
      ∃ record, (Deadline.tag db key, record) ∈ l ∧
        IsWellFormed (Deadline.tag db key, record) ∧ IsDue now (Deadline.tag db key, record) := by
  rw [List.mem_filterMap]
  constructor
  · rintro ⟨⟨tag, record⟩, hmem, hc⟩
    obtain rfl : Deadline.tag db key = tag := tag_of_classify hc
    have hcounted := isCounted_classify now (Deadline.tag db key, record)
    rw [hc] at hcounted
    exact ⟨record, hmem, of_decide_eq_true hcounted.symm⟩
  · rintro ⟨record, hmem, hwf, hdue⟩
    obtain ⟨db', key', htag, hc⟩ := classify_of_isWellFormed now hwf
    obtain ⟨rfl, rfl⟩ := Deadline.tag_injective htag
    rw [if_pos hdue] at hc
    exact ⟨_, hmem, hc⟩

theorem length_all_le (now : Nat) (storage : Storage) :
    (all now storage).length ≤ storage.deadlines.size :=
  List.length_filterMap_le _ _

/-- Findings come in the order of their tags. -/
theorem pairwise_all (now : Nat) (storage : Storage) :
    (all now storage).Pairwise fun f g => f.tag < g.tag := by
  rw [all, List.pairwise_filterMap]
  refine storage.deadlines.sorted.imp fun {a b} hab f hf g hg => ?_
  rw [tag_of_classify hf, tag_of_classify hg]
  exact hab

/-- Without those whose tags the first findings have, the others are left. -/
theorem filter_tag_not_mem_take {l : List Finding} (h : l.Pairwise fun f g => f.tag < g.tag)
    (n : Nat) : (l.filter fun f => f.tag ∉ (l.take n).map tag) = l.drop n := by
  induction l generalizing n with
  | nil => simp
  | cons f l ih =>
    obtain ⟨hf, hl⟩ := List.pairwise_cons.1 h
    cases n with
    | zero => exact List.filter_eq_self.2 (by simp)
    | succ n =>
      rw [List.take_succ_cons, List.map_cons, List.drop_succ_cons, ← ih hl n,
        List.filter_cons_of_neg (by simp)]
      refine List.filter_congr fun g hg => ?_
      have hne : g.tag ≠ f.tag := fun he => List.lt_irrefl _ (he ▸ hf g hg)
      simp [hne]

/-- An entry is found if a finding has its tag. -/
theorem tag_mem_all_iff (he : e ∈ storage.deadlines.entries) :
    e.1 ∈ (all now storage).map tag ↔ ¬ (IsWellFormed e ∧ ¬ IsDue now e) := by
  rw [← classify_eq_none_iff, List.mem_map]
  constructor
  · rintro ⟨f, hf, htag⟩ hnone
    obtain ⟨e', he', hc⟩ := List.mem_filterMap.1 hf
    rw [tag_of_classify hc] at htag
    -- no two entries have one tag
    have hrecord := OrderedMap.mem_entries_iff.1 he'
    rw [htag, OrderedMap.mem_entries_iff.1 he] at hrecord
    rw [← Prod.ext htag.symm (Option.some.inj hrecord), hnone] at hc
    cases hc
  · intro h
    obtain ⟨f, hf⟩ := Option.ne_none_iff_exists'.1 h
    exact ⟨f, List.mem_filterMap.2 ⟨e, he, hf⟩, tag_of_classify hf⟩

end Finding

/-! ## Dealing with all findings -/

namespace Store

open Finding

variable {s t : Store} {now n : Nat}

theorem deadlines_collect (s : Store) (f : Finding) :
    (s.collect f).storage.deadlines = s.storage.deadlines.erase f.tag := by
  cases f with
  | expired db key =>
    rw [collect_expired]
    split <;> rfl
  | malformed tag => rfl

/-- To deal with findings takes away the entries with their tags. -/
theorem entries_collectAll (s : Store) (found : List Finding) :
    (s.collectAll found).storage.deadlines.entries =
      s.storage.deadlines.entries.filter fun e => e.1 ∉ found.map tag := by
  induction found generalizing s with
  | nil => exact (List.filter_eq_self.2 (by simp)).symm
  | cons f found ih =>
    have herase : ∀ m : Tree, (m.erase f.tag).entries = m.entries.filter fun e => e.1 ≠ f.tag :=
      fun _ => rfl
    rw [collectAll, List.foldl_cons, ← collectAll, ih, deadlines_collect, herase,
      List.filter_filter]
    refine List.filter_congr fun e _ => ?_
    rw [List.map_cons, ← Bool.decide_and, decide_eq_decide, List.mem_cons, not_or, and_comm]

/-- Once the first findings are dealt with, the others are left. -/
theorem all_collectAll_take (s : Store) (now n : Nat) :
    all now (s.collectAll ((all now s.storage).take n)).storage = (all now s.storage).drop n := by
  rw [← filter_tag_not_mem_take (pairwise_all now s.storage)]
  generalize (all now s.storage).take n = found
  rw [all, entries_collectAll, all, List.filterMap_filter, List.filter_filterMap]
  congr 1
  funext e
  cases hc : classify now e with
  | none => simp
  | some f => simp [Option.filter, tag_of_classify hc]

/-- What becomes of the records does not depend on more than the records and the range. -/
theorem storage_collect_congr {s' : Store} (hs : s'.storage = s.storage)
    (hrange : s'.config.maxDatabases = s.config.maxDatabases) (f : Finding) :
    (s'.collect f).storage = (s.collect f).storage := by
  cases f with
  | expired db key =>
    rw [collect_expired, collect_expired, hrange]
    split
    · simp only [hs]
    · rw [dropEntry_storage, dropEntry_storage, hs]
  | malformed tag =>
    show s'.storage.eraseDeadline tag = s.storage.eraseDeadline tag
    rw [hs]

theorem storage_collectAll_congr {s' : Store} (hs : s'.storage = s.storage)
    (hrange : s'.config.maxDatabases = s.config.maxDatabases) (found : List Finding) :
    (s'.collectAll found).storage = (s.collectAll found).storage := by
  induction found generalizing s s' with
  | nil => exact hs
  | cons f found ih =>
    refine ih (storage_collect_congr hs hrange f) ?_
    rw [collect_config, collect_config, hrange]

/-! ## The loop of sweeps -/

/-- Sweeps at `now`, until one finds less than it may, take the store to another one and remove so
many keys: they do come to an end. -/
inductive Drains (now : Nat) : Store → Nat → Store → Prop
  | last {s : Store} (h : (s.sweepOnce now).1.length < s.config.cleanupBatchSize) :
    Drains now s ((s.sweepOnce now).1.countP isCounted) (s.sweepOnce now).2
  | more {s t : Store} {n : Nat} (h : s.config.cleanupBatchSize ≤ (s.sweepOnce now).1.length)
    (rest : Drains now (s.sweepOnce now).2 n t) :
    Drains now s ((s.sweepOnce now).1.countP isCounted + n) t

/-- What is left to find after a sweep. -/
theorem all_sweepOnce (s : Store) (now : Nat) : all now (s.sweepOnce now).2.storage =
    (all now s.storage).drop s.config.cleanupBatchSize :=
  all_collectAll_take s now _

/-- **Sweep after sweep deals with all findings**, and comes to an end. -/
theorem drains_collectAll (hbatch : 1 ≤ s.config.cleanupBatchSize) :
    s.Drains now ((all now s.storage).countP isCounted) (s.collectAll (all now s.storage)) := by
  induction hlen : (all now s.storage).length using Nat.strongRecOn generalizing s with
  | ind len ih =>
    by_cases hless : len < s.config.cleanupBatchSize
    · have htake : (all now s.storage).take s.config.cleanupBatchSize = all now s.storage :=
        List.take_of_length_le (by omega)
      have hlast : s.Drains now _ _ := .last (by rw [sweepOnce, htake, hlen]; exact hless)
      rwa [sweepOnce, htake] at hlast
    · have hfound : (s.sweepOnce now).1.length = s.config.cleanupBatchSize := by
        rw [sweepOnce, List.length_take]
        omega
      have hleft : (all now (s.sweepOnce now).2.storage).length =
          len - s.config.cleanupBatchSize := by
        rw [all_sweepOnce, List.length_drop, hlen]
      have hrest := ih _ (by omega) (s := (s.sweepOnce now).2)
        (by rw [sweepOnce_config]; exact hbatch) hleft
      have hmore := Drains.more (by omega) hrest
      -- what this sweep found and what it left are all findings
      have hcount : (s.sweepOnce now).1.countP isCounted +
          (all now (s.sweepOnce now).2.storage).countP isCounted =
            (all now s.storage).countP isCounted := by
        rw [all_sweepOnce, sweepOnce, ← List.countP_append, List.take_append_drop]
      have hstore : (s.sweepOnce now).2.collectAll (all now (s.sweepOnce now).2.storage) =
          s.collectAll (all now s.storage) := by
        rw [all_sweepOnce]
        show (s.collectAll _).collectAll _ = _
        rw [collectAll, collectAll, ← List.foldl_append, List.take_append_drop]
      rwa [hcount, hstore] at hmore

/-- A bound above the number of findings does not cut the loop short. -/
theorem Drains.drain_eq (h : s.Drains now n t) (hbatch : 1 ≤ s.config.cleanupBatchSize)
    {fuel : Nat} (hfuel : (all now s.storage).length < fuel) : drain now fuel s = (n, t) := by
  induction h generalizing fuel with
  | last hless =>
    obtain ⟨fuel, rfl⟩ := Nat.exists_eq_succ_of_ne_zero (Nat.ne_of_gt (Nat.zero_lt_of_lt hfuel))
    exact if_pos hless
  | @more s t n hfull rest ih =>
    obtain ⟨fuel, rfl⟩ := Nat.exists_eq_succ_of_ne_zero (Nat.ne_of_gt (Nat.zero_lt_of_lt hfuel))
    have hleft : (all now (s.sweepOnce now).2.storage).length < fuel := by
      have hfound : (s.sweepOnce now).1.length ≤ (all now s.storage).length :=
        List.length_take_le' _ _
      rw [all_sweepOnce, List.length_drop]
      omega
    have hrest := ih (by rw [sweepOnce_config]; exact hbatch) hleft
    rw [drain]
    simp only [Nat.not_lt.2 hfull, if_false, hrest]

theorem restoreAll_eq (hbatch : 1 ≤ s.config.cleanupBatchSize) :
    s.restoreAll now =
      ((all now s.storage).countP isCounted, s.collectAll (all now s.storage)) := by
  have hle := length_all_le now s.storage
  exact (drains_collectAll hbatch).drain_eq hbatch (by omega)

/-! ## What is left -/

/-- Only the well-formed entries that are not due are left. -/
theorem entries_collectAll_all (s : Store) (now : Nat) :
    (s.collectAll (all now s.storage)).storage.deadlines.entries =
      s.storage.deadlines.entries.filter fun e =>
        Deadline.IsWellFormed e ∧ ¬ Deadline.IsDue now e := by
  rw [entries_collectAll]
  refine List.filter_congr fun e he => ?_
  rw [decide_eq_decide, tag_mem_all_iff he, Classical.not_not]

/-- The deadlines have a well-formed entry for the key, which is due. -/
def Lapsed (now : Nat) (s : Store) (db : DbId) (key : Bytes) : Prop :=
  ∃ record, (Deadline.tag db key, record) ∈ s.storage.deadlines.entries ∧
    Deadline.IsWellFormed (Deadline.tag db key, record) ∧
    Deadline.IsDue now (Deadline.tag db key, record)

theorem lapsed_iff {db : DbId} {key : Bytes} :
    s.Lapsed now db key ↔ .expired db key ∈ all now s.storage := expired_mem_filterMap_iff.symm

theorem get?_collectAll (s : Store) (found : List Finding) (db : DbId) (key : Bytes) :
    ((s.collectAll found).storage.table db).get? key =
      if .expired db key ∈ found ∧ db.toNat < s.config.maxDatabases then none
      else (s.storage.table db).get? key := by
  refine (congrArg Slot.value (slot_collectAll s found db key)).trans ?_
  split
  · rfl
  · split <;> rfl

/-- **Restoring drains completely.** Whatever an open store holds and however many entries a sweep
may remove, the sweeps of a restoration come to an end. Then the deadlines are the well-formed
ones that are not due, the values of the keys in range whose deadline was due are gone, every
other value is as it was, and the answer is the number of well-formed deadlines that were due. A
store that removes another number of entries in one sweep answers the same and is left with the
same records. -/
theorem restore_drains (now : Nat) (hopen : s.isClosed = false)
    (hbatch : 1 ≤ s.config.cleanupBatchSize) :
    ∃ n t, s.restore now = .ok (n, t) ∧ s.Drains now n t ∧
      t.storage.deadlines.entries = s.storage.deadlines.entries.filter (fun e =>
        Deadline.IsWellFormed e ∧ ¬ Deadline.IsDue now e) ∧
      (∀ db key, s.Lapsed now db key → db.toNat < s.config.maxDatabases →
        (t.storage.table db).get? key = none) ∧
      (∀ db key, ¬ (s.Lapsed now db key ∧ db.toNat < s.config.maxDatabases) →
        (t.storage.table db).get? key = (s.storage.table db).get? key) ∧
      (∀ name, (∀ db : DbId, db.toNat < s.config.maxDatabases → tableName db ≠ name) →
        t.storage.tree name = s.storage.tree name) ∧
      n = s.storage.deadlines.entries.countP (fun e =>
        Deadline.IsWellFormed e ∧ Deadline.IsDue now e) ∧
      ∀ s' : Store, s'.storage = s.storage → s'.config.maxDatabases = s.config.maxDatabases →
        s'.isClosed = false → 1 ≤ s'.config.cleanupBatchSize →
          ∃ t', s'.restore now = .ok (n, t') ∧ t'.storage = t.storage := by
  refine ⟨_, _, ?_, drains_collectAll hbatch, entries_collectAll_all s now, ?_, ?_,
    fun name hn => (frame_collectAll s _).tree hn, countP_all now s.storage, ?_⟩
  · rw [restore, hopen, restoreAll_eq hbatch]
    rfl
  · intro db key hlapsed hdb
    rw [get?_collectAll, if_pos ⟨lapsed_iff.1 hlapsed, hdb⟩]
  · intro db key hnot
    rw [get?_collectAll, if_neg fun h => hnot ⟨lapsed_iff.2 h.1, h.2⟩]
  · intro s' hs hrange hopen' hbatch'
    refine ⟨_, ?_, storage_collectAll_congr hs hrange (all now s.storage)⟩
    rw [restore, hopen', restoreAll_eq hbatch', hs]
    rfl

/-- Two entries that cannot be read, a deadline without a value, one of a database out of range, one
of a key, and one that is ahead, with two entries to a sweep. -/
theorem restore_drains_mixed :
    let due := some (Deadline.encode ⟨2, 1⟩)
    let storage := (Storage.empty.rawWrite ⟨deadlinesName, [7], some [0]⟩)
      |>.setSlot 0 [106] ⟨some [118], some [0]⟩ |>.setSlot 0 [107] ⟨some [118], due⟩
      |>.setSlot 1 [107] ⟨none, due⟩ |>.setSlot 9 [107] ⟨some [118], due⟩
      |>.setSlot 0 [108] ⟨some [118], some (Deadline.encode ⟨9, 1⟩)⟩
    let s : Store := .fresh { maxDatabases := 2, cleanupBatchSize := 2 } storage
    s.isClosed = false ∧ 1 ≤ s.config.cleanupBatchSize ∧
      ∃ t, s.restore 5 = .ok (3, t) ∧ s.Drains 5 3 t ∧
        t.storage.deadlines.entries = [(Deadline.tag 0 [108], Deadline.encode ⟨9, 1⟩)] ∧
        (t.storage.table 0).get? [106] = some [118] ∧ (t.storage.table 0).get? [107] = none ∧
        (t.storage.table 9).get? [107] = some [118] := by
  intro due storage s
  have hopen : s.isClosed = false := rfl
  have hbatch : 1 ≤ s.config.cleanupBatchSize := by decide
  obtain ⟨n, t, hrestore, hdrains, hentries, hgone, hkept, -, hn, -⟩ :=
    restore_drains 5 hopen hbatch
  obtain rfl : n = 3 := hn.trans (by decide)
  refine ⟨hopen, hbatch, t, hrestore, hdrains, hentries.trans (by decide), ?_, ?_, ?_⟩
  · rw [hkept 0 [106] fun h => absurd h.1 ?_]
    · decide
    · rw [lapsed_iff]
      decide
  · exact hgone 0 [107] (lapsed_iff.2 (by decide)) (by decide)
  · rw [hkept 9 [107] fun h => absurd h.2 (by decide)]
    decide

end Store

end Keyspace
