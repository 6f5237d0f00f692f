import Keyspace.Proofs.Store.Draining

/-!
# The share of a sweep

One sweep takes its share of the deadlines: of the entries that are `Deadline.IsStale`, the first in
the order of their tags, up to the configured number. `sweep_takes_share` says that it does exactly
that, and what becomes of the values. What a sweep finds is its share read entry by entry
(`Finding.take_all`), so the entries of the share and no others go (`entries_collectAll_take`).

Sweeps that follow each other take one share after the other, so together they take what a single
sweep with a larger share does (`sweepTimes_eq`).
-/

namespace Keyspace

namespace Deadline

/-- The entry is for a sweep to take: it is malformed, or due. -/
def IsStale (now : Nat) (e : Bytes × Bytes) : Prop := ¬ IsWellFormed e ∨ IsDue now e

instance (now : Nat) (e : Bytes × Bytes) : Decidable (IsStale now e) :=
  inferInstanceAs (Decidable (_ ∨ _))

end Deadline

namespace Storage

open Deadline

/-- The entries of the deadlines that are for sweeps to take, in the order of their tags. -/
def stale (now : Nat) (s : Storage) : List (Bytes × Bytes) :=
  s.deadlines.entries.filter fun e => IsStale now e

/-- The first `n` of them: what a sweep takes that may take so many. -/
def share (now n : Nat) (s : Storage) : List (Bytes × Bytes) := (s.stale now).take n

/-- The share has a well-formed entry for the key. -/
def Takes (now n : Nat) (s : Storage) (db : DbId) (key : Bytes) : Prop :=
  ∃ record, (tag db key, record) ∈ s.share now n ∧ IsWellFormed (tag db key, record)

variable {now n : Nat} {s : Storage} {e : Bytes × Bytes}

theorem mem_stale_of_mem_share (h : e ∈ s.share now n) : e ∈ s.stale now := List.mem_of_mem_take h

theorem isStale_of_mem_share (h : e ∈ s.share now n) : IsStale now e :=
  of_decide_eq_true (List.mem_filter.1 (mem_stale_of_mem_share h)).2

/-- An entry is in the share if one with its tag is: no two entries have one tag. -/
theorem tag_mem_share_iff (he : e ∈ s.deadlines.entries) :
    e.1 ∈ (s.share now n).map (·.1) ↔ e ∈ s.share now n := by
  rw [List.mem_map]
  constructor
  · rintro ⟨e', he', htag⟩
    have hmem := (List.mem_filter.1 (mem_stale_of_mem_share he')).1
    have hrecord := OrderedMap.mem_entries_iff.1 hmem
    rw [htag, OrderedMap.mem_entries_iff.1 he] at hrecord
    rwa [Prod.ext htag.symm (Option.some.inj hrecord)]
  · intro h
    exact ⟨e, h, rfl⟩

end Storage

/-! ## Stale entries and findings -/

namespace Finding

open Deadline

variable {now : Nat} {l : List (Bytes × Bytes)}

theorem isStale_iff {e : Bytes × Bytes} : IsStale now e ↔ classify now e ≠ none := by
  rw [Ne, classify_eq_none_iff, IsStale]
  by_cases hwf : IsWellFormed e <;> simp [hwf]

/-- The first findings are those of the first stale entries. -/
theorem take_filterMap_classify (now n : Nat) (l : List (Bytes × Bytes)) :
    (l.filterMap (classify now)).take n =
      ((l.filter fun e => IsStale now e).take n).filterMap (classify now) := by
  induction l generalizing n with
  | nil => simp
  | cons e l ih =>
    cases hc : classify now e with
    | none =>
      have hfresh : ¬ IsStale now e := fun h => isStale_iff.1 h hc
      rw [List.filterMap_cons_none hc, List.filter_cons_of_neg (by simpa using hfresh), ih]
    | some f =>
      have hstale : IsStale now e := isStale_iff.2 (by simp [hc])
      rw [List.filterMap_cons_some hc, List.filter_cons_of_pos (by simpa using hstale)]
      cases n with
      | zero => rfl
      | succ n => rw [List.take_succ_cons, List.take_succ_cons, List.filterMap_cons_some hc, ih]

theorem take_all (now n : Nat) (storage : Storage) :
    (all now storage).take n = (storage.share now n).filterMap (classify now) :=
  take_filterMap_classify now n storage.deadlines.entries

theorem map_tag_filterMap (h : ∀ e ∈ l, IsStale now e) :
    (l.filterMap (classify now)).map tag = l.map (·.1) := by
  induction l with
  | nil => rfl
  | cons e l ih =>
    obtain ⟨he, hl⟩ := List.forall_mem_cons.1 h
    obtain ⟨f, hf⟩ := Option.ne_none_iff_exists'.1 (isStale_iff.1 he)
    rw [List.filterMap_cons_some hf, List.map_cons, List.map_cons, ih hl, tag_of_classify hf]

/-- Of stale entries, those that are well-formed count as removed. -/
theorem countP_of_isStale (h : ∀ e ∈ l, IsStale now e) :
    (l.filterMap (classify now)).countP isCounted = l.countP fun e => IsWellFormed e := by
  rw [countP_filterMap_classify]
  refine List.countP_congr fun e he => ?_
  rw [decide_eq_true_eq, decide_eq_true_eq]
  exact and_iff_left_of_imp fun hwf => (h e he).resolve_left fun hnot => hnot hwf

end Finding

namespace Store

open Finding Deadline

variable {s t : Store} {now n m : Nat}

/-- The entries of the share go, and no others. -/
theorem entries_collectAll_take (s : Store) (now n : Nat) :
    (s.collectAll ((all now s.storage).take n)).storage.deadlines.entries =
      s.storage.deadlines.entries.filter fun e => e ∉ s.storage.share now n := by
  rw [entries_collectAll, take_all, map_tag_filterMap fun e he => Storage.isStale_of_mem_share he]
  refine List.filter_congr fun e he => ?_
  rw [decide_eq_decide]
  exact not_congr (Storage.tag_mem_share_iff he)

theorem takes_iff {db : DbId} {key : Bytes} :
    s.storage.Takes now n db key ↔ .expired db key ∈ (all now s.storage).take n := by
  rw [take_all, expired_mem_filterMap_iff]
  refine exists_congr fun record => and_congr_right fun hmem => ?_
  exact (and_iff_left_of_imp fun hwf =>
    (Storage.isStale_of_mem_share hmem).resolve_left fun hnot => hnot hwf).symm

/-! ## Sweeps that follow each other -/

/-- Sweeps at `now`, one after the other, with the number of keys that they remove together. -/
def sweepTimes (now : Nat) : (n : Nat) → Store → Except Error (Nat × Store)
  | 0, s => .ok (0, s)
  | n + 1, s => do
    let (m, s) ← s.sweep now
    let (k, s) ← sweepTimes now n s
    return (m + k, s)

theorem sweep_eq (hopen : s.isClosed = false) :
    s.sweep now = .ok (((all now s.storage).take s.config.cleanupBatchSize).countP isCounted,
      s.collectAll ((all now s.storage).take s.config.cleanupBatchSize)) := by
  rw [sweep, hopen]
  rfl

/-- **Sweeps deal with one share after the other.** -/
theorem sweepTimes_eq (hopen : s.isClosed = false) (n : Nat) :
    s.sweepTimes now n =
      .ok (((all now s.storage).take (n * s.config.cleanupBatchSize)).countP isCounted,
        s.collectAll ((all now s.storage).take (n * s.config.cleanupBatchSize))) := by
  induction n generalizing s with
  | zero =>
    rw [Nat.zero_mul, List.take_zero]
    rfl
  | succ n ih =>
    have hopen' : (s.sweepOnce now).2.isClosed = false := (sweepOnce_isClosed s now).trans hopen
    have hrest := ih hopen'
    rw [all_sweepOnce, sweepOnce_config] at hrest
    -- what the first sweep finds, and then the others, is found in this order
    have hfound := List.take_add (l := all now s.storage) (i := s.config.cleanupBatchSize)
      (j := n * s.config.cleanupBatchSize)
    rw [Nat.succ_mul, Nat.add_comm (n * _), hfound, List.countP_append, collectAll,
      List.foldl_append, sweepTimes, sweep_eq hopen]
    show (do let (k, t) ← sweepTimes now n (s.sweepOnce now).2; return (_ + k, t)) = _
    rw [hrest]
    rfl

/-- Cleaning in the background comes to as many sweeps. -/
theorem clean_eq_of_sweepTimes (h : s.sweepTimes now n = .ok (m, t)) : s.clean now n = t.close := by
  induction n generalizing s m with
  | zero =>
    obtain ⟨-, rfl⟩ := Prod.mk.inj (Except.ok.inj h)
    rfl
  | succ n ih =>
    obtain ⟨⟨k, u⟩, hsweep, h⟩ := bind_eq_ok_iff.1 h
    obtain ⟨⟨k', u'⟩, htimes, h⟩ := bind_eq_ok_iff.1 h
    obtain ⟨-, rfl⟩ := Prod.mk.inj (Except.ok.inj h)
    rw [clean, hsweep]
    exact ih htimes

/-- The store with another number of entries that a sweep may take. -/
def withBatch (s : Store) (n : Nat) : Store :=
  { s with config := { s.config with cleanupBatchSize := n } }

/-- **A sweep takes exactly its share.** Whatever an open store holds, a sweep removes the first
stale entries of the deadlines, up to the configured number, and no other entry. Of the values it
removes those of the well-formed entries among them whose database is in range, and every other
value is as it was. The answer is the number of well-formed entries among them. Sweeps that follow
each other, as those in the background do, answer together what one sweep answers that may take as
many entries as all of them, and leave the same records. -/
theorem sweep_takes_share (s : Store) (now : Nat) (hopen : s.isClosed = false) :
    let batch := s.config.cleanupBatchSize
    let share := s.storage.share now batch
    (∃ t, s.sweep now = .ok (share.countP fun e => IsWellFormed e, t) ∧
      t.storage.deadlines.entries = s.storage.deadlines.entries.filter (fun e => e ∉ share) ∧
      (∀ db key, s.storage.Takes now batch db key → db.toNat < s.config.maxDatabases →
        (t.storage.table db).get? key = none) ∧
      (∀ db key, ¬ (s.storage.Takes now batch db key ∧ db.toNat < s.config.maxDatabases) →
        (t.storage.table db).get? key = (s.storage.table db).get? key) ∧
      ∀ name, (∀ db : DbId, db.toNat < s.config.maxDatabases → tableName db ≠ name) →
        t.storage.tree name = s.storage.tree name) ∧
    ∀ n, ∃ m t, s.sweepTimes now n = .ok (m, t) ∧ s.clean now n = t.close ∧
      ∃ u, (s.withBatch (n * batch)).sweep now = .ok (m, u) ∧ u.storage = t.storage := by
  intro batch share
  constructor
  · refine ⟨s.collectAll ((all now s.storage).take batch), ?_, entries_collectAll_take s now batch,
      fun db key htakes hdb => ?_, fun db key hnot => ?_,
      fun name hn => (frame_collectAll s _).tree hn⟩
    · have hcount := countP_of_isStale (l := share) fun e he => Storage.isStale_of_mem_share he
      rw [← take_all] at hcount
      rw [sweep_eq hopen, hcount]
    · rw [get?_collectAll, if_pos ⟨takes_iff.1 htakes, hdb⟩]
    · rw [get?_collectAll, if_neg fun h => hnot ⟨takes_iff.2 h.1, h.2⟩]
  · intro n
    have htimes : s.sweepTimes now n = _ := sweepTimes_eq hopen n
    have hopen' : (s.withBatch (n * batch)).isClosed = false := hopen
    have hstorage : (s.withBatch (n * batch)).storage = s.storage := rfl
    exact ⟨_, _, htimes, clean_eq_of_sweepTimes htimes, _, sweep_eq hopen',
      storage_collectAll_congr hstorage rfl _⟩

/-- Of five stale entries a sweep takes the first three: one that cannot be read, one of a key, and
one without a value. Two sweeps take all of them, as one sweep of six does. -/
theorem sweep_takes_share_mixed :
    let due := some (Deadline.encode ⟨2, 1⟩)
    let storage := (Storage.empty.rawWrite ⟨deadlinesName, [7], some [0]⟩)
      |>.setSlot 0 [106] ⟨some [118], some [0]⟩ |>.setSlot 0 [107] ⟨some [118], due⟩
      |>.setSlot 1 [107] ⟨none, due⟩ |>.setSlot 9 [107] ⟨some [118], due⟩
      |>.setSlot 0 [108] ⟨some [118], some (Deadline.encode ⟨9, 1⟩)⟩
    let s : Store := .fresh { maxDatabases := 2, cleanupBatchSize := 3 } storage
    s.isClosed = false ∧
      (∃ t, s.sweep 5 = .ok (2, t) ∧
        t.storage.deadlines.entries.map (·.1) = [tag 0 [108], tag 9 [107], [7]] ∧
        (t.storage.table 0).get? [107] = none ∧
        (t.storage.table 0).get? [106] = some [118] ∧
        (t.storage.table 9).get? [107] = some [118]) ∧
      ∃ t, s.sweepTimes 5 2 = .ok (3, t) ∧ s.clean 5 2 = t.close ∧
        ∃ u, (s.withBatch 6).sweep 5 = .ok (3, u) ∧ u.storage = t.storage := by
  intro due storage s
  have hopen : s.isClosed = false := rfl
  obtain ⟨⟨t, hsweep, hentries, hgone, hkept, -⟩, htimes⟩ := sweep_takes_share s 5 hopen
  have hcount :
      ((s.storage.share 5 s.config.cleanupBatchSize).countP fun e => IsWellFormed e) = 2 := by
    decide
  refine ⟨hopen, ⟨t, hsweep.trans (by rw [hcount]), ?_, ?_, ?_, ?_⟩, ?_⟩
  · rw [hentries]
    decide
  · exact hgone 0 [107] (takes_iff.2 (by decide)) (by decide)
  · rw [hkept 0 [106] fun h => absurd (takes_iff.1 h.1) (by decide)]
    decide
  · rw [hkept 9 [107] fun h => absurd h.2 (by decide)]
    decide
  · obtain ⟨m, t, htwice, hclean, u, honce, hsame⟩ := htimes 2
    have hsix : ((s.withBatch 6).sweep 5).map (·.1) = .ok 3 := by rfl
    obtain rfl : m = 3 := by
      rw [show (s.withBatch 6).sweep 5 = .ok (m, u) from honce] at hsix
      exact Except.ok.inj hsix
    exact ⟨t, htwice, hclean, u, honce, hsame⟩

end Store

end Keyspace
