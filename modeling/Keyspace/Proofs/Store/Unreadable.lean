import Keyspace.Proofs.Kind.Apart
import Keyspace.Proofs.Store.Deadlines
import Keyspace.Proofs.Store.Emptying
import Keyspace.Proofs.Store.Reading
import Keyspace.Proofs.Store.Removal
import Keyspace.Proofs.Store.Shares

/-!
# Keys whose deadline cannot be read

A deadline record of the wrong length says nothing about its key, which may have expired or not. No
command takes a guess: `unreadable_fails_closed` says that on such a key every command fails and
changes nothing, except for the few that are answered before the record is looked at
(`KeyCommand.early`). The key is mended by being removed, alone or with its database, or by a sweep,
which takes the record away and leaves a key that stays.
-/

namespace Keyspace

namespace Slot

variable {s : Slot}

theorem isMalformed_of_length {raw : Bytes} (h : s.deadline = some raw)
    (hlen : raw.length ≠ Deadline.width) : s.isMalformed = true := by
  rw [isMalformed, h, Option.any_some, Deadline.decode?_eq_none_iff.2 hlen]
  rfl

theorem settle_of_isMalformed (h : s.isMalformed = true) (key : Bytes) (now : Nat) :
    s.settle key now = .error (malformed key) := if_pos h

end Slot

namespace KeyCommand

variable {key : Bytes} {clock : Clock} {s : Slot} {k : KeyCommand}

/-- The answer of a command that is given before the deadline record of its key is looked at. -/
def early (now : Nat) : KeyCommand → Option (Except Error Reply)
  | lifetime (.expire seconds) => if seconds < 0 then some (.ok (.flag false)) else none
  | lifetime (.expireAt timestamp) => if timestamp ≤ now then some (.ok (.flag false)) else none
  | change (.zadd score _) => if score.isNaN then some (.error .invalidScore) else none
  | query (.zcount min max) => if max.lt min then some (.ok (.number 0)) else none
  | _ => none

/-- Either the arguments decide, or the command is one for a point in time that has passed, which is
turned down by its transaction. -/
theorem early_eq_some {now : Nat} {answer : Except Error Reply} (h : k.early now = some answer) :
    k.shortcut = some answer ∨
      ∃ timestamp : Int, timestamp ≤ now ∧ k = lifetime (.expireAt timestamp) ∧
        answer = .ok (.flag false) := by
  unfold early at h
  split at h
  · exact .inl h
  · split at h
    · rename_i hpassed
      exact .inr ⟨_, hpassed, rfl, (Option.some.inj h).symm⟩
    · cases h
  · exact .inl h
  · exact .inl h
  · cases h

theorem early_of_shortcut {answer : Except Error Reply} (h : k.shortcut = some answer) (now : Nat) :
    k.early now = some answer := by
  unfold shortcut at h
  split at h
  · exact h
  · exact h
  · exact h
  · cases h

theorem shortcut_of_early {now : Nat} (h : k.early now = none) : k.shortcut = none := by
  refine Option.eq_none_iff_forall_ne_some.2 fun answer hshort => ?_
  rw [early_of_shortcut hshort] at h
  cases h

/-- Every other command fails on a deadline record that cannot be read. -/
theorem run_of_isMalformed (hs : s.isMalformed = true) (h : k.early clock.seconds = none) :
    k.run key clock s = .error (Slot.malformed key) := by
  have hsettle := Slot.settle_of_isMalformed hs key clock.seconds
  cases k with
  | query q => rw [run, hsettle]; rfl
  | change c => rw [run, hsettle]; rfl
  | lifetime l =>
    cases l with
    | expireAt timestamp =>
      have hahead : ¬ timestamp ≤ clock.seconds := fun hle => by simp [early, hle] at h
      rw [run, Lifetime.run, if_neg hahead, hsettle]
      rfl
    | expire | ttl | pttl | persist => rw [run, Lifetime.run, hsettle]; rfl

end KeyCommand

namespace Store

open Storage (SameRecords SameSlot)

variable {s t : Store} {c : Call} {db : DbId} {key raw : Bytes} {keys : List Bytes} {now : Nat}

/-! ## Commands that fail -/

theorem Admits.fails_of_isMalformed (h : s.Admits c db key)
    (hs : (s.storage.slot db key).isMalformed = true) {k : KeyCommand}
    (hk : k.early c.clock.seconds = none) : s.Fails c key k (Slot.malformed key) := by
  obtain ⟨rfl, hkey, hgate, hlate⟩ := h
  exact fails_of_run hkey (KeyCommand.shortcut_of_early hk) hgate
    (Call.pendingInterruption_of_late hlate) (KeyCommand.run_of_isMalformed hs hk)

/-- What is answered early changes nothing, whatever is stored. -/
theorem Admits.perform_of_early (h : s.Admits c db key) {k : KeyCommand}
    {answer : Except Error Reply} (hk : k.early c.clock.seconds = some answer) :
    s.answer c key k = answer ∧
      SameRecords (s.perform c (.onKey key k)).store.storage s.storage := by
  rcases KeyCommand.early_eq_some hk with hshort | ⟨timestamp, hpassed, rfl, rfl⟩
  · rw [Store.answer, perform_of_shortcut h.isKey hshort]
    exact ⟨rfl, .refl _⟩
  · exact h.expireAt_of_passed hpassed

/-! ## Removals -/

/-- A removal counts the key once if it has a value, next to what it counts without the key. -/
theorem Admits.del_of_isMalformed (h : s.Admits c db key)
    (hs : (s.storage.slot db key).isMalformed = true) (hmem : key ∈ keys) :
    (∃ n, (s.perform c (.del (keys.filter (· ≠ key)))).answer = .ok (.count n) ∧
      (s.perform c (.del keys)).answer =
        .ok (.count (if (s.storage.slot db key).value.isSome then n + 1 else n))) ∧
    (s.perform c (.del keys)).store.storage.slot db key = .empty := by
  obtain ⟨rfl, hkey, hgate, hlate⟩ := h
  have hsucceeds : ∀ keys, ∃ r, (s.perform c (.del keys)).answer = .ok r := fun keys =>
    exists_ok_del_iff.2 (.inr ⟨hgate, hlate⟩)
  obtain ⟨r, hr⟩ := hsucceeds keys
  obtain ⟨r', hr'⟩ := hsucceeds (keys.filter (· ≠ key))
  obtain ⟨rfl, hwithout⟩ := removes_of_ok hr
  obtain ⟨rfl, -⟩ := removes_of_ok hr'
  have hvalid : key ∈ keys.filter Keyspace.isKey :=
    List.mem_filter.2 ⟨hmem, by rw [Keyspace.isKey, hkey]⟩
  have hthere : key ∈ s.storage.there c.clock.seconds c.db (keys.filter Keyspace.isKey) ↔
      (s.storage.slot c.db key).value.isSome = true := by
    rw [Storage.mem_there_iff, Slot.purge, Slot.isExpired_of_isMalformed hs]
    simp [hvalid]
  refine ⟨⟨_, hr', ?_⟩, hwithout.empty key hvalid⟩
  rw [hr, Storage.there_filter_ne]
  split
  · rename_i hvalue
    rw [Finset.card_erase_add_one (hthere.2 hvalue)]
  · rename_i hvalue
    rw [Finset.erase_eq_of_notMem fun hmem => hvalue (hthere.1 hmem)]

/-- The emptying of its database removes the key. -/
theorem Admits.flushAll_slot (h : s.Admits c db key) :
    (∃ n, (s.perform c .flushAll).answer = .ok (.count n)) ∧
      (s.perform c .flushAll).store.storage.slot db key = .empty := by
  obtain ⟨rfl, -, hgate, hlate⟩ := h
  obtain ⟨r, hr⟩ := exists_ok_flushAll_iff.2 ⟨hgate, hlate⟩
  obtain ⟨rfl, hstore⟩ := flushAll_of_ok hr
  refine ⟨⟨_, hr⟩, ?_⟩
  rw [hstore]
  exact (Storage.slot_clear _ _ _ _).trans (if_pos rfl)

/-! ## Keys that stay -/

section Persistent

variable {value : Option Bytes}

theorem Admits.answer_get_of_persistent (h : s.Admits c db key)
    (hslot : s.storage.slot db key = ⟨value, none⟩) :
    s.answer c key (.query .get) =
      value.elim (.error .keyNotFound) fun b => .ok (.bytes b) := by
  have hrun : (KeyCommand.query .get).run key c.clock (s.storage.slot db key) =
      .ok (.bytes? value, ⟨value, none⟩) := by
    rw [hslot]
    rfl
  rw [h.answer_of_run rfl hrun]
  cases value <;> rfl

theorem Admits.answer_ttl_of_persistent (h : s.Admits c db key)
    (hslot : s.storage.slot db key = ⟨value, none⟩) :
    s.answer c key (.lifetime .ttl) =
      .ok (.number (if value.isSome then Deadline.persistent else Deadline.notFound)) := by
  have hrun : (KeyCommand.lifetime .ttl).run key c.clock (s.storage.slot db key) =
      .ok (.number (if value.isSome then Deadline.persistent else Deadline.notFound),
        ⟨value, none⟩) := by
    rw [hslot]
    cases value <;> rfl
  exact h.answer_of_run rfl hrun

end Persistent

/-! ## Sweeps -/

/-- The store with the key as it is, but without its deadline record. -/
def mended (s : Store) (db : DbId) (key : Bytes) : Store :=
  { s with storage := s.storage.setSlot db key (s.storage.slot db key).release }

/-- A sweep that reaches the record takes it away and leaves the value. -/
theorem slot_sweep_of_mem_share (hopen : s.isClosed = false)
    (hs : (s.storage.slot db key).isMalformed = true)
    (hmem : (Deadline.tag db key, raw) ∈ s.storage.share now s.config.cleanupBatchSize)
    (hraw : Deadline.decode? raw = none) :
    ∃ n t, s.sweep now = .ok (n, t) ∧ t.config = s.config ∧ t.isClosed = s.isClosed ∧
      t.storage.slot db key = (s.storage.slot db key).release := by
  have hfound : Finding.malformed (Deadline.tag db key) ∈
      (Finding.all now s.storage).take s.config.cleanupBatchSize := by
    rw [Finding.take_all, List.mem_filterMap]
    exact ⟨_, hmem, by rw [Finding.classify_tag, hraw]⟩
  have hnot : Finding.expired db key ∉
      (Finding.all now s.storage).take s.config.cleanupBatchSize := fun h => by
    have he := Finding.expired_mem_all_iff.1 (List.mem_of_mem_take h)
    rw [Slot.isExpired_of_isMalformed hs] at he
    cases he
  refine ⟨_, _, sweep_eq hopen, collectAll_config _ _, collectAll_isClosed _ _, ?_⟩
  rw [slot_collectAll, if_neg fun h => hnot h.1, if_pos (.inr hfound)]

/-- **A key whose deadline cannot be read is closed until it is mended.** The record of the deadline
has not sixteen bytes, and whatever the value is: a command on the key fails, with the key in
hexadecimal in the failure, and changes no record. Only the commands that are answered before the
record is looked at are answered as ever, and change no record either. The key is removed with its
record by a removal, which counts it just if it has a value, and by the emptying of its database. A
sweep that reaches the record takes it away and leaves the value. From then on all commands on the
key do what they do if the value was stored without a deadline: it is there as it was, and stays. -/
theorem unreadable_fails_closed (hraw : (s.storage.slot db key).deadline = some raw)
    (hlen : raw.length ≠ 16) :
    let value := (s.storage.slot db key).value
    (∀ c, s.Admits c db key →
      (∀ k, k.early c.clock.seconds = none →
        s.Fails c key k (.corrupt key.hex "bad ttl metadata")) ∧
      (∀ k answer, k.early c.clock.seconds = some answer → s.answer c key k = answer ∧
        SameRecords (s.perform c (.onKey key k)).store.storage s.storage) ∧
      (∀ keys, key ∈ keys →
        (∃ n, (s.perform c (.del (keys.filter (· ≠ key)))).answer = .ok (.count n) ∧
          (s.perform c (.del keys)).answer =
            .ok (.count (if value.isSome then n + 1 else n))) ∧
        (s.perform c (.del keys)).store.storage.slot db key = .empty) ∧
      (∃ n, (s.perform c .flushAll).answer = .ok (.count n)) ∧
      (s.perform c .flushAll).store.storage.slot db key = .empty) ∧
    ∀ now, s.isClosed = false →
      (Deadline.tag db key, raw) ∈ s.storage.share now s.config.cleanupBatchSize →
      ∃ n t, s.sweep now = .ok (n, t) ∧ t.storage.slot db key = ⟨value, none⟩ ∧
        (∀ c command, c.db = db → command.Concerns key →
          (t.perform c command).answer = ((s.mended db key).perform c command).answer ∧
          (t.perform c command).store.storage.slot db key =
            ((s.mended db key).perform c command).store.storage.slot db key) ∧
        ∀ c, s.Admits c db key →
          t.answer c key (.query .get) =
            value.elim (.error .keyNotFound) (fun b => .ok (.bytes b)) ∧
          t.answer c key (.lifetime .ttl) =
            .ok (.number (if value.isSome then Deadline.persistent else Deadline.notFound)) := by
  intro value
  have hmalformed := Slot.isMalformed_of_length hraw hlen
  refine ⟨fun c hc => ⟨fun k hk => ?_, fun k answer hk => ?_, fun keys hmem => ?_, ?_⟩,
    fun now hopen hmem => ?_⟩
  · exact hc.fails_of_isMalformed hmalformed hk
  · exact hc.perform_of_early hk
  · exact hc.del_of_isMalformed hmalformed hmem
  · exact hc.flushAll_slot
  · obtain ⟨n, t, hsweep, hconfig, hclosed, hslot⟩ :=
      slot_sweep_of_mem_share hopen hmalformed hmem (Deadline.decode?_eq_none_iff.2 hlen)
    refine ⟨n, t, hsweep, hslot, fun c command hdb hcommand => ?_, fun c hc => ?_⟩
    · subst hdb
      have hrelated : t.Related (SameSlot c.db key) (s.mended c.db key) :=
        ⟨hclosed, congrArg Config.maxDatabases hconfig,
          hslot.trans (Storage.slot_setSlot_self _ _ _ _).symm⟩
      have hperform := perform_related hcommand hrelated
      exact ⟨hperform.answer.eq, hperform.store.storage⟩
    · have hc' : t.Admits c db key := (admits_congr hconfig hclosed c db key).2 hc
      exact ⟨hc'.answer_get_of_persistent hslot, hc'.answer_ttl_of_persistent hslot⟩

/-- A record of three bytes next to a value. -/
theorem unreadable_fails_closed_bad :
    let bad : Bytes := [98, 97, 100]
    let s : Store := .fresh {} (Storage.empty.setSlot 0 [107] ⟨some [118], some bad⟩)
    let c : Call := .alone 0 ⟨5000, 0⟩ .none
    let keys : List Bytes := [[97], [107], [107]]
    s.Admits c 0 [107] ∧
      s.Fails c [107] (.change (.set [119])) (.corrupt (Bytes.hex [107]) "bad ttl metadata") ∧
      s.Fails c [107] (.query .isPresent) (.corrupt (Bytes.hex [107]) "bad ttl metadata") ∧
      s.answer c [107] (.lifetime (.expireAt 5)) = .ok (.flag false) ∧
      (∃ n, (s.perform c (.del (keys.filter (· ≠ [107])))).answer = .ok (.count n) ∧
        (s.perform c (.del keys)).answer = .ok (.count (n + 1))) ∧
      ∃ n t, s.sweep 5 = .ok (n, t) ∧ t.answer c [107] (.query .get) = .ok (.bytes [118]) ∧
        t.answer c [107] (.lifetime .ttl) = .ok (.number (-1)) := by
  intro bad s c keys
  have hslot : s.storage.slot 0 [107] = ⟨some [118], some bad⟩ :=
    Storage.slot_setSlot_self _ _ _ _
  have hraw : (s.storage.slot 0 [107]).deadline = some bad := by rw [hslot]
  have hadmits : s.Admits c 0 [107] := ⟨rfl, rfl, by rfl, rfl⟩
  obtain ⟨hcommands, hsweep⟩ := unreadable_fails_closed hraw (by decide)
  obtain ⟨hfails, hearly, hdel, -⟩ := hcommands c hadmits
  obtain ⟨n, t, hswept, -, -, hstays⟩ := hsweep 5 rfl (by decide)
  obtain ⟨hget, httl⟩ := hstays c hadmits
  rw [hslot] at hdel hget httl
  obtain ⟨hcount, -⟩ := hdel keys (by decide)
  have hpassed : (KeyCommand.lifetime (.expireAt 5)).early c.clock.seconds =
      some (.ok (.flag false)) := if_pos (by decide)
  exact ⟨hadmits, hfails _ rfl, hfails _ rfl, (hearly _ _ hpassed).1, hcount, n, t, hswept, hget,
    httl⟩

end Store

end Keyspace
