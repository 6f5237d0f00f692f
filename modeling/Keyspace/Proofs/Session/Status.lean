import Keyspace.Proofs.Kind
import Keyspace.Proofs.Session.Stamps
import Mathlib.Algebra.Group.Int.Defs

/-!
# The status commands agree

`status_commands_agree`: in a session that began without records, and in which none are written
behind the store's back, the commands that tell how a key stands agree with one another, in whatever
order they are given while the wall clock stands. Each of them may remove what has expired before
the next is given; none of them can tell (`Store.plain_asked`).

That a slot is `Slot.Plain` puts together what the answers depend on: its deadline can be read and
is near, and it has a `Slot.Status`. Reachable slots are plain because they are sound and because
the wall clock bounds the making of their deadlines (`Session.exists_plain`).
-/

namespace Keyspace

/-! ## Slots -/

/-- The deadline of the slot can be read and is near, and this is how long the key has left. -/
structure Slot.Plain (clock : Clock) (ttl pttl : Int) (s : Slot) : Prop where
  readable : s.isMalformed = false
  near : s.Near
  status : s.Status clock ttl pttl

namespace Slot.Plain

variable {clock clock' : Clock} {ttl pttl : Int} {s : Slot}

theorem live (h : s.Plain clock ttl pttl) : (s.live clock.seconds).Plain clock ttl pttl := by
  refine ⟨isMalformed_live h.readable _, ?_, h.status.live⟩
  rcases live_eq_or s clock.seconds with hl | hl <;> rw [hl]
  · exact nofun
  · exact h.near

/-- The steady clock does not matter. -/
theorem of_wall (hwall : clock'.wall = clock.wall) (h : s.Plain clock ttl pttl) :
    s.Plain clock' ttl pttl := by
  obtain ⟨wall, steady⟩ := clock
  obtain ⟨wall', steady'⟩ := clock'
  obtain rfl : wall' = wall := hwall
  obtain ⟨hread, hnear, hstatus⟩ := h
  refine ⟨hread, hnear, ?_⟩
  cases hstatus with
  | absent h => exact .absent h
  | persistent there h => exact .persistent there h
  | limited there h ahead => exact .limited there h ahead

/-- A key without a deadline stays. -/
theorem release (h : s.Plain clock ttl pttl) (hne : ttl ≠ -2) (clock' : Clock) :
    Plain clock' (-1) (-1) { s with deadline := none } :=
  ⟨rfl, nofun, .persistent (h.status.isSome_value hne) rfl⟩

end Slot.Plain

/-! ## Answers -/

namespace Store

variable {s : Store} {c : Call} {db : DbId} {key : Bytes} {clock : Clock} {ttl pttl : Int}

/-- The status commands answer for a key that has so much time left: `-2` for a key that is not
there, `-1` for one that stays. -/
structure Reports (s : Store) (c : Call) (key : Bytes) (ttl pttl : Int) : Prop where
  isPresent : s.answer c key (.query .isPresent) = .ok (.flag (decide (ttl ≠ -2)))
  missing : ttl = -2 → s.answer c key (.query .get) = .error .keyNotFound
  found : ttl ≠ -2 → ∃ value, s.answer c key (.query .get) = .ok (.bytes value)
  seconds : s.answer c key (.lifetime .ttl) = .ok (.number ttl)
  millis : s.answer c key (.lifetime .pttl) = .ok (.number pttl)
  persist : s.answer c key (.lifetime .persist) = .ok (.flag (decide (ttl ≠ -2 ∧ ttl ≠ -1)))

theorem Admits.reports (h : s.Admits c db key)
    (hslot : (s.storage.slot db key).Plain c.clock ttl pttl) : s.Reports c key ttl pttl := by
  obtain ⟨hread, hnear, hstatus⟩ := hslot
  have hget := h.answer_of_run rfl (Slot.Status.run_get key hread)
  obtain ⟨t, hpersist, -⟩ := hstatus.run_persist key hread
  refine ⟨h.answer_of_run rfl (hstatus.run_isPresent key hread), fun he => ?_, fun hne => ?_,
    h.answer_of_run rfl (hstatus.run_ttl key hread hnear),
    h.answer_of_run rfl (hstatus.run_pttl key hread hnear), h.answer_of_run rfl hpersist⟩
  · rw [hget, hstatus.absent_iff.1 he]
    rfl
  · have hsome := hstatus.isSome_live
    rw [decide_eq_true hne] at hsome
    obtain ⟨value, hvalue⟩ := Option.isSome_iff_exists.1 hsome
    rw [hget, hvalue]
    exact ⟨value, rfl⟩

/-- Once its deadline has been taken away, the key stays. -/
theorem Admits.persist (h : s.Admits c db key)
    (hslot : (s.storage.slot db key).Plain c.clock ttl pttl) (hne : ttl ≠ -2) (clock' : Clock) :
    ((s.perform c (.onKey key (.lifetime .persist))).store.storage.slot db key).Plain clock'
      (-1) (-1) := by
  obtain ⟨t, hrun, ht⟩ := hslot.status.run_persist key hslot.readable
  rw [h.perform rfl, hrun]
  show ((Storage.setSlot _ db key t).slot db key).Plain clock' (-1) (-1)
  rw [Storage.slot_setSlot_self, ht hne]
  exact hslot.release hne clock'

/-- The store after commands on the key. -/
def asked (s : Store) (key : Bytes) (reqs : List (Call × KeyCommand)) : Store :=
  s.serve (reqs.map fun q => (q.1, .onKey key q.2))

theorem admits_perform_onKey (s : Store) (c c' : Call) (db : DbId) (key key' : Bytes)
    (k : KeyCommand) :
    (s.perform c (.onKey key' k)).store.Admits c' db key ↔ s.Admits c' db key :=
  admits_congr (perform_config s c _)
    ((s.performs_perform c (.onKey key' k)).isClosed nofun) c' db key

theorem admits_asked (s : Store) (c : Call) (db : DbId) (key : Bytes)
    (reqs : List (Call × KeyCommand)) : (s.asked key reqs).Admits c db key ↔ s.Admits c db key := by
  induction reqs generalizing s with
  | nil => exact Iff.rfl
  | cons q reqs ih => exact (ih _).trans (admits_perform_onKey s q.1 c db key key q.2)

/-- Questions do not change how a key stands. -/
theorem plain_asked {reqs : List (Call × KeyCommand)}
    (hslot : (s.storage.slot db key).Plain clock ttl pttl)
    (hreqs : ∀ q ∈ reqs, q.1.db = db ∧ q.1.clock.wall = clock.wall ∧ q.2.IsRead) :
    ((s.asked key reqs).storage.slot db key).Plain clock ttl pttl := by
  induction reqs generalizing s with
  | nil => exact hslot
  | cons q reqs ih =>
    obtain ⟨⟨rfl, hwall, hread⟩, hreqs'⟩ := List.forall_mem_cons.1 hreqs
    refine ih ?_ hreqs'
    rcases slot_eq_or_of_read hread with he | he <;> rw [he]
    · exact hslot
    · exact (hslot.of_wall hwall).live.of_wall hwall.symm

end Store

/-! ## Reachable states -/

/-- A wall clock below half of its range is far from the end of the seconds. -/
theorem Clock.seconds_le_of_wall {c : Clock} (h : c.wall.toInt < 2 ^ 62) :
    c.seconds ≤ 2 ^ 62 / 1000 := by
  simp only [seconds, millis]
  omega

namespace Session

variable {wall : Int64} {steps : List Step} {store : Store}

/-- In a reachable state every slot is plain. -/
theorem exists_plain (hraw : ∀ t ∈ steps, t.writes = []) (hstart : wall.toInt < 2 ^ 62)
    (hclock : (bare wall).Along (fun _ _ _ s' => s'.clock.wall.toInt < 2 ^ 62) steps)
    (hstore : ((bare wall).run steps).2.store = some store) (db : DbId) (key : Bytes)
    (clock : Clock) : ∃ ttl pttl, (store.storage.slot db key).Plain clock ttl pttl := by
  have hsound := ((reachable_sound wall steps hraw).2 store hstore).slot db key
  obtain ⟨-, hstamped⟩ := reachable_stamped hraw (Clock.seconds_le_of_wall hstart)
    (hclock.mono fun _ _ _ _ => Clock.seconds_le_of_wall)
  have hnear := (hstamped.store store hstore db key).near hsound (Nat.le_refl _)
  obtain ⟨ttl, pttl, hstatus⟩ := Slot.exists_status hsound clock
  exact ⟨ttl, pttl, hsound.not_isMalformed, hnear, hstatus⟩

/-- **The status commands agree.** In a reachable state of a session whose wall clock has always
been below half of its range, a key has some seconds and some milliseconds left. Whatever questions
have been asked about the key while the wall clock stands, the answers to the next ones are those
that `Store.Reports` lists. The seconds are `-2` if and only if the milliseconds are, and they are
`-1` if and only if the milliseconds are, which means a value without a deadline. Otherwise both are
positive, the seconds are the milliseconds rounded up, and there are at most `Deadline.maxTtl` of
them if the wall clock was never set back; and after the deadline has been taken away the seconds
are `-1`. -/
theorem status_commands_agree (hraw : ∀ t ∈ steps, t.writes = []) (hstart : wall.toInt < 2 ^ 62)
    (hclock : (bare wall).Along (fun _ _ _ s' => s'.clock.wall.toInt < 2 ^ 62) steps)
    (hstore : ((bare wall).run steps).2.store = some store) (db : DbId) (key : Bytes) :
    let s := ((bare wall).run steps).2
    ∃ ttl pttl : Int,
      (∀ reqs : List (Call × KeyCommand),
        (∀ q ∈ reqs, q.1.db = db ∧ q.1.clock.wall = s.clock.wall ∧ q.2.IsRead) →
        ∀ c, store.Admits c db key → c.clock.wall = s.clock.wall →
          let t := store.asked key reqs
          t.Reports c key ttl pttl ∧
            (ttl ≠ -2 → ttl ≠ -1 → ∀ c', store.Admits c' db key → c'.clock.wall = s.clock.wall →
              (t.perform c (.onKey key (.lifetime .persist))).store.answer c' key (.lifetime .ttl) =
                .ok (.number (-1)))) ∧
      (ttl = -2 ↔ pttl = -2) ∧ (ttl = -1 ↔ pttl = -1) ∧
      (ttl = -1 ↔ (store.storage.slot db key).value.isSome = true ∧
        (store.storage.slot db key).deadline = none) ∧
      (ttl ≠ -2 → ttl ≠ -1 → 1 ≤ ttl ∧ 1 ≤ pttl ∧ ttl = (pttl + 999) / 1000) ∧
      ((bare wall).Along (fun s _ _ s' => s.clock.wall ≤ s'.clock.wall) steps →
        ttl ≤ Deadline.maxTtl) := by
  intro s
  obtain ⟨ttl, pttl, hplain⟩ := exists_plain hraw hstart hclock hstore db key s.clock
  refine ⟨ttl, pttl, fun reqs hreqs c hc hwall => ?_, hplain.status.millis_absent_iff,
    hplain.status.millis_persistent_iff, hplain.status.persistent_iff, hplain.status.limited_eq,
    fun hforward => ?_⟩
  · have hasked := (Store.plain_asked hplain hreqs).of_wall hwall
    have hadmits := (store.admits_asked c db key reqs).2 hc
    refine ⟨hadmits.reports hasked, fun hne _ c' hc' hwall' => ?_⟩
    have hafter := ((store.asked key reqs).admits_perform_onKey c c' db key key
      (.lifetime .persist)).2 ((store.admits_asked c' db key reqs).2 hc')
    exact (hafter.reports (hadmits.persist hasked hne c'.clock)).seconds
  · have hstamped := (reachable_stamped_now hraw hforward).store store hstore db key
    have hsound := ((reachable_sound wall steps hraw).2 store hstore).slot db key
    exact hstamped.ttl_le hsound hplain.status

/-- A key is asked about in its last second, after half of it. -/
theorem status_commands_agree_last :
    let steps : List Step := [.reopen [] (some (some {})),
      .perform (.alone 5) .none (.onKey [107] (.change (.set [118]))),
      .perform (.alone 5) .none (.onKey [107] (.lifetime (.expire 2))), .advance 1500]
    let s := ((bare 1000).run steps).2
    let c : Call := .alone 5 s.clock .none
    let reqs : List (Call × KeyCommand) := [(c, .query .get), (c, .lifetime .pttl)]
    ∃ store, s.store = some store ∧ (∀ t ∈ steps, t.writes = []) ∧
      (bare 1000).Along (fun _ _ _ s' => s'.clock.wall.toInt < 2 ^ 62) steps ∧
      (store.asked [107] reqs).Reports c [107] 1 500 := by
  intro steps s c reqs
  have hraw : ∀ t ∈ steps, t.writes = [] := by decide
  have hclock : (bare 1000).Along (fun _ _ _ s' => s'.clock.wall.toInt < 2 ^ 62) steps := by
    refine ⟨?_, ?_, ?_, ?_, trivial⟩ <;> decide
  have hreqs : ∀ q ∈ reqs, q.1.db = 5 ∧ q.1.clock.wall = s.clock.wall ∧ q.2.IsRead := by
    simp only [reqs, List.forall_mem_cons]
    exact ⟨⟨rfl, rfl, trivial⟩, ⟨rfl, rfl, trivial⟩, List.forall_mem_nil _⟩
  have hanswers : (s.store.map fun store => (decide (store.Admits c 5 [107]),
      ((store.asked [107] reqs).answer c [107] (.lifetime .ttl)).toOption,
      ((store.asked [107] reqs).answer c [107] (.lifetime .pttl)).toOption)) =
      some (true, some (.number 1), some (.number 500)) := by decide
  obtain ⟨store, hstore, hanswers⟩ := Option.map_eq_some_iff.1 hanswers
  simp only [Prod.mk.injEq, decide_eq_true_eq] at hanswers
  obtain ⟨hadmits, hseconds, hmillis⟩ := hanswers
  obtain ⟨ttl, pttl, hagree, -⟩ := status_commands_agree hraw (by decide) hclock hstore 5 [107]
  obtain ⟨hreports, -⟩ := hagree reqs hreqs c hadmits rfl
  rw [hreports.seconds] at hseconds
  rw [hreports.millis] at hmillis
  obtain rfl := Reply.number.inj (Option.some.inj hseconds)
  obtain rfl := Reply.number.inj (Option.some.inj hmillis)
  exact ⟨store, hstore, hraw, hclock, hreports⟩

end Session

end Keyspace
