import Keyspace.Proofs.Session.Soundness
import Keyspace.Proofs.Store.Alike

/-!
# What has expired stays hidden

A key that has expired may be stored for as long as no sweep comes by. `expired_stays_hidden`: in a
session that began without records, and in which none are written behind the store's back, nothing
of such a key is to be seen any more (`Store.Hides`), through all commands, sweeps and reopenings,
as long as the wall clock is not set back. Two kinds of steps end this: those that store a value
under the key (`Session.Stores`), and sweeps that come by while the database is out of the
configured range and take the deadline away and leave the value (`Session.Stripped`). When the
database is back in range after that, so is the key (`expired_returns`).

What a run keeps is that the session `Session.Lacks` the key: it is `Slot.Absent` from the records
in use (`Session.held`), and from those that a temporary store leaves on the disk for the next one.
In a sound storage absence is all it takes to be hidden (`Store.hides_of_absent`).
-/

namespace Keyspace

/-- Sweeps that take nothing but expired keys leave an absent key absent. -/
theorem Slot.Swept.absent {now : Nat} {inRange : Prop} {s t : Slot} (h : s.Swept now inRange t)
    (hs : s.Absent now) (hread : s.isMalformed = false)
    (hstrip : ¬ inRange → t.value.isSome = true → t.deadline ≠ none) : t.Absent now := by
  cases h with
  | kept => exact hs
  | removed => exact absent_empty now
  | stripped hexp hout =>
    cases hvalue : s.release.value with
    | none => exact absent_of_value hvalue
    | some value => exact absurd rfl (hstrip hout (by rw [hvalue, Option.isSome_some]))
  | mended hmal =>
    rw [hread] at hmal
    cases hmal

/-! ## Nothing to be seen -/

namespace Store

/-- The store as if nothing were stored about the key. -/
def lacking (s : Store) (db : DbId) (key : Bytes) : Store :=
  { s with storage := s.storage.setSlot db key .empty }

/-- A call on the store sees nothing of the key: commands answer as if it were not stored, but for
counts of records, and the key is not found. -/
structure Hides (s : Store) (c : Call) (db : DbId) (key : Bytes) : Prop where
  asIfLacking : ∀ command, Agree (fun r r' => command.isCount = false → r = r')
    (s.perform c command).answer ((s.lacking db key).perform c command).answer
  get : c.db = db → s.refusal c = none → c.lateInterruption = none →
    (s.perform c (.onKey key (.query .get))).answer = .error .keyNotFound
  isPresent : c.db = db → s.refusal c = none → c.lateInterruption = none →
    (s.perform c (.onKey key (.query .isPresent))).answer = .ok (.flag false)
  ttl : c.db = db → s.refusal c = none → c.lateInterruption = none →
    (s.perform c (.onKey key (.lifetime .ttl))).answer = .ok (.number (-2))

/-- In a sound store an absent key is hidden. -/
theorem hides_of_absent {s : Store} {c : Call} {db : DbId} {key : Bytes}
    (hkey : checkKey key = .ok ()) (hs : s.storage.Sound)
    (habsent : (s.storage.slot db key).Absent c.clock.seconds) : s.Hides c db key := by
  have hslot := hs.slot db key
  have hlive := hslot.live_of_absent habsent
  have hread := fun key => (hs.slot c.db key).not_isMalformed
  have halike : s.Alike c.clock.seconds (s.lacking db key) := by
    refine ⟨rfl, rfl, fun db' key' => ?_, fun name hn => ?_⟩
    · rw [lacking, Storage.slot_setSlot]
      split
      · rename_i he
        obtain ⟨rfl, rfl⟩ := he
        rw [hlive, Slot.live_empty]
      · rfl
    · exact ((Storage.frame_setSlot s.storage db.toNat_lt key .empty).tree fun d _ => hn d).symm
  have hread' : ∀ key', ((s.lacking db key).storage.slot c.db key').isMalformed = false := by
    intro key'
    rw [lacking, Storage.slot_setSlot]
    split
    · rfl
    · exact hread key'
  have hsettle := Slot.settle_eq_live hslot.not_isMalformed key c.clock.seconds
  rw [hlive] at hsettle
  refine ⟨fun command => (perform_alike halike hread hread' command).answer, ?_, ?_, ?_⟩
  · rintro rfl hgate hlate
    have hrun : (KeyCommand.query .get).run key c.clock (s.storage.slot c.db key) =
        .ok (.missing, .empty) := by
      rw [KeyCommand.run, hsettle]
      rfl
    exact answer_onKey hkey rfl hgate hlate hrun
  · rintro rfl hgate hlate
    have hrun : (KeyCommand.query .isPresent).run key c.clock (s.storage.slot c.db key) =
        .ok (.flag false, .empty) := by
      rw [KeyCommand.run, hsettle]
      rfl
    exact answer_onKey hkey rfl hgate hlate hrun
  · rintro rfl hgate hlate
    have hrun : (KeyCommand.lifetime .ttl).run key c.clock (s.storage.slot c.db key) =
        .ok (.number (-2), .empty) := by
      rw [KeyCommand.run, Lifetime.run, hsettle]
      rfl
    exact answer_onKey hkey rfl hgate hlate hrun

end Store

namespace Session

/-! ## What keeps a key hidden -/

/-- The step is a change that succeeds and leaves a value under the key. -/
def Stores (db : DbId) (key : Bytes) (s : Session) (t : Step) (a : Answer) (s' : Session) : Prop :=
  ∃ caller i change c r, t = .perform caller i (.onKey key (.change change)) ∧
    s.call? caller i = some c ∧ c.db = db ∧ a = .reply (.ok r) ∧
    (s'.held.slot db key).value.isSome = true

/-- The database is out of the range of the store, and the key has a value and no deadline. -/
def Stripped (db : DbId) (key : Bytes) (s : Session) : Prop :=
  (∃ store, s.store = some store ∧ store.config.maxDatabases ≤ db.toNat) ∧
    (s.held.slot db key).value.isSome = true ∧ (s.held.slot db key).deadline = none

/-- The key is absent from the records in use, and from those on the disk if a temporary store
leaves them there. -/
structure Lacks (db : DbId) (key : Bytes) (s : Session) : Prop where
  sound : s.Sound
  absent : (s.held.slot db key).Absent s.clock.seconds
  kept : ∀ store, s.store = some store → store.config.temporary = true →
    (s.disk.slot db key).Absent s.clock.seconds

/-! ## A step -/

namespace Lacks

variable {db : DbId} {key : Bytes} {s s' : Session}

theorem records (h : s.Lacks db key) : (s.records.slot db key).Absent s.clock.seconds := by
  have habsent := h.absent
  unfold Session.records
  cases hs : s.store with
  | none =>
    rw [held, hs] at habsent
    exact habsent
  | some store =>
    rw [held_of_store hs] at habsent
    cases htemp : store.config.temporary with
    | true => simpa [htemp] using h.kept store hs htemp
    | false => simpa [htemp] using habsent

/-- Opening the store again leaves an absent key absent, unless it strips the key. -/
theorem mount (h : s.Lacks db key) {config : Option Config}
    (hstrip : ¬ Stripped db key (s.mount [] config).2) : (s.mount [] config).2.Lacks db key := by
  have hsound := h.sound.mount config
  have hrecords := h.sound.records
  obtain ⟨opened, hmount, hopened, -⟩ := s.mount_eq config
  rw [hmount] at hsound hstrip ⊢
  refine ⟨hsound, ?_, fun _ _ _ => h.records⟩
  cases opened with
  | none => exact h.records
  | some store =>
    obtain ⟨c, -, ho⟩ := hopened store rfl
    have hsweeps := (Store.sweeps_openOn ho).2
    have hstart : ((if c.temporary then Storage.empty else s.records).slot db key).Absent
          s.clock.seconds ∧
        ((if c.temporary then Storage.empty else s.records).slot db key).isMalformed = false := by
      split
      · rw [Storage.slot_empty]
        exact ⟨Slot.absent_empty _, rfl⟩
      · exact ⟨h.records, (hrecords.slot db key).not_isMalformed⟩
    apply (hsweeps.slot db key).absent hstart.1 hstart.2
    intro hout hvalue hnone
    refine hstrip ⟨⟨store, rfl, ?_⟩, hvalue, hnone⟩
    rw [hsweeps.config]
    exact Nat.le_of_not_lt hout

/-- A session with the same records lacks the key as well, if its wall clock is not behind. -/
theorem mono (h : s.Lacks db key) (hsound : s'.Sound) (hstore : s'.store = s.store)
    (hdisk : s'.disk = s.disk) (hclock : s.clock.wall ≤ s'.clock.wall) : s'.Lacks db key := by
  have hle := Clock.seconds_le_seconds hclock
  refine ⟨hsound, ?_, fun store hs htemp => ?_⟩
  · rw [held, hstore, hdisk]
    exact h.absent.mono hle
  · rw [hdisk]
    rw [hstore] at hs
    exact (h.kept store hs htemp).mono hle

/-- **A step keeps an absent key absent**, unless it stores a value under the key, strips the key,
or sets the wall clock back. -/
theorem step {t : Step} {a : Answer} (h : s.Lacks db key) (hraw : t.writes = [])
    (hclock : s.clock.wall ≤ s'.clock.wall) (hstores : ¬ Stores db key s t a s')
    (hstrip : ¬ Stripped db key s') (ht : s.step t = some (a, s')) : s'.Lacks db key := by
  have hsound := h.sound.step hraw ht
  have habsent := h.absent
  cases moves_of_step ht with
  | around hstore hdisk hconfig => exact h.mono hsound hstore hdisk hclock
  | @request caller i command c store hstore hc =>
    have hnow := call?_clock hc
    rw [held_of_store hstore, ← hnow] at habsent
    refine ⟨hsound, ?_, fun store' hs htemp => ?_⟩
    · rcases (store.performs_perform c command).absent habsent with hs | ⟨hdb, hchange, hvalue⟩
      · rw [hnow] at hs
        exact hs
      · obtain ⟨change, r, rfl, hanswer⟩ := hchange
        exact absurd ⟨caller, i, change, c, r, rfl, hc, hdb, congrArg _ hanswer, hvalue⟩ hstores
    · cases hs
      rw [Store.perform_config] at htemp
      exact h.kept store hstore htemp
  | @upkeep t a store store' hstore hu failed =>
    refine ⟨hsound, ?_, fun store'' hs htemp => ?_⟩
    · rcases hu.records with ⟨-, hs⟩ | ⟨-, hs⟩
      · show (store'.storage.slot db key).Absent s.clock.seconds
        rw [hs]
        exact Slot.absent_empty _
      · have hswept := hs db key
        rw [← held_of_store hstore] at hswept
        apply hswept.absent habsent (h.sound.held.slot db key).not_isMalformed
        intro hout hvalue hnone
        refine hstrip ⟨⟨store', rfl, ?_⟩, hvalue, hnone⟩
        rw [hu.config]
        exact Nat.le_of_not_lt hout
    · cases hs
      rw [hu.config] at htemp
      exact h.kept store hstore htemp
  | @reopens writes config a answers =>
    obtain rfl : writes = [] := hraw
    exact h.mount hstrip

end Lacks

/-! ## Runs -/

/-- **What has expired stays hidden**, until a change stores a value under the key or the key is
stripped of its deadline. -/
theorem expired_stays_hidden {wall : Int64} {before after : List Step} {db : DbId} {key : Bytes}
    (hraw : ∀ t ∈ before ++ after, t.writes = [])
    (hexp : (((bare wall).run before).2.held.slot db key).isExpired
      ((bare wall).run before).2.clock.seconds = true)
    (hkept : ∀ store, ((bare wall).run before).2.store = some store →
      store.config.temporary = true →
      (((bare wall).run before).2.disk.slot db key).Absent ((bare wall).run before).2.clock.seconds)
    (hafter : ((bare wall).run before).2.Along (fun s t a s' => s.clock.wall ≤ s'.clock.wall ∧
      ¬ Stores db key s t a s' ∧ ¬ Stripped db key s') after) :
    let s := (((bare wall).run before).2.run after).2
    ∀ store, s.store = some store → ∀ c, c.clock = s.clock → store.Hides c db key := by
  intro s store hstore c hc
  have hsound := (sound_bare wall).run fun t ht => hraw t (List.mem_append_left after ht)
  have hstart : Lacks db key _ := ⟨hsound, Slot.absent_of_isExpired hexp, hkept⟩
  have hkey := (hsound.held.slot db key).checkKey (Slot.deadline_of_isExpired hexp)
  have halong := (along_of_forall (fun t ht _ _ _ => hraw t (List.mem_append_right before ht))
    ((bare wall).run before).2).and hafter
  have hend : s.Lacks db key := by
    apply halong.run ?_ hstart
    rintro u t a u' ht ⟨hwrites, hclock, hstores, hstrip⟩ hu
    exact hu.step hwrites hclock hstores hstrip ht
  have habsent := hend.absent
  rw [held_of_store hstore, ← hc] at habsent
  exact Store.hides_of_absent hkey (hend.sound.store store hstore).storage habsent

/-- A key is stored and gets a deadline, which passes. -/
def lapse : List Step :=
  [.reopen [] (some (some {})), .perform (.alone 5) .none (.onKey [107] (.change (.set [118]))),
    .perform (.alone 5) .none (.onKey [107] (.lifetime (.expire 1))), .advance 2000]

theorem isExpired_lapse : (((bare 1000).run lapse).2.held.slot 5 [107]).isExpired
    ((bare 1000).run lapse).2.clock.seconds = true := by decide

/-- After the key has expired a temporary store takes the place of the store for a while; then the
store is opened again and swept. -/
theorem expired_stays_hidden_swept :
    let after : List Step :=
      [.reopen [] (some (some .forTemporary)), .advance 1000,
        .reopen [] (some (some { restoreOnOpen := false })), .sweep]
    let s := (((bare 1000).run lapse).2.run after).2
    (((bare 1000).run lapse).2.held.slot 5 [107]).isExpired
        ((bare 1000).run lapse).2.clock.seconds = true ∧
      ∀ store, s.store = some store → ∀ c, c.clock = s.clock → store.Hides c 5 [107] := by
  intro after s
  have hraw : ∀ t ∈ lapse ++ after, t.writes = [] := by simp [lapse, after, Step.writes]
  have hkept : ∀ store, ((bare 1000).run lapse).2.store = some store →
      store.config.temporary = true →
      (((bare 1000).run lapse).2.disk.slot 5 [107]).Absent
        ((bare 1000).run lapse).2.clock.seconds :=
    fun _ _ _ => Slot.absent_empty _
  refine ⟨isExpired_lapse, expired_stays_hidden hraw isExpired_lapse hkept ?_⟩
  have hrange : ∀ {s : Session} {store : Store}, s.store = some store →
      store.config.maxDatabases = 100 → ¬ Stripped 5 [107] s := by
    rintro s store hstore hmax ⟨⟨store', hstore', hle⟩, -⟩
    obtain rfl := Option.some.inj (hstore.symm.trans hstore')
    rw [hmax] at hle
    exact absurd hle (by decide)
  have hstores : ∀ {s s' : Session} {t : Step} {a : Answer},
      (∀ caller i command, t ≠ .perform caller i command) → ¬ Stores 5 [107] s t a s' := by
    rintro s s' t a ht ⟨caller, i, change, c, r, rfl, -⟩
    exact ht _ _ _ rfl
  exact ⟨⟨by decide, hstores nofun, hrange rfl rfl⟩, ⟨by decide, hstores nofun, hrange rfl rfl⟩,
    ⟨by decide, hstores nofun, hrange rfl rfl⟩, ⟨by decide, hstores nofun, hrange rfl (by decide)⟩,
    trivial⟩

/-- The range of databases is narrowed and widened again. -/
def rescale : List Step :=
  [.reopen [] (some (some { maxDatabases := 1 })), .reopen [] (some (some {}))]

/-- A key that has expired, and under which nothing has been stored since, is back once the range
has been narrowed and widened again. -/
theorem expired_returns :
    let s := ((bare 1000).run lapse).2
    let s' := (s.run rescale).2
    (s.held.slot 5 [107]).isExpired s.clock.seconds = true ∧
      s.Along (fun s t a s' => s.clock.wall ≤ s'.clock.wall ∧ ¬ Stores 5 [107] s t a s') rescale ∧
      ∃ store, s'.store = some store ∧
        (store.perform (.alone 5 s'.clock .none) (.onKey [107] (.query .get))).answer =
          .ok (.bytes [118]) := by
  have hstores : ∀ {s s' : Session} {writes config} {a : Answer},
      ¬ Stores 5 [107] s (.reopen writes config) a s' := by
    rintro s s' writes config a ⟨caller, i, change, c, r, ht, -⟩
    cases ht
  exact ⟨isExpired_lapse, ⟨⟨by decide, hstores⟩, ⟨by decide, hstores⟩, trivial⟩, _, rfl, by rfl⟩

end Session

end Keyspace
