import Keyspace.Proofs.Session.Hidden
import Keyspace.Proofs.Slot.Dated

/-!
# The deadlines that keys should have

`Session.Ledger` keeps book, along a run, of the deadline that a key should have: the one that the
last successful command on deadlines gave to it since it was created (`Ledger.next`). There are two
entries, one for the records in use and one for the records that wait on the disk while a temporary
store is open. The book ignores what is stored about deadlines, with one exception: when the
database is out of the range of the store, sweeps drop a deadline that has passed and leave the
value (`Ledger.swept`).

A session fits the book (`Ledger.Fits`) if the key is dated by it, as long as it is stored. All
steps keep it so (`Ledger.Fits.step`), and so do runs (`Ledger.Fits.run`). `deadline_follows_key`
puts together what that says of a reachable state, and what the next command on the key may do.
-/

namespace Keyspace

/-- What sweeps leave of a slot that can be read is dated as before, unless the key loses a deadline
that has passed. -/
theorem Slot.Swept.dated {now : Nat} {inRange : Prop} {s t : Slot} {d : Option Deadline}
    (h : s.Swept now inRange t) (hd : s.Dated d) (hread : s.isMalformed = false) :
    t.Dated d ∨ ¬ inRange ∧ d.any (·.isExpired now) = true ∧ t.value.isSome = true ∧
      t.deadline = none := by
  cases h with
  | kept => exact .inl hd
  | removed => exact .inl (dated_of_value rfl)
  | stripped hexp hout =>
    cases hv : s.value with
    | none => exact .inl (dated_of_value hv)
    | some value =>
      have hthere : s.value.isSome = true := by rw [hv, Option.isSome_some]
      refine .inr ⟨hout, ?_, hthere, rfl⟩
      rw [← hd hthere]
      exact hexp
  | mended hmal =>
    rw [hread] at hmal
    cases hmal

namespace Store

variable {s : Store} {c : Call} {db : DbId} {key : Bytes} {d : Option Deadline}

/-- A command that answers on the key dates it anew. -/
theorem dated_onKey {k : KeyCommand} {r : Reply} (hs : s.storage.Sound)
    (hd : (s.storage.slot c.db key).Dated d)
    (hok : (s.perform c (.onKey key k)).answer = .ok r) :
    ((s.perform c (.onKey key k)).store.storage.slot c.db key).Dated
      (k.dates c.clock.seconds ((s.storage.slot c.db key).live c.clock.seconds).value.isSome
        r d) := by
  rcases slot_of_ok hok with ⟨hslot, hshort⟩ | hrun
  · rw [hslot]
    exact KeyCommand.dated_of_shortcut hd hshort _ _
  · exact KeyCommand.dated_of_run (hs.slot c.db key) hd hrun

/-- A command that answers on the key respects its deadline. -/
theorem respects_onKey {k : KeyCommand} {r : Reply} (hs : s.storage.Sound)
    (hok : (s.perform c (.onKey key k)).answer = .ok r) :
    k.Respects c.clock.seconds r (s.storage.slot c.db key)
      ((s.perform c (.onKey key k)).store.storage.slot c.db key) := by
  rcases slot_of_ok hok with ⟨hslot, hshort⟩ | hrun
  · rw [hslot]
    exact KeyCommand.respects_of_shortcut (hs.slot c.db key) hshort _
  · exact KeyCommand.respects_of_run (hs.slot c.db key) hrun

/-- All other commands leave the key dated as it was, if they leave it. -/
theorem dated_perform (c : Call) (command : Command) (hd : (s.storage.slot db key).Dated d)
    (hother : ∀ k r, command = .onKey key k → c.db = db → (s.perform c command).answer ≠ .ok r) :
    ((s.perform c command).store.storage.slot db key).Dated d := by
  rcases (s.performs_perform c command).slot db key with hslot | ⟨hdb, -, hslot | hrun⟩
  · rw [hslot]
    exact hd
  · rw [hslot]
    exact Slot.dated_of_value rfl
  · obtain ⟨k, r, rfl, -, hanswer, hrun⟩ := hrun
    cases hfinish : k.finish r with
    | ok r' => exact absurd (hanswer.trans hfinish) (hother k r' rfl hdb)
    | error e =>
      obtain ⟨rfl, -, -⟩ := KeyCommand.finish_eq_error hfinish
      rw [KeyCommand.eq_live_of_query hrun]
      exact hd.live _

end Store

namespace Session

/-! ## The book -/

instance (db : DbId) (key : Bytes) (s : Session) : Decidable (Stripped db key s) :=
  have : Decidable (∃ store, s.store = some store ∧ store.config.maxDatabases ≤ db.toNat) :=
    decidable_of_iff
      ((s.store.any fun store => decide (store.config.maxDatabases ≤ db.toNat)) = true)
      (by simp only [Option.any_eq_true, decide_eq_true_eq])
  inferInstanceAs (Decidable (_ ∧ _))

/-- The deadlines that a key should have: in the records in use, and in those that are on the disk
while a temporary store is open. -/
structure Ledger where
  held : Option Deadline
  disk : Option Deadline
  deriving DecidableEq, Repr

namespace Ledger

/-- The book in which nothing is entered. -/
def empty : Ledger := ⟨none, none⟩

/-- The entry for the records that are on the disk once the store has gone. -/
def kept (l : Ledger) (s : Session) : Option Deadline :=
  match s.store with
  | none => l.disk
  | some store => if store.config.temporary then l.disk else l.held

/-- The entry for the records in use after sweeps at `now`, which may have dropped a deadline that
had passed while the database was out of range. -/
def swept (db : DbId) (key : Bytes) (now : Nat) (s : Session) (d : Option Deadline) :
    Option Deadline :=
  if d.any (·.isExpired now) = true ∧ Stripped db key s then none else d

/-- The book after a step from `s` to `s'`: a command on the key that succeeds makes an entry. -/
def next (l : Ledger) (db : DbId) (key : Bytes) (s : Session) (t : Step) (a : Answer)
    (s' : Session) : Ledger :=
  match t, a with
  | .perform caller i (.onKey key' k), .reply (.ok r) =>
    if key' = key ∧ (s.call? caller i).any (·.db = db) then
      let there := ((s.held.slot db key).live s.clock.seconds).value.isSome
      { l with held := k.dates s.clock.seconds there r l.held }
    else l
  | .perform .., _ => l
  | .reopen .., _ => ⟨swept db key s.clock.seconds s' (l.kept s), l.kept s⟩
  | _, _ => { l with held := swept db key s.clock.seconds s' l.held }

/-- The key is dated by the book, in the records in use and in those on the disk. -/
structure Fits (l : Ledger) (db : DbId) (key : Bytes) (s : Session) : Prop where
  held : (s.held.slot db key).Dated l.held
  disk : (s.disk.slot db key).Dated l.disk

variable {l : Ledger} {db : DbId} {key : Bytes} {s s' : Session} {t : Step} {a : Answer}

theorem dated_swept {now : Nat} {d : Option Deadline}
    (h : (s.held.slot db key).Dated d ∨
      d.any (·.isExpired now) = true ∧ Stripped db key s) :
    (s.held.slot db key).Dated (swept db key now s d) := by
  unfold swept
  split
  · rename_i hstrip
    exact Slot.dated_none hstrip.2.2.2
  · rename_i hstrip
    exact h.resolve_right hstrip

/-- Sweeps keep the book. -/
theorem dated_of_swept {store : Store} {now : Nat} {d : Option Deadline} {u : Slot}
    (hstore : s.store = some store)
    (h : u.Swept now (db.toNat < store.config.maxDatabases) (store.storage.slot db key))
    (hd : u.Dated d) (hread : u.isMalformed = false) :
    (s.held.slot db key).Dated (swept db key now s d) := by
  apply dated_swept
  rw [Stripped, held_of_store hstore]
  rcases h.dated hd hread with hdated | ⟨hout, hexp, hvalue, hnone⟩
  · exact .inl hdated
  · exact .inr ⟨hexp, ⟨store, hstore, Nat.le_of_not_lt hout⟩, hvalue, hnone⟩

theorem Fits.records (h : l.Fits db key s) : (s.records.slot db key).Dated (l.kept s) := by
  have hheld := h.held
  unfold Session.records kept
  cases hs : s.store with
  | none => exact h.disk
  | some store =>
    rw [held_of_store hs] at hheld
    cases htemp : store.config.temporary with
    | true => simpa [htemp] using h.disk
    | false => simpa [htemp] using hheld

/-- A step without a command, short of opening the store again, keeps the book. -/
theorem Fits.upkeep (h : l.Fits db key s) (hsound : s.Sound)
    (hperform : ∀ caller i command, t ≠ .perform caller i command)
    (hreopen : ∀ writes config, t ≠ .reopen writes config) (ht : s.step t = some (a, s')) :
    Fits { l with held := swept db key s.clock.seconds s' l.held } db key s' := by
  cases moves_of_step ht with
  | around hstore hdisk hconfig =>
    have hheld : s'.held = s.held := by rw [Session.held, Session.held, hstore, hdisk]
    refine ⟨dated_swept (.inl ?_), ?_⟩
    · rw [hheld]
      exact h.held
    · rw [hdisk]
      exact h.disk
  | request => exact absurd rfl (hperform _ _ _)
  | reopens => exact absurd rfl (hreopen _ _)
  | @upkeep _ _ store store' hstore hu failed =>
    refine ⟨?_, h.disk⟩
    rcases hu.records with ⟨-, hs⟩ | ⟨-, hs⟩
    · refine dated_swept (.inl (Slot.dated_of_value ?_))
      show (store'.storage.slot db key).value = none
      rw [hs]
      rfl
    · have hswept := hs db key
      rw [← held_of_store hstore, ← hu.config] at hswept
      exact dated_of_swept rfl hswept h.held (hsound.held.slot db key).not_isMalformed

/-- Opening the store again keeps the book. -/
theorem Fits.mount (h : l.Fits db key s) (hsound : s.Sound) (config : Option Config) :
    Fits ⟨swept db key s.clock.seconds (s.mount [] config).2 (l.kept s), l.kept s⟩ db key
      (s.mount [] config).2 := by
  obtain ⟨opened, hmount, hopened, -⟩ := s.mount_eq config
  rw [hmount]
  refine ⟨?_, h.records⟩
  cases opened with
  | none => exact dated_swept (.inl h.records)
  | some store =>
    obtain ⟨c, -, ho⟩ := hopened store rfl
    have hsweeps := (Store.sweeps_openOn ho).2
    have hswept := hsweeps.slot db key
    have hstart : ((if c.temporary then Storage.empty else s.records).slot db key).Dated
          (l.kept s) ∧
        ((if c.temporary then Storage.empty else s.records).slot db key).isMalformed = false := by
      split
      · exact ⟨Slot.dated_of_value rfl, rfl⟩
      · exact ⟨h.records, (hsound.records.slot db key).not_isMalformed⟩
    -- the range is that of the new store
    rw [← hsweeps.config] at hswept
    exact dated_of_swept rfl hswept hstart.1 hstart.2

theorem next_of_ok {caller : Caller} {i : Interludes} {c : Call} {key' : Bytes} {k : KeyCommand}
    {r : Reply} (hc : s.call? caller i = some c) :
    l.next db key s (.perform caller i (.onKey key' k)) (.reply (.ok r)) s' =
      if key' = key ∧ c.db = db then
        { l with
          held := k.dates s.clock.seconds
            ((s.held.slot db key).live s.clock.seconds).value.isSome r l.held }
      else l := by
  simp only [next, hc, Option.any_some, decide_eq_true_eq]

/-- A command keeps the book. -/
theorem Fits.perform {caller : Caller} {i : Interludes} {c : Call} (h : l.Fits db key s)
    (hsound : s.Sound) (command : Command) (hc : s.call? caller i = some c) :
    (l.next db key s (.perform caller i command) (s.perform c command).1
      (s.perform c command).2).Fits db key (s.perform c command).2 := by
  unfold Session.perform
  cases hstore : s.store with
  | none => cases command <;> exact h
  | some store =>
    have hheld := h.held
    rw [held_of_store hstore] at hheld
    have hclock := call?_clock hc
    -- whatever is not an answer about this key leaves the entry as it is
    have hother := Store.dated_perform c command hheld
    cases command with
    | onKey key' k =>
      cases hanswer : (store.perform c (.onKey key' k)).answer with
      | error e =>
        simp only [hanswer]
        refine ⟨hother fun _ _ _ _ hok => ?_, h.disk⟩
        rw [hanswer] at hok
        cases hok
      | ok r =>
        simp only [hanswer, next_of_ok hc]
        split
        · rename_i hsame
          obtain ⟨rfl, rfl⟩ := hsame
          have hdated := Store.dated_onKey (hsound.store store hstore).storage hheld hanswer
          rw [hclock] at hdated
          rw [held_of_store hstore]
          exact ⟨hdated, h.disk⟩
        · rename_i hdiff
          refine ⟨hother ?_, h.disk⟩
          rintro k' r' hcommand hdb -
          obtain ⟨rfl, rfl⟩ := Command.onKey.inj hcommand
          exact hdiff ⟨rfl, hdb⟩
    | del | flushAll | dbSize | close => exact ⟨hother nofun, h.disk⟩

/-- **A step keeps the book**, if it writes nothing behind the store's back. -/
theorem Fits.step (h : l.Fits db key s) (hsound : s.Sound) (hraw : t.writes = [])
    (ht : s.step t = some (a, s')) : (l.next db key s t a s').Fits db key s' := by
  cases t with
  | perform caller i command =>
    obtain ⟨c, hc, hperform⟩ := Option.map_eq_some_iff.1 ht
    have hfits := h.perform hsound command hc
    rw [hperform] at hfits
    exact hfits
  | reopen writes config =>
    obtain rfl : writes = [] := hraw
    simp only [Session.step] at ht
    split at ht <;>
    · cases ht
      exact h.mount hsound _
  | _ => exact h.upkeep hsound (by rintro _ _ _ ⟨⟩) (by rintro _ _ ⟨⟩) ht

/-- The book after a run. -/
def run (db : DbId) (key : Bytes) (l : Ledger) (s : Session) : List Step → Ledger
  | [] => l
  | t :: ts =>
    match s.step t with
    | none => l
    | some (a, s') => run db key (l.next db key s t a s') s' ts

theorem Fits.run {steps : List Step} (h : l.Fits db key s) (hsound : s.Sound)
    (hraw : ∀ t ∈ steps, t.writes = []) :
    (l.run db key s steps).Fits db key (s.run steps).2 := by
  induction steps generalizing l s with
  | nil => exact h
  | cons t ts ih =>
    have hwrites := hraw t List.mem_cons_self
    unfold Ledger.run
    cases ht : s.step t with
    | none =>
      rw [run_of_none ht]
      exact h
    | some p =>
      rw [run_of_some ht]
      exact ih (h.step hsound hwrites ht) (hsound.step hwrites ht) fun u hu =>
        hraw u (List.mem_cons_of_mem t hu)

theorem fits_bare (db : DbId) (key : Bytes) (wall : Int64) :
    Ledger.empty.Fits db key (bare wall) :=
  ⟨Slot.dated_of_value rfl, Slot.dated_of_value rfl⟩

end Ledger

/-! ## Reachable states -/

/-- **The deadline follows the life of its key.** Whatever is done in a session that began without
records, short of writing records behind the store's back, a command that answers on a key, at any
time, respects its deadline, and the deadline of a stored key is the one in the book. -/
theorem deadline_follows_key (wall : Int64) (steps : List Step)
    (hraw : ∀ t ∈ steps, t.writes = []) (db : DbId) (key : Bytes) :
    let s := ((bare wall).run steps).2
    ∀ store, s.store = some store →
      (∀ c k r, c.db = db → (store.perform c (.onKey key k)).answer = .ok r →
        k.Respects c.clock.seconds r (store.storage.slot db key)
          ((store.perform c (.onKey key k)).store.storage.slot db key)) ∧
      ((store.storage.slot db key).value.isSome = true →
        (store.storage.slot db key).deadline? =
          (Ledger.empty.run db key (bare wall) steps).held) := by
  intro s store hstore
  have hsound : s.Sound := (sound_bare wall).run hraw
  refine ⟨fun c k r hdb hok => ?_, ?_⟩
  · subst hdb
    exact Store.respects_onKey (hsound.store store hstore).storage hok
  · have hfits := ((Ledger.fits_bare db key wall).run (sound_bare wall) hraw).held
    rw [held_of_store hstore] at hfits
    exact hfits

/-- A key gets a deadline, a new value, and a later deadline. -/
theorem deadline_follows_key_renewed :
    let steps : List Step := [.reopen [] (some (some {})),
      .perform (.alone 5) .none (.onKey [107] (.change (.set [118]))),
      .perform (.alone 5) .none (.onKey [107] (.lifetime (.expire 1))),
      .perform (.alone 5) .none (.onKey [107] (.change (.set [119]))),
      .perform (.alone 5) .none (.onKey [107] (.lifetime (.expire 9)))]
    let s := ((bare 1000).run steps).2
    (∀ t ∈ steps, t.writes = []) ∧
      (Ledger.empty.run 5 [107] (bare 1000) steps).held = some ⟨10, 1⟩ ∧
      ∀ store, s.store = some store → (store.storage.slot 5 [107]).value.isSome = true →
        (store.storage.slot 5 [107]).deadline? = some ⟨10, 1⟩ := by
  intro steps s
  have hraw : ∀ t ∈ steps, t.writes = [] := by decide
  have hbook : (Ledger.empty.run 5 [107] (bare 1000) steps).held = some ⟨10, 1⟩ := by rfl
  refine ⟨hraw, hbook, fun store hstore hvalue => ?_⟩
  rw [← hbook]
  exact (deadline_follows_key 1000 steps hraw 5 [107] store hstore).2 hvalue

/-- A deadline can go in two more ways: a sweep drops it after it has passed, while the database is
out of range, and the key is live again once it is back in range; and a command that is refused
because the key has expired removes the key. -/
theorem deadline_dropped :
    let s := ((bare 1000).run lapse).2
    let s' := (s.run rescale).2
    let c : Call := .alone 5 s.clock .none
    (s.held.slot 5 [107]).deadline? = some ⟨2, 1⟩ ∧
      (∃ store, s'.store = some store ∧
        (store.perform c (.onKey [107] (.lifetime .ttl))).answer = .ok (.number (-1))) ∧
      ∃ store, s.store = some store ∧
        (store.perform c (.onKey [107] (.lifetime (.expire 10)))).answer = .ok (.flag false) ∧
        (store.storage.slot 5 [107]).deadline.isSome = true ∧
        ((store.perform c (.onKey [107] (.lifetime (.expire 10)))).store.storage.slot
          5 [107]).deadline = none := by
  exact ⟨by decide, ⟨_, rfl, by rfl⟩, _, rfl, by rfl, by decide, by decide⟩

end Session

end Keyspace
