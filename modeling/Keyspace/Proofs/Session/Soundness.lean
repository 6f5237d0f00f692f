import Keyspace.Proofs.Session.Steps
import Keyspace.Proofs.Storage.Sound

/-!
# Sessions stay sound

`reachable_sound`: whatever is done in a session that began without records, short of writing
records behind the store's back, its records are sound, and so are those of its store. Clocks may
move in any way, and the store may be closed and opened again with any configurations.

Commands and sweeps keep to the databases in the configured range, of which there are never more
than `Config.mostDatabases` (`validate_bound`), and what they leave of a sound slot is sound.
-/

namespace Keyspace

theorem Config.validate_bound {c : Config} (h : c.validate = .ok ()) :
    c.maxDatabases ≤ mostDatabases := by
  unfold validate at h
  split at h
  · cases h
  · omega

/-- Sweeps leave of a sound slot what is sound. -/
theorem Slot.Sound.swept {db : DbId} {key : Bytes} {now : Nat} {inRange : Prop} {s t : Slot}
    (h : s.Sound db key) (ht : s.Swept now inRange t) : t.Sound db key := by
  cases ht with
  | kept => exact h
  | removed => exact .empty
  | stripped | mended => exact h.without

namespace Store

/-- The store has no more databases than it may, and its records are sound. -/
structure Sound (s : Store) : Prop where
  bound : s.config.maxDatabases ≤ Config.mostDatabases
  storage : s.storage.Sound

namespace Sound

variable {s t : Store}

theorem performs {c : Call} {command : Command} {answer : Except Error Reply} (h : s.Sound)
    (hp : Performs s c command answer t) : t.Sound where
  bound := by
    rw [hp.config]
    exact h.bound
  storage := by
    apply h.storage.frame h.bound hp.frame
    apply hp.forall_slot (fun _ _ => .empty) ?_ h.storage.slot
    intro key t u hdb hkey ht hturns
    exact ht.turns (Nat.lt_of_lt_of_le hdb h.bound) (checkKey_eq_ok_iff.1 hkey) hturns

theorem upkeep {now : Nat} (h : s.Sound) (hu : s.Upkeep now t) : t.Sound where
  bound := by
    rw [hu.config]
    exact h.bound
  storage := by
    rcases hu.records with ⟨-, ht⟩ | ⟨hf, hs⟩
    · rw [ht]
      exact Storage.sound_empty
    · exact h.storage.frame h.bound hf fun db key => (h.storage.slot db key).swept (hs db key)

theorem openOn {config : Config} {storage : Storage} {now : Nat} (h : storage.Sound)
    (ho : Store.openOn config storage now = .ok s) : s.Sound := by
  obtain ⟨hv, hsweeps⟩ := sweeps_openOn ho
  have hfresh : (fresh config storage).Sound := ⟨Config.validate_bound hv, h⟩
  exact hfresh.upkeep (.sweeps hsweeps)

end Sound

end Store

namespace Session

/-- The records on the disk and those of the store are sound. -/
structure Sound (s : Session) : Prop where
  disk : s.disk.Sound
  store : ∀ store, s.store = some store → store.Sound

theorem sound_bare (wall : Int64) : (bare wall).Sound where
  disk := Storage.sound_empty
  store _ h := by cases h

namespace Sound

variable {s s' : Session}

theorem records (h : s.Sound) : s.records.Sound := by
  unfold Session.records
  split
  · exact h.disk
  · rename_i store hstore
    split
    · exact h.disk
    · exact (h.store store hstore).storage

theorem held (h : s.Sound) : s.held.Sound := by
  unfold Session.held
  cases hs : s.store with
  | none => exact h.disk
  | some store => exact (h.store store hs).storage

theorem mount (h : s.Sound) (config : Option Config) : (s.mount [] config).2.Sound := by
  obtain ⟨opened, hmount, hopened, -⟩ := s.mount_eq config
  rw [hmount]
  refine ⟨h.records, fun store hs => ?_⟩
  obtain ⟨c, -, ho⟩ := hopened store hs
  apply Store.Sound.openOn ?_ ho
  split
  · exact Storage.sound_empty
  · exact h.records

/-- A step that writes nothing behind the store's back keeps a session sound. -/
theorem step {t : Step} {a : Answer} (h : s.Sound) (hraw : t.writes = [])
    (ht : s.step t = some (a, s')) : s'.Sound := by
  cases moves_of_step ht with
  | around hstore hdisk hconfig =>
    refine ⟨?_, fun store hs => ?_⟩
    · rw [hdisk]
      exact h.disk
    · rw [hstore] at hs
      exact h.store store hs
  | request hstore hc =>
    refine ⟨h.disk, fun store' hs => ?_⟩
    cases hs
    exact (h.store _ hstore).performs (Store.performs_perform _ _ _)
  | upkeep hstore hu failed =>
    refine ⟨h.disk, fun store' hs => ?_⟩
    cases hs
    exact (h.store _ hstore).upkeep hu
  | @reopens writes config a answers =>
    obtain rfl : writes = [] := hraw
    exact h.mount _

theorem run {steps : List Step} (h : s.Sound) (hraw : ∀ t ∈ steps, t.writes = []) :
    (s.run steps).2.Sound := by
  have halong : s.Along (fun _ t _ _ => t.writes = []) steps :=
    along_of_forall (fun t ht _ _ _ => hraw t ht) s
  exact halong.run (fun _ _ _ _ ht hw hs => hs.step hw ht) h

end Sound

/-- **Reachable records are sound.** -/
theorem reachable_sound (wall : Int64) (steps : List Step) (hraw : ∀ t ∈ steps, t.writes = []) :
    let s := ((bare wall).run steps).2
    s.records.Sound ∧ ∀ store, s.store = some store → store.storage.Sound := by
  intro s
  have h : s.Sound := (sound_bare wall).run hraw
  exact ⟨h.records, fun store hstore => (h.store store hstore).storage⟩

/-- A key gets a deadline, and its database is out of range when the deadline passes. -/
theorem reachable_sound_narrowed :
    let steps : List Step := [.reopen [] (some (some {})),
      .perform (.alone 5) .none (.onKey [107] (.change (.set [118]))),
      .perform (.alone 5) .none (.onKey [107] (.lifetime (.expire 1))),
      .advance 2000, .reopen [] (some (some { maxDatabases := 1 })), .sweep]
    let s := ((bare 1000).run steps).2
    (∀ t ∈ steps, t.writes = []) ∧
      s.records.Sound ∧ ∀ store, s.store = some store → store.storage.Sound := by
  intro steps s
  have hraw : ∀ t ∈ steps, t.writes = [] := by decide
  exact ⟨hraw, reachable_sound 1000 steps hraw⟩

end Session

end Keyspace
