import Keyspace.Proofs.Store.Sweeps
import Keyspace.Session

/-!
# What a step does to a session

`Session.Moves` lists what a step can do to the store of a session and to the records on the disk
(`moves_of_step`): most steps do nothing to them, some give a command to the store (`request`),
some work on the store without one (`upkeep`), and one opens the store again (`reopens`). What the
last one comes to, if nothing is written behind the store's back, says `mount_eq`.

`Session.Along` says that every step carried out in a run has a property, given the session before
it, its answer and the session after it. What such steps preserve, the whole run preserves
(`Along.run`).
-/

namespace Keyspace

theorem Clock.seconds_le_seconds {c c' : Clock} (h : c.wall ≤ c'.wall) :
    c.seconds ≤ c'.seconds := by
  have hwall := Int64.le_iff_toInt_le.1 h
  have hmillis : c.millis ≤ c'.millis := by
    unfold millis
    omega
  exact Nat.div_le_div_right hmillis

/-- What can be done to a store without a command, at `now`. -/
inductive Store.Upkeep (now : Nat) (s : Store) : Store → Prop
  | rests : Upkeep now s s
  | resolves {db : DbId} (h : db.toNat < s.config.maxDatabases) : Upkeep now s (s.ready db)
  | sweeps {t : Store} (h : Sweeps now s t) : Upkeep now s t
  /-- The store is swept in the background until it is closed. -/
  | cleans {t : Store} (h : Sweeps now s t) : Upkeep now s t.close
  | reattaches : Upkeep now s s.reattach
  /-- A temporary store loses its records when it is attached again. -/
  | vanishes (h : s.config.temporary = true) :
      Upkeep now s { s.reattach with storage := .empty }

namespace Store.Upkeep

variable {now : Nat} {s t : Store}

theorem config (h : s.Upkeep now t) : t.config = s.config := by
  cases h with
  | rests | resolves | reattaches | vanishes => rfl
  | sweeps h => exact h.config
  | cleans h => exact h.config

/-- Upkeep sweeps the slots and keeps to the databases in range, unless all records vanish. -/
theorem records (h : s.Upkeep now t) :
    s.config.temporary = true ∧ t.storage = .empty ∨
      Storage.Frame s.config.maxDatabases s.storage t.storage ∧
        ∀ db key, (s.storage.slot db key).Swept now (db.toNat < s.config.maxDatabases)
          (t.storage.slot db key) := by
  cases h with
  | rests | reattaches => exact .inr ⟨.refl _ _, fun _ _ => .kept⟩
  | resolves h =>
    refine .inr ⟨Storage.frame_addTable _ h, fun db key => ?_⟩
    rw [ready_storage, Storage.slot_addTable]
    exact .kept
  | sweeps h => exact .inr ⟨h.frame, h.slot⟩
  | cleans h => exact .inr ⟨h.frame, h.slot⟩
  | vanishes h => exact .inl ⟨h, rfl⟩

end Store.Upkeep

namespace Session

/-! ## One step -/

/-- What a step can do to the store of a session and to its surroundings. -/
inductive Moves (s : Session) : Step → Answer → Session → Prop
  /-- The store is left alone. -/
  | around {t : Step} {a : Answer} {s' : Session} (store : s'.store = s.store)
      (disk : s'.disk = s.disk) (config : s'.config = s.config) : Moves s t a s'
  /-- A command is given to the store. -/
  | request {caller : Caller} {i : Interludes} {command : Command} {c : Call} {store : Store}
      (hstore : s.store = some store) (hc : s.call? caller i = some c) :
      Moves s (.perform caller i command) (.reply (store.perform c command).answer)
        { s with
          store := some (store.perform c command).store
          clock := s.clock.elapse (store.perform c command).passed.ms
          families := s.families.after c.family (store.perform c command).passed }
  /-- The store is worked on without a command, and is as it was if that fails. -/
  | upkeep {t : Step} {a : Answer} {store store' : Store} (hstore : s.store = some store)
      (h : store.Upkeep s.clock.seconds store')
      (failed : ∀ e, a = .reply (.error e) → store' = store) :
      Moves s t a { s with store := some store' }
  /-- The store is opened again, or fails to load. -/
  | reopens {writes : List Storage.RawWrite} {config : Option (Option Config)} {a : Answer}
      (answers : ∀ e, a ≠ .reply (.error e)) :
      Moves s (.reopen writes config) a (s.mount writes (config.getD s.config)).2

theorem call?_clock {s : Session} {caller : Caller} {i : Interludes} {c : Call}
    (h : s.call? caller i = some c) : c.clock = s.clock := by
  cases caller with
  | alone db =>
    cases h
    rfl
  | named name =>
    obtain ⟨context, -, rfl⟩ := Option.map_eq_some_iff.1 h
    rfl

theorem moves_onStore {s s' : Session} {t : Step} {a : Answer} {f : Store → Answer × Store}
    (hf : ∀ store : Store, store.Upkeep s.clock.seconds (f store).2)
    (failed : ∀ store e, (f store).1 = .reply (.error e) → (f store).2 = store)
    (h : s.onStore f = (a, s')) : s.Moves t a s' := by
  unfold onStore at h
  split at h
  · cases h
    exact .around rfl rfl rfl
  · rename_i store hstore
    cases h
    exact .upkeep hstore (hf store) (failed store)

theorem sweeps_swept {now : Nat} {store : Store} {r : Except Error (Nat × Store)}
    (h : ∀ n t, r = .ok (n, t) → store.Sweeps now t) : store.Sweeps now (swept store r).2 := by
  cases r with
  | ok p => exact h p.1 p.2 rfl
  | error e => exact .none store

theorem swept_of_error {store : Store} {r : Except Error (Nat × Store)} {e : Error}
    (h : (swept store r).1 = .reply (.error e)) : (swept store r).2 = store := by
  cases r with
  | ok p => cases h
  | error e => rfl

/-- **What a step does to a session.** -/
theorem moves_of_step {s s' : Session} {t : Step} {a : Answer} (h : s.step t = some (a, s')) :
    s.Moves t a s' := by
  cases t with
  | advance | setWall | start =>
    cases h
    exact .around rfl rfl rfl
  | derive | cancel | inspect =>
    obtain ⟨c, -, h⟩ := Option.map_eq_some_iff.1 h
    cases h
    exact .around rfl rfl rfl
  | perform caller i command =>
    obtain ⟨c, hc, h⟩ := Option.map_eq_some_iff.1 h
    unfold perform at h
    split at h
    · cases h
      exact .around rfl rfl rfl
    · rename_i store hstore
      cases h
      exact .request hstore hc
  | isExpired caller key =>
    obtain ⟨c, -, h⟩ := Option.map_eq_some_iff.1 h
    exact moves_onStore (fun _ => .rests) (fun _ _ _ => rfl) h
  | resolve caller =>
    obtain ⟨c, -, h⟩ := Option.map_eq_some_iff.1 h
    refine moves_onStore (fun store => ?_) (fun store e he => ?_) h
    · split
      · rename_i hr
        obtain ⟨hdb, rfl⟩ := Store.resolve_eq_ok hr
        exact .resolves hdb
      · exact .rests
    · split at he
      · cases he
      · rfl
  | checkKey | isClosed | countResolved | maxDatabases | config =>
    exact moves_onStore (fun _ => .rests) (fun _ _ _ => rfl) (Option.some.inj h)
  | sweep =>
    exact moves_onStore (fun _ => .sweeps (sweeps_swept fun _ _ => Store.sweeps_of_sweep))
      (fun _ _ => swept_of_error) (Option.some.inj h)
  | restore =>
    exact moves_onStore (fun _ => .sweeps (sweeps_swept fun _ _ => Store.sweeps_of_restore))
      (fun _ _ => swept_of_error) (Option.some.inj h)
  | clean n =>
    refine moves_onStore (fun store => ?_) (fun _ _ he => by cases he) (Option.some.inj h)
    obtain ⟨t, ht, he⟩ := Store.sweeps_clean s.clock.seconds n store
    dsimp only
    rw [he]
    exact .cleans ht
  | reopen writes config =>
    simp only [step] at h
    split at h <;>
    · cases h
      exact .reopens nofun
  | dump =>
    cases h
    cases hstore : s.store with
    | none => exact .around (by simp [hstore]) rfl rfl
    | some store =>
      simp only [Option.map_some]
      split
      · rename_i htemp
        exact .upkeep hstore (.vanishes htemp) nofun
      · exact .upkeep hstore .reattaches nofun

/-- What opening the store again on the records that are there comes to: they are on the disk, and
there is a store on them, or on none if it is temporary, if the configuration is valid. -/
theorem mount_eq (s : Session) (config : Option Config) :
    ∃ opened : Option Store,
      (s.mount [] config).2 = { s with disk := s.records, config, store := opened } ∧
      (∀ store, opened = some store → ∃ c, config = some c ∧
        Store.openOn c (if c.temporary then .empty else s.records) s.clock.seconds = .ok store) ∧
      ∀ c, config = some c → c.validate = .ok () → opened ≠ none := by
  unfold mount
  dsimp only [List.foldl_nil]
  split
  · exact ⟨none, rfl, nofun, nofun⟩
  · rename_i c
    split
    · rename_i f hf
      refine ⟨none, rfl, nofun, fun c' hc hv => ?_⟩
      obtain rfl := Option.some.inj hc
      rw [Store.openOn, hv] at hf
      cases hf
    · rename_i store hstore
      refine ⟨some store, rfl, fun store' hs => ?_, nofun⟩
      obtain rfl := Option.some.inj hs
      exact ⟨c, rfl, hstore⟩

/-- The records in use: those of the store, if there is one. -/
def held (s : Session) : Storage := (s.store.map (·.storage)).getD s.disk

theorem held_of_store {s : Session} {store : Store} (h : s.store = some store) :
    s.held = store.storage := by
  rw [held, h]
  rfl

/-! ## Runs -/

theorem run_of_none {s : Session} {t : Step} (h : s.step t = none) (ts : List Step) :
    s.run (t :: ts) = ([], s) := by
  rw [run, h]

theorem run_of_some {s s' : Session} {t : Step} {a : Answer} (h : s.step t = some (a, s'))
    (ts : List Step) : s.run (t :: ts) = (a :: (s'.run ts).1, (s'.run ts).2) := by
  rw [run, h]

/-- Every step carried out in the run has the property `R`. -/
def Along (R : Session → Step → Answer → Session → Prop) : Session → List Step → Prop
  | _, [] => True
  | s, t :: ts =>
    match s.step t with
    | none => True
    | some (a, s') => R s t a s' ∧ Along R s' ts

theorem along_of_forall {R : Session → Step → Answer → Session → Prop} {ts : List Step}
    (h : ∀ t ∈ ts, ∀ s a s', R s t a s') (s : Session) : s.Along R ts := by
  induction ts generalizing s with
  | nil => trivial
  | cons t ts ih =>
    rw [Along]
    split
    · trivial
    · exact ⟨h t (by simp) _ _ _, ih (fun u hu => h u (by simp [hu])) _⟩

theorem Along.and {R S : Session → Step → Answer → Session → Prop} {ts : List Step}
    {s : Session} (h : s.Along R ts) (h' : s.Along S ts) :
    s.Along (fun s t a s' => R s t a s' ∧ S s t a s') ts := by
  induction ts generalizing s with
  | nil => trivial
  | cons t ts ih =>
    rw [Along] at h h' ⊢
    split
    · trivial
    · rename_i hs
      rw [hs] at h h'
      exact ⟨⟨h.1, h'.1⟩, ih h.2 h'.2⟩

theorem Along.mono {R S : Session → Step → Answer → Session → Prop} {ts : List Step}
    (hRS : ∀ s t a s', R s t a s' → S s t a s') {s : Session} (h : s.Along R ts) :
    s.Along S ts := by
  induction ts generalizing s with
  | nil => trivial
  | cons t ts ih =>
    rw [Along] at h ⊢
    split
    · trivial
    · rename_i hs
      rw [hs] at h
      exact ⟨hRS _ _ _ _ h.1, ih h.2⟩

/-- What the steps of a run preserve, the run preserves. -/
theorem Along.run {R : Session → Step → Answer → Session → Prop} {P : Session → Prop}
    (hstep : ∀ s t a s', s.step t = some (a, s') → R s t a s' → P s → P s')
    {s : Session} {ts : List Step} (h : s.Along R ts) (hs : P s) : P (s.run ts).2 := by
  induction ts generalizing s with
  | nil => exact hs
  | cons t ts ih =>
    rw [Along] at h
    cases ht : s.step t with
    | none =>
      rw [run_of_none ht]
      exact hs
    | some p =>
      rw [ht] at h
      rw [run_of_some ht]
      exact ih h.2 (hstep s t p.1 p.2 ht h.1 hs)

end Session

/-- The records that a step writes straight to the disk. -/
def Step.writes : Step → List Storage.RawWrite
  | .reopen writes _ => writes
  | _ => []

end Keyspace
