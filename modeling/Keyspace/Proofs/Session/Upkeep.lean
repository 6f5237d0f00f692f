import Keyspace.Proofs.Session.Steps
import Keyspace.Proofs.Store.Legible

/-!
# Upkeep is not to be noticed

A run of operations (`Step.isOperation`) may be interspersed with upkeep (`Step.isUpkeep`): sweeps,
and opening the store again as it was (`Session.Renews`). `upkeep_unobservable` compares such a run
with the one without upkeep: as long as the wall clock is not set back, all operations show the same
(`Session.shown`), and at the end the stores hold the same keys.

The two runs are kept together by `Session.Twins`: the surroundings are the same, and the stores are
alike and legible. An operation takes twins to twins and shows the same in both (`Twins.operation`),
and upkeep in the second of them leaves twins (`Twins.upkeep`).
-/

namespace Keyspace

/-! ## Operations and upkeep -/

/-- The step has nothing to do with the store. -/
def Step.isAround : Step → Bool
  | .advance _ | .setWall _ | .start .. | .derive .. | .cancel _ | .inspect _ => true
  | _ => false

/-- The step is a command, other than the closing of the store, or has nothing to do with it. -/
def Step.isOperation : Step → Bool
  | .perform _ _ command => command ≠ .close
  | t => t.isAround

/-- The step removes expired keys, or opens the store again. -/
def Step.isUpkeep : Step → Bool
  | .sweep | .restore | .reopen .. => true
  | _ => false

/-- What an answer to a step shows: all of it but the number of records counted. -/
def Step.shows : Step → Answer → Answer
  | .perform _ _ command, .reply r => .reply (if command.isCount then r.map fun _ => .done else r)
  | _, a => a

namespace Session

/-- The operations of a run with what their answers show. -/
def shown (s : Session) (steps : List Step) : List (Step × Answer) :=
  ((steps.zip (s.run steps).1).filter (·.1.isOperation)).map fun p => (p.1, p.1.shows p.2)

/-- If the step opens the store again, it does so in the same place, on the records that are there,
which are kept, and with a valid configuration for as many databases. -/
def Renews (s : Session) (t : Step) : Prop :=
  ∀ writes config, t = .reopen writes config →
    writes = [] ∧ ∃ store c, s.store = some store ∧ store.config.temporary = false ∧
      config.getD s.config = some c ∧ c.validate = .ok () ∧ c.temporary = false ∧
      c.dataDir = store.config.dataDir ∧ c.maxDatabases = store.config.maxDatabases

theorem shown_of_none {s : Session} {t : Step} (h : s.step t = none) (ts : List Step) :
    s.shown (t :: ts) = [] := by
  rw [shown, run_of_none h]
  rfl

theorem shown_of_some {s s' : Session} {t : Step} {a : Answer} (h : s.step t = some (a, s'))
    (ts : List Step) :
    s.shown (t :: ts) =
      if t.isOperation then (t, t.shows a) :: s'.shown ts else s'.shown ts := by
  rw [shown, run_of_some h, List.zip_cons_cons, List.filter_cons]
  split <;> rfl

/-! ## Twins -/

/-- The surroundings of one session with the store of another. -/
def bearing (s u : Session) : Session :=
  { s with disk := u.disk, config := u.config, store := u.store }

theorem step_bearing {t : Step} (ht : t.isAround = true) (s u : Session) :
    (s.bearing u).step t = (s.step t).map fun p => (p.1, p.2.bearing u) := by
  cases t with
  | advance | setWall | start => rfl
  | derive source name db timeout =>
    simp only [step, Option.map_map]
    rfl
  | cancel name | inspect name =>
    simp only [step, Option.map_map]
    rfl
  | _ => cases ht

theorem store_of_isAround {s s' : Session} {t : Step} {a : Answer} (ht : t.isAround = true)
    (h : s.step t = some (a, s')) : s'.store = s.store := by
  cases t with
  | advance | setWall | start =>
    cases h
    rfl
  | derive | cancel | inspect =>
    obtain ⟨c, -, h⟩ := Option.map_eq_some_iff.1 h
    cases h
    rfl
  | _ => cases ht

/-- The sessions have the same surroundings, and their stores are open, legible and alike. -/
structure Twins (s u : Session) : Prop where
  surroundings : u = s.bearing u
  stores : ∃ a b, s.store = some a ∧ u.store = some b ∧ a.Alike s.clock.seconds b ∧
    b.isClosed = false ∧ a.Legible ∧ b.Legible

namespace Twins

variable {s s' u u' : Session} {t : Step} {x y : Answer}

theorem clock (h : Twins s u) : u.clock = s.clock := by
  rw [h.surroundings]
  rfl

/-- A step around the store does the same to both twins. -/
theorem around (h : Twins s u) (ht : t.isAround = true) (hs : s.step t = some (x, s')) :
    u.step t = some (x, s'.bearing u) ∧
      (s.clock.wall ≤ s'.clock.wall → Twins s' (s'.bearing u)) := by
  refine ⟨?_, fun hle => ?_⟩
  · rw [h.surroundings, step_bearing ht, hs]
    rfl
  · obtain ⟨a, b, ha, hb, hab, hrest⟩ := h.stores
    have hstore := (store_of_isAround ht hs).trans ha
    exact ⟨rfl, a, b, hstore, hb, hab.mono (Clock.seconds_le_seconds hle), hrest⟩

theorem call? (h : Twins s u) (caller : Caller) (i : Interludes) :
    u.call? caller i = s.call? caller i := by
  rw [h.surroundings]
  cases caller <;> rfl

/-- A command shows the same in both twins, and takes them to twins. -/
theorem perform {c : Call} {caller : Caller} {i : Interludes} {command : Command} (h : Twins s u)
    (hc : s.call? caller i = some c) (hclose : command ≠ .close) :
    Step.shows (.perform caller i command) (s.perform c command).1 =
        Step.shows (.perform caller i command) (u.perform c command).1 ∧
      Twins (s.perform c command).2 (u.perform c command).2 := by
  obtain ⟨a, b, ha, hb, hab, hopen, hla, hlb⟩ := h.stores
  have hclock := call?_clock hc
  rw [← hclock] at hab
  have ho := Store.perform_alike hab (fun key => (hla.slot c.db key).readable)
    (fun key => (hlb.slot c.db key).readable) command
  have hpa := a.performs_perform c command
  have hpb := b.performs_perform c command
  simp only [Session.perform, ha, hb]
  refine ⟨congrArg Answer.reply ?_, ?_, _, _, rfl, rfl, ?_, ?_, ?_, ?_⟩
  · have hanswer := ho.answer
    generalize (a.perform c command).answer = p at hanswer ⊢
    generalize (b.perform c command).answer = q at hanswer ⊢
    cases hanswer with
    | error e => rfl
    | ok hr =>
      cases hcount : command.isCount with
      | true => rfl
      | false => rw [hr hcount]
  · rw [ho.passed, h.surroundings]
    rfl
  · rw [hclock] at ho
    exact ho.store
  · exact (hpb.isClosed hclose).trans hopen
  · exact hpa.legible hla
  · exact hpb.legible hlb

/-- An operation shows the same in both twins, and takes them to twins unless it sets the wall clock
back. -/
theorem operation (h : Twins s u) (ht : t.isOperation = true) :
    s.step t = none ∧ u.step t = none ∨
      ∃ x y s' u', s.step t = some (x, s') ∧ u.step t = some (y, u') ∧ t.shows x = t.shows y ∧
        (s.clock.wall ≤ s'.clock.wall → Twins s' u') := by
  cases haround : t.isAround with
  | true =>
    cases hs : s.step t with
    | none =>
      refine .inl ⟨rfl, ?_⟩
      rw [h.surroundings, step_bearing haround, hs]
      rfl
    | some p =>
      obtain ⟨hu, htwins⟩ := h.around haround hs
      exact .inr ⟨p.1, p.1, p.2, _, rfl, hu, rfl, htwins⟩
  | false =>
    cases t with
    | perform caller i command =>
      simp only [step, h.call? caller i]
      cases hc : s.call? caller i with
      | none => exact .inl ⟨rfl, rfl⟩
      | some c =>
        obtain ⟨hshows, htwins⟩ := h.perform hc (of_decide_eq_true ht)
        exact .inr ⟨_, _, _, _, rfl, rfl, hshows, fun _ => htwins⟩
    | _ => simp [Step.isOperation, haround] at ht

/-- Sweeping the second of twins leaves twins. -/
theorem sweeps (h : Twins s u) {f : Store → Except Error (Nat × Store)}
    (hf : ∀ store n t, f store = .ok (n, t) → Store.Sweeps u.clock.seconds store t) :
    Twins s (u.onStore fun store => swept store (f store)).2 := by
  obtain ⟨a, b, ha, hb, hab, hopen, hla, hlb⟩ := h.stores
  have hsweeps := sweeps_swept (hf b)
  rw [h.clock] at hsweeps
  simp only [onStore, hb]
  refine ⟨?_, a, _, ha, rfl, hsweeps.alike hlb hab, ?_, hla, hsweeps.legible hlb⟩
  · exact congrArg (fun v : Session => { v with store := some (swept b (f b)).2 }) h.surroundings
  · exact hsweeps.isClosed.trans hopen

/-- Opening the store of the second of twins again, as it was, leaves twins. -/
theorem mount {store : Store} {c : Config} (h : Twins s u) (hstore : u.store = some store)
    (hkept : store.config.temporary = false) (hvalid : c.validate = .ok ())
    (htemp : c.temporary = false) (hmax : c.maxDatabases = store.config.maxDatabases) :
    Twins s (u.mount [] (some c)).2 := by
  obtain ⟨a, b, ha, hb, hab, hopen, hla, hlb⟩ := h.stores
  obtain rfl := Option.some.inj (hstore.symm.trans hb)
  have hrecords : u.records = store.storage := by simp [records, hstore, hkept]
  obtain ⟨opened, hmount, hopened, hne⟩ := u.mount_eq (some c)
  cases opened with
  | none => exact absurd rfl (hne c rfl hvalid)
  | some t =>
    obtain ⟨c', hc, ho⟩ := hopened t rfl
    obtain rfl := Option.some.inj hc
    simp only [htemp, hrecords, h.clock, Bool.false_eq_true, if_false] at ho
    have hsweeps := (Store.sweeps_openOn ho).2
    have hlegible : (Store.fresh c store.storage).Legible := by
      rw [Store.Legible, Store.fresh, hmax]
      exact hlb
    have halike : a.Alike s.clock.seconds (Store.fresh c store.storage) :=
      ⟨hab.isClosed.trans hopen, hab.maxDatabases.trans hmax.symm, hab.storage⟩
    rw [hmount]
    refine ⟨?_, a, t, ha, rfl, hsweeps.alike hlegible halike, hsweeps.isClosed, hla,
      hsweeps.legible hlegible⟩
    exact congrArg (fun v : Session =>
      { v with disk := u.records, config := some c, store := some t }) h.surroundings

/-- Upkeep in the second of twins leaves twins. -/
theorem upkeep (h : Twins s u) (ht : t.isUpkeep = true) (hr : u.Renews t)
    (hu : u.step t = some (y, u')) : Twins s u' := by
  cases t with
  | sweep =>
    obtain rfl := congrArg Prod.snd (Option.some.inj hu)
    exact h.sweeps fun _ _ _ => Store.sweeps_of_sweep
  | restore =>
    obtain rfl := congrArg Prod.snd (Option.some.inj hu)
    exact h.sweeps fun _ _ _ => Store.sweeps_of_restore
  | reopen writes config =>
    obtain ⟨rfl, store, c, hstore, hkept, hconfig, hvalid, htemp, -, hmax⟩ := hr writes config rfl
    have htwins := h.mount hstore hkept hvalid htemp hmax
    simp only [step, hconfig] at hu
    split at hu <;>
    · cases hu
      exact htwins
  | _ => cases ht

end Twins

theorem step_ne_none_of_isUpkeep {t : Step} (ht : t.isUpkeep = true) (s : Session) :
    s.step t ≠ none := by
  cases t with
  | sweep | restore => exact Option.some_ne_none _
  | reopen writes config =>
    simp only [step]
    split <;> exact Option.some_ne_none _
  | _ => cases ht

/-! ## Runs -/

/-- The second of twins may be kept up on the way: both show the same, and stay twins. -/
theorem Twins.run {s u : Session} {us : List Step} (h : Twins s u)
    (hsteps : ∀ t ∈ us, t.isOperation = true ∨ t.isUpkeep = true)
    (hclock : s.Along (fun s _ _ s' => s.clock.wall ≤ s'.clock.wall)
      (us.filter Step.isOperation))
    (hrenews : u.Along (fun u t _ _ => u.Renews t) us) :
    u.shown us = s.shown (us.filter Step.isOperation) ∧
      Twins (s.run (us.filter Step.isOperation)).2 (u.run us).2 := by
  induction us generalizing s u with
  | nil => exact ⟨rfl, h⟩
  | cons t us ih =>
    have hsteps' := fun v hv => hsteps v (List.mem_cons_of_mem t hv)
    rw [Along] at hrenews
    cases ht : t.isOperation with
    | true =>
      rw [List.filter_cons_of_pos ht] at hclock ⊢
      rw [Along] at hclock
      rcases h.operation ht with ⟨hs, hu⟩ | ⟨x, y, s', u', hs, hu, hshows, htwins⟩
      · rw [shown_of_none hs, shown_of_none hu, run_of_none hs, run_of_none hu]
        exact ⟨rfl, h⟩
      · rw [hs] at hclock
        rw [hu] at hrenews
        obtain ⟨hshown, hfinal⟩ := ih (htwins hclock.1) hsteps' hclock.2 hrenews.2
        rw [shown_of_some hs, shown_of_some hu, run_of_some hs, run_of_some hu, ht, hshown, hshows]
        exact ⟨rfl, hfinal⟩
    | false =>
      have hup := (hsteps t List.mem_cons_self).resolve_left (by simp [ht])
      rw [List.filter_cons_of_neg (by simp [ht])] at hclock ⊢
      cases hu : u.step t with
      | none => exact absurd hu (step_ne_none_of_isUpkeep hup u)
      | some p =>
        rw [hu] at hrenews
        obtain ⟨hshown, hfinal⟩ := ih (h.upkeep hup hrenews.1 hu) hsteps' hclock hrenews.2
        rw [shown_of_some hu, run_of_some hu, ht, hshown]
        exact ⟨rfl, hfinal⟩

/-- **Upkeep is not to be noticed.** Let `us` be the operations `ts` with upkeep in between. If the
wall clock is never set back, the operations show the same in both runs, and the stores hold the
same records in the end once what has expired is erased from both. -/
theorem upkeep_unobservable {s : Session} {store : Store} {ts us : List Step}
    (hstore : s.store = some store) (hopen : store.isClosed = false) (hlegible : store.Legible)
    (hsteps : ∀ t ∈ us, t.isOperation = true ∨ t.isUpkeep = true)
    (hts : us.filter Step.isOperation = ts)
    (hclock : s.Along (fun s _ _ s' => s.clock.wall ≤ s'.clock.wall) ts)
    (hrenews : s.Along (fun s t _ _ => s.Renews t) us) :
    let now := (s.run ts).2.clock.seconds
    s.shown us = s.shown ts ∧ (s.run us).2.clock = (s.run ts).2.clock ∧
      ∃ a b, (s.run ts).2.store = some a ∧ (s.run us).2.store = some b ∧
        Storage.SameRecords (a.storage.withoutExpired now) (b.storage.withoutExpired now) := by
  subst hts
  intro now
  have htwins : Twins s s := ⟨rfl, store, store, hstore, hstore,
    ⟨rfl, rfl, .refl _ _⟩, hopen, hlegible, hlegible⟩
  obtain ⟨hshown, hfinal⟩ := htwins.run hsteps hclock hrenews
  obtain ⟨a, b, ha, hb, hab, -, hla, hlb⟩ := hfinal.stores
  exact ⟨hshown, hfinal.clock, a, b, ha, hb, hab.storage.sameRecords hla hlb⟩

/-- A key expires; one run sweeps it away, and opens the store again. -/
theorem upkeep_unobservable_swept :
    let s : Session := { bare 1000 with store := some (.fresh {} .empty) }
    let set : Step := .perform (.alone 5) .none (.onKey [107] (.change (.set [118])))
    let expire : Step := .perform (.alone 5) .none (.onKey [107] (.lifetime (.expire 1)))
    let get : Step := .perform (.alone 5) .none (.onKey [107] (.query .get))
    let ts := [set, expire, get, .advance 2000, get]
    let us := [set, expire, .reopen [] (some (some { restoreOnOpen := false })), get,
      .advance 2000, .sweep, get]
    let now := (s.run ts).2.clock.seconds
    s.Along (fun s _ _ s' => s.clock.wall ≤ s'.clock.wall) ts ∧
      s.Along (fun s t _ _ => s.Renews t) us ∧
      s.shown us = s.shown ts ∧ (s.run us).2.clock = (s.run ts).2.clock ∧
      ∃ a b, (s.run ts).2.store = some a ∧ (s.run us).2.store = some b ∧
        Storage.SameRecords (a.storage.withoutExpired now) (b.storage.withoutExpired now) := by
  intro s set expire get ts us now
  have hclock : s.Along (fun s _ _ s' => s.clock.wall ≤ s'.clock.wall) ts := by
    refine ⟨?_, ?_, ?_, ?_, ?_, trivial⟩ <;> decide
  have hrenews : s.Along (fun s t _ _ => s.Renews t) us := by
    refine ⟨nofun, nofun, ?_, nofun, nofun, nofun, nofun, trivial⟩
    rintro _ _ ⟨⟩
    exact ⟨rfl, _, _, rfl, by simp [Store.perform_config, Store.fresh], rfl, rfl, rfl,
      by simp [Store.perform_config, Store.fresh], by simp [Store.perform_config, Store.fresh]⟩
  exact ⟨hclock, hrenews, upkeep_unobservable rfl rfl (Storage.legible_empty _) (by decide)
    (by decide) hclock hrenews⟩

end Session

end Keyspace
