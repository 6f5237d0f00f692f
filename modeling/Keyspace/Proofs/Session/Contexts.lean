import Keyspace.Proofs.Context
import Keyspace.Proofs.Session.Steps

/-!
# The contexts of a session

A session gives names to contexts and takes names away again, and it does much else besides. But as
far as contexts go it does nothing that is no `Contexts.Act`: the contexts with a name are among
those that some history makes (`Session.Follows`), and every step of the session carries that
history on (`Traced.step`). So what lineages tell of a context holds of the contexts in whose names
commands are given (`named_contexts_traced`).
-/

namespace Keyspace.Session

/-- The session has the families and the steady clock of some contexts, and those with a name are
among them. -/
structure Follows (s : Session) (w : Contexts) : Prop where
  families : s.families = w.families
  steady : s.clock.steady = w.clock.steady
  named : ∀ p ∈ s.contexts, p.2 ∈ w.made

/-- The session follows a history that began at a reading of the clocks. -/
def Traced (now : Clock) (s : Session) : Prop :=
  ∃ past w, Contexts.run now past = some w ∧ s.Follows w

variable {now : Clock} {s s' : Session} {w w' : Contexts} {past : List Contexts.Act}
  {a : Contexts.Act} {c : Context} {name : String}

theorem traced_of_act (h : Contexts.run now past = some w) (ha : w.act a = some w')
    (hs : s'.Follows w') : s'.Traced now := by
  refine ⟨a :: past, w', ?_, hs⟩
  rw [Contexts.run, h]
  exact ha

theorem traced_bare (wall : Int64) : (bare wall).Traced ⟨wall, 0⟩ :=
  ⟨[], _, rfl, rfl, rfl, nofun⟩

theorem mem_of_lookup (h : s.contexts.lookup name = some c) : (name, c) ∈ s.contexts := by
  obtain ⟨l, l', he, -⟩ := List.lookup_eq_some_iff.1 h
  rw [he]
  exact List.mem_append_right _ List.mem_cons_self

/-- A context with a name has a place among those made. -/
theorem Follows.exists_place (h : s.Follows w) (hc : s.contexts.lookup name = some c) :
    ∃ i : Nat, w.made[i]? = some c :=
  List.mem_iff_getElem?.1 (h.named _ (mem_of_lookup hc))

/-- The session follows whatever contexts are made. -/
theorem Follows.concat (h : s.Follows w) (c : Context) :
    s.Follows { w with made := w.made ++ [c] } where
  families := h.families
  steady := h.steady
  named p hp := List.mem_append_left _ (h.named p hp)

/-! ## Steps -/

/-- A context that is there may get a name, and before that a deadline. -/
theorem Follows.traced_keep (h : s.Follows w) (hrun : Contexts.run now past = some w)
    (hc : c ∈ w.made) (name : String) (timeout : Option Nat) :
    (s.keep name c timeout).2.Traced now := by
  cases timeout with
  | none => exact ⟨past, w, hrun, h.families, h.steady, List.forall_mem_cons.2 ⟨hc, h.named⟩⟩
  | some ms =>
    obtain ⟨i, hi⟩ := List.mem_iff_getElem?.1 hc
    have ha : w.act (.derive i (.timeout ms)) =
        some { w with made := w.made ++ [c.withTimeout w.clock ms] } := by
      rw [Contexts.act, hi]
      rfl
    have hsame : c.withTimeout s.clock ms = c.withTimeout w.clock ms := by
      rw [Context.withTimeout, Context.withTimeout, h.steady]
    refine traced_of_act hrun ha ⟨h.families, h.steady, List.forall_mem_cons.2 ⟨?_, ?_⟩⟩
    · dsimp only
      rw [hsame]
      exact List.mem_append_right _ (List.mem_singleton_self _)
    · exact (h.concat _).named

/-- Only the families, the names and the steady clock matter. -/
theorem Traced.of_eq (h : s.Traced now) (hfamilies : s'.families = s.families)
    (hnames : s'.contexts = s.contexts) (hsteady : s'.clock.steady = s.clock.steady) :
    s'.Traced now := by
  obtain ⟨past, w, hrun, hs⟩ := h
  refine ⟨past, w, hrun, hfamilies.trans hs.families, hsteady.trans hs.steady, ?_⟩
  rw [hnames]
  exact hs.named

theorem Traced.pass (h : s.Traced now) (ms : Nat) (hfamilies : s'.families = s.families)
    (hnames : s'.contexts = s.contexts) (hsteady : s'.clock.steady = s.clock.steady + ms) :
    s'.Traced now := by
  obtain ⟨past, w, hrun, hs⟩ := h
  refine traced_of_act hrun (a := .advance ms) rfl ⟨hfamilies.trans hs.families, ?_, ?_⟩
  · exact hsteady.trans (congrArg (· + ms) hs.steady)
  · rw [hnames]
    exact hs.named

/-- A context with a name may be canceled, with its family. -/
theorem Traced.cancel (h : s.Traced now) (hc : s.contexts.lookup name = some c) :
    Traced now { s with families := s.families.cancel c } := by
  obtain ⟨past, w, hrun, hs⟩ := h
  obtain ⟨i, hi⟩ := hs.exists_place hc
  have hact : w.act (.cancel i) = some { w with families := w.families.cancel c } := by
    rw [Contexts.act, hi]
    rfl
  exact traced_of_act hrun hact
    ⟨congrArg (Families.cancel · c) hs.families, hs.steady, hs.named⟩

/-- An interlude in a request lets time pass, and may cancel the context of the request. -/
theorem Traced.interlude {caller : Caller} {i : Interludes} {call : Call} (h : s.Traced now)
    (hcall : s.call? caller i = some call) (p : Interlude) (store : Option Store) :
    Traced now { s with
      store, clock := s.clock.elapse p.ms, families := s.families.after call.family p } := by
  have hpass : Traced now { s with store, clock := s.clock.elapse p.ms } := h.pass p.ms rfl rfl rfl
  cases caller with
  | alone db =>
    cases hcall
    exact hpass
  | named name =>
    obtain ⟨c, hc, rfl⟩ := Option.map_eq_some_iff.1 hcall
    obtain ⟨ms, cancels⟩ := p
    cases cancels with
    | false => exact hpass
    | true => exact hpass.cancel hc

theorem Traced.onStore {f : Store → Answer × Store} {r : Answer} (h : s.Traced now)
    (hs : s.onStore f = (r, s')) : s'.Traced now := by
  unfold Session.onStore at hs
  split at hs <;>
  · cases hs
    exact h.of_eq rfl rfl rfl

theorem Traced.mount (h : s.Traced now) (writes : List Storage.RawWrite) (config : Option Config) :
    (s.mount writes config).2.Traced now := by
  unfold Session.mount
  dsimp only
  split
  · exact h.of_eq rfl rfl rfl
  · split <;> exact h.of_eq rfl rfl rfl

/-- **Every step carries the history on.** -/
theorem Traced.step {t : Step} {r : Answer} (h : s.Traced now) (ht : s.step t = some (r, s')) :
    s'.Traced now := by
  have ⟨past, w, hrun, hs⟩ := h
  cases t with
  | advance ms =>
    cases ht
    exact h.pass ms rfl rfl rfl
  | setWall ms =>
    cases ht
    exact h.of_eq rfl rfl rfl
  | start name db timeout =>
    cases ht
    have hact : Contexts.run now (.start db :: past) = some { w with
        families := (w.families.start db).2, made := w.made ++ [(w.families.start db).1] } := by
      rw [Contexts.run, hrun]
      rfl
    have hfollows : Follows { s with families := (s.families.start db).2 } { w with
        families := (w.families.start db).2, made := w.made ++ [(w.families.start db).1] } := by
      rw [hs.families]
      exact ⟨rfl, hs.steady, (hs.concat _).named⟩
    rw [hs.families] at hfollows ⊢
    exact hfollows.traced_keep hact (List.mem_append_right _ (List.mem_singleton_self _)) name
      timeout
  | derive source name db timeout =>
    obtain ⟨c, hc, he⟩ := Option.map_eq_some_iff.1 ht
    obtain ⟨i, hi⟩ := hs.exists_place hc
    obtain rfl : (s.keep name (db.elim c c.select) timeout).2 = s' := congrArg Prod.snd he
    cases db with
    | none => exact hs.traced_keep hrun (List.mem_of_getElem? hi) name timeout
    | some db =>
      have hact : Contexts.run now (.derive i (.select db) :: past) =
          some { w with made := w.made ++ [c.select db] } := by
        rw [Contexts.run, hrun, Option.bind_some, Contexts.act, hi]
        rfl
      exact (hs.concat _).traced_keep hact
        (List.mem_append_right _ (List.mem_singleton_self _)) name timeout
  | cancel name =>
    obtain ⟨c, hc, he⟩ := Option.map_eq_some_iff.1 ht
    cases he
    exact h.cancel hc
  | inspect name =>
    obtain ⟨c, -, he⟩ := Option.map_eq_some_iff.1 ht
    cases he
    exact h
  | perform caller i command =>
    obtain ⟨call, hcall, he⟩ := Option.map_eq_some_iff.1 ht
    unfold Session.perform at he
    split at he
    · cases he
      exact h
    · cases he
      exact h.interlude hcall _ _
  | isExpired | resolve =>
    obtain ⟨c, -, he⟩ := Option.map_eq_some_iff.1 ht
    exact h.onStore he
  | checkKey | isClosed | sweep | restore | clean | countResolved | maxDatabases | config =>
    exact h.onStore (Option.some.inj ht)
  | reopen writes config =>
    have hmount := h.mount writes (config.getD s.config)
    simp only [Session.step] at ht
    split at ht <;>
    · cases ht
      exact hmount
  | dump =>
    cases ht
    exact h.of_eq rfl rfl rfl

/-! ## Runs -/

/-- **The contexts that have a name are those of a history.** In a session that began without a
store there is a history of the contexts, so the check of a context with a name finds what its
lineage says. The session shows this check, and it is the one by which the commands are admitted
that are given in the name of the context. -/
theorem named_contexts_traced (wall : Int64) (steps : List Step) :
    let s := ((bare wall).run steps).2
    ∃ past w, Contexts.run ⟨wall, 0⟩ past = some w ∧ w.clock.steady = s.clock.steady ∧
      ∀ name c, s.contexts.lookup name = some c →
        (∃ i : Nat, w.made[i]? = some c) ∧
        s.step (.inspect name) = some (.context c (c.isCanceled w.families) (w.check c), s) ∧
        ∀ i, ∃ call, s.call? (.named name) i = some call ∧ call.db = c.db ∧
          call.interruption = w.check c := by
  intro s
  have hall : s.Traced ⟨wall, 0⟩ :=
    (along_of_forall (R := fun _ _ _ _ => True) (fun _ _ _ _ _ => trivial) (bare wall)).run
      (fun _ _ _ _ ht _ h => h.step ht) (traced_bare wall)
  obtain ⟨past, w, hrun, hs⟩ := hall
  have hcheck : ∀ c : Context, c.interruption s.families s.clock = w.check c := by
    intro c
    rw [Contexts.check, Context.interruption, Context.interruption, hs.families, hs.steady]
  refine ⟨past, w, hrun, hs.steady.symm, fun name c hc => ⟨hs.exists_place hc, ?_, fun i => ?_⟩⟩
  · rw [Session.step, hc, Option.map_some, view, hcheck, hs.families]
  · refine ⟨Call.ofContext c s.families s.clock i, ?_, rfl, hcheck c⟩
    rw [call?, hc]
    rfl

end Keyspace.Session
