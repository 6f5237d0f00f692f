import Keyspace.Context

/-!
# Contexts by their lineage

A caller starts contexts, derives contexts from those that there are, cancels some and lets time
pass. `Contexts.run` carries out such a history; histories are lists with the last act first.

What a context is can be told from the history alone: its `Lineage` is the start that it goes back
to, and what was done on the way from there. `Contexts.Fits` says that the contexts made are those
of the lineages and that the canceled families are those of the contexts canceled. Every act keeps
it so (`Fits.act`), and so does every history (`fits_of_run`). Two contexts share what their
lineages share, the start, and nothing else: `check_follows_lineage` says what that means for the
check of a context, now and later.
-/

namespace Keyspace

/-- How a context is made from another one. -/
inductive Derivation
  | clone
  | select (db : DbId)
  /-- The context gets a deadline at a reading of the steady clock. -/
  | deadline (steady : Nat)
  /-- The context gets a deadline so many milliseconds from now. -/
  | timeout (ms : Nat)
  deriving DecidableEq, Repr

namespace Derivation

/-- The context that is made from another one. -/
def apply (now : Clock) (c : Context) : Derivation → Context
  | clone => c
  | select db => c.select db
  | deadline steady => c.withDeadline steady
  | timeout ms => c.withTimeout now ms

/-- The database that is chosen, if one is. -/
def db? : Derivation → Option DbId
  | select db => some db
  | _ => none

/-- The deadline that is set, if one is, at a reading of the steady clock. -/
def deadline? (steady : Nat) : Derivation → Option Nat
  | deadline d => some d
  | timeout ms => some (steady + ms)
  | _ => none

/-- What a derivation does not set is taken over. -/
theorem apply_eq (now : Clock) (c : Context) (d : Derivation) :
    d.apply now c =
      ⟨d.db?.getD c.db, c.family, (d.deadline? now.steady).or c.deadline⟩ := by
  cases d <;> rfl

end Derivation

/-- The contexts made so far, in the order of their making, with the clocks and the families. A
context is known by its place. -/
structure Contexts where
  clock : Clock
  families : Families
  made : List Context
  deriving DecidableEq, Repr

namespace Contexts

/-- What a caller can do. -/
inductive Act
  | start (db : DbId)
  | derive (source : Nat) (d : Derivation)
  | cancel (i : Nat)
  /-- Time passes. -/
  | advance (ms : Nat)
  deriving DecidableEq, Repr

/-- The context that an act works on, if it works on one. -/
def Act.operand : Act → Option Nat
  | derive i _ | cancel i => some i
  | start _ | advance _ => none

/-- The act starts a context. -/
def Act.isStart : Act → Bool
  | start _ => true
  | derive .. | cancel _ | advance _ => false

/-- The act makes a context. -/
def Act.makes : Act → Bool
  | start _ | derive .. => true
  | cancel _ | advance _ => false

/-- No context, at a reading of the clocks. -/
def bare (now : Clock) : Contexts := ⟨now, .empty, []⟩

/-- Does what a caller wants, unless it works on a context that there is not. -/
def act (w : Contexts) : Act → Option Contexts
  | .start db =>
    let (c, families) := w.families.start db
    some { w with families, made := w.made ++ [c] }
  | .derive i d => w.made[i]?.map fun c => { w with made := w.made ++ [d.apply w.clock c] }
  | .cancel i => w.made[i]?.map fun c => { w with families := w.families.cancel c }
  | .advance ms => some { w with clock := w.clock.advance ms }

/-- The contexts after a history that began at a reading of the clocks. -/
def run (now : Clock) : List Act → Option Contexts
  | [] => some (bare now)
  | a :: past => (run now past).bind (·.act a)

/-- What the check of a context finds now. -/
def check (w : Contexts) (c : Context) : Option Error := c.interruption w.families w.clock

theorem act_eq_none_iff {w : Contexts} {a : Act} :
    w.act a = none ↔ ∃ i, a.operand = some i ∧ w.made.length ≤ i := by
  cases a <;> simp [act, Act.operand]

/-! ## Lineages -/

/-- How a context came about: the number of the start that it goes back to among all starts, the
database chosen there, and the derivations from there on with their times, the last one first. -/
structure Lineage where
  origin : Nat
  db : DbId
  path : List (Nat × Derivation)
  deriving DecidableEq, Repr

namespace Lineage

/-- The lineage of a context that was derived at a reading of the steady clock. -/
def extend (l : Lineage) (steady : Nat) (d : Derivation) : Lineage :=
  { l with path := (steady, d) :: l.path }

/-- The database chosen last. -/
def lastDb (l : Lineage) : DbId := (l.path.findSome? fun p => p.2.db?).getD l.db

/-- The deadline set last, if there is one. -/
def lastDeadline (l : Lineage) : Option Nat := l.path.findSome? fun p => p.2.deadline? p.1

/-- The context of the lineage. -/
def context (l : Lineage) : Context := ⟨l.lastDb, l.origin, l.lastDeadline⟩

theorem context_extend (l : Lineage) (now : Clock) (d : Derivation) :
    (l.extend now.steady d).context = d.apply now l.context := by
  rw [Derivation.apply_eq]
  cases d <;> rfl

end Lineage

/-- The number of starts in a history. -/
def starts (past : List Act) : Nat := past.countP Act.isStart

/-- The number of contexts made in a history. -/
def count (past : List Act) : Nat := past.countP Act.makes

/-- The time that passes in a history. -/
def elapsed : List Act → Nat
  | [] => 0
  | .advance ms :: past => elapsed past + ms
  | _ :: past => elapsed past

/-- How a context came about in a history that began at the reading `since` of the steady clock, if
the history makes so many contexts. -/
def lineage (since : Nat) : List Act → Nat → Option Lineage
  | [], _ => none
  | .start db :: past, i =>
    if i = count past then some ⟨starts past, db, []⟩ else lineage since past i
  | .derive source d :: past, i =>
    if i = count past then
      (lineage since past source).map fun l => l.extend (since + elapsed past) d
    else lineage since past i
  | _ :: past, i => lineage since past i

/-- One of the contexts with this start has been canceled. -/
def Canceled (since : Nat) (past : List Act) (origin : Nat) : Prop :=
  ∃ i l, .cancel i ∈ past ∧ lineage since past i = some l ∧ l.origin = origin

/-- The deadline set last has come. -/
def Lineage.Late (l : Lineage) (steady : Nat) : Prop := ∃ d, l.lastDeadline = some d ∧ d ≤ steady

/-! ## What a history tells -/

section History

variable {since : Nat} {past : List Act} {a : Act} {w w' : Contexts} {i : Nat} {c : Context}

theorem count_le_cons (a : Act) : count past ≤ count (a :: past) := by
  rw [count, count, List.countP_cons]
  exact Nat.le_add_right _ _

/-- What comes later does not change a lineage. -/
theorem lineage_cons (a : Act) (hi : i < count past) :
    lineage since (a :: past) i = lineage since past i := by
  have hne : i ≠ count past := Nat.ne_of_lt hi
  cases a with
  | start | derive => exact if_neg hne
  | cancel | advance => rfl

/-- The contexts are those of the lineages, and the families canceled are those of the contexts
canceled. -/
structure Fits (since : Nat) (past : List Act) (w : Contexts) : Prop where
  clock : w.clock.steady = since + elapsed past
  families : w.families.count = starts past
  length : w.made.length = count past
  made : ∀ i, w.made[i]? = (lineage since past i).map Lineage.context
  operand : ∀ i, .cancel i ∈ past → i < count past
  canceled : ∀ f, f ∈ w.families.canceled ↔ Canceled since past f

theorem fits_bare (now : Clock) : Fits now.steady [] (bare now) where
  clock := rfl
  families := rfl
  length := rfl
  made _ := rfl
  operand := nofun
  canceled _ := ⟨nofun, nofun⟩

namespace Fits

theorem canceled_cons (h : Fits since past w) (ha : ∀ i, a ≠ .cancel i) (f : Nat) :
    f ∈ w.families.canceled ↔ Canceled since (a :: past) f := by
  rw [h.canceled]
  refine exists_congr fun i => exists_congr fun l => ?_
  rw [List.mem_cons, or_iff_right (Ne.symm (ha i))]
  refine and_congr_right fun hi => ?_
  rw [lineage_cons a (h.operand i hi)]

theorem operand_cons (h : Fits since past w) (ha : ∀ i, a ≠ .cancel i)
    (hi : .cancel i ∈ a :: past) : i < count (a :: past) :=
  Nat.lt_of_lt_of_le (h.operand i ((List.mem_cons.1 hi).resolve_left (Ne.symm (ha i))))
    (count_le_cons a)

theorem length_concat (h : Fits since past w) (ha : a.makes = true) :
    (w.made ++ [c]).length = count (a :: past) := by
  rw [List.length_append, h.length, count, count, List.countP_cons_of_pos ha]
  rfl

/-- A new context, and its lineage. -/
theorem getElem?_concat (h : Fits since past w) {l : Option Lineage}
    (hl : l.map Lineage.context = some c) (i : Nat) :
    (w.made ++ [c])[i]? =
      (if i = count past then l else lineage since past i).map Lineage.context := by
  rcases Nat.lt_trichotomy i (count past) with hi | rfl | hi
  · rw [if_neg (Nat.ne_of_lt hi), ← h.made, List.getElem?_append_left (h.length ▸ hi)]
  · rw [if_pos rfl, hl, ← h.length, List.getElem?_concat_length]
  · have hout : (w.made ++ [c]).length ≤ i := by rwa [List.length_append, h.length]
    have hout' : w.made.length ≤ i := by rw [h.length]; exact Nat.le_of_lt hi
    rw [if_neg (Nat.ne_of_gt hi), ← h.made, List.getElem?_eq_none hout,
      List.getElem?_eq_none hout']

/-- **Every act keeps the contexts at their lineages.** -/
theorem act (h : Fits since past w) (ha : w.act a = some w') : Fits since (a :: past) w' := by
  cases a with
  | start db =>
    obtain rfl := Option.some.inj ha
    refine ⟨h.clock, ?_, ?_, h.getElem?_concat ?_, fun i => h.operand_cons nofun,
      h.canceled_cons nofun⟩
    · exact (congrArg (· + 1) h.families).trans (List.countP_cons_of_pos rfl).symm
    · exact h.length_concat rfl
    · rw [h.families]
      rfl
  | derive source d =>
    obtain ⟨c, hc, rfl⟩ := Option.map_eq_some_iff.1 ha
    obtain ⟨l, hl, rfl⟩ := Option.map_eq_some_iff.1 ((h.made source).symm.trans hc)
    refine ⟨h.clock, h.families, ?_, h.getElem?_concat ?_,
      fun i => h.operand_cons nofun, h.canceled_cons nofun⟩
    · exact h.length_concat rfl
    · rw [hl, ← h.clock]
      exact congrArg some (l.context_extend w.clock d)
  | cancel j =>
    obtain ⟨c, hc, rfl⟩ := Option.map_eq_some_iff.1 ha
    obtain ⟨l, hl, rfl⟩ := Option.map_eq_some_iff.1 ((h.made j).symm.trans hc)
    have hj : j < count past := by
      rw [← h.length]
      exact (List.getElem?_eq_some_iff.1 hc).1
    refine ⟨h.clock, h.families, h.length, h.made, fun i hi => ?_, fun f => ?_⟩
    · rcases List.mem_cons.1 hi with he | hi
      · obtain rfl := Act.cancel.inj he
        exact hj
      · exact h.operand i hi
    · refine List.mem_cons.trans ((or_congr_right (h.canceled f)).trans ?_)
      constructor
      · rintro (rfl | ⟨i, l', hi, hl'⟩)
        · exact ⟨j, l, List.mem_cons_self, hl, rfl⟩
        · exact ⟨i, l', List.mem_cons_of_mem _ hi, hl'⟩
      · rintro ⟨i, l', hi, hl', rfl⟩
        rcases List.mem_cons.1 hi with he | hi
        · obtain rfl := Act.cancel.inj he
          obtain rfl := Option.some.inj (hl.symm.trans hl')
          exact .inl rfl
        · exact .inr ⟨i, l', hi, hl', rfl⟩
  | advance ms =>
    obtain rfl := Option.some.inj ha
    refine ⟨?_, h.families, h.length, h.made,
      fun i => h.operand_cons nofun, h.canceled_cons nofun⟩
    rw [elapsed, ← Nat.add_assoc, ← h.clock]
    rfl

end Fits

theorem run_cons {now : Clock} (h : run now (a :: past) = some w') :
    ∃ w, run now past = some w ∧ w.act a = some w' := Option.bind_eq_some_iff.1 h

/-- What a history makes fits it. -/
theorem fits_of_run {now : Clock} (h : run now past = some w) : Fits now.steady past w := by
  induction past generalizing w with
  | nil =>
    obtain rfl := Option.some.inj h
    exact fits_bare now
  | cons a past ih =>
    obtain ⟨v, hv, ha⟩ := run_cons h
    exact (ih hv).act ha

/-! ## Checks -/

/-- The check of a context finds that its start was canceled, or else that its last deadline has
come. -/
theorem Fits.check_iff (h : Fits since past w) (l : Lineage) :
    (w.check l.context = some .canceled ↔ Canceled since past l.origin) ∧
    (w.check l.context = some .deadlineExceeded ↔
      ¬ Canceled since past l.origin ∧ l.Late w.clock.steady) ∧
    (w.check l.context = none ↔
      ¬ Canceled since past l.origin ∧ ¬ l.Late w.clock.steady) := by
  have hcanceled : l.context.isCanceled w.families = true ↔ Canceled since past l.origin := by
    rw [← h.canceled]
    exact decide_eq_true_iff
  rw [← hcanceled]
  exact interruption_iff _ _ _

/-! ## Later acts -/

/-- The second contexts are the first ones, some more, and some time later. -/
structure Later (w w' : Contexts) : Prop where
  made : ∀ (i : Nat) (c : Context), w.made[i]? = some c → w'.made[i]? = some c
  canceled : ∀ f ∈ w.families.canceled, f ∈ w'.families.canceled
  steady : w.clock.steady ≤ w'.clock.steady

theorem later_concat (w : Contexts) (families : Families) (c : Context)
    (hf : families.canceled = w.families.canceled) :
    Later w { w with families, made := w.made ++ [c] } where
  made _ _ hc := (List.getElem?_append_left (List.getElem?_eq_some_iff.1 hc).1).trans hc
  canceled _ h := hf ▸ h
  steady := Nat.le_refl _

theorem later_act (h : w.act a = some w') : Later w w' := by
  cases a with
  | start db =>
    obtain rfl := Option.some.inj h
    exact later_concat w _ _ rfl
  | derive source d =>
    obtain ⟨_, -, rfl⟩ := Option.map_eq_some_iff.1 h
    exact later_concat w _ _ rfl
  | cancel j =>
    obtain ⟨_, -, rfl⟩ := Option.map_eq_some_iff.1 h
    exact ⟨fun _ _ hc => hc, fun _ => List.mem_cons_of_mem _, Nat.le_refl _⟩
  | advance ms =>
    obtain rfl := Option.some.inj h
    exact ⟨fun _ _ hc => hc, fun _ hf => hf, Nat.le_add_right _ _⟩

theorem Later.trans {w'' : Contexts} (h : Later w w') (h' : Later w' w'') : Later w w'' where
  made i c hc := h'.made i c (h.made i c hc)
  canceled f hf := h'.canceled f (h.canceled f hf)
  steady := Nat.le_trans h.steady h'.steady

theorem later_run {now : Clock} {later : List Act} (h : run now past = some w)
    (h' : run now (later ++ past) = some w') : Later w w' := by
  induction later generalizing w' with
  | nil =>
    obtain rfl := Option.some.inj (h.symm.trans h')
    exact ⟨fun _ _ hc => hc, fun _ hf => hf, Nat.le_refl _⟩
  | cons a later ih =>
    obtain ⟨v, hv, ha⟩ := run_cons h'
    exact (ih hv).trans (later_act ha)

/-- A check that has failed never succeeds again. -/
theorem Later.check (h : Later w w') (c : Context) (hc : w.check c ≠ none) : w'.check c ≠ none := by
  intro hnone
  refine hc (interruption_eq_none_of_le (fun hin => ?_) h.steady hnone)
  exact decide_eq_true (h.canceled _ (of_decide_eq_true hin))

/-! ## All histories -/

/-- **Cancellation goes with the start, a deadline with the context.** A history can go on with any
act that works on contexts that there are. The check of a context finds a cancellation if any
context with the same start was canceled, before or after the context itself was made. Otherwise it
finds that the deadline is exceeded if the one set last on the way from the start has come, and
otherwise nothing. Whatever comes later, the database and the deadline of the context stay what they
are, and a check that fails goes on failing. -/
theorem check_follows_lineage {now : Clock} {past : List Act} {w : Contexts}
    (h : run now past = some w) :
    (∀ a, w.act a = none ↔ ∃ i, a.operand = some i ∧ count past ≤ i) ∧
    w.made.length = count past ∧ w.clock.steady = now.steady + elapsed past ∧
    ∀ i c, w.made[i]? = some c → ∃ l, lineage now.steady past i = some l ∧
      c.db = l.lastDb ∧ c.deadline = l.lastDeadline ∧
      (w.check c = some .canceled ↔ Canceled now.steady past l.origin) ∧
      (w.check c = some .deadlineExceeded ↔
        ¬ Canceled now.steady past l.origin ∧ l.Late w.clock.steady) ∧
      (w.check c = none ↔ ¬ Canceled now.steady past l.origin ∧ ¬ l.Late w.clock.steady) ∧
      ∀ later w', run now (later ++ past) = some w' →
        w'.made[i]? = some c ∧ (w.check c ≠ none → w'.check c ≠ none) := by
  have hfits := fits_of_run h
  refine ⟨fun a => ?_, hfits.length, hfits.clock, fun i c hc => ?_⟩
  · rw [act_eq_none_iff, hfits.length]
  · obtain ⟨l, hl, rfl⟩ := Option.map_eq_some_iff.1 ((hfits.made i).symm.trans hc)
    obtain ⟨hcanceled, hlate, hnone⟩ := hfits.check_iff l
    refine ⟨l, hl, rfl, rfl, hcanceled, hlate, hnone, fun later w' h' => ?_⟩
    have hlater := later_run h h'
    exact ⟨hlater.made i _ hc, hlater.check _⟩

/-- Two starts: a member of the first family is canceled, which its ancestors and a context made
afterwards share, and the second family has a context whose deadline has come. -/
theorem check_follows_lineage_cousins :
    let past : List Act := [.advance 5, .derive 0 .clone, .cancel 2, .derive 3 (.deadline 4),
      .start 7, .derive 1 (.select 3), .derive 0 (.timeout 5), .start 0]
    let late : Context := ⟨7, 1, some 4⟩
    ∃ w, run ⟨1000, 0⟩ past = some w ∧
      w.made = [⟨0, 0, none⟩, ⟨0, 0, some 5⟩, ⟨3, 0, some 5⟩, ⟨7, 1, none⟩, late, ⟨0, 0, none⟩] ∧
      w.check ⟨0, 0, none⟩ = some .canceled ∧ w.check ⟨7, 1, none⟩ = none ∧
      w.check late = some .deadlineExceeded ∧
      ∀ later w', run ⟨1000, 0⟩ (later ++ past) = some w' →
        w'.made[4]? = some late ∧ w'.check late ≠ none := by
  intro past late
  obtain ⟨w, hw⟩ : ∃ w, run ⟨1000, 0⟩ past = some w := ⟨_, rfl⟩
  have hmade : w.made = [⟨0, 0, none⟩, ⟨0, 0, some 5⟩, ⟨3, 0, some 5⟩, ⟨7, 1, none⟩, late,
      ⟨0, 0, none⟩] := by
    obtain rfl := Option.some.inj hw
    rfl
  obtain ⟨-, -, htime, hall⟩ := check_follows_lineage hw
  have hother : ¬ Canceled 0 past 1 := by
    rintro ⟨i, l, hi, hl, horigin⟩
    obtain rfl : i = 2 := by simpa [past] using hi
    obtain rfl := Option.some.inj hl
    cases horigin
  obtain ⟨l₅, h₅, -, -, hcanceled, -⟩ := hall 5 ⟨0, 0, none⟩ (by rw [hmade]; rfl)
  obtain ⟨l₃, h₃, -, -, -, -, hnone, -⟩ := hall 3 ⟨7, 1, none⟩ (by rw [hmade]; rfl)
  obtain ⟨l₄, h₄, -, -, -, hlate, -, hlater⟩ := hall 4 late (by rw [hmade]; rfl)
  obtain rfl := Option.some.inj h₅
  obtain rfl := Option.some.inj h₃
  obtain rfl := Option.some.inj h₄
  have hexceeded : w.check late = some .deadlineExceeded :=
    hlate.2 ⟨hother, 4, rfl, by rw [htime]; decide⟩
  refine ⟨w, hw, hmade, hcanceled.2 ⟨2, _, by decide, rfl, rfl⟩,
    hnone.2 ⟨hother, fun ⟨d, hd, _⟩ => by cases hd⟩, hexceeded, fun later w' h => ?_⟩
  obtain ⟨hkept, hfails⟩ := hlater later w' h
  exact ⟨hkept, hfails (by rw [hexceeded]; nofun)⟩

end History

end Contexts

end Keyspace
