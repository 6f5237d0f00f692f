import Keyspace.Record.Ranking
import Mathlib.Data.List.Chain

/-!
# What giving a member a score makes of a ranking

`Ranking.Sorted` says that no element of a list stands before one to its left, and allows the same
element twice. Among the arrangements of a list one alone is sorted (`Sorted.eq_of_perm`), and
`sort` finds it (`perm_sort`, `sorted_sort`). So `upsert` is known by the elements that it leaves
(`perm_upsert`): the new score for the member, and all of the list but the first element for this
member. What follows for the other members, and for the order, is `find?_upsert_of_ne`,
`find?_upsert_self_iff` and `isChain_upsert_iff`.
-/

namespace Keyspace

instance : @Trans ScoredMember ScoredMember ScoredMember (· < ·) (· < ·) (· < ·) :=
  ⟨ScoredMember.lt_trans⟩

theorem ScoredMember.not_lt_of_lt {x y : ScoredMember} (h : x < y) : ¬ y < x := fun h' =>
  lt_irrefl x (lt_trans h h')

theorem ScoredMember.eq_of_not_lt {x y : ScoredMember} (h : ¬ y < x) (h' : ¬ x < y) : x = y :=
  ((lt_trichotomy x y).resolve_left h').resolve_right h

namespace Ranking

open ScoredMember

/-! ## Sorted lists -/

/-- No element stands before one to its left. -/
def Sorted (l : List ScoredMember) : Prop := l.Pairwise fun x y => ¬ y < x

/-- A list is strictly increasing if it is sorted and has no element twice. -/
theorem isChain_iff {l : List ScoredMember} : l.IsChain (· < ·) ↔ Sorted l ∧ l.Nodup := by
  rw [List.isChain_iff_pairwise, Sorted, List.nodup_iff_pairwise_ne, ← List.pairwise_and_iff]
  constructor
  · refine List.Pairwise.imp fun h => ⟨not_lt_of_lt h, ?_⟩
    rintro rfl
    exact lt_irrefl _ h
  · exact List.Pairwise.imp fun h => ((lt_trichotomy _ _).resolve_right fun h' =>
      h'.elim h.2 h.1)

/-- Of all arrangements of a list one is sorted. -/
theorem Sorted.eq_of_perm {l l' : List ScoredMember} (h : Sorted l) (h' : Sorted l')
    (hperm : l.Perm l') : l = l' :=
  hperm.eq_of_pairwise (fun _ _ _ _ => eq_of_not_lt) h h'

/-- Looking from the left finds the element that stands before the other ones looked for. -/
theorem Sorted.find?_eq_some_iff {l : List ScoredMember} (h : Sorted l) {p : ScoredMember → Bool}
    {x : ScoredMember} :
    l.find? p = some x ↔ x ∈ l ∧ p x = true ∧ ∀ y ∈ l, p y = true → ¬ y < x := by
  induction l with
  | nil => simp
  | cons z l ih =>
    obtain ⟨hz, hl⟩ := List.pairwise_cons.1 h
    cases hpz : p z with
    | false =>
      rw [List.find?_cons_of_neg (by simp [hpz]), ih hl, List.mem_cons, List.forall_mem_cons]
      constructor
      · rintro ⟨hx, hpx, hmin⟩
        exact ⟨.inr hx, hpx, by simp [hpz], hmin⟩
      · rintro ⟨rfl | hx, hpx, -, hmin⟩
        · rw [hpz] at hpx
          cases hpx
        · exact ⟨hx, hpx, hmin⟩
    | true =>
      rw [List.find?_cons_of_pos hpz, Option.some.injEq]
      constructor
      · rintro rfl
        exact ⟨List.mem_cons_self, hpz, List.forall_mem_cons.2
          ⟨fun _ => lt_irrefl z, fun y hy _ => hz y hy⟩⟩
      · rintro ⟨hx, -, hmin⟩
        rcases List.mem_cons.1 hx with rfl | hx
        · rfl
        · exact eq_of_not_lt (hz x hx) (hmin z List.mem_cons_self hpz)

theorem perm_place (x : ScoredMember) (l : List ScoredMember) : (place x l).Perm (x :: l) := by
  induction l with
  | nil => exact .refl _
  | cons y l ih =>
    rw [place]
    split
    · exact (ih.cons y).trans (.swap x y l)
    · exact .refl _

theorem sorted_place (x : ScoredMember) {l : List ScoredMember} (h : Sorted l) :
    Sorted (place x l) := by
  induction l with
  | nil => exact List.pairwise_singleton _ _
  | cons y l ih =>
    obtain ⟨hy, hl⟩ := List.pairwise_cons.1 h
    rw [place]
    split
    · rename_i hyx
      refine List.pairwise_cons.2 ⟨fun z hz => ?_, ih hl⟩
      rcases List.mem_cons.1 ((perm_place x l).mem_iff.1 hz) with rfl | hzl
      · exact not_lt_of_lt hyx
      · exact hy z hzl
    · rename_i hyx
      refine List.pairwise_cons.2 ⟨fun z hz hzx => ?_, h⟩
      rcases List.mem_cons.1 hz with rfl | hzl
      · exact hyx hzx
      · -- `x` is at most `y`, which is at most `z`
        rcases lt_trichotomy x y with hxy | rfl | hxy
        · exact hy z hzl (lt_trans hzx hxy)
        · exact hy z hzl hzx
        · exact hyx hxy

theorem perm_sort (l : List ScoredMember) : (sort l).Perm l := by
  induction l with
  | nil => exact .refl _
  | cons x l ih => exact (perm_place x _).trans (ih.cons x)

theorem sorted_sort (l : List ScoredMember) : Sorted (sort l) := by
  induction l with
  | nil => exact .nil
  | cons x l ih => exact sorted_place x ih

/-! ## The elements after an upsert -/

section Upsert

variable (score : Score) (m : Bytes) {l : List ScoredMember}

/-- All elements but the first for the member. -/
abbrev others (m : Bytes) (l : List ScoredMember) : List ScoredMember := l.eraseP (·.member = m)

theorem rescore_eq_none_iff : rescore score m l = none ↔ ∀ x ∈ l, x.member ≠ m := by
  induction l with
  | nil => simp [rescore]
  | cons x l ih =>
    rw [rescore]
    split <;> simp_all

theorem perm_of_rescore {l' : List ScoredMember} (h : rescore score m l = some l') :
    l'.Perm (⟨score, m⟩ :: others m l) := by
  induction l generalizing l' with
  | nil => cases h
  | cons x l ih =>
    rw [rescore] at h
    split at h
    · rename_i hx
      obtain rfl := Option.some.inj h
      rw [others, List.eraseP_cons_of_pos (by simpa using hx)]
    · rename_i hx
      obtain ⟨l', hl', rfl⟩ := Option.map_eq_some_iff.1 h
      rw [others, List.eraseP_cons_of_neg (by simpa using hx)]
      exact ((ih hl').cons x).trans (.swap _ _ _)

/-- A member is new if the list has no element for it. -/
theorem upsert_fst_iff : (upsert score m l).1 = true ↔ ∀ x ∈ l, x.member ≠ m := by
  rw [← rescore_eq_none_iff score m, upsert]
  split <;> simp_all

/-- An upsert leaves the new score and all but the first element for the member. -/
theorem perm_upsert : (upsert score m l).2.Perm (⟨score, m⟩ :: others m l) := by
  rw [upsert]
  split
  · rename_i h
    exact (perm_sort _).trans (perm_of_rescore score m h)
  · rename_i h
    have hnew := (rescore_eq_none_iff score m).1 h
    rw [others, List.eraseP_of_forall_not (by simpa using hnew)]
    exact (perm_sort _).trans (List.perm_append_singleton _ _)

theorem sorted_upsert : Sorted (upsert score m l).2 := by
  rw [upsert]
  split <;> exact sorted_sort _

theorem length_of_rescore {l' : List ScoredMember} (h : rescore score m l = some l') :
    l'.length = l.length := by
  induction l generalizing l' with
  | nil => cases h
  | cons x l ih =>
    rw [rescore] at h
    split at h
    · obtain rfl := Option.some.inj h
      rfl
    · obtain ⟨l', hl', rfl⟩ := Option.map_eq_some_iff.1 h
      exact congrArg (· + 1) (ih hl')

theorem length_upsert :
    (upsert score m l).2.length = if (upsert score m l).1 then l.length + 1 else l.length := by
  rw [upsert]
  split
  · rename_i h
    exact (perm_sort _).length_eq.trans (length_of_rescore score m h)
  · exact (perm_sort _).length_eq.trans List.length_append

theorem filter_others_of_ne {m m' : Bytes} (hne : m' ≠ m) :
    (others m l).filter (·.member = m') = l.filter (·.member = m') := by
  induction l with
  | nil => rfl
  | cons x l ih =>
    by_cases hx : x.member = m
    · have hx' : x.member ≠ m' := fun h => hne (h.symm.trans hx)
      rw [others, List.eraseP_cons_of_pos (by simpa using hx),
        List.filter_cons_of_neg (by simpa using hx')]
    · rw [others, List.eraseP_cons_of_neg (by simpa using hx), List.filter_cons,
        List.filter_cons, ih]

/-- The elements for other members are the same after an upsert. -/
theorem filter_upsert_of_ne {m' : Bytes} (hl : Sorted l) (hne : m' ≠ m) :
    (upsert score m l).2.filter (·.member = m') = l.filter (·.member = m') := by
  refine Sorted.eq_of_perm ((sorted_upsert score m).filter _) (hl.filter _) ?_
  have hperm := (perm_upsert score m (l := l)).filter (·.member = m')
  rw [List.filter_cons_of_neg (by simpa using hne.symm), filter_others_of_ne hne] at hperm
  exact hperm

theorem find?_upsert_of_ne {m' : Bytes} (hl : Sorted l) (hne : m' ≠ m) :
    (upsert score m l).2.find? (·.member = m') = l.find? (·.member = m') := by
  rw [← List.head?_filter, ← List.head?_filter, filter_upsert_of_ne score m hl hne]

/-! ## Lists with a member twice -/

/-- After an upsert the list is increasing, unless it already had the new score for the member in
another place. -/
theorem isChain_upsert_iff (hl : l.IsChain (· < ·)) :
    (upsert score m l).2.IsChain (· < ·) ↔ ⟨score, m⟩ ∉ others m l := by
  have hnodup : (others m l).Nodup := (isChain_iff.1 hl).2.sublist List.eraseP_sublist
  rw [isChain_iff, (perm_upsert score m).nodup_iff, List.nodup_cons]
  exact ⟨fun h => h.2.1, fun h => ⟨sorted_upsert score m, h, hnodup⟩⟩

/-- The member has the new score after an upsert, unless it has a lower one as well. -/
theorem find?_upsert_self_iff :
    (upsert score m l).2.find? (·.member = m) = some ⟨score, m⟩ ↔
      ∀ x ∈ others m l, x.member = m → ¬ x < ⟨score, m⟩ := by
  rw [(sorted_upsert score m).find?_eq_some_iff]
  simp only [(perm_upsert score m).mem_iff, decide_eq_true_eq]
  constructor
  · exact fun h x hx => h.2.2 x (List.mem_cons_of_mem _ hx)
  · exact fun h => ⟨List.mem_cons_self, trivial, List.forall_mem_cons.2 ⟨fun _ => lt_irrefl _, h⟩⟩

/-- The new score comes before all other scores of the member. -/
def Precedes (l : List ScoredMember) : Prop :=
  ∀ x ∈ others m l, x.member = m → (⟨score, m⟩ : ScoredMember) < x

instance : Decidable (Precedes score m l) :=
  inferInstanceAs (Decidable (∀ x ∈ others m l, x.member = m → (⟨score, m⟩ : ScoredMember) < x))

theorem precedes_iff :
    Precedes score m l ↔ ⟨score, m⟩ ∉ others m l ∧
      ∀ x ∈ others m l, x.member = m → ¬ x < ⟨score, m⟩ := by
  constructor
  · intro h
    exact ⟨fun hmem => lt_irrefl _ (h _ hmem rfl), fun x hx hm => not_lt_of_lt (h x hx hm)⟩
  · rintro ⟨hnot, hmin⟩ x hx hm
    rcases lt_trichotomy ⟨score, m⟩ x with h | rfl | h
    · exact h
    · exact absurd hx hnot
    · exact absurd h (hmin x hx hm)

/-- If members are distinct, the other elements are those for other members. -/
theorem others_eq_filter (h : (l.map (·.member)).Nodup) :
    others m l = l.filter (·.member ≠ m) := by
  induction l with
  | nil => rfl
  | cons x l ih =>
    obtain ⟨hx, hl⟩ := List.nodup_cons.1 h
    by_cases hxm : x.member = m
    · have hall : ∀ y ∈ l, decide (y.member ≠ m) = true := fun y hy =>
        decide_eq_true fun hym => hx (List.mem_map.2 ⟨y, hy, hym.trans hxm.symm⟩)
      rw [others, List.eraseP_cons_of_pos (by simpa using hxm),
        List.filter_cons_of_neg (by simpa using hxm), List.filter_eq_self.2 hall]
    · rw [others, List.eraseP_cons_of_neg (by simpa using hxm),
        List.filter_cons_of_pos (by simpa using hxm)]
      exact congrArg (x :: ·) (ih hl)

/-- In a list with distinct members there is no other score. -/
theorem precedes_of_nodup (h : (l.map (·.member)).Nodup) : Precedes score m l := by
  intro x hx hxm
  rw [others_eq_filter m h] at hx
  exact absurd hxm (by simpa using (List.mem_filter.1 hx).2)

end Upsert

end Ranking

end Keyspace
