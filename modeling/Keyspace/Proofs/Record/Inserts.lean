import Keyspace.Proofs.Record.Upsert
import Mathlib.Data.List.Perm.Basic

/-!
# Upserts in any order

`upsert_restores_order` says what an upsert makes of any list of scored members, be it unsorted,
with members twice or with NaNs for scores, and that the order of upserts for distinct members does
not matter.

The elements that one upsert leaves (`perm_upsert`) are told by their places in the list before it
(`perm_replace`, `perm_append`). Distinct members stay distinct (`Distinct.upsert`); so the list
after several upserts consists of the new elements and of those for other members (`perm_upserts`),
which does not depend on the order, and one arrangement of them alone is sorted.
-/

namespace Keyspace.Ranking

variable {l : List ScoredMember} {m : Bytes}

/-! ## One upsert -/

theorem others_append {p q : List ScoredMember} {x : ScoredMember} (hp : ∀ y ∈ p, y.member ≠ m)
    (hx : x.member = m) : others m (p ++ x :: q) = p ++ q := by
  rw [others, List.eraseP_append_right _ (by simpa using hp),
    List.eraseP_cons_of_pos (by simpa using hx)]

/-- The first element for the member gets the new score. -/
theorem perm_replace (score : Score) {p q : List ScoredMember} {x : ScoredMember}
    (hp : ∀ y ∈ p, y.member ≠ m) (hx : x.member = m) :
    (upsert score m (p ++ x :: q)).2.Perm (p ++ ⟨score, m⟩ :: q) := by
  have hperm := perm_upsert score m (l := p ++ x :: q)
  rw [others_append hp hx] at hperm
  exact hperm.trans List.perm_middle.symm

/-- A new member gets an element of its own. -/
theorem perm_append (score : Score) (h : ∀ x ∈ l, x.member ≠ m) :
    (upsert score m l).2.Perm (l ++ [⟨score, m⟩]) := by
  have hperm := perm_upsert score m (l := l)
  rw [others, List.eraseP_of_forall_not (by simpa using h)] at hperm
  exact hperm.trans (List.perm_append_singleton _ _).symm

/-! ## Upserts for distinct members -/

/-- The members of the list are distinct. -/
def Distinct (l : List ScoredMember) : Prop := (l.map (·.member)).Nodup

instance (l : List ScoredMember) : Decidable (Distinct l) :=
  inferInstanceAs (Decidable (l.map (·.member)).Nodup)

/-- The list after upserts that are made one after the other. -/
def upserts (ins l : List ScoredMember) : List ScoredMember :=
  ins.foldl (fun l x => (upsert x.score x.member l).2) l

theorem Distinct.perm {l' : List ScoredMember} (h : Distinct l) (hperm : l.Perm l') : Distinct l' :=
  (hperm.map _).nodup_iff.1 h

theorem distinct_cons {x : ScoredMember} :
    Distinct (x :: l) ↔ (∀ y ∈ l, y.member ≠ x.member) ∧ Distinct l := by
  rw [Distinct, List.map_cons, List.nodup_cons, List.mem_map]
  exact and_congr_left' ⟨fun h y hy hxy => h ⟨y, hy, hxy⟩, fun h ⟨y, hy, hxy⟩ => h y hy hxy⟩

theorem Distinct.upsert (h : Distinct l) (score : Score) (m : Bytes) :
    Distinct (upsert score m l).2 := by
  refine Distinct.perm (distinct_cons.2 ⟨fun y hy => ?_, ?_⟩) (perm_upsert score m).symm
  · rw [others_eq_filter m h] at hy
    simpa using (List.mem_filter.1 hy).2
  · exact List.Nodup.sublist (List.eraseP_sublist.map _) h

/-- Upserts for distinct members leave their elements and those for all other members. -/
theorem perm_upserts {ins : List ScoredMember} (hins : Distinct ins) (h : Distinct l) :
    (upserts ins l).Perm (ins ++ l.filter fun y => ∀ x ∈ ins, y.member ≠ x.member) := by
  induction ins generalizing l with
  | nil => simp [upserts]
  | cons x ins ih =>
    obtain ⟨hx, hins'⟩ := distinct_cons.1 hins
    have hx' : ∀ y ∈ ins, x.member ≠ y.member := fun y hy => (hx y hy).symm
    have hrest : (others x.member l).filter (fun y => ∀ z ∈ ins, y.member ≠ z.member) =
        l.filter fun y => ∀ z ∈ x :: ins, y.member ≠ z.member := by
      rw [others_eq_filter _ h, List.filter_filter]
      refine List.filter_congr fun y _ => ?_
      simp [Bool.and_comm]
    have hstep := (perm_upsert x.score x.member (l := l)).filter
      fun y => ∀ z ∈ ins, y.member ≠ z.member
    rw [List.filter_cons_of_pos (by simpa using hx'), hrest] at hstep
    exact (ih hins' (h.upsert _ _)).trans ((hstep.append_left ins).trans List.perm_middle)

theorem sorted_upserts (ins : List ScoredMember) (h : Sorted l) : Sorted (upserts ins l) := by
  induction ins generalizing l with
  | nil => exact h
  | cons x ins ih => exact ih (sorted_upsert x.score x.member)

/-- The order of upserts for distinct members does not matter. -/
theorem upserts_eq_of_perm {ins ins' : List ScoredMember} (h : Distinct l) (hins : Distinct ins)
    (hperm : ins.Perm ins') : upserts ins l = upserts ins' l := by
  cases ins with
  | nil =>
    obtain rfl := hperm.nil_eq
    rfl
  | cons x ins =>
    cases ins' with
    | nil => exact absurd hperm.eq_nil (List.cons_ne_nil x ins)
    | cons x' ins' =>
      -- the first upsert has sorted the list
      have hsorted : Sorted (upserts (x :: ins) l) := sorted_upserts ins (sorted_upsert _ _)
      have hsorted' : Sorted (upserts (x' :: ins') l) := sorted_upserts ins' (sorted_upsert _ _)
      have hfilter : (l.filter fun y => ∀ z ∈ x :: ins, y.member ≠ z.member) =
          l.filter fun y => ∀ z ∈ x' :: ins', y.member ≠ z.member := by
        simp only [hperm.mem_iff]
      have hleft := perm_upserts hins h
      have hright := perm_upserts (hins.perm hperm) h
      rw [hfilter] at hleft
      exact hsorted.eq_of_perm hsorted'
        (hleft.trans ((hperm.append_right _).trans hright.symm))

/-- **An upsert keeps any list in order.** The list may be unsorted, and have members twice and NaNs
for scores. The member is new if no element has it. The list is sorted afterwards, and its elements
are those of before, with the new score in the first one for the member, or with one more for a new
member. For a list with distinct members, upserts for distinct members lead to the same list in
whatever order they are made. -/
theorem upsert_restores_order :
    (∀ (score : Score) (m : Bytes) (l : List ScoredMember),
      ((upsert score m l).1 = true ↔ ∀ x ∈ l, x.member ≠ m) ∧
      Sorted (upsert score m l).2 ∧
      (∀ p x q, l = p ++ x :: q → (∀ y ∈ p, y.member ≠ m) → x.member = m →
        (upsert score m l).2.Perm (p ++ ⟨score, m⟩ :: q)) ∧
      ((∀ x ∈ l, x.member ≠ m) → (upsert score m l).2.Perm (l ++ [⟨score, m⟩]))) ∧
    ∀ l ins ins' : List ScoredMember, Distinct l → Distinct ins → ins.Perm ins' →
      upserts ins l = upserts ins' l := by
  refine ⟨fun score m l => ⟨upsert_fst_iff score m, sorted_upsert score m, ?_, perm_append score⟩,
    fun l ins ins' => upserts_eq_of_perm⟩
  rintro p x q rfl hp hx
  exact perm_replace score hp hx

/-- An unsorted list with a member twice and a NaN, where the first score of the one member is
replaced and another member is new; and a list in which one member changes its place and two are
new, in two orders. -/
theorem upsert_restores_order_twice :
    let zero : Score := ⟨0⟩
    let one : Score := ⟨0x3ff0000000000000⟩
    let nan : Score := ⟨0x7ff8000000000000⟩
    let l : List ScoredMember := [⟨one, [98]⟩, ⟨nan, [97]⟩, ⟨zero, [98]⟩]
    let ins : List ScoredMember := [⟨nan, [98]⟩, ⟨zero, [99]⟩, ⟨one, [97]⟩]
    (upsert nan [98] l).2.Perm [⟨nan, [98]⟩, ⟨nan, [97]⟩, ⟨zero, [98]⟩] ∧
      (upsert one [99] l).2.Perm (l ++ [⟨one, [99]⟩]) ∧
      upserts ins [⟨one, [98]⟩] = upserts ins.reverse [⟨one, [98]⟩] ∧
      upserts ins [⟨one, [98]⟩] = [⟨zero, [99]⟩, ⟨one, [97]⟩, ⟨nan, [98]⟩] := by
  intro zero one nan l ins
  obtain ⟨hupsert, hcomm⟩ := upsert_restores_order
  obtain ⟨-, -, hreplace, -⟩ := hupsert nan [98] l
  obtain ⟨-, -, -, happend⟩ := hupsert one [99] l
  exact ⟨hreplace [] _ _ rfl (List.forall_mem_nil _) rfl, happend (by decide),
    hcomm _ _ _ (by decide) (by decide) ins.reverse_perm.symm, by decide⟩

end Keyspace.Ranking
