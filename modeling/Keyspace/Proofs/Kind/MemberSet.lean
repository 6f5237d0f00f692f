import Keyspace.Proofs.Kind.Sequence
import Mathlib.Data.Finset.Card
import Mathlib.Data.List.Perm.Basic

/-!
# Sets as finite sets

A set is stored as a sequence without repetitions, in an order that means nothing: a new member goes
to the end, and the last member takes the place of one that is taken out (`perm_without?`).
`MemberSet.act` says what the changes answer and make of the finite set of the members; they do the
same to any value that lists it (`MemberSet.kind`). Along runs sets are therefore finite sets
(`set_behaves_as_finset`).
-/

namespace Keyspace.MemberSet

open Layout

variable {l : List Bytes} {value : Option Bytes} {key m : Bytes} {F : Finset Bytes}

/-! ## Members taken out -/

theorem without?_eq_none_iff : without? m l = none ↔ m ∉ l := by
  rw [without?, Option.map_eq_none_iff, List.idxOf?_eq_none_iff]

/-- Up to their order the other members are left. -/
theorem perm_without? {l' : List Bytes} (h : without? m l = some l') : l'.Perm (l.erase m) := by
  obtain ⟨i, hi, rfl⟩ := Option.map_eq_some_iff.1 h
  have hlt : i < l.length := (List.idxOf?_eq_some_iff.1 hi).1
  have herase : l.erase m = l.eraseIdx i := by
    rw [List.erase_eq_eraseIdx, hi]
  have hne : l.set i (l.getLastD m) ≠ [] := by
    rw [Ne, List.set_eq_nil_iff]
    exact List.ne_nil_of_length_pos (Nat.zero_lt_of_lt hlt)
  -- the last member stays the last one when it is also put in the place of `m`
  have hlast : (l.set i (l.getLastD m)).getLast hne = l.getLastD m := by
    rw [List.getLast_eq_getElem, List.getElem_set]
    split
    · rfl
    · have hpos : l.length - 1 < l.length := by omega
      simp [List.getLast?_eq_getElem?, hpos]
  have hsplit := List.dropLast_concat_getLast hne
  rw [hlast] at hsplit
  rw [herase]
  refine List.Perm.cons_inv ((List.perm_append_singleton (l.getLastD m) _).symm.trans ?_)
  rw [hsplit]
  exact List.set_perm_cons_eraseIdx hlt _

/-! ## Changes -/

/-- The changes of a set. -/
inductive IsChange : Change → Prop
  | sadd (m : Bytes) : IsChange (.sadd m)
  | srem (m : Bytes) : IsChange (.srem m)

/-- What a change answers and makes of a finite set. -/
def act (F : Finset Bytes) : Change → Except Error (Reply × Finset Bytes)
  | .sadd m =>
    if m ∈ F then return (.flag false, F)
    else do
      checkMember m
      return (.flag true, insert m F)
  | .srem m => return (.flag (m ∈ F), F.erase m)
  | _ => throw .wrongType

/-- The value lists the finite set. -/
def Holds (F : Finset Bytes) (value : Option Bytes) : Prop :=
  ∃ l, Value.Holds Members.decodeDistinct l value ∧ l.toFinset = F

theorem card_eq_length (h : Value.Holds Members.decodeDistinct l value) :
    l.toFinset.card = l.length :=
  List.toFinset_card_of_nodup (Members.holds_distinct_iff.1 h).2

/-- What comes of a change of a sequence is one of the set, if the sequence then lists the set. -/
theorem agree_of_sequence {l' : List Bytes} {x : Except Error (Reply × Write)}
    {y : Except Error Unit} {r : Reply}
    (h : Agree (Follows Sequence.Holds value) x (y.bind fun _ => .ok (r, l'))) (hnodup : l'.Nodup)
    (hF : l'.toFinset = F) : Agree (Follows Holds value) x (y.bind fun _ => .ok (r, F)) := by
  cases y with
  | error e =>
    cases h
    exact .error e
  | ok =>
    cases h with
    | ok h => exact .ok ⟨h.1, l', Members.holds_distinct_iff.2 ⟨h.2, hnodup⟩, hF⟩

theorem agree_add (h : Value.Holds Members.decodeDistinct l value)
    (hsize : l.length ≤ Position.longest) :
    Agree (Follows Holds value) (Reply.via .flag (add m key value)) (act l.toFinset (.sadd m)) := by
  obtain ⟨hl, hnodup⟩ := Members.holds_distinct_iff.1 h
  have hadd : Agree (Follows Sequence.Holds value) (Reply.via .flag (add m key value))
      (Sequence.act l (.sadd m)) := Sequence.agree_add hl hsize m
  rw [Sequence.act, if_pos hnodup] at hadd
  rw [act]
  by_cases hm : m ∈ l
  · rw [if_pos (List.contains_iff_mem.2 hm)] at hadd
    rw [if_pos (List.mem_toFinset.2 hm)]
    exact agree_of_sequence (y := .ok ()) hadd hnodup rfl
  · rw [if_neg (fun h => hm (List.contains_iff_mem.1 h))] at hadd
    rw [if_neg (fun h => hm (List.mem_toFinset.1 h))]
    refine agree_of_sequence hadd ?_ ?_
    · exact (List.perm_append_singleton m l).nodup_iff.2 (List.nodup_cons.2 ⟨hm, hnodup⟩)
    · ext x
      simp

theorem agree_remove (h : Value.Holds Members.decodeDistinct l value)
    (hsize : l.length ≤ Position.longest) :
    Agree (Follows Holds value) (Reply.via .flag (remove m key value))
      (act l.toFinset (.srem m)) := by
  obtain ⟨hl, hnodup⟩ := Members.holds_distinct_iff.1 h
  rw [act]
  cases hw : without? m l with
  | none =>
    have hm := without?_eq_none_iff.1 hw
    have hremove : Reply.via .flag (remove m key value) = .ok (.flag false, .keep) := by
      simp only [remove, read, h.read, bind, Except.bind, h.getD, hw]
      rfl
    rw [hremove]
    refine .ok ⟨by simp [hm], l, h, ?_⟩
    rw [Finset.erase_eq_of_notMem (by simpa using hm)]
  | some l' =>
    have hm : m ∈ l := by
      by_contra hm
      rw [without?_eq_none_iff.2 hm] at hw
      cases hw
    have hperm := perm_without? hw
    have hremove : Reply.via .flag (remove m key value) =
        (Sequence.store l').bind fun w => .ok (.flag true, w) := by
      simp only [remove, read, h.read, bind, Except.bind, h.getD, hw]
      cases l' with
      | nil => rfl
      | cons x l' =>
        simp only [Sequence.store, List.isEmpty_cons, Bool.false_eq_true, if_false]
        cases Value.put (Members.encode (x :: l')) <;> rfl
    have hl' : l'.Nodup := hperm.nodup_iff.2 (hnodup.erase m)
    have hstore : Agree (Follows Sequence.Holds value)
        ((Sequence.store l').bind fun w => .ok (.flag true, w)) (.ok (.flag true, l')) := by
      refine Sequence.agree_store (fun x hx => ?_) ?_ _
      · exact Members.short_of_holds hl (List.mem_of_mem_erase (hperm.mem_iff.1 hx))
      · have hlt := succ_lt_of_le_longest hsize
        have hle := hperm.length_eq.trans_le List.length_erase_le
        omega
    have hF : l'.toFinset = l.toFinset.erase m := by
      ext x
      simp [hperm.mem_iff, hnodup.mem_erase_iff]
    rw [hremove, decide_eq_true (List.mem_toFinset.2 hm)]
    exact agree_of_sequence (y := .ok ()) hstore hl' hF

/-- A change adds one member at most. -/
theorem card_act_le {ch : Change} {r : Reply} {F' : Finset Bytes} (h : act F ch = .ok (r, F')) :
    F'.card ≤ F.card + 1 := by
  cases ch with
  | sadd m =>
    rw [act] at h
    split at h
    · cases h
      omega
    · obtain ⟨-, -, h⟩ := bind_eq_ok_iff.1 h
      cases h
      exact Finset.card_insert_le m F
  | srem m =>
    cases h
    exact Nat.le_succ_of_le Finset.card_erase_le
  | _ => cases h

/-- Finite sets as values. -/
def kind : Kind (Finset Bytes) where
  Changes := IsChange
  act := act
  size := Finset.card
  Holds := Holds
  grows := card_act_le
  refuses hch hshort := by cases hch <;> cases hshort
  agree key h hsize hch _ := by
    obtain ⟨l, hl, rfl⟩ := h
    rw [card_eq_length hl] at hsize
    cases hch with
    | sadd m => exact agree_add hl hsize
    | srem m => exact agree_remove hl hsize

/-! ## Queries -/

theorem answer_smembers (h : Value.Holds Members.decodeDistinct l value) :
    Query.answer key value .smembers = .ok (.members l) := by
  simp only [Query.answer, members, read, h.read, bind, Except.bind, h.getD]
  rfl

theorem answer_sismember (h : Value.Holds Members.decodeDistinct l value) :
    Query.answer key value (.sismember m) = .ok (.flag (m ∈ l)) := by
  simp only [Query.answer, contains, read, h.read, bind, Except.bind, h.getD]
  rfl

theorem answer_scard (h : Value.Holds Members.decodeDistinct l value) :
    Query.answer key value .scard = .ok (.count l.length) := by
  simp only [Query.answer, card, read, h.read, bind, Except.bind, h.getD]
  rfl

/-! ## Runs -/

/-- **A set is a finite set of byte strings.** A key without a deadline holds a set, of any members
or of none. Whatever is asked of the store, as long as only changes of sets are made to the key and
the set never has more members than there are positions, the value of the key is a record of a
set, which lists the finite set that the changes have made, and there is none just if that is
empty. Every change that is made next answers as it does for this finite set, and so do the queries
for one member and for their number; the query for all of them lists each member once. -/
theorem set_behaves_as_finset {s : Store} {db : DbId} {key : Bytes} {value : Option Bytes}
    {l : List Bytes} {reqs : List (Call × Command)}
    (hslot : s.storage.slot db key = ⟨value, none⟩)
    (hvalue : Value.Holds Members.decodeDistinct l value)
    (htame : ∀ q ∈ reqs, Store.Tame db key q.1 q.2)
    (hchanges : ∀ ch ∈ s.history db key reqs, IsChange ch)
    (hsize : ∀ h, h <+: s.history db key reqs →
      (kind.after l.toFinset h).card ≤ Position.longest) :
    let t := s.serve reqs
    let F := kind.after l.toFinset (s.history db key reqs)
    ∃ value' l', t.storage.slot db key = ⟨value', none⟩ ∧
      Value.Holds Members.decodeDistinct l' value' ∧ (value'.isSome = true ↔ F.Nonempty) ∧
      l'.Nodup ∧ (∀ m, m ∈ l' ↔ m ∈ F) ∧
      ∀ c, s.Admits c db key →
        (∀ ch, IsChange ch → t.answer c key (.change ch) = (act F ch).map (·.1)) ∧
        (∀ m, t.answer c key (.query (.sismember m)) = .ok (.flag (m ∈ F))) ∧
        t.answer c key (.query .scard) = .ok (.count F.card) ∧
        t.answer c key (.query .smembers) = .ok (.members l') := by
  intro t F
  have hkeeps : kind.Keeps s db key 0 value l.toFinset reqs :=
    .of_slot hslot ⟨l, hvalue, rfl⟩ htame hchanges hsize
  obtain ⟨value', ⟨l', hvalue', hF⟩, hslot', hquery⟩ := hkeeps.persistent hslot
  replace hF : l'.toFinset = F := hF
  have hmem : ∀ m, m ∈ l' ↔ m ∈ F := fun m => by rw [← hF, List.mem_toFinset]
  refine ⟨value', l', hslot', hvalue', ?_, (Members.holds_distinct_iff.1 hvalue').2, hmem,
    fun c hc => ⟨fun ch hch => ?_, fun m => ?_, ?_, ?_⟩⟩
  · rw [hvalue'.isSome_iff, ← hF, List.toFinset_nonempty_iff]
  · exact hkeeps.answer_change hc (Nat.zero_le _) hch
  · rw [hquery c hc (.sismember m) rfl nofun, answer_sismember hvalue']
    simp only [hmem]
  · rw [hquery c hc .scard rfl nofun, answer_scard hvalue', ← hF, card_eq_length hvalue']
  · exact (hquery c hc .smembers rfl nofun).trans (answer_smembers hvalue')

/-- Of a set with two members the first is taken out, so that the second changes its place. Then a
new member is added, and the old one once more. -/
theorem set_behaves_as_finset_moved :
    let key : Bytes := [107]
    let value : Option Bytes := some [0, 0, 0, 0, 0, 0, 0, 2, 0, 0, 0, 1, 97, 0, 0, 0, 1, 98]
    let s : Store := .fresh {} (Storage.empty.setSlot 0 key ⟨value, none⟩)
    let c : Call := .alone 0 ⟨1000, 0⟩ .none
    let reqs : List (Call × Command) := [
      (c, .onKey key (.change (.srem [97]))),
      (c, .onKey key (.query (.sismember [97]))),
      (c, .onKey key (.change (.sadd [99]))),
      (c, .dbSize),
      (c, .onKey key (.change (.sadd [98])))]
    Value.Holds Members.decodeDistinct [[97], [98]] value ∧
      s.history 0 key reqs = [.srem [97], .sadd [99], .sadd [98]] ∧
      (s.serve reqs).answer c key (.query (.sismember [97])) = .ok (.flag false) ∧
      (s.serve reqs).answer c key (.query .scard) = .ok (.count 2) ∧
      (s.serve reqs).answer c key (.change (.sadd [97])) = .ok (.flag true) ∧
      (s.serve reqs).answer c key (.change (.srem [98])) = .ok (.flag true) := by
  intro key value s c reqs
  have hvalue : Value.Holds Members.decodeDistinct [[97], [98]] value :=
    Members.holds_distinct_iff.2
      ⟨⟨List.cons_ne_nil _ _, (Members.decode_eq_ok_iff (by decide)).2 (by rfl)⟩, by decide⟩
  have hhistory : s.history 0 key reqs = [.srem [97], .sadd [99], .sadd [98]] := by rfl
  have hslot : s.storage.slot 0 key = ⟨value, none⟩ := by rfl
  have htame : ∀ q ∈ reqs, Store.Tame 0 key q.1 q.2 := by
    simp only [reqs, List.forall_mem_cons]
    exact ⟨.change _ rfl, .read _ trivial, .change _ rfl, .size, .change _ rfl,
      List.forall_mem_nil _⟩
  have hchanges : ∀ ch ∈ s.history 0 key reqs, IsChange ch := by
    rw [hhistory]
    simp only [List.forall_mem_cons]
    exact ⟨.srem _, .sadd _, .sadd _, List.forall_mem_nil _⟩
  have hlen : kind.size [[97], [98]].toFinset + (s.history 0 key reqs).length ≤
      Position.longest := by
    rw [hhistory]
    show 2 + 3 ≤ 2 ^ 63 - 1
    omega
  obtain ⟨_, _, -, -, -, -, -, h⟩ :=
    set_behaves_as_finset hslot hvalue htame hchanges (kind.size_of_length hlen)
  rw [hhistory] at h
  have hadmits : s.Admits c 0 key := ⟨rfl, rfl, by rfl, rfl⟩
  obtain ⟨hchange, hcontains, hcard, -⟩ := h c hadmits
  exact ⟨hvalue, hhistory, hcontains [97], hcard, hchange _ (.sadd [97]), hchange _ (.srem [98])⟩

end Keyspace.MemberSet
