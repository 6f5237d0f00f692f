import Keyspace.Proofs.Kind
import Keyspace.Proofs.Position
import Keyspace.Proofs.Record.Stored
import Keyspace.Store.Opening

/-!
# Lists as sequences

`Sequence.act` says what each change of a list answers and makes of a sequence of byte strings.
Where a value holds the sequence, the change does the same to the value (`Sequence.kind`), for it
writes at most one member that may be too long (`agree_put`). Along runs a list is therefore a
double-ended sequence (`list_behaves_as_sequence`).
-/

namespace Keyspace

open Layout

namespace Sequence

variable {l : List Bytes} {value : Option Bytes} {key : Bytes}

/-- The changes of a list, and that of a set which is one of a list without repetitions too. -/
inductive IsChange : Change → Prop
  | lpush (v : Bytes) : IsChange (.lpush v)
  | rpush (v : Bytes) : IsChange (.rpush v)
  | lpop : IsChange .lpop
  | rpop : IsChange .rpop
  | lset (i : Int) (v : Bytes) : IsChange (.lset i v)
  | sadd (m : Bytes) : IsChange (.sadd m)

/-- What a change answers and makes of a sequence. -/
def act (l : List Bytes) : Change → Except Error (Reply × List Bytes)
  | .lpush v => do
    checkMember v
    return (.count (l.length + 1), v :: l)
  | .rpush v => do
    checkMember v
    return (.count (l.length + 1), l ++ [v])
  | .lpop => return (.bytes? l.head?, l.tail)
  | .rpop => return (.bytes? l.getLast?, l.dropLast)
  | .lset i v =>
    if l = [] then throw .keyNotFound
    else match Position.index? l.length i with
      | none => throw .indexOutOfRange
      | some k => do
        checkMember v
        return (.done, l.set k v)
  | .sadd m =>
    if l.Nodup then
      if l.contains m then return (.flag false, l)
      else do
        checkMember m
        return (.flag true, l ++ [m])
    else throw .wrongType
  | _ => throw .wrongType

/-- The value is the record of the sequence. -/
abbrev Holds : List Bytes → Option Bytes → Prop := Value.Holds Members.decode

/-- To store a sequence with `v` in it, whose other members are stored already. -/
theorem agree_put {v : Bytes} {l' : List Bytes} (hv : v ∈ l')
    (hother : ∀ m ∈ l', m = v ∨ m.length ≤ maxMember) (hlen : l'.length < 256 ^ countWidth)
    (r : Reply) :
    Agree (Follows Holds value) ((Value.put (Members.encode l')).bind fun w => .ok (r, w))
      (do checkMember v; return (r, l')) := by
  refine (Members.agree_put hv hother hlen).bind fun w _ hw => ?_
  obtain ⟨b, rfl, hd⟩ := hw
  exact .ok ⟨rfl, List.ne_nil_of_mem hv, hd⟩

theorem agree_push (h : Holds l value) (hsize : l.length ≤ Position.longest)
    (e : End) (v : Bytes) :
    Agree (Follows Holds value) (Reply.via .count (push e v key value))
      (do checkMember v; return (.count (l.length + 1), pushAt v l e)) := by
  have hlen : (pushAt v l e).length = l.length + 1 := by cases e <;> simp [pushAt]
  have hmem : ∀ m ∈ pushAt v l e, m = v ∨ m ∈ l := by
    cases e <;> simp [pushAt, or_comm]
  have hpush : Reply.via .count (push e v key value) =
      (Value.put (Members.encode (pushAt v l e))).bind fun w => .ok (.count (l.length + 1), w) := by
    simp only [push, read, h.read, bind, Except.bind, h.getD, hlen]
    cases Value.put (Members.encode (pushAt v l e)) <;> rfl
  rw [hpush]
  refine agree_put ?_ (fun m hm => (hmem m hm).imp_right (Members.short_of_holds h)) ?_ _
  · cases e <;> simp [pushAt]
  · rw [hlen]
    exact succ_lt_of_le_longest hsize

/-- To store what is left of a sequence, or drop the key if nothing is. -/
theorem agree_store {l' : List Bytes} (hshort : ∀ m ∈ l', m.length ≤ maxMember)
    (hlen : l'.length < 256 ^ countWidth) (r : Reply) :
    Agree (Follows Holds value) ((store l').bind fun w => .ok (r, w)) (.ok (r, l')) := by
  unfold store
  cases l' with
  | nil => exact .ok ⟨rfl, rfl⟩
  | cons m l' =>
    obtain ⟨b, hb, hd⟩ := Members.exists_record hlen hshort
    rw [hb]
    exact .ok ⟨rfl, List.cons_ne_nil m l', hd⟩

theorem agree_pop (h : Holds l value) (hsize : l.length ≤ Position.longest)
    (e : End) :
    Agree (Follows Holds value) (Reply.via .bytes? (pop e key value))
      (.ok (.bytes? (popAt l e).1, (popAt l e).2)) := by
  cases value with
  | none =>
    obtain rfl : l = [] := h
    cases e <;> exact .ok ⟨rfl, rfl⟩
  | some b =>
    have hsub : (popAt l e).2.Sublist l := by
      cases e
      · exact List.tail_sublist l
      · exact List.dropLast_sublist l
    have hpop : Reply.via .bytes? (pop e key (some b)) =
        (store (popAt l e).2).bind fun w => .ok (.bytes? (popAt l e).1, w) := by
      simp only [pop, read, h.read, bind, Except.bind, Option.map_some]
      cases store (popAt l e).2 <;> rfl
    rw [hpop]
    refine agree_store (fun m hm => Members.short_of_holds h (hsub.subset hm)) ?_ _
    have hle := hsub.length_le
    have hlt := succ_lt_of_le_longest hsize
    omega

theorem agree_assign (h : Holds l value) (hsize : l.length ≤ Position.longest)
    (i : Int) (v : Bytes) :
    Agree (Follows Holds value) ((assign i v key value).map fun w => (.done, w))
      (act l (.lset i v)) := by
  cases value with
  | none =>
    obtain rfl : l = [] := h
    exact .error _
  | some b =>
    have hassign : (assign i v key (some b)).map (fun w => (Reply.done, w)) =
        match Position.index? l.length i with
        | none => .error .indexOutOfRange
        | some k =>
          (Value.put (Members.encode (l.set k v))).bind fun w => .ok (.done, w) := by
      simp only [assign, read, h.read, bind, Except.bind, Option.map_some,
        Position.resolve_eq_index? hsize]
      cases Position.index? l.length i with
      | none => rfl
      | some k => cases Value.put (Members.encode (l.set k v)) <;> rfl
    rw [hassign, act, if_neg h.1]
    cases hk : Position.index? l.length i with
    | none => exact .error _
    | some k =>
      have hlt : k < l.length := by
        unfold Position.index? at hk
        split at hk
        · obtain rfl := Option.some.inj hk
          omega
        · cases hk
      refine agree_put (List.mem_set hlt v) (fun m hm => ?_) ?_ _
      · exact (List.mem_or_eq_of_mem_set hm).symm.imp_right (Members.short_of_holds h)
      · have := succ_lt_of_le_longest hsize
        rw [List.length_set]
        omega

theorem agree_add (h : Holds l value) (hsize : l.length ≤ Position.longest)
    (m : Bytes) :
    Agree (Follows Holds value) (Reply.via .flag (MemberSet.add m key value))
      (act l (.sadd m)) := by
  rw [act]
  by_cases hnodup : l.Nodup
  · by_cases hm : m ∈ l
    · have hadd : Reply.via .flag (MemberSet.add m key value) = .ok (.flag false, .keep) := by
        simp only [MemberSet.add, MemberSet.read_of_holds h, hnodup, if_true, bind, Except.bind,
          h.getD, hm]
        rfl
      rw [hadd, if_pos hnodup, if_pos (List.contains_iff_mem.2 hm)]
      exact .ok ⟨rfl, h⟩
    · have hadd : Reply.via .flag (MemberSet.add m key value) =
          (Value.put (Members.encode (l ++ [m]))).bind fun w => .ok (.flag true, w) := by
        simp only [MemberSet.add, MemberSet.read_of_holds h, hnodup, if_true, bind, Except.bind,
          h.getD, hm, if_false]
        cases Value.put (Members.encode (l ++ [m])) <;> rfl
      rw [hadd, if_pos hnodup, if_neg (fun h => hm (List.contains_iff_mem.1 h))]
      refine agree_put (by simp) (fun m' hm' => ?_) ?_ _
      · rcases List.mem_append.1 hm' with hm' | hm'
        · exact .inr (Members.short_of_holds h hm')
        · exact .inl (List.mem_singleton.1 hm')
      · rw [List.length_append]
        exact succ_lt_of_le_longest hsize
  · have hadd : Reply.via .flag (MemberSet.add m key value) = .error .wrongType := by
      simp only [MemberSet.add, MemberSet.read_of_holds h, hnodup, if_false]
      rfl
    rw [hadd, if_neg hnodup]
    exact .error _

/-- A change adds one element at most. -/
theorem length_act_le {ch : Change} {r : Reply} {l' : List Bytes} (h : act l ch = .ok (r, l')) :
    l'.length ≤ l.length + 1 := by
  cases ch with
  | lpush v =>
    obtain ⟨-, -, h⟩ := bind_eq_ok_iff.1 h
    cases h
    rfl
  | rpush v =>
    obtain ⟨-, -, h⟩ := bind_eq_ok_iff.1 h
    cases h
    rw [List.length_append]
    rfl
  | lpop | rpop =>
    cases h
    simp only [List.length_tail, List.length_dropLast]
    omega
  | lset i v =>
    rw [act] at h
    split at h
    · cases h
    · split at h
      · cases h
      · obtain ⟨-, -, h⟩ := bind_eq_ok_iff.1 h
        cases h
        rw [List.length_set]
        omega
  | sadd m =>
    rw [act] at h
    split at h
    · split at h
      · cases h
        omega
      · obtain ⟨-, -, h⟩ := bind_eq_ok_iff.1 h
        cases h
        rw [List.length_append]
        rfl
    · cases h
  | _ => cases h

/-- Sequences as values. -/
def kind : Kind (List Bytes) where
  Changes := IsChange
  act := act
  size := List.length
  Holds := Holds
  grows := length_act_le
  refuses hch hshort := by cases hch <;> cases hshort
  agree key h hsize hch _ := by
    cases hch with
    | lpush v => exact agree_push h hsize .head v
    | rpush v => exact agree_push h hsize .tail v
    | lpop => exact agree_pop h hsize .head
    | rpop => exact agree_pop h hsize .tail
    | lset i v => exact agree_assign h hsize i v
    | sadd m => exact agree_add h hsize m

/-! ## Queries -/

theorem answer_lindex (h : Holds l value) (hsize : l.length ≤ Position.longest)
    (i : Int) :
    Query.answer key value (.lindex i) =
      .ok (.bytes? ((Position.index? l.length i).bind (l[·]?))) := by
  simp only [Query.answer, element, read, h.read, bind, Except.bind, h.getD,
    Position.resolve_eq_index? hsize]
  rfl

theorem answer_lrange (h : Holds l value) (hsize : l.length ≤ Position.longest)
    (start stop : Int) :
    Query.answer key value (.lrange start stop) =
      .ok (.members (Position.between l start stop)) := by
  simp only [Query.answer, range, read, h.read, bind, Except.bind, h.getD,
    Position.slice_eq_between hsize]
  rfl

theorem answer_llen (h : Holds l value) :
    Query.answer key value .llen = .ok (.count l.length) := by
  simp only [Query.answer, length, read, h.read, bind, Except.bind, h.getD]
  rfl

/-! ## Runs -/

/-- **A list is a double-ended sequence.** A key without a deadline holds a list, of any elements or
of none. Whatever is asked of the store, as long as only changes of lists are made to the key and
the list never has more elements than there are positions, the value of the key holds the
sequence that the changes have made, and there is none just if the sequence is empty. Every change
that is made next answers as it does for this sequence, and so do the queries for an element, for
those between two positions, and for their number. -/
theorem list_behaves_as_sequence {s : Store} {db : DbId} {key : Bytes} {value : Option Bytes}
    {l : List Bytes} {reqs : List (Call × Command)}
    (hslot : s.storage.slot db key = ⟨value, none⟩) (hvalue : Value.Holds Members.decode l value)
    (htame : ∀ q ∈ reqs, Store.Tame db key q.1 q.2)
    (hchanges : ∀ ch ∈ s.history db key reqs, IsChange ch)
    (hsize : ∀ h, h <+: s.history db key reqs → (kind.after l h).length ≤ Position.longest) :
    let t := s.serve reqs
    let l' := kind.after l (s.history db key reqs)
    (∃ value', t.storage.slot db key = ⟨value', none⟩ ∧ Value.Holds Members.decode l' value' ∧
      (value'.isSome = true ↔ l' ≠ [])) ∧
    ∀ c, s.Admits c db key →
      (∀ ch, IsChange ch → t.answer c key (.change ch) = (act l' ch).map (·.1)) ∧
      (∀ i, t.answer c key (.query (.lindex i)) =
        .ok (.bytes? ((Position.index? l'.length i).bind (l'[·]?)))) ∧
      (∀ start stop, t.answer c key (.query (.lrange start stop)) =
        .ok (.members (Position.between l' start stop))) ∧
      t.answer c key (.query .llen) = .ok (.count l'.length) := by
  intro t l'
  have hkeeps : kind.Keeps s db key 0 value l reqs := .of_slot hslot hvalue htame hchanges hsize
  have hsize' : l'.length ≤ Position.longest := hsize _ (List.prefix_refl _)
  obtain ⟨value', hvalue', hslot', hquery⟩ := hkeeps.persistent hslot
  refine ⟨⟨value', hslot', hvalue', hvalue'.isSome_iff⟩, fun c hc => ⟨fun ch hch => ?_, fun i => ?_,
    fun start stop => ?_, ?_⟩⟩
  · exact hkeeps.answer_change hc (Nat.zero_le _) hch
  · exact (hquery c hc (.lindex i) rfl nofun).trans (answer_lindex hvalue' hsize' i)
  · exact (hquery c hc (.lrange start stop) rfl nofun).trans
      (answer_lrange hvalue' hsize' start stop)
  · exact (hquery c hc .llen rfl nofun).trans (answer_llen hvalue')

/-- A list with one element is changed at its head and at its tail. Next to that the same key is
changed in another database, and a change of the list is canceled. -/
theorem list_behaves_as_sequence_mixed :
    let key : Bytes := [107]
    let value : Option Bytes := some [0, 0, 0, 0, 0, 0, 0, 1, 0, 0, 0, 1, 97]
    let s : Store := .fresh {} (Storage.empty.setSlot 0 key ⟨value, none⟩)
    let c : Call := .alone 0 ⟨1000, 0⟩ .none
    let reqs : List (Call × Command) := [
      (c, .onKey key (.change (.lpush [98]))),
      ({ c with db := 1 }, .onKey key (.change (.set [99]))),
      ({ c with canceled := true }, .onKey key (.change .lpop)),
      (c, .onKey key (.query .get)),
      (c, .onKey key (.change (.lset (-1) [100])))]
    Value.Holds Members.decode [[97]] value ∧
      s.history 0 key reqs = [.lpush [98], .lset (-1) [100]] ∧
      (s.serve reqs).answer c key (.query (.lrange 0 (-1))) = .ok (.members [[98], [100]]) ∧
      (s.serve reqs).answer c key (.change .rpop) = .ok (.bytes [100]) ∧
      (s.serve reqs).answer c key (.change (.lset 2 [101])) = .error .indexOutOfRange := by
  intro key value s c reqs
  have hvalue : Value.Holds Members.decode [[97]] value :=
    ⟨List.cons_ne_nil _ _, (Members.decode_eq_ok_iff (by decide)).2 (by rfl)⟩
  have hhistory : s.history 0 key reqs = [.lpush [98], .lset (-1) [100]] := by rfl
  have hslot : s.storage.slot 0 key = ⟨value, none⟩ := by rfl
  have htame : ∀ q ∈ reqs, Store.Tame 0 key q.1 q.2 := by
    simp only [reqs, List.forall_mem_cons]
    exact ⟨.change _ rfl, .aside (.onKey _) (by decide), .change _ rfl, .read _ trivial,
      .change _ rfl, List.forall_mem_nil _⟩
  have hchanges : ∀ ch ∈ s.history 0 key reqs, IsChange ch := by
    rw [hhistory]
    simp only [List.forall_mem_cons]
    exact ⟨.lpush _, .lset _ _, List.forall_mem_nil _⟩
  have hlen : kind.size [[97]] + (s.history 0 key reqs).length ≤ Position.longest := by
    rw [hhistory]
    show 1 + 2 ≤ 2 ^ 63 - 1
    omega
  obtain ⟨-, h⟩ := list_behaves_as_sequence hslot hvalue htame hchanges (kind.size_of_length hlen)
  rw [hhistory] at h
  have hadmits : s.Admits c 0 key := ⟨rfl, rfl, by rfl, rfl⟩
  obtain ⟨hchange, -, hrange, -⟩ := h c hadmits
  exact ⟨hvalue, hhistory, hrange 0 (-1), hchange _ .rpop, hchange _ (.lset 2 [101])⟩

end Sequence

end Keyspace
