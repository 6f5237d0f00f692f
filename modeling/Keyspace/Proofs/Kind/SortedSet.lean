import Keyspace.Proofs.Kind
import Keyspace.Proofs.Position
import Keyspace.Proofs.Record.Stored
import Keyspace.Proofs.Record.Upsert
import Keyspace.Store.Opening
import Mathlib.Data.List.Nodup

/-!
# Sorted sets as maps

A sorted set is a map from members to scores. Its `listing` has them in strictly increasing order,
and is the only such list (`eq_listing`): so giving a member its score and taking a member out,
which change the list, change the map (`upsert_listing`, `filter_listing`). `SortedSet.act` says
what the changes answer and make of a map; they do the same to a value that is the record of its
listing (`SortedSet.kind`). Along runs sorted sets are therefore maps
(`sorted_set_behaves_as_map`).
-/

namespace Keyspace.SortedSet

open Layout Ranking

variable {m : OrderedMap Score} {l : List ScoredMember} {value : Option Bytes} {key x : Bytes}
  {score : Score}

/-! ## Listings -/

/-- The entries of a map in the order of sorted sets. -/
def listing (m : OrderedMap Score) : List ScoredMember :=
  sort (m.entries.map fun e => ⟨e.2, e.1⟩)

theorem mem_listing_iff {y : ScoredMember} :
    y ∈ listing m ↔ m.get? y.member = some y.score := by
  rw [listing, (perm_sort _).mem_iff, ← OrderedMap.mem_entries_iff, List.mem_map]
  constructor
  · rintro ⟨e, he, rfl⟩
    exact he
  · exact fun h => ⟨_, h, rfl⟩

/-- No member is listed twice. -/
theorem nodup_members (m : OrderedMap Score) : ((listing m).map (·.member)).Nodup := by
  rw [listing, ((perm_sort _).map _).nodup_iff, List.map_map]
  have hkeys : (m.entries.map (·.1)).Pairwise (· < ·) := List.pairwise_map.2 m.sorted
  refine hkeys.imp ?_
  rintro a b h rfl
  exact List.lt_irrefl _ h

theorem isChain_listing (m : OrderedMap Score) : (listing m).IsChain (· < ·) :=
  isChain_iff.2 ⟨sorted_sort _, List.Nodup.of_map _ (nodup_members m)⟩

/-- A map is listed in strictly increasing order in one way. -/
theorem eq_listing (hl : l.IsChain (· < ·))
    (hmem : ∀ y, y ∈ l ↔ m.get? y.member = some y.score) : l = listing m := by
  obtain ⟨hsorted, hnodup⟩ := isChain_iff.1 hl
  obtain ⟨hsorted', hnodup'⟩ := isChain_iff.1 (isChain_listing m)
  refine hsorted.eq_of_perm hsorted' ((List.perm_ext_iff_of_nodup hnodup hnodup').2 fun y => ?_)
  rw [hmem, mem_listing_iff]

theorem length_listing (m : OrderedMap Score) : (listing m).length = m.size := by
  rw [listing, (perm_sort _).length_eq, List.length_map]
  rfl

theorem listing_eq_nil_iff : listing m = [] ↔ m = .empty := by
  constructor
  · intro h
    ext x score
    rw [OrderedMap.get?_empty]
    have hx : (⟨score, x⟩ : ScoredMember) ∈ listing m ↔ m.get? x = some score := mem_listing_iff
    rw [← Option.mem_def, Option.mem_def, ← hx, h]
    simp
  · rintro rfl
    rfl

theorem find?_listing (m : OrderedMap Score) (x : Bytes) :
    ((listing m).find? (·.member = x)).map (·.score) = m.get? x := by
  ext score
  rw [Option.map_eq_some_iff]
  constructor
  · rintro ⟨y, hy, rfl⟩
    obtain rfl : y.member = x := by simpa using List.find?_some hy
    exact mem_listing_iff.1 (List.mem_of_find?_eq_some hy)
  · intro h
    refine ⟨⟨score, x⟩, (Sorted.find?_eq_some_iff (isChain_iff.1 (isChain_listing m)).1).2
      ⟨mem_listing_iff.2 h, by simp, fun y hy hyx => ?_⟩, rfl⟩
    -- a member has one score only
    obtain rfl : y.member = x := by simpa using hyx
    have hscore : y.score = score := by
      rw [mem_listing_iff.1 hy] at h
      exact Option.some.inj h
    rw [← hscore]
    exact ScoredMember.lt_irrefl y

theorem mem_listing_insert_iff {y : ScoredMember} :
    y ∈ listing (m.insert x score) ↔ y = ⟨score, x⟩ ∨ y ∈ listing m ∧ y.member ≠ x := by
  obtain ⟨score', x'⟩ := y
  rw [mem_listing_iff, mem_listing_iff, OrderedMap.get?_insert]
  by_cases hx : x = x'
  · subst hx
    simp [eq_comm]
  · simp [hx, Ne.symm hx]

/-- To give a member its score is to bind it in the map. -/
theorem upsert_listing (m : OrderedMap Score) (score : Score) (x : Bytes) :
    upsert score x (listing m) = ((m.get? x).isNone, listing (m.insert x score)) := by
  have hothers : ∀ y, y ∈ others x (listing m) ↔ y ∈ listing m ∧ y.member ≠ x := by
    intro y
    constructor
    · intro hy
      refine ⟨List.mem_of_mem_eraseP hy, ?_⟩
      rintro rfl
      exact ScoredMember.lt_irrefl y (precedes_of_nodup y.score _ (nodup_members m) y hy rfl)
    · rintro ⟨hy, hyx⟩
      exact (List.mem_eraseP_of_neg (by simpa using hyx)).2 hy
  refine Prod.ext ?_ (eq_listing ?_ fun y => ?_)
  · rw [Bool.eq_iff_iff, upsert_fst_iff, Option.isNone_iff_eq_none,
      Option.eq_none_iff_forall_not_mem]
    constructor
    · intro h score' hscore'
      exact h ⟨score', x⟩ (mem_listing_iff.2 hscore') rfl
    · rintro h y hy rfl
      exact h _ (mem_listing_iff.1 hy)
  · rw [isChain_upsert_iff _ _ (isChain_listing m)]
    exact fun h => ((hothers _).1 h).2 rfl
  · rw [(perm_upsert score x).mem_iff, List.mem_cons, hothers, ← mem_listing_insert_iff,
      mem_listing_iff]

theorem size_insert_le (m : OrderedMap Score) (score : Score) (x : Bytes) :
    (m.insert x score).size ≤ m.size + 1 := by
  have hlen := length_upsert score x (l := listing m)
  rw [upsert_listing, length_listing, length_listing] at hlen
  dsimp only at hlen
  split at hlen <;> omega

/-- To take a member out is to erase it from the map. -/
theorem filter_listing (m : OrderedMap Score) (x : Bytes) :
    (listing m).filter (·.member ≠ x) = listing (m.erase x) := by
  refine eq_listing ?_ fun y => ?_
  · obtain ⟨hsorted, hnodup⟩ := isChain_iff.1 (isChain_listing m)
    exact isChain_iff.2 ⟨hsorted.filter _, hnodup.filter _⟩
  · rw [List.mem_filter, mem_listing_iff, OrderedMap.get?_erase]
    by_cases hx : x = y.member <;> simp [hx, eq_comm]

theorem sublist_listing_erase (m : OrderedMap Score) (x : Bytes) :
    (listing (m.erase x)).Sublist (listing m) := by
  rw [← filter_listing]
  exact List.filter_sublist

theorem length_listing_erase_iff :
    (listing (m.erase x)).length = (listing m).length ↔ m.get? x = none := by
  rw [← filter_listing, List.length_filter_eq_length_iff, Option.eq_none_iff_forall_not_mem]
  constructor
  · intro h score hscore
    simpa using h ⟨score, x⟩ (mem_listing_iff.2 hscore)
  · rintro h y hy
    simp only [ne_eq, decide_not, Bool.not_eq_eq_eq_not, Bool.not_true, decide_eq_false_iff_not]
    rintro rfl
    exact h _ (mem_listing_iff.1 hy)

/-! ## Changes -/

/-- The changes of a sorted set. -/
inductive IsChange : Change → Prop
  | zadd (score : Score) (x : Bytes) : IsChange (.zadd score x)
  | zrem (x : Bytes) : IsChange (.zrem x)

/-- What a change answers and makes of a map. -/
def act (m : OrderedMap Score) : Change → Except Error (Reply × OrderedMap Score)
  | .zadd score x =>
    if score.isNaN then throw .invalidScore
    else do
      checkMember x
      return (.flag (m.get? x).isNone, m.insert x score)
  | .zrem x => return (.flag (m.get? x).isSome, m.erase x)
  | _ => throw .wrongType

/-- The value is the record of the listing. -/
def Holds (m : OrderedMap Score) (value : Option Bytes) : Prop :=
  Value.Holds Ranking.decode (listing m) value

theorem agree_add (h : Holds m value) (hsize : m.size ≤ Position.longest)
    (hscore : score.isNaN = false) :
    Agree (Follows Holds value) (Reply.via .flag (add score x key value))
      (act m (.zadd score x)) := by
  have hadd : Reply.via .flag (add score x key value) =
      (Value.put (Ranking.encode (listing (m.insert x score)))).bind fun w =>
        .ok (.flag (m.get? x).isNone, w) := by
    simp only [add, read, Value.Holds.read h, bind, Except.bind, Value.Holds.getD h, upsert_listing]
    cases Value.put (Ranking.encode (listing (m.insert x score))) <;> rfl
  have hother : ∀ y ∈ listing (m.insert x score), y = ⟨score, x⟩ ∨ y ∈ listing m := fun y hy =>
    (mem_listing_insert_iff.1 hy).imp_right And.left
  have hmem : ⟨score, x⟩ ∈ listing (m.insert x score) := mem_listing_insert_iff.2 (.inl rfl)
  have hlen : (listing (m.insert x score)).length < 256 ^ countWidth := by
    have hinsert := size_insert_le m score x
    have hlt := succ_lt_of_le_longest hsize
    rw [length_listing]
    omega
  have hnum : ∀ y ∈ listing (m.insert x score), y.score.isNaN = false := by
    intro y hy
    rcases hother y hy with rfl | hy
    · exact hscore
    · exact Ranking.isNaN_of_holds h hy
  have hput := Ranking.agree_put hmem
    (fun y hy => (hother y hy).imp_right (Ranking.short_of_holds h)) hlen hnum (isChain_listing _)
  rw [hadd, act, hscore]
  refine hput.bind fun w _ hw => ?_
  obtain ⟨b, rfl, hd⟩ := hw
  exact .ok ⟨rfl, List.ne_nil_of_mem hmem, hd⟩

theorem agree_remove (h : Holds m value) (hsize : m.size ≤ Position.longest) :
    Agree (Follows Holds value) (Reply.via .flag (remove x key value)) (act m (.zrem x)) := by
  rw [act]
  cases hx : m.get? x with
  | none =>
    have hlen := length_listing_erase_iff.2 hx
    have hremove : Reply.via .flag (remove x key value) = .ok (.flag false, .keep) := by
      simp only [remove, read, Value.Holds.read h, bind, Except.bind, Value.Holds.getD h,
        filter_listing, hlen, if_true]
      rfl
    have herase : listing (m.erase x) = listing m :=
      (sublist_listing_erase m x).eq_of_length hlen
    rw [hremove]
    exact .ok ⟨rfl, (congrArg (Value.Holds Ranking.decode · value) herase).mpr h⟩
  | some score =>
    have hlen : (listing (m.erase x)).length ≠ (listing m).length := fun hlen => by
      rw [length_listing_erase_iff, hx] at hlen
      cases hlen
    have hremove : Reply.via .flag (remove x key value) =
        if (listing (m.erase x)).isEmpty then .ok (.flag true, .drop)
        else (Value.put (Ranking.encode (listing (m.erase x)))).bind fun w =>
          .ok (.flag true, w) := by
      simp only [remove, read, Value.Holds.read h, bind, Except.bind, Value.Holds.getD h,
        filter_listing, hlen, if_false]
      split
      · rfl
      · cases Value.put (Ranking.encode (listing (m.erase x))) <;> rfl
    rw [hremove]
    split
    · rename_i hnil
      exact .ok ⟨rfl, List.isEmpty_iff.1 hnil⟩
    · rename_i hne
      have hsub := sublist_listing_erase m x
      have hlt : (listing (m.erase x)).length < 256 ^ countWidth := by
        have hle := hsub.length_le
        have hlt := succ_lt_of_le_longest hsize
        rw [length_listing m] at hle
        omega
      obtain ⟨b, hb, hd⟩ := Ranking.exists_record hlt
        (fun y hy => Ranking.isNaN_of_holds h (hsub.subset hy)) (isChain_listing _)
        (fun y hy => Ranking.short_of_holds h (hsub.subset hy))
      rw [hb]
      exact .ok ⟨rfl, fun hnil => hne (List.isEmpty_iff.2 hnil), hd⟩

/-- A change adds one member at most. -/
theorem size_act_le {ch : Change} {r : Reply} {m' : OrderedMap Score}
    (h : act m ch = .ok (r, m')) : m'.size ≤ m.size + 1 := by
  cases ch with
  | zadd score x =>
    rw [act] at h
    split at h
    · cases h
    · obtain ⟨-, -, h⟩ := bind_eq_ok_iff.1 h
      cases h
      exact size_insert_le m score x
  | zrem x =>
    cases h
    have hle := (sublist_listing_erase m x).length_le
    rw [length_listing, length_listing] at hle
    omega
  | _ => cases h

/-- Maps as values. -/
def kind : Kind (OrderedMap Score) where
  Changes := IsChange
  act := act
  size := OrderedMap.size
  Holds := Holds
  grows := size_act_le
  refuses hch hshort := by
    cases hch with
    | zadd score x =>
      obtain ⟨hnan, hanswer⟩ := Option.ite_none_right_eq_some.1 hshort
      exact ⟨_, (Option.some.inj hanswer).symm, if_pos hnan⟩
    | zrem x => cases hshort
  agree key h hsize hch hshort := by
    cases hch with
    | zadd score x =>
      exact agree_add h hsize (by simpa [KeyCommand.shortcut] using hshort)
    | zrem x => exact agree_remove h hsize

/-! ## Queries -/

theorem answer_zscore (h : Holds m value) (x : Bytes) :
    Query.answer key value (.zscore x) = .ok (.score? (m.get? x)) := by
  simp only [Query.answer, SortedSet.score, read, Value.Holds.read h, bind, Except.bind,
    Value.Holds.getD h, find?_listing]
  rfl

theorem answer_zcard (h : Holds m value) :
    Query.answer key value .zcard = .ok (.count m.size) := by
  simp only [Query.answer, card, read, Value.Holds.read h, bind, Except.bind,
    Value.Holds.getD h, length_listing]
  rfl

theorem range_of_holds (h : Value.Holds Ranking.decode l value)
    (hsize : l.length ≤ Position.longest) (start stop : Int) :
    range start stop key value = .ok (Position.between l start stop) := by
  simp only [range, read, h.read, bind, Except.bind, h.getD, Position.slice_eq_between hsize]
  rfl

/-! ## Runs -/

/-- Requests from which a key that was absent has the map: only changes of sorted sets are made to
it, and it never has more members than there are positions. -/
structure Builds (s : Store) (db : DbId) (key : Bytes) (reqs : List (Call × Command))
    (m : OrderedMap Score) : Prop where
  absent : s.storage.slot db key = .empty
  tame : ∀ q ∈ reqs, Store.Tame db key q.1 q.2
  changes : ∀ ch ∈ s.history db key reqs, IsChange ch
  size : ∀ h, h <+: s.history db key reqs → (kind.after .empty h).size ≤ Position.longest
  after : kind.after .empty (s.history db key reqs) = m

/-- What is stored under a key that has the map. -/
inductive IsStored : OrderedMap Score → Slot → Prop
  | empty : IsStored .empty .empty
  | record {m : OrderedMap Score} {b : Bytes} (hne : m ≠ .empty)
    (h : Ranking.encode (listing m) = .ok b) : IsStored m ⟨some b, none⟩

theorem IsStored.of_holds (h : Holds m value) : IsStored m ⟨value, none⟩ := by
  cases value with
  | none =>
    obtain rfl := listing_eq_nil_iff.1 h
    exact .empty
  | some b =>
    exact .record (fun hm => h.1 (listing_eq_nil_iff.2 hm)) (Ranking.decode_eq_ok_iff.1 h.2).2.1

/-- The bytes are determined by the map. -/
theorem IsStored.eq {t u : Slot} (ht : IsStored m t) (hu : IsStored m u) : t = u := by
  cases ht with
  | empty =>
    cases hu with
    | empty => rfl
    | record hne => exact absurd rfl hne
  | record hne h =>
    cases hu with
    | empty => exact absurd rfl hne
    | record hne h' =>
      obtain rfl := Except.ok.inj (h.symm.trans h')
      rfl

namespace Builds

variable {s : Store} {db : DbId} {reqs : List (Call × Command)}

theorem keeps (h : Builds s db key reqs m) : kind.Keeps s db key 0 none .empty reqs :=
  .of_slot h.absent rfl h.tame h.changes h.size

theorem size_le (h : Builds s db key reqs m) : m.size ≤ Position.longest :=
  h.after ▸ h.size _ (List.prefix_refl _)

theorem isStored (h : Builds s db key reqs m) :
    IsStored m ((s.serve reqs).storage.slot db key) := by
  obtain ⟨value, hvalue, hslot, -⟩ := h.keeps.persistent h.absent
  rw [hslot]
  exact .of_holds (h.after ▸ hvalue)

end Builds

/-- **A sorted set is a finite map from members to scores.** Whatever is asked of the store, as long
as only changes of sorted sets are made to a key that was absent and the set never has more members
than there are positions, the key has the map that the changes have made: what is stored is the
record of the listing, in strictly increasing order, of the map, and nothing for the empty map.
Other requests that make the same map of a key store the same bytes. Every change that is made next
answers as it does for this map, and so do the queries for a score, for the number of members, and
for those between two places of the listing. -/
theorem sorted_set_behaves_as_map {s : Store} {db : DbId} {key : Bytes}
    {reqs : List (Call × Command)} {m : OrderedMap Score} (h : Builds s db key reqs m) :
    let t := s.serve reqs
    (listing m).IsChain (· < ·) ∧
    (∀ y, y ∈ listing m ↔ m.get? y.member = some y.score) ∧
    IsStored m (t.storage.slot db key) ∧
    (∀ s' db' key' reqs', Builds s' db' key' reqs' m →
      (s'.serve reqs').storage.slot db' key' = t.storage.slot db key) ∧
    ∀ c, s.Admits c db key →
      (∀ ch, IsChange ch → t.answer c key (.change ch) = (act m ch).map (·.1)) ∧
      (∀ x, t.answer c key (.query (.zscore x)) = .ok (.score? (m.get? x))) ∧
      t.answer c key (.query .zcard) = .ok (.count m.size) ∧
      (∀ start stop, t.answer c key (.query (.zrangeWithScores start stop)) =
        .ok (.ranked (Position.between (listing m) start stop))) ∧
      ∀ start stop, t.answer c key (.query (.zrange start stop)) =
        .ok (.members ((Position.between (listing m) start stop).map (·.member))) := by
  intro t
  obtain ⟨value, hvalue, -, hquery⟩ := h.keeps.persistent h.absent
  rw [h.after] at hvalue
  have hrange : ∀ start stop, range start stop key value =
      .ok (Position.between (listing m) start stop) :=
    range_of_holds hvalue ((length_listing m).trans_le h.size_le)
  refine ⟨isChain_listing m, fun y => mem_listing_iff, h.isStored,
    fun s' db' key' reqs' h' => h'.isStored.eq h.isStored,
    fun c hc => ⟨fun ch hch => ?_, fun x => ?_, ?_, fun start stop => ?_, fun start stop => ?_⟩⟩
  · rw [h.keeps.answer_change hc (Nat.zero_le _) hch, h.after]
    rfl
  · exact (hquery c hc (.zscore x) rfl nofun).trans (answer_zscore hvalue x)
  · exact (hquery c hc .zcard rfl nofun).trans (answer_zcard hvalue)
  · rw [hquery c hc (.zrangeWithScores start stop) rfl nofun, Query.answer, hrange]
    rfl
  · rw [hquery c hc (.zrange start stop) rfl nofun, Query.answer, hrange]
    rfl

/-- Of two members with the score `+0` one gets the score `-0` instead. A third one cannot have a
NaN for its score. -/
theorem sorted_set_behaves_as_map_zeros :
    let key : Bytes := [107]
    let zero : Score := ⟨0⟩
    let negZero : Score := ⟨0x8000000000000000⟩
    let s : Store := .fresh {} .empty
    let c : Call := .alone 0 ⟨1000, 0⟩ .none
    let reqs : List (Call × Command) := [
      (c, .onKey key (.change (.zadd zero [97]))),
      (c, .onKey key (.change (.zadd zero [98]))),
      (c, .onKey key (.query (.zscore [98]))),
      (c, .onKey key (.change (.zadd ⟨0x7ff8000000000000⟩ [99]))),
      (c, .onKey key (.change (.zadd negZero [98])))]
    let m := (OrderedMap.empty.insert [97] zero).insert [98] negZero
    Builds s 0 key reqs m ∧
      listing m = [⟨negZero, [98]⟩, ⟨zero, [97]⟩] ∧
      (s.serve reqs).answer c key (.query (.zrange 0 (-1))) = .ok (.members [[98], [97]]) ∧
      (s.serve reqs).answer c key (.query (.zscore [98])) = .ok (.score negZero) ∧
      (s.serve reqs).answer c key (.change (.zrem [99])) = .ok (.flag false) := by
  intro key zero negZero s c reqs m
  have hhistory : s.history 0 key reqs = [.zadd zero [97], .zadd zero [98],
      .zadd ⟨0x7ff8000000000000⟩ [99], .zadd negZero [98]] := by
    rfl
  have hlisting : listing m = [⟨negZero, [98]⟩, ⟨zero, [97]⟩] := by
    decide
  have hbuilds : Builds s 0 key reqs m := by
    refine ⟨rfl, ?_, ?_, kind.size_of_length ?_, ?_⟩
    · simp only [reqs, List.forall_mem_cons]
      exact ⟨.change _ rfl, .change _ rfl, .read _ trivial, .change _ rfl, .change _ rfl,
        List.forall_mem_nil _⟩
    · rw [hhistory]
      simp only [List.forall_mem_cons]
      exact ⟨.zadd _ _, .zadd _ _, .zadd _ _, .zadd _ _, List.forall_mem_nil _⟩
    · rw [hhistory]
      show 0 + 4 ≤ 2 ^ 63 - 1
      omega
    · rw [hhistory]
      decide
  obtain ⟨-, -, -, -, h⟩ := sorted_set_behaves_as_map hbuilds
  have hadmits : s.Admits c 0 key := ⟨rfl, rfl, by rfl, rfl⟩
  obtain ⟨hchange, hscore, -, -, hrange⟩ := h c hadmits
  refine ⟨hbuilds, hlisting, ?_, hscore [98], hchange _ (.zrem [99])⟩
  rw [hrange 0 (-1), hlisting]
  rfl

end Keyspace.SortedSet
