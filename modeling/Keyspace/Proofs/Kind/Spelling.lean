import Keyspace.Proofs.Kind.Sequence
import Keyspace.Proofs.Kind.SortedSet

/-!
# Lists that spell sorted sets

Nothing in a record says of which kind it is, and the record of a list can be that of a ranking
too: then the list `Spells` the ranking. Its members have to make room for the scores, so no list
with fewer than eight bytes for each member spells one (`Spells.le_length_flatten`). A command on
sorted sets fails on a list that spells no ranking, and finds the ranking in the place of one that
does (`wrong_type_unless_spelled`).
-/

namespace Keyspace

open Layout

/-! ## Bytes with two readings -/

namespace Members

variable {l : List Bytes} {z : List ScoredMember} {b w : Bytes}

/-- The bytes of the members are those of a ranking with as many elements. -/
structure Spells (l : List Bytes) (z : List ScoredMember) : Prop where
  length : z.length = l.length
  numbers : ∀ x ∈ z, x.score.isNaN = false
  increasing : z.IsChain (· < ·)
  bytes : ∃ w, writeAll l = .ok w ∧ Ranking.writeAll z = .ok w

theorem encode_eq_ok_iff :
    encode l = .ok b ↔ ∃ w, writeAll l = .ok w ∧ writeCount l.length ++ w = b := map_eq_ok_iff

/-- A list spells the ranking that its record is read as. -/
theorem spells_iff (h : decode b = .ok l) : Spells l z ↔ Ranking.decode b = .ok z := by
  have hlt := length_lt_of_decode h
  obtain ⟨w, hw, rfl⟩ := encode_eq_ok_iff.1 ((decode_eq_ok_iff hlt).1 h)
  rw [Ranking.decode_eq_ok_iff, Ranking.encode_eq_ok_iff]
  constructor
  · rintro ⟨hlen, hnum, hinc, w', hw', hz⟩
    obtain rfl := Except.ok.inj (hw.symm.trans hw')
    exact ⟨hlen ▸ hlt, ⟨w, hz, by rw [hlen]⟩, hnum, hinc⟩
  · rintro ⟨hltz, ⟨w', hz, he⟩, hnum, hinc⟩
    obtain ⟨hcount, rfl⟩ := List.append_inj he (by simp [writeCount])
    exact ⟨BigEndian.ofNat_injective hltz hlt hcount, hnum, hinc, w', hw, hz⟩

theorem length_of_writeAll (h : writeAll l = .ok w) :
    w.length = lengthWidth * l.length + l.flatten.length := by
  induction l generalizing w with
  | nil =>
    cases h
    rfl
  | cons m l ih =>
    obtain ⟨u, v, hu, hv, rfl⟩ := bind_bind_eq_ok_iff.1 h
    obtain ⟨-, rfl⟩ := writeMember_eq_ok_iff.1 hu
    have hlen := ih hv
    simp only [List.length_append, BigEndian.length_ofNat, List.length_cons, List.flatten_cons,
      Nat.mul_succ]
    omega

end Members

theorem Ranking.length_of_writeAll {z : List ScoredMember} {w : Bytes} (h : writeAll z = .ok w) :
    w.length = (8 + lengthWidth) * z.length + (z.map (·.member)).flatten.length := by
  induction z generalizing w with
  | nil =>
    cases h
    rfl
  | cons x z ih =>
    obtain ⟨u, v, hu, hv, rfl⟩ := writeAll_cons_eq_ok_iff.1 h
    obtain ⟨-, rfl⟩ := writeMember_eq_ok_iff.1 hu
    have hlen := ih hv
    simp only [List.length_append, BigEndian.length_ofNat, List.length_cons, List.map_cons,
      List.flatten_cons, Nat.mul_succ]
    omega

/-- The scores take eight bytes each. -/
theorem Members.Spells.le_length_flatten {l : List Bytes} {z : List ScoredMember} (h : Spells l z) :
    8 * l.length ≤ l.flatten.length := by
  obtain ⟨w, hl, hz⟩ := h.bytes
  have hlen := length_of_writeAll hl
  have hlen' := Ranking.length_of_writeAll hz
  rw [h.length, Nat.add_mul] at hlen'
  omega

/-! ## Commands on sorted sets -/

namespace SortedSet

variable {s : Store} {c : Call} {db : DbId} {key b : Bytes} {k : KeyCommand}

/-- The commands on sorted sets, as far as their arguments do not decide the answer. -/
inductive IsCommand : KeyCommand → Prop
  | zadd {score : Score} (x : Bytes) (h : score.isNaN = false) :
    IsCommand (.change (.zadd score x))
  | zrem (x : Bytes) : IsCommand (.change (.zrem x))
  | zrange (start stop : Int) : IsCommand (.query (.zrange start stop))
  | zrangeWithScores (start stop : Int) : IsCommand (.query (.zrangeWithScores start stop))
  | zcount {min max : Score} (h : max.lt min = false) : IsCommand (.query (.zcount min max))
  | zscore (x : Bytes) : IsCommand (.query (.zscore x))
  | zcard : IsCommand (.query .zcard)

theorem IsCommand.shortcut (h : IsCommand k) : k.shortcut = none := by
  cases h with
  | zadd x h => exact if_neg (by simp [h])
  | zcount h => exact if_neg (by simp [h])
  | _ => rfl

/-- The value is of another kind. A command that only reads may say that it is damaged instead. -/
inductive Mismatch (key : Bytes) : KeyCommand → Error → Prop
  | kind (k : KeyCommand) : Mismatch key k .wrongType
  | damage {k : KeyCommand} (h : k.IsRead) (why : String) : Mismatch key k (.damaged key why)

theorem read_eq_error (h : ∀ z, Ranking.decode b ≠ .ok z) (key : Bytes) :
    read .write key (some b) = .error .wrongType ∧
      ∃ e, read .read key (some b) = .error e ∧
        (e = .wrongType ∨ ∃ why, e = .damaged key why) := by
  simp only [read, Value.read]
  cases hd : Ranking.decode b with
  | ok z => exact absurd hd (h z)
  | error e =>
    refine ⟨rfl, _, rfl, ?_⟩
    cases e with
    | truncated needed available => exact .inr ⟨_, rfl⟩
    | _ => exact .inl rfl

/-- A command on sorted sets fails on any value that is not the record of a ranking. -/
theorem IsCommand.run_eq_error (hk : IsCommand k) (h : ∀ z, Ranking.decode b ≠ .ok z)
    (clock : Clock) : ∃ e, k.run key clock ⟨some b, none⟩ = .error e ∧ Mismatch key k e := by
  obtain ⟨hwrite, e, hread, he⟩ := read_eq_error h key
  have hsettle : (⟨some b, none⟩ : Slot).settle key clock.seconds = .ok ⟨some b, none⟩ :=
    Slot.settle_eq_live rfl key clock.seconds
  have hchange : ∀ ch : Change, ch.apply key (some b) = .error .wrongType →
      ∃ e, (KeyCommand.change ch).run key clock ⟨some b, none⟩ = .error e ∧
        Mismatch key (.change ch) e := fun ch hch =>
    ⟨_, by simp only [KeyCommand.run, hsettle, bind, Except.bind, hch], .kind _⟩
  have hquery : ∀ q : Query, q.answer key (some b) = .error e →
      ∃ e, (KeyCommand.query q).run key clock ⟨some b, none⟩ = .error e ∧
        Mismatch key (.query q) e := by
    refine fun q hq => ⟨e, by simp only [KeyCommand.run, hsettle, bind, Except.bind, hq], ?_⟩
    rcases he with rfl | ⟨why, rfl⟩
    · exact .kind _
    · exact .damage (by trivial) why
  cases hk with
  | zadd => exact hchange _ (by simp only [Change.apply, add, hwrite]; rfl)
  | zrem => exact hchange _ (by simp only [Change.apply, remove, hwrite]; rfl)
  | zrange | zrangeWithScores => exact hquery _ (by simp only [Query.answer, range, hread]; rfl)
  | zcount => exact hquery _ (by simp only [Query.answer, count, hread]; rfl)
  | zscore => exact hquery _ (by simp only [Query.answer, SortedSet.score, hread]; rfl)
  | zcard => exact hquery _ (by simp only [Query.answer, card, hread]; rfl)

/-- A command that fails leaves all keys as they are. -/
theorem answer_eq_error (hc : s.Admits c db key) (hslot : s.storage.slot db key = ⟨some b, none⟩)
    (hb : ∀ z, Ranking.decode b ≠ .ok z) (hk : IsCommand k) :
    ∃ e, s.answer c key k = .error e ∧ Mismatch key k e ∧ ∀ db' key',
      (s.perform c (.onKey key k)).store.storage.slot db' key' = s.storage.slot db' key' := by
  obtain ⟨e, hrun, he⟩ := hk.run_eq_error hb c.clock
  have hperform := hc.perform hk.shortcut
  rw [hslot, hrun] at hperform
  rw [Store.answer, hperform]
  exact ⟨e, rfl, he, fun db' key' => Storage.slot_addTable _ _ _ _⟩

end SortedSet

namespace Sequence

variable {s : Store} {db : DbId} {key : Bytes} {now : Nat} {reqs : List (Call × Command)}

/-- **A list is taken for a sorted set only if it spells one.** A key holds nothing, or nothing that
has not expired. Whatever is asked of the store from then on, as long as only changes of lists are
made to the key, if these leave a list that is not empty and spells no ranking, then every command
on sorted sets says that the value is of another kind, and leaves it as it is. This is so of every
list with fewer than eight bytes for each member. A ranking that the list does spell is what is
found in its place. -/
theorem wrong_type_unless_spelled (hreadable : (s.storage.slot db key).isMalformed = false)
    (habsent : (s.storage.slot db key).live now = .empty)
    (htame : ∀ q ∈ reqs, Store.Tame db key q.1 q.2)
    (htime : ∀ q ∈ reqs, now ≤ q.1.clock.seconds)
    (hchanges : ∀ ch ∈ s.history db key reqs, IsChange ch)
    (hsize : ∀ h, h <+: s.history db key reqs → (kind.after [] h).length ≤ Position.longest)
    (hne : kind.after [] (s.history db key reqs) ≠ []) :
    let t := s.serve reqs
    let l := kind.after [] (s.history db key reqs)
    (l.flatten.length < 8 * l.length → ∀ z, ¬ Members.Spells l z) ∧
    (∃ b, Members.encode l = .ok b ∧ t.storage.slot db key = ⟨some b, none⟩) ∧
    ∀ c, s.Admits c db key →
      ((∀ z, ¬ Members.Spells l z) → ∀ k, SortedSet.IsCommand k →
        ∃ e, t.answer c key k = .error e ∧ SortedSet.Mismatch key k e ∧ ∀ db' key',
          (t.perform c (.onKey key k)).store.storage.slot db' key' = t.storage.slot db' key') ∧
      ∀ z, Members.Spells l z →
        t.answer c key (.query (.zrangeWithScores 0 (-1))) = .ok (.ranked z) := by
  intro t l
  have hkeeps : kind.Keeps s db key now none [] reqs :=
    ⟨Slot.steady_of_live hreadable habsent, rfl, htame, htime, hchanges, hsize⟩
  obtain ⟨b, ⟨-, hl⟩, hslot⟩ : ∃ b, Value.Holds Members.decode l (some b) ∧
      t.storage.slot db key = ⟨some b, none⟩ := by
    obtain ⟨value, hvalue, hserve⟩ := hkeeps.serve
    cases value with
    | none => exact absurd hvalue hne
    | some b => exact ⟨b, hvalue, hserve.eq_of_some⟩
  refine ⟨fun hsum z hz => Nat.not_le.2 hsum hz.le_length_flatten,
    ⟨b, (Members.decode_eq_ok_iff (Members.length_lt_of_decode hl)).1 hl, hslot⟩,
    fun c hc => ⟨fun hz k hk => ?_, fun z hz => ?_⟩⟩
  · exact SortedSet.answer_eq_error (hkeeps.admits hc) hslot
      (fun z hd => hz z ((Members.spells_iff hl).2 hd)) hk
  · have hz' : Value.Holds Ranking.decode z (some b) := by
      refine ⟨?_, (Members.spells_iff hl).1 hz⟩
      rintro rfl
      exact hne (List.length_eq_zero_iff.1 hz.length.symm)
    have hlen : z.length ≤ Position.longest := hz.length ▸ hsize _ (List.prefix_refl _)
    have hquery := (hkeeps.admits hc).answer_query (q := .zrangeWithScores 0 (-1)) (Nat.zero_le _)
      (hslot ▸ Slot.steady_of_deadline 0 (some b)) rfl nofun
    rw [hquery, Query.answer, SortedSet.range_of_holds hz' hlen, Position.between_all]
    rfl

/-- A list of two short members is neither changed nor counted as a sorted set. -/
theorem wrong_type_unless_spelled_short :
    let key : Bytes := [107]
    let one : Score := ⟨0x3ff0000000000000⟩
    let s : Store := .fresh {} .empty
    let c : Call := .alone 0 ⟨1000, 0⟩ .none
    let reqs : List (Call × Command) := [
      (c, .onKey key (.change (.rpush [97]))),
      (c, .onKey key (.query .llen)),
      (c, .onKey key (.change (.sadd [98])))]
    let t := s.serve reqs
    kind.after [] (s.history 0 key reqs) = [[97], [98]] ∧
      t.answer c key (.change (.zadd one [97])) = .error .wrongType ∧
      ∃ e, t.answer c key (.query .zcard) = .error e ∧
        SortedSet.Mismatch key (.query .zcard) e := by
  intro key one s c reqs t
  have hhistory : s.history 0 key reqs = [.rpush [97], .sadd [98]] := by rfl
  have hafter : kind.after [] (s.history 0 key reqs) = [[97], [98]] := by
    rw [hhistory]
    rfl
  have htame : ∀ q ∈ reqs, Store.Tame 0 key q.1 q.2 := by
    simp only [reqs, List.forall_mem_cons]
    exact ⟨.change _ rfl, .read _ trivial, .change _ rfl, List.forall_mem_nil _⟩
  have hchanges : ∀ ch ∈ s.history 0 key reqs, IsChange ch := by
    rw [hhistory]
    simp only [List.forall_mem_cons]
    exact ⟨.rpush _, .sadd _, List.forall_mem_nil _⟩
  have hlen : kind.size [] + (s.history 0 key reqs).length ≤ Position.longest := by
    rw [hhistory]
    show 0 + 2 ≤ 2 ^ 63 - 1
    omega
  have habsent : (s.storage.slot 0 key).live 0 = .empty := rfl
  have hne : kind.after [] (s.history 0 key reqs) ≠ [] := by
    rw [hafter]
    exact List.cons_ne_nil _ _
  obtain ⟨hshort, -, h⟩ := wrong_type_unless_spelled rfl habsent htame (fun _ _ => Nat.zero_le _)
    hchanges (kind.size_of_length hlen) hne
  rw [hafter] at hshort h
  obtain ⟨hfail, -⟩ := h c ⟨rfl, rfl, by rfl, rfl⟩
  have hone : one.isNaN = false := by decide
  obtain ⟨e, hadd, he, -⟩ := hfail (hshort (by decide)) _ (.zadd [97] hone)
  obtain ⟨e', hcard, he', -⟩ := hfail (hshort (by decide)) _ .zcard
  refine ⟨hafter, ?_, e', hcard, he'⟩
  cases he with
  | kind => exact hadd
  | damage h => cases h

/-- A list of eight zero bytes spells a sorted set with the empty member, to which a further member
is added: what is stored then is no list. -/
theorem taken_for_sorted_set_zeros :
    let key : Bytes := [107]
    let zeros : Bytes := List.replicate 8 0
    let one : Score := ⟨0x3ff0000000000000⟩
    let s : Store := .fresh {} .empty
    let c : Call := .alone 0 ⟨1000, 0⟩ .none
    let reqs : List (Call × Command) := [(c, .onKey key (.change (.lpush zeros)))]
    let t := s.serve reqs
    let u := (t.perform c (.onKey key (.change (.zadd one [97])))).store
    s.storage.slot 0 key = .empty ∧
      kind.after [] (s.history 0 key reqs) = [zeros] ∧
      t.answer c key (.query (.lrange 0 (-1))) = .ok (.members [zeros]) ∧
      t.answer c key (.change (.zadd one [97])) = .ok (.flag true) ∧
      u.storage.slot 0 key ≠ t.storage.slot 0 key ∧
      u.answer c key (.change .lpop) = .error .wrongType := by
  exact ⟨by rfl, by rfl, by rfl, by rfl, by decide, by rfl⟩

end Sequence

end Keyspace
