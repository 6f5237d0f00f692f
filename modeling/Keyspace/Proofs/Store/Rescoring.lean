import Keyspace.Proofs.Record.RoundTrip
import Keyspace.Proofs.Record.Upsert
import Keyspace.Proofs.Store.Requests
import Keyspace.Store.Opening
import Mathlib.Algebra.Group.Nat.Defs

/-!
# Giving a member of a stored ranking a score

Reading a ranking asks for increasing elements, but not for distinct members. A record with a
member twice counts as a ranking, and giving this member a score can spoil it: `Store.rescored_iff`
says that `zadd` does what it is for (`Store.Rescored`) exactly if the new score comes before all
other scores of the member (`Ranking.Precedes`), which are those that it does not replace. Where
members are distinct there are none (`Store.rescored_of_nodup`).
-/

namespace Keyspace

/-! ## Sorted sets by their rankings -/

namespace SortedSet

variable {b : Bytes} {l : List ScoredMember}

theorem score_of_decode (h : Ranking.decode b = .ok l) (key m : Bytes) :
    Query.answer key (some b) (.zscore m) =
      .ok (.score? ((l.find? (·.member = m)).map (·.score))) := by
  simp only [Query.answer, score, read, Value.read, h]
  rfl

theorem card_of_decode (h : Ranking.decode b = .ok l) (key : Bytes) :
    Query.answer key (some b) .zcard = .ok (.count l.length) := by
  simp only [Query.answer, card, read, Value.read, h]
  rfl

theorem range_of_decode (h : Ranking.decode b = .ok l) (key : Bytes) (start stop : Int) :
    Query.answer key (some b) (.zrangeWithScores start stop) =
      .ok (.ranked (Position.slice l start stop)) := by
  simp only [Query.answer, range, read, Value.read, h]
  rfl

theorem count_of_decode (h : Ranking.decode b = .ok l) (key : Bytes) (min max : Score) :
    Query.answer key (some b) (.zcount min max) =
      .ok (.count (l.countP fun x => min.le x.score && x.score.le max)) := by
  simp only [Query.answer, count, read, Value.read, h]
  rfl

/-- What giving a member a score writes, if it succeeds. -/
theorem add_eq_ok {score : Score} {m key : Bytes} {isNew : Bool} {w : Write}
    (h : Ranking.decode b = .ok l) (hadd : add score m key (some b) = .ok (isNew, w)) :
    isNew = (Ranking.upsert score m l).1 ∧
      ∃ b', Ranking.encode (Ranking.upsert score m l).2 = .ok b' ∧ w = .put b' := by
  simp only [add, read, Value.read, h] at hadd
  obtain ⟨o, ho, hadd⟩ := bind_eq_ok_iff.1 hadd
  obtain rfl := Except.ok.inj ho
  obtain ⟨w', hput, hw⟩ := bind_eq_ok_iff.1 hadd
  obtain ⟨rfl, rfl⟩ := Prod.mk.inj (Except.ok.inj hw)
  refine ⟨rfl, ?_⟩
  unfold Value.put at hput
  split at hput
  · rename_i b' hb'
    exact ⟨b', hb', (Except.ok.inj hput).symm⟩
  · cases hput

end SortedSet

/-- A record of a ranking can be read after an upsert if the list does not have the new element in
another place, and the count can say how many there are. -/
theorem Ranking.decode_upsert_iff {score : Score} {m b b' : Bytes} {l : List ScoredMember}
    (h : decode b = .ok l) (hscore : score.isNaN = false)
    (h' : encode (upsert score m l).2 = .ok b') :
    (∃ l', decode b' = .ok l') ↔
      (upsert score m l).2.length < 2 ^ 64 ∧ ⟨score, m⟩ ∉ others m l := by
  obtain ⟨-, -, hnum, hchain⟩ := decode_eq_ok_iff.1 h
  have hnum' : ∀ x ∈ (upsert score m l).2, x.score.isNaN = false := by
    intro x hx
    rcases List.mem_cons.1 ((perm_upsert score m).mem_iff.1 hx) with rfl | hx
    · exact hscore
    · exact hnum x (List.mem_of_mem_eraseP hx)
  rw [← isChain_upsert_iff score m hchain]
  constructor
  · rintro ⟨l', hl'⟩
    obtain ⟨hlen, hl', -, hchain'⟩ := decode_eq_ok_iff.1 hl'
    obtain rfl := encode_inj h' hl'
    exact ⟨hlen, hchain'⟩
  · rintro ⟨hlen, hchain'⟩
    exact ⟨_, decode_eq_ok_iff.2 ⟨hlen, h', hnum', hchain'⟩⟩

namespace Store

open Ranking

/-! ## Rescoring -/

/-- The command that gives a member a score. -/
abbrev zadd (key : Bytes) (score : Score) (m : Bytes) : Command :=
  .onKey key (.change (.zadd score m))

/-- The question for the score of a member. -/
abbrev zscore (key m : Bytes) : Command := .onKey key (.query (.zscore m))

/-- The question for the number of members. -/
abbrev zcard (key : Bytes) : Command := .onKey key (.query .zcard)

/-- Between the two stores a member was given its score, as the reply says: the record can be read,
and calls that reach the key see the score of this member, one member more if it is new, and the
scores of all other members as before. -/
structure Rescored (s t : Store) (db : DbId) (key : Bytes) (score : Score) (m : Bytes)
    (r : Reply) : Prop where
  readable : ∃ b l, (t.storage.slot db key).value = some b ∧ decode b = .ok l
  self : ∀ c, c.db = db → t.Reaches c key →
    (t.perform c (zscore key m)).answer = .ok (.score score)
  card : ∀ c, c.db = db → t.Reaches c key → ∃ n,
    (s.perform c (zcard key)).answer = .ok (.count n) ∧
      (t.perform c (zcard key)).answer = .ok (.count (if r = .flag true then n + 1 else n))
  others : ∀ c m', c.db = db → t.Reaches c key → m' ≠ m →
    (t.perform c (zscore key m')).answer = (s.perform c (zscore key m')).answer

variable {s : Store} {c : Call} {key b m : Bytes} {score : Score} {l : List ScoredMember}
  {r : Reply}

/-- Only numbers are taken for scores. -/
theorem not_isNaN_of_ok (hok : (s.perform c (zadd key score m)).answer = .ok r) :
    score.isNaN = false := by
  cases hnan : score.isNaN with
  | false => rfl
  | true =>
    simp only [perform, performOnKey] at hok
    split at hok
    · simp [KeyCommand.refuse] at hok
    · simp [KeyCommand.shortcut, hnan] at hok

theorem Reaches.zscore_eq (h : s.Reaches c key)
    (hvalue : (s.storage.slot c.db key).value = some b) (hread : decode b = .ok l) (m : Bytes) :
    (s.perform c (zscore key m)).answer =
      .ok (.score? ((l.find? (·.member = m)).map (·.score))) := by
  have hanswer := h.answer_query (q := .zscore m) rfl nofun
  rw [hanswer, hvalue, SortedSet.score_of_decode hread]

theorem Reaches.zcard_eq (h : s.Reaches c key)
    (hvalue : (s.storage.slot c.db key).value = some b) (hread : decode b = .ok l) :
    (s.perform c (zcard key)).answer = .ok (.count l.length) := by
  have hanswer := h.answer_query (q := .zcard) rfl nofun
  rw [hanswer, hvalue, SortedSet.card_of_decode hread]

/-- What was stored, and what is stored when a member of a ranking has been given a score. -/
theorem zadd_of_ok (hvalue : ((s.storage.slot c.db key).live c.clock.seconds).value = some b)
    (hread : decode b = .ok l) (hok : (s.perform c (zadd key score m)).answer = .ok r) :
    r = .flag (upsert score m l).1 ∧ s.Reaches (.alone c.db c.clock .none) key ∧
      (s.storage.slot c.db key).value = some b ∧
      ∃ b', encode (upsert score m l).2 = .ok b' ∧
        (s.perform c (zadd key score m)).store.storage.slot c.db key =
          { s.storage.slot c.db key with value := some b' } := by
  rcases onKey_of_ok hok with ⟨-, hk | hk⟩ | ⟨t, hgate, hkey, hrun, hstore⟩
  · cases hk
  · simp [KeyCommand.shortcut, not_isNaN_of_ok hok] at hk
  · obtain ⟨hmalformed, w, happly, rfl⟩ := KeyCommand.write_of_change hrun
    obtain ⟨⟨isNew, w'⟩, hadd, hr⟩ := map_eq_ok_iff.1 happly
    obtain ⟨rfl, rfl⟩ := Prod.mk.inj hr
    rw [hvalue] at hadd
    obtain ⟨rfl, b', hb', rfl⟩ := SortedSet.add_eq_ok hread hadd
    have hexpired : (s.storage.slot c.db key).isExpired c.clock.seconds = false := by
      cases hexp : (s.storage.slot c.db key).isExpired c.clock.seconds with
      | false => rfl
      | true =>
        rw [Slot.live_of_isExpired hexp] at hvalue
        cases hvalue
    rw [Slot.live_of_not_isExpired hexpired] at hvalue hstore
    refine ⟨rfl, ⟨hkey, refusal_alone hgate _ _, rfl, hmalformed, hexpired⟩, hvalue, b', hb', ?_⟩
    rw [hstore, Storage.slot_setSlot_self]
    rfl

/-- Whose score is found is the member. -/
theorem find?_eq_of_score {l : List ScoredMember}
    (h : Reply.score? ((l.find? (·.member = m)).map (·.score)) = .score score) :
    l.find? (·.member = m) = some ⟨score, m⟩ := by
  cases hx : l.find? (·.member = m) with
  | none =>
    rw [hx] at h
    cases h
  | some x =>
    rw [hx] at h
    obtain ⟨score', member⟩ := x
    obtain rfl : score' = score := Reply.score.inj h
    obtain rfl : member = m := by simpa using List.find?_some hx
    rfl

section Zadd

variable (hvalue : ((s.storage.slot c.db key).live c.clock.seconds).value = some b)
  (hread : decode b = .ok l) (hok : (s.perform c (zadd key score m)).answer = .ok r)

include hvalue hread hok

theorem reaches_zadd_iff {c' : Call} (hdb : c'.db = c.db) :
    (s.perform c (zadd key score m)).store.Reaches c' key ↔ s.Reaches c' key := by
  obtain ⟨-, -, -, b', -, hslot⟩ := zadd_of_ok hvalue hread hok
  refine reaches_perform_iff nofun ?_
  rw [hdb, hslot]

/-- A member has the score that it was given, and all else is as it should be, if this score comes
before all other scores of the member. -/
theorem rescored_of_precedes (hcount : (upsert score m l).2.length < 2 ^ 64)
    (hfirst : Precedes score m l) :
    Rescored s (s.perform c (zadd key score m)).store c.db key score m r := by
  obtain ⟨rfl, -, hold, b', hb', hslot⟩ := zadd_of_ok hvalue hread hok
  obtain ⟨hnot, hmin⟩ := (precedes_iff score m).1 hfirst
  have hsorted := (isChain_iff.1 (decode_eq_ok_iff.1 hread).2.2.2).1
  have hnew : ((s.perform c (zadd key score m)).store.storage.slot c.db key).value = some b' := by
    rw [hslot]
  have hread' : decode b' = .ok (upsert score m l).2 := by
    obtain ⟨l', hl'⟩ := (decode_upsert_iff hread (not_isNaN_of_ok hok) hb').2 ⟨hcount, hnot⟩
    rw [encode_inj hb' (decode_eq_ok_iff.1 hl').2.1, hl']
  refine ⟨⟨b', _, hnew, hread'⟩, fun c' hdb hc' => ?_, fun c' hdb hc' => ?_,
    fun c' m' hdb hc' hne => ?_⟩
  all_goals rw [← hdb] at hnew hold
  · rw [hc'.zscore_eq hnew hread', (find?_upsert_self_iff score m).2 hmin]
    rfl
  · have hs := (reaches_zadd_iff hvalue hread hok hdb).1 hc'
    refine ⟨l.length, hs.zcard_eq hold hread, ?_⟩
    rw [hc'.zcard_eq hnew hread', length_upsert]
    simp only [Reply.flag.injEq]
  · have hs := (reaches_zadd_iff hvalue hread hok hdb).1 hc'
    rw [hc'.zscore_eq hnew hread', hs.zscore_eq hold hread, find?_upsert_of_ne score m hsorted hne]

/-- With distinct members there are no other scores. -/
theorem rescored_of_nodup (hcount : l.length + 1 < 2 ^ 64) (hdistinct : (l.map (·.member)).Nodup) :
    Rescored s (s.perform c (zadd key score m)).store c.db key score m r := by
  refine rescored_of_precedes hvalue hread hok ?_ (precedes_of_nodup score m hdistinct)
  rw [length_upsert]
  split <;> omega

/-- If a member has the score that it was given, and the record reads back, then the new score comes
before all other scores of the member. -/
theorem precedes_of_rescored
    (h : Rescored s (s.perform c (zadd key score m)).store c.db key score m r) :
    (upsert score m l).2.length < 2 ^ 64 ∧ Precedes score m l := by
  obtain ⟨-, hreach, -, b', hb', hslot⟩ := zadd_of_ok hvalue hread hok
  have hnew : ((s.perform c (zadd key score m)).store.storage.slot c.db key).value = some b' := by
    rw [hslot]
  obtain ⟨b'', l', hb'', hl'⟩ := h.readable
  obtain rfl := Option.some.inj (hnew.symm.trans hb'')
  obtain rfl := encode_inj hb' (decode_eq_ok_iff.1 hl').2.1
  obtain ⟨hcount, hnot⟩ := (decode_upsert_iff hread (not_isNaN_of_ok hok) hb').1 ⟨_, hl'⟩
  have hdb : (Call.alone c.db c.clock .none).db = c.db := rfl
  have hreach' := (reaches_zadd_iff hvalue hread hok hdb).2 hreach
  have hself := h.self _ hdb hreach'
  rw [hreach'.zscore_eq hnew hl'] at hself
  have hfound := find?_eq_of_score (Except.ok.inj hself)
  exact ⟨hcount, (precedes_iff score m).2 ⟨hnot, (find?_upsert_self_iff score m).1 hfound⟩⟩

/-- **When a member gets the score that it was given.** After a success the record of the ranking
reads back, the member has the new score, and all else is as it should be, exactly if the new score
comes before all other scores of the member, and the count can say how many elements there are. -/
theorem rescored_iff :
    Rescored s (s.perform c (zadd key score m)).store c.db key score m r ↔
      (upsert score m l).2.length < 2 ^ 64 ∧ Precedes score m l :=
  ⟨precedes_of_rescored hvalue hread hok,
    fun h => rescored_of_precedes hvalue hread hok h.1 h.2⟩

end Zadd

end Store

/-! ## Distinct members, and a member twice -/

/-- The number one. -/
def Score.one : Score := ⟨0x3ff0000000000000⟩

/-- The number two. -/
def Score.two : Score := ⟨0x4000000000000000⟩

/-- The number five. -/
def Score.five : Score := ⟨0x4014000000000000⟩

namespace Store

open Ranking

/-- A store with a record under the key `z` of database 0. -/
def holding (b : Bytes) : Store := .fresh {} (Storage.empty.setSlot 0 [122] ⟨some b, none⟩)

/-- The record of `a` by one and of another member by two. -/
def pairRecord (other : UInt8) : Bytes :=
  [0, 0, 0, 0, 0, 0, 0, 2,
    0x3f, 0xf0, 0, 0, 0, 0, 0, 0, 0, 0, 0, 1, 97,
    0x40, 0, 0, 0, 0, 0, 0, 0, 0, 0, 0, 1, other]

/-- The first of two members gets a score that puts it last. -/
theorem rescored_iff_distinct :
    let c : Call := .alone 0 ⟨1000, 0⟩ .none
    let s := holding (pairRecord 98)
    decode (pairRecord 98) = .ok [⟨.one, [97]⟩, ⟨.two, [98]⟩] ∧
      (s.perform c (zadd [122] .five [97])).answer = .ok (.flag false) ∧
      Rescored s (s.perform c (zadd [122] .five [97])).store 0 [122] .five [97] (.flag false) := by
  intro c s
  have hvalue : ((s.storage.slot c.db [122]).live c.clock.seconds).value =
      some (pairRecord 98) := by decide +kernel
  have hread : decode (pairRecord 98) = .ok [⟨.one, [97]⟩, ⟨.two, [98]⟩] := by decide +kernel
  have hok : (s.perform c (zadd [122] .five [97])).answer = .ok (.flag false) := by decide +kernel
  exact ⟨hread, hok, (rescored_iff hvalue hread hok).2 ⟨by decide, by decide⟩⟩

/-- A member that is there by one and by two gets the score two: the record cannot be read any more.
When it gets the score five, it keeps the score two. -/
theorem rescored_iff_repeated :
    let c : Call := .alone 0 ⟨1000, 0⟩ .none
    let s := holding (pairRecord 97)
    decode (pairRecord 97) = .ok [⟨.one, [97]⟩, ⟨.two, [97]⟩] ∧
      (s.perform c (zadd [122] .two [97])).answer = .ok (.flag false) ∧
      ((s.perform c (zadd [122] .two [97])).store.perform c (zscore [122] [97])).answer =
        .error .wrongType ∧
      (s.perform c (zadd [122] .five [97])).answer = .ok (.flag false) ∧
      ((s.perform c (zadd [122] .five [97])).store.perform c (zscore [122] [97])).answer =
        .ok (.score .two) := by
  intro c s
  refine ⟨?_, ?_, ?_, ?_, ?_⟩
  all_goals decide +kernel

end Store

end Keyspace
