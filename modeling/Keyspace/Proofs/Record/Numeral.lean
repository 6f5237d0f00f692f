import Keyspace.Record.Counter
import Mathlib.Data.List.Basic
import Mathlib.Data.Nat.Digits.Defs
import Mathlib.Data.Set.List

/-!
# The texts that are counters

A `Numeral` is one or more ASCII digits after at most one sign; its value is the number that has
these digits in base ten. `decode_accepts_numerals` says that exactly the numerals whose value a
counter can hold are read, and with this value.

A run of digits writes its number however many zeros come first (`Decimal.toNat_map_digit`), and the
width that a reader allows excludes no counter (`digits?_of_spells`). All bytes of a numeral are
digits but for the sign in front (`Numeral.isDigit_or`), so it is a text of ASCII characters
(`Numeral.toString?_ne_none`).
-/

namespace Keyspace

namespace Decimal

/-- The ASCII digit of a number below ten. -/
def digit (d : Fin 10) : UInt8 := UInt8.ofNat (48 + d)

/-- The bytes are one or more digits, which are those of `k` in base ten after any number of
zeros. -/
def Spells (b : Bytes) (k : Nat) : Prop :=
  ∃ ds : List (Fin 10), ds ≠ [] ∧ ds.map digit = b ∧ Nat.ofDigits 10 (ds.reverse.map Fin.val) = k

theorem toNat_digit (d : Fin 10) : (digit d).toNat = 48 + d := by
  rw [digit, UInt8.toNat_ofNat', Nat.mod_eq_of_lt (by omega)]

theorem isDigit_iff_exists {x : UInt8} : IsDigit x ↔ ∃ d, digit d = x := by
  simp only [IsDigit, UInt8.le_iff_toNat_le, UInt8.reduceToNat]
  constructor
  · rintro ⟨hle, hge⟩
    refine ⟨⟨x.toNat - 48, by omega⟩, UInt8.toNat_inj.1 ?_⟩
    rw [toNat_digit]
    exact Nat.add_sub_cancel' hle
  · rintro ⟨d, rfl⟩
    rw [toNat_digit]
    omega

/-- A run of digits writes the number that has them in base ten. -/
theorem toNat_map_digit (ds : List (Fin 10)) :
    toNat (ds.map digit) = Nat.ofDigits 10 (ds.reverse.map Fin.val) := by
  induction ds with
  | nil => rfl
  | cons d ds ih =>
    rw [List.map_cons, toNat_cons, toNat_digit, ih, List.reverse_cons, List.map_append,
      Nat.ofDigits_append, List.map_singleton, Nat.ofDigits_singleton, List.length_map,
      List.length_map, List.length_reverse, Nat.add_sub_cancel_left, Nat.add_comm, Nat.mul_comm]

theorem spells_iff {b : Bytes} {k : Nat} :
    Spells b k ↔ b ≠ [] ∧ (∀ x ∈ b, IsDigit x) ∧ toNat b = k := by
  constructor
  · rintro ⟨ds, hne, rfl, rfl⟩
    refine ⟨fun h => hne (List.map_eq_nil_iff.1 h), fun x hx => ?_, toNat_map_digit ds⟩
    obtain ⟨d, -, hd⟩ := List.mem_map.1 hx
    exact isDigit_iff_exists.2 ⟨d, hd⟩
  · rintro ⟨hne, hdigits, rfl⟩
    obtain ⟨ds, rfl⟩ : b ∈ Set.range (List.map digit) := by
      rw [Set.range_list_map]
      exact fun x hx => isDigit_iff_exists.1 (hdigits x hx)
    exact ⟨ds, fun h => hne (congrArg (List.map digit) h), rfl, (toNat_map_digit ds).symm⟩

namespace Spells

variable {b : Bytes} {j k : Nat}

theorem isDigit (h : Spells b k) {x : UInt8} (hx : x ∈ b) : IsDigit x := (spells_iff.1 h).2.1 x hx

theorem eq (h : Spells b j) (h' : Spells b k) : j = k :=
  (spells_iff.1 h).2.2.symm.trans (spells_iff.1 h').2.2

end Spells

end Decimal

namespace Bytes

theorem utf8EncodeChar_ofUInt8 {x : UInt8} (h : x.toNat < 128) :
    String.utf8EncodeChar (Char.ofUInt8 x) = [x] := by
  have hsize : (Char.ofUInt8 x).utf8Size = 1 := by
    rw [Char.utf8Size_eq_one_iff, UInt32.le_iff_toNat_le]
    exact Nat.le_of_lt_succ h
  rw [String.utf8EncodeChar_eq_singleton hsize]
  exact congrArg (fun x => [x]) (UInt8.toUInt8_toUInt32 x)

/-- ASCII characters spell a text. -/
theorem toString?_ne_none {b : Bytes} (h : ∀ x ∈ b, x.toNat < 128) : b.toString? ≠ none := by
  have hvalid : ByteArray.IsValidUTF8 ⟨b.toArray⟩ := by
    refine ⟨b.map Char.ofUInt8, ByteArray.ext ?_⟩
    rw [List.utf8Encode, List.data_toByteArray, List.flatMap_map,
      List.flatMap_congr fun x hx => utf8EncodeChar_ofUInt8 (h x hx), List.flatMap_singleton']
  rw [toString?, String.fromUTF8?, dif_pos hvalid]
  exact Option.some_ne_none _

end Bytes

namespace Counter

open Decimal

/-! ## Numerals -/

/-- The text is a numeral, and this is its value. -/
inductive Numeral : Bytes → Int → Prop
  | unsigned {b : Bytes} {k : Nat} (h : Spells b k) : Numeral b k
  | plus {b : Bytes} {k : Nat} (h : Spells b k) : Numeral (43 :: b) k
  | minus {b : Bytes} {k : Nat} (h : Spells b k) : Numeral (45 :: b) (-k)

/-- Digits are read as the number that has them, if a counter is as wide. -/
theorem digits?_eq_some_iff_spells {b : Bytes} {k : Nat} :
    digits? b = some k ↔ Spells b k ∧ k < 10 ^ width := by
  rw [digits?_eq_some_iff, spells_iff]
  simp only [and_assoc]

theorem digits?_of_spells {b : Bytes} {k : Nat} {n : Int} (h : Spells b k) (hk : n.natAbs = k)
    (hn : Fits n) : digits? b = some k :=
  digits?_eq_some_iff_spells.2 ⟨h, hk ▸ natAbs_lt hn.1 hn.2⟩

namespace Numeral

variable {b : Bytes} {n : Int}

theorem of_decode (h : decode b = some n) : Numeral b n ∧ Fits n := by
  unfold decode at h
  split at h
  all_goals
    obtain ⟨k, hk, hfit⟩ := Option.bind_eq_some_iff.1 h
    obtain ⟨rfl, hn⟩ := fit?_eq_some_iff.1 hfit
    obtain ⟨hspells, -⟩ := digits?_eq_some_iff_spells.1 hk
    refine ⟨?_, hn⟩
  · exact .minus hspells
  · exact .plus hspells
  · exact .unsigned hspells

theorem decode (h : Numeral b n) (hn : Fits n) : Counter.decode b = some n := by
  cases h with
  | @unsigned b k h =>
    rw [decode_of_isDigit fun x hx => h.isDigit hx, digits?_of_spells h (Int.natAbs_natCast k) hn]
    exact fit?_eq_some_iff.2 ⟨rfl, hn⟩
  | @plus b k h =>
    rw [Counter.decode, digits?_of_spells h (Int.natAbs_natCast k) hn]
    exact fit?_eq_some_iff.2 ⟨rfl, hn⟩
  | @minus b k h =>
    rw [Counter.decode, digits?_of_spells h (by omega) hn]
    exact fit?_eq_some_iff.2 ⟨rfl, hn⟩

theorem encode (hn : Fits n) : Numeral (encode n) n :=
  (of_decode (decode_encode hn.1 hn.2)).1

/-- A sign stands in front, and all else are digits. -/
theorem isDigit_or {p r : Bytes} {x : UInt8} (h : Numeral (p ++ x :: r) n) :
    IsDigit x ∨ p = [] ∧ (x = 43 ∨ x = 45) := by
  generalize hb : p ++ x :: r = b at h
  have hmem : x ∈ p ++ x :: r := List.mem_append_right p List.mem_cons_self
  cases h with
  | unsigned h => exact .inl (h.isDigit (hb ▸ hmem))
  | plus h | minus h =>
    cases p with
    | nil =>
      obtain ⟨rfl, -⟩ := List.cons.inj hb
      exact .inr ⟨rfl, by decide⟩
    | cons y p =>
      obtain ⟨-, rfl⟩ := List.cons.inj hb
      exact .inl (h.isDigit (List.mem_append_right p List.mem_cons_self))

/-- A numeral is a text of ASCII characters. -/
theorem toString?_ne_none (h : Numeral b n) : b.toString? ≠ none := by
  refine Bytes.toString?_ne_none fun x hx => ?_
  obtain ⟨p, r, rfl⟩ := List.append_of_mem hx
  rcases h.isDigit_or with ⟨-, hle⟩ | ⟨-, rfl | rfl⟩
  · have hle' : x.toNat ≤ 57 := UInt8.le_iff_toNat_le.1 hle
    omega
  · decide
  · decide

/-- A numeral has one value. -/
theorem eq {m : Int} (h : Numeral b m) (h' : Numeral b n) : m = n := by
  cases h with
  | unsigned h =>
    cases h' with
    | unsigned h' => rw [h.eq h']
    | plus | minus => exact absurd (h.isDigit List.mem_cons_self) (by decide)
  | plus h =>
    cases h' with
    | unsigned h' => exact absurd (h'.isDigit List.mem_cons_self) (by decide)
    | plus h' => rw [h.eq h']
  | minus h =>
    cases h' with
    | unsigned h' => exact absurd (h'.isDigit List.mem_cons_self) (by decide)
    | minus h' => rw [h.eq h']

end Numeral

variable {b : Bytes} {n : Int}

theorem decode_eq_some_iff : decode b = some n ↔ Numeral b n ∧ Fits n :=
  ⟨Numeral.of_decode, fun h => h.1.decode h.2⟩

theorem decode_eq_none (h : ∀ n, Numeral b n → ¬ Fits n) : decode b = none := by
  cases hb : decode b with
  | none => rfl
  | some n =>
    obtain ⟨hnum, hn⟩ := Numeral.of_decode hb
    exact absurd hn (h n hnum)

/-- **Exactly the numerals within the range are counters.** A text is read as a number if and only
if it is a numeral with this value, which a counter can hold; so every number of the range is read
from its text. Nothing is read from the empty text, from a sign alone, from a text with a byte in it
that is no digit, signs in front apart, from bytes that spell no text, and from a numeral whose
value is out of the range. -/
theorem decode_accepts_numerals :
    (∀ (b : Bytes) (n : Int), decode b = some n ↔ Numeral b n ∧ Fits n) ∧
    (∀ n : Int, Fits n → Numeral (encode n) n ∧ decode (encode n) = some n) ∧
    decode [] = none ∧ decode [43] = none ∧ decode [45] = none ∧
    (∀ (p r : Bytes) (x : UInt8), ¬ IsDigit x → (p = [] → x ≠ 43 ∧ x ≠ 45) →
      decode (p ++ x :: r) = none) ∧
    (∀ b : Bytes, b.toString? = none → decode b = none) ∧
    ∀ (b : Bytes) (n : Int), Numeral b n → ¬ Fits n → decode b = none := by
  refine ⟨fun b n => decode_eq_some_iff, fun n hn => ⟨.encode hn, decode_encode hn.1 hn.2⟩,
    rfl, rfl, rfl, fun p r x hx hsign => ?_, fun b hb => ?_, fun b n hnum hn => ?_⟩
  · refine decode_eq_none fun n hnum => ?_
    rcases hnum.isDigit_or with hdigit | ⟨hp, rfl | rfl⟩
    · exact absurd hdigit hx
    · exact absurd rfl (hsign hp).1
    · exact absurd rfl (hsign hp).2
  · exact decode_eq_none fun n hnum => absurd hb hnum.toString?_ne_none
  · exact decode_eq_none fun m hm => hm.eq hnum ▸ hn

/-- A signed text with zeros in front, the least counter and the number below it, a space, a sign
behind a sign, and a byte that begins no character. -/
theorem decode_accepts_numerals_signed :
    decode [43, 48, 48, 55] = some 7 ∧
      decode (45 :: Decimal.ofNat (2 ^ 63)) = some least ∧
      decode (45 :: Decimal.ofNat (2 ^ 63 + 1)) = none ∧
      decode [55, 32] = none ∧ decode [45, 43, 55] = none ∧ decode [255] = none := by
  have hspells : ∀ k, Spells (Decimal.ofNat k) k := fun k =>
    spells_iff.2 ⟨ofNat_ne_nil k, fun _ => isDigit_of_mem_ofNat, toNat_ofNat k⟩
  obtain ⟨hiff, -, -, -, -, hbyte, htext, hrange⟩ := decode_accepts_numerals
  refine ⟨(hiff _ _).2 ⟨.plus ⟨[0, 0, 7], by decide⟩, by decide⟩,
    (hiff _ _).2 ⟨.minus (hspells (2 ^ 63)), by decide⟩,
    hrange _ _ (.minus (hspells (2 ^ 63 + 1))) (by decide), hbyte [55] [] 32 (by decide) nofun,
    hbyte [45] [55] 43 (by decide) nofun, htext [255] (by decide)⟩

end Counter
end Keyspace
