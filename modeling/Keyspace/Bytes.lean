/-!
# Byte strings

Keys, values and stored records are byte strings, ordered lexicographically as lists of bytes.
`splitAt?` cuts a byte string in two when it is long enough, in time proportional to the cut.
`splitAt?_eq_some_iff` says which pieces it gives, `splitAt?_eq_none_iff` when there is nothing
to cut. `hex` is the way a byte string is shown to people.
-/

namespace Keyspace

namespace Powers

/-- The powers of numbers, as they are without the powers of a monoid. -/
scoped instance (priority := 20000) natPow : Pow Nat Nat := instPowNat

end Powers

/-- A string of bytes. -/
abbrev Bytes := List UInt8

namespace Bytes

/-- The bytes of a text. -/
def ofString (s : String) : Bytes := s.toUTF8.toList

/-- The codes of ASCII characters. -/
def ofAscii (s : List Char) : Bytes := s.map fun c => UInt8.ofNat c.toNat

/-- The text that the bytes spell in UTF-8, if they do. -/
def toString? (b : Bytes) : Option String := String.fromUTF8? ⟨b.toArray⟩

/-! ## Cutting -/

/-- The first `n` bytes and the rest, or nothing when there are fewer than `n`. -/
def splitAt? : Nat → Bytes → Option (Bytes × Bytes)
  | 0, b => some ([], b)
  | _ + 1, [] => none
  | n + 1, x :: b => (splitAt? n b).map fun (p, r) => (x :: p, r)

theorem splitAt?_eq_some_iff {n : Nat} {b p r : Bytes} :
    splitAt? n b = some (p, r) ↔ b = p ++ r ∧ p.length = n := by
  induction n generalizing b p with
  | zero =>
    simp only [splitAt?, Option.some.injEq, Prod.mk.injEq, List.length_eq_zero_iff]
    constructor
    · rintro ⟨rfl, rfl⟩; simp
    · rintro ⟨rfl, rfl⟩; simp
  | succ n ih =>
    cases b with
    | nil => cases p <;> simp [splitAt?]
    | cons x b =>
      cases p with
      | nil => simp [splitAt?]
      | cons y p =>
        simp only [splitAt?, Option.map_eq_some_iff, Prod.mk.injEq, List.cons.injEq, Prod.exists,
          List.cons_append, List.length_cons, Nat.add_right_cancel_iff]
        constructor
        · rintro ⟨q, s, h, ⟨rfl, rfl⟩, rfl⟩
          exact ⟨⟨rfl, (ih.1 h).1⟩, (ih.1 h).2⟩
        · rintro ⟨⟨rfl, rfl⟩, h⟩
          exact ⟨p, r, ih.2 ⟨rfl, h⟩, ⟨rfl, rfl⟩, rfl⟩

theorem splitAt?_eq_none_iff {n : Nat} {b : Bytes} : splitAt? n b = none ↔ b.length < n := by
  induction n generalizing b with
  | zero => simp [splitAt?]
  | succ n ih =>
    cases b with
    | nil => simp [splitAt?]
    | cons x b => simp [splitAt?, ih]

@[simp] theorem splitAt?_append {n : Nat} {p : Bytes} (r : Bytes) (h : p.length = n) :
    splitAt? n (p ++ r) = some (p, r) :=
  splitAt?_eq_some_iff.2 ⟨rfl, h⟩

/-! ## Order -/

/-- With first parts of one length, the order compares the first parts and then the rest. -/
theorem append_lt_append_iff {a b : Bytes} (k l : Bytes) (h : a.length = b.length) :
    a ++ k < b ++ l ↔ a < b ∨ a = b ∧ k < l := by
  induction a generalizing b with
  | nil =>
    obtain rfl := List.length_eq_zero_iff.1 h.symm
    simp
  | cons x a ih =>
    cases b with
    | nil => simp at h
    | cons y b =>
      simp only [List.cons_append, List.cons_lt_cons_iff, List.cons.injEq,
        ih (by simpa using h)]
      constructor
      · rintro (h₁ | ⟨rfl, h₁ | ⟨rfl, h₁⟩⟩)
        · exact .inl (.inl h₁)
        · exact .inl (.inr ⟨rfl, h₁⟩)
        · exact .inr ⟨⟨rfl, rfl⟩, h₁⟩
      · rintro ((h₁ | ⟨rfl, h₁⟩) | ⟨⟨rfl, rfl⟩, h₁⟩)
        · exact .inl h₁
        · exact .inr ⟨rfl, .inl h₁⟩
        · exact .inr ⟨rfl, .inr ⟨rfl, h₁⟩⟩

/-! ## Showing -/

/-- The hexadecimal digit of a number below sixteen, in lower case. -/
def hexDigit (n : UInt8) : Char :=
  Char.ofNat (if n < 10 then 48 + n.toNat else 87 + n.toNat)

/-- Two lower-case hexadecimal digits for each byte. -/
def hex (b : Bytes) : String :=
  String.ofList (b.flatMap fun x => [hexDigit (x / 16), hexDigit (x % 16)])

example : hex [0x00, 0xff, 0x6b] = "00ff6b" := by decide

end Bytes

end Keyspace
