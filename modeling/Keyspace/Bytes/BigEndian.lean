import Keyspace.Bytes

/-!
# Numbers of fixed width, most significant byte first

`ofNat w n` writes the last `8 w` bits of `n` in `w` bytes and `toNat` reads a byte string as a
number. They undo each other (`toNat_ofNat`, `ofNat_toNat`), and between byte strings of one
length the lexicographic order is the order of the numbers (`lt_iff_toNat_lt`).
-/

namespace Keyspace.BigEndian

open scoped Powers

/-- The number below `256 ^ w` that agrees with `n` modulo `256 ^ w`, in `w` bytes. -/
def ofNat : (w n : Nat) → Bytes
  | 0, _ => []
  | w + 1, n => UInt8.ofNat (n / 256 ^ w) :: ofNat w n

/-- The number that the bytes write. -/
def toNat : Bytes → Nat
  | [] => 0
  | x :: b => x.toNat * 256 ^ b.length + toNat b

@[simp] theorem length_ofNat (w n : Nat) : (ofNat w n).length = w := by
  induction w with
  | zero => rfl
  | succ w ih => simp [ofNat, ih]

theorem toNat_lt (b : Bytes) : toNat b < 256 ^ b.length := by
  induction b with
  | nil => simp [toNat]
  | cons x b ih =>
    have hx : x.toNat < 256 := x.toNat_lt
    calc toNat (x :: b) < x.toNat * 256 ^ b.length + 256 ^ b.length := Nat.add_lt_add_left ih _
      _ = (x.toNat + 1) * 256 ^ b.length := by rw [Nat.add_mul, Nat.one_mul]
      _ ≤ 256 * 256 ^ b.length := Nat.mul_le_mul_right _ (by omega)
      _ = 256 ^ (x :: b).length := by rw [List.length_cons, Nat.pow_succ, Nat.mul_comm]

theorem toNat_ofNat (w n : Nat) : toNat (ofNat w n) = n % 256 ^ w := by
  induction w with
  | zero => simp [ofNat, toNat, Nat.mod_one]
  | succ w ih =>
    rw [ofNat, toNat, ih, length_ofNat, UInt8.toNat_ofNat',
      show 256 ^ (w + 1) = 256 ^ w * 256 from rfl, Nat.mod_mul, Nat.mul_comm, Nat.add_comm]

theorem toNat_ofNat_of_lt {w n : Nat} (h : n < 256 ^ w) : toNat (ofNat w n) = n := by
  rw [toNat_ofNat, Nat.mod_eq_of_lt h]

theorem toNat_injective {a b : Bytes} (hl : a.length = b.length) (h : toNat a = toNat b) :
    a = b := by
  induction a generalizing b with
  | nil => exact (List.length_eq_zero_iff.1 hl.symm).symm
  | cons x a ih =>
    cases b with
    | nil => simp at hl
    | cons y b =>
      have hl' : a.length = b.length := by simpa using hl
      simp only [toNat, hl'] at h
      have ha := toNat_lt a
      have hb := toNat_lt b
      rw [hl'] at ha
      have hp : 0 < 256 ^ b.length := Nat.pow_pos (by decide)
      have hx : x.toNat = y.toNat := by
        have h' := congrArg (· / 256 ^ b.length) h
        simpa [Nat.mul_add_div hp, Nat.mul_comm, Nat.div_eq_of_lt, ha, hb] using h'
      have hab : toNat a = toNat b := by rw [hx] at h; omega
      rw [UInt8.toNat_inj.1 hx, ih hl' hab]

theorem ofNat_toNat (b : Bytes) : ofNat b.length (toNat b) = b :=
  toNat_injective (length_ofNat _ _) (toNat_ofNat_of_lt (toNat_lt b))

theorem ofNat_injective {w m n : Nat} (hm : m < 256 ^ w) (hn : n < 256 ^ w)
    (h : ofNat w m = ofNat w n) : m = n := by
  rw [← toNat_ofNat_of_lt hm, h, toNat_ofNat_of_lt hn]

/-- Between byte strings of one length, the lexicographic order compares the numbers. -/
theorem lt_iff_toNat_lt {a b : Bytes} (hl : a.length = b.length) : a < b ↔ toNat a < toNat b := by
  induction a generalizing b with
  | nil =>
    obtain rfl := List.length_eq_zero_iff.1 hl.symm
    simp [toNat]
  | cons x a ih =>
    cases b with
    | nil => simp at hl
    | cons y b =>
      have hl' : a.length = b.length := by simpa using hl
      rw [List.cons_lt_cons_iff, ih hl', UInt8.lt_iff_toNat_lt, ← UInt8.toNat_inj]
      simp only [toNat, hl']
      have ha := toNat_lt a
      have hb := toNat_lt b
      rw [hl'] at ha
      constructor
      · rintro (h | ⟨h, h'⟩)
        · calc x.toNat * 256 ^ b.length + toNat a < (x.toNat + 1) * 256 ^ b.length := by
                rw [Nat.add_mul]; omega
            _ ≤ y.toNat * 256 ^ b.length := Nat.mul_le_mul_right _ h
            _ ≤ _ := Nat.le_add_right _ _
        · rw [h]; omega
      · intro h
        rcases Nat.lt_trichotomy x.toNat y.toNat with hxy | hxy | hxy
        · exact .inl hxy
        · rw [hxy] at h; exact .inr ⟨hxy, by omega⟩
        · have : (y.toNat + 1) * 256 ^ b.length ≤ x.toNat * 256 ^ b.length :=
            Nat.mul_le_mul_right _ hxy
          rw [Nat.add_mul] at this
          omega

end Keyspace.BigEndian
