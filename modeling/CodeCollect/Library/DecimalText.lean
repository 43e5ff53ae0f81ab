import Mathlib

namespace CodeCollect.Library

namespace DecimalText

/-- These digits are filled up with zeros on the left. -/
def padded (width n : Nat) : List Char :=
  List.replicate (width - (Nat.toDigits 10 n).length) '0' ++ Nat.toDigits 10 n

theorem toDigits_length_le {width n : Nat} (positive : 0 < width) (small : n < 10 ^ width) :
    (Nat.toDigits 10 n).length ≤ width :=
  (Nat.length_toDigits_le_iff (by decide) positive).mpr small

theorem padded_length {width n : Nat} (positive : 0 < width) (small : n < 10 ^ width) :
    (padded width n).length = width := by
  have bound := toDigits_length_le positive small
  rw [padded, List.length_append, List.length_replicate]
  omega

theorem padded_succ {width n : Nat} (positive : 0 < width) (digit : Nat) (small : digit < 10) :
    padded (width + 1) (10 * n + digit) = padded width n ++ Nat.toDigits 10 digit := by
  have last := Nat.toDigits_of_lt_base (b := 10) small
  rcases Nat.eq_zero_or_pos n with rfl | large
  · obtain ⟨width, rfl⟩ := Nat.exists_eq_succ_of_ne_zero positive.ne'
    rw [Nat.mul_zero, Nat.zero_add, padded, padded, last, Nat.toDigits_zero]
    simp [List.replicate_succ']
  · have joined := Nat.toDigits_append_toDigits (by decide) large small
    rw [padded, padded, ← joined, last, List.length_append, List.length_singleton,
      Nat.add_sub_add_right, List.append_assoc]

/-- The digits of a sum begin with those of its higher part. -/
theorem toDigits_group {width high low : Nat} (positive : 0 < width) (large : 0 < high)
    (small : low < 10 ^ width) :
    Nat.toDigits 10 (high * 10 ^ width + low) = Nat.toDigits 10 high ++ padded width low := by
  induction width generalizing low with
  | zero => exact absurd positive (lt_irrefl 0)
  | succ width ih =>
      have digit : low % 10 < 10 := Nat.mod_lt _ (by decide)
      have parts : 10 * (low / 10) + low % 10 = low := Nat.div_add_mod low 10
      have sum : high * 10 ^ (width + 1) + low =
          10 * (high * 10 ^ width + low / 10) + low % 10 := by
        rw [pow_succ, ← Nat.mul_assoc]
        omega
      have whole : 0 < high * 10 ^ width + low / 10 :=
        Nat.add_pos_left (Nat.mul_pos large (by positivity)) _
      rw [sum, ← Nat.toDigits_append_toDigits (by decide) whole digit]
      rcases Nat.eq_zero_or_pos width with rfl | more
      · have one : low < 10 := by simpa using small
        rw [Nat.div_eq_of_lt one, Nat.mod_eq_of_lt one, pow_zero, Nat.mul_one, Nat.add_zero,
          padded, Nat.toDigits_of_lt_base one]
        rfl
      · rw [ih more (by rw [pow_succ] at small; omega), List.append_assoc,
          ← padded_succ more _ digit, parts]

end DecimalText

end CodeCollect.Library
