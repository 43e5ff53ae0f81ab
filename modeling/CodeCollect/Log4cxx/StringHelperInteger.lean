import CodeCollect.Library.DecimalText
import CodeCollect.Log4cxx.LogString

namespace CodeCollect.Log4cxx.StringHelper

open CodeCollect.Library

def BILLION : Int64 := 1000000000

/-- This function is the `log4cxx_int64_t` overload of `StringHelper::toString`. -/
def toString64 (n : Int64) (dst : LogString) : LogString :=
  if Int32.minValue.toInt64 ≤ n ∧ n ≤ Int32.maxValue.toInt64 then
    dst ++ toString n.toInt32.toInt
  else
    let billions := (n / BILLION).toInt32
    let upper := toString billions.toInt
    let remain := (n - billions.toInt64 * BILLION).toInt32
    let remain := if remain < 0 then remain * -1 else remain
    let lower := toString remain.toInt
    dst ++ upper ++ List.replicate (9 - lower.length) '0' ++ lower

/-- This function is the `size_t` overload of `StringHelper::toString`. -/
def toStringSize (n : UInt64) (dst : LogString) : LogString :=
  toString64 n.toInt64 dst

/-- The `int` overload writes the standard representation. -/
theorem toString_eq_repr (n : Int) : toString n = n.repr.toList := by
  cases n with
  | ofNat n => exact (Nat.toList_repr).symm
  | negSucc n =>
      have text : (Int.negSucc n).repr.toList = '-' :: (Nat.repr (n + 1)).toList := by
        simp [Int.repr]
      rw [text, Nat.toList_repr, toString, if_pos (Int.negSucc_lt_zero n), Int.natAbs_negSucc]

theorem toString_of_nat (n : Nat) : toString n = Nat.toDigits 10 n := by
  rw [toString, if_neg (Int.natCast_nonneg n).not_gt, Int.natAbs_natCast]

theorem toString_of_neg {n : Int} (negative : n < 0) :
    toString n = '-' :: Nat.toDigits 10 n.natAbs := if_pos negative

theorem toDigits_injective {m n : Nat} (same : Nat.toDigits 10 m = Nat.toDigits 10 n) : m = n := by
  have values := congrArg (fun digits => Nat.ofDigitChars 10 digits 0) same
  simpa using values

/-- The minus sign is no digit. -/
theorem minus_toDigits (n : Nat) (rest : LogString) : '-' :: rest ≠ Nat.toDigits 10 n := by
  intro same
  have digit : '-'.isDigit = true := Nat.isDigit_of_mem_toDigits (b := 10) (by decide) (by decide)
    (same ▸ List.mem_cons_self)
  exact absurd digit (by decide)

theorem toString_injective {m n : Int} (same : toString m = toString n) : m = n := by
  rw [toString, toString] at same
  split at same
  · split at same
    · have size := toDigits_injective (List.cons_injective same)
      omega
    · exact absurd same (minus_toDigits _ _)
  · split at same
    · exact absurd same.symm (minus_toDigits _ _)
    · have size := toDigits_injective same
      omega

/-- A large number is written as its billions and nine more digits. -/
theorem toString_group {n : Int} (large : n.tdiv 1000000000 ≠ 0) :
    toString n = toString (n.tdiv 1000000000) ++
      DecimalText.padded 9 (n.tmod 1000000000).natAbs := by
  have high : (n.tdiv 1000000000).natAbs = n.natAbs / 1000000000 := Int.natAbs_tdiv n _
  have low : (n.tmod 1000000000).natAbs = n.natAbs % 1000000000 := Int.natAbs_tmod n _
  have digits : Nat.toDigits 10 n.natAbs = Nat.toDigits 10 (n.tdiv 1000000000).natAbs ++
      DecimalText.padded 9 (n.tmod 1000000000).natAbs := by
    rw [← DecimalText.toDigits_group (by decide) (Int.natAbs_pos.mpr large) (by omega), high, low]
    exact congrArg (Nat.toDigits 10) (Nat.div_add_mod' n.natAbs 1000000000).symm
  have parts := Int.tmod_add_mul_tdiv n 1000000000
  have bound := Int.tmod_lt_of_pos n (show (0 : Int) < 1000000000 by decide)
  by_cases negative : n < 0
  · have sign : n.tdiv 1000000000 < 0 := by omega
    rw [toString_of_neg negative, toString_of_neg sign, digits, List.cons_append]
  · have sign : ¬ n.tdiv 1000000000 < 0 := by omega
    rw [toString, if_neg negative, toString, if_neg sign, digits]

/-- What the billions do not cover is right even when they are narrowed. -/
theorem remain_bmod (n : Int) :
    ((n - ((n.tdiv 1000000000).bmod (2 ^ 32) * 1000000000).bmod (2 ^ 64)).bmod (2 ^ 64)).bmod
      (2 ^ 32) = n.tmod 1000000000 := by
  have parts := Int.tmod_add_mul_tdiv n 1000000000
  have above := Int.tmod_lt_of_pos n (show (0 : Int) < 1000000000 by decide)
  have below := Int.lt_tmod_of_pos n (show (0 : Int) < 1000000000 by decide)
  obtain ⟨whole, narrowed⟩ := Int.dvd_self_sub_bmod (x := n.tdiv 1000000000) (m := 2 ^ 32)
  rw [Int.sub_bmod_bmod, Int.bmod_bmod_of_dvd (by decide)]
  have rest : n - (n.tdiv 1000000000).bmod (2 ^ 32) * 1000000000 =
      n.tmod 1000000000 + (2 ^ 32 : Nat) * (whole * 1000000000) := by
    rw [Nat.cast_pow, Nat.cast_ofNat] at narrowed ⊢
    linarith
  rw [rest, Int.add_mul_bmod_self_left]
  exact Int.bmod_eq_of_le (by omega) (by omega)

/-- The narrowed billions stand before the right last digits. -/
theorem toString64_large {n : Int64} (dst : LogString)
    (large : ¬ (Int32.minValue.toInt64 ≤ n ∧ n ≤ Int32.maxValue.toInt64)) :
    toString64 n dst = dst ++ toString ((n.toInt.tdiv 1000000000).bmod (2 ^ 32)) ++
      DecimalText.padded 9 (n.toInt.tmod 1000000000).natAbs := by
  have billion : BILLION.toInt = 1000000000 := rfl
  have billions : (n / BILLION).toInt32.toInt = (n.toInt.tdiv 1000000000).bmod (2 ^ 32) := by
    rw [Int64.toInt_toInt32, Int64.toInt_div_of_ne_right _ _ (by decide), billion]
  have remain : (n - (n / BILLION).toInt32.toInt64 * BILLION).toInt32.toInt =
      n.toInt.tmod 1000000000 := by
    rw [Int64.toInt_toInt32, Int64.toInt_sub, Int64.toInt_mul, Int32.toInt_toInt64, billions,
      billion, remain_bmod]
  have above := Int.tmod_lt_of_pos n.toInt (show (0 : Int) < 1000000000 by decide)
  have below := Int.lt_tmod_of_pos n.toInt (show (0 : Int) < 1000000000 by decide)
  rw [toString64, if_neg large]
  dsimp only
  rw [billions, DecimalText.padded, ← List.append_assoc]
  have size : (if (n - (n / BILLION).toInt32.toInt64 * BILLION).toInt32 < 0 then
      (n - (n / BILLION).toInt32.toInt64 * BILLION).toInt32 * -1
      else (n - (n / BILLION).toInt32.toInt64 * BILLION).toInt32).toInt =
        ((n.toInt.tmod 1000000000).natAbs : Int) := by
    split
    · rename_i negative
      have sign := Int32.lt_iff_toInt_lt.mp negative
      rw [remain, Int32.toInt_zero] at sign
      rw [Int32.toInt_mul, remain]
      show (n.toInt.tmod 1000000000 * -1).bmod (2 ^ 32) = _
      rw [Int.bmod_eq_of_le (by omega) (by omega)]
      omega
    · rename_i positive
      have sign := mt Int32.lt_iff_toInt_lt.mpr positive
      rw [remain, Int32.toInt_zero] at sign
      rw [remain]
      omega
  rw [size, toString_of_nat]

theorem toString64_small {n : Int64} (dst : LogString)
    (small : Int32.minValue.toInt64 ≤ n ∧ n ≤ Int32.maxValue.toInt64) :
    toString64 n dst = dst ++ toString n.toInt := by
  have below := Int64.le_iff_toInt_le.mp small.1
  have above := Int64.le_iff_toInt_le.mp small.2
  rw [Int32.toInt_toInt64, Int32.toInt_minValue] at below
  rw [Int32.toInt_toInt64, Int32.toInt_maxValue] at above
  rw [toString64, if_pos small, Int64.toInt_toInt32, Int.bmod_eq_of_le (by omega) (by omega)]

/-- Outside the range of `int` there are billions. -/
theorem tdiv_ne_zero {n : Int64}
    (large : ¬ (Int32.minValue.toInt64 ≤ n ∧ n ≤ Int32.maxValue.toInt64)) :
    n.toInt.tdiv 1000000000 ≠ 0 := by
  have high : (n.toInt.tdiv 1000000000).natAbs = n.toInt.natAbs / 1000000000 :=
    Int.natAbs_tdiv n.toInt _
  rw [Int64.le_iff_toInt_le, Int64.le_iff_toInt_le, Int32.toInt_toInt64, Int32.toInt_toInt64,
    Int32.toInt_minValue, Int32.toInt_maxValue] at large
  omega

theorem bmod_billions_iff (n : Int) :
    (n.tdiv 1000000000).bmod (2 ^ 32) = n.tdiv 1000000000 ↔
      -2147483649000000000 < n ∧ n < 2147483648000000000 := by
  have high : (n.tdiv 1000000000).natAbs = n.natAbs / 1000000000 := Int.natAbs_tdiv n _
  have parts := Int.tmod_add_mul_tdiv n 1000000000
  have above := Int.tmod_lt_of_pos n (show (0 : Int) < 1000000000 by decide)
  have below := Int.lt_tmod_of_pos n (show (0 : Int) < 1000000000 by decide)
  constructor
  · intro fits
    have least := Int.le_bmod (x := n.tdiv 1000000000) (m := 2 ^ 32) (by decide)
    have greatest := Int.bmod_lt (x := n.tdiv 1000000000) (m := 2 ^ 32) (by decide)
    rw [fits] at least greatest
    omega
  · intro bounds
    exact Int.bmod_eq_of_le (by omega) (by omega)

/-- The low group has nine digits. -/
theorem padded_tmod_length (n : Int) :
    (DecimalText.padded 9 (n.tmod 1000000000).natAbs).length = 9 := by
  have low : (n.tmod 1000000000).natAbs = n.natAbs % 1000000000 := Int.natAbs_tmod n _
  exact DecimalText.padded_length (by decide) (by omega)

/-- A value from 2^63 on is taken for a negative one. -/
theorem toStringSize_ne {n : UInt64} (large : 2 ^ 63 ≤ n.toNat) (dst : LogString) :
    toStringSize n dst ≠ dst ++ toString n.toNat := by
  have range := n.toNat_lt
  have cast : n.toInt64.toInt = (n.toNat : Int).bmod (2 ^ 64) :=
    BitVec.toInt_eq_toNat_bmod n.toInt64.toBitVec
  have negative : n.toInt64.toInt < 0 := by
    have wrapped : (n.toNat : Int).bmod (2 ^ 64) = n.toNat - 2 ^ 64 :=
      (Int.bmod_eq_iff (by decide)).mpr ⟨by omega, by omega, ⟨-1, by omega⟩⟩
    omega
  intro same
  rw [toStringSize] at same
  by_cases small : Int32.minValue.toInt64 ≤ n.toInt64 ∧ n.toInt64 ≤ Int32.maxValue.toInt64
  · rw [toString64_small dst small, List.append_cancel_left_eq] at same
    have equal := toString_injective same
    omega
  · have billions : (n.toNat : Int).tdiv 1000000000 ≠ 0 := by
      rw [Int.tdiv_eq_ediv_of_nonneg (by omega)]
      omega
    rw [toString64_large dst small, toString_group billions, List.append_assoc,
      List.append_cancel_left_eq] at same
    have groups := List.append_inj_left' same
      ((padded_tmod_length n.toInt64.toInt).trans (padded_tmod_length n.toNat).symm)
    have equal := toString_injective groups
    have greatest := Int.bmod_lt (x := n.toInt64.toInt.tdiv 1000000000) (m := 2 ^ 32) (by decide)
    rw [equal, Int.tdiv_eq_ediv_of_nonneg (by omega)] at greatest
    omega

theorem toString64_eq_iff (n : Int64) (dst : LogString) :
    toString64 n dst = dst ++ n.toInt.repr.toList ↔
      -2147483649000000000 < n.toInt ∧ n.toInt < 2147483648000000000 := by
  rw [← toString_eq_repr]
  by_cases small : Int32.minValue.toInt64 ≤ n ∧ n ≤ Int32.maxValue.toInt64
  · refine iff_of_true (toString64_small dst small) ?_
    rw [Int64.le_iff_toInt_le, Int64.le_iff_toInt_le, Int32.toInt_toInt64,
      Int32.toInt_toInt64, Int32.toInt_minValue, Int32.toInt_maxValue] at small
    omega
  · rw [toString64_large dst small, toString_group (tdiv_ne_zero small), ← bmod_billions_iff,
      ← List.append_assoc, List.append_cancel_right_eq, List.append_cancel_left_eq]
    exact ⟨fun same => toString_injective same, congrArg toString⟩

theorem toStringSize_eq_iff (n : UInt64) (dst : LogString) :
    toStringSize n dst = dst ++ n.toNat.repr.toList ↔ n.toNat < 2147483648000000000 := by
  have cast : n.toInt64.toInt = (n.toNat : Int).bmod (2 ^ 64) :=
    BitVec.toInt_eq_toNat_bmod n.toInt64.toBitVec
  have text : n.toNat.repr.toList = toString n.toNat :=
    Nat.toList_repr.trans (toString_of_nat n.toNat).symm
  rw [text]
  by_cases large : 2 ^ 63 ≤ n.toNat
  · exact iff_of_false (toStringSize_ne large dst) (by omega)
  · have value : n.toInt64.toInt = n.toNat := cast.trans (Int.bmod_eq_of_le (by omega) (by omega))
    have bounds := toString64_eq_iff n.toInt64 dst
    rw [value, ← toString_eq_repr] at bounds
    rw [toStringSize, bounds]
    omega

end CodeCollect.Log4cxx.StringHelper
