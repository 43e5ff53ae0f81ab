import CodeCollect.Log4cxx.LogString

namespace CodeCollect.Log4cxx.OptionConverter

/-- A `long` has 64 bits. -/
def LONG_MAX : Int := 9223372036854775807

def LONG_MIN : Int := -9223372036854775808

/-- These characters are white space for `atol`. -/
def isSpace (c : Char) : Bool :=
  c == ' ' || c == '\t' || c == '\n' || c == '\x0b' || c == '\x0c' || c == '\r'

/-- A number out of range becomes the nearest `long`. -/
def atol (cvalue : LogString) : Int :=
  match cvalue.dropWhile isSpace with
  | '-' :: digits => max (-(Nat.ofDigitChars 10 (digits.takeWhile Char.isDigit) 0 : Int)) LONG_MIN
  | '+' :: digits => min (Nat.ofDigitChars 10 (digits.takeWhile Char.isDigit) 0 : Int) LONG_MAX
  | digits => min (Nat.ofDigitChars 10 (digits.takeWhile Char.isDigit) 0 : Int) LONG_MAX

/-- The cast to `int` keeps the last 32 bits. -/
def toInt (value : LogString) (dEfault : Int) : Int :=
  let trimmed := StringHelper.trim value
  if trimmed = [] then dEfault else (atol trimmed).bmod (2 ^ 32)

def toFileSize (s : LogString) (dEfault : Int) : Int :=
  if s = [] then dEfault
  else
    match s.findIdx? fun c => c == 'b' || c == 'B' with
    | some (index + 1) =>
        let unit := s.getD index '\x00'
        let multiplier : Int :=
          if unit = 'k' ∨ unit = 'K' then 1024
          else if unit = 'm' ∨ unit = 'M' then 1024 * 1024
          else if unit = 'g' ∨ unit = 'G' then 1024 * 1024 * 1024
          else 1
        toInt (s.take index) 1 * multiplier
    | _ => toInt s 1

/-- This is a decimal numeral. -/
structure Numeral where
  digits : LogString
  filled : digits ≠ []
  decimal : ∀ c ∈ digits, c.isDigit = true

def Numeral.value (self : Numeral) : Nat := Nat.ofDigitChars 10 self.digits 0

/-- These are the suffixes of a file size. -/
inductive Suffix where
  | none
  | KB
  | MB
  | GB
  | B
deriving DecidableEq, Repr

namespace Suffix

def text : Suffix → LogString
  | none => []
  | KB => ['K', 'B']
  | MB => ['M', 'B']
  | GB => ['G', 'B']
  | B => ['B']

def size : Suffix → Nat
  | none | B => 1
  | KB => 2 ^ 10
  | MB => 2 ^ 20
  | GB => 2 ^ 30

/-- The letters of a suffix may be small ones. -/
def Spelled (self : Suffix) (letters : LogString) : Prop := letters.map Char.toUpper = self.text

/-- With a single `B` the last digit is lost, and one digit alone counts as one. -/
def Reads (self : Suffix) (numeral : Numeral) : Prop :=
  if self = B then
    if numeral.digits.length = 1 then numeral.value = 1 else numeral.value = 0
  else numeral.value < 2 ^ 31

instance (self : Suffix) (numeral : Numeral) : Decidable (self.Reads numeral) :=
  inferInstanceAs (Decidable (if self = B then
    if numeral.digits.length = 1 then numeral.value = 1 else numeral.value = 0
    else numeral.value < 2 ^ 31))

end Suffix

/-- Digits stay when characters are dropped that are no digits. -/
theorem dropWhile_digits {digits : LogString} (decimal : ∀ c ∈ digits, c.isDigit = true)
    {other : Char → Bool} (apart : ∀ c, other c = true → c.isDigit = false) :
    digits.dropWhile other = digits := by
  cases digits with
  | nil => rfl
  | cons c digits =>
      have digit := decimal c List.mem_cons_self
      apply List.dropWhile_cons_of_neg
      intro dropped
      rw [apart c dropped] at digit
      exact Bool.noConfusion digit

theorem trim_digits {digits : LogString} (decimal : ∀ c ∈ digits, c.isDigit = true) :
    StringHelper.trim digits = digits := by
  have apart : ∀ c : Char, (c == ' ') = true → c.isDigit = false := by
    intro c blank
    rw [eq_of_beq blank]
    rfl
  rw [StringHelper.trim, dropWhile_digits decimal apart, dropWhile_digits _ apart,
    List.reverse_reverse]
  intro c member
  exact decimal c (List.mem_reverse.mp member)

/-- The value of digits is read unless it is too large for a `long`. -/
theorem atol_digits {digits : LogString} (filled : digits ≠ [])
    (decimal : ∀ c ∈ digits, c.isDigit = true)
    (fits : (Nat.ofDigitChars 10 digits 0 : Int) ≤ LONG_MAX) :
    atol digits = Nat.ofDigitChars 10 digits 0 := by
  have spaces : digits.dropWhile isSpace = digits := by
    apply dropWhile_digits decimal
    intro c space
    simp only [isSpace, Bool.or_eq_true, beq_iff_eq, or_assoc] at space
    rcases space with rfl | rfl | rfl | rfl | rfl | rfl <;> rfl
  have whole : digits.takeWhile Char.isDigit = digits := List.takeWhile_eq_self_iff.mpr decimal
  obtain ⟨c, further, rfl⟩ := List.exists_cons_of_ne_nil filled
  have digit := decimal c List.mem_cons_self
  rw [atol, spaces]
  split
  · rename_i same
    rw [(List.cons.inj same).1] at digit
    exact absurd digit (by decide)
  · rename_i same
    rw [(List.cons.inj same).1] at digit
    exact absurd digit (by decide)
  · rw [whole, min_eq_left fits]

theorem toInt_digits {digits : LogString} (filled : digits ≠ [])
    (decimal : ∀ c ∈ digits, c.isDigit = true)
    (fits : (Nat.ofDigitChars 10 digits 0 : Int) ≤ LONG_MAX) (dEfault : Int) :
    toInt digits dEfault = (Nat.ofDigitChars 10 digits 0 : Int).bmod (2 ^ 32) := by
  rw [toInt, trim_digits decimal, if_neg filled, atol_digits filled decimal fits]

theorem bmod_eq_self_iff (n : Nat) : (n : Int).bmod (2 ^ 32) = n ↔ n < 2 ^ 31 := by
  constructor
  · intro same
    have bound := Int.bmod_lt (x := n) (m := 2 ^ 32) (by decide)
    omega
  · intro small
    exact Int.bmod_eq_of_le (by omega) (by omega)

/-- The first `B` is the one of the suffix. -/
theorem findIdx_suffix {digits letters : LogString} (decimal : ∀ c ∈ digits, c.isDigit = true) :
    (digits ++ letters).findIdx? (fun c => c == 'b' || c == 'B') =
      (letters.findIdx? fun c => c == 'b' || c == 'B').map (· + digits.length) := by
  have absent : digits.findIdx? (fun c => c == 'b' || c == 'B') = none := by
    rw [List.findIdx?_eq_none_iff]
    intro c member
    have digit := decimal c member
    by_contra found
    simp only [Bool.not_eq_false, Bool.or_eq_true, beq_iff_eq] at found
    rcases found with rfl | rfl <;> exact absurd digit (by decide)
  rw [List.findIdx?_append, absent, Option.none_or]

/-- A letter is its capital letter or the small one that stands 32 places later. -/
theorem eq_of_toUpper {c upper small : Char} (same : c.toUpper = upper)
    (later : upper.toNat + 32 = small.toNat) : c = small ∨ c = upper := by
  rw [Char.toUpper] at same
  split at same
  · rename_i range
    obtain ⟨least, greatest⟩ := range
    left
    apply Char.toNat_inj.mp
    rw [← later]
    have value := congrArg (fun letter => letter.val.toNat) same
    rw [UInt32.le_iff_toNat_le] at least greatest
    rw [UInt32.toNat_add] at value
    have low : 'a'.val.toNat = 97 := rfl
    have high : 'z'.val.toNat = 122 := rfl
    have offset : ('A'.val - 'a'.val).toNat = 4294967264 := rfl
    rw [offset] at value
    rw [Char.toNat, Char.toNat]
    omega
  · exact Or.inr same

/-- The letters of a suffix with a unit are the unit and a `B`. -/
theorem spelled_unit {unit : Char} {letters : LogString}
    (spelled : letters.map Char.toUpper = [unit, 'B']) :
    ∃ first last, letters = [first, last] ∧ first.toUpper = unit ∧ last.toUpper = 'B' := by
  obtain ⟨first, rest, rfl, same, tail⟩ := List.map_eq_cons_iff.mp spelled
  obtain ⟨last, none, rfl, other, ended⟩ := List.map_eq_cons_iff.mp tail
  rw [List.map_eq_nil_iff.mp ended]
  exact ⟨first, last, rfl, same, other⟩

/-- The digits before a unit are read and multiplied. -/
theorem toFileSize_unit (numeral : Numeral) {first last : Char} (dEfault : Int) (size : Nat)
    (units : last = 'b' ∨ last = 'B') (plain : first ≠ 'b' ∧ first ≠ 'B')
    (multiplies : ((if first = 'k' ∨ first = 'K' then 1024
      else if first = 'm' ∨ first = 'M' then 1024 * 1024
      else if first = 'g' ∨ first = 'G' then 1024 * 1024 * 1024 else 1 : Int)) = size) :
    toFileSize (numeral.digits ++ [first, last]) dEfault = toInt numeral.digits 1 * size := by
  have found : [first, last].findIdx? (fun c => c == 'b' || c == 'B') = some 1 := by
    simp [List.findIdx?_cons, plain, units]
  have filled : numeral.digits ++ [first, last] ≠ [] := by simp
  have index : (numeral.digits ++ [first, last]).findIdx? (fun c => c == 'b' || c == 'B') =
      some (numeral.digits.length + 1) := by
    rw [findIdx_suffix numeral.decimal, found, Option.map_some, Nat.add_comm]
  rw [toFileSize, if_neg filled, index]
  dsimp only
  rw [List.getD_append_right _ _ _ _ le_rfl, Nat.sub_self, List.getD_cons_zero, multiplies,
    List.take_left]

/-- With a `B` alone the last digit is cut off. -/
theorem toFileSize_B (numeral : Numeral) {last : Char} (dEfault : Int)
    (units : last = 'b' ∨ last = 'B') :
    toFileSize (numeral.digits ++ [last]) dEfault = toInt numeral.digits.dropLast 1 := by
  have split := List.dropLast_concat_getLast numeral.filled
  have digit := numeral.decimal _ (List.getLast_mem numeral.filled)
  have found : [last].findIdx? (fun c => c == 'b' || c == 'B') = some 0 := by
    simp [List.findIdx?_cons, units]
  have length : numeral.digits.length = numeral.digits.dropLast.length + 1 := by
    rw [← List.length_concat, List.concat_eq_append, split]
  have index : (numeral.digits ++ [last]).findIdx? (fun c => c == 'b' || c == 'B') =
      some (numeral.digits.dropLast.length + 1) := by
    rw [findIdx_suffix numeral.decimal, found, Option.map_some, Nat.zero_add, length]
  have text : numeral.digits ++ [last] =
      numeral.digits.dropLast ++ (numeral.digits.getLast numeral.filled :: [last]) := by
    conv_lhs => rw [← split, List.append_assoc]
    rfl
  have plain : ∀ letter : Char, letter.isDigit = false →
      numeral.digits.getLast numeral.filled ≠ letter := by
    intro letter other same
    rw [same, other] at digit
    exact Bool.noConfusion digit
  rw [toFileSize, if_neg (by simp), index]
  dsimp only
  rw [text, List.getD_append_right _ _ _ _ le_rfl, Nat.sub_self, List.getD_cons_zero,
    List.take_left, if_neg, if_neg, if_neg, mul_one]
  · rintro (same | same)
    · exact plain 'g' rfl same
    · exact plain 'G' rfl same
  · rintro (same | same)
    · exact plain 'm' rfl same
    · exact plain 'M' rfl same
  · rintro (same | same)
    · exact plain 'k' rfl same
    · exact plain 'K' rfl same

/-- Without a suffix the numeral is read as it is. -/
theorem toFileSize_none (numeral : Numeral) (dEfault : Int) :
    toFileSize numeral.digits dEfault = toInt numeral.digits 1 := by
  have index := @findIdx_suffix _ [] numeral.decimal
  rw [List.append_nil] at index
  rw [toFileSize, if_neg numeral.filled, index]
  rfl

/-- A numeral without its last digit is read right only when it is zero, or one digit is one. -/
theorem toInt_dropLast_iff (numeral : Numeral) (fits : (numeral.value : Int) ≤ LONG_MAX) :
    toInt numeral.digits.dropLast 1 = numeral.value ↔
      if numeral.digits.length = 1 then numeral.value = 1 else numeral.value = 0 := by
  split
  · rename_i single
    have empty : numeral.digits.dropLast = [] := by
      rw [List.dropLast_eq_take, single, Nat.sub_self, List.take_zero]
    rw [empty]
    show (1 : Int) = numeral.value ↔ _
    omega
  · rename_i more
    have filled : numeral.digits.dropLast ≠ [] := by
      intro empty
      have length := congrArg List.length empty
      have positive := List.length_pos_of_ne_nil numeral.filled
      rw [List.length_dropLast, List.length_nil] at length
      omega
    have value : numeral.value = 10 * Nat.ofDigitChars 10 numeral.digits.dropLast 0 +
        ((numeral.digits.getLast numeral.filled).toNat - '0'.toNat) := by
      conv_lhs => rw [Numeral.value, ← List.dropLast_concat_getLast numeral.filled,
        Nat.ofDigitChars_append, Nat.ofDigitChars_cons, Nat.ofDigitChars_nil]
    have decimal : ∀ c ∈ numeral.digits.dropLast, c.isDigit = true := fun c member =>
      numeral.decimal c (List.dropLast_subset _ member)
    rw [toInt_digits filled decimal (by omega)]
    constructor
    · intro same
      have bound := Int.bmod_lt (x := (Nat.ofDigitChars 10 numeral.digits.dropLast 0 : Nat))
        (m := 2 ^ 32) (by decide)
      have small := (bmod_eq_self_iff (Nat.ofDigitChars 10 numeral.digits.dropLast 0)).mpr
        (by omega)
      omega
    · intro zero
      have none : Nat.ofDigitChars 10 numeral.digits.dropLast 0 = 0 := by omega
      rw [none, zero]
      rfl

/-- With a unit the product is right exactly for the numerals of an `int`. -/
theorem toFileSize_unit_iff (numeral : Numeral) (small : Char) {unit : Char} {letters : LogString}
    (spelled : letters.map Char.toUpper = [unit, 'B']) (later : unit.toNat + 32 = small.toNat)
    (dEfault : Int) (size : Nat) (positive : 0 < size)
    (fits : (numeral.value : Int) ≤ LONG_MAX) (plain : ∀ first, first = small ∨ first = unit →
      (first ≠ 'b' ∧ first ≠ 'B') ∧
        (if first = 'k' ∨ first = 'K' then 1024
          else if first = 'm' ∨ first = 'M' then 1024 * 1024
          else if first = 'g' ∨ first = 'G' then 1024 * 1024 * 1024 else 1 : Int) = size) :
    toFileSize (numeral.digits ++ letters) dEfault = (numeral.value * size : Nat) ↔
      numeral.value < 2 ^ 31 := by
  obtain ⟨first, last, rfl, same, other⟩ := spelled_unit spelled
  obtain ⟨differs, multiplies⟩ := plain first (eq_of_toUpper same later)
  have scale : (size : Int) ≠ 0 := Int.natCast_ne_zero.mpr positive.ne'
  rw [toFileSize_unit numeral dEfault size (eq_of_toUpper other rfl) differs multiplies,
    toInt_digits numeral.filled numeral.decimal fits, Nat.cast_mul, Int.mul_eq_mul_right_iff scale]
  exact bmod_eq_self_iff numeral.value

/-- The size is the product exactly for these numerals. -/
theorem toFileSize_iff (numeral : Numeral) (suffix : Suffix) (letters : LogString)
    (spelled : suffix.Spelled letters) (fits : (numeral.value * suffix.size : Nat) ≤ LONG_MAX)
    (dEfault : Int) :
    toFileSize (numeral.digits ++ letters) dEfault = (numeral.value * suffix.size : Nat) ↔
      suffix.Reads numeral := by
  have positive : 0 < suffix.size := by
    cases suffix <;> decide
  have small : (numeral.value : Int) ≤ LONG_MAX :=
    (Int.ofNat_le.mpr (Nat.le_mul_of_pos_right _ positive)).trans fits
  cases suffix with
  | none =>
      rw [List.map_eq_nil_iff.mp spelled, List.append_nil, toFileSize_none,
        toInt_digits numeral.filled numeral.decimal small, Suffix.size, Nat.mul_one]
      exact bmod_eq_self_iff numeral.value
  | B =>
      obtain ⟨last, rest, rfl, same, ended⟩ := List.map_eq_cons_iff.mp spelled
      rw [List.map_eq_nil_iff.mp ended, toFileSize_B numeral dEfault (eq_of_toUpper same rfl),
        Suffix.size, Nat.mul_one]
      exact toInt_dropLast_iff numeral small
  | KB =>
      apply toFileSize_unit_iff numeral 'k' spelled rfl dEfault _ positive small
      rintro first (rfl | rfl) <;> decide
  | MB =>
      apply toFileSize_unit_iff numeral 'm' spelled rfl dEfault _ positive small
      rintro first (rfl | rfl) <;> decide
  | GB =>
      apply toFileSize_unit_iff numeral 'g' spelled rfl dEfault _ positive small
      rintro first (rfl | rfl) <;> decide

/-- Twelve kilobytes are read right. -/
theorem toFileSize_iff_kilobytes :
    toFileSize ['1', '2', 'k', 'B'] 0 = (12 * 1024 : Nat) :=
  (toFileSize_iff ⟨['1', '2'], by simp, by simp⟩ .KB ['k', 'B'] (by simp [Suffix.Spelled, Suffix.text])
    (by decide +kernel) 0).mpr (by decide +kernel)

/-- Ten bytes with their `B` count as one. -/
theorem toFileSize_B_cut : ¬ ∀ (numeral : Numeral) (suffix : Suffix) (letters : LogString),
    suffix.Spelled letters → (numeral.value * suffix.size : Nat) ≤ LONG_MAX → ∀ dEfault,
      toFileSize (numeral.digits ++ letters) dEfault = (numeral.value * suffix.size : Nat) := by
  intro always
  have ten := always ⟨['1', '0'], by simp, by simp⟩ .B ['B'] rfl (by decide +kernel) 0
  have one : toFileSize ['1', '0', 'B'] 0 = 1 := by decide +kernel
  exact absurd (one.symm.trans ten) (by decide +kernel)

end CodeCollect.Log4cxx.OptionConverter
