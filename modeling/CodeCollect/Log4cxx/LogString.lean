import Mathlib

namespace CodeCollect.Log4cxx

/-- A log string is the list of its characters. -/
abbrev LogString := List Char

namespace StringHelper

/-- This function is `StringHelper::startsWith`. -/
def startsWith (s start : LogString) : Bool :=
  s.take start.length == start

/-- This function is `StringHelper::endsWith`. -/
def endsWith (s suffix : LogString) : Bool :=
  if suffix.length ≤ s.length then s.drop (s.length - suffix.length) == suffix else false

/-- This function is `StringHelper::trim`, which removes spaces and no other white space. -/
def trim (s : LogString) : LogString :=
  ((s.dropWhile (· == ' ')).reverse.dropWhile (· == ' ')).reverse

/-- This function is the `int` overload of `StringHelper::toString`. -/
def toString (n : Int) : LogString :=
  if n < 0 then '-' :: Nat.toDigits 10 n.natAbs else Nat.toDigits 10 n.natAbs

theorem startsWith_iff (s start : LogString) : startsWith s start = true ↔ start <+: s := by
  rw [startsWith, beq_iff_eq, List.prefix_iff_eq_take, eq_comm]

theorem endsWith_iff (s suffix : LogString) : endsWith s suffix = true ↔ suffix <:+ s := by
  rw [endsWith]
  split
  · rw [beq_iff_eq, List.suffix_iff_eq_drop, eq_comm]
  · rename_i longer
    constructor
    · intro impossible
      exact absurd impossible (by simp)
    · intro suffixed
      exact absurd suffixed.length_le longer

/-- A rendered integer holds digits and at most a minus sign. -/
theorem mem_toString (n : Int) (c : Char) (member : c ∈ toString n) :
    c = '-' ∨ c.isDigit = true := by
  have digits (found : c ∈ Nat.toDigits 10 n.natAbs) : c.isDigit = true :=
    Nat.isDigit_of_mem_toDigits (by decide) (by decide) found
  unfold toString at member
  split at member
  · cases member with
    | head => exact Or.inl rfl
    | tail _ found => exact Or.inr (digits found)
  · exact Or.inr (digits member)

/-- A rendered integer has at least one character. -/
theorem toString_ne_nil (n : Int) : toString n ≠ [] := by
  unfold toString
  split
  · simp
  · exact Nat.toDigits_ne_nil

end StringHelper

structure Level where
  toInt : Int
  name : LogString
deriving DecidableEq, Repr

namespace Level

def getDebug : Level := ⟨10000, ['D', 'E', 'B', 'U', 'G']⟩

def getAll : Level := ⟨-2147483648, ['A', 'L', 'L']⟩

end Level

end CodeCollect.Log4cxx
