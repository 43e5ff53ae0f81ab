import CodeCollect.Log4cxx.FileAppenderPath
import CodeCollect.Log4cxx.FileSize
import CodeCollect.Log4cxx.StringHelperFormat

namespace CodeCollect.Log4cxx

/-- This function is `StringHelper::toInt`, where `atoi` keeps the last 32 bits of a `long`. -/
def StringHelper.toInt (s : LogString) : Int := (OptionConverter.atol s).bmod (2 ^ 32)

namespace NameAbbreviator

open StringHelper (NUL)

def INT_MAX : Nat := 2147483647

/-- A position is `none` where the source has `npos`. -/
abbrev Position := Option Nat

/-- This is `find` for one character. -/
def find (buf : LogString) (c : Char) (pos : Nat) : Position :=
  ((buf.drop pos).findIdx? (· == c)).map (pos + ·)

/-- This is `rfind` for one character. -/
def rfind (buf : LogString) (c : Char) : Position → Position
  | none => FileAppender.findLastOf buf c buf.length
  | some pos => FileAppender.findLastOf buf c (pos + 1)

/-- The position before the first one is `npos`, and a search from before `npos` is one from it. -/
def before : Position → Position
  | some (pos + 1) => some pos
  | _ => none

/-- A fragment keeps some characters and has an ellipsis, which may be absent. -/
structure PatternAbbreviatorFragment where
  charCount : Nat
  ellipsis : Char

/-- This function abbreviates the element at a position and returns the next position. -/
def PatternAbbreviatorFragment.abbreviate (self : PatternAbbreviatorFragment) (buf : LogString)
    (startPos : Nat) : LogString × Position :=
  match find buf '.' startPos with
  | none => (buf, none)
  | some nextDot =>
      if nextDot - startPos > self.charCount then
        let buf := buf.take (startPos + self.charCount) ++ buf.drop nextDot
        let nextDot := startPos + self.charCount
        if self.ellipsis ≠ NUL then
          (buf.take nextDot ++ self.ellipsis :: buf.drop nextDot, some (nextDot + 1 + 1))
        else (buf, some (nextDot + 1))
      else (buf, some (nextDot + 1))

/-- The constructor refuses an empty list of fragments. -/
structure PatternAbbreviator where
  fragments : List PatternAbbreviatorFragment
  filled : fragments ≠ []

namespace PatternAbbreviator

/-- This is the constructor, with the text of its exception. -/
def make (fragments : List PatternAbbreviatorFragment) : Except String PatternAbbreviator :=
  if filled : fragments = [] then
    throw "fragments parameter must contain at least one element"
  else pure ⟨fragments, filled⟩

/-- Each fragment but the last is applied once. -/
def once : List PatternAbbreviatorFragment → LogString → Position → LogString × Position
  | [], buf, pos => (buf, pos)
  | _, buf, none => (buf, none)
  | fragment :: fragments, buf, some pos =>
      if pos < buf.length then
        once fragments (fragment.abbreviate buf pos).1 (fragment.abbreviate buf pos).2
      else (buf, some pos)

end PatternAbbreviator

theorem find_eq_some {buf : LogString} {c : Char} {pos found : Nat}
    (at_ : find buf c pos = some found) : pos ≤ found ∧ found < buf.length := by
  rw [find, Option.map_eq_some_iff] at at_
  obtain ⟨offset, inside, rfl⟩ := at_
  have bound := (List.findIdx?_eq_some_iff_getElem.mp inside).1
  rw [List.length_drop] at bound
  omega

/-- Each application leaves fewer characters behind the position. -/
theorem PatternAbbreviatorFragment.abbreviate_behind (self : PatternAbbreviatorFragment)
    {buf : LogString} {pos : Nat} (inside : pos < buf.length) :
    ((self.abbreviate buf pos).2.elim 0 fun next => (self.abbreviate buf pos).1.length - next) <
      buf.length - pos := by
  rw [PatternAbbreviatorFragment.abbreviate]
  split
  · exact Nat.sub_pos_of_lt inside
  · rename_i nextDot found
    have bounds := find_eq_some found
    split
    · simp only []
      split
      · simp only [Option.elim_some, List.length_append, List.length_take, List.length_drop,
          List.length_cons]
        omega
      · simp only [Option.elim_some, List.length_append, List.length_take, List.length_drop]
        omega
    · simp only [Option.elim_some]
      omega

namespace PatternAbbreviator

/-- The last fragment is applied until the buffer ends. -/
def repeated (terminalFragment : PatternAbbreviatorFragment) (buf : LogString) (pos : Position) :
    LogString :=
  match pos with
  | none => buf
  | some pos =>
      if pos < buf.length then
        repeated terminalFragment (terminalFragment.abbreviate buf pos).1
          (terminalFragment.abbreviate buf pos).2
      else buf
termination_by pos.elim 0 fun pos => buf.length - pos
decreasing_by
  rename_i inside
  exact terminalFragment.abbreviate_behind inside

def abbreviate (self : PatternAbbreviator) (nameStart : Nat) (buf : LogString) : LogString :=
  let applied := once self.fragments.dropLast buf (some nameStart)
  repeated (self.fragments.getLast self.filled) applied.1 applied.2

end PatternAbbreviator

/-- This abbreviator has a largest number of path elements. -/
structure MaxElementAbbreviator where
  count : Int

namespace MaxElementAbbreviator

/-- This is the loop, and it returns nothing where the source returns early. -/
def lastDot (nameStart : Nat) (buf : LogString) : Nat → Position → Option Position
  | 0, finish => some finish
  | i + 1, finish =>
      match rfind buf '.' (before finish) with
      | none => none
      | some finish =>
          if finish < nameStart then none else lastDot nameStart buf i (some finish)

/-- The count is converted to an unsigned size. -/
def turns (self : MaxElementAbbreviator) : Nat := (self.count % 18446744073709551616).toNat

def abbreviate (self : MaxElementAbbreviator) (nameStart : Nat) (buf : LogString) : LogString :=
  match lastDot nameStart buf self.turns (before (some buf.length)) with
  | none => buf
  | some finish => buf.take nameStart ++ buf.drop (finish.elim 0 (· + 1))

end MaxElementAbbreviator

end NameAbbreviator

/-- These are the abbreviators that a pattern can name. -/
inductive NameAbbreviator where
  | nop
  | maxElement (abbreviator : NameAbbreviator.MaxElementAbbreviator)
  | pattern (abbreviator : NameAbbreviator.PatternAbbreviator)

namespace NameAbbreviator

open StringHelper (NUL)

def abbreviate : NameAbbreviator → Nat → LogString → LogString
  | nop, _, buf => buf
  | maxElement abbreviator, nameStart, buf => abbreviator.abbreviate nameStart buf
  | pattern abbreviator, nameStart, buf => abbreviator.abbreviate nameStart buf

/-- This is the fragment that a pattern has at a position. -/
def fragmentAt (trimmed : LogString) (pos : Nat) : PatternAbbreviatorFragment :=
  let c := trimmed.getD pos NUL
  let charCount :=
    if c = '*' then INT_MAX else if c.isDigit then c.toNat - '0'.toNat else 0
  let ellipsisPos := if c = '*' ∨ c.isDigit then pos + 1 else pos
  let ellipsis := trimmed.getD ellipsisPos NUL
  ⟨charCount, if ellipsis = '.' then NUL else ellipsis⟩

/-- This is the loop over the fragments of a pattern. -/
def fragmentsFrom (trimmed : LogString) (pos : Nat) : List PatternAbbreviatorFragment :=
  if pos < trimmed.length then
    fragmentAt trimmed pos ::
      match _found : find trimmed '.' pos with
      | none => []
      | some dot => fragmentsFrom trimmed (dot + 1)
  else []
termination_by trimmed.length - pos
decreasing_by
  have bounds := find_eq_some _found
  omega

def getDefaultAbbreviator : NameAbbreviator := nop

def getAbbreviator (pattern : LogString) : Except String NameAbbreviator :=
  let trimmed := StringHelper.trim pattern
  if trimmed = [] then pure getDefaultAbbreviator
  else if ∀ c ∈ trimmed, c.isDigit then pure (maxElement ⟨StringHelper.toInt trimmed⟩)
  else return NameAbbreviator.pattern (← PatternAbbreviator.make (fragmentsFrom trimmed 0))

end NameAbbreviator

end CodeCollect.Log4cxx
