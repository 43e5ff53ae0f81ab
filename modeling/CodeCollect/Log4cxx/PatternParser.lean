import CodeCollect.Log4cxx.LogString

namespace CodeCollect.Log4cxx.PatternParser

def INT_MAX : Int := 2147483647

/-- The arithmetic of an `int` wraps around. -/
def toInt (n : Int) : Int := n.bmod (2 ^ 32)

structure FormattingInfo where
  leftAlign : Bool
  minLength : Int
  maxLength : Int
deriving DecidableEq, Repr

def FormattingInfo.getDefault : FormattingInfo := ⟨false, 0, INT_MAX⟩

inductive PatternConverter (Converter : Type) where
  | literal (text : LogString)
  | rule (converter : Converter)
deriving DecidableEq, Repr

/-- A constructor may give a null pointer for its options. -/
abbrev PatternMap (Converter : Type) := LogString → Option (List LogString → Option Converter)

inductive State where
  | literal
  | converter
  | dot
  | min
  | max
deriving DecidableEq, Repr

def ESCAPE_CHAR : Char := '%'

/-- In spite of its name this function accepts digits. -/
def isUnicodeIdentifierStart (ch : Char) : Bool :=
  (decide ('A' ≤ ch) && decide (ch ≤ 'Z')) || (decide ('a' ≤ ch) && decide (ch ≤ 'z')) ||
    (decide ('0' ≤ ch) && decide (ch ≤ '9'))

def isUnicodeIdentifierPart (ch : Char) : Bool :=
  isUnicodeIdentifierStart ch || ch == '_'

def isDigit (c : Char) : Bool := decide ('0' ≤ c) && decide (c ≤ '9')

def digit (c : Char) : Int := c.toNat - '0'.toNat

/-- The results are the identifier, the literal with its further characters, and the rest. -/
def extractConverter (lastChar : Char) (pattern currentLiteral : LogString) :
    LogString × LogString × LogString :=
  if isUnicodeIdentifierStart lastChar then
    (lastChar :: pattern.takeWhile isUnicodeIdentifierPart,
      currentLiteral ++ pattern.takeWhile isUnicodeIdentifierPart,
      pattern.dropWhile isUnicodeIdentifierPart)
  else ([], currentLiteral, pattern)

/-- The options end before a brace that is not closed. -/
def extractOptions (pattern : LogString) : List LogString × LogString :=
  match pattern with
  | [] => ([], [])
  | c :: rest =>
      if c = '\x7b' ∧ '\x7d' ∈ rest then
        let further := extractOptions (rest.dropWhile (· != '\x7d')).tail
        (rest.takeWhile (· != '\x7d') :: further.1, further.2)
      else ([], c :: rest)
termination_by pattern.length
decreasing_by
  rw [List.length_tail, List.length_cons]
  exact lt_of_le_of_lt ((Nat.sub_le _ _).trans (List.length_dropWhile_le _ _)) (Nat.lt_succ_self _)

variable {Converter : Type}

/-- This is the loop of `createConverter` from the prefix of length `i` on. -/
def createConverterFrom (rules : PatternMap Converter) (options : List LogString)
    (converterId currentLiteral : LogString) : Nat → Option Converter × LogString
  | 0 => (none, currentLiteral)
  | i + 1 =>
      match rules (converterId.take (i + 1)) with
      | some newInstance =>
          (newInstance options, currentLiteral.rtake (converterId.length - (i + 1)))
      | none => createConverterFrom rules options converterId currentLiteral i

/-- The second result is what is left in the literal. -/
def createConverter (rules : PatternMap Converter) (options : List LogString)
    (converterId currentLiteral : LogString) : Option Converter × LogString :=
  createConverterFrom rules options converterId currentLiteral converterId.length

end PatternParser

/-- These are the variables of `parse`. -/
structure PatternParser (Converter : Type) where
  state : PatternParser.State
  currentLiteral : LogString
  formattingInfo : PatternParser.FormattingInfo
  patternConverters : List (PatternParser.PatternConverter Converter)
  formattingInfos : List PatternParser.FormattingInfo

namespace PatternParser

variable {Converter : Type} (rules : PatternMap Converter) (self : PatternParser Converter)

def append (c : Char) : PatternParser Converter :=
  { self with currentLiteral := self.currentLiteral ++ [c] }

def push (converter : PatternConverter Converter) (info : FormattingInfo) :
    PatternParser Converter :=
  { self with
    patternConverters := self.patternConverters ++ [converter]
    formattingInfos := self.formattingInfos ++ [info] }

def pushLiteral : PatternParser Converter :=
  self.push (.literal self.currentLiteral) FormattingInfo.getDefault

/-- The literal is pushed and erased when it has a character. -/
def flush : PatternParser Converter :=
  if self.currentLiteral ≠ [] then { self.pushLiteral with currentLiteral := [] } else self

/-- A literal is pushed in place of a converter that cannot be made. -/
def pushUnrecognized (currentLiteral : LogString) : PatternParser Converter :=
  { self.push (.literal currentLiteral) FormattingInfo.getDefault with currentLiteral := [] }

def finalizeConverter (c : Char) (pattern : LogString) : PatternParser Converter × LogString :=
  let extracted := extractConverter c pattern self.currentLiteral
  if extracted.1 = [] then (self.pushUnrecognized extracted.2.1, extracted.2.2)
  else
    let options := extractOptions extracted.2.2
    let created := createConverter rules options.1 extracted.1 extracted.2.1
    match created.1 with
    | none => (self.pushUnrecognized created.2, options.2)
    | some pc =>
        (({ self.push (.rule pc) self.formattingInfo with
            currentLiteral := created.2 } : PatternParser Converter).flush, options.2)

/-- The next pattern is assumed to be a literal. -/
def finish (c : Char) (pattern : LogString) : PatternParser Converter × LogString :=
  let finalized := self.finalizeConverter rules c pattern
  ({ finalized.1 with
      state := .literal
      formattingInfo := FormattingInfo.getDefault
      currentLiteral := [] }, finalized.2)

/-- The last character of a pattern is always a literal in this state. -/
def stepLiteral (c : Char) : LogString → PatternParser Converter × LogString
  | [] => (self.append c, [])
  | next :: rest =>
      if c = ESCAPE_CHAR then
        if next = ESCAPE_CHAR then (self.append c, rest)
        else
          ({ self.flush.append c with
              state := .converter
              formattingInfo := FormattingInfo.getDefault }, next :: rest)
      else (self.append c, next :: rest)

def stepConverter (c : Char) (pattern : LogString) : PatternParser Converter × LogString :=
  if c = '-' then
    ({ self.append c with formattingInfo := { self.formattingInfo with leftAlign := true } },
      pattern)
  else if c = '.' then ({ self.append c with state := .dot }, pattern)
  else if isDigit c then
    ({ self.append c with
        formattingInfo := { self.formattingInfo with minLength := digit c }
        state := .min }, pattern)
  else (self.append c).finish rules c pattern

def stepMin (c : Char) (pattern : LogString) : PatternParser Converter × LogString :=
  if isDigit c then
    ({ self.append c with
        formattingInfo := { self.formattingInfo with
          minLength := toInt (toInt (self.formattingInfo.minLength * 10) + digit c) } }, pattern)
  else if c = '.' then ({ self.append c with state := .dot }, pattern)
  else (self.append c).finish rules c pattern

def stepDot (c : Char) (pattern : LogString) : PatternParser Converter × LogString :=
  if isDigit c then
    ({ self.append c with
        formattingInfo := { self.formattingInfo with maxLength := digit c }
        state := .max }, pattern)
  else ({ self.append c with state := .literal }, pattern)

def stepMax (c : Char) (pattern : LogString) : PatternParser Converter × LogString :=
  if isDigit c then
    ({ self.append c with
        formattingInfo := { self.formattingInfo with
          maxLength := toInt (toInt (self.formattingInfo.maxLength * 10) + digit c) } }, pattern)
  else (self.append c).finish rules c pattern

/-- This is one round of the loop, with the rest of the pattern after `c`. -/
def step (c : Char) (pattern : LogString) : PatternParser Converter × LogString :=
  match self.state with
  | .literal => self.stepLiteral c pattern
  | .converter => self.stepConverter rules c pattern
  | .min => self.stepMin rules c pattern
  | .dot => self.stepDot c pattern
  | .max => self.stepMax rules c pattern

theorem extractOptions_length (pattern : LogString) :
    (extractOptions pattern).2.length ≤ pattern.length := by
  fun_induction extractOptions pattern with
  | case1 => exact le_rfl
  | case2 c rest opens further ih =>
      rw [List.length_tail] at ih
      have dropped := List.length_dropWhile_le (· != '\x7d') rest
      rw [List.length_cons]
      exact ih.trans ((Nat.sub_le _ _).trans (dropped.trans (Nat.le_succ _)))
  | case3 => exact le_rfl

theorem finalizeConverter_length (c : Char) (pattern : LogString) :
    (self.finalizeConverter rules c pattern).2.length ≤ pattern.length := by
  have dropped := List.length_dropWhile_le isUnicodeIdentifierPart pattern
  have extracted : (extractConverter c pattern self.currentLiteral).2.2.length ≤
      pattern.length := by
    rw [extractConverter]
    split
    · exact dropped
    · exact le_rfl
  have scanned := extractOptions_length (extractConverter c pattern self.currentLiteral).2.2
  rw [finalizeConverter]
  split
  · exact extracted
  · dsimp only
    split
    · exact scanned.trans extracted
    · exact scanned.trans extracted

/-- No round goes back in the pattern. -/
theorem step_length (c : Char) (pattern : LogString) :
    (self.step rules c pattern).2.length ≤ pattern.length := by
  have finished : ((self.append c).finish rules c pattern).2.length ≤ pattern.length :=
    (self.append c).finalizeConverter_length rules c pattern
  rw [step]
  cases self.state with
  | literal =>
      cases pattern with
      | nil => exact le_rfl
      | cons next rest =>
          change (self.stepLiteral c (next :: rest)).2.length ≤ _
          rw [stepLiteral]
          split
          · split
            · exact Nat.le_succ _
            · exact le_rfl
          · exact le_rfl
  | converter =>
      change (self.stepConverter rules c pattern).2.length ≤ _
      rw [stepConverter]
      split
      · exact le_rfl
      · split
        · exact le_rfl
        · split
          · exact le_rfl
          · exact finished
  | dot =>
      change (self.stepDot c pattern).2.length ≤ _
      rw [stepDot]
      split <;> exact le_rfl
  | min =>
      change (self.stepMin rules c pattern).2.length ≤ _
      rw [stepMin]
      split
      · exact le_rfl
      · split
        · exact le_rfl
        · exact finished
  | max =>
      change (self.stepMax rules c pattern).2.length ≤ _
      rw [stepMax]
      split
      · exact le_rfl
      · exact finished

/-- This is the loop of `parse`. -/
def run (self : PatternParser Converter) (pattern : LogString) : PatternParser Converter :=
  match pattern with
  | [] => self
  | c :: rest => run (self.step rules c rest).1 (self.step rules c rest).2
termination_by pattern.length
decreasing_by exact Nat.lt_succ_of_le (self.step_length rules c rest)

/-- The results are appended to the two lists that the caller gives. -/
def parse (pattern : LogString) (patternConverters : List (PatternConverter Converter))
    (formattingInfos : List FormattingInfo) (rules : PatternMap Converter) :
    List (PatternConverter Converter) × List FormattingInfo :=
  let start : PatternParser Converter :=
    ⟨.literal, [], FormattingInfo.getDefault, patternConverters, formattingInfos⟩
  let last := (start.run rules pattern).flush
  (last.patternConverters, last.formattingInfos)

end CodeCollect.Log4cxx.PatternParser
