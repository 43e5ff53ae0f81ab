import CodeCollect.Log4cxx.LogString

namespace CodeCollect.Log4cxx

/-- A date format is the text that it appends for each time in microseconds. -/
abbrev DateFormat := Int → LogString

/-- This is the least value of the signed 64-bit type `log4cxx_time_t`. -/
def timeMinimum : Int := -9223372036854775808

/-- This is the greatest value of `log4cxx_time_t`. -/
def timeMaximum : Int := 9223372036854775807

/-- The last five fields are the constant and the mutable members of the source class. -/
structure CachedDateFormat where
  formatter : DateFormat
  millisecondStart : Int
  slotBegin : Int
  cache : LogString
  expiration : Int
  previousTime : Int

namespace CachedDateFormat

/-- Changing the milliseconds did not change the text. -/
def noMilliseconds : Int := -2

/-- Changing the milliseconds changed the text in an unexpected way. -/
def unrecognizedMilliseconds : Int := -1

def magic1 : Int := 654000

def magic2 : Int := 987000

def digits : LogString := ['0', '1', '2', '3', '4', '5', '6', '7', '8', '9']

def magicString1 : LogString := ['6', '5', '4']

def magicString2 : LogString := ['9', '8', '7']

def zeroString : LogString := ['0', '0', '0']

/-- A new object starts with fifty blanks in the cache. -/
def fresh (formatter : DateFormat) (expiration : Int) : CachedDateFormat where
  formatter := formatter
  millisecondStart := 0
  slotBegin := timeMinimum
  cache := List.replicate 50 ' '
  expiration := expiration
  previousTime := timeMinimum

/-- The constructor rejects a null format and a negative expiration. -/
def create (dateFormat : Option DateFormat) (expiration1 : Int) :
    Except String CachedDateFormat :=
  match dateFormat with
  | none => .error "dateFormat cannot be null"
  | some formatter =>
      if expiration1 < 0 then .error "expiration must be non-negative"
      else .ok (fresh formatter expiration1)

/-- Both callers round a time down to its integral second in this way. -/
def slotBeginOf (time : Int) : Int :=
  let slotBegin := time.tdiv 1000000 * 1000000
  if slotBegin > time then slotBegin - 1000000 else slotBegin

/-- The digit table ends with a null character. -/
def digit (value : Int) : Char := digits.getD value.toNat '\x00'

/-- This function overwrites three characters of the buffer. -/
def millisecondFormat (millis : Int) (buf : LogString) (offset : Nat) : LogString :=
  ((buf.set offset (digit (millis.tdiv 100))).set (offset + 1)
    (digit ((millis.tdiv 10).tmod 10))).set (offset + 2) (digit (millis.tmod 10))

def regionMatches (target : LogString) (toffset : Nat) (other : LogString)
    (ooffset len : Nat) : Bool :=
  (target.drop toffset).take len == (other.drop ooffset).take len

/-- The search loop stops at the first position where the two texts differ. -/
def firstDifference : LogString → LogString → Option Nat
  | a :: formatted, b :: plusMagic =>
      if a ≠ b then some 0 else (firstDifference formatted plusMagic).map (· + 1)
  | _, _ => none

def findMillisecondStart (time : Int) (formatted : LogString) (formatter : DateFormat) : Int :=
  let slotBegin := slotBeginOf time
  let millis := (time - slotBegin).tdiv 1000
  -- The source compares a count of milliseconds with a constant in microseconds.
  let magic := if millis = magic1 then magic2 else magic1
  let magicString := if millis = magic1 then magicString2 else magicString1
  let plusMagic := formatter (slotBegin + magic)
  if plusMagic.length ≠ formatted.length then unrecognizedMilliseconds
  else match firstDifference formatted plusMagic with
    | none => noMilliseconds
    | some i =>
        let formattedMillis := millisecondFormat millis ['A', 'B', 'C'] 0
        let plusZero := formatter slotBegin
        if plusZero.length = formatted.length
            ∧ regionMatches magicString 0 plusMagic i magicString.length
            ∧ regionMatches formattedMillis 0 formatted i magicString.length
            ∧ regionMatches zeroString 0 plusZero i 3
            ∧ (formatted.length = i + 3 ∨ plusZero.drop (i + 3) = plusMagic.drop (i + 3))
        then i else unrecognizedMilliseconds

/-- The cache serves a time of the second that it holds, unless it expired. -/
def Serves (self : CachedDateFormat) (now : Int) : Prop :=
  self.millisecondStart ≠ unrecognizedMilliseconds ∧ now < self.slotBegin + self.expiration
    ∧ now ≥ self.slotBegin ∧ now < self.slotBegin + 1000000

instance (self : CachedDateFormat) (now : Int) : Decidable (self.Serves now) :=
  inferInstanceAs (Decidable (_ ∧ _))

/-- This function returns the extended buffer and the new mutable members. -/
def format (self : CachedDateFormat) (buf : LogString) (now : Int) :
    LogString × CachedDateFormat :=
  if now = self.previousTime then (buf ++ self.cache, self)
  else if self.Serves now then
    let cache :=
      if self.millisecondStart ≥ 0 then
        millisecondFormat ((now - self.slotBegin).tdiv 1000) self.cache
          self.millisecondStart.toNat
      else self.cache
    (buf ++ cache, { self with cache := cache, previousTime := now })
  else
    let cache := self.formatter now
    let millisecondStart :=
      if self.millisecondStart ≥ 0 then findMillisecondStart now cache self.formatter
      else self.millisecondStart
    (buf ++ cache,
      { self with
        cache := cache
        previousTime := now
        slotBegin := slotBeginOf now
        millisecondStart := millisecondStart })

/-- These are the buffers after a sequence of calls, each with its own buffer and time. -/
def formatCalls (self : CachedDateFormat) : List (LogString × Int) → List LogString
  | [] => []
  | (buf, now) :: calls => (self.format buf now).1 :: (self.format buf now).2.formatCalls calls

/-- A time is in range when one second around it stays inside the 64-bit type. -/
def InRange (time : Int) : Prop :=
  timeMinimum + 1000000 ≤ time ∧ time ≤ timeMaximum - 1000000

instance (time : Int) : Decidable (InRange time) := inferInstanceAs (Decidable (_ ∧ _))

/-- The rounding is downward for negative times as well. -/
theorem slotBeginOf_eq (time : Int) : slotBeginOf time = time / 1000000 * 1000000 := by
  unfold slotBeginOf
  dsimp only
  by_cases negative : time < 0
  · have quotient : time.tdiv 1000000 = -(-time / 1000000) := by
      rw [← Int.tdiv_eq_ediv_of_nonneg (by omega), Int.neg_tdiv, neg_neg]
    rw [quotient]
    split <;> omega
  · rw [Int.tdiv_eq_ediv_of_nonneg (by omega)]
    split <;> omega

end CachedDateFormat

end CodeCollect.Log4cxx
