import CodeCollect.Log4cxx.HTMLLayout

namespace CodeCollect.Log4cxx

/-- These are the further fields of an exploded time. -/
structure ZonedTimeExp extends TimeExp where
  tm_wday : Int
  tm_yday : Int
  tm_gmtoff : Int

/-- These are the documented ranges of the fields. -/
structure ZonedTimeExp.InRange (tm : ZonedTimeExp) : Prop where
  usec : 0 ≤ tm.tm_usec ∧ tm.tm_usec < 1000000
  sec : 0 ≤ tm.tm_sec ∧ tm.tm_sec ≤ 61
  min : 0 ≤ tm.tm_min ∧ tm.tm_min < 60
  hour : 0 ≤ tm.tm_hour ∧ tm.tm_hour < 24
  mday : 1 ≤ tm.tm_mday ∧ tm.tm_mday ≤ 31
  mon : 0 ≤ tm.tm_mon ∧ tm.tm_mon < 12
  wday : 0 ≤ tm.tm_wday ∧ tm.tm_wday < 7
  yday : 0 ≤ tm.tm_yday ∧ tm.tm_yday < 366

/-- A time zone explodes times into fields, or reports that it could not. -/
structure TimeZone where
  id : LogString
  explode : Int → Option ZonedTimeExp
  inRange : ∀ time tm, explode time = some tm → tm.InRange

namespace SimpleDateFormat

/-- These are the names that `renderFacet` takes from the locale. -/
structure LocaleNames where
  abbreviatedMonths : List LogString
  fullMonths : List LogString
  abbreviatedDays : List LogString
  fullDays : List LogString
  halfDays : List LogString

/-- These are the kinds of tokens. -/
inductive PatternToken where
  | literal (ch : Char) (count : Nat)
  | era
  | numeric (width : Nat) (getField : ZonedTimeExp → Int)
  | name (names : List LogString) (index : ZonedTimeExp → Int)
  | generalTimeZone (timeZone : Option TimeZone)
  | rfc822TimeZone

namespace PatternToken

def yearToken (width1 : Nat) : PatternToken := .numeric width1 fun tm => 1900 + tm.tm_year

def monthToken (width1 : Nat) : PatternToken := .numeric width1 fun tm => tm.tm_mon + 1

def weekInYearToken (width1 : Nat) : PatternToken := .numeric width1 fun tm => tm.tm_yday.tdiv 7

def weekInMonthToken (width1 : Nat) : PatternToken := .numeric width1 fun tm => tm.tm_mday.tdiv 7

def dayInMonthToken (width1 : Nat) : PatternToken := .numeric width1 fun tm => tm.tm_mday

def dayInYearToken (width1 : Nat) : PatternToken := .numeric width1 fun tm => tm.tm_yday

def dayOfWeekInMonthToken (width1 : Nat) : PatternToken := .numeric width1 fun _ => -1

def militaryHourToken (width1 : Nat) (offset1 : Int) : PatternToken :=
  .numeric width1 fun tm => tm.tm_hour + offset1

/-- The constructor does not store its argument in the member `offset`. -/
def hourToken (width1 : Nat) (_offset1 offset : Int) : PatternToken :=
  .numeric width1 fun tm => (tm.tm_hour + 12 - offset).tmod 12 + offset

def minuteToken (width1 : Nat) : PatternToken := .numeric width1 fun tm => tm.tm_min

def secondToken (width1 : Nat) : PatternToken := .numeric width1 fun tm => tm.tm_sec

def millisecondToken (width1 : Nat) : PatternToken :=
  .numeric width1 fun tm => tm.tm_usec.tdiv 1000

def abbreviatedMonthNameToken (locale : LocaleNames) : PatternToken :=
  .name locale.abbreviatedMonths fun tm => tm.tm_mon

def fullMonthNameToken (locale : LocaleNames) : PatternToken :=
  .name locale.fullMonths fun tm => tm.tm_mon

def abbreviatedDayNameToken (locale : LocaleNames) : PatternToken :=
  .name locale.abbreviatedDays fun tm => tm.tm_wday

def fullDayNameToken (locale : LocaleNames) : PatternToken :=
  .name locale.fullDays fun tm => tm.tm_wday

def aMPMToken (locale : LocaleNames) : PatternToken :=
  .name locale.halfDays fun tm => tm.tm_hour.tdiv 12

/-- Only one kind of token keeps a time zone. -/
def setTimeZone (zone : TimeZone) : PatternToken → PatternToken
  | .generalTimeZone _ => .generalTimeZone (some zone)
  | token => token

/-- This is `NumericToken::format`. -/
def formatNumeric (width : Nat) (value : Int) (s : LogString) : LogString :=
  let appended := s ++ StringHelper.toString value
  if s.length + width > appended.length then
    appended.take s.length ++ List.replicate (s.length + width - appended.length) '0' ++
      appended.drop s.length
  else appended

/-- These characters are stored from a position towards the front, the last of them first. -/
def storeBack : LogString → Int → LogString → Option LogString
  | [], _, s => some s
  | c :: digits, position, s =>
      if 0 ≤ position ∧ position < s.length then
        storeBack digits (position - 1) (s.set position.toNat c)
      else none

/-- This is `RFC822TimeZoneToken::format`. -/
def formatRFC822 (tm_gmtoff : Int) (s : LogString) : Option LogString :=
  if tm_gmtoff = 0 then some (s ++ ['Z'])
  else
    let basePos := s.length
    let signed := if tm_gmtoff < 0 then (s ++ "+0000".toList).set basePos '-' else s ++ "+0000".toList
    let off := if tm_gmtoff < 0 then -tm_gmtoff else tm_gmtoff
    (storeBack (StringHelper.toString (off.tdiv 3600)).reverse (basePos + 2) signed).bind
      (storeBack (StringHelper.toString ((off.tmod 3600).tdiv 60)).reverse (basePos + 4))

/-- A token without a time zone or a name has no result. -/
def format (token : PatternToken) (s : LogString) (tm : ZonedTimeExp) : Option LogString :=
  match token with
  | .literal ch count => some (s ++ List.replicate count ch)
  | .era => some (s ++ ['A', 'D'])
  | .numeric width getField => some (formatNumeric width (getField tm) s)
  | .name names index =>
      (if 0 ≤ index tm then names[(index tm).toNat]? else none).map (s ++ ·)
  | .generalTimeZone timeZone => timeZone.map (s ++ ·.id)
  | .rfc822TimeZone => formatRFC822 tm.tm_gmtoff s

end PatternToken

open PatternToken

/-- `offset` is what the memory holds that no constructor writes. -/
def newToken (locale : LocaleNames) (offset : Int) (spec : Char) (count : Nat) : PatternToken :=
  match spec with
  | 'G' => .era
  | 'y' => yearToken count
  | 'M' =>
      if count ≤ 2 then monthToken count
      else if count ≤ 3 then abbreviatedMonthNameToken locale
      else fullMonthNameToken locale
  | 'w' => weekInYearToken count
  | 'W' => weekInMonthToken count
  | 'D' => dayInYearToken count
  | 'd' => dayInMonthToken count
  | 'F' => dayOfWeekInMonthToken count
  | 'E' => if count ≤ 3 then abbreviatedDayNameToken locale else fullDayNameToken locale
  | 'a' => aMPMToken locale
  | 'H' => militaryHourToken count 0
  | 'k' => militaryHourToken count 1
  | 'K' => hourToken count 0 offset
  | 'h' => hourToken count 1 offset
  | 'm' => minuteToken count
  | 's' => secondToken count
  | 'S' => millisecondToken count
  | 'z' => .generalTimeZone none
  | 'Z' => .rfc822TimeZone
  | _ => .literal spec count

section Construction

variable (locale : LocaleNames) (memory : Nat → Int)

/-- The token at each place of the pattern has its own uninitialised memory. -/
def addToken (spec : Char) (count : Nat) (pattern : List PatternToken) : List PatternToken :=
  pattern ++ [newToken locale (memory pattern.length) spec count]

/-- This is the loop of `parsePattern`. -/
def parseFrom (prevChar : Char) (count : Nat) (pattern : List PatternToken) :
    LogString → List PatternToken
  | [] => addToken locale memory prevChar count pattern
  | c :: fmt =>
      if c = prevChar then parseFrom prevChar (count + 1) pattern fmt
      else parseFrom c 1 (addToken locale memory prevChar count pattern) fmt

def parsePattern (fmt : LogString) : List PatternToken :=
  match fmt with
  | [] => []
  | c :: fmt => parseFrom locale memory c 1 [] fmt

end Construction

end SimpleDateFormat

open SimpleDateFormat

/-- The zone of the formatter explodes the times, and the tokens have zones of their own. -/
structure SimpleDateFormat where
  timeZone : TimeZone
  pattern : List PatternToken

namespace SimpleDateFormat

/-- This is the constructor, which hands the default time zone to every token. -/
def construct (locale : LocaleNames) (memory : Nat → Int) (default : TimeZone) (fmt : LogString) :
    SimpleDateFormat :=
  ⟨default, (parsePattern locale memory fmt).map (·.setTimeZone default)⟩

def setTimeZone (format : SimpleDateFormat) (zone : TimeZone) : SimpleDateFormat :=
  { format with timeZone := zone }

/-- Nothing is appended when the time cannot be exploded. -/
def format (self : SimpleDateFormat) (s : LogString) (time : Int) : Option LogString :=
  match self.timeZone.explode time with
  | none => some s
  | some exploded => self.pattern.foldlM (fun s token => token.format s exploded) s

end SimpleDateFormat

end CodeCollect.Log4cxx
