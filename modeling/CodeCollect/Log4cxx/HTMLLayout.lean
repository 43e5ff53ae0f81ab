import CodeCollect.Library.HtmlTokenizer
import CodeCollect.Log4cxx.Layout

namespace CodeCollect.Log4cxx

/-- These are the fields of an exploded time. -/
structure TimeExp where
  tm_usec : Int
  tm_sec : Int
  tm_min : Int
  tm_hour : Int
  tm_mday : Int
  tm_mon : Int
  tm_year : Int

namespace SimpleDateFormat

/-- A number is filled up with zeros in front of it. -/
def numericToken (width : Nat) (field : Int) : LogString :=
  List.replicate (width - (StringHelper.toString field).length) '0' ++ StringHelper.toString field

/-- This is the pattern `yyyy-MM-dd HH:mm:ss,SSS`. -/
def formatISO8601 (tm : TimeExp) : LogString :=
  numericToken 4 (1900 + tm.tm_year) ++ ['-'] ++ numericToken 2 (tm.tm_mon + 1) ++ ['-'] ++
    numericToken 2 tm.tm_mday ++ [' '] ++ numericToken 2 tm.tm_hour ++ [':'] ++
      numericToken 2 tm.tm_min ++ [':'] ++ numericToken 2 tm.tm_sec ++ [','] ++
        numericToken 3 (tm.tm_usec.tdiv 1000)

theorem numericToken_clear {width : Nat} {field : Int} : '<' ∉ numericToken width field := by
  intro member
  rcases List.mem_append.mp member with zero | digit
  · exact absurd (List.eq_of_mem_replicate zero) (by decide)
  · rcases StringHelper.mem_toString field '<' digit with minus | digit
    · exact absurd minus (by decide)
    · exact absurd digit (by decide)

theorem formatISO8601_clear (tm : TimeExp) : '<' ∉ formatISO8601 tm := by
  simp [formatISO8601, numericToken_clear]

end SimpleDateFormat

/-- The text of a row is made of literals of the code and of texts of the event. -/
inductive Piece where
  | literal (text : String)
  | event (text : LogString)

def Piece.text : Piece → LogString
  | literal text => text.toList
  | event text => text

/-- Only this option matters to a row. -/
structure HTMLLayout where
  locationInfo : Bool

namespace HTMLLayout

section Format

variable (self : HTMLLayout) (explode : Int → TimeExp) (event : RenderedEvent)

def eol : Piece := .literal EOL

def datePart : List Piece :=
  [eol, .literal "<tr>", eol, .literal "<td>",
    .event (SimpleDateFormat.formatISO8601 (explode event.timeStamp)), .literal "</td>", eol]

def threadPart : List Piece :=
  [.literal "<td title=\"", .event event.threadName, .literal " thread\">",
    .event event.threadName, .literal "</td>", eol]

def levelPart : List Piece :=
  .literal "<td title=\"Level\">" ::
    (if event.level.equals Level.getDebug then
      [.literal "<font color=\"#339933\">", .event event.level.name, .literal "</font>"]
    else if event.level.isGreaterOrEqual Level.getWarn then
      [.literal "<font color=\"#993300\"><strong>", .event event.level.name,
        .literal "</strong></font>"]
    else [.event event.level.name]) ++ [.literal "</td>", eol]

def loggerPart : List Piece :=
  [.literal "<td title=\"", .event event.loggerName, .literal " logger\">",
    .event (Transform.appendEscapingTags [] event.loggerName), .literal "</td>", eol]

def locationPart : List Piece :=
  if self.locationInfo then
    [.literal "<td>", .event (Transform.appendEscapingTags [] event.locationInfo.fileName),
      .literal ":"] ++
      (if event.locationInfo.lineNumber ≠ 0 then
        [.event (StringHelper.toString event.locationInfo.lineNumber)] else []) ++
      [.literal "</td>", eol]
  else []

def messagePart : List Piece :=
  [.literal "<td title=\"Message\">", .event (Transform.appendEscapingTags [] event.message),
    .literal "</td>", eol, .literal "</tr>", eol]

def ndcPart : List Piece :=
  match event.ndc with
  | some ndcVal =>
      [.literal "<tr><td bgcolor=\"#EEEEEE\" ",
        .literal "style=\"font-size : xx-small;\" colspan=\"6\" ",
        .literal "title=\"Nested Diagnostic Context\">", .literal "NDC: ",
        .event (Transform.appendEscapingTags [] ndcVal), .literal "</td></tr>", eol]
  | none => []

def pieces : List Piece :=
  datePart explode event ++ threadPart event ++ levelPart event ++ loggerPart event ++
    locationPart self event ++ messagePart event ++ ndcPart event

/-- The layout appends the pieces one after the other. -/
def format (output : LogString) : LogString :=
  output ++ (pieces self explode event).flatMap Piece.text

end Format

end HTMLLayout

end CodeCollect.Log4cxx
