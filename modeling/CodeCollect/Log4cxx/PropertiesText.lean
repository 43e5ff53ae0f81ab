import CodeCollect.Log4cxx.Properties

namespace CodeCollect.Log4cxx

/-- This is the white space inside of a line. -/
inductive Blank where
  | space
  | tab
deriving DecidableEq

inductive LineEnd where
  | lf
  | cr
  | crlf
deriving DecidableEq

/-- Leading white space on the next line belongs to the continuation. -/
structure Continuation where
  ending : LineEnd
  leading : List Blank

/-- A key and an element are written letter by letter, with continuations between the letters. -/
inductive WrittenPiece where
  | continuation (self : Continuation)
  | letter (c : Char)

namespace PropertiesText

def blankChar : Blank → Char
  | .space => ' '
  | .tab => '\t'

def blanks (list : List Blank) : LogString := list.map blankChar

def lineEnd : LineEnd → LogString
  | .lf => ['\n']
  | .cr => ['\r']
  | .crlf => ['\r', '\n']

def continuation (self : Continuation) : LogString :=
  '\\' :: (lineEnd self.ending ++ blanks self.leading)

/-- Letters are printable, or white space inside of a line. -/
def isLetter (c : Char) : Bool :=
  c == '\t' || decide (0x20 ≤ c.toNat ∧ ¬ (0x7F ≤ c.toNat ∧ c.toNat ≤ 0x9F))

/-- This is the text that the pieces stand for. -/
def lettersOf : List WrittenPiece → LogString
  | [] => []
  | .continuation _ :: pieces => lettersOf pieces
  | .letter c :: pieces => c :: lettersOf pieces

/-- The number sign and the exclamation mark would begin a comment in front of a key. -/
def isKeyEscaped (first : Bool) (c : Char) : Bool :=
  c == ' ' || c == '\t' || c == ':' || c == '=' || c == '\\' || first && (c == '#' || c == '!')

def keyLetter (first : Bool) (c : Char) : LogString :=
  if isKeyEscaped first c then ['\\', c] else [c]

def keyText : Bool → List WrittenPiece → LogString
  | _, [] => []
  | first, .continuation self :: pieces => continuation self ++ keyText first pieces
  | first, .letter c :: pieces => keyLetter first c ++ keyText false pieces

def elementLetter (c : Char) : LogString := if c = '\\' then ['\\', c] else [c]

def elementText : List WrittenPiece → LogString
  | [] => []
  | .continuation self :: pieces => continuation self ++ elementText pieces
  | .letter c :: pieces => elementLetter c ++ elementText pieces

/-- This is the white space that the continuations lead with. -/
def leadings : List WrittenPiece → List Blank
  | [] => []
  | .continuation self :: pieces => self.leading ++ leadings pieces
  | .letter _ :: pieces => leadings pieces

end PropertiesText

open PropertiesText

/-- A continuation stands inside of a text and not behind its last letter. -/
structure Written where
  pieces : List WrittenPiece
  legal : ∀ c ∈ lettersOf pieces, isLetter c = true
  inside : ∀ self, pieces.getLast? ≠ some (.continuation self)

inductive Mark where
  | none
  | colon
  | equals

structure Separator where
  before : List Blank
  mark : Mark
  after : List Blank

namespace PropertiesText

def mark : Mark → LogString
  | .none => []
  | .colon => [':']
  | .equals => ['=']

def separator (self : Separator) : LogString :=
  blanks self.before ++ mark self.mark ++ blanks self.after

end PropertiesText

/-- White space alone separates too, and an empty element needs no separator. -/
structure PropertyEntry where
  key : Written
  separator : Separator
  element : Written
  named : lettersOf key.pieces ≠ []
  starts : ∀ c ∈ (lettersOf element.pieces).head?, c ≠ ' ' ∧ c ≠ '\t' ∧ c ≠ ':' ∧ c ≠ '='
  separated : lettersOf element.pieces ≠ [] → PropertiesText.separator separator ≠ []

/-- A comment begins with one of these. -/
inductive Sign where
  | number
  | exclamation

inductive Line where
  | blank (indent : List Blank) (ending : LineEnd)
  | comment (indent : List Blank) (sign : Sign) (text : {text : LogString // text.all isLetter})
      (ending : LineEnd)
  | entry (indent : List Blank) (entry : PropertyEntry) (ending : LineEnd)

namespace PropertiesText

def sign : Sign → Char
  | .number => '#'
  | .exclamation => '!'

/-- These are the key and the element that an entry stands for. -/
def pair (entry : PropertyEntry) : LogString × LogString :=
  (lettersOf entry.key.pieces, lettersOf entry.element.pieces)

def entryText (entry : PropertyEntry) : LogString :=
  keyText true entry.key.pieces ++ separator entry.separator ++ elementText entry.element.pieces

def lineText : Line → LogString
  | .blank indent ending => blanks indent ++ lineEnd ending
  | .comment indent begins text ending => blanks indent ++ sign begins :: text.val ++ lineEnd ending
  | .entry indent entry ending => blanks indent ++ entryText entry ++ lineEnd ending

def entries (lines : List Line) : List PropertyEntry :=
  lines.filterMap fun
    | .entry _ entry _ => some entry
    | _ => none

/-- These are the indentation, the white space around the separator and behind continuations. -/
def lineBlanks : Line → List Blank
  | .blank indent _ => indent
  | .comment indent _ _ _ => indent
  | .entry indent entry _ =>
      indent ++ leadings entry.key.pieces ++ entry.separator.before ++ entry.separator.after ++
        leadings entry.element.pieces

/-- The parser stops forever at a tab in a key, and at a sign in front of it. -/
def ReadableLetters (first : Bool) (text : LogString) : Prop :=
  '\t' ∉ text ∧ (first = true → ∀ c ∈ text.head?, c ≠ '#' ∧ c ≠ '!')

/-- No space stands right behind a continuation. -/
def Unswallowed (pieces : List WrittenPiece) : Prop :=
  ∀ self, ¬ [.continuation self, .letter ' '] <:+: pieces

/-- No continuation of an element ends in CRLF. -/
def ReadableElement (pieces : List WrittenPiece) : Prop :=
  (∀ self, .continuation self ∈ pieces → self.ending ≠ .crlf) ∧ Unswallowed pieces

def ReadableLine (line : Line) : Prop :=
  .tab ∉ lineBlanks line ∧ ∀ indent entry ending, line = .entry indent entry ending →
    ReadableLetters true (pair entry).1 ∧ ReadableElement entry.element.pieces

end PropertiesText

/-- No two entries have the same key. -/
structure Document where
  lines : List Line
  distinct : ((entries lines).map fun entry => (pair entry).1).Nodup

namespace Document

def text (self : Document) : LogString := self.lines.flatMap lineText

def pairs (self : Document) : List (LogString × LogString) := (entries self.lines).map pair

/-- The properties are exactly the pairs that were written. -/
def RoundTrips (self : Document) : Prop :=
  ∃ fuel result, Properties.load fuel self.text = some result ∧
    ∀ key, result[key]? = self.pairs.lookup key

end Document

end CodeCollect.Log4cxx
