import Mathlib

namespace CodeCollect.Library

namespace Xml

/-- A tag has raw values in its attributes. -/
structure Tag where
  name : List Char
  attributes : List (List Char × List Char)
deriving DecidableEq

/-- These are the tokens of the content of a document without comments and instructions. -/
inductive Token where
  | start (tag : Tag)
  | empty (tag : Tag)
  | ending (name : List Char)
  | text (raw : List Char)
  | cdata (content : List Char)
deriving DecidableEq

inductive State where
  | content (text : List Char)
  | markup
  | startName (name : List Char)
  | attributes (tag : Tag) (spaced : Bool)
  | attributeName (tag : Tag) (name : List Char)
  | beforeValue (tag : Tag) (name : List Char)
  | value (quote : Char) (tag : Tag) (name value : List Char)
  | emptyTag (tag : Tag)
  | endName (name : List Char)
  | declaration (read : List Char)
  | cdata (content : List Char)

def isSpace (c : Char) : Bool := c == ' ' || c == '\t' || c == '\n' || c == '\r'

/-- The other letters of Unicode are left out. -/
def isNameStart (c : Char) : Bool := c.isAlpha || c == '_' || c == ':'

def isNameChar (c : Char) : Bool := isNameStart c || c.isDigit || c == '-' || c == '.'

def isLegal (c : Char) : Bool :=
  isSpace c || decide (0x20 ≤ c.toNat ∧ c.toNat ≠ 0xFFFE ∧ c.toNat ≠ 0xFFFF)

/-- Two brackets in front of an angle bracket end a section. -/
def brackets : List Char := [']', ']']

def cdataStart : List Char := "[CDATA[".toList

def Tag.add (self : Tag) (name value : List Char) : Tag :=
  { self with attributes := self.attributes ++ [(name, value)] }

/-- Text that is not empty is a token of its own. -/
def textToken (text : List Char) : List Token := if text = [] then [] else [.text text]

/-- The tokenizer reads one character and may refuse it. -/
def step (state : State) (c : Char) : Option (State × List Token) :=
  match state with
  | .content text =>
      if c = '<' then some (.markup, textToken text)
      else if c = '>' ∧ brackets <:+ text then none
      else some (.content (text ++ [c]), [])
  | .markup =>
      if c = '/' then some (.endName [], [])
      else if c = '!' then some (.declaration [], [])
      else if isNameStart c then some (.startName [c], [])
      else none
  | .startName name =>
      if isNameChar c then some (.startName (name ++ [c]), [])
      else if isSpace c then some (.attributes ⟨name, []⟩ true, [])
      else if c = '>' then some (.content [], [.start ⟨name, []⟩])
      else if c = '/' then some (.emptyTag ⟨name, []⟩, [])
      else none
  | .attributes tag spaced =>
      if isSpace c then some (.attributes tag true, [])
      else if c = '>' then some (.content [], [.start tag])
      else if c = '/' then some (.emptyTag tag, [])
      else if isNameStart c ∧ spaced then some (.attributeName tag [c], [])
      else none
  | .attributeName tag name =>
      if isNameChar c then some (.attributeName tag (name ++ [c]), [])
      else if c = '=' then some (.beforeValue tag name, [])
      else none
  | .beforeValue tag name =>
      if isSpace c then some (.beforeValue tag name, [])
      else if c = '"' ∨ c = '\'' then some (.value c tag name [], [])
      else none
  | .value quote tag name value =>
      if c = quote then some (.attributes (tag.add name value) false, [])
      else if c = '<' then none
      else some (.value quote tag name (value ++ [c]), [])
  | .emptyTag tag => if c = '>' then some (.content [], [.empty tag]) else none
  | .endName name =>
      if isNameChar c then some (.endName (name ++ [c]), [])
      else if c = '>' then some (.content [], [.ending name])
      else none
  | .declaration read =>
      if read ++ [c] = cdataStart then some (.cdata [], [])
      else if read ++ [c] <+: cdataStart then some (.declaration (read ++ [c]), [])
      else none
  | .cdata content =>
      if c = '>' ∧ brackets <:+ content then
        some (.content [], [.cdata (content.take (content.length - 2))])
      else some (.cdata (content ++ [c]), [])

def run : State → List Char → Option (State × List Token)
  | state, [] => some (state, [])
  | state, c :: text =>
      (step state c).bind fun first =>
        (run first.1 text).map fun later => (later.1, first.2 ++ later.2)

def finish : State → Option (List Token)
  | .content text => some (textToken text)
  | _ => none

def tokens (text : List Char) : Option (List Token) :=
  (run (.content []) text).bind fun last => (finish last.1).map fun rest => last.2 ++ rest

/-- The contents of all sections are put together. -/
def cdataContents (list : List Token) : List Char :=
  list.flatMap fun
    | .cdata content => content
    | _ => []

/-- These are the references that need no declaration. -/
def reference (name : List Char) : Option Char :=
  if name = "amp".toList then some '&'
  else if name = "lt".toList then some '<'
  else if name = "gt".toList then some '>'
  else if name = "quot".toList then some '"'
  else if name = "apos".toList then some '\''
  else none

/-- A reference may have been begun. -/
def unescapeFrom : Option (List Char) → List Char → Option (List Char)
  | none, [] => some []
  | some _, [] => none
  | none, c :: text =>
      if c = '&' then unescapeFrom (some []) text
      else (unescapeFrom none text).map fun rest => c :: rest
  | some name, c :: text =>
      if c = ';' then
        (reference name).bind fun value =>
          (unescapeFrom none text).map fun rest => value :: rest
      else unescapeFrom (some (name ++ [c])) text

def unescape (text : List Char) : Option (List Char) := unescapeFrom none text

/-- The content of an element is its text without the text of its children. -/
inductive Element where
  | mk (name : List Char) (attributes : List (List Char × List Char)) (content : List Char)
      (children : List Element)

/-- An element is open up to its end tag. -/
structure Frame where
  name : List Char
  attributes : List (List Char × List Char)
  content : List Char
  children : List Element

structure Decoder where
  stack : List Frame
  roots : List Element

def Decoder.add (self : Decoder) (element : Element) : Decoder :=
  match self.stack with
  | [] => { self with roots := self.roots ++ [element] }
  | frame :: stack =>
      { self with stack := { frame with children := frame.children ++ [element] } :: stack }

/-- Text outside of all elements must be white. -/
def Decoder.write (self : Decoder) (text : List Char) : Option Decoder :=
  match self.stack with
  | [] => if text.all isSpace then some self else none
  | frame :: stack =>
      some { self with stack := { frame with content := frame.content ++ text } :: stack }

def decodeAttributes (attributes : List (List Char × List Char)) :
    Option (List (List Char × List Char)) :=
  if (attributes.map Prod.fst).Nodup then
    attributes.mapM fun pair => (unescape pair.2).map fun value => (pair.1, value)
  else none

def decodeStep (self : Decoder) : Token → Option Decoder
  | .text raw => (unescape raw).bind self.write
  | .cdata content => if self.stack = [] then none else self.write content
  | .start tag =>
      (decodeAttributes tag.attributes).map fun attributes =>
        { self with stack := ⟨tag.name, attributes, [], []⟩ :: self.stack }
  | .empty tag =>
      (decodeAttributes tag.attributes).map fun attributes =>
        self.add (.mk tag.name attributes [] [])
  | .ending name =>
      match self.stack with
      | [] => none
      | frame :: stack =>
          if frame.name = name then
            some ({ self with stack := stack }.add
              (.mk frame.name frame.attributes frame.content frame.children))
          else none

/-- A reader takes the elements of a text of legal characters. -/
def parse (text : List Char) : Option (List Element) :=
  if text.all isLegal then
    (tokens text).bind fun list =>
      (list.foldlM decodeStep ⟨[], []⟩).bind fun last =>
        if last.stack.isEmpty then some last.roots else none
  else none

/-- The end tag of the open element closes it. -/
theorem decodeStep_ending (frame : Frame) (stack : List Frame) (roots : List Element) :
    decodeStep ⟨frame :: stack, roots⟩ (.ending frame.name) =
      some (Decoder.add ⟨stack, roots⟩
        (.mk frame.name frame.attributes frame.content frame.children)) :=
  if_pos rfl

theorem run_append (state : State) (text rest : List Char) :
    run state (text ++ rest) =
      (run state text).bind fun first =>
        (run first.1 rest).map fun later => (later.1, first.2 ++ later.2) := by
  induction text generalizing state with
  | nil =>
      rw [List.nil_append, run, Option.bind_some]
      cases run state rest <;> rfl
  | cons c text ih =>
      rw [List.cons_append, run, run]
      cases step state c with
      | none => rfl
      | some first =>
          rw [Option.bind_some, Option.bind_some, ih]
          cases run first.1 text with
          | none => rfl
          | some middle =>
              rw [Option.bind_some, Option.map_some, Option.bind_some]
              cases run middle.1 rest with
              | none => rfl
              | some later => simp only [Option.map_some, List.append_assoc]

/-- A reader goes on through a text from one state to the next. -/
def Reads (state : State) (decoder : Decoder) (text : List Char) (next : State) (later : Decoder) :
    Prop :=
  ∃ list, run state text = some (next, list) ∧ list.foldlM decodeStep decoder = some later

theorem Reads.append {state middle next : State} {decoder between later : Decoder}
    {text rest : List Char} (first : Reads state decoder text middle between)
    (second : Reads middle between rest next later) :
    Reads state decoder (text ++ rest) next later := by
  obtain ⟨list, ran, decoded⟩ := first
  obtain ⟨more, ranOn, decodedOn⟩ := second
  refine ⟨list ++ more, ?_, ?_⟩
  · rw [run_append, ran, Option.bind_some, ranOn]
    rfl
  · rw [List.foldlM_append, decoded]
    exact decodedOn

/-- Inside of a value everything but its quote and a less-than sign is taken. -/
theorem run_value {quote : Char} {text : List Char} (clear : quote ∉ text ∧ '<' ∉ text) (tag : Tag)
    (name value : List Char) :
    run (.value quote tag name value) text = some (.value quote tag name (value ++ text), []) := by
  induction text generalizing value with
  | nil => rw [run, List.append_nil]
  | cons c text ih =>
      obtain ⟨noQuote, others⟩ := not_or.mp (List.mem_cons.not.mp clear.1)
      obtain ⟨noLess, rest⟩ := not_or.mp (List.mem_cons.not.mp clear.2)
      rw [run, step, if_neg (Ne.symm noQuote), if_neg (Ne.symm noLess), Option.bind_some,
        ih ⟨others, rest⟩, List.append_assoc]
      rfl

def cdataEnd : List Char := "]]>".toList

/-- Inside of a section everything is taken that does not end it. -/
theorem run_cdata {text : List Char} (content : List Char) (clear : ¬ cdataEnd <:+: content ++ text) :
    run (.cdata content) text = some (.cdata (content ++ text), []) := by
  induction text generalizing content with
  | nil => rw [run, List.append_nil]
  | cons c text ih =>
      have goes : ¬ (c = '>' ∧ brackets <:+ content) := by
        rintro ⟨rfl, before, rfl⟩
        exact clear ⟨before, text, by simp [cdataEnd, brackets]⟩
      rw [List.append_cons] at clear
      rw [run, step, if_neg goes, Option.bind_some, ih _ clear, List.append_assoc]
      rfl

/-- The end of a section gives its content. -/
theorem run_cdataEnd (content : List Char) :
    run (.cdata content) cdataEnd = some (.content [], [.cdata content]) := by
  have bracket : ∀ content, step (.cdata content) ']' = some (.cdata (content ++ [']']), []) := by
    intro content
    rw [step, if_neg fun ends => absurd ends.1 (by decide)]
  have ends : step (.cdata (content ++ [']'] ++ [']'])) '>' = some (.content [], [.cdata content]) := by
    have closed : brackets <:+ content ++ [']'] ++ [']'] :=
      ⟨content, by rw [List.append_assoc]; rfl⟩
    rw [step, if_pos ⟨rfl, closed⟩]
    simp
  have letters : cdataEnd = [']', ']', '>'] := rfl
  rw [letters, run, bracket, Option.bind_some, run, bracket, Option.bind_some, run, ends]
  rfl

/-- A plain character stands for itself. -/
theorem unescape_cons {c : Char} (plain : c ≠ '&') (text : List Char) :
    unescape (c :: text) = (unescape text).map fun rest => c :: rest := by
  rw [unescape, unescapeFrom, if_neg plain, unescape]

theorem unescape_reference {name : List Char} {value : Char} (known : reference name = some value)
    (clear : ';' ∉ name) (text : List Char) :
    unescape ('&' :: name ++ ';' :: text) = (unescape text).map fun rest => value :: rest := by
  have goes : ∀ (read name : List Char), ';' ∉ name → unescapeFrom (some read) (name ++ ';' :: text) =
      (reference (read ++ name)).bind fun value =>
        (unescapeFrom none text).map fun rest => value :: rest := by
    intro read name clear
    induction name generalizing read with
    | nil => rw [List.nil_append, unescapeFrom, if_pos rfl, List.append_nil]
    | cons c name ih =>
        obtain ⟨first, others⟩ := not_or.mp (List.mem_cons.not.mp clear)
        rw [List.cons_append, unescapeFrom, if_neg (Ne.symm first), ih _ others, List.append_assoc]
        rfl
  rw [List.cons_append, unescape, unescapeFrom, if_pos rfl, goes [] name clear, List.nil_append,
    known]
  rfl

end Xml

end CodeCollect.Library
