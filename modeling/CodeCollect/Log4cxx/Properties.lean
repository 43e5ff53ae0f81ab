import CodeCollect.Log4cxx.LogMap

namespace CodeCollect.Log4cxx

abbrev Properties := LogMap LogString

namespace Properties

/-- The old value, which no one reads, is not returned. -/
def setProperty (self : Properties) (key value : LogString) : Properties := self.insert key value

def getProperty (self : Properties) (key : LogString) : LogString := self[key]?.getD []

end Properties

inductive LexemType where
  | begin
  | key
  | keyEscape
  | keyContinue
  | keyContinue2
  | delimiter
  | element
  | elementEscape
  | elementContinue
  | elementContinue2
  | comment
deriving DecidableEq

/-- These are the variables of the loop, with the properties that it fills. -/
structure PropertyParser where
  lexemType : LexemType
  key : LogString
  element : LogString
  properties : Properties

/-- A round of the loop ends with a call of `get`, or keeps the character for the next round. -/
inductive Round where
  | get (next : PropertyParser)
  | keep (next : PropertyParser)

namespace PropertyParser

/-- The code names this character a tab, but 0x08 is the backspace. -/
def tab : Char := Char.ofNat 0x08

def isWhite (c : Char) : Bool := c == ' ' || c == tab

def isLineEnd (c : Char) : Bool := c == '\n' || c == '\r'

def isDelimiter (c : Char) : Bool := isWhite c || c == ':' || c == '='

/-- The states with an escape or a continuation each have their own characters. -/
def round (self : PropertyParser) (c : Char) : Round :=
  match self.lexemType with
  | .begin =>
      if isWhite c || isLineEnd c then .get self
      else if c = '#' ∨ c = '!' then .get { self with lexemType := .comment }
      else .keep { self with lexemType := .key }
  | .key =>
      if c = '\\' then .get { self with lexemType := .keyEscape }
      else if isDelimiter c then .get { self with lexemType := .delimiter }
      else if isLineEnd c then
        .get { self with
          lexemType := .begin
          key := []
          properties := self.properties.setProperty self.key [] }
      else .get { self with key := self.key ++ [c] }
  | .keyEscape =>
      if isDelimiter c || c == '\\' then
        .get { self with lexemType := .key, key := self.key ++ [c] }
      else if c = '\n' then .get { self with lexemType := .keyContinue }
      else if c = '\r' then .get { self with lexemType := .keyContinue2 }
      -- No case takes another character, and the loop stays here.
      else .keep self
  | .keyContinue =>
      if isWhite c then .get self else .keep { self with lexemType := .key }
  | .keyContinue2 =>
      if c = '\n' then .get { self with lexemType := .keyContinue }
      else .keep { self with lexemType := .keyContinue }
  | .delimiter =>
      if isDelimiter c then .get self else .keep { self with lexemType := .element }
  | .element =>
      if c = '\\' then .get { self with lexemType := .elementEscape }
      else if isLineEnd c then
        .get ⟨.begin, [], [], self.properties.setProperty self.key self.element⟩
      else .get { self with element := self.element ++ [c] }
  | .elementEscape =>
      if c = '\n' then .get { self with lexemType := .elementContinue }
      else if c = '\r' then .get { self with lexemType := .elementContinue2 }
      else .get { self with lexemType := .element, element := self.element ++ [c] }
  | .elementContinue =>
      if isWhite c then .get self else .keep { self with lexemType := .element }
  | .elementContinue2 =>
      -- The code tests for a space where the state of the key tests for a line feed.
      if c = ' ' then .get { self with lexemType := .elementContinue }
      else .keep { self with lexemType := .elementContinue }
  | .comment =>
      if isLineEnd c then .get { self with lexemType := .begin } else .get self

/-- The loop may run for at most `fuel` rounds, and ends when `get` finds no character. -/
def loop : Nat → PropertyParser → Char → LogString → Option PropertyParser
  | 0, _, _, _ => none
  | fuel + 1, self, c, input =>
      match round self c with
      | .keep next => loop fuel next c input
      | .get next =>
          match input with
          | [] => some next
          | c :: input => loop fuel next c input

/-- Behind the loop a key that is left is set. -/
def finish (self : PropertyParser) : Properties :=
  if self.key ≠ [] then self.properties.setProperty self.key self.element else self.properties

def parse (fuel : Nat) (input : LogString) (properties : Properties) : Option Properties :=
  match input with
  | [] => some properties
  | c :: input => (loop fuel ⟨.begin, [], [], properties⟩ c input).map finish

end PropertyParser

namespace Properties

/-- The old properties are cleared. -/
def load (fuel : Nat) (contents : LogString) : Option Properties :=
  PropertyParser.parse fuel contents ∅

end Properties

namespace PropertyParser

/-- One character is taken in at most so many rounds. -/
def feedIn : Nat → PropertyParser → Char → Option PropertyParser
  | 0, _, _ => none
  | rounds + 1, self, c =>
      match round self c with
      | .get next => some next
      | .keep next => feedIn rounds next c

/-- Three rounds take every character that is ever taken. -/
def feed (self : PropertyParser) (c : Char) : Option PropertyParser := feedIn 3 self c

def run : PropertyParser → LogString → Option PropertyParser
  | self, [] => some self
  | self, c :: text => (feed self c).bind fun next => run next text

theorem run_append (self : PropertyParser) (text more : LogString) :
    run self (text ++ more) = (run self text).bind fun next => run next more := by
  induction text generalizing self with
  | nil => rfl
  | cons c text ih =>
      rw [List.cons_append, run, run]
      cases feed self c with
      | none => rfl
      | some next => exact ih next

/-- In a key and in an element every round ends with a call of `get`. -/
theorem round_gets {self : PropertyParser} (type : self.lexemType = .key ∨ self.lexemType = .element)
    (c : Char) : ∃ next, round self c = .get next := by
  rcases type with type | type <;>
    · rw [round, type]
      dsimp only
      split_ifs <;> exact ⟨_, rfl⟩

/-- A continuation keeps its character for the state that it continues. -/
theorem round_continue {self next : PropertyParser} {c : Char} (kept : round self c = .keep next)
    (type : self.lexemType ≠ .keyEscape ∧ self.lexemType ≠ .keyContinue2 ∧
      self.lexemType ≠ .elementContinue2) :
    next.lexemType = .key ∨ next.lexemType = .element := by
  grind [round]

theorem feedIn_get {self next : PropertyParser} {c : Char} (got : round self c = .get next)
    (rounds : Nat) : feedIn (rounds + 1) self c = some next := by
  rw [feedIn, got]

theorem feedIn_keep {self next : PropertyParser} {c : Char} (kept : round self c = .keep next)
    (rounds : Nat) : feedIn (rounds + 1) self c = feedIn rounds next c := by
  rw [feedIn, kept]

theorem feed_get {self next : PropertyParser} {c : Char} (got : round self c = .get next) :
    feed self c = some next :=
  feedIn_get got 2

/-- A round that keeps its character leaves the same to do. -/
theorem feed_keep {self next : PropertyParser} {c : Char} (kept : round self c = .keep next) :
    feed self c = feed next c := by
  have within : ∀ {last : PropertyParser}, (last.lexemType = .key ∨ last.lexemType = .element) →
      ∀ rounds, feedIn (rounds + 1) last c = feedIn 1 last c := by
    intro last known rounds
    obtain ⟨taken, got⟩ := round_gets known c
    rw [feedIn_get got, feedIn_get got]
  rw [feed, feed, feedIn_keep kept]
  by_cases escape : self.lexemType = .keyEscape
  · have same : next = self := by grind [round]
    rw [same, feedIn_keep (same ▸ kept), feedIn_keep (same ▸ kept), feedIn_keep (same ▸ kept),
      feedIn_keep (same ▸ kept), feedIn_keep (same ▸ kept)]
  · by_cases second : self.lexemType = .keyContinue2 ∨ self.lexemType = .elementContinue2
    · cases again : round next c with
      | get last => rw [feedIn_get again, feedIn_get again]
      | keep last =>
          have continued : next.lexemType = .keyContinue ∨ next.lexemType = .elementContinue := by
            rcases second with type | type <;>
              · rw [round, type] at kept
                dsimp only at kept
                split_ifs at kept
                cases kept
                simp
          have known := round_continue again (by grind)
          rw [feedIn_keep again, feedIn_keep again, within known 0, within known 1]
    · have known := round_continue kept (by grind)
      rw [within known 1, within known 2]

/-- The loop ends when every character is taken, and it ends as they leave it. -/
theorem loop_iff {self last : PropertyParser} {c : Char} {input : LogString} :
    (∃ fuel, loop fuel self c input = some last) ↔ run self (c :: input) = some last := by
  constructor
  · rintro ⟨fuel, ended⟩
    induction fuel generalizing self c input with
    | zero => exact absurd ended (by simp [loop])
    | succ fuel ih =>
        rw [loop] at ended
        cases turn : round self c with
        | keep next =>
            rw [turn] at ended
            rw [run, feed_keep turn]
            exact ih ended
        | get next =>
            rw [turn] at ended
            rw [run, feed_get turn, Option.bind_some]
            cases input with
            | nil => exact ended
            | cons other input => exact ih ended
  · intro ended
    have taken : ∀ rounds (self next : PropertyParser) (c : Char) input,
        feedIn rounds self c = some next → run next input = some last →
          (∀ other rest, input = other :: rest → ∃ fuel, loop fuel next other rest = some last) →
            ∃ fuel, loop fuel self c input = some last := by
      intro rounds
      induction rounds with
      | zero => exact fun _ _ _ _ never => absurd never (by simp [feedIn])
      | succ rounds ih =>
          intro self next c input fed ran later
          cases turn : round self c with
          | keep middle =>
              rw [feedIn_keep turn] at fed
              obtain ⟨fuel, looped⟩ := ih middle next c input fed ran later
              exact ⟨fuel + 1, by rw [loop, turn]; exact looped⟩
          | get middle =>
              rw [feedIn_get turn, Option.some.injEq] at fed
              subst fed
              cases input with
              | nil => exact ⟨1, by rw [loop, turn]; exact ran⟩
              | cons other rest =>
                  obtain ⟨fuel, looped⟩ := later other rest rfl
                  exact ⟨fuel + 1, by rw [loop, turn]; exact looped⟩
    induction input generalizing self c with
    | nil =>
        obtain ⟨next, fed, ran⟩ := Option.bind_eq_some_iff.mp ended
        exact taken 3 self next c [] fed ran (by simp)
    | cons other input ih =>
        obtain ⟨next, fed, ran⟩ := Option.bind_eq_some_iff.mp ended
        refine taken 3 self next c _ fed ran ?_
        rintro _ _ ⟨rfl, rfl⟩
        exact ih ran

end PropertyParser

/-- A text is parsed when enough rounds end the loop. -/
theorem Properties.load_iff {contents : LogString} {result : Properties} :
    (∃ fuel, load fuel contents = some result) ↔
      (PropertyParser.run ⟨.begin, [], [], ∅⟩ contents).map PropertyParser.finish = some result := by
  cases contents with
  | nil =>
      have cleared : PropertyParser.finish ⟨.begin, [], [], ∅⟩ = ∅ := rfl
      simp only [load, PropertyParser.parse, PropertyParser.run, Option.map_some, cleared,
        exists_const]
  | cons c input =>
      simp only [load, PropertyParser.parse, Option.map_eq_some_iff,
        ← PropertyParser.loop_iff]
      constructor
      · rintro ⟨fuel, last, looped, finished⟩
        exact ⟨last, ⟨fuel, looped⟩, finished⟩
      · rintro ⟨last, ⟨fuel, looped⟩, finished⟩
        exact ⟨fuel, last, looped, finished⟩

end CodeCollect.Log4cxx
