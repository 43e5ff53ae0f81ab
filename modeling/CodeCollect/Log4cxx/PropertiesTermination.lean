import CodeCollect.Log4cxx.PropertiesLost

namespace CodeCollect.Log4cxx

namespace PropertyParser

/-- A character of a text stands at the start of a line, in a comment, in a key, in an element, or
behind a backslash of one of them; a key may be continued on the next line. -/
inductive Part where
  | line
  | comment
  | key
  | keyEscape
  | keyReturn
  | keyIndent
  | element
  | elementEscape
deriving DecidableEq

/-- The part behind a character that belongs to a key, unless it ends the key. -/
def Part.inKey (c : Char) : Part :=
  if c = '\\' then .keyEscape
  else if isDelimiter c then .element
  else if isLineEnd c then .line
  else .key

/-- The part behind one more character. -/
def Part.next (self : Part) (c : Char) : Part :=
  match self with
  | .line =>
      if isWhite c || isLineEnd c then .line
      else if c = '#' ∨ c = '!' then .comment
      else inKey c
  | .comment => if isLineEnd c then .line else .comment
  | .key => inKey c
  | .keyEscape => if c = '\n' then .keyIndent else if c = '\r' then .keyReturn else .key
  | .keyReturn => if c = '\n' || isWhite c then .keyIndent else inKey c
  | .keyIndent => if isWhite c then .keyIndent else inKey c
  | .element => if c = '\\' then .elementEscape else if isLineEnd c then .line else .element
  | .elementEscape => .element

/-- The part of a document in which the character behind this text stands. -/
def partBehind (text : LogString) : Part := text.foldl Part.next .line

/-- A backslash of a key gives this character a meaning. -/
def isKeyEscape (c : Char) : Bool := isDelimiter c || c == '\\' || isLineEnd c

/-- Each backslash of a key stands before a character that it gives a meaning to. -/
def KeysEscaped (text : LogString) : Prop :=
  ∀ before c after, text = before ++ c :: after → partBehind before = .keyEscape →
    isKeyEscape c = true

/-- The part of a document that the parser reads in each of its states. -/
def part : LexemType → Part
  | .begin => .line
  | .key => .key
  | .keyEscape => .keyEscape
  | .keyContinue => .keyIndent
  | .keyContinue2 => .keyReturn
  | .delimiter => .element
  | .element => .element
  | .elementEscape => .elementEscape
  | .elementContinue => .element
  | .elementContinue2 => .element
  | .comment => .comment

theorem part_eq_keyEscape {type : LexemType} (escape : part type = .keyEscape) :
    type = .keyEscape := by
  cases type <;> first | rfl | exact absurd escape (by decide)

theorem tab_ne : tab ≠ '\n' ∧ tab ≠ '\r' ∧ tab ≠ '\\' ∧ tab ≠ '#' ∧ tab ≠ '!' := by
  decide

/-- A round that takes its character moves to the part behind it. -/
theorem round_get {self next : PropertyParser} {c : Char} (got : round self c = .get next) :
    part next.lexemType = (part self.lexemType).next c := by
  obtain ⟨type, key, element, properties⟩ := self
  have distinct := tab_ne
  cases type <;> grind [round, part, Part.next, Part.inKey, isDelimiter, isWhite, isLineEnd]

/-- A round that keeps its character stays where the same part lies behind it. -/
theorem round_keep {self next : PropertyParser} {c : Char} (kept : round self c = .keep next)
    (moves : self.lexemType ≠ .keyEscape) :
    (part self.lexemType).next c = (part next.lexemType).next c ∧
      next.lexemType ≠ .keyEscape := by
  obtain ⟨type, key, element, properties⟩ := self
  have distinct := tab_ne
  cases type <;> grind [round, part, Part.next, Part.inKey, isDelimiter, isWhite, isLineEnd]

/-- Behind a backslash of a key each round takes its character, or each one keeps it. -/
theorem round_keyEscape {self : PropertyParser} {c : Char} (escape : self.lexemType = .keyEscape) :
    if isKeyEscape c then ∃ next, round self c = .get next else round self c = .keep self := by
  obtain ⟨type, key, element, properties⟩ := self
  subst escape
  rw [round]
  dsimp only
  unfold isKeyEscape isLineEnd
  split_ifs with delimits fed returned <;> simp_all

/-- A character that is taken moves the parser to the part behind it. -/
theorem feed_part {self next : PropertyParser} {c : Char} (fed : feed self c = some next) :
    part next.lexemType = (part self.lexemType).next c := by
  by_cases escape : self.lexemType = .keyEscape
  · have turn := round_keyEscape (c := c) escape
    split at turn
    · obtain ⟨taken, got⟩ := turn
      rw [feed_get got, Option.some.injEq] at fed
      rw [← fed]
      exact round_get got
    · rw [feed, feedIn_keep turn, feedIn_keep turn, feedIn_keep turn] at fed
      exact absurd fed (by simp [feedIn])
  · apply @feed_induction (fun before => before.lexemType ≠ .keyEscape ∧
      (part before.lexemType).next c = (part self.lexemType).next c) _ c ?_ ?_ _ _
      ⟨escape, rfl⟩ fed
    · rintro before after ⟨moves, same⟩ kept
      obtain ⟨onward, still⟩ := round_keep kept moves
      exact ⟨still, onward.symm.trans same⟩
    · rintro before after ⟨-, same⟩ got
      exact (round_get got).trans same

/-- The rounds that a state may need for a character. -/
def rank : LexemType → Nat
  | .begin | .keyContinue | .delimiter | .elementContinue => 2
  | .keyContinue2 | .elementContinue2 => 3
  | .key | .keyEscape | .element | .elementEscape | .comment => 1

theorem rank_pos (type : LexemType) : 0 < rank type := by
  cases type <;> decide

/-- A round that keeps its character leads to a state of a lower rank. -/
theorem rank_of_keep {self next : PropertyParser} {c : Char} (kept : round self c = .keep next)
    (moves : self.lexemType ≠ .keyEscape) : rank next.lexemType < rank self.lexemType := by
  obtain ⟨type, key, element, properties⟩ := self
  cases type <;> grind [round, rank]

theorem feedIn_isSome {rounds : Nat} {self : PropertyParser} {c : Char}
    (enough : rank self.lexemType ≤ rounds)
    (taken : self.lexemType = .keyEscape → isKeyEscape c = true) :
    (feedIn rounds self c).isSome := by
  induction rounds generalizing self with
  | zero => exact absurd enough (not_le.mpr (rank_pos _))
  | succ rounds ih =>
      cases turn : round self c with
      | get next => rw [feedIn_get turn, Option.isSome_some]
      | keep next =>
          have moves : self.lexemType ≠ .keyEscape := by
            intro escape
            have gets := round_keyEscape (c := c) escape
            rw [if_pos (taken escape)] at gets
            obtain ⟨other, got⟩ := gets
            exact absurd (turn.symm.trans got) (by simp)
          have lower := rank_of_keep turn moves
          rw [feedIn_keep turn]
          apply ih (by omega)
          intro escape
          exact absurd escape (round_keep turn moves).2

/-- A character is taken unless it has no meaning behind a backslash of a key. -/
theorem feed_isSome {self : PropertyParser} {c : Char} :
    (feed self c).isSome ↔ (self.lexemType = .keyEscape → isKeyEscape c = true) := by
  constructor
  · intro fed escape
    have turn := round_keyEscape (c := c) escape
    split at turn
    · assumption
    · rw [feed, feedIn_keep turn, feedIn_keep turn, feedIn_keep turn] at fed
      exact absurd fed (by simp [feedIn])
  · apply feedIn_isSome
    cases self.lexemType <;> decide

/-- Each backslash of a key stands before a character with a meaning, where the text begins in
this part of a document. -/
def EscapedFrom : Part → LogString → Prop
  | _, [] => True
  | part, c :: text => (part = .keyEscape → isKeyEscape c = true) ∧ EscapedFrom (part.next c) text

theorem escapedFrom_iff {part : Part} {text : LogString} :
    EscapedFrom part text ↔ ∀ before c after, text = before ++ c :: after →
      before.foldl Part.next part = .keyEscape → isKeyEscape c = true := by
  induction text generalizing part with
  | nil => simp [EscapedFrom]
  | cons first text ih =>
      rw [EscapedFrom, ih]
      constructor
      · rintro ⟨here, later⟩ before c after split behind
        cases before with
        | nil =>
            obtain ⟨rfl, -⟩ := List.cons.inj split
            exact here behind
        | cons other before =>
            obtain ⟨rfl, rest⟩ := List.cons.inj split
            exact later before c after rest behind
      · intro all
        constructor
        · exact all [] first text rfl
        · intro before c after split behind
          exact all (first :: before) c after (by rw [split, List.cons_append]) behind

/-- The parser takes a text when each backslash of a key has a meaning. -/
theorem run_isSome {self : PropertyParser} {text : LogString} :
    (run self text).isSome ↔ EscapedFrom (part self.lexemType) text := by
  induction text generalizing self with
  | nil => simp [run, EscapedFrom]
  | cons c text ih =>
      have escape : (part self.lexemType = .keyEscape → isKeyEscape c = true) ↔
          (feed self c).isSome := by
        rw [feed_isSome]
        exact ⟨fun taken type => taken (by rw [type]; rfl),
          fun taken same => taken (part_eq_keyEscape same)⟩
      rw [run, EscapedFrom, escape]
      cases fed : feed self c with
      | none => simp
      | some next =>
          rw [Option.bind_some, ih, feed_part fed]
          simp

theorem loop_mono {fuel more : Nat} {self last : PropertyParser} {c : Char} {input : LogString}
    (enough : fuel ≤ more) (ended : loop fuel self c input = some last) :
    loop more self c input = some last := by
  induction fuel generalizing more self c input with
  | zero => exact absurd ended (by simp [loop])
  | succ fuel ih =>
      obtain ⟨more, rfl⟩ : ∃ rest, more = rest + 1 := ⟨more - 1, by omega⟩
      rw [loop] at ended ⊢
      cases turn : round self c with
      | keep next =>
          rw [turn] at ended
          exact ih (by omega) ended
      | get next =>
          rw [turn] at ended
          cases input with
          | nil => exact ended
          | cons other input => exact ih (by omega) ended

/-- The rounds that take one character come before the rounds for the rest. -/
theorem loop_of_feedIn {rounds fuel : Nat} {self next last : PropertyParser} {c : Char}
    {input : LogString} (fed : feedIn rounds self c = some next) (ran : run next input = some last)
    (later : ∀ other rest, input = other :: rest → loop fuel next other rest = some last) :
    loop (rounds + fuel) self c input = some last := by
  induction rounds generalizing self with
  | zero => exact absurd fed (by simp [feedIn])
  | succ rounds ih =>
      rw [Nat.succ_add, loop]
      cases turn : round self c with
      | keep middle =>
          rw [feedIn_keep turn] at fed
          exact ih fed
      | get taken =>
          rw [feedIn_get turn, Option.some.injEq] at fed
          subst fed
          cases input with
          | nil => exact ran
          | cons other rest => exact loop_mono (by omega) (later other rest rfl)

/-- Three rounds for each character are enough. -/
theorem loop_of_run {self last : PropertyParser} {c : Char} {input : LogString}
    (ran : run self (c :: input) = some last) :
    loop (3 * (c :: input).length) self c input = some last := by
  induction input generalizing self c with
  | nil =>
      obtain ⟨next, fed, rest⟩ := Option.bind_eq_some_iff.mp ran
      have looped : loop (3 + 0) self c [] = some last := loop_of_feedIn fed rest (by simp)
      exact looped
  | cons other input ih =>
      obtain ⟨next, fed, rest⟩ := Option.bind_eq_some_iff.mp ran
      have split : 3 * (c :: other :: input).length = 3 + 3 * (other :: input).length := by
        simp only [List.length_cons]
        omega
      rw [split]
      apply loop_of_feedIn fed rest
      rintro _ _ ⟨rfl, rfl⟩
      exact ih rest

/-- The parser ends on a text exactly when each backslash of a key has a meaning, and then it needs
at most three rounds for each character. -/
theorem parse_ends (input : LogString) (properties : Properties) :
    ((∃ fuel, (parse fuel input properties).isSome) ↔ KeysEscaped input) ∧
      (KeysEscaped input → (parse (3 * input.length) input properties).isSome) := by
  have escaped : KeysEscaped input ↔ EscapedFrom .line input := escapedFrom_iff.symm
  rw [escaped]
  cases input with
  | nil => simp [parse, EscapedFrom]
  | cons c input =>
      have taken : (run ⟨.begin, [], [], properties⟩ (c :: input)).isSome ↔
          EscapedFrom .line (c :: input) := run_isSome
      have bounded : EscapedFrom .line (c :: input) →
          (parse (3 * (c :: input).length) (c :: input) properties).isSome := by
        intro within
        obtain ⟨last, ran⟩ := Option.isSome_iff_exists.mp (taken.mpr within)
        rw [parse, loop_of_run ran, Option.map_some, Option.isSome_some]
      refine ⟨⟨?_, fun within => ⟨_, bounded within⟩⟩, bounded⟩
      rintro ⟨fuel, ended⟩
      rw [parse, Option.isSome_map] at ended
      obtain ⟨last, looped⟩ := Option.isSome_iff_exists.mp ended
      rw [← taken, loop_iff.mp ⟨fuel, looped⟩, Option.isSome_some]

/-- The loop never ends on a key that has a letter behind a backslash. -/
theorem parse_never_ends : ¬ ∃ fuel, (parse fuel ['\\', 'n'] ∅).isSome := by
  rintro ⟨fuel, ended⟩
  rw [parse, Option.isSome_map] at ended
  obtain ⟨last, looped⟩ := Option.isSome_iff_exists.mp ended
  exact absurd (loop_iff.mp ⟨fuel, looped⟩) (by
    rw [show run ⟨.begin, [], [], ∅⟩ ['\\', 'n'] = none from rfl]
    exact (by simp))

end PropertyParser

end CodeCollect.Log4cxx
