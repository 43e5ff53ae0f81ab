import CodeCollect.Log4cxx.PropertiesElement

namespace CodeCollect.Log4cxx

/-- This is the parser that a round leaves behind. -/
def Round.parser : Round → PropertyParser
  | .get next => next
  | .keep next => next

namespace PropertyParser

open PropertiesText

theorem setProperty_get (properties : Properties) (key other value : LogString) :
    (properties.setProperty key value)[other]? =
      if key = other then some value else properties[other]? :=
  LogMap.insert_get properties key other value

/-- What every round keeps is kept up to the round that takes the character. -/
theorem feed_induction {Before After : PropertyParser → Prop} {c : Char}
    (keeps : ∀ self next, Before self → round self c = .keep next → Before next)
    (gets : ∀ self next, Before self → round self c = .get next → After next)
    {self next : PropertyParser} (before : Before self) (fed : feed self c = some next) :
    After next := by
  have goes : ∀ rounds self, Before self → feedIn rounds self c = some next → After next := by
    intro rounds
    induction rounds with
    | zero => exact fun _ _ never => absurd never (by simp [feedIn])
    | succ rounds ih =>
        intro self before fed
        cases turn : round self c with
        | keep middle =>
            rw [feedIn_keep turn] at fed
            exact ih middle (keeps self middle before turn) fed
        | get last =>
            rw [feedIn_get turn, Option.some.injEq] at fed
            rw [← fed]
            exact gets self last before turn
  exact goes 3 self before fed

/-- What every round keeps is kept by every character. -/
theorem feed_invariant {Invariant : PropertyParser → Prop} {c : Char}
    (rounds : ∀ self, Invariant self → Invariant (round self c).parser)
    {self next : PropertyParser} (before : Invariant self) (fed : feed self c = some next) :
    Invariant next := by
  apply feed_induction ?_ ?_ before fed
  · intro self next holds turn
    have kept := rounds self holds
    rw [turn] at kept
    exact kept
  · intro self next holds turn
    have kept := rounds self holds
    rw [turn] at kept
    exact kept

theorem run_invariant {Invariant : PropertyParser → Prop}
    (feeds : ∀ self next c, Invariant self → feed self c = some next → Invariant next)
    {self next : PropertyParser} {text : LogString} (before : Invariant self)
    (ran : run self text = some next) : Invariant next := by
  induction text generalizing self with
  | nil =>
      rw [← Option.some.inj ran]
      exact before
  | cons c text ih =>
      obtain ⟨middle, fed, rest⟩ := Option.bind_eq_some_iff.mp ran
      exact ih (feeds self middle c before fed) rest

/-- A tab has got into a key, and no key is ever taken back. -/
def Tainted (self : PropertyParser) : Prop :=
  '\t' ∈ self.key ∨ ∃ key : LogString, '\t' ∈ key ∧ self.properties[key]? ≠ none

/-- The key of the parser goes into the properties with its tab. -/
theorem tainted_set {self : PropertyParser} (tainted : Tainted self) (value : LogString) :
    ∃ key : LogString, '\t' ∈ key ∧ (self.properties.setProperty self.key value)[key]? ≠ none := by
  rcases tainted with pending | ⟨key, member, present⟩
  · refine ⟨self.key, pending, ?_⟩
    rw [setProperty_get, if_pos rfl]
    exact Option.some_ne_none value
  · refine ⟨key, member, ?_⟩
    rw [setProperty_get]
    split
    · exact Option.some_ne_none value
    · exact present

theorem round_tainted {c : Char} (self : PropertyParser) (tainted : Tainted self) :
    Tainted (round self c).parser := by
  have longer : '\t' ∈ self.key ++ [c] ∨
      ∃ key : LogString, '\t' ∈ key ∧ self.properties[key]? ≠ none :=
    tainted.imp_left (List.mem_append_left _)
  have emptied := tainted_set tainted []
  have filled := tainted_set tainted self.element
  rw [round]
  split <;> split_ifs <;>
    first
      | exact tainted
      | exact longer
      | exact Or.inr emptied
      | exact Or.inr filled

theorem run_tainted {self next : PropertyParser} {text : LogString} (tainted : Tainted self)
    (ran : run self text = some next) : Tainted next :=
  run_invariant (fun _ _ _ => feed_invariant round_tainted) tainted ran

/-- Between two pieces of a text no escape is pending. -/
def Steady (self : PropertyParser) : Prop :=
  self.lexemType ≠ .keyEscape ∧ self.lexemType ≠ .elementEscape

/-- In front of the end of a line no continuation is pending either. -/
def Settled (self : PropertyParser) : Prop := Steady self ∧ self.lexemType ≠ .keyContinue2

/-- Only a backslash begins an escape. -/
theorem feed_steady {self next : PropertyParser} {c : Char} (plain : c ≠ '\\')
    (fed : feed self c = some next) : Steady next := by
  apply feed_induction (fun _ _ _ _ => trivial) ?_ trivial fed
  rintro self next - turn
  rw [round] at turn
  split at turn <;> split_ifs at turn <;> cases turn <;>
    first
      | exact absurd ‹c = '\\'› plain
      | simp_all [Steady]

/-- Only a carriage return begins the second state of a continuation of a key. -/
theorem feed_settled {self next : PropertyParser} {c : Char} (plain : c ≠ '\\' ∧ c ≠ '\r')
    (fed : feed self c = some next) : Settled next := by
  refine ⟨feed_steady plain.1 fed, ?_⟩
  apply feed_induction (fun _ _ _ _ => trivial) ?_ trivial fed
  rintro self next - turn
  rw [round] at turn
  split at turn <;> split_ifs at turn <;> cases turn <;>
    first
      | exact absurd ‹c = '\r'› plain.2
      | simp_all

/-- The second of two backslashes ends the escape. -/
theorem feed_backslashes {self middle next : PropertyParser} (steady : Steady self)
    (first : feed self '\\' = some middle) (second : feed middle '\\' = some next) :
    Settled next := by
  have pending : middle.lexemType = .keyEscape ∨ middle.lexemType = .elementEscape ∨
      middle.lexemType = .comment := by
    apply feed_induction ?_ ?_ steady first
    · intro self next steady turn
      rw [round] at turn
      split at turn <;> split_ifs at turn <;> cases turn <;> simp_all [Steady]
    · intro self next steady turn
      rw [round] at turn
      split at turn <;> split_ifs at turn <;> cases turn <;> simp_all [Steady] <;>
        exact absurd ‹_› (by decide)
  obtain ⟨type, key, element, properties⟩ := middle
  rcases pending with rfl | rfl | rfl <;>
    · cases second
      simp [Settled, Steady]

/-- The end of a line ends what is read on it. -/
theorem feed_lineEnd {self next : PropertyParser} {c : Char} (lines : c = '\n' ∨ c = '\r')
    (settled : Settled self) (fed : feed self c = some next) : next.lexemType = .begin := by
  have ends : isLineEnd c = true ∧ isDelimiter c = false ∧ isWhite c = false ∧ c ≠ '\\' ∧
      c ≠ '#' ∧ c ≠ '!' ∧ c ≠ ' ' := by
    rcases lines with rfl | rfl <;> decide
  apply feed_induction ?_ ?_ settled fed
  · intro self next settled turn
    rw [round] at turn
    split at turn <;> split_ifs at turn <;> cases turn <;> simp_all [Settled, Steady]
  · intro self next settled turn
    rw [round] at turn
    split at turn <;> split_ifs at turn <;> cases turn <;> simp_all [Settled, Steady]

/-- In front of a key nothing is pending. -/
def Clean (self : PropertyParser) : Prop :=
  (self.lexemType = .begin ∨ self.lexemType = .comment → self.key = []) ∧
    (self.lexemType = .begin ∨ self.lexemType = .comment ∨ self.lexemType = .key ∨
      self.lexemType = .keyEscape ∨ self.lexemType = .keyContinue ∨
      self.lexemType = .keyContinue2 ∨ self.lexemType = .delimiter → self.element = [])

theorem round_clean {c : Char} (self : PropertyParser) (clean : Clean self) :
    Clean (round self c).parser := by
  rw [round]
  split <;> split_ifs <;> simp_all [Clean, Round.parser]

theorem run_clean {self next : PropertyParser} {text : LogString} (clean : Clean self)
    (ran : run self text = some next) : Clean next :=
  run_invariant (fun _ _ _ => feed_invariant round_clean) clean ran

def isSolid (c : Char) : Bool := c != ' ' && c != '\t'

/-- White space aside, this is how long a text is. -/
def solids (text : LogString) : Nat := text.countP isSolid

section Lost

variable (name value : LogString)

/-- What is still to come is too short to set the property to its value. -/
def Lost (coming : Nat) (self : PropertyParser) : Prop :=
  Tainted self ∨ self.properties[name]? ≠ some value ∧
    self.key.length + solids self.element + coming ≤ solids value

variable {name value}

theorem Lost.mono {self : PropertyParser} {coming fewer : Nat}
    (lost : Lost name value coming self) (less : fewer ≤ coming) : Lost name value fewer self :=
  lost.imp_right fun wrong => ⟨wrong.1, le_trans (Nat.add_le_add_left less _) wrong.2⟩

/-- A shorter element than the value is set. -/
theorem lost_set {self : PropertyParser} {coming : Nat} (named : name ≠ [])
    (lost : Lost name value coming self) {element : LogString}
    (short : solids element ≤ solids self.element) (type : LexemType) {left : LogString}
    (less : solids left ≤ solids self.element) :
    Lost name value coming ⟨type, [], left, self.properties.setProperty self.key element⟩ := by
  rcases lost with tainted | ⟨wrong, bound⟩
  · exact Or.inl (Or.inr (tainted_set tainted element))
  · refine Or.inr ⟨?_, ?_⟩
    · rw [setProperty_get]
      split
      · rename_i same
        intro set
        have present := List.length_pos_of_ne_nil named
        rw [← same] at present
        rw [Option.some.inj set] at short
        omega
      · exact wrong
    · have none : ([] : LogString).length = 0 := rfl
      show ([] : LogString).length + solids left + coming ≤ _
      omega

theorem lost_key {self : PropertyParser} {c : Char} {cost coming : Nat}
    (paid : cost = 1 ∨ c = '\t') (lost : Lost name value (coming + cost) self) (type : LexemType) :
    Lost name value coming ⟨type, self.key ++ [c], self.element, self.properties⟩ := by
  rcases lost with pending | ⟨wrong, bound⟩
  · exact Or.inl (pending.imp_left (List.mem_append_left _))
  · rcases paid with rfl | rfl
    · refine Or.inr ⟨wrong, ?_⟩
      show (self.key ++ [c]).length + solids self.element + coming ≤ _
      rw [List.length_append, List.length_singleton]
      omega
    · exact Or.inl (Or.inl (List.mem_append_right _ (List.mem_singleton_self _)))

theorem lost_element {self : PropertyParser} {c : Char} {cost coming : Nat}
    (paid : cost = 1 ∨ isSolid c = false) (lost : Lost name value (coming + cost) self)
    (type : LexemType) :
    Lost name value coming ⟨type, self.key, self.element ++ [c], self.properties⟩ := by
  rcases lost with pending | ⟨wrong, bound⟩
  · exact Or.inl pending
  · refine Or.inr ⟨wrong, ?_⟩
    have longer : solids (self.element ++ [c]) = solids self.element + if isSolid c then 1 else 0 := by
      rw [solids, List.countP_append, List.countP_singleton]
      rfl
    show self.key.length + solids (self.element ++ [c]) + coming ≤ _
    rw [longer]
    rcases paid with rfl | blank
    · split <;> omega
    · rw [blank]
      have none : (if false = true then 1 else 0) = 0 := rfl
      omega

/-- In a steady state a backslash adds nothing, and white space and ends of lines never do. -/
def Paid (c : Char) (cost : Nat) (self : PropertyParser) : Prop :=
  cost = 1 ∨ (c = '\n' ∨ c = '\r') ∨ Steady self ∧ (c = '\\' ∨ isSolid c = false)

/-- A character costs at most what it adds. -/
theorem feed_lost {self next : PropertyParser} {c : Char} {cost coming : Nat} (named : name ≠ [])
    (paid : Paid c cost self) (lost : Lost name value (coming + cost) self)
    (fed : feed self c = some next) : Lost name value coming next := by
  have keeps : ∀ self next, (Paid c cost self ∧ Lost name value (coming + cost) self) →
      round self c = .keep next → Paid c cost next ∧ Lost name value (coming + cost) next := by
    rintro self next ⟨paid, lost⟩ turn
    have same : next.key = self.key ∧ next.element = self.element ∧
        next.properties = self.properties ∧ (Steady self → Steady next) := by
      rw [round] at turn
      split at turn <;> split_ifs at turn <;> cases turn <;> simp_all [Steady]
    obtain ⟨key, element, properties, steady⟩ := same
    rw [Lost, Tainted, key, element, properties]
    exact ⟨paid.imp_right (Or.imp_right (And.imp_left steady)), lost⟩
  have gets : ∀ self next, (Paid c cost self ∧ Lost name value (coming + cost) self) →
      round self c = .get next → Lost name value coming next := by
    rintro self next ⟨paid, lost⟩ turn
    have kept : Lost name value coming self := lost.mono (Nat.le_add_right ..)
    have emptied : Lost name value coming
        ⟨.begin, [], self.element, self.properties.setProperty self.key []⟩ :=
      lost_set named kept (Nat.zero_le _) .begin (le_refl _)
    have filled : Lost name value coming
        ⟨.begin, [], [], self.properties.setProperty self.key self.element⟩ :=
      lost_set named kept (le_refl _) .begin (Nat.zero_le _)
    -- Nothing is added behind an escape in a steady state.
    have escaped : (self.lexemType = .keyEscape ∨ self.lexemType = .elementEscape) →
        c ≠ '\n' → c ≠ '\r' → cost = 1 := by
      rintro pending noLine noReturn
      rcases paid with one | lines | ⟨⟨noKey, noElement⟩, _⟩
      · exact one
      · exact absurd lines (not_or.mpr ⟨noLine, noReturn⟩)
      · exact absurd pending (not_or.mpr ⟨noKey, noElement⟩)
    have plain : c ≠ '\\' → c ≠ '\n' → c ≠ '\r' → cost = 1 ∨ isSolid c = false := by
      intro noSlash noLine noReturn
      rcases paid with one | lines | ⟨_, slash | blank⟩
      · exact Or.inl one
      · exact absurd lines (not_or.mpr ⟨noLine, noReturn⟩)
      · exact absurd slash noSlash
      · exact Or.inr blank
    -- In a key a space is a delimiter, and a tab is not.
    have solidKey : c ≠ '\\' → isDelimiter c = false → isLineEnd c = false →
        cost = 1 ∨ c = '\t' := by
      intro noSlash noDelimiter noLine
      have noSpace : c ≠ ' ' := by
        rintro rfl
        exact absurd noDelimiter (by decide)
      simp only [isLineEnd, Bool.or_eq_false_iff, beq_eq_false_iff_ne] at noLine
      refine (plain noSlash noLine.1 noLine.2).imp_right fun blank => ?_
      simp only [isSolid, Bool.and_eq_false_iff, bne_eq_false_iff_eq] at blank
      exact blank.resolve_left noSpace
    cases type : self.lexemType with
    | key =>
        rw [round, type] at turn
        dsimp only at turn
        split_ifs at turn with slash delimits lines <;> obtain rfl := Round.get.inj turn
        · exact kept
        · exact kept
        · exact emptied
        · exact lost_key (solidKey slash (by simpa using delimits) (by simpa using lines)) lost _
    | keyEscape =>
        rw [round, type] at turn
        dsimp only at turn
        split_ifs at turn with known line back <;> obtain rfl := Round.get.inj turn
        · have noLine : c ≠ '\n' ∧ c ≠ '\r' := by
            constructor <;>
              · rintro rfl
                exact absurd known (by decide)
          exact lost_key (Or.inl (escaped (Or.inl type) noLine.1 noLine.2)) lost _
        · exact kept
        · exact kept
    | element =>
        rw [round, type] at turn
        dsimp only at turn
        split_ifs at turn with slash lines <;> obtain rfl := Round.get.inj turn
        · exact kept
        · exact filled
        · simp only [isLineEnd, Bool.or_eq_true, beq_iff_eq, not_or] at lines
          exact lost_element (plain slash lines.1 lines.2) lost _
    | elementEscape =>
        rw [round, type] at turn
        dsimp only at turn
        split_ifs at turn with line back <;> obtain rfl := Round.get.inj turn
        · exact kept
        · exact kept
        · exact lost_element (Or.inl (escaped (Or.inr type) line back)) lost _
    | _ =>
        rw [round, type] at turn
        dsimp only at turn
        split_ifs at turn <;> obtain rfl := Round.get.inj turn <;> exact kept
  exact feed_induction keeps gets ⟨paid, lost⟩ fed

/-- White space adds nothing in a steady state. -/
theorem run_blanks_lost {self next : PropertyParser} {list : List Blank} {coming : Nat}
    (named : name ≠ []) (steady : Steady self) (lost : Lost name value coming self)
    (ran : run self (blanks list) = some next) : Steady next ∧ Lost name value coming next := by
  induction list generalizing self with
  | nil =>
      rw [← Option.some.inj ran]
      exact ⟨steady, lost⟩
  | cons blank list ih =>
      obtain ⟨middle, fed, rest⟩ := Option.bind_eq_some_iff.mp ran
      have white : blankChar blank ≠ '\\' ∧ isSolid (blankChar blank) = false := by
        cases blank <;> decide
      have paid : Paid (blankChar blank) 0 self := Or.inr (Or.inr ⟨steady, Or.inr white.2⟩)
      exact ih (feed_steady white.1 fed) (feed_lost named paid lost fed) rest

theorem run_lineEnd_lost {self next : PropertyParser} {ending : LineEnd} {coming : Nat}
    (named : name ≠ []) (lost : Lost name value coming self)
    (ran : run self (lineEnd ending) = some next) :
    Steady next ∧ Lost name value coming next := by
  have one : ∀ {self next : PropertyParser} {c : Char}, c = '\n' ∨ c = '\r' →
      Lost name value coming self → feed self c = some next →
        Steady next ∧ Lost name value coming next := by
    intro self next c lines lost fed
    have paid : Paid c 0 self := Or.inr (Or.inl lines)
    have plain : c ≠ '\\' := by rcases lines with rfl | rfl <;> decide
    exact ⟨feed_steady plain fed, feed_lost named paid lost fed⟩
  cases ending with
  | lf =>
      obtain ⟨middle, fed, rest⟩ := Option.bind_eq_some_iff.mp ran
      rw [← Option.some.inj rest]
      exact one (Or.inl rfl) lost fed
  | cr =>
      obtain ⟨middle, fed, rest⟩ := Option.bind_eq_some_iff.mp ran
      rw [← Option.some.inj rest]
      exact one (Or.inr rfl) lost fed
  | crlf =>
      obtain ⟨middle, fed, rest⟩ := Option.bind_eq_some_iff.mp ran
      obtain ⟨last, fedLast, ended⟩ := Option.bind_eq_some_iff.mp rest
      rw [← Option.some.inj ended]
      exact one (Or.inl rfl) (one (Or.inr rfl) lost fed).2 fedLast

theorem run_continuation_lost {self next : PropertyParser} {broken : Continuation} {coming : Nat}
    (named : name ≠ []) (steady : Steady self) (lost : Lost name value coming self)
    (ran : run self (continuation broken) = some next) :
    Steady next ∧ Lost name value coming next := by
  obtain ⟨middle, fed, rest⟩ := Option.bind_eq_some_iff.mp ran
  have paid : Paid '\\' 0 self := Or.inr (Or.inr ⟨steady, Or.inl rfl⟩)
  have begun := feed_lost named paid lost fed
  rw [run_append] at rest
  obtain ⟨ended, ranEnd, ranBlanks⟩ := Option.bind_eq_some_iff.mp rest
  obtain ⟨steadyEnd, lostEnd⟩ := run_lineEnd_lost named begun ranEnd
  exact run_blanks_lost named steadyEnd lostEnd ranBlanks

/-- A letter is paid for once, also when a backslash stands in front of it. -/
theorem run_letter_lost {self next : PropertyParser} {c : Char} {coming : Nat} (named : name ≠ [])
    (letter : isLetter c = true) (steady : Steady self)
    (lost : Lost name value (coming + solids [c]) self)
    (ran : run self (elementLetter c) = some next) : Settled next ∧ Lost name value coming next := by
  obtain ⟨_, noReturn, _⟩ := letter_clear letter
  rw [elementLetter] at ran
  split at ran
  · rename_i slash
    subst slash
    obtain ⟨middle, fed, rest⟩ := Option.bind_eq_some_iff.mp ran
    obtain ⟨last, fedLast, ended⟩ := Option.bind_eq_some_iff.mp rest
    rw [← Option.some.inj ended]
    have free : Paid '\\' 0 self := Or.inr (Or.inr ⟨steady, Or.inl rfl⟩)
    have paid : Paid '\\' 1 middle := Or.inl rfl
    exact ⟨feed_backslashes steady fed fedLast,
      feed_lost named paid (feed_lost named free lost fed) fedLast⟩
  · rename_i noSlash
    obtain ⟨middle, fed, ended⟩ := Option.bind_eq_some_iff.mp ran
    rw [← Option.some.inj ended]
    refine ⟨feed_settled ⟨noSlash, noReturn⟩ fed, ?_⟩
    have cost : Paid c (solids [c]) self := by
      rw [solids, List.countP_singleton]
      cases solid : isSolid c with
      | true => exact Or.inl rfl
      | false => exact Or.inr (Or.inr ⟨steady, Or.inr solid⟩)
    exact feed_lost named cost lost fed

theorem run_elementText_lost {pieces : List WrittenPiece}
    (legal : ∀ c ∈ lettersOf pieces, isLetter c = true) {self next : PropertyParser} {coming : Nat}
    (named : name ≠ []) (steady : Steady self)
    (lost : Lost name value (coming + solids (lettersOf pieces)) self)
    (ran : run self (elementText pieces) = some next) :
    Steady next ∧ (pieces ≠ [] → (∀ broken, pieces.getLast? ≠ some (.continuation broken)) →
      Settled next) ∧ Lost name value coming next := by
  induction pieces generalizing self with
  | nil =>
      rw [← Option.some.inj ran]
      exact ⟨steady, fun present => absurd rfl present, lost⟩
  | cons piece pieces ih =>
      cases piece with
      | continuation broken =>
          rw [elementText, run_append] at ran
          obtain ⟨middle, ranFirst, ranRest⟩ := Option.bind_eq_some_iff.mp ran
          obtain ⟨steadyFirst, lostFirst⟩ := run_continuation_lost named steady lost ranFirst
          obtain ⟨steadyLast, settles, lostLast⟩ := ih legal steadyFirst lostFirst ranRest
          refine ⟨steadyLast, fun _ inside => ?_, lostLast⟩
          cases pieces with
          | nil => exact absurd rfl (inside broken)
          | cons other pieces => exact settles (List.cons_ne_nil _ _) inside
      | letter c =>
          have split : solids (lettersOf (.letter c :: pieces)) = solids (lettersOf pieces) + solids [c] := by
            rw [lettersOf, solids, solids, solids, List.countP_cons, List.countP_singleton]
          rw [split, ← Nat.add_assoc] at lost
          rw [elementText, run_append] at ran
          obtain ⟨middle, ranFirst, ranRest⟩ := Option.bind_eq_some_iff.mp ran
          obtain ⟨settledFirst, lostFirst⟩ :=
            run_letter_lost named (legal c (List.mem_cons_self ..)) steady lost ranFirst
          obtain ⟨steadyLast, settles, lostLast⟩ :=
            ih (fun other member => legal other (List.mem_cons_of_mem _ member)) settledFirst.1
              lostFirst ranRest
          refine ⟨steadyLast, fun _ inside => ?_, lostLast⟩
          cases pieces with
          | nil =>
              rw [← Option.some.inj ranRest]
              exact settledFirst
          | cons other pieces => exact settles (List.cons_ne_nil _ _) inside

end Lost

end PropertyParser

end CodeCollect.Log4cxx
