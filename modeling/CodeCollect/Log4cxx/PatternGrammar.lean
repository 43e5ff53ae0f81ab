import CodeCollect.Log4cxx.PatternParser

namespace CodeCollect.Log4cxx

namespace PatternParser

section Lists

variable {Converter : Type} {before between after : PatternParser Converter}

/-- Both lists grow by the same number of elements. -/
def Grows (before after : PatternParser Converter) : Prop :=
  ∃ converters infos, after.patternConverters = before.patternConverters ++ converters ∧
    after.formattingInfos = before.formattingInfos ++ infos ∧ converters.length = infos.length

theorem Grows.refl (self : PatternParser Converter) : Grows self self :=
  ⟨[], [], (List.append_nil _).symm, (List.append_nil _).symm, rfl⟩

theorem Grows.trans (first : Grows before between) (second : Grows between after) :
    Grows before after := by
  obtain ⟨converters, infos, sameConverters, sameInfos, lengths⟩ := first
  obtain ⟨moreConverters, moreInfos, nextConverters, nextInfos, moreLengths⟩ := second
  refine ⟨converters ++ moreConverters, infos ++ moreInfos, ?_, ?_, ?_⟩
  · rw [nextConverters, sameConverters, List.append_assoc]
  · rw [nextInfos, sameInfos, List.append_assoc]
  · rw [List.length_append, List.length_append, lengths, moreLengths]

variable (rules : PatternMap Converter) (self : PatternParser Converter)

theorem grows_push (converter : PatternConverter Converter) (info : FormattingInfo) :
    Grows self (self.push converter info) :=
  ⟨[converter], [info], rfl, rfl, rfl⟩

theorem grows_flush : Grows self self.flush := by
  rw [flush]
  split
  · exact self.grows_push _ _
  · exact .refl self

theorem grows_finalizeConverter (c : Char) (pattern : LogString) :
    Grows self (self.finalizeConverter rules c pattern).1 := by
  rw [finalizeConverter]
  split
  · exact self.grows_push _ _
  · dsimp only
    split
    · exact self.grows_push _ _
    · exact (self.grows_push _ _).trans (grows_flush _)

theorem grows_step (c : Char) (pattern : LogString) :
    Grows self (self.step rules c pattern).1 := by
  have finished : Grows self ((self.append c).finish rules c pattern).1 :=
    (self.append c).grows_finalizeConverter rules c pattern
  rw [step]
  cases self.state with
  | literal =>
      cases pattern with
      | nil => exact .refl self
      | cons next rest =>
          change Grows self (self.stepLiteral c (next :: rest)).1
          rw [stepLiteral]
          split
          · split
            · exact .refl self
            · exact self.grows_flush
          · exact .refl self
  | converter =>
      change Grows self (self.stepConverter rules c pattern).1
      rw [stepConverter]
      split
      · exact .refl self
      · split
        · exact .refl self
        · split
          · exact .refl self
          · exact finished
  | dot =>
      change Grows self (self.stepDot c pattern).1
      rw [stepDot]
      split <;> exact .refl self
  | min =>
      change Grows self (self.stepMin rules c pattern).1
      rw [stepMin]
      split
      · exact .refl self
      · split
        · exact .refl self
        · exact finished
  | max =>
      change Grows self (self.stepMax rules c pattern).1
      rw [stepMax]
      split
      · exact .refl self
      · exact finished

theorem grows_run (pattern : LogString) : Grows self (self.run rules pattern) := by
  fun_induction run rules self pattern with
  | case1 self => exact .refl self
  | case2 self c rest ih => exact (self.grows_step rules c rest).trans ih

end Lists

section Grammar

/-- These digits go on from a value. -/
def decimalFrom (value : Nat) : List (Fin 10) → Nat
  | [] => value
  | digit :: digits => decimalFrom (value * 10 + digit) digits

def digitText (digits : List (Fin 10)) : LogString :=
  digits.map fun digit : Fin 10 => Nat.digitChar digit

/-- The width is a decimal number in the range of `int`. -/
structure Width where
  first : Fin 10
  further : List (Fin 10)
  fits : (decimalFrom first further : Int) ≤ INT_MAX

def Width.text (self : Width) : LogString := digitText (self.first :: self.further)

def Width.value (self : Width) : Int := decimalFrom self.first self.further

/-- These characters stand in the names of rules. -/
def isIdentifier (c : Char) : Bool := c.isAlphanum || c == '_'

/-- The rule of the name gives the converter for the options. -/
structure Conversion {Converter : Type} (rules : PatternMap Converter) where
  leftAlign : Bool
  minWidth : Option Width
  maxWidth : Option Width
  first : Char
  further : LogString
  options : List LogString
  newInstance : List LogString → Option Converter
  converter : Converter
  letter : first.isAlpha = true
  identifier : ∀ c ∈ further, isIdentifier c = true
  closed : ∀ option ∈ options, '\x7d' ∉ option
  found : rules (first :: further) = some newInstance
  built : newInstance options = some converter

def optionsText (options : List LogString) : LogString :=
  options.flatMap fun option => '\x7b' :: option ++ ['\x7d']

namespace Conversion

variable {Converter : Type} {rules : PatternMap Converter} (self : Conversion rules)

def modifiers : LogString :=
  (if self.leftAlign then ['-'] else []) ++ self.minWidth.elim [] Width.text ++
    self.maxWidth.elim [] fun width => '.' :: width.text

def text : LogString :=
  ESCAPE_CHAR :: self.modifiers ++ (self.first :: self.further) ++ optionsText self.options

def formattingInfo : FormattingInfo :=
  ⟨self.leftAlign, self.minWidth.elim 0 Width.value, self.maxWidth.elim INT_MAX Width.value⟩

end Conversion

inductive Item {Converter : Type} (rules : PatternMap Converter) where
  | literal (text : LogString) (filled : text ≠ [])
  | conversion (conversion : Conversion rules)

/-- An escape character is written twice. -/
def escape (text : LogString) : LogString :=
  text.flatMap fun c => if c = ESCAPE_CHAR then [ESCAPE_CHAR, ESCAPE_CHAR] else [c]

/-- Neither a name nor its options go on with this text. -/
def Stops (rest : LogString) : Prop :=
  ∀ c ∈ rest.head?, isIdentifier c = false ∧ c ≠ '\x7b'

namespace Item

variable {Converter : Type} {rules : PatternMap Converter}

def text : Item rules → LogString
  | .literal text _ => escape text
  | .conversion item => item.text

def converter : Item rules → PatternConverter Converter
  | .literal text _ => .literal text
  | .conversion item => .rule item.converter

def formattingInfo : Item rules → FormattingInfo
  | .literal _ _ => FormattingInfo.getDefault
  | .conversion item => item.formattingInfo

/-- The second item can be written directly after the first one. -/
def Before : Item rules → Item rules → Prop
  | .literal _ _, .literal _ _ => False
  | .conversion _, .literal text _ => Stops text
  | _, .conversion _ => True

end Item

end Grammar

section Scanning

variable {Converter : Type} (rules : PatternMap Converter)

theorem toInt_of_fits {n : Int} (nonneg : 0 ≤ n) (fits : n ≤ INT_MAX) : toInt n = n := by
  rw [INT_MAX] at fits
  exact Int.bmod_eq_of_le (by omega) (by omega)

theorem le_decimalFrom (value : Nat) (digits : List (Fin 10)) :
    value ≤ decimalFrom value digits := by
  induction digits generalizing value with
  | nil => exact le_rfl
  | cons digit digits ih =>
      have more := ih (value * 10 + digit)
      rw [decimalFrom]
      omega

theorem digitChar_digit : ∀ value : Fin 10,
    isDigit (Nat.digitChar value) = true ∧ digit (Nat.digitChar value) = (value : Nat) := by
  decide

/-- A further digit of a width that fits does not wrap around. -/
theorem toInt_decimal {value : Nat} {next : Fin 10} {digits : List (Fin 10)}
    (fits : (decimalFrom value (next :: digits) : Int) ≤ INT_MAX) :
    toInt (toInt ((value : Int) * 10) + digit (Nat.digitChar next)) =
      ((value * 10 + next : Nat) : Int) := by
  have bound := le_decimalFrom (value * 10 + next) digits
  rw [decimalFrom] at fits
  rw [(digitChar_digit next).2, toInt_of_fits (n := (value : Int) * 10) (by omega) (by omega),
    toInt_of_fits (by omega) (by omega)]
  omega

theorem run_cons (self : PatternParser Converter) (c : Char) (rest : LogString) :
    self.run rules (c :: rest) = (self.step rules c rest).1.run rules (self.step rules c rest).2 := by
  rw [run]

section Widths

variable (currentLiteral : LogString) (leftAlign : Bool) (value : Nat) (other : Int)
  (converters : List (PatternConverter Converter)) (infos : List FormattingInfo)

theorem run_min (digits : List (Fin 10)) (rest : LogString)
    (fits : (decimalFrom value digits : Int) ≤ INT_MAX) :
    run rules ⟨.min, currentLiteral, ⟨leftAlign, value, other⟩, converters, infos⟩
        (digitText digits ++ rest) =
      run rules ⟨.min, currentLiteral ++ digitText digits,
        ⟨leftAlign, decimalFrom value digits, other⟩, converters, infos⟩ rest := by
  induction digits generalizing value currentLiteral with
  | nil => rw [digitText, List.map_nil, List.append_nil, List.nil_append, decimalFrom]
  | cons next digits ih =>
      have onward := ih (currentLiteral ++ [Nat.digitChar next]) (value * 10 + next) fits
      have sum := toInt_decimal fits
      rw [List.append_assoc, List.singleton_append] at onward
      rw [digitText, List.map_cons, List.cons_append, run_cons, step]
      dsimp only
      rw [stepMin, if_pos (digitChar_digit next).1, sum]
      exact onward

theorem run_max (digits : List (Fin 10)) (rest : LogString)
    (fits : (decimalFrom value digits : Int) ≤ INT_MAX) :
    run rules ⟨.max, currentLiteral, ⟨leftAlign, other, value⟩, converters, infos⟩
        (digitText digits ++ rest) =
      run rules ⟨.max, currentLiteral ++ digitText digits,
        ⟨leftAlign, other, decimalFrom value digits⟩, converters, infos⟩ rest := by
  induction digits generalizing value currentLiteral with
  | nil => rw [digitText, List.map_nil, List.append_nil, List.nil_append, decimalFrom]
  | cons next digits ih =>
      have onward := ih (currentLiteral ++ [Nat.digitChar next]) (value * 10 + next) fits
      have sum := toInt_decimal fits
      rw [List.append_assoc, List.singleton_append] at onward
      rw [digitText, List.map_cons, List.cons_append, run_cons, step]
      dsimp only
      rw [stepMax, if_pos (digitChar_digit next).1, sum]
      exact onward

end Widths

theorem isUnicodeIdentifierStart_eq (ch : Char) : isUnicodeIdentifierStart ch = ch.isAlphanum := by
  simp only [isUnicodeIdentifierStart, Char.isAlphanum, Char.isAlpha, Char.isUpper, Char.isLower,
    Char.isDigit, Char.le_def, ge_iff_le, Bool.decide_and]

theorem isUnicodeIdentifierPart_eq (ch : Char) : isUnicodeIdentifierPart ch = isIdentifier ch := by
  rw [isUnicodeIdentifierPart, isUnicodeIdentifierStart_eq, isIdentifier]

theorem digit_plain {c : Char} (ascii : isDigit c = true) : c ≠ '-' ∧ c ≠ '.' := by
  constructor
  · rintro rfl
    exact absurd ascii (by decide)
  · rintro rfl
    exact absurd ascii (by decide)

theorem letter_plain {c : Char} (letter : c.isAlpha = true) :
    isDigit c = false ∧ c ≠ '-' ∧ c ≠ '.' ∧ c ≠ ESCAPE_CHAR := by
  refine ⟨?_, ?_, ?_, ?_⟩
  · simp only [Char.isAlpha, Char.isUpper, Char.isLower, Bool.or_eq_true, Bool.and_eq_true,
      decide_eq_true_eq, UInt32.le_iff_toNat_le, ge_iff_le] at letter
    change (65 ≤ c.toNat ∧ c.toNat ≤ 90) ∨ (97 ≤ c.toNat ∧ c.toNat ≤ 122) at letter
    have above : ¬ c ≤ '9' := by
      rw [Char.le_def, UInt32.le_iff_toNat_le]
      change ¬ c.toNat ≤ 57
      omega
    rw [isDigit, decide_eq_false above, Bool.and_false]
  · rintro rfl
    exact absurd letter (by decide)
  · rintro rfl
    exact absurd letter (by decide)
  · rintro rfl
    exact absurd letter (by decide)

/-- A letter ends the modifiers in each of these states. -/
theorem step_letter (self : PatternParser Converter)
    (state : self.state = .converter ∨ self.state = .min ∨ self.state = .max) {c : Char}
    (letter : c.isAlpha = true) (pattern : LogString) :
    self.step rules c pattern = (self.append c).finish rules c pattern := by
  obtain ⟨digit, minus, point, _⟩ := letter_plain letter
  rw [step]
  rcases state with state | state | state <;> rw [state] <;>
    simp [stepConverter, stepMin, stepMax, digit, minus, point]

theorem extractOptions_text {options : List LogString}
    (closed : ∀ option ∈ options, '\x7d' ∉ option) {rest : LogString} (stops : Stops rest) :
    extractOptions (optionsText options ++ rest) = (options, rest) := by
  induction options with
  | nil =>
      rw [optionsText, List.flatMap_nil, List.nil_append]
      cases rest with
      | nil => rw [extractOptions]
      | cons c rest =>
          rw [extractOptions, if_neg fun opens => (stops c rfl).2 opens.1]
  | cons option options ih =>
      rw [List.forall_mem_cons] at closed
      have inside : ∀ c ∈ option, (c != '\x7d') = true := fun c member =>
        bne_iff_ne.mpr fun same => closed.1 (same ▸ member)
      have text : optionsText (option :: options) ++ rest =
          '\x7b' :: (option ++ '\x7d' :: (optionsText options ++ rest)) := by
        simp [optionsText]
      have taken := ih closed.2
      rw [text, extractOptions, if_pos ⟨rfl, by simp⟩]
      dsimp only
      rw [List.takeWhile_append_of_pos inside, List.dropWhile_append_of_pos inside,
        List.takeWhile_cons_of_neg (by simp), List.dropWhile_cons_of_neg (by simp),
        List.append_nil, List.tail_cons, taken]

/-- No identifier character follows the name of a rule. -/
theorem takeWhile_options (options : List LogString) {rest : LogString} (stops : Stops rest) :
    (optionsText options ++ rest).takeWhile isUnicodeIdentifierPart = [] ∧
      (optionsText options ++ rest).dropWhile isUnicodeIdentifierPart =
        optionsText options ++ rest := by
  cases options with
  | nil =>
      rw [optionsText, List.flatMap_nil, List.nil_append]
      cases rest with
      | nil => exact ⟨rfl, rfl⟩
      | cons c rest =>
          have stop := (stops c rfl).1
          rw [← isUnicodeIdentifierPart_eq] at stop
          exact ⟨List.takeWhile_cons_of_neg (by simp [stop]),
            List.dropWhile_cons_of_neg (by simp [stop])⟩
  | cons option options => exact ⟨rfl, rfl⟩

theorem createConverter_name {name : LogString} {newInstance : List LogString → Option Converter}
    (found : rules name = some newInstance) (filled : name ≠ []) (options : List LogString)
    (currentLiteral : LogString) :
    createConverter rules options name currentLiteral = (newInstance options, []) := by
  obtain ⟨c, further, rfl⟩ := List.exists_cons_of_ne_nil filled
  rw [createConverter, List.length_cons, createConverterFrom, ← List.length_cons, List.take_length,
    found]
  dsimp only
  rw [Nat.sub_self, List.rtake_zero]

variable {rules}

/-- The name, its options and the text after them give exactly the converter. -/
theorem finish_word (conversion : Conversion rules) (self : PatternParser Converter)
    {rest : LogString} (stops : Stops rest) :
    self.finish rules conversion.first
        (conversion.further ++ (optionsText conversion.options ++ rest)) =
      (⟨.literal, [], FormattingInfo.getDefault,
        self.patternConverters ++ [.rule conversion.converter],
        self.formattingInfos ++ [self.formattingInfo]⟩, rest) := by
  have start : isUnicodeIdentifierStart conversion.first = true := by
    rw [isUnicodeIdentifierStart_eq, Char.isAlphanum, conversion.letter, Bool.true_or]
  have inside : ∀ c ∈ conversion.further, isUnicodeIdentifierPart c = true := fun c member =>
    (isUnicodeIdentifierPart_eq c).trans (conversion.identifier c member)
  have behind := takeWhile_options conversion.options stops
  have extracted : extractConverter conversion.first
      (conversion.further ++ (optionsText conversion.options ++ rest)) self.currentLiteral =
        (conversion.first :: conversion.further, self.currentLiteral ++ conversion.further,
          optionsText conversion.options ++ rest) := by
    rw [extractConverter, if_pos start, List.takeWhile_append_of_pos inside,
      List.dropWhile_append_of_pos inside, behind.1, behind.2, List.append_nil]
  have created := createConverter_name rules conversion.found (List.cons_ne_nil _ _)
    conversion.options (self.currentLiteral ++ conversion.further)
  rw [conversion.built] at created
  rw [finish, finalizeConverter, extracted]
  dsimp only
  rw [if_neg (List.cons_ne_nil _ _), extractOptions_text conversion.closed stops]
  dsimp only
  rw [created]
  rfl

end Scanning

section Parsing

variable {Converter : Type} {rules : PatternMap Converter}

section Modifiers

variable (currentLiteral : LogString) (leftAlign : Bool) (minLength : Int)
  (converters : List (PatternConverter Converter)) (infos : List FormattingInfo)
  (rest : LogString)

theorem run_alignment :
    ∃ literal, run rules ⟨.converter, currentLiteral, FormattingInfo.getDefault, converters, infos⟩
          ((if leftAlign then ['-'] else []) ++ rest) =
        run rules ⟨.converter, literal, ⟨leftAlign, 0, INT_MAX⟩, converters, infos⟩ rest := by
  cases leftAlign with
  | false => exact ⟨currentLiteral, rfl⟩
  | true =>
      refine ⟨currentLiteral ++ ['-'], ?_⟩
      rw [if_pos rfl, List.singleton_append, run_cons, step]
      rfl

theorem run_minWidth (minWidth : Option Width) :
    ∃ state literal, (state = .converter ∨ state = .min) ∧
      run rules ⟨.converter, currentLiteral, ⟨leftAlign, 0, INT_MAX⟩, converters, infos⟩
          (minWidth.elim [] Width.text ++ rest) =
        run rules ⟨state, literal, ⟨leftAlign, minWidth.elim 0 Width.value, INT_MAX⟩,
          converters, infos⟩ rest := by
  cases minWidth with
  | none => exact ⟨.converter, currentLiteral, Or.inl rfl, rfl⟩
  | some width =>
      have digits := run_min rules (currentLiteral ++ [Nat.digitChar width.first]) leftAlign
        width.first INT_MAX converters infos width.further rest width.fits
      obtain ⟨ascii, value⟩ := digitChar_digit width.first
      obtain ⟨minus, point⟩ := digit_plain ascii
      refine ⟨.min, _, Or.inr rfl, Eq.trans ?_ digits⟩
      show run rules _ (Nat.digitChar width.first :: (digitText width.further ++ rest)) = _
      rw [run_cons, step]
      dsimp only
      rw [stepConverter, if_neg minus, if_neg point, if_pos ascii, value]
      rfl

theorem run_maxWidth (maxWidth : Option Width) {state : State}
    (before : state = .converter ∨ state = .min) :
    ∃ after literal, (after = .converter ∨ after = .min ∨ after = .max) ∧
      run rules ⟨state, currentLiteral, ⟨leftAlign, minLength, INT_MAX⟩, converters, infos⟩
          ((maxWidth.elim [] fun width => '.' :: width.text) ++ rest) =
        run rules ⟨after, literal, ⟨leftAlign, minLength, maxWidth.elim INT_MAX Width.value⟩,
          converters, infos⟩ rest := by
  cases maxWidth with
  | none => exact ⟨state, currentLiteral, before.imp_right Or.inl, rfl⟩
  | some width =>
      have digits := run_max rules (currentLiteral ++ ['.'] ++ [Nat.digitChar width.first])
        leftAlign width.first minLength converters infos width.further rest width.fits
      obtain ⟨ascii, value⟩ := digitChar_digit width.first
      refine ⟨.max, _, Or.inr (Or.inr rfl), Eq.trans ?_ digits⟩
      have point : run rules
          ⟨state, currentLiteral, ⟨leftAlign, minLength, INT_MAX⟩, converters, infos⟩
            ('.' :: (width.text ++ rest)) =
          run rules ⟨.dot, currentLiteral ++ ['.'], ⟨leftAlign, minLength, INT_MAX⟩,
            converters, infos⟩ (width.text ++ rest) := by
        rw [run_cons, step]
        rcases before with rfl | rfl <;> rfl
      refine point.trans ?_
      show run rules _ (Nat.digitChar width.first :: (digitText width.further ++ rest)) = _
      rw [run_cons, step]
      dsimp only
      rw [stepDot, if_pos ascii, value]
      rfl

/-- The modifiers leave the information of the conversion. -/
theorem run_modifiers (conversion : Conversion rules) :
    ∃ state literal, (state = .converter ∨ state = .min ∨ state = .max) ∧
      run rules ⟨.converter, currentLiteral, FormattingInfo.getDefault, converters, infos⟩
          (conversion.modifiers ++ rest) =
        run rules ⟨state, literal, conversion.formattingInfo, converters, infos⟩ rest := by
  obtain ⟨aligned, alignment⟩ := @run_alignment _ rules currentLiteral conversion.leftAlign
    converters infos (conversion.minWidth.elim [] Width.text ++
      ((conversion.maxWidth.elim [] fun width => '.' :: width.text) ++ rest))
  obtain ⟨state, wide, before, least⟩ := @run_minWidth _ rules aligned conversion.leftAlign
    converters infos ((conversion.maxWidth.elim [] fun width => '.' :: width.text) ++ rest)
    conversion.minWidth
  obtain ⟨after, literal, states, greatest⟩ := @run_maxWidth _ rules wide conversion.leftAlign
    (conversion.minWidth.elim 0 Width.value) converters infos rest conversion.maxWidth _ before
  refine ⟨after, literal, states, ?_⟩
  rw [Conversion.modifiers, List.append_assoc, List.append_assoc, alignment, least, greatest]
  rfl

end Modifiers

theorem not_escape_of_mem_modifiers (conversion : Conversion rules) :
    ∀ c ∈ conversion.modifiers, c ≠ ESCAPE_CHAR := by
  have digits : ∀ value : Fin 10, Nat.digitChar value ≠ ESCAPE_CHAR := by
    decide
  have width : ∀ width : Width, ∀ c ∈ width.text, c ≠ ESCAPE_CHAR := by
    intro width c member
    obtain ⟨value, _, rfl⟩ := List.mem_map.mp member
    exact digits value
  intro c member
  rw [Conversion.modifiers, List.mem_append, List.mem_append] at member
  rcases member with (aligned | least) | greatest
  · split at aligned
    · rw [List.mem_singleton.mp aligned]
      decide
    · exact absurd aligned List.not_mem_nil
  · cases chosen : conversion.minWidth with
    | none => simp [chosen] at least
    | some found =>
        rw [chosen] at least
        exact width found c least
  · cases chosen : conversion.maxWidth with
    | none => simp [chosen] at greatest
    | some found =>
        rw [chosen] at greatest
        rcases List.mem_cons.mp greatest with rfl | digits
        · decide
        · exact width found c digits

/-- A conversion pushes what is in the literal, and then its converter. -/
theorem run_conversion (conversion : Conversion rules) (self : PatternParser Converter)
    (state : self.state = .literal) {rest : LogString} (stops : Stops rest) :
    self.run rules (conversion.text ++ rest) =
      run rules ⟨.literal, [], FormattingInfo.getDefault,
        self.flush.patternConverters ++ [.rule conversion.converter],
        self.flush.formattingInfos ++ [conversion.formattingInfo]⟩ rest := by
  have text : conversion.text ++ rest = ESCAPE_CHAR :: (conversion.modifiers ++
      conversion.first :: (conversion.further ++ (optionsText conversion.options ++ rest))) := by
    simp [Conversion.text]
  have begun : ∃ next tail, conversion.modifiers ++ conversion.first ::
      (conversion.further ++ (optionsText conversion.options ++ rest)) = next :: tail ∧
        next ≠ ESCAPE_CHAR := by
    have others := not_escape_of_mem_modifiers conversion
    cases shape : conversion.modifiers with
    | nil => exact ⟨_, _, rfl, (letter_plain conversion.letter).2.2.2⟩
    | cons next tail =>
        rw [shape] at others
        exact ⟨_, _, rfl, others next List.mem_cons_self⟩
  have opened : self.run rules (conversion.text ++ rest) =
      run rules ⟨.converter, self.flush.currentLiteral ++ [ESCAPE_CHAR],
        FormattingInfo.getDefault, self.flush.patternConverters, self.flush.formattingInfos⟩
        (conversion.modifiers ++ conversion.first ::
          (conversion.further ++ (optionsText conversion.options ++ rest))) := by
    obtain ⟨next, tail, same, other⟩ := begun
    rw [text, run_cons, step, state, same]
    dsimp only
    rw [stepLiteral, if_pos rfl, if_neg other]
    rfl
  obtain ⟨last, literal, states, modified⟩ := run_modifiers (self.flush.currentLiteral ++
    [ESCAPE_CHAR]) self.flush.patternConverters self.flush.formattingInfos
    (conversion.first :: (conversion.further ++ (optionsText conversion.options ++ rest)))
    conversion
  rw [opened, modified, run_cons, step_letter rules _ states conversion.letter,
    finish_word conversion _ stops]
  rfl

theorem run_escape (text : LogString) (self : PatternParser Converter)
    (state : self.state = .literal) (rest : LogString) :
    self.run rules (escape text ++ rest) =
      run rules { self with currentLiteral := self.currentLiteral ++ text } rest := by
  induction text generalizing self with
  | nil =>
      rw [escape, List.flatMap_nil, List.nil_append, List.append_nil]
  | cons c text ih =>
      have onward := ih (self.append c) state
      have read : self.run rules (escape (c :: text) ++ rest) =
          (self.append c).run rules (escape text ++ rest) := by
        rw [escape, List.flatMap_cons, ← escape]
        by_cases escapes : c = ESCAPE_CHAR
        · rw [if_pos escapes, List.append_assoc, List.cons_append, List.singleton_append,
            run_cons, step, state, escapes]
          rfl
        · rw [if_neg escapes, List.append_assoc, List.singleton_append, run_cons, step, state]
          cases escape text ++ rest with
          | nil => rfl
          | cons next onward =>
              dsimp only
              rw [stepLiteral, if_neg escapes]
      rw [read, onward, append, List.append_assoc, List.singleton_append]

theorem stops_escape {text : LogString} (filled : text ≠ []) (stops : Stops text)
    (rest : LogString) : Stops (escape text ++ rest) := by
  obtain ⟨c, text, rfl⟩ := List.exists_cons_of_ne_nil filled
  have head : (escape (c :: text) ++ rest).head? = some c := by
    rw [escape, List.flatMap_cons]
    split
    · rename_i escapes
      rw [escapes]
      rfl
    · rfl
  intro next member
  rw [head] at member
  exact stops next member

/-- A name and its options stop before the items that may follow a conversion. -/
theorem stops_text {conversion : Conversion rules} {items : List (Item rules)}
    (chain : ∀ item ∈ items.head?, Item.Before (.conversion conversion) item) :
    Stops (items.flatMap Item.text) := by
  cases items with
  | nil => exact fun _ member => absurd member (Option.not_mem_none _)
  | cons item items =>
      have before := chain item rfl
      rw [List.flatMap_cons]
      cases item with
      | literal text filled => exact stops_escape filled before _
      | conversion next =>
          intro c member
          have escapes : ESCAPE_CHAR = c := Option.some.inj member
          rw [← escapes]
          decide

/-- The literal is pushed before whatever comes next. -/
theorem flush_literal {self : PatternParser Converter} (empty : self.currentLiteral = [])
    {text : LogString} (filled : text ≠ []) :
    flush { self with currentLiteral := self.currentLiteral ++ text } =
        { self.push (.literal text) FormattingInfo.getDefault with currentLiteral := [] } ∧
      self.flush = self := by
  constructor
  · rw [flush, empty, List.nil_append, if_pos filled]
    rfl
  · rw [flush, if_neg (not_not_intro empty)]

/-- After its items the parser has their converters and their fields, when it began without a
literal before the first one. -/
theorem run_items (items : List (Item rules)) (chain : items.IsChain Item.Before)
    (self : PatternParser Converter) (state : self.state = .literal)
    (apart : ∀ text filled, Item.literal text filled ∈ items.head? → self.currentLiteral = []) :
    (self.run rules (items.flatMap Item.text)).flush.patternConverters =
        self.flush.patternConverters ++ items.map Item.converter ∧
      (self.run rules (items.flatMap Item.text)).flush.formattingInfos =
        self.flush.formattingInfos ++ items.map Item.formattingInfo := by
  induction items generalizing self with
  | nil =>
      rw [List.flatMap_nil, run]
      exact ⟨(List.append_nil _).symm, (List.append_nil _).symm⟩
  | cons item items ih =>
      rw [List.isChain_cons] at chain
      rw [List.flatMap_cons]
      cases item with
      | literal text filled =>
          obtain ⟨pushed, same⟩ := flush_literal (apart text filled rfl) filled
          have next : ∀ other filled, Item.literal other filled ∉ items.head? :=
            fun other filled member => chain.1 _ member
          obtain ⟨converters, infos⟩ := ih chain.2
            { self with currentLiteral := self.currentLiteral ++ text } state
            fun other filled member => absurd member (next other filled)
          rw [Item.text, run_escape text self state, converters, infos, pushed, same]
          exact ⟨List.append_assoc _ _ _, List.append_assoc _ _ _⟩
      | conversion conversion =>
          obtain ⟨converters, infos⟩ := ih chain.2 ⟨.literal, [], FormattingInfo.getDefault,
            self.flush.patternConverters ++ [.rule conversion.converter],
            self.flush.formattingInfos ++ [conversion.formattingInfo]⟩ rfl fun _ _ _ => rfl
          rw [Item.text, run_conversion conversion self state (stops_text chain.1), converters,
            infos]
          exact ⟨List.append_assoc _ _ _, List.append_assoc _ _ _⟩

/-- The text of the items gives their converters and fields, and the two lists that any pattern
gives have the same length. -/
theorem parses_items (rules : PatternMap Converter) (items : List (Item rules))
    (chain : items.IsChain Item.Before) (converters : List (PatternConverter Converter))
    (infos : List FormattingInfo) :
    parse (items.flatMap Item.text) converters infos rules =
        (converters ++ items.map Item.converter, infos ++ items.map Item.formattingInfo) ∧
      ∀ pattern, ∃ moreConverters moreInfos, parse pattern converters infos rules =
        (converters ++ moreConverters, infos ++ moreInfos) ∧
          moreConverters.length = moreInfos.length := by
  constructor
  · obtain ⟨parsed, fields⟩ := run_items items chain
      ⟨.literal, [], FormattingInfo.getDefault, converters, infos⟩ rfl fun _ _ _ => rfl
    exact Prod.ext parsed fields
  · intro pattern
    obtain ⟨moreConverters, moreInfos, sameConverters, sameInfos, lengths⟩ :=
      (grows_run rules ⟨.literal, [], FormattingInfo.getDefault, converters, infos⟩
        pattern).trans (grows_flush _)
    exact ⟨moreConverters, moreInfos, Prod.ext sameConverters sameInfos, lengths⟩

/-- The only rule of this map keeps its options. -/
def messageRules : PatternMap (List LogString) :=
  fun name => if name = "m".toList then some some else none

def messageConversion : Conversion messageRules where
  leftAlign := true
  minWidth := some ⟨5, [], by decide +kernel⟩
  maxWidth := some ⟨1, [7], by decide +kernel⟩
  first := 'm'
  further := []
  options := ["x y".toList]
  newInstance := some
  converter := ["x y".toList]
  letter := rfl
  identifier := fun _ member => absurd member List.not_mem_nil
  closed := by simp
  found := rfl
  built := rfl

theorem parses_items_message :
    parse "5%%%-5.17m{x y} \n".toList [] [] messageRules =
      ([.literal "5%".toList, .rule ["x y".toList], .literal " \n".toList],
        [⟨false, 0, INT_MAX⟩, ⟨true, 5, 17⟩, ⟨false, 0, INT_MAX⟩]) := by
  have blank : Stops " \n".toList := by
    intro c member
    rw [← Option.some.inj member]
    decide
  exact (parses_items messageRules [.literal "5%".toList (by decide),
    .conversion messageConversion, .literal " \n".toList (by decide)]
    (List.isChain_cons_cons.mpr ⟨trivial, List.isChain_cons_cons.mpr ⟨blank, .singleton _⟩⟩)
    [] []).1

end Parsing

end CodeCollect.Log4cxx.PatternParser
