import CodeCollect.Log4cxx.PropertiesText

namespace CodeCollect.Log4cxx

namespace PropertyParser

open PropertiesText

/-- A letter is no line end and not the character that the code takes for a tab. -/
theorem letter_clear {c : Char} (letter : isLetter c = true) :
    c ≠ '\n' ∧ c ≠ '\r' ∧ c ≠ PropertyParser.tab := by
  refine ⟨?_, ?_, ?_⟩ <;>
    · rintro rfl
      exact absurd letter (by decide)

section States

variable (key element : LogString) (properties : Properties) {c : Char}

theorem feed_begin (plain : isWhite c = false ∧ isLineEnd c = false ∧ c ≠ '#' ∧ c ≠ '!') :
    feed ⟨.begin, key, element, properties⟩ c = feed ⟨.key, key, element, properties⟩ c := by
  apply feed_keep
  simp [round, plain]

theorem feed_keyContinue (plain : isWhite c = false) :
    feed ⟨.keyContinue, key, element, properties⟩ c = feed ⟨.key, key, element, properties⟩ c := by
  apply feed_keep
  simp [round, plain]

theorem feed_keyContinue2 (plain : c ≠ '\n') :
    feed ⟨.keyContinue2, key, element, properties⟩ c =
      feed ⟨.keyContinue, key, element, properties⟩ c := by
  apply feed_keep
  simp [round, plain]

theorem feed_delimiter (plain : isDelimiter c = false) :
    feed ⟨.delimiter, key, element, properties⟩ c =
      feed ⟨.element, key, element, properties⟩ c := by
  apply feed_keep
  simp [round, plain]

theorem feed_elementContinue (plain : isWhite c = false) :
    feed ⟨.elementContinue, key, element, properties⟩ c =
      feed ⟨.element, key, element, properties⟩ c := by
  apply feed_keep
  simp [round, plain]

/-- The second state of a continuation does what the first one does. -/
theorem feed_elementContinue2 (c : Char) :
    feed ⟨.elementContinue2, key, element, properties⟩ c =
      feed ⟨.elementContinue, key, element, properties⟩ c := by
  by_cases space : c = ' '
  · rw [space]
    rfl
  · apply feed_keep
    simp [round, space]

theorem feed_key_letter (plain : c ≠ '\\' ∧ isDelimiter c = false ∧ isLineEnd c = false) :
    feed ⟨.key, key, element, properties⟩ c = some ⟨.key, key ++ [c], element, properties⟩ := by
  apply feed_get
  simp [round, plain]

theorem feed_key_delimiter (delimits : isDelimiter c = true) (plain : c ≠ '\\') :
    feed ⟨.key, key, element, properties⟩ c = some ⟨.delimiter, key, element, properties⟩ := by
  apply feed_get
  simp [round, plain, delimits]

theorem feed_keyEscape (escaped : isDelimiter c = true ∨ c = '\\') :
    feed ⟨.keyEscape, key, element, properties⟩ c =
      some ⟨.key, key ++ [c], element, properties⟩ := by
  apply feed_get
  simp [round, escaped]

/-- The loop never ends behind a backslash that the code has no case for. -/
theorem feed_keyEscape_hangs
    (missing : isDelimiter c = false ∧ c ≠ '\\' ∧ isLineEnd c = false) :
    feed ⟨.keyEscape, key, element, properties⟩ c = none := by
  have lines : c ≠ '\n' ∧ c ≠ '\r' := by
    simpa [isLineEnd] using missing.2.2
  have kept : round ⟨.keyEscape, key, element, properties⟩ c =
      .keep ⟨.keyEscape, key, element, properties⟩ := by
    simp [round, missing, lines]
  rw [feed, feedIn_keep kept, feedIn_keep kept, feedIn_keep kept, feedIn]

theorem feed_element_letter (plain : c ≠ '\\' ∧ isLineEnd c = false) :
    feed ⟨.element, key, element, properties⟩ c =
      some ⟨.element, key, element ++ [c], properties⟩ := by
  apply feed_get
  simp [round, plain]

theorem feed_elementEscape (plain : isLineEnd c = false) :
    feed ⟨.elementEscape, key, element, properties⟩ c =
      some ⟨.element, key, element ++ [c], properties⟩ := by
  have lines : c ≠ '\n' ∧ c ≠ '\r' := by
    simpa [isLineEnd] using plain
  apply feed_get
  simp [round, lines]

theorem feed_comment (plain : isLineEnd c = false) :
    feed ⟨.comment, key, element, properties⟩ c =
      some ⟨.comment, key, element, properties⟩ := by
  apply feed_get
  simp [round, plain]

/-- A delimiter is left as the element is begun. -/
theorem run_delimiter {text : LogString} (present : text ≠ [])
    (plain : ∀ c ∈ text.head?, isDelimiter c = false) :
    run ⟨.delimiter, key, element, properties⟩ text =
      run ⟨.element, key, element, properties⟩ text := by
  cases text with
  | nil => exact absurd rfl present
  | cons c text => rw [run, run, feed_delimiter key element properties (plain c rfl)]

/-- Spaces in front of a line are passed over. -/
theorem run_begin_blanks {list : List Blank} (spaces : .tab ∉ list) :
    run ⟨.begin, key, element, properties⟩ (blanks list) =
      some ⟨.begin, key, element, properties⟩ := by
  induction list with
  | nil => rfl
  | cons blank list ih =>
      obtain ⟨first, others⟩ := not_or.mp (List.mem_cons.not.mp spaces)
      cases blank with
      | tab => exact absurd rfl first
      | space =>
          have fed : feed ⟨.begin, key, element, properties⟩ ' ' =
            some ⟨.begin, key, element, properties⟩ := rfl
          show (feed _ ' ').bind _ = _
          rw [fed]
          exact ih others

theorem run_begin_lineEnd (ending : LineEnd) :
    run ⟨.begin, key, element, properties⟩ (lineEnd ending) =
      some ⟨.begin, key, element, properties⟩ := by
  cases ending <;> rfl

end States

/-- A key is read in these states, and the first one is left with the first character. -/
def InKey (first : Bool) (type : LexemType) : Prop :=
  type = .key ∨ type = .keyContinue ∨ type = .keyContinue2 ∨ first = true ∧ type = .begin

theorem feed_inKey {first : Bool} {type : LexemType} (within : InKey first type) {c : Char}
    (plain : isWhite c = false ∧ isLineEnd c = false)
    (signs : first = true → c ≠ '#' ∧ c ≠ '!') (key element : LogString)
    (properties : Properties) :
    feed ⟨type, key, element, properties⟩ c = feed ⟨.key, key, element, properties⟩ c := by
  have line : c ≠ '\n' := by
    rintro rfl
    exact absurd plain.2 (by decide)
  rcases within with rfl | rfl | rfl | ⟨begins, rfl⟩
  · rfl
  · exact feed_keyContinue key element properties plain.1
  · rw [feed_keyContinue2 key element properties line,
      feed_keyContinue key element properties plain.1]
  · exact feed_begin key element properties ⟨plain.1, plain.2, signs begins⟩

theorem feed_inKey_escape {first : Bool} {type : LexemType} (within : InKey first type)
    (key element : LogString) (properties : Properties) :
    feed ⟨type, key, element, properties⟩ '\\' =
      some ⟨.keyEscape, key, element, properties⟩ :=
  feed_inKey within (by decide) (fun _ => by decide) key element properties

/-- These letters of a key are read again. -/
def ReadableKey (first : Bool) (c : Char) : Prop :=
  c ≠ '\t' ∧ (first = true → c ≠ '#' ∧ c ≠ '!')

theorem run_keyLetter {first : Bool} {type : LexemType} (within : InKey first type) {c : Char}
    (letter : isLetter c = true) (readable : ReadableKey first c) (key element : LogString)
    (properties : Properties) :
    run ⟨type, key, element, properties⟩ (keyLetter first c) =
      some ⟨.key, key ++ [c], element, properties⟩ := by
  obtain ⟨noTab, signs⟩ := readable
  obtain ⟨noLine, noReturn, noBackspace⟩ := letter_clear letter
  rw [keyLetter]
  split
  · rename_i escaped
    have known : isDelimiter c = true ∨ c = '\\' := by
      simp only [isKeyEscaped, Bool.or_eq_true, Bool.and_eq_true, beq_iff_eq] at escaped
      simp only [isDelimiter, isWhite, Bool.or_eq_true, beq_iff_eq]
      rcases escaped with ((((space | tab) | colon) | equals) | slash) | ⟨begins, sign⟩
      · exact Or.inl (Or.inl (Or.inl (Or.inl space)))
      · exact absurd tab noTab
      · exact Or.inl (Or.inl (Or.inr colon))
      · exact Or.inl (Or.inr equals)
      · exact Or.inr slash
      · exact absurd sign (not_or.mpr (signs begins))
    rw [run, feed_inKey_escape within, Option.bind_some, run,
      feed_keyEscape key element properties known]
    rfl
  · rename_i plain
    simp only [isKeyEscaped, Bool.or_eq_true, beq_iff_eq, not_or] at plain
    obtain ⟨⟨⟨⟨⟨noSpace, _⟩, noColon⟩, noEquals⟩, noSlash⟩, _⟩ := plain
    have white : isWhite c = false := by simp [isWhite, noSpace, noBackspace]
    have lines : isLineEnd c = false := by simp [isLineEnd, noLine, noReturn]
    have delimits : isDelimiter c = false := by simp [isDelimiter, white, noColon, noEquals]
    rw [run, feed_inKey within ⟨white, lines⟩ signs,
      feed_key_letter key element properties ⟨noSlash, delimits, lines⟩]
    rfl

/-- A letter that is not read again stops the parser forever. -/
theorem run_keyLetter_hangs {first : Bool} {type : LexemType} (within : InKey first type) {c : Char}
    (unreadable : ¬ ReadableKey first c) (key element : LogString) (properties : Properties) :
    run ⟨type, key, element, properties⟩ (keyLetter first c) = none := by
  have stops : isKeyEscaped first c = true ∧
      isDelimiter c = false ∧ c ≠ '\\' ∧ isLineEnd c = false := by
    rw [ReadableKey, Classical.not_and_iff_not_or_not, not_not, Classical.not_imp,
      Classical.not_and_iff_not_or_not, not_not, not_not] at unreadable
    rcases unreadable with rfl | ⟨rfl, rfl | rfl⟩
    · simp [isKeyEscaped, isDelimiter, isWhite, isLineEnd, PropertyParser.tab]
    · decide
    · decide
  rw [keyLetter, if_pos stops.1, run, feed_inKey_escape within, Option.bind_some, run,
    feed_keyEscape_hangs key element properties stops.2]
  rfl

/-- Behind the backslash and the end of a line the key is continued. -/
def Continuing (type : LexemType) : Prop := type = .keyContinue ∨ type = .keyContinue2

theorem Continuing.inKey {type : LexemType} (continuing : Continuing type) (first : Bool) :
    InKey first type := by
  rcases continuing with rfl | rfl
  · exact Or.inr (Or.inl rfl)
  · exact Or.inr (Or.inr (Or.inl rfl))

theorem run_keyContinuation {first : Bool} {type : LexemType} (within : InKey first type)
    {self : Continuation} (spaces : .tab ∉ self.leading) (key element : LogString)
    (properties : Properties) :
    ∃ next, Continuing next ∧ run ⟨type, key, element, properties⟩ (continuation self) =
      some ⟨next, key, element, properties⟩ := by
  have goes : ∀ (list : List Blank) type, .tab ∉ list → Continuing type →
      ∃ next, Continuing next ∧ run ⟨type, key, element, properties⟩ (blanks list) =
        some ⟨next, key, element, properties⟩ := by
    intro list
    induction list with
    | nil => exact fun type _ continuing => ⟨type, continuing, rfl⟩
    | cons blank list ih =>
        intro type spaces continuing
        obtain ⟨first, others⟩ := not_or.mp (List.mem_cons.not.mp spaces)
        cases blank with
        | tab => exact absurd rfl first
        | space =>
            obtain ⟨next, known, ran⟩ := ih .keyContinue others (Or.inl rfl)
            refine ⟨next, known, ?_⟩
            rcases continuing with rfl | rfl <;> exact ran
  have broken : ∃ next, Continuing next ∧ run ⟨.keyEscape, key, element, properties⟩
      (lineEnd self.ending) = some ⟨next, key, element, properties⟩ := by
    cases self.ending with
    | lf => exact ⟨.keyContinue, Or.inl rfl, rfl⟩
    | cr => exact ⟨.keyContinue2, Or.inr rfl, rfl⟩
    | crlf => exact ⟨.keyContinue, Or.inl rfl, rfl⟩
  obtain ⟨middle, known, ended⟩ := broken
  obtain ⟨next, last, ran⟩ := goes self.leading middle spaces known
  refine ⟨next, last, ?_⟩
  rw [continuation, run, feed_inKey_escape within, Option.bind_some, run_append, ended]
  exact ran

theorem readableLetters_cons {first : Bool} {c : Char} {text : LogString} :
    ReadableLetters first (c :: text) ↔ ReadableKey first c ∧ ReadableLetters false text := by
  simp only [ReadableLetters, ReadableKey, List.mem_cons, not_or, List.head?_cons, Option.mem_def,
    Option.some.injEq, forall_eq', Bool.false_eq_true, false_implies, and_true]
  constructor
  · rintro ⟨⟨this, others⟩, signs⟩
    exact ⟨⟨Ne.symm this, signs⟩, others⟩
  · rintro ⟨⟨this, signs⟩, others⟩
    exact ⟨⟨Ne.symm this, others⟩, signs⟩

/-- No continuation is read without a letter behind it. -/
theorem run_keyText {first : Bool} {type : LexemType} (within : InKey first type)
    {pieces : List WrittenPiece} (legal : ∀ c ∈ lettersOf pieces, isLetter c = true)
    (spaces : .tab ∉ leadings pieces) (readable : ReadableLetters first (lettersOf pieces))
    (key element : LogString) (properties : Properties) :
    ∃ next, (pieces = [] ∨ (∃ self, pieces.getLast? = some (.continuation self)) ∨ next = .key) ∧
      run ⟨type, key, element, properties⟩ (keyText first pieces) =
        some ⟨next, key ++ lettersOf pieces, element, properties⟩ := by
  induction pieces generalizing first type key with
  | nil => exact ⟨type, Or.inl rfl, by rw [lettersOf, List.append_nil]; rfl⟩
  | cons piece pieces ih =>
      -- What is said of the last piece carries over from the pieces behind the first one.
      have carries : ∀ {next}, (pieces = [] → (∃ self, piece = .continuation self) ∨ next = .key) →
          (pieces = [] ∨ (∃ self, pieces.getLast? = some (.continuation self)) ∨ next = .key) →
            (∃ self, (piece :: pieces).getLast? = some (.continuation self)) ∨
              next = LexemType.key := by
        intro next alone later
        cases pieces with
        | nil => simpa using alone rfl
        | cons other pieces =>
            rw [List.getLast?_cons_cons]
            exact later.resolve_left (List.cons_ne_nil _ _)
      cases piece with
      | continuation self =>
          rw [leadings, List.mem_append, not_or] at spaces
          obtain ⟨middle, continuing, continued⟩ :=
            run_keyContinuation within spaces.1 key element properties
          obtain ⟨next, last, ran⟩ := ih (continuing.inKey first) legal spaces.2 readable key
          refine ⟨next, Or.inr (carries (fun _ => Or.inl ⟨self, rfl⟩) last), ?_⟩
          rw [keyText, run_append, continued]
          exact ran
      | letter c =>
          rw [lettersOf, readableLetters_cons] at readable
          have readOne := run_keyLetter within (legal c (List.mem_cons_self ..)) readable.1 key element
            properties
          obtain ⟨next, last, ran⟩ := ih (Or.inl rfl)
            (fun other member => legal other (List.mem_cons_of_mem _ member)) spaces readable.2
            (key ++ [c])
          refine ⟨next, Or.inr (carries ?_ last), ?_⟩
          · rintro rfl
            obtain ⟨rfl⟩ := PropertyParser.mk.inj (Option.some.inj ran)
            exact Or.inr rfl
          · rw [keyText, run_append, readOne, lettersOf, List.append_cons key c (lettersOf pieces)]
            exact ran

/-- A key that is not read again stops the parser forever. -/
theorem run_keyText_hangs {first : Bool} {type : LexemType} (within : InKey first type)
    {pieces : List WrittenPiece} (legal : ∀ c ∈ lettersOf pieces, isLetter c = true)
    (spaces : .tab ∉ leadings pieces) (unreadable : ¬ ReadableLetters first (lettersOf pieces))
    (key element : LogString) (properties : Properties) :
    run ⟨type, key, element, properties⟩ (keyText first pieces) = none := by
  induction pieces generalizing first type key with
  | nil => exact absurd ⟨List.not_mem_nil, fun _ _ never => absurd never (by simp [lettersOf])⟩ unreadable
  | cons piece pieces ih =>
      cases piece with
      | continuation self =>
          rw [leadings, List.mem_append, not_or] at spaces
          obtain ⟨middle, continuing, continued⟩ :=
            run_keyContinuation within spaces.1 key element properties
          rw [keyText, run_append, continued]
          exact ih (continuing.inKey first) legal spaces.2 unreadable key
      | letter c =>
          rw [keyText, run_append]
          by_cases readable : ReadableKey first c
          · rw [run_keyLetter within (legal c (List.mem_cons_self ..)) readable key element
              properties]
            rw [lettersOf, readableLetters_cons] at unreadable
            exact ih (Or.inl rfl)
              (fun other member => legal other (List.mem_cons_of_mem _ member)) spaces
              (fun others => unreadable ⟨readable, others⟩) (key ++ [c])
          · rw [run_keyLetter_hangs within readable]
            rfl

/-- Every key ends in the state of a key. -/
theorem run_key {entry : PropertyEntry} (spaces : .tab ∉ leadings entry.key.pieces)
    (readable : ReadableLetters true (lettersOf entry.key.pieces)) (element : LogString)
    (properties : Properties) :
    run ⟨.begin, [], element, properties⟩ (keyText true entry.key.pieces) =
      some ⟨.key, (pair entry).1, element, properties⟩ := by
  have within : InKey true .begin := Or.inr (Or.inr (Or.inr ⟨rfl, rfl⟩))
  obtain ⟨next, last, ran⟩ :=
    run_keyText within entry.key.legal spaces readable [] element properties
  have present : entry.key.pieces ≠ [] := by
    intro empty
    apply entry.named
    rw [empty, lettersOf]
  rcases last with empty | ⟨self, ends⟩ | rfl
  · exact absurd empty present
  · exact absurd ends (entry.key.inside self)
  · exact ran

/-- A delimiter has no tab in it. -/
theorem run_separator {self : Separator} (spaces : .tab ∉ self.before ∧ .tab ∉ self.after)
    (present : separator self ≠ []) (key element : LogString) (properties : Properties) :
    run ⟨.key, key, element, properties⟩ (separator self) =
      some ⟨.delimiter, key, element, properties⟩ := by
  have blank : ∀ list : List Blank, .tab ∉ list → ∀ c ∈ blanks list, isDelimiter c = true := by
    intro list clear c member
    obtain ⟨blank, inside, rfl⟩ := List.mem_map.mp member
    cases blank with
    | space => rfl
    | tab => exact absurd inside clear
  have all : ∀ c ∈ separator self, isDelimiter c = true := by
    intro c member
    rw [separator, List.mem_append, List.mem_append] at member
    rcases member with (before | marked) | after
    · exact blank _ spaces.1 c before
    · cases kind : self.mark with
      | none => simp [kind, mark] at marked
      | colon =>
          rw [kind, mark, List.mem_singleton] at marked
          rw [marked]
          rfl
      | equals =>
          rw [kind, mark, List.mem_singleton] at marked
          rw [marked]
          rfl
    · exact blank _ spaces.2 c after
  have goes : ∀ text : LogString, (∀ c ∈ text, isDelimiter c = true) →
      run ⟨.delimiter, key, element, properties⟩ text =
        some ⟨.delimiter, key, element, properties⟩ := by
    intro text delimits
    induction text with
    | nil => rfl
    | cons c text ih =>
        have fed : feed ⟨.delimiter, key, element, properties⟩ c =
            some ⟨.delimiter, key, element, properties⟩ := by
          apply feed_get
          simp [round, delimits c (List.mem_cons_self ..)]
        rw [run, fed]
        exact ih fun other member => delimits other (List.mem_cons_of_mem _ member)
  cases text : separator self with
  | nil => exact absurd text present
  | cons c rest =>
      rw [text] at all
      have first := all c (List.mem_cons_self ..)
      have noSlash : c ≠ '\\' := by
        rintro rfl
        exact absurd first (by decide)
      rw [run, feed_key_delimiter key element properties first noSlash]
      exact goes rest fun other member => all other (List.mem_cons_of_mem _ member)

end PropertyParser

end CodeCollect.Log4cxx
