import CodeCollect.Log4cxx.HTMLLayout

namespace CodeCollect.Log4cxx

open CodeCollect.Library.Html

/-- A letter of a row knows whether it comes from the event. -/
structure Letter where
  char : Char
  ofEvent : Bool
deriving DecidableEq

def literal (text : String) : List Letter := text.toList.map fun c => ⟨c, false⟩

def field (text : LogString) : List Letter := text.map fun c => ⟨c, true⟩

def Piece.letters : Piece → List Letter
  | literal text => Log4cxx.literal text
  | event text => field text

/-- Two events differ in the values of their attributes, but not in what the layout writes there. -/
def outlineTag (tag : Tag Letter) : Tag Letter :=
  { tag with attributes := tag.attributes.map fun pair =>
      (pair.1, pair.2.filter fun letter => !letter.ofEvent) }

def outlineToken : Token Letter → Token Letter
  | .tag tag => .tag (outlineTag tag)
  | .comment => .comment

def outlineFrom (state : State Letter) (letters : List Letter) : List (Token Letter) :=
  (tokensFrom Letter.char state letters).map outlineToken

theorem map_char_field (text : LogString) : (field text).map Letter.char = text := by
  rw [field, List.map_map]
  exact List.map_id text

theorem mem_field {text : LogString} {letter : Letter} (member : letter ∈ field text) :
    letter.ofEvent = true ∧ letter.char ∈ text := by
  obtain ⟨c, inside, rfl⟩ := List.mem_map.mp member
  exact ⟨rfl, inside⟩

theorem mem_literal {text : String} {letter : Letter} (member : letter ∈ literal text) :
    letter.ofEvent = false := by
  obtain ⟨c, _, rfl⟩ := List.mem_map.mp member
  rfl

def startTag (name : String) : Tag Letter := ⟨false, literal name, []⟩

def endTag (name : String) : Tag Letter := ⟨true, literal name, []⟩

section Slots

variable {text plain : LogString} {rest other : List Letter}

/-- A text without a less-than sign leaves no trace. -/
theorem outline_clear (clear : '<' ∉ text) (rest : List Letter) :
    outlineFrom .data (field text ++ rest) = outlineFrom .data rest := by
  rw [outlineFrom, tokensFrom_data, outlineFrom]
  intro letter member same
  exact clear (same ▸ (mem_field member).2)

/-- An escaped text leaves no trace. -/
theorem outline_escaped (text : LogString) (rest : List Letter) :
    outlineFrom .data (field (Transform.appendEscapingTags [] text) ++ rest) =
      outlineFrom .data rest := by
  apply outline_clear
  rw [Transform.appendEscapingTags_eq, List.nil_append]
  exact fun member => (Transform.escaped_clear member).1 rfl

/-- A text in front of a closing tag leaves no trace exactly when it is safe. -/
theorem outline_text_iff {closing name : String} {more : List (Token Letter)}
    (closes : ∀ rest, outlineFrom .data (literal closing ++ rest) = .tag (endTag name) ::
      (more ++ outlineFrom .data rest))
    {less : Letter} {letters : List Letter} (begins : literal closing = less :: letters)
    (isLess : less.char = '<') (safe : TextSafe plain) :
    outlineFrom .data (field text ++ (literal closing ++ rest)) =
        outlineFrom .data (field plain ++ (literal closing ++ other)) ↔
      TextSafe text ∧ outlineFrom .data rest = outlineFrom .data other := by
  have traceless : ∀ {text : LogString} {rest : List Letter}, TextSafe text →
      outlineFrom .data (field text ++ (literal closing ++ rest)) =
        .tag (endTag name) :: (more ++ outlineFrom .data rest) := by
    intro text rest safe
    rw [← closes, begins, List.cons_append, outlineFrom,
      tokensFrom_text Letter.char isLess _ ((map_char_field text).symm ▸ safe), outlineFrom]
  rw [traceless safe]
  by_cases safeText : TextSafe text
  · rw [traceless safeText, List.cons_inj_right, List.append_right_inj]
    exact (and_iff_right safeText).symm
  · refine iff_of_false (fun same => ?_) (fun both => safeText both.1)
    have opened := opensIn_text Letter.char isLess (letters ++ rest)
      ((map_char_field text).symm ▸ safeText)
    rw [begins, List.cons_append, outlineFrom] at same
    rcases opened with nothing | ⟨later, comment⟩ | ⟨found, later, letter, next, member, first⟩
    · rw [nothing] at same
      exact List.cons_ne_nil _ _ same.symm
    · rw [comment] at same
      exact absurd (List.cons.inj same).1 (by simp [outlineToken])
    · rw [next] at same
      have equal := Token.tag.inj (List.cons.inj same).1
      have named : found.name = literal name := congrArg Tag.name equal
      have ofLayout : [letter] <+: literal name := named ▸ first
      have unowned := mem_literal (ofLayout.subset (List.mem_singleton_self letter))
      rw [(mem_field member).1] at unowned
      exact Bool.noConfusion unowned

/-- A text in a quoted value leaves no trace exactly when it has no quote. -/
theorem outline_quoted_iff {ending : String} {tag : Tag Letter} {name kept : List Letter}
    (ends : ∀ value rest, tokensFrom Letter.char (.quotedValue '"' tag name value)
      (literal ending ++ rest) =
        .tag (tag.add name (value ++ kept)) :: tokensFrom Letter.char .data rest)
    (own : (kept.filter fun letter => !letter.ofEvent) ≠ []) (clear : '"' ∉ plain) :
    outlineFrom (.quotedValue '"' tag name []) (field text ++ (literal ending ++ rest)) =
        outlineFrom (.quotedValue '"' tag name []) (field plain ++ (literal ending ++ other)) ↔
      '"' ∉ text ∧ outlineFrom .data rest = outlineFrom .data other := by
  have ofEvent : ∀ {text : LogString} {inner : List Letter}, inner ⊆ field text →
      inner.filter (fun letter => !letter.ofEvent) = [] := by
    intro text inner subset
    rw [List.filter_eq_nil_iff]
    intro letter member
    simp [(mem_field (subset member)).1]
  have traceless : ∀ {text : LogString} {rest : List Letter}, '"' ∉ text →
      outlineFrom (.quotedValue '"' tag name []) (field text ++ (literal ending ++ rest)) =
        .tag (outlineTag (tag.add name kept)) :: outlineFrom .data rest := by
    intro text rest clear
    rw [outlineFrom, tokensFrom_quoted, List.nil_append, ends, List.map_cons, outlineToken,
      outlineFrom]
    · congr 2
      simp [outlineTag, Tag.add, ofEvent (List.Subset.refl (field text))]
    · intro letter member same
      exact clear (same ▸ (mem_field member).2)
  rw [traceless clear]
  by_cases clearText : '"' ∈ text
  · refine iff_of_false (fun same => ?_) (fun both => both.1 clearText)
    have closed : ∃ letter ∈ field text, letter.char = '"' :=
      ⟨⟨'"', true⟩, List.mem_map_of_mem clearText, rfl⟩
    rw [outlineFrom] at same
    rcases tokensFrom_quoted_closed Letter.char '"' tag name closed [] (literal ending ++ rest) with
      nothing | ⟨inner, new, later, next, subset, grown⟩
    · rw [nothing] at same
      exact List.cons_ne_nil _ _ same.symm
    · rw [next] at same
      have equal := congrArg Tag.attributes (Token.tag.inj (List.cons.inj same).1)
      obtain ⟨more, attributes⟩ := grown.attributes
      -- The value that the text has closed holds nothing but letters of the event.
      have value := congrArg (fun list => list[tag.attributes.length]?) equal
      simp only [outlineTag, ← attributes, Tag.add, List.nil_append, List.map_append,
        List.append_assoc, List.map_cons, List.map_nil, List.cons_append] at value
      have at' : ∀ first rest : List (List Letter × List Letter), ∀ pair,
          (first ++ pair :: rest)[first.length]? = some pair := by simp
      have length : tag.attributes.length = (tag.attributes.map fun pair =>
          (pair.1, pair.2.filter fun letter => !letter.ofEvent)).length := (List.length_map _).symm
      rw [length, at', at', ofEvent subset] at value
      exact own (Prod.mk.inj (Option.some.inj value)).2.symm
  · rw [traceless clearText, List.cons_inj_right]
    exact (and_iff_right clearText).symm

end Slots

/-- A literal of the layout has tokens of its own. -/
theorem outline_literal {text : String} {state next : State Letter} {tokens : List (Token Letter)}
    (goes : after Letter.char state (literal text) = next)
    (emits : (emitted Letter.char state (literal text)).map outlineToken = tokens)
    (rest : List Letter) :
    outlineFrom state (literal text ++ rest) = tokens ++ outlineFrom next rest := by
  rw [outlineFrom, tokensFrom_append, List.map_append, emits, goes, outlineFrom]

def letters (pieces : List Piece) : List Letter := pieces.flatMap Piece.letters

theorem letters_literal (text : String) (pieces : List Piece) (rest : List Letter) :
    letters (.literal text :: pieces) ++ rest = literal text ++ (letters pieces ++ rest) :=
  List.append_assoc _ _ _

theorem letters_event (text : LogString) (pieces : List Piece) (rest : List Letter) :
    letters (.event text :: pieces) ++ rest = field text ++ (letters pieces ++ rest) :=
  List.append_assoc _ _ _

theorem letters_nil (rest : List Letter) : letters [] ++ rest = rest := rfl

theorem letters_append (pieces more : List Piece) (rest : List Letter) :
    letters (pieces ++ more) ++ rest = letters pieces ++ (letters more ++ rest) := by
  rw [letters, List.flatMap_append, List.append_assoc]
  rfl

namespace HTMLLayout

variable {explode : Int → TimeExp} {event plain : RenderedEvent} {rest other : List Letter}

theorem outline_eol (rest : List Letter) :
    outlineFrom .data (literal EOL ++ rest) = outlineFrom .data rest :=
  outline_literal rfl rfl rest

theorem outline_cellEnd (rest : List Letter) :
    outlineFrom .data (literal "</td>" ++ rest) = .tag (endTag "td") :: outlineFrom .data rest :=
  outline_literal rfl rfl rest

theorem outline_cellStart (rest : List Letter) :
    outlineFrom .data (literal "<td>" ++ rest) = .tag (startTag "td") :: outlineFrom .data rest :=
  outline_literal rfl rfl rest

theorem outline_datePart (event : RenderedEvent) (rest : List Letter) :
    outlineFrom .data (letters (datePart explode event) ++ rest) =
      .tag (startTag "tr") :: .tag (startTag "td") :: .tag (endTag "td") ::
        outlineFrom .data rest := by
  have row : ∀ rest, outlineFrom .data (literal "<tr>" ++ rest) =
      .tag (startTag "tr") :: outlineFrom .data rest := outline_literal rfl rfl
  rw [datePart, eol, letters_literal, letters_literal, letters_literal, letters_literal,
    letters_event, letters_literal, letters_literal, letters_nil, outline_eol, row, outline_eol,
    outline_cellStart, outline_clear (SimpleDateFormat.formatISO8601_clear _), outline_cellEnd,
    outline_eol]

theorem outline_titleStart (rest : List Letter) :
    outlineFrom .data (literal "<td title=\"" ++ rest) =
      outlineFrom (.quotedValue '"' (startTag "td") (literal "title") []) rest :=
  outline_literal rfl rfl rest

/-- The layout writes a word and the end of the tag behind a quoted text. -/
theorem quoted_ends {word ending : String}
    (split : literal ending = literal word ++ [⟨'"', false⟩, ⟨'>', false⟩])
    (clear : ∀ letter ∈ literal word, letter.char ≠ '"') (tag : Tag Letter)
    (name value rest : List Letter) :
    tokensFrom Letter.char (.quotedValue '"' tag name value) (literal ending ++ rest) =
      .tag (tag.add name (value ++ literal word)) :: tokensFrom Letter.char .data rest := by
  rw [split, List.append_assoc, tokensFrom_quoted Letter.char '"' tag name clear]
  rfl

theorem outline_cell_iff {text plain : LogString} (safe : TextSafe plain) :
    outlineFrom .data (field text ++ (literal "</td>" ++ rest)) =
        outlineFrom .data (field plain ++ (literal "</td>" ++ other)) ↔
      TextSafe text ∧ outlineFrom .data rest = outlineFrom .data other := by
  have closes : ∀ rest, outlineFrom .data (literal "</td>" ++ rest) =
      .tag (endTag "td") :: ([] ++ outlineFrom .data rest) := outline_cellEnd
  exact outline_text_iff closes (show literal "</td>" = ⟨'<', false⟩ :: _ from rfl) rfl safe

/-- The thread name is both in a quoted value and in the text of the cell. -/
theorem outline_threadPart_iff (quote : '"' ∉ plain.threadName) (safe : TextSafe plain.threadName) :
    outlineFrom .data (letters (threadPart event) ++ rest) =
        outlineFrom .data (letters (threadPart plain) ++ other) ↔
      ('"' ∉ event.threadName ∧ TextSafe event.threadName) ∧
        outlineFrom .data rest = outlineFrom .data other := by
  have ends := quoted_ends (show literal " thread\">" = literal " thread" ++ _ from rfl)
    (by decide) (startTag "td") (literal "title")
  simp only [threadPart, eol, letters_literal, letters_event, letters_nil]
  rw [outline_titleStart, outline_titleStart, outline_quoted_iff ends (by decide) quote,
    outline_cell_iff safe, outline_eol, outline_eol, and_assoc]

/-- A level is in bold letters, in colour or in plain text, depending on its number. -/
theorem outline_levelPart_iff (safe : TextSafe plain.level.name)
    (debug : event.level.equals Level.getDebug = plain.level.equals Level.getDebug)
    (warn : event.level.isGreaterOrEqual Level.getWarn =
      plain.level.isGreaterOrEqual Level.getWarn) :
    outlineFrom .data (letters (levelPart event) ++ rest) =
        outlineFrom .data (letters (levelPart plain) ++ other) ↔
      TextSafe event.level.name ∧ outlineFrom .data rest = outlineFrom .data other := by
  have start : ∀ rest, outlineFrom .data (literal "<td title=\"Level\">" ++ rest) =
      .tag ((startTag "td").add (literal "title") (literal "Level")) :: outlineFrom .data rest :=
    outline_literal rfl rfl
  have fontEnd : ∀ rest, outlineFrom .data (literal "</font>" ++ rest) =
      .tag (endTag "font") :: ([] ++ outlineFrom .data rest) := outline_literal rfl rfl
  have strongEnd : ∀ rest, outlineFrom .data (literal "</strong></font>" ++ rest) =
      .tag (endTag "strong") :: ([.tag (endTag "font")] ++ outlineFrom .data rest) :=
    outline_literal rfl rfl
  have green : ∀ rest, outlineFrom .data (literal "<font color=\"#339933\">" ++ rest) =
      [.tag ((startTag "font").add (literal "color") (literal "#339933"))] ++
        outlineFrom .data rest := outline_literal rfl rfl
  have red : ∀ rest, outlineFrom .data (literal "<font color=\"#993300\"><strong>" ++ rest) =
      [.tag ((startTag "font").add (literal "color") (literal "#993300")),
        .tag (startTag "strong")] ++ outlineFrom .data rest := outline_literal rfl rfl
  rw [levelPart, levelPart, debug, warn]
  simp only [List.cons_append, eol, letters_literal, letters_nil, letters_append, start,
    List.cons_inj_right]
  split_ifs
  · simp only [letters_literal, letters_event, letters_nil, green, List.append_right_inj]
    rw [outline_text_iff fontEnd (show literal "</font>" = ⟨'<', false⟩ :: _ from rfl) rfl safe,
      outline_cellEnd, outline_cellEnd, List.cons_inj_right, outline_eol, outline_eol]
  · simp only [letters_literal, letters_event, letters_nil, red, List.append_right_inj]
    rw [outline_text_iff strongEnd (show literal "</strong></font>" = ⟨'<', false⟩ :: _ from rfl)
      rfl safe, outline_cellEnd, outline_cellEnd, List.cons_inj_right, outline_eol, outline_eol]
  · simp only [letters_event, letters_nil]
    rw [outline_cell_iff safe, outline_eol, outline_eol]

/-- The logger name is raw in the quoted value and escaped in the cell. -/
theorem outline_loggerPart_iff (quote : '"' ∉ plain.loggerName) :
    outlineFrom .data (letters (loggerPart event) ++ rest) =
        outlineFrom .data (letters (loggerPart plain) ++ other) ↔
      '"' ∉ event.loggerName ∧ outlineFrom .data rest = outlineFrom .data other := by
  have ends := quoted_ends (show literal " logger\">" = literal " logger" ++ _ from rfl)
    (by decide) (startTag "td") (literal "title")
  simp only [loggerPart, eol, letters_literal, letters_event, letters_nil]
  rw [outline_titleStart, outline_titleStart, outline_quoted_iff ends (by decide) quote,
    outline_escaped, outline_escaped, outline_cellEnd, outline_cellEnd, List.cons_inj_right,
    outline_eol, outline_eol]

/-- These are the tags of a location. -/
def locationTags (self : HTMLLayout) : List (Token Letter) :=
  if self.locationInfo then [.tag (startTag "td"), .tag (endTag "td")] else []

theorem outline_locationPart (self : HTMLLayout) (event : RenderedEvent) (rest : List Letter) :
    outlineFrom .data (letters (locationPart self event) ++ rest) =
      locationTags self ++ outlineFrom .data rest := by
  have colon : ∀ rest, outlineFrom .data (literal ":" ++ rest) = outlineFrom .data rest :=
    outline_literal rfl rfl
  have line : '<' ∉ StringHelper.toString event.locationInfo.lineNumber := by
    intro member
    rcases StringHelper.mem_toString _ _ member with minus | digit
    · exact absurd minus (by decide)
    · exact absurd digit (by decide)
  rw [locationPart, locationTags]
  split_ifs
  · simp only [List.cons_append, List.nil_append, eol, letters_literal, letters_event, letters_nil,
      outline_cellStart, outline_escaped, colon, outline_clear line, outline_cellEnd, outline_eol]
  · simp only [List.cons_append, List.nil_append, eol, letters_literal, letters_event, letters_nil,
      outline_cellStart, outline_escaped, colon, outline_cellEnd, outline_eol]
  · rfl

theorem outline_messagePart (event : RenderedEvent) (rest : List Letter) :
    outlineFrom .data (letters (messagePart event) ++ rest) =
      .tag ((startTag "td").add (literal "title") (literal "Message")) :: .tag (endTag "td") ::
        .tag (endTag "tr") :: outlineFrom .data rest := by
  have start : ∀ rest, outlineFrom .data (literal "<td title=\"Message\">" ++ rest) =
      .tag ((startTag "td").add (literal "title") (literal "Message")) :: outlineFrom .data rest :=
    outline_literal rfl rfl
  have rowEnd : ∀ rest, outlineFrom .data (literal "</tr>" ++ rest) =
      .tag (endTag "tr") :: outlineFrom .data rest := outline_literal rfl rfl
  simp only [messagePart, eol, letters_literal, letters_event, letters_nil, start, outline_escaped,
    outline_cellEnd, outline_eol, rowEnd]

/-- This is the tag of the cell of a nested context in front of its title. -/
def ndcCell : Tag Letter :=
  (((startTag "td").add (literal "bgcolor") (literal "#EEEEEE")).add (literal "style")
    (literal "font-size : xx-small;")).add (literal "colspan") (literal "6")

/-- These are the tags of a nested context. -/
def ndcTags : List (Token Letter) :=
  [.tag (startTag "tr"),
    .tag (ndcCell.add (literal "title") (literal "Nested Diagnostic Context")),
    .tag (endTag "td"), .tag (endTag "tr")]

/-- A context is escaped, so that only its presence matters. -/
theorem outline_ndcPart (event : RenderedEvent) :
    outlineFrom .data (letters (ndcPart event)) = if event.ndc.isSome then ndcTags else [] := by
  have coloured : ∀ rest, outlineFrom .data (literal "<tr><td bgcolor=\"#EEEEEE\" " ++ rest) =
      .tag (startTag "tr") :: outlineFrom (.beforeAttributeName
        ((startTag "td").add (literal "bgcolor") (literal "#EEEEEE"))) rest :=
    outline_literal rfl rfl
  have styled : ∀ rest, outlineFrom (.beforeAttributeName
      ((startTag "td").add (literal "bgcolor") (literal "#EEEEEE")))
        (literal "style=\"font-size : xx-small;\" colspan=\"6\" " ++ rest) =
      outlineFrom (.beforeAttributeName ndcCell) rest := outline_literal rfl rfl
  have titled : ∀ rest, outlineFrom (.beforeAttributeName ndcCell)
      (literal "title=\"Nested Diagnostic Context\">" ++ rest) =
      .tag (ndcCell.add (literal "title") (literal "Nested Diagnostic Context")) ::
        outlineFrom .data rest := outline_literal rfl rfl
  have label : ∀ rest, outlineFrom .data (literal "NDC: " ++ rest) = outlineFrom .data rest :=
    outline_literal rfl rfl
  have ending : ∀ rest, outlineFrom .data (literal "</td></tr>" ++ rest) =
      .tag (endTag "td") :: .tag (endTag "tr") :: outlineFrom .data rest := outline_literal rfl rfl
  rw [ndcPart, ← List.append_nil (letters _)]
  cases event.ndc with
  | none => rfl
  | some ndcVal =>
      simp only [eol, letters_literal, letters_event, letters_nil]
      rw [coloured, styled, titled, label, outline_escaped, ending, outline_eol]
      rfl

/-- This is the markup of the row of an event. -/
def markup (self : HTMLLayout) (explode : Int → TimeExp) (event : RenderedEvent) :
    List (Token Letter) :=
  outlineFrom .data (letters (pieces self explode event))

/-- All texts of such an event are made of ASCII letters and digits. -/
structure Plain (event : RenderedEvent) : Prop where
  threadName : ∀ c ∈ event.threadName, c.isAlphanum
  loggerName : ∀ c ∈ event.loggerName, c.isAlphanum
  level : ∀ c ∈ event.level.name, c.isAlphanum
  message : ∀ c ∈ event.message, c.isAlphanum
  fileName : ∀ c ∈ event.locationInfo.fileName, c.isAlphanum
  ndc : ∀ ndc ∈ event.ndc, ∀ c ∈ ndc, c.isAlphanum

/-- Both rows have a nested context or none, and their levels are shown in the same way. -/
structure SameParts (event other : RenderedEvent) : Prop where
  ndc : event.ndc.isSome = other.ndc.isSome
  debug : event.level.equals Level.getDebug = other.level.equals Level.getDebug
  warn : event.level.isGreaterOrEqual Level.getWarn = other.level.isGreaterOrEqual Level.getWarn

/-- The row has the markup of the row of each plain event with the same parts. -/
def InjectionFree (self : HTMLLayout) (explode : Int → TimeExp) (event : RenderedEvent) : Prop :=
  ∀ plain, Plain plain → SameParts event plain →
    markup self explode event = markup self explode plain

theorem not_mem_of_alphanum {text : LogString} {c : Char} (plain : ∀ c ∈ text, c.isAlphanum)
    (special : c.isAlphanum = false) : c ∉ text := by
  intro member
  rw [plain c member] at special
  exact Bool.noConfusion special

/-- The thread name, the logger name and the level are not escaped everywhere. -/
theorem markup_iff {self : HTMLLayout} {explode : Int → TimeExp} {event plain : RenderedEvent}
    (ofPlain : Plain plain) (same : SameParts event plain) :
    markup self explode event = markup self explode plain ↔
      ('"' ∉ event.threadName ∧ TextSafe event.threadName) ∧ TextSafe event.level.name ∧
        '"' ∉ event.loggerName := by
  have thread := not_mem_of_alphanum ofPlain.threadName (show Char.isAlphanum '"' = false by rfl)
  have threadSafe := textSafe_of_not_mem (not_mem_of_alphanum ofPlain.threadName (by rfl))
  have levelSafe := textSafe_of_not_mem (not_mem_of_alphanum ofPlain.level (by rfl))
  have logger := not_mem_of_alphanum ofPlain.loggerName (show Char.isAlphanum '"' = false by rfl)
  have parts : ∀ event, letters (pieces self explode event) =
      letters (datePart explode event) ++ (letters (threadPart event) ++
        (letters (levelPart event) ++ (letters (loggerPart event) ++
          (letters (locationPart self event) ++ (letters (messagePart event) ++
            letters (ndcPart event)))))) := by
    intro event
    simp only [pieces, letters, List.flatMap_append, List.append_assoc]
  rw [markup, markup, parts, parts, outline_datePart, outline_datePart, List.cons_inj_right,
    List.cons_inj_right, List.cons_inj_right, outline_threadPart_iff thread threadSafe,
    outline_levelPart_iff levelSafe same.debug same.warn, outline_loggerPart_iff logger,
    outline_locationPart, outline_locationPart, outline_messagePart, outline_messagePart,
    outline_ndcPart, outline_ndcPart, same.ndc]
  simp only [and_true]

/-- This is the same event with one letter for each of its texts. -/
def plainOf (event : RenderedEvent) : RenderedEvent :=
  { event with
    threadName := ['x']
    loggerName := ['x']
    level := { event.level with name := ['x'] }
    message := ['x']
    ndc := event.ndc.map fun _ => ['x']
    locationInfo := { event.locationInfo with fileName := ['x'] } }

theorem plain_plainOf (event : RenderedEvent) : Plain (plainOf event) := by
  have letter : ∀ c ∈ ['x'], c.isAlphanum := by
    intro c member
    rw [List.mem_singleton.mp member]
    rfl
  refine ⟨letter, letter, letter, letter, letter, ?_⟩
  intro ndc member
  obtain ⟨_, _, rfl⟩ := Option.map_eq_some_iff.mp member
  exact letter

theorem sameParts_plainOf (event : RenderedEvent) : SameParts event (plainOf event) :=
  ⟨Option.isSome_map.symm, rfl, rfl⟩

/-- A row is free of injections exactly when its raw texts are harmless where they stand. -/
theorem injectionFree_iff (self : HTMLLayout) (explode : Int → TimeExp) (event : RenderedEvent) :
    InjectionFree self explode event ↔
      ('"' ∉ event.threadName ∧ TextSafe event.threadName) ∧ TextSafe event.level.name ∧
        '"' ∉ event.loggerName := by
  constructor
  · intro free
    exact (markup_iff (plain_plainOf event) (sameParts_plainOf event)).mp
      (free _ (plain_plainOf event) (sameParts_plainOf event))
  · intro harmless plain ofPlain same
    exact (markup_iff ofPlain same).mpr harmless

/-- A logger name with a quote gives its cell an attribute. -/
theorem loggerName_injects :
    ¬ InjectionFree ⟨false⟩ (fun _ => ⟨0, 0, 0, 0, 1, 0, 70⟩)
      { loggerName := "x\" onmouseover=\"alert(1)".toList, level := Level.getDebug, message := [],
        timeStamp := 0, threadName := [], ndc := none, mdcKeySet := [], mdc := fun _ => none,
        propertyKeySet := [], property := fun _ => none, locationInfo := ⟨[], [], [], 0⟩ } := by
  intro free
  have harmless := (markup_iff (plain_plainOf _) (sameParts_plainOf _)).mp
    (free _ (plain_plainOf _) (sameParts_plainOf _))
  exact absurd harmless.2.2 (by decide)

/-- A token shows what kind of tag it is and the names of its attributes. -/
def tagNames {α : Type} : Token α → Option (Bool × List α × List (List α))
  | .tag tag => some (tag.closing, tag.name, tag.attributes.map Prod.fst)
  | .comment => none

theorem map_char_letters (pieces : List Piece) :
    (letters pieces).map Letter.char = pieces.flatMap Piece.text := by
  have piece : ∀ piece : Piece, piece.letters.map Letter.char = piece.text := by
    intro piece
    cases piece with
    | literal text =>
        rw [Piece.letters, literal, List.map_map]
        exact List.map_id _
    | event text => exact map_char_field text
  induction pieces with
  | nil => rfl
  | cons first pieces ih =>
      rw [List.flatMap_cons, ← piece, ← ih, ← List.map_append]
      rfl

theorem tagNames_map (token : Token Letter) : tagNames (token.map Letter.char) =
    (tagNames (outlineToken token)).map fun names =>
      (names.1, names.2.1.map Letter.char, names.2.2.map (List.map Letter.char)) := by
  cases token with
  | tag tag => simp [tagNames, Token.map, Tag.map, outlineToken, outlineTag]
  | comment => rfl

/-- Rows with the same markup have the same tags with the same attributes as plain text. -/
theorem tagNames_of_markup {self : HTMLLayout} {explode : Int → TimeExp}
    {event plain : RenderedEvent} (same : markup self explode event = markup self explode plain) :
    (tokens id (format self explode event [])).map tagNames =
      (tokens id (format self explode plain [])).map tagNames := by
  have names : ∀ event, (tokens id (format self explode event [])).map tagNames =
      (markup self explode event).map fun token => (tagNames token).map fun names =>
        (names.1, names.2.1.map Letter.char, names.2.2.map (List.map Letter.char)) := by
    intro event
    have mapped := tokensFrom_map Letter.char id .data (letters (pieces self explode event))
    rw [map_char_letters] at mapped
    rw [format, List.nil_append, tokens]
    refine (congrArg _ mapped).trans ?_
    rw [markup, outlineFrom, List.map_map, List.map_map]
    exact List.map_congr_left fun token _ => tagNames_map token
  rw [names, names, same]

end HTMLLayout

end CodeCollect.Log4cxx
