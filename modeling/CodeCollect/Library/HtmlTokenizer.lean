import Mathlib

namespace CodeCollect.Library

namespace Html

/-- A tag has the letters of its name and of its attributes in the order of the text. -/
structure Tag (α : Type*) where
  closing : Bool
  name : List α
  attributes : List (List α × List α)
deriving DecidableEq

/-- Declarations and the like are comments too, and text is no token here. -/
inductive Token (α : Type*) where
  | tag (tag : Tag α)
  | comment
deriving DecidableEq

/-- The tokenizer of the standard has these states outside of scripts. -/
inductive State (α : Type*) where
  | data
  | tagOpen
  | endTagOpen
  | tagName (tag : Tag α)
  | beforeAttributeName (tag : Tag α)
  | attributeName (tag : Tag α) (name : List α)
  | afterAttributeName (tag : Tag α) (name : List α)
  | beforeAttributeValue (tag : Tag α) (name : List α)
  | quotedValue (quote : Char) (tag : Tag α) (name value : List α)
  | unquotedValue (tag : Tag α) (name value : List α)
  | afterQuotedValue (tag : Tag α)
  | selfClosingStartTag (tag : Tag α)
  | markupDeclarationOpen
  | markupDeclarationDash
  | bogusComment
  | commentStart
  | commentStartDash
  | comment
  | commentEndDash
  | commentEnd
  | commentEndBang

def isSpace (c : Char) : Bool :=
  c == '\t' || c == '\n' || c == '\x0c' || c == '\r' || c == ' '

/-- An attribute may appear twice in a tag, and then both are kept. -/
def Tag.add {α : Type*} (self : Tag α) (name value : List α) : Tag α :=
  { self with attributes := self.attributes ++ [(name, value)] }

section Step

variable {α : Type*} (char : α → Char)

def stepData (letter : α) : State α × Option (Token α) :=
  if char letter = '<' then (.tagOpen, none) else (.data, none)

def stepTagOpen (letter : α) : State α × Option (Token α) :=
  if (char letter).isAlpha then (.tagName ⟨false, [letter], []⟩, none)
  else if char letter = '/' then (.endTagOpen, none)
  else if char letter = '!' then (.markupDeclarationOpen, none)
  else if char letter = '?' then (.bogusComment, none)
  else stepData char letter

def stepBogusComment (letter : α) : State α × Option (Token α) :=
  if char letter = '>' then (.data, some .comment) else (.bogusComment, none)

def stepEndTagOpen (letter : α) : State α × Option (Token α) :=
  if (char letter).isAlpha then (.tagName ⟨true, [letter], []⟩, none)
  else if char letter = '>' then (.data, none)
  else (.bogusComment, none)

def stepBeforeAttributeName (tag : Tag α) (letter : α) : State α × Option (Token α) :=
  if isSpace (char letter) then (.beforeAttributeName tag, none)
  else if char letter = '/' then (.selfClosingStartTag tag, none)
  else if char letter = '>' then (.data, some (.tag tag))
  else (.attributeName tag [letter], none)

def stepComment (letter : α) : State α × Option (Token α) :=
  if char letter = '-' then (.commentEndDash, none) else (.comment, none)

/-- The tokenizer reads one letter and emits at most one token. -/
def step (state : State α) (letter : α) : State α × Option (Token α) :=
  match state with
  | .data => stepData char letter
  | .tagOpen => stepTagOpen char letter
  | .endTagOpen => stepEndTagOpen char letter
  | .tagName tag =>
      if isSpace (char letter) then (.beforeAttributeName tag, none)
      else if char letter = '/' then (.selfClosingStartTag tag, none)
      else if char letter = '>' then (.data, some (.tag tag))
      else (.tagName { tag with name := tag.name ++ [letter] }, none)
  | .beforeAttributeName tag => stepBeforeAttributeName char tag letter
  | .attributeName tag name =>
      if isSpace (char letter) then (.afterAttributeName tag name, none)
      else if char letter = '/' then (.selfClosingStartTag (tag.add name []), none)
      else if char letter = '>' then (.data, some (.tag (tag.add name [])))
      else if char letter = '=' then (.beforeAttributeValue tag name, none)
      else (.attributeName tag (name ++ [letter]), none)
  | .afterAttributeName tag name =>
      if isSpace (char letter) then (.afterAttributeName tag name, none)
      else if char letter = '=' then (.beforeAttributeValue tag name, none)
      else stepBeforeAttributeName char (tag.add name []) letter
  | .beforeAttributeValue tag name =>
      if isSpace (char letter) then (.beforeAttributeValue tag name, none)
      else if char letter = '"' ∨ char letter = '\'' then
        (.quotedValue (char letter) tag name [], none)
      else if char letter = '>' then (.data, some (.tag (tag.add name [])))
      else (.unquotedValue tag name [letter], none)
  | .quotedValue quote tag name value =>
      if char letter = quote then (.afterQuotedValue (tag.add name value), none)
      else (.quotedValue quote tag name (value ++ [letter]), none)
  | .unquotedValue tag name value =>
      if isSpace (char letter) then (.beforeAttributeName (tag.add name value), none)
      else if char letter = '>' then (.data, some (.tag (tag.add name value)))
      else (.unquotedValue tag name (value ++ [letter]), none)
  | .afterQuotedValue tag => stepBeforeAttributeName char tag letter
  | .selfClosingStartTag tag =>
      if char letter = '>' then (.data, some (.tag tag))
      else stepBeforeAttributeName char tag letter
  | .markupDeclarationOpen =>
      if char letter = '-' then (.markupDeclarationDash, none) else stepBogusComment char letter
  | .markupDeclarationDash =>
      if char letter = '-' then (.commentStart, none) else stepBogusComment char letter
  | .bogusComment => stepBogusComment char letter
  | .commentStart =>
      if char letter = '-' then (.commentStartDash, none)
      else if char letter = '>' then (.data, some .comment)
      else (.comment, none)
  | .commentStartDash =>
      if char letter = '-' then (.commentEnd, none)
      else if char letter = '>' then (.data, some .comment)
      else (.comment, none)
  | .comment => stepComment char letter
  | .commentEndDash => if char letter = '-' then (.commentEnd, none) else (.comment, none)
  | .commentEnd =>
      if char letter = '>' then (.data, some .comment)
      else if char letter = '!' then (.commentEndBang, none)
      else if char letter = '-' then (.commentEnd, none)
      else (.comment, none)
  | .commentEndBang =>
      if char letter = '-' then (.commentEndDash, none)
      else if char letter = '>' then (.data, some .comment)
      else (.comment, none)

/-- A comment ends at the end of the text, and a tag that is not complete is dropped. -/
def finish : State α → List (Token α)
  | .markupDeclarationOpen | .markupDeclarationDash | .bogusComment | .commentStart
  | .commentStartDash | .comment | .commentEndDash | .commentEnd | .commentEndBang => [.comment]
  | _ => []

def tokensFrom : State α → List α → List (Token α)
  | state, [] => finish state
  | state, letter :: text =>
      (step char state letter).2.toList ++ tokensFrom (step char state letter).1 text

def tokens (text : List α) : List (Token α) := tokensFrom char .data text

theorem tokensFrom_cons (state : State α) (letter : α) (text : List α) :
    tokensFrom char state (letter :: text) =
      (step char state letter).2.toList ++ tokensFrom char (step char state letter).1 text := rfl

/-- This is the state behind a text. -/
def after (state : State α) (text : List α) : State α :=
  text.foldl (fun state letter => (step char state letter).1) state

/-- These tokens are complete at the end of a text. -/
def emitted : State α → List α → List (Token α)
  | _, [] => []
  | state, letter :: text =>
      (step char state letter).2.toList ++ emitted (step char state letter).1 text

theorem tokensFrom_append (state : State α) (text rest : List α) :
    tokensFrom char state (text ++ rest) =
      emitted char state text ++ tokensFrom char (after char state text) rest := by
  induction text generalizing state with
  | nil => rfl
  | cons letter text ih =>
      rw [List.cons_append, tokensFrom_cons, ih, emitted, List.append_assoc]
      rfl

/-- A tag keeps what the text has given to it. -/
structure Tag.Extends (old new : Tag α) : Prop where
  closing : new.closing = old.closing
  name : old.name <+: new.name
  attributes : old.attributes <+: new.attributes

theorem Tag.Extends.refl (tag : Tag α) : tag.Extends tag := ⟨rfl, List.prefix_rfl, List.prefix_rfl⟩

theorem Tag.Extends.trans {first second third : Tag α} (earlier : first.Extends second)
    (later : second.Extends third) : first.Extends third :=
  ⟨later.closing.trans earlier.closing, earlier.name.trans later.name,
    earlier.attributes.trans later.attributes⟩

theorem Tag.extends_add (tag : Tag α) (name value : List α) : tag.Extends (tag.add name value) :=
  ⟨rfl, List.prefix_rfl, List.prefix_append _ _⟩

/-- This is the tag that the tokenizer has begun. -/
def State.tag? : State α → Option (Tag α)
  | .tagName tag | .beforeAttributeName tag | .attributeName tag _ | .afterAttributeName tag _
  | .beforeAttributeValue tag _ | .quotedValue _ tag _ _ | .unquotedValue tag _ _
  | .afterQuotedValue tag | .selfClosingStartTag tag => some tag
  | _ => none

/-- The tag goes on, or it is the next token. -/
def GoesOn (tag : Tag α) (next : State α × Option (Token α)) : Prop :=
  (∃ new, next.1.tag? = some new ∧ next.2 = none ∧ tag.Extends new) ∨
    ∃ new, next.2 = some (.tag new) ∧ tag.Extends new

theorem stepBeforeAttributeName_goesOn {tag new : Tag α} (grown : tag.Extends new) (letter : α) :
    GoesOn tag (stepBeforeAttributeName char new letter) := by
  unfold stepBeforeAttributeName
  split_ifs
  · exact .inl ⟨new, rfl, rfl, grown⟩
  · exact .inl ⟨new, rfl, rfl, grown⟩
  · exact .inr ⟨new, rfl, grown⟩
  · exact .inl ⟨new, rfl, rfl, grown⟩

theorem step_goesOn {state : State α} {tag : Tag α} (begun : state.tag? = some tag) (letter : α) :
    GoesOn tag (step char state letter) := by
  have same := Tag.Extends.refl tag
  cases state with
  | tagName old =>
      obtain rfl := Option.some.inj begun
      rw [step]
      split_ifs
      · exact .inl ⟨old, rfl, rfl, same⟩
      · exact .inl ⟨old, rfl, rfl, same⟩
      · exact .inr ⟨old, rfl, same⟩
      · exact .inl ⟨_, rfl, rfl, rfl, List.prefix_append _ _, List.prefix_rfl⟩
  | beforeAttributeName old =>
      obtain rfl := Option.some.inj begun
      exact stepBeforeAttributeName_goesOn char same letter
  | attributeName old name =>
      obtain rfl := Option.some.inj begun
      have added := old.extends_add name []
      rw [step]
      split_ifs
      · exact .inl ⟨old, rfl, rfl, same⟩
      · exact .inl ⟨_, rfl, rfl, added⟩
      · exact .inr ⟨_, rfl, added⟩
      · exact .inl ⟨old, rfl, rfl, same⟩
      · exact .inl ⟨old, rfl, rfl, same⟩
  | afterAttributeName old name =>
      obtain rfl := Option.some.inj begun
      rw [step]
      split_ifs
      · exact .inl ⟨old, rfl, rfl, same⟩
      · exact .inl ⟨old, rfl, rfl, same⟩
      · exact stepBeforeAttributeName_goesOn char (old.extends_add name []) letter
  | beforeAttributeValue old name =>
      obtain rfl := Option.some.inj begun
      rw [step]
      split_ifs
      · exact .inl ⟨old, rfl, rfl, same⟩
      · exact .inl ⟨old, rfl, rfl, same⟩
      · exact .inr ⟨_, rfl, old.extends_add name []⟩
      · exact .inl ⟨old, rfl, rfl, same⟩
  | quotedValue quote old name value =>
      obtain rfl := Option.some.inj begun
      rw [step]
      split_ifs
      · exact .inl ⟨_, rfl, rfl, old.extends_add name value⟩
      · exact .inl ⟨old, rfl, rfl, same⟩
  | unquotedValue old name value =>
      obtain rfl := Option.some.inj begun
      have added := old.extends_add name value
      rw [step]
      split_ifs
      · exact .inl ⟨_, rfl, rfl, added⟩
      · exact .inr ⟨_, rfl, added⟩
      · exact .inl ⟨old, rfl, rfl, same⟩
  | afterQuotedValue old =>
      obtain rfl := Option.some.inj begun
      exact stepBeforeAttributeName_goesOn char same letter
  | selfClosingStartTag old =>
      obtain rfl := Option.some.inj begun
      rw [step]
      split_ifs
      · exact .inr ⟨old, rfl, same⟩
      · exact stepBeforeAttributeName_goesOn char same letter
  | _ => exact absurd begun (by simp [State.tag?])

/-- The next token of a tag that has begun is the whole tag, if there is a next token. -/
theorem tokensFrom_of_tag {state : State α} {tag : Tag α} (begun : state.tag? = some tag)
    (text : List α) :
    tokensFrom char state text = [] ∨
      ∃ new rest, tokensFrom char state text = .tag new :: rest ∧ tag.Extends new := by
  induction text generalizing state tag with
  | nil =>
      left
      cases state <;> first | rfl | exact absurd begun (by simp [State.tag?])
  | cons letter text ih =>
      rw [tokensFrom_cons]
      rcases step_goesOn char begun letter with ⟨new, goes, none', grown⟩ | ⟨new, emitted, grown⟩
      · rw [none']
        rcases ih goes with nothing | ⟨last, rest, found, more⟩
        · exact .inl nothing
        · exact .inr ⟨last, rest, found, grown.trans more⟩
      · rw [emitted]
        exact .inr ⟨new, _, rfl, grown⟩

/-- A comment that has begun is the next token. -/
theorem tokensFrom_of_comment {state : State α} (begun : finish state = [.comment])
    (text : List α) : ∃ rest, tokensFrom char state text = .comment :: rest := by
  induction text generalizing state with
  | nil => exact ⟨[], begun⟩
  | cons letter text ih =>
      have goes : (finish (step char state letter).1 = [.comment] ∧
          (step char state letter).2 = none) ∨ (step char state letter).2 = some .comment := by
        cases state with
        | markupDeclarationOpen | markupDeclarationDash | bogusComment | commentStart
        | commentStartDash | comment | commentEndDash | commentEnd | commentEndBang =>
            simp only [step, stepBogusComment, stepComment]
            split_ifs <;> simp [finish]
        | _ => exact absurd begun (List.cons_ne_nil _ _).symm
      rw [tokensFrom_cons]
      rcases goes with ⟨goes, none'⟩ | emitted
      · rw [none']
        exact ih goes
      · rw [emitted]
        exact ⟨_, rfl⟩

/-- Text without a less-than sign has no tokens. -/
theorem tokensFrom_data {text : List α} (clear : ∀ letter ∈ text, char letter ≠ '<')
    (rest : List α) :
    tokensFrom char .data (text ++ rest) = tokensFrom char .data rest := by
  induction text with
  | nil => rfl
  | cons letter text ih =>
      have first : step char .data letter = (.data, none) :=
        if_neg (clear letter (List.mem_cons_self ..))
      rw [List.cons_append, tokensFrom_cons, first]
      exact ih fun other member => clear other (List.mem_cons_of_mem _ member)

/-- What follows a less-than sign begins a tag or a comment. -/
def opens : List Char → Bool
  | [] => false
  | c :: text =>
      if c = '/' then text.head? != some '>' else c.isAlpha || c == '!' || c == '?'

/-- No less-than sign of the text begins a tag or a comment. -/
def TextSafe : List Char → Prop
  | [] => True
  | c :: text => (c = '<' → opens text = false) ∧ TextSafe text

instance instDecidableTextSafe : (text : List Char) → Decidable (TextSafe text)
  | [] => inferInstanceAs (Decidable True)
  | c :: text =>
      have := instDecidableTextSafe text
      inferInstanceAs (Decidable ((c = '<' → opens text = false) ∧ TextSafe text))

theorem textSafe_of_not_mem {text : List Char} (clear : '<' ∉ text) : TextSafe text := by
  induction text with
  | nil => trivial
  | cons c text ih =>
      obtain ⟨first, others⟩ := not_or.mp (List.mem_cons.not.mp clear)
      exact ⟨fun same => absurd same.symm first, ih others⟩

/-- The next token comes from the text: a comment, or a tag whose first letter is in the text. -/
def OpensIn (text : List α) (result : List (Token α)) : Prop :=
  result = [] ∨ (∃ rest, result = .comment :: rest) ∨
    ∃ tag rest letter, result = .tag tag :: rest ∧ letter ∈ text ∧ [letter] <+: tag.name

theorem OpensIn.mono {text more : List α} {result : List (Token α)} (opens : OpensIn text result)
    (subset : text ⊆ more) : OpensIn more result := by
  rcases opens with nothing | comment | ⟨tag, rest, letter, found, member, first⟩
  · exact .inl nothing
  · exact .inr (.inl comment)
  · exact .inr (.inr ⟨tag, rest, letter, found, subset member, first⟩)

theorem opensIn_of_tag {text : List α} {letter : α} (member : letter ∈ text) (closing : Bool)
    (later : List α) :
    OpensIn text (tokensFrom char (.tagName ⟨closing, [letter], []⟩) later) := by
  have begun : (State.tagName ⟨closing, [letter], []⟩).tag? = some ⟨closing, [letter], []⟩ := rfl
  rcases tokensFrom_of_tag char begun later with nothing | ⟨tag, tail, found, grown⟩
  · exact .inl nothing
  · exact .inr (.inr ⟨tag, tail, letter, found, member, grown.name⟩)

section Slot

variable {lt : α} (less : char lt = '<') (rest : List α)

include less

theorem step_less : step char .data lt = (.tagOpen, none) ∧ step char .tagOpen lt = (.tagOpen, none) ∧
    step char .endTagOpen lt = (.bogusComment, none) := by
  simp only [step, stepData, stepTagOpen, stepEndTagOpen, less]
  exact ⟨rfl, rfl, rfl⟩

/-- A less-than sign that begins nothing is text. -/
theorem tokensFrom_tagOpen {text : List α} (closed : opens (text.map char) = false) :
    tokensFrom char .tagOpen (text ++ lt :: rest) = tokensFrom char .data (text ++ lt :: rest) := by
  obtain ⟨data, tagOpen, _⟩ := step_less char less
  cases text with
  | nil => rw [List.nil_append, tokensFrom_cons, tokensFrom_cons, data, tagOpen]
  | cons letter text =>
      rw [List.map_cons, opens] at closed
      rw [List.cons_append, tokensFrom_cons, tokensFrom_cons]
      split at closed
      · -- Only a closing angle bracket makes nothing of a slash.
        rename_i slash
        cases text with
        | nil => exact absurd closed (by simp)
        | cons second text =>
            have close : char second = '>' := by simpa using closed
            simp [step, stepTagOpen, stepData, stepEndTagOpen, tokensFrom_cons, slash, close]
      · rename_i slash
        obtain ⟨⟨letters, bang⟩, question⟩ : (¬ (char letter).isAlpha = true ∧
            ¬ char letter = '!') ∧ ¬ char letter = '?' := by simpa using closed
        simp [step, stepTagOpen, letters, slash, bang, question]

theorem opensIn_tagOpen {text : List α} (opened : opens (text.map char) = true) :
    OpensIn text (tokensFrom char .tagOpen (text ++ lt :: rest)) := by
  have ofComment : ∀ {state : State α} {later : List α}, finish state = [.comment] →
      OpensIn text (tokensFrom char state later) :=
    fun begun => .inr (.inl (tokensFrom_of_comment char begun _))
  cases text with
  | nil => exact absurd opened Bool.false_ne_true
  | cons letter text =>
      rw [List.map_cons, opens] at opened
      rw [List.cons_append, tokensFrom_cons]
      by_cases alpha : (char letter).isAlpha = true
      · rw [step, stepTagOpen, if_pos alpha]
        exact opensIn_of_tag char (List.mem_cons_self ..) false _
      rw [step, stepTagOpen, if_neg alpha]
      split at opened
      · rename_i slash
        rw [if_pos slash]
        show OpensIn _ (tokensFrom char .endTagOpen (text ++ lt :: rest))
        cases text with
        | nil =>
            rw [List.nil_append, tokensFrom_cons, (step_less char less).2.2]
            exact ofComment rfl
        | cons second text =>
            have close : ¬ char second = '>' := by simpa using opened
            rw [List.cons_append, tokensFrom_cons, step, stepEndTagOpen]
            by_cases alpha : (char second).isAlpha = true
            · rw [if_pos alpha]
              exact opensIn_of_tag char (by simp) true _
            · rw [if_neg alpha, if_neg close]
              exact ofComment rfl
      · rename_i slash
        rw [if_neg slash]
        by_cases bang : char letter = '!'
        · rw [if_pos bang]
          exact ofComment rfl
        · have question : char letter = '?' := by simpa [alpha, bang] using opened
          rw [if_neg bang, if_pos question]
          exact ofComment rfl

/-- Safe text in front of a tag is only text. -/
theorem tokensFrom_text {text : List α} (safe : TextSafe (text.map char)) :
    tokensFrom char .data (text ++ lt :: rest) = tokensFrom char .data (lt :: rest) := by
  induction text with
  | nil => rfl
  | cons letter text ih =>
      obtain ⟨first, others⟩ := safe
      rw [List.cons_append, tokensFrom_cons, ← ih others]
      by_cases same : char letter = '<'
      · rw [(step_less char same).1]
        exact tokensFrom_tagOpen char less rest (first same)
      · rw [step, stepData, if_neg same]
        rfl

/-- Other text begins a tag or a comment of its own. -/
theorem opensIn_text {text : List α} (opened : ¬ TextSafe (text.map char)) :
    OpensIn text (tokensFrom char .data (text ++ lt :: rest)) := by
  induction text with
  | nil => exact absurd trivial opened
  | cons letter text ih =>
      have subset := List.subset_cons_self letter text
      rw [List.cons_append, tokensFrom_cons, step, stepData]
      by_cases same : char letter = '<'
      · rw [if_pos same]
        show OpensIn _ (tokensFrom char .tagOpen (text ++ lt :: rest))
        cases begins : opens (text.map char) with
        | true => exact (opensIn_tagOpen char less rest begins).mono subset
        | false =>
            rw [tokensFrom_tagOpen char less rest begins]
            exact (ih fun safe => opened ⟨fun _ => begins, safe⟩).mono subset
      · rw [if_neg same]
        exact (ih fun safe => opened ⟨fun other => absurd other same, safe⟩).mono subset

end Slot

section Quoted

variable (quote : Char) (tag : Tag α) (name : List α)

/-- A quoted value goes on up to its quote. -/
theorem tokensFrom_quoted {text : List α} (clear : ∀ letter ∈ text, char letter ≠ quote)
    (value rest : List α) :
    tokensFrom char (.quotedValue quote tag name value) (text ++ rest) =
      tokensFrom char (.quotedValue quote tag name (value ++ text)) rest := by
  induction text generalizing value with
  | nil => rw [List.nil_append, List.append_nil]
  | cons letter text ih =>
      have first : step char (.quotedValue quote tag name value) letter =
          (.quotedValue quote tag name (value ++ [letter]), none) :=
        if_neg (clear letter (List.mem_cons_self ..))
      have longer : value ++ letter :: text = value ++ [letter] ++ text := List.append_cons _ _ _
      rw [List.cons_append, tokensFrom_cons, first, longer]
      exact ih (fun other member => clear other (List.mem_cons_of_mem _ member)) _

/-- A quote in the text ends the value inside of it. -/
theorem tokensFrom_quoted_closed {text : List α} (closed : ∃ letter ∈ text, char letter = quote)
    (value rest : List α) :
    tokensFrom char (.quotedValue quote tag name value) (text ++ rest) = [] ∨
      ∃ inner new later, tokensFrom char (.quotedValue quote tag name value) (text ++ rest) =
        .tag new :: later ∧ inner ⊆ text ∧ (tag.add name (value ++ inner)).Extends new := by
  induction text generalizing value with
  | nil => exact absurd closed (by simp)
  | cons letter text ih =>
      rw [List.cons_append, tokensFrom_cons, step]
      by_cases same : char letter = quote
      · rw [if_pos same]
        have begun : (State.afterQuotedValue (tag.add name value)).tag? =
          some (tag.add name value) := rfl
        rcases tokensFrom_of_tag char begun (text ++ rest) with nothing | ⟨new, later, found, grown⟩
        · exact .inl nothing
        · refine .inr ⟨[], new, later, found, List.nil_subset _, ?_⟩
          rw [List.append_nil]
          exact grown
      · rw [if_neg same]
        obtain ⟨other, member, closes⟩ := closed
        have inside : other ∈ text := (List.mem_cons.mp member).resolve_left
          fun equal => same (equal ▸ closes)
        rcases ih ⟨other, inside, closes⟩ (value ++ [letter]) with nothing |
          ⟨inner, new, later, found, subset, grown⟩
        · exact .inl nothing
        · refine .inr ⟨letter :: inner, new, later, found, List.cons_subset_cons _ subset, ?_⟩
          rw [List.append_cons]
          exact grown

end Quoted

end Step

section Map

variable {α β : Type*} (f : α → β)

def Tag.map (tag : Tag α) : Tag β :=
  ⟨tag.closing, tag.name.map f, tag.attributes.map fun pair =>
    (pair.1.map f, pair.2.map f)⟩

def Token.map : Token α → Token β
  | .tag whole => .tag (whole.map f)
  | .comment => .comment

def State.map : State α → State β
  | .data => .data
  | .tagOpen => .tagOpen
  | .endTagOpen => .endTagOpen
  | .tagName tag => .tagName (tag.map f)
  | .beforeAttributeName tag => .beforeAttributeName (tag.map f)
  | .attributeName tag name => .attributeName (tag.map f) (name.map f)
  | .afterAttributeName tag name => .afterAttributeName (tag.map f) (name.map f)
  | .beforeAttributeValue tag name => .beforeAttributeValue (tag.map f) (name.map f)
  | .quotedValue quote tag name value =>
      .quotedValue quote (tag.map f) (name.map f) (value.map f)
  | .unquotedValue tag name value => .unquotedValue (tag.map f) (name.map f) (value.map f)
  | .afterQuotedValue tag => .afterQuotedValue (tag.map f)
  | .selfClosingStartTag tag => .selfClosingStartTag (tag.map f)
  | .markupDeclarationOpen => .markupDeclarationOpen
  | .markupDeclarationDash => .markupDeclarationDash
  | .bogusComment => .bogusComment
  | .commentStart => .commentStart
  | .commentStartDash => .commentStartDash
  | .comment => .comment
  | .commentEndDash => .commentEndDash
  | .commentEnd => .commentEnd
  | .commentEndBang => .commentEndBang

/-- The tokenizer looks at nothing but the characters of the letters. -/
theorem step_map (char : β → Char) (state : State α) (letter : α) :
    step char (state.map f) (f letter) =
      ((step (char ∘ f) state letter).1.map f,
        (step (char ∘ f) state letter).2.map (Token.map f)) := by
  cases state <;>
    simp only [State.map, step, stepData, stepTagOpen, stepEndTagOpen, stepBeforeAttributeName,
      stepComment, stepBogusComment, Function.comp_apply] <;>
    split_ifs <;>
    simp [Token.map, Tag.add, Tag.map]

theorem finish_map (state : State α) : finish (state.map f) = (finish state).map (Token.map f) := by
  cases state <;> rfl

theorem tokensFrom_map (char : β → Char) (state : State α) (text : List α) :
    tokensFrom char (state.map f) (text.map f) =
      (tokensFrom (char ∘ f) state text).map (Token.map f) := by
  induction text generalizing state with
  | nil => exact finish_map f state
  | cons letter text ih =>
      rw [List.map_cons, tokensFrom_cons, tokensFrom_cons, step_map, ih, List.map_append]
      cases (step (char ∘ f) state letter).2 <;> rfl

end Map

end Html

end CodeCollect.Library
