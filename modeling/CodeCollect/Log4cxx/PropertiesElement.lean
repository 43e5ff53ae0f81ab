import CodeCollect.Log4cxx.PropertiesRead

namespace CodeCollect.Log4cxx

namespace PropertyParser

open PropertiesText

/-- An element is read in these states, and behind a continuation spaces are passed over. -/
def InElement (swallow : Bool) (type : LexemType) : Prop :=
  if swallow then type = .elementContinue ∨ type = .elementContinue2 else type = .element

/-- This is the part of leading white space that a continuation leaves. -/
def kept (list : List Blank) : LogString := (blanks list).dropWhile (· == ' ')

/-- This is what is read in the place of an element, as long as no line ends in CRLF. -/
def readElement : Bool → List WrittenPiece → LogString
  | _, [] => []
  | _, .continuation self :: pieces =>
      kept self.leading ++ readElement (kept self.leading).isEmpty pieces
  | swallow, .letter c :: pieces =>
      if swallow && c == ' ' then readElement true pieces else c :: readElement false pieces

section Elements

variable (key : LogString) (properties : Properties)

theorem feed_inElement {swallow : Bool} {type : LexemType} (within : InElement swallow type)
    {c : Char} (plain : c ≠ tab) (spaces : swallow = true → c ≠ ' ') (element : LogString) :
    feed ⟨type, key, element, properties⟩ c = feed ⟨.element, key, element, properties⟩ c := by
  cases swallow with
  | false =>
      obtain rfl : type = .element := within
      rfl
  | true =>
      have white : isWhite c = false := by simp [isWhite, plain, spaces rfl]
      obtain rfl | rfl : type = .elementContinue ∨ type = .elementContinue2 := within
      · exact feed_elementContinue key element properties white
      · rw [feed_elementContinue2, feed_elementContinue key element properties white]

theorem feed_inElement_space {type : LexemType} (within : InElement true type)
    (element : LogString) :
    feed ⟨type, key, element, properties⟩ ' ' =
      some ⟨.elementContinue, key, element, properties⟩ := by
  obtain rfl | rfl : type = .elementContinue ∨ type = .elementContinue2 := within <;> rfl

theorem feed_inElement_escape {swallow : Bool} {type : LexemType} (within : InElement swallow type)
    (element : LogString) :
    feed ⟨type, key, element, properties⟩ '\\' =
      some ⟨.elementEscape, key, element, properties⟩ :=
  feed_inElement key properties within (by decide) (fun _ => by decide) element

/-- The end of the line sets the property. -/
theorem run_element_lineEnd {swallow : Bool} {type : LexemType} (within : InElement swallow type)
    (element : LogString) (ending : LineEnd) :
    run ⟨type, key, element, properties⟩ (lineEnd ending) =
      some ⟨.begin, [], [], properties.setProperty key element⟩ := by
  have feeds : ∀ c, c = '\n' ∨ c = '\r' → feed ⟨type, key, element, properties⟩ c =
      some ⟨.begin, [], [], properties.setProperty key element⟩ := by
    rintro c (rfl | rfl) <;>
      rw [feed_inElement key properties within (by decide) (fun _ => by decide)] <;> rfl
  cases ending with
  | lf => rw [lineEnd, run, feeds _ (Or.inl rfl), Option.bind_some, run]
  | cr => rw [lineEnd, run, feeds _ (Or.inr rfl), Option.bind_some, run]
  | crlf =>
      rw [lineEnd, run, feeds _ (Or.inr rfl), Option.bind_some]
      rfl

theorem run_element_blanks (element : LogString) (list : List Blank) :
    run ⟨.element, key, element, properties⟩ (blanks list) =
      some ⟨.element, key, element ++ blanks list, properties⟩ := by
  induction list generalizing element with
  | nil => rw [blanks, List.map_nil, List.append_nil, run]
  | cons blank list ih =>
      have fed : feed ⟨.element, key, element, properties⟩ (blankChar blank) =
          some ⟨.element, key, element ++ [blankChar blank], properties⟩ := by
        cases blank <;> rfl
      rw [blanks, List.map_cons, run, fed, Option.bind_some,
        List.append_cons element (blankChar blank) (list.map blankChar)]
      exact ih (element ++ [blankChar blank])

/-- Spaces at the front of a continued line are lost, and other white space is not. -/
theorem run_kept {type : LexemType} (within : InElement true type) (element : LogString)
    (list : List Blank) :
    ∃ next, InElement (kept list).isEmpty next ∧
      run ⟨type, key, element, properties⟩ (blanks list) =
        some ⟨next, key, element ++ kept list, properties⟩ := by
  induction list generalizing type with
  | nil => exact ⟨type, within, by rw [kept, blanks, List.map_nil, List.dropWhile_nil,
      List.append_nil, run]⟩
  | cons blank list ih =>
      cases blank with
      | space =>
          have continuing : InElement true .elementContinue := Or.inl rfl
          obtain ⟨next, last, ran⟩ := ih continuing
          refine ⟨next, last, ?_⟩
          show (feed _ ' ').bind _ = _
          rw [feed_inElement_space key properties within]
          exact ran
      | tab =>
          refine ⟨.element, rfl, ?_⟩
          have first : feed ⟨type, key, element, properties⟩ '\t' =
              feed ⟨.element, key, element, properties⟩ '\t' :=
            feed_inElement key properties within (by decide) (fun _ => by decide) element
          show (feed _ '\t').bind _ = _
          rw [first]
          exact run_element_blanks key properties element (.tab :: list)

theorem run_elementContinuation {swallow : Bool} {type : LexemType}
    (within : InElement swallow type) {self : Continuation} (single : self.ending ≠ .crlf)
    (element : LogString) :
    ∃ next, InElement (kept self.leading).isEmpty next ∧
      run ⟨type, key, element, properties⟩ (continuation self) =
        some ⟨next, key, element ++ kept self.leading, properties⟩ := by
  have broken : ∃ middle, InElement true middle ∧ run ⟨.elementEscape, key, element, properties⟩
      (lineEnd self.ending) = some ⟨middle, key, element, properties⟩ := by
    cases ending : self.ending with
    | lf => exact ⟨.elementContinue, Or.inl rfl, rfl⟩
    | cr => exact ⟨.elementContinue2, Or.inr rfl, rfl⟩
    | crlf => exact absurd ending single
  obtain ⟨middle, continuing, ended⟩ := broken
  obtain ⟨next, last, ran⟩ := run_kept key properties continuing element self.leading
  refine ⟨next, last, ?_⟩
  rw [continuation, run, feed_inElement_escape key properties within, Option.bind_some, run_append,
    ended]
  exact ran

/-- A continuation that ends in CRLF ends the element. -/
theorem run_crlf {swallow : Bool} {type : LexemType} (within : InElement swallow type)
    (element : LogString) (leading : List Blank) :
    run ⟨type, key, element, properties⟩ (continuation ⟨.crlf, leading⟩) =
      run ⟨.begin, [], [], properties.setProperty key element⟩ (blanks leading) := by
  rw [continuation, run, feed_inElement_escape key properties within]
  rfl

theorem run_elementLetter {type : LexemType} {swallow : Bool} (within : InElement swallow type)
    {c : Char} (letter : isLetter c = true) (stays : (swallow && c == ' ') = false)
    (element : LogString) :
    run ⟨type, key, element, properties⟩ (elementLetter c) =
      some ⟨.element, key, element ++ [c], properties⟩ := by
  obtain ⟨noLine, noReturn, noBackspace⟩ := letter_clear letter
  have lines : isLineEnd c = false := by simp [isLineEnd, noLine, noReturn]
  rw [elementLetter]
  split
  · rename_i slash
    subst slash
    rw [run, feed_inElement_escape key properties within, Option.bind_some, run,
      feed_elementEscape key element properties lines]
    rfl
  · rename_i noSlash
    have spaces : swallow = true → c ≠ ' ' := by
      rintro rfl
      simpa using stays
    rw [run, feed_inElement key properties within noBackspace spaces,
      feed_element_letter key element properties ⟨noSlash, lines⟩]
    rfl

theorem run_elementText {pieces : List WrittenPiece} (legal : ∀ c ∈ lettersOf pieces, isLetter c = true)
    (single : ∀ self, .continuation self ∈ pieces → self.ending ≠ .crlf) {swallow : Bool}
    {type : LexemType} (within : InElement swallow type) (element : LogString) :
    ∃ swallowing next, InElement swallowing next ∧
      run ⟨type, key, element, properties⟩ (elementText pieces) =
        some ⟨next, key, element ++ readElement swallow pieces, properties⟩ := by
  induction pieces generalizing swallow type element with
  | nil => exact ⟨swallow, type, within, by rw [readElement, List.append_nil, elementText, run]⟩
  | cons piece pieces ih =>
      have later : ∀ self, .continuation self ∈ pieces → self.ending ≠ .crlf :=
        fun self member => single self (List.mem_cons_of_mem _ member)
      cases piece with
      | continuation self =>
          obtain ⟨middle, continuing, continued⟩ := run_elementContinuation key properties within
            (single self (List.mem_cons_self ..)) element
          obtain ⟨swallowing, next, last, ran⟩ := ih legal later continuing _
          refine ⟨swallowing, next, last, ?_⟩
          rw [elementText, run_append, continued, readElement, ← List.append_assoc]
          exact ran
      | letter c =>
          have letter := legal c (List.mem_cons_self ..)
          have others : ∀ other ∈ lettersOf pieces, isLetter other = true :=
            fun other member => legal other (List.mem_cons_of_mem _ member)
          cases stays : swallow && c == ' ' with
          | true =>
              rw [Bool.and_eq_true, beq_iff_eq] at stays
              obtain ⟨rfl, rfl⟩ := stays
              have continuing : InElement true .elementContinue := Or.inl rfl
              obtain ⟨swallowing, next, last, ran⟩ := ih others later continuing element
              refine ⟨swallowing, next, last, ?_⟩
              have written : elementText (.letter ' ' :: pieces) = ' ' :: elementText pieces := rfl
              rw [written, run, feed_inElement_space key properties within]
              exact ran
          | false =>
              have going : InElement false .element := rfl
              obtain ⟨swallowing, next, last, ran⟩ := ih others later going (element ++ [c])
              refine ⟨swallowing, next, last, ?_⟩
              rw [elementText, run_append, run_elementLetter key properties within letter stays,
                readElement, stays]
              rw [List.append_assoc] at ran
              exact ran

end Elements

end PropertyParser

end CodeCollect.Log4cxx
