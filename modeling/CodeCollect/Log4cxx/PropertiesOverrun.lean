import CodeCollect.Log4cxx.PropertiesLost

namespace CodeCollect.Log4cxx

namespace PropertyParser

open PropertiesText

theorem kept_eq_nil {list : List Blank} (spaces : .tab ∉ list) : kept list = [] := by
  rw [kept, List.dropWhile_eq_nil_iff]
  intro c member
  obtain ⟨blank, inside, rfl⟩ := List.mem_map.mp member
  cases blank with
  | space => rfl
  | tab => exact absurd inside spaces

theorem count_kept (list : List Blank) : (kept list).count '\t' = list.count .tab := by
  induction list with
  | nil => rfl
  | cons blank list ih =>
      cases blank with
      | space =>
          have same : kept (.space :: list) = kept list := rfl
          rw [same, ih, List.count_cons]
          rfl
      | tab =>
          have same : kept (.tab :: list) = '\t' :: blanks list := rfl
          have all : ∀ list : List Blank, (blanks list).count '\t' = list.count .tab := by
            intro list
            induction list with
            | nil => rfl
            | cons blank list ih =>
                have cons : blanks (blank :: list) = blankChar blank :: blanks list := rfl
                rw [cons, List.count_cons, List.count_cons, ih]
                cases blank <;> rfl
          rw [same, List.count_cons, all, List.count_cons]
          rfl

theorem solids_kept (list : List Blank) : solids (kept list) = 0 := by
  rw [solids, List.countP_eq_zero]
  intro c member
  obtain ⟨blank, _, rfl⟩ := List.mem_map.mp (List.dropWhile_subset _ member)
  cases blank <;> decide

/-- No tab is lost, and the tabs that continuations lead with are added. -/
theorem count_readElement (swallow : Bool) (pieces : List WrittenPiece) :
    (readElement swallow pieces).count '\t' =
      (lettersOf pieces).count '\t' + (leadings pieces).count .tab := by
  induction pieces generalizing swallow with
  | nil => rfl
  | cons piece pieces ih =>
      cases piece with
      | continuation self =>
          rw [readElement, lettersOf, leadings, List.count_append, List.count_append, ih, count_kept]
          omega
      | letter c =>
          rw [readElement, lettersOf, leadings, List.count_cons]
          split
          · rename_i space
            rw [Bool.and_eq_true, beq_iff_eq] at space
            rw [ih, space.2]
            rfl
          · rw [List.count_cons, ih]
            omega

/-- Only white space is added or lost. -/
theorem solids_readElement (swallow : Bool) (pieces : List WrittenPiece) :
    solids (readElement swallow pieces) = solids (lettersOf pieces) := by
  induction pieces generalizing swallow with
  | nil => rfl
  | cons piece pieces ih =>
      cases piece with
      | continuation self =>
          have nothing := solids_kept self.leading
          rw [solids] at nothing ih ⊢
          rw [readElement, lettersOf, List.countP_append, nothing, Nat.zero_add]
          exact ih _
      | letter c =>
          simp only [solids] at ih ⊢
          rw [readElement, lettersOf, List.countP_cons]
          split
          · rename_i space
            rw [Bool.and_eq_true, beq_iff_eq] at space
            rw [ih, space.2]
            rfl
          · rw [List.countP_cons, ih]

/-- Without tabs in front of continued lines nothing is added. -/
theorem readElement_sublist {pieces : List WrittenPiece} (spaces : .tab ∉ leadings pieces)
    (swallow : Bool) : (readElement swallow pieces).Sublist (lettersOf pieces) := by
  induction pieces generalizing swallow with
  | nil => exact List.Sublist.refl []
  | cons piece pieces ih =>
      cases piece with
      | continuation self =>
          rw [leadings, List.mem_append, not_or] at spaces
          rw [readElement, kept_eq_nil spaces.1, lettersOf]
          exact ih spaces.2 true
      | letter c =>
          rw [readElement, lettersOf]
          split
          · exact (ih spaces true).cons c
          · exact (ih spaces false).cons_cons c

theorem unswallowed_cons {piece : WrittenPiece} {pieces : List WrittenPiece} :
    Unswallowed (piece :: pieces) ↔ Unswallowed pieces ∧
      ((∃ self, piece = .continuation self) → pieces.head? ≠ some (.letter ' ')) := by
  constructor
  · intro clear
    refine ⟨fun self inside => clear self (inside.trans (List.suffix_cons ..).isInfix), ?_⟩
    rintro ⟨self, rfl⟩ begins
    obtain ⟨rest, rfl⟩ := List.head?_eq_some_iff.mp begins
    exact clear self ⟨[], rest, rfl⟩
  · rintro ⟨clear, next⟩ self inside
    rcases List.infix_cons_iff.mp inside with ⟨rest, begins⟩ | later
    · obtain ⟨rfl, rfl⟩ := List.cons.inj begins
      exact next ⟨self, rfl⟩ rfl
    · exact clear self later

/-- Without tabs in front of continued lines an element is read again when no space is swallowed. -/
theorem readElement_eq_iff {pieces : List WrittenPiece} (spaces : .tab ∉ leadings pieces)
    (swallow : Bool) : readElement swallow pieces = lettersOf pieces ↔
      Unswallowed pieces ∧ (swallow = true → pieces.head? ≠ some (.letter ' ')) := by
  induction pieces generalizing swallow with
  | nil => simp [readElement, lettersOf, Unswallowed]
  | cons piece pieces ih =>
      rw [unswallowed_cons]
      cases piece with
      | continuation self =>
          rw [leadings, List.mem_append, not_or] at spaces
          rw [readElement, kept_eq_nil spaces.1, lettersOf, List.nil_append, List.isEmpty_nil,
            ih spaces.2 true]
          simp
      | letter c =>
          rw [readElement, lettersOf]
          split
          · rename_i space
            rw [Bool.and_eq_true, beq_iff_eq] at space
            obtain ⟨rfl, rfl⟩ := space
            constructor
            · intro same
              have later : .tab ∉ leadings pieces := spaces
              have part := readElement_sublist later true
              have shorter := part.length_le
              rw [same, List.length_cons] at shorter
              omega
            · rintro ⟨_, clear⟩
              exact absurd rfl (clear rfl)
          · rename_i stays
            have first : swallow = true → c ≠ ' ' := by
              rintro rfl rfl
              exact stays rfl
            rw [List.cons.injEq, ih spaces false]
            simp only [true_and, Bool.false_eq_true, false_implies, and_true, reduceCtorEq,
              exists_false, List.head?_cons, ne_eq, Option.some.injEq, WrittenPiece.letter.injEq]
            exact ⟨fun clear => ⟨clear, first⟩, And.left⟩

/-- The first continuation that ends in CRLF stands behind others. -/
theorem split_crlf {pieces : List WrittenPiece}
    (double : ∃ self, .continuation self ∈ pieces ∧ self.ending = .crlf) :
    ∃ before leading after, pieces = before ++ .continuation ⟨.crlf, leading⟩ :: after ∧
      ∀ self, .continuation self ∈ before → self.ending ≠ .crlf := by
  induction pieces with
  | nil =>
      obtain ⟨self, member, _⟩ := double
      exact absurd member List.not_mem_nil
  | cons piece pieces ih =>
      by_cases this : ∃ leading, piece = .continuation ⟨.crlf, leading⟩
      · obtain ⟨leading, rfl⟩ := this
        exact ⟨[], leading, pieces, rfl, fun self member => absurd member List.not_mem_nil⟩
      · have later : ∃ self, .continuation self ∈ pieces ∧ self.ending = .crlf := by
          obtain ⟨self, member, ends⟩ := double
          rcases List.mem_cons.mp member with rfl | inside
          · obtain ⟨ending, leading⟩ := self
            obtain rfl : ending = .crlf := ends
            exact absurd ⟨leading, rfl⟩ this
          · exact ⟨self, inside, ends⟩
        obtain ⟨before, leading, after, rfl, single⟩ := ih later
        refine ⟨piece :: before, leading, after, rfl, fun self member => ?_⟩
        rcases List.mem_cons.mp member with rfl | inside
        · intro ends
          obtain ⟨ending, leading⟩ := self
          obtain rfl : ending = .crlf := ends
          exact this ⟨leading, rfl⟩
        · exact single self inside

theorem lettersOf_append (pieces more : List WrittenPiece) :
    lettersOf (pieces ++ more) = lettersOf pieces ++ lettersOf more := by
  induction pieces with
  | nil => rfl
  | cons piece pieces ih =>
      cases piece with
      | continuation self => exact ih
      | letter c => exact congrArg (c :: ·) ih

/-- Pieces that do not end with a continuation have a letter. -/
theorem lettersOf_ne_nil {pieces : List WrittenPiece} (present : pieces ≠ [])
    (inside : ∀ self, pieces.getLast? ≠ some (.continuation self)) : lettersOf pieces ≠ [] := by
  obtain ⟨others, last, rfl⟩ := (List.eq_nil_or_concat' pieces).resolve_left present
  cases last with
  | continuation self => exact absurd List.getLast?_concat (inside self)
  | letter c =>
      rw [lettersOf_append]
      exact List.append_ne_nil_of_right_ne_nil _ (List.cons_ne_nil _ _)

theorem elementText_append (pieces more : List WrittenPiece) :
    elementText (pieces ++ more) = elementText pieces ++ elementText more := by
  induction pieces with
  | nil => rfl
  | cons piece pieces ih =>
      cases piece with
      | continuation self =>
          rw [List.cons_append, elementText, elementText, ih, List.append_assoc]
      | letter c => rw [List.cons_append, elementText, elementText, ih, List.append_assoc]

/-- Behind the end of a line the parser is where it began, with other properties. -/
theorem run_settled_lineEnd {self next : PropertyParser} {ending : LineEnd}
    (settled : Settled self) (clean : Clean self) (ran : run self (lineEnd ending) = some next) :
    next = ⟨.begin, [], [], next.properties⟩ := by
  have begins : next.lexemType = .begin := by
    cases ending with
    | lf =>
        obtain ⟨middle, fed, rest⟩ := Option.bind_eq_some_iff.mp ran
        rw [← Option.some.inj rest]
        exact feed_lineEnd (Or.inl rfl) settled fed
    | cr =>
        obtain ⟨middle, fed, rest⟩ := Option.bind_eq_some_iff.mp ran
        rw [← Option.some.inj rest]
        exact feed_lineEnd (Or.inr rfl) settled fed
    | crlf =>
        obtain ⟨middle, fed, rest⟩ := Option.bind_eq_some_iff.mp ran
        obtain ⟨last, fedLast, ended⟩ := Option.bind_eq_some_iff.mp rest
        have between := feed_lineEnd (Or.inr rfl) settled fed
        have settledMiddle : Settled middle := by simp [Settled, Steady, between]
        rw [← Option.some.inj ended]
        exact feed_lineEnd (Or.inl rfl) settledMiddle fedLast
  obtain ⟨noKey, noElement⟩ := run_clean clean ran
  obtain ⟨type, key, element, properties⟩ := next
  obtain rfl : type = .begin := begins
  obtain rfl : key = [] := noKey (Or.inl rfl)
  obtain rfl : element = [] := noElement (Or.inl rfl)
  rfl

/-- A property with a long value is not there. -/
theorem exists_lost (properties : Properties) (coming : Nat) :
    ∃ value, Lost ['x'] value coming ⟨.begin, [], [], properties⟩ := by
  have long : solids (List.replicate (coming + 1 + (properties.getProperty ['x']).length) 'x') =
      coming + 1 + (properties.getProperty ['x']).length := by
    rw [solids, List.countP_replicate]
    rfl
  refine ⟨List.replicate (coming + 1 + (properties.getProperty ['x']).length) 'x', Or.inr ⟨?_, ?_⟩⟩
  · intro found
    have same : (properties.getProperty ['x']).length =
        coming + 1 + (properties.getProperty ['x']).length := by
      conv_lhs => rw [Properties.getProperty, found, Option.getD_some, List.length_replicate]
    omega
  · rw [long]
    show 0 + 0 + coming ≤ _
    omega

/-- What is left of an element behind CRLF ends as a line of its own. -/
theorem run_rest {name value : LogString} {pieces : List WrittenPiece} {properties : Properties}
    (legal : ∀ c ∈ lettersOf pieces, isLetter c = true) (present : pieces ≠ [])
    (inside : ∀ self, pieces.getLast? ≠ some (.continuation self)) (named : name ≠ [])
    (lost : Lost name value (solids (lettersOf pieces)) ⟨.begin, [], [], properties⟩)
    {leading : List Blank} {ending : LineEnd} {next : PropertyParser}
    (ran : run ⟨.begin, [], [], properties⟩
      (blanks leading ++ (elementText pieces ++ lineEnd ending)) = some next) :
    next = ⟨.begin, [], [], next.properties⟩ ∧ Lost name value 0 next := by
  have steady : Steady ⟨.begin, [], [], properties⟩ := by simp [Steady]
  have clean : Clean ⟨.begin, [], [], properties⟩ := by simp [Clean]
  rw [run_append] at ran
  obtain ⟨indented, ranBlanks, rest⟩ := Option.bind_eq_some_iff.mp ran
  obtain ⟨steadyBlanks, lostBlanks⟩ := run_blanks_lost named steady lost ranBlanks
  rw [run_append] at rest
  obtain ⟨written, ranText, ranEnd⟩ := Option.bind_eq_some_iff.mp rest
  rw [← Nat.zero_add (solids (lettersOf pieces))] at lostBlanks
  obtain ⟨_, settles, lostText⟩ := run_elementText_lost legal named steadyBlanks lostBlanks ranText
  have cleanText := run_clean (run_clean clean ranBlanks) ranText
  exact ⟨run_settled_lineEnd (settles present inside) cleanText ranEnd,
    (run_lineEnd_lost named lostText ranEnd).2⟩

/-- Nothing but white space has been read of a key. -/
def Waiting (self : PropertyParser) : Prop :=
  self.lexemType = .begin ∨ self.lexemType = .keyContinue ∨ self.lexemType = .keyContinue2

theorem feed_waiting_space {self next : PropertyParser} (waiting : Waiting self)
    (fed : feed self ' ' = some next) : Waiting next := by
  obtain ⟨type, key, element, properties⟩ := self
  rcases waiting with rfl | rfl | rfl <;>
    · cases fed
      simp [Waiting]

theorem feed_waiting_tab {self next : PropertyParser} (waiting : Waiting self)
    (fed : feed self '\t' = some next) : Tainted next := by
  obtain ⟨type, key, element, properties⟩ := self
  rcases waiting with rfl | rfl | rfl <;>
    · cases fed
      exact Or.inl (List.mem_append_right _ (List.mem_singleton_self _))

/-- White space keeps a parser waiting up to the first tab. -/
theorem run_waiting_blanks {self next : PropertyParser} {list : List Blank}
    (waiting : Waiting self) (ran : run self (blanks list) = some next) :
    Tainted next ∨ .tab ∉ list ∧ Waiting next := by
  induction list generalizing self with
  | nil =>
      rw [← Option.some.inj ran]
      exact Or.inr ⟨List.not_mem_nil, waiting⟩
  | cons blank list ih =>
      obtain ⟨middle, fed, rest⟩ := Option.bind_eq_some_iff.mp ran
      cases blank with
      | tab => exact Or.inl (run_tainted (feed_waiting_tab waiting fed) rest)
      | space =>
          refine (ih (feed_waiting_space waiting fed) rest).imp_right fun later => ?_
          exact ⟨List.not_mem_cons_of_ne_of_not_mem (by decide) later.1, later.2⟩

theorem run_waiting_continuation {self next : PropertyParser} {broken : Continuation}
    (waiting : Waiting self) (ran : run self (continuation broken) = some next) :
    Tainted next ∨ .tab ∉ broken.leading ∧ Waiting next := by
  obtain ⟨middle, fed, rest⟩ := Option.bind_eq_some_iff.mp ran
  have pending : middle.lexemType = .keyEscape := by
    obtain ⟨type, key, element, properties⟩ := self
    rcases waiting with rfl | rfl | rfl <;>
      · cases fed
        rfl
  rw [run_append] at rest
  obtain ⟨ended, ranEnd, ranBlanks⟩ := Option.bind_eq_some_iff.mp rest
  have again : Waiting ended := by
    obtain ⟨type, key, element, properties⟩ := middle
    obtain rfl : type = .keyEscape := pending
    cases ending : broken.ending <;>
      · rw [ending] at ranEnd
        cases ranEnd
        simp [Waiting]
  exact run_waiting_blanks again ranBlanks

/-- White space with a tab in it gets the tab into a key. -/
theorem run_waiting {self next : PropertyParser} {pieces : List WrittenPiece}
    (white : ∀ c ∈ lettersOf pieces, isSolid c = false) (tabbed : '\t' ∈ lettersOf pieces)
    (waiting : Waiting self) (ran : run self (elementText pieces) = some next) : Tainted next := by
  induction pieces generalizing self with
  | nil => exact absurd tabbed List.not_mem_nil
  | cons piece pieces ih =>
      rw [elementText.eq_def] at ran
      cases piece with
      | continuation broken =>
          dsimp only at ran
          rw [run_append] at ran
          obtain ⟨middle, ranFirst, ranRest⟩ := Option.bind_eq_some_iff.mp ran
          rcases run_waiting_continuation waiting ranFirst with tainted | ⟨_, again⟩
          · exact run_tainted tainted ranRest
          · exact ih white tabbed again ranRest
      | letter c =>
          dsimp only at ran
          rw [run_append] at ran
          obtain ⟨middle, ranFirst, ranRest⟩ := Option.bind_eq_some_iff.mp ran
          have blank := white c (List.mem_cons_self ..)
          simp only [isSolid, Bool.and_eq_false_iff, bne_eq_false_iff_eq] at blank
          rcases blank with rfl | rfl
          · obtain ⟨last, fed, ended⟩ := Option.bind_eq_some_iff.mp ranFirst
            rw [← Option.some.inj ended] at ranRest
            refine ih (fun other member => white other (List.mem_cons_of_mem _ member)) ?_
              (feed_waiting_space waiting fed) ranRest
            exact (List.mem_cons.mp tabbed).resolve_left (by decide)
          · obtain ⟨last, fed, ended⟩ := Option.bind_eq_some_iff.mp ranFirst
            rw [← Option.some.inj ended] at ranRest
            exact run_tainted (feed_waiting_tab waiting fed) ranRest

/-- A part of an element is the whole element only when the rest is white space with a tab. -/
theorem readElement_part {before after : List WrittenPiece}
    (same : readElement false before = lettersOf before ++ lettersOf after)
    (present : lettersOf after ≠ []) :
    (∀ c ∈ lettersOf after, isSolid c = false) ∧ '\t' ∈ lettersOf after := by
  constructor
  · have total := solids_readElement false before
    rw [same, solids, List.countP_append, ← solids] at total
    have nothing : (lettersOf after).countP isSolid = 0 := by omega
    intro c member
    simpa using List.countP_eq_zero.mp nothing c member
  · by_contra missing
    have total := count_readElement false before
    rw [same, List.count_append, List.count_eq_zero_of_not_mem missing] at total
    have spaces : .tab ∉ leadings before := by
      rw [← List.count_eq_zero]
      omega
    have shorter := (readElement_sublist spaces false).length_le
    have positive := List.length_pos_of_ne_nil present
    rw [same, List.length_append] at shorter
    omega

/-- A part that begins with a tab is not the beginning of an element. -/
theorem head_tab_ne {entry : PropertyEntry} {start rest : LogString} (tab : start.head? = some '\t') :
    start ++ rest ≠ lettersOf entry.element.pieces := by
  intro same
  have begins : (lettersOf entry.element.pieces).head? = some '\t' := by
    rw [← same, List.head?_append, tab]
    rfl
  exact (entry.starts '\t' begins).2.1 rfl

/-- An element that is not read again leaves a wrong property or gets a tab into a key. -/
theorem run_element_wrong {entry : PropertyEntry} {start : LogString} {ending : LineEnd}
    {properties : Properties} {next : PropertyParser}
    (starting : start = [] ∨ start.head? = some '\t')
    (wrong : start.head? = some '\t' ∨ .tab ∈ leadings entry.element.pieces ∨
      ¬ ReadableElement entry.element.pieces)
    (ran : run ⟨.element, (pair entry).1, start, properties⟩
      (elementText entry.element.pieces ++ lineEnd ending) = some next) :
    next = ⟨.begin, [], [], next.properties⟩ ∧
      (Tainted next ∨ next.properties[(pair entry).1]? ≠ some (pair entry).2) := by
  have going : InElement false .element := rfl
  have legal := entry.element.legal
  have inside := entry.element.inside
  by_cases double : ∃ self, .continuation self ∈ entry.element.pieces ∧ self.ending = .crlf
  · obtain ⟨before, leading, after, split, single⟩ := split_crlf double
    rw [split, lettersOf_append] at legal
    rw [split] at inside
    have legalAfter : ∀ c ∈ lettersOf after, isLetter c = true :=
      fun c member => legal c (List.mem_append_right _ member)
    have present : after ≠ [] := by
      rintro rfl
      exact inside ⟨.crlf, leading⟩ List.getLast?_concat
    have insideAfter : ∀ self, after.getLast? ≠ some (.continuation self) := by
      intro self ends
      apply inside self
      rw [List.getLast?_append, List.getLast?_cons, ends]
      rfl
    have lettersAfter := lettersOf_ne_nil present insideAfter
    obtain ⟨swallowing, type, within, ranBefore⟩ := run_elementText (pair entry).1 properties
      (fun c member => legal c (List.mem_append_left _ member)) single going start
    have written : elementText entry.element.pieces ++ lineEnd ending =
        elementText before ++ (continuation ⟨.crlf, leading⟩ ++
          (elementText after ++ lineEnd ending)) := by
      rw [split, elementText_append, elementText, List.append_assoc, List.append_assoc]
    rw [written, run_append, ranBefore, Option.bind_some, run_append,
      run_crlf _ _ within, ← run_append] at ran
    obtain ⟨other, lostOther⟩ := exists_lost
      (properties.setProperty (pair entry).1 (start ++ readElement false before))
      (solids (lettersOf after))
    refine ⟨(run_rest legalAfter present insideAfter (by decide) lostOther ran).1, ?_⟩
    by_cases same : start ++ readElement false before = lettersOf entry.element.pieces
    · obtain rfl := starting.resolve_right fun tab => head_tab_ne tab same
      rw [List.nil_append, split, lettersOf_append] at same
      have part : readElement false before = lettersOf before ++ lettersOf after := same
      obtain ⟨white, tabbed⟩ := readElement_part part lettersAfter
      rw [run_append] at ran
      obtain ⟨indented, ranBlanks, rest⟩ := Option.bind_eq_some_iff.mp ran
      rw [run_append] at rest
      obtain ⟨last, ranText, ranEnd⟩ := Option.bind_eq_some_iff.mp rest
      rcases run_waiting_blanks (Or.inl rfl) ranBlanks with tainted | ⟨_, waiting⟩
      · exact Or.inl (run_tainted (run_tainted tainted ranText) ranEnd)
      · exact Or.inl (run_tainted (run_waiting white tabbed waiting ranText) ranEnd)
    · have lost : Lost (pair entry).1 (pair entry).2 (solids (lettersOf after)) ⟨.begin, [], [],
          properties.setProperty (pair entry).1 (start ++ readElement false before)⟩ := by
        refine Or.inr ⟨?_, ?_⟩
        · rw [setProperty_get, if_pos rfl]
          exact fun found => same (Option.some.inj found)
        · have total : solids (lettersOf entry.element.pieces) =
              solids (lettersOf before) + solids (lettersOf after) := by
            rw [split, lettersOf_append, solids, List.countP_append]
            rfl
          show 0 + 0 + solids (lettersOf after) ≤ solids (lettersOf entry.element.pieces)
          omega
      exact ((run_rest legalAfter present insideAfter entry.named lost ran).2).imp_right And.left
  · have single : ∀ self, .continuation self ∈ entry.element.pieces → self.ending ≠ .crlf :=
      fun self member ends => double ⟨self, member, ends⟩
    obtain ⟨swallowing, type, within, ranText⟩ :=
      run_elementText (pair entry).1 properties legal single going start
    rw [run_append, ranText, Option.bind_some, run_element_lineEnd _ _ within] at ran
    rw [← Option.some.inj ran]
    refine ⟨rfl, Or.inr ?_⟩
    rw [setProperty_get, if_pos rfl]
    intro found
    have same : start ++ readElement false entry.element.pieces =
      lettersOf entry.element.pieces := Option.some.inj found
    obtain rfl := starting.resolve_right fun tab => head_tab_ne tab same
    rw [List.nil_append] at same
    have total := count_readElement false entry.element.pieces
    rw [same] at total
    have spaces : .tab ∉ leadings entry.element.pieces := by
      rw [← List.count_eq_zero]
      omega
    have clear := ((readElement_eq_iff spaces false).mp same).1
    rcases wrong with tab | leads | unreadable
    · exact absurd tab (by simp)
    · exact spaces leads
    · exact unreadable ⟨single, clear⟩

end PropertyParser

end CodeCollect.Log4cxx
