import CodeCollect.Log4cxx.PropertiesOverrun

namespace CodeCollect.Log4cxx

namespace PropertyParser

open PropertiesText

section Lines

variable {properties : Properties} {next : PropertyParser}

/-- An element begins with no delimiter, and neither does the end of a line. -/
theorem element_head (entry : PropertyEntry) (ending : LineEnd) :
    ∀ c ∈ (elementText entry.element.pieces ++ lineEnd ending).head?, isDelimiter c = false := by
  have legal := entry.element.legal
  have starts := entry.starts
  intro c begins
  cases pieces : entry.element.pieces with
  | nil =>
      rw [pieces] at begins
      cases ending <;>
        · obtain rfl := Option.some.inj begins
          rfl
  | cons piece others =>
      rw [pieces] at begins legal starts
      cases piece with
      | continuation self =>
          obtain rfl := Option.some.inj begins
          rfl
      | letter first =>
          obtain ⟨noSpace, _, noColon, noEquals⟩ := starts first rfl
          obtain ⟨_, _, noBackspace⟩ := letter_clear (legal first (List.mem_cons_self ..))
          rw [elementText, elementLetter] at begins
          split at begins
          · obtain rfl := Option.some.inj begins
            rfl
          · obtain rfl := Option.some.inj begins
            simp [isDelimiter, isWhite, noSpace, noColon, noEquals, noBackspace]

/-- Behind a key without tabs the element is begun, whether it has a separator or not. -/
theorem run_separated (entry : PropertyEntry) (ending : LineEnd) (properties : Properties)
    (spaces : .tab ∉ entry.separator.before ∧ .tab ∉ entry.separator.after) :
    run ⟨.key, (pair entry).1, [], properties⟩ (separator entry.separator ++
        (elementText entry.element.pieces ++ lineEnd ending)) =
      run ⟨.element, (pair entry).1, [], properties⟩
        (elementText entry.element.pieces ++ lineEnd ending) := by
  by_cases present : separator entry.separator = []
  · have nothing : entry.element.pieces = [] := by
      by_contra some
      exact entry.separated (lettersOf_ne_nil some entry.element.inside) present
    rw [present, nothing]
    cases ending <;> rfl
  · have written : elementText entry.element.pieces ++ lineEnd ending ≠ [] := by
      apply List.append_ne_nil_of_right_ne_nil
      cases ending <;> exact List.cons_ne_nil _ _
    rw [run_append, run_separator spaces present, Option.bind_some,
      run_delimiter _ _ _ written (element_head entry ending)]

/-- A tab in a key makes the parser stop, and a tab in front of a continued key gets into it. -/
theorem run_keyText_tainted {first : Bool} {type : LexemType} {key : LogString}
    (within : InKey first type) {pieces : List WrittenPiece}
    (legal : ∀ c ∈ lettersOf pieces, isLetter c = true) (leads : .tab ∈ leadings pieces)
    (ran : run ⟨type, key, [], properties⟩ (keyText first pieces) = some next) : Tainted next := by
  induction pieces generalizing first type key with
  | nil => exact absurd leads List.not_mem_nil
  | cons piece pieces ih =>
      cases piece with
      | continuation self =>
          rw [keyText, run_append] at ran
          by_cases spaces : .tab ∈ self.leading
          · obtain ⟨middle, ranFirst, ranRest⟩ := Option.bind_eq_some_iff.mp ran
            rw [continuation, run, feed_inKey_escape within, Option.bind_some,
              run_append] at ranFirst
            obtain ⟨ended, ranEnd, ranBlanks⟩ := Option.bind_eq_some_iff.mp ranFirst
            have waiting : Waiting ended := by
              cases ending : self.ending <;>
                · rw [ending] at ranEnd
                  cases ranEnd
                  simp [Waiting]
            have tainted := (run_waiting_blanks waiting ranBlanks).resolve_right fun clear =>
              clear.1 spaces
            exact run_tainted tainted ranRest
          · obtain ⟨middle, continuing, continued⟩ :=
              run_keyContinuation within spaces key [] properties
            rw [continued] at ran
            rw [leadings, List.mem_append] at leads
            exact ih (continuing.inKey first) legal (leads.resolve_left spaces) ran
      | letter c =>
          rw [keyText, run_append] at ran
          by_cases readable : ReadableKey first c
          · rw [run_keyLetter within (legal c (List.mem_cons_self ..)) readable key []
              properties] at ran
            exact ih (Or.inl rfl) (fun other member => legal other (List.mem_cons_of_mem _ member))
              leads ran
          · rw [run_keyLetter_hangs within readable] at ran
            exact absurd ran (by simp)

theorem run_element_plain {key start text : LogString}
    (plain : ∀ c ∈ text, c ≠ '\\' ∧ isLineEnd c = false) :
    run ⟨.element, key, start, properties⟩ text =
      some ⟨.element, key, start ++ text, properties⟩ := by
  induction text generalizing start with
  | nil => rw [run, List.append_nil]
  | cons c text ih =>
      rw [run, feed_element_letter _ _ _ (plain c (List.mem_cons_self ..)), Option.bind_some,
        ih fun other member => plain other (List.mem_cons_of_mem _ member), List.append_assoc]
      rfl

/-- A tab in a separator gets into the key or begins the element. -/
theorem run_separator_tab {self : Separator} {key : LogString}
    (tabbed : .tab ∈ self.before ∨ .tab ∈ self.after)
    (ran : run ⟨.key, key, [], properties⟩ (separator self) = some next) :
    Tainted next ∨ ∃ start : LogString, start.head? = some '\t' ∧
      next = ⟨.element, key, start, properties⟩ := by
  have letter : ∀ c ∈ separator self, c = '\t' ∨ isDelimiter c = true := by
    intro c member
    rw [separator, List.mem_append, List.mem_append] at member
    have blank : ∀ list, c ∈ blanks list → c = '\t' ∨ isDelimiter c = true := by
      intro list inside
      obtain ⟨blank, _, rfl⟩ := List.mem_map.mp inside
      cases blank with
      | space => exact Or.inr rfl
      | tab => exact Or.inl rfl
    rcases member with (before | marked) | after
    · exact blank _ before
    · cases kind : self.mark <;> rw [kind] at marked
      · exact absurd marked List.not_mem_nil
      · exact Or.inr (by rw [List.mem_singleton.mp marked]; rfl)
      · exact Or.inr (by rw [List.mem_singleton.mp marked]; rfl)
    · exact blank _ after
  have member : '\t' ∈ separator self := by
    rw [separator, List.mem_append, List.mem_append]
    rcases tabbed with before | after
    · exact Or.inl (Or.inl (List.mem_map.mpr ⟨.tab, before, rfl⟩))
    · exact Or.inr (List.mem_map.mpr ⟨.tab, after, rfl⟩)
  have plain : ∀ c, c = '\t' ∨ isDelimiter c = true → c ≠ '\\' ∧ isLineEnd c = false := by
    rintro c (rfl | delimits)
    · decide
    · simp only [isDelimiter, isWhite, Bool.or_eq_true, beq_iff_eq] at delimits
      rcases delimits with ((rfl | rfl) | rfl) | rfl <;> decide
  have goes : ∀ text : LogString, (∀ c ∈ text, c = '\t' ∨ isDelimiter c = true) → '\t' ∈ text →
      ∃ start : LogString, start.head? = some '\t' ∧
        run ⟨.delimiter, key, [], properties⟩ text = some ⟨.element, key, start, properties⟩ := by
    intro text
    induction text with
    | nil => exact fun _ never => absurd never List.not_mem_nil
    | cons c text ih =>
        intro letters tabbed
        have others : ∀ other ∈ text, other = '\t' ∨ isDelimiter other = true :=
          fun other member => letters other (List.mem_cons_of_mem c member)
        by_cases tab : c = '\t'
        · subst tab
          refine ⟨'\t' :: text, rfl, ?_⟩
          exact run_element_plain fun other member => plain other (others other member)
        · obtain ⟨start, begins, ran⟩ := ih others ((List.mem_cons.mp tabbed).resolve_left
            (Ne.symm tab))
          refine ⟨start, begins, ?_⟩
          have delimits := (letters c (List.mem_cons_self ..)).resolve_left tab
          have fed : feed ⟨.delimiter, key, [], properties⟩ c =
              some ⟨.delimiter, key, [], properties⟩ := by
            apply feed_get
            simp [round, delimits]
          rw [run, fed]
          exact ran
  cases text : separator self with
  | nil =>
      rw [text] at member
      exact absurd member List.not_mem_nil
  | cons c rest =>
      rw [text] at letter member ran
      rw [run] at ran
      by_cases tab : c = '\t'
      · subst tab
        have tainted : Tainted ⟨.key, key ++ ['\t'], [], properties⟩ :=
          Or.inl (List.mem_append_right _ (List.mem_singleton_self _))
        exact Or.inl (run_tainted tainted ran)
      · have delimits := (letter c (List.mem_cons_self ..)).resolve_left tab
        rw [feed_key_delimiter key [] properties delimits (plain c (Or.inr delimits)).1,
          Option.bind_some] at ran
        obtain ⟨start, begins, ranRest⟩ := goes rest
          (fun other member => letter other (List.mem_cons_of_mem _ member))
          ((List.mem_cons.mp member).resolve_left (Ne.symm tab))
        rw [ranRest] at ran
        exact Or.inr ⟨start, begins, (Option.some.inj ran).symm⟩

/-- These are the properties behind a line that is read again. -/
def setLine (properties : Properties) : Line → Properties
  | .entry _ entry _ => properties.setProperty (pair entry).1 (pair entry).2
  | _ => properties

theorem run_entry_readable {entry : PropertyEntry} {ending : LineEnd}
    (spaces : .tab ∉ leadings entry.key.pieces ∧ .tab ∉ entry.separator.before ∧
      .tab ∉ entry.separator.after ∧ .tab ∉ leadings entry.element.pieces)
    (key : ReadableLetters true (pair entry).1) (element : ReadableElement entry.element.pieces) :
    run ⟨.begin, [], [], properties⟩ (entryText entry ++ lineEnd ending) =
      some ⟨.begin, [], [], properties.setProperty (pair entry).1 (pair entry).2⟩ := by
  obtain ⟨leads, before, after, leadsElement⟩ := spaces
  have going : InElement false .element := rfl
  obtain ⟨swallowing, type, within, ran⟩ := run_elementText (pair entry).1 properties
    entry.element.legal element.1 going []
  have same := (readElement_eq_iff leadsElement false).mpr ⟨element.2, fun never => absurd never
    (by decide)⟩
  have separated := run_separated entry ending properties ⟨before, after⟩
  rw [entryText, List.append_assoc, List.append_assoc, run_append, run_key leads key,
    Option.bind_some, separated, run_append, ran, Option.bind_some,
    run_element_lineEnd _ _ within, List.nil_append, same]
  rfl

/-- The parser stops in the key, or goes on from the end of the line. -/
theorem run_entry_returns {entry : PropertyEntry} {ending : LineEnd}
    (spaces : .tab ∉ leadings entry.key.pieces ∧ .tab ∉ entry.separator.before ∧
      .tab ∉ entry.separator.after ∧ .tab ∉ leadings entry.element.pieces)
    (ran : run ⟨.begin, [], [], properties⟩ (entryText entry ++ lineEnd ending) = some next) :
    ReadableLetters true (pair entry).1 ∧ next = ⟨.begin, [], [], next.properties⟩ ∧
      (¬ ReadableElement entry.element.pieces →
        Tainted next ∨ next.properties[(pair entry).1]? ≠ some (pair entry).2) := by
  have key : ReadableLetters true (pair entry).1 := by
    by_contra unreadable
    have within : InKey true .begin := Or.inr (Or.inr (Or.inr ⟨rfl, rfl⟩))
    rw [entryText, List.append_assoc, List.append_assoc, run_append,
      run_keyText_hangs within entry.key.legal spaces.1 unreadable] at ran
    exact absurd ran (by simp)
  refine ⟨key, ?_⟩
  by_cases element : ReadableElement entry.element.pieces
  · rw [run_entry_readable spaces key element] at ran
    rw [← Option.some.inj ran]
    exact ⟨rfl, fun unreadable => absurd element unreadable⟩
  · obtain ⟨leads, before, after, _⟩ := spaces
    have separated := run_separated entry ending properties ⟨before, after⟩
    rw [entryText, List.append_assoc, List.append_assoc, run_append, run_key leads key,
      Option.bind_some, separated] at ran
    obtain ⟨begins, wrong⟩ :=
      run_element_wrong (Or.inl rfl) (Or.inr (Or.inr element)) ran
    exact ⟨begins, fun _ => wrong⟩

/-- An entry with a tab among its blanks leaves a wrong property or gets a tab into a key. -/
theorem run_entry_tab {entry : PropertyEntry} {ending : LineEnd}
    (tabbed : .tab ∈ leadings entry.key.pieces ∨ .tab ∈ entry.separator.before ∨
      .tab ∈ entry.separator.after ∨ .tab ∈ leadings entry.element.pieces)
    (ran : run ⟨.begin, [], [], properties⟩ (entryText entry ++ lineEnd ending) = some next) :
    Tainted next ∨ next = ⟨.begin, [], [], next.properties⟩ ∧
      next.properties[(pair entry).1]? ≠ some (pair entry).2 := by
  have within : InKey true .begin := Or.inr (Or.inr (Or.inr ⟨rfl, rfl⟩))
  rw [entryText, List.append_assoc, List.append_assoc, run_append] at ran
  by_cases leads : .tab ∈ leadings entry.key.pieces
  · obtain ⟨middle, ranKey, rest⟩ := Option.bind_eq_some_iff.mp ran
    exact Or.inl (run_tainted (run_keyText_tainted within entry.key.legal leads ranKey) rest)
  · have key : ReadableLetters true (pair entry).1 := by
      by_contra unreadable
      rw [run_keyText_hangs within entry.key.legal leads unreadable] at ran
      exact absurd ran (by simp)
    rw [run_key leads key, Option.bind_some] at ran
    by_cases separates : .tab ∈ entry.separator.before ∨ .tab ∈ entry.separator.after
    · rw [run_append] at ran
      obtain ⟨middle, ranSeparator, rest⟩ := Option.bind_eq_some_iff.mp ran
      rcases run_separator_tab separates ranSeparator with tainted | ⟨start, begins, rfl⟩
      · exact Or.inl (run_tainted tainted rest)
      · obtain ⟨back, tainted | wrong⟩ := run_element_wrong (Or.inr begins) (Or.inl begins) rest
        · exact Or.inl tainted
        · exact Or.inr ⟨back, wrong⟩
    · have separated := run_separated entry ending properties (not_or.mp separates)
      rw [separated] at ran
      have leadsElement : .tab ∈ leadings entry.element.pieces := by
        rcases tabbed with key | before | after | element
        · exact absurd key leads
        · exact absurd (Or.inl before) separates
        · exact absurd (Or.inr after) separates
        · exact element
      obtain ⟨back, tainted | wrong⟩ :=
        run_element_wrong (Or.inl rfl) (Or.inr (Or.inl leadsElement)) ran
      · exact Or.inl tainted
      · exact Or.inr ⟨back, wrong⟩

theorem run_line_readable {line : Line} (readable : ReadableLine line) :
    run ⟨.begin, [], [], properties⟩ (lineText line) =
      some ⟨.begin, [], [], setLine properties line⟩ := by
  obtain ⟨spaces, plain⟩ := readable
  cases line with
  | blank indent ending =>
      have indented : .tab ∉ indent := spaces
      rw [lineText, run_append, run_begin_blanks _ _ _ indented]
      exact run_begin_lineEnd [] [] properties ending
  | comment indent begins text ending =>
      have signed : feed ⟨.begin, [], [], properties⟩ (sign begins) =
          some ⟨.comment, [], [], properties⟩ := by cases begins <;> rfl
      have goes : ∀ text : LogString, text.all isLetter = true →
          run ⟨.comment, [], [], properties⟩ (text ++ lineEnd ending) =
            some ⟨.begin, [], [], properties⟩ := by
        intro text
        induction text with
        | nil =>
            intro _
            cases ending <;> rfl
        | cons c text ih =>
            intro legal
            rw [List.all_cons, Bool.and_eq_true] at legal
            obtain ⟨noLine, noReturn, _⟩ := letter_clear legal.1
            have lines : isLineEnd c = false := by simp [isLineEnd, noLine, noReturn]
            rw [List.cons_append, run, feed_comment _ _ _ lines]
            exact ih legal.2
      have indented : .tab ∉ indent := spaces
      rw [lineText, List.append_assoc, run_append, run_begin_blanks _ _ _ indented,
        Option.bind_some, List.cons_append, run, signed]
      exact goes text.val text.property
  | entry indent entry ending =>
      obtain ⟨key, element⟩ := plain indent entry ending rfl
      simp only [lineBlanks, List.mem_append, not_or] at spaces
      obtain ⟨⟨⟨⟨indented, leads⟩, before⟩, after⟩, leadsElement⟩ := spaces
      rw [lineText, List.append_assoc, run_append, run_begin_blanks _ _ _ indented]
      exact run_entry_readable ⟨leads, before, after, leadsElement⟩ key element

/-- Without tabs among its blanks a line is read to its end, or its key stops the parser. -/
theorem run_line_returns {line : Line} (spaces : .tab ∉ lineBlanks line)
    (ran : run ⟨.begin, [], [], properties⟩ (lineText line) = some next) :
    next = ⟨.begin, [], [], next.properties⟩ ∧ ∀ indent entry ending,
      line = .entry indent entry ending → ReadableLetters true (pair entry).1 ∧
        (¬ ReadableElement entry.element.pieces →
          Tainted next ∨ next.properties[(pair entry).1]? ≠ some (pair entry).2) := by
  cases line with
  | blank indent ending =>
      have readable : ReadableLine (.blank indent ending) := ⟨spaces, fun _ _ _ never => by cases never⟩
      rw [run_line_readable readable] at ran
      rw [← Option.some.inj ran]
      exact ⟨rfl, fun _ _ _ never => by cases never⟩
  | comment indent begins text ending =>
      have readable : ReadableLine (.comment indent begins text ending) :=
        ⟨spaces, fun _ _ _ never => by cases never⟩
      rw [run_line_readable readable] at ran
      rw [← Option.some.inj ran]
      exact ⟨rfl, fun _ _ _ never => by cases never⟩
  | entry indent entry ending =>
      simp only [lineBlanks, List.mem_append, not_or] at spaces
      obtain ⟨⟨⟨⟨indented, leads⟩, before⟩, after⟩, leadsElement⟩ := spaces
      rw [lineText, List.append_assoc, run_append, run_begin_blanks _ _ _ indented,
        Option.bind_some] at ran
      obtain ⟨key, begins, wrong⟩ :=
        run_entry_returns ⟨leads, before, after, leadsElement⟩ ran
      refine ⟨begins, fun _ _ _ same => ?_⟩
      cases same
      exact ⟨key, wrong⟩

/-- A line that is not read again leaves a wrong property or gets a tab into a key. -/
theorem run_line_wrong {line : Line} (unreadable : ¬ ReadableLine line)
    (ran : run ⟨.begin, [], [], properties⟩ (lineText line) = some next) :
    Tainted next ∨ next = ⟨.begin, [], [], next.properties⟩ ∧ ∃ entry ∈ entries [line],
      next.properties[(pair entry).1]? ≠ some (pair entry).2 := by
  by_cases spaces : .tab ∉ lineBlanks line
  · obtain ⟨begins, returns⟩ := run_line_returns spaces ran
    by_contra missing
    rw [not_or, not_and, not_exists] at missing
    apply unreadable
    refine ⟨spaces, fun indent entry ending same => ?_⟩
    obtain ⟨key, wrong⟩ := returns indent entry ending same
    refine ⟨key, ?_⟩
    by_contra element
    have member : entry ∈ entries [line] := by
      rw [same]
      exact List.mem_singleton_self entry
    rcases wrong element with tainted | different
    · exact missing.1 tainted
    · exact missing.2 begins entry ⟨member, different⟩
  · rw [not_not] at spaces
    have indents : ∀ (indent : List Blank) (rest : LogString), .tab ∈ indent →
        run ⟨.begin, [], [], properties⟩ (blanks indent ++ rest) = some next → Tainted next := by
      intro indent rest tabbed ran
      rw [run_append] at ran
      obtain ⟨middle, ranBlanks, ranRest⟩ := Option.bind_eq_some_iff.mp ran
      have waiting : Waiting ⟨.begin, [], [], properties⟩ := Or.inl rfl
      have tainted := (run_waiting_blanks waiting ranBlanks).resolve_right fun clear =>
        clear.1 tabbed
      exact run_tainted tainted ranRest
    cases line with
    | blank indent ending => exact Or.inl (indents indent _ spaces ran)
    | comment indent begins text ending =>
        rw [lineText, List.append_assoc] at ran
        exact Or.inl (indents indent _ spaces ran)
    | entry indent entry ending =>
        rw [lineText, List.append_assoc] at ran
        by_cases indented : .tab ∈ indent
        · exact Or.inl (indents indent _ indented ran)
        · rw [run_append, run_begin_blanks _ _ _ indented, Option.bind_some] at ran
          simp only [lineBlanks, List.mem_append, or_assoc] at spaces
          have within := spaces.resolve_left indented
          refine (run_entry_tab within ran).imp_right fun wrong => ?_
          exact ⟨wrong.1, entry, List.mem_singleton_self entry, wrong.2⟩

end Lines

end PropertyParser

end CodeCollect.Log4cxx
