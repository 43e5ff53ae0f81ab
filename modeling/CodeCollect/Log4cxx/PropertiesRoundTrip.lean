import CodeCollect.Log4cxx.PropertiesLine

namespace CodeCollect.Log4cxx

namespace PropertyParser

open PropertiesText

def linesText (lines : List Line) : LogString := lines.flatMap lineText

theorem run_lines_readable {lines : List Line} (readable : ∀ line ∈ lines, ReadableLine line)
    (properties : Properties) :
    run ⟨.begin, [], [], properties⟩ (linesText lines) =
      some ⟨.begin, [], [], lines.foldl setLine properties⟩ := by
  induction lines generalizing properties with
  | nil => rfl
  | cons line lines ih =>
      rw [linesText, List.flatMap_cons, run_append,
        run_line_readable (readable line (List.mem_cons_self ..))]
      exact ih (fun other member => readable other (List.mem_cons_of_mem _ member)) _

theorem entries_cons (line : Line) (lines : List Line) :
    entries (line :: lines) = entries [line] ++ entries lines := by
  rw [entries, entries, entries, ← List.filterMap_append]
  rfl

/-- Lines with other keys leave a property alone. -/
theorem foldl_setLine_other {lines : List Line} {key : LogString} (properties : Properties)
    (absent : ∀ entry ∈ entries lines, (pair entry).1 ≠ key) :
    (lines.foldl setLine properties)[key]? = properties[key]? := by
  induction lines generalizing properties with
  | nil => rfl
  | cons line lines ih =>
      rw [entries_cons] at absent
      rw [List.foldl_cons, ih _ fun entry member => absent entry (List.mem_append_right _ member)]
      cases line with
      | blank indent ending => rfl
      | comment indent begins text ending => rfl
      | entry indent entry ending =>
          have other := absent entry (List.mem_append_left _ (List.mem_singleton_self entry))
          rw [setLine, setProperty_get, if_neg other]

/-- With different keys the lines set the pairs that were written. -/
theorem foldl_setLine_get {lines : List Line} (properties : Properties)
    (distinct : ((entries lines).map fun entry => (pair entry).1).Nodup) (key : LogString) :
    (lines.foldl setLine properties)[key]? =
      (((entries lines).map pair).lookup key).or properties[key]? := by
  induction lines generalizing properties with
  | nil => rfl
  | cons line lines ih =>
      cases line with
      | blank indent ending => exact ih properties distinct
      | comment indent begins text ending => exact ih properties distinct
      | entry indent entry ending =>
          have cons : entries (.entry indent entry ending :: lines) = entry :: entries lines := rfl
          rw [cons, List.map_cons, List.nodup_cons] at distinct
          rw [cons, List.map_cons, List.foldl_cons, setLine]
          have found : (pair entry).1 = key ∨ (pair entry).1 ≠ key := eq_or_ne _ _
          rcases found with same | other
          · have absent : ∀ other ∈ entries lines, (pair other).1 ≠ key := by
              intro other member again
              exact distinct.1 (List.mem_map.mpr ⟨other, member, again.trans same.symm⟩)
            rw [foldl_setLine_other _ absent, setProperty_get, if_pos same]
            have first : (pair entry :: (entries lines).map pair).lookup key =
                some (pair entry).2 := by
              rw [List.lookup_cons, ← same, beq_self_eq_true]
            rw [first]
            rfl
          · have later : (pair entry :: (entries lines).map pair).lookup key =
                ((entries lines).map pair).lookup key := by
              rw [List.lookup_cons, beq_false_of_ne (Ne.symm other)]
            rw [later, ih _ distinct.2, setProperty_get, if_neg other]

/-- The last line that is not read again leaves its trace. -/
theorem run_lines_wrong {lines : List Line} {properties : Properties} {next : PropertyParser}
    (distinct : ((entries lines).map fun entry => (pair entry).1).Nodup)
    (unreadable : ∃ line ∈ lines, ¬ ReadableLine line)
    (ran : run ⟨.begin, [], [], properties⟩ (linesText lines) = some next) :
    Tainted next ∨ next = ⟨.begin, [], [], next.properties⟩ ∧ ∃ entry ∈ entries lines,
      next.properties[(pair entry).1]? ≠ some (pair entry).2 := by
  induction lines generalizing properties with
  | nil =>
      obtain ⟨line, member, _⟩ := unreadable
      exact absurd member List.not_mem_nil
  | cons line lines ih =>
      rw [entries_cons, List.map_append] at distinct
      obtain ⟨_, distinctLater, disjoint⟩ := List.nodup_append.mp distinct
      rw [linesText, List.flatMap_cons, run_append] at ran
      obtain ⟨middle, ranLine, ranLines⟩ := Option.bind_eq_some_iff.mp ran
      rw [entries_cons]
      by_cases later : ∃ line ∈ lines, ¬ ReadableLine line
      · have goes : ∀ {properties}, middle = ⟨.begin, [], [], properties⟩ → Tainted next ∨
            next = ⟨.begin, [], [], next.properties⟩ ∧ ∃ entry ∈ entries [line] ++ entries lines,
              next.properties[(pair entry).1]? ≠ some (pair entry).2 := by
          rintro properties rfl
          refine (ih distinctLater later ranLines).imp_right fun wrong => ?_
          obtain ⟨begins, entry, member, different⟩ := wrong
          exact ⟨begins, entry, List.mem_append_right _ member, different⟩
        by_cases readable : ReadableLine line
        · rw [run_line_readable readable] at ranLine
          exact goes (Option.some.inj ranLine).symm
        · rcases run_line_wrong readable ranLine with tainted | ⟨begins, _⟩
          · exact Or.inl (run_tainted tainted ranLines)
          · exact goes begins
      · have readable : ∀ line ∈ lines, ReadableLine line := by
          intro line member
          by_contra unreadable
          exact later ⟨line, member, unreadable⟩
        have this : ¬ ReadableLine line := by
          obtain ⟨other, member, unread⟩ := unreadable
          rcases List.mem_cons.mp member with rfl | inside
          · exact unread
          · exact absurd (readable other inside) unread
        rcases run_line_wrong this ranLine with tainted | ⟨begins, entry, member, different⟩
        · exact Or.inl (run_tainted tainted ranLines)
        · rw [begins] at ranLines
          have ended := Option.some.inj ((run_lines_readable readable _).symm.trans ranLines)
          rw [← ended]
          refine Or.inr ⟨rfl, entry, List.mem_append_left _ member, ?_⟩
          have absent : ∀ other ∈ entries lines, (pair other).1 ≠ (pair entry).1 := by
            intro other inside same
            exact disjoint _ (List.mem_map.mpr ⟨entry, member, rfl⟩) _
              (List.mem_map.mpr ⟨other, inside, rfl⟩) same.symm
          rw [foldl_setLine_other _ absent]
          exact different

/-- Without tabs among the blanks a key with a tab stops the parser. -/
theorem run_lines_stop {lines : List Line} {properties : Properties}
    (spaces : ∀ line ∈ lines, .tab ∉ lineBlanks line)
    (tabbed : ∃ entry ∈ entries lines, '\t' ∈ (pair entry).1) :
    run ⟨.begin, [], [], properties⟩ (linesText lines) = none := by
  induction lines generalizing properties with
  | nil =>
      obtain ⟨entry, member, _⟩ := tabbed
      exact absurd member List.not_mem_nil
  | cons line lines ih =>
      rw [linesText, List.flatMap_cons, run_append]
      cases ran : run ⟨.begin, [], [], properties⟩ (lineText line) with
      | none => rfl
      | some middle =>
          obtain ⟨begins, returns⟩ := run_line_returns (spaces line (List.mem_cons_self ..)) ran
          rw [Option.bind_some, begins]
          apply ih fun other member => spaces other (List.mem_cons_of_mem _ member)
          obtain ⟨entry, member, inside⟩ := tabbed
          rw [entries_cons, List.mem_append] at member
          rcases member with first | later
          · cases line with
            | blank indent ending => exact absurd first List.not_mem_nil
            | comment indent begins text ending => exact absurd first List.not_mem_nil
            | entry indent this ending =>
                obtain rfl := List.mem_singleton.mp first
                exact absurd inside (returns indent entry ending rfl).1.1
          · exact ⟨entry, later, inside⟩

end PropertyParser

namespace Document

open PropertiesText PropertyParser

/-- Tabs that get into a key could make up a key that has a tab by itself. -/
def TabsCoincide (self : Document) : Prop :=
  (∃ line ∈ self.lines, .tab ∈ lineBlanks line) ∧
    ∃ entry ∈ entries self.lines, '\t' ∈ (pair entry).1

theorem lookup_pair {list : List PropertyEntry}
    (distinct : (list.map fun entry => (pair entry).1).Nodup) {entry : PropertyEntry}
    (member : entry ∈ list) : (list.map pair).lookup (pair entry).1 = some (pair entry).2 := by
  induction list with
  | nil => exact absurd member List.not_mem_nil
  | cons first others ih =>
      rw [List.map_cons, List.nodup_cons] at distinct
      rw [List.map_cons, List.lookup_cons]
      rcases List.mem_cons.mp member with rfl | later
      · rw [beq_self_eq_true]
      · have other : (pair entry).1 ≠ (pair first).1 := by
          intro same
          exact distinct.1 (List.mem_map.mpr ⟨entry, later, same⟩)
        rw [beq_false_of_ne other]
        exact ih distinct.2 later

/-- A document is read again when each of its lines is, and hardly any other document is. -/
theorem roundTrips_iff (self : Document) :
    ((∀ line ∈ self.lines, ReadableLine line) → self.RoundTrips) ∧
      (self.RoundTrips → (∀ line ∈ self.lines, ReadableLine line) ∨ self.TabsCoincide) := by
  constructor
  · intro readable
    have ran := run_lines_readable readable ∅
    have loaded : (run ⟨.begin, [], [], ∅⟩ self.text).map finish =
        some (self.lines.foldl setLine ∅) := congrArg (Option.map finish) ran
    obtain ⟨fuel, parsed⟩ := Properties.load_iff.mpr loaded
    refine ⟨fuel, _, parsed, fun key => ?_⟩
    rw [foldl_setLine_get ∅ self.distinct, LogMap.empty_get, Option.or_none]
    rfl
  · rintro ⟨fuel, result, parsed, exact⟩
    by_contra neither
    rw [not_or] at neither
    have loaded := Properties.load_iff.mp ⟨fuel, parsed⟩
    obtain ⟨last, ran, finished⟩ := Option.map_eq_some_iff.mp loaded
    have unreadable : ∃ line ∈ self.lines, ¬ ReadableLine line := by
      by_contra missing
      apply neither.1
      intro line member
      by_contra unread
      exact missing ⟨line, member, unread⟩
    have clear : ∀ entry ∈ entries self.lines, '\t' ∉ (pair entry).1 := by
      intro entry member inside
      have spaces : ∀ line ∈ self.lines, .tab ∉ lineBlanks line := by
        intro line within tabbed
        exact neither.2 ⟨⟨line, within, tabbed⟩, entry, member, inside⟩
      have stopped : run ⟨.begin, [], [], ∅⟩ self.text = none :=
        run_lines_stop spaces ⟨entry, member, inside⟩
      rw [ran] at stopped
      exact absurd stopped (Option.some_ne_none last)
    rcases run_lines_wrong self.distinct unreadable ran with
      tainted | ⟨begins, entry, member, different⟩
    · have present : ∃ key : LogString, '\t' ∈ key ∧ result[key]? ≠ none := by
        rw [← finished, finish]
        split
        · exact tainted_set tainted last.element
        · rename_i nothing
          rw [not_not] at nothing
          exact tainted.resolve_left fun inside => by
            rw [nothing] at inside
            exact List.not_mem_nil inside
      obtain ⟨key, inside, found⟩ := present
      apply found
      rw [exact, pairs, List.lookup_eq_none_iff]
      intro other member
      obtain ⟨entry, written, rfl⟩ := List.mem_map.mp member
      rw [bne_iff_ne]
      rintro rfl
      exact clear entry written inside
    · rw [begins] at finished
      have same : result = last.properties := finished.symm
      apply different
      rw [← same, exact]
      exact lookup_pair self.distinct member

/-- One letter is written without continuations. -/
def single (letter : {c : Char // isLetter c = true}) : Written where
  pieces := [.letter letter.val]
  legal := by
    intro c member
    rw [List.mem_singleton.mp member]
    exact letter.property
  inside := by rintro self ⟨⟩

/-- This key is a number sign, which has a backslash in front of it. -/
def signKey : Document where
  lines := [.entry [] {
    key := single ⟨'#', rfl⟩
    separator := ⟨[], .equals, []⟩
    element := single ⟨'v', rfl⟩
    named := by decide
    starts := by
      rintro c ⟨⟩
      decide
    separated := by decide } .lf]
  distinct := by decide

theorem signKey_stops : ¬ signKey.RoundTrips := by
  rintro ⟨fuel, result, parsed, _⟩
  have loaded := Properties.load_iff.mp ⟨fuel, parsed⟩
  have stopped : run ⟨.begin, [], [], ∅⟩ signKey.text = none := rfl
  rw [stopped] at loaded
  exact absurd loaded (by simp)

/-- The key is a tab, which is passed over as an element, and a blank line sets it by chance. -/
def tabKey : Document where
  lines := [.entry [.tab, .space] {
    key := single ⟨'\t', rfl⟩
    separator := ⟨[], .none, []⟩
    element := ⟨[], by rintro c ⟨⟩, by rintro self ⟨⟩⟩
    named := by decide
    starts := by rintro c ⟨⟩
    separated := by decide } .lf, .blank [.tab] .lf]
  distinct := by decide

/-- Where tabs coincide a document may be read again by chance. -/
theorem tabKey_roundTrips : tabKey.RoundTrips := by
  have loaded : (run ⟨.begin, [], [], ∅⟩ tabKey.text).map finish = some
      ((Properties.setProperty ∅ ['\t'] ['\t']).setProperty ['\t'] []) := rfl
  obtain ⟨fuel, parsed⟩ := Properties.load_iff.mpr loaded
  refine ⟨fuel, _, parsed, fun key => ?_⟩
  rw [setProperty_get, setProperty_get, LogMap.empty_get]
  have pairs : tabKey.pairs = [(['\t'], [])] := rfl
  rw [pairs, List.lookup_cons, List.lookup_nil]
  by_cases same : ['\t'] = key
  · rw [if_pos same, ← same, beq_self_eq_true]
  · rw [if_neg same, if_neg same, beq_false_of_ne (Ne.symm same)]

end Document

end CodeCollect.Log4cxx
