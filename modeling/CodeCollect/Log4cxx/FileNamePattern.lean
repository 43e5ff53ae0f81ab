import CodeCollect.Log4cxx.LogString

namespace CodeCollect.Log4cxx

/-- The default has no minimal length and the greatest `int` as its maximal length. -/
structure FormattingInfo where
  leftAlign : Bool
  minLength : Nat
  maxLength : Nat
deriving DecidableEq, Repr

def FormattingInfo.getDefault : FormattingInfo := ⟨false, 0, 2147483647⟩

/-- This function adjusts one field, which is the end of the buffer from `fieldStart`. -/
def FormattingInfo.format (self : FormattingInfo) (field : LogString) : LogString :=
  if field.length > self.maxLength then field.drop (field.length - self.maxLength)
  else if field.length < self.minLength then
    if self.leftAlign then field ++ List.replicate (self.minLength - field.length) ' '
    else List.replicate (self.minLength - field.length) ' ' ++ field
  else field

/-- A fixed window policy knows only the specifiers for the index. -/
inductive PatternConverter where
  | literal (text : LogString)
  | integer
deriving DecidableEq, Repr

def PatternConverter.format (index : Int) : PatternConverter → LogString
  | .literal text => text
  | .integer => StringHelper.toString index

/-- The parsed pattern pairs each converter with its field. -/
abbrev FileNamePattern := List (PatternConverter × FormattingInfo)

namespace FileNamePattern

def formatFileName (self : FileNamePattern) (index : Int) : LogString :=
  self.flatMap fun (converter, info) => info.format (converter.format index)

/-- A rendered index holds these characters only, before and after the padding. -/
def IndexText (text : LogString) : Prop :=
  ∀ c ∈ text, c = '-' ∨ c = ' ' ∨ c.isDigit = true

theorem indexText_format (info : FormattingInfo) (index : Int) :
    IndexText (info.format (PatternConverter.integer.format index)) := by
  have digits : ∀ c ∈ StringHelper.toString index, c = '-' ∨ c = ' ' ∨ c.isDigit = true :=
    fun c member => (StringHelper.mem_toString index c member).imp_right Or.inr
  have blanks : ∀ n, ∀ c ∈ List.replicate n ' ', c = '-' ∨ c = ' ' ∨ c.isDigit = true :=
    fun n c member => Or.inr (Or.inl (List.eq_of_mem_replicate member))
  intro c member
  rw [FormattingInfo.format, PatternConverter.format] at member
  split at member
  · exact digits c (List.mem_of_mem_drop member)
  · split at member
    · split at member
      · exact (List.mem_append.mp member).elim (digits c) (blanks _ c)
      · exact (List.mem_append.mp member).elim (blanks _ c) (digits c)
    · exact digits c member

/-- Whether the field of the index is empty depends on its format alone. -/
theorem format_eq_nil_iff (info : FormattingInfo) (index : Int) :
    info.format (PatternConverter.integer.format index) = [] ↔ info.maxLength = 0 := by
  have positive : 0 < (StringHelper.toString index).length :=
    List.length_pos_iff.mpr (StringHelper.toString_ne_nil index)
  rw [FormattingInfo.format, PatternConverter.format]
  split
  · rename_i longer
    rw [List.drop_eq_nil_iff]
    omega
  · split
    · split <;> simp <;> omega
    · rw [← List.length_eq_zero_iff]
      omega

/-- A pattern without any text for one index has none for the others. -/
theorem formatFileName_eq_nil (self : FileNamePattern) {i : Int} (j : Int)
    (empty : self.formatFileName i = []) : self.formatFileName j = [] := by
  rw [formatFileName, List.flatMap_eq_nil_iff] at empty ⊢
  intro (converter, info) member
  have field := empty (converter, info) member
  cases converter with
  | literal text => exact field
  | integer => exact (format_eq_nil_iff info j).mpr ((format_eq_nil_iff info i).mp field)

/-- Two texts end in the same literals. -/
def SameEnd (first second : LogString) : Prop :=
  ∀ suffix : LogString, (∀ c ∈ suffix, ¬ (c = '-' ∨ c = ' ' ∨ c.isDigit = true)) →
    (suffix <:+ first ↔ suffix <:+ second)

theorem SameEnd.append_same {first second : LogString} (same : SameEnd first second)
    (text : LogString) : SameEnd (first ++ text) (second ++ text) := by
  induction text using List.reverseRecOn with
  | nil => simpa using same
  | append_singleton text c ih =>
      intro suffix literal
      rw [← List.append_assoc, ← List.append_assoc, List.suffix_concat_iff,
        List.suffix_concat_iff]
      refine or_congr_right (exists_congr fun front => and_congr_right fun split => ?_)
      exact ih front fun c member => literal c (by simp [split, member])

/-- A literal suffix cannot reach into the text of an index. -/
theorem suffix_index (front text suffix : LogString) (indexText : IndexText text)
    (filled : text ≠ []) (literal : ∀ c ∈ suffix, ¬ (c = '-' ∨ c = ' ' ∨ c.isDigit = true)) :
    suffix <:+ front ++ text ↔ suffix = [] := by
  obtain ⟨start, last, rfl⟩ := (List.eq_nil_or_concat text).resolve_left filled
  rw [List.concat_eq_append] at indexText ⊢
  rw [← List.append_assoc, List.suffix_concat_iff]
  refine or_iff_left ?_
  rintro ⟨rest, split, _⟩
  exact literal last (by simp [split]) (indexText last (by simp))

theorem sameEnd_formatFileName (self : FileNamePattern) (i j : Int) :
    SameEnd (self.formatFileName i) (self.formatFileName j) := by
  induction self using List.reverseRecOn with
  | nil => exact fun _ _ => Iff.rfl
  | append_singleton pattern last ih =>
      obtain ⟨converter, info⟩ := last
      have split : ∀ index, formatFileName (pattern ++ [(converter, info)]) index =
          formatFileName pattern index ++ info.format (converter.format index) := by
        intro index
        simp [formatFileName]
      rw [split, split]
      cases converter with
      | literal text => exact ih.append_same _
      | integer =>
          by_cases empty : info.maxLength = 0
          · rw [(format_eq_nil_iff info i).mpr empty, (format_eq_nil_iff info j).mpr empty]
            exact ih.append_same []
          · intro suffix literal
            have filled := fun index => (format_eq_nil_iff info index).not.mpr empty
            rw [suffix_index _ _ _ (indexText_format info i) (filled i) literal,
              suffix_index _ _ _ (indexText_format info j) (filled j) literal]

/-- All names of one pattern have the same number of these letters. -/
theorem count_formatFileName (self : FileNamePattern) (i j : Int) (c : Char)
    (literal : ¬ (c = '-' ∨ c = ' ' ∨ c.isDigit = true)) :
    (self.formatFileName i).count c = (self.formatFileName j).count c := by
  induction self with
  | nil => rfl
  | cons first rest ih =>
      obtain ⟨converter, info⟩ := first
      simp only [formatFileName, List.flatMap_cons, List.count_append] at ih ⊢
      rw [ih]
      congr 1
      cases converter with
      | literal text => rfl
      | integer =>
          rw [List.count_eq_zero.mpr fun member => literal (indexText_format info i c member),
            List.count_eq_zero.mpr fun member => literal (indexText_format info j c member)]

end FileNamePattern

end CodeCollect.Log4cxx
