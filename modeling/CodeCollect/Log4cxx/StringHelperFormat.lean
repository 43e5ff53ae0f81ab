import CodeCollect.Log4cxx.LogString

namespace CodeCollect.Log4cxx.StringHelper

/-- Behind its last character a string has a null character. -/
def NUL : Char := '\x00'

/-- This is the parameter that a digit names. -/
def argument (digit : Char) : Nat := digit.toNat - '0'.toNat

/-- This is the loop of `format` over the rest of the pattern, which fails when it reads a
parameter that does not exist. -/
def formatFrom (params : List LogString) (pattern result : LogString) : Option LogString :=
  match pattern with
  | [] => some result
  | c :: rest =>
      if c = NUL then some result
      else if c = '\x7b' ∧ (rest.getD 0 NUL).isDigit = true ∧ rest.getD 1 NUL = '\x7d' then
        match params[argument (rest.getD 0 NUL)]? with
        | none => none
        | some param => formatFrom params (rest.drop 2) (result ++ param)
      else formatFrom params rest (result ++ [c])
termination_by pattern.length
decreasing_by
  · rw [List.length_drop, List.length_cons]
    omega
  · exact Nat.lt_succ_self _

def format (pattern : LogString) (params : List LogString) : Option LogString :=
  formatFrom params pattern []

/-- These characters spell a placeholder. -/
def placeholder (digit : Char) : LogString := ['\x7b', digit, '\x7d']

/-- Each placeholder whose index is in range is replaced, and all other text is unchanged. -/
inductive Formatted (params : List LogString) : LogString → LogString → Prop where
  | nil : Formatted params [] []
  | replaced {digit : Char} {param rest result : LogString} (decimal : digit.isDigit = true)
      (found : params[argument digit]? = some param) (further : Formatted params rest result) :
      Formatted params (placeholder digit ++ rest) (param ++ result)
  | kept {c : Char} {rest result : LogString}
      (other : ∀ digit, digit.isDigit = true → placeholder digit <+: c :: rest →
        params.length ≤ argument digit)
      (further : Formatted params rest result) : Formatted params (c :: rest) (c :: result)

/-- The pattern has no null character, and its placeholders have parameters. -/
def Fits (params : List LogString) (pattern : LogString) : Prop :=
  NUL ∉ pattern ∧ ∀ digit, digit.isDigit = true → placeholder digit <:+: pattern →
    argument digit < params.length

variable {params : List LogString}

/-- The function recognizes a placeholder by three places of the pattern. -/
theorem opens_iff (c : Char) (rest : LogString) :
    (c = '\x7b' ∧ (rest.getD 0 NUL).isDigit = true ∧ rest.getD 1 NUL = '\x7d') ↔
      (rest.getD 0 NUL).isDigit = true ∧
        c :: rest = placeholder (rest.getD 0 NUL) ++ rest.drop 2 := by
  cases rest with
  | nil => simp [NUL]
  | cons digit rest =>
      cases rest with
      | nil => simp [placeholder, NUL]
      | cons last rest =>
          simp only [placeholder, List.getD_cons_zero, List.getD_cons_succ, List.drop_succ_cons,
            List.drop_zero, List.cons_append, List.nil_append, List.cons.injEq, and_true, true_and]
          tauto

theorem placeholder_injective {digit other : Char} {rest further : LogString}
    (same : placeholder digit ++ rest = placeholder other ++ further) :
    digit = other ∧ rest = further := by
  simp only [placeholder, List.cons_append, List.nil_append, List.cons.injEq, true_and] at same
  exact same

/-- A placeholder in a text behind another one is that one, or it is behind it. -/
theorem placeholder_infix_iff {digit other : Char} (decimal : digit.isDigit = true)
    (rest : LogString) : placeholder other <:+: placeholder digit ++ rest ↔
      other = digit ∨ placeholder other <:+: rest := by
  have brace : digit ≠ '\x7b' := by
    rintro rfl
    exact absurd decimal (by decide)
  have here : placeholder other <+: placeholder digit ++ rest ↔ other = digit := by
    constructor
    · rintro ⟨further, same⟩
      exact (placeholder_injective same).1
    · rintro rfl
      exact List.prefix_append _ _
  have second : ¬ placeholder other <+: digit :: '\x7d' :: rest := fun starts =>
    brace (List.cons_prefix_cons.mp starts).1.symm
  have third : ¬ placeholder other <+: '\x7d' :: rest := fun starts =>
    absurd (List.cons_prefix_cons.mp starts).1 (by decide)
  have behind : placeholder other <:+: digit :: '\x7d' :: rest ↔ placeholder other <:+: rest := by
    rw [List.infix_cons_iff, List.infix_cons_iff, or_iff_right second, or_iff_right third]
  rw [← here, ← behind]
  exact List.infix_cons_iff

theorem fits_placeholder_iff {digit : Char} (decimal : digit.isDigit = true) (rest : LogString) :
    Fits params (placeholder digit ++ rest) ↔
      argument digit < params.length ∧ Fits params rest := by
  have null : NUL ∈ placeholder digit ++ rest ↔ NUL ∈ rest := by
    have other : NUL ≠ digit := by
      rintro rfl
      exact absurd decimal (by decide)
    rw [List.mem_append, or_iff_right]
    simp only [placeholder, List.mem_cons, List.not_mem_nil, or_false, not_or]
    exact ⟨by decide, other, by decide⟩
  rw [Fits, Fits, null]
  simp only [placeholder_infix_iff decimal]
  constructor
  · intro fits
    exact ⟨fits.2 digit decimal (Or.inl rfl), fits.1, fun other digits inside =>
      fits.2 other digits (Or.inr inside)⟩
  · rintro ⟨range, absent, fits⟩
    refine ⟨absent, fun other digits inside => ?_⟩
    rcases inside with rfl | inside
    · exact range
    · exact fits other digits inside

theorem fits_cons_iff {c : Char} {rest : LogString} (other : ∀ digit, digit.isDigit = true →
    ¬ placeholder digit <+: c :: rest) :
    Fits params (c :: rest) ↔ NUL ≠ c ∧ Fits params rest := by
  rw [Fits, Fits, List.mem_cons, not_or, and_assoc]
  apply and_congr_right
  intro _
  apply and_congr_right
  intro _
  apply forall_congr'
  intro digit
  apply imp_congr_right
  intro decimal
  rw [List.infix_cons_iff, or_iff_right (other digit decimal)]

/-- A placeholder in range is replaced. -/
theorem formatted_placeholder {digit : Char} {param rest output : LogString}
    (decimal : digit.isDigit = true) (found : params[argument digit]? = some param)
    (formatted : Formatted params (placeholder digit ++ rest) output) :
    ∃ result, output = param ++ result ∧ Formatted params rest result := by
  generalize same : placeholder digit ++ rest = pattern at formatted
  cases formatted with
  | nil => exact absurd same (List.cons_ne_nil _ _)
  | replaced other present further =>
      obtain ⟨rfl, rfl⟩ := placeholder_injective same
      exact ⟨_, congrArg (· ++ _) (Option.some.inj (present.symm.trans found)), further⟩
  | kept other further =>
      have range := other digit decimal (same ▸ List.prefix_append _ _)
      rw [List.getElem?_eq_none range] at found
      exact absurd found (by simp)

/-- Other characters are kept. -/
theorem formatted_cons {c : Char} {rest output : LogString}
    (other : ∀ digit, digit.isDigit = true → ¬ placeholder digit <+: c :: rest)
    (formatted : Formatted params (c :: rest) output) :
    ∃ result, output = c :: result ∧ Formatted params rest result := by
  generalize same : c :: rest = pattern at formatted
  cases formatted with
  | nil => exact absurd same (List.cons_ne_nil _ _)
  | replaced decimal _ _ => exact absurd (same ▸ List.prefix_append _ _) (other _ decimal)
  | kept _ further =>
      obtain ⟨rfl, rfl⟩ := List.cons.inj same
      exact ⟨_, rfl, further⟩

/-- From any point on the loop completes the result exactly when the rest of the pattern fits. -/
theorem formatFrom_iff (pattern result : LogString) :
    (∃ output, formatFrom params pattern result = some (result ++ output) ∧
      Formatted params pattern output) ↔ Fits params pattern := by
  fun_induction formatFrom params pattern result with
  | case1 result =>
      refine iff_of_true ⟨[], by rw [List.append_nil], .nil⟩ ⟨List.not_mem_nil, ?_⟩
      intro digit _ inside
      exact absurd (List.infix_nil.mp inside) (List.cons_ne_nil _ _)
  | case2 result rest =>
      have other : ∀ digit, digit.isDigit = true → ¬ placeholder digit <+: NUL :: rest :=
        fun _ _ starts => absurd (List.cons_prefix_cons.mp starts).1 (by decide)
      refine iff_of_false (fun ends => ?_) fun fits => fits.1 List.mem_cons_self
      obtain ⟨output, stops, formatted⟩ := ends
      obtain ⟨result, rfl, _⟩ := formatted_cons other formatted
      exact absurd (Option.some.inj stops) (by simp)
  | case3 result c rest passes opens missing =>
      obtain ⟨decimal, same⟩ := (opens_iff c rest).mp opens
      rw [same, fits_placeholder_iff decimal]
      refine iff_of_false (fun ends => ?_) fun fits => ?_
      · obtain ⟨_, stops, _⟩ := ends
        exact absurd stops (by simp)
      · rw [List.getElem?_eq_getElem fits.1] at missing
        exact absurd missing (by simp)
  | case4 result c rest passes opens param found ih =>
      obtain ⟨decimal, same⟩ := (opens_iff c rest).mp opens
      have range : argument (rest.getD 0 NUL) < params.length :=
        (List.getElem?_eq_some_iff.mp found).1
      rw [same, fits_placeholder_iff decimal, ← ih]
      constructor
      · rintro ⟨output, ends, formatted⟩
        obtain ⟨further, rfl, onward⟩ := formatted_placeholder decimal found formatted
        exact ⟨range, further, by rw [ends, List.append_assoc], onward⟩
      · rintro ⟨_, output, ends, formatted⟩
        exact ⟨param ++ output, by rw [ends, List.append_assoc], .replaced decimal found formatted⟩
  | case5 result c rest passes plain ih =>
      have other : ∀ digit, digit.isDigit = true → ¬ placeholder digit <+: c :: rest := by
        rintro digit decimal ⟨further, same⟩
        obtain ⟨rfl, rfl⟩ := List.cons.inj same
        exact plain ⟨rfl, decimal, rfl⟩
      rw [fits_cons_iff other, ← ih]
      constructor
      · rintro ⟨output, ends, formatted⟩
        obtain ⟨further, rfl, onward⟩ := formatted_cons other formatted
        exact ⟨Ne.symm passes, further, by rw [ends, List.append_assoc, List.singleton_append],
          onward⟩
      · rintro ⟨_, output, ends, formatted⟩
        exact ⟨c :: output, by rw [ends, List.append_assoc, List.singleton_append],
          .kept (fun digit decimal starts => absurd starts (other digit decimal)) formatted⟩

/-- The text is formatted, without a read outside the parameters, exactly for these patterns. -/
theorem format_iff (pattern : LogString) (params : List LogString) :
    (∃ output, format pattern params = some output ∧ Formatted params pattern output) ↔
      Fits params pattern :=
  formatFrom_iff pattern []

/-- The sixth of no parameters is read. -/
theorem format_outside : ¬ ∀ (pattern : LogString) (params : List LogString),
    ∃ output, format pattern params = some output ∧ Formatted params pattern output := by
  intro always
  obtain ⟨output, formatted, _⟩ := always (placeholder '5') []
  have outside : format (placeholder '5') [] = none := by
    simp [format, formatFrom, placeholder, NUL]
  rw [outside] at formatted
  exact absurd formatted (by simp)

end CodeCollect.Log4cxx.StringHelper
