import Mathlib

namespace CodeCollect.Library

variable {α : Type*}

/-- The first name is a proper prefix of the second name and ends at a separator. -/
def Above (separator : α) (upper lower : List α) : Prop :=
  ∃ rest, lower = upper ++ separator :: rest

namespace Above

variable {separator : α} {upper middle lower : List α}

theorem length_lt (above : Above separator upper lower) : upper.length < lower.length := by
  obtain ⟨rest, rfl⟩ := above
  simp

theorem isPrefix (above : Above separator upper lower) : upper <+: lower := by
  obtain ⟨rest, rfl⟩ := above
  exact List.prefix_append _ _

/-- A prefix is above a name exactly when the separator follows it. -/
theorem iff_getElem? : Above separator upper lower ↔
    upper <+: lower ∧ lower[upper.length]? = some separator := by
  constructor
  · rintro ⟨rest, rfl⟩
    simp
  · rintro ⟨⟨rest, rfl⟩, next⟩
    cases rest with
    | nil => simp at next
    | cons head tail =>
        rw [List.getElem?_append_right (Nat.le_refl _), Nat.sub_self] at next
        exact ⟨tail, by rw [Option.some.inj next]⟩

instance [DecidableEq α] : Decidable (Above separator upper lower) :=
  decidable_of_iff _ iff_getElem?.symm

theorem trans (first : Above separator upper middle) (second : Above separator middle lower) :
    Above separator upper lower := by
  obtain ⟨rest, rfl⟩ := first
  obtain ⟨tail, rfl⟩ := second
  exact ⟨rest ++ separator :: tail, by simp⟩

theorem ne (above : Above separator upper lower) : upper ≠ lower := by
  intro same
  have shorter := above.length_lt
  rw [same] at shorter
  exact Nat.lt_irrefl _ shorter

/-- Two names above a third one are the same name when they have the same length. -/
theorem eq_of_length (first : Above separator upper lower) (second : Above separator middle lower)
    (same : upper.length = middle.length) : upper = middle :=
  (List.prefix_of_prefix_length_le first.isPrefix second.isPrefix (Nat.le_of_eq same)).eq_of_length
    same

/-- Two names above a third one are comparable. -/
theorem of_length_lt (first : Above separator upper lower) (second : Above separator middle lower)
    (shorter : upper.length < middle.length) : Above separator upper middle := by
  rw [iff_getElem?] at first ⊢
  have between := List.prefix_of_prefix_length_le first.1 second.isPrefix (Nat.le_of_lt shorter)
  refine ⟨between, ?_⟩
  obtain ⟨rest, same⟩ := second.isPrefix
  rw [← same, List.getElem?_append_left shorter] at first
  exact first.2

end Above

/-- The nearest name above a name, among a set of names, when there is one. -/
def IsNearest (separator : α) (names : Set (List α)) (name : List α) : Option (List α) → Prop
  | none => ∀ other ∈ names, ¬ Above separator other name
  | some nearest => nearest ∈ names ∧ Above separator nearest name ∧
      ∀ other ∈ names, Above separator other name → other.length ≤ nearest.length

namespace IsNearest

variable {separator : α} {names : Set (List α)} {name new : List α} {nearest other : Option (List α)}

/-- There is at most one nearest name. -/
theorem unique (first : IsNearest separator names name nearest)
    (second : IsNearest separator names name other) : nearest = other := by
  cases nearest with
  | none =>
      cases other with
      | none => rfl
      | some above => exact absurd second.2.1 (first above second.1)
  | some above =>
      cases other with
      | none => exact absurd first.2.1 (second above first.1)
      | some below =>
          have same := Nat.le_antisymm (second.2.2 above first.1 first.2.1)
            (first.2.2 below second.1 second.2.1)
          exact congrArg some (first.2.1.eq_of_length second.2.1 same)

/-- A new name that is not above this name changes nothing for it. -/
theorem insert_apart (holds : IsNearest separator names name nearest)
    (apart : ¬ Above separator new name) : IsNearest separator (insert new names) name nearest := by
  cases nearest with
  | none =>
      rintro candidate (rfl | member)
      · exact apart
      · exact holds candidate member
  | some above =>
      refine ⟨Or.inr holds.1, holds.2.1, ?_⟩
      rintro candidate (rfl | member) found
      · exact absurd found apart
      · exact holds.2.2 candidate member found

/-- A new name above the nearest one is not nearer. -/
theorem insert_farther {above : List α} (holds : IsNearest separator names name (some above))
    (farther : new.length ≤ above.length) :
    IsNearest separator (insert new names) name (some above) := by
  refine ⟨Or.inr holds.1, holds.2.1, ?_⟩
  rintro candidate (rfl | member) found
  · exact farther
  · exact holds.2.2 candidate member found

/-- A new name below the nearest one becomes the nearest. -/
theorem insert_nearer (holds : IsNearest separator names name nearest)
    (found : Above separator new name)
    (nearer : ∀ above, nearest = some above → above.length ≤ new.length) :
    IsNearest separator (insert new names) name (some new) := by
  refine ⟨Or.inl rfl, found, ?_⟩
  rintro candidate (rfl | member) candidateFound
  · exact Nat.le_refl _
  · cases nearest with
    | none => exact absurd candidateFound (holds candidate member)
    | some above => exact (holds.2.2 candidate member candidateFound).trans (nearer above rfl)

/-- A name is not above itself, so its own presence does not matter. -/
theorem of_insert_self (holds : IsNearest separator (insert name names) name nearest) :
    IsNearest separator names name nearest := by
  cases nearest with
  | none => exact fun other member => holds other (Or.inr member)
  | some above =>
      obtain ⟨rfl | member, found, last⟩ := holds
      · exact absurd rfl found.ne
      · exact ⟨member, found, fun other inside => last other (Or.inr inside)⟩

end IsNearest

end CodeCollect.Library
