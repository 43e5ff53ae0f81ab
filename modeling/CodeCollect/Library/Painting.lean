import Mathlib

/-!
# Painting

A picture that is painted write by write, where a later write covers an earlier one.
-/

namespace CodeCollect.Library.Painting

variable {Place Color : Type*} [DecidableEq Place]

/-- The picture after some writes. -/
def paint (background : Place → Color) (writes : List (Place × Color)) : Place → Color :=
  writes.foldl (fun picture write => Function.update picture write.1 write.2) background

@[simp] theorem paint_nil (background : Place → Color) : paint background [] = background := rfl

theorem paint_concat (background : Place → Color) (writes : List (Place × Color))
    (write : Place × Color) :
    paint background (writes ++ [write]) =
      Function.update (paint background writes) write.1 write.2 := by
  rw [paint, List.foldl_append]
  rfl

/-- A place that no write names keeps the background. -/
theorem paint_of_unwritten {background : Place → Color} {writes : List (Place × Color)}
    {place : Place} (unwritten : ∀ write ∈ writes, write.1 ≠ place) :
    paint background writes place = background place := by
  induction writes using List.reverseRecOn with
  | nil => rfl
  | append_singleton writes write ih =>
      have last : write.1 ≠ place := unwritten write (by simp)
      rw [paint_concat, Function.update_of_ne last.symm]
      apply ih
      intro earlier member
      exact unwritten earlier (List.mem_append_left _ member)

/-- Where the writes at a place all have one color, the place shows it. -/
theorem paint_of_written {background : Place → Color} {writes : List (Place × Color)} {place : Place}
    {color : Color} (written : (place, color) ∈ writes)
    (same : ∀ write ∈ writes, write.1 = place → write.2 = color) :
    paint background writes place = color := by
  induction writes using List.reverseRecOn with
  | nil => exact absurd written List.not_mem_nil
  | append_singleton writes write ih =>
      rw [paint_concat]
      rcases eq_or_ne write.1 place with here | elsewhere
      · rw [← here, Function.update_self]
        exact same write (by simp) here
      · rw [Function.update_of_ne elsewhere.symm]
        apply ih
        · rcases List.mem_append.mp written with earlier | last
          · exact earlier
          · exact absurd (congrArg Prod.fst (List.mem_singleton.mp last)).symm elsewhere
        · intro earlier member
          exact same earlier (List.mem_append_left _ member)

end CodeCollect.Library.Painting
