import Mathlib

namespace CodeCollect.Library

variable {A : Type*} [LinearOrder A]

/-- The smaller ones of two values and a third one. -/
def keepTwo (kept : A × A) (value : A) : A × A :=
  (min kept.1 value, min kept.2 (max kept.1 value))

instance : RightCommutative (keepTwo (A := A)) where
  right_comm kept first second := by
    unfold keepTwo
    grind

/-- The two smallest ones of two values and a collection. -/
def twoSmallest (kept : A × A) (values : Multiset A) : A × A := values.foldl keepTwo kept

/-- The smallest one of a value and a collection. -/
def smallest (kept : A) (values : Multiset A) : A := values.foldl min kept

section Smallest

variable {kept value : A} {values others : Multiset A}

@[simp] theorem smallest_zero : smallest kept 0 = kept := rfl

@[simp] theorem smallest_cons : smallest kept (value ::ₘ values) = smallest (min kept value) values :=
  Multiset.foldl_cons ..

theorem smallest_cons_last : smallest kept (value ::ₘ values) = min (smallest kept values) value := by
  rw [← Multiset.singleton_add, add_comm, smallest, Multiset.foldl_add]
  rfl

theorem smallest_add : smallest kept (values + others) = smallest (smallest kept values) others :=
  Multiset.foldl_add ..

theorem smallest_le : smallest kept values ≤ kept := by
  induction values using Multiset.induction generalizing kept with
  | empty => exact le_rfl
  | cons value values ih =>
      rw [smallest_cons]
      exact ih.trans (min_le_left _ _)

/-- A bound of all values is a bound of the smallest one. -/
theorem le_smallest_iff {bound : A} :
    bound ≤ smallest kept values ↔ bound ≤ kept ∧ ∀ value ∈ values, bound ≤ value := by
  induction values using Multiset.induction generalizing kept with
  | empty => simp
  | cons value values ih => simp [ih, and_assoc]

theorem smallest_of_le (bounds : ∀ value ∈ values, kept ≤ value) : smallest kept values = kept :=
  le_antisymm smallest_le (le_smallest_iff.mpr ⟨le_rfl, bounds⟩)

end Smallest

section Two

variable {kept : A × A} {a b value : A} {values others : Multiset A}

@[simp] theorem twoSmallest_zero : twoSmallest kept 0 = kept := rfl

@[simp] theorem twoSmallest_cons :
    twoSmallest kept (value ::ₘ values) = twoSmallest (keepTwo kept value) values :=
  Multiset.foldl_cons ..

theorem twoSmallest_cons_last :
    twoSmallest kept (value ::ₘ values) = keepTwo (twoSmallest kept values) value := by
  rw [← Multiset.singleton_add, add_comm, twoSmallest, Multiset.foldl_add]
  rfl

theorem twoSmallest_add :
    twoSmallest kept (values + others) = twoSmallest (twoSmallest kept values) others :=
  Multiset.foldl_add ..

theorem keepTwo_le (ordered : kept.1 ≤ kept.2) : (keepTwo kept value).1 ≤ (keepTwo kept value).2 := by
  unfold keepTwo
  grind

theorem twoSmallest_fst : (twoSmallest kept values).1 = smallest kept.1 values := by
  induction values using Multiset.induction generalizing kept with
  | empty => rfl
  | cons value values ih =>
      rw [twoSmallest_cons, smallest_cons, ih]
      rfl

theorem twoSmallest_ordered (ordered : kept.1 ≤ kept.2) :
    (twoSmallest kept values).1 ≤ (twoSmallest kept values).2 := by
  induction values using Multiset.induction generalizing kept with
  | empty => exact ordered
  | cons value values ih =>
      rw [twoSmallest_cons]
      exact ih (keepTwo_le ordered)

theorem twoSmallest_snd_le : (twoSmallest kept values).2 ≤ kept.2 := by
  induction values using Multiset.induction generalizing kept with
  | empty => exact le_rfl
  | cons value values ih =>
      rw [twoSmallest_cons]
      exact ih.trans (min_le_left _ _)

/-- Greater values only count for the second place. -/
theorem twoSmallest_of_le (bounds : ∀ value ∈ values, a ≤ value) :
    twoSmallest (a, b) values = (a, smallest b values) := by
  induction values using Multiset.induction generalizing b with
  | empty => rfl
  | cons value values ih =>
      have above := bounds value (Multiset.mem_cons_self value values)
      have first : keepTwo (a, b) value = (a, min b value) := by
        simp [keepTwo, above]
      rw [twoSmallest_cons, first, smallest_cons]
      exact ih fun other member => bounds other (Multiset.mem_cons_of_mem member)

/-- The two smallest values of a collection that are below the second place are merged into the
two places. -/
theorem twoSmallest_merge (ordered : a ≤ b) (values : Multiset A) :
    twoSmallest (a, b) values =
      if (twoSmallest (b, b) values).1 < a then
        ((twoSmallest (b, b) values).1, min a (twoSmallest (b, b) values).2)
      else (a, min b (twoSmallest (b, b) values).1) := by
  induction values using Multiset.induction with
  | empty => simp [ordered]
  | cons value values ih =>
      have places : (twoSmallest (b, b) values).1 ≤ (twoSmallest (b, b) values).2 :=
        twoSmallest_ordered le_rfl
      have bounded : (twoSmallest (b, b) values).2 ≤ b := twoSmallest_snd_le
      rw [twoSmallest_cons_last, twoSmallest_cons_last, ih]
      generalize twoSmallest (b, b) values = kept at places bounded ⊢
      obtain ⟨c, d⟩ := kept
      unfold keepTwo
      grind

/-- The two smallest values and the others make up the whole collection. -/
theorem twoSmallest_spec (ordered : kept.1 ≤ kept.2) (values : Multiset A) :
    ∃ rest, kept.1 ::ₘ kept.2 ::ₘ values =
      (twoSmallest kept values).1 ::ₘ (twoSmallest kept values).2 ::ₘ rest ∧
        ∀ value ∈ rest, (twoSmallest kept values).2 ≤ value := by
  induction values using Multiset.induction with
  | empty => exact ⟨0, rfl, by simp⟩
  | cons value values ih =>
      obtain ⟨rest, split, bounds⟩ := ih
      have places : (twoSmallest kept values).1 ≤ (twoSmallest kept values).2 :=
        twoSmallest_ordered ordered
      rw [twoSmallest_cons_last]
      generalize twoSmallest kept values = now at split bounds places ⊢
      obtain ⟨x, y⟩ := now
      refine ⟨max y value ::ₘ rest, ?_, ?_⟩
      · have moved : kept.1 ::ₘ kept.2 ::ₘ value ::ₘ values = value ::ₘ x ::ₘ y ::ₘ rest := by
          rw [← split, Multiset.cons_swap kept.2, Multiset.cons_swap kept.1]
        have sorted : value ::ₘ x ::ₘ y ::ₘ rest =
            min x value ::ₘ min y (max x value) ::ₘ max y value ::ₘ rest := by
          rcases lt_or_ge value x with below | above
          · rw [min_eq_right below.le, max_eq_left below.le, min_eq_right places,
              max_eq_left (below.le.trans places)]
          · rw [min_eq_left above, max_eq_right above, Multiset.cons_swap value]
            rcases lt_or_ge value y with less | greater
            · rw [min_eq_right less.le, max_eq_left less.le]
            · rw [min_eq_left greater, max_eq_right greater, Multiset.cons_swap value]
        exact moved.trans sorted
      · intro other member
        have second : (keepTwo (x, y) value).2 ≤ y := min_le_left _ _
        rcases Multiset.mem_cons.mp member with rfl | earlier
        · exact second.trans (le_max_left _ _)
        · exact second.trans (bounds other earlier)

end Two

end CodeCollect.Library
