import Mathlib

/-!
# The variance between the classes of weighted values

The mass, the mean and the energy of a class, the variance between the classes of a labelling, and
the classes that a list of thresholds cuts out of a range.
-/

namespace CodeCollect.Library.ClassVariance

open Finset

section Classes

variable {ι K : Type*} [Field K] (w x : ι → K) (s : Finset ι)

/-- The weight of a class. -/
def mass : K := ∑ i ∈ s, w i

/-- The weighted sum of the values of a class. -/
def moment : K := ∑ i ∈ s, w i * x i

/-- The weighted sum of the squares of the values of a class. -/
def square : K := ∑ i ∈ s, w i * x i ^ 2

/-- The mean of a class, and 0 where nothing has a weight. -/
def mean : K := moment w x s / mass w s

/-- What a class contributes to the variance between the classes, measured from 0. -/
def energy : K := moment w x s ^ 2 / mass w s

/-- The weighted squares of the distances to the mean of the class. -/
def scatter : K := ∑ i ∈ s, w i * (x i - mean w x s) ^ 2

/-- The variance between the classes that carry the given labels. -/
def betweenClass {κ : Type*} [DecidableEq κ] (c : ι → κ) (labels : Finset κ) : K :=
  ∑ k ∈ labels, mass w {i ∈ s | c i = k} * (mean w x {i ∈ s | c i = k} - mean w x s) ^ 2

variable {w x s}

@[simp] theorem mass_empty : mass w ∅ = 0 := sum_empty

@[simp] theorem energy_empty : energy w x ∅ = 0 := by simp [energy]

@[simp] theorem mass_singleton (i : ι) : mass w {i} = w i := sum_singleton ..

theorem energy_singleton (i : ι) : energy w x {i} = w i * x i ^ 2 := by
  rcases eq_or_ne (w i) 0 with none | some
  · simp [energy, mass, none]
  · simp only [energy, moment, mass, sum_singleton]
    field_simp

/-- The weighted squares of the distances to any point. -/
theorem sum_sq_sub (a : K) :
    ∑ i ∈ s, w i * (x i - a) ^ 2 = square w x s - 2 * a * moment w x s + a ^ 2 * mass w s := by
  simp only [square, moment, mass, mul_sum, ← sum_sub_distrib, ← sum_add_distrib]
  apply sum_congr rfl
  intro i _
  ring

/-- Moving every value by the same distance moves the mean with them. -/
theorem mean_shift (heavy : mass w s ≠ 0) (a : K) :
    mean w (fun i => x i + a) s = mean w x s + a := by
  have moved : moment w (fun i => x i + a) s = moment w x s + a * mass w s := by
    simp only [moment, mass, mul_sum, ← sum_add_distrib]
    apply sum_congr rfl
    intro i _
    ring
  rw [mean, mean, moved, add_div, mul_div_cancel_right₀ _ heavy]

/-- Labels matter only where there is a weight. -/
theorem betweenClass_congr {κ : Type*} [DecidableEq κ] {c d : ι → κ} (labels : Finset κ)
    (same : ∀ i ∈ s, w i ≠ 0 → c i = d i) :
    betweenClass w x s c labels = betweenClass w x s d labels := by
  have sums : ∀ (f : ι → K) (k : κ),
      ∑ i ∈ s with c i = k, w i * f i = ∑ i ∈ s with d i = k, w i * f i := by
    intro f k
    rw [sum_filter, sum_filter]
    apply sum_congr rfl
    intro i inside
    rcases eq_or_ne (w i) 0 with light | heavy
    · simp [light]
    · rw [same i inside heavy]
  have masses : ∀ k, mass w {i ∈ s | c i = k} = mass w {i ∈ s | d i = k} := by
    intro k
    simpa [mass] using sums (fun _ => 1) k
  apply sum_congr rfl
  intro k _
  have means : mean w x {i ∈ s | c i = k} = mean w x {i ∈ s | d i = k} := by
    rw [mean, mean, masses k]
    exact congrArg (· / mass w {i ∈ s | d i = k}) (sums x k)
  rw [masses, means]

section Ordered

variable [LinearOrder K] [IsStrictOrderedRing K] (nonneg : ∀ i ∈ s, 0 ≤ w i)

include nonneg

theorem mass_nonneg : 0 ≤ mass w s := sum_nonneg nonneg

theorem weight_eq_zero (light : mass w s = 0) {i : ι} (inside : i ∈ s) : w i = 0 :=
  (sum_eq_zero_iff_of_nonneg nonneg).mp light i inside

theorem moment_eq_zero (light : mass w s = 0) : moment w x s = 0 := by
  apply sum_eq_zero
  intro i inside
  rw [weight_eq_zero nonneg light inside, zero_mul]

theorem mass_mul_mean : mass w s * mean w x s = moment w x s := by
  rcases eq_or_ne (mass w s) 0 with light | heavy
  · rw [light, zero_mul, moment_eq_zero nonneg light]
  · rw [mean, mul_div_cancel₀ _ heavy]

theorem mass_mul_mean_sq : mass w s * mean w x s ^ 2 = energy w x s := by
  rw [sq, ← mul_assoc, mass_mul_mean nonneg, energy, mean]
  ring

/-- The squares of a class are its energy and its scatter. -/
theorem scatter_eq : scatter w x s = square w x s - energy w x s := by
  have mean_twice := mass_mul_mean_sq (x := x) nonneg
  have mean_once := mass_mul_mean (x := x) nonneg
  rw [scatter, sum_sq_sub, ← mean_once, ← mean_twice]
  ring

theorem scatter_nonneg : 0 ≤ scatter w x s :=
  sum_nonneg fun i inside => mul_nonneg (nonneg i inside) (sq_nonneg _)

theorem energy_nonneg : 0 ≤ energy w x s := div_nonneg (sq_nonneg _) (mass_nonneg nonneg)

theorem energy_le_square : energy w x s ≤ square w x s := by
  have scattered := scatter_nonneg (x := x) nonneg
  rw [scatter_eq nonneg] at scattered
  exact sub_nonneg.mp scattered

/-- A class with two values that both have a weight has less energy than squares. -/
theorem energy_lt_square {i j : ι} (first : i ∈ s) (second : j ∈ s) (apart : x i ≠ x j)
    (weighs_first : 0 < w i) (weighs_second : 0 < w j) : energy w x s < square w x s := by
  have parts : ∀ k ∈ s, 0 ≤ w k * (x k - mean w x s) ^ 2 :=
    fun k inside => mul_nonneg (nonneg k inside) (sq_nonneg _)
  have scattered : 0 < scatter w x s := by
    rcases eq_or_ne (x i) (mean w x s) with central | away
    · apply sum_pos' parts
      exact ⟨j, second, mul_pos weighs_second (sq_pos_of_ne_zero
        (sub_ne_zero.mpr fun same => apart (central.trans same.symm)))⟩
    · apply sum_pos' parts
      exact ⟨i, first, mul_pos weighs_first (sq_pos_of_ne_zero (sub_ne_zero.mpr away))⟩
  rw [scatter_eq nonneg] at scattered
  exact sub_pos.mp scattered

/-- The variance between the classes is what their energies add to the energy of the whole. -/
theorem betweenClass_eq {κ : Type*} [DecidableEq κ] {c : ι → κ} {labels : Finset κ}
    (labelled : ∀ i ∈ s, c i ∈ labels) :
    betweenClass w x s c labels = ∑ k ∈ labels, energy w x {i ∈ s | c i = k} - energy w x s := by
  have masses : ∑ k ∈ labels, mass w {i ∈ s | c i = k} = mass w s :=
    sum_fiberwise_of_maps_to labelled w
  have moments : ∑ k ∈ labels, moment w x {i ∈ s | c i = k} = moment w x s :=
    sum_fiberwise_of_maps_to labelled fun i => w i * x i
  have within : ∀ k, ∀ i ∈ s.filter (c · = k), 0 ≤ w i :=
    fun k i inside => nonneg i (mem_of_mem_filter i inside)
  calc betweenClass w x s c labels
      = ∑ k ∈ labels, (energy w x {i ∈ s | c i = k}
          - 2 * mean w x s * moment w x {i ∈ s | c i = k}
          + mean w x s ^ 2 * mass w {i ∈ s | c i = k}) := by
        apply sum_congr rfl
        intro k _
        rw [← mass_mul_mean_sq (within k), ← mass_mul_mean (within k)]
        ring
    _ = ∑ k ∈ labels, energy w x {i ∈ s | c i = k}
          - 2 * mean w x s * moment w x s + mean w x s ^ 2 * mass w s := by
        rw [sum_add_distrib, sum_sub_distrib, ← mul_sum, ← mul_sum, masses, moments]
    _ = ∑ k ∈ labels, energy w x {i ∈ s | c i = k} - energy w x s := by
        rw [← mass_mul_mean_sq nonneg, ← mass_mul_mean nonneg]
        ring

/-- The variance between the classes does not depend on where the values are measured from. -/
theorem betweenClass_shift {κ : Type*} [DecidableEq κ] (c : ι → κ) (labels : Finset κ) (a : K) :
    betweenClass w (fun i => x i + a) s c labels = betweenClass w x s c labels := by
  apply sum_congr rfl
  intro k _
  rcases eq_or_ne (mass w {i ∈ s | c i = k}) 0 with light | heavy
  · rw [light, zero_mul, zero_mul]
  · have whole : mass w s ≠ 0 := by
      intro light
      apply heavy
      apply sum_eq_zero
      intro i inside
      exact weight_eq_zero nonneg light (mem_of_mem_filter i inside)
    rw [mean_shift whole, mean_shift heavy, add_sub_add_right_eq_sub]

end Ordered

end Classes

section Thresholds

/-- The number of the class that a place of the range falls in. -/
def classOf (u : List Nat) (g : Nat) : Nat := u.countP (· ≤ g)

/-- The classes that the thresholds cut out of a range. -/
def pieces : Nat → List Nat → Nat → List (Finset Nat)
  | low, [], high => [Ico low high]
  | low, t :: u, high => Ico low t :: pieces t u high

theorem classOf_mono (u : List Nat) : Monotone (classOf u) := by
  intro g h below
  apply List.countP_mono_left
  intro t _ reached
  exact decide_eq_true ((of_decide_eq_true reached).trans below)

theorem classOf_le (u : List Nat) (g : Nat) : classOf u g ≤ u.length := List.countP_le_length

/-- A sum over the classes by their numbers is the sum over the pieces. -/
theorem sum_classOf {M : Type*} [AddCommMonoid M] (F : Finset Nat → M) {high : Nat} :
    ∀ {low : Nat} {u : List Nat}, u.Pairwise (· < ·) → (∀ t ∈ u, low ≤ t ∧ t ≤ high) →
      ∑ k ∈ range (u.length + 1), F {g ∈ Ico low high | classOf u g = k} =
        ((pieces low u high).map F).sum
  | low, [], _, _ => by simp [classOf, pieces]
  | low, t :: u, sorted, bounds => by
      obtain ⟨above, tail⟩ := List.pairwise_cons.mp sorted
      obtain ⟨low_t, t_high⟩ := bounds t List.mem_cons_self
      have later : ∀ v ∈ u, t ≤ v ∧ v ≤ high :=
        fun v member => ⟨(above v member).le, (bounds v (List.mem_cons_of_mem t member)).2⟩
      have first : {g ∈ Ico low high | classOf (t :: u) g = 0} = Ico low t := by
        ext g
        simp only [mem_filter, mem_Ico, classOf, List.countP_eq_zero, List.forall_mem_cons,
          decide_eq_true_eq, not_le]
        constructor
        · rintro ⟨⟨start, _⟩, before, _⟩
          exact ⟨start, before⟩
        · rintro ⟨start, before⟩
          exact ⟨⟨start, before.trans_le t_high⟩, before, fun v member =>
            before.trans (above v member)⟩
      have rest : ∀ k, {g ∈ Ico low high | classOf (t :: u) g = k + 1} =
          {g ∈ Ico t high | classOf u g = k} := by
        intro k
        ext g
        simp only [mem_filter, mem_Ico]
        simp only [classOf, List.countP_cons, decide_eq_true_eq]
        split_ifs with reached
        · constructor
          · rintro ⟨⟨_, stop⟩, count⟩
            exact ⟨⟨reached, stop⟩, Nat.succ_injective count⟩
          · rintro ⟨⟨_, stop⟩, count⟩
            exact ⟨⟨low_t.trans reached, stop⟩, congrArg (· + 1) count⟩
        · have none : u.countP (· ≤ g) = 0 := by
            apply List.countP_eq_zero.mpr
            intro v member
            have := above v member
            simp
            omega
          constructor
          · rintro ⟨_, count⟩
            omega
          · rintro ⟨⟨start, _⟩, _⟩
            exact absurd start reached
      rw [List.length_cons, sum_range_succ', first, pieces, List.map_cons, List.sum_cons, add_comm]
      congr 1
      rw [← sum_classOf F tail later]
      apply sum_congr rfl
      intro k _
      rw [rest]

end Thresholds

end CodeCollect.Library.ClassVariance
