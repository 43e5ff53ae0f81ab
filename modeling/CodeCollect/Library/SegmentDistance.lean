import Mathlib
import CodeCollect.Library.MonotoneChain

/-!
# The distance to a segment

A point that is near a line is near a segment of the line unless it lies beyond an end of the segment
and far from this end.
-/

namespace CodeCollect.Library.SegmentDistance

open MonotoneChain

variable {K : Type} [Field K]

/-- The square of the distance of two points. -/
def sqDist (p q : K × K) : K := (p.1 - q.1) ^ 2 + (p.2 - q.2) ^ 2

/-- How far along the vector a point is, times the length. -/
def along (a b p : K × K) : K := (b.1 - a.1) * (p.1 - a.1) + (b.2 - a.2) * (p.2 - a.2)

/-- A point on the way from one point to another. -/
def between (a b : K × K) (s : K) : K × K := (a.1 + s * (b.1 - a.1), a.2 + s * (b.2 - a.2))

/-- Some point of the segment is near. -/
def NearSegment [LinearOrder K] (a b p : K × K) (sqTol : K) : Prop :=
  ∃ s, 0 ≤ s ∧ s ≤ 1 ∧ sqDist p (between a b s) ≤ sqTol

/-- The distance to a point of the line has a part across the line and a part along it. -/
theorem sqDist_between (a b p : K × K) (s : K) :
    sqDist a b * sqDist p (between a b s) =
      turn a b p ^ 2 + (along a b p - s * sqDist a b) ^ 2 := by
  simp only [sqDist, between, turn, cross, along, Prod.fst_sub, Prod.snd_sub]
  ring

@[simp] theorem between_zero (a b : K × K) : between a b 0 = a := by
  simp [between]

@[simp] theorem between_one (a b : K × K) : between a b 1 = b := by
  simp [between]

variable [LinearOrder K] [IsStrictOrderedRing K]

theorem sqDist_nonneg (p q : K × K) : 0 ≤ sqDist p q := add_nonneg (sq_nonneg _) (sq_nonneg _)

theorem sqDist_eq_zero_iff {p q : K × K} : sqDist p q = 0 ↔ p = q := by
  rw [sqDist, add_eq_zero_iff_of_nonneg (sq_nonneg _) (sq_nonneg _), sq_eq_zero_iff, sq_eq_zero_iff,
    sub_eq_zero, sub_eq_zero, Prod.ext_iff]

/-- The nearer to the foot of a point, the nearer to the point. -/
theorem sqDist_le_of_along {a b p : K × K} (apart : 0 < sqDist a b) {s t : K}
    (nearer : (along a b p - s * sqDist a b) ^ 2 ≤ (along a b p - t * sqDist a b) ^ 2) :
    sqDist p (between a b s) ≤ sqDist p (between a b t) := by
  apply le_of_mul_le_mul_left _ apart
  rw [sqDist_between, sqDist_between]
  exact add_le_add_right nearer _

/-- A point near the line is near the segment exactly when, if it lies beyond an end, it is near this
end. -/
theorem nearSegment_iff {a b p : K × K} (apart : a ≠ b) {sqTol : K}
    (near : turn a b p ^ 2 / sqDist a b ≤ sqTol) :
    NearSegment a b p sqTol ↔
      (along a b p < 0 → sqDist p a ≤ sqTol) ∧ (sqDist a b < along a b p → sqDist p b ≤ sqTol) := by
  have length : 0 < sqDist a b :=
    lt_of_le_of_ne (sqDist_nonneg a b) fun zero => apart (sqDist_eq_zero_iff.mp zero.symm)
  constructor
  · rintro ⟨s, low, high, close⟩
    constructor
    · intro before
      have nearer : (along a b p - 0 * sqDist a b) ^ 2 ≤ (along a b p - s * sqDist a b) ^ 2 := by
        have step := mul_nonneg low length.le
        rw [zero_mul, sub_zero]
        nlinarith
      have first := sqDist_le_of_along length nearer
      rw [between_zero] at first
      exact first.trans close
    · intro behind
      have nearer : (along a b p - 1 * sqDist a b) ^ 2 ≤ (along a b p - s * sqDist a b) ^ 2 := by
        have step := mul_le_mul_of_nonneg_right high length.le
        apply pow_le_pow_left₀
        · linarith
        · linarith
      have last := sqDist_le_of_along length nearer
      rw [between_one] at last
      exact last.trans close
  · rintro ⟨before, behind⟩
    rcases lt_or_ge (along a b p) 0 with negative | start
    · exact ⟨0, le_rfl, zero_le_one, by rw [between_zero]; exact before negative⟩
    · rcases lt_or_ge (sqDist a b) (along a b p) with large | inside
      · exact ⟨1, zero_le_one, le_rfl, by rw [between_one]; exact behind large⟩
      · refine ⟨along a b p / sqDist a b, div_nonneg start length.le, (div_le_one length).mpr inside, ?_⟩
        have foot := sqDist_between a b p (along a b p / sqDist a b)
        rw [div_mul_cancel₀ _ length.ne', sub_self, sq (0 : K), zero_mul, add_zero] at foot
        rw [← foot, mul_div_cancel_left₀ _ length.ne'] at near
        exact near

/-- Where both ends are the same point, the segment is this point. -/
theorem nearSegment_self_iff {a p : K × K} {sqTol : K} :
    NearSegment a a p sqTol ↔ sqDist p a ≤ sqTol := by
  constructor
  · rintro ⟨s, _, _, close⟩
    simpa [between] using close
  · intro close
    exact ⟨0, le_rfl, zero_le_one, by simpa using close⟩

end CodeCollect.Library.SegmentDistance
