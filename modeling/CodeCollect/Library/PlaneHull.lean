import CodeCollect.Library.MonotoneChain

namespace CodeCollect.Library.PlaneHull

open MonotoneChain

variable {K : Type} [Field K] {a b c v x y : K × K}

theorem turn_cycle (a b c : K × K) : turn b c a = turn a b c := by
  simp only [turn, cross, Prod.fst_sub, Prod.snd_sub]
  ring

theorem turn_swap (a b c : K × K) : turn c b a = -turn a b c := by
  simp only [turn, cross, Prod.fst_sub, Prod.snd_sub]
  ring

/-- A vector without a turn to two others that turn is zero. -/
theorem eq_zero_of_cross {u v w : K × K} (bend : cross u v ≠ 0) (first : cross u w = 0)
    (second : cross v w = 0) : w = 0 := by
  have along : w.1 * cross u v = cross u w * v.1 - cross v w * u.1 := by
    simp only [cross]
    ring
  have up : w.2 * cross u v = cross u w * v.2 - cross v w * u.2 := by
    simp only [cross]
    ring
  rw [first, second, zero_mul, zero_mul, sub_zero] at along up
  exact Prod.ext ((mul_eq_zero.mp along).resolve_right bend)
    ((mul_eq_zero.mp up).resolve_right bend)

/-- A vector that does not turn from another one is a multiple of it. -/
theorem exists_smul {u w : K × K} (some : u ≠ 0) (straight : cross u w = 0) :
    ∃ r : K, w = r • u := by
  rw [cross, sub_eq_zero] at straight
  by_cases level : u.1 = 0
  · have high : u.2 ≠ 0 := fun zero => some (Prod.ext level zero)
    refine ⟨w.2 / u.2, Prod.ext ?_ ?_⟩
    · rw [level, zero_mul] at straight
      have zero := (mul_eq_zero.mp straight.symm).resolve_left high
      rw [zero, Prod.smul_fst, level, smul_zero]
    · rw [Prod.smul_snd, smul_eq_mul, div_mul_cancel₀ _ high]
  · refine ⟨w.1 / u.1, Prod.ext ?_ ?_⟩
    · rw [Prod.smul_fst, smul_eq_mul, div_mul_cancel₀ _ level]
    · rw [Prod.smul_snd, smul_eq_mul, div_mul_eq_mul_div, eq_div_iff level, mul_comm w.2, straight,
        mul_comm]

/-- Points on the line of two points are collinear. -/
theorem collinear_of_turn {s : Set (K × K)} (apart : a ≠ b) (straight : ∀ p ∈ s, turn a b p = 0) :
    Collinear K s := by
  rw [collinear_iff_exists_forall_eq_smul_vadd]
  refine ⟨a, b - a, fun p member => ?_⟩
  obtain ⟨r, multiple⟩ := exists_smul (sub_ne_zero.mpr apart.symm) (straight p member)
  exact ⟨r, by rw [vadd_eq_add, ← multiple, sub_add_cancel]⟩

/-- Three points of a line do not turn. -/
theorem turn_of_collinear {s : Set (K × K)} (line : Collinear K s) (memberA : a ∈ s)
    (memberB : b ∈ s) (memberC : c ∈ s) : turn a b c = 0 := by
  obtain ⟨v, along⟩ := (collinear_iff_of_mem memberA).mp line
  obtain ⟨r, rfl⟩ := along b memberB
  obtain ⟨t, rfl⟩ := along c memberC
  rw [turn, vadd_eq_add, vadd_eq_add, add_sub_cancel_right, add_sub_cancel_right]
  simp only [cross, Prod.smul_fst, Prod.smul_snd, smul_eq_mul]
  ring

/-- Three points are on one line unless they turn. -/
theorem collinear_triple (straight : turn a b c = 0) : Collinear K {a, b, c} := by
  by_cases same : a = b
  · rw [same, Set.insert_eq_of_mem (Set.mem_insert b {c})]
    exact collinear_pair K b c
  · refine collinear_of_turn same ?_
    rintro p (rfl | rfl | rfl)
    · exact turn_self_left p b
    · exact turn_self_right a p
    · exact straight

/-- The turn to a point of a segment is between the turns to its ends. -/
theorem turn_combination {s t : K} (sum : s + t = 1) :
    turn a b (s • x + t • y) = s * turn a b x + t * turn a b y := by
  have rest : t = 1 - s := eq_sub_of_add_eq' sum
  subst rest
  simp only [turn, cross, Prod.fst_sub, Prod.snd_sub, Prod.fst_add, Prod.snd_add, Prod.smul_fst,
    Prod.smul_snd, smul_eq_mul]
  ring

variable [LinearOrder K] [IsStrictOrderedRing K] {s : Set (K × K)}

theorem convex_left : Convex K {x | 0 ≤ turn a b x} := by
  intro x left y left' r t nonneg nonneg' sum
  change 0 ≤ turn a b _
  rw [turn_combination sum]
  exact add_nonneg (mul_nonneg nonneg left) (mul_nonneg nonneg' left')

theorem left_of_mem_hull (left : ∀ p ∈ s, 0 ≤ turn a b p) (member : x ∈ convexHull K s) :
    0 ≤ turn a b x :=
  convexHull_min left convex_left member

/-- Where a point of an edge is between two points left of it, both are on the edge. -/
theorem turn_eq_zero (left : 0 ≤ turn a b x) (left' : 0 ≤ turn a b y) (straight : turn a b v = 0)
    (between : v ∈ openSegment K x y) : turn a b x = 0 := by
  obtain ⟨r, t, positive, positive', sum, rfl⟩ := between
  rw [turn_combination sum] at straight
  have zero := (add_eq_zero_iff_of_nonneg (mul_nonneg positive.le left)
    (mul_nonneg positive'.le left')).mp straight
  exact (mul_eq_zero.mp zero.1).resolve_left positive.ne'

omit [IsStrictOrderedRing K] in
theorem collinear_congr {t : Set (K × K)} (same : convexHull K s = convexHull K t) :
    Collinear K s ↔ Collinear K t := by
  rw [Collinear, Collinear, ← direction_affineSpan, ← direction_affineSpan,
    ← affineSpan_convexHull s, same, affineSpan_convexHull]

/-- A point with two edges that bend there is extreme. -/
theorem corner_extreme (member : v ∈ s) (bend : 0 < turn a v b) (before : ∀ p ∈ s, 0 ≤ turn a v p)
    (behind : ∀ p ∈ s, 0 ≤ turn v b p) : v ∈ Set.extremePoints K (convexHull K s) := by
  rw [mem_extremePoints_iff_left]
  refine ⟨subset_convexHull K s member, fun x inside y inside' between => ?_⟩
  have first := turn_eq_zero (left_of_mem_hull before inside) (left_of_mem_hull before inside')
    (turn_self_right a v) between
  have second := turn_eq_zero (left_of_mem_hull behind inside) (left_of_mem_hull behind inside')
    (turn_self_left v b) between
  rw [turn_eq_next] at bend first
  exact sub_eq_zero.mp (eq_zero_of_cross bend.ne' first second)

/-- The corners of a triangle are extreme. -/
theorem triangle_extreme (bend : turn a v b ≠ 0) (member : v ∈ s)
    (only : ∀ p ∈ s, p = a ∨ p = v ∨ p = b) : v ∈ Set.extremePoints K (convexHull K s) := by
  -- Either order of the other corners turns left.
  have corner {a b : K × K} (left : 0 < turn a v b) (only : ∀ p ∈ s, p = a ∨ p = v ∨ p = b) :
      v ∈ Set.extremePoints K (convexHull K s) := by
    refine corner_extreme member left (fun p other => ?_) (fun p other => ?_)
    · rcases only p other with rfl | rfl | rfl
      · exact (turn_self_left p v).ge
      · exact (turn_self_right a p).ge
      · exact left.le
    · rcases only p other with rfl | rfl | rfl
      · rw [turn_cycle]
        exact left.le
      · exact (turn_self_left p b).ge
      · exact (turn_self_right v p).ge
  rcases bend.lt_or_gt with right | left
  · refine corner (a := b) (b := a) ?_ fun p other => ?_
    · rw [turn_swap]
      exact neg_pos.mpr right
    · rcases only p other with rfl | rfl | rfl
      · exact .inr (.inr rfl)
      · exact .inr (.inl rfl)
      · exact .inl rfl
  · exact corner left only

/-- Three extreme points are not on one line. -/
theorem extreme_turn (extremeA : a ∈ Set.extremePoints K s) (extremeB : b ∈ Set.extremePoints K s)
    (extremeC : c ∈ Set.extremePoints K s) (apart : a ≠ b) (otherA : c ≠ a) (otherB : c ≠ b) :
    turn a b c ≠ 0 := by
  intro straight
  obtain ⟨r, multiple⟩ := exists_smul (sub_ne_zero.mpr apart.symm) straight
  have place : c = (1 - r) • a + r • b := by
    have moved : c = r • (b - a) + a := by rw [← multiple, sub_add_cancel]
    rw [moved, smul_sub, sub_smul, one_smul]
    abel
  rw [mem_extremePoints_iff_left] at extremeA extremeB extremeC
  rcases lt_trichotomy r 0 with negative | rfl | positive
  · -- The first point is between the third and the second one.
    have size : (0 : K) < 1 - r := by linarith
    refine otherA (extremeA.2 c extremeC.1 b extremeB.1 ⟨1 / (1 - r), -r / (1 - r), ?_, ?_, ?_, ?_⟩)
    · exact one_div_pos.mpr size
    · exact div_pos (neg_pos.mpr negative) size
    · field_simp
      ring
    · rw [place, smul_add, smul_smul, smul_smul, add_assoc, ← add_smul, one_div,
        inv_mul_cancel₀ size.ne', one_smul]
      have zero : (1 - r)⁻¹ * r + -r / (1 - r) = 0 := by
        field_simp
        ring
      rw [zero, zero_smul, add_zero]
  · rw [sub_zero, one_smul, zero_smul, add_zero] at place
    exact otherA place
  · rcases lt_trichotomy r 1 with within | rfl | beyond
    · exact otherA (extremeC.2 a extremeA.1 b extremeB.1
        ⟨1 - r, r, sub_pos.mpr within, positive, sub_add_cancel 1 r, place.symm⟩).symm
    · rw [sub_self, zero_smul, zero_add, one_smul] at place
      exact otherB place
    · -- The second point is between the first and the third one.
      refine apart (extremeB.2 a extremeA.1 c extremeC.1 ⟨(r - 1) / r, 1 / r, ?_, ?_, ?_, ?_⟩)
      · exact div_pos (sub_pos.mpr beyond) positive
      · exact one_div_pos.mpr positive
      · field_simp
        ring
      · rw [place, smul_add, smul_smul, smul_smul, ← add_assoc, ← add_smul, one_div,
          inv_mul_cancel₀ positive.ne', one_smul]
        have zero : (r - 1) / r + r⁻¹ * (1 - r) = 0 := by
          field_simp
          ring
        rw [zero, zero_smul, zero_add]

/-- An edge that rises past a point on its left has a point to the right of it. -/
theorem exists_right (below : Upward (x - a)) (above : Upward (b - x)) (left : 0 ≤ turn a b x) :
    ∃ f ∈ segment K a b, f.2 = x.2 ∧ x.1 ≤ f.1 := by
  have low := below.nonneg
  have high := above.nonneg
  rw [Prod.snd_sub] at low high
  rcases (show a.2 ≤ b.2 by linarith).lt_or_eq with rising | level
  · have size : (0 : K) < b.2 - a.2 := sub_pos.mpr rising
    have part : (x.2 - a.2) / (b.2 - a.2) ≤ 1 := by
      rw [div_le_one size]
      linarith
    refine ⟨(1 - (x.2 - a.2) / (b.2 - a.2)) • a + ((x.2 - a.2) / (b.2 - a.2)) • b,
      ⟨_, _, sub_nonneg.mpr part, div_nonneg low size.le, sub_add_cancel _ _, rfl⟩, ?_, ?_⟩
    · rw [Prod.snd_add, Prod.smul_snd, Prod.smul_snd, smul_eq_mul, smul_eq_mul]
      field_simp
      ring
    · rw [turn, cross, sub_nonneg, Prod.fst_sub, Prod.fst_sub, Prod.snd_sub, Prod.snd_sub] at left
      have shift : x.1 - a.1 ≤ (x.2 - a.2) / (b.2 - a.2) * (b.1 - a.1) := by
        rw [div_mul_eq_mul_div, le_div_iff₀ size]
        linarith
      rw [Prod.fst_add, Prod.smul_fst, Prod.smul_fst, smul_eq_mul, smul_eq_mul]
      linarith
  · have flat : (b - x).2 = 0 := by
      rw [Prod.snd_sub]
      linarith
    rcases above with impossible | ⟨-, right⟩
    · exact absurd flat impossible.ne'
    · rw [Prod.snd_sub] at flat
      exact ⟨b, right_mem_segment K a b, sub_eq_zero.mp flat, sub_nonneg.mp right⟩

/-- An edge that falls past a point on its left has a point to the left of it. -/
theorem exists_left (above : Upward (a - x)) (below : Upward (x - b)) (left : 0 ≤ turn a b x) :
    ∃ f ∈ segment K a b, f.2 = x.2 ∧ f.1 ≤ x.1 := by
  have mirrored : turn (-a) (-b) (-x) = turn a b x := by
    rw [turn, turn, ← cross_neg_neg]
    congr 1
    · abel
    · abel
  have aboveNeg : Upward (-x - -a) := by
    have same : -x - -a = a - x := by abel
    rw [same]
    exact above
  have belowNeg : Upward (-b - -x) := by
    have same : -b - -x = x - b := by abel
    rw [same]
    exact below
  obtain ⟨f, ⟨r, t, nonneg, nonneg', sum, rfl⟩, level, right⟩ :=
    exists_right aboveNeg belowNeg (mirrored ▸ left)
  refine ⟨r • a + t • b, ⟨r, t, nonneg, nonneg', sum, rfl⟩, ?_, ?_⟩
  · rw [smul_neg, smul_neg, ← neg_add, Prod.snd_neg, Prod.snd_neg, neg_inj] at level
    exact level
  · rw [smul_neg, smul_neg, ← neg_add, Prod.fst_neg, Prod.fst_neg, neg_le_neg_iff] at right
    exact right

/-- A point between two level points is on their segment. -/
theorem mem_segment_level {f g : K × K} (levelF : f.2 = x.2) (levelG : g.2 = x.2)
    (right : x.1 ≤ f.1) (left : g.1 ≤ x.1) : x ∈ segment K g f := by
  rcases (left.trans right).lt_or_eq with apart | same
  · have size : (0 : K) < f.1 - g.1 := sub_pos.mpr apart
    have part : (x.1 - g.1) / (f.1 - g.1) ≤ 1 := by
      rw [div_le_one size]
      linarith
    refine ⟨1 - (x.1 - g.1) / (f.1 - g.1), (x.1 - g.1) / (f.1 - g.1), sub_nonneg.mpr part,
      div_nonneg (sub_nonneg.mpr left) size.le, sub_add_cancel _ _, Prod.ext ?_ ?_⟩
    · rw [Prod.fst_add, Prod.smul_fst, Prod.smul_fst, smul_eq_mul, smul_eq_mul]
      field_simp
      ring
    · rw [Prod.snd_add, Prod.smul_snd, Prod.smul_snd, smul_eq_mul, smul_eq_mul, levelF, levelG]
      ring
  · have equal : x = g := Prod.ext (le_antisymm (right.trans same.ge) left) levelG.symm
    rw [equal]
    exact left_mem_segment K g f

/-- A point between a rising and a falling edge is in the hull of their ends. -/
theorem mem_hull_of_edges {a' b' : K × K} (memberA : a ∈ s) (memberB : b ∈ s) (memberA' : a' ∈ s)
    (memberB' : b' ∈ s) (below : Upward (x - a)) (above : Upward (b - x))
    (left : 0 ≤ turn a b x) (above' : Upward (a' - x)) (below' : Upward (x - b'))
    (left' : 0 ≤ turn a' b' x) : x ∈ convexHull K s := by
  obtain ⟨f, onRight, levelF, right⟩ := exists_right below above left
  obtain ⟨g, onLeft, levelG, leftward⟩ := exists_left above' below' left'
  have convex := convex_convexHull K s
  have hull := subset_convexHull K s
  have insideF := convex.segment_subset (hull memberA) (hull memberB) onRight
  have insideG := convex.segment_subset (hull memberA') (hull memberB') onLeft
  exact convex.segment_subset insideG insideF (mem_segment_level levelF levelG right leftward)

section Angles

variable {u w : K × K}

/-- The angle of the vector is positive, up to half a turn. -/
def Above (u : K × K) : Prop := 0 < u.2 ∨ u.2 = 0 ∧ u.1 < 0

/-- The angle of the first vector is smaller. Angles go from minus half a turn up to half a turn. -/
def Earlier (u v : K × K) : Prop := Above (-u) ∧ Above v ∨ (Above u ↔ Above v) ∧ 0 < cross u v

omit [IsStrictOrderedRing K] in
theorem not_above_zero : ¬ Above (0 : K × K) := by
  rintro (high | ⟨-, left⟩)
  · exact lt_irrefl _ high
  · exact lt_irrefl _ left

theorem Above.add (up : Above u) (high : Above v) : Above (u + v) := by
  rcases up with up | ⟨level, left⟩
  · rcases high with high | ⟨flat, -⟩
    · exact .inl (add_pos up high)
    · exact .inl (by rwa [Prod.snd_add, flat, add_zero])
  · rcases high with high | ⟨flat, left'⟩
    · exact .inl (by rwa [Prod.snd_add, level, zero_add])
    · exact .inr ⟨by rw [Prod.snd_add, level, flat, add_zero], add_neg left left'⟩

theorem Above.smul {r : K} (up : Above u) (positive : 0 < r) : Above (r • u) := by
  rcases up with up | ⟨level, left⟩
  · exact .inl (mul_pos positive up)
  · exact .inr ⟨by rw [Prod.smul_snd, level, smul_zero], mul_neg_of_pos_of_neg positive left⟩

/-- A vector has the direction of a sum of two others. -/
theorem Above.of_sum {r t c : K} (up : Above u) (high : Above v) (positive : 0 < r) (nonneg : 0 ≤ t)
    (scale : 0 ≤ c) (sum : r • u + t • v = c • w) : Above w := by
  have both : Above (r • u + t • v) := by
    rcases nonneg.eq_or_lt with rfl | positive'
    · rw [zero_smul, add_zero]
      exact up.smul positive
    · exact (up.smul positive).add (high.smul positive')
  rw [sum] at both
  rcases scale.eq_or_lt with rfl | grows
  · rw [zero_smul] at both
    exact absurd both not_above_zero
  · have back := both.smul (inv_pos.mpr grows)
    rwa [smul_smul, inv_mul_cancel₀ grows.ne', one_smul] at back

theorem Above.not_neg (up : Above u) : ¬ Above (-u) := by
  intro down
  have zero := up.add down
  rw [add_neg_cancel] at zero
  exact not_above_zero zero

theorem Above.neg_of_ne (low : ¬ Above u) (some : u ≠ 0) : Above (-u) := by
  rcases lt_trichotomy u.2 0 with below | level | above
  · exact .inl (neg_pos.mpr below)
  · refine .inr ⟨neg_eq_zero.mpr level, neg_neg_of_pos ?_⟩
    rcases lt_trichotomy u.1 0 with left | straight | right
    · exact absurd (.inr ⟨level, left⟩) low
    · exact absurd (Prod.ext straight level) some
    · exact right
  · exact absurd (.inl above) low

omit [LinearOrder K] [IsStrictOrderedRing K] in
/-- A vector is a sum of two others, weighed by their turns. -/
theorem cross_smul (u v w : K × K) : cross u v • w = cross w v • u + cross u w • v := by
  apply Prod.ext
  · simp only [cross, Prod.fst_add, Prod.smul_fst, smul_eq_mul]
    ring
  · simp only [cross, Prod.snd_add, Prod.smul_snd, smul_eq_mul]
    ring

/-- Two vectors follow each other among others when no other angle is between theirs. The last one is
followed by the first one. -/
def Neighbours (others : Set (K × K)) (u v : K × K) : Prop :=
  Earlier u v ∧ (∀ x ∈ others, Earlier u x → ¬ Earlier x v) ∨
    ¬ Earlier u v ∧ ∀ x ∈ others, ¬ Earlier u x ∧ ¬ Earlier x v

/-- The angle of a vector is between those of two others, or it is that of the second one. -/
def Faces (u v w : K × K) : Prop :=
  Earlier u v ∧ Earlier u w ∧ ¬ Earlier v w ∨ ¬ Earlier u v ∧ (Earlier u w ∨ ¬ Earlier v w)

/-- Neighbours turn left when any vector is left of the first one. -/
theorem Neighbours.turn {others : Set (K × K)} (neighbours : Neighbours others u v) (some : v ≠ 0)
    (member : x ∈ others) (left : 0 < cross u x) : 0 < cross u v := by
  have first : u ≠ 0 := (cross_ne_zero left).1
  have second : x ≠ 0 := (cross_ne_zero left).2
  by_contra right
  have right' : 0 ≤ -cross u v := neg_nonneg.mpr (not_lt.mp right)
  rcases neighbours with ⟨ahead, free⟩ | ⟨-, free⟩
  · rcases ahead with ⟨down, up⟩ | ⟨-, turn⟩
    · by_cases above : Above x
      · have late := free x member (.inl ⟨down, above⟩)
        have back : 0 ≤ -cross x v := by
          refine neg_nonneg.mpr (not_lt.mp fun turn => late (.inr ⟨iff_of_true above up, turn⟩))
        refine (up.of_sum above left right' back ?_).not_neg down
        rw [neg_smul, neg_smul, cross_smul u v x]
        abel
      · have same : Above u ↔ Above x := iff_of_false (fun high => high.not_neg down) above
        exact free x member (.inr ⟨same, left⟩) (.inl ⟨Above.neg_of_ne above second, up⟩)
    · exact right turn
  · obtain ⟨last, early⟩ := free x member
    have differ : ¬ (Above u ↔ Above x) := fun same => last (.inr ⟨same, left⟩)
    have above : Above u := by
      by_contra low
      refine last (.inl ⟨Above.neg_of_ne low first, ?_⟩)
      by_contra low'
      exact differ (iff_of_false low low')
    have below : ¬ Above x := fun high => differ (iff_of_true above high)
    have down := Above.neg_of_ne below second
    have below' : ¬ Above v := fun high => early (.inl ⟨down, high⟩)
    have back : 0 ≤ -cross x v :=
      neg_nonneg.mpr (not_lt.mp fun turn => early (.inr ⟨iff_of_false below below', turn⟩))
    refine above.not_neg ((Above.neg_of_ne below' some).of_sum down left right' back ?_)
    rw [smul_neg, smul_neg, smul_neg, neg_smul, neg_smul, cross_smul u v x]
    abel

/-- Between two vectors that turn left, a vector is left of the first one and right of the second. -/
theorem Faces.cone (faces : Faces u v w) (some : w ≠ 0) (turn : 0 < cross u v) :
    0 ≤ cross u w ∧ 0 ≤ cross w v := by
  obtain ⟨first, second⟩ := cross_ne_zero turn
  rcases faces with ⟨-, after, until'⟩ | ⟨back, beyond⟩
  · rcases after with ⟨down, up⟩ | ⟨same, left⟩
    · have high : Above v := by
        by_contra low
        exact until' (.inl ⟨Above.neg_of_ne low second, up⟩)
      have right : 0 ≤ cross w v := by
        rw [cross_swap, neg_nonneg]
        exact not_lt.mp fun ahead => until' (.inr ⟨iff_of_true high up, ahead⟩)
      refine ⟨?_, right⟩
      by_contra wrong
      refine (up.of_sum high turn (neg_nonneg.mpr (not_le.mp wrong).le) right ?_).not_neg down
      rw [neg_smul, cross_smul u v w]
      abel
    · refine ⟨left.le, ?_⟩
      by_contra wrong
      have ahead : 0 < cross v w := by
        rw [cross_swap, neg_pos]
        exact not_le.mp wrong
      have differ : ¬ (Above v ↔ Above w) := fun level => until' (.inr ⟨level, ahead⟩)
      have low : ¬ Above w := by
        intro high
        refine until' (.inl ⟨Above.neg_of_ne (fun top => differ (iff_of_true top high)) second, high⟩)
      have top : Above v := by
        by_contra bottom
        exact differ (iff_of_false bottom low)
      have down := Above.neg_of_ne low some
      have down' := Above.neg_of_ne (fun high => low (same.mp high)) first
      refine top.not_neg (down.of_sum down' turn (neg_nonneg.mpr (not_le.mp wrong).le) left.le ?_)
      rw [smul_neg, smul_neg, smul_neg, neg_smul, cross_smul u v w]
      abel
  · have differ : ¬ (Above u ↔ Above v) := fun same => back (.inr ⟨same, turn⟩)
    have high : Above u := by
      by_contra low
      refine back (.inl ⟨Above.neg_of_ne low first, ?_⟩)
      by_contra low'
      exact differ (iff_of_false low low')
    have low : ¬ Above v := fun top => differ (iff_of_true high top)
    have down := Above.neg_of_ne low second
    rcases beyond with (⟨impossible, -⟩ | ⟨same, left⟩) | early
    · exact absurd impossible high.not_neg
    · refine ⟨left.le, ?_⟩
      by_contra wrong
      refine low ((same.mp high).of_sum high turn (neg_nonneg.mpr (not_le.mp wrong).le) left.le ?_)
      rw [neg_smul, cross_smul u v w]
      abel
    · have low' : ¬ Above w := fun top => early (.inl ⟨down, top⟩)
      have right : 0 ≤ cross w v := by
        rw [cross_swap, neg_nonneg]
        exact not_lt.mp fun ahead => early (.inr ⟨iff_of_false low low', ahead⟩)
      refine ⟨?_, right⟩
      by_contra wrong
      refine high.not_neg ((Above.neg_of_ne low' some).of_sum down turn
        (neg_nonneg.mpr (not_le.mp wrong).le) right ?_)
      rw [smul_neg, smul_neg, smul_neg, neg_smul, cross_smul u v w]
      abel

/-- No other vector is strictly between neighbours that turn left. -/
theorem Neighbours.empty {others : Set (K × K)} (neighbours : Neighbours others u v)
    (turn : 0 < cross u v) (member : x ∈ others) (left : 0 < cross u x) (right : 0 < cross x v) :
    False := by
  obtain ⟨first, second⟩ := cross_ne_zero turn
  have third : x ≠ 0 := (cross_ne_zero left).2
  have sum : cross x v • u + cross u x • v = cross u v • x := (cross_smul u v x).symm
  have opposite : cross x v • -u + cross u x • -v = cross u v • -x := by
    rw [smul_neg, smul_neg, smul_neg, ← sum]
    abel
  rcases neighbours with ⟨ahead, free⟩ | ⟨back, free⟩
  · rcases ahead with ⟨down, up⟩ | ⟨same, -⟩
    · have low : ¬ Above u := fun high => high.not_neg down
      by_cases above : Above x
      · exact free x member (.inl ⟨down, above⟩) (.inr ⟨iff_of_true above up, right⟩)
      · exact free x member (.inr ⟨iff_of_false low above, left⟩)
          (.inl ⟨Above.neg_of_ne above third, up⟩)
    · by_cases high : Above u
      · have top := high.of_sum (same.mp high) right left.le turn.le sum
        exact free x member (.inr ⟨iff_of_true high top, left⟩)
          (.inr ⟨iff_of_true top (same.mp high), right⟩)
      · have low : ¬ Above v := fun top => high (same.mpr top)
        have down := (Above.neg_of_ne high first).of_sum (Above.neg_of_ne low second) right left.le
          turn.le opposite
        have bottom : ¬ Above x := fun top => top.not_neg down
        exact free x member (.inr ⟨iff_of_false high bottom, left⟩)
          (.inr ⟨iff_of_false bottom low, right⟩)
  · obtain ⟨last, early⟩ := free x member
    have differ : ¬ (Above u ↔ Above v) := fun same => back (.inr ⟨same, turn⟩)
    by_cases above : Above x
    · have low : ¬ Above u := fun high => last (.inr ⟨iff_of_true high above, left⟩)
      exact last (.inl ⟨Above.neg_of_ne low first, above⟩)
    · have high : Above v := by
        by_contra low
        exact early (.inr ⟨iff_of_false above low, right⟩)
      exact early (.inl ⟨Above.neg_of_ne above third, high⟩)

end Angles

section Wedge

variable {o : K × K}

omit [LinearOrder K] [IsStrictOrderedRing K] in
/-- The turn of three points is made of their turns around a fourth one. -/
theorem turn_around (o a b x : K × K) : turn a b x =
    cross (a - o) (b - o) - cross (x - o) (b - o) - cross (a - o) (x - o) := by
  simp only [turn, cross, Prod.fst_sub, Prod.snd_sub]
  ring

omit [LinearOrder K] [IsStrictOrderedRing K] in
theorem turn_center (o a b : K × K) : turn a b o = cross (a - o) (b - o) := by
  simp only [turn, cross, Prod.fst_sub, Prod.snd_sub]
  ring

/-- An extreme point is no mixture of other points. -/
theorem extreme_of_mixture (extreme : a ∈ Set.extremePoints K (convexHull K s))
    (insideX : x ∈ convexHull K s) (insideB : b ∈ convexHull K s) (inside : o ∈ convexHull K s)
    {r t c : K} (positive : 0 < r) (nonneg : 0 ≤ t) (part : 0 < c)
    (mixture : (r + t + c) • a = r • x + t • b + c • o) : o = a := by
  have size : 0 < r + t := add_pos_of_pos_of_nonneg positive nonneg
  have total : 0 < r + t + c := add_pos size part
  have rest : (r / (r + t)) • x + (t / (r + t)) • b ∈ convexHull K s :=
    convex_convexHull K s insideX insideB (div_nonneg positive.le size.le)
      (div_nonneg nonneg size.le) (by rw [← add_div, div_self size.ne'])
  rw [mem_extremePoints_iff_left] at extreme
  refine extreme.2 o inside _ rest ⟨c / (r + t + c), (r + t) / (r + t + c), div_pos part total,
    div_pos size total, ?_, ?_⟩
  · rw [← add_div, add_comm c, div_self total.ne']
  · have back : a = (r + t + c)⁻¹ • (r • x + t • b + c • o) := by
      rw [← mixture, smul_smul, inv_mul_cancel₀ total.ne', one_smul]
    have spread : ∀ q : K, (r + t) / (r + t + c) * (q / (r + t)) = (r + t + c)⁻¹ * q := by
      intro q
      field_simp
    rw [back, smul_add (_ / _), smul_smul, smul_smul, spread, spread, smul_add, smul_add, smul_smul,
      smul_smul, smul_smul, div_eq_inv_mul]
    abel

/-- The line of two extreme points has all others on its left when none is between them, as seen
from inside. -/
theorem supporting (extremeA : a ∈ Set.extremePoints K (convexHull K s))
    (extremeB : b ∈ Set.extremePoints K (convexHull K s)) (inside : o ∈ convexHull K s)
    (ahead : 0 < cross (a - o) (b - o)) (member : x ∈ s)
    (empty : 0 < cross (a - o) (x - o) → 0 < cross (x - o) (b - o) → False) :
    0 ≤ turn a b x := by
  by_contra right
  rw [turn_around o] at right
  obtain ⟨first, second⟩ := cross_ne_zero ahead
  have insideX := subset_convexHull K s member
  have sum := cross_smul (a - o) (b - o) (x - o)
  generalize cross (a - o) (b - o) = size at ahead right sum
  generalize cross (x - o) (b - o) = alongA at right empty sum
  generalize cross (a - o) (x - o) = alongB at right empty sum
  rw [smul_sub, smul_sub, smul_sub] at sum
  rcases le_or_gt alongB 0 with low | high
  · refine first (sub_eq_zero.mpr (extreme_of_mixture extremeA insideX extremeB.1 inside ahead
      (neg_nonneg.mpr low) (show 0 < alongA + alongB - size by linarith) ?_).symm)
    have total : size + -alongB + (alongA + alongB - size) = alongA := by ring
    rw [total, sub_eq_iff_eq_add.mp sum, sub_smul, add_smul, neg_smul]
    abel
  · rcases le_or_gt alongA 0 with low' | high'
    · refine second (sub_eq_zero.mpr (extreme_of_mixture extremeB insideX extremeA.1 inside ahead
        (neg_nonneg.mpr low') (show 0 < alongA + alongB - size by linarith) ?_).symm)
      have total : size + -alongA + (alongA + alongB - size) = alongB := by ring
      rw [total, sub_eq_iff_eq_add.mp sum, sub_smul, add_smul, neg_smul]
      abel
    · exact empty high high'

/-- A point of a wedge is in the hull when it is left of the line that closes the wedge. -/
theorem mem_hull_of_wedge (insideA : a ∈ convexHull K s) (insideB : b ∈ convexHull K s)
    (inside : o ∈ convexHull K s) (ahead : 0 < cross (a - o) (b - o))
    (left : 0 ≤ cross (a - o) (x - o)) (right : 0 ≤ cross (x - o) (b - o))
    (closed : 0 ≤ turn a b x) : x ∈ convexHull K s := by
  rw [turn_around o] at closed
  have sum := cross_smul (a - o) (b - o) (x - o)
  generalize cross (a - o) (b - o) = size at ahead closed sum
  generalize cross (x - o) (b - o) = alongA at right closed sum
  generalize cross (a - o) (x - o) = alongB at left closed sum
  have point : x = (size⁻¹ * (size - alongA - alongB)) • o + (size⁻¹ * alongA) • a +
      (size⁻¹ * alongB) • b := by
    rw [← smul_smul, ← smul_smul, ← smul_smul, ← smul_add, ← smul_add, eq_inv_smul_iff₀ ahead.ne']
    rw [smul_sub, smul_sub, smul_sub] at sum
    rw [sub_eq_iff_eq_add.mp sum, sub_smul, sub_smul]
    abel
  have part := (inv_pos.mpr ahead).le
  have hull := (convex_convexHull K s).sum_mem (t := (Finset.univ : Finset (Fin 3)))
    (w := ![size⁻¹ * (size - alongA - alongB), size⁻¹ * alongA, size⁻¹ * alongB]) (z := ![o, a, b])
  simp only [Fin.sum_univ_three, Finset.mem_univ, forall_const, Fin.forall_fin_succ] at hull
  rw [point]
  refine hull ⟨mul_nonneg part closed, mul_nonneg part right, mul_nonneg part left, nofun⟩ ?_
    ⟨inside, insideA, insideB, nofun⟩
  change size⁻¹ * (size - alongA - alongB) + size⁻¹ * alongA + size⁻¹ * alongB = 1
  have whole : size - alongA - alongB + alongA + alongB = size := by ring
  rw [← mul_add, ← mul_add, whole, inv_mul_cancel₀ ahead.ne']

/-- The mean of some points. -/
def centroid (points : List (K × K)) : K × K := (1 / (points.length : K)) • points.sum

theorem length_ne_zero {points : List (K × K)} (filled : points ≠ []) :
    (points.length : K) ≠ 0 := by
  rw [Nat.cast_ne_zero]
  exact (List.length_pos_iff.mpr filled).ne'

theorem centroid_mem {points : List (K × K)} (filled : points ≠ []) :
    centroid points ∈ convexHull K {p | p ∈ points} := by
  have mean := (convex_convexHull K {p | p ∈ points}).sum_mem
    (t := (Finset.univ : Finset (Fin points.length)))
    (w := fun _ => 1 / (points.length : K)) (z := points.get) ?_ ?_ ?_
  · rw [← Finset.smul_sum, ← List.sum_ofFn, List.ofFn_get] at mean
    exact mean
  · intro i _
    positivity
  · rw [Finset.sum_const, Finset.card_univ, Fintype.card_fin, nsmul_eq_mul, mul_one_div,
      div_self (length_ne_zero filled)]
  · intro i _
    exact subset_convexHull K _ (List.get_mem points i)

omit [LinearOrder K] [IsStrictOrderedRing K] in
theorem sum_cross (u c : K × K) (points : List (K × K)) :
    (points.map fun p => cross (p - c) u).sum =
      cross (points.sum - (points.length : K) • c) u := by
  induction points with
  | nil => simp [cross]
  | cons p points ih =>
      rw [List.map_cons, List.sum_cons, List.sum_cons, ih, List.length_cons]
      simp only [cross, Prod.fst_add, Prod.snd_add, Prod.fst_sub, Prod.snd_sub, Prod.smul_fst,
        Prod.smul_snd, smul_eq_mul, Nat.cast_add, Nat.cast_one]
      ring

/-- Some point is left of each direction from the mean. -/
theorem exists_left_of_centroid {points : List (K × K)} (spread : ¬ Collinear K {p | p ∈ points})
    {u : K × K} (some : u ≠ 0) : ∃ p ∈ points, 0 < cross u (p - centroid points) := by
  by_contra none
  simp only [not_exists, not_and, not_lt] at none
  have filled : points ≠ [] := by
    rintro rfl
    exact spread (by simpa using collinear_empty K (K × K))
  have balanced : (points.map fun p => cross (p - centroid points) u).sum = 0 := by
    rw [sum_cross, centroid, smul_smul, mul_one_div, div_self (length_ne_zero filled), one_smul,
      sub_self]
    simp [cross]
  have nonneg : ∀ x ∈ points.map fun p => cross (p - centroid points) u, 0 ≤ x := by
    intro x member
    obtain ⟨p, inside, rfl⟩ := List.mem_map.mp member
    rw [cross_swap, neg_nonneg]
    exact none p inside
  have apart : centroid points ≠ centroid points + u := fun same =>
    some (left_eq_add.mp same)
  refine spread (collinear_of_turn apart fun p inside => ?_)
  have zero := List.all_zero_of_le_zero_le_of_sum_eq_zero nonneg balanced
    (List.mem_map.mpr ⟨p, inside, rfl⟩)
  rw [turn, add_sub_cancel_left, cross_swap, zero, neg_zero]

/-- The mean of points is not one of the extreme points unless there are no others. -/
theorem centroid_ne {points : List (K × K)} {v w : K × K}
    (extreme : v ∈ Set.extremePoints K (convexHull K {p | p ∈ points})) (member : v ∈ points)
    (other : w ∈ points) (differ : w ≠ v) : centroid points ≠ v := by
  intro same
  have left : v ∈ points.erase w := (List.mem_erase_of_ne differ.symm).mpr member
  have filled := List.ne_nil_of_mem left
  have inside : centroid (points.erase w) ∈ convexHull K {p | p ∈ points} :=
    convexHull_mono (fun p found => List.mem_of_mem_erase found) (centroid_mem filled)
  have size : (points.length : K) = (points.erase w).length + 1 := by
    rw [List.length_erase_of_mem other, ← Nat.cast_add_one,
      Nat.sub_add_cancel (List.length_pos_of_mem other)]
  have rest : (0 : K) < (points.erase w).length :=
    Nat.cast_pos.mpr (List.length_pos_iff.mpr filled)
  have total := add_pos rest one_pos
  rw [mem_extremePoints_iff_left] at extreme
  refine differ (extreme.2 w (subset_convexHull K _ other) _ inside
    ⟨1 / ((points.erase w).length + 1), (points.erase w).length / ((points.erase w).length + 1),
      one_div_pos.mpr total, div_pos rest total, ?_, ?_⟩)
  · rw [← add_div, add_comm (1 : K), div_self total.ne']
  · rw [← same, centroid, centroid, size, (List.perm_cons_erase other).sum_eq, List.sum_cons,
      smul_add, smul_smul, div_mul_div_comm, mul_one, mul_comm, div_mul_cancel_left₀ rest.ne',
      one_div]

end Wedge

end CodeCollect.Library.PlaneHull
