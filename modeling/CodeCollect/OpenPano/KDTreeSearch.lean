import CodeCollect.Library.Accumulation
import CodeCollect.Library.TwoSmallest
import CodeCollect.OpenPano.KDTree

namespace CodeCollect.OpenPano

open CodeCollect.Library

namespace KDTree

variable {K : Type} [Field K] [LinearOrder K]

section Distance

variable [IsStrictOrderedRing K]

omit [LinearOrder K] [IsStrictOrderedRing K] in
/-- The sum of the squared differences. -/
def sqrdist (x y : Point K) : K := (List.zipWith (fun a b => (a - b) ^ 2) x y).sum

theorem sqrdist_nonneg (x y : Point K) : 0 ≤ sqrdist x y := by
  apply List.sum_nonneg
  intro value member
  obtain ⟨i, below, rfl⟩ := List.mem_iff_getElem.mp member
  rw [List.getElem_zipWith]
  exact sq_nonneg _

omit [Field K] [LinearOrder K] [IsStrictOrderedRing K] in
/-- A list of at least four items has four first ones. -/
theorem exists_four (x : Point K) (long : 4 ≤ x.length) :
    ∃ x0 x1 x2 x3 rest, x = x0 :: x1 :: x2 :: x3 :: rest := by
  match x with
  | x0 :: x1 :: x2 :: x3 :: rest => exact ⟨x0, x1, x2, x3, rest, rfl⟩

/-- A sum is given up only when the distance is above the threshold. -/
theorem accumulate_spec (variant : Variant) (sentinel now_thres : K) (x y : Point K) (ans : K)
    (same : x.length = y.length) (four : 4 ∣ x.length) :
    accumulate variant sentinel now_thres x y ans = ans + sqrdist x y ∨
      accumulate variant sentinel now_thres x y ans = sentinel ∧
        now_thres < ans + sqrdist x y := by
  induction x, y, ans using accumulate.induct variant now_thres with
  | case1 x0 x1 x2 x3 x y0 y1 y2 y3 y ans sum above =>
      refine Or.inr ⟨?_, ?_⟩
      · rw [accumulate]
        exact if_pos above
      · have rest := sqrdist_nonneg x y
        have total : ans + sqrdist (x0 :: x1 :: x2 :: x3 :: x) (y0 :: y1 :: y2 :: y3 :: y) =
            sum + sqrdist x y := by
          simp only [sqrdist, List.zipWith_cons_cons, List.sum_cons, sum]
          ring
        rw [total]
        exact lt_add_of_lt_of_nonneg above.2 rest
  | case2 x0 x1 x2 x3 x y0 y1 y2 y3 y ans sum below ih =>
      have total : ans + sqrdist (x0 :: x1 :: x2 :: x3 :: x) (y0 :: y1 :: y2 :: y3 :: y) =
          sum + sqrdist x y := by
        simp only [sqrdist, List.zipWith_cons_cons, List.sum_cons, sum]
        ring
      have lengths : x.length = y.length := by simpa using same
      have step : accumulate variant sentinel now_thres (x0 :: x1 :: x2 :: x3 :: x)
          (y0 :: y1 :: y2 :: y3 :: y) ans = accumulate variant sentinel now_thres x y sum := by
        rw [accumulate]
        exact if_neg below
      rw [step, total]
      apply ih lengths
      simp only [List.length_cons] at four
      omega
  | case3 x y ans short =>
      have empty : x = [] := by
        by_contra filled
        have positive := List.length_pos_iff.mpr filled
        have long : 4 ≤ x.length := Nat.le_of_dvd positive four
        obtain ⟨x0, x1, x2, x3, restX, splitX⟩ := exists_four x long
        obtain ⟨y0, y1, y2, y3, restY, splitY⟩ := exists_four y (same ▸ long)
        exact short x0 x1 x2 x3 restX y0 y1 y2 y3 restY splitX splitY
      subst empty
      have emptyY : y = [] := List.eq_nil_of_length_eq_zero same.symm
      subst emptyY
      left
      simp [accumulate, sqrdist]

/-- The distance routine is exact up to the threshold. -/
theorem euclidean_sqr_spec (variant : Variant) (sentinel now_thres : K) {x y : Point K}
    (same : x.length = y.length) (four : 4 ∣ x.length) :
    euclidean_sqr variant sentinel x y now_thres = sqrdist x y ∨
      euclidean_sqr variant sentinel x y now_thres = sentinel ∧ now_thres < sqrdist x y := by
  have computed := accumulate_spec variant sentinel now_thres x y 0 same four
  rwa [zero_add] at computed

/-- The distance is at least the one along an axis. -/
theorem sq_axis_le_sqrdist {x y : Point K} (same : x.length = y.length) (axis : Nat) :
    (x.getD axis 0 - y.getD axis 0) ^ 2 ≤ sqrdist x y := by
  induction x generalizing y axis with
  | nil =>
      obtain rfl := List.eq_nil_of_length_eq_zero same.symm
      simp [sqrdist]
  | cons a x ih =>
      have positive : 0 < y.length := by
        rw [← same]
        exact Nat.succ_pos _
      obtain ⟨b, y, rfl⟩ := List.exists_cons_of_length_pos positive
      have rest : x.length = y.length := by simpa using same
      have total : sqrdist (a :: x) (b :: y) = (a - b) ^ 2 + sqrdist x y := by simp [sqrdist]
      rw [total]
      cases axis with
      | zero => exact le_add_of_nonneg_right (sqrdist_nonneg x y)
      | succ axis => exact (ih rest axis).trans (le_add_of_nonneg_left (sq_nonneg _))

end Distance

section Build

/-- All points in the leaves. -/
def Node.points : Node K → List (PointInBuild K)
  | .leaf pts => pts
  | .inner _ _ child0 child1 => child0.points ++ child1.points

/-- The points lie on their sides of the splits. -/
def Node.Sorted : Node K → Prop
  | .leaf _ => True
  | .inner axis split child0 child1 =>
      (∀ lp ∈ child0.points, lp.2.getD axis 0 ≤ split) ∧
        (∀ lp ∈ child1.points, split < lp.2.getD axis 0) ∧ child0.Sorted ∧ child1.Sorted

/-- The points of both sides are all points. -/
theorem divide_spec (axis : Nat) (split_val max : K) (points : List (PointInBuild K)) :
    ((divide axis split_val max points).1.points ++
        (divide axis split_val max points).2.points).Perm points ∧
      (∀ lp ∈ (divide axis split_val max points).1.points, lp.2.getD axis 0 ≤ split_val) ∧
      ∀ lp ∈ (divide axis split_val max points).2.points, split_val < lp.2.getD axis 0 := by
  induction points using List.reverseRecOn with
  | nil => simp [divide]
  | append_singleton points p ih =>
      obtain ⟨all, below, above⟩ := ih
      unfold divide at all below above ⊢
      rw [List.foldl_append, List.foldl_cons, List.foldl_nil]
      generalize List.foldl _ _ points = sides at all below above ⊢
      obtain ⟨left, right⟩ := sides
      dsimp only at all below above ⊢
      by_cases beyond : p.2.getD axis 0 > split_val
      · rw [if_pos beyond]
        refine ⟨?_, below, ?_⟩
        · rw [Side.add, ← List.append_assoc]
          exact all.append_right [p]
        · intro lp member
          rcases List.mem_append.mp member with earlier | last
          · exact above lp earlier
          · obtain rfl := List.mem_singleton.mp last
            exact beyond
      · rw [if_neg beyond]
        refine ⟨?_, ?_, above⟩
        · rw [Side.add, List.append_assoc]
          refine List.Perm.trans ?_ (all.append_right [p])
          rw [List.append_assoc]
          exact List.perm_append_comm.append_left left.points
        · intro lp member
          rcases List.mem_append.mp member with earlier | last
          · exact below lp earlier
          · obtain rfl := List.mem_singleton.mp last
            exact not_lt.mp beyond

variable (queue : PriorityQueue (Split K) K Split.range)

/-- A tree has the points it was built for on the sides of its splits. -/
theorem build_spec (points : List (PointInBuild K)) (stat : queue.State) (depth : Nat)
    (filled : queue.contents stat ≠ 0) :
    ∃ node, build queue points stat depth = some node ∧ node.points.Perm points ∧ node.Sorted := by
  have popped : ∀ split : Split K, queue.contents (queue.emplace (queue.pop stat) split) ≠ 0 := by
    intro split
    rw [queue.contents_emplace]
    exact Multiset.cons_ne_zero
  obtain ⟨sp, top⟩ := Option.isSome_iff_exists.mp (queue.top_isSome stat filled)
  rw [build, top, Option.bind_some]
  by_cases stop : sp.range < 10 ∨ points.length < 20 ∨ depth > 5
  · rw [dif_pos stop]
    exact ⟨.leaf points, rfl, List.Perm.refl _, trivial⟩
  · rw [dif_neg stop]
    have deeper : 6 - (depth + 1) < 6 - depth := by omega
    dsimp only
    obtain ⟨all, below, above⟩ := divide_spec sp.axis (sp.min + sp.range * (1 / 2)) sp.max points
    generalize divide sp.axis (sp.min + sp.range * (1 / 2)) sp.max points = sides at all below above ⊢
    obtain ⟨child0, built0, points0, sorted0⟩ :=
      build_spec sides.1.points _ (depth + 1)
        (popped ⟨sp.axis, sides.1.bounds.1, sides.1.bounds.2 - sides.1.bounds.1⟩)
    obtain ⟨child1, built1, points1, sorted1⟩ :=
      build_spec sides.2.points _ (depth + 1)
        (popped ⟨sp.axis, sides.2.bounds.1, sides.2.bounds.2 - sides.2.bounds.1⟩)
    refine ⟨.inner sp.axis (sp.min + sp.range * (1 / 2)) child0 child1, ?_, ?_, ?_⟩
    · rw [built0, Option.bind_some, built1, Option.map_some]
    · exact (points0.append points1).trans all
    · exact ⟨fun lp member => below lp (points0.mem_iff.mp member),
        fun lp member => above lp (points1.mem_iff.mp member), sorted0, sorted1⟩
  termination_by 6 - depth

end Build

section Results

variable (p : Point K)

def distances (pts : List (PointInBuild K)) : Multiset K := pts.map fun lp => sqrdist lp.2 p

/-- A point below the threshold has the distance unless there is none. -/
def Attained (pts : List (PointInBuild K)) (thres : K) (idx : Int) (d : K) : Prop :=
  idx = -1 ∧ d = thres ∨ ∃ lp ∈ pts, idx = lp.1 ∧ sqrdist lp.2 p = d ∧ d < thres

structure Nearest (pts : List (PointInBuild K)) (thres : K) (result : NNResult K) : Prop where
  sqrdist : result.sqrdist = smallest thres (distances p pts)
  attained : Attained p pts thres result.idx result.sqrdist

structure TwoNearest (pts : List (PointInBuild K)) (thres : K) (result : TwoNNResult K) : Prop where
  both : (result.sqrdist, result.sqrdist2) = twoSmallest (thres, thres) (distances p pts)
  attained : Attained p pts thres result.idx result.sqrdist

variable {p} {pts others : List (PointInBuild K)} {thres : K}

omit [LinearOrder K] in
theorem distances_append (pts others : List (PointInBuild K)) :
    distances p (pts ++ others) = distances p pts + distances p others := by
  simp [distances]

omit [LinearOrder K] in
theorem distances_last (pts : List (PointInBuild K)) (lp : PointInBuild K) :
    distances p (pts ++ [lp]) = KDTree.sqrdist lp.2 p ::ₘ distances p pts := by
  rw [distances_append, add_comm]
  rfl

omit [LinearOrder K] in
theorem distances_perm (same : pts.Perm others) : distances p pts = distances p others :=
  Multiset.coe_eq_coe.mpr (same.map _)

namespace Attained

variable {idx : Int} {d : K}

theorem mono (attained : Attained p pts thres idx d) (subset : pts ⊆ others) :
    Attained p others thres idx d := by
  rcases attained with none | ⟨lp, member, found⟩
  · exact Or.inl none
  · exact Or.inr ⟨lp, subset member, found⟩

theorem lt (attained : Attained p pts thres idx d) (found : idx ≠ -1) : d < thres := by
  rcases attained with ⟨none, _⟩ | ⟨_, _, _, _, below⟩
  · exact absurd none found
  · exact below

theorem eq (attained : Attained p pts thres idx d) (none : idx = -1) : d = thres := by
  rcases attained with ⟨_, same⟩ | ⟨lp, _, found, _⟩
  · exact same
  · omega

/-- A point below a lower threshold is below a higher one. -/
theorem raise (attained : Attained p pts thres idx d) (found : idx ≠ -1) {higher : K}
    (above : thres ≤ higher) : Attained p pts higher idx d := by
  rcases attained with ⟨none, _⟩ | ⟨lp, member, same, exact, below⟩
  · exact absurd none found
  · exact Or.inr ⟨lp, member, same, exact, below.trans_le above⟩

end Attained

theorem Nearest.perm {result : NNResult K} (nearest : Nearest p pts thres result)
    (same : pts.Perm others) : Nearest p others thres result :=
  ⟨distances_perm (p := p) same ▸ nearest.sqrdist, nearest.attained.mono same.subset⟩

theorem Nearest.bound {result : NNResult K} (nearest : Nearest p pts thres result) :
    result.sqrdist ≤ thres := nearest.sqrdist ▸ smallest_le

namespace TwoNearest

variable {result : TwoNNResult K}

theorem perm (nearest : TwoNearest p pts thres result) (same : pts.Perm others) :
    TwoNearest p others thres result :=
  ⟨distances_perm (p := p) same ▸ nearest.both, nearest.attained.mono same.subset⟩

theorem ordered (nearest : TwoNearest p pts thres result) : result.sqrdist ≤ result.sqrdist2 := by
  have places : (twoSmallest (thres, thres) (distances p pts)).1 ≤
      (twoSmallest (thres, thres) (distances p pts)).2 := twoSmallest_ordered le_rfl
  rwa [← nearest.both] at places

theorem bound (nearest : TwoNearest p pts thres result) : result.sqrdist2 ≤ thres := by
  have places : (twoSmallest (thres, thres) (distances p pts)).2 ≤ thres := twoSmallest_snd_le
  rwa [← nearest.both] at places

end TwoNearest

end Results

section Leaves

variable [IsStrictOrderedRing K] {variant : Variant} {sentinel : K} {p : Point K} {pts : List (PointInBuild K)} {thres : K}

/-- The comparison with a threshold is exact. -/
theorem euclidean_sqr_lt_iff (variant : Variant) {x : Point K} (same : x.length = p.length) (four : 4 ∣ x.length)
    {bound : K} (low : bound ≤ sentinel) :
    (euclidean_sqr variant sentinel x p bound < bound ↔ sqrdist x p < bound) ∧
      (sqrdist x p < bound → euclidean_sqr variant sentinel x p bound = sqrdist x p) := by
  rcases euclidean_sqr_spec variant sentinel bound same four with exact | ⟨given, above⟩
  · rw [exact]
    exact ⟨Iff.rfl, fun _ => rfl⟩
  · rw [given]
    exact ⟨⟨fun below => absurd below low.not_gt, fun below => absurd below above.not_gt⟩,
      fun below => absurd below above.not_gt⟩

theorem nnPass_spec {result : NNResult K} (nearest : Nearest p pts thres result)
    {lp : PointInBuild K} (same : lp.2.length = p.length) (four : 4 ∣ p.length)
    (low : thres ≤ sentinel) :
    Nearest p (pts ++ [lp]) thres (nnPass variant sentinel p result lp) := by
  obtain ⟨compared, exact⟩ := euclidean_sqr_lt_iff variant same (same ▸ four)
    (nearest.bound.trans low)
  have total : smallest thres (distances p (pts ++ [lp])) =
      min result.sqrdist (sqrdist lp.2 p) := by
    rw [distances_last, smallest_cons_last, ← nearest.sqrdist]
  rw [nnPass]
  by_cases nearer : sqrdist lp.2 p < result.sqrdist
  · rw [if_pos (compared.mpr nearer), exact nearer]
    refine ⟨?_, Or.inr ⟨lp, List.mem_append_right _ (List.mem_singleton_self lp), rfl, rfl,
      nearer.trans_le nearest.bound⟩⟩
    rw [total, min_eq_right nearer.le]
  · rw [if_neg (mt compared.mp nearer)]
    refine ⟨?_, nearest.attained.mono (List.subset_append_left pts [lp])⟩
    rw [total, min_eq_left (not_lt.mp nearer)]

theorem twoPass_spec {result : TwoNNResult K} (nearest : TwoNearest p pts thres result)
    {lp : PointInBuild K} (same : lp.2.length = p.length) (four : 4 ∣ p.length)
    (low : thres ≤ sentinel) :
    TwoNearest p (pts ++ [lp]) thres (twoPass variant sentinel p result lp) := by
  have ordered := nearest.ordered
  obtain ⟨compared, exact⟩ := euclidean_sqr_lt_iff variant same (same ▸ four)
    (nearest.bound.trans low)
  have total : twoSmallest (thres, thres) (distances p (pts ++ [lp])) =
      keepTwo (result.sqrdist, result.sqrdist2) (sqrdist lp.2 p) := by
    rw [distances_last, twoSmallest_cons_last, ← nearest.both]
  have kept := nearest.attained.mono (List.subset_append_left pts [lp])
  rw [twoPass]
  by_cases second : sqrdist lp.2 p < result.sqrdist2
  · rw [exact second]
    by_cases first : sqrdist lp.2 p < result.sqrdist
    · rw [if_pos first]
      refine ⟨?_, Or.inr ⟨lp, List.mem_append_right _ (List.mem_singleton_self lp), rfl, rfl,
        second.trans_le nearest.bound⟩⟩
      rw [total, keepTwo]
      simp [first.le, ordered]
    · rw [if_neg first]
      refine ⟨?_, kept⟩
      rw [total, keepTwo]
      simp [not_lt.mp first, second, second.le]
  · have notFirst : ¬ euclidean_sqr variant sentinel lp.2 p result.sqrdist2 < result.sqrdist :=
      fun below => second (compared.mp (below.trans_le ordered))
    rw [if_neg notFirst, if_neg (mt compared.mp second)]
    refine ⟨?_, kept⟩
    rw [total, keepTwo]
    have above := not_lt.mp second
    simp [ordered.trans above, above]

end Leaves

section Sides

variable {p : Point K} {near far : List (PointInBuild K)}
  {dist thres : K}

/-- The points of the other side are at least as far away as the plane. -/
def Beyond (p : Point K) (dist : K) (far : List (PointInBuild K)) : Prop :=
  ∀ lp ∈ far, dist * dist ≤ sqrdist lp.2 p

theorem Beyond.le (beyond : Beyond p dist far) {d : K} (below : d < dist * dist) :
    ∀ value ∈ distances p far, d ≤ value := by
  intro value member
  obtain ⟨lp, inside, rfl⟩ := List.mem_map.mp (Multiset.mem_coe.mp member)
  exact below.le.trans (beyond lp inside)

theorem nnSides_spec {nearer farther : K → NNResult K}
    (nearSpec : Nearest p near thres (nearer thres))
    (farSpec : ∀ t ≤ thres, Nearest p far t (farther t)) (beyond : Beyond p dist far) :
    Nearest p (near ++ far) thres (nnSides dist thres nearer farther) := by
  have total : smallest thres (distances p (near ++ far)) =
      smallest (nearer thres).sqrdist (distances p far) := by
    rw [distances_append, smallest_add, ← nearSpec.sqrdist]
  have kept := nearSpec.attained.mono (List.subset_append_left near far)
  rw [nnSides]
  by_cases none : (nearer thres).idx = -1
  · rw [if_pos none]
    have given := nearSpec.attained.eq none
    have whole := farSpec thres le_rfl
    refine ⟨?_, whole.attained.mono (List.subset_append_right near far)⟩
    rw [total, given, whole.sqrdist]
  · rw [if_neg none]
    by_cases closer : (nearer thres).sqrdist < dist * dist
    · rw [if_pos closer]
      refine ⟨?_, kept⟩
      rw [total, smallest_of_le (beyond.le closer)]
    · rw [if_neg closer]
      have rest := farSpec (nearer thres).sqrdist nearSpec.bound
      by_cases missed : (farther (nearer thres).sqrdist).idx = -1 ∨
          (nearer thres).sqrdist ≤ (farther (nearer thres).sqrdist).sqrdist
      · rw [if_pos missed]
        refine ⟨?_, kept⟩
        rw [total, ← rest.sqrdist]
        rcases missed with empty | worse
        · exact (rest.attained.eq empty).symm
        · exact le_antisymm worse rest.bound
      · rw [if_neg missed]
        rw [not_or] at missed
        refine ⟨?_, (rest.attained.mono (List.subset_append_right near far)).raise missed.1
          nearSpec.bound⟩
        rw [total, rest.sqrdist]

theorem twoSides_spec {nearer farther : K → TwoNNResult K} {fartherOne : K → NNResult K}
    (nearSpec : TwoNearest p near thres (nearer thres))
    (farSpec : ∀ t ≤ thres, TwoNearest p far t (farther t))
    (oneSpec : ∀ t ≤ thres, Nearest p far t (fartherOne t)) (beyond : Beyond p dist far) :
    TwoNearest p (near ++ far) thres (twoSides dist thres nearer farther fartherOne) := by
  have total : twoSmallest (thres, thres) (distances p (near ++ far)) =
      twoSmallest ((nearer thres).sqrdist, (nearer thres).sqrdist2) (distances p far) := by
    rw [distances_append, twoSmallest_add, ← nearSpec.both]
  have kept := nearSpec.attained.mono (List.subset_append_left near far)
  rw [twoSides]
  dsimp only
  generalize nearer thres = ret at nearSpec total kept ⊢
  by_cases none : ret.idx = -1
  · rw [if_pos none]
    have given := nearSpec.attained.eq none
    have second : ret.sqrdist2 = thres := le_antisymm nearSpec.bound (given ▸ nearSpec.ordered)
    have whole := farSpec thres le_rfl
    refine ⟨?_, whole.attained.mono (List.subset_append_right near far)⟩
    rw [total, given, second, whole.both]
  · rw [if_neg none]
    by_cases bothCloser : ret.sqrdist2 < dist * dist
    · rw [if_pos bothCloser]
      refine ⟨?_, kept⟩
      rw [total, twoSmallest_of_le (beyond.le (nearSpec.ordered.trans_lt bothCloser)),
        smallest_of_le (beyond.le bothCloser)]
    · rw [if_neg bothCloser]
      by_cases closer : ret.sqrdist < dist * dist
      · rw [if_pos closer]
        have rest := oneSpec ret.sqrdist2 nearSpec.bound
        refine ⟨?_, kept⟩
        rw [total, twoSmallest_of_le (beyond.le closer), ← rest.sqrdist]
        by_cases less : (fartherOne ret.sqrdist2).sqrdist < ret.sqrdist2
        · rw [if_pos less]
        · rw [if_neg less, le_antisymm rest.bound (not_lt.mp less)]
      · rw [if_neg closer]
        have rest := farSpec ret.sqrdist2 nearSpec.bound
        have merged := twoSmallest_merge nearSpec.ordered (distances p far)
        rw [← rest.both] at merged
        dsimp only at merged
        generalize farther ret.sqrdist2 = ret2 at rest merged ⊢
        by_cases missed : ret2.idx = -1
        · rw [if_pos missed]
          have given := rest.attained.eq missed
          refine ⟨?_, kept⟩
          rw [total, merged, given, if_neg nearSpec.ordered.not_gt, min_self]
        · rw [if_neg missed]
          by_cases nearest : ret2.sqrdist < ret.sqrdist
          · rw [if_pos nearest]
            refine ⟨?_, (rest.attained.mono (List.subset_append_right near far)).raise missed
              nearSpec.bound⟩
            rw [total, merged, if_pos nearest, min_comm, min_def_lt]
          · rw [if_neg nearest]
            refine ⟨?_, kept⟩
            rw [total, merged, if_neg nearest, min_comm, min_def_lt]

end Sides

section Trees

variable [IsStrictOrderedRing K] (variant : Variant) {sentinel : K} {p : Point K}

/-- The plane of a split lies between the query and the points on the other side. -/
theorem beyond_of_between {axis : Nat} {split : K} {pts : List (PointInBuild K)}
    (same : ∀ lp ∈ pts, lp.2.length = p.length)
    (between : ∀ lp ∈ pts, p.getD axis 0 ≤ split ∧ split ≤ lp.2.getD axis 0 ∨
      split ≤ p.getD axis 0 ∧ lp.2.getD axis 0 ≤ split) :
    Beyond p (p.getD axis 0 - split) pts := by
  intro lp member
  refine le_trans ?_ (sq_axis_le_sqrdist (same lp member) axis)
  rcases between lp member with ⟨below, above⟩ | ⟨above, below⟩ <;> nlinarith

variable {node : Node K}

theorem nn_in_node_spec (sorted : node.Sorted)
    (same : ∀ lp ∈ node.points, lp.2.length = p.length) (four : 4 ∣ p.length) {thres : K}
    (low : thres ≤ sentinel) :
    Nearest p node.points thres (nn_in_node variant sentinel p node thres) := by
  induction node generalizing thres with
  | leaf pts =>
      rw [nn_in_node, Node.points]
      refine foldl_prefixes (motive := fun done result => Nearest p done thres result) pts
        ⟨rfl, Or.inl ⟨rfl, rfl⟩⟩ fun done lp result member nearest => ?_
      exact nnPass_spec nearest (same lp member) four low
  | inner axis split child0 child1 ih0 ih1 =>
      obtain ⟨below, above, sorted0, sorted1⟩ := sorted
      have same0 : ∀ lp ∈ child0.points, lp.2.length = p.length :=
        fun lp member => same lp (List.mem_append_left _ member)
      have same1 : ∀ lp ∈ child1.points, lp.2.length = p.length :=
        fun lp member => same lp (List.mem_append_right _ member)
      rw [nn_in_node, Node.points]
      by_cases left : p.getD axis 0 - split ≤ 0
      · rw [if_pos left]
        refine nnSides_spec (ih0 sorted0 same0 low)
          (fun t bound => ih1 sorted1 same1 (bound.trans low)) (beyond_of_between same1 ?_)
        exact fun lp member => Or.inl ⟨sub_nonpos.mp left, (above lp member).le⟩
      · rw [if_neg left]
        refine Nearest.perm ?_ List.perm_append_comm
        refine nnSides_spec (ih1 sorted1 same1 low)
          (fun t bound => ih0 sorted0 same0 (bound.trans low)) (beyond_of_between same0 ?_)
        exact fun lp member => Or.inr ⟨(sub_pos.mp (not_le.mp left)).le, below lp member⟩

theorem two_nn_in_node_spec (sorted : node.Sorted)
    (same : ∀ lp ∈ node.points, lp.2.length = p.length) (four : 4 ∣ p.length) {thres : K}
    (low : thres ≤ sentinel) :
    TwoNearest p node.points thres (two_nn_in_node variant sentinel p node thres) := by
  induction node generalizing thres with
  | leaf pts =>
      rw [two_nn_in_node, Node.points]
      refine foldl_prefixes (motive := fun done result => TwoNearest p done thres result) pts
        ⟨rfl, Or.inl ⟨rfl, rfl⟩⟩ fun done lp result member nearest => ?_
      exact twoPass_spec nearest (same lp member) four low
  | inner axis split child0 child1 ih0 ih1 =>
      obtain ⟨below, above, sorted0, sorted1⟩ := sorted
      have same0 : ∀ lp ∈ child0.points, lp.2.length = p.length :=
        fun lp member => same lp (List.mem_append_left _ member)
      have same1 : ∀ lp ∈ child1.points, lp.2.length = p.length :=
        fun lp member => same lp (List.mem_append_right _ member)
      rw [two_nn_in_node, Node.points]
      by_cases first : p.getD axis 0 - split > 0
      · rw [if_pos first]
        refine TwoNearest.perm ?_ List.perm_append_comm
        refine twoSides_spec (ih1 sorted1 same1 low)
          (fun t bound => ih0 sorted0 same0 (bound.trans low))
          (fun t bound => nn_in_node_spec variant sorted0 same0 four (bound.trans low))
          (beyond_of_between same0 ?_)
        exact fun lp member => Or.inr ⟨(sub_pos.mp first).le, below lp member⟩
      · rw [if_neg first]
        refine twoSides_spec (ih0 sorted0 same0 low)
          (fun t bound => ih1 sorted1 same1 (bound.trans low))
          (fun t bound => nn_in_node_spec variant sorted1 same1 four (bound.trans low))
          (beyond_of_between same1 ?_)
        exact fun lp member => Or.inl ⟨sub_nonpos.mp (not_lt.mp first), (above lp member).le⟩

end Trees

section Exactness

/-- The index is that of a point with the distance, or -1 when no point is below the threshold. -/
def IndexOf (points : List (Point K)) (p : Point K) (thres : K) (idx : Int) (d : K) : Prop :=
  (idx = -1 ↔ ∀ x ∈ points, thres ≤ sqrdist x p) ∧ (idx = -1 → d = thres) ∧
    (idx ≠ -1 → d < thres ∧ ∃ i : Nat, idx = i ∧ ∃ x, points[i]? = some x ∧ sqrdist x p = d)

/-- The smallest distance below the threshold was found. -/
structure ExactNearest (points : List (Point K)) (p : Point K) (thres : K)
    (result : NNResult K) : Prop where
  index : IndexOf points p thres result.idx result.sqrdist
  least : ∀ x ∈ points, result.sqrdist ≤ sqrdist x p

/-- The two smallest ones of all distances and twice the threshold were found. -/
structure ExactTwoNearest (points : List (Point K)) (p : Point K) (thres : K)
    (result : TwoNNResult K) : Prop where
  index : IndexOf points p thres result.idx result.sqrdist
  ordered : result.sqrdist ≤ result.sqrdist2
  least : ∃ rest : Multiset K,
    thres ::ₘ thres ::ₘ (points.map fun x => sqrdist x p : Multiset K) =
      result.sqrdist ::ₘ result.sqrdist2 ::ₘ rest ∧ ∀ d ∈ rest, result.sqrdist2 ≤ d

/-- The points with their indices. -/
def indexed (points : List (Point K)) : List (PointInBuild K) := points.zipIdx.map Prod.swap

omit [LinearOrder K] in
theorem distances_indexed (points : List (Point K)) (p : Point K) :
    distances p (indexed points) = (points.map fun x => sqrdist x p : Multiset K) := by
  rw [distances, indexed, List.map_map]
  conv_rhs => rw [← List.zipIdx_map_fst 0 points, List.map_map]
  rfl

omit [Field K] [LinearOrder K] in
theorem mem_indexed {points : List (Point K)} {lp : PointInBuild K} :
    lp ∈ indexed points ↔ points[lp.1]? = some lp.2 := by
  rw [indexed, List.mem_map]
  constructor
  · rintro ⟨⟨x, i⟩, member, rfl⟩
    exact List.mem_zipIdx_iff_getElem?.mp member
  · intro found
    exact ⟨lp.swap, List.mem_zipIdx_iff_getElem?.mpr found, rfl⟩

theorem indexOf_of_attained {points : List (Point K)} {p : Point K} {thres d : K} {idx : Int}
    (attained : Attained p (indexed points) thres idx d)
    (least : d = smallest thres (distances p (indexed points))) :
    IndexOf points p thres idx d := by
  have below : ∀ bound, bound ≤ d ↔ bound ≤ thres ∧ ∀ x ∈ points, bound ≤ sqrdist x p := by
    intro bound
    rw [least, le_smallest_iff, distances_indexed]
    simp
  refine ⟨⟨fun none => ?_, fun far => ?_⟩, attained.eq, fun found => ?_⟩
  · exact ((below thres).mp (attained.eq none).ge).2
  · by_contra found
    exact absurd (attained.lt found) ((below thres).mpr ⟨le_rfl, far⟩).not_gt
  · rcases attained with ⟨none, _⟩ | ⟨lp, member, same, exact, lower⟩
    · exact absurd none found
    · refine ⟨lower, lp.1, same, lp.2, mem_indexed.mp member, exact⟩

theorem build_dim_stat_filled (queue : PriorityQueue (Split K) K Split.range) (sentinel : K)
    {D : Nat} (positive : 0 < D) (pts : List (Point K)) :
    queue.contents (build_dim_stat queue sentinel D pts) ≠ 0 := by
  obtain ⟨D, rfl⟩ := Nat.exists_eq_succ_of_ne_zero positive.ne'
  rw [build_dim_stat, Nat.succ_eq_add_one, List.range_succ, List.foldl_append, List.foldl_cons,
    List.foldl_nil, queue.contents_emplace]
  exact Multiset.cons_ne_zero

variable [IsStrictOrderedRing K]

/-- Both searches of a tree agree with a search of all of its points. -/
theorem search_exact (queue : PriorityQueue (Split K) K Split.range) (variant : Variant)
    {sentinel : K} {points : List (Point K)} {D : Nat} (filled : points ≠ []) (positive : 0 < D)
    (four : 4 ∣ D) (common : ∀ x ∈ points, x.length = D) {p : Point K} (query : p.length = D)
    {thres : K} (low : thres ≤ sentinel) :
    ∃ root, construct queue sentinel points = some root ∧
      ExactNearest points p thres (nn_in_node variant sentinel p root thres) ∧
        ExactTwoNearest points p thres (two_nn_in_node variant sentinel p root thres) := by
  obtain ⟨first, others, rfl⟩ := List.exists_cons_of_ne_nil filled
  have dimension : first.length = D := common first List.mem_cons_self
  obtain ⟨root, built, all, sorted⟩ := build_spec queue (indexed (first :: others))
    (build_dim_stat queue sentinel first.length (first :: others)) 0
    (build_dim_stat_filled queue sentinel (dimension ▸ positive) _)
  have same : ∀ lp ∈ root.points, lp.2.length = p.length := by
    intro lp member
    have found := mem_indexed.mp (all.mem_iff.mp member)
    rw [query, common lp.2 (List.mem_of_getElem? found)]
  have nearest := (nn_in_node_spec variant sorted same (query ▸ four) low).perm all
  have both := (two_nn_in_node_spec variant sorted same (query ▸ four) low).perm all
  refine ⟨root, built, ⟨indexOf_of_attained nearest.attained nearest.sqrdist, ?_⟩,
    ⟨indexOf_of_attained both.attained ?_, both.ordered, ?_⟩⟩
  · have least := (le_smallest_iff.mp nearest.sqrdist.le).2
    rw [distances_indexed] at least
    exact fun x member => least _ (Multiset.mem_coe.mpr (List.mem_map_of_mem member))
  · exact (congrArg Prod.fst both.both).trans twoSmallest_fst
  · have ordered : (thres, thres).1 ≤ (thres, thres).2 := le_rfl
    obtain ⟨rest, split, bounds⟩ :=
      twoSmallest_spec ordered (distances p (indexed (first :: others)))
    rw [← both.both] at split bounds
    rw [distances_indexed] at split
    exact ⟨rest, split, bounds⟩

/-- Four points in a plane, two of which are equal. -/
def corners : List (Point ℚ) := [[0, 0, 0, 0], [40, 0, 0, 0], [40, 0, 0, 0], [0, -30, 0, 0]]

theorem corners_exact :
    ∃ root, construct (PriorityQueue.ofList Split.range) 100000 corners = some root ∧
      ExactNearest corners [39, 1, 0, 0] 5000
        (nn_in_node .sse 100000 [39, 1, 0, 0] root 5000) ∧
      ExactTwoNearest corners [39, 1, 0, 0] 5000
        (two_nn_in_node .sse 100000 [39, 1, 0, 0] root 5000) := by
  refine search_exact (PriorityQueue.ofList Split.range) .sse ?_ (by decide : 0 < 4) (by decide)
    ?_ rfl (by norm_num)
  · exact List.cons_ne_nil _ _
  · simp [corners]

end Exactness

end KDTree

end CodeCollect.OpenPano
