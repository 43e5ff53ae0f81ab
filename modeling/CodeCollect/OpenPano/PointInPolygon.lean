import CodeCollect.OpenPano.ConvexHullSound

namespace CodeCollect.OpenPano

open Library.MonotoneChain Library.PlaneHull ConvexHull

/-- A polygon with the angles of its vertices around its center of mass, in order. -/
structure PointInPolygon (K : Type) where
  poly : Polygon K
  com : Vec2D K
  slopes : List (K ×ₗ Nat)

namespace PointInPolygon

section Code

variable {K : Type} [Field K] [LinearOrder K] (atan2 : K → K → K)

def EPS : K := 1 / ((1000000 : Nat) : K)

def get_com (poly : List (Vec2D K)) : Vec2D K :=
  let ret := poly.foldl (· + ·) 0
  (1 / (poly.length : K)) • ret

def slope (com p : Vec2D K) : K := atan2 (p.2 - com.2) (p.1 - com.1)

def create (p : Polygon K) : PointInPolygon K :=
  let com := get_com p
  { poly := p
    com := com
    slopes := (p.zipIdx.map fun v => toLex (slope atan2 com v.1, v.2)).insertionSort (· ≤ ·) }

variable (self : PointInPolygon K)

/-- The last entry before a key and the first one from there on. The last entry of all is before the
first one. -/
def around {A : Type} [LinearOrder A] (slopes : List A) (k : A) : A × A :=
  match slopes.dropWhile (· < k) with
  | [] => (slopes.getLast?.getD k, slopes.head?.getD k)
  | itr :: _ =>
      ((slopes.takeWhile (· < k)).getLast?.getD (slopes.getLast?.getD k), itr)

/-- The two vertices that a point is between, as seen from the center. -/
def edge (p : Vec2D K) : Vec2D K × Vec2D K :=
  let idx := around self.slopes (toLex (slope atan2 self.com p, 0))
  (self.poly.getD (ofLex idx.1).2 0, self.poly.getD (ofLex idx.2).2 0)

def in_polygon (p : Vec2D K) : Bool :=
  let (p1, p2) := self.edge atan2 p
  let o1 := side p1 p2 self.com
  let o2 := side p1 p2 p
  if o1 * o2 < -EPS then false else true

end Code

section Search

variable {A : Type} [LinearOrder A] {slopes : List A} {k : A}

theorem le_getLast (sorted : slopes.Pairwise (· ≤ ·)) {last : A}
    (found : slopes.getLast? = some last) : last ∈ slopes ∧ ∀ entry ∈ slopes, entry ≤ last := by
  obtain ⟨others, rfl⟩ := List.getLast?_eq_some_iff.mp found
  refine ⟨List.mem_append_right _ (List.mem_singleton_self last), fun entry member => ?_⟩
  rcases List.mem_append.mp member with before | same
  · exact (List.pairwise_append.mp sorted).2.2 entry before last (List.mem_singleton_self last)
  · exact (List.mem_singleton.mp same).le

theorem head_le (sorted : slopes.Pairwise (· ≤ ·)) {first : A}
    (found : slopes.head? = some first) : first ∈ slopes ∧ ∀ entry ∈ slopes, first ≤ entry := by
  obtain ⟨others, rfl⟩ := List.head?_eq_some_iff.mp found
  refine ⟨List.mem_cons_self .., fun entry member => ?_⟩
  rcases List.mem_cons.mp member with same | later
  · exact same.ge
  · exact List.rel_of_pairwise_cons sorted later

/-- No entry is between the two that are found, or they are the last and the first one. -/
theorem around_spec (sorted : slopes.Pairwise (· ≤ ·)) (filled : slopes ≠ []) :
    (around slopes k).1 ∈ slopes ∧ (around slopes k).2 ∈ slopes ∧
      (((around slopes k).1 < k ∧ k ≤ (around slopes k).2 ∧
          ∀ entry ∈ slopes, entry ≤ (around slopes k).1 ∨ (around slopes k).2 ≤ entry) ∨
        (∀ entry ∈ slopes, entry ≤ (around slopes k).1 ∧ (around slopes k).2 ≤ entry) ∧
          ((around slopes k).1 < k ∨ k ≤ (around slopes k).2)) := by
  obtain ⟨first, head⟩ := Option.isSome_iff_exists.mp (List.isSome_head?.mpr filled)
  have tail := List.getLast?_eq_some_getLast filled
  obtain ⟨memberF, least⟩ := head_le sorted head
  obtain ⟨memberL, greatest⟩ := le_getLast sorted tail
  generalize slopes.getLast filled = last at tail memberL greatest
  have split : slopes.takeWhile (· < k) ++ slopes.dropWhile (· < k) = slopes :=
    List.takeWhile_append_dropWhile
  have before : ∀ entry ∈ slopes.takeWhile (· < k), entry < k := by
    intro entry member
    have passed : decide (entry < k) = true := List.mem_takeWhile_imp (p := (· < k)) member
    exact of_decide_eq_true passed
  rw [around]
  cases rest : slopes.dropWhile (· < k) with
  | nil =>
      rw [rest, List.append_nil] at split
      rw [split] at before
      rw [head, tail]
      exact ⟨memberL, memberF,
        .inr ⟨fun entry member => ⟨greatest entry member, least entry member⟩,
          .inl (before last memberL)⟩⟩
  | cons itr later =>
      have reached : k ≤ itr := by
        have stopped := List.head_dropWhile_not (fun entry => decide (entry < k))
          (l := slopes) (by rw [rest]; exact List.cons_ne_nil _ _)
        simp only [rest, List.head_cons, decide_eq_false_iff_not, not_lt] at stopped
        exact stopped
      rw [rest] at split
      have member : itr ∈ slopes := by
        rw [← split]
        exact List.mem_append_right _ (List.mem_cons_self ..)
      have sortedBoth := sorted
      rw [← split, List.pairwise_append] at sortedBoth
      obtain ⟨sortedB, sortedR, across⟩ := sortedBoth
      have lower : ∀ entry ∈ itr :: later, itr ≤ entry := (head_le sortedR rfl).2
      cases front : (slopes.takeWhile (· < k)).getLast? with
      | some previous =>
          obtain ⟨inside, upper⟩ := le_getLast sortedB front
          refine ⟨?_, member, .inl ⟨before previous inside, reached, fun entry present => ?_⟩⟩
          · rw [← split]
            exact List.mem_append_left _ inside
          · rw [← split] at present
            exact (List.mem_append.mp present).imp (upper entry) (lower entry)
      | none =>
          rw [List.getLast?_eq_none_iff.mp front, List.nil_append] at split
          rw [tail]
          refine ⟨memberL, member, .inr ⟨fun entry present => ⟨greatest entry present, ?_⟩,
            .inr reached⟩⟩
          rw [← split] at present
          exact lower entry present

end Search

section Edge

variable {K : Type} [Field K] [LinearOrder K] {atan2 : K → K → K} {poly : Polygon K} {p : Vec2D K}

/-- The angles of vectors have the order of the directions, from minus half a turn up to half a
turn. -/
def Angles (atan2 : K → K → K) : Prop :=
  ∀ u v : Vec2D K, u ≠ 0 → v ≠ 0 → (atan2 u.2 u.1 < atan2 v.2 v.1 ↔ Earlier u v)

omit [LinearOrder K] in
theorem get_com_eq (poly : List (Vec2D K)) : get_com poly = centroid poly := by
  rw [get_com, centroid, List.sum_eq_foldl]

theorem mem_slopes {entry : K ×ₗ Nat} : entry ∈ (create atan2 poly).slopes ↔
    ∃ v i, poly[i]? = some v ∧ entry = toLex (slope atan2 (get_com poly) v, i) := by
  simp only [create, List.mem_insertionSort, List.mem_map, Prod.exists,
    List.mk_mem_zipIdx_iff_getElem?, eq_comm (a := entry)]

theorem slopes_sorted : (create atan2 poly).slopes.Pairwise (· ≤ ·) :=
  List.pairwise_insertionSort _ _

theorem slopes_ne_nil (filled : poly ≠ []) : (create atan2 poly).slopes ≠ [] := by
  obtain ⟨v, rest, rfl⟩ := List.exists_cons_of_ne_nil filled
  exact List.ne_nil_of_mem (mem_slopes.mpr ⟨v, 0, rfl, rfl⟩)

theorem slope_lt (angles : Angles atan2) {com u v : Vec2D K} (first : u ≠ com) (second : v ≠ com) :
    slope atan2 com u < slope atan2 com v ↔ Earlier (u - com) (v - com) :=
  angles _ _ (sub_ne_zero.mpr first) (sub_ne_zero.mpr second)

omit [Field K] in
theorem key_le {x y : K} {i j : Nat} (ordered : toLex (x, i) ≤ toLex (y, j)) : x ≤ y :=
  Prod.Lex.monotone_fst_ofLex ordered

omit [Field K] in
theorem key_lt {x y : K} {i : Nat} (ordered : toLex (x, i) < toLex (y, 0)) : x < y := by
  rcases Prod.Lex.toLex_lt_toLex.mp ordered with smaller | ⟨-, impossible⟩
  · exact smaller
  · exact absurd impossible (Nat.not_lt_zero i)

/-- The found vertices follow each other around the center, and the point is between them. -/
theorem edge_spec (angles : Angles atan2) (filled : poly ≠ [])
    (center : ∀ v ∈ poly, v ≠ get_com poly) (p : Vec2D K) :
    ∃ a ∈ poly, ∃ b ∈ poly, (create atan2 poly).edge atan2 p = (a, b) ∧
      Neighbours {x | ∃ v ∈ poly, x = v - get_com poly} (a - get_com poly) (b - get_com poly) ∧
      (p ≠ get_com poly → Faces (a - get_com poly) (b - get_com poly) (p - get_com poly)) := by
  have sorted : (create atan2 poly).slopes.Pairwise (· ≤ ·) := slopes_sorted
  obtain ⟨memberA, memberB, found⟩ := around_spec
    (k := toLex (slope atan2 (get_com poly) p, 0)) sorted (slopes_ne_nil filled)
  obtain ⟨a, i, atI, entryA⟩ := mem_slopes.mp memberA
  obtain ⟨b, j, atJ, entryB⟩ := mem_slopes.mp memberB
  have insideA := List.mem_of_getElem? atI
  have insideB := List.mem_of_getElem? atJ
  have offA := center a insideA
  have offB := center b insideB
  have each {v : Vec2D K} (member : v ∈ poly) :
      ∃ n, toLex (slope atan2 (get_com poly) v, n) ∈ (create atan2 poly).slopes := by
    obtain ⟨n, atN⟩ := List.mem_iff_getElem?.mp member
    exact ⟨n, mem_slopes.mpr ⟨v, n, atN, rfl⟩⟩
  rw [entryA, entryB] at found
  refine ⟨a, insideA, b, insideB, ?_, ?_, fun off => ?_⟩
  · change (poly.getD (ofLex (around _ (toLex (slope atan2 (get_com poly) p, 0))).1).2 0,
      poly.getD (ofLex (around _ (toLex (slope atan2 (get_com poly) p, 0))).2).2 0) = _
    rw [entryA, entryB, List.getD_eq_getElem?_getD, List.getD_eq_getElem?_getD]
    change (poly[i]?.getD 0, poly[j]?.getD 0) = _
    rw [atI, atJ]
    rfl
  · rcases found with ⟨below, above, free⟩ | ⟨ends, -⟩
    · refine .inl ⟨?_, ?_⟩
      · rw [← slope_lt angles offA offB]
        exact (key_lt below).trans_le (key_le above)
      · rintro - ⟨v, member, rfl⟩ after before
        rw [← slope_lt angles offA (center v member)] at after
        rw [← slope_lt angles (center v member) offB] at before
        obtain ⟨n, entry⟩ := each member
        rcases free _ entry with lower | upper
        · exact after.not_ge (key_le lower)
        · exact before.not_ge (key_le upper)
    · refine .inr ⟨?_, ?_⟩
      · rw [← slope_lt angles offA offB, not_lt]
        exact key_le (entryA ▸ (ends _ memberA).2)
      · rintro - ⟨v, member, rfl⟩
        obtain ⟨n, entry⟩ := each member
        rw [← slope_lt angles offA (center v member), ← slope_lt angles (center v member) offB,
          not_lt, not_lt]
        exact ⟨key_le (ends _ entry).1, key_le (ends _ entry).2⟩
  · rw [Faces, ← slope_lt angles offA offB, ← slope_lt angles offA off,
      ← slope_lt angles offB off, not_lt, not_lt]
    rcases found with ⟨below, above, -⟩ | ⟨ends, side⟩
    · exact .inl ⟨(key_lt below).trans_le (key_le above), key_lt below, key_le above⟩
    · exact .inr ⟨key_le (entryA ▸ (ends _ memberA).2), side.imp key_lt key_le⟩

theorem in_polygon_iff {a b : Vec2D K} (found : (create atan2 poly).edge atan2 p = (a, b)) :
    (create atan2 poly).in_polygon atan2 p = true ↔
      -EPS ≤ side a b (get_com poly) * side a b p := by
  rw [in_polygon, found]
  change (if side a b (get_com poly) * side a b p < -EPS then false else true) = true ↔ _
  split
  · rename_i below
    exact iff_of_false Bool.false_ne_true below.not_ge
  · rename_i near
    exact iff_of_true rfl (not_lt.mp near)

theorem exists_ne (spread : ¬ Collinear K {q | q ∈ poly}) (v : Vec2D K) : ∃ w ∈ poly, w ≠ v := by
  by_contra none
  simp only [not_exists, not_and, not_not] at none
  exact spread ((collinear_singleton K v).subset none)

variable [IsStrictOrderedRing K]

/-- The line of the found vertices has the polygon on its left, and it tells its points. -/
theorem edge_decides (angles : Angles atan2) (spread : ¬ Collinear K {q | q ∈ poly})
    (extreme : ∀ v ∈ poly, v ∈ Set.extremePoints K (convexHull K {q | q ∈ poly})) (p : Vec2D K) :
    ∃ a ∈ poly, ∃ b ∈ poly, (create atan2 poly).edge atan2 p = (a, b) ∧
      0 < side a b (get_com poly) ∧ (∀ v ∈ poly, 0 ≤ side a b v) ∧
      (p ∈ convexHull K {q | q ∈ poly} ↔ 0 ≤ side a b p) := by
  have center : ∀ v ∈ poly, v ≠ get_com poly := by
    intro v member same
    obtain ⟨w, other, differ⟩ := exists_ne spread v
    rw [get_com_eq] at same
    exact centroid_ne (extreme v member) member other differ same.symm
  have filled : poly ≠ [] := by
    obtain ⟨w, member, -⟩ := exists_ne spread 0
    exact List.ne_nil_of_mem member
  obtain ⟨a, insideA, b, insideB, found, neighbours, faces⟩ := edge_spec angles filled center p
  rw [get_com_eq] at *
  have inside := centroid_mem (K := K) filled
  have offB := sub_ne_zero.mpr (center b insideB)
  obtain ⟨q, memberQ, left⟩ :=
    exists_left_of_centroid spread (sub_ne_zero.mpr (center a insideA))
  have ahead := neighbours.turn offB ⟨q, memberQ, rfl⟩ left
  have supports : ∀ v ∈ poly, 0 ≤ side a b v := fun v member =>
    supporting (extreme a insideA) (extreme b insideB) inside ahead member
      fun after before => neighbours.empty ahead ⟨v, member, rfl⟩ after before
  refine ⟨a, insideA, b, insideB, found, ?_, supports, fun member => ?_, fun closed => ?_⟩
  · rw [side_eq_turn, turn_center]
    exact ahead
  · exact left_of_mem_hull supports member
  · by_cases off : p = centroid poly
    · rw [off]
      exact inside
    · obtain ⟨after, before⟩ := (faces off).cone (sub_ne_zero.mpr off) ahead
      exact mem_hull_of_wedge (extreme a insideA).1 (extreme b insideB).1 inside ahead after before
        closed

end Edge

section Hull

variable {K : Type} [Field K] [LinearOrder K] [IsStrictOrderedRing K]

/-- The vertices of the hull are extreme, also when there are three points or the first vertex is
listed again. -/
theorem convex_hull_extreme (pts : List (Vec2D K)) (spread : ¬ Collinear K {q | q ∈ pts}) :
    convexHull K {q | q ∈ convex_hull pts} = convexHull K {q | q ∈ pts} ∧
      ∀ v ∈ convex_hull pts, v ∈ Set.extremePoints K (convexHull K {q | q ∈ pts}) := by
  rcases le_or_gt pts.length 3 with few | many
  · have same : convex_hull pts = pts := by
      rw [convex_hull, if_pos few]
    rw [same]
    refine ⟨rfl, ?_⟩
    rcases pts with _ | ⟨x, _ | ⟨y, _ | ⟨z, _ | ⟨w, rest⟩⟩⟩⟩
    · exact absurd ((collinear_empty K (Vec2D K)).subset (by simp)) spread
    · exact absurd ((collinear_singleton K x).subset (by simp)) spread
    · refine absurd ((collinear_pair K x y).subset fun q member => ?_) spread
      simpa using member
    · have bend : turn x y z ≠ 0 := by
        refine fun straight => spread ((collinear_triple straight).subset fun q member => ?_)
        simpa using member
      have only : ∀ q ∈ [x, y, z], q = x ∨ q = y ∨ q = z := fun q member => by
        simpa using member
      intro v member
      rcases only v member with rfl | rfl | rfl
      · refine triangle_extreme (a := z) (b := y) ?_ member fun q other => ?_
        · rw [turn_cycle, turn_cycle]
          exact bend
        · rcases only q other with rfl | rfl | rfl <;> simp
      · exact triangle_extreme bend member only
      · refine triangle_extreme (a := y) (b := x) ?_ member fun q other => ?_
        · rw [turn_cycle]
          exact bend
        · rcases only q other with rfl | rfl | rfl <;> simp
    · simp only [List.length_cons] at few
      omega
  · obtain ⟨lowest, highest, right, left, halves, polygon⟩ := convex_hull_halves pts many spread
    have listed : ∀ v ∈ convex_hull pts, v ∈ right.reverse ++ left.reverse := by
      intro v member
      rw [polygon, List.mem_append] at member
      rcases member with vertex | again
      · exact vertex
      · rw [List.mem_singleton.mp again, List.mem_append, List.mem_reverse]
        exact .inl (List.mem_of_getLast? halves.bottom)
    refine ⟨Set.Subset.antisymm ?_ ?_, fun v member => ?_⟩
    · exact convexHull_mono fun v member => halves.inside (listed v member)
    · refine convexHull_min (fun x inside => ?_) (convex_convexHull K _)
      refine convexHull_mono (fun v vertex => ?_) (halves.mem_hull inside)
      change v ∈ convex_hull pts
      rw [polygon]
      exact List.mem_append_left _ vertex
    · exact ((halves.isHull spread).extreme v).mp (listed v member)

end Hull

section Arg

/-- The function of the standard library on real numbers. -/
noncomputable def atan2 (y x : ℝ) : ℝ := Complex.arg ⟨x, y⟩

theorem above_iff (u : Vec2D ℝ) : Above u ↔ 0 < atan2 u.2 u.1 := by
  rw [atan2, lt_iff_le_and_ne, ne_comm, ne_eq, Complex.arg_nonneg_iff, Complex.arg_eq_zero_iff,
    Above]
  constructor
  · rintro (high | ⟨level, left⟩)
    · exact ⟨high.le, fun flat => high.ne' flat.2⟩
    · exact ⟨level.ge, fun flat => left.not_ge flat.1⟩
  · rintro ⟨high, apart⟩
    rcases high.lt_or_eq with up | level
    · exact .inl up
    · exact .inr ⟨level.symm, not_le.mp fun right => apart ⟨right, level.symm⟩⟩

/-- The turn of two vectors is the sine of the angle between them. -/
theorem cross_eq_sin (u v : Vec2D ℝ) : cross u v =
    ‖(⟨u.1, u.2⟩ : ℂ)‖ * ‖(⟨v.1, v.2⟩ : ℂ)‖ * Real.sin (atan2 v.2 v.1 - atan2 u.2 u.1) := by
  have flat (u : Vec2D ℝ) : ‖(⟨u.1, u.2⟩ : ℂ)‖ * Real.cos (atan2 u.2 u.1) = u.1 :=
    Complex.norm_mul_cos_arg ⟨u.1, u.2⟩
  have high (u : Vec2D ℝ) : ‖(⟨u.1, u.2⟩ : ℂ)‖ * Real.sin (atan2 u.2 u.1) = u.2 :=
    Complex.norm_mul_sin_arg ⟨u.1, u.2⟩
  have product : cross u v =
      ‖(⟨u.1, u.2⟩ : ℂ)‖ * Real.cos (atan2 u.2 u.1) *
          (‖(⟨v.1, v.2⟩ : ℂ)‖ * Real.sin (atan2 v.2 v.1)) -
        ‖(⟨u.1, u.2⟩ : ℂ)‖ * Real.sin (atan2 u.2 u.1) *
          (‖(⟨v.1, v.2⟩ : ℂ)‖ * Real.cos (atan2 v.2 v.1)) := by
    rw [flat, flat, high, high, cross]
  rw [product, Real.sin_sub]
  ring

theorem vector_norm_pos {u : Vec2D ℝ} (some : u ≠ 0) : 0 < ‖(⟨u.1, u.2⟩ : ℂ)‖ := by
  refine norm_pos_iff.mpr fun zero => some ?_
  exact Prod.ext (congrArg Complex.re zero) (congrArg Complex.im zero)

theorem atan2_angles : Angles atan2 := by
  intro u v first second
  have scale := mul_pos (vector_norm_pos first) (vector_norm_pos second)
  have boundU := Complex.arg_mem_Ioc ⟨u.1, u.2⟩
  have boundV := Complex.arg_mem_Ioc ⟨v.1, v.2⟩
  change -Real.pi < atan2 u.2 u.1 ∧ atan2 u.2 u.1 ≤ Real.pi at boundU
  change -Real.pi < atan2 v.2 v.1 ∧ atan2 v.2 v.1 ≤ Real.pi at boundV
  have left : 0 < cross u v ↔ 0 < Real.sin (atan2 v.2 v.1 - atan2 u.2 u.1) := by
    rw [cross_eq_sin, mul_pos_iff_of_pos_left scale]
  have down : Above (-u) ↔ ¬ Above u :=
    ⟨fun low high => high.not_neg low, fun low => Above.neg_of_ne low first⟩
  rw [Earlier, down, left, above_iff, above_iff]
  generalize atan2 u.2 u.1 = x at boundU
  generalize atan2 v.2 v.1 = y at boundV
  constructor
  · intro ahead
    by_cases same : (0 < x ↔ 0 < y)
    · refine .inr ⟨same, Real.sin_pos_of_pos_of_lt_pi (sub_pos.mpr ahead) ?_⟩
      rcases le_or_gt x 0 with low | high
      · have low' := not_lt.mp fun high => low.not_gt (same.mpr high)
        linarith
      · linarith
    · have high : 0 < y := by
        by_contra low
        exact same (iff_of_false (fun high => low (high.trans ahead)) low)
      exact .inl ⟨fun high' => same (iff_of_true high' high), high⟩
  · rintro (⟨low, high⟩ | ⟨same, left⟩)
    · exact (not_lt.mp low).trans_lt high
    · by_contra behind
      refine left.not_ge (Real.sin_nonpos_of_nonpos_of_neg_pi_le ?_ ?_)
      · linarith
      · rcases le_or_gt x 0 with low | high
        · linarith
        · have high' := same.mp high
          linarith

end Arg

end PointInPolygon

end CodeCollect.OpenPano
