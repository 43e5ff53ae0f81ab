import CodeCollect.EdgeLinking.LineSegRuns

namespace CodeCollect.EdgeLinking.LineSeg

open Library.SegmentDistance Library.MonotoneChain

variable {K : Type} [Field K] [LinearOrder K] {edge : List Pixel} {tol : K}

section Subsampling

/-- The segment list holds the pixels at increasing indices from the first to the last one. -/
def Subsamples (edge segment : List Pixel) : Prop :=
  ∃ kept : List Nat, kept.Pairwise (· < ·) ∧ kept.head? = some 1 ∧
    kept.getLast? = some edge.length ∧ segment = kept.map (pixel edge)

theorem Breaks.sorted {fst : Nat} {more : List Nat} (breaks : Breaks edge tol fst more) :
    (fst :: more).Pairwise (· < ·) := by
  induction breaks with
  | done => exact List.pairwise_singleton _ _
  | next low _ _ _ ih =>
      obtain ⟨above, _⟩ := List.pairwise_cons.mp ih
      apply List.pairwise_cons.mpr
      refine ⟨?_, ih⟩
      intro i member
      rcases List.mem_cons.mp member with rfl | later
      · exact low
      · exact low.trans (above i later)

theorem Breaks.getLast {fst : Nat} {more : List Nat} (breaks : Breaks edge tol fst more) :
    (fst :: more).getLast? = some edge.length := by
  induction breaks with
  | done => rfl
  | next _ _ _ _ ih => rw [List.getLast?_cons_cons, ih]

theorem Breaks.subsamples {more : List Nat} (breaks : Breaks edge tol 1 more) :
    Subsamples edge ((1 :: more).map (pixel edge)) :=
  ⟨1 :: more, breaks.sorted, rfl, breaks.getLast, rfl⟩

variable [IsStrictOrderedRing K]

/-- With enough fuel every edge has its segment list, and all further fuel leaves it as it is. -/
theorem lineseg_eventually (tol : K) (edgelist : List (List Pixel))
    (nonempty : ∀ edge ∈ edgelist, edge ≠ []) :
    ∃ seglist, List.Forall₂ Subsamples edgelist seglist ∧
      ∃ bound, ∀ fuel, bound ≤ fuel → lineseg fuel tol edgelist = some seglist := by
  induction edgelist with
  | nil => exact ⟨[], .nil, 0, fun _ _ => rfl⟩
  | cons edge edgelist ih =>
      obtain ⟨first, later⟩ := List.forall_mem_cons.mp nonempty
      obtain ⟨seglist, subsamples, bound, ran⟩ := ih later
      obtain ⟨more, breaks, found⟩ := indices_total tol first
      refine ⟨(1 :: more).map (pixel edge) :: seglist, .cons breaks.subsamples subsamples,
        Nat.max (edge.length + 1) bound, ?_⟩
      intro fuel enough
      have one := found fuel ((Nat.le_max_left _ _).trans enough)
      have rest := ran fuel ((Nat.le_max_right _ _).trans enough)
      rw [lineseg] at rest ⊢
      rw [List.mapM_cons, one, rest]
      rfl

end Subsampling

section Windows

theorem Reached.bounds [IsStrictOrderedRing K] {a b : Nat} (reached : Reached edge tol a b) :
    1 ≤ a ∧ a < b ∧ b ≤ edge.length := by
  induction reached with
  | start many => exact ⟨le_rfl, many, le_rfl⟩
  | shorter _ measured large ih =>
      obtain ⟨first, order, inside⟩ := ih
      obtain ⟨low, high⟩ := inside_of_large first order inside measured large
      exact ⟨first, low, high.le.trans inside⟩
  | next _ _ _ further ih => exact ⟨ih.1.trans ih.2.1.le, further, le_rfl⟩

/-- What the inner loop finds in a window that the loops come to is a window that they accept. -/
theorem Reached.settles {a b e : Nat} (reached : Reached edge tol a b)
    (settles : Settles edge tol a b e) : Accepted edge tol a e := by
  obtain ⟨fuel, dev, measured, found⟩ := settles
  induction fuel generalizing b dev with
  | zero => exact absurd found nofun
  | succ fuel ih =>
      obtain ⟨m, i⟩ := dev
      by_cases large : m > tol ^ 2
      · rw [shorten_of_large large] at found
        obtain ⟨dev, next, found⟩ := Option.bind_eq_some_iff.mp found
        exact ih (reached.shorter measured large) dev next found
      · rw [shorten_of_small large] at found
        obtain rfl := Option.some.inj found
        exact ⟨reached, m, i, measured, large⟩

/-- Neighbouring indices are the ends of an accepted window. -/
theorem Breaks.accepted {fst : Nat} {more : List Nat} (breaks : Breaks edge tol fst more)
    (reached : fst < edge.length → Reached edge tol fst edge.length) {a b : Nat}
    (neighbours : [a, b] <:+: fst :: more) : Accepted edge tol a b := by
  induction breaks with
  | done => exact absurd neighbours.length_le (by simp)
  | next low high settles _ ih =>
      have accepted := (reached (low.trans_le high)).settles settles
      rcases List.infix_cons_iff.mp neighbours with front | later
      · obtain ⟨same, rest⟩ := List.cons_prefix_cons.mp front
        obtain ⟨same', _⟩ := List.cons_prefix_cons.mp rest
        rw [same, same']
        exact accepted
      · refine ih ?_ later
        intro further
        obtain ⟨window, m, i, measured, small⟩ := accepted
        exact window.next measured small further

/-- An index before the last has the end of its window next to it. -/
theorem Breaks.follow {fst : Nat} {more : List Nat} (breaks : Breaks edge tol fst more) {a b : Nat}
    (member : a ∈ fst :: more) (further : a < edge.length)
    (settles : Settles edge tol a edge.length b) : [a, b] <:+: fst :: more := by
  induction breaks with
  | done => exact absurd (List.mem_singleton.mp member) further.ne
  | next low high settles' _ ih =>
      rcases List.mem_cons.mp member with rfl | later
      · obtain rfl := settles.unique settles'
        exact List.IsPrefix.isInfix ⟨_, rfl⟩
      · exact List.infix_cons (ih later)

variable [IsStrictOrderedRing K]

/-- The loops come to windows of kept indices only, and what such a window settles to is kept. -/
theorem Breaks.reached {more : List Nat} (breaks : Breaks edge tol 1 more) {a b : Nat}
    (reached : Reached edge tol a b) :
    a ∈ 1 :: more ∧ ∀ e, Settles edge tol a b e → Settles edge tol a edge.length e := by
  induction reached with
  | start _ => exact ⟨List.mem_cons_self, fun _ settles => settles⟩
  | shorter _ measured large ih =>
      exact ⟨ih.1, fun e settles => ih.2 e (settles.of_shorter measured large)⟩
  | next earlier measured small further ih =>
      have order := earlier.bounds.2.1
      have neighbours := breaks.follow ih.1 (order.trans further) (ih.2 _ (.of_small measured small))
      exact ⟨neighbours.subset (by simp), fun _ settles => settles⟩

/-- The windows that the loops accept are those between neighbouring indices. -/
theorem Breaks.accepted_iff {more : List Nat} (breaks : Breaks edge tol 1 more) {a b : Nat} :
    [a, b] <:+: 1 :: more ↔ Accepted edge tol a b := by
  constructor
  · exact breaks.accepted .start
  · rintro ⟨reached, m, i, measured, small⟩
    obtain ⟨member, kept⟩ := breaks.reached reached
    have bounds := reached.bounds
    exact breaks.follow member (bounds.2.1.trans_le bounds.2.2) (kept b (.of_small measured small))

end Windows

section Tolerance

/-- The point of a pixel. -/
def point (p : Pixel) : K × K := (p.1, p.2)

/-- Every pixel of the edge is near the straight segment between the kept pixels around it. -/
def Honours (edge : List Pixel) (tol : K) (kept : List Nat) : Prop :=
  ∀ a b, [a, b] <:+: kept → ∀ c, a ≤ c → c ≤ b →
    NearSegment (point (pixel edge a)) (point (pixel edge b)) (point (pixel edge c)) (tol ^ 2)

/-- A pixel whose foot on the line lies beyond an end of the segment is near this end. -/
def EndsNear (tol : K) (first last p : Pixel) : Prop :=
  (along (K := K) (point first) (point last) (point p) < 0 →
      sqDist (point p) (point first) ≤ tol ^ 2) ∧
    (sqDist (K := K) (point first) (point last) < along (point first) (point last) (point p) →
      sqDist (point p) (point last) ≤ tol ^ 2)

variable [IsStrictOrderedRing K]

/-- A pixel that deviates no more than allowed is near the segment exactly when it is near the ends that
it lies beyond. -/
theorem nearSegment_iff_endsNear {first last p : Pixel} (small : deviation first last p ≤ tol ^ 2) :
    NearSegment (point first) (point last) (point p) (tol ^ 2) ↔ EndsNear tol first last p := by
  rcases eq_or_ne first last with rfl | differ
  · have close : sqDist (point p) (point first) ≤ tol ^ 2 := by
      rw [deviation_of_same] at small
      simp only [sqDist, point]
      linarith
    exact iff_of_true (nearSegment_self_iff.mpr close) ⟨fun _ => close, fun _ => close⟩
  · apply nearSegment_iff
    · intro same
      obtain ⟨row, col⟩ := Prod.mk.inj same
      exact differ (Prod.ext (by exact_mod_cast row) (by exact_mod_cast col))
    · rw [deviation_of_apart differ] at small
      have area : turn (point first) (point last) (point p) ^ 2 =
          ((p.2 : K) * (first.1 - last.1) + p.1 * (last.2 - first.2) +
            (last.1 * first.2 - first.1 * last.2)) ^ 2 := by
        simp only [turn, cross, point, Prod.fst_sub, Prod.snd_sub]
        ring
      have length : sqDist (point first) (point last) =
          ((first.2 : K) - last.2) ^ 2 + ((first.1 : K) - last.1) ^ 2 := by
        simp only [sqDist, point]
        ring
      rw [area, length]
      exact small

/-- An edge that goes one way and then the other way on one line. -/
def doublingBack : List Pixel := [(0, 0), (0, -5), (0, 5)]

end Tolerance

end CodeCollect.EdgeLinking.LineSeg
