import CodeCollect.OpenPano.ConvexHull

namespace CodeCollect.OpenPano.ConvexHull

open Library.MonotoneChain Library.PlaneHull

section Edges

variable {K : Type}

theorem exists_two {points : List (Vec2D K)} (long : 2 ≤ points.length) :
    ∃ first second rest, points = first :: second :: rest := by
  match points with
  | [] => exact absurd long (by simp)
  | [_] => exact absurd long (by simp)
  | first :: second :: rest => exact ⟨first, second, rest, rfl⟩

/-- The edges are the neighbours in the polygon that is closed with its first point. -/
theorem forall_edges_iff {relation : Vec2D K → Vec2D K → Prop} (first : Vec2D K)
    (rest : List (Vec2D K)) :
    (∀ edge ∈ edges (first :: rest), relation edge.1 edge.2) ↔
      (first :: rest ++ [first]).IsChain relation := by
  have each (v : Vec2D K) : (∀ edge ∈ (v :: rest).zip (rest ++ [first]), relation edge.1 edge.2) ↔
      (v :: rest ++ [first]).IsChain relation := by
    induction rest generalizing v with
    | nil => simp
    | cons w rest ih =>
        change (∀ edge ∈ (v :: w :: rest).zip (w :: (rest ++ [first])), _) ↔
          (v :: w :: (rest ++ [first])).IsChain relation
        rw [List.zip_cons_cons, List.forall_mem_cons, List.isChain_cons_cons]
        exact and_congr_right fun _ => ih w
  exact each first

theorem mem_of_edge {poly : Polygon K} {edge : Vec2D K × Vec2D K} (member : edge ∈ edges poly) :
    edge.1 ∈ poly ∧ edge.2 ∈ poly := by
  have ends := List.of_mem_zip member
  rw [List.mem_append] at ends
  exact ⟨ends.1, ends.2.elim List.mem_of_mem_tail List.mem_of_mem_take⟩

end Edges

variable {K : Type} [Field K] [LinearOrder K]

/-- The right link goes up from the lowest point, and the left link goes down to it again. -/
structure Halves (S : Vec2D K → Prop) (lowest highest : Vec2D K) (right left : List (Vec2D K)) :
    Prop where
  up : Half Upward S (highest :: right)
  down : Half (fun u => Upward (-u)) S (lowest :: left)
  bottom : right.getLast? = some lowest
  top : left.getLast? = some highest
  mem : ∀ x, S x → Upward (x - lowest) ∧ Upward (highest - x)

/-- A linked stack is half of the hull when its ends are different. -/
theorem Linked.half {C S : Vec2D K → Prop} {first last : Vec2D K} {stack : List (Vec2D K)}
    (linked : Linked C S first last stack) (apart : last ≠ first) :
    ∃ rest, stack = last :: rest ∧ rest.getLast? = some first ∧ Half C S (last :: rest) := by
  obtain ⟨head, bottom, half | ⟨rfl, -⟩⟩ := linked
  · cases stack with
    | nil => exact absurd head nofun
    | cons t rest =>
        have same : t = last := Option.some.inj head
        subst same
        cases rest with
        | nil => exact absurd (Option.some.inj bottom) apart
        | cons u rest =>
            rw [List.getLast?_cons_cons] at bottom
            exact ⟨u :: rest, rfl, bottom, half⟩
  · exact absurd (Option.some.inj head).symm apart

namespace Halves

variable {S : Vec2D K → Prop} {lowest highest : Vec2D K} {right left : List (Vec2D K)}

theorem inside (halves : Halves S lowest highest right left) {v : Vec2D K}
    (member : v ∈ right.reverse ++ left.reverse) : S v := by
  rw [List.mem_append, List.mem_reverse, List.mem_reverse] at member
  rcases member with rightward | leftward
  · exact halves.up.mem v (List.mem_cons_of_mem _ rightward)
  · exact halves.down.mem v (List.mem_cons_of_mem _ leftward)

theorem inside_lowest (halves : Halves S lowest highest right left) : S lowest :=
  halves.down.mem lowest List.mem_cons_self

theorem inside_highest (halves : Halves S lowest highest right left) : S highest :=
  halves.up.mem highest List.mem_cons_self

/-- A relation holds along the closed polygon when it holds along both halves. -/
theorem closed_chain {relation : Vec2D K → Vec2D K → Prop}
    (halves : Halves S lowest highest right left)
    (up : (highest :: right).IsChain fun b a => relation a b)
    (down : (lowest :: left).IsChain fun b a => relation a b) :
    (right.reverse ++ left.reverse ++ [lowest]).IsChain relation := by
  have start : ∃ rest, left.reverse = highest :: rest := by
    have head := halves.top
    rw [← List.head?_reverse] at head
    cases reversed : left.reverse with
    | nil =>
        rw [reversed] at head
        exact absurd head nofun
    | cons first rest =>
        rw [reversed] at head
        exact ⟨rest, by rw [Option.some.inj head]⟩
  obtain ⟨rest, reversed⟩ := start
  rw [← List.isChain_reverse, List.reverse_cons] at up down
  rw [reversed, List.cons_append] at down
  rw [reversed, List.append_assoc, List.cons_append, List.isChain_split]
  exact ⟨up, down⟩

end Halves

/-- The second loop runs over the other points in the opposite order, and it goes on from the chain
of the first one. -/
theorem halves_join {lowest second highest next : Vec2D K} {rest init right left : List (Vec2D K)}
    (points : lowest :: second :: rest = init.reverse ++ [next, highest])
    (firstLink : rest.foldl (link 1) [second, lowest] = highest :: right)
    (secondLink : init.foldl (link 1) [next, highest] = lowest :: left) :
    (((lowest :: second :: rest).take ((lowest :: second :: rest).length - 2)).reverse.foldl
        (link (rest.foldl (link 1) [second, lowest]).length)
        ((lowest :: second :: rest).getD ((lowest :: second :: rest).length - 2) 0 ::
          rest.foldl (link 1) [second, lowest])).reverse =
      right.reverse ++ left.reverse ++ [lowest] := by
  have size : (lowest :: second :: rest).length - 2 = init.reverse.length := by
    rw [points, List.length_append]
    rfl
  have others : ((lowest :: second :: rest).take
      ((lowest :: second :: rest).length - 2)).reverse = init := by
    rw [size, points, List.take_left, List.reverse_reverse]
  have before : (lowest :: second :: rest).getD ((lowest :: second :: rest).length - 2) 0 =
      next := by
    rw [size, points, List.getD_append_right _ _ _ _ le_rfl, Nat.sub_self]
    rfl
  have floor := foldl_link_floor init (List.cons_ne_nil next [highest]) right
  rw [secondLink] at floor
  rw [others, before, firstLink]
  refine (congrArg List.reverse floor).trans ?_
  simp

variable [IsStrictOrderedRing K]

/-- The two loops make the two halves of the polygon, which ends with its first point. -/
theorem convex_hull_halves (pts : List (Vec2D K)) (many : 3 < pts.length)
    (spread : ¬ Collinear K {q | q ∈ pts}) :
    ∃ lowest highest right left, Halves (· ∈ pts) lowest highest right left ∧
      convex_hull pts = right.reverse ++ left.reverse ++ [lowest] := by
  have sorted := pairwise_sorted pts
  have length := List.length_insertionSort Before pts
  have member (x : Vec2D K) : x ∈ pts.insertionSort Before ↔ x ∈ pts :=
    List.mem_insertionSort Before
  rw [convex_hull, if_neg (not_le.mpr many)]
  simp only []
  generalize pts.insertionSort Before = points at sorted length member ⊢
  obtain ⟨lowest, second, rest, rfl⟩ := exists_two (show 2 ≤ points.length by omega)
  obtain ⟨highest, next, init, backwards⟩ :=
    exists_two (show 2 ≤ (lowest :: second :: rest).reverse.length by
      rw [List.length_reverse]
      omega)
  have total (x y : Vec2D K) : Upward (x - y) ∨ Upward (y - x) := by
    rw [← neg_sub x y]
    exact Upward.total _
  have totalDown (x y : Vec2D K) : Upward (-(x - y)) ∨ Upward (-(y - x)) := by
    rw [neg_sub, neg_sub]
    exact (total x y).symm
  have sortedDown : (highest :: next :: init).Pairwise fun a b => Upward (-(b - a)) := by
    rw [← backwards, List.pairwise_reverse]
    refine sorted.imp fun {a b} upward => ?_
    rw [neg_sub]
    exact upward
  have memberDown (x : Vec2D K) : x ∈ highest :: next :: init ↔ x ∈ pts := by
    rw [← backwards, List.mem_reverse, member]
  obtain ⟨last, lastUp, above, linkedUp⟩ :=
    foldl_linked Upward.cone total lowest (second :: rest) sorted
  obtain ⟨last', lastDown, below, linkedDown⟩ :=
    foldl_linked Upward.cone.opposite totalDown highest (next :: init) sortedDown
  have top : last = highest := by
    rw [← List.head?_reverse, backwards] at lastUp
    exact (Option.some.inj lastUp).symm
  have bottom : last' = lowest := by
    rw [← backwards, List.getLast?_reverse] at lastDown
    exact (Option.some.inj lastDown).symm
  subst top bottom
  have between (x : Vec2D K) (inside : x ∈ pts) : Upward (x - last') ∧ Upward (last - x) := by
    have down := below x ((memberDown x).mpr inside)
    rw [neg_sub] at down
    exact ⟨down, above x ((member x).mpr inside)⟩
  have apart : last ≠ last' := by
    rintro rfl
    refine spread ((collinear_singleton K last).subset fun x inside => ?_)
    have bounds := between x inside
    rw [← neg_sub x last] at bounds
    exact sub_eq_zero.mp (Upward.cone.pointed bounds.1 bounds.2)
  obtain ⟨right, rightLink, rightEnd, up⟩ := linkedUp.half apart
  obtain ⟨left, leftLink, leftEnd, down⟩ := linkedDown.half apart.symm
  refine ⟨last', last, right, left, ⟨up.congr fun x => (member x).symm,
    down.congr fun x => (memberDown x).symm, rightEnd, leftEnd, between⟩, ?_⟩
  have points : last' :: second :: rest = init.reverse ++ [next, last] := by
    rw [← List.reverse_inj, backwards]
    simp
  exact halves_join points rightLink leftLink

namespace Halves

variable {S : Vec2D K → Prop} {lowest highest : Vec2D K} {right left : List (Vec2D K)}

theorem highest_notMem (halves : Halves S lowest highest right left) : highest ∉ right := by
  intro member
  exact ((List.pairwise_cons.mp (halves.up.pairwise Upward.cone)).1 highest member).2 rfl

theorem lowest_notMem (halves : Halves S lowest highest right left) : lowest ∉ left := by
  intro member
  exact ((List.pairwise_cons.mp (halves.down.pairwise Upward.cone.opposite)).1 lowest member).2 rfl

/-- A point between the ends is only in one half. -/
theorem disjoint (halves : Halves S lowest highest right left) {v : Vec2D K} (onRight : v ∈ right)
    (onLeft : v ∈ left) : False := by
  have notTop : v ≠ highest := fun same => halves.highest_notMem (same ▸ onRight)
  have notBottom : v ≠ lowest := fun same => halves.lowest_notMem (same ▸ onLeft)
  have above := (halves.mem v (halves.up.mem v (List.mem_cons_of_mem _ onRight))).1
  have below := (halves.mem v (halves.up.mem v (List.mem_cons_of_mem _ onRight))).2
  obtain ⟨a, b, corner⟩ := halves.up.corner onRight fun last =>
    notBottom (Option.some.inj (last.symm.trans halves.bottom))
  obtain ⟨a', b', corner'⟩ := halves.down.corner onLeft fun last =>
    notTop (Option.some.inj (last.symm.trans halves.top))
  have bend := corner.across Upward.cone halves.inside_lowest halves.inside_highest above notBottom
    below notTop.symm
  have bend' := corner'.across Upward.cone.opposite halves.inside_highest halves.inside_lowest
    (by rwa [neg_sub]) notTop (by rwa [neg_sub]) notBottom.symm
  rw [← cross_neg_neg, neg_sub, neg_sub, cross_swap] at bend'
  exact absurd bend (neg_pos.mp bend').not_gt

theorem nodup (halves : Halves S lowest highest right left) :
    (right.reverse ++ left.reverse).Nodup := by
  have nodupUp : right.Nodup :=
    (List.pairwise_cons.mp (halves.up.pairwise Upward.cone)).2.imp fun facts => facts.2
  have nodupDown : left.Nodup :=
    (List.pairwise_cons.mp (halves.down.pairwise Upward.cone.opposite)).2.imp fun facts => facts.2
  rw [List.nodup_append', List.nodup_reverse, List.nodup_reverse]
  refine ⟨nodupUp, nodupDown, fun v first second => ?_⟩
  exact halves.disjoint (List.mem_reverse.mp first) (List.mem_reverse.mp second)

/-- The polygon bends at each of its points, and all points are left of both edges there. -/
theorem bends (halves : Halves S lowest highest right left)
    (spread : ∀ a b, a ≠ b → ∃ x, S x ∧ turn a b x ≠ 0) {v : Vec2D K}
    (member : v ∈ right.reverse ++ left.reverse) :
    ∃ a b, 0 < turn a v b ∧ (∀ x, S x → 0 ≤ turn a v x) ∧ ∀ x, S x → 0 ≤ turn v b x := by
  obtain ⟨up, down, bottom, top, mem⟩ := halves
  obtain ⟨u, right, rfl⟩ : ∃ u rest, right = u :: rest := by
    cases right with
    | nil => exact absurd bottom nofun
    | cons u rest => exact ⟨u, rest, rfl⟩
  obtain ⟨w, left, rfl⟩ : ∃ w rest, left = w :: rest := by
    cases left with
    | nil => exact absurd top nofun
    | cons w rest => exact ⟨w, rest, rfl⟩
  have edgeUp := (List.isChain_cons_cons.mp up.rising).1
  have edgeDown := (List.isChain_cons_cons.mp down.rising).1
  have leftUp (x : Vec2D K) (inside : S x) := (List.isChain_cons_cons.mp (up.left x inside)).1
  have leftDown (x : Vec2D K) (inside : S x) := (List.isChain_cons_cons.mp (down.left x inside)).1
  rw [List.mem_append, List.mem_reverse, List.mem_reverse] at member
  rcases member with onRight | onLeft
  · by_cases last : (u :: right).getLast? = some v
    · have same : lowest = v := Option.some.inj (bottom.symm.trans last)
      subst same
      obtain ⟨s, q, ends, inside, rising, apart, behind⟩ := up.bottom
      rw [List.getLast?_cons_cons, bottom] at ends
      have same : lowest = q := Option.some.inj ends
      subst same
      refine ⟨w, s, ?_, leftDown, behind⟩
      refine junction Upward.cone.opposite edgeDown leftDown ⟨?_, apart⟩ inside behind
        (fun x inside => ?_) (spread w lowest edgeDown.2.symm)
      · rw [neg_sub]
        exact rising
      · rw [neg_sub]
        exact (mem x inside).1
    · obtain ⟨a, b, corner⟩ := up.corner onRight last
      exact ⟨a, b, corner.turn, corner.leftBefore, corner.leftBehind⟩
  · by_cases last : (w :: left).getLast? = some v
    · have same : highest = v := Option.some.inj (top.symm.trans last)
      subst same
      obtain ⟨s, q, ends, inside, falling, apart, behind⟩ := down.bottom
      rw [List.getLast?_cons_cons, top] at ends
      have same : highest = q := Option.some.inj ends
      subst same
      rw [neg_sub] at falling
      exact ⟨u, s, junction Upward.cone edgeUp leftUp ⟨falling, apart⟩ inside behind
        (fun x inside => (mem x inside).2) (spread u highest edgeUp.2.symm), leftUp, behind⟩
    · obtain ⟨a, b, corner⟩ := down.corner onLeft last
      exact ⟨a, b, corner.turn, corner.leftBefore, corner.leftBehind⟩

/-- All points are in the hull of the polygon. -/
theorem mem_hull (halves : Halves S lowest highest right left) {x : Vec2D K} (inside : S x) :
    x ∈ convexHull K {p | p ∈ right.reverse ++ left.reverse} := by
  obtain ⟨up, down, bottom, top, mem⟩ := halves
  have ends : lowest ∈ right ∧ highest ∈ left :=
    ⟨List.mem_of_getLast? bottom, List.mem_of_getLast? top⟩
  obtain ⟨u, right, rfl⟩ := List.exists_cons_of_ne_nil (List.ne_nil_of_mem ends.1)
  obtain ⟨w, left, rfl⟩ := List.exists_cons_of_ne_nil (List.ne_nil_of_mem ends.2)
  have vertexUp (p : Vec2D K) (member : p ∈ highest :: u :: right) :
      p ∈ (u :: right).reverse ++ (w :: left).reverse := by
    rw [List.mem_append, List.mem_reverse, List.mem_reverse]
    rcases List.mem_cons.mp member with rfl | later
    · exact Or.inr ends.2
    · exact Or.inl later
  have vertexDown (p : Vec2D K) (member : p ∈ lowest :: w :: left) :
      p ∈ (u :: right).reverse ++ (w :: left).reverse := by
    rw [List.mem_append, List.mem_reverse, List.mem_reverse]
    rcases List.mem_cons.mp member with rfl | later
    · exact Or.inl ends.1
    · exact Or.inr later
  have total (y : Vec2D K) (_ : S y) : Upward (x - y) ∨ Upward (y - x) := by
    rw [← neg_sub x y]
    exact Upward.total _
  have totalDown (y : Vec2D K) (other : S y) : Upward (-(x - y)) ∨ Upward (-(y - x)) := by
    rw [neg_sub, neg_sub]
    exact (total y other).symm
  have below : Upward (-(lowest - x)) := by
    rw [neg_sub]
    exact (mem x inside).1
  obtain ⟨a, memberA, b, memberB, low, high, beside⟩ := up.spans inside (mem x inside).2 total
  obtain ⟨b', memberB', a', memberA', high', low', beside'⟩ := down.spans inside below totalDown
  rw [neg_sub] at high' low'
  exact mem_hull_of_edges (vertexUp a memberA) (vertexUp b memberB) (vertexDown b' memberB')
    (vertexDown a' memberA') low high beside high' low' beside'

/-- The polygon without its last point is the hull. -/
theorem isHull {pts : List (Vec2D K)} (halves : Halves (· ∈ pts) lowest highest right left)
    (spread : ¬ Collinear K {q | q ∈ pts}) : IsHull pts (right.reverse ++ left.reverse) := by
  have apart (a b : Vec2D K) (different : a ≠ b) : ∃ x, x ∈ pts ∧ turn a b x ≠ 0 := by
    by_contra none
    simp only [not_exists, not_and, not_not] at none
    exact spread (collinear_of_turn different none)
  have extreme (v : Vec2D K) (member : v ∈ right.reverse ++ left.reverse) :
      v ∈ Set.extremePoints K (convexHull K {q | q ∈ pts}) := by
    obtain ⟨a, b, bend, before, behind⟩ := halves.bends apart member
    exact corner_extreme (halves.inside member) bend before behind
  have same : convexHull K {q | q ∈ pts} = convexHull K {p | p ∈ right.reverse ++ left.reverse} :=
    Set.Subset.antisymm
      (convexHull_min (fun x inside => halves.mem_hull inside) (convex_convexHull K _))
      (convexHull_mono fun v member => halves.inside member)
  -- The polygon starts with the lowest point.
  obtain ⟨rest, start⟩ : ∃ rest, right.reverse ++ left.reverse = lowest :: rest := by
    have head := halves.bottom
    rw [← List.head?_reverse] at head
    cases reversed : right.reverse with
    | nil =>
        rw [reversed] at head
        exact absurd head nofun
    | cons first rest =>
        rw [reversed] at head
        exact ⟨rest ++ left.reverse, by rw [Option.some.inj head, List.cons_append]⟩
  have along (relation : Vec2D K → Vec2D K → Prop)
      (up : (highest :: right).IsChain fun b a => relation a b)
      (down : (lowest :: left).IsChain fun b a => relation a b) :
      ∀ edge ∈ edges (right.reverse ++ left.reverse), relation edge.1 edge.2 := by
    have closed := halves.closed_chain up down
    rw [start] at closed ⊢
    exact (forall_edges_iff lowest rest).mpr closed
  have leftOf : ∀ edge ∈ edges (right.reverse ++ left.reverse), ∀ p ∈ pts,
      0 ≤ side edge.1 edge.2 p := by
    intro edge member p inside
    exact along (fun a b => 0 ≤ turn a b p) (halves.up.left p inside) (halves.down.left p inside)
      edge member
  have distinct := along (fun a b => a ≠ b) (halves.up.rising.imp fun _ _ facts => facts.2.symm)
    (halves.down.rising.imp fun _ _ facts => facts.2.symm)
  refine ⟨halves.nodup, fun p => ⟨extreme p, fun isExtreme => ?_⟩, ?_, leftOf⟩
  · rw [same] at isExtreme
    have vertex : p ∈ {p | p ∈ right.reverse ++ left.reverse} :=
      extremePoints_convexHull_subset isExtreme
    exact vertex
  · intro edge member p vertex notFirst notSecond
    have ends := mem_of_edge member
    refine (leftOf edge member p (halves.inside vertex)).lt_of_ne fun straight => ?_
    exact extreme_turn (extreme _ ends.1) (extreme _ ends.2) (extreme p vertex)
      (distinct edge member) notFirst notSecond straight.symm

end Halves

/-- The first point is listed again at the end, and the rest of the polygon is the hull. -/
theorem convex_hull_isHull (pts : List (Vec2D K)) (many : 3 < pts.length)
    (spread : ¬ Collinear K {q | q ∈ pts}) :
    ¬ IsHull pts (convex_hull pts) ∧ IsHull pts (convex_hull pts).dropLast := by
  obtain ⟨lowest, highest, right, left, halves, polygon⟩ := convex_hull_halves pts many spread
  rw [polygon, List.dropLast_concat]
  refine ⟨fun hull => ?_, halves.isHull spread⟩
  have nodup := hull.nodup
  rw [List.nodup_append'] at nodup
  refine nodup.2.2 ?_ (List.mem_singleton_self lowest)
  rw [List.mem_append, List.mem_reverse]
  exact Or.inl (List.mem_of_getLast? halves.bottom)

def square : List (Vec2D ℚ) := [(0, 0), (1, 0), (1, 1), (0, 1)]

theorem square_spread : ¬ Collinear ℚ {q | q ∈ square} := by
  intro line
  have corner : ((0, 0) : Vec2D ℚ) ∈ {q | q ∈ square} := by
    simp [square]
  obtain ⟨v, along⟩ := (collinear_iff_of_mem corner).mp line
  obtain ⟨r, east⟩ := along (1, 0) (by simp [square])
  obtain ⟨t, north⟩ := along (0, 1) (by simp [square])
  have eastX : (1 : ℚ) = r * v.1 + 0 := congrArg Prod.fst east
  have eastY : (0 : ℚ) = r * v.2 + 0 := congrArg Prod.snd east
  have northY : (1 : ℚ) = t * v.2 + 0 := congrArg Prod.snd north
  have product : (1 : ℚ) = 0 := by
    calc (1 : ℚ) = (r * v.1 + 0) * (t * v.2 + 0) := by rw [← eastX, ← northY, mul_one]
      _ = (r * v.2 + 0) * (t * v.1) := by ring
      _ = 0 := by rw [← eastY, zero_mul]
  exact absurd product one_ne_zero

theorem convex_hull_isHull_square : IsHull square (convex_hull square).dropLast :=
  (convex_hull_isHull square (by decide) square_spread).2

/-- A square has five points in the list. -/
theorem first_repeated : ¬ ∀ pts : List (Vec2D ℚ), 3 < pts.length →
    ¬ Collinear ℚ {q | q ∈ pts} → IsHull pts (convex_hull pts) := by
  intro hulls
  have nodup := (hulls square (by decide) square_spread).nodup
  exact absurd nodup (by decide +kernel)

end CodeCollect.OpenPano.ConvexHull
