import CodeCollect.EmoOtsu.Mthemo

namespace CodeCollect.EmoOtsu

/-- The thresholds keep to the limits. -/
def Inside (x : List Int) : Prop := ∀ p ∈ x, l ≤ p ∧ p ≤ u

section Clip

variable {low high v : Int}

theorem clip_mem (limits : low ≤ high) : low ≤ clip low high v ∧ clip low high v ≤ high := by
  simp only [clip]
  split_ifs <;> omega

theorem clip_of_mem (above : low ≤ v) (below : v ≤ high) : clip low high v = v := by
  simp only [clip]
  split_ifs <;> omega

/-- A step of limited length goes no further than the step itself. -/
theorem clip_of_nonneg (low high : Int) (up : 0 ≤ v) (low_neg : low ≤ 0) (high_pos : 0 ≤ high) :
    0 ≤ clip low high v ∧ clip low high v ≤ v := by
  simp only [clip]
  split_ifs <;> omega

theorem clip_of_nonpos (low high : Int) (down : v ≤ 0) (low_neg : low ≤ 0) (high_pos : 0 ≤ high) :
    v ≤ clip low high v ∧ clip low high v ≤ 0 := by
  simp only [clip]
  split_ifs <;> omega

theorem map_clip {x : List Int} (inside : Inside x) : x.map (clip l u) = x := by
  calc x.map (clip l u)
      = x.map id := by
        apply List.map_congr_left
        intro p member
        exact clip_of_mem (inside p member).1 (inside p member).2
    _ = x := List.map_id x

end Clip

section Rounding

variable {K : Type} [Field K] [LinearOrder K] [IsStrictOrderedRing K] [FloorRing K] {x : K} {n : Int}

theorem fix_mem (up : 0 ≤ x) (below : x ≤ n) : 0 ≤ fix x ∧ fix x ≤ n := by
  rw [fix, if_pos up]
  exact ⟨Int.floor_nonneg.mpr up, Int.floor_le_iff.mpr (below.trans_lt (lt_add_one _))⟩

theorem fix_mem_of_nonpos (down : x ≤ 0) (above : (n : K) ≤ x) : n ≤ fix x ∧ fix x ≤ 0 := by
  rcases down.eq_or_lt with rfl | negative
  · rw [fix, if_pos le_rfl, Int.floor_zero]
    exact ⟨by exact_mod_cast above, le_rfl⟩
  · rw [fix, if_neg negative.not_ge]
    exact ⟨Int.le_ceil_iff.mpr ((sub_one_lt _).trans_le above),
      Int.ceil_le.mpr (by simpa using down)⟩

theorem eps_pos : 0 < (eps : K) := by
  rw [eps]
  positivity

/-- The factor of a force is at most 1 in either direction. -/
theorem abs_force_le (F : K) : |F / (|F| + eps)| ≤ 1 := by
  have positive : 0 < |F| + eps := add_pos_of_nonneg_of_pos (abs_nonneg F) eps_pos
  rw [abs_div, abs_of_pos positive, div_le_one positive]
  exact le_add_of_nonneg_right eps_pos.le

/-- No point is moved past a limit. -/
theorem move_mem (F : K) {p : Int} (above : l ≤ p) (below : p ≤ u) (lambda : Draw K) :
    l ≤ move F p lambda ∧ move F p lambda ≤ u := by
  obtain ⟨lambda, positive, less⟩ := lambda
  have factor := abs_le.mp (abs_force_le F)
  have up : (0 : K) ≤ (u - p : Int) := by exact_mod_cast sub_nonneg.mpr below
  have down : (0 : K) ≤ (p - l : Int) := by exact_mod_cast sub_nonneg.mpr above
  simp only [move]
  split_ifs with forward
  · have part : lambda * (F / (|F| + eps)) ≤ 1 := mul_le_one₀ less.le forward.le factor.2
    obtain ⟨low, high⟩ := fix_mem (mul_nonneg (mul_pos positive forward).le up)
      (mul_le_of_le_one_left up part)
    obtain ⟨low', high'⟩ := clip_of_nonneg vmin vmax low (by decide) (by decide)
    omega
  · have back : F / (|F| + eps) ≤ 0 := not_lt.mp forward
    have part : -1 ≤ lambda * (F / (|F| + eps)) := by
      nlinarith
    have bound : ((-(p - l) : Int) : K) ≤ lambda * (F / (|F| + eps)) * (p - l : Int) := by
      rw [Int.cast_neg]
      nlinarith
    obtain ⟨low, high⟩ := fix_mem_of_nonpos
      (mul_nonpos_of_nonpos_of_nonneg (mul_nonpos_of_nonneg_of_nonpos positive.le back) down) bound
    obtain ⟨low', high'⟩ := clip_of_nonpos vmin vmax high (by decide) (by decide)
    omega

end Rounding

section Search

variable {K : Type} [Field K] [LinearOrder K] [FloorRing K] {n_countR : Histogram} {x : List Int}
  {k : Nat} {lambda1 : Draw K} {lambda2 : Nat → Draw K}

theorem moved_inside (lambda : Draw K) : Inside (moved x k lambda1 lambda) := by
  intro p member
  obtain ⟨q, _, rfl⟩ := List.mem_map.mp member
  exact clip_mem (by decide)

theorem length_moved (lambda : Draw K) : (moved x k lambda1 lambda).length = x.length := by
  rw [moved, List.length_map, List.length_modify]

theorem candidate_inside (lambda : Draw K) : Inside (candidate x k lambda1 lambda) := by
  intro p member
  exact moved_inside lambda p ((List.mem_insertionSort _).mp member)

theorem length_candidate (lambda : Draw K) : (candidate x k lambda1 lambda).length = x.length := by
  rw [candidate, List.length_insertionSort, length_moved]

/-- A component of a vector within the limits does not leave them. -/
theorem set_inside {y : List Int} (inside : Inside x) (other : Inside y) (same : y.length = x.length) :
    Inside (x.set k (y.getD k 0)) := by
  rcases Nat.lt_or_ge k x.length with within | beyond
  · rw [← same] at within
    rw [List.getD_eq_getElem _ _ within]
    intro p member
    rcases List.mem_or_eq_of_mem_set member with old | rfl
    · exact inside p old
    · exact other _ (List.getElem_mem within)
  · rw [List.set_eq_of_length_le beyond]
    exact inside

theorem tries_inside (left : Nat) {point : Point K} (inside : Inside point.x) :
    Inside (tries n_countR k lambda1 lambda2 left point).x := by
  induction left with
  | zero => exact inside
  | succ left ih =>
      rw [tries]
      split
      · exact set_inside inside (candidate_inside _) (length_candidate _)
      · exact ih

theorem length_tries (left : Nat) (point : Point K) :
    (tries n_countR k lambda1 lambda2 left point).x.length = point.x.length := by
  induction left with
  | zero => rfl
  | succ left ih =>
      rw [tries]
      split
      · exact List.length_set
      · exact ih

theorem fit_le_tries (left : Nat) (point : Point K) :
    point.fit ≤ (tries n_countR k lambda1 lambda2 left point).fit := by
  induction left with
  | zero => exact le_rfl
  | succ left ih =>
      rw [tries]
      split
      · rename_i better
        exact better.2.le
      · exact ih

variable {draws : SearchDraws K}

theorem components_inside (n : Nat) {point : Point K} (inside : Inside point.x) :
    Inside (components n_countR draws n point).x := by
  induction n with
  | zero => exact inside
  | succ n ih => exact tries_inside _ ih

theorem length_components (n : Nat) (point : Point K) :
    (components n_countR draws n point).x.length = point.x.length := by
  induction n with
  | zero => rfl
  | succ n ih => exact (length_tries _ _).trans ih

theorem fit_le_components (n : Nat) (point : Point K) :
    point.fit ≤ (components n_countR draws n point).fit := by
  induction n with
  | zero => exact le_rfl
  | succ n ih => exact ih.trans (fit_le_tries _ _)

end Search

section InStep

variable {K : Type} [Field K] [LinearOrder K] [FloorRing K] (n_countR : Histogram)

/-- A point is sorted, and the fitness that is stored is the one of its thresholds. -/
structure InStep (point : Point K) : Prop where
  inside : Inside point.x
  sorted : point.x.Pairwise (· ≤ ·)
  scored : point.fit = fitnessIMG n_countR point.x

/-- When a try is better, the component that was moved is still between its neighbours. -/
def TriesOrderly (k : Nat) (lambda1 : Draw K) (lambda2 : Nat → Draw K) : Nat → Point K → Prop
  | 0, _ => True
  | left + 1, point =>
      if Exceeds (fitnessIMG n_countR (candidate point.x k lambda1 (lambda2 left))) point.fit then
        (moved point.x k lambda1 (lambda2 left)).Pairwise (· ≤ ·)
      else TriesOrderly k lambda1 lambda2 left point

variable {n_countR} {k : Nat} {lambda1 : Draw K} {lambda2 : Nat → Draw K} {x : List Int}

/-- Only the component that is moved changes. -/
theorem moved_of_inside (inside : Inside x) (k : Nat) (lambda1 lambda : Draw K) :
    ∃ step : Int → Int, moved x k lambda1 lambda = x.modify k step := by
  let v1 := clip vmin vmax (fix (lambda.1 * longitud))
  refine ⟨fun p => clip l u (if lambda1.1 > 1 / (2 : Nat) then p + v1 else p - v1), ?_⟩
  rw [moved]
  apply List.ext_getElem?
  intro i
  rw [List.getElem?_map, List.getElem?_modify, List.getElem?_modify]
  cases stands : x[i]? with
  | none => rfl
  | some p =>
      obtain ⟨above, below⟩ := inside p (List.mem_of_getElem? stands)
      by_cases here : k = i
      · simp only [if_pos here]
        rfl
      · simp only [if_neg here]
        exact congrArg some (clip_of_mem above below)

theorem set_modify (step : Int → Int) (k : Nat) (x : List Int) :
    x.set k ((x.modify k step).getD k 0) = x.modify k step := by
  apply List.ext_getElem?
  intro i
  rw [List.getElem?_set, List.getElem?_modify, List.getD_eq_getElem?_getD, List.getElem?_modify]
  by_cases here : k = i
  · subst here
    rcases Nat.lt_or_ge k x.length with within | beyond
    · rw [if_pos rfl, if_pos within, List.getElem?_eq_getElem within]
      rfl
    · rw [if_pos rfl, if_neg beyond.not_gt, List.getElem?_eq_none beyond]
      rfl
  · simp [here]

/-- What a better try stores is the vector that was scored. -/
theorem tries_inStep (left : Nat) {point : Point K} (inStep : InStep n_countR point)
    (orderly : TriesOrderly n_countR k lambda1 lambda2 left point) :
    InStep n_countR (tries n_countR k lambda1 lambda2 left point) := by
  induction left with
  | zero => exact inStep
  | succ left ih =>
      rw [TriesOrderly] at orderly
      rw [tries]
      split_ifs at orderly ⊢
      · have same : candidate point.x k lambda1 (lambda2 left) =
            moved point.x k lambda1 (lambda2 left) := orderly.insertionSort_eq
        obtain ⟨step, stepped⟩ := moved_of_inside inStep.inside k lambda1 (lambda2 left)
        have stored : point.x.set k ((candidate point.x k lambda1 (lambda2 left)).getD k 0) =
            moved point.x k lambda1 (lambda2 left) := by
          rw [same, stepped, set_modify]
        exact ⟨stored ▸ moved_inside _, stored ▸ orderly, by rw [stored, same]⟩
      · exact ih orderly

variable {draws : SearchDraws K}

/-- A single component has no neighbours. -/
theorem triesOrderly_of_single (left : Nat) {point : Point K} (single : point.x.length ≤ 1) :
    TriesOrderly n_countR k lambda1 lambda2 left point := by
  induction left with
  | zero => trivial
  | succ left ih =>
      rw [TriesOrderly]
      split
      · have short : (moved point.x k lambda1 (lambda2 left)).length ≤ 1 :=
          (length_moved _).trans_le single
        match moved point.x k lambda1 (lambda2 left), short with
        | [], _ => exact List.Pairwise.nil
        | [_], _ => exact List.pairwise_singleton _ _
      · exact ih

/-- This holds for all components of a point in a call. -/
def ComponentsOrderly (n_countR : Histogram) (draws : SearchDraws K) (n : Nat) (point : Point K) :
    Prop :=
  ∀ k < n, TriesOrderly n_countR k (draws.lambda1 k) (draws.lambda2 k) (LSITER - 1)
    (components n_countR draws k point)

theorem components_inStep {n : Nat} {point : Point K} (inStep : InStep n_countR point)
    (orderly : ComponentsOrderly n_countR draws n point) :
    InStep n_countR (components n_countR draws n point) := by
  induction n with
  | zero => exact inStep
  | succ n ih =>
      apply tries_inStep
      · exact ih fun k earlier => orderly k (earlier.trans (Nat.lt_succ_self n))
      · exact orderly n (Nat.lt_succ_self n)

end InStep

section Best

variable {K : Type} [LinearOrder K]

/-- The best point is one of them, and none has a greater fitness. -/
theorem best_greatest (points : List (Point K)) (count : points.length = m) :
    ∃ point, points[best points]? = some point ∧ ∀ other ∈ points, other.fit ≤ point.fit := by
  have fitR : ∀ {i point}, points[i]? = some point →
      (points.map Point.fit).getD i ⊥ = point.fit := by
    intro i point stands
    rw [List.getD_eq_getElem?_getD, List.getElem?_map, stands]
    rfl
  rw [best]
  cases found : (List.range m).argmax fun i => (points.map Point.fit).getD i ⊥ with
  | none => exact absurd (List.argmax_eq_none.mp found) (by decide)
  | some b =>
      have within : b < points.length := count ▸ List.mem_range.mp (List.argmax_mem found)
      refine ⟨points[b], List.getElem?_eq_getElem within, ?_⟩
      intro other member
      obtain ⟨i, stands⟩ := List.getElem?_of_mem member
      have less := List.le_of_mem_argmax (List.mem_range.mpr
        (count ▸ (List.getElem?_eq_some_iff.mp stands).choose)) found
      rwa [fitR stands, fitR (List.getElem?_eq_getElem within)] at less

end Best

section Call

variable {K : Type} [Field K] [LinearOrder K] [FloorRing K] (n_countR : Histogram) (n : Nat)
  (draws : Nat → SearchDraws K) (points : List (Point K))

theorem length_localSearch : (localSearch n_countR n draws points).points.length = points.length :=
  List.length_mapIdx

theorem getElem?_localSearch (i : Nat) :
    (localSearch n_countR n draws points).points[i]? =
      points[i]?.map (components n_countR (draws i) n) := List.getElem?_mapIdx

variable {n_countR n draws points} in
theorem mem_localSearch {point : Point K}
    (member : point ∈ (localSearch n_countR n draws points).points) :
    ∃ i before, points[i]? = some before ∧ point = components n_countR (draws i) n before := by
  obtain ⟨i, stands⟩ := List.getElem?_of_mem member
  rw [getElem?_localSearch, Option.map_eq_some_iff] at stands
  obtain ⟨before, earlier, rfl⟩ := stands
  exact ⟨i, before, earlier, rfl⟩

theorem localSearch_best (count : points.length = m) :
    let found := localSearch n_countR n draws points
    found.points[found.bR]? = some ⟨found.xBestR, found.fxBestR⟩ ∧
      ∀ other ∈ found.points, other.fit ≤ found.fxBestR := by
  intro found
  obtain ⟨point, stands, greatest⟩ := best_greatest found.points
    ((length_localSearch n_countR n draws points).trans count)
  have same : found.points.getD found.bR ⟨[], ⊥⟩ = point := by
    rw [List.getD_eq_getElem?_getD]
    exact congrArg (·.getD ⟨[], ⊥⟩) stands
  have parts : (⟨found.xBestR, found.fxBestR⟩ : Point K) = point := same
  rw [parts]
  refine ⟨stands, ?_⟩
  intro other member
  exact (greatest other member).trans (congrArg Point.fit parts).ge

end Call

section Moves

theorem mapM_id_eq_some {α : Type} {xs : List (Option α)} {ys : List α}
    (all : xs.mapM id = some ys) : xs = ys.map some := by
  induction xs generalizing ys with
  | nil =>
      obtain rfl := Option.some.inj all
      rfl
  | cons x xs ih =>
      rw [List.mapM_cons] at all
      obtain ⟨y, here, all⟩ := Option.bind_eq_some_iff.mp all
      obtain ⟨rest, others, same⟩ := Option.bind_eq_some_iff.mp all
      obtain rfl := Option.some.inj same
      rw [List.map_cons, ← ih others]
      exact congrArg (· :: xs) here

variable {K : Type} [Field K] [LinearOrder K] [FloorRing K] {n : Nat}

theorem sortRows_eq {x y : List (List Int)} (sorted : sortRows n x = some y) :
    y = x.map (·.insertionSort (· ≤ ·)) := by
  rw [sortRows] at sorted
  split_ifs at sorted
  exact (Option.some.inj sorted).symm

/-- The moved points keep to the limits and are sorted, and the best one is as it was, but sorted. -/
theorem moveO_spec [IsStrictOrderedRing K] {F : Nat → Nat → Option K}
    {draws : Nat → Nat → Draw K} {found : Found K} {x : List (List Int)} (inside : ∀ point ∈ found.points, Inside point.x)
    (moved : moveO F n draws found = some x) :
    ∃ rows : List (List Int), x = rows.map (·.insertionSort (· ≤ ·)) ∧
      rows.length = found.points.length ∧
      (∀ row ∈ rows, Inside row ∧ ∃ point ∈ found.points, row.length = point.x.length) ∧
      rows[found.bR]? = found.points[found.bR]?.map Point.x := by
  obtain ⟨rows, all, sorted⟩ := Option.bind_eq_some_iff.mp moved
  have each := mapM_id_eq_some all
  have row : ∀ i : Nat, rows[i]?.map some = found.points[i]?.map fun point =>
      if i = found.bR then some point.x
      else (point.x.mapIdx fun k p => (F k i).map fun f => move f p (draws i k)).mapM id := by
    intro i
    rw [← List.getElem?_map, ← each, List.getElem?_mapIdx, List.getElem?_map, Option.map_map]
    rfl
  refine ⟨rows, sortRows_eq sorted, ?_, ?_, ?_⟩
  · have lengths := congrArg List.length each
    rwa [List.length_mapIdx, List.length_map, List.length_map, eq_comm] at lengths
  · intro y member
    obtain ⟨i, stands⟩ := List.getElem?_of_mem member
    have here := row i
    rw [stands, Option.map_some, eq_comm, Option.map_eq_some_iff] at here
    obtain ⟨point, before, here⟩ := here
    have there := List.mem_of_getElem? before
    split_ifs at here
    · rw [← Option.some.inj here]
      exact ⟨inside point there, point, there, rfl⟩
    · have steps := mapM_id_eq_some here
      have lengths := congrArg List.length steps
      rw [List.length_mapIdx, List.length_map] at lengths
      refine ⟨?_, point, there, lengths.symm⟩
      intro p member
      have step : some p ∈ y.map some := List.mem_map_of_mem member
      rw [← steps, List.mem_mapIdx] at step
      obtain ⟨k, small, step⟩ := step
      obtain ⟨f, _, rfl⟩ := Option.map_eq_some_iff.mp step
      obtain ⟨above, below⟩ := inside point there _ (List.getElem_mem small)
      exact move_mem f above below _
  · apply Option.map_injective (Option.some_injective _)
    rw [row, Option.map_map]
    simp only [↓reduceIte]
    rfl

end Moves

end CodeCollect.EmoOtsu
