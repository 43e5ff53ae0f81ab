import CodeCollect.EmoOtsu.MthemoRuns

namespace CodeCollect.EmoOtsu

section Rows

theorem Inside.insertionSort {x : List Int} (inside : Inside x) :
    Inside (x.insertionSort (· ≤ ·)) := by
  intro p member
  exact inside p ((List.mem_insertionSort _).mp member)

/-- Rows that are sorted and scored are in step. -/
theorem scored_inStep {K : Type} [Field K] [LinearOrder K] {n_countR : Histogram}
    {rows : List (List Int)} (inside : ∀ row ∈ rows, Inside row) {point : Point K}
    (member : point ∈ scored n_countR (rows.map (·.insertionSort (· ≤ ·)))) :
    InStep n_countR point := by
  obtain ⟨x, sorted, rfl⟩ := List.mem_map.mp member
  obtain ⟨row, before, rfl⟩ := List.mem_map.mp sorted
  exact ⟨(inside row before).insertionSort, List.pairwise_insertionSort _ _, rfl⟩

end Rows

section Population

variable {K : Type} [Field K] [LinearOrder K] [IsStrictOrderedRing K] [FloorRing K] {exp : K → K}
  {n_countR : Histogram} {level : Nat} {draws : Draws K} {it : Nat} {points : List (Point K)}

theorem incializa_inside (n : Nat) (draws : Nat → Nat → Draw K) :
    ∀ row ∈ incializa n draws, Inside row := by
  intro row member p there
  obtain ⟨i, _, rfl⟩ := List.mem_map.mp member
  obtain ⟨k, _, rfl⟩ := List.mem_map.mp there
  obtain ⟨positive, less⟩ := (draws i k).2
  have width : (0 : K) ≤ (u - l : Int) := by exact_mod_cast (by decide : (0 : Int) ≤ u - l)
  have low : (l : K) ≤ l + (draws i k).1 * (u - l : Int) :=
    le_add_of_nonneg_right (mul_nonneg positive.le width)
  have high : (l : K) + (draws i k).1 * (u - l : Int) ≤ u := by
    have part := mul_le_of_le_one_left width less.le
    rw [Int.cast_sub] at part ⊢
    linarith
  have start : (0 : K) ≤ l := by exact_mod_cast (by decide : (0 : Int) ≤ l)
  rw [fix, if_pos (start.trans low)]
  exact ⟨Int.le_floor.mpr low, Int.floor_le_iff.mpr (high.trans_lt (lt_add_one _))⟩

/-- The points of the next iteration are in step, and the best point is among them when it was
sorted. -/
theorem population_step {next : List (Point K)}
    (ran : population exp n_countR level draws it = some points)
    (ranNext : population exp n_countR level draws (it + 1) = some next)
    (inside : ∀ point ∈ points, Inside point.x) :
    let found := localSearch n_countR (level - 1) (draws.search it) points
    next.length = points.length ∧
      (∀ point ∈ next, InStep n_countR point ∧
        ∃ before ∈ points, point.x.length = before.x.length) ∧
      ∀ point, found.points[found.bR]? = some point → point.x.Pairwise (· ≤ ·) →
        next[found.bR]? = some ⟨point.x, fitnessIMG n_countR point.x⟩ := by
  intro found
  obtain ⟨before, earlier, rest⟩ := Option.bind_eq_some_iff.mp ranNext
  obtain rfl := Option.some.inj (ran.symm.trans earlier)
  obtain ⟨x, moved, rest⟩ := Option.bind_eq_some_iff.mp rest
  obtain ⟨y, sorted, same⟩ := Option.bind_eq_some_iff.mp rest
  obtain rfl := Option.some.inj same
  have found_inside : ∀ point ∈ found.points, Inside point.x := by
    intro point member
    obtain ⟨i, before, stands, rfl⟩ := mem_localSearch member
    exact components_inside _ (inside before (List.mem_of_getElem? stands))
  obtain ⟨rows, rfl, count, rows_inside, kept⟩ := moveO_spec found_inside moved
  rw [sortRows_eq sorted]
  refine ⟨?_, ?_, ?_⟩
  · rw [scored, List.length_map, List.length_map, List.length_map, count]
    exact length_localSearch _ _ _ _
  · intro point member
    constructor
    · apply scored_inStep _ member
      intro row there
      obtain ⟨row, before, rfl⟩ := List.mem_map.mp there
      exact (rows_inside row before).1.insertionSort
    · obtain ⟨_, twice, rfl⟩ := List.mem_map.mp member
      obtain ⟨x, once, rfl⟩ := List.mem_map.mp twice
      obtain ⟨row, there, same⟩ := List.mem_map.mp once
      obtain ⟨_, _, stored, length⟩ := rows_inside row there
      obtain ⟨i, before, stands, rfl⟩ := mem_localSearch stored
      refine ⟨before, List.mem_of_getElem? stands, ?_⟩
      rw [List.length_insertionSort, ← same, List.length_insertionSort, length, length_components]
  · intro point stands inOrder
    rw [stands] at kept
    rw [scored, List.getElem?_map, List.getElem?_map, List.getElem?_map, kept]
    simp only [Option.map_some, inOrder.insertionSort_eq]

/-- Before every call the points are in step, whatever the calls before have stored. -/
theorem population_inStep (ran : population exp n_countR level draws it = some points) :
    points.length = m ∧
      ∀ point ∈ points, InStep n_countR point ∧ point.x.length = level - 1 := by
  induction it generalizing points with
  | zero =>
      obtain ⟨x, sorted, rfl⟩ := Option.map_eq_some_iff.mp ran
      rw [sortRows_eq sorted]
      constructor
      · rw [scored, List.length_map, List.length_map, incializa, List.length_map, List.length_range]
      · intro point member
        refine ⟨scored_inStep (incializa_inside _ _) member, ?_⟩
        obtain ⟨x, sorted, rfl⟩ := List.mem_map.mp member
        obtain ⟨row, there, rfl⟩ := List.mem_map.mp sorted
        obtain ⟨i, _, rfl⟩ := List.mem_map.mp there
        rw [List.length_insertionSort, List.length_map, List.length_range]
  | succ it ih =>
      obtain ⟨before, earlier, _⟩ := Option.bind_eq_some_iff.mp ran
      obtain ⟨count, inStep⟩ := ih earlier
      obtain ⟨length, next, _⟩ :=
        population_step earlier ran fun point member => (inStep point member).1.inside
      refine ⟨length.trans count, ?_⟩
      intro point member
      obtain ⟨now, old, there, same⟩ := next point member
      exact ⟨now, same.trans (inStep old there).2⟩

end Population

section Runs

variable {K : Type} [Field K] [LinearOrder K] [IsStrictOrderedRing K] [FloorRing K]

/-- In no call does a better try move a component past its neighbours. -/
def RunOrderly (exp : K → K) (n_countR : Histogram) (level : Nat) (draws : Draws K) : Prop :=
  ∀ it points, population exp n_countR level draws it = some points →
    ∀ i point, points[i]? = some point →
      ComponentsOrderly n_countR (draws.search it i) (level - 1) point

/-- What holds after one call. -/
theorem MTHEMO_call {exp : K → K} {n_countR : Histogram} {level : Nat} {draws : Draws K}
    (orderly : RunOrderly exp n_countR level draws) {it : Nat} {found : Found K}
    (ran : MTHEMO exp n_countR level draws it = some found) :
    (∀ point ∈ found.points, InStep n_countR point) ∧
      found.points[found.bR]? = some ⟨found.xBestR, found.fxBestR⟩ ∧
      (∀ other ∈ found.points, other.fit ≤ found.fxBestR) ∧
      ∃ points, population exp n_countR level draws it = some points ∧
        localSearch n_countR (level - 1) (draws.search it) points = found := by
  rw [MTHEMO] at ran
  split_ifs at ran
  obtain ⟨points, before, rfl⟩ := Option.map_eq_some_iff.mp ran
  obtain ⟨count, inStep⟩ := population_inStep before
  obtain ⟨stands, greatest⟩ := localSearch_best n_countR (level - 1) (draws.search it) points count
  refine ⟨?_, stands, greatest, points, before, rfl⟩
  intro point member
  obtain ⟨i, earlier, there, rfl⟩ := mem_localSearch member
  exact components_inStep (inStep earlier (List.mem_of_getElem? there)).1
    (orderly it points before i earlier there)

/-- In a run in which no better try moves a component past its neighbours the fitness that is stored is
always the one of the thresholds, the thresholds keep to the limits, and the best fitness does not
fall. -/
theorem MTHEMO_inStep (exp : K → K) (n_countR : Histogram) (level : Nat) (draws : Draws K)
    (orderly : RunOrderly exp n_countR level draws) (it : Nat) (found : Found K)
    (ran : MTHEMO exp n_countR level draws it = some found) :
    (∀ point ∈ found.points, point.fit ≠ ⊥ → point.fit = fitnessIMG n_countR point.x) ∧
      found.fxBestR = fitnessIMG n_countR found.xBestR ∧
      (∀ point ∈ found.points, Inside point.x) ∧
      ∀ next, MTHEMO exp n_countR level draws (it + 1) = some next →
        found.fxBestR ≤ next.fxBestR := by
  obtain ⟨inStep, stands, _, points, before, rfl⟩ := MTHEMO_call orderly ran
  have best := inStep _ (List.mem_of_getElem? stands)
  refine ⟨?_, best.scored, fun point member => (inStep point member).inside, ?_⟩
  · intro point member _
    exact (inStep point member).scored
  · intro next ranNext
    obtain ⟨_, _, greatest, later, after, rfl⟩ := MTHEMO_call orderly ranNext
    obtain ⟨_, _, kept⟩ := population_step before after
      fun point member => ((population_inStep before).2 point member).1.inside
    have again := kept _ stands best.sorted
    have searched := getElem?_localSearch n_countR (level - 1) (draws.search (it + 1)) later
      (localSearch n_countR (level - 1) (draws.search it) points).bR
    rw [again, Option.map_some] at searched
    calc (localSearch n_countR (level - 1) (draws.search it) points).fxBestR
        = fitnessIMG n_countR (localSearch n_countR (level - 1) (draws.search it) points).xBestR :=
          best.scored
      _ ≤ _ := fit_le_components (level - 1) ⟨_, _⟩
      _ ≤ _ := greatest _ (List.mem_of_getElem? searched)

/-- With one threshold every run is orderly. -/
theorem runOrderly_of_two_levels (exp : K → K) (n_countR : Histogram) (draws : Draws K) :
    RunOrderly exp n_countR 2 draws := by
  intro it points ran i point stands k _
  apply triesOrderly_of_single
  rw [length_components]
  exact ((population_inStep ran).2 point (List.mem_of_getElem? stands)).2.le

/-- Four pixels of four levels. -/
def crossing : Histogram := fun i => if i = 100 ∨ i = 102 ∨ i = 104 ∨ i = 200 then 1 else 0

/-- The points start at 100 and 103, and the first one of the thresholds takes a step of 5 upwards. -/
def crossingDraws : Draws ℚ where
  incializa _ k := if k = 0 then ⟨199 / 510, by norm_num⟩ else ⟨205 / 510, by norm_num⟩
  search _ _ :=
    { lambda1 := fun _ => ⟨3 / 4, by norm_num⟩
      lambda2 := fun k _ => if k = 0 then ⟨9 / 10, by norm_num⟩ else ⟨1 / 100, by norm_num⟩ }
  move _ _ _ := ⟨1 / 2, by norm_num⟩

theorem MTHEMO_inStep_crossing :
    ∃ found, MTHEMO id crossing 2 crossingDraws 0 = some found ∧
      (∀ point ∈ found.points, point.fit ≠ ⊥ → point.fit = fitnessIMG crossing point.x) ∧
      found.fxBestR = fitnessIMG crossing found.xBestR ∧
      (∀ point ∈ found.points, Inside point.x) ∧
      ∀ next, MTHEMO id crossing 2 crossingDraws 1 = some next → found.fxBestR ≤ next.fxBestR :=
  ⟨_, rfl, MTHEMO_inStep id crossing 2 crossingDraws (runOrderly_of_two_levels _ _ _) 0 _ rfl⟩

/-- The vector that is scored is sorted, so that its first component is not the one that was moved. -/
theorem not_inStep_crossing :
    ¬ ∀ found, MTHEMO id crossing 3 crossingDraws 0 = some found →
      ∀ point ∈ found.points, point.fit ≠ ⊥ → point.fit = fitnessIMG crossing point.x := by
  intro inStep
  let start : Point ℚ := ⟨[100, 103], fitnessIMG crossing [100, 103]⟩
  let left : Point ℚ := components crossing (crossingDraws.search 0 0) 2 start
  have row : (incializa 2 crossingDraws.incializa)[0]? = some [100, 103] := by decide +kernel
  have sorted : [100, 103].insertionSort (· ≤ · : Int → Int → Prop) = [100, 103] := by decide
  have starts : (scored crossing ((incializa 2 crossingDraws.incializa).map
      (·.insertionSort (· ≤ ·))))[0]? = some start := by
    rw [scored, List.getElem?_map, List.getElem?_map, row, Option.map_some, sorted, Option.map_some]
  have searched := getElem?_localSearch crossing 2 (crossingDraws.search 0)
    (scored crossing ((incializa 2 crossingDraws.incializa).map (·.insertionSort (· ≤ ·)))) 0
  rw [starts, Option.map_some] at searched
  have number : left.fit ≠ ⊥ := by decide +kernel
  have apart : left.fit ≠ fitnessIMG crossing left.x := by decide +kernel
  exact apart (inStep _ rfl left (List.mem_of_getElem? searched) number)

end Runs

end CodeCollect.EmoOtsu
