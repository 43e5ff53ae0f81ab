import CodeCollect.OpenPano.LinearBlender

namespace CodeCollect.OpenPano

open CodeCollect.Library

namespace LinearBlender

/-- A pixel lies in the range without its last row and its last column. -/
def Inside (range : Range) (i j : Nat) : Prop :=
  range.min.y ≤ i ∧ i < range.max.y ∧ range.min.x ≤ j ∧ j < range.max.x

instance (range : Range) (i j : Nat) : Decidable (Inside range i j) :=
  inferInstanceAs (Decidable (_ ∧ _))

theorem contain_of_inside {range : Range} {i j : Nat} (inside : Inside range i j) :
    range.contain i j := by
  obtain ⟨top, bottom, left, right⟩ := inside
  exact ⟨top, bottom.le, left, right.le⟩

variable {K : Type}

theorem target_inj {images : List (ImageToAdd K)} {first second : Nat → Nat → Color K} :
    target images first = target images second ↔
      ∀ i < (targetSize images).y, ∀ j < (targetSize images).x, first i j = second i j := by
  simp only [target, List.map_inj_left, List.mem_range]

variable [Field K] [LinearOrder K]

/-- Colours and weights of one pixel are not negative, and without a weight there is no colour. -/
structure Weighted (sums : Color K × K) : Prop where
  weight : 0 ≤ sums.2
  color : 0 ≤ sums.1 0
  nothing : sums.2 = 0 → sums.1 = 0

theorem Weighted.zero : Weighted (0 : Color K × K) := ⟨le_rfl, le_rfl, fun _ => rfl⟩

section Means

variable [IsStrictOrderedRing K]

theorem Weighted.add {first second : Color K × K} (one : Weighted first) (two : Weighted second) :
    Weighted (first + second) where
  weight := add_nonneg one.weight two.weight
  color := add_nonneg one.color two.color
  nothing none := by
    obtain ⟨noneFirst, noneSecond⟩ := (add_eq_zero_iff_of_nonneg one.weight two.weight).mp none
    rw [Prod.fst_add, one.nothing noneFirst, two.nothing noneSecond, add_zero]

theorem Weighted.sum {list : List (Color K × K)} (weighted : ∀ sums ∈ list, Weighted sums) :
    Weighted list.sum :=
  List.sum_induction Weighted (fun _ _ => Weighted.add) Weighted.zero weighted

/-- The pixels at the end of a range add nothing, or they have the mean colour of the others. -/
def Agrees (inner edge : Color K × K) : Prop :=
  edge.2 = 0 ∨ 0 < inner.2 ∧ ∀ channel, edge.1 channel * inner.2 = inner.1 channel * edge.2

/-- The mean of some pixels stays the same with further ones exactly when these agree with it. -/
theorem mean_eq_iff {inner edge : Color K × K} (one : Weighted inner) (two : Weighted edge) :
    (if inner.2 ≠ 0 then fun channel => inner.1 channel / inner.2 else fun _ => -1) =
        (if 0 < (inner + edge).2 then fun channel => (inner + edge).1 channel / (inner + edge).2
          else (Color.NO : Color K)) ↔
      Agrees inner edge := by
  have innerNonneg := one.weight
  rcases two.weight.eq_or_lt with none | some_edge
  · have nothing := two.nothing none.symm
    have same : inner + edge = inner := by
      rw [show edge = 0 from Prod.ext nothing none.symm, add_zero]
    rw [same]
    refine iff_of_true ?_ (Or.inl none.symm)
    rcases innerNonneg.eq_or_lt with zero | positive
    · rw [if_neg (by simp [← zero]), if_neg (by simp [← zero])]
      rfl
    · rw [if_pos positive.ne', if_pos positive]
  · have total : 0 < inner.2 + edge.2 := add_pos_of_nonneg_of_pos innerNonneg some_edge
    rw [Prod.snd_add, if_pos total]
    rcases innerNonneg.eq_or_lt with zero | positive
    · have colored := add_nonneg one.color two.color
      rw [if_neg (by simp [← zero])]
      refine iff_of_false (fun equal => ?_) (fun agrees => ?_)
      · have first := congrFun equal 0
        have mean : 0 ≤ (inner.1 0 + edge.1 0) / (inner.2 + edge.2) := div_nonneg colored total.le
        rw [Prod.fst_add, Pi.add_apply] at first
        linarith
      · rcases agrees with none | ⟨positive, _⟩
        · exact some_edge.ne' none
        · exact positive.ne zero
    · rw [if_pos positive.ne', funext_iff, Agrees, or_iff_right some_edge.ne',
        and_iff_right positive]
      apply forall_congr'
      intro channel
      rw [Prod.fst_add, Pi.add_apply, div_eq_div_iff positive.ne' total.ne']
      constructor <;> intro equal <;> linarith

end Means

section Loops

variable [FloorRing K] {orderedInput : Bool}

/-- What an image adds to a pixel of its range. -/
def contribution (orderedInput : Bool) (img : ImageToAdd K) (i j : Nat) : Color K × K :=
  (getColorAndW orderedInput img i j).getD 0

omit [FloorRing K] in
/-- A place that an image maps to lies in the image. -/
theorem map_coor_within {img : ImageToAdd K} {r c : Nat} {coor : K × K}
    (mapped : img.map_coor r c = some coor) :
    0 ≤ coor.1 ∧ coor.1 < img.img.cols ∧ 0 ≤ coor.2 ∧ coor.2 < img.img.rows := by
  obtain ⟨-, within⟩ := Option.filter_eq_some_iff.mp mapped
  simpa only [decide_eq_true_eq, not_or, not_lt, not_le] using within

/-- The sums of one pixel over the images that have it inside their range. -/
def innerSums (orderedInput : Bool) (images : List (ImageToAdd K)) (i j : Nat) : Color K × K :=
  (images.map fun img =>
    if Inside img.range i j then contribution orderedInput img i j else 0).sum

/-- The sums of one pixel over the images that have it in their last row or column. -/
def edgeSums (orderedInput : Bool) (images : List (ImageToAdd K)) (i j : Nat) : Color K × K :=
  (images.map fun img => if img.range.contain i j ∧ ¬ Inside img.range i j then
    contribution orderedInput img i j else 0).sum

/-- One image adds its contribution to each pixel inside its range. -/
theorem adds_addImage (img : ImageToAdd K) :
    Adds (fun planes => addImage orderedInput planes img) fun pixel =>
      if Inside img.range pixel.1 pixel.2 then contribution orderedInput img pixel.1 pixel.2
      else 0 := by
  have amount : (fun cell : Nat × Nat =>
      if Inside img.range cell.1 cell.2 then contribution orderedInput img cell.1 cell.2 else 0) =
      ((List.range' img.range.min.y (img.range.max.y - img.range.min.y)).map fun i =>
        ((List.range' img.range.min.x (img.range.max.x - img.range.min.x)).map fun j =>
          Pi.single (i, j) (contribution orderedInput img i j)).sum).sum := by
    funext cell
    rw [sum_grid List.nodup_range' List.nodup_range']
    congr 1
    simp only [Inside, List.mem_range'_1]
    exact propext (by omega)
  rw [amount]
  apply Adds.foldl
  intro i
  apply Adds.foldl
  intro j
  unfold contribution
  cases getColorAndW orderedInput img i j with
  | none =>
      rw [Option.getD_none, Pi.single_zero]
      exact Adds.nothing
  | some sample => exact Adds.write (i, j) sample

/-- The planes of the lazy path hold the sums over the insides of the ranges. -/
theorem planes_eq (images : List (ImageToAdd K)) (i j : Nat) :
    images.foldl (addImage orderedInput) 0 (i, j) = innerSums orderedInput images i j := by
  rw [(Adds.foldl (fun img => adds_addImage img) images).empty, sum_map_apply]
  rfl

/-- The sums of the other path have the ends of the ranges in addition. -/
theorem sums_eq (images : List (ImageToAdd K)) (i j : Nat) :
    sums orderedInput images i j =
      innerSums orderedInput images i j + edgeSums orderedInput images i j := by
  unfold sums innerSums edgeSums
  rw [← List.sum_map_add, List.sum_eq_foldl, List.foldl_map]
  congr 1
  funext sums img
  by_cases contained : img.range.contain i j
  · have split : (if Inside img.range i j then contribution orderedInput img i j else 0) +
        (if img.range.contain i j ∧ ¬ Inside img.range i j then contribution orderedInput img i j
          else 0) = contribution orderedInput img i j := by
      by_cases inside : Inside img.range i j <;> simp [inside, contained]
    rw [if_pos contained, split]
    unfold contribution
    cases getColorAndW orderedInput img i j with
    | none => exact (add_zero sums).symm
    | some sample => rfl
  · have outside : ¬ Inside img.range i j := fun inside => contained (contain_of_inside inside)
    simp [outside, contained]

end Loops

section Paths

variable [IsStrictOrderedRing K] [FloorRing K] {orderedInput : Bool}

omit [FloorRing K] in
theorem weight_nonneg (img : Mat32f K) {r c : K} (top : 0 ≤ r) (bottom : r < img.rows)
    (left : 0 ≤ c) (right : c < img.cols) : 0 ≤ weight orderedInput img r c := by
  have column : 0 ≤ (0.5 : K) - |c / img.cols - 0.5| := by
    have low : 0 ≤ c / img.cols := div_nonneg left (left.trans right.le)
    have high : c / img.cols ≤ 1 := div_le_one_of_le₀ right.le (left.trans right.le)
    rw [sub_nonneg, abs_le]
    constructor <;> norm_num <;> linarith
  have row : 0 ≤ (0.5 : K) - |r / img.rows - 0.5| := by
    have low : 0 ≤ r / img.rows := div_nonneg top (top.trans bottom.le)
    have high : r / img.rows ≤ 1 := div_le_one_of_le₀ bottom.le (top.trans bottom.le)
    rw [sub_nonneg, abs_le]
    constructor <;> norm_num <;> linarith
  unfold weight
  split
  · exact column
  · exact mul_nonneg column row

theorem contribution_weighted (orderedInput : Bool) (img : ImageToAdd K) (i j : Nat) :
    Weighted (contribution orderedInput img i j) := by
  unfold contribution getColorAndW
  cases mapped : img.map_coor i j with
  | none => exact Weighted.zero
  | some coor =>
      obtain ⟨left, right, top, bottom⟩ := map_coor_within mapped
      have nonneg : 0 ≤ weight orderedInput img.img coor.2 coor.1 :=
        weight_nonneg img.img top bottom left right
      rw [Option.bind_some]
      dsimp only
      split
      · exact Weighted.zero
      · rename_i colored
        refine ⟨nonneg, mul_nonneg (not_lt.mp colored) nonneg, fun none => ?_⟩
        funext channel
        change _ * weight orderedInput img.img coor.2 coor.1 = 0
        rw [show weight orderedInput img.img coor.2 coor.1 = 0 from none, mul_zero]

theorem sums_weighted (images : List (ImageToAdd K)) (i j : Nat) (test : ImageToAdd K → Prop)
    [DecidablePred test] :
    Weighted (images.map fun img =>
      if test img then contribution orderedInput img i j else 0).sum := by
  apply Weighted.sum
  intro sums member
  obtain ⟨img, _, rfl⟩ := List.mem_map.mp member
  split
  · exact contribution_weighted orderedInput img i j
  · exact Weighted.zero

/-- At each pixel of the target the ends of the ranges agree with the rest. -/
def EdgesAgree (orderedInput : Bool) (images : List (ImageToAdd K)) : Prop :=
  ∀ i < (targetSize images).y, ∀ j < (targetSize images).x,
    Agrees (innerSums orderedInput images i j) (edgeSums orderedInput images i j)

/-- Both paths give the same target exactly when the ends of the ranges agree with the rest. -/
theorem run_eq_iff (orderedInput : Bool) (images : List (ImageToAdd K)) :
    run true orderedInput images = run false orderedInput images ↔
      EdgesAgree orderedInput images := by
  unfold run
  rw [if_pos rfl, if_neg Bool.false_ne_true, runLazy, runDirect, target_inj]
  apply forall₂_congr
  intro i _
  apply forall₂_congr
  intro j _
  rw [planes_eq, sums_eq]
  exact mean_eq_iff (sums_weighted images i j _) (sums_weighted images i j _)

end Paths

/-- A white image of nine pixels. -/
def white : Mat32f ℚ := ⟨3, 3, fun _ _ _ => 1⟩

/-- The middle of a white image is shown on four pixels, and the target is larger. -/
def overlapped : List (ImageToAdd ℚ) :=
  [⟨⟨⟨0, 0⟩, ⟨1, 1⟩⟩, white, fun _ => some (1, 1)⟩, ⟨⟨⟨2, 2⟩, ⟨3, 3⟩⟩, white, fun _ => none⟩]

/-- The lazy path leaves out the last row and the last column of the first image. -/
theorem overlapped_differs : run true false overlapped ≠ run false false overlapped := by
  decide +kernel

theorem overlapped_run_iff :
    run true false overlapped = run false false overlapped ↔ EdgesAgree false overlapped :=
  run_eq_iff false overlapped

end LinearBlender

end CodeCollect.OpenPano
