import CodeCollect.OpenPano.MultiBandWeights

namespace CodeCollect.OpenPano

open CodeCollect.Library

namespace MultiBandBlender

section Levels

variable {K : Type} (blur : Blur K) (images : List (ImageToBlend K))

/-- The images of a level are blurred from those of the level before. -/
def levelImages : Nat → List (ImageToBlend K)
  | 0 => images
  | level + 1 => (levelImages level).mapIdx fun imgid img =>
      { img with img := blur level imgid img.img }

theorem levelImages_info (level : Nat) :
    (levelImages blur images level).map ImageToBlend.info = images.map ImageToBlend.info := by
  induction level with
  | zero => rfl
  | succ level ih =>
      rw [← ih, levelImages]
      apply List.ext_getElem?
      intro k
      rw [List.getElem?_map, List.getElem?_mapIdx, List.getElem?_map, Option.map_map]
      rfl

variable {blur images}

theorem create_next_level_eq {level : Nat} {next : List (ImageToBlend K)}
    (infos : next.map ImageToBlend.info = images.map ImageToBlend.info) :
    create_next_level blur level (levelImages blur images level) next =
      levelImages blur images (level + 1) := by
  have same := infos.trans (levelImages_info blur images level).symm
  rw [create_next_level, levelImages]
  apply List.ext_getElem?
  intro k
  have here : (next.map ImageToBlend.info)[k]? =
      ((levelImages blur images level).map ImageToBlend.info)[k]? := by rw [same]
  rw [List.getElem?_map, List.getElem?_map] at here
  rw [List.getElem?_mapIdx, List.getElem?_mapIdx, List.zip, List.getElem?_zipWith]
  generalize (levelImages blur images level)[k]? = img at here ⊢
  generalize next[k]? = after at here ⊢
  cases img with
  | none => rfl
  | some img =>
      cases after with
      | none => cases here
      | some after =>
          simp only [Option.map_some, Option.some.injEq] at here ⊢
          rw [here]

theorem levels_zip_fst (level : Nat) :
    ((levelImages blur images level).zip (levelImages blur images (level + 1))).map Prod.fst =
      levelImages blur images level := by
  apply List.map_fst_zip
  rw [levelImages, List.length_mapIdx]

/-- Whether a pixel is covered depends on the ranges and the masks. -/
theorem covers_of_infos {others : List (ImageToBlend K)} {i j : Nat}
    (same : images.map ImageToBlend.info = others.map ImageToBlend.info)
    (uncovered : ∀ img ∈ others, ¬ img.Covers i j) : ∀ img ∈ images, ¬ img.Covers i j := by
  intro img member covers
  have listed := List.mem_map_of_mem (f := ImageToBlend.info) member
  rw [same] at listed
  obtain ⟨other, there, equal⟩ := List.mem_map.mp listed
  apply uncovered other there
  rw [ImageToBlend.Covers, ImageToBlend.contain, ImageToBlend.valid_on_target, equal]
  exact covers

end Levels

variable {K : Type} [Field K] [LinearOrder K]

section Means

/-- The image takes part in the mean of the pixel. -/
def Contributes (i j : Nat) (img : ImageToBlend K) : Prop :=
  img.Covers i j ∧ 0 < img.weight_on_target j i

instance (i j : Nat) (img : ImageToBlend K) : Decidable (Contributes i j img) :=
  inferInstanceAs (Decidable (_ ∧ _))

/-- The weights of the images that take part. -/
def weights (i j : Nat) (images : List (ImageToBlend K)) : List K :=
  (images.filter fun img => Contributes i j img).map fun img => img.weight_on_target j i

/-- The colour that an image adds to the mean. -/
def contribution (is_last : Bool) (i j : Nat) (pair : ImageToBlend K × ImageToBlend K) : Color K :=
  if is_last then pair.1.color_on_target j i
  else pair.1.color_on_target j i - pair.2.color_on_target j i

/-- The mean of a pixel, if the images that take part have enough weight. -/
def mean (is_last : Bool) (i j : Nat) (pairs : List (ImageToBlend K × ImageToBlend K)) :
    Option (Color K) :=
  let sums := pairs.foldl (sum_pixel is_last i j) (0, 0)
  if sums.2 < EPS then none else some (sums.2⁻¹ • sums.1)

/-- A pixel takes a mean of a level. -/
def take (old : Color K × Bool) (mean : Option (Color K)) : Color K × Bool :=
  match mean with
  | none => old
  | some isum => if old.2 then (old.1 + isum, true) else (isum, true)

variable {i j : Nat} {is_last : Bool}

theorem sum_pixel_eq (is_last : Bool) (i j : Nat) (sums : Color K × K)
    (pair : ImageToBlend K × ImageToBlend K) :
    sum_pixel is_last i j sums pair =
      if Contributes i j pair.1 then
        (sums.1 + pair.1.weight_on_target j i • contribution is_last i j pair,
          sums.2 + pair.1.weight_on_target j i)
      else sums := by
  rw [sum_pixel]
  dsimp only
  by_cases inside : pair.1.contain i j
  · by_cases valid : pair.1.valid_on_target j i = true
    · by_cases positive : 0 < pair.1.weight_on_target j i
      · have takes : Contributes i j pair.1 := ⟨⟨inside, valid⟩, positive⟩
        rw [if_neg (not_not.mpr inside), if_neg (not_not.mpr valid), if_neg (not_le.mpr positive),
          if_pos takes]
        rfl
      · rw [if_neg (not_not.mpr inside), if_neg (not_not.mpr valid), if_pos (not_lt.mp positive),
          if_neg fun takes => positive takes.2]
    · rw [if_neg (not_not.mpr inside), if_pos valid, if_neg fun takes => valid takes.1.2]
  · rw [if_pos inside, if_neg fun takes => inside takes.1.1]

/-- The colours that the images add to the mean. -/
def contributions (is_last : Bool) (i j : Nat) (pairs : List (ImageToBlend K × ImageToBlend K)) :
    List (Color K) :=
  (pairs.filter fun pair => Contributes i j pair.1).map fun pair =>
    pair.1.weight_on_target j i • contribution is_last i j pair

theorem sum_pixels (is_last : Bool) (i j : Nat) (pairs : List (ImageToBlend K × ImageToBlend K))
    (sums : Color K × K) :
    pairs.foldl (sum_pixel is_last i j) sums =
      (sums.1 + (contributions is_last i j pairs).sum,
        sums.2 + (weights i j (pairs.map Prod.fst)).sum) := by
  induction pairs generalizing sums with
  | nil => simp [weights, contributions]
  | cons pair pairs ih =>
      rw [List.foldl_cons, ih, sum_pixel_eq]
      simp only [weights, contributions, List.map_cons]
      by_cases takes : Contributes i j pair.1
      · rw [if_pos takes, List.filter_cons_of_pos (by simpa), List.filter_cons_of_pos (by simpa),
          List.map_cons, List.map_cons, List.sum_cons, List.sum_cons, ← add_assoc, ← add_assoc]
      · rw [if_neg takes, List.filter_cons_of_neg (by simpa), List.filter_cons_of_neg (by simpa)]

theorem mean_eq (is_last : Bool) (i j : Nat) (pairs : List (ImageToBlend K × ImageToBlend K)) :
    mean is_last i j pairs =
      if (weights i j (pairs.map Prod.fst)).sum < EPS then none
      else some ((weights i j (pairs.map Prod.fst)).sum⁻¹ • (contributions is_last i j pairs).sum) := by
  rw [mean, sum_pixels, zero_add, zero_add]

/-- Where the images that take part agree, their sum is a multiple of what they agree on. -/
theorem contributions_of_agree {pairs : List (ImageToBlend K × ImageToBlend K)} {c : Color K}
    (agree : ∀ pair ∈ pairs, Contributes i j pair.1 → contribution is_last i j pair = c) :
    (contributions is_last i j pairs).sum = (weights i j (pairs.map Prod.fst)).sum • c := by
  rw [List.sum_smul, contributions, weights, List.filter_map, List.map_map, List.map_map]
  congr 1
  apply List.map_congr_left
  intro pair member
  obtain ⟨listed, takes⟩ := List.mem_filter.mp member
  rw [agree pair listed (of_decide_eq_true takes)]
  rfl

/-- Where the images that take part agree, the mean is what they agree on. -/
theorem mean_of_agree [IsStrictOrderedRing K] {pairs : List (ImageToBlend K × ImageToBlend K)}
    {c : Color K}
    (agree : ∀ pair ∈ pairs, Contributes i j pair.1 → contribution is_last i j pair = c)
    (enough : EPS ≤ (weights i j (pairs.map Prod.fst)).sum) : mean is_last i j pairs = some c := by
  rw [mean_eq, if_neg (not_lt.mpr enough), contributions_of_agree agree, smul_smul,
    inv_mul_cancel₀ (EPS_pos.trans_le enough).ne', one_smul]

theorem weights_of_uncovered {images : List (ImageToBlend K)}
    (uncovered : ∀ img ∈ images, ¬ img.Covers i j) : weights i j images = [] := by
  rw [weights, List.filter_eq_nil_iff.mpr, List.map_nil]
  intro img member takes
  exact uncovered img member (of_decide_eq_true takes).1

/-- Only the images of the level count at the last level. -/
theorem mean_last (pairs : List (ImageToBlend K × ImageToBlend K)) :
    mean true i j pairs = mean true i j (pairs.map fun pair => (pair.1, pair.1)) := by
  rw [mean, mean, List.foldl_map]
  rfl

end Means

section Pixels

variable {is_last : Bool} {pairs : List (ImageToBlend K × ImageToBlend K)}

/-- The colour of a pixel and its bit. -/
def pixelOf (written : (Nat × Nat → Color K) × Mask2D) (pixel : Nat × Nat) : Color K × Bool :=
  (written.1 pixel, written.2.get pixel.1 pixel.2)

theorem blend_pixel_w (written : (Nat × Nat → Color K) × Mask2D) (pixel : Nat × Nat) :
    (blend_pixel is_last pairs written pixel).2.w = written.2.w := by
  rw [blend_pixel]
  dsimp only
  split
  · rfl
  · split <;> rfl

theorem pixelOf_blend_pixel (written : (Nat × Nat → Color K) × Mask2D) (pixel : Nat × Nat) :
    pixelOf (blend_pixel is_last pairs written pixel) pixel =
      take (pixelOf written pixel) (mean is_last pixel.1 pixel.2 pairs) := by
  rw [blend_pixel, mean]
  dsimp only
  by_cases small : (pairs.foldl (sum_pixel is_last pixel.1 pixel.2) (0, 0)).2 < EPS
  · rw [if_pos small, if_pos small, take]
  · rw [if_neg small, if_neg small, take, pixelOf, pixelOf]
    by_cases first : written.2.get pixel.1 pixel.2 = true
    · rw [if_neg (not_not.mpr first), if_pos first]
      exact Prod.ext (Function.update_self ..) first
    · rw [if_pos first, if_neg first]
      exact Prod.ext (Function.update_self ..) (written.2.get_set_self ..)

theorem pixelOf_blend_pixel_of_ne {written : (Nat × Nat → Color K) × Mask2D}
    {pixel other : Nat × Nat} (inside : pixel.2 < written.2.w) (there : other.2 < written.2.w)
    (differ : other ≠ pixel) :
    pixelOf (blend_pixel is_last pairs written pixel) other = pixelOf written other := by
  rw [blend_pixel]
  dsimp only
  split
  · rfl
  · split
    · exact Prod.ext (Function.update_of_ne differ ..)
        (written.2.get_set_of_ne inside there differ)
    · exact Prod.ext (Function.update_of_ne differ ..) rfl

variable (is_last pairs) in
/-- A level gives each pixel of the target its mean. -/
theorem blend_pixels (target_size : Coor) {written : (Nat × Nat → Color K) × Mask2D}
    (wide : target_size.x ≤ written.2.w) :
    target_size.x ≤ ((Sweep.grid target_size.y target_size.x).foldl
        (blend_pixel is_last pairs) written).2.w ∧
      ∀ pixel ∈ Sweep.grid target_size.y target_size.x,
        pixelOf ((Sweep.grid target_size.y target_size.x).foldl
            (blend_pixel is_last pairs) written) pixel =
          take (pixelOf written pixel) (mean is_last pixel.1 pixel.2 pairs) := by
  refine ⟨?_, fun pixel member => ?_⟩
  · apply Sweep.invariant (fun current : (Nat × Nat → Color K) × Mask2D =>
      target_size.x ≤ current.2.w) _ wide
    intro current wide pixel _
    rw [blend_pixel_w]
    exact wide
  · have every : ∀ cell ∈ Sweep.grid target_size.y target_size.x, target_size.x ≤
          ((Sweep.grid target_size.y target_size.x).foldl (blend_pixel is_last pairs) written).2.w ∧
        pixelOf ((Sweep.grid target_size.y target_size.x).foldl
          (blend_pixel is_last pairs) written) cell =
            take (pixelOf written cell) (mean is_last cell.1 cell.2 pairs) :=
      Sweep.each
        (fun cell current => target_size.x ≤ current.2.w ∧ pixelOf current cell = pixelOf written cell)
        (fun cell current => target_size.x ≤ current.2.w ∧ pixelOf current cell =
          take (pixelOf written cell) (mean is_last cell.1 cell.2 pairs))
        (fun current cell _ before => by
          rw [blend_pixel_w, pixelOf_blend_pixel, before.2]
          exact ⟨before.1, rfl⟩)
        (fun current cell here other there differ => by
          have inside := (Sweep.mem_grid.mp here).2
          have beside := (Sweep.mem_grid.mp there).2
          rw [blend_pixel_w]
          constructor <;> rintro ⟨wide, same⟩ <;>
            exact ⟨wide, (pixelOf_blend_pixel_of_ne (inside.trans_le wide) (beside.trans_le wide)
              differ).trans same⟩)
        (Sweep.nodup_grid ..) fun cell _ => ⟨wide, rfl⟩
    exact (every pixel member).2

end Pixels

section Runs

variable {blur : Blur K} {images : List (ImageToBlend K)}

/-- The mean of a pixel at a level. -/
def levelMean (blur : Blur K) (images : List (ImageToBlend K)) (band_level : Nat)
    (pixel : Nat × Nat) (level : Nat) : Option (Color K) :=
  mean (level + 1 = band_level) pixel.1 pixel.2
    ((levelImages blur images level).zip (levelImages blur images (level + 1)))

/-- The pixels of the target hold what the levels so far have given them. -/
structure Blended (blur : Blur K) (target_size : Coor) (band_level : Nat)
    (images : List (ImageToBlend K)) (level : Nat) (state : Blending K) : Prop where
  current : level < band_level → state.images = levelImages blur images level
  infos : state.next_lvl_images.map ImageToBlend.info = images.map ImageToBlend.info
  wide : target_size.x ≤ state.target_mask.w
  pixels : ∀ pixel ∈ Sweep.grid target_size.y target_size.x,
    pixelOf (state.target, state.target_mask) pixel =
      ((List.range level).map (levelMean blur images band_level pixel)).foldl take (Color.NO, false)

/-- What is blended at a level is the mean of the level. -/
theorem mean_level {band_level level : Nat} {next : List (ImageToBlend K)}
    (infos : next.map ImageToBlend.info = images.map ImageToBlend.info) (pixel : Nat × Nat) :
    mean (level + 1 = band_level) pixel.1 pixel.2
        ((levelImages blur images level).zip (if level + 1 = band_level then next
          else create_next_level blur level (levelImages blur images level) next)) =
      levelMean blur images band_level pixel level := by
  have length : ∀ other : List (ImageToBlend K),
      other.map ImageToBlend.info = images.map ImageToBlend.info →
        ((levelImages blur images level).zip other).map (fun pair => (pair.1, pair.1)) =
          (levelImages blur images level).map fun img => (img, img) := by
    intro other same
    have lengths := congrArg List.length (same.trans (levelImages_info blur images level).symm)
    rw [List.length_map, List.length_map] at lengths
    have firsts : ((levelImages blur images level).zip other).map Prod.fst =
        levelImages blur images level := List.map_fst_zip lengths.ge
    rw [← firsts, List.map_map, List.map_fst_zip lengths.ge]
    rfl
  by_cases last : level + 1 = band_level
  · rw [levelMean, if_pos last, decide_eq_true last, mean_last, length next infos,
      mean_last (List.zip _ _), length _ (levelImages_info ..)]
  · rw [levelMean, if_neg last, create_next_level_eq infos]

theorem Blended.blend_level {target_size : Coor} {band_level level : Nat} {state : Blending K}
    (blended : Blended blur target_size band_level images level state) (more : level < band_level) :
    Blended blur target_size band_level images (level + 1)
      (blend_level blur target_size band_level state level) := by
  obtain ⟨current, infos, wide, pixels⟩ := blended
  have now := current more
  have written : target_size.x ≤ (state.target, state.target_mask).2.w := wide
  obtain ⟨wider, every⟩ := blend_pixels (level + 1 = band_level)
    (state.images.zip (if level + 1 = band_level then state.next_lvl_images
      else create_next_level blur level state.images state.next_lvl_images)) target_size written
  refine ⟨fun before => ?_, ?_, wider, fun pixel member => ?_⟩
  · rw [MultiBandBlender.blend_level, now]
    dsimp only
    rw [if_neg before.ne, create_next_level_eq infos]
  · rw [MultiBandBlender.blend_level, now]
    exact levelImages_info ..
  · rw [List.range_succ, List.map_append, List.foldl_append, ← pixels pixel member,
      List.map_singleton, List.foldl_cons, List.foldl_nil, ← mean_level infos, ← now]
    exact every pixel member

theorem blended_levels (blur : Blur K) (target_size : Coor) {band_level levels : Nat}
    (images : List (ImageToBlend K)) (few : levels ≤ band_level) :
    Blended blur target_size band_level images levels
      (blend_levels blur target_size band_level images levels) := by
  induction levels with
  | zero => exact ⟨fun _ => rfl, rfl, Mask2D.le_empty_w _, fun _ _ => rfl⟩
  | succ levels ih =>
      rw [blend_levels, List.range_succ, List.foldl_append]
      exact (ih (Nat.le_of_succ_le few)).blend_level few

end Runs

section Pixel

variable {blur : Blur K} {images : List (ImageToBlend K)} {i j : Nat}

omit [LinearOrder K] in
theorem foldl_take_none {means : List (Option (Color K))} (none : ∀ mean ∈ means, mean = .none)
    (old : Color K × Bool) : means.foldl take old = old :=
  Sweep.invariant (fun current => current = old)
    (fun current same mean member => by rw [none mean member, same]; rfl) rfl

omit [LinearOrder K] in
theorem take_snd (old : Color K × Bool) (mean : Option (Color K)) :
    (take old mean).2 = (old.2 || mean.isSome) := by
  cases mean with
  | none => exact (Bool.or_false _).symm
  | some isum =>
      rw [take]
      split <;> exact (Bool.or_true _).symm

omit [LinearOrder K] in
/-- The bit of a pixel stays set. -/
theorem foldl_take_snd (means : List (Option (Color K))) {old : Color K × Bool}
    (written : old.2 = true) : (means.foldl take old).2 = true :=
  Sweep.invariant (fun current : Color K × Bool => current.2 = true)
    (fun current written mean _ => by rw [take_snd, written, Bool.true_or]) written

section Order

variable [IsStrictOrderedRing K]

theorem levelMean_of_uncovered (uncovered : ∀ img ∈ images, ¬ img.Covers i j)
    (band_level level : Nat) : levelMean blur images band_level (i, j) level = none := by
  have nothing : weights i j (levelImages blur images level) = [] :=
    weights_of_uncovered (covers_of_infos (levelImages_info blur images level) uncovered)
  rw [levelMean, mean_eq, levels_zip_fst, nothing, List.sum_nil, if_pos EPS_pos]

/-- The image that has the weight of a pixel takes part at the first level. -/
theorem levelMean_zero (one : OneWeight i j images) {img : ImageToBlend K} (member : img ∈ images)
    (covers : img.Covers i j) (band_level : Nat) :
    (levelMean blur images band_level (i, j) 0).isSome = true := by
  obtain ⟨k, ⟨full, position, covered, whole⟩, -⟩ := one ⟨img, member, covers⟩
  have takes : Contributes i j full := ⟨covered, by rw [whole]; exact one_pos⟩
  have listed : (1 : K) ∈ weights i j images := List.mem_map.mpr
    ⟨full, List.mem_filter.mpr ⟨List.mem_of_getElem? position, decide_eq_true takes⟩, whole⟩
  have enough : 1 ≤ (weights i j images).sum := by
    apply List.single_le_sum _ 1 listed
    intro w member
    obtain ⟨img, taking, rfl⟩ := List.mem_map.mp member
    exact (of_decide_eq_true (List.mem_filter.mp taking).2).2.le
  have small : (EPS : K) ≤ 1 := by
    rw [EPS]
    norm_num
  rw [levelMean, mean_eq, levels_zip_fst, levelImages, if_neg (not_lt.mpr (small.trans enough))]
  rfl

theorem foldl_take_covered (one : OneWeight i j images) (covered : ∃ img ∈ images, img.Covers i j)
    {band_level : Nat} (some_level : 1 ≤ band_level) :
    (((List.range band_level).map (levelMean blur images band_level (i, j))).foldl take
      (Color.NO, false)).2 = true := by
  obtain ⟨img, member, covers⟩ := covered
  obtain ⟨later, rfl⟩ := Nat.exists_eq_add_of_le' some_level
  rw [List.range_succ_eq_map, List.map_cons, List.foldl_cons]
  apply foldl_take_snd
  rw [take_snd, levelMean_zero one member covers, Bool.or_true]

/-- The images that take part at some level have the colours `c` at all levels. -/
def Agree (blur : Blur K) (images : List (ImageToBlend K)) (band_level i j : Nat)
    (c : Nat → Color K) : Prop :=
  ∀ k : Nat, (∃ level < band_level, ∃ img, (levelImages blur images level)[k]? = some img ∧
      Contributes i j img) →
    ∀ level < band_level, ∀ img, (levelImages blur images level)[k]? = some img →
      img.color_on_target j i = c level

theorem levelMean_of_agree {band_level level : Nat} {c : Nat → Color K}
    (agree : Agree blur images band_level i j c) (more : level < band_level)
    (enough : EPS ≤ (weights i j (levelImages blur images level)).sum) :
    levelMean blur images band_level (i, j) level =
      some (if level + 1 = band_level then c level else c level - c (level + 1)) := by
  apply mean_of_agree
  · intro pair member takes
    obtain ⟨k, position⟩ := List.mem_iff_getElem?.mp member
    obtain ⟨here, next⟩ := List.getElem?_zip_eq_some.mp position
    have colors := agree k ⟨level, more, pair.1, here, takes⟩
    have first := colors level more pair.1 here
    rw [contribution, first]
    by_cases last : level + 1 = band_level
    · rw [decide_eq_true last, if_pos rfl, if_pos last]
    · rw [decide_eq_false last, if_neg Bool.false_ne_true, if_neg last,
        colors (level + 1) (by omega) pair.2 next]
  · rw [levels_zip_fst]
    exact enough

/-- The differences of the levels add up to the colour of the first one. -/
theorem foldl_take_of_agree {band_level : Nat} {c : Nat → Color K}
    (agree : Agree blur images band_level i j c)
    (enough : ∀ level < band_level, EPS ≤ (weights i j (levelImages blur images level)).sum)
    {levels : Nat} (some : 0 < levels) (few : levels ≤ band_level) :
    ((List.range levels).map (levelMean blur images band_level (i, j))).foldl take
        (Color.NO, false) =
      (if levels = band_level then c 0 else c 0 - c levels, true) := by
  induction levels, some using Nat.le_induction with
  | base =>
      rw [List.range_one, List.map_singleton, List.foldl_cons, List.foldl_nil,
        levelMean_of_agree agree few (enough 0 few)]
      rfl
  | succ levels some ih =>
      have rest := ih (Nat.le_of_succ_le few)
      rw [List.range_succ, List.map_append, List.foldl_append, rest, List.map_singleton,
        List.foldl_cons, List.foldl_nil, levelMean_of_agree agree few (enough levels few), take,
        if_pos rfl, if_neg (by omega)]
      dsimp only
      by_cases last : levels + 1 = band_level
      · rw [if_pos last, if_pos last, sub_add_cancel]
      · rw [if_neg last, if_neg last, sub_add_sub_cancel]

/-- A clamped colour is a colour. -/
theorem clamp_ne_NO (p : Color K) : clamp p ≠ Color.NO := by
  intro same
  have channel := congrFun same 0
  have nonneg : 0 ≤ clamp p 0 := le_max_right ..
  rw [channel, Color.NO] at nonneg
  linarith

/-- The blended picture has a colour where some image is valid. After the weight map one image has
the weight of such a pixel, and where the images agree the picture shows their colour. -/
theorem blend_reconstructs (blur : Blur K) (target_size : Coor) (band_level : Nat)
    (some_level : 1 ≤ band_level) (images : List (ImageToBlend K))
    (weighted : ∀ i j, ∀ img ∈ images, WeightedAt i j img) {i j : Nat} (row : i < target_size.y)
    (column : j < target_size.x) :
    ((blend blur target_size band_level images).pixel i j = Color.NO ↔
        ∀ img ∈ images, ¬ img.Covers i j) ∧
      OneWeight i j (update_weight_map target_size images) ∧
      ∀ c : Nat → Color K,
        Agree blur (update_weight_map target_size images) band_level i j c →
        (∀ level < band_level, EPS ≤
          (weights i j (levelImages blur (update_weight_map target_size images) level)).sum) →
        (blend blur target_size band_level images).pixel i j = clamp (c 0) := by
  have one := oneWeight_update_weight_map weighted row column
  have infos := congrArg (List.map Prod.fst) (update_weight_map_colors target_size images)
  rw [List.map_map, List.map_map] at infos
  have pixel := (blended_levels blur target_size (update_weight_map target_size images)
    (le_refl band_level)).pixels (i, j) (Sweep.mem_grid.mpr ⟨row, column⟩)
  rw [blend]
  generalize update_weight_map target_size images = start at one infos pixel ⊢
  generalize blend_levels blur target_size band_level start band_level = last at pixel ⊢
  have bit := congrArg Prod.snd pixel
  have color := congrArg Prod.fst pixel
  dsimp only [pixelOf] at bit color ⊢
  refine ⟨⟨fun nothing => ?_, fun uncovered => ?_⟩, one, fun c agree enough => ?_⟩
  · by_contra covered
    have written : last.target_mask.get i j = true := by
      rw [bit]
      apply foldl_take_covered one _ some_level
      contrapose! covered
      exact covers_of_infos infos.symm covered
    rw [if_pos written] at nothing
    exact clamp_ne_NO _ nothing
  · have none : ∀ mean ∈ (List.range band_level).map (levelMean blur start band_level (i, j)),
        mean = .none := by
      intro mean member
      obtain ⟨level, -, rfl⟩ := List.mem_map.mp member
      exact levelMean_of_uncovered (covers_of_infos infos uncovered) band_level level
    rw [foldl_take_none none] at bit color
    rw [if_neg (by rw [bit]; exact Bool.false_ne_true), color]
  · rw [foldl_take_of_agree agree enough some_level le_rfl, if_pos rfl] at bit color
    rw [if_pos bit, color]

end Order

/-- Two images lie on the same pixel. -/
def overlapping : List (ImageToBlend ℚ) :=
  [⟨fun _ _ => ⟨fun _ => 1 / 2, 1 / 3⟩, ⟨⟨0, 0⟩, ⟨0, 0⟩⟩, Mask2D.empty 1⟩,
    ⟨fun _ _ => ⟨fun _ => 1 / 2, 1 / 4⟩, ⟨⟨0, 0⟩, ⟨0, 0⟩⟩, Mask2D.empty 1⟩]

/-- The blurred images have another colour, and less weight than one. -/
def fading : Blur ℚ := fun _ _ _ _ _ => ⟨fun _ => 1 / 5, 1 / 6⟩

theorem blend_reconstructs_overlapping :
    (blend fading ⟨1, 1⟩ 3 overlapping).pixel 0 0 = fun _ => 1 / 2 := by
  have weighted : ∀ i j, ∀ img ∈ overlapping, WeightedAt i j img := by
    intro i j img member
    rw [overlapping, List.mem_cons, List.mem_singleton] at member
    rcases member with rfl | rfl <;>
      exact ⟨fun _ => by norm_num [ImageToBlend.weight_on_target, ImageToBlend.on_target],
        fun _ => by norm_num [ImageToBlend.weight_on_target, ImageToBlend.on_target, EPS],
        fun _ masked => Bool.noConfusion masked⟩
  have colors : ∀ level < 3, ∀ img ∈ levelImages fading (update_weight_map ⟨1, 1⟩ overlapping) level,
      img.color_on_target 0 0 = fun _ => if level = 0 then 1 / 2 else 1 / 5 := by decide +kernel
  have clamped : clamp (fun _ => 1 / 2 : Color ℚ) = fun _ => 1 / 2 := by decide +kernel
  exact ((blend_reconstructs fading ⟨1, 1⟩ 3 (by decide) overlapping weighted (by decide)
    (by decide)).2.2 (fun level _ => if level = 0 then 1 / 2 else 1 / 5)
    (fun _ _ level more img position => colors level more img (List.mem_of_getElem? position))
    (by decide +kernel)).trans clamped

end Pixel

end MultiBandBlender

end CodeCollect.OpenPano
