import CodeCollect.OpenPano.MultiBandBlender

namespace CodeCollect.OpenPano

open CodeCollect.Library

namespace MultiBandBlender

section Pixels

variable {K : Type} (self : ImageToBlend K) {i j row col : Nat}

namespace ImageToBlend

@[simp] theorem set_weight_info (x y : Nat) (w : K) : (self.set_weight x y w).info = self.info :=
  rfl

@[simp] theorem weight_set_weight (x y : Nat) (w : K) :
    (self.set_weight x y w).weight_on_target x y = w := by
  rw [weight_on_target, on_target, set_weight]
  exact congrArg WeightedPixel.w (if_pos ⟨rfl, rfl⟩)

/-- The last weight counts. -/
theorem set_weight_set_weight (x y : Nat) (w v : K) :
    (self.set_weight x y w).set_weight x y v = self.set_weight x y v := by
  simp only [set_weight]
  congr 1
  funext r c
  split <;> rfl

theorem color_set_weight (x y : Nat) (w : K) (r c : Nat) :
    ((self.set_weight x y w).img r c).c = (self.img r c).c := by
  rw [set_weight]
  dsimp only
  split <;> rfl

/-- Different pixels of the range are different pixels of the image. -/
theorem weight_set_weight_of_ne (here : self.contain i j) (there : self.contain row col)
    (differ : (row, col) ≠ (i, j)) (w : K) :
    (self.set_weight j i w).weight_on_target col row = self.weight_on_target col row := by
  obtain ⟨top, -, left, -⟩ := here
  obtain ⟨top', -, left', -⟩ := there
  rw [weight_on_target, on_target, set_weight]
  refine congrArg WeightedPixel.w (if_neg fun same => differ ?_)
  rw [Prod.mk.injEq]
  dsimp only at same
  omega

end ImageToBlend

namespace Mask2D

theorem get_set_self (mask : Mask2D) (i j : Nat) : (mask.set i j).get i j = true :=
  Function.update_self ..

/-- Different pixels have different bits. -/
theorem get_set_of_ne (mask : Mask2D) {i j : Nat} (inside : j < mask.w) (other : col < mask.w)
    (differ : (row, col) ≠ (i, j)) : (mask.set i j).get row col = mask.get row col := by
  refine Function.update_of_ne (fun same => differ ?_) _ _
  obtain ⟨rows, columns⟩ := Sweep.place_inj other inside same
  rw [rows, columns]

theorem le_empty_w (ww : Nat) : ww ≤ (empty ww).w := by
  rw [empty]
  dsimp only
  omega

end Mask2D

/-- The weight of an image at a pixel of its range. -/
def give (i j : Nat) (w : K) (img : ImageToBlend K) : ImageToBlend K :=
  if img.contain i j then img.set_weight j i w else img

/-- What an image has besides its weights. -/
def colors (img : ImageToBlend K) : MetaImage × (Nat → Nat → Color K) :=
  (img.info, fun r c => (img.img r c).c)

variable (i j) in
theorem give_info (w : K) (img : ImageToBlend K) : (give i j w img).info = img.info := by
  rw [give]
  split <;> rfl

variable (i j) in
theorem give_colors (w : K) (img : ImageToBlend K) :
    colors (give i j w img) = colors img := by
  refine Prod.ext (give_info i j w img) ?_
  funext r c
  dsimp only [colors]
  rw [give]
  split
  · exact img.color_set_weight j i w r c
  · rfl

theorem give_contain (w : K) (img : ImageToBlend K) (row col : Nat) :
    (give i j w img).contain row col ↔ img.contain row col := by
  rw [ImageToBlend.contain, give_info, ImageToBlend.contain]

theorem give_valid (w : K) (img : ImageToBlend K) (row col : Nat) :
    (give i j w img).valid_on_target col row = img.valid_on_target col row := by
  rw [ImageToBlend.valid_on_target, give_info, ImageToBlend.valid_on_target]

theorem give_covers (w : K) (img : ImageToBlend K) (row col : Nat) :
    (give i j w img).Covers row col ↔ img.Covers row col := by
  rw [ImageToBlend.Covers, give_contain, give_valid, ImageToBlend.Covers]

theorem weight_give (w : K) {img : ImageToBlend K} (inside : img.contain i j) :
    (give i j w img).weight_on_target j i = w := by
  rw [give, if_pos inside]
  exact img.weight_set_weight j i w

theorem weight_give_of_ne (w : K) {img : ImageToBlend K} {row col : Nat}
    (there : img.contain row col) (differ : (row, col) ≠ (i, j)) :
    (give i j w img).weight_on_target col row = img.weight_on_target col row := by
  rw [give]
  split
  next here => exact img.weight_set_weight_of_ne here there differ w
  · rfl

end Pixels

variable {K : Type} [Field K] [LinearOrder K]

section Weights

/-- A valid pixel has some weight, and another one has none. -/
structure WeightedAt (i j : Nat) (img : ImageToBlend K) : Prop where
  nonneg : img.contain i j → 0 ≤ img.weight_on_target j i
  valid : img.Covers i j → EPS ≤ img.weight_on_target j i
  masked : img.contain i j → img.valid_on_target j i = false → img.weight_on_target j i = 0

/-- One image with a valid pixel has the weight of the pixel, if there is such an image. -/
def OneWeight (i j : Nat) (images : List (ImageToBlend K)) : Prop :=
  (∃ img ∈ images, img.Covers i j) → ∃ k : Nat,
    (∃ img, images[k]? = some img ∧ img.Covers i j ∧ img.weight_on_target j i = 1) ∧
      ∀ other img, images[other]? = some img → img.contain i j → other ≠ k →
        img.weight_on_target j i = 0

/-- What the loop of a pixel has found out about the images so far. -/
structure Greatest (i j : Nat) (seen : List (ImageToBlend K)) (visited : Visited K) : Prop where
  images : visited.images = seen.map (give i j 0)
  nonneg : 0 ≤ visited.max
  above : ∀ img ∈ seen, img.contain i j → img.weight_on_target j i ≤ visited.max
  missing : visited.maxp = none → visited.max = 0
  found : ∀ k, visited.maxp = some k →
    ∃ img, seen[k]? = some img ∧ img.contain i j ∧ 0 < img.weight_on_target j i

variable {i j : Nat} {images : List (ImageToBlend K)}

theorem Greatest.visit {seen : List (ImageToBlend K)} {visited : Visited K}
    (greatest : Greatest i j seen visited) (img : ImageToBlend K) :
    Greatest i j (seen ++ [img]) (visit_weight i j visited img) := by
  obtain ⟨images, nonneg, above, missing, found⟩ := greatest
  have length : visited.images.length = seen.length := by rw [images, List.length_map]
  have earlier : ∀ k, visited.maxp = some k → ∃ other, (seen ++ [img])[k]? = some other ∧
      other.contain i j ∧ 0 < other.weight_on_target j i := by
    intro k chosen
    obtain ⟨other, position, facts⟩ := found k chosen
    exact ⟨other, List.getElem?_append_left (List.getElem?_eq_some_iff.mp position).1 ▸ position,
      facts⟩
  rw [visit_weight]
  by_cases inside : img.contain i j
  · rw [if_pos inside]
    have extended : visited.images ++ [img.set_weight j i 0] = (seen ++ [img]).map (give i j 0) := by
      rw [List.map_append, images, List.map_singleton, give, if_pos inside]
    dsimp only
    by_cases greater : img.weight_on_target j i > visited.max
    · rw [if_pos greater]
      refine ⟨extended, nonneg.trans greater.le, fun other member here => ?_, fun none => ?_,
        fun k chosen => ?_⟩
      · rcases List.mem_append.mp member with before | last
        · exact (above other before here).trans greater.le
        · rw [List.mem_singleton.mp last]
      · cases none
      · obtain rfl := Option.some.inj chosen
        exact ⟨img, by rw [length]; exact List.getElem?_concat_length .., inside,
          nonneg.trans_lt greater⟩
    · rw [if_neg greater]
      refine ⟨extended, nonneg, fun other member here => ?_, missing, earlier⟩
      rcases List.mem_append.mp member with before | last
      · exact above other before here
      · rw [List.mem_singleton.mp last]
        exact not_lt.mp greater
  · rw [if_neg inside]
    refine ⟨?_, nonneg, fun other member here => ?_, missing, earlier⟩
    · rw [List.map_append, images, List.map_singleton, give, if_neg inside]
    · rcases List.mem_append.mp member with before | last
      · exact above other before here
      · rw [List.mem_singleton.mp last] at here
        exact absurd here inside

/-- The pass of a pixel gives its weight to one image, which had some weight, or to none. -/
theorem update_pixel_spec (i j : Nat) (images : List (ImageToBlend K)) :
    ∃ chosen : Option Nat,
      (∀ k, (update_pixel images (i, j))[k]? =
        images[k]?.map (give i j (if chosen = some k then 1 else 0))) ∧
      (chosen = none → ∀ img ∈ images, img.contain i j → img.weight_on_target j i ≤ 0) ∧
      ∀ k, chosen = some k →
        ∃ img, images[k]? = some img ∧ img.contain i j ∧ 0 < img.weight_on_target j i := by
  have greatest : Greatest i j images (images.foldl (visit_weight i j) ⟨[], 0, none⟩) := by
    apply foldl_prefixes
    · exact ⟨rfl, le_rfl, fun _ member => absurd member List.not_mem_nil, fun _ => rfl,
        fun _ none => by cases none⟩
    · exact fun _ img _ _ greatest => greatest.visit img
  rw [update_pixel]
  generalize images.foldl (visit_weight i j) ⟨[], 0, none⟩ = visited at greatest ⊢
  obtain ⟨emptied, nonneg, above, missing, found⟩ := greatest
  refine ⟨visited.maxp, fun k => ?_, fun none img member here => ?_, found⟩
  · cases chosen : visited.maxp with
    | none =>
        dsimp only
        rw [emptied, List.getElem?_map, if_neg nofun]
    | some best =>
        dsimp only
        rw [List.getElem?_modify, emptied, List.getElem?_map]
        cases position : images[k]? with
        | none => rfl
        | some img =>
            by_cases same : best = k
            · obtain ⟨other, again, here, -⟩ := found best chosen
              rw [same, position] at again
              obtain rfl := Option.some.inj again
              simp only [same, if_true, Option.map_some, give, if_pos here]
              exact congrArg some (img.set_weight_set_weight j i 0 1)
            · simp [same, give]
  · rw [← missing none]
    exact above img member here

/-- The pass of a pixel changes nothing but weights. -/
theorem update_pixel_colors (images : List (ImageToBlend K)) (pixel : Nat × Nat) :
    (update_pixel images pixel).map colors = images.map colors := by
  obtain ⟨chosen, positions, -, -⟩ := update_pixel_spec pixel.1 pixel.2 images
  apply List.ext_getElem?
  intro k
  rw [List.getElem?_map, List.getElem?_map, positions k, Option.map_map]
  congr 1
  funext img
  exact give_colors ..

theorem update_weight_map_colors (target_size : Coor) (images : List (ImageToBlend K)) :
    (update_weight_map target_size images).map colors = images.map colors :=
  Sweep.invariant (fun current => current.map colors = images.map colors)
    (fun current same pixel _ => (update_pixel_colors current pixel).trans same) rfl

/-- The pass of a pixel keeps what is known about another pixel. -/
theorem weightedAt_update_pixel {row col : Nat} (differ : (row, col) ≠ (i, j))
    (weighted : ∀ img ∈ images, WeightedAt row col img) :
    ∀ img ∈ update_pixel images (i, j), WeightedAt row col img := by
  obtain ⟨chosen, positions, -, -⟩ := update_pixel_spec i j images
  intro img member
  obtain ⟨k, position⟩ := List.mem_iff_getElem?.mp member
  rw [positions k] at position
  obtain ⟨old, before, rfl⟩ := Option.map_eq_some_iff.mp position
  obtain ⟨nonneg, valid, masked⟩ := weighted old (List.mem_of_getElem? before)
  refine ⟨fun here => ?_, fun covers => ?_, fun here invalid => ?_⟩
  · rw [give_contain] at here
    rw [weight_give_of_ne _ here differ]
    exact nonneg here
  · rw [give_covers] at covers
    rw [weight_give_of_ne _ covers.1 differ]
    exact valid covers
  · rw [give_contain] at here
    rw [give_valid] at invalid
    rw [weight_give_of_ne _ here differ]
    exact masked here invalid

theorem oneWeight_update_pixel_of_ne {row col : Nat} (differ : (row, col) ≠ (i, j))
    (one : OneWeight row col images) : OneWeight row col (update_pixel images (i, j)) := by
  obtain ⟨chosen, positions, -, -⟩ := update_pixel_spec i j images
  rintro ⟨img, member, covers⟩
  obtain ⟨at_img, position⟩ := List.mem_iff_getElem?.mp member
  rw [positions at_img] at position
  obtain ⟨old, before, rfl⟩ := Option.map_eq_some_iff.mp position
  rw [give_covers] at covers
  obtain ⟨k, ⟨full, found, covered, whole⟩, others⟩ :=
    one ⟨old, List.mem_of_getElem? before, covers⟩
  refine ⟨k, ⟨give i j (if chosen = some k then 1 else 0) full, ?_, ?_, ?_⟩,
    fun other img position here apart => ?_⟩
  · rw [positions k, found, Option.map_some]
  · rw [give_covers]
    exact covered
  · rw [weight_give_of_ne _ covered.1 differ]
    exact whole
  · rw [positions other] at position
    obtain ⟨old, before, rfl⟩ := Option.map_eq_some_iff.mp position
    rw [give_contain] at here
    rw [weight_give_of_ne _ here differ]
    exact others other old before here apart

section Order

variable [IsStrictOrderedRing K]

theorem EPS_pos : (0 : K) < EPS := by
  rw [EPS]
  positivity

/-- The pass of a pixel gives its whole weight to one image with a valid pixel. -/
theorem oneWeight_update_pixel (weighted : ∀ img ∈ images, WeightedAt i j img) :
    OneWeight i j (update_pixel images (i, j)) := by
  obtain ⟨chosen, positions, none, some⟩ := update_pixel_spec i j images
  rintro ⟨img, member, covers⟩
  obtain ⟨at_img, position⟩ := List.mem_iff_getElem?.mp member
  rw [positions at_img] at position
  obtain ⟨old, before, rfl⟩ := Option.map_eq_some_iff.mp position
  rw [give_covers] at covers
  have listed := List.mem_of_getElem? before
  cases chosen with
  | none =>
      have nothing := none rfl old listed covers.1
      exact absurd ((weighted old listed).valid covers) (not_le.mpr (nothing.trans_lt EPS_pos))
  | some k =>
      obtain ⟨best, found, here, positive⟩ := some k rfl
      have valid : best.valid_on_target j i = true := by
        by_contra invalid
        have zero := (weighted best (List.mem_of_getElem? found)).masked here
          (Bool.eq_false_of_not_eq_true invalid)
        exact positive.ne' zero
      refine ⟨k, ⟨give i j 1 best, ?_, ?_, weight_give 1 here⟩, fun other img position there apart => ?_⟩
      · rw [positions k, found, Option.map_some, if_pos rfl]
      · rw [give_covers]
        exact ⟨here, valid⟩
      · rw [positions other] at position
        obtain ⟨old, -, rfl⟩ := Option.map_eq_some_iff.mp position
        rw [give_contain] at there
        rw [if_neg fun same => apart (Option.some.inj same).symm, weight_give 0 there]

/-- The weight map gives each pixel that some image covers to one of these images. -/
theorem oneWeight_update_weight_map {target_size : Coor}
    (weighted : ∀ i j, ∀ img ∈ images, WeightedAt i j img) (row : i < target_size.y)
    (column : j < target_size.x) : OneWeight i j (update_weight_map target_size images) := by
  have every : ∀ cell ∈ Sweep.grid target_size.y target_size.x,
      OneWeight cell.1 cell.2 (update_weight_map target_size images) := Sweep.each
    (fun cell images => ∀ img ∈ images, WeightedAt cell.1 cell.2 img)
    (fun cell images => OneWeight cell.1 cell.2 images)
    (fun images cell _ weighted => oneWeight_update_pixel weighted)
    (fun images cell _ other _ differ => ⟨weightedAt_update_pixel differ,
      oneWeight_update_pixel_of_ne differ⟩)
    (Sweep.nodup_grid ..) (fun cell _ => weighted cell.1 cell.2)
  exact every (i, j) (Sweep.mem_grid.mpr ⟨row, column⟩)

section Construction

variable [FloorRing K] (img : ImageToAdd K)

theorem weight_of_first_pixel {row col : Nat} {p : WeightedPixel K}
    (found : first_pixel img row col = some p) : EPS ≤ p.w := by
  rw [first_pixel] at found
  obtain ⟨orig_coor, -, found⟩ := Option.bind_eq_some_iff.mp found
  dsimp only at found
  split at found
  · cases found
  · obtain rfl := Option.some.inj found
    exact le_add_of_nonneg_left (le_max_left ..)

omit [IsStrictOrderedRing K] in
/-- The mask of a new image holds the pixels without a colour. -/
theorem mask_create_first_image {row col : Nat} (inside : (row, col) ∈ first_cells img.range) :
    (create_first_image img).info.mask.get row col = (first_pixel img row col).isNone := by
  have width : ∀ cell ∈ first_cells img.range, cell.2 < img.range.max.x + 1 - img.range.min.x :=
    fun cell member => (Sweep.mem_grid.mp member).2
  have every : ∀ cell ∈ first_cells img.range,
      img.range.max.x + 1 - img.range.min.x ≤ (create_first_image img).info.mask.w ∧
        (create_first_image img).info.mask.get cell.1 cell.2 =
          (first_pixel img cell.1 cell.2).isNone :=
    Sweep.each
      (fun (cell : Nat × Nat) (mask : Mask2D) =>
        img.range.max.x + 1 - img.range.min.x ≤ mask.w ∧ mask.get cell.1 cell.2 = false)
      (fun (cell : Nat × Nat) (mask : Mask2D) => img.range.max.x + 1 - img.range.min.x ≤ mask.w ∧
        mask.get cell.1 cell.2 = (first_pixel img cell.1 cell.2).isNone)
      (fun mask cell _ before => by
        cases found : (first_pixel img cell.1 cell.2).isNone with
        | true => exact ⟨before.1, mask.get_set_self ..⟩
        | false => exact before)
      (fun mask cell here other there differ => by
        split
        · constructor <;> rintro ⟨wide, bit⟩ <;>
            exact ⟨wide, (mask.get_set_of_ne ((width cell here).trans_le wide)
              ((width other there).trans_le wide) differ).trans bit⟩
        · exact ⟨id, id⟩)
      (Sweep.nodup_grid ..) fun cell _ => ⟨Mask2D.le_empty_w _, rfl⟩
  exact (every (row, col) inside).2

/-- The first level has a weight at each pixel that is not masked. -/
theorem weightedAt_create_first_level (images_to_add : List (ImageToAdd K)) (i j : Nat) :
    ∀ img ∈ create_first_level images_to_add, WeightedAt i j img := by
  intro first member
  obtain ⟨img, -, rfl⟩ := List.mem_map.mp member
  have bit : (create_first_image img).contain i j →
      (create_first_image img).valid_on_target j i =
        (first_pixel img (i - img.range.min.y) (j - img.range.min.x)).isSome := by
    rintro ⟨top, bottom, left, right⟩
    have inside : (i - img.range.min.y, j - img.range.min.x) ∈ first_cells img.range :=
      Sweep.mem_grid.mpr ⟨Nat.sub_lt_sub_right top (Nat.lt_succ_of_le bottom),
        Nat.sub_lt_sub_right left (Nat.lt_succ_of_le right)⟩
    have masked := mask_create_first_image img inside
    exact (congrArg Bool.not masked).trans (Option.not_isNone _)
  have weight : (create_first_image img).weight_on_target j i =
      ((first_pixel img (i - img.range.min.y) (j - img.range.min.x)).getD ⟨0, 0⟩).w := rfl
  refine ⟨fun _ => ?_, fun covers => ?_, fun inside invalid => ?_⟩
  · rw [weight]
    cases found : first_pixel img (i - img.range.min.y) (j - img.range.min.x) with
    | none => exact le_rfl
    | some p => exact EPS_pos.le.trans (weight_of_first_pixel img found)
  · have valid := covers.2
    rw [bit covers.1] at valid
    obtain ⟨p, found⟩ := Option.isSome_iff_exists.mp valid
    rw [weight, found]
    exact weight_of_first_pixel img found
  · rw [bit inside] at invalid
    rw [weight, Option.not_isSome_iff_eq_none.mp (ne_true_of_eq_false invalid)]
    rfl

end Construction

end Order

end Weights

end MultiBandBlender

end CodeCollect.OpenPano
