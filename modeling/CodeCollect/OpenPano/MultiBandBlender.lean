import Mathlib
import CodeCollect.Library.Sweep
import CodeCollect.OpenPano.LinearBlender

namespace CodeCollect.OpenPano

open CodeCollect.Library

namespace MultiBandBlender

/-- A sum of weights below this bound is taken for nothing. -/
def EPS {K : Type} [Field K] : K := 1 / 1000000

structure WeightedPixel (K : Type) where
  c : Color K
  w : K

abbrev Plane (K : Type) := Nat → Nat → WeightedPixel K

/-- The bits are kept row by row, and the width is a multiple of eight. -/
structure Mask2D where
  w : Nat
  mask : Nat → Bool

namespace Mask2D

def empty (ww : Nat) : Mask2D := ⟨(ww + 7) / 8 * 8, fun _ => false⟩

def get (self : Mask2D) (i j : Nat) : Bool := self.mask (i * self.w + j)

def set (self : Mask2D) (i j : Nat) : Mask2D :=
  { self with mask := Function.update self.mask (i * self.w + j) true }

end Mask2D

/-- The mask holds the pixels that are not valid. -/
structure MetaImage where
  range : Range
  mask : Mask2D

structure ImageToBlend (K : Type) where
  img : Plane K
  info : MetaImage

namespace ImageToBlend

variable {K : Type} (self : ImageToBlend K)

def contain (i j : Nat) : Prop := self.info.range.contain i j

instance (i j : Nat) : Decidable (self.contain i j) := inferInstanceAs (Decidable (_ ∧ _))

def on_target (x y : Nat) : WeightedPixel K :=
  self.img (y - self.info.range.min.y) (x - self.info.range.min.x)

def weight_on_target (x y : Nat) : K := (self.on_target x y).w

def color_on_target (x y : Nat) : Color K := (self.on_target x y).c

def valid_on_target (x y : Nat) : Bool :=
  !self.info.mask.get (y - self.info.range.min.y) (x - self.info.range.min.x)

def set_weight (x y : Nat) (w : K) : ImageToBlend K :=
  { self with img := fun r c =>
      if r = y - self.info.range.min.y ∧ c = x - self.info.range.min.x then
        { self.img r c with w := w }
      else self.img r c }

/-- The image has a valid pixel there. -/
def Covers (i j : Nat) : Prop := self.contain i j ∧ self.valid_on_target j i = true

instance (i j : Nat) : Decidable (self.Covers i j) := inferInstanceAs (Decidable (_ ∧ _))

end ImageToBlend

variable {K : Type} [Field K] [LinearOrder K]

section Construction

variable [IsStrictOrderedRing K] [FloorRing K]

/-- The colour of a pixel and its weight, which falls from the middle of the image to its sides. A
pixel without a colour is black and has no weight. -/
def first_pixel (img : ImageToAdd K) (i j : Nat) : Option (WeightedPixel K) :=
  (img.coor_func ⟨j + img.range.min.x, i + img.range.min.y⟩).bind fun orig_coor =>
    let c : Color K := interpolate img.img orig_coor.2 orig_coor.1
    if c.get_min < 0 then none
    else
      let x := orig_coor.1 / img.img.cols - 0.5
      let y := orig_coor.2 / img.img.rows - 0.5
      some ⟨c, max 0 ((0.5 - |x|) * (0.5 - |y|)) + EPS⟩

/-- The rows and columns of the range, both of whose ends are inclusive. -/
def first_cells (range : Range) : List (Nat × Nat) :=
  Sweep.grid (range.max.y + 1 - range.min.y) (range.max.x + 1 - range.min.x)

def create_first_image (img : ImageToAdd K) : ImageToBlend K where
  img i j := (first_pixel img i j).getD ⟨0, 0⟩
  info :=
    ⟨img.range, (first_cells img.range).foldl (fun mask cell =>
      if (first_pixel img cell.1 cell.2).isNone then mask.set cell.1 cell.2 else mask)
      (Mask2D.empty (img.range.max.x + 1 - img.range.min.x))⟩

def create_first_level (images_to_add : List (ImageToAdd K)) : List (ImageToBlend K) :=
  images_to_add.map create_first_image

end Construction

/-- The images that were visited have lost their weight at the pixel, and the greatest weight so far
is kept with the index of its image. -/
structure Visited (K : Type) where
  images : List (ImageToBlend K)
  max : K
  maxp : Option Nat

def visit_weight (i j : Nat) (visited : Visited K) (img : ImageToBlend K) : Visited K :=
  if img.contain i j then
    let w := img.weight_on_target j i
    let images := visited.images ++ [img.set_weight j i 0]
    if w > visited.max then ⟨images, w, some visited.images.length⟩ else { visited with images }
  else { visited with images := visited.images ++ [img] }

/-- The image of greatest weight gets the whole weight of the pixel. -/
def update_pixel (images : List (ImageToBlend K)) (pixel : Nat × Nat) : List (ImageToBlend K) :=
  let visited := images.foldl (visit_weight pixel.1 pixel.2) ⟨[], 0, none⟩
  match visited.maxp with
  | some maxp => visited.images.modify maxp fun img => img.set_weight pixel.2 pixel.1 1
  | none => visited.images

def update_weight_map (target_size : Coor) (images : List (ImageToBlend K)) :
    List (ImageToBlend K) :=
  (Sweep.grid target_size.y target_size.x).foldl update_pixel images

/-- How a level blurs an image is a parameter, which also has the index of the image. -/
abbrev Blur (K : Type) := Nat → Nat → Plane K → Plane K

def create_next_level (blur : Blur K) (level : Nat) (images next : List (ImageToBlend K)) :
    List (ImageToBlend K) :=
  (images.zip next).mapIdx fun imgid pair => { pair.2 with img := blur level imgid pair.1.img }

/-- These are the variables of `run`. -/
structure Blending (K : Type) where
  images : List (ImageToBlend K)
  next_lvl_images : List (ImageToBlend K)
  target : Nat × Nat → Color K
  target_mask : Mask2D

/-- The sums of the colours and of the weights of one pixel. At the last level the colours
themselves are summed up, and before it their differences to the next level. -/
def sum_pixel (is_last : Bool) (i j : Nat) (sums : Color K × K)
    (pair : ImageToBlend K × ImageToBlend K) : Color K × K :=
  let img_cur := pair.1
  if ¬ img_cur.contain i j then sums
  else if ¬ img_cur.valid_on_target j i then sums
  else
    let w := img_cur.weight_on_target j i
    if w ≤ 0 then sums
    else
      let ccur := img_cur.color_on_target j i
      let term := if is_last then ccur else ccur - pair.2.color_on_target j i
      (sums.1 + w • term, sums.2 + w)

/-- The first mean of a pixel is written to it, and later ones are added. -/
def blend_pixel (is_last : Bool) (pairs : List (ImageToBlend K × ImageToBlend K))
    (written : (Nat × Nat → Color K) × Mask2D) (pixel : Nat × Nat) :
    (Nat × Nat → Color K) × Mask2D :=
  let sums := pairs.foldl (sum_pixel is_last pixel.1 pixel.2) (0, 0)
  if sums.2 < EPS then written
  else
    let isum := sums.2⁻¹ • sums.1
    if ¬ written.2.get pixel.1 pixel.2 then
      (Function.update written.1 pixel isum, written.2.set pixel.1 pixel.2)
    else (Function.update written.1 pixel (written.1 pixel + isum), written.2)

def blend_level (blur : Blur K) (target_size : Coor) (band_level : Nat) (state : Blending K)
    (level : Nat) : Blending K :=
  let is_last := level + 1 = band_level
  let next :=
    if is_last then state.next_lvl_images
    else create_next_level blur level state.images state.next_lvl_images
  let written := (Sweep.grid target_size.y target_size.x).foldl
    (blend_pixel is_last (state.images.zip next)) (state.target, state.target_mask)
  ⟨next, state.images, written.1, written.2⟩

/-- The levels are blended from the first to the last one. -/
def blend_levels (blur : Blur K) (target_size : Coor) (band_level : Nat)
    (images : List (ImageToBlend K)) (levels : Nat) : Blending K :=
  (List.range levels).foldl (blend_level blur target_size band_level)
    ⟨images, images, fun _ => Color.NO, Mask2D.empty target_size.x⟩

def clamp (p : Color K) : Color K := fun channel => max (min (p channel) 1) 0

/-- What `run` does after the first level was created. -/
def blend (blur : Blur K) (target_size : Coor) (band_level : Nat)
    (images : List (ImageToBlend K)) : Mat32f K :=
  let last := blend_levels blur target_size band_level (update_weight_map target_size images)
    band_level
  { rows := target_size.y
    cols := target_size.x
    pixel := fun i j =>
      if last.target_mask.get i j then clamp (last.target (i, j)) else last.target (i, j) }

/-- The target is as large as the largest ends of the ranges. -/
def run [IsStrictOrderedRing K] [FloorRing K] (blur : Blur K) (band_level : Nat)
    (images_to_add : List (ImageToAdd K)) : Mat32f K :=
  blend blur (LinearBlender.targetSize images_to_add) band_level (create_first_level images_to_add)

end MultiBandBlender

end CodeCollect.OpenPano
