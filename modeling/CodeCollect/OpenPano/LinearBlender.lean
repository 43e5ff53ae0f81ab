import Mathlib
import CodeCollect.Library.Accumulation

namespace CodeCollect.OpenPano

/-- The numbers are exact, and a colour has three of them. -/
abbrev Color (K : Type) := Fin 3 → K

/-- This is the largest channel. -/
def Color.largest {K : Type} [LinearOrder K] (p : Color K) : K := max (max (p 0) (p 1)) (p 2)

def Color.get_min {K : Type} [LinearOrder K] (p : Color K) : K := min (min (p 0) (p 1)) (p 2)

/-- This marks a pixel without colour. -/
def Color.NO {K : Type} [Ring K] : Color K := fun _ => -1

/-- Target coordinates are not negative. -/
structure Coor where
  x : Nat
  y : Nat
deriving DecidableEq

/-- An image has a colour at each row and column. -/
structure Mat32f (K : Type) where
  rows : Nat
  cols : Nat
  pixel : Nat → Nat → Color K

/-- Both ends are inclusive. -/
structure Range where
  min : Coor
  max : Coor

def Range.contain (range : Range) (r c : Nat) : Prop :=
  range.min.y ≤ r ∧ r ≤ range.max.y ∧ range.min.x ≤ c ∧ c ≤ range.max.x

instance (range : Range) (r c : Nat) : Decidable (range.contain r c) :=
  inferInstanceAs (Decidable (_ ∧ _))

/-- The function of the coordinates has no value where it is not a number. -/
structure ImageToAdd (K : Type) where
  range : Range
  img : Mat32f K
  coor_func : Coor → Option (K × K)

variable {K : Type} [Field K] [LinearOrder K]

section Interpolation

variable [IsStrictOrderedRing K] [FloorRing K]

/-- The colour at a place is mixed from the four pixels around it. -/
def interpolate (mat : Mat32f K) (r c : K) : Color K :=
  let fr := ⌊r⌋
  let fc := ⌊c⌋
  if fr < 0 ∨ fc < 0 ∨ mat.cols ≤ fc + 1 ∨ mat.rows ≤ fr + 1 then Color.NO
  else
    let r := r - fr
    let c := c - fc
    let p₀₀ := mat.pixel fr.toNat fc.toNat
    let p₁₀ := mat.pixel (fr.toNat + 1) fc.toNat
    let p₁₁ := mat.pixel (fr.toNat + 1) (fc.toNat + 1)
    let p₀₁ := mat.pixel fr.toNat (fc.toNat + 1)
    if p₀₀ 0 < 0 ∨ p₁₀ 0 < 0 ∨ p₁₁ 0 < 0 ∨ p₀₁ 0 < 0 then Color.NO
    else fun channel => p₀₀ channel * ((1 - r) * (1 - c)) + p₁₀ channel * (r * (1 - c)) +
      p₁₁ channel * (r * c) + p₀₁ channel * ((1 - r) * c)

/-- The place in the image has no value outside the image. -/
def ImageToAdd.map_coor (img : ImageToAdd K) (r c : Nat) : Option (K × K) :=
  (img.coor_func ⟨c, r⟩).filter fun ret =>
    ¬ (ret.1 < 0 ∨ img.img.cols ≤ ret.1 ∨ ret.2 < 0 ∨ img.img.rows ≤ ret.2)

namespace LinearBlender

/-- The weight falls from the middle of the image to its sides. -/
def weight (orderedInput : Bool) (img : Mat32f K) (r c : K) : K :=
  let w := 0.5 - |c / img.cols - 0.5|
  if orderedInput then w else w * (0.5 - |r / img.rows - 0.5|)

/-- This is the macro `GET_COLOR_AND_W`, whose colour is multiplied by the weight. -/
def getColorAndW (orderedInput : Bool) (img : ImageToAdd K) (i j : Nat) : Option (Color K × K) :=
  (img.map_coor i j).bind fun coor =>
    let color := interpolate img.img coor.2 coor.1
    let w := weight orderedInput img.img coor.2 coor.1
    if color 0 < 0 then none else some (fun channel => color channel * w, w)

/-- The target is as large as the largest ends of the ranges. -/
def targetSize (images : List (ImageToAdd K)) : Coor :=
  images.foldl (fun size img => ⟨max size.x img.range.max.x, max size.y img.range.max.y⟩) ⟨0, 0⟩

/-- The target has a colour at each row and column of its size. -/
def target (images : List (ImageToAdd K)) (color : Nat → Nat → Color K) : List (List (Color K)) :=
  (List.range (targetSize images).y).map fun i =>
    (List.range (targetSize images).x).map fun j => color i j

/-- The planes hold the sums of the colours and of the weights of each pixel. -/
abbrev Planes (K : Type) := Nat × Nat → Color K × K

/-- One image adds its pixels to the planes. -/
def addImage (orderedInput : Bool) (planes : Planes K) (img : ImageToAdd K) : Planes K :=
  (List.range' img.range.min.y (img.range.max.y - img.range.min.y)).foldl (fun planes i =>
    (List.range' img.range.min.x (img.range.max.x - img.range.min.x)).foldl (fun planes j =>
      match getColorAndW orderedInput img i j with
      | none => planes
      | some (color, w) => Function.update planes (i, j) (planes (i, j) + (color, w))) planes) planes

/-- With `LAZY_READ` the images are added one after the other and the sums are divided later. -/
def runLazy (orderedInput : Bool) (images : List (ImageToAdd K)) : List (List (Color K)) :=
  let planes := images.foldl (addImage orderedInput) 0
  target images fun i j =>
    if (planes (i, j)).2 ≠ 0 then fun channel => (planes (i, j)).1 channel / (planes (i, j)).2
    else fun _ => -1

/-- The sums of one pixel over the images whose range contains it. -/
def sums (orderedInput : Bool) (images : List (ImageToAdd K)) (i j : Nat) : Color K × K :=
  images.foldl (fun sums img =>
    if img.range.contain i j then
      match getColorAndW orderedInput img i j with
      | none => sums
      | some (color, w) => (sums.1 + color, sums.2 + w)
    else sums) (0, 0)

/-- Without `LAZY_READ` each pixel of the target is computed on its own. -/
def runDirect (orderedInput : Bool) (images : List (ImageToAdd K)) : List (List (Color K)) :=
  target images fun i j =>
    let sums := sums orderedInput images i j
    if 0 < sums.2 then fun channel => sums.1 channel / sums.2 else Color.NO

def run (lazyRead orderedInput : Bool) (images : List (ImageToAdd K)) : List (List (Color K)) :=
  if lazyRead then runLazy orderedInput images else runDirect orderedInput images

end LinearBlender

end Interpolation

end CodeCollect.OpenPano
