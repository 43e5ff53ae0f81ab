import Mathlib
import CodeCollect.Library.Painting

namespace CodeCollect.AffineTransform

open Library

/-- These are the parameters of the script: an image that is not empty, the size of the window, a
scaling, the cosine and the sine of the angle, and a translation. -/
structure WarpImg (K P : Type) [Field K] where
  height : Nat
  width : Nat
  img : Int → Int → P
  ActualH : Nat
  ActualW : Nat
  scale : K
  cos : K
  sin : K
  transh : K
  transw : K
  height_pos : 0 < height
  width_pos : 0 < width
  scale_ne_zero : scale ≠ 0
  rotation : cos ^ 2 + sin ^ 2 = 1

namespace WarpImg

section Transform

variable {K P : Type} [Field K] (self : WarpImg K P)

/-- The first and the second coordinate of a point. -/
def rowOf (point : Fin 3 → K) : K := Matrix.vecHead point

def colOf (point : Fin 3 → K) : K := Matrix.vecHead (Matrix.vecTail point)

omit [Field K] in
@[simp] theorem rowOf_cons (h w one : K) : rowOf ![h, w, one] = h := rfl

omit [Field K] in
@[simp] theorem colOf_cons (h w one : K) : colOf ![h, w, one] = w := rfl

def Tscale : Matrix (Fin 3) (Fin 3) K := !![self.scale, 0, 0; 0, self.scale, 0; 0, 0, 1]

def Trotate : Matrix (Fin 3) (Fin 3) K := !![self.cos, -self.sin, 0; self.sin, self.cos, 0; 0, 0, 1]

def T : Matrix (Fin 3) (Fin 3) K := self.Trotate * self.Tscale

/-- The inverse of a matrix is its adjugate divided by its determinant. -/
def InvT : Matrix (Fin 3) (Fin 3) K := self.T.det⁻¹ • self.T.adjugate

/-- This is the image of a point. -/
def pointT (h w : K) : Fin 3 → K := self.T.mulVec ![h, w, 1]

/-- These are the images of the corners, in one coordinate. -/
def corners (coordinate : (Fin 3 → K) → K) : List K :=
  [coordinate (self.pointT 0 0), coordinate (self.pointT 0 self.width),
    coordinate (self.pointT self.height 0), coordinate (self.pointT self.height self.width)]

end Transform

section Script

variable {K P : Type} [Field K] [LinearOrder K] [FloorRing K] (self : WarpImg K P)

def least (values : List K) : K := values.tail.foldl min (values.headD 0)

def greatest (values : List K) : K := values.tail.foldl max (values.headD 0)

def offsetH : K := least (self.corners rowOf)

def offsetW : K := least (self.corners colOf)

def maxH : K := greatest (self.corners rowOf)

def maxW : K := greatest (self.corners colOf)

def NewH : Int := ⌊self.maxH - self.offsetH⌋

def NewW : Int := ⌊self.maxW - self.offsetW⌋

def centerpoint : Fin 3 → K :=
  self.pointT (self.height / 2 + self.transh) (self.width / 2 + self.transw)

def anchorH : Int := ⌊rowOf self.centerpoint - self.offsetH⌋

def anchorW : Int := ⌊colOf self.centerpoint - self.offsetW⌋

/-- The first and the last place of a window of this size around the anchor. -/
def firstPlace (anchor : Int) (size : Nat) : Int := ⌊(anchor - size / 2 + 1 : K)⌋

def lastPlace (anchor : Int) (size : Nat) : Int := ⌊(anchor + size / 2 : K)⌋

def ImgTh : Int :=
  lastPlace (K := K) self.anchorH self.ActualH - firstPlace (K := K) self.anchorH self.ActualH + 1

def ImgTw : Int :=
  lastPlace (K := K) self.anchorW self.ActualW - firstPlace (K := K) self.anchorW self.ActualW + 1

/-- The middle of a place of the whole image, as a transformed point. -/
def middle (place : Int × Int) : Fin 3 → K :=
  ![place.1 + self.offsetH + 1 / 2, place.2 + self.offsetW + 1 / 2, 1]

/-- The source pixel that a place of the whole image is taken from, which may lie outside the
source. -/
def newpoint (i j : Int) : Int × Int :=
  let point := self.InvT.mulVec (self.middle (i, j))
  (⌊rowOf point⌋, ⌊colOf point⌋)

/-- The source has this pixel. -/
def InSource (point : Int × Int) : Prop :=
  point.1 ≥ 1 ∧ point.1 ≤ self.height ∧ point.2 ≥ 1 ∧ point.2 ≤ self.width

instance (point : Int × Int) : Decidable (self.InSource point) :=
  inferInstanceAs (Decidable (_ ∧ _ ∧ _ ∧ _))

/-- These are the pixels that a loop over some rows and columns of the whole image writes. -/
def writes (rows cols : List Int) (shift : Int × Int) : List ((Int × Int) × P) :=
  (rows.product cols).filterMap fun place =>
    let newpoint := self.newpoint place.1 place.2
    if self.InSource newpoint then
      some ((place.1 - shift.1, place.2 - shift.2), self.img newpoint.1 newpoint.2)
    else none

/-- This is the range of a `for` loop. -/
def upTo (first last : Int) : List Int :=
  (List.range (last - first + 1).toNat).map fun (step : Nat) => first + step

/-- These are the rows and the columns of the window. -/
def windowRows : List Int :=
  upTo (firstPlace (K := K) self.anchorH self.ActualH) (lastPlace (K := K) self.anchorH self.ActualH)

def windowCols : List Int :=
  upTo (firstPlace (K := K) self.anchorW self.ActualW) (lastPlace (K := K) self.anchorW self.ActualW)

/-- The window starts with the pixel 1. -/
def windowShift : Int × Int :=
  (firstPlace (K := K) self.anchorH self.ActualH - 1, firstPlace (K := K) self.anchorW self.ActualW - 1)

def windowWrites : List ((Int × Int) × P) :=
  self.writes self.windowRows self.windowCols self.windowShift

variable [Zero P]

def ActualImg : Int × Int → P := Painting.paint (fun _ => 0) self.windowWrites

def ImgOut : Int × Int → P :=
  Painting.paint (fun _ => 0) (self.writes (upTo 1 self.NewH) (upTo 1 self.NewW) (0, 0))

/-- The script stops before it renders when the check of the size fails. -/
def run : Option ((Int × Int → P) × (Int × Int → P)) :=
  if self.ImgTh ≠ self.ActualH ∨ self.ImgTw ≠ self.ActualW then none
  else some (self.ActualImg, self.ImgOut)

end Script

end WarpImg

end CodeCollect.AffineTransform
