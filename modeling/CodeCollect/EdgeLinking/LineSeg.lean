import Mathlib
import CodeCollect.Library.SegmentDistance

namespace CodeCollect.EdgeLinking.LineSeg

/-- A pixel has a row and a column. -/
abbrev Pixel := Int × Int

section Script

variable {K : Type} [Field K] [LinearOrder K]

/-- The rounding unit of the numbers of the script. -/
def eps : K := 1 / (2 ^ 52 : Nat)

/-- The square of the deviation of a point from the line through the ends of a contour, or from its
first point where the ends coincide. -/
def deviation (first last p : Pixel) : K :=
  let x1 : K := first.2
  let y1 : K := first.1
  let xN : K := last.2
  let yN : K := last.1
  let D2 := (x1 - xN) ^ 2 + (y1 - yN) ^ 2
  if D2 > eps ^ 2 then
    let y1my2 := y1 - yN
    let x2mx1 := xN - x1
    let C := yN * x1 - y1 * xN
    (p.2 * y1my2 + p.1 * x2mx1 + C) ^ 2 / D2
  else (p.2 - x1) ^ 2 + (p.1 - y1) ^ 2

/-- The greatest entry, and the first place where it stands. -/
def max (d : List K) : K × Nat :=
  let greatest := d.tail.foldl Max.max (d.headD 0)
  (greatest, d.idxOf greatest + 1)

/-- The contour is a list of pixels. There is no result for an empty one. -/
def maxlinedev (contour : List Pixel) : Option (K × Nat) :=
  match contour with
  | [] => none
  | [_] => some (0, 1)
  | first :: rest =>
      some (max ((first :: rest).map (deviation first ((first :: rest).getLastD first))))

/-- The pixels from one index to another. -/
def window (edge : List Pixel) (fst lst : Nat) : List Pixel := (edge.take lst).drop (fst - 1)

/-- The inner loop shortens a window until it deviates no more than allowed. There is no result when
the fuel runs out or a contour is empty. -/
def shorten (edge : List Pixel) (tol : K) (fst : Nat) : Nat → Nat → K × Nat → Option Nat
  | 0, _, _ => none
  | fuel + 1, lst, dev =>
      -- the script compares distances, and `tol` is not negative
      if dev.1 > tol ^ 2 then
        (maxlinedev (window edge fst (dev.2 + fst - 1))).bind
          (shorten edge tol fst fuel (dev.2 + fst - 1))
      else some lst

/-- The outer loop goes on from the end of each window. The result are the indices of the pixels that
it keeps. -/
def breaks (edge : List Pixel) (tol : K) : Nat → Nat → List Nat → Option (List Nat)
  | 0, _, _ => none
  | fuel + 1, fst, kept =>
      if fst < edge.length then
        (maxlinedev (window edge fst edge.length)).bind fun dev =>
          (shorten edge tol fst fuel edge.length dev).bind fun lst =>
            breaks edge tol fuel lst (kept ++ [lst])
      else some kept

/-- The indices that are kept of one edge, which has a first point. -/
def indices (fuel : Nat) (tol : K) (edge : List Pixel) : Option (List Nat) :=
  if edge = [] then none else breaks edge tol fuel 1 [1]

/-- The pixel at an index. -/
def pixel (edge : List Pixel) (i : Nat) : Pixel := edge.getD (i - 1) (0, 0)

def lineseg (fuel : Nat) (tol : K) (edgelist : List (List Pixel)) : Option (List (List Pixel)) :=
  edgelist.mapM fun edge => (indices fuel tol edge).map (·.map (pixel edge))

end Script

end CodeCollect.EdgeLinking.LineSeg
