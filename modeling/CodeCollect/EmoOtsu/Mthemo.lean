import Mathlib

namespace CodeCollect.EmoOtsu

/-- The random numbers lie between 0 and 1. -/
def Draw (K : Type) [Field K] [LinearOrder K] : Type := {lambda : K // 0 < lambda ∧ lambda < 1}

/-- The number of pixels of each level, which are counted from 1. -/
abbrev Histogram := Nat → Nat

/-- A number, or `⊥` for the result of a computation that is not a number. -/
abbrev Fitness (K : Type) := WithBot K

/-- A point of the population has its thresholds and the fitness that is stored for them. -/
structure Point (K : Type) where
  x : List Int
  fit : Fitness K

/-- The number of grey levels. -/
def Lmax : Nat := 256

/-- The limits of the thresholds. -/
def l : Int := 1

def u : Int := Lmax

/-- The number of points. -/
def m : Nat := 50

def LSITER : Nat := 4

def MAXITER : Nat := 200

/-- The limits of a step. -/
def vmin : Int := -5

def vmax : Int := 5

/-- A value below or above the limits is replaced by the limit. -/
def clip (low high v : Int) : Int :=
  let v := if v ≤ low then low else v
  if v ≥ high then high else v

section Criterion

variable {K : Type} [Field K] [LinearOrder K]

/-- The share of a level in the pixels of the image. -/
def probR (n_countR : Histogram) (i : Nat) : K :=
  n_countR i / (((List.range' 1 Lmax).map n_countR).sum : Nat)

/-- The divisor is zero only where the dividend is zero as well. -/
def quotient (p w : K) : Option K := if w = 0 then none else some (p / w)

/-- The share of a class, times the square of the distance of its mean to the mean of all levels. The
class has the levels behind one threshold up to the next one. It is not a number when none of its levels
has a pixel, but 0 when it has no levels. -/
def classFitness (n_countR : Histogram) (first last : Int) : Option K :=
  let levels := List.range' (first.toNat + 1) (last - first).toNat
  let w : K := (levels.map (probR n_countR)).sum
  let mean := ((List.range' 1 Lmax).map fun (i : Nat) => (i : K) * probR n_countR i).sum
  (levels.mapM fun (i : Nat) => quotient ((i : K) * probR n_countR i) w).map fun terms =>
    w * (terms.sum - mean) ^ 2

/-- The criterion of one point: the sum over its classes. -/
def fitnessIMG (n_countR : Histogram) (x : List Int) : Fitness K :=
  (((0 :: x).zip (x ++ [u])).mapM fun ends => classFitness n_countR ends.1 ends.2).map List.sum

end Criterion

section LocalSearch

variable {K : Type} [Field K] [LinearOrder K] [FloorRing K]

/-- This rounds towards zero. -/
def fix (x : K) : Int := if 0 ≤ x then ⌊x⌋ else ⌈x⌉

/-- This is 0.025. -/
def delta : K := 1 / (40 : Nat)

/-- The longest step before it is cut off. -/
def longitud : K := delta * (u - l : Int)

/-- The point with its component `k` moved up or down, and cut off at the limits. -/
def moved (x : List Int) (k : Nat) (lambda1 lambda2 : Draw K) : List Int :=
  let v1 := clip vmin vmax (fix (lambda2.1 * longitud))
  (x.modify k fun p => if lambda1.1 > 1 / (2 : Nat) then p + v1 else p - v1).map (clip l u)

/-- The vector that is scored is sorted first. -/
def candidate (x : List Int) (k : Nat) (lambda1 lambda2 : Draw K) : List Int :=
  (moved x k lambda1 lambda2).insertionSort (· ≤ ·)

/-- A comparison with what is not a number is false. -/
def Exceeds (one other : Fitness K) : Prop := other ≠ ⊥ ∧ one > other

instance (one other : Fitness K) : Decidable (Exceeds one other) :=
  inferInstanceAs (Decidable (_ ∧ _))

/-- The tries that are left for the component `k`. One that is better ends the loop, and then the
component and the fitness are stored. -/
def tries (n_countR : Histogram) (k : Nat) (lambda1 : Draw K) (lambda2 : Nat → Draw K) :
    Nat → Point K → Point K
  | 0, point => point
  | left + 1, point =>
      let y := candidate point.x k lambda1 (lambda2 left)
      let fity := fitnessIMG n_countR y
      if Exceeds fity point.fit then ⟨point.x.set k (y.getD k 0), fity⟩
      else tries n_countR k lambda1 lambda2 left point

/-- The random numbers of one point in one call, by component and try. -/
structure SearchDraws (K : Type) [Field K] [LinearOrder K] where
  lambda1 : Nat → Draw K
  lambda2 : Nat → Nat → Draw K

/-- The first components of one point, in order. -/
def components (n_countR : Histogram) (draws : SearchDraws K) : Nat → Point K → Point K
  | 0, point => point
  | k + 1, point => tries n_countR k (draws.lambda1 k) (draws.lambda2 k) (LSITER - 1)
      (components n_countR draws k point)

/-- What a call leaves: the points, and the best of them. -/
structure Found (K : Type) where
  points : List (Point K)
  bR : Nat
  xBestR : List Int
  fxBestR : Fitness K

/-- The first point with the greatest fitness. What is not a number is passed over, and the first point
is taken when there is no number. -/
def best (points : List (Point K)) : Nat :=
  let fitR i := (points.map Point.fit).getD i ⊥
  ((List.range m).argmax fitR).getD 0

/-- This is `local`. -/
def localSearch (n_countR : Histogram) (n : Nat) (draws : Nat → SearchDraws K)
    (points : List (Point K)) : Found K :=
  let points := points.mapIdx fun i point => components n_countR (draws i) n point
  let bR := best points
  let found := points.getD bR ⟨[], ⊥⟩
  ⟨points, bR, found.x, found.fit⟩

end LocalSearch

section Forces

variable {K : Type} [Field K] [LinearOrder K]

/-- The rounding unit of the numbers of the script. -/
def eps : K := 1 / (2 ^ 52 : Nat)

/-- The distance of two vectors with one component. -/
def distec (x q : K) : K := |x - q|

/-- A component of a point as a number. -/
def entry (points : List (Point K)) (i k : Nat) : K := ((points.map Point.x).getD i []).getD k 0

/-- The fitness of a point, which is taken for tiny when it is not a number. -/
def fx (points : List (Point K)) (i : Nat) : K := ((points.map Point.fit).getD i ⊥).unbotD eps

/-- The component `k` of the force on point `i`, if it is a number. With the best fitness not a number
or with a sum of zero the charge of the best point is not a number, and it has a part in every force. -/
def calcFO (exp : K → K) (n : Nat) (found : Found K) (k i : Nat) : Option K :=
  match found.fxBestR with
  | ⊥ => none
  | (fxbest : K) =>
      let sumf := ((List.range m).map fun j => fx found.points j - fxbest + eps).sum
      if sumf = 0 then none
      else
        let q j := exp (-n * ((fx found.points j - fxbest) / sumf))
        let push j := (entry found.points j k - entry found.points i k) *
          ((q i * q j) / (distec (entry found.points j k) (entry found.points i k) ^ 2 + eps))
        some ((List.range m).map fun j =>
          if fx found.points j < fx found.points i then push j else -push j).sum

variable [FloorRing K]

/-- One component is moved towards the limit that the force points at. -/
def move (F : K) (p : Int) (lambda : Draw K) : Int :=
  let F := F / (|F| + eps)
  let v1 := if F > 0 then fix (lambda.1 * F * (u - p : Int)) else fix (lambda.1 * F * (p - l : Int))
  p + clip vmin vmax v1

/-- All rows up to the greater one of the two sizes of the population are sorted. -/
def sortRows (n : Nat) (x : List (List Int)) : Option (List (List Int)) :=
  if n > m then none else some (x.map (·.insertionSort (· ≤ ·)))

/-- Every point but the best one is moved. There is no result when a force is not a number, since the
fitness of the point cannot be computed then. -/
def moveO (F : Nat → Nat → Option K) (n : Nat) (draws : Nat → Nat → Draw K) (found : Found K) :
    Option (List (List Int)) :=
  ((found.points.map Point.x).mapIdx fun i x =>
    if i = found.bR then some x
    else (x.mapIdx fun k p => (F k i).map fun f => move f p (draws i k)).mapM id).mapM id >>= sortRows n

end Forces

section Loop

variable {K : Type} [Field K] [LinearOrder K] [FloorRing K]

/-- All random numbers of a run, by iteration, point, component and try. -/
structure Draws (K : Type) [Field K] [LinearOrder K] where
  incializa : Nat → Nat → Draw K
  search : Nat → Nat → SearchDraws K
  move : Nat → Nat → Nat → Draw K

def incializa (n : Nat) (draws : Nat → Nat → Draw K) : List (List Int) :=
  (List.range m).map fun i => (List.range n).map fun k =>
    fix ((l : K) + (draws i k).1 * (u - l : Int))

/-- The points with their fitness. -/
def scored (n_countR : Histogram) (x : List (List Int)) : List (Point K) :=
  x.map fun x => ⟨x, fitnessIMG n_countR x⟩

variable (exp : K → K) (n_countR : Histogram) (level : Nat) (draws : Draws K)

/-- The points before an iteration of the loop, where the run comes to it without an error. -/
def population : Nat → Option (List (Point K))
  | 0 => (sortRows (level - 1) (incializa (level - 1) draws.incializa)).map (scored n_countR)
  | it + 1 => do
      let points ← population it
      let found := localSearch n_countR (level - 1) (draws.search it) points
      let x ← moveO (calcFO exp (level - 1) found) (level - 1) (draws.move it) found
      let x ← sortRows (level - 1) x
      some (scored n_countR x)

/-- What the call of `local` in an iteration leaves. -/
def MTHEMO (it : Nat) : Option (Found K) :=
  if it < MAXITER then (population exp n_countR level draws it).map
    (localSearch n_countR (level - 1) (draws.search it))
  else none

end Loop

end CodeCollect.EmoOtsu
