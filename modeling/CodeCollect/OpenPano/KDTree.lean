import CodeCollect.Library.PriorityQueue

namespace CodeCollect.OpenPano

open CodeCollect.Library

namespace KDTree

/-- A point of any dimension. -/
abbrev Point (K : Type) := List K

section Distance

variable {K : Type} [Field K] [LinearOrder K]

/-- The distance routine is compiled with or without vector instructions. -/
inductive Variant where
  | sse
  | plain

/-- With vector instructions the sum is only checked when this many coordinates are left. -/
def Variant.checks : Variant → Nat → Bool
  | .sse, n => n % 32 = 0
  | .plain, _ => true

/-- Four coordinates are added at a time, and a sum above the threshold is given up. -/
def accumulate (variant : Variant) (sentinel now_thres : K) : Point K → Point K → K → K
  | x0 :: x1 :: x2 :: x3 :: x, y0 :: y1 :: y2 :: y3 :: y, ans =>
      let sum := ans + ((x0 - y0) ^ 2 + (x1 - y1) ^ 2 + (x2 - y2) ^ 2 + (x3 - y3) ^ 2)
      if variant.checks (x.length + 4) ∧ sum > now_thres then sentinel
      else accumulate variant sentinel now_thres x y sum
  | _, _, ans => ans

/-- The squared distance of two points, or the sentinel when it is above the threshold. -/
def euclidean_sqr (variant : Variant) (sentinel : K) (x y : Point K) (now_thres : K) : K :=
  accumulate variant sentinel now_thres x y 0

end Distance

structure Split (K : Type) where
  axis : Nat
  min : K
  range : K
  deriving DecidableEq

def Split.max {K : Type} [Add K] (self : Split K) : K := self.min + self.range

/-- A point with its index. -/
abbrev PointInBuild (K : Type) := Nat × Point K

inductive Node (K : Type) where
  | leaf (pts : List (PointInBuild K))
  | inner (axis : Nat) (split : K) (child0 child1 : Node K)

variable {K : Type} [Field K] [LinearOrder K]

/-- A value of a coordinate extends the bounds it has so far. -/
def update (bounds : K × K) (v : K) : K × K := (Min.min bounds.1 v, Max.max bounds.2 v)

section Construction

variable (queue : PriorityQueue (Split K) K Split.range)

/-- The maxima start at zero. -/
def build_dim_stat (sentinel : K) (D : Nat) (pts : List (Point K)) : queue.State :=
  (List.range D).foldl (fun ret i =>
    let bounds := pts.foldl (fun bounds p => update bounds (p.getD i 0)) (sentinel, 0)
    queue.emplace ret ⟨i, bounds.1, bounds.2 - bounds.1⟩) queue.empty

/-- The points on one side of a split with the bounds of their coordinates. -/
structure Side (K : Type) where
  points : List (PointInBuild K)
  bounds : K × K

def Side.add (self : Side K) (p : PointInBuild K) (v : K) : Side K :=
  ⟨self.points ++ [p], update self.bounds v⟩

/-- The points are split into those below and those above a value. -/
def divide (axis : Nat) (split_val max : K) (points : List (PointInBuild K)) : Side K × Side K :=
  points.foldl (fun (left, right) p =>
    let v := p.2.getD axis 0
    if v > split_val then (left, right.add p v) else (left.add p v, right))
    (⟨[], (max, 0)⟩, ⟨[], (max, 0)⟩)

/-- Nothing is built without statistics. -/
def build (points : List (PointInBuild K)) (stat : queue.State) (depth : Nat) : Option (Node K) :=
  (queue.top stat).bind fun sp =>
    let stat := queue.pop stat
    if _ : sp.range < 10 ∨ points.length < 20 ∨ depth > 5 then some (.leaf points)
    else
      let split_val := sp.min + sp.range * (1 / 2)
      let left := (divide sp.axis split_val sp.max points).1
      let right := (divide sp.axis split_val sp.max points).2
      let rstat := queue.emplace stat ⟨sp.axis, right.bounds.1, right.bounds.2 - right.bounds.1⟩
      let lstat := queue.emplace stat ⟨sp.axis, left.bounds.1, left.bounds.2 - left.bounds.1⟩
      (build left.points lstat (depth + 1)).bind fun child0 =>
        (build right.points rstat (depth + 1)).map fun child1 =>
          .inner sp.axis split_val child0 child1
  termination_by 6 - depth
  decreasing_by all_goals omega

/-- A tree is built for at least one point. -/
def construct (sentinel : K) (points : List (Point K)) : Option (Node K) :=
  points.head?.bind fun first =>
    build queue (points.zipIdx.map Prod.swap) (build_dim_stat queue sentinel first.length points) 0

end Construction

section Search

variable (variant : Variant) (sentinel : K) (p : Point K)

structure NNResult (K : Type) where
  idx : Int
  sqrdist : K

structure TwoNNResult (K : Type) where
  idx : Int
  sqrdist : K
  sqrdist2 : K

def nnPass (result : NNResult K) (lp : PointInBuild K) : NNResult K :=
  let v := euclidean_sqr variant sentinel lp.2 p result.sqrdist
  if v < result.sqrdist then ⟨lp.1, v⟩ else result

/-- The side of the query comes first, and the other one is left out when the plane between them
lies farther away than the point that was found. -/
def nnSides (dist thres : K) (near far : K → NNResult K) : NNResult K :=
  let ret := near thres
  if ret.idx = -1 then far thres
  else if ret.sqrdist < dist * dist then ret
  else
    let ret2 := far ret.sqrdist
    if ret2.idx = -1 ∨ ret.sqrdist ≤ ret2.sqrdist then ret else ret2

def nn_in_node : Node K → K → NNResult K
  | .leaf pts, thres => pts.foldl (nnPass variant sentinel p) ⟨-1, thres⟩
  | .inner axis split child0 child1, thres =>
      let dist := p.getD axis 0 - split
      if dist ≤ 0 then nnSides dist thres (nn_in_node child0) (nn_in_node child1)
      else nnSides dist thres (nn_in_node child1) (nn_in_node child0)

def twoPass (result : TwoNNResult K) (lp : PointInBuild K) : TwoNNResult K :=
  let v := euclidean_sqr variant sentinel lp.2 p result.sqrdist2
  if v < result.sqrdist then ⟨lp.1, v, result.sqrdist⟩
  else { result with sqrdist2 := if v < result.sqrdist2 then v else result.sqrdist2 }

/-- The other side is searched for both neighbours, for the second one or not at all. -/
def twoSides (dist thres : K) (near far : K → TwoNNResult K) (farOne : K → NNResult K) :
    TwoNNResult K :=
  let ret := near thres
  if ret.idx = -1 then far thres
  else if ret.sqrdist2 < dist * dist then ret
  else if ret.sqrdist < dist * dist then
    let ret2 := farOne ret.sqrdist2
    { ret with sqrdist2 := if ret2.sqrdist < ret.sqrdist2 then ret2.sqrdist else ret.sqrdist2 }
  else
    let ret2 := far ret.sqrdist2
    if ret2.idx = -1 then ret
    else if ret2.sqrdist < ret.sqrdist then
      ⟨ret2.idx, ret2.sqrdist, if ret2.sqrdist2 < ret.sqrdist then ret2.sqrdist2 else ret.sqrdist⟩
    else
      { ret with sqrdist2 := if ret2.sqrdist < ret.sqrdist2 then ret2.sqrdist else ret.sqrdist2 }

def two_nn_in_node : Node K → K → TwoNNResult K
  | .leaf pts, thres => pts.foldl (twoPass variant sentinel p) ⟨-1, thres, thres⟩
  | .inner axis split child0 child1, thres =>
      let dist := p.getD axis 0 - split
      if dist > 0 then
        twoSides dist thres (two_nn_in_node child1) (two_nn_in_node child0)
          (nn_in_node variant sentinel p child0)
      else
        twoSides dist thres (two_nn_in_node child0) (two_nn_in_node child1)
          (nn_in_node variant sentinel p child1)

end Search

end KDTree

end CodeCollect.OpenPano
