import Mathlib

namespace CodeCollect.OpenPano

abbrev Vec2D (K : Type) := K × K

namespace BundleAdjuster

def NR_PARAM_PER_CAMERA : Nat := 6

def NR_TERM_PER_MATCH : Nat := 2

/-- A match has pairs of points, the first one in the second image. -/
structure MatchPair (K : Type) where
  fromImg : Nat
  toImg : Nat
  m : List (Vec2D K × Vec2D K)

/-- The set of the images is kept in order. -/
structure Adjuster (K : Type) where
  nr_pointwise_match : Nat
  match_pairs : List (MatchPair K)
  idx_added : Finset Nat
  index_map : Nat → Nat
  match_cnt_prefix_sum : List Nat

variable {K : Type}

/-- An adjuster has no matches at first. -/
def Adjuster.empty : Adjuster K := ⟨0, [], ∅, fun _ => 0, []⟩

def Adjuster.addMatch (self : Adjuster K) (i j : Nat) (m : List (Vec2D K × Vec2D K)) :
    Adjuster K :=
  { self with
    match_pairs := self.match_pairs ++ [⟨i, j, m⟩]
    match_cnt_prefix_sum := self.match_cnt_prefix_sum ++ [self.nr_pointwise_match]
    nr_pointwise_match := self.nr_pointwise_match + m.length
    idx_added := insert j (insert i self.idx_added) }

/-- The images that were added are numbered in order. -/
def Adjuster.updateIndexMap (self : Adjuster K) : Adjuster K :=
  { self with
    index_map := ((self.idx_added.sort (· ≤ ·)).foldl
      (fun (map, cnt) i => (Function.update map i cnt, cnt + 1)) (self.index_map, 0)).1 }

variable [Field K]

/-- A cell has a row and a column. -/
abbrev Cell := Nat × Nat

/-- The cells of `J` that were written are kept, the last one first, and are never read. -/
structure Matrices (K : Type) where
  J : Cell → K
  JtJ : Cell → K
  written : List Cell

def Matrices.setJ (self : Matrices K) (row column : Nat) (value : K) : Matrices K :=
  { self with
    J := Function.update self.J (row, column) value
    written := (row, column) :: self.written }

def Matrices.addJtJ (self : Matrices K) (row column : Nat) (value : K) : Matrices K :=
  { self with JtJ := Function.update self.JtJ (row, column) (self.JtJ (row, column) + value) }

def dot (first second : Vec2D K) : K := first.1 * second.1 + first.2 * second.2

/-- The two rows of a point get its derivatives. -/
def fillJ (idx param_idx_from param_idx_to : Nat) (dfrom dto : Fin 6 → Vec2D K)
    (self : Matrices K) : Matrices K :=
  (List.finRange 6).foldl (fun self (i : Fin 6) =>
    (((self.setJ idx (param_idx_from + i) (dfrom i).1).setJ idx (param_idx_to + i) (dto i).1).setJ
      (idx + 1) (param_idx_from + i) (dfrom i).2).setJ (idx + 1) (param_idx_to + i) (dto i).2) self

/-- The block of the two images and its mirror image. -/
def fillCross (param_idx_from param_idx_to : Nat) (dfrom dto : Fin 6 → Vec2D K)
    (self : Matrices K) : Matrices K :=
  (List.finRange 6).foldl (fun self (i : Fin 6) =>
    (List.finRange 6).foldl (fun self (j : Fin 6) =>
      (self.addJtJ (param_idx_from + i) (param_idx_to + j) (dot (dfrom i) (dto j))).addJtJ
        (param_idx_to + j) (param_idx_from + i) (dot (dfrom i) (dto j))) self) self

/-- One entry of a diagonal block and its mirror image. -/
def addMirrored (param_idx : Nat) (d : Fin 6 → Vec2D K) (i j : Fin 6) (self : Matrices K) :
    Matrices K :=
  let self := self.addJtJ (param_idx + i) (param_idx + j) (dot (d i) (d j))
  if i ≠ j then self.addJtJ (param_idx + j) (param_idx + i) (dot (d i) (d j)) else self

/-- The blocks on the diagonal are filled from their upper triangles. -/
def fillDiagonal (param_idx_from param_idx_to : Nat) (dfrom dto : Fin 6 → Vec2D K)
    (self : Matrices K) : Matrices K :=
  (List.finRange 6).foldl (fun self i => ((List.finRange 6).filter (i ≤ ·)).foldl (fun self j =>
    addMirrored param_idx_to dto i j (addMirrored param_idx_from dfrom i j self)) self) self

def fillPoint (idx param_idx_from param_idx_to : Nat) (dfrom dto : Fin 6 → Vec2D K)
    (self : Matrices K) : Matrices K :=
  fillDiagonal param_idx_from param_idx_to dfrom dto
    (fillCross param_idx_from param_idx_to dfrom dto
      (fillJ idx param_idx_from param_idx_to dfrom dto self))

/-- The derivatives of each point of each pair are arbitrary here. -/
structure Derivatives (K : Type) where
  dfrom : Nat → Nat → Fin 6 → Vec2D K
  dto : Nat → Nat → Fin 6 → Vec2D K

/-- The points of a pair take two rows each from the first row of the pair on. -/
def fillPair (self : Adjuster K) (derivatives : Derivatives K) (matrices : Matrices K)
    (pair : MatchPair K) (pair_idx : Nat) : Matrices K :=
  (pair.m.zipIdx.foldl (fun (matrices, idx) (_, point) =>
    (fillPoint idx (self.index_map pair.fromImg * NR_PARAM_PER_CAMERA)
      (self.index_map pair.toImg * NR_PARAM_PER_CAMERA) (derivatives.dfrom pair_idx point)
      (derivatives.dto pair_idx point) matrices, idx + 2))
    (matrices, self.match_cnt_prefix_sum.getD pair_idx 0 * 2)).1

/-- Both matrices are zero at first. -/
def calcJacobianSymbolic (self : Adjuster K) (derivatives : Derivatives K) : Matrices K :=
  self.match_pairs.zipIdx.foldl (fun matrices (pair, pair_idx) =>
    fillPair self derivatives matrices pair pair_idx) ⟨fun _ => 0, fun _ => 0, []⟩

/-- The residuals of a pair are stored one after the other, where `trans2d` transforms a point of
the second image into the first one. -/
def pairError (self : Adjuster K) (trans2d : Nat → Nat → Vec2D K → Vec2D K)
    (residuals : Nat → K) (idx : Nat) (pair : MatchPair K) : (Nat → K) × Nat :=
  pair.m.foldl (fun (residuals, idx) p =>
    let transformed := trans2d (self.index_map pair.fromImg) (self.index_map pair.toImg) p.1
    (Function.update (Function.update residuals idx (p.2.1 - transformed.1)) (idx + 1)
      (p.2.2 - transformed.2), idx + 2)) (residuals, idx)

/-- The residuals of all pairs are counted by one index. -/
def calcError (self : Adjuster K) (trans2d : Nat → Nat → Vec2D K → Vec2D K) : Nat → K :=
  (self.match_pairs.foldl (fun (residuals, idx) pair => pairError self trans2d residuals idx pair)
    (fun _ => 0, 0)).1

end BundleAdjuster

end CodeCollect.OpenPano
