import CodeCollect.OpenPano.BundleAdjusterVisits

namespace CodeCollect.OpenPano

open CodeCollect.Library

namespace BundleAdjuster

variable {K : Type} [Field K]

def coordinate (point : Vec2D K) (c : Nat) : K := if c = 0 then point.1 else point.2

section Jacobian

variable (self : Adjuster K) (derivatives : Derivatives K)

/-- The derivatives of a point by the parameter of a column. -/
def visitDerivative (visit : Visit K) (column : Nat) : Vec2D K :=
  derivative (self.index_map visit.pair.fromImg) (self.index_map visit.pair.toImg)
    (derivatives.dfrom visit.pair_idx visit.point) (derivatives.dto visit.pair_idx visit.point) column

/-- Two rows are meant for each point. -/
def jacobian (cell : Cell) : K :=
  ((visits self)[cell.1 / 2]?).elim 0 fun visit =>
    coordinate (visitDerivative self derivatives visit cell.2) (cell.1 % 2)

theorem jacobian_row {visit : Visit K} {position c : Nat}
    (visited : (visits self)[position]? = some visit) (below : c < 2) (column : Nat) :
    jacobian self derivatives (2 * position + c, column) =
      coordinate (visitDerivative self derivatives visit column) c := by
  have row : (2 * position + c) / 2 = position := by omega
  have parity : (2 * position + c) % 2 = c := by omega
  rw [jacobian, row, visited, parity]
  rfl

/-- The cells that are written for a point. -/
def visitCells (visit : Visit K × Nat) : List Cell :=
  pointCells (self.index_map visit.1.pair.fromImg) (self.index_map visit.1.pair.toImg) (visit.2 * 2)

/-- What a point adds to `JtJ`. -/
def visitProduct (visit : Visit K) (cell : Cell) : K :=
  dot (visitDerivative self derivatives visit cell.1) (visitDerivative self derivatives visit cell.2)

omit [Field K] in
theorem pair_mem_of_visited {visit : Visit K} {position : Nat}
    (visited : (visits self)[position]? = some visit) : visit.pair ∈ self.match_pairs := by
  obtain ⟨⟨pair, pair_idx⟩, member, inside⟩ :=
    List.mem_flatMap.mp (List.mem_of_getElem? visited)
  obtain ⟨item, _, rfl⟩ := List.mem_map.mp inside
  exact List.mem_of_getElem? (List.mem_zipIdx_iff_getElem?.mp member)

variable {self}

/-- The numbers of the images of a pair differ. -/
def Apart (self : Adjuster K) : Prop :=
  ∀ pair ∈ self.match_pairs, self.index_map pair.fromImg ≠ self.index_map pair.toImg

theorem fills_visits (apart : Apart self) :
    Fills (fun matrices => (visits self).zipIdx.foldl (fillVisit self derivatives) matrices)
      (jacobian self derivatives) ((visits self).zipIdx.flatMap (visitCells self))
      ((visits self).zipIdx.map fun visit => visitProduct self derivatives visit.1).sum := by
  refine Fills.foldl _ fun visit member => ?_
  have visited := List.mem_zipIdx_iff_getElem?.mp member
  refine fills_point _ _ _ _ (apart _ (pair_mem_of_visited self visited)) ?_ ?_
  · intro column
    have row := jacobian_row self derivatives visited (by decide : 0 < 2) column
    rwa [Nat.add_zero, Nat.mul_comm] at row
  · intro column
    have row := jacobian_row self derivatives visited (by decide : 1 < 2) column
    rwa [Nat.mul_comm] at row

omit [Field K] in
theorem mem_visitCells {row column : Nat} :
    (row, column) ∈ (visits self).zipIdx.flatMap (visitCells self) ↔
      ∃ visit, (visits self)[row / 2]? = some visit ∧
        (column / 6 = self.index_map visit.pair.fromImg ∨
          column / 6 = self.index_map visit.pair.toImg) := by
  rw [List.mem_flatMap]
  constructor
  · rintro ⟨⟨visit, position⟩, member, inside⟩
    obtain ⟨rows, columns⟩ := (mem_pointCells _ _).mp inside
    have half : row / 2 = position := by
      dsimp only at rows
      omega
    refine ⟨visit, ?_, columns⟩
    rw [half]
    exact List.mem_zipIdx_iff_getElem?.mp member
  · rintro ⟨visit, visited, columns⟩
    refine ⟨(visit, row / 2), List.mem_zipIdx_iff_getElem?.mpr visited, ?_⟩
    refine (mem_pointCells _ _).mpr ⟨?_, columns⟩
    dsimp only
    omega

omit [Field K] in
/-- No cell is written for two points. -/
theorem nodup_visitCells (apart : Apart self) :
    ((visits self).zipIdx.flatMap (visitCells self)).Nodup := by
  rw [List.nodup_flatMap]
  constructor
  · intro visit member
    exact nodup_pointCells _ _
      (apart _ (pair_mem_of_visited self (List.mem_zipIdx_iff_getElem?.mp member))) _
  · have positions : ((visits self).zipIdx.map Prod.snd).Nodup := List.nodup_zipIdx_map_snd _
    refine (List.pairwise_map.mp positions).imp fun {one two} differ => ?_
    rw [Function.onFun, List.disjoint_left]
    rintro ⟨row, column⟩ first second
    have rowsOne := ((mem_pointCells _ _).mp first).1
    have rowsTwo := ((mem_pointCells _ _).mp second).1
    omega

end Jacobian

section Residuals

variable (self : Adjuster K) (trans2d : Nat → Nat → Vec2D K → Vec2D K)

/-- A point lies off the transformed point by this much. -/
def residual (visit : Visit K) : Vec2D K :=
  visit.p.2 - trans2d (self.index_map visit.pair.fromImg) (self.index_map visit.pair.toImg) visit.p.1

/-- The next two residuals are those of a point. -/
def storeVisit (stored : (Nat → K) × Nat) (visit : Visit K) : (Nat → K) × Nat :=
  (Function.update (Function.update stored.1 stored.2 (residual self trans2d visit).1)
    (stored.2 + 1) (residual self trans2d visit).2, stored.2 + 2)

theorem pairError_eq (stored : (Nat → K) × Nat) (pair : MatchPair K) (pair_idx : Nat) :
    pairError self trans2d stored.1 stored.2 pair =
      (visitsOf pair pair_idx).foldl (storeVisit self trans2d) stored := by
  rw [visitsOf, List.foldl_map, pairError]
  conv_lhs => rw [← List.zipIdx_map_fst 0 pair.m, List.foldl_map]
  rfl

theorem foldl_pairError (pairs : List (MatchPair K)) (start : Nat) (stored : (Nat → K) × Nat) :
    pairs.foldl (fun (residuals, idx) pair => pairError self trans2d residuals idx pair) stored =
      (visitsFrom pairs start).foldl (storeVisit self trans2d) stored := by
  induction pairs generalizing start stored with
  | nil => rfl
  | cons pair pairs ih =>
      rw [List.foldl_cons, visitsFrom_cons, List.foldl_append, ← pairError_eq]
      exact ih (start + 1) _

/-- The residuals of a point are stored at the two rows of its position. -/
theorem stored_apply (items : List (Visit K)) (start : Nat) (residuals : Nat → K) (row : Nat) :
    (items.foldl (storeVisit self trans2d) (residuals, 2 * start)).1 row =
      if row / 2 < start then residuals row
      else (items[row / 2 - start]?).elim (residuals row) fun visit =>
        coordinate (residual self trans2d visit) (row % 2) := by
  induction items generalizing start residuals with
  | nil => simp
  | cons visit items ih =>
      rw [List.foldl_cons, storeVisit]
      dsimp only
      rw [show 2 * start + 2 = 2 * (start + 1) from rfl, ih]
      by_cases before : row / 2 < start
      · rw [if_pos (by omega), if_pos before, Function.update_of_ne (by omega),
          Function.update_of_ne (by omega)]
      · rw [if_neg before]
        by_cases own : row / 2 = start
        · rw [if_pos (by omega), own, Nat.sub_self, List.getElem?_cons_zero, Option.elim_some]
          obtain first | second := Nat.mod_two_eq_zero_or_one row
          · rw [show row = 2 * start by omega, Function.update_of_ne (by omega),
              Function.update_self, Nat.mul_mod_right, coordinate, if_pos rfl]
          · rw [second, show row = 2 * start + 1 by omega, Function.update_self, coordinate,
              if_neg one_ne_zero]
        · have later : row / 2 - start = row / 2 - (start + 1) + 1 := by omega
          rw [if_neg (by omega), later, List.getElem?_cons_succ, Function.update_of_ne (by omega),
            Function.update_of_ne (by omega)]

theorem calcError_apply {visit : Visit K} {position c : Nat}
    (visited : (visits self)[position]? = some visit) (below : c < 2) :
    calcError self trans2d (2 * position + c) = coordinate (residual self trans2d visit) c := by
  have row : (2 * position + c) / 2 = position := by omega
  have parity : (2 * position + c) % 2 = c := by omega
  rw [calcError, foldl_pairError self trans2d self.match_pairs 0]
  refine (stored_apply self trans2d (visits self) 0 _ _).trans ?_
  rw [if_neg (Nat.not_lt_zero _), Nat.sub_zero, row, visited, parity]
  rfl

end Residuals

section Matrices

variable {self : Adjuster K} (derivatives : Derivatives K)

/-- The first cells are the entries of a matrix. -/
def matrix (rows columns : Nat) (cells : Cell → K) : Matrix (Fin rows) (Fin columns) K :=
  fun row column => cells (row, column)

/-- The product of two rows of a point is the product of its coordinates. -/
theorem dot_eq_coordinates (first second : Vec2D K) :
    dot first second =
      coordinate first 0 * coordinate second 0 + coordinate first 1 * coordinate second 1 := rfl

/-- A sum over the rows of `J` is a sum over the points. -/
theorem sum_rows (derivatives : Derivatives K) (a b : Nat) :
    ∑ row ∈ Finset.range (2 * (visits self).length),
        jacobian self derivatives (row, a) * jacobian self derivatives (row, b) =
      ((visits self).map fun visit => visitProduct self derivatives visit (a, b)).sum := by
  rw [sum_range_pairs, ← sum_range_getElem?]
  apply Finset.sum_congr rfl
  intro position member
  have visited := List.getElem?_eq_getElem (Finset.mem_range.mp member)
  have first := jacobian_row self derivatives visited (by decide : 0 < 2)
  have second := jacobian_row self derivatives visited (by decide : 1 < 2)
  rw [Nat.add_zero] at first
  rw [first, first, second, second, visited, Option.elim_some, visitProduct, dot_eq_coordinates]

omit [Field K] in
theorem length_visits (formed : WellFormed self) :
    (visits self).length = self.nr_pointwise_match :=
  (length_visitsFrom self.match_pairs 0).trans formed.count.symm

theorem calcJacobianSymbolic_J (formed : WellFormed self) (apart : Apart self) :
    (calcJacobianSymbolic self derivatives).J = jacobian self derivatives := by
  rw [calcJacobianSymbolic_eq formed, (fills_visits derivatives apart).J]
  funext ⟨row, column⟩
  by_cases written : (row, column) ∈ (visits self).zipIdx.flatMap (visitCells self)
  · exact overwrite_of_mem _ _ written
  · rw [overwrite_of_not_mem _ _ written, jacobian]
    cases visited : (visits self)[row / 2]? with
    | none => rfl
    | some visit =>
        have outside : ¬ (column / 6 = self.index_map visit.pair.fromImg ∨
            column / 6 = self.index_map visit.pair.toImg) :=
          fun columns => written (mem_visitCells.mpr ⟨visit, visited, columns⟩)
        rw [not_or] at outside
        rw [Option.elim_some, visitDerivative, derivative, if_neg outside.1, if_neg outside.2]
        simp [coordinate]

theorem calcJacobianSymbolic_JtJ (formed : WellFormed self) (apart : Apart self) (a b : Nat) :
    (calcJacobianSymbolic self derivatives).JtJ (a, b) =
      ((visits self).map fun visit => visitProduct self derivatives visit (a, b)).sum := by
  rw [calcJacobianSymbolic_eq formed, (fills_visits derivatives apart).JtJ, Pi.add_apply, zero_add,
    sum_map_apply]
  conv_rhs => rw [← List.zipIdx_map_fst 0 (visits self), List.map_map]
  rfl

theorem calcJacobianSymbolic_written (formed : WellFormed self) (apart : Apart self) :
    (calcJacobianSymbolic self derivatives).written.Perm
      ((visits self).zipIdx.flatMap (visitCells self)) := by
  rw [calcJacobianSymbolic_eq formed]
  have filled := (fills_visits derivatives apart).written ⟨fun _ => 0, fun _ => 0, []⟩
  rwa [List.append_nil] at filled

/-- The normal matrix is the product of the transposed Jacobian and the Jacobian. -/
theorem normal_eq (formed : WellFormed self) (apart : Apart self) (columns : Nat) :
    matrix columns columns (calcJacobianSymbolic self derivatives).JtJ =
      (matrix (2 * self.nr_pointwise_match) columns
        (calcJacobianSymbolic self derivatives).J).transpose *
      matrix (2 * self.nr_pointwise_match) columns
        (calcJacobianSymbolic self derivatives).J := by
  ext a b
  rw [Matrix.mul_apply]
  simp only [matrix, Matrix.transpose_apply]
  rw [calcJacobianSymbolic_JtJ derivatives formed apart, calcJacobianSymbolic_J derivatives formed
    apart, ← sum_rows, length_visits formed]
  exact Finset.sum_range fun row =>
    jacobian self derivatives (row, a) * jacobian self derivatives (row, b)

end Matrices

section Consistency

/-- A sequence of matches is added one by one. -/
def addMatches (calls : List (MatchPair K)) : Adjuster K :=
  calls.foldl (fun self call => self.addMatch call.fromImg call.toImg call.m) Adjuster.empty

/-- The matrices and the residuals of these matches fit together. -/
structure Consistent (calls : List (MatchPair K)) (self : Adjuster K)
    (derivatives : Derivatives K) (trans2d : Nat → Nat → Vec2D K → Vec2D K)
    (matrices : Matrices K) : Prop where
  pairs : self.match_pairs = calls
  /-- The normal matrix is the product of the Jacobian with itself. -/
  normal : matrix (6 * self.idx_added.card) (6 * self.idx_added.card) matrices.JtJ =
    (matrix (2 * self.nr_pointwise_match) (6 * self.idx_added.card) matrices.J).transpose *
      matrix (2 * self.nr_pointwise_match) (6 * self.idx_added.card) matrices.J
  symmetric : (matrix (6 * self.idx_added.card) (6 * self.idx_added.card) matrices.JtJ).IsSymm
  /-- No cell is written twice, and all of them lie in the matrix. -/
  once : matrices.written.Nodup
  inside : ∀ cell ∈ matrices.written,
    cell.1 < 2 * self.nr_pointwise_match ∧ cell.2 < 6 * self.idx_added.card
  /-- There are two rows for each point. -/
  rows : (visits self).length = self.nr_pointwise_match
  /-- The cells that are written in the rows of a point are the blocks of its images. -/
  written : ∀ position visit, (visits self)[position]? = some visit → ∀ c < 2, ∀ column,
    (2 * position + c, column) ∈ matrices.written ↔
      column / 6 = self.index_map visit.pair.fromImg ∨ column / 6 = self.index_map visit.pair.toImg
  /-- They hold the derivatives of the point by the coordinate of the row. -/
  fromBlock : ∀ position visit, (visits self)[position]? = some visit → ∀ c < 2, ∀ i : Fin 6,
    matrices.J (2 * position + c, 6 * self.index_map visit.pair.fromImg + i) =
      coordinate (derivatives.dfrom visit.pair_idx visit.point i) c
  toBlock : ∀ position visit, (visits self)[position]? = some visit → ∀ c < 2, ∀ i : Fin 6,
    matrices.J (2 * position + c, 6 * self.index_map visit.pair.toImg + i) =
      coordinate (derivatives.dto visit.pair_idx visit.point i) c
  zero : ∀ position visit, (visits self)[position]? = some visit → ∀ c < 2, ∀ column,
    column / 6 ≠ self.index_map visit.pair.fromImg →
      column / 6 ≠ self.index_map visit.pair.toImg → matrices.J (2 * position + c, column) = 0
  /-- The residuals with the same indices are those of the same point and coordinate. -/
  residuals : ∀ position visit, (visits self)[position]? = some visit → ∀ c < 2,
    calcError self trans2d (2 * position + c) = coordinate (residual self trans2d visit) c
  /-- The blocks of different images differ. -/
  distinct : Set.InjOn self.index_map self.idx_added
  below : ∀ image ∈ self.idx_added, self.index_map image < self.idx_added.card
  added : ∀ call ∈ calls, call.fromImg ∈ self.idx_added ∧ call.toImg ∈ self.idx_added

omit [Field K] in
theorem addMatches_formed (calls : List (MatchPair K))
    (differ : ∀ call ∈ calls, call.fromImg ≠ call.toImg) : WellFormed (addMatches calls) := by
  induction calls using List.reverseRecOn with
  | nil => exact WellFormed.empty
  | append_singleton calls call ih =>
      rw [addMatches, List.foldl_append]
      refine WellFormed.addMatch (ih fun other member => ?_) (differ call ?_) call.m
      · exact differ other (List.mem_append_left _ member)
      · exact List.mem_append_right _ (List.mem_singleton_self call)

omit [Field K] in
theorem addMatches_pairs (calls : List (MatchPair K)) : (addMatches calls).match_pairs = calls := by
  induction calls using List.reverseRecOn with
  | nil => rfl
  | append_singleton calls call ih =>
      rw [addMatches, List.foldl_append]
      exact congrArg (· ++ [call]) ih

omit [Field K] in
/-- A column of the block of an image that was added lies in the matrix. -/
theorem column_below {self : Adjuster K} {image column : Nat}
    (below : self.index_map image < self.idx_added.card)
    (block : column / 6 = self.index_map image) : column < 6 * self.idx_added.card := by omega

/-- An adjuster with numbered images has consistent matrices. -/
theorem consistent_of_numbered {self : Adjuster K} (formed : WellFormed self)
    (below : ∀ image ∈ self.idx_added, self.index_map image < self.idx_added.card)
    (distinct : Set.InjOn self.index_map self.idx_added) (derivatives : Derivatives K)
    (trans2d : Nat → Nat → Vec2D K → Vec2D K) :
    Consistent self.match_pairs self derivatives trans2d
      (calcJacobianSymbolic self derivatives) := by
  have apart : Apart self := fun pair member same => formed.differ pair member
    (distinct (formed.fromAdded pair member) (formed.toAdded pair member) same)
  have symm := calcJacobianSymbolic_written derivatives formed apart
  have block : ∀ position visit, (visits self)[position]? = some visit → ∀ c < 2, ∀ column,
      (calcJacobianSymbolic self derivatives).J (2 * position + c, column) =
        coordinate (visitDerivative self derivatives visit column) c := by
    intro position visit visited c small column
    rw [calcJacobianSymbolic_J derivatives formed apart]
    exact jacobian_row self derivatives visited small column
  have split : ∀ (image : Nat) (i : Fin 6),
      (6 * image + i) / 6 = image ∧ offset (6 * image + i) = i := fun image i =>
    column_eq_iff.mp (congrArg (· + (i : Nat)) (Nat.mul_comm 6 image))
  refine
    { pairs := rfl
      normal := normal_eq derivatives formed apart _
      symmetric := ?_
      once := symm.nodup_iff.mpr (nodup_visitCells apart)
      inside := ?_
      rows := length_visits formed
      written := ?_
      fromBlock := ?_
      toBlock := ?_
      zero := ?_
      residuals := fun position visit visited c small =>
        calcError_apply self trans2d visited small
      distinct := distinct
      below := below
      added := fun call member => ⟨formed.fromAdded call member, formed.toAdded call member⟩ }
  · rw [normal_eq derivatives formed apart, Matrix.IsSymm, Matrix.transpose_mul,
      Matrix.transpose_transpose]
  · rintro ⟨row, column⟩ member
    obtain ⟨visit, visited, columns⟩ := mem_visitCells.mp (symm.mem_iff.mp member)
    have pair := pair_mem_of_visited self visited
    have position := (List.getElem?_eq_some_iff.mp visited).1
    rw [length_visits formed] at position
    constructor
    · dsimp only
      omega
    · rcases columns with first | second
      · exact column_below (below _ (formed.fromAdded _ pair)) first
      · exact column_below (below _ (formed.toAdded _ pair)) second
  · intro position visit visited c small column
    have half : (2 * position + c) / 2 = position := by omega
    rw [symm.mem_iff, mem_visitCells, half, visited]
    simp
  · intro position visit visited c small i
    obtain ⟨image, place⟩ := split (self.index_map visit.pair.fromImg) i
    rw [block position visit visited c small, visitDerivative, derivative, if_pos image, place]
  · intro position visit visited c small i
    obtain ⟨image, place⟩ := split (self.index_map visit.pair.toImg) i
    have other := apart _ (pair_mem_of_visited self visited)
    rw [block position visit visited c small, visitDerivative, derivative, image,
      if_neg other.symm, if_pos rfl, place]
  · intro position visit visited c small column notFrom notTo
    rw [block position visit visited c small, visitDerivative, derivative, if_neg notFrom,
      if_neg notTo]
    simp [coordinate]

/-- Any sequence of matches of different images has consistent matrices. -/
theorem calcJacobianSymbolic_consistent (calls : List (MatchPair K))
    (differ : ∀ call ∈ calls, call.fromImg ≠ call.toImg) (derivatives : Derivatives K)
    (trans2d : Nat → Nat → Vec2D K → Vec2D K) :
    Consistent calls (addMatches calls).updateIndexMap derivatives trans2d
      (calcJacobianSymbolic (addMatches calls).updateIndexMap derivatives) := by
  obtain ⟨below, distinct⟩ := index_map_spec (addMatches calls)
  have consistent := consistent_of_numbered (addMatches_formed calls differ).updateIndexMap below
    (fun i memberI j memberJ same => distinct i memberI j memberJ same) derivatives trans2d
  rwa [show (addMatches calls).updateIndexMap.match_pairs = calls from addMatches_pairs calls]
    at consistent

/-- The same two images are matched twice, the second time the other way round. -/
def reversed : List (MatchPair ℚ) :=
  [⟨5, 2, [((1, 2), (3, 4)), ((0, 1), (1, 0))]⟩, ⟨3, 5, []⟩, ⟨2, 5, [((7, 8), (9, 10))]⟩]

theorem reversed_consistent :
    Consistent reversed (addMatches reversed).updateIndexMap ⟨fun _ _ _ => (1, 2), fun _ _ _ => (3, 4)⟩
      (fun _ _ p => p) (calcJacobianSymbolic (addMatches reversed).updateIndexMap
        ⟨fun _ _ _ => (1, 2), fun _ _ _ => (3, 4)⟩) :=
  calcJacobianSymbolic_consistent reversed (by decide) _ _

end Consistency

end BundleAdjuster

end CodeCollect.OpenPano
