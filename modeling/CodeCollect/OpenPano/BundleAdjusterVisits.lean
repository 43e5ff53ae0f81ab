import CodeCollect.OpenPano.BundleAdjusterBlocks

namespace CodeCollect.OpenPano

open CodeCollect.Library

namespace BundleAdjuster

variable {K : Type}

/-- This many points come in these pairs. -/
def pointCount (pairs : List (MatchPair K)) : Nat := (pairs.map fun pair => pair.m.length).sum

/-- The first rows of the pairs count the points before them, and the images of a pair differ. -/
structure WellFormed (adjuster : Adjuster K) : Prop where
  size : adjuster.match_cnt_prefix_sum.length = adjuster.match_pairs.length
  prefixes : ∀ k < adjuster.match_pairs.length,
    adjuster.match_cnt_prefix_sum.getD k 0 = pointCount (adjuster.match_pairs.take k)
  count : adjuster.nr_pointwise_match = pointCount adjuster.match_pairs
  fromAdded : ∀ pair ∈ adjuster.match_pairs, pair.fromImg ∈ adjuster.idx_added
  toAdded : ∀ pair ∈ adjuster.match_pairs, pair.toImg ∈ adjuster.idx_added
  differ : ∀ pair ∈ adjuster.match_pairs, pair.fromImg ≠ pair.toImg

namespace WellFormed

theorem empty : WellFormed (Adjuster.empty : Adjuster K) where
  size := rfl
  prefixes k below := absurd below (Nat.not_lt_zero k)
  count := rfl
  fromAdded _ member := absurd member List.not_mem_nil
  toAdded _ member := absurd member List.not_mem_nil
  differ _ member := absurd member List.not_mem_nil

theorem addMatch {self : Adjuster K} (formed : WellFormed self) {i j : Nat} (differ : i ≠ j)
    (m : List (Vec2D K × Vec2D K)) : WellFormed (self.addMatch i j m) where
  size := by simp [Adjuster.addMatch, formed.size]
  prefixes k below := by
    simp only [Adjuster.addMatch, List.length_append, List.length_singleton] at below ⊢
    rcases Nat.lt_succ_iff_lt_or_eq.mp below with earlier | rfl
    · rw [List.getD_append _ _ _ _ (by rw [formed.size]; exact earlier),
        List.take_append_of_le_length earlier.le]
      exact formed.prefixes k earlier
    · rw [List.getD_append_right _ _ _ _ formed.size.le, formed.size, Nat.sub_self,
        List.getD_cons_zero, List.take_left]
      exact formed.count
  count := by
    simp [Adjuster.addMatch, pointCount, formed.count]
  fromAdded pair member := by
    rcases List.mem_append.mp member with earlier | last
    · exact Finset.mem_insert_of_mem (Finset.mem_insert_of_mem (formed.fromAdded pair earlier))
    · obtain rfl := List.mem_singleton.mp last
      exact Finset.mem_insert_of_mem (Finset.mem_insert_self _ _)
  toAdded pair member := by
    rcases List.mem_append.mp member with earlier | last
    · exact Finset.mem_insert_of_mem (Finset.mem_insert_of_mem (formed.toAdded pair earlier))
    · obtain rfl := List.mem_singleton.mp last
      exact Finset.mem_insert_self _ _
  differ pair member := by
    rcases List.mem_append.mp member with earlier | last
    · exact formed.differ pair earlier
    · obtain rfl := List.mem_singleton.mp last
      exact differ

theorem updateIndexMap {self : Adjuster K} (formed : WellFormed self) :
    WellFormed self.updateIndexMap where
  size := formed.size
  prefixes := formed.prefixes
  count := formed.count
  fromAdded := formed.fromAdded
  toAdded := formed.toAdded
  differ := formed.differ

end WellFormed

/-- Images are numbered by their positions in a list. -/
theorem numbered {images : List Nat} (nodup : images.Nodup) (map : Nat → Nat) (cnt i : Nat) :
    (images.foldl (fun (map, cnt) i => (Function.update map i cnt, cnt + 1)) (map, cnt)).1 i =
      if i ∈ images then cnt + images.idxOf i else map i := by
  induction images generalizing map cnt with
  | nil => rfl
  | cons head images ih =>
      obtain ⟨absent, rest⟩ := List.nodup_cons.mp nodup
      rw [List.foldl_cons]
      dsimp only
      rw [ih rest]
      by_cases same : i = head
      · subst same
        simp [absent]
      · by_cases member : i ∈ images
        · simp only [member, if_true, List.mem_cons, or_true, List.idxOf_cons_ne images (Ne.symm same)]
          omega
        · simp [member, same]

/-- The images that were added have different numbers below their count. -/
theorem index_map_spec (self : Adjuster K) :
    (∀ i ∈ self.idx_added, self.updateIndexMap.index_map i < self.idx_added.card) ∧
      ∀ i ∈ self.idx_added, ∀ j ∈ self.idx_added,
        self.updateIndexMap.index_map i = self.updateIndexMap.index_map j → i = j := by
  have position : ∀ i ∈ self.idx_added, self.updateIndexMap.index_map i =
      (self.idx_added.sort (· ≤ ·)).idxOf i := by
    intro i member
    have counted := numbered (Finset.sort_nodup self.idx_added (· ≤ ·)) self.index_map 0 i
    rw [if_pos ((Finset.mem_sort _).mpr member), zero_add] at counted
    exact counted
  constructor
  · intro i member
    rw [position i member, ← Finset.length_sort (· ≤ ·)]
    exact List.idxOf_lt_length_of_mem ((Finset.mem_sort _).mpr member)
  · intro i memberI j memberJ same
    rw [position i memberI, position j memberJ] at same
    exact (List.idxOf_inj ((Finset.mem_sort _).mpr memberI)).mp same

/-- A point of a pair with the numbers of both. -/
structure Visit (K : Type) where
  pair : MatchPair K
  pair_idx : Nat
  point : Nat
  p : Vec2D K × Vec2D K

def visitOf (pair : MatchPair K) (pair_idx : Nat) (item : (Vec2D K × Vec2D K) × Nat) : Visit K :=
  ⟨pair, pair_idx, item.2, item.1⟩

def visitsOf (pair : MatchPair K) (pair_idx : Nat) : List (Visit K) :=
  pair.m.zipIdx.map (visitOf pair pair_idx)

/-- All points in the order of their pairs. -/
def visitsFrom (pairs : List (MatchPair K)) (start : Nat) : List (Visit K) :=
  (pairs.zipIdx start).flatMap fun item => visitsOf item.1 item.2

theorem length_visitsOf (pair : MatchPair K) (pair_idx : Nat) :
    (visitsOf pair pair_idx).length = pair.m.length := by simp [visitsOf]

theorem visitsFrom_cons (pair : MatchPair K) (pairs : List (MatchPair K)) (start : Nat) :
    visitsFrom (pair :: pairs) start = visitsOf pair start ++ visitsFrom pairs (start + 1) := by
  simp [visitsFrom]

theorem length_visitsFrom (pairs : List (MatchPair K)) (start : Nat) :
    (visitsFrom pairs start).length = pointCount pairs := by
  induction pairs generalizing start with
  | nil => rfl
  | cons pair pairs ih =>
      rw [visitsFrom_cons, List.length_append, length_visitsOf, ih]
      simp [pointCount]

/-- The first point of a pair is preceded by the points of the pairs before it. -/
theorem zipIdx_visitsFrom_cons (pair : MatchPair K) (pairs : List (MatchPair K))
    (start base : Nat) :
    (visitsFrom (pair :: pairs) start).zipIdx base =
      (pair.m.zipIdx.zipIdx base).map (Prod.map (visitOf pair start) id) ++
        (visitsFrom pairs (start + 1)).zipIdx (base + pair.m.length) := by
  rw [visitsFrom_cons, List.zipIdx_append, length_visitsOf, visitsOf, List.zipIdx_map]

variable [Field K]

/-- A point fills the two rows of its position. -/
def fillVisit (self : Adjuster K) (derivatives : Derivatives K) (matrices : Matrices K)
    (visit : Visit K × Nat) : Matrices K :=
  fillPoint (visit.2 * 2) (self.index_map visit.1.pair.fromImg * NR_PARAM_PER_CAMERA)
    (self.index_map visit.1.pair.toImg * NR_PARAM_PER_CAMERA)
    (derivatives.dfrom visit.1.pair_idx visit.1.point)
    (derivatives.dto visit.1.pair_idx visit.1.point) matrices

theorem fillPair_eq (self : Adjuster K) (derivatives : Derivatives K) (matrices : Matrices K)
    (pair : MatchPair K) (pair_idx : Nat) :
    fillPair self derivatives matrices pair pair_idx =
      ((pair.m.zipIdx.zipIdx (self.match_cnt_prefix_sum.getD pair_idx 0)).map
        (Prod.map (visitOf pair pair_idx) id)).foldl (fillVisit self derivatives) matrices := by
  unfold fillPair
  rw [foldl_counter (fun idx (item : (Vec2D K × Vec2D K) × Nat) matrices =>
    fillPoint idx (self.index_map pair.fromImg * NR_PARAM_PER_CAMERA)
      (self.index_map pair.toImg * NR_PARAM_PER_CAMERA) (derivatives.dfrom pair_idx item.2)
      (derivatives.dto pair_idx item.2) matrices) 2, List.foldl_map]
  rfl

/-- The pairs from one on are visited point by point from the first row of that pair on. -/
theorem foldl_fillPair (self : Adjuster K) (derivatives : Derivatives K)
    (pairs : List (MatchPair K)) (start base : Nat) (matrices : Matrices K)
    (prefixes : ∀ k < pairs.length,
      self.match_cnt_prefix_sum.getD (start + k) 0 = base + pointCount (pairs.take k)) :
    (pairs.zipIdx start).foldl (fun matrices (pair, pair_idx) =>
        fillPair self derivatives matrices pair pair_idx) matrices =
      ((visitsFrom pairs start).zipIdx base).foldl (fillVisit self derivatives) matrices := by
  induction pairs generalizing start base matrices with
  | nil => rfl
  | cons pair pairs ih =>
      have first : self.match_cnt_prefix_sum.getD start 0 = base :=
        prefixes 0 (Nat.succ_pos _)
      rw [List.zipIdx_cons, List.foldl_cons, zipIdx_visitsFrom_cons, List.foldl_append]
      dsimp only
      rw [fillPair_eq, first]
      apply ih
      intro k below
      have next := prefixes (k + 1) (Nat.succ_lt_succ below)
      rw [List.take_succ_cons, pointCount, List.map_cons, List.sum_cons] at next
      rw [Nat.add_right_comm, Nat.add_assoc start, next, pointCount, Nat.add_assoc]

/-- The points of an adjuster in the order of their residuals. -/
def visits (self : Adjuster K) : List (Visit K) := visitsFrom self.match_pairs 0

theorem calcJacobianSymbolic_eq {self : Adjuster K} (formed : WellFormed self)
    (derivatives : Derivatives K) :
    calcJacobianSymbolic self derivatives =
      (visits self).zipIdx.foldl (fillVisit self derivatives) ⟨fun _ => 0, fun _ => 0, []⟩ := by
  apply foldl_fillPair
  intro k below
  rw [zero_add, formed.prefixes k below, zero_add]

end BundleAdjuster

end CodeCollect.OpenPano
