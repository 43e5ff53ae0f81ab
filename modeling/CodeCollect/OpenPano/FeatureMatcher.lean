import CodeCollect.OpenPano.KDTreeSearch

namespace CodeCollect.OpenPano

open KDTree

namespace FeatureMatcher

variable {K : Type} [Field K] [LinearOrder K]

/-- This is the greatest `float`. -/
def FLOAT_MAX : K := 340282346638528859811704183484516925440

/-- These are the variables of the search for the two nearest neighbours. The index is missing in
place of -1. -/
structure Search (K : Type) where
  min_idx : Option Nat
  min : K
  next_min : K

/-- The index of a pair of matches in the first list comes first. -/
abbrev MatchData := List (Nat × Nat)

def MatchData.reverse (self : MatchData) : MatchData := self.map Prod.swap

def updateMin (dest val : K) : K := if val < dest then val else dest

variable (variant : Variant) (dsc : Point K)

def visit (search : Search K) (kk : Nat) (other : Point K) : Search K :=
  let dist := euclidean_sqr variant FLOAT_MAX dsc other search.next_min
  if dist < search.min then ⟨some kk, dist, search.min⟩
  else { search with next_min := updateMin search.next_min dist }

/-- The two nearest neighbours are searched among the first descriptors. -/
def search (pf2 : Nat → Point K) : Nat → Search K
  | 0 => ⟨none, FLOAT_MAX, FLOAT_MAX⟩
  | kk + 1 => visit variant dsc (search pf2 kk) kk (pf2 kk)

/-- The second distance is lowered by the first descriptors of the other list, except one. -/
def searchBack (pf1 : Nat → Point K) (k : Nat) (next_min : K) : Nat → K
  | 0 => next_min
  | kk + 1 =>
      let next_min := searchBack pf1 k next_min kk
      if kk ≠ k then
        updateMin next_min (euclidean_sqr variant FLOAT_MAX dsc (pf1 kk) next_min)
      else next_min

/-- A descriptor is matched when it and its nearest neighbour are both distinctive. -/
def matchOne (reject_ratio : K) (feat1 feat2 : List (Point K)) (k : Nat) : Option (Nat × Nat) :=
  let pf1 := fun kk => feat1.getD kk []
  let pf2 := fun kk => feat2.getD kk []
  let found := search variant (pf1 k) pf2 feat2.length
  if found.min > reject_ratio * reject_ratio * found.next_min then none
  else
    found.min_idx.bind fun min_idx =>
      let next_min := searchBack variant (pf2 min_idx) pf1 k found.next_min feat1.length
      if found.min > reject_ratio * reject_ratio * next_min then none else some (k, min_idx)

def matchList (reject_ratio : K) (feat1 feat2 : List (Point K)) : MatchData :=
  (List.range feat1.length).filterMap (matchOne variant reject_ratio feat1 feat2)

/-- The loop runs over the smaller list. -/
def matched (reject_ratio : K) (feat1 feat2 : List (Point K)) : MatchData :=
  if feat1.length > feat2.length then (matchList variant reject_ratio feat2 feat1).reverse
  else matchList variant reject_ratio feat1 feat2

/-- The variables of the search fit the distances of the first descriptors. -/
structure Found (dist : Nat → K) (n : Nat) (search : Search K) : Prop where
  ordered : search.min ≤ search.next_min
  least : ∀ i < n, search.min ≤ dist i
  second : ∀ bound, bound ≤ search.next_min ↔
    bound ≤ FLOAT_MAX ∧ ∀ i < n, search.min_idx ≠ some i → bound ≤ dist i
  missing : search.min_idx = none → search.min = FLOAT_MAX
  found : ∀ j, search.min_idx = some j →
    j < n ∧ search.min = dist j ∧ dist j < FLOAT_MAX ∧ ∀ i < j, dist j < dist i

theorem Found.low {dist : Nat → K} {n : Nat} {search : Search K} (fits : Found dist n search) :
    search.next_min ≤ FLOAT_MAX :=
  ((fits.second search.next_min).mp le_rfl).1

/-- The nearest neighbour becomes the second one when a nearer one is found. -/
theorem Found.nearer {dist : Nat → K} {n : Nat} {search : Search K} (fits : Found dist n search)
    (less : dist n < search.min) : Found dist (n + 1) ⟨some n, dist n, search.min⟩ where
  ordered := less.le
  least i below := by
    rcases Nat.lt_succ_iff_lt_or_eq.mp below with earlier | rfl
    · exact less.le.trans (fits.least i earlier)
    · exact le_rfl
  second bound := by
    have top : search.min ≤ FLOAT_MAX := fits.ordered.trans fits.low
    constructor
    · intro bounded
      refine ⟨bounded.trans top, fun i below other => bounded.trans ?_⟩
      rcases Nat.lt_succ_iff_lt_or_eq.mp below with earlier | rfl
      · exact fits.least i earlier
      · exact absurd rfl other
    · rintro ⟨high, bounded⟩
      cases index : search.min_idx with
      | none => exact fits.missing index ▸ high
      | some j =>
          obtain ⟨inside, same, -, -⟩ := fits.found j index
          rw [same]
          exact bounded j (Nat.lt_succ_of_lt inside) fun again =>
            inside.ne (Option.some.inj again).symm
  missing none := by cases none
  found j index := by
    obtain rfl := Option.some.inj index
    exact ⟨Nat.lt_succ_self n, rfl, less.trans_le (fits.ordered.trans fits.low), fun i earlier =>
      less.trans_le (fits.least i earlier)⟩

/-- Another distance may become the second one. -/
theorem Found.farther {dist : Nat → K} {n : Nat} {search : Search K} (fits : Found dist n search)
    (least : search.min ≤ dist n) :
    Found dist (n + 1) { search with next_min := min search.next_min (dist n) } where
  ordered := le_min fits.ordered least
  least i below := by
    rcases Nat.lt_succ_iff_lt_or_eq.mp below with earlier | rfl
    · exact fits.least i earlier
    · exact least
  second bound := by
    rw [le_min_iff, fits.second]
    constructor
    · rintro ⟨⟨high, bounded⟩, last⟩
      refine ⟨high, fun i below other => ?_⟩
      rcases Nat.lt_succ_iff_lt_or_eq.mp below with earlier | rfl
      · exact bounded i earlier other
      · exact last
    · rintro ⟨high, bounded⟩
      refine ⟨⟨high, fun i earlier => bounded i (Nat.lt_succ_of_lt earlier)⟩, ?_⟩
      exact bounded n (Nat.lt_succ_self n) fun index =>
        absurd (fits.found n index).1 (lt_irrefl n)
  missing := fits.missing
  found j index := by
    obtain ⟨inside, rest⟩ := fits.found j index
    exact ⟨Nat.lt_succ_of_lt inside, rest⟩

section Distances

variable [IsStrictOrderedRing K] {variant}

theorem float_max_pos : (0 : K) < FLOAT_MAX := by
  rw [FLOAT_MAX]
  positivity

/-- The early exit of the distance does not change a minimum. -/
theorem updateMin_eq {x y : Point K} (same : x.length = y.length) (four : 4 ∣ x.length) {bound : K}
    (low : bound ≤ FLOAT_MAX) :
    updateMin bound (euclidean_sqr variant FLOAT_MAX x y bound) = min bound (sqrdist x y) := by
  obtain ⟨compared, exact⟩ := euclidean_sqr_lt_iff variant same four low
  rw [updateMin]
  by_cases below : sqrdist x y < bound
  · rw [if_pos (compared.mpr below), exact below, min_eq_right below.le]
  · rw [if_neg (mt compared.mp below), min_eq_left (not_lt.mp below)]

/-- The early exit of the distance does not change the nearest neighbour. -/
theorem visit_eq {x y : Point K} (same : x.length = y.length) (four : 4 ∣ x.length)
    {search : Search K} (ordered : search.min ≤ search.next_min)
    (low : search.next_min ≤ FLOAT_MAX) (kk : Nat) :
    visit variant x search kk y =
      if sqrdist x y < search.min then ⟨some kk, sqrdist x y, search.min⟩
      else { search with next_min := min search.next_min (sqrdist x y) } := by
  obtain ⟨compared, exact⟩ := euclidean_sqr_lt_iff variant same four low
  rw [visit]
  by_cases nearer : sqrdist x y < search.min
  · have given := exact (nearer.trans_le ordered)
    rw [given, if_pos nearer, if_pos nearer]
  · have kept : ¬ euclidean_sqr variant FLOAT_MAX x y search.next_min < search.min := by
      intro less
      have below := compared.mp (less.trans_le ordered)
      rw [exact below] at less
      exact nearer less
    rw [if_neg kept, if_neg nearer, updateMin_eq same four low]

theorem found_search {dsc : Point K} {pf2 : Nat → Point K} {n : Nat}
    (same : ∀ i < n, dsc.length = (pf2 i).length) (four : 4 ∣ dsc.length) :
    Found (fun i => sqrdist dsc (pf2 i)) n (search variant dsc pf2 n) := by
  induction n with
  | zero =>
      exact ⟨le_rfl, fun _ below => absurd below (Nat.not_lt_zero _),
        fun _ => ⟨fun high => ⟨high, fun _ below => absurd below (Nat.not_lt_zero _)⟩, And.left⟩,
        fun _ => rfl, fun _ none => by cases none⟩
  | succ n ih =>
      have fits := ih fun i below => same i (Nat.lt_succ_of_lt below)
      rw [search, visit_eq (same n (Nat.lt_succ_self n)) four fits.ordered fits.low]
      split
      · exact fits.nearer ‹_›
      · exact fits.farther (not_lt.mp ‹_›)

/-- The second distance is lowered to the least of the other ones. -/
theorem le_searchBack_iff {dsc : Point K} {pf1 : Nat → Point K} {k n : Nat} {next_min bound : K}
    (same : ∀ i < n, dsc.length = (pf1 i).length) (four : 4 ∣ dsc.length)
    (low : next_min ≤ FLOAT_MAX) :
    bound ≤ searchBack variant dsc pf1 k next_min n ↔
      bound ≤ next_min ∧ ∀ i < n, i ≠ k → bound ≤ sqrdist dsc (pf1 i) := by
  have lower : ∀ n, (∀ i < n, dsc.length = (pf1 i).length) →
      ∀ bound, bound ≤ searchBack variant dsc pf1 k next_min n ↔
        bound ≤ next_min ∧ ∀ i < n, i ≠ k → bound ≤ sqrdist dsc (pf1 i) := by
    intro n
    induction n with
    | zero => simp [searchBack]
    | succ n ih =>
        intro same bound
        have before := ih fun i below => same i (Nat.lt_succ_of_lt below)
        have bounded := ((before _).mp le_rfl).1.trans low
        rw [searchBack]
        by_cases other : n ≠ k
        · rw [if_pos other, updateMin_eq (same n (Nat.lt_succ_self n)) four bounded, le_min_iff,
            before, and_assoc]
          refine and_congr_right fun _ => ⟨?_, fun all => ?_⟩
          · rintro ⟨earlier, last⟩ i below apart
            rcases Nat.lt_succ_iff_lt_or_eq.mp below with inside | rfl
            · exact earlier i inside apart
            · exact last
          · exact ⟨fun i inside => all i (Nat.lt_succ_of_lt inside),
              all n (Nat.lt_succ_self n) other⟩
        · rw [if_neg other, before]
          refine and_congr_right fun _ => ⟨fun earlier i below apart => ?_, fun all i inside =>
            all i (Nat.lt_succ_of_lt inside)⟩
          rcases Nat.lt_succ_iff_lt_or_eq.mp below with inside | rfl
          · exact earlier i inside apart
          · exact absurd apart other
  exact lower n same bound

end Distances

/-- The index of a descriptor in each list gives their distance. -/
def distance (feat1 feat2 : List (Point K)) (k j : Nat) : K :=
  sqrdist (feat1.getD k []) (feat2.getD j [])

/-- Two descriptors are much nearer to each other than to any other one. -/
structure Distinctive (reject_ratio : K) (feat1 feat2 : List (Point K)) (k j : Nat) : Prop where
  first : k < feat1.length
  second : j < feat2.length
  below : distance feat1 feat2 k j < FLOAT_MAX
  top : distance feat1 feat2 k j ≤ reject_ratio * reject_ratio * FLOAT_MAX
  row : ∀ i < feat2.length, j ≠ i →
    distance feat1 feat2 k j ≤ reject_ratio * reject_ratio * distance feat1 feat2 k i
  column : ∀ i < feat1.length, i ≠ k →
    distance feat1 feat2 k j ≤ reject_ratio * reject_ratio * distance feat1 feat2 i j

/-- All descriptors have one dimension, which the distance takes in steps of four. -/
structure Dimensioned (dim : Nat) (feat1 feat2 : List (Point K)) : Prop where
  first : ∀ dsc ∈ feat1, dsc.length = dim
  second : ∀ dsc ∈ feat2, dsc.length = dim
  four : 4 ∣ dim

section Matches

variable {variant} {reject_ratio : K} {feat1 feat2 : List (Point K)} {dim k j : Nat}

theorem Dimensioned.symm {K : Type} {feat1 feat2 : List (Point K)}
    (dims : Dimensioned dim feat1 feat2) : Dimensioned dim feat2 feat1 :=
  ⟨dims.second, dims.first, dims.four⟩

theorem getD_mem {K : Type} {feat : List (Point K)} {i : Nat} (inside : i < feat.length) :
    feat.getD i [] ∈ feat := by
  rw [List.getD_eq_getElem _ _ inside]
  exact List.getElem_mem inside

theorem Dimensioned.same {K : Type} {feat1 feat2 : List (Point K)}
    (dims : Dimensioned dim feat1 feat2) (one : k < feat1.length) (two : j < feat2.length) :
    (feat1.getD k []).length = (feat2.getD j []).length :=
  (dims.first _ (getD_mem one)).trans (dims.second _ (getD_mem two)).symm

theorem distance_comm {K : Type} [Field K] (feat1 feat2 : List (Point K)) (k j : Nat) :
    distance feat1 feat2 k j = distance feat2 feat1 j k := by
  rw [distance, distance, sqrdist, sqrdist, List.zipWith_comm]
  congr 2
  funext a b
  ring

theorem Distinctive.symm (distinct : Distinctive reject_ratio feat1 feat2 k j) :
    Distinctive reject_ratio feat2 feat1 j k := by
  obtain ⟨first, second, below, top, row, column⟩ := distinct
  refine ⟨second, first, ?_, ?_, fun i inside other => ?_, fun i inside other => ?_⟩
  · rwa [distance_comm]
  · rwa [distance_comm]
  · rw [distance_comm feat2, distance_comm feat2]
    exact column i inside other.symm
  · rw [distance_comm feat2, distance_comm feat2]
    exact row i inside other.symm

theorem matchOne_fst {pair : Nat × Nat}
    (matched : matchOne variant reject_ratio feat1 feat2 k = some pair) : pair.1 = k := by
  rw [matchOne] at matched
  dsimp only at matched
  split at matched
  · cases matched
  · obtain ⟨j, -, matched⟩ := Option.bind_eq_some_iff.mp matched
    split at matched
    · cases matched
    · exact congrArg Prod.fst (Option.some.inj matched).symm

/-- The loop matches each descriptor at most once. -/
theorem nodup_fst (reject_ratio : K) (feat1 feat2 : List (Point K)) :
    ((matchList variant reject_ratio feat1 feat2).map Prod.fst).Nodup := by
  rw [List.Nodup, List.pairwise_map, matchList, List.pairwise_filterMap]
  apply List.nodup_range.imp
  intro k other differ pair matched second found
  rw [matchOne_fst matched, matchOne_fst found]
  exact differ

theorem mem_reverse {data : MatchData} : (k, j) ∈ data.reverse ↔ (j, k) ∈ data := by
  rw [MatchData.reverse, List.mem_map]
  constructor
  · rintro ⟨pair, member, same⟩
    obtain ⟨rfl, rfl⟩ := Prod.mk.inj same
    exact member
  · intro member
    exact ⟨(j, k), member, rfl⟩

theorem matched_of_le (reject_ratio : K) (smaller : feat1.length ≤ feat2.length) :
    matched variant reject_ratio feat1 feat2 = matchList variant reject_ratio feat1 feat2 :=
  if_neg smaller.not_gt

theorem matched_of_lt (reject_ratio : K) (smaller : feat2.length < feat1.length) :
    matched variant reject_ratio feat1 feat2 =
      (matchList variant reject_ratio feat2 feat1).reverse :=
  if_pos smaller

/-- Lists of different lengths are matched in the same loop when they are swapped. -/
theorem matched_swap (reject_ratio : K) (apart : feat1.length ≠ feat2.length) :
    matched variant reject_ratio feat2 feat1 =
      MatchData.reverse (matched variant reject_ratio feat1 feat2) := by
  rcases lt_or_gt_of_ne apart with less | greater
  · rw [matched_of_lt reject_ratio less, matched_of_le reject_ratio less.le]
  · rw [matched_of_lt reject_ratio greater, matched_of_le reject_ratio greater.le,
      MatchData.reverse, MatchData.reverse, List.map_map, Prod.swap_swap_eq, List.map_id]

/-- Every pair is of mutually nearest descriptors, no index is in two pairs, and swapped lists give
swapped pairs. -/
structure Matching (variant : Variant) (reject_ratio : K) (feat1 feat2 : List (Point K)) : Prop where
  first : ((matched variant reject_ratio feat1 feat2).map Prod.fst).Nodup
  second : ((matched variant reject_ratio feat1 feat2).map Prod.snd).Nodup
  inside : ∀ pair ∈ matched variant reject_ratio feat1 feat2,
    pair.1 < feat1.length ∧ pair.2 < feat2.length
  nearest : ∀ pair ∈ matched variant reject_ratio feat1 feat2,
    (∀ i < feat2.length, distance feat1 feat2 pair.1 pair.2 ≤ distance feat1 feat2 pair.1 i) ∧
      ∀ i < feat1.length, distance feat1 feat2 pair.1 pair.2 ≤ distance feat1 feat2 i pair.2
  swapped : ∀ k j, (k, j) ∈ matched variant reject_ratio feat1 feat2 ↔
    (j, k) ∈ matched variant reject_ratio feat2 feat1

/-- The matches of lists of different lengths are the swapped matches of the swapped lists. -/
theorem Matching.swap (matching : Matching variant reject_ratio feat1 feat2)
    (apart : feat1.length ≠ feat2.length) : Matching variant reject_ratio feat2 feat1 := by
  have back : matched variant reject_ratio feat2 feat1 =
      MatchData.reverse (matched variant reject_ratio feat1 feat2) :=
    matched_swap reject_ratio apart
  have member : ∀ {k j}, (k, j) ∈ matched variant reject_ratio feat2 feat1 →
      (j, k) ∈ matched variant reject_ratio feat1 feat2 := fun here => mem_reverse.mp (back ▸ here)
  refine ⟨?_, ?_, fun pair here => (matching.inside _ (member here)).symm, fun pair here => ?_,
    fun k j => (matching.swapped j k).symm⟩
  · rw [back, MatchData.reverse, List.map_map]
    exact matching.second
  · rw [back, MatchData.reverse, List.map_map]
    exact matching.first
  · obtain ⟨row, column⟩ := matching.nearest _ (member here)
    simp only [distance_comm feat2 feat1]
    exact ⟨column, row⟩

variable [IsStrictOrderedRing K]

/-- The test of the ratio compares with the least of the other distances. -/
theorem not_rejected_iff (positive : 0 < reject_ratio) (least next_min : K) :
    ¬ least > reject_ratio * reject_ratio * next_min ↔
      least / (reject_ratio * reject_ratio) ≤ next_min := by
  rw [not_lt, div_le_iff₀' (mul_pos positive positive)]

theorem distance_nonneg (feat1 feat2 : List (Point K)) (k j : Nat) : 0 ≤ distance feat1 feat2 k j :=
  sqrdist_nonneg _ _

/-- What is much less is less, unless nothing is left. -/
theorem ratio_le (positive : 0 < reject_ratio) (small : reject_ratio < 1) {value : K}
    (nonneg : 0 ≤ value) : reject_ratio * reject_ratio * value ≤ value :=
  mul_le_of_le_one_left nonneg (mul_le_one₀ small.le positive.le small.le)

theorem ratio_lt (positive : 0 < reject_ratio) (small : reject_ratio < 1) {value : K}
    (some : 0 < value) : reject_ratio * reject_ratio * value < value :=
  mul_lt_of_lt_one_left some (mul_lt_one_of_nonneg_of_lt_one_left positive.le small small.le)

/-- A descriptor is matched to the first one of those that are nearest to it. -/
theorem matchOne_eq_some_iff (dims : Dimensioned dim feat1 feat2) (positive : 0 < reject_ratio)
    (small : reject_ratio < 1) (inside : k < feat1.length) {pair : Nat × Nat} :
    matchOne variant reject_ratio feat1 feat2 k = some pair ↔
      pair.1 = k ∧ Distinctive reject_ratio feat1 feat2 k pair.2 ∧
        ∀ i < pair.2, distance feat1 feat2 k pair.2 < distance feat1 feat2 k i := by
  have square : 0 < reject_ratio * reject_ratio := mul_pos positive positive
  have four : ∀ {feat : List (Point K)} {i}, (feat.getD i []).length = dim →
      4 ∣ (feat.getD i []).length := fun same => same ▸ dims.four
  have fits : Found (distance feat1 feat2 k) feat2.length
      (search variant (feat1.getD k []) (fun kk => feat2.getD kk []) feat2.length) :=
    found_search (fun i below => dims.same inside below)
      (four (dims.first _ (getD_mem inside)))
  have back : ∀ {j}, j < feat2.length → ∀ {next_min bound : K}, next_min ≤ FLOAT_MAX →
      (bound ≤ searchBack variant (feat2.getD j []) (fun kk => feat1.getD kk []) k next_min
        feat1.length ↔ bound ≤ next_min ∧
          ∀ i < feat1.length, i ≠ k → bound ≤ distance feat1 feat2 i j) := by
    intro j within next_min bound low
    rw [le_searchBack_iff (fun i below => dims.symm.same within below)
      (four (dims.second _ (getD_mem within))) low]
    simp only [distance_comm feat1 feat2]
    rfl
  rw [matchOne]
  generalize search variant (feat1.getD k []) (fun kk => feat2.getD kk []) feat2.length = found
    at fits ⊢
  constructor
  · intro matched
    dsimp only at matched
    split at matched
    · cases matched
    · obtain ⟨j, index, matched⟩ := Option.bind_eq_some_iff.mp matched
      obtain ⟨within, least, below, first⟩ := fits.found j index
      split at matched
      · cases matched
      · rename_i kept
        obtain rfl := Option.some.inj matched
        rw [not_rejected_iff positive, back within fits.low, fits.second, least] at kept
        obtain ⟨⟨top, row⟩, column⟩ := kept
        refine ⟨rfl, ⟨inside, within, below, ?_, fun i under other => ?_, fun i under other => ?_⟩,
          first⟩
        · exact (div_le_iff₀' square).mp top
        · exact (div_le_iff₀' square).mp
            (row i under fun same => other (Option.some.inj (index.symm.trans same)))
        · exact (div_le_iff₀' square).mp (column i under other)
  · obtain ⟨k', j⟩ := pair
    rintro ⟨rfl, distinct, first⟩
    dsimp only at inside fits back distinct first ⊢
    have index : found.min_idx = some j := by
      cases chosen : found.min_idx with
      | none =>
          have bound := fits.least j distinct.second
          rw [fits.missing chosen] at bound
          exact absurd distinct.below bound.not_gt
      | some i =>
          obtain ⟨within, least, -, earlier⟩ := fits.found i chosen
          rcases lt_trichotomy i j with less | rfl | greater
          · have bound := fits.least j distinct.second
            rw [least] at bound
            exact absurd (first i less) bound.not_gt
          · rfl
          · have bound := (distinct.row i within greater.ne).trans
              (ratio_le positive small (distance_nonneg _ _ _ _))
            exact absurd (earlier j greater) bound.not_gt
    have least := (fits.found j index).2.1
    have next : found.min / (reject_ratio * reject_ratio) ≤ found.next_min := by
      rw [fits.second, least, div_le_iff₀' square]
      exact ⟨distinct.top, fun i within other => (div_le_iff₀' square).mpr
        (distinct.row i within fun same => other (index.trans (congrArg some same)))⟩
    rw [if_neg ((not_rejected_iff positive _ _).mpr next), index, Option.bind_some, if_neg]
    rw [not_rejected_iff positive, back distinct.second fits.low, least]
    exact ⟨least ▸ next, fun i within other =>
      (div_le_iff₀' square).mpr (distinct.column i within other)⟩

theorem mem_matchList_iff (dims : Dimensioned dim feat1 feat2) (positive : 0 < reject_ratio)
    (small : reject_ratio < 1) :
    (k, j) ∈ matchList variant reject_ratio feat1 feat2 ↔
      Distinctive reject_ratio feat1 feat2 k j ∧
        ∀ i < j, distance feat1 feat2 k j < distance feat1 feat2 k i := by
  rw [matchList, List.mem_filterMap]
  constructor
  · rintro ⟨i, member, matched⟩
    obtain ⟨rfl, found⟩ :=
      (matchOne_eq_some_iff dims positive small (List.mem_range.mp member)).mp matched
    exact found
  · intro found
    exact ⟨k, List.mem_range.mpr found.1.first,
      (matchOne_eq_some_iff dims positive small found.1.first).mpr ⟨rfl, found⟩⟩


/-- The descriptors of the second list occur at most once in the first one. -/
def OccurOnce {K : Type} (feat other : List (Point K)) : Prop := ∀ dsc ∈ other, ¬ feat.Duplicate dsc

theorem occurOnce_iff {K : Type} (feat other : List (Point K)) :
    OccurOnce feat other ↔ ∀ k i, k < feat.length → i < feat.length →
      feat.getD k [] = feat.getD i [] → feat.getD k [] ∈ other → k = i := by
  constructor
  · intro once k i one two same member
    by_contra differ
    refine once _ member (List.duplicate_iff_exists_distinct_get.mpr ?_)
    have first := List.getD_eq_getElem feat [] one
    have second := List.getD_eq_getElem feat [] two
    rcases lt_or_gt_of_ne differ with less | greater
    · exact ⟨⟨k, one⟩, ⟨i, two⟩, less, first, same.trans second⟩
    · exact ⟨⟨i, two⟩, ⟨k, one⟩, greater, same.trans second, first⟩
  · intro alone dsc member twice
    obtain ⟨k, i, less, one, two⟩ := List.duplicate_iff_exists_distinct_get.mp twice
    have first : feat.getD k [] = dsc := (List.getD_eq_getElem feat [] k.isLt).trans one.symm
    have second : feat.getD i [] = dsc := (List.getD_eq_getElem feat [] i.isLt).trans two.symm
    exact less.ne (Fin.ext (alone k i k.isLt i.isLt (first.trans second.symm) (first ▸ member)))

theorem sqrdist_eq_zero_iff {x y : Point K} (same : x.length = y.length) :
    sqrdist x y = 0 ↔ x = y := by
  induction x generalizing y with
  | nil =>
      obtain rfl := List.eq_nil_of_length_eq_zero same.symm
      simp [sqrdist]
  | cons a x ih =>
      cases y with
      | nil => cases same
      | cons b y =>
          have rest := ih (Nat.succ.inj same)
          have total : sqrdist (a :: x) (b :: y) = (a - b) ^ 2 + sqrdist x y := by simp [sqrdist]
          rw [total, add_eq_zero_iff_of_nonneg (sq_nonneg _) (sqrdist_nonneg x y), rest,
            sq_eq_zero_iff, sub_eq_zero, List.cons.injEq]

theorem distance_eq_zero_iff (dims : Dimensioned dim feat1 feat2) (one : k < feat1.length)
    (two : j < feat2.length) :
    distance feat1 feat2 k j = 0 ↔ feat1.getD k [] = feat2.getD j [] :=
  sqrdist_eq_zero_iff (dims.same one two)

/-- A descriptor that occurs in the other list is matched to its first occurrence. -/
theorem mem_matchList_of_equal (dims : Dimensioned dim feat1 feat2) (positive : 0 < reject_ratio)
    (small : reject_ratio < 1) {dsc : Point K} (member : dsc ∈ feat2) :
    ∃ j, ∀ k < feat1.length, feat1.getD k [] = dsc →
      (k, j) ∈ matchList variant reject_ratio feat1 feat2 := by
  have occurs : ∃ j, j < feat2.length ∧ feat2.getD j [] = dsc := by
    obtain ⟨j, two, same⟩ := List.mem_iff_getElem.mp member
    exact ⟨j, two, (List.getD_eq_getElem feat2 _ two).trans same⟩
  refine ⟨Nat.find occurs, fun k one given => ?_⟩
  obtain ⟨two, same⟩ := Nat.find_spec occurs
  have zero := (distance_eq_zero_iff dims one two).mpr (given.trans same.symm)
  have nothing : ∀ {value : K}, 0 ≤ value →
      distance feat1 feat2 k (Nat.find occurs) ≤ reject_ratio * reject_ratio * value := by
    intro value nonneg
    rw [zero]
    exact mul_nonneg (mul_pos positive positive).le nonneg
  rw [mem_matchList_iff dims positive small]
  refine ⟨⟨one, two, zero ▸ float_max_pos, nothing float_max_pos.le,
    fun _ _ _ => nothing (distance_nonneg _ _ _ _),
    fun _ _ _ => nothing (distance_nonneg _ _ _ _)⟩, fun i earlier => ?_⟩
  rw [zero]
  refine lt_of_le_of_ne (distance_nonneg _ _ _ _) fun again => ?_
  have within := earlier.trans two
  have equal := (distance_eq_zero_iff dims one within).mp again.symm
  exact Nat.find_min occurs earlier ⟨within, equal.symm.trans given⟩

/-- Two matches of one descriptor of the other list are of equal descriptors. -/
theorem equal_of_mem (dims : Dimensioned dim feat1 feat2) (positive : 0 < reject_ratio)
    (small : reject_ratio < 1) (distinct : Distinctive reject_ratio feat1 feat2 k j) {i : Nat}
    (inside : i < feat1.length) (other : i ≠ k)
    (near : distance feat1 feat2 i j ≤ distance feat1 feat2 k j) :
    feat1.getD k [] = feat2.getD j [] ∧ feat1.getD i [] = feat2.getD j [] := by
  have bound := distinct.column i inside other
  have zero : distance feat1 feat2 i j = 0 := by
    by_contra some
    have positive_distance := lt_of_le_of_ne (distance_nonneg feat1 feat2 i j) (Ne.symm some)
    exact absurd (near.trans bound) (ratio_lt positive small positive_distance).not_ge
  rw [zero, mul_zero] at bound
  exact ⟨(distance_eq_zero_iff dims distinct.first distinct.second).mp
      (le_antisymm bound (distance_nonneg _ _ _ _)),
    (distance_eq_zero_iff dims inside distinct.second).mp zero⟩

theorem nodup_snd_iff (dims : Dimensioned dim feat1 feat2) (positive : 0 < reject_ratio)
    (small : reject_ratio < 1) :
    ((matchList variant reject_ratio feat1 feat2).map Prod.snd).Nodup ↔
      OccurOnce feat1 feat2 := by
  rw [occurOnce_iff]
  constructor
  · intro nodup k i one two same member
    obtain ⟨j, found⟩ := mem_matchList_of_equal dims positive small member
    exact congrArg Prod.fst
      (List.inj_on_of_nodup_map nodup (found k one rfl) (found i two same.symm) rfl)
  · intro alone
    apply List.Nodup.map_on _ (nodup_fst reject_ratio feat1 feat2).of_map
    rintro ⟨k, j⟩ first ⟨i, j'⟩ second same
    obtain rfl : j = j' := same
    obtain ⟨one, -⟩ := (mem_matchList_iff dims positive small).mp first
    obtain ⟨two, -⟩ := (mem_matchList_iff dims positive small).mp second
    by_cases other : i = k
    · rw [other]
    · have equal : feat1.getD k [] = feat2.getD j [] ∧ feat1.getD i [] = feat2.getD j [] := by
        rcases le_total (distance feat1 feat2 i j) (distance feat1 feat2 k j) with near | near
        · exact equal_of_mem dims positive small one two.first other near
        · exact (equal_of_mem dims positive small two one.first (Ne.symm other) near).symm
      have member : feat1.getD k [] ∈ feat2 := equal.1 ▸ getD_mem one.second
      rw [alone k i one.first two.first (equal.1.trans equal.2.symm) member]

/-- The loop over the other list finds the same pairs. -/
theorem mem_matchList_swap (dims : Dimensioned dim feat1 feat2) (positive : 0 < reject_ratio)
    (small : reject_ratio < 1) (once : OccurOnce feat1 feat2)
    (member : (k, j) ∈ matchList variant reject_ratio feat1 feat2) :
    (j, k) ∈ matchList variant reject_ratio feat2 feat1 := by
  obtain ⟨distinct, -⟩ := (mem_matchList_iff dims positive small).mp member
  rw [mem_matchList_iff dims.symm positive small]
  refine ⟨distinct.symm, fun i earlier => ?_⟩
  rw [distance_comm feat2, distance_comm feat2]
  by_contra near
  have inside := earlier.trans distinct.first
  obtain ⟨one, two⟩ := equal_of_mem dims positive small distinct inside earlier.ne
    (not_lt.mp near)
  exact earlier.ne ((occurOnce_iff _ _).mp once i k inside distinct.first (two.trans one.symm)
    (two ▸ getD_mem distinct.second))

theorem Distinctive.nearest (distinct : Distinctive reject_ratio feat1 feat2 k j)
    (positive : 0 < reject_ratio) (small : reject_ratio < 1) :
    (∀ i < feat2.length, distance feat1 feat2 k j ≤ distance feat1 feat2 k i) ∧
      ∀ i < feat1.length, distance feat1 feat2 k j ≤ distance feat1 feat2 i j := by
  have shrink : ∀ k j, reject_ratio * reject_ratio * distance feat1 feat2 k j ≤
      distance feat1 feat2 k j := fun k j =>
    ratio_le positive small (distance_nonneg feat1 feat2 k j)
  constructor
  · intro i within
    by_cases same : j = i
    · rw [same]
    · exact (distinct.row i within same).trans (shrink k i)
  · intro i within
    by_cases same : i = k
    · rw [same]
    · exact (distinct.column i within same).trans (shrink i j)

/-- What is left to show are the pairs of the swapped lists. -/
theorem matching_of_le (dims : Dimensioned dim feat1 feat2) (positive : 0 < reject_ratio)
    (small : reject_ratio < 1) (smaller : feat1.length ≤ feat2.length)
    (once : OccurOnce feat1 feat2)
    (swapped : ∀ k j, (k, j) ∈ matchList variant reject_ratio feat1 feat2 ↔
      (j, k) ∈ matched variant reject_ratio feat2 feat1) :
    Matching variant reject_ratio feat1 feat2 := by
  have same : matched variant reject_ratio feat1 feat2 = matchList variant reject_ratio feat1 feat2 :=
    matched_of_le reject_ratio smaller
  have distinct : ∀ pair ∈ matched variant reject_ratio feat1 feat2,
      Distinctive reject_ratio feat1 feat2 pair.1 pair.2 := fun pair member =>
    ((mem_matchList_iff dims positive small).mp (same ▸ member)).1
  refine ⟨?_, ?_, fun pair member => ⟨(distinct pair member).first, (distinct pair member).second⟩,
    fun pair member => (distinct pair member).nearest positive small, fun k j => ?_⟩
  · rw [same]
    exact nodup_fst reject_ratio feat1 feat2
  · rw [same]
    exact (nodup_snd_iff dims positive small).mpr once
  · rw [same]
    exact swapped k j

theorem occurOnce_of_matching (dims : Dimensioned dim feat1 feat2) (positive : 0 < reject_ratio)
    (small : reject_ratio < 1) (matching : Matching variant reject_ratio feat1 feat2)
    (smaller : feat1.length ≤ feat2.length) : OccurOnce feat1 feat2 := by
  have nodup := matching.second
  rw [matched_of_le reject_ratio smaller] at nodup
  exact (nodup_snd_iff dims positive small).mp nodup

theorem matching_iff (dims : Dimensioned dim feat1 feat2) (positive : 0 < reject_ratio)
    (small : reject_ratio < 1) :
    Matching variant reject_ratio feat1 feat2 ↔
      (feat1.length ≤ feat2.length → OccurOnce feat1 feat2) ∧
        (feat2.length ≤ feat1.length → OccurOnce feat2 feat1) := by
  have shorter : ∀ {feat1 feat2 : List (Point K)}, Dimensioned dim feat1 feat2 →
      feat1.length < feat2.length → OccurOnce feat1 feat2 →
        Matching variant reject_ratio feat1 feat2 := by
    intro feat1 feat2 dims less once
    refine matching_of_le dims positive small less.le once fun k j => ?_
    rw [matched_of_lt reject_ratio less, mem_reverse]
  rcases lt_trichotomy feat1.length feat2.length with less | same | greater
  · constructor
    · intro matching
      exact ⟨occurOnce_of_matching dims positive small matching, fun longer =>
        absurd less longer.not_gt⟩
    · rintro ⟨once, -⟩
      exact shorter dims less (once less.le)
  · constructor
    · intro matching
      refine ⟨occurOnce_of_matching dims positive small matching, fun _ => ?_⟩
      rw [occurOnce_iff]
      intro j i one two equal member
      obtain ⟨k, found⟩ := mem_matchList_of_equal dims.symm positive small member
      have back : ∀ i < feat2.length, feat2.getD i [] = feat2.getD j [] →
          (k, i) ∈ matched variant reject_ratio feat1 feat2 := by
        intro i within again
        rw [matching.swapped, matched_of_le reject_ratio same.ge]
        exact found i within again
      exact congrArg Prod.snd
        (List.inj_on_of_nodup_map matching.first (back j one rfl) (back i two equal.symm) rfl)
    · rintro ⟨first, second⟩
      refine matching_of_le dims positive small same.le (first same.le) fun k j => ?_
      rw [matched_of_le reject_ratio same.ge]
      exact ⟨mem_matchList_swap dims positive small (first same.le),
        mem_matchList_swap dims.symm positive small (second same.ge)⟩
  · constructor
    · intro matching
      exact ⟨fun longer => absurd greater longer.not_gt,
        occurOnce_of_matching dims.symm positive small (matching.swap greater.ne')⟩
    · rintro ⟨-, once⟩
      exact (shorter dims.symm greater (once greater.le)).swap greater.ne

theorem matching_iff_corners :
    Matching .sse (4 / 5 : ℚ) [[0, 0, 0, 0], [1, 0, 0, 3]] [[0, 0, 0, 0], [1, 0, 0, 2]] := by
  have dims : Dimensioned 4 [[0, 0, 0, 0], [1, 0, 0, 3]] [[0, 0, 0, 0], [(1 : ℚ), 0, 0, 2]] :=
    ⟨by simp, by simp, by norm_num⟩
  refine (matching_iff dims (by norm_num) (by norm_num)).mpr ⟨fun _ => ?_, fun _ => ?_⟩
  · unfold OccurOnce
    decide +kernel
  · unfold OccurOnce
    decide +kernel

/-- Two equal descriptors are matched to the same one. -/
theorem repeated_matched_twice : ¬ ∀ (reject_ratio : ℚ) (feat1 feat2 : List (Point ℚ)),
    0 < reject_ratio → reject_ratio < 1 → Dimensioned 4 feat1 feat2 →
      Matching .plain reject_ratio feat1 feat2 := by
  intro matching
  have second := (matching (4 / 5) [[0, 0, 0, 0], [0, 0, 0, 0]] [[0, 0, 0, 0], [0, 0, 0, 0]]
    (by norm_num) (by norm_num) ⟨by simp, by simp, by norm_num⟩).second
  exact absurd second (by decide +kernel)

end Matches

end FeatureMatcher

end CodeCollect.OpenPano
