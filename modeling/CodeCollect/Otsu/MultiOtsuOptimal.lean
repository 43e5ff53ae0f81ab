import CodeCollect.Library.ClassVariance
import CodeCollect.Otsu.MultiOtsuThreshold

namespace CodeCollect.Otsu.MultiOtsuThreshold

open Finset Library.StrictSearch Library.ClassVariance

/-- An image of bytes whose levels reach from 0 to 255. -/
structure EightBit (I : List Nat) : Prop where
  depth : ∀ v ∈ I, v < 256
  black : 0 ∈ I
  white : 255 ∈ I

/-- The share of the pixels that have a level. -/
def weight (I : List Nat) (g : Nat) : ℚ := I.count g / I.length

/-- These thresholds cut the levels into so many classes, none of them empty. A threshold is the first
level of its class. -/
structure Cuts (Level : Nat) (u : List Nat) : Prop where
  count : u.length + 1 = Level
  sorted : u.Pairwise (· < ·)
  bounds : ∀ t ∈ u, 1 ≤ t ∧ t ≤ 255

/-- The class of a level. -/
def levelClass (u : List Nat) (g : Nat) : Nat := 1 + classOf u g

/-- The variance between the classes of a labelling of the levels. -/
def variance (Level : Nat) (I : List Nat) (c : Nat → Nat) : ℚ :=
  betweenClass (weight I) (fun g => (g : ℚ)) (range 256) c (Icc 1 Level)

/-- The labels of the pixels increase with their levels, and no cut into classes has a larger variance
between them. -/
def Optimal (Level : Nat) (I IDX : List Nat) : Prop :=
  ∃ c : Nat → Nat, Monotone c ∧ (∀ g, c g ∈ Icc 1 Level) ∧ IDX = I.map c ∧
    ∀ u, Cuts Level u → variance Level I (levelClass u) ≤ variance Level I c

/-- The energy of some levels, which are counted from 1. -/
def levelEnergy (I : List Nat) (s : Finset Nat) : ℚ := energy (weight I) (fun g => (g : ℚ) + 1) s

/-- The energy of all classes. -/
def fullScore (I u : List Nat) : ℚ := ((pieces 0 u 256).map (levelEnergy I)).sum

/-- The energy of the classes of two and more levels. -/
def tableScore (I u : List Nat) : ℚ :=
  ((pieces 0 u 256).map fun s => if 1 < s.card then levelEnergy I s else 0).sum

/-- The first of the cuts that are best when classes of one level count as nothing is, with every
threshold one level higher, best when they count. -/
def Favoured (Level : Nat) (I : List Nat) : Prop :=
  ∃ t, Cuts Level t ∧ (∀ u, Cuts Level u → tableScore I u ≤ tableScore I t) ∧
    (∀ u, Cuts Level u → u < t → tableScore I u < tableScore I t) ∧
    ∀ u, Cuts Level u → fullScore I u ≤ fullScore I (t.map (· + 1))

section Histogram

variable {I : List Nat}

theorem weight_nonneg (g : Nat) : 0 ≤ weight I g := by
  unfold weight
  positivity

theorem EightBit.least (eight : EightBit I) : I.min?.getD 0 = 0 := by
  obtain ⟨m, least⟩ := Option.isSome_iff_exists.mp (List.isSome_min?_of_mem eight.black)
  have below := (List.min?_eq_some_iff.mp least).2 0 eight.black
  rw [least]
  exact Nat.le_zero.mp below

theorem EightBit.greatest (eight : EightBit I) : I.max?.getD 0 = 255 := by
  obtain ⟨m, greatest⟩ := Option.isSome_iff_exists.mp (List.isSome_max?_of_mem eight.white)
  obtain ⟨member, above⟩ := List.max?_eq_some_iff.mp greatest
  have depth := eight.depth m member
  have reached := above 255 eight.white
  rw [greatest, Option.getD_some]
  omega

/-- Each level has its own bin. -/
theorem histBin_eq {v : Nat} (inside : v < 256) : histBin 0 255 256 v = v + 1 := by
  rw [histBin, Nat.ceilDiv_eq_add_pred_div]
  omega

theorem hist_eq (eight : EightBit I) (g : Nat) : hist I 256 (g + 1) = I.count g := by
  rw [hist, eight.least, eight.greatest, List.count]
  apply List.countP_congr
  intro v member
  rw [histBin_eq (eight.depth v member)]
  simp

theorem sum_count (depth : ∀ v ∈ I, v < 256) : ∑ g ∈ range 256, I.count g = I.length := by
  have counted := Multiset.sum_count_eq_card (s := range 256) (m := (I : Multiset Nat))
    (fun v member => mem_range.mpr (depth v (Multiset.mem_coe.mp member)))
  simpa using counted

theorem probability_eq (eight : EightBit I) (g : Nat) : probability I (g + 1) = weight I g := by
  have total : ∑ v ∈ range 256, hist I 256 (v + 1) = I.length := by
    rw [← sum_count eight.depth]
    apply sum_congr rfl
    intro v _
    exact hist_eq eight v
  rw [probability, weight, hist_eq eight, total]

end Histogram

section Tables

variable {I : List Nat} {p : Nat → ℚ}

theorem firstP_eq (v : Nat) : firstP p v = ∑ g ∈ range v, p (g + 1) := by
  induction v using firstP.induct with
  | case1 => rfl
  | case2 => simp [firstP]
  | case3 v ih => rw [firstP, ih, sum_range_succ _ (v + 1)]

theorem firstS_eq (v : Nat) : firstS p v = ∑ g ∈ range v, p (g + 1) * (g + 1) := by
  induction v using firstS.induct with
  | case1 => rfl
  | case2 => simp [firstS]
  | case3 v ih =>
      rw [firstS, ih, sum_range_succ _ (v + 1)]
      push_cast
      ring

/-- A difference of the first row is a sum, which is never negative. -/
theorem difference_eq {f : Nat → ℚ} (nonneg : ∀ g, 0 ≤ f g) {i j : Nat} (order : i ≤ j) :
    (if ∑ g ∈ range j, f g - ∑ g ∈ range i, f g < 0 then 0
      else ∑ g ∈ range j, f g - ∑ g ∈ range i, f g) = ∑ g ∈ Ico i j, f g := by
  rw [← sum_Ico_eq_sub f order, if_neg (sum_nonneg fun g _ => nonneg g).not_gt]

theorem P_eq (nonneg : ∀ g, 0 ≤ p (g + 1)) {i j : Nat} (order : i ≤ j) :
    P p (i + 1) j = mass (fun g => p (g + 1)) (Ico i j) := by
  rw [P, mass, Nat.add_sub_cancel]
  split
  · obtain rfl : i = 0 := by omega
    rw [firstP_eq, range_eq_Ico]
  · rw [firstP_eq, firstP_eq, difference_eq nonneg order]

theorem S_eq (nonneg : ∀ g, 0 ≤ p (g + 1)) {i j : Nat} (order : i ≤ j) :
    S p (i + 1) j = moment (fun g => p (g + 1)) (fun g => (g : ℚ) + 1) (Ico i j) := by
  rw [S, moment, Nat.add_sub_cancel]
  split
  · obtain rfl : i = 0 := by omega
    rw [firstS_eq, range_eq_Ico]
  · rw [firstS_eq, firstS_eq]
    exact difference_eq (fun g => mul_nonneg (nonneg g) (by positivity)) order

/-- The table holds the energy of the classes of two and more bins. -/
theorem H_eq (nonneg : ∀ g, 0 ≤ p (g + 1)) {i j : Nat} (order : i ≤ j) :
    H p (i + 1) j = if 1 < (Ico i j).card then
      energy (fun g => p (g + 1)) (fun g => (g : ℚ) + 1) (Ico i j) else 0 := by
  have wide : i + 1 < j ↔ 1 < (Ico i j).card := by
    rw [Nat.card_Ico]
    omega
  rw [H, P_eq nonneg order, S_eq nonneg order]
  simp only [wide]
  split
  · rw [energy, sq]
    split
    · rfl
    · rename_i light
      rw [not_not.mp light, div_zero]
  · rfl

/-- The score of some thresholds is the energy of their classes of two and more bins. -/
theorem sdev_eq (nonneg : ∀ g, 0 ≤ p (g + 1)) {index : List Nat} {low : Nat}
    (sorted : index.Pairwise (· < ·)) (bounds : ∀ t ∈ index, low ≤ t ∧ t ≤ 256) (inside : low ≤ 256) :
    sdev p (low + 1) index = ((pieces low index 256).map fun s => if 1 < s.card then
      energy (fun g => p (g + 1)) (fun g => (g : ℚ) + 1) s else 0).sum := by
  induction index generalizing low with
  | nil => rw [sdev, H_eq nonneg inside, pieces, List.map_singleton, List.sum_singleton]
  | cons i index ih =>
      obtain ⟨above, tail⟩ := List.pairwise_cons.mp sorted
      obtain ⟨order, high⟩ := bounds i List.mem_cons_self
      rw [sdev, H_eq nonneg order, pieces, List.map_cons, List.sum_cons, ih tail _ high]
      intro t member
      exact ⟨(above t member).le, (bounds t (List.mem_cons_of_mem i member)).2⟩

theorem sdev_tableScore (eight : EightBit I) {u : List Nat} (sorted : u.Pairwise (· < ·))
    (bounds : ∀ t ∈ u, t ≤ 256) : sdev (probability I) 1 u = tableScore I u := by
  have shares : (fun g => probability I (g + 1)) = weight I := funext (probability_eq eight)
  have nonneg : ∀ g, 0 ≤ probability I (g + 1) := by
    intro g
    rw [probability_eq eight]
    exact weight_nonneg g
  have scored := sdev_eq nonneg sorted (fun t member => ⟨Nat.zero_le t, bounds t member⟩)
    (Nat.zero_le 256)
  rw [shares] at scored
  exact scored

end Tables

section Search

/-- Increasing thresholds are no more than the levels they lie on. -/
theorem increasing_length {u : List Nat} (sorted : u.Pairwise (· < ·)) {low high : Nat}
    (bounds : ∀ t ∈ u, low < t ∧ t ≤ high) : u.length ≤ high - low := by
  have inside : u.toFinset ⊆ Ioc low high := by
    intro t member
    exact mem_Ioc.mpr (bounds t (List.mem_toFinset.mp member))
  have size := card_le_card inside
  rwa [List.toFinset_card_of_nodup (sorted.imp fun less => less.ne), Nat.card_Ioc] at size

/-- The loops reach the thresholds that increase and leave a bin to the last class. -/
theorem mem_thresholds {left previous : Nat} {u : List Nat} :
    u ∈ thresholds left previous ↔
      u.length = left ∧ u.Pairwise (· < ·) ∧ ∀ t ∈ u, previous < t ∧ t ≤ 255 := by
  induction left generalizing previous u with
  | zero =>
      rw [thresholds, List.mem_singleton, List.length_eq_zero_iff]
      constructor
      · rintro rfl
        simp
      · rintro ⟨empty, _⟩
        exact empty
  | succ left ih =>
      rw [thresholds, List.mem_flatMap]
      constructor
      · rintro ⟨i, inside, member⟩
        obtain ⟨rest, found, rfl⟩ := List.mem_map.mp member
        obtain ⟨length, sorted, bounds⟩ := ih.mp found
        rw [List.mem_range'_1] at inside
        refine ⟨by rw [List.length_cons, length], ?_, ?_⟩
        · exact List.pairwise_cons.mpr ⟨fun t more => (bounds t more).1, sorted⟩
        · intro t more
          rcases List.mem_cons.mp more with rfl | more
          · omega
          · have := bounds t more
            omega
      · rintro ⟨length, sorted, bounds⟩
        cases u with
        | nil => exact absurd length (by simp)
        | cons i rest =>
            obtain ⟨above, tail⟩ := List.pairwise_cons.mp sorted
            have first := bounds i List.mem_cons_self
            have room := increasing_length tail fun t more =>
              ⟨above t more, (bounds t (List.mem_cons_of_mem i more)).2⟩
            rw [List.length_cons, Nat.succ_inj] at length
            refine ⟨i, ?_, ?_⟩
            · rw [List.mem_range'_1]
              omega
            · apply List.mem_map_of_mem
              exact ih.mpr ⟨length, tail, fun t more =>
                ⟨above t more, (bounds t (List.mem_cons_of_mem i more)).2⟩⟩

/-- The loops take the thresholds in lexicographic order. -/
theorem pairwise_thresholds (left previous : Nat) :
    (thresholds left previous).Pairwise (· < ·) := by
  induction left generalizing previous with
  | zero => exact List.pairwise_singleton _ _
  | succ left ih =>
      rw [thresholds, List.pairwise_flatMap]
      constructor
      · intro i _
        apply List.Pairwise.map _ _ (ih i)
        intro u v less
        exact List.Lex.cons less
      · apply List.Pairwise.imp _ List.pairwise_lt_range'
        intro i j less u member v other
        obtain ⟨_, _, rfl⟩ := List.mem_map.mp member
        obtain ⟨_, _, rfl⟩ := List.mem_map.mp other
        exact List.Lex.rel less

theorem Cuts.mem_thresholds {Level : Nat} {u : List Nat} :
    u ∈ thresholds (Level - 1) 0 ∧ 1 ≤ Level ↔ Cuts Level u := by
  rw [MultiOtsuThreshold.mem_thresholds]
  constructor
  · rintro ⟨⟨length, sorted, bounds⟩, levels⟩
    exact ⟨by omega, sorted, fun t member => bounds t member⟩
  · rintro ⟨count, sorted, bounds⟩
    exact ⟨⟨by omega, sorted, fun t member => bounds t member⟩, by omega⟩

theorem tableScore_nonneg (I u : List Nat) : 0 ≤ tableScore I u := by
  apply List.sum_nonneg
  intro score member
  obtain ⟨s, _, rfl⟩ := List.mem_map.mp member
  split
  · exact energy_nonneg fun g _ => weight_nonneg g
  · exact le_rfl

/-- The search ends with the first of the cuts that score best. -/
theorem search_spec {I : List Nat} (eight : EightBit I) {Level : Nat} {some : List Nat}
    (possible : Cuts Level some) :
    Cuts Level (search (probability I) Level).2 ∧
      (∀ u, Cuts Level u → tableScore I u ≤ tableScore I (search (probability I) Level).2) ∧
        ∀ u, Cuts Level u → u < (search (probability I) Level).2 →
          tableScore I u < tableScore I (search (probability I) Level).2 := by
  have levels : 1 ≤ Level := possible.count ▸ Nat.le_add_left 1 _
  have scored : ∀ u, Cuts Level u → sdev (probability I) 1 u = tableScore I u := by
    intro u cuts
    apply sdev_tableScore eight cuts.sorted
    intro t member
    exact (cuts.bounds t member).2.trans (by decide)
  have cutting : ∀ u ∈ thresholds (Level - 1) 0, Cuts Level u :=
    fun u member => Cuts.mem_thresholds.mp ⟨member, levels⟩
  have low : ∀ u ∈ thresholds (Level - 1) 0, (-9999, ([] : List Nat)).1 < sdev (probability I) 1 u := by
    intro u member
    rw [scored u (cutting u member)]
    exact lt_of_lt_of_le (by norm_num) (tableScore_nonneg I u)
  obtain ⟨_, best⟩ := foldl_keep (pairwise_thresholds (Level - 1) 0) low
    (List.ne_nil_of_mem (Cuts.mem_thresholds.mpr possible).1)
  have found := cutting _ best.member
  refine ⟨found, ?_, ?_⟩
  · intro u cuts
    have most := best.most u (Cuts.mem_thresholds.mpr cuts).1
    rwa [scored u cuts, scored _ found] at most
  · intro u cuts earlier
    have first := best.first u (Cuts.mem_thresholds.mpr cuts).1 earlier
    rwa [scored u cuts, scored _ found] at first

end Search

section Labelling

variable {Level : Nat} {index : List Nat}

/-- A threshold lies below a level exactly when its number is less than the class of the level. -/
theorem getD_lt_iff (sorted : index.Pairwise (· < ·)) (level : Nat) {m : Nat}
    (inside : m < index.length) :
    index.getD m 0 < level ↔ m < classOf (index.map (· + 1)) level := by
  induction index generalizing m with
  | nil => exact absurd inside (Nat.not_lt_zero m)
  | cons i index ih =>
      obtain ⟨above, tail⟩ := List.pairwise_cons.mp sorted
      rw [classOf, List.map_cons, List.countP_cons]
      by_cases below : i + 1 ≤ level
      · rw [if_pos (decide_eq_true below)]
        cases m with
        | zero =>
            rw [List.getD_cons_zero]
            omega
        | succ m =>
            rw [List.getD_cons_succ, ih tail (Nat.lt_of_succ_lt_succ inside), classOf]
            omega
      · have none : (index.map (· + 1)).countP (· ≤ level) = 0 := by
          apply List.countP_eq_zero.mpr
          intro t member
          obtain ⟨j, inside, rfl⟩ := List.mem_map.mp member
          have := above j inside
          simp
          omega
        have beyond : i ≤ (i :: index).getD m 0 := by
          cases m with
          | zero => exact le_rfl
          | succ m =>
              have place := Nat.lt_of_succ_lt_succ inside
              rw [List.getD_cons_succ, List.getD_eq_getElem _ _ place]
              exact (above _ (List.getElem_mem place)).le
        rw [none, if_neg (by simpa using below)]
        omega

/-- After some classes a level has its label when it lies below one of their thresholds. -/
theorem foldl_relabel (sorted : index.Pairwise (· < ·)) (level : Nat) {done : Nat}
    (within : done ≤ index.length) :
    (List.range' 1 done).foldl (relabel index level) Level =
      if classOf (index.map (· + 1)) level < done then 1 + classOf (index.map (· + 1)) level
      else Level := by
  induction done with
  | zero => rfl
  | succ done ih =>
      have place : done < index.length := within
      have upper := getD_lt_iff sorted level place
      have own : (done + 1 = 1 ∨ level > index.getD (done + 1 - 2) 0) ∧
          level ≤ index.getD (done + 1 - 1) 0 ↔ classOf (index.map (· + 1)) level = done := by
        rw [Nat.add_sub_cancel]
        cases done with
        | zero => omega
        | succ done =>
            have lower := getD_lt_iff sorted level (Nat.lt_of_succ_lt place)
            rw [show done + 1 + 1 - 2 = done by omega]
            omega
      rw [List.range'_1_concat, List.foldl_append, ih place.le, List.foldl_cons, List.foldl_nil,
        relabel, Nat.add_comm 1 done]
      simp only [own]
      split
      · rw [if_pos (by omega)]
        omega
      · split <;> split <;> omega

/-- The label of a level is the class that starts behind a threshold. -/
theorem label_eq (levels : index.length + 1 = Level) (sorted : index.Pairwise (· < ·)) (level : Nat) :
    label Level index level = levelClass (index.map (· + 1)) level := by
  have most := classOf_le (index.map (· + 1)) level
  rw [List.length_map] at most
  rw [label, ← levels, Nat.add_sub_cancel, foldl_relabel sorted level le_rfl, levelClass]
  split <;> omega

end Labelling

section Variance

variable {I : List Nat} {Level : Nat}

theorem levelClass_mono (u : List Nat) : Monotone (levelClass u) :=
  fun _ _ below => Nat.add_le_add_left (classOf_mono u below) 1

theorem levelClass_mem {u : List Nat} (levels : u.length + 1 = Level) (g : Nat) :
    levelClass u g ∈ Icc 1 Level := by
  have most := classOf_le u g
  rw [levelClass, mem_Icc]
  omega

/-- The variance between the classes is their energy up to a constant. -/
theorem variance_eq {u : List Nat} (levels : u.length + 1 = Level) (sorted : u.Pairwise (· < ·))
    (bounds : ∀ t ∈ u, t ≤ 256) :
    variance Level I (levelClass u) = fullScore I u - levelEnergy I (range 256) := by
  have nonneg : ∀ g ∈ range 256, 0 ≤ weight I g := fun g _ => weight_nonneg g
  have classes := sum_classOf (levelEnergy I) sorted fun t member => ⟨Nat.zero_le t, bounds t member⟩
  rw [variance, ← betweenClass_shift nonneg _ _ 1,
    betweenClass_eq nonneg fun g _ => levelClass_mem levels g, fullScore, ← classes]
  congr 1
  have labels : Icc 1 Level = Ico (0 + 1) (u.length + 1 + 1) := by
    ext k
    rw [mem_Icc, mem_Ico]
    omega
  rw [labels, ← sum_Ico_add', range_eq_Ico, range_eq_Ico]
  apply sum_congr rfl
  intro k _
  rw [levelEnergy]
  congr 1
  apply filter_congr
  intro g _
  rw [levelClass, Nat.add_comm 1, Nat.succ_inj]

/-- A labelling of the pixels fixes the variance. -/
theorem variance_congr {c d : Nat → Nat} (same : I.map c = I.map d) :
    variance Level I c = variance Level I d := by
  apply betweenClass_congr
  intro g _ heavy
  have member : g ∈ I := by
    by_contra absent
    apply heavy
    rw [weight, List.count_eq_zero_of_not_mem absent, Nat.cast_zero, zero_div]
  exact List.map_inj_left.mp same g member

end Variance

section Optimum

variable {I : List Nat} {Level : Nat}

/-- The labelling is optimal exactly when the first best cut, one level higher, is best. -/
theorem optimal_multilevel_iff (eight : EightBit I) {some : List Nat} (possible : Cuts Level some) :
    Optimal Level I (multilevel Level I) ↔ Favoured Level I := by
  obtain ⟨cuts, most, first⟩ := search_spec eight possible
  have raised : ((search (probability I) Level).2.map (· + 1)).Pairwise (· < ·) :=
    cuts.sorted.map _ fun _ _ less => Nat.succ_lt_succ less
  have levels : ((search (probability I) Level).2.map (· + 1)).length + 1 = Level := by
    rw [List.length_map, cuts.count]
  have high : ∀ t ∈ (search (probability I) Level).2.map (· + 1), t ≤ 256 := by
    intro t member
    obtain ⟨i, inside, rfl⟩ := List.mem_map.mp member
    exact Nat.succ_le_succ (cuts.bounds i inside).2
  have labelled : multilevel Level I =
      I.map (levelClass ((search (probability I) Level).2.map (· + 1))) := by
    apply List.map_congr_left
    intro v _
    exact label_eq cuts.count cuts.sorted v
  have compared : ∀ u, Cuts Level u → (variance Level I (levelClass u) ≤
      variance Level I (levelClass ((search (probability I) Level).2.map (· + 1))) ↔
        fullScore I u ≤ fullScore I ((search (probability I) Level).2.map (· + 1))) := by
    intro u cut
    rw [variance_eq cut.count cut.sorted fun t member => (cut.bounds t member).2.trans (by decide),
      variance_eq levels raised high, sub_le_sub_iff_right]
  constructor
  · rintro ⟨c, _, _, same, best⟩
    refine ⟨_, cuts, most, first, ?_⟩
    intro u cut
    apply (compared u cut).mp
    rw [← variance_congr (same.symm.trans labelled)]
    exact best u cut
  · rintro ⟨t, cutsT, mostT, firstT, best⟩
    have same : t = (search (probability I) Level).2 := by
      rcases lt_trichotomy t (search (probability I) Level).2 with before | same | after
      · exact absurd (first t cutsT before) (mostT _ cuts).not_gt
      · exact same
      · exact absurd (firstT _ cuts after) (most t cutsT).not_gt
    rw [same] at best
    exact ⟨_, levelClass_mono _, levelClass_mem levels, labelled,
      fun u cut => (compared u cut).mpr (best u cut)⟩

end Optimum

section Examples

/-- Four pixels, two of them on neighbouring levels. -/
def fourLevels : List Nat := [0, 10, 11, 255]

theorem eightBit_fourLevels : EightBit fourLevels := ⟨by decide, by decide, by decide⟩

/-- The levels that have pixels, each with the square of its number. -/
def squares (low high : Nat) : ℚ := square (weight fourLevels) (fun g => (g : ℚ) + 1) (Ico low high)

theorem squares_add {low middle high : Nat} (first : low ≤ middle) (second : middle ≤ high) :
    squares low middle + squares middle high = squares low high :=
  sum_Ico_consecutive _ first second

theorem levelEnergy_le (low high : Nat) : levelEnergy fourLevels (Ico low high) ≤ squares low high :=
  energy_le_square fun g _ => weight_nonneg g

/-- A class that has two of the levels loses energy. -/
theorem levelEnergy_lt {low high g h : Nat} (first : low ≤ g) (order : g < h) (last : h < high)
    (one : g ∈ fourLevels) (other : h ∈ fourLevels) :
    levelEnergy fourLevels (Ico low high) < squares low high := by
  have heavy : ∀ v ∈ fourLevels, 0 < weight fourLevels v := by decide +kernel
  apply energy_lt_square (fun g _ => weight_nonneg g) (mem_Ico.mpr ⟨first, by omega⟩)
    (mem_Ico.mpr ⟨by omega, last⟩) _ (heavy g one) (heavy h other)
  intro same
  have equal : g = h := by exact_mod_cast add_right_cancel same
  omega

/-- What the table holds for some levels. -/
def tableEnergy (low high : Nat) : ℚ :=
  if 1 < (Ico low high).card then levelEnergy fourLevels (Ico low high) else 0

theorem tableEnergy_le (low high : Nat) :
    tableEnergy low high ≤ levelEnergy fourLevels (Ico low high) := by
  rw [tableEnergy]
  split
  · exact le_rfl
  · exact energy_nonneg fun g _ => weight_nonneg g

/-- Three thresholds that lose nothing keep all four levels apart. -/
theorem apart_of_full {a b c : Nat} {score : Nat → Nat → ℚ}
    (below : ∀ low high, score low high ≤ levelEnergy fourLevels (Ico low high))
    (second : a < b) (third : b < c) (last : c ≤ 256)
    (lossless : squares 0 256 ≤ score 0 a + score a b + score b c + score c 256) :
    squares 0 a ≤ score 0 a ∧ squares a b ≤ score a b ∧ squares b c ≤ score b c ∧
      squares c 256 ≤ score c 256 := by
  have parts : squares 0 a + squares a b + squares b c + squares c 256 = squares 0 256 := by
    rw [squares_add a.zero_le second.le, squares_add b.zero_le third.le, squares_add c.zero_le last]
  have one := (below 0 a).trans (levelEnergy_le 0 a)
  have two := (below a b).trans (levelEnergy_le a b)
  have three := (below b c).trans (levelEnergy_le b c)
  have four := (below c 256).trans (levelEnergy_le c 256)
  refine ⟨?_, ?_, ?_, ?_⟩ <;> linarith

end Examples

end CodeCollect.Otsu.MultiOtsuThreshold
