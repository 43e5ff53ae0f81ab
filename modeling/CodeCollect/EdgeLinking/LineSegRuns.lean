import CodeCollect.EdgeLinking.LineSeg

namespace CodeCollect.EdgeLinking.LineSeg

section Maximum

variable {K : Type} [LinearOrder K]

theorem foldl_max_spec (a : K) (d : List K) :
    d.foldl Max.max a ∈ a :: d ∧ ∀ b ∈ a :: d, b ≤ d.foldl Max.max a := by
  induction d generalizing a with
  | nil => simp
  | cons c d ih =>
      obtain ⟨member, above⟩ := ih (Max.max a c)
      rw [List.foldl_cons]
      constructor
      · rcases List.mem_cons.mp member with first | later
        · rw [first]
          rcases max_choice a c with left | right
          · rw [left]
            exact List.mem_cons_self
          · rw [right]
            exact List.mem_cons_of_mem a List.mem_cons_self
        · exact List.mem_cons_of_mem a (List.mem_cons_of_mem c later)
      · have top := above _ List.mem_cons_self
        intro b inside
        rcases List.mem_cons.mp inside with rfl | inside
        · exact (le_max_left _ _).trans top
        · rcases List.mem_cons.mp inside with rfl | later
          · exact (le_max_right _ _).trans top
          · exact above b (List.mem_cons_of_mem _ later)

/-- The greatest entry stands at its index, and no entry is greater. -/
theorem max_spec [Field K] {d : List K} (nonempty : d ≠ []) :
    (∃ place, (max d).2 = place + 1 ∧ d[place]? = some (max d).1) ∧ ∀ v ∈ d, v ≤ (max d).1 := by
  cases d with
  | nil => exact absurd rfl nonempty
  | cons a d =>
      obtain ⟨member, above⟩ := foldl_max_spec a d
      exact ⟨⟨_, rfl, List.getElem?_idxOf member⟩, above⟩

end Maximum

section Deviation

variable {K : Type} [Field K] [LinearOrder K] [IsStrictOrderedRing K]

/-- Different pixels are farther apart than the rounding unit. -/
theorem apart_iff (first last : Pixel) :
    ((first.2 : K) - last.2) ^ 2 + ((first.1 : K) - last.1) ^ 2 > eps ^ 2 ↔ first ≠ last := by
  have whole : ((first.2 : K) - last.2) ^ 2 + ((first.1 : K) - last.1) ^ 2 =
      (((first.2 - last.2) ^ 2 + (first.1 - last.1) ^ 2 : Int) : K) := by
    push_cast
    rfl
  have small : (eps : K) ^ 2 < 1 := by
    norm_num [eps]
  rw [whole]
  constructor
  · rintro far rfl
    rw [sub_self, sub_self] at far
    norm_num [eps] at far
  · intro differ
    have positive : 1 ≤ (first.2 - last.2) ^ 2 + (first.1 - last.1) ^ 2 := by
      by_contra zero
      apply differ
      have row : first.1 - last.1 = 0 := by nlinarith [sq_nonneg (first.2 - last.2), sq_nonneg (first.1 - last.1)]
      have col : first.2 - last.2 = 0 := by nlinarith [sq_nonneg (first.2 - last.2), sq_nonneg (first.1 - last.1)]
      exact Prod.ext (by omega) (by omega)
    exact small.trans_le (by exact_mod_cast positive)

theorem deviation_of_apart {first last : Pixel} (differ : first ≠ last) (p : Pixel) :
    (deviation first last p : K) =
      ((p.2 : K) * (first.1 - last.1) + p.1 * (last.2 - first.2) + (last.1 * first.2 - first.1 * last.2)) ^ 2 /
        (((first.2 : K) - last.2) ^ 2 + ((first.1 : K) - last.1) ^ 2) :=
  if_pos ((apart_iff first last).mpr differ)

theorem deviation_of_same (first p : Pixel) :
    (deviation first first p : K) = ((p.2 : K) - first.2) ^ 2 + ((p.1 : K) - first.1) ^ 2 :=
  if_neg fun far => (apart_iff first first).mp far rfl

/-- The ends of a contour do not deviate. -/
theorem deviation_first (first last : Pixel) : (deviation first last first : K) = 0 := by
  rcases eq_or_ne first last with rfl | differ
  · simp [deviation_of_same]
  · rw [deviation_of_apart differ, div_eq_zero_iff, sq_eq_zero_iff]
    left
    ring

theorem deviation_last (first last : Pixel) : (deviation first last last : K) = 0 := by
  rcases eq_or_ne first last with rfl | differ
  · simp [deviation_of_same]
  · rw [deviation_of_apart differ, div_eq_zero_iff, sq_eq_zero_iff]
    left
    ring

end Deviation

section Windows

variable {K : Type} [Field K] [LinearOrder K] {edge : List Pixel} {fst lst : Nat}

/-- A window lists the pixels of its indices. -/
theorem window_eq (first : 1 ≤ fst) (order : fst ≤ lst) (inside : lst ≤ edge.length) :
    window edge fst lst = (List.range (lst + 1 - fst)).map fun k => pixel edge (fst + k) := by
  apply List.ext_getElem
  · simp [window]
    omega
  · intro k before after
    simp only [window, List.getElem_drop, List.getElem_take, List.getElem_map, List.getElem_range, pixel]
    have place : fst + k - 1 < edge.length := by
      simp [window] at before
      omega
    rw [List.getD_eq_getElem _ _ place]
    congr 1
    omega

/-- What the deviations of a window of two and more pixels are, and where the greatest one stands. -/
theorem maxlinedev_window (first : 1 ≤ fst) (order : fst < lst) (inside : lst ≤ edge.length) :
    ∃ m i, (maxlinedev (window edge fst lst) : Option (K × Nat)) = some (m, i) ∧
      (∀ c, fst ≤ c → c ≤ lst → deviation (pixel edge fst) (pixel edge lst) (pixel edge c) ≤ m) ∧
      ∃ c, fst ≤ c ∧ c ≤ lst ∧ i + fst - 1 = c ∧
        deviation (pixel edge fst) (pixel edge lst) (pixel edge c) = m := by
  obtain ⟨n, rfl⟩ := Nat.exists_eq_add_of_lt order
  have listed := window_eq first order.le inside
  have size : fst + n + 1 + 1 - fst = n + 2 := by omega
  rw [size] at listed
  have start : List.range (n + 2) = 0 :: 1 :: (List.range n).map (· + 2) := by
    rw [List.range_succ_eq_map, List.range_succ_eq_map]
    simp [Function.comp_def]
  have last : (window edge fst (fst + n + 1)).getLastD (pixel edge fst) = pixel edge (fst + n + 1) := by
    rw [listed, List.range_succ, List.map_append, List.map_singleton, List.getLastD_concat]
    rfl
  have ran : (maxlinedev (window edge fst (fst + n + 1)) : Option (K × Nat)) =
      some (max ((window edge fst (fst + n + 1)).map
        (deviation (pixel edge fst) (pixel edge (fst + n + 1))))) := by
    rw [← last, listed, start]
    rfl
  have nonempty : (window edge fst (fst + n + 1)).map
      (deviation (pixel edge fst) (pixel edge (fst + n + 1)) : Pixel → K) ≠ [] := by
    rw [listed, start]
    simp
  have spec := max_spec nonempty
  generalize max ((window edge fst (fst + n + 1)).map
    (deviation (pixel edge fst) (pixel edge (fst + n + 1)) : Pixel → K)) = dev at ran spec
  obtain ⟨m, i⟩ := dev
  obtain ⟨⟨place, index, stands⟩, above⟩ := spec
  refine ⟨_, _, ran, ?_, fst + place, Nat.le_add_right fst place, ?_, ?_, ?_⟩
  · intro c low high
    apply above
    rw [listed, List.map_map]
    exact List.mem_map.mpr ⟨c - fst, List.mem_range.mpr (by omega), by
      simp [Nat.add_sub_cancel' low]⟩
  · have inRange := (List.getElem?_eq_some_iff.mp stands).1
    rw [List.length_map, listed, List.length_map, List.length_range] at inRange
    omega
  · dsimp only at index
    omega
  · obtain ⟨inRange, value⟩ := List.getElem?_eq_some_iff.mp stands
    simp only [listed, List.getElem_map, List.getElem_range] at value
    exact value

end Windows

section Loops

variable {K : Type} [Field K] [LinearOrder K] (edge : List Pixel) (tol : K)

/-- The loops come to these windows. -/
inductive Reached : Nat → Nat → Prop
  | start : 1 < edge.length → Reached 1 edge.length
  | shorter {a b i : Nat} {m : K} : Reached a b → maxlinedev (window edge a b) = some (m, i) →
      m > tol ^ 2 → Reached a (i + a - 1)
  | next {a b i : Nat} {m : K} : Reached a b → maxlinedev (window edge a b) = some (m, i) →
      ¬ m > tol ^ 2 → b < edge.length → Reached b edge.length

/-- The loops come to a window that deviates no more than allowed. -/
def Accepted (a b : Nat) : Prop :=
  Reached edge tol a b ∧
    ∃ m i, (maxlinedev (window edge a b) : Option (K × Nat)) = some (m, i) ∧ ¬ m > tol ^ 2

/-- The inner loop shortens a window to this end. -/
def Settles (a b e : Nat) : Prop :=
  ∃ fuel dev, maxlinedev (window edge a b) = some dev ∧ shorten edge tol a fuel b dev = some e

/-- The outer loop keeps these indices behind one. -/
inductive Breaks : Nat → List Nat → Prop
  | done : Breaks edge.length []
  | next {fst lst : Nat} {more : List Nat} : fst < lst → lst ≤ edge.length →
      Settles edge tol fst edge.length lst → Breaks lst more → Breaks fst (lst :: more)

variable {edge tol}

theorem shorten_of_large {a fuel b i : Nat} {m : K} (large : m > tol ^ 2) :
    shorten edge tol a (fuel + 1) b (m, i) =
      (maxlinedev (window edge a (i + a - 1))).bind (shorten edge tol a fuel (i + a - 1)) :=
  if_pos large

theorem shorten_of_small {a fuel b i : Nat} {m : K} (small : ¬ m > tol ^ 2) :
    shorten edge tol a (fuel + 1) b (m, i) = some b :=
  if_neg small

/-- More fuel does not change what the inner loop finds. -/
theorem shorten_mono {a fuel b e : Nat} {dev : K × Nat} (found : shorten edge tol a fuel b dev = some e)
    (more : Nat) : shorten edge tol a (fuel + more) b dev = some e := by
  induction fuel generalizing b dev with
  | zero => exact absurd found nofun
  | succ fuel ih =>
      obtain ⟨m, i⟩ := dev
      rw [Nat.add_right_comm]
      by_cases large : m > tol ^ 2
      · rw [shorten_of_large large] at found ⊢
        obtain ⟨dev, measured, found⟩ := Option.bind_eq_some_iff.mp found
        exact Option.bind_eq_some_iff.mpr ⟨dev, measured, ih found⟩
      · rw [shorten_of_small large] at found ⊢
        exact found

/-- A window settles in one way only. -/
theorem Settles.unique {a b e other : Nat} (one : Settles edge tol a b e)
    (also : Settles edge tol a b other) : e = other := by
  obtain ⟨fuel, dev, measured, found⟩ := one
  obtain ⟨fuel', dev', measured', found'⟩ := also
  obtain rfl := Option.some.inj (measured.symm.trans measured')
  have first := shorten_mono found fuel'
  have second := shorten_mono found' fuel
  rw [Nat.add_comm] at second
  exact Option.some.inj (first.symm.trans second)

theorem Settles.of_shorter {a b i e : Nat} {m : K}
    (measured : maxlinedev (window edge a b) = some (m, i)) (large : m > tol ^ 2)
    (settles : Settles edge tol a (i + a - 1) e) : Settles edge tol a b e := by
  obtain ⟨fuel, dev, next, found⟩ := settles
  refine ⟨fuel + 1, _, measured, ?_⟩
  rw [shorten_of_large large, next]
  exact found

theorem Settles.of_small {a b i : Nat} {m : K}
    (measured : maxlinedev (window edge a b) = some (m, i)) (small : ¬ m > tol ^ 2) :
    Settles edge tol a b b :=
  ⟨1, _, measured, shorten_of_small small⟩

/-- The outer loop keeps one list of indices only. -/
theorem Breaks.unique {fst : Nat} {more other : List Nat} (breaks : Breaks edge tol fst more)
    (also : Breaks edge tol fst other) : more = other := by
  induction breaks generalizing other with
  | done =>
      cases also with
      | done => rfl
      | next low high _ _ => exact absurd low high.not_gt
  | next low high settles _ ih =>
      cases also with
      | done => exact absurd low high.not_gt
      | next _ _ settles' rest =>
          obtain rfl := settles.unique settles'
          rw [ih rest]

theorem measured_exists {a b : Nat} (first : 1 ≤ a) (order : a < b) (inside : b ≤ edge.length) :
    ∃ dev : K × Nat, maxlinedev (window edge a b) = some dev := by
  obtain ⟨m, i, measured, _⟩ := maxlinedev_window (K := K) first order inside
  exact ⟨(m, i), measured⟩

variable [IsStrictOrderedRing K]

/-- The greatest deviation of a window that deviates too much stands strictly inside. -/
theorem inside_of_large {a b i : Nat} {m : K} (first : 1 ≤ a) (order : a < b)
    (inside : b ≤ edge.length) (measured : maxlinedev (window edge a b) = some (m, i))
    (large : m > tol ^ 2) : a < i + a - 1 ∧ i + a - 1 < b := by
  obtain ⟨_, _, measured', _, c, low, high, rfl, stands⟩ := maxlinedev_window (K := K) first order inside
  obtain ⟨rfl, rfl⟩ := Prod.mk.inj (Option.some.inj (measured.symm.trans measured'))
  have positive : 0 < m := (sq_nonneg tol).trans_lt large
  have notFirst : i + a - 1 ≠ a := by
    intro same
    rw [same, deviation_first] at stands
    exact positive.ne stands
  have notLast : i + a - 1 ≠ b := by
    intro same
    rw [same, deviation_last] at stands
    exact positive.ne stands
  omega

variable (tol)

/-- The inner loop ends, and leaves a window of two and more pixels. -/
theorem shorten_total {a : Nat} (first : 1 ≤ a) {fuel b : Nat} {dev : K × Nat} (order : a < b)
    (inside : b ≤ edge.length) (measured : maxlinedev (window edge a b) = some dev)
    (enough : b ≤ a + fuel) :
    ∃ e, shorten edge tol a fuel b dev = some e ∧ a < e ∧ e ≤ edge.length := by
  induction fuel generalizing b dev with
  | zero => exact absurd enough order.not_ge
  | succ fuel ih =>
      obtain ⟨m, i⟩ := dev
      by_cases large : m > tol ^ 2
      · obtain ⟨low, high⟩ := inside_of_large first order inside measured large
        obtain ⟨dev, next⟩ := measured_exists (K := K) first low (high.le.trans inside)
        obtain ⟨e, found, bounds⟩ := ih low (high.le.trans inside) next (by omega)
        refine ⟨e, ?_, bounds⟩
        rw [shorten_of_large large, next]
        exact found
      · exact ⟨b, shorten_of_small large, order, inside⟩

/-- The outer loop ends. -/
theorem breaks_total {fuel fst : Nat} (kept : List Nat) (first : 1 ≤ fst) (inside : fst ≤ edge.length)
    (enough : edge.length + 2 ≤ fst + fuel) :
    ∃ more, breaks edge tol fuel fst kept = some (kept ++ more) ∧ Breaks edge tol fst more := by
  induction fuel generalizing fst kept with
  | zero => omega
  | succ fuel ih =>
      rw [breaks]
      by_cases further : fst < edge.length
      · obtain ⟨dev, measured⟩ := measured_exists (K := K) first further le_rfl
        obtain ⟨lst, found, low, high⟩ := shorten_total tol first further le_rfl measured
          (show edge.length ≤ fst + fuel by omega)
        obtain ⟨more, ran, breaks⟩ := ih (kept ++ [lst]) (by omega) high (by omega)
        refine ⟨lst :: more, ?_, .next low high ⟨fuel, dev, measured, found⟩ breaks⟩
        rw [if_pos further, measured, Option.bind_some, found, Option.bind_some, ran,
          List.append_assoc]
        rfl
      · obtain rfl : fst = edge.length := by omega
        exact ⟨[], by rw [if_neg further, List.append_nil], .done⟩

theorem indices_total (nonempty : edge ≠ []) :
    ∃ more, Breaks edge tol 1 more ∧
      ∀ fuel, edge.length + 1 ≤ fuel → indices fuel tol edge = some (1 :: more) := by
  have inside : 1 ≤ edge.length := List.length_pos_iff.mpr nonempty
  obtain ⟨more, _, breaks⟩ := breaks_total tol [1] le_rfl inside
    (show edge.length + 2 ≤ 1 + (edge.length + 1) by omega)
  refine ⟨more, breaks, ?_⟩
  intro fuel enough
  obtain ⟨other, ran, also⟩ := breaks_total tol [1] le_rfl inside
    (show edge.length + 2 ≤ 1 + fuel by omega)
  rw [indices, if_neg nonempty, ran, also.unique breaks]
  rfl

end Loops

end CodeCollect.EdgeLinking.LineSeg
