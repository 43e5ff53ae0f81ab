import Mathlib
import CodeCollect.Library.CheckedBuffer

namespace CodeCollect.OpenPano

open CodeCollect.Library

namespace GaussianBlur

/-- An image has one channel and is kept row by row. -/
structure Mat (T : Type) where
  rows : Nat
  cols : Nat
  data : Buffer (rows * cols) T

def Mat.at {T : Type} (mat : Mat T) (r c : Nat) : T := mat.data.cell ↑(r * mat.cols + c)

/-- The width of the kernel is odd, and `kernel` points to its middle. -/
structure GaussCache (K : Type) where
  kw : Nat
  odd : kw % 2 = 1
  kernel_buf : Buffer kw K

namespace GaussCache

variable {K : Type} (gcache : GaussCache K)

def center : Nat := gcache.kw / 2

def weight (k : Int) : K := gcache.kernel_buf.cell (gcache.center + k)

def kernel (k : Int) : Option K := gcache.kernel_buf.load (gcache.center + k)

end GaussCache

section Blur

variable {K T : Type} {size srcSize destSize : Nat}

/-- The line starts behind the `center` cells of its padding. -/
def copy (center n : Nat) (src : Buffer srcSize T) (place : Nat → Nat)
    (cur_line : Buffer size T) : Option (Buffer size T) :=
  (List.range n).foldlM (fun cur_line i => do
    cur_line.store (center + i) (← src.load (place i))) cur_line

/-- The border is padded with the border values. -/
def pad (center n : Nat) (cur_line : Buffer size T) : Option (Buffer size T) := do
  let v0 ← cur_line.load (center + (0 : Nat))
  let cur_line ← (List.range center).foldlM (fun cur_line i =>
    cur_line.store (center - (i + 1 : Nat)) v0) cur_line
  let v0 ← cur_line.load (center + (n - 1 : Int))
  (List.range center).foldlM (fun cur_line i => cur_line.store (center + (n + i : Nat)) v0) cur_line

section Arithmetic

variable [Semiring K] [AddCommMonoid T] [Module K T] (gcache : GaussCache K)

/-- The sum at a place of the line. -/
def convolve (cur_line : Buffer size T) (i : Nat) : Option T :=
  (List.range (2 * gcache.center + 1)).foldlM (fun tmp (step : Nat) => do
    let k : Int := step - gcache.center
    let value ← cur_line.load (gcache.center + (i + k))
    return tmp + (← gcache.kernel k) • value) 0

/-- What is done with a column is done with a row, too. -/
def blur_line (n : Nat) (src : Buffer srcSize T) (place : Nat → Nat)
    (buffers : Buffer size T × Buffer destSize T) : Option (Buffer size T × Buffer destSize T) := do
  let cur_line ← copy gcache.center n src place buffers.1
  let cur_line ← pad gcache.center n cur_line
  let dest ← (List.range n).foldlM (fun dest i => do
    dest.store (place i) (← convolve gcache cur_line i)) buffers.2
  return (cur_line, dest)

variable (img : Mat T)

/-- The scratch line and the image that is returned. -/
abbrev Buffers : Type :=
  Buffer (2 * gcache.center + max img.cols img.rows) T × Buffer (img.rows * img.cols) T

def blur_column (buffers : Buffers gcache img) (j : Nat) : Option (Buffers gcache img) :=
  blur_line gcache img.rows img.data (fun i => i * img.cols + j) buffers

/-- The rows are those that the columns have left. -/
def blur_row (buffers : Buffers gcache img) (i : Nat) : Option (Buffers gcache img) :=
  blur_line gcache img.cols buffers.2 (fun j => i * img.cols + j) buffers

/-- The memory of the new image is not initialised. -/
def blur (uninitialised : Int → T) : Option (Mat T) := do
  let buffers ← (List.range img.cols).foldlM (blur_column gcache img) (⟨fun _ => 0⟩, ⟨uninitialised⟩)
  let buffers ← (List.range img.rows).foldlM (blur_row gcache img) buffers
  return ⟨img.rows, img.cols, buffers.2⟩

end Arithmetic

end Blur

/-- The place of a line that is closest to an integer. -/
def clamp (n : Nat) (x : Int) : Nat := (max 0 (min x (n - 1))).toNat

section Line

variable {K T : Type} {size srcSize destSize center n : Nat}

theorem clamp_lt (positive : 1 ≤ n) (x : Int) : clamp n x < n := by
  rw [clamp]
  omega

theorem copy_spec (src : Buffer srcSize T) {place : Nat → Nat} (cur_line : Buffer size T)
    (fits : center + n ≤ size) (inside : ∀ i < n, place i < srcSize) :
    ∃ line, copy center n src place cur_line = some line ∧
      ∀ i < n, line.cell (center + i : Nat) = src.cell (place i) := by
  obtain ⟨line, copied, cells, -⟩ : ∃ line, copy center n src place cur_line = some line ∧
      (∀ i < n, line.cell (center + i : Nat) = src.cell (place i)) ∧
        ∀ x : Int, (∀ i < n, x ≠ (center + i : Nat)) → line.cell x = cur_line.cell x := by
    apply Buffer.stores (fun i => (center + i : Nat)) (fun i => src.cell (place i))
    · intro i less
      constructor <;> omega
    · intro i _ j _ same
      omega
    · intro i less now
      rw [src.load_of_inside ⟨Int.natCast_nonneg _, Int.ofNat_lt.mpr (inside i less)⟩]
      rfl
  exact ⟨line, copied, cells⟩

/-- The padded line holds the closest value of the line at each place. -/
theorem pad_spec (cur_line : Buffer size T) (positive : 1 ≤ n) (fits : 2 * center + n ≤ size) :
    ∃ line, pad center n cur_line = some line ∧
      ∀ x : Int, -center ≤ x → x < n + center →
        line.cell (center + x) = cur_line.cell (center + clamp n x : Nat) := by
  obtain ⟨left, padded, below, kept⟩ : ∃ left, (List.range center).foldlM (fun line i =>
        line.store (center - (i + 1 : Nat)) (cur_line.cell (center + (0 : Nat)))) cur_line = some left ∧
      (∀ i < center, left.cell (center - (i + 1 : Nat)) = cur_line.cell (center + (0 : Nat))) ∧
        ∀ x : Int, (∀ i < center, x ≠ center - (i + 1 : Nat)) → left.cell x = cur_line.cell x := by
    apply Buffer.stores (fun i => center - (i + 1 : Nat)) (fun _ => cur_line.cell (center + (0 : Nat)))
    · intro i less
      constructor <;> omega
    · intro i _ j _ same
      omega
    · exact fun _ _ _ => rfl
  obtain ⟨line, again, above, rest⟩ : ∃ line, (List.range center).foldlM (fun line i =>
        line.store (center + (n + i : Nat)) (left.cell (center + (n - 1 : Int)))) left = some line ∧
      (∀ i < center, line.cell (center + (n + i : Nat)) = left.cell (center + (n - 1 : Int))) ∧
        ∀ x : Int, (∀ i < center, x ≠ center + (n + i : Nat)) → line.cell x = left.cell x := by
    apply Buffer.stores (fun i => center + (n + i : Nat)) (fun _ => left.cell (center + (n - 1 : Int)))
    · intro i less
      constructor <;> omega
    · intro i _ j _ same
      omega
    · exact fun _ _ _ => rfl
  refine ⟨line, ?_, fun x lower upper => ?_⟩
  · rw [pad, cur_line.load_of_inside (by constructor <;> omega)]
    simp only [Option.bind_eq_bind, Option.bind_some, padded]
    rw [left.load_of_inside (by constructor <;> omega)]
    exact again
  · by_cases before : x < 0
    · have first := below (-x - 1).toNat (by omega)
      have place : (center : Int) + x = center - ((-x - 1).toNat + 1 : Nat) := by omega
      have start : clamp n x = 0 := by
        rw [clamp]
        omega
      rw [rest _ fun i _ => by omega, place, first, start]
      rfl
    · by_cases behind : n ≤ x
      · have last := above (x - n).toNat (by omega)
        have place : (center : Int) + x = center + (n + (x - n).toNat : Nat) := by omega
        have finish : (center : Int) + (n - 1 : Int) = (center + clamp n x : Nat) := by
          rw [clamp]
          omega
        rw [place, last, kept _ fun i _ => by omega, finish]
      · have same : (center : Int) + x = (center + clamp n x : Nat) := by
          rw [clamp]
          omega
        rw [rest _ fun i _ => by omega, kept _ fun i _ => by omega, same]

end Line

section Sums

variable {K T : Type} {size srcSize destSize : Nat}

theorem sum_centered [AddCommMonoid T] (center : Nat) (term : Int → T) :
    ∑ step ∈ Finset.range (2 * center + 1), term (step - center) =
      ∑ k ∈ Finset.Icc (-center : Int) center, term k := by
  have taps : ((center : Int) + 1 - -center).toNat = 2 * center + 1 := by omega
  rw [Int.Icc_eq_finset_map, Finset.sum_map, taps]
  refine Finset.sum_congr rfl fun step _ => congrArg term ?_
  exact (sub_eq_neg_add ..)

variable [Semiring K] [AddCommMonoid T] [Module K T] (gcache : GaussCache K)

theorem convolve_spec (cur_line : Buffer size T) {i : Nat}
    (fits : i + 2 * gcache.center < size) :
    convolve gcache cur_line i = some (∑ k ∈ Finset.Icc (-gcache.center : Int) gcache.center,
      gcache.weight k • cur_line.cell (gcache.center + (i + k))) := by
  have width : 2 * gcache.center + 1 = gcache.kw := by
    have odd := gcache.odd
    rw [GaussCache.center]
    omega
  obtain ⟨total, summed, rfl⟩ : ∃ total, convolve gcache cur_line i = some total ∧
      total = ∑ step ∈ Finset.range (2 * gcache.center + 1), gcache.weight (step - gcache.center) •
        cur_line.cell (gcache.center + (i + (step - gcache.center))) := by
    rw [convolve]
    apply Sweep.counted fun (done : Nat) (tmp : T) => tmp = ∑ step ∈ Finset.range done,
      gcache.weight (step - gcache.center) •
        cur_line.cell (gcache.center + (i + (step - gcache.center)))
    · rw [Finset.sum_range_zero]
    · rintro step fewer tmp rfl
      refine ⟨_, ?_, (Finset.sum_range_succ ..).symm⟩
      dsimp only
      rw [cur_line.load_of_inside (by constructor <;> omega), GaussCache.kernel,
        gcache.kernel_buf.load_of_inside (by constructor <;> omega)]
      rfl
  rw [summed, sum_centered gcache.center fun k =>
    gcache.weight k • cur_line.cell (gcache.center + (i + k))]

/-- A line of the target gets the sums of the line of the source, and the other places keep what they
have. -/
theorem blur_line_spec {n : Nat} (src : Buffer srcSize T) {place : Nat → Nat}
    (buffers : Buffer size T × Buffer destSize T) (positive : 1 ≤ n)
    (fits : 2 * gcache.center + n ≤ size) (reads : ∀ i < n, place i < srcSize)
    (writes : ∀ i < n, place i < destSize) (differ : ∀ i < n, ∀ j < n, place i = place j → i = j) :
    ∃ after, blur_line gcache n src place buffers = some after ∧
      (∀ i < n, after.2.cell (place i) = ∑ k ∈ Finset.Icc (-gcache.center : Int) gcache.center,
        gcache.weight k • src.cell (place (clamp n (i + k)))) ∧
      ∀ x : Nat, (∀ i < n, x ≠ place i) → after.2.cell x = buffers.2.cell x := by
  obtain ⟨copied, copies, payload⟩ := copy_spec src buffers.1
    ((Nat.add_le_add_right (Nat.le_mul_of_pos_left gcache.center two_pos) n).trans fits) reads
  obtain ⟨padded, pads, closest⟩ := pad_spec copied positive fits
  have sums : ∀ i < n, convolve gcache padded i =
      some (∑ k ∈ Finset.Icc (-gcache.center : Int) gcache.center,
        gcache.weight k • src.cell (place (clamp n (i + k)))) := by
    intro i less
    rw [convolve_spec gcache padded (by omega)]
    refine congrArg some (Finset.sum_congr rfl fun k member => ?_)
    obtain ⟨lower, upper⟩ := Finset.mem_Icc.mp member
    rw [closest _ (by omega) (by omega), payload _ (clamp_lt positive _)]
  obtain ⟨dest, stored, written, kept⟩ : ∃ dest, (List.range n).foldlM (fun dest i => do
        dest.store (place i) (← convolve gcache padded i)) buffers.2 = some dest ∧
      (∀ i < n, dest.cell (place i) = ∑ k ∈ Finset.Icc (-gcache.center : Int) gcache.center,
        gcache.weight k • src.cell (place (clamp n (i + k)))) ∧
      ∀ x : Int, (∀ i < n, x ≠ place i) → dest.cell x = buffers.2.cell x := by
    apply Buffer.stores (fun i => place i) fun i =>
      ∑ k ∈ Finset.Icc (-gcache.center : Int) gcache.center,
        gcache.weight k • src.cell (place (clamp n (i + k)))
    · intro i less
      exact ⟨Int.natCast_nonneg _, Int.ofNat_lt.mpr (writes i less)⟩
    · intro i less j fewer same
      exact differ i less j fewer (Int.ofNat_inj.mp same)
    · intro i less now
      rw [sums i less]
      rfl
  refine ⟨(padded, dest), ?_, written, fun x apart => kept x fun i less same => ?_⟩
  · rw [blur_line, copies]
    simp only [Option.bind_eq_bind, Option.bind_some, pads, Option.pure_def] at stored ⊢
    rw [stored]
    rfl
  · exact apart i less (Int.ofNat_inj.mp same)

end Sums

section Passes

variable {K T : Type} [Semiring K] [AddCommMonoid T] [Module K T] (gcache : GaussCache K)
  (img : Mat T)

/-- What the pass over the columns leaves at a place. -/
noncomputable def columnSum (i j : Nat) : T :=
  ∑ k ∈ Finset.Icc (-gcache.center : Int) gcache.center,
    gcache.weight k • img.at (clamp img.rows (i + k)) j

theorem columns_spec (rows : 1 ≤ img.rows) (buffers : Buffers gcache img) :
    ∃ after, (List.range img.cols).foldlM (blur_column gcache img) buffers = some after ∧
      ∀ j < img.cols, ∀ i < img.rows,
        after.2.cell (i * img.cols + j : Nat) = columnSum gcache img i j := by
  apply Sweep.counted fun (done : Nat) (now : Buffers gcache img) => ∀ j < done, ∀ i < img.rows,
    now.2.cell (i * img.cols + j : Nat) = columnSum gcache img i j
  · exact fun _ none => absurd none (Nat.not_lt_zero _)
  · intro j column now before
    obtain ⟨after, blurred, sums, kept⟩ := blur_line_spec gcache img.data now rows
      (Nat.add_le_add_left (le_max_right img.cols img.rows) _) (fun i row => Sweep.place_lt row column)
      (fun i row => Sweep.place_lt row column)
      fun i _ other _ same => (Sweep.place_inj column column same).1
    refine ⟨after, blurred, fun col done i row => ?_⟩
    by_cases same : col = j
    · rw [same, sums i row]
      rfl
    · rw [kept _ fun other _ place => same (Sweep.place_inj (by omega) column place).2]
      exact before col (by omega) i row

theorem rows_spec (cols : 1 ≤ img.cols) (buffers : Buffers gcache img) {value : Nat → Nat → T}
    (start : ∀ j < img.cols, ∀ i < img.rows,
      buffers.2.cell (i * img.cols + j : Nat) = value i j) :
    ∃ after, (List.range img.rows).foldlM (blur_row gcache img) buffers = some after ∧
      ∀ i < img.rows, ∀ j < img.cols, after.2.cell (i * img.cols + j : Nat) =
        ∑ l ∈ Finset.Icc (-gcache.center : Int) gcache.center,
          gcache.weight l • value i (clamp img.cols (j + l)) := by
  obtain ⟨after, blurred, sums, -⟩ : ∃ after,
      (List.range img.rows).foldlM (blur_row gcache img) buffers = some after ∧
      (∀ i < img.rows, ∀ j < img.cols, after.2.cell (i * img.cols + j : Nat) =
        ∑ l ∈ Finset.Icc (-gcache.center : Int) gcache.center,
          gcache.weight l • value i (clamp img.cols (j + l))) ∧
      ∀ i < img.rows, img.rows ≤ i → ∀ j < img.cols,
        after.2.cell (i * img.cols + j : Nat) = value i j := by
    apply Sweep.counted fun (done : Nat) (now : Buffers gcache img) =>
      (∀ i < done, ∀ j < img.cols, now.2.cell (i * img.cols + j : Nat) =
        ∑ l ∈ Finset.Icc (-gcache.center : Int) gcache.center,
          gcache.weight l • value i (clamp img.cols (j + l))) ∧
      ∀ i < img.rows, done ≤ i → ∀ j < img.cols,
        now.2.cell (i * img.cols + j : Nat) = value i j
    · exact ⟨fun _ none => absurd none (Nat.not_lt_zero _),
        fun i row _ j column => start j column i row⟩
    · rintro i row now ⟨done, rest⟩
      obtain ⟨after, blurred, sums, kept⟩ := blur_line_spec gcache now.2 now cols
        (Nat.add_le_add_left (le_max_left img.cols img.rows) _) (fun j column => Sweep.place_lt row column)
        (fun j column => Sweep.place_lt row column)
        fun j column other beside same => (Sweep.place_inj column beside same).2
      have apart : ∀ r ≠ i, ∀ j < img.cols, after.2.cell (r * img.cols + j : Nat) =
          now.2.cell (r * img.cols + j : Nat) := fun r differ j column =>
        kept _ fun other beside place => differ (Sweep.place_inj column beside place).1
      refine ⟨after, blurred, fun r before j column => ?_, fun r inside later j column => ?_⟩
      · by_cases same : r = i
        · rw [same, sums j column]
          exact Finset.sum_congr rfl fun l _ =>
            congrArg _ (rest i row le_rfl _ (clamp_lt cols _))
        · rw [apart r same j column]
          exact done r (by omega) j column
      · rw [apart r (by omega) j column]
        exact rest r inside (by omega) j column
  exact ⟨after, blurred, sums⟩

end Passes

section Convolution

variable {K T : Type} [CommSemiring K] [AddCommMonoid T] [Module K T]

/-- The blur never leaves its buffers, and each pixel of the result is the sum over the square of
the kernel around it, whose places outside the image are those closest to it. -/
theorem blur_convolves (gcache : GaussCache K) (img : Mat T) (uninitialised : Int → T)
    (rows : 1 ≤ img.rows) (cols : 1 ≤ img.cols) :
    ∃ ret, blur gcache img uninitialised = some ret ∧ ret.rows = img.rows ∧ ret.cols = img.cols ∧
      ∀ i < img.rows, ∀ j < img.cols, ret.at i j =
        ∑ k ∈ Finset.Icc (-gcache.center : Int) gcache.center,
          ∑ l ∈ Finset.Icc (-gcache.center : Int) gcache.center,
            (gcache.weight k * gcache.weight l) •
              img.at (clamp img.rows (i + k)) (clamp img.cols (j + l)) := by
  obtain ⟨middle, columns, sums⟩ := columns_spec gcache img rows (⟨fun _ => 0⟩, ⟨uninitialised⟩)
  obtain ⟨last, across, totals⟩ := rows_spec gcache img cols middle sums
  refine ⟨⟨img.rows, img.cols, last.2⟩, ?_, rfl, rfl, fun i row j column => ?_⟩
  · rw [blur, columns]
    simp only [Option.bind_eq_bind, Option.bind_some, across]
    rfl
  · calc last.2.cell (i * img.cols + j : Nat)
        = ∑ l ∈ Finset.Icc (-gcache.center : Int) gcache.center,
            gcache.weight l • columnSum gcache img i (clamp img.cols (j + l)) := totals i row j column
      _ = ∑ l ∈ Finset.Icc (-gcache.center : Int) gcache.center,
            ∑ k ∈ Finset.Icc (-gcache.center : Int) gcache.center,
              (gcache.weight k * gcache.weight l) •
                img.at (clamp img.rows (i + k)) (clamp img.cols (j + l)) := by
          apply Finset.sum_congr rfl
          intro l _
          rw [columnSum, Finset.smul_sum]
          apply Finset.sum_congr rfl
          intro k _
          rw [smul_smul, mul_comm]
      _ = _ := Finset.sum_comm

end Convolution

/-- The kernel is wider than the image. -/
def wideKernel : GaussCache ℚ := ⟨5, rfl, ⟨fun i => i + 1⟩⟩

def smallImage : Mat ℚ := ⟨1, 2, ⟨fun i => 3 * i + 1⟩⟩

theorem blur_convolves_small : ∃ ret, blur wideKernel smallImage (fun _ => -1) = some ret ∧
    ret.at 0 1 = ∑ k ∈ Finset.Icc (-2 : Int) 2, ∑ l ∈ Finset.Icc (-2 : Int) 2,
      ((k + 3) * (l + 3) : ℚ) * if l < 0 then 1 else 4 := by
  obtain ⟨ret, blurred, -, -, sums⟩ := blur_convolves wideKernel smallImage (fun _ => -1) le_rfl
    (by decide)
  refine ⟨ret, blurred, (sums 0 one_pos 1 one_lt_two).trans ?_⟩
  decide +kernel

end GaussianBlur

end CodeCollect.OpenPano
