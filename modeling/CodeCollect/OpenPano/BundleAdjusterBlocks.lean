import CodeCollect.Library.Accumulation
import CodeCollect.OpenPano.BundleAdjuster

namespace CodeCollect.OpenPano

open CodeCollect.Library

namespace BundleAdjuster

variable {K : Type} [Field K]

/-- A computation writes some cells of `J`, each with the value that is meant for it, and adds an
amount to `JtJ`. -/
structure Fills (run : Matrices K → Matrices K) (value : Cell → K) (cells : List Cell)
    (amount : Cell → K) : Prop where
  J : ∀ self, (run self).J = overwrite cells value self.J
  JtJ : ∀ self, (run self).JtJ = self.JtJ + amount
  written : ∀ self, (run self).written.Perm (cells ++ self.written)

namespace Fills

variable {first second : Matrices K → Matrices K} {value : Cell → K} {cells others : List Cell}
  {amount other : Cell → K}

theorem nothing : Fills (fun self : Matrices K => self) value [] 0 where
  J self := (overwrite_nil value self.J).symm
  JtJ self := (add_zero self.JtJ).symm
  written _ := List.Perm.refl _

theorem comp (one : Fills first value cells amount) (two : Fills second value others other) :
    Fills (fun self => second (first self)) value (cells ++ others) (amount + other) where
  J self := by rw [two.J, one.J, ← overwrite_append]
  JtJ self := by rw [two.JtJ, one.JtJ, add_assoc]
  written self := by
    refine (two.written (first self)).trans ?_
    refine ((one.written self).append_left others).trans ?_
    rw [← List.append_assoc]
    exact List.perm_append_comm.append_right self.written

theorem setJ {row column : Nat} {entry : K} (meant : value (row, column) = entry) :
    Fills (fun self => self.setJ row column entry) value [(row, column)] 0 where
  J self := by
    rw [← update_eq_overwrite, meant]
    rfl
  JtJ self := (add_zero self.JtJ).symm
  written _ := List.Perm.refl _

theorem addJtJ (row column : Nat) (entry : K) :
    Fills (fun self => self.addJtJ row column entry) value [] (Pi.single (row, column) entry) where
  J self := (overwrite_nil value self.J).symm
  JtJ self := Adds.write (row, column) entry self.JtJ
  written _ := List.Perm.refl _

theorem foldl {Item : Type*} {step : Matrices K → Item → Matrices K} {cellsOf : Item → List Cell}
    {amountOf : Item → Cell → K} (items : List Item)
    (fills : ∀ item ∈ items, Fills (fun self => step self item) value (cellsOf item)
      (amountOf item)) :
    Fills (fun self => items.foldl step self) value (items.flatMap cellsOf)
      (items.map amountOf).sum := by
  induction items with
  | nil => exact nothing
  | cons item items ih =>
      rw [List.flatMap_cons, List.map_cons, List.sum_cons]
      exact (fills item List.mem_cons_self).comp
        (ih fun other member => fills other (List.mem_cons_of_mem item member))

/-- Two computations in a row add two amounts and write no cells. -/
theorem comp_adds (one : Fills first value [] amount) (two : Fills second value [] other) :
    Fills (fun self => second (first self)) value [] (amount + other) := one.comp two

/-- A loop that writes no cells only adds. -/
theorem foldl_adds {Item : Type*} {step : Matrices K → Item → Matrices K}
    {amountOf : Item → Cell → K} (items : List Item)
    (fills : ∀ item, Fills (fun self => step self item) value [] (amountOf item)) :
    Fills (fun self => items.foldl step self) value [] (items.map amountOf).sum := by
  have looped := Fills.foldl items fun item _ => fills item
  rwa [List.flatMap_eq_nil_iff.mpr fun _ _ => rfl] at looped

end Fills

section Blocks

/-- The position of a column in the block of its image. -/
def offset (column : Nat) : Fin 6 := ⟨column % 6, Nat.mod_lt _ (by decide)⟩

theorem column_eq_iff {image column : Nat} {i : Fin 6} :
    column = image * NR_PARAM_PER_CAMERA + i ↔ column / 6 = image ∧ offset column = i := by
  rw [offset, Fin.ext_iff, NR_PARAM_PER_CAMERA]
  have bound := i.isLt
  dsimp only
  omega

/-- One entry of a block of six rows and six columns. -/
def entry (rowImage columnImage : Nat) (value : Fin 6 → Fin 6 → K) (i j : Fin 6) : Cell → K :=
  Pi.single (rowImage * NR_PARAM_PER_CAMERA + i, columnImage * NR_PARAM_PER_CAMERA + j) (value i j)

theorem entry_apply (rowImage columnImage : Nat) (value : Fin 6 → Fin 6 → K) (i j : Fin 6)
    (a b : Nat) :
    entry rowImage columnImage value i j (a, b) =
      if offset a = i then if offset b = j then
        (if a / 6 = rowImage ∧ b / 6 = columnImage then value i j else 0) else 0 else 0 := by
  simp only [entry, Pi.single_apply, Prod.mk.injEq, column_eq_iff]
  by_cases first : offset a = i <;> by_cases second : offset b = j <;> simp [first, second]

/-- The entries of a block are added one by one. -/
theorem sum_entry (rowImage columnImage : Nat) (value : Fin 6 → Fin 6 → K) (a b : Nat) :
    ∑ i, ∑ j, entry rowImage columnImage value i j (a, b) =
      if a / 6 = rowImage ∧ b / 6 = columnImage then value (offset a) (offset b) else 0 := by
  simp only [entry_apply]
  simp

variable (rowImage columnImage : Nat) (dfrom dto d : Fin 6 → Vec2D K)

/-- The block of two images has the products of their derivatives. -/
def cross (cell : Cell) : K :=
  if cell.1 / 6 = rowImage ∧ cell.2 / 6 = columnImage then
    dot (dfrom (offset cell.1)) (dto (offset cell.2)) else 0

/-- The sum over all passes of two nested loops, cell by cell. -/
theorem sum_loops (amount : Fin 6 → Fin 6 → Cell → K) (cell : Cell) :
    ((List.finRange 6).map fun i => ((List.finRange 6).map fun j => amount i j).sum).sum cell =
      ∑ i, ∑ j, amount i j cell := by
  rw [sum_map_apply, ← Fin.sum_univ_def]
  apply Finset.sum_congr rfl
  intro i _
  rw [sum_map_apply, ← Fin.sum_univ_def]

theorem fills_cross {value : Cell → K} :
    Fills (fillCross (rowImage * NR_PARAM_PER_CAMERA) (columnImage * NR_PARAM_PER_CAMERA) dfrom dto)
      value [] fun cell => cross rowImage columnImage dfrom dto cell +
        cross rowImage columnImage dfrom dto cell.swap := by
  let product : Fin 6 → Fin 6 → K := fun i j => dot (dfrom i) (dto j)
  have pass : ∀ i j : Fin 6, Fills (fun self : Matrices K =>
      (self.addJtJ (rowImage * NR_PARAM_PER_CAMERA + i) (columnImage * NR_PARAM_PER_CAMERA + j)
        (product i j)).addJtJ (columnImage * NR_PARAM_PER_CAMERA + j)
          (rowImage * NR_PARAM_PER_CAMERA + i) (product i j)) value []
      (entry rowImage columnImage product i j +
        entry columnImage rowImage (fun j i => product i j) j i) := fun i j =>
    (Fills.addJtJ _ _ (product i j)).comp_adds (Fills.addJtJ _ _ (product i j))
  have looped := Fills.foldl_adds (List.finRange 6) fun i =>
    Fills.foldl_adds (List.finRange 6) fun j => pass i j
  have total : (fun cell => cross rowImage columnImage dfrom dto cell +
      cross rowImage columnImage dfrom dto cell.swap) = ((List.finRange 6).map fun i =>
        ((List.finRange 6).map fun j => entry rowImage columnImage product i j +
          entry columnImage rowImage (fun j i => product i j) j i).sum).sum := by
    funext ⟨a, b⟩
    rw [sum_loops]
    simp only [Pi.add_apply, Finset.sum_add_distrib]
    rw [sum_entry, Finset.sum_comm, sum_entry]
    unfold cross
    congr 1
    exact if_congr and_comm rfl rfl
  rw [total]
  exact looped

/-- A block on the diagonal has the products of the derivatives of its image. -/
def diagonal (image : Nat) (cell : Cell) : K :=
  if cell.1 / 6 = image ∧ cell.2 / 6 = image then
    dot (d (offset cell.1)) (d (offset cell.2)) else 0

/-- What one entry of the upper triangle and its mirror image add. -/
def mirrored (image : Nat) (i j : Fin 6) : Cell → K :=
  entry image image (fun i j => dot (d i) (d j)) i j +
    if i ≠ j then entry image image (fun j i => dot (d i) (d j)) j i else 0

theorem fills_mirrored {value : Cell → K} (image : Nat) (i j : Fin 6) :
    Fills (addMirrored (image * NR_PARAM_PER_CAMERA) d i j) value [] (mirrored d image i j) := by
  unfold addMirrored mirrored
  by_cases same : i = j
  · simp only [same, ne_eq, not_true_eq_false, if_false, add_zero]
    exact Fills.addJtJ _ _ _
  · simp only [ne_eq, same, not_false_eq_true, if_true]
    exact (Fills.addJtJ _ _ _).comp_adds (Fills.addJtJ _ _ _)

theorem dot_comm (first second : Vec2D K) : dot first second = dot second first := by
  unfold dot
  ring

/-- The upper triangle and its mirror image are the whole block. -/
theorem sum_mirrored (image : Nat) (a b : Nat) :
    ∑ i : Fin 6, ∑ j : Fin 6, (if i ≤ j then mirrored d image i j (a, b) else 0) =
      diagonal d image (a, b) := by
  have split : ∀ i j : Fin 6, (if i ≤ j then mirrored d image i j (a, b) else 0) =
      entry image image (fun i j => if i ≤ j then dot (d i) (d j) else 0) i j (a, b) +
        entry image image (fun j i => if i ≤ j ∧ i ≠ j then dot (d i) (d j) else 0) j i (a, b) := by
    intro i j
    unfold mirrored entry
    by_cases upper : i ≤ j <;> by_cases differ : i = j <;> simp [upper, differ]
  simp only [split, Finset.sum_add_distrib]
  rw [sum_entry, Finset.sum_comm, sum_entry, diagonal]
  by_cases within : a / 6 = image ∧ b / 6 = image
  · rw [if_pos within, if_pos within, if_pos within]
    by_cases upper : offset a ≤ offset b
    · rw [if_pos upper, if_neg (fun lower => lower.2 (le_antisymm lower.1 upper)), add_zero]
    · rw [if_neg upper, if_pos ⟨(not_le.mp upper).le, (not_le.mp upper).ne⟩, zero_add, dot_comm]
  · rw [if_neg within, if_neg within, if_neg within, add_zero]

theorem fills_diagonal {value : Cell → K} :
    Fills (fillDiagonal (rowImage * NR_PARAM_PER_CAMERA) (columnImage * NR_PARAM_PER_CAMERA) dfrom
      dto) value [] fun cell => diagonal dfrom rowImage cell + diagonal dto columnImage cell := by
  have pass : ∀ i j : Fin 6, Fills (fun self =>
      addMirrored (columnImage * NR_PARAM_PER_CAMERA) dto i j
        (addMirrored (rowImage * NR_PARAM_PER_CAMERA) dfrom i j self)) value []
      (mirrored dfrom rowImage i j + mirrored dto columnImage i j) := fun i j =>
    (fills_mirrored dfrom rowImage i j).comp_adds (fills_mirrored dto columnImage i j)
  have looped := Fills.foldl_adds (List.finRange 6) fun i =>
    Fills.foldl_adds ((List.finRange 6).filter (i ≤ ·)) fun j => pass i j
  have total : (fun cell => diagonal dfrom rowImage cell + diagonal dto columnImage cell) =
      ((List.finRange 6).map fun i => (((List.finRange 6).filter (i ≤ ·)).map fun j =>
        mirrored dfrom rowImage i j + mirrored dto columnImage i j).sum).sum := by
    funext ⟨a, b⟩
    simp only [sum_map_filter]
    rw [sum_loops, ← sum_mirrored, ← sum_mirrored]
    simp only [← Finset.sum_add_distrib]
    apply Finset.sum_congr rfl
    intro i _
    apply Finset.sum_congr rfl
    intro j _
    by_cases upper : i ≤ j <;> simp [upper]
  rw [total]
  exact looped

/-- A point has these derivatives by the parameter of a column. -/
def derivative (column : Nat) : Vec2D K :=
  if column / 6 = rowImage then dfrom (offset column)
  else if column / 6 = columnImage then dto (offset column) else 0

theorem dot_zero (first : Vec2D K) : dot first 0 = 0 := by simp [dot]

theorem zero_dot (second : Vec2D K) : dot 0 second = 0 := by simp [dot]

/-- The blocks of a point are the products of its derivatives when its images differ. -/
theorem blocks_eq (differ : rowImage ≠ columnImage) (cell : Cell) :
    cross rowImage columnImage dfrom dto cell + cross rowImage columnImage dfrom dto cell.swap +
        (diagonal dfrom rowImage cell + diagonal dto columnImage cell) =
      dot (derivative rowImage columnImage dfrom dto cell.1)
        (derivative rowImage columnImage dfrom dto cell.2) := by
  obtain ⟨a, b⟩ := cell
  simp only [cross, diagonal, derivative, Prod.swap_prod_mk]
  by_cases aFrom : a / 6 = rowImage
  · by_cases bFrom : b / 6 = rowImage
    · simp [aFrom, bFrom, differ]
    · by_cases bTo : b / 6 = columnImage <;> simp [aFrom, bFrom, bTo, differ, differ.symm, dot_zero]
  · by_cases aTo : a / 6 = columnImage
    · by_cases bFrom : b / 6 = rowImage
      · simp [aTo, bFrom, differ, differ.symm, dot_comm (dfrom (offset b))]
      · by_cases bTo : b / 6 = columnImage <;> simp [aTo, bFrom, bTo, differ.symm, dot_zero]
    · simp [aFrom, aTo, zero_dot]

/-- These cells of `J` are written for a point. -/
def pointCells (idx : Nat) : List Cell :=
  (List.finRange 6).flatMap fun (i : Fin 6) =>
    [(idx, rowImage * NR_PARAM_PER_CAMERA + i), (idx, columnImage * NR_PARAM_PER_CAMERA + i),
      (idx + 1, rowImage * NR_PARAM_PER_CAMERA + i),
      (idx + 1, columnImage * NR_PARAM_PER_CAMERA + i)]

theorem mem_pointCells {idx row column : Nat} :
    (row, column) ∈ pointCells rowImage columnImage idx ↔
      (row = idx ∨ row = idx + 1) ∧ (column / 6 = rowImage ∨ column / 6 = columnImage) := by
  simp only [pointCells, List.mem_flatMap, List.mem_cons, List.not_mem_nil, or_false,
    Prod.mk.injEq, column_eq_iff, List.mem_finRange, true_and]
  constructor
  · rintro ⟨i, cases⟩
    omega
  · rintro ⟨rows, columns⟩
    refine ⟨offset column, ?_⟩
    simp only [and_true]
    omega

theorem nodup_pointCells (differ : rowImage ≠ columnImage) (idx : Nat) :
    (pointCells rowImage columnImage idx).Nodup := by
  unfold pointCells
  rw [List.nodup_flatMap]
  constructor
  · intro i _
    simp [differ, differ.symm, NR_PARAM_PER_CAMERA]
  · refine (List.nodup_finRange 6).imp fun {i j} apart => ?_
    rw [Function.onFun, List.disjoint_left]
    rintro ⟨row, column⟩ one two
    simp only [List.mem_cons, List.not_mem_nil, or_false, Prod.mk.injEq, column_eq_iff] at one two
    have first : offset column = i := by
      rcases one with ⟨_, _, same⟩ | ⟨_, _, same⟩ | ⟨_, _, same⟩ | ⟨_, _, same⟩ <;> exact same
    have second : offset column = j := by
      rcases two with ⟨_, _, same⟩ | ⟨_, _, same⟩ | ⟨_, _, same⟩ | ⟨_, _, same⟩ <;> exact same
    exact apart (first.symm.trans second)

/-- A point fills its two rows of `J` and adds the products of its derivatives to `JtJ`. -/
theorem fills_point (differ : rowImage ≠ columnImage) {value : Cell → K} {idx : Nat}
    (first : ∀ column,
      value (idx, column) = (derivative rowImage columnImage dfrom dto column).1)
    (second : ∀ column,
      value (idx + 1, column) = (derivative rowImage columnImage dfrom dto column).2) :
    Fills (fillPoint idx (rowImage * NR_PARAM_PER_CAMERA) (columnImage * NR_PARAM_PER_CAMERA) dfrom
      dto) value (pointCells rowImage columnImage idx) fun cell =>
        dot (derivative rowImage columnImage dfrom dto cell.1)
          (derivative rowImage columnImage dfrom dto cell.2) := by
  have own : ∀ i : Fin 6, derivative rowImage columnImage dfrom dto
      (rowImage * NR_PARAM_PER_CAMERA + i) = dfrom i := by
    intro i
    obtain ⟨image, position⟩ := column_eq_iff.mp (rfl : rowImage * NR_PARAM_PER_CAMERA + i = _)
    rw [derivative, if_pos image, position]
  have other : ∀ i : Fin 6, derivative rowImage columnImage dfrom dto
      (columnImage * NR_PARAM_PER_CAMERA + i) = dto i := by
    intro i
    obtain ⟨image, position⟩ := column_eq_iff.mp (rfl : columnImage * NR_PARAM_PER_CAMERA + i = _)
    rw [derivative, if_neg (fun same => differ (same.symm.trans image)), if_pos image, position]
  have rows : Fills (fillJ idx (rowImage * NR_PARAM_PER_CAMERA) (columnImage * NR_PARAM_PER_CAMERA)
      dfrom dto) value (pointCells rowImage columnImage idx) ((List.finRange 6).map fun _ =>
        (0 + 0 + 0 + 0 : Cell → K)).sum :=
    Fills.foldl (List.finRange 6) fun i _ =>
      (((Fills.setJ (by rw [first, own])).comp (Fills.setJ (by rw [first, other]))).comp
        (Fills.setJ (by rw [second, own]))).comp (Fills.setJ (by rw [second, other]))
  have nothing : ((List.finRange 6).map fun _ => (0 + 0 + 0 + 0 : Cell → K)).sum = 0 := by simp
  have whole := (rows.comp (fills_cross rowImage columnImage dfrom dto)).comp
    (fills_diagonal rowImage columnImage dfrom dto)
  rw [nothing, zero_add, List.append_nil, List.append_nil] at whole
  rw [show (fun cell : Cell => dot (derivative rowImage columnImage dfrom dto cell.1)
    (derivative rowImage columnImage dfrom dto cell.2)) = _ from
      funext fun cell => (blocks_eq rowImage columnImage dfrom dto differ cell).symm]
  exact whole

end Blocks

end BundleAdjuster

end CodeCollect.OpenPano
