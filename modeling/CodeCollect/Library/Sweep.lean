import Mathlib.Data.List.Nodup
import Mathlib.Data.List.ProdSigma

namespace CodeCollect.Library

namespace Sweep

variable {State Cell : Type*} {step : State → Cell → State} {cells : List Cell}

/-- A pass over cells keeps what each step keeps. -/
theorem invariant (Fits : State → Prop)
    (fits : ∀ state, Fits state → ∀ cell ∈ cells, Fits (step state cell)) {state : State}
    (start : Fits state) : Fits (cells.foldl step state) := by
  induction cells generalizing state with
  | nil => exact start
  | cons first cells ih =>
      exact ih (fun state fit cell member => fits state fit cell (.tail _ member))
        (fits state start first List.mem_cons_self)

/-- A pass over distinct cells, whose steps each deal with their own cell and leave the others
alone, deals with every cell once. -/
theorem each (Before After : Cell → State → Prop)
    (own : ∀ state, ∀ cell ∈ cells, Before cell state → After cell (step state cell))
    (others : ∀ state, ∀ cell ∈ cells, ∀ other ∈ cells, other ≠ cell →
      (Before other state → Before other (step state cell)) ∧
        (After other state → After other (step state cell)))
    (nodup : cells.Nodup) {state : State} (start : ∀ cell ∈ cells, Before cell state) :
    ∀ cell ∈ cells, After cell (cells.foldl step state) := by
  induction cells generalizing state with
  | nil => exact fun _ member => absurd member List.not_mem_nil
  | cons first cells ih =>
      obtain ⟨absent, rest⟩ := List.nodup_cons.mp nodup
      have apart : ∀ cell ∈ cells, cell ≠ first := fun cell member same => absent (same ▸ member)
      have head : After first (step state first) :=
        own state first List.mem_cons_self (start first List.mem_cons_self)
      intro cell member
      rcases List.mem_cons.mp member with rfl | later
      · apply invariant (After cell) _ head
        intro state after other member
        exact (others state other (.tail _ member) cell List.mem_cons_self
          (apart other member).symm).2 after
      · apply ih (fun state cell member => own state cell (.tail _ member))
          (fun state cell member other again => others state cell (.tail _ member) other
            (.tail _ again)) rest _ cell later
        intro other again
        exact (others state first List.mem_cons_self other (.tail _ again) (apart other again)).1
          (start other (.tail _ again))

/-- A counted loop whose steps all succeed reaches its last invariant. -/
theorem counted {step : State → Nat → Option State} {count : Nat} (Holds : Nat → State → Prop)
    {state : State} (start : Holds 0 state)
    (next : ∀ n < count, ∀ state, Holds n state →
      ∃ after, step state n = some after ∧ Holds (n + 1) after) :
    ∃ last, (List.range count).foldlM step state = some last ∧ Holds count last := by
  induction count with
  | zero => exact ⟨state, rfl, start⟩
  | succ count ih =>
      obtain ⟨middle, reached, holds⟩ := ih fun n fewer => next n (Nat.lt_succ_of_lt fewer)
      obtain ⟨last, stepped, after⟩ := next count count.lt_succ_self middle holds
      refine ⟨last, ?_, after⟩
      rw [List.range_succ, List.foldlM_append, reached]
      change List.foldlM step middle [count] = some last
      rw [List.foldlM_cons, stepped]
      rfl

/-- The cells of a grid row by row. -/
def grid (rows columns : Nat) : List (Nat × Nat) := List.range rows ×ˢ List.range columns

theorem nodup_grid (rows columns : Nat) : (grid rows columns).Nodup :=
  List.nodup_range.product List.nodup_range

theorem mem_grid {rows columns : Nat} {cell : Nat × Nat} :
    cell ∈ grid rows columns ↔ cell.1 < rows ∧ cell.2 < columns := by
  rw [grid, ← List.mem_range, ← List.mem_range]
  exact List.mem_product

/-- A place of a grid that is kept row by row has one row and one column. -/
theorem place_inj {cols r c row col : Nat} (inside : c < cols) (other : col < cols)
    (same : r * cols + c = row * cols + col) : r = row ∧ c = col := by
  have rows : r = row := by
    have first := Nat.add_mul_div_right c r (Nat.zero_lt_of_lt inside)
    have second := Nat.add_mul_div_right col row (Nat.zero_lt_of_lt inside)
    rw [Nat.div_eq_of_lt inside, Nat.zero_add] at first
    rw [Nat.div_eq_of_lt other, Nat.zero_add] at second
    rw [← first, ← second, Nat.add_comm c, Nat.add_comm col]
    exact congrArg (· / cols) same
  subst rows
  exact ⟨rfl, Nat.add_left_cancel same⟩

theorem place_lt {rows cols r c : Nat} (row : r < rows) (column : c < cols) :
    r * cols + c < rows * cols :=
  Nat.lt_of_lt_of_le (Nat.add_lt_add_left column _)
    (Nat.succ_mul r cols ▸ Nat.mul_le_mul_right cols row)

end Sweep

end CodeCollect.Library
