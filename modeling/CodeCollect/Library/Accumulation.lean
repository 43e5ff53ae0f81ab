import Mathlib

namespace CodeCollect.Library

variable {Cell Item A : Type*}

/-- A computation adds an amount to each cell, whatever the cells hold. -/
def Adds [Add A] (run : (Cell → A) → Cell → A) (amount : Cell → A) : Prop :=
  ∀ state, run state = state + amount

namespace Adds

section Rules

variable [AddMonoid A] {first second : (Cell → A) → Cell → A} {amount other : Cell → A}

theorem nothing : Adds (fun state : Cell → A => state) 0 := fun state => (add_zero state).symm

theorem comp (one : Adds first amount) (two : Adds second other) :
    Adds (fun state => second (first state)) (amount + other) := by
  intro state
  change second (first state) = state + (amount + other)
  rw [two, one, add_assoc]

/-- One write adds to one cell. -/
theorem write [DecidableEq Cell] (cell : Cell) (value : A) :
    Adds (fun state => Function.update state cell (state cell + value)) (Pi.single cell value) := by
  intro state
  funext other
  by_cases same : other = cell
  · subst same
    simp
  · simp [same]

/-- A loop adds what its passes add. -/
theorem foldl {step : (Cell → A) → Item → Cell → A} {amounts : Item → Cell → A}
    (adds : ∀ item, Adds (fun state => step state item) (amounts item)) (items : List Item) :
    Adds (fun state => items.foldl step state) (items.map amounts).sum := by
  induction items with
  | nil => exact nothing
  | cons item items ih =>
      rw [List.map_cons, List.sum_cons]
      exact (adds item).comp ih

/-- A computation that starts with empty cells leaves its amount in them. -/
theorem empty (adds : Adds first amount) : first 0 = amount := by
  rw [adds, zero_add]

end Rules

end Adds

/-- Some cells get the values that are meant for them. -/
def overwrite [DecidableEq Cell] (cells : List Cell) (value state : Cell → A) (cell : Cell) : A :=
  if cell ∈ cells then value cell else state cell

section Overwriting

variable [DecidableEq Cell] (value state : Cell → A)

@[simp] theorem overwrite_nil : overwrite [] value state = state := by
  funext cell
  simp [overwrite]

theorem overwrite_of_mem {cells : List Cell} {cell : Cell} (member : cell ∈ cells) :
    overwrite cells value state cell = value cell := if_pos member

theorem overwrite_of_not_mem {cells : List Cell} {cell : Cell} (absent : cell ∉ cells) :
    overwrite cells value state cell = state cell := if_neg absent

/-- Values that are meant for all cells can be written in two goes. -/
theorem overwrite_append (first second : List Cell) :
    overwrite (first ++ second) value state = overwrite second value (overwrite first value state) := by
  funext cell
  by_cases one : cell ∈ first <;> by_cases two : cell ∈ second <;> simp [overwrite, one, two]

/-- One write of the value that is meant for its cell. -/
theorem update_eq_overwrite (cell : Cell) :
    Function.update state cell (value cell) = overwrite [cell] value state := by
  funext other
  by_cases same : other = cell
  · subst same
    simp [overwrite]
  · simp [overwrite, same]

end Overwriting

/-- A loop that counts an index along visits each item with the index of its position. -/
theorem foldl_counter {State : Type*} (pass : Nat → Item → State → State) (width : Nat)
    (items : List Item) (start : Nat) (state : State) :
    items.foldl (fun (state, idx) item => (pass idx item state, idx + width))
        (state, start * width) =
      ((items.zipIdx start).foldl (fun state (item, position) =>
        pass (position * width) item state) state, (start + items.length) * width) := by
  induction items generalizing start state with
  | nil => simp
  | cons item items ih =>
      have next : start * width + width = (start + 1) * width := (Nat.succ_mul start width).symm
      have count : start + (item :: items).length = start + 1 + items.length := by
        rw [List.length_cons]
        omega
      rw [List.foldl_cons, List.zipIdx_cons, List.foldl_cons, count]
      dsimp only
      rw [next]
      exact ih (start + 1) (pass (start * width) item state)

/-- What each pass of a loop keeps up for the items so far holds for all items at the end. -/
theorem foldl_prefixes {State : Type*} {motive : List Item → State → Prop}
    {step : State → Item → State} {start : State} (items : List Item) (init : motive [] start)
    (kept : ∀ done item state, item ∈ items → motive done state →
      motive (done ++ [item]) (step state item)) : motive items (items.foldl step start) := by
  induction items using List.reverseRecOn with
  | nil => exact init
  | append_singleton items item ih =>
      rw [List.foldl_append, List.foldl_cons, List.foldl_nil]
      refine kept items item _ (List.mem_append_right _ (List.mem_singleton_self item)) (ih ?_)
      exact fun done other state member => kept done other state (List.mem_append_left _ member)

section Loops

variable [AddCommMonoid A]

/-- A loop over those items that pass a test. -/
theorem sum_map_filter (items : List Item) (test : Item → Bool) (amount : Item → A) :
    ((items.filter test).map amount).sum =
      (items.map fun item => if test item then amount item else 0).sum := by
  induction items with
  | nil => rfl
  | cons item items ih =>
      cases passed : test item <;> simp [passed, ih]

/-- A sum over a list is a sum over its positions. -/
theorem sum_range_getElem? (items : List Item) (amount : Item → A) :
    ∑ position ∈ Finset.range items.length, (items[position]?).elim 0 amount =
      (items.map amount).sum := by
  induction items with
  | nil => rfl
  | cons item items ih =>
      rw [List.length_cons, Finset.sum_range_succ', List.map_cons, List.sum_cons, add_comm]
      simp only [List.getElem?_cons_succ, List.getElem?_cons_zero, Option.elim_some, ih]

/-- A sum over pairs of positions. -/
theorem sum_range_pairs (count : Nat) (amount : Nat → A) :
    ∑ position ∈ Finset.range (2 * count), amount position =
      ∑ pair ∈ Finset.range count, (amount (2 * pair) + amount (2 * pair + 1)) := by
  induction count with
  | zero => rfl
  | succ count ih =>
      rw [Nat.mul_succ, Finset.sum_range_succ, Finset.sum_range_succ, ih, Finset.sum_range_succ,
        add_assoc]

/-- A sum over a list is taken cell by cell. -/
theorem sum_map_apply (items : List Item) (amounts : Item → Cell → A) (cell : Cell) :
    (items.map amounts).sum cell = (items.map fun item => amounts item cell).sum := by
  induction items with
  | nil => rfl
  | cons item items ih => simp [ih]

/-- A loop over different indices visits each of them once. -/
theorem sum_map_ite [DecidableEq Item] {items : List Item} (nodup : items.Nodup) (item : Item)
    (value : A) :
    (items.map fun other => if other = item then value else 0).sum =
      if item ∈ items then value else 0 := by
  induction items with
  | nil => rfl
  | cons head items ih =>
      obtain ⟨absent, rest⟩ := List.nodup_cons.mp nodup
      rw [List.map_cons, List.sum_cons, ih rest]
      by_cases same : head = item
      · subst same
        simp [absent]
      · simp [same, Ne.symm same]

/-- Two nested loops that write to the cell of each pair of indices. -/
theorem sum_grid [DecidableEq Item] {rows columns : List Item} (rowsNodup : rows.Nodup)
    (columnsNodup : columns.Nodup) (value : Item → Item → A) (row column : Item) :
    (rows.map fun i =>
      (columns.map fun j => (Pi.single (i, j) (value i j) : Item × Item → A)).sum).sum (row, column) =
      if row ∈ rows ∧ column ∈ columns then value row column else 0 := by
  have inner : ∀ i,
      (columns.map fun j => (Pi.single (i, j) (value i j) : Item × Item → A)).sum (row, column) =
      if i = row then (if column ∈ columns then value row column else 0) else 0 := by
    intro i
    rw [sum_map_apply]
    by_cases same : i = row
    · subst same
      rw [if_pos rfl, ← sum_map_ite columnsNodup column]
      congr 1
      apply List.map_congr_left
      intro j _
      by_cases equal : j = column
      · subst equal
        simp
      · simp [equal, Ne.symm equal]
    · rw [if_neg same]
      apply List.sum_eq_zero
      intro value member
      obtain ⟨j, _, rfl⟩ := List.mem_map.mp member
      simp [Ne.symm same]
  rw [sum_map_apply]
  simp only [inner]
  rw [sum_map_ite rowsNodup, ← ite_and]

end Loops

end CodeCollect.Library
