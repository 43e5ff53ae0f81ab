import Mathlib

/-!
# Maximal runs

A list is cut into the maximal runs of one element, each of which is given by its element and its
length.
-/

namespace CodeCollect.Library.MaximalRuns

variable {α : Type*}

/-- The list that some runs spell out. -/
def expand (runs : List (α × Nat)) : List α := runs.flatMap fun run => List.replicate run.2 run.1

/-- The runs spell out the list, none is empty, and no run could be longer. -/
structure Maximal (l : List α) (runs : List (α × Nat)) : Prop where
  spells : expand runs = l
  positive : ∀ run ∈ runs, 0 < run.2
  apart : runs.IsChain fun run next => run.1 ≠ next.1

variable [DecidableEq α]

/-- The runs of a list behind some occurrences of one element. -/
def scan (previous : α) (count : Nat) : List α → List (α × Nat)
  | [] => [(previous, count)]
  | a :: l => if a = previous then scan previous (count + 1) l else (previous, count) :: scan a 1 l

/-- The maximal runs of a list. -/
def runs : List α → List (α × Nat)
  | [] => []
  | a :: l => scan a 1 l

theorem scan_head (previous : α) (count : Nat) (l : List α) :
    ∃ more rest, scan previous count l = (previous, more) :: rest := by
  induction l generalizing count with
  | nil => exact ⟨count, [], rfl⟩
  | cons a l ih =>
      rw [scan]
      split
      · exact ih (count + 1)
      · exact ⟨count, scan a 1 l, rfl⟩

theorem scan_maximal (previous : α) {count : Nat} (positive : 0 < count) (l : List α) :
    Maximal (List.replicate count previous ++ l) (scan previous count l) := by
  induction l generalizing previous count with
  | nil =>
      constructor
      · simp [scan, expand]
      · simpa [scan] using positive
      · exact .singleton _
  | cons a l ih =>
      rw [scan]
      split
      · rename_i same
        have longer := ih previous (Nat.succ_pos count)
        rw [List.replicate_succ', List.append_assoc] at longer
        rwa [same]
      · rename_i other
        have further := ih a Nat.one_pos
        obtain ⟨more, rest, split⟩ := scan_head a 1 l
        constructor
        · rw [expand, List.flatMap_cons]
          exact congrArg (List.replicate count previous ++ ·) further.spells
        · intro run member
          rcases List.mem_cons.mp member with rfl | member
          · exact positive
          · exact further.positive run member
        · rw [split] at further ⊢
          exact .cons_cons (Ne.symm other) further.apart

/-- The runs of a list are maximal. -/
theorem runs_maximal (l : List α) : Maximal l (runs l) := by
  cases l with
  | nil => exact ⟨rfl, nofun, .nil⟩
  | cons a l => exact scan_maximal a Nat.one_pos l

theorem scan_replicate (previous : α) (count more : Nat) (l : List α) :
    scan previous count (List.replicate more previous ++ l) = scan previous (count + more) l := by
  induction more generalizing count with
  | zero => rfl
  | succ more ih =>
      rw [List.replicate_succ, List.cons_append, scan, if_pos rfl, ih]
      congr 1
      omega

/-- A list has no other maximal runs. -/
theorem Maximal.eq_runs {l : List α} {parts : List (α × Nat)} (maximal : Maximal l parts) :
    parts = runs l := by
  obtain ⟨rfl, positive, apart⟩ := maximal
  induction parts with
  | nil => rfl
  | cons run parts ih =>
      obtain ⟨a, count⟩ := run
      obtain ⟨first, later⟩ := List.forall_mem_cons.mp positive
      obtain ⟨more, rfl⟩ := Nat.exists_eq_succ_of_ne_zero first.ne'
      have tail := ih later apart.tail
      rw [expand, List.flatMap_cons, List.replicate_succ, List.cons_append, runs, scan_replicate]
      cases parts with
      | nil => simp [scan, Nat.add_comm]
      | cons next parts =>
          obtain ⟨b, size⟩ := next
          obtain ⟨second, _⟩ := List.forall_mem_cons.mp later
          obtain ⟨size, rfl⟩ := Nat.exists_eq_succ_of_ne_zero second.ne'
          have other : b ≠ a := by
            cases apart with
            | cons_cons differ _ => exact differ.symm
          rw [expand, List.flatMap_cons, List.replicate_succ, List.cons_append, runs] at tail
          rw [List.flatMap_cons, List.replicate_succ, List.cons_append, scan, if_neg other, ← tail,
            Nat.add_comm]

end CodeCollect.Library.MaximalRuns
