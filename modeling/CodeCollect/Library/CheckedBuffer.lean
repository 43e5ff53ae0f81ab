import Mathlib.Logic.Function.Basic
import CodeCollect.Library.Sweep

namespace CodeCollect.Library

/-- A buffer has its size in its type. The cells outside are never read or written. -/
structure Buffer (size : Nat) (T : Type*) where
  cell : Int → T

namespace Buffer

variable {size : Nat} {T : Type*}

def Inside (size : Nat) (i : Int) : Prop := 0 ≤ i ∧ i < size

instance (size : Nat) (i : Int) : Decidable (Inside size i) := inferInstanceAs (Decidable (_ ∧ _))

/-- Reading outside of the buffer fails. -/
def load (buf : Buffer size T) (i : Int) : Option T :=
  if Inside size i then some (buf.cell i) else none

def put (buf : Buffer size T) (i : Int) (value : T) : Buffer size T :=
  ⟨Function.update buf.cell i value⟩

/-- Writing outside of the buffer fails. -/
def store (buf : Buffer size T) (i : Int) (value : T) : Option (Buffer size T) :=
  if Inside size i then some (buf.put i value) else none

theorem cell_put (buf : Buffer size T) (i : Int) (value : T) : (buf.put i value).cell i = value :=
  Function.update_self ..

theorem cell_put_of_ne (buf : Buffer size T) {i other : Int} (differ : other ≠ i) (value : T) :
    (buf.put i value).cell other = buf.cell other := Function.update_of_ne differ ..

theorem load_of_inside (buf : Buffer size T) {i : Int} (inside : Inside size i) :
    buf.load i = some (buf.cell i) := if_pos inside

theorem store_of_inside (buf : Buffer size T) {i : Int} (inside : Inside size i) (value : T) :
    buf.store i value = some (buf.put i value) := if_pos inside

/-- A loop that writes to different places leaves its values there and nothing else changed. -/
theorem stores {count : Nat} {write : Buffer size T → Nat → Option (Buffer size T)}
    (place : Nat → Int) (value : Nat → T) (buf : Buffer size T)
    (inside : ∀ n < count, Inside size (place n))
    (differ : ∀ n < count, ∀ m < count, place n = place m → n = m)
    (writes : ∀ n < count, ∀ now : Buffer size T, write now n = now.store (place n) (value n)) :
    ∃ last, (List.range count).foldlM write buf = some last ∧
      (∀ n < count, last.cell (place n) = value n) ∧
      ∀ i, (∀ n < count, i ≠ place n) → last.cell i = buf.cell i := by
  apply Sweep.counted fun (done : Nat) (now : Buffer size T) =>
    (∀ n < done, now.cell (place n) = value n) ∧
      ∀ i, (∀ n < done, i ≠ place n) → now.cell i = buf.cell i
  · exact ⟨fun _ none => absurd none (Nat.not_lt_zero _), fun _ _ => rfl⟩
  · rintro n fewer now ⟨written, kept⟩
    refine ⟨_, (writes n fewer now).trans (now.store_of_inside (inside n fewer) _), fun m last => ?_,
      fun i apart => ?_⟩
    · by_cases same : place m = place n
      · rw [same, cell_put, differ m (by omega) n fewer same]
      · rw [cell_put_of_ne now same]
        apply written
        have other : m ≠ n := fun equal => same (congrArg place equal)
        omega
    · rw [cell_put_of_ne now (apart n n.lt_succ_self)]
      exact kept i fun m before => apart m (Nat.lt_succ_of_lt before)

end Buffer

end CodeCollect.Library
