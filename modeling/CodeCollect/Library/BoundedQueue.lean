import CodeCollect.Library.Machine

namespace CodeCollect.Library

/-- A queue has room for so many items and keeps the last ones. -/
structure BoundedQueue (Item : Type*) where
  capacity : Nat
  positive : 0 < capacity
  contents : List Item
  fits : contents.length ≤ capacity

namespace BoundedQueue

variable {Item : Type*}

def empty (capacity : Nat) (positive : 0 < capacity) : BoundedQueue Item where
  capacity := capacity
  positive := positive
  contents := []
  fits := Nat.zero_le capacity

/-- The oldest item is lost when there is no room for a new one. -/
def push (queue : BoundedQueue Item) (item : Item) : BoundedQueue Item where
  capacity := queue.capacity
  positive := queue.positive
  contents := (queue.contents ++ [item]).rtake queue.capacity
  fits := by
    rw [List.rtake, List.length_drop]
    omega

/-- The oldest item leaves the queue. -/
def pop (queue : BoundedQueue Item) : BoundedQueue Item where
  capacity := queue.capacity
  positive := queue.positive
  contents := queue.contents.tail
  fits := by
    have fits := queue.fits
    rw [List.length_tail]
    omega

/-- The oldest items stay when a queue gets another capacity. -/
def resize (queue : BoundedQueue Item) (capacity : Nat) (positive : 0 < capacity) :
    BoundedQueue Item where
  capacity := capacity
  positive := positive
  contents := queue.contents.take capacity
  fits := List.length_take_le capacity queue.contents

variable {queue : BoundedQueue Item}

@[simp] theorem pop_contents : queue.pop.contents = queue.contents.tail := rfl

@[simp] theorem resize_contents (capacity : Nat) (positive : 0 < capacity) :
    (queue.resize capacity positive).contents = queue.contents.take capacity := rfl

theorem push_contents_of_lt (room : queue.contents.length < queue.capacity) (item : Item) :
    (queue.push item).contents = queue.contents ++ [item] := by
  change (queue.contents ++ [item]).rtake queue.capacity = _
  rw [List.rtake, List.length_append, List.length_singleton,
    Nat.sub_eq_zero_of_le room, List.drop_zero]

theorem push_contents_of_full (full : queue.contents.length = queue.capacity) (item : Item) :
    (queue.push item).contents = queue.contents.tail ++ [item] := by
  have positive := queue.positive
  change (queue.contents ++ [item]).rtake queue.capacity = _
  rw [List.rtake, List.length_append, List.length_singleton, full,
    Nat.add_sub_cancel_left, List.drop_append_of_le_length (by omega), List.drop_one]

end BoundedQueue

/-- A position in a ring moves on to this one. -/
def following (size position : Nat) : Nat :=
  if position + 1 = size then 0 else position + 1

section Ring

variable {Item : Type*} {ring rest contents : List Item} {first size position : Nat}

theorem following_eq_mod (inside : position < size) :
    following size position = (position + 1) % size := by
  rw [following]
  split
  · rename_i last
    rw [last, Nat.mod_self]
  · rw [Nat.mod_eq_of_lt (by omega)]

theorem following_lt (inside : position < size) : following size position < size := by
  rw [following_eq_mod inside]
  exact Nat.mod_lt _ (Nat.zero_lt_of_lt inside)

/-- A ring that is read from another start has the new item at the same distance. -/
theorem rotate_set {i : Nat} (inside : i < ring.length) (first : Nat) (item : Item) :
    (ring.set ((first + i) % ring.length) item).rotate first =
      (ring.rotate first).set i item := by
  apply List.ext_getElem
  · simp
  · intro k left right
    have bound : k < ring.length := by simpa using left
    rw [List.getElem_rotate, List.getElem_set, List.getElem_set, List.getElem_rotate]
    simp only [List.length_set]
    have apart : (first + i) % ring.length = (k + first) % ring.length ↔ i = k := by
      rw [Nat.add_comm k first]
      constructor
      · intro same
        have residues := Nat.ModEq.add_left_cancel' first same
        exact Nat.ModEq.eq_of_lt_of_lt residues inside bound
      · rintro rfl
        rfl
    simp only [apart]

/-- The place of the oldest item becomes the place of the newest one. -/
theorem rotate_replaced {oldest : Item} (inside : first < ring.length)
    (start : ring.rotate first = oldest :: rest) (item : Item) :
    (ring.set first item).rotate (following ring.length first) = rest ++ [item] := by
  have replaced := rotate_set (Nat.zero_lt_of_lt inside) first item
  rw [Nat.add_zero, Nat.mod_eq_of_lt inside, start, List.set_cons_zero] at replaced
  have onward : (ring.set first item).rotate (following ring.length first) =
      (ring.set first item).rotate (first + 1) := by
    have mod := (ring.set first item).rotate_mod (first + 1)
    rwa [List.length_set, ← following_eq_mod inside] at mod
  rw [onward, ← List.rotate_rotate, replaced, List.rotate_cons_succ, List.rotate_zero]

/-- A new item comes behind the items that are there. -/
theorem rotate_appended {free : Nat} {blank : Item}
    (start : ring.rotate first = contents ++ List.replicate (free + 1) blank) (item : Item) :
    (ring.set ((first + contents.length) % ring.length) item).rotate first =
      contents ++ [item] ++ List.replicate free blank := by
  have size := congrArg List.length start
  rw [List.length_rotate, List.length_append, List.length_replicate] at size
  rw [rotate_set (by omega), start, List.set_append_right _ _ (le_refl _), Nat.sub_self,
    List.replicate_succ, List.set_cons_zero, List.append_assoc, List.singleton_append]

end Ring

end CodeCollect.Library
