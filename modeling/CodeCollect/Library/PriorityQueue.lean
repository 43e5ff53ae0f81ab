import Mathlib

namespace CodeCollect.Library

/-- A queue that hands out an item with the greatest key first. Which one of several is left
open. -/
structure PriorityQueue (Item K : Type) [LinearOrder K] (key : Item → K) where
  State : Type
  contents : State → Multiset Item
  empty : State
  emplace : State → Item → State
  top : State → Option Item
  pop : State → State
  size : State → Nat
  contents_empty : contents empty = 0
  contents_emplace : ∀ q item, contents (emplace q item) = item ::ₘ contents q
  top_isSome : ∀ q, contents q ≠ 0 → (top q).isSome
  contents_of_top : ∀ q item, top q = some item → contents q = item ::ₘ contents (pop q)
  key_le_of_top : ∀ q item, top q = some item → ∀ other ∈ contents q, key other ≤ key item
  size_eq : ∀ q, size q = (contents q).card

namespace PriorityQueue

variable {Item K : Type} [LinearOrder K] {key : Item → K} (queue : PriorityQueue Item K key)

theorem size_eq_zero {q : queue.State} : queue.size q = 0 ↔ queue.contents q = 0 := by
  rw [queue.size_eq, Multiset.card_eq_zero]

theorem top_eq_none {q : queue.State} (none : queue.top q = none) : queue.contents q = 0 := by
  by_contra filled
  have some := queue.top_isSome q filled
  rw [none] at some
  cases some

theorem size_pop {q : queue.State} {item : Item} (top : queue.top q = some item) :
    queue.size (queue.pop q) + 1 = queue.size q := by
  rw [queue.size_eq, queue.size_eq, queue.contents_of_top q item top, Multiset.card_cons]

/-- A list that is searched for its first item with the greatest key. -/
def ofList [DecidableEq Item] (key : Item → K) : PriorityQueue Item K key where
  State := List Item
  contents q := q
  empty := []
  emplace q item := item :: q
  top q := q.argmax key
  pop q := (q.argmax key).elim [] q.erase
  size q := q.length
  contents_empty := rfl
  contents_emplace _ _ := rfl
  top_isSome q filled := by
    rw [Option.isSome_iff_ne_none, ne_eq, List.argmax_eq_none]
    intro empty
    exact filled (congrArg _ empty)
  contents_of_top q item top := by
    have member : item ∈ q := List.argmax_mem top
    rw [top, Option.elim_some]
    exact (Multiset.coe_eq_coe.mpr (List.perm_cons_erase member))
  key_le_of_top q item top other member := List.le_of_mem_argmax member top
  size_eq _ := rfl

end PriorityQueue

end CodeCollect.Library
