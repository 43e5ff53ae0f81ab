import Mathlib

namespace CodeCollect.Library

variable {Place : Type*}

/-- A walk visits places in order and ends behind the first one that does not pass it on. -/
def visited (pass : Place → Bool) : List Place → List Place
  | [] => []
  | place :: rest => place :: if pass place then visited pass rest else []

theorem visited_sublist (pass : Place → Bool) (places : List Place) :
    (visited pass places).Sublist places := by
  induction places with
  | nil => exact .slnil
  | cons place rest ih =>
      rw [visited]
      split
      · exact ih.cons_cons place
      · exact (List.nil_sublist rest).cons_cons place

section Ascent

variable {Below : Place → Place → Prop} {places : List Place}

/-- A walk upward visits the places that all places below them pass it on to. -/
theorem mem_visited {pass : Place → Bool} (asymmetric : ∀ a b, Below a b → ¬ Below b a)
    (ascending : places.Pairwise Below) (place : Place) : place ∈ visited pass places ↔
      place ∈ places ∧ ∀ below ∈ places, Below below place → pass below = true := by
  induction places with
  | nil => simp [visited]
  | cons first rest ih =>
      obtain ⟨lowest, ascending⟩ := List.pairwise_cons.mp ascending
      have bottom : ∀ below ∈ first :: rest, ¬ Below below first := by
        intro below member under
        rcases List.mem_cons.mp member with rfl | later
        · exact asymmetric below below under under
        · exact asymmetric first below (lowest below later) under
      rw [visited, List.mem_cons, List.mem_cons, List.forall_mem_cons]
      by_cases same : place = first
      · subst same
        exact iff_of_true (.inl rfl) ⟨.inl rfl, fun under => absurd under
          (bottom place List.mem_cons_self), fun below member under => absurd under
          (bottom below (List.mem_cons_of_mem _ member))⟩
      · rw [or_iff_right same, or_iff_right same]
        split
        · rename_i passed
          rw [ih ascending]
          exact and_congr_right fun _ => (and_iff_right fun _ => passed).symm
        · rename_i stopped
          exact iff_of_false List.not_mem_nil fun found => stopped (found.2.1 (lowest place found.1))

/-- A search upward finds the value of a place without any value below it. -/
theorem findSome?_ascending {Value : Type*} {find : Place → Option Value} {value : Value}
    (asymmetric : ∀ a b, Below a b → ¬ Below b a) (ascending : places.Pairwise Below) :
    places.findSome? find = some value ↔ ∃ place ∈ places, find place = some value ∧
      ∀ below ∈ places, Below below place → find below = none := by
  induction places with
  | nil => simp
  | cons first rest ih =>
      obtain ⟨lowest, ascending⟩ := List.pairwise_cons.mp ascending
      rw [List.findSome?_cons]
      cases own : find first with
      | some other =>
          constructor
          · intro same
            refine ⟨first, List.mem_cons_self, own.trans same, fun below member under => ?_⟩
            rcases List.mem_cons.mp member with rfl | later
            · exact absurd under (asymmetric below below under)
            · exact absurd under (asymmetric first below (lowest below later))
          · rintro ⟨place, member, found, free⟩
            rcases List.mem_cons.mp member with rfl | later
            · exact own.symm.trans found
            · exact absurd (own.symm.trans (free first List.mem_cons_self (lowest place later)))
                nofun
      | none =>
          rw [ih ascending]
          constructor
          · rintro ⟨place, member, found, free⟩
            refine ⟨place, List.mem_cons_of_mem _ member, found, fun below inside under => ?_⟩
            rcases List.mem_cons.mp inside with rfl | later
            · exact own
            · exact free below later under
          · rintro ⟨place, member, found, free⟩
            rcases List.mem_cons.mp member with rfl | later
            · exact absurd (own.symm.trans found) nofun
            · exact ⟨place, later, found, fun below inside under =>
                free below (List.mem_cons_of_mem _ inside) under⟩

end Ascent

section Counts

variable {Item : Type*}

/-- Each place that lists an item once counts once. -/
theorem count_flatMap [DecidableEq Item] {places : List Place} (listed : Place → List Item)
    (distinct : places.Nodup) (once : ∀ place ∈ places, (listed place).Nodup) (item : Item) :
    (places.flatMap listed).count item = {place | place ∈ places ∧ item ∈ listed place}.ncard := by
  classical
  have counted : (places.flatMap listed).count item =
      (places.filter fun place => item ∈ listed place).length := by
    rw [List.count_flatMap, ← List.countP_eq_length_filter]
    induction places with
    | nil => rfl
    | cons place places ih =>
        obtain ⟨-, others⟩ := List.nodup_cons.mp distinct
        obtain ⟨own, once⟩ := List.forall_mem_cons.mp once
        rw [List.map_cons, List.sum_cons, List.countP_cons, ih others once, add_comm]
        congr 1
        rw [Function.comp_apply, own.count]
        simp only [decide_eq_true_eq]
  have finite : {place | place ∈ places ∧ item ∈ listed place} =
      ((places.filter fun place => item ∈ listed place).toFinset : Set Place) := by
    ext place
    simp
  rw [counted, finite, Set.ncard_coe_finset, List.toFinset_card_of_nodup (distinct.filter _)]

/-- A loop that changes the items of some positions changes each of them as often as it comes. -/
theorem foldl_modify (change : Item → Item) (positions : List Nat) (items : List Item) (i : Nat) :
    (positions.foldl (fun items position => items.modify position change) items)[i]? =
      (items[i]?).map change^[positions.count i] := by
  induction positions generalizing items with
  | nil => simp
  | cons position positions ih =>
      rw [List.foldl_cons, ih, List.getElem?_modify, List.count_cons]
      by_cases same : position = i
      · simp only [same, if_true, beq_self_eq_true]
        rw [Option.map_eq_map, Option.map_map, ← Function.iterate_succ]
      · simp only [same, if_false, beq_iff_eq, add_zero]
        exact congrArg _ (Option.map_id' ..)

end Counts

end CodeCollect.Library
