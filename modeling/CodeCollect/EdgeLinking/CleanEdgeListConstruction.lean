import CodeCollect.EdgeLinking.CleanEdgeListGraph

namespace CodeCollect.EdgeLinking

variable {Point : Type} [DecidableEq Point]

theorem mem_nodePairs {Nnodes n m : Nat} :
    (n, m) ∈ nodePairs Nnodes ↔ 1 ≤ n ∧ n < m ∧ m ≤ Nnodes := by
  simp only [nodePairs, List.mem_flatMap, List.mem_map, List.mem_range'_1, Prod.mk.injEq]
  constructor
  · rintro ⟨n, first, m, second, rfl, rfl⟩
    omega
  · intro inside
    exact ⟨n, by omega, m, by omega, rfl, rfl⟩

namespace State

section Connecting

variable {state : State Point} {pair : Nat × Nat} {pairs : List (Nat × Nat)} {n m p q i j : Nat}

theorem connect_edgelist : (state.connect pair).edgelist = state.edgelist := rfl

theorem node_connect : (state.connect pair).node p = state.node p := rfl

theorem connect_A : (state.connect (n, m)).A p q =
    if (p = n ∧ q = m) ∨ (p = m ∧ q = n) then decide (state.node n = state.node m)
    else state.A p q := by
  simp only [connect, AdjacencyMatrix.setRow_apply, Function.update_apply]
  grind

theorem connect_B : (state.connect (n, m)).B i j = true ↔ state.B i j = true ∨
    state.node n = state.node m ∧
      ((i = edgeOf n ∧ j = edgeOf m) ∨ (i = edgeOf m ∧ j = edgeOf n)) := by
  by_cases same : state.node n = state.node m
  · simp only [connect, same, decide_true, if_true, AdjacencyMatrix.setRow_apply,
      Function.update_apply, true_and]
    grind
  · simp only [connect, same, decide_false, false_and, or_false, Bool.false_eq_true, if_false]

theorem node_connects : (pairs.foldl connect state).node p = state.node p := by
  induction pairs generalizing state with
  | nil => rfl
  | cons pair pairs ih => exact ih.trans node_connect

/-- The pairs that are connected are those of the same point. -/
theorem connects_A : (pairs.foldl connect state).A p q =
    if (p, q) ∈ pairs ∨ (q, p) ∈ pairs then decide (state.node p = state.node q)
    else state.A p q := by
  induction pairs generalizing state with
  | nil => simp
  | cons pair pairs ih =>
      obtain ⟨n, m⟩ := pair
      rw [List.foldl_cons, ih, node_connect, node_connect, connect_A]
      simp only [List.mem_cons, Prod.mk.injEq]
      by_cases later : (p, q) ∈ pairs ∨ (q, p) ∈ pairs
      · rw [if_pos later, if_pos (by tauto)]
      · rw [if_neg later]
        by_cases here : (p = n ∧ q = m) ∨ (p = m ∧ q = n)
        · rw [if_pos here, if_pos (by tauto)]
          rcases here with ⟨rfl, rfl⟩ | ⟨rfl, rfl⟩
          · rfl
          · exact decide_eq_decide.mpr eq_comm
        · rw [if_neg here, if_neg (by tauto)]

theorem connects_B : (pairs.foldl connect state).B i j = true ↔ state.B i j = true ∨
    ∃ n m, (n, m) ∈ pairs ∧ state.node n = state.node m ∧
      ((i = edgeOf n ∧ j = edgeOf m) ∨ (i = edgeOf m ∧ j = edgeOf n)) := by
  induction pairs generalizing state with
  | nil => simp
  | cons pair pairs ih =>
      obtain ⟨n, m⟩ := pair
      rw [List.foldl_cons, ih, connect_B]
      simp only [node_connect, List.mem_cons, Prod.mk.injEq]
      constructor
      · rintro ((old | ⟨same, here⟩) | ⟨n', m', member, same, here⟩)
        · exact .inl old
        · exact .inr ⟨n, m, .inl ⟨rfl, rfl⟩, same, here⟩
        · exact .inr ⟨n', m', .inr member, same, here⟩
      · rintro (old | ⟨n', m', ⟨rfl, rfl⟩ | member, same, here⟩)
        · exact .inl (.inl old)
        · exact .inl (.inr ⟨same, here⟩)
        · exact .inr ⟨n', m', member, same, here⟩

theorem connects_edgelist : (pairs.foldl connect state).edgelist = state.edgelist := by
  induction pairs generalizing state with
  | nil => rfl
  | cons pair pairs ih => exact ih.trans connect_edgelist

theorem connects_Nedges : (pairs.foldl connect state).Nedges = state.Nedges := by
  induction pairs generalizing state with
  | nil => rfl
  | cons pair pairs ih => exact ih

end Connecting

section Construction

variable {edgelist : List (List Point)} {edge p q : Nat}

/-- The given list of this number. -/
def input (edgelist : List (List Point)) (edge : Nat) : List Point := (edgelist[edge - 1]?).getD []

theorem construction_edgelist : (construction edgelist).edgelist = input edgelist :=
  connects_edgelist

theorem construction_Nedges : (construction edgelist).Nedges = edgelist.length :=
  connects_Nedges

variable (nonempty : ∀ points ∈ edgelist, points ≠ [])

include nonempty

omit [DecidableEq Point] in
theorem input_ne_nil (positive : 1 ≤ edge) (inside : edge ≤ edgelist.length) :
    input edgelist edge ≠ [] := by
  rw [input, List.getElem?_eq_getElem (by omega), Option.getD_some]
  exact nonempty _ (List.getElem_mem _)

theorem liveEdge_construction :
    (construction edgelist).LiveEdge edge ↔ 1 ≤ edge ∧ edge ≤ edgelist.length := by
  rw [LiveEdge, construction_Nedges, construction_edgelist]
  exact and_iff_left_of_imp fun inside => input_ne_nil nonempty inside.1 inside.2

theorem liveNode_construction :
    (construction edgelist).LiveNode p ↔ 1 ≤ p ∧ p ≤ 2 * edgelist.length := by
  rw [LiveNode, liveEdge_construction nonempty, edgeOf]
  omega

/-- The matrices that are built say which ends coincide. -/
theorem consistent_construction : (construction edgelist).Consistent where
  nodes := by
    intro p q
    rw [liveNode_construction nonempty, liveNode_construction nonempty]
    change (List.foldl connect _ _).A p q = true ↔ _ ∧ _ ∧ _ ∧
      (List.foldl connect _ _).node p = (List.foldl connect _ _).node q
    rw [connects_A, node_connects, node_connects]
    split
    · rename_i ordered
      rw [mem_nodePairs, mem_nodePairs] at ordered
      rw [decide_eq_true_eq]
      constructor
      · intro same
        exact ⟨by omega, by omega, by omega, same⟩
      · rintro ⟨-, -, -, same⟩
        exact same
    · rename_i unordered
      rw [mem_nodePairs, mem_nodePairs] at unordered
      refine iff_of_false Bool.false_ne_true ?_
      rintro ⟨first, second, apart, -⟩
      omega
  edges := by
    intro i j apart
    rw [liveEdge_construction nonempty, liveEdge_construction nonempty]
    change (List.foldl connect _ _).B i j = true ↔ _
    rw [connects_B]
    constructor
    · rintro (old | ⟨n, m, member, same, here⟩)
      · exact absurd old Bool.false_ne_true
      · rw [mem_nodePairs] at member
        have touch : (construction edgelist).Touch (edgeOf n) (edgeOf m) :=
          ⟨n, m, rfl, rfl, node_connects.trans (same.trans node_connects.symm)⟩
        rcases here with ⟨rfl, rfl⟩ | ⟨rfl, rfl⟩
        · refine ⟨?_, ?_, touch⟩ <;> rw [edgeOf] <;> omega
        · refine ⟨?_, ?_, touch.symm⟩ <;> rw [edgeOf] <;> omega
    · rintro ⟨first, second, p, q, rfl, rfl, same⟩
      have met := node_connects.symm.trans (same.trans node_connects)
      rw [edgeOf] at first second
      have distinct : p ≠ q := fun equal => apart (congrArg edgeOf equal)
      rcases Nat.lt_or_gt_of_ne distinct with less | more
      · exact .inr ⟨p, q, mem_nodePairs.mpr (by omega), met, .inl ⟨rfl, rfl⟩⟩
      · exact .inr ⟨q, p, mem_nodePairs.mpr (by omega), met.symm, .inr ⟨rfl, rfl⟩⟩
  loops := by
    intro i looped
    rw [liveEdge_construction nonempty]
    rcases connects_B.mp looped with old | ⟨n, m, member, same, here⟩
    · exact absurd old Bool.false_ne_true
    · rw [mem_nodePairs] at member
      have mine : i = edgeOf n ∧ i = edgeOf m := by
        rcases here with here | here
        · exact here
        · exact here.symm
      have ends : n = startnode i ∧ m = endnode i := by
        rw [edgeOf, edgeOf] at mine
        rw [startnode, endnode]
        omega
      refine ⟨by rw [mine.1, edgeOf]; omega, ?_⟩
      rw [← ends.1, ← ends.2]
      exact node_connects.trans (same.trans node_connects.symm)
  Nconnections _ _ := rfl
  Econnections _ _ := rfl

end Construction

end State

end CodeCollect.EdgeLinking
