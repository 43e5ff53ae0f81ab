import Mathlib

namespace CodeCollect.Library

open SimpleGraph

variable {V A : Type*}

section Exchange

/-- An edge on the path between two vertices is no bridge once these are joined. -/
theorem not_isBridge_of_mem_path {T : SimpleGraph V} {u v : V} (differ : u ≠ v)
    (absent : ¬ T.Adj u v) {path : T.Walk u v} (isPath : path.IsPath) {other : Sym2 V}
    (member : other ∈ path.edges) : ¬ (T ⊔ edge u v).IsBridge other := by
  intro bridge
  have joined : (T ⊔ edge u v).Adj v u :=
    Or.inr ((edge_adj ..).mpr ⟨Or.inr ⟨rfl, rfl⟩, differ.symm⟩)
  let wider := path.mapLe (le_sup_left : T ≤ T ⊔ edge u v)
  have edges : wider.edges = path.edges := by simp [wider]
  have cycle : (Walk.cons joined wider).IsCycle := by
    refine (Walk.cons_isCycle_iff wider joined).mpr ⟨isPath.mapLe _, fun inside => absent ?_⟩
    rw [edges] at inside
    exact (path.adj_of_mem_edges inside).symm
  refine bridge.notMem_edges_of_isCycle cycle ?_
  rw [Walk.edges_cons, edges]
  exact List.mem_cons_of_mem _ member

/-- An edge that crosses a cut replaces an edge of a tree that crosses the cut. -/
theorem exists_exchange [Finite V] {T : SimpleGraph V} (tree : T.IsTree) {inside : Set V} {u v : V}
    (uInside : u ∈ inside) (vOutside : v ∉ inside) :
    ∃ a ∈ inside, ∃ b ∉ inside, T.Adj a b ∧ s(u, v) ∉ T.edgeSet \ {s(a, b)} ∧
      ∃ T' : SimpleGraph V, T'.IsTree ∧ T'.edgeSet = insert s(u, v) (T.edgeSet \ {s(a, b)}) := by
  by_cases present : T.Adj u v
  · refine ⟨u, uInside, v, vOutside, present, fun kept => kept.2 rfl, T, tree, ?_⟩
    rw [Set.insert_sdiff_singleton, Set.insert_eq_of_mem ((mem_edgeSet T).mpr present)]
  · have differ : u ≠ v := fun same => vOutside (same ▸ uInside)
    obtain ⟨path, isPath⟩ := tree.connected.exists_isPath u v
    obtain ⟨dart, member, first, second⟩ := path.exists_boundary_dart inside uInside vOutside
    have onPath : s(dart.fst, dart.snd) ∈ path.edges := List.mem_map_of_mem member
    have notNew : s(u, v) ≠ s(dart.fst, dart.snd) := by
      intro same
      have inTree : s(dart.fst, dart.snd) ∈ T.edgeSet := path.edges_subset_edgeSet onPath
      rw [← same] at inTree
      exact present inTree
    have edges : ((T ⊔ edge u v).deleteEdges {s(dart.fst, dart.snd)}).edgeSet =
        insert s(u, v) (T.edgeSet \ {s(dart.fst, dart.snd)}) := by
      rw [edgeSet_deleteEdges, edgeSet_sup, edgeSet_edge_of_ne differ, Set.union_singleton]
      exact Set.insert_sdiff_of_notMem _ notNew
    refine ⟨dart.fst, first, dart.snd, second, dart.adj, fun kept => present kept.1,
      (T ⊔ edge u v).deleteEdges {s(dart.fst, dart.snd)}, ?_, edges⟩
    rw [isTree_iff_connected_and_card]
    constructor
    · exact (tree.connected.mono le_sup_left).connected_delete_edge_of_not_isBridge
        (not_isBridge_of_mem_path differ present isPath onPath)
    · rw [edges, ← (isTree_iff_connected_and_card.mp tree).2]
      congr 1
      have inTree : s(dart.fst, dart.snd) ∈ T.edgeSet := path.edges_subset_edgeSet onPath
      rw [Nat.card_coe_set_eq, Nat.card_coe_set_eq,
        Set.ncard_insert_of_notMem (fun kept => present kept.1) (Set.toFinite _),
        Set.ncard_sdiff_singleton_add_one inTree (Set.toFinite _)]

end Exchange

section Greedy

open Classical in
/-- The weight of all edges of a graph. -/
noncomputable def totalWeight [Fintype V] [AddCommMonoid A] (weight : Sym2 V → A)
    (T : SimpleGraph V) : A := ∑ e ∈ T.edgeFinset, weight e

variable [Fintype V] [DecidableEq V] [AddCommGroup A] [LinearOrder A] [IsOrderedAddMonoid A]
  {weight : Sym2 V → A} {chosen : Finset (Sym2 V)}

/-- Each tree can be made to contain the chosen edges without losing weight. -/
def Extensible (weight : Sym2 V → A) (chosen : Finset (Sym2 V)) : Prop :=
  ∀ T : SimpleGraph V, T.IsTree → ∃ T' : SimpleGraph V, T'.IsTree ∧ ↑chosen ⊆ T'.edgeSet ∧
    totalWeight weight T ≤ totalWeight weight T'

namespace Extensible

omit [DecidableEq V] [IsOrderedAddMonoid A] in
theorem empty : Extensible weight ∅ := fun T tree => ⟨T, tree, by simp, le_rfl⟩

omit [LinearOrder A] [IsOrderedAddMonoid A] in
/-- An exchange of edges exchanges their weights. -/
theorem totalWeight_exchange {T T' : SimpleGraph V} {a b u v : V} (removed : T.Adj a b)
    (edges : T'.edgeSet = insert s(u, v) (T.edgeSet \ {s(a, b)}))
    (added : s(u, v) ∉ T.edgeSet \ {s(a, b)}) :
    totalWeight weight T' + weight s(a, b) = totalWeight weight T + weight s(u, v) := by
  classical
  have finite : T'.edgeFinset = insert s(u, v) (T.edgeFinset.erase s(a, b)) := by
    ext e
    rw [mem_edgeFinset, edges]
    simp [and_comm]
  have absent : s(u, v) ∉ T.edgeFinset.erase s(a, b) := by
    intro member
    obtain ⟨differ, inside⟩ := Finset.mem_erase.mp member
    exact added ⟨mem_edgeFinset.mp inside, differ⟩
  have split := Finset.sum_erase_add T.edgeFinset weight
    (mem_edgeFinset.mpr ((mem_edgeSet T).mpr removed))
  unfold totalWeight
  rw [finite, Finset.sum_insert absent, ← split]
  abel

/-- A heaviest edge that leaves the vertices of the chosen edges can be chosen next. -/
theorem insert_heaviest (extensible : Extensible weight chosen) {inside : Set V}
    (within : ∀ e ∈ chosen, ∀ x ∈ e, x ∈ inside) {u v : V} (uInside : u ∈ inside)
    (vOutside : v ∉ inside)
    (heaviest : ∀ a ∈ inside, ∀ b ∉ inside, weight s(a, b) ≤ weight s(u, v)) :
    Extensible weight (insert s(u, v) chosen) := by
  intro T tree
  obtain ⟨T₁, tree₁, contains, more⟩ := extensible T tree
  obtain ⟨a, aInside, b, bOutside, removed, fresh, T₂, tree₂, edges⟩ :=
    exists_exchange tree₁ uInside vOutside
  refine ⟨T₂, tree₂, ?_, more.trans ?_⟩
  · rw [edges, Finset.coe_insert]
    refine Set.insert_subset_insert fun e member => ⟨contains member, fun same => ?_⟩
    obtain rfl := Set.mem_singleton_iff.mp same
    exact bOutside (within _ member b (Sym2.mem_mk_right a b))
  · have exchanged : totalWeight weight T₂ + weight s(a, b) =
        totalWeight weight T₁ + weight s(u, v) := totalWeight_exchange removed edges fresh
    refine le_of_add_le_add_right (a := weight s(a, b)) ?_
    rw [exchanged]
    exact add_le_add_right (heaviest a aInside b bOutside) _

omit [DecidableEq V] [IsOrderedAddMonoid A] in
/-- Enough edges are a tree of maximal weight. -/
theorem isTree [Nonempty V] (extensible : Extensible weight chosen)
    (card : chosen.card + 1 = Fintype.card V) :
    (fromEdgeSet (chosen : Set (Sym2 V))).IsTree ∧
      ∀ T : SimpleGraph V, T.IsTree → totalWeight weight T ≤ ∑ e ∈ chosen, weight e := by
  classical
  have maximal : ∀ T : SimpleGraph V, T.IsTree → ∃ T' : SimpleGraph V, T'.IsTree ∧
      T'.edgeFinset = chosen ∧ totalWeight weight T ≤ totalWeight weight T' := by
    intro T tree
    obtain ⟨T', tree', contains, more⟩ := extensible T tree
    refine ⟨T', tree', (Finset.eq_of_subset_of_card_le ?_ ?_).symm, more⟩
    · intro e member
      exact mem_edgeFinset.mpr (contains member)
    · have count := tree'.card_edgeFinset
      omega
  constructor
  · obtain ⟨T, _, tree⟩ := (connected_top : (completeGraph V).Connected).exists_isTree_le
    obtain ⟨T', tree', same, _⟩ := maximal T tree
    rw [← same, coe_edgeFinset, fromEdgeSet_edgeSet]
    exact tree'
  · intro T tree
    obtain ⟨T', _, same, more⟩ := maximal T tree
    refine more.trans (le_of_eq ?_)
    unfold totalWeight
    rw [← same]

end Extensible

end Greedy

end CodeCollect.Library
