import CodeCollect.EdgeLinking.CleanEdgeList
import Mathlib.Algebra.Group.Int.Defs
import Mathlib.Algebra.BigOperators.Group.List.Basic
import Mathlib.Tactic.Ring

namespace CodeCollect.EdgeLinking

variable {Point : Type}

/-- The node at the other end of the list. -/
def opposite (node : Nat) : Nat := if node % 2 = 1 then node + 1 else node - 1

section Numbers

variable {edge node other : Nat}

theorem edgeOf_startnode (positive : 1 ≤ edge) : edgeOf (startnode edge) = edge := by
  rw [edgeOf, startnode]
  omega

theorem edgeOf_endnode : edgeOf (endnode edge) = edge := by
  rw [edgeOf, endnode]
  omega

theorem startnode_ne_endnode (positive : 1 ≤ edge) : startnode edge ≠ endnode edge := by
  rw [startnode, endnode]
  omega

theorem edgeOf_eq_iff (positive : 1 ≤ edge) :
    edgeOf node = edge ↔ node = startnode edge ∨ node = endnode edge := by
  rw [edgeOf, startnode, endnode]
  omega

theorem edgeOf_opposite (positive : 1 ≤ edgeOf node) : edgeOf (opposite node) = edgeOf node := by
  rw [edgeOf] at positive
  rw [edgeOf, edgeOf, opposite]
  split <;> omega

theorem eq_or_opposite (positive : 1 ≤ edgeOf node) :
    edgeOf other = edgeOf node ↔ other = node ∨ other = opposite node := by
  rw [edgeOf] at positive
  rw [edgeOf, edgeOf, opposite]
  split <;> omega

/-- The two ends of a list are a node and its opposite, in one of the two orders. -/
theorem ends_eq (positive : 1 ≤ edgeOf node) :
    (node % 2 = 1 ∧ startnode (edgeOf node) = node ∧ endnode (edgeOf node) = opposite node) ∨
      (node % 2 = 0 ∧ startnode (edgeOf node) = opposite node ∧ endnode (edgeOf node) = node) := by
  rw [edgeOf] at *
  rw [startnode, endnode, opposite]
  split <;> omega

end Numbers

namespace AdjacencyMatrix

variable {matrix other : AdjacencyMatrix} {size row column : Nat}

theorem setRow_apply {number : Nat} {values : Nat → Bool} :
    matrix.setRow number values row column = if row = number then values column else
      matrix row column := by
  rw [setRow, Function.update_apply]
  split <;> rfl

theorem setColumn_apply {number : Nat} {values : Nat → Bool} :
    matrix.setColumn number values row column = if column = number then values row else
      matrix row column := by
  rw [setColumn, Function.update_apply]

theorem copyNode_apply (target source : Nat) :
    matrix.copyNode target source row column =
      matrix (if row = target then source else row) (if column = target then source else column) := by
  simp only [copyNode, setColumn_apply, setRow_apply]
  split <;> split <;> rfl

theorem sum_map_cleared {numbers : List Nat} {value : Nat} {term : Nat → Int}
    (distinct : numbers.Nodup) (member : value ∈ numbers) :
    (numbers.map fun number => if number = value then 0 else term number).sum =
      (numbers.map term).sum - term value := by
  induction numbers with
  | nil => exact absurd member List.not_mem_nil
  | cons number numbers ih =>
      obtain ⟨fresh, distinct⟩ := List.nodup_cons.mp distinct
      rw [List.map_cons, List.map_cons, List.sum_cons, List.sum_cons]
      by_cases here : number = value
      · subst here
        have same : numbers.map (fun other => if other = number then 0 else term other) =
            numbers.map term := by
          refine List.map_congr_left fun other inside => if_neg ?_
          exact fun equal => fresh (equal ▸ inside)
        rw [if_pos rfl, same]
        ring
      · rw [if_neg here, ih distinct ((List.mem_cons.mp member).resolve_left fun equal =>
          here equal.symm)]
        ring

/-- Without a row the sum of a column is less by the entry in it. -/
theorem sum_cleared (positive : 1 ≤ row) (inside : row ≤ size)
    (cleared : ∀ number, other number column = if number = row then false else matrix number column) :
    other.sum size column = matrix.sum size column - matrix.entry row column := by
  rw [sum, sum, ← sum_map_cleared (List.nodup_range') (List.mem_range'_1.mpr ⟨positive, by omega⟩)]
  refine congrArg List.sum (List.map_congr_left fun number _ => ?_)
  rw [entry, cleared]
  by_cases same : number = row
  · rw [if_pos same, if_pos same]
    rfl
  · rw [if_neg same, if_neg same]
    rfl

theorem sum_congr (same : ∀ number, other number column = matrix number column) :
    other.sum size column = matrix.sum size column := by
  rw [sum, sum]
  refine congrArg List.sum (List.map_congr_left fun number _ => ?_)
  rw [entry, entry, same]

/-- The sum of a column is the number of entries that are found in it. -/
theorem sum_eq_length (symmetric : ∀ number, matrix number column = matrix column number) :
    matrix.sum size column = (find size (matrix column)).length := by
  rw [sum, find]
  induction List.range' 1 size with
  | nil => rfl
  | cons number numbers ih =>
      rw [List.map_cons, List.sum_cons, ih, List.filter_cons, entry, symmetric]
      by_cases here : matrix column number = true
      · rw [if_pos here, if_pos here, List.length_cons]
        push_cast
        ring
      · rw [if_neg here, if_neg here]
        ring

theorem mem_find {values : Nat → Bool} {number : Nat} :
    number ∈ find size values ↔ (1 ≤ number ∧ number ≤ size) ∧ values number = true := by
  rw [find, List.mem_filter, List.mem_range'_1, Nat.add_comm, Nat.lt_succ_iff]

theorem nodup_find {values : Nat → Bool} : (find size values).Nodup :=
  (List.nodup_range' ..).sublist List.filter_sublist

/-- The union of two edges in a place apart from the diagonal. -/
theorem uniteEdges_apply {edge1 edge2 : Nat} (apart : row ≠ column) :
    State.uniteEdges matrix edge1 edge2 row column =
      if row = edge1 then matrix edge1 column || matrix edge2 column
      else if column = edge1 then matrix row edge1 || matrix row edge2
      else matrix row column := by
  simp only [State.uniteEdges, setRow_apply, setColumn_apply, Function.update_apply]
  split <;> split <;> simp_all

theorem uniteEdges_diagonal {edge1 edge2 : Nat} :
    State.uniteEdges matrix edge1 edge2 row row =
      if row = edge1 then false else matrix row row := by
  simp only [State.uniteEdges, setRow_apply, setColumn_apply, Function.update_apply]
  split <;> simp_all

end AdjacencyMatrix

namespace State

def LiveEdge (state : State Point) (edge : Nat) : Prop :=
  (1 ≤ edge ∧ edge ≤ state.Nedges) ∧ state.edgelist edge ≠ []

def LiveNode (state : State Point) (node : Nat) : Prop := state.LiveEdge (edgeOf node)

/-- Some end of the one list coincides with some end of the other. -/
def Touch (state : State Point) (edge other : Nat) : Prop :=
  ∃ p q, edgeOf p = edge ∧ edgeOf q = other ∧ state.node p = state.node q

/-- The matrices say which ends coincide, and the counts are their sums; nothing is kept of removed
lists. -/
structure Consistent (state : State Point) : Prop where
  nodes : ∀ p q, state.A p q = true ↔
    state.LiveNode p ∧ state.LiveNode q ∧ p ≠ q ∧ state.node p = state.node q
  edges : ∀ i j, i ≠ j → (state.B i j = true ↔
    state.LiveEdge i ∧ state.LiveEdge j ∧ state.Touch i j)
  loops : ∀ i, state.B i i = true → state.LiveEdge i ∧
    state.node (startnode i) = state.node (endnode i)
  Nconnections : ∀ p, state.LiveNode p → state.Nconnections p = state.A.sum (2 * state.Nedges) p
  Econnections : ∀ i, state.LiveEdge i → state.Econnections i = state.B.sum state.Nedges i

variable {state : State Point} {edge other n1 n2 p q : Nat}

theorem Touch.symm (touch : state.Touch edge other) : state.Touch other edge := by
  obtain ⟨p, q, first, second, same⟩ := touch
  exact ⟨q, p, second, first, same.symm⟩

namespace Consistent

variable (consistent : state.Consistent)

include consistent

theorem nodes_symm (p q : Nat) : state.A p q = state.A q p := by
  rw [Bool.eq_iff_iff, consistent.nodes, consistent.nodes]
  constructor
  · rintro ⟨first, second, apart, same⟩
    exact ⟨second, first, apart.symm, same.symm⟩
  · rintro ⟨first, second, apart, same⟩
    exact ⟨second, first, apart.symm, same.symm⟩

theorem edges_symm (i j : Nat) : state.B i j = state.B j i := by
  by_cases apart : i = j
  · rw [apart]
  · rw [Bool.eq_iff_iff, consistent.edges i j apart, consistent.edges j i (Ne.symm apart)]
    constructor
    · rintro ⟨first, second, touch⟩
      exact ⟨second, first, touch.symm⟩
    · rintro ⟨first, second, touch⟩
      exact ⟨second, first, touch.symm⟩

/-- The connections of a live node are counted in its row. -/
theorem Nconnections_eq_length (live : state.LiveNode p) :
    state.Nconnections p = (AdjacencyMatrix.find (2 * state.Nedges) (state.A p)).length := by
  rw [consistent.Nconnections p live,
    AdjacencyMatrix.sum_eq_length fun number => consistent.nodes_symm number p]

theorem Econnections_eq_length (live : state.LiveEdge edge) :
    state.Econnections edge = (AdjacencyMatrix.find state.Nedges (state.B edge)).length := by
  rw [consistent.Econnections edge live,
    AdjacencyMatrix.sum_eq_length fun number => consistent.edges_symm number edge]

/-- In the row of a node stand the other live nodes at its point. -/
theorem mem_find (live : state.LiveNode p) :
    q ∈ AdjacencyMatrix.find (2 * state.Nedges) (state.A p) ↔
      state.LiveNode q ∧ p ≠ q ∧ state.node p = state.node q := by
  rw [AdjacencyMatrix.mem_find, consistent.nodes]
  constructor
  · rintro ⟨-, -, other, apart, same⟩
    exact ⟨other, apart, same⟩
  · rintro ⟨other, apart, same⟩
    refine ⟨?_, live, other, apart, same⟩
    have inside := other.1
    rw [edgeOf] at inside
    omega

end Consistent

section Removal

theorem removeedge_A (positive : 1 ≤ edge) : (state.removeedge edge).A p q =
    if edgeOf p = edge ∨ edgeOf q = edge then false else state.A p q := by
  simp only [removeedge, AdjacencyMatrix.setColumn_apply, AdjacencyMatrix.setRow_apply,
    edgeOf_eq_iff positive]
  grind

theorem removeedge_B : (state.removeedge edge).B p q =
    if p = edge ∨ q = edge then false else state.B p q := by
  simp only [removeedge, AdjacencyMatrix.setColumn_apply, AdjacencyMatrix.setRow_apply]
  grind

theorem removeedge_edgelist :
    (state.removeedge edge).edgelist = Function.update state.edgelist edge [] := rfl

theorem removeedge_Nedges : (state.removeedge edge).Nedges = state.Nedges := rfl

theorem liveEdge_removeedge :
    (state.removeedge edge).LiveEdge other ↔ state.LiveEdge other ∧ other ≠ edge := by
  rw [LiveEdge, LiveEdge, removeedge_edgelist, removeedge_Nedges]
  by_cases same : other = edge
  · simp [same]
  · simp [same]

theorem node_removeedge (apart : edgeOf p ≠ edge) : (state.removeedge edge).node p = state.node p := by
  rw [node, node, removeedge_edgelist, Function.update_of_ne apart]

/-- The counts stay the sums when a list is removed. -/
theorem removeedge_Nconnections (positive : 1 ≤ edge) (inside : edge ≤ state.Nedges)
    (apart : edgeOf p ≠ edge)
    (counted : state.Nconnections p = state.A.sum (2 * state.Nedges) p) :
    (state.removeedge edge).Nconnections p =
      (state.removeedge edge).A.sum (2 * (state.removeedge edge).Nedges) p := by
  change state.Nconnections p - state.A.entry (startnode edge) p - state.A.entry (endnode edge) p = _
  let half : AdjacencyMatrix := state.A.setRow (startnode edge) fun _ => false
  have first : half.sum (2 * state.Nedges) p = state.A.sum (2 * state.Nedges) p -
      state.A.entry (startnode edge) p :=
    AdjacencyMatrix.sum_cleared (by rw [startnode]; omega) (by rw [startnode]; omega) fun _ =>
      AdjacencyMatrix.setRow_apply
  have second : (state.removeedge edge).A.sum (2 * state.Nedges) p =
      half.sum (2 * state.Nedges) p - half.entry (endnode edge) p := by
    refine AdjacencyMatrix.sum_cleared (by rw [endnode]; omega) (by rw [endnode]; omega) fun row => ?_
    simp only [removeedge_A positive, edgeOf_eq_iff positive, half, AdjacencyMatrix.setRow_apply]
    rw [ne_eq, edgeOf_eq_iff positive] at apart
    grind
  have kept : half.entry (endnode edge) p = state.A.entry (endnode edge) p := by
    have same : half (endnode edge) p = state.A (endnode edge) p :=
      AdjacencyMatrix.setRow_apply.trans (if_neg (startnode_ne_endnode positive).symm)
    rw [AdjacencyMatrix.entry, AdjacencyMatrix.entry, same]
  rw [removeedge_Nedges, second, first, counted, kept]

theorem removeedge_Econnections (positive : 1 ≤ edge) (inside : edge ≤ state.Nedges)
    (apart : other ≠ edge)
    (counted : state.Econnections other = state.B.sum state.Nedges other) :
    (state.removeedge edge).Econnections other =
      (state.removeedge edge).B.sum (state.removeedge edge).Nedges other := by
  have cleared : (state.removeedge edge).B.sum state.Nedges other =
      state.B.sum state.Nedges other - state.B.entry edge other := by
    refine AdjacencyMatrix.sum_cleared positive inside fun row => ?_
    simp only [removeedge_B, apart, or_false]
  rw [removeedge_Nedges, cleared, ← counted]
  simp only [removeedge]
  rw [Function.update_of_ne apart]

/-- The state is consistent but for one list. -/
structure ConsistentApart (state : State Point) (gone : Nat) : Prop where
  nodes : ∀ p q, edgeOf p ≠ gone → edgeOf q ≠ gone → (state.A p q = true ↔
    state.LiveNode p ∧ state.LiveNode q ∧ p ≠ q ∧ state.node p = state.node q)
  edges : ∀ i j, i ≠ j → i ≠ gone → j ≠ gone → (state.B i j = true ↔
    state.LiveEdge i ∧ state.LiveEdge j ∧ state.Touch i j)
  loops : ∀ i, i ≠ gone → state.B i i = true → state.LiveEdge i ∧
    state.node (startnode i) = state.node (endnode i)
  Nconnections : ∀ p, edgeOf p ≠ gone → state.LiveNode p →
    state.Nconnections p = state.A.sum (2 * state.Nedges) p
  Econnections : ∀ i, i ≠ gone → state.LiveEdge i →
    state.Econnections i = state.B.sum state.Nedges i

theorem Consistent.apart (consistent : state.Consistent) (gone : Nat) :
    state.ConsistentApart gone where
  nodes p q _ _ := consistent.nodes p q
  edges i j distinct _ _ := consistent.edges i j distinct
  loops i _ := consistent.loops i
  Nconnections p _ := consistent.Nconnections p
  Econnections i _ := consistent.Econnections i

/-- Without the list the state is consistent. -/
theorem ConsistentApart.removeedge (consistent : state.ConsistentApart edge)
    (inside : 1 ≤ edge ∧ edge ≤ state.Nedges) : (state.removeedge edge).Consistent where
  nodes := by
    intro p q
    rw [removeedge_A inside.1, LiveNode, LiveNode, liveEdge_removeedge, liveEdge_removeedge]
    by_cases gone : edgeOf p = edge ∨ edgeOf q = edge
    · rw [if_pos gone]
      simp only [Bool.false_eq_true, false_iff]
      rintro ⟨⟨-, first⟩, ⟨-, second⟩, -⟩
      exact gone.elim first second
    · rw [if_neg gone]
      rw [not_or] at gone
      rw [consistent.nodes p q gone.1 gone.2, node_removeedge gone.1, node_removeedge gone.2]
      simp only [gone, LiveNode, ne_eq, not_false_eq_true, and_true]
  edges := by
    intro i j apart
    rw [removeedge_B, liveEdge_removeedge, liveEdge_removeedge]
    by_cases gone : i = edge ∨ j = edge
    · rw [if_pos gone]
      simp only [Bool.false_eq_true, false_iff]
      rintro ⟨⟨-, first⟩, ⟨-, second⟩, -⟩
      exact gone.elim first second
    · rw [if_neg gone]
      rw [not_or] at gone
      have same : (state.removeedge edge).Touch i j ↔ state.Touch i j := by
        refine exists_congr fun p => exists_congr fun q => and_congr_right fun first =>
          and_congr_right fun second => ?_
        rw [node_removeedge (first ▸ gone.1), node_removeedge (second ▸ gone.2)]
      rw [consistent.edges i j apart gone.1 gone.2, same]
      simp only [gone, ne_eq, not_false_eq_true, and_true]
  loops := by
    intro i looped
    simp only [removeedge_B, or_self] at looped
    by_cases gone : i = edge
    · rw [if_pos gone] at looped
      exact absurd looped Bool.false_ne_true
    · rw [if_neg gone] at looped
      obtain ⟨alive, closed⟩ := consistent.loops i gone looped
      refine ⟨liveEdge_removeedge.mpr ⟨alive, gone⟩, ?_⟩
      rw [node_removeedge (by rw [edgeOf_startnode alive.1.1]; exact gone),
        node_removeedge (by rw [edgeOf_endnode]; exact gone), closed]
  Nconnections := by
    intro p alive
    obtain ⟨alive, apart⟩ := liveEdge_removeedge.mp alive
    exact removeedge_Nconnections inside.1 inside.2 apart (consistent.Nconnections p apart alive)
  Econnections := by
    intro i alive
    obtain ⟨alive, apart⟩ := liveEdge_removeedge.mp alive
    exact removeedge_Econnections inside.1 inside.2 apart (consistent.Econnections i apart alive)

end Removal

section Merging

/-- The node whose connections a node of the first list takes over. -/
def moved (n1 n2 node : Nat) : Nat :=
  if node = startnode (edgeOf n1) then opposite n1
  else if node = endnode (edgeOf n1) then opposite n2
  else node

/-- The list with the given end last, or first. -/
def endingAt (state : State Point) (node : Nat) : List Point :=
  if node % 2 = 1 then (state.edgelist (edgeOf node)).reverse else state.edgelist (edgeOf node)

def beginningAt (state : State Point) (node : Nat) : List Point :=
  if node % 2 = 1 then state.edgelist (edgeOf node) else (state.edgelist (edgeOf node)).reverse

/-- The state with the two lists joined, before the second is removed. -/
def joinedAt (state : State Point) (n1 n2 : Nat) : State Point :=
  let joined := state.join (edgeOf n1) (edgeOf n2) (n1 % 2 == 1) (n2 % 2 != 1)
  ({ joined with B := uniteEdges joined.B (edgeOf n1) (edgeOf n2) } : State Point).recount

theorem mergenodes_self (same : edgeOf n1 = edgeOf n2) : state.mergenodes n1 n2 = .ok state := by
  rw [mergenodes]
  exact if_pos same

theorem mergenodes_connected (apart : edgeOf n1 ≠ edgeOf n2) (connected : state.A n1 n2 = true) :
    state.mergenodes n1 n2 = .ok ((state.joinedAt n1 n2).removeedge (edgeOf n2)) := by
  rw [mergenodes]
  dsimp only
  rw [if_neg apart, if_neg (by rw [connected]; exact Bool.noConfusion)]
  rfl

theorem joinedAt_Nedges : (state.joinedAt n1 n2).Nedges = state.Nedges := by
  simp only [joinedAt, recount, join]
  split <;> rfl

theorem joinedAt_edgelist : (state.joinedAt n1 n2).edgelist =
    Function.update state.edgelist (edgeOf n1) (state.endingAt n1 ++ state.beginningAt n2) := by
  rcases Nat.mod_two_eq_zero_or_one n1 with first | first <;>
    rcases Nat.mod_two_eq_zero_or_one n2 with second | second <;>
      simp [joinedAt, recount, join, endingAt, beginningAt, first, second]

theorem joinedAt_B : (state.joinedAt n1 n2).B = uniteEdges state.B (edgeOf n1) (edgeOf n2) := by
  simp only [joinedAt, recount, join]
  split <;> rfl

/-- The rows and columns are those of the outer ends. -/
theorem join_A {flipedge1 flipedge2 : Bool} (first : startnode edge ≠ endnode edge)
    (start : startnode other ≠ startnode edge) (last : endnode other ≠ startnode edge)
    (target : Nat → Nat) (begins : target (startnode edge) =
      if flipedge1 then endnode edge else startnode edge)
    (ends : target (endnode edge) = if flipedge2 then startnode other else endnode other)
    (others : ∀ node, node ≠ startnode edge → node ≠ endnode edge → target node = node) :
    (state.join edge other flipedge1 flipedge2).A p q = state.A (target p) (target q) := by
  have shape : ∀ node, target node = if node = startnode edge then
      (if flipedge1 then endnode edge else startnode edge)
      else if node = endnode edge then (if flipedge2 then startnode other else endnode other)
      else node := by
    intro node
    split
    · rename_i same
      rw [same, begins]
    · split
      · rename_i same
        rw [same, ends]
      · exact others node ‹_› ‹_›
  rw [shape, shape]
  cases flipedge1 <;> cases flipedge2 <;>
    simp only [join, AdjacencyMatrix.copyNode_apply, Bool.false_eq_true, if_false, if_true] <;>
    congr 1 <;> grind

theorem joinedAt_A (positive : 1 ≤ edgeOf n1) (other : 1 ≤ edgeOf n2)
    (apart : edgeOf n1 ≠ edgeOf n2) :
    (state.joinedAt n1 n2).A p q = state.A (moved n1 n2 p) (moved n1 n2 q) := by
  have distinct := startnode_ne_endnode positive
  have start : startnode (edgeOf n2) ≠ startnode (edgeOf n1) := by
    rw [startnode, startnode]
    omega
  have last : endnode (edgeOf n2) ≠ startnode (edgeOf n1) := by
    rw [startnode, endnode]
    omega
  refine join_A distinct start last (moved n1 n2) ?_ ?_ fun node first second => ?_
  · rw [moved, if_pos rfl]
    rcases ends_eq positive with ⟨odd, start, last⟩ | ⟨even, start, last⟩
    · rw [odd, last]
      rfl
    · rw [even, start]
      rfl
  · rw [moved, if_neg distinct.symm, if_pos rfl]
    rcases ends_eq other with ⟨odd, start, last⟩ | ⟨even, start, last⟩
    · rw [odd, last]
      rfl
    · rw [even, start]
      rfl
  · rw [moved, if_neg first, if_neg second]

theorem head?_endingAt (positive : 1 ≤ edgeOf n1) :
    (state.endingAt n1).head? = state.node (opposite n1) := by
  rw [endingAt, node, edgeOf_opposite positive, opposite]
  rw [edgeOf] at positive
  by_cases odd : n1 % 2 = 1
  · rw [if_pos odd, if_pos odd, if_neg (by omega), List.head?_reverse]
  · rw [if_neg odd, if_neg odd, if_pos (by omega)]

theorem getLast?_endingAt : (state.endingAt n1).getLast? = state.node n1 := by
  rw [endingAt, node]
  by_cases odd : n1 % 2 = 1
  · rw [if_pos odd, if_pos odd, List.getLast?_reverse]
  · rw [if_neg odd, if_neg odd]

theorem head?_beginningAt : (state.beginningAt n2).head? = state.node n2 := by
  rw [beginningAt, node]
  by_cases odd : n2 % 2 = 1
  · rw [if_pos odd, if_pos odd]
  · rw [if_neg odd, if_neg odd, List.head?_reverse]

theorem getLast?_beginningAt (positive : 1 ≤ edgeOf n2) :
    (state.beginningAt n2).getLast? = state.node (opposite n2) := by
  rw [beginningAt, node, edgeOf_opposite positive, opposite]
  rw [edgeOf] at positive
  by_cases odd : n2 % 2 = 1
  · rw [if_pos odd, if_pos odd, if_neg (by omega)]
  · rw [if_neg odd, if_neg odd, if_pos (by omega), List.getLast?_reverse]

theorem endingAt_ne_nil (live : state.LiveNode n1) : state.endingAt n1 ≠ [] := by
  rw [endingAt]
  split
  · exact fun empty => live.2 (List.reverse_eq_nil_iff.mp empty)
  · exact live.2

theorem beginningAt_ne_nil (live : state.LiveNode n2) : state.beginningAt n2 ≠ [] := by
  rw [beginningAt]
  split
  · exact live.2
  · exact fun empty => live.2 (List.reverse_eq_nil_iff.mp empty)

variable (first : state.LiveNode n1) (second : state.LiveNode n2) (apart : edgeOf n1 ≠ edgeOf n2)

include first in
theorem liveEdge_joinedAt : (state.joinedAt n1 n2).LiveEdge edge ↔ state.LiveEdge edge := by
  rw [LiveEdge, LiveEdge, joinedAt_Nedges, joinedAt_edgelist]
  by_cases same : edge = edgeOf n1
  · subst same
    rw [Function.update_self]
    have filled : state.endingAt n1 ++ state.beginningAt n2 ≠ [] := by
      rw [ne_eq, List.append_eq_nil_iff]
      exact fun empty => endingAt_ne_nil first empty.1
    exact and_congr_right fun _ => iff_of_true filled first.2
  · rw [Function.update_of_ne same]

include first in
/-- The point at a node of the joined list is the point at an outer end. -/
theorem node_joinedAt (live : state.LiveNode n2) :
    (state.joinedAt n1 n2).node p = state.node (moved n1 n2 p) := by
  rw [node, joinedAt_edgelist, moved]
  by_cases start : p = startnode (edgeOf n1)
  · rw [if_pos start, start, edgeOf_startnode first.1.1, Function.update_self,
      if_pos (by rw [startnode]; have := first.1.1; omega),
      List.head?_append_of_ne_nil _ (endingAt_ne_nil first), head?_endingAt first.1.1]
  · rw [if_neg start]
    by_cases last : p = endnode (edgeOf n1)
    · rw [if_pos last, last, edgeOf_endnode, Function.update_self,
        if_neg (by rw [endnode]; omega),
        List.getLast?_append_of_ne_nil _ (beginningAt_ne_nil live), getLast?_beginningAt live.1.1]
    · have other : edgeOf p ≠ edgeOf n1 := by
        rw [ne_eq, edgeOf_eq_iff first.1.1, not_or]
        exact ⟨start, last⟩
      rw [if_neg last, Function.update_of_ne other, node]

include first second in
theorem liveNode_moved :
    state.LiveNode (moved n1 n2 p) ↔ state.LiveNode p := by
  rw [moved]
  by_cases start : p = startnode (edgeOf n1)
  · rw [if_pos start, LiveNode, LiveNode, edgeOf_opposite first.1.1, start,
      edgeOf_startnode first.1.1]
  · rw [if_neg start]
    by_cases last : p = endnode (edgeOf n1)
    · rw [if_pos last, LiveNode, LiveNode, edgeOf_opposite second.1.1, last, edgeOf_endnode]
      exact iff_of_true second first
    · rw [if_neg last]

include first second apart in
/-- Two nodes away from the second list do not move to the same node. -/
theorem moved_injective (away : edgeOf p ≠ edgeOf n2) (other : edgeOf q ≠ edgeOf n2)
    (same : moved n1 n2 p = moved n1 n2 q) : p = q := by
  have start := edgeOf_startnode first.1.1
  have last : edgeOf (endnode (edgeOf n1)) = edgeOf n1 := edgeOf_endnode
  have mine := edgeOf_opposite first.1.1
  have theirs := edgeOf_opposite second.1.1
  have ends : ∀ node, edgeOf node = edgeOf n1 ↔
      node = startnode (edgeOf n1) ∨ node = endnode (edgeOf n1) := fun _ =>
    edgeOf_eq_iff first.1.1
  rw [moved, moved] at same
  grind

theorem touch_iff (positive : 1 ≤ edgeOf n1) : state.Touch (edgeOf n1) other ↔
    ∃ q, edgeOf q = other ∧
      (state.node n1 = state.node q ∨ state.node (opposite n1) = state.node q) := by
  constructor
  · rintro ⟨p, q, mine, theirs, same⟩
    rcases (eq_or_opposite positive).mp mine with rfl | rfl
    · exact ⟨q, theirs, .inl same⟩
    · exact ⟨q, theirs, .inr same⟩
  · rintro ⟨q, theirs, same | same⟩
    · exact ⟨n1, q, rfl, theirs, same⟩
    · exact ⟨opposite n1, q, edgeOf_opposite positive, theirs, same⟩

/-- No other live node lies at the point of the two. -/
def Alone (state : State Point) (n1 n2 : Nat) : Prop :=
  ∀ q, state.LiveNode q → state.node q = state.node n1 → q = n1 ∨ q = n2

variable (meeting : state.node n1 = state.node n2) (alone : state.Alone n1 n2)

include first second meeting alone in
/-- The joined list touches what the two have touched, when nothing else lies at their meeting. -/
theorem touch_joinedAt (live : state.LiveEdge edge) (other : edge ≠ edgeOf n1)
    (away : edge ≠ edgeOf n2) : (state.joinedAt n1 n2).Touch (edgeOf n1) edge ↔
      state.Touch (edgeOf n1) edge ∨ state.Touch (edgeOf n2) edge := by
  have elsewhere : ∀ q, edgeOf q = edge →
      (state.joinedAt n1 n2).node q = state.node q ∧ state.node n1 ≠ state.node q := by
    intro q inside
    have unmoved : moved n1 n2 q = q := by
      have outside : edgeOf q ≠ edgeOf n1 := inside ▸ other
      rw [ne_eq, edgeOf_eq_iff first.1.1, not_or] at outside
      rw [moved, if_neg outside.1, if_neg outside.2]
    refine ⟨by rw [node_joinedAt first second, unmoved], fun same => ?_⟩
    have alive : state.LiveNode q := by
      rw [LiveNode, inside]
      exact live
    rcases alone q alive same.symm with rfl | rfl
    · exact other inside.symm
    · exact away inside.symm
  have start : (state.joinedAt n1 n2).node (startnode (edgeOf n1)) = state.node (opposite n1) := by
    rw [node_joinedAt first second, moved, if_pos rfl]
  have last : (state.joinedAt n1 n2).node (endnode (edgeOf n1)) = state.node (opposite n2) := by
    rw [node_joinedAt first second, moved, if_neg (startnode_ne_endnode first.1.1).symm, if_pos rfl]
  have near : state.Touch (edgeOf n1) edge ↔ _ := touch_iff first.1.1
  have far : state.Touch (edgeOf n2) edge ↔ _ := touch_iff second.1.1
  rw [near, far]
  constructor
  · rintro ⟨p, q, mine, inside, same⟩
    rw [(elsewhere q inside).1] at same
    rcases (edgeOf_eq_iff first.1.1).mp mine with rfl | rfl
    · rw [start] at same
      exact .inl ⟨q, inside, .inr same⟩
    · rw [last] at same
      exact .inr ⟨q, inside, .inr same⟩
  · rintro (⟨q, inside, same | same⟩ | ⟨q, inside, same | same⟩)
    · exact absurd same (elsewhere q inside).2
    · exact ⟨_, q, edgeOf_startnode first.1.1, inside, by rw [start, (elsewhere q inside).1, same]⟩
    · exact absurd (meeting.trans same) (elsewhere q inside).2
    · exact ⟨_, q, edgeOf_endnode, inside, by rw [last, (elsewhere q inside).1, same]⟩

variable (consistent : state.Consistent)

include first second meeting alone consistent in
theorem edges_joinedAt (distinct : edge ≠ other) (away : edge ≠ edgeOf n2)
    (otherAway : other ≠ edgeOf n2) : (state.joinedAt n1 n2).B edge other = true ↔
      state.LiveEdge edge ∧ state.LiveEdge other ∧ (state.joinedAt n1 n2).Touch edge other := by
  have united : ∀ edge, edge ≠ edgeOf n1 → edge ≠ edgeOf n2 →
      ((state.B (edgeOf n1) edge || state.B (edgeOf n2) edge) = true ↔
        state.LiveEdge (edgeOf n1) ∧ state.LiveEdge edge ∧
          (state.joinedAt n1 n2).Touch (edgeOf n1) edge) := by
    intro edge here there
    rw [Bool.or_eq_true, consistent.edges _ _ here.symm, consistent.edges _ _ there.symm]
    constructor
    · rintro (⟨live, alive, touch⟩ | ⟨-, alive, touch⟩)
      · exact ⟨live, alive,
          (touch_joinedAt first second meeting alone alive here there).mpr (.inl touch)⟩
      · exact ⟨first, alive,
          (touch_joinedAt first second meeting alone alive here there).mpr (.inr touch)⟩
    · rintro ⟨live, alive, touch⟩
      rcases (touch_joinedAt first second meeting alone alive here there).mp touch with near | far
      · exact .inl ⟨live, alive, near⟩
      · exact .inr ⟨second, alive, far⟩
  rw [joinedAt_B, AdjacencyMatrix.uniteEdges_apply distinct]
  by_cases mine : edge = edgeOf n1
  · subst mine
    rw [if_pos rfl]
    exact united other distinct.symm otherAway
  · rw [if_neg mine]
    by_cases theirs : other = edgeOf n1
    · subst theirs
      rw [if_pos rfl, consistent.edges_symm edge, consistent.edges_symm edge, united edge mine away]
      constructor
      · rintro ⟨live, alive, touch⟩
        exact ⟨alive, live, touch.symm⟩
      · rintro ⟨alive, live, touch⟩
        exact ⟨live, alive, touch.symm⟩
    · rw [if_neg theirs, consistent.edges edge other distinct]
      refine and_congr_right fun _ => and_congr_right fun _ => ?_
      have unmoved : ∀ p, edgeOf p ≠ edgeOf n1 →
          (state.joinedAt n1 n2).node p = state.node p := by
        intro p outside
        rw [ne_eq, edgeOf_eq_iff first.1.1, not_or] at outside
        rw [node_joinedAt first second, moved, if_neg outside.1, if_neg outside.2]
      refine exists_congr fun p => exists_congr fun q => and_congr_right fun here =>
        and_congr_right fun there => ?_
      rw [unmoved p (here ▸ mine), unmoved q (there ▸ theirs)]

include first second apart meeting alone consistent in
/-- Two lists that meet alone are joined consistently. -/
theorem consistentApart_joinedAt : (state.joinedAt n1 n2).ConsistentApart (edgeOf n2) where
  nodes := by
    intro p q away otherAway
    rw [joinedAt_A first.1.1 second.1.1 apart, consistent.nodes, liveNode_moved first second,
      liveNode_moved first second, node_joinedAt first second, node_joinedAt first second, LiveNode,
      LiveNode, LiveNode, LiveNode, liveEdge_joinedAt first, liveEdge_joinedAt first]
    refine and_congr_right fun _ => and_congr_right fun _ => and_congr_left fun _ => ?_
    refine not_congr ⟨moved_injective first second apart away otherAway, fun same => by rw [same]⟩
  edges := by
    intro i j distinct away otherAway
    rw [liveEdge_joinedAt first, liveEdge_joinedAt first]
    exact edges_joinedAt first second meeting alone consistent distinct away otherAway
  loops := by
    intro i away looped
    rw [joinedAt_B, AdjacencyMatrix.uniteEdges_diagonal] at looped
    by_cases mine : i = edgeOf n1
    · rw [if_pos mine] at looped
      exact absurd looped Bool.false_ne_true
    · rw [if_neg mine] at looped
      obtain ⟨alive, closed⟩ := consistent.loops i looped
      refine ⟨(liveEdge_joinedAt first).mpr alive, ?_⟩
      rw [node, node, edgeOf_startnode alive.1.1, edgeOf_endnode, joinedAt_edgelist,
        Function.update_of_ne mine]
      rwa [node, node, edgeOf_startnode alive.1.1, edgeOf_endnode] at closed
  Nconnections _ _ _ := rfl
  Econnections _ _ _ := rfl

include first second apart meeting alone consistent in
theorem consistent_merged : ((state.joinedAt n1 n2).removeedge (edgeOf n2)).Consistent := by
  refine (consistentApart_joinedAt first second apart meeting alone consistent).removeedge ?_
  rw [joinedAt_Nedges]
  exact second.1

end Merging

end State

end CodeCollect.EdgeLinking
