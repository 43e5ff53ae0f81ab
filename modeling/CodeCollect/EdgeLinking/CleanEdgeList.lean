import Mathlib

namespace CodeCollect.EdgeLinking

variable {Point Length : Type}

/-- The entries are zeros and ones; rows and columns are numbered from one. -/
abbrev AdjacencyMatrix := Nat → Nat → Bool

namespace AdjacencyMatrix

def setRow (matrix : AdjacencyMatrix) (row : Nat) (values : Nat → Bool) : AdjacencyMatrix :=
  Function.update matrix row values

def setColumn (matrix : AdjacencyMatrix) (column : Nat) (values : Nat → Bool) : AdjacencyMatrix :=
  fun row => Function.update (matrix row) column (values row)

/-- The row, and then the column, of a node becomes that of another one. -/
def copyNode (matrix : AdjacencyMatrix) (target source : Nat) : AdjacencyMatrix :=
  let copied := matrix.setRow target (matrix source)
  copied.setColumn target fun row => copied row source

/-- The number that stands for an entry. -/
def entry (matrix : AdjacencyMatrix) (row column : Nat) : Int :=
  if matrix row column then 1 else 0

/-- The sum of a column of a matrix with this number of rows. -/
def sum (size : Nat) (matrix : AdjacencyMatrix) (column : Nat) : Int :=
  ((List.range' 1 size).map fun row => matrix.entry row column).sum

/-- The columns in which a row with this number of entries is not zero. -/
def find (size : Nat) (row : Nat → Bool) : List Nat :=
  (List.range' 1 size).filter row

end AdjacencyMatrix

/-- The variables that the nested functions share. A removed list is empty. -/
structure State (Point : Type) where
  Nedges : Nat
  edgelist : Nat → List Point
  A : AdjacencyMatrix
  B : AdjacencyMatrix
  Nconnections : Nat → Int
  Econnections : Nat → Int

/-- The list that a node is an end of. -/
def edgeOf (node : Nat) : Nat := (node + 1) / 2

def startnode (edge : Nat) : Nat := 2 * edge - 1

def endnode (edge : Nat) : Nat := 2 * edge

/-- Every pair of two nodes, in the order of the two loops. -/
def nodePairs (Nnodes : Nat) : List (Nat × Nat) :=
  (List.range' 1 (Nnodes - 1)).flatMap fun n =>
    (List.range' (n + 1) (Nnodes - n)).map fun m => (n, m)

namespace State

/-- The point at a node of a list that is not empty. -/
def node (state : State Point) (n : Nat) : Option Point :=
  if n % 2 = 1 then (state.edgelist (edgeOf n)).head? else (state.edgelist (edgeOf n)).getLast?

section Construction

variable [DecidableEq Point]

/-- Two nodes are connected when they are the same point, and their lists with them. -/
def connect (state : State Point) (pair : Nat × Nat) : State Point :=
  let n := pair.1
  let m := pair.2
  let connected := decide (state.node n = state.node m)
  let A := state.A.setRow n (Function.update (state.A n) m connected)
  let A := A.setRow m (Function.update (A m) n connected)
  let edgen := edgeOf n
  let edgem := edgeOf m
  let B := state.B.setRow edgen (Function.update (state.B edgen) edgem true)
  { state with
    A := A
    B := if connected then B.setRow edgem (Function.update (B edgem) edgen true) else state.B }

/-- The connections of the given lists. -/
def construction (edgelist : List (List Point)) : State Point :=
  let state := (nodePairs (2 * edgelist.length)).foldl connect
    { Nedges := edgelist.length
      edgelist := fun n => (edgelist[n - 1]?).getD []
      A := fun _ _ => false
      B := fun _ _ => false
      Nconnections := fun _ => 0
      Econnections := fun _ => 0 }
  { state with
    Nconnections := state.A.sum (2 * state.Nedges)
    Econnections := state.B.sum state.Nedges }

end Construction

/-- A list is taken away with its connections. -/
def removeedge (state : State Point) (n : Nat) : State Point :=
  let first := startnode n
  let second := endnode n
  { state with
    edgelist := Function.update state.edgelist n []
    Econnections := Function.update (fun edge => state.Econnections edge - state.B.entry n edge) n 0
    B := (state.B.setRow n fun _ => false).setColumn n fun _ => false
    Nconnections := fun node =>
      state.Nconnections node - state.A.entry first node - state.A.entry second node
    A := (((state.A.setRow first fun _ => false).setRow second fun _ => false).setColumn first
      fun _ => false).setColumn second fun _ => false }

/-- The two lists become one, and the nodes of the first list take over the connections of the outer
ends of both. -/
def join (state : State Point) (edge1 edge2 : Nat) (flipedge1 flipedge2 : Bool) : State Point :=
  let s1 := startnode edge1
  let e1 := endnode edge1
  let s2 := startnode edge2
  let e2 := endnode edge2
  match flipedge1, flipedge2 with
  | false, false =>
      { state with
        edgelist := Function.update state.edgelist edge1
          (state.edgelist edge1 ++ state.edgelist edge2)
        A := state.A.copyNode e1 e2
        Nconnections := Function.update state.Nconnections e1 (state.Nconnections e2) }
  | false, true =>
      { state with
        edgelist := Function.update state.edgelist edge1
          (state.edgelist edge1 ++ (state.edgelist edge2).reverse)
        A := state.A.copyNode e1 s2
        Nconnections := Function.update state.Nconnections e1 (state.Nconnections s2) }
  | true, false =>
      let Nconnections := Function.update state.Nconnections s1 (state.Nconnections e1)
      { state with
        edgelist := Function.update state.edgelist edge1
          ((state.edgelist edge1).reverse ++ state.edgelist edge2)
        A := (state.A.copyNode s1 e1).copyNode e1 e2
        Nconnections := Function.update Nconnections e1 (Nconnections e2) }
  | true, true =>
      let Nconnections := Function.update state.Nconnections s1 (state.Nconnections e1)
      { state with
        edgelist := Function.update state.edgelist edge1
          ((state.edgelist edge1).reverse ++ (state.edgelist edge2).reverse)
        A := (state.A.copyNode s1 e1).copyNode e1 s2
        Nconnections := Function.update Nconnections e1 (Nconnections s2) }

/-- The first list is connected to all that the two were connected to. -/
def uniteEdges (B : AdjacencyMatrix) (edge1 edge2 : Nat) : AdjacencyMatrix :=
  let B := B.setRow edge1 fun column => B edge1 column || B edge2 column
  let B := B.setColumn edge1 fun row => B row edge1 || B row edge2
  B.setRow edge1 (Function.update (B edge1) edge1 false)

/-- The sums are taken again. -/
def recount (state : State Point) : State Point :=
  { state with
    Econnections := state.B.sum state.Nedges
    Nconnections := state.A.sum (2 * state.Nedges) }

def mergenodes (state : State Point) (n1 n2 : Nat) : Except String (State Point) :=
  let edge1 := edgeOf n1
  let edge2 := edgeOf n2
  if edge1 = edge2 then
    .ok state
  else if state.A n1 n2 = false then
    .error "Attempt to merge nodes that are not connected"
  else
    let joined := state.join edge1 edge2 (n1 % 2 == 1) (n2 % 2 != 1)
    .ok (({ joined with B := uniteEdges joined.B edge1 edge2 } : State Point).recount.removeedge edge2)

structure ConnectionInfo where
  spurdegree : Int
  spurnode : Nat
  startnode : Nat
  sconns : Int
  endnode : Nat
  econns : Int

def connectioninfo (state : State Point) (n : Nat) : ConnectionInfo :=
  if state.edgelist n = [] then
    ⟨0, 0, 0, 0, 0, 0⟩
  else
    let first := startnode n
    let last := endnode n
    let sconns := state.Nconnections first
    let econns := state.Nconnections last
    if sconns = 0 ∧ 1 ≤ econns then
      ⟨econns, last, first, sconns, last, econns⟩
    else if 1 ≤ sconns ∧ econns = 0 then
      ⟨sconns, first, first, sconns, last, econns⟩
    else
      ⟨0, 0, first, sconns, last, econns⟩

end State

/-- A state between two operations, with the lists that were removed before and not merged. -/
structure Moment (Point : Type) where
  state : State Point
  removed : List (List Point)

/-- The lists that are left; with none of them the source leaves its output unassigned. -/
def Moment.nedgelist (moment : Moment Point) : List (List Point) :=
  ((List.range' 1 moment.state.Nedges).map moment.state.edgelist).filter fun points =>
    !points.isEmpty

/-- The present moment and those after the construction and after every operation before. -/
structure Run (Point : Type) where
  now : Moment Point
  earlier : List (Moment Point)

namespace Run

def moments (run : Run Point) : List (Moment Point) := run.now :: run.earlier

def removeedge (run : Run Point) (n : Nat) : Run Point :=
  ⟨⟨run.now.state.removeedge n, run.now.state.edgelist n :: run.now.removed⟩, run.moments⟩

def mergenodes (run : Run Point) (n1 n2 : Nat) : Except String (Run Point) :=
  (run.now.state.mergenodes n1 n2).map fun state => ⟨⟨state, run.now.removed⟩, run.moments⟩

/-- A node that is connected to one other node is merged with it. -/
def mergeWithOther (run : Run Point) (node : Nat) : Except String (Run Point) :=
  match AdjacencyMatrix.find (2 * run.now.state.Nedges) (run.now.state.A node) with
  | [node2merge] => run.mergenodes node2merge node
  | _ => .error "not one node to merge"

/-- The first pass merges the ends that are connected to just one other end. -/
def mergeEnds (run : Run Point) (n : Nat) : Except String (Run Point) :=
  if run.now.state.B n n = false ∧ run.now.state.edgelist n ≠ [] then
    let info := run.now.state.connectioninfo n
    (if info.sconns = 1 then run.mergeWithOther info.startnode else .ok run).bind fun run =>
      if run.now.state.edgelist n ≠ [] ∧ info.econns = 1 then
        run.mergeWithOther info.endnode
      else
        .ok run
  else
    .ok run

section Lengths

variable [LinearOrder Length] [Add Length] [Zero Length] (distance : Point → Point → Length)

/-- The sum of the distances between the neighbours. -/
def edgelistlength (edgelist : List Point) : Length :=
  (List.zipWith distance edgelist.dropLast edgelist.tail).foldl (· + ·) 0

/-- The first of the shortest lists. -/
def shortest (state : State Point) (first : Nat) (others : List Nat) : Nat :=
  others.foldl (fun best edge =>
    if edgelistlength distance (state.edgelist edge) <
        edgelistlength distance (state.edgelist best) then edge else best) first

/-- The list is not connected, or only to itself. -/
def isolated (state : State Point) (n : Nat) : Prop :=
  state.Econnections n = 0 ∨ state.Econnections n = 1 ∧ state.B n n = true

instance (state : State Point) (n : Nat) : Decidable (isolated state n) :=
  inferInstanceAs (Decidable (_ ∨ _))

variable (minlength : Length)

/-- The second pass removes short lists that are isolated or spurs. -/
def removeSpur (run : Run Point) (n : Nat) : Except String (Run Point) :=
  let state := run.now.state
  let info := state.connectioninfo n
  if state.edgelist n ≠ [] ∧ edgelistlength distance (state.edgelist n) < minlength then
    if isolated state n then
      .ok (run.removeedge n)
    else if info.spurdegree = 2 then
      let linkingedges := AdjacencyMatrix.find state.Nedges (state.B n)
      if linkingedges.length = 1 then
        .ok (run.removeedge n)
      else
        let edge2delete := shortest distance state n
          (linkingedges.filter fun edge => (state.connectioninfo edge).spurdegree ≠ 0)
        let spurnode := (state.connectioninfo edge2delete).spurnode
        match AdjacencyMatrix.find (2 * state.Nedges) (state.A spurnode) with
        | [first, second] => (run.removeedge edge2delete).mergenodes first second
        | _ => .error "attempt to merge other than 2 nodes"
    else if info.spurdegree = 3 then
      .ok (run.removeedge n)
    else
      .ok run
  else
    .ok run

/-- The last pass removes short lists that have become isolated. -/
def removeIsolated (run : Run Point) (n : Nat) : Run Point :=
  let state := run.now.state
  if state.edgelist n ≠ [] ∧ edgelistlength distance (state.edgelist n) < minlength then
    if isolated state n then run.removeedge n else run
  else
    run

/-- All passes over the edge lists. -/
def cleanedgelist [DecidableEq Point] (edgelist : List (List Point)) : Except String (Run Point) :=
  let edges := List.range' 1 edgelist.length
  (edges.foldlM mergeEnds ⟨⟨State.construction edgelist, []⟩, []⟩).bind fun run =>
    if 0 < minlength then
      (edges.foldlM (removeSpur distance minlength) run).map
        (edges.foldl (removeIsolated distance minlength))
    else
      .ok run

end Lengths

def nedgelist (run : Run Point) : List (List Point) := run.now.nedgelist

end Run

end CodeCollect.EdgeLinking
