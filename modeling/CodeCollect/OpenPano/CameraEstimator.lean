import CodeCollect.Library.PriorityQueue

namespace CodeCollect.OpenPano

open CodeCollect.Library

namespace CameraEstimator

structure Edge (n : Nat) (K : Type) where
  v1 : Fin n
  v2 : Fin n
  weight : K
  deriving DecidableEq

/-- The callbacks are recorded in order. -/
inductive Call (n : Nat) where
  | initNode (node : Fin n)
  | edge (now next : Fin n)
  deriving DecidableEq, Repr

structure Outcome (n : Nat) where
  calls : List (Call n)
  error : Option String

variable {n : Nat} {K : Type} [LinearOrder K] [Zero K]

section Start

variable (confidence : Fin n → Fin n → K)

/-- The starting point is on an edge of the greatest confidence. -/
def startEdge : Option (Edge n K) :=
  (List.finRange n).foldl (fun best i =>
    ((List.finRange n).filter (i < ·)).foldl (fun best j =>
      if best.elim 0 Edge.weight < confidence i j then some ⟨i, j, confidence i j⟩ else best) best)
    none

end Start

variable (queue : PriorityQueue (Edge n K) K Edge.weight) (confidence : Fin n → Fin n → K)

def enqueue_edges_from (vst : Fin n → Bool) (fromImg : Fin n) (q : queue.State) : queue.State :=
  (List.finRange n).foldl (fun q i =>
    if i ≠ fromImg ∧ vst i = false then
      if 0 < confidence fromImg i then queue.emplace q ⟨fromImg, i, confidence fromImg i⟩ else q
    else q) q

/-- Edges to visited images are popped until the queue is exhausted. -/
def nextEdge (vst : Fin n → Bool) (q : queue.State) : Option (Edge n K × queue.State) :=
  match _ : queue.top q with
  | none => none
  | some best_edge =>
      if queue.size (queue.pop q) ≠ 0 ∧ vst best_edge.v2 then nextEdge vst (queue.pop q)
      else some (best_edge, queue.pop q)
  termination_by queue.size q
  decreasing_by exact Nat.lt_of_succ_le (queue.size_pop ‹_›).le

structure Traversal where
  q : queue.State
  vst : Fin n → Bool
  cnt : Nat
  calls : List (Call n)

def unvisited (vst : Fin n → Bool) : Nat := (Finset.univ.filter fun i => vst i = false).card

omit [LinearOrder K] [Zero K] in
theorem unvisited_update {vst : Fin n → Bool} {i : Fin n} (fresh : vst i = false) :
    unvisited (Function.update vst i true) < unvisited vst := by
  apply Finset.card_lt_card
  rw [Finset.ssubset_iff]
  refine ⟨i, by simp, ?_⟩
  intro j member
  rcases Finset.mem_insert.mp member with rfl | other
  · simpa using fresh
  · have kept := (Finset.mem_filter.mp other).2
    by_cases same : j = i
    · subst same
      simpa using fresh
    · simpa [same] using kept

/-- An unvisited image is taken with the best edge until there is none. -/
def grow (state : Traversal queue) : Traversal queue :=
  if queue.size state.q = 0 then state
  else
    match nextEdge queue state.vst state.q with
    | none => state
    | some (best_edge, q) =>
        if fresh : state.vst best_edge.v2 = false then
          let vst := Function.update state.vst best_edge.v2 true
          grow ⟨enqueue_edges_from queue confidence vst best_edge.v2 q, vst, state.cnt + 1,
            state.calls ++ [.edge best_edge.v1 best_edge.v2]⟩
        else { state with q := q }
  termination_by unvisited state.vst
  decreasing_by exact unvisited_update fresh

def start (v1 : Fin n) : Traversal queue :=
  let vst := Function.update (fun _ => false) v1 true
  ⟨enqueue_edges_from queue confidence vst v1 queue.empty, vst, 1, [.initNode v1]⟩

def unconnected (vst : Fin n → Bool) : String :=
  ((List.finRange n).filter fun i => !vst i).foldl (fun text i => text ++ toString i.val ++ " ") ""

def traverse : Outcome n :=
  match startEdge confidence with
  | none => ⟨[], some "No connected images are found!"⟩
  | some best_edge =>
      let state := grow queue confidence (start queue confidence best_edge.v1)
      if state.cnt ≠ n then
        ⟨state.calls, some ("Found a tree of size " ++ toString state.cnt ++ "!=" ++ toString n ++
          ", image " ++ unconnected state.vst ++ " are not connected well!")⟩
      else ⟨state.calls, none⟩

end CameraEstimator

end CodeCollect.OpenPano
