import Mathlib.Data.List.Nodup
import Mathlib.Logic.Function.Basic

namespace CodeCollect.Library

/-- A queue of linked nodes is entered at the bottom and left at the top. A special address stands
for no node. -/
structure LinkedQueue (Addr : Type*) where
  top : Addr
  bottom : Addr
  next : Addr → Addr

namespace LinkedQueue

variable {Addr : Type*} [DecidableEq Addr] (stop : Addr)

/-- A node becomes the last one. -/
def push (queue : LinkedQueue Addr) (node : Addr) : LinkedQueue Addr :=
  let next := Function.update queue.next node stop
  if queue.bottom ≠ stop then ⟨queue.top, node, Function.update next queue.bottom node⟩
  else ⟨node, node, next⟩

/-- The first node leaves with its link cleared. -/
def pop (queue : LinkedQueue Addr) (null : Addr) : Option (Addr × LinkedQueue Addr) :=
  if queue.top = stop then none
  else
    let top := queue.next queue.top
    some (queue.top, ⟨top, if top = stop then stop else queue.bottom,
      Function.update queue.next queue.top null⟩)

/-- The links lead through these nodes. -/
def Chain (next : Addr → Addr) : Addr → List Addr → Prop
  | start, [] => start = stop
  | start, node :: nodes => start = node ∧ node ≠ stop ∧ Chain next (next node) nodes

/-- The queue holds these nodes, each of them once. -/
structure Holds (queue : LinkedQueue Addr) (nodes : List Addr) : Prop where
  chain : Chain stop queue.next queue.top nodes
  bottom : queue.bottom = nodes.getLastD stop
  nodup : nodes.Nodup

variable {stop} {next : Addr → Addr} {start node value : Addr} {nodes : List Addr}
  {queue : LinkedQueue Addr}

omit [DecidableEq Addr] in
theorem Chain.ne_stop (chain : Chain stop next start nodes) : stop ∉ nodes := by
  induction nodes generalizing start with
  | nil => exact List.not_mem_nil
  | cons node nodes ih =>
      rw [List.mem_cons, not_or]
      exact ⟨chain.2.1.symm, ih chain.2.2⟩

/-- Links of other nodes do not matter. -/
theorem Chain.update (chain : Chain stop next start nodes) (absent : node ∉ nodes) :
    Chain stop (Function.update next node value) start nodes := by
  induction nodes generalizing start with
  | nil => exact chain
  | cons head nodes ih =>
      rw [List.mem_cons, not_or] at absent
      refine ⟨chain.1, chain.2.1, ?_⟩
      rw [Function.update_of_ne (Ne.symm absent.1)]
      exact ih chain.2.2 absent.2

/-- The last link can lead to one more node. -/
theorem Chain.snoc (chain : Chain stop next start nodes) (nodup : nodes.Nodup)
    (filled : nodes ≠ []) (absent : node ∉ nodes) (present : node ≠ stop)
    (ended : next node = stop) :
    Chain stop (Function.update next (nodes.getLastD stop) node) start (nodes ++ [node]) := by
  induction nodes generalizing start with
  | nil => exact absurd rfl filled
  | cons head nodes ih =>
      obtain ⟨first, rest⟩ := List.nodup_cons.mp nodup
      rw [List.mem_cons, not_or] at absent
      refine ⟨chain.1, chain.2.1, ?_⟩
      cases nodes with
      | nil =>
          rw [List.getLastD_cons, List.getLastD_nil, Function.update_self]
          refine ⟨rfl, present, ?_⟩
          rw [Function.update_of_ne absent.1]
          exact ended
      | cons second nodes =>
          have last : (head :: second :: nodes).getLastD stop = (second :: nodes).getLastD stop :=
            by simp [List.getLastD]
          have differ : head ≠ (second :: nodes).getLastD stop := by
            intro same
            apply first
            rw [same, List.getLastD_eq_getLast?, List.getLast?_eq_some_getLast (by simp)]
            exact List.getLast_mem _
          rw [last, Function.update_of_ne differ]
          exact ih chain.2.2 rest (by simp) absent.2

theorem Holds.push (holds : Holds stop queue nodes) (absent : node ∉ nodes)
    (present : node ≠ stop) : Holds stop (queue.push stop node) (nodes ++ [node]) := by
  have cleared : Chain stop (Function.update queue.next node stop) queue.top nodes :=
    holds.chain.update absent
  have ended : Function.update queue.next node stop node = stop := Function.update_self ..
  have nodup : (nodes ++ [node]).Nodup :=
    holds.nodup.append (List.nodup_singleton node) (List.disjoint_singleton.mpr absent)
  have bottom : node = (nodes ++ [node]).getLastD stop := by simp [List.getLastD_eq_getLast?]
  rcases eq_or_ne nodes [] with rfl | filled
  · have empty : queue.bottom = stop := holds.bottom
    rw [LinkedQueue.push, if_neg (not_not.mpr empty)]
    exact ⟨⟨rfl, present, ended⟩, bottom, nodup⟩
  · have occupied : queue.bottom ≠ stop := by
      intro same
      apply holds.chain.ne_stop
      rw [← same, holds.bottom, List.getLastD_eq_getLast?, List.getLast?_eq_some_getLast filled]
      exact List.getLast_mem filled
    rw [LinkedQueue.push, if_pos occupied]
    refine ⟨?_, bottom, nodup⟩
    dsimp only
    rw [holds.bottom]
    exact cleared.snoc holds.nodup filled absent present ended

/-- The first node leaves the queue. -/
theorem Holds.pop {null : Addr} {rest : LinkedQueue Addr} (holds : Holds stop queue nodes)
    (popped : queue.pop stop null = some (node, rest)) :
    ∃ others, nodes = node :: others ∧ Holds stop rest others := by
  rw [LinkedQueue.pop] at popped
  split at popped
  · exact absurd popped nofun
  · rename_i occupied
    obtain ⟨rfl, rfl⟩ := Prod.mk.inj (Option.some.inj popped)
    cases nodes with
    | nil => exact absurd holds.chain occupied
    | cons head others =>
        obtain ⟨first, -, chain⟩ := holds.chain
        obtain ⟨absent, nodup⟩ := List.nodup_cons.mp holds.nodup
        rw [← first] at absent chain
        refine ⟨others, by rw [first], chain.update absent, ?_, nodup⟩
        dsimp only
        cases others with
        | nil =>
            have ended : queue.next queue.top = stop := chain
            rw [if_pos ended, List.getLastD_nil]
        | cons second others =>
            have onward : queue.next queue.top ≠ stop := fun ended =>
              chain.2.1 (chain.1.symm.trans ended)
            rw [if_neg onward, holds.bottom, List.getLastD_cons, List.getLastD_cons,
              List.getLastD_cons]

end LinkedQueue

end CodeCollect.Library
