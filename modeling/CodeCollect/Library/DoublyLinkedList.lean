import Mathlib.Data.List.Nodup
import Mathlib.Logic.Function.Basic

namespace CodeCollect.Library

/-- Each node of a doubly linked list names its neighbours. -/
structure Links (Node : Type*) where
  prev : Node → Option Node
  next : Node → Option Node

namespace Links

variable {Node : Type*}

/-- The nodes lie in a row between a node before them and a node behind them. -/
def Segment (links : Links Node) : Option Node → Option Node → List Node → Option Node → Prop
  | _, start, [], stop => start = stop
  | before, start, node :: rest, stop =>
      start = some node ∧ links.prev node = before ∧
        Segment links (some node) (links.next node) rest stop

/-- This is the last node of a row, or the node before an empty row. -/
def lastOf : Option Node → List Node → Option Node
  | before, [] => before
  | _, node :: rest => lastOf (some node) rest

section Writes

variable [DecidableEq Node]

/-- Writing through a pointer that is not set writes nothing. -/
def setPrev (links : Links Node) : Option Node → Option Node → Links Node
  | none, _ => links
  | some node, value => { links with prev := Function.update links.prev node value }

def setNext (links : Links Node) : Option Node → Option Node → Links Node
  | none, _ => links
  | some node, value => { links with next := Function.update links.next node value }

variable {links : Links Node} {target value : Option Node} {node : Node}

@[simp] theorem setPrev_next : (links.setPrev target value).next = links.next := by
  cases target <;> rfl

@[simp] theorem setNext_prev : (links.setNext target value).prev = links.prev := by
  cases target <;> rfl

@[simp] theorem setPrev_self : (links.setPrev (some node) value).prev node = value := by
  simp [setPrev]

@[simp] theorem setNext_self : (links.setNext (some node) value).next node = value := by
  simp [setNext]

theorem setPrev_of_ne (other : target ≠ some node) :
    (links.setPrev target value).prev node = links.prev node := by
  cases target with
  | none => rfl
  | some written => exact Function.update_of_ne (fun same => other (congrArg some same.symm)) _ _

theorem setNext_of_ne (other : target ≠ some node) :
    (links.setNext target value).next node = links.next node := by
  cases target with
  | none => rfl
  | some written => exact Function.update_of_ne (fun same => other (congrArg some same.symm)) _ _

end Writes

variable {links changed : Links Node} {before start stop value : Option Node} {nodes : List Node}
  {node : Node}

/-- Only the links of its own nodes make a segment. -/
theorem Segment.congr (segment : links.Segment before start nodes stop)
    (same : ∀ node ∈ nodes, changed.prev node = links.prev node ∧
      changed.next node = links.next node) : changed.Segment before start nodes stop := by
  induction nodes generalizing before start with
  | nil => exact segment
  | cons node rest ih =>
      obtain ⟨here, back, onward⟩ := segment
      obtain ⟨samePrev, sameNext⟩ := same node List.mem_cons_self
      refine ⟨here, samePrev.trans back, ?_⟩
      rw [sameNext]
      exact ih onward fun other member => same other (List.mem_cons_of_mem node member)

/-- A row of nodes in two parts is two rows that meet. -/
theorem segment_append {front back : List Node} :
    links.Segment before start (front ++ back) stop ↔
      ∃ middle, links.Segment before start front middle ∧
        links.Segment (lastOf before front) middle back stop := by
  induction front generalizing before start with
  | nil =>
      constructor
      · exact fun segment => ⟨start, rfl, segment⟩
      · rintro ⟨middle, rfl, segment⟩
        exact segment
  | cons node rest ih =>
      constructor
      · rintro ⟨here, prev, onward⟩
        obtain ⟨middle, first, second⟩ := ih.mp onward
        exact ⟨middle, ⟨here, prev, first⟩, second⟩
      · rintro ⟨middle, ⟨here, prev, first⟩, second⟩
        exact ⟨here, prev, ih.mpr ⟨middle, first, second⟩⟩

/-- The start of a row that ends nowhere is its first node. -/
theorem Segment.start_eq (segment : links.Segment before start nodes none) :
    start = nodes.head? := by
  cases nodes with
  | nil => exact segment
  | cons node rest => exact segment.1

theorem lastOf_mem (before : Option Node) {nodes : List Node} (present : nodes ≠ []) :
    ∃ node ∈ nodes, lastOf before nodes = some node := by
  induction nodes generalizing before with
  | nil => exact absurd rfl present
  | cons node rest ih =>
      by_cases alone : rest = []
      · subst alone
        exact ⟨node, List.mem_cons_self, rfl⟩
      · obtain ⟨last, member, same⟩ := ih (some node) alone
        exact ⟨last, List.mem_cons_of_mem node member, same⟩

/-- The node before an empty row is none, and the last node of another row lies in it. -/
theorem mem_of_lastOf {nodes : List Node} (last : lastOf none nodes = some node) :
    node ∈ nodes := by
  cases nodes with
  | nil => exact absurd last nofun
  | cons first rest =>
      obtain ⟨found, member, same⟩ := lastOf_mem none (List.cons_ne_nil first rest)
      obtain rfl := Option.some.inj (last.symm.trans same)
      exact member

theorem some_ne_of_not_mem (outside : node ∉ nodes) :
    ∀ other ∈ nodes, some node ≠ some other := by
  rintro other member ⟨⟩
  exact outside member

section Writes

variable [DecidableEq Node]

/-- A write to the `prev` of a node outside leaves the segment. -/
theorem Segment.setPrev {target : Option Node} (segment : links.Segment before start nodes stop)
    (outside : ∀ node ∈ nodes, target ≠ some node) :
    (links.setPrev target value).Segment before start nodes stop :=
  segment.congr fun node member => ⟨setPrev_of_ne (outside node member), by rw [setPrev_next]⟩

/-- A write to the `next` of a node outside leaves the segment. -/
theorem Segment.setNext {target : Option Node} (segment : links.Segment before start nodes stop)
    (outside : ∀ node ∈ nodes, target ≠ some node) :
    (links.setNext target value).Segment before start nodes stop :=
  segment.congr fun node member => ⟨by rw [setNext_prev], setNext_of_ne (outside node member)⟩

/-- The first node of a row gets another node before it. -/
theorem Segment.prepend (segment : links.Segment before start nodes none) (distinct : nodes.Nodup) :
    (links.setPrev start value).Segment value start nodes none := by
  cases nodes with
  | nil => exact segment
  | cons node rest =>
      obtain ⟨rfl, _, onward⟩ := segment
      refine ⟨rfl, setPrev_self, ?_⟩
      rw [setPrev_next]
      refine onward.setPrev fun other member same => ?_
      obtain rfl := Option.some.inj same
      exact (List.nodup_cons.mp distinct).1 member

/-- The last node of a row gets another node behind it. -/
theorem Segment.append (segment : links.Segment before start nodes stop) (distinct : nodes.Nodup)
    (present : nodes ≠ []) :
    (links.setNext (lastOf before nodes) value).Segment before start nodes value := by
  induction nodes generalizing before start with
  | nil => exact absurd rfl present
  | cons node rest ih =>
      obtain ⟨rfl, back, onward⟩ := segment
      obtain ⟨fresh, others⟩ := List.nodup_cons.mp distinct
      refine ⟨rfl, by rw [setNext_prev]; exact back, ?_⟩
      by_cases alone : rest = []
      · subst alone
        exact setNext_self
      · obtain ⟨last, member, same⟩ := lastOf_mem (some node) alone
        have other : lastOf (some node) rest ≠ some node := by
          rw [same]
          rintro ⟨⟩
          exact fresh member
        rw [lastOf, setNext_of_ne other]
        exact ih onward others alone

/-- A node is taken out by closing the gap between its neighbours. -/
def unlink (links : Links Node) (node : Node) : Links Node :=
  (links.setNext (links.prev node) (links.next node)).setPrev (links.next node) (links.prev node)

/-- A node is put in front of a row. -/
def push (links : Links Node) (node : Node) (start : Option Node) : Links Node :=
  ((links.setPrev (some node) none).setNext (some node) start).setPrev start (some node)

/-- The start of a row behind the node that is taken out. -/
def startWithout (links : Links Node) (node : Node) (start : Option Node) : Option Node :=
  if start = some node then links.next node else start

omit [DecidableEq Node] in
/-- The neighbours of a node in a row lie in this row. -/
theorem Segment.neighbours {front back : List Node}
    (segment : links.Segment none start (front ++ node :: back) none) :
    links.prev node = lastOf none front ∧ links.next node = back.head? := by
  obtain ⟨middle, -, -, prev, onward⟩ := segment_append.mp segment
  exact ⟨prev, onward.start_eq⟩

/-- A row without one of its nodes. -/
theorem Segment.unlink {front back : List Node}
    (segment : links.Segment none start (front ++ node :: back) none)
    (distinct : (front ++ node :: back).Nodup) :
    (links.unlink node).Segment none (links.startWithout node start) (front ++ back) none := by
  obtain ⟨middle, first, rfl, prev, onward⟩ := segment_append.mp segment
  obtain ⟨distinctFront, distinctRest, apart⟩ := List.nodup_append.mp distinct
  obtain ⟨fresh, distinctBack⟩ := List.nodup_cons.mp distinctRest
  have behind : ∀ other ∈ back, links.prev node ≠ some other := by
    intro other member same
    rw [prev] at same
    exact apart other (mem_of_lastOf same) other (List.mem_cons_of_mem node member) rfl
  have before : ∀ other ∈ front, links.next node ≠ some other := by
    intro other member same
    rw [onward.start_eq] at same
    exact apart other member other
      (List.mem_cons_of_mem node (List.mem_of_mem_head? same)) rfl
  have moved : (links.setNext (links.prev node) (links.next node)).Segment (some node)
      (links.next node) back none := onward.setNext behind
  have closed : ((links.setNext (links.prev node) (links.next node)).setPrev (links.next node)
      (links.prev node)).Segment (links.prev node) (links.next node) back none :=
    moved.prepend distinctBack
  unfold Links.unlink startWithout
  by_cases alone : front = []
  · subst alone
    have here : start = some node := first
    have none_before : links.prev node = none := prev
    rw [if_pos here, List.nil_append]
    rw [none_before] at closed ⊢
    exact closed
  · have other : start ≠ some node := by
      intro same
      cases front with
      | nil => exact alone rfl
      | cons head rest =>
          obtain rfl := Option.some.inj (first.1.symm.trans same)
          exact apart head List.mem_cons_self head List.mem_cons_self rfl
    rw [if_neg other, segment_append]
    refine ⟨links.next node, ?_, ?_⟩
    · rw [prev]
      exact (first.append distinctFront alone).setPrev before
    · rw [← prev]
      exact closed

/-- A row with another node in front. -/
theorem Segment.push (segment : links.Segment none start nodes none) (distinct : nodes.Nodup)
    (fresh : node ∉ nodes) : (links.push node start).Segment none (some node) (node :: nodes) none := by
  have outside := some_ne_of_not_mem fresh
  have other : start ≠ some node := by
    intro same
    rw [segment.start_eq] at same
    exact fresh (List.mem_of_mem_head? same)
  refine ⟨rfl, ?_, ?_⟩
  · rw [Links.push, setPrev_of_ne other, setNext_prev, setPrev_self]
  · rw [Links.push, setPrev_next, setNext_self]
    exact ((segment.setPrev outside).setNext outside).prepend distinct

/-- A row keeps its links when a node of another row is taken out. -/
theorem Segment.unlink_other {front back others : List Node} {first last : Option Node}
    (segment : links.Segment none start (front ++ node :: back) none)
    (other : links.Segment before first others last)
    (apart : ∀ member ∈ others, member ∉ front ++ node :: back) :
    (links.unlink node).Segment before first others last := by
  obtain ⟨prev, next⟩ := segment.neighbours
  apply Segment.setPrev
  · apply other.setNext
    intro member within same
    rw [prev] at same
    exact apart member within (List.mem_append_left _ (mem_of_lastOf same))
  · intro member within same
    rw [next] at same
    exact apart member within (List.mem_append_right _
      (List.mem_cons_of_mem node (List.mem_of_mem_head? same)))

/-- A row keeps its links when a node is put in front of another row. -/
theorem Segment.push_other {others : List Node} {first last : Option Node}
    (segment : links.Segment none start nodes none) (other : links.Segment before first others last)
    (apart : ∀ member ∈ others, member ∉ nodes) (fresh : node ∉ others) :
    (links.push node start).Segment before first others last := by
  have outside := some_ne_of_not_mem fresh
  apply ((other.setPrev outside).setNext outside).setPrev
  intro member within same
  rw [segment.start_eq] at same
  exact apart member within (List.mem_of_mem_head? same)

end Writes

/-- The nodes from a start on, at most so many. -/
def walk (links : Links Node) : Nat → Option Node → List Node
  | 0, _ => []
  | _ + 1, none => []
  | count + 1, some node => node :: walk links count (links.next node)

/-- A row is walked through in as many steps as it has nodes. -/
theorem Segment.walk (segment : links.Segment before start nodes none) {count : Nat}
    (enough : nodes.length ≤ count) : links.walk count start = nodes := by
  induction nodes generalizing before start count with
  | nil =>
      obtain rfl : start = none := segment
      cases count <;> rfl
  | cons node rest ih =>
      obtain ⟨rfl, -, onward⟩ := segment
      rw [List.length_cons] at enough
      obtain ⟨count, rfl⟩ : ∃ less, count = less + 1 := ⟨count - 1, by omega⟩
      rw [Links.walk, ih onward (by omega)]

end Links

end CodeCollect.Library
