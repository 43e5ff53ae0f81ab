import CodeCollect.Pthreads.RobustMutexes

namespace CodeCollect.Pthreads

open CodeCollect.Library Program Links

namespace RobustMutexes

open RobustMutex (Point Request Result Moves mortal owns)

variable {Mutex Thread : Type} [DecidableEq Mutex]

omit [DecidableEq Mutex] in
/-- To another mutex, a thread in a call is idle or it is leaving. -/
def shadow (point : Point Thread) : Point Thread := if mortal point then .leaving else .idle

omit [DecidableEq Mutex] in
/-- A call is at none of the points between the calls. -/
def Inner (point : Point Thread) : Prop := point ≠ .idle ∧ point ≠ .leaving ∧ point ≠ .gone

omit [DecidableEq Mutex] in
/-- A thread is at none of the steps at which its list is open. -/
def Settled : Task Mutex Thread → Prop
  | .busy _ (.adding _ .head) | .busy _ (.unlinking _ _ _) => False
  | _ => True

/-- The list of a thread holds the nodes, and a node is added or removed write by write. -/
def Shape (links : Links Mutex) (lists : Thread → Option Mutex) (self : Thread)
    (nodes : List Mutex) : Task Mutex Thread → Prop
  | .busy mutex (.adding _ .next) =>
      links.Segment none (lists self) nodes none ∧ links.prev mutex = none
  | .busy mutex (.adding _ .back) =>
      links.Segment none (lists self) nodes none ∧ links.prev mutex = none ∧
        links.next mutex = lists self
  | .busy mutex (.adding _ .head) =>
      links.Segment (some mutex) (lists self) nodes none ∧ links.prev mutex = none ∧
        links.next mutex = lists self
  | .busy mutex (.unlinking _ list .next) =>
      list = self ∧ ∃ front back, nodes = front ++ back ∧
        links.Segment none (lists self) (front ++ mutex :: back) none
  | .busy mutex (.unlinking _ list .prev) =>
      list = self ∧ ∃ front back, nodes = front ++ back ∧
        links.Segment none (lists self) front (some mutex) ∧
          links.prev mutex = lastOf none front ∧
            links.Segment (links.prev mutex) (links.next mutex) back none
  | .busy mutex (.unlinking _ list .head) =>
      list = self ∧ ∃ front back, nodes = front ++ back ∧
        links.Segment none (if lists self = some mutex then links.next mutex else lists self) front
          (links.next mutex) ∧
            links.Segment (lastOf none front) (links.next mutex) back none
  | _ => links.Segment none (lists self) nodes none

/-- The list of a thread holds exactly the mutexes that it holds, each once. -/
structure Listed (memory : Memory Mutex Thread) (thread : Thread) (place : Place Mutex Thread) :
    Prop where
  inner : ∀ mutex point, place.task = .busy mutex point → Inner point
  shape : ∃ nodes : List Mutex, nodes.Nodup ∧ (∀ mutex, mutex ∈ nodes ↔ place.held mutex ≠ 0) ∧
    Shape memory.links memory.robustMxList thread nodes place.task

/-- This is the point at which one mutex sees a thread. -/
def viewTask (mutex : Mutex) : Task Mutex Thread → Point Thread
  | .idle => .idle
  | .leaving => .leaving
  | .gone => .gone
  | .busy other point => if other = mutex then point else shadow point

def view (mutex : Mutex) (place : Place Mutex Thread) : RobustMutex.Place Thread :=
  ⟨place.held mutex, viewTask mutex place.task⟩

def views (mutex : Mutex) (places : Thread → Place Mutex Thread) :
    Thread → RobustMutex.Place Thread :=
  fun thread => view mutex (places thread)

/-- Each mutex has its invariant, and each thread has its list. -/
structure Linked [Fintype Thread] (kind : Mutex → MutexKind) (memory : Memory Mutex Thread)
    (places : Thread → Place Mutex Thread) : Prop where
  guarded : ∀ mutex, RobustMutex.Guarded (kind mutex) (memory.mutexes mutex)
    (views mutex places)
  listed : ∀ thread, Listed memory thread (places thread)

section Views

variable {mutex other : Mutex} {held : Mutex → Nat} {point : Point Thread}
  {place : Place Mutex Thread}

theorem view_busy : view mutex (⟨held, .busy mutex point⟩ : Place Mutex Thread) =
    ⟨held mutex, point⟩ := by
  rw [view, viewTask, if_pos rfl]

theorem view_other (differs : other ≠ mutex) :
    view mutex (⟨held, .busy other point⟩ : Place Mutex Thread) = ⟨held mutex, shadow point⟩ := by
  rw [view, viewTask, if_neg differs]

theorem view_of : view mutex (⟨held, Task.of mutex point⟩ : Place Mutex Thread) =
    ⟨held mutex, point⟩ := by
  cases point <;> first | rfl | exact view_busy

theorem view_of_other (differs : other ≠ mutex) (stays : point ≠ .gone) :
    view mutex (⟨held, Task.of other point⟩ : Place Mutex Thread) = ⟨held mutex, shadow point⟩ := by
  cases point <;> first | rfl | exact view_other differs | exact absurd rfl stays

theorem owns_view (held : place.held mutex ≠ 0) : 0 < owns (view mutex place) :=
  RobustMutex.owns_of_depth held

theorem owns_busy (here : place.task = .busy mutex point)
    (own : owns (⟨place.held mutex, point⟩ : RobustMutex.Place Thread) = 1) :
    0 < owns (view mutex place) := by
  obtain ⟨held, task⟩ := place
  obtain rfl : task = .busy mutex point := here
  rw [view_busy, own]
  exact Nat.one_pos

omit [DecidableEq Mutex] in
theorem inner_of (other mutex : Mutex) {point reached : Point Thread}
    (busy : Task.of other point = .busy mutex reached) : Inner reached := by
  cases point <;> cases busy <;> exact ⟨nofun, nofun, nofun⟩

omit [DecidableEq Mutex] in
theorem inner_task (mutex : Mutex) (point : Point Thread) : ∀ other reached,
    (⟨held, Task.of mutex point⟩ : Place Mutex Thread).task = .busy other reached → Inner reached :=
  fun other _ busy => inner_of mutex other busy

end Views

omit [DecidableEq Mutex] in
theorem shadow_acquired (kind : MutexKind) (result : Result) :
    (RobustMutex.acquired kind result : Point Thread) ≠ .gone ∧
      shadow (RobustMutex.acquired kind result : Point Thread) = .idle := by
  unfold RobustMutex.acquired
  split <;> exact ⟨nofun, rfl⟩

omit [DecidableEq Mutex] in
theorem shadow_afterLoop (kind : MutexKind) (timed : Bool) (result : Result) :
    (RobustMutex.afterLoop kind timed result : Point Thread) ≠ .gone ∧
      shadow (RobustMutex.afterLoop kind timed result : Point Thread) = .idle := by
  unfold RobustMutex.afterLoop
  split
  · exact ⟨nofun, rfl⟩
  · split
    · exact ⟨nofun, rfl⟩
    · exact shadow_acquired kind result

/-- A call on one mutex stays what it is to the other mutexes. -/
theorem shadow_of_moves {kind : MutexKind} {self : Thread}
    {memory next : RobustMutex.Memory Thread} {place reached : RobustMutex.Place Thread}
    (inner : Inner place.point) (moves : Moves kind self memory place next reached) :
    reached.point ≠ .gone ∧ shadow reached.point = shadow place.point := by
  obtain ⟨notIdle, notLeaving, notGone⟩ := inner
  cases moves
  case call => exact absurd rfl notIdle
  case exit => exact absurd rfl notIdle
  case take => exact absurd rfl notLeaving
  case vanish => exact absurd rfl notLeaving
  case takeOver timed terminated => exact shadow_afterLoop kind timed _
  case giveUp timed lost => exact shadow_afterLoop kind timed _
  case acquire timed idle => exact shadow_afterLoop kind timed _
  case tryAcquire idle => exact shadow_acquired kind .ok
  case spoil =>
    split <;> exact ⟨nofun, rfl⟩
  case unlinkNext exiting list => cases exiting <;> exact ⟨nofun, rfl⟩
  case unlinkPrev exiting list => cases exiting <;> exact ⟨nofun, rfl⟩
  all_goals exact ⟨nofun, rfl⟩

variable [DecidableEq Thread] {kind : Mutex → MutexKind} {self : Thread}
  {memory next : Memory Mutex Thread} {place reached : Place Mutex Thread}

/-- The memory after a step inside a call. -/
def Memory.after (memory : Memory Mutex Thread) (self : Thread) (mutex : Mutex)
    (fields : RobustMutex.Memory Thread) (point : Point Thread) : Memory Mutex Thread :=
  ⟨Function.update memory.mutexes mutex fields,
    relink self mutex memory.robustMxList memory.links point,
    rehead self mutex memory.robustMxList memory.links point⟩

@[simp] theorem Memory.after_self {fields : RobustMutex.Memory Thread} {mutex : Mutex}
    {point : Point Thread} : (memory.after self mutex fields point).mutexes mutex = fields := by
  simp [Memory.after]

/-- These are the moves of one thread: between the calls, and inside a call on one mutex. -/
inductive Turns (kind : Mutex → MutexKind) (self : Thread) : Memory Mutex Thread →
    Place Mutex Thread → Memory Mutex Thread → Place Mutex Thread → Prop
  | call {memory held mutex request} :
      Turns kind self memory ⟨held, .idle⟩ memory ⟨held, .busy mutex (Request.start request)⟩
  | exit {memory held} : Turns kind self memory ⟨held, .idle⟩ memory ⟨held, .leaving⟩
  | finish {memory held} : memory.robustMxList self = none →
      Turns kind self memory ⟨held, .leaving⟩ memory ⟨held, .gone⟩
  | take {memory held mutex} : memory.robustMxList self = some mutex →
      Turns kind self memory ⟨held, .leaving⟩ memory ⟨held, .busy mutex (.removing true)⟩
  | inside {memory held mutex point label fields depth onward} :
      RobustMutex.step (kind mutex) self (memory.mutexes mutex) ⟨held mutex, point⟩ label =
        some (fields, ⟨depth, onward⟩) →
      Turns kind self memory ⟨held, .busy mutex point⟩ (memory.after self mutex fields point)
        ⟨Function.update held mutex depth, Task.of mutex onward⟩

theorem turns_of_inside {held : Mutex → Nat} {mutex : Mutex} {point : Point Thread}
    {label : RobustMutex.Label}
    (taken : step.inside kind self memory ⟨held, .busy mutex point⟩ mutex point label =
      some (next, reached)) : Turns kind self memory ⟨held, .busy mutex point⟩ next reached := by
  obtain ⟨⟨fields, depth, onward⟩, stepped, same⟩ := Option.map_eq_some_iff.mp taken
  obtain ⟨rfl, rfl⟩ := Prod.mk.inj same
  exact .inside stepped

/-- A step is one of the moves. -/
theorem turns_of_step {label : Label Mutex}
    (taken : step kind self memory place label = some (next, reached)) :
    Turns kind self memory place next reached := by
  obtain ⟨held, task⟩ := place
  cases task with
  | idle =>
      cases label with
      | call mutex request => exact step_some taken .call
      | exit => exact step_some taken .exit
      | go => exact absurd taken (by simp [step])
      | timeout => exact absurd taken (by simp [step])
  | leaving =>
      cases label with
      | go =>
          refine step_some taken ?_
          split
          · rename_i empty
            exact .finish empty
          · rename_i mutex first
            exact .take first
      | call mutex request => exact absurd taken (by simp [step])
      | exit => exact absurd taken (by simp [step])
      | timeout => exact absurd taken (by simp [step])
  | gone => exact absurd taken (by simp [step])
  | busy mutex point =>
      cases label with
      | go => exact turns_of_inside taken
      | timeout => exact turns_of_inside taken
      | call mutex request => exact absurd taken (by simp [step])
      | exit => exact absurd taken (by simp [step])

omit [DecidableEq Thread] in
/-- A thread that leaves and has no list holds nothing, and it holds the first mutex of a list. -/
theorem Listed.leaving {held : Mutex → Nat} (listed : Listed memory self ⟨held, .leaving⟩)
    (mutex : Mutex) :
    (memory.robustMxList self = none → held mutex = 0) ∧
      (memory.robustMxList self = some mutex → held mutex ≠ 0) := by
  obtain ⟨nodes, distinct, members, shape⟩ := listed.shape
  have first : memory.robustMxList self = nodes.head? := Segment.start_eq shape
  rw [first]
  constructor
  · intro empty
    obtain rfl := List.head?_eq_none_iff.mp empty
    by_contra positive
    exact absurd ((members mutex).mpr positive) List.not_mem_nil
  · intro same
    exact (members mutex).mp (List.mem_of_head? same)

/-- To each mutex, a move is one of its own moves or it changes nothing. -/
theorem Listed.view_step (listed : Listed memory self place)
    (turns : Turns kind self memory place next reached) (mutex : Mutex) :
    (∃ label, RobustMutex.step (kind mutex) self (memory.mutexes mutex) (view mutex place) label =
      some (next.mutexes mutex, view mutex reached)) ∨
      next.mutexes mutex = memory.mutexes mutex ∧ view mutex reached = view mutex place := by
  cases turns with
  | @call held other request =>
      by_cases same : other = mutex
      · subst same
        rw [view_busy]
        exact Or.inl ⟨.call request, rfl⟩
      · rw [view_other same]
        exact Or.inr ⟨rfl, by cases request <;> rfl⟩
  | exit => exact Or.inl ⟨.exit, rfl⟩
  | @finish held empty =>
      have nothing := (listed.leaving mutex).1 empty
      refine Or.inl ⟨.go, ?_⟩
      exact if_pos nothing
  | @take held other first =>
      by_cases same : other = mutex
      · subst same
        have positive := (listed.leaving other).2 first
        rw [view_busy]
        exact Or.inl ⟨.take, if_pos positive⟩
      · rw [view_other same]
        exact Or.inr ⟨rfl, rfl⟩
  | @inside held other point label fields depth onward stepped =>
      by_cases same : other = mutex
      · subst same
        rw [view_busy, view_of, Function.update_self]
        refine Or.inl ⟨label, ?_⟩
        rw [Memory.after_self]
        exact stepped
      · have moved := shadow_of_moves (listed.inner other point rfl)
          (RobustMutex.moves_of_step stepped)
        rw [view_other same, view_of_other same moved.1, moved.2,
          Function.update_of_ne (Ne.symm same)]
        exact Or.inr ⟨Function.update_of_ne (Ne.symm same) _ _, rfl⟩

section Frames

omit [DecidableEq Thread]

/-- The list of a thread depends on the nodes that it owns and on its head. -/
theorem Listed.frame (listed : Listed memory self place)
    (links : ∀ mutex, 0 < owns (view mutex place) →
      next.links.prev mutex = memory.links.prev mutex ∧
        next.links.next mutex = memory.links.next mutex)
    (list : next.robustMxList self = memory.robustMxList self) : Listed next self place := by
  obtain ⟨inner, nodes, distinct, members, shape⟩ := listed
  have same : ∀ mutex ∈ nodes, next.links.prev mutex = memory.links.prev mutex ∧
      next.links.next mutex = memory.links.next mutex :=
    fun mutex member => links mutex (owns_view ((members mutex).mp member))
  refine ⟨inner, nodes, distinct, members, ?_⟩
  unfold Shape at shape ⊢
  split at shape
  case h_1 mutex result here =>
    obtain ⟨segment, prev⟩ := shape
    have own := links mutex (owns_busy here rfl)
    rw [list, own.1]
    exact ⟨segment.congr same, prev⟩
  case h_2 mutex result here =>
    obtain ⟨segment, ends⟩ := shape
    have own := links mutex (owns_busy here rfl)
    rw [list, own.1, own.2]
    exact ⟨segment.congr same, ends⟩
  case h_3 mutex result here =>
    obtain ⟨segment, ends⟩ := shape
    have own := links mutex (owns_busy here rfl)
    rw [list, own.1, own.2]
    exact ⟨segment.congr same, ends⟩
  case h_4 mutex exiting owner here =>
    obtain ⟨rfl, front, back, rfl, segment⟩ := shape
    have own := links mutex (owns_busy here rfl)
    rw [list]
    refine ⟨rfl, front, back, rfl, segment.congr fun other member => ?_⟩
    rcases List.mem_append.mp member with before | rest
    · exact same other (List.mem_append_left back before)
    · rcases List.mem_cons.mp rest with rfl | behind
      · exact own
      · exact same other (List.mem_append_right front behind)
  case h_5 mutex exiting owner here =>
    obtain ⟨rfl, front, back, rfl, first, last, second⟩ := shape
    have own := links mutex (owns_busy here rfl)
    rw [list, own.1, own.2]
    refine ⟨rfl, front, back, rfl, first.congr fun other member => ?_, last,
      second.congr fun other member => ?_⟩
    · exact same other (List.mem_append_left back member)
    · exact same other (List.mem_append_right front member)
  case h_6 mutex exiting owner here =>
    obtain ⟨rfl, front, back, rfl, first, second⟩ := shape
    have own := links mutex (owns_busy here rfl)
    rw [list, own.2]
    refine ⟨rfl, front, back, rfl, first.congr fun other member => ?_,
      second.congr fun other member => ?_⟩
    · exact same other (List.mem_append_left back member)
    · exact same other (List.mem_append_right front member)
  case h_7 =>
    rw [list]
    exact shape.congr same

/-- A thread writes to the nodes that it owns. -/
theorem Listed.relink_same {held : Mutex → Nat} {mutex other : Mutex} {point : Point Thread}
    (listed : Listed memory self ⟨held, .busy mutex point⟩)
    (foreign : owns (view other (⟨held, .busy mutex point⟩ : Place Mutex Thread)) = 0) :
    (relink self mutex memory.robustMxList memory.links point).prev other =
        memory.links.prev other ∧
      (relink self mutex memory.robustMxList memory.links point).next other =
        memory.links.next other := by
  obtain ⟨inner, nodes, distinct, members, shape⟩ := listed
  have outside : other ∉ nodes := by
    intro member
    have own : 0 < owns (view other (⟨held, .busy mutex point⟩ : Place Mutex Thread)) :=
      owns_view ((members other).mp member)
    omega
  have differs (own : owns (⟨held mutex, point⟩ : RobustMutex.Place Thread) = 1) :
      some mutex ≠ some other := by
    rintro ⟨⟩
    have own : 0 < owns (view mutex (⟨held, .busy mutex point⟩ : Place Mutex Thread)) :=
      owns_busy rfl own
    omega
  unfold relink
  split
  · exact ⟨setPrev_of_ne (differs rfl), by rw [setPrev_next]⟩
  · exact ⟨by rw [setNext_prev], setNext_of_ne (differs rfl)⟩
  · obtain ⟨segment, ends⟩ := shape
    have target : memory.robustMxList self ≠ some other := by
      rw [segment.start_eq]
      exact fun first => outside (List.mem_of_head? first)
    exact ⟨setPrev_of_ne target, by rw [setPrev_next]⟩
  · obtain ⟨rfl, front, back, rfl, segment⟩ := shape
    obtain ⟨middle, first, rest⟩ := segment_append.mp segment
    obtain ⟨rfl, prev, behind⟩ := rest
    have target : memory.links.next mutex ≠ some other := by
      rw [behind.start_eq]
      exact fun first => outside (List.mem_append_right front (List.mem_of_head? first))
    exact ⟨setPrev_of_ne target, by rw [setPrev_next]⟩
  · obtain ⟨rfl, front, back, rfl, first, last, second⟩ := shape
    have target : memory.links.prev mutex ≠ some other := by
      rw [last]
      exact fun last => outside (List.mem_append_left back (mem_of_lastOf last))
    exact ⟨by rw [setNext_prev], setNext_of_ne target⟩
  · exact ⟨rfl, rfl⟩

end Frames

/-- A thread writes to no head but its own. -/
theorem Listed.rehead_same {held : Mutex → Nat} {mutex : Mutex} {point : Point Thread}
    (listed : Listed memory self ⟨held, .busy mutex point⟩) {other : Thread}
    (foreign : other ≠ self) :
    rehead self mutex memory.robustMxList memory.links point other =
      memory.robustMxList other := by
  obtain ⟨inner, nodes, distinct, members, shape⟩ := listed
  unfold rehead
  split
  · exact Function.update_of_ne foreign _ _
  · obtain ⟨rfl, _⟩ := shape
    split
    · exact Function.update_of_ne foreign _ _
    · rfl
  · rfl

section Own

variable {held : Mutex → Nat} {mutex : Mutex} {point onward : Point Thread} {depth : Nat}
  {fields : RobustMutex.Memory Thread} {nodes : List Mutex}

/-- A depth that stays positive or 0 keeps the members. -/
theorem members_update (members : ∀ other, other ∈ nodes ↔ held other ≠ 0)
    (same : depth ≠ 0 ↔ mutex ∈ nodes) (other : Mutex) :
    other ∈ nodes ↔ Function.update held mutex depth other ≠ 0 := by
  by_cases here : other = mutex
  · rw [here, Function.update_self, same]
  · rw [Function.update_of_ne here]
    exact members other

/-- A step that writes to no node and no head keeps the list. -/
theorem Listed.stays (listed : Listed memory self ⟨held, .busy mutex point⟩)
    (same : depth ≠ 0 ↔ held mutex ≠ 0)
    (links : relink self mutex memory.robustMxList memory.links point = memory.links)
    (lists : rehead self mutex memory.robustMxList memory.links point = memory.robustMxList)
    (shape : ∀ nodes, Shape memory.links memory.robustMxList self nodes (.busy mutex point) →
      Shape memory.links memory.robustMxList self nodes (Task.of mutex onward)) :
    Listed (memory.after self mutex fields point) self
      ⟨Function.update held mutex depth, Task.of mutex onward⟩ := by
  obtain ⟨inner, nodes, distinct, members, old⟩ := listed
  refine ⟨inner_task mutex onward, nodes, distinct,
    members_update members (same.trans (members mutex).symm), ?_⟩
  rw [Memory.after, links, lists]
  exact shape nodes old

omit [DecidableEq Thread] in
theorem Listed.default {task : Task Mutex Thread}
    (listed : Listed memory self ⟨held, task⟩) (reached : Task Mutex Thread)
    (inner : ∀ mutex point, reached = .busy mutex point → Inner point)
    (shape : ∀ nodes, Shape memory.links memory.robustMxList self nodes task →
      Shape memory.links memory.robustMxList self nodes reached) :
    Listed memory self ⟨held, reached⟩ := by
  obtain ⟨_, nodes, distinct, members, old⟩ := listed
  exact ⟨inner, nodes, distinct, members, shape nodes old⟩

omit [DecidableEq Thread] in
theorem shape_acquired (kind : MutexKind) (result : Result) {links : Links Mutex}
    {lists : Thread → Option Mutex} (segment : links.Segment none (lists self) nodes none) :
    Shape links lists self nodes (Task.of mutex (RobustMutex.acquired kind result)) := by
  unfold RobustMutex.acquired
  split <;> exact segment

omit [DecidableEq Thread] in
theorem shape_afterLoop (kind : MutexKind) (timed : Bool) (result : Result) {links : Links Mutex}
    {lists : Thread → Option Mutex} (segment : links.Segment none (lists self) nodes none) :
    Shape links lists self nodes (Task.of mutex (RobustMutex.afterLoop kind timed result)) := by
  unfold RobustMutex.afterLoop
  split
  · exact segment
  · split
    · exact segment
    · exact shape_acquired kind result segment

/-- A step of an addition or a removal writes to the links and keeps the members. -/
theorem Listed.restage (listed : Listed memory self ⟨held, .busy mutex point⟩)
    (gone : held mutex = 0)
    (shape : ∀ nodes, nodes.Nodup → mutex ∉ nodes →
      Shape memory.links memory.robustMxList self nodes (.busy mutex point) →
      Shape (relink self mutex memory.robustMxList memory.links point)
        (rehead self mutex memory.robustMxList memory.links point) self nodes
        (Task.of mutex onward)) :
    Listed (memory.after self mutex fields point) self
      ⟨Function.update held mutex 0, Task.of mutex onward⟩ := by
  obtain ⟨inner, nodes, distinct, members, old⟩ := listed
  have outside : mutex ∉ nodes := fun member => (members mutex).mp member gone
  exact ⟨inner_task mutex onward, nodes, distinct,
    members_update members (by simp [outside]), shape nodes distinct outside old⟩

/-- The node that is added gets no node before it. -/
theorem Listed.addPrev {result : Result}
    (listed : Listed memory self ⟨held, .busy mutex (.adding result .prev)⟩)
    (fresh : held mutex = 0) :
    Listed (memory.after self mutex fields (.adding result .prev)) self
      ⟨Function.update held mutex 0, Task.of mutex (.adding result .next)⟩ := by
  refine listed.restage fresh fun nodes distinct outside segment => ⟨?_, setPrev_self⟩
  exact segment.setPrev (some_ne_of_not_mem outside)

/-- The node that is added gets the first node behind it. -/
theorem Listed.addNext {result : Result}
    (listed : Listed memory self ⟨held, .busy mutex (.adding result .next)⟩)
    (fresh : held mutex = 0) :
    Listed (memory.after self mutex fields (.adding result .next)) self
      ⟨Function.update held mutex 0, Task.of mutex (.adding result .back)⟩ := by
  refine listed.restage fresh fun nodes distinct outside shape => ?_
  obtain ⟨segment, prev⟩ := shape
  refine ⟨segment.setNext (some_ne_of_not_mem outside), ?_, setNext_self⟩
  rw [relink, setNext_prev]
  exact prev

/-- The first node gets the added one before it. -/
theorem Listed.addBack {result : Result}
    (listed : Listed memory self ⟨held, .busy mutex (.adding result .back)⟩)
    (fresh : held mutex = 0) :
    Listed (memory.after self mutex fields (.adding result .back)) self
      ⟨Function.update held mutex 0, Task.of mutex (.adding result .head)⟩ := by
  refine listed.restage fresh fun nodes distinct outside shape => ?_
  obtain ⟨segment, prev, next⟩ := shape
  have target : memory.robustMxList self ≠ some mutex := by
    rw [segment.start_eq]
    exact fun first => outside (List.mem_of_head? first)
  exact ⟨segment.prepend distinct, (setPrev_of_ne target).trans prev,
    (congrFun setPrev_next mutex).trans next⟩

/-- The added node becomes the first one. -/
theorem Listed.addHead {result : Result}
    (listed : Listed memory self ⟨held, .busy mutex (.adding result .head)⟩)
    (fresh : held mutex = 0) :
    Listed (memory.after self mutex fields (.adding result .head)) self
      ⟨Function.update held mutex 1, Task.of mutex (.returning result)⟩ := by
  obtain ⟨inner, nodes, distinct, members, segment, prev, next⟩ := listed
  have outside : mutex ∉ nodes := fun member => (members mutex).mp member fresh
  refine ⟨inner_task mutex (.returning result), mutex :: nodes,
    List.nodup_cons.mpr ⟨outside, distinct⟩, fun other => ?_, ?_⟩
  · by_cases same : other = mutex
    · simp [same]
    · dsimp only
      rw [Function.update_of_ne same, List.mem_cons, or_iff_right same]
      exact members other
  · refine ⟨Function.update_self _ _ _, prev, ?_⟩
    rw [← next] at segment
    exact segment

/-- The node that is removed leaves the members before it leaves the links. -/
theorem Listed.detach {exiting : Bool}
    (listed : Listed memory self ⟨held, .busy mutex (.removing exiting)⟩)
    (present : held mutex ≠ 0) :
    Listed (memory.after self mutex fields (.removing exiting)) self
      ⟨Function.update held mutex 0, Task.of mutex (.unlinking exiting self .next)⟩ := by
  obtain ⟨inner, nodes, distinct, members, segment⟩ := listed
  obtain ⟨front, back, rfl⟩ := List.append_of_mem ((members mutex).mpr present)
  obtain ⟨outside, others⟩ := List.nodup_cons.mp (List.nodup_middle.mp distinct)
  refine ⟨inner_task mutex (.unlinking exiting self .next), front ++ back, others, fun other => ?_,
    rfl, front, back, rfl, segment⟩
  by_cases same : other = mutex
  · simpa [same] using outside
  · dsimp only
    rw [Function.update_of_ne same, ← members other]
    simp [same]

/-- The node behind gets the node before. -/
theorem Listed.unlinkNext {exiting : Bool} {list : Thread}
    (listed : Listed memory self ⟨held, .busy mutex (.unlinking exiting list .next)⟩)
    (gone : held mutex = 0) :
    Listed (memory.after self mutex fields (.unlinking exiting list .next)) self
      ⟨Function.update held mutex 0, Task.of mutex (.unlinking exiting list .prev)⟩ := by
  refine listed.restage gone fun nodes distinct outside shape => ?_
  obtain ⟨rfl, front, back, rfl, segment⟩ := shape
  obtain ⟨middle, first, rfl, last, second⟩ := segment_append.mp segment
  obtain ⟨_, others, apart⟩ := List.nodup_append.mp distinct
  have behind : memory.links.next mutex = back.head? := second.start_eq
  have target : memory.links.next mutex ≠ some mutex := by
    rw [behind]
    exact fun first => outside (List.mem_append_right front (List.mem_of_head? first))
  refine ⟨rfl, front, back, rfl, first.setPrev fun other member same => ?_, ?_, ?_⟩
  · rw [behind] at same
    exact apart other member other (List.mem_of_head? same) rfl
  · exact (setPrev_of_ne target).trans last
  · simp only [relink, setPrev_next, setPrev_of_ne target]
    exact second.prepend others

/-- The node before gets the node behind. -/
theorem Listed.unlinkPrev {exiting : Bool} {list : Thread}
    (listed : Listed memory self ⟨held, .busy mutex (.unlinking exiting list .prev)⟩)
    (gone : held mutex = 0) :
    Listed (memory.after self mutex fields (.unlinking exiting list .prev)) self
      ⟨Function.update held mutex 0, Task.of mutex (.unlinking exiting list .head)⟩ := by
  refine listed.restage gone fun nodes distinct outside shape => ?_
  obtain ⟨rfl, front, back, rfl, first, last, second⟩ := shape
  obtain ⟨others, _, apart⟩ := List.nodup_append.mp distinct
  have target : memory.links.prev mutex ≠ some mutex := by
    rw [last]
    exact fun same => outside (List.mem_append_left back (mem_of_lastOf same))
  have next : (memory.links.setNext (memory.links.prev mutex) (memory.links.next mutex)).next mutex =
      memory.links.next mutex := setNext_of_ne target
  refine ⟨rfl, front, back, rfl, ?_⟩
  simp only [relink, rehead, next]
  constructor
  · by_cases alone : front = []
    · subst alone
      exact if_pos first
    · have head : memory.robustMxList list ≠ some mutex := by
        cases front with
        | nil => exact absurd rfl alone
        | cons before rest =>
            rw [first.1]
            exact fun same => outside (Option.some.inj same ▸ List.mem_cons_self)
      rw [if_neg head, last]
      exact first.append others alone
  · rw [last] at second ⊢
    refine second.setNext fun other member same => ?_
    exact apart other (mem_of_lastOf same) other member rfl

/-- The head goes on to the node behind. -/
theorem Listed.unlinkHead {exiting : Bool} {list : Thread} {onward : Point Thread}
    (listed : Listed memory self ⟨held, .busy mutex (.unlinking exiting list .head)⟩)
    (gone : held mutex = 0) (last : onward = .releasing ∨ onward = .orphaning) :
    Listed (memory.after self mutex fields (.unlinking exiting list .head)) self
      ⟨Function.update held mutex 0, Task.of mutex onward⟩ := by
  refine listed.restage gone fun nodes distinct outside shape => ?_
  obtain ⟨rfl, front, back, rfl, first, second⟩ := shape
  have whole := segment_append.mpr ⟨memory.links.next mutex, first, second⟩
  have head : rehead list mutex memory.robustMxList memory.links
      (.unlinking exiting list .head) list =
        if memory.robustMxList list = some mutex then memory.links.next mutex
        else memory.robustMxList list := by
    by_cases here : memory.robustMxList list = some mutex <;> simp [rehead, here]
  rw [← head] at whole
  rcases last with rfl | rfl
  · exact whole
  · exact whole

/-- A step inside a call keeps the list of its thread, if no timed lock takes a free normal
mutex. -/
theorem Listed.inside {kind : MutexKind} (listed : Listed memory self ⟨held, .busy mutex point⟩)
    (suits : RobustMutex.Suits kind (⟨held mutex, point⟩ : RobustMutex.Place Thread))
    (owner : point = .removing true ∨ point = .removing false →
      (memory.mutexes mutex).ownerThread = some self)
    (more : point = .decrementing → (memory.mutexes mutex).recursive_count - 1 ≠ 0 →
      held mutex - 1 ≠ 0)
    (good : point = .exchanging true → (memory.mutexes mutex).lock_idx ≠ 0)
    (moves : Moves kind self (memory.mutexes mutex) ⟨held mutex, point⟩ fields ⟨depth, onward⟩) :
    Listed (memory.after self mutex fields point) self
      ⟨Function.update held mutex depth, Task.of mutex onward⟩ := by
  generalize same : held mutex = before at moves suits more
  generalize memory.mutexes mutex = old at moves owner more good
  cases moves
  case unlisted idle => exact absurd idle (good rfl)
  case count =>
    have positive := suits.2
    exact listed.stays (by omega) rfl rfl fun _ shape => shape
  case inner more' =>
    have positive := suits.2
    have kept := more rfl more'
    exact listed.stays (by omega) rfl rfl fun _ shape => shape
  case takeOver => exact listed.stays (by rw [same]) rfl rfl fun _ => shape_afterLoop kind _ _
  case giveUp => exact listed.stays (by rw [same]) rfl rfl fun _ => shape_afterLoop kind _ _
  case acquire => exact listed.stays (by rw [same]) rfl rfl fun _ => shape_afterLoop kind _ _
  case tryAcquire => exact listed.stays (by rw [same]) rfl rfl fun _ => shape_acquired kind _
  case spoil =>
    refine listed.stays (by rw [same]) rfl rfl fun _ shape => ?_
    split <;> exact shape
  case call => exact absurd rfl (listed.inner _ _ rfl).1
  case exit => exact absurd rfl (listed.inner _ _ rfl).1
  case take => exact absurd rfl (listed.inner _ _ rfl).2.1
  case vanish => exact absurd rfl (listed.inner _ _ rfl).2.1
  case addPrev =>
    obtain rfl : _ = 0 := suits
    exact listed.addPrev same
  case addNext =>
    obtain rfl : _ = 0 := suits
    exact listed.addNext same
  case addBack =>
    obtain rfl : _ = 0 := suits
    exact listed.addBack same
  case addHead =>
    obtain rfl : _ = 0 := suits
    exact listed.addHead same
  case disown owned =>
    obtain rfl : _ = 1 := suits
    obtain rfl := Option.some.inj ((owner (Or.inr rfl)).symm.trans owned)
    exact listed.detach (by omega)
  case bequeath owned =>
    obtain rfl := Option.some.inj ((owner (Or.inl rfl)).symm.trans owned)
    exact listed.detach (ne_of_eq_of_ne same suits)
  case unlinkNext =>
    obtain rfl : _ = 0 := suits
    exact listed.unlinkNext same
  case unlinkPrev =>
    obtain rfl : _ = 0 := suits
    exact listed.unlinkPrev same
  case unlinkHead =>
    obtain rfl : _ = 0 := suits
    exact listed.unlinkHead same (Or.inl rfl)
  case unlinkLast =>
    obtain rfl : _ = 0 := suits
    exact listed.unlinkHead same (Or.inr rfl)
  all_goals exact listed.stays (by rw [same]) rfl rfl fun _ shape => shape

end Own

section Run

variable [Fintype Thread] {places : Thread → Place Mutex Thread} {thread : Thread}

omit [Fintype Thread] in
theorem views_update (mutex : Mutex) : views mutex (Function.update places thread reached) =
    Function.update (views mutex places) thread (view mutex reached) := by
  funext other
  by_cases same : other = thread
  · subst same
    simp [views]
  · simp [views, same]

omit [Fintype Thread] [DecidableEq Thread] in
/-- What a mutex sees of a call on it is the point of the call. -/
theorem busy_of_view {mutex : Mutex} {point : Point Thread} (here : (view mutex place).point = point)
    (inner : Inner point) : place.task = .busy mutex point := by
  obtain ⟨held, task⟩ := place
  obtain ⟨notIdle, notLeaving, notGone⟩ := inner
  cases task with
  | idle => exact absurd here.symm notIdle
  | leaving => exact absurd here.symm notLeaving
  | gone => exact absurd here.symm notGone
  | busy other reached =>
      by_cases same : other = mutex
      · subst same
        rw [view_busy] at here
        exact congrArg (Task.busy other) here
      · rw [view_other same] at here
        unfold shadow at here
        split at here
        · exact absurd here.symm notLeaving
        · exact absurd here.symm notIdle

/-- What each mutex keeps in its own steps, it keeps in all steps. -/
theorem Linked.view_step (linked : Linked kind memory places)
    (turns : Turns kind thread memory (places thread) next reached) (mutex : Mutex)
    (Known : RobustMutex.Memory Thread → (Thread → RobustMutex.Place Thread) → Prop)
    (known : Known (memory.mutexes mutex) (views mutex places))
    (step : ∀ fields place, Moves (kind mutex) thread (memory.mutexes mutex)
      (views mutex places thread) fields place →
        Known fields (Function.update (views mutex places) thread place)) :
    Known (next.mutexes mutex) (views mutex (Function.update places thread reached)) := by
  rw [views_update]
  rcases (linked.listed thread).view_step turns mutex with ⟨label, stepped⟩ | ⟨same, still⟩
  · exact step _ _ (RobustMutex.moves_of_step stepped)
  · rw [same, still]
    exact (Function.update_eq_self thread (views mutex places)).symm ▸ known

/-- A step of another thread leaves the list of this one. -/
theorem Linked.listed_other (linked : Linked kind memory places)
    (turns : Turns kind thread memory (places thread) next reached) {other : Thread}
    (foreign : other ≠ thread) : Listed next other (places other) := by
  have mine := linked.listed thread
  generalize here : places thread = place at turns mine
  cases turns with
  | call => exact linked.listed other
  | exit => exact linked.listed other
  | finish => exact linked.listed other
  | take => exact linked.listed other
  | @inside held mutex point label fields depth onward stepped =>
      refine (linked.listed other).frame (fun node own => ?_) (mine.rehead_same foreign)
      apply mine.relink_same
      by_contra owned
      have both := eq_of_total_le_one (linked.guarded node).owned own
        (show 0 < owns (views node places thread) by rw [views, here]; omega)
      exact foreign both

/-- A step of a thread keeps its own list, if no timed lock takes a free normal mutex. -/
theorem Linked.listed_self (linked : Linked kind memory places)
    (good : ∀ mutex, (places thread).task = .busy mutex (.exchanging true) →
      (memory.mutexes mutex).lock_idx ≠ 0)
    (turns : Turns kind thread memory (places thread) next reached) :
    Listed next thread reached := by
  have mine := linked.listed thread
  generalize here : places thread = place at turns mine good
  cases turns with
  | @call held mutex request =>
      refine mine.default _ (fun _ _ busy => ?_) fun nodes shape => ?_
      · cases request <;> cases busy <;> exact ⟨nofun, nofun, nofun⟩
      · cases request <;> exact shape
  | exit => exact mine.default _ nofun fun nodes shape => shape
  | finish empty => exact mine.default _ nofun fun nodes shape => shape
  | take first =>
      refine mine.default _ (fun _ _ busy => ?_) fun nodes shape => shape
      cases busy
      exact ⟨nofun, nofun, nofun⟩
  | @inside held mutex point label fields depth onward stepped =>
      have guarded := linked.guarded mutex
      have seen : views mutex places thread = ⟨held mutex, point⟩ := by
        rw [views, here, view_busy]
      have suits := (guarded.fits thread).suits
      rw [seen] at suits
      refine mine.inside suits ?_ ?_ (fun same => good mutex (by rw [same]))
        (RobustMutex.moves_of_step stepped)
      · intro removing
        refine guarded.records.owner thread ?_
        rw [seen]
        rcases removing with rfl | rfl
        · exact decide_eq_true suits
        · exact decide_eq_true (by rw [show held mutex = 1 from suits]; decide)
      · rintro rfl more
        exact guarded.depth_sub_ne seen more

/-- No timed lock of a normal mutex finds it free. -/
def Recording (config : Configuration Thread (Memory Mutex Thread) (Place Mutex Thread))
    (action : Thread × Label Mutex) : Prop :=
  action.2 = .go → ∀ mutex, (config.places action.1).task = .busy mutex (.exchanging true) →
    (config.memory.mutexes mutex).lock_idx ≠ 0

theorem Linked.step (linked : Linked kind memory places)
    (good : ∀ mutex, (places thread).task = .busy mutex (.exchanging true) →
      (memory.mutexes mutex).lock_idx ≠ 0)
    (turns : Turns kind thread memory (places thread) next reached) :
    Linked kind next (Function.update places thread reached) where
  guarded mutex := by
    refine linked.view_step turns mutex (RobustMutex.Guarded (kind mutex)) (linked.guarded mutex) ?_
    intro fields place moves
    exact (linked.guarded mutex).step (fun same => good mutex (busy_of_view same ⟨nofun, nofun, nofun⟩)) moves
  listed other := by
    by_cases same : other = thread
    · subst same
      rw [Function.update_self]
      exact linked.listed_self good turns
    · rw [Function.update_of_ne same]
      exact linked.listed_other turns same

omit [DecidableEq Thread] in
theorem linked_initial : Linked kind (⟨fun _ => RobustMutex.free Thread,
    ⟨fun _ => none, fun _ => none⟩, fun _ => none⟩ : Memory Mutex Thread)
      fun _ => ⟨fun _ => 0, .idle⟩ where
  guarded _ := RobustMutex.guarded_initial
  listed _ := ⟨nofun, [], List.nodup_nil, fun _ => by simp, rfl⟩

end Run

end RobustMutexes

end CodeCollect.Pthreads
