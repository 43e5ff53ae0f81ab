import CodeCollect.Library.BoundedQueue
import CodeCollect.Log4cxx.LogString

namespace CodeCollect.Log4cxx

open CodeCollect.Library

/-- This is the largest value of an `int`. -/
def INT_MAX : Nat := 0x7FFFFFFF

/-- A null pointer leads to no event. -/
abbrev LoggingEventPtr (Event : Type) := Option Event

structure CyclicBuffer (Event : Type) where
  ea : List (LoggingEventPtr Event)
  first : Nat
  last : Nat
  numElems : Nat
  maxSize : Nat

namespace CyclicBuffer

/-- The first two faults are exceptions, and the others are undefined behavior. -/
inductive Fault where
  | lengthError
  | illegalArgument (msg : LogString)
  | outOfBounds
  | overflow
deriving DecidableEq

variable {Event : Type}

/-- The array is made before the argument is checked. -/
def create (maxSize1 : Int) : Except Fault (CyclicBuffer Event) :=
  if maxSize1 < 0 then .error .lengthError
  else if maxSize1 < 1 then
    .error (.illegalArgument ("The maxSize argument (".toList ++ (toString maxSize1).toList ++
      ") is not a positive integer.".toList))
  else .ok
    { ea := List.replicate maxSize1.toNat none
      first := 0
      last := 0
      numElems := 0
      maxSize := maxSize1.toNat }

def add (self : CyclicBuffer Event) (event : LoggingEventPtr Event) :
    Except Fault (CyclicBuffer Event) :=
  if self.last < self.ea.length then
    let ea := self.ea.set self.last event
    let last := following self.maxSize self.last
    if self.numElems < self.maxSize then
      .ok { self with ea := ea, last := last, numElems := self.numElems + 1 }
    else .ok { self with ea := ea, last := last, first := following self.maxSize self.first }
  else .error .outOfBounds

/-- This is `get` with an index, which is added to `first` as an `int`. -/
def get (self : CyclicBuffer Event) (i : Int) : Except Fault (LoggingEventPtr Event) :=
  if i < 0 ∨ self.numElems ≤ i then .ok none
  else if INT_MAX < self.first + i then .error .overflow
  else
    match self.ea[((self.first + i) % self.maxSize).toNat]? with
    | some event => .ok event
    | none => .error .outOfBounds

/-- This is `get` without an index. -/
def getOldest (self : CyclicBuffer Event) :
    Except Fault (CyclicBuffer Event × LoggingEventPtr Event) :=
  if 0 < self.numElems then
    match self.ea[self.first]? with
    | some r => .ok
        ({ self with
            ea := self.ea.set self.first none
            first := following self.maxSize self.first
            numElems := self.numElems - 1 }, r)
    | none => .error .outOfBounds
  else .ok (self, none)

def getMaxSize (self : CyclicBuffer Event) : Nat := self.maxSize

def length (self : CyclicBuffer Event) : Nat := self.numElems

inductive Operation (Event : Type) where
  | add (event : LoggingEventPtr Event)
  | getOldest
  | get (i : Int)
  | length

/-- This is what a caller sees of an operation. -/
inductive Response (Event : Type) where
  | event (r : LoggingEventPtr Event)
  | length (numElems : Nat)

def step (self : CyclicBuffer Event) :
    Operation Event → Except Fault (CyclicBuffer Event × List (Response Event))
  | .add event => (self.add event).map fun next => (next, [])
  | .getOldest => self.getOldest.map fun (next, r) => (next, [.event r])
  | .get i => (self.get i).map fun r => (self, [.event r])
  | .length => .ok (self, [.length self.length])

/-- A run has no state any more after a fault. -/
def machine (self : CyclicBuffer Event) :
    Machine (CyclicBuffer Event) (Operation Event) (Response Event) where
  initial := self
  step buffer operation := (buffer.step operation).toOption

end CyclicBuffer

section Queue

open CyclicBuffer

variable {Event : Type}

/-- This is the purpose of a buffer: the operations of a bounded queue of events. -/
def queueStep (queue : BoundedQueue (LoggingEventPtr Event)) :
    Operation Event → BoundedQueue (LoggingEventPtr Event) × List (Response Event)
  | .add event => (queue.push event, [])
  | .getOldest => (queue.pop, [.event queue.contents.head?.join])
  | .get i => (queue, [.event (if i < 0 then none else queue.contents[i.toNat]?.join)])
  | .length => (queue, [.length queue.contents.length])

def queueMachine (queue : BoundedQueue (LoggingEventPtr Event)) :
    Machine (BoundedQueue (LoggingEventPtr Event)) (Operation Event) (Response Event) where
  initial := queue
  step queue operation := some (queueStep queue operation)

/-- The queue takes every operation. -/
theorem queueMachine_total (queue : BoundedQueue (LoggingEventPtr Event))
    (operations : List (Operation Event)) :
    ∃ result, (queueMachine queue).run operations = some result :=
  Machine.run_total (fun _ _ => ⟨_, rfl⟩) operations

end Queue

namespace CyclicBuffer

variable {Event : Type} {self : CyclicBuffer Event}
  {queue : BoundedQueue (LoggingEventPtr Event)}

/-- The indices are inside the array, and the array holds the contents of the queue from the
first index on. -/
structure Represents (buffer : CyclicBuffer Event)
    (queue : BoundedQueue (LoggingEventPtr Event)) : Prop where
  maxSize : buffer.maxSize = queue.capacity
  first : buffer.first < buffer.maxSize
  numElems : buffer.numElems = queue.contents.length
  last : buffer.last = (buffer.first + buffer.numElems) % buffer.maxSize
  ea : buffer.ea.rotate buffer.first =
    queue.contents ++ List.replicate (buffer.maxSize - buffer.numElems) none

namespace Represents

theorem numElems_le (represents : self.Represents queue) : self.numElems ≤ self.maxSize := by
  rw [represents.numElems, represents.maxSize]
  exact queue.fits

theorem ea_length (represents : self.Represents queue) : self.ea.length = self.maxSize := by
  have size := congrArg List.length represents.ea
  have fits := represents.numElems_le
  rw [List.length_rotate, List.length_append, List.length_replicate,
    ← represents.numElems] at size
  omega

theorem last_lt (represents : self.Represents queue) : self.last < self.maxSize := by
  rw [represents.last]
  exact Nat.mod_lt _ (Nat.zero_lt_of_lt represents.first)

/-- The place behind the last one follows the place of the last event. -/
theorem following_last (represents : self.Represents queue) :
    following self.maxSize self.last = (self.first + (self.numElems + 1)) % self.maxSize := by
  rw [following_eq_mod represents.last_lt, represents.last, Nat.mod_add_mod, Nat.add_assoc]

end Represents

theorem create_represents {maxSize : Int} (positive : 1 ≤ maxSize) :
    ∃ buffer : CyclicBuffer Event, create maxSize = .ok buffer ∧
      buffer.Represents (.empty maxSize.toNat (by omega)) := by
  refine ⟨_, by rw [create, if_neg (by omega), if_neg (by omega)], ?_⟩
  exact
    { maxSize := rfl
      first := show 0 < maxSize.toNat by omega
      numElems := rfl
      last := (Nat.zero_mod _).symm
      ea := List.rotate_zero _ }

/-- A new event is the last one, and a full buffer loses its oldest event. -/
theorem Represents.add (represents : self.Represents queue) (event : LoggingEventPtr Event) :
    ∃ next, self.add event = .ok next ∧ next.Represents (queue.push event) := by
  have size := represents.ea_length
  have inside : self.last < self.ea.length := size ▸ represents.last_lt
  by_cases room : self.numElems < self.maxSize
  · refine ⟨_, by rw [CyclicBuffer.add, if_pos inside, if_pos room], ?_⟩
    have free : queue.contents.length < queue.capacity := by
      rw [← represents.numElems, ← represents.maxSize]
      exact room
    have contents := BoundedQueue.push_contents_of_lt free event
    have ea := represents.ea
    rw [show self.maxSize - self.numElems = self.maxSize - (self.numElems + 1) + 1 by omega] at ea
    refine ⟨represents.maxSize, represents.first, ?_, represents.following_last, ?_⟩
    · rw [contents, List.length_append, represents.numElems]
      rfl
    · have appended := rotate_appended ea event
      rw [size, ← represents.numElems, ← represents.last, ← contents] at appended
      exact appended
  · refine ⟨_, by rw [CyclicBuffer.add, if_pos inside, if_neg room], ?_⟩
    have fits := represents.numElems_le
    have full : self.numElems = self.maxSize := by omega
    have contents := BoundedQueue.push_contents_of_full
      (show queue.contents.length = queue.capacity by
        rw [← represents.numElems, ← represents.maxSize, full]) event
    have sameLast : self.last = self.first := by
      rw [represents.last, full, Nat.add_mod_right, Nat.mod_eq_of_lt represents.first]
    have ea := represents.ea
    rw [full, Nat.sub_self, List.replicate_zero, List.append_nil] at ea
    refine ⟨represents.maxSize, following_lt represents.first, ?_, ?_, ?_⟩
    · have positive := represents.first
      rw [contents, List.length_append, List.length_tail, ← represents.numElems,
        List.length_singleton]
      change self.numElems = self.numElems - 1 + 1
      omega
    · change following self.maxSize self.last =
        (following self.maxSize self.first + self.numElems) % self.maxSize
      rw [sameLast, full, Nat.add_mod_right,
        Nat.mod_eq_of_lt (following_lt represents.first)]
    · obtain ⟨oldest, others, cons⟩ := List.exists_cons_of_length_pos
        (show 0 < queue.contents.length by
          rw [← represents.numElems, full]
          exact Nat.zero_lt_of_lt represents.first)
      have replaced := rotate_replaced (size.symm ▸ represents.first) (ea.trans cons) event
      rw [size] at replaced
      change (self.ea.set self.last event).rotate (following self.maxSize self.first) =
        (queue.push event).contents ++ List.replicate (self.maxSize - self.numElems) none
      rw [sameLast, replaced, contents, cons, full, Nat.sub_self, List.replicate_zero,
        List.append_nil, List.tail_cons]

/-- The oldest event leaves the buffer, and its place becomes free. -/
theorem Represents.getOldest (represents : self.Represents queue) :
    ∃ next, self.getOldest = .ok (next, queue.contents.head?.join) ∧
      next.Represents queue.pop := by
  have size := represents.ea_length
  by_cases some : 0 < self.numElems
  · obtain ⟨oldest, others, cons⟩ := List.exists_cons_of_length_pos
      (show 0 < queue.contents.length by rwa [← represents.numElems])
    have ea := represents.ea
    rw [cons, List.cons_append] at ea
    have found : self.ea[self.first]? = Option.some oldest := by
      rw [← List.head?_rotate (size.symm ▸ represents.first), ea, List.head?_cons]
    refine ⟨_, by rw [CyclicBuffer.getOldest, if_pos some, found, cons]; rfl, ?_⟩
    have fits := represents.numElems_le
    refine ⟨represents.maxSize, following_lt represents.first, ?_, ?_, ?_⟩
    · change self.numElems - 1 = queue.contents.tail.length
      rw [List.length_tail, represents.numElems]
    · change self.last =
        (following self.maxSize self.first + (self.numElems - 1)) % self.maxSize
      rw [following_eq_mod represents.first, Nat.mod_add_mod, represents.last]
      congr 1
      omega
    · have replaced := rotate_replaced (size.symm ▸ represents.first) ea none
      rw [size] at replaced
      change (self.ea.set self.first none).rotate (following self.maxSize self.first) =
        queue.contents.tail ++ List.replicate (self.maxSize - (self.numElems - 1)) none
      rw [replaced, cons, List.tail_cons, List.append_assoc, ← List.replicate_succ',
        show self.maxSize - (self.numElems - 1) = self.maxSize - self.numElems + 1 by omega]
  · have empty : queue.contents = [] := by
      rw [← List.length_eq_zero_iff, ← represents.numElems]
      omega
    refine ⟨self, by rw [CyclicBuffer.getOldest, if_neg some, empty]; rfl, ?_⟩
    refine ⟨represents.maxSize, represents.first, ?_, represents.last, ?_⟩
    · rw [represents.numElems, BoundedQueue.pop_contents, empty, List.tail_nil]
    · rw [represents.ea, BoundedQueue.pop_contents, empty, List.tail_nil]

/-- The sum of the two indices is the value of an `int`, or the index is out of range. -/
def NoOverflow (buffer : CyclicBuffer Event) : Operation Event → Prop
  | .get i => 0 ≤ i → i < buffer.numElems → buffer.first + i ≤ INT_MAX
  | .add _ | .getOldest | .length => True

theorem Represents.get (represents : self.Represents queue) {i : Int}
    (noOverflow : self.NoOverflow (.get i)) :
    self.get i = .ok (if i < 0 then none else queue.contents[i.toNat]?.join) := by
  have size := represents.ea_length
  have fits := represents.numElems_le
  by_cases outside : i < 0 ∨ self.numElems ≤ i
  · rw [CyclicBuffer.get, if_pos outside]
    split
    · rfl
    · rw [List.getElem?_eq_none (by have same := represents.numElems; omega)]
      rfl
  · obtain ⟨i, rfl⟩ := Int.eq_ofNat_of_zero_le (show 0 ≤ i by omega)
    have sum : (self.first : Int) + (i : Int) ≤ INT_MAX := noOverflow (by omega) (by omega)
    have place : (((self.first : Int) + (i : Int)) % (self.maxSize : Int)).toNat =
        (i + self.first) % self.ea.length := by
      rw [size, Nat.add_comm i, ← Nat.cast_add, ← Int.natCast_emod, Int.toNat_natCast]
    rw [CyclicBuffer.get, if_neg outside, if_neg (by omega), if_neg (by omega), place,
      ← List.getElem?_rotate (by omega), represents.ea,
      List.getElem?_append_left (by have same := represents.numElems; omega), Int.toNat_natCast]
    have inside : i < queue.contents.length := by
      have same := represents.numElems
      omega
    rw [List.getElem?_eq_getElem inside]
    rfl

/-- Each operation does what it does to the queue. -/
theorem Represents.step (represents : self.Represents queue) {operation : Operation Event}
    (noOverflow : self.NoOverflow operation) :
    ∃ next, self.step operation = .ok (next, (queueStep queue operation).2) ∧
      next.Represents (queueStep queue operation).1 := by
  cases operation with
  | add event =>
      obtain ⟨next, added, kept⟩ := represents.add event
      exact ⟨next, by rw [CyclicBuffer.step, added]; rfl, kept⟩
  | getOldest =>
      obtain ⟨next, taken, kept⟩ := represents.getOldest
      exact ⟨next, by rw [CyclicBuffer.step, taken]; rfl, kept⟩
  | get i =>
      refine ⟨self, ?_, represents⟩
      rw [CyclicBuffer.step, represents.get noOverflow]
      rfl
  | length =>
      refine ⟨self, ?_, represents⟩
      rw [CyclicBuffer.step, CyclicBuffer.length, represents.numElems]
      rfl

theorem queueStep_capacity (queue : BoundedQueue (LoggingEventPtr Event))
    (operation : Operation Event) : (queueStep queue operation).1.capacity = queue.capacity := by
  cases operation <;> rfl

/-- A run without an overflow is a run of the queue. -/
theorem Represents.run (represents : self.Represents queue) {operations : List (Operation Event)}
    (noOverflow : self.machine.Along NoOverflow operations) :
    ∃ next after trace, self.machine.run operations = some (next, trace) ∧
      (queueMachine queue).run operations = some (after, trace) ∧ next.Represents after ∧
        after.capacity = queue.capacity := by
  have simulated : ∀ (buffer : CyclicBuffer Event) model operation,
      (buffer.Represents model ∧ model.capacity = queue.capacity) →
      buffer.NoOverflow operation → ∃ next after seen,
        self.machine.step buffer operation = some (next, seen) ∧
          (queueMachine queue).step model operation = some (after, seen) ∧
            next.Represents after ∧ after.capacity = queue.capacity := by
    intro buffer model operation kept good
    obtain ⟨next, stepped, onward⟩ := kept.1.step good
    refine ⟨next, _, _, ?_, rfl, onward, ?_⟩
    · change (buffer.step operation).toOption = _
      rw [stepped]
      rfl
    · exact (queueStep_capacity model operation).trans kept.2
  exact Machine.run_simulates self.machine (queueMachine queue)
    (fun buffer model => buffer.Represents model ∧ model.capacity = queue.capacity)
    ⟨represents, rfl⟩ simulated noOverflow

/-- An overflow is the end of a run. -/
theorem noOverflow_of_step (buffer : CyclicBuffer Event) (operation : Operation Event)
    (next : CyclicBuffer Event × List (Response Event))
    (stepped : self.machine.step buffer operation = some next) :
    buffer.NoOverflow operation := by
  cases operation with
  | get i =>
      intro low high
      by_contra beyond
      change ((buffer.get i).map _).toOption = _ at stepped
      rw [CyclicBuffer.get, if_neg (by omega), if_pos (by omega)] at stepped
      exact absurd stepped (by simp [Except.map, Except.toOption])
  | add event => trivial
  | getOldest => trivial
  | length => trivial

/-- No index overflows in a buffer of at most half the range. -/
theorem Represents.noOverflow (represents : self.Represents queue)
    (half : 2 * self.maxSize ≤ INT_MAX + 2) (operation : Operation Event) :
    self.NoOverflow operation := by
  have first := represents.first
  have fits := represents.numElems_le
  cases operation with
  | get i =>
      intro low high
      omega
  | add event => trivial
  | getOldest => trivial
  | length => trivial

/-- A fresh buffer does what an empty queue does exactly as long as no index overflows. -/
theorem refines_iff {maxSize : Int} (positive : 1 ≤ maxSize)
    (operations : List (Operation Event)) :
    ∃ (fresh : CyclicBuffer Event) (after : BoundedQueue (LoggingEventPtr Event))
      (trace : List (Response Event)),
      create maxSize = .ok fresh ∧
        (queueMachine (.empty maxSize.toNat (by omega))).run operations = some (after, trace) ∧
        ((∃ next, fresh.machine.run operations = some (next, trace) ∧ next.Represents after ∧
            next.first < next.ea.length ∧ next.last < next.ea.length) ↔
          fresh.machine.Along NoOverflow operations) := by
  obtain ⟨fresh, created, represents⟩ := @create_represents Event maxSize positive
  obtain ⟨⟨after, trace⟩, followed⟩ :=
    queueMachine_total (.empty maxSize.toNat (by omega)) operations
  refine ⟨fresh, after, trace, created, followed, ?_, fun noOverflow => ?_⟩
  · intro refines
    obtain ⟨next, ran, _⟩ := refines
    exact Machine.along_of_run noOverflow_of_step ran
  · obtain ⟨next, other, seen, ran, also, kept, _⟩ := represents.run noOverflow
    obtain ⟨rfl, rfl⟩ := Prod.mk.inj (Option.some.inj (followed.symm.trans also))
    have size := kept.ea_length
    exact ⟨next, ran, kept, size ▸ kept.first, size ▸ kept.last_lt⟩

/-- A buffer of two events wraps around. -/
theorem refines_iff_wrapped :
    ∃ (fresh : CyclicBuffer Nat) (after : BoundedQueue (LoggingEventPtr Nat))
      (trace : List (Response Nat)),
      create 2 = .ok fresh ∧
        (queueMachine (.empty 2 (by decide))).run
          [.add (some 1), .add (some 2), .add (some 3), .get 1, .getOldest] =
            some (after, trace) ∧
        ((∃ next, fresh.machine.run
            [.add (some 1), .add (some 2), .add (some 3), .get 1, .getOldest] =
              some (next, trace) ∧ next.Represents after ∧
            next.first < next.ea.length ∧ next.last < next.ea.length) ↔
          fresh.machine.Along NoOverflow
            [.add (some 1), .add (some 2), .add (some 3), .get 1, .getOldest]) :=
  refines_iff (by decide) [.add (some 1), .add (some 2), .add (some 3), .get 1, .getOldest]

/-- This is where the first index is after so many new events. -/
theorem run_adds {maxSize : Nat} (positive : 0 < maxSize) (event : LoggingEventPtr Event)
    (count : Nat) :
    ∃ fresh next trace, create (maxSize : Int) = .ok fresh ∧
      fresh.machine.run (List.replicate count (.add event)) = some (next, trace) ∧
      (∃ queue, next.Represents queue) ∧ next.maxSize = maxSize ∧
      next.numElems = min count maxSize ∧ next.first = (count - maxSize) % maxSize := by
  induction count with
  | zero =>
      obtain ⟨fresh, created, represents⟩ :=
        @create_represents Event (maxSize : Int) (by omega)
      have made := created
      rw [create, if_neg (by omega), if_neg (by omega)] at made
      obtain rfl := Except.ok.inj made
      refine ⟨_, _, [], created, rfl, ⟨_, represents⟩, Int.toNat_natCast maxSize, ?_, ?_⟩
      · exact (Nat.zero_min maxSize).symm
      · rw [Nat.zero_sub, Nat.zero_mod]
        rfl
  | succ count ih =>
      obtain ⟨fresh, before, past, created, ran, ⟨queue, represents⟩, size, numElems, first⟩ := ih
      obtain ⟨next, added, kept⟩ := represents.add event
      refine ⟨fresh, next, past ++ [], created, ?_, ⟨_, kept⟩, ?_⟩
      · rw [List.replicate_succ', Machine.run_concat]
        refine ⟨before, past, [], ran, ?_, rfl⟩
        change ((before.add event).map _).toOption = _
        rw [added]
        rfl
      · have inside : before.last < before.ea.length :=
          represents.ea_length ▸ represents.last_lt
        rw [CyclicBuffer.add, if_pos inside] at added
        by_cases room : before.numElems < before.maxSize
        · rw [if_pos room] at added
          obtain rfl := Except.ok.inj added
          refine ⟨size, ?_, ?_⟩
          · change before.numElems + 1 = _
            omega
          · change before.first = _
            rw [first, Nat.sub_eq_zero_of_le (by omega), Nat.sub_eq_zero_of_le (by omega)]
        · rw [if_neg room] at added
          obtain rfl := Except.ok.inj added
          refine ⟨size, ?_, ?_⟩
          · change before.numElems = _
            omega
          · change following before.maxSize before.first = _
            rw [following_eq_mod represents.first, size, first, Nat.mod_add_mod]
            congr 1
            omega

/-- The largest buffer computes its last index as a negative number when it has wrapped around
twice. -/
theorem get_overflows :
    ∃ fresh : CyclicBuffer Unit, create INT_MAX = .ok fresh ∧
      fresh.machine.run (List.replicate (INT_MAX + 2) (.add (some ())) ++
        [.get (INT_MAX - 1)]) = none ∧
      ∃ result, (queueMachine (.empty INT_MAX (by decide))).run
        (List.replicate (INT_MAX + 2) (.add (some ())) ++ [.get (INT_MAX - 1)]) =
          some result := by
  obtain ⟨fresh, next, trace, created, ran, _, size, numElems, first⟩ :=
    @run_adds Unit INT_MAX (by decide) (some ()) (INT_MAX + 2)
  refine ⟨fresh, created, ?_, queueMachine_total _ _⟩
  rw [Machine.run_append, ran, Option.bind_some, List.foldlM_cons]
  have fault : next.get (INT_MAX - 1) = .error .overflow := by
    rw [Nat.add_sub_cancel_left] at first
    rw [CyclicBuffer.get, numElems, first, if_neg (by simp [INT_MAX]), if_pos (by simp [INT_MAX])]
  have stopped : fresh.machine.advance (next, trace) (.get (INT_MAX - 1)) = none := by
    change (((next.get (INT_MAX - 1)).map _).toOption).map _ = none
    rw [fault]
    rfl
  rw [stopped]
  rfl

end CyclicBuffer

end CodeCollect.Log4cxx
