import CodeCollect.Log4cxx.CyclicBuffer

namespace CodeCollect.Log4cxx.CyclicBuffer

open CodeCollect.Library

variable {Event : Type}

/-- This is the loop of `resize`, which goes around a ring of `numElems` places. -/
def resizeLoop (numElems : Nat) : Nat → Nat → List (LoggingEventPtr Event) →
    List (LoggingEventPtr Event) → Nat → Except Fault (List (LoggingEventPtr Event))
  | 0, _, temp, _, _ => .ok temp
  | left + 1, i, temp, ea, first =>
      match ea[first]? with
      | some event => resizeLoop numElems left (i + 1) (temp.set i event) (ea.set first none)
          (following numElems first)
      | none => .error .outOfBounds

def resize (self : CyclicBuffer Event) (newSize : Int) : Except Fault (CyclicBuffer Event) :=
  if newSize < 0 then
    .error (.illegalArgument ("Negative array size [".toList ++ (toString newSize).toList ++
      "] not allowed.".toList))
  else if newSize = self.numElems then .ok self
  else
    let loopLen := if newSize < self.numElems then newSize.toNat else self.numElems
    (resizeLoop self.numElems loopLen 0 (List.replicate newSize.toNat none) self.ea
      self.first).map fun temp =>
        { ea := temp
          first := 0
          last := if loopLen = newSize then 0 else loopLen
          numElems := loopLen
          maxSize := newSize.toNat }

section Loop

variable {ea : List (LoggingEventPtr Event)} {numElems first left : Nat}

/-- These are the events that the loop copies. -/
def copies (numElems : Nat) : Nat → List (LoggingEventPtr Event) → Nat →
    Except Fault (List (LoggingEventPtr Event))
  | 0, _, _ => .ok []
  | left + 1, ea, first =>
      match ea[first]? with
      | some event => (copies numElems left (ea.set first none) (following numElems first)).map
          fun copied => event :: copied
      | none => .error .outOfBounds

theorem copies_succ (inside : first < ea.length) :
    copies numElems (left + 1) ea first =
      (copies numElems left (ea.set first none) (following numElems first)).map
        fun copied => ea[first] :: copied := by
  rw [copies, List.getElem?_eq_getElem inside]

/-- The loop fills the new array from its start on. -/
theorem resizeLoop_eq (done : List (LoggingEventPtr Event)) (spare : Nat) :
    resizeLoop numElems left done.length (done ++ List.replicate (left + spare) none) ea first =
      (copies numElems left ea first).map
        fun copied => done ++ copied ++ List.replicate spare none := by
  induction left generalizing done ea first with
  | zero =>
      rw [resizeLoop, copies, Nat.zero_add]
      change _ = Except.ok (done ++ [] ++ List.replicate spare none)
      rw [List.append_nil]
  | succ left ih =>
      cases found : ea[first]? with
      | none =>
          rw [resizeLoop, copies, found]
          rfl
      | some event =>
          have next := @ih (ea.set first none) (following numElems first) (done ++ [event])
          rw [resizeLoop, copies, found]
          dsimp only
          rw [List.set_append_right _ _ (le_refl _), Nat.sub_self,
            show left + 1 + spare = left + spare + 1 by omega, List.replicate_succ,
            List.set_cons_zero, ← List.singleton_append, ← List.append_assoc,
            ← List.length_singleton (a := event), ← List.length_append, next]
          cases copies numElems left (ea.set first none) (following numElems first) with
          | error _ => rfl
          | ok copied =>
              simp only [Except.map, List.append_assoc, List.cons_append, List.nil_append]

/-- The events are copied as they stand while the index does not go around. -/
theorem copies_straight (inside : first + left ≤ ea.length)
    (straight : first + left ≤ numElems ∨ numElems ≤ first) :
    copies numElems left ea first = .ok ((ea.drop first).take left) := by
  induction left generalizing ea first with
  | zero => rfl
  | succ left ih =>
      rw [copies_succ (by omega), List.drop_eq_getElem_cons (by omega), List.take_succ_cons]
      cases left with
      | zero => rfl
      | succ left =>
          have moves : following numElems first = first + 1 := by
            rw [following, if_neg (by omega)]
          rw [moves, ih (by rw [List.length_set]; omega) (by omega), List.drop_set_of_lt (by omega)]
          rfl

/-- The index goes around at the number of the events. -/
theorem copies_around {more : Nat} (positive : 0 < left) (around : first + left = numElems)
    (inside : numElems ≤ ea.length) (once : more ≤ first) :
    copies numElems (left + more) ea first =
      .ok ((ea.drop first).take left ++ ea.take more) := by
  induction left generalizing ea first with
  | zero => exact absurd positive (Nat.lt_irrefl 0)
  | succ left ih =>
      rw [show left + 1 + more = left + more + 1 by omega, copies_succ (by omega),
        List.drop_eq_getElem_cons (by omega), List.take_succ_cons, List.cons_append]
      cases left with
      | zero =>
          have back : following numElems first = 0 := by
            rw [following, if_pos (by omega)]
          rw [back, Nat.zero_add,
            copies_straight (by rw [List.length_set]; omega) (by omega), List.drop_zero,
            List.take_set_of_le once]
          rfl
      | succ left =>
          have moves : following numElems first = first + 1 := by
            rw [following, if_neg (by omega)]
          rw [moves, ih (by omega) (by omega) (by rw [List.length_set]; omega) (by omega),
            List.drop_set_of_lt (by omega), List.take_set_of_le once]
          rfl

/-- An index beyond the number of the events runs over the end of the array. -/
theorem copies_overrun (beyond : numElems ≤ first) (inside : first ≤ ea.length)
    (overrun : ea.length < first + left) :
    copies numElems left ea first = .error .outOfBounds := by
  induction left generalizing ea first with
  | zero => omega
  | succ left ih =>
      by_cases last : first = ea.length
      · rw [copies, List.getElem?_eq_none (by omega)]
      · have moves : following numElems first = first + 1 := by
          rw [following, if_neg (by omega)]
        rw [copies_succ (by omega), moves, ih (by omega) (by rw [List.length_set]; omega)
          (by rw [List.length_set]; omega)]
        rfl

end Loop

/-- The smaller number of events is copied. -/
def loopLen (self : CyclicBuffer Event) (newSize : Nat) : Nat := min newSize self.numElems

/-- The copied events stand in one piece unless the buffer is full, and a buffer with as many
events as its new size is full. -/
def Resizable (self : CyclicBuffer Event) (newSize : Nat) : Prop :=
  (newSize = self.numElems → self.numElems = self.maxSize) ∧
    (self.numElems = self.maxSize ∨ self.first + self.loopLen newSize ≤ self.numElems ∨
      self.numElems ≤ self.first ∧ self.first + self.loopLen newSize ≤ self.maxSize)

instance (self : CyclicBuffer Event) (newSize : Nat) : Decidable (self.Resizable newSize) :=
  inferInstanceAs (Decidable (_ ∧ _))

section Resize

variable {self : CyclicBuffer Event} {queue : BoundedQueue (LoggingEventPtr Event)}
  {newSize : Nat}

theorem resize_eq (other : newSize ≠ self.numElems) :
    self.resize newSize = (copies self.numElems (self.loopLen newSize) self.ea self.first).map
      fun copied =>
        { ea := copied ++ List.replicate (newSize - self.loopLen newSize) none
          first := 0
          last := if self.loopLen newSize = newSize then 0 else self.loopLen newSize
          numElems := self.loopLen newSize
          maxSize := newSize } := by
  have length : (if (newSize : Int) < self.numElems then (newSize : Int).toNat
      else self.numElems) = self.loopLen newSize := by
    rw [loopLen]
    split_ifs <;> omega
  have filled := @resizeLoop_eq Event self.ea self.numElems self.first (self.loopLen newSize) []
    (newSize - self.loopLen newSize)
  rw [Nat.add_sub_cancel' (show self.loopLen newSize ≤ newSize from Nat.min_le_left ..)] at filled
  rw [resize, if_neg (by omega), if_neg (by omega), length]
  dsimp only
  rw [Int.toNat_natCast]
  change (resizeLoop _ _ 0 (List.replicate newSize none) _ _).map _ = _
  rw [show resizeLoop self.numElems (self.loopLen newSize) 0 (List.replicate newSize none)
    self.ea self.first = _ from filled]
  cases copies self.numElems (self.loopLen newSize) self.ea self.first with
  | error _ => rfl
  | ok copied => simp only [Except.map, List.nil_append, Nat.cast_inj]

/-- The new array begins with the events from the first index on. -/
theorem Represents.copies (represents : self.Represents queue)
    (straight : self.numElems = self.maxSize ∨
      self.first + self.loopLen newSize ≤ self.numElems ∨
        self.numElems ≤ self.first ∧ self.first + self.loopLen newSize ≤ self.maxSize) :
    copies self.numElems (self.loopLen newSize) self.ea self.first =
      .ok (queue.contents.take newSize) := by
  have size := represents.ea_length
  have fits := represents.numElems_le
  have first := represents.first
  have some : self.loopLen newSize ≤ self.numElems := Nat.min_le_right newSize self.numElems
  have oldest : (self.ea.rotate self.first).take (self.loopLen newSize) =
      queue.contents.take newSize := by
    rw [represents.ea, List.take_append_of_le_length (by rwa [← represents.numElems]), loopLen,
      represents.numElems]
    exact (List.take_eq_take_min ..).symm
  rw [← oldest, List.rotate_eq_drop_append_take (by omega)]
  by_cases inside : self.first + self.loopLen newSize ≤ self.ea.length ∧
      (self.first + self.loopLen newSize ≤ self.numElems ∨ self.numElems ≤ self.first)
  · rw [copies_straight inside.1 inside.2,
      List.take_append_of_le_length (by rw [List.length_drop]; omega)]
  · -- The ring of the loop is the whole array here.
    have full : self.numElems = self.ea.length := by omega
    obtain ⟨more, split⟩ := Nat.exists_eq_add_of_le
      (show self.ea.length - self.first ≤ self.loopLen newSize by omega)
    have whole : ∀ count, self.ea.length - self.first ≤ count →
        (self.ea.drop self.first).take count = self.ea.drop self.first := fun count enough =>
      List.take_of_length_le (by rwa [List.length_drop])
    rw [split, copies_around (by omega) (by omega) (by omega) (by omega),
      List.take_append, List.length_drop, Nat.add_sub_cancel_left, List.take_take,
      Nat.min_eq_left (by omega), whole _ (le_refl _), whole _ (by omega)]

/-- The resized buffer represents the resized queue. -/
theorem Represents.resize (represents : self.Represents queue) (positive : 0 < newSize)
    (resizable : self.Resizable newSize) :
    ∃ after, self.resize newSize = .ok after ∧
      after.Represents (queue.resize newSize positive) := by
  obtain ⟨full, straight⟩ := resizable
  by_cases same : newSize = self.numElems
  · refine ⟨self, by rw [CyclicBuffer.resize, if_neg (by omega), if_pos (by omega)], ?_⟩
    have contents : queue.contents.take newSize = queue.contents :=
      List.take_of_length_le (by rw [← represents.numElems, same])
    have capacity : self.maxSize = newSize := by rw [same, full same]
    refine ⟨capacity, represents.first, ?_, represents.last, ?_⟩
    · rw [BoundedQueue.resize_contents, contents, represents.numElems]
    · rw [BoundedQueue.resize_contents, contents, represents.ea]
  · refine ⟨_, by rw [resize_eq same, represents.copies straight]; rfl, ?_⟩
    have length : (queue.contents.take newSize).length = self.loopLen newSize := by
      rw [List.length_take, loopLen, represents.numElems]
    refine ⟨rfl, positive, length.symm, ?_, ?_⟩
    · have bound : self.loopLen newSize ≤ newSize := Nat.min_le_left newSize self.numElems
      change (if self.loopLen newSize = newSize then 0 else self.loopLen newSize) =
        (0 + self.loopLen newSize) % newSize
      rw [Nat.zero_add]
      split
      · rename_i all
        rw [all, Nat.mod_self]
      · rw [Nat.mod_eq_of_lt (by omega)]
    · exact List.rotate_zero _

/-- The buffer behaves like this queue from now on, as long as no index overflows. -/
def Behaves (self : CyclicBuffer Event) (queue : BoundedQueue (LoggingEventPtr Event)) : Prop :=
  ∀ operations, self.machine.Along NoOverflow operations →
    ∃ next after trace, self.machine.run operations = some (next, trace) ∧
      (queueMachine queue).run operations = some (after, trace)

/-- The buffer gets its new capacity and behaves like the resized queue. -/
def Resizes (self : CyclicBuffer Event) (newSize : Nat)
    (queue : BoundedQueue (LoggingEventPtr Event)) : Prop :=
  ∃ after : CyclicBuffer Event, self.resize newSize = .ok after ∧ after.getMaxSize = newSize ∧
    after.Behaves queue

theorem Represents.behaves (represents : self.Represents queue) : self.Behaves queue := by
  intro operations noOverflow
  obtain ⟨next, after, trace, ran, followed, _⟩ := represents.run noOverflow
  exact ⟨next, after, trace, ran, followed⟩

/-- Such a buffer has the events of the queue. -/
theorem Behaves.get (behaves : self.Behaves queue) {i : Nat}
    (noOverflow : self.NoOverflow (.get i)) : self.get i = .ok queue.contents[i]?.join := by
  obtain ⟨next, after, trace, ran, followed⟩ := behaves [.get i] (Machine.along_single noOverflow)
  rw [Machine.run_singleton] at ran followed
  obtain ⟨rfl, rfl⟩ := Prod.mk.inj (Option.some.inj followed)
  change ((self.get i).map _).toOption = _ at ran
  cases got : self.get i with
  | error fault =>
      rw [got] at ran
      exact absurd ran.symm (Option.some_ne_none _)
  | ok event =>
      rw [got] at ran
      have shown := (Prod.mk.inj (Option.some.inj ran)).2
      rw [Response.event.inj (List.cons.inj shown).1, if_neg (by omega), Int.toNat_natCast]
      rfl

/-- The loop goes around before it has copied everything, and copies the first place of the
array too early. -/
theorem Represents.resize_around (represents : self.Represents queue)
    (range : self.maxSize ≤ INT_MAX) (other : newSize ≠ self.numElems)
    (below : self.first < self.numElems)
    (far : self.numElems < self.first + self.loopLen newSize) :
    ∃ after event, self.resize newSize = .ok after ∧ self.ea[0]? = some event ∧
      after.NoOverflow (.get (self.numElems - self.first : Nat)) ∧
      after.get (self.numElems - self.first : Nat) = .ok event := by
  have size := represents.ea_length
  have fits := represents.numElems_le
  have some : self.loopLen newSize ≤ self.numElems := Nat.min_le_right newSize self.numElems
  have bound : self.loopLen newSize ≤ newSize := Nat.min_le_left newSize self.numElems
  obtain ⟨more, split⟩ := Nat.exists_eq_add_of_le
    (show self.numElems - self.first + 1 ≤ self.loopLen newSize by omega)
  have copied := @copies_around Event self.ea self.numElems self.first
    (self.numElems - self.first) (more + 1) (by omega) (Nat.add_sub_cancel' below.le) (by omega)
    (by omega)
  rw [← Nat.add_assoc, Nat.add_right_comm, ← split] at copied
  have resized := resize_eq other
  rw [copied] at resized
  have inside : 0 < self.ea.length := by omega
  refine ⟨_, self.ea[0], resized, List.getElem?_eq_getElem inside, fun _ _ => ?_, ?_⟩
  · change ((0 : Nat) : Int) + ((self.numElems - self.first : Nat) : Int) ≤ INT_MAX
    omega
  · have place : ((((0 : Nat) : Int) + ((self.numElems - self.first : Nat) : Int)) %
        ((newSize : Nat) : Int)).toNat = self.numElems - self.first := by
      rw [← Nat.cast_add, ← Int.natCast_emod, Int.toNat_natCast, Nat.zero_add,
        Nat.mod_eq_of_lt (by omega)]
    have length : ((self.ea.drop self.first).take (self.numElems - self.first)).length =
        self.numElems - self.first := by
      rw [List.length_take, List.length_drop]
      omega
    rw [CyclicBuffer.get]
    dsimp only
    rw [if_neg (by omega), if_neg (by omega), place, List.append_assoc,
      List.getElem?_append_right length.le, length, Nat.sub_self,
      List.getElem?_append_left (by rw [List.length_take]; omega),
      List.getElem?_take_of_lt (Nat.succ_pos more), List.getElem?_eq_getElem inside]

/-- This event stands in the first place of the array, which may be free. -/
theorem Represents.first_place (represents : self.Represents queue) (moved : 0 < self.first)
    {event : LoggingEventPtr Event} (found : self.ea[0]? = some event) :
    queue.contents[self.maxSize - self.first]?.join = event := by
  have size := represents.ea_length
  have first := represents.first
  have rotated := @List.getElem?_rotate _ self.ea self.first (self.maxSize - self.first) (by omega)
  rw [Nat.sub_add_cancel first.le, size, Nat.mod_self, found, represents.ea] at rotated
  by_cases inside : self.maxSize - self.first < queue.contents.length
  · rw [List.getElem?_append_left inside] at rotated
    rw [rotated]
    rfl
  · rw [List.getElem?_append_right (by omega)] at rotated
    rw [List.getElem?_eq_none (by omega)]
    exact (List.eq_of_mem_replicate (List.mem_of_getElem? rotated)).symm

/-- With different events the loop copies the right ones only in these cases. -/
theorem Represents.resizable (represents : self.Represents queue)
    (range : self.maxSize ≤ INT_MAX) (distinct : queue.contents.Nodup)
    (events : none ∉ queue.contents) (positive : 0 < newSize)
    (resizes : self.Resizes newSize (queue.resize newSize positive)) :
    self.Resizable newSize := by
  obtain ⟨after, resized, capacity, behaves⟩ := resizes
  have fits := represents.numElems_le
  have size := represents.ea_length
  have first := represents.first
  have full : newSize = self.numElems → self.numElems = self.maxSize := by
    intro same
    rw [CyclicBuffer.resize, if_neg (by omega), if_pos (by omega)] at resized
    obtain rfl := Except.ok.inj resized
    rw [← same]
    exact capacity.symm
  refine ⟨full, ?_⟩
  by_contra wrong
  have other : newSize ≠ self.numElems := fun same => wrong (Or.inl (full same))
  by_cases below : self.first < self.numElems
  · obtain ⟨again, event, resizedAgain, found, noOverflow, got⟩ :=
      represents.resize_around range other below (by omega)
    obtain rfl := Except.ok.inj (resizedAgain.symm.trans resized)
    have same := Except.ok.inj (got.symm.trans (behaves.get noOverflow))
    have some : self.loopLen newSize ≤ self.numElems := Nat.min_le_right newSize self.numElems
    have bound : self.loopLen newSize ≤ newSize := Nat.min_le_left newSize self.numElems
    have length := represents.numElems
    have inside : self.numElems - self.first < queue.contents.length := by omega
    have place := represents.first_place (by omega) found
    rw [BoundedQueue.resize_contents, List.getElem?_take_of_lt (by omega), ← place,
      List.getElem?_eq_getElem inside, Option.join_some] at same
    by_cases wrapped : self.maxSize - self.first < queue.contents.length
    · rw [List.getElem?_eq_getElem wrapped, Option.join_some] at same
      have indices := (distinct.getElem_inj_iff).mp same
      omega
    · rw [List.getElem?_eq_none (by omega), Option.join_none] at same
      exact events (same ▸ List.getElem_mem inside)
  · have overrun := @copies_overrun Event self.ea self.numElems self.first
      (self.loopLen newSize) (by omega) (by omega) (by omega)
    rw [resize_eq other, overrun] at resized
    exact absurd resized (by simp [Except.map])

end Resize

/-- After every run of a fresh buffer the new size is right when the copied events stand in one
piece or the buffer is full, and with different events only then. -/
theorem resizes_iff {maxSize : Int} (positive : 1 ≤ maxSize) (range : maxSize ≤ INT_MAX)
    {fresh self : CyclicBuffer Event} (created : create maxSize = .ok fresh)
    {operations : List (Operation Event)} {trace : List (Response Event)}
    (ran : fresh.machine.run operations = some (self, trace)) {newSize : Nat}
    (newPositive : 0 < newSize) :
    ∃ queue, (queueMachine (.empty maxSize.toNat (by omega))).run operations =
        some (queue, trace) ∧
      (self.Resizable newSize → self.Resizes newSize (queue.resize newSize newPositive)) ∧
      (queue.contents.Nodup → none ∉ queue.contents →
        (self.Resizes newSize (queue.resize newSize newPositive) ↔ self.Resizable newSize)) := by
  obtain ⟨buffer, made, represents⟩ := @create_represents Event maxSize positive
  obtain rfl := Except.ok.inj (made.symm.trans created)
  obtain ⟨next, queue, seen, again, followed, kept, capacity⟩ :=
    represents.run (Machine.along_of_run noOverflow_of_step ran)
  obtain ⟨rfl, rfl⟩ := Prod.mk.inj (Option.some.inj (again.symm.trans ran))
  have bound : next.maxSize ≤ INT_MAX := by
    rw [kept.maxSize, capacity]
    change maxSize.toNat ≤ INT_MAX
    omega
  have resizes : next.Resizable newSize →
      next.Resizes newSize (queue.resize newSize newPositive) := by
    intro resizable
    obtain ⟨after, resized, onward⟩ := kept.resize newPositive resizable
    exact ⟨after, resized, onward.maxSize, onward.behaves⟩
  exact ⟨queue, followed, resizes, fun distinct events =>
    ⟨kept.resizable bound distinct events newPositive, resizes⟩⟩

/-- A full buffer that has wrapped around may grow. -/
theorem resizes_iff_grows :
    ∃ queue, (queueMachine (.empty 2 (by decide))).run
        [.add (some 1), .add (some 2), .add (some 3)] = some (queue, []) ∧
      ((CyclicBuffer.mk [some 3, some 2] 1 1 2 2).Resizable 5 →
        (CyclicBuffer.mk [some 3, some 2] 1 1 2 2).Resizes 5 (queue.resize 5 (by decide))) ∧
      (queue.contents.Nodup → none ∉ queue.contents →
        ((CyclicBuffer.mk [some 3, some 2] 1 1 2 2).Resizes 5 (queue.resize 5 (by decide)) ↔
          (CyclicBuffer.mk [some 3, some 2] 1 1 2 2).Resizable 5)) :=
  resizes_iff (show (1 : Int) ≤ 2 by decide) (by decide) rfl rfl (by decide)

/-- Growing from four to five places loses the last of three events. -/
theorem resize_loses :
    ∃ (fresh self : CyclicBuffer Nat) (queue : BoundedQueue (Option Nat))
      (trace : List (Response Nat)),
      create 4 = .ok fresh ∧
        fresh.machine.run
          [.add (some 1), .add (some 2), .add (some 3), .add (some 4), .getOldest] =
            some (self, trace) ∧
        (queueMachine (.empty 4 (by decide))).run
          [.add (some 1), .add (some 2), .add (some 3), .add (some 4), .getOldest] =
            some (queue, trace) ∧
        queue.contents = [some 2, some 3, some 4] ∧
        self.resize 5 = .ok (CyclicBuffer.mk [some 2, some 3, none, none, none] 0 3 3 5) ∧
        ¬ self.Resizes 5 (queue.resize 5 (by decide)) := by
  refine ⟨_, _, _, _, rfl, rfl, rfl, rfl, rfl, fun resizes => ?_⟩
  obtain ⟨after, resized, _, behaves⟩ := resizes
  obtain rfl := Except.ok.inj resized
  have third := @Behaves.get _ _ _ behaves 2 (by intro _ _; decide)
  exact absurd (Except.ok.inj third) (by decide)

end CodeCollect.Log4cxx.CyclicBuffer
