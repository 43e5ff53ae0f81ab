import CodeCollect.Log4cxx.HierarchyTree

namespace CodeCollect.Log4cxx.Hierarchy

open CodeCollect.Library

variable {self : Hierarchy} {name : LogString}

/-- The loop of `updateParents` ends within so many rounds. -/
def UpdatesWithin (self : Hierarchy) (name : LogString) (rounds : Nat) : Prop :=
  (updateParentsFrom name rounds self (lastDotBelow name name.length)).isSome

instance (self : Hierarchy) (name : LogString) (rounds : Nat) :
    Decidable (self.UpdatesWithin name rounds) :=
  inferInstanceAs (Decidable (_ = true))

/-- The dot that the scan finds is the only one that it passes. -/
theorem count_lastDotBelow {bound i : Nat} (found : lastDotBelow name bound = some i) :
    (name.take bound).count '.' = (name.take i).count '.' + 1 := by
  induction bound with
  | zero => exact absurd found (by simp [lastDotBelow])
  | succ bound ih =>
      rw [lastDotBelow] at found
      split at found
      · rename_i dot
        obtain rfl := Option.some.inj found
        rw [List.take_add_one, dot, List.count_append]
        rfl
      · rename_i other
        rw [← ih found, List.take_add_one, List.count_append]
        cases next : name[bound]? with
        | none => rfl
        | some c =>
            have different : c ≠ '.' := by
              rintro rfl
              exact other next
            rw [Option.toList_some, List.count_singleton, if_neg (by simpa using different),
              Nat.add_zero]

/-- The loop ends with one round for each dot below the bound. -/
theorem updateParentsFrom_isSome {bound fuel : Nat} (enough : (name.take bound).count '.' ≤ fuel)
    (leads : name[0]? = some '.' →
      ∃ above ∈ self.loggers, Above '.' above name ∧ above.length < bound) :
    (updateParentsFrom name fuel self (lastDotBelow name bound)).isSome := by
  induction bound using Nat.strong_induction_on generalizing fuel self with
  | _ bound ih =>
      cases found : lastDotBelow name bound with
      | none => cases fuel <;> rfl
      | some i =>
          obtain ⟨inside, dot, last⟩ := lastDotBelow_some name bound i found
          rw [count_lastDotBelow found] at enough
          cases fuel with
          | zero => omega
          | succ fuel =>
              rw [updateParentsFrom]
              split
              · rfl
              · rename_i absent
                -- A logger above the name is found before the scan passes it.
                have next : name[0]? = some '.' →
                    ∃ above ∈ self.loggers, Above '.' above name ∧ above.length < i := by
                  intro first
                  obtain ⟨above, member, isAbove, below⟩ := leads first
                  obtain ⟨isPrefix, after⟩ := Above.iff_getElem?.mp isAbove
                  have different : above.length ≠ i := by
                    rintro rfl
                    rw [← List.prefix_iff_eq_take.mp isPrefix] at absent
                    exact absent member
                  have reached : ¬ i < above.length := fun beyond =>
                    last above.length beyond below after
                  exact ⟨above, member, isAbove, by omega⟩
                have positive : i ≠ 0 := by
                  rintro rfl
                  obtain ⟨_, _, _, below⟩ := next dot
                  exact absurd below (Nat.not_lt_zero _)
                rw [nextDot, if_neg positive]
                exact ih i inside (by omega) next

/-- The loop goes round and round when it comes to a dot at the start of the name. -/
theorem updateParentsFrom_eq_none (first : name[0]? = some '.')
    (alone : ∀ above ∈ self.loggers, ¬ Above '.' above name) {bound : Nat} (positive : 0 < bound)
    (fuel : Nat) : updateParentsFrom name fuel self (lastDotBelow name bound) = none := by
  induction fuel generalizing self bound with
  | zero =>
      cases found : lastDotBelow name bound with
      | none => exact absurd first (lastDotBelow_none name bound found 0 positive)
      | some _ => rfl
  | succ fuel ih =>
      cases found : lastDotBelow name bound with
      | none => exact absurd first (lastDotBelow_none name bound found 0 positive)
      | some i =>
          obtain ⟨_, dot, _⟩ := lastDotBelow_some name bound i found
          have absent : name.take i ∉ self.loggers := fun member =>
            alone _ member (above_take name i dot).1
          have nonempty : 0 < name.length := (List.getElem?_eq_some_iff.mp first).1
          have kept : ∀ above ∈ (self.addProvision (name.take i) name).loggers,
              ¬ Above '.' above name := alone
          rw [updateParentsFrom, if_neg absent, nextDot]
          split
          · exact ih kept nonempty
          · rename_i moves
            exact ih kept (Nat.pos_of_ne_zero moves)

/-- The loop ends with enough rounds when it does not come to a first dot in vain. -/
theorem updatesWithin_of_leads {rounds : Nat} (enough : name.count '.' ≤ rounds)
    (leads : name[0]? = some '.' → ∃ above ∈ self.loggers, Above '.' above name) :
    self.UpdatesWithin name rounds := by
  apply updateParentsFrom_isSome
  · rwa [List.take_length]
  · intro first
    obtain ⟨above, member, isAbove⟩ := leads first
    exact ⟨above, member, isAbove, isAbove.length_lt⟩

theorem UpdatesWithin.leads {rounds : Nat} (within : self.UpdatesWithin name rounds)
    (first : name[0]? = some '.') : ∃ above ∈ self.loggers, Above '.' above name := by
  by_contra alone
  push Not at alone
  have nonempty : 0 < name.length := (List.getElem?_eq_some_iff.mp first).1
  rw [UpdatesWithin, updateParentsFrom_eq_none first alone nonempty] at within
  exact absurd within (by simp)

/-- The rounds that the model allows are enough for every loop that ends. -/
theorem updateParents_isSome_iff (self : Hierarchy) (name : LogString) :
    (self.updateParents name).isSome ↔ ∃ rounds, self.UpdatesWithin name rounds := by
  constructor
  · intro some
    exact ⟨name.length, some⟩
  · intro within
    obtain ⟨rounds, within⟩ := within
    exact updatesWithin_of_leads List.count_le_length within.leads

/-- One round for each dot is enough exactly when the name does not begin with a dot or there is
a logger above it, and otherwise no number of rounds is. -/
theorem updatesWithin_iff (self : Hierarchy) (name : LogString) :
    (self.UpdatesWithin name (name.count '.') ↔
      (name[0]? = some '.' → ∃ above ∈ self.loggers, Above '.' above name)) ∧
      ((∃ rounds, self.UpdatesWithin name rounds) ↔
        (name[0]? = some '.' → ∃ above ∈ self.loggers, Above '.' above name)) := by
  have ends := @updatesWithin_of_leads self name (name.count '.') (le_refl _)
  refine ⟨⟨UpdatesWithin.leads, ends⟩, ?_, fun leads => ⟨_, ends leads⟩⟩
  intro within
  obtain ⟨_, within⟩ := within
  exact within.leads

/-- The lookup of the name "." never comes back. -/
theorem dot_never_updates : ¬ create.UpdatesWithin ['.'] (['.'].count '.') ∧
    ∀ rounds, ¬ create.UpdatesWithin ['.'] rounds := by
  have never : ∀ rounds, ¬ create.UpdatesWithin ['.'] rounds := by
    intro rounds within
    have alone : ∀ above ∈ create.loggers, ¬ Above '.' above ['.'] := fun above member =>
      absurd member Std.ExtTreeMap.not_mem_empty
    rw [UpdatesWithin, updateParentsFrom_eq_none rfl alone (by decide)] at within
    exact absurd within (by simp)
  exact ⟨never _, never⟩

end CodeCollect.Log4cxx.Hierarchy
