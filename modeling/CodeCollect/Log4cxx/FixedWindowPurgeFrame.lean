import CodeCollect.Log4cxx.FixedWindowPurgeSafety

namespace CodeCollect.Log4cxx.FixedWindowRollingPolicy

open CodeCollect.Library

variable {Content : Type} {pattern : FileNamePattern} {suffixLength : Nat}
  {fails : FileOperation → Bool} {indices : Set Int} {low : Int} {remaining : Nat}
  {files left : Files Content} {renames : Option (List FileRenameAction)} {count : Nat}

/-- The made renames are those of the highest indices of the run. -/
theorem mem_made_iff {made rest : List FileRenameAction}
    (split : (renamesFrom pattern suffixLength files low count).reverse = made ++ rest)
    (rename : FileRenameAction) :
    rename ∈ made ↔ ∃ k : Nat, rest.length ≤ k ∧ k < count ∧
      rename = ⟨standing pattern suffixLength files (low + k),
        shifted pattern suffixLength files (low + k)⟩ := by
  have dropped : (renamesFrom pattern suffixLength files low count).drop rest.length =
      made.reverse := by
    rw [← List.reverse_reverse (renamesFrom pattern suffixLength files low count), split,
      List.reverse_append, List.drop_left' (by simp)]
  rw [← List.mem_reverse, ← dropped, List.mem_iff_getElem?]
  simp only [List.getElem?_drop, renamesFrom, List.getElem?_map, Option.map_eq_some_iff]
  constructor
  · rintro ⟨i, k, found, rfl⟩
    obtain ⟨small, rfl⟩ := List.getElem?_eq_some_iff.mp found
    simp only [List.length_range] at small
    exact ⟨rest.length + i, by omega, small, by simp⟩
  · rintro ⟨k, above, small, rfl⟩
    exact ⟨k - rest.length, k, by simp [Nat.add_sub_cancel' above, small], rfl⟩

namespace Collected

/-- A purge leaves all files outside of the window alone. -/
theorem frame
    (collected : Collected pattern suffixLength fails files low remaining left renames count)
    (name : LogString)
    (away : ∀ k : Nat, k ≤ remaining → ¬ OfIndex pattern suffixLength (low + k) name) :
    (execute fails left renames).store name = files name := by
  have bound := collected.bound
  have same : left name = files name := by
    rcases collected.kept name with same | ⟨_, ⟨k, small, _, base, _⟩ | ⟨_, _, top⟩⟩
    · exact same
    · exact absurd (Or.inr base) (away k (by omega))
    · refine absurd ?_ (away remaining (Nat.le_refl _))
      rw [top]
      exact standing_ofIndex files _
  cases renames with
  | none => exact same
  | some list =>
      rw [collected.list_eq, execute, Store.moveAll_frame, same]
      intro rename member
      rw [List.mem_reverse, mem_renamesFrom] at member
      obtain ⟨k, small, rfl⟩ := member
      constructor
      · rintro rfl
        exact away k (by omega) (standing_ofIndex files _)
      · rintro rfl
        exact away (k + 1) (by omega) (shifted_next k)

/-- A purge gives no name a content unless it shifts a file to it. -/
theorem unwritten
    (collected : Collected pattern suffixLength fails files low remaining left renames count)
    (name : LogString)
    (away : ∀ k : Nat, k < count → name ≠ shifted pattern suffixLength files (low + k)) :
    (execute fails left renames).store name = files name ∨
      (execute fails left renames).store name = none := by
  have before := (collected.kept name).imp id And.left
  cases renames with
  | none => exact before
  | some list =>
      rw [collected.list_eq, execute]
      rcases Store.moveAll_unwritten (FileRenameAction.fails fails)
        (renamesFrom pattern suffixLength files low count).reverse left name (by
          intro rename member
          rw [List.mem_reverse, mem_renamesFrom] at member
          obtain ⟨k, small, rfl⟩ := member
          exact away k small) with same | gone
      · rw [same]
        exact before
      · exact Or.inr gone

end Collected

/-- A content that is still in place stands there as before if no compressed file has come. -/
theorem standing_eq_of_found {after : Files Content} {i : Int} {stored : Content}
    (found : after (standing pattern suffixLength files i) = some stored)
    (uncovered : files (pattern.formatFileName i) = none →
      after (pattern.formatFileName i) = none) :
    standing pattern suffixLength after i = standing pattern suffixLength files i := by
  by_cases base : 0 < suffixLength ∧ files (pattern.formatFileName i) = none
  · rw [standing, standing, if_pos base, if_pos ⟨base.1, uncovered base.2⟩]
  · rw [standing, if_neg base] at found
    rw [standing, standing, if_neg base, if_neg]
    rintro ⟨_, missing⟩
    exact Option.some_ne_none _ (found.symm.trans missing)

/-- A content of the window stands somewhere after a purge, above the lowest index when done. -/
def Stands (pattern : FileNamePattern) (suffixLength : Nat) (low : Int) (remaining : Nat)
    (after : Moved LogString Content) (stored : Content) : Prop :=
  ∃ j : Nat, j ≤ remaining ∧ after.store (standing pattern suffixLength after.store (low + j)) =
    some stored ∧ (after.done = true → 0 < j)

namespace Collected

/-- The loop gives no name a content. -/
theorem left_none
    (collected : Collected pattern suffixLength fails files low remaining left renames count)
    {name : LogString} (missing : files name = none) : left name = none :=
  (collected.kept name).elim (fun same => same.trans missing) And.left

/-- Renames are made only when no compressed file is left behind the run. -/
theorem left_end {list : List FileRenameAction}
    (collected : Collected pattern suffixLength fails files low remaining left (some list) count) :
    left (pattern.formatFileName (low + count)) = none := by
  rcases collected.stops with ⟨free, _⟩ | ⟨rfl, occupied, same⟩
  · apply collected.left_none
    by_contra found
    exact free (occupied_of_found files _ _ (Or.inl rfl) found)
  · have works : fails (.deleteFile (standing pattern suffixLength files (low + count))) =
        false := by
      by_contra failed
      rw [if_pos (by simpa using failed)] at same
      exact absurd same (by simp)
    have gone := collected.deleted rfl occupied works
    rw [standing] at gone
    split at gone
    · rename_i base
      exact collected.left_none base.2
    · exact gone

/-- Files behind the run stay where they are. -/
theorem stands_beyond
    (collected : Collected pattern suffixLength fails files low remaining left renames count)
    (distinct : DistinctNames pattern suffixLength indices)
    (inside : ∀ k : Nat, k ≤ remaining → low + k ∈ indices) {k : Nat} (bound : k ≤ remaining)
    (beyond : count < k) {stored : Content}
    (found : files (standing pattern suffixLength files (low + k)) = some stored) :
    Stands pattern suffixLength low remaining (execute fails left renames) stored := by
  have same : ∀ name, OfIndex pattern suffixLength (low + k) name →
      (execute fails left renames).store name = files name := by
    intro name ofK
    have unmoved : left name = files name := by
      rcases collected.kept name with same | ⟨_, ⟨j, small, _, base, _⟩ | ⟨all, _, _⟩⟩
      · exact same
      · exact absurd base (ofIndex_ne distinct inside bound (by omega) (by omega) ofK (Or.inr rfl))
      · omega
    cases renames with
    | none => exact unmoved
    | some list =>
        rw [collected.list_eq, execute, Store.moveAll_frame, unmoved]
        intro rename member
        rw [List.mem_reverse, mem_renamesFrom] at member
        obtain ⟨j, small, rfl⟩ := member
        exact ⟨ofIndex_ne distinct inside bound (by omega) (by omega) ofK (standing_ofIndex files _),
          ofIndex_ne distinct inside bound (by omega) (by omega) ofK (shifted_next j)⟩
  refine ⟨k, bound, ?_, fun _ => by omega⟩
  rw [(standing_congr same).1, same _ (standing_ofIndex files _), found]

/-- Without renames a file that the loop leaves alone stays where it is. -/
theorem stands_unmoved
    (collected : Collected pattern suffixLength fails files low remaining left none count)
    {k : Nat} (bound : k ≤ remaining) {stored : Content}
    (found : left (standing pattern suffixLength files (low + k)) = some stored) :
    Stands pattern suffixLength low remaining (execute fails left none) stored := by
  refine ⟨k, bound, ?_, fun impossible => absurd impossible (by simp [execute])⟩
  show left (standing pattern suffixLength left (low + k)) = some stored
  rw [standing_eq_of_found found fun missing => collected.left_none missing]
  exact found

/-- A made rename takes its file to the next index, where no compressed file hides it. -/
theorem stands_made {list made rest : List FileRenameAction}
    (collected : Collected pattern suffixLength fails files low remaining left (some list) count)
    (distinct : DistinctNames pattern suffixLength indices)
    (inside : ∀ k : Nat, k ≤ remaining → low + k ∈ indices)
    (split : (renamesFrom pattern suffixLength files low count).reverse = made ++ rest)
    (done : (Store.moveAll (FileRenameAction.fails fails) made left).done = true)
    (same : (execute fails left (some list)).store =
      (Store.moveAll (FileRenameAction.fails fails) made left).store)
    {k : Nat} (small : k < count) (reached : rest.length ≤ k) {stored : Content}
    (found : files (standing pattern suffixLength files (low + k)) = some stored) :
    Stands pattern suffixLength low remaining (execute fails left (some list)) stored := by
  have bound := collected.bound
  have member := mem_made_iff split
  have apart : Library.Apart made := by
    have all := renamesFrom_apart files distinct inside bound
    rw [split] at all
    exact ⟨fun next inMade => all.1 next (List.mem_append_left _ inMade),
      (List.pairwise_append.mp all.2).1⟩
  have arrived : (execute fails left (some list)).store
      (shifted pattern suffixLength files (low + k)) = some stored := by
    rw [same, ← found, ← collected.left_standing distinct inside k small]
    exact Store.moveAll_target made left apart done
      ⟨standing pattern suffixLength files (low + k), shifted pattern suffixLength files (low + k)⟩
      ((member _).mpr ⟨k, reached, small, rfl⟩)
  have next : low + k + 1 = low + ((k + 1 : Nat) : Int) := by
    push_cast
    omega
  refine ⟨k + 1, by omega, ?_, fun _ => Nat.succ_pos k⟩
  rw [← next, standing]
  by_cases base : 0 < suffixLength ∧ files (pattern.formatFileName (low + k)) = none
  · rw [shifted, if_pos base] at arrived
    rw [if_pos, arrived]
    refine ⟨base.1, ?_⟩
    -- The compressed file of the next index has gone, or there was none.
    have unwritten : ∀ rename ∈ made, pattern.formatFileName (low + k + 1) ≠ rename.target := by
      intro rename inMade
      obtain ⟨j, _, inRun, rfl⟩ := (member rename).mp inMade
      by_cases here : j = k
      · subst here
        rw [shifted, if_pos base, next]
        exact distinct.cross _ (inside (j + 1) (by omega)) _ (inside (j + 1) (by omega)) base.1
      · exact ofIndex_ne distinct inside (j := k + 1) (k := j + 1) (by omega) (by omega)
          (by omega) (by rw [← next]; exact Or.inl rfl) (shifted_next j)
    by_cases last : k + 1 = count
    · have free := collected.left_end
      rw [← last, ← next] at free
      rw [same]
      exact (Store.moveAll_unwritten _ made left _ unwritten).elim (fun kept => kept.trans free) id
    · by_cases compressed : files (pattern.formatFileName (low + k + 1)) = none
      · rw [same]
        exact (Store.moveAll_unwritten _ made left _ unwritten).elim
          (fun kept => kept.trans (collected.left_none compressed)) id
      · rw [same]
        have source : standing pattern suffixLength files (low + ((k + 1 : Nat) : Int)) =
            pattern.formatFileName (low + k + 1) := by
          rw [← next, standing, if_neg fun missing => compressed missing.2]
        have gone := Store.moveAll_source made left apart done
          ⟨standing pattern suffixLength files (low + ((k + 1 : Nat) : Int)),
            shifted pattern suffixLength files (low + ((k + 1 : Nat) : Int))⟩
          ((member _).mpr ⟨k + 1, by omega, by omega, rfl⟩)
          (by rw [source]; exact unwritten)
        rwa [source] at gone
  · rw [shifted, if_neg base] at arrived
    rw [if_neg, arrived]
    rintro ⟨_, missing⟩
    exact Option.some_ne_none _ (arrived.symm.trans missing)

/-- A rename that is not reached leaves its file in place. -/
theorem stands_unmade {list made rest : List FileRenameAction}
    (collected : Collected pattern suffixLength fails files low remaining left (some list) count)
    (distinct : DistinctNames pattern suffixLength indices)
    (inside : ∀ k : Nat, k ≤ remaining → low + k ∈ indices)
    (split : (renamesFrom pattern suffixLength files low count).reverse = made ++ rest)
    (same : (execute fails left (some list)).store =
      (Store.moveAll (FileRenameAction.fails fails) made left).store)
    (all : (execute fails left (some list)).done = true → rest = []) {k : Nat} (small : k < count)
    (unreached : k < rest.length) {stored : Content}
    (found : files (standing pattern suffixLength files (low + k)) = some stored) :
    Stands pattern suffixLength low remaining (execute fails left (some list)) stored := by
  have bound := collected.bound
  have unmoved : ∀ name, OfIndex pattern suffixLength (low + k) name →
      (execute fails left (some list)).store name = left name := by
    intro name ofK
    rw [same, Store.moveAll_frame]
    intro rename inMade
    obtain ⟨j, reached, inRun, rfl⟩ := (mem_made_iff split rename).mp inMade
    exact ⟨ofIndex_ne distinct inside (by omega) (by omega) (by omega) ofK
        (standing_ofIndex files _),
      ofIndex_ne distinct inside (by omega) (by omega) (by omega) ofK (shifted_next j)⟩
  have here := (unmoved _ (standing_ofIndex files _)).trans
    ((collected.left_standing distinct inside k small).trans found)
  refine ⟨k, by omega, ?_, fun done => ?_⟩
  · rw [standing_eq_of_found here fun missing =>
      (unmoved _ (Or.inl rfl)).trans (collected.left_none missing)]
    exact here
  · rw [all done] at unreached
    exact absurd unreached (Nat.not_lt_zero k)

/-- Each file of the window stands somewhere after a purge, or the loop has dropped it. -/
theorem stands
    (collected : Collected pattern suffixLength fails files low remaining left renames count)
    (distinct : DistinctNames pattern suffixLength indices)
    (inside : ∀ k : Nat, k ≤ remaining → low + k ∈ indices) {k : Nat} (bound : k ≤ remaining)
    {stored : Content}
    (found : files (standing pattern suffixLength files (low + k)) = some stored) :
    Stands pattern suffixLength low remaining (execute fails left renames) stored ∨
      k = remaining ∧ left (standing pattern suffixLength files (low + k)) = none := by
  have occupied : Occupied pattern suffixLength files (low + k) := by
    rw [Occupied, found]
    exact Option.some_ne_none _
  rcases lt_trichotomy k count with small | rfl | beyond
  · left
    cases renames with
    | none =>
        exact collected.stands_unmoved bound
          ((collected.left_standing distinct inside k small).trans found)
    | some list =>
        obtain ⟨made, rest, split, done, same, all⟩ := Store.moveAll_made
          (FileRenameAction.fails fails)
          (renamesFrom pattern suffixLength files low count).reverse left
        rw [← collected.list_eq] at split same all
        by_cases reached : rest.length ≤ k
        · exact collected.stands_made distinct inside (collected.list_eq ▸ split) done same small
            reached found
        · exact collected.stands_unmade distinct inside (collected.list_eq ▸ split) same all.mp
            small (by omega) found
  · rcases collected.stops with ⟨free, _⟩ | ⟨rfl, _, same⟩
    · exact absurd occupied free
    · cases kept : left (standing pattern suffixLength files (low + k)) with
      | none => exact Or.inr ⟨rfl, rfl⟩
      | some content =>
          left
          cases renames with
          | none =>
              rcases collected.kept (standing pattern suffixLength files (low + k)) with
                unmoved | ⟨gone, _⟩
              · exact collected.stands_unmoved bound (unmoved.trans found)
              · exact absurd (kept.symm.trans gone) (Option.some_ne_none _)
          | some list =>
              have works : fails (.deleteFile
                  (standing pattern suffixLength files (low + k))) = false := by
                by_contra failed
                rw [if_pos (by simpa using failed)] at same
                exact absurd same (by simp)
              have gone := collected.deleted rfl occupied works
              exact absurd (kept.symm.trans gone) (Option.some_ne_none _)
  · exact Or.inl (collected.stands_beyond distinct inside bound beyond found)

end Collected

/-- Without a failing operation a purge shifts the run of a window. -/
theorem purge_works (files : Files Content) {high : Int}
    (injective : Set.InjOn pattern.formatFileName indices)
    (read : suffixLengthOf (pattern.formatFileName low) = some suffixLength)
    (window : Set.Icc low high ⊆ indices) (ordered : low ≤ high)
    (never : ∀ operation, fails operation = false) :
    ∃ result, purge pattern fails low high files = some result ∧ result.done = true ∧
      Shifts pattern suffixLength indices low high files result.store ∧
      (∀ name, (∀ i, low ≤ i → i ≤ high → ¬ OfIndex pattern suffixLength i name) →
        result.store name = files name) ∧
      ∀ name, (∀ i, low ≤ i → i < high → Occupied pattern suffixLength files i →
          name ≠ shifted pattern suffixLength files i) →
        result.store name = files name ∨ result.store name = none := by
  obtain ⟨distinct, inside, last, count, collected⟩ :=
    collected_of_injOn fails files injective read window ordered
  have bound := collected.bound
  have done := (collected.done_iff distinct inside).mpr fun i _ _ => by
    rw [never, never, ite_self]
  have shifts := collected.shifts distinct inside done fun _ => never _
  rw [last] at shifts
  refine ⟨_, purge_eq read ordered, done, shifts, ?_, ?_⟩
  · intro name away
    exact collected.frame name fun k small => away _ (by omega) (by omega)
  · intro name away
    exact collected.unwritten name fun k small =>
      away _ (by omega) (by omega) (collected.occupied k small)

/-- An empty window lets `purge` return without any work. -/
theorem purge_empty {high : Int}
    (read : suffixLengthOf (pattern.formatFileName low) = some suffixLength) (empty : high < low) :
    purge pattern fails low high files = some ⟨true, files, []⟩ := by
  simp [purge, read, if_neg (show ¬ low ≤ high by omega), Store.moveAll]

/-- A name that is too short lets `purge` throw before it touches a file. -/
theorem purge_unread {high : Int} (unread : suffixLengthOf (pattern.formatFileName low) = none) :
    purge pattern fails low high files = none := by
  rw [purge, unread]
  rfl

theorem sweep_away {i : Int} {name : LogString} (away : ¬ OfIndex pattern suffixLength i name) :
    sweep pattern suffixLength fails files i name = files name := by
  rcases sweep_apply files i name with same | ⟨_, _, base, _⟩
  · exact same
  · exact absurd (Or.inr base) away

/-- Even with equal names of archives, the loop leaves all names outside of its window alone. -/
theorem collectRenames_away {name : LogString} (remaining : Nat) (i : Int)
    (files : Files Content)
    (away : ∀ k : Nat, k ≤ remaining → ¬ OfIndex pattern suffixLength (i + k) name) :
    (collectRenames pattern fails suffixLength remaining i files).1 name = files name ∧
      ∀ list, (collectRenames pattern fails suffixLength remaining i files).2 = some list →
        ∀ rename ∈ list, name ≠ rename.source ∧ name ≠ rename.target := by
  have here : ¬ OfIndex pattern suffixLength i name := by simpa using away 0 (Nat.zero_le _)
  have unsourced : name ≠ standing pattern suffixLength files i := by
    rintro rfl
    exact here (standing_ofIndex files i)
  have nothing : ∀ list : List FileRenameAction, some [] = some list →
      ∀ rename ∈ list, name ≠ rename.source ∧ name ≠ rename.target := by
    intro list same rename member
    obtain rfl := Option.some.inj same
    exact absurd member List.not_mem_nil
  induction remaining generalizing i files with
  | zero =>
      rw [collectRenames_body]
      split
      · refine ⟨?_, fun list same => ?_⟩
        · dsimp only
          rw [File.deleteFile_apply, if_neg fun deleted => unsourced deleted.1, sweep_away here]
        · dsimp only at same
          split at same
          · exact nothing list same
          · exact absurd same (by simp)
      · exact ⟨sweep_away here, nothing⟩
  | succ remaining ih =>
      rw [collectRenames_body]
      split
      · have later : ∀ k : Nat, k ≤ remaining →
            ¬ OfIndex pattern suffixLength (i + 1 + k) name := by
          intro k bound
          have outside := away (k + 1) (by omega)
          push_cast at outside
          rwa [add_assoc, add_comm 1]
        have next : ¬ OfIndex pattern suffixLength (i + 1) name := by
          simpa using later 0 (Nat.zero_le _)
        obtain ⟨kept, apart⟩ := ih (i + 1) (sweep pattern suffixLength fails files i) later next
          fun same => next (same ▸ standing_ofIndex _ _)
        refine ⟨kept.trans (sweep_away here), fun list same rename member => ?_⟩
        obtain ⟨rest, found, rfl⟩ := Option.map_eq_some_iff.mp same
        rcases List.mem_cons.mp member with rfl | inside
        · exact ⟨unsourced, fun same => next (same ▸ shifted_ofIndex files i)⟩
        · exact apart rest found rename inside
      · exact ⟨sweep_away here, nothing⟩

/-- A purge leaves all names outside of its window alone. -/
theorem purge_away {high : Int} {name : LogString} {after : Moved LogString Content}
    (read : suffixLengthOf (pattern.formatFileName low) = some suffixLength)
    (away : ∀ i, low ≤ i → i ≤ high → ¬ OfIndex pattern suffixLength i name)
    (purged : purge pattern fails low high files = some after) : after.store name = files name := by
  by_cases ordered : low ≤ high
  · obtain rfl := Option.some.inj ((purge_eq read ordered).symm.trans purged)
    obtain ⟨kept, apart⟩ := @collectRenames_away Content pattern suffixLength fails name
      (high - low).toNat low files fun k bound => away (low + k) (by omega) (by omega)
    cases collected : (collectRenames pattern fails suffixLength (high - low).toNat low files).2 with
    | none => exact kept
    | some list =>
        rw [execute, Store.moveAll_frame, kept]
        intro rename member
        exact apart list collected rename (List.mem_reverse.mp member)
  · obtain rfl := Option.some.inj ((purge_empty read (by omega)).symm.trans purged)
    rfl

end CodeCollect.Log4cxx.FixedWindowRollingPolicy
