import CodeCollect.Log4cxx.FixedWindowPurge

namespace CodeCollect.Log4cxx.FixedWindowRollingPolicy

open CodeCollect.Library

section Statements

variable {Content : Type} (pattern : FileNamePattern) (suffixLength : Nat) (indices : Set Int)
  (lowIndex highIndex : Int) (files : Files Content)

/-- The maximal run from the lowest index on reaches this index. -/
def Reaches (i : Int) : Prop :=
  lowIndex ≤ i ∧ ∀ k, lowIndex ≤ k → k ≤ i → Occupied pattern suffixLength files k

/-- Only the file of the highest index and base files with a compressed sibling may vanish. -/
def Keeps (after : Files Content) : Prop :=
  ∀ i ∈ indices, ∀ name content, OfIndex pattern suffixLength i name →
    files name = some content →
      i = highIndex ∨
      Sibling pattern suffixLength files i ∧
        name = baseName suffixLength (pattern.formatFileName i) ∨
      ∃ j ∈ indices, ∃ other, OfIndex pattern suffixLength j other ∧ after other = some content

/-- A rename may replace nothing but a base file with a compressed sibling. -/
def Spares (overwritten : List LogString) : Prop :=
  ∀ name ∈ overwritten, ∃ i ∈ indices, Sibling pattern suffixLength files i ∧
    name = baseName suffixLength (pattern.formatFileName i)

/-- The run has moved up by one index, the lowest index is free and the rest is unchanged. -/
structure Shifts (after : Files Content) : Prop where
  free : ∀ name, OfIndex pattern suffixLength lowIndex name → after name = none
  moved : ∀ i, i < highIndex → Reaches pattern suffixLength lowIndex files i →
    after (shifted pattern suffixLength files i) =
      files (standing pattern suffixLength files i)
  others : ∀ i ∈ indices,
    (i < lowIndex ∨ highIndex < i ∨ ∃ k, lowIndex ≤ k ∧ k < i ∧
      ¬ Occupied pattern suffixLength files k) →
    ∀ name, OfIndex pattern suffixLength i name → after name = files name

/-- Each rename of the run works, and so does the deletion at the highest index. -/
def RunWorks (fails : FileOperation → Bool) : Prop :=
  ∀ i, i ≤ highIndex → Reaches pattern suffixLength lowIndex files i →
    if i = highIndex then fails (.deleteFile (standing pattern suffixLength files i)) = false
    else fails (.renameTo (standing pattern suffixLength files i)
      (shifted pattern suffixLength files i)) = false

/-- The lowest index keeps a base file that its compressed sibling should have replaced. -/
def LeavesBase (fails : FileOperation → Bool) : Prop :=
  Sibling pattern suffixLength files lowIndex ∧
    fails (.deleteFile (baseName suffixLength (pattern.formatFileName lowIndex))) = true ∧
    RunWorks pattern suffixLength lowIndex highIndex files fails

end Statements

section Proofs

variable {Content : Type} {pattern : FileNamePattern} {suffixLength : Nat}
  {fails : FileOperation → Bool} {indices : Set Int} {low : Int} {remaining : Nat}
  {files left : Files Content} {renames : Option (List FileRenameAction)} {count : Nat}

theorem mem_renamesFrom (rename : FileRenameAction) :
    rename ∈ renamesFrom pattern suffixLength files low count ↔ ∃ k : Nat, k < count ∧
      rename = ⟨standing pattern suffixLength files (low + k),
        shifted pattern suffixLength files (low + k)⟩ := by
  simp [renamesFrom, eq_comm]

/-- Files of different indices in the window are different. -/
theorem ofIndex_ne (distinct : DistinctNames pattern suffixLength indices)
    (inside : ∀ k : Nat, k ≤ remaining → low + k ∈ indices) {j k : Nat} (jBound : j ≤ remaining)
    (kBound : k ≤ remaining) (different : j ≠ k) {name other : LogString}
    (ofJ : OfIndex pattern suffixLength (low + j) name)
    (ofK : OfIndex pattern suffixLength (low + k) other) : name ≠ other := by
  rintro rfl
  have same := OfIndex.unique distinct (inside j jBound) (inside k kBound) ofJ ofK
  omega

theorem shifted_next (k : Nat) : OfIndex pattern suffixLength (low + ((k + 1 : Nat) : Int))
    (shifted pattern suffixLength files (low + k)) := by
  have next : OfIndex pattern suffixLength (low + k + 1)
      (shifted pattern suffixLength files (low + k)) := shifted_ofIndex files (low + k)
  rwa [add_assoc] at next

/-- The renames from the top down never touch a file that is still to be moved. -/
theorem renamesFrom_apart (files : Files Content)
    (distinct : DistinctNames pattern suffixLength indices)
    (inside : ∀ k : Nat, k ≤ remaining → low + k ∈ indices) (bound : count ≤ remaining) :
    Apart (renamesFrom pattern suffixLength files low count).reverse := by
  have source : ∀ k : Nat, OfIndex pattern suffixLength (low + k)
      (standing pattern suffixLength files (low + k)) :=
    fun k => standing_ofIndex files (low + k)
  constructor
  · intro rename member
    rw [List.mem_reverse, mem_renamesFrom] at member
    obtain ⟨k, small, rfl⟩ := member
    exact ofIndex_ne distinct inside (by omega) (by omega) (Nat.succ_ne_self k).symm (source k)
      (shifted_next k)
  · rw [List.pairwise_reverse, renamesFrom, List.pairwise_map]
    refine List.pairwise_lt_range.imp_of_mem ?_
    intro j k jMember kMember smaller
    rw [List.mem_range] at jMember kMember
    exact ⟨ofIndex_ne distinct inside (by omega) (by omega) (by omega) (source k) (source j),
      ofIndex_ne distinct inside (by omega) (by omega) (by omega) (shifted_next k) (source j),
      ofIndex_ne distinct inside (by omega) (by omega) (by omega) (shifted_next k)
        (shifted_next j)⟩

namespace Collected

/-- The collected renames find their files as they were before the loop. -/
theorem left_standing
    (collected : Collected pattern suffixLength fails files low remaining left renames count)
    (distinct : DistinctNames pattern suffixLength indices)
    (inside : ∀ k : Nat, k ≤ remaining → low + k ∈ indices) (k : Nat) (small : k < count) :
    left (standing pattern suffixLength files (low + k)) =
      files (standing pattern suffixLength files (low + k)) := by
  have bound := collected.bound
  have source : OfIndex pattern suffixLength (low + k)
      (standing pattern suffixLength files (low + k)) := standing_ofIndex files (low + k)
  rcases collected.kept (standing pattern suffixLength files (low + k)) with same | ⟨_, dropped⟩
  · exact same
  · rcases dropped with ⟨j, _, sibling, base, _⟩ | ⟨all, _, last⟩
    · by_cases same : j = k
      · subst same
        exact absurd base (sibling.standing_ne distinct (inside j (by omega)))
      · exact absurd base (ofIndex_ne distinct inside (by omega) (by omega) (Ne.symm same) source
          (Or.inr rfl))
    · exact absurd last (ofIndex_ne distinct inside (by omega) (by omega) (by omega) source
        (standing_ofIndex files _))

/-- A file that is still in the way of a rename is a base file with a compressed sibling. -/
theorem target_sibling {list : List FileRenameAction}
    (collected : Collected pattern suffixLength fails files low remaining left (some list) count)
    (k : Nat) (found : left (shifted pattern suffixLength files (low + k)) ≠ none)
    (small : k < count)
    (unmoved : k + 1 < count → shifted pattern suffixLength files (low + k) ≠
      standing pattern suffixLength files (low + ((k + 1 : Nat) : Int))) :
    Sibling pattern suffixLength files (low + ((k + 1 : Nat) : Int)) ∧
      shifted pattern suffixLength files (low + k) =
        baseName suffixLength (pattern.formatFileName (low + ((k + 1 : Nat) : Int))) := by
  have before : files (shifted pattern suffixLength files (low + k)) ≠ none := by
    rcases collected.kept (shifted pattern suffixLength files (low + k)) with same | ⟨gone, _⟩
    · rwa [same] at found
    · exact absurd gone found
  rcases eq_standing_or_sibling files _ _ (shifted_next k) before with stands | sibling
  · by_cases inner : k + 1 < count
    · exact absurd stands (unmoved inner)
    · obtain rfl : k + 1 = count := by omega
      have occupied := occupied_of_found files _ _ (shifted_next k) before
      rcases collected.stops with ⟨free, _⟩ | ⟨all, last, same⟩
      · exact absurd occupied free
      · -- The highest index was emptied, so nothing stands there any more.
        have worked : fails (.deleteFile
            (standing pattern suffixLength files (low + remaining))) = false := by
          by_contra failed
          rw [if_pos (by simpa using failed)] at same
          exact absurd same (by simp)
        have gone := collected.deleted all last worked
        rw [stands, all] at found
        exact absurd gone found
  · exact sibling

/-- The list holds the renames of the run whenever there is a list. -/
theorem list_eq {list : List FileRenameAction}
    (collected : Collected pattern suffixLength fails files low remaining left (some list) count) :
    list = renamesFrom pattern suffixLength files low count := by
  rcases collected.stops with ⟨_, same⟩ | ⟨_, _, same⟩
  · exact Option.some.inj same
  · split at same
    · exact absurd same (by simp)
    · exact Option.some.inj same

end Collected

/-- The second half of `purge` makes the collected renames from the top down. -/
def execute (fails : FileOperation → Bool) (left : Files Content) :
    Option (List FileRenameAction) → Moved LogString Content
  | none => ⟨false, left, []⟩
  | some renames => Store.moveAll (FileRenameAction.fails fails) renames.reverse left

namespace Collected

/-- No content of the window is lost, apart from the two exceptions. -/
theorem keeps
    (collected : Collected pattern suffixLength fails files low remaining left renames count)
    (distinct : DistinctNames pattern suffixLength indices)
    (inside : ∀ k : Nat, k ≤ remaining → low + k ∈ indices) :
    Keeps pattern suffixLength indices (low + remaining) files
      (execute fails left renames).store := by
  intro i member name content ofI found
  have bound := collected.bound
  rcases collected.kept name with same | ⟨_, ⟨k, small, sibling, rfl, _⟩ | ⟨_, _, rfl⟩⟩
  · rw [found] at same
    cases renames with
    | none => exact Or.inr (Or.inr ⟨i, member, name, ofI, same⟩)
    | some list =>
        have apart := renamesFrom_apart files distinct inside bound
        rw [collected.list_eq, execute]
        by_cases moves : ∃ k, k < count ∧ name = standing pattern suffixLength files (low + k)
        · obtain ⟨k, small, rfl⟩ := moves
          have rename : ⟨standing pattern suffixLength files (low + k),
              shifted pattern suffixLength files (low + k)⟩ ∈
                (renamesFrom pattern suffixLength files low count).reverse :=
            List.mem_reverse.mpr ((mem_renamesFrom _).mpr ⟨k, small, rfl⟩)
          rcases Store.moveAll_kept _ left apart _ rename content same with stays | moved
          · exact Or.inr (Or.inr ⟨low + k, inside k (by omega), _, standing_ofIndex files _,
              stays⟩)
          · exact Or.inr (Or.inr ⟨low + ((k + 1 : Nat) : Int), inside (k + 1) (by omega), _,
              shifted_next k, moved⟩)
        · by_cases replaced : ∃ k, k < count ∧
              name = shifted pattern suffixLength files (low + k)
          · obtain ⟨k, small, rfl⟩ := replaced
            have sibling := collected.target_sibling k (by rw [same]; exact Option.some_ne_none _)
              small fun inner stands => moves ⟨k + 1, inner, stands⟩
            obtain rfl := OfIndex.unique distinct member (inside (k + 1) (by omega)) ofI
              (shifted_next k)
            exact Or.inr (Or.inl sibling)
          · refine Or.inr (Or.inr ⟨i, member, name, ofI, ?_⟩)
            rw [Store.moveAll_frame, same]
            intro rename inList
            rw [List.mem_reverse, mem_renamesFrom] at inList
            obtain ⟨k, small, rfl⟩ := inList
            exact ⟨fun source => moves ⟨k, small, source⟩,
              fun target => replaced ⟨k, small, target⟩⟩
  · obtain rfl := OfIndex.unique distinct member (inside k (by omega)) ofI (Or.inr rfl)
    exact Or.inr (Or.inl ⟨sibling, rfl⟩)
  · exact Or.inl (OfIndex.unique distinct member (inside remaining (Nat.le_refl _)) ofI
      (standing_ofIndex files _))

/-- A rename finds its target free, or it replaces a base file with a compressed sibling. -/
theorem spares
    (collected : Collected pattern suffixLength fails files low remaining left renames count)
    (distinct : DistinctNames pattern suffixLength indices)
    (inside : ∀ k : Nat, k ≤ remaining → low + k ∈ indices) :
    Spares pattern suffixLength indices files (execute fails left renames).overwritten := by
  have bound := collected.bound
  cases renames with
  | none => exact fun _ member => absurd member List.not_mem_nil
  | some list =>
      rw [collected.list_eq, execute]
      intro name member
      obtain ⟨earlier, rename, later, split, rfl, unfreed, found⟩ := Store.moveAll_overwritten _
        left (renamesFrom_apart files distinct inside bound) name member
      rw [List.reverse_eq_iff, List.reverse_append, List.reverse_cons, List.append_assoc,
        List.singleton_append] at split
      -- The later renames come first in the list of the run.
      have position : ∀ k : Nat, k < count →
          (renamesFrom pattern suffixLength files low count)[k]? =
            some ⟨standing pattern suffixLength files (low + k),
              shifted pattern suffixLength files (low + k)⟩ := by
        intro k small
        simp [renamesFrom, small]
      have length : later.length < count := by
        have lengths := congrArg List.length split
        simp only [renamesFrom, List.length_map, List.length_range, List.length_append,
          List.length_reverse, List.length_cons] at lengths
        omega
      have here := position later.length length
      rw [split, List.getElem?_append_right (by simp)] at here
      simp only [List.length_reverse, Nat.sub_self, List.getElem?_cons_zero,
        Option.some.injEq] at here
      subst here
      refine ⟨low + ((later.length + 1 : Nat) : Int), inside _ (by omega),
        collected.target_sibling later.length found length fun inner stands => ?_⟩
      have next := position (later.length + 1) inner
      rw [split, List.getElem?_append_right (by simp)] at next
      simp only [List.length_reverse, Nat.add_sub_cancel_left, List.getElem?_cons_succ] at next
      have inEarlier := List.mem_reverse.mp (List.mem_of_getElem? next)
      exact unfreed _ inEarlier stands.symm

/-- The run reaches exactly the indices that the loop found occupied. -/
theorem reaches_iff
    (collected : Collected pattern suffixLength fails files low remaining left renames count)
    (k : Nat) (small : k < remaining) :
    Reaches pattern suffixLength low files (low + k) ↔ k < count := by
  constructor
  · intro reaches
    by_contra beyond
    have bound := collected.bound
    rcases collected.stops with ⟨free, _⟩ | ⟨all, _, _⟩
    · exact free (reaches.2 _ (by omega) (by omega))
    · omega
  · intro inRun
    refine ⟨by omega, fun i above below => ?_⟩
    have occupied := collected.occupied (i - low).toNat (by omega)
    rwa [Int.toNat_of_nonneg (by omega), add_sub_cancel] at occupied

theorem reaches_last_iff
    (collected : Collected pattern suffixLength fails files low remaining left renames count) :
    Reaches pattern suffixLength low files (low + remaining) ↔
      count = remaining ∧ Occupied pattern suffixLength files (low + remaining) := by
  constructor
  · intro reaches
    have bound := collected.bound
    rcases collected.stops with ⟨free, _⟩ | ⟨all, last, _⟩
    · exact absurd (reaches.2 _ (by omega) (by omega)) free
    · exact ⟨all, last⟩
  · rintro ⟨rfl, last⟩
    refine ⟨by omega, fun i above below => ?_⟩
    by_cases final : i = low + count
    · rwa [final]
    · have occupied := collected.occupied (i - low).toNat (by omega)
      rwa [Int.toNat_of_nonneg (by omega), add_sub_cancel] at occupied

/-- The result is true exactly when every operation of the run works. -/
theorem done_iff
    (collected : Collected pattern suffixLength fails files low remaining left renames count)
    (distinct : DistinctNames pattern suffixLength indices)
    (inside : ∀ k : Nat, k ≤ remaining → low + k ∈ indices) :
    (execute fails left renames).done = true ↔
      RunWorks pattern suffixLength low (low + remaining) files fails := by
  have bound := collected.bound
  have renamesWork : (∀ k : Nat, k < count → fails (.renameTo
      (standing pattern suffixLength files (low + k))
      (shifted pattern suffixLength files (low + k))) = false) ↔
        ∀ rename ∈ (renamesFrom pattern suffixLength files low count).reverse,
          FileRenameAction.fails fails rename = false ∧ left rename.source ≠ none := by
    constructor
    · intro works rename member
      rw [List.mem_reverse, mem_renamesFrom] at member
      obtain ⟨k, small, rfl⟩ := member
      refine ⟨works k small, ?_⟩
      rw [collected.left_standing distinct inside k small]
      exact collected.occupied k small
    · intro works k small
      exact (works _ (List.mem_reverse.mpr ((mem_renamesFrom _).mpr ⟨k, small, rfl⟩))).1
  have lastWorks : renames ≠ none ↔ (Reaches pattern suffixLength low files (low + remaining) →
      fails (.deleteFile (standing pattern suffixLength files (low + remaining))) = false) := by
    rw [collected.reaches_last_iff]
    rcases collected.stops with ⟨free, same⟩ | ⟨all, last, same⟩
    · refine iff_of_true (by simp [same]) ?_
      rintro ⟨rfl, last⟩
      exact absurd last free
    · rw [same]
      cases failed : fails (.deleteFile (standing pattern suffixLength files (low + remaining)))
      · exact iff_of_true (by simp) fun _ => rfl
      · exact iff_of_false (by simp) fun works => absurd (works ⟨all, last⟩) (by simp)
  have done : (execute fails left renames).done = true ↔ renames ≠ none ∧ ∀ k : Nat, k < count →
      fails (.renameTo (standing pattern suffixLength files (low + k))
        (shifted pattern suffixLength files (low + k))) = false := by
    cases renames with
    | none => simp [execute]
    | some list =>
        rw [renamesWork, execute, collected.list_eq,
          Store.moveAll_done_iff _ _ (renamesFrom_apart files distinct inside bound)]
        exact (and_iff_right (by simp)).symm
  rw [done, lastWorks]
  constructor
  · rintro ⟨last, works⟩ i below reaches
    split
    · rename_i final
      subst final
      exact last reaches
    · obtain ⟨k, rfl⟩ := Int.le.dest reaches.1
      exact works k ((collected.reaches_iff k (by omega)).mp reaches)
  · intro works
    refine ⟨fun reaches => ?_, fun k small => ?_⟩
    · have last := works _ (le_refl _) reaches
      rwa [if_pos rfl] at last
    · have inner := works (low + k) (by omega) ((collected.reaches_iff k (by omega)).mpr small)
      rwa [if_neg (by omega)] at inner

/-- After a successful purge the lowest index is free, unless its base file stayed behind. -/
theorem free {list : List FileRenameAction}
    (collected : Collected pattern suffixLength fails files low remaining left (some list) count)
    (distinct : DistinctNames pattern suffixLength indices)
    (inside : ∀ k : Nat, k ≤ remaining → low + k ∈ indices)
    (done : (execute fails left (some list)).done = true) (name : LogString)
    (ofLow : OfIndex pattern suffixLength low name)
    (swept : Sibling pattern suffixLength files low →
      name = baseName suffixLength (pattern.formatFileName low) →
        fails (.deleteFile name) = false) :
    (execute fails left (some list)).store name = none := by
  have bound := collected.bound
  have apart := renamesFrom_apart files distinct inside bound
  have first : low + ((0 : Nat) : Int) = low := by simp
  rw [execute, collected.list_eq] at done ⊢
  have target : ∀ k : Nat, k < count →
      name ≠ shifted pattern suffixLength files (low + k) := by
    intro k small
    exact ofIndex_ne distinct inside (Nat.zero_le _) (by omega) (by omega) (by rwa [first])
      (shifted_next k)
  by_cases moves : 0 < count ∧ name = standing pattern suffixLength files low
  · obtain ⟨some', rfl⟩ := moves
    have rename : (⟨standing pattern suffixLength files low,
        shifted pattern suffixLength files low⟩ : FileRenameAction) ∈
          (renamesFrom pattern suffixLength files low count).reverse :=
      List.mem_reverse.mpr ((mem_renamesFrom _).mpr ⟨0, some', by rw [first]⟩)
    apply Store.moveAll_source _ left apart done _ rename
    intro other member
    rw [List.mem_reverse, mem_renamesFrom] at member
    obtain ⟨k, small, rfl⟩ := member
    exact target k small
  · rw [Store.moveAll_frame]
    · rcases collected.kept name with same | ⟨gone, _⟩
      · by_contra found
        rw [same] at found
        rcases eq_standing_or_sibling files low name ofLow found with rfl | ⟨sibling, rfl⟩
        · have occupied := occupied_of_found files low _ ofLow found
          obtain rfl : count = 0 := by
            by_contra positive
            exact moves ⟨Nat.pos_of_ne_zero positive, rfl⟩
          rcases collected.stops with ⟨free, _⟩ | ⟨rfl, last, works⟩
          · exact free (by rwa [first])
          · have deleted := collected.deleted rfl last (by
              by_contra failed
              rw [if_pos (by simpa using failed)] at works
              exact absurd works (by simp))
            rw [first] at deleted
            exact found (same.symm.trans deleted)
        · exact found (same.symm.trans (collected.swept sibling (swept sibling rfl)))
      · exact gone
    · intro other member
      rw [List.mem_reverse, mem_renamesFrom] at member
      obtain ⟨k, small, rfl⟩ := member
      refine ⟨fun source => ?_, target k small⟩
      by_cases zero : k = 0
      · subst zero
        exact moves ⟨small, by rwa [first] at source⟩
      · exact ofIndex_ne distinct inside (Nat.zero_le _) (by omega) (Ne.symm zero)
          (by rwa [first]) (standing_ofIndex files _) source

/-- A successful purge moves the run up and leaves the other indices alone. -/
theorem shifts
    (collected : Collected pattern suffixLength fails files low remaining left renames count)
    (distinct : DistinctNames pattern suffixLength indices)
    (inside : ∀ k : Nat, k ≤ remaining → low + k ∈ indices)
    (done : (execute fails left renames).done = true)
    (swept : Sibling pattern suffixLength files low →
      fails (.deleteFile (baseName suffixLength (pattern.formatFileName low))) = false) :
    Shifts pattern suffixLength indices low (low + remaining) files
      (execute fails left renames).store := by
  have bound := collected.bound
  cases renames with
  | none => exact absurd done (by simp [execute])
  | some list =>
      refine ⟨fun name ofLow => collected.free distinct inside done name ofLow ?_, ?_, ?_⟩
      · rintro sibling rfl
        exact swept sibling
      · intro i below reaches
        rw [execute, collected.list_eq] at done ⊢
        obtain ⟨k, rfl⟩ := Int.le.dest reaches.1
        have small := (collected.reaches_iff k (by omega)).mp reaches
        rw [← collected.left_standing distinct inside k small]
        exact Store.moveAll_target _ left (renamesFrom_apart files distinct inside bound) done
          ⟨standing pattern suffixLength files (low + k),
            shifted pattern suffixLength files (low + k)⟩
          (List.mem_reverse.mpr ((mem_renamesFrom _).mpr ⟨k, small, rfl⟩))
      · intro i member outside name ofI
        -- A file of the run or right behind it would have only occupied indices before it.
        have away : ∀ k : Nat, k ≤ count → i ≠ low + k := by
          rintro k small rfl
          rcases outside with below | above | ⟨free, lower, before, unoccupied⟩
          · omega
          · omega
          · have occupied := collected.occupied (free - low).toNat (by omega)
            rw [Int.toNat_of_nonneg (by omega), add_sub_cancel] at occupied
            exact unoccupied occupied
        rw [execute, collected.list_eq, Store.moveAll_frame]
        · rcases collected.kept name with same | ⟨_, ⟨k, small, _, rfl, _⟩ | ⟨all, _, rfl⟩⟩
          · exact same
          · exact absurd (OfIndex.unique distinct member (inside k (by omega)) ofI (Or.inr rfl))
              (away k small)
          · exact absurd (OfIndex.unique distinct member (inside remaining (Nat.le_refl _)) ofI
              (standing_ofIndex files _)) (away remaining (by omega))
        · intro rename inList
          rw [List.mem_reverse, mem_renamesFrom] at inList
          obtain ⟨k, small, rfl⟩ := inList
          constructor
          · rintro rfl
            exact away k (by omega) (OfIndex.unique distinct member (inside k (by omega)) ofI
              (standing_ofIndex files _))
          · rintro rfl
            exact away (k + 1) (by omega) (OfIndex.unique distinct member
              (inside (k + 1) (by omega)) ofI (shifted_next k))

/-- A base file whose deletion fails stays at the lowest index. -/
theorem leaves
    (collected : Collected pattern suffixLength fails files low remaining left renames count)
    (distinct : DistinctNames pattern suffixLength indices)
    (inside : ∀ k : Nat, k ≤ remaining → low + k ∈ indices)
    (sibling : Sibling pattern suffixLength files low)
    (failed : fails (.deleteFile (baseName suffixLength (pattern.formatFileName low))) = true) :
    (execute fails left renames).store
      (baseName suffixLength (pattern.formatFileName low)) ≠ none := by
  have bound := collected.bound
  have first : low + ((0 : Nat) : Int) = low := by simp
  have here : low ∈ indices := by simpa using inside 0 (Nat.zero_le _)
  have ofLow : OfIndex pattern suffixLength (low + ((0 : Nat) : Int))
      (baseName suffixLength (pattern.formatFileName low)) := by
    rw [first]
    exact Or.inr rfl
  have apart : ∀ k : Nat, k ≤ remaining →
      baseName suffixLength (pattern.formatFileName low) ≠
        standing pattern suffixLength files (low + k) := by
    intro k small
    by_cases zero : k = 0
    · subst zero
      rw [first]
      exact (sibling.standing_ne distinct here).symm
    · exact ofIndex_ne distinct inside (Nat.zero_le _) small (Ne.symm zero) ofLow
        (standing_ofIndex files _)
  have stays : left (baseName suffixLength (pattern.formatFileName low)) ≠ none := by
    rcases collected.kept (baseName suffixLength (pattern.formatFileName low)) with
      same | ⟨_, ⟨k, _, _, _, free⟩ | ⟨_, _, last⟩⟩
    · rw [same]
      exact sibling.2.2
    · exact absurd (free.symm.trans failed) (by simp)
    · exact absurd last (apart remaining (Nat.le_refl _))
  cases renames with
  | none => exact stays
  | some list =>
      rw [execute, collected.list_eq, Store.moveAll_frame]
      · exact stays
      · intro rename member
        rw [List.mem_reverse, mem_renamesFrom] at member
        obtain ⟨k, small, rfl⟩ := member
        exact ⟨apart k (by omega), ofIndex_ne distinct inside (Nat.zero_le _) (by omega)
          (by omega) ofLow (shifted_next k)⟩

end Collected

theorem purge_eq {high : Int}
    (read : suffixLengthOf (pattern.formatFileName low) = some suffixLength)
    (ordered : low ≤ high) :
    purge pattern fails low high files = some (execute fails
      (collectRenames pattern fails suffixLength (high - low).toNat low files).1
      (collectRenames pattern fails suffixLength (high - low).toNat low files).2) := by
  simp only [purge, read, Option.bind_eq_bind, Option.bind_some, if_pos ordered]
  cases (collectRenames pattern fails suffixLength (high - low).toNat low files).2 <;> rfl

/-- An injective pattern lets the loop work through a window of indices. -/
theorem collected_of_injOn (fails : FileOperation → Bool) (files : Files Content) {high : Int}
    (injective : Set.InjOn pattern.formatFileName indices)
    (read : suffixLengthOf (pattern.formatFileName low) = some suffixLength)
    (window : Set.Icc low high ⊆ indices) (ordered : low ≤ high) :
    DistinctNames pattern suffixLength indices ∧
      (∀ k : Nat, k ≤ (high - low).toNat → low + k ∈ indices) ∧
      low + ((high - low).toNat : Int) = high ∧
      ∃ count, Collected pattern suffixLength fails files low (high - low).toNat
        (collectRenames pattern fails suffixLength (high - low).toNat low files).1
        (collectRenames pattern fails suffixLength (high - low).toNat low files).2 count := by
  have distinct := distinctNames_of_injOn pattern low suffixLength indices injective read
  have inside : ∀ k : Nat, k ≤ (high - low).toNat → low + k ∈ indices :=
    fun k small => window ⟨by omega, by omega⟩
  exact ⟨distinct, inside, by omega, collectRenames_spec distinct _ low files inside⟩

/-- A purge with failing operations is safe unless it leaves a base file at the lowest index. -/
theorem purge_safe_iff (pattern : FileNamePattern) (indices : Set Int)
    (injective : Set.InjOn pattern.formatFileName indices) (low high : Int) (ordered : low ≤ high)
    (window : Set.Icc low high ⊆ indices) (fails : FileOperation → Bool)
    (files : Files Content) :
    (∀ suffixLength result, suffixLengthOf (pattern.formatFileName low) = some suffixLength →
      purge pattern fails low high files = some result →
        Keeps pattern suffixLength indices high files result.store ∧
        Spares pattern suffixLength indices files result.overwritten ∧
        (result.done = true →
          Shifts pattern suffixLength indices low high files result.store)) ↔
      ∀ suffixLength, suffixLengthOf (pattern.formatFileName low) = some suffixLength →
        ¬ LeavesBase pattern suffixLength low high files fails := by
  constructor
  · intro safe suffixLength read leaves
    obtain ⟨sibling, failed, works⟩ := leaves
    obtain ⟨distinct, inside, last, count, collected⟩ :=
      collected_of_injOn fails files injective read window ordered
    have safely := (safe suffixLength _ read (purge_eq read ordered)).2.2
      ((collected.done_iff distinct inside).mpr (by rwa [last]))
    exact collected.leaves distinct inside sibling failed (safely.free _ (Or.inr rfl))
  · intro clean suffixLength result read purged
    obtain ⟨distinct, inside, last, count, collected⟩ :=
      collected_of_injOn fails files injective read window ordered
    rw [purge_eq read ordered] at purged
    obtain rfl := Option.some.inj purged
    have kept := collected.keeps distinct inside
    have spared := collected.spares distinct inside
    rw [last] at kept
    refine ⟨kept, spared, fun done => ?_⟩
    have works := (collected.done_iff distinct inside).mp done
    rw [last] at works
    have shifted := collected.shifts distinct inside done fun sibling => by
      by_contra failed
      exact clean suffixLength read ⟨sibling, by simpa using failed, works⟩
    rwa [last] at shifted

end Proofs

/-- The names of this pattern are `f1.gz`, `f2.gz` and so on. -/
def compressedPattern : FileNamePattern :=
  [(.literal ['f'], .getDefault), (.integer, .getDefault), (.literal ['.', 'g', 'z'], .getDefault)]

/-- The first index has both of its files. -/
def bothFiles : Files Nat :=
  Store.put (Store.put (fun _ => none) ['f', '1', '.', 'g', 'z'] 0) ['f', '1'] 1

theorem compressedPattern_injOn :
    Set.InjOn compressedPattern.formatFileName (Set.Icc 1 2) := by
  intro i iInside j jInside same
  have iBounds := iInside
  have jBounds := jInside
  rw [Set.mem_Icc] at iBounds jBounds
  obtain rfl | rfl : i = 1 ∨ i = 2 := by omega
  all_goals obtain rfl | rfl : j = 1 ∨ j = 2 := by omega
  all_goals
    revert same
    decide +kernel

/-- Without a failure the compressed file moves up and the base file is gone. -/
theorem purge_safe_bothFiles :
    ∃ result, purge compressedPattern (fun _ => false) 1 2 bothFiles = some result ∧
      Keeps compressedPattern 3 (Set.Icc 1 2) 2 bothFiles result.store ∧
      Shifts compressedPattern 3 (Set.Icc 1 2) 1 2 bothFiles result.store := by
  have works : (purge compressedPattern (fun _ => false) 1 2 bothFiles).map Moved.done =
      some true := by
    decide +kernel
  obtain ⟨result, purged, done⟩ := Option.map_eq_some_iff.mp works
  have safe := (purge_safe_iff compressedPattern (Set.Icc 1 2) compressedPattern_injOn 1 2
    (by decide) (fun _ inside => inside) (fun _ => false) bothFiles).mpr
      (fun _ _ leaves => absurd leaves.2.1 (by simp))
  have holds := safe 3 result (by decide +kernel) purged
  exact ⟨result, purged, holds.1, holds.2.2 done⟩

/-- The base file stays at the lowest index although the purge returns true. -/
theorem purge_leaves_base :
    ∃ result, purge compressedPattern (fun operation => operation = .deleteFile ['f', '1']) 1 2
        bothFiles = some result ∧ result.done = true ∧
      ¬ Shifts compressedPattern 3 (Set.Icc 1 2) 1 2 bothFiles result.store := by
  have left : (purge compressedPattern (fun operation => operation = .deleteFile ['f', '1']) 1 2
      bothFiles).map (fun result => (result.done, result.store ['f', '1'])) =
        some (true, some 1) := by
    decide +kernel
  obtain ⟨result, purged, same⟩ := Option.map_eq_some_iff.mp left
  obtain ⟨done, found⟩ := Prod.mk.inj same
  refine ⟨result, purged, done, fun shifts => ?_⟩
  have free := shifts.free ['f', '1'] (Or.inr (by decide +kernel))
  rw [found] at free
  exact Option.some_ne_none _ free

end CodeCollect.Log4cxx.FixedWindowRollingPolicy
