import Mathlib

namespace CodeCollect.Library

/-- A store gives the content behind each name that exists. -/
abbrev Store (Name Content : Type*) := Name → Option Content

structure Move (Name : Type*) where
  source : Name
  target : Name
deriving DecidableEq

/-- The overwritten names had a content of their own when a move replaced it. -/
structure Moved (Name Content : Type*) where
  done : Bool
  store : Store Name Content
  overwritten : List Name

variable {Name Content : Type*}

/-- No move touches what a later move reads or what an earlier move wrote. -/
def Apart (moves : List (Move Name)) : Prop :=
  (∀ next ∈ moves, next.source ≠ next.target) ∧
    moves.Pairwise fun earlier later => earlier.source ≠ later.source ∧
      earlier.target ≠ later.source ∧ earlier.target ≠ later.target

theorem Apart.tail {next : Move Name} {rest : List (Move Name)} (apart : Apart (next :: rest)) :
    Apart rest :=
  ⟨fun other member => apart.1 other (List.mem_cons_of_mem _ member),
    (List.pairwise_cons.mp apart.2).2⟩

variable [DecidableEq Name]

namespace Store

def remove (store : Store Name Content) (name : Name) : Store Name Content :=
  Function.update store name none

def put (store : Store Name Content) (name : Name) (content : Content) : Store Name Content :=
  Function.update store name (some content)

def move (store : Store Name Content) (source target : Name) : Store Name Content :=
  fun name => if name = target then store source else if name = source then none else store name

/-- The moves are made in order, and the first one that is blocked ends them. -/
def moveAll (blocked : Move Name → Bool) : List (Move Name) → Store Name Content →
    Moved Name Content
  | [], store => ⟨true, store, []⟩
  | next :: rest, store =>
      if blocked next || (store next.source).isNone then ⟨false, store, []⟩
      else
        let moved := moveAll blocked rest (store.move next.source next.target)
        if (store next.target).isSome then
          { moved with overwritten := next.target :: moved.overwritten }
        else moved

theorem remove_apply (store : Store Name Content) (name other : Name) :
    store.remove name other = if other = name then none else store other :=
  Function.update_apply ..

theorem put_apply (store : Store Name Content) (name other : Name) (content : Content) :
    store.put name content other = if other = name then some content else store other :=
  Function.update_apply ..

theorem move_target (store : Store Name Content) (source target : Name) :
    store.move source target target = store source := by
  rw [move, if_pos rfl]

theorem move_source (store : Store Name Content) (source target : Name)
    (different : source ≠ target) : store.move source target source = none := by
  rw [move, if_neg different, if_pos rfl]

theorem move_other (store : Store Name Content) (source target name : Name)
    (awayFromSource : name ≠ source) (awayFromTarget : name ≠ target) :
    store.move source target name = store name := by
  rw [move, if_neg awayFromTarget, if_neg awayFromSource]

variable {blocked : Move Name → Bool}

/-- The first move decides whether the others are tried. -/
theorem moveAll_cons_store (next : Move Name) (rest : List (Move Name))
    (store : Store Name Content) :
    (moveAll blocked (next :: rest) store).store =
      if blocked next || (store next.source).isNone then store
      else (moveAll blocked rest (store.move next.source next.target)).store := by
  rw [moveAll]
  split
  · rfl
  · dsimp only
    split <;> rfl

theorem moveAll_cons_done (next : Move Name) (rest : List (Move Name))
    (store : Store Name Content) :
    (moveAll blocked (next :: rest) store).done =
      if blocked next || (store next.source).isNone then false
      else (moveAll blocked rest (store.move next.source next.target)).done := by
  rw [moveAll]
  split
  · rfl
  · dsimp only
    split <;> rfl

/-- The moves leave all other names alone. -/
theorem moveAll_frame (moves : List (Move Name)) (store : Store Name Content) (name : Name)
    (away : ∀ next ∈ moves, name ≠ next.source ∧ name ≠ next.target) :
    (moveAll blocked moves store).store name = store name := by
  induction moves generalizing store with
  | nil => rfl
  | cons next rest ih =>
      rw [moveAll_cons_store]
      split
      · rfl
      · obtain ⟨source, target⟩ := away next (List.mem_cons_self ..)
        rw [ih _ fun other member => away other (List.mem_cons_of_mem _ member),
          move_other store _ _ _ source target]

/-- A later move finds its source as it was before all moves. -/
theorem move_later (store : Store Name Content) {next later : Move Name}
    {rest : List (Move Name)} (apart : Apart (next :: rest)) (member : later ∈ rest) :
    store.move next.source next.target later.source = store later.source := by
  obtain ⟨source, target, _⟩ := (List.pairwise_cons.mp apart.2).1 later member
  exact move_other store _ _ _ (Ne.symm source) (Ne.symm target)

/-- Whether or not a move is reached, its content stays at its source or at its target. -/
theorem moveAll_kept (moves : List (Move Name)) (store : Store Name Content)
    (apart : Apart moves) (one : Move Name) (member : one ∈ moves) (content : Content)
    (found : store one.source = some content) :
    (moveAll blocked moves store).store one.source = some content ∨
      (moveAll blocked moves store).store one.target = some content := by
  induction moves generalizing store with
  | nil => exact absurd member List.not_mem_nil
  | cons next rest ih =>
      rw [moveAll_cons_store]
      split
      · exact Or.inl found
      · rcases List.mem_cons.mp member with rfl | later
        · right
          rw [moveAll_frame, move_target]
          · exact found
          · intro other inside
            obtain ⟨_, source, target⟩ := (List.pairwise_cons.mp apart.2).1 other inside
            exact ⟨source, target⟩
        · exact ih _ apart.tail later (by rw [move_later store apart later]; exact found)

/-- All moves are made exactly when none of them is blocked and all their sources exist. -/
theorem moveAll_done_iff (moves : List (Move Name)) (store : Store Name Content)
    (apart : Apart moves) :
    (moveAll blocked moves store).done = true ↔
      ∀ next ∈ moves, blocked next = false ∧ store next.source ≠ none := by
  induction moves generalizing store with
  | nil => simp [moveAll]
  | cons next rest ih =>
      have same : (∀ later ∈ rest, blocked later = false ∧
          store.move next.source next.target later.source ≠ none) ↔
            ∀ later ∈ rest, blocked later = false ∧ store later.source ≠ none :=
        forall₂_congr fun later member => by rw [move_later store apart member]
      rw [moveAll_cons_done, List.forall_mem_cons, ← same, ← ih _ apart.tail]
      by_cases stops : blocked next || (store next.source).isNone
      · rw [if_pos stops]
        simp only [Bool.or_eq_true, Option.isNone_iff_eq_none] at stops
        simp only [Bool.false_eq_true, false_iff, not_and]
        rintro ⟨free, exists'⟩
        rcases stops with blocked | missing
        · exact absurd (blocked.symm.trans free) (by simp)
        · exact absurd missing exists'
      · rw [if_neg stops]
        simp only [Bool.or_eq_true, Option.isNone_iff_eq_none, not_or, Bool.not_eq_true] at stops
        exact (and_iff_right stops).symm

/-- When all moves are made, each content is at its target. -/
theorem moveAll_target (moves : List (Move Name)) (store : Store Name Content)
    (apart : Apart moves) (done : (moveAll blocked moves store).done = true) (one : Move Name)
    (member : one ∈ moves) :
    (moveAll blocked moves store).store one.target = store one.source := by
  induction moves generalizing store with
  | nil => exact absurd member List.not_mem_nil
  | cons next rest ih =>
      rw [moveAll_cons_done] at done
      rw [moveAll_cons_store]
      split at done
      · exact absurd done (by simp)
      · rename_i free
        rw [if_neg free]
        rcases List.mem_cons.mp member with rfl | later
        · rw [moveAll_frame, move_target]
          intro other inside
          obtain ⟨_, source, target⟩ := (List.pairwise_cons.mp apart.2).1 other inside
          exact ⟨source, target⟩
        · rw [ih _ apart.tail done later, move_later store apart later]

/-- When all moves are made, a source that is no target is free. -/
theorem moveAll_source (moves : List (Move Name)) (store : Store Name Content)
    (apart : Apart moves) (done : (moveAll blocked moves store).done = true) (one : Move Name)
    (member : one ∈ moves) (unwritten : ∀ next ∈ moves, one.source ≠ next.target) :
    (moveAll blocked moves store).store one.source = none := by
  induction moves generalizing store with
  | nil => exact absurd member List.not_mem_nil
  | cons next rest ih =>
      rw [moveAll_cons_done] at done
      rw [moveAll_cons_store]
      split at done
      · exact absurd done (by simp)
      · rename_i free
        rw [if_neg free]
        rcases List.mem_cons.mp member with rfl | later
        · rw [moveAll_frame, move_source store _ _ (apart.1 _ (List.mem_cons_self ..))]
          intro other inside
          exact ⟨((List.pairwise_cons.mp apart.2).1 other inside).1,
            unwritten other (List.mem_cons_of_mem _ inside)⟩
        · exact ih _ apart.tail done later fun other inside =>
            unwritten other (List.mem_cons_of_mem _ inside)

/-- An overwritten name existed from the start, and no earlier move has freed it. -/
theorem moveAll_overwritten (moves : List (Move Name)) (store : Store Name Content)
    (apart : Apart moves) (name : Name)
    (member : name ∈ (moveAll blocked moves store).overwritten) :
    ∃ earlier next later, moves = earlier ++ next :: later ∧ next.target = name ∧
      (∀ other ∈ earlier, other.source ≠ name) ∧ store name ≠ none := by
  induction moves generalizing store with
  | nil => exact absurd member List.not_mem_nil
  | cons next rest ih =>
      have here : name = next.target → store next.target ≠ none →
          ∃ earlier one later, next :: rest = earlier ++ one :: later ∧ one.target = name ∧
            (∀ other ∈ earlier, other.source ≠ name) ∧ store name ≠ none := by
        rintro rfl exists'
        exact ⟨[], next, rest, rfl, rfl, fun _ inside => absurd inside List.not_mem_nil, exists'⟩
      have there : name ∈ (moveAll blocked rest
          (store.move next.source next.target)).overwritten →
          ∃ earlier one later, next :: rest = earlier ++ one :: later ∧ one.target = name ∧
            (∀ other ∈ earlier, other.source ≠ name) ∧ store name ≠ none := by
        intro later
        obtain ⟨earlier, one, last, split, target, unfreed, exists'⟩ :=
          ih _ apart.tail later
        have inside : one ∈ rest := by simp [split]
        have written : name ≠ next.target := by
          rw [← target]
          exact Ne.symm ((List.pairwise_cons.mp apart.2).1 one inside).2.2
        have unmoved : next.source ≠ name := by
          rintro rfl
          exact exists' (move_source store _ _ (apart.1 next (List.mem_cons_self ..)))
        rw [move_other store _ _ _ (Ne.symm unmoved) written] at exists'
        refine ⟨next :: earlier, one, last, by rw [split]; rfl, target, ?_, exists'⟩
        intro other inside
        rcases List.mem_cons.mp inside with rfl | earlierMove
        · exact unmoved
        · exact unfreed other earlierMove
      rw [moveAll] at member
      split at member
      · exact absurd member List.not_mem_nil
      · dsimp only at member
        split at member
        · rename_i occupied
          rcases List.mem_cons.mp member with same | later
          · exact here same (Option.isSome_iff_ne_none.mp occupied)
          · exact there later
        · exact there member

/-- A name that no move writes keeps its content or loses it. -/
theorem moveAll_unwritten (blocked : Move Name → Bool) (moves : List (Move Name))
    (store : Store Name Content) (name : Name)
    (unwritten : ∀ next ∈ moves, name ≠ next.target) :
    (moveAll blocked moves store).store name = store name ∨
      (moveAll blocked moves store).store name = none := by
  induction moves generalizing store with
  | nil => exact Or.inl rfl
  | cons next rest ih =>
      rw [moveAll_cons_store]
      split
      · exact Or.inl rfl
      · have target := unwritten next (List.mem_cons_self ..)
        rcases ih (store.move next.source next.target) fun other member =>
          unwritten other (List.mem_cons_of_mem _ member) with same | gone
        · by_cases source : name = next.source
          · subst source
            exact Or.inr (same.trans (move_source store _ _ target))
          · exact Or.inl (same.trans (move_other store _ _ _ source target))
        · exact Or.inr gone

/-- The moves that are made come first, and all of them are made in the end exactly when done. -/
theorem moveAll_made (blocked : Move Name → Bool) (moves : List (Move Name))
    (store : Store Name Content) :
    ∃ made rest, moves = made ++ rest ∧ (moveAll blocked made store).done = true ∧
      (moveAll blocked moves store).store = (moveAll blocked made store).store ∧
      ((moveAll blocked moves store).done = true ↔ rest = []) := by
  induction moves generalizing store with
  | nil => exact ⟨[], [], rfl, rfl, rfl, iff_of_true rfl rfl⟩
  | cons next rest ih =>
      by_cases stops : blocked next || (store next.source).isNone
      · refine ⟨[], next :: rest, rfl, rfl, ?_, ?_⟩
        · rw [moveAll_cons_store, if_pos stops]
          rfl
        · rw [moveAll_cons_done, if_pos stops]
          exact iff_of_false (by simp) (by simp)
      · obtain ⟨made, others, split, done, same, all⟩ := ih (store.move next.source next.target)
        refine ⟨next :: made, others, by rw [split]; rfl, ?_, ?_, ?_⟩
        · rw [moveAll_cons_done, if_neg stops]
          exact done
        · rw [moveAll_cons_store, if_neg stops, moveAll_cons_store, if_neg stops]
          exact same
        · rw [moveAll_cons_done, if_neg stops]
          exact all

end Store

end CodeCollect.Library
