import Mathlib

namespace CodeCollect.Library.PointerJumping

variable {Place Height : Type}

/-- The walk from a place ends at the last place before the property fails. -/
inductive Ends (step : Place → Option Place) (holds : Place → Prop) : Place → Place → Prop
  | stop {place : Place} (here : holds place)
      (beyond : ∀ next, step place = some next → ¬ holds next) : Ends step holds place place
  | further {place next finish : Place} (here : holds place) (onward : step place = some next)
      (rest : Ends step holds next finish) : Ends step holds place finish

/-- The places of an array are written one by one. -/
def write [DecidableEq Place] {Value : Type} (array : Place → Option Value) (place : Place)
    (value : Value) : Place → Option Value :=
  Function.update array place (some value)

section Walks

variable {step : Place → Option Place} {holds weaker : Place → Prop} {place finish : Place}

theorem Ends.holds_finish (ends : Ends step holds place finish) : holds finish := by
  induction ends with
  | stop here _ => exact here
  | further _ _ _ ih => exact ih

/-- A walk goes on from the end of a walk with a stronger property. -/
theorem Ends.trans (ends : Ends step holds place finish) (weaken : ∀ p, holds p → weaker p)
    {last : Place} (rest : Ends step weaker finish last) : Ends step weaker place last := by
  induction ends with
  | stop _ _ => exact rest
  | further here onward _ ih => exact .further (weaken _ here) onward (ih rest)

/-- A walk stays in a set that the steps do not leave. -/
theorem Ends.mem (ends : Ends step holds place finish) {visited : Place → Prop}
    (closed : ∀ p, visited p → ∀ next, step p = some next → visited next)
    (inside : visited place) : visited finish := by
  induction ends with
  | stop _ _ => exact inside
  | further _ onward _ ih => exact ih (closed _ inside _ onward)

theorem Ends.rank_le (ends : Ends step holds place finish) {rank : Place → Nat}
    (descends : ∀ p next, step p = some next → rank next < rank p) :
    rank finish ≤ rank place := by
  induction ends with
  | stop _ _ => exact le_rfl
  | further _ onward _ ih => exact ih.trans (descends _ _ onward).le

end Walks

variable [LinearOrder Height]

/-- The loop jumps over all places that the next place already spans. An array gives nothing for a
place it does not have. -/
def jump (step : Place → Option Place) (height : Place → Option Height)
    (link : Place → Option Place) (level : Height) : Nat → Place → Option Place
  | 0, _ => none
  | fuel + 1, place =>
      match step place with
      | none => some place
      | some beyond => do
          if level ≤ (← height beyond) then jump step height link level fuel (← link beyond)
          else return place

/-- The links are written in order. -/
def links [DecidableEq Place] (step : Place → Option Place) (height : Place → Option Height)
    (fuel : Nat) (order : List Place) (link : Place → Option Place) :
    Option (Place → Option Place) :=
  order.foldlM (fun link place => do
    let level ← height place
    let finish ← jump step height (write link place place) level fuel place
    return write link place finish) link

/-- A place is at least as high as a level. -/
def AtLeast (height : Place → Option Height) (level : Height) (place : Place) : Prop :=
  ∃ there, height place = some there ∧ level ≤ there

/-- A link ends the walk over places that are not lower. -/
def Spans (step : Place → Option Place) (height : Place → Option Height)
    (link : Place → Option Place) (place : Place) : Prop :=
  ∃ level finish, height place = some level ∧ link place = some finish ∧
    Ends step (AtLeast height level) place finish

/-- Each place stands behind the place that it steps to. -/
inductive Ordered (step : Place → Option Place) : List Place → Prop
  | nil : Ordered step []
  | snoc {before : List Place} {place : Place} (ordered : Ordered step before)
      (ready : ∀ next, step place = some next → next ∈ before) : Ordered step (before ++ [place])

variable {step : Place → Option Place} {height : Place → Option Height}

theorem Ordered.closed {order : List Place} (ordered : Ordered step order) :
    ∀ place ∈ order, ∀ next, step place = some next → next ∈ order := by
  induction ordered with
  | nil => exact fun place member => absurd member List.not_mem_nil
  | snoc _ ready ih =>
      intro place member next onward
      rcases List.mem_append.mp member with earlier | last
      · exact List.mem_append_left _ (ih place earlier next onward)
      · rw [List.mem_singleton.mp last] at onward
        exact List.mem_append_left _ (ready next onward)

/-- The loop ends with enough fuel, and it ends where the walk does. -/
theorem jump_ends {link : Place → Option Place} {level : Height} {visited : Place → Prop}
    {rank : Place → Nat} (descends : ∀ p next, step p = some next → rank next < rank p)
    (closed : ∀ p, visited p → ∀ next, step p = some next → visited next)
    (spans : ∀ p, visited p → Spans step height link p) (fuel : Nat) {place : Place}
    (ready : ∀ next, step place = some next → visited next)
    (here : AtLeast height level place) (enough : rank place < fuel) :
    ∃ finish, jump step height link level fuel place = some finish ∧
      Ends step (AtLeast height level) place finish := by
  induction fuel generalizing place with
  | zero => exact absurd enough (Nat.not_lt_zero _)
  | succ fuel ih =>
      rw [jump]
      cases onward : step place with
      | none =>
          refine ⟨place, rfl, .stop here fun next impossible => ?_⟩
          rw [onward] at impossible
          exact absurd impossible nofun
      | some beyond =>
          obtain ⟨there, finish, high, linked, walk⟩ := spans beyond (ready beyond onward)
          simp only [high, linked, Option.bind_eq_bind, Option.bind_some]
          by_cases reaches : level ≤ there
          · have weaken (p : Place) (least : AtLeast height there p) : AtLeast height level p := by
              obtain ⟨top, found, above⟩ := least
              exact ⟨top, found, reaches.trans above⟩
            have inside : visited finish := walk.mem closed (ready beyond onward)
            have shorter : rank finish < fuel := by
              have first := descends place beyond onward
              have later := walk.rank_le descends
              omega
            obtain ⟨last, result, rest⟩ :=
              ih (closed finish inside) (weaken finish walk.holds_finish) shorter
            rw [if_pos reaches, result]
            exact ⟨last, rfl, .further here onward (walk.trans weaken rest)⟩
          · rw [if_neg reaches]
            refine ⟨place, rfl, .stop here fun next same => ?_⟩
            rw [onward] at same
            rintro ⟨top, found, above⟩
            rw [← Option.some.inj same, high] at found
            exact reaches (Option.some.inj found ▸ above)

/-- All links are found, and each of them ends the walk from its place. -/
theorem links_span [DecidableEq Place] (rank : Place → Nat)
    (descends : ∀ p next, step p = some next → rank next < rank p) {order : List Place}
    (ordered : Ordered step order) (distinct : order.Nodup)
    (filled : ∀ place ∈ order, ∃ level, height place = some level) {fuel : Nat}
    (enough : ∀ place ∈ order, rank place < fuel) (link : Place → Option Place) :
    ∃ linked, links step height fuel order link = some linked ∧
      (∀ place ∈ order, Spans step height linked place) ∧
      ∀ place ∉ order, linked place = link place := by
  induction ordered with
  | nil => exact ⟨link, rfl, fun place member => absurd member List.not_mem_nil, fun _ _ => rfl⟩
  | @snoc before place ordered ready ih =>
      rw [List.forall_mem_append, List.forall_mem_singleton] at filled enough
      rw [List.nodup_append] at distinct
      have fresh : place ∉ before := fun member =>
        distinct.2.2 place member place (List.mem_singleton_self _) rfl
      obtain ⟨linked, found, spans, others⟩ := ih distinct.1 filled.1 enough.1
      obtain ⟨level, high⟩ := filled.2
      have kept (value p : Place) (member : p ∈ before) :
          Spans step height (write linked place value) p := by
        obtain ⟨there, finish, top, linkedTo, walk⟩ := spans p member
        have apart : p ≠ place := by
          rintro rfl
          exact fresh member
        exact ⟨there, finish, top, (Function.update_of_ne apart _ _).trans linkedTo, walk⟩
      obtain ⟨finish, jumped, walk⟩ := jump_ends descends ordered.closed (kept place) fuel ready
        ⟨level, high, le_rfl⟩ enough.2
      refine ⟨write linked place finish, ?_, ?_, ?_⟩
      · rw [links] at found ⊢
        rw [List.foldlM_append, found]
        simp [high, jumped]
      · rw [List.forall_mem_append, List.forall_mem_singleton]
        exact ⟨kept finish, level, finish, high, Function.update_self _ _ _, walk⟩
      · intro p outside
        rw [List.mem_append, not_or, List.mem_singleton] at outside
        exact (Function.update_of_ne outside.2 _ _).trans (others p outside.1)

end CodeCollect.Library.PointerJumping
