import Mathlib

namespace CodeCollect.Library

/-- One round of a loop over a text writes something and leaves a rest of the text. It has no
result when it moves beyond the end. -/
abbrev TextRound (Unit Output : Type*) := List Unit → Option (List Output × List Unit)

section Trailing

variable {Unit : Type*} [DecidableEq Unit]

/-- A text ends with so many units of this kind. -/
def trailing (unit : Unit) (text : List Unit) : Nat :=
  (text.reverse.takeWhile fun other => decide (other = unit)).length

variable {unit next : Unit} {rest : List Unit}

theorem trailing_le (unit : Unit) (text : List Unit) : trailing unit text ≤ text.length := by
  rw [← List.length_reverse, trailing]
  exact (List.takeWhile_prefix _).length_le

theorem trailing_cons (unit next : Unit) (rest : List Unit) :
    trailing unit (next :: rest) =
      if trailing unit rest = rest.length ∧ next = unit then rest.length + 1
      else trailing unit rest := by
  rw [trailing, List.reverse_cons, List.takeWhile_append]
  by_cases all : trailing unit rest = rest.length
  · rw [if_pos (by rw [List.length_reverse]; exact all)]
    by_cases same : next = unit
    · rw [if_pos ⟨all, same⟩]
      simp [same]
    · rw [if_neg fun both => same both.2]
      simp [same, all]
  · rw [if_neg (by rw [List.length_reverse]; exact all), if_neg fun both => all both.1]
    rfl

/-- The first unit does not count when it is another one. -/
theorem trailing_cons_of_ne (other : next ≠ unit) (rest : List Unit) :
    trailing unit (next :: rest) = trailing unit rest := by
  rw [trailing_cons, if_neg fun both => other both.2]

/-- Two units at the start do not change the parity when the first one is of this kind. -/
theorem even_trailing_pair (unit next : Unit) (rest : List Unit) :
    Even (trailing unit (unit :: next :: rest)) ↔ Even (trailing unit rest) := by
  have bound := trailing_le unit rest
  rw [Nat.even_iff, Nat.even_iff, trailing_cons unit unit, trailing_cons unit next,
    List.length_cons]
  by_cases all : trailing unit rest = rest.length ∧ next = unit
  · rw [if_pos all, if_pos ⟨rfl, rfl⟩, all.1]
    omega
  · rw [if_neg all, if_neg fun both => by omega]

theorem not_even_trailing_one (unit : Unit) : ¬ Even (trailing unit [unit]) := by
  rw [trailing_cons, if_pos ⟨rfl, rfl⟩]
  exact Nat.not_even_one

end Trailing

namespace TextRound

variable {Unit Output : Type*}

/-- The loop comes to the end of the text and has written this output then. -/
inductive Ends (round : TextRound Unit Output) : List Unit → List Output → Prop
  | done : Ends round [] []
  | more {text rest : List Unit} {written later : List Output} : text ≠ [] →
      round text = some (written, rest) → Ends round rest later →
      Ends round text (written ++ later)

/-- The loop comes to this rest of the text. -/
inductive Reaches (round : TextRound Unit Output) : List Unit → List Unit → Prop
  | start (text : List Unit) : Reaches round text text
  | more {text rest last : List Unit} {written : List Output} : text ≠ [] →
      round text = some (written, rest) → Reaches round rest last → Reaches round text last

/-- The round moves the iterator on, and not beyond the end. -/
def Advances (round : TextRound Unit Output) (text : List Unit) : Prop :=
  ∃ written rest, round text = some (written, rest) ∧ rest.length < text.length

/-- Every round of the loop moves the iterator on. -/
def Advancing (round : TextRound Unit Output) (start : List Unit) : Prop :=
  ∀ text, Reaches round start text → text ≠ [] → Advances round text

/-- The loop itself, for at most so many rounds. -/
def run (round : TextRound Unit Output) : Nat → List Unit → Option (List Output)
  | _, [] => some []
  | 0, _ :: _ => none
  | fuel + 1, text => (round text).bind fun (written, rest) =>
      (run round fuel rest).map fun later => written ++ later

variable {round : TextRound Unit Output} {text rest last : List Unit} {written : List Output}

theorem run_nil (fuel : Nat) : run round fuel [] = some [] := by
  cases fuel <;> rfl

theorem run_succ (fuel : Nat) (going : text ≠ []) :
    run round (fuel + 1) text = (round text).bind fun (written, rest) =>
      (run round fuel rest).map fun later => written ++ later := by
  cases text with
  | nil => exact absurd rfl going
  | cons _ _ => rfl

/-- The loop ends exactly when it does so after some number of rounds. -/
theorem ends_iff_run {output : List Output} :
    Ends round text output ↔ ∃ fuel, run round fuel text = some output := by
  constructor
  · intro ends
    induction ends with
    | done => exact ⟨0, rfl⟩
    | more going taken _ ih =>
        obtain ⟨fuel, ran⟩ := ih
        refine ⟨fuel + 1, ?_⟩
        rw [run_succ fuel going, taken, Option.bind_some]
        dsimp only
        rw [ran, Option.map_some]
  · intro ran
    obtain ⟨fuel, ran⟩ := ran
    induction fuel generalizing text output with
    | zero =>
        cases text with
        | nil =>
            obtain rfl := Option.some.inj ran
            exact .done
        | cons _ _ => exact absurd ran (by simp [run])
    | succ fuel ih =>
        by_cases going : text = []
        · subst going
          obtain rfl := Option.some.inj ran
          exact .done
        · rw [run_succ fuel going] at ran
          obtain ⟨⟨written, rest⟩, taken, ran⟩ := Option.bind_eq_some_iff.mp ran
          obtain ⟨later, later_ran, rfl⟩ := Option.map_eq_some_iff.mp ran
          exact .more going taken (ih later_ran)

/-- The first round decides how the loop goes on. -/
theorem ends_iff (going : text ≠ []) (taken : round text = some (written, rest))
    {output : List Output} :
    Ends round text output ↔ ∃ later, output = written ++ later ∧ Ends round rest later := by
  constructor
  · intro ends
    cases ends with
    | done => exact absurd rfl going
    | more _ other ends =>
        obtain ⟨rfl, rfl⟩ := Prod.mk.inj (Option.some.inj (taken.symm.trans other))
        exact ⟨_, rfl, ends⟩
  · intro goes
    obtain ⟨later, rfl, ends⟩ := goes
    exact .more going taken ends

theorem ends_nil_iff {output : List Output} : Ends round [] output ↔ output = [] := by
  constructor
  · intro ends
    cases ends with
    | done => rfl
    | more going _ _ => exact absurd rfl going
  · rintro rfl
    exact .done

/-- A loop has one output. -/
theorem Ends.unique {first second : List Output} (ends : Ends round text first)
    (other : Ends round text second) : first = second := by
  induction ends generalizing second with
  | done => exact (ends_nil_iff.mp other).symm
  | more going taken _ ih =>
      obtain ⟨later, rfl, others⟩ := (ends_iff going taken).mp other
      rw [ih others]

/-- A round beyond the end is the end of all rounds. -/
theorem Ends.taken {output : List Output} (ends : Ends round text output) (going : text ≠ []) :
    round text ≠ none := by
  intro overrun
  cases ends with
  | done => exact going rfl
  | more _ taken _ => exact Option.some_ne_none _ (taken.symm.trans overrun)

/-- A loop that stays where it is does not end. -/
theorem Ends.moves {output : List Output} (ends : Ends round text output) (going : text ≠ [])
    (written : List Output) : round text ≠ some (written, text) := by
  intro stalls
  induction ends with
  | done => exact going rfl
  | more _ taken _ ih =>
      obtain ⟨rfl, rfl⟩ := Prod.mk.inj (Option.some.inj (taken.symm.trans stalls))
      exact ih going stalls

/-- A loop that ends goes on to its end from everywhere. -/
theorem Ends.reached {output : List Output} (ends : Ends round text output)
    (reached : Reaches round text last) : ∃ later, Ends round last later := by
  induction reached generalizing output with
  | start => exact ⟨output, ends⟩
  | more going taken _ ih =>
      obtain ⟨later, _, ends⟩ := (ends_iff going taken).mp ends
      exact ih ends

theorem Advancing.onward (advancing : Advancing round text) (going : text ≠ [])
    (taken : round text = some (written, rest)) : Advancing round rest :=
  fun last reached => advancing last (.more going taken reached)

theorem advancing_nil : Advancing round [] := by
  intro text reached going
  cases reached with
  | start => exact absurd rfl going
  | more other _ _ => exact absurd rfl other

/-- The first round and all others move on. -/
theorem advancing_iff (going : text ≠ []) (taken : round text = some (written, rest)) :
    Advancing round text ↔ rest.length < text.length ∧ Advancing round rest := by
  constructor
  · intro advancing
    obtain ⟨_, _, other, shorter⟩ := advancing text (.start text) going
    obtain ⟨_, rfl⟩ := Prod.mk.inj (Option.some.inj (taken.symm.trans other))
    exact ⟨shorter, advancing.onward going taken⟩
  · intro both last reached lastGoing
    cases reached with
    | start => exact ⟨written, rest, taken, both.1⟩
    | more _ other reached =>
        obtain ⟨_, rfl⟩ := Prod.mk.inj (Option.some.inj (taken.symm.trans other))
        exact both.2 last reached lastGoing

/-- A loop that always moves on comes to the end. -/
theorem Advancing.ends (advancing : Advancing round text) : ∃ output, Ends round text output := by
  induction bound : text.length using Nat.strong_induction_on generalizing text with
  | _ length ih =>
      by_cases going : text = []
      · subst going
        exact ⟨[], .done⟩
      · obtain ⟨written, rest, taken, shorter⟩ := advancing text (.start text) going
        obtain ⟨later, ends⟩ := ih rest.length (bound ▸ shorter) (advancing.onward going taken) rfl
        exact ⟨written ++ later, .more going taken ends⟩

/-- A text of blocks that are read as wholes is read block by block. -/
theorem ends_blocks {Item : Type*} (source : Item → List Unit) (image : Item → List Output)
    {items : List Item} (nonempty : ∀ item ∈ items, source item ≠ [])
    (read : ∀ item ∈ items, ∀ rest, round (source item ++ rest) = some (image item, rest))
    {rest : List Unit} {output : List Output} :
    Ends round (items.flatMap source ++ rest) output ↔
      ∃ later, output = items.flatMap image ++ later ∧ Ends round rest later := by
  induction items generalizing output with
  | nil => simp
  | cons item items ih =>
      have going : source item ++ (items.flatMap source ++ rest) ≠ [] := by
        simp [nonempty item List.mem_cons_self]
      rw [List.flatMap_cons, List.append_assoc,
        ends_iff going (read item List.mem_cons_self _)]
      have tail : ∀ output, Ends round (items.flatMap source ++ rest) output ↔
          ∃ later, output = items.flatMap image ++ later ∧ Ends round rest later :=
        fun output => ih (fun other member => nonempty other (List.mem_cons_of_mem _ member))
          fun other member => read other (List.mem_cons_of_mem _ member)
      constructor
      · intro goes
        obtain ⟨middle, rfl, ends⟩ := goes
        obtain ⟨later, rfl, onward⟩ := (tail _).mp ends
        exact ⟨later, by rw [List.flatMap_cons, List.append_assoc], onward⟩
      · intro goes
        obtain ⟨later, rfl, ends⟩ := goes
        refine ⟨items.flatMap image ++ later, ?_, (tail _).mpr ⟨later, rfl, ends⟩⟩
        rw [List.flatMap_cons, List.append_assoc]

/-- Concatenations of parts that are not longer are the same only part by part. -/
theorem flatMap_eq_iff_of_length_le {Item : Type*} {first second : Item → List Output}
    {items : List Item} (shorter : ∀ item ∈ items, (first item).length ≤ (second item).length) :
    items.flatMap first = items.flatMap second ↔ ∀ item ∈ items, first item = second item := by
  have lengths : ∀ items : List Item,
      (∀ item ∈ items, (first item).length ≤ (second item).length) →
        (items.flatMap first).length ≤ (items.flatMap second).length := by
    intro items shorter
    rw [List.length_flatMap, List.length_flatMap]
    exact List.sum_le_sum shorter
  induction items with
  | nil => simp
  | cons item items ih =>
      rw [List.forall_mem_cons] at shorter
      rw [List.flatMap_cons, List.flatMap_cons, List.forall_mem_cons]
      refine Iff.trans ?_ (and_congr_right fun _ => ih shorter.2)
      constructor
      · intro same
        have total := congrArg List.length same
        rw [List.length_append, List.length_append] at total
        have tail := lengths items shorter.2
        exact List.append_inj same (by have head := shorter.1; omega)
      · intro both
        rw [both.1, both.2]

/-- A loop that writes nothing for what it cannot read writes all blocks exactly when it reads
all of them as they are. -/
theorem ends_silent_iff {Item : Type*} {source : Item → List Unit}
    {image standard : Item → List Output} {readable : Item → Prop} {items : List Item}
    (nonempty : ∀ item, source item ≠ [])
    (read : ∀ item, readable item → ∀ rest, round (source item ++ rest) = some (image item, rest))
    (unread : ∀ item, ¬ readable item → ∀ rest, ∃ next,
      round (source item ++ rest) = some ([], next) ∧ (next = source item ++ rest ∨ next = rest))
    (shorter : ∀ item, (image item).length ≤ (standard item).length)
    (written : ∀ item, standard item ≠ []) :
    Ends round (items.flatMap source) (items.flatMap standard) ↔
      ∀ item ∈ items, readable item ∧ image item = standard item := by
  classical
  constructor
  · intro ends
    have output : ∀ output, Ends round (items.flatMap source) output →
        output = items.flatMap fun item => if readable item then image item else [] := by
      clear ends
      induction items with
      | nil => exact fun output ends => ends_nil_iff.mp ends
      | cons item items ih =>
          intro output ends
          rw [List.flatMap_cons] at ends ⊢
          have going : source item ++ items.flatMap source ≠ [] := by simp [nonempty item]
          by_cases can : readable item
          · obtain ⟨later, same, onward⟩ := (ends_iff going (read item can _)).mp ends
            rw [if_pos can, same, ih later onward]
          · obtain ⟨next, taken, rfl | rfl⟩ := unread item can (items.flatMap source)
            · exact absurd taken (ends.moves going [])
            · obtain ⟨later, same, onward⟩ := (ends_iff going taken).mp ends
              rw [if_neg can, same, ih later onward]
    have kept : ∀ item ∈ items, (if readable item then image item else []) = standard item := by
      rw [← flatMap_eq_iff_of_length_le, output _ ends]
      intro item _
      split
      · exact shorter item
      · exact Nat.zero_le _
    intro item member
    have same := kept item member
    split at same
    · rename_i can
      exact ⟨can, same⟩
    · exact absurd same.symm (written item)
  · intro kept
    have readAll : ∀ item ∈ items, ∀ rest,
        round (source item ++ rest) = some (standard item, rest) := by
      intro item member rest
      obtain ⟨can, same⟩ := kept item member
      rw [read item can, same]
    have ends := (ends_blocks source standard (fun item _ => nonempty item) readAll).mpr
      ⟨[], rfl, Ends.done⟩
    rwa [List.append_nil, List.append_nil] at ends

/-- A text of blocks is read block by block when each one is read in front of others. -/
theorem ends_items {Item : Type*} {source : Item → List Unit} {image : Item → List Output}
    (nonempty : ∀ item, source item ≠ [])
    (read : ∀ item (others : List Item), round (source item ++ others.flatMap source) =
      some (image item, others.flatMap source)) (items : List Item) :
    Ends round (items.flatMap source) (items.flatMap image) := by
  induction items with
  | nil => exact .done
  | cons item items ih =>
      rw [List.flatMap_cons, List.flatMap_cons]
      exact .more (by simp [nonempty item]) (read item items) ih

/-- So many rounds lead from one rest of the text to another one. -/
inductive Steps (round : TextRound Unit Output) : Nat → List Unit → List Output → List Unit → Prop
  | none (text : List Unit) : Steps round 0 text [] text
  | more {count : Nat} {text rest last : List Unit} {written later : List Output} : text ≠ [] →
      round text = some (written, rest) → Steps round count rest later last →
      Steps round (count + 1) text (written ++ later) last

theorem Steps.one (going : text ≠ []) (taken : round text = some (written, rest)) :
    Steps round 1 text written rest := by
  have step := Steps.more going taken (.none rest)
  rwa [List.append_nil] at step

/-- Rounds may follow other rounds. -/
theorem Steps.trans {first second : Nat} {output later : List Output} {middle : List Unit}
    (steps : Steps round first text output middle) (others : Steps round second middle later last) :
    Steps round (first + second) text (output ++ later) last := by
  induction steps with
  | none => rwa [Nat.zero_add]
  | more going taken _ ih =>
      rw [Nat.succ_add, List.append_assoc]
      exact .more going taken (ih others)

theorem Steps.ends {count : Nat} {output later : List Output}
    (steps : Steps round count text output last) (ends : Ends round last later) :
    Ends round text (output ++ later) := by
  induction steps with
  | none => exact ends
  | more going taken _ ih =>
      rw [List.append_assoc]
      exact .more going taken (ih ends)

theorem Ends.steps {output : List Output} (ends : Ends round text output) :
    ∃ count, Steps round count text output [] := by
  induction ends with
  | done => exact ⟨0, .none []⟩
  | more going taken _ ih =>
      obtain ⟨count, steps⟩ := ih
      exact ⟨count + 1, .more going taken steps⟩

/-- Some rounds are the first ones of all rounds to the end. -/
theorem Steps.onward {count all : Nat} {output whole : List Output}
    (steps : Steps round count text output last) (others : Steps round all text whole []) :
    ∃ left later, all = count + left ∧ whole = output ++ later ∧
      Steps round left last later [] := by
  induction steps generalizing all whole with
  | none => exact ⟨all, whole, (Nat.zero_add _).symm, rfl, others⟩
  | more going taken _ ih =>
      cases others with
      | none => exact absurd rfl going
      | more _ other others =>
          obtain ⟨rfl, rfl⟩ := Prod.mk.inj (Option.some.inj (taken.symm.trans other))
          obtain ⟨left, later, rfl, rfl, steps⟩ := ih others
          exact ⟨left, later, by omega, (List.append_assoc ..).symm, steps⟩

/-- When each round of a loop makes one or more rounds of another loop, the two loops end alike. -/
theorem ends_bundles {outer inner : TextRound Unit Output}
    (bundle : ∀ text, text ≠ [] → ∃ count written rest, outer text = some (written, rest) ∧
      Steps inner (count + 1) text written rest) {output : List Output} :
    Ends outer text output ↔ Ends inner text output := by
  constructor
  · intro ends
    induction ends with
    | done => exact .done
    | more going taken _ ih =>
        obtain ⟨count, written, rest, other, steps⟩ := bundle _ going
        obtain ⟨rfl, rfl⟩ := Prod.mk.inj (Option.some.inj (taken.symm.trans other))
        exact steps.ends ih
  · intro ends
    obtain ⟨all, others⟩ := ends.steps
    induction all using Nat.strong_induction_on generalizing text output with
    | _ all ih =>
        by_cases going : text = []
        · subst going
          obtain rfl := ends_nil_iff.mp ends
          exact .done
        · obtain ⟨count, written, rest, taken, steps⟩ := bundle text going
          obtain ⟨left, later, rfl, rfl, onward⟩ := steps.onward others
          apply Ends.more going taken
          refine ih left (by omega) ?_ onward
          have finished := onward.ends .done
          rwa [List.append_nil] at finished

end TextRound

end CodeCollect.Library
