import CodeCollect.Log4cxx.LogString

namespace CodeCollect.Log4cxx.FileAppender

def backslash : Char := '\\'

/-- This is `find_last_of`, with a bound that is one more than its last place to look at. -/
def findLastOf (tmp : LogString) (c : Char) : Nat → Option Nat
  | 0 => none
  | bound + 1 => if tmp[bound]? = some c then some bound else findLastOf tmp c bound

theorem findLastOf_le (tmp : LogString) (c : Char) (bound : Nat) :
    (findLastOf tmp c bound).getD 0 ≤ bound := by
  induction bound with
  | zero => exact le_rfl
  | succ bound ih =>
      rw [findLastOf]
      split
      · exact bound.le_succ
      · exact ih.trans bound.le_succ

/-- This is the loop of `stripDuplicateBackslashes`. -/
def stripFrom (src tmp : LogString) (i : Option Nat) : LogString :=
  match i with
  | none | some 0 => tmp
  | some (i + 1) =>
      if tmp[i]? = some backslash then
        let tmp := tmp.eraseIdx (i + 1)
        if i = 0 then tmp else stripFrom src tmp (findLastOf tmp backslash i)
      else src
termination_by i.getD 0
decreasing_by exact Nat.lt_succ_of_le (findLastOf_le _ backslash i)

def stripDuplicateBackslashes (src : LogString) : LogString :=
  match findLastOf src backslash src.length with
  | none => src
  | some i => stripFrom src src (some i)

/-- A path has backslashes at its start and behind each of its other characters. -/
structure SplitPath where
  leading : Nat
  parts : List (Char × Nat)
  plain : ∀ part ∈ parts, part.1 ≠ backslash

namespace SplitPath

def textOf (leading : Nat) (parts : List (Char × Nat)) : LogString :=
  List.replicate leading backslash ++
    parts.flatMap fun part => part.1 :: List.replicate part.2 backslash

def text (self : SplitPath) : LogString := textOf self.leading self.parts

/-- Each run of backslashes is halved, and half a backslash at the start counts as one. -/
def halved (self : SplitPath) : LogString :=
  textOf ((self.leading + 1) / 2) (self.parts.map fun part => (part.1, part.2 / 2))

end SplitPath

/-- When the loop goes on it looks at the places before the kept backslash. -/
theorem stripFrom_succ (src tmp : LogString) (i : Nat) :
    stripFrom src tmp (some (i + 1)) =
      if tmp[i]? = some backslash then
        stripFrom src (tmp.eraseIdx (i + 1)) (findLastOf (tmp.eraseIdx (i + 1)) backslash i)
      else src := by
  rw [stripFrom]
  split
  · split
    · rename_i zero
      rw [zero, findLastOf, stripFrom]
    · rfl
  · rfl

section Runs

variable (src : LogString) {front done : LogString} {c : Char}

/-- Characters other than backslashes are passed. -/
theorem findLastOf_plain (plain : c ≠ backslash) :
    findLastOf (front ++ [c] ++ done) backslash (front.length + 1) =
      findLastOf (front ++ [c] ++ done) backslash front.length := by
  rw [findLastOf, if_neg]
  intro found
  rw [List.append_assoc, List.getElem?_append_right le_rfl, Nat.sub_self] at found
  exact plain (Option.some.inj found)

/-- A pair of backslashes at the end of a run becomes one. -/
theorem stripFrom_pair (count : Nat) :
    stripFrom src (front ++ List.replicate (count + 2) backslash ++ done)
        (findLastOf (front ++ List.replicate (count + 2) backslash ++ done) backslash
          (front.length + (count + 2))) =
      stripFrom src (front ++ List.replicate count backslash ++ backslash :: done)
        (findLastOf (front ++ List.replicate count backslash ++ backslash :: done) backslash
          (front.length + count)) := by
  have text : front ++ List.replicate (count + 2) backslash ++ done =
      (front ++ List.replicate count backslash) ++ backslash :: backslash :: done := by
    simp [List.replicate_add]
  have length : (front ++ List.replicate count backslash).length = front.length + count := by
    simp
  rw [text]
  generalize front ++ List.replicate count backslash = before at length
  have found : findLastOf (before ++ backslash :: backslash :: done) backslash
      (before.length + 2) = some (before.length + 1) := by
    rw [findLastOf, if_pos]
    rw [List.getElem?_append_right (Nat.le_add_right _ 1), Nat.add_sub_cancel_left]
    rfl
  have pair : (before ++ backslash :: backslash :: done)[before.length]? = some backslash := by
    rw [List.getElem?_append_right le_rfl, Nat.sub_self]
    rfl
  have erased : (before ++ backslash :: backslash :: done).eraseIdx (before.length + 1) =
      before ++ backslash :: done := by
    rw [List.eraseIdx_append_of_length_le (Nat.le_add_right _ 1), Nat.add_sub_cancel_left]
    rfl
  rw [← Nat.add_assoc, ← length, found, stripFrom_succ, if_pos pair, erased]

theorem stripFrom_even (half : Nat) :
    stripFrom src (front ++ List.replicate (2 * half) backslash ++ done)
        (findLastOf (front ++ List.replicate (2 * half) backslash ++ done) backslash
          (front.length + 2 * half)) =
      stripFrom src (front ++ List.replicate half backslash ++ done)
        (findLastOf (front ++ List.replicate half backslash ++ done) backslash front.length) := by
  induction half generalizing done with
  | zero => rfl
  | succ half ih =>
      have more : front ++ List.replicate half backslash ++ backslash :: done =
          front ++ List.replicate (half + 1) backslash ++ done := by
        rw [List.replicate_succ', List.append_assoc, List.append_assoc, List.append_assoc]
        rfl
      rw [Nat.mul_succ, stripFrom_pair, ih, more]

/-- A run of odd length behind another character makes the loop give up. -/
theorem stripFrom_odd (plain : c ≠ backslash) (half : Nat) :
    stripFrom src (front ++ [c] ++ List.replicate (2 * half + 1) backslash ++ done)
        (findLastOf (front ++ [c] ++ List.replicate (2 * half + 1) backslash ++ done) backslash
          ((front ++ [c]).length + (2 * half + 1))) = src := by
  have first : front ++ [c] ++ List.replicate (2 * half + 1) backslash =
      front ++ [c] ++ [backslash] ++ List.replicate (2 * half) backslash := by
    rw [List.append_assoc _ [backslash], Nat.add_comm, List.replicate_add]
    rfl
  have length : (front ++ [c]).length + (2 * half + 1) =
      (front ++ [c] ++ [backslash]).length + 2 * half := by
    simp only [List.length_append, List.length_singleton]
    omega
  rw [first, length, stripFrom_even]
  have text : front ++ [c] ++ [backslash] ++ List.replicate half backslash ++ done =
      front ++ c :: backslash :: (List.replicate half backslash ++ done) := by
    simp
  have bound : (front ++ [c] ++ [backslash]).length = front.length + 1 + 1 := by
    simp
  have last : (front ++ c :: backslash :: (List.replicate half backslash ++ done))[
      front.length + 1]? = some backslash := by
    rw [List.getElem?_append_right (Nat.le_add_right _ 1), Nat.add_sub_cancel_left]
    rfl
  have before : (front ++ c :: backslash :: (List.replicate half backslash ++ done))[
      front.length]? = some c := by
    rw [List.getElem?_append_right le_rfl, Nat.sub_self]
    rfl
  rw [text, bound, findLastOf, if_pos last, stripFrom_succ, before, if_neg]
  exact fun same => plain (Option.some.inj same)

/-- The run at the start keeps the larger half. -/
theorem stripFrom_leading (leading : Nat) :
    stripFrom src (List.replicate leading backslash ++ done)
        (findLastOf (List.replicate leading backslash ++ done) backslash leading) =
      List.replicate ((leading + 1) / 2) backslash ++ done := by
  rcases Nat.even_or_odd' leading with ⟨half, rfl | rfl⟩
  · have pairs := @stripFrom_even src [] done half
    rw [List.nil_append, List.nil_append, List.length_nil, Nat.zero_add] at pairs
    have size : (2 * half + 1) / 2 = half := by omega
    rw [pairs, findLastOf, stripFrom, size]
  · have pairs := @stripFrom_even src [backslash] done half
    have size : (2 * half + 1 + 1) / 2 = half + 1 := by omega
    rw [List.length_singleton, Nat.add_comm 1] at pairs
    rw [size, List.replicate_succ, List.replicate_succ]
    refine pairs.trans ?_
    have first : ([backslash] ++ List.replicate half backslash ++ done)[0]? = some backslash := rfl
    rw [findLastOf, if_pos first, stripFrom]
    rfl

end Runs

open SplitPath

/-- The loop halves the runs from the last one on, or it gives up at an odd one. -/
theorem stripFrom_parts (src : LogString) (leading : Nat) (parts : List (Char × Nat))
    (plain : ∀ part ∈ parts, part.1 ≠ backslash) (done : LogString) :
    stripFrom src (textOf leading parts ++ done)
        (findLastOf (textOf leading parts ++ done) backslash (textOf leading parts).length) =
      if ∀ part ∈ parts, Even part.2 then
        textOf ((leading + 1) / 2) (parts.map fun part => (part.1, part.2 / 2)) ++ done
      else src := by
  induction parts using List.reverseRecOn generalizing done with
  | nil =>
      rw [if_pos (by simp), textOf, List.flatMap_nil, List.append_nil, List.length_replicate,
        stripFrom_leading]
      simp [textOf]
  | append_singleton parts part ih =>
      obtain ⟨c, count⟩ := part
      rw [List.forall_mem_append, List.forall_mem_singleton] at plain
      have text : textOf leading (parts ++ [(c, count)]) =
          textOf leading parts ++ [c] ++ List.replicate count backslash := by
        simp [textOf]
      have length : (textOf leading (parts ++ [(c, count)])).length =
          (textOf leading parts ++ [c]).length + count := by
        rw [text, List.length_append, List.length_replicate]
      rw [length, text]
      rcases Nat.even_or_odd' count with ⟨half, rfl | rfl⟩
      · have onward := ih plain.1 (c :: (List.replicate half backslash ++ done))
        have joined : textOf leading parts ++ [c] ++ List.replicate half backslash ++ done =
            textOf leading parts ++ [c] ++ (List.replicate half backslash ++ done) :=
          List.append_assoc _ _ _
        rw [stripFrom_even, joined, List.length_append, List.length_singleton,
          findLastOf_plain plain.2, List.append_assoc, List.singleton_append, onward]
        have halved : 2 * half / 2 = half := by omega
        have evens : (∀ part ∈ parts ++ [(c, 2 * half)], Even part.2) ↔
            ∀ part ∈ parts, Even part.2 := by
          rw [List.forall_mem_append, List.forall_mem_singleton]
          exact and_iff_left (even_two_mul half)
        simp only [evens]
        split
        · simp [textOf, halved]
        · rfl
      · rw [stripFrom_odd src plain.2, if_neg]
        intro even
        have odd := even (c, 2 * half + 1) (by simp)
        exact absurd odd (Nat.not_even_iff_odd.mpr ⟨half, rfl⟩)

/-- Each text is the text of such a path. -/
theorem exists_path (src : LogString) : ∃ path : SplitPath, path.text = src := by
  induction src using List.reverseRecOn with
  | nil => exact ⟨⟨0, [], by simp⟩, rfl⟩
  | append_singleton src c ih =>
      obtain ⟨⟨leading, parts, plain⟩, rfl⟩ := ih
      by_cases slash : c = backslash
      · rcases List.eq_nil_or_concat parts with rfl | ⟨front, last, rfl⟩
        · refine ⟨⟨leading + 1, [], plain⟩, ?_⟩
          simp [text, textOf, slash, List.replicate_succ']
        · rw [List.concat_eq_append, List.forall_mem_append, List.forall_mem_singleton] at plain
          refine ⟨⟨leading, front ++ [(last.1, last.2 + 1)], ?_⟩, ?_⟩
          · rw [List.forall_mem_append, List.forall_mem_singleton]
            exact plain
          · simp [text, textOf, slash, List.replicate_succ']
      · refine ⟨⟨leading, parts ++ [(c, 0)], ?_⟩, ?_⟩
        · rw [List.forall_mem_append, List.forall_mem_singleton]
          exact ⟨plain, slash⟩
        · simp [text, textOf]

/-- The backslashes are halved unless a run behind the start has odd length. -/
theorem strips_runs : (∀ src, ∃ path : SplitPath, path.text = src) ∧
    ∀ path : SplitPath, stripDuplicateBackslashes path.text =
      if ∀ part ∈ path.parts, Even part.2 then path.halved else path.text := by
  refine ⟨exists_path, fun path => ?_⟩
  have loop : stripDuplicateBackslashes path.text =
      stripFrom path.text path.text (findLastOf path.text backslash path.text.length) := by
    rw [stripDuplicateBackslashes]
    split
    · rename_i none
      rw [none, stripFrom]
    · rename_i found
      rw [found]
  have runs := stripFrom_parts path.text path.leading path.parts path.plain []
  rw [List.append_nil, List.append_nil] at runs
  exact loop.trans runs

end CodeCollect.Log4cxx.FileAppender
