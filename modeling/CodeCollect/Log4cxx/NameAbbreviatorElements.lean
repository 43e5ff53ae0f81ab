import CodeCollect.Log4cxx.NameAbbreviator

namespace CodeCollect.Log4cxx.NameAbbreviator

open StringHelper (NUL)

/-- The elements of a name stand between its dots. -/
def elements (name : LogString) : List LogString := name.splitOn '.'

def joined (parts : List LogString) : LogString := List.intercalate ['.'] parts

/-- The last character of a name separates nothing, and a dot there belongs to the last element. -/
def pathElements (name : LogString) : List LogString :=
  (elements name.dropLast).modifyLast (· ++ name.getLast?.toList)

/-- An element is cut when it is too long, and the ellipsis shows the cut. -/
def PatternAbbreviatorFragment.shortened (self : PatternAbbreviatorFragment)
    (element : LogString) : LogString :=
  if element.length > self.charCount then
    element.take self.charCount ++ if self.ellipsis = NUL then [] else [self.ellipsis]
  else element

/-- All elements but the last are shortened. -/
def shortenedBy (serving : Nat → PatternAbbreviatorFragment) (parts : List LogString) :
    List LogString :=
  parts.mapIdx fun i element =>
    if i + 1 < parts.length then (serving i).shortened element else element

/-- The last fragment serves all elements beyond the list. -/
def PatternAbbreviator.serving (self : PatternAbbreviator) (i : Nat) : PatternAbbreviatorFragment :=
  self.fragments.getD i (self.fragments.getLast self.filled)

theorem not_mem_elements (name : LogString) : ∀ element ∈ elements name, '.' ∉ element := by
  induction name with
  | nil => simp [elements]
  | cons c name ih =>
      rw [elements, List.splitOn_cons_eq_if_modifyHead]
      split
      · intro element member
        rcases List.mem_cons.mp member with rfl | later
        · exact List.not_mem_nil
        · exact ih element later
      · rename_i other
        have filled := List.splitOn_ne_nil '.' name
        rw [elements] at ih
        generalize name.splitOn '.' = parts at ih filled
        obtain ⟨first, others, rfl⟩ := List.exists_cons_of_ne_nil filled
        rw [List.forall_mem_cons] at ih
        rw [List.modifyHead_cons, List.forall_mem_cons]
        refine ⟨?_, ih.2⟩
        rw [List.mem_cons, not_or]
        exact ⟨fun same => other (beq_iff_eq.mpr same.symm), ih.1⟩

/-- Each name is made of an element without dots and further such elements. -/
theorem exists_elements (name : LogString) : ∃ first others, name = joined (first :: others) ∧
    elements name = first :: others ∧ ∀ element ∈ first :: others, '.' ∉ element := by
  obtain ⟨first, others, parts⟩ := List.exists_cons_of_ne_nil (List.splitOn_ne_nil '.' name)
  refine ⟨first, others, ?_, parts, ?_⟩
  · rw [← parts]
    exact (List.intercalate_splitOn '.').symm
  · rw [← parts]
    exact not_mem_elements name

theorem joined_singleton (part : LogString) : joined [part] = part :=
  List.intercalate_singleton

theorem joined_cons_cons (first second : LogString) (others : List LogString) :
    joined (first :: second :: others) = first ++ '.' :: joined (second :: others) := by
  rw [joined, List.intercalate_cons_cons, List.append_assoc]
  rfl

theorem shortenedBy_singleton (serving : Nat → PatternAbbreviatorFragment) (last : LogString) :
    shortenedBy serving [last] = [last] := by
  simp [shortenedBy]

theorem joined_shortenedBy (serving : Nat → PatternAbbreviatorFragment)
    (first second : LogString) (others : List LogString) :
    joined (shortenedBy serving (first :: second :: others)) =
      (serving 0).shortened first ++
        '.' :: joined (shortenedBy (fun i => serving (i + 1)) (second :: others)) := by
  have parts : shortenedBy serving (first :: second :: others) =
      (serving 0).shortened first ::
        shortenedBy (fun i => serving (i + 1)) (second :: others) := by
    simp [shortenedBy, List.mapIdx_cons]
  have filled : shortenedBy (fun i => serving (i + 1)) (second :: others) ≠ [] := by
    simp [shortenedBy]
  rw [parts, joined, List.intercalate_cons_of_ne_nil filled, List.append_assoc]
  rfl

section Fragments

variable (self : PatternAbbreviatorFragment) (front : LogString) {element : LogString}

theorem find_dot (plain : '.' ∉ element) (rest : LogString) :
    find (front ++ (element ++ '.' :: rest)) '.' front.length =
      some (front.length + element.length) := by
  have first : (element ++ '.' :: rest).findIdx? (· == '.') = some element.length := by
    rw [List.findIdx?_append, List.findIdx?_eq_none_iff.mpr]
    · simp [List.findIdx?_cons]
    · intro c member
      exact beq_eq_false_iff_ne.mpr fun same => plain (same ▸ member)
  rw [find, List.drop_left, first]
  rfl

theorem find_none (plain : '.' ∉ element) : find (front ++ element) '.' front.length = none := by
  rw [find, List.drop_left, List.findIdx?_eq_none_iff.mpr]
  · rfl
  · intro c member
    exact beq_eq_false_iff_ne.mpr fun same => plain (same ▸ member)

/-- One element is shortened, and the next position is behind its dot. -/
theorem abbreviate_dot (plain : '.' ∉ element) (rest : LogString) :
    self.abbreviate (front ++ (element ++ '.' :: rest)) front.length =
      ((front ++ (self.shortened element ++ ['.'])) ++ rest,
        some (front ++ (self.shortened element ++ ['.'])).length) := by
  rw [PatternAbbreviatorFragment.abbreviate, find_dot front plain]
  simp only [Nat.add_sub_cancel_left, PatternAbbreviatorFragment.shortened, gt_iff_lt]
  by_cases long : self.charCount < element.length
  · have kept : (front ++ (element ++ '.' :: rest)).take (front.length + self.charCount) =
        front ++ element.take self.charCount := by
      rw [List.take_length_add_append, List.take_append_of_le_length long.le]
    have behind : (front ++ (element ++ '.' :: rest)).drop (front.length + element.length) =
        '.' :: rest := by
      rw [List.drop_length_add_append, List.drop_left]
    have length : (front ++ element.take self.charCount).length =
        front.length + self.charCount := by
      rw [List.length_append, List.length_take, Nat.min_eq_left long.le]
    rw [if_pos long, if_pos long, kept, behind, ← length, List.take_left, List.drop_left]
    by_cases plainCut : self.ellipsis = NUL
    · simp [plainCut, Nat.add_assoc]
    · simp [plainCut, Nat.add_assoc]
  · rw [if_neg long, if_neg long]
    simp [Nat.add_assoc]

theorem abbreviate_last (plain : '.' ∉ element) :
    self.abbreviate (front ++ element) front.length = (front ++ element, none) := by
  rw [PatternAbbreviatorFragment.abbreviate, find_none front plain]

end Fragments

namespace PatternAbbreviator

/-- The terminal fragment serves all elements but the last. -/
theorem repeated_elements (terminal : PatternAbbreviatorFragment) (front first : LogString)
    (others : List LogString) (plain : ∀ element ∈ first :: others, '.' ∉ element) :
    repeated terminal (front ++ joined (first :: others)) (some front.length) =
      front ++ joined (shortenedBy (fun _ => terminal) (first :: others)) := by
  induction others generalizing front first with
  | nil =>
      rw [List.forall_mem_singleton] at plain
      rw [shortenedBy_singleton, joined_singleton, repeated]
      split
      · rw [abbreviate_last terminal front plain, repeated]
      · rfl
  | cons second others ih =>
      rw [List.forall_mem_cons] at plain
      have inside : front.length < (front ++ (first ++ '.' :: joined (second :: others))).length := by
        simp
      rw [joined_cons_cons, repeated, if_pos inside, abbreviate_dot terminal front plain.1,
        joined_shortenedBy]
      refine (ih _ second plain.2).trans ?_
      rw [List.append_assoc, List.append_assoc]
      rfl

theorem once_none (fragments : List PatternAbbreviatorFragment) (buf : LogString) :
    once fragments buf none = (buf, none) := by
  cases fragments <;> rfl

/-- The fragments serve one element each, and the terminal one serves the rest. -/
theorem applied_elements (fragments : List PatternAbbreviatorFragment)
    (terminal : PatternAbbreviatorFragment) (front first : LogString) (others : List LogString)
    (plain : ∀ element ∈ first :: others, '.' ∉ element) :
    repeated terminal
        (once fragments (front ++ joined (first :: others)) (some front.length)).1
        (once fragments (front ++ joined (first :: others)) (some front.length)).2 =
      front ++ joined (shortenedBy (fun i => fragments.getD i terminal) (first :: others)) := by
  induction fragments generalizing front first others with
  | nil => exact repeated_elements terminal front first others plain
  | cons fragment fragments ih =>
      cases others with
      | nil =>
          rw [List.forall_mem_singleton] at plain
          rw [shortenedBy_singleton, joined_singleton, once]
          split
          · rw [abbreviate_last fragment front plain, once_none, repeated]
          · rename_i outside
            rw [repeated, if_neg outside]
      | cons second others =>
          rw [List.forall_mem_cons] at plain
          have inside : front.length <
              (front ++ (first ++ '.' :: joined (second :: others))).length := by
            simp
          rw [joined_cons_cons, once, if_pos inside, abbreviate_dot fragment front plain.1,
            joined_shortenedBy]
          refine (ih _ second others plain.2).trans ?_
          rw [List.append_assoc, List.append_assoc]
          rfl

/-- An element that the list does not reach has the last fragment. -/
theorem getD_dropLast (self : PatternAbbreviator) (i : Nat) :
    self.fragments.dropLast.getD i (self.fragments.getLast self.filled) = self.serving i := by
  rw [serving]
  obtain ⟨fragments, filled⟩ := self
  rcases List.eq_nil_or_concat fragments with rfl | ⟨init, last, rfl⟩
  · exact absurd rfl filled
  · simp only [List.concat_eq_append, List.dropLast_concat, List.getLast_append_singleton]
    rw [List.getD_eq_getElem?_getD, List.getD_eq_getElem?_getD, List.getElem?_append]
    split
    · rfl
    · rename_i beyond
      rw [List.getElem?_eq_none (not_lt.mp beyond)]
      rcases (i - init.length) with _ | offset
      · rfl
      · rfl

theorem abbreviate_eq (self : PatternAbbreviator) {nameStart : Nat} {buf : LogString}
    (inside : nameStart ≤ buf.length) :
    self.abbreviate nameStart buf =
      buf.take nameStart ++ joined (shortenedBy self.serving (elements (buf.drop nameStart))) := by
  obtain ⟨first, others, name, parts, plain⟩ := exists_elements (buf.drop nameStart)
  have split : buf = buf.take nameStart ++ joined (first :: others) := by
    rw [← name, List.take_append_drop]
  have length : (buf.take nameStart).length = nameStart := List.length_take_of_le inside
  have applied := applied_elements self.fragments.dropLast (self.fragments.getLast self.filled)
    (buf.take nameStart) first others plain
  rw [← split, length] at applied
  rw [parts, abbreviate]
  refine applied.trans ?_
  rw [funext self.getD_dropLast]

end PatternAbbreviator

namespace MaxElementAbbreviator

theorem findLastOf_append (front behind : LogString) {element : LogString}
    (plain : '.' ∉ element) :
    FileAppender.findLastOf (front ++ (element ++ behind)) '.' (front.length + element.length) =
      FileAppender.findLastOf (front ++ (element ++ behind)) '.' front.length := by
  induction element using List.reverseRecOn generalizing behind with
  | nil => rfl
  | append_singleton element c ih =>
      rw [List.mem_append, not_or, List.mem_singleton] at plain
      have last : (front ++ (element ++ c :: behind))[front.length + element.length]? = some c := by
        rw [List.getElem?_append_right (Nat.le_add_right _ _), Nat.add_sub_cancel_left,
          List.getElem?_append_right le_rfl, Nat.sub_self]
        rfl
      rw [List.length_append, List.length_singleton, ← Nat.add_assoc, List.append_assoc,
        List.singleton_append, FileAppender.findLastOf, last, if_neg]
      · exact ih (c :: behind) plain.1
      · exact fun same => plain.2 (Option.some.inj same).symm

/-- What is found is a place of the text below the bound. -/
theorem findLastOf_lt {tmp : LogString} {c : Char} {bound found : Nat}
    (at_ : FileAppender.findLastOf tmp c bound = some found) :
    found < bound ∧ tmp[found]? = some c := by
  induction bound with
  | zero => exact absurd at_ (by simp [FileAppender.findLastOf])
  | succ bound ih =>
      rw [FileAppender.findLastOf] at at_
      split at at_
      · rename_i present
        rw [← Option.some.inj at_]
        exact ⟨bound.lt_succ_self, present⟩
      · exact ⟨(ih at_).1.trans bound.lt_succ_self, (ih at_).2⟩

theorem rfind_lt {buf : LogString} {c : Char} {pos : Position} {found : Nat}
    (at_ : rfind buf c pos = some found) : found < buf.length := by
  cases pos with
  | none => exact (findLastOf_lt at_).1
  | some pos => exact (List.getElem?_eq_some_iff.mp (findLastOf_lt at_).2).1

/-- A search from before a position looks at the places in front of it. -/
theorem rfind_before (buf : LogString) (c : Char) {finish : Nat} (inside : finish ≠ 0) :
    rfind buf c (before (some finish)) = FileAppender.findLastOf buf c finish := by
  obtain ⟨pos, rfl⟩ := Nat.exists_eq_succ_of_ne_zero inside
  rfl

theorem joined_append (init post : List LogString) (initial : init ≠ []) (final : post ≠ []) :
    joined (init ++ post) = joined init ++ '.' :: joined post := by
  induction init with
  | nil => exact absurd rfl initial
  | cons first init ih =>
      cases init with
      | nil =>
          obtain ⟨second, others, rfl⟩ := List.exists_cons_of_ne_nil final
          rw [List.singleton_append, joined_cons_cons, joined_singleton]
      | cons second init =>
          rw [List.cons_append, List.cons_append, joined_cons_cons, joined_cons_cons,
            ← List.cons_append, ih (List.cons_ne_nil _ _), List.append_assoc]
          rfl

theorem joined_append_singleton (init : List LogString) (initial : init ≠ []) (last : LogString) :
    joined (init ++ [last]) = joined init ++ '.' :: last := by
  rw [joined_append init [last] initial (List.cons_ne_nil _ _), joined_singleton]

theorem joined_modifyLast (parts : List LogString) (filled : parts ≠ []) (behind : LogString) :
    joined (parts.modifyLast (· ++ behind)) = joined parts ++ behind := by
  rcases List.eq_nil_or_concat parts with rfl | ⟨init, last, rfl⟩
  · exact absurd rfl filled
  · rw [List.concat_eq_append, List.modifyLast_concat]
    rcases eq_or_ne init [] with rfl | initial
    · rw [List.nil_append, List.nil_append, joined_singleton, joined_singleton]
    · rw [joined_append_singleton init initial, joined_append_singleton init initial,
        List.append_assoc]
      rfl

theorem length_modifyLast (parts : List LogString) (f : LogString → LogString) :
    (parts.modifyLast f).length = parts.length := by
  rcases List.eq_nil_or_concat parts with rfl | ⟨init, last, rfl⟩
  · rfl
  · rw [List.concat_eq_append, List.modifyLast_concat, List.length_append, List.length_append]
    rfl

section Elements

variable (front : LogString)

/-- Behind the dot stand the last elements. -/
theorem drop_elements (parts : List LogString) (c : Char) {i : Nat} (within : i < parts.length) :
    (front ++ (joined parts ++ [c])).drop
        ((front ++ joined (parts.take (parts.length - i))).length + 1) =
      joined ((parts.modifyLast (· ++ [c])).drop (parts.length - i)) := by
  rcases Nat.eq_zero_or_pos i with rfl | some
  · have none : (parts.modifyLast (· ++ [c])).drop parts.length = [] :=
      List.drop_of_length_le (length_modifyLast parts _).le
    rw [Nat.sub_zero, List.take_length, none]
    refine List.drop_of_length_le ?_
    simp [Nat.add_assoc]
  · have initial : parts.take (parts.length - i) ≠ [] := by
      rw [← List.length_pos_iff, List.length_take]
      omega
    have final : parts.drop (parts.length - i) ≠ [] := by
      rw [← List.length_pos_iff, List.length_drop]
      omega
    have size : (parts.take (parts.length - i)).length = parts.length - i :=
      List.length_take_of_le (Nat.sub_le _ _)
    have cut := List.take_append_drop (parts.length - i) parts
    generalize parts.take (parts.length - i) = init at initial size cut
    generalize parts.drop (parts.length - i) = post at final cut
    have text : front ++ (joined (init ++ post) ++ [c]) =
        (front ++ joined init ++ ['.']) ++ (joined post ++ [c]) := by
      rw [joined_append init post initial final]
      simp
    have bound : (front ++ joined init).length + 1 = (front ++ joined init ++ ['.']).length := by
      rw [@List.length_append _ _ ['.']]
      rfl
    rw [← size, ← cut, text, bound, List.drop_left,
      List.modifyLast_append_of_right_ne_nil _ init post final, List.drop_left,
      joined_modifyLast post final]

/-- The dot before the last element is found. -/
theorem rfind_last (init : List LogString) (initial : init ≠ []) {last : LogString}
    (plain : '.' ∉ last) (behind : LogString) :
    rfind (front ++ (joined (init ++ [last]) ++ behind)) '.'
        (before (some (front ++ joined (init ++ [last])).length)) =
      some (front ++ joined init).length := by
  have text : front ++ (joined (init ++ [last]) ++ behind) =
      (front ++ joined init ++ ['.']) ++ (last ++ behind) := by
    rw [joined_append_singleton init initial]
    simp
  have length : (front ++ joined (init ++ [last])).length =
      (front ++ joined init ++ ['.']).length + last.length := by
    rw [joined_append_singleton init initial]
    simp only [List.length_append, List.length_cons, List.length_nil]
    omega
  have inside : (front ++ joined init ++ ['.']).length + last.length ≠ 0 := by
    simp
  have dot : ((front ++ joined init ++ ['.']) ++ (last ++ behind))[
      (front ++ joined init).length]? = some '.' := by
    rw [List.append_assoc _ ['.'], List.getElem?_append_right le_rfl, Nat.sub_self]
    rfl
  have bound : (front ++ joined init ++ ['.']).length = (front ++ joined init).length + 1 :=
    List.length_append
  rw [length, rfind_before _ _ inside, text, findLastOf_append _ _ plain, bound,
    FileAppender.findLastOf, if_pos dot]

/-- Each turn steps over one element, as long as an element is left in front of it. -/
theorem lastDot_within (i : Nat) (parts : List LogString)
    (plain : ∀ element ∈ parts, '.' ∉ element) (behind : LogString) (more : i < parts.length) :
    lastDot front.length (front ++ (joined parts ++ behind)) i
        (some (front ++ joined parts).length) =
      some (some (front ++ joined (parts.take (parts.length - i))).length) := by
  induction i generalizing parts behind with
  | zero => rw [lastDot, Nat.sub_zero, List.take_length]
  | succ i ih =>
      rcases List.eq_nil_or_concat parts with rfl | ⟨init, last, rfl⟩
      · exact absurd more (Nat.not_lt_zero _)
      · rw [List.concat_eq_append] at plain more ⊢
        rw [List.forall_mem_append, List.forall_mem_singleton] at plain
        rw [List.length_append, List.length_singleton, Nat.add_lt_add_iff_right] at more
        have initial : init ≠ [] := List.ne_nil_of_length_pos (i.zero_le.trans_lt more)
        have text : front ++ (joined (init ++ [last]) ++ behind) =
            front ++ (joined init ++ '.' :: (last ++ behind)) := by
          rw [joined_append_singleton init initial]
          simp
        have kept : (init ++ [last]).take ((init ++ [last]).length - (i + 1)) =
            init.take (init.length - i) := by
          rw [List.length_append, List.length_singleton, Nat.add_sub_add_right,
            List.take_append_of_le_length (Nat.sub_le _ _)]
        have after : ¬ (front ++ joined init).length < front.length := by
          simp
        rw [lastDot, rfind_last front init initial plain.2 behind]
        simp only [after, if_false]
        rw [text, ih init plain.1 _ more, kept]

/-- When the elements are used up, the search ends in front of the name. -/
theorem lastDot_beyond (i : Nat) (parts : List LogString) (filled : parts ≠ [])
    (plain : ∀ element ∈ parts, '.' ∉ element) (behind : LogString)
    (apart : '.' ∈ behind → behind.head? = some '.')
    (begins : front ≠ [] ∨ (joined parts ++ behind).head? ≠ some '.')
    (beyond : parts.length ≤ i) :
    lastDot front.length (front ++ (joined parts ++ behind)) i
      (some (front ++ joined parts).length) = none := by
  induction i generalizing parts behind with
  | zero => exact absurd (List.length_eq_zero_iff.mp (Nat.le_zero.mp beyond)) filled
  | succ i ih =>
      rcases List.eq_nil_or_concat parts with rfl | ⟨init, last, rfl⟩
      · exact absurd rfl filled
      · rw [List.concat_eq_append] at plain beyond begins ⊢
        rw [List.forall_mem_append, List.forall_mem_singleton] at plain
        rw [List.length_append, List.length_singleton, Nat.add_le_add_iff_right] at beyond
        rcases eq_or_ne init [] with rfl | initial
        · have single : joined ([] ++ [last]) = last := joined_singleton last
          rw [single] at begins ⊢
          rw [lastDot]
          split
          · rfl
          · rename_i found at_
            rw [if_pos]
            rcases eq_or_ne (front ++ last) [] with empty | something
            · rw [List.append_eq_nil_iff] at empty
              obtain ⟨rfl, rfl⟩ := empty
              -- The search covers the whole buffer here.
              have present := (findLastOf_lt at_).2
              have absent := begins.resolve_left (fun some => some rfl)
              exact absurd (apart (List.mem_of_getElem? present)) absent
            · have inside : (front ++ last).length ≠ 0 :=
                mt List.length_eq_zero_iff.mp something
              rw [rfind_before _ _ inside, List.length_append,
                findLastOf_append front behind plain.2] at at_
              exact (findLastOf_lt at_).1
        · have text : joined (init ++ [last]) ++ behind =
              joined init ++ '.' :: (last ++ behind) := by
            rw [joined_append_singleton init initial]
            simp
          have after : ¬ (front ++ joined init).length < front.length := by
            simp
          rw [lastDot, rfind_last front init initial plain.2 behind]
          simp only [after, if_false]
          rw [text] at begins ⊢
          exact ih init initial plain.1 _ (fun _ => rfl) begins beyond

end Elements

/-- The search wraps around at a dot that is the first character of the buffer. -/
def Wraps (self : MaxElementAbbreviator) (nameStart : Nat) (buf : LogString) : Prop :=
  nameStart = 0 ∧ buf.head? = some '.' ∧ (pathElements buf).length ≤ self.turns

theorem pathElements_nil : pathElements [] = [[]] :=
  List.modifyLast_concat _ [] []

/-- An empty name stays empty. -/
theorem abbreviate_empty (self : MaxElementAbbreviator) (buf : LogString) :
    self.abbreviate buf.length buf = buf := by
  rw [abbreviate]
  cases self.turns with
  | zero =>
      rw [lastDot]
      cases buf with
      | nil => rfl
      | cons c buf => simp [before]
  | succ i =>
      have early : lastDot buf.length buf (i + 1) (before (some buf.length)) = none := by
        rw [lastDot]
        split
        · rfl
        · rename_i found at_
          rw [if_pos (rfind_lt at_)]
      rw [early]

theorem abbreviate_eq (self : MaxElementAbbreviator) {nameStart : Nat} {buf : LogString}
    (inside : nameStart ≤ buf.length) (stays : ¬ self.Wraps nameStart buf) :
    self.abbreviate nameStart buf =
      buf.take nameStart ++ joined ((pathElements (buf.drop nameStart)).drop
        ((pathElements (buf.drop nameStart)).length -
          min self.turns (pathElements (buf.drop nameStart)).length)) := by
  have length : (buf.take nameStart).length = nameStart := List.length_take_of_le inside
  rcases List.eq_nil_or_concat (buf.drop nameStart) with empty | ⟨body, c, name⟩
  · have whole : nameStart = buf.length := inside.antisymm (List.drop_eq_nil_iff.mp empty)
    rw [whole, abbreviate_empty, List.take_length, List.drop_length]
    rw [pathElements_nil]
    cases self.turns with
    | zero => simp [joined]
    | succ turn => simp [joined]
  · obtain ⟨first, others, rfl, parts, plain⟩ := exists_elements body
    rw [List.concat_eq_append] at name
    have path : pathElements (buf.drop nameStart) =
        (first :: others).modifyLast (· ++ [c]) := by
      rw [name, pathElements, List.dropLast_concat, parts, List.getLast?_concat]
      rfl
    have text : buf = buf.take nameStart ++ (joined (first :: others) ++ [c]) := by
      rw [← name, List.take_append_drop]
    have size : buf.length = (buf.take nameStart ++ joined (first :: others)).length + 1 := by
      have lengths := congrArg List.length text
      rw [← List.append_assoc, List.length_append, List.length_singleton] at lengths
      exact lengths
    have start : before (some buf.length) =
        some (buf.take nameStart ++ joined (first :: others)).length := by
      rw [size]
      rfl
    rw [path, length_modifyLast, abbreviate, start]
    rcases lt_or_ge self.turns (first :: others).length with within | beyond
    · have loop := lastDot_within (buf.take nameStart) self.turns (first :: others) plain [c] within
      rw [← text, length] at loop
      rw [loop, Nat.min_eq_left within.le]
      have behind := drop_elements (buf.take nameStart) (first :: others) c within
      rw [← text] at behind
      exact congrArg (buf.take nameStart ++ ·) behind
    · have loop := lastDot_beyond (buf.take nameStart) self.turns (first :: others)
        (List.cons_ne_nil _ _) plain [c] ?_ ?_ beyond
      · rw [← text, length] at loop
        rw [loop, Nat.min_eq_right beyond, Nat.sub_self, List.drop_zero,
          joined_modifyLast _ (List.cons_ne_nil _ _)]
        exact text
      · intro dot
        rw [List.mem_singleton.mp dot]
        rfl
      · rw [or_iff_not_imp_left, not_not]
        intro empty dot
        have atStart : nameStart = 0 := by rw [← length, empty, List.length_nil]
        rw [atStart, List.drop_zero] at path
        refine stays ⟨atStart, ?_, ?_⟩
        · rw [text, empty]
          exact dot
        · rw [path, length_modifyLast]
          exact beyond

end MaxElementAbbreviator

/-- A pattern has at least one fragment unless it is empty. -/
theorem getAbbreviator_returns (pattern : LogString) :
    ∃ abbreviator, getAbbreviator pattern = .ok abbreviator := by
  rw [getAbbreviator]
  split
  · exact ⟨_, rfl⟩
  · rename_i something
    split
    · exact ⟨_, rfl⟩
    · have filled : fragmentsFrom (StringHelper.trim pattern) 0 ≠ [] := by
        rw [fragmentsFrom, if_pos (List.length_pos_iff.mpr something)]
        exact List.cons_ne_nil _ _
      rw [PatternAbbreviator.make, dif_neg filled]
      exact ⟨_, rfl⟩

/-- The fragments shorten the elements in turn, and a largest count keeps the last ones. -/
theorem abbreviates_elements :
    (∀ pattern, ∃ abbreviator, getAbbreviator pattern = .ok abbreviator) ∧
    (∀ (self : PatternAbbreviator) (nameStart : Nat) (buf : LogString),
      nameStart ≤ buf.length →
      self.abbreviate nameStart buf =
        buf.take nameStart ++
          joined (shortenedBy self.serving (elements (buf.drop nameStart)))) ∧
    ∀ (self : MaxElementAbbreviator) (nameStart : Nat) (buf : LogString),
      nameStart ≤ buf.length → ¬ self.Wraps nameStart buf →
      self.abbreviate nameStart buf =
        buf.take nameStart ++ joined ((pathElements (buf.drop nameStart)).drop
          ((pathElements (buf.drop nameStart)).length -
            min self.turns (pathElements (buf.drop nameStart)).length)) :=
  ⟨getAbbreviator_returns, fun self _ _ inside => self.abbreviate_eq inside,
    fun self _ _ inside stays => self.abbreviate_eq inside stays⟩

/-- One element is kept of a name of three elements, and its fragments shorten the first two. -/
theorem abbreviates_elements_name :
    (PatternAbbreviator.mk [⟨1, '~'⟩] (List.cons_ne_nil _ _)).abbreviate 0 "org.apache.x".toList =
        "o~.a~.x".toList ∧
      (MaxElementAbbreviator.mk 1).abbreviate 0 "org.apache.x".toList = "x".toList :=
  ⟨(abbreviates_elements.2.1 ⟨[⟨1, '~'⟩], List.cons_ne_nil _ _⟩ 0 "org.apache.x".toList
      (Nat.zero_le _)).trans (by decide +kernel),
    (abbreviates_elements.2.2 ⟨1⟩ 0 "org.apache.x".toList (Nat.zero_le _)
      (fun wraps => absurd wraps.2.1 (by decide +kernel))).trans (by decide +kernel)⟩

/-- A dot at the end of a name is kept with its last element. -/
theorem trailing_dot_kept : ¬ ∀ (self : MaxElementAbbreviator) (nameStart : Nat) (buf : LogString),
    0 ≤ self.count → nameStart ≤ buf.length →
    self.abbreviate nameStart buf =
      buf.take nameStart ++ joined ((elements (buf.drop nameStart)).drop
        ((elements (buf.drop nameStart)).length -
          min self.count.toNat (elements (buf.drop nameStart)).length)) := by
  intro keeps
  exact absurd (keeps ⟨1⟩ 0 "a.b.".toList (by decide) (Nat.zero_le _)) (by decide +kernel)

end CodeCollect.Log4cxx.NameAbbreviator
