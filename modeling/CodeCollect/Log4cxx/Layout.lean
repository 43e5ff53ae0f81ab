import CodeCollect.Log4cxx.LogString

namespace CodeCollect.Log4cxx

namespace Level

def getWarn : Level := ⟨30000, ['W', 'A', 'R', 'N']⟩

/-- Two levels are equal for the code when their numbers are. -/
def equals (self other : Level) : Bool := self.toInt == other.toInt

def isGreaterOrEqual (self other : Level) : Bool := decide (other.toInt ≤ self.toInt)

end Level

/-- This is what a location answers. -/
structure LocationText where
  fileName : LogString
  className : LogString
  methodName : LogString
  lineNumber : Int

/-- This is what an event answers to a layout. -/
structure RenderedEvent where
  loggerName : LogString
  level : Level
  message : LogString
  timeStamp : Int
  threadName : LogString
  ndc : Option LogString
  mdcKeySet : List LogString
  mdc : LogString → Option LogString
  propertyKeySet : List LogString
  property : LogString → Option LogString
  locationInfo : LocationText

/-- The end of a line has two characters on Windows and this one elsewhere. -/
def EOL : String := "\n"

namespace Transform

def isSpecial (c : Char) : Bool := c == '"' || c == '&' || c == '<' || c == '>'

/-- The branch for other characters is never taken. -/
def entity (c : Char) : LogString :=
  if c = '"' then "&quot;".toList
  else if c = '&' then "&amp;".toList
  else if c = '<' then "&lt;".toList
  else if c = '>' then "&gt;".toList
  else [c]

/-- This is the loop from match to match, which may run for at most `fuel` rounds. -/
def escapeTagsFrom : Nat → LogString → LogString → LogString
  | 0, buf, input => buf ++ input
  | fuel + 1, buf, input =>
      match input.dropWhile fun c => !isSpecial c with
      | [] => buf ++ input
      | special :: rest =>
          escapeTagsFrom fuel (buf ++ input.takeWhile (fun c => !isSpecial c) ++ entity special) rest

/-- One round per character is enough. -/
def appendEscapingTags (buf input : LogString) : LogString :=
  if input.length = 0 then buf else escapeTagsFrom input.length buf input

def CDATA_END : LogString := "]]>".toList

def CDATA_EMBEDED_END : LogString := "]]>]]&gt;<![CDATA[".toList

/-- This is the text before and after the first match, as `find` finds it. -/
def findEnd : LogString → Option (LogString × LogString)
  | [] => none
  | c :: input =>
      if CDATA_END <+: c :: input then some ([], (c :: input).drop CDATA_END.length)
      else (findEnd input).map fun parts => (c :: parts.1, parts.2)

/-- The loop returns early when nothing is left behind a match. -/
def escapeCDATAFrom : Nat → LogString → LogString → LogString
  | 0, buf, input => buf ++ input
  | fuel + 1, buf, input =>
      match findEnd input with
      | none => buf ++ input
      | some (before, after) =>
          let embedded := buf ++ before ++ CDATA_EMBEDED_END
          if after.length = 0 then embedded else escapeCDATAFrom fuel embedded after

def appendEscapingCDATA (buf input : LogString) : LogString :=
  if input.length = 0 then buf else escapeCDATAFrom input.length buf input

theorem entity_plain {c : Char} (plain : isSpecial c = false) : entity c = [c] := by
  simp only [isSpecial, Bool.or_eq_false_iff, beq_eq_false_iff_ne] at plain
  obtain ⟨⟨⟨quote, amp⟩, less⟩, greater⟩ := plain
  rw [entity, if_neg quote, if_neg amp, if_neg less, if_neg greater]

theorem flatMap_entity_plain {text : LogString} (plain : ∀ c ∈ text, isSpecial c = false) :
    text.flatMap entity = text := by
  induction text with
  | nil => rfl
  | cons c text ih =>
      rw [List.flatMap_cons, entity_plain (plain c (List.mem_cons_self ..)),
        ih fun other member => plain other (List.mem_cons_of_mem _ member)]
      rfl

theorem escapeTagsFrom_eq {fuel : Nat} {input : LogString} (enough : input.length ≤ fuel)
    (buf : LogString) : escapeTagsFrom fuel buf input = buf ++ input.flatMap entity := by
  induction fuel generalizing input buf with
  | zero =>
      rw [List.length_eq_zero_iff.mp (Nat.le_zero.mp enough)]
      rfl
  | succ fuel ih =>
      have split : input.takeWhile (fun c => !isSpecial c) ++
          input.dropWhile (fun c => !isSpecial c) = input := List.takeWhile_append_dropWhile
      have plain : ∀ c ∈ input.takeWhile fun c => !isSpecial c, isSpecial c = false := by
        intro c member
        simpa using List.mem_takeWhile_imp member
      rw [escapeTagsFrom]
      cases found : input.dropWhile fun c => !isSpecial c with
      | nil =>
          rw [found, List.append_nil] at split
          rw [split] at plain
          rw [flatMap_entity_plain plain]
      | cons special rest =>
          rw [found] at split
          have shorter := congrArg List.length split
          rw [List.length_append, List.length_cons] at shorter
          have escaped : input.flatMap entity =
              input.takeWhile (fun c => !isSpecial c) ++ (entity special ++ rest.flatMap entity) := by
            conv_lhs => rw [← split]
            rw [List.flatMap_append, flatMap_entity_plain plain, List.flatMap_cons]
          show escapeTagsFrom fuel _ rest = _
          rw [ih (by omega), escaped]
          simp only [List.append_assoc]

/-- Each special character becomes its entity, and all others stay. -/
theorem appendEscapingTags_eq (buf input : LogString) :
    appendEscapingTags buf input = buf ++ input.flatMap entity := by
  rw [appendEscapingTags]
  split
  · rename_i empty
    rw [List.length_eq_zero_iff.mp empty, List.flatMap_nil, List.append_nil]
  · exact escapeTagsFrom_eq (le_refl _) buf

/-- No special character but the ampersand is left. -/
theorem escaped_clear {input : LogString} {c : Char} (member : c ∈ input.flatMap entity) :
    c ≠ '<' ∧ c ≠ '>' ∧ c ≠ '"' := by
  obtain ⟨source, _, inside⟩ := List.mem_flatMap.mp member
  cases special : isSpecial source with
  | false =>
      rw [entity_plain special, List.mem_singleton] at inside
      subst inside
      refine ⟨?_, ?_, ?_⟩ <;>
        (rintro rfl; exact absurd special (by decide))
  | true =>
      simp only [isSpecial, Bool.or_eq_true, beq_iff_eq] at special
      rcases special with ((rfl | rfl) | rfl) | rfl <;>
        (simp [entity] at inside; rcases inside with rfl | rfl | rfl | rfl | rfl | rfl <;> decide)

end Transform

end CodeCollect.Log4cxx
