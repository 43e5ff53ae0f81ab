import CodeCollect.Log4cxx.XMLLayout

namespace CodeCollect.Log4cxx

open CodeCollect.Library.Xml

namespace XMLLayout

open Transform

/-- XML allows the characters of the text. -/
def Legal (text : LogString) : Prop := text.all isLegal = true

instance : DecidablePred Legal := fun text => inferInstanceAs (Decidable (text.all isLegal = true))

theorem Legal.append {text more : LogString} (first : Legal text) (second : Legal more) :
    Legal (text ++ more) := by
  rw [Legal, List.all_append, first, second]
  rfl

theorem legal_flatMap {α : Type} {part : α → LogString} {list : List α}
    (each : ∀ member ∈ list, Legal (part member)) : Legal (list.flatMap part) := by
  rw [Legal, List.all_flatMap, List.all_eq_true]
  exact each

theorem legal_entity {c : Char} (legal : isLegal c) : Legal (entity c) := by
  cases special : isSpecial c with
  | false =>
      rw [entity_plain special, Legal, List.all_cons, legal]
      rfl
  | true =>
      simp only [isSpecial, Bool.or_eq_true, beq_iff_eq] at special
      rcases special with ((rfl | rfl) | rfl) | rfl <;> decide

theorem legal_tags {text : LogString} (legal : Legal text) : Legal (tags text) := by
  rw [tags, appendEscapingTags_eq, List.nil_append]
  exact legal_flatMap fun c member => legal_entity (List.all_eq_true.mp legal c member)

theorem legal_escapeCDATAFrom (fuel : Nat) {input : LogString} (legal : Legal input) :
    Legal (escapeCDATAFrom fuel [] input) := by
  induction fuel generalizing input with
  | zero => exact legal
  | succ fuel ih =>
      rw [escapeCDATAFrom]
      cases found : findEnd input with
      | none => exact legal
      | some parts =>
          obtain ⟨whole, _⟩ := findEnd_some found
          rw [whole, Legal, List.all_append, List.all_append, Bool.and_eq_true,
            Bool.and_eq_true] at legal
          have embedded : Legal ([] ++ parts.1 ++ CDATA_EMBEDED_END) :=
            Legal.append legal.1.1 (by decide)
          dsimp only
          split
          · exact embedded
          · rw [escapeCDATAFrom_buf]
            exact embedded.append (ih legal.2)

theorem legal_cdata {text : LogString} (legal : Legal text) : Legal (cdata text) := by
  rw [cdata, appendEscapingCDATA]
  split
  · decide
  · exact legal_escapeCDATAFrom _ legal

theorem legal_toString (n : Int) : Legal (StringHelper.toString n) := by
  rw [Legal, List.all_eq_true]
  intro c member
  rcases StringHelper.mem_toString n c member with rfl | digit
  · rfl
  · simp only [Char.isDigit, Bool.and_eq_true, decide_eq_true_eq, UInt32.le_iff_toNat_le] at digit
    simp only [isLegal, Bool.or_eq_true, decide_eq_true_eq]
    refine Or.inr ?_
    have value : c.toNat = c.val.toNat := rfl
    have low : '0'.val.toNat = 48 := rfl
    have high : '9'.val.toNat = 57 := rfl
    omega

/-- All texts of the event are XML. -/
structure LegalEvent (event : RenderedEvent) : Prop where
  loggerName : Legal event.loggerName
  level : Legal event.level.name
  threadName : Legal event.threadName
  message : Legal event.message
  ndc : ∀ ndc ∈ event.ndc, Legal ndc
  mdc : ∀ key ∈ event.mdcKeySet, Legal key ∧ ∀ value ∈ event.mdc key, Legal value
  property : ∀ key ∈ event.propertyKeySet, Legal key ∧ ∀ value ∈ event.property key, Legal value
  className : Legal event.locationInfo.className
  methodName : Legal event.locationInfo.methodName
  fileName : Legal event.locationInfo.fileName

theorem legal_data {lookup : LogString → Option LogString} {key : LogString}
    (legal : Legal key ∧ ∀ value ∈ lookup key, Legal value) : Legal (dataPart lookup key) := by
  unfold dataPart
  cases found : lookup key with
  | none => exact (show Legal [] by decide)
  | some value =>
      have opening : Legal "<log4j:data name=\"".toList := by decide
      have middle : Legal "\" value=\"".toList := by decide
      have closing : Legal "\"/>".toList := by decide
      have line : Legal EOL.toList := by decide
      exact (((opening.append (legal_tags legal.1)).append middle).append
        (legal_tags (legal.2 value found))).append closing |>.append line

theorem legal_start {event : RenderedEvent} (legal : LegalEvent event) :
    Legal (eventStart event) := by
  have opening : Legal "<log4j:event logger=\"".toList := by decide
  have timestamp : Legal "\" timestamp=\"".toList := by decide
  have level : Legal "\" level=\"".toList := by decide
  have thread : Legal "\" thread=\"".toList := by decide
  have closing : Legal "\">".toList := by decide
  have line : Legal EOL.toList := by decide
  unfold eventStart
  exact opening.append (legal_tags legal.loggerName) |>.append timestamp
    |>.append (legal_toString _) |>.append level |>.append (legal_tags legal.level)
    |>.append thread |>.append (legal_tags legal.threadName) |>.append closing |>.append line

theorem legal_section {opening closing text : LogString} (legal : Legal text)
    (opens : Legal opening) (closes : Legal closing) :
    Legal (opening ++ cdata text ++ closing ++ EOL.toList) :=
  opens.append (legal_cdata legal) |>.append closes |>.append (by decide)

theorem legal_ndc {event : RenderedEvent} (legal : LegalEvent event) : Legal (ndcPart event) := by
  unfold ndcPart
  cases found : event.ndc with
  | none => decide
  | some ndc => exact legal_section (legal.ndc ndc found) (by decide) (by decide)

theorem legal_location (self : XMLLayout) {event : RenderedEvent} (legal : LegalEvent event) :
    Legal (locationPart self event) := by
  have opening : Legal "<log4j:locationInfo class=\"".toList := by decide
  have method : Legal "\" method=\"".toList := by decide
  have file : Legal "\" file=\"".toList := by decide
  have line : Legal "\" line=\"".toList := by decide
  have closing : Legal "\"/>".toList := by decide
  have ending : Legal EOL.toList := by decide
  unfold locationPart
  split
  · exact opening.append (legal_tags legal.className) |>.append method
      |>.append (legal_tags legal.methodName) |>.append file
      |>.append (legal_tags legal.fileName) |>.append line |>.append (legal_toString _)
      |>.append closing |>.append ending
  · decide

theorem legal_properties (self : XMLLayout) {event : RenderedEvent} (legal : LegalEvent event) :
    Legal (propertiesPart self event) := by
  have opening : Legal "<log4j:properties>".toList := by decide
  have closing : Legal "</log4j:properties>".toList := by decide
  have ending : Legal EOL.toList := by decide
  unfold propertiesPart
  split
  · exact opening.append ending
      |>.append (legal_flatMap fun key member => legal_data (legal.mdc key member))
      |>.append (legal_flatMap fun key member => legal_data (legal.property key member))
      |>.append closing |>.append ending
  · decide

/-- The layout adds nothing to a legal event that XML forbids. -/
theorem legal_format (self : XMLLayout) {event : RenderedEvent} (legal : LegalEvent event) :
    Legal (format self event []) := by
  have message : Legal (messagePart event) := legal_section legal.message (by decide) (by decide)
  have closing : Legal "</log4j:event>".toList := by decide
  have ending : Legal EOL.toList := by decide
  unfold format
  exact (legal_start legal).append message |>.append (legal_ndc legal)
    |>.append (legal_location self legal) |>.append (legal_properties self legal)
    |>.append closing |>.append ending |>.append ending

/-- A reader finds one element in the output, and it is the element of the event. -/
theorem format_injectionFree (self : XMLLayout) (event : RenderedEvent)
    (legal : LegalEvent event) : parse (format self event []) = some [eventElement self event] := by
  obtain ⟨list, ran, decoded⟩ := reads_format self event
  have ended : finish (.content ['\n', '\n']) = some [.text ['\n', '\n']] := rfl
  have read : tokens (format self event []) = some (list ++ [.text ['\n', '\n']]) := by
    rw [tokens, ran, Option.bind_some, ended]
    rfl
  have allowed : (format self event []).all isLegal = true := legal_format self legal
  rw [parse, if_pos allowed, read, Option.bind_some, List.foldlM_append, decoded]
  rfl

/-- This event has the end of a section in its message and markup in its names. -/
def embeddedEnd : RenderedEvent where
  loggerName := "a\"<b>".toList
  level := Level.getWarn
  message := "]]>".toList
  timeStamp := 0
  threadName := "&".toList
  ndc := some "]]".toList
  mdcKeySet := ["k".toList]
  mdc := fun _ => some "\"/>".toList
  propertyKeySet := []
  property := fun _ => none
  locationInfo := ⟨"f".toList, "c".toList, "m".toList, 7⟩

theorem format_injectionFree_embeddedEnd :
    parse (format ⟨true, true⟩ embeddedEnd []) = some [eventElement ⟨true, true⟩ embeddedEnd] :=
  format_injectionFree ⟨true, true⟩ embeddedEnd
    ⟨by decide, by decide, by decide, by decide, by decide, by decide, by decide, by decide,
      by decide, by decide⟩

/-- The sections alone have lost the message. -/
theorem sections_lose_end :
    (tokens (format ⟨true, true⟩ embeddedEnd [])).map cdataContents = some "]]".toList ∧
      embeddedEnd.message ++ "]]".toList ≠ "]]".toList := by
  decide +kernel

end XMLLayout

end CodeCollect.Log4cxx
