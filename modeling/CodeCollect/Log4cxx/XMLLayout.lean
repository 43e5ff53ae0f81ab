import CodeCollect.Library.XmlReader
import CodeCollect.Log4cxx.Layout

namespace CodeCollect.Log4cxx

open CodeCollect.Library.Xml

structure XMLLayout where
  locationInfo : Bool
  properties : Bool

namespace XMLLayout

def tags (text : LogString) : LogString := Transform.appendEscapingTags [] text

def cdata (text : LogString) : LogString := Transform.appendEscapingCDATA [] text

def eventStart (event : RenderedEvent) : LogString :=
  "<log4j:event logger=\"".toList ++ tags event.loggerName ++
    "\" timestamp=\"".toList ++ StringHelper.toString (event.timeStamp.tdiv 1000) ++
    "\" level=\"".toList ++ tags event.level.name ++
    "\" thread=\"".toList ++ tags event.threadName ++ "\">".toList ++ EOL.toList

def messagePart (event : RenderedEvent) : LogString :=
  "<log4j:message><![CDATA[".toList ++ cdata event.message ++ "]]></log4j:message>".toList ++
    EOL.toList

def ndcPart (event : RenderedEvent) : LogString :=
  match event.ndc with
  | some ndc =>
      "<log4j:NDC><![CDATA[".toList ++ cdata ndc ++ "]]></log4j:NDC>".toList ++ EOL.toList
  | none => []

def locationPart (self : XMLLayout) (event : RenderedEvent) : LogString :=
  if self.locationInfo then
    "<log4j:locationInfo class=\"".toList ++ tags event.locationInfo.className ++
      "\" method=\"".toList ++ tags event.locationInfo.methodName ++
      "\" file=\"".toList ++ tags event.locationInfo.fileName ++
      "\" line=\"".toList ++ StringHelper.toString event.locationInfo.lineNumber ++
      "\"/>".toList ++ EOL.toList
  else []

/-- A key without a value is passed over. -/
def dataPart (lookup : LogString → Option LogString) (key : LogString) : LogString :=
  match lookup key with
  | some value =>
      "<log4j:data name=\"".toList ++ tags key ++ "\" value=\"".toList ++ tags value ++
        "\"/>".toList ++ EOL.toList
  | none => []

def propertiesPart (self : XMLLayout) (event : RenderedEvent) : LogString :=
  if self.properties ∧ ¬ (event.mdcKeySet = [] ∧ event.propertyKeySet = []) then
    "<log4j:properties>".toList ++ EOL.toList ++
      event.mdcKeySet.flatMap (dataPart event.mdc) ++
      event.propertyKeySet.flatMap (dataPart event.property) ++
      "</log4j:properties>".toList ++ EOL.toList
  else []

/-- The layout appends its parts in this order. -/
def format (self : XMLLayout) (event : RenderedEvent) (output : LogString) : LogString :=
  output ++ eventStart event ++ messagePart event ++ ndcPart event ++ locationPart self event ++
    propertiesPart self event ++ "</log4j:event>".toList ++ EOL.toList ++ EOL.toList

end XMLLayout

namespace Transform

/-- A reader takes an entity for the character that it stands for. -/
theorem unescape_entity (c : Char) (rest : LogString) :
    unescape (entity c ++ rest) = (unescape rest).map fun text => c :: text := by
  have known : ∀ (name : LogString) (value : Char), reference name = some value → ';' ∉ name →
      unescape ('&' :: name ++ ';' :: rest) = (unescape rest).map fun text => value :: text :=
    fun _ _ found clear => unescape_reference found clear rest
  cases special : isSpecial c with
  | false =>
      have amp : c ≠ '&' := by
        rintro rfl
        exact absurd special (by decide)
      rw [entity_plain special]
      exact unescape_cons amp rest
  | true =>
      simp only [isSpecial, Bool.or_eq_true, beq_iff_eq] at special
      rcases special with ((rfl | rfl) | rfl) | rfl
      · exact known "quot".toList '"' rfl (by decide)
      · exact known "amp".toList '&' rfl (by decide)
      · exact known "lt".toList '<' rfl (by decide)
      · exact known "gt".toList '>' rfl (by decide)

/-- The parts around a match make up the text, and there is no match in the first part. -/
theorem findEnd_some {input before after : LogString}
    (found : findEnd input = some (before, after)) :
    input = before ++ cdataEnd ++ after ∧ ¬ cdataEnd <:+: before := by
  induction input generalizing before with
  | nil => exact absurd found (by simp [findEnd])
  | cons c input ih =>
      rw [findEnd] at found
      split at found
      · rename_i first
        obtain ⟨rest, whole⟩ := first
        obtain ⟨rfl, rfl⟩ := Prod.mk.inj (Option.some.inj found)
        refine ⟨?_, by decide⟩
        rw [← whole, List.drop_left]
        rfl
      · rename_i later
        obtain ⟨⟨inner, rest⟩, inside, same⟩ := Option.map_eq_some_iff.mp found
        obtain ⟨rfl, rfl⟩ := Prod.mk.inj same
        obtain ⟨whole, clear⟩ := ih inside
        refine ⟨by rw [whole]; rfl, fun within => ?_⟩
        rcases List.infix_cons_iff.mp within with start | inner
        · have longer : c :: inner <+: c :: input := ⟨cdataEnd ++ rest, by rw [whole]; simp⟩
          exact later (start.trans longer)
        · exact clear inner

theorem findEnd_none {input : LogString} (missing : findEnd input = none) :
    ¬ cdataEnd <:+: input := by
  induction input with
  | nil => decide
  | cons c input ih =>
      rw [findEnd] at missing
      split at missing
      · exact absurd missing (by simp)
      · rename_i later
        intro within
        rcases List.infix_cons_iff.mp within with start | inner
        · exact later start
        · exact ih (Option.map_eq_none_iff.mp missing) inner

theorem escapeCDATAFrom_buf (fuel : Nat) (buf input : LogString) :
    escapeCDATAFrom fuel buf input = buf ++ escapeCDATAFrom fuel [] input := by
  induction fuel generalizing buf input with
  | zero => rfl
  | succ fuel ih =>
      rw [escapeCDATAFrom, escapeCDATAFrom]
      cases findEnd input with
      | none => rfl
      | some parts =>
          dsimp only
          split
          · simp only [List.append_assoc, List.nil_append]
          · rw [ih, ih ([] ++ _ ++ _)]
            simp only [List.append_assoc, List.nil_append]

/-- The open element gets more content. -/
def grow (frame : Frame) (text : LogString) : Frame :=
  { frame with content := frame.content ++ text }

theorem grow_grow (frame : Frame) (text more : LogString) :
    grow (grow frame text) more = grow frame (text ++ more) := by
  rw [grow, grow, grow, List.append_assoc]

section Sections

variable (frame : Frame) (stack : List Frame) (roots : List Element)

/-- A section without its end inside is the content of the open element. -/
theorem reads_section {text : LogString} (clear : ¬ cdataEnd <:+: text) :
    Reads (.cdata []) ⟨frame :: stack, roots⟩ (text ++ cdataEnd) (.content [])
      ⟨grow frame text :: stack, roots⟩ := by
  refine ⟨[.cdata text], ?_, rfl⟩
  rw [run_append, run_cdata [] clear, Option.bind_some, List.nil_append, run_cdataEnd]
  rfl

/-- An end of a section in the text is split into two sections and a text between them. -/
theorem reads_embeddedEnd {text : LogString} (clear : ¬ cdataEnd <:+: text) :
    Reads (.cdata []) ⟨frame :: stack, roots⟩ (text ++ CDATA_EMBEDED_END) (.cdata [])
      ⟨grow frame (text ++ cdataEnd) :: stack, roots⟩ := by
  have first := reads_section frame stack roots clear
  have between : Reads (.content []) ⟨grow frame text :: stack, roots⟩ "]]&gt;<![CDATA[".toList
      (.cdata []) ⟨grow (grow frame text) cdataEnd :: stack, roots⟩ := ⟨_, rfl, rfl⟩
  have both := first.append between
  rw [List.append_assoc, grow_grow] at both
  exact both

/-- A reader gets back what was escaped. -/
theorem reads_escapeCDATAFrom {fuel : Nat} {input : LogString} (enough : input.length ≤ fuel) :
    Reads (.cdata []) ⟨frame :: stack, roots⟩ (escapeCDATAFrom fuel [] input ++ cdataEnd)
      (.content []) ⟨grow frame input :: stack, roots⟩ := by
  induction fuel generalizing frame input with
  | zero =>
      rw [List.length_eq_zero_iff.mp (Nat.le_zero.mp enough)]
      exact reads_section frame stack roots (by decide)
  | succ fuel ih =>
      rw [escapeCDATAFrom]
      cases found : findEnd input with
      | none => exact reads_section frame stack roots (findEnd_none found)
      | some parts =>
          obtain ⟨whole, clear⟩ := findEnd_some found
          have first := reads_embeddedEnd frame stack roots clear
          dsimp only
          rw [List.nil_append]
          split
          · rename_i nothing
            rw [List.length_eq_zero_iff.mp nothing, List.append_nil] at whole
            have last := reads_section (grow frame input) stack roots
              (show ¬ cdataEnd <:+: [] by decide)
            rw [grow_grow, List.append_nil] at last
            rw [← whole] at first
            exact first.append last
          · have shorter : parts.2.length ≤ fuel := by
              rw [whole, List.length_append, List.length_append] at enough
              have : cdataEnd.length = 3 := rfl
              omega
            have later := ih (grow frame (parts.1 ++ cdataEnd)) shorter
            rw [grow_grow, ← whole] at later
            rw [escapeCDATAFrom_buf, List.append_assoc]
            exact first.append later

theorem reads_escapedCDATA (input : LogString) :
    Reads (.cdata []) ⟨frame :: stack, roots⟩ (appendEscapingCDATA [] input ++ cdataEnd)
      (.content []) ⟨grow frame input :: stack, roots⟩ := by
  rw [appendEscapingCDATA]
  split
  · rename_i empty
    rw [List.length_eq_zero_iff.mp empty]
    exact reads_section frame stack roots (by decide)
  · exact reads_escapeCDATAFrom frame stack roots (le_refl _)

end Sections

theorem unescape_escaped (text : LogString) :
    unescape (appendEscapingTags [] text) = some text := by
  rw [appendEscapingTags_eq, List.nil_append]
  induction text with
  | nil => rfl
  | cons c text ih =>
      rw [List.flatMap_cons, unescape_entity, ih]
      rfl

end Transform

namespace XMLLayout

open Transform

/-- A child stands behind the end of a line. -/
def child (frame : Frame) (element : Element) : Frame :=
  { frame with content := frame.content ++ ['\n'], children := frame.children ++ [element] }

/-- A part is read between two ends of lines and leaves its elements in the open element. -/
def ReadsPart (text : LogString) (elements : List Element) : Prop :=
  ∀ frame stack roots, Reads (.content ['\n']) ⟨frame :: stack, roots⟩ text (.content ['\n'])
    ⟨elements.foldl child frame :: stack, roots⟩

theorem readsPart_nil : ReadsPart [] [] := fun _ _ _ => ⟨[], rfl, rfl⟩

theorem ReadsPart.append {text more : LogString} {elements others : List Element}
    (first : ReadsPart text elements) (second : ReadsPart more others) :
    ReadsPart (text ++ more) (elements ++ others) := by
  intro frame stack roots
  rw [List.foldl_append]
  exact (first frame stack roots).append (second _ stack roots)

/-- A text in sections is the content of its element. -/
theorem readsPart_sections {name opening closing : LogString} (text : LogString)
    (opens : run (.content ['\n']) opening =
      some (.cdata [], [.text ['\n'], .start ⟨name, []⟩]))
    (closes : run (.content []) closing = some (.content ['\n'], [.ending name])) :
    ReadsPart (opening ++ (cdata text ++ (cdataEnd ++ closing))) [.mk name [] text []] := by
  intro frame stack roots
  have first : Reads (.content ['\n']) ⟨frame :: stack, roots⟩ opening (.cdata [])
      ⟨⟨name, [], [], []⟩ :: grow frame ['\n'] :: stack, roots⟩ := ⟨_, opens, rfl⟩
  have sections := reads_escapedCDATA ⟨name, [], [], []⟩ (grow frame ['\n'] :: stack) roots text
  have last : Reads (.content []) ⟨⟨name, [], text, []⟩ :: grow frame ['\n'] :: stack, roots⟩
      closing (.content ['\n']) ⟨child frame (.mk name [] text []) :: stack, roots⟩ := by
    refine ⟨_, closes, ?_⟩
    rw [List.foldlM_cons, decodeStep_ending ⟨name, [], text, []⟩]
    rfl
  have whole := first.append (sections.append last)
  rw [List.append_assoc] at whole
  exact whole

def messageElement (event : RenderedEvent) : Element :=
  .mk "log4j:message".toList [] event.message []

theorem readsPart_message (event : RenderedEvent) :
    ReadsPart (messagePart event) [messageElement event] := by
  have split : messagePart event = "<log4j:message><![CDATA[".toList ++ (cdata event.message ++
      (cdataEnd ++ "</log4j:message>\n".toList)) := by
    have closing : "]]></log4j:message>".toList ++ EOL.toList =
        cdataEnd ++ "</log4j:message>\n".toList := by decide
    unfold messagePart
    simp only [List.append_assoc, closing]
  have opens : run (.content ['\n']) "<log4j:message><![CDATA[".toList =
      some (.cdata [], [.text ['\n'], .start ⟨"log4j:message".toList, []⟩]) := rfl
  have closes : run (.content []) "</log4j:message>\n".toList =
      some (.content ['\n'], [.ending "log4j:message".toList]) := rfl
  rw [split]
  exact readsPart_sections event.message opens closes


def ndcElements (event : RenderedEvent) : List Element :=
  event.ndc.toList.map fun ndc => .mk "log4j:NDC".toList [] ndc []

theorem readsPart_ndc (event : RenderedEvent) : ReadsPart (ndcPart event) (ndcElements event) := by
  unfold ndcPart ndcElements
  cases event.ndc with
  | none => exact readsPart_nil
  | some ndc =>
      have split : "<log4j:NDC><![CDATA[".toList ++ cdata ndc ++ "]]></log4j:NDC>".toList ++
          EOL.toList = "<log4j:NDC><![CDATA[".toList ++ (cdata ndc ++
            (cdataEnd ++ "</log4j:NDC>\n".toList)) := by
        have closing : "]]></log4j:NDC>".toList ++ EOL.toList =
            cdataEnd ++ "</log4j:NDC>\n".toList := by decide
        simp only [List.append_assoc, closing]
      have opens : run (.content ['\n']) "<log4j:NDC><![CDATA[".toList =
          some (.cdata [], [.text ['\n'], .start ⟨"log4j:NDC".toList, []⟩]) := rfl
      have closes : run (.content []) "</log4j:NDC>\n".toList =
          some (.content ['\n'], [.ending "log4j:NDC".toList]) := rfl
      dsimp only
      rw [split]
      exact readsPart_sections ndc opens closes

/-- The raw values of attributes with different names are unescaped. -/
theorem decodeAttributes_escaped {pairs : List (LogString × LogString)}
    (different : (pairs.map Prod.fst).Nodup) :
    decodeAttributes (pairs.map fun pair => (pair.1, tags pair.2)) = some pairs := by
  have names : (pairs.map fun pair => (pair.1, tags pair.2)).map Prod.fst = pairs.map Prod.fst := by
    rw [List.map_map]
    rfl
  rw [decodeAttributes, names, if_pos different]
  clear names different
  induction pairs with
  | nil => rfl
  | cons pair pairs ih =>
      rw [List.map_cons, List.mapM_cons, ih, tags, unescape_escaped]
      rfl

theorem run_tags (tag : Tag) (name text : LogString) :
    run (.value '"' tag name []) (tags text) = some (.value '"' tag name (tags text), []) := by
  have clear : '"' ∉ tags text ∧ '<' ∉ tags text := by
    rw [tags, appendEscapingTags_eq, List.nil_append]
    exact ⟨fun member => (escaped_clear member).2.2 rfl, fun member => (escaped_clear member).1 rfl⟩
  exact run_value clear tag name []

/-- A number has nothing to escape. -/
theorem tags_toString (n : Int) : tags (StringHelper.toString n) = StringHelper.toString n := by
  rw [tags, appendEscapingTags_eq, List.nil_append]
  apply flatMap_entity_plain
  intro c member
  rcases StringHelper.mem_toString n c member with rfl | digit
  · rfl
  · simp only [isSpecial, Bool.or_eq_false_iff, beq_eq_false_iff_ne]
    refine ⟨⟨⟨?_, ?_⟩, ?_⟩, ?_⟩ <;>
      · rintro rfl
        exact absurd digit (by decide)

/-- One value is closed and the next one is read after it. -/
theorem run_attribute {separator name : LogString}
    (separates : ∀ tag before value, run (.value '"' tag before value) separator =
      some (.value '"' (Tag.add tag before value) name [], []))
    (tag : Tag) (before value text : LogString) :
    run (.value '"' tag before value) (separator ++ tags text) =
      some (.value '"' (tag.add before value) name (tags text), []) := by
  rw [run_append, separates, Option.bind_some, run_tags]
  rfl

def eventAttributes (event : RenderedEvent) : List (LogString × LogString) :=
  [("logger".toList, event.loggerName),
    ("timestamp".toList, StringHelper.toString (event.timeStamp.tdiv 1000)),
    ("level".toList, event.level.name), ("thread".toList, event.threadName)]

/-- The start tag opens an element with the attributes of the event. -/
theorem reads_eventStart (event : RenderedEvent) :
    Reads (.content []) ⟨[], []⟩ (eventStart event) (.content ['\n'])
      ⟨[⟨"log4j:event".toList, eventAttributes event, [], []⟩], []⟩ := by
  have opens : run (.content []) "<log4j:event logger=\"".toList =
      some (.value '"' ⟨"log4j:event".toList, []⟩ "logger".toList [], []) := rfl
  have timestamp : ∀ tag before value, run (.value '"' tag before value)
      "\" timestamp=\"".toList = some (.value '"' (Tag.add tag before value) "timestamp".toList [],
        []) := fun _ _ _ => rfl
  have level : ∀ tag before value, run (.value '"' tag before value) "\" level=\"".toList =
      some (.value '"' (Tag.add tag before value) "level".toList [], []) := fun _ _ _ => rfl
  have thread : ∀ tag before value, run (.value '"' tag before value) "\" thread=\"".toList =
      some (.value '"' (Tag.add tag before value) "thread".toList [], []) := fun _ _ _ => rfl
  have closes : ∀ tag before value, run (.value '"' tag before value) "\">\n".toList =
      some (.content ['\n'], [.start (Tag.add tag before value)]) := fun _ _ _ => rfl
  have different : ((eventAttributes event).map Prod.fst).Nodup := by
    have names : (eventAttributes event).map Prod.fst =
      ["logger".toList, "timestamp".toList, "level".toList, "thread".toList] := rfl
    rw [names]
    decide
  have parts : eventStart event = "<log4j:event logger=\"".toList ++ (tags event.loggerName ++
      (("\" timestamp=\"".toList ++ tags (StringHelper.toString (event.timeStamp.tdiv 1000))) ++
        (("\" level=\"".toList ++ tags event.level.name) ++
          (("\" thread=\"".toList ++ tags event.threadName) ++ "\">\n".toList)))) := by
    have ending : "\">".toList ++ EOL.toList = "\">\n".toList := by decide
    unfold eventStart
    rw [← ending]
    simp only [List.append_assoc, tags_toString]
  have ran : run (.content []) (eventStart event) = some (.content ['\n'],
      [.start ⟨"log4j:event".toList, (eventAttributes event).map fun pair =>
        (pair.1, tags pair.2)⟩]) := by
    rw [parts, run_append, opens, Option.bind_some, run_append, run_tags, Option.bind_some,
      run_append, run_attribute timestamp, Option.bind_some, run_append, run_attribute level,
      Option.bind_some, run_append, run_attribute thread, Option.bind_some, closes]
    rfl
  refine ⟨_, ran, ?_⟩
  rw [List.foldlM_cons, decodeStep, decodeAttributes_escaped different]
  rfl

/-- A tag without content is an element of its attributes. -/
theorem readsPart_empty {name text : LogString} {pairs : List (LogString × LogString)}
    (different : (pairs.map Prod.fst).Nodup)
    (ran : run (.content ['\n']) text = some (.content ['\n'],
      [.text ['\n'], .empty ⟨name, pairs.map fun pair => (pair.1, tags pair.2)⟩])) :
    ReadsPart text [.mk name pairs [] []] := by
  intro frame stack roots
  refine ⟨_, ran, ?_⟩
  have line : decodeStep ⟨frame :: stack, roots⟩ (.text ['\n']) =
      some ⟨grow frame ['\n'] :: stack, roots⟩ := rfl
  rw [List.foldlM_cons, line, Option.bind_eq_bind, Option.bind_some, List.foldlM_cons, decodeStep,
    decodeAttributes_escaped different]
  rfl

def dataAttributes (key value : LogString) : List (LogString × LogString) :=
  [("name".toList, key), ("value".toList, value)]

/-- A key without a value has no element. -/
def dataElements (lookup : LogString → Option LogString) (key : LogString) : List Element :=
  (lookup key).toList.map fun value => .mk "log4j:data".toList (dataAttributes key value) [] []

theorem readsPart_data (lookup : LogString → Option LogString) (key : LogString) :
    ReadsPart (dataPart lookup key) (dataElements lookup key) := by
  unfold dataPart dataElements
  cases lookup key with
  | none => exact readsPart_nil
  | some found =>
      have opens : run (.content ['\n']) "<log4j:data name=\"".toList =
          some (.value '"' ⟨"log4j:data".toList, []⟩ "name".toList [], [.text ['\n']]) := rfl
      have value : ∀ tag before value, run (.value '"' tag before value) "\" value=\"".toList =
          some (.value '"' (Tag.add tag before value) "value".toList [], []) := fun _ _ _ => rfl
      have closes : ∀ tag before value, run (.value '"' tag before value) "\"/>\n".toList =
          some (.content ['\n'], [.empty (Tag.add tag before value)]) := fun _ _ _ => rfl
      have ending : "\"/>".toList ++ EOL.toList = "\"/>\n".toList := by decide
      have ran : run (.content ['\n']) ("<log4j:data name=\"".toList ++ (tags key ++
          (("\" value=\"".toList ++ tags found) ++ "\"/>\n".toList))) = some (.content ['\n'],
          [.text ['\n'], .empty ⟨"log4j:data".toList,
            (dataAttributes key found).map fun pair => (pair.1, tags pair.2)⟩]) := by
        rw [run_append, opens, Option.bind_some, run_append, run_tags, Option.bind_some,
          run_append, run_attribute value, Option.bind_some, closes]
        rfl
      have different : ((dataAttributes key found).map Prod.fst).Nodup := by
        have names : (dataAttributes key found).map Prod.fst =
          ["name".toList, "value".toList] := rfl
        rw [names]
        decide
      rw [← ending] at ran
      simp only [List.append_assoc] at ran ⊢
      exact readsPart_empty different ran

theorem readsPart_flatMap {part : LogString → LogString} {elements : LogString → List Element}
    (reads : ∀ key, ReadsPart (part key) (elements key)) (keys : List LogString) :
    ReadsPart (keys.flatMap part) (keys.flatMap elements) := by
  induction keys with
  | nil => exact readsPart_nil
  | cons key keys ih => exact (reads key).append ih

def locationAttributes (location : LocationText) : List (LogString × LogString) :=
  [("class".toList, location.className), ("method".toList, location.methodName),
    ("file".toList, location.fileName), ("line".toList, StringHelper.toString location.lineNumber)]

def locationElements (self : XMLLayout) (event : RenderedEvent) : List Element :=
  if self.locationInfo then
    [.mk "log4j:locationInfo".toList (locationAttributes event.locationInfo) [] []]
  else []

theorem readsPart_location (self : XMLLayout) (event : RenderedEvent) :
    ReadsPart (locationPart self event) (locationElements self event) := by
  unfold locationPart locationElements
  split
  · have opens : run (.content ['\n']) "<log4j:locationInfo class=\"".toList =
        some (.value '"' ⟨"log4j:locationInfo".toList, []⟩ "class".toList [],
          [.text ['\n']]) := rfl
    have method : ∀ tag before value, run (.value '"' tag before value) "\" method=\"".toList =
        some (.value '"' (Tag.add tag before value) "method".toList [], []) := fun _ _ _ => rfl
    have file : ∀ tag before value, run (.value '"' tag before value) "\" file=\"".toList =
        some (.value '"' (Tag.add tag before value) "file".toList [], []) := fun _ _ _ => rfl
    have line : ∀ tag before value, run (.value '"' tag before value) "\" line=\"".toList =
        some (.value '"' (Tag.add tag before value) "line".toList [], []) := fun _ _ _ => rfl
    have closes : ∀ tag before value, run (.value '"' tag before value) "\"/>\n".toList =
        some (.content ['\n'], [.empty (Tag.add tag before value)]) := fun _ _ _ => rfl
    have ending : "\"/>".toList ++ EOL.toList = "\"/>\n".toList := by decide
    have ran : run (.content ['\n']) ("<log4j:locationInfo class=\"".toList ++
        (tags event.locationInfo.className ++
          (("\" method=\"".toList ++ tags event.locationInfo.methodName) ++
            (("\" file=\"".toList ++ tags event.locationInfo.fileName) ++
              (("\" line=\"".toList ++
                tags (StringHelper.toString event.locationInfo.lineNumber)) ++
                  "\"/>\n".toList))))) =
        some (.content ['\n'], [.text ['\n'], .empty ⟨"log4j:locationInfo".toList,
          (locationAttributes event.locationInfo).map fun pair => (pair.1, tags pair.2)⟩]) := by
      rw [run_append, opens, Option.bind_some, run_append, run_tags, Option.bind_some,
        run_append, run_attribute method, Option.bind_some, run_append, run_attribute file,
        Option.bind_some, run_append, run_attribute line, Option.bind_some, closes]
      rfl
    have different : ((locationAttributes event.locationInfo).map Prod.fst).Nodup := by
      have names : (locationAttributes event.locationInfo).map Prod.fst =
        ["class".toList, "method".toList, "file".toList, "line".toList] := rfl
      rw [names]
      decide
    rw [← ending] at ran
    simp only [List.append_assoc, tags_toString] at ran ⊢
    exact readsPart_empty different ran
  · exact readsPart_nil

/-- The children stand behind as many ends of lines. -/
theorem foldl_child (frame : Frame) (elements : List Element) :
    elements.foldl child frame = ⟨frame.name, frame.attributes,
      frame.content ++ List.replicate elements.length '\n', frame.children ++ elements⟩ := by
  induction elements generalizing frame with
  | nil => simp only [List.foldl_nil, List.length_nil, List.replicate_zero, List.append_nil]
  | cons element elements ih =>
      rw [List.foldl_cons, ih, List.length_cons, List.replicate_succ]
      simp only [child, List.append_assoc, List.singleton_append]

/-- An element of elements has them and the ends of the lines between them. -/
def container (name : LogString) (attributes : List (LogString × LogString))
    (elements : List Element) : Element :=
  .mk name attributes (List.replicate (elements.length + 1) '\n') elements

/-- The last end of a line stands in front of the end tag. -/
theorem decodeStep_container (name : LogString) (attributes : List (LogString × LogString))
    (elements : List Element) (stack : List Frame) (roots : List Element) :
    [.text ['\n'], .ending name].foldlM decodeStep
        ⟨elements.foldl child ⟨name, attributes, [], []⟩ :: stack, roots⟩ =
      some (Decoder.add ⟨stack, roots⟩ (container name attributes elements)) := by
  have line : decodeStep ⟨elements.foldl child ⟨name, attributes, [], []⟩ :: stack, roots⟩
      (.text ['\n']) = some ⟨⟨name, attributes, List.replicate (elements.length + 1) '\n',
        elements⟩ :: stack, roots⟩ := by
    rw [foldl_child, List.replicate_succ', List.nil_append, List.nil_append]
    rfl
  rw [List.foldlM_cons, line, Option.bind_eq_bind, Option.bind_some, List.foldlM_cons,
    decodeStep_ending ⟨name, attributes, _, elements⟩]
  rfl

def propertiesElements (self : XMLLayout) (event : RenderedEvent) : List Element :=
  if self.properties ∧ ¬ (event.mdcKeySet = [] ∧ event.propertyKeySet = []) then
    [container "log4j:properties".toList [] (event.mdcKeySet.flatMap (dataElements event.mdc) ++
      event.propertyKeySet.flatMap (dataElements event.property))]
  else []

theorem readsPart_properties (self : XMLLayout) (event : RenderedEvent) :
    ReadsPart (propertiesPart self event) (propertiesElements self event) := by
  unfold propertiesPart propertiesElements
  split
  · have opens : run (.content ['\n']) "<log4j:properties>\n".toList =
        some (.content ['\n'], [.text ['\n'], .start ⟨"log4j:properties".toList, []⟩]) := rfl
    have closes : run (.content ['\n']) "</log4j:properties>\n".toList =
        some (.content ['\n'], [.text ['\n'], .ending "log4j:properties".toList]) := rfl
    have data := (readsPart_flatMap (readsPart_data event.mdc) event.mdcKeySet).append
      (readsPart_flatMap (readsPart_data event.property) event.propertyKeySet)
    have starting : "<log4j:properties>".toList ++ EOL.toList =
      "<log4j:properties>\n".toList := by decide
    have ending : "</log4j:properties>".toList ++ EOL.toList =
      "</log4j:properties>\n".toList := by decide
    intro frame stack roots
    have first : Reads (.content ['\n']) ⟨frame :: stack, roots⟩ "<log4j:properties>\n".toList
        (.content ['\n'])
        ⟨⟨"log4j:properties".toList, [], [], []⟩ :: grow frame ['\n'] :: stack, roots⟩ :=
      ⟨_, opens, rfl⟩
    have last := decodeStep_container "log4j:properties".toList []
      (event.mdcKeySet.flatMap (dataElements event.mdc) ++
        event.propertyKeySet.flatMap (dataElements event.property))
      (grow frame ['\n'] :: stack) roots
    have whole := first.append ((data _ _ _).append ⟨_, closes, last⟩)
    rw [← starting, ← ending] at whole
    simp only [List.append_assoc] at whole ⊢
    exact whole
  · exact readsPart_nil

/-- Every event has one element with the children that the layout is set for. -/
def eventElement (self : XMLLayout) (event : RenderedEvent) : Element :=
  container "log4j:event".toList (eventAttributes event)
    ([messageElement event] ++ (ndcElements event ++
      (locationElements self event ++ propertiesElements self event)))

theorem reads_format (self : XMLLayout) (event : RenderedEvent) :
    Reads (.content []) ⟨[], []⟩ (format self event []) (.content ['\n', '\n'])
      ⟨[], [eventElement self event]⟩ := by
  have children := (readsPart_message event).append ((readsPart_ndc event).append
    ((readsPart_location self event).append (readsPart_properties self event)))
  have closes : run (.content ['\n']) "</log4j:event>\n\n".toList =
      some (.content ['\n', '\n'], [.text ['\n'], .ending "log4j:event".toList]) := rfl
  have ending : "</log4j:event>".toList ++ (EOL.toList ++ EOL.toList) =
    "</log4j:event>\n\n".toList := by decide
  have last := decodeStep_container "log4j:event".toList (eventAttributes event)
    ([messageElement event] ++ (ndcElements event ++
      (locationElements self event ++ propertiesElements self event))) [] []
  have whole := (reads_eventStart event).append ((children _ _ _).append ⟨_, closes, last⟩)
  rw [← ending] at whole
  unfold format
  simp only [List.nil_append, List.append_assoc] at whole ⊢
  exact whole

end XMLLayout

end CodeCollect.Log4cxx
