import CodeCollect.Log4cxx.SerializedHandles

namespace CodeCollect.Log4cxx

open CodeCollect.Library.JavaSerialization

namespace LocationInfo

open ObjectOutputStream

def value (self : LocationInfo) : Value :=
  if self.available then .object JavaClass.locationInfo.newClass.name [.string self.fullInfo]
  else .null

def classNames (self : LocationInfo) : List (List UInt8) :=
  if self.available then [JavaClass.locationInfo.newClass.name] else []

theorem emits_write {self : LocationInfo}
    (short : self.available = true → self.fullInfo.length < 0x10000) :
    Emits self.write .content [self.value] self.classNames := by
  cases available : self.available with
  | true =>
      have written : self.write = fun os =>
          inTurn [fun os => os.writeText self.fullInfo] (os.writeProlog locationInfo) := by
        funext os
        rw [write, if_pos available]
        rfl
      rw [written, value, classNames, if_pos available, if_pos available]
      exact emits_object .locationInfo rfl
        (emits_field rfl (emits_writeText (short available)) emits_noField)
  | false =>
      have written : self.write = writeNull := by
        funext os
        rw [write, available]
        rfl
      rw [written, value, classNames, available, if_neg Bool.false_ne_true,
        if_neg Bool.false_ne_true]
      exact emits_writeNull

end LocationInfo

namespace LoggingEvent

open ObjectOutputStream

def mdcValue (build : LogChar) : Option (List (LogChars × LogChars)) → Value
  | none | some [] => .null
  | some (entry :: entries) =>
      .object JavaClass.hashtable.newClass.name
        ([.primitive [0x3F, 0x40, 0x00, 0x00], .primitive [0x00, 0x00, 0x00, 0x05]] ++
          (.blockData ([0x00, 0x00, 0x00, 0x07] ++
            [24, 16, 8, 0].map (byteAt (entry :: entries).length)) ::
            (entry :: entries).flatMap fun pair =>
              [.string (build.dataBuf pair.1), .string (build.dataBuf pair.2)]))

def mdcClassNames : Option (List (LogChars × LogChars)) → List (List UInt8)
  | none | some [] => []
  | some (_ :: _) => [JavaClass.hashtable.newClass.name]

/-- The keys and the values of a map are strings in its annotation. -/
theorem emits_entries {build : LogChar} {entries : List (LogChars × LogChars)}
    (short : ∀ entry ∈ entries, (build.dataBuf entry.1).length < 0x10000 ∧
      (build.dataBuf entry.2).length < 0x10000) :
    Emits (fun os => (entries.foldl (fun stream entry =>
        (stream.writeObject build entry.1).writeObject build entry.2) os).writeByte 0x78)
      .annotations (entries.flatMap fun pair =>
        [.string (build.dataBuf pair.1), .string (build.dataBuf pair.2)]) [] := by
  induction entries with
  | nil => exact emits_endAnnotations
  | cons entry entries ih =>
      obtain ⟨key, value⟩ := short entry (List.mem_cons_self ..)
      have others := ih fun other member => short other (List.mem_cons_of_mem _ member)
      exact emits_content (emits_writeText key) (emits_content (emits_writeText value) others)

theorem emits_writeMDC {build : LogChar} {mdc : Option (List (LogChars × LogChars))}
    (short : ∀ entry ∈ mdc.getD [], (build.dataBuf entry.1).length < 0x10000 ∧
      (build.dataBuf entry.2).length < 0x10000) :
    Emits (fun os => writeMDC build os mdc) .content [mdcValue build mdc] (mdcClassNames mdc) := by
  match mdc, short with
  | none, _ => exact emits_writeNull
  | some [], _ => exact emits_writeNull
  | some (entry :: entries), short =>
      have fields : Emits (inTurn [fun os => os.writeBytes [0x3F, 0x40, 0x00, 0x00],
          fun os => os.writeBytes [0x00, 0x00, 0x00, 0x05]])
          (.fields JavaClass.hashtable.newClass.desc.fields)
          [.primitive [0x3F, 0x40, 0x00, 0x00], .primitive [0x00, 0x00, 0x00, 0x05]] [] :=
        emits_primitive rfl (emits_primitive rfl emits_noField)
      have size : (0x08 : UInt8).toNat = ([0x00, 0x00, 0x00, 0x07] ++
          [24, 16, 8, 0].map (byteAt (entry :: entries).length)).length := rfl
      have written : (fun os => writeMDC build os (some (entry :: entries))) = fun os =>
          ((entry :: entries).foldl (fun stream entry =>
            (stream.writeObject build entry.1).writeObject build entry.2)
              ((inTurn [fun os => os.writeBytes [0x3F, 0x40, 0x00, 0x00],
                fun os => os.writeBytes [0x00, 0x00, 0x00, 0x05]]
                  (os.writeProlog hashtable)).writeBytes (0x77 :: 0x08 ::
                    ([0x00, 0x00, 0x00, 0x07] ++
                      [24, 16, 8, 0].map (byteAt (entry :: entries).length))))).writeByte
            0x78 := by
        funext os
        simp only [writeMDC, writeMap, inTurn, writeBytes, List.append_assoc, List.cons_append,
          List.nil_append]
      rw [written]
      exact emits_annotated .hashtable rfl fields (emits_blockData size (emits_entries short))

def ndcValue (build : LogChar) : Option LogChars → Value
  | none => .null
  | some ndc => .string (build.dataBuf ndc)

theorem emits_writeNDC {build : LogChar} {ndc : Option LogChars}
    (short : ∀ text ∈ ndc, (build.dataBuf text).length < 0x10000) :
    Emits (fun os => writeNDC build os ndc) .content [ndcValue build ndc] [] := by
  cases ndc with
  | none => exact emits_writeNull
  | some ndc => exact emits_writeText (short ndc rfl)

/-- This is what a reader should find for an event. -/
def value (build : LogChar) (event : SerializedEvent) : Value :=
  .object JavaClass.loggingEvent.newClass.name
    ([.primitive [0x00], .primitive [0x00],
        .primitive ([56, 48, 40, 32, 24, 16, 8, 0].map (intByteAt (event.timeStamp.tdiv 1000))),
        .string (build.dataBuf event.logger), event.locationInfo.value,
        mdcValue build event.mdcCopy, ndcValue build event.ndc,
        .string (build.dataBuf event.message), .string (build.dataBuf event.threadName), .null] ++
      [.blockData ([24, 16, 8, 0].map (intByteAt event.level)), .null])

/-- An event uses these classes in this order. -/
def classNames (event : SerializedEvent) : List (List UInt8) :=
  JavaClass.loggingEvent.newClass.name ::
    (event.locationInfo.classNames ++ mdcClassNames event.mdcCopy)

/-- These functions write the fields of an event. -/
def writeFields (build : LogChar) (event : SerializedEvent) :
    List (ObjectOutputStream → ObjectOutputStream) :=
  [fun os => os.writeBytes [0x00], fun os => os.writeBytes [0x00],
    fun os => os.writeBytes
      ([56, 48, 40, 32, 24, 16, 8, 0].map (intByteAt (event.timeStamp.tdiv 1000))),
    fun os => os.writeObject build event.logger, event.locationInfo.write,
    fun os => writeMDC build os event.mdcCopy, fun os => writeNDC build os event.ndc,
    fun os => os.writeObject build event.message, fun os => os.writeObject build event.threadName,
    writeNull]

/-- The level is in a block behind the fields. -/
theorem write_eq (build : LogChar) (os : ObjectOutputStream) (event : SerializedEvent) :
    write build os event =
      (((inTurn (writeFields build event) (os.writeProlog loggingEvent)).writeBytes
        (0x77 :: 0x04 :: [24, 16, 8, 0].map (intByteAt event.level))).writeNull).writeByte 0x78 := by
  have twice : ∀ os : ObjectOutputStream, ∀ bytes more,
      (os.writeBytes bytes).writeBytes more = os.writeBytes (bytes ++ more) := by
    intro os bytes more
    rw [writeBytes, writeBytes, writeBytes, List.append_assoc]
  simp only [write, writeFields, inTurn, writeLong, writeInt, writeByte, twice]
  rfl

/-- All texts that an event writes have less than 65536 bytes. -/
structure ShortTexts (build : LogChar) (event : SerializedEvent) : Prop where
  logger : (build.dataBuf event.logger).length < 0x10000
  location : event.locationInfo.available = true → event.locationInfo.fullInfo.length < 0x10000
  mdc : ∀ entry ∈ event.mdcCopy.getD [], (build.dataBuf entry.1).length < 0x10000 ∧
    (build.dataBuf entry.2).length < 0x10000
  ndc : ∀ text ∈ event.ndc, (build.dataBuf text).length < 0x10000
  message : (build.dataBuf event.message).length < 0x10000
  threadName : (build.dataBuf event.threadName).length < 0x10000

/-- An event whose texts fit is read as it is. -/
theorem emits_write {build : LogChar} {event : SerializedEvent} (short : ShortTexts build event) :
    Emits (fun os => write build os event) .content [value build event] (classNames event) := by
  have fields : Emits (inTurn (writeFields build event))
      (.fields JavaClass.loggingEvent.newClass.desc.fields) _ _ :=
    emits_primitive rfl (emits_primitive rfl (emits_primitive rfl
      (emits_field rfl (emits_writeText short.logger)
        (emits_field rfl (LocationInfo.emits_write short.location)
          (emits_field rfl (emits_writeMDC short.mdc)
            (emits_field rfl (emits_writeNDC short.ndc)
              (emits_field rfl (emits_writeText short.message)
                (emits_field rfl (emits_writeText short.threadName)
                  (emits_field rfl emits_writeNull emits_noField)))))))))
  have annotations : Emits (fun os => ((os.writeBytes (0x77 :: 0x04 ::
      [24, 16, 8, 0].map (intByteAt event.level))).writeNull).writeByte 0x78) .annotations _ _ :=
    emits_blockData rfl (emits_content emits_writeNull emits_endAnnotations)
  have both := emits_annotated .loggingEvent rfl fields annotations
  simp only [List.cons_append, List.nil_append, List.append_nil] at both
  rw [funext fun os => write_eq build os event]
  exact both

/-- The texts of a value that a reader has found fit. -/
theorem shortTexts_of_short {build : LogChar} {event : SerializedEvent}
    (short : (value build event).Short) : ShortTexts build event where
  logger := short _ (.inside (by simp) .here)
  location := by
    intro available
    have located : event.locationInfo.value =
        .object JavaClass.locationInfo.newClass.name [.string event.locationInfo.fullInfo] :=
      if_pos available
    have holds : HasString event.locationInfo.fullInfo event.locationInfo.value := by
      rw [located]
      exact .inside (List.mem_singleton_self _) .here
    exact short _ (.inside (by simp) holds)
  mdc := by
    intro entry member
    have holds : ∀ text ∈ [build.dataBuf entry.1, build.dataBuf entry.2],
        HasString text (mdcValue build event.mdcCopy) := by
      intro text either
      generalize event.mdcCopy = mdc at member
      match mdc, member with
      | some (first :: entries), member =>
          have found : Value.string text ∈ (first :: entries).flatMap fun pair =>
              [.string (build.dataBuf pair.1), .string (build.dataBuf pair.2)] :=
            List.mem_flatMap.mpr ⟨entry, member, by simpa using either⟩
          exact .inside (List.mem_append_right _ (List.mem_cons_of_mem _ found)) .here
    exact ⟨short _ (.inside (by simp) (holds _ (by simp))),
      short _ (.inside (by simp) (holds _ (by simp)))⟩
  ndc := by
    intro text member
    have holds : HasString (build.dataBuf text) (ndcValue build event.ndc) := by
      rw [Option.mem_def.mp member]
      exact .here
    exact short _ (.inside (by simp) holds)
  message := short _ (.inside (by simp) .here)
  threadName := short _ (.inside (by simp) .here)

/-- One stream takes all events. -/
def writeAll (build : LogChar) (events : List SerializedEvent) : ObjectOutputStream :=
  events.foldl (write build) create

/-- A reader finds the events and meets each class in full first and by its handle from then on. -/
def HandlesConsistent (build : LogChar) (events : List SerializedEvent) : Prop :=
  ReadsStream (writeAll build events).os (events.map (value build))
    (firstInFull [] (events.flatMap classNames))

/-- A reader goes through the events that are written next. -/
theorem reads_events {build : LogChar} {events : List SerializedEvent}
    (short : ∀ event ∈ events, ShortTexts build event) {os : ObjectOutputStream}
    {entries : List Entry} {seen : List (List UInt8)} (inStep : InStep os entries seen) :
    ∃ emitted added, (events.foldl (write build) os).os = os.os ++ emitted ∧
      Reads .contents (readerAt emitted entries seen) (events.map (value build))
        (readerAt [] added (seen ++ events.flatMap classNames)) := by
  induction events generalizing os entries seen with
  | nil =>
      refine ⟨[], entries, (List.append_nil _).symm, ?_⟩
      rw [List.flatMap_nil, List.append_nil]
      exact .done
  | cons event events ih =>
      obtain ⟨emitted, added, written, inStep, reads⟩ :=
        emits_write (short event (List.mem_cons_self ..)) _ _ _ inStep
      obtain ⟨emittedNext, addedNext, writtenNext, readsNext⟩ :=
        ih (fun other member => short other (List.mem_cons_of_mem _ member)) inStep
      refine ⟨emitted ++ emittedNext, addedNext, ?_, ?_⟩
      · rw [List.foldl_cons, writtenNext, written, List.append_assoc]
      · rw [List.flatMap_cons, ← List.append_assoc]
        exact .contents (reads _) readsNext

/-- The handles are consistent as long as no text is too long for its length field. -/
theorem handlesConsistent_iff (build : LogChar) (events : List SerializedEvent) :
    HandlesConsistent build events ↔ ∀ event ∈ events, ShortTexts build event := by
  constructor
  · rintro ⟨input, entries, stream, reads⟩ event member
    exact shortTexts_of_short (reads.short _ (List.mem_map_of_mem member))
  · intro short
    obtain ⟨emitted, entries, written, reads⟩ := reads_events short inStep_create
    exact ⟨emitted, entries, written, reads⟩

/-- An event with nothing but a message. -/
def plainEvent (message : LogChars) : SerializedEvent where
  timeStamp := 0
  logger := []
  locationInfo := ⟨-1, none, none⟩
  mdcCopy := none
  ndc := none
  message := message
  threadName := []
  level := 0

/-- These are the bytes of such an event up to its message. -/
def plainFields (message : LogChars) : List UInt8 :=
  [0x00] ++ ([0x00] ++ (List.replicate 8 0x00 ++
    (0x74 :: 0x00 :: 0x00 :: 0x70 :: 0x70 :: 0x70 :: framed (LogChar.utf8.dataBuf message))))

theorem write_plainEvent (os : ObjectOutputStream) (message : LogChars) :
    ∃ rest, (write .utf8 os (plainEvent message)).os =
      (os.writeProlog loggingEvent).os ++ (plainFields message ++ rest) := by
  rw [write_eq]
  refine ⟨framed [] ++ 0x70 :: 0x77 :: 0x04 :: List.replicate 4 0x00 ++ [0x70, 0x78], ?_⟩
  have unlocated : ∀ os, LocationInfo.write ⟨-1, none, none⟩ os = os.writeNull := fun _ => rfl
  simp only [writeFields, unlocated, inTurn, writeByte, writeBytes, writeNull, plainEvent, writeMDC,
    writeNDC, writeObject, writeText_os]
  simp only [plainFields, List.append_assoc, List.cons_append, List.nil_append]
  rfl

/-- The first class descriptor is in full. -/
theorem create_writeProlog (javaClass : JavaClass) :
    (create.writeProlog javaClass.prolog).os = header ++ 0x73 :: javaClass.newClass.encode := by
  rw [writeProlog, create, LogMap.empty_get, javaClass.prolog_describes.1]
  rfl

theorem writeProlog_extends (os : ObjectOutputStream) (prolog : Prolog) :
    ∃ rest, (os.writeProlog prolog).os = os.os ++ rest := by
  rw [writeProlog]
  split
  · exact ⟨_, rfl⟩
  · exact ⟨_, List.append_assoc _ _ _⟩

/-- A message of 65536 letters is declared to be empty, and no value begins with a letter. -/
theorem stuck_overlong (rest : List UInt8) :
    Stuck .contents (0x73 :: JavaClass.loggingEvent.newClass.encode ++
      (plainFields (List.replicate 0x10000 0x61) ++ rest)) := by
  have letters : LogChar.utf8.dataBuf (List.replicate 0x10000 0x61) =
      0x61 :: List.replicate 0xFFFF 0x61 := by
    rw [LogChar.dataBuf, List.map_replicate, List.replicate_succ]
    rfl
  have empty : ∀ rest, parseUTF (0x00 :: 0x00 :: rest) = some ([], rest) :=
    fun rest => (parseUTF_cons _ _ _).trans (parseBytes_append [] rest)
  have declared : framed (LogChar.utf8.dataBuf (List.replicate 0x10000 0x61)) =
      0x74 :: 0x00 :: 0x00 :: 0x61 :: List.replicate 0xFFFF 0x61 := by
    rw [framed, letters, List.length_cons, List.length_replicate]
    rfl
  rw [plainFields, declared, List.append_assoc, List.append_assoc, List.append_assoc]
  apply stuck_contents (List.cons_ne_nil _ _)
  apply stuck_object JavaClass.loggingEvent.prolog_describes.2.2
  apply stuck_primitive rfl
  apply stuck_primitive rfl
  apply stuck_primitive rfl
  apply stuck_string rfl (empty _)
  apply stuck_null rfl
  apply stuck_null rfl
  apply stuck_null rfl
  apply stuck_string rfl (empty _)
  apply stuck_field rfl
  exact stuck_tag (by decide)

/-- No reader gets through the stream of this event and another one. -/
theorem overlong_event_unreadable :
    ¬ ∃ values uses, ReadsStream
      (writeAll .utf8 [plainEvent (List.replicate 0x10000 0x61), plainEvent []]).os values uses := by
  rintro ⟨values, uses, input, entries, stream, reads⟩
  obtain ⟨rest, first⟩ := write_plainEvent create (List.replicate 0x10000 0x61)
  obtain ⟨more, second⟩ :=
    write_plainEvent (write .utf8 create (plainEvent (List.replicate 0x10000 0x61))) []
  obtain ⟨prolog, extended⟩ := writeProlog_extends
    (write .utf8 create (plainEvent (List.replicate 0x10000 0x61))) loggingEvent
  have full : (create.writeProlog loggingEvent).os =
      header ++ 0x73 :: JavaClass.loggingEvent.newClass.encode := create_writeProlog .loggingEvent
  rw [writeAll, List.foldl_cons, List.foldl_cons, List.foldl_nil, second, extended, first, full]
    at stream
  simp only [List.append_assoc] at stream
  obtain rfl := List.append_cancel_left stream
  exact stuck_overlong _ _ _ _ _ reads

end LoggingEvent

end CodeCollect.Log4cxx
