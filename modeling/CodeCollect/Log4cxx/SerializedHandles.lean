import CodeCollect.Log4cxx.SerializedStrings

namespace CodeCollect.Log4cxx

open CodeCollect.Library.JavaSerialization

/-- These classes have prologs in the stream. -/
inductive JavaClass where
  | hashtable
  | locationInfo
  | loggingEvent

namespace JavaClass

def prolog : JavaClass → Prolog
  | hashtable => ObjectOutputStream.hashtable
  | locationInfo => LocationInfo.locationInfo
  | loggingEvent => LoggingEvent.loggingEvent

def primitiveField (typecode : Char) (name : String) : FieldDesc × List UInt8 :=
  (⟨UInt8.ofNat typecode.toNat, ascii name.toList⟩, [])

def objectField (name type : String) : FieldDesc × List UInt8 :=
  (⟨UInt8.ofNat 'L'.toNat, ascii name.toList⟩, ascii type.toList)

/-- This is what a reader should know about each class. -/
def newClass : JavaClass → NewClass
  | hashtable =>
      ⟨ascii "java.util.Hashtable".toList, [0x13, 0xBB, 0x0F, 0x25, 0x21, 0x4A, 0xE4, 0xB8], 0x03,
        [primitiveField 'F' "loadFactor", primitiveField 'I' "threshold"]⟩
  | locationInfo =>
      ⟨ascii "org.apache.log4j.spi.LocationInfo".toList,
        [0xED, 0x99, 0xBB, 0xE1, 0x4A, 0x91, 0xA5, 0x7C], 0x02,
        [objectField "fullInfo" "Ljava/lang/String;"]⟩
  | loggingEvent =>
      ⟨ascii "org.apache.log4j.spi.LoggingEvent".toList,
        [0xF3, 0xF2, 0xB9, 0x23, 0x74, 0x0B, 0xB5, 0x3F], 0x03,
        [primitiveField 'Z' "mdcCopyLookupRequired", primitiveField 'Z' "ndcLookupRequired",
          primitiveField 'J' "timeStamp", objectField "categoryName" "Ljava/lang/String;",
          objectField "locationInfo" "Lorg/apache/log4j/spi/LocationInfo;",
          objectField "mdcCopy" "Ljava/util/Hashtable;", objectField "ndc" "Ljava/lang/String;",
          objectField "renderedMessage" "Ljava/lang/String;",
          objectField "threadName" "Ljava/lang/String;",
          objectField "throwableInfo" "Lorg/apache/log4j/spi/ThrowableInformation;"]⟩

/-- The prolog holds the descriptor and counts what a reader numbers in it. -/
theorem prolog_describes (javaClass : JavaClass) :
    javaClass.prolog.classDesc = javaClass.newClass.encode ∧
      javaClass.prolog.classDescIncrement = javaClass.newClass.types.length + 1 ∧
        javaClass.newClass.Fits := by
  cases javaClass with
  | hashtable => decide +kernel
  | locationInfo => decide +kernel
  | loggingEvent => decide +kernel

/-- Different classes have different names for the writer and for a reader. -/
theorem names_inj (first second : JavaClass) :
    (first.prolog.className = second.prolog.className → first = second) ∧
      (first.newClass.name = second.newClass.name → first = second) := by
  cases first <;> cases second <;>
    first
    | exact ⟨fun _ => rfl, fun _ => rfl⟩
    | exact ⟨fun same => absurd same (by decide), fun same => absurd same (by decide)⟩

end JavaClass

theorem firstInFull_append (seen names more : List (List UInt8)) :
    firstInFull seen (names ++ more) =
      firstInFull seen names ++ firstInFull (names.reverse ++ seen) more := by
  induction names generalizing seen with
  | nil => rfl
  | cons name names ih =>
      rw [List.cons_append, firstInFull, ih, firstInFull, List.reverse_cons, List.append_assoc]
      rfl

/-- A reader has met these classes and has numbered these entries. -/
def readerAt (input : List UInt8) (entries : List Entry) (seen : List (List UInt8)) : Reader :=
  ⟨input, entries, firstInFull [] seen⟩

theorem firstInFull_concat (seen : List (List UInt8)) (name : List UInt8) :
    firstInFull [] (seen ++ [name]) = firstInFull [] seen ++ [⟨name, !seen.contains name⟩] := by
  rw [firstInFull_append, List.append_nil, firstInFull, firstInFull]
  simp only [List.contains_eq_mem, List.mem_reverse]

namespace ObjectOutputStream

/-- The counter and the handles of the writer are those of a reader. -/
structure InStep (os : ObjectOutputStream) (entries : List Entry) (seen : List (List UInt8)) :
    Prop where
  counter : os.objectHandle = handle entries.length
  unmet : ∀ javaClass : JavaClass, javaClass.newClass.name ∉ seen →
    os.classDescriptions[javaClass.prolog.className]? = none
  met : ∀ javaClass : JavaClass, javaClass.newClass.name ∈ seen →
    ∃ index, entries[index]? = some (.classDesc javaClass.newClass.desc) ∧
      os.classDescriptions[javaClass.prolog.className]? = some (handle index)

theorem inStep_create : InStep create [] [] where
  counter := rfl
  unmet _ _ := rfl
  met _ impossible := absurd impossible List.not_mem_nil

theorem handle_add (index increment : Nat) :
    (handle index + increment) % 0x100000000 = handle (index + increment) := by
  simp only [handle]
  omega

/-- Numbering more entries keeps the handles that are known. -/
theorem InStep.bump {os : ObjectOutputStream} {entries : List Entry} {seen : List (List UInt8)}
    (inStep : InStep os entries seen) (added : List Entry) :
    InStep (os.bumpHandle added.length) (entries ++ added) seen where
  counter := by
    rw [List.length_append, ← handle_add, ← inStep.counter]
    rfl
  unmet := inStep.unmet
  met := by
    intro javaClass member
    obtain ⟨index, entry, known⟩ := inStep.met javaClass member
    exact ⟨index, List.getElem?_append_left (List.getElem?_eq_some_iff.mp entry).1 ▸ entry, known⟩

theorem InStep.writeBytes {os : ObjectOutputStream} {entries : List Entry}
    {seen : List (List UInt8)} (inStep : InStep os entries seen) (bytes : List UInt8) :
    InStep (os.writeBytes bytes) entries seen :=
  ⟨inStep.counter, inStep.unmet, inStep.met⟩

/-- The four bytes of a handle are in the order of a reader. -/
theorem bigEndian_handle (index : Nat) :
    bigEndian ([24, 16, 8, 0].map (byteAt (handle index))) = handle index := by
  have bound : handle index < 0x100000000 := Nat.mod_lt _ (by decide)
  simp only [List.map_cons, List.map_nil, bigEndian, List.foldl_cons, List.foldl_nil, byteAt_toNat]
  omega

/-- Meeting a class again changes nothing. -/
theorem InStep.meetAgain {os : ObjectOutputStream} {entries : List Entry}
    {seen : List (List UInt8)} (inStep : InStep os entries seen) {name : List UInt8}
    (member : name ∈ seen) : InStep os entries (seen ++ [name]) where
  counter := inStep.counter
  unmet javaClass unmet :=
    inStep.unmet javaClass fun member => unmet (List.mem_append_left _ member)
  met javaClass met := by
    rcases List.mem_append.mp met with before | now
    · exact inStep.met javaClass before
    · exact inStep.met javaClass (List.mem_singleton.mp now ▸ member)

/-- The handle of a new descriptor is the counter before it. -/
theorem InStep.meet {os : ObjectOutputStream} {entries : List Entry} {seen : List (List UInt8)}
    (inStep : InStep os entries seen) (javaClass : JavaClass) (types : List Entry) :
    InStep ({ os with
      classDescriptions :=
        os.classDescriptions.insert javaClass.prolog.className os.objectHandle }.bumpHandle
          (types.length + 1))
      (entries ++ .classDesc javaClass.newClass.desc :: types)
      (seen ++ [javaClass.newClass.name]) where
  counter := (inStep.bump (.classDesc javaClass.newClass.desc :: types)).counter
  unmet := by
    intro other unmet
    obtain ⟨before, now⟩ := not_or.mp (List.mem_append.not.mp unmet)
    have different : javaClass.prolog.className ≠ other.prolog.className := by
      intro same
      exact now (List.mem_singleton.mpr ((JavaClass.names_inj _ _).1 same ▸ rfl))
    show (os.classDescriptions.insert _ _)[other.prolog.className]? = none
    rw [LogMap.insert_get, if_neg different, inStep.unmet other before]
  met := by
    intro other met
    by_cases same : javaClass = other
    · subst same
      refine ⟨entries.length, by rw [List.getElem?_append_right (le_refl _), Nat.sub_self]; rfl, ?_⟩
      show (os.classDescriptions.insert _ _)[javaClass.prolog.className]? = _
      rw [LogMap.insert_get, if_pos rfl, inStep.counter]
    · have before : other.newClass.name ∈ seen := by
        rcases List.mem_append.mp met with before | now
        · exact before
        · exact absurd ((JavaClass.names_inj _ _).2 (List.mem_singleton.mp now)).symm same
      have different : javaClass.prolog.className ≠ other.prolog.className :=
        fun equal => same ((JavaClass.names_inj _ _).1 equal)
      obtain ⟨index, entry, known⟩ := inStep.met other before
      refine ⟨index, ?_, ?_⟩
      · exact List.getElem?_append_left (List.getElem?_eq_some_iff.mp entry).1 ▸ entry
      · show (os.classDescriptions.insert _ _)[other.prolog.className]? = _
        rw [LogMap.insert_get, if_neg different, known]

/-- A reader finds the descriptor of an object in full or by its handle. -/
theorem writeProlog_reads {os : ObjectOutputStream} {entries : List Entry}
    {seen : List (List UInt8)} (inStep : InStep os entries seen) (javaClass : JavaClass) :
    ∃ emitted added, (os.writeProlog javaClass.prolog).os = os.os ++ 0x73 :: emitted ∧
      InStep (os.writeProlog javaClass.prolog) (entries ++ added ++ [.object])
        (seen ++ [javaClass.newClass.name]) ∧
        ∀ rest, ReadsClass (readerAt (emitted ++ rest) entries seen) javaClass.newClass.desc
          (readerAt rest (entries ++ added) (seen ++ [javaClass.newClass.name])) := by
  by_cases member : javaClass.newClass.name ∈ seen
  · obtain ⟨index, entry, known⟩ := inStep.met javaClass member
    have written : os.writeProlog javaClass.prolog =
        (os.writeBytes (0x73 :: 0x71 :: [24, 16, 8, 0].map (byteAt (handle index)))).bumpHandle
          1 := by
      rw [writeProlog, known]
    refine ⟨0x71 :: [24, 16, 8, 0].map (byteAt (handle index)), [], ?_, ?_, ?_⟩
    · rw [written]
      rfl
    · rw [written, List.append_nil]
      exact ((inStep.writeBytes _).bump [.object]).meetAgain member
    · intro rest
      rw [readerAt, readerAt, firstInFull_concat, List.append_nil,
        List.contains_eq_mem, decide_eq_true member]
      exact .reference rfl entry (bigEndian_handle index)
  · obtain ⟨literal, increment, fits⟩ := javaClass.prolog_describes
    have written : os.writeProlog javaClass.prolog =
        ((({ os with
          classDescriptions := os.classDescriptions.insert javaClass.prolog.className
            os.objectHandle }).writeByte 0x73).writeBytes javaClass.newClass.encode).bumpHandle
              (javaClass.newClass.types.length + 1 + 1) := by
      rw [writeProlog, inStep.unmet javaClass member, literal, increment]
    refine ⟨javaClass.newClass.encode,
      .classDesc javaClass.newClass.desc :: javaClass.newClass.types.map .string, ?_, ?_, ?_⟩
    · rw [written]
      exact List.append_assoc _ _ _
    · have met := inStep.meet javaClass (javaClass.newClass.types.map .string ++ [.object])
      rw [List.length_append, List.length_map] at met
      rw [written, List.append_assoc]
      exact ⟨met.counter, met.unmet, met.met⟩
    · intro rest
      rw [readerAt, readerAt, firstInFull_concat, List.contains_eq_mem, decide_eq_false member]
      exact .full (NewClass.parseClassDesc_encode fits rest)

/-- A reader goes through what is written, finds the values and meets the classes. -/
def Emits (write : ObjectOutputStream → ObjectOutputStream) (part : Part) (values : List Value)
    (names : List (List UInt8)) : Prop :=
  ∀ os entries seen, InStep os entries seen → ∃ emitted added,
    (write os).os = os.os ++ emitted ∧ InStep (write os) (entries ++ added) (seen ++ names) ∧
      ∀ rest, Reads part (readerAt (emitted ++ rest) entries seen) values
        (readerAt rest (entries ++ added) (seen ++ names))

section Parts

variable {first next : ObjectOutputStream → ObjectOutputStream} {values more : List Value}
  {names others : List (List UInt8)}

/-- Bytes that are neither strings nor objects are not numbered. -/
theorem emits_bytes {bytes : List UInt8} {part : Part}
    (reads : ∀ rest entries seen, Reads part (readerAt (bytes ++ rest) entries seen) values
      (readerAt rest entries seen)) :
    Emits (fun os => os.writeBytes bytes) part values [] := by
  intro os entries seen inStep
  refine ⟨bytes, [], rfl, ?_, fun rest => ?_⟩
  · rw [List.append_nil, List.append_nil]
    exact inStep.writeBytes _
  · rw [List.append_nil, List.append_nil]
    exact reads rest entries seen

theorem emits_writeNull : Emits writeNull .content [.null] [] :=
  emits_bytes fun _ _ _ => .null

theorem emits_endAnnotations : Emits (fun os => os.writeByte 0x78) .annotations [] [] :=
  emits_bytes fun _ _ _ => .endAnnotations

/-- A text whose length fits is one string. -/
theorem emits_writeText {data : List UInt8} (fits : data.length < 0x10000) :
    Emits (fun os => os.writeText data) .content [.string data] [] := by
  intro os entries seen inStep
  refine ⟨framed data, [.string data], writeText_os os data, ?_, fun rest => ?_⟩
  · rw [List.append_nil]
    exact ((inStep.bump [.string data]).writeBytes _).writeBytes _
  · rw [List.append_nil]
    apply Reads.string
    show parseUTF (byteAt data.length 8 :: byteAt data.length 0 :: (data ++ rest)) = _
    rw [parseUTF_cons, bigEndian_length, Nat.mod_eq_of_lt fits, parseBytes_append]

/-- One part after the other is read with what both of them emit. -/
theorem emits_then {part later whole : Part} {result : List Value}
    (emits : Emits first part values names) (emitsNext : Emits next later more others)
    (reads : ∀ {reader middle last}, Reads part reader values middle →
      Reads later middle more last → Reads whole reader result last) :
    Emits (fun os => next (first os)) whole result (names ++ others) := by
  intro os entries seen inStep
  obtain ⟨emitted, added, written, inStep, readsFirst⟩ := emits _ _ _ inStep
  obtain ⟨emittedNext, addedNext, writtenNext, inStep, readsNext⟩ := emitsNext _ _ _ inStep
  refine ⟨emitted ++ emittedNext, added ++ addedNext, ?_, ?_, fun rest => ?_⟩
  · rw [writtenNext, written, List.append_assoc]
  · rw [← List.append_assoc, ← List.append_assoc]
    exact inStep
  · rw [← List.append_assoc, ← List.append_assoc, List.append_assoc emitted]
    exact reads (readsFirst _) (readsNext _)

/-- The bytes before a part go to the part. -/
theorem emits_writeBytes {bytes : List UInt8} {part whole : Part} {result : List Value}
    (emits : Emits next part values names)
    (reads : ∀ {rest entries seen last}, Reads part (readerAt rest entries seen) values last →
      Reads whole (readerAt (bytes ++ rest) entries seen) result last) :
    Emits (fun os => next (os.writeBytes bytes)) whole result names := by
  intro os entries seen inStep
  obtain ⟨emitted, added, written, inStep, readsNext⟩ := emits _ _ _ (inStep.writeBytes bytes)
  refine ⟨bytes ++ emitted, added, ?_, inStep, fun rest => ?_⟩
  · rw [written]
    exact List.append_assoc _ _ _
  · rw [List.append_assoc]
    exact reads (readsNext rest)

/-- Some functions write one after the other. -/
def inTurn : List (ObjectOutputStream → ObjectOutputStream) → ObjectOutputStream →
    ObjectOutputStream
  | [], os => os
  | write :: writes, os => inTurn writes (write os)

variable {writes : List (ObjectOutputStream → ObjectOutputStream)} {field : FieldDesc}
  {fields : List FieldDesc} {bytes : List UInt8}

theorem emits_noField : Emits (inTurn []) (.fields []) [] [] := by
  intro os entries seen inStep
  refine ⟨[], [], (List.append_nil _).symm, ?_, fun rest => ?_⟩
  · rw [List.append_nil, List.append_nil]
    exact inStep
  · rw [List.append_nil, List.append_nil]
    exact .noField

theorem emits_primitive (known : width field.typecode = some bytes.length)
    (emits : Emits (inTurn writes) (.fields fields) values names) :
    Emits (inTurn ((fun os => os.writeBytes bytes) :: writes)) (.fields (field :: fields))
      (.primitive bytes :: values) names :=
  emits_writeBytes emits fun reads => .primitive known (parseBytes_append bytes _) reads

theorem emits_field (object : width field.typecode = none)
    (emits : Emits first .content values names)
    (emitsNext : Emits (inTurn writes) (.fields fields) more others) :
    Emits (inTurn (first :: writes)) (.fields (field :: fields)) (values ++ more)
      (names ++ others) := by
  show Emits (fun os => inTurn writes (first os)) _ _ _
  exact emits_then emits emitsNext fun reads readsNext => .field object reads readsNext

theorem emits_content (emits : Emits first .content values names)
    (emitsNext : Emits next .annotations more others) :
    Emits (fun os => next (first os)) .annotations (values ++ more) (names ++ others) :=
  emits_then emits emitsNext .annotations

/-- A block of up to 255 bytes has its length in front of it. -/
theorem emits_blockData {count : UInt8} (length : count.toNat = bytes.length)
    (emits : Emits next .annotations values names) :
    Emits (fun os => next (os.writeBytes (0x77 :: count :: bytes))) .annotations
      (.blockData bytes :: values) names :=
  emits_writeBytes emits fun reads =>
    .blockData (length ▸ parseBytes_append bytes _) reads

/-- An object is its descriptor and its fields. -/
theorem emits_object (javaClass : JavaClass) (plain : javaClass.newClass.flags = 0x02)
    (emits : Emits next (.fields javaClass.newClass.desc.fields) values names) :
    Emits (fun os => next (os.writeProlog javaClass.prolog)) .content
      [.object javaClass.newClass.name values] (javaClass.newClass.name :: names) := by
  intro os entries seen inStep
  obtain ⟨emitted, added, written, inStep, readsClass⟩ := writeProlog_reads inStep javaClass
  obtain ⟨emittedNext, addedNext, writtenNext, inStep, reads⟩ := emits _ _ _ inStep
  have met : seen ++ javaClass.newClass.name :: names =
      seen ++ [javaClass.newClass.name] ++ names := List.append_cons _ _ _
  refine ⟨0x73 :: emitted ++ emittedNext, added ++ [.object] ++ addedNext, ?_, ?_, fun rest => ?_⟩
  · rw [writtenNext, written, List.append_assoc]
  · rw [met, ← List.append_assoc, ← List.append_assoc]
    exact inStep
  · rw [met, ← List.append_assoc, ← List.append_assoc, List.append_assoc _ _ rest]
    exact .object (readsClass _) plain (reads rest)

/-- Some objects have an annotation behind their fields. -/
theorem emits_annotated (javaClass : JavaClass) (annotated : javaClass.newClass.flags = 0x03)
    (emits : Emits first (.fields javaClass.newClass.desc.fields) values names)
    (emitsNext : Emits next .annotations more others) :
    Emits (fun os => next (first (os.writeProlog javaClass.prolog))) .content
      [.object javaClass.newClass.name (values ++ more)]
      (javaClass.newClass.name :: names ++ others) := by
  intro os entries seen inStep
  obtain ⟨emitted, added, written, inStep, readsClass⟩ := writeProlog_reads inStep javaClass
  obtain ⟨emittedFirst, addedFirst, writtenFirst, inStep, reads⟩ := emits _ _ _ inStep
  obtain ⟨emittedNext, addedNext, writtenNext, inStep, readsNext⟩ := emitsNext _ _ _ inStep
  have met : seen ++ (javaClass.newClass.name :: names ++ others) =
      seen ++ [javaClass.newClass.name] ++ names ++ others := by
    rw [List.cons_append, List.append_cons, List.append_assoc _ names]
  have numbered : entries ++ (added ++ [.object] ++ addedFirst ++ addedNext) =
      entries ++ added ++ [.object] ++ addedFirst ++ addedNext := by
    simp only [List.append_assoc]
  refine ⟨0x73 :: (emitted ++ (emittedFirst ++ emittedNext)),
    added ++ [.object] ++ addedFirst ++ addedNext, ?_, ?_, fun rest => ?_⟩
  · rw [writtenNext, writtenFirst, written, List.append_assoc, List.append_assoc,
      List.cons_append]
  · rw [met, numbered]
    exact inStep
  · rw [met, numbered, List.cons_append, List.append_assoc, List.append_assoc]
    exact .annotated (readsClass _) annotated (reads _) (readsNext rest)

end Parts

end ObjectOutputStream

end CodeCollect.Log4cxx
