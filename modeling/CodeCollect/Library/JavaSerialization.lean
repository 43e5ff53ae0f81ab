import Mathlib

namespace CodeCollect.Library

namespace JavaSerialization

/-- A field is of a primitive type or of a class that a string names. -/
structure FieldDesc where
  typecode : UInt8
  name : List UInt8
deriving DecidableEq

structure ClassDesc where
  name : List UInt8
  flags : UInt8
  fields : List FieldDesc
deriving DecidableEq

/-- A reader gives a handle to each of these in the order of the stream. -/
inductive Entry where
  | string (bytes : List UInt8)
  | classDesc (desc : ClassDesc)
  | object
deriving DecidableEq

/-- A class descriptor is used in full or by reference. -/
structure ClassUse where
  name : List UInt8
  full : Bool
deriving DecidableEq

/-- A reader knows the rest of its input, what it has numbered and which classes it has met. -/
structure Reader where
  input : List UInt8
  entries : List Entry
  uses : List ClassUse

inductive Value where
  | null
  | string (bytes : List UInt8)
  | object (className : List UInt8) (contents : List Value)
  | primitive (bytes : List UInt8)
  | blockData (bytes : List UInt8)

/-- Handles have four bytes and begin with this one. -/
def handle (index : Nat) : Nat := (0x7E0000 + index) % 0x100000000

def bigEndian (bytes : List UInt8) : Nat :=
  bytes.foldl (fun number byte => number * 0x100 + byte.toNat) 0

/-- A parser of the next bytes fails at the end of the input. -/
def parseBytes (count : Nat) (input : List UInt8) : Option (List UInt8 × List UInt8) :=
  if count ≤ input.length then some (input.take count, input.drop count) else none

/-- A text has a length of two bytes. -/
def parseUTF (input : List UInt8) : Option (List UInt8 × List UInt8) := do
  let (length, rest) ← parseBytes 2 input
  parseBytes (bigEndian length) rest

def parseTag (tag : UInt8) (input : List UInt8) : Option (List UInt8) :=
  match input with
  | [] => none
  | byte :: rest => if byte = tag then some rest else none

/-- A primitive value has a fixed number of bytes. -/
def width (typecode : UInt8) : Option Nat :=
  if typecode = 0x42 ∨ typecode = 0x5A then some 1
  else if typecode = 0x43 ∨ typecode = 0x53 then some 2
  else if typecode = 0x46 ∨ typecode = 0x49 then some 4
  else if typecode = 0x44 ∨ typecode = 0x4A then some 8
  else none

/-- The types of the fields that are objects are new strings. -/
def parseFields : Nat → List UInt8 → Option ((List FieldDesc × List (List UInt8)) × List UInt8)
  | 0, input => some (([], []), input)
  | count + 1, input => do
      let (typecode, rest) ← parseBytes 1 input
      let (name, rest) ← parseUTF rest
      let field : FieldDesc := ⟨typecode.headD 0, name⟩
      if (width field.typecode).isSome then
        let ((fields, types), rest) ← parseFields count rest
        some ((field :: fields, types), rest)
      else
        let rest ← parseTag 0x74 rest
        let (type, rest) ← parseUTF rest
        let ((fields, types), rest) ← parseFields count rest
        some ((field :: fields, type :: types), rest)

/-- A new class descriptor has no annotation and no super class. -/
def parseClassDesc (input : List UInt8) :
    Option ((ClassDesc × List (List UInt8)) × List UInt8) := do
  let rest ← parseTag 0x72 input
  let (name, rest) ← parseUTF rest
  let (_, rest) ← parseBytes 8 rest
  let (flags, rest) ← parseBytes 1 rest
  let (count, rest) ← parseBytes 2 rest
  let ((fields, types), rest) ← parseFields (bigEndian count) rest
  let rest ← parseTag 0x78 rest
  let rest ← parseTag 0x70 rest
  some ((⟨name, flags.headD 0, fields⟩, types), rest)

/-- A class descriptor is read in full, or the reference has the handle of one read before. -/
inductive ReadsClass : Reader → ClassDesc → Reader → Prop where
  | full {input rest entries uses desc types} :
      parseClassDesc input = some ((desc, types), rest) →
        ReadsClass ⟨input, entries, uses⟩ desc
          ⟨rest, entries ++ .classDesc desc :: types.map .string, uses ++ [⟨desc.name, true⟩]⟩
  | reference {number rest entries uses index desc} :
      number.length = 4 → entries[index]? = some (.classDesc desc) →
        bigEndian number = handle index →
          ReadsClass ⟨0x71 :: number ++ rest, entries, uses⟩ desc
            ⟨rest, entries, uses ++ [⟨desc.name, false⟩]⟩

/-- These are the parts of a stream that a reader goes through. -/
inductive Part where
  | contents
  | content
  | fields (descs : List FieldDesc)
  | annotations

/-- A reader goes through a part of its input and finds these values. -/
inductive Reads : Part → Reader → List Value → Reader → Prop where
  | null {rest entries uses} :
      Reads .content ⟨0x70 :: rest, entries, uses⟩ [.null] ⟨rest, entries, uses⟩
  | string {input rest entries uses bytes} : parseUTF input = some (bytes, rest) →
      Reads .content ⟨0x74 :: input, entries, uses⟩ [.string bytes]
        ⟨rest, entries ++ [.string bytes], uses⟩
  | object {input entries uses desc next values last} :
      ReadsClass ⟨input, entries, uses⟩ desc next → desc.flags = 0x02 →
        Reads (.fields desc.fields) { next with entries := next.entries ++ [.object] } values
          last →
          Reads .content ⟨0x73 :: input, entries, uses⟩ [.object desc.name values] last
  | annotated {input entries uses desc next values middle more last} :
      ReadsClass ⟨input, entries, uses⟩ desc next → desc.flags = 0x03 →
        Reads (.fields desc.fields) { next with entries := next.entries ++ [.object] } values
          middle → Reads .annotations middle more last →
          Reads .content ⟨0x73 :: input, entries, uses⟩ [.object desc.name (values ++ more)] last
  | noField {reader} : Reads (.fields []) reader [] reader
  | primitive {field fields input rest entries uses count bytes values last} :
      width field.typecode = some count → parseBytes count input = some (bytes, rest) →
        Reads (.fields fields) ⟨rest, entries, uses⟩ values last →
          Reads (.fields (field :: fields)) ⟨input, entries, uses⟩ (.primitive bytes :: values)
            last
  | field {field fields reader first next values last} : width field.typecode = none →
      Reads .content reader first next → Reads (.fields fields) next values last →
        Reads (.fields (field :: fields)) reader (first ++ values) last
  | endAnnotations {rest entries uses} :
      Reads .annotations ⟨0x78 :: rest, entries, uses⟩ [] ⟨rest, entries, uses⟩
  | blockData {count input rest entries uses bytes values last} :
      parseBytes count.toNat input = some (bytes, rest) →
        Reads .annotations ⟨rest, entries, uses⟩ values last →
          Reads .annotations ⟨0x77 :: count :: input, entries, uses⟩ (.blockData bytes :: values)
            last
  | annotations {reader first next values last} : Reads .content reader first next →
      Reads .annotations next values last → Reads .annotations reader (first ++ values) last
  | done {entries uses} : Reads .contents ⟨[], entries, uses⟩ [] ⟨[], entries, uses⟩
  | contents {reader first next values last} : Reads .content reader first next →
      Reads .contents next values last → Reads .contents reader (first ++ values) last

/-- Each class is in full where it is met first, and by reference from then on. -/
def firstInFull (seen : List (List UInt8)) : List (List UInt8) → List ClassUse
  | [] => []
  | name :: names => ⟨name, !seen.contains name⟩ :: firstInFull (name :: seen) names

/-- A stream begins with its magic number and its version. -/
def header : List UInt8 := [0xAC, 0xED, 0x00, 0x05]

/-- A reader goes through a whole stream. -/
def ReadsStream (stream : List UInt8) (values : List Value) (uses : List ClassUse) : Prop :=
  ∃ input entries, stream = header ++ input ∧
    Reads .contents ⟨input, [], []⟩ values ⟨[], entries, uses⟩

/-- A value may hold a string inside of objects. -/
inductive HasString (bytes : List UInt8) : Value → Prop where
  | here : HasString bytes (.string bytes)
  | inside {className contents value} : value ∈ contents → HasString bytes value →
      HasString bytes (.object className contents)

/-- The lengths of all strings in a value fit into two bytes. -/
def Value.Short (value : Value) : Prop := ∀ bytes, HasString bytes value → bytes.length < 0x10000

theorem short_of_no_string {value : Value} (none' : ∀ bytes, ¬ HasString bytes value) :
    value.Short :=
  fun bytes holds => absurd holds (none' bytes)

theorem short_object {className : List UInt8} {contents : List Value}
    (short : ∀ value ∈ contents, value.Short) : (Value.object className contents).Short := by
  intro bytes holds
  cases holds with
  | inside member holds => exact short _ member bytes holds

theorem bigEndian_two_bytes {bytes : List UInt8} (two : bytes.length = 2) :
    bigEndian bytes < 0x10000 := by
  obtain ⟨high, low, rfl⟩ := List.length_eq_two.mp two
  have := high.toNat_lt
  have := low.toNat_lt
  simp only [bigEndian, List.foldl_cons, List.foldl_nil]
  omega

theorem parseBytes_length {count : Nat} {input bytes rest : List UInt8}
    (parsed : parseBytes count input = some (bytes, rest)) : bytes.length = count := by
  rw [parseBytes] at parsed
  split at parsed
  · rename_i enough
    obtain ⟨rfl, _⟩ := Prod.mk.inj (Option.some.inj parsed)
    exact List.length_take_of_le enough
  · exact absurd parsed (by simp)

theorem parseUTF_short {input bytes rest : List UInt8}
    (parsed : parseUTF input = some (bytes, rest)) : (Value.string bytes).Short := by
  intro other holds
  cases holds
  obtain ⟨length, first, parsed⟩ := Option.bind_eq_some_iff.mp parsed
  rw [parseBytes_length parsed]
  exact bigEndian_two_bytes (parseBytes_length first)

/-- A reader finds only strings whose lengths fit. -/
theorem Reads.short {part : Part} {reader last : Reader} {values : List Value}
    (reads : Reads part reader values last) : ∀ value ∈ values, value.Short := by
  induction reads with
  | null => exact List.forall_mem_singleton.mpr (short_of_no_string (by nofun))
  | string parsed => exact List.forall_mem_singleton.mpr (parseUTF_short parsed)
  | object _ _ _ ih => exact List.forall_mem_singleton.mpr (short_object ih)
  | annotated _ _ _ _ fields annotations =>
      exact List.forall_mem_singleton.mpr
        (short_object (List.forall_mem_append.mpr ⟨fields, annotations⟩))
  | noField => exact List.forall_mem_nil _
  | primitive _ _ _ ih => exact List.forall_mem_cons.mpr ⟨short_of_no_string (by nofun), ih⟩
  | field _ _ _ first next => exact List.forall_mem_append.mpr ⟨first, next⟩
  | endAnnotations => exact List.forall_mem_nil _
  | blockData _ _ ih => exact List.forall_mem_cons.mpr ⟨short_of_no_string (by nofun), ih⟩
  | annotations _ _ first next => exact List.forall_mem_append.mpr ⟨first, next⟩
  | done => exact List.forall_mem_nil _
  | contents _ _ first next => exact List.forall_mem_append.mpr ⟨first, next⟩

theorem parseBytes_append (bytes rest : List UInt8) :
    parseBytes bytes.length (bytes ++ rest) = some (bytes, rest) := by
  rw [parseBytes, if_pos (by simp), List.take_left, List.drop_left]

theorem parseTag_cons (tag : UInt8) (rest : List UInt8) :
    parseTag tag (tag :: rest) = some rest := by
  rw [parseTag, if_pos rfl]

theorem parseUTF_cons (high low : UInt8) (rest : List UInt8) :
    parseUTF (high :: low :: rest) = parseBytes (bigEndian [high, low]) rest := by
  rw [parseUTF, parseBytes, if_pos (by simp)]
  rfl

/-- A text that fits has its length in front of it. -/
def encodeUTF (text : List UInt8) : List UInt8 :=
  UInt8.ofNat (text.length / 0x100) :: UInt8.ofNat (text.length % 0x100) :: text

theorem bigEndian_pair {number : Nat} (fits : number < 0x10000) :
    bigEndian [UInt8.ofNat (number / 0x100), UInt8.ofNat (number % 0x100)] = number := by
  simp only [bigEndian, List.foldl_cons, List.foldl_nil, UInt8.toNat_ofNat']
  omega

theorem parseUTF_encode {text : List UInt8} (fits : text.length < 0x10000)
    (rest : List UInt8) : parseUTF (encodeUTF text ++ rest) = some (text, rest) := by
  rw [encodeUTF, List.cons_append, List.cons_append, parseUTF_cons, bigEndian_pair fits,
    parseBytes_append]

/-- A class descriptor in full has an identifier, and its fields may name their types. -/
structure NewClass where
  name : List UInt8
  uid : List UInt8
  flags : UInt8
  fields : List (FieldDesc × List UInt8)

namespace NewClass

def isPrimitive (field : FieldDesc × List UInt8) : Bool := (width field.1.typecode).isSome

def desc (self : NewClass) : ClassDesc := ⟨self.name, self.flags, self.fields.map Prod.fst⟩

/-- The types of the fields that are objects are strings of their own. -/
def types (self : NewClass) : List (List UInt8) :=
  (self.fields.filter fun field => !isPrimitive field).map Prod.snd

def encodeField (field : FieldDesc × List UInt8) : List UInt8 :=
  field.1.typecode :: encodeUTF field.1.name ++
    if isPrimitive field then [] else 0x74 :: encodeUTF field.2

def encode (self : NewClass) : List UInt8 :=
  0x72 :: encodeUTF self.name ++ (self.uid ++ self.flags ::
    UInt8.ofNat (self.fields.length / 0x100) :: UInt8.ofNat (self.fields.length % 0x100) ::
      (self.fields.flatMap encodeField ++ [0x78, 0x70]))

/-- All lengths fit into two bytes. -/
def Fits (self : NewClass) : Prop :=
  self.name.length < 0x10000 ∧ self.uid.length = 8 ∧ self.fields.length < 0x10000 ∧
    ∀ field ∈ self.fields, field.1.name.length < 0x10000 ∧ field.2.length < 0x10000

instance (self : NewClass) : Decidable self.Fits := by
  unfold Fits
  infer_instance

theorem parseFields_encode {fields : List (FieldDesc × List UInt8)}
    (fits : ∀ field ∈ fields, field.1.name.length < 0x10000 ∧ field.2.length < 0x10000)
    (rest : List UInt8) :
    parseFields fields.length (fields.flatMap encodeField ++ rest) =
      some ((fields.map Prod.fst,
        (fields.filter fun field => !isPrimitive field).map Prod.snd), rest) := by
  induction fields with
  | nil => rfl
  | cons field fields ih =>
      obtain ⟨name, type⟩ := fits field (List.mem_cons_self ..)
      have others := ih fun other member => fits other (List.mem_cons_of_mem _ member)
      have first : parseBytes 1 ((field :: fields).flatMap encodeField ++ rest) =
          some ([field.1.typecode], encodeUTF field.1.name ++
            ((if isPrimitive field then [] else 0x74 :: encodeUTF field.2) ++
              (fields.flatMap encodeField ++ rest))) := by
        rw [List.flatMap_cons, encodeField, List.append_assoc, List.cons_append,
          List.cons_append, List.append_assoc]
        exact parseBytes_append [field.1.typecode] _
      rw [List.length_cons, parseFields, first]
      simp only [Option.bind_eq_bind, Option.bind_some, parseUTF_encode name, List.headD_cons]
      cases primitive : isPrimitive field with
      | true =>
          have known : (width field.1.typecode).isSome = true := primitive
          rw [if_pos rfl, if_pos known, List.nil_append, others, List.filter_cons, primitive]
          rfl
      | false =>
          have unknown : ¬ (width field.1.typecode).isSome = true := by
            rw [← isPrimitive, primitive]
            exact Bool.false_ne_true
          rw [if_neg Bool.false_ne_true, if_neg unknown, List.cons_append, parseTag_cons]
          simp only [Option.bind_some, parseUTF_encode type, others, List.filter_cons, primitive]
          rfl

/-- A class descriptor that fits is read as it was written. -/
theorem parseClassDesc_encode {self : NewClass} (fits : self.Fits) (rest : List UInt8) :
    parseClassDesc (self.encode ++ rest) = some ((self.desc, self.types), rest) := by
  obtain ⟨name, uid, count, fields⟩ := fits
  have uidRead : ∀ input, parseBytes 8 (self.uid ++ input) = some (self.uid, input) :=
    fun input => uid ▸ parseBytes_append self.uid input
  have flagsRead : ∀ input, parseBytes 1 (self.flags :: input) = some ([self.flags], input) :=
    fun input => parseBytes_append [self.flags] input
  have countRead : ∀ input, parseBytes 2 (UInt8.ofNat (self.fields.length / 0x100) ::
      UInt8.ofNat (self.fields.length % 0x100) :: input) =
        some ([UInt8.ofNat (self.fields.length / 0x100),
          UInt8.ofNat (self.fields.length % 0x100)], input) :=
    fun input => parseBytes_append [_, _] input
  rw [parseClassDesc, encode]
  simp only [List.cons_append, List.append_assoc, parseTag_cons, Option.bind_eq_bind, Option.bind_some,
    parseUTF_encode name, uidRead, flagsRead, countRead, bigEndian_pair count,
    parseFields_encode fields, List.nil_append, List.headD_cons]
  rfl

end NewClass

/-- No reader gets through a part of this input. -/
def Stuck (part : Part) (input : List UInt8) : Prop :=
  ∀ entries uses values last, ¬ Reads part ⟨input, entries, uses⟩ values last

section Stuck

variable {field : FieldDesc} {fields : List FieldDesc} {input rest bytes : List UInt8}

theorem stuck_tag {tag : UInt8} (unknown : tag ≠ 0x70 ∧ tag ≠ 0x73 ∧ tag ≠ 0x74) :
    Stuck .content (tag :: rest) := by
  intro entries uses values last reads
  cases reads with
  | null => exact unknown.1 rfl
  | string => exact unknown.2.2 rfl
  | object => exact unknown.2.1 rfl
  | annotated => exact unknown.2.1 rfl

theorem stuck_contents (some' : input ≠ []) (stuck : Stuck .content input) :
    Stuck .contents input := by
  intro entries uses values last reads
  cases reads with
  | done => exact some' rfl
  | contents first _ => exact stuck _ _ _ _ first

theorem stuck_field (object : width field.typecode = none) (stuck : Stuck .content input) :
    Stuck (.fields (field :: fields)) input := by
  intro entries uses values last reads
  cases reads with
  | primitive known => exact absurd (object.symm.trans known) (by simp)
  | field _ first => exact stuck _ _ _ _ first

theorem stuck_primitive (known : width field.typecode = some bytes.length)
    (stuck : Stuck (.fields fields) rest) : Stuck (.fields (field :: fields)) (bytes ++ rest) := by
  intro entries uses values last reads
  cases reads with
  | primitive other parsed reads =>
      obtain rfl := Option.some.inj (known.symm.trans other)
      rw [parseBytes_append] at parsed
      obtain ⟨rfl, rfl⟩ := Prod.mk.inj (Option.some.inj parsed)
      exact stuck _ _ _ _ reads
  | field other => exact absurd (known.symm.trans other) (by simp)

theorem stuck_null (object : width field.typecode = none) (stuck : Stuck (.fields fields) rest) :
    Stuck (.fields (field :: fields)) (0x70 :: rest) := by
  intro entries uses values last reads
  cases reads with
  | primitive known => exact absurd (object.symm.trans known) (by simp)
  | field _ first reads =>
      cases first with
      | null => exact stuck _ _ _ _ reads

theorem stuck_string (object : width field.typecode = none)
    (parsed : parseUTF input = some (bytes, rest)) (stuck : Stuck (.fields fields) rest) :
    Stuck (.fields (field :: fields)) (0x74 :: input) := by
  intro entries uses values last reads
  cases reads with
  | primitive known => exact absurd (object.symm.trans known) (by simp)
  | field _ first reads =>
      cases first with
      | string other =>
          obtain ⟨rfl, rfl⟩ := Prod.mk.inj (Option.some.inj (parsed.symm.trans other))
          exact stuck _ _ _ _ reads

/-- An object whose fields nobody can read is not read itself. -/
theorem stuck_object {newClass : NewClass} (fits : newClass.Fits)
    (stuck : Stuck (.fields newClass.desc.fields) rest) :
    Stuck .content (0x73 :: newClass.encode ++ rest) := by
  have readsClass : ∀ {entries uses desc next},
      ReadsClass ⟨newClass.encode ++ rest, entries, uses⟩ desc next →
        desc = newClass.desc ∧ next.input = rest := by
    intro entries uses desc next reads
    generalize whole : newClass.encode ++ rest = input at reads
    cases reads with
    | full parsed =>
        rw [← whole, NewClass.parseClassDesc_encode fits] at parsed
        obtain ⟨same, rfl⟩ := Prod.mk.inj (Option.some.inj parsed)
        exact ⟨(Prod.mk.inj same).1.symm, rfl⟩
    | reference => exact absurd (List.cons.inj whole).1 (by decide)
  intro entries uses values last reads
  cases reads with
  | object reads _ more =>
      obtain ⟨rfl, rfl⟩ := readsClass reads
      exact stuck _ _ _ _ more
  | annotated reads _ more =>
      obtain ⟨rfl, rfl⟩ := readsClass reads
      exact stuck _ _ _ _ more

end Stuck

end JavaSerialization

end CodeCollect.Library
