import CodeCollect.Log4cxx.LogMap
import CodeCollect.Log4cxx.LogChar

namespace CodeCollect.Log4cxx

namespace LogChar

/-- This is `UTF8CharsetEncoder::encode`, which may run for at most `fuel` rounds. -/
def encodeLoop (decode : LogChars → Nat × LogChars) :
    Nat → LogChars → Nat → List UInt8 → List UInt8
  | 0, _, _, out => out
  | fuel + 1, chars, remaining, out =>
      if chars ≠ [] ∧ 8 ≤ remaining then
        let sv := (decode chars).1
        if sv = Transcoder.decodeError then out
        else
          let bytes := Transcoder.encodeUTF8 sv
          encodeLoop decode fuel (decode chars).2 (remaining - bytes.length) (out ++ bytes)
      else out

/-- Each round of the loop takes at least one `logchar`. -/
def encodeInto (decode : LogChars → Nat × LogChars) (chars : LogChars) (maxSize : Nat) :
    List UInt8 :=
  encodeLoop decode chars.length chars maxSize []

/-- This is what `writeObject` puts into its data buffer. -/
def dataBuf (build : LogChar) (val : LogChars) : List UInt8 :=
  let maxSize := 6 * val.length
  match build with
  | .utf8 => val.map UInt8.ofNat
  | .utf16 => encodeInto decodeUTF16 val maxSize
  | .utf32 => encodeInto decodeUTF32 val maxSize

end LogChar

/-- A class is known by its name, the handles of its descriptor and the bytes of that. -/
structure Prolog where
  className : LogString
  classDescIncrement : Nat
  classDesc : List UInt8

structure ObjectOutputStream where
  os : List UInt8
  objectHandle : Nat
  classDescriptions : LogMap Nat

namespace ObjectOutputStream

/-- The constructor writes the magic number and the version. -/
def create : ObjectOutputStream := ⟨[0xAC, 0xED, 0x00, 0x05], 0x7E0000, ∅⟩

def writeBytes (self : ObjectOutputStream) (bytes : List UInt8) : ObjectOutputStream :=
  { self with os := self.os ++ bytes }

def writeByte (self : ObjectOutputStream) (val : UInt8) : ObjectOutputStream :=
  self.writeBytes [val]

def writeNull (self : ObjectOutputStream) : ObjectOutputStream := self.writeByte 0x70

/-- The counter is an `unsigned int`. -/
def bumpHandle (self : ObjectOutputStream) (increment : Nat) : ObjectOutputStream :=
  { self with objectHandle := (self.objectHandle + increment) % 0x100000000 }

/-- This is the byte of a number above the lowest `shift` bits. -/
def byteAt (val shift : Nat) : UInt8 := UInt8.ofNat ((val >>> shift) &&& 0xFF)

/-- Negative numbers have the bytes of their two's complement. -/
def intByteAt (val : Int) (shift : Nat) : UInt8 := UInt8.ofNat ((val >>> shift) % 0x100).toNat

def writeInt (self : ObjectOutputStream) (val : Int) : ObjectOutputStream :=
  self.writeBytes ([24, 16, 8, 0].map (intByteAt val))

def writeLong (self : ObjectOutputStream) (val : Int) : ObjectOutputStream :=
  self.writeBytes ([56, 48, 40, 32, 24, 16, 8, 0].map (intByteAt val))

/-- Both functions for strings end in this way. -/
def writeText (self : ObjectOutputStream) (data : List UInt8) : ObjectOutputStream :=
  let len := data.length
  ((self.bumpHandle 1).writeBytes [0x74, byteAt len 8, byteAt len 0]).writeBytes data

def writeUTFString (self : ObjectOutputStream) (val : List UInt8) : ObjectOutputStream :=
  self.writeText val

/-- This is the overload for strings. -/
def writeObject (build : LogChar) (self : ObjectOutputStream) (val : LogChars) :
    ObjectOutputStream :=
  self.writeText (build.dataBuf val)

def writeProlog (self : ObjectOutputStream) (prolog : Prolog) : ObjectOutputStream :=
  match self.classDescriptions[prolog.className]? with
  | some handle =>
      (self.writeBytes (0x73 :: 0x71 :: [24, 16, 8, 0].map (byteAt handle))).bumpHandle 1
  | none =>
      ((({ self with
          classDescriptions :=
            self.classDescriptions.insert prolog.className self.objectHandle }).writeByte
        0x73).writeBytes prolog.classDesc).bumpHandle (prolog.classDescIncrement + 1)

def hashtable : Prolog where
  className := "java.util.Hashtable".toList
  classDescIncrement := 1
  classDesc :=
    [0x72, 0x00, 0x13, 0x6A, 0x61, 0x76, 0x61, 0x2E, 0x75, 0x74, 0x69, 0x6C, 0x2E, 0x48, 0x61,
     0x73, 0x68, 0x74, 0x61, 0x62, 0x6C, 0x65, 0x13, 0xBB, 0x0F, 0x25, 0x21, 0x4A, 0xE4, 0xB8,
     0x03, 0x00, 0x02, 0x46, 0x00, 0x0A, 0x6C, 0x6F, 0x61, 0x64, 0x46, 0x61, 0x63, 0x74, 0x6F,
     0x72, 0x49, 0x00, 0x09, 0x74, 0x68, 0x72, 0x65, 0x73, 0x68, 0x6F, 0x6C, 0x64, 0x78, 0x70]

/-- This is the overload for maps, which are known by their entries in the order of the keys. -/
def writeMap (build : LogChar) (self : ObjectOutputStream) (val : List (LogChars × LogChars)) :
    ObjectOutputStream :=
  let opened := (self.writeProlog hashtable).writeBytes
    [0x3F, 0x40, 0x00, 0x00, 0x00, 0x00, 0x00, 0x05, 0x77, 0x08, 0x00, 0x00, 0x00, 0x07]
  let sized := opened.writeBytes ([24, 16, 8, 0].map (byteAt val.length))
  let filled := val.foldl
    (fun stream entry => (stream.writeObject build entry.1).writeObject build entry.2) sized
  filled.writeByte 0x78

end ObjectOutputStream

/-- These are the functions of `std::string` on bytes. -/
def ascii (text : LogString) : List UInt8 := text.map fun c => UInt8.ofNat c.toNat

/-- The default texts are known by their addresses, which no other text has. -/
structure LocationInfo where
  lineNumber : Int
  fileName : Option (List UInt8)
  methodName : Option (List UInt8)

namespace LocationInfo

def locationInfo : Prolog where
  className := "org.apache.log4j.spi.LocationInfo".toList
  classDescIncrement := 2
  classDesc :=
    [0x72, 0x00, 0x21, 0x6F, 0x72, 0x67, 0x2E, 0x61, 0x70, 0x61, 0x63, 0x68, 0x65, 0x2E, 0x6C,
     0x6F, 0x67, 0x34, 0x6A, 0x2E, 0x73, 0x70, 0x69, 0x2E, 0x4C, 0x6F, 0x63, 0x61, 0x74, 0x69,
     0x6F, 0x6E, 0x49, 0x6E, 0x66, 0x6F, 0xED, 0x99, 0xBB, 0xE1, 0x4A, 0x91, 0xA5, 0x7C, 0x02,
     0x00, 0x01, 0x4C, 0x00, 0x08, 0x66, 0x75, 0x6C, 0x6C, 0x49, 0x6E, 0x66, 0x6F, 0x74, 0x00,
     0x12, 0x4C, 0x6A, 0x61, 0x76, 0x61, 0x2F, 0x6C, 0x61, 0x6E, 0x67, 0x2F, 0x53, 0x74, 0x72,
     0x69, 0x6E, 0x67, 0x3B, 0x78, 0x70]

/-- This is the last place of two colons up to a position, as `rfind` finds it. -/
def rfindColons (text : List UInt8) (position : Nat) : Option Nat :=
  (List.range (position + 1)).reverse.find? fun i => (text.drop i).take 2 == ascii [':', ':']

/-- The class separator before the arguments becomes a dot. -/
def fullInfo (self : LocationInfo) : List UInt8 :=
  let methodName := self.methodName.getD (ascii ['?', ':', ':', '?'])
  let paren := UInt8.ofNat '('.toNat
  let untyped :=
    match methodName.idxOf? paren, methodName.idxOf? (UInt8.ofNat ' '.toNat) with
    | some openParen, some space =>
        if space < openParen then methodName.drop (space + 1) else methodName
    | _, _ => methodName
  let dotted :=
    match untyped.idxOf? paren with
    | none => untyped
    | some openParen =>
        match rfindColons untyped openParen with
        | some classSep => untyped.take classSep ++ ascii ['.'] ++ untyped.drop (classSep + 2)
        | none => ascii ['.'] ++ untyped
  dotted ++ ascii ['('] ++ self.fileName.getD (ascii ['?']) ++ ascii [':'] ++
    ascii (StringHelper.toString self.lineNumber) ++ ascii [')']

/-- A location that is not available has the default values. -/
def available (self : LocationInfo) : Bool :=
  !(self.lineNumber == -1 && self.fileName.isNone && self.methodName.isNone)

def write (self : LocationInfo) (os : ObjectOutputStream) : ObjectOutputStream :=
  if self.available then (os.writeProlog locationInfo).writeUTFString self.fullInfo
  else os.writeNull

end LocationInfo

/-- An absent copy or context is a null pointer. -/
structure SerializedEvent where
  timeStamp : Int
  logger : LogChars
  locationInfo : LocationInfo
  mdcCopy : Option (List (LogChars × LogChars))
  ndc : Option LogChars
  message : LogChars
  threadName : LogChars
  level : Int

namespace LoggingEvent

def loggingEvent : Prolog where
  className := "org.apache.log4j.spi.LoggingEvent".toList
  classDescIncrement := 8
  classDesc :=
    [0x72, 0x00, 0x21, 0x6F, 0x72, 0x67, 0x2E, 0x61, 0x70, 0x61, 0x63, 0x68, 0x65, 0x2E, 0x6C,
     0x6F, 0x67, 0x34, 0x6A, 0x2E, 0x73, 0x70, 0x69, 0x2E, 0x4C, 0x6F, 0x67, 0x67, 0x69, 0x6E,
     0x67, 0x45, 0x76, 0x65, 0x6E, 0x74, 0xF3, 0xF2, 0xB9, 0x23, 0x74, 0x0B, 0xB5, 0x3F, 0x03,
     0x00, 0x0A, 0x5A, 0x00, 0x15, 0x6D, 0x64, 0x63, 0x43, 0x6F, 0x70, 0x79, 0x4C, 0x6F, 0x6F,
     0x6B, 0x75, 0x70, 0x52, 0x65, 0x71, 0x75, 0x69, 0x72, 0x65, 0x64, 0x5A, 0x00, 0x11, 0x6E,
     0x64, 0x63, 0x4C, 0x6F, 0x6F, 0x6B, 0x75, 0x70, 0x52, 0x65, 0x71, 0x75, 0x69, 0x72, 0x65,
     0x64, 0x4A, 0x00, 0x09, 0x74, 0x69, 0x6D, 0x65, 0x53, 0x74, 0x61, 0x6D, 0x70, 0x4C, 0x00,
     0x0C, 0x63, 0x61, 0x74, 0x65, 0x67, 0x6F, 0x72, 0x79, 0x4E, 0x61, 0x6D, 0x65, 0x74, 0x00,
     0x12, 0x4C, 0x6A, 0x61, 0x76, 0x61, 0x2F, 0x6C, 0x61, 0x6E, 0x67, 0x2F, 0x53, 0x74, 0x72,
     0x69, 0x6E, 0x67, 0x3B, 0x4C, 0x00, 0x0C, 0x6C, 0x6F, 0x63, 0x61, 0x74, 0x69, 0x6F, 0x6E,
     0x49, 0x6E, 0x66, 0x6F, 0x74, 0x00, 0x23, 0x4C, 0x6F, 0x72, 0x67, 0x2F, 0x61, 0x70, 0x61,
     0x63, 0x68, 0x65, 0x2F, 0x6C, 0x6F, 0x67, 0x34, 0x6A, 0x2F, 0x73, 0x70, 0x69, 0x2F, 0x4C,
     0x6F, 0x63, 0x61, 0x74, 0x69, 0x6F, 0x6E, 0x49, 0x6E, 0x66, 0x6F, 0x3B, 0x4C, 0x00, 0x07,
     0x6D, 0x64, 0x63, 0x43, 0x6F, 0x70, 0x79, 0x74, 0x00, 0x15, 0x4C, 0x6A, 0x61, 0x76, 0x61,
     0x2F, 0x75, 0x74, 0x69, 0x6C, 0x2F, 0x48, 0x61, 0x73, 0x68, 0x74, 0x61, 0x62, 0x6C, 0x65,
     0x3B, 0x4C, 0x00, 0x03, 0x6E, 0x64, 0x63, 0x74, 0x00, 0x12, 0x4C, 0x6A, 0x61, 0x76, 0x61,
     0x2F, 0x6C, 0x61, 0x6E, 0x67, 0x2F, 0x53, 0x74, 0x72, 0x69, 0x6E, 0x67, 0x3B, 0x4C, 0x00,
     0x0F, 0x72, 0x65, 0x6E, 0x64, 0x65, 0x72, 0x65, 0x64, 0x4D, 0x65, 0x73, 0x73, 0x61, 0x67,
     0x65, 0x74, 0x00, 0x12, 0x4C, 0x6A, 0x61, 0x76, 0x61, 0x2F, 0x6C, 0x61, 0x6E, 0x67, 0x2F,
     0x53, 0x74, 0x72, 0x69, 0x6E, 0x67, 0x3B, 0x4C, 0x00, 0x0A, 0x74, 0x68, 0x72, 0x65, 0x61,
     0x64, 0x4E, 0x61, 0x6D, 0x65, 0x74, 0x00, 0x12, 0x4C, 0x6A, 0x61, 0x76, 0x61, 0x2F, 0x6C,
     0x61, 0x6E, 0x67, 0x2F, 0x53, 0x74, 0x72, 0x69, 0x6E, 0x67, 0x3B, 0x4C, 0x00, 0x0D, 0x74,
     0x68, 0x72, 0x6F, 0x77, 0x61, 0x62, 0x6C, 0x65, 0x49, 0x6E, 0x66, 0x6F, 0x74, 0x00, 0x2B,
     0x4C, 0x6F, 0x72, 0x67, 0x2F, 0x61, 0x70, 0x61, 0x63, 0x68, 0x65, 0x2F, 0x6C, 0x6F, 0x67,
     0x34, 0x6A, 0x2F, 0x73, 0x70, 0x69, 0x2F, 0x54, 0x68, 0x72, 0x6F, 0x77, 0x61, 0x62, 0x6C,
     0x65, 0x49, 0x6E, 0x66, 0x6F, 0x72, 0x6D, 0x61, 0x74, 0x69, 0x6F, 0x6E, 0x3B, 0x78, 0x70]

def writeMDC (build : LogChar) (os : ObjectOutputStream) :
    Option (List (LogChars × LogChars)) → ObjectOutputStream
  | none | some [] => os.writeNull
  | some (entry :: entries) => os.writeMap build (entry :: entries)

def writeNDC (build : LogChar) (os : ObjectOutputStream) : Option LogChars → ObjectOutputStream
  | none => os.writeNull
  | some ndc => os.writeObject build ndc

/-- The parts behind the prolog are the fields and the level. -/
def write (build : LogChar) (os : ObjectOutputStream) (event : SerializedEvent) :
    ObjectOutputStream :=
  let flags := (os.writeProlog loggingEvent).writeBytes [0x00, 0x00]
  let timed := flags.writeLong (event.timeStamp.tdiv 1000)
  let named := timed.writeObject build event.logger
  let located := event.locationInfo.write named
  let mapped := writeMDC build located event.mdcCopy
  let nested := writeNDC build mapped event.ndc
  let said := (nested.writeObject build event.message).writeObject build event.threadName
  -- There is no throwable.
  let levelled := (((said.writeNull).writeByte 0x77).writeByte 0x04).writeInt event.level
  levelled.writeNull.writeByte 0x78

end LoggingEvent

end CodeCollect.Log4cxx
