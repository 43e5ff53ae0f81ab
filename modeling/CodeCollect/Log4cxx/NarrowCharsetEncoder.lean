import CodeCollect.Log4cxx.CharsetEncoder

namespace CodeCollect.Log4cxx

open CodeCollect.Library
open Transcoder (decode decodeError lossChar)

/-- These charsets have one byte for each of their values. -/
inductive NarrowCharset where
  | usASCII
  | isoLatin1
deriving DecidableEq

namespace NarrowCharset

/-- This is the largest value of the charset. -/
def limit : NarrowCharset → Nat
  | .usASCII => 0x7F
  | .isoLatin1 => 0xFF

theorem limit_lt (charset : NarrowCharset) : charset.limit < 0x100 := by
  cases charset <;> decide

theorem le_limit (charset : NarrowCharset) : 0x7F ≤ charset.limit := by
  cases charset <;> decide

/-- This is `encode` of both encoders, with so much room left in the buffer. -/
def encode (charset : NarrowCharset) (remaining : Nat) (src : List UInt8) : Encoded UInt8 :=
  if remaining = 0 ∨ src.isEmpty then ⟨[], false, src⟩
  else if (decode src).1 ≤ charset.limit then
    let later := encode charset (remaining - 1) (decode src).2
    ⟨UInt8.ofNat (decode src).1 :: later.bytes, later.failed, later.rest⟩
  else ⟨[], true, src⟩
termination_by remaining

end NarrowCharset

/-- An iterator moves past one character and all continuation bytes, and it stops at the byte
behind the string, which is zero. -/
def skipCharacter (src : List UInt8) : List UInt8 :=
  src.tail.dropWhile fun byte => byte.toNat &&& 0xC0 == 0x80

/-- This is `CharsetEncoder::encode`: what it writes into a buffer with so much room, and where it
leaves the iterator. -/
def CharsetEncoder.encode (charset : NarrowCharset) (remaining : Nat) (src : List UInt8) :
    List UInt8 × List UInt8 :=
  let stat := charset.encode remaining src
  if stat.failed ∧ stat.rest ≠ [] then
    (if stat.bytes.length < remaining then stat.bytes ++ [lossChar] else stat.bytes,
      skipCharacter stat.rest)
  else (stat.bytes, stat.rest)

namespace OutputStreamWriter

def BUFSIZE : Nat := 1024

/-- One round of the loop in `write` fills the buffer and writes it out. -/
def writeRound (charset : NarrowCharset) (capacity : Nat) : TextRound UInt8 UInt8 :=
  fun src => some (CharsetEncoder.encode charset capacity src)

/-- The function `write` ends and has written these bytes. -/
def Writes (charset : NarrowCharset) (capacity : Nat) (str output : List UInt8) : Prop :=
  ∃ written, TextRound.Ends (writeRound charset capacity) str written ∧
    output = if str = [] then [] else written ++ (CharsetEncoder.encode charset capacity []).1

end OutputStreamWriter

namespace Transcoder

def BUFSIZE : Nat := 256

/-- This is one round of the loop with the buffer, which steps over one byte after an error. -/
def encodeRound (charset : NarrowCharset) : TextRound UInt8 UInt8 :=
  fun src =>
    let stat := charset.encode BUFSIZE src
    if stat.failed then
      match stat.rest with
      | [] => none
      | _ :: rest => some (stat.bytes ++ [lossChar], rest)
    else some (stat.bytes, stat.rest)

/-- This is the test of the first loop of `encode`. -/
def isASCII (byte : UInt8) : Bool := byte < 0x80

/-- The function `encode` for a string ends and has appended these bytes. -/
def EncodesString (charset : NarrowCharset) (src output : List UInt8) : Prop :=
  ∃ written, TextRound.Ends (encodeRound charset) (src.dropWhile isASCII) written ∧
    output = src.takeWhile isASCII ++ written

end Transcoder

section Rounds

variable {charset : NarrowCharset} {src : List UInt8}

/-- This round takes one value, and it recovers from an error in its own way. -/
def narrowRound (charset : NarrowCharset) (recover : List UInt8 → List UInt8) :
    TextRound UInt8 UInt8 :=
  fun src =>
    some (if (decode src).1 ≤ charset.limit then ([UInt8.ofNat (decode src).1], (decode src).2)
      else ([lossChar], recover src))

/-- A call encodes some values, and it fails only at a value that is too large. -/
theorem narrowEncode_steps (recover : List UInt8 → List UInt8) (remaining : Nat)
    (src : List UInt8) :
    ∃ count, TextRound.Steps (narrowRound charset recover) count src
        (charset.encode remaining src).bytes (charset.encode remaining src).rest ∧
      (src ≠ [] → 0 < remaining → (charset.encode remaining src).failed = false → count ≠ 0) ∧
      ((charset.encode remaining src).failed = true →
        (charset.encode remaining src).rest ≠ [] ∧
          charset.limit < (decode (charset.encode remaining src).rest).1 ∧
            (charset.encode remaining src).bytes.length < remaining) := by
  fun_induction charset.encode remaining src with
  | case1 remaining src stops =>
      refine ⟨0, .none src, fun going room _ => ?_, fun failed => absurd failed (by simp)⟩
      rcases stops with full | empty
      · omega
      · exact absurd (List.isEmpty_iff.mp empty) going
  | case2 remaining src continues small later ih =>
      have going : src ≠ [] := fun empty => continues (Or.inr (List.isEmpty_iff.mpr empty))
      have room : remaining ≠ 0 := fun full => continues (Or.inl full)
      obtain ⟨count, steps, _, failing⟩ := ih
      have taken : narrowRound charset recover src =
          some ([UInt8.ofNat (decode src).1], (decode src).2) := by
        rw [narrowRound, if_pos small]
      refine ⟨count + 1, .more going taken steps, fun _ _ _ => count.succ_ne_zero, ?_⟩
      intro failed
      obtain ⟨some, large, fits⟩ := failing failed
      refine ⟨some, large, ?_⟩
      rw [List.length_cons]
      change later.bytes.length < remaining - 1 at fits
      omega
  | case3 remaining src continues large =>
      have going : src ≠ [] := fun empty => continues (Or.inr (List.isEmpty_iff.mpr empty))
      have room : remaining ≠ 0 := fun full => continues (Or.inl full)
      refine ⟨0, .none src, fun _ _ failed => absurd failed (by simp), fun _ => ?_⟩
      exact ⟨going, Nat.lt_of_not_le large, Nat.pos_of_ne_zero room⟩

/-- This round fills a buffer, and it recovers from an error in its own way. -/
def bufferedRound (charset : NarrowCharset) (capacity : Nat)
    (recover : List UInt8 → List UInt8) : TextRound UInt8 UInt8 :=
  fun src =>
    let stat := charset.encode capacity src
    some (if stat.failed then (stat.bytes ++ [lossChar], recover stat.rest)
      else (stat.bytes, stat.rest))

/-- The size of the buffer does not matter. -/
theorem ends_buffered_iff {recover : List UInt8 → List UInt8} {capacity : Nat}
    (room : 0 < capacity) {output : List UInt8} :
    TextRound.Ends (bufferedRound charset capacity recover) src output ↔
      TextRound.Ends (narrowRound charset recover) src output := by
  apply TextRound.ends_bundles
  intro text going
  obtain ⟨count, steps, some, failing⟩ :=
    @narrowEncode_steps charset recover capacity text
  cases failed : (charset.encode capacity text).failed with
  | false =>
      obtain ⟨count, rfl⟩ := Nat.exists_eq_succ_of_ne_zero (some going room failed)
      refine ⟨count, _, _, ?_, steps⟩
      rw [bufferedRound]
      rw [failed, if_neg (by decide)]
  | true =>
      obtain ⟨more, large, _⟩ := failing failed
      have last : narrowRound charset recover (charset.encode capacity text).rest =
          Option.some ([lossChar], recover (charset.encode capacity text).rest) := by
        rw [narrowRound, if_neg (by omega)]
      refine ⟨count, _, _, ?_, steps.trans (TextRound.Steps.one more last)⟩
      rw [bufferedRound]
      rw [failed, if_pos rfl]

/-- The writer skips a whole character. -/
theorem writeRound_eq {capacity : Nat} :
    OutputStreamWriter.writeRound charset capacity =
      bufferedRound charset capacity skipCharacter := by
  funext src
  obtain ⟨_, _, _, failing⟩ := @narrowEncode_steps charset skipCharacter capacity src
  rw [OutputStreamWriter.writeRound, bufferedRound, CharsetEncoder.encode]
  cases failed : (charset.encode capacity src).failed with
  | false => rw [if_neg (by simp), if_neg (by simp)]
  | true =>
      obtain ⟨more, _, fits⟩ := failing failed
      rw [if_pos ⟨rfl, more⟩, if_pos fits, if_pos rfl]

/-- The transcoder steps over one byte. -/
theorem encodeRound_eq :
    Transcoder.encodeRound charset = bufferedRound charset Transcoder.BUFSIZE List.tail := by
  funext src
  obtain ⟨_, _, _, failing⟩ := @narrowEncode_steps charset List.tail Transcoder.BUFSIZE src
  rw [Transcoder.encodeRound, bufferedRound]
  cases failed : (charset.encode Transcoder.BUFSIZE src).failed with
  | false => rw [if_neg (by simp), if_neg (by simp)]
  | true =>
      rw [if_pos rfl, if_pos rfl]
      split
      · rename_i empty
        exact absurd empty (failing failed).1
      · rename_i byte rest split
        rw [split, List.tail_cons]

end Rounds

section Characters

variable {charset : NarrowCharset}

/-- A character is written as its value, or as one loss character. -/
def narrowImage (charset : NarrowCharset) (c : Char) : List UInt8 :=
  if c.toNat ≤ charset.limit then [UInt8.ofNat c.toNat] else [lossChar]

/-- The standard bytes of a character are one leading byte and continuation bytes. -/
theorem utf8EncodeChar_shape (c : Char) :
    ∃ lead continuation, String.utf8EncodeChar c = lead :: continuation ∧
      lead.toNat &&& 0xC0 ≠ 0x80 ∧
      ∀ byte ∈ continuation, byte.toNat &&& 0xC0 = 0x80 := by
  have bound := Transcoder.scalar_bound c
  have follows : ∀ n, ∀ byte ∈ [UInt8.ofNat (0x80 + n % 0x40)], byte.toNat &&& 0xC0 = 0x80 := by
    intro n byte member
    rw [List.mem_singleton.mp member]
    exact (Transcoder.continuation_masks (Nat.mod_lt _ (by decide))).1
  rw [← Transcoder.encodeUTF8_eq]
  rcases Transcoder.encodeUTF8_cases bound with ⟨range, bytes⟩ | ⟨low, range, bytes⟩ |
    ⟨low, range, bytes⟩ | ⟨low, bytes⟩
  · refine ⟨_, _, bytes, ?_, fun byte member => absurd member List.not_mem_nil⟩
    have masks : ∀ n < 0x80, (UInt8.ofNat n).toNat &&& 0xC0 ≠ 0x80 := by decide
    exact masks _ range
  · refine ⟨_, _, bytes, ?_, follows _⟩
    rw [(Transcoder.two_masks (by omega)).2.1]
    decide
  · refine ⟨_, _, bytes, ?_, List.forall_mem_append.mpr ⟨follows _, follows _⟩⟩
    rw [(Transcoder.three_masks (by omega)).2.1]
    decide
  · refine ⟨_, _, bytes, ?_, List.forall_mem_append.mpr ⟨follows _,
      List.forall_mem_append.mpr ⟨follows _, follows _⟩⟩⟩
    rw [(Transcoder.four_masks (by omega)).2.1]
    decide

/-- A value of the charset is read as it is, and all others are too large. -/
theorem decode_narrow (c : Char) (rest : List UInt8) :
    c.toNat ≤ charset.limit ∧ decode (String.utf8EncodeChar c ++ rest) = (c.toNat, rest) ∨
      ¬ c.toNat ≤ charset.limit ∧
        ¬ (decode (String.utf8EncodeChar c ++ rest)).1 ≤ charset.limit := by
  have limit := charset.limit_lt
  rcases Transcoder.decode_char c rest with ⟨error, refused⟩ | ⟨decoded, _, _⟩
  · refine Or.inr ⟨?_, ?_⟩
    · rcases refused with rfl | rfl
      · change ¬ 0x800 ≤ charset.limit
        omega
      · change ¬ 0xFFFF ≤ charset.limit
        omega
    · rw [error, decodeError]
      omega
  · by_cases small : c.toNat ≤ charset.limit
    · exact Or.inl ⟨small, decoded⟩
    · exact Or.inr ⟨small, by rwa [decoded]⟩

theorem skipCharacter_char (c : Char) (others : List Char) :
    skipCharacter (String.utf8EncodeChar c ++ others.flatMap String.utf8EncodeChar) =
      others.flatMap String.utf8EncodeChar := by
  obtain ⟨lead, continuation, bytes, _, follows⟩ := utf8EncodeChar_shape c
  rw [skipCharacter, bytes, List.cons_append, List.tail_cons,
    List.dropWhile_append_of_pos (by simpa using follows)]
  cases others with
  | nil => rfl
  | cons next others =>
      obtain ⟨lead, _, bytes, leads, _⟩ := utf8EncodeChar_shape next
      rw [List.flatMap_cons, bytes, List.cons_append,
        List.dropWhile_cons_of_neg (by simpa using leads)]

/-- The writer ends with one byte for each character, for every size of its buffer. -/
theorem writes_chars {capacity : Nat} (room : 0 < capacity) (chars : List Char) :
    OutputStreamWriter.Writes charset capacity (chars.flatMap String.utf8EncodeChar)
      (chars.flatMap (narrowImage charset)) := by
  have read : ∀ (c : Char) (others : List Char), narrowRound charset skipCharacter
      (String.utf8EncodeChar c ++ others.flatMap String.utf8EncodeChar) =
        some (narrowImage charset c, others.flatMap String.utf8EncodeChar) := by
    intro c others
    rw [narrowRound, narrowImage]
    rcases @decode_narrow charset c (others.flatMap String.utf8EncodeChar) with
      ⟨small, decoded⟩ | ⟨large, refused⟩
    · rw [decoded, if_pos small, if_pos small]
    · rw [if_neg refused, if_neg large, skipCharacter_char]
  have ends := TextRound.ends_items (fun _ => String.utf8EncodeChar_ne_nil) read chars
  refine ⟨_, (writeRound_eq ▸ (ends_buffered_iff room).mpr ends), ?_⟩
  have finish : (CharsetEncoder.encode charset capacity []).1 = [] := by
    have stops : capacity = 0 ∨ ([] : List UInt8).isEmpty = true := Or.inr rfl
    rw [CharsetEncoder.encode, NarrowCharset.encode, if_pos stops]
    rfl
  rw [finish, List.append_nil]
  split
  · rename_i empty
    cases chars with
    | nil => rfl
    | cons c chars => exact absurd empty (by simp [String.utf8EncodeChar_ne_nil])
  · rfl

/-- The transcoder writes a loss character for each byte of a character that is too large. -/
def stringImage (charset : NarrowCharset) (c : Char) : List UInt8 :=
  if c.toNat ≤ charset.limit then [UInt8.ofNat c.toNat]
  else List.replicate (String.utf8EncodeChar c).length lossChar

theorem continuation_refused {byte : UInt8} (follows : byte.toNat &&& 0xC0 = 0x80)
    (rest : List UInt8) : ¬ (decode (byte :: rest)).1 ≤ charset.limit := by
  have limit := charset.limit_lt
  obtain ⟨y, small, rfl⟩ := Transcoder.eq_continuation follows
  rw [Transcoder.decode_continuation rest small, decodeError]
  omega

/-- The loop gives up the continuation bytes one by one. -/
theorem ends_continuation {continuation rest later : List UInt8}
    (follows : ∀ byte ∈ continuation, byte.toNat &&& 0xC0 = 0x80)
    (ends : TextRound.Ends (narrowRound charset List.tail) rest later) :
    TextRound.Ends (narrowRound charset List.tail) (continuation ++ rest)
      (List.replicate continuation.length lossChar ++ later) := by
  induction continuation with
  | nil => exact ends
  | cons byte continuation ih =>
      rw [List.forall_mem_cons] at follows
      have taken : narrowRound charset List.tail (byte :: (continuation ++ rest)) =
          some ([lossChar], continuation ++ rest) := by
        rw [narrowRound, if_neg (continuation_refused follows.1 _), List.tail_cons]
      have onward := TextRound.Ends.more (List.cons_ne_nil _ _) taken (ih follows.2)
      exact onward

theorem ends_stringImage (chars : List Char) :
    TextRound.Ends (narrowRound charset List.tail) (chars.flatMap String.utf8EncodeChar)
      (chars.flatMap (stringImage charset)) := by
  induction chars with
  | nil => exact .done
  | cons c chars ih =>
      rw [List.flatMap_cons, List.flatMap_cons, stringImage]
      obtain ⟨lead, continuation, bytes, leads, follows⟩ := utf8EncodeChar_shape c
      have going : String.utf8EncodeChar c ++ chars.flatMap String.utf8EncodeChar ≠ [] := by
        simp [String.utf8EncodeChar_ne_nil]
      rcases @decode_narrow charset c (chars.flatMap String.utf8EncodeChar) with
        ⟨small, decoded⟩ | ⟨large, refused⟩
      · rw [if_pos small]
        apply TextRound.Ends.more going _ ih
        rw [narrowRound, decoded, if_pos small]
      · have taken : narrowRound charset List.tail
            (String.utf8EncodeChar c ++ chars.flatMap String.utf8EncodeChar) =
              some ([lossChar], continuation ++ chars.flatMap String.utf8EncodeChar) := by
          rw [narrowRound, if_neg refused, bytes, List.cons_append, List.tail_cons]
        rw [if_neg large]
        have ends := TextRound.Ends.more going taken (ends_continuation follows ih)
        rw [bytes] at ends ⊢
        exact ends

theorem narrowRound_ascii {byte : UInt8} (ascii : Transcoder.isASCII byte)
    (recover : List UInt8 → List UInt8) (rest : List UInt8) :
    narrowRound charset recover (byte :: rest) = some ([byte], rest) := by
  have small : byte.toNat ≤ 0x7F := Nat.lt_succ_iff.mp (UInt8.lt_iff_toNat_lt.mp
    (of_decide_eq_true ascii))
  have decoded : decode (byte :: rest) = (byte.toNat, rest) := by
    rw [Transcoder.decode.eq_def]
    exact if_pos small
  rw [narrowRound, decoded, if_pos (small.trans charset.le_limit), UInt8.ofNat_toNat]

/-- The first loop takes bytes that the second one would write as they are. -/
theorem encodesString_iff {src output : List UInt8} :
    Transcoder.EncodesString charset src output ↔
      TextRound.Ends (narrowRound charset List.tail) src output := by
  rw [Transcoder.EncodesString, encodeRound_eq]
  simp only [ends_buffered_iff (show 0 < Transcoder.BUFSIZE by decide)]
  induction src generalizing output with
  | nil => simp
  | cons byte src ih =>
      by_cases ascii : Transcoder.isASCII byte
      · rw [List.dropWhile_cons_of_pos ascii, List.takeWhile_cons_of_pos ascii,
          TextRound.ends_iff (List.cons_ne_nil _ _) (narrowRound_ascii ascii _ _)]
        constructor
        · intro both
          obtain ⟨written, ends, rfl⟩ := both
          exact ⟨_, rfl, ih.mp ⟨written, ends, rfl⟩⟩
        · intro goes
          obtain ⟨later, rfl, onward⟩ := goes
          obtain ⟨written, ends, rfl⟩ := ih.mpr onward
          exact ⟨written, ends, rfl⟩
      · rw [List.dropWhile_cons_of_neg ascii, List.takeWhile_cons_of_neg ascii]
        simp

/-- The transcoder writes the same bytes as the writer exactly when the charset has all
characters. -/
theorem narrow_writes_iff (charset : NarrowCharset) (chars : List Char) :
    OutputStreamWriter.Writes charset OutputStreamWriter.BUFSIZE
        (chars.flatMap String.utf8EncodeChar) (chars.flatMap (narrowImage charset)) ∧
      (Transcoder.EncodesString charset (chars.flatMap String.utf8EncodeChar)
          (chars.flatMap (narrowImage charset)) ↔
        ∀ c ∈ chars, c.toNat ≤ charset.limit) := by
  refine ⟨writes_chars (by decide) chars, ?_⟩
  have same : Transcoder.EncodesString charset (chars.flatMap String.utf8EncodeChar)
      (chars.flatMap (narrowImage charset)) ↔
        chars.flatMap (narrowImage charset) = chars.flatMap (stringImage charset) := by
    rw [encodesString_iff]
    exact ⟨fun ends => ends.unique (ends_stringImage chars), fun equal =>
      equal ▸ ends_stringImage chars⟩
  have longer : ∀ c : Char, ¬ c.toNat ≤ charset.limit →
      2 ≤ (String.utf8EncodeChar c).length := by
    intro c large
    have limit := charset.le_limit
    rw [← Transcoder.encodeUTF8_eq]
    rcases Transcoder.encodeUTF8_cases (Transcoder.scalar_bound c) with ⟨range, _⟩ |
      ⟨_, _, bytes⟩ | ⟨_, _, bytes⟩ | ⟨_, bytes⟩
    · omega
    · simp [bytes]
    · simp [bytes]
    · simp [bytes]
  rw [same, TextRound.flatMap_eq_iff_of_length_le]
  · apply forall_congr'
    intro c
    apply imp_congr_right
    intro _
    rw [narrowImage, stringImage]
    split
    · rename_i small
      exact iff_of_true rfl small
    · rename_i large
      refine iff_of_false (fun equal => ?_) large
      have lengths := congrArg List.length equal
      rw [List.length_replicate, List.length_singleton] at lengths
      have two := longer c large
      omega
  · intro c _
    rw [narrowImage, stringImage]
    split
    · exact le_refl _
    · rename_i large
      rw [List.length_replicate, List.length_singleton]
      exact (Nat.le_succ 1).trans (longer c large)

/-- The transcoder writes two loss characters for the two bytes of U+00E9. -/
theorem encodesString_twice :
    Transcoder.EncodesString .usASCII (['é'].flatMap String.utf8EncodeChar) [0x3F, 0x3F] ∧
      ¬ Transcoder.EncodesString .usASCII (['é'].flatMap String.utf8EncodeChar)
        (['é'].flatMap (narrowImage .usASCII)) := by
  have ends := encodesString_iff.mpr (@ends_stringImage .usASCII ['é'])
  refine ⟨ends, fun other => ?_⟩
  have same := (encodesString_iff.mp ends).unique (encodesString_iff.mp other)
  exact absurd same (by decide)

end Characters

end CodeCollect.Log4cxx
