import CodeCollect.Log4cxx.TranscoderWide

namespace CodeCollect.Log4cxx

open CodeCollect.Library

/-- This is what a call of `encode` writes, whether it fails, and where it leaves the iterator. -/
structure Encoded (Unit : Type) where
  bytes : List UInt8
  failed : Bool
  rest : List Unit
deriving DecidableEq

namespace Transcoder

def encodeUTF16BE (ch : Nat) : List UInt8 :=
  if ch ≤ 0xFFFF then [UInt8.ofNat (ch >>> 8), UInt8.ofNat (ch &&& 0xFF)]
  else if ch ≤ 0x10FFFF then
    let w := ((ch >>> 16) - 1) % 0x100
    [UInt8.ofNat (0xD8 + (w >>> 2)), UInt8.ofNat (((w &&& 0x03) <<< 6) + ((ch >>> 10) &&& 0x3F)),
      UInt8.ofNat (0xDC + ((ch &&& 0x30) >>> 4)), UInt8.ofNat (ch &&& 0xFF)]
  else [0xFF, 0xFF]

def encodeUTF16LE (ch : Nat) : List UInt8 :=
  if ch ≤ 0xFFFF then [UInt8.ofNat (ch &&& 0xFF), UInt8.ofNat (ch >>> 8)]
  else if ch ≤ 0x10FFFF then
    let w := ((ch >>> 16) - 1) % 0x100
    [UInt8.ofNat (((w &&& 0x03) <<< 6) + ((ch >>> 10) &&& 0x3F)), UInt8.ofNat (0xD8 + (w >>> 2)),
      UInt8.ofNat (ch &&& 0xFF), UInt8.ofNat (0xDC + ((ch &&& 0x30) >>> 4))]
  else [0xFF, 0xFF]

end Transcoder

/-- There is one encoder for each order of the bytes of a unit. -/
inductive ByteOrder where
  | bigEndian
  | littleEndian
deriving DecidableEq

namespace ByteOrder

def encode : ByteOrder → Nat → List UInt8
  | .bigEndian => Transcoder.encodeUTF16BE
  | .littleEndian => Transcoder.encodeUTF16LE

/-- This is the standard order of the bytes of a 16-bit unit. -/
def bytes (order : ByteOrder) (unit : Nat) : List UInt8 :=
  match order with
  | .bigEndian => [UInt8.ofNat (unit / 0x100), UInt8.ofNat unit]
  | .littleEndian => [UInt8.ofNat unit, UInt8.ofNat (unit / 0x100)]

/-- These are the standard bytes of a scalar value. -/
def standard (order : ByteOrder) (c : Char) : List UInt8 :=
  (LogChar.unitsOf .utf16 c).flatMap order.bytes

theorem encode_ne_nil (order : ByteOrder) (sv : Nat) : order.encode sv ≠ [] := by
  cases order
  · rw [encode, Transcoder.encodeUTF16BE]
    split_ifs <;> exact List.cons_ne_nil _ _
  · rw [encode, Transcoder.encodeUTF16LE]
    split_ifs <;> exact List.cons_ne_nil _ _

theorem ofNat_eq_iff {first second : Nat} :
    UInt8.ofNat first = UInt8.ofNat second ↔ first % 0x100 = second % 0x100 := by
  rw [← UInt8.toNat_inj, UInt8.toNat_ofNat', UInt8.toNat_ofNat']

theorem bytes_eq_iff (order : ByteOrder) {first second : Nat} :
    order.bytes first = order.bytes second ↔ first % 0x10000 = second % 0x10000 := by
  cases order
  · simp only [bytes, List.cons.injEq, ofNat_eq_iff, and_true]
    omega
  · simp only [bytes, List.cons.injEq, ofNat_eq_iff, and_true]
    omega

theorem bytes_length (order : ByteOrder) (unit : Nat) : (order.bytes unit).length = 2 := by
  cases order <;> rfl

/-- The last mask takes the fifth and the sixth bit. -/
theorem mask_eq (ch : Nat) : ch &&& 0xFF = ch % 0x100 ∧ ch &&& 0x3F = ch % 0x40 ∧
    ch &&& 0x03 = ch % 0x04 ∧ (ch &&& 0x30) >>> 4 = ch / 0x10 % 4 := by
  refine ⟨Nat.and_two_pow_sub_one_eq_mod ch 8, Nat.and_two_pow_sub_one_eq_mod ch 6,
    Nat.and_two_pow_sub_one_eq_mod ch 2, ?_⟩
  rw [Nat.shiftRight_and_distrib, Nat.shiftRight_eq_div_pow]
  exact Nat.and_two_pow_sub_one_eq_mod _ 2

/-- A value of 16 bits is its own unit. -/
theorem encode_unit (order : ByteOrder) {ch : Nat} (low : ch < 0x10000) :
    order.encode ch = order.bytes ch := by
  cases order
  · rw [encode, Transcoder.encodeUTF16BE, if_pos (by omega), bytes]
    simp [mask_eq, Nat.shiftRight_eq_div_pow, ofNat_eq_iff]
  · rw [encode, Transcoder.encodeUTF16LE, if_pos (by omega), bytes]
    simp [mask_eq, Nat.shiftRight_eq_div_pow, ofNat_eq_iff]

/-- A larger value has the high surrogate of the standard and its own low one. -/
theorem encode_pair (order : ByteOrder) {ch : Nat} (high : 0x10000 ≤ ch)
    (range : ch < 0x110000) :
    order.encode ch = order.bytes (0xD800 + (ch - 0x10000) / 0x400) ++
      order.bytes (0xDC00 + ch / 0x10 % 4 * 0x100 + ch % 0x100) := by
  cases order
  · rw [encode, Transcoder.encodeUTF16BE, if_neg (by omega), if_pos (by omega)]
    dsimp only
    simp only [mask_eq, bytes, List.cons_append, List.nil_append]
    simp only [Nat.shiftRight_eq_div_pow, Nat.shiftLeft_eq, List.cons.injEq, ofNat_eq_iff,
      and_true]
    omega
  · rw [encode, Transcoder.encodeUTF16LE, if_neg (by omega), if_pos (by omega)]
    dsimp only
    simp only [mask_eq, bytes, List.cons_append, List.nil_append]
    simp only [Nat.shiftRight_eq_div_pow, Nat.shiftLeft_eq, List.cons.injEq, ofNat_eq_iff,
      and_true]
    omega

/-- The masks of the encoder agree with the standard for these values. -/
def Agrees (c : Char) : Prop :=
  0x10000 ≤ c.toNat → c.toNat / 0x10 % 4 = c.toNat / 0x100 % 4

/-- The low surrogate is wrong unless two groups of two bits agree. -/
theorem encode_eq_iff (order : ByteOrder) (c : Char) :
    order.encode c.toNat = order.standard c ↔ Agrees c := by
  have range := Transcoder.scalar_bound c
  rw [standard, LogChar.unitsOf, Agrees]
  by_cases low : c.toNat < 0x10000
  · rw [if_pos low, order.encode_unit low, List.flatMap_singleton]
    exact iff_of_true rfl fun high => absurd low (by omega)
  · rw [if_neg low, order.encode_pair (by omega) range, List.flatMap_cons,
      List.flatMap_singleton, List.append_cancel_left_eq, bytes_eq_iff]
    have lowBits : (c.toNat - 0x10000) % 0x400 =
        c.toNat / 0x100 % 4 * 0x100 + c.toNat % 0x100 := by omega
    have third : c.toNat / 0x10 % 4 < 4 := Nat.mod_lt _ (by decide)
    have standardThird : c.toNat / 0x100 % 4 < 4 := Nat.mod_lt _ (by decide)
    rw [lowBits]
    generalize c.toNat / 0x10 % 4 = bits at *
    generalize c.toNat / 0x100 % 4 = standardBits at *
    omega

theorem encode_length (order : ByteOrder) (c : Char) :
    (order.encode c.toNat).length = (order.standard c).length := by
  rw [standard, LogChar.unitsOf]
  by_cases low : c.toNat < 0x10000
  · rw [if_pos low, order.encode_unit low, List.flatMap_singleton]
  · rw [if_neg low, order.encode_pair (by omega) (Transcoder.scalar_bound c), List.flatMap_cons,
      List.flatMap_singleton, List.length_append, List.length_append]
    simp only [bytes_length]

theorem standard_ne_nil (order : ByteOrder) (c : Char) : order.standard c ≠ [] := by
  rw [← List.length_pos_iff, ← encode_length]
  exact List.length_pos_iff.mpr (order.encode_ne_nil c.toNat)

end ByteOrder

section UTF16

variable {Unit : Type}

/-- This is `encode` of both encoders for UTF-16, with so much room left in the buffer. -/
def encodeUTF16 (order : ByteOrder) (decode : List Unit → Nat × List Unit) (remaining : Nat)
    (src : List Unit) : Encoded Unit :=
  if src.isEmpty ∨ remaining < 4 then ⟨[], false, src⟩
  else if (decode src).1 = Transcoder.decodeError then ⟨[], true, (decode src).2⟩
  else
    let later := encodeUTF16 order decode
      (remaining - (order.encode (decode src).1).length) (decode src).2
    ⟨order.encode (decode src).1 ++ later.bytes, later.failed, later.rest⟩
termination_by remaining
decreasing_by
  have written := List.length_pos_iff.mpr (order.encode_ne_nil (decode src).1)
  omega

/-- Each call begins with an empty buffer. -/
def utf16Calls (order : ByteOrder) (decode : List Unit → Nat × List Unit) (capacity : Nat) :
    TextRound Unit UInt8 :=
  fun src =>
    let encoded := encodeUTF16 order decode capacity src
    some (encoded.bytes, encoded.rest)

/-- A refused value is lost, and the loop goes on from where the decoder leaves it. -/
def utf16Round (order : ByteOrder) (decode : List Unit → Nat × List Unit) : TextRound Unit UInt8 :=
  fun src =>
    some (if (decode src).1 = Transcoder.decodeError then [] else order.encode (decode src).1,
      (decode src).2)

variable {order : ByteOrder} {decode : List Unit → Nat × List Unit}

/-- A call makes some rounds of the loop, and at least one when there is something to do. -/
theorem encodeUTF16_steps (remaining : Nat) (src : List Unit) :
    ∃ count, TextRound.Steps (utf16Round order decode) count src
        (encodeUTF16 order decode remaining src).bytes
        (encodeUTF16 order decode remaining src).rest ∧
      (src ≠ [] → 4 ≤ remaining → count ≠ 0) := by
  fun_induction encodeUTF16 order decode remaining src with
  | case1 remaining src stops =>
      refine ⟨0, .none src, fun going room => ?_⟩
      rcases stops with empty | full
      · exact absurd (List.isEmpty_iff.mp empty) going
      · omega
  | case2 remaining src continues error =>
      have going : src ≠ [] := fun empty => continues (Or.inl (List.isEmpty_iff.mpr empty))
      refine ⟨1, TextRound.Steps.one going ?_, fun _ _ => one_ne_zero⟩
      rw [utf16Round, if_pos error]
  | case3 remaining src continues value later ih =>
      have going : src ≠ [] := fun empty => continues (Or.inl (List.isEmpty_iff.mpr empty))
      obtain ⟨count, steps, _⟩ := ih
      refine ⟨count + 1, TextRound.Steps.more going ?_ steps, fun _ _ => count.succ_ne_zero⟩
      rw [utf16Round, if_neg value]

/-- The calls write what the loop would write into one large buffer. -/
theorem ends_utf16Calls_iff {capacity : Nat} (room : 4 ≤ capacity) {src : List Unit}
    {output : List UInt8} :
    TextRound.Ends (utf16Calls order decode capacity) src output ↔
      TextRound.Ends (utf16Round order decode) src output := by
  apply TextRound.ends_bundles
  intro text going
  obtain ⟨count, steps, some⟩ := @encodeUTF16_steps _ order decode capacity text
  obtain ⟨count, rfl⟩ := Nat.exists_eq_succ_of_ne_zero (some going room)
  exact ⟨count, _, _, rfl, steps⟩

/-- The decoder reads the units of some characters as they are and refuses all others. -/
structure Sourced (decode : List Unit → Nat × List Unit) (source : Char → List Unit)
    (readable : Char → Prop) : Prop where
  nonempty : ∀ c, source c ≠ []
  value : ∀ c, readable c → c ≠ '\uFFFF' ∧ ∀ rest, decode (source c ++ rest) = (c.toNat, rest)
  refused : ∀ c, ¬ readable c → ∀ rest, (decode (source c ++ rest)).1 = Transcoder.decodeError ∧
    ((decode (source c ++ rest)).2 = source c ++ rest ∨ (decode (source c ++ rest)).2 = rest)

/-- The calls write the standard bytes exactly when every value is read and the masks agree. -/
theorem Sourced.ends_iff {source : Char → List Unit} {readable : Char → Prop}
    (sourced : Sourced decode source readable) {capacity : Nat} (room : 4 ≤ capacity)
    (chars : List Char) :
    TextRound.Ends (utf16Calls order decode capacity) (chars.flatMap source)
        (chars.flatMap order.standard) ↔
      ∀ c ∈ chars, readable c ∧ ByteOrder.Agrees c := by
  have read : ∀ c, readable c → ∀ rest, utf16Round order decode (source c ++ rest) =
      some (order.encode c.toNat, rest) := by
    intro c can rest
    obtain ⟨last, decoded⟩ := sourced.value c can
    have value : c.toNat ≠ Transcoder.decodeError := fun same => last (Char.toNat_inj.mp same)
    rw [utf16Round, decoded, if_neg value]
  have unread : ∀ c, ¬ readable c → ∀ rest, ∃ next,
      utf16Round order decode (source c ++ rest) = some ([], next) ∧
        (next = source c ++ rest ∨ next = rest) := by
    intro c cannot rest
    obtain ⟨error, next⟩ := sourced.refused c cannot rest
    refine ⟨_, ?_, next⟩
    rw [utf16Round, if_pos error]
  rw [ends_utf16Calls_iff room, TextRound.ends_silent_iff sourced.nonempty read unread
    (fun c => (order.encode_length c).le) order.standard_ne_nil]
  simp only [order.encode_eq_iff]

end UTF16

section Builds

open Transcoder (WideBuild decodeWide decodeError)

/-- These are the units of a character in a wide string. -/
def Transcoder.WideBuild.unitsOf (build : WideBuild) : Char → LogChars :=
  match build with
  | .iso10646 | .fourBytes => LogChar.unitsOf .utf32
  | .twoBytes => LogChar.unitsOf .utf16

theorem sourced_utf8 : Sourced Transcoder.decode String.utf8EncodeChar
    fun c => c ≠ '\u0800' ∧ c ≠ '\uFFFF' where
  nonempty _ := String.utf8EncodeChar_ne_nil
  value := by
    intro c readable
    refine ⟨readable.2, fun rest => ?_⟩
    rw [← Transcoder.encodeUTF8_eq, Transcoder.decode_encodeUTF8, if_neg readable.1]
  refused := by
    intro c unreadable rest
    rw [← Transcoder.encodeUTF8_eq, Transcoder.decode_encodeUTF8]
    split
    · exact ⟨rfl, Or.inl rfl⟩
    · rename_i other
      have last : c = '\uFFFF' := not_not.mp fun different => unreadable ⟨other, different⟩
      exact ⟨by rw [last]; rfl, Or.inr rfl⟩

theorem sourced_wide (build : WideBuild) :
    Sourced (decodeWide build) build.unitsOf fun c => c ≠ '\uFFFF' where
  nonempty := by
    intro c
    cases build
    · exact LogChar.decodes_utf32.nonempty c
    · exact LogChar.decodes_utf32.nonempty c
    · exact LogChar.decodes_utf16.nonempty c
  value := by
    intro c readable
    refine ⟨readable, fun rest => ?_⟩
    cases build
    · exact LogChar.decodes_utf32.value c rest readable
    · have value : c.toNat ≠ decodeError := fun same => readable (Char.toNat_inj.mp same)
      exact (LogChar.decodeUTF16_plain (LogChar.not_surrogate c) rest).trans (by rw [if_neg value])
    · exact LogChar.decodes_utf16.value c rest readable
  refused := by
    intro c unreadable rest
    obtain rfl := not_not.mp unreadable
    cases build
    · exact ⟨rfl, Or.inr rfl⟩
    · exact ⟨rfl, Or.inl rfl⟩
    · exact ⟨rfl, Or.inl rfl⟩

/-- The standard bytes come out unless a value is refused or the masks disagree. Strings of type
`UniChar` are decoded like wide strings of two bytes. -/
theorem utf16_encodes_iff (order : ByteOrder) (build : WideBuild) {capacity : Nat}
    (room : 4 ≤ capacity) (chars : List Char) :
    (TextRound.Ends (utf16Calls order Transcoder.decode capacity)
        (chars.flatMap String.utf8EncodeChar) (chars.flatMap order.standard) ↔
      ∀ c ∈ chars, (c ≠ '\u0800' ∧ c ≠ '\uFFFF') ∧ ByteOrder.Agrees c) ∧
      (TextRound.Ends (utf16Calls order (decodeWide build) capacity)
        (chars.flatMap build.unitsOf) (chars.flatMap order.standard) ↔
      ∀ c ∈ chars, c ≠ '\uFFFF' ∧ ByteOrder.Agrees c) :=
  ⟨sourced_utf8.ends_iff room chars, (sourced_wide build).ends_iff room chars⟩

/-- The smallest buffer takes one character at a time. -/
theorem utf16_encodes_iff_smallest :
    (TextRound.Ends (utf16Calls .bigEndian Transcoder.decode 4)
        (['a', '𐄁'].flatMap String.utf8EncodeChar)
        (['a', '𐄁'].flatMap (ByteOrder.standard .bigEndian)) ↔
      ∀ c ∈ ['a', '𐄁'], (c ≠ '\u0800' ∧ c ≠ '\uFFFF') ∧ ByteOrder.Agrees c) ∧
      (TextRound.Ends (utf16Calls .bigEndian (decodeWide .twoBytes) 4)
        (['a', '𐄁'].flatMap (WideBuild.unitsOf .twoBytes))
        (['a', '𐄁'].flatMap (ByteOrder.standard .bigEndian)) ↔
      ∀ c ∈ ['a', '𐄁'], c ≠ '\uFFFF' ∧ ByteOrder.Agrees c) :=
  utf16_encodes_iff .bigEndian .twoBytes (by decide) ['a', '𐄁']

/-- The second unit of U+10100 is written as U+DC00. -/
theorem low_surrogate_masked :
    encodeUTF16 .bigEndian Transcoder.decode 4 [0xF0, 0x90, 0x84, 0x80] =
        ⟨[0xD8, 0x00, 0xDC, 0x00], false, []⟩ ∧
      ByteOrder.standard .bigEndian '𐄀' = [0xD8, 0x00, 0xDD, 0x00] ∧
      ¬ TextRound.Ends (utf16Calls .bigEndian Transcoder.decode 4)
        (['𐄀'].flatMap String.utf8EncodeChar)
        (['𐄀'].flatMap (ByteOrder.standard .bigEndian)) := by
  have decoded : Transcoder.decode [0xF0, 0x90, 0x84, 0x80] = (0x10100, []) := by decide
  refine ⟨?_, by decide, fun ends => ?_⟩
  · rw [encodeUTF16, if_neg (by decide), decoded, if_neg (by decide), encodeUTF16,
      if_pos (by decide)]
    decide
  · have agrees := (sourced_utf8.ends_iff (le_refl 4) ['𐄀']).mp ends '𐄀' List.mem_cons_self
    exact absurd (agrees.2 (by decide)) (by decide)

end Builds

end CodeCollect.Log4cxx
