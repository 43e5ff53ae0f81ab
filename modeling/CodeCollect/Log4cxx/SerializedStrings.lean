import CodeCollect.Library.JavaSerialization
import CodeCollect.Log4cxx.ObjectOutputStream

namespace CodeCollect.Log4cxx

open CodeCollect.Library.JavaSerialization

namespace LogChar

section Loop

variable {decode : LogChars → Nat × LogChars} {unitsOf : Char → LogChars}

theorem Decodes.length_le (decodes : Decodes decode unitsOf) (chars : List Char) :
    chars.length ≤ (chars.flatMap unitsOf).length := by
  induction chars with
  | nil => exact le_refl _
  | cons c chars ih =>
      have units := List.length_pos_iff.mpr (decodes.nonempty c)
      rw [List.flatMap_cons, List.length_append, List.length_cons]
      omega

theorem encodeLoop_nil (fuel remaining : Nat) (out : List UInt8) :
    encodeLoop decode fuel [] remaining out = out := by
  cases fuel with
  | zero => rfl
  | succ fuel => rw [encodeLoop, if_neg fun going => going.1 rfl]

/-- One round takes one character, unless it is the sentinel or there is no room. -/
theorem Decodes.encodeLoop_cons (decodes : Decodes decode unitsOf) (c : Char) (chars : List Char)
    (fuel remaining : Nat) (out : List UInt8) :
    encodeLoop decode (fuel + 1) ((c :: chars).flatMap unitsOf) remaining out =
      if 8 ≤ remaining ∧ c ≠ '\uFFFF' then
        encodeLoop decode fuel (chars.flatMap unitsOf)
          (remaining - (Transcoder.encodeUTF8 c.toNat).length)
          (out ++ Transcoder.encodeUTF8 c.toNat)
      else out := by
  have some' : (c :: chars).flatMap unitsOf ≠ [] := by
    rw [List.flatMap_cons]
    exact List.append_ne_nil_of_left_ne_nil (decodes.nonempty c) _
  rw [encodeLoop]
  dsimp only
  by_cases room : 8 ≤ remaining
  · rw [if_pos ⟨some', room⟩, List.flatMap_cons]
    by_cases sentinel : c = '\uFFFF'
    · subst sentinel
      rw [decodes.sentinel, if_pos rfl, if_neg (by simp)]
    · have value : c.toNat ≠ Transcoder.decodeError :=
        fun same => sentinel (Char.toNat_inj.mp same)
      rw [decodes.value c _ sentinel, if_neg value, if_pos ⟨room, sentinel⟩]
  · rw [if_neg fun going => room going.2, if_neg (by simp [room])]

/-- The loop writes no more than the encoding. -/
theorem Decodes.encodeLoop_length (decodes : Decodes decode unitsOf) (chars : List Char)
    (fuel remaining : Nat) (out : List UInt8) :
    (encodeLoop decode fuel (chars.flatMap unitsOf) remaining out).length ≤
        out.length + (utf8Bytes chars).length ∧
      ('\uFFFF' ∈ chars →
        (encodeLoop decode fuel (chars.flatMap unitsOf) remaining out).length <
          out.length + (utf8Bytes chars).length) := by
  induction chars generalizing fuel remaining out with
  | nil =>
      rw [List.flatMap_nil, encodeLoop_nil]
      exact ⟨Nat.le_add_right _ _, fun impossible => absurd impossible List.not_mem_nil⟩
  | cons c chars ih =>
      have longer : 0 < (String.utf8EncodeChar c).length :=
        List.length_pos_iff.mpr String.utf8EncodeChar_ne_nil
      have same : (Transcoder.encodeUTF8 c.toNat).length = (String.utf8EncodeChar c).length := by
        rw [Transcoder.encodeUTF8_eq]
      have lengths : (utf8Bytes (c :: chars)).length =
          (String.utf8EncodeChar c).length + (utf8Bytes chars).length := by
        rw [utf8Bytes, List.flatMap_cons, List.length_append, utf8Bytes]
      cases fuel with
      | zero => exact ⟨Nat.le_add_right _ _, fun _ => by rw [encodeLoop]; omega⟩
      | succ fuel =>
          rw [decodes.encodeLoop_cons]
          split
          · rename_i going
            obtain ⟨bound, strict⟩ := ih fuel
              (remaining - (Transcoder.encodeUTF8 c.toNat).length)
              (out ++ Transcoder.encodeUTF8 c.toNat)
            rw [List.length_append] at bound strict
            refine ⟨by omega, fun member => ?_⟩
            have := strict ((List.mem_cons.mp member).resolve_left (Ne.symm going.2))
            omega
          · exact ⟨by omega, fun _ => by omega⟩

/-- With room for all of it the loop writes the encoding. -/
theorem Decodes.encodeLoop_eq (decodes : Decodes decode unitsOf) {chars : List Char}
    (sentinel : '\uFFFF' ∉ chars) {fuel remaining : Nat} (rounds : chars.length ≤ fuel)
    (room : chars ≠ [] → 6 * (chars.flatMap unitsOf).length + 2 ≤ remaining)
    (out : List UInt8) :
    encodeLoop decode fuel (chars.flatMap unitsOf) remaining out = out ++ utf8Bytes chars := by
  induction chars generalizing fuel remaining out with
  | nil =>
      rw [List.flatMap_nil, encodeLoop_nil]
      exact (List.append_nil out).symm
  | cons c chars ih =>
      obtain ⟨first, others⟩ := not_or.mp (List.mem_cons.not.mp sentinel)
      have space := room (List.cons_ne_nil c chars)
      have units := List.length_pos_iff.mpr (decodes.nonempty c)
      have bytes := decodes.room c
      rw [List.flatMap_cons, List.length_append] at space
      cases fuel with
      | zero => exact absurd rounds (by simp)
      | succ fuel =>
          rw [decodes.encodeLoop_cons, if_pos ⟨by omega, Ne.symm first⟩,
            ih others (Nat.le_of_succ_le_succ rounds) (fun _ => by omega),
            Transcoder.encodeUTF8_eq, List.append_assoc]
          rfl

/-- The buffer is too small for the encoding of a single `logchar`, and it ends at the sentinel. -/
theorem Decodes.encodeInto_eq_iff (decodes : Decodes decode unitsOf) (chars : List Char) :
    encodeInto decode (chars.flatMap unitsOf) (6 * (chars.flatMap unitsOf).length) =
        utf8Bytes chars ↔
      (chars.flatMap unitsOf).length ≠ 1 ∧ '\uFFFF' ∉ chars := by
  constructor
  · intro whole
    constructor
    · intro single
      rw [encodeInto, single] at whole
      cases chars with
      | nil => exact absurd single (by simp)
      | cons c chars =>
          rw [decodes.encodeLoop_cons, if_neg (by simp)] at whole
          exact List.append_ne_nil_of_left_ne_nil String.utf8EncodeChar_ne_nil _ whole.symm
    · intro sentinel
      have strict := (decodes.encodeLoop_length chars (chars.flatMap unitsOf).length
        (6 * (chars.flatMap unitsOf).length) []).2 sentinel
      rw [← encodeInto, whole, List.length_nil] at strict
      omega
  · rintro ⟨several, sentinel⟩
    cases chars with
    | nil => exact encodeLoop_nil _ _ _
    | cons c chars =>
        obtain ⟨first, others⟩ := not_or.mp (List.mem_cons.not.mp sentinel)
        have units := List.length_pos_iff.mpr (decodes.nonempty c)
        have bytes := decodes.room c
        have rounds := decodes.length_le chars
        have whole : ((c :: chars).flatMap unitsOf).length =
            (unitsOf c).length + (chars.flatMap unitsOf).length := by
          rw [List.flatMap_cons, List.length_append]
        rw [whole] at several
        have split : ((c :: chars).flatMap unitsOf).length =
            ((unitsOf c).length + (chars.flatMap unitsOf).length - 1) + 1 := by
          omega
        rw [encodeInto, split]
        rw [decodes.encodeLoop_cons, if_pos ⟨by omega, Ne.symm first⟩,
          decodes.encodeLoop_eq others (by omega) (fun _ => by omega), Transcoder.encodeUTF8_eq]
        rfl

end Loop

theorem dataBuf_utf8 (chars : List Char) :
    dataBuf .utf8 (units .utf8 chars) = utf8Bytes chars := by
  have same : ∀ bytes : List UInt8, (bytes.map UInt8.toNat).map UInt8.ofNat = bytes := by
    intro bytes
    rw [List.map_map]
    exact (List.map_congr_left fun byte _ => UInt8.ofNat_toNat).trans (List.map_id bytes)
  rw [dataBuf, units, utf8Bytes]
  induction chars with
  | nil => rfl
  | cons c chars ih =>
      rw [List.flatMap_cons, List.map_append, ih, List.flatMap_cons, unitsOf, same]

/-- The data buffer holds at most the encoding. -/
theorem dataBuf_length (build : LogChar) (chars : List Char) :
    (build.dataBuf (build.units chars)).length ≤ (utf8Bytes chars).length := by
  cases build with
  | utf8 => exact (congrArg _ (dataBuf_utf8 chars)).le
  | utf16 => exact (decodes_utf16.encodeLoop_length chars _ _ []).1.trans (Nat.zero_add _).le
  | utf32 => exact (decodes_utf32.encodeLoop_length chars _ _ []).1.trans (Nat.zero_add _).le

/-- Only the builds that encode the string may lose a part of it. -/
theorem dataBuf_eq_iff (build : LogChar) (chars : List Char) :
    build.dataBuf (build.units chars) = utf8Bytes chars ↔
      (build ≠ .utf8 → (build.units chars).length ≠ 1 ∧ '\uFFFF' ∉ chars) := by
  cases build with
  | utf8 => exact iff_of_true (dataBuf_utf8 chars) fun other => absurd rfl other
  | utf16 =>
      refine (decodes_utf16.encodeInto_eq_iff chars).trans ?_
      exact ⟨fun fits _ => fits, fun fits => fits (by decide)⟩
  | utf32 =>
      refine (decodes_utf32.encodeInto_eq_iff chars).trans ?_
      exact ⟨fun fits _ => fits, fun fits => fits (by decide)⟩

end LogChar

namespace ObjectOutputStream

/-- A reader takes the tag, the length and as many bytes. -/
def readString (input : List UInt8) : Option (List UInt8 × List UInt8) := do
  let rest ← parseTag 0x74 input
  parseUTF rest

/-- These are the bytes of a string in the stream. -/
def framed (data : List UInt8) : List UInt8 :=
  0x74 :: byteAt data.length 8 :: byteAt data.length 0 :: data

theorem writeText_os (self : ObjectOutputStream) (data : List UInt8) :
    (self.writeText data).os = self.os ++ framed data := by
  simp [writeText, writeBytes, bumpHandle, framed]

theorem byteAt_toNat (val shift : Nat) : (byteAt val shift).toNat = val / 2 ^ shift % 0x100 := by
  have mask : (val >>> shift) &&& 0xFF = (val >>> shift) % 0x100 :=
    Nat.and_two_pow_sub_one_eq_mod _ 8
  rw [byteAt, mask, UInt8.toNat_ofNat', Nat.shiftRight_eq_div_pow]
  omega

/-- The two bytes of a length hold it up to a multiple of their range. -/
theorem bigEndian_length (length : Nat) :
    bigEndian [byteAt length 8, byteAt length 0] = length % 0x10000 := by
  simp only [bigEndian, List.foldl_cons, List.foldl_nil, byteAt_toNat]
  omega

/-- A reader takes the declared number of bytes. -/
theorem readString_framed (data rest : List UInt8) :
    readString (framed data ++ rest) =
      some ((data ++ rest).take (data.length % 0x10000),
        (data ++ rest).drop (data.length % 0x10000)) := by
  show parseUTF (byteAt data.length 8 :: byteAt data.length 0 :: (data ++ rest)) = _
  rw [parseUTF_cons, bigEndian_length, parseBytes, if_pos]
  rw [List.length_append]
  exact (Nat.mod_le _ _).trans (Nat.le_add_right _ _)

/-- A reader recovers exactly this text behind each stream and in front of any rest. -/
def Recovers (write : ObjectOutputStream → ObjectOutputStream) (text : List UInt8) : Prop :=
  ∀ stream rest, ∃ emitted, (write stream).os = stream.os ++ emitted ∧
    readString (emitted ++ rest) = some (text, rest)

/-- What is declared is less than the data when the length does not fit into two bytes. -/
theorem recovers_writeText_iff {data text : List UInt8} (within : data.length ≤ text.length) :
    Recovers (fun stream => stream.writeText data) text ↔ data = text ∧ text.length < 0x10000 := by
  constructor
  · intro recovers
    obtain ⟨emitted, written, read⟩ := recovers create []
    obtain rfl := List.append_cancel_left ((writeText_os create data).symm.trans written)
    rw [readString_framed, List.append_nil] at read
    obtain ⟨taken, _⟩ := Prod.mk.inj (Option.some.inj read)
    have count := congrArg List.length taken
    rw [List.length_take] at count
    have short : data.length < 0x10000 := by
      have := Nat.mod_lt data.length (show 0x10000 > 0 by decide)
      omega
    rw [Nat.mod_eq_of_lt short, List.take_length] at taken
    exact ⟨taken, taken ▸ short⟩
  · rintro ⟨rfl, short⟩ stream rest
    refine ⟨framed data, writeText_os stream data, ?_⟩
    rw [readString_framed, Nat.mod_eq_of_lt short, List.take_left, List.drop_left]

/-- Both functions write a well-formed string so that a reader recovers its encoding. -/
structure Recoverable (build : LogChar) (chars : List Char) : Prop where
  writeObject : Recovers (fun stream => stream.writeObject build (build.units chars))
    (utf8Bytes chars)
  writeUTFString : Recovers (fun stream => stream.writeUTFString (utf8Bytes chars))
    (utf8Bytes chars)

/-- A string is recoverable when its encoding is not too long and its buffer is not too small. -/
theorem recoverable_iff (build : LogChar) (chars : List Char) :
    Recoverable build chars ↔
      (utf8Bytes chars).length < 0x10000 ∧
        (build ≠ .utf8 → (build.units chars).length ≠ 1 ∧ '\uFFFF' ∉ chars) := by
  have object := recovers_writeText_iff (build.dataBuf_length chars)
  have utf := recovers_writeText_iff (le_refl (utf8Bytes chars).length)
  rw [LogChar.dataBuf_eq_iff] at object
  constructor
  · intro recoverable
    obtain ⟨whole, short⟩ := object.mp recoverable.writeObject
    exact ⟨short, whole⟩
  · rintro ⟨short, whole⟩
    exact ⟨object.mpr ⟨whole, short⟩, utf.mpr ⟨rfl, short⟩⟩

/-- A string of 65536 letters is declared to be empty. -/
theorem overlong_unrecoverable : ¬ Recoverable .utf8 (List.replicate 0x10000 'a') := by
  intro recoverable
  have length : ∀ count, (utf8Bytes (List.replicate count 'a')).length = count := by
    intro count
    induction count with
    | zero => rfl
    | succ count ih =>
        rw [List.replicate_succ, utf8Bytes, List.flatMap_cons, List.length_append, ← utf8Bytes, ih]
        exact Nat.add_comm 1 count
  have short := ((recovers_writeText_iff (le_refl _)).mp recoverable.writeUTFString).2
  rw [length] at short
  exact Nat.lt_irrefl _ short

end ObjectOutputStream

end CodeCollect.Log4cxx
