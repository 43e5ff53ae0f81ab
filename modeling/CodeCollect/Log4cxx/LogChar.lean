import CodeCollect.Log4cxx.Transcoder

namespace CodeCollect.Log4cxx

/-- This is the standard encoding of a well-formed string. -/
def utf8Bytes (chars : List Char) : List UInt8 := chars.flatMap String.utf8EncodeChar

/-- The build chooses the type of a `logchar`. -/
inductive LogChar where
  | utf8
  | utf16
  | utf32
deriving DecidableEq

/-- A string of this build is the list of the values of its `logchar`s. -/
abbrev LogChars := List Nat

namespace LogChar

/-- This is the decoder of the builds with surrogates. -/
def decodeUTF16 (chars : LogChars) : Nat × LogChars :=
  match chars with
  | [] => (Transcoder.decodeError, chars)
  | ch1 :: rest =>
      if ch1 < 0xD800 ∨ ch1 > 0xDFFF then
        (ch1, if ch1 = Transcoder.decodeError then chars else rest)
      else if ch1 < 0xDC00 then
        match rest with
        | [] => (Transcoder.decodeError, chars)
        | ch2 :: rest =>
            if 0xDC00 ≤ ch2 ∧ ch2 ≤ 0xDFFF then
              ((ch1 - 0xD800) * 0x400 + (ch2 - 0xDC00) + 0x10000, rest)
            else (Transcoder.decodeError, chars)
      else (Transcoder.decodeError, chars)

/-- In the other builds each `logchar` is a value of its own. -/
def decodeUTF32 (chars : LogChars) : Nat × LogChars :=
  match chars with
  | [] => (Transcoder.decodeError, chars)
  | ch :: rest => (ch, rest)

/-- A well-formed string has these `logchar`s for each of its characters. -/
def unitsOf (build : LogChar) (c : Char) : LogChars :=
  match build with
  | .utf8 => (String.utf8EncodeChar c).map UInt8.toNat
  | .utf16 =>
      if c.toNat < 0x10000 then [c.toNat]
      else [0xD800 + (c.toNat - 0x10000) / 0x400, 0xDC00 + (c.toNat - 0x10000) % 0x400]
  | .utf32 => [c.toNat]

def units (build : LogChar) (chars : List Char) : LogChars := chars.flatMap build.unitsOf

/-- The decoder takes the `logchar`s of one character and leaves room for its bytes. -/
structure Decodes (decode : LogChars → Nat × LogChars) (unitsOf : Char → LogChars) : Prop where
  value : ∀ c rest, c ≠ '\uFFFF' → decode (unitsOf c ++ rest) = (c.toNat, rest)
  sentinel : ∀ rest, (decode (unitsOf '\uFFFF' ++ rest)).1 = Transcoder.decodeError
  nonempty : ∀ c, unitsOf c ≠ []
  room : ∀ c, (Transcoder.encodeUTF8 c.toNat).length ≤ 4 * (unitsOf c).length

theorem encodeUTF8_length (c : Char) : (Transcoder.encodeUTF8 c.toNat).length ≤ 4 ∧
    (c.toNat < 0x10000 → (Transcoder.encodeUTF8 c.toNat).length ≤ 3) := by
  rcases Transcoder.encodeUTF8_cases (Transcoder.scalar_bound c) with ⟨_, bytes⟩ |
    ⟨_, _, bytes⟩ | ⟨_, _, bytes⟩ | ⟨low, bytes⟩
  · simp [bytes]
  · simp [bytes]
  · simp [bytes]
  · rw [bytes]
    exact ⟨le_refl _, fun small => absurd small (by omega)⟩

theorem decodes_utf32 : Decodes decodeUTF32 (unitsOf .utf32) where
  value _ _ _ := rfl
  sentinel _ := rfl
  nonempty _ := List.cons_ne_nil _ _
  room c := (encodeUTF8_length c).1

/-- No character is a surrogate. -/
theorem not_surrogate (c : Char) : c.toNat < 0xD800 ∨ 0xDFFF < c.toNat := by
  have valid := c.valid
  simp only [UInt32.isValidChar, Nat.isValidChar] at valid
  change c.val.toNat < 0xD800 ∨ 0xDFFF < c.val.toNat
  omega

theorem decodeUTF16_plain {ch1 : Nat} (plain : ch1 < 0xD800 ∨ ch1 > 0xDFFF) (rest : LogChars) :
    decodeUTF16 (ch1 :: rest) =
      (ch1, if ch1 = Transcoder.decodeError then ch1 :: rest else rest) := by
  rw [decodeUTF16.eq_def]
  exact if_pos plain

theorem decodeUTF16_pair {ch1 ch2 : Nat} (high : 0xD800 ≤ ch1 ∧ ch1 < 0xDC00)
    (low : 0xDC00 ≤ ch2 ∧ ch2 ≤ 0xDFFF) (rest : LogChars) :
    decodeUTF16 (ch1 :: ch2 :: rest) =
      ((ch1 - 0xD800) * 0x400 + (ch2 - 0xDC00) + 0x10000, rest) := by
  rw [decodeUTF16.eq_def]
  dsimp only
  rw [if_neg (by omega), if_pos high.2, if_pos low]

theorem decodes_utf16 : Decodes decodeUTF16 (unitsOf .utf16) where
  value := by
    intro c rest sentinel
    have value : c.toNat ≠ Transcoder.decodeError :=
      fun same => sentinel (Char.toNat_inj.mp same)
    have bound := Transcoder.scalar_bound c
    rw [unitsOf]
    split
    · show decodeUTF16 (c.toNat :: rest) = _
      rw [decodeUTF16_plain (not_surrogate c), if_neg value]
    · rename_i large
      show decodeUTF16 (_ :: _ :: rest) = _
      rw [decodeUTF16_pair (by omega) (by omega)]
      congr 1
      omega
  sentinel := fun _ => rfl
  nonempty := by
    intro c
    rw [unitsOf]
    split <;> exact List.cons_ne_nil _ _
  room := by
    intro c
    rw [unitsOf]
    split
    · exact (encodeUTF8_length c).1
    · exact (encodeUTF8_length c).1.trans (Nat.le_add_left 4 4)

end LogChar

end CodeCollect.Log4cxx
