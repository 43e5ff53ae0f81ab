import CodeCollect.Library.TextLoop
import CodeCollect.Log4cxx.LogChar

namespace CodeCollect.Log4cxx.Transcoder

open CodeCollect.Library

section Bytes

theorem byte_eq {byte : UInt8} {base size : Nat} (positive : 0 < size)
    (digits : byte.toNat = base + byte.toNat % size) :
    ∃ x < size, byte = UInt8.ofNat (base + x) :=
  ⟨byte.toNat % size, Nat.mod_lt _ positive, by rw [← digits, UInt8.ofNat_toNat]⟩

theorem eq_continuation {byte : UInt8} (mask : byte.toNat &&& 0xC0 = 0x80) :
    ∃ y < 0x40, byte = UInt8.ofNat (0x80 + y) := by
  have digits : ∀ n < 0x100, n &&& 0xC0 = 0x80 → n = 0x80 + n % 0x40 := by decide +kernel
  exact byte_eq (by decide) (digits _ byte.toNat_lt mask)

theorem eq_two {byte : UInt8} (mask : byte.toNat &&& 0xE0 = 0xC0) :
    ∃ x < 0x20, byte = UInt8.ofNat (0xC0 + x) := by
  have digits : ∀ n < 0x100, n &&& 0xE0 = 0xC0 → n = 0xC0 + n % 0x20 := by decide +kernel
  exact byte_eq (by decide) (digits _ byte.toNat_lt mask)

theorem eq_three {byte : UInt8} (mask : byte.toNat &&& 0xF0 = 0xE0) :
    ∃ x < 0x10, byte = UInt8.ofNat (0xE0 + x) := by
  have digits : ∀ n < 0x100, n &&& 0xF0 = 0xE0 → n = 0xE0 + n % 0x10 := by decide +kernel
  exact byte_eq (by decide) (digits _ byte.toNat_lt mask)

theorem eq_four {byte : UInt8} (above : ¬ byte.toNat ≤ 0x7F)
    (leads : byte.toNat &&& 0xC0 ≠ 0x80) (long : ¬ byte.toNat &&& 0xE0 = 0xC0)
    (longer : ¬ byte.toNat &&& 0xF0 = 0xE0) : ∃ w < 0x10, byte = UInt8.ofNat (0xF0 + w) := by
  have digits : ∀ n < 0x100, ¬ n ≤ 0x7F → n &&& 0xC0 ≠ 0x80 → ¬ n &&& 0xE0 = 0xC0 →
      ¬ n &&& 0xF0 = 0xE0 → n = 0xF0 + n % 0x10 := by decide +kernel
  exact byte_eq (by decide) (digits _ byte.toNat_lt above leads long longer)

/-- The bits of a lead byte with four or more leading ones. -/
theorem long_masks {w : Nat} (small : w < 0x10) :
    0x7F < (UInt8.ofNat (0xF0 + w)).toNat ∧
      (UInt8.ofNat (0xF0 + w)).toNat &&& 0xC0 = 0xC0 ∧
      (UInt8.ofNat (0xF0 + w)).toNat &&& 0xE0 = 0xE0 ∧
      (UInt8.ofNat (0xF0 + w)).toNat &&& 0xF0 = 0xF0 ∧
      (UInt8.ofNat (0xF0 + w)).toNat &&& 0x07 = w % 0x08 := by
  revert w
  decide

/-- The fifth bit of such a byte is lost. -/
theorem decode_long {w x y z : Nat} (rest : List UInt8) (first : w < 0x10) (second : x < 0x40)
    (third : y < 0x40) (fourth : z < 0x40)
    (range : 0xFFFF < ((w % 0x08) <<< 18) + (x <<< 12) + (y <<< 6) + z) :
    decode (UInt8.ofNat (0xF0 + w) :: UInt8.ofNat (0x80 + x) :: UInt8.ofNat (0x80 + y) ::
        UInt8.ofNat (0x80 + z) :: rest) =
      (((w % 0x08) <<< 18) + (x <<< 12) + (y <<< 6) + z, rest) := by
  obtain ⟨above, mask, kind, kind4, value⟩ := long_masks first
  obtain ⟨mask2, value2⟩ := continuation_masks second
  obtain ⟨mask3, value3⟩ := continuation_masks third
  obtain ⟨mask4, value4⟩ := continuation_masks fourth
  rw [decode.eq_def]
  dsimp only
  rw [if_neg (by omega), if_pos (by rw [mask]; decide),
    if_neg (not_not_intro mask2), if_neg (by rw [kind]; decide),
    if_neg (not_not_intro mask3), if_neg (by rw [kind4]; decide),
    if_neg (not_not_intro mask4), value, value2, value3, value4, if_pos range]

end Bytes

/-- The decoder reads these bytes as this value, whatever follows them. -/
inductive Reads : List UInt8 → Nat → Prop
  | one {x : Nat} (first : x < 0x80) : Reads [UInt8.ofNat x] x
  | two {x y : Nat} (first : x < 0x20) (second : y < 0x40) (range : 0x80 ≤ x * 0x40 + y) :
      Reads [UInt8.ofNat (0xC0 + x), UInt8.ofNat (0x80 + y)] (x * 0x40 + y)
  | three {x y z : Nat} (first : x < 0x10) (second : y < 0x40) (third : z < 0x40)
      (range : 0x800 < x * 0x1000 + y * 0x40 + z) :
      Reads [UInt8.ofNat (0xE0 + x), UInt8.ofNat (0x80 + y), UInt8.ofNat (0x80 + z)]
        (x * 0x1000 + y * 0x40 + z)
  | four {w x y z : Nat} (first : w < 0x10) (second : x < 0x40) (third : y < 0x40)
      (fourth : z < 0x40)
      (range : 0xFFFF < w % 0x08 * 0x40000 + x * 0x1000 + y * 0x40 + z) :
      Reads [UInt8.ofNat (0xF0 + w), UInt8.ofNat (0x80 + x), UInt8.ofNat (0x80 + y),
        UInt8.ofNat (0x80 + z)] (w % 0x08 * 0x40000 + x * 0x1000 + y * 0x40 + z)

theorem Reads.decode {part : List UInt8} {sv : Nat} (reads : Reads part sv)
    (rest : List UInt8) : Transcoder.decode (part ++ rest) = (sv, rest) := by
  cases reads with
  | one first => exact decode_one rest first
  | @two x y first second range =>
      have value : x <<< 6 + y = x * 0x40 + y := by rw [Nat.shiftLeft_eq]
      rw [← value] at range ⊢
      exact decode_two rest first second range
  | @three x y z first second third range =>
      have value : x <<< 12 + y <<< 6 + z = x * 0x1000 + y * 0x40 + z := by
        simp only [Nat.shiftLeft_eq]
      rw [← value] at range ⊢
      exact (decode_three rest first second third).trans (if_neg (by omega))
  | @four w x y z first second third fourth range =>
      have value : (w % 0x08) <<< 18 + x <<< 12 + y <<< 6 + z =
          w % 0x08 * 0x40000 + x * 0x1000 + y * 0x40 + z := by
        simp only [Nat.shiftLeft_eq]
      rw [← value] at range ⊢
      exact decode_long rest first second third fourth range

theorem Reads.ne_nil {part : List UInt8} {sv : Nat} (reads : Reads part sv) : part ≠ [] := by
  cases reads <;> simp

/-- The decoder stays where it is, or it has read some bytes as a value. -/
theorem decode_cases (src : List UInt8) : decode src = (decodeError, src) ∨
    ∃ part sv rest, src = part ++ rest ∧ Reads part sv ∧ decode src = (sv, rest) := by
  fun_cases decode src
  case case2 ch1 rest ascii =>
    have first : Reads [UInt8.ofNat ch1.toNat] ch1.toNat := .one (by omega)
    rw [UInt8.ofNat_toNat] at first
    exact Or.inr ⟨[ch1], _, rest, rfl, first, rfl⟩
  case case5 ch1 above leads ch2 rest continues kind rv range =>
    obtain ⟨x, first, rfl⟩ := eq_two kind
    obtain ⟨y, second, rfl⟩ := eq_continuation (not_not.mp continues)
    have value : rv = x * 0x40 + y := by
      simp only [rv, (two_masks first).2.2.2, (continuation_masks second).2, Nat.shiftLeft_eq]
    rw [value] at range ⊢
    exact Or.inr ⟨[_, _], _, rest, rfl, .two first second range, rfl⟩
  case case10 ch1 above leads ch2 continues long ch3 rest continues3 kind rv range =>
    obtain ⟨x, first, rfl⟩ := eq_three kind
    obtain ⟨y, second, rfl⟩ := eq_continuation (not_not.mp continues)
    obtain ⟨z, third, rfl⟩ := eq_continuation (not_not.mp continues3)
    have value : rv = x * 0x1000 + y * 0x40 + z := by
      simp only [rv, (three_masks first).2.2.2.2, (continuation_masks second).2,
        (continuation_masks third).2, Nat.shiftLeft_eq]
    rw [value] at range ⊢
    exact Or.inr ⟨[_, _, _], _, rest, rfl, .three first second third (by omega), rfl⟩
  case case13 ch1 above leads ch2 continues long ch3 continues3 longer ch4 rest continues4 rv
      range =>
    obtain ⟨w, first, rfl⟩ := eq_four above leads long longer
    obtain ⟨x, second, rfl⟩ := eq_continuation (not_not.mp continues)
    obtain ⟨y, third, rfl⟩ := eq_continuation (not_not.mp continues3)
    obtain ⟨z, fourth, rfl⟩ := eq_continuation (not_not.mp continues4)
    have value : rv = w % 0x08 * 0x40000 + x * 0x1000 + y * 0x40 + z := by
      simp only [rv, (long_masks first).2.2.2.2, (continuation_masks second).2,
        (continuation_masks third).2, (continuation_masks fourth).2, Nat.shiftLeft_eq]
    rw [value] at range ⊢
    exact Or.inr ⟨[_, _, _, _], _, rest, rfl, .four first second third fourth range, rfl⟩
  all_goals exact Or.inl rfl

section Loops

variable {Unit Output : Type}

/-- Some loops step over a unit that their decoder refuses. -/
def lossyRound (decode : List Unit → Nat × List Unit) (encode : Nat → List Output)
    (lossChar : Output) : TextRound Unit Output :=
  fun src =>
    if (decode src).1 ≠ decodeError then some (encode (decode src).1, (decode src).2)
    else
      match (decode src).2 with
      | [] => none
      | _ :: rest => some ([lossChar], rest)

/-- The other loops go on from where their decoder leaves them. -/
def plainRound (decode : List Unit → Nat × List Unit) (encode : Nat → List Output) :
    TextRound Unit Output :=
  fun src => some (encode (decode src).1, (decode src).2)

/-- This is one round of the loop over a string in `decodeUTF8`. -/
def decodeUTF8Round : TextRound UInt8 UInt8 := lossyRound decode encodeUTF8 lossChar

end Loops

/-- The bytes are the standard encoding of a sequence of scalar values. -/
def WellFormed (bytes : List UInt8) : Prop :=
  ∃ chars : List Char, bytes = chars.flatMap String.utf8EncodeChar

section WellFormed

theorem wellFormed_nil : WellFormed [] := ⟨[], rfl⟩

theorem utf8EncodeChar_inj {first second : Char} {rest other : List UInt8}
    (same : String.utf8EncodeChar first ++ rest = String.utf8EncodeChar second ++ other) :
    first = second ∧ rest = other := by
  have arrays := congrArg List.toByteArray same
  rw [List.toByteArray_append, List.toByteArray_append] at arrays
  have chars := @ByteArray.utf8DecodeChar?_utf8EncodeChar_append rest.toByteArray first
  rw [arrays, ByteArray.utf8DecodeChar?_utf8EncodeChar_append] at chars
  obtain rfl := Option.some.inj chars
  exact ⟨rfl, List.append_cancel_left same⟩

theorem wellFormed_cons_iff (c : Char) (rest : List UInt8) :
    WellFormed (String.utf8EncodeChar c ++ rest) ↔ WellFormed rest := by
  constructor
  · intro formed
    obtain ⟨chars, same⟩ := formed
    cases chars with
    | nil =>
        rw [List.flatMap_nil] at same
        exact absurd (List.append_eq_nil_iff.mp same).1 String.utf8EncodeChar_ne_nil
    | cons first chars =>
        rw [List.flatMap_cons] at same
        exact ⟨chars, (utf8EncodeChar_inj same).2⟩
  · intro formed
    obtain ⟨chars, rfl⟩ := formed
    exact ⟨c :: chars, rfl⟩

/-- These values are encoded as three bytes, but they are no scalar values. -/
def Surrogate (sv : Nat) : Prop := 0xD800 ≤ sv ∧ sv ≤ 0xDFFF

/-- All other values are encoded as scalar values. -/
theorem encodeUTF8_scalar {sv : Nat} (scalar : ¬ Surrogate sv) :
    ∃ c, encodeUTF8 sv = String.utf8EncodeChar c := by
  by_cases range : sv < 0x110000
  · have valid : sv.isValidChar := by
      rw [Nat.isValidChar]
      rw [Surrogate] at scalar
      omega
    refine ⟨Char.ofNat sv, ?_⟩
    rw [← encodeUTF8_eq, Char.toNat_ofNat, if_pos valid]
  · refine ⟨'\uFFFF', ?_⟩
    rw [← encodeUTF8_eq, encodeUTF8, if_neg (by omega), if_neg (by omega), if_neg (by omega),
      if_neg (by omega)]
    decide

theorem not_wellFormed_surrogate {sv : Nat} (surrogate : Surrogate sv) (rest : List UInt8) :
    ¬ WellFormed (encodeUTF8 sv ++ rest) := by
  intro formed
  obtain ⟨low, high⟩ := surrogate
  obtain ⟨chars, same⟩ := formed
  have decoded := decode_encodeUTF8_of_lt (show sv < 0x110000 by omega) rest
  rw [if_neg (by omega), same] at decoded
  cases chars with
  | nil => 
      have value : decodeError = sv := congrArg Prod.fst decoded
      rw [decodeError] at value
      omega
  | cons c chars =>
      rw [List.flatMap_cons, ← encodeUTF8_eq, decode_encodeUTF8] at decoded
      have value := congrArg Prod.fst decoded
      have scalar := LogChar.not_surrogate c
      split at value
      · rw [decodeError] at value
        omega
      · dsimp only at value
        omega

end WellFormed

section DecodeUTF8

variable {src rest out : List UInt8}

/-- The text begins with the three bytes of a surrogate. -/
def MeetsSurrogate (src : List UInt8) : Prop :=
  ∃ second third rest, src = 0xED :: second :: third :: rest ∧
    (0xA0 ≤ second.toNat ∧ second.toNat ≤ 0xBF) ∧ 0x80 ≤ third.toNat ∧ third.toNat ≤ 0xBF

theorem Reads.surrogate {part : List UInt8} {sv : Nat} (reads : Reads part sv)
    (surrogate : Surrogate sv) : MeetsSurrogate (part ++ rest) := by
  obtain ⟨low, high⟩ := surrogate
  have byte : ∀ n < 0x100, (UInt8.ofNat n).toNat = n := fun n small =>
    UInt8.toNat_ofNat_of_lt' small
  cases reads with
  | one first => omega
  | two first second range => omega
  | @three x y z first second third range =>
      obtain rfl : x = 0xD := by omega
      refine ⟨UInt8.ofNat (0x80 + y), UInt8.ofNat (0x80 + z), rest, rfl, ?_, ?_⟩
      · rw [byte _ (by omega)]
        omega
      · rw [byte _ (by omega)]
        omega
  | four first second third fourth range => omega

/-- The decoder takes a surrogate for a scalar value. -/
theorem MeetsSurrogate.reads (meets : MeetsSurrogate src) :
    ∃ part sv rest, src = part ++ rest ∧ Reads part sv ∧ Surrogate sv := by
  obtain ⟨second, third, rest, rfl, ⟨low, high⟩, low3, high3⟩ := meets
  have second' : UInt8.ofNat (0x80 + (second.toNat - 0x80)) = second := by
    rw [Nat.add_sub_cancel' (by omega), UInt8.ofNat_toNat]
  have third' : UInt8.ofNat (0x80 + (third.toNat - 0x80)) = third := by
    rw [Nat.add_sub_cancel' (by omega), UInt8.ofNat_toNat]
  have reads := @Reads.three 0xD (second.toNat - 0x80) (third.toNat - 0x80) (by decide)
    (by omega) (by omega) (by omega)
  rw [second', third'] at reads
  exact ⟨_, _, rest, rfl, reads, by rw [Surrogate]; omega⟩

/-- Only the three bytes of U+FFFF are read as the error value. -/
theorem Reads.sentinel {part : List UInt8} (reads : Reads part decodeError) :
    part = [0xEF, 0xBF, 0xBF] := by
  generalize same : decodeError = sv at reads
  rw [decodeError] at same
  cases reads with
  | one first => omega
  | two first second range => omega
  | @three x y z first second third range =>
      obtain ⟨rfl, rfl, rfl⟩ : x = 0xF ∧ y = 0x3F ∧ z = 0x3F := by omega
      rfl
  | four first second third fourth range => omega

theorem reads_sentinel : Reads [0xEF, 0xBF, 0xBF] decodeError :=
  @Reads.three 0xF 0x3F 0x3F (by decide) (by decide) (by decide) (by decide)

theorem lossChar_encoded : [lossChar] = String.utf8EncodeChar '?' := by decide

/-- A round passes the end, writes a surrogate, or writes a scalar value and moves on. -/
theorem decodeUTF8Round_cases (going : src ≠ []) :
    src = [0xEF, 0xBF, 0xBF] ∧ decodeUTF8Round src = none ∨
      MeetsSurrogate src ∧ (∃ sv rest, Surrogate sv ∧
        decodeUTF8Round src = some (encodeUTF8 sv, rest)) ∨
      (src ≠ [0xEF, 0xBF, 0xBF] ∧ ¬ MeetsSurrogate src) ∧ ∃ c rest,
        decodeUTF8Round src = some (String.utf8EncodeChar c, rest) ∧
          rest.length < src.length := by
  have apart : MeetsSurrogate src → src ≠ [0xEF, 0xBF, 0xBF] := by
    intro meets same
    obtain ⟨_, _, _, rfl, _⟩ := meets
    exact absurd (List.cons.inj same).1 (by decide)
  by_cases meets : MeetsSurrogate src
  · obtain ⟨part, sv, rest, rfl, reads, surrogate⟩ := meets.reads
    have value : sv ≠ decodeError := by
      rw [decodeError]
      have := surrogate.2
      omega
    refine Or.inr (Or.inl ⟨meets, sv, rest, surrogate, ?_⟩)
    rw [decodeUTF8Round, lossyRound, reads.decode rest, if_pos value]
  · rcases decode_cases src with stays | ⟨part, sv, rest, rfl, reads, decoded⟩
    · cases src with
      | nil => exact absurd rfl going
      | cons byte rest =>
          refine Or.inr (Or.inr ⟨⟨?_, meets⟩, '?', rest, ?_, Nat.lt_succ_self _⟩)
          · intro same
            rw [same] at stays
            have read := reads_sentinel.decode []
            rw [List.append_nil, stays] at read
            exact absurd (congrArg Prod.snd read) (by simp)
          · rw [decodeUTF8Round, lossyRound, stays, if_neg (not_not_intro rfl),
              lossChar_encoded]
    · by_cases sentinel : sv = decodeError
      · subst sentinel
        obtain rfl := reads.sentinel
        cases rest with
        | nil =>
            left
            refine ⟨rfl, ?_⟩
            rw [decodeUTF8Round, lossyRound, decoded, if_neg (not_not_intro rfl)]
        | cons byte rest =>
            refine Or.inr (Or.inr ⟨⟨by simp, meets⟩, '?', rest, ?_, by simp; omega⟩)
            rw [decodeUTF8Round, lossyRound, decoded, if_neg (not_not_intro rfl),
              lossChar_encoded]
      · have scalar : ¬ Surrogate sv := fun surrogate => meets (reads.surrogate surrogate)
        obtain ⟨c, encoded⟩ := encodeUTF8_scalar scalar
        have shorter := List.length_pos_iff.mpr reads.ne_nil
        refine Or.inr (Or.inr ⟨⟨?_, meets⟩, c, rest, ?_, ?_⟩)
        · intro same
          have read := reads_sentinel.decode []
          rw [List.append_nil, ← same, decoded] at read
          exact sentinel (congrArg Prod.fst read)
        · rw [decodeUTF8Round, lossyRound, decoded, if_pos sentinel, encoded]
        · rw [List.length_append]
          omega

/-- The loop comes to no surrogate, and to no U+FFFF that is the end of the string. -/
def Unmet (src : List UInt8) : Prop :=
  ∀ rest, TextRound.Reaches decodeUTF8Round src rest →
    rest ≠ [0xEF, 0xBF, 0xBF] ∧ ¬ MeetsSurrogate rest

theorem Unmet.onward {written : List UInt8} (unmet : Unmet src) (going : src ≠ [])
    (taken : decodeUTF8Round src = some (written, rest)) : Unmet rest :=
  fun last reached => unmet last (.more going taken reached)

/-- A loop that has written something well-formed has met nothing bad. -/
theorem unmet_of_ends (ends : TextRound.Ends decodeUTF8Round src out) (formed : WellFormed out) :
    Unmet src := by
  induction ends with
  | done =>
      intro rest reached
      cases reached with
      | start =>
          refine ⟨by simp, fun meets => ?_⟩
          obtain ⟨_, _, _, impossible, _⟩ := meets
          exact absurd impossible (by simp)
      | more going _ _ => exact absurd rfl going
  | @more text rest written later going taken _ ih =>
      rcases decodeUTF8Round_cases going with ⟨_, none⟩ | ⟨_, sv, next, surrogate, wrote⟩ |
        ⟨unmet, c, next, wrote, _⟩
      · exact absurd (taken.symm.trans none) (by simp)
      · obtain ⟨rfl, rfl⟩ := Prod.mk.inj (Option.some.inj (taken.symm.trans wrote))
        exact absurd formed (not_wellFormed_surrogate surrogate later)
      · obtain ⟨rfl, rfl⟩ := Prod.mk.inj (Option.some.inj (taken.symm.trans wrote))
        intro last reached
        cases reached with
        | start => exact unmet
        | more _ other reached =>
            obtain ⟨_, rfl⟩ := Prod.mk.inj (Option.some.inj (taken.symm.trans other))
            exact ih ((wellFormed_cons_iff c later).mp formed) last reached

/-- A loop that meets nothing bad ends with a well-formed string. -/
theorem Unmet.ends (unmet : Unmet src) :
    ∃ out, TextRound.Ends decodeUTF8Round src out ∧ WellFormed out := by
  have advancing : TextRound.Advancing decodeUTF8Round src := by
    intro text reached going
    rcases decodeUTF8Round_cases going with ⟨last, _⟩ | ⟨meets, _⟩ | ⟨_, c, rest, taken, shorter⟩
    · exact absurd last (unmet text reached).1
    · exact absurd meets (unmet text reached).2
    · exact ⟨_, rest, taken, shorter⟩
  obtain ⟨out, ends⟩ := advancing.ends
  refine ⟨out, ends, ?_⟩
  clear advancing
  induction ends with
  | done => exact wellFormed_nil
  | @more text rest written later going taken _ ih =>
      rcases decodeUTF8Round_cases going with ⟨last, _⟩ | ⟨meets, _⟩ | ⟨_, c, next, wrote, _⟩
      · exact absurd last (unmet text (.start text)).1
      · exact absurd meets (unmet text (.start text)).2
      · obtain ⟨rfl, rfl⟩ := Prod.mk.inj (Option.some.inj (taken.symm.trans wrote))
        exact (wellFormed_cons_iff c later).mpr (ih (unmet.onward going taken))

/-- The decoder gives these two scalar values up. -/
def Refused (c : Char) : Prop := c = '\u0800' ∨ c = '\uFFFF'

theorem decode_char (c : Char) (rest : List UInt8) :
    (decode (String.utf8EncodeChar c ++ rest)).1 = decodeError ∧ Refused c ∨
      decode (String.utf8EncodeChar c ++ rest) = (c.toNat, rest) ∧ ¬ Refused c ∧
        c.toNat ≠ decodeError := by
  rw [← encodeUTF8_eq, decode_encodeUTF8, Refused]
  have sentinel : c = '\uFFFF' ↔ c.toNat = decodeError := by
    rw [← Char.toNat_inj]
    rfl
  by_cases smallest : c = '\u0800'
  · rw [if_pos smallest]
    exact Or.inl ⟨rfl, Or.inl smallest⟩
  · rw [if_neg smallest, ← sentinel]
    by_cases last : c = '\uFFFF'
    · exact Or.inl ⟨last, Or.inr last⟩
    · exact Or.inr ⟨rfl, not_or.mpr ⟨smallest, last⟩, fun same => last (sentinel.mpr same)⟩

theorem decodeUTF8Round_char {c : Char} (accepted : ¬ Refused c) (rest : List UInt8) :
    decodeUTF8Round (String.utf8EncodeChar c ++ rest) =
      some (String.utf8EncodeChar c, rest) := by
  rcases decode_char c rest with ⟨_, refused⟩ | ⟨decoded, _, value⟩
  · exact absurd refused accepted
  · rw [decodeUTF8Round, lossyRound, decoded, if_pos value, encodeUTF8_eq]

/-- A refused value becomes loss characters, or the loop passes the end. -/
theorem decodeUTF8Round_refused {c : Char} (refused : Refused c) (rest : List UInt8) :
    decodeUTF8Round (String.utf8EncodeChar c ++ rest) = none ∨
      ∃ next, decodeUTF8Round (String.utf8EncodeChar c ++ rest) =
        some (String.utf8EncodeChar '?', next) := by
  rcases decode_char c rest with ⟨error, _⟩ | ⟨_, accepted, _⟩
  · rw [decodeUTF8Round, lossyRound, if_neg (not_not_intro error), ← lossChar_encoded]
    split
    · exact Or.inl rfl
    · exact Or.inr ⟨_, rfl⟩
  · exact absurd refused accepted

/-- A well-formed string is kept exactly when no value of it is refused. -/
theorem ends_chars_iff (chars : List Char) :
    TextRound.Ends decodeUTF8Round (chars.flatMap String.utf8EncodeChar)
      (chars.flatMap String.utf8EncodeChar) ↔ ∀ c ∈ chars, ¬ Refused c := by
  have going : ∀ (c : Char) (rest : List UInt8), String.utf8EncodeChar c ++ rest ≠ [] :=
    fun c rest empty => String.utf8EncodeChar_ne_nil (List.append_eq_nil_iff.mp empty).1
  induction chars with
  | nil => exact iff_of_true .done fun _ member => absurd member List.not_mem_nil
  | cons c chars ih =>
      rw [List.flatMap_cons, List.forall_mem_cons]
      refine Iff.trans ?_ (and_congr_right fun _ => ih)
      by_cases refused : Refused c
      · refine iff_of_false (fun ends => ?_) fun accepted => accepted.1 refused
        rcases decodeUTF8Round_refused refused (chars.flatMap String.utf8EncodeChar) with
          none | ⟨next, taken⟩
        · exact ends.taken (going c _) none
        · obtain ⟨later, same, _⟩ := (TextRound.ends_iff (going c _) taken).mp ends
          obtain ⟨rfl, _⟩ := utf8EncodeChar_inj same
          exact absurd refused (by rw [Refused]; decide)
      · rw [TextRound.ends_iff (going c _) (decodeUTF8Round_char refused _)]
        constructor
        · intro goes
          obtain ⟨later, same, ends⟩ := goes
          obtain rfl := List.append_cancel_left same
          exact ⟨refused, ends⟩
        · intro both
          exact ⟨_, rfl, both.2⟩

/-- The loop ends with a well-formed string, and a well-formed string comes back unchanged. -/
def Sanitizes (src : List UInt8) : Prop :=
  ∃ out, TextRound.Ends decodeUTF8Round src out ∧ WellFormed out ∧ (WellFormed src → out = src)

/-- The decoder lets surrogates through, runs over a last U+FFFF and refuses two values. -/
theorem sanitizes_iff (src : List UInt8) :
    Sanitizes src ↔ Unmet src ∧
      ∀ chars : List Char, src = chars.flatMap String.utf8EncodeChar → ∀ c ∈ chars,
        c ≠ '\u0800' ∧ c ≠ '\uFFFF' := by
  have refused : ∀ c : Char, c ≠ '\u0800' ∧ c ≠ '\uFFFF' ↔ ¬ Refused c :=
    fun c => (not_or.symm)
  simp only [refused]
  constructor
  · intro sanitizes
    obtain ⟨out, ends, formed, kept⟩ := sanitizes
    refine ⟨unmet_of_ends ends formed, ?_⟩
    rintro chars rfl
    rw [kept ⟨chars, rfl⟩] at ends
    exact (ends_chars_iff chars).mp ends
  · intro conditions
    obtain ⟨unmet, accepted⟩ := conditions
    obtain ⟨out, ends, formed⟩ := unmet.ends
    refine ⟨out, ends, formed, fun source => ?_⟩
    obtain ⟨chars, rfl⟩ := source
    exact ends.unique ((ends_chars_iff chars).mpr (accepted chars rfl))

/-- The three bytes of a surrogate are passed on. -/
theorem surrogate_passes : ¬ Sanitizes [0xED, 0xA0, 0x80] := by
  intro sanitizes
  obtain ⟨out, ends, formed, _⟩ := sanitizes
  have unmet := unmet_of_ends ends formed _ (.start _)
  exact unmet.2 ⟨0xA0, 0x80, [], rfl, by decide, by decide⟩

end DecodeUTF8

end CodeCollect.Log4cxx.Transcoder
