import Mathlib

namespace CodeCollect.Log4cxx

namespace Transcoder

/-- This value stands for bytes that cannot be decoded. -/
def decodeError : Nat := 0xFFFF

/-- This constant is `LOSSCHAR`. -/
def lossChar : UInt8 := 0x3F

/-- This is the overload for one value, which writes at most four bytes. -/
def encodeUTF8 (ch : Nat) : List UInt8 :=
  if ch < 0x80 then [UInt8.ofNat ch]
  else if ch < 0x800 then
    [UInt8.ofNat (0xC0 + (ch >>> 6)), UInt8.ofNat (0x80 + (ch &&& 0x3F))]
  else if ch < 0x10000 then
    [UInt8.ofNat (0xE0 + (ch >>> 12)), UInt8.ofNat (0x80 + ((ch >>> 6) &&& 0x3F)),
      UInt8.ofNat (0x80 + (ch &&& 0x3F))]
  else if ch ≤ 0x10FFFF then
    [UInt8.ofNat (0xF0 + (ch >>> 18)), UInt8.ofNat (0x80 + ((ch >>> 12) &&& 0x3F)),
      UInt8.ofNat (0x80 + ((ch >>> 6) &&& 0x3F)), UInt8.ofNat (0x80 + (ch &&& 0x3F))]
  else [0xEF, 0xBF, 0xBF]

def encode (sv : Nat) (dst : List UInt8) : List UInt8 := dst ++ encodeUTF8 sv

/-- The iterator is known by the bytes that it has not passed yet. -/
def decode (src : List UInt8) : Nat × List UInt8 :=
  match src with
  -- The loop never comes here with the iterator at the end.
  | [] => (decodeError, src)
  | ch1 :: rest =>
      if ch1.toNat ≤ 0x7F then (ch1.toNat, rest)
      else if ch1.toNat &&& 0xC0 ≠ 0x80 then
        match rest with
        | [] => (decodeError, src)
        | ch2 :: rest =>
            if ch2.toNat &&& 0xC0 ≠ 0x80 then (decodeError, src)
            else if ch1.toNat &&& 0xE0 = 0xC0 then
              let rv := ((ch1.toNat &&& 0x1F) <<< 6) + (ch2.toNat &&& 0x3F)
              if rv ≥ 0x80 then (rv, rest) else (decodeError, src)
            else
              match rest with
              | [] => (decodeError, src)
              | ch3 :: rest =>
                  if ch3.toNat &&& 0xC0 ≠ 0x80 then (decodeError, src)
                  else if ch1.toNat &&& 0xF0 = 0xE0 then
                    let rv := ((ch1.toNat &&& 0x0F) <<< 12) + ((ch2.toNat &&& 0x3F) <<< 6) +
                      (ch3.toNat &&& 0x3F)
                    if rv ≤ 0x800 then (decodeError, src) else (rv, rest)
                  else
                    match rest with
                    | [] => (decodeError, src)
                    | ch4 :: rest =>
                        if ch4.toNat &&& 0xC0 ≠ 0x80 then (decodeError, src)
                        else
                          let rv := ((ch1.toNat &&& 0x07) <<< 18) +
                            ((ch2.toNat &&& 0x3F) <<< 12) + ((ch3.toNat &&& 0x3F) <<< 6) +
                            (ch4.toNat &&& 0x3F)
                          if rv > 0xFFFF then (rv, rest) else (decodeError, src)
      else (decodeError, src)

/-- The iterator moves on unless the value is the error, and it never moves back. -/
theorem decode_length (src : List UInt8) : (decode src).2.length ≤ src.length ∧
    ((decode src).1 ≠ decodeError → (decode src).2.length < src.length) := by
  fun_cases decode src
  all_goals
    simp only [List.length_cons]
    refine ⟨by omega, fun decoded => ?_⟩
  all_goals
    first
    | exact absurd rfl decoded
    | omega

/-- Each round of the loop in `decodeUTF8` decodes a value or gives up one byte. -/
def rounds (src : List UInt8) : List (Option Nat) :=
  if src = [] then []
  else if (decode src).1 ≠ decodeError then
    some (decode src).1 :: rounds (decode src).2
  else none :: rounds (decode src).2.tail
termination_by src.length
decreasing_by
  · rename_i decoded
    exact (decode_length src).2 decoded
  · rename_i going _
    have positive := List.length_pos_iff.mpr going
    have bound := (decode_length src).1
    rw [List.length_tail]
    omega

/-- The values are encoded again, and a given up byte becomes the loss character. -/
def decodeUTF8 (src dst : List UInt8) : List UInt8 :=
  (rounds src).foldl
    (fun dst round =>
      match round with
      | some sv => encode sv dst
      | none => dst ++ [lossChar])
    dst

theorem rounds_decoded {src : List UInt8} (going : src ≠ [])
    (decoded : (decode src).1 ≠ decodeError) :
    rounds src = some (decode src).1 :: rounds (decode src).2 := by
  rw [rounds, if_neg going, if_pos decoded]

theorem rounds_error {src : List UInt8} (going : src ≠ [])
    (failed : (decode src).1 = decodeError) :
    rounds src = none :: rounds (decode src).2.tail := by
  rw [rounds, if_neg going, if_neg (not_not_intro failed)]

/-- These are the masks of a continuation byte. -/
theorem continuation_masks {y : Nat} (small : y < 0x40) :
    (UInt8.ofNat (0x80 + y)).toNat &&& 0xC0 = 0x80 ∧
      (UInt8.ofNat (0x80 + y)).toNat &&& 0x3F = y := by
  revert y
  decide

/-- These are the masks of the first of two bytes. -/
theorem two_masks {x : Nat} (small : x < 0x20) :
    0x7F < (UInt8.ofNat (0xC0 + x)).toNat ∧
      (UInt8.ofNat (0xC0 + x)).toNat &&& 0xC0 = 0xC0 ∧
      (UInt8.ofNat (0xC0 + x)).toNat &&& 0xE0 = 0xC0 ∧
      (UInt8.ofNat (0xC0 + x)).toNat &&& 0x1F = x := by
  revert x
  decide

/-- These are the masks of the first of three bytes. -/
theorem three_masks {x : Nat} (small : x < 0x10) :
    0x7F < (UInt8.ofNat (0xE0 + x)).toNat ∧
      (UInt8.ofNat (0xE0 + x)).toNat &&& 0xC0 = 0xC0 ∧
      (UInt8.ofNat (0xE0 + x)).toNat &&& 0xE0 = 0xE0 ∧
      (UInt8.ofNat (0xE0 + x)).toNat &&& 0xF0 = 0xE0 ∧
      (UInt8.ofNat (0xE0 + x)).toNat &&& 0x0F = x := by
  revert x
  decide

/-- These are the masks of the first of four bytes. -/
theorem four_masks {x : Nat} (small : x < 0x08) :
    0x7F < (UInt8.ofNat (0xF0 + x)).toNat ∧
      (UInt8.ofNat (0xF0 + x)).toNat &&& 0xC0 = 0xC0 ∧
      (UInt8.ofNat (0xF0 + x)).toNat &&& 0xE0 = 0xE0 ∧
      (UInt8.ofNat (0xF0 + x)).toNat &&& 0xF0 = 0xF0 ∧
      (UInt8.ofNat (0xF0 + x)).toNat &&& 0x07 = x := by
  revert x
  decide

section Decode

variable {w x y z : Nat} (rest : List UInt8)

/-- A continuation byte is not decoded. -/
theorem decode_continuation (small : y < 0x40) :
    decode (UInt8.ofNat (0x80 + y) :: rest) = (decodeError, UInt8.ofNat (0x80 + y) :: rest) := by
  have above : 0x7F < (UInt8.ofNat (0x80 + y)).toNat := by
    revert y
    decide
  obtain ⟨mask, _⟩ := continuation_masks small
  rw [decode.eq_def]
  dsimp only
  rw [if_neg (by omega), if_neg (not_not_intro mask)]

theorem decode_one (small : x < 0x80) : decode (UInt8.ofNat x :: rest) = (x, rest) := by
  have same : (UInt8.ofNat x).toNat = x := UInt8.toNat_ofNat_of_lt' (small.trans (by decide))
  rw [decode.eq_def]
  dsimp only
  rw [same, if_pos (by omega)]

theorem decode_two (first : x < 0x20) (second : y < 0x40) (range : 0x80 ≤ (x <<< 6) + y) :
    decode (UInt8.ofNat (0xC0 + x) :: UInt8.ofNat (0x80 + y) :: rest) =
      ((x <<< 6) + y, rest) := by
  obtain ⟨above, mask, kind, value⟩ := two_masks first
  obtain ⟨mask2, value2⟩ := continuation_masks second
  rw [decode.eq_def]
  dsimp only
  rw [if_neg (by omega), if_pos (by rw [mask]; decide),
    if_neg (not_not_intro mask2), if_pos kind, value, value2, if_pos range]

/-- The smallest value of three bytes is not decoded. -/
theorem decode_three (first : x < 0x10) (second : y < 0x40) (third : z < 0x40) :
    decode (UInt8.ofNat (0xE0 + x) :: UInt8.ofNat (0x80 + y) :: UInt8.ofNat (0x80 + z) :: rest) =
      if (x <<< 12) + (y <<< 6) + z ≤ 0x800 then
        (decodeError, UInt8.ofNat (0xE0 + x) :: UInt8.ofNat (0x80 + y) ::
          UInt8.ofNat (0x80 + z) :: rest)
      else ((x <<< 12) + (y <<< 6) + z, rest) := by
  obtain ⟨above, mask, kind, kind3, value⟩ := three_masks first
  obtain ⟨mask2, value2⟩ := continuation_masks second
  obtain ⟨mask3, value3⟩ := continuation_masks third
  rw [decode.eq_def]
  dsimp only
  rw [if_neg (by omega), if_pos (by rw [mask]; decide),
    if_neg (not_not_intro mask2), if_neg (by rw [kind]; decide),
    if_neg (not_not_intro mask3), if_pos kind3, value, value2, value3]

theorem decode_four (first : w < 0x08) (second : x < 0x40) (third : y < 0x40)
    (fourth : z < 0x40) (range : 0xFFFF < (w <<< 18) + (x <<< 12) + (y <<< 6) + z) :
    decode (UInt8.ofNat (0xF0 + w) :: UInt8.ofNat (0x80 + x) :: UInt8.ofNat (0x80 + y) ::
        UInt8.ofNat (0x80 + z) :: rest) =
      ((w <<< 18) + (x <<< 12) + (y <<< 6) + z, rest) := by
  obtain ⟨above, mask, kind, kind4, value⟩ := four_masks first
  obtain ⟨mask2, value2⟩ := continuation_masks second
  obtain ⟨mask3, value3⟩ := continuation_masks third
  obtain ⟨mask4, value4⟩ := continuation_masks fourth
  rw [decode.eq_def]
  dsimp only
  rw [if_neg (by omega), if_pos (by rw [mask]; decide),
    if_neg (not_not_intro mask2), if_neg (by rw [kind]; decide),
    if_neg (not_not_intro mask3), if_neg (by rw [kind4]; decide),
    if_neg (not_not_intro mask4), value, value2, value3, value4, if_pos range]

end Decode

section Encode

variable (c : Char)

theorem scalar_bound : c.toNat < 0x110000 := by
  have valid := c.valid
  simp only [UInt32.isValidChar, Nat.isValidChar] at valid
  show c.val.toNat < 0x110000
  omega

/-- These are the cases of the encoder, with their groups of bits as digits. -/
theorem encodeUTF8_cases {n : Nat} (bound : n < 0x110000) :
    n < 0x80 ∧ encodeUTF8 n = [UInt8.ofNat n] ∨
    0x80 ≤ n ∧ n < 0x800 ∧
      encodeUTF8 n = [UInt8.ofNat (0xC0 + n / 0x40), UInt8.ofNat (0x80 + n % 0x40)] ∨
    0x800 ≤ n ∧ n < 0x10000 ∧
      encodeUTF8 n = [UInt8.ofNat (0xE0 + n / 0x1000), UInt8.ofNat (0x80 + n / 0x40 % 0x40),
        UInt8.ofNat (0x80 + n % 0x40)] ∨
    0x10000 ≤ n ∧
      encodeUTF8 n = [UInt8.ofNat (0xF0 + n / 0x40000), UInt8.ofNat (0x80 + n / 0x1000 % 0x40),
        UInt8.ofNat (0x80 + n / 0x40 % 0x40), UInt8.ofNat (0x80 + n % 0x40)] := by
  have mask : ∀ m : Nat, m &&& 0x3F = m % 0x40 := fun m => Nat.and_two_pow_sub_one_eq_mod m 6
  rw [encodeUTF8]
  simp only [mask, Nat.shiftRight_eq_div_pow]
  by_cases one : n < 0x80
  · exact Or.inl ⟨one, if_pos one⟩
  · rw [if_neg one]
    by_cases two : n < 0x800
    · exact Or.inr (Or.inl ⟨by omega, two, if_pos two⟩)
    · rw [if_neg two]
      by_cases three : n < 0x10000
      · exact Or.inr (Or.inr (Or.inl ⟨by omega, three, if_pos three⟩))
      · rw [if_neg three]
        exact Or.inr (Or.inr (Or.inr ⟨by omega, if_pos (by omega)⟩))

/-- The encoder writes the bytes that the standard names. -/
theorem encodeUTF8_eq : encodeUTF8 c.toNat = String.utf8EncodeChar c := by
  rw [String.utf8EncodeChar]
  change encodeUTF8 c.toNat = if c.toNat ≤ 0x7F then _ else
    if c.toNat ≤ 0x7FF then _ else if c.toNat ≤ 0xFFFF then _ else _
  rcases encodeUTF8_cases (scalar_bound c) with ⟨range, bytes⟩ | ⟨low, range, bytes⟩ |
    ⟨low, range, bytes⟩ | ⟨low, bytes⟩
  · rw [bytes, if_pos (by omega)]
    rfl
  · have first : c.val.toNat / 0x40 % 0x20 = c.toNat / 0x40 :=
      Nat.mod_eq_of_lt (show c.toNat / 0x40 < 0x20 by omega)
    rw [bytes, if_neg (by omega), if_pos (by omega), first, Nat.add_comm 0xC0,
      Nat.add_comm 0x80]
    rfl
  · have first : c.val.toNat / 0x1000 % 0x10 = c.toNat / 0x1000 :=
      Nat.mod_eq_of_lt (show c.toNat / 0x1000 < 0x10 by omega)
    rw [bytes, if_neg (by omega), if_neg (by omega), if_pos (by omega), first,
      Nat.add_comm 0xE0, Nat.add_comm 0x80, Nat.add_comm 0x80]
    rfl
  · have bound := scalar_bound c
    have first : c.val.toNat / 0x40000 % 0x08 = c.toNat / 0x40000 :=
      Nat.mod_eq_of_lt (show c.toNat / 0x40000 < 0x08 by omega)
    rw [bytes, if_neg (by omega), if_neg (by omega), if_neg (by omega), first,
      Nat.add_comm 0xF0, Nat.add_comm 0x80, Nat.add_comm 0x80, Nat.add_comm 0x80]
    rfl

/-- One encoded value is decoded again, unless it is the smallest of three bytes. -/
theorem decode_encodeUTF8_of_lt {n : Nat} (range : n < 0x110000) (rest : List UInt8) :
    decode (encodeUTF8 n ++ rest) =
      if n = 0x800 then (decodeError, encodeUTF8 n ++ rest) else (n, rest) := by
  rcases encodeUTF8_cases range with ⟨range, bytes⟩ | ⟨low, range, bytes⟩ |
    ⟨low, range, bytes⟩ | ⟨low, bytes⟩
  · rw [if_neg (by omega), bytes]
    exact decode_one rest range
  · rw [if_neg (by omega), bytes]
    have value : (n / 0x40) <<< 6 + n % 0x40 = n := by
      rw [Nat.shiftLeft_eq]
      omega
    exact (decode_two rest (by omega) (by omega) (by omega)).trans (by rw [value])
  · rw [bytes]
    have value : (n / 0x1000) <<< 12 + (n / 0x40 % 0x40) <<< 6 + n % 0x40 = n := by
      simp only [Nat.shiftLeft_eq]
      omega
    refine (decode_three rest (by omega) (by omega) (by omega)).trans ?_
    rw [value]
    by_cases smallest : n = 0x800
    · rw [if_pos (by omega), if_pos smallest]
      rfl
    · rw [if_neg (by omega), if_neg smallest]
  · rw [if_neg (by omega), bytes]
    have value : (n / 0x40000) <<< 18 + (n / 0x1000 % 0x40) <<< 12 + (n / 0x40 % 0x40) <<< 6 +
        n % 0x40 = n := by
      simp only [Nat.shiftLeft_eq]
      omega
    exact (decode_four rest (by omega) (by omega) (by omega) (by omega) (by omega)).trans
      (by rw [value])

/-- One value of the standard encoding is decoded again, unless it is the smallest of three bytes. -/
theorem decode_encodeUTF8 (rest : List UInt8) :
    decode (encodeUTF8 c.toNat ++ rest) =
      if c = '\u0800' then (decodeError, encodeUTF8 c.toNat ++ rest) else (c.toNat, rest) := by
  have low : c = '\u0800' ↔ c.toNat = 0x800 := by
    rw [← Char.toNat_inj]
    rfl
  simp only [low]
  exact decode_encodeUTF8_of_lt (scalar_bound c) rest

end Encode

section RoundTrip

/-- The values are encoded one behind the other. -/
def encodeAll (chars : List Char) : List UInt8 :=
  chars.foldl (fun dst c => encode c.toNat dst) []

/-- The standard bytes of a sequence are decoded to the same sequence again. -/
structure RoundTrip (chars : List Char) : Prop where
  standard : encodeAll chars = chars.flatMap String.utf8EncodeChar
  values : rounds (encodeAll chars) = chars.map fun c => some c.toNat
  bytes : ∀ dst, decodeUTF8 (encodeAll chars) dst = dst ++ encodeAll chars

/-- These are the rounds of one value. -/
def roundsOf (c : Char) : List (Option Nat) :=
  if c = '\u0800' then [none, none, none] else [some c.toNat]

theorem foldl_encode (chars : List Char) (dst : List UInt8) :
    chars.foldl (fun dst c => encode c.toNat dst) dst =
      dst ++ chars.flatMap fun c => encodeUTF8 c.toNat := by
  induction chars generalizing dst with
  | nil => exact (List.append_nil dst).symm
  | cons c rest ih => rw [List.foldl_cons, ih, encode, List.flatMap_cons, List.append_assoc]

theorem encodeAll_eq (chars : List Char) :
    encodeAll chars = chars.flatMap fun c => encodeUTF8 c.toNat := foldl_encode chars []

theorem rounds_continuation {y : Nat} (small : y < 0x40) (rest : List UInt8) :
    rounds (UInt8.ofNat (0x80 + y) :: rest) = none :: rounds rest := by
  have decoded := decode_continuation rest small
  rw [rounds_error (List.cons_ne_nil _ _) (by rw [decoded]), decoded, List.tail_cons]

/-- The decoder goes on behind each value. -/
theorem rounds_encodeUTF8 {c : Char} (sentinel : c ≠ '\uFFFF') (rest : List UInt8) :
    rounds (encodeUTF8 c.toNat ++ rest) = roundsOf c ++ rounds rest := by
  have going : encodeUTF8 c.toNat ++ rest ≠ [] := by
    rw [encodeUTF8_eq]
    exact List.append_ne_nil_of_left_ne_nil String.utf8EncodeChar_ne_nil rest
  have decoded := decode_encodeUTF8 c rest
  by_cases smallest : c = '\u0800'
  · rw [if_pos smallest] at decoded
    rw [rounds_error going (by rw [decoded]), decoded, roundsOf, if_pos smallest, smallest]
    show none :: rounds (UInt8.ofNat (0x80 + 0x20) :: UInt8.ofNat (0x80 + 0) :: rest) = _
    rw [rounds_continuation (by decide), rounds_continuation (by decide)]
    rfl
  · rw [if_neg smallest] at decoded
    have value : (decode (encodeUTF8 c.toNat ++ rest)).1 ≠ decodeError := by
      rw [decoded]
      exact fun same => sentinel (Char.toNat_inj.mp same)
    rw [rounds_decoded going value, decoded, roundsOf, if_neg smallest]
    rfl

/-- The decoder goes through the values of a sequence one after the other. -/
theorem rounds_encodeAll {chars : List Char} (sentinel : '\uFFFF' ∉ chars) :
    rounds (encodeAll chars) = chars.flatMap roundsOf := by
  rw [encodeAll_eq]
  induction chars with
  | nil => rw [List.flatMap_nil, List.flatMap_nil, rounds, if_pos rfl]
  | cons c rest ih =>
      obtain ⟨first, others⟩ := not_or.mp (List.mem_cons.not.mp sentinel)
      rw [List.flatMap_cons, rounds_encodeUTF8 (Ne.symm first), ih others, List.flatMap_cons]

/-- All values but one come back, so the trip fails exactly for sequences with that one. -/
theorem roundTrip_iff {chars : List Char} (sentinel : '\uFFFF' ∉ chars) :
    RoundTrip chars ↔ '\u0800' ∉ chars := by
  constructor
  · intro trip smallest
    have failed : none ∈ rounds (encodeAll chars) := by
      rw [rounds_encodeAll sentinel, List.mem_flatMap]
      exact ⟨_, smallest, by decide⟩
    rw [trip.values, List.mem_map] at failed
    obtain ⟨c, _, impossible⟩ := failed
    exact Option.some_ne_none _ impossible
  · intro absent
    have values : rounds (encodeAll chars) = chars.map fun c => some c.toNat := by
      rw [rounds_encodeAll sentinel, List.map_eq_flatMap]
      apply List.flatMap_congr
      intro c member
      rw [roundsOf, if_neg]
      rintro rfl
      exact absent member
    refine ⟨?_, values, fun dst => ?_⟩
    · rw [encodeAll_eq]
      simp only [encodeUTF8_eq]
    · rw [decodeUTF8, values, List.foldl_map, encodeAll_eq]
      exact foldl_encode chars dst

/-- A sequence with a value of each length comes back. -/
theorem roundTrip_lengths : RoundTrip ['a', 'é', '€', '𝄞'] :=
  (roundTrip_iff (by decide)).mpr (by decide)

/-- The value U+0800 becomes three loss characters. -/
theorem smallest_lost : ¬ RoundTrip ['\u0800'] := by
  intro trip
  have lost := rounds_encodeAll (show '\uFFFF' ∉ ['\u0800'] by decide)
  rw [trip.values] at lost
  exact absurd lost (by decide)

end RoundTrip

end Transcoder

end CodeCollect.Log4cxx
