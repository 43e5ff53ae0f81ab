import CodeCollect.Log4cxx.TranscoderLoops

namespace CodeCollect.Log4cxx.Transcoder

open CodeCollect.Library
open LogChar (decodeUTF16 decodeUTF32)

/-- The low surrogate is computed with a logical `and`. -/
def encodeUTF16 (sv : Nat) : List Nat :=
  if sv < 0x10000 then [sv]
  else
    let u := (sv >>> 16) % 0x100
    let w := (u + 0xFF) % 0x100
    let hs := (0xD800 + ((w &&& 0xF) <<< 6) + ((sv &&& 0xFFFF) >>> 10)) % 0x10000
    let ls := 0xDC00 + (decide (sv ≠ 0) && decide (0x3FF ≠ 0)).toNat
    [hs, ls]

/-- The macro `__STDC_ISO_10646__` and the size of `wchar_t` choose the code for wide strings. -/
inductive WideBuild where
  | iso10646
  | fourBytes
  | twoBytes
deriving DecidableEq, Repr

/-- This is the overload of `decode` for wide strings, whose units are known by their values. -/
def decodeWide (build : WideBuild) : LogChars → Nat × LogChars :=
  match build with
  | .iso10646 => LogChar.decodeUTF32
  | .fourBytes | .twoBytes => LogChar.decodeUTF16

/-- This is the overload of `encode` for wide strings. -/
def encodeWide (build : WideBuild) (sv : Nat) : List Nat :=
  match build with
  | .iso10646 | .fourBytes => [sv]
  | .twoBytes => encodeUTF16 sv

/-- This is one round of the loop of `encode` from a log string to a wide string. -/
def encodeWideRound (build : WideBuild) : TextRound UInt8 Nat := plainRound decode (encodeWide build)

/-- This is one round of the loop of `decode` from a wide string to a log string. -/
def decodeWideRound (build : WideBuild) : TextRound Nat UInt8 :=
  lossyRound (decodeWide build) encodeUTF8 lossChar

/-- The overloads for strings of type `UniChar` step over nothing. -/
def encodeUniCharRound : TextRound UInt8 Nat := plainRound decode encodeUTF16

def decodeUniCharRound : TextRound Nat UInt8 := plainRound decodeUTF16 encodeUTF8

/-- A loop ends, and each of its rounds moves the iterator on and not beyond the end. -/
def Transcodes {Unit Output : Type} (round : TextRound Unit Output) (src : List Unit) : Prop :=
  TextRound.Advancing round src ∧ ∃ output, TextRound.Ends round src output

section Accepted

variable {Unit Output : Type}

/-- The decoder passes these units, whatever follows them. -/
def Whole (decode : List Unit → Nat × List Unit) (part : List Unit) : Prop :=
  part ≠ [] ∧ ∀ rest, (decode (part ++ rest)).2 = rest

/-- The string is made of parts that the decoder accepts. -/
def Accepted (decode : List Unit → Nat × List Unit) (src : List Unit) : Prop :=
  ∃ parts : List (List Unit), src = parts.flatten ∧ ∀ part ∈ parts, Whole decode part

/-- The decoder stays where it is or passes a part of the string. -/
def Partwise (decode : List Unit → Nat × List Unit) : Prop :=
  ∀ src, src ≠ [] → (decode src).2 = src ∨ ∃ part rest, src = part ++ rest ∧ Whole decode part

variable {decode : List Unit → Nat × List Unit} {encode : Nat → List Output} {src : List Unit}

theorem Accepted.advancing (accepted : Accepted decode src) :
    TextRound.Advancing (plainRound decode encode) src := by
  obtain ⟨parts, rfl, whole⟩ := accepted
  induction parts with
  | nil => exact TextRound.advancing_nil
  | cons part parts ih =>
      obtain ⟨nonempty, passes⟩ := whole part List.mem_cons_self
      have positive := List.length_pos_iff.mpr nonempty
      have going : (part :: parts).flatten ≠ [] := by simp [nonempty]
      rw [TextRound.advancing_iff going rfl, List.flatten_cons, passes]
      constructor
      · rw [List.length_append]
        omega
      · exact ih fun other member => whole other (List.mem_cons_of_mem _ member)

/-- A loop that goes on from where its decoder leaves it ends exactly for accepted strings. -/
theorem transcodes_plain_iff (partwise : Partwise decode) :
    Transcodes (plainRound decode encode) src ↔ Accepted decode src := by
  constructor
  · intro transcodes
    have advancing := transcodes.1
    clear transcodes
    induction bound : src.length using Nat.strong_induction_on generalizing src with
    | _ length ih =>
        by_cases going : src = []
        · exact ⟨[], going, fun _ member => absurd member List.not_mem_nil⟩
        · obtain ⟨written, next, taken, shorter⟩ := advancing src (.start src) going
          obtain ⟨_, rfl⟩ := Prod.mk.inj (Option.some.inj taken)
          rcases partwise src going with stays | ⟨part, rest, rfl, whole⟩
          · rw [stays] at shorter
            exact absurd shorter (Nat.lt_irrefl _)
          · have onward := advancing.onward going taken
            rw [whole.2 rest] at onward shorter
            obtain ⟨parts, rfl, wholes⟩ := ih rest.length (bound ▸ shorter) onward rfl
            refine ⟨part :: parts, rfl, ?_⟩
            rw [List.forall_mem_cons]
            exact ⟨whole, wholes⟩
  · intro accepted
    exact ⟨accepted.advancing, accepted.advancing.ends⟩

theorem partwise_decode : Partwise Transcoder.decode := by
  intro src _
  rcases decode_cases src with stays | ⟨part, sv, rest, same, reads, _⟩
  · exact Or.inl (congrArg Prod.snd stays)
  · refine Or.inr ⟨part, rest, same, reads.ne_nil, fun other => ?_⟩
    rw [reads.decode]

/-- The decoder stays and reports an error, or it reads one or two units as another value. -/
theorem decodeUTF16_cases (src : List Nat) :
    decodeUTF16 src = (decodeError, src) ∨
      ∃ part sv rest, src = part ++ rest ∧ part ≠ [] ∧ sv ≠ decodeError ∧
        ∀ other, decodeUTF16 (part ++ other) = (sv, other) := by
  fun_cases decodeUTF16 src
  case case2 ch1 rest plain =>
    by_cases value : ch1 = decodeError
    · rw [if_pos value, value]
      exact Or.inl rfl
    · refine Or.inr ⟨[ch1], ch1, rest, rfl, List.cons_ne_nil _ _, value, fun other => ?_⟩
      rw [List.singleton_append, LogChar.decodeUTF16_plain plain, if_neg value]
  case case4 ch1 special high ch2 rest low =>
    refine Or.inr ⟨[ch1, ch2], (ch1 - 0xD800) * 0x400 + (ch2 - 0xDC00) + 0x10000, rest, rfl,
      List.cons_ne_nil _ _, ?_, fun other => ?_⟩
    · rw [decodeError]
      omega
    · rw [List.cons_append, List.singleton_append,
        LogChar.decodeUTF16_pair ⟨by omega, high⟩ low]
  all_goals exact Or.inl rfl

theorem partwise_decodeUTF16 : Partwise decodeUTF16 := by
  intro src _
  rcases decodeUTF16_cases src with stays | ⟨part, sv, rest, same, nonempty, _, read⟩
  · exact Or.inl (congrArg Prod.snd stays)
  · refine Or.inr ⟨part, rest, same, nonempty, fun other => ?_⟩
    rw [read]

end Accepted

section Lossy

variable {Output : Type} {encode : Nat → List Output} {lossChar : Output}

/-- A loop that steps over errors moves on when its decoder stays at them. -/
theorem advancing_lossy_decodeUTF16 (src : List Nat) :
    TextRound.Advancing (lossyRound decodeUTF16 encode lossChar) src := by
  intro text _ going
  rcases decodeUTF16_cases text with stays | ⟨part, sv, rest, rfl, nonempty, value, read⟩
  · cases text with
    | nil => exact absurd rfl going
    | cons unit rest =>
        refine ⟨[lossChar], rest, ?_, Nat.lt_succ_self _⟩
        rw [lossyRound, stays, if_neg (not_not_intro rfl)]
  · have positive := List.length_pos_iff.mpr nonempty
    refine ⟨encode sv, rest, ?_, ?_⟩
    · rw [lossyRound, read, if_pos value]
    · rw [List.length_append]
      omega

/-- So many units U+FFFF are at the end of the string. -/
def lastSentinels (src : List Nat) : Nat :=
  (src.reverse.takeWhile fun unit => decide (unit = decodeError)).length

/-- The loop steps over two units at once when the first one is U+FFFF. -/
theorem advancing_iso10646_iff (src : List Nat) :
    TextRound.Advancing (lossyRound (decodeWide .iso10646) encode lossChar) src ↔
      Even (lastSentinels src) := by
  change _ ↔ Even (trailing decodeError src)
  induction bound : src.length using Nat.strong_induction_on generalizing src with
  | _ length ih =>
      cases src with
      | nil => exact iff_of_true TextRound.advancing_nil (by decide)
      | cons unit rest =>
          by_cases sentinel : unit = decodeError
          · subst sentinel
            cases rest with
            | nil =>
                refine iff_of_false (fun advancing => ?_) (not_even_trailing_one decodeError)
                obtain ⟨_, _, impossible, _⟩ := advancing _ (.start _) (List.cons_ne_nil _ _)
                exact absurd impossible (by simp [lossyRound, decodeWide, decodeUTF32])
            | cons next rest =>
                have taken : lossyRound (decodeWide .iso10646) encode lossChar
                    (decodeError :: next :: rest) = some ([lossChar], rest) := by
                  simp [lossyRound, decodeWide, decodeUTF32]
                have shorter : rest.length < (decodeError :: next :: rest).length := by
                  rw [List.length_cons, List.length_cons]
                  omega
                rw [TextRound.advancing_iff (List.cons_ne_nil _ _) taken, even_trailing_pair,
                  ih rest.length (bound ▸ shorter) rest rfl]
                exact and_iff_right shorter
          · have taken : lossyRound (decodeWide .iso10646) encode lossChar (unit :: rest) =
                some (encode unit, rest) := by
              simp [lossyRound, decodeWide, decodeUTF32, sentinel]
            have shorter : rest.length < (unit :: rest).length := Nat.lt_succ_self _
            rw [TextRound.advancing_iff (List.cons_ne_nil _ _) taken, trailing_cons_of_ne sentinel,
              ih rest.length (bound ▸ shorter) rest rfl]
            exact and_iff_right shorter

/-- Such a loop over a wide string moves on unless it runs over a last U+FFFF. -/
theorem advancing_wide_iff (build : WideBuild) (src : List Nat) :
    TextRound.Advancing (lossyRound (decodeWide build) encode lossChar) src ↔
      (build = .iso10646 → Even (lastSentinels src)) := by
  cases build with
  | iso10646 =>
      rw [advancing_iso10646_iff]
      exact ⟨fun even _ => even, fun even => even rfl⟩
  | fourBytes => exact iff_of_true (advancing_lossy_decodeUTF16 src) (by simp)
  | twoBytes => exact iff_of_true (advancing_lossy_decodeUTF16 src) (by simp)

end Lossy

/-- Three loops end exactly for strings that their decoders accept as wholes. -/
theorem transcodes_iff (build : WideBuild) (src : List UInt8) (wide unichars : List Nat) :
    (Transcodes (encodeWideRound build) src ↔ Accepted decode src) ∧
      (Transcodes (decodeWideRound build) wide ↔
        (build = .iso10646 → Even (lastSentinels wide))) ∧
      (Transcodes encodeUniCharRound src ↔ Accepted decode src) ∧
      (Transcodes decodeUniCharRound unichars ↔ Accepted decodeUTF16 unichars) := by
  refine ⟨transcodes_plain_iff partwise_decode, ?_, transcodes_plain_iff partwise_decode,
    transcodes_plain_iff partwise_decodeUTF16⟩
  rw [← advancing_wide_iff]
  exact ⟨fun transcodes => transcodes.1, fun advancing => ⟨advancing, advancing.ends⟩⟩

/-- A continuation byte stops the loop that writes a wide string. -/
theorem continuation_stalls : ¬ Transcodes (encodeWideRound .iso10646) [0x80] := by
  intro transcodes
  obtain ⟨_, _, taken, shorter⟩ := transcodes.1 _ (.start _) (List.cons_ne_nil _ _)
  obtain ⟨_, rfl⟩ := Prod.mk.inj (Option.some.inj taken)
  exact absurd shorter (by decide)

section Surrogates

/-- This loop decodes a string of 16-bit units to its values. -/
def valuesRound : TextRound Nat Nat := plainRound decodeUTF16 fun sv => [sv]

/-- The low surrogate is always the same. -/
theorem encodeUTF16_eq {sv : Nat} (range : sv < 0x110000) :
    encodeUTF16 sv =
      if sv < 0x10000 then [sv] else [0xD800 + (sv - 0x10000) / 0x400, 0xDC01] := by
  have mask : ∀ m : Nat, m &&& 0xF = m % 0x10 ∧ m &&& 0xFFFF = m % 0x10000 := fun m =>
    ⟨Nat.and_two_pow_sub_one_eq_mod m 4, Nat.and_two_pow_sub_one_eq_mod m 16⟩
  rw [encodeUTF16]
  split
  · rfl
  · rename_i high
    simp only [(mask _).1, (mask _).2, Nat.shiftRight_eq_div_pow, Nat.shiftLeft_eq]
    have top : (0xD800 + ((sv / 2 ^ 16 % 0x100 + 0xFF) % 0x100 % 0x10) * 2 ^ 6 +
        sv % 0x10000 / 2 ^ 10) % 0x10000 = 0xD800 + (sv - 0x10000) / 0x400 := by
      omega
    have nonzero : sv ≠ 0 := by omega
    rw [top]
    simp [nonzero]

/-- The decoder gives this value for an encoded one. -/
def readBack (sv : Nat) : Nat :=
  if sv < 0x10000 then sv else sv / 0x400 * 0x400 + 1

theorem decodeUTF16_encodeUTF16 {c : Char} (sentinel : c ≠ '\uFFFF') (rest : List Nat) :
    decodeUTF16 (encodeUTF16 c.toNat ++ rest) = (readBack c.toNat, rest) := by
  have range := scalar_bound c
  have value : c.toNat ≠ decodeError := fun same => sentinel (Char.toNat_inj.mp same)
  have scalar := LogChar.not_surrogate c
  rw [encodeUTF16_eq range, readBack]
  split
  · rw [List.singleton_append, LogChar.decodeUTF16_plain (by omega), if_neg value]
  · rw [List.cons_append, List.singleton_append,
      LogChar.decodeUTF16_pair (by omega) (by decide), Prod.mk.injEq]
    exact ⟨by omega, rfl⟩

theorem ends_readBack {chars : List Char} (sentinel : '\uFFFF' ∉ chars) :
    TextRound.Ends valuesRound (chars.flatMap fun c => encodeUTF16 c.toNat)
      (chars.map fun c => readBack c.toNat) := by
  have nonempty : ∀ c ∈ chars, encodeUTF16 c.toNat ≠ [] := by
    intro c _
    rw [encodeUTF16_eq (scalar_bound c)]
    split <;> exact List.cons_ne_nil _ _
  have read : ∀ c ∈ chars, ∀ rest, valuesRound (encodeUTF16 c.toNat ++ rest) =
      some ([readBack c.toNat], rest) := by
    intro c member rest
    have other : c ≠ '\uFFFF' := by
      rintro rfl
      exact sentinel member
    rw [valuesRound, plainRound, decodeUTF16_encodeUTF16 other]
  have ends := (TextRound.ends_blocks (fun c : Char => encodeUTF16 c.toNat)
    (fun c : Char => [readBack c.toNat]) nonempty read).mpr ⟨[], rfl, TextRound.Ends.done⟩
  rwa [List.append_nil, List.append_nil, ← List.map_eq_flatMap] at ends

/-- The values come back exactly when the last ten bits of all pairs are one, and only the loop
for strings of type `UniChar` stalls. -/
theorem utf16_trip_iff (chars : List Char) (units : List Nat) (sentinel : '\uFFFF' ∉ chars) :
    (TextRound.Ends valuesRound (chars.flatMap fun c => encodeUTF16 c.toNat)
        (chars.map Char.toNat) ↔
      ∀ c ∈ chars, 0x10000 ≤ c.toNat → c.toNat % 0x400 = 1) ∧
      Transcodes (decodeWideRound .twoBytes) units ∧
      (Transcodes decodeUniCharRound units ↔ Accepted decodeUTF16 units) := by
  refine ⟨?_, ?_, transcodes_plain_iff partwise_decodeUTF16⟩
  · have same : TextRound.Ends valuesRound (chars.flatMap fun c => encodeUTF16 c.toNat)
        (chars.map Char.toNat) ↔
          chars.map (fun c => readBack c.toNat) = chars.map Char.toNat :=
      ⟨fun ends => (ends_readBack sentinel).unique ends, fun equal =>
        equal ▸ ends_readBack sentinel⟩
    rw [same, List.map_inj_left]
    apply forall_congr'
    intro c
    apply imp_congr_right
    intro _
    rw [readBack]
    split
    · rename_i low
      exact iff_of_true rfl fun high => absurd low (by omega)
    · rename_i high
      constructor
      · intro equal _
        omega
      · intro last
        have bits := last (by omega)
        omega
  · have advancing := (@advancing_wide_iff _ encodeUTF8 lossChar .twoBytes units).mpr (by simp)
    exact ⟨advancing, advancing.ends⟩

/-- The first value of the last ten bits comes back. -/
theorem utf16_trip_iff_deseret :
    (TextRound.Ends valuesRound (['a', '𐐁'].flatMap fun c => encodeUTF16 c.toNat)
        (['a', '𐐁'].map Char.toNat) ↔
      ∀ c ∈ ['a', '𐐁'], 0x10000 ≤ c.toNat → c.toNat % 0x400 = 1) ∧
      Transcodes (decodeWideRound .twoBytes) [0xD800] ∧
      (Transcodes decodeUniCharRound [0xD800] ↔ Accepted decodeUTF16 [0xD800]) :=
  utf16_trip_iff ['a', '𐐁'] [0xD800] (by decide)

/-- U+10400 comes back as U+10401, and a high surrogate alone stalls the other loop. -/
theorem utf16_trip_fails :
    ¬ TextRound.Ends valuesRound (encodeUTF16 0x10400) [0x10400] ∧
      TextRound.run valuesRound 1 (encodeUTF16 0x10400) = some [0x10401] ∧
      ¬ Transcodes decodeUniCharRound [0xD800] := by
  have back : TextRound.run valuesRound 1 (encodeUTF16 0x10400) = some [0x10401] := by decide
  refine ⟨fun ends => ?_, back, fun transcodes => ?_⟩
  · exact absurd (ends.unique (TextRound.ends_iff_run.mpr ⟨1, back⟩)) (by decide)
  · obtain ⟨_, _, taken, shorter⟩ := transcodes.1 _ (.start _) (List.cons_ne_nil _ _)
    obtain ⟨_, rfl⟩ := Prod.mk.inj (Option.some.inj taken)
    exact absurd shorter (by decide)

end Surrogates

end CodeCollect.Log4cxx.Transcoder
