import CodeCollect.Library.DecimalText
import CodeCollect.Library.MaximalRuns
import CodeCollect.Log4cxx.SimpleDateFormat
import CodeCollect.Log4cxx.StringHelperInteger

namespace CodeCollect.Log4cxx.SimpleDateFormat

open Library.DecimalText Library.MaximalRuns PatternToken

/-- This is the hour on a clock from 1 to 12. -/
def clockHour (hour : Int) : Int := if hour % 12 = 0 then 12 else hour % 12

/-- This is `Z`, or the sign, the hours and the minutes of an offset. -/
def offsetText (off : Int) : LogString :=
  if off = 0 then ['Z']
  else (if off < 0 then '-' else '+') ::
    (padded 2 (off.natAbs / 3600) ++ padded 2 (off.natAbs % 3600 / 60))

/-- The text that stands for a run of one character. The letters for names, weeks and days of the
year and for the hour from 1 to 24 are left open. -/
def field (zone : TimeZone) (tm : ZonedTimeExp) (run : Char × Nat) : Option LogString :=
  match run.1 with
  | 'y' => some (padded run.2 (1900 + tm.tm_year).toNat)
  | 'M' => if run.2 ≤ 2 then some (padded run.2 (tm.tm_mon + 1).toNat) else none
  | 'd' => some (padded run.2 tm.tm_mday.toNat)
  | 'H' => some (padded run.2 tm.tm_hour.toNat)
  | 'm' => some (padded run.2 tm.tm_min.toNat)
  | 's' => some (padded run.2 tm.tm_sec.toNat)
  | 'S' => some (padded run.2 (tm.tm_usec / 1000).toNat)
  | 'K' => some (padded run.2 (tm.tm_hour % 12).toNat)
  | 'h' => some (padded run.2 (clockHour tm.tm_hour).toNat)
  | 'z' => some zone.id
  | 'Z' => some (offsetText tm.tm_gmtoff)
  | 'G' | 'w' | 'W' | 'D' | 'F' | 'E' | 'a' | 'k' => none
  | c => some (List.replicate run.2 c)

/-- The token appends this text to every string. -/
def Appends (token : PatternToken) (tm : ZonedTimeExp) (text : LogString) : Prop :=
  ∀ s, token.format s tm = some (s ++ text)

/-- The formatter explodes the time in this zone, and the token of each maximal run appends the
field of the run. -/
structure Renders (formatter : SimpleDateFormat) (zone : TimeZone) (time : Int) (tm : ZonedTimeExp)
    (fmt : LogString) : Prop where
  explodes : ∀ s, formatter.format s time =
    formatter.pattern.foldlM (fun s token => token.format s tm) s
  appends : List.Forall₂ (fun token run => ∀ text, field zone tm run = some text →
    Appends token tm text) formatter.pattern (runs fmt)

/-- What the memory and the zones have to be for the run at a place of the pattern: the value that
the hour token finds lies in the twelve values that end with the hour (at midnight a wider range
will do), the default zone has the same identifier as the zone set last, and the offset has at most
two digits of hours. -/
def RunFits (memory : Nat → Int) (default zone : TimeZone) (tm : ZonedTimeExp) (place : Nat)
    (spec : Char) : Prop :=
  match spec with
  | 'K' => tm.tm_hour % 12 - 11 ≤ memory place ∧ memory place ≤ tm.tm_hour % 12
  | 'h' => clockHour tm.tm_hour - 11 ≤ memory place ∧
      memory place ≤ if tm.tm_hour = 0 then 23 else clockHour tm.tm_hour
  | 'z' => default.id = zone.id
  | 'Z' => tm.tm_gmtoff.natAbs < 360000
  | _ => True

section Numeric

theorem toString_of_nonneg {n : Int} (nonneg : 0 ≤ n) :
    StringHelper.toString n = Nat.toDigits 10 n.toNat := by
  rw [StringHelper.toString, if_neg nonneg.not_gt, ← Int.toNat_of_nonneg nonneg, Int.natAbs_natCast,
    Int.toNat_natCast]

/-- The zeros go between the old text and the number. -/
theorem formatNumeric_eq (width : Nat) (value : Int) (s : LogString) :
    formatNumeric width value s = s ++ numericToken width value := by
  rw [formatNumeric, numericToken]
  simp only [List.length_append, List.take_left, List.drop_left]
  split
  · rw [List.append_assoc, Nat.add_sub_add_left]
  · rename_i wide
    rw [Nat.sub_eq_zero_of_le (by omega), List.replicate_zero, List.nil_append]

theorem numericToken_of_nonneg (width : Nat) {value : Int} (nonneg : 0 ≤ value) :
    numericToken width value = padded width value.toNat := by
  rw [numericToken, padded, toString_of_nonneg nonneg]

theorem ofDigitChars_zeros (count : Nat) (digits : List Char) :
    Nat.ofDigitChars 10 (List.replicate count '0' ++ digits) 0 = Nat.ofDigitChars 10 digits 0 := by
  induction count with
  | zero => rfl
  | succ count ih => simpa [List.replicate_succ, Nat.ofDigitChars_cons] using ih

theorem padded_injective {width m n : Nat} (same : padded width m = padded width n) : m = n := by
  have values := congrArg (fun digits => Nat.ofDigitChars 10 digits 0) same
  simpa [padded, ofDigitChars_zeros] using values

theorem minus_not_mem_padded (width n : Nat) : '-' ∉ padded width n := by
  intro member
  rcases List.mem_append.mp member with zero | digit
  · exact absurd (List.eq_of_mem_replicate zero) (by decide)
  · exact absurd (Nat.isDigit_of_mem_toDigits (b := 10) (by decide) (by decide) digit) (by decide)

/-- A number shows a field only when it is this field. -/
theorem appends_numeric_iff {width : Nat} {getField : ZonedTimeExp → Int} {tm : ZonedTimeExp}
    {value : Int} (nonneg : 0 ≤ value) :
    Appends (.numeric width getField) tm (padded width value.toNat) ↔ getField tm = value := by
  constructor
  · intro appends
    have shown : numericToken width (getField tm) = padded width value.toNat := by
      have appended := Option.some.inj (appends [])
      rwa [formatNumeric_eq] at appended
    rcases lt_or_ge (getField tm) 0 with negative | positive
    · have minus : '-' ∈ numericToken width (getField tm) := by
        rw [numericToken, StringHelper.toString_of_neg negative]
        simp
      rw [shown] at minus
      exact absurd minus (minus_not_mem_padded _ _)
    · rw [numericToken_of_nonneg width positive] at shown
      have same := padded_injective shown
      omega
  · intro same s
    rw [PatternToken.format, formatNumeric_eq, same, numericToken_of_nonneg width nonneg]

/-- The remainder that the code forms lands in the twelve values that start with the offset, or, when
it is negative, in those that end with the offset. -/
theorem hour_iff {hour value offset : Int} (same : value % 12 = hour % 12) :
    (hour + 12 - offset).tmod 12 + offset = value ↔
      offset ≤ hour + 12 ∧ value - 11 ≤ offset ∧ offset ≤ value ∨
        hour + 12 < offset ∧ value ≤ offset ∧ offset ≤ value + 11 := by
  rcases le_or_gt offset (hour + 12) with below | above
  · rw [Int.tmod_eq_emod_of_nonneg (by omega)]
    omega
  · have negated : (hour + 12 - offset).tmod 12 = -((offset - (hour + 12)) % 12) := by
      rw [← Int.tmod_eq_emod_of_nonneg (by omega), ← Int.neg_tmod, neg_sub]
    rw [negated]
    omega

end Numeric

section Offset

theorem storeBack_eq (before after : LogString) {old new : LogString}
    (length : old.length = new.length) :
    storeBack new.reverse (before.length + new.length - 1) (before ++ old ++ after) =
      some (before ++ new ++ after) := by
  induction new using List.reverseRecOn generalizing old after with
  | nil =>
      rw [List.length_eq_zero_iff.mp length]
      rfl
  | append_singleton new c ih =>
      obtain rfl | ⟨old, d, rfl⟩ := List.eq_nil_or_concat' old
      · simp at length
      · have shorter : old.length = new.length := by simpa using length
        have place : (before.length + (new ++ [c]).length - 1 : Int) =
            ((before ++ old).length : Nat) := by
          simp [shorter]
          omega
        have stored : (before ++ (old ++ [d]) ++ after).set (before ++ old).length c =
            before ++ old ++ c :: after := by
          rw [← List.append_assoc, List.append_assoc _ [d], List.set_append_right _ _ le_rfl]
          simp
        have inside : (0 : Int) ≤ ((before ++ old).length : Nat) ∧
            (((before ++ old).length : Nat) : Int) < (before ++ (old ++ [d]) ++ after).length := by
          simp
          omega
        rw [List.reverse_append, List.reverse_singleton, List.singleton_append, storeBack, place,
          if_pos inside, Int.toNat_natCast, stored]
        have next : (((before ++ old).length : Nat) : Int) - 1 =
            before.length + new.length - 1 := by
          rw [List.length_append, shorter]
          push_cast
          rfl
        rw [next, ih (c :: after) shorter]
        simp

/-- Storing characters does not lengthen a string. -/
theorem storeBack_length {digits s stored : LogString} {position : Int}
    (done : storeBack digits position s = some stored) : stored.length = s.length := by
  induction digits generalizing position s with
  | nil =>
      obtain rfl := Option.some.inj done
      rfl
  | cons c digits ih =>
      rw [storeBack] at done
      split at done
      · rw [ih done, List.length_set]
      · exact absurd done nofun

/-- A number of at most two digits is stored behind a zero that stays where it has one digit. -/
theorem storeBack_padded (before after : LogString) {n : Nat} (small : n < 100) :
    storeBack (StringHelper.toString n).reverse (before.length + 1) (before ++ ['0', '0'] ++ after) =
      some (before ++ padded 2 n ++ after) := by
  rw [StringHelper.toString_of_nat, padded]
  have short : (Nat.toDigits 10 n).length ≤ 2 := toDigits_length_le (by decide) (by simpa using small)
  obtain ⟨gap, total⟩ := Nat.exists_eq_add_of_le short
  have stored := storeBack_eq (before ++ List.replicate gap '0') after
    (List.length_replicate (n := (Nat.toDigits 10 n).length) (a := '0'))
  have zeros : ['0', '0'] =
      List.replicate gap '0' ++ List.replicate (Nat.toDigits 10 n).length '0' := by
    rw [← List.replicate_add, Nat.add_comm, ← total]
    rfl
  have place : (before.length + 1 : Int) = ((before ++ List.replicate gap '0').length : Nat) +
      ((Nat.toDigits 10 n).length : Nat) - 1 := by
    rw [List.length_append, List.length_replicate]
    omega
  rw [place, zeros, show 2 - (Nat.toDigits 10 n).length = gap by omega]
  simpa only [List.append_assoc] using stored

theorem padded_two_length {n : Nat} (large : 100 ≤ n) : 3 ≤ (padded 2 n).length := by
  have long : ¬ (Nat.toDigits 10 n).length ≤ 2 := by
    intro short
    have small := (Nat.length_toDigits_le_iff (by decide) (by decide)).mp short
    omega
  rw [padded, List.length_append]
  omega

/-- What is stored, with the sign and the amount of the offset apart. -/
theorem formatRFC822_eq {off : Int} (shifted : off ≠ 0) (s : LogString) :
    formatRFC822 off s =
      (storeBack (StringHelper.toString (off.natAbs / 3600 : Nat)).reverse
        ((s ++ [if off < 0 then '-' else '+']).length + 1)
        ((s ++ [if off < 0 then '-' else '+']) ++ ['0', '0'] ++ ['0', '0'])).bind
      (storeBack (StringHelper.toString (off.natAbs % 3600 / 60 : Nat)).reverse (s.length + 4)) := by
  rw [formatRFC822, if_neg shifted]
  have amount : (if off < 0 then -off else off) = (off.natAbs : Int) := by
    split <;> omega
  have hours : ((off.natAbs : Int).tdiv 3600) = (off.natAbs / 3600 : Nat) := by
    rw [Int.tdiv_eq_ediv_of_nonneg (by omega)]
    rfl
  have minutes : ((off.natAbs : Int).tmod 3600).tdiv 60 = (off.natAbs % 3600 / 60 : Nat) := by
    rw [Int.tmod_eq_emod_of_nonneg (by omega), Int.tdiv_eq_ediv_of_nonneg (by omega)]
    rfl
  have signed : (if off < 0 then (s ++ "+0000".toList).set s.length '-' else s ++ "+0000".toList) =
      (s ++ [if off < 0 then '-' else '+']) ++ ['0', '0'] ++ ['0', '0'] := by
    split
    · rw [List.set_append_right _ _ le_rfl]
      simp
    · simp
  have place : (s.length + 2 : Int) = ((s ++ [if off < 0 then '-' else '+']).length : Nat) + 1 := by
    rw [List.length_append, List.length_singleton]
    omega
  dsimp only
  rw [amount, hours, minutes, signed, place]

/-- The token shows the offset exactly when its hours have at most two digits. -/
theorem formatRFC822_iff (off : Int) :
    (∀ s, formatRFC822 off s = some (s ++ offsetText off)) ↔ off.natAbs < 360000 := by
  rcases eq_or_ne off 0 with rfl | shifted
  · simp [formatRFC822, offsetText]
  · simp only [formatRFC822_eq shifted, offsetText, if_neg shifted]
    constructor
    · intro shows
      by_contra large
      have done := shows []
      obtain ⟨middle, first, second⟩ := Option.bind_eq_some_iff.mp done
      have size := (storeBack_length second).trans (storeBack_length first)
      have wide := padded_two_length (n := off.natAbs / 3600) (by omega)
      have narrow : 2 ≤ (padded 2 (off.natAbs % 3600 / 60)).length := by
        rw [padded, List.length_append, List.length_replicate]
        omega
      simp only [List.nil_append, List.length_cons, List.length_append, List.length_nil] at size
      omega
    · intro small s
      rw [storeBack_padded _ _ (by omega), Option.bind_some]
      have place : (s.length + 4 : Int) =
          ((s ++ [if off < 0 then '-' else '+'] ++ padded 2 (off.natAbs / 3600)).length : Nat) + 1 := by
        rw [List.length_append, List.length_append, padded_length (by decide) (by omega)]
        simp
        omega
      have minutes := storeBack_padded
        (s ++ [if off < 0 then '-' else '+'] ++ padded 2 (off.natAbs / 3600)) []
        (n := off.natAbs % 3600 / 60) (by omega)
      rw [List.append_nil, List.append_nil] at minutes
      rw [place, minutes]
      simp

end Offset

end CodeCollect.Log4cxx.SimpleDateFormat
