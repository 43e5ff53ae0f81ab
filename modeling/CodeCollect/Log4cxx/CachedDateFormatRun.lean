import CodeCollect.Log4cxx.CachedDateFormat

namespace CodeCollect.Log4cxx.CachedDateFormat

/-- This is the integral second that contains a time. -/
def second (time : Int) : Int := time / 1000000

/-- This is the millisecond of a time inside its second. -/
def millisecond (time : Int) : Int := time % 1000000 / 1000

/-- These are the three decimal digits of a count of milliseconds. -/
def threeDigits (millis : Int) : LogString :=
  [digit (millis / 100), digit (millis / 10 % 10), digit (millis % 10)]

/-- A format shows the three digits of the millisecond or depends only on the second. -/
inductive Shape where
  | milliseconds (pre post : Int → LogString)
  | seconds (text : Int → LogString)

def Shape.format : Shape → DateFormat
  | .milliseconds pre post, time =>
      pre (second time) ++ threeDigits (millisecond time) ++ post (second time)
  | .seconds text, time => text (second time)

theorem slotBeginOf_second (time : Int) : slotBeginOf time = second time * 1000000 :=
  slotBeginOf_eq time

theorem millisecond_range (time : Int) : 0 ≤ millisecond time ∧ millisecond time < 1000 := by
  unfold millisecond
  omega

theorem millis_eq (time begin : Int) (same : begin = second time * 1000000) :
    (time - begin).tdiv 1000 = millisecond time := by
  have remainder : time - begin = time % 1000000 := by
    rw [same, second]
    omega
  rw [remainder, millisecond, Int.tdiv_eq_ediv_of_nonneg (by omega)]

/-- A probe adds whole milliseconds to the integral second. -/
theorem probe_time (start millis : Int) (lower : 0 ≤ millis) (upper : millis < 1000) :
    second (start * 1000000 + millis * 1000) = start ∧
      millisecond (start * 1000000 + millis * 1000) = millis := by
  unfold second millisecond
  omega

theorem digit_injective (a b : Int) (ha : 0 ≤ a ∧ a < 10) (hb : 0 ≤ b ∧ b < 10)
    (same : digit a = digit b) : a = b := by
  have table : ∀ i j : Fin 10, digit (i.val : Int) = digit (j.val : Int) → i = j := by decide
  obtain ⟨i, rfl⟩ := Int.eq_ofNat_of_zero_le ha.1
  obtain ⟨j, rfl⟩ := Int.eq_ofNat_of_zero_le hb.1
  have equal := table ⟨i, by omega⟩ ⟨j, by omega⟩ same
  exact congrArg (fun k : Fin 10 => (k.val : Int)) equal

theorem threeDigits_injective (a b : Int) (ha : 0 ≤ a ∧ a < 1000) (hb : 0 ≤ b ∧ b < 1000)
    (same : threeDigits a = threeDigits b) : a = b := by
  simp only [threeDigits, List.cons.injEq, and_true] at same
  obtain ⟨hundreds, tens, ones⟩ := same
  have h := digit_injective _ _ (by omega) (by omega) hundreds
  have t := digit_injective _ _ (by omega) (by omega) tens
  have o := digit_injective _ _ (by omega) (by omega) ones
  omega

/-- The text of a second shows exactly its millisecond. -/
theorem Shape.milliseconds_format_eq (pre post : Int → LogString) (time last : Int)
    (same : second time = second last) :
    (Shape.milliseconds pre post).format time = (Shape.milliseconds pre post).format last ↔
      millisecond time = millisecond last := by
  simp only [Shape.format, same, List.append_left_inj, List.append_right_inj]
  constructor
  · exact threeDigits_injective _ _ (millisecond_range time) (millisecond_range last)
  · intro equal
    rw [equal]

/-- The patch replaces exactly the three digits after the text before them. -/
theorem millisecondFormat_digits (millis old : Int) (before after : LogString)
    (positive : 0 ≤ millis) :
    millisecondFormat millis (before ++ threeDigits old ++ after) before.length =
      before ++ threeDigits millis ++ after := by
  simp only [millisecondFormat, threeDigits, Int.tdiv_eq_ediv_of_nonneg positive,
    Int.tmod_eq_emod_of_nonneg positive,
    Int.tmod_eq_emod_of_nonneg (Int.ediv_nonneg positive (by decide : (0 : Int) ≤ 10))]
  simp

theorem firstDifference_self (text : LogString) : firstDifference text text = none := by
  induction text with
  | nil => rfl
  | cons head tail ih => simp [firstDifference, ih]

theorem firstDifference_append (before first next : LogString) (a b : Char)
    (different : a ≠ b) :
    firstDifference (before ++ a :: first) (before ++ b :: next) = some before.length := by
  induction before with
  | nil => simp [firstDifference, different]
  | cons head tail ih => simp [firstDifference, ih]

theorem regionMatches_self (region before after : LogString) :
    regionMatches region 0 (before ++ (region ++ after)) before.length region.length = true := by
  simp [regionMatches]

/-- The comparison with `magic1` never succeeds, so the probe always shows `magicString1`. -/
theorem findMillisecondStart_probe (time : Int) (formatted : LogString) (formatter : DateFormat) :
    findMillisecondStart time formatted formatter =
      let plusMagic := formatter (second time * 1000000 + 654 * 1000)
      if plusMagic.length ≠ formatted.length then unrecognizedMilliseconds
      else match firstDifference formatted plusMagic with
        | none => noMilliseconds
        | some i =>
            let formattedMillis := millisecondFormat (millisecond time) ['A', 'B', 'C'] 0
            let plusZero := formatter (second time * 1000000 + 0 * 1000)
            if plusZero.length = formatted.length
                ∧ regionMatches magicString1 0 plusMagic i magicString1.length
                ∧ regionMatches formattedMillis 0 formatted i magicString1.length
                ∧ regionMatches zeroString 0 plusZero i 3
                ∧ (formatted.length = i + 3 ∨ plusZero.drop (i + 3) = plusMagic.drop (i + 3))
            then i else unrecognizedMilliseconds := by
  have small : millisecond time ≠ magic1 := by
    have range := millisecond_range time
    unfold magic1
    omega
  simp only [findMillisecondStart, slotBeginOf_second, millis_eq time _ rfl, small, if_false,
    Int.zero_mul, Int.add_zero]
  rfl

/-- A text without milliseconds does not change under the probe. -/
theorem findMillisecondStart_seconds (text : Int → LogString) (time : Int) :
    findMillisecondStart time ((Shape.seconds text).format time) (Shape.seconds text).format =
      noMilliseconds := by
  have probe := (probe_time (second time) 654 (by decide) (by decide)).1
  rw [findMillisecondStart_probe]
  simp only [Shape.format, probe, firstDifference_self]
  simp

section Milliseconds

variable (pre post : Int → LogString) (time : Int)

theorem Shape.format_probe (millis : Int) (lower : 0 ≤ millis) (upper : millis < 1000) :
    (Shape.milliseconds pre post).format (second time * 1000000 + millis * 1000) =
      pre (second time) ++ (threeDigits millis ++ post (second time)) := by
  have probe := probe_time (second time) millis lower upper
  simp [Shape.format, probe.1, probe.2]

/-- The probe cannot see a field that already shows its own digits. -/
theorem findMillisecondStart_magic (shown : millisecond time = 654) :
    findMillisecondStart time ((Shape.milliseconds pre post).format time)
      (Shape.milliseconds pre post).format = noMilliseconds := by
  have same : (Shape.milliseconds pre post).format time =
      pre (second time) ++ (threeDigits 654 ++ post (second time)) := by
    simp [Shape.format, shown]
  rw [findMillisecondStart_probe, Shape.format_probe pre post time 654 (by decide) (by decide), same]
  simp [firstDifference_self]

/-- The probe finds the field when the first digit differs. -/
theorem findMillisecondStart_located (clear : millisecond time < 600 ∨ 700 ≤ millisecond time) :
    findMillisecondStart time ((Shape.milliseconds pre post).format time)
      (Shape.milliseconds pre post).format = (pre (second time)).length := by
  have range := millisecond_range time
  have different : digit (millisecond time / 100) ≠ '6' := by
    intro same
    have six := digit_injective (millisecond time / 100) 6 (by omega) (by decide) same
    omega
  have formatted : (Shape.milliseconds pre post).format time =
      pre (second time) ++ (threeDigits (millisecond time) ++ post (second time)) := by
    simp [Shape.format]
  have found : firstDifference
      (pre (second time) ++ (threeDigits (millisecond time) ++ post (second time)))
      (pre (second time) ++ (threeDigits 654 ++ post (second time))) =
        some (pre (second time)).length :=
    firstDifference_append _ _ _ _ _ different
  have digits := millisecondFormat_digits (millisecond time) 0 [] [] range.1
  have patched : millisecondFormat (millisecond time) ['A', 'B', 'C'] 0 =
      threeDigits (millisecond time) := by
    simpa [millisecondFormat, threeDigits] using digits
  have count : ∀ millis, (threeDigits millis).length = 3 := fun _ => rfl
  rw [findMillisecondStart_probe, Shape.format_probe pre post time 654 (by decide) (by decide),
    Shape.format_probe pre post time 0 (by decide) (by decide), formatted]
  simp only [found, patched]
  have lengths : ∀ first next : Int,
      (pre (second time) ++ (threeDigits first ++ post (second time))).length =
        (pre (second time) ++ (threeDigits next ++ post (second time))).length := by
    simp [threeDigits]
  have tails : ∀ first next : Int,
      (pre (second time) ++ (threeDigits first ++ post (second time))).drop
          ((pre (second time)).length + 3) =
        (pre (second time) ++ (threeDigits next ++ post (second time))).drop
          ((pre (second time)).length + 3) := by
    simp [threeDigits]
  rw [if_neg (fun longer => longer (lengths _ _)), if_pos]
  exact ⟨lengths _ _, regionMatches_self magicString1 _ _, regionMatches_self (threeDigits _) _ _,
    regionMatches_self zeroString _ _, Or.inr (tails _ _)⟩

/-- A field that shares its first digit with the probe is not recognized. -/
theorem findMillisecondStart_shared (shared : 600 ≤ millisecond time ∧ millisecond time < 700)
    (different : millisecond time ≠ 654) :
    findMillisecondStart time ((Shape.milliseconds pre post).format time)
      (Shape.milliseconds pre post).format = unrecognizedMilliseconds := by
  have leading : millisecond time / 100 = 6 := by omega
  have formatted : (Shape.milliseconds pre post).format time =
      pre (second time) ++ (threeDigits (millisecond time) ++ post (second time)) := by
    simp [Shape.format]
  rw [findMillisecondStart_probe, Shape.format_probe pre post time 654 (by decide) (by decide),
    Shape.format_probe pre post time 0 (by decide) (by decide), formatted]
  by_cases tens : millisecond time / 10 % 10 = 5
  · have ones : digit (millisecond time % 10) ≠ '4' := by
      intro same
      have four := digit_injective (millisecond time % 10) 4 (by omega) (by decide) same
      omega
    have found : firstDifference
        (pre (second time) ++ (threeDigits (millisecond time) ++ post (second time)))
        (pre (second time) ++ (threeDigits 654 ++ post (second time))) =
          some ((pre (second time)).length + 2) := by
      have search := firstDifference_append (pre (second time) ++ ['6', '5'])
        (post (second time)) (post (second time)) _ _ ones
      simpa [threeDigits, leading, tens, digit, digits] using search
    have mismatch : regionMatches magicString1 0
        (pre (second time) ++ (threeDigits 654 ++ post (second time)))
        ((pre (second time)).length + 2) magicString1.length = false := by
      simp [regionMatches, threeDigits, magicString1, digit, digits]
    simp [found, mismatch]
  · have middle : digit (millisecond time / 10 % 10) ≠ '5' := by
      intro same
      exact tens (digit_injective _ 5 (by omega) (by decide) same)
    have found : firstDifference
        (pre (second time) ++ (threeDigits (millisecond time) ++ post (second time)))
        (pre (second time) ++ (threeDigits 654 ++ post (second time))) =
          some ((pre (second time)).length + 1) := by
      have search := firstDifference_append (pre (second time) ++ ['6'])
        (digit (millisecond time % 10) :: post (second time)) ('4' :: post (second time)) _ _ middle
      simpa [threeDigits, leading, digit, digits] using search
    have mismatch : regionMatches magicString1 0
        (pre (second time) ++ (threeDigits 654 ++ post (second time)))
        ((pre (second time)).length + 1) magicString1.length = false := by
      simp [regionMatches, threeDigits, magicString1, digit, digits]
    simp [found, mismatch]

end Milliseconds

/-- The members after a call at `last` that returned the wrapped text. -/
structure Holds (cached : CachedDateFormat) (shape : Shape) (last : Int) : Prop where
  formatter : cached.formatter = shape.format
  expiration : cached.expiration = 1000000
  previousTime : cached.previousTime = last
  slotBegin : cached.slotBegin = second last * 1000000
  cache : cached.cache = shape.format last

/-- A recognized cache serves exactly the times of its second. -/
theorem Holds.serves_iff {self : CachedDateFormat} {shape : Shape} {last : Int}
    (holds : self.Holds shape last) (recognized : self.millisecondStart ≠ unrecognizedMilliseconds)
    (now : Int) : self.Serves now ↔ second now = second last := by
  simp only [Serves, holds.expiration, holds.slotBegin, second, recognized, ne_eq,
    not_false_eq_true, true_and]
  omega

/-- A call that the cache does not serve asks the wrapped format. -/
theorem format_unserved (self : CachedDateFormat) (shape : Shape) (buf : LogString) (now : Int)
    (formatter : self.formatter = shape.format) (expiration : self.expiration = 1000000)
    (new : now ≠ self.previousTime) (unserved : ¬ self.Serves now) :
    (self.format buf now).1 = buf ++ shape.format now ∧
      (self.format buf now).2.Holds shape now ∧
      (self.format buf now).2.millisecondStart =
        if self.millisecondStart ≥ 0 then findMillisecondStart now (shape.format now) shape.format
        else self.millisecondStart := by
  rw [format, if_neg new, if_neg unserved, formatter]
  exact ⟨rfl, ⟨rfl, expiration, rfl, slotBeginOf_second now, rfl⟩, rfl⟩

/-- A time of another second is never served. -/
theorem Holds.format_other {self : CachedDateFormat} {shape : Shape} {last : Int}
    (holds : self.Holds shape last) (buf : LogString) (now : Int)
    (other : second now ≠ second last) :
    (self.format buf now).1 = buf ++ shape.format now ∧
      (self.format buf now).2.Holds shape now ∧
      (self.format buf now).2.millisecondStart =
        if self.millisecondStart ≥ 0 then findMillisecondStart now (shape.format now) shape.format
        else self.millisecondStart := by
  apply format_unserved self shape buf now holds.formatter holds.expiration
  · intro same
    rw [same, holds.previousTime] at other
    exact other rfl
  · intro served
    exact other ((holds.serves_iff served.1 now).mp served)

/-- An unrecognized cache serves only a repeated time. -/
theorem Holds.format_unrecognized {self : CachedDateFormat} {shape : Shape} {last : Int}
    (holds : self.Holds shape last) (unrecognized : self.millisecondStart = unrecognizedMilliseconds)
    (buf : LogString) (now : Int) :
    (self.format buf now).1 = buf ++ shape.format now ∧
      (self.format buf now).2.Holds shape now ∧
      (self.format buf now).2.millisecondStart = unrecognizedMilliseconds := by
  by_cases repeated : now = self.previousTime
  · have same : now = last := repeated.trans holds.previousTime
    rw [format, if_pos repeated]
    subst same
    exact ⟨by rw [holds.cache], holds, unrecognized⟩
  · have step := format_unserved self shape buf now holds.formatter holds.expiration repeated
      (fun served => served.1 unrecognized)
    refine ⟨step.1, step.2.1, ?_⟩
    rw [step.2.2, unrecognized]
    rfl

/-- Without a field the cache repeats its text for the whole second. -/
theorem Holds.format_frozen {self : CachedDateFormat} {shape : Shape} {last : Int}
    (holds : self.Holds shape last) (frozen : self.millisecondStart = noMilliseconds)
    (buf : LogString) (now : Int) (same : second now = second last) :
    (self.format buf now).1 = buf ++ shape.format last ∧
      (shape.format now = shape.format last → (self.format buf now).2.Holds shape now) ∧
      (self.format buf now).2.millisecondStart = noMilliseconds := by
  by_cases repeated : now = self.previousTime
  · have equal : now = last := repeated.trans holds.previousTime
    rw [format, if_pos repeated]
    subst equal
    exact ⟨by rw [holds.cache], fun _ => holds, frozen⟩
  · have recognized : self.millisecondStart ≠ unrecognizedMilliseconds := by
      rw [frozen]
      decide
    have hidden : ¬ self.millisecondStart ≥ 0 := by
      rw [frozen]
      decide
    rw [format, if_neg repeated, if_pos ((holds.serves_iff recognized now).mpr same)]
    simp only [if_neg hidden]
    refine ⟨by rw [holds.cache], fun text => ?_, frozen⟩
    exact ⟨holds.formatter, holds.expiration, rfl, by rw [same]; exact holds.slotBegin,
      by rw [text]; exact holds.cache⟩

/-- A located field is patched to the milliseconds of the new time. -/
theorem Holds.format_located {self : CachedDateFormat} {pre post : Int → LogString} {last : Int}
    (holds : self.Holds (.milliseconds pre post) last)
    (located : self.millisecondStart = (pre (second last)).length)
    (buf : LogString) (now : Int) (same : second now = second last) :
    (self.format buf now).1 = buf ++ (Shape.milliseconds pre post).format now ∧
      (self.format buf now).2.Holds (.milliseconds pre post) now ∧
      (self.format buf now).2.millisecondStart = (pre (second now)).length := by
  by_cases repeated : now = self.previousTime
  · have equal : now = last := repeated.trans holds.previousTime
    rw [format, if_pos repeated]
    subst equal
    exact ⟨by rw [holds.cache], holds, located⟩
  · have shown : self.millisecondStart ≥ 0 := by
      rw [located]
      exact Int.natCast_nonneg _
    have recognized : self.millisecondStart ≠ unrecognizedMilliseconds := by
      intro unrecognized
      rw [unrecognized] at shown
      exact absurd shown (by decide)
    have patched : millisecondFormat ((now - self.slotBegin).tdiv 1000) self.cache
        self.millisecondStart.toNat = (Shape.milliseconds pre post).format now := by
      rw [millis_eq now self.slotBegin (by rw [same]; exact holds.slotBegin), holds.cache, located,
        Int.toNat_natCast, Shape.format, Shape.format,
        millisecondFormat_digits _ _ _ _ (millisecond_range now).1, same]
    rw [format, if_neg repeated, if_pos ((holds.serves_iff recognized now).mpr same)]
    simp only [if_pos shown, patched]
    exact ⟨trivial, ⟨holds.formatter, holds.expiration, rfl, by rw [same]; exact holds.slotBegin, rfl⟩,
      by rw [same]; exact located⟩

end CodeCollect.Log4cxx.CachedDateFormat
