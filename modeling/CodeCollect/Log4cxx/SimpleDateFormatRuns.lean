import CodeCollect.Log4cxx.SimpleDateFormatFields

namespace CodeCollect.Log4cxx.SimpleDateFormat

open Library.DecimalText Library.MaximalRuns PatternToken

section Pattern

variable (locale : LocaleNames) (memory : Nat → Int)

theorem parseFrom_eq (prevChar : Char) (count : Nat) (pattern : List PatternToken) (fmt : LogString) :
    parseFrom locale memory prevChar count pattern fmt =
      pattern ++ (scan prevChar count fmt).mapIdx fun place run =>
        newToken locale (memory (pattern.length + place)) run.1 run.2 := by
  induction fmt generalizing prevChar count pattern with
  | nil => rfl
  | cons c fmt ih =>
      rw [parseFrom, scan]
      split
      · exact ih prevChar (count + 1) pattern
      · rw [ih, addToken, List.append_assoc, List.mapIdx_cons]
        simp only [List.length_append, List.length_singleton, List.singleton_append, Nat.add_zero,
          Nat.add_assoc, Nat.add_comm 1]

/-- The pattern has one token for each maximal run. -/
theorem parsePattern_eq (fmt : LogString) :
    parsePattern locale memory fmt =
      (runs fmt).mapIdx fun place run => newToken locale (memory place) run.1 run.2 := by
  cases fmt with
  | nil => rfl
  | cons c fmt =>
      rw [parsePattern, runs, parseFrom_eq]
      simp

end Pattern

section Zones

variable (self : SimpleDateFormat) (zones : List TimeZone)

/-- The zones that are set later do not reach the tokens. -/
theorem foldl_setTimeZone_pattern : (zones.foldl setTimeZone self).pattern = self.pattern := by
  induction zones generalizing self with
  | nil => rfl
  | cons zone zones ih => exact ih (self.setTimeZone zone)

theorem foldl_setTimeZone_timeZone :
    (zones.foldl setTimeZone self).timeZone = zones.getLastD self.timeZone := by
  induction zones generalizing self with
  | nil => rfl
  | cons zone zones ih =>
      rw [List.foldl_cons, ih, List.getLastD_cons]
      rfl

end Zones

section Tokens

variable {locale : LocaleNames} {memory : Nat → Int} {default zone : TimeZone} {tm : ZonedTimeExp}

/-- A number token whose field is never negative shows it. -/
theorem appends_numeric {width : Nat} {getField : ZonedTimeExp → Int} (nonneg : 0 ≤ getField tm) :
    Appends (.numeric width getField) tm (padded width (getField tm).toNat) :=
  (appends_numeric_iff nonneg).mpr rfl

theorem clockHour_fits (inRange : tm.InRange) (offset : Int) :
    (tm.tm_hour + 12 - offset).tmod 12 + offset = clockHour tm.tm_hour ↔
      clockHour tm.tm_hour - 11 ≤ offset ∧
        offset ≤ if tm.tm_hour = 0 then 23 else clockHour tm.tm_hour := by
  have hour := inRange.hour
  have same : clockHour tm.tm_hour % 12 = tm.tm_hour % 12 := by
    rw [clockHour]
    split <;> omega
  rw [hour_iff same, clockHour]
  split <;> split <;> omega

theorem hour_fits (inRange : tm.InRange) (offset : Int) :
    (tm.tm_hour + 12 - offset).tmod 12 + offset = tm.tm_hour % 12 ↔
      tm.tm_hour % 12 - 11 ≤ offset ∧ offset ≤ tm.tm_hour % 12 := by
  have hour := inRange.hour
  rw [hour_iff (Int.emod_emod_of_dvd _ dvd_rfl)]
  omega

theorem forall_some_iff {α : Type*} {P : α → Prop} {a : α} : (∀ b, some a = some b → P b) ↔ P a := by
  simp only [Option.some.injEq, forall_eq']

theorem forall_none_iff {α : Type*} {P : α → Prop} : (∀ b, none = some b → P b) ↔ True := by
  simp only [reduceCtorEq, false_implies, implies_true]

/-- The token of a run appends its field exactly when the memory and the zones fit. -/
theorem newToken_appends_iff (inRange : tm.InRange) (year : 0 ≤ 1900 + tm.tm_year) (place : Nat)
    (run : Char × Nat) :
    (∀ text, field zone tm run = some text →
      Appends ((newToken locale (memory place) run.1 run.2).setTimeZone default) tm text) ↔
      RunFits memory default zone tm place run.1 := by
  obtain ⟨spec, count⟩ := run
  obtain ⟨usec, sec, min, hour, mday, mon, _, _⟩ := id inRange
  dsimp only [field, RunFits]
  split
  all_goals try rw [forall_some_iff]
  · exact iff_true_intro (appends_numeric year)
  · split
    · rename_i short
      rw [forall_some_iff]
      simp only [newToken, if_pos short]
      exact iff_true_intro (appends_numeric (add_nonneg mon.1 zero_le_one))
    · simp
  · exact iff_true_intro (appends_numeric (zero_le_one.trans mday.1))
  · have shown : Appends (militaryHourToken count 0) tm (padded count (tm.tm_hour + 0).toNat) :=
      appends_numeric (by simpa using hour.1)
    rw [Int.add_zero] at shown
    exact iff_true_intro shown
  · exact iff_true_intro (appends_numeric min.1)
  · exact iff_true_intro (appends_numeric sec.1)
  · have whole : tm.tm_usec.tdiv 1000 = tm.tm_usec / 1000 := Int.tdiv_eq_ediv_of_nonneg usec.1
    rw [← whole]
    exact iff_true_intro (appends_numeric (whole ▸ Int.ediv_nonneg usec.1 (by decide)))
  · exact (appends_numeric_iff (Int.emod_nonneg _ (by decide))).trans (hour_fits inRange _)
  · have nonneg : 0 ≤ clockHour tm.tm_hour := by
      rw [clockHour]
      split <;> omega
    exact (appends_numeric_iff nonneg).trans (clockHour_fits inRange _)
  · constructor
    · intro appends
      have appended := Option.some.inj (appends [])
      exact appended
    · intro same s
      exact congrArg (fun id => some (s ++ id)) same
  · exact formatRFC822_iff tm.tm_gmtoff
  -- The letters for names, weeks and days of the year are left open.
  iterate 8 exact forall_none_iff
  · have literal : newToken locale (memory place) spec count = .literal spec count := by
      unfold newToken
      split <;> first | rfl | contradiction
    rw [literal]
    apply iff_of_true
    · intro s
      rfl
    · split <;> trivial

end Tokens

section Rendering

variable (locale : LocaleNames) (memory : Nat → Int) (default : TimeZone) (fmt : LogString)
  (zones : List TimeZone)

/-- This is a formatter whose zone was set some times after its construction. -/
def zoned : SimpleDateFormat := zones.foldl setTimeZone (construct locale memory default fmt)

/-- The zone set last explodes the times. -/
theorem zoned_timeZone : (zoned locale memory default fmt zones).timeZone = zones.getLastD default :=
  foldl_setTimeZone_timeZone ..

theorem zoned_pattern : (zoned locale memory default fmt zones).pattern =
    (runs fmt).mapIdx fun place run =>
      (newToken locale (memory place) run.1 run.2).setTimeZone default := by
  rw [zoned, foldl_setTimeZone_pattern, construct, parsePattern_eq]
  apply List.ext_getElem
  · simp
  · intro place _ _
    simp

theorem forall₂_mapIdx_iff {α β : Type*} {R : β → α → Prop} {f : Nat → α → β} (l : List α) :
    List.Forall₂ R (l.mapIdx f) l ↔ ∀ (place : Nat) (a : α), l[place]? = some a → R (f place a) a := by
  rw [List.forall₂_iff_get]
  constructor
  · rintro ⟨_, related⟩ place a found
    obtain ⟨inside, rfl⟩ := List.getElem?_eq_some_iff.mp found
    simpa using related place (by simpa using inside) inside
  · intro related
    refine ⟨List.length_mapIdx, ?_⟩
    intro place _ inside
    simpa using related place _ (List.getElem?_eq_getElem inside)

variable {time : Int} {tm : ZonedTimeExp}

variable {locale memory default fmt zones} in
theorem zoned_format (exploded : (zones.getLastD default).explode time = some tm) (s : LogString) :
    (zoned locale memory default fmt zones).format s time =
      (zoned locale memory default fmt zones).pattern.foldlM
        (fun s token => token.format s tm) s := by
  rw [format, zoned_timeZone, exploded]

/-- All tokens append their fields when the memory and the zones fit all runs. -/
theorem zoned_appends_iff (exploded : (zones.getLastD default).explode time = some tm)
    (year : 0 ≤ 1900 + tm.tm_year) :
    List.Forall₂ (fun token run => ∀ text, field (zones.getLastD default) tm run = some text →
      Appends token tm text) (zoned locale memory default fmt zones).pattern (runs fmt) ↔
      ∀ (place : Nat) (run : Char × Nat), (runs fmt)[place]? = some run →
        RunFits memory default (zones.getLastD default) tm place run.1 := by
  have inRange := (zones.getLastD default).inRange time tm exploded
  rw [zoned_pattern, forall₂_mapIdx_iff]
  apply forall_congr'
  intro place
  apply forall_congr'
  intro run
  exact imp_congr_right fun _ => newToken_appends_iff inRange year place run

/-- The formatter renders a time in the zone set last exactly when the memory and the zones fit all
runs of its pattern. -/
theorem renders_iff (exploded : (zones.getLastD default).explode time = some tm)
    (year : 0 ≤ 1900 + tm.tm_year) :
    Renders (zoned locale memory default fmt zones) (zones.getLastD default) time tm fmt ↔
      ∀ (place : Nat) (run : Char × Nat), (runs fmt)[place]? = some run →
        RunFits memory default (zones.getLastD default) tm place run.1 := by
  rw [← zoned_appends_iff locale memory default fmt zones exploded year]
  constructor
  · intro renders
    exact renders.appends
  · intro appends
    exact ⟨zoned_format exploded, appends⟩

end Rendering

/-- A pattern all of whose runs have a field is rendered as its fields one after another. -/
theorem Renders.format_eq {self : SimpleDateFormat} {zone : TimeZone} {time : Int}
    {tm : ZonedTimeExp} {fmt : LogString} (renders : Renders self zone time tm fmt)
    {texts : List LogString}
    (known : List.Forall₂ (fun run text => field zone tm run = some text) (runs fmt) texts)
    (s : LogString) : self.format s time = some (s ++ texts.flatten) := by
  rw [renders.explodes]
  have appends := renders.appends
  revert appends
  generalize self.pattern = pattern, runs fmt = parts at known
  intro appends
  induction known generalizing pattern s with
  | nil =>
      cases appends
      simp
  | cons shown _ ih =>
      cases appends with
      | cons first rest =>
          rw [List.foldlM_cons, first _ shown, Option.bind_eq_bind, Option.bind_some, ih _ _ rest]
          simp

/-- The pattern of dates in the standard order is rendered as the layouts of this development say, in
whatever zone was set last. -/
theorem format_iso8601 (locale : LocaleNames) (memory : Nat → Int) (default : TimeZone)
    (zones : List TimeZone) {time : Int} {tm : ZonedTimeExp}
    (exploded : (zones.getLastD default).explode time = some tm) (year : 0 ≤ 1900 + tm.tm_year)
    (s : LogString) :
    (zoned locale memory default "yyyy-MM-dd HH:mm:ss,SSS".toList zones).format s time =
      some (s ++ formatISO8601 tm.toTimeExp) := by
  have parts : runs "yyyy-MM-dd HH:mm:ss,SSS".toList = [('y', 4), ('-', 1), ('M', 2), ('-', 1),
      ('d', 2), (' ', 1), ('H', 2), (':', 1), ('m', 2), (':', 1), ('s', 2), (',', 1), ('S', 3)] := by
    decide
  have inRange := (zones.getLastD default).inRange time tm exploded
  have renders : Renders (zoned locale memory default "yyyy-MM-dd HH:mm:ss,SSS".toList zones)
      (zones.getLastD default) time tm "yyyy-MM-dd HH:mm:ss,SSS".toList := by
    refine ⟨zoned_format exploded, (zoned_appends_iff _ _ _ _ _ exploded year).mpr ?_⟩
    intro place run found
    have member := List.mem_of_getElem? found
    rw [parts] at member
    simp only [List.mem_cons, List.not_mem_nil, or_false] at member
    rcases member with rfl | rfl | rfl | rfl | rfl | rfl | rfl | rfl | rfl | rfl | rfl | rfl | rfl <;>
      trivial
  have known : List.Forall₂ (fun run text => field (zones.getLastD default) tm run = some text)
      (runs "yyyy-MM-dd HH:mm:ss,SSS".toList) [padded 4 (1900 + tm.tm_year).toNat, ['-'],
        padded 2 (tm.tm_mon + 1).toNat, ['-'], padded 2 tm.tm_mday.toNat, [' '],
        padded 2 tm.tm_hour.toNat, [':'], padded 2 tm.tm_min.toNat, [':'],
        padded 2 tm.tm_sec.toNat, [','], padded 3 (tm.tm_usec / 1000).toNat] := by
    rw [parts]
    repeat' constructor
  rw [renders.format_eq known, formatISO8601, numericToken_of_nonneg _ year,
    numericToken_of_nonneg _ (add_nonneg inRange.mon.1 zero_le_one),
    numericToken_of_nonneg _ (zero_le_one.trans inRange.mday.1),
    numericToken_of_nonneg _ inRange.hour.1, numericToken_of_nonneg _ inRange.min.1,
    numericToken_of_nonneg _ inRange.sec.1, Int.tdiv_eq_ediv_of_nonneg inRange.usec.1,
    numericToken_of_nonneg _ (Int.ediv_nonneg inRange.usec.1 (by decide))]
  simp only [List.flatten_cons, List.flatten_nil, List.append_nil, List.append_assoc]

section Examples

/-- A time zone that explodes every time into the first second of the year 2019. -/
def newYear (id : LogString) (tm_gmtoff : Int) : TimeZone where
  id := id
  explode _ := some ⟨⟨0, 0, 0, 0, 1, 0, 119⟩, 2, 0, tm_gmtoff⟩
  inRange := by
    rintro _ _ ⟨⟩
    constructor <;> dsimp only <;> decide

def noNames : LocaleNames := ⟨[], [], [], [], []⟩

theorem renders_offset :
    Renders (zoned noNames (fun _ => 7) (newYear "GMT".toList 0) "HH Z".toList
      [newYear "EST".toList (-18000)]) (newYear "EST".toList (-18000)) 0
      ⟨⟨0, 0, 0, 0, 1, 0, 119⟩, 2, 0, -18000⟩ "HH Z".toList := by
  have exploded : ([newYear "EST".toList (-18000)].getLastD (newYear "GMT".toList 0)).explode 0 =
      some ⟨⟨0, 0, 0, 0, 1, 0, 119⟩, 2, 0, -18000⟩ := rfl
  apply (renders_iff noNames (fun _ => 7) (newYear "GMT".toList 0) "HH Z".toList
    [newYear "EST".toList (-18000)] exploded (by decide)).mpr
  intro place run found
  have parts : runs "HH Z".toList = [('H', 2), (' ', 1), ('Z', 1)] := by decide
  rw [parts] at found
  have member := List.mem_of_getElem? found
  simp only [List.mem_cons, List.not_mem_nil, or_false] at member
  rcases member with rfl | rfl | rfl
  · trivial
  · trivial
  · exact (by decide : (-18000 : Int).natAbs < 360000)

/-- The identifier of the default zone is shown with the time of the zone that was set later. -/
theorem not_renders_identifier :
    ¬ Renders (zoned noNames (fun _ => 0) (newYear "GMT".toList 0) "z".toList
      [newYear "EST".toList (-18000)]) (newYear "EST".toList (-18000)) 0
      ⟨⟨0, 0, 0, 0, 1, 0, 119⟩, 2, 0, -18000⟩ "z".toList := by
  intro renders
  have texts : List.Forall₂ (fun run text =>
      field (newYear "EST".toList (-18000)) ⟨⟨0, 0, 0, 0, 1, 0, 119⟩, 2, 0, -18000⟩ run = some text)
      (runs "z".toList) ["EST".toList] := .cons rfl .nil
  have shown := renders.format_eq texts []
  have code : (zoned noNames (fun _ => 0) (newYear "GMT".toList 0) "z".toList
      [newYear "EST".toList (-18000)]).format [] 0 = some "GMT".toList := rfl
  rw [code] at shown
  exact absurd shown (by decide)

end Examples

end CodeCollect.Log4cxx.SimpleDateFormat
