import CodeCollect.Log4cxx.CachedDateFormatRun

namespace CodeCollect.Log4cxx.CachedDateFormat

/-- These are the buffers that the wrapped format alone would leave. -/
def Shape.formatCalls (shape : Shape) (calls : List (LogString × Int)) : List LogString :=
  calls.map fun call => call.1 ++ shape.format call.2

/-- Consecutive calls inside one second read the same millisecond. -/
def SteadySeconds : Int → List Int → Prop
  | _, [] => True
  | last, now :: times =>
      (second now = second last → millisecond now = millisecond last) ∧ SteadySeconds now times

/-- The scan looks at the calls that open a second, since only these probe the format.
The first argument is the second of the previous call. -/
def ProbesClear : Option Int → List Int → Prop
  | _, [] => True
  | last, now :: times =>
      if last = some (second now) then ProbesClear last times
      else if millisecond now = 654 then SteadySeconds now times
      else if 600 ≤ millisecond now ∧ millisecond now < 700 then True
      else ProbesClear (some (second now)) times

/-- A format without milliseconds has nothing to find. -/
def Shape.Clear : Shape → List Int → Prop
  | .milliseconds _ _, times => ProbesClear none times
  | .seconds _, _ => True

theorem formatCalls_cons (self : CachedDateFormat) (shape : Shape) (buf : LogString) (now : Int)
    (calls : List (LogString × Int)) :
    self.formatCalls ((buf, now) :: calls) = shape.formatCalls ((buf, now) :: calls) ↔
      (self.format buf now).1 = buf ++ shape.format now ∧
        (self.format buf now).2.formatCalls calls = shape.formatCalls calls := by
  simp [formatCalls, Shape.formatCalls]

/-- An unrecognized cache stays transparent for ever. -/
theorem Holds.formatCalls_unrecognized {self : CachedDateFormat} {shape : Shape} {last : Int}
    (holds : self.Holds shape last) (unrecognized : self.millisecondStart = unrecognizedMilliseconds)
    (calls : List (LogString × Int)) : self.formatCalls calls = shape.formatCalls calls := by
  induction calls generalizing self last with
  | nil => rfl
  | cons call calls ih =>
      obtain ⟨buf, now⟩ := call
      have step := holds.format_unrecognized unrecognized buf now
      exact (formatCalls_cons self shape buf now calls).mpr
        ⟨step.1, ih step.2.1 step.2.2⟩

/-- A cache that found no field stays that way when another second begins. -/
theorem Holds.format_other_frozen {self : CachedDateFormat} {shape : Shape} {last : Int}
    (holds : self.Holds shape last) (frozen : self.millisecondStart = noMilliseconds)
    (buf : LogString) (now : Int) (other : second now ≠ second last) :
    (self.format buf now).1 = buf ++ shape.format now ∧
      (self.format buf now).2.Holds shape now ∧
      (self.format buf now).2.millisecondStart = noMilliseconds := by
  have step := holds.format_other buf now other
  refine ⟨step.1, step.2.1, ?_⟩
  rw [step.2.2, frozen]
  rfl

/-- Repeating the text of the second is right for a format without milliseconds. -/
theorem Holds.formatCalls_seconds {self : CachedDateFormat} {text : Int → LogString} {last : Int}
    (holds : self.Holds (.seconds text) last) (frozen : self.millisecondStart = noMilliseconds)
    (calls : List (LogString × Int)) :
    self.formatCalls calls = (Shape.seconds text).formatCalls calls := by
  induction calls generalizing self last with
  | nil => rfl
  | cons call calls ih =>
      obtain ⟨buf, now⟩ := call
      rw [formatCalls_cons]
      by_cases same : second now = second last
      · have step := holds.format_frozen frozen buf now same
        have text_eq : (Shape.seconds text).format now = (Shape.seconds text).format last := by
          simp only [Shape.format, same]
        exact ⟨by rw [step.1, text_eq], ih (step.2.1 text_eq) step.2.2⟩
      · have step := holds.format_other_frozen frozen buf now same
        exact ⟨step.1, ih step.2.1 step.2.2⟩

/-- A cache that missed the field is right exactly as long as the milliseconds stand still. -/
theorem Holds.formatCalls_frozen {self : CachedDateFormat} {pre post : Int → LogString}
    {last : Int} (holds : self.Holds (.milliseconds pre post) last)
    (frozen : self.millisecondStart = noMilliseconds) (calls : List (LogString × Int)) :
    self.formatCalls calls = (Shape.milliseconds pre post).formatCalls calls ↔
      SteadySeconds last (calls.map Prod.snd) := by
  induction calls generalizing self last with
  | nil => exact iff_of_true rfl trivial
  | cons call calls ih =>
      obtain ⟨buf, now⟩ := call
      rw [formatCalls_cons, List.map_cons, SteadySeconds]
      by_cases same : second now = second last
      · have step := holds.format_frozen frozen buf now same
        have text := Shape.milliseconds_format_eq pre post now last same
        rw [step.1, List.append_right_inj, eq_comm, text]
        constructor
        · rintro ⟨shown, rest⟩
          exact ⟨fun _ => shown, (ih (step.2.1 (text.mpr shown)) step.2.2).mp rest⟩
        · rintro ⟨shown, rest⟩
          exact ⟨shown same, (ih (step.2.1 (text.mpr (shown same))) step.2.2).mpr rest⟩
      · have step := holds.format_other_frozen frozen buf now same
        rw [ih step.2.1 step.2.2]
        constructor
        · rintro ⟨_, rest⟩
          exact ⟨fun equal => absurd equal same, rest⟩
        · rintro ⟨_, rest⟩
          exact ⟨step.1, rest⟩

/-- A probe decides how the rest of the run behaves. -/
theorem Holds.formatCalls_probed {self : CachedDateFormat} {pre post : Int → LogString} {now : Int}
    (holds : self.Holds (.milliseconds pre post) now)
    (probed : self.millisecondStart =
      findMillisecondStart now ((Shape.milliseconds pre post).format now)
        (Shape.milliseconds pre post).format)
    (calls : List (LogString × Int))
    (located : self.millisecondStart = (pre (second now)).length →
      (self.formatCalls calls = (Shape.milliseconds pre post).formatCalls calls ↔
        ProbesClear (some (second now)) (calls.map Prod.snd))) :
    self.formatCalls calls = (Shape.milliseconds pre post).formatCalls calls ↔
      if millisecond now = 654 then SteadySeconds now (calls.map Prod.snd)
      else if 600 ≤ millisecond now ∧ millisecond now < 700 then True
      else ProbesClear (some (second now)) (calls.map Prod.snd) := by
  by_cases magic : millisecond now = 654
  · rw [if_pos magic]
    rw [findMillisecondStart_magic pre post now magic] at probed
    exact holds.formatCalls_frozen probed calls
  · rw [if_neg magic]
    by_cases shared : 600 ≤ millisecond now ∧ millisecond now < 700
    · rw [if_pos shared]
      rw [findMillisecondStart_shared pre post now shared magic] at probed
      exact iff_of_true (holds.formatCalls_unrecognized probed calls) trivial
    · rw [if_neg shared]
      rw [findMillisecondStart_located pre post now (by omega)] at probed
      exact located probed

/-- While the field is located, only a call that opens a second can go wrong. -/
theorem Holds.formatCalls_located {self : CachedDateFormat} {pre post : Int → LogString}
    {last : Int} (holds : self.Holds (.milliseconds pre post) last)
    (located : self.millisecondStart = (pre (second last)).length)
    (calls : List (LogString × Int)) :
    self.formatCalls calls = (Shape.milliseconds pre post).formatCalls calls ↔
      ProbesClear (some (second last)) (calls.map Prod.snd) := by
  induction calls generalizing self last with
  | nil => exact iff_of_true rfl trivial
  | cons call calls ih =>
      obtain ⟨buf, now⟩ := call
      rw [formatCalls_cons, List.map_cons, ProbesClear]
      by_cases same : second now = second last
      · have step := holds.format_located located buf now same
        rw [if_pos (by rw [same]), ← same, and_iff_right step.1]
        exact ih step.2.1 step.2.2
      · have step := holds.format_other buf now same
        have shown : self.millisecondStart ≥ 0 := by
          rw [located]
          exact Int.natCast_nonneg _
        rw [if_neg (fun equal => same (Option.some.inj equal).symm), and_iff_right step.1]
        rw [if_pos shown] at step
        exact step.2.1.formatCalls_probed step.2.2 calls (ih step.2.1)

/-- The sentinel second of a new object contains no time that is in range. -/
theorem fresh_unserved (formatter : DateFormat) (now : Int) (inRange : InRange now) :
    now ≠ (fresh formatter 1000000).previousTime ∧ ¬ (fresh formatter 1000000).Serves now := by
  have lower := inRange.1
  simp only [fresh, Serves]
  constructor
  · intro same
    rw [same] at lower
    exact absurd lower (by decide)
  · rintro ⟨_, _, _, upper⟩
    omega

/-- A new cache is transparent exactly when no probe meets its own magic number and then moves. -/
theorem formatCalls_transparent_iff (shape : Shape) (calls : List (LogString × Int))
    (inRange : ∀ call ∈ calls, InRange call.2) :
    (fresh shape.format 1000000).formatCalls calls = shape.formatCalls calls ↔
      shape.Clear (calls.map Prod.snd) := by
  cases calls with
  | nil => cases shape <;> exact iff_of_true rfl trivial
  | cons call calls =>
      obtain ⟨buf, now⟩ := call
      have unserved := fresh_unserved shape.format now (inRange _ (List.mem_cons_self ..))
      have step := format_unserved (fresh shape.format 1000000) shape buf now rfl rfl
        unserved.1 unserved.2
      have shown : (fresh shape.format 1000000).millisecondStart ≥ 0 := Int.le_refl 0
      rw [if_pos shown] at step
      rw [formatCalls_cons, and_iff_right step.1]
      cases shape with
      | milliseconds pre post =>
          rw [Shape.Clear, List.map_cons, ProbesClear, if_neg (by simp)]
          exact step.2.1.formatCalls_probed step.2.2 calls
            (fun located => step.2.1.formatCalls_located located calls)
      | seconds text =>
          have frozen := step.2.2
          rw [findMillisecondStart_seconds] at frozen
          exact iff_of_true (step.2.1.formatCalls_seconds frozen calls) trivial

/-- Two calls in one second pass when the first one shows other digits than the probe. -/
theorem formatCalls_transparent_located :
    (fresh (Shape.milliseconds (fun _ => ['t', '=']) fun _ => ['s']).format 1000000).formatCalls
        [([], 123000), (['>'], 654999), ([], -1)] =
      (Shape.milliseconds (fun _ => ['t', '=']) fun _ => ['s']).formatCalls
        [([], 123000), (['>'], 654999), ([], -1)] := by
  apply (formatCalls_transparent_iff _ _ (by decide)).mpr
  simp [Shape.Clear, ProbesClear, second, millisecond]

/-- A first call at millisecond 654 hides the field, and the next call repeats its digits. -/
theorem formatCalls_magic_first :
    InRange 654000 ∧ InRange 655000 ∧
      (fresh (Shape.milliseconds (fun _ => []) fun _ => []).format 1000000).formatCalls
          [([], 654000), ([], 655000)] ≠
        (Shape.milliseconds (fun _ => []) fun _ => []).formatCalls
          [([], 654000), ([], 655000)] := by
  decide

end CodeCollect.Log4cxx.CachedDateFormat
