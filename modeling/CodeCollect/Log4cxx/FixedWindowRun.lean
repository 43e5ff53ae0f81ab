import CodeCollect.Log4cxx.FixedWindowArchives

namespace CodeCollect.Log4cxx

open CodeCollect.Library

namespace FixedWindowRollingPolicy

variable {Event : Type}

/-- The archive of each age holds the content that was rolled so long ago, and none is too high. -/
structure KeepsWindow (policy : FixedWindowRollingPolicy) (indices : Set Int) (rollovers : Nat)
    (past : List (Content Event)) (files : Files (Content Event)) : Prop where
  above : ∀ i ∈ indices, policy.maxIndex < i → ∀ name,
    OfIndex policy.fileNamePattern policy.suffixLength i name → files name = none
  archived : ∀ k : Nat, k < rollovers → policy.purgeStart + k ≤ policy.maxIndex →
    ∃ content, past[k]? = some content ∧
      files (policy.fileNamePattern.formatFileName (policy.purgeStart + k)) =
        some (content.packed policy.suffixLength)

/-- The window begins at the minimal index or right behind it. -/
theorem purgeStart_bounds (policy : FixedWindowRollingPolicy) :
    policy.minIndex ≤ policy.purgeStart ∧ policy.purgeStart ≤ policy.minIndex + 1 := by
  rw [purgeStart]
  split <;> omega

theorem Archives.free {policy : FixedWindowRollingPolicy} {indices : Set Int}
    {past : List (Content Event)} {files : Files (Content Event)}
    (archives : Archives policy indices past files) {i : Int} (inside : i ∈ indices)
    (above : policy.purgeStart ≤ i) (beyond : policy.maxIndex < i) (name : LogString)
    (ofI : OfIndex policy.fileNamePattern policy.suffixLength i name) : files name = none := by
  have full := archives.full i inside above
  rw [if_neg (by omega)] at full
  rcases ofI with rfl | rfl
  · exact full
  · rcases Nat.eq_zero_or_pos policy.suffixLength with plain | suffixed
    · rwa [plain, baseName_zero]
    · exact archives.base i inside above suffixed

/-- The archives say all that is to be said about the window. -/
theorem Archives.keepsWindow {policy : FixedWindowRollingPolicy} {indices : Set Int}
    {past : List (Content Event)} {files : Files (Content Event)}
    (archives : Archives policy indices past files)
    (window : Set.Icc policy.minIndex (policy.maxIndex + 1) ⊆ indices)
    (ordered : policy.minIndex ≤ policy.maxIndex) {rollovers : Nat}
    (enough : rollovers ≤ past.length) : KeepsWindow policy indices rollovers past files := by
  have bounds := policy.purgeStart_bounds
  constructor
  · intro i inside beyond
    exact archives.free inside (by omega) beyond
  · intro k small below
    have index : (policy.purgeStart + k - policy.purgeStart).toNat = k := by omega
    have found := archives.full (policy.purgeStart + k) (window ⟨by omega, by omega⟩) (by omega)
    rw [if_pos below, index, List.getElem?_eq_getElem (by omega)] at found
    exact ⟨_, List.getElem?_eq_getElem (by omega), found⟩

end FixedWindowRollingPolicy

namespace RollingFileAppender

variable {Event : Type}

open FixedWindowRollingPolicy

/-- This is what an appender with a fixed window never changes. -/
structure Unmoved (start : RollingFileAppender Event) (policy : FixedWindowRollingPolicy)
    (state : RollingFileAppender Event) : Prop where
  opened : state.Open
  fileName : state.fileName = start.fileName
  fixed : state.rollingPolicy = .fixedWindow policy

theorem isTriggeringEvent_fixedWindow {self : RollingFileAppender Event}
    {policy : FixedWindowRollingPolicy} (fixed : self.rollingPolicy = .fixedWindow policy)
    (call : AppendCall Event) : self.isTriggeringEvent call = call.triggers := by
  rw [isTriggeringEvent, fixed]
  cases self.triggeringPolicy <;> rfl

theorem Unmoved.write {start state : RollingFileAppender Event}
    {policy : FixedWindowRollingPolicy} (unmoved : Unmoved start policy state)
    (text : Record Event) : Unmoved start policy (state.write text) := by
  refine ⟨unmoved.opened.write text, ?_, ?_⟩ <;> rw [write_eq state unmoved.opened.writer]
  · exact unmoved.fileName
  · exact unmoved.fixed

theorem Unmoved.reopen {start state : RollingFileAppender Event}
    {policy : FixedWindowRollingPolicy} (unmoved : Unmoved start policy state)
    (files : Files (Content Event)) (append : Bool) :
    Unmoved start policy (state.reopen files append) :=
  ⟨open_reopen unmoved.opened.notClosed files append, unmoved.fileName, unmoved.fixed⟩

section Run

variable {start : RollingFileAppender Event} {policy : FixedWindowRollingPolicy}
  {indices : Set Int}

/-- A written text reaches no archive. -/
theorem archives_write {state : RollingFileAppender Event} {past : List (Content Event)}
    (unmoved : Unmoved start policy state) (apart : Apart policy indices start.fileName)
    (archives : Archives policy indices past state.files) (text : Record Event) :
    Archives policy indices past (state.write text).files := by
  rw [write_eq state unmoved.opened.writer]
  refine archives.congr fun i inside above name ofI => appendRecord_other ?_
  rintro rfl
  rw [unmoved.fileName] at ofI
  exact apart i inside above ofI

/-- Each call of `append` keeps the archives and counts its rollover. -/
theorem archives_append {state : RollingFileAppender Event}
    {trace : List (RolloverObservation Event)} (unmoved : Unmoved start policy state)
    (apart : Apart policy indices start.fileName)
    (archives : Archives policy indices (rolled trace) state.files)
    (injective : Set.InjOn policy.fileNamePattern.formatFileName indices)
    (read : suffixLengthOf policy.archiveName = some policy.suffixLength)
    (window : Set.Icc policy.purgeStart policy.maxIndex ⊆ indices)
    (ordered : policy.purgeStart ≤ policy.maxIndex) (nonnegative : 0 ≤ policy.maxIndex)
    (call : AppendCall Event) (never : ∀ operation, call.fails operation = false) :
    Unmoved start policy (state.append call) ∧
      Archives policy indices (rolled (trace ++ state.observe call)) (state.append call).files ∧
      (rolled (trace ++ state.observe call)).length =
        (rolled trace).length + if call.triggers then 1 else 0 := by
  have triggering := isTriggeringEvent_fixedWindow unmoved.fixed call
  cases triggers : call.triggers with
  | false =>
      obtain ⟨appended, silent⟩ := unmoved.opened.append_idle call (triggering.trans triggers)
      rw [silent, List.append_nil, appended, ← write_eq state unmoved.opened.writer]
      exact ⟨unmoved.write _, archives_write unmoved apart archives _, rfl⟩
  | true =>
      obtain ⟨content, found⟩ := Option.ne_none_iff_exists'.mp unmoved.opened.exists'
      obtain ⟨appended, seen⟩ :=
        unmoved.opened.append_rolls call (triggering.trans triggers) found
      have past : rolled (trace ++ state.observe call) =
          content.record .footer :: rolled trace := by
        rw [rolled_append, seen]
        cases state.dropped call.fails <;> rfl
      obtain ⟨files, result, next⟩ := archives.rollover unmoved.opened unmoved.fixed found
        injective read window ordered nonnegative (by rwa [unmoved.fileName]) call.now never
      rw [past, appended, result]
      exact ⟨(unmoved.reopen files false).write _,
        archives_write (unmoved.reopen files false) apart next _, rfl⟩

end Run

/-- An accepted policy starts in a directory where no file has a name of the pattern. -/
structure StartsClean (appender start : RollingFileAppender Event)
    (policy : FixedWindowRollingPolicy) (indices : Set Int) : Prop where
  fresh : appender.writer = none
  notClosed : appender.closed = false
  activated : ∃ activated initialized,
    appender.activateOptions activated initialized = some start
  fixed : start.rollingPolicy = .fixedWindow policy
  nonnegative : 0 ≤ policy.minIndex
  window : Set.Icc policy.minIndex (policy.maxIndex + 1) ⊆ indices
  injective : Set.InjOn policy.fileNamePattern.formatFileName indices
  unmatched : ∀ i ∈ indices, ∀ name,
    OfIndex policy.fileNamePattern policy.suffixLength i name → appender.files name = none ∧
      (policy.explicitActiveFile = true → name ≠ start.fileName)

section Start

variable {appender start : RollingFileAppender Event} {policy : FixedWindowRollingPolicy}
  {indices : Set Int}

/-- The activation orders the indices and chooses the active file. -/
theorem StartsClean.activation (clean : StartsClean appender start policy indices) :
    policy.minIndex ≤ policy.maxIndex ∧
      (policy.explicitActiveFile = true ∧ start.fileName ≠ [] ∨
        policy.explicitActiveFile = false ∧
          start.fileName = policy.fileNamePattern.formatFileName policy.minIndex) ∧
      (start.fileName ≠ [] → start.Open ∧
        ∀ name, name ≠ start.fileName → start.files name = appender.files name) := by
  obtain ⟨activated, initialized, result⟩ := clean.activated
  obtain ⟨accepted, checked, policySame, nameSame, _, opened⟩ :=
    activateOptions_spec clean.fresh clean.notClosed result
  have fixed := policySame.symm.trans clean.fixed
  cases configured : appender.rollingPolicy with
  | timeBased other =>
      rw [configured, RollingPolicy.activateOptions] at checked
      obtain rfl := Option.some.inj checked
      exact absurd fixed (by simp [RollingPolicy.initializePolicy])
  | fixedWindow other =>
      rw [configured, RollingPolicy.activateOptions, Option.map_eq_some_iff] at checked
      obtain ⟨bounded, bounds, rfl⟩ := checked
      rw [RollingPolicy.initializePolicy, FixedWindowRollingPolicy.initializePolicy] at fixed nameSame
      obtain rfl := RollingPolicy.fixedWindow.inj fixed
      refine ⟨?_, ?_, opened⟩
      · rw [FixedWindowRollingPolicy.activateOptions] at bounds
        split at bounds
        · obtain rfl := Option.some.inj bounds
          dsimp only [maxWindowSize]
          split <;> split <;> omega
        · exact absurd bounds (by simp)
      · rw [nameSame]
        cases named : appender.fileName with
        | nil => exact Or.inr ⟨rfl, rfl⟩
        | cons first rest => exact Or.inl ⟨rfl, List.cons_ne_nil _ _⟩

/-- The start opens the active file and leaves the names of all archives free. -/
theorem StartsClean.starts (clean : StartsClean appender start policy indices) :
    Unmoved start policy start ∧ Apart policy indices start.fileName ∧
      Archives policy indices ([] : List (Content Event)) start.files := by
  obtain ⟨ordered, chosen, opens⟩ := clean.activation
  have bounds := policy.purgeStart_bounds
  have lowest : policy.minIndex ∈ indices := clean.window ⟨le_refl _, by omega⟩
  have named : start.fileName ≠ [] := by
    rcases chosen with ⟨_, named⟩ | ⟨_, first⟩
    · exact named
    · intro empty
      rw [first] at empty
      have same := clean.injective lowest (clean.window ⟨by omega, by omega⟩)
        (empty.trans (policy.fileNamePattern.formatFileName_eq_nil
          (policy.minIndex + 1) empty).symm)
      omega
  obtain ⟨opened, files⟩ := opens named
  have apart : Apart policy indices start.fileName := by
    intro i inside above ofI
    rcases chosen with ⟨explicit, _⟩ | ⟨implicit, first⟩
    · exact (clean.unmatched i inside _ ofI).2 explicit rfl
    · rw [first] at ofI
      have same := OfIndex.unique (policy.distinctNames_suffixLength clean.injective) lowest inside
        (Or.inl rfl) ofI
      rw [purgeStart, implicit, if_neg Bool.false_ne_true] at above
      omega
  refine ⟨⟨opened, rfl, clean.fixed⟩, apart, ?_, ?_⟩
  · intro i inside above
    rw [files _ fun same => apart i inside above (Or.inl same.symm),
      (clean.unmatched i inside _ (Or.inl rfl)).1]
    split <;> rfl
  · intro i inside above _
    rw [files _ fun same => apart i inside above (Or.inr same.symm),
      (clean.unmatched i inside _ (Or.inr rfl)).1]

end Start

section Window

variable {appender start : RollingFileAppender Event} {policy : FixedWindowRollingPolicy}
  {indices : Set Int} {calls : List (AppendCall Event)} {state : RollingFileAppender Event}
  {trace : List (RolloverObservation Event)}

/-- A window with archives that a purge can read keeps them in every run. -/
theorem StartsClean.keepsWindow (clean : StartsClean appender start policy indices)
    (ordered : policy.purgeStart ≤ policy.maxIndex)
    (read : suffixLengthOf policy.archiveName ≠ none)
    (ran : (machine start).run calls = some (state, trace))
    (never : ∀ call ∈ calls, ∀ operation, call.fails operation = false) :
    KeepsWindow policy indices (calls.countP AppendCall.triggers) (rolled trace) state.files := by
  obtain ⟨unmoved, apart, archives⟩ := clean.starts
  obtain ⟨bounds, _, _⟩ := clean.activation
  have start' := policy.purgeStart_bounds
  have nonnegative := clean.nonnegative
  have read : suffixLengthOf policy.archiveName = some policy.suffixLength := by
    obtain ⟨suffixLength, found⟩ := Option.ne_none_iff_exists'.mp read
    rw [found, suffixLengthOf_eq found]
    rfl
  have kept := Machine.run_history (machine start)
    (fun _ call => ∀ operation, call.fails operation = false)
    (fun calls state trace => Unmoved start policy state ∧
      Archives policy indices (rolled trace) state.files ∧
      (rolled trace).length = calls.countP AppendCall.triggers)
    ⟨unmoved, archives, rfl⟩
    (by
      rintro earlier before past call _ _ _ ⟨unmoved, archives, count⟩ never taken
      obtain ⟨rfl, rfl⟩ := Prod.mk.inj (Option.some.inj taken)
      obtain ⟨unmoved, archives, next⟩ := archives_append unmoved apart archives clean.injective
        read (fun i inside => clean.window ⟨by have := inside.1; omega, by
          have := inside.2; omega⟩) ordered (by omega) call never
      refine ⟨unmoved, archives, ?_⟩
      rw [next, count, List.countP_append, List.countP_singleton])
    ran (Machine.along_of_forall fun call member _ => never call member)
  exact kept.2.1.keepsWindow clean.window bounds kept.2.2.symm.le

/-- A window without archives stays free when each purge throws. -/
theorem StartsClean.keepsNothing (clean : StartsClean appender start policy indices)
    (empty : policy.maxIndex < policy.purgeStart)
    (unread : suffixLengthOf policy.archiveName = none)
    (ran : (machine start).run calls = some (state, trace)) :
    KeepsWindow policy indices (calls.countP AppendCall.triggers) (rolled trace) state.files := by
  obtain ⟨unmoved, apart, archives⟩ := clean.starts
  have start' := policy.purgeStart_bounds
  have kept := Machine.run_invariant (machine start) (fun _ _ => True)
    (fun state _ => Unmoved start policy state ∧ Archives policy indices [] state.files)
    ⟨unmoved, archives⟩
    (by
      rintro before past call _ _ ⟨unmoved, archives⟩ _ taken
      obtain ⟨rfl, rfl⟩ := Prod.mk.inj (Option.some.inj taken)
      have written : before.append call = before.write (.event call.event) := by
        cases triggers : before.isTriggeringEvent call with
        | false =>
            rw [(unmoved.opened.append_idle call triggers).1,
              write_eq before unmoved.opened.writer]
        | true =>
            obtain ⟨content, found⟩ := Option.ne_none_iff_exists'.mp unmoved.opened.exists'
            rw [(unmoved.opened.append_rolls call triggers found).1,
              rollover_threw unmoved.fixed call.now call.fails (purge_unread unread)]
      rw [written]
      exact ⟨unmoved.write _, archives_write unmoved apart archives _⟩)
    ran (Machine.along_of_forall fun _ _ _ => trivial)
  obtain ⟨ordered, _, _⟩ := clean.activation
  exact ⟨fun i inside beyond => kept.2.free inside (by omega) beyond,
    fun k _ below => absurd below (by omega)⟩

/-- A rollover whose purge throws archives nothing. -/
theorem StartsClean.refuses (clean : StartsClean appender start policy indices)
    (unread : suffixLengthOf policy.archiveName = none) (call : AppendCall Event)
    (triggers : call.triggers = true) :
    (start.append call).files policy.archiveName = none := by
  obtain ⟨unmoved, apart, archives⟩ := clean.starts
  obtain ⟨ordered, _, _⟩ := clean.activation
  have bounds := policy.purgeStart_bounds
  obtain ⟨content, found⟩ := Option.ne_none_iff_exists'.mp unmoved.opened.exists'
  have appended := (unmoved.opened.append_rolls call
    ((isTriggeringEvent_fixedWindow clean.fixed call).trans triggers) found).1
  rw [rollover_threw clean.fixed call.now call.fails (purge_unread unread)] at appended
  have written := (archives_write unmoved apart archives (.event call.event)).full
    policy.purgeStart (clean.window ⟨by omega, by omega⟩) (le_refl _)
  rw [appended, archiveName, written]
  split <;> rfl

/-- A window without archives still gets one, which is above the window. -/
theorem StartsClean.overflows (clean : StartsClean appender start policy indices)
    (read : suffixLengthOf policy.archiveName ≠ none)
    (empty : policy.maxIndex < policy.purgeStart) (call : AppendCall Event)
    (triggers : call.triggers = true) (never : ∀ operation, call.fails operation = false) :
    (start.append call).files policy.archiveName ≠ none := by
  obtain ⟨unmoved, apart, archives⟩ := clean.starts
  obtain ⟨ordered, _, _⟩ := clean.activation
  have bounds := policy.purgeStart_bounds
  have nonnegative := clean.nonnegative
  have away : policy.archiveName ≠ start.fileName := fun same =>
    apart policy.purgeStart (clean.window ⟨by omega, by omega⟩) (le_refl _) (Or.inl same.symm)
  obtain ⟨content, found⟩ := Option.ne_none_iff_exists'.mp unmoved.opened.exists'
  obtain ⟨suffixLength, ends⟩ := Option.ne_none_iff_exists'.mp read
  obtain ⟨files, result, archive, _⟩ := start.rolloverSameFile_archives call.fails
    unmoved.opened.writer found (archiveNames_compressedLength policy.archiveName) (never _)
    fun _ => ⟨never _, never _⟩
  have rolled : start.rollover call.now call.fails = start.reopen files false := by
    rw [rollover_purged clean.fixed call.now call.fails (by omega) (purge_empty ends empty) rfl]
    exact result
  rw [(unmoved.opened.append_rolls call
    ((isTriggeringEvent_fixedWindow clean.fixed call).trans triggers) found).1, rolled,
    write_eq (start.reopen files false) rfl]
  show appendRecord (reopened start.utf16 files start.fileName false) start.fileName _
    policy.archiveName ≠ none
  rw [appendRecord_other away, reopened_other _ _ away]
  exact fun missing => Option.some_ne_none _ (archive.symm.trans missing)

end Window

/-- A window is kept in all runs exactly when a purge can read the names of its archives. -/
theorem keepsWindow_iff [Inhabited Event] {appender start : RollingFileAppender Event}
    {policy : FixedWindowRollingPolicy} {indices : Set Int}
    (clean : StartsClean appender start policy indices) :
    (∀ calls state trace, (machine start).run calls = some (state, trace) →
      (∀ call ∈ calls, ∀ operation, call.fails operation = false) →
        KeepsWindow policy indices (calls.countP AppendCall.triggers) (rolled trace)
          state.files) ↔
      (policy.purgeStart ≤ policy.maxIndex ↔
        4 ≤ policy.archiveName.length ∨ policy.archiveName = ['.', 'g', 'z']) := by
  rw [← suffixLengthOf_ne_none_iff]
  obtain ⟨bounds, _, _⟩ := clean.activation
  have start' := policy.purgeStart_bounds
  have lowest : policy.purgeStart ∈ indices := clean.window ⟨by omega, by omega⟩
  constructor
  · intro keeps
    have kept := keeps _ _ _ (run_single start ⟨default, 0, true, fun _ => false⟩)
      (fun call member _ => by rw [List.mem_singleton.mp member])
    constructor
    · intro ordered unread
      obtain ⟨content, _, found⟩ := kept.archived 0 Nat.zero_lt_one (by simpa using ordered)
      rw [Nat.cast_zero, add_zero] at found
      have missing := clean.refuses unread ⟨default, 0, true, fun _ => false⟩ rfl
      rw [archiveName, found] at missing
      exact Option.some_ne_none _ missing
    · intro read
      by_contra empty
      exact clean.overflows read (by omega) ⟨default, 0, true, fun _ => false⟩ rfl (fun _ => rfl)
        (kept.above _ lowest (by omega) _ (Or.inl rfl))
  · intro fits calls state trace ran never
    by_cases ordered : policy.purgeStart ≤ policy.maxIndex
    · exact clean.keepsWindow ordered (fits.mp ordered) ran never
    · have unread : suffixLengthOf policy.archiveName = none := by
        by_contra read
        exact ordered (fits.mpr read)
      exact clean.keepsNothing (by omega) unread ran

/-- The names of this pattern are `log.1`, `log.2` and so on. -/
def plainPattern : FileNamePattern :=
  [(.literal ['l', 'o', 'g', '.'], .getDefault), (.integer, .getDefault)]

/-- This appender chooses its active file by the pattern. -/
def implicitAppender (maxIndex : Int) : RollingFileAppender Unit where
  fileName := []
  fileAppend := false
  utf16 := false
  closed := false
  writer := none
  rollingPolicy := .fixedWindow ⟨1, maxIndex, plainPattern, false⟩
  triggeringPolicy := .other
  files := fun _ => none

def implicitStart (maxIndex : Int) : RollingFileAppender Unit :=
  { implicitAppender maxIndex with fileName := ['l', 'o', 'g', '.', '1'] }.reopen
    (fun _ => none) false

theorem plainPattern_injOn : Set.InjOn plainPattern.formatFileName (Set.Icc 1 3) := by
  intro i iInside j jInside same
  rw [Set.mem_Icc] at iInside jInside
  obtain rfl | rfl | rfl : i = 1 ∨ i = 2 ∨ i = 3 := by omega
  all_goals obtain rfl | rfl | rfl : j = 1 ∨ j = 2 ∨ j = 3 := by omega
  all_goals
    revert same
    decide +kernel

theorem implicitStart_clean (maxIndex : Int) (small : maxIndex = 1 ∨ maxIndex = 2) :
    StartsClean (implicitAppender maxIndex) (implicitStart maxIndex)
      ⟨1, maxIndex, plainPattern, false⟩ (Set.Icc 1 3) where
  fresh := rfl
  notClosed := rfl
  activated := by
    refine ⟨0, 0, ?_⟩
    rcases small with rfl | rfl <;> rfl
  fixed := rfl
  nonnegative := Int.one_nonneg
  window := by
    intro i inside
    have lower := inside.1
    have upper := inside.2
    dsimp only at lower upper
    exact ⟨lower, by omega⟩
  injective := plainPattern_injOn
  unmatched := fun _ _ _ _ => ⟨rfl, fun explicit => absurd explicit Bool.false_ne_true⟩

/-- The archive `log.2` holds what `log.1` held before. -/
theorem keepsWindow_iff_implicit :
    KeepsWindow ⟨1, 2, plainPattern, false⟩ (Set.Icc 1 3) 1
      (rolled ((implicitStart 2).observe ⟨(), 0, true, fun _ => false⟩))
      ((implicitStart 2).append ⟨(), 0, true, fun _ => false⟩).files :=
  (keepsWindow_iff (implicitStart_clean 2 (Or.inr rfl))).mpr (by decide +kernel)
    [⟨(), 0, true, fun _ => false⟩] _ _ (run_single _ _)
    fun _ member _ => by rw [List.mem_singleton.mp member]

/-- A window of one index gets an archive above it at the first rollover. -/
theorem implicit_overflows :
    ∃ calls state trace, (machine (implicitStart 1)).run calls = some (state, trace) ∧
      (∀ call ∈ calls, ∀ operation, call.fails operation = false) ∧
      ¬ KeepsWindow ⟨1, 1, plainPattern, false⟩ (Set.Icc 1 3)
        (calls.countP AppendCall.triggers) (rolled trace) state.files := by
  refine ⟨_, _, _, run_single (implicitStart 1) ⟨(), 0, true, fun _ => false⟩,
    fun _ member _ => by rw [List.mem_singleton.mp member], fun keeps => ?_⟩
  refine (implicitStart_clean 1 (Or.inl rfl)).overflows (by decide +kernel) (by decide)
    ⟨(), 0, true, fun _ => false⟩ rfl (fun _ => rfl) ?_
  exact keeps.above 2 (by decide) (by decide) _ (Or.inl rfl)

end RollingFileAppender

end CodeCollect.Log4cxx
