import CodeCollect.Log4cxx.TimeBasedRollover

namespace CodeCollect.Log4cxx

open CodeCollect.Library

variable {Event : Type}

/-- A file holds an event at any place, perhaps inside of archives. -/
def Content.HasEvent (content : Content Event) (event : Event) : Prop :=
  ∃ front : Content Event, (front.record (.event event)).HeldIn content

theorem Content.HasEvent.heldIn {content stored : Content Event} {event : Event}
    (has : content.HasEvent event) (held : content.HeldIn stored) : stored.HasEvent event := by
  obtain ⟨front, there⟩ := has
  exact ⟨front, there.trans held⟩

theorem Content.hasEvent_record (content : Content Event) (event : Event) :
    (content.record (.event event)).HasEvent event :=
  ⟨content, .same⟩

/-- The names change only at whole seconds, and no name ever comes back. -/
structure TimeBasedRollingPolicy.Periods (policy : TimeBasedRollingPolicy) : Prop where
  wholeSeconds : ∀ first second, first / usecPerSec = second / usecPerSec →
    policy.formatFileName first = policy.formatFileName second
  neverRepeats : ∀ first second third, first ≤ second → second ≤ third →
    policy.formatFileName first = policy.formatFileName third →
      policy.formatFileName second = policy.formatFileName first

/-- Behind its suffix of compression a name hides none of the other names. -/
def TimeBasedRollingPolicy.BasesApart (policy : TimeBasedRollingPolicy) : Prop :=
  0 < policy.suffixLength → ∀ first second,
    policy.activeName first ≠ policy.formatFileName second

namespace RollingFileAppender

/-- An event is in the active file of its period, or in the archive of that name. -/
def Filed (state : RollingFileAppender Event) (policy : TimeBasedRollingPolicy)
    (call : AppendCall Event) : Prop :=
  ∃ content, content.HasEvent call.event ∧
    (policy.formatFileName call.now = policy.lastFileName ∧
        state.files state.fileName = some content ∨
      state.files (policy.formatFileName call.now) = some content)

/-- An unchecked reading has no other name, and an archive never takes the name of the active file. -/
def Timely (state : RollingFileAppender Event) (call : AppendCall Event) : Prop :=
  ∀ policy, state.rollingPolicy = .timeBased policy →
    policy.formatFileName call.now ≠ policy.lastFileName →
      policy.nextCheck < call.now ∧
        (0 < policy.suffixLength → state.fileName ≠ policy.lastFileName)

/-- All events so far are filed, and no file of an old period is open any more. -/
structure Filing (policy : TimeBasedRollingPolicy) (latest : Int)
    (calls : List (AppendCall Event)) (state : RollingFileAppender Event) : Prop where
  opened : state.Open
  timed : state.rollingPolicy = .timeBased policy
  triggering : state.triggeringPolicy = .rollingPolicy
  suffix : policy.suffixLength = 0 ∨ policy.suffixLength = 3 ∨ policy.suffixLength = 4
  current : policy.formatFileName latest = policy.lastFileName
  past : ∀ call ∈ calls, call.now ≤ latest
  filed : ∀ call ∈ calls, ∃ content, content.HasEvent call.event ∧
    (policy.formatFileName call.now = policy.lastFileName ∧
        state.files state.fileName = some content ∨
      policy.formatFileName call.now ≠ policy.lastFileName ∧
        policy.formatFileName call.now ≠ state.fileName ∧
        state.files (policy.formatFileName call.now) = some content)

section Step

variable {policy : TimeBasedRollingPolicy} {latest : Int} {calls : List (AppendCall Event)}
  {state : RollingFileAppender Event}

/-- The event that is written last belongs to the active file. -/
theorem Filing.write {call : AppendCall Event} (filing : Filing policy call.now calls state) :
    Filing policy call.now (calls ++ [call]) (state.write (.event call.event)) := by
  obtain ⟨active, found⟩ := Option.ne_none_iff_exists'.mp filing.opened.exists'
  have written : appendRecord state.files state.fileName (.event call.event) state.fileName =
      some (active.record (.event call.event)) := appendRecord_self found
  refine ⟨filing.opened.write _, ?_, ?_, filing.suffix, filing.current, ?_, ?_⟩
  · rw [write_eq state filing.opened.writer]
    exact filing.timed
  · rw [write_eq state filing.opened.writer]
    exact filing.triggering
  · intro other member
    rcases List.mem_append.mp member with earlier | last
    · exact filing.past other earlier
    · rw [List.mem_singleton.mp last]
  · rw [write_eq state filing.opened.writer]
    dsimp only
    intro other member
    rcases List.mem_append.mp member with earlier | last
    · obtain ⟨content, has, ⟨now, here⟩ | ⟨before, away, there⟩⟩ := filing.filed other earlier
      · obtain rfl := Option.some.inj (here.symm.trans found)
        exact ⟨_, has.heldIn (.record _ .same), Or.inl ⟨now, written⟩⟩
      · exact ⟨content, has, Or.inr ⟨before, away, (appendRecord_other away).trans there⟩⟩
    · rw [List.mem_singleton.mp last]
      exact ⟨_, Content.hasEvent_record active call.event, Or.inl ⟨filing.current, written⟩⟩

/-- Time may pass while the name stays the same. -/
theorem Filing.wait (filing : Filing policy latest calls state) {now : Int} (later : latest ≤ now)
    (same : policy.formatFileName now = policy.lastFileName) : Filing policy now calls state :=
  ⟨filing.opened, filing.timed, filing.triggering, filing.suffix, same,
    fun call member => (filing.past call member).trans later, filing.filed⟩

/-- The next check is no matter of the files. -/
theorem Filing.check (filing : Filing policy latest calls state) {now : Int} (later : latest ≤ now)
    (same : policy.formatFileName now = policy.lastFileName) :
    Filing (policy.rolledTo now) now calls
      { state with rollingPolicy := .timeBased (policy.rolledTo now) } := by
  have renamed : (policy.rolledTo now).lastFileName = policy.lastFileName := same
  refine ⟨⟨filing.opened.notClosed, filing.opened.writer, filing.opened.exists'⟩, rfl,
    filing.triggering, filing.suffix, rfl,
    fun call member => (filing.past call member).trans later, ?_⟩
  rw [renamed]
  exact filing.filed

/-- The names of the last period make an archive. -/
theorem Filing.archiveNames (filing : Filing policy latest calls state)
    (basesApart : policy.BasesApart) :
    ArchiveNames policy.suffixLength policy.lastBaseName policy.lastFileName := by
  refine ⟨filing.suffix, fun plain => ?_, fun suffixed => ?_⟩
  · rw [TimeBasedRollingPolicy.lastBaseName, plain, baseName_zero]
  · rw [TimeBasedRollingPolicy.lastBaseName, ← filing.current]
    exact basesApart suffixed latest latest

/-- An archive of an old period is none of the files that a rollover may touch. -/
theorem Filing.archive_away (filing : Filing policy latest calls state) (periods : policy.Periods)
    (basesApart : policy.BasesApart) {now : Int} (later : latest ≤ now) {call : AppendCall Event}
    (member : call ∈ calls) (before : policy.formatFileName call.now ≠ policy.lastFileName) :
    policy.formatFileName call.now ≠ policy.lastBaseName ∧
      policy.formatFileName call.now ≠ policy.activeName now ∧
      policy.formatFileName call.now ≠ policy.formatFileName now := by
  have gone : policy.formatFileName call.now ≠ policy.formatFileName now := by
    intro back
    have between := periods.neverRepeats call.now latest now (filing.past call member) later back
    exact before (between.symm.trans filing.current)
  rcases Nat.eq_zero_or_pos policy.suffixLength with plain | suffixed
  · rw [TimeBasedRollingPolicy.lastBaseName, TimeBasedRollingPolicy.activeName, plain,
      baseName_zero, baseName_zero]
    exact ⟨before, gone, gone⟩
  · refine ⟨?_, (basesApart suffixed now call.now).symm, gone⟩
    rw [TimeBasedRollingPolicy.lastBaseName, ← filing.current]
    exact (basesApart suffixed latest call.now).symm

/-- After a rollover the files of the last period are behind the active one. -/
theorem Filing.rolled (filing : Filing policy latest calls state) (periods : policy.Periods)
    (basesApart : policy.BasesApart) {now : Int} (later : latest ≤ now)
    (changed : policy.formatFileName now ≠ policy.lastFileName)
    {result : RollingFileAppender Event} (opened : result.Open)
    (timed : result.rollingPolicy = .timeBased (policy.rolledTo now))
    (triggering : result.triggeringPolicy = .rollingPolicy)
    {active : Content Event} (found : state.files state.fileName = some active)
    (archive : result.files policy.lastFileName =
      some ((active.record .footer).packed policy.suffixLength))
    (apart : policy.lastFileName ≠ result.fileName)
    (renamed : result.fileName = state.fileName ∨ result.fileName = policy.activeName now)
    (others : ∀ name, name ≠ state.fileName → name ≠ policy.lastBaseName →
      name ≠ policy.lastFileName → name ≠ policy.activeName now →
        result.files name = state.files name) :
    Filing (policy.rolledTo now) now calls result := by
  refine ⟨opened, timed, triggering, filing.suffix, rfl,
    fun call member => (filing.past call member).trans later, ?_⟩
  intro call member
  obtain ⟨content, has, ⟨same, here⟩ | ⟨before, away, there⟩⟩ := filing.filed call member
  · obtain rfl := Option.some.inj (here.symm.trans found)
    refine ⟨_, has.heldIn ((Content.HeldIn.same.record .footer).trans
      (Content.heldIn_packed _ policy.suffixLength)), Or.inr ⟨?_, ?_, ?_⟩⟩
    · exact fun back => changed (back.symm.trans same)
    · exact same ▸ apart
    · exact (congrArg result.files same).trans archive
  · obtain ⟨awayFromBase, awayFromActive, gone⟩ := filing.archive_away periods basesApart later member
      before
    refine ⟨content, has, Or.inr ⟨gone, ?_, ?_⟩⟩
    · rcases renamed with same | same
      · rw [same]
        exact away
      · rw [same]
        exact awayFromActive
    · exact (others _ away awayFromBase before awayFromActive).trans there

theorem Filing.rollover (filing : Filing policy latest calls state) (periods : policy.Periods)
    (basesApart : policy.BasesApart) {now : Int} (later : latest ≤ now)
    (changed : policy.formatFileName now ≠ policy.lastFileName)
    (apart : 0 < policy.suffixLength → state.fileName ≠ policy.lastFileName)
    {fails : FileOperation → Bool} (never : ∀ operation, fails operation = false) :
    Filing (policy.rolledTo now) now calls (state.rollover now fails) := by
  have names := filing.archiveNames basesApart
  obtain ⟨active, found⟩ := Option.ne_none_iff_exists'.mp filing.opened.exists'
  by_cases follows : state.fileName = policy.lastBaseName
  · have next : policy.activeName now ≠ policy.lastFileName := by
      rcases Nat.eq_zero_or_pos policy.suffixLength with plain | suffixed
      · rw [TimeBasedRollingPolicy.activeName, plain, baseName_zero]
        exact changed
      · rw [← filing.current]
        exact basesApart suffixed now latest
    obtain ⟨opened, renamed, timed, triggering, archive, others⟩ := rollover_leaves_archives
      fails filing.opened filing.timed changed follows names next found
      fun _ => ⟨never _, never _⟩
    refine filing.rolled periods basesApart later changed opened timed
      (triggering.trans filing.triggering) found archive ?_ (Or.inr renamed)
      fun name away _ => others name away
    rw [renamed]
    exact next.symm
  · obtain ⟨files, result, archive, others⟩ := rollover_moves_archives fails
      filing.opened filing.timed changed follows names found (never _)
      fun _ => ⟨never _, never _⟩
    have away : policy.lastFileName ≠ state.fileName := by
      rcases Nat.eq_zero_or_pos policy.suffixLength with plain | suffixed
      · rw [← names.plain plain]
        exact Ne.symm follows
      · exact (apart suffixed).symm
    rw [result]
    refine filing.rolled periods basesApart later changed
      (open_reopen (by exact filing.opened.notClosed) _ _) rfl filing.triggering found
      ((reopened_other _ _ away).trans archive) away (Or.inl rfl) ?_
    intro name awayFromActive awayFromBase awayFromLast _
    exact (reopened_other _ _ awayFromActive).trans
      (others name awayFromActive awayFromBase awayFromLast)

/-- Each timely call of `append` files its event. -/
theorem Filing.append (filing : Filing policy latest calls state) (periods : policy.Periods)
    (basesApart : policy.BasesApart) (call : AppendCall Event) (later : latest ≤ call.now) (timely : Timely state call)
    (never : ∀ operation, call.fails operation = false) :
    ∃ rolled : TimeBasedRollingPolicy, rolled.formatFileName = policy.formatFileName ∧
      rolled.suffixLength = policy.suffixLength ∧
      Filing rolled call.now (calls ++ [call]) (state.append call) := by
  have triggering : state.isTriggeringEvent call = decide (call.now > policy.nextCheck) := by
    rw [isTriggeringEvent, filing.triggering, filing.timed]
    rfl
  cases triggers : state.isTriggeringEvent call with
  | false =>
      have unchanged : policy.formatFileName call.now = policy.lastFileName := by
        by_contra changed
        have missed := (timely policy filing.timed changed).1
        rw [triggering, decide_eq_false_iff_not] at triggers
        exact triggers missed
      rw [(filing.opened.append_idle call triggers).1, ← write_eq state filing.opened.writer]
      exact ⟨policy, rfl, rfl, (filing.wait later unchanged).write⟩
  | true =>
      obtain ⟨active, found⟩ := Option.ne_none_iff_exists'.mp filing.opened.exists'
      rw [(filing.opened.append_rolls call triggers found).1]
      refine ⟨policy.rolledTo call.now, rfl, rfl, ?_⟩
      by_cases changed : policy.formatFileName call.now = policy.lastFileName
      · rw [rollover_unchanged filing.timed call.now call.fails changed]
        exact (filing.check later changed).write
      · exact (filing.rollover periods basesApart later changed
          (timely policy filing.timed changed).2 never).write

end Step

/-- The activation has opened a file for the period of the start. -/
structure StartsTimed (appender start : RollingFileAppender Event)
    (policy : TimeBasedRollingPolicy) (begin : Int) : Prop where
  fresh : appender.writer = none
  notClosed : appender.closed = false
  activated : ∃ activated, appender.activateOptions activated begin = some start
  timed : start.rollingPolicy = .timeBased policy
  triggering : appender.triggeringPolicy = .rollingPolicy
  named : start.fileName ≠ []

theorem StartsTimed.filing {appender start : RollingFileAppender Event}
    {policy : TimeBasedRollingPolicy} {begin : Int}
    (starts : StartsTimed appender start policy begin) : Filing policy begin [] start := by
  obtain ⟨activated, result⟩ := starts.activated
  obtain ⟨accepted, checked, policySame, _, triggering, opened⟩ :=
    activateOptions_spec starts.fresh starts.notClosed result
  have timed := policySame.symm.trans starts.timed
  cases configured : appender.rollingPolicy with
  | fixedWindow other =>
      rw [configured, RollingPolicy.activateOptions, Option.map_eq_some_iff] at checked
      obtain ⟨bounded, _, rfl⟩ := checked
      exact absurd timed (by simp [RollingPolicy.initializePolicy])
  | timeBased other =>
      rw [configured, RollingPolicy.activateOptions] at checked
      obtain rfl := Option.some.inj checked
      rw [RollingPolicy.initializePolicy, TimeBasedRollingPolicy.initializePolicy] at timed
      obtain rfl := RollingPolicy.timeBased.inj timed
      refine ⟨(opened starts.named).1, starts.timed, triggering.trans starts.triggering, ?_, rfl,
        fun call impossible => absurd impossible List.not_mem_nil,
        fun call impossible => absurd impossible List.not_mem_nil⟩
      exact (archiveNames_compressedLength (other.formatFileName activated)).suffix

/-- In a timely run whose operations work every event is in the file of its period. -/
theorem events_filed {appender start : RollingFileAppender Event}
    {policy : TimeBasedRollingPolicy} {begin : Int}
    (starts : StartsTimed appender start policy begin) (periods : policy.Periods)
    (basesApart : policy.BasesApart) {calls : List (AppendCall Event)} {state : RollingFileAppender Event}
    {trace : List (RolloverObservation Event)}
    (ran : (machine start).run calls = some (state, trace))
    (ordered : (begin :: calls.map AppendCall.now).Pairwise (· ≤ ·))
    (never : ∀ call ∈ calls, ∀ operation, call.fails operation = false)
    (timely : (machine start).Along Timely calls) :
    ∃ current, state.rollingPolicy = .timeBased current ∧
      current.formatFileName = policy.formatFileName ∧
      ∀ call ∈ calls, Filed state current call := by
  have filing := Machine.run_history (machine start)
    (fun state call => Timely state call ∧ ∀ operation, call.fails operation = false)
    (fun calls state _ => (begin :: calls.map AppendCall.now).Pairwise (· ≤ ·) →
      ∃ (current : TimeBasedRollingPolicy) (latest : Int),
        current.formatFileName = policy.formatFileName ∧
        current.suffixLength = policy.suffixLength ∧
        latest ∈ begin :: calls.map AppendCall.now ∧ Filing current latest calls state)
    (fun _ => ⟨policy, begin, rfl, rfl, List.mem_cons_self .., starts.filing⟩)
    (by
      intro earlier before past call _ _ _ filing good taken ordered
      obtain ⟨rfl, rfl⟩ := Prod.mk.inj (Option.some.inj taken)
      rw [List.map_append, ← List.cons_append, List.pairwise_append] at ordered
      obtain ⟨current, latest, names, suffix, seen, filing⟩ := filing ordered.1
      have periods : current.Periods := by
        constructor <;> rw [names]
        · exact periods.wholeSeconds
        · exact periods.neverRepeats
      have basesApart : current.BasesApart := by
        intro suffixed first second
        rw [TimeBasedRollingPolicy.activeName, names, suffix]
        exact basesApart (suffix ▸ suffixed) first second
      obtain ⟨next, nextNames, nextSuffix, filing⟩ := filing.append periods basesApart call
        (ordered.2.2 latest seen call.now (List.mem_singleton.mpr rfl)) good.1 good.2
      exact ⟨next, call.now, nextNames.trans names, nextSuffix.trans suffix, by simp, filing⟩)
    ran (fun earlier call later split state past reached =>
      ⟨timely earlier call later split state past reached, never call (by simp [split])⟩)
  obtain ⟨current, latest, names, _, _, filing⟩ := filing ordered
  refine ⟨current, filing.timed, names, fun call member => ?_⟩
  obtain ⟨content, has, here | there⟩ := filing.filed call member
  · exact ⟨content, has, Or.inl here⟩
  · exact ⟨content, has, Or.inr there.2.2⟩

/-- The name changes one second after the start. -/
def secondNames (n : Int) : LogString := if n < 1000000 then ['a'] else ['b']

def secondAppender : RollingFileAppender Unit where
  fileName := []
  fileAppend := false
  utf16 := false
  closed := false
  writer := none
  rollingPolicy := .timeBased ⟨secondNames, 0, [], 0⟩
  triggeringPolicy := .rollingPolicy
  files := fun _ => none

def secondPolicy : TimeBasedRollingPolicy := ⟨secondNames, 1000000, ['a'], 0⟩

def secondStart : RollingFileAppender Unit :=
  { secondAppender with fileName := ['a'], rollingPolicy := .timeBased secondPolicy }.reopen
    (fun _ => none) false

theorem secondStart_starts : StartsTimed secondAppender secondStart secondPolicy 0 where
  fresh := rfl
  notClosed := rfl
  activated := ⟨0, rfl⟩
  timed := rfl
  triggering := rfl
  named := List.cons_ne_nil _ _

theorem secondPolicy_periods : secondPolicy.Periods := by
  have name : secondPolicy.formatFileName = secondNames := rfl
  constructor <;> rw [name]
  · intro first second same
    rw [TimeBasedRollingPolicy.usecPerSec] at same
    rw [secondNames, secondNames]
    split <;> split <;> first | rfl | omega
  · intro first second third before after
    rw [secondNames, secondNames, secondNames]
    split <;> split <;> split <;> simp <;> omega

/-- One microsecond behind the change of the name the rollover takes place. -/
theorem events_filed_second :
    ∃ current, (secondStart.append ⟨(), 1000001, false, fun _ => false⟩).rollingPolicy =
        .timeBased current ∧ current.formatFileName = secondNames ∧
      ∀ call ∈ [(⟨(), 1000001, false, fun _ => false⟩ : AppendCall Unit)],
        Filed (secondStart.append ⟨(), 1000001, false, fun _ => false⟩) current call := by
  refine events_filed secondStart_starts secondPolicy_periods
    (fun suffixed => absurd suffixed (Nat.lt_irrefl 0)) (run_single secondStart _) (by decide)
    (fun _ member _ => by rw [List.mem_singleton.mp member])
    (Machine.along_single fun policy timed _ => ?_)
  obtain rfl := RollingPolicy.timeBased.inj timed
  exact ⟨by decide, fun suffixed => absurd suffixed (Nat.lt_irrefl 0)⟩

/-- At the change of the name itself the event goes to the file of the last period. -/
theorem boundary_misfiled :
    ∃ calls state trace, StartsTimed secondAppender secondStart secondPolicy 0 ∧
      secondPolicy.Periods ∧ (machine secondStart).run calls = some (state, trace) ∧
      ((0 : Int) :: calls.map AppendCall.now).Pairwise (· ≤ ·) ∧
      (∀ call ∈ calls, ∀ operation, call.fails operation = false) ∧
      ∀ current, state.rollingPolicy = .timeBased current →
        ¬ ∀ call ∈ calls, Filed state current call := by
  refine ⟨[⟨(), 1000000, false, fun _ => false⟩], _, _, secondStart_starts, secondPolicy_periods,
    run_single secondStart _, by decide, fun _ member _ => by rw [List.mem_singleton.mp member],
    fun current timed filed => ?_⟩
  obtain rfl : secondPolicy = current := RollingPolicy.timeBased.inj timed
  obtain ⟨content, _, ⟨same, _⟩ | found⟩ := filed _ (List.mem_singleton.mpr rfl)
  · exact absurd same (by decide)
  · have missing : (secondStart.append ⟨(), 1000000, false, fun _ => false⟩).files ['b'] =
        none := rfl
    exact Option.some_ne_none _ (found.symm.trans missing)

end RollingFileAppender

namespace TimeBasedRollingPolicy

/-- From 1970 on a new name stays unnoticed at the first instant of its second only. -/
theorem Periods.unnoticed {policy : TimeBasedRollingPolicy} (periods : policy.Periods)
    {checked now : Int} (start : 0 ≤ checked) (later : checked ≤ now)
    (next : policy.nextCheck = nextCheckAfter checked)
    (current : policy.formatFileName checked = policy.lastFileName)
    (changed : policy.formatFileName now ≠ policy.lastFileName)
    (unnoticed : policy.isTriggeringEvent now = false) : now = policy.nextCheck := by
  rw [isTriggeringEvent, decide_eq_false_iff_not, next, nextCheckAfter,
    Int.tdiv_eq_ediv_of_nonneg start, usecPerSec] at unnoticed
  rw [next, nextCheckAfter, Int.tdiv_eq_ediv_of_nonneg start, usecPerSec]
  by_contra different
  refine changed ((periods.wholeSeconds now checked ?_).trans current)
  rw [usecPerSec]
  omega

end TimeBasedRollingPolicy

end CodeCollect.Log4cxx
