import CodeCollect.Log4cxx.FixedWindowKept
import CodeCollect.Log4cxx.TimeBasedKept

namespace CodeCollect.Log4cxx

open CodeCollect.Library

namespace RollingFileAppender

variable {Event : Type}

/-- This is an appender that has opened a file in its activation. -/
structure Starts (appender start : RollingFileAppender Event) : Prop where
  fresh : appender.writer = none
  notClosed : appender.closed = false
  activated : ∃ activated initialized,
    appender.activateOptions activated initialized = some start
  named : start.fileName ≠ []

/-- A rollover that this call triggers is safe for the policy of the appender. -/
structure SafeCall (state : RollingFileAppender Event) (call : AppendCall Event) : Prop where
  fixedWindow : state.isTriggeringEvent call = true → ∀ policy,
    state.rollingPolicy = .fixedWindow policy →
      FixedWindowRollingPolicy.suffixLengthOf policy.archiveName ≠ none →
        0 ≤ policy.maxIndex → policy.Safe call.fails state
  timeBased : state.isTriggeringEvent call = true → ∀ policy,
    state.rollingPolicy = .timeBased policy →
      policy.formatFileName call.now ≠ policy.lastFileName →
        policy.Safe call.now call.fails state

/-- The last event is in the open active file, and no content of an active file has been lost. -/
structure KeepsEvents (start : RollingFileAppender Event) (calls : List (AppendCall Event))
    (state : RollingFileAppender Event) (trace : List (RolloverObservation Event)) : Prop where
  opened : state.Open
  written : ∀ call ∈ calls.getLast?, ∃ content : Content Event,
    state.files state.fileName = some (content.record (.event call.event))
  kept : ∀ earlier later, calls = earlier ++ later → ∀ before past content,
    (machine start).run earlier = some (before, past) →
      before.files before.fileName = some content →
        content.StoredIn state.files ∨
          ∃ dropped, .dropped dropped ∈ trace ∧ content.HeldIn dropped

/-- Each policy keeps the contents in its own files. -/
def Keeping (state : RollingFileAppender Event) (content : Content Event) : Prop :=
  match state.rollingPolicy with
  | .fixedWindow policy => policy.Keeping state content
  | .timeBased _ => content.StoredIn state.files

/-- The time based policies have the length of a suffix of compression. -/
def Suffixed (state : RollingFileAppender Event) : Prop :=
  ∀ policy, state.rollingPolicy = .timeBased policy →
    policy.suffixLength = 0 ∨ policy.suffixLength = 3 ∨ policy.suffixLength = 4

theorem Starts.opened {appender start : RollingFileAppender Event}
    (starts : Starts appender start) : start.Open ∧ start.Suffixed := by
  obtain ⟨activated, initialized, result⟩ := starts.activated
  obtain ⟨accepted, checked, policySame, _, _, opened⟩ :=
    activateOptions_spec starts.fresh starts.notClosed result
  refine ⟨(opened starts.named).1, fun policy timed => ?_⟩
  rw [policySame] at timed
  cases configured : appender.rollingPolicy with
  | fixedWindow other =>
      rw [configured, RollingPolicy.activateOptions, Option.map_eq_some_iff] at checked
      obtain ⟨bounded, _, rfl⟩ := checked
      exact absurd timed (by simp [RollingPolicy.initializePolicy])
  | timeBased other =>
      rw [configured, RollingPolicy.activateOptions] at checked
      obtain rfl := Option.some.inj checked
      rw [RollingPolicy.initializePolicy, TimeBasedRollingPolicy.initializePolicy] at timed
      obtain rfl := RollingPolicy.timeBased.inj timed
      exact (archiveNames_compressedLength (other.formatFileName activated)).suffix

section Step

variable {state : RollingFileAppender Event} {call : AppendCall Event}

/-- What a policy keeps is stored. -/
theorem Keeping.storedIn {content : Content Event} (keeping : state.Keeping content) :
    content.StoredIn state.files := by
  rw [Keeping] at keeping
  cases configured : state.rollingPolicy with
  | fixedWindow policy =>
      rw [configured] at keeping
      rcases keeping with ⟨stored, found, held⟩ | ⟨i, _, stored, found, held⟩
      · exact ⟨_, stored, found, held⟩
      · exact ⟨_, stored, found, held⟩
  | timeBased policy =>
      rw [configured] at keeping
      exact keeping

/-- The active file is always kept. -/
theorem Keeping.active {content : Content Event}
    (found : state.files state.fileName = some content) : state.Keeping content := by
  rw [Keeping]
  cases state.rollingPolicy with
  | fixedWindow policy => exact Or.inl ⟨content, found, .same⟩
  | timeBased policy => exact ⟨_, content, found, .same⟩

/-- The last record of the active file is written behind all contents. -/
theorem Open.write_keeps (opened : state.Open) (text : Record Event) :
    (∃ content : Content Event, (state.write text).files (state.write text).fileName =
        some (content.record text)) ∧
      ∀ content, state.Keeping content → (state.write text).Keeping content := by
  obtain ⟨active, found⟩ := Option.ne_none_iff_exists'.mp opened.exists'
  rw [write_eq state opened.writer]
  refine ⟨⟨active, appendRecord_self found⟩, fun content keeping => ?_⟩
  rw [Keeping] at keeping ⊢
  dsimp only
  cases configured : state.rollingPolicy with
  | fixedWindow policy =>
      rw [configured] at keeping
      exact keeping.write text
  | timeBased policy =>
      rw [configured] at keeping
      exact keeping.appendRecord state.fileName text

/-- A safe rollover keeps the appender open, and only a purge may drop a content. -/
theorem SafeCall.rollover_keeps (safe : state.SafeCall call) (opened : state.Open)
    (suffixed : state.Suffixed) (triggers : state.isTriggeringEvent call = true) :
    ((state.rollover call.now call.fails).Open ∧
        (state.rollover call.now call.fails).Suffixed) ∧
      ∀ content, state.Keeping content →
        (state.rollover call.now call.fails).Keeping content ∨
          ∃ dropped, state.dropped call.fails = some dropped ∧ content.HeldIn dropped := by
  cases configured : state.rollingPolicy with
  | fixedWindow policy =>
      obtain ⟨⟨reopened, _, fixed⟩, kept⟩ := FixedWindowRollingPolicy.keeping_rollover opened
        configured call.now (safe.fixedWindow triggers policy configured)
      refine ⟨⟨reopened, fun other timed => ?_⟩, ?_⟩
      · rw [fixed] at timed
        exact absurd timed (by simp)
      · intro content keeping
        rw [Keeping, configured] at keeping
        rw [Keeping, fixed, dropped, configured]
        exact kept content keeping
  | timeBased policy =>
      have rolled := keeps_rollover opened configured (suffixed policy configured)
        (safe.timeBased triggers policy configured)
      refine ⟨⟨rolled.opened, fun other timed => ?_⟩, ?_⟩
      · rw [rolled.timed] at timed
        obtain rfl := RollingPolicy.timeBased.inj timed
        exact suffixed policy configured
      · intro content keeping
        rw [Keeping, configured] at keeping
        rw [Keeping, rolled.timed]
        exact Or.inl (rolled.stored content keeping)

/-- After a safe call the event is in the open active file. -/
theorem SafeCall.append_keeps (safe : state.SafeCall call) (opened : state.Open)
    (suffixed : state.Suffixed) :
    ((state.append call).Open ∧ (state.append call).Suffixed) ∧
      (∃ content : Content Event, (state.append call).files (state.append call).fileName =
        some (content.record (.event call.event))) ∧
      ∀ content, state.Keeping content →
        (state.append call).Keeping content ∨
          ∃ dropped, .dropped dropped ∈ state.observe call ∧ content.HeldIn dropped := by
  have unchanged : ∀ (other : RollingFileAppender Event) text, other.Open → other.Suffixed →
      (other.write text).Suffixed := by
    intro other text opened suffixed
    rw [write_eq other opened.writer]
    exact suffixed
  cases triggers : state.isTriggeringEvent call with
  | false =>
      rw [(opened.append_idle call triggers).1, ← write_eq state opened.writer]
      obtain ⟨written, keeps⟩ := opened.write_keeps (.event call.event)
      exact ⟨⟨opened.write _, unchanged state _ opened suffixed⟩, written,
        fun content keeping => Or.inl (keeps content keeping)⟩
  | true =>
      obtain ⟨active, found⟩ := Option.ne_none_iff_exists'.mp opened.exists'
      obtain ⟨reopened, rolled⟩ := safe.rollover_keeps opened suffixed triggers
      obtain ⟨written, keeps⟩ := reopened.1.write_keeps (.event call.event)
      obtain ⟨next, seen⟩ := opened.append_rolls call triggers found
      rw [next, seen]
      refine ⟨⟨reopened.1.write _, unchanged _ _ reopened.1 reopened.2⟩, written, ?_⟩
      intro content keeping
      refine (rolled content keeping).imp (keeps content) ?_
      rintro ⟨dropped, top, held⟩
      exact ⟨dropped, List.mem_cons_of_mem _ (by rw [top]; exact List.mem_singleton_self _), held⟩

end Step

/-- What has been in an active file is kept so far, unless a purge has dropped it. -/
def Remembers (start : RollingFileAppender Event) (calls : List (AppendCall Event))
    (state : RollingFileAppender Event) (trace : List (RolloverObservation Event)) : Prop :=
  ∀ earlier later, calls = earlier ++ later → ∀ before past content,
    (machine start).run earlier = some (before, past) →
      before.files before.fileName = some content →
        state.Keeping content ∨ ∃ dropped, .dropped dropped ∈ trace ∧ content.HeldIn dropped

/-- The history of the active files grows by the file that is active after the call. -/
theorem Remembers.append {start before : RollingFileAppender Event}
    {calls : List (AppendCall Event)} {call : AppendCall Event}
    {past : List (RolloverObservation Event)} (remembers : Remembers start calls before past)
    (ran : (machine start).run calls = some (before, past))
    (keeps : ∀ content, before.Keeping content →
      (before.append call).Keeping content ∨
        ∃ dropped, .dropped dropped ∈ before.observe call ∧ content.HeldIn dropped) :
    Remembers start (calls ++ [call]) (before.append call) (past ++ before.observe call) := by
  intro earlier later split
  rcases List.eq_nil_or_concat later with rfl | ⟨rest, last, rfl⟩
  · rw [List.append_nil] at split
    subst split
    intro reached trace content reaches found
    obtain ⟨other, earlier, seen, first, stepped, rfl⟩ := Machine.run_concat.mp reaches
    obtain ⟨rfl, rfl⟩ := Prod.mk.inj (Option.some.inj (first.symm.trans ran))
    obtain ⟨rfl, rfl⟩ := Prod.mk.inj (Option.some.inj stepped)
    exact Or.inl (Keeping.active found)
  · rw [List.concat_eq_append, ← List.append_assoc] at split
    obtain ⟨rfl, _⟩ := List.append_inj' split rfl
    intro reached trace content reaches found
    rcases remembers earlier rest rfl reached trace content reaches found with
      keeping | ⟨dropped, seen, held⟩
    · refine (keeps content keeping).imp_right ?_
      rintro ⟨dropped, seen, held⟩
      exact ⟨dropped, List.mem_append_right _ seen, held⟩
    · exact Or.inr ⟨dropped, List.mem_append_left _ seen, held⟩

/-- Safe rollovers neither silence the appender nor lose events. -/
theorem events_kept {appender start : RollingFileAppender Event} (starts : Starts appender start)
    {calls : List (AppendCall Event)} {state : RollingFileAppender Event}
    {trace : List (RolloverObservation Event)}
    (ran : (machine start).run calls = some (state, trace))
    (safe : (machine start).Along SafeCall calls) : KeepsEvents start calls state trace := by
  obtain ⟨opened, suffixed⟩ := starts.opened
  have holds := Machine.run_history (machine start) SafeCall
    (fun calls state trace => (state.Open ∧ state.Suffixed) ∧
      (∀ call ∈ calls.getLast?, ∃ content : Content Event,
        state.files state.fileName = some (content.record (.event call.event))) ∧
      Remembers start calls state trace)
    (by
      refine ⟨⟨opened, suffixed⟩, fun call impossible => absurd impossible (by simp), ?_⟩
      intro earlier later split before past content ran found
      obtain ⟨rfl, rfl⟩ := List.append_eq_nil_iff.mp split.symm
      obtain ⟨rfl, rfl⟩ := Prod.mk.inj (Option.some.inj ran)
      exact Or.inl (Keeping.active found))
    (by
      intro calls before past call state seen ran holds safe stepped
      obtain ⟨⟨opened, suffixed⟩, _, remembers⟩ := holds
      obtain ⟨rfl, rfl⟩ := Prod.mk.inj (Option.some.inj stepped)
      obtain ⟨kind, written, keeps⟩ := safe.append_keeps opened suffixed
      refine ⟨kind, fun last member => ?_, remembers.append ran keeps⟩
      rw [List.getLast?_concat, Option.mem_some_iff] at member
      exact member ▸ written)
    ran safe
  obtain ⟨kind, written, remembers⟩ := holds
  refine ⟨kind.1, written, fun earlier later split before past content reaches found => ?_⟩
  exact (remembers earlier later split before past content reaches found).imp_left
    Keeping.storedIn

/-- The names of this pattern are `a.1.gz`, `a.2.gz` and so on. -/
def compressedPattern : FileNamePattern :=
  [(.literal ['a', '.'], .getDefault), (.integer, .getDefault),
    (.literal ['.', 'g', 'z'], .getDefault)]

/-- This appender has the explicit active file `a` and a window of two compressed archives. -/
def compressedAppender : RollingFileAppender Unit where
  fileName := ['a']
  fileAppend := false
  utf16 := false
  closed := false
  writer := none
  rollingPolicy := .fixedWindow ⟨1, 2, compressedPattern, false⟩
  triggeringPolicy := .other
  files := fun _ => none

def compressedStart : RollingFileAppender Unit :=
  { compressedAppender with
    rollingPolicy := .fixedWindow ⟨1, 2, compressedPattern, true⟩ }.reopen (fun _ => none) false

theorem compressed_starts : Starts compressedAppender compressedStart where
  fresh := rfl
  notClosed := rfl
  activated := ⟨0, 0, rfl⟩
  named := List.cons_ne_nil _ _

theorem compressedPattern_injOn :
    Set.InjOn compressedPattern.formatFileName (Set.Icc 1 (max 1 2)) := by
  intro i iInside j jInside same
  rw [Set.mem_Icc] at iInside jInside
  obtain rfl | rfl : i = 1 ∨ i = 2 := by omega
  all_goals obtain rfl | rfl : j = 1 ∨ j = 2 := by omega
  all_goals
    revert same
    decide +kernel

/-- A rollover whose operations work keeps the event in the archive `a.1.gz`. -/
theorem events_kept_compressed :
    KeepsEvents compressedStart [⟨(), 0, true, fun _ => false⟩]
      (compressedStart.append ⟨(), 0, true, fun _ => false⟩)
      (compressedStart.observe ⟨(), 0, true, fun _ => false⟩) := by
  refine events_kept compressed_starts (run_single _ _) (Machine.along_single ?_)
  refine ⟨fun _ policy fixed _ _ => ?_, fun _ policy timed => absurd timed (by simp [machine,
    compressedStart, reopen])⟩
  obtain rfl := RollingPolicy.fixedWindow.inj fixed
  refine ⟨compressedPattern_injOn, ?_, Or.inr ⟨Or.inl (by decide), fun _ => ⟨rfl, rfl⟩⟩⟩
  intro i inside _ ofI
  have lower : 1 ≤ i := inside.1
  have upper : i ≤ 2 := inside.2
  obtain rfl | rfl : i = 1 ∨ i = 2 := by omega
  · rcases ofI with full | base
    · exact absurd full (by decide +kernel)
    · exact absurd base (by decide +kernel)
  · rcases ofI with full | base
    · exact absurd full (by decide +kernel)
    · exact absurd base (by decide +kernel)

/-- A child that does not start leaves the appender without a writer. -/
theorem unstarted_silences :
    ∃ calls state trace, (machine compressedStart).run calls = some (state, trace) ∧
      ¬ KeepsEvents compressedStart calls state trace := by
  refine ⟨_, _, _, run_single compressedStart ⟨(), 0, true, fun operation =>
    operation matches .startProcess ..⟩, fun keeps => ?_⟩
  have opened := keeps.opened.writer
  revert opened
  decide +kernel

end RollingFileAppender

end CodeCollect.Log4cxx
