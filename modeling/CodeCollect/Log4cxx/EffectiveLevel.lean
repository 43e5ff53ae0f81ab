import CodeCollect.Log4cxx.HierarchyParents

namespace CodeCollect.Log4cxx.Hierarchy

open CodeCollect.Library

/-- The callers of a repository make these calls. -/
inductive Call where
  | getLogger (name : LogString)
  | setLevel (ptr : LoggerPtr) (level : Option Level)
  | resetConfiguration

def call (self : Hierarchy) : Call → Option Hierarchy
  | .getLogger name => self.getLogger name
  | .setLevel ptr level => some (self.setLevel ptr level)
  | .resetConfiguration => some self.resetConfiguration

def calls (self : Hierarchy) (sequence : List Call) : Option Hierarchy := sequence.foldlM call self

/-- Parents are above their children, and the root logger has a level and no parent. -/
structure Rooted (tree : Hierarchy) : Prop where
  sound : tree.Sound
  level : tree.root.level ≠ none
  parent : tree.root.parent = none
  leads : ∀ (name : LogString) (logger : Logger), tree.loggers[name]? = some logger →
    ∀ above, logger.parent = some (.named above) → above ∈ tree.loggers ∧ Above '.' above name

theorem create_rooted : create.Rooted where
  sound := create_sound
  level := Option.some_ne_none _
  parent := rfl
  leads name logger found := absurd found (by simp [create])

/-- The loggers of both trees have the same names and the same parents. -/
structure SameLinks (before after : Hierarchy) : Prop where
  loggers : ∀ name : LogString, (after.loggers[name]?).map (fun logger => (logger.name, logger.parent)) =
    (before.loggers[name]?).map fun logger => (logger.name, logger.parent)
  provisionNodes : after.provisionNodes = before.provisionNodes
  root : after.root.parent = before.root.parent

namespace SameLinks

variable {before after : Hierarchy} (same : SameLinks before after)

include same

theorem old {name : LogString} {logger : Logger} (found : after.loggers[name]? = some logger) :
    ∃ old, before.loggers[name]? = some old ∧ old.name = logger.name ∧
      old.parent = logger.parent := by
  have links := same.loggers name
  rw [found] at links
  obtain ⟨old, oldFound, equal⟩ := Option.map_eq_some_iff.mp links.symm
  exact ⟨old, oldFound, (Prod.mk.inj equal).1, (Prod.mk.inj equal).2⟩

theorem mem_iff (name : LogString) : name ∈ after.loggers ↔ name ∈ before.loggers := by
  have absent := congrArg (· = none) (same.loggers name)
  simp only [Option.map_eq_none_iff] at absent
  rw [LogMap.mem_iff, LogMap.mem_iff, ne_eq, ne_eq, absent]

theorem waiting (name : LogString) : after.waiting name = before.waiting name := by
  rw [Hierarchy.waiting, same.provisionNodes, Hierarchy.waiting]

theorem sound (sound : before.Sound) : after.Sound where
  plain name member := sound.plain name ((same.mem_iff name).mp member)
  names name logger found := by
    obtain ⟨old, oldFound, named, _⟩ := same.old found
    rw [← named, sound.names name old oldFound]
  parents name logger found := by
    obtain ⟨old, oldFound, _, linked⟩ := same.old found
    rw [← linked]
    exact sound.parents name old oldFound
  waits above name member := by
    rw [same.mem_iff, same.mem_iff]
    exact sound.waits above name (same.waiting above ▸ member)
  complete above name member found absent deeper := by
    rw [same.waiting]
    exact sound.complete above name ((same.mem_iff name).mp member) found
      (fun inside => absent ((same.mem_iff above).mpr inside))
      fun between inside => deeper between ((same.mem_iff between).mpr inside)

theorem rooted (rooted : before.Rooted) (level : after.root.level ≠ none) : after.Rooted where
  sound := same.sound rooted.sound
  level := level
  parent := same.root.trans rooted.parent
  leads name logger found above linked := by
    obtain ⟨old, oldFound, _, parent⟩ := same.old found
    rw [same.mem_iff]
    exact rooted.leads name old oldFound above (parent.trans linked)

end SameLinks

theorem setLevel_rooted {tree : Hierarchy} (rooted : tree.Rooted) (ptr : LoggerPtr)
    (level : Option Level) : (tree.setLevel ptr level).Rooted := by
  cases ptr with
  | root =>
      cases level with
      | none => exact rooted
      | some level =>
          have same : SameLinks tree (tree.setLevel .root (some level)) :=
            ⟨fun _ => rfl, rfl, rfl⟩
          exact same.rooted rooted (Option.some_ne_none level)
  | named name =>
      have same : SameLinks tree (tree.setLevel (.named name) level) := by
        refine ⟨fun other => ?_, rfl, rfl⟩
        rw [setLevel, LogMap.modify_get]
        split
        · exact Option.map_map ..
        · rfl
      exact same.rooted rooted rooted.level

/-- The reset clears all levels but the one of the root logger. -/
theorem resetConfiguration_rooted {tree : Hierarchy} (rooted : tree.Rooted) :
    tree.resetConfiguration.Rooted := by
  have same : SameLinks tree tree.resetConfiguration := by
    refine ⟨fun other => ?_, rfl, rfl⟩
    rw [resetConfiguration, LogMap.map_get, shutdown, LogMap.map_get, Option.map_map,
      Option.map_map]
    rfl
  exact same.rooted rooted (Option.some_ne_none _)

/-- A new logger is above all loggers that it takes over. -/
theorem getLogger_rooted {tree : Hierarchy} (rooted : tree.Rooted) {name : LogString}
    (plain : name[0]? ≠ some '.') : ∃ result, tree.getLogger name = some result ∧ result.Rooted := by
  by_cases known : name ∈ tree.loggers
  · exact ⟨tree, getLogger_known tree name known, rooted⟩
  · obtain ⟨result, run, extended, sound⟩ := getLogger_new tree name rooted.sound plain known
    refine ⟨result, run, sound, extended.root ▸ rooted.level, extended.root ▸ rooted.parent, ?_⟩
    intro other logger found above linked
    rw [extended.mem_iff]
    by_cases same : other = name
    · obtain ⟨parent, own, leads⟩ := extended.own
      rw [same, own] at found
      rw [← Option.some.inj found] at linked
      obtain rfl := Option.some.inj linked
      exact ⟨Or.inr leads.1, same ▸ leads.2.1⟩
    · rw [extended.others other same, Option.map_eq_some_iff] at found
      obtain ⟨old, oldFound, rfl⟩ := found
      by_cases adopted : other ∈ tree.waiting name ∧ HangsAbove name old
      · rw [relinked, if_pos adopted] at linked
        obtain rfl := LoggerPtr.named.inj (Option.some.inj linked)
        exact ⟨Or.inl rfl, (rooted.sound.waits name other adopted.1).2.2⟩
      · rw [relinked, if_neg adopted] at linked
        obtain ⟨present, found⟩ := rooted.leads other old oldFound above linked
        exact ⟨Or.inr present, found⟩

theorem call_rooted {tree : Hierarchy} (rooted : tree.Rooted) (call : Call)
    (plain : ∀ name, call = .getLogger name → name[0]? ≠ some '.') :
    ∃ result, tree.call call = some result ∧ result.Rooted := by
  cases call with
  | getLogger name => exact getLogger_rooted rooted (plain name rfl)
  | setLevel ptr level => exact ⟨_, rfl, setLevel_rooted rooted ptr level⟩
  | resetConfiguration => exact ⟨_, rfl, resetConfiguration_rooted rooted⟩

theorem calls_rooted {tree : Hierarchy} (rooted : tree.Rooted) (sequence : List Call)
    (plain : ∀ name, .getLogger name ∈ sequence → name[0]? ≠ some '.') :
    ∃ result, tree.calls sequence = some result ∧ result.Rooted := by
  induction sequence generalizing tree with
  | nil => exact ⟨tree, rfl, rooted⟩
  | cons first sequence ih =>
      obtain ⟨next, run, rooted⟩ := call_rooted rooted first
        fun name same => plain name (same ▸ List.mem_cons_self ..)
      obtain ⟨result, rest, rooted⟩ :=
        ih rooted fun name member => plain name (List.mem_cons_of_mem _ member)
      refine ⟨result, ?_, rooted⟩
      rw [calls, List.foldlM_cons, run]
      exact rest

/-- The parents of a logger lead up to the root logger. -/
inductive ParentChain (tree : Hierarchy) : LoggerPtr → List LoggerPtr → Prop where
  | root : ParentChain tree .root [.root]
  | parent {ptr logger parent chain} : tree.logger ptr = some logger →
      logger.parent = some parent → ParentChain tree parent chain →
        ParentChain tree ptr (ptr :: chain)

/-- This is the first level that is not null on the way. -/
def nearestLevel (tree : Hierarchy) (chain : List LoggerPtr) : Option Level :=
  chain.findSome? fun ptr => (tree.logger ptr).bind Logger.level

/-- Each parent has a lower rank, and the root logger has the lowest. -/
def rank : LoggerPtr → Nat
  | .root => 0
  | .named name => name.length + 1

/-- The parent of a logger is there and has a lower rank. -/
theorem Rooted.parent_rank {tree : Hierarchy} (rooted : tree.Rooted) {name : LogString}
    {logger : Logger} (found : tree.loggers[name]? = some logger) :
    ∃ parent above, logger.parent = some parent ∧ tree.logger parent = some above ∧
      rank parent < rank (.named name) := by
  obtain ⟨parent, linked⟩ := Option.ne_none_iff_exists'.mp (rooted.sound.parents name logger found)
  cases parent with
  | root => exact ⟨.root, tree.root, linked, rfl, Nat.succ_pos _⟩
  | named upper =>
      obtain ⟨present, shorter⟩ := rooted.leads name logger found upper linked
      obtain ⟨above, aboveFound⟩ := Option.ne_none_iff_exists'.mp ((LogMap.mem_iff _ _).mp present)
      exact ⟨.named upper, above, linked, aboveFound, Nat.succ_lt_succ shorter.length_lt⟩

theorem effectiveLevelFrom_own {tree : Hierarchy} {ptr : LoggerPtr} {logger : Logger} {level : Level}
    (found : tree.logger ptr = some logger) (own : logger.level = some level) (fuel : Nat) :
    tree.effectiveLevelFrom (fuel + 1) (some ptr) = some (.ok level) := by
  simp only [effectiveLevelFrom, found, Option.bind_eq_bind, Option.bind_some, own]

theorem effectiveLevelFrom_parent {tree : Hierarchy} {ptr : LoggerPtr} {logger : Logger}
    (found : tree.logger ptr = some logger) (missing : logger.level = none) (fuel : Nat) :
    tree.effectiveLevelFrom (fuel + 1) (some ptr) =
      tree.effectiveLevelFrom fuel logger.parent := by
  simp only [effectiveLevelFrom, found, Option.bind_eq_bind, Option.bind_some, missing]

/-- The induction is on the rank: the walk from a logger is one step and the walk from its parent. -/
theorem Rooted.walk {tree : Hierarchy} (rooted : tree.Rooted) (bound : Nat) {ptr : LoggerPtr}
    {logger : Logger} (found : tree.logger ptr = some logger) (below : rank ptr < bound) :
    ∃ chain level, tree.ParentChain ptr chain ∧ tree.nearestLevel chain = some level ∧
      ∀ fuel, rank ptr < fuel →
        tree.effectiveLevelFrom fuel (some ptr) = some (.ok level) := by
  induction bound generalizing ptr logger with
  | zero => exact absurd below (Nat.not_lt_zero _)
  | succ bound ih =>
      cases ptr with
      | root =>
          obtain ⟨level, own⟩ := Option.ne_none_iff_exists'.mp rooted.level
          refine ⟨[.root], level, .root, ?_, fun fuel enough => ?_⟩
          · rw [nearestLevel, List.findSome?_singleton]
            exact own
          · obtain ⟨fuel, rfl⟩ := Nat.exists_eq_add_of_lt enough
            exact effectiveLevelFrom_own rfl own _
      | named name =>
          obtain ⟨parent, above, linked, aboveFound, lower⟩ := rooted.parent_rank found
          obtain ⟨chain, level, up, nearest, walk⟩ := ih aboveFound (by omega)
          cases own : logger.level with
          | some level =>
              refine ⟨.named name :: chain, level, .parent found linked up, ?_, fun fuel enough => ?_⟩
              · rw [nearestLevel, List.findSome?_cons, found, Option.bind_some, own]
              · obtain ⟨fuel, rfl⟩ := Nat.exists_eq_add_of_lt enough
                exact effectiveLevelFrom_own found own _
          | none =>
              refine ⟨.named name :: chain, level, .parent found linked up, ?_, fun fuel enough => ?_⟩
              · rw [nearestLevel, List.findSome?_cons, found, Option.bind_some, own]
                exact nearest
              · obtain ⟨fuel, rfl⟩ := Nat.exists_eq_add_of_lt enough
                rw [effectiveLevelFrom_parent found own, linked]
                exact walk _ (by omega)

/-- There are at most as many parents as characters. -/
theorem ParentChain.length_le {tree : Hierarchy} (rooted : tree.Rooted) {ptr : LoggerPtr} {chain : List LoggerPtr}
    (up : tree.ParentChain ptr chain) : chain.length ≤ rank ptr + 1 := by
  induction up with
  | root => exact Nat.le_refl 1
  | @parent ptr logger parent chain found linked up ih =>
      cases ptr with
      | root =>
          have missing := rooted.parent
          rw [Option.some.inj found, linked] at missing
          exact absurd missing nofun
      | named name =>
          obtain ⟨parent', above, linked', aboveFound, lower⟩ := rooted.parent_rank found
          have same : parent' = parent := Option.some.inj (linked'.symm.trans linked)
          subst same
          exact Nat.succ_le_succ (ih.trans lower)

/-- The call of a logger in the tree returns the level that the walk up finds. -/
theorem Rooted.effectiveLevel {tree : Hierarchy} (rooted : tree.Rooted) {ptr : LoggerPtr} {level : Level}
    (walk : ∀ fuel, rank ptr < fuel → tree.effectiveLevelFrom fuel (some ptr) = some (.ok level)) :
    tree.getEffectiveLevel ptr = some (.ok (some level)) := by
  cases ptr with
  | root =>
      obtain ⟨own, isRoot⟩ := Option.ne_none_iff_exists'.mp rooted.level
      have first := (effectiveLevelFrom_own rfl isRoot 0).symm.trans (walk 1 Nat.zero_lt_one)
      rw [getEffectiveLevel, isRoot, Except.ok.inj (Option.some.inj first)]
  | named name =>
      rw [getEffectiveLevel, walk (name.length + 2) (Nat.lt_succ_self _)]
      rfl

/-- Every logger has a way to the root logger, and the call returns the nearest level on it. -/
theorem effectiveLevel_defined (sequence : List Call)
    (plain : ∀ name, .getLogger name ∈ sequence → name[0]? ≠ some '.') :
    ∃ tree, create.calls sequence = some tree ∧ tree.root.level ≠ none ∧
      ∀ ptr, tree.logger ptr ≠ none → ∃ chain level, tree.ParentChain ptr chain ∧
        tree.nearestLevel chain = some level ∧
          tree.getEffectiveLevel ptr = some (.ok (some level)) := by
  obtain ⟨tree, run, rooted⟩ := calls_rooted create_rooted sequence plain
  refine ⟨tree, run, rooted.level, fun ptr present => ?_⟩
  obtain ⟨logger, found⟩ := Option.ne_none_iff_exists'.mp present
  obtain ⟨chain, level, up, nearest, walk⟩ := rooted.walk _ found (Nat.lt_succ_self _)
  exact ⟨chain, level, up, nearest, rooted.effectiveLevel walk⟩

/-- A run with a null level for the root logger, and a reset. -/
theorem effectiveLevel_defined_small :
    ∃ tree, create.calls [.getLogger ['a', '.', 'b'], .setLevel (.named ['a', '.', 'b'])
        (some Level.getAll), .setLevel .root none, .getLogger ['a'], .resetConfiguration] =
          some tree ∧ tree.root.level ≠ none ∧
      ∀ ptr, tree.logger ptr ≠ none → ∃ chain level, tree.ParentChain ptr chain ∧
        tree.nearestLevel chain = some level ∧
          tree.getEffectiveLevel ptr = some (.ok (some level)) := by
  apply effectiveLevel_defined
  intro name member
  simp only [List.mem_cons, Call.getLogger.injEq, reduceCtorEq, List.not_mem_nil, or_false,
    false_or] at member
  rcases member with rfl | rfl <;> decide

end CodeCollect.Log4cxx.Hierarchy
