import CodeCollect.Log4cxx.HierarchyRun

namespace CodeCollect.Log4cxx.Hierarchy

open CodeCollect.Library

/-- Every logger of the map has its nearest existing ancestor as its parent. -/
def WellParented (self : Hierarchy) : Prop :=
  ∀ (name : LogString) (logger : Logger), self.loggers[name]? = some logger →
    ∃ parent, logger.parent = some parent ∧ self.LeadsTo name parent

/-- No logger of the tree is confused by a part of the root's name. -/
def ClearOfRoot (self : Hierarchy) (name : LogString) : Prop :=
  name <+: LoggerPtr.root.name → ∀ below ∈ self.loggers, ¬ Above '.' name below

/-- The children loop recognises a nearer parent by its longer name. -/
theorem startsWith_parent (self : Hierarchy) (name other : LogString) (parent : LoggerPtr)
    (leads : self.LeadsTo other parent) (new : name ∉ self.loggers) (found : Above '.' name other) :
    StringHelper.startsWith parent.name name = true ↔
      (∃ above, parent = .named above ∧ name.length < above.length) ∨
        parent = .root ∧ name <+: LoggerPtr.root.name := by
  rw [StringHelper.startsWith_iff]
  cases parent with
  | root => simp
  | named above =>
      obtain ⟨present, aboveFound, _⟩ := leads
      have different : name.length ≠ above.length := by
        intro same
        exact new (found.eq_of_length aboveFound same ▸ present)
      simp only [LoggerPtr.name, LoggerPtr.named.injEq, exists_eq_left', reduceCtorEq, false_and,
        or_false]
      constructor
      · intro lower
        exact lt_of_le_of_ne lower.length_le different
      · intro longer
        exact (found.of_length_lt aboveFound longer).isPrefix

/-- A logger below the new one either waits for it or already hangs lower. -/
theorem relinked_leads (self : Hierarchy) (name other : LogString) (logger : Logger)
    (parent : LoggerPtr) (sound : self.Sound) (new : name ∉ self.loggers)
    (clear : self.ClearOfRoot name) (member : other ∈ self.loggers)
    (linked : logger.parent = some parent) (leads : self.LeadsTo other parent) :
    ∃ next, (relinked name (self.waiting name) other logger).parent = some next ∧
      IsNearest '.' (insert name {old | old ∈ self.loggers}) other next.above := by
  have hangs : HangsAbove name logger ↔ ¬ StringHelper.startsWith parent.name name = true := by
    simp [HangsAbove, linked]
  by_cases found : Above '.' name other
  · have rootClear : ¬ name <+: LoggerPtr.root.name := fun short => clear short other member found
    rw [startsWith_parent self name other parent leads new found] at hangs
    by_cases lower : ∃ above, parent = .named above ∧ name.length < above.length
    · -- The old parent lies between the logger and the new name.
      refine ⟨parent, by rw [relinked, if_neg (fun free => hangs.mp free.2 (Or.inl lower)),
        linked], ?_⟩
      obtain ⟨above, rfl, longer⟩ := lower
      exact IsNearest.insert_farther leads (Nat.le_of_lt longer)
    · have shorter : ∀ above, parent.above = some above → above.length ≤ name.length := by
        intro above named
        cases parent with
        | root => exact absurd named (by simp [LoggerPtr.above])
        | named upper =>
            obtain rfl := Option.some.inj named
            exact Nat.le_of_not_lt fun longer => lower ⟨upper, rfl, longer⟩
      have waits : other ∈ self.waiting name := by
        apply sound.complete name other member found new
        intro between inside betweenFound
        have different : between.length ≠ name.length := fun same =>
          new (betweenFound.eq_of_length found same ▸ inside)
        cases parent with
        | root => exact absurd betweenFound (leads between inside)
        | named upper =>
            have nearest := leads.2.2 between inside betweenFound
            exact lt_of_le_of_ne (nearest.trans (shorter upper rfl)) different
      refine ⟨.named name, ?_, IsNearest.insert_nearer leads found shorter⟩
      rw [relinked, if_pos ⟨waits, hangs.mpr (fun settled => settled.elim lower
        (fun atRoot => rootClear atRoot.2))⟩]
  · have apart : other ∉ self.waiting name := fun waits =>
      found (sound.waits name other waits).2.2
    refine ⟨parent, by rw [relinked, if_neg (fun both => apart both.1), linked], ?_⟩
    exact IsNearest.insert_apart leads found

/-- The parents stay right when no part of the root's name gets in the way. -/
theorem WellParented.extend {self result : Hierarchy} {name : LogString}
    (wellParented : self.WellParented) (sound : self.Sound) (new : name ∉ self.loggers)
    (clear : self.ClearOfRoot name) (extended : Extended name self result) :
    result.WellParented := by
  have names : {other | other ∈ result.loggers} = insert name {other | other ∈ self.loggers} :=
    Set.ext extended.mem_iff
  intro other logger found
  by_cases same : other = name
  · obtain ⟨parent, own, leads⟩ := extended.own
    subst same
    rw [own] at found
    refine ⟨parent, by rw [← Option.some.inj found], ?_⟩
    rw [LeadsTo, names]
    exact IsNearest.insert_apart leads fun itself => itself.ne rfl
  · rw [extended.others other same, Option.map_eq_some_iff] at found
    obtain ⟨old, oldFound, rfl⟩ := found
    obtain ⟨parent, linked, leads⟩ := wellParented other old oldFound
    have member := LogMap.mem_of_get _ _ oldFound
    obtain ⟨next, relinks, nearest⟩ :=
      relinked_leads self name other old parent sound new clear member linked leads
    refine ⟨next, relinks, ?_⟩
    rw [LeadsTo, names]
    exact nearest

/-- A part of the root's name has no ancestors, because the root's name has no dots. -/
theorem not_above_of_root (name other : LogString) (short : name <+: LoggerPtr.root.name) :
    ¬ Above '.' other name := by
  rintro ⟨rest, rfl⟩
  have dot : '.' ∈ LoggerPtr.root.name := short.subset (by simp)
  exact absurd dot (by decide)

/-- The shortest existing name below a part of the root's name hangs from the root logger. -/
theorem exists_root_child (self : Hierarchy) (name : LogString) (wellParented : self.WellParented)
    (new : name ∉ self.loggers) (short : name <+: LoggerPtr.root.name)
    (below : ∃ other ∈ self.loggers, Above '.' name other) :
    ∃ (other : LogString) (logger : Logger), self.loggers[other]? = some logger ∧
      Above '.' name other ∧ logger.parent = some .root := by
  obtain ⟨other, ⟨member, found⟩, shortest⟩ :=
    WellFounded.has_min (measure (List.length (α := Char))).wf
      {other | other ∈ self.loggers ∧ Above '.' name other} below
  obtain ⟨logger, present⟩ := Option.ne_none_iff_exists'.mp ((LogMap.mem_iff _ _).mp member)
  obtain ⟨parent, linked, leads⟩ := wellParented other logger present
  refine ⟨other, logger, present, found, ?_⟩
  cases parent with
  | root => exact linked
  | named above =>
      obtain ⟨inside, aboveFound, _⟩ := leads
      rcases lt_trichotomy name.length above.length with longer | same | shorter
      · exact absurd aboveFound.length_lt
          (shortest above ⟨inside, found.of_length_lt aboveFound longer⟩)
      · exact absurd (found.eq_of_length aboveFound same ▸ inside) new
      · exact absurd (aboveFound.of_length_lt found shorter) (not_above_of_root name above short)

/-- Such a logger keeps the root as its parent, although the new logger is nearer. -/
theorem not_wellParented_of_extended (self result : Hierarchy) (name : LogString)
    (wellParented : self.WellParented) (new : name ∉ self.loggers)
    (confused : ¬ self.ClearOfRoot name) (extended : Extended name self result) :
    ¬ result.WellParented := by
  simp only [ClearOfRoot, Classical.not_imp, not_forall, not_not] at confused
  obtain ⟨short, other, member, found⟩ := confused
  obtain ⟨child, logger, present, childFound, linked⟩ :=
    exists_root_child self name wellParented new short ⟨other, member, found⟩
  have settled : ¬ HangsAbove name logger := by
    intro hangs
    have differs := hangs .root linked
    rw [(StringHelper.startsWith_iff _ _).mpr short] at differs
    exact Bool.noConfusion differs
  intro resultParented
  have kept : result.loggers[child]? = some logger := by
    rw [extended.others child childFound.ne.symm, present, Option.map_some, relinked,
      if_neg (fun both => settled both.2)]
  obtain ⟨parent, resultLinked, leads⟩ := resultParented child logger kept
  rw [linked] at resultLinked
  obtain rfl := Option.some.inj resultLinked
  exact leads name ((extended.mem_iff name).mpr (Or.inl rfl)) childFound

/-- The constructor's tree has no loggers, so every condition on them holds. -/
theorem create_sound : create.Sound := by
  have none_inside : ∀ name, name ∉ create.loggers := fun name => Std.ExtTreeMap.not_mem_empty
  have none_found : ∀ (name : LogString) (logger : Logger), create.loggers[name]? ≠ some logger := by
    intro name logger found
    exact none_inside name (LogMap.mem_of_get _ _ found)
  refine ⟨fun name member => absurd member (none_inside name),
    fun name logger found => absurd found (none_found name logger),
    fun name logger found => absurd found (none_found name logger), ?_,
    fun above name member => absurd member (none_inside name)⟩
  intro above name member
  have empty : create.waiting above = [] := by
    change ((∅ : LogMap ProvisionNode)[above]?).getD [] = []
    rw [LogMap.empty_get]
    rfl
  rw [empty] at member
  exact absurd member List.not_mem_nil

theorem create_wellParented : create.WellParented := by
  intro name logger found
  exact absurd (LogMap.mem_of_get _ _ found) Std.ExtTreeMap.not_mem_empty

theorem getLoggers_concat (self : Hierarchy) (names : List LogString) (name : LogString) :
    self.getLoggers (names ++ [name]) = (self.getLoggers names).bind fun tree =>
      tree.getLogger name := by
  simp [getLoggers, List.foldlM_append]

/-- A run of calls with plain names always returns and makes exactly the loggers it names. -/
theorem getLoggers_run (names : List LogString) (plain : ∀ name ∈ names, name[0]? ≠ some '.') :
    ∃ result, create.getLoggers names = some result ∧ result.Sound ∧
      ∀ name, name ∈ result.loggers ↔ name ∈ names := by
  induction names using List.reverseRecOn with
  | nil => exact ⟨create, rfl, create_sound, fun name => by simp [create]⟩
  | append_singleton names name ih =>
      obtain ⟨before, run, sound, same⟩ :=
        ih fun other member => plain other (List.mem_append_left _ member)
      rw [getLoggers_concat, run, Option.bind_some]
      by_cases known : name ∈ before.loggers
      · refine ⟨before, getLogger_known before name known, sound, fun other => ?_⟩
        rw [same, List.mem_append, List.mem_singleton]
        rw [same] at known
        exact ⟨Or.inl, fun member => member.elim id fun new => new ▸ known⟩
      · obtain ⟨result, call, extended, resultSound⟩ := getLogger_new before name sound
          (plain name (List.mem_append_right _ (List.mem_singleton_self name))) known
        refine ⟨result, call, resultSound, fun other => ?_⟩
        rw [extended.mem_iff, same, List.mem_append, List.mem_singleton]
        exact or_comm

/-- No part of the root's name comes as a new name after a name below it. -/
def RootNameClear (names : List LogString) : Prop :=
  ∀ (earlier : List LogString) (name : LogString) (later : List LogString),
    names = earlier ++ name :: later → name <+: LoggerPtr.root.name → name ∉ earlier →
      ∀ below ∈ earlier, ¬ Above '.' name below

theorem rootNameClear_iff (names : List LogString) :
    RootNameClear names ↔ ∀ i < names.length, ∀ name ∈ names[i]?, name <+: LoggerPtr.root.name →
      name ∉ names.take i → ∀ below ∈ names.take i, ¬ Above '.' name below := by
  constructor
  · intro clear i inside name found
    obtain ⟨_, found⟩ := List.getElem?_eq_some_iff.mp found
    apply clear (names.take i) name (names.drop (i + 1))
    rw [← found, ← List.drop_eq_getElem_cons inside, List.take_append_drop]
  · intro clear earlier name later split
    subst split
    have call := clear earlier.length (by simp) name (by simp)
    rwa [List.take_left] at call

/-- One call keeps the parents right exactly when the name is known or clear of the root's. -/
theorem getLogger_wellParented_iff (self : Hierarchy) (name : LogString) (sound : self.Sound)
    (wellParented : self.WellParented) (plain : name[0]? ≠ some '.') :
    (∃ result, self.getLogger name = some result ∧ result.WellParented) ↔
      (name ∉ self.loggers → self.ClearOfRoot name) := by
  by_cases known : name ∈ self.loggers
  · rw [getLogger_known self name known]
    exact iff_of_true ⟨self, rfl, wellParented⟩ fun new => absurd known new
  · obtain ⟨result, call, extended, _⟩ := getLogger_new self name sound plain known
    rw [call]
    constructor
    · rintro ⟨_, same, resultParented⟩ _
      obtain rfl := Option.some.inj same
      by_contra confused
      exact not_wellParented_of_extended self result name wellParented known confused extended
        resultParented
    · intro clear
      exact ⟨result, rfl, wellParented.extend sound known (clear known) extended⟩

/-- After a run the tree is clear of the root's name exactly when the names so far are. -/
theorem clearOfRoot_iff (earlier : List LogString) (name : LogString) (tree : Hierarchy)
    (same : ∀ other, other ∈ tree.loggers ↔ other ∈ earlier) :
    (name ∉ tree.loggers → tree.ClearOfRoot name) ↔
      (name <+: LoggerPtr.root.name → name ∉ earlier → ∀ below ∈ earlier,
        ¬ Above '.' name below) := by
  simp only [ClearOfRoot, same]
  exact ⟨fun clear short new => clear new short, fun clear new short => clear short new⟩

/-- The parents are right after every call if and only if the names are clear of the root's. -/
theorem getLoggers_wellParented_iff (names : List LogString)
    (plain : ∀ name ∈ names, name[0]? ≠ some '.') :
    (∀ calls rest, names = calls ++ rest →
      ∃ result, create.getLoggers calls = some result ∧ result.WellParented) ↔
        RootNameClear names := by
  -- Both sides say the same about each call, made on the tree of the calls before it.
  have call : ∀ (earlier : List LogString) (name : LogString) (later : List LogString),
      names = earlier ++ name :: later → ∀ before, create.getLoggers earlier = some before →
      before.WellParented →
      ((∃ result, create.getLoggers (earlier ++ [name]) = some result ∧ result.WellParented) ↔
        (name <+: LoggerPtr.root.name → name ∉ earlier → ∀ below ∈ earlier,
          ¬ Above '.' name below)) := by
    intro earlier name later split before run wellParented
    obtain ⟨tree, treeRun, sound, same⟩ := getLoggers_run earlier
      fun other member => plain other (by simp [split, member])
    obtain rfl := Option.some.inj (treeRun.symm.trans run)
    rw [getLoggers_concat, run, Option.bind_some, ← clearOfRoot_iff earlier name tree same]
    exact getLogger_wellParented_iff tree name sound wellParented (plain name (by simp [split]))
  constructor
  · intro right earlier name later split
    obtain ⟨before, run, wellParented⟩ := right earlier (name :: later) split
    exact (call earlier name later split before run wellParented).mp
      (right (earlier ++ [name]) later (by simp [split]))
  · intro clear calls
    induction calls using List.reverseRecOn with
    | nil => exact fun _ _ => ⟨create, rfl, create_wellParented⟩
    | append_singleton earlier name ih =>
        intro rest split
        have split' : names = earlier ++ name :: rest := by simpa using split
        obtain ⟨before, run, wellParented⟩ := ih (name :: rest) split'
        exact (call earlier name rest split' before run wellParented).mpr
          (clear earlier name rest split')

/-- The names of a small tree, in an order that asks for provision nodes. -/
theorem getLoggers_wellParented_small :
    RootNameClear [['x', '.', 'y', '.', 'z'], ['x'], ['x', '.', 'y'], ['r']] ∧
      ∀ calls rest, [['x', '.', 'y', '.', 'z'], ['x'], ['x', '.', 'y'], ['r']] = calls ++ rest →
        ∃ result, create.getLoggers calls = some result ∧ result.WellParented := by
  have clear : RootNameClear [['x', '.', 'y', '.', 'z'], ['x'], ['x', '.', 'y'], ['r']] :=
    (rootNameClear_iff _).mpr (by decide)
  exact ⟨clear, (getLoggers_wellParented_iff _ (by decide)).mpr clear⟩

/-- The logger `r` is made after `r.x` and does not become its parent. -/
theorem getLoggers_root_prefix :
    ∃ result, create.getLoggers [['r', '.', 'x'], ['r']] = some result ∧
      ¬ result.WellParented := by
  have run : (create.getLoggers [['r', '.', 'x'], ['r']]).map (fun tree =>
      (tree.loggers[['r', '.', 'x']]?, decide (['r'] ∈ tree.loggers))) =
        some (some { Logger.create ['r', '.', 'x'] with parent := some .root }, true) := by
    decide +kernel
  obtain ⟨result, call, found⟩ := Option.map_eq_some_iff.mp run
  rw [Prod.mk.injEq, decide_eq_true_eq] at found
  refine ⟨result, call, fun wellParented => ?_⟩
  obtain ⟨parent, linked, leads⟩ := wellParented _ _ found.1
  obtain rfl := Option.some.inj linked
  exact leads ['r'] found.2 ⟨['x'], rfl⟩

end CodeCollect.Log4cxx.Hierarchy
