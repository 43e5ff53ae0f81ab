import CodeCollect.Log4cxx.HierarchyTree

namespace CodeCollect.Log4cxx.Hierarchy

open CodeCollect.Library

/-- Without a provision node the children loop and the erasure do nothing. -/
theorem getLogger_of_new (self : Hierarchy) (name : LogString) (new : name ∉ self.loggers) :
    self.getLogger name =
      (updateChildren { self with loggers := self.loggers.insert name (Logger.create name) }
        (self.waiting name) name).bind fun linked =>
          updateParents { linked with provisionNodes := linked.provisionNodes.erase name } name := by
  rw [getLogger, if_neg new]
  dsimp only
  split
  · rename_i missing
    rw [waiting, missing]
    simp [updateChildren, LogMap.erase_absent _ _ missing]
  · rename_i pn found
    rw [waiting, found]
    rfl

/-- The new logger has taken over its children and does not have its own parent yet. -/
structure Adopted (name : LogString) (before result : Hierarchy) : Prop where
  root : result.root = before.root
  threshold : result.threshold = before.threshold
  configured : result.configured = before.configured
  others : ∀ other, other ≠ name → result.loggers[other]? =
    (before.loggers[other]?).map (relinked name (before.waiting name) other)
  own : ∃ parent, result.loggers[name]? = some { Logger.create name with parent := parent }
  waiting : ∀ other, result.waiting other = if name = other then [] else before.waiting other

theorem Adopted.mem_iff {name : LogString} {before result : Hierarchy}
    (adopted : Adopted name before result) (other : LogString) :
    other ∈ result.loggers ↔ other = name ∨ other ∈ before.loggers := by
  by_cases same : other = name
  · subst same
    obtain ⟨parent, found⟩ := adopted.own
    exact iff_of_true (LogMap.mem_of_get _ _ found) (Or.inl rfl)
  · rw [LogMap.mem_iff, LogMap.mem_iff, adopted.others other same]
    simp [same]

/-- The children loop of a new logger never meets a null parent. -/
theorem updateChildren_new (self : Hierarchy) (name : LogString) (sound : self.Sound) :
    ∃ linked, updateChildren { self with loggers := self.loggers.insert name (Logger.create name) }
        (self.waiting name) name = some linked ∧
      Adopted name self { linked with provisionNodes := linked.provisionNodes.erase name } := by
  have insertedGet := fun other => LogMap.insert_get self.loggers name other (Logger.create name)
  obtain ⟨linked, run, relinks⟩ := updateChildren_spec name (self.waiting name)
    { self with loggers := self.loggers.insert name (Logger.create name) } (by
      intro child member
      obtain ⟨absent, present, above⟩ := sound.waits name child member
      obtain ⟨logger, found⟩ := Option.ne_none_iff_exists'.mp ((LogMap.mem_iff _ _).mp present)
      refine ⟨above.ne.symm, logger, ?_, sound.parents child logger found⟩
      rw [insertedGet, if_neg above.ne, found])
  refine ⟨linked, run, relinks.root, relinks.threshold, relinks.configured, ?_, ?_, ?_⟩
  · intro other apart
    change linked.loggers[other]? = _
    rw [relinks.others other apart, insertedGet, if_neg (Ne.symm apart)]
  · obtain ⟨parent, own⟩ := relinks.own
    refine ⟨parent (Logger.create name), ?_⟩
    change linked.loggers[name]? = _
    rw [own, insertedGet, if_pos rfl]
    rfl
  · intro other
    change ((linked.provisionNodes.erase name)[other]?).getD [] = _
    rw [LogMap.erase_get, relinks.provisionNodes]
    split <;> rfl

theorem Adopted.extended {name : LogString} {before adopted result : Hierarchy}
    {parent : LoggerPtr} (children : Adopted name before adopted)
    (parents : Registered name name.length adopted result) (leads : adopted.LeadsTo name parent) :
    Extended name before (result.setParent name parent) := by
  have names : {other | other ∈ adopted.loggers} = insert name {other | other ∈ before.loggers} :=
    Set.ext children.mem_iff
  rw [LeadsTo, names] at leads
  refine ⟨parents.root.trans children.root, parents.threshold.trans children.threshold,
    parents.configured.trans children.configured, ?_, parent, ?_, leads.of_insert_self⟩
  · intro other apart
    rw [setParent_get, parents.loggers, if_neg (Ne.symm apart), children.others other apart]
  · obtain ⟨old, own⟩ := children.own
    rw [setParent_get, parents.loggers, if_pos rfl, own]
    rfl

theorem Extended.names {name : LogString} {before result : Hierarchy} (sound : before.Sound)
    (extended : Extended name before result) (other : LogString) (logger : Logger)
    (found : result.loggers[other]? = some logger) :
    logger.name = other ∧ logger.parent ≠ none := by
  by_cases same : other = name
  · obtain ⟨parent, own, _⟩ := extended.own
    rw [same, own] at found
    rw [← Option.some.inj found]
    exact ⟨same.symm, Option.some_ne_none parent⟩
  · rw [extended.others other same, Option.map_eq_some_iff] at found
    obtain ⟨old, oldFound, rfl⟩ := found
    exact ⟨(relinked_name _ _ _ _).trans (sound.names other old oldFound),
      relinked_parent _ _ _ _ (sound.parents other old oldFound)⟩

theorem Sound.extend {name : LogString} {before adopted result : Hierarchy} {parent : LoggerPtr}
    (sound : before.Sound) (plain : name[0]? ≠ some '.') (children : Adopted name before adopted)
    (parents : Registered name name.length adopted result)
    (extended : Extended name before (result.setParent name parent)) :
    (result.setParent name parent).Sound := by
  have sameMem : ∀ other, other ∈ (result.setParent name parent).loggers ↔
      other ∈ adopted.loggers :=
    fun other => (extended.mem_iff other).trans (children.mem_iff other).symm
  refine ⟨?_, fun other logger found => (extended.names sound other logger found).1,
    fun other logger found => (extended.names sound other logger found).2, ?_, ?_⟩
  · intro other member
    rcases (extended.mem_iff other).mp member with rfl | old
    · exact plain
    · exact sound.plain other old
  · intro above node member
    rcases parents.adds above node member with old | ⟨rfl, found, absent⟩
    · rw [children.waiting] at old
      split at old
      · exact absurd old List.not_mem_nil
      · rename_i different
        obtain ⟨absent, present, found⟩ := sound.waits above node old
        refine ⟨fun inside => ?_, (extended.mem_iff node).mpr (Or.inr present), found⟩
        rcases (extended.mem_iff above).mp inside with same | inside
        · exact different same.symm
        · exact absent inside
    · exact ⟨fun inside => absent ((sameMem above).mp inside),
        (extended.mem_iff node).mpr (Or.inl rfl), found⟩
  · intro above node member found absent deeper
    rw [sameMem] at absent
    rcases (extended.mem_iff node).mp member with rfl | old
    · apply parents.complete above found found.length_lt absent
      intro between inside betweenFound _
      exact deeper between ((sameMem between).mpr inside) betweenFound
    · have apart := fun same => absent ((children.mem_iff above).mpr (Or.inl same))
      apply parents.keeps
      rw [children.waiting, if_neg (Ne.symm apart)]
      apply sound.complete above node old found
      · exact fun inside => absent ((children.mem_iff above).mpr (Or.inr inside))
      · intro between inside betweenFound
        exact deeper between ((extended.mem_iff between).mpr (Or.inr inside)) betweenFound

/-- Every call of `getLogger` with a plain new name returns, links the logger and stays sound. -/
theorem getLogger_new (self : Hierarchy) (name : LogString) (sound : self.Sound)
    (plain : name[0]? ≠ some '.') (new : name ∉ self.loggers) :
    ∃ result, self.getLogger name = some result ∧ Extended name self result ∧ result.Sound := by
  obtain ⟨linked, run, children⟩ := updateChildren_new self name sound
  obtain ⟨result, parent, runParents, parents, leads⟩ := updateParentsFrom_spec name plain
    name.length name.length { linked with provisionNodes := linked.provisionNodes.erase name }
    (Nat.le_refl _) (fun above _ found => found.length_lt)
  have extended := children.extended parents leads
  refine ⟨result.setParent name parent, ?_, extended,
    sound.extend plain children parents extended⟩
  rw [getLogger_of_new self name new, run]
  exact runParents

/-- A call of `getLogger` with a known name changes nothing. -/
theorem getLogger_known (self : Hierarchy) (name : LogString) (known : name ∈ self.loggers) :
    self.getLogger name = some self := by
  rw [getLogger, if_pos known]

end CodeCollect.Log4cxx.Hierarchy
