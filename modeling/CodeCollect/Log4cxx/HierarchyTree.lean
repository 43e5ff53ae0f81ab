import CodeCollect.Log4cxx.Hierarchy

namespace CodeCollect.Log4cxx.Hierarchy

open CodeCollect.Library

/-- The scan returns the greatest dot position below the bound. -/
theorem lastDotBelow_some (name : LogString) (bound i : Nat)
    (found : lastDotBelow name bound = some i) :
    i < bound ∧ name[i]? = some '.' ∧ ∀ j, i < j → j < bound → name[j]? ≠ some '.' := by
  induction bound with
  | zero => simp [lastDotBelow] at found
  | succ bound ih =>
      rw [lastDotBelow] at found
      split at found
      · rename_i dot
        obtain rfl := Option.some.inj found
        exact ⟨Nat.lt_succ_self _, dot, fun j above below => by omega⟩
      · rename_i other
        obtain ⟨inside, dot, none_between⟩ := ih found
        refine ⟨Nat.lt_succ_of_lt inside, dot, fun j above below => ?_⟩
        rcases Nat.lt_succ_iff_lt_or_eq.mp below with earlier | rfl
        · exact none_between j above earlier
        · exact other

theorem lastDotBelow_none (name : LogString) (bound : Nat)
    (missing : lastDotBelow name bound = none) (j : Nat) (below : j < bound) :
    name[j]? ≠ some '.' := by
  induction bound with
  | zero => exact absurd below (Nat.not_lt_zero j)
  | succ bound ih =>
      rw [lastDotBelow] at missing
      split at missing
      · exact absurd missing (by simp)
      · rename_i other
        rcases Nat.lt_succ_iff_lt_or_eq.mp below with earlier | rfl
        · exact ih missing earlier
        · exact other

@[simp] theorem setParent_provisionNodes (self : Hierarchy) (name : LogString)
    (parent : LoggerPtr) : (self.setParent name parent).provisionNodes = self.provisionNodes := rfl

theorem setParent_get (self : Hierarchy) (name other : LogString) (parent : LoggerPtr) :
    (self.setParent name parent).loggers[other]? =
      if name = other then
        (self.loggers[other]?).map fun logger => { logger with parent := some parent }
      else self.loggers[other]? := by
  rw [setParent, LogMap.modify_get]

@[simp] theorem mem_setParent (self : Hierarchy) (name other : LogString) (parent : LoggerPtr) :
    other ∈ (self.setParent name parent).loggers ↔ other ∈ self.loggers := by
  rw [LogMap.mem_iff, LogMap.mem_iff, setParent_get]
  split <;> simp

/-- These loggers wait for a logger with the given name. -/
def waiting (self : Hierarchy) (name : LogString) : ProvisionNode :=
  (self.provisionNodes[name]?).getD []

@[simp] theorem setParent_waiting (self : Hierarchy) (name : LogString) (parent : LoggerPtr) :
    (self.setParent name parent).waiting = self.waiting := rfl

theorem addProvision_waiting (self : Hierarchy) (substr name other : LogString) :
    (self.addProvision substr name).waiting other =
      if substr = other then self.waiting other ++ [name] else self.waiting other := by
  rw [waiting, addProvision, LogMap.insert_get]
  split
  · rename_i same
    subst same
    rfl
  · rfl

/-- A logger waits exactly below its nearest ancestor, as far as the scan went. -/
structure Registered (name : LogString) (bound : Nat) (before result : Hierarchy) : Prop where
  loggers : result.loggers = before.loggers
  root : result.root = before.root
  threshold : result.threshold = before.threshold
  configured : result.configured = before.configured
  keeps : ∀ other node, node ∈ before.waiting other → node ∈ result.waiting other
  adds : ∀ other node, node ∈ result.waiting other → node ∈ before.waiting other ∨
    node = name ∧ Above '.' other name ∧ other ∉ before.loggers
  complete : ∀ other, Above '.' other name → other.length < bound → other ∉ before.loggers →
    (∀ above ∈ before.loggers, Above '.' above name → above.length < bound →
      above.length < other.length) → name ∈ result.waiting other

/-- The pointer leads to the nearest existing ancestor, or to the root logger without one. -/
def LeadsTo (self : Hierarchy) (name : LogString) (parent : LoggerPtr) : Prop :=
  IsNearest '.' {other | other ∈ self.loggers} name parent.above

/-- A position with a dot cuts off a name above. -/
theorem above_take (name : LogString) (i : Nat) (dot : name[i]? = some '.') :
    Above '.' (name.take i) name ∧ (name.take i).length = i := by
  have inside : i < name.length := by
    by_contra outside
    rw [List.getElem?_eq_none (Nat.not_lt.mp outside)] at dot
    exact Option.some_ne_none '.' dot.symm
  have length : (name.take i).length = i := by
    rw [List.length_take, Nat.min_eq_left (Nat.le_of_lt inside)]
  exact ⟨Above.iff_getElem?.mpr ⟨List.take_prefix i name, by rw [length]; exact dot⟩, length⟩

/-- One round of the loop registers the logger below the name that was cut off. -/
theorem Registered.of_addProvision {name : LogString} {bound i : Nat} {before result : Hierarchy}
    (rest : Registered name i (before.addProvision (name.take i) name) result)
    (inside : i < bound) (above : Above '.' (name.take i) name) (length : (name.take i).length = i)
    (absent : name.take i ∉ before.loggers)
    (next : ∀ other, Above '.' other name → other.length < bound → other.length ≤ i) :
    Registered name bound before result := by
  have added := fun other => addProvision_waiting before (name.take i) name other
  refine ⟨rest.loggers, rest.root, rest.threshold, rest.configured, ?_, ?_, ?_⟩
  · intro other node member
    apply rest.keeps
    rw [added]
    split
    · exact List.mem_append_left _ member
    · exact member
  · intro other node member
    rcases rest.adds other node member with old | new
    · rw [added] at old
      split at old
      · rename_i same
        subst same
        rcases List.mem_append.mp old with old | new
        · exact Or.inl old
        · exact Or.inr ⟨List.mem_singleton.mp new, above, absent⟩
      · exact Or.inl old
    · exact Or.inr new
  · intro other otherAbove below otherAbsent deeper
    by_cases same : other = name.take i
    · apply rest.keeps
      rw [added, if_pos same.symm]
      exact List.mem_append_right _ (List.mem_singleton_self name)
    · have farther := next other otherAbove below
      apply rest.complete other otherAbove ?_ otherAbsent
      · intro candidate member candidateAbove candidateBelow
        exact deeper candidate member candidateAbove (by omega)
      · by_contra reached
        exact same (otherAbove.eq_of_length above (by omega))

/-- The loop stops at the nearest ancestor and registers the logger on the way. -/
theorem updateParentsFrom_spec (name : LogString) (plain : name[0]? ≠ some '.')
    (fuel bound : Nat) (self : Hierarchy) (enough : bound ≤ fuel)
    (passed : ∀ above ∈ self.loggers, Above '.' above name → above.length < bound) :
    ∃ result parent, updateParentsFrom name fuel self (lastDotBelow name bound) =
        some (result.setParent name parent) ∧
      Registered name bound self result ∧ self.LeadsTo name parent := by
  induction bound using Nat.strong_induction_on generalizing fuel self with
  | _ bound ih =>
      cases found : lastDotBelow name bound with
      | none =>
          have clear : ∀ other, Above '.' other name → ¬ other.length < bound := by
            intro other above below
            exact lastDotBelow_none name bound found other.length below
              (Above.iff_getElem?.mp above).2
          refine ⟨self, .root, by cases fuel <;> rfl, ?_, ?_⟩
          · exact ⟨rfl, rfl, rfl, rfl, fun _ _ member => member, fun _ _ member => Or.inl member,
              fun other above below => absurd below (clear other above)⟩
          · intro other member above
            exact clear other above (passed other member above)
      | some i =>
          obtain ⟨inside, dot, last⟩ := lastDotBelow_some name bound i found
          obtain ⟨above, length⟩ := above_take name i dot
          -- No name above lies between the cut and the bound.
          have next : ∀ other, Above '.' other name → other.length < bound →
              other.length ≤ i := by
            intro other otherAbove below
            by_contra longer
            exact last other.length (by omega) below (Above.iff_getElem?.mp otherAbove).2
          cases fuel with
          | zero => omega
          | succ fuel =>
              rw [updateParentsFrom]
              by_cases present : name.take i ∈ self.loggers
              · refine ⟨self, .named (name.take i), by rw [if_pos present], ?_, ?_⟩
                · refine ⟨rfl, rfl, rfl, rfl, fun _ _ member => member,
                    fun _ _ member => Or.inl member, ?_⟩
                  intro other otherAbove below absent deeper
                  have shorter := deeper _ present above (by omega)
                  have farther := next other otherAbove below
                  omega
                · refine ⟨present, above, fun other member otherAbove => ?_⟩
                  have farther := next other otherAbove (passed other member otherAbove)
                  omega
              · have positive : i ≠ 0 := by
                  rintro rfl
                  exact plain dot
                have rest := ih i inside fuel (self.addProvision (name.take i) name) (by omega)
                  (by
                    intro other member otherAbove
                    have farther := next other otherAbove (passed other member otherAbove)
                    have different : other ≠ name.take i := by
                      rintro rfl
                      exact present member
                    by_contra reached
                    exact different (otherAbove.eq_of_length above (by omega)))
                obtain ⟨result, parent, run, registered, leads⟩ := rest
                refine ⟨result, parent, ?_, ?_, leads⟩
                · rw [if_neg present, nextDot, if_neg positive]
                  exact run
                · exact registered.of_addProvision inside above length present next

/-- A logger hangs too high when its parent's name does not start with the new name. -/
def HangsAbove (name : LogString) (logger : Logger) : Prop :=
  ∀ parent ∈ logger.parent, StringHelper.startsWith parent.name name = false

instance (name : LogString) (logger : Logger) : Decidable (HangsAbove name logger) :=
  inferInstanceAs (Decidable (∀ parent ∈ logger.parent, _))

/-- A relinked logger gets the new logger as its parent. -/
def relinked (name : LogString) (nodes : ProvisionNode) (other : LogString) (logger : Logger) :
    Logger :=
  if other ∈ nodes ∧ HangsAbove name logger then { logger with parent := some (.named name) }
  else logger

theorem relinked_cons (name child other : LogString) (nodes : ProvisionNode) (logger : Logger) :
    relinked name nodes other (relinked name [child] other logger) =
      relinked name (child :: nodes) other logger := by
  have settled : ¬ HangsAbove name { logger with parent := some (.named name) } := by
    intro free
    have differs := free (.named name) rfl
    change StringHelper.startsWith name name = false at differs
    rw [(StringHelper.startsWith_iff _ _).mpr (List.prefix_refl name)] at differs
    exact Bool.noConfusion differs
  by_cases same : other = child
  · by_cases free : HangsAbove name logger
    · simp [relinked, same, free, settled]
    · simp [relinked, same, free]
  · simp [relinked, same]

/-- A logger that is not listed stays as it is. -/
theorem map_relinked_apart (name other : LogString) (nodes : ProvisionNode)
    (apart : other ∉ nodes) (logger : Option Logger) :
    logger.map (relinked name nodes other) = logger := by
  have same : relinked name nodes other = id := by
    funext old
    simp [relinked, apart]
  rw [same, Option.map_id]
  rfl

theorem relinked_parent (name other : LogString) (nodes : ProvisionNode) (logger : Logger)
    (linked : logger.parent ≠ none) : (relinked name nodes other logger).parent ≠ none := by
  unfold relinked
  split
  · simp
  · exact linked

@[simp] theorem relinked_name (name other : LogString) (nodes : ProvisionNode) (logger : Logger) :
    (relinked name nodes other logger).name = logger.name := by
  unfold relinked
  split <;> rfl

@[simp] theorem relinked_appenderList (name other : LogString) (nodes : ProvisionNode)
    (logger : Logger) : (relinked name nodes other logger).appenderList = logger.appenderList := by
  unfold relinked
  split <;> rfl

/-- The loop of `updateChildren` relinks the listed loggers and no others. -/
structure Relinked (name : LogString) (nodes : ProvisionNode) (before result : Hierarchy) :
    Prop where
  provisionNodes : result.provisionNodes = before.provisionNodes
  root : result.root = before.root
  threshold : result.threshold = before.threshold
  configured : result.configured = before.configured
  others : ∀ other, other ≠ name →
    result.loggers[other]? = (before.loggers[other]?).map (relinked name nodes other)
  own : ∃ parent : Logger → Option LoggerPtr, result.loggers[name]? =
    (before.loggers[name]?).map fun logger : Logger => { logger with parent := parent logger }

theorem updateChild_spec (name : LogString) (self : Hierarchy) (child : LogString)
    (different : child ≠ name) (logger : Logger) (found : self.loggers[child]? = some logger)
    (linked : logger.parent ≠ none) :
    ∃ result, updateChild name self child = some result ∧ Relinked name [child] self result := by
  obtain ⟨parent, known⟩ := Option.ne_none_iff_exists'.mp linked
  simp only [updateChild, found, Option.bind_some, known]
  have hangs : HangsAbove name logger ↔ StringHelper.startsWith parent.name name = false := by
    simp [HangsAbove, known]
  by_cases lower : StringHelper.startsWith parent.name name = true
  · refine ⟨self, by rw [if_pos lower], rfl, rfl, rfl, rfl, ?_, Logger.parent, ?_⟩
    · intro other _
      by_cases same : other = child
      · subst same
        simp [found, relinked, hangs, lower]
      · exact (map_relinked_apart name other [child] (by simpa using same) _).symm
    · exact (congrFun Option.map_id _).symm
  · refine ⟨(self.setParent name parent).setParent child (.named name), by rw [if_neg lower],
      rfl, rfl, rfl, rfl, ?_, fun _ => some parent, ?_⟩
    · intro other apart
      rw [setParent_get, setParent_get, if_neg (Ne.symm apart)]
      by_cases same : other = child
      · subst same
        simp [found, relinked, hangs, lower]
      · rw [if_neg (Ne.symm same)]
        exact (map_relinked_apart name other [child] (by simpa using same) _).symm
    · rw [setParent_get, setParent_get, if_neg different, if_pos rfl]

/-- Every listed logger must have a parent already. -/
theorem updateChildren_spec (name : LogString) (nodes : ProvisionNode) (self : Hierarchy)
    (known : ∀ child ∈ nodes, child ≠ name ∧
      ∃ logger, self.loggers[child]? = some logger ∧ logger.parent ≠ none) :
    ∃ result, self.updateChildren nodes name = some result ∧ Relinked name nodes self result := by
  induction nodes generalizing self with
  | nil =>
      refine ⟨self, rfl, rfl, rfl, rfl, rfl, ?_, Logger.parent, ?_⟩
      · intro other _
        exact (map_relinked_apart name other [] List.not_mem_nil _).symm
      · exact (congrFun Option.map_id _).symm
  | cons child nodes ih =>
      obtain ⟨different, logger, found, linked⟩ := known child (List.mem_cons_self ..)
      obtain ⟨next, run, step⟩ := updateChild_spec name self child different logger found linked
      have rest := ih next (by
        intro other member
        obtain ⟨apart, old, oldFound, oldLinked⟩ := known other (List.mem_cons_of_mem _ member)
        refine ⟨apart, relinked name [child] other old, ?_, relinked_parent _ _ _ _ oldLinked⟩
        rw [step.others other apart, oldFound, Option.map_some])
      obtain ⟨result, restRun, restStep⟩ := rest
      refine ⟨result, ?_, restStep.provisionNodes.trans step.provisionNodes,
        restStep.root.trans step.root, restStep.threshold.trans step.threshold,
        restStep.configured.trans step.configured, ?_, ?_⟩
      · rw [updateChildren, List.foldlM_cons, run]
        exact restRun
      · intro other apart
        rw [restStep.others other apart, step.others other apart, Option.map_map]
        congr 1
        funext old
        exact relinked_cons name child other nodes old
      · obtain ⟨first, firstOwn⟩ := step.own
        obtain ⟨second, secondOwn⟩ := restStep.own
        refine ⟨fun old : Logger => second { (old : Logger) with parent := first old }, ?_⟩
        rw [secondOwn, firstOwn, Option.map_map]
        rfl

/-- Every logger of the map is linked and waits wherever an ancestor may still appear. -/
structure Sound (tree : Hierarchy) : Prop where
  plain : ∀ name ∈ tree.loggers, name[0]? ≠ some '.'
  names : ∀ (name : LogString) (logger : Logger), tree.loggers[name]? = some logger →
    logger.name = name
  parents : ∀ (name : LogString) (logger : Logger), tree.loggers[name]? = some logger →
    logger.parent ≠ none
  waits : ∀ above name, name ∈ tree.waiting above →
    above ∉ tree.loggers ∧ name ∈ tree.loggers ∧ Above '.' above name
  complete : ∀ above name, name ∈ tree.loggers → Above '.' above name → above ∉ tree.loggers →
    (∀ between ∈ tree.loggers, Above '.' between name → between.length < above.length) →
    name ∈ tree.waiting above

/-- A new logger relinks the loggers that waited for it and finds its own nearest ancestor. -/
structure Extended (name : LogString) (before result : Hierarchy) : Prop where
  root : result.root = before.root
  threshold : result.threshold = before.threshold
  configured : result.configured = before.configured
  others : ∀ other, other ≠ name → result.loggers[other]? =
    (before.loggers[other]?).map (relinked name (before.waiting name) other)
  own : ∃ parent, result.loggers[name]? =
    some { Logger.create name with parent := some parent } ∧ before.LeadsTo name parent

theorem Extended.mem_iff {name : LogString} {before result : Hierarchy}
    (extended : Extended name before result) (other : LogString) :
    other ∈ result.loggers ↔ other = name ∨ other ∈ before.loggers := by
  by_cases same : other = name
  · subst same
    obtain ⟨parent, found, _⟩ := extended.own
    exact iff_of_true (LogMap.mem_of_get _ _ found) (Or.inl rfl)
  · rw [LogMap.mem_iff, LogMap.mem_iff, extended.others other same]
    simp [same]

end CodeCollect.Log4cxx.Hierarchy
