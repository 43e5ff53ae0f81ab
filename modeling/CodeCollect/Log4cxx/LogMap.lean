import CodeCollect.Log4cxx.LogString

namespace CodeCollect.Log4cxx

/-- A `std::map` whose keys are log strings iterates in the order of its keys. -/
abbrev LogMap (V : Type) := Std.ExtTreeMap LogString V compare

namespace LogMap

variable {V : Type} (map : LogMap V) (key other : LogString)

theorem insert_get (value : V) :
    (map.insert key value)[other]? = if key = other then some value else map[other]? := by
  simp [Std.ExtTreeMap.getElem?_insert]

theorem erase_get : (map.erase key)[other]? = if key = other then none else map[other]? := by
  simp [Std.ExtTreeMap.getElem?_erase]

theorem modify_get (change : V → V) :
    (map.modify key change)[other]? = if key = other then map[other]?.map change else map[other]? := by
  rw [Std.ExtTreeMap.getElem?_modify]
  by_cases same : key = other
  · simp [same]
  · simp [same]

theorem map_get {W : Type} (change : LogString → V → W) :
    (map.map change)[key]? = map[key]?.map (change key) :=
  Std.ExtTreeMap.getElem?_map

theorem mem_iff : key ∈ map ↔ map[key]? ≠ none := by
  rw [Std.ExtTreeMap.mem_iff_isSome_getElem?, Option.isSome_iff_ne_none]

theorem not_mem_iff : key ∉ map ↔ map[key]? = none := by
  rw [mem_iff, not_not]

/-- A value of a map keeps its key among the keys. -/
theorem mem_of_get {value : V} (found : map[key]? = some value) : key ∈ map := by
  rw [mem_iff, found]
  exact Option.some_ne_none value

/-- A value that is there already stays. -/
theorem insertIfNew_get (value : V) :
    (map.insertIfNew key value)[other]? =
      if key = other then some (map[key]?.getD value) else map[other]? := by
  rw [Std.ExtTreeMap.getElem?_insertIfNew]
  by_cases same : key = other
  · subst same
    by_cases absent : map[key]? = none
    · simp [(not_mem_iff map key).mpr absent]
    · simp [(mem_iff map key).mpr absent]
  · simp [same]

theorem empty_get : (∅ : LogMap V)[key]? = none := by
  simp

/-- Erasing an absent key changes nothing. -/
theorem erase_absent (absent : map[key]? = none) : map.erase key = map := by
  apply Std.ExtTreeMap.ext_getElem?
  intro candidate
  rw [erase_get]
  split
  · rename_i same
    rw [← same, absent]
  · rfl

end LogMap

end CodeCollect.Log4cxx
