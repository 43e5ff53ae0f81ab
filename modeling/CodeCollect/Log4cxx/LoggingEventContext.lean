import CodeCollect.Log4cxx.ThreadSpecificData

namespace CodeCollect.Log4cxx

/-- These fields of a `LoggingEvent` hold its mapped context. -/
structure LoggingEventContext where
  mdcCopy : Option (LogMap LogString)
  mdcCopyLookupRequired : Bool

open ThreadSpecificData (Key)

namespace LoggingEventContext

/-- A new event has no copy. -/
def create : LoggingEventContext := ⟨none, true⟩

/-- The map of a thread without data is empty. -/
def liveMap (thread : Key) : LogMap LogString :=
  match thread with
  | none => ∅
  | some data => data.mdcMap

def getMDCCopy (self : LoggingEventContext) (thread : Key) : LoggingEventContext :=
  if self.mdcCopyLookupRequired then ⟨some (liveMap thread), false⟩ else self

/-- An empty value in the copy counts as no value. -/
def getMDC (self : LoggingEventContext) (key dest : LogString) (thread : Key) :
    (Bool × LogString) × Key :=
  match self.mdcCopy with
  | none => MDC.get key dest thread
  | some mdcCopy =>
      if mdcCopy.isEmpty then MDC.get key dest thread
      else
        match mdcCopy[key]? with
        | none => MDC.get key dest thread
        | some value =>
            if value.isEmpty then MDC.get key dest thread
            else ((true, dest ++ value), thread)

def getMDCKeySet (self : LoggingEventContext) (thread : Key) : List LogString :=
  match self.mdcCopy with
  | none => (liveMap thread).keys
  | some mdcCopy => if mdcCopy.isEmpty then (liveMap thread).keys else mdcCopy.keys

/-- This is the answer of a map alone. -/
def answer (map : LogMap LogString) (key dest : LogString) : Bool × LogString :=
  match map[key]? with
  | none => (false, dest)
  | some value => (true, dest ++ value)

/-- Once a thread has captured the event, calls on other threads change nothing. -/
def captured (producer : Key) (others : List Key) : LoggingEventContext :=
  others.foldl getMDCCopy (create.getMDCCopy producer)

theorem captured_eq (producer : Key) (others : List Key) :
    captured producer others = ⟨some (liveMap producer), false⟩ := by
  rw [captured]
  induction others with
  | nil => rfl
  | cons other others ih => exact ih

/-- A thread can have any value under a key. -/
def holding (key value : LogString) : Key := ThreadSpecificData.put key value none

theorem liveMap_holding (key value : LogString) :
    (liveMap (holding key value))[key]? = some value := by
  have found : (ThreadSpecificData.create.mdcMap.insertIfNew key value)[key]? =
      some ((ThreadSpecificData.create.mdcMap[key]?).getD value) := by
    rw [LogMap.insertIfNew_get, if_pos rfl]
  rw [ThreadSpecificData.create, LogMap.empty_get] at found
  exact found

theorem get_holding (key value dest : LogString) :
    (MDC.get key dest (holding key value)).1 = (true, dest ++ value) := by
  have found := liveMap_holding key value
  rw [holding, ThreadSpecificData.put, liveMap] at found
  rw [holding, ThreadSpecificData.put, MDC.get]
  dsimp only at found ⊢
  rw [found]

/-- A value that is not empty is taken from the copy, and otherwise the reading thread is asked. -/
theorem getMDC_captured (producer : Key) (others : List Key) (key dest : LogString) (reader : Key) :
    ((captured producer others).getMDC key dest reader).1 =
      if (liveMap producer)[key]?.getD [] ≠ [] then answer (liveMap producer) key dest
      else (MDC.get key dest reader).1 := by
  rw [captured_eq, getMDC]
  dsimp only
  split
  · rename_i empty
    rw [Std.ExtTreeMap.isEmpty_iff.mp empty, LogMap.empty_get, if_neg (by simp)]
  · rw [answer]
    cases (liveMap producer)[key]? with
    | none => rw [if_neg (by simp)]
    | some value => cases value <;> rfl

/-- The keys are those of the copy, unless it has none. -/
theorem getMDCKeySet_captured (producer : Key) (others : List Key) (reader : Key) :
    (captured producer others).getMDCKeySet reader =
      if (liveMap producer).isEmpty then (liveMap reader).keys else (liveMap producer).keys := by
  rw [captured_eq, getMDCKeySet]

/-- Two reading threads differ in any key. -/
theorem readers_differ (key dest : LogString) :
    (MDC.get key dest none).1 ≠ (MDC.get key dest (holding key [])).1 := by
  rw [get_holding]
  simp [MDC.get]

theorem keys_differ : (liveMap none).keys ≠ (liveMap (holding [] [])).keys := by
  intro same
  have empty := congrArg List.isEmpty same
  rw [Std.ExtTreeMap.isEmpty_keys, Std.ExtTreeMap.isEmpty_keys] at empty
  have none : liveMap (holding [] []) = ∅ :=
    Std.ExtTreeMap.isEmpty_iff.mp (empty.symm.trans Std.ExtTreeMap.isEmpty_empty)
  have found := liveMap_holding [] []
  rw [none, LogMap.empty_get] at found
  exact absurd found (by simp)

/-- What a captured event answers depends on its producer alone exactly for the keys with a value
that is not empty, and its keys do so exactly when there are some. -/
theorem captures_iff (producer : Key) (others : List Key) :
    (∀ key, ((∀ dest reader, ((captured producer others).getMDC key dest reader).1 =
        answer (liveMap producer) key dest) ↔ (liveMap producer)[key]?.getD [] ≠ []) ∧
      ((∀ dest reader reader', ((captured producer others).getMDC key dest reader).1 =
        ((captured producer others).getMDC key dest reader').1) ↔
          (liveMap producer)[key]?.getD [] ≠ [])) ∧
    ((∀ reader, (captured producer others).getMDCKeySet reader = (liveMap producer).keys) ↔
      liveMap producer ≠ ∅) ∧
    ((∀ reader reader', (captured producer others).getMDCKeySet reader =
      (captured producer others).getMDCKeySet reader') ↔ liveMap producer ≠ ∅) := by
  simp only [getMDC_captured, getMDCKeySet_captured]
  refine ⟨fun key => ?_, ?_⟩
  · by_cases filled : (liveMap producer)[key]?.getD [] ≠ []
    · simp only [if_pos filled]
      exact ⟨iff_of_true (fun _ _ => trivial) filled, iff_of_true (fun _ _ _ => trivial) filled⟩
    · simp only [if_neg filled]
      refine ⟨iff_of_false (fun same => ?_) filled, iff_of_false (fun same => ?_) filled⟩
      · exact readers_differ key [] ((same [] none).trans (same [] (holding key [])).symm)
      · exact readers_differ key [] (same [] none (holding key []))
  · by_cases empty : (liveMap producer).isEmpty
    · have none := not_not.mpr (Std.ExtTreeMap.isEmpty_iff.mp empty)
      simp only [if_pos empty]
      refine ⟨iff_of_false (fun same => ?_) none, iff_of_false (fun same => ?_) none⟩
      · exact keys_differ ((same Option.none).trans (same (holding [] [])).symm)
      · exact keys_differ (same Option.none (holding [] []))
    · have some := mt Std.ExtTreeMap.isEmpty_iff.mpr empty
      simp only [if_neg empty]
      exact ⟨iff_of_true (fun _ => trivial) some, iff_of_true (fun _ _ => trivial) some⟩

/-- An event of a thread without a context answers from the context of its reader. -/
theorem captured_leaks : ¬ ∀ producer : Key, ∀ key dest reader reader',
    (((create.getMDCCopy producer).getMDC key dest reader).1 =
      ((create.getMDCCopy producer).getMDC key dest reader').1) := by
  intro independent
  have same := independent none [] [] none (holding [] [])
  exact absurd same (readers_differ [] [])

end LoggingEventContext

end CodeCollect.Log4cxx
