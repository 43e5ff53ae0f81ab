import CodeCollect.Library.Machine
import CodeCollect.Log4cxx.ThreadSpecificData

namespace CodeCollect.Log4cxx

open CodeCollect.Library
open ThreadSpecificData (Key)

namespace ThreadSpecificData

/-- A thread without data has no entries. -/
def entry (thread : Key) (key : LogString) : Option LogString :=
  thread.bind fun data => data.mdcMap[key]?

/-- A thread without data has no cells. -/
def cells (thread : Key) : NDC.Stack := NDC.cloneStack thread

@[simp] theorem entry_none (key : LogString) : entry none key = none := rfl

@[simp] theorem entry_some (data : ThreadSpecificData) (key : LogString) :
    entry (some data) key = data.mdcMap[key]? := rfl

@[simp] theorem cells_none : cells none = [] := rfl

@[simp] theorem cells_some (data : ThreadSpecificData) : cells (some data) = data.ndcStack := rfl

theorem entry_current (thread : Key) (key : LogString) :
    (current thread).mdcMap[key]? = entry thread key := by
  cases thread with
  | none => exact LogMap.empty_get key
  | some data => rfl

theorem cells_current (thread : Key) : (current thread).ndcStack = cells thread := by
  cases thread <;> rfl

/-- No entry is lost when data is deleted. -/
@[simp] theorem entry_recycle (data : ThreadSpecificData) (key : LogString) :
    entry data.recycle key = data.mdcMap[key]? := by
  rw [recycle]
  split
  · rename_i empty
    rw [Bool.and_eq_true, Std.ExtTreeMap.isEmpty_iff] at empty
    rw [empty.2, LogMap.empty_get, entry_none]
  · rfl

/-- No cell is lost when data is deleted. -/
@[simp] theorem cells_recycle (data : ThreadSpecificData) :
    cells data.recycle = data.ndcStack := by
  rw [recycle]
  split
  · rename_i empty
    rw [Bool.and_eq_true, List.isEmpty_iff] at empty
    rw [empty.1, cells_none]
  · rfl

/-- A value that is there already stays. -/
theorem entry_put (key val other : LogString) (thread : Key) :
    entry (put key val thread) other =
      if key = other then some ((entry thread key).getD val) else entry thread other := by
  rw [put, entry_some, LogMap.insertIfNew_get, entry_current, entry_current]

end ThreadSpecificData

namespace ContextThread

def entry (self : ContextThread) (key : LogString) : Option LogString :=
  ThreadSpecificData.entry self.key key

def cells (self : ContextThread) : NDC.Stack := ThreadSpecificData.cells self.key

/-- Each action of the machine is one call to the contexts of the thread. -/
def machine : Machine ContextThread ContextOperation ContextResult where
  initial := create
  step thread operation := some ((thread.step operation).2, [(thread.step operation).1])

end ContextThread

namespace MDC

open ThreadSpecificData

section Calls

variable (key dest other : LogString) (thread : Key)

theorem get_result : (get key dest thread).1 =
    match ThreadSpecificData.entry thread key with
    | some found => (true, dest ++ found)
    | none => (false, dest) := by
  cases thread with
  | none => rfl
  | some data =>
      rw [get, entry_some]
      cases data.mdcMap[key]? <;> rfl

/-- A lookup may delete the data of the thread, but none of its contents. -/
theorem get_after : ThreadSpecificData.entry (get key dest thread).2 other =
      ThreadSpecificData.entry thread other ∧
    ThreadSpecificData.cells (get key dest thread).2 = ThreadSpecificData.cells thread := by
  cases thread with
  | none => exact ⟨rfl, rfl⟩
  | some data =>
      rw [get]
      cases data.mdcMap[key]? with
      | none => exact ⟨entry_recycle data other, cells_recycle data⟩
      | some found => exact ⟨rfl, rfl⟩

theorem remove_result : (remove key dest thread).1 =
    ((ThreadSpecificData.entry thread key).isSome,
      (ThreadSpecificData.entry thread key).getD dest) := by
  cases thread with
  | none => rfl
  | some data =>
      rw [remove, entry_some]
      cases data.mdcMap[key]? <;> rfl

theorem remove_after : ThreadSpecificData.entry (remove key dest thread).2 other =
      (if key = other then none else ThreadSpecificData.entry thread other) ∧
    ThreadSpecificData.cells (remove key dest thread).2 = ThreadSpecificData.cells thread := by
  cases thread with
  | none => exact ⟨by simp [remove], rfl⟩
  | some data =>
      rw [remove]
      cases found : data.mdcMap[key]? with
      | none =>
          refine ⟨?_, rfl⟩
          dsimp only
          rw [entry_some]
          by_cases same : key = other
          · rw [if_pos same, ← same, found]
          · rw [if_neg same]
      | some value =>
          rw [entry_recycle, cells_recycle, LogMap.erase_get]
          exact ⟨rfl, rfl⟩

theorem clear_after : ThreadSpecificData.entry (clear thread) other = none ∧
    ThreadSpecificData.cells (clear thread) = ThreadSpecificData.cells thread := by
  cases thread with
  | none => exact ⟨rfl, rfl⟩
  | some data =>
      rw [clear, entry_recycle, cells_recycle, LogMap.empty_get]
      exact ⟨rfl, rfl⟩

theorem put_cells : ThreadSpecificData.cells (ThreadSpecificData.put key dest thread) =
    ThreadSpecificData.cells thread :=
  cells_current thread

end Calls

/-- This is the new value of a key when a put does not replace a value. -/
def inserted (value : LogString → Option LogString) (key : LogString) :
    Operation → Option LogString
  | .put other new | .construct other new =>
      if other = key then some ((value other).getD new) else value key
  | .remove other _ | .removeString other | .destroy ⟨other⟩ =>
      if other = key then none else value key
  | .clear => none
  | .get _ _ | .getString _ => value key

/-- The operations change the entries of their own key and nothing of the other context. -/
theorem mdc_after (thread : ContextThread) (operation : Operation) :
    (∀ key, (thread.mdc operation).2.entry key = inserted thread.entry key operation) ∧
      (thread.mdc operation).2.cells = thread.cells ∧
      (thread.mdc operation).2.clones = thread.clones := by
  cases operation with
  | put key value => exact ⟨fun other => entry_put .., put_cells .., rfl⟩
  | get key dest =>
      exact ⟨fun other => (get_after key dest other thread.key).1,
        (get_after key dest key thread.key).2, rfl⟩
  | getString key =>
      exact ⟨fun other => (get_after key [] other thread.key).1,
        (get_after key [] key thread.key).2, rfl⟩
  | remove key dest =>
      exact ⟨fun other => (remove_after key dest other thread.key).1,
        (remove_after key dest key thread.key).2, rfl⟩
  | removeString key =>
      exact ⟨fun other => (remove_after key [] other thread.key).1,
        (remove_after key [] key thread.key).2, rfl⟩
  | clear => exact ⟨fun other => (clear_after other thread.key).1,
      (clear_after [] thread.key).2, rfl⟩
  | construct key value => exact ⟨fun other => entry_put .., put_cells .., rfl⟩
  | destroy context =>
      exact ⟨fun other => (remove_after context.key [] other thread.key).1,
        (remove_after context.key [] context.key thread.key).2, rfl⟩

end MDC

namespace NDC

open ThreadSpecificData

section Calls

variable (key message dest : LogString) (thread : Key)

/-- A new cell on top has the message behind the full message of the cells below. -/
def pushed (message : LogString) : Stack → Stack
  | [] => [⟨message, message⟩]
  | top :: below => ⟨message, top.fullMessage ++ ' ' :: message⟩ :: top :: below

theorem push_after : ThreadSpecificData.entry (ThreadSpecificData.push message thread) key =
      ThreadSpecificData.entry thread key ∧
    ThreadSpecificData.cells (ThreadSpecificData.push message thread) =
      pushed message (ThreadSpecificData.cells thread) := by
  cases thread with
  | none => exact ⟨LogMap.empty_get key, rfl⟩
  | some data =>
      obtain ⟨ndcStack, mdcMap⟩ := data
      cases ndcStack <;> exact ⟨rfl, rfl⟩

theorem inherit_after (src : Stack) :
    ThreadSpecificData.entry (ThreadSpecificData.inherit src thread) key =
        ThreadSpecificData.entry thread key ∧
      ThreadSpecificData.cells (ThreadSpecificData.inherit src thread) = src := by
  cases thread with
  | none => exact ⟨LogMap.empty_get key, rfl⟩
  | some data => exact ⟨rfl, rfl⟩

theorem clear_after : ThreadSpecificData.entry (clear thread) key =
      ThreadSpecificData.entry thread key ∧
    ThreadSpecificData.cells (clear thread) = [] := by
  cases thread with
  | none => exact ⟨rfl, rfl⟩
  | some data => exact ⟨entry_recycle _ key, cells_recycle _⟩

theorem get_result : (get dest thread).1 =
    match ThreadSpecificData.cells thread with
    | top :: _ => (true, dest ++ top.fullMessage)
    | [] => (false, dest) := by
  cases thread with
  | none => rfl
  | some data =>
      rw [get, cells_some]
      cases data.ndcStack <;> rfl

theorem get_after : ThreadSpecificData.entry (get dest thread).2 key =
      ThreadSpecificData.entry thread key ∧
    ThreadSpecificData.cells (get dest thread).2 = ThreadSpecificData.cells thread := by
  cases thread with
  | none => exact ⟨rfl, rfl⟩
  | some data =>
      rw [get]
      cases data.ndcStack with
      | nil => exact ⟨entry_recycle data key, cells_recycle data⟩
      | cons top below => exact ⟨rfl, rfl⟩

theorem getDepth_result : (getDepth thread).1 = (ThreadSpecificData.cells thread).length := by
  cases thread <;> rfl

theorem getDepth_after : ThreadSpecificData.entry (getDepth thread).2 key =
      ThreadSpecificData.entry thread key ∧
    ThreadSpecificData.cells (getDepth thread).2 = ThreadSpecificData.cells thread := by
  cases thread with
  | none => exact ⟨rfl, rfl⟩
  | some data =>
      rw [getDepth]
      dsimp only
      split
      · exact ⟨entry_recycle data key, cells_recycle data⟩
      · exact ⟨rfl, rfl⟩

theorem popInto_result : (popInto thread).1 =
    (ThreadSpecificData.cells thread).head?.map DiagnosticContext.message := by
  cases thread with
  | none => rfl
  | some data =>
      rw [popInto, cells_some]
      cases data.ndcStack <;> rfl

theorem popInto_after : ThreadSpecificData.entry (popInto thread).2 key =
      ThreadSpecificData.entry thread key ∧
    ThreadSpecificData.cells (popInto thread).2 = (ThreadSpecificData.cells thread).tail := by
  cases thread with
  | none => exact ⟨rfl, rfl⟩
  | some data =>
      rw [popInto, cells_some]
      cases stack : data.ndcStack with
      | nil => exact ⟨entry_recycle data key, (cells_recycle data).trans stack⟩
      | cons top below => exact ⟨entry_recycle _ key, cells_recycle _⟩

/-- The overloads of `pop` take the same message and leave the same data. -/
theorem pop_eq : pop thread = ((popInto thread).1.getD [], (popInto thread).2) := by
  cases thread with
  | none => rfl
  | some data =>
      rw [pop, popInto]
      cases data.ndcStack <;> rfl

theorem peekInto_result : (peekInto thread).1 =
    (ThreadSpecificData.cells thread).head?.map DiagnosticContext.message := by
  cases thread with
  | none => rfl
  | some data =>
      rw [peekInto, cells_some]
      cases data.ndcStack <;> rfl

theorem peekInto_after : ThreadSpecificData.entry (peekInto thread).2 key =
      ThreadSpecificData.entry thread key ∧
    ThreadSpecificData.cells (peekInto thread).2 = ThreadSpecificData.cells thread := by
  cases thread with
  | none => exact ⟨rfl, rfl⟩
  | some data =>
      rw [peekInto]
      cases data.ndcStack with
      | nil => exact ⟨entry_recycle data key, cells_recycle data⟩
      | cons top below => exact ⟨rfl, rfl⟩

/-- The overloads of `peek` find the same message and leave the same data. -/
theorem peek_eq : peek thread = ((peekInto thread).1.getD [], (peekInto thread).2) := by
  cases thread with
  | none => rfl
  | some data =>
      rw [peek, peekInto]
      cases data.ndcStack <;> rfl

theorem empty_result : (empty thread).1 = (ThreadSpecificData.cells thread).isEmpty := by
  cases thread <;> rfl

theorem empty_after : ThreadSpecificData.entry (empty thread).2 key =
      ThreadSpecificData.entry thread key ∧
    ThreadSpecificData.cells (empty thread).2 = ThreadSpecificData.cells thread := by
  cases thread with
  | none => exact ⟨rfl, rfl⟩
  | some data =>
      rw [empty]
      dsimp only
      split
      · exact ⟨entry_recycle data key, cells_recycle data⟩
      · exact ⟨rfl, rfl⟩

end Calls

/-- No operation of this context touches the other one. -/
theorem ndc_entry (thread : ContextThread) (operation : Operation) (key : LogString) :
    (thread.ndc operation).2.entry key = thread.entry key := by
  cases operation with
  | push message => exact (push_after ..).1
  | pop =>
      rw [ContextThread.ndc, pop_eq]
      exact (popInto_after ..).1
  | popInto => exact (popInto_after ..).1
  | peek =>
      rw [ContextThread.ndc, peek_eq]
      exact (peekInto_after ..).1
  | peekInto => exact (peekInto_after ..).1
  | get dest => exact (get_after ..).1
  | getDepth => exact (getDepth_after ..).1
  | clear => exact (clear_after ..).1
  | remove => exact (clear_after ..).1
  | cloneStack => rfl
  | inherit stack =>
      cases stack with
      | none => rfl
      | some i =>
          rw [ContextThread.ndc]
          split
          · rfl
          · exact (inherit_after ..).1
  | empty => exact (empty_after ..).1

end NDC

end CodeCollect.Log4cxx
