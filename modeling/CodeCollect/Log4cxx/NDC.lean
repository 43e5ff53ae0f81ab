import CodeCollect.Log4cxx.DiagnosticContextSteps

namespace CodeCollect.Log4cxx

open CodeCollect.Library

/-- The purpose of the context is a stack of messages, with the latest one at the head. -/
structure NestedContext where
  messages : List LogString
  clones : List (List LogString)

namespace NestedContext

/-- The messages are joined by single spaces from the oldest to the newest. -/
def fullMessage (messages : List LogString) : LogString :=
  [' '].intercalate messages.reverse

def answer (self : NestedContext) : NDC.Operation → ContextResult
  | .push _ | .clear | .remove | .cloneStack | .inherit _ => .done
  | .pop | .peek => .text (self.messages.headD [])
  | .popInto | .peekInto => .message self.messages.head?
  | .get dest =>
      if self.messages = [] then .found false dest
      else .found true (dest ++ fullMessage self.messages)
  | .getDepth => .depth self.messages.length
  | .empty => .flag self.messages.isEmpty

/-- An inherited stack takes the place of the messages and is no longer among the clones. -/
def next (self : NestedContext) : NDC.Operation → NestedContext
  | .push message => { self with messages := message :: self.messages }
  | .pop | .popInto => { self with messages := self.messages.tail }
  | .clear | .remove => { self with messages := [] }
  | .cloneStack => { self with clones := self.clones ++ [self.messages] }
  | .inherit (some i) =>
      match self.clones[i]? with
      | none => self
      | some stack => ⟨stack, self.clones.eraseIdx i⟩
  | .inherit none | .peek | .peekInto | .get _ | .getDepth | .empty => self

/-- The other context is no part of the history. -/
def history (operations : List ContextOperation) : NestedContext :=
  operations.foldl
    (fun context operation =>
      match operation with
      | .mdc _ => context
      | .ndc operation => context.next operation)
    ⟨[], []⟩

/-- These are the cells of a stack with such messages. -/
def cells : List LogString → NDC.Stack
  | [] => []
  | message :: below => ⟨message, fullMessage (message :: below)⟩ :: cells below

/-- A further message follows the others behind a space. -/
theorem fullMessage_cons (message top : LogString) (below : List LogString) :
    fullMessage (message :: top :: below) = fullMessage (top :: below) ++ ' ' :: message := by
  have concat : ∀ first rest, [' '].intercalate (first :: rest ++ [message]) =
      [' '].intercalate (first :: rest) ++ ' ' :: message := by
    intro first rest
    induction rest generalizing first with
    | nil => simp
    | cons second rest ih =>
        rw [List.cons_append, List.cons_append, List.intercalate_cons_cons, ← List.cons_append,
          ih second, List.intercalate_cons_cons]
        simp only [List.append_assoc]
  rw [fullMessage, fullMessage, List.reverse_cons]
  cases reversed : (top :: below).reverse with
  | nil => exact absurd (congrArg List.length reversed) (by simp)
  | cons first rest => exact concat first rest

/-- A push makes the cells of the longer stack. -/
theorem cells_push (message : LogString) (messages : List LogString) :
    NDC.pushed message (cells messages) = cells (message :: messages) := by
  cases messages with
  | nil => simp [cells, NDC.pushed, fullMessage]
  | cons top below => rw [cells, NDC.pushed, cells, cells, fullMessage_cons]

theorem cells_head (messages : List LogString) :
    (cells messages).head?.map DiagnosticContext.message = messages.head? := by
  cases messages <;> rfl

theorem cells_tail (messages : List LogString) : (cells messages).tail = cells messages.tail := by
  cases messages <;> rfl

theorem cells_length (messages : List LogString) : (cells messages).length = messages.length := by
  induction messages with
  | nil => rfl
  | cons message below ih => rw [cells, List.length_cons, List.length_cons, ih]

theorem cells_isEmpty (messages : List LogString) :
    (cells messages).isEmpty = messages.isEmpty := by
  cases messages <;> rfl

/-- The data of a thread holds the cells of the messages. -/
structure Represents (context : NestedContext) (thread : ContextThread) : Prop where
  stack : thread.cells = cells context.messages
  clones : thread.clones = context.clones.map cells

section Step

variable {context : NestedContext} {thread : ContextThread}

theorem Represents.mdc (represents : Represents context thread) (operation : MDC.Operation) :
    Represents context (thread.mdc operation).2 := by
  obtain ⟨_, stack, clones⟩ := MDC.mdc_after thread operation
  exact ⟨stack.trans represents.stack, clones.trans represents.clones⟩

/-- Each operation answers by the messages. -/
theorem Represents.answer (represents : Represents context thread)
    (operation : NDC.Operation) : (thread.ndc operation).1 = context.answer operation := by
  have stack : ThreadSpecificData.cells thread.key = NestedContext.cells context.messages :=
    represents.stack
  have top : (ThreadSpecificData.cells thread.key).head?.map DiagnosticContext.message =
      context.messages.head? := by
    rw [stack, cells_head]
  cases operation with
  | push message => rfl
  | pop =>
      rw [ContextThread.ndc, NDC.pop_eq, NDC.popInto_result, top, NestedContext.answer,
        List.headD_eq_head?_getD]
  | popInto =>
      rw [ContextThread.ndc, NDC.popInto_result, top]
      rfl
  | peek =>
      rw [ContextThread.ndc, NDC.peek_eq, NDC.peekInto_result, top, NestedContext.answer,
        List.headD_eq_head?_getD]
  | peekInto =>
      rw [ContextThread.ndc, NDC.peekInto_result, top]
      rfl
  | get dest =>
      rw [ContextThread.ndc, NDC.get_result, stack, NestedContext.answer]
      cases context.messages with
      | nil => rfl
      | cons top below => rw [if_neg (List.cons_ne_nil top below), cells]
  | getDepth =>
      rw [ContextThread.ndc, NDC.getDepth_result, stack, cells_length]
      rfl
  | clear => rfl
  | remove => rfl
  | cloneStack => rfl
  | inherit stack =>
      cases stack with
      | none => rfl
      | some i =>
          rw [ContextThread.ndc]
          split <;> rfl
  | empty =>
      rw [ContextThread.ndc, NDC.empty_result, stack, cells_isEmpty]
      rfl

/-- Each operation leaves the cells of the next messages. -/
theorem Represents.next (represents : Represents context thread) (operation : NDC.Operation) :
    Represents (context.next operation) (thread.ndc operation).2 := by
  have stack : ThreadSpecificData.cells thread.key = NestedContext.cells context.messages :=
    represents.stack
  have clones := represents.clones
  cases operation with
  | push message =>
      refine ⟨?_, clones⟩
      exact (NDC.push_after [] message thread.key).2.trans
        ((congrArg _ stack).trans (cells_push message context.messages))
  | pop =>
      rw [ContextThread.ndc, NDC.pop_eq]
      refine ⟨?_, clones⟩
      exact (NDC.popInto_after [] thread.key).2.trans
        ((congrArg _ stack).trans (cells_tail context.messages))
  | popInto =>
      refine ⟨?_, clones⟩
      exact (NDC.popInto_after [] thread.key).2.trans
        ((congrArg _ stack).trans (cells_tail context.messages))
  | peek =>
      rw [ContextThread.ndc, NDC.peek_eq]
      exact ⟨(NDC.peekInto_after [] thread.key).2.trans stack, clones⟩
  | peekInto => exact ⟨(NDC.peekInto_after [] thread.key).2.trans stack, clones⟩
  | get dest => exact ⟨(NDC.get_after [] dest thread.key).2.trans stack, clones⟩
  | getDepth => exact ⟨(NDC.getDepth_after [] thread.key).2.trans stack, clones⟩
  | clear => exact ⟨(NDC.clear_after [] thread.key).2, clones⟩
  | remove => exact ⟨(NDC.clear_after [] thread.key).2, clones⟩
  | cloneStack =>
      refine ⟨stack, ?_⟩
      show thread.clones ++ [ThreadSpecificData.cells thread.key] = _
      rw [clones, stack, NestedContext.next, List.map_append]
      rfl
  | inherit taken =>
      cases taken with
      | none => exact represents
      | some i =>
          rw [ContextThread.ndc, NestedContext.next, clones, List.getElem?_map]
          cases context.clones[i]? with
          | none => exact represents
          | some messages =>
              refine ⟨(NDC.inherit_after [] thread.key _).2, ?_⟩
              show (context.clones.map cells).eraseIdx i = _
              rw [List.eraseIdx_map]
  | empty => exact ⟨(NDC.empty_after [] thread.key).2.trans stack, clones⟩

end Step

/-- Every run leaves the cells of the messages that its history leaves. -/
theorem represents_history {operations : List ContextOperation} {thread : ContextThread}
    {trace : List ContextResult}
    (ran : ContextThread.machine.run operations = some (thread, trace)) :
    Represents (history operations) thread := by
  refine Machine.run_history ContextThread.machine (fun _ _ => True)
    (fun operations thread _ => Represents (history operations) thread) ⟨rfl, rfl⟩ ?_ ran
    (Machine.along_of_forall fun _ _ _ => trivial)
  intro earlier before past operation _ _ _ represents _ stepped
  obtain ⟨rfl, rfl⟩ := Prod.mk.inj (Option.some.inj stepped)
  rw [history, List.foldl_append]
  cases operation with
  | mdc operation => exact represents.mdc operation
  | ndc operation => exact represents.next operation

/-- Pushing messages onto an empty stack makes their cells. -/
theorem cells_pushAll (thread : ContextThread) (messages : List LogString) :
    (messages.foldr (fun message thread => (thread.ndc (.push message)).2)
      (thread.ndc .clear).2).cells = cells messages := by
  induction messages with
  | nil => exact (NDC.clear_after [] thread.key).2
  | cons message below ih =>
      exact (NDC.push_after [] message _).2.trans
        ((congrArg _ ih).trans (cells_push message below))

/-- The operations of a thread deal with a stack of messages and leave the other context alone. -/
structure Faithful (operations : List ContextOperation) (thread : ContextThread) : Prop where
  answers : ∀ operation, (thread.ndc operation).1 = (history operations).answer operation
  inherits : ∀ i messages, (history operations).clones[i]? = some messages →
    (thread.ndc (.inherit (some i))).2.cells =
      (messages.foldr (fun message thread => (thread.ndc (.push message)).2)
        (thread.ndc .clear).2).cells
  keepsEntries : ∀ operation key, (thread.ndc operation).2.entry key = thread.entry key
  keepsCells : ∀ operation, (thread.mdc operation).2.cells = thread.cells

end NestedContext

end CodeCollect.Log4cxx
