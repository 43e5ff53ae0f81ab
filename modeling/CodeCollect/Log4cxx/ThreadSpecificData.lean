import CodeCollect.Log4cxx.LogMap

namespace CodeCollect.Log4cxx

/-- A cell of the stack holds a message and the full message of the stack up to it. -/
structure DiagnosticContext where
  message : LogString
  fullMessage : LogString
deriving DecidableEq

/-- The top of a stack is the head of its list. -/
abbrev NDC.Stack := List DiagnosticContext

structure ThreadSpecificData where
  ndcStack : NDC.Stack
  mdcMap : LogMap LogString

namespace ThreadSpecificData

def create : ThreadSpecificData := ⟨[], ∅⟩

/-- The thread key holds no data before the first use and after a deletion. -/
abbrev Key := Option ThreadSpecificData

/-- Data without any content is deleted, and the key is cleared. -/
def recycle (self : ThreadSpecificData) : Key :=
  if self.ndcStack.isEmpty && self.mdcMap.isEmpty then none else some self

/-- Missing data is created first, as in `createCurrentData`. -/
def current (key : Key) : ThreadSpecificData := key.getD create

/-- The map keeps a value that it has under the key, as `std::map::insert` does. -/
def put (key val : LogString) (thread : Key) : Key :=
  let data := current thread
  some { data with mdcMap := data.mdcMap.insertIfNew key val }

def push (val : LogString) (thread : Key) : Key :=
  let data := current thread
  match data.ndcStack with
  | [] => some { data with ndcStack := [⟨val, val⟩] }
  | top :: below =>
      let fullMessage := top.fullMessage ++ ' ' :: val
      some { data with ndcStack := ⟨val, fullMessage⟩ :: top :: below }

def inherit (src : NDC.Stack) (thread : Key) : Key :=
  some { current thread with ndcStack := src }

end ThreadSpecificData

open ThreadSpecificData (Key)

/-- An object of this class holds the key that its destructor removes. -/
structure MDC where
  key : LogString
deriving DecidableEq

namespace MDC

def putLS (key value : LogString) (thread : Key) : Key :=
  ThreadSpecificData.put key value thread

/-- A found value is appended to the destination. -/
def get (key value : LogString) (thread : Key) : (Bool × LogString) × Key :=
  match thread with
  | none => ((false, value), none)
  | some data =>
      match data.mdcMap[key]? with
      | some found => ((true, value ++ found), some data)
      | none => ((false, value), data.recycle)

/-- This is the overload that returns an empty string for an absent key. -/
def getString (key : LogString) (thread : Key) : LogString × Key :=
  let result := get key [] thread
  (if result.1.1 then result.1.2 else [], result.2)

/-- A found value replaces the old content of the destination. -/
def remove (key value : LogString) (thread : Key) : (Bool × LogString) × Key :=
  match thread with
  | none => ((false, value), none)
  | some data =>
      match data.mdcMap[key]? with
      | some found =>
          ((true, found), ({ data with mdcMap := data.mdcMap.erase key }).recycle)
      | none => ((false, value), some data)

def removeString (key : LogString) (thread : Key) : LogString × Key :=
  let result := remove key [] thread
  (if result.1.1 then result.1.2 else [], result.2)

def clear (thread : Key) : Key :=
  match thread with
  | none => none
  | some data => ({ data with mdcMap := ∅ }).recycle

/-- This is the constructor. -/
def construct (key value : LogString) (thread : Key) : MDC × Key :=
  (⟨key⟩, putLS key value thread)

/-- This is the destructor. -/
def destroy (self : MDC) (thread : Key) : Key :=
  (remove self.key [] thread).2

end MDC

namespace NDC

def clear (thread : Key) : Key :=
  match thread with
  | none => none
  | some data => ({ data with ndcStack := [] }).recycle

def cloneStack (thread : Key) : Stack :=
  match thread with
  | none => []
  | some data => data.ndcStack

/-- A null pointer changes nothing. -/
def inherit (stack : Option Stack) (thread : Key) : Key :=
  match stack with
  | none => thread
  | some src => ThreadSpecificData.inherit src thread

/-- The full message of the top is appended to the destination. -/
def get (dest : LogString) (thread : Key) : (Bool × LogString) × Key :=
  match thread with
  | none => ((false, dest), none)
  | some data =>
      match data.ndcStack with
      | top :: _ => ((true, dest ++ top.fullMessage), some data)
      | [] => ((false, dest), data.recycle)

def getDepth (thread : Key) : Nat × Key :=
  match thread with
  | none => (0, none)
  | some data =>
      let size := data.ndcStack.length
      (size, if size = 0 then data.recycle else some data)

/-- An empty stack gives an empty message. -/
def pop (thread : Key) : LogString × Key :=
  match thread with
  | none => ([], none)
  | some data =>
      match data.ndcStack with
      | top :: below => (top.message, ({ data with ndcStack := below }).recycle)
      | [] => ([], data.recycle)

/-- This overload returns whether there is a message, which it encodes for the caller. -/
def popInto (thread : Key) : Option LogString × Key :=
  match thread with
  | none => (none, none)
  | some data =>
      match data.ndcStack with
      | top :: below => (some top.message, ({ data with ndcStack := below }).recycle)
      | [] => (none, data.recycle)

def peek (thread : Key) : LogString × Key :=
  match thread with
  | none => ([], none)
  | some data =>
      match data.ndcStack with
      | top :: _ => (top.message, some data)
      | [] => ([], data.recycle)

def peekInto (thread : Key) : Option LogString × Key :=
  match thread with
  | none => (none, none)
  | some data =>
      match data.ndcStack with
      | top :: _ => (some top.message, some data)
      | [] => (none, data.recycle)

def pushLS (message : LogString) (thread : Key) : Key :=
  ThreadSpecificData.push message thread

def remove (thread : Key) : Key := clear thread

def empty (thread : Key) : Bool × Key :=
  match thread with
  | none => (true, none)
  | some data =>
      let empty := data.ndcStack.isEmpty
      (empty, if empty then data.recycle else some data)

end NDC

/-- These are the calls to the mapped context of a thread. -/
inductive MDC.Operation where
  | put (key value : LogString)
  | get (key value : LogString)
  | getString (key : LogString)
  | remove (key value : LogString)
  | removeString (key : LogString)
  | clear
  | construct (key value : LogString)
  | destroy (context : MDC)
deriving DecidableEq

/-- A cloned stack is known by its place among the clones that no call has taken. -/
inductive NDC.Operation where
  | push (message : LogString)
  | pop
  | popInto
  | peek
  | peekInto
  | get (dest : LogString)
  | getDepth
  | clear
  | remove
  | cloneStack
  | inherit (stack : Option Nat)
  | empty
deriving DecidableEq

inductive ContextOperation where
  | mdc (operation : MDC.Operation)
  | ndc (operation : NDC.Operation)
deriving DecidableEq

/-- This is what a caller sees of an operation. -/
inductive ContextResult where
  | done
  | found (returned : Bool) (dest : LogString)
  | text (returned : LogString)
  | message (returned : Option LogString)
  | depth (returned : Nat)
  | flag (returned : Bool)
deriving DecidableEq

/-- A thread owns its data and the clones that wait to be inherited. -/
structure ContextThread where
  key : Key
  clones : List NDC.Stack

namespace ContextThread

def create : ContextThread := ⟨none, []⟩

def mdc (self : ContextThread) : MDC.Operation → ContextResult × ContextThread
  | .put key value => (.done, { self with key := MDC.putLS key value self.key })
  | .get key value =>
      let result := MDC.get key value self.key
      (.found result.1.1 result.1.2, { self with key := result.2 })
  | .getString key =>
      let result := MDC.getString key self.key
      (.text result.1, { self with key := result.2 })
  | .remove key value =>
      let result := MDC.remove key value self.key
      (.found result.1.1 result.1.2, { self with key := result.2 })
  | .removeString key =>
      let result := MDC.removeString key self.key
      (.text result.1, { self with key := result.2 })
  | .clear => (.done, { self with key := MDC.clear self.key })
  | .construct key value => (.done, { self with key := (MDC.construct key value self.key).2 })
  | .destroy context => (.done, { self with key := context.destroy self.key })

/-- An inherited stack is deleted by the call. -/
def ndc (self : ContextThread) : NDC.Operation → ContextResult × ContextThread
  | .push message => (.done, { self with key := NDC.pushLS message self.key })
  | .pop =>
      let result := NDC.pop self.key
      (.text result.1, { self with key := result.2 })
  | .popInto =>
      let result := NDC.popInto self.key
      (.message result.1, { self with key := result.2 })
  | .peek =>
      let result := NDC.peek self.key
      (.text result.1, { self with key := result.2 })
  | .peekInto =>
      let result := NDC.peekInto self.key
      (.message result.1, { self with key := result.2 })
  | .get dest =>
      let result := NDC.get dest self.key
      (.found result.1.1 result.1.2, { self with key := result.2 })
  | .getDepth =>
      let result := NDC.getDepth self.key
      (.depth result.1, { self with key := result.2 })
  | .clear => (.done, { self with key := NDC.clear self.key })
  | .remove => (.done, { self with key := NDC.remove self.key })
  | .cloneStack => (.done, { self with clones := self.clones ++ [NDC.cloneStack self.key] })
  | .inherit none => (.done, { self with key := NDC.inherit none self.key })
  | .inherit (some i) =>
      match self.clones[i]? with
      | none => (.done, self)
      | some stack =>
          (.done, ⟨NDC.inherit (some stack) self.key, self.clones.eraseIdx i⟩)
  | .empty =>
      let result := NDC.empty self.key
      (.flag result.1, { self with key := result.2 })

def step (self : ContextThread) : ContextOperation → ContextResult × ContextThread
  | .mdc operation => self.mdc operation
  | .ndc operation => self.ndc operation

end ContextThread

end CodeCollect.Log4cxx
