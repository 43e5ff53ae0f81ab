import CodeCollect.Library.Machine
import CodeCollect.Log4cxx.LogString

namespace CodeCollect.Log4cxx

open Library

/-- This is a call on a writer. -/
inductive WriterCall
  | write (str : LogString)
  | flush
  | close
  deriving DecidableEq, Repr

namespace WriterCall

/-- These are the characters that a call hands over. -/
def text : WriterCall → LogString
  | write str => str
  | flush => []
  | close => []

/-- These are the characters that some calls hand over, in order. -/
def written (calls : List WriterCall) : LogString := calls.flatMap text

@[simp] theorem written_nil : written [] = [] := rfl

@[simp] theorem written_append (first second : List WriterCall) :
    written (first ++ second) = written first ++ written second := List.flatMap_append

@[simp] theorem written_singleton (call : WriterCall) : written [call] = call.text :=
  List.flatMap_singleton ..

end WriterCall

open WriterCall

/-- A buffered writer holds back at most as many characters as its buffer has room for. -/
structure BufferedWriter where
  sz : Nat
  buf : LogString

namespace BufferedWriter

/-- This is the constructor that takes the size of the buffer. -/
def sized (sz1 : Nat) : BufferedWriter := ⟨sz1, []⟩

/-- This is the constructor without a size. -/
def unsized : BufferedWriter := sized 1024

/-- `flush` returns the writer and the calls on the wrapped writer, which is not flushed itself. -/
def flush (writer : BufferedWriter) : BufferedWriter × List WriterCall :=
  if 0 < writer.buf.length then ({ writer with buf := [] }, [.write writer.buf]) else (writer, [])

def close (writer : BufferedWriter) : BufferedWriter × List WriterCall :=
  ((flush writer).1, (flush writer).2 ++ [.close])

/-- `write` first makes room, and a string longer than the whole buffer does not enter it. No string
is long enough for the sum of two lengths to wrap. -/
def write (writer : BufferedWriter) (str : LogString) : BufferedWriter × List WriterCall :=
  let roomy : BufferedWriter × List WriterCall :=
    if writer.buf.length + str.length > writer.sz then
      ({ writer with buf := [] }, [.write writer.buf])
    else (writer, [])
  if str.length > writer.sz then (roomy.1, roomy.2 ++ [.write str])
  else ({ roomy.1 with buf := roomy.1.buf ++ str }, roomy.2)

/-- This is one call on the buffered writer. -/
def call (writer : BufferedWriter) : WriterCall → BufferedWriter × List WriterCall
  | .write str => write writer str
  | .flush => flush writer
  | .close => close writer

/-- The machine takes calls on a new writer and shows the calls on the wrapped writer. -/
def machine (sz1 : Nat) : Machine BufferedWriter WriterCall WriterCall where
  initial := sized sz1
  step writer action := some (writer.call action)

/-- What one call does to the stream and to the buffer. -/
structure Keeps (writer : BufferedWriter) (action : WriterCall)
    (after : BufferedWriter × List WriterCall) : Prop where
  stream : written after.2 ++ after.1.buf = writer.buf ++ action.text
  fits : writer.buf.length ≤ writer.sz → after.1.buf.length ≤ after.1.sz
  size : after.1.sz = writer.sz

theorem flush_empties (writer : BufferedWriter) : (flush writer).1.buf = [] := by
  rw [flush]
  split
  · rfl
  · rename_i empty
    exact List.length_eq_zero_iff.mp (Nat.eq_zero_of_not_pos empty)

theorem flush_keeps (writer : BufferedWriter) : Keeps writer .flush (flush writer) := by
  rw [flush]
  split
  · exact ⟨by simp [text], fun _ => Nat.zero_le _, rfl⟩
  · exact ⟨by simp [text], fun fits => fits, rfl⟩

theorem close_keeps (writer : BufferedWriter) : Keeps writer .close (close writer) := by
  have flushed := flush_keeps writer
  constructor
  · simpa [close, text] using flushed.stream
  · exact flushed.fits
  · exact flushed.size

theorem write_keeps (writer : BufferedWriter) (str : LogString) :
    Keeps writer (.write str) (write writer str) := by
  rw [write]
  -- A string longer than the buffer cannot fit beside what is pending, so that goes out first.
  by_cases full : writer.buf.length + str.length > writer.sz
  · by_cases long : str.length > writer.sz
    · simp only [if_pos full, if_pos long]
      exact ⟨by simp [written, text], fun _ => Nat.zero_le _, rfl⟩
    · simp only [if_pos full, if_neg long]
      exact ⟨by simp [text], fun _ => Nat.le_of_not_lt long, rfl⟩
  · have short : ¬ str.length > writer.sz := by omega
    simp only [if_neg full, if_neg short]
    constructor
    · simp [text]
    · intro _
      rw [List.length_append]
      exact Nat.le_of_not_lt full
    · rfl

theorem call_keeps (writer : BufferedWriter) (action : WriterCall) :
    Keeps writer action (writer.call action) := by
  cases action with
  | write str => exact write_keeps writer str
  | flush => exact flush_keeps writer
  | close => exact close_keeps writer

/-- What the wrapped writer received and the buffer are together what was written. -/
structure Streams (sz1 : Nat) (calls : List WriterCall) (writer : BufferedWriter)
    (received : List WriterCall) : Prop where
  stream : written received ++ writer.buf = written calls
  fits : writer.buf.length ≤ writer.sz
  size : writer.sz = sz1

theorem run_streams {sz1 : Nat} {calls : List WriterCall} {writer : BufferedWriter}
    {received : List WriterCall} (ran : (machine sz1).run calls = some (writer, received)) :
    Streams sz1 calls writer received := by
  apply Machine.run_history (machine sz1) (fun _ _ => True) (Streams sz1)
  · exact ⟨rfl, Nat.zero_le _, rfl⟩
  · intro earlier before past action state seen _ streams _ taken
    have keeps := call_keeps before action
    rw [show before.call action = (state, seen) from Option.some.inj taken] at keeps
    constructor
    · rw [written_append, List.append_assoc, keeps.stream, ← List.append_assoc, streams.stream,
        written_append, written_singleton]
    · exact keeps.fits streams.fits
    · exact keeps.size.trans streams.size
  · exact ran
  · exact Machine.along_of_forall fun _ _ _ => trivial

/-- Nothing is pending when the last call flushed or closed the writer. -/
theorem run_empties {sz1 : Nat} {calls : List WriterCall} {writer : BufferedWriter}
    {received : List WriterCall} (ran : (machine sz1).run calls = some (writer, received))
    (last : calls.getLast? = some .flush ∨ calls.getLast? = some .close) : writer.buf = [] := by
  rcases List.eq_nil_or_concat' calls with rfl | ⟨earlier, action, rfl⟩
  · simp at last
  · obtain ⟨before, past, seen, _, taken, _⟩ := Machine.run_concat.mp ran
    obtain ⟨rfl, _⟩ := Prod.mk.inj (Option.some.inj taken)
    simp only [List.getLast?_concat, Option.some.injEq] at last
    rcases last with rfl | rfl
    · exact flush_empties before
    · exact flush_empties before

/-- Every sequence of calls runs, keeps the stream of characters and leaves at most a full buffer
pending, and nothing after a flush or a close. -/
theorem run_preserves_stream (sz1 : Nat) (calls : List WriterCall) :
    ∃ writer received, (machine sz1).run calls = some (writer, received) ∧
      written received ++ writer.buf = written calls ∧ writer.buf.length ≤ sz1 ∧
      (calls.getLast? = some .flush ∨ calls.getLast? = some .close → writer.buf = []) := by
  obtain ⟨⟨writer, received⟩, ran⟩ : ∃ reached, (machine sz1).run calls = some reached :=
    Machine.run_total (fun writer action => ⟨writer.call action, rfl⟩) calls
  have streams := run_streams ran
  exact ⟨writer, received, ran, streams.stream, streams.size ▸ streams.fits, run_empties ran⟩

end BufferedWriter

end CodeCollect.Log4cxx
