import Mathlib

namespace CodeCollect.Log4cxx

namespace SocketHubAppender

variable {Stream : Type}

/-- A write or a flush of some streams throws an exception. -/
structure Connections (Stream : Type) where
  writeThrows : Stream → Bool
  flushThrows : Stream → Bool

/-- The event is not delivered to a stream that throws. -/
def Connections.throws (self : Connections Stream) (stream : Stream) : Bool :=
  self.writeThrows stream || self.flushThrows stream

/-- An iterator that is dereferenced at the end of the vector or behind it has no stream. The
writes are listed in their order. -/
inductive Outcome (Stream : Type) where
  | returned (streams : List (Option Stream)) (writes : List Stream)
  | pastEnd (streams : List (Option Stream)) (writes : List Stream)
deriving DecidableEq

/-- This is the loop of `append` with its iterators as indices; a null pointer ends it. -/
def appendLoop (connections : Connections Stream) (itEnd : Nat) (streams : List (Option Stream))
    (it : Nat) (writes : List Stream) : Outcome Stream :=
  if it = itEnd then .returned streams writes
  else if within : it < streams.length then
    match streams[it] with
    | none => .returned streams writes
    | some stream =>
        if connections.throws stream then
          -- There was an exception, so the connection is dropped.
          appendLoop connections itEnd (streams.eraseIdx it) it (writes ++ [stream])
        else appendLoop connections itEnd streams (it + 1) (writes ++ [stream])
  else .pastEnd streams writes
  termination_by streams.length - it
  decreasing_by
    · rw [List.length_eraseIdx_of_lt within]
      omega
    · omega

/-- This is `SocketHubAppender::append`. -/
def append (connections : Connections Stream) (streams : List (Option Stream)) : Outcome Stream :=
  if streams = [] then .returned streams []
  else appendLoop connections streams.length streams 0 []

/-- The streams that the event was delivered to. -/
def live (connections : Connections Stream) (streams : List Stream) : List Stream :=
  streams.filter fun stream => !connections.throws stream

section Loop

variable (connections : Connections Stream) {itEnd : Nat} {kept rest : List Stream}
  {stream : Stream} {writes : List Stream}

theorem appendLoop_end :
    appendLoop connections itEnd (kept.map some) kept.length writes =
      if kept.length = itEnd then .returned (kept.map some) writes
      else .pastEnd (kept.map some) writes := by
  rw [appendLoop, dif_neg (by simp)]

theorem appendLoop_next (more : kept.length < itEnd) :
    appendLoop connections itEnd ((kept ++ stream :: rest).map some) kept.length writes =
      if connections.throws stream then
        appendLoop connections itEnd ((kept ++ rest).map some) kept.length (writes ++ [stream])
      else
        appendLoop connections itEnd ((kept ++ [stream] ++ rest).map some)
          (kept ++ [stream]).length (writes ++ [stream]) := by
  have within : kept.length < ((kept ++ stream :: rest).map some).length := by simp
  have here : ((kept ++ stream :: rest).map some)[kept.length] = some stream := by simp
  have erased : ((kept ++ stream :: rest).map some).eraseIdx kept.length =
      (kept ++ rest).map some := by
    rw [List.map_append, List.eraseIdx_append_of_length_le (by simp)]
    simp
  rw [appendLoop, if_neg (by omega), dif_pos within, here, erased]
  simp

/-- Behind the streams that were kept the loop writes to each of the others once, and then it ends
only where no stream was dropped. -/
theorem appendLoop_eq (enough : kept.length + rest.length ≤ itEnd) :
    appendLoop connections itEnd ((kept ++ rest).map some) kept.length writes =
      if (kept ++ live connections rest).length = itEnd then
        .returned ((kept ++ live connections rest).map some) (writes ++ rest)
      else .pastEnd ((kept ++ live connections rest).map some) (writes ++ rest) := by
  induction rest generalizing kept writes with
  | nil =>
      rw [live, List.filter_nil, List.append_nil, List.append_nil]
      exact appendLoop_end connections
  | cons stream rest ih =>
      rw [List.length_cons] at enough
      rw [appendLoop_next connections (by omega)]
      by_cases failing : connections.throws stream = true
      · have dropped : live connections (stream :: rest) = live connections rest :=
          List.filter_cons_of_neg (by simp [failing])
        rw [if_pos failing, ih (by omega), dropped, List.append_assoc, List.singleton_append]
      · have stays : live connections (stream :: rest) = stream :: live connections rest :=
          List.filter_cons_of_pos (by simp [failing])
        have longer : (kept ++ [stream]).length + rest.length ≤ itEnd := by
          rw [List.length_append, List.length_singleton]
          omega
        rw [if_neg failing, ih longer, stays]
        simp only [List.append_assoc, List.singleton_append]

end Loop

/-- Every stream is written to once and the failing ones are dropped, but unless none fails the
iterator goes past the end of the vector. -/
theorem append_eq (connections : Connections Stream) (streams : List Stream) :
    append connections (streams.map some) =
      if (live connections streams).length = streams.length then
        .returned ((live connections streams).map some) streams
      else .pastEnd ((live connections streams).map some) streams := by
  cases streams with
  | nil => rfl
  | cons stream rest =>
      have looped := @appendLoop_eq _ connections (stream :: rest).length [] (stream :: rest) []
        (by simp)
      rw [append, if_neg (by simp), List.length_map]
      exact looped

/-- The event is written once to each stream and exactly the failing ones are dropped, within the
vector, if and only if none of them fails. -/
theorem append_delivers (connections : Connections Stream) (streams : List Stream) :
    append connections (streams.map some) =
        .returned ((live connections streams).map some) streams ↔
      ∀ stream ∈ streams, connections.throws stream = false := by
  have none_dropped : (live connections streams).length = streams.length ↔
      ∀ stream ∈ streams, connections.throws stream = false := by
    rw [live, List.length_filter_eq_length_iff]
    simp
  rw [append_eq, ← none_dropped]
  split
  · rename_i all
    exact iff_of_true rfl all
  · rename_i fewer
    exact iff_of_false (by simp) fewer

/-- The only stream fails, and the iterator is dereferenced in the empty vector. -/
theorem append_past_end :
    append ⟨fun _ : Unit => true, fun _ => false⟩ [some ()] = .pastEnd [] [()] :=
  append_eq _ [()]

end SocketHubAppender

end CodeCollect.Log4cxx
