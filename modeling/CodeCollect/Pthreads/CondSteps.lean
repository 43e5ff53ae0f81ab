import CodeCollect.Pthreads.Cond

namespace CodeCollect.Pthreads

open CodeCollect.Library

namespace Cond

/-- These are all moves of one thread, each with what it needs and what it changes. -/
inductive Moves : Memory → Place → Label → Memory → Place → Prop
  | wait {memory} : Moves memory .idle .wait memory .entering
  | unblock {memory all} : Moves memory .idle (.unblock all) memory (.unblocking all)
  | enter {memory} : 0 < memory.semBlockLock → Moves memory .entering .go
      { memory with semBlockLock := memory.semBlockLock - 1 } .counting
  | leave {memory} : Moves memory .entering .cancel memory .idle
  | count {memory} : Moves memory .counting .go
      { memory.tick with nWaitersBlocked := memory.nWaitersBlocked + 1 } (.posting memory.clock)
  | posted {memory since} : Moves memory (.posting since) .go memory.post (.unlocking since)
  | unlocked {memory since} : Moves memory (.unlocking since) .go memory (.blocked since)
  | take {memory since index token} : memory.semBlockQueue[index]? = some token →
      Moves memory (.blocked since) (.take index)
        { memory with semBlockQueue := memory.semBlockQueue.eraseIdx index }
        (.cleaning since (some token))
  | timeout {memory since} : Moves memory (.blocked since) .timeout memory (.cleaning since none)
  | cancel {memory since} : Moves memory (.blocked since) .cancel memory (.cleaning since none)
  | clean {memory since token} : memory.mtxUnblockLock = false →
      Moves memory (.cleaning since token) .go { memory with mtxUnblockLock := true }
        (.adjusting since token)
  | account {memory since token} : memory.nWaitersToUnblock ≠ 0 →
      Moves memory (.adjusting since token) .go
        { memory with nWaitersToUnblock := memory.nWaitersToUnblock - 1 }
        (.releasing memory.nWaitersToUnblock since token)
  | vanish {memory since token} : memory.nWaitersToUnblock = 0 →
      INT_MAX / 2 ≠ memory.nWaitersGone + 1 → Moves memory (.adjusting since token) .go
        { memory with nWaitersGone := memory.nWaitersGone + 1 } (.releasing 0 since token)
  | overflow {memory since token} : memory.nWaitersToUnblock = 0 →
      INT_MAX / 2 = memory.nWaitersGone + 1 → Moves memory (.adjusting since token) .go
        { memory with nWaitersGone := memory.nWaitersGone + 1 } (.overflowing since token)
  | seize {memory since token} : 0 < memory.semBlockLock →
      Moves memory (.overflowing since token) .go
        { memory with semBlockLock := memory.semBlockLock - 1 } (.resetting since token)
  | settle {memory since token} :
      Moves memory (.resetting since token) .go memory.settle (.reopening since token)
  | restore {memory since token} :
      Moves memory (.reopening since token) .go memory.post (.releasing 0 since token)
  | last {memory since token} :
      Moves memory (.releasing 1 since token) .go memory.unlock (.opening since token)
  | release {memory left since token} : left ≠ 1 →
      Moves memory (.releasing left since token) .go memory.unlock (.relocking since token)
  | opened {memory since token} :
      Moves memory (.opening since token) .go memory.post (.relocking since token)
  | finish {memory since token} : Moves memory (.relocking since token) .go
      { memory with returned := memory.returned + if token.isSome then 1 else 0 } .idle
  | begin {memory all} : memory.mtxUnblockLock = false →
      Moves memory (.unblocking all) .go { memory with mtxUnblockLock := true } (.testing all)
  | more {memory all} : memory.nWaitersToUnblock ≠ 0 → memory.nWaitersBlocked ≠ 0 →
      Moves memory (.testing all) .go (memory.assign all memory.nWaitersToUnblock).1
        (memory.assign all memory.nWaitersToUnblock).2
  | close {memory all} : memory.nWaitersToUnblock = 0 →
      memory.nWaitersGone < memory.nWaitersBlocked →
        Moves memory (.testing all) .go memory (.closing all)
  | nobody {memory all} : (memory.nWaitersToUnblock ≠ 0 → memory.nWaitersBlocked = 0) →
      (memory.nWaitersToUnblock = 0 → memory.nWaitersBlocked ≤ memory.nWaitersGone) →
        Moves memory (.testing all) .go memory .yielding
  | closed {memory all} : 0 < memory.semBlockLock → Moves memory (.closing all) .go
      { memory with semBlockLock := memory.semBlockLock - 1 } (.assigning all)
  | assign {memory all} : Moves memory (.assigning all) .go (memory.settle.assign all 0).1
      (memory.settle.assign all 0).2
  | issue {memory signals stamp} : Moves memory (.issuing signals stamp) .go memory.unlock
      (.signalling signals stamp)
  | signal {memory signals stamp} : Moves memory (.signalling signals stamp) .go
      { memory with
        semBlockQueue := memory.semBlockQueue ++ List.replicate signals.toNat stamp } .idle
  | yield {memory} : Moves memory .yielding .go memory.unlock .idle

variable {memory next : Memory} {place reached : Place} {label : Label}

theorem moves_of_lock {waiting inside : Place} (taken : memory.lock inside = some (next, reached))
    (locked : memory.mtxUnblockLock = false →
      Moves memory waiting label { memory with mtxUnblockLock := true } inside) :
    Moves memory waiting label next reached := by
  unfold Memory.lock at taken
  split at taken
  · exact absurd taken (by simp)
  · rename_i free
    obtain ⟨rfl, rfl⟩ := Prod.mk.inj (Option.some.inj taken)
    exact locked (Bool.eq_false_of_not_eq_true free)

theorem moves_of_close {waiting inside : Place}
    (taken : memory.close inside = some (next, reached))
    (entered : 0 < memory.semBlockLock → Moves memory waiting label
      { memory with semBlockLock := memory.semBlockLock - 1 } inside) :
    Moves memory waiting label next reached := by
  unfold Memory.close at taken
  split at taken
  · rename_i positive
    obtain ⟨rfl, rfl⟩ := Prod.mk.inj (Option.some.inj taken)
    exact entered positive
  · exact absurd taken (by simp)

theorem moves_of_adjust {since : Nat} {token : Option Nat}
    (taken : memory.adjust since token = (next, reached)) :
    Moves memory (.adjusting since token) .go next reached := by
  unfold Memory.adjust at taken
  split at taken
  · rename_i some_left
    obtain ⟨rfl, rfl⟩ := Prod.mk.inj taken
    exact .account some_left
  · rename_i none_left
    obtain ⟨rfl, rfl⟩ := Prod.mk.inj taken
    split
    · rename_i full
      exact .overflow (not_not.mp none_left) full
    · rename_i room
      exact .vanish (not_not.mp none_left) room

theorem moves_of_test {all : Bool} (taken : memory.test all = (next, reached)) :
    Moves memory (.testing all) .go next reached := by
  unfold Memory.test at taken
  split at taken
  · rename_i unblocking
    split at taken
    · rename_i nobody
      obtain ⟨rfl, rfl⟩ := Prod.mk.inj taken
      exact .nobody (fun _ => nobody) fun zero => absurd zero unblocking
    · rename_i blocked
      have more : Moves memory (.testing all) .go _ _ := .more unblocking blocked
      rwa [taken] at more
  · rename_i idle
    have zero := not_not.mp idle
    split at taken
    · rename_i waiting
      obtain ⟨rfl, rfl⟩ := Prod.mk.inj taken
      exact .close zero waiting
    · rename_i gone
      obtain ⟨rfl, rfl⟩ := Prod.mk.inj taken
      exact .nobody (fun positive => absurd zero positive) fun _ => not_lt.mp gone

/-- A step is one of the moves. -/
theorem moves_of_step (taken : step memory place label = some (next, reached)) :
    Moves memory place label next reached := by
  unfold step at taken
  split at taken
  case h_1 => obtain ⟨rfl, rfl⟩ := Prod.mk.inj (Option.some.inj taken); exact .wait
  case h_2 => obtain ⟨rfl, rfl⟩ := Prod.mk.inj (Option.some.inj taken); exact .unblock
  case h_3 => exact moves_of_close taken .enter
  case h_4 => obtain ⟨rfl, rfl⟩ := Prod.mk.inj (Option.some.inj taken); exact .leave
  case h_5 => obtain ⟨rfl, rfl⟩ := Prod.mk.inj (Option.some.inj taken); exact .count
  case h_6 => obtain ⟨rfl, rfl⟩ := Prod.mk.inj (Option.some.inj taken); exact .posted
  case h_7 => obtain ⟨rfl, rfl⟩ := Prod.mk.inj (Option.some.inj taken); exact .unlocked
  case h_8 =>
    obtain ⟨token, found, same⟩ := Option.map_eq_some_iff.mp taken
    obtain ⟨rfl, rfl⟩ := Prod.mk.inj same
    exact .take found
  case h_9 => obtain ⟨rfl, rfl⟩ := Prod.mk.inj (Option.some.inj taken); exact .timeout
  case h_10 => obtain ⟨rfl, rfl⟩ := Prod.mk.inj (Option.some.inj taken); exact .cancel
  case h_11 => exact moves_of_lock taken .clean
  case h_12 => exact moves_of_adjust (Option.some.inj taken)
  case h_13 => exact moves_of_close taken .seize
  case h_14 => obtain ⟨rfl, rfl⟩ := Prod.mk.inj (Option.some.inj taken); exact .settle
  case h_15 => obtain ⟨rfl, rfl⟩ := Prod.mk.inj (Option.some.inj taken); exact .restore
  case h_16 =>
    obtain ⟨rfl, rfl⟩ := Prod.mk.inj (Option.some.inj taken)
    split
    · rename_i last
      obtain rfl := last
      exact .last
    · rename_i more
      exact .release (Ne.symm more)
  case h_17 => obtain ⟨rfl, rfl⟩ := Prod.mk.inj (Option.some.inj taken); exact .opened
  case h_18 => obtain ⟨rfl, rfl⟩ := Prod.mk.inj (Option.some.inj taken); exact .finish
  case h_19 => exact moves_of_lock taken .begin
  case h_20 => exact moves_of_test (Option.some.inj taken)
  case h_21 => exact moves_of_close taken .closed
  case h_22 =>
    rename_i all
    have assigned : Moves memory (.assigning all) .go _ _ := .assign
    rwa [Option.some.inj taken] at assigned
  case h_23 => obtain ⟨rfl, rfl⟩ := Prod.mk.inj (Option.some.inj taken); exact .issue
  case h_24 => obtain ⟨rfl, rfl⟩ := Prod.mk.inj (Option.some.inj taken); exact .signal
  case h_25 => obtain ⟨rfl, rfl⟩ := Prod.mk.inj (Option.some.inj taken); exact .yield
  case h_26 => exact absurd taken (by simp)

end Cond

end CodeCollect.Pthreads
