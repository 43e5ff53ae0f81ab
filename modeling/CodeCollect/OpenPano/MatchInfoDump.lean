import CodeCollect.Library.FormattedInput
import CodeCollect.Library.Sweep

namespace CodeCollect.OpenPano

open CodeCollect.Library CodeCollect.Library.FormattedInput

namespace MatchInfoDump

/-- An `int` has 32 bits. -/
def INT_MAX : Int := 2147483647

def INT_MIN : Int := -2147483648

def scanInt : Scanner Int := FormattedInput.scanInt INT_MIN INT_MAX

abbrev Vec2D (D : Type) := FloatValue D × FloatValue D

abbrev PCC (D : Type) := Vec2D D × Vec2D D

abbrev Homography (D : Type) := Fin 9 → FloatValue D

/-- The confidence is a `float`, and all other numbers are of type `double`. -/
structure MatchInfo (S D : Type) where
  pairs : List (PCC D)
  confidence : FloatValue S
  homo : Homography D

/-- The values of variables that are not initialised. Each call of `deserialize` has its own. -/
structure Memory (D : Type) where
  i : Int
  j : Int
  match_size : Nat → Int
  homo : Nat → Homography D
  matches_homo : Nat → Nat → Homography D

section Reading

variable {S D : Type} [Zero S] [Zero D] (single : FloatText S) (double : FloatText D)

def Homography.deserialize (ret : Homography D) : StateM IStream (Homography D) := do
  let values ← (List.finRange 9).mapM fun i => extract double.scan (ret i)
  return fun i => values.getD i (.finite 0)

def PCC.read : StateM IStream (PCC D) := do
  let first_x ← extract double.scan (.finite 0)
  let first_y ← extract double.scan (.finite 0)
  let second_x ← extract double.scan (.finite 0)
  let second_y ← extract double.scan (.finite 0)
  return ((first_x, first_y), (second_x, second_y))

/-- The numbers before the number of matches. -/
def MatchInfo.header (ret : Homography D) : StateM IStream (FloatValue S × Homography D) := do
  let confidence ← extract single.scan (.finite 0)
  let homo ← Homography.deserialize double ret
  return (confidence, homo)

/-- A vector cannot have a negative size, so that `resize` throws an exception. -/
def MatchInfo.deserialize (ret : Homography D) (match_size : Int) (is : IStream) :
    Option (MatchInfo S D × IStream) :=
  let header := MatchInfo.header single double ret is
  let size := extract scanInt match_size header.2
  if size.1 < 0 then none
  else
    let pairs := ((List.range size.1.toNat).mapM fun _ => PCC.read double) size.2
    some (⟨pairs.1, header.1.1, header.1.2⟩, pairs.2)

/-- A write to `pairwise_matches` with its indices, and whether both were read from the file. -/
structure Write where
  i : Int
  j : Int
  read : Bool

inductive Ending where
  | returned
  | threw
  | strayed
deriving DecidableEq

abbrev PairwiseMatches (S D : Type) := Nat → Nat → MatchInfo S D

structure Loaded (S D : Type) where
  ending : Ending
  pairwise_matches : PairwiseMatches S D
  writes : List Write

def Inside (n : Nat) (i : Int) : Prop := 0 ≤ i ∧ i < n

instance (n : Nat) (i : Int) : Decidable (Inside n i) := inferInstanceAs (Decidable (_ ∧ _))

/-- The variables of the loop. -/
structure Loop (S D : Type) where
  i : Int
  j : Int
  fin : IStream
  pairwise_matches : PairwiseMatches S D

/-- The entry of the indices gets the match info. -/
def assign (pairwise_matches : PairwiseMatches S D) (i j : Nat) (info : MatchInfo S D) :
    PairwiseMatches S D :=
  Function.update pairwise_matches i (Function.update (pairwise_matches i) j info)

/-- What is done with the match info that was read. -/
def store (n : Nat) (state : Loop S D) (i j : Int) (read : Bool) (info : MatchInfo S D)
    (fin : IStream) : Loaded S D ⊕ Write × Loop S D :=
  if Inside n i ∧ Inside n j then
    .inr (⟨i, j, read⟩, ⟨i, j, fin, assign state.pairwise_matches i.toNat j.toNat info⟩)
  else .inl ⟨.strayed, state.pairwise_matches, [⟨i, j, read⟩]⟩

/-- One pass of the loop ends it or writes an entry. -/
def pass (n : Nat) (ret : Homography D) (match_size : Int) (state : Loop S D) :
    Loaded S D ⊕ Write × Loop S D :=
  let i := extract scanInt state.i state.fin
  let j := extract scanInt state.j i.2
  if j.2.eof then .inl ⟨.returned, state.pairwise_matches, []⟩
  else
    (MatchInfo.deserialize single double ret match_size j.2).elim
      (.inl ⟨.threw, state.pairwise_matches, []⟩)
      fun read => store n state i.1 j.1 (!j.2.fail) read.1 read.2

/-- The loop has no result when the fuel is used up. -/
def loop (n : Nat) (memory : Memory D) : Nat → Nat → Loop S D → Option (Loaded S D)
  | 0, _, _ => none
  | fuel + 1, count, state =>
      match pass single double n (memory.homo count) (memory.match_size count) state with
      | .inl loaded => some loaded
      | .inr (write, state) =>
          (loop n memory fuel (count + 1) state).map fun loaded =>
            { loaded with writes := write :: loaded.writes }

/-- The entries are those of vectors that were just resized. -/
def freshMatches (memory : Memory D) : PairwiseMatches S D := fun i j =>
  ⟨[], .finite 0, memory.matches_homo i j⟩

/-- A file that cannot be opened gives a stream that has failed. -/
def ifstream : Option (List Char) → IStream
  | some text => .ofText text
  | none => ⟨[], false, true⟩

def load_matchinfo (n : Nat) (memory : Memory D) (fuel : Nat) (file : Option (List Char)) :
    Option (Loaded S D) :=
  loop single double n memory fuel 0 ⟨memory.i, memory.j, ifstream file, freshMatches memory⟩

end Reading

section Writing

variable {S D : Type} [Zero S] [LinearOrder S] (single : FloatText S) (double : FloatText D)

/-- A comparison with something that is not a number is false. -/
def nonpositive : FloatValue S → Bool
  | .finite x => x ≤ 0
  | .infinite negative => negative
  | .nan _ => false

def positive : FloatValue S → Bool
  | .finite x => 0 < x
  | .infinite negative => !negative
  | .nan _ => false

def Homography.serialize (homo : Homography D) : List Char :=
  ((List.finRange 8).flatMap fun i => double.print (homo i.castSucc) ++ [' ']) ++
    double.print (homo (Fin.last 8))

def PCC.numbers (p : PCC D) : List (FloatValue D) := [p.1.1, p.1.2, p.2.1, p.2.2]

def MatchInfo.serialize (m : MatchInfo S D) : List Char :=
  single.print m.confidence ++ [' '] ++ Homography.serialize double m.homo ++
    [' '] ++ Nat.toDigits 10 m.pairs.length ++
      m.pairs.flatMap fun p => p.numbers.flatMap fun x => ' ' :: double.print x

/-- The entries without confidence are left out. -/
def dump_matchinfo (n : Nat) (pairwise_matches : PairwiseMatches S D) : List Char :=
  (Sweep.grid n n).flatMap fun cell =>
    let m := pairwise_matches cell.1 cell.2
    if nonpositive m.confidence then []
    else Nat.toDigits 10 cell.1 ++ [' '] ++ Nat.toDigits 10 cell.2 ++ ['\n'] ++
      MatchInfo.serialize single double m ++ ['\n']

end Writing

end MatchInfoDump

end CodeCollect.OpenPano
