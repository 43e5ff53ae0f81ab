import Mathlib
import CodeCollect.Library.StrictSearch

namespace CodeCollect.Otsu.MultiOtsuThreshold

open Library.StrictSearch

/-- The bins are equal from the least to the greatest value. A value on an edge belongs to the bin
below it, and the least value to the first bin. -/
def histBin (least greatest bins v : Nat) : Nat :=
  max 1 ((v - least) * bins ⌈/⌉ (greatest - least))

/-- This is `hist(I(:), bins)`. -/
def hist (I : List Nat) (bins b : Nat) : Nat :=
  I.countP fun v => histBin (I.min?.getD 0) (I.max?.getD 0) bins v = b

/-- This is `histo / sum(histo)`. -/
def probability (I : List Nat) (b : Nat) : ℚ :=
  hist I 256 b / (∑ v ∈ Finset.range 256, hist I 256 (v + 1) : Nat)

section Tables

variable (p : Nat → ℚ)

/-- These are the first rows of the tables. -/
def firstP : Nat → ℚ
  | 0 => 0
  | 1 => p 1
  | v + 2 => firstP (v + 1) + p (v + 2)

def firstS : Nat → ℚ
  | 0 => 0
  | 1 => p 1
  | v + 2 => firstS (v + 1) + p (v + 2) * (v + 2)

/-- The other rows are differences of the first row, and are not negative. -/
def P (u v : Nat) : ℚ :=
  if u = 1 then firstP p v
  else if firstP p v - firstP p (u - 1) < 0 then 0
  else firstP p v - firstP p (u - 1)

def S (u v : Nat) : ℚ :=
  if u = 1 then firstS p v
  else if firstS p v - firstS p (u - 1) < 0 then 0
  else firstS p v - firstS p (u - 1)

/-- The table is filled above its diagonal only. -/
def H (i j : Nat) : ℚ :=
  if i < j then if P p i j ≠ 0 then S p i j * S p i j / P p i j else 0 else 0

/-- This is `sdev` for the thresholds behind a bin. -/
def sdev (first : Nat) : List Nat → ℚ
  | [] => H p first 256
  | i :: index => H p first i + sdev (i + 1) index

end Tables

/-- The nested loops take these thresholds in order, when some loops are left behind a bin. -/
def thresholds : Nat → Nat → List (List Nat)
  | 0, _ => [[]]
  | left + 1, previous =>
      (List.range' (previous + 1) (256 - (left + 1) - previous)).flatMap fun i =>
        (thresholds left i).map (i :: ·)

/-- This is the search, which ends with `MaxNum` and `index`. -/
def search (p : Nat → ℚ) (Level : Nat) : ℚ × List Nat :=
  (thresholds (Level - 1) 0).foldl (keep (sdev p 1)) (-9999, [])

/-- The class `m` overwrites the label of a level between its two thresholds. -/
def relabel (index : List Nat) (level IDX m : Nat) : Nat :=
  if (m = 1 ∨ level > index.getD (m - 2) 0) ∧ level ≤ index.getD (m - 1) 0 then m else IDX

def label (Level : Nat) (index : List Nat) (level : Nat) : Nat :=
  (List.range' 1 (Level - 1)).foldl (relabel index level) Level

/-- Both parts of the script are this one with their own number of levels. -/
def multilevel (Level : Nat) (I : List Nat) : List Nat :=
  I.map (label Level (search (probability I) Level).2)

def example4 (I : List Nat) : List Nat := multilevel 4 I

def example5 (I : List Nat) : List Nat := multilevel 5 I

end CodeCollect.Otsu.MultiOtsuThreshold
