import Mathlib

/-!
# The first best candidate

A search that keeps a candidate only when it scores strictly more than the one it has ends with the
first of the candidates that score best.
-/

namespace CodeCollect.Library.StrictSearch

variable {α K : Type*} [LinearOrder α] [LinearOrder K]

/-- The candidate scores best, and every earlier one scores less. -/
structure FirstBest (score : α → K) (candidates : List α) (best : α) : Prop where
  member : best ∈ candidates
  most : ∀ a ∈ candidates, score a ≤ score best
  first : ∀ a ∈ candidates, a < best → score a < score best

/-- One step of the search, with the best score so far and its candidate. -/
def keep (score : α → K) (now : K × α) (a : α) : K × α :=
  if now.1 < score a then (score a, a) else now

variable {score : α → K} {candidates : List α}

/-- There is only one first best candidate. -/
theorem FirstBest.unique {one other : α} (best : FirstBest score candidates one)
    (also : FirstBest score candidates other) : one = other := by
  rcases lt_trichotomy one other with before | same | after
  · exact absurd (also.first one best.member before) (best.most other also.member).not_gt
  · exact same
  · exact absurd (best.first other also.member after) (also.most one best.member).not_gt

/-- The search finds the first best of the candidates that come in order. -/
theorem foldl_keep {start : K × α} (sorted : candidates.Pairwise (· < ·))
    (low : ∀ a ∈ candidates, start.1 < score a) (some : candidates ≠ []) :
    (candidates.foldl (keep score) start).1 = score (candidates.foldl (keep score) start).2 ∧
      FirstBest score candidates (candidates.foldl (keep score) start).2 := by
  induction candidates using List.reverseRecOn with
  | nil => exact absurd rfl some
  | append_singleton earlier a ih =>
      obtain ⟨sortedEarlier, _, before⟩ := List.pairwise_append.mp sorted
      rw [List.foldl_append, List.foldl_cons, List.foldl_nil]
      rcases eq_or_ne earlier [] with rfl | more
      · have found : keep score start a = (score a, a) := if_pos (low a (by simp))
        rw [List.foldl_nil, found]
        refine ⟨rfl, by simp, ?_, ?_⟩ <;> simp
      · obtain ⟨scored, best⟩ := ih sortedEarlier
          (fun b member => low b (List.mem_append_left _ member)) more
        rw [keep, scored]
        split
        · rename_i better
          refine ⟨rfl, by simp, ?_, ?_⟩
          · intro b member
            rcases List.mem_append.mp member with earlier | last
            · exact (best.most b earlier).trans better.le
            · rw [List.mem_singleton.mp last]
          · intro b member smaller
            rcases List.mem_append.mp member with earlier | last
            · exact (best.most b earlier).trans_lt better
            · rw [List.mem_singleton.mp last] at smaller
              exact absurd smaller (lt_irrefl a)
        · rename_i notBetter
          refine ⟨scored, List.mem_append_left _ best.member, ?_, ?_⟩
          · intro b member
            rcases List.mem_append.mp member with earlier | last
            · exact best.most b earlier
            · rw [List.mem_singleton.mp last]
              exact le_of_not_gt notBetter
          · intro b member smaller
            rcases List.mem_append.mp member with earlier | last
            · exact best.first b earlier smaller
            · rw [List.mem_singleton.mp last] at smaller
              exact absurd (before _ best.member a (by simp)) smaller.asymm

end CodeCollect.Library.StrictSearch
