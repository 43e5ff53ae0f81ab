import CodeCollect.Library.PlaneHull
import CodeCollect.OpenPano.BundleAdjuster

namespace CodeCollect.OpenPano.ConvexHull

open Library.MonotoneChain Library.PlaneHull

abbrev Polygon (K : Type) := List (Vec2D K)

variable {K : Type} [Field K]

/-- It tells which side of a line a point is on. -/
def side (a b p : Vec2D K) : K := cross (b - a) (p - a)

theorem side_eq_turn (a b p : Vec2D K) : side a b p = turn a b p := rfl

variable [LinearOrder K]

/-- Points are sorted by their height and then from left to right. -/
def Before (a b : Vec2D K) : Prop := if a.2 = b.2 then a.1 ≤ b.1 else a.2 < b.2

instance : DecidableRel (@Before K _) := fun _ _ => inferInstanceAs (Decidable (ite _ _ _))

/-- This is the inner loop of both links, and the last point of `ret` is its head here. -/
def popBack (mid : Nat) (p : Vec2D K) : List (Vec2D K) → List (Vec2D K)
  | b :: a :: rest =>
      if (b :: a :: rest).length > mid ∧ side a b p ≤ 0 then popBack mid p (a :: rest)
      else b :: a :: rest
  | ret => ret

def link (mid : Nat) (ret : List (Vec2D K)) (p : Vec2D K) : List (Vec2D K) := p :: popBack mid p ret

/-- The right link goes up, and the left link goes down again. -/
def convex_hull (pts : List (Vec2D K)) : Polygon K :=
  if pts.length ≤ 3 then pts
  else
    let pts := pts.insertionSort Before
    let n := pts.length
    let ret := (pts.drop 2).foldl (link 1) [pts.getD 1 0, pts.getD 0 0]
    let mid := ret.length
    let ret := (pts.take (n - 2)).reverse.foldl (link mid) (pts.getD (n - 2) 0 :: ret)
    ret.reverse

/-- The edges go from each point to the next one and from the last point to the first. -/
def edges (poly : Polygon K) : List (Vec2D K × Vec2D K) := poly.zip (poly.tail ++ poly.take 1)

/-- All other vertices are strictly left of each edge. -/
def CounterClockwise (poly : Polygon K) : Prop :=
  ∀ edge ∈ edges poly, ∀ p ∈ poly, p ≠ edge.1 → p ≠ edge.2 → 0 < side edge.1 edge.2 p

/-- A polygon is the hull of points when it lists their extreme points once and in order. -/
structure IsHull (pts : List (Vec2D K)) (poly : Polygon K) : Prop where
  nodup : poly.Nodup
  extreme : ∀ p, p ∈ poly ↔ p ∈ Set.extremePoints K (convexHull K {q | q ∈ pts})
  counterClockwise : CounterClockwise poly
  left : ∀ edge ∈ edges poly, ∀ p ∈ pts, 0 ≤ side edge.1 edge.2 p

/-- The points below the floor are left alone. -/
theorem popBack_floor (p : Vec2D K) {ret : List (Vec2D K)} (filled : ret ≠ [])
    (below : List (Vec2D K)) :
    popBack (below.length + 1) p (ret ++ below) = popBack 1 p ret ++ below := by
  induction ret with
  | nil => exact absurd rfl filled
  | cons b ret ih =>
      cases ret with
      | nil =>
          cases below with
          | nil => rfl
          | cons a below =>
              change popBack _ p (b :: a :: below) = _
              rw [popBack, if_neg]
              · rfl
              · rintro ⟨longer, -⟩
                exact absurd longer (lt_irrefl _)
      | cons a ret =>
          change popBack _ p (b :: a :: (ret ++ below)) = _
          have above : (b :: a :: (ret ++ below)).length > below.length + 1 := by
            simp only [List.length_cons, List.length_append]
            omega
          have above' : (b :: a :: ret).length > 1 := by
            simp
          simp only [popBack, above, above', true_and]
          split
          · exact ih (List.cons_ne_nil _ _)
          · rfl

theorem foldl_link_floor (points : List (Vec2D K)) {ret : List (Vec2D K)} (filled : ret ≠ [])
    (below : List (Vec2D K)) :
    points.foldl (link (below.length + 1)) (ret ++ below) =
      points.foldl (link 1) ret ++ below := by
  induction points generalizing ret with
  | nil => rfl
  | cons p points ih =>
      rw [List.foldl_cons, List.foldl_cons, link, popBack_floor p filled]
      exact ih (List.cons_ne_nil _ _)

section Chain

variable {C S : Vec2D K → Prop}

/-- A stack is half of the hull, or all points are the same. -/
def Linked (C S : Vec2D K → Prop) (first last : Vec2D K) (stack : List (Vec2D K)) : Prop :=
  stack.head? = some last ∧ stack.getLast? = some first ∧
    (Half C S stack ∨ stack = [first, first] ∧ ∀ x, S x → x = first)

theorem half_singleton (cone : Cone C) {first : Vec2D K} (inside : S first)
    (same : ∀ x, S x → x = first) : Half C S [first] where
  mem p member := List.mem_singleton.mp member ▸ inside
  rising := .singleton first
  turns := trivial
  left _ _ := .singleton first
  lowest bottom last x other := by
    have equal : first = bottom := Option.some.inj last
    rw [← equal, same x other, sub_self]
    exact cone.zero

theorem Linked.congr {S' : Vec2D K → Prop} {first last : Vec2D K} {stack : List (Vec2D K)}
    (linked : Linked C S first last stack) (same : ∀ x, S' x ↔ S x) :
    Linked C S' first last stack := by
  have equal : S' = S := funext fun x => propext (same x)
  rw [equal]
  exact linked

variable [IsStrictOrderedRing K]

theorem before_iff (a b : Vec2D K) : Before a b ↔ Upward (b - a) := by
  rw [Before, Upward, Prod.snd_sub, Prod.fst_sub, sub_pos, sub_nonneg, sub_eq_zero]
  split
  · rename_i level
    rw [level, eq_self_iff_true, true_and]
    exact (or_iff_right (lt_irrefl _)).symm
  · rename_i level
    rw [or_iff_left]
    exact fun same => level same.1.symm

theorem pairwise_sorted (pts : List (Vec2D K)) :
    (pts.insertionSort Before).Pairwise fun a b => Upward (b - a) := by
  have total : Std.Total (@Before K _) := by
    refine ⟨fun a b => ?_⟩
    rw [before_iff, before_iff, ← neg_sub b a]
    exact Upward.total _
  have transitive : IsTrans (Vec2D K) Before := by
    refine ⟨fun a b c first second => ?_⟩
    rw [before_iff] at first second ⊢
    have sum : c - a = (b - a) + (c - b) := by abel
    rw [sum]
    exact Upward.cone.add first second
  exact (List.pairwise_insertionSort _ pts).imp fun {a b} => (before_iff a b).mp

/-- The loop stops where the stack turns left to the new point. -/
theorem popBack_half (cone : Cone C) {p t : Vec2D K} {rest : List (Vec2D K)}
    (half : Half C S (t :: rest)) (beyond : ∀ x, S x → C (p - x))
    (ahead : ∀ x, S x → C (x - t) → 0 ≤ turn t p x) :
    ∃ t' rest', popBack 1 p (t :: rest) = t' :: rest' ∧ Half C S (t' :: rest') ∧
      (t' :: rest').getLast? = (t :: rest).getLast? ∧
      (∀ x, S x → C (x - t') → 0 ≤ turn t' p x) ∧ ∀ u ∈ rest'.head?, 0 < turn u t' p := by
  induction rest generalizing t with
  | nil => exact ⟨t, [], rfl, half, rfl, ahead, fun u impossible => absurd impossible nofun⟩
  | cons a rest ih =>
      have above : (t :: a :: rest).length > 1 := by
        simp
      simp only [popBack, above, true_and, side_eq_turn]
      split
      · rename_i right
        have below := beyond a (half.mem a (List.mem_cons_of_mem _ List.mem_cons_self))
        obtain ⟨t', rest', popped, half', last, facts⟩ :=
          ih half.pop fun x inside behind => half.ahead cone right below inside behind
        exact ⟨t', rest', popped, half', by rw [last, List.getLast?_cons_cons], facts⟩
      · rename_i left
        refine ⟨t, a :: rest, rfl, half, rfl, ahead, fun u same => ?_⟩
        rw [← Option.some.inj same]
        exact not_le.mp left

/-- The next point of the sorted points is linked. -/
theorem link_linked (cone : Cone C) {first last p : Vec2D K} {stack : List (Vec2D K)}
    (linked : Linked C S first last stack) (inside : S first)
    (total : ∀ x y, S x → S y → C (x - y) ∨ C (y - x)) (highest : ∀ x, S x → C (last - x))
    (beyond : ∀ x, S x → C (p - x)) :
    Linked C (fun x => x = p ∨ S x) first p (link 1 stack p) := by
  -- The points that are not taken off are half of the hull.
  have popped : ∃ t rest, popBack 1 p stack = t :: rest ∧ Half C S (t :: rest) ∧
      (t :: rest).getLast? = some first ∧ (∀ x, S x → C (x - t) → 0 ≤ turn t p x) ∧
      ∀ u ∈ rest.head?, 0 < turn u t p := by
    obtain ⟨head, bottom, half | ⟨rfl, same⟩⟩ := linked
    · obtain ⟨rest, rfl⟩ : ∃ rest, stack = last :: rest := by
        cases stack with
        | nil => exact absurd head nofun
        | cons t rest => exact ⟨rest, by rw [Option.some.inj head]⟩
      have ahead (x : Vec2D K) (member : S x) (behind : C (x - last)) : 0 ≤ turn last p x := by
        have back : C (-(x - last)) := by
          rw [neg_sub]
          exact highest x member
        rw [sub_eq_zero.mp (cone.pointed behind back), turn_self_left]
      obtain ⟨t, rest', found, half', lastSame, facts⟩ := popBack_half cone half beyond ahead
      exact ⟨t, rest', found, half', lastSame.trans bottom, facts⟩
    · have single := half_singleton cone inside same
      refine ⟨first, [], ?_, single, rfl, ?_, fun u impossible => absurd impossible nofun⟩
      · rw [popBack, if_pos]
        · rfl
        · refine ⟨by simp, ?_⟩
          rw [side, sub_self]
          simp [cross]
      · intro x member _
        rw [same x member, turn_self_left]
  obtain ⟨t, rest, found, half, bottom, ahead, stop⟩ := popped
  rw [link, found]
  refine ⟨rfl, by rw [List.getLast?_cons_cons, bottom], ?_⟩
  by_cases apart : p = t
  · -- The new point is the only one, since the stack would turn left to it otherwise.
    have single : rest = [] := by
      cases rest with
      | nil => rfl
      | cons u rest =>
          have left := stop u rfl
          rw [apart, turn_self_right] at left
          exact absurd left (lt_irrefl 0)
    rw [single] at bottom half ⊢
    have start : t = first := Option.some.inj bottom
    have same (x : Vec2D K) (member : S x) : x = first := by
      have above := half.lowest t rfl x member
      have below := beyond x member
      rw [apart, ← neg_sub] at below
      rw [← start]
      exact sub_eq_zero.mp (cone.pointed above below)
    refine Or.inr ⟨by rw [apart, start], ?_⟩
    rintro x (rfl | member)
    · exact apart.trans start
    · exact same x member
  · exact Or.inl (half.push cone (fun x member => total x t member
      (half.mem t List.mem_cons_self)) beyond apart stop ahead)

/-- All points of a sorted list are linked. -/
theorem foldl_linked (cone : Cone C) (total : ∀ x y, C (x - y) ∨ C (y - x)) (first : Vec2D K)
    (rest : List (Vec2D K)) (sorted : (first :: rest).Pairwise fun a b => C (b - a)) :
    ∃ last, (first :: rest).getLast? = some last ∧
      (∀ x ∈ first :: rest, C (last - x)) ∧
      Linked C (· ∈ first :: rest) first last (rest.foldl (link 1) [first]) := by
  induction rest using List.reverseRecOn with
  | nil =>
      refine ⟨first, rfl, fun x member => ?_, rfl, rfl, Or.inl (half_singleton cone
        List.mem_cons_self fun x member => List.mem_singleton.mp member)⟩
      rw [List.mem_singleton.mp member, sub_self]
      exact cone.zero
  | append_singleton rest p ih =>
      rw [← List.cons_append, List.pairwise_append] at sorted
      obtain ⟨last, -, highest, linked⟩ := ih sorted.1
      have beyond (x : Vec2D K) (member : x ∈ first :: rest) : C (p - x) :=
        sorted.2.2 x member p (List.mem_singleton_self p)
      refine ⟨p, by rw [← List.cons_append, List.getLast?_concat], fun x member => ?_, ?_⟩
      · rw [← List.cons_append, List.mem_append, List.mem_singleton] at member
        rcases member with earlier | rfl
        · exact beyond x earlier
        · rw [sub_self]
          exact cone.zero
      · rw [List.foldl_append]
        refine (link_linked cone linked List.mem_cons_self (fun x y _ _ => total x y) highest
          beyond).congr fun x => ?_
        rw [← List.cons_append, List.mem_append, List.mem_singleton, or_comm]

end Chain

end CodeCollect.OpenPano.ConvexHull
