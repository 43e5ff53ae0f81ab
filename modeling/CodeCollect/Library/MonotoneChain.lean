import Mathlib

namespace CodeCollect.Library.MonotoneChain

variable {K : Type} [Field K]

def cross (u v : K × K) : K := u.1 * v.2 - u.2 * v.1

/-- The turn from the first two points to the third one is positive to the left. -/
def turn (a b c : K × K) : K := cross (b - a) (c - a)

theorem cross_swap (u v : K × K) : cross v u = -cross u v := by
  simp only [cross]
  ring

theorem cross_self (u : K × K) : cross u u = 0 := by
  simp only [cross]
  ring

theorem cross_neg_neg (u v : K × K) : cross (-u) (-v) = cross u v := by
  simp only [cross, Prod.fst_neg, Prod.snd_neg]
  ring

theorem turn_eq_next (a b c : K × K) : turn a b c = cross (b - a) (c - b) := by
  simp only [turn, cross, Prod.fst_sub, Prod.snd_sub]
  ring

theorem turn_eq_back (a b c : K × K) : turn a b c = cross (a - c) (b - a) := by
  simp only [turn, cross, Prod.fst_sub, Prod.snd_sub]
  ring

theorem turn_eq_before (a b c : K × K) : turn a b c = cross (b - c) (b - a) := by
  simp only [turn, cross, Prod.fst_sub, Prod.snd_sub]
  ring

theorem turn_self_left (a b : K × K) : turn a b a = 0 := by
  simp only [turn, cross, Prod.fst_sub, Prod.snd_sub]
  ring

theorem turn_self_right (a b : K × K) : turn a b b = 0 := by
  rw [turn, cross_self]

/-- The heights of the vectors weigh their turns. -/
theorem cross_weighted (u v w : K × K) :
    cross u w * v.2 = cross u v * w.2 + cross v w * u.2 := by
  simp only [cross]
  ring

theorem cross_of_level {u : K × K} (v : K × K) (level : u.2 = 0) : cross u v = u.1 * v.2 := by
  rw [cross, level, zero_mul, sub_zero]

variable [LinearOrder K]

theorem cross_ne_zero {u v : K × K} (left : 0 < cross u v) : u ≠ 0 ∧ v ≠ 0 := by
  constructor
  · rintro rfl
    simp [cross] at left
  · rintro rfl
    simp [cross] at left

/-- Two vectors of a cone turn left when both turn left of a vector between them. -/
structure Cone (C : K × K → Prop) : Prop where
  zero : C 0
  add : ∀ {u v}, C u → C v → C (u + v)
  pointed : ∀ {u}, C u → C (-u) → u = 0
  turn_le : ∀ {u v w}, C u → C v → C w → v ≠ 0 → 0 ≤ cross u v → 0 ≤ cross v w → 0 ≤ cross u w
  turn_lt : ∀ {u v w}, C u → C v → C w → u ≠ 0 → 0 ≤ cross u v → 0 < cross v w → 0 < cross u w
  lt_turn : ∀ {u v w}, C u → C v → C w → w ≠ 0 → 0 < cross u v → 0 ≤ cross v w → 0 < cross u w

/-- Vectors point up, or to the right where they are level. -/
def Upward (u : K × K) : Prop := 0 < u.2 ∨ u.2 = 0 ∧ 0 ≤ u.1

namespace Upward

variable {u v w : K × K}

theorem nonneg (up : Upward u) : 0 ≤ u.2 := by
  rcases up with above | ⟨level, -⟩
  · exact above.le
  · exact level.ge

theorem right_of_level (up : Upward u) (level : u.2 = 0) (some : u ≠ 0) : 0 < u.1 := by
  rcases up with above | ⟨-, right⟩
  · exact absurd level above.ne'
  · exact right.lt_of_ne fun zero => some (Prod.ext zero.symm level)

variable [IsStrictOrderedRing K]

/-- What stands left of an upward vector is not level. -/
theorem above_of_lt (up : Upward u) (next : Upward v) (left : 0 < cross u v) : 0 < v.2 := by
  rcases next with above | ⟨level, right⟩
  · exact above
  · rw [cross, level, mul_zero, zero_sub, neg_pos] at left
    exact absurd left (not_lt.mpr (mul_nonneg up.nonneg right))

/-- What stands right of a level vector is level. -/
theorem level_of_le (up : Upward u) (next : Upward v) (some : v ≠ 0) (level : v.2 = 0)
    (left : 0 ≤ cross u v) : u.2 = 0 := by
  rw [cross, level, mul_zero, zero_sub, neg_nonneg] at left
  have right := next.right_of_level level some
  exact le_antisymm (nonpos_of_mul_nonpos_left left right) up.nonneg

theorem cone : Cone (@Upward K _ _) where
  zero := Or.inr ⟨rfl, le_rfl⟩
  add := by
    rintro u v (above | ⟨level, right⟩) second
    · exact Or.inl (add_pos_of_pos_of_nonneg above second.nonneg)
    · rcases second with above' | ⟨level', right'⟩
      · exact Or.inl (add_pos_of_nonneg_of_pos level.ge above')
      · exact Or.inr ⟨by rw [Prod.snd_add, level, level', add_zero], add_nonneg right right'⟩
  pointed := by
    intro u up down
    have high := up.nonneg
    have low := down.nonneg
    rw [Prod.snd_neg, neg_nonneg] at low
    have level : u.2 = 0 := le_antisymm low high
    by_contra some
    have right := up.right_of_level level some
    have left := down.right_of_level (by rw [Prod.snd_neg, level, neg_zero]) (neg_ne_zero.mpr some)
    rw [Prod.fst_neg, neg_pos] at left
    exact absurd left right.not_gt
  turn_le := by
    intro u v w upU upV upW some first second
    rcases upV.nonneg.lt_or_eq with above | level
    · refine nonneg_of_mul_nonneg_left ?_ above
      rw [cross_weighted]
      exact add_nonneg (mul_nonneg first upW.nonneg) (mul_nonneg second upU.nonneg)
    · have flat := upU.level_of_le upV some level.symm first
      rw [cross_of_level _ flat]
      rcases upU with impossible | ⟨-, right⟩
      · exact absurd flat impossible.ne'
      · exact mul_nonneg right upW.nonneg
  turn_lt := by
    intro u v w upU upV upW some first second
    have high := upV.above_of_lt upW second
    rcases upU.nonneg.lt_or_eq with above | level
    · rcases upV.nonneg.lt_or_eq with aboveV | levelV
      · refine pos_of_mul_pos_left ?_ aboveV.le
        rw [cross_weighted]
        exact add_pos_of_nonneg_of_pos (mul_nonneg first upW.nonneg) (mul_pos second above)
      · have flat := upU.level_of_le upV (cross_ne_zero second).1 levelV.symm first
        exact absurd flat above.ne'
    · rw [cross_of_level _ level.symm]
      exact mul_pos (upU.right_of_level level.symm some) high
  lt_turn := by
    intro u v w upU upV upW some first second
    have high := upU.above_of_lt upV first
    refine pos_of_mul_pos_left ?_ high.le
    rw [cross_weighted]
    rcases upW.nonneg.lt_or_eq with above | level
    · exact add_pos_of_pos_of_nonneg (mul_pos first above) (mul_nonneg second upU.nonneg)
    · have flat := upV.level_of_le upW some level.symm second
      exact absurd flat high.ne'

theorem total (u : K × K) : Upward u ∨ Upward (-u) := by
  rcases lt_trichotomy u.2 0 with below | level | above
  · exact Or.inr (Or.inl (neg_pos.mpr below))
  · rcases le_total 0 u.1 with right | left
    · exact Or.inl (Or.inr ⟨level, right⟩)
    · exact Or.inr (Or.inr ⟨neg_eq_zero.mpr level, neg_nonneg.mpr left⟩)
  · exact Or.inl (Or.inl above)

end Upward

/-- The opposite vectors of a cone are one. -/
theorem Cone.opposite {C : K × K → Prop} (cone : Cone C) : Cone fun u => C (-u) where
  zero := by
    rw [neg_zero]
    exact cone.zero
  add := by
    intro u v first second
    rw [neg_add]
    exact cone.add first second
  pointed first second := neg_eq_zero.mp (cone.pointed first second)
  turn_le := by
    intro u v w first second third some
    rw [← cross_neg_neg u v, ← cross_neg_neg v w, ← cross_neg_neg u w]
    exact cone.turn_le first second third (neg_ne_zero.mpr some)
  turn_lt := by
    intro u v w first second third some
    rw [← cross_neg_neg u v, ← cross_neg_neg v w, ← cross_neg_neg u w]
    exact cone.turn_lt first second third (neg_ne_zero.mpr some)
  lt_turn := by
    intro u v w first second third some
    rw [← cross_neg_neg u v, ← cross_neg_neg v w, ← cross_neg_neg u w]
    exact cone.lt_turn first second third (neg_ne_zero.mpr some)

/-- Each three points of a stack in a row turn left, the newest one first. -/
def Turns : List (K × K) → Prop
  | c :: b :: a :: rest => 0 < turn a b c ∧ Turns (b :: a :: rest)
  | _ => True

/-- A stack of points rises in a cone, turns left, and has a set of points on its left. -/
structure Half (C S : K × K → Prop) (stack : List (K × K)) : Prop where
  mem : ∀ p ∈ stack, S p
  rising : stack.IsChain fun b a => C (b - a) ∧ b ≠ a
  turns : Turns stack
  left : ∀ x, S x → stack.IsChain fun b a => 0 ≤ turn a b x
  lowest : ∀ bottom ∈ stack.getLast?, ∀ x, S x → C (x - bottom)

section Half

variable {C S : K × K → Prop} {a b p t : K × K} {rest : List (K × K)}

theorem Turns.tail (turns : Turns (b :: rest)) : Turns rest := by
  match rest with
  | [] => trivial
  | [_] => trivial
  | _ :: _ :: _ => exact turns.2

/-- The newest point can be taken off. -/
theorem Half.pop (half : Half C S (b :: a :: rest)) : Half C S (a :: rest) where
  mem p member := half.mem p (List.mem_cons_of_mem _ member)
  rising := half.rising.tail
  turns := half.turns.tail
  left x inside := (half.left x inside).tail
  lowest bottom last := half.lowest bottom (by rwa [List.getLast?_cons_cons])

theorem Half.congr {S' : K × K → Prop} {stack : List (K × K)} (half : Half C S stack)
    (same : ∀ x, S' x ↔ S x) : Half C S' stack := by
  have equal : S' = S := funext fun x => propext (same x)
  rw [equal]
  exact half

section Push

variable [IsStrictOrderedRing K]

/-- When the newest point is taken off, the points behind it are left of the next edge. -/
theorem Half.ahead (cone : Cone C) (half : Half C S (b :: a :: rest)) (right : turn a b p ≤ 0)
    (beyond : C (p - a)) {x : K × K} (inside : S x) (behind : C (x - a)) : 0 ≤ turn a p x := by
  have edge := (List.isChain_cons_cons.mp half.rising).1
  have first : 0 ≤ cross (p - a) (b - a) := by
    rw [cross_swap]
    exact neg_nonneg.mpr right
  have second : 0 ≤ cross (b - a) (x - a) := (List.isChain_cons_cons.mp (half.left x inside)).1
  exact cone.turn_le beyond edge.1 behind (sub_ne_zero.mpr edge.2) first second

/-- A point left of the newest edge is left of all edges. -/
theorem left_of_turn (cone : Cone C) {u : K × K}
    (rising : (t :: u :: rest).IsChain fun b a => C (b - a) ∧ b ≠ a)
    (turns : Turns (t :: u :: rest)) (left : 0 < turn u t p) (beyond : C (p - t)) :
    (t :: u :: rest).IsChain fun b a => 0 < turn a b p := by
  induction rest generalizing t u with
  | nil => exact List.isChain_pair.mpr left
  | cons w rest ih =>
      rw [List.isChain_cons_cons] at rising
      have lower := (List.isChain_cons_cons.mp rising.2).1
      have bend := turns.1
      rw [turn_eq_next] at left bend
      have across : 0 < cross (u - w) (p - t) :=
        cone.turn_lt lower.1 rising.1.1 beyond (sub_ne_zero.mpr lower.2) bend.le left
      have next : 0 < turn w u p := by
        have split : turn w u p = cross (u - w) (t - u) + cross (u - w) (p - t) := by
          simp only [turn, cross, Prod.fst_sub, Prod.snd_sub]
          ring
        rw [split]
        exact add_pos bend across
      have further : C (p - u) := by
        have sum : p - u = (t - u) + (p - t) := by abel
        rw [sum]
        exact cone.add rising.1.1 beyond
      rw [← turn_eq_next] at left
      exact List.isChain_cons_cons.mpr ⟨left, ih rising.2 turns.2 next further⟩

/-- A point beyond all others is put on the stack when the stack turns left to it. -/
theorem Half.push (cone : Cone C) (half : Half C S (t :: rest))
    (total : ∀ x, S x → C (x - t) ∨ C (t - x)) (beyond : ∀ x, S x → C (p - x)) (apart : p ≠ t)
    (stop : ∀ u ∈ rest.head?, 0 < turn u t p)
    (ahead : ∀ x, S x → C (x - t) → 0 ≤ turn t p x) :
    Half C (fun x => x = p ∨ S x) (p :: t :: rest) where
  mem q member := (List.mem_cons.mp member).imp id (half.mem q)
  rising := List.isChain_cons_cons.mpr ⟨⟨beyond t (half.mem t List.mem_cons_self), apart⟩,
    half.rising⟩
  turns := by
    cases rest with
    | nil => trivial
    | cons u rest => exact ⟨stop u rfl, half.turns⟩
  left := by
    rintro x (rfl | inside)
    · rw [List.isChain_cons_cons, turn_self_right]
      refine ⟨le_rfl, ?_⟩
      cases rest with
      | nil => exact .singleton t
      | cons u rest =>
          exact (left_of_turn cone half.rising half.turns (stop u rfl)
            (beyond t (half.mem t List.mem_cons_self))).imp fun _ _ => le_of_lt
    · refine List.isChain_cons_cons.mpr ⟨?_, half.left x inside⟩
      rcases total x inside with after | before
      · exact ahead x inside after
      · cases rest with
        | nil => exact ahead x inside (half.lowest t rfl x inside)
        | cons u rest =>
            have edge := (List.isChain_cons_cons.mp half.rising).1
            have first := (List.isChain_cons_cons.mp (half.left x inside)).1
            have second := stop u rfl
            rw [turn_eq_before] at first
            rw [turn_eq_next] at second
            rw [turn_eq_back]
            exact cone.turn_le before edge.1 (beyond t (half.mem t List.mem_cons_self))
              (sub_ne_zero.mpr edge.2) first second.le
  lowest := by
    intro bottom last
    rw [List.getLast?_cons_cons] at last
    rintro x (rfl | inside)
    · exact beyond bottom (half.mem bottom (List.mem_of_getLast? last))
    · exact half.lowest bottom last x inside

end Push

/-- The edges on both sides of a point turn left and have a set of points on their left. -/
structure Corner (C S : K × K → Prop) (a v b : K × K) : Prop where
  before : C (v - a) ∧ v ≠ a
  behind : C (b - v) ∧ b ≠ v
  turn : 0 < turn a v b
  leftBefore : ∀ x, S x → 0 ≤ MonotoneChain.turn a v x
  leftBehind : ∀ x, S x → 0 ≤ MonotoneChain.turn v b x

/-- Each point between the ends of a stack is a corner. -/
theorem Half.corner (half : Half C S (t :: rest)) {v : K × K} (member : v ∈ rest)
    (inner : rest.getLast? ≠ some v) : ∃ a b, Corner C S a v b := by
  induction rest generalizing t with
  | nil => exact absurd member List.not_mem_nil
  | cons u rest ih =>
      rcases List.mem_cons.mp member with rfl | deeper
      · cases rest with
        | nil => exact absurd rfl inner
        | cons w rest =>
            have rising := List.isChain_cons_cons.mp half.rising
            refine ⟨w, t, (List.isChain_cons_cons.mp rising.2).1, rising.1, half.turns.1, ?_, ?_⟩
            · intro x inside
              exact (List.isChain_cons_cons.mp (List.isChain_cons_cons.mp (half.left x inside)).2).1
            · intro x inside
              exact (List.isChain_cons_cons.mp (half.left x inside)).1
      · obtain ⟨w, rest, rfl⟩ := List.exists_cons_of_ne_nil (List.ne_nil_of_mem deeper)
        rw [List.getLast?_cons_cons] at inner
        exact ih half.pop deeper inner

/-- The first edge of a stack has all points on its left. -/
theorem Half.bottom {u : K × K} (half : Half C S (t :: u :: rest)) :
    ∃ s q, (t :: u :: rest).getLast? = some q ∧ S s ∧ C (s - q) ∧ s ≠ q ∧
      ∀ x, S x → 0 ≤ turn q s x := by
  induction rest generalizing t u with
  | nil =>
      have rising := List.isChain_pair.mp half.rising
      exact ⟨t, u, rfl, half.mem t List.mem_cons_self, rising.1, rising.2,
        fun x inside => (List.isChain_cons_cons.mp (half.left x inside)).1⟩
  | cons w rest ih =>
      obtain ⟨s, q, last, edge⟩ := ih half.pop
      exact ⟨s, q, by rwa [List.getLast?_cons_cons], edge⟩

/-- Each point below the newest one stands between two neighbours of the stack. -/
theorem Half.spans {u : K × K} (half : Half C S (t :: u :: rest)) {x : K × K} (inside : S x)
    (below : C (t - x)) (total : ∀ y, S y → C (x - y) ∨ C (y - x)) :
    ∃ a ∈ t :: u :: rest, ∃ b ∈ t :: u :: rest, C (x - a) ∧ C (b - x) ∧ 0 ≤ turn a b x := by
  induction rest generalizing t u with
  | nil =>
      exact ⟨u, List.mem_cons_of_mem _ List.mem_cons_self, t, List.mem_cons_self,
        half.lowest u rfl x inside, below, (List.isChain_cons_cons.mp (half.left x inside)).1⟩
  | cons w rest ih =>
      rcases total u (half.mem u (List.mem_cons_of_mem _ List.mem_cons_self)) with above | lower
      · exact ⟨u, List.mem_cons_of_mem _ List.mem_cons_self, t, List.mem_cons_self, above, below,
          (List.isChain_cons_cons.mp (half.left x inside)).1⟩
      · obtain ⟨a, memberA, b, memberB, facts⟩ := ih half.pop lower
        exact ⟨a, List.mem_cons_of_mem _ memberA, b, List.mem_cons_of_mem _ memberB, facts⟩

/-- The points of a stack are different. -/
theorem Half.pairwise (cone : Cone C) {stack : List (K × K)} (half : Half C S stack) :
    stack.Pairwise fun b a => C (b - a) ∧ b ≠ a := by
  have transitive : IsTrans (K × K) fun b a => C (b - a) ∧ b ≠ a := by
    refine ⟨fun c b a upper lower => ?_⟩
    have sum : c - a = (c - b) + (b - a) := by abel
    refine ⟨sum ▸ cone.add upper.1 lower.1, ?_⟩
    rintro rfl
    have back : C (-(c - b)) := by
      rw [neg_sub]
      exact lower.1
    exact upper.2 (sub_eq_zero.mp (cone.pointed upper.1 back))
  exact List.isChain_iff_pairwise.mp half.rising

/-- A corner bends to the left as seen from points behind and in front of it. -/
theorem Corner.across {v q : K × K} (corner : Corner C S a v b) (cone : Cone C) (insideQ : S q)
    (insideT : S t) (first : C (v - q)) (apart : v ≠ q) (second : C (t - v)) (apart' : t ≠ v) :
    0 < cross (v - q) (t - v) := by
  have bend := corner.turn
  have left := corner.leftBefore q insideQ
  have right : 0 ≤ cross (b - v) (t - v) := corner.leftBehind t insideT
  rw [turn_eq_next] at bend
  rw [turn_eq_before] at left
  have middle := cone.turn_lt first corner.before.1 corner.behind.1 (sub_ne_zero.mpr apart) left bend
  exact cone.lt_turn first corner.behind.1 second (sub_ne_zero.mpr apart') middle right

/-- Two chains that meet at the last point bend there, unless all points are on one line. -/
theorem junction (cone : Cone C) {s top : K × K} (first : C (top - s) ∧ top ≠ s)
    (left : ∀ x, S x → 0 ≤ turn s top x) (second : C (top - t) ∧ t ≠ top) (inside : S t)
    (right : ∀ x, S x → 0 ≤ turn top t x) (below : ∀ x, S x → C (top - x))
    (spread : ∃ x, S x ∧ turn s top x ≠ 0) : 0 < turn s top t := by
  refine (left t inside).lt_of_ne fun straight => ?_
  obtain ⟨x, insideX, off⟩ := spread
  have positive := (left x insideX).lt_of_ne' off
  have beside := right x insideX
  rw [turn_eq_before] at positive straight
  have swapped : turn top t x = cross (top - t) (top - x) := by
    rw [turn, ← cross_neg_neg, neg_sub, neg_sub]
  rw [swapped] at beside
  exact absurd straight (cone.turn_lt second.1 (below x insideX) first.1
    (sub_ne_zero.mpr second.2.symm) beside positive).ne

end Half

end CodeCollect.Library.MonotoneChain
