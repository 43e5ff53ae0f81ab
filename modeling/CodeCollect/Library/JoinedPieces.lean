import Mathlib.Data.List.Chain

namespace CodeCollect.Library

/-- One of the given lists, as it is or reversed. -/
structure Piece where
  list : Nat
  reversed : Bool

variable {Point : Type}

namespace Piece

def points (source : Nat → List Point) (piece : Piece) : List Point :=
  if piece.reversed then (source piece.list).reverse else source piece.list

def turned (piece : Piece) : Piece := {piece with reversed := !piece.reversed}

variable {source : Nat → List Point}

@[simp] theorem points_turned (piece : Piece) :
    piece.turned.points source = (piece.points source).reverse := by
  rcases piece with ⟨list, _ | _⟩ <;> simp [points, turned]

end Piece

/-- The pieces are put behind each other. -/
def assembled (source : Nat → List Point) (pieces : List Piece) : List Point :=
  pieces.flatMap (Piece.points source)

/-- No piece is empty, and each begins with the point that the one before it ends with. -/
structure Joined (source : Nat → List Point) (pieces : List Piece) : Prop where
  inhabited : ∀ piece ∈ pieces, source piece.list ≠ []
  meeting : pieces.IsChain fun first second =>
    (first.points source).getLast? = (second.points source).head?

/-- The same line, drawn from its other end. -/
def turned (pieces : List Piece) : List Piece := (pieces.map Piece.turned).reverse

/-- The numbers of the lists that the pieces come from. -/
def origins (pieces : List Piece) : List Nat := pieces.map Piece.list

section Lines

variable {source : Nat → List Point} {pieces first second : List Piece}

theorem assembled_append :
    assembled source (first ++ second) = assembled source first ++ assembled source second :=
  List.flatMap_append

theorem assembled_turned : assembled source (turned pieces) = (assembled source pieces).reverse := by
  induction pieces with
  | nil => rfl
  | cons piece rest ih =>
      have here : turned (piece :: rest) = turned rest ++ [piece.turned] := by
        simp [turned]
      rw [here, assembled_append, ih]
      simp [assembled]

theorem origins_turned : (origins (turned pieces)).Perm (origins pieces) := by
  have same : (pieces.map Piece.turned).map Piece.list = pieces.map Piece.list := by
    rw [List.map_map]
    rfl
  rw [origins, turned, List.map_reverse, same]
  exact List.reverse_perm _

theorem Joined.turned (joined : Joined source pieces) : Joined source (turned pieces) where
  inhabited := by
    intro piece member
    obtain ⟨other, inside, rfl⟩ := List.mem_map.mp (List.mem_reverse.mp member)
    exact joined.inhabited other inside
  meeting := by
    rw [Library.turned, List.isChain_reverse, List.isChain_map]
    refine List.IsChain.imp (fun first second meeting => ?_) joined.meeting
    rw [Piece.points_turned, Piece.points_turned, List.getLast?_reverse, List.head?_reverse]
    exact meeting.symm

theorem Joined.points_ne_nil (joined : Joined source pieces) {piece : Piece}
    (member : piece ∈ pieces) : piece.points source ≠ [] := by
  have inhabited := joined.inhabited piece member
  rcases piece with ⟨list, _ | _⟩ <;> simpa [Piece.points] using inhabited

theorem Joined.head?_assembled (joined : Joined source pieces) :
    (assembled source pieces).head? =
      pieces.head?.bind fun piece => (piece.points source).head? := by
  cases pieces with
  | nil => rfl
  | cons piece rest =>
      obtain ⟨point, points, shape⟩ :=
        List.exists_cons_of_ne_nil (joined.points_ne_nil List.mem_cons_self)
      simp [assembled, shape]

theorem Joined.getLast?_assembled (joined : Joined source pieces) :
    (assembled source pieces).getLast? =
      pieces.getLast?.bind fun piece => (piece.points source).getLast? := by
  have other := joined.turned.head?_assembled
  rw [assembled_turned, List.head?_reverse, Library.turned, List.head?_reverse,
    List.getLast?_map] at other
  rw [other]
  cases pieces.getLast? with
  | none => rfl
  | some piece => simp

/-- Two lines are joined where the one ends and the other begins. -/
theorem Joined.append (joined : Joined source first) (other : Joined source second)
    (meeting : (assembled source first).getLast? = (assembled source second).head?) :
    Joined source (first ++ second) where
  inhabited piece member := (List.mem_append.mp member).elim (joined.inhabited piece)
    (other.inhabited piece)
  meeting := by
    refine List.IsChain.append joined.meeting other.meeting fun last isLast head isHead => ?_
    rw [joined.getLast?_assembled, other.head?_assembled, isLast, isHead] at meeting
    exact meeting

/-- A line of one whole list. -/
theorem joined_single {list : Nat} (inhabited : source list ≠ []) :
    Joined source [⟨list, false⟩] where
  inhabited piece member := by
    rw [List.mem_singleton.mp member]
    exact inhabited
  meeting := List.isChain_singleton _

end Lines

end CodeCollect.Library
