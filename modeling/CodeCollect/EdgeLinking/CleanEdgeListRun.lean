import CodeCollect.EdgeLinking.CleanEdgeListConstruction
import CodeCollect.Library.JoinedPieces

namespace CodeCollect.EdgeLinking

open CodeCollect.Library

variable {Point : Type}

/-- The lists that are left and those that were removed are lines of given lists, and each of the given
lists is in one of them, once. -/
def Accounted (source : Nat → List Point) (count : Nat) (moment : Moment Point) : Prop :=
  ∃ kept gone : List (List Piece),
    moment.nedgelist = kept.map (assembled source) ∧
    moment.removed = gone.map (assembled source) ∧
    (∀ pieces ∈ kept ++ gone, Joined source pieces) ∧
    ((kept ++ gone).flatMap origins).Perm (List.range' 1 count)

/-- The pieces of each list and those of the removed lists. -/
structure Account (source : Nat → List Point) (count : Nat) (moment : Moment Point)
    (pieces : Nat → List Piece) (gone : List (List Piece)) : Prop where
  Nedges : moment.state.Nedges = count
  lists : ∀ edge, 1 ≤ edge → edge ≤ count → moment.state.edgelist edge =
    assembled source (pieces edge) ∧ Joined source (pieces edge)
  removed : moment.removed = gone.map (assembled source)
  joined : ∀ line ∈ gone, Joined source line
  once : ((List.range' 1 count).flatMap (fun edge => origins (pieces edge)) ++
    gone.flatMap origins).Perm (List.range' 1 count)

section Lines

/-- A value of a function on a list without repetitions is put before the others. -/
theorem perm_flatMap_update {Value : Type} {numbers : List Nat} {number : Nat}
    (distinct : numbers.Nodup) (member : number ∈ numbers) (values : Nat → List Value)
    (value : List Value) :
    (numbers.flatMap (Function.update values number value)).Perm
      (value ++ (numbers.erase number).flatMap values) := by
  refine ((List.perm_cons_erase member).flatMap_right _).trans ?_
  rw [List.flatMap_cons, Function.update_self]
  refine List.Perm.append_left value (List.Perm.of_eq ?_)
  refine List.flatMap_congr fun other inside => ?_
  rw [Function.update_of_ne]
  rintro rfl
  exact (distinct.not_mem_erase) inside

theorem origins_update {pieces : Nat → List Piece} {number : Nat} {line : List Piece} :
    (fun edge => origins (Function.update pieces number line edge)) =
      Function.update (fun edge => origins (pieces edge)) number (origins line) := by
  funext edge
  by_cases same : edge = number
  · rw [same, Function.update_self, Function.update_self]
  · rw [Function.update_of_ne same, Function.update_of_ne same]

/-- What is left behind one list is not lost. -/
theorem perm_flatMap_clear {Value : Type} {numbers : List Nat} {number : Nat}
    (distinct : numbers.Nodup) (member : number ∈ numbers) (values : Nat → List Value) :
    (numbers.flatMap values).Perm
      (values number ++ numbers.flatMap (Function.update values number [])) := by
  have whole := perm_flatMap_update distinct member values (values number)
  rw [Function.update_eq_self] at whole
  exact whole.trans (List.Perm.append_left _
    (perm_flatMap_update distinct member values []).symm)

/-- Two values may be put together in one place. -/
theorem perm_flatMap_merged {Value : Type} {numbers : List Nat} {number other : Nat}
    (distinct : numbers.Nodup) (member : number ∈ numbers) (otherMember : other ∈ numbers)
    (apart : number ≠ other) (values : Nat → List Value) {both : List Value}
    (same : both.Perm (values number ++ values other)) :
    (numbers.flatMap (Function.update (Function.update values number both) other [])).Perm
      (numbers.flatMap values) := by
  have cleared := perm_flatMap_clear distinct otherMember (Function.update values number both)
  rw [Function.update_of_ne apart.symm] at cleared
  have joined := perm_flatMap_update distinct member values both
  have whole := perm_flatMap_update distinct member values (values number)
  rw [Function.update_eq_self] at whole
  rw [← List.perm_append_left_iff (values other)]
  have exchanged : (both ++ (numbers.erase number).flatMap values).Perm
      (values other ++ (values number ++ (numbers.erase number).flatMap values)) := by
    rw [← List.append_assoc]
    exact (same.trans List.perm_append_comm).append_right _
  exact (cleared.symm.trans joined).trans (exchanged.trans (whole.symm.append_left _))

theorem origins_append {first second : List Piece} :
    origins (first ++ second) = origins first ++ origins second :=
  List.map_append

variable {source : Nat → List Point} {count : Nat} {moment : Moment Point}
  {pieces : Nat → List Piece} {gone : List (List Piece)} {edge n1 n2 : Nat}

/-- The lines that are not empty belong to the lists that are left. -/
theorem Account.exactly (account : Account source count moment pieces gone) :
    Accounted source count moment := by
  refine ⟨((List.range' 1 count).map pieces).filter (fun line => !line.isEmpty), gone, ?_,
    account.removed, ?_, ?_⟩
  · rw [Moment.nedgelist, account.Nedges]
    have inside : ∀ edge ∈ List.range' 1 count, 1 ≤ edge ∧ edge ≤ count := by
      intro edge member
      rw [List.mem_range'_1] at member
      omega
    generalize List.range' 1 count = edges at inside ⊢
    induction edges with
    | nil => rfl
    | cons edge edges ih =>
        obtain ⟨positive, small⟩ := inside edge List.mem_cons_self
        obtain ⟨same, joined⟩ := account.lists edge positive small
        have rest := ih fun edge member => inside edge (List.mem_cons_of_mem _ member)
        rw [List.map_cons, List.map_cons, List.filter_cons, List.filter_cons, same]
        cases shape : pieces edge with
        | nil => exact rest
        | cons piece line =>
            have filled : (assembled source (piece :: line)).isEmpty = false := by
              rw [List.isEmpty_eq_false_iff]
              rw [shape] at joined
              exact fun empty => joined.points_ne_nil List.mem_cons_self
                (List.append_eq_nil_iff.mp empty).1
            rw [filled]
            exact congrArg (assembled source (piece :: line) :: ·) rest
  · intro line member
    rcases List.mem_append.mp member with kept | lost
    · obtain ⟨edge, inside, rfl⟩ := List.mem_map.mp (List.mem_of_mem_filter kept)
      rw [List.mem_range'_1] at inside
      exact (account.lists edge (by omega) (by omega)).2
    · exact account.joined line lost
  · refine (List.Perm.of_eq ?_).trans account.once
    rw [List.flatMap_append]
    congr 1
    induction List.range' 1 count with
    | nil => rfl
    | cons edge edges ih =>
        rw [List.map_cons, List.filter_cons, List.flatMap_cons, ← ih]
        cases pieces edge with
        | nil => rfl
        | cons piece line => rfl

/-- A removed list goes to the removed ones. -/
theorem Account.removeedge (account : Account source count moment pieces gone)
    (inside : 1 ≤ edge ∧ edge ≤ count) :
    Account source count ⟨moment.state.removeedge edge, moment.state.edgelist edge :: moment.removed⟩
      (Function.update pieces edge []) (pieces edge :: gone) where
  Nedges := account.Nedges
  lists := by
    intro other positive small
    change Function.update moment.state.edgelist edge [] other = _ ∧ _
    by_cases same : other = edge
    · rw [same, Function.update_self, Function.update_self]
      exact ⟨rfl, ⟨fun piece member => absurd member List.not_mem_nil, List.isChain_nil⟩⟩
    · rw [Function.update_of_ne same, Function.update_of_ne same]
      exact account.lists other positive small
  removed := by
    rw [List.map_cons, ← (account.lists edge inside.1 inside.2).1, ← account.removed]
  joined := by
    intro line member
    rcases List.mem_cons.mp member with rfl | old
    · exact (account.lists edge inside.1 inside.2).2
    · exact account.joined line old
  once := by
    have member : edge ∈ List.range' 1 count := List.mem_range'_1.mpr (by omega)
    have cleared := perm_flatMap_clear (List.nodup_range' ..) member
      fun edge => origins (pieces edge)
    refine List.Perm.trans ?_ account.once
    rw [origins_update, List.flatMap_cons, ← List.append_assoc]
    exact (List.perm_append_comm.trans cleared.symm).append_right _

/-- Two lists that meet become one line. -/
theorem Account.merge (account : Account source count moment pieces gone)
    (first : moment.state.LiveNode n1) (second : moment.state.LiveNode n2)
    (apart : edgeOf n1 ≠ edgeOf n2) (meeting : moment.state.node n1 = moment.state.node n2) :
    ∃ pieces, Account source count
      ⟨(moment.state.joinedAt n1 n2).removeedge (edgeOf n2), moment.removed⟩ pieces gone := by
  obtain ⟨firstInside, -⟩ := first
  obtain ⟨secondInside, -⟩ := second
  rw [account.Nedges] at firstInside secondInside
  obtain ⟨firstSame, firstJoined⟩ := account.lists _ firstInside.1 firstInside.2
  obtain ⟨secondSame, secondJoined⟩ := account.lists _ secondInside.1 secondInside.2
  obtain ⟨front, frontSame, frontJoined, frontOrigins⟩ : ∃ line,
      moment.state.endingAt n1 = assembled source line ∧ Joined source line ∧
        (origins line).Perm (origins (pieces (edgeOf n1))) := by
    rw [State.endingAt, firstSame]
    split
    · exact ⟨_, assembled_turned.symm, firstJoined.turned, origins_turned⟩
    · exact ⟨_, rfl, firstJoined, List.Perm.refl _⟩
  obtain ⟨back, backSame, backJoined, backOrigins⟩ : ∃ line,
      moment.state.beginningAt n2 = assembled source line ∧ Joined source line ∧
        (origins line).Perm (origins (pieces (edgeOf n2))) := by
    rw [State.beginningAt, secondSame]
    split
    · exact ⟨_, rfl, secondJoined, List.Perm.refl _⟩
    · exact ⟨_, assembled_turned.symm, secondJoined.turned, origins_turned⟩
  have touching : (assembled source front).getLast? = (assembled source back).head? := by
    rw [← frontSame, ← backSame, State.getLast?_endingAt, State.head?_beginningAt, meeting]
  refine ⟨Function.update (Function.update pieces (edgeOf n1) (front ++ back)) (edgeOf n2) [],
    ?_, ?_, account.removed, account.joined, ?_⟩
  · exact State.joinedAt_Nedges.trans account.Nedges
  · intro edge positive small
    change Function.update (moment.state.joinedAt n1 n2).edgelist (edgeOf n2) [] edge = _ ∧ _
    rw [State.joinedAt_edgelist]
    by_cases theirs : edge = edgeOf n2
    · rw [theirs, Function.update_self, Function.update_self]
      exact ⟨rfl, ⟨fun piece member => absurd member List.not_mem_nil, List.isChain_nil⟩⟩
    · rw [Function.update_of_ne theirs, Function.update_of_ne theirs]
      by_cases mine : edge = edgeOf n1
      · rw [mine, Function.update_self, Function.update_self, frontSame, backSame]
        exact ⟨assembled_append.symm, frontJoined.append backJoined touching⟩
      · rw [Function.update_of_ne mine, Function.update_of_ne mine]
        exact account.lists edge positive small
  · refine List.Perm.trans (List.Perm.append_right _ ?_) account.once
    rw [origins_update, origins_update]
    exact perm_flatMap_merged (List.nodup_range' ..) (List.mem_range'_1.mpr (by omega))
      (List.mem_range'_1.mpr (by omega)) apart _
      (origins_append.symm ▸ frontOrigins.append backOrigins)

end Lines

namespace Run

/-- The present state and all before it are consistent and accounted for. -/
structure Kept (source : Nat → List Point) (count : Nat) (short : List Point → Prop)
    (run : Run Point) : Prop where
  consistent : run.now.state.Consistent
  account : ∃ pieces gone, Account source count run.now pieces gone
  removed : ∀ points ∈ run.now.removed, short points
  earlier : ∀ moment ∈ run.earlier, moment.state.Consistent ∧ Accounted source count moment

section Operations

variable {source : Nat → List Point} {count : Nat} {short : List Point → Prop} {run : Run Point}
  {edge node n1 n2 : Nat}

theorem Kept.moments (kept : Kept source count short run) :
    ∀ moment ∈ run.moments, moment.state.Consistent ∧ Accounted source count moment := by
  intro moment member
  rcases List.mem_cons.mp member with rfl | before
  · obtain ⟨pieces, gone, account⟩ := kept.account
    exact ⟨kept.consistent, account.exactly⟩
  · exact kept.earlier moment before

theorem Kept.mono {long : List Point → Prop} (kept : Kept source count short run)
    (weaker : ∀ points, short points → long points) : Kept source count long run where
  consistent := kept.consistent
  account := kept.account
  removed points member := weaker points (kept.removed points member)
  earlier := kept.earlier

theorem Kept.removeedge (kept : Kept source count short run) (live : run.now.state.LiveEdge edge)
    (isShort : short (run.now.state.edgelist edge)) :
    Kept source count short (run.removeedge edge) where
  consistent := (kept.consistent.apart edge).removeedge live.1
  account := by
    obtain ⟨pieces, gone, account⟩ := kept.account
    have inside := live.1
    rw [account.Nedges] at inside
    exact ⟨_, _, account.removeedge inside⟩
  removed points member := (List.mem_cons.mp member).elim (fun same => same ▸ isShort)
    (kept.removed points)
  earlier := kept.moments

/-- Two ends that meet alone are merged; nothing happens when they are ends of one list. -/
theorem Kept.mergenodes (kept : Kept source count short run)
    (first : run.now.state.LiveNode n1) (second : run.now.state.LiveNode n2) (apart : n1 ≠ n2)
    (meeting : run.now.state.node n1 = run.now.state.node n2)
    (alone : run.now.state.Alone n1 n2) :
    ∃ next, run.mergenodes n1 n2 = .ok next ∧ Kept source count short next ∧
      (next.now.state = run.now.state ∨ next.now.state.edgelist (edgeOf n2) = []) := by
  by_cases same : edgeOf n1 = edgeOf n2
  · refine ⟨⟨run.now, run.moments⟩, ?_, ⟨kept.consistent, kept.account, kept.removed,
      kept.moments⟩, .inl rfl⟩
    rw [Run.mergenodes, State.mergenodes_self same]
    rfl
  · refine ⟨⟨⟨(run.now.state.joinedAt n1 n2).removeedge (edgeOf n2), run.now.removed⟩,
      run.moments⟩, ?_, ⟨?_, ?_, kept.removed, kept.moments⟩, .inr ?_⟩
    · have connected := (kept.consistent.nodes n1 n2).mpr ⟨first, second, apart, meeting⟩
      rw [Run.mergenodes, State.mergenodes_connected same connected]
      rfl
    · exact State.consistent_merged first second same meeting alone kept.consistent
    · obtain ⟨pieces, gone, account⟩ := kept.account
      obtain ⟨merged, account⟩ := account.merge first second same meeting
      exact ⟨merged, gone, account⟩
    · exact Function.update_self ..

/-- The only node that a node is connected to is merged with it. -/
theorem Kept.mergeWithOther (kept : Kept source count short run)
    (live : run.now.state.LiveNode node) (single : run.now.state.Nconnections node = 1) :
    ∃ next, run.mergeWithOther node = .ok next ∧ Kept source count short next ∧
      (next.now.state = run.now.state ∨ next.now.state.edgelist (edgeOf node) = []) := by
  rw [kept.consistent.Nconnections_eq_length live, Nat.cast_eq_one, List.length_eq_one_iff]
    at single
  obtain ⟨other, found⟩ := single
  have member : ∀ q, q = other ↔ run.now.state.LiveNode q ∧ node ≠ q ∧
      run.now.state.node node = run.now.state.node q := by
    intro q
    rw [← kept.consistent.mem_find live, found, List.mem_singleton]
  obtain ⟨otherLive, apart, meeting⟩ := (member other).mp rfl
  rw [Run.mergeWithOther, found]
  refine kept.mergenodes otherLive live apart.symm meeting.symm fun q alive same => ?_
  by_cases mine : q = node
  · exact .inr mine
  · exact .inl ((member q).mpr ⟨alive, Ne.symm mine, meeting.trans same.symm⟩)

end Operations

section Passes

variable {source : Nat → List Point} {count : Nat} {short : List Point → Prop} {run : Run Point}
  {edge n : Nat}

theorem startnode_connectioninfo {state : State Point} (filled : state.edgelist n ≠ []) :
    (state.connectioninfo n).startnode = startnode n ∧
      (state.connectioninfo n).endnode = endnode n ∧
      (state.connectioninfo n).sconns = state.Nconnections (startnode n) ∧
      (state.connectioninfo n).econns = state.Nconnections (endnode n) := by
  rw [State.connectioninfo, if_neg filled]
  dsimp only
  split
  · exact ⟨rfl, rfl, rfl, rfl⟩
  · split <;> exact ⟨rfl, rfl, rfl, rfl⟩

/-- Both ends are merged where they are connected to just one other end. -/
theorem Kept.mergeEnds (kept : Kept source count short run) (inside : 1 ≤ n ∧ n ≤ count) :
    ∃ next, run.mergeEnds n = .ok next ∧ Kept source count short next := by
  rw [Run.mergeEnds]
  split
  · rename_i visited
    obtain ⟨start, last, sconns, econns⟩ := startnode_connectioninfo visited.2
    have bounds : 1 ≤ n ∧ n ≤ run.now.state.Nedges := by
      obtain ⟨_, _, account⟩ := kept.account
      rw [account.Nedges]
      exact inside
    have live : run.now.state.LiveEdge n := ⟨bounds, visited.2⟩
    have startLive : run.now.state.LiveNode (startnode n) := by
      rw [State.LiveNode, edgeOf_startnode inside.1]
      exact live
    have endLive : run.now.state.LiveNode (endnode n) := by
      rw [State.LiveNode, edgeOf_endnode]
      exact live
    obtain ⟨middle, merged, middleKept, outcome⟩ : ∃ middle,
        (if (run.now.state.connectioninfo n).sconns = 1 then
          run.mergeWithOther (run.now.state.connectioninfo n).startnode else .ok run) = .ok middle ∧
        Kept source count short middle ∧
        (middle.now.state = run.now.state ∨ middle.now.state.edgelist n = []) := by
      rw [start, sconns]
      split
      · rename_i single
        have result := kept.mergeWithOther startLive single
        rw [edgeOf_startnode inside.1] at result
        exact result
      · exact ⟨run, rfl, kept, .inl rfl⟩
    dsimp only
    rw [merged]
    dsimp only [Except.bind]
    rw [last, econns]
    split
    · rename_i single
      have same := outcome.resolve_right single.1
      rw [← same] at single endLive
      obtain ⟨next, done, nextKept, -⟩ := middleKept.mergeWithOther endLive single.2
      exact ⟨next, done, nextKept⟩
    · exact ⟨middle, rfl, middleKept⟩
  · exact ⟨run, rfl, kept⟩

/-- A spur is connected at one of its ends only. -/
structure Spur (state : State Point) (edge node : Nat) : Prop where
  own : edgeOf node = edge
  live : state.LiveNode node
  loose : ∀ q, state.LiveNode q → q ≠ opposite node → state.node (opposite node) ≠ state.node q

theorem not_connected {state : State Point} (consistent : state.Consistent)
    {p : Nat} (live : state.LiveNode p) (none : state.Nconnections p = 0) {q : Nat}
    (other : state.LiveNode q) (apart : q ≠ p) : state.node p ≠ state.node q := by
  intro same
  rw [consistent.Nconnections_eq_length live, Nat.cast_eq_zero, List.length_eq_zero_iff] at none
  have member := (consistent.mem_find live).mpr ⟨other, apart.symm, same⟩
  rw [none] at member
  exact List.not_mem_nil member

/-- A list with a degree as a spur is one, and the degree counts the connections of its end. -/
theorem spur_of_spurdegree {state : State Point} (consistent : state.Consistent)
    (live : state.LiveEdge edge) (degree : (state.connectioninfo edge).spurdegree ≠ 0) :
    Spur state edge (state.connectioninfo edge).spurnode ∧
      state.Nconnections (state.connectioninfo edge).spurnode =
        (state.connectioninfo edge).spurdegree := by
  have startOwn := edgeOf_startnode live.1.1
  have endOwn : edgeOf (endnode edge) = edge := edgeOf_endnode
  have startLive : state.LiveNode (startnode edge) := by
    rw [State.LiveNode, startOwn]
    exact live
  have endLive : state.LiveNode (endnode edge) := by
    rw [State.LiveNode, endOwn]
    exact live
  have across : opposite (startnode edge) = endnode edge ∧
      opposite (endnode edge) = startnode edge := by
    have positive := live.1.1
    rw [opposite, opposite, startnode, endnode]
    split <;> split <;> omega
  rw [State.connectioninfo, if_neg live.2] at *
  dsimp only at *
  by_cases last : state.Nconnections (startnode edge) = 0 ∧
      1 ≤ state.Nconnections (endnode edge)
  · rw [if_pos last]
    refine ⟨⟨endOwn, endLive, ?_⟩, rfl⟩
    rw [across.2]
    exact fun q alive apart => not_connected consistent startLive last.1 alive apart
  · rw [if_neg last] at *
    by_cases start : 1 ≤ state.Nconnections (startnode edge) ∧
        state.Nconnections (endnode edge) = 0
    · rw [if_pos start]
      refine ⟨⟨startOwn, startLive, ?_⟩, rfl⟩
      rw [across.1]
      exact fun q alive apart => not_connected consistent endLive start.2 alive apart
    · rw [if_neg start] at degree
      exact absurd rfl degree

/-- The ends at one point have equally many connections. -/
theorem Nconnections_congr {state : State Point} (consistent : state.Consistent) {p q : Nat}
    (live : state.LiveNode p) (other : state.LiveNode q) (same : state.node p = state.node q) :
    state.Nconnections p = state.Nconnections q := by
  have fresh : ∀ {node}, state.LiveNode node →
      (node :: AdjacencyMatrix.find (2 * state.Nedges) (state.A node)).Nodup := by
    intro node alive
    refine List.nodup_cons.mpr ⟨fun member => ?_, AdjacencyMatrix.nodup_find⟩
    exact ((consistent.mem_find alive).mp member).2.1 rfl
  have equal : (p :: AdjacencyMatrix.find (2 * state.Nedges) (state.A p)).Perm
      (q :: AdjacencyMatrix.find (2 * state.Nedges) (state.A q)) := by
    refine (List.perm_ext_iff_of_nodup (fresh live) (fresh other)).mpr fun node => ?_
    rw [List.mem_cons, List.mem_cons, consistent.mem_find live, consistent.mem_find other, same]
    by_cases first : node = p <;> by_cases second : node = q
    · exact iff_of_true (.inl first) (.inl second)
    · subst first
      exact iff_of_true (.inl rfl) (.inr ⟨live, Ne.symm second, same.symm⟩)
    · subst second
      exact iff_of_true (.inr ⟨other, Ne.symm first, rfl⟩) (.inl rfl)
    · simp only [first, second, Ne.symm first, Ne.symm second, ne_eq, not_false_eq_true, false_or,
        true_and]
  have lengths := equal.length_eq
  rw [List.length_cons, List.length_cons] at lengths
  rw [consistent.Nconnections_eq_length live, consistent.Nconnections_eq_length other]
  omega

/-- A list that is connected to a spur meets it at the spur's end. -/
theorem Spur.meets {state : State Point} (consistent : state.Consistent) {node : Nat}
    (spur : Spur state n node) (linked : state.B n edge = true) :
    state.LiveEdge edge ∧ ∃ q, edgeOf q = edge ∧ q ≠ node ∧ state.node node = state.node q := by
  have positive : 1 ≤ edgeOf node := spur.live.1.1
  have ends : ∀ p q, edgeOf p = n → p ≠ q → state.LiveNode q → state.node p = state.node q →
      p = node := by
    intro p q own apart alive same
    rcases (eq_or_opposite positive).mp (own.trans spur.own.symm) with rfl | rfl
    · rfl
    · exact absurd same (spur.loose q alive apart.symm)
  by_cases itself : edge = n
  · subst itself
    obtain ⟨live, closed⟩ := consistent.loops edge linked
    have startOwn := edgeOf_startnode live.1.1
    have endOwn : edgeOf (endnode edge) = edge := edgeOf_endnode
    have apart := startnode_ne_endnode live.1.1
    have first := ends _ _ startOwn apart (by rw [State.LiveNode, endOwn]; exact live) closed
    have second := ends _ _ endOwn apart.symm (by rw [State.LiveNode, startOwn]; exact live)
      closed.symm
    exact absurd (first.trans second.symm) apart
  · obtain ⟨live, other, p, q, own, theirs, same⟩ :=
      (consistent.edges n edge (Ne.symm itself)).mp linked
    have apart : p ≠ q := by
      rintro rfl
      exact itself (theirs.symm.trans own)
    have alive : state.LiveNode q := by
      rw [State.LiveNode, theirs]
      exact other
    have mine := ends p q own apart alive same
    subst mine
    exact ⟨other, q, theirs, apart.symm, same⟩

/-- When a spur that is connected to two ends is removed, the two ends are merged. -/
theorem Kept.removeAndMerge (kept : Kept source count short run) {node : Nat}
    (spur : Spur run.now.state edge node) (two : run.now.state.Nconnections node = 2)
    (isShort : short (run.now.state.edgelist edge)) :
    ∃ first second next, AdjacencyMatrix.find (2 * run.now.state.Nedges) (run.now.state.A node) =
        [first, second] ∧ (run.removeedge edge).mergenodes first second = .ok next ∧
      Kept source count short next := by
  have consistent := kept.consistent
  have distinct : (AdjacencyMatrix.find (2 * run.now.state.Nedges) (run.now.state.A node)).Nodup :=
    AdjacencyMatrix.nodup_find
  rw [consistent.Nconnections_eq_length spur.live] at two
  obtain ⟨first, second, found⟩ := List.length_eq_two.mp (Nat.cast_inj.mp two)
  have member : ∀ q, q = first ∨ q = second ↔ run.now.state.LiveNode q ∧ node ≠ q ∧
      run.now.state.node node = run.now.state.node q := by
    intro q
    rw [← consistent.mem_find spur.live, found]
    simp
  rw [found] at distinct
  have apart : first ≠ second := by
    simpa using distinct
  obtain ⟨firstLive, firstApart, firstSame⟩ := (member first).mp (.inl rfl)
  obtain ⟨secondLive, secondApart, secondSame⟩ := (member second).mp (.inr rfl)
  have live : run.now.state.LiveEdge edge := by
    have alive := spur.live
    rwa [State.LiveNode, spur.own] at alive
  -- The nodes at the point of the spur are no ends of the spur itself.
  have away : ∀ q, node ≠ q → run.now.state.node node = run.now.state.node q → edgeOf q ≠ edge := by
    intro q other same own
    rcases (eq_or_opposite spur.live.1.1).mp (own.trans spur.own.symm) with rfl | rfl
    · exact other rfl
    · exact spur.loose node spur.live other same.symm
  have removed := kept.removeedge live isShort
  have point : ∀ q, edgeOf q ≠ edge →
      (run.removeedge edge).now.state.node q = run.now.state.node q := fun q =>
    State.node_removeedge
  have alive : ∀ q, (run.removeedge edge).now.state.LiveNode q ↔
      run.now.state.LiveNode q ∧ edgeOf q ≠ edge := fun q => State.liveEdge_removeedge
  have firstAway := away first firstApart firstSame
  have secondAway := away second secondApart secondSame
  obtain ⟨next, merged, nextKept, -⟩ := removed.mergenodes
    ((alive first).mpr ⟨firstLive, firstAway⟩) ((alive second).mpr ⟨secondLive, secondAway⟩) apart
    (by rw [point first firstAway, point second secondAway, ← firstSame, secondSame])
    (by
      intro q qLive same
      obtain ⟨qLive, qAway⟩ := (alive q).mp qLive
      rw [point q qAway, point first firstAway, ← firstSame] at same
      refine (member q).mpr ⟨qLive, ?_, same.symm⟩
      rintro rfl
      exact qAway spur.own)
  exact ⟨first, second, next, found, merged, nextKept⟩

variable {Length : Type} [LinearOrder Length] [Add Length] [Zero Length]
  {distance : Point → Point → Length} {minlength : Length}

theorem shortest_mem {state : State Point} {others : List Nat} :
    shortest distance state n others = n ∨ shortest distance state n others ∈ others := by
  induction others generalizing n with
  | nil => exact .inl rfl
  | cons other others ih =>
      rw [shortest, List.foldl_cons]
      split
      · exact .inr (List.mem_cons.mpr ih)
      · exact ih.imp_right (List.mem_cons_of_mem other)

theorem shortest_le {state : State Point} {others : List Nat} :
    edgelistlength distance (state.edgelist (shortest distance state n others)) ≤
      edgelistlength distance (state.edgelist n) := by
  induction others generalizing n with
  | nil => exact le_rfl
  | cons other others ih =>
      rw [shortest, List.foldl_cons]
      split
      · rename_i shorter
        exact ih.trans shorter.le
      · exact ih

theorem Kept.liveEdge (kept : Kept source count short run) (inside : 1 ≤ n ∧ n ≤ count)
    (filled : run.now.state.edgelist n ≠ []) : run.now.state.LiveEdge n := by
  obtain ⟨_, _, account⟩ := kept.account
  refine ⟨?_, filled⟩
  rw [account.Nedges]
  exact inside

/-- The lists that may be removed. -/
abbrev Short (distance : Point → Point → Length) (minlength : Length) (points : List Point) : Prop :=
  edgelistlength distance points < minlength

/-- The shortest spur at the end of a spur with two connections has two connections itself. -/
theorem shortest_spur {state : State Point} (consistent : state.Consistent)
    (live : state.LiveEdge n) (two : (state.connectioninfo n).spurdegree = 2) {chosen : Nat}
    (choice : shortest distance state n ((AdjacencyMatrix.find state.Nedges (state.B n)).filter
      fun edge => (state.connectioninfo edge).spurdegree ≠ 0) = chosen) :
    Spur state chosen (state.connectioninfo chosen).spurnode ∧
      state.Nconnections (state.connectioninfo chosen).spurnode = 2 := by
  have degree : (state.connectioninfo n).spurdegree ≠ 0 := by
    rw [two]
    decide
  obtain ⟨spur, connections⟩ := spur_of_spurdegree consistent live degree
  rw [two] at connections
  have member := @shortest_mem _ n _ _ _ _ distance state
    ((AdjacencyMatrix.find state.Nedges (state.B n)).filter
      fun edge => (state.connectioninfo edge).spurdegree ≠ 0)
  rw [choice] at member
  rcases member with rfl | linked
  · exact ⟨spur, connections⟩
  · rw [List.mem_filter, AdjacencyMatrix.mem_find, decide_eq_true_eq] at linked
    obtain ⟨other, q, own, apart, same⟩ := spur.meets consistent linked.1.2
    obtain ⟨otherSpur, -⟩ := spur_of_spurdegree consistent other linked.2
    refine ⟨otherSpur, ?_⟩
    rcases (eq_or_opposite otherSpur.live.1.1).mp (own.trans otherSpur.own.symm) with rfl | rfl
    · rw [← Nconnections_congr consistent spur.live otherSpur.live same, connections]
    · exact absurd same.symm (otherSpur.loose _ spur.live apart.symm)

/-- A short list that is isolated or a spur is removed, or a shorter spur at its end. -/
theorem Kept.removeSpur (kept : Kept source count (Short distance minlength) run)
    (inside : 1 ≤ n ∧ n ≤ count) : ∃ next, run.removeSpur distance minlength n = .ok next ∧
      Kept source count (Short distance minlength) next := by
  rw [Run.removeSpur]
  dsimp only
  split
  · rename_i visited
    have live := kept.liveEdge inside visited.1
    have removed := kept.removeedge live visited.2
    split
    · exact ⟨_, rfl, removed⟩
    · split
      · rename_i two
        split
        · exact ⟨_, rfl, removed⟩
        · generalize choice : shortest distance run.now.state n _ = edge2delete
          have isShort : Short distance minlength (run.now.state.edgelist edge2delete) := by
            rw [← choice]
            exact shortest_le.trans_lt visited.2
          obtain ⟨spur, connections⟩ := shortest_spur kept.consistent live two choice
          obtain ⟨first, second, next, found, merged, nextKept⟩ :=
            kept.removeAndMerge spur connections isShort
          rw [found]
          exact ⟨next, merged, nextKept⟩
      · split
        · exact ⟨_, rfl, removed⟩
        · exact ⟨run, rfl, kept⟩
  · exact ⟨run, rfl, kept⟩

theorem Kept.removeIsolated (kept : Kept source count (Short distance minlength) run)
    (inside : 1 ≤ n ∧ n ≤ count) :
    Kept source count (Short distance minlength) (run.removeIsolated distance minlength n) := by
  rw [Run.removeIsolated]
  split
  · rename_i visited
    split
    · exact kept.removeedge (kept.liveEdge inside visited.1) visited.2
    · exact kept
  · exact kept

theorem Kept.foldlM {pass : Run Point → Nat → Except String (Run Point)} {edges : List Nat}
    (step : ∀ run n, Kept source count short run → n ∈ edges →
      ∃ next, pass run n = .ok next ∧ Kept source count short next)
    (kept : Kept source count short run) :
    ∃ final, edges.foldlM pass run = .ok final ∧ Kept source count short final := by
  induction edges generalizing run with
  | nil => exact ⟨run, rfl, kept⟩
  | cons n edges ih =>
      obtain ⟨next, passed, nextKept⟩ := step run n kept List.mem_cons_self
      obtain ⟨final, done, finalKept⟩ := ih (fun run m kept member =>
        step run m kept (List.mem_cons_of_mem n member)) nextKept
      refine ⟨final, ?_, finalKept⟩
      rw [List.foldlM_cons, passed]
      exact done

end Passes

section Whole

variable [DecidableEq Point] {edgelist : List (List Point)}

/-- The run begins with the matrices of the given lists. -/
theorem kept_construction (nonempty : ∀ points ∈ edgelist, points ≠ [])
    (short : List Point → Prop) :
    Kept (State.input edgelist) edgelist.length short ⟨⟨State.construction edgelist, []⟩, []⟩ where
  consistent := State.consistent_construction nonempty
  account := by
    refine ⟨fun edge => [⟨edge, false⟩], [], State.construction_Nedges, ?_, rfl,
      fun line member => absurd member List.not_mem_nil, ?_⟩
    · intro edge positive small
      refine ⟨?_, joined_single (State.input_ne_nil nonempty positive small)⟩
      rw [State.construction_edgelist]
      exact (List.append_nil _).symm
    · rw [List.flatMap_nil, List.append_nil]
      refine List.Perm.of_eq ?_
      exact (List.flatMap_singleton' _)
  removed points member := absurd member List.not_mem_nil
  earlier moment member := absurd member List.not_mem_nil

variable {Length : Type} [LinearOrder Length] [Add Length] [Zero Length]
  (distance : Point → Point → Length) (minlength : Length)

/-- The clean-up comes to its end without an error. After the construction and after every operation
the matrices are right for the lists that are left, and every given list is in one of the lines that
are left or in one that was removed because it was short; none was with no length to reach. -/
theorem cleanedgelist_consistent (nonempty : ∀ points ∈ edgelist, points ≠ []) :
    ∃ run, cleanedgelist distance minlength edgelist = .ok run ∧
      (∀ moment ∈ run.moments, moment.state.Consistent ∧
        Accounted (State.input edgelist) edgelist.length moment) ∧
      (∀ points ∈ run.now.removed, edgelistlength distance points < minlength) ∧
      (minlength ≤ 0 → run.now.removed = []) := by
  have edges : ∀ n ∈ List.range' 1 edgelist.length, 1 ≤ n ∧ n ≤ edgelist.length := by
    intro n member
    rw [List.mem_range'_1] at member
    omega
  obtain ⟨merged, done, kept⟩ := (kept_construction nonempty fun _ => False).foldlM
    fun run n kept member => kept.mergeEnds (edges n member)
  have whole : ∀ points, points ∉ merged.now.removed := fun points member =>
    kept.removed points member
  rw [cleanedgelist, done]
  dsimp only [Except.bind]
  by_cases reached : 0 < minlength
  · rw [if_pos reached]
    have long : Kept _ _ (Short distance minlength) merged := kept.mono fun _ => False.elim
    obtain ⟨cleaned, passed, cleanedKept⟩ := long.foldlM
      fun run n kept member => kept.removeSpur (edges n member)
    rw [passed]
    have last : ∀ ns : List Nat, (∀ n ∈ ns, 1 ≤ n ∧ n ≤ edgelist.length) → ∀ run,
        Kept (State.input edgelist) edgelist.length (Short distance minlength) run →
        Kept (State.input edgelist) edgelist.length (Short distance minlength)
          (ns.foldl (removeIsolated distance minlength) run) := by
      intro ns inside
      induction ns with
      | nil => exact fun run kept => kept
      | cons n ns ih =>
          exact fun run kept => ih (fun m member => inside m (List.mem_cons_of_mem n member)) _
            (kept.removeIsolated (inside n List.mem_cons_self))
    have finished := last _ edges cleaned cleanedKept
    exact ⟨_, rfl, finished.moments, finished.removed, fun least => absurd reached least.not_gt⟩
  · rw [if_neg reached]
    exact ⟨merged, rfl, kept.moments, fun points member => absurd member (whole points),
      fun _ => List.eq_nil_iff_forall_not_mem.mpr whole⟩

end Whole

/-- The distance of two points of one row. -/
def alongRow (first second : Nat × Nat) : Nat :=
  (first.2 - second.2) + (second.2 - first.2)

/-- Two junctions, each with a short spur. -/
def branches : List (List (Nat × Nat)) :=
  [[(1, 1), (1, 30)], [(1, 30), (1, 32)], [(1, 45), (1, 30)], [(1, 45), (1, 46)], [(1, 90), (1, 45)]]

theorem branches_consistent : ∃ run, cleanedgelist alongRow 3 branches = .ok run ∧
    (∀ moment ∈ run.moments, moment.state.Consistent ∧
      Accounted (State.input branches) branches.length moment) ∧
    (∀ points ∈ run.now.removed, edgelistlength alongRow points < 3) ∧
    (3 ≤ 0 → run.now.removed = []) :=
  cleanedgelist_consistent alongRow 3 (by decide)

example : (cleanedgelist alongRow 3 branches).toOption.map nedgelist =
    some [[(1, 1), (1, 30), (1, 30), (1, 45), (1, 45), (1, 90)]] := by
  decide +kernel

end Run

end CodeCollect.EdgeLinking
