import CodeCollect.Library.SpanningTree
import CodeCollect.OpenPano.CameraEstimator

namespace CodeCollect.OpenPano

open CodeCollect.Library

namespace CameraEstimator

variable {n : Nat} {K : Type} [LinearOrder K]

section Queue

variable (queue : PriorityQueue (Edge n K) K Edge.weight)

section Enqueue

variable [Zero K] (confidence : Fin n → Fin n → K)

/-- The edges from an image to the unvisited images it is connected with. -/
theorem mem_enqueue_edges_from (vst : Fin n → Bool) (fromImg : Fin n) (q : queue.State)
    (e : Edge n K) :
    e ∈ queue.contents (enqueue_edges_from queue confidence vst fromImg q) ↔
      e ∈ queue.contents q ∨ ∃ i, i ≠ fromImg ∧ vst i = false ∧ 0 < confidence fromImg i ∧
        e = ⟨fromImg, i, confidence fromImg i⟩ := by
  have loop : ∀ (images : List (Fin n)) (q : queue.State),
      e ∈ queue.contents (images.foldl (fun q i =>
        if i ≠ fromImg ∧ vst i = false then
          if 0 < confidence fromImg i then queue.emplace q ⟨fromImg, i, confidence fromImg i⟩ else q
        else q) q) ↔
      e ∈ queue.contents q ∨ ∃ i ∈ images, i ≠ fromImg ∧ vst i = false ∧
        0 < confidence fromImg i ∧ e = ⟨fromImg, i, confidence fromImg i⟩ := by
    intro images
    induction images with
    | nil => simp
    | cons i images ih =>
        intro q
        rw [List.foldl_cons, ih]
        by_cases fresh : i ≠ fromImg ∧ vst i = false
        · by_cases positive : 0 < confidence fromImg i
          · rw [if_pos fresh, if_pos positive, queue.contents_emplace, Multiset.mem_cons]
            simp only [List.mem_cons, exists_eq_or_imp, fresh.1, fresh.2, positive, ne_eq,
              not_false_eq_true, true_and]
            tauto
          · rw [if_pos fresh, if_neg positive]
            simp [positive]
        · rw [if_neg fresh]
          simp only [List.mem_cons, exists_eq_or_imp]
          tauto
  rw [enqueue_edges_from, loop]
  simp

end Enqueue

theorem nextEdge_of_top {vst : Fin n → Bool} {q : queue.State} {best_edge : Edge n K}
    (top : queue.top q = some best_edge) :
    nextEdge queue vst q =
      if queue.size (queue.pop q) ≠ 0 ∧ vst best_edge.v2 then nextEdge queue vst (queue.pop q)
      else some (best_edge, queue.pop q) := by
  rw [nextEdge]
  split
  · rename_i empty
    rw [top] at empty
    cases empty
  · rename_i other same
    rw [top] at same
    cases same
    rfl

/-- The best edge is the greatest of those that lead to unvisited images. -/
structure Best (vst : Fin n → Bool) (q : queue.State) (best_edge : Edge n K)
    (rest : queue.State) : Prop where
  member : best_edge ∈ queue.contents q
  subset : ∀ e ∈ queue.contents rest, e ∈ queue.contents q
  skipped : ∀ e ∈ queue.contents q, e ∈ queue.contents rest ∨ e = best_edge ∨ vst e.v2 = true
  greatest : ∀ e ∈ queue.contents rest, e.weight ≤ best_edge.weight
  exhausted : vst best_edge.v2 = true → queue.contents rest = 0

theorem nextEdge_spec (vst : Fin n → Bool) (q : queue.State) (filled : queue.contents q ≠ 0) :
    ∃ best_edge rest, nextEdge queue vst q = some (best_edge, rest) ∧
      Best queue vst q best_edge rest := by
  induction q using nextEdge.induct queue vst with
  | case1 q empty => exact absurd (queue.top_eq_none empty) filled
  | case2 q best_edge top again ih =>
      have contents := queue.contents_of_top q best_edge top
      have more : queue.contents (queue.pop q) ≠ 0 := fun empty =>
        again.1 (queue.size_eq_zero.mpr empty)
      obtain ⟨next, rest, taken, best⟩ := ih more
      refine ⟨next, rest, ?_, ?_⟩
      · rw [nextEdge_of_top queue top, if_pos again]
        exact taken
      · refine ⟨?_, ?_, ?_, best.greatest, best.exhausted⟩
        · rw [contents]
          exact Multiset.mem_cons_of_mem best.member
        · intro e member
          rw [contents]
          exact Multiset.mem_cons_of_mem (best.subset e member)
        · intro e member
          rw [contents] at member
          rcases Multiset.mem_cons.mp member with rfl | later
          · exact Or.inr (Or.inr again.2)
          · exact best.skipped e later
  | case3 q best_edge top last =>
      have contents := queue.contents_of_top q best_edge top
      refine ⟨best_edge, queue.pop q, ?_, ?_⟩
      · rw [nextEdge_of_top queue top, if_neg last]
      · refine ⟨?_, ?_, ?_, ?_, ?_⟩
        · rw [contents]
          exact Multiset.mem_cons_self _ _
        · intro e member
          rw [contents]
          exact Multiset.mem_cons_of_mem member
        · intro e member
          rw [contents] at member
          rcases Multiset.mem_cons.mp member with rfl | later
          · exact Or.inr (Or.inl rfl)
          · exact Or.inl later
        · intro e member
          apply queue.key_le_of_top q best_edge top
          rw [contents]
          exact Multiset.mem_cons_of_mem member
        · intro visited
          by_contra more
          exact last ⟨fun empty => more (queue.size_eq_zero.mp empty), visited⟩

end Queue

section Growth

/-- The images that were visited along the edges. -/
def reached (node : Fin n) (edges : List (Fin n × Fin n)) : List (Fin n) :=
  node :: edges.map Prod.snd

theorem reached_append (node now next : Fin n) (edges : List (Fin n × Fin n)) :
    reached node (edges ++ [(now, next)]) = reached node edges ++ [next] := by
  simp [reached]

/-- Each edge leads from a visited image to one that was not visited before. -/
def Grows [Zero K] (confidence : Fin n → Fin n → K) (node : Fin n) (edges : List (Fin n × Fin n)) :
    Prop :=
  ∀ before now next after, edges = before ++ (now, next) :: after →
    now ∈ reached node before ∧ next ∉ reached node before ∧ 0 < confidence now next

namespace Grows

variable [Zero K] {confidence : Fin n → Fin n → K} {node : Fin n} {edges : List (Fin n × Fin n)}

theorem nil : Grows confidence node [] := by
  intro before now next after split
  simp at split

theorem snoc (grows : Grows confidence node edges) {now next : Fin n}
    (nowReached : now ∈ reached node edges) (nextFresh : next ∉ reached node edges)
    (positive : 0 < confidence now next) : Grows confidence node (edges ++ [(now, next)]) := by
  intro before first second after split
  rcases List.eq_nil_or_concat after with rfl | ⟨others, last, rfl⟩
  · obtain ⟨rfl, same⟩ := List.append_inj' split rfl
    cases same
    exact ⟨nowReached, nextFresh, positive⟩
  · rw [List.concat_eq_append, ← List.cons_append, ← List.append_assoc] at split
    exact grows before first second others (List.append_inj' split rfl).1

theorem init {now next : Fin n} (grows : Grows confidence node (edges ++ [(now, next)])) :
    Grows confidence node edges := by
  intro before first second after split
  refine grows before first second (after ++ [(now, next)]) ?_
  rw [split, List.append_assoc, List.cons_append]

theorem last {now next : Fin n} (grows : Grows confidence node (edges ++ [(now, next)])) :
    now ∈ reached node edges ∧ next ∉ reached node edges ∧ 0 < confidence now next :=
  grows edges now next [] rfl

/-- No image is visited twice. -/
theorem nodup (grows : Grows confidence node edges) : (reached node edges).Nodup := by
  induction edges using List.reverseRecOn with
  | nil => exact List.nodup_singleton node
  | append_singleton edges edge ih =>
      obtain ⟨now, next⟩ := edge
      rw [reached_append]
      refine (ih grows.init).append (List.nodup_singleton next) ?_
      rw [List.disjoint_singleton]
      exact grows.last.2.1

end Grows

end Growth

section Tree

variable [AddCommGroup K]

/-- The weight of an edge in either direction. -/
def weight (confidence : Fin n → Fin n → K) (symmetric : ∀ i j, confidence i j = confidence j i) :
    Sym2 (Fin n) → K := Sym2.lift ⟨confidence, symmetric⟩

omit [LinearOrder K] [AddCommGroup K] in
theorem weight_mk (confidence : Fin n → Fin n → K)
    (symmetric : ∀ i j, confidence i j = confidence j i) (i j : Fin n) :
    weight confidence symmetric s(i, j) = confidence i j := rfl

/-- The edges without their directions. -/
def chosen (edges : List (Fin n × Fin n)) : Finset (Sym2 (Fin n)) :=
  (edges.map fun edge => s(edge.1, edge.2)).toFinset

theorem chosen_append (edges : List (Fin n × Fin n)) (now next : Fin n) :
    chosen (edges ++ [(now, next)]) = insert s(now, next) (chosen edges) := by
  ext e
  simp [chosen]

variable {confidence : Fin n → Fin n → K} {node : Fin n} {edges : List (Fin n × Fin n)}

theorem chosen_within (grows : Grows confidence node edges) :
    ∀ e ∈ chosen edges, ∀ x ∈ e, x ∈ reached node edges := by
  induction edges using List.reverseRecOn with
  | nil => simp [chosen]
  | append_singleton edges edge ih =>
      obtain ⟨now, next⟩ := edge
      intro e member x end_
      rw [reached_append]
      rw [chosen_append] at member
      rcases Finset.mem_insert.mp member with rfl | earlier
      · rcases Sym2.mem_iff.mp end_ with rfl | rfl
        · exact List.mem_append_left _ grows.last.1
        · exact List.mem_append_right _ (List.mem_singleton_self _)
      · exact List.mem_append_left _ (ih grows.init e earlier x end_)

theorem new_not_mem_chosen {now next : Fin n}
    (grows : Grows confidence node (edges ++ [(now, next)])) : s(now, next) ∉ chosen edges := by
  intro member
  exact grows.last.2.1 (chosen_within grows.init _ member next (Sym2.mem_mk_right now next))

theorem card_chosen (grows : Grows confidence node edges) : (chosen edges).card = edges.length := by
  induction edges using List.reverseRecOn with
  | nil => rfl
  | append_singleton edges edge ih =>
      obtain ⟨now, next⟩ := edge
      rw [chosen_append, Finset.card_insert_of_notMem (new_not_mem_chosen grows), ih grows.init,
        List.length_append, List.length_singleton]

theorem sum_chosen (symmetric : ∀ i j, confidence i j = confidence j i)
    (grows : Grows confidence node edges) :
    ∑ e ∈ chosen edges, weight confidence symmetric e =
      (edges.map fun edge => confidence edge.1 edge.2).sum := by
  induction edges using List.reverseRecOn with
  | nil => rfl
  | append_singleton edges edge ih =>
      obtain ⟨now, next⟩ := edge
      rw [chosen_append, Finset.sum_insert (new_not_mem_chosen grows), ih grows.init, weight_mk,
        List.map_append, List.sum_append, List.map_singleton, List.sum_singleton, add_comm]

end Tree

section Loop

variable [AddCommGroup K] [IsOrderedAddMonoid K] {queue : PriorityQueue (Edge n K) K Edge.weight}
  {confidence : Fin n → Fin n → K} {symmetric : ∀ i j, confidence i j = confidence j i}
  {node : Fin n}

/-- The queue has all edges that leave the visited images, and the edges taken so far can be
completed to a best tree. -/
structure Growing (symmetric : ∀ i j, confidence i j = confidence j i) (node : Fin n)
    (edges : List (Fin n × Fin n)) (state : Traversal queue) : Prop where
  calls : state.calls = .initNode node :: edges.map fun edge => .edge edge.1 edge.2
  grows : Grows confidence node edges
  vst : ∀ i, state.vst i = true ↔ i ∈ reached node edges
  cnt : state.cnt = edges.length + 1
  queued : ∀ e ∈ queue.contents state.q,
    e.weight = confidence e.v1 e.v2 ∧ 0 < e.weight ∧ e.v1 ∈ reached node edges
  crossing : ∀ a ∈ reached node edges, ∀ b ∉ reached node edges, 0 < confidence a b →
    ⟨a, b, confidence a b⟩ ∈ queue.contents state.q
  extensible : Extensible (weight confidence symmetric) (chosen edges)

namespace Growing

variable {edges : List (Fin n × Fin n)} {state : Traversal queue}

omit [IsOrderedAddMonoid K] in
theorem fresh_iff (growing : Growing symmetric node edges state) (i : Fin n) :
    state.vst i = false ↔ i ∉ reached node edges := by
  rw [← growing.vst i, Bool.not_eq_true]

omit [IsOrderedAddMonoid K] in
theorem start (node : Fin n) : Growing symmetric node [] (start queue confidence node) where
  calls := rfl
  grows := Grows.nil
  vst i := by
    by_cases same : i = node <;> simp [CameraEstimator.start, reached, same]
  cnt := rfl
  queued e member := by
    obtain queued | ⟨i, _, _, positive, rfl⟩ := (mem_enqueue_edges_from ..).mp member
    · rw [queue.contents_empty] at queued
      exact absurd queued (Multiset.notMem_zero e)
    · exact ⟨rfl, positive, List.mem_cons_self⟩
  crossing a aReached b bFresh positive := by
    obtain rfl := List.mem_singleton.mp aReached
    have differ : b ≠ a := fun same => bFresh (same ▸ aReached)
    refine (mem_enqueue_edges_from ..).mpr (Or.inr ⟨b, differ, ?_, positive, rfl⟩)
    simp [differ]
  extensible := Extensible.empty

omit [IsOrderedAddMonoid K] in
/-- The best edge is a heaviest one of all edges that leave the visited images. -/
theorem heaviest (growing : Growing symmetric node edges state) {best_edge : Edge n K}
    {rest : queue.State} (best : Best queue state.vst state.q best_edge rest) :
    ∀ a ∈ reached node edges, ∀ b ∉ reached node edges,
      confidence a b ≤ confidence best_edge.v1 best_edge.v2 := by
  intro a aReached b bFresh
  obtain ⟨same, positive, _⟩ := growing.queued best_edge best.member
  rw [← same]
  rcases lt_or_ge 0 (confidence a b) with connected | unconnected
  · obtain later | rfl | visited :=
      best.skipped _ (growing.crossing a aReached b bFresh connected)
    · exact best.greatest _ later
    · exact le_rfl
    · exact absurd ((growing.vst b).mp visited) bFresh
  · exact unconnected.trans positive.le

/-- One pass of the loop takes a best edge to an unvisited image. -/
theorem step (growing : Growing symmetric node edges state) {best_edge : Edge n K}
    {rest : queue.State} (best : Best queue state.vst state.q best_edge rest)
    (fresh : state.vst best_edge.v2 = false) :
    Growing symmetric node (edges ++ [(best_edge.v1, best_edge.v2)])
      ⟨enqueue_edges_from queue confidence (Function.update state.vst best_edge.v2 true)
          best_edge.v2 rest, Function.update state.vst best_edge.v2 true, state.cnt + 1,
        state.calls ++ [.edge best_edge.v1 best_edge.v2]⟩ := by
  obtain ⟨same, positive, fromReached⟩ := growing.queued best_edge best.member
  have unvisited := (growing.fresh_iff _).mp fresh
  refine
    { calls := by simp [growing.calls]
      grows := growing.grows.snoc fromReached unvisited (same ▸ positive)
      vst := ?_
      cnt := by simp [growing.cnt]
      queued := ?_
      crossing := ?_
      extensible := ?_ }
  · intro i
    rw [reached_append, List.mem_append, List.mem_singleton, ← growing.vst]
    by_cases equal : i = best_edge.v2 <;> simp [equal]
  · intro e member
    rw [reached_append]
    obtain earlier | ⟨i, _, _, above, rfl⟩ := (mem_enqueue_edges_from ..).mp member
    · obtain ⟨meant, above, known⟩ := growing.queued e (best.subset e earlier)
      exact ⟨meant, above, List.mem_append_left _ known⟩
    · exact ⟨rfl, above, List.mem_append_right _ (List.mem_singleton_self _)⟩
  · intro a aReached b bFresh above
    rw [reached_append, List.mem_append, List.mem_singleton] at aReached bFresh
    rw [not_or] at bFresh
    refine (mem_enqueue_edges_from ..).mpr ?_
    by_cases new : a = best_edge.v2
    · subst new
      refine Or.inr ⟨b, bFresh.2, ?_, above, rfl⟩
      rw [Function.update_of_ne bFresh.2]
      exact (growing.fresh_iff b).mpr bFresh.1
    · have old := aReached.resolve_right new
      obtain later | taken | visited :=
        best.skipped _ (growing.crossing a old b bFresh.1 above)
      · exact Or.inl later
      · exact absurd (congrArg Edge.v2 taken) bFresh.2
      · exact absurd ((growing.vst b).mp visited) bFresh.1
  · rw [chosen_append]
    have within : ∀ e ∈ chosen edges, ∀ x ∈ e, x ∈ {x | x ∈ reached node edges} :=
      chosen_within growing.grows
    exact growing.extensible.insert_heaviest within fromReached unvisited (growing.heaviest best)

omit [IsOrderedAddMonoid K] in
/-- The queue is exhausted when the best edge leads to a visited image. -/
theorem exhaust (growing : Growing symmetric node edges state) {best_edge : Edge n K}
    {rest : queue.State} (best : Best queue state.vst state.q best_edge rest)
    (visited : state.vst best_edge.v2 = true) :
    Growing symmetric node edges { state with q := rest } where
  calls := growing.calls
  grows := growing.grows
  vst := growing.vst
  cnt := growing.cnt
  queued e member := growing.queued e (best.subset e member)
  crossing a aReached b bFresh positive := by
    obtain later | rfl | known := best.skipped _ (growing.crossing a aReached b bFresh positive)
    · exact later
    · exact absurd ((growing.vst b).mp visited) bFresh
    · exact absurd ((growing.vst b).mp known) bFresh
  extensible := growing.extensible

omit [IsOrderedAddMonoid K] in
/-- No edge leaves the visited images when the queue is empty. -/
theorem closed (growing : Growing symmetric node edges state)
    (empty : queue.contents state.q = 0) :
    ∀ a ∈ reached node edges, ∀ b ∉ reached node edges, ¬ 0 < confidence a b := by
  intro a aReached b bFresh positive
  have queued := growing.crossing a aReached b bFresh positive
  rw [empty] at queued
  exact Multiset.notMem_zero _ queued

end Growing

/-- The loop ends with an empty queue. -/
theorem grow_spec (state : Traversal queue) (edges : List (Fin n × Fin n))
    (growing : Growing symmetric node edges state) :
    ∃ more, Growing symmetric node more (grow queue confidence state) ∧
      queue.contents (grow queue confidence state).q = 0 := by
  induction state using grow.induct queue confidence generalizing edges with
  | case1 state empty =>
      rw [grow, if_pos empty]
      exact ⟨edges, growing, queue.size_eq_zero.mp empty⟩
  | case2 state filled none =>
      obtain ⟨best_edge, rest, taken, _⟩ := nextEdge_spec queue state.vst state.q fun empty =>
        filled (queue.size_eq_zero.mpr empty)
      rw [none] at taken
      cases taken
  | case3 state filled best_edge rest taken fresh vst ih =>
      obtain ⟨_, _, same, best⟩ := nextEdge_spec queue state.vst state.q fun empty =>
        filled (queue.size_eq_zero.mpr empty)
      rw [taken] at same
      cases same
      have unfolded := grow.eq_def queue confidence state
      rw [if_neg filled] at unfolded
      simp only [taken, fresh, dif_pos] at unfolded
      rw [unfolded]
      exact ih _ (growing.step best fresh)
  | case4 state filled best_edge rest taken known =>
      obtain ⟨_, _, same, best⟩ := nextEdge_spec queue state.vst state.q fun empty =>
        filled (queue.size_eq_zero.mpr empty)
      rw [taken] at same
      cases same
      have visited : state.vst best_edge.v2 = true := by simpa using known
      have unfolded := grow.eq_def queue confidence state
      rw [if_neg filled] at unfolded
      simp only [taken, visited] at unfolded
      rw [unfolded]
      exact ⟨edges, growing.exhaust best visited, best.exhausted visited⟩

end Loop

section Start

variable [Zero K] (confidence : Fin n → Fin n → K)

/-- There is a starting point unless no images are connected. -/
theorem startEdge_none (none : startEdge confidence = none) :
    ∀ i j, i < j → ¬ 0 < confidence i j := by
  have inner : ∀ (i : Fin n) (columns : List (Fin n)) (best : Option (Edge n K)),
      columns.foldl (fun best j =>
        if best.elim 0 Edge.weight < confidence i j then some ⟨i, j, confidence i j⟩ else best)
        best = Option.none → best = Option.none ∧ ∀ j ∈ columns, ¬ 0 < confidence i j := by
    intro i columns
    induction columns with
    | nil => simp
    | cons j columns ih =>
        intro best ended
        rw [List.foldl_cons] at ended
        obtain ⟨before, others⟩ := ih _ ended
        by_cases better : best.elim 0 Edge.weight < confidence i j
        · rw [if_pos better] at before
          cases before
        · rw [if_neg better] at before
          subst before
          refine ⟨rfl, fun other member => ?_⟩
          rcases List.mem_cons.mp member with rfl | later
          · exact better
          · exact others other later
  have outer : ∀ (rows : List (Fin n)) (best : Option (Edge n K)),
      rows.foldl (fun best i => ((List.finRange n).filter (i < ·)).foldl (fun best j =>
        if best.elim 0 Edge.weight < confidence i j then some ⟨i, j, confidence i j⟩ else best)
        best) best = Option.none → best = Option.none ∧
          ∀ i ∈ rows, ∀ j, i < j → ¬ 0 < confidence i j := by
    intro rows
    induction rows with
    | nil => simp
    | cons i rows ih =>
        intro best ended
        rw [List.foldl_cons] at ended
        obtain ⟨before, others⟩ := ih _ ended
        obtain ⟨start, own⟩ := inner i _ _ before
        refine ⟨start, fun other member j above => ?_⟩
        rcases List.mem_cons.mp member with rfl | later
        · exact own j (List.mem_filter.mpr ⟨List.mem_finRange j, by simpa using above⟩)
        · exact others other later j above
  intro i j above
  exact (outer _ _ none).2 i (List.mem_finRange i) j above

/-- Images are connected by positive confidences. -/
def matchGraph : SimpleGraph (Fin n) := SimpleGraph.fromRel fun i j => 0 < confidence i j

variable {confidence}

theorem matchGraph_adj (symmetric : ∀ i j, confidence i j = confidence j i) {i j : Fin n} :
    (matchGraph confidence).Adj i j ↔ i ≠ j ∧ 0 < confidence i j := by
  rw [matchGraph, SimpleGraph.fromRel_adj, symmetric j i, or_self]

theorem not_connected_of_none (two : 2 ≤ n) (symmetric : ∀ i j, confidence i j = confidence j i)
    (apart : ∀ i j, i < j → ¬ 0 < confidence i j) : ¬ (matchGraph confidence).Connected := by
  intro connected
  have : Nontrivial (Fin n) := Fin.nontrivial_iff_two_le.mpr two
  obtain ⟨j, adjacent⟩ := connected.preconnected.exists_adj_of_nontrivial ⟨0, by omega⟩
  obtain ⟨differ, positive⟩ := (matchGraph_adj symmetric).mp adjacent
  rcases lt_or_gt_of_ne differ with below | above
  · exact apart _ _ below positive
  · rw [symmetric] at positive
    exact apart _ _ above positive

/-- The visited images are connected with the first one, and all such images are visited. -/
theorem mem_reached_iff (symmetric : ∀ i j, confidence i j = confidence j i) {node : Fin n}
    {edges : List (Fin n × Fin n)} (grows : Grows confidence node edges)
    (closed : ∀ a ∈ reached node edges, ∀ b ∉ reached node edges, ¬ 0 < confidence a b)
    (i : Fin n) : i ∈ reached node edges ↔ (matchGraph confidence).Reachable node i := by
  constructor
  · clear closed
    induction edges using List.reverseRecOn generalizing i with
    | nil =>
        intro member
        obtain rfl := List.mem_singleton.mp member
        exact SimpleGraph.Reachable.refl _
    | append_singleton edges edge ih =>
        obtain ⟨now, next⟩ := edge
        intro member
        rw [reached_append, List.mem_append, List.mem_singleton] at member
        rcases member with earlier | rfl
        · exact ih grows.init i earlier
        · obtain ⟨known, fresh, positive⟩ := grows.last
          have differ : now ≠ i := fun same => fresh (same ▸ known)
          exact (ih grows.init now known).trans
            ((matchGraph_adj symmetric).mpr ⟨differ, positive⟩).reachable
  · rintro ⟨walk⟩
    by_contra outside
    obtain ⟨dart, _, first, second⟩ := walk.exists_boundary_dart {x | x ∈ reached node edges}
      List.mem_cons_self outside
    exact closed _ first _ second ((matchGraph_adj symmetric).mp dart.adj).2

end Start

section Result

variable [AddCommGroup K] [IsOrderedAddMonoid K]

/-- The calls for a first image and the edges of a tree. -/
def callsOf (node : Fin n) (edges : List (Fin n × Fin n)) : List (Call n) :=
  .initNode node :: edges.map fun edge => .edge edge.1 edge.2

/-- The edges are a spanning tree with the greatest total confidence. -/
def MaximumSpanningTree (confidence : Fin n → Fin n → K)
    (symmetric : ∀ i j, confidence i j = confidence j i) (edges : List (Fin n × Fin n)) : Prop :=
  (SimpleGraph.fromEdgeSet (chosen edges : Set (Sym2 (Fin n)))).IsTree ∧
    ∀ T : SimpleGraph (Fin n), T.IsTree →
      totalWeight (weight confidence symmetric) T ≤
        (edges.map fun edge => confidence edge.1 edge.2).sum

omit [AddCommGroup K] [IsOrderedAddMonoid K] in
/-- All images were visited if and only if the edges and the first image count them all. -/
theorem count_iff [Zero K] {confidence : Fin n → Fin n → K} {node : Fin n}
    {edges : List (Fin n × Fin n)} (grows : Grows confidence node edges) :
    edges.length + 1 = n ↔ ∀ i, i ∈ reached node edges := by
  have card : (reached node edges).toFinset.card = edges.length + 1 := by
    rw [List.toFinset_card_of_nodup grows.nodup]
    simp [reached]
  have all : (reached node edges).toFinset.card = n ↔ (reached node edges).toFinset = Finset.univ :=
    by rw [← Finset.card_eq_iff_eq_univ, Fintype.card_fin]
  rw [← card, all, Finset.eq_univ_iff_forall]
  simp only [List.mem_toFinset]

/-- Connected images are walked along a maximum spanning tree, and other images are reported after
all images connected with the first one were visited. -/
theorem traverse_spec (queue : PriorityQueue (Edge n K) K Edge.weight)
    (confidence : Fin n → Fin n → K) (symmetric : ∀ i j, confidence i j = confidence j i)
    (two : 2 ≤ n) :
    ((matchGraph confidence).Connected → ∃ node edges,
      traverse queue confidence = ⟨callsOf node edges, none⟩ ∧ edges.length = n - 1 ∧
        Grows confidence node edges ∧ MaximumSpanningTree confidence symmetric edges) ∧
    (¬ (matchGraph confidence).Connected → (traverse queue confidence).error ≠ none ∧
      ((∀ i j, i ≠ j → ¬ 0 < confidence i j) ∧ (traverse queue confidence).calls = [] ∨
        ∃ node edges, (traverse queue confidence).calls = callsOf node edges ∧
          Grows confidence node edges ∧
          ∀ i, i ∈ reached node edges ↔ (matchGraph confidence).Reachable node i)) := by
  cases started : startEdge confidence with
  | none =>
      have apart := startEdge_none confidence started
      have result : traverse queue confidence = ⟨[], some "No connected images are found!"⟩ := by
        rw [traverse, started]
      rw [result]
      constructor
      · intro connected
        exact absurd connected (not_connected_of_none two symmetric apart)
      · intro _
        refine ⟨by simp, Or.inl ⟨fun i j differ => ?_, rfl⟩⟩
        rcases lt_or_gt_of_ne differ with below | above
        · exact apart i j below
        · rw [symmetric]
          exact apart j i above
  | some best_edge =>
      have started' : Growing symmetric best_edge.v1 [] (start queue confidence best_edge.v1) :=
        Growing.start best_edge.v1
      obtain ⟨edges, growing, empty⟩ := grow_spec _ [] started'
      have component := mem_reached_iff symmetric growing.grows (growing.closed empty)
      have count := count_iff growing.grows
      constructor
      · intro connected
        have complete : edges.length + 1 = n := count.mpr fun i =>
          (component i).mpr (connected.preconnected best_edge.v1 i)
        have : Nonempty (Fin n) := ⟨best_edge.v1⟩
        refine ⟨best_edge.v1, edges, ?_, by omega, growing.grows, ?_⟩
        · simp only [traverse, started]
          rw [if_neg (not_not.mpr (growing.cnt.trans complete)), growing.calls]
          rfl
        · have card : (chosen edges).card + 1 = Fintype.card (Fin n) := by
            rw [card_chosen growing.grows, complete, Fintype.card_fin]
          obtain ⟨isTree, maximal⟩ := growing.extensible.isTree card
          rw [sum_chosen symmetric growing.grows] at maximal
          exact ⟨isTree, maximal⟩
      · intro unconnected
        have incomplete : edges.length + 1 ≠ n := by
          intro complete
          refine unconnected ((SimpleGraph.connected_iff_exists_forall_reachable _).mpr
            ⟨best_edge.v1, fun i => (component i).mp (count.mp complete i)⟩)
        have reported : (grow queue confidence (start queue confidence best_edge.v1)).cnt ≠ n := by
          rw [growing.cnt]
          exact incomplete
        simp only [traverse, started]
        rw [if_pos reported]
        exact ⟨by simp, Or.inr ⟨best_edge.v1, edges, growing.calls, growing.grows, component⟩⟩

/-- Three images in a row, of which the first two are connected best. -/
def row : Fin 3 → Fin 3 → ℚ := fun i j => if i = j then 0 else if i.val + j.val = 1 then 2
  else if i.val + j.val = 3 then 1 else -4

theorem row_traverse :
    ((matchGraph row).Connected → ∃ node edges,
      traverse (PriorityQueue.ofList Edge.weight) row = ⟨callsOf node edges, none⟩ ∧
        edges.length = 3 - 1 ∧ Grows row node edges ∧
        MaximumSpanningTree row (by decide) edges) ∧
    (¬ (matchGraph row).Connected →
      (traverse (PriorityQueue.ofList Edge.weight) row).error ≠ none ∧
        ((∀ i j, i ≠ j → ¬ 0 < row i j) ∧
          (traverse (PriorityQueue.ofList Edge.weight) row).calls = [] ∨
        ∃ node edges,
          (traverse (PriorityQueue.ofList Edge.weight) row).calls = callsOf node edges ∧
            Grows row node edges ∧
            ∀ i, i ∈ reached node edges ↔ (matchGraph row).Reachable node i)) :=
  traverse_spec (PriorityQueue.ofList Edge.weight) row (by decide) (by decide)

end Result

end CameraEstimator

end CodeCollect.OpenPano
