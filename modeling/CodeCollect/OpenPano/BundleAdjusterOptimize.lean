import CodeCollect.OpenPano.BundleAdjuster

namespace CodeCollect.OpenPano

/-- A `double` is an exact number here, or it is not a number. -/
inductive Double (K : Type) where
  | number (value : K)
  | nan
deriving DecidableEq

namespace Double

variable {K : Type}

def lift (operation : K → K → K) : Double K → Double K → Double K
  | number x, number y => number (operation x y)
  | _, _ => nan

instance [Zero K] : Zero (Double K) := ⟨number 0⟩

instance [One K] : One (Double K) := ⟨number 1⟩

instance [Add K] : Add (Double K) := ⟨lift (· + ·)⟩

instance [Sub K] : Sub (Double K) := ⟨lift (· - ·)⟩

instance [Mul K] : Mul (Double K) := ⟨lift (· * ·)⟩

instance [Div K] : Div (Double K) := ⟨lift (· / ·)⟩

/-- A comparison with what is not a number fails. -/
def Le [LE K] : Double K → Double K → Prop
  | number x, number y => x ≤ y
  | _, _ => False

instance [LE K] : LE (Double K) := ⟨Le⟩

instance [LE K] [DecidableLE K] : DecidableLE (Double K)
  | number x, number y => inferInstanceAs (Decidable (x ≤ y))
  | number _, nan => isFalse id
  | nan, number _ => isFalse id
  | nan, nan => isFalse id

@[simp] theorem number_le_number [LE K] {x y : K} : number x ≤ number y ↔ x ≤ y := Iff.rfl

@[simp] theorem not_nan_le [LE K] (x : Double K) : ¬ nan ≤ x := by
  cases x <;> exact id

@[simp] theorem not_le_nan [LE K] (x : Double K) : ¬ x ≤ nan := by
  cases x <;> exact id

@[simp] theorem number_sub_number [Sub K] (x y : K) : number x - number y = number (x - y) := rfl

theorem le_refl_of_le [Preorder K] {x y : Double K} (below : x ≤ y) : x ≤ x := by
  cases x with
  | number x => exact le_refl x
  | nan => exact absurd below (not_nan_le y)

theorem le_trans_of_le [Preorder K] {x y z : Double K} (first : x ≤ y) (second : y ≤ z) :
    x ≤ z := by
  cases x with
  | nan => exact absurd first (not_nan_le y)
  | number x =>
      cases y with
      | nan => exact absurd second (not_nan_le z)
      | number y =>
          cases z with
          | nan => exact absurd second (not_le_nan _)
          | number z => exact (number_le_number.mp first).trans second

end Double

namespace BundleAdjuster

def LM_MAX_ITER : Nat := 100

structure ErrorStats (K : Type) where
  residuals : List (Double K)
  max : Double K
  avg : Double K

/-- The rotation of a camera is only converted here. -/
structure Camera (K Rotation : Type) where
  focal : Double K
  aspect : Double K
  ppx : Double K
  ppy : Double K
  R : Rotation

/-- A state is its parameters, six for each image. -/
abbrev ParamState (K : Type) := List (Double K)

/-- The adjuster has its matches, and what its loop calls is arbitrary. -/
structure Optimizer (K Rotation : Type) where
  adjuster : Adjuster (Double K)
  identity_idx : Nat
  LM_LAMBDA : Double K
  rotation_to_angle : Rotation → Double K × Double K × Double K
  angle_to_rotation : Double K × Double K × Double K → Rotation
  calcError : ParamState K → ErrorStats K
  calcJacobian : ParamState K → Matrices (Double K)
  solve : (Cell → Double K) → (Nat → Double K) → Nat → Double K

/-- These are the variables that the loop keeps. -/
structure LoopState (K : Type) where
  state : ParamState K
  err_stat : ErrorStats K
  best_err : Double K
  nr_non_decrease : Nat

/-- The images that were added get the cameras in order. -/
def writeBack {C : Type} (images : List Nat) (results : List C) (result_cameras : Nat → C) :
    Nat → C :=
  (images.zip results).foldl (fun cameras (image, camera) => Function.update cameras image camera)
    result_cameras

theorem writeBack_of_not_mem {C : Type} {images : List Nat} {results : List C}
    {result_cameras : Nat → C} {image : Nat} (apart : image ∉ images) :
    writeBack images results result_cameras image = result_cameras image := by
  induction images generalizing results result_cameras with
  | nil => rfl
  | cons first images ih =>
      rw [List.mem_cons, not_or] at apart
      cases results with
      | nil => rfl
      | cons result results => exact (ih apart.2).trans (Function.update_of_ne apart.1 _ _)

/-- Each added image gets its camera. -/
theorem writeBack_get {C : Type} {images : List Nat} {results : List C} {result_cameras : Nat → C}
    (distinct : images.Nodup) (length : results.length = images.length) {place image : Nat}
    (found : images[place]? = some image) :
    results[place]? = some (writeBack images results result_cameras image) := by
  induction images generalizing results result_cameras place with
  | nil => exact absurd found (by simp)
  | cons first images ih =>
      rw [List.nodup_cons] at distinct
      cases results with
      | nil => exact absurd length.symm (Nat.succ_ne_zero _)
      | cons result results =>
          cases place with
          | zero =>
              rw [List.getElem?_cons_zero, Option.some_inj] at found
              subst found
              refine congrArg some (Eq.symm ?_)
              exact (writeBack_of_not_mem distinct.1).trans (Function.update_self _ _ _)
          | succ place => exact ih distinct.2 (Nat.succ.inj length) found

namespace Optimizer

section Cameras

variable {K Rotation : Type} (self : Optimizer K Rotation)

def cameraToParams (c : Camera K Rotation) : ParamState K :=
  let angles := self.rotation_to_angle c.R
  [c.focal, c.ppx, c.ppy, angles.1, angles.2.1, angles.2.2]

/-- The added images stand in order. -/
def images : List Nat := self.adjuster.idx_added.sort (· ≤ ·)

def start (result_cameras : Nat → Camera K Rotation) : LoopState K :=
  let state := self.images.flatMap fun idx => self.cameraToParams (result_cameras idx)
  let err_stat := self.calcError state
  ⟨state, err_stat, err_stat.avg, 0⟩

theorem start_length (result_cameras : Nat → Camera K Rotation) :
    (self.start result_cameras).state.length = self.images.length * NR_PARAM_PER_CAMERA := by
  rw [start, List.length_flatMap]
  simp [cameraToParams, NR_PARAM_PER_CAMERA]

variable [Zero K] [One K]

def paramsToCamera (params : ParamState K) : Camera K Rotation :=
  ⟨params.getD 0 0, 1, params.getD 1 0, params.getD 2 0,
    self.angle_to_rotation (params.getD 3 0, params.getD 4 0, params.getD 5 0)⟩

def getCameras (state : ParamState K) : List (Camera K Rotation) :=
  (List.range (state.length / NR_PARAM_PER_CAMERA)).map fun i =>
    self.paramsToCamera (state.drop (i * NR_PARAM_PER_CAMERA))

theorem getCameras_length {state : ParamState K}
    (length : state.length = self.images.length * NR_PARAM_PER_CAMERA) :
    (self.getCameras state).length = self.images.length := by
  rw [getCameras, List.length_map, List.length_range, length]
  exact Nat.mul_div_cancel _ (by decide)

end Cameras

variable {K Rotation : Type} [Field K] [LinearOrder K] (self : Optimizer K Rotation)

def getParamUpdate (state : ParamState K) (residual : List (Double K)) (lambda : Double K) :
    Nat → Double K :=
  let matrices := self.calcJacobian state
  let rows := List.range (NR_TERM_PER_MATCH * self.adjuster.nr_pointwise_match)
  let b (column : Nat) := rows.foldl (fun sum row =>
    sum + matrices.J (row, column) * residual.getD row 0) 0
  let JtJ := (List.range (self.images.length * NR_PARAM_PER_CAMERA)).foldl (fun JtJ i =>
    Function.update JtJ (i, i) (JtJ (i, i) +
      if i % NR_PARAM_PER_CAMERA ≥ 3 then lambda else lambda / .number 10)) matrices.JtJ
  self.solve JtJ b

/-- The rotation of the identity image is not updated. -/
def newState (loop : LoopState K) : ParamState K :=
  let update := self.getParamUpdate loop.state loop.err_stat.residuals self.LM_LAMBDA
  let idt := self.adjuster.updateIndexMap.index_map self.identity_idx
  loop.state.mapIdx fun i param =>
    if i < idt * 6 + 3 ∨ i ≥ idt * 6 + 6 then param - update i else param

/-- A new state is rejected when its error is not smaller by the tolerance. -/
def Rejected (loop : LoopState K) : Prop :=
  (self.calcError (self.newState loop)).avg ≥ loop.best_err - .number (1 / 1000)

instance (loop : LoopState K) : Decidable (self.Rejected loop) :=
  inferInstanceAs (Decidable (_ ≤ _))

/-- This is the body of the loop. -/
def iteration (loop : LoopState K) : LoopState K :=
  let new_state := self.newState loop
  let err_stat := self.calcError new_state
  if self.Rejected loop then
    { loop with err_stat, nr_non_decrease := loop.nr_non_decrease + 1 }
  else ⟨new_state, err_stat, err_stat.avg, 0⟩

/-- The loop has a number of iterations left, and six rejected states in a row end it. -/
def run : Nat → LoopState K → LoopState K
  | 0, loop => loop
  | left + 1, loop =>
      if (self.iteration loop).nr_non_decrease > 5 then self.iteration loop
      else run left (self.iteration loop)

/-- These are the variables before each iteration. -/
def heads : Nat → LoopState K → List (LoopState K)
  | 0, _ => []
  | left + 1, loop =>
      loop :: if (self.iteration loop).nr_non_decrease > 5 then []
        else heads left (self.iteration loop)

def optimize (result_cameras : Nat → Camera K Rotation) :
    Except String (Nat → Camera K Rotation) :=
  if self.adjuster.idx_added = ∅ then
    throw "Calling optimize() without adding any matches!"
  else
    let state := (self.run LM_MAX_ITER (self.start result_cameras)).state
    pure (writeBack self.images (self.getCameras state) result_cameras)

/-- The residuals in the loop are those of its state. -/
def Consistent (loop : LoopState K) : Prop :=
  loop.err_stat.residuals = (self.calcError loop.state).residuals

/-- A rejected state has the residuals of the state that stays. -/
def SameWhenRejected (loop : LoopState K) : Prop :=
  self.Rejected loop →
    (self.calcError (self.newState loop)).residuals = (self.calcError loop.state).residuals

/-- The best error is the error of the state. -/
def Tracks (loop : LoopState K) : Prop := loop.best_err = (self.calcError loop.state).avg

/-- These are the accepted states, which are repeated after rejected ones. -/
def accepted (left : Nat) (loop : LoopState K) : List (ParamState K) :=
  loop.state :: (self.heads left loop).map fun head => (self.iteration head).state

variable {self} {loop : LoopState K}

theorem iteration_rejected (rejected : self.Rejected loop) :
    self.iteration loop = { loop with
      err_stat := self.calcError (self.newState loop)
      nr_non_decrease := loop.nr_non_decrease + 1 } := by
  rw [iteration, if_pos rejected]

theorem iteration_accepted (accepted : ¬ self.Rejected loop) :
    self.iteration loop = ⟨self.newState loop, self.calcError (self.newState loop),
      (self.calcError (self.newState loop)).avg, 0⟩ := by
  rw [iteration, if_neg accepted]

/-- After one iteration the residuals fit unless a state with other residuals was rejected. -/
theorem iteration_consistent_iff :
    self.Consistent (self.iteration loop) ↔ self.SameWhenRejected loop := by
  by_cases rejected : self.Rejected loop
  · rw [iteration_rejected rejected]
    exact ⟨fun same _ => same, fun same => same rejected⟩
  · rw [iteration_accepted rejected]
    exact iff_of_true rfl fun impossible => absurd impossible rejected

theorem iteration_tracks (tracks : self.Tracks loop) : self.Tracks (self.iteration loop) := by
  by_cases rejected : self.Rejected loop
  · rw [iteration_rejected rejected]
    exact tracks
  · rw [iteration_accepted rejected]
    rfl

/-- The residuals fit in all iterations when no rejected state with others is followed by one. -/
theorem heads_consistent_iff (left : Nat) :
    (∀ head ∈ self.heads left loop, self.Consistent head) ↔
      (left ≠ 0 → self.Consistent loop) ∧
        ∀ head ∈ (self.heads left loop).dropLast, self.SameWhenRejected head := by
  induction left generalizing loop with
  | zero => simp [heads]
  | succ left ih =>
      rw [heads, List.forall_mem_cons]
      split
      · simp
      · cases left with
        | zero => simp [heads]
        | succ left =>
            have more : self.heads (left + 1) (self.iteration loop) ≠ [] := by
              rw [heads]
              exact List.cons_ne_nil _ _
            rw [ih, iteration_consistent_iff, List.dropLast_cons_of_ne_nil more,
              List.forall_mem_cons]
            simp

section Ordered

variable [IsStrictOrderedRing K]

/-- The error does not grow exactly when the errors before and after are numbers. -/
theorem iteration_le_iff (tracks : self.Tracks loop) :
    (self.calcError (self.iteration loop).state).avg ≤ (self.calcError loop.state).avg ↔
      (self.calcError loop.state).avg ≠ .nan ∧
        (self.calcError (self.newState loop)).avg ≠ .nan := by
  have tolerance : (0 : K) < 1 / 1000 := by norm_num
  rw [Tracks] at tracks
  by_cases rejected : self.Rejected loop
  · rw [iteration_rejected rejected]
    rw [Rejected, tracks, ge_iff_le] at rejected
    generalize (self.calcError loop.state).avg = old at rejected ⊢
    generalize (self.calcError (self.newState loop)).avg = new at rejected ⊢
    cases old with
    | nan => simp
    | number old =>
        cases new with
        | nan => exact absurd rejected (Double.not_le_nan _)
        | number new => simp
  · rw [iteration_accepted rejected]
    rw [Rejected, tracks, ge_iff_le] at rejected
    simp only []
    generalize (self.calcError loop.state).avg = old at rejected ⊢
    generalize (self.calcError (self.newState loop)).avg = new at rejected ⊢
    cases old with
    | nan => simp
    | number old =>
        cases new with
        | nan => simp
        | number new =>
            rw [Double.number_sub_number, Double.number_le_number, not_le] at rejected
            have below : new ≤ old := by linarith
            simp [below]

/-- The errors never grow when all of them are numbers. -/
theorem heads_le_iff (left : Nat) (tracks : self.Tracks loop) :
    (∀ head ∈ self.heads left loop,
        (self.calcError (self.iteration head).state).avg ≤ (self.calcError head.state).avg) ↔
      (left ≠ 0 → (self.calcError loop.state).avg ≠ .nan) ∧
        ∀ head ∈ self.heads left loop, (self.calcError (self.newState head)).avg ≠ .nan := by
  induction left generalizing loop with
  | zero => simp [heads]
  | succ left ih =>
      have onward (below : (self.calcError (self.iteration loop).state).avg ≤
          (self.calcError loop.state).avg) :
          left ≠ 0 → (self.calcError (self.iteration loop).state).avg ≠ .nan := by
        intro more nan
        rw [nan] at below
        exact Double.not_nan_le _ below
      have first := iteration_le_iff tracks
      rw [heads, List.forall_mem_cons, List.forall_mem_cons]
      split
      · simp [first]
      · rw [ih (iteration_tracks tracks), first]
        constructor
        · rintro ⟨⟨old, new⟩, -, later⟩
          exact ⟨fun _ => old, new, later⟩
        · rintro ⟨old, new, later⟩
          have numbers := And.intro (old (Nat.succ_ne_zero left)) new
          exact ⟨numbers, onward (first.mpr numbers), later⟩

end Ordered

/-- The loop ends at the accepted state with the least error. -/
theorem run_least (left : Nat) (number : (self.calcError loop.state).avg ≠ .nan)
    (below : ∀ head ∈ self.heads left loop,
      (self.calcError (self.iteration head).state).avg ≤ (self.calcError head.state).avg) :
    (self.run left loop).state ∈ self.accepted left loop ∧
      ∀ other ∈ self.accepted left loop,
        (self.calcError (self.run left loop).state).avg ≤ (self.calcError other).avg := by
  have same : (self.calcError loop.state).avg ≤ (self.calcError loop.state).avg := by
    cases avg : (self.calcError loop.state).avg with
    | nan => exact absurd avg number
    | number value => exact Double.number_le_number.mpr le_rfl
  induction left generalizing loop with
  | zero =>
      rw [accepted, heads, List.map_nil, run, List.forall_mem_singleton]
      exact ⟨List.mem_singleton_self _, same⟩
  | succ left ih =>
      rw [heads, List.forall_mem_cons] at below
      have stays := Double.le_refl_of_le below.1
      by_cases ended : (self.iteration loop).nr_non_decrease > 5
      · rw [accepted, heads, run, if_pos ended, if_pos ended, List.map_singleton,
          List.forall_mem_cons, List.forall_mem_singleton]
        exact ⟨List.mem_cons_of_mem _ (List.mem_singleton_self _), below.1, stays⟩
      · rw [if_neg ended] at below
        have onward : (self.calcError (self.iteration loop).state).avg ≠ .nan := by
          intro nan
          rw [nan] at stays
          exact Double.not_nan_le _ stays
        have later := ih onward below.2 stays
        rw [accepted, heads, run, if_neg ended, if_neg ended, List.map_cons,
          List.forall_mem_cons]
        exact ⟨List.mem_cons_of_mem _ later.1,
          Double.le_trans_of_le (later.2 _ List.mem_cons_self) below.1, later.2⟩

theorem iteration_length : (self.iteration loop).state.length = loop.state.length := by
  by_cases rejected : self.Rejected loop
  · rw [iteration_rejected rejected]
  · rw [iteration_accepted rejected]
    exact List.length_mapIdx

theorem run_length (left : Nat) : (self.run left loop).state.length = loop.state.length := by
  induction left generalizing loop with
  | zero => rfl
  | succ left ih =>
      rw [run]
      split
      · exact iteration_length
      · rw [ih, iteration_length]

/-- The added images have the cameras of a state, and the other images keep theirs. -/
structure WrittenBack (optimizer : Optimizer K Rotation)
    (result_cameras result : Nat → Camera K Rotation) (state : ParamState K) : Prop where
  added : ∀ (place image : Nat), optimizer.images[place]? = some image →
    (optimizer.getCameras state)[place]? = some (result image)
  others : ∀ image ∉ optimizer.adjuster.idx_added, result image = result_cameras image

theorem optimize_writtenBack (optimizer : Optimizer K Rotation)
    (added : optimizer.adjuster.idx_added.Nonempty)
    (result_cameras : Nat → Camera K Rotation) :
    ∃ result, optimizer.optimize result_cameras = .ok result ∧
      optimizer.WrittenBack result_cameras result
        (optimizer.run LM_MAX_ITER (optimizer.start result_cameras)).state := by
  rw [optimize, if_neg added.ne_empty]
  refine ⟨_, rfl, ?_, ?_⟩
  · intro place image found
    have kept := @run_length _ _ _ _ optimizer (optimizer.start result_cameras) LM_MAX_ITER
    have length := optimizer.getCameras_length (kept.trans (optimizer.start_length result_cameras))
    exact writeBack_get (Finset.sort_nodup _ _) length found
  · intro image apart
    refine writeBack_of_not_mem ?_
    rw [images, Finset.mem_sort]
    exact apart

/-- All updates are computed at the accepted state, whose error never grows, and the last state is
the best one. -/
structure StepsFromOneState (optimizer : Optimizer K Rotation)
    (result_cameras : Nat → Camera K Rotation) : Prop where
  consistent : ∀ head ∈ optimizer.heads LM_MAX_ITER (optimizer.start result_cameras),
    optimizer.Consistent head
  decreasing : ∀ head ∈ optimizer.heads LM_MAX_ITER (optimizer.start result_cameras),
    (optimizer.calcError (optimizer.iteration head).state).avg ≤
      (optimizer.calcError head.state).avg
  writtenBack : ∃ best ∈ optimizer.accepted LM_MAX_ITER (optimizer.start result_cameras),
    (∀ other ∈ optimizer.accepted LM_MAX_ITER (optimizer.start result_cameras),
      (optimizer.calcError best).avg ≤ (optimizer.calcError other).avg) ∧
    ∃ result, optimizer.optimize result_cameras = .ok result ∧
      optimizer.WrittenBack result_cameras result best

/-- All errors are numbers, and only the last rejected state may have other residuals. -/
structure Orderly (optimizer : Optimizer K Rotation)
    (result_cameras : Nat → Camera K Rotation) : Prop where
  number : (optimizer.calcError (optimizer.start result_cameras).state).avg ≠ .nan
  numbers : ∀ head ∈ optimizer.heads LM_MAX_ITER (optimizer.start result_cameras),
    (optimizer.calcError (optimizer.newState head)).avg ≠ .nan
  same : ∀ head ∈ (optimizer.heads LM_MAX_ITER (optimizer.start result_cameras)).dropLast,
    optimizer.SameWhenRejected head

/-- Two images have one pair of points. -/
def pairAdjuster : Adjuster (Double ℚ) := Adjuster.empty.addMatch 0 1 [((0, 0), (0, 0))]

/-- An optimizer has an error function of the first parameter and a solver. -/
def pairOptimizer (residual : Double ℚ → Double ℚ)
    (solve : (Cell → Double ℚ) → (Nat → Double ℚ) → Nat → Double ℚ) : Optimizer ℚ Unit where
  adjuster := pairAdjuster
  identity_idx := 1
  LM_LAMBDA := .number 5
  rotation_to_angle _ := (0, 0, 0)
  angle_to_rotation _ := ()
  calcError state :=
    let x := residual (state.getD 0 0)
    ⟨[x, 0], x * x, x * x⟩
  calcJacobian _ := ⟨fun cell => if cell = (0, 0) then 1 else 0, fun _ => 0, []⟩
  solve := solve

def pairCamera : Camera ℚ Unit := ⟨1, 1, 0, 0, ()⟩

theorem pairAdjuster_added : pairAdjuster.idx_added.Nonempty := ⟨0, by decide⟩

theorem pairAdjuster_sort : pairAdjuster.idx_added.sort (· ≤ ·) = [0, 1] := by
  have added : pairAdjuster.idx_added = insert 0 {1} := by decide
  rw [added, Finset.sort_insert _ (by decide) (by decide), Finset.sort_singleton]

/-- The first step of this optimizer goes over the minimum to a point with the same error. -/
def overshoot : Optimizer ℚ Unit := pairOptimizer id fun _ b i => if i = 0 then b 0 + b 0 else 0

theorem overshoot_start : (overshoot.start fun _ => pairCamera).state =
    1 :: [0, 0, 0, 0, 0, 1, 0, 0, 0, 0, 0] := by
  have images : overshoot.images = [0, 1] := pairAdjuster_sort
  rw [start, images]
  rfl

theorem overshoot_state : (overshoot.newState (overshoot.start fun _ => pairCamera)).getD 0 0 =
    .number (-1) := by
  have residuals : (overshoot.start fun _ => pairCamera).err_stat.residuals = [1, 0] := by
    change [((overshoot.start fun _ => pairCamera).state).getD 0 0, 0] = _
    rw [overshoot_start]
    rfl
  have update : overshoot.getParamUpdate (overshoot.start fun _ => pairCamera).state [1, 0]
      overshoot.LM_LAMBDA 0 = .number 2 := by
    decide +kernel
  rw [newState, residuals, overshoot_start, List.mapIdx_cons, List.getD_cons_zero, if_pos]
  · rw [← overshoot_start, update]
    decide +kernel
  · left
    omega

end Optimizer

end BundleAdjuster

end CodeCollect.OpenPano
