import CodeCollect.Library.PointerJumping
import CodeCollect.OpenPano.LinearBlender

namespace CodeCollect.OpenPano.Crop

open Library.PointerJumping

/-- An array gives nothing for an index that it does not have. -/
abbrev IntArray := Nat → Option Nat

def IntArray.zeros (w : Nat) : IntArray := fun k => if k < w then some 0 else none

/-- These variables keep the largest area and its place. -/
structure Best where
  maxarea : Nat
  ll : Nat
  rr : Nat
  hh : Nat
  nl : Nat

structure CropState where
  height : IntArray
  left : IntArray
  right : IntArray
  best : Best

variable {K : Type} [LinearOrder K] [Zero K]

/-- A pixel is marked when its largest channel is negative. -/
def marked (p : Color K) : Prop := p.largest < 0

instance (p : Color K) : Decidable (marked p) := inferInstanceAs (Decidable (_ < _))

def lineHeights (mat : Mat32f K) (line : Nat) (height : IntArray) : Option IntArray :=
  (List.range mat.cols).foldlM (fun height k => do
    let old ← height k
    return write height k (if marked (mat.pixel line k) then 0 else old + 1)) height

def stepLeft (k : Nat) : Option Nat := if k > 0 then some (k - 1) else none

def stepRight (w k : Nat) : Option Nat := if k < w - 1 then some (k + 1) else none

def bestOfLine (w line : Nat) (height left right : IntArray) (best : Best) : Option Best :=
  (List.range w).foldlM (fun best k => do
    let l ← left k
    let r ← right k
    let h ← height k
    let area := (r - l + 1) * h
    return if best.maxarea < area then ⟨area, l, r, h, line⟩ else best) best

/-- This is the body of the loop over the lines. -/
def cropLine (mat : Mat32f K) (state : CropState) (line : Nat) : Option CropState := do
  let w := mat.cols
  let height ← lineHeights mat line state.height
  let left ← links stepLeft height w (List.range w) state.left
  let right ← links (stepRight w) height w ((List.range w).map (w - 1 - ·)) state.right
  let best ← bestOfLine w line height left right state.best
  return ⟨height, left, right, best⟩

def largest (mat : Mat32f K) : Option CropState :=
  let zeros := IntArray.zeros mat.cols
  (List.range mat.rows).foldlM (cropLine mat) ⟨zeros, zeros, zeros, ⟨0, 0, 0, 0, 0⟩⟩

/-- The result is nothing when a loop runs too long or an index leaves its array. -/
def crop (mat : Mat32f K) : Option (Mat32f K) := do
  let best := (← largest mat).best
  let offsetx := best.ll
  let offsety := best.nl + 1 - best.hh
  return ⟨best.hh, best.rr - best.ll + 1, fun i j => mat.pixel (i + offsety) (j + offsetx)⟩

/-- An empty pixel has no channel that is not negative. -/
def Empty (p : Color K) : Prop := ∀ channel, p channel < 0

/-- A rectangle has its first row and column and its size. -/
structure Rectangle where
  top : Nat
  left : Nat
  height : Nat
  width : Nat

namespace Rectangle

def area (self : Rectangle) : Nat := self.width * self.height

def Inside (self : Rectangle) (mat : Mat32f K) : Prop :=
  self.top + self.height ≤ mat.rows ∧ self.left + self.width ≤ mat.cols

def Full (self : Rectangle) (mat : Mat32f K) : Prop :=
  ∀ r c, self.top ≤ r → r < self.top + self.height → self.left ≤ c →
    c < self.left + self.width → ¬ Empty (mat.pixel r c)

end Rectangle

/-- This is the number of pixels in a column that end before a line and are not marked. -/
def columnHeight (mat : Mat32f K) : Nat → Nat → Nat
  | 0, _ => 0
  | line + 1, k => if marked (mat.pixel line k) then 0 else columnHeight mat line k + 1

theorem marked_iff (p : Color K) : marked p ↔ Empty p := by
  rw [marked, Color.largest, max_lt_iff, max_lt_iff, Empty, Fin.forall_fin_succ, Fin.forall_fin_succ,
    Fin.forall_fin_succ, and_assoc]
  simp

theorem le_columnHeight_iff (mat : Mat32f K) (line k m : Nat) :
    m ≤ columnHeight mat line k ↔
      m ≤ line ∧ ∀ r, line - m ≤ r → r < line → ¬ Empty (mat.pixel r k) := by
  induction line generalizing m with
  | zero => simp [columnHeight]
  | succ line ih =>
      rw [columnHeight]
      cases m with
      | zero =>
          simp only [Nat.zero_le, Nat.sub_zero, true_and, true_iff]
          intro r below above
          omega
      | succ m =>
          split
          · rename_i empty
            rw [marked_iff] at empty
            refine iff_of_false (Nat.not_succ_le_zero m) ?_
            rintro ⟨-, filled⟩
            exact filled line (by omega) (by omega) empty
          · rename_i filled
            rw [marked_iff] at filled
            rw [Nat.add_le_add_iff_right, ih, Nat.add_le_add_iff_right, Nat.add_sub_add_right]
            refine and_congr_right fun _ => ⟨fun all r below above => ?_, fun all r below above => ?_⟩
            · rcases Nat.lt_succ_iff_lt_or_eq.mp above with earlier | rfl
              · exact all r below earlier
              · exact filled
            · exact all r below (above.trans line.lt_succ_self)

section Arrays

/-- The columns have new heights after a line. -/
theorem lineHeights_eq (mat : Mat32f K) (line : Nat) {height : IntArray}
    (old : ∀ k < mat.cols, height k = some (columnHeight mat line k)) :
    ∃ new, lineHeights mat line height = some new ∧
      ∀ k < mat.cols, new k = some (columnHeight mat (line + 1) k) := by
  have each (count : Nat) (within : count ≤ mat.cols) : ∃ new,
      (List.range count).foldlM (fun height k => do
        let old ← height k
        return write height k (if marked (mat.pixel line k) then 0 else old + 1)) height =
          some new ∧
      (∀ k < count, new k = some (columnHeight mat (line + 1) k)) ∧
      ∀ k, count ≤ k → new k = height k := by
    induction count with
    | zero => exact ⟨height, rfl, fun k impossible => absurd impossible (Nat.not_lt_zero k),
        fun _ _ => rfl⟩
    | succ count ih =>
        obtain ⟨new, found, done, rest⟩ := ih (Nat.le_of_succ_le within)
        have here : new count = some (columnHeight mat line count) :=
          (rest count le_rfl).trans (old count within)
        refine ⟨write new count (columnHeight mat (line + 1) count), ?_, ?_, ?_⟩
        · rw [List.range_succ, List.foldlM_append, found]
          simp [here, columnHeight]
        · intro k below
          rcases Nat.lt_succ_iff_lt_or_eq.mp below with earlier | rfl
          · exact (Function.update_of_ne earlier.ne _ _).trans (done k earlier)
          · exact Function.update_self _ _ _
        · intro k above
          exact (Function.update_of_ne (Nat.ne_of_gt above) _ _).trans
            (rest k (Nat.le_of_succ_le above))
  obtain ⟨new, found, done, -⟩ := each mat.cols le_rfl
  exact ⟨new, found, done⟩

theorem stepLeft_eq_some {k next : Nat} (onward : stepLeft k = some next) : next + 1 = k := by
  rw [stepLeft] at onward
  split at onward
  · rw [← Option.some.inj onward]
    omega
  · exact absurd onward nofun

theorem stepRight_eq_some {w k next : Nat} (onward : stepRight w k = some next) :
    next = k + 1 ∧ next < w := by
  rw [stepRight] at onward
  split at onward
  · rw [← Option.some.inj onward]
    omega
  · exact absurd onward nofun

theorem ordered_left (w : Nat) : Ordered stepLeft (List.range w) := by
  induction w with
  | zero => exact .nil
  | succ w ih =>
      rw [List.range_succ]
      refine .snoc ih fun next onward => ?_
      rw [List.mem_range]
      have before := stepLeft_eq_some onward
      omega

theorem ordered_right (w count : Nat) :
    Ordered (stepRight w) ((List.range count).map (w - 1 - ·)) := by
  induction count with
  | zero => exact .nil
  | succ count ih =>
      rw [List.range_succ, List.map_append, List.map_singleton]
      refine .snoc ih fun next onward => ?_
      have after := stepRight_eq_some onward
      rw [List.mem_map]
      exact ⟨w - 1 - next, List.mem_range.mpr (by omega), by omega⟩

variable {holds : Nat → Prop} {k finish : Nat}

/-- A walk to the left covers the places from its end on. -/
theorem ends_left (ends : Ends stepLeft holds k finish) :
    finish ≤ k ∧ ∀ c, finish ≤ c → c ≤ k → holds c := by
  induction ends with
  | stop here _ => exact ⟨le_rfl, fun c above below => below.antisymm above ▸ here⟩
  | @further k next finish here onward _ ih =>
      have before := stepLeft_eq_some onward
      refine ⟨by omega, fun c above below => ?_⟩
      rcases Nat.lt_or_eq_of_le below with inner | rfl
      · exact ih.2 c above (by omega)
      · exact here

theorem ends_left_first (ends : Ends stepLeft holds k finish) {first : Nat} (below : first ≤ k)
    (all : ∀ c, first ≤ c → c ≤ k → holds c) : finish ≤ first := by
  induction ends with
  | @stop k here beyond =>
      rcases Nat.lt_or_eq_of_le below with inner | rfl
      · have onward : stepLeft k = some (k - 1) := if_pos (by omega)
        exact absurd (all (k - 1) (by omega) (by omega)) (beyond _ onward)
      · exact le_rfl
  | @further k next finish here onward rest ih =>
      have before := stepLeft_eq_some onward
      rcases Nat.lt_or_eq_of_le below with inner | rfl
      · exact ih (by omega) fun c above inside => all c above (by omega)
      · exact (ends_left rest).1.trans (by omega)

/-- A walk to the right covers the places up to its end. -/
theorem ends_right {w : Nat} (ends : Ends (stepRight w) holds k finish) (inside : k < w) :
    finish < w ∧ k ≤ finish ∧ ∀ c, k ≤ c → c ≤ finish → holds c := by
  induction ends with
  | stop here _ => exact ⟨inside, le_rfl, fun c above below => above.antisymm below ▸ here⟩
  | @further k next finish here onward _ ih =>
      have after := stepRight_eq_some onward
      obtain ⟨within, beyond, covered⟩ := ih after.2
      refine ⟨within, by omega, fun c above below => ?_⟩
      rcases Nat.lt_or_eq_of_le above with inner | rfl
      · exact covered c (by omega) below
      · exact here

theorem ends_right_last {w : Nat} (ends : Ends (stepRight w) holds k finish) {last : Nat}
    (above : k ≤ last) (inside : last < w) (all : ∀ c, k ≤ c → c ≤ last → holds c) :
    last ≤ finish := by
  induction ends with
  | @stop k here beyond =>
      rcases Nat.lt_or_eq_of_le above with inner | rfl
      · have onward : stepRight w k = some (k + 1) := if_pos (by omega)
        exact absurd (all (k + 1) (by omega) (by omega)) (beyond _ onward)
      · exact le_rfl
  | @further k next finish here onward rest ih =>
      have after := stepRight_eq_some onward
      rcases Nat.lt_or_eq_of_le above with inner | rfl
      · exact ih (by omega) fun c above inside => all c (by omega) inside
      · have beyond := (ends_right rest after.2).2.1
        omega

end Arrays

/-- The columns from one to another are the widest block around a column that is not lower. -/
structure Widest (mat : Mat32f K) (line k l r : Nat) : Prop where
  left : l ≤ k
  right : k ≤ r
  inside : r < mat.cols
  high : ∀ c, l ≤ c → c ≤ r → columnHeight mat line k ≤ columnHeight mat line c
  first : ∀ a ≤ k, (∀ c, a ≤ c → c ≤ k → columnHeight mat line k ≤ columnHeight mat line c) →
    l ≤ a
  last : ∀ b, k ≤ b → b < mat.cols →
    (∀ c, k ≤ c → c ≤ b → columnHeight mat line k ≤ columnHeight mat line c) → b ≤ r

section Lines

variable {mat : Mat32f K} {line : Nat} {height left right : IntArray}

theorem atLeast_iff (high : ∀ k < mat.cols, height k = some (columnHeight mat line k))
    {level c : Nat} (inside : c < mat.cols) :
    AtLeast height level c ↔ level ≤ columnHeight mat line c := by
  rw [AtLeast, high c inside]
  simp

theorem widest_of_spans (high : ∀ k < mat.cols, height k = some (columnHeight mat line k))
    {k : Nat} (inside : k < mat.cols) (leftward : Spans stepLeft height left k)
    (rightward : Spans (stepRight mat.cols) height right k) :
    ∃ l r, left k = some l ∧ right k = some r ∧ Widest mat line k l r := by
  obtain ⟨level, l, top, linkedLeft, walkLeft⟩ := leftward
  obtain ⟨level', r, top', linkedRight, walkRight⟩ := rightward
  have same : columnHeight mat line k = level := Option.some.inj ((high k inside).symm.trans top)
  have same' : columnHeight mat line k = level' :=
    Option.some.inj ((high k inside).symm.trans top')
  subst same same'
  have coversLeft := ends_left walkLeft
  have coversRight := ends_right walkRight inside
  refine ⟨l, r, linkedLeft, linkedRight, coversLeft.1, coversRight.2.1, coversRight.1, ?_, ?_, ?_⟩
  · intro c above below
    have within : c < mat.cols := below.trans_lt coversRight.1
    rw [← atLeast_iff high within]
    rcases Nat.le_total c k with before | after
    · exact coversLeft.2 c above before
    · exact coversRight.2.2 c after below
  · intro a below all
    refine ends_left_first walkLeft below fun c above before => ?_
    exact (atLeast_iff high (before.trans_lt inside)).mpr (all c above before)
  · intro b above within all
    refine ends_right_last walkRight above within fun c after before => ?_
    exact (atLeast_iff high (before.trans_lt within)).mpr (all c after before)

/-- The arrays of a line span the widest blocks. -/
theorem line_widest (high : ∀ k < mat.cols, height k = some (columnHeight mat line k))
    (left right : IntArray) :
    ∃ newLeft newRight,
      links stepLeft height mat.cols (List.range mat.cols) left = some newLeft ∧
      links (stepRight mat.cols) height mat.cols
        ((List.range mat.cols).map (mat.cols - 1 - ·)) right = some newRight ∧
      ∀ k < mat.cols, ∃ l r, newLeft k = some l ∧ newRight k = some r ∧ Widest mat line k l r := by
  have descendsLeft (p next : Nat) (onward : stepLeft p = some next) : next < p := by
    have before := stepLeft_eq_some onward
    omega
  have descendsRight (p next : Nat) (onward : stepRight mat.cols p = some next) :
      mat.cols - 1 - next < mat.cols - 1 - p := by
    have after := stepRight_eq_some onward
    omega
  have mirror (k : Nat) (inside : k < mat.cols) :
      k ∈ (List.range mat.cols).map (mat.cols - 1 - ·) :=
    List.mem_map.mpr ⟨mat.cols - 1 - k, List.mem_range.mpr (by omega), by omega⟩
  have within (k : Nat) (member : k ∈ (List.range mat.cols).map (mat.cols - 1 - ·)) :
      k < mat.cols := by
    obtain ⟨index, inside, rfl⟩ := List.mem_map.mp member
    rw [List.mem_range] at inside
    omega
  have shorter (k : Nat) (inside : k < mat.cols) : mat.cols - 1 - k < mat.cols := by
    omega
  have distinct : ((List.range mat.cols).map (mat.cols - 1 - ·)).Nodup := by
    refine List.Nodup.map_on ?_ List.nodup_range
    intro a memberA b memberB same
    rw [List.mem_range] at memberA memberB
    omega
  obtain ⟨newLeft, foundLeft, spansLeft, -⟩ := links_span id descendsLeft
    (ordered_left mat.cols) List.nodup_range
    (fun k member => ⟨_, high k (List.mem_range.mp member)⟩)
    (fun k member => List.mem_range.mp member) left
  obtain ⟨newRight, foundRight, spansRight, -⟩ := links_span (mat.cols - 1 - ·)
    descendsRight (ordered_right mat.cols mat.cols) distinct
    (fun k member => ⟨_, high k (within k member)⟩)
    (fun k member => shorter k (within k member)) right
  refine ⟨newLeft, newRight, foundLeft, foundRight, fun k inside => ?_⟩
  exact widest_of_spans high inside (spansLeft k (List.mem_range.mpr inside))
    (spansRight k (mirror k inside))

end Lines

/-- The place that is kept has the kept area and no marked pixel. -/
structure Best.Sound (mat : Mat32f K) (best : Best) : Prop where
  ordered : best.ll ≤ best.rr
  inside : best.rr < mat.cols
  line : best.nl < mat.rows
  area : best.maxarea = (best.rr - best.ll + 1) * best.hh
  full : ∀ c, best.ll ≤ c → c ≤ best.rr → best.hh ≤ columnHeight mat (best.nl + 1) c

/-- The kept area is not smaller than the one of the widest block around a column. -/
def Best.Covers (mat : Mat32f K) (best : Best) (line k : Nat) : Prop :=
  ∃ l r, Widest mat line k l r ∧ (r - l + 1) * columnHeight mat line k ≤ best.maxarea

theorem bestOfLine_covers {mat : Mat32f K} {line : Nat} {height left right : IntArray}
    (high : ∀ k < mat.cols, height k = some (columnHeight mat (line + 1) k))
    (widest : ∀ k < mat.cols, ∃ l r, left k = some l ∧ right k = some r ∧
      Widest mat (line + 1) k l r) (within : line < mat.rows) {best : Best}
    (sound : best.Sound mat) :
    ∃ new, bestOfLine mat.cols line height left right best = some new ∧ new.Sound mat ∧
      best.maxarea ≤ new.maxarea ∧ ∀ k < mat.cols, new.Covers mat (line + 1) k := by
  have each (count : Nat) (inside : count ≤ mat.cols) : ∃ new,
      bestOfLine count line height left right best = some new ∧ new.Sound mat ∧
      best.maxarea ≤ new.maxarea ∧ ∀ k < count, new.Covers mat (line + 1) k := by
    induction count with
    | zero => exact ⟨best, rfl, sound, le_rfl, fun k impossible =>
        absurd impossible (Nat.not_lt_zero k)⟩
    | succ count ih =>
        obtain ⟨new, found, soundNew, grown, covers⟩ := ih (Nat.le_of_succ_le inside)
        obtain ⟨l, r, linkedLeft, linkedRight, wide⟩ := widest count inside
        have step : bestOfLine (count + 1) line height left right best =
            some (if new.maxarea < (r - l + 1) * columnHeight mat (line + 1) count then
              ⟨(r - l + 1) * columnHeight mat (line + 1) count, l, r,
                columnHeight mat (line + 1) count, line⟩ else new) := by
          rw [bestOfLine] at found ⊢
          rw [List.range_succ, List.foldlM_append, found]
          simp [linkedLeft, linkedRight, high count inside]
        rw [step]
        refine ⟨_, rfl, ?_⟩
        split
        · rename_i larger
          refine ⟨⟨wide.left.trans wide.right, wide.inside, within, rfl, wide.high⟩,
            grown.trans larger.le, fun k below => ?_⟩
          rcases Nat.lt_succ_iff_lt_or_eq.mp below with earlier | rfl
          · obtain ⟨first, last, block, smaller⟩ := covers k earlier
            exact ⟨first, last, block, smaller.trans larger.le⟩
          · exact ⟨l, r, wide, le_rfl⟩
        · rename_i larger
          refine ⟨soundNew, grown, fun k below => ?_⟩
          rcases Nat.lt_succ_iff_lt_or_eq.mp below with earlier | rfl
          · exact covers k earlier
          · exact ⟨l, r, wide, not_lt.mp larger⟩
  exact each mat.cols le_rfl

/-- After some lines the heights are known, and the best block covers all columns. -/
structure Invariant (mat : Mat32f K) (count : Nat) (state : CropState) : Prop where
  heights : ∀ k < mat.cols, state.height k = some (columnHeight mat count k)
  sound : state.best.Sound mat
  covers : ∀ line < count, ∀ k < mat.cols, state.best.Covers mat (line + 1) k

theorem cropLine_invariant {mat : Mat32f K} {line : Nat} {state : CropState}
    (invariant : Invariant mat line state) (within : line < mat.rows) :
    ∃ next, cropLine mat state line = some next ∧ Invariant mat (line + 1) next := by
  obtain ⟨height, foundHeight, high⟩ := lineHeights_eq mat line invariant.heights
  obtain ⟨left, right, foundLeft, foundRight, widest⟩ :=
    line_widest high state.left state.right
  obtain ⟨best, foundBest, sound, grown, covers⟩ :=
    bestOfLine_covers high widest within invariant.sound
  refine ⟨⟨height, left, right, best⟩, ?_, high, sound, ?_⟩
  · rw [cropLine]
    simp [foundHeight, foundLeft, foundRight, foundBest]
  · intro earlier before k inside
    rcases Nat.lt_succ_iff_lt_or_eq.mp before with older | rfl
    · obtain ⟨l, r, wide, smaller⟩ := invariant.covers earlier older k inside
      exact ⟨l, r, wide, smaller.trans grown⟩
    · exact covers k inside

/-- All loops of all lines end inside their arrays. -/
theorem largest_invariant (mat : Mat32f K) (rows : 1 ≤ mat.rows) (cols : 1 ≤ mat.cols) :
    ∃ state, largest mat = some state ∧ Invariant mat mat.rows state := by
  have start : Invariant mat 0 ⟨IntArray.zeros mat.cols, IntArray.zeros mat.cols,
      IntArray.zeros mat.cols, ⟨0, 0, 0, 0, 0⟩⟩ :=
    ⟨fun k inside => if_pos inside, ⟨le_rfl, cols, rows, rfl, fun _ _ _ => Nat.zero_le _⟩,
      fun line impossible => absurd impossible (Nat.not_lt_zero line)⟩
  have each (count : Nat) (within : count ≤ mat.rows) : ∃ state,
      (List.range count).foldlM (cropLine mat) ⟨IntArray.zeros mat.cols,
        IntArray.zeros mat.cols, IntArray.zeros mat.cols, ⟨0, 0, 0, 0, 0⟩⟩ = some state ∧
      Invariant mat count state := by
    induction count with
    | zero => exact ⟨_, rfl, start⟩
    | succ count ih =>
        obtain ⟨state, found, invariant⟩ := ih (Nat.le_of_succ_le within)
        obtain ⟨next, stepped, onward⟩ := cropLine_invariant invariant within
        refine ⟨next, ?_, onward⟩
        rw [List.range_succ, List.foldlM_append, found]
        simp [stepped]
  exact each mat.rows le_rfl

/-- A full rectangle is not larger than the block around its lowest column. -/
theorem area_le {mat : Mat32f K} {best : Best}
    (covers : ∀ line < mat.rows, ∀ k < mat.cols, best.Covers mat (line + 1) k)
    {other : Rectangle} (inside : other.Inside mat) (full : other.Full mat) :
    other.area ≤ best.maxarea := by
  rcases Nat.eq_zero_or_pos other.width with narrow | wide
  · rw [Rectangle.area, narrow, Nat.zero_mul]
    exact Nat.zero_le _
  rcases Nat.eq_zero_or_pos other.height with flat | tall
  · rw [Rectangle.area, flat, Nat.mul_zero]
    exact Nat.zero_le _
  have bottom : other.top + other.height - 1 < mat.rows := by
    have within := inside.1
    omega
  have line : other.top + other.height - 1 + 1 = other.top + other.height := by
    omega
  have high (c : Nat) (above : other.left ≤ c) (below : c < other.left + other.width) :
      other.height ≤ columnHeight mat (other.top + other.height) c := by
    rw [le_columnHeight_iff]
    exact ⟨Nat.le_add_left _ _, fun r after before => full r c (by omega) before above below⟩
  obtain ⟨k, member, lowest⟩ := Finset.exists_min_image
    (Finset.Ico other.left (other.left + other.width))
    (columnHeight mat (other.top + other.height)) ⟨other.left, by simp [wide]⟩
  rw [Finset.mem_Ico] at member
  have lowestAt (c : Nat) (above : other.left ≤ c) (below : c < other.left + other.width) :=
    lowest c (Finset.mem_Ico.mpr ⟨above, below⟩)
  have within := inside.2
  obtain ⟨l, r, block, smaller⟩ := covers _ bottom k (by omega)
  rw [line] at block smaller
  have first : l ≤ other.left :=
    block.first other.left member.1 fun c above below => lowestAt c above (by omega)
  have last : other.left + other.width - 1 ≤ r :=
    block.last (other.left + other.width - 1) (by omega) (by omega)
      fun c above below => lowestAt c (by omega) (by omega)
  have columns : other.width ≤ r - l + 1 := by
    omega
  exact (Nat.mul_le_mul columns (high k member.1 member.2)).trans smaller

/-- The cropped image is a largest rectangle without empty pixels. -/
theorem crop_largest_rectangle (mat : Mat32f K) (rows : 1 ≤ mat.rows) (cols : 1 ≤ mat.cols) :
    ∃ (place : Rectangle) (ret : Mat32f K), crop mat = some ret ∧
      place.Inside mat ∧ place.Full mat ∧
      (∀ other : Rectangle, other.Inside mat → other.Full mat → other.area ≤ place.area) ∧
      ret.rows = place.height ∧ ret.cols = place.width ∧
      (∀ i j, ret.pixel i j = mat.pixel (i + place.top) (j + place.left)) ∧
      ((∀ r < mat.rows, ∀ c < mat.cols, Empty (mat.pixel r c)) → ret.rows = 0) := by
  obtain ⟨state, found, invariant⟩ := largest_invariant mat rows cols
  have sound := invariant.sound
  have tall : state.best.hh ≤ state.best.nl + 1 :=
    ((le_columnHeight_iff mat _ _ _).mp (sound.full state.best.ll le_rfl sound.ordered)).1
  have full : (Rectangle.mk (state.best.nl + 1 - state.best.hh) state.best.ll state.best.hh
      (state.best.rr - state.best.ll + 1)).Full mat := by
    intro r c below above after before
    have ordered := sound.ordered
    simp only at below above after before
    have column := (le_columnHeight_iff mat _ _ _).mp (sound.full c after (by omega))
    exact column.2 r below (by omega)
  have cropped : crop mat = some ⟨state.best.hh, state.best.rr - state.best.ll + 1, fun i j =>
      mat.pixel (i + (state.best.nl + 1 - state.best.hh)) (j + state.best.ll)⟩ := by
    rw [crop, found]
    rfl
  refine ⟨_, _, cropped, ⟨?_, ?_⟩, full, ?_, rfl, rfl, fun _ _ => rfl, ?_⟩
  · have within := sound.line
    simp only
    omega
  · have within := sound.inside
    have ordered := sound.ordered
    simp only
    omega
  · intro other inside filled
    exact (area_le invariant.covers inside filled).trans sound.area.le
  · intro empty
    simp only
    by_contra some
    have within := sound.line
    have ordered := sound.ordered
    have inside := sound.inside
    refine full state.best.nl state.best.ll ?_ ?_ le_rfl ?_ (empty _ within _ ?_)
    · simp only
      omega
    · simp only
      omega
    · simp only
      omega
    · omega

/-- One corner of this image is empty. -/
def cornered : Mat32f ℤ := ⟨2, 2, fun r c => if r = 0 ∧ c = 0 then fun _ => -1 else fun _ => 0⟩

theorem crop_largest_rectangle_cornered : ∃ (place : Rectangle) (ret : Mat32f ℤ),
    crop cornered = some ret ∧ ret.rows = place.height ∧ ret.cols = place.width ∧
      2 ≤ place.area := by
  obtain ⟨place, ret, cropped, -, -, largest, rows, cols, -, -⟩ :=
    crop_largest_rectangle cornered (by decide) (by decide)
  refine ⟨place, ret, cropped, rows, cols, largest ⟨1, 0, 1, 2⟩ ⟨by decide, by decide⟩ ?_⟩
  intro r c below _ _ _ empty
  have second : ¬ (r = 0 ∧ c = 0) := fun first => absurd below (by simp [first.1])
  have negative := empty 0
  rw [cornered] at negative
  simp [second] at negative

end CodeCollect.OpenPano.Crop
