import CodeCollect.AffineTransform.WarpImg

namespace CodeCollect.AffineTransform.WarpImg

open Library

section Transform

variable {K P : Type} [Field K] (self : WarpImg K P)

theorem T_eq : self.T = !![self.scale * self.cos, -(self.scale * self.sin), 0;
    self.scale * self.sin, self.scale * self.cos, 0; 0, 0, 1] := by
  rw [T, Trotate, Tscale]
  ext i j
  fin_cases i <;> fin_cases j <;> simp [Matrix.mul_apply, Fin.sum_univ_three, mul_comm]

theorem pointT_eq (h w : K) : self.pointT h w =
    ![self.scale * self.cos * h - self.scale * self.sin * w,
      self.scale * self.sin * h + self.scale * self.cos * w, 1] := by
  rw [pointT, T_eq]
  ext i
  fin_cases i <;> simp [Matrix.mulVec, dotProduct, Fin.sum_univ_three]
  ring

theorem det_T : self.T.det = self.scale ^ 2 := by
  rw [T_eq, Matrix.det_fin_three]
  simp
  linear_combination self.scale ^ 2 * self.rotation

theorem InvT_mul : self.InvT * self.T = 1 := by
  have invertible : self.T.det ≠ 0 := by
    rw [det_T]
    exact pow_ne_zero 2 self.scale_ne_zero
  rw [InvT, Matrix.smul_mul, Matrix.adjugate_mul, smul_smul, inv_mul_cancel₀ invertible, one_smul]

/-- Only one point has a given image. -/
theorem pointT_eq_iff (h w x y : K) :
    self.pointT h w = ![x, y, 1] ↔ self.InvT.mulVec ![x, y, 1] = ![h, w, 1] := by
  constructor
  · intro sent
    rw [← sent, pointT, Matrix.mulVec_mulVec, InvT_mul, Matrix.one_mulVec]
  · intro back
    rw [pointT, ← back, Matrix.mulVec_mulVec, mul_eq_one_comm.mp self.InvT_mul, Matrix.one_mulVec]

/-- This is the inverse of the transformation, written out. -/
theorem InvT_mulVec (x y : K) : self.InvT.mulVec ![x, y, 1] =
    ![(self.cos * x + self.sin * y) / self.scale, (self.cos * y - self.sin * x) / self.scale, 1] := by
  rw [← pointT_eq_iff, pointT_eq]
  have nonzero := self.scale_ne_zero
  have unit := self.rotation
  ext i
  fin_cases i
  · simp
    field_simp
    linear_combination x * unit
  · simp
    field_simp
    linear_combination y * unit
  · rfl

end Transform

section Places

variable {K : Type} [Field K] [LinearOrder K] [IsStrictOrderedRing K] [FloorRing K]

theorem floor_half (m : Int) : ⌊(m : K) / 2⌋ = m / 2 := by
  simpa using Int.floor_div_natCast (m : K) 2

theorem firstPlace_eq (anchor : Int) (size : Nat) :
    firstPlace (K := K) anchor size = (2 * anchor + 2 - size) / 2 := by
  rw [firstPlace, ← floor_half (K := K)]
  congr 1
  push_cast
  ring

theorem lastPlace_eq (anchor : Int) (size : Nat) :
    lastPlace (K := K) anchor size = (2 * anchor + size) / 2 := by
  rw [lastPlace, ← floor_half (K := K)]
  congr 1
  push_cast
  ring

/-- The window has as many places as it should. -/
theorem window_size (anchor : Int) (size : Nat) :
    lastPlace (K := K) anchor size - firstPlace (K := K) anchor size + 1 = size := by
  rw [firstPlace_eq, lastPlace_eq]
  omega

theorem mem_upTo {first last i : Int} : i ∈ upTo first last ↔ first ≤ i ∧ i ≤ last := by
  rw [upTo, List.mem_map]
  constructor
  · rintro ⟨step, inside, rfl⟩
    rw [List.mem_range] at inside
    omega
  · rintro ⟨low, high⟩
    exact ⟨(i - first).toNat, List.mem_range.mpr (by omega), by omega⟩

theorem nodup_upTo (first last : Int) : (upTo first last).Nodup := by
  apply List.Nodup.map
  · intro step other same
    exact Int.ofNat_inj.mp (Int.add_left_cancel same)
  · exact List.nodup_range

end Places

section Rendering

variable {K P : Type} [Field K] [LinearOrder K] [FloorRing K] {self : WarpImg K P}

/-- The loops write no pixel twice. -/
theorem nodup_writes {rows cols : List Int} (rowsNodup : rows.Nodup) (colsNodup : cols.Nodup)
    (shift : Int × Int) : ((self.writes rows cols shift).map Prod.fst).Nodup := by
  have places : (self.writes rows cols shift).map Prod.fst =
      ((rows.product cols).filter fun place => self.InSource (self.newpoint place.1 place.2)).map
        fun place => (place.1 - shift.1, place.2 - shift.2) := by
    rw [writes, List.map_filterMap, ← List.filterMap_eq_map, ← List.filterMap_eq_filter,
      List.filterMap_filterMap]
    apply List.filterMap_congr
    intro place _
    dsimp only
    split <;> simp_all [Option.guard]
  rw [places]
  apply List.Nodup.map
  · intro place other same
    obtain ⟨row, col⟩ := Prod.mk.inj same
    exact Prod.ext (by omega) (by omega)
  · exact (List.Nodup.product rowsNodup colsNodup).filter _

variable [Zero P]

variable (self) in
/-- What both renderings show at a place of the whole image. -/
def shown (place : Int × Int) : P :=
  if self.InSource (self.newpoint place.1 place.2) then
    self.img (self.newpoint place.1 place.2).1 (self.newpoint place.1 place.2).2
  else 0

theorem mem_writes {rows cols : List Int} {shift : Int × Int} {write : (Int × Int) × P} :
    write ∈ self.writes rows cols shift ↔
      ∃ place : Int × Int, place.1 ∈ rows ∧ place.2 ∈ cols ∧
        self.InSource (self.newpoint place.1 place.2) ∧
          write = ((place.1 - shift.1, place.2 - shift.2), self.shown place) := by
  rw [writes, List.mem_filterMap]
  constructor
  · rintro ⟨place, member, found⟩
    dsimp only at found
    split at found
    · rename_i inSource
      obtain ⟨row, col⟩ := List.mem_product.mp member
      refine ⟨place, row, col, inSource, ?_⟩
      rw [shown, if_pos inSource]
      exact (Option.some.inj found).symm
    · exact absurd found nofun
  · rintro ⟨place, row, col, inSource, rfl⟩
    refine ⟨place, List.mem_product.mpr ⟨row, col⟩, ?_⟩
    dsimp only
    rw [if_pos inSource, shown, if_pos inSource]

/-- A rendering shows the same at every place of its rows and columns. -/
theorem paint_writes {rows cols : List Int} (shift : Int × Int) {place : Int × Int}
    (row : place.1 ∈ rows) (col : place.2 ∈ cols) :
    Painting.paint (fun _ => 0) (self.writes rows cols shift)
      (place.1 - shift.1, place.2 - shift.2) = self.shown place := by
  by_cases inSource : self.InSource (self.newpoint place.1 place.2)
  · apply Painting.paint_of_written
    · exact mem_writes.mpr ⟨place, row, col, inSource, rfl⟩
    · intro write member here
      obtain ⟨other, _, _, _, rfl⟩ := mem_writes.mp member
      obtain ⟨rowSame, colSame⟩ := Prod.mk.inj here
      rw [show other = place from Prod.ext (by omega) (by omega)]
  · rw [Painting.paint_of_unwritten, shown, if_neg inSource]
    intro write member here
    obtain ⟨other, _, _, otherIn, rfl⟩ := mem_writes.mp member
    obtain ⟨rowSame, colSame⟩ := Prod.mk.inj here
    rw [show other = place from Prod.ext (by omega) (by omega)] at otherIn
    exact inSource otherIn

end Rendering

section Agreement

variable {K P : Type} [Field K] [LinearOrder K] [FloorRing K] (self : WarpImg K P)

/-- The place belongs to the whole image. -/
def InWhole (place : Int × Int) : Prop :=
  (1 ≤ place.1 ∧ place.1 ≤ self.NewH) ∧ 1 ≤ place.2 ∧ place.2 ≤ self.NewW

instance (place : Int × Int) : Decidable (self.InWhole place) :=
  inferInstanceAs (Decidable ((_ ∧ _) ∧ _ ∧ _))

/-- The pixel belongs to the window. -/
def InWindow (pixel : Int × Int) : Prop :=
  (1 ≤ pixel.1 ∧ pixel.1 ≤ self.ActualH) ∧ 1 ≤ pixel.2 ∧ pixel.2 ≤ self.ActualW

/-- The place of the whole image that a pixel of the window stands for. -/
def placed (pixel : Int × Int) : Int × Int :=
  (pixel.1 + self.windowShift.1, pixel.2 + self.windowShift.2)

/-- The transformation is a rotation by a multiple of 90 degrees. -/
def QuarterTurn : Prop :=
  ∃ turn ∈ ([(1, 0), (0, 1), (-1, 0), (0, -1)] : List (K × K)),
    self.T = !![turn.1, -turn.2, 0; turn.2, turn.1, 0; 0, 0, 1]

/-- The check of the size passes, the window is written at most once at each pixel and nowhere else,
it shows the whole image with zeros outside, and a quarter turn loses and doubles no pixel. -/
structure Agrees [Zero P] (warp : WarpImg K P) : Prop where
  checked : warp.run = some (warp.ActualImg, warp.ImgOut)
  once : (warp.windowWrites.map Prod.fst).Nodup
  inside : ∀ write ∈ warp.windowWrites, warp.InWindow write.1
  same : ∀ pixel, warp.InWindow pixel → warp.ActualImg pixel =
    if warp.InWhole (warp.placed pixel) then warp.ImgOut (warp.placed pixel) else 0
  lossless : warp.QuarterTurn → ∀ point, warp.InSource point →
    ∃! place : Int × Int, warp.InWhole place ∧ warp.newpoint place.1 place.2 = point

/-- No pixel of the window beyond the whole image has its middle in the image of the square of a
source pixel that is not black, and the transformation is no quarter turn but the full one. -/
structure Fits [Zero P] (warp : WarpImg K P) : Prop where
  margin : ∀ pixel, warp.InWindow pixel → ¬ warp.InWhole (warp.placed pixel) →
    ∀ h w : K, warp.pointT h w = warp.middle (warp.placed pixel) →
      warp.InSource (⌊h⌋, ⌊w⌋) → warp.img ⌊h⌋ ⌊w⌋ = 0
  unturned : warp.QuarterTurn → warp.T = 1

variable {self}

/-- The source pixel of a place holds the point that is sent to the middle of the place. -/
theorem newpoint_of_sent {h w : K} {place : Int × Int}
    (sent : self.pointT h w = self.middle place) : self.newpoint place.1 place.2 = (⌊h⌋, ⌊w⌋) := by
  have back := (self.pointT_eq_iff h w _ _).mp sent
  rw [newpoint, middle, back]
  rfl

omit [FloorRing K] in
theorem sent_exists (place : Int × Int) : ∃ h w : K, self.pointT h w = self.middle place := by
  have back := self.InvT_mulVec (place.1 + self.offsetH + 1 / 2) (place.2 + self.offsetW + 1 / 2)
  exact ⟨_, _, (self.pointT_eq_iff _ _ _ _).mpr back⟩

/-- A place shows black exactly when the points sent to its middle meet no other pixel. -/
theorem shown_eq_zero_iff [Zero P] (place : Int × Int) :
    self.shown place = 0 ↔ ∀ h w : K, self.pointT h w = self.middle place →
      self.InSource (⌊h⌋, ⌊w⌋) → self.img ⌊h⌋ ⌊w⌋ = 0 := by
  constructor
  · intro black h w sent inSource
    rw [shown, newpoint_of_sent sent, if_pos inSource] at black
    exact black
  · intro black
    obtain ⟨h, w, sent⟩ : ∃ h w : K, self.pointT h w = self.middle place := sent_exists place
    rw [shown, newpoint_of_sent sent]
    split
    · rename_i inSource
      exact black h w sent inSource
    · rfl

theorem ImgOut_eq [Zero P] {place : Int × Int} (inWhole : self.InWhole place) :
    self.ImgOut place = self.shown place := by
  have painted : Painting.paint (fun _ => 0) (self.writes (upTo 1 self.NewH) (upTo 1 self.NewW) (0, 0))
      (place.1 - 0, place.2 - 0) = self.shown place :=
    paint_writes (0, 0) (mem_upTo.mpr inWhole.1) (mem_upTo.mpr inWhole.2)
  simpa [ImgOut] using painted

variable [IsStrictOrderedRing K]

theorem placed_mem {pixel : Int × Int} (inWindow : self.InWindow pixel) :
    (self.placed pixel).1 ∈ self.windowRows ∧ (self.placed pixel).2 ∈ self.windowCols := by
  have rows := window_size (K := K) self.anchorH self.ActualH
  have cols := window_size (K := K) self.anchorW self.ActualW
  obtain ⟨row, col⟩ := inWindow
  constructor
  · rw [windowRows, mem_upTo, placed, windowShift]
    dsimp only
    omega
  · rw [windowCols, mem_upTo, placed, windowShift]
    dsimp only
    omega

theorem ActualImg_eq [Zero P] {pixel : Int × Int} (inWindow : self.InWindow pixel) :
    self.ActualImg pixel = self.shown (self.placed pixel) := by
  obtain ⟨row, col⟩ := placed_mem inWindow
  have painted : Painting.paint (fun _ => 0) self.windowWrites
      ((self.placed pixel).1 - self.windowShift.1, (self.placed pixel).2 - self.windowShift.2) =
        self.shown (self.placed pixel) := paint_writes self.windowShift row col
  simpa [ActualImg, placed] using painted

theorem windowWrites_inside [Zero P] {write : (Int × Int) × P}
    (member : write ∈ self.windowWrites) : self.InWindow write.1 := by
  have rows := window_size (K := K) self.anchorH self.ActualH
  have cols := window_size (K := K) self.anchorW self.ActualW
  obtain ⟨place, row, col, _, rfl⟩ := mem_writes.mp member
  rw [windowRows, mem_upTo] at row
  rw [windowCols, mem_upTo] at col
  rw [InWindow, windowShift]
  dsimp only
  omega

/-- The window shows the whole image with zeros outside exactly when it shows nothing beyond it. -/
theorem same_iff [Zero P] : (∀ pixel, self.InWindow pixel → self.ActualImg pixel =
      if self.InWhole (self.placed pixel) then self.ImgOut (self.placed pixel) else 0) ↔
    ∀ pixel, self.InWindow pixel → ¬ self.InWhole (self.placed pixel) →
      self.shown (self.placed pixel) = 0 := by
  apply forall_congr'
  intro pixel
  apply imp_congr_right
  intro inWindow
  rw [ActualImg_eq inWindow]
  split
  · rename_i inWhole
    simp [ImgOut_eq inWhole, inWhole]
  · rename_i beyond
    simp [beyond]

end Agreement

section Turns

variable {K P : Type} [Field K] {self : WarpImg K P} {c s : K}

theorem corners_of_turn (cosine : self.scale * self.cos = c) (sine : self.scale * self.sin = s) :
    self.corners rowOf = [0, -(s * self.width), c * self.height, c * self.height - s * self.width] ∧
      self.corners colOf = [0, c * self.width, s * self.height, s * self.height + c * self.width] := by
  simp [corners, pointT_eq, cosine, sine]

variable [LinearOrder K] [IsStrictOrderedRing K] [FloorRing K]

theorem newpoint_of_turn (cosine : self.scale * self.cos = c) (sine : self.scale * self.sin = s)
    (unit : c ^ 2 + s ^ 2 = 1) (i j : Int) :
    self.newpoint i j =
      (⌊c * (i + self.offsetH + 1 / 2) + s * (j + self.offsetW + 1 / 2)⌋,
        ⌊c * (j + self.offsetW + 1 / 2) - s * (i + self.offsetH + 1 / 2)⌋) := by
  have nonzero := self.scale_ne_zero
  have size : self.scale ^ 2 = 1 := by
    rw [← unit, ← cosine, ← sine]
    linear_combination -self.scale ^ 2 * self.rotation
  have quotient : ∀ x y : K, (self.cos * x + self.sin * y) / self.scale = c * x + s * y := by
    intro x y
    rw [div_eq_iff nonzero, ← cosine, ← sine]
    linear_combination -(self.cos * x + self.sin * y) * size
  rw [newpoint, middle, InvT_mulVec]
  apply Prod.ext
  · exact congrArg Int.floor (quotient _ _)
  · apply congrArg Int.floor
    have turned := quotient (self.offsetW + j + 1 / 2) (-(self.offsetH + i + 1 / 2))
    simp
    linear_combination turned

theorem floor_middle (i : Int) : ⌊(i + 1 / 2 : K)⌋ = i := by
  rw [Int.floor_eq_iff]
  constructor <;> linarith

theorem floor_turned (i : Int) (n : Nat) : ⌊-((i : K) + -n + 1 / 2)⌋ = n - i - 1 := by
  rw [Int.floor_eq_iff]
  push_cast
  constructor <;> linarith

/-- A turn that is not the full one leaves out the last row or the last column. -/
theorem not_lossless_of_turn (turn : self.QuarterTurn) (turned : self.T ≠ 1) :
    ∃ point, self.InSource point ∧
      ∀ place : Int × Int, self.InWhole place → self.newpoint place.1 place.2 ≠ point := by
  obtain ⟨⟨c, s⟩, member, same⟩ := turn
  have entries := same
  rw [T_eq] at entries
  have cosine : self.scale * self.cos = c := congrFun (congrFun entries 0) 0
  have sine : self.scale * self.sin = s := congrFun (congrFun entries 1) 0
  have tall := self.height_pos
  have wide := self.width_pos
  obtain ⟨cornersH, cornersW⟩ := corners_of_turn cosine sine
  have last : self.InSource (self.height, self.width) := by
    simp [InSource]
    omega
  refine ⟨_, last, ?_⟩
  rintro ⟨i, j⟩ ⟨⟨low, _⟩, left, _⟩ found
  simp only [List.mem_cons, Prod.mk.injEq, List.not_mem_nil, or_false] at member
  rcases member with ⟨rfl, rfl⟩ | ⟨rfl, rfl⟩ | ⟨rfl, rfl⟩ | ⟨rfl, rfl⟩
  · apply turned
    rw [same]
    ext row col
    fin_cases row <;> fin_cases col <;> simp
  · have offset : self.offsetH = -self.width := by
      simp [offsetH, cornersH, least]
    rw [newpoint_of_turn cosine sine (by norm_num), offset] at found
    have column := congrArg Prod.snd found
    simp only [zero_mul, one_mul, zero_sub, floor_turned] at column
    omega
  · have offset : self.offsetH = -self.height := by
      simp [offsetH, cornersH, least]
    rw [newpoint_of_turn cosine sine (by norm_num), offset] at found
    have row := congrArg Prod.fst found
    simp only [zero_mul, add_zero, neg_mul, one_mul, floor_turned] at row
    omega
  · have offset : self.offsetW = -self.height := by
      simp [offsetW, cornersW, least]
    rw [newpoint_of_turn cosine sine (by norm_num), offset] at found
    have row := congrArg Prod.fst found
    simp only [zero_mul, zero_add, neg_mul, one_mul, floor_turned] at row
    omega

/-- Without a turn the whole image is the source. -/
theorem lossless_of_unturned (unturned : self.T = 1) (point : Int × Int)
    (inSource : self.InSource point) :
    ∃! place : Int × Int, self.InWhole place ∧ self.newpoint place.1 place.2 = point := by
  have entries := unturned
  rw [T_eq] at entries
  have cosine : self.scale * self.cos = 1 := congrFun (congrFun entries 0) 0
  have sine : self.scale * self.sin = 0 := congrFun (congrFun entries 1) 0
  obtain ⟨cornersH, cornersW⟩ := corners_of_turn cosine sine
  have offsetH : self.offsetH = 0 := by
    simp [WarpImg.offsetH, cornersH, least]
  have offsetW : self.offsetW = 0 := by
    simp [WarpImg.offsetW, cornersW, least]
  have rows : self.NewH = self.height := by
    simp [NewH, offsetH, maxH, cornersH, greatest]
  have cols : self.NewW = self.width := by
    simp [NewW, offsetW, maxW, cornersW, greatest]
  have points : ∀ i j, self.newpoint i j = (i, j) := by
    intro i j
    rw [newpoint_of_turn cosine sine (by norm_num), offsetH, offsetW]
    simp only [one_mul, zero_mul, add_zero, sub_zero, floor_middle]
  refine ⟨point, ⟨?_, points _ _⟩, ?_⟩
  · obtain ⟨top, bottom, left, right⟩ := inSource
    rw [InWhole, rows, cols]
    exact ⟨⟨top, bottom⟩, left, right⟩
  · rintro place ⟨_, found⟩
    rw [points] at found
    exact found

end Turns

section Claim

variable {K P : Type} [Field K] [LinearOrder K] [IsStrictOrderedRing K] [FloorRing K] [Zero P]

/-- The two renderings agree and quarter turns lose nothing exactly when the window shows no source
pixel beyond the whole image and no turn takes place. -/
theorem agrees_iff (self : WarpImg K P) : self.Agrees ↔ self.Fits := by
  constructor
  · intro agrees
    constructor
    · intro pixel inWindow beyond
      exact (shown_eq_zero_iff _).mp (same_iff.mp agrees.same pixel inWindow beyond)
    · intro turn
      by_contra turned
      obtain ⟨point, inSource, missed⟩ := not_lossless_of_turn turn turned
      obtain ⟨place, ⟨inWhole, found⟩, _⟩ := agrees.lossless turn point inSource
      exact missed place inWhole found
  · intro fits
    constructor
    · rw [run, ImgTh, ImgTw, window_size, window_size]
      simp
    · exact nodup_writes (nodup_upTo _ _) (nodup_upTo _ _) _
    · intro write member
      exact windowWrites_inside member
    · apply same_iff.mpr
      intro pixel inWindow beyond
      exact (shown_eq_zero_iff _).mpr (fits.margin pixel inWindow beyond)
    · intro turn
      exact lossless_of_unturned (fits.unturned turn)

section Examples

/-- A source of one white pixel, in a window of five by five. -/
def whitePixel (scale : ℚ) (nonzero : scale ≠ 0) : WarpImg ℚ Nat where
  height := 1
  width := 1
  img _ _ := 255
  ActualH := 5
  ActualW := 5
  scale := scale
  cos := 1
  sin := 0
  transh := 0
  transw := 0
  height_pos := Nat.one_pos
  width_pos := Nat.one_pos
  scale_ne_zero := nonzero
  rotation := by norm_num

/-- As large as it is, the source shows nothing beyond the whole image. -/
theorem agrees_unscaled : (whitePixel 1 one_ne_zero).Agrees := by
  have cosine : (whitePixel 1 one_ne_zero).scale * (whitePixel 1 one_ne_zero).cos = 1 := mul_one 1
  have sine : (whitePixel 1 one_ne_zero).scale * (whitePixel 1 one_ne_zero).sin = 0 := mul_zero 1
  obtain ⟨cornersH, cornersW⟩ := corners_of_turn cosine sine
  have offsetH : (whitePixel 1 one_ne_zero).offsetH = 0 := by
    simp [offsetH, cornersH, least]
  have offsetW : (whitePixel 1 one_ne_zero).offsetW = 0 := by
    simp [offsetW, cornersW, least]
  have rows : (whitePixel 1 one_ne_zero).NewH = 1 := by
    rw [NewH, offsetH, maxH, cornersH]
    norm_num [greatest, whitePixel]
  have cols : (whitePixel 1 one_ne_zero).NewW = 1 := by
    rw [NewW, offsetW, maxW, cornersW]
    norm_num [greatest, whitePixel]
  apply (agrees_iff (whitePixel 1 one_ne_zero)).mpr
  constructor
  · intro pixel _ beyond h w sent inSource
    generalize (whitePixel 1 one_ne_zero).placed pixel = place at beyond sent
    rw [pointT_eq, middle, offsetH, offsetW] at sent
    have row : h = place.1 + 1 / 2 := by
      simpa [whitePixel] using congrFun sent 0
    have col : w = place.2 + 1 / 2 := by
      simpa [whitePixel] using congrFun sent 1
    rw [row, col, floor_middle, floor_middle] at inSource
    obtain ⟨top, bottom, left, right⟩ := inSource
    exact absurd ⟨⟨top, rows ▸ bottom⟩, left, cols ▸ right⟩ beyond
  · intro _
    rw [T_eq]
    ext row col
    fin_cases row <;> fin_cases col <;> simp [whitePixel]

/-- Twice as large, the source shows in the window in a row that the whole image does not have. -/
theorem not_agrees_doubled : ¬ (whitePixel 2 two_ne_zero).Agrees := by
  intro agrees
  have cosine : (whitePixel 2 two_ne_zero).scale * (whitePixel 2 two_ne_zero).cos = 2 := mul_one 2
  have sine : (whitePixel 2 two_ne_zero).scale * (whitePixel 2 two_ne_zero).sin = 0 := mul_zero 2
  obtain ⟨cornersH, cornersW⟩ := corners_of_turn cosine sine
  have offsetH : (whitePixel 2 two_ne_zero).offsetH = 0 := by
    simp [offsetH, cornersH, least]
  have offsetW : (whitePixel 2 two_ne_zero).offsetW = 0 := by
    simp [offsetW, cornersW, least]
  have rows : (whitePixel 2 two_ne_zero).NewH = 2 := by
    rw [NewH, offsetH, maxH, cornersH]
    norm_num [greatest, whitePixel]
  have anchorH : (whitePixel 2 two_ne_zero).anchorH = 1 := by
    rw [anchorH, offsetH, centerpoint, pointT_eq]
    norm_num [whitePixel]
  have anchorW : (whitePixel 2 two_ne_zero).anchorW = 1 := by
    rw [anchorW, offsetW, centerpoint, pointT_eq]
    norm_num [whitePixel]
  have place : (whitePixel 2 two_ne_zero).placed (5, 5) = (3, 3) := by
    rw [placed, windowShift, anchorH, anchorW, firstPlace_eq, firstPlace_eq]
    rfl
  have inWindow : (whitePixel 2 two_ne_zero).InWindow (5, 5) := by
    simp [InWindow, whitePixel]
  have beyond : ¬ (whitePixel 2 two_ne_zero).InWhole ((whitePixel 2 two_ne_zero).placed (5, 5)) := by
    rw [place, InWhole, rows]
    simp
  have sent : (whitePixel 2 two_ne_zero).pointT (7 / 4) (7 / 4) =
      (whitePixel 2 two_ne_zero).middle ((whitePixel 2 two_ne_zero).placed (5, 5)) := by
    rw [place, pointT_eq, middle, offsetH, offsetW]
    norm_num [whitePixel]
  have black := same_iff.mp agrees.same (5, 5) inWindow beyond
  have white := (shown_eq_zero_iff _).mp black _ _ sent
  norm_num [InSource, whitePixel] at white

end Examples

end Claim

end CodeCollect.AffineTransform.WarpImg
