import LinuxOddsAndEnds.Foundation.Painter
import LinuxOddsAndEnds.Oled.BufferBits

/-!
# What the drawing functions paint

`pixel d (i, j)` is the bit that the buffer holds for column `i` and row `j`; together
with byte 0 these bits are the whole buffer. `Paints d d' shape color` says that `d'` is
`d` with the pixels of `shape` set to `color`, that nothing else has changed, and that
only indices of the frame were touched. The drawing functions paint the shapes that
their parameters describe, clipped to the screen where the source clips.
-/

namespace LinuxOddsAndEnds.Oled

open Foundation

/-- The bit of column `p.1` and row `p.2`. -/
def pixel (d : Ssd1305Data) (p : ℕ × ℕ) : Bool :=
  (d.buffer (p.2 / 8 * d.width.toNat + p.1 + 1)).getLsbD (p.2 % 8)

/-- The pages hold all rows. -/
def Geometry (d : Ssd1305Data) : Prop := d.pages.toNat = (d.height.toNat + 7) / 8

def screen (d : Ssd1305Data) : Set (ℕ × ℕ) := {p | p.1 < d.width.toNat ∧ p.2 < d.height.toNat}

/-- `[x, min(x + w, width)) × [y, min(y + h, height))`. -/
def clipped (d : Ssd1305Data) (x y w h : Byte) : Set (ℕ × ℕ) :=
  {p | (x.toNat ≤ p.1 ∧ p.1 < min (x.toNat + w.toNat) d.width.toNat) ∧
    y.toNat ≤ p.2 ∧ p.2 < min (y.toNat + h.toNat) d.height.toNat}

/-- The outermost columns and rows of the clipped rectangle. -/
def outline (d : Ssd1305Data) (x y w h : Byte) : Set (ℕ × ℕ) :=
  {p | p ∈ clipped d x y w h ∧
    ((p.1 = x.toNat ∨ p.1 + 1 = min (x.toNat + w.toNat) d.width.toNat) ∨
      p.2 = y.toNat ∨ p.2 + 1 = min (y.toNat + h.toNat) d.height.toNat)}

/-- What `rect` draws, by its `fill` argument. -/
def rectShape (d : Ssd1305Data) (x y w h fill : Byte) : Set (ℕ × ℕ) :=
  if fill ≠ 0#8 then clipped d x y w h else outline d x y w h

theorem mem_clipped {d : Ssd1305Data} {x y w h : Byte} {p : ℕ × ℕ} :
    p ∈ clipped d x y w h ↔ (x.toNat ≤ p.1 ∧ p.1 < min (x.toNat + w.toNat) d.width.toNat) ∧
      y.toNat ≤ p.2 ∧ p.2 < min (y.toNat + h.toNat) d.height.toNat := Iff.rfl

theorem mem_outline {d : Ssd1305Data} {x y w h : Byte} {p : ℕ × ℕ} :
    p ∈ outline d x y w h ↔ p ∈ clipped d x y w h ∧
      ((p.1 = x.toNat ∨ p.1 + 1 = min (x.toNat + w.toNat) d.width.toNat) ∨
        p.2 = y.toNat ∨ p.2 + 1 = min (y.toNat + h.toNat) d.height.toNat) := Iff.rfl

theorem rectShape_subset (d : Ssd1305Data) (x y w h fill : Byte) :
    rectShape d x y w h fill ⊆ clipped d x y w h := by
  intro p hp
  rw [rectShape] at hp
  split_ifs at hp
  · exact hp
  · exact hp.1

theorem clipped_subset_screen (d : Ssd1305Data) (x y w h : Byte) :
    clipped d x y w h ⊆ screen d := by
  intro p hp
  rw [mem_clipped] at hp
  exact ⟨by omega, by omega⟩

theorem clipped_eq_box_inter (d : Ssd1305Data) (x y w h : Byte) :
    clipped d x y w h = box x.toNat y.toNat w.toNat h.toNat ∩ screen d := by
  ext p
  simp only [mem_clipped, Set.mem_inter_iff, mem_box, screen, Set.mem_ofPred_eq]
  omega

theorem clipped_eq_empty {d : Ssd1305Data} {x y w h : Byte}
    (hoff : w = 0#8 ∨ h = 0#8 ∨ d.width ≤ x ∨ d.height ≤ y) : clipped d x y w h = ∅ := by
  ext p
  rw [mem_clipped, Set.mem_empty_iff_false, iff_false]
  rw [BitVec.le_def, BitVec.le_def] at hoff
  rcases hoff with rfl | rfl | hx | hy
  · rw [BitVec.toNat_ofNat]
    omega
  · rw [BitVec.toNat_ofNat]
    omega
  · omega
  · omega

theorem pixel_eq (d : Ssd1305Data) (p : ℕ × ℕ) : pixel d p = bit d (cellOf d p) := rfl

theorem getPixel_eq (d : Ssd1305Data) (x y : Byte) :
    getPixel d x y = (pixel d (x.toNat, y.toNat)).toNat := by
  rw [getPixel, pixel, byteIndex_eq, bitOffset_eq, BitVec.toNat_and, BitVec.toNat_ushiftRight,
    BitVec.getLsbD, Nat.testBit]
  rcases Nat.mod_two_eq_zero_or_one
    ((d.buffer (y.toNat / 8 * d.width.toNat + x.toNat + 1)).toNat >>> (y.toNat % 8)) with h | h <;>
    simp [Nat.and_one_is_mod, h]

theorem row_lt_iff {w a b i : ℕ} (hi : i < w) : a * w + i < b * w ↔ a < b := by
  constructor
  · intro h
    by_contra hba
    have hle := Nat.mul_le_mul_right w (Nat.le_of_not_lt hba)
    omega
  · intro h
    have hle := Nat.mul_le_mul_right w (Nat.succ_le_of_lt h)
    rw [Nat.succ_mul] at hle
    omega

def InFrame (d : Ssd1305Data) (index : ℕ) : Prop :=
  1 ≤ index ∧ index ≤ d.pages.toNat * d.width.toNat

structure Paints (d d' : Ssd1305Data) (shape : Set (ℕ × ℕ)) (color : Bool) : Prop where
  height : d'.height = d.height
  pages : d'.pages = d.pages
  width : d'.width = d.width
  prefixByte : d'.buffer 0 = d.buffer 0
  inside : ∀ p ∈ shape, p.1 < d.width.toNat → pixel d' p = color
  outside : ∀ p ∉ shape, p.1 < d.width.toNat → pixel d' p = pixel d p
  touched : ∃ new, d'.touched = d.touched ++ new ∧ ∀ i ∈ new, InFrame d i

theorem Paints.congr {d d' : Ssd1305Data} {A B : Set (ℕ × ℕ)} {c : Bool} (h : Paints d d' A c)
    (hAB : ∀ p : ℕ × ℕ, p.1 < d.width.toNat → (p ∈ B ↔ p ∈ A)) : Paints d d' B c :=
  { h with inside := fun p hp hw => h.inside p ((hAB p hw).mp hp) hw
           outside := fun p hp hw => h.outside p (fun hA => hp ((hAB p hw).mpr hA)) hw }

section Shapes

variable {d : Ssd1305Data}

theorem Recolours.paints {d' : Ssd1305Data} {A : Set (ℕ × ℕ)} {c : Bool}
    (h : Recolours d d' (cellOf d '' A) c)
    (hA : ∀ p ∈ A, p.1 < d.width.toNat ∧ p.2 / 8 < d.pages.toNat) : Paints d d' A c := by
  obtain ⟨new, hnew, hcells⟩ := h.touched
  refine ⟨h.height, h.pages, h.width, ?_, ?_, ?_, new, hnew, ?_⟩
  · apply BitVec.eq_of_getLsbD_eq
    intro k _
    refine h.outside (0, k) ?_
    rintro ⟨p, -, hp⟩
    exact Nat.succ_ne_zero _ (Prod.mk.inj hp).1
  · intro p hp _
    rw [pixel_eq, h.cellOf_eq]
    exact h.inside _ ⟨p, hp, rfl⟩
  · intro p hp hcol
    rw [pixel_eq, h.cellOf_eq]
    apply h.outside
    rintro ⟨q, hq, hqp⟩
    exact hp (cellOf_inj (hA q hq).1 hcol hqp ▸ hq)
  · intro i hi
    obtain ⟨k, p, hp, hpi⟩ := hcells i hi
    obtain ⟨hcol, hpage⟩ := hA p hp
    obtain ⟨rfl, -⟩ := Prod.mk.inj hpi
    exact ⟨Nat.succ_pos _, (row_lt_iff hcol).mpr hpage⟩

theorem setPixel_paints (hg : Geometry d) {x y : Byte} (hx : x < d.width) (hy : y < d.height)
    (color : Byte) :
    Paints d (setPixel d x y color) {(x.toNat, y.toNat)} (decide (color ≠ 0#8)) := by
  rw [BitVec.lt_def] at hx hy
  rw [Geometry] at hg
  have hset := setPixel_recolours d x y color
  rw [← Set.image_singleton] at hset
  apply hset.paints
  rintro p rfl
  exact ⟨hx, by omega⟩

/-- Wherever its index falls in the frame, `set_pixel` paints one pixel: off the screen it
is one that the coordinates do not name. -/
theorem setPixel_paints_alias {x y : Byte}
    (h : byteIndex d x y < d.pages.toNat * d.width.toNat) (color : Byte) :
    Paints d (setPixel d x y color)
      {(byteIndex d x y % d.width.toNat, byteIndex d x y / d.width.toNat * 8 + y.toNat % 8)}
      (decide (color ≠ 0#8)) := by
  have hw : 0 < d.width.toNat := by
    rcases Nat.eq_zero_or_pos d.width.toNat with h0 | h0
    · rw [h0, Nat.mul_zero] at h
      exact absurd h (Nat.not_lt_zero _)
    · exact h0
  have hpage : byteIndex d x y / d.width.toNat < d.pages.toNat :=
    Nat.div_lt_of_lt_mul (by rwa [Nat.mul_comm])
  have hdiv : (byteIndex d x y / d.width.toNat * 8 + y.toNat % 8) / 8 =
      byteIndex d x y / d.width.toNat := by omega
  have hmod : (byteIndex d x y / d.width.toNat * 8 + y.toNat % 8) % 8 = y.toNat % 8 := by omega
  have hcell : cellOf d (byteIndex d x y % d.width.toNat,
      byteIndex d x y / d.width.toNat * 8 + y.toNat % 8) = (byteIndex d x y + 1, bitOffset y) := by
    rw [cellOf, hdiv, hmod, Nat.div_add_mod', bitOffset_eq]
  have hset := setPixel_recolours d x y color
  rw [cellOf_toNat, ← hcell, ← Set.image_singleton] at hset
  apply hset.paints
  rintro p rfl
  exact ⟨Nat.mod_lt _ hw, by rwa [hdiv]⟩

/-- The last column or row of the clipped rectangle, in `int`. -/
def clipEnd (limit x w : Byte) : ℤ :=
  if (limit.toNat : ℤ) - 1 < x.toNat + w.toNat - 1 then (limit.toNat : ℤ) - 1
  else x.toNat + w.toNat - 1

/-- The end that `rect` passes on as `__u8`. -/
def clipLast (limit x w : Byte) : Byte := BitVec.ofInt 8 (clipEnd limit x w)

/-- The extent that `rect` passes on as `__u8`. -/
def clipExtent (limit x w : Byte) : Byte := BitVec.ofInt 8 (clipEnd limit x w - x.toNat + 1)

theorem toNat_clipLast {limit x w : Byte} (hx : x < limit) (hw : ¬w.toNat < 1) :
    (clipLast limit x w).toNat = min (x.toNat + w.toNat) limit.toNat - 1 := by
  rw [BitVec.lt_def] at hx
  have hl := limit.isLt
  rw [clipLast, BitVec.toNat_ofInt, clipEnd]
  split_ifs <;> omega

theorem toNat_clipExtent {limit x w : Byte} (hx : x < limit) (hw : ¬w.toNat < 1) :
    (clipExtent limit x w).toNat = min (x.toNat + w.toNat) limit.toNat - x.toNat := by
  rw [BitVec.lt_def] at hx
  have hl := limit.isLt
  rw [clipExtent, BitVec.toNat_ofInt, clipEnd]
  split_ifs <;> omega

/-- The outline as the source draws it, one strip over the other. -/
def fillStrips (d : Ssd1305Data) (x y right bottom columns rows color : Byte) : Ssd1305Data :=
  let d := fillRect d x y columns 1#8 color
  let d := fillRect d x y 1#8 rows color
  let d := fillRect d x bottom columns 1#8 color
  fillRect d right y 1#8 rows color

theorem rect_eq (d : Ssd1305Data) (x y w h color fill : Byte) :
    rect d x y w h color fill =
      if w.toNat < 1 ∨ h.toNat < 1 ∨ x.toNat + w.toNat ≤ 0 ∨ y.toNat + h.toNat ≤ 0 ∨
        d.height ≤ y ∨ d.width ≤ x then d
      else if fill ≠ 0#8 then
        fillRect d x y (clipExtent d.width x w) (clipExtent d.height y h) color
      else fillStrips d x y (clipLast d.width x w) (clipLast d.height y h)
        (clipExtent d.width x w) (clipExtent d.height y h) color := rfl

theorem fillStrips_recolours (d : Ssd1305Data) (x right columns color : Byte)
    {y bottom rows : Byte} (hrows : y.toNat + rows.toNat < 256) (hy : y.toNat + 1 < 256)
    (hbottom : bottom.toNat + 1 < 256) :
    Recolours d (fillStrips d x y right bottom columns rows color)
      (cellOf d '' (((box x.toNat y.toNat columns.toNat 1 ∪ box x.toNat y.toNat 1 rows.toNat) ∪
        box x.toNat bottom.toNat columns.toNat 1) ∪ box right.toNat y.toNat 1 rows.toNat))
      (decide (color ≠ 0#8)) := by
  have hyOne : y.toNat + (1#8).toNat < 256 := hy
  have hbottomOne : bottom.toNat + (1#8).toNat < 256 := hbottom
  have htop := fillRect_recolours d x columns color hyOne
  have hleft := fillRect_recolours (fillRect d x y columns 1#8 color) x 1#8 color hrows
  rw [htop.cellOf_eq] at hleft
  have hupper := htop.trans hleft
  have hlow := fillRect_recolours (fillRect (fillRect d x y columns 1#8 color) x y 1#8 rows color)
    x columns color hbottomOne
  rw [hupper.cellOf_eq] at hlow
  have hthree := hupper.trans hlow
  have hright := fillRect_recolours
    (fillRect (fillRect (fillRect d x y columns 1#8 color) x y 1#8 rows color) x bottom columns
      1#8 color) right 1#8 color hrows
  rw [hthree.cellOf_eq] at hright
  apply (hthree.trans hright).congr
  rw [Set.image_union, Set.image_union, Set.image_union]
  rfl

theorem rect_recolours (d : Ssd1305Data) (x y w h color fill : Byte) :
    Recolours d (rect d x y w h color fill) (cellOf d '' rectShape d x y w h fill)
      (decide (color ≠ 0#8)) := by
  rw [rect_eq]
  by_cases hoff : w.toNat < 1 ∨ h.toNat < 1 ∨ x.toNat + w.toNat ≤ 0 ∨ y.toNat + h.toNat ≤ 0 ∨
      d.height ≤ y ∨ d.width ≤ x
  · rw [if_pos hoff]
    apply (Recolours.refl d _).congr
    have hempty : clipped d x y w h = ∅ := by
      apply clipped_eq_empty
      simp only [← BitVec.toNat_inj, BitVec.toNat_ofNat, BitVec.le_def] at hoff ⊢
      omega
    have hsubset := rectShape_subset d x y w h fill
    rw [hempty] at hsubset
    rw [Set.image_eq_empty, Set.subset_empty_iff.mp hsubset]
  · rw [if_neg hoff]
    simp only [not_or, BitVec.not_le] at hoff
    obtain ⟨hw, hh, -, -, hy, hx⟩ := hoff
    have hcols := toNat_clipExtent hx hw
    have hrows := toNat_clipExtent hy hh
    have hright := toNat_clipLast hx hw
    have hbottom := toNat_clipLast hy hh
    rw [BitVec.lt_def] at hx hy
    have hlt := d.height.isLt
    rw [rectShape]
    split_ifs with hfill
    · apply (fillRect_recolours d x _ color (by omega)).congr
      apply congrArg
      ext p
      rw [mem_clipped, mem_box, hcols, hrows]
      omega
    · apply (fillStrips_recolours d x _ _ color (by omega) (by omega) (by omega)).congr
      apply congrArg
      ext p
      simp only [mem_outline, mem_clipped, Set.mem_union, mem_box, hcols, hrows, hright, hbottom]
      have hxr : x.toNat < min (x.toNat + w.toNat) d.width.toNat := by omega
      have hyb : y.toNat < min (y.toNat + h.toNat) d.height.toNat := by omega
      generalize min (x.toNat + w.toNat) d.width.toNat = right at hxr ⊢
      generalize min (y.toNat + h.toNat) d.height.toNat = bottom at hyb ⊢
      omega

theorem rect_paints (hg : Geometry d) (x y w h color : Byte) :
    Paints d (rect d x y w h color 1#8) (box x.toNat y.toNat w.toNat h.toNat ∩ screen d)
      (decide (color ≠ 0#8)) := by
  have hrect := rect_recolours d x y w h color 1#8
  have hshape : rectShape d x y w h 1#8 = box x.toNat y.toNat w.toNat h.toNat ∩ screen d :=
    clipped_eq_box_inter d x y w h
  rw [hshape] at hrect
  apply hrect.paints
  rintro p ⟨-, hcol, hrow⟩
  rw [Geometry] at hg
  exact ⟨hcol, by omega⟩

theorem leading_eq_image (d : Ssd1305Data) :
    leading (d.pages.toNat * d.width.toNat) =
      cellOf d '' {p | p.1 < d.width.toNat ∧ p.2 / 8 < d.pages.toNat} := by
  ext ⟨i, k⟩
  constructor
  · rintro ⟨⟨hi, hle⟩, hk⟩
    have hw : 0 < d.width.toNat := by
      rcases Nat.eq_zero_or_pos d.width.toNat with h0 | h0
      · rw [h0, Nat.mul_zero] at hle
        omega
      · exact h0
    have hpage : (i - 1) / d.width.toNat < d.pages.toNat := by
      apply Nat.div_lt_of_lt_mul
      rw [Nat.mul_comm]
      omega
    have hdiv : ((i - 1) / d.width.toNat * 8 + k) / 8 = (i - 1) / d.width.toNat := by omega
    have hmod : ((i - 1) / d.width.toNat * 8 + k) % 8 = k := by omega
    refine ⟨((i - 1) % d.width.toNat, (i - 1) / d.width.toNat * 8 + k),
      ⟨Nat.mod_lt _ hw, by rwa [hdiv]⟩, ?_⟩
    rw [cellOf, hdiv, hmod, Nat.div_add_mod', Nat.sub_add_cancel hi]
  · rintro ⟨p, ⟨hcol, hpage⟩, hp⟩
    obtain ⟨rfl, rfl⟩ := Prod.mk.inj hp
    exact ⟨⟨Nat.succ_pos _, (row_lt_iff hcol).mpr hpage⟩, Nat.mod_lt _ (Nat.zero_lt_succ 7)⟩

theorem fill_paints (d : Ssd1305Data) (color : Byte) :
    Paints d (fill d color) {p | p.2 / 8 < d.pages.toNat} (decide (color ≠ 0#8)) := by
  have hfill := fill_recolours d color
  rw [leading_eq_image] at hfill
  apply (hfill.paints fun p hp => hp).congr
  intro p hcol
  exact (and_iff_right hcol).symm

end Shapes

end LinuxOddsAndEnds.Oled
