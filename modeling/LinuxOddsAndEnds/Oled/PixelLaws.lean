import LinuxOddsAndEnds.Oled.Drawing

/-!
# Laws of the drawing functions

`rect` draws its clipped shape and nothing else. `set_pixel` and `get_pixel` obey the
laws of an array with one entry for each pixel. The fast paths, whole bytes in `fill` and
runs of one row in `fill_rect`, leave the buffer that `set_pixel` leaves when it is
called for each pixel.
-/

namespace LinuxOddsAndEnds.Oled

open Foundation

variable {d : Ssd1305Data}

theorem inFrame_cellOf (hg : Geometry d) {p : ℕ × ℕ} (hp : p ∈ screen d) :
    InFrame d (cellOf d p).1 := by
  rw [Geometry] at hg
  have hpage : p.2 / 8 < d.pages.toNat := by
    have hrow := hp.2
    omega
  exact ⟨Nat.succ_pos _, (row_lt_iff hp.1).mpr hpage⟩

theorem rect_touched (hg : Geometry d) (x y w h color fill : Byte) :
    ∃ new, (rect d x y w h color fill).touched = d.touched ++ new ∧ ∀ i ∈ new, InFrame d i := by
  obtain ⟨new, hnew, hcells⟩ := (rect_recolours d x y w h color fill).touched
  refine ⟨new, hnew, fun i hi => ?_⟩
  obtain ⟨k, p, hp, hpi⟩ := hcells i hi
  have hscreen := clipped_subset_screen d x y w h (rectShape_subset d x y w h fill hp)
  have hframe := inFrame_cellOf hg hscreen
  rwa [hpi] at hframe

theorem rect_of_clipped_eq_empty {x y w h : Byte} (hempty : clipped d x y w h = ∅)
    (color fill : Byte) : (rect d x y w h color fill).buffer = d.buffer := by
  have hshape := rectShape_subset d x y w h fill
  rw [hempty, Set.subset_empty_iff] at hshape
  have hrect := rect_recolours d x y w h color fill
  rw [hshape, Set.image_empty] at hrect
  exact hrect.buffer_eq (Recolours.refl d _)

/-- Whatever the geometry and the arguments, `rect` draws the clipped rectangle or its
outline, changes no other bit, and stays in the buffer. -/
theorem rect_draws_clipped_shape (d : Ssd1305Data) (hg : Geometry d)
    (x y w h color fill : Byte) :
    ((w = 0#8 ∨ h = 0#8 ∨ d.width ≤ x ∨ d.height ≤ y) →
      (rect d x y w h color fill).buffer = d.buffer) ∧
    (∀ p ∈ if fill ≠ 0#8 then clipped d x y w h else outline d x y w h,
      p ∈ screen d ∧ pixel (rect d x y w h color fill) p = decide (color ≠ 0#8)) ∧
    (∀ q, (∀ p ∈ if fill ≠ 0#8 then clipped d x y w h else outline d x y w h, q ≠ cellOf d p) →
      bit (rect d x y w h color fill) q = bit d q) ∧
    ∃ new, (rect d x y w h color fill).touched = d.touched ++ new ∧
      ∀ i ∈ new, i < d.pages.toNat * d.width.toNat + 1 := by
  have hrect := rect_recolours d x y w h color fill
  refine ⟨?_, ?_, ?_, ?_⟩
  · intro hoff
    exact rect_of_clipped_eq_empty (clipped_eq_empty hoff) color fill
  · intro p hp
    constructor
    · exact clipped_subset_screen d x y w h (rectShape_subset d x y w h fill hp)
    · rw [pixel_eq, hrect.cellOf_eq]
      exact hrect.inside _ ⟨p, hp, rfl⟩
  · intro q hq
    apply hrect.outside
    rintro ⟨p, hp, hpq⟩
    exact hq p hp hpq.symm
  · obtain ⟨new, hnew, hframe⟩ := rect_touched hg x y w h color fill
    exact ⟨new, hnew, fun i hi => Nat.lt_succ_of_le (hframe i hi).2⟩

theorem rect_draws_clipped_shape_probe :
    (rect (probeData fun _ => 0xA5#8) 5 5 0 3 1 1).buffer = (probeData fun _ => 0xA5#8).buffer ∧
      pixel (rect (probeData fun _ => 0xA5#8) 120 60 20 20 1 0) (127, 61) = true :=
  have h := rect_draws_clipped_shape (probeData fun _ => 0xA5#8) rfl
  have hcorner : (127, 61) ∈ outline (probeData fun _ => 0xA5#8) 120 60 20 20 := by
    rw [mem_outline, mem_clipped]
    decide
  ⟨(h 5 5 0 3 1 1).1 (Or.inl rfl), ((h 120 60 20 20 1 0).2.1 (127, 61) hcorner).2⟩

section PixelAccess

theorem getPixel_eq_bit (d : Ssd1305Data) (x y : Byte) :
    getPixel d x y = (bit d (cellOf d (x.toNat, y.toNat))).toNat := by
  rw [getPixel_eq, pixel_eq]

theorem decide_getPixel (d : Ssd1305Data) (x y : Byte) :
    decide (BitVec.ofNat 8 (getPixel d x y) ≠ 0#8) = bit d (cellOf d (x.toNat, y.toNat)) := by
  rw [getPixel_eq_bit]
  cases bit d (cellOf d (x.toNat, y.toNat)) <;> rfl

theorem bit_setPixel (d : Ssd1305Data) (x y color : Byte) (q : ℕ × ℕ) :
    bit (setPixel d x y color) q =
      if q = cellOf d (x.toNat, y.toNat) then decide (color ≠ 0#8) else bit d q := by
  have hset := setPixel_recolours d x y color
  split_ifs with hq
  · exact hset.inside q hq
  · exact hset.outside q hq

theorem cellOf_setPixel (d : Ssd1305Data) (x y color : Byte) :
    cellOf (setPixel d x y color) = cellOf d := (setPixel_recolours d x y color).cellOf_eq

theorem getPixel_setPixel (d : Ssd1305Data) (x y color : Byte) :
    getPixel (setPixel d x y color) x y = if color ≠ 0#8 then 1 else 0 := by
  rw [getPixel_eq_bit, cellOf_setPixel, bit_setPixel, if_pos rfl]
  by_cases hc : color = 0#8 <;> simp [hc]

theorem setPixel_getPixel (d : Ssd1305Data) (x y : Byte) :
    (setPixel d x y (BitVec.ofNat 8 (getPixel d x y))).buffer = d.buffer := by
  apply buffer_ext
  intro q
  rw [bit_setPixel, decide_getPixel]
  split_ifs with hq
  · rw [hq]
  · rfl

theorem setPixel_setPixel (d : Ssd1305Data) (x y color color' : Byte) :
    (setPixel (setPixel d x y color) x y color').buffer = (setPixel d x y color').buffer := by
  apply buffer_ext
  intro q
  simp only [bit_setPixel, cellOf_setPixel]
  split_ifs <;> rfl

theorem setPixel_comm {x y x' y' : Byte}
    (hne : cellOf d (x.toNat, y.toNat) ≠ cellOf d (x'.toNat, y'.toNat)) (color color' : Byte) :
    (setPixel (setPixel d x y color) x' y' color').buffer =
      (setPixel (setPixel d x' y' color') x y color).buffer := by
  apply buffer_ext
  intro q
  simp only [bit_setPixel, cellOf_setPixel]
  split_ifs with h' h
  · exact absurd (h.symm.trans h') hne
  · rfl
  · rfl
  · rfl

theorem cellOf_ne {x y x' y' : Byte} (hx : x < d.width) (hx' : x' < d.width)
    (hne : (x, y) ≠ (x', y')) : cellOf d (x.toNat, y.toNat) ≠ cellOf d (x'.toNat, y'.toNat) := by
  intro hcell
  obtain ⟨hcol, hrow⟩ := Prod.mk.inj (cellOf_inj hx hx' hcell)
  exact hne (Prod.ext (BitVec.eq_of_toNat_eq hcol) (BitVec.eq_of_toNat_eq hrow))

/-- Reading and writing pixels of the screen, on any geometry. -/
theorem pixel_access_laws (d : Ssd1305Data) (hg : Geometry d) (x y : Byte) (hx : x < d.width)
    (hy : y < d.height) :
    (∀ color, getPixel (setPixel d x y color) x y = if color ≠ 0#8 then 1 else 0) ∧
    (∀ color x' y', x' < d.width → y' < d.height → (x', y') ≠ (x, y) →
      getPixel (setPixel d x y color) x' y' = getPixel d x' y') ∧
    (1 ≤ byteIndex d x y + 1 ∧ byteIndex d x y + 1 ≤ d.pages.toNat * d.width.toNat ∧
      ∀ color q, q ≠ (byteIndex d x y + 1, bitOffset y) →
        bit (setPixel d x y color) q = bit d q) ∧
    (setPixel d x y (BitVec.ofNat 8 (getPixel d x y))).buffer = d.buffer ∧
    (∀ color color',
      (setPixel (setPixel d x y color) x y color').buffer = (setPixel d x y color').buffer) ∧
    ∀ color color' x' y', x' < d.width → y' < d.height → (x', y') ≠ (x, y) →
      (setPixel (setPixel d x y color) x' y' color').buffer =
        (setPixel (setPixel d x' y' color') x y color).buffer := by
  have hframe := inFrame_cellOf hg (p := (x.toNat, y.toNat)) ⟨hx, hy⟩
  rw [cellOf_toNat] at hframe
  refine ⟨getPixel_setPixel d x y, ?_, ⟨hframe.1, hframe.2, ?_⟩, setPixel_getPixel d x y,
    setPixel_setPixel d x y, ?_⟩
  · intro color x' y' hx' _ hne
    rw [getPixel_eq_bit, getPixel_eq_bit, cellOf_setPixel, bit_setPixel,
      if_neg (cellOf_ne hx' hx hne)]
  · intro color q hq
    rw [bit_setPixel, cellOf_toNat, if_neg hq]
  · intro color color' x' y' hx' _ hne
    exact setPixel_comm (cellOf_ne hx' hx hne).symm color color'

theorem pixel_access_laws_probe :
    getPixel (setPixel (probeData fun _ => 0xA5#8) 127 63 7) 127 63 = 1 ∧
      getPixel (setPixel (probeData fun _ => 0xA5#8) 127 63 7) 127 62 =
        getPixel (probeData fun _ => 0xA5#8) 127 62 :=
  have h := pixel_access_laws (probeData fun _ => 0xA5#8) rfl 127 63 (by decide) (by decide)
  ⟨h.1 7, h.2.1 7 127 62 (by decide) (by decide) (by decide)⟩

end PixelAccess

section Paths

/-- A list that names the pixels of `A`, in any order. -/
def Enumerates (ps : List (Byte × Byte)) (A : Set (ℕ × ℕ)) : Prop :=
  ∀ p : Byte × Byte, p ∈ ps ↔ (p.1.toNat, p.2.toNat) ∈ A

theorem Enumerates.recolours {ps : List (Byte × Byte)} {A : Set (ℕ × ℕ)} (hps : Enumerates ps A)
    (hA : ∀ p ∈ A, p.1 < 256 ∧ p.2 < 256) (d : Ssd1305Data) (color : Byte) :
    Recolours d (setPixels color d ps) (cellOf d '' A) (decide (color ≠ 0#8)) := by
  apply (setPixels_recolours color ps d).congr
  ext q
  constructor
  · rintro ⟨⟨i, j⟩, hp, rfl⟩
    obtain ⟨hi, hj⟩ := hA _ hp
    refine ⟨(BitVec.ofNat 8 i, BitVec.ofNat 8 j), (hps _).mpr ?_, ?_⟩
    · simpa [Nat.mod_eq_of_lt hi, Nat.mod_eq_of_lt hj] using hp
    · simp [Nat.mod_eq_of_lt hi, Nat.mod_eq_of_lt hj]
  · rintro ⟨p, hp, rfl⟩
    exact ⟨_, (hps p).mp hp, rfl⟩

theorem screen_lt {p : ℕ × ℕ} (hp : p ∈ screen d) : p.1 < 256 ∧ p.2 < 256 :=
  ⟨hp.1.trans d.width.isLt, hp.2.trans d.height.isLt⟩

theorem leading_eq_screen (hg : Geometry d) (hrows : d.height.toNat % 8 = 0) :
    leading (d.pages.toNat * d.width.toNat) = cellOf d '' screen d := by
  rw [leading_eq_image]
  apply congrArg
  ext p
  rw [Geometry] at hg
  simp only [screen, Set.mem_ofPred_eq]
  omega

theorem clipped_screen (d : Ssd1305Data) : clipped d 0#8 0#8 d.width d.height = screen d := by
  rw [clipped_eq_box_inter]
  apply Set.inter_eq_right.mpr
  intro p hp
  have hcol := hp.1
  have hrow := hp.2
  rw [mem_box, BitVec.toNat_ofNat]
  omega

/-- `fill_rect` and `fill` agree with `set_pixel`, and `fill` with `rect`. -/
theorem fast_and_slow_paths_agree (d : Ssd1305Data) (hg : Geometry d) (color : Byte) :
    (∀ x y w h : Byte, x.toNat + w.toNat ≤ d.width.toNat → y.toNat + h.toNat ≤ d.height.toNat →
      ∀ ps, Enumerates ps (box x.toNat y.toNat w.toNat h.toNat) →
        (fillRect d x y w h color).buffer =
          (ps.foldl (fun d p => setPixel d p.1 p.2 color) d).buffer) ∧
    (d.height.toNat % 8 = 0 →
      (∀ f, f ≠ 0#8 →
        (fill d color).buffer = (rect d 0#8 0#8 d.width d.height color f).buffer) ∧
      ∀ ps, Enumerates ps (screen d) →
        (fill d color).buffer = (ps.foldl (fun d p => setPixel d p.1 p.2 color) d).buffer) := by
  constructor
  · intro x y w h hw hh ps hps
    have hlt := d.height.isLt
    have hbox : ∀ p ∈ box x.toNat y.toNat w.toNat h.toNat, p.1 < 256 ∧ p.2 < 256 := by
      intro p hp
      apply screen_lt (d := d)
      rw [mem_box] at hp
      exact ⟨by omega, by omega⟩
    exact (fillRect_recolours d x w color (by omega)).buffer_eq (hps.recolours hbox d color)
  · intro hrows
    have hfill := fill_recolours d color
    rw [leading_eq_screen hg hrows] at hfill
    constructor
    · intro f hf
      have hrect := rect_recolours d 0#8 0#8 d.width d.height color f
      rw [rectShape, if_pos hf, clipped_screen] at hrect
      exact hfill.buffer_eq hrect
    · intro ps hps
      exact hfill.buffer_eq (hps.recolours (fun p hp => screen_lt hp) d color)

theorem fast_and_slow_paths_agree_probe :
    (fillRect (probeData fun _ => 0xA5#8) 126#8 62#8 2#8 1#8 1).buffer =
        (setPixel (setPixel (probeData fun _ => 0xA5#8) 127#8 62#8 1) 126#8 62#8 1).buffer ∧
      (fill (probeData fun _ => 0xA5#8) 1).buffer =
        (rect (probeData fun _ => 0xA5#8) 0 0 128 64 1 1).buffer :=
  have h := fast_and_slow_paths_agree (probeData fun _ => 0xA5#8) rfl 1
  ⟨h.1 126#8 62#8 2#8 1#8 (by decide) (by decide) [(127#8, 62#8), (126#8, 62#8)] (by
      rintro ⟨i, j⟩
      simp only [List.mem_cons, List.not_mem_nil, or_false, Prod.mk.injEq, mem_box,
        ← BitVec.toNat_inj, BitVec.toNat_ofNat]
      omega),
    (h.2 rfl).1 1 (by decide)⟩

end Paths

end LinuxOddsAndEnds.Oled
