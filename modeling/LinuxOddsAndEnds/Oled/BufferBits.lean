import LinuxOddsAndEnds.Oled.FrameBuffer
import Mathlib.Data.Set.Lattice.Image
import Mathlib.Order.Interval.Set.Basic
import Mathlib.Tactic.Ring

/-!
# The frame buffer, bit by bit

Every drawing function is a sequence of read-modify-writes of single bytes, and all of
them give their bits one colour. `Recolours d d' cells color` says that `d'` is `d` with
the bits of `cells` set to `color`, that no other bit of the buffer has changed, and that
only bytes with a bit in `cells` were touched. `cellOf` takes a pixel to its bit; on
columns of the screen it is injective. The drawing functions that do not clip recolour
the bits of the pixels that their parameters name.
-/

namespace LinuxOddsAndEnds.Oled

open Foundation

/-- Bit `q.2` of the byte at index `q.1`. -/
def bit (d : Ssd1305Data) (q : ℕ × ℕ) : Bool := (d.buffer q.1).getLsbD q.2

/-- The bit of column `p.1` and row `p.2`. -/
def cellOf (d : Ssd1305Data) (p : ℕ × ℕ) : ℕ × ℕ := (p.2 / 8 * d.width.toNat + p.1 + 1, p.2 % 8)

def box (x y w h : ℕ) : Set (ℕ × ℕ) := {p | (x ≤ p.1 ∧ p.1 < x + w) ∧ y ≤ p.2 ∧ p.2 < y + h}

theorem mem_box {x y w h : ℕ} {p : ℕ × ℕ} :
    p ∈ box x y w h ↔ (x ≤ p.1 ∧ p.1 < x + w) ∧ y ≤ p.2 ∧ p.2 < y + h := Iff.rfl

theorem box_empty (x y w : ℕ) : box x y w 0 = ∅ := by
  ext p
  rw [mem_box, Set.mem_empty_iff_false, iff_false]
  omega

theorem box_succ (x y w h : ℕ) : box x y w (h + 1) = box x y w 1 ∪ box x (y + 1) w h := by
  ext p
  simp only [mem_box, Set.mem_union]
  omega

theorem toNat_shiftRight_three (y : Byte) : (y >>> 3).toNat = y.toNat / 8 := by
  rw [BitVec.toNat_ushiftRight, Nat.shiftRight_eq_div_pow]

theorem bitOffset_eq (y : Byte) : bitOffset y = y.toNat % 8 := by
  rw [bitOffset, BitVec.toNat_and]
  exact Nat.and_two_pow_sub_one_eq_mod y.toNat 3

theorem byteIndex_eq (d : Ssd1305Data) (x y : Byte) :
    byteIndex d x y = y.toNat / 8 * d.width.toNat + x.toNat := by
  rw [byteIndex, toNat_shiftRight_three]

/-- The index and the offset that the source computes are the pixel's bit. -/
theorem cellOf_toNat (d : Ssd1305Data) (x y : Byte) :
    cellOf d (x.toNat, y.toNat) = (byteIndex d x y + 1, bitOffset y) := by
  rw [cellOf, byteIndex_eq, bitOffset_eq]

theorem getLsbD_one_shiftLeft {k : ℕ} (hk : k < 8) (offset : ℕ) :
    (1#8 <<< offset).getLsbD k = decide (k = offset) := by
  rw [BitVec.getLsbD_shiftLeft, BitVec.getLsbD_one, Bool.eq_iff_iff]
  simp only [Bool.and_eq_true, Bool.not_eq_true', decide_eq_true_eq, decide_eq_false_iff_not]
  omega

theorem getLsbD_setBit {k : ℕ} (hk : k < 8) (offset : ℕ) (color b : Byte) :
    (setBit offset color b).getLsbD k =
      if k = offset then decide (color ≠ 0#8) else b.getLsbD k := by
  unfold setBit
  rw [BitVec.getLsbD_or, BitVec.getLsbD_and, BitVec.getLsbD_not, getLsbD_one_shiftLeft hk]
  by_cases hc : color = 0#8
  · by_cases h : k = offset <;> simp [hc, h, hk]
  · rw [if_pos hc, getLsbD_one_shiftLeft hk]
    by_cases h : k = offset <;> simp [hc, h, hk]

theorem access_buffer (d : Ssd1305Data) (index : ℕ) (f : Byte → Byte) (i : ℕ) :
    (d.access index f).buffer i = if i = index then f (d.buffer index) else d.buffer i :=
  Function.update_apply _ _ _ _

theorem bit_of_le (d : Ssd1305Data) {q : ℕ × ℕ} (hq : 8 ≤ q.2) : bit d q = false :=
  BitVec.getLsbD_of_ge _ _ hq

theorem buffer_ext {d d' : Ssd1305Data} (h : ∀ q, bit d q = bit d' q) : d.buffer = d'.buffer := by
  funext i
  apply BitVec.eq_of_getLsbD_eq
  intro k _
  exact h (i, k)

theorem cell_inj {w a b i k : ℕ} (hi : i < w) (hk : k < w) (h : a * w + i = b * w + k) :
    a = b ∧ i = k := by
  have hw : 0 < w := by omega
  have hdiv := congrArg (· / w) h
  have hmod := congrArg (· % w) h
  simp only [Nat.mul_comm _ w, Nat.mul_add_div hw, Nat.div_eq_of_lt hi, Nat.div_eq_of_lt hk,
    Nat.mul_add_mod, Nat.mod_eq_of_lt hi, Nat.mod_eq_of_lt hk, Nat.add_zero] at hdiv hmod
  exact ⟨hdiv, hmod⟩

theorem cellOf_inj {d : Ssd1305Data} {p q : ℕ × ℕ} (hp : p.1 < d.width.toNat)
    (hq : q.1 < d.width.toNat) (h : cellOf d p = cellOf d q) : p = q := by
  obtain ⟨hindex, hoffset⟩ := Prod.mk.inj h
  obtain ⟨hpage, hcolumn⟩ := cell_inj hp hq (Nat.succ.inj hindex)
  apply Prod.ext hcolumn
  omega

structure Recolours (d d' : Ssd1305Data) (cells : Set (ℕ × ℕ)) (color : Bool) : Prop where
  height : d'.height = d.height
  pages : d'.pages = d.pages
  width : d'.width = d.width
  inside : ∀ q ∈ cells, bit d' q = color
  outside : ∀ q ∉ cells, bit d' q = bit d q
  touched : ∃ new, d'.touched = d.touched ++ new ∧ ∀ i ∈ new, ∃ k, (i, k) ∈ cells

namespace Recolours

variable {d d₁ d₂ : Ssd1305Data} {A B : Set (ℕ × ℕ)} {c : Bool}

theorem refl (d : Ssd1305Data) (c : Bool) : Recolours d d ∅ c where
  height := rfl
  pages := rfl
  width := rfl
  inside := fun _ h => h.elim
  outside := fun _ _ => rfl
  touched := ⟨[], by simp, by simp⟩

theorem trans (h₁ : Recolours d d₁ A c) (h₂ : Recolours d₁ d₂ B c) : Recolours d d₂ (A ∪ B) c := by
  obtain ⟨new₁, ht₁, hc₁⟩ := h₁.touched
  obtain ⟨new₂, ht₂, hc₂⟩ := h₂.touched
  refine ⟨h₂.height.trans h₁.height, h₂.pages.trans h₁.pages, h₂.width.trans h₁.width,
    ?_, ?_, new₁ ++ new₂, ?_, ?_⟩
  · intro q hq
    by_cases hB : q ∈ B
    · exact h₂.inside q hB
    · rw [h₂.outside q hB]
      exact h₁.inside q (hq.resolve_right hB)
  · intro q hq
    rw [h₂.outside q fun hB => hq (Or.inr hB), h₁.outside q fun hA => hq (Or.inl hA)]
  · rw [ht₂, ht₁, List.append_assoc]
  · intro i hi
    rcases List.mem_append.mp hi with hi | hi
    · obtain ⟨k, hk⟩ := hc₁ i hi
      exact ⟨k, Or.inl hk⟩
    · obtain ⟨k, hk⟩ := hc₂ i hi
      exact ⟨k, Or.inr hk⟩

theorem congr (h : Recolours d d₁ A c) (hAB : B = A) : Recolours d d₁ B c := hAB ▸ h

theorem cellOf_eq (h : Recolours d d₁ A c) : cellOf d₁ = cellOf d := by
  funext p
  rw [cellOf, cellOf, h.width]

theorem buffer_eq (h₁ : Recolours d d₁ A c) (h₂ : Recolours d d₂ A c) : d₁.buffer = d₂.buffer := by
  apply buffer_ext
  intro q
  by_cases hq : q ∈ A
  · rw [h₁.inside q hq, h₂.inside q hq]
  · rw [h₁.outside q hq, h₂.outside q hq]

end Recolours

section Shapes

variable {d : Ssd1305Data}

theorem access_recolours (d : Ssd1305Data) (index : ℕ) {offset : ℕ} (ho : offset < 8)
    (color : Byte) :
    Recolours d (d.access index (setBit offset color)) {(index, offset)}
      (decide (color ≠ 0#8)) := by
  refine ⟨rfl, rfl, rfl, ?_, ?_, [index], rfl, ?_⟩
  · rintro q rfl
    rw [bit, access_buffer, if_pos rfl, getLsbD_setBit ho, if_pos rfl]
  · rintro ⟨i, k⟩ hq
    rcases Nat.lt_or_ge k 8 with hk | hk
    · rw [bit, access_buffer]
      by_cases hi : i = index
      · subst hi
        have hne : k ≠ offset := fun hko => hq (Prod.ext rfl hko)
        rw [if_pos rfl, getLsbD_setBit hk, if_neg hne, bit]
      · rw [if_neg hi, bit]
    · rw [bit_of_le _ hk, bit_of_le _ hk]
  · intro i hi
    exact ⟨offset, Prod.ext (List.mem_singleton.mp hi) rfl⟩

theorem setPixel_recolours (d : Ssd1305Data) (x y color : Byte) :
    Recolours d (setPixel d x y color) {cellOf d (x.toNat, y.toNat)} (decide (color ≠ 0#8)) := by
  have ho : bitOffset y < 8 := by
    rw [bitOffset_eq]
    omega
  rw [setPixel, cellOf_toNat]
  exact access_recolours d _ ho color

def setPixels (color : Byte) (d : Ssd1305Data) (ps : List (Byte × Byte)) : Ssd1305Data :=
  ps.foldl (fun d p => setPixel d p.1 p.2 color) d

theorem setPixels_recolours (color : Byte) (ps : List (Byte × Byte)) (d : Ssd1305Data) :
    Recolours d (setPixels color d ps) {q | ∃ p ∈ ps, q = cellOf d (p.1.toNat, p.2.toNat)}
      (decide (color ≠ 0#8)) := by
  induction ps generalizing d with
  | nil =>
    apply (Recolours.refl d _).congr
    simp
  | cons p ps ih =>
    have hfirst := setPixel_recolours d p.1 p.2 color
    have hrest := ih (setPixel d p.1 p.2 color)
    rw [hfirst.cellOf_eq] at hrest
    apply (hfirst.trans hrest).congr
    ext q
    simp

theorem fillRow_recolours (x y : ℕ) (color : Byte) (w : ℕ) (d : Ssd1305Data) :
    Recolours d (fillRow (y / 8 * d.width.toNat + x) (y % 8) color w d)
      (cellOf d '' box x y w 1) (decide (color ≠ 0#8)) := by
  induction w with
  | zero =>
    apply (Recolours.refl d _).congr
    rw [Set.image_eq_empty]
    ext p
    rw [mem_box, Set.mem_empty_iff_false, iff_false]
    omega
  | succ w ih =>
    have hstep := access_recolours (fillRow (y / 8 * d.width.toNat + x) (y % 8) color w d)
      (y / 8 * d.width.toNat + x + w + 1) (Nat.mod_lt y (Nat.zero_lt_succ 7)) color
    have hcell : {(y / 8 * d.width.toNat + x + w + 1, y % 8)} = cellOf d '' {(x + w, y)} := by
      rw [Set.image_singleton, cellOf, ← Nat.add_assoc]
    rw [hcell] at hstep
    apply (ih.trans hstep).congr
    rw [← Set.image_union]
    apply congrArg
    ext ⟨i, j⟩
    simp only [mem_box, Set.mem_union, Set.mem_singleton_iff, Prod.mk.injEq]
    omega

/-- The outer loop of `fill_rect` goes down the rows; `y` does not wrap. -/
theorem fillRows_recolours (x width color : Byte) (h : ℕ) (y : Byte) (d : Ssd1305Data)
    (hlt : y.toNat + h < 256) :
    Recolours d (fillRows x width color h y d) (cellOf d '' box x.toNat y.toNat width.toNat h)
      (decide (color ≠ 0#8)) := by
  induction h generalizing y d with
  | zero =>
    apply (Recolours.refl d _).congr
    rw [box_empty, Set.image_empty]
  | succ h ih =>
    have hrow := fillRow_recolours x.toNat y.toNat color width.toNat d
    rw [← byteIndex_eq, ← bitOffset_eq] at hrow
    have hnext : (y + 1#8).toNat = y.toNat + 1 := by
      rw [BitVec.toNat_add, BitVec.toNat_ofNat]
      omega
    have hrest := ih (y + 1#8) (fillRow (byteIndex d x y) (bitOffset y) color width.toNat d)
      (by omega)
    rw [hrow.cellOf_eq, hnext] at hrest
    apply (hrow.trans hrest).congr
    rw [← Set.image_union, box_succ]

theorem fillRect_recolours (d : Ssd1305Data) (x : Byte) {y : Byte} (width : Byte) {height : Byte}
    (color : Byte) (hlt : y.toNat + height.toNat < 256) :
    Recolours d (fillRect d x y width height color)
      (cellOf d '' box x.toNat y.toNat width.toNat height.toNat) (decide (color ≠ 0#8)) :=
  fillRows_recolours x width color height.toNat y d hlt

/-- The bits behind the prefix byte, `n` bytes of them. -/
def leading (n : ℕ) : Set (ℕ × ℕ) := {q | (1 ≤ q.1 ∧ q.1 ≤ n) ∧ q.2 < 8}

theorem fillLoop_recolours (fillValue : Byte) (c : Bool)
    (hc : ∀ k < 8, fillValue.getLsbD k = c) (n : ℕ) (d : Ssd1305Data) :
    Recolours d (fillLoop fillValue n d) (leading n) c := by
  induction n with
  | zero =>
    apply (Recolours.refl d c).congr
    ext q
    simp only [leading, Set.mem_ofPred_eq, Set.mem_empty_iff_false, iff_false]
    omega
  | succ n ih =>
    have hstep : Recolours (fillLoop fillValue n d) (fillLoop fillValue (n + 1) d)
        {q | q.1 = n + 1 ∧ q.2 < 8} c := by
      refine ⟨rfl, rfl, rfl, ?_, ?_, [n + 1], rfl, ?_⟩
      · rintro q ⟨hi, hk⟩
        rw [fillLoop, bit, access_buffer, if_pos hi, hc _ hk]
      · rintro ⟨i, k⟩ hq
        rcases Nat.lt_or_ge k 8 with hk | hk
        · rw [fillLoop, bit, access_buffer, if_neg fun hi => hq ⟨hi, hk⟩, bit]
        · rw [bit_of_le _ hk, bit_of_le _ hk]
      · intro i hi
        exact ⟨0, List.mem_singleton.mp hi, Nat.zero_lt_succ 7⟩
    apply (ih.trans hstep).congr
    ext q
    simp only [leading, Set.mem_union, Set.mem_ofPred_eq]
    omega

theorem fill_recolours (d : Ssd1305Data) (color : Byte) :
    Recolours d (fill d color) (leading (d.pages.toNat * d.width.toNat))
      (decide (color ≠ 0#8)) := by
  apply fillLoop_recolours
  by_cases hc : color = 0#8
  · subst hc
    decide
  · rw [if_pos hc, decide_eq_true hc]
    decide

end Shapes

end LinuxOddsAndEnds.Oled
