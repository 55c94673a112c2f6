import LinuxOddsAndEnds.Foundation.Memory
import Mathlib.Data.Int.Notation
import Mathlib.Logic.Function.Basic

/-!
# The frame buffer of the OLED module

The drawing functions of `i2c_oled.c` on `ssd1305_data`. Byte 0 of the buffer is the
prefix that the display expects; the byte of column `x` in page `p` follows at index
`p * width + x + 1` and holds eight rows. `touched` is no field of the source: it logs
the indices that the drawing functions read or write.
-/

namespace LinuxOddsAndEnds.Oled

open Foundation

structure Ssd1305Data where
  buffer : Mem
  touched : List ℕ
  height : Byte
  pages : Byte
  width : Byte

/-- `buffer[index] = f(buffer[index])`. -/
def Ssd1305Data.access (d : Ssd1305Data) (index : ℕ) (f : Byte → Byte) : Ssd1305Data :=
  { d with buffer := Function.update d.buffer index (f (d.buffer index))
           touched := d.touched ++ [index] }

/-- `(y >> 3) * stride + x`. -/
def byteIndex (d : Ssd1305Data) (x y : Byte) : ℕ := (y >>> 3).toNat * d.width.toNat + x.toNat

/-- `y & 0x07`. -/
def bitOffset (y : Byte) : ℕ := (y &&& 0x07#8).toNat

/-- `(b & ~(0x01 << offset)) | ((color != 0) << offset)`. -/
def setBit (offset : ℕ) (color b : Byte) : Byte :=
  (b &&& ~~~(1#8 <<< offset)) ||| ((if color ≠ 0#8 then 1#8 else 0#8) <<< offset)

def fillLoop (fillValue : Byte) : ℕ → Ssd1305Data → Ssd1305Data
  | 0, d => d
  | i + 1, d => (fillLoop fillValue i d).access (i + 1) fun _ => fillValue

def fill (d : Ssd1305Data) (color : Byte) : Ssd1305Data :=
  fillLoop (if color ≠ 0#8 then 0xFF#8 else 0x00#8) (d.pages.toNat * d.width.toNat) d

def setPixel (d : Ssd1305Data) (x y color : Byte) : Ssd1305Data :=
  d.access (byteIndex d x y + 1) (setBit (bitOffset y) color)

def getPixel (d : Ssd1305Data) (x y : Byte) : ℕ :=
  ((d.buffer (byteIndex d x y + 1) >>> bitOffset y) &&& 0x01#8).toNat

/-- The inner loop of `fill_rect`. -/
def fillRow (index offset : ℕ) (color : Byte) : ℕ → Ssd1305Data → Ssd1305Data
  | 0, d => d
  | w + 1, d => (fillRow index offset color w d).access (index + w + 1) (setBit offset color)

/-- The outer loop, with `height` rows left. -/
def fillRows (x width color : Byte) : ℕ → Byte → Ssd1305Data → Ssd1305Data
  | 0, _, d => d
  | height + 1, y, d =>
    fillRows x width color height (y + 1#8)
      (fillRow (byteIndex d x y) (bitOffset y) color width.toNat d)

def fillRect (d : Ssd1305Data) (x y width height color : Byte) : Ssd1305Data :=
  fillRows x width color height.toNat y d

/-- Ends are computed in `int` and passed on as `__u8`. `x` and `y` are unsigned, so the
clamping at zero leaves them alone. -/
def rect (d : Ssd1305Data) (x y width height color fill : Byte) : Ssd1305Data :=
  if width.toNat < 1 ∨ height.toNat < 1 ∨ x.toNat + width.toNat ≤ 0 ∨
      y.toNat + height.toNat ≤ 0 ∨ d.height ≤ y ∨ d.width ≤ x then d
  else
    let xEnd : ℤ := if (d.width.toNat : ℤ) - 1 < x.toNat + width.toNat - 1 then d.width.toNat - 1
      else x.toNat + width.toNat - 1
    let yEnd : ℤ := if (d.height.toNat : ℤ) - 1 < y.toNat + height.toNat - 1 then d.height.toNat - 1
      else y.toNat + height.toNat - 1
    let columns := BitVec.ofInt 8 (xEnd - x.toNat + 1)
    let rows := BitVec.ofInt 8 (yEnd - y.toNat + 1)
    if fill ≠ 0#8 then fillRect d x y columns rows color
    else
      let d := fillRect d x y columns 1#8 color
      let d := fillRect d x y 1#8 rows color
      let d := fillRect d x (BitVec.ofInt 8 yEnd) columns 1#8 color
      fillRect d (BitVec.ofInt 8 xEnd) y 1#8 rows color

def hline (d : Ssd1305Data) (x y width color : Byte) : Ssd1305Data :=
  rect d x y width 1#8 color 1#8

def vline (d : Ssd1305Data) (x y height color : Byte) : Ssd1305Data :=
  rect d x y 1#8 height color 1#8

/-- What `ess_oled_probe` makes of the block that `kzalloc` returned. -/
def probeData (block : Mem) : Ssd1305Data where
  buffer := Function.update block 0 0x40#8
  touched := []
  height := 64
  pages := 8
  width := 128

end LinuxOddsAndEnds.Oled
