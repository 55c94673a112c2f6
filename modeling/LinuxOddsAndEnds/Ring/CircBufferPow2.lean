import LinuxOddsAndEnds.Foundation.Memory
import Mathlib.Data.Int.Notation

/-!
# The power-of-two ring of the OLED module

`circ_buffer_pow2_elements.c`, function by function. Indices are the `int`
fields of the source and wrap as 32-bit words; counts and offsets are `size_t`.
The storage is the byte block that `kmalloc` returned, addressed by offset, and a
pointer into it is its offset. The fields `size` and `peak` are set by `init` only.
-/

namespace LinuxOddsAndEnds.CircBufferPow2

open Foundation

/-- `int`. -/
abbrev CInt := BitVec 32

structure CircularBufferPow2 where
  buffer : Mem
  elementSize : SizeT
  capacity : SizeT
  size : BitVec 64
  peak : BitVec 64
  head : CInt
  tail : CInt
  deriving Inhabited

def enomem : ℤ := 12

/-- What can be seen through a `NULL` buffer: no operation of a failed ring looks at it. -/
def null : Mem := fun _ => 0

/-- `CIRC_CNT`: the `int` difference is converted to `size_t` by the mask. -/
def circCnt (head tail : CInt) (size : SizeT) : SizeT :=
  (head - tail).signExtend 64 &&& (size - 1#64)

def circSpace (head tail : CInt) (size : SizeT) : SizeT := circCnt tail (head + 1#32) size

/-- `(index + 1) & (capacity - 1)`, stored back to an `int`. -/
def nextIndex (index : CInt) (capacity : SizeT) : CInt :=
  ((index + 1#32).signExtend 64 &&& (capacity - 1#64)).setWidth 32

/-- `index * element_size`, the byte offset of a slot. -/
def slotOffset (r : CircularBufferPow2) (index : CInt) : ℕ :=
  (index.signExtend 64 * r.elementSize).toNat

/-- `kmalloc` answers the block, or `none` for `NULL`. -/
def init (kmalloc : SizeT → Option Mem) (r : CircularBufferPow2) (elementSize numElements : SizeT) :
    ℤ × CircularBufferPow2 :=
  if numElements = 0#64 ∨ numElements &&& (numElements - 1#64) ≠ 0#64 then (-1, r)
  else
    match kmalloc (numElements * elementSize) with
    | some block =>
      (0, { buffer := block, elementSize, capacity := numElements, size := 0#64, peak := 0#64,
            head := 0#32, tail := 0#32 })
    | none => (-enomem, { r with buffer := null })

def empty (r : CircularBufferPow2) : Bool := r.head == r.tail

def clear (r : CircularBufferPow2) : CircularBufferPow2 := { r with head := 0#32, tail := 0#32 }

def size (r : CircularBufferPow2) : SizeT := circCnt r.head r.tail r.capacity

def space (r : CircularBufferPow2) : SizeT := circCnt r.tail (r.head + 1#32) r.capacity

/-- `element` is the memory behind the caller's pointer. -/
def push (r : CircularBufferPow2) (element : Mem) : ℤ × CircularBufferPow2 :=
  if 1#64 ≤ circSpace r.head r.tail r.capacity then
    (0, { r with
          buffer := memcpy r.buffer (slotOffset r r.head) element r.elementSize.toNat
          head := nextIndex r.head r.capacity })
  else (-1, r)

/-- The offset of the oldest element, `none` for `NULL`. -/
def front (r : CircularBufferPow2) : Option ℕ :=
  if circCnt r.head r.tail r.capacity ≠ 0#64 then some (slotOffset r r.tail) else none

def pop (r : CircularBufferPow2) : CircularBufferPow2 :=
  if circCnt r.head r.tail r.capacity ≠ 0#64 then { r with tail := nextIndex r.tail r.capacity }
  else r

def element (r : CircularBufferPow2) (ref : ℕ) : List Byte := load r.buffer ref r.elementSize.toNat

end LinuxOddsAndEnds.CircBufferPow2
