import LinuxOddsAndEnds.Ring.CircBufferPow2

/-!
# The even-capacity ring of the Raspberry Pi 3 module

`circ_buffer_mod2_elements.c`, function by function. Indices are the `int64_t`
fields of the source. `size` and `space` mask with the field `size`, which `init`
sets to zero and nothing changes; `push` wraps `head` when it has reached the
capacity, `pop` wraps `tail` only one step after that.
-/

namespace LinuxOddsAndEnds.CircBufferMod2

open Foundation
open CircBufferPow2 (enomem null)

structure CircularBufferMod2 where
  buffer : Mem
  elementSize : SizeT
  capacity : SizeT
  size : BitVec 64
  peak : BitVec 64
  head : BitVec 64
  tail : BitVec 64
  deriving Inhabited

/-- `kmalloc` answers the block, or `none` for `NULL`. -/
def init (kmalloc : SizeT → Option Mem) (r : CircularBufferMod2) (elementSize numElements : SizeT) :
    ℤ × CircularBufferMod2 :=
  if numElements % 2#64 ≠ 0#64 then (-1, r)
  else
    match kmalloc (numElements * elementSize) with
    | some block =>
      (0, { buffer := block, elementSize, capacity := numElements, size := 0#64, peak := 0#64,
            head := 0#64, tail := 0#64 })
    | none => (-enomem, { r with buffer := null })

def empty (r : CircularBufferMod2) : Bool := r.head == r.tail

def clear (r : CircularBufferMod2) : CircularBufferMod2 := { r with head := 0#64, tail := 0#64 }

def size (r : CircularBufferMod2) : SizeT := (r.head - r.tail) &&& (r.size - 1#64)

def space (r : CircularBufferMod2) : SizeT := (r.tail - (r.head + 1#64)) &&& (r.size - 1#64)

/-- `index * element_size`, the byte offset of a slot. -/
def slotOffset (r : CircularBufferMod2) (index : BitVec 64) : ℕ := (index * r.elementSize).toNat

/-- `element` is the memory behind the caller's pointer. -/
def push (r : CircularBufferMod2) (element : Mem) : ℤ × CircularBufferMod2 :=
  if space r ≠ 0#64 then
    (0, { r with
          buffer := memcpy r.buffer (slotOffset r r.head) element r.elementSize.toNat
          head := if r.head + 1#64 = r.capacity then 0#64 else r.head + 1#64 })
  else (-1, r)

/-- The offset of the slot at `tail`, `none` for `NULL`. -/
def front (r : CircularBufferMod2) : Option ℕ :=
  if size r ≠ 0#64 then some (slotOffset r r.tail) else none

/-- The old value of `tail` is compared with the capacity. -/
def pop (r : CircularBufferMod2) : CircularBufferMod2 :=
  if size r ≠ 0#64 then
    { r with tail := if r.tail = r.capacity then 0#64 else r.tail + 1#64 }
  else r

def element (r : CircularBufferMod2) (ref : ℕ) : List Byte := load r.buffer ref r.elementSize.toNat

end LinuxOddsAndEnds.CircBufferMod2
