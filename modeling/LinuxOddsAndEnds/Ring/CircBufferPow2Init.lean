import LinuxOddsAndEnds.Foundation.MaskedIndex
import LinuxOddsAndEnds.Ring.CircBufferPow2

/-!
# What a successful init of the power-of-two ring has allocated

`init` asks `kmalloc` for the machine product of the number of elements and their size.
The product is not checked, so beyond the word size the block is shorter than the slots
that `push` and `front` later address in it.
-/

namespace LinuxOddsAndEnds.CircBufferPow2

open Foundation

def requested (elementSize numElements : SizeT) : SizeT := numElements * elementSize

/-- The bytes of the slot, computed without wrapping, lie in a block of that size. -/
def SlotCovered (block : SizeT) (elementSize : SizeT) (index : ℕ) : Prop :=
  (index + 1) * elementSize.toNat ≤ block.toNat

/-- An `init` that returns 0 was asked for a power of two and has a block for every slot; any
other `init` returns a negative value. -/
def InitCovers (kmalloc : SizeT → Option Mem) (r : CircularBufferPow2)
    (elementSize numElements : SizeT) : Prop :=
  if (init kmalloc r elementSize numElements).1 = 0 then
    numElements.toNat.isPowerOfTwo ∧
      ∀ i < numElements.toNat, SlotCovered (requested elementSize numElements) elementSize i
  else (init kmalloc r elementSize numElements).1 < 0

section Init

variable {kmalloc : SizeT → Option Mem} {elementSize numElements : SizeT}

theorem init_refused (r : CircularBufferPow2) (h : ¬numElements.toNat.isPowerOfTwo) :
    init kmalloc r elementSize numElements = (-1, r) := by
  rw [isPowerOfTwo_iff, not_not] at h
  rw [init, if_pos h]

theorem init_accepted (r : CircularBufferPow2) (h : numElements.toNat.isPowerOfTwo) :
    (init kmalloc r elementSize numElements).1 =
      if kmalloc (requested elementSize numElements) = none then -enomem else 0 := by
  rw [init, if_neg ((isPowerOfTwo_iff _).mp h), requested]
  cases kmalloc (numElements * elementSize) <;> rfl

/-- The last slot decides: the block covers it if and only if the product did not wrap. -/
theorem slots_covered_iff (hpos : 0 < numElements.toNat) :
    (∀ i < numElements.toNat, SlotCovered (requested elementSize numElements) elementSize i) ↔
      numElements.toNat * elementSize.toNat < 2 ^ 64 := by
  have hsize : (requested elementSize numElements).toNat =
      numElements.toNat * elementSize.toNat % 2 ^ 64 := BitVec.toNat_mul _ _
  constructor
  · intro h
    have hlast := h (numElements.toNat - 1) (by omega)
    rw [SlotCovered, Nat.sub_add_cancel hpos, hsize] at hlast
    exact hlast.trans_lt (Nat.mod_lt _ (by omega))
  · intro h i hi
    rw [SlotCovered, hsize, Nat.mod_eq_of_lt h]
    exact Nat.mul_le_mul_right _ hi

end Init

/-- The block covers the slots exactly if `init` refuses the number of elements, `kmalloc`
answers `NULL`, or the product fits the word. -/
theorem init_covers_iff (kmalloc : SizeT → Option Mem) (r : CircularBufferPow2)
    (elementSize numElements : SizeT) :
    InitCovers kmalloc r elementSize numElements ↔
      ¬numElements.toNat.isPowerOfTwo ∨ kmalloc (requested elementSize numElements) = none ∨
        numElements.toNat * elementSize.toNat < 2 ^ 64 := by
  rw [InitCovers]
  by_cases hpow : numElements.toNat.isPowerOfTwo
  · have hpos : 0 < numElements.toNat := by
      obtain ⟨k, hk⟩ := hpow
      rw [hk]
      exact Nat.two_pow_pos k
    rw [init_accepted r hpow]
    by_cases hblock : kmalloc (requested elementSize numElements) = none
    · simp [hblock, enomem]
    · simp [hblock, hpow, slots_covered_iff hpos]
  · simp [init_refused r hpow, hpow]

/-- For two elements of `2 ^ 63 + 8` bytes `kmalloc` is asked for 16 bytes. -/
theorem init_uncovered :
    ¬InitCovers (fun _ => some null) default (BitVec.ofNat 64 (2 ^ 63 + 8)) 2#64 := by
  have hzero : (init (fun _ => some null) default (BitVec.ofNat 64 (2 ^ 63 + 8)) 2#64).1 = 0 := rfl
  rw [InitCovers, if_pos hzero]
  rintro ⟨-, hslots⟩
  exact absurd (hslots 0 (by decide)) (by unfold SlotCovered; decide)

end LinuxOddsAndEnds.CircBufferPow2
