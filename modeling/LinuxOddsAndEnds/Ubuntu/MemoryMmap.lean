import LinuxOddsAndEnds.Foundation.Memory
import Mathlib.Data.Int.Notation

/-!
# Mapping the buffer of the memory module

`memory_mmap` of `7_memory/memory.c`, for every page size. The offset is a page number
that the source shifts to bytes in an `unsigned long`; what the shift drops is not seen by
the two tests that follow. Apart from that the tests are exact: a request that reaches
`remap_pfn_range` maps pages of the buffer, and the others are rejected.
-/

namespace LinuxOddsAndEnds.Ubuntu.Memory

open Foundation

abbrev ULong := BitVec 64

def einval : ℤ := 22
def eagain : ℤ := 11

def vmWrite : ULong := 0x2
def vmShared : ULong := 0x8
def vmLocked : ULong := 0x2000

/-- The fields of `struct vm_area_struct` that the handler looks at. -/
structure VmAreaStruct where
  vmStart : ULong
  vmEnd : ULong
  vmPgoff : ULong
  vmFlags : ULong
  vmPageProt : ULong
  ordered : vmStart.toNat ≤ vmEnd.toNat
  deriving DecidableEq

/-- `KMALLOC_MMAP_PAGES*PAGE_SIZE`. -/
def kmallocMmpBufferSize (pageShift : ℕ) : ULong := 16#64 * (1#64 <<< pageShift)

/-- `mmap_kmalloc_init_kernel_`: a block that lies in the linear mapping of the physical
memory, which starts at `pageOffset`. -/
structure KmallocBuffer (pageShift : ℕ) where
  start : ULong
  pageOffset : ULong
  fits : (start - pageOffset).toNat + (kmallocMmpBufferSize pageShift).toNat < 2 ^ 64

structure Remap where
  addr : ULong
  pfn : ULong
  size : ULong
  prot : ULong
  deriving DecidableEq

/-- What the handler returns, the area it leaves, and its call of `remap_pfn_range`. -/
structure MmapResult where
  ret : ℤ
  vma : VmAreaStruct
  remap : Option Remap

def VmAreaStruct.size (vma : VmAreaStruct) : ULong := vma.vmEnd - vma.vmStart

def VmAreaStruct.offset (vma : VmAreaStruct) (pageShift : ℕ) : ULong := vma.vmPgoff <<< pageShift

/-- `page_to_pfn(virt_to_page(kaddr))`. -/
def virtToPfn (pageShift : ℕ) (pageOffset kaddr : ULong) : ULong :=
  (kaddr - pageOffset) >>> pageShift

/-- The call that the handler makes once a request has passed the tests. -/
def VmAreaStruct.remap {pageShift : ℕ} (vma : VmAreaStruct) (b : KmallocBuffer pageShift) :
    Remap where
  addr := vma.vmStart
  pfn := virtToPfn pageShift b.pageOffset (b.start + vma.offset pageShift)
  size := vma.size
  prot := vma.vmPageProt

/-- A private mapping that may be written. -/
def VmAreaStruct.privateWrite (vma : VmAreaStruct) : Bool :=
  vma.vmFlags &&& vmWrite ≠ 0#64 ∧ vma.vmFlags &&& vmShared = 0#64

def memoryMmap {pageShift : ℕ} (b : KmallocBuffer pageShift) (remapPfnRange : Remap → ℤ)
    (vma : VmAreaStruct) : MmapResult :=
  if kmallocMmpBufferSize pageShift < vma.offset pageShift then ⟨-einval, vma, none⟩
  else if kmallocMmpBufferSize pageShift - vma.offset pageShift < vma.size then
    ⟨-einval, vma, none⟩
  else if vma.privateWrite then ⟨-einval, vma, none⟩
  else
    let locked := { vma with vmFlags := vma.vmFlags ||| vmLocked }
    if remapPfnRange (vma.remap b) ≠ 0 then ⟨-eagain, locked, some (vma.remap b)⟩
    else ⟨0, locked, some (vma.remap b)⟩

def pagesOf (pageShift bytes : ℕ) : ℕ := (bytes + 2 ^ pageShift - 1) / 2 ^ pageShift

/-- The page frames that `remap_pfn_range` maps, one after the other. -/
def Remap.frames (r : Remap) (pageShift : ℕ) : List ℕ :=
  (List.range (pagesOf pageShift r.size.toNat)).map fun i => r.pfn.toNat + i

/-- The page frames of `n` pages of the buffer from a byte offset on. -/
def KmallocBuffer.frames {pageShift : ℕ} (b : KmallocBuffer pageShift) (off n : ℕ) : List ℕ :=
  (List.range n).map fun i =>
    ((b.start - b.pageOffset).toNat + off + i * 2 ^ pageShift) / 2 ^ pageShift

/-- In unbounded integers, a call of `remap_pfn_range` stays within the buffer and maps its
pages from the requested offset on, as many as the area has; every other request is rejected
and changes nothing. -/
structure MmapBounded {pageShift : ℕ} (b : KmallocBuffer pageShift) (vma : VmAreaStruct)
    (out : MmapResult) : Prop where
  reached : ∀ r, out.remap = some r →
    vma.vmPgoff.toNat * 2 ^ pageShift + (vma.vmEnd.toNat - vma.vmStart.toNat) ≤
        (kmallocMmpBufferSize pageShift).toNat ∧
      r.addr = vma.vmStart ∧
      r.frames pageShift = b.frames (vma.vmPgoff.toNat * 2 ^ pageShift)
        (pagesOf pageShift (vma.vmEnd.toNat - vma.vmStart.toNat))
  rejected : out.remap = none → out.ret = -einval ∧ out.vma = vma

section Mapping

variable {pageShift : ℕ} {b : KmallocBuffer pageShift} {vma : VmAreaStruct}
  {remapPfnRange : Remap → ℤ}

theorem toNat_size (vma : VmAreaStruct) :
    vma.size.toNat = vma.vmEnd.toNat - vma.vmStart.toNat :=
  BitVec.toNat_sub_of_le vma.ordered

theorem toNat_offset (vma : VmAreaStruct) (pageShift : ℕ) :
    (vma.offset pageShift).toNat = vma.vmPgoff.toNat * 2 ^ pageShift % 2 ^ 64 := by
  rw [VmAreaStruct.offset, BitVec.toNat_shiftLeft, Nat.shiftLeft_eq]

/-- The two tests together are one comparison without wrapping. -/
theorem memoryMmap_eq (b : KmallocBuffer pageShift) (remapPfnRange : Remap → ℤ)
    (vma : VmAreaStruct) : memoryMmap b remapPfnRange vma =
    if (vma.offset pageShift).toNat + (vma.vmEnd.toNat - vma.vmStart.toNat) ≤
        (kmallocMmpBufferSize pageShift).toNat ∧ vma.privateWrite = false then
      ⟨if remapPfnRange (vma.remap b) ≠ 0 then -eagain else 0,
        { vma with vmFlags := vma.vmFlags ||| vmLocked }, some (vma.remap b)⟩
    else ⟨-einval, vma, none⟩ := by
  have hsize := toNat_size vma
  unfold memoryMmap
  by_cases hoff : kmallocMmpBufferSize pageShift < vma.offset pageShift
  · rw [if_pos hoff, if_neg]
    rw [BitVec.lt_def] at hoff
    omega
  · rw [if_neg hoff]
    rw [BitVec.not_lt, BitVec.le_def] at hoff
    have hrest := BitVec.toNat_sub_of_le (BitVec.le_def.mpr hoff)
    by_cases hlen : kmallocMmpBufferSize pageShift - vma.offset pageShift < vma.size
    · rw [if_pos hlen, if_neg]
      rw [BitVec.lt_def] at hlen
      omega
    · rw [if_neg hlen]
      rw [BitVec.not_lt, BitVec.le_def] at hlen
      cases hwrite : vma.privateWrite with
      | true => simp
      | false =>
        have hpass : (vma.offset pageShift).toNat + (vma.vmEnd.toNat - vma.vmStart.toNat) ≤
            (kmallocMmpBufferSize pageShift).toNat ∧ false = false := ⟨by omega, rfl⟩
        rw [if_pos hpass, if_neg Bool.false_ne_true]
        dsimp only
        split_ifs <;> rfl

theorem remap_frames
    (hpass : (vma.offset pageShift).toNat ≤ (kmallocMmpBufferSize pageShift).toNat) :
    (vma.remap b).frames pageShift =
      b.frames (vma.offset pageShift).toNat
        (pagesOf pageShift (vma.vmEnd.toNat - vma.vmStart.toNat)) := by
  have hfits := b.fits
  have hpfn : (vma.remap b).pfn.toNat =
      ((b.start - b.pageOffset).toNat + (vma.offset pageShift).toNat) / 2 ^ pageShift := by
    have haddr : b.start + vma.offset pageShift - b.pageOffset =
        b.start - b.pageOffset + vma.offset pageShift := by
      rw [BitVec.sub_eq_add_neg, BitVec.sub_eq_add_neg, BitVec.add_assoc, BitVec.add_assoc,
        BitVec.add_comm (vma.offset pageShift)]
    rw [VmAreaStruct.remap, virtToPfn, haddr, BitVec.toNat_ushiftRight, Nat.shiftRight_eq_div_pow,
      BitVec.toNat_add, Nat.mod_eq_of_lt (by omega)]
  have hsize : (vma.remap b).size.toNat = vma.vmEnd.toNat - vma.vmStart.toNat := toNat_size vma
  rw [Remap.frames, KmallocBuffer.frames, hsize]
  refine List.map_congr_left fun i _ => ?_
  rw [hpfn, Nat.add_mul_div_right _ _ (Nat.two_pow_pos pageShift)]

end Mapping

/-- The handler keeps a request within the buffer exactly if its offset in bytes fits an
`unsigned long`, or the tests reject it in any case. -/
theorem mmap_bounded_iff {pageShift : ℕ} (b : KmallocBuffer pageShift) (remapPfnRange : Remap → ℤ)
    (vma : VmAreaStruct) :
    MmapBounded b vma (memoryMmap b remapPfnRange vma) ↔
      vma.vmPgoff.toNat * 2 ^ pageShift < 2 ^ 64 ∨
        (kmallocMmpBufferSize pageShift).toNat < vma.vmPgoff.toNat * 2 ^ pageShift % 2 ^ 64 +
          (vma.vmEnd.toNat - vma.vmStart.toNat) ∨ vma.privateWrite = true := by
  rw [memoryMmap_eq, toNat_offset]
  by_cases hpass : vma.vmPgoff.toNat * 2 ^ pageShift % 2 ^ 64 +
      (vma.vmEnd.toNat - vma.vmStart.toNat) ≤ (kmallocMmpBufferSize pageShift).toNat ∧
        vma.privateWrite = false
  · rw [if_pos hpass]
    obtain ⟨hin, hshared⟩ := hpass
    rw [hshared, or_iff_left Bool.false_ne_true, or_iff_left hin.not_gt]
    constructor
    · intro h
      have hbound := (h.reached _ rfl).1
      have hsize := (kmallocMmpBufferSize pageShift).isLt
      omega
    · intro hfit
      rw [Nat.mod_eq_of_lt hfit] at hin
      have hoff : (vma.offset pageShift).toNat = vma.vmPgoff.toNat * 2 ^ pageShift := by
        rw [toNat_offset, Nat.mod_eq_of_lt hfit]
      refine ⟨?_, nofun⟩
      rintro r ⟨rfl⟩
      refine ⟨hin, rfl, ?_⟩
      rw [← hoff]
      exact remap_frames (by omega)
  · rw [if_neg hpass]
    refine iff_of_true ⟨nofun, fun _ => ⟨rfl, rfl⟩⟩ (Or.inr ?_)
    rw [not_and_or, not_le, Bool.not_eq_false] at hpass
    exact hpass

/-- A shared mapping of the page `2 ^ 52` of 4 KiB. -/
def farPage : VmAreaStruct :=
  ⟨0, 4096, BitVec.ofNat 64 (2 ^ 52), vmShared, 0, by decide⟩

def smallPages : KmallocBuffer 12 := ⟨0, 0, by decide⟩

/-- The shift leaves nothing of the offset. -/
theorem mmap_far_page :
    ¬MmapBounded smallPages farPage (memoryMmap smallPages (fun _ => 0) farPage) := by
  intro h
  have hbound := (h.reached _ rfl).1
  exact absurd hbound (by decide)

end LinuxOddsAndEnds.Ubuntu.Memory
