import LinuxOddsAndEnds.Foundation.Memory
import LinuxOddsAndEnds.Foundation.Resources
import Mathlib.Data.Int.Notation
import Mathlib.Logic.Function.Basic

/-!
# Echo through a DMA channel

`dma_write` of `4_dma/dma_moc.c` copies user bytes to the transmit buffer, lets the DMA
engine copy them to the receive buffer and logs what arrived there as a string, which it
ends for the moment at a fixed index. The size of the buffers comes from the device tree and
may be smaller than that.
-/

namespace LinuxOddsAndEnds.Rpi4.Dma

open Foundation

/-- `struct dma_private_data`; both buffers have the configured size. -/
structure DmaPrivateData where
  dataTxBuffer : Mem
  dataRxBuffer : Mem
  kmallocMmapBufferSize : BitVec 32

inductive Buffer where
  | tx
  | rx
  deriving DecidableEq

inductive Direction where
  | toDevice
  | fromDevice
  deriving DecidableEq

/-- What `dma_map_single` made and `dma_unmap_single` is told. -/
structure Mapping where
  addr : BitVec 64
  size : SizeT
  direction : Direction
  deriving DecidableEq

/-- A call, with what the functions that it calls answer. -/
structure Call where
  userBuf : Mem
  /-- How many bytes `copy_from_user` can read. -/
  readable : ℕ
  count : SizeT
  dmaSrcAddr : BitVec 64
  dmaDestAddr : BitVec 64
  /-- `device_prep_dma_memcpy` does not return `NULL`. -/
  descriptor : Bool
  /-- `dma_submit_error` is false. -/
  submitted : Bool

def Call.src (c : Call) (count : SizeT) : Mapping := ⟨c.dmaSrcAddr, count, .toDevice⟩

def Call.dest (c : Call) (count : SizeT) : Mapping := ⟨c.dmaDestAddr, count, .toDevice⟩

structure Outcome where
  touched : List (Buffer × ℕ)
  mappings : List (ResourceEvent Mapping)
  /-- One of the functions called failed. -/
  failed : Bool
  /-- `none` after a `NULL` dereference. -/
  ret : Option ℤ

def einval : ℤ := 22

/-- `of_property_read_u32` leaves the zeroed field when there is no value. -/
def dmaProbe (bufferSize : Option (BitVec 32)) : DmaPrivateData :=
  ⟨fun _ => 0, fun _ => 0, bufferSize.getD 0⟩

def clamp (count : SizeT) (size : BitVec 32) : SizeT :=
  if size.setWidth 64 < count then size.setWidth 64 else count

/-- The number of bytes not copied, and the buffer; these bytes are zeroed. -/
def copyFromUser (dst userBuf : Mem) (readable n : ℕ) : ℕ × Mem :=
  (n - readable, memcpy (memcpy dst 0 userBuf (min n readable)) (min n readable) (fun _ => 0)
    (n - readable))

def upTo (b : Buffer) (n : ℕ) : List (Buffer × ℕ) := (List.range n).map fun i => (b, i)

/-- Where the log ends the string. -/
def stashIndex : ℕ := 16

/-- The indices that `%s` looks at, up to the first NUL. -/
def printed (rx : Mem) : List ℕ := (List.range (stashIndex + 1)).filter fun i => ∀ j < i, rx j ≠ 0

/-- The receive buffer after the log lines, and the indices touched. -/
def logReceived (rx : Mem) : Mem × List ℕ :=
  let stashNull := rx stashIndex
  let ended := Function.update rx stashIndex 0
  (Function.update ended stashIndex stashNull,
    [stashIndex, stashIndex] ++ printed ended ++ [0, 1, 2, stashIndex])

/-- `retval` is an `int`. -/
def dmaWrite (d : DmaPrivateData) (c : Call) : DmaPrivateData × Outcome :=
  let count := clamp c.count d.kmallocMmapBufferSize
  let n := count.toNat
  let copy := copyFromUser d.dataTxBuffer c.userBuf c.readable n
  let d := { d with dataTxBuffer := copy.2 }
  let retval := BitVec.ofNat 32 copy.1
  if retval ≠ 0 then (d, ⟨upTo .tx n, [], true, some (-einval)⟩)
  else
    let touched := upTo .tx n ++ [(Buffer.tx, 0)]
    let mapped : List (ResourceEvent Mapping) := [.acquire (c.src count), .acquire (c.dest count)]
    if c.descriptor = false then (d, ⟨touched, mapped, true, none⟩)
    else if c.submitted = false then (d, ⟨touched, mapped, true, some (-einval)⟩)
    else
      let log := logReceived (memcpy d.dataRxBuffer 0 d.dataTxBuffer n)
      ({ d with dataRxBuffer := log.1 },
        ⟨touched ++ upTo .tx n ++ upTo .rx n ++ log.2.map fun i => (Buffer.rx, i),
          mapped ++ [ResourceEvent.release (c.src count), .release (c.dest count)], false,
          some (n : ℤ)⟩)

def Completes (d : DmaPrivateData) (c : Call) : Prop :=
  ∃ n : ℕ, (dmaWrite d c).2.ret = some (n : ℤ)

def echoLength (d : DmaPrivateData) (c : Call) : ℕ :=
  min c.count.toNat d.kmallocMmapBufferSize.toNat

structure Echoed (d : DmaPrivateData) (c : Call) : Prop where
  returned : (dmaWrite d c).2.ret = some (echoLength d c : ℤ)
  tx : load (dmaWrite d c).1.dataTxBuffer 0 (echoLength d c) = load c.userBuf 0 (echoLength d c)
  rx : load (dmaWrite d c).1.dataRxBuffer 0 (echoLength d c) = load c.userBuf 0 (echoLength d c)
  txRest : ∀ i, echoLength d c ≤ i → (dmaWrite d c).1.dataTxBuffer i = d.dataTxBuffer i
  rxRest : ∀ i, echoLength d c ≤ i → (dmaWrite d c).1.dataRxBuffer i = d.dataRxBuffer i
  inside : ∀ b i, (b, i) ∈ (dmaWrite d c).2.touched → i < d.kmallocMmapBufferSize.toNat

section Parts

variable {d : DmaPrivateData} {c : Call} {n : ℕ}

theorem toNat_clamp (count : SizeT) (size : BitVec 32) :
    (clamp count size).toNat = min count.toNat size.toNat := by
  have hsize : (size.setWidth 64).toNat = size.toNat := BitVec.toNat_setWidth_of_le (by decide)
  rw [clamp]
  split_ifs with h
  · rw [BitVec.lt_def, hsize] at h
    rw [hsize, min_eq_right h.le]
  · rw [BitVec.lt_def, hsize, not_lt] at h
    rw [min_eq_left h]

/-- Stored in an `int`, the number of bytes not copied is still 0 only if it was. -/
theorem retval_eq_zero_iff (d : DmaPrivateData) (c : Call) :
    BitVec.ofNat 32 (echoLength d c - c.readable) = 0 ↔ echoLength d c ≤ c.readable := by
  have hsize : echoLength d c ≤ d.kmallocMmapBufferSize.toNat := min_le_right ..
  have hlt := d.kmallocMmapBufferSize.isLt
  rw [← BitVec.toNat_inj, BitVec.toNat_ofNat, Nat.mod_eq_of_lt (by omega)]
  exact Nat.sub_eq_zero_iff_le

theorem logReceived_fst (rx : Mem) : (logReceived rx).1 = rx := by
  simp [logReceived]

theorem mem_logReceived_le {rx : Mem} {i : ℕ} (hi : i ∈ (logReceived rx).2) : i ≤ stashIndex := by
  simp only [logReceived, printed, stashIndex, List.mem_append, List.mem_filter, List.mem_range,
    List.mem_cons, List.not_mem_nil, or_false] at *
  omega

theorem stashIndex_mem_logReceived (rx : Mem) : stashIndex ∈ (logReceived rx).2 := by
  simp [logReceived]

theorem copyFromUser_complete {dst userBuf : Mem} {readable : ℕ} (h : n ≤ readable) :
    copyFromUser dst userBuf readable n = (0, memcpy dst 0 userBuf n) := by
  rw [copyFromUser, Nat.sub_eq_zero_of_le h, min_eq_left h, memcpy_zero]

end Parts

section Calls

variable {d : DmaPrivateData} {c : Call}

def clamped (d : DmaPrivateData) (c : Call) : SizeT := clamp c.count d.kmallocMmapBufferSize

theorem dmaWrite_of_fault (h : ¬echoLength d c ≤ c.readable) :
    (dmaWrite d c).2 = ⟨upTo .tx (echoLength d c), [], true, some (-einval)⟩ := by
  have hretval := mt (retval_eq_zero_iff d c).mp h
  rw [dmaWrite, toNat_clamp]
  exact congrArg Prod.snd (if_pos hretval)

theorem dmaWrite_of_unsubmitted (h : echoLength d c ≤ c.readable)
    (hbad : c.descriptor = false ∨ c.submitted = false) : (dmaWrite d c).2 =
      ⟨upTo .tx (echoLength d c) ++ [(Buffer.tx, 0)],
        [.acquire (c.src (clamped d c)), .acquire (c.dest (clamped d c))], true,
        if c.descriptor then some (-einval) else none⟩ := by
  rw [dmaWrite, toNat_clamp, ← echoLength, copyFromUser_complete h]
  rcases hbad with hdesc | hsub
  · simp [hdesc, clamped]
  · cases c.descriptor <;> simp [hsub, clamped]

theorem dmaWrite_of_submitted (h : echoLength d c ≤ c.readable) (hdesc : c.descriptor = true)
    (hsub : c.submitted = true) : dmaWrite d c =
      (⟨memcpy d.dataTxBuffer 0 c.userBuf (echoLength d c),
          memcpy d.dataRxBuffer 0 (memcpy d.dataTxBuffer 0 c.userBuf (echoLength d c))
            (echoLength d c), d.kmallocMmapBufferSize⟩,
        ⟨upTo .tx (echoLength d c) ++ [(Buffer.tx, 0)] ++ upTo .tx (echoLength d c) ++
            upTo .rx (echoLength d c) ++ (logReceived (memcpy d.dataRxBuffer 0
              (memcpy d.dataTxBuffer 0 c.userBuf (echoLength d c)) (echoLength d c))).2.map
                fun i => (Buffer.rx, i),
          [.acquire (c.src (clamped d c)), .acquire (c.dest (clamped d c)),
            .release (c.src (clamped d c)), .release (c.dest (clamped d c))],
          false, some (echoLength d c : ℤ)⟩) := by
  rw [dmaWrite, toNat_clamp, ← echoLength, copyFromUser_complete h]
  simp [hdesc, hsub, logReceived_fst, clamped]

theorem Completes.submitted (h : Completes d c) :
    echoLength d c ≤ c.readable ∧ c.descriptor = true ∧ c.submitted = true := by
  obtain ⟨n, hn⟩ := h
  have hread : echoLength d c ≤ c.readable := by
    by_contra hfault
    rw [dmaWrite_of_fault hfault] at hn
    have heinval : -einval = (n : ℤ) := Option.some.inj hn
    simp only [einval] at heinval
    omega
  by_cases hbad : c.descriptor = false ∨ c.submitted = false
  · rw [dmaWrite_of_unsubmitted hread hbad] at hn
    dsimp only at hn
    split_ifs at hn
    have heinval : -einval = (n : ℤ) := Option.some.inj hn
    simp only [einval] at heinval
    omega
  · rw [not_or, Bool.not_eq_false, Bool.not_eq_false] at hbad
    exact ⟨hread, hbad⟩

theorem mem_upTo {b b' : Buffer} {n i : ℕ} : (b', i) ∈ upTo b n ↔ b' = b ∧ i < n := by
  simp [upTo, and_comm, eq_comm]

/-- A completed call stays inside the buffers and echoes if and only if the index at which the
logged string ends is inside. -/
theorem dma_write_echo_iff (h : Completes d c) :
    Echoed d c ↔ stashIndex < d.kmallocMmapBufferSize.toNat := by
  obtain ⟨hread, hdesc, hsub⟩ := h.submitted
  have hwrite := dmaWrite_of_submitted hread hdesc hsub
  have hclamp : echoLength d c ≤ d.kmallocMmapBufferSize.toNat := min_le_right ..
  constructor
  · intro hechoed
    refine hechoed.inside .rx stashIndex ?_
    rw [hwrite]
    refine List.mem_append_right _ (List.mem_map.mpr ⟨stashIndex, ?_, rfl⟩)
    exact stashIndex_mem_logReceived _
  · intro hsize
    refine ⟨?_, ?_, ?_, ?_, ?_, ?_⟩
    · rw [hwrite]
    · rw [hwrite, load_memcpy_same]
    · rw [hwrite, load_memcpy_same, load_memcpy_same]
    · intro i hi
      rw [hwrite]
      exact memcpy_of_ge _ _ (by rwa [Nat.zero_add])
    · intro i hi
      rw [hwrite]
      exact memcpy_of_ge _ _ (by rwa [Nat.zero_add])
    · intro b i hi
      rw [hwrite] at hi
      simp only [List.mem_append, mem_upTo, List.mem_singleton, Prod.mk.injEq,
        List.mem_map] at hi
      rcases hi with (((⟨-, hi⟩ | ⟨-, rfl⟩) | ⟨-, hi⟩) | ⟨-, hi⟩) | ⟨j, hj, -, rfl⟩
      · exact hi.trans_le hclamp
      · exact (Nat.zero_le stashIndex).trans_lt hsize
      · exact hi.trans_le hclamp
      · exact hi.trans_le hclamp
      · exact (mem_logReceived_le hj).trans_lt hsize

/-- A call in which nothing fails. -/
def smoothCall (count : SizeT) : Call :=
  ⟨fun _ => 65, count.toNat, count, 0x1000, 0x2000, true, true⟩

theorem dma_write_echo_page : Echoed (dmaProbe (some 4096)) (smoothCall 20) :=
  (dma_write_echo_iff ⟨20, by decide⟩).mpr (by decide)

/-- With 16 bytes the logged string ends one byte behind the buffer. -/
theorem echo_past_buffer : Completes (dmaProbe (some 16)) (smoothCall 16) ∧
    ¬Echoed (dmaProbe (some 16)) (smoothCall 16) := by
  refine ⟨⟨16, by decide⟩, fun h => ?_⟩
  exact absurd (h.inside .rx 16 (by decide)) (by decide)

end Calls

end LinuxOddsAndEnds.Rpi4.Dma
