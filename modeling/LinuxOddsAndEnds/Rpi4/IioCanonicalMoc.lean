import LinuxOddsAndEnds.Foundation.Memory
import LinuxOddsAndEnds.Foundation.Throughout
import Mathlib.Logic.Function.Basic

/-!
# The counter behind the samples

`private_data` of `3_iio/iio_canonical_moc.c` as the bytes it is made of. The trigger
handler fills the first bytes of `buffer` with samples, and the IIO core stores the
timestamp at the next offset that eight divides. The buffer ends four bytes before the
timestamp does, and the counter lies behind the buffer.
-/

namespace LinuxOddsAndEnds.Rpi4.Iio

open Foundation

/-- `s8 buffer[12]`, after two `int`. -/
def bufferOffset : ℕ := 8

def bufferSize : ℕ := 12

/-- `u8 moc_data`, before the lock. -/
def mocDataOffset : ℕ := bufferOffset + bufferSize

/-- `ARRAY_SIZE(moc_channels)`: four voltages and the timestamp. -/
def numChannels : ℕ := 5

/-- Where `iio_push_to_buffers_with_timestamp` stores the timestamp: the samples, padded. -/
def timestampOffset : ℕ := 8

inductive Mask where
  | raw
  | scale
  | other
  deriving DecidableEq

inductive Action where
  /-- The interrupt, with `pf->timestamp` and `indio_dev->scan_timestamp`. -/
  | trigger (timestamp : BitVec 64) (scanTimestamp : Bool)
  | readRaw (channel : Fin 4) (mask : Mask)

inductive Seen where
  /-- A byte stored by the handler or by the push. -/
  | stored (offset : ℕ)
  /-- The bytes pushed, with `moc_data` before the trigger. -/
  | scan (before : Byte) (bytes : List Byte)
  | val (x : Byte)
  | range (val val2 : ℤ)
  | einval
  deriving DecidableEq

/-- The memory and what was stored while a handler runs. -/
structure Handling where
  data : Mem
  seen : List Seen

def Handling.put (h : Handling) (offset : ℕ) (b : Byte) : Handling :=
  ⟨Function.update h.data offset b, h.seen ++ [Seen.stored offset]⟩

def Handling.putBytes (offset : ℕ) : List Byte → Handling → Handling
  | [], h => h
  | b :: bs, h => putBytes (offset + 1) bs (h.put offset b)

/-- The loop over `moc_idx`. -/
def storeSamples : ℕ → Handling → Handling
  | 0, h => h
  | mocIdx + 1, h =>
    let h := storeSamples mocIdx h
    h.put (bufferOffset + mocIdx) (BitVec.ofNat 8 mocIdx + h.data mocDataOffset)

/-- `data->moc_data++`. -/
def incMocData (data : Mem) : Mem := Function.update data mocDataOffset (data mocDataOffset + 1)

def pushTimestamp (timestamp : BitVec 64) (h : Handling) : Handling :=
  h.putBytes (bufferOffset + timestampOffset) (leBytes 8 timestamp.toNat)

def mocTriggerHandler (data : Mem) (timestamp : BitVec 64) (scanTimestamp : Bool) :
    Mem × List Seen :=
  let h := storeSamples (numChannels - 1) ⟨data, []⟩
  let h := { h with data := incMocData h.data }
  let h := if scanTimestamp then pushTimestamp timestamp h else h
  let scanBytes := if scanTimestamp then timestampOffset + 8 else numChannels - 1
  (h.data, h.seen ++ [Seen.scan (data mocDataOffset) (load h.data bufferOffset scanBytes)])

def mocRange : Fin 4 → ℤ × ℤ
  | 0 => (0, 250000)
  | 1 => (1, 500000)
  | 2 => (2, 750000)
  | 3 => (3, 0)

def mocReadRaw (data : Mem) (channel : Fin 4) : Mask → Mem × List Seen
  | .raw => (incMocData data, [.val (data mocDataOffset)])
  | .scale => (data, [.range (mocRange channel).1 (mocRange channel).2])
  | .other => (data, [.einval])

/-- Handlers and reads, each run whole. -/
def mocDevice : Machine Mem Action Seen
  | data, .trigger timestamp scanTimestamp =>
    some (mocTriggerHandler data timestamp scanTimestamp)
  | data, .readRaw channel mask => some (mocReadRaw data channel mask)

/-- `devm_iio_device_alloc` gives zeroed memory. -/
def probed : Mem := fun _ => 0

def Seen.counts : Seen → Bool
  | .scan _ _ | .val _ => true
  | _ => false

structure Accounted (data : Mem) (tr : List Seen) : Prop where
  inside : ∀ i, .stored i ∈ tr → bufferOffset ≤ i ∧ i < bufferOffset + bufferSize
  counter : data mocDataOffset = BitVec.ofNat 8 (tr.countP Seen.counts)
  samples : ∀ before bytes, .scan before bytes ∈ tr →
    ∀ i < numChannels - 1, bytes[i]? = some (before + BitVec.ofNat 8 i)

def Action.untimed : Action → Bool
  | .trigger _ scanTimestamp => !scanTimestamp
  | .readRaw _ _ => true

section Handlers

variable {h : Handling} {data : Mem} {n i : ℕ}

theorem storeSamples_seen (n : ℕ) (h : Handling) : (storeSamples n h).seen =
    h.seen ++ (List.range n).map fun i => Seen.stored (bufferOffset + i) := by
  induction n with
  | zero => simp [storeSamples]
  | succ n ih => simp [storeSamples, Handling.put, ih, List.range_succ]

theorem storeSamples_data_of_le (hi : bufferOffset + n ≤ i) :
    (storeSamples n h).data i = h.data i := by
  induction n with
  | zero => rfl
  | succ n ih =>
    have hne : i ≠ bufferOffset + n := by omega
    rw [storeSamples, Handling.put]
    simp only [Function.update_of_ne hne]
    exact ih (by omega)

/-- While the samples stay in the buffer, the counter is the same for all of them. -/
theorem storeSamples_sample (hn : n ≤ bufferSize) (hi : i < n) :
    (storeSamples n h).data (bufferOffset + i) = h.data mocDataOffset + BitVec.ofNat 8 i := by
  induction n with
  | zero => exact absurd hi (Nat.not_lt_zero i)
  | succ n ih =>
    rw [storeSamples, Handling.put]
    by_cases hlast : i = n
    · subst hlast
      have hcounter : (storeSamples i h).data mocDataOffset = h.data mocDataOffset :=
        storeSamples_data_of_le (by rw [mocDataOffset]; omega)
      simp only [Function.update_self, hcounter]
      exact BitVec.add_comm ..
    · have hne : bufferOffset + i ≠ bufferOffset + n := by omega
      simp only [Function.update_of_ne hne]
      exact ih (by omega) (by omega)

theorem incMocData_self (data : Mem) :
    incMocData data mocDataOffset = data mocDataOffset + 1 := Function.update_self ..

theorem incMocData_of_ne (hi : i ≠ mocDataOffset) : incMocData data i = data i :=
  Function.update_of_ne hi ..

theorem mem_putBytes_seen {x : Seen} (bs : List Byte) (offset : ℕ) (h : Handling)
    (hx : x ∈ h.seen) : x ∈ (h.putBytes offset bs).seen := by
  induction bs generalizing offset h with
  | nil => exact hx
  | cons b bs ih => exact ih _ _ (List.mem_append_left _ hx)

theorem stored_mem_putBytes (bs : List Byte) (offset : ℕ) (h : Handling) (hi : i < bs.length) :
    .stored (offset + i) ∈ (h.putBytes offset bs).seen := by
  induction bs generalizing offset h i with
  | nil => exact absurd hi (Nat.not_lt_zero i)
  | cons b bs ih =>
    cases i with
    | zero => exact mem_putBytes_seen bs _ _ (List.mem_append_right _ List.mem_cons_self)
    | succ i =>
      have hrest := ih (offset + 1) (h.put offset b) (Nat.lt_of_succ_lt_succ hi)
      rwa [Nat.add_assoc, Nat.add_comm 1 i] at hrest

end Handlers

section Runs

variable {data data' : Mem} {tr seen : List Seen} {timestamp : BitVec 64} {channel : Fin 4}

theorem mocTriggerHandler_untimed_seen : (mocTriggerHandler data timestamp false).2 =
    (List.range (numChannels - 1)).map (fun i => Seen.stored (bufferOffset + i)) ++
      [Seen.scan (data mocDataOffset) (load (mocTriggerHandler data timestamp false).1 bufferOffset
        (numChannels - 1))] := by
  simp [mocTriggerHandler, storeSamples_seen]

theorem mocTriggerHandler_untimed_counter :
    (mocTriggerHandler data timestamp false).1 mocDataOffset = data mocDataOffset + 1 := by
  have hsame : (storeSamples (numChannels - 1) ⟨data, []⟩).data mocDataOffset =
      data mocDataOffset := storeSamples_data_of_le (by decide)
  simp [mocTriggerHandler, incMocData_self, hsame]

theorem mocTriggerHandler_untimed_sample {i : ℕ} (hi : i < numChannels - 1) :
    (mocTriggerHandler data timestamp false).1 (bufferOffset + i) =
      data mocDataOffset + BitVec.ofNat 8 i := by
  have hne : bufferOffset + i ≠ mocDataOffset := by
    simp only [numChannels, mocDataOffset, bufferSize] at *
    omega
  have hsample := storeSamples_sample (h := ⟨data, []⟩) (n := numChannels - 1) (by decide) hi
  simpa [mocTriggerHandler, incMocData_of_ne hne] using hsample

theorem Accounted.trigger (h : Accounted data tr) :
    Accounted (mocTriggerHandler data timestamp false).1
      (tr ++ (mocTriggerHandler data timestamp false).2) where
  inside := by
    intro i hi
    rw [mocTriggerHandler_untimed_seen] at hi
    rcases List.mem_append.mp hi with hi | hi
    · exact h.inside i hi
    · obtain ⟨j, hj, rfl⟩ : ∃ j < numChannels - 1, bufferOffset + j = i := by simpa using hi
      simp only [numChannels, bufferSize] at *
      omega
  counter := by
    rw [mocTriggerHandler_untimed_counter, mocTriggerHandler_untimed_seen, h.counter]
    simp [Seen.counts, List.countP_append, List.countP_map, Function.comp_def, BitVec.ofNat_add]
  samples := by
    intro before bytes hscan i hi
    rw [mocTriggerHandler_untimed_seen] at hscan
    rcases List.mem_append.mp hscan with hscan | hscan
    · exact h.samples before bytes hscan i hi
    · obtain ⟨rfl, rfl⟩ : before = data mocDataOffset ∧ bytes =
          load (mocTriggerHandler data timestamp false).1 bufferOffset (numChannels - 1) := by
        simpa using hscan
      have hsample : (mocTriggerHandler data timestamp false).1 (bufferOffset + i) =
          data mocDataOffset + BitVec.ofNat 8 i := mocTriggerHandler_untimed_sample hi
      simp [load, hi, hsample]

theorem Accounted.concat {o : Seen} (h : Accounted data tr) (hstored : ∀ i, o ≠ .stored i)
    (hscan : ∀ before bytes, o ≠ .scan before bytes)
    (hcounter : data' mocDataOffset = BitVec.ofNat 8 ((tr ++ [o]).countP Seen.counts)) :
    Accounted data' (tr ++ [o]) where
  inside i hi := h.inside i (by simpa [Ne.symm (hstored i)] using hi)
  counter := hcounter
  samples before bytes hmem :=
    h.samples before bytes (by simpa [Ne.symm (hscan before bytes)] using hmem)

theorem Accounted.readRaw (h : Accounted data tr) (mask : Mask) :
    Accounted (mocReadRaw data channel mask).1 (tr ++ (mocReadRaw data channel mask).2) := by
  cases mask with
  | raw =>
    refine h.concat (by simp) (by simp) ?_
    simp [mocReadRaw, incMocData_self, h.counter, Seen.counts, BitVec.ofNat_add]
  | scale | other =>
    refine h.concat (by simp) (by simp) ?_
    simp [mocReadRaw, h.counter, Seen.counts]

/-- The fifth byte of the timestamp falls on the counter. -/
theorem stored_counter (data : Mem) (timestamp : BitVec 64) :
    .stored mocDataOffset ∈ (mocTriggerHandler data timestamp true).2 := by
  refine List.mem_append_left _ ?_
  exact stored_mem_putBytes (leBytes 8 timestamp.toNat) (bufferOffset + timestampOffset) _
    (i := 4) (by simp)

theorem accounted_probed : Accounted probed [] :=
  ⟨by simp, rfl, by simp⟩

theorem accounted_step {a : Action} (h : Accounted data tr) (ha : a.untimed = true)
    (hs : mocDevice data a = some (data', seen)) : Accounted data' (tr ++ seen) := by
  cases a with
  | trigger timestamp scanTimestamp =>
    obtain rfl : scanTimestamp = false := by simpa [Action.untimed] using ha
    obtain ⟨rfl, rfl⟩ := Prod.mk.inj (Option.some.inj hs)
    exact h.trigger
  | readRaw channel mask =>
    obtain ⟨rfl, rfl⟩ := Prod.mk.inj (Option.some.inj hs)
    exact h.readRaw mask

theorem not_accounted_step {a : Action} (ha : a.untimed = false)
    (hs : mocDevice data a = some (data', seen)) : ¬Accounted data' (tr ++ seen) := by
  cases a with
  | trigger timestamp scanTimestamp =>
    obtain rfl : scanTimestamp = true := by simpa [Action.untimed] using ha
    obtain ⟨rfl, rfl⟩ := Prod.mk.inj (Option.some.inj hs)
    intro h
    have hlast := h.inside mocDataOffset (List.mem_append_right _ (stored_counter data timestamp))
    exact absurd hlast.2 (Nat.lt_irrefl _)
  | readRaw channel mask => cases ha

/-- Samples and counter are right throughout a run if and only if no trigger of it stores a
timestamp. -/
theorem sample_counter_iff (as : List Action) :
    Throughout mocDevice Accounted probed as ↔ ∀ a ∈ as, a.untimed = true := by
  have hrun : (exec mocDevice probed as).isSome :=
    exec_isSome_of_total (fun _ a => by cases a <;> rfl) as probed
  rw [← exec_when_isSome_iff as probed hrun]
  exact throughout_iff (fun _ _ h => h) (fun _ _ _ _ _ h ha hs => accounted_step h ha hs)
    (fun _ _ _ _ _ _ ha hs => not_accounted_step ha hs) accounted_probed hrun

/-- After the first trigger the counter is 1; the fifth byte of the timestamp makes it 7. -/
theorem counter_overwritten :
    ¬Throughout mocDevice Accounted probed [.trigger 0x0000000700000000 true] := by
  intro h
  have hlast := h.last rfl
  exact absurd hlast.counter (by decide)

end Runs

end LinuxOddsAndEnds.Rpi4.Iio
