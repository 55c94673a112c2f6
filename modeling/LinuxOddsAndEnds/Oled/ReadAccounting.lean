import LinuxOddsAndEnds.Foundation.Draining
import LinuxOddsAndEnds.Oled.GpioOledIrq

/-!
# Accounting of reads

The loop of `gpio_oled_irq_read` drains the bulk ring. A copy that fails, or a ring that
runs empty, overwrites the number of bytes read so far with an error, though the records
behind that number have been removed and copied.
-/

namespace LinuxOddsAndEnds.Oled

open Foundation CircBufferPow2

/-- The bulk ring as the loop sees it. -/
def bulkRing : Drainable CircularBufferPow2 (List Byte) where
  ready ring := decide (space ring ≠ 0#64)
  front ring := (front ring).map (element ring)
  pop := pop

theorem bulkRing_viewed (k : ℕ) : Viewed bulkRing fun _ ring q => Contents ring k q where
  front := by
    intro b ring q h
    cases q with
    | nil => simp [bulkRing, front_nil h]
    | cons e q => simp [bulkRing, (front_cons h).1, (front_cons h).2]
  pop h := pop_spec h
  ready := by
    intro b ring e q h
    have hlen := h.length_lt
    rw [List.length_cons] at hlen
    have hspace := space_spec (pop_spec h)
    rw [List.tail_cons] at hspace
    simp only [bulkRing, decide_eq_true_eq]
    intro h0
    rw [h0, BitVec.toNat_ofNat] at hspace
    omega

theorem readLoop_eq_drain (copyToUser : ℕ → Bool) (n : ℕ) :
    ∀ (done : ℕ) (ring : CircularBufferPow2), readLoop copyToUser n done ring =
      ⟨answerOf sizeofEventBulkData (-eperm) (bulkRing.drain copyToUser n done ring) done,
        (bulkRing.drain copyToUser n done ring).records,
        (bulkRing.drain copyToUser n done ring).rest⟩ := by
  induction n with
  | zero =>
    intro done ring
    simp [readLoop, Drainable.drain, answerOf]
  | succ n ih =>
    intro done ring
    rw [readLoop, Drainable.drain]
    by_cases hspace : space ring = 0#64
    · simp [hspace, bulkRing, answerOf]
    · cases hfront : front ring with
      | none => simp [hspace, hfront, bulkRing, answerOf]
      | some ref =>
        by_cases hcopy : copyToUser done = true
        · have hready : bulkRing.ready ring = true := by simp [bulkRing, hspace]
          have hrecord : bulkRing.front ring = some (element ring ref) := by
            simp [bulkRing, hfront]
          simp only [hready, hrecord, hcopy, if_true, if_pos hspace, ih]
          rw [answerOf_cons]
          rfl
        · simp [hspace, hfront, hcopy, bulkRing, answerOf]

/-- A read is accounted for exactly when nothing is read or all that was asked for. -/
theorem gpioOledIrqRead_accounted_iff {ring : CircularBufferPow2} {k : ℕ} {q : List (List Byte)}
    (h : Contents ring k q) (copyToUser : ℕ → Bool) (count : SizeT) :
    Accounted (fun ring q => Contents ring k q) sizeofEventBulkData q
        (gpioOledIrqRead copyToUser count ring).bytesRead
        (gpioOledIrqRead copyToUser count ring).records
        (gpioOledIrqRead copyToUser count ring).ring ↔
      count.toNat % sizeofEventBulkData ≠ 0 ∨ space ring = 0#64 ∨ front ring = none ∨
        copyToUser 0 = false ∨ (count.toNat / sizeofEventBulkData ≤ q.length ∧
          ∀ i < count.toNat / sizeofEventBulkData, copyToUser i = true) := by
  unfold gpioOledIrqRead
  split_ifs with hcount
  · rw [readLoop_eq_drain]
    have hv := bulkRing_viewed k
    obtain ⟨r, hd⟩ := hv.drain copyToUser (count.toNat / sizeofEventBulkData) 0
      (count.toNat / sizeofEventBulkData) ring q h (Or.inl le_rfl)
    rw [hd.accounted_iff (fun hs => hs) (by decide), hd.none_or_all_iff hv h (Or.inl le_rfl)]
    simp [bulkRing, hcount]
  · exact iff_of_true (Accounted.of_none _ _ h) (Or.inl hcount)

end LinuxOddsAndEnds.Oled
