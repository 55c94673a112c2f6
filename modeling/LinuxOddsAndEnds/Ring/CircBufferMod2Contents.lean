import LinuxOddsAndEnds.Ring.CircBufferMod2

/-!
# What an even-capacity ring stores

`Contents r n q` says that the ring of `n` slots stores `q` in the slots from
`tail` on, over the end of the storage at most once. `tail` may stand one past the
last slot. The source tests the distance of `head` and `tail` without a mask, so
what an operation does depends on which of them is in front.
-/

namespace LinuxOddsAndEnds.CircBufferMod2

open Foundation

/-- The indices stand where calls leave them, whatever the slots hold. -/
structure Indexed (r : CircularBufferMod2) (n : ℕ) : Prop where
  capacity : r.capacity.toNat = n
  mask : r.size = 0#64
  head_lt : r.head.toNat < n
  tail_le : r.tail.toNat ≤ n

/-- The steps of `tail` until it meets `head`, over the slot past the last one. -/
def toHead (r : CircularBufferMod2) : ℕ :=
  if r.tail.toNat ≤ r.head.toNat then r.head.toNat - r.tail.toNat
  else r.capacity.toNat + 1 + r.head.toNat - r.tail.toNat

namespace Indexed

variable {r : CircularBufferMod2} {n : ℕ}

theorem capacity_lt (h : Indexed r n) : n < 2 ^ 64 := by
  rw [← h.capacity]
  exact r.capacity.isLt

/-- With a zero `size` the mask hides nothing. -/
theorem size_eq (h : Indexed r n) : size r = r.head - r.tail := by
  rw [size, h.mask, show 0#64 - 1#64 = BitVec.allOnes 64 by decide, BitVec.and_allOnes]

theorem toNat_head_succ (h : Indexed r n) : (r.head + 1#64).toNat = r.head.toNat + 1 := by
  have hhead := h.head_lt
  have hcap := h.capacity_lt
  rw [BitVec.toNat_add, BitVec.toNat_ofNat]
  omega

theorem toNat_head_next (h : Indexed r n) :
    (if r.head + 1#64 = r.capacity then 0#64 else r.head + 1#64).toNat =
      if r.head.toNat + 1 = n then 0 else r.head.toNat + 1 := by
  have hc : r.head + 1#64 = r.capacity ↔ r.head.toNat + 1 = n := by
    rw [BitVec.toNat_eq, h.toNat_head_succ, h.capacity]
  split_ifs with h₁ h₂ h₂
  · rfl
  · exact absurd (hc.mp h₁) h₂
  · exact absurd (hc.mpr h₂) h₁
  · exact h.toNat_head_succ

theorem toNat_tail_next (h : Indexed r n) :
    (if r.tail = r.capacity then 0#64 else r.tail + 1#64).toNat =
      if r.tail.toNat = n then 0 else r.tail.toNat + 1 := by
  have htail := h.tail_le
  have hcap := h.capacity_lt
  simp only [apply_ite BitVec.toNat, BitVec.toNat_eq, h.capacity, BitVec.toNat_add,
    BitVec.toNat_ofNat]
  split_ifs <;> omega

theorem init {kmalloc : SizeT → Option Mem} {elementSize numElements : SizeT}
    {r' : CircularBufferMod2} (hpos : numElements ≠ 0#64)
    (h : init kmalloc r elementSize numElements = (0, r')) :
    Indexed r' numElements.toNat := by
  have hlt : 0 < numElements.toNat := by
    rw [Nat.pos_iff_ne_zero]
    exact fun hz => hpos (BitVec.eq_of_toNat_eq hz)
  unfold CircBufferMod2.init at h
  split_ifs at h
  · cases h
  · cases hblock : kmalloc (numElements * elementSize) with
    | none => simp [hblock, CircBufferPow2.enomem] at h
    | some block =>
      simp only [hblock] at h
      obtain ⟨-, rfl⟩ := Prod.mk.inj h
      exact ⟨rfl, rfl, hlt, Nat.zero_le _⟩

theorem push (h : Indexed r n) (src : Mem) : Indexed (push r src).2 n := by
  have hnext := h.toNat_head_next
  have hhead := h.head_lt
  by_cases hspace : space r = 0#64
  · rw [CircBufferMod2.push, if_neg (not_not.mpr hspace)]
    exact h
  · rw [CircBufferMod2.push, if_pos hspace]
    refine ⟨h.capacity, h.mask, ?_, h.tail_le⟩
    dsimp only
    rw [hnext]
    split_ifs <;> omega

theorem pop (h : Indexed r n) : Indexed (pop r) n := by
  have hnext := h.toNat_tail_next
  have htail := h.tail_le
  by_cases hsize : size r = 0#64
  · rw [CircBufferMod2.pop, if_neg (not_not.mpr hsize)]
    exact h
  · rw [CircBufferMod2.pop, if_pos hsize]
    refine ⟨h.capacity, h.mask, h.head_lt, ?_⟩
    dsimp only
    rw [hnext]
    split_ifs <;> omega

theorem clear (h : Indexed r n) : Indexed (clear r) n :=
  ⟨h.capacity, h.mask, (Nat.zero_le _).trans_lt h.head_lt, Nat.zero_le _⟩

theorem toHead_pop (h : Indexed r n) (hsize : size r ≠ 0#64) :
    toHead (CircBufferMod2.pop r) + 1 = toHead r := by
  have hne : r.head.toNat ≠ r.tail.toNat := by
    rw [h.size_eq] at hsize
    intro he
    rw [BitVec.eq_of_toNat_eq he] at hsize
    exact hsize (BitVec.sub_self _)
  have hnext := h.toNat_tail_next
  have hhead := h.head_lt
  have htail := h.tail_le
  rw [CircBufferMod2.pop, if_pos hsize]
  unfold toHead
  dsimp only
  rw [hnext, h.capacity]
  split_ifs <;> omega

end Indexed

def place (n tail i : ℕ) : ℕ := if tail + i < n then tail + i else tail + i - n

theorem place_lt {n tail i : ℕ} (ht : tail ≤ n) (hi : i < n) : place n tail i < n := by
  unfold place
  split_ifs <;> omega

theorem place_inj {n tail i j : ℕ} (hi : i < n) (hj : j < n)
    (h : place n tail i = place n tail j) : i = j := by
  unfold place at h
  split_ifs at h <;> omega

theorem place_succ {n tail i : ℕ} : place n (tail + 1) i = place n tail (i + 1) := by
  unfold place
  split_ifs <;> omega

/-- The ring stores exactly `q`, oldest first. -/
structure Contents (r : CircularBufferMod2) (n : ℕ) (q : List (List Byte)) : Prop where
  capacity : r.capacity.toNat = n
  mask : r.size = 0#64
  bytes : n * r.elementSize.toNat < 2 ^ 64
  tail_le : r.tail.toNat ≤ n
  length_lt : q.length < n
  head_eq : r.head.toNat = place n r.tail.toNat q.length
  slots : ∀ (i : ℕ) (h : i < q.length),
    load r.buffer (place n r.tail.toNat i * r.elementSize.toNat) r.elementSize.toNat = q[i]

namespace Contents

variable {r : CircularBufferMod2} {n : ℕ} {q : List (List Byte)} {e : List Byte}

theorem head_lt (h : Contents r n q) : r.head.toNat < n := by
  rw [h.head_eq]
  exact place_lt h.tail_le h.length_lt

theorem indexed (h : Contents r n q) : Indexed r n := ⟨h.capacity, h.mask, h.head_lt, h.tail_le⟩

theorem capacity_lt (h : Contents r n q) : n < 2 ^ 64 := h.indexed.capacity_lt

theorem size_eq (h : Contents r n q) : size r = r.head - r.tail := h.indexed.size_eq

theorem space_eq (h : Contents r n q) : space r = r.tail - (r.head + 1#64) := by
  rw [space, h.mask, show 0#64 - 1#64 = BitVec.allOnes 64 by decide, BitVec.and_allOnes]

theorem toNat_size (h : Contents r n q) :
    (size r).toNat = if r.tail.toNat ≤ r.head.toNat then r.head.toNat - r.tail.toNat
      else 2 ^ 64 + r.head.toNat - r.tail.toNat := by
  rw [h.size_eq, BitVec.toNat_sub]
  have htail := r.tail.isLt
  have hhead := r.head.isLt
  split_ifs <;> omega

theorem toNat_head_succ (h : Contents r n q) : (r.head + 1#64).toNat = r.head.toNat + 1 :=
  h.indexed.toNat_head_succ

theorem toNat_space (h : Contents r n q) :
    (space r).toNat = if r.head.toNat < r.tail.toNat then r.tail.toNat - (r.head.toNat + 1)
      else 2 ^ 64 + r.tail.toNat - (r.head.toNat + 1) := by
  rw [h.space_eq, BitVec.toNat_sub, h.toNat_head_succ]
  have htail := r.tail.isLt
  have hhead := h.head_lt
  have hcap := h.capacity_lt
  split_ifs <;> omega

theorem length_eq (h : Contents r n q) :
    q.length = if r.tail.toNat ≤ r.head.toNat then r.head.toNat - r.tail.toNat
      else n + r.head.toNat - r.tail.toNat := by
  have hh := h.head_eq
  have htail := h.tail_le
  have hlen := h.length_lt
  unfold place at hh
  split_ifs at hh ⊢ <;> omega

theorem slotOffset_eq (h : Contents r n q) {index : BitVec 64} (hi : index.toNat ≤ n) :
    slotOffset r index = index.toNat * r.elementSize.toNat := by
  have hle := Nat.mul_le_mul_right r.elementSize.toNat hi
  rw [slotOffset, BitVec.toNat_mul, Nat.mod_eq_of_lt (hle.trans_lt h.bytes)]

theorem size_ne_zero (h : Contents r n q) : size r ≠ 0#64 ↔ r.head.toNat ≠ r.tail.toNat := by
  have htail := r.tail.isLt
  have hhead := r.head.isLt
  rw [Ne, BitVec.toNat_eq, h.toNat_size, BitVec.toNat_ofNat]
  split_ifs <;> omega

theorem space_ne_zero (h : Contents r n q) :
    space r ≠ 0#64 ↔ r.head.toNat + 1 ≠ r.tail.toNat := by
  have htail := r.tail.isLt
  have hhead := h.head_lt
  have hcap := h.capacity_lt
  rw [Ne, BitVec.toNat_eq, h.toNat_space, BitVec.toNat_ofNat]
  split_ifs <;> omega

/-- `head` and `tail` coincide exactly when nothing is stored, unless `tail` stands
past the last slot. -/
theorem head_eq_tail (h : Contents r n q) (ht : r.tail.toNat < n) :
    r.head.toNat = r.tail.toNat ↔ q = [] := by
  have hl := h.length_eq
  have hhead := h.head_lt
  rw [← List.length_eq_zero_iff]
  split_ifs at hl <;> omega

theorem push_room (h : Contents r n q) (src : Mem) (hroom : q.length + 1 < n) :
    (push r src).1 = 0 ∧ Contents (push r src).2 n (q ++ [load src 0 r.elementSize.toNat]) := by
  have hl := h.length_eq
  have hh := h.head_lt
  have ht := h.tail_le
  have hs : space r ≠ 0#64 := by
    rw [h.space_ne_zero]
    split_ifs at hl <;> omega
  simp only [push, if_pos hs, true_and]
  refine { h with length_lt := by simpa using hroom, head_eq := ?_, slots := ?_ }
  · dsimp only
    rw [h.indexed.toNat_head_next, h.head_eq, List.length_append, List.length_singleton]
    unfold place
    split_ifs <;> omega
  · intro i hi
    dsimp only
    rw [h.slotOffset_eq hh.le]
    rcases Nat.lt_or_ge i q.length with hlt | hge
    · have hne : place n r.tail.toNat i ≠ r.head.toNat := by
        rw [h.head_eq]
        intro he
        have hsame := place_inj (hlt.trans h.length_lt) h.length_lt he
        omega
      rw [load_memcpy_disjoint _ _ (slot_disjoint hne), List.getElem_append_left hlt]
      exact h.slots i hlt
    · have hi' : i = q.length := by
        simp only [List.length_append, List.length_singleton] at hi
        omega
      subst hi'
      rw [← h.head_eq, load_memcpy_same]
      simp

theorem advance (h : Contents r n (e :: q)) (ht : r.tail.toNat < n) :
    Contents { r with tail := r.tail + 1#64 } n q := by
  have hlen : q.length + 1 < n := by simpa using h.length_lt
  have hc := h.capacity_lt
  have htail : (r.tail + 1#64).toNat = r.tail.toNat + 1 := by
    rw [BitVec.toNat_add, BitVec.toNat_ofNat]
    omega
  refine { h with tail_le := ?_, length_lt := by omega, head_eq := ?_, slots := ?_ }
  · dsimp only
    omega
  · dsimp only
    rw [htail, place_succ, h.head_eq, List.length_cons]
  · intro i hi
    dsimp only
    rw [htail, place_succ, h.slots (i + 1) (by simpa using hi), List.getElem_cons_succ]

theorem oldest (h : Contents r n (e :: q)) (ht : r.tail.toNat < n) :
    element r (slotOffset r r.tail) = e := by
  have hs := h.slots 0 (by simp)
  rw [place, if_pos (by omega), Nat.add_zero] at hs
  rw [element, h.slotOffset_eq h.tail_le, hs, List.getElem_cons_zero]

end Contents

section Operations

variable {r : CircularBufferMod2} {n : ℕ} {q : List (List Byte)}

theorem init_spec {kmalloc : SizeT → Option Mem} {block : Mem} {elementSize numElements : SizeT}
    (r : CircularBufferMod2) (hpos : numElements ≠ 0#64) (heven : numElements.toNat % 2 = 0)
    (hbytes : numElements.toNat * elementSize.toNat < 2 ^ 64)
    (hblock : kmalloc (numElements * elementSize) = some block) :
    ∃ r', init kmalloc r elementSize numElements = (0, r') ∧ Contents r' numElements.toNat [] ∧
      r'.elementSize = elementSize := by
  have hzero : numElements % 2#64 = 0#64 := by
    apply BitVec.eq_of_toNat_eq
    simpa using heven
  have hlt : 0 < numElements.toNat := by
    rw [Nat.pos_iff_ne_zero]
    exact fun hz => hpos (BitVec.eq_of_toNat_eq hz)
  simp only [init, hzero, ne_eq, not_true_eq_false, if_false, hblock]
  refine ⟨_, rfl, ?_, rfl⟩
  exact { capacity := rfl, mask := rfl, bytes := hbytes, tail_le := by simp, length_lt := hlt,
          head_eq := by simp [place], slots := by simp }

theorem push_elementSize (r : CircularBufferMod2) (src : Mem) :
    (push r src).2.elementSize = r.elementSize := by
  unfold push
  split_ifs <;> rfl

theorem push_full (h : Contents r n q) (src : Mem) (hfull : r.head.toNat + 1 = r.tail.toNat) :
    push r src = (-1, r) :=
  if_neg fun hs => h.space_ne_zero.mp hs hfull

theorem front_nil (h : Contents r n []) (ht : r.tail.toNat < n) : front r = none :=
  if_neg fun hs => h.size_ne_zero.mp hs ((h.head_eq_tail ht).mpr rfl)

theorem front_cons {e : List Byte} (h : Contents r n (e :: q)) (ht : r.tail.toNat < n) :
    front r = some (slotOffset r r.tail) ∧ element r (slotOffset r r.tail) = e := by
  refine ⟨if_pos ?_, h.oldest ht⟩
  rw [h.size_ne_zero, Ne, h.head_eq_tail ht]
  simp

theorem pop_spec (h : Contents r n q) (ht : r.tail.toNat < n) : Contents (pop r) n q.tail := by
  have hc : r.tail ≠ r.capacity := by
    intro he
    rw [BitVec.toNat_eq, h.capacity] at he
    omega
  cases q with
  | nil =>
    have hs : ¬size r ≠ 0#64 := fun hs => h.size_ne_zero.mp hs ((h.head_eq_tail ht).mpr rfl)
    rw [pop, if_neg hs]
    exact h
  | cons e q =>
    have hs : size r ≠ 0#64 := by
      rw [h.size_ne_zero, Ne, h.head_eq_tail ht]
      simp
    rw [pop, if_pos hs, if_neg hc]
    exact h.advance ht

theorem pop_elementSize (r : CircularBufferMod2) : (pop r).elementSize = r.elementSize := by
  unfold pop
  split_ifs <;> rfl

theorem clear_spec (h : Contents r n q) : Contents (clear r) n [] := by
  have hpos := h.length_lt
  exact { h with tail_le := by simp [clear], length_lt := by simp; omega,
                 head_eq := by simp [clear, place], slots := by simp }

end Operations

end LinuxOddsAndEnds.CircBufferMod2
