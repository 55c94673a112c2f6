import LinuxOddsAndEnds.Foundation.MaskedIndex
import LinuxOddsAndEnds.Ring.CircBufferPow2

/-!
# What a ring stores

`Contents r k q` says that the ring `r` of `2 ^ k` slots stores the elements `q`,
oldest first. It ties `head`, `tail` and the bytes of the occupied slots to the
list; the specifications of the operations below are stated through it and are
the only facts about the representation that the later modules use. The three
elementary changes (a copy into the free slot at `head`, a store to `head`, a
store to `tail`) have their own lemmas, because an interrupt may fall between them.
-/

namespace LinuxOddsAndEnds.CircBufferPow2

open Foundation

/-- The ring stores exactly `q` in consecutive slots from `tail`. -/
structure Contents (r : CircularBufferPow2) (k : ℕ) (q : List (List Byte)) : Prop where
  capacity : r.capacity.toNat = 2 ^ k
  index : k ≤ 31
  bytes : 2 ^ k * r.elementSize.toNat < 2 ^ 64
  tail_lt : r.tail.toNat < 2 ^ k
  length_lt : q.length < 2 ^ k
  head_eq : r.head.toNat = (r.tail.toNat + q.length) % 2 ^ k
  slots : ∀ (i : ℕ) (h : i < q.length),
    load r.buffer ((r.tail.toNat + i) % 2 ^ k * r.elementSize.toNat) r.elementSize.toNat = q[i]

namespace Contents

variable {r : CircularBufferPow2} {k : ℕ} {q : List (List Byte)} {e : List Byte}

theorem head_lt (h : Contents r k q) : r.head.toNat < 2 ^ k := by
  rw [h.head_eq]
  exact Nat.mod_lt _ (Nat.two_pow_pos k)

theorem slotOffset_eq (h : Contents r k q) {index : CInt} (hi : index.toNat < 2 ^ k) :
    slotOffset r index = index.toNat * r.elementSize.toNat := by
  have hext : (index.signExtend 64).toNat = index.toNat :=
    toNat_signExtend_of_lt hi (by have hindex := h.index; omega) (by omega)
  have hle := Nat.mul_le_mul_right r.elementSize.toNat hi.le
  rw [slotOffset, BitVec.toNat_mul, hext, Nat.mod_eq_of_lt (hle.trans_lt h.bytes)]

theorem circCnt_eq (h : Contents r k q) : (circCnt r.head r.tail r.capacity).toNat = q.length := by
  have hk := h.index
  calc
    _ = (r.head - r.tail).toNat % 2 ^ k := by
      rw [circCnt, toNat_and_pred _ h.capacity, toNat_signExtend_mod _ (by omega) (by omega)]
    _ = ((r.tail.toNat + q.length) % 2 ^ k + 2 ^ k - r.tail.toNat) % 2 ^ k := by
      rw [toNat_sub_mod _ _ (by omega), Nat.mod_eq_of_lt h.tail_lt, h.head_eq]
    _ = q.length := distance_mod h.tail_lt h.length_lt

theorem circSpace_eq (h : Contents r k q) :
    (circSpace r.head r.tail r.capacity).toNat = 2 ^ k - 1 - q.length := by
  have hk := h.index
  calc
    _ = (r.tail - (r.head + 1#32)).toNat % 2 ^ k := by
      rw [circSpace, circCnt, toNat_and_pred _ h.capacity,
        toNat_signExtend_mod _ (by omega) (by omega)]
    _ = (r.tail.toNat + 2 ^ k - ((r.tail.toNat + q.length) % 2 ^ k + 1) % 2 ^ k) % 2 ^ k := by
      rw [toNat_sub_mod _ _ (by omega), toNat_succ_mod _ (by omega), h.head_eq]
    _ = 2 ^ k - 1 - q.length := room_mod h.tail_lt h.length_lt

theorem circSpace_pos (h : Contents r k q) :
    1#64 ≤ circSpace r.head r.tail r.capacity ↔ q.length + 1 < 2 ^ k := by
  rw [BitVec.le_def, h.circSpace_eq, BitVec.toNat_ofNat]
  omega

theorem circCnt_ne_zero (h : Contents r k q) :
    circCnt r.head r.tail r.capacity ≠ 0#64 ↔ q ≠ [] := by
  rw [Ne, BitVec.toNat_eq, h.circCnt_eq]
  simp

theorem nextIndex_eq (h : Contents r k q) {index : CInt} :
    (nextIndex index r.capacity).toNat = (index.toNat + 1) % 2 ^ k := by
  have hk := h.index
  rw [nextIndex, toNat_masked_setWidth _ h.capacity (by omega), min_eq_left (by omega),
    toNat_succ_mod _ (by omega)]

theorem copy (h : Contents r k q) (src : Mem) :
    Contents { r with buffer := memcpy r.buffer (slotOffset r r.head) src r.elementSize.toNat }
      k q := by
  refine { h with slots := ?_ }
  intro i hi
  have hlt : i < 2 ^ k := hi.trans h.length_lt
  have hne : (r.tail.toNat + i) % 2 ^ k ≠ r.head.toNat := by
    rw [h.head_eq]
    intro he
    have hsame := position_inj hlt h.length_lt he
    omega
  rw [h.slotOffset_eq h.head_lt]
  dsimp only
  rw [load_memcpy_disjoint _ _ (slot_disjoint hne)]
  exact h.slots i hi

theorem publish (h : Contents r k q) (hroom : q.length + 1 < 2 ^ k)
    (he : load r.buffer (slotOffset r r.head) r.elementSize.toNat = e) :
    Contents { r with head := nextIndex r.head r.capacity } k (q ++ [e]) := by
  refine { h with length_lt := by simpa using hroom, head_eq := ?_, slots := ?_ }
  · dsimp only
    rw [h.nextIndex_eq, h.head_eq, List.length_append, List.length_singleton, Nat.add_mod,
      Nat.mod_mod, ← Nat.add_mod, Nat.add_assoc]
  · intro i hi
    rcases Nat.lt_or_ge i q.length with hlt | hge
    · rw [List.getElem_append_left hlt]
      exact h.slots i hlt
    · have hi' : i = q.length := by
        simp only [List.length_append, List.length_singleton] at hi
        omega
      subst hi'
      rw [h.slotOffset_eq h.head_lt, h.head_eq] at he
      simpa using he

theorem advance (h : Contents r k (e :: q)) :
    Contents { r with tail := nextIndex r.tail r.capacity } k q := by
  have hlen : q.length + 1 < 2 ^ k := by simpa using h.length_lt
  refine { h with tail_lt := ?_, length_lt := by omega, head_eq := ?_, slots := ?_ }
  · dsimp only
    rw [h.nextIndex_eq]
    exact Nat.mod_lt _ (Nat.two_pow_pos k)
  · dsimp only
    rw [h.nextIndex_eq, position_succ, h.head_eq, List.length_cons]
  · intro i hi
    dsimp only
    rw [h.nextIndex_eq, position_succ, h.slots (i + 1) (by simpa using hi),
      List.getElem_cons_succ]

theorem oldest (h : Contents r k (e :: q)) : element r (slotOffset r r.tail) = e := by
  have hs := h.slots 0 (by simp)
  rw [Nat.add_zero, Nat.mod_eq_of_lt h.tail_lt] at hs
  rw [element, h.slotOffset_eq h.tail_lt, hs, List.getElem_cons_zero]

/-- The slot that `push` fills is not the slot at `tail` of a nonempty ring. -/
theorem head_slot_ne (h : Contents r k q) (hq : q ≠ []) : r.head.toNat ≠ r.tail.toNat := by
  have hpos := List.length_pos_iff.mpr hq
  have hlen := h.length_lt
  rw [h.head_eq]
  intro he
  have ht : (r.tail.toNat + q.length) % 2 ^ k = (r.tail.toNat + 0) % 2 ^ k := by
    rw [he, Nat.add_zero, Nat.mod_eq_of_lt h.tail_lt]
  have hsame := position_inj hlen (Nat.two_pow_pos k) ht
  omega

end Contents

section Operations

variable {r : CircularBufferPow2} {k : ℕ} {q : List (List Byte)}

theorem init_spec {kmalloc : SizeT → Option Mem} {block : Mem} {elementSize numElements : SizeT}
    (r : CircularBufferPow2) (hpow : numElements.toNat = 2 ^ k) (hk : k ≤ 31)
    (hbytes : 2 ^ k * elementSize.toNat < 2 ^ 64)
    (hblock : kmalloc (numElements * elementSize) = some block) :
    ∃ r', init kmalloc r elementSize numElements = (0, r') ∧ Contents r' k [] ∧
      r'.elementSize = elementSize := by
  have hok := (isPowerOfTwo_iff numElements).mp ⟨k, hpow⟩
  simp only [init, if_neg hok, hblock]
  refine ⟨_, rfl, ?_, rfl⟩
  exact { capacity := hpow, index := hk, bytes := hbytes, tail_lt := by simp, length_lt := by simp,
          head_eq := by simp, slots := by simp }

theorem push_spec (h : Contents r k q) (src : Mem) :
    (q.length + 1 < 2 ^ k → (push r src).1 = 0 ∧
      Contents (push r src).2 k (q ++ [load src 0 r.elementSize.toNat])) ∧
    (¬q.length + 1 < 2 ^ k → push r src = (-1, r)) := by
  constructor
  · intro hroom
    have hc := h.copy src
    simp only [push, if_pos (h.circSpace_pos.mpr hroom), true_and]
    exact hc.publish hroom (load_memcpy_same _ _ _ _)
  · intro hfull
    exact if_neg fun hs => hfull (h.circSpace_pos.mp hs)

theorem push_elementSize (r : CircularBufferPow2) (src : Mem) :
    (push r src).2.elementSize = r.elementSize := by
  unfold push
  split_ifs <;> rfl

theorem front_nil (h : Contents r k []) : front r = none :=
  if_neg fun hc => (h.circCnt_ne_zero.mp hc) rfl

theorem front_cons {e : List Byte} (h : Contents r k (e :: q)) :
    front r = some (slotOffset r r.tail) ∧ element r (slotOffset r r.tail) = e :=
  ⟨if_pos (h.circCnt_ne_zero.mpr (by simp)), h.oldest⟩

theorem pop_nil (h : Contents r k []) : pop r = r :=
  if_neg fun hc => (h.circCnt_ne_zero.mp hc) rfl

theorem pop_spec (h : Contents r k q) : Contents (pop r) k q.tail := by
  cases q with
  | nil => rwa [pop_nil h]
  | cons e q =>
    rw [pop, if_pos (h.circCnt_ne_zero.mpr (by simp))]
    exact h.advance

theorem pop_elementSize (r : CircularBufferPow2) : (pop r).elementSize = r.elementSize := by
  unfold pop
  split_ifs <;> rfl

theorem clear_spec (h : Contents r k q) : Contents (clear r) k [] :=
  { h with tail_lt := by simp [clear], length_lt := by simp, head_eq := by simp [clear],
           slots := by simp }

theorem size_spec (h : Contents r k q) : (size r).toNat = q.length := h.circCnt_eq

theorem space_spec (h : Contents r k q) : (space r).toNat = 2 ^ k - 1 - q.length := h.circSpace_eq

theorem empty_spec (h : Contents r k q) : empty r = true ↔ q = [] := by
  rw [empty, beq_iff_eq]
  constructor
  · intro he
    by_contra hq
    exact h.head_slot_ne hq (congrArg BitVec.toNat he)
  · rintro rfl
    apply BitVec.eq_of_toNat_eq
    rw [h.head_eq, List.length_nil, Nat.add_zero, Nat.mod_eq_of_lt h.tail_lt]

end Operations

end LinuxOddsAndEnds.CircBufferPow2
