import LinuxOddsAndEnds.Ring.CircBufferPow2Refinement

/-!
# The contiguous run of the power-of-two ring

`events_pending_to_end` computes with the field `size`, which `init` sets to 0 and which no
other function writes, where the other counts use the capacity. The mask is then all ones and
the result is the plain difference of the two indices. The accounts below hold for every
capacity: the `int` indices count modulo the capacity, or modulo the word where it is smaller.
-/

namespace LinuxOddsAndEnds.CircBufferPow2

open Foundation

def eventsPendingToEnd (r : CircularBufferPow2) : SizeT :=
  let toEnd := r.size - r.tail.signExtend 64
  (r.head.signExtend 64 + toEnd) &&& (r.size - 1#64)

/-- How many elements are stored after a call that finds `n` of them: an accepted `push` adds
one, `pop` takes one away if there is one and `clear` takes them all. -/
def stored (r : CircularBufferPow2) (n : ℕ) : Call → ℕ
  | .push src => if (push r src).1 = 0 then n + 1 else n
  | .pop => n - 1
  | .clear => 0
  | _ => n

def counted : Machine (CircularBufferPow2 × ℕ) Call Seen := fun s c =>
  (ring s.1 c).map fun out => ((out.1, stored s.1 s.2 c), out.2)

/-- The answer is the number of elements from `tail` up to the end of the `numElements` slots. -/
def PendingToEnd (numElements : SizeT) (s : CircularBufferPow2 × ℕ) : Prop :=
  ((eventsPendingToEnd s.1).toNat : ℤ) = min (s.2 : ℤ) (numElements.toNat - s.1.tail.toInt)

instance (numElements : SizeT) (s : CircularBufferPow2 × ℕ) :
    Decidable (PendingToEnd numElements s) :=
  inferInstanceAs (Decidable (_ = _))

/-- The indices of a ring of `2 ^ k` slots that stores `n` elements. -/
structure Indexed (k : ℕ) (r : CircularBufferPow2) (n : ℕ) : Prop where
  capacity : r.capacity.toNat = 2 ^ k
  size : r.size = 0#64
  tail_lt : r.tail.toNat < 2 ^ min k 32
  stored_lt : n < 2 ^ min k 32
  head_eq : r.head.toNat = (r.tail.toNat + n) % 2 ^ min k 32

namespace Indexed

variable {k n : ℕ} {r : CircularBufferPow2}

theorem circCnt_eq_zero (h : Indexed k r n) :
    circCnt r.head r.tail r.capacity = 0#64 ↔ n = 0 := by
  have hcount : (r.head - r.tail).toNat % 2 ^ min k 32 = n := by
    rw [toNat_sub_mod _ _ (min_le_right k 32), Nat.mod_eq_of_lt h.tail_lt, h.head_eq]
    exact distance_mod h.tail_lt h.stored_lt
  rw [circCnt, masked_eq_zero_iff _ h.capacity (by omega), hcount]

theorem circSpace_eq_zero (h : Indexed k r n) :
    circSpace r.head r.tail r.capacity = 0#64 ↔ n + 1 = 2 ^ min k 32 := by
  have hroom : (r.tail - (r.head + 1#32)).toNat % 2 ^ min k 32 = 2 ^ min k 32 - 1 - n := by
    rw [toNat_sub_mod _ _ (min_le_right k 32), toNat_succ_mod _ (min_le_right k 32), h.head_eq]
    exact room_mod h.tail_lt h.stored_lt
  have hlt := h.stored_lt
  rw [circSpace, circCnt, masked_eq_zero_iff _ h.capacity (by omega), hroom]
  omega

theorem nextIndex_eq (h : Indexed k r n) (index : CInt) :
    (nextIndex index r.capacity).toNat = (index.toNat + 1) % 2 ^ min k 32 := by
  rw [nextIndex, toNat_masked_setWidth _ h.capacity (by omega),
    toNat_succ_mod _ (min_le_right k 32)]

theorem publish (h : Indexed k r n) {block : Mem} (hroom : n + 1 ≠ 2 ^ min k 32) :
    Indexed k { r with buffer := block, head := nextIndex r.head r.capacity } (n + 1) := by
  have hlt := h.stored_lt
  refine { h with stored_lt := by omega, head_eq := ?_ }
  dsimp only
  rw [h.nextIndex_eq, h.head_eq, Nat.mod_add_mod, Nat.add_assoc]

theorem advance (h : Indexed k r (n + 1)) :
    Indexed k { r with tail := nextIndex r.tail r.capacity } n := by
  have hlt := h.stored_lt
  refine { h with tail_lt := ?_, stored_lt := by omega, head_eq := ?_ }
  · dsimp only
    rw [h.nextIndex_eq]
    exact Nat.mod_lt _ (Nat.two_pow_pos _)
  · dsimp only
    rw [h.nextIndex_eq, position_succ, h.head_eq]

theorem push (h : Indexed k r n) (src : Mem) :
    Indexed k (push r src).2 (stored r n (.push src)) := by
  unfold stored CircBufferPow2.push
  by_cases hspace : 1#64 ≤ circSpace r.head r.tail r.capacity
  · have hroom : n + 1 ≠ 2 ^ min k 32 := by
      intro hfull
      rw [h.circSpace_eq_zero.mpr hfull] at hspace
      exact absurd hspace (by decide)
    simp only [if_pos hspace]
    exact h.publish hroom
  · simp only [if_neg hspace]
    exact h

theorem pop (h : Indexed k r n) : Indexed k (pop r) (n - 1) := by
  unfold CircBufferPow2.pop
  cases n with
  | zero =>
    rw [if_neg (not_not.mpr (h.circCnt_eq_zero.mpr rfl))]
    exact h
  | succ n =>
    rw [if_pos (h.circCnt_eq_zero.not.mpr (Nat.succ_ne_zero n))]
    exact h.advance

theorem clear (h : Indexed k r n) : Indexed k (clear r) 0 :=
  { h with tail_lt := by simp [CircBufferPow2.clear], stored_lt := by simp,
           head_eq := by simp [CircBufferPow2.clear] }

theorem step {c : Call} {s' : CircularBufferPow2 × ℕ} {seen : List Seen} (h : Indexed k r n)
    (hs : counted (r, n) c = some (s', seen)) : Indexed k s'.1 s'.2 := by
  cases c with
  | push src =>
    obtain ⟨rfl, -⟩ := Prod.mk.inj (Option.some.inj hs)
    exact h.push src
  | pop =>
    obtain ⟨rfl, -⟩ := Prod.mk.inj (Option.some.inj hs)
    exact h.pop
  | clear =>
    obtain ⟨rfl, -⟩ := Prod.mk.inj (Option.some.inj hs)
    exact h.clear
  | front | size | space | empty =>
    obtain ⟨rfl, -⟩ := Prod.mk.inj (Option.some.inj hs)
    exact h

theorem ofInit {kmalloc : SizeT → Option Mem} {elementSize numElements : SizeT}
    {r r₀ : CircularBufferPow2} (hinit : init kmalloc r elementSize numElements = (0, r₀)) :
    ∃ k, numElements.toNat = 2 ^ k ∧ Indexed k r₀ 0 := by
  unfold init at hinit
  split_ifs at hinit with hrefused
  · simp at hinit
  · obtain ⟨k, hk⟩ := (isPowerOfTwo_iff numElements).mpr hrefused
    split at hinit
    · obtain ⟨-, rfl⟩ := Prod.mk.inj hinit
      exact ⟨k, hk, hk, rfl, by simp, by simp, by simp⟩
    · simp [enomem] at hinit

theorem eventsPendingToEnd_eq (h : Indexed k r n) :
    ((eventsPendingToEnd r).toNat : ℤ) = (r.head.toInt - r.tail.toInt) % 2 ^ 64 := by
  have hdiff : eventsPendingToEnd r = r.head.signExtend 64 - r.tail.signExtend 64 := by
    have hmask : 0#64 - 1#64 = BitVec.allOnes 64 := by decide
    rw [eventsPendingToEnd, h.size, hmask, BitVec.and_allOnes, BitVec.zero_sub,
      BitVec.sub_eq_add_neg]
  have hword (x : ℤ) : x.bmod (2 ^ 64) % 2 ^ 64 = x % 2 ^ 64 := Int.bmod_emod
  calc
    _ = (eventsPendingToEnd r).toInt % 2 ^ 64 := by
      rw [BitVec.toInt_eq_toNat_bmod, hword]
      omega
    _ = (r.head.toInt - r.tail.toInt) % 2 ^ 64 := by
      rw [hdiff, BitVec.toInt_sub, hword, BitVec.toInt_signExtend_of_le (by omega),
        BitVec.toInt_signExtend_of_le (by omega)]

theorem two_pow_le (hk : k ≤ 31) : 2 ^ k ≤ 2 ^ 31 := Nat.pow_le_pow_right (by omega) hk

theorem difference (h : Indexed k r n) :
    r.head.toInt - r.tail.toInt = n ∨ r.head.toInt - r.tail.toInt < 0 := by
  have htail := h.tail_lt
  have hn := h.stored_lt
  have hhead := h.head_eq
  rw [BitVec.toInt_eq_toNat_cond, BitVec.toInt_eq_toNat_cond]
  rcases Nat.lt_or_ge k 32 with hk | hk
  · have hle := two_pow_le (by omega : k ≤ 31)
    rw [min_eq_left hk.le] at htail hn hhead
    rcases Nat.lt_or_ge (r.tail.toNat + n) (2 ^ k) with hlt | hge
    · rw [Nat.mod_eq_of_lt hlt] at hhead
      omega
    · rw [Nat.mod_eq_sub_mod hge, Nat.mod_eq_of_lt (by omega)] at hhead
      omega
  · rw [min_eq_right hk] at htail hn hhead
    omega

theorem head_lt (h : Indexed k r n) : r.head.toInt < (2 ^ k : ℕ) := by
  have hlt : r.head.toNat < 2 ^ k := by
    rw [h.head_eq]
    exact (Nat.mod_lt _ (Nat.two_pow_pos _)).trans_le
      (Nat.pow_le_pow_right (by omega) (min_le_left k 32))
  rw [BitVec.toInt_eq_toNat_cond]
  split_ifs <;> omega

/-- The answer is right exactly for indices in order: a run that wraps gives a negative
difference. -/
theorem pendingToEnd_iff (h : Indexed k r n) {numElements : SizeT}
    (hpow : numElements.toNat = 2 ^ k) :
    PendingToEnd numElements (r, n) ↔ r.tail.toInt ≤ r.head.toInt := by
  have hn : n < 2 ^ 32 :=
    h.stored_lt.trans_le (Nat.pow_le_pow_right (by omega) (min_le_right k 32))
  have hdiff := h.difference
  have hlt := h.head_lt
  have hlow := BitVec.le_two_mul_toInt (x := r.head)
  have hhigh := BitVec.two_mul_toInt_lt (x := r.tail)
  rw [PendingToEnd, h.eventsPendingToEnd_eq, hpow]
  dsimp only
  constructor
  · intro heq
    by_contra hwrap
    have hle := min_le_left (n : ℤ) ((2 ^ k : ℕ) - r.tail.toInt)
    omega
  · intro hle
    have hstored := hdiff.resolve_right (by omega)
    rw [hstored, min_eq_left (by omega)]
    omega

end Indexed

/-- In every state reached from a successful `init`, `events_pending_to_end` counts the elements
from `tail` up to the end of the storage if and only if `head` is not below `tail`. -/
theorem events_pending_to_end_iff (kmalloc : SizeT → Option Mem) (r : CircularBufferPow2)
    (elementSize numElements : SizeT) (calls : List Call) {r₀ : CircularBufferPow2}
    {s : CircularBufferPow2 × ℕ} {tr : List Seen}
    (hinit : init kmalloc r elementSize numElements = (0, r₀))
    (hrun : exec counted (r₀, 0) calls = some (s, tr)) :
    PendingToEnd numElements s ↔ s.1.tail.toInt ≤ s.1.head.toInt := by
  obtain ⟨k, hpow, hindexed⟩ := Indexed.ofInit hinit
  have hs : Indexed k s.1 s.2 :=
    Reaches.invariant (I := fun s _ => Indexed k s.1 s.2) hindexed
      (fun _ _ _ _ _ ih hstep => ih.step hstep) (Reaches.of_exec hrun)
  exact hs.pendingToEnd_iff hpow

/-- Four slots with one element taken out again. -/
theorem events_pending_to_end_four : ∃ r₀ s tr,
    init (fun _ => some null) default 16#64 4#64 = (0, r₀) ∧
      exec counted (r₀, 0) [.push null, .push null, .push null, .pop] = some (s, tr) ∧
        PendingToEnd 4#64 s := by
  refine ⟨_, _, _, rfl, rfl, ?_⟩
  exact (events_pending_to_end_iff (fun _ => some null) default 16#64 4#64
    [.push null, .push null, .push null, .pop] rfl rfl).mpr (by decide)

/-- In two slots the second element wraps: one element lies at `tail`, the last slot, and the
answer is `2 ^ 64 - 1`. -/
theorem events_pending_to_end_wrapped : ∃ r₀ s tr,
    init (fun _ => some null) default 16#64 2#64 = (0, r₀) ∧
      exec counted (r₀, 0) [.push null, .pop, .push null] = some (s, tr) ∧
        (eventsPendingToEnd s.1).toNat = 2 ^ 64 - 1 ∧
          min (s.2 : ℤ) ((2#64).toNat - s.1.tail.toInt) = 1 ∧ ¬PendingToEnd 2#64 s := by
  refine ⟨_, _, _, rfl, rfl, ?_⟩
  decide

end LinuxOddsAndEnds.CircBufferPow2
