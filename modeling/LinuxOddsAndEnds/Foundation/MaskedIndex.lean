import Mathlib.Data.Nat.ModEq
import Mathlib.Tactic.Common
import Mathlib.Tactic.Ring

/-!
# Masked machine-word indices

A ring of `2 ^ k` slots keeps two `w`-bit indices and takes their difference
modulo the capacity by masking, in a word of another width. Masking with
`capacity - 1` is reduction modulo `2 ^ k`, and neither the wrap-around of the
difference nor the sign extension is seen below `2 ^ k` as long as `k ≤ w`.
The rest is arithmetic of positions modulo the number of slots.
-/

namespace LinuxOddsAndEnds.Foundation

theorem toNat_sub_one {w : ℕ} {x : BitVec w} (hx : x.toNat ≠ 0) :
    (x - 1#w).toNat = x.toNat - 1 := by
  have hlt := x.isLt
  have hone : 1 % 2 ^ w = 1 := Nat.mod_eq_of_lt (by omega)
  rw [BitVec.toNat_sub, BitVec.toNat_ofNat, hone,
    show 2 ^ w - 1 + x.toNat = x.toNat - 1 + 2 ^ w by omega, Nat.add_mod_right]
  exact Nat.mod_eq_of_lt (by omega)

theorem toNat_pred_of_two_pow {w k : ℕ} {c : BitVec w} (hc : c.toNat = 2 ^ k) :
    (c - 1#w).toNat = 2 ^ k - 1 := by
  have hpos := Nat.two_pow_pos k
  rw [toNat_sub_one (by omega), hc]

/-- Masking by `capacity - 1` reduces modulo a power-of-two capacity. -/
theorem toNat_and_pred {w k : ℕ} (x : BitVec w) {c : BitVec w} (hc : c.toNat = 2 ^ k) :
    (x &&& (c - 1#w)).toNat = x.toNat % 2 ^ k := by
  rw [BitVec.toNat_and, toNat_pred_of_two_pow hc, Nat.and_two_pow_sub_one_eq_mod]

theorem toNat_signExtend_mod {w v k : ℕ} (x : BitVec w) (hk : k ≤ w) (hv : w ≤ v) :
    (x.signExtend v).toNat % 2 ^ k = x.toNat % 2 ^ k := by
  have hwv : (x.setWidth v).toNat = x.toNat := by
    rw [BitVec.toNat_setWidth, Nat.mod_eq_of_lt]
    exact x.isLt.trans_le (Nat.pow_le_pow_right (by omega) hv)
  rw [BitVec.toNat_signExtend, hwv]
  split_ifs
  · have hd : 2 ^ k ∣ 2 ^ v - 2 ^ w :=
      Nat.dvd_sub (Nat.pow_dvd_pow 2 (hk.trans hv)) (Nat.pow_dvd_pow 2 hk)
    obtain ⟨c, hc⟩ := hd
    rw [hc, Nat.add_mul_mod_self_left]
  · rfl

theorem toNat_masked_setWidth {w v k : ℕ} (x : BitVec w) {c : BitVec v} (hc : c.toNat = 2 ^ k)
    (hv : w ≤ v) :
    ((x.signExtend v &&& (c - 1#v)).setWidth w).toNat = x.toNat % 2 ^ min k w := by
  rw [BitVec.toNat_setWidth, toNat_and_pred _ hc]
  rcases le_total k w with hk | hk
  · have hlt : x.toNat % 2 ^ k < 2 ^ w :=
      (Nat.mod_lt _ (Nat.two_pow_pos k)).trans_le (Nat.pow_le_pow_right (by omega) hk)
    rw [min_eq_left hk, toNat_signExtend_mod _ hk hv, Nat.mod_eq_of_lt hlt]
  · rw [min_eq_right hk, Nat.mod_mod_of_dvd _ (Nat.pow_dvd_pow 2 hk),
      toNat_signExtend_mod _ le_rfl hv]

theorem masked_eq_zero_iff {w v k : ℕ} (x : BitVec w) {c : BitVec v} (hc : c.toNat = 2 ^ k)
    (hv : w ≤ v) : x.signExtend v &&& (c - 1#v) = 0#v ↔ x.toNat % 2 ^ min k w = 0 := by
  constructor
  · intro hz
    rw [← toNat_masked_setWidth x hc hv, hz]
    simp
  · intro hz
    rcases le_total k w with hk | hk
    · apply BitVec.eq_of_toNat_eq
      rw [toNat_and_pred _ hc, toNat_signExtend_mod _ hk hv, ← min_eq_left hk, hz]
      simp
    · have hx : x = 0#w := by
        apply BitVec.eq_of_toNat_eq
        rwa [min_eq_right hk, Nat.mod_eq_of_lt x.isLt] at hz
      rw [hx, BitVec.signExtend_eq_setWidth_of_msb_false (by simp)]
      simp

theorem toNat_signExtend_of_lt {w v k : ℕ} {x : BitVec w} (hx : x.toNat < 2 ^ k) (hk : k < w)
    (hv : w ≤ v) : (x.signExtend v).toNat = x.toNat := by
  have hw : 2 ^ k ≤ 2 ^ (w - 1) := Nat.pow_le_pow_right (by omega) (by omega)
  have hmsb : x.msb = false := by
    rw [BitVec.msb_eq_false_iff_two_mul_lt]
    have hsplit : 2 ^ w = 2 * 2 ^ (w - 1) := by
      rw [← pow_succ']
      congr 1
      omega
    omega
  rw [BitVec.toNat_signExtend, hmsb, BitVec.toNat_setWidth, Nat.mod_eq_of_lt]
  · simp
  · exact x.isLt.trans_le (Nat.pow_le_pow_right (by omega) hv)

/-- The test `x & (x - 1)` for a power of two. -/
theorem isPowerOfTwo_iff {w : ℕ} (x : BitVec w) :
    x.toNat.isPowerOfTwo ↔ ¬(x = 0#w ∨ x &&& (x - 1#w) ≠ 0#w) := by
  rw [← Nat.ne_zero_and_sub_one_eq_zero_iff_isPowerOfTwo, not_or, not_not]
  refine and_congr (by simp [BitVec.toNat_eq]) ?_
  rw [BitVec.toNat_eq, BitVec.toNat_and, BitVec.toNat_ofNat, Nat.zero_mod]
  by_cases hx : x.toNat = 0
  · simp [hx]
  · rw [toNat_sub_one hx]

theorem toNat_sub_mod {w k : ℕ} (x y : BitVec w) (hk : k ≤ w) :
    (x - y).toNat % 2 ^ k = (x.toNat + 2 ^ k - y.toNat % 2 ^ k) % 2 ^ k := by
  have hd : 2 ^ k ∣ 2 ^ w := Nat.pow_dvd_pow 2 hk
  have hpos := Nat.two_pow_pos k
  have hy := y.isLt
  have hr := Nat.mod_lt y.toNat hpos
  have hq : y.toNat / 2 ^ k < 2 ^ w / 2 ^ k := Nat.div_lt_div_of_lt_of_dvd hd hy
  obtain ⟨d, hc⟩ : ∃ d, 2 ^ w / 2 ^ k = y.toNat / 2 ^ k + 1 + d := ⟨_, (Nat.add_sub_of_le hq).symm⟩
  have hw : 2 ^ w = 2 ^ k * (y.toNat / 2 ^ k) + 2 ^ k + 2 ^ k * d := by
    rw [← Nat.mul_div_cancel' hd, hc]
    ring
  have hsplit := Nat.div_add_mod y.toNat (2 ^ k)
  rw [BitVec.toNat_sub, Nat.mod_mod_of_dvd _ hd,
    show 2 ^ w - y.toNat + x.toNat = x.toNat + 2 ^ k - y.toNat % 2 ^ k + 2 ^ k * d by omega,
    Nat.add_mul_mod_self_left]

theorem toNat_succ_mod {w k : ℕ} (x : BitVec w) (hk : k ≤ w) :
    (x + 1#w).toNat % 2 ^ k = (x.toNat + 1) % 2 ^ k := by
  rw [BitVec.toNat_add, Nat.mod_mod_of_dvd _ (Nat.pow_dvd_pow 2 hk), BitVec.toNat_ofNat,
    Nat.add_mod, Nat.mod_mod_of_dvd _ (Nat.pow_dvd_pow 2 hk), ← Nat.add_mod]

section Positions

variable {N : ℕ}

/-- The distance walked forward from `t` is recovered from the two positions. -/
theorem distance_mod {t n : ℕ} (ht : t < N) (hn : n < N) : ((t + n) % N + N - t) % N = n := by
  rcases Nat.lt_or_ge (t + n) N with h | h
  · rw [Nat.mod_eq_of_lt h, show t + n + N - t = n + N by omega, Nat.add_mod_right,
      Nat.mod_eq_of_lt hn]
  · rw [Nat.mod_eq_sub_mod h, Nat.mod_eq_of_lt (by omega : t + n - N < N),
      show t + n - N + N - t = n by omega, Nat.mod_eq_of_lt hn]

theorem room_mod {t n : ℕ} (ht : t < N) (hn : n < N) :
    (t + N - ((t + n) % N + 1) % N) % N = N - 1 - n := by
  have hone : ((t + n) % N + 1) % N = (t + (n + 1)) % N := by
    rw [Nat.add_mod, Nat.mod_mod, ← Nat.add_mod, Nat.add_assoc]
  rw [hone]
  rcases Nat.lt_or_ge (t + (n + 1)) N with h | h
  · rw [Nat.mod_eq_of_lt h, show t + N - (t + (n + 1)) = N - 1 - n by omega, Nat.mod_eq_of_lt]
    omega
  · have hsmall : t + (n + 1) - N < N := by omega
    rw [Nat.mod_eq_sub_mod h, Nat.mod_eq_of_lt hsmall,
      show t + N - (t + (n + 1) - N) = N - 1 - n + N by omega, Nat.add_mod_right,
      Nat.mod_eq_of_lt (by omega)]

theorem position_inj {t i j : ℕ} (hi : i < N) (hj : j < N) (h : (t + i) % N = (t + j) % N) :
    i = j := by
  have hm : i ≡ j [MOD N] := Nat.ModEq.add_left_cancel' t h
  rwa [Nat.ModEq, Nat.mod_eq_of_lt hi, Nat.mod_eq_of_lt hj] at hm

theorem succ_mod_eq (i : ℕ) (hN : 0 < N) :
    (i + 1) % N = if i % N + 1 = N then 0 else i % N + 1 := by
  have hlt := Nat.mod_lt i hN
  rw [← Nat.mod_add_mod]
  split_ifs with h
  · rw [h, Nat.mod_self]
  · exact Nat.mod_eq_of_lt (by omega)

theorem position_succ (t i : ℕ) : ((t + 1) % N + i) % N = (t + (i + 1)) % N := by
  rw [Nat.add_mod, Nat.mod_mod, ← Nat.add_mod, Nat.add_assoc, Nat.add_comm 1 i]

end Positions

end LinuxOddsAndEnds.Foundation
