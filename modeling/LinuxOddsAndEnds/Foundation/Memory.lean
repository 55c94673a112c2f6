import Mathlib.Data.List.GetD
import Mathlib.Tactic.Common
import Mathlib.Tactic.Ring

/-!
# Byte memory seen from a pointer

`Mem` gives the byte at each offset from a pointer. `memcpy` and `load` work on
offsets, so distinct slots are disjoint ranges and the two read-after-write laws
below are all that a byte-addressed container needs. Fixed-width numbers are
stored least significant byte first.
-/

namespace LinuxOddsAndEnds.Foundation

abbrev Byte := BitVec 8

/-- `size_t` of a 64-bit kernel. -/
abbrev SizeT := BitVec 64

/-- The memory behind a pointer, by offset. -/
abbrev Mem := ℕ → Byte

/-- Copy `n` bytes of `src` to offset `off` of `dst`. -/
def memcpy (dst : Mem) (off : ℕ) (src : Mem) (n : ℕ) : Mem := fun i =>
  if off ≤ i ∧ i < off + n then src (i - off) else dst i

def load (m : Mem) (off n : ℕ) : List Byte := (List.range n).map fun i => m (off + i)

/-- Memory that starts with the given bytes; what follows is not looked at. -/
def ofBytes (l : List Byte) : Mem := fun i => l.getD i 0

theorem memcpy_of_ge (dst src : Mem) {off n i : ℕ} (hi : off + n ≤ i) :
    memcpy dst off src n i = dst i :=
  if_neg fun h => absurd h.2 (not_lt.mpr hi)

@[simp] theorem memcpy_zero (dst src : Mem) (off : ℕ) : memcpy dst off src 0 = dst := by
  funext i
  have hout : ¬(off ≤ i ∧ i < off + 0) := by omega
  rw [memcpy, if_neg hout]

@[simp] theorem length_load (m : Mem) (off n : ℕ) : (load m off n).length = n := by simp [load]

theorem load_congr {m m' : Mem} {off off' n : ℕ} (h : ∀ i < n, m (off + i) = m' (off' + i)) :
    load m off n = load m' off' n :=
  List.map_congr_left fun i hi => h i (List.mem_range.mp hi)

theorem load_succ (m : Mem) (off n : ℕ) : load m off (n + 1) = m off :: load m (off + 1) n := by
  simp only [load, List.range_succ_eq_map, List.map_cons, List.map_map, Nat.add_zero,
    Function.comp_def, Nat.succ_eq_add_one, Nat.add_assoc, Nat.add_comm 1]

theorem load_append (m : Mem) (off a b : ℕ) :
    load m off (a + b) = load m off a ++ load m (off + a) b := by
  simp only [load, List.range_add, List.map_append, List.map_map, Function.comp_def, Nat.add_assoc]

@[simp] theorem load_memcpy_same (dst : Mem) (off : ℕ) (src : Mem) (n : ℕ) :
    load (memcpy dst off src n) off n = load src 0 n := by
  apply load_congr
  intro i hi
  simp [memcpy, hi]

theorem load_memcpy_disjoint (dst : Mem) {off a : ℕ} (src : Mem) {n k : ℕ}
    (h : a + k ≤ off ∨ off + n ≤ a) : load (memcpy dst off src n) a k = load dst a k := by
  apply load_congr
  intro i hi
  have hout : ¬(off ≤ a + i ∧ a + i < off + n) := by omega
  simp [memcpy, hout]

theorem load_memcpy_extend (dst : Mem) (k : ℕ) (src : Mem) (n : ℕ) :
    load (memcpy dst k src n) 0 (k + n) = load dst 0 k ++ load src 0 n := by
  rw [load_append, load_memcpy_disjoint _ _ (Or.inl (Nat.zero_add k).le), Nat.zero_add,
    load_memcpy_same]

theorem slot_disjoint {s i j : ℕ} (hij : i ≠ j) : i * s + s ≤ j * s ∨ j * s + s ≤ i * s := by
  rcases Nat.lt_or_gt_of_ne hij with h | h
  · have hle := Nat.mul_le_mul_right s (Nat.succ_le_of_lt h)
    rw [Nat.succ_mul] at hle
    exact Or.inl hle
  · have hle := Nat.mul_le_mul_right s (Nat.succ_le_of_lt h)
    rw [Nat.succ_mul] at hle
    exact Or.inr hle

@[simp] theorem load_ofBytes (l : List Byte) : load (ofBytes l) 0 l.length = l := by
  apply List.ext_getElem (by simp)
  intro i h _
  simp only [length_load] at h
  simp [load, ofBytes, List.getD_eq_getElem?_getD, h]

theorem load_ofBytes_of_length {l : List Byte} {n : ℕ} (h : l.length = n) :
    load (ofBytes l) 0 n = l := by
  subst h
  exact load_ofBytes l

/-- The `n` low bytes of a number, least significant first. -/
def leBytes : ℕ → ℕ → List Byte
  | 0, _ => []
  | n + 1, x => BitVec.ofNat 8 x :: leBytes n (x / 256)

def ofLe : List Byte → ℕ
  | [] => 0
  | b :: bs => b.toNat + 256 * ofLe bs

@[simp] theorem length_leBytes (n x : ℕ) : (leBytes n x).length = n := by
  induction n generalizing x with
  | zero => rfl
  | succ n ih => simp [leBytes, ih]

theorem ofLe_leBytes (n x : ℕ) : ofLe (leBytes n x) = x % 256 ^ n := by
  induction n generalizing x with
  | zero => simp [leBytes, ofLe, Nat.mod_one]
  | succ n ih =>
    have hx : x % 256 ^ (n + 1) = x % 256 + 256 * (x / 256 % 256 ^ n) := by
      rw [pow_succ', Nat.mod_mul]
    simp [leBytes, ofLe, ih, hx]

theorem ofLe_leBytes_of_lt {n x : ℕ} (h : x < 256 ^ n) : ofLe (leBytes n x) = x := by
  rw [ofLe_leBytes, Nat.mod_eq_of_lt h]

theorem ofNat_ofLe_leBytes {n w : ℕ} (hw : w = 8 * n) (x : BitVec w) :
    BitVec.ofNat w (ofLe (leBytes n x.toNat)) = x := by
  subst hw
  have hlt : x.toNat < 256 ^ n := by
    have h := x.isLt
    rwa [pow_mul] at h
  rw [ofLe_leBytes_of_lt hlt, BitVec.ofNat_toNat, BitVec.setWidth_eq]

theorem take_drop_flatMap {α : Type*} {f : α → List Byte} {n : ℕ} (hf : ∀ a, (f a).length = n) :
    ∀ (as : List α) (i : ℕ) (h : i < as.length), ((as.flatMap f).drop (n * i)).take n = f as[i]
  | a :: as, 0, _ => by
    rw [Nat.mul_zero, List.drop_zero, List.flatMap_cons, List.take_left' (hf a),
      List.getElem_cons_zero]
  | a :: as, i + 1, h => by
    rw [List.flatMap_cons, Nat.mul_succ, Nat.add_comm, ← List.drop_drop, List.drop_left' (hf a),
      List.getElem_cons_succ]
    exact take_drop_flatMap hf as i (by simpa using h)

end LinuxOddsAndEnds.Foundation
