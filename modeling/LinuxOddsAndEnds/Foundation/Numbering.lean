import Mathlib.Data.List.Perm.Basic
import Mathlib.Tactic.Common

/-!
# Numbered streams with losses

Several sources number their entries 1, 2, 3, … and share one stream. When the
stream is split into what was delivered, what was lost and what is still on the way,
and nothing on the way precedes a delivered entry of the same source, then the
numbers missing among the delivered entries are exactly the numbers of lost ones.
-/

namespace LinuxOddsAndEnds.Foundation

variable {ι : Type*} [DecidableEq ι]

def countOf (i : ι) (l : List (ι × ℕ)) : ℕ := l.countP fun x => x.1 = i

def countUpTo (i : ι) (n : ℕ) (l : List (ι × ℕ)) : ℕ := l.countP fun x => x.1 = i ∧ x.2 ≤ n

/-- Each source numbers its entries from one, in stream order. -/
inductive Numbered : List (ι × ℕ) → Prop
  | nil : Numbered []
  | concat {l : List (ι × ℕ)} (i : ι) : Numbered l → Numbered (l ++ [(i, countOf i l + 1)])

@[simp] theorem countOf_append (i : ι) (l l' : List (ι × ℕ)) :
    countOf i (l ++ l') = countOf i l + countOf i l' := List.countP_append

theorem countOf_singleton (i : ι) (x : ι × ℕ) :
    countOf i [x] = if x.1 = i then 1 else 0 := by
  simp [countOf, List.countP_singleton]

@[simp] theorem countUpTo_append (i : ι) (n : ℕ) (l l' : List (ι × ℕ)) :
    countUpTo i n (l ++ l') = countUpTo i n l + countUpTo i n l' := List.countP_append

theorem countUpTo_singleton (i : ι) (n : ℕ) (x : ι × ℕ) :
    countUpTo i n [x] = if x.1 = i ∧ x.2 ≤ n then 1 else 0 := by
  rw [countUpTo, List.countP_singleton]
  simp only [decide_eq_true_eq]

namespace Numbered

variable {l : List (ι × ℕ)}

theorem bounds (h : Numbered l) {x : ι × ℕ} (hx : x ∈ l) : 0 < x.2 ∧ x.2 ≤ countOf x.1 l := by
  induction h with
  | nil => simp at hx
  | concat i _ ih =>
    rw [countOf_append]
    rcases List.mem_append.mp hx with hx | hx
    · have hbounds := ih hx
      omega
    · obtain rfl := List.mem_singleton.mp hx
      simp [countOf_singleton]

theorem pairwise (h : Numbered l) : l.Pairwise fun x y => x.1 = y.1 → x.2 < y.2 := by
  induction h with
  | nil => exact .nil
  | concat i h ih =>
    refine List.pairwise_append.mpr ⟨ih, List.pairwise_singleton _ _, ?_⟩
    intro x hx y hy hxy
    obtain rfl := List.mem_singleton.mp hy
    have hle := (h.bounds hx).2
    rw [hxy] at hle
    exact Nat.lt_succ_of_le hle

theorem nodup (h : Numbered l) : l.Nodup := by
  refine h.pairwise.imp ?_
  rintro x y hxy rfl
  exact Nat.lt_irrefl _ (hxy rfl)

theorem mem_of_le (h : Numbered l) {i : ι} {n : ℕ} (hn : 0 < n) (hle : n ≤ countOf i l) :
    (i, n) ∈ l := by
  induction h with
  | nil => simp [countOf] at hle; omega
  | @concat l j _ ih =>
    rw [countOf_append, countOf_singleton] at hle
    rcases Nat.lt_or_ge (countOf i l) n with hlt | hge
    · by_cases hj : j = i
      · subst hj
        simp only [if_true] at hle
        have he : n = countOf j l + 1 := by omega
        simp [he]
      · simp only [if_neg hj] at hle
        omega
    · exact List.mem_append_left _ (ih hge)

theorem countUpTo_all (h : Numbered l) {i : ι} {n : ℕ} (hle : countOf i l ≤ n) :
    countUpTo i n l = countOf i l := by
  refine List.countP_congr fun x hx => ?_
  have hb := (h.bounds hx).2
  simp only [decide_eq_true_eq, and_iff_left_iff_imp]
  rintro rfl
  omega

theorem countUpTo_eq (h : Numbered l) {i : ι} {n : ℕ} (hle : n ≤ countOf i l) :
    countUpTo i n l = n := by
  induction h generalizing n with
  | nil => simpa [countOf, countUpTo, eq_comm] using hle
  | @concat l j hl ih =>
    rw [countUpTo_append, countUpTo_singleton]
    rw [countOf_append, countOf_singleton] at hle
    rcases Nat.lt_or_ge (countOf i l) n with hlt | hge
    · rw [hl.countUpTo_all (Nat.le_of_lt hlt)]
      by_cases hj : j = i
      · subst hj
        rw [if_pos rfl] at hle
        rw [if_pos ⟨rfl, hlt⟩]
        omega
      · rw [if_neg hj] at hle
        omega
    · have hnot : ¬(j = i ∧ countOf j l + 1 ≤ n) := by
        rintro ⟨rfl, h⟩
        omega
      rw [ih hge, if_neg hnot, Nat.add_zero]

end Numbered

/-- The stream `all` without repetition as delivered, lost and pending entries, where no
pending entry precedes a delivered one of its source. -/
structure Split (all delivered lost pending : List (ι × ℕ)) : Prop where
  perm : all.Perm (delivered ++ (lost ++ pending))
  later : ∀ x ∈ delivered, ∀ y ∈ pending, x.1 = y.1 → x.2 < y.2

namespace Split

variable {all delivered lost pending : List (ι × ℕ)} {x : ι × ℕ}

theorem missing_iff (hs : Split all delivered lost pending) (h : Numbered all)
    (hx : x ∈ delivered) {n : ℕ} (hn : 0 < n) (hlt : n < x.2) :
    (x.1, n) ∉ delivered ↔ (x.1, n) ∈ lost := by
  have hxall : x ∈ all := hs.perm.mem_iff.mpr (List.mem_append_left _ hx)
  have hall : (x.1, n) ∈ all := h.mem_of_le hn (by have hle := (h.bounds hxall).2; omega)
  have hnodup := hs.perm.nodup_iff.mp h.nodup
  constructor
  · intro hnot
    rcases List.mem_append.mp (hs.perm.mem_iff.mp hall) with hd | hlp
    · exact absurd hd hnot
    · rcases List.mem_append.mp hlp with hl | hp
      · exact hl
      · have hlt' : x.2 < n := hs.later x hx _ hp rfl
        omega
  · intro hl hd
    exact (List.nodup_append.mp hnodup).2.2 _ hd _ (List.mem_append_left _ hl) rfl

/-- Up to a delivered number, deliveries and losses add up. -/
theorem count_add (hs : Split all delivered lost pending) (h : Numbered all)
    (hx : x ∈ delivered) :
    countUpTo x.1 x.2 delivered + countUpTo x.1 x.2 lost = x.2 := by
  have hxall : x ∈ all := hs.perm.mem_iff.mpr (List.mem_append_left _ hx)
  have hcount := h.countUpTo_eq (h.bounds hxall).2
  have hnone : countUpTo x.1 x.2 pending = 0 := by
    rw [countUpTo, List.countP_eq_zero]
    intro y hy
    have hlater := hs.later x hx y hy
    simp only [decide_eq_true_eq, not_and]
    intro he hle
    have hlt := hlater he.symm
    omega
  rw [countUpTo, hs.perm.countP_eq, ← countUpTo, countUpTo_append, countUpTo_append,
    hnone] at hcount
  omega

end Split

end LinuxOddsAndEnds.Foundation
