import Mathlib.Data.List.Chain
import Mathlib.Order.Basic
import Mathlib.Tactic.Common

/-!
# Spacing out a sequence of times

A filter that lets a time through when it is far enough from the last one that it let
through spaces out what passes. A filter that never moves its reference compares every
time with the origin; it gives the same verdicts exactly when what it lets through is
spaced out already.
-/

namespace LinuxOddsAndEnds.Foundation

variable {τ : Type*} (far : τ → τ → Prop) [DecidableRel far]

/-- The verdicts of the filter, where `last` was let through before. -/
def spaced : τ → List τ → List Bool
  | _, [] => []
  | last, t :: ts => if far last t then true :: spaced t ts else false :: spaced last ts

def passed : List τ → List Bool → List τ
  | t :: ts, v :: vs => if v then t :: passed ts vs else passed ts vs
  | _, _ => []

variable {far}

theorem isChain_passed_spaced (last : τ) (ts : List τ) :
    (last :: passed ts (spaced far last ts)).IsChain far := by
  induction ts generalizing last with
  | nil => simp [passed]
  | cons t ts ih =>
    rw [spaced]
    split_ifs with hfar
    · exact List.IsChain.cons_cons hfar (ih t)
    · exact ih last

theorem pairwise_passed_spaced [IsTrans τ far] (last : τ) (ts : List τ) :
    (passed ts (spaced far last ts)).Pairwise far :=
  (List.isChain_iff_pairwise.mp (isChain_passed_spaced last ts)).of_cons

/-- After a first time that passed, nothing is held back exactly when every time is far
from the one before it. -/
theorem spaced_eq_true_iff (last : τ) (ts : List τ) :
    spaced far last ts = ts.map (fun _ => true) ↔ (last :: ts).IsChain far := by
  induction ts generalizing last with
  | nil => simp [spaced]
  | cons t ts ih =>
    rw [spaced, List.isChain_cons_cons, List.map_cons]
    split_ifs with hfar
    · rw [List.cons.injEq, ih t]
      exact and_congr_left' (iff_of_true rfl hfar)
    · exact iff_of_false (fun he => Bool.false_ne_true (List.cons.inj he).1) fun hc => hfar hc.1

variable (far) in
theorem spaced_eq_map_iff [Preorder τ] (hmono : ∀ {a b c}, far a b → b ≤ c → far a c)
    (origin : τ) {ts : List τ} (hsorted : ts.Pairwise (· ≤ ·)) :
    spaced far origin ts = ts.map (fun t => decide (far origin t)) ↔
      (ts.filter fun t => far origin t).IsChain far := by
  induction ts with
  | nil => simp [spaced]
  | cons t ts ih =>
    rw [List.pairwise_cons] at hsorted
    rw [spaced]
    by_cases hfar : far origin t
    · have hall : ∀ u ∈ ts, decide (far origin u) = true := fun u hu =>
        decide_eq_true (hmono hfar (hsorted.1 u hu))
      have hkeep : (t :: ts).filter (fun t => decide (far origin t)) = t :: ts := by
        apply List.filter_eq_self.mpr
        simp only [List.mem_cons, forall_eq_or_imp]
        exact ⟨decide_eq_true hfar, hall⟩
      rw [if_pos hfar, hkeep, List.map_cons, decide_eq_true hfar, List.map_congr_left hall,
        List.cons.injEq, ← spaced_eq_true_iff t ts]
      exact and_iff_right rfl
    · rw [if_neg hfar, List.map_cons, decide_eq_false hfar, List.cons.injEq,
        List.filter_cons_of_neg (by simpa using hfar), ih hsorted.2]
      exact and_iff_right rfl

end LinuxOddsAndEnds.Foundation
