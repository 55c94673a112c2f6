import Mathlib.Data.List.Basic
import Mathlib.Tactic.Common

/-!
# Ideal bounded first-in first-out queues

The bound is carried by the value, so a queue longer than its bound cannot be
built. A rejected `push` answers `none`; `pop` on an empty queue changes nothing.
-/

namespace LinuxOddsAndEnds.Foundation

/-- Items from the oldest to the newest. -/
structure BoundedFifo (α : Type*) (bound : ℕ) where
  items : List α
  fits : items.length ≤ bound

namespace BoundedFifo

variable {α : Type*} {bound : ℕ}

def empty : BoundedFifo α bound := ⟨[], Nat.zero_le _⟩

instance : Inhabited (BoundedFifo α bound) := ⟨empty⟩

def space (q : BoundedFifo α bound) : ℕ := bound - q.items.length

def push (q : BoundedFifo α bound) (x : α) : Option (BoundedFifo α bound) :=
  if h : q.items.length < bound then
    some ⟨q.items ++ [x], by simpa using Nat.succ_le_of_lt h⟩
  else none

def front (q : BoundedFifo α bound) : Option α := q.items.head?

def pop (q : BoundedFifo α bound) : BoundedFifo α bound :=
  ⟨q.items.tail, by have := q.fits; simp only [List.length_tail]; omega⟩

@[ext] theorem ext {q q' : BoundedFifo α bound} (h : q.items = q'.items) : q = q' := by
  cases q
  cases q'
  simpa using h

@[simp] theorem items_empty : (empty : BoundedFifo α bound).items = [] := rfl

@[simp] theorem items_pop (q : BoundedFifo α bound) : q.pop.items = q.items.tail := rfl

theorem space_eq_zero {q : BoundedFifo α bound} : q.space = 0 ↔ q.items.length = bound := by
  have hfits := q.fits
  simp only [space]
  omega

theorem push_eq_some {q q' : BoundedFifo α bound} {x : α} :
    q.push x = some q' ↔ q.items.length < bound ∧ q'.items = q.items ++ [x] := by
  unfold push
  split_ifs with h
  · simp only [Option.some.injEq, h, true_and]
    constructor
    · rintro rfl
      rfl
    · intro he
      exact ext he.symm
  · simp [h]

theorem push_eq_none {q : BoundedFifo α bound} {x : α} :
    q.push x = none ↔ q.items.length = bound := by
  have hfits := q.fits
  unfold push
  split_ifs with h
  · simp only [false_iff]
    omega
  · simp only [true_iff]
    omega

end BoundedFifo
end LinuxOddsAndEnds.Foundation
