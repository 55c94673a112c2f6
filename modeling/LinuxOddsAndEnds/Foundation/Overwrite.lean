import Mathlib.Data.List.Basic
import Mathlib.Tactic.Common

/-!
# Files overwritten from the start

A file that is opened without truncation keeps its tail when a shorter block is
written at its start. Its length is the largest length so far, so the last block is
all there is exactly when no earlier content was longer.
-/

namespace LinuxOddsAndEnds.Foundation

variable {β : Type*}

/-- Write a block at offset 0. -/
def overwrite (file block : List β) : List β := block ++ file.drop block.length

def overwriteAll (file : List β) (blocks : List (List β)) : List β := blocks.foldl overwrite file

@[simp] theorem length_overwrite (file block : List β) :
    (overwrite file block).length = max file.length block.length := by
  simp only [overwrite, List.length_append, List.length_drop]
  omega

theorem overwrite_eq_block_iff {file block : List β} :
    overwrite file block = block ↔ file.length ≤ block.length := by
  rw [overwrite, List.append_right_eq_self, List.drop_eq_nil_iff]

@[simp] theorem overwriteAll_concat (file : List β) (blocks : List (List β)) (block : List β) :
    overwriteAll file (blocks ++ [block]) = overwrite (overwriteAll file blocks) block := by
  simp [overwriteAll, List.foldl_append]

theorem length_overwriteAll_le_iff {n : ℕ} (blocks : List (List β)) (file : List β) :
    (overwriteAll file blocks).length ≤ n ↔
      file.length ≤ n ∧ ∀ block ∈ blocks, block.length ≤ n := by
  induction blocks generalizing file with
  | nil => simp [overwriteAll]
  | cons block blocks ih =>
    have hstep := ih (overwrite file block)
    rw [length_overwrite, Nat.max_le, and_assoc] at hstep
    simpa [overwriteAll] using hstep

/-- The last block is the whole file exactly when nothing before it was longer. -/
theorem overwriteAll_eq_last_iff {file last : List β} {blocks : List (List β)}
    (h : blocks.getLast? = some last) :
    overwriteAll file blocks = last ↔
      file.length ≤ last.length ∧ ∀ block ∈ blocks, block.length ≤ last.length := by
  obtain ⟨init, rfl⟩ := List.getLast?_eq_some_iff.mp h
  rw [overwriteAll_concat, overwrite_eq_block_iff, length_overwriteAll_le_iff]
  simp only [List.forall_mem_append, List.forall_mem_singleton, Nat.le_refl, and_true]

end LinuxOddsAndEnds.Foundation
