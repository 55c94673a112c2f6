import LinuxOddsAndEnds.Foundation.Throughout
import Mathlib.Algebra.BigOperators.Group.Finset.Basic
import Mathlib.Algebra.BigOperators.Group.Finset.Piecewise
import Mathlib.Data.Fintype.Basic

/-!
# A completion that several parties wait for

A completion counts what has been completed and not yet been waited for, and keeps the
parties that sleep in a queue. Each party that has begun something waits for one
completion. The count is right as long as the completion is initialised only while it is
at zero and nobody sleeps: then nobody is left asleep once everything is completed.
Otherwise a completion is lost or a sleeper is forgotten, and somebody sleeps for good.
-/

namespace LinuxOddsAndEnds.Foundation

/-- `owed`: something was begun, and the party has not come to sleep for it. -/
inductive Phase where
  | out
  | owed
  | asleep
  deriving DecidableEq

/-- `outstanding` is what was begun and has not been completed. -/
structure Completion (ι : Type*) where
  done : ℕ
  waiters : List ι
  outstanding : ℕ
  phase : ι → Phase

variable {ι : Type*}

namespace Completion

/-- Whoever sleeps is forgotten. -/
def init (c : Completion ι) : Completion ι := { c with done := 0, waiters := [] }

def fresh (c : Completion ι) : Bool := c.done == 0 && c.waiters.isEmpty

variable [DecidableEq ι]

def start (i : ι) (c : Completion ι) : Completion ι :=
  { c with outstanding := c.outstanding + 1, phase := Function.update c.phase i .owed }

/-- A party takes one from the count, or sleeps. -/
def wait (i : ι) (c : Completion ι) : Completion ι :=
  if c.done = 0 then
    { c with waiters := c.waiters ++ [i], phase := Function.update c.phase i .asleep }
  else { c with done := c.done - 1, phase := Function.update c.phase i .out }

/-- The first sleeper wakes, to look at the count again. -/
def complete (c : Completion ι) : Completion ι :=
  match c.waiters with
  | [] => { c with done := c.done + 1, outstanding := c.outstanding - 1 }
  | i :: rest => ⟨c.done + 1, rest, c.outstanding - 1, Function.update c.phase i .owed⟩

end Completion

theorem Completion.fresh_iff {c : Completion ι} :
    c.fresh = true ↔ c.done = 0 ∧ c.waiters = [] := by
  simp [Completion.fresh]

def Phase.needs : Phase → ℕ
  | .out => 0
  | .owed | .asleep => 1

def Phase.owes : Phase → ℕ
  | .owed => 1
  | .out | .asleep => 0

/-- The parties, each counted as its phase says. -/
def tally [Fintype ι] (w : Phase → ℕ) (phase : ι → Phase) : ℕ := ∑ i, w (phase i)

theorem sum_update {β : Type*} [Fintype ι] [DecidableEq ι] (w : β → ℕ) (f : ι → β) (i : ι) (b : β) :
    ∑ j, w (Function.update f i b j) + w (f i) = ∑ j, w (f j) + w b := by
  have hnew := Finset.add_sum_erase Finset.univ (fun j => w (Function.update f i b j))
    (Finset.mem_univ i)
  have hold := Finset.add_sum_erase Finset.univ (fun j => w (f j)) (Finset.mem_univ i)
  have hrest : ∑ j ∈ Finset.univ.erase i, w (Function.update f i b j) =
      ∑ j ∈ Finset.univ.erase i, w (f j) := by
    refine Finset.sum_congr rfl fun j hj => ?_
    rw [Function.update_of_ne (Finset.ne_of_mem_erase hj)]
  rw [← hnew, ← hold, hrest, Function.update_self]
  omega

section Tally

variable [Fintype ι] {w : Phase → ℕ} {phase : ι → Phase}

theorem tally_update [DecidableEq ι] (w : Phase → ℕ) (phase : ι → Phase) (i : ι) (p : Phase) :
    tally w (Function.update phase i p) + w (phase i) = tally w phase + w p :=
  sum_update w phase i p

theorem tally_eq_zero_iff : tally w phase = 0 ↔ ∀ i, w (phase i) = 0 := by
  simp [tally]

end Tally

structure Queued (c : Completion ι) : Prop where
  nodup : c.waiters.Nodup
  asleep : ∀ i ∈ c.waiters, c.phase i = .asleep

def Forgotten (c : Completion ι) : Prop := ∃ i, c.phase i = .asleep ∧ i ∉ c.waiters

/-- The completions that are needed and neither counted nor under way. -/
def Completion.missing [Fintype ι] (c : Completion ι) : ℤ :=
  tally Phase.needs c.phase - (c.done + c.outstanding : ℕ)

/-- Every completion that is needed is counted or under way, and every sleeper can be woken. -/
structure Balanced [Fintype ι] (c : Completion ι) : Prop where
  count : c.missing = 0
  known : ¬Forgotten c
  awake : c.waiters ≠ [] → c.done ≤ tally Phase.owes c.phase

def Short [Fintype ι] (c : Completion ι) : Prop := 0 < c.missing ∨ Forgotten c

/-- Nobody is about to look at the count, and nothing is under way. -/
structure Completion.Idle (c : Completion ι) : Prop where
  outstanding : c.outstanding = 0
  owed : ∀ i, c.phase i ≠ .owed

section Queue

variable {c : Completion ι} {i : ι}

theorem Queued.ne_of_mem (h : Queued c) (hi : c.phase i ≠ .asleep) {j : ι} (hj : j ∈ c.waiters) :
    j ≠ i := by
  rintro rfl
  exact hi (h.asleep j hj)

theorem queued_init (c : Completion ι) : Queued c.init :=
  ⟨List.nodup_nil, by simp [Completion.init]⟩

theorem forgotten_init (hq : Queued c) (hwaiters : c.waiters ≠ []) : Forgotten c.init := by
  obtain ⟨i, hi⟩ := List.exists_mem_of_ne_nil _ hwaiters
  exact ⟨i, hq.asleep i hi, by simp [Completion.init]⟩

theorem Forgotten.init (h : Forgotten c) : Forgotten c.init := by
  obtain ⟨i, hi, -⟩ := h
  exact ⟨i, hi, by simp [Completion.init]⟩

variable [DecidableEq ι]

theorem Queued.start (h : Queued c) (hi : c.phase i ≠ .asleep) : Queued (c.start i) where
  nodup := h.nodup
  asleep j hj := (Function.update_of_ne (h.ne_of_mem hi hj) ..).trans (h.asleep j hj)

theorem Queued.wait (h : Queued c) (hi : c.phase i ≠ .asleep) : Queued (c.wait i) := by
  have hother : ∀ p, ∀ j ∈ c.waiters, Function.update c.phase i p j = .asleep := fun p j hj =>
    (Function.update_of_ne (h.ne_of_mem hi hj) ..).trans (h.asleep j hj)
  unfold Completion.wait
  split_ifs
  · refine ⟨List.nodup_append.mpr ⟨h.nodup, List.nodup_singleton i, fun j hj k hk => ?_⟩, ?_⟩
    · rw [List.mem_singleton.mp hk]
      exact h.ne_of_mem hi hj
    · intro j hj
      rcases List.mem_append.mp hj with hj | hj
      · exact hother _ j hj
      · rw [List.mem_singleton.mp hj]
        exact Function.update_self ..
  · exact ⟨h.nodup, hother _⟩

theorem Queued.complete (h : Queued c) : Queued c.complete := by
  unfold Completion.complete
  cases hwaiters : c.waiters with
  | nil => exact ⟨by simp, by simp⟩
  | cons i rest =>
    have hnodup := h.nodup
    rw [hwaiters, List.nodup_cons] at hnodup
    refine ⟨hnodup.2, fun j hj => ?_⟩
    have hne : j ≠ i := by
      rintro rfl
      exact hnodup.1 hj
    exact (Function.update_of_ne hne ..).trans (h.asleep j (hwaiters ▸ List.mem_cons_of_mem i hj))

end Queue

section Forgotten

variable {c : Completion ι} {i : ι} [DecidableEq ι]

theorem forgotten_start (hi : c.phase i ≠ .asleep) : Forgotten (c.start i) ↔ Forgotten c := by
  refine exists_congr fun j => and_congr_left fun _ => ?_
  by_cases hj : j = i
  · simp [Completion.start, hj, hi]
  · simp [Completion.start, hj]

theorem forgotten_wait (hi : c.phase i ≠ .asleep) : Forgotten (c.wait i) ↔ Forgotten c := by
  unfold Completion.wait
  split_ifs <;> refine exists_congr fun j => ?_ <;> by_cases hj : j = i <;> simp [hj, hi]

theorem forgotten_complete : Forgotten c.complete ↔ Forgotten c := by
  unfold Completion.complete
  cases hwaiters : c.waiters with
  | nil => simp [Forgotten, hwaiters]
  | cons i rest =>
    refine exists_congr fun j => ?_
    by_cases hj : j = i <;> simp [hj, hwaiters]

end Forgotten

section Count

variable [Fintype ι] {c : Completion ι} {i : ι}

theorem missing_init (c : Completion ι) : c.init.missing = c.missing + c.done := by
  simp only [Completion.missing, Completion.init]
  omega

variable [DecidableEq ι]

theorem missing_start (hi : c.phase i = .out) : (c.start i).missing = c.missing := by
  have htally := tally_update Phase.needs c.phase i .owed
  rw [hi] at htally
  simp only [Completion.missing, Completion.start, Phase.needs] at *
  omega

theorem missing_wait (hi : c.phase i = .owed) : (c.wait i).missing = c.missing := by
  unfold Completion.wait
  split_ifs
  · have htally := tally_update Phase.needs c.phase i .asleep
    rw [hi] at htally
    simp only [Completion.missing, Phase.needs] at *
    omega
  · have htally := tally_update Phase.needs c.phase i .out
    rw [hi] at htally
    simp only [Completion.missing, Phase.needs] at *
    omega

theorem missing_complete (hq : Queued c) (hc : c.outstanding ≠ 0) :
    c.complete.missing = c.missing := by
  unfold Completion.complete
  cases hwaiters : c.waiters with
  | nil =>
    simp only [Completion.missing]
    omega
  | cons i rest =>
    have htally := tally_update Phase.needs c.phase i .owed
    rw [hq.asleep i (hwaiters ▸ List.mem_cons_self)] at htally
    simp only [Completion.missing, Phase.needs] at *
    omega

end Count

section Balance

variable [Fintype ι] {c : Completion ι} {i : ι}

theorem Balanced.init (h : Balanced c) (hfresh : c.fresh = true) : Balanced c.init := by
  obtain ⟨hdone, hwaiters⟩ := Completion.fresh_iff.mp hfresh
  have hsame : c.init = c := by
    rw [Completion.init, ← hdone, ← hwaiters]
  rwa [hsame]

/-- An initialisation at any other time loses what it finds. -/
theorem Balanced.short_init (h : Balanced c) (hq : Queued c) (hfresh : c.fresh = false) :
    Short c.init := by
  by_cases hwaiters : c.waiters = []
  · have hdone : c.done ≠ 0 := fun hdone => by
      rw [Completion.fresh_iff.mpr ⟨hdone, hwaiters⟩] at hfresh
      cases hfresh
    left
    rw [missing_init, h.count]
    omega
  · exact Or.inr (forgotten_init hq hwaiters)

theorem Short.init (h : Short c) : Short c.init := by
  refine h.imp (fun hmissing => ?_) Forgotten.init
  rw [missing_init]
  omega

theorem Balanced.all_out (h : Balanced c) (hidle : c.Idle) : ∀ i, c.phase i = .out := by
  have howes : tally Phase.owes c.phase = 0 := by
    refine tally_eq_zero_iff.mpr fun i => ?_
    cases hphase : c.phase i with
    | owed => exact absurd hphase (hidle.owed i)
    | out | asleep => rfl
  have hcount := h.count
  rw [Completion.missing, hidle.outstanding] at hcount
  have hdone : c.done = 0 ∨ c.waiters = [] := by
    by_cases hwaiters : c.waiters = []
    · exact Or.inr hwaiters
    · have hle := h.awake hwaiters
      exact Or.inl (by omega)
  have hasleep : ∀ i, c.phase i ≠ .asleep := by
    rcases hdone with hdone | hwaiters
    · have hneeds := tally_eq_zero_iff.mp (show tally Phase.needs c.phase = 0 by omega)
      intro i hi
      have hone := hneeds i
      rw [hi] at hone
      cases hone
    · exact fun i hi => h.known ⟨i, hi, by simp [hwaiters]⟩
  intro i
  cases hphase : c.phase i with
  | out => rfl
  | owed => exact absurd hphase (hidle.owed i)
  | asleep => exact absurd hphase (hasleep i)

/-- Where a completion was lost, somebody waits for good. -/
theorem Short.not_all_out (h : Short c) : ¬∀ i, c.phase i = .out := by
  intro hout
  rcases h with hmissing | ⟨i, hi, -⟩
  · have hneeds : tally Phase.needs c.phase = 0 :=
      tally_eq_zero_iff.mpr fun i => by rw [hout i]; rfl
    rw [Completion.missing, hneeds] at hmissing
    omega
  · rw [hout i] at hi
    cases hi

variable [DecidableEq ι]

theorem Balanced.start (h : Balanced c) (hi : c.phase i = .out) : Balanced (c.start i) where
  count := (missing_start hi).trans h.count
  known := by
    rw [forgotten_start (by simp [hi])]
    exact h.known
  awake hwaiters := by
    have htally := tally_update Phase.owes c.phase i .owed
    have hle := h.awake hwaiters
    rw [hi] at htally
    simp only [Completion.start, Phase.owes] at *
    omega

theorem Balanced.wait (h : Balanced c) (hi : c.phase i = .owed) : Balanced (c.wait i) where
  count := (missing_wait hi).trans h.count
  known := by
    rw [forgotten_wait (by simp [hi])]
    exact h.known
  awake := by
    unfold Completion.wait
    split_ifs with hdone
    · intro _
      simp [hdone]
    · intro hwaiters
      have htally := tally_update Phase.owes c.phase i .out
      have hle := h.awake hwaiters
      rw [hi] at htally
      simp only [Phase.owes] at *
      omega

theorem Balanced.complete (h : Balanced c) (hq : Queued c) (hc : c.outstanding ≠ 0) :
    Balanced c.complete where
  count := (missing_complete hq hc).trans h.count
  known := by
    rw [forgotten_complete]
    exact h.known
  awake := by
    have hawake := h.awake
    unfold Completion.complete
    cases hwaiters : c.waiters with
    | nil => exact fun hne => absurd rfl hne
    | cons i rest =>
      intro _
      have htally := tally_update Phase.owes c.phase i .owed
      have hle := hawake (by simp [hwaiters])
      rw [hq.asleep i (hwaiters ▸ List.mem_cons_self)] at htally
      simp only [Phase.owes] at *
      omega

theorem Short.start (h : Short c) (hi : c.phase i = .out) : Short (c.start i) := by
  rwa [Short, missing_start hi, forgotten_start (by simp [hi])]

theorem Short.wait (h : Short c) (hi : c.phase i = .owed) : Short (c.wait i) := by
  rwa [Short, missing_wait hi, forgotten_wait (by simp [hi])]

theorem Short.complete (h : Short c) (hq : Queued c) (hc : c.outstanding ≠ 0) :
    Short c.complete := by
  rwa [Short, missing_complete hq hc, forgotten_complete]

end Balance

end LinuxOddsAndEnds.Foundation
