import Mathlib.Data.List.Basic
import Mathlib.Tactic.Common

/-!
# Labelled machines and their runs

A machine answers an action with the next state and with what the action lets an
observer see, or refuses the action. Runs collect the observations in order, so
histories live in the trace and the state holds only what the program stores.
Every choice of a scheduler or of the environment is an action; the machine
itself is a function and can be executed.
-/

namespace LinuxOddsAndEnds.Foundation

variable {σ τ α ω : Type*}

/-- `none` refuses the action in that state. -/
abbrev Machine (σ α ω : Type*) := σ → α → Option (σ × List ω)

/-- States reached from `s₀`, each with the observations made on the way. -/
inductive Reaches (m : Machine σ α ω) (s₀ : σ) : σ → List ω → Prop
  | start : Reaches m s₀ s₀ []
  | next {s s' : σ} {a : α} {tr seen : List ω} :
      Reaches m s₀ s tr → m s a = some (s', seen) → Reaches m s₀ s' (tr ++ seen)

/-- The invariant rule: what holds at the start and is kept by every action that
the machine accepts holds of every state and trace reached. -/
theorem Reaches.invariant {m : Machine σ α ω} {s₀ : σ} {I : σ → List ω → Prop} (start : I s₀ [])
    (step : ∀ s tr a s' seen, I s tr → m s a = some (s', seen) → I s' (tr ++ seen))
    {s : σ} {tr : List ω} (h : Reaches m s₀ s tr) : I s tr := by
  induction h with
  | start => exact start
  | next _ hs ih => exact step _ _ _ _ _ ih hs

theorem Reaches.trans {m : Machine σ α ω} {s₀ s t : σ} {tr tr' : List ω}
    (h : Reaches m s₀ s tr) (h' : Reaches m s t tr') : Reaches m s₀ t (tr ++ tr') := by
  induction h' with
  | start => simpa using h
  | next _ hs ih => simpa [List.append_assoc] using ih.next hs

theorem Reaches.single {m : Machine σ α ω} {s s' : σ} {a : α} {seen : List ω}
    (h : m s a = some (s', seen)) : Reaches m s s' seen := by
  simpa using Reaches.start.next h

/-- Execute a schedule; the whole schedule is refused as soon as one action is. -/
def exec (m : Machine σ α ω) : σ → List α → Option (σ × List ω)
  | s, [] => some (s, [])
  | s, a :: as =>
    match m s a with
    | none => none
    | some (s', seen) => (exec m s' as).map fun r => (r.1, seen ++ r.2)

theorem exec_cons {m : Machine σ α ω} {s s' : σ} {a : α} {as : List α} {seen : List ω}
    (h : m s a = some (s', seen)) :
    exec m s (a :: as) = (exec m s' as).map fun r => (r.1, seen ++ r.2) := by
  rw [exec, h]

theorem exec_cons_eq_some {m : Machine σ α ω} {s s' : σ} {a : α} {as : List α} {tr : List ω}
    (h : exec m s (a :: as) = some (s', tr)) : ∃ t seen rest,
      m s a = some (t, seen) ∧ exec m t as = some (s', rest) ∧ tr = seen ++ rest := by
  cases hs : m s a with
  | none => simp [exec, hs] at h
  | some r =>
    obtain ⟨t, seen⟩ := r
    rw [exec_cons hs, Option.map_eq_some_iff] at h
    obtain ⟨⟨u, rest⟩, hu, he⟩ := h
    obtain ⟨rfl, rfl⟩ := Prod.mk.inj he
    exact ⟨t, seen, rest, rfl, hu, rfl⟩

theorem exists_exec_iff {m : Machine σ α ω} {s₀ : σ} {as : List α} {P : σ → List ω → Prop}
    [∀ s tr, Decidable (P s tr)] : (exec m s₀ as).any (fun r => decide (P r.1 r.2)) = true ↔
      ∃ s tr, exec m s₀ as = some (s, tr) ∧ P s tr := by
  cases exec m s₀ as with
  | none => simp
  | some r => simp [Prod.ext_iff]

/-- What a given schedule leads to can be tested by running it. -/
instance (m : Machine σ α ω) (s₀ : σ) (as : List α) (P : σ → List ω → Prop)
    [∀ s tr, Decidable (P s tr)] : Decidable (∃ s tr, exec m s₀ as = some (s, tr) ∧ P s tr) :=
  decidable_of_iff _ exists_exec_iff

theorem Reaches.of_exec {m : Machine σ α ω} : ∀ {as : List α} {s s' : σ} {tr : List ω},
    exec m s as = some (s', tr) → Reaches m s s' tr
  | [], s, s', tr, h => by
    obtain ⟨rfl, rfl⟩ := Prod.mk.inj (Option.some.inj h)
    exact .start
  | a :: as, s, s', tr, h => by
    obtain ⟨t, seen, rest, hs, hrest, rfl⟩ := exec_cons_eq_some h
    exact (Reaches.single hs).trans (Reaches.of_exec hrest)

theorem exec_append {m : Machine σ α ω} : ∀ {as bs : List α} {s t u : σ} {tr tr' : List ω},
    exec m s as = some (t, tr) → exec m t bs = some (u, tr') →
      exec m s (as ++ bs) = some (u, tr ++ tr')
  | [], bs, s, t, u, tr, tr', h, h' => by
    obtain ⟨rfl, rfl⟩ := Prod.mk.inj (Option.some.inj h)
    exact h'
  | a :: as, bs, s, t, u, tr, tr', h, h' => by
    obtain ⟨v, seen, rest, hs, hrest, rfl⟩ := exec_cons_eq_some h
    rw [List.cons_append, exec_cons hs, exec_append hrest h', List.append_assoc]
    rfl

theorem exec_single {m : Machine σ α ω} {s s' : σ} {a : α} {seen : List ω}
    (h : m s a = some (s', seen)) : exec m s [a] = some (s', seen) := by
  simp [exec, h]

theorem Reaches.exists_exec {m : Machine σ α ω} {s₀ s : σ} {tr : List ω}
    (h : Reaches m s₀ s tr) : ∃ as, exec m s₀ as = some (s, tr) := by
  induction h with
  | start => exact ⟨[], rfl⟩
  | @next s s' a tr seen _ hs ih =>
    obtain ⟨as, has⟩ := ih
    exact ⟨as ++ [a], exec_append has (exec_single hs)⟩

section Measure

variable {m : Machine σ α ω} {I : σ → Prop} {measure : σ → ℕ}

/-- Each accepted action keeps the invariant and makes the measure smaller. -/
def Decreases (m : Machine σ α ω) (I : σ → Prop) (measure : σ → ℕ) : Prop :=
  ∀ s a s' seen, I s → m s a = some (s', seen) → I s' ∧ measure s' < measure s

theorem Decreases.length_le (step : Decreases m I measure) :
    ∀ {as : List α} {s s' : σ} {tr : List ω}, I s → exec m s as = some (s', tr) →
      I s' ∧ as.length + measure s' ≤ measure s
  | [], s, s', tr, hI, h => by
    obtain ⟨rfl, rfl⟩ := Prod.mk.inj (Option.some.inj h)
    exact ⟨hI, by simp⟩
  | a :: as, s, s', tr, hI, h => by
    obtain ⟨t, seen, rest, hs, hrest, rfl⟩ := exec_cons_eq_some h
    obtain ⟨hI', hlt⟩ := step s a t seen hI hs
    obtain ⟨hI'', hle⟩ := step.length_le hI' hrest
    rw [List.length_cons]
    exact ⟨hI'', by omega⟩

theorem Decreases.exists_stop (step : Decreases m I measure) (s : σ) (hI : I s) :
    ∃ s' tr, Reaches m s s' tr ∧ ∀ a, m s' a = none := by
  induction hn : measure s using Nat.strongRecOn generalizing s with
  | ind n ih =>
    by_cases hstop : ∀ a, m s a = none
    · exact ⟨s, [], .start, hstop⟩
    · obtain ⟨a, ha⟩ := not_forall.mp hstop
      obtain ⟨⟨t, seen⟩, hs⟩ := Option.ne_none_iff_exists'.mp ha
      obtain ⟨hI', hlt⟩ := step s a t seen hI hs
      obtain ⟨s', tr, hreach, hend⟩ := ih (measure t) (hn ▸ hlt) t hI' rfl
      exact ⟨s', seen ++ tr, (Reaches.single hs).trans hreach, hend⟩

/-- Every run from `s` has at most `n` actions, and where one cannot go on `P` holds. -/
def Completes (m : Machine σ α ω) (s : σ) (n : ℕ) (P : σ → List ω → Prop) : Prop :=
  ∀ as s' tr, exec m s as = some (s', tr) → as.length ≤ n ∧ ((∀ a, m s' a = none) → P s' tr)

/-- A decreasing measure leaves only the states without an action to look at. -/
theorem Decreases.completes {P : σ → List ω → Prop} {s : σ} (step : Decreases m I measure)
    (hI : I s) (stop : ∀ s' tr, Reaches m s s' tr → I s' → (∀ a, m s' a = none) → P s' tr) :
    Completes m s (measure s) P := by
  intro as s' tr hrun
  obtain ⟨hI', hlength⟩ := step.length_le hI hrun
  exact ⟨by omega, stop s' tr (Reaches.of_exec hrun) hI'⟩

theorem Completes.exists_stop {P : σ → List ω → Prop} {s t : σ} {n : ℕ} {tr : List ω}
    (h : Completes m s n P) (step : Decreases m I measure) (hI : I t)
    (hreach : Reaches m s t tr) : ∃ s' tr', Reaches m t s' tr' ∧ P s' (tr ++ tr') := by
  obtain ⟨s', tr', hrest, hstop⟩ := step.exists_stop t hI
  obtain ⟨as, has⟩ := (hreach.trans hrest).exists_exec
  exact ⟨s', tr', hrest, (h as s' (tr ++ tr') has).2 hstop⟩

end Measure

/-- Forward simulation between machines that accept every action: if each action
shows the same on both sides and keeps `R`, so does every schedule. -/
theorem exec_of_simulation {m : Machine σ α ω} {m' : Machine τ α ω} {R : σ → τ → Prop}
    (step : ∀ s t a, R s t → ∃ s' t' seen,
      m s a = some (s', seen) ∧ m' t a = some (t', seen) ∧ R s' t') :
    ∀ (as : List α) (s : σ) (t : τ), R s t → ∃ s' t' tr,
      exec m s as = some (s', tr) ∧ exec m' t as = some (t', tr) ∧ R s' t' := by
  intro as
  induction as with
  | nil => exact fun s t h => ⟨s, t, [], rfl, rfl, h⟩
  | cons a as ih =>
    intro s t h
    obtain ⟨s₁, t₁, seen, hs, ht, h₁⟩ := step s t a h
    obtain ⟨s', t', tr, hs', ht', h'⟩ := ih s₁ t₁ h₁
    exact ⟨s', t', seen ++ tr, by simp [exec, hs, hs'], by simp [exec, ht, ht'], h'⟩

/-- Forward simulation of runs: each step on the left is answered by a run on the right, perhaps
an empty one, that shows the same of what `view` and `view'` keep. -/
theorem Reaches.simulate {β ω' ν : Type*} {m : Machine σ α ω} {m' : Machine τ β ω'}
    {R : σ → τ → Prop} {view : ω → List ν} {view' : ω' → List ν}
    (step : ∀ s t a s' seen, R s t → m s a = some (s', seen) → ∃ t' seen',
      Reaches m' t t' seen' ∧ R s' t' ∧ seen'.flatMap view' = seen.flatMap view)
    {s₀ s : σ} {t₀ : τ} {tr : List ω} (h : Reaches m s₀ s tr) (start : R s₀ t₀) :
    ∃ t tr', Reaches m' t₀ t tr' ∧ R s t ∧ tr'.flatMap view' = tr.flatMap view := by
  induction h with
  | start => exact ⟨t₀, [], .start, start, rfl⟩
  | next _ hs ih =>
    obtain ⟨t, tr', hreach, hR, hview⟩ := ih
    obtain ⟨t', seen', hmore, hR', hview'⟩ := step _ _ _ _ _ hR hs
    exact ⟨t', tr' ++ seen', hreach.trans hmore, hR', by simp [hview, hview']⟩

section Relabel

variable {β : Type*} {m : Machine σ α ω} {m' : Machine τ β ω} {label : σ → α → List β}
  {R : σ → τ → Prop}

/-- The schedule that a run is for another machine, each action read as `label` has it. -/
def relabel (m : Machine σ α ω) (label : σ → α → List β) : σ → List α → List β
  | _, [] => []
  | s, a :: as =>
    label s a ++
      match m s a with
      | none => []
      | some (s', _) => relabel m label s' as

theorem relabel_cons {s s' : σ} {a : α} {as : List α} {seen : List ω}
    (h : m s a = some (s', seen)) :
    relabel m label s (a :: as) = label s a ++ relabel m label s' as := by
  rw [relabel, h]

theorem exists_mem_of_mem_relabel {x : β} : ∀ {as : List α} {s : σ}, x ∈ relabel m label s as →
    ∃ a ∈ as, ∃ t, x ∈ label t a
  | a :: as, s, h => by
    rw [relabel, List.mem_append] at h
    rcases h with hfirst | hrest
    · exact ⟨a, List.mem_cons_self, s, hfirst⟩
    · cases hs : m s a with
      | none => simp [hs] at hrest
      | some r =>
        rw [hs] at hrest
        obtain ⟨a', ha', hx⟩ := exists_mem_of_mem_relabel hrest
        exact ⟨a', List.mem_cons_of_mem a ha', hx⟩

/-- If what an action is for the other machine shows the same there and keeps `R`, so does what a
schedule is. -/
theorem exec_relabel (step : ∀ s t a s' seen, R s t → m s a = some (s', seen) →
      ∃ t', exec m' t (label s a) = some (t', seen) ∧ R s' t') :
    ∀ {as : List α} {s s' : σ} {t : τ} {tr : List ω}, R s t → exec m s as = some (s', tr) →
      ∃ t', exec m' t (relabel m label s as) = some (t', tr) ∧ R s' t'
  | [], s, s', t, tr, hR, h => by
    obtain ⟨rfl, rfl⟩ := Prod.mk.inj (Option.some.inj h)
    exact ⟨t, rfl, hR⟩
  | a :: as, s, s', t, tr, hR, h => by
    obtain ⟨u, seen, rest, hs, hrest, rfl⟩ := exec_cons_eq_some h
    obtain ⟨t₁, ht₁, hR₁⟩ := step s t a u seen hR hs
    obtain ⟨t', ht', hR'⟩ := exec_relabel step hR₁ hrest
    rw [relabel_cons hs]
    exact ⟨t', exec_append ht₁ ht', hR'⟩

end Relabel

/-- The same machine, refusing every action that does not meet `ok`. -/
def Machine.when (m : Machine σ α ω) (ok : σ → α → Bool) : Machine σ α ω := fun s a =>
  if ok s a then m s a else none

theorem Machine.when_eq_some {m : Machine σ α ω} {ok : σ → α → Bool} {s : σ} {a : α}
    {r : σ × List ω} : m.when ok s a = some r ↔ ok s a = true ∧ m s a = some r := by
  simp [Machine.when]

theorem Reaches.of_when {m : Machine σ α ω} {ok : σ → α → Bool} {s₀ s : σ} {tr : List ω}
    (h : Reaches (m.when ok) s₀ s tr) : Reaches m s₀ s tr := by
  induction h with
  | start => exact .start
  | next _ hs ih => exact ih.next (Machine.when_eq_some.mp hs).2

theorem exec_of_when {m : Machine σ α ω} {ok : σ → α → Bool} : ∀ {as : List α} {s : σ}
    {r : σ × List ω}, exec (m.when ok) s as = some r → exec m s as = some r
  | [], _, _, h => h
  | a :: as, s, (s', tr), h => by
    obtain ⟨t, seen, rest, hs, hrest, rfl⟩ := exec_cons_eq_some h
    rw [exec_cons (Machine.when_eq_some.mp hs).2, exec_of_when hrest]
    rfl

section Conditional

variable {m : Machine σ α ω} {m' : Machine τ α ω} {ok inside : σ → α → Bool} {R : σ → τ → Prop}

/-- A simulation that holds while the actions meet `ok`: a schedule that stays
within `ok` shows the same on both sides, and stays within `inside` if `ok` does. -/
theorem exec_of_simulation_when
    (agree : ∀ s t a, R s t → ok s a = true → inside s a = true ∧ ∃ s' t' seen,
      m s a = some (s', seen) ∧ m' t a = some (t', seen) ∧ R s' t') :
    ∀ (as : List α) (s : σ) (t : τ), R s t → (exec (m.when ok) s as).isSome →
      ∃ s' t' tr, exec (m.when inside) s as = some (s', tr) ∧ exec m' t as = some (t', tr) ∧
        R s' t' := by
  intro as
  induction as with
  | nil => exact fun s t h _ => ⟨s, t, [], rfl, rfl, h⟩
  | cons a as ih =>
    intro s t h hrun
    cases hok : ok s a with
    | false => simp [exec, Machine.when, hok] at hrun
    | true =>
      obtain ⟨hin, s₁, t₁, seen, hs, ht, h₁⟩ := agree s t a h hok
      have hrest : (exec (m.when ok) s₁ as).isSome := by
        simpa [exec, Machine.when, hok, hs] using hrun
      obtain ⟨s', t', tr, hs', ht', h'⟩ := ih s₁ t₁ h₁ hrest
      refine ⟨s', t', seen ++ tr, ?_, ?_, h'⟩
      · simp [exec, Machine.when, hin, hs, hs']
      · simp [exec, ht, ht']

/-- The converse, when the first action outside `ok` is either outside `inside` or
shows something else at once. -/
theorem exec_when_of_same_trace
    (agree : ∀ s t a, R s t → ok s a = true → inside s a = true ∧ ∃ s' t' seen,
      m s a = some (s', seen) ∧ m' t a = some (t', seen) ∧ R s' t')
    (differ : ∀ s t a, R s t → ok s a = false → inside s a = true → ∃ s' t' x y seen seen',
      m s a = some (s', x :: seen) ∧ m' t a = some (t', y :: seen') ∧ x ≠ y) :
    ∀ (as : List α) (s : σ) (t : τ) (s' : σ) (t' : τ) (tr : List ω), R s t →
      exec (m.when inside) s as = some (s', tr) → exec m' t as = some (t', tr) →
      (exec (m.when ok) s as).isSome := by
  intro as
  induction as with
  | nil =>
    intro s t s' t' tr _ _ _
    simp [exec]
  | cons a as ih =>
    intro s t s' t' tr h hs' ht'
    cases hin : inside s a with
    | false => simp [exec, Machine.when, hin] at hs'
    | true =>
      cases hok : ok s a with
      | true =>
        obtain ⟨-, s₁, t₁, seen, hs, ht, h₁⟩ := agree s t a h hok
        simp only [exec, Machine.when, hin, hs, if_true, ht, Option.map_eq_some_iff] at hs' ht'
        obtain ⟨⟨u, rest⟩, hu, hue⟩ := hs'
        obtain ⟨⟨v, rest'⟩, hv, hve⟩ := ht'
        simp only [Prod.mk.injEq] at hue hve
        have hsame : rest' = rest := List.append_cancel_left (hve.2.trans hue.2.symm)
        subst hsame
        have hnext := ih s₁ t₁ u v _ h₁ hu hv
        simpa [exec, Machine.when, hok, hs] using hnext
      | false =>
        obtain ⟨s₁, t₁, x, y, seen, seen', hs, ht, hne⟩ := differ s t a h hok hin
        simp only [exec, Machine.when, hin, hs, if_true, ht, Option.map_eq_some_iff] at hs' ht'
        obtain ⟨⟨u, rest⟩, -, hue⟩ := hs'
        obtain ⟨⟨v, rest'⟩, -, hve⟩ := ht'
        simp only [Prod.mk.injEq, List.cons_append] at hue hve
        have heq := hue.2.trans hve.2.symm
        exact absurd (List.cons.inj heq).1 hne

end Conditional

end LinuxOddsAndEnds.Foundation
