import LinuxOddsAndEnds.Foundation.History
import LinuxOddsAndEnds.Foundation.Machine

/-!
# What holds throughout a run

A property of states and traces holds throughout a schedule if it holds wherever the
machine stands on the way. When every action that meets a condition keeps an invariant
and every other action leads at once to a state without the property, the property holds
throughout exactly the schedules whose actions all meet the condition.
-/

namespace LinuxOddsAndEnds.Foundation

variable {σ α ω : Type*}

/-- `P` holds after every part of the schedule that the machine runs from `s`. The trace
counts from `pre` on. -/
def ThroughoutFrom (m : Machine σ α ω) (P : σ → List ω → Prop) (pre : List ω) (s : σ)
    (as : List α) : Prop :=
  ∀ part, part <+: as → ∀ s' tr, exec m s part = some (s', tr) → P s' (pre ++ tr)

/-- `P` holds wherever the machine stands on the way through the schedule. -/
def Throughout (m : Machine σ α ω) (P : σ → List ω → Prop) (s : σ) (as : List α) : Prop :=
  ThroughoutFrom m P [] s as

variable {m : Machine σ α ω} {P : σ → List ω → Prop} {pre seen : List ω} {s s' : σ} {a : α}
  {as : List α}

theorem exec_isSome_of_total (htotal : ∀ s a, (m s a).isSome) :
    ∀ (as : List α) (s : σ), (exec m s as).isSome := by
  intro as
  induction as with
  | nil => exact fun _ => rfl
  | cons a as ih =>
    intro s
    obtain ⟨⟨s', seen⟩, hs⟩ := Option.isSome_iff_exists.mp (htotal s a)
    rw [exec_cons hs, Option.isSome_map]
    exact ih s'

theorem exec_when_isSome_iff {ok : α → Bool} : ∀ (as : List α) (s : σ), (exec m s as).isSome →
    ((exec (m.when fun _ => ok) s as).isSome ↔ ∀ a ∈ as, ok a = true) := by
  intro as
  induction as with
  | nil => exact fun _ _ => iff_of_true rfl (by simp)
  | cons a as ih =>
    intro s hrun
    cases hs : m s a with
    | none => simp [exec, hs] at hrun
    | some r =>
      obtain ⟨s', seen⟩ := r
      have hrest : (exec m s' as).isSome := by simpa [exec_cons hs] using hrun
      rw [List.forall_mem_cons, ← ih s' hrest]
      cases hok : ok a with
      | true =>
        have hnext : m.when (fun _ => ok) s a = some (s', seen) :=
          Machine.when_eq_some.mpr ⟨hok, hs⟩
        simp [exec_cons hnext]
      | false => simp [exec, Machine.when, hok]

theorem throughoutFrom_nil : ThroughoutFrom m P pre s [] ↔ P s pre := by
  constructor
  · intro h
    simpa using h [] (List.prefix_refl []) s [] rfl
  · intro h part hpart s' tr hrun
    rw [List.prefix_nil.mp hpart] at hrun
    obtain ⟨rfl, rfl⟩ := Prod.mk.inj (Option.some.inj hrun)
    simpa using h

theorem throughoutFrom_cons (hs : m s a = some (s', seen)) :
    ThroughoutFrom m P pre s (a :: as) ↔ P s pre ∧ ThroughoutFrom m P (pre ++ seen) s' as := by
  constructor
  · intro h
    refine ⟨by simpa using h [] List.nil_prefix s [] rfl, ?_⟩
    intro part hpart t tr hrun
    rw [List.append_assoc]
    refine h (a :: part) (List.cons_prefix_cons.mpr ⟨rfl, hpart⟩) t (seen ++ tr) ?_
    rw [exec_cons hs, hrun]
    rfl
  · rintro ⟨hstart, hrest⟩ part hpart t tr hrun
    cases part with
    | nil =>
      obtain ⟨rfl, rfl⟩ := Prod.mk.inj (Option.some.inj hrun)
      simpa using hstart
    | cons b part =>
      obtain ⟨rfl, hpart'⟩ := List.cons_prefix_cons.mp hpart
      obtain ⟨s'', seen', rest, hs', hrun', rfl⟩ := exec_cons_eq_some hrun
      obtain ⟨rfl, rfl⟩ := Prod.mk.inj (Option.some.inj (hs.symm.trans hs'))
      rw [← List.append_assoc]
      exact hrest part hpart' t rest hrun'

theorem ThroughoutFrom.start (h : ThroughoutFrom m P pre s as) : P s pre := by
  simpa using h [] List.nil_prefix s [] rfl

theorem Throughout.last {tr : List ω} (h : Throughout m P s as)
    (hrun : exec m s as = some (s', tr)) : P s' tr := h as (List.prefix_refl as) s' tr hrun

theorem throughoutFrom_judged_iff {ok : List ω → ω → Prop} :
    ∀ (as : List α) (s : σ) (pre : List ω) {s' : σ} {tr : List ω}, exec m s as = some (s', tr) →
      (ThroughoutFrom m (fun _ tr => Judged ok tr) pre s as ↔ Judged ok (pre ++ tr)) := by
  intro as
  induction as with
  | nil =>
    intro s pre s' tr hrun
    obtain ⟨rfl, rfl⟩ := Prod.mk.inj (Option.some.inj hrun)
    rw [throughoutFrom_nil, List.append_nil]
  | cons a as ih =>
    intro s pre s' tr hrun
    obtain ⟨t, seen, rest, hs, hrest, rfl⟩ := exec_cons_eq_some hrun
    rw [throughoutFrom_cons hs, ih t (pre ++ seen) hrest, List.append_assoc, judged_append]
    exact and_iff_right_of_imp And.left

theorem throughout_judged_iff {ok : List ω → ω → Prop} {tr : List ω}
    (hrun : exec m s as = some (s', tr)) :
    Throughout m (fun _ tr => Judged ok tr) s as ↔ Judged ok tr := by
  rw [Throughout, throughoutFrom_judged_iff as s [] hrun, List.nil_append]

section Condition

variable {good : σ → α → Bool} {I : σ → List ω → Prop}

theorem throughoutFrom_iff (hP : ∀ s tr, I s tr → P s tr)
    (keep : ∀ s tr a s' seen, I s tr → good s a = true → m s a = some (s', seen) →
      I s' (tr ++ seen))
    (spoil : ∀ s tr a s' seen, I s tr → good s a = false → m s a = some (s', seen) →
      ¬P s' (tr ++ seen)) :
    ∀ (as : List α) (s : σ) (pre : List ω), I s pre → (exec m s as).isSome →
      (ThroughoutFrom m P pre s as ↔ (exec (m.when good) s as).isSome) := by
  intro as
  induction as with
  | nil =>
    intro s pre hI _
    rw [throughoutFrom_nil]
    exact iff_of_true (hP s pre hI) rfl
  | cons a as ih =>
    intro s pre hI hrun
    cases hs : m s a with
    | none => simp [exec, hs] at hrun
    | some r =>
      obtain ⟨s', seen⟩ := r
      have hrest : (exec m s' as).isSome := by simpa [exec_cons hs] using hrun
      rw [throughoutFrom_cons hs]
      cases hgood : good s a with
      | true =>
        have hnext : m.when good s a = some (s', seen) := Machine.when_eq_some.mpr ⟨hgood, hs⟩
        rw [exec_cons hnext, Option.isSome_map]
        rw [ih s' (pre ++ seen) (keep s pre a s' seen hI hgood hs) hrest]
        exact and_iff_right (hP s pre hI)
      | false =>
        have hrefused : (exec (m.when good) s (a :: as)).isSome = false := by
          simp [exec, Machine.when, hgood]
        rw [hrefused]
        refine iff_of_false ?_ Bool.false_ne_true
        exact fun h => spoil s pre a s' seen hI hgood hs h.2.start

/-- The property holds throughout a schedule if and only if all its actions meet the
condition. -/
theorem throughout_iff (hP : ∀ s tr, I s tr → P s tr)
    (keep : ∀ s tr a s' seen, I s tr → good s a = true → m s a = some (s', seen) →
      I s' (tr ++ seen))
    (spoil : ∀ s tr a s' seen, I s tr → good s a = false → m s a = some (s', seen) →
      ¬P s' (tr ++ seen))
    (hI : I s []) (hrun : (exec m s as).isSome) :
    Throughout m P s as ↔ (exec (m.when good) s as).isSome :=
  throughoutFrom_iff hP keep spoil as s [] hI hrun

/-- What a run has come to: all its actions met the condition and the invariant still holds, or
one of them did not and what it left behind holds ever since. -/
theorem exec_when_cases {J : σ → Prop} {K : σ → Prop}
    (keep : ∀ s a s' seen, K s → good s a = true → m s a = some (s', seen) → K s')
    (spoil : ∀ s a s' seen, K s → good s a = false → m s a = some (s', seen) → J s')
    (stay : ∀ s a s' seen, J s → m s a = some (s', seen) → J s') :
    ∀ (as : List α) (s : σ) {s' : σ} {tr : List ω}, exec m s as = some (s', tr) →
      (J s → J s') ∧ (K s → (exec (m.when good) s as).isSome = true ∧ K s' ∨
        (exec (m.when good) s as).isSome = false ∧ J s') := by
  intro as
  induction as with
  | nil =>
    intro s s' tr hrun
    obtain ⟨rfl, rfl⟩ := Prod.mk.inj (Option.some.inj hrun)
    exact ⟨id, fun hK => Or.inl ⟨rfl, hK⟩⟩
  | cons a as ih =>
    intro s s' tr hrun
    obtain ⟨t, seen, rest, hs, hrest, -⟩ := exec_cons_eq_some hrun
    obtain ⟨hJ, hK⟩ := ih t hrest
    refine ⟨fun h => hJ (stay s a t seen h hs), fun h => ?_⟩
    cases hgood : good s a with
    | true =>
      have hnext : m.when good s a = some (t, seen) := Machine.when_eq_some.mpr ⟨hgood, hs⟩
      rw [exec_cons hnext, Option.isSome_map]
      exact hK (keep s a t seen h hgood hs)
    | false =>
      have hrefused : (exec (m.when good) s (a :: as)).isSome = false := by
        simp [exec, Machine.when, hgood]
      exact Or.inr ⟨hrefused, hJ (spoil s a t seen h hgood hs)⟩

end Condition

end LinuxOddsAndEnds.Foundation
