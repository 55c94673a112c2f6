import Mathlib.Data.List.Basic
import Mathlib.Tactic.Common

/-!
# Judging a trace

A rule judges each observation by the observations made before it. A trace is
sound if its rule accepts every entry, so a safety property of histories becomes
an invariant: a step has to justify only what it shows itself.
-/

namespace LinuxOddsAndEnds.Foundation

variable {ω : Type*}

/-- Every entry of `rest` is accepted, after `pre` and the entries before it. -/
def JudgedFrom (ok : List ω → ω → Prop) : List ω → List ω → Prop
  | _, [] => True
  | pre, o :: rest => ok pre o ∧ JudgedFrom ok (pre ++ [o]) rest

def Judged (ok : List ω → ω → Prop) (tr : List ω) : Prop := JudgedFrom ok [] tr

instance decidableJudgedFrom (ok : List ω → ω → Prop) [∀ pre o, Decidable (ok pre o)] :
    ∀ pre tr, Decidable (JudgedFrom ok pre tr)
  | _, [] => isTrue trivial
  | pre, o :: rest =>
    have := decidableJudgedFrom ok (pre ++ [o]) rest
    inferInstanceAs (Decidable (ok pre o ∧ JudgedFrom ok (pre ++ [o]) rest))

instance (ok : List ω → ω → Prop) [∀ pre o, Decidable (ok pre o)] (tr : List ω) :
    Decidable (Judged ok tr) :=
  inferInstanceAs (Decidable (JudgedFrom ok [] tr))

@[simp] theorem judgedFrom_nil (ok : List ω → ω → Prop) (pre : List ω) : JudgedFrom ok pre [] :=
  trivial

@[simp] theorem judgedFrom_cons {ok : List ω → ω → Prop} {pre : List ω} {o : ω} {rest : List ω} :
    JudgedFrom ok pre (o :: rest) ↔ ok pre o ∧ JudgedFrom ok (pre ++ [o]) rest :=
  Iff.rfl

theorem judgedFrom_append {ok : List ω → ω → Prop} {pre tr tr' : List ω} :
    JudgedFrom ok pre (tr ++ tr') ↔ JudgedFrom ok pre tr ∧ JudgedFrom ok (pre ++ tr) tr' := by
  induction tr generalizing pre with
  | nil => simp
  | cons o tr ih => simp [ih, and_assoc]

theorem judged_append {ok : List ω → ω → Prop} {tr tr' : List ω} :
    Judged ok (tr ++ tr') ↔ Judged ok tr ∧ JudgedFrom ok tr tr' := by
  have h := @judgedFrom_append _ ok [] tr tr'
  simpa [Judged] using h

theorem Judged.append {ok : List ω → ω → Prop} {tr seen : List ω} (h : Judged ok tr)
    (hs : JudgedFrom ok tr seen) : Judged ok (tr ++ seen) :=
  judged_append.mpr ⟨h, hs⟩

theorem not_judged {ok : List ω → ω → Prop} {tr rest : List ω} {o : ω} (ho : ¬ok tr o) :
    ¬Judged ok (tr ++ o :: rest) := by
  intro h
  have hfrom := (judged_append.mp h).2
  rw [judgedFrom_cons] at hfrom
  exact ho hfrom.1

/-- An entry that its rule accepts only once is seen at most once. -/
theorem JudgedFrom.notMem {ok : List ω → ω → Prop} {o : ω} (ho : ∀ pre, ok pre o → o ∉ pre)
    {tr pre : List ω} (h : JudgedFrom ok pre tr) (hmem : o ∈ pre) : o ∉ tr := by
  induction tr generalizing pre with
  | nil => exact List.not_mem_nil
  | cons x tr ih =>
    rw [List.mem_cons, not_or]
    refine ⟨?_, ih h.2 (List.mem_append_left _ hmem)⟩
    rintro rfl
    exact ho pre h.1 hmem

theorem JudgedFrom.count_le_one [BEq ω] [LawfulBEq ω] {ok : List ω → ω → Prop} {o : ω}
    (ho : ∀ pre, ok pre o → o ∉ pre) {tr pre : List ω} (h : JudgedFrom ok pre tr) :
    tr.count o ≤ 1 := by
  induction tr generalizing pre with
  | nil => simp
  | cons x tr ih =>
    by_cases hx : x = o
    · subst hx
      have hrest := h.2.notMem ho (List.mem_append_right _ List.mem_cons_self)
      simp [List.count_eq_zero.mpr hrest]
    · rw [List.count_cons_of_ne hx]
      exact ih h.2

theorem JudgedFrom.congr {ok ok₁ ok₂ : List ω → ω → Prop}
    (hagree : ∀ pre o, ok pre o → (ok₁ pre o ↔ ok₂ pre o)) {tr pre : List ω}
    (h : JudgedFrom ok pre tr) : JudgedFrom ok₁ pre tr ↔ JudgedFrom ok₂ pre tr := by
  induction tr generalizing pre with
  | nil => exact Iff.rfl
  | cons o tr ih => exact and_congr (hagree pre o h.1) (ih h.2)

end LinuxOddsAndEnds.Foundation
