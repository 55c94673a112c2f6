import Mathlib.Data.List.Induction
import Mathlib.Data.Set.Piecewise
import Mathlib.Tactic.Common

/-!
# The painter's model

A picture assigns a colour to each point, and a stroke recolours a set of points. After
any sequence of strokes a point shows the colour of the last stroke over it. A program
whose every step acts on its visible points as a stroke refines this model.
-/

namespace LinuxOddsAndEnds.Foundation

variable {P C σ α : Type*}

structure Stroke (P C : Type*) where
  shape : Set P
  color : C

open Classical in
/-- The picture with the points of the stroke recoloured. -/
noncomputable def Stroke.apply (s : Stroke P C) (picture : P → C) : P → C :=
  s.shape.piecewise (fun _ => s.color) picture

noncomputable def paint (picture : P → C) (strokes : List (Stroke P C)) : P → C :=
  strokes.foldl (fun picture s => s.apply picture) picture

open Classical in
noncomputable def lastOver (p : P) (strokes : List (Stroke P C)) : Option (Stroke P C) :=
  (strokes.filter fun s => p ∈ s.shape).getLast?

open Classical in
theorem Stroke.apply_of_mem {s : Stroke P C} {p : P} (h : p ∈ s.shape) (picture : P → C) :
    s.apply picture p = s.color := Set.piecewise_eq_of_mem _ _ _ h

open Classical in
theorem Stroke.apply_of_notMem {s : Stroke P C} {p : P} (h : p ∉ s.shape) (picture : P → C) :
    s.apply picture p = picture p := Set.piecewise_eq_of_notMem _ _ _ h

theorem lastOver_concat_of_mem {s : Stroke P C} {p : P} (h : p ∈ s.shape)
    (strokes : List (Stroke P C)) : lastOver p (strokes ++ [s]) = some s := by
  simp [lastOver, List.filter_append, h]

theorem lastOver_concat_of_notMem {s : Stroke P C} {p : P} (h : p ∉ s.shape)
    (strokes : List (Stroke P C)) : lastOver p (strokes ++ [s]) = lastOver p strokes := by
  simp [lastOver, List.filter_append, h]

theorem paint_eq_lastOver (picture : P → C) (strokes : List (Stroke P C)) (p : P) :
    paint picture strokes p = ((lastOver p strokes).map Stroke.color).getD (picture p) := by
  induction strokes using List.reverseRecOn with
  | nil => rfl
  | append_singleton strokes s ih =>
    have hpaint : paint picture (strokes ++ [s]) = s.apply (paint picture strokes) := by
      simp [paint]
    rw [hpaint]
    by_cases h : p ∈ s.shape
    · rw [Stroke.apply_of_mem h, lastOver_concat_of_mem h]
      rfl
    · rw [Stroke.apply_of_notMem h, lastOver_concat_of_notMem h, ih]

theorem paint_congr {picture picture' : P → C} {p : P} (h : picture p = picture' p)
    (strokes : List (Stroke P C)) : paint picture strokes p = paint picture' strokes p := by
  rw [paint_eq_lastOver, paint_eq_lastOver, h]

/-- The refinement rule: if each step keeps the invariant and changes what is visible as
its stroke does, or not at all, then a run shows what the strokes paint. -/
theorem view_foldl (view : σ → P → C) (step : σ → α → σ) (stroke : α → Option (Stroke P C))
    {visible : Set P} {I : σ → Prop} {ok : α → Prop}
    (keep : ∀ s a, I s → ok a → I (step s a))
    (hstep : ∀ s a p, I s → ok a → p ∈ visible →
      view (step s a) p = paint (view s) (stroke a).toList p) :
    ∀ (as : List α) (s : σ), I s → (∀ a ∈ as, ok a) → I (as.foldl step s) ∧
      ∀ p ∈ visible, view (as.foldl step s) p = paint (view s) (as.filterMap stroke) p := by
  intro as
  induction as with
  | nil => exact fun s hI _ => ⟨hI, fun _ _ => rfl⟩
  | cons a as ih =>
    intro s hI hok
    have ha := hok a List.mem_cons_self
    have hrest : ∀ b ∈ as, ok b := fun b hb => hok b (List.mem_cons_of_mem _ hb)
    obtain ⟨hI', hview⟩ := ih (step s a) (keep s a hI ha) hrest
    refine ⟨hI', fun p hp => ?_⟩
    have hpaint : paint (view s) ((a :: as).filterMap stroke) =
        paint (paint (view s) (stroke a).toList) (as.filterMap stroke) := by
      cases hs : stroke a <;> simp [hs, paint]
    rw [List.foldl_cons, hview p hp, hpaint]
    exact paint_congr (hstep s a p hI ha hp) _

end LinuxOddsAndEnds.Foundation
