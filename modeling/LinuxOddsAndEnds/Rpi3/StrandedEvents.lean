import LinuxOddsAndEnds.Rpi3.GpioIrq

/-!
# Stranded events

Scheduling coalesces, and a run of `ess_do_work` takes one event at most and none when
the capture queue is full, so events stay behind when several interrupts share a run.
Runs in which the worker keeps up strand nothing; where it does not, two steps of it
leave an event in a driver that has come to rest.
-/

namespace LinuxOddsAndEnds.Rpi3

open Foundation

variable {n m : ℕ} {s : State n m} {tr : List Seen}

/-- No handler is in progress and the work is neither pending nor running. -/
structure Quiescent (s : State n m) : Prop where
  handlers : s.unscheduled = 0
  pending : s.pending = false
  worker : s.worker = .idle

/-- The worker takes the only event, finds none, or will be started again. -/
def keepsUp : State n m → Action → Bool
  | s, .work _ _ =>
    match s.worker with
    | .take => s.captureEventBuffer.items.isEmpty ||
        (s.captureEventBuffer.items.length == 1 && s.captureEventBuffer.space != 0) ||
        s.pending || s.unscheduled != 0
    | _ => true
  | _, _ => true

/-- Waiting events will be looked at. -/
def Noticed (s : State n m) : Prop :=
  s.captureEventBuffer.items ≠ [] →
    s.unscheduled ≠ 0 ∨ s.pending = true ∨ s.worker = .take

theorem keepsUp_take {ref : Bool} {e : CaptureEvent} (hw : s.worker = .take) :
    keepsUp s (.work ref e) = true ↔
      s.captureEventBuffer.items = [] ∨
        (s.captureEventBuffer.items.length = 1 ∧ s.captureEventBuffer.space ≠ 0) ∨
          s.pending = true ∨ s.unscheduled ≠ 0 := by
  simp only [keepsUp, hw, Bool.or_eq_true, Bool.and_eq_true, List.isEmpty_iff, beq_iff_eq,
    bne_iff_ne, or_assoc]

theorem Noticed.resolve (h : Noticed s) (hne : s.captureEventBuffer.items ≠ [])
    (hw : s.worker ≠ .take) : s.unscheduled ≠ 0 ∨ s.pending = true := by
  rcases h hne with hhandlers | hpending | take
  · exact Or.inl hhandlers
  · exact Or.inr hpending
  · exact absurd take hw

theorem noticed_step {a : Action} {s' : State n m} {seen : List Seen} (h : Noticed s)
    (hok : keepsUp s a = true) (step : Step s a s' seen) : Noticed s' := by
  intro hne
  cases step with
  | capture q items => exact Or.inl (Nat.succ_ne_zero _)
  | reject full => exact Or.inl (Nat.succ_ne_zero _)
  | scheduleWork => exact Or.inr (Or.inl rfl)
  | startWork idle => exact Or.inr (Or.inr rfl)
  | takeOldest ref e x rest take room items =>
    rcases (keepsUp_take take).mp hok with hnil | ⟨hone, -⟩ | hpending | hhandlers
    · rw [hnil] at items
      simp at items
    · refine absurd (List.length_eq_zero_iff.mp ?_) hne
      rw [BoundedFifo.items_pop, List.length_tail, hone]
    · exact Or.inr (Or.inl hpending)
    · exact Or.inl hhandlers
  | takeNone ref e take items => exact absurd items hne
  | takeUnset ref e take full =>
    rcases (keepsUp_take take).mp hok with hnil | ⟨-, hspace⟩ | hpending | hhandlers
    · exact absurd hnil hne
    · exact absurd full hspace
    · exact Or.inr (Or.inl hpending)
    · exact Or.inl hhandlers
  | push ref e x q forward room =>
    exact (h.resolve hne (forward_ne_take forward)).imp_right Or.inl
  | skip ref nonNull e x forward reason =>
    exact (h.resolve hne (forward_ne_take forward)).imp_right Or.inl
  | read copyToUser count => exact h hne

theorem noticed_of_reaches (h : Reaches ((driver n m).when keepsUp) initial s tr) : Noticed s := by
  induction h with
  | start => exact fun hne => absurd rfl hne
  | next _ hs ih =>
    obtain ⟨hok, hs⟩ := Machine.when_eq_some.mp hs
    exact noticed_step ih hok (step_of_driver hs)

section Behind

variable {s' : State n m} {seen : List Seen} {ref : Bool} {e : CaptureEvent}

theorem behind_take (hok : keepsUp s (.work ref e) = false) (take : s.worker = .take)
    (step : Step s (.work ref e) s' seen) :
    s'.captureEventBuffer.items ≠ [] ∧ s'.unscheduled = 0 ∧ s'.pending = false ∧
      ∃ nonNull x, s'.worker = .forward nonNull x ∨ s'.worker = .forwardUnset nonNull x := by
  have hbehind := mt (keepsUp_take take).mpr (by rw [hok]; exact Bool.false_ne_true)
  simp only [not_or, not_and, not_not, Bool.not_eq_true] at hbehind
  obtain ⟨hne, hmany, hpending, hhandlers⟩ := hbehind
  cases step with
  | takeOldest _ _ x rest _ room items =>
    refine ⟨?_, hhandlers, hpending, true, x, Or.inl rfl⟩
    rw [BoundedFifo.items_pop, items]
    rintro rfl
    exact room (hmany (by rw [items]; rfl))
  | takeNone _ _ _ items => exact absurd items hne
  | takeUnset _ _ _ full => exact ⟨hne, hhandlers, hpending, ref, e, Or.inr rfl⟩
  | push _ _ x q forward room =>
    exact absurd take (forward_ne_take forward)
  | skip _ nonNull _ x forward reason =>
    exact absurd take (forward_ne_take forward)

theorem forward_frame {nonNull : Bool} {x : CaptureEvent}
    (hw : s.worker = .forward nonNull x ∨ s.worker = .forwardUnset nonNull x)
    (step : Step s (.work ref e) s' seen) :
    s'.captureEventBuffer = s.captureEventBuffer ∧ s'.unscheduled = s.unscheduled ∧
      s'.pending = s.pending ∧ s'.worker = .idle := by
  cases step with
  | push _ _ x q forward room => exact ⟨rfl, rfl, rfl, rfl⟩
  | skip _ nonNull _ x forward reason => exact ⟨rfl, rfl, rfl, rfl⟩
  | takeOldest _ _ _ _ take | takeNone _ _ take | takeUnset _ _ take =>
    exact absurd take (forward_ne_take hw)

/-- Where the worker does not keep up, two steps of it reach a quiescent state with an
event left. -/
theorem stranded_of_take (hok : keepsUp s (.work ref e) = false) :
    ∃ s' seen, Reaches (driver n m) s s' seen ∧ Quiescent s' ∧
      s'.captureEventBuffer.items ≠ [] := by
  have take : s.worker = .take := by
    cases hw : s.worker <;> simp [keepsUp, hw] at hok ⊢
  obtain ⟨⟨s₁, seen₁⟩, h₁⟩ : ∃ r, driver n m s (.work ref e) = some r :=
    ⟨takeEvent ref e s, by simp only [driver, essDoWork, take]⟩
  obtain ⟨hne, hhandlers, hpending, nonNull, x, hw⟩ := behind_take hok take (step_of_driver h₁)
  obtain ⟨⟨s₂, seen₂⟩, h₂⟩ : ∃ r, driver n m s₁ (.work ref e) = some r := by
    refine ⟨forwardEvent nonNull x s₁, ?_⟩
    rcases hw with hw | hw <;> simp only [driver, essDoWork, hw]
  obtain ⟨hq, hu, hp, hidle⟩ := forward_frame hw (step_of_driver h₂)
  refine ⟨s₂, _, (Reaches.single h₁).trans (Reaches.single h₂), ?_, by rwa [hq]⟩
  exact ⟨hu.trans hhandlers, hp.trans hpending, hidle⟩

end Behind

/-- Runs in which the worker keeps up strand nothing, and in every other run an event can
stay behind at once. -/
theorem stranded_iff_worker_behind (n m : ℕ) :
    (∀ (s : State n m) (tr : List Seen), Reaches ((driver n m).when keepsUp) initial s tr →
      Quiescent s → s.captureEventBuffer.items = []) ∧
    ∀ (s : State n m) (tr : List Seen) (ref : Bool) (e : CaptureEvent),
      Reaches (driver n m) initial s tr → keepsUp s (.work ref e) = false →
      ∃ s' seen, Reaches (driver n m) initial s' (tr ++ seen) ∧ Quiescent s' ∧
        s'.captureEventBuffer.items ≠ [] := by
  constructor
  · intro s tr h hquiet
    by_contra hne
    have hw : s.worker ≠ .take := by
      rw [hquiet.worker]
      exact WorkerPc.noConfusion
    rcases (noticed_of_reaches h).resolve hne hw with hu | hp
    · exact hu hquiet.handlers
    · rw [hquiet.pending] at hp
      exact Bool.false_ne_true hp
  · intro s tr ref e h hok
    obtain ⟨s', seen, hr, hquiet, hne⟩ := stranded_of_take hok
    exact ⟨s', seen, h.trans hr, hquiet, hne⟩

/-- The second interrupt comes while the worker runs for the first one, and the work is pending
again. -/
def rescheduled : List Action :=
  [.interrupt, .scheduleWork, .startWork, .interrupt, .scheduleWork, .work false default,
    .work false default, .startWork, .work false default, .work false default]

theorem nothing_stranded_after_two : ∃ (s : State 255 41) (tr : List Seen),
    Reaches ((driver 255 41).when keepsUp) initial s tr ∧ Quiescent s ∧
      (tr.filter fun o => o matches .captured _).length = 2 ∧ s.captureEventBuffer.items = [] := by
  have hrun : exec ((driver 255 41).when keepsUp) initial rescheduled = some (_, _) := rfl
  have h := Reaches.of_exec hrun
  exact ⟨_, _, h, ⟨rfl, rfl, rfl⟩, rfl, (stranded_iff_worker_behind 255 41).1 _ _ h ⟨rfl, rfl, rfl⟩⟩

/-- Two interrupts share one run of the worker. -/
def coalesced : List Action :=
  [.interrupt, .scheduleWork, .interrupt, .scheduleWork, .startWork, .work false default,
    .work false default]

theorem event_stranded : ∃ (s : State 255 41) (tr : List Seen),
    Reaches (driver 255 41) initial s tr ∧ Quiescent s ∧ s.captureEventBuffer.items ≠ [] := by
  obtain ⟨s, tr, hrun, hu, hp, hw, hitems⟩ : ∃ s tr,
      exec (driver 255 41) initial coalesced = some (s, tr) ∧ s.unscheduled = 0 ∧
      s.pending = false ∧ s.worker = .idle ∧ s.captureEventBuffer.items ≠ [] := by decide +kernel
  exact ⟨s, tr, Reaches.of_exec hrun, ⟨hu, hp, hw⟩, hitems⟩

end LinuxOddsAndEnds.Rpi3
