import LinuxOddsAndEnds.Rpi3.GpioIrq
import Mathlib.Data.List.Forall2

/-!
# Fabricated events

When the capture queue is full `ess_do_work` takes nothing, and then tests a pointer and
builds a record from an event that nobody set. Runs that never get so far forward each
captured event at most once and in order; a single step that does spoils the trace.
-/

namespace LinuxOddsAndEnds.Rpi3

open Foundation

variable {n m : ℕ} {s : State n m} {tr : List Seen}

/-- The record is the one for this event. -/
structure BuiltFrom (e : CaptureEvent) (record : EventBulkData) : Prop where
  captureEvent : record.captureEvent = e
  bulkData : ∀ i, record.bulkData i = e.event + BitVec.ofNat 64 i

theorem builtFrom_bulkRecord (e : CaptureEvent) : BuiltFrom e (bulkRecord e) :=
  ⟨rfl, fun _ => rfl⟩

def captured (tr : List Seen) : List CaptureEvent :=
  tr.filterMap fun | .captured e => some e | _ => none

def popped (tr : List Seen) : List CaptureEvent :=
  tr.filterMap fun | .popped e => some e | _ => none

def pushed (tr : List Seen) : List EventBulkData :=
  tr.filterMap fun | .pushed record => some record | _ => none

@[simp] theorem captured_append (tr tr' : List Seen) :
    captured (tr ++ tr') = captured tr ++ captured tr' := List.filterMap_append

@[simp] theorem popped_append (tr tr' : List Seen) :
    popped (tr ++ tr') = popped tr ++ popped tr' := List.filterMap_append

@[simp] theorem pushed_append (tr tr' : List Seen) :
    pushed (tr ++ tr') = pushed tr ++ pushed tr' := List.filterMap_append

/-- The event that the run in progress popped and has not pushed. -/
def ownEvent : Option CaptureEvent → Seen → Option CaptureEvent
  | _, .started | _, .pushed _ => none
  | _, .popped e => some e
  | own, _ => own

/-- Each record pushed is built from the event that its own run popped, from `own` at the
start of the trace. -/
def OwnPops : Option CaptureEvent → List Seen → Prop
  | _, [] => True
  | own, o :: tr =>
    (∀ record, o = .pushed record → ∃ e, own = some e ∧ BuiltFrom e record) ∧
      OwnPops (ownEvent own o) tr

theorem ownPops_append {own : Option CaptureEvent} {tr tr' : List Seen} :
    OwnPops own (tr ++ tr') ↔ OwnPops own tr ∧ OwnPops (tr.foldl ownEvent own) tr' := by
  induction tr generalizing own with
  | nil => simp [OwnPops]
  | cons o tr ih => simp [OwnPops, ih, and_assoc]

/-- The records pushed are those of captured events, each forwarded by the run that popped
it, at most once and in order. -/
structure Genuine (tr : List Seen) : Prop where
  own : OwnPops none tr
  inOrder : ∃ events, events.Sublist (captured tr) ∧ List.Forall₂ BuiltFrom events (pushed tr)

/-- A set pointer that no branch assigned meets a full bulk queue. -/
def unsetIgnored : State n m → Action → Bool
  | s, .work _ _ =>
    match s.worker with
    | .forwardUnset true _ => s.eventBulkDataBuffer.space == 0
    | _ => true
  | _, _ => true

def Tracked (own : Option CaptureEvent) : WorkerPc → Prop
  | .take | .forwardUnset _ _ | .forward false _ => own = none
  | .forward true e => own = some e
  | .idle => True

theorem tracked_step {own : Option CaptureEvent} {a : Action} {s' : State n m} {seen : List Seen}
    (h : Tracked own s.worker) (step : Step s a s' seen) :
    Tracked (seen.foldl ownEvent own) s'.worker := by
  cases step with
  | startWork idle => exact rfl
  | takeOldest ref e x rest take room items => exact rfl
  | takeNone ref e take items =>
    rw [take] at h
    exact h
  | takeUnset ref e take full =>
    rw [take] at h
    exact h
  | push ref e x q forward room => exact trivial
  | skip ref nonNull e x forward reason => exact trivial
  | _ => exact h

theorem tracked_of_reaches (h : Reaches (driver n m) initial s tr) :
    Tracked (tr.foldl ownEvent none) s.worker := by
  refine Reaches.invariant (I := fun s tr => Tracked (tr.foldl ownEvent none) s.worker) ?_ ?_ h
  · exact trivial
  · intro s tr a s' seen hi hs
    rw [List.foldl_append]
    exact tracked_step hi (step_of_driver hs)

def WorkerPc.inHand : WorkerPc → List CaptureEvent
  | .forward true e => [e]
  | _ => []

/-- Captured events are popped in order, and those popped before the one in the worker's
hand are pushed in order or skipped. -/
structure Flow (s : State n m) (tr : List Seen) : Prop where
  captured : captured tr = popped tr ++ s.captureEventBuffer.items
  pushed : ∃ earlier events, popped tr = earlier ++ s.worker.inHand ∧ events.Sublist earlier ∧
    List.Forall₂ BuiltFrom events (pushed tr)
  own : OwnPops none tr

theorem Flow.quiet {s' : State n m} {seen : List Seen} (h : Flow s tr)
    (hc : Rpi3.captured seen = []) (ho : popped seen = []) (hp : Rpi3.pushed seen = [])
    (hown : OwnPops (tr.foldl ownEvent none) seen)
    (hitems : s'.captureEventBuffer.items = s.captureEventBuffer.items)
    (hhand : s'.worker.inHand = s.worker.inHand ∨ s'.worker.inHand = []) :
    Flow s' (tr ++ seen) where
  captured := by rw [captured_append, popped_append, hc, ho, hitems, List.append_nil,
    List.append_nil, h.captured]
  pushed := by
    obtain ⟨earlier, events, he, hsub, hbuilt⟩ := h.pushed
    rw [popped_append, pushed_append, ho, hp, List.append_nil, List.append_nil, he]
    rcases hhand with hhand | hhand <;> rw [hhand]
    · exact ⟨earlier, events, rfl, hsub, hbuilt⟩
    · exact ⟨_, events, (List.append_nil _).symm, hsub.trans (List.sublist_append_left _ _), hbuilt⟩
  own := ownPops_append.mpr ⟨h.own, hown⟩

theorem Flow.pop {s' : State n m} {x : CaptureEvent} (h : Flow s tr)
    (hw : s.worker.inHand = [])
    (hitems : s.captureEventBuffer.items = x :: s'.captureEventBuffer.items)
    (hhand : s'.worker.inHand = [x]) : Flow s' (tr ++ [Seen.popped x]) where
  captured := by
    rw [captured_append, popped_append, h.captured, hitems]
    simp [Rpi3.captured, popped]
  pushed := by
    obtain ⟨earlier, events, he, hsub, hbuilt⟩ := h.pushed
    refine ⟨earlier, events, ?_, hsub, ?_⟩
    · rw [popped_append, he, hw, hhand, List.append_nil]
      rfl
    · rw [pushed_append]
      simpa [Rpi3.pushed] using hbuilt
  own := ownPops_append.mpr ⟨h.own, by simp [OwnPops]⟩

theorem Flow.push {s' : State n m} {e : CaptureEvent} (h : Flow s tr)
    (hw : s.worker = .forward true e) (hown : Tracked (tr.foldl ownEvent none) s.worker)
    (hitems : s'.captureEventBuffer = s.captureEventBuffer) (hw' : s'.worker = .idle) :
    Flow s' (tr ++ [Seen.pushed (bulkRecord e), .woken]) where
  captured := by
    rw [captured_append, popped_append, h.captured, hitems]
    simp [Rpi3.captured, popped]
  pushed := by
    obtain ⟨earlier, events, he, hsub, hbuilt⟩ := h.pushed
    refine ⟨earlier ++ [e], events ++ [e], ?_, hsub.append (List.Sublist.refl _), ?_⟩
    · rw [popped_append, he, hw, hw']
      simp [popped, WorkerPc.inHand]
    · rw [pushed_append]
      exact List.rel_append hbuilt (.cons (builtFrom_bulkRecord e) .nil)
  own := by
    rw [hw] at hown
    refine ownPops_append.mpr ⟨h.own, ?_, by simp [OwnPops]⟩
    rintro record he
    obtain rfl := Seen.pushed.inj he
    exact ⟨e, hown, builtFrom_bulkRecord e⟩

theorem flow_step {a : Action} {s' : State n m} {seen : List Seen} (h : Flow s tr)
    (hown : Tracked (tr.foldl ownEvent none) s.worker) (hok : unsetIgnored s a = true)
    (step : Step s a s' seen) : Flow s' (tr ++ seen) := by
  cases step with
  | capture q items =>
    refine ⟨?_, ?_, ownPops_append.mpr ⟨h.own, by simp [OwnPops]⟩⟩
    · rw [captured_append, popped_append, h.captured, items]
      simp [captured, popped]
    · simpa [popped, pushed] using h.pushed
  | reject full => exact h.quiet rfl rfl rfl (by simp [OwnPops]) rfl (Or.inl rfl)
  | scheduleWork => exact h.quiet rfl rfl rfl trivial rfl (Or.inl rfl)
  | startWork idle => exact h.quiet rfl rfl rfl (by simp [OwnPops]) rfl (Or.inr rfl)
  | takeOldest ref e x rest take room items =>
    exact h.pop (by rw [take]; rfl) (by rw [BoundedFifo.items_pop, items]; rfl) rfl
  | takeNone ref e take items => exact h.quiet rfl rfl rfl trivial rfl (Or.inr rfl)
  | takeUnset ref e take full => exact h.quiet rfl rfl rfl trivial rfl (Or.inr rfl)
  | push ref e x q forward room =>
    rcases forward with forward | unset
    · exact h.push forward hown rfl rfl
    · simp only [unsetIgnored, unset, beq_iff_eq] at hok
      exact absurd hok room
  | skip ref nonNull e x forward reason => exact h.quiet rfl rfl rfl trivial rfl (Or.inr rfl)
  | read copyToUser count => exact h.quiet rfl rfl rfl (by simp [OwnPops]) rfl (Or.inl rfl)

theorem flow_of_reaches (h : Reaches ((driver n m).when unsetIgnored) initial s tr) :
    Flow s tr := by
  induction h with
  | start => exact ⟨rfl, ⟨[], [], rfl, .slnil, .nil⟩, trivial⟩
  | next hr hs ih =>
    obtain ⟨hok, hs⟩ := Machine.when_eq_some.mp hs
    exact flow_step ih (tracked_of_reaches hr.of_when) hok (step_of_driver hs)

theorem Flow.genuine (h : Flow s tr) : Genuine tr where
  own := h.own
  inOrder := by
    obtain ⟨earlier, events, he, hsub, hbuilt⟩ := h.pushed
    refine ⟨events, ?_, hbuilt⟩
    rw [h.captured, he, List.append_assoc]
    exact hsub.trans (List.sublist_append_left _ _)

/-- A step that believes an unset pointer pushes what its run never popped. -/
theorem fabricated_of_step {a : Action} {s' : State n m} {seen : List Seen}
    (h : Reaches (driver n m) initial s tr) (hok : unsetIgnored s a = false)
    (step : Step s a s' seen) : ¬Genuine (tr ++ seen) := by
  intro hg
  have hown := tracked_of_reaches h
  cases step with
  | push ref e x q forward room =>
    have unset : s.worker = .forwardUnset true x := by
      refine forward.resolve_left fun forward => ?_
      simp [unsetIgnored, forward] at hok
    rw [unset] at hown
    obtain ⟨e, hsome, -⟩ := (ownPops_append.mp hg.own).2.1 _ rfl
    rw [hown] at hsome
    simp at hsome
  | skip ref nonNull e x forward reason =>
    rcases forward with forward | unset
    · simp [unsetIgnored, forward] at hok
    · rcases reason with full | rfl
      · cases nonNull <;> simp [unsetIgnored, unset, full] at hok
      · simp [unsetIgnored, unset] at hok
  | takeOldest _ _ _ _ take | takeNone _ _ take | takeUnset _ _ take =>
    simp [unsetIgnored, take] at hok
  | _ => simp [unsetIgnored] at hok

/-- Runs in which no unset pointer is believed forward genuine events only, and every step
that believes one pushes a record that its run did not pop. -/
theorem genuine_iff_unset_ignored (n m : ℕ) :
    (∀ (s : State n m) (tr : List Seen), Reaches ((driver n m).when unsetIgnored) initial s tr →
      Genuine tr) ∧
    ∀ (s s' : State n m) (tr seen : List Seen) (a : Action), Reaches (driver n m) initial s tr →
      unsetIgnored s a = false → driver n m s a = some (s', seen) → ¬Genuine (tr ++ seen) :=
  ⟨fun _ _ h => (flow_of_reaches h).genuine, fun _ _ _ _ _ h hok hs =>
    fabricated_of_step h hok (step_of_driver hs)⟩

section Burst

/-- Interrupts, each of which schedules the work before the next one. -/
def burst (k : ℕ) : List Action :=
  (List.replicate k [Action.interrupt, Action.scheduleWork]).flatten

theorem exec_burst (k : ℕ) : ∀ {s : State n m}, s.unscheduled = 0 →
    s.captureEventBuffer.items.length + k ≤ n → ∃ s' tr,
      exec ((driver n m).when unsetIgnored) s (burst k) = some (s', tr) ∧
        s'.captureEventBuffer.items.length = s.captureEventBuffer.items.length + k ∧
        s'.worker = s.worker ∧ s'.eventBulkDataBuffer = s.eventBulkDataBuffer ∧
        (s'.pending = true ∨ k = 0) ∧ popped tr = [] ∧ pushed tr = [] := by
  induction k with
  | zero => exact fun {s} _ _ => ⟨s, [], rfl, rfl, rfl, rfl, Or.inr rfl, rfl, rfl⟩
  | succ k ih =>
    intro s hscheduled hroom
    obtain ⟨q, hpush⟩ : ∃ q, s.captureEventBuffer.push ⟨true, s.counter⟩ = some q := by
      refine Option.ne_none_iff_exists'.mp fun hnone => ?_
      have hfull := BoundedFifo.push_eq_none.mp hnone
      omega
    have hitems : q.items.length = s.captureEventBuffer.items.length + 1 := by
      rw [(BoundedFifo.push_eq_some.mp hpush).2, List.length_append, List.length_singleton]
    have hone : exec ((driver n m).when unsetIgnored) s [.interrupt, .scheduleWork] = some
        ({ s with captureEventBuffer := q, counter := s.counter + 1#64, pending := true },
          [.captured ⟨true, s.counter⟩]) := by
      simp [exec, Machine.when, unsetIgnored, driver, gpioIrqHandler, hpush, hscheduled]
    obtain ⟨s', tr, hrun, hlength, hworker, hbulk, hpending, hpopped, hpushed⟩ := ih
      (s := { s with captureEventBuffer := q, counter := s.counter + 1#64, pending := true })
      hscheduled (by dsimp only; omega)
    refine ⟨s', _, exec_append hone hrun, ?_, hworker, hbulk, Or.inl ?_, ?_, ?_⟩
    · dsimp only at hlength
      omega
    · rcases hpending with hpending | rfl
      · exact hpending
      · obtain ⟨rfl, -⟩ := Prod.mk.inj (Option.some.inj hrun)
        rfl
    · simpa [popped] using hpopped
    · simpa [pushed] using hpushed

theorem exists_unset (hn : 0 < n) (hscheduled : s.unscheduled = 0)
    (hidle : s.worker = .idle) (hitems : s.captureEventBuffer.items = []) (ref : Bool)
    (e : CaptureEvent) : ∃ s' tr, exec ((driver n m).when unsetIgnored) s
        (burst n ++ [Action.startWork, .work ref e]) = some (s', tr) ∧
      s'.worker = .forwardUnset ref e ∧ s'.captureEventBuffer.space = 0 ∧
      s'.eventBulkDataBuffer = s.eventBulkDataBuffer ∧ popped tr = [] ∧ pushed tr = [] := by
  obtain ⟨s', tr, hrun, hlength, hworker, hbulk, hpending, hpopped, hpushed⟩ :=
    exec_burst n hscheduled (by simp [hitems])
  have hfull : s'.captureEventBuffer.space = 0 := by
    rw [BoundedFifo.space_eq_zero, hlength, hitems, List.length_nil, Nat.zero_add]
  have hpending' : s'.pending = true := hpending.resolve_right (by omega)
  have hstart : exec ((driver n m).when unsetIgnored) s' [.startWork, .work ref e] = some
      ({ s' with pending := false, worker := .forwardUnset ref e }, [.started]) := by
    simp [exec, Machine.when, unsetIgnored, driver, hpending', hworker, hidle, essDoWork,
      takeEvent, hfull]
  refine ⟨_, _, exec_append hrun hstart, rfl, hfull, hbulk, ?_, ?_⟩
  · simpa [popped] using hpopped
  · simpa [pushed] using hpushed

end Burst

/-- One event gets through; then a burst fills the capture queue, and the unset pointer happens to
be `NULL`. -/
theorem genuine_after_burst : ∃ (s : State 255 41) (tr : List Seen),
    Reaches ((driver 255 41).when unsetIgnored) initial s tr ∧
      s.worker = .forwardUnset false default ∧ (pushed tr).length = 1 ∧ Genuine tr := by
  obtain ⟨s₁, tr₁, hfirst, hscheduled, hidle, hitems, hone⟩ : ∃ s₁ tr₁,
      exec ((driver 255 41).when unsetIgnored) initial
        [.interrupt, .scheduleWork, .startWork, .work false default, .work false default] =
          some (s₁, tr₁) ∧ s₁.unscheduled = 0 ∧ s₁.worker = .idle ∧
      s₁.captureEventBuffer.items = [] ∧ (pushed tr₁).length = 1 := ⟨_, _, rfl, rfl, rfl, rfl, rfl⟩
  obtain ⟨s, tr, hrun, hworker, -, -, -, hpushed⟩ :=
    exists_unset (by decide) hscheduled hidle hitems false default
  have h := Reaches.of_exec (exec_append hfirst hrun)
  refine ⟨s, _, h, hworker, ?_, (genuine_iff_unset_ignored 255 41).1 _ _ h⟩
  rw [pushed_append, hpushed, List.append_nil, hone]

/-- After a burst the worker builds a record from what it never took. -/
theorem event_fabricated : ∃ (s : State 255 41) (tr : List Seen),
    Reaches (driver 255 41) initial s tr ∧ popped tr = [] ∧ (pushed tr).length = 1 ∧
      ¬Genuine tr := by
  obtain ⟨s, tr, hrun, hworker, -, hbulk, hpopped, hpushed⟩ := exists_unset (n := 255) (m := 41)
    (s := initial) (by decide) rfl rfl rfl true default
  have h := (Reaches.of_exec hrun).of_when
  have hok : unsetIgnored s (.work true default) = false := by
    simp [unsetIgnored, hworker, hbulk, initial, BoundedFifo.space, BoundedFifo.empty]
  obtain ⟨s', hs⟩ : ∃ s', driver 255 41 s (.work true default) =
      some (s', [.pushed (bulkRecord default), .woken]) := by
    simp [driver, essDoWork, hworker, forwardEvent, hbulk, initial, BoundedFifo.space,
      BoundedFifo.push, BoundedFifo.empty]
  refine ⟨s', _, h.next hs, ?_, ?_, fabricated_of_step h hok (step_of_driver hs)⟩
  · rw [popped_append, hpopped]
    rfl
  · rw [pushed_append, hpushed]
    rfl

end LinuxOddsAndEnds.Rpi3
