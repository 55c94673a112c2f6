import LinuxOddsAndEnds.Foundation.BoundedFifo
import LinuxOddsAndEnds.Foundation.Machine
import Mathlib.Data.Int.Notation

/-!
# The event pipeline of the GPIO module

`gpio_irq.c` of the older board, over ideal bounded queues in place of its rings. The
handler pushes under the spinlock and then schedules the work; `ess_do_work` takes at
most one event under the spinlock and forwards it under the mutex. Its locals start
with whatever the stack holds: one branch leaves both of them unset, and the test of
the pointer does not know.
-/

namespace LinuxOddsAndEnds.Rpi3

open Foundation

structure CaptureEvent where
  rising : Bool
  event : BitVec 64
  deriving DecidableEq, Inhabited

structure EventBulkData where
  captureEvent : CaptureEvent
  bulkData : Fin 10 → BitVec 64

def sizeofEventBulkData : ℕ := 96

/-- The record that `ess_do_work` fills on its stack. -/
def bulkRecord (e : CaptureEvent) : EventBulkData where
  captureEvent := e
  bulkData idx := e.event + BitVec.ofNat 64 idx

/-- Where `ess_do_work` is. The flag tells whether `capture_event_ref` differs from
`NULL`; at `forwardUnset` neither local was assigned. -/
inductive WorkerPc where
  | idle
  | take
  | forward (captureEventRef : Bool) (captureEvent : CaptureEvent)
  | forwardUnset (captureEventRef : Bool) (captureEvent : CaptureEvent)
  deriving DecidableEq

/-- `n` and `m` are the capacities of the queues, `unscheduled` counts the handlers between
their push and `schedule_work`, and `counter` is the static local of the handler. -/
structure State (n m : ℕ) where
  captureEventBuffer : BoundedFifo CaptureEvent n
  eventBulkDataBuffer : BoundedFifo EventBulkData m
  counter : BitVec 64
  unscheduled : ℕ
  pending : Bool
  worker : WorkerPc

inductive Seen where
  | captured (e : CaptureEvent)
  | rejected (e : CaptureEvent)
  | started
  | popped (e : CaptureEvent)
  | pushed (record : EventBulkData)
  | woken
  | read (count : ℕ) (bytesRead : ℤ) (records : List EventBulkData)

inductive Action where
  | interrupt
  | scheduleWork
  | startWork
  | work (stackRef : Bool) (stackEvent : CaptureEvent)
  | read (copyToUser : ℕ → Bool) (count : ℕ)

variable {n m : ℕ}

def initial : State n m := ⟨.empty, .empty, 0, 0, false, .idle⟩

/-- The handler up to `spin_unlock`; it ignores the result of `push`. -/
def gpioIrqHandler (s : State n m) : State n m × List Seen :=
  match s.captureEventBuffer.push ⟨true, s.counter⟩ with
  | some q =>
    ({ s with
        captureEventBuffer := q, counter := s.counter + 1#64, unscheduled := s.unscheduled + 1 },
      [.captured ⟨true, s.counter⟩])
  | none =>
    ({ s with counter := s.counter + 1#64, unscheduled := s.unscheduled + 1 },
      [.rejected ⟨true, s.counter⟩])

/-- `ess_do_work` under the spinlock. -/
def takeEvent (stackRef : Bool) (stackEvent : CaptureEvent) (s : State n m) :
    State n m × List Seen :=
  if s.captureEventBuffer.space ≠ 0 then
    match s.captureEventBuffer.front with
    | some e =>
      ({ s with captureEventBuffer := s.captureEventBuffer.pop, worker := .forward true e },
        [.popped e])
    | none => ({ s with worker := .forward false stackEvent }, [])
  else ({ s with worker := .forwardUnset stackRef stackEvent }, [])

/-- `ess_do_work` under the mutex, to its end. -/
def forwardEvent (captureEventRef : Bool) (captureEvent : CaptureEvent) (s : State n m) :
    State n m × List Seen :=
  if s.eventBulkDataBuffer.space ≠ 0 ∧ captureEventRef = true then
    match s.eventBulkDataBuffer.push (bulkRecord captureEvent) with
    | some q =>
      ({ s with eventBulkDataBuffer := q, worker := .idle },
        [.pushed (bulkRecord captureEvent), .woken])
    | none => ({ s with worker := .idle }, [])
  else ({ s with worker := .idle }, [])

def essDoWork (stackRef : Bool) (stackEvent : CaptureEvent) (s : State n m) :
    Option (State n m × List Seen) :=
  match s.worker with
  | .idle => none
  | .take => some (takeEvent stackRef stackEvent s)
  | .forward ref e | .forwardUnset ref e => some (forwardEvent ref e s)

/-- The loop of `gpio_irq_demo_read`: what is left of `count` and what was read, in records. -/
def readLoop (copyToUser : ℕ → Bool) :
    ℕ → ℕ → BoundedFifo EventBulkData m → ℤ × List EventBulkData × BoundedFifo EventBulkData m
  | 0, done, q => (sizeofEventBulkData * done, [], q)
  | left + 1, done, q =>
    if q.space ≠ 0 then
      match q.front with
      | some record =>
        if copyToUser done then
          let out := readLoop copyToUser left (done + 1) q.pop
          (out.1, record :: out.2.1, out.2.2)
        else (-1, [], q)
      | none => (-1, [], q)
    else (sizeofEventBulkData * done, [], q)

/-- A read of one byte answers the level of the output pin. -/
def gpioIrqDemoRead (copyToUser : ℕ → Bool) (count : ℕ) (q : BoundedFifo EventBulkData m) :
    ℤ × List EventBulkData × BoundedFifo EventBulkData m :=
  if count = 1 then (1, [], q)
  else if count % sizeofEventBulkData = 0 then
    readLoop copyToUser (count / sizeofEventBulkData) 0 q
  else (-1, [], q)

def driver (n m : ℕ) : Machine (State n m) Action Seen
  | s, .interrupt => some (gpioIrqHandler s)
  | s, .scheduleWork =>
    if s.unscheduled = 0 then none
    else some ({ s with unscheduled := s.unscheduled - 1, pending := true }, [])
  | s, .startWork =>
    if s.pending ∧ s.worker = .idle then
      some ({ s with pending := false, worker := .take }, [.started])
    else none
  | s, .work stackRef stackEvent => essDoWork stackRef stackEvent s
  | s, .read copyToUser count =>
    let out := gpioIrqDemoRead copyToUser count s.eventBulkDataBuffer
    some ({ s with eventBulkDataBuffer := out.2.2 }, [.read count out.1 out.2.1])

/-- The branches of one step: what each of them requires, changes and shows. -/
inductive Step (s : State n m) : Action → State n m → List Seen → Prop
  | capture (q : BoundedFifo CaptureEvent n)
      (items : q.items = s.captureEventBuffer.items ++ [⟨true, s.counter⟩]) :
      Step s .interrupt
        { s with
          captureEventBuffer := q, counter := s.counter + 1#64, unscheduled := s.unscheduled + 1 }
        [.captured ⟨true, s.counter⟩]
  | reject (full : s.captureEventBuffer.space = 0) :
      Step s .interrupt { s with counter := s.counter + 1#64, unscheduled := s.unscheduled + 1 }
        [.rejected ⟨true, s.counter⟩]
  | scheduleWork :
      Step s .scheduleWork { s with unscheduled := s.unscheduled - 1, pending := true } []
  | startWork (idle : s.worker = .idle) :
      Step s .startWork { s with pending := false, worker := .take } [.started]
  | takeOldest (ref : Bool) (e x : CaptureEvent) (rest : List CaptureEvent)
      (take : s.worker = .take) (room : s.captureEventBuffer.space ≠ 0)
      (items : s.captureEventBuffer.items = x :: rest) :
      Step s (.work ref e)
        { s with captureEventBuffer := s.captureEventBuffer.pop, worker := .forward true x }
        [.popped x]
  | takeNone (ref : Bool) (e : CaptureEvent) (take : s.worker = .take)
      (items : s.captureEventBuffer.items = []) :
      Step s (.work ref e) { s with worker := .forward false e } []
  | takeUnset (ref : Bool) (e : CaptureEvent) (take : s.worker = .take)
      (full : s.captureEventBuffer.space = 0) :
      Step s (.work ref e) { s with worker := .forwardUnset ref e } []
  | push (ref : Bool) (e x : CaptureEvent) (q : BoundedFifo EventBulkData m)
      (forward : s.worker = .forward true x ∨ s.worker = .forwardUnset true x)
      (room : s.eventBulkDataBuffer.space ≠ 0) :
      Step s (.work ref e) { s with eventBulkDataBuffer := q, worker := .idle }
        [.pushed (bulkRecord x), .woken]
  | skip (ref nonNull : Bool) (e x : CaptureEvent)
      (forward : s.worker = .forward nonNull x ∨ s.worker = .forwardUnset nonNull x)
      (reason : s.eventBulkDataBuffer.space = 0 ∨ nonNull = false) :
      Step s (.work ref e) { s with worker := .idle } []
  | read (copyToUser : ℕ → Bool) (count : ℕ) :
      Step s (.read copyToUser count)
        { s with
          eventBulkDataBuffer := (gpioIrqDemoRead copyToUser count s.eventBulkDataBuffer).2.2 }
        [.read count (gpioIrqDemoRead copyToUser count s.eventBulkDataBuffer).1
          (gpioIrqDemoRead copyToUser count s.eventBulkDataBuffer).2.1]

section Branches

variable {s : State n m} {ref : Bool} {e : CaptureEvent}

theorem step_gpioIrqHandler : Step s .interrupt (gpioIrqHandler s).1 (gpioIrqHandler s).2 := by
  unfold gpioIrqHandler
  split
  · next q hq => exact .capture q (BoundedFifo.push_eq_some.mp hq).2
  · next hnone => exact .reject (BoundedFifo.space_eq_zero.mpr (BoundedFifo.push_eq_none.mp hnone))

theorem step_takeEvent (hw : s.worker = .take) :
    Step s (.work ref e) (takeEvent ref e s).1 (takeEvent ref e s).2 := by
  unfold takeEvent
  split_ifs with hspace
  · cases hf : s.captureEventBuffer.front with
    | some x =>
      obtain ⟨rest, hitems⟩ := List.head?_eq_some_iff.mp hf
      exact .takeOldest ref e x rest hw hspace hitems
    | none => exact .takeNone ref e hw (List.head?_eq_none_iff.mp hf)
  · exact .takeUnset ref e hw (not_not.mp hspace)

theorem step_forwardEvent {nonNull : Bool} {x : CaptureEvent}
    (hw : s.worker = .forward nonNull x ∨ s.worker = .forwardUnset nonNull x) :
    Step s (.work ref e) (forwardEvent nonNull x s).1 (forwardEvent nonNull x s).2 := by
  unfold forwardEvent
  split_ifs with hpush
  · obtain ⟨hspace, rfl⟩ := hpush
    split
    · next q hq => exact .push ref e x q hw hspace
    · next hnone =>
      have hfull := BoundedFifo.push_eq_none.mp hnone
      exact absurd (BoundedFifo.space_eq_zero.mpr hfull) hspace
  · refine .skip ref nonNull e x hw ?_
    rcases Decidable.not_and_iff_not_or_not.mp hpush with h | h
    · exact Or.inl (not_not.mp h)
    · exact Or.inr (Bool.eq_false_iff.mpr h)

theorem forward_ne_take {nonNull : Bool} {x : CaptureEvent}
    (hw : s.worker = .forward nonNull x ∨ s.worker = .forwardUnset nonNull x) :
    s.worker ≠ .take := by
  rcases hw with hw | hw <;> rw [hw] <;> exact WorkerPc.noConfusion

theorem step_of_driver {a : Action} {s' : State n m} {seen : List Seen}
    (h : driver n m s a = some (s', seen)) : Step s a s' seen := by
  cases a with
  | interrupt =>
    obtain ⟨rfl, rfl⟩ := Prod.mk.inj (Option.some.inj h)
    exact step_gpioIrqHandler
  | scheduleWork =>
    simp only [driver] at h
    split_ifs at h
    obtain ⟨rfl, rfl⟩ := Prod.mk.inj (Option.some.inj h)
    exact .scheduleWork
  | startWork =>
    simp only [driver] at h
    split_ifs at h with hstart
    obtain ⟨rfl, rfl⟩ := Prod.mk.inj (Option.some.inj h)
    exact .startWork hstart.2
  | work ref e =>
    simp only [driver] at h
    cases hw : s.worker with
    | idle => simp [essDoWork, hw] at h
    | take =>
      simp only [essDoWork, hw] at h
      obtain ⟨rfl, rfl⟩ := Prod.mk.inj (Option.some.inj h)
      exact step_takeEvent hw
    | forward nonNull x =>
      simp only [essDoWork, hw] at h
      obtain ⟨rfl, rfl⟩ := Prod.mk.inj (Option.some.inj h)
      exact step_forwardEvent (Or.inl hw)
    | forwardUnset nonNull x =>
      simp only [essDoWork, hw] at h
      obtain ⟨rfl, rfl⟩ := Prod.mk.inj (Option.some.inj h)
      exact step_forwardEvent (Or.inr hw)
  | read copyToUser count =>
    obtain ⟨rfl, rfl⟩ := Prod.mk.inj (Option.some.inj h)
    exact .read copyToUser count

end Branches

end LinuxOddsAndEnds.Rpi3
