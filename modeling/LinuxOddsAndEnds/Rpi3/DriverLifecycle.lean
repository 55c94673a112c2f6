import LinuxOddsAndEnds.Foundation.CalmRuns

/-!
# Loading and unloading the GPIO driver

`gpio_irq_demo_init` and `gpio_irq_exit` step by step, with `gpio_irq_handler` and
`ess_do_work` running beside them. The interrupt is requested before anything that the
handler uses is set up. Exit frees the interrupt but never waits for the work, so the
rings, and then the memory of the module, can be released under work that has not run to
its end.
-/

namespace LinuxOddsAndEnds.Rpi3.Lifecycle

open Foundation

/-- What `gpio_irq_demo_init` sets up in `ess_work_struct_wrapper_`. -/
inductive Resource where
  | captureEventBuffer
  | captureEventSpinlock
  | captureEventWaitqueue
  | eventWorkStruct
  | eventBulkDataBuffer
  | eventBulkDataMtx
  deriving DecidableEq

inductive Answer where
  | success
  | failure

/-- How far init came. A failure gives back GPIO lines at most, and the module stays
loaded, whatever init returns. -/
inductive Left where
  | nothing
  | captureRing
  | wrapper
  | timer

/-- The next call of `gpio_irq_demo_init` or `gpio_irq_exit`, and then the objects in the
static `ess_work_struct_wrapper_` that go when the kernel frees the memory of the module. -/
inductive ModulePc where
  | gpioRequestInput
  | gpioDirectionInput
  | requestIrq
  | initCaptureEventBuffer
  | initEventBulkDataBuffer
  | initWaitqueueHead
  | initWork
  | spinLockInit
  | mutexInit
  | gpioRequestOutput
  | gpioDirectionOutput
  | hrtimerInit
  | freeIrq (left : Left)
  | hrtimerCancel (left : Left)
  | releaseCaptureEventBuffer
  | releaseEventBulkDataBuffer
  | freeEventBulkDataMtx
  | freeCaptureEventSpinlock
  | freeCaptureEventWaitqueue
  | freeEventWorkStruct
  | unloaded

/-- At `requestIrq` stand `gpio_to_irq` and `request_irq`. The module code comes to no
further call where it would follow the null pointer of a timer that was not allocated. The
memory of the module goes at once; the mutex comes first, which `ess_do_work` gives back last. -/
def moduleCode : ModulePc → Answer → Option (ModulePc × ModuleOp Unit Resource)
  | .gpioRequestInput, .success => some (.gpioDirectionInput, .nothing)
  | .gpioRequestInput, .failure => some (.freeIrq .nothing, .nothing)
  | .gpioDirectionInput, .success => some (.requestIrq, .nothing)
  | .gpioDirectionInput, .failure => some (.freeIrq .nothing, .nothing)
  | .requestIrq, .success => some (.initCaptureEventBuffer, .requestIrq ())
  | .requestIrq, .failure => some (.freeIrq .nothing, .nothing)
  | .initCaptureEventBuffer, .success =>
    some (.initEventBulkDataBuffer, .acquire .captureEventBuffer)
  | .initCaptureEventBuffer, .failure => some (.freeIrq .nothing, .nothing)
  | .initEventBulkDataBuffer, .success =>
    some (.initWaitqueueHead, .acquire .eventBulkDataBuffer)
  | .initEventBulkDataBuffer, .failure => some (.freeIrq .captureRing, .nothing)
  | .initWaitqueueHead, .success => some (.initWork, .acquire .captureEventWaitqueue)
  | .initWork, .success => some (.spinLockInit, .acquire .eventWorkStruct)
  | .spinLockInit, .success => some (.mutexInit, .acquire .captureEventSpinlock)
  | .mutexInit, .success => some (.gpioRequestOutput, .acquire .eventBulkDataMtx)
  | .gpioRequestOutput, .success => some (.gpioDirectionOutput, .nothing)
  | .gpioRequestOutput, .failure => some (.freeIrq .wrapper, .nothing)
  | .gpioDirectionOutput, .success => some (.hrtimerInit, .nothing)
  | .gpioDirectionOutput, .failure => some (.freeIrq .wrapper, .nothing)
  | .hrtimerInit, .success => some (.freeIrq .timer, .nothing)
  | .freeIrq left, .success => some (.hrtimerCancel left, .freeIrq ())
  | .hrtimerCancel .timer, .success => some (.releaseCaptureEventBuffer, .nothing)
  | .releaseCaptureEventBuffer, .success =>
    some (.releaseEventBulkDataBuffer, .release .captureEventBuffer)
  | .releaseEventBulkDataBuffer, .success =>
    some (.freeEventBulkDataMtx, .release .eventBulkDataBuffer)
  | .freeEventBulkDataMtx, .success =>
    some (.freeCaptureEventSpinlock, .release .eventBulkDataMtx)
  | .freeCaptureEventSpinlock, .success =>
    some (.freeCaptureEventWaitqueue, .release .captureEventSpinlock)
  | .freeCaptureEventWaitqueue, .success =>
    some (.freeEventWorkStruct, .release .captureEventWaitqueue)
  | .freeEventWorkStruct, .success => some (.unloaded, .release .eventWorkStruct)
  | _, _ => none

inductive WorkPc where
  | spinLock
  | spaceCapture
  | front
  | copy
  | pop
  | spinUnlock
  | mutexLock
  | spaceBulk
  | push
  | wakeUp
  | mutexUnlock

def workUses : WorkPc → Resource
  | .spinLock | .spinUnlock => .captureEventSpinlock
  | .spaceCapture | .front | .copy | .pop => .captureEventBuffer
  | .mutexLock | .mutexUnlock => .eventBulkDataMtx
  | .spaceBulk | .push => .eventBulkDataBuffer
  | .wakeUp => .captureEventWaitqueue

/-- The answers are those of `space`, `front` and `push`; at `spaceBulk` the test of
`capture_event_ref` is part of it. -/
def workNext : WorkPc → Bool → Option WorkPc
  | .spinLock, _ => some .spaceCapture
  | .spaceCapture, true => some .front
  | .spaceCapture, false => some .spinUnlock
  | .front, true => some .copy
  | .front, false => some .spinUnlock
  | .copy, _ => some .pop
  | .pop, _ => some .spinUnlock
  | .spinUnlock, _ => some .mutexLock
  | .mutexLock, _ => some .spaceBulk
  | .spaceBulk, true => some .push
  | .spaceBulk, false => some .mutexUnlock
  | .push, true => some .wakeUp
  | .push, false => some .mutexUnlock
  | .wakeUp, _ => some .mutexUnlock
  | .mutexUnlock, _ => none

/-- The handler takes the spinlock, pushes, gives the spinlock back and schedules the
work; it never returns early. That a lock keeps others waiting is left out: it only
rules out runs. -/
def driver : Driver ModulePc Answer Unit Resource WorkPc where
  module := moduleCode
  handlerUses := [.captureEventSpinlock, .captureEventBuffer, .captureEventSpinlock]
  workItem := .eventWorkStruct
  workEntry := .spinLock
  workUses := workUses
  workNext := workNext

def Left.upList : Left → List Resource
  | .nothing => []
  | .captureRing => [.captureEventBuffer]
  | .wrapper | .timer =>
    [.captureEventBuffer, .eventBulkDataBuffer, .captureEventWaitqueue, .eventWorkStruct,
      .captureEventSpinlock, .eventBulkDataMtx]

def Left.ready : Left → Bool
  | .nothing | .captureRing => false
  | .wrapper | .timer => true

/-- What has been set up and not released when the module code is about to make the call. -/
def upList : ModulePc → List Resource
  | .gpioRequestInput | .gpioDirectionInput | .requestIrq | .initCaptureEventBuffer => []
  | .initEventBulkDataBuffer => [.captureEventBuffer]
  | .initWaitqueueHead => [.captureEventBuffer, .eventBulkDataBuffer]
  | .initWork => [.captureEventBuffer, .eventBulkDataBuffer, .captureEventWaitqueue]
  | .spinLockInit =>
    [.captureEventBuffer, .eventBulkDataBuffer, .captureEventWaitqueue, .eventWorkStruct]
  | .mutexInit =>
    [.captureEventBuffer, .eventBulkDataBuffer, .captureEventWaitqueue, .eventWorkStruct,
      .captureEventSpinlock]
  | .gpioRequestOutput | .gpioDirectionOutput | .hrtimerInit | .releaseCaptureEventBuffer =>
    Left.timer.upList
  | .freeIrq left | .hrtimerCancel left => left.upList
  | .releaseEventBulkDataBuffer =>
    [.eventBulkDataBuffer, .captureEventWaitqueue, .eventWorkStruct, .captureEventSpinlock,
      .eventBulkDataMtx]
  | .freeEventBulkDataMtx =>
    [.captureEventWaitqueue, .eventWorkStruct, .captureEventSpinlock, .eventBulkDataMtx]
  | .freeCaptureEventSpinlock =>
    [.captureEventWaitqueue, .eventWorkStruct, .captureEventSpinlock]
  | .freeCaptureEventWaitqueue => [.captureEventWaitqueue, .eventWorkStruct]
  | .freeEventWorkStruct => [.eventWorkStruct]
  | .unloaded => []

/-- `mutex_init` has been called and the rings have not been released. -/
def ready : ModulePc → Bool
  | .gpioRequestOutput | .gpioDirectionOutput | .hrtimerInit | .releaseCaptureEventBuffer => true
  | .freeIrq left | .hrtimerCancel left => left.ready
  | _ => false

/-- Exit has not yet freed the interrupt. -/
def mayFire : ModulePc → Bool
  | .hrtimerCancel _ | .releaseCaptureEventBuffer | .releaseEventBulkDataBuffer
  | .freeEventBulkDataMtx | .freeCaptureEventSpinlock | .freeCaptureEventWaitqueue
  | .freeEventWorkStruct | .unloaded => false
  | _ => true

/-- What `ess_do_work` may use from there to its end. -/
def mayUse : WorkPc → List Resource
  | .spinLock | .spaceCapture | .front | .copy | .pop =>
    [.captureEventBuffer, .captureEventSpinlock, .captureEventWaitqueue, .eventBulkDataBuffer,
      .eventBulkDataMtx]
  | .spinUnlock =>
    [.captureEventSpinlock, .captureEventWaitqueue, .eventBulkDataBuffer, .eventBulkDataMtx]
  | .mutexLock | .spaceBulk | .push =>
    [.captureEventWaitqueue, .eventBulkDataBuffer, .eventBulkDataMtx]
  | .wakeUp => [.captureEventWaitqueue, .eventBulkDataMtx]
  | .mutexUnlock => [.eventBulkDataMtx]

def plan : Plan ModulePc Unit Resource WorkPc where
  up m r := r ∈ upList m
  ready := ready
  mayFire m _ := mayFire m
  mayUse w r := r ∈ mayUse w

section Plan

variable {m m' : ModulePc} {answer : Answer} {op : ModuleOp Unit Resource}

theorem up_moduleCode (h : moduleCode m answer = some (m', op)) (r : Resource) :
    plan.up m' r = op.upAfter r (plan.up m r) := by
  cases m <;> cases answer <;> try cases h
  case hrtimerCancel.success left | hrtimerCancel.failure left => cases left <;> cases h <;> rfl
  case freeIrq.success left => cases left <;> rfl
  all_goals cases r <;> rfl

theorem mayFire_moduleCode (h : moduleCode m answer = some (m', op)) (l : Unit) :
    plan.mayFire m' l = op.mayFireAfter l (plan.mayFire m l) := by
  cases m <;> cases answer <;> try cases h
  case hrtimerCancel.success left | hrtimerCancel.failure left => cases left <;> cases h <;> rfl
  all_goals rfl

theorem ready_iff (m : ModulePc) : plan.ready m = true ↔ ∀ r, plan.up m r = true := by
  constructor
  · intro hm r
    cases m with
    | freeIrq left | hrtimerCancel left => cases left <;> cases hm <;> cases r <;> rfl
    | _ => cases hm <;> cases r <;> rfl
  · intro hup
    have hcapture := hup .captureEventBuffer
    have hmtx := hup .eventBulkDataMtx
    cases m with
    | freeIrq left | hrtimerCancel left =>
      cases left with
      | nothing | captureRing => exact hmtx
      | wrapper | timer => rfl
    | releaseEventBulkDataBuffer | freeEventBulkDataMtx => exact hcapture
    | gpioRequestOutput | gpioDirectionOutput | hrtimerInit | releaseCaptureEventBuffer => rfl
    | _ => exact hmtx

theorem describes : plan.Describes driver where
  ready_iff := ready_iff
  up := up_moduleCode
  mayFire := mayFire_moduleCode
  requestIrq := by
    intro m answer m' l h
    cases m <;> cases answer <;> try cases h
    case requestIrq.success => rfl
    case hrtimerCancel.success left | hrtimerCancel.failure left => cases left <;> cases h
  release := by
    intro m answer m' r h
    cases m <;> cases answer <;> try cases h
    case hrtimerCancel.success left | hrtimerCancel.failure left => cases left <;> cases h
    all_goals exact Or.inr fun _ => rfl
  mayUse_here w := by cases w <;> rfl
  mayUse_next := by
    intro w answer w' r h hr
    cases w <;> cases answer <;> cases h <;> cases r <;> first | rfl | cases hr

end Plan

section Work

/-- With all answers favourable `ess_do_work` runs down to `mutex_unlock`, so what holds
there and is carried back along that way holds everywhere. -/
theorem carried_back {p : WorkPc → Prop} (hlast : p .mutexUnlock)
    (hback : ∀ {w w'}, driver.workNext w true = some w' → p w' → p w) (w : WorkPc) : p w := by
  have hwake : p .wakeUp := hback rfl hlast
  have hpush : p .push := hback rfl hwake
  have hspace : p .spaceBulk := hback rfl hpush
  have hlock : p .mutexLock := hback rfl hspace
  have hunlock : p .spinUnlock := hback rfl hlock
  have hpop : p .pop := hback rfl hunlock
  have hcopy : p .copy := hback rfl hpop
  have hfront : p .front := hback rfl hcopy
  have hcapture : p .spaceCapture := hback rfl hfront
  cases w with
  | spinLock => exact hback rfl hcapture
  | spaceCapture => exact hcapture
  | front => exact hfront
  | copy => exact hcopy
  | pop => exact hpop
  | spinUnlock => exact hunlock
  | mutexLock => exact hlock
  | spaceBulk => exact hspace
  | push => exact hpush
  | wakeUp => exact hwake
  | mutexUnlock => exact hlast

theorem mayUse_cases {w w' : WorkPc} (h : workNext w true = some w') {r : Resource}
    (hr : plan.mayUse w r = true) : r = workUses w ∨ plan.mayUse w' r = true := by
  cases w <;> cases h <;> cases r <;> first | exact Or.inl rfl | exact Or.inr hr

theorem visits (w : WorkPc) : ∀ r, plan.mayUse w r = true → driver.Visits w r := by
  refine carried_back (p := fun w => ∀ r, plan.mayUse w r = true → driver.Visits w r) ?_ ?_ w
  · intro r hr
    have hmtx : r = .eventBulkDataMtx := List.mem_singleton.mp (of_decide_eq_true hr)
    rw [hmtx]
    exact .here WorkPc.mutexUnlock
  · intro w w' hnext ih r hr
    rcases mayUse_cases hnext hr with rfl | hlater
    · exact .here w
    · exact .next hnext (ih r hlater)

theorem exact_plan : plan.Exact driver where
  used r := by
    cases r with
    | eventWorkStruct => exact Or.inr (Or.inl rfl)
    | _ => exact Or.inr (Or.inr (visits .spinLock _ rfl))
  released := by
    intro m answer m' r h
    cases m <;> cases answer <;> try cases h
    case hrtimerCancel.success left | hrtimerCancel.failure left => cases left <;> cases h
    case freeEventWorkStruct.success => exact Or.inl rfl
    all_goals exact Or.inr (visits .spinLock _ rfl)
  mayUse hr := visits _ _ hr
  ends w := by
    have hlast : driver.workNext .mutexUnlock true = none := rfl
    exact carried_back (p := driver.Ends) (.stop hlast) Driver.Ends.next w

end Work

variable {s s' : DriverState ModulePc Unit Resource WorkPc}
  {tr seen : List (ResourceEvent Resource)}

/-- The memory of the module is freed in a calm run only after the work has ended. -/
theorem calm_freeModule_iff (hs : s.module = .freeEventBulkDataMtx) :
    plan.calm driver s (.module .success) = true ↔ s.pending = false ∧ s.worker = none := by
  have hmtx : ∀ w, plan.mayUse w .eventBulkDataMtx = true := by
    intro w
    cases w <;> rfl
  have hcode : driver.module s.module .success =
      some (.freeCaptureEventSpinlock, .release .eventBulkDataMtx) := by
    rw [hs]
    rfl
  rw [Plan.calm, hcode, Bool.not_eq_true', Plan.workNeeds, Bool.or_eq_false_iff]
  refine and_congr_right fun _ => ?_
  cases s.worker with
  | none => exact iff_of_true rfl rfl
  | some w => exact iff_of_false (by simp [hmtx w]) (Option.some_ne_none w)

/-- In every run of load and unload in which no interrupt arrives before `mutex_init`, and
nothing is released or freed while the work is scheduled or the running work has still to
touch it, handler and work use only what has been set up and not released. -/
theorem gpio_load_unload_safe
    (h : Reaches (driver.machine.when (plan.calm driver)) (.start .gpioRequestInput) s tr) :
    UsesHeld tr :=
  (Plan.inv_of_calm describes (fun _ => rfl) h).sound

def load : List (DriverAction Answer Unit) := List.replicate 12 (.module .success)

def press : List (DriverAction Answer Unit) :=
  .interrupt () false :: List.replicate 4 (.handler ())

def exit : List (DriverAction Answer Unit) := List.replicate 4 (.module .success)

def freeModule : List (DriverAction Answer Unit) := List.replicate 4 (.module .success)

/-- Two presses are worked off: the second comes while the work of the first runs, and its
work ends before exit begins. -/
theorem gpio_load_unload_safe_presses : ∃ s tr,
    exec (driver.machine.when (plan.calm driver)) (.start .gpioRequestInput)
      (load ++ press ++ DriverAction.startWork :: .work true :: press ++
        List.replicate 10 (DriverAction.work true) ++
        DriverAction.startWork :: List.replicate 11 (.work true) ++ exit ++ freeModule) =
          some (s, tr) ∧
    tr.count (.use .captureEventWaitqueue) = 2 ∧ (∀ r ∈ Left.wrapper.upList, held r tr = false) ∧
    UsesHeld tr := by
  obtain ⟨s, tr, hrun, hcount, hheld⟩ : ∃ s tr,
      exec (driver.machine.when (plan.calm driver)) (.start .gpioRequestInput)
        (load ++ press ++ DriverAction.startWork :: .work true :: press ++
          List.replicate 10 (DriverAction.work true) ++
          DriverAction.startWork :: List.replicate 11 (.work true) ++ exit ++ freeModule) =
            some (s, tr) ∧
      tr.count (.use .captureEventWaitqueue) = 2 ∧
      ∀ r ∈ Left.wrapper.upList, held r tr = false := by
    decide +kernel
  exact ⟨s, tr, hrun, hcount, hheld, gpio_load_unload_safe (Reaches.of_exec hrun)⟩

/-- The work of the last press starts after exit has released the rings. -/
theorem work_after_exit : ∃ s tr, exec driver.machine (.start .gpioRequestInput)
    (load ++ press ++ exit ++ [DriverAction.startWork, .work true, .work true]) = some (s, tr) ∧
      ¬UsesHeld tr := by
  decide +kernel

/-- After a run that meets the condition, every step that does not meet it can be continued
to a use of something not set up or already released. -/
theorem hasty_step_unsafe
    (h : Reaches (driver.machine.when (plan.calm driver)) (.start .gpioRequestInput) s tr)
    {a : DriverAction Answer Unit} (hasty : plan.calm driver s a = false)
    (hs : driver.machine s a = some (s', seen)) :
    ∃ t tr', Reaches driver.machine s' t tr' ∧ ¬UsesHeld (tr ++ (seen ++ tr')) :=
  (Plan.inv_of_calm describes (fun _ => rfl) h).spoils_of_not_calm describes exact_plan hasty hs

end LinuxOddsAndEnds.Rpi3.Lifecycle
