import LinuxOddsAndEnds.Foundation.CalmRuns
import LinuxOddsAndEnds.Oled.I2cOledGlobal

/-!
# Loading and unloading the OLED driver

`ess_oled_init` and `ess_oled_cleanup` step by step, with the handlers of the seven lines
and `do_work` running beside them. `i2c_add_driver` probes the device, and the probe
requests the interrupts; only then does `gpio_oled_irq_init` set up what the handlers and
`do_work` use. Unloading frees all lines and flushes the work before it releases anything,
so an interrupt that comes too early is all that can go wrong.
-/

namespace LinuxOddsAndEnds.Oled.Lifecycle

open Foundation

/-- What `gpio_oled_irq_init` sets up in `ess_work_struct_wrapper_`. -/
inductive Resource where
  | captureEventBuffer
  | eventBulkDataBuffer
  | captureEventWaitqueue
  | eventWorkStruct
  | eventBulkDataMtx
  deriving DecidableEq

/-- How a call comes out. One that is skipped has had no effect and counts as no failure. -/
inductive Answer where
  | success
  | failure
  | skipped

/-- The next call of `ess_oled_init` or `ess_oled_cleanup`. Once `gpio_oled_irq_init` has
returned, the flag tells whether it returned 0. -/
inductive ModulePc where
  | i2cAddDriver
  | gpioOledIrq (g : Gpio)
  | initCaptureEventBuffer
  | initEventBulkDataBuffer
  | initWaitqueueHead
  | initWork
  | mutexInit
  | i2cDelDriver (ok : Bool)
  | releaseGpioResource (ok : Bool) (g : Gpio)
  | flushScheduledWork (ok : Bool)
  | releaseCaptureEventBuffer (ok : Bool)
  | releaseEventBulkDataBuffer (ok : Bool)
  | unloaded (ok : Bool)

/-- The order in which probe and exit walk the lines. -/
def nextLine : Gpio → Option Gpio
  | .button5 => some .button6
  | .button6 => some .rockerD
  | .rockerD => some .rockerN
  | .rockerN => some .rockerS
  | .rockerS => some .rockerE
  | .rockerE => some .rockerW
  | .rockerW => none

/-- The rest of the probe touches none of the resources, so the last line is its end. -/
def afterLine (g : Gpio) : ModulePc :=
  match nextLine g with
  | some g' => .gpioOledIrq g'
  | none => .initCaptureEventBuffer

def afterRelease (ok : Bool) (g : Gpio) : ModulePc :=
  match nextLine g with
  | some g' => .releaseGpioResource ok g'
  | none => .flushScheduledWork ok

/-- `i2c_add_driver` is skipped over when it finds no device to probe. `gpio_oled_irq`
returns 0 without a requested interrupt if `gpiod_to_irq` alone fails; where it fails, the
probe fails, `i2c_add_driver` succeeds all the same, and no requested line is freed. -/
def moduleCode : ModulePc → Answer → Option (ModulePc × ModuleOp Gpio Resource)
  | .i2cAddDriver, .success => some (.gpioOledIrq .button5, .nothing)
  | .i2cAddDriver, .skipped => some (.initCaptureEventBuffer, .nothing)
  | .i2cAddDriver, .failure => some (.i2cDelDriver false, .nothing)
  | .gpioOledIrq g, .success => some (afterLine g, .requestIrq g)
  | .gpioOledIrq g, .skipped => some (afterLine g, .nothing)
  | .gpioOledIrq _, .failure => some (.initCaptureEventBuffer, .nothing)
  | .initCaptureEventBuffer, .success =>
    some (.initEventBulkDataBuffer, .acquire .captureEventBuffer)
  | .initCaptureEventBuffer, .failure => some (.i2cDelDriver false, .nothing)
  | .initEventBulkDataBuffer, .success =>
    some (.initWaitqueueHead, .acquire .eventBulkDataBuffer)
  | .initEventBulkDataBuffer, .failure =>
    some (.i2cDelDriver false, .release .captureEventBuffer)
  | .initWaitqueueHead, .success => some (.initWork, .acquire .captureEventWaitqueue)
  | .initWork, .success => some (.mutexInit, .acquire .eventWorkStruct)
  | .mutexInit, .success => some (.i2cDelDriver true, .acquire .eventBulkDataMtx)
  | .i2cDelDriver ok, .success => some (.releaseGpioResource ok .button5, .nothing)
  | .releaseGpioResource ok g, .success => some (afterRelease ok g, .freeIrq g)
  | .flushScheduledWork ok, .success => some (.releaseCaptureEventBuffer ok, .flush)
  | .releaseCaptureEventBuffer ok, .success =>
    some (.releaseEventBulkDataBuffer ok, .release .captureEventBuffer)
  | .releaseEventBulkDataBuffer ok, .success =>
    some (.unloaded ok, .release .eventBulkDataBuffer)
  | _, _ => none

inductive WorkPc where
  | front
  | copy
  | pop
  | lock
  | space
  | push
  | wakeUp
  | unlock

def workUses : WorkPc → Resource
  | .front | .copy | .pop => .captureEventBuffer
  | .lock | .unlock => .eventBulkDataMtx
  | .space | .push => .eventBulkDataBuffer
  | .wakeUp => .captureEventWaitqueue

/-- The answers are those of `front`, `space` and `push`. -/
def workNext : WorkPc → Bool → Option WorkPc
  | .front, true => some .copy
  | .front, false => none
  | .copy, _ => some .pop
  | .pop, _ => some .lock
  | .lock, _ => some .space
  | .space, true => some .push
  | .space, false => some .unlock
  | .push, true => some .wakeUp
  | .push, false => some .unlock
  | .wakeUp, _ => some .unlock
  | .unlock, _ => some .front

/-- All handlers push into the capture ring and schedule the work, unless they return
early because the press bounces. -/
def driver : Driver ModulePc Answer Gpio Resource WorkPc where
  module := moduleCode
  handlerUses := [.captureEventBuffer]
  workItem := .eventWorkStruct
  workEntry := .front
  workUses := workUses
  workNext := workNext

/-- What has been set up and not released when the module code is about to make the call. -/
def upList : ModulePc → List Resource
  | .i2cAddDriver | .gpioOledIrq _ | .initCaptureEventBuffer => []
  | .initEventBulkDataBuffer => [.captureEventBuffer]
  | .initWaitqueueHead => [.captureEventBuffer, .eventBulkDataBuffer]
  | .initWork => [.captureEventBuffer, .eventBulkDataBuffer, .captureEventWaitqueue]
  | .mutexInit =>
    [.captureEventBuffer, .eventBulkDataBuffer, .captureEventWaitqueue, .eventWorkStruct]
  | .i2cDelDriver true | .releaseGpioResource true _ | .flushScheduledWork true
  | .releaseCaptureEventBuffer true =>
    [.captureEventBuffer, .eventBulkDataBuffer, .captureEventWaitqueue, .eventWorkStruct,
      .eventBulkDataMtx]
  | .releaseEventBulkDataBuffer true =>
    [.eventBulkDataBuffer, .captureEventWaitqueue, .eventWorkStruct, .eventBulkDataMtx]
  | .unloaded true => [.captureEventWaitqueue, .eventWorkStruct, .eventBulkDataMtx]
  | .i2cDelDriver false | .releaseGpioResource false _ | .flushScheduledWork false
  | .releaseCaptureEventBuffer false | .releaseEventBulkDataBuffer false | .unloaded false => []

/-- `gpio_oled_irq_init` has returned 0 and the rings have not been released. -/
def ready : ModulePc → Bool
  | .i2cDelDriver ok | .releaseGpioResource ok _ | .flushScheduledWork ok
  | .releaseCaptureEventBuffer ok => ok
  | _ => false

/-- Exit has not yet freed the line. -/
def mayFire : ModulePc → Gpio → Bool
  | .releaseGpioResource _ g, l => g.code ≤ l.code
  | .flushScheduledWork _, _ | .releaseCaptureEventBuffer _, _
  | .releaseEventBulkDataBuffer _, _ | .unloaded _, _ => false
  | _, _ => true

def plan : Plan ModulePc Gpio Resource WorkPc where
  up m r := r ∈ upList m
  ready := ready
  mayFire := mayFire
  mayUse _ r := r ≠ .eventWorkStruct

def flushed : ModulePc → Bool
  | .releaseCaptureEventBuffer _ | .releaseEventBulkDataBuffer _ | .unloaded _ => true
  | _ => false

section Plan

variable {m m' : ModulePc} {answer : Answer} {op : ModuleOp Gpio Resource}

theorem up_moduleCode (h : moduleCode m answer = some (m', op)) (r : Resource) :
    plan.up m' r = op.upAfter r (plan.up m r) := by
  cases m <;> cases answer <;> cases h
  case gpioOledIrq.success g | gpioOledIrq.skipped g => cases g <;> rfl
  case releaseGpioResource.success ok g => cases ok <;> cases g <;> rfl
  case i2cDelDriver.success ok | flushScheduledWork.success ok => cases ok <;> rfl
  case releaseCaptureEventBuffer.success ok | releaseEventBulkDataBuffer.success ok =>
    cases ok <;> cases r <;> rfl
  all_goals cases r <;> rfl

theorem mayFire_moduleCode (h : moduleCode m answer = some (m', op)) (l : Gpio) :
    plan.mayFire m' l = op.mayFireAfter l (plan.mayFire m l) := by
  cases m <;> cases answer <;> cases h
  case gpioOledIrq.success g | gpioOledIrq.skipped g => cases g <;> rfl
  case releaseGpioResource.success ok g => cases g <;> cases l <;> rfl
  case i2cDelDriver.success ok => cases l <;> rfl
  all_goals rfl

theorem ready_iff (m : ModulePc) : plan.ready m = true ↔ ∀ r, plan.up m r = true := by
  constructor
  · intro hm r
    cases m <;> cases hm <;> cases r <;> rfl
  · intro hup
    have hcapture := hup .captureEventBuffer
    have hmtx := hup .eventBulkDataMtx
    cases m with
    | i2cDelDriver ok | releaseGpioResource ok g | flushScheduledWork ok
    | releaseCaptureEventBuffer ok =>
      cases ok with
      | true => rfl
      | false => exact hmtx
    | releaseEventBulkDataBuffer ok | unloaded ok => cases ok <;> exact hcapture
    | _ => exact hmtx

theorem describes : plan.Describes driver where
  ready_iff := ready_iff
  up := up_moduleCode
  mayFire := mayFire_moduleCode
  requestIrq := by
    intro m answer m' l h
    cases m <;> cases answer <;> cases h
    rfl
  release := by
    intro m answer m' r h
    cases m <;> cases answer <;> cases h
    case initEventBulkDataBuffer.failure => exact Or.inl rfl
    all_goals exact Or.inr fun _ => rfl
  mayUse_here w := by cases w <;> rfl
  mayUse_next _ h := h

theorem flushes : plan.Flushes driver flushed where
  closed := by
    intro m hm l
    cases m <;> cases hm <;> rfl
  enter := by
    intro m answer m' op h hm
    cases m <;> cases answer <;> cases h
    case gpioOledIrq.success g | gpioOledIrq.skipped g => cases g <;> cases hm
    case releaseGpioResource.success ok g => cases g <;> cases hm
    case flushScheduledWork.success ok => exact Or.inr rfl
    all_goals cases hm <;> exact Or.inl rfl
  release := by
    intro m answer m' r h
    cases m <;> cases answer <;> cases h
    case initEventBulkDataBuffer.failure => exact Or.inr ⟨rfl, .button5, rfl⟩
    all_goals exact Or.inl rfl

end Plan

section Work

variable {p : WorkPc → Prop}

/-- `do_work` can always come back to `front`, so what holds there and is carried back
along its steps holds everywhere. -/
theorem carried_back (hfront : p .front)
    (hback : ∀ {w w' answer}, driver.workNext w answer = some w' → p w' → p w)
    (w : WorkPc) : p w := by
  have hunlock : p .unlock := hback (show driver.workNext .unlock true = _ from rfl) hfront
  have hspace : p .space := hback (show driver.workNext .space false = _ from rfl) hunlock
  have hlock : p .lock := hback (show driver.workNext .lock true = _ from rfl) hspace
  have hpop : p .pop := hback (show driver.workNext .pop true = _ from rfl) hlock
  cases w with
  | front => exact hfront
  | copy => exact hback (show driver.workNext .copy true = _ from rfl) hpop
  | pop => exact hpop
  | lock => exact hlock
  | space => exact hspace
  | push => exact hback (show driver.workNext .push false = _ from rfl) hunlock
  | wakeUp => exact hback (show driver.workNext .wakeUp true = _ from rfl) hunlock
  | unlock => exact hunlock

theorem visits_front {r : Resource} (hr : r ≠ .eventWorkStruct) : driver.Visits .front r := by
  have hcopy : driver.workNext .front true = some .copy := rfl
  have hpop : driver.workNext .copy true = some .pop := rfl
  have hlock : driver.workNext .pop true = some .lock := rfl
  have hspace : driver.workNext .lock true = some .space := rfl
  have hpush : driver.workNext .space true = some .push := rfl
  have hwake : driver.workNext .push true = some .wakeUp := rfl
  have hmtx : driver.Visits .front .eventBulkDataMtx :=
    .next hcopy (.next hpop (.next hlock (.here WorkPc.lock)))
  have hbulk : driver.Visits .space .eventBulkDataBuffer := .here WorkPc.space
  have hwait : driver.Visits .space .captureEventWaitqueue :=
    .next hpush (.next hwake (.here WorkPc.wakeUp))
  cases r with
  | captureEventBuffer => exact .here WorkPc.front
  | eventBulkDataBuffer => exact .next hcopy (.next hpop (.next hlock (.next hspace hbulk)))
  | captureEventWaitqueue => exact .next hcopy (.next hpop (.next hlock (.next hspace hwait)))
  | eventWorkStruct => exact absurd rfl hr
  | eventBulkDataMtx => exact hmtx

theorem exact_plan : plan.Exact driver where
  used r := by
    by_cases hr : r = .eventWorkStruct
    · exact Or.inr (Or.inl hr)
    · exact Or.inr (Or.inr (visits_front hr))
  released := by
    intro m answer m' r h
    refine Or.inr (visits_front ?_)
    rintro rfl
    cases m <;> cases answer <;> cases h
  mayUse := by
    intro w r hr
    have hne : r ≠ .eventWorkStruct := of_decide_eq_true hr
    exact carried_back (p := fun w => driver.Visits w r) (visits_front hne) Driver.Visits.next w
  ends w := by
    have hstop : driver.workNext .front false = none := rfl
    exact carried_back (p := driver.Ends) (.stop hstop) Driver.Ends.next w

end Work

variable {s s' : DriverState ModulePc Gpio Resource WorkPc}
  {tr seen : List (ResourceEvent Resource)}

/-- In every run of load and unload in which no interrupt gets past the debounce test
before `gpio_oled_irq_init` has returned 0, handlers and `do_work` use only what has been
set up and not released. -/
theorem oled_load_unload_safe
    (h : Reaches (driver.machine.when plan.afterReady) (.start .i2cAddDriver) s tr) :
    UsesHeld tr :=
  (Plan.inv_of_afterReady describes flushes (fun _ => rfl) h).sound

def load : List (DriverAction Answer Gpio) := List.replicate 13 (.module .success)

def press : List (DriverAction Answer Gpio) :=
  .interrupt .button6 false :: List.replicate 2 (.handler .button6)

/-- `do_work` forwards one event and finds the ring empty. -/
def forward : List (DriverAction Answer Gpio) :=
  List.replicate 8 (DriverAction.work true) ++ [DriverAction.work false]

def unload : List (DriverAction Answer Gpio) := List.replicate 11 (.module .success)

theorem oled_load_unload_safe_press : ∃ s tr,
    exec (driver.machine.when plan.afterReady) (.start .i2cAddDriver)
      (load ++ press ++ DriverAction.startWork :: forward ++ unload) = some (s, tr) ∧
        tr.count (.release .eventBulkDataBuffer) = 1 ∧ UsesHeld tr := by
  obtain ⟨s, tr, hrun, hcount⟩ : ∃ s tr,
      exec (driver.machine.when plan.afterReady) (.start .i2cAddDriver)
        (load ++ press ++ DriverAction.startWork :: forward ++ unload) = some (s, tr) ∧
          tr.count (.release .eventBulkDataBuffer) = 1 := by decide +kernel
  exact ⟨s, tr, hrun, hcount, oled_load_unload_safe (Reaches.of_exec hrun)⟩

/-- `request_irq` has succeeded for the first line and its press is pushed into a ring that
has no memory yet. -/
theorem press_before_init : ∃ s tr, exec driver.machine (.start .i2cAddDriver)
    [.module .success, .module .success, .interrupt .button5 false, .handler .button5] =
      some (s, tr) ∧ ¬UsesHeld tr :=
  ⟨_, _, rfl, not_usesHeld rfl⟩

/-- After a run that meets the condition, every interrupt that does not meet it can be
continued to a use of something not set up. -/
theorem early_interrupt_unsafe
    (h : Reaches (driver.machine.when plan.afterReady) (.start .i2cAddDriver) s tr)
    {a : DriverAction Answer Gpio} (hearly : plan.afterReady s a = false)
    (hs : driver.machine s a = some (s', seen)) :
    ∃ t tr', Reaches driver.machine s' t tr' ∧ ¬UsesHeld (tr ++ (seen ++ tr')) :=
  (Plan.inv_of_afterReady describes flushes (fun _ => rfl) h).spoils_of_early describes exact_plan
    hearly hs

end LinuxOddsAndEnds.Oled.Lifecycle
