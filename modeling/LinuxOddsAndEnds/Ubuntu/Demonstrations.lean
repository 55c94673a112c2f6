import LinuxOddsAndEnds.Ubuntu.CanonicalModule
import LinuxOddsAndEnds.Ubuntu.MemoryInit

/-!
# Timers and the proc file

Two demonstrations in the common module. `timers.c` arms four timers before the registrations
and cancels them in its exit; `memory.c` allocates its buffers and leaves a proc file whose read
function is in the module, and its exit takes both back.
-/

namespace LinuxOddsAndEnds.Ubuntu.CanonicalModule

open Foundation Oled.ModuleLoad

section Timers

inductive Timer where
  | hrtOneShot
  | hrtPeriodic
  | oneShot
  | periodic
  deriving DecidableEq

/-- `hrt_one_shot_data_` and `hrt_periodic_data_`. -/
inductive HrtData where
  | oneShot
  | periodic
  deriving DecidableEq

/-- `kmalloc`, the fields, `hrtimer_init` and `hrtimer_start`. -/
def hrtStart (allocated : Bool) (d : HrtData) (t : Timer) : List (CodeOp Timer HrtData) :=
  (if allocated then [CodeOp.event (.acquire d)] else []) ++ [CodeOp.event (.use d), .arm t]

def timersInit (oneShot periodic : Bool) : List (CodeOp Timer HrtData) :=
  hrtStart oneShot .oneShot .hrtOneShot ++ hrtStart periodic .periodic .hrtPeriodic ++
    [CodeOp.arm Timer.oneShot, .arm .periodic]

/-- `hrtimer_cancel` and `kfree`. -/
def hrtCancel (d : HrtData) (t : Timer) : List (CodeOp Timer HrtData) :=
  [.event (.use d), .cancel t, .event (.release d)]

def timersExit : List (CodeOp Timer HrtData) :=
  hrtCancel .oneShot .hrtOneShot ++ hrtCancel .periodic .hrtPeriodic ++
    [CodeOp.cancel Timer.oneShot, .cancel .periodic]

/-- A high resolution timer lies in its data, where the kernel looks at it after the function. -/
def timerBody : Timer → List (CallbackOp HrtData)
  | .hrtOneShot => [.use .oneShot]
  | .hrtPeriodic => [.use .periodic, .use .periodic, .rearm]
  | .oneShot => []
  | .periodic => [.rearm]

/-- `timers.c`, by whether its two allocations succeed. -/
def timers (oneShot periodic : Bool) : Demo Timer HrtData where
  init := timersInit oneShot periodic
  goesOn := true
  exit := timersExit
  body := timerBody

theorem use_mem_timerBody {t : Timer} {d : HrtData} : .use d ∈ timerBody t ↔
    t = .hrtOneShot ∧ d = .oneShot ∨ t = .hrtPeriodic ∧ d = .periodic := by
  cases t <;> cases d <;> simp [timerBody]

/-- Without its allocation a timer's data is written through `NULL`. -/
theorem sound_timers (oneShot periodic : Bool) :
    Sound timerBody (fun _ => false) (fun _ => false) (timersInit oneShot periodic ++ timersExit) ↔
      oneShot = true ∧ periodic = true := by
  cases oneShot <;> cases periodic <;>
    simp +contextual [Sound, CodeOp.Allowed, CodeOp.heldAfter, CodeOp.liveAfter,
      ResourceEvent.holds, timersInit, timersExit, hrtStart, hrtCancel, use_mem_timerBody,
      Function.update_apply]

theorem quiet_timers (oneShot periodic : Bool) :
    Quiet (timersInit oneShot periodic ++ timersExit) := by
  intro t
  cases oneShot <;> cases periodic <;> cases t <;>
    simp [liveAfter, CodeOp.liveAfter, timersInit, timersExit, hrtStart, hrtCancel]

theorem not_quiet_timersInit (oneShot periodic : Bool) : ¬Quiet (timersInit oneShot periodic) := by
  intro h
  have harmed : liveAfter (fun _ => false) (timersInit oneShot periodic) .periodic = true := by
    cases oneShot <;> cases periodic <;> simp [liveAfter, CodeOp.liveAfter, timersInit, hrtStart]
  rw [h .periodic] at harmed
  cases harmed

/-- The module of the timers runs in order exactly if both allocations and the registrations
succeed, and nobody opens a number that `cdev_add` has made known. -/
theorem timers_lawful_iff (oneShot periodic : Bool) (a : Answers) (opens : Bool) :
    (∀ s tr, Reaches (withCallbacks (timers oneShot periodic).callback)
      (.start ((timers oneShot periodic).module a opens)) s tr → Lawful tr) ↔
      oneShot = true ∧ periodic = true ∧ a.Registered ∧ a.classCreate = .valid ∧
        (opens = true → a.cdevAdd ≠ 0) := by
  rw [Demo.module_lawful_iff, Demo.Safe]
  by_cases hreg : a.Registered
  · rw [if_pos ⟨rfl, hreg⟩]
    have hsound := sound_timers oneShot periodic
    have hquiet := quiet_timers oneShot periodic
    constructor
    · rintro ⟨hdemo, -, hclass, hopens⟩
      obtain ⟨hone, hper⟩ := hsound.mp hdemo
      exact ⟨hone, hper, hreg, hclass, hopens⟩
    · rintro ⟨hone, hper, -, hclass, hopens⟩
      exact ⟨hsound.mpr ⟨hone, hper⟩, hquiet, hclass, hopens⟩
  · rw [if_neg fun h => hreg h.2]
    refine iff_of_false (fun h => ?_) fun h => hreg h.2.2.1
    exact not_quiet_timersInit oneShot periodic h.2.1

end Timers

section ProcFile

open Memory

/-- `memory.c`: the allocator calls of `memory_init` and the proc file, if `memory_init` gets
there and `proc_create` succeeds; `memory_exit` waits for the readers of the file and frees what
the pointers own. -/
def memory (succeeds : Block → Bool) (created : Bool) : Demo Unit (Option Block) where
  init := (memoryInit succeeds).2.history.map .event ++
    if 0 ≤ (memoryInit succeeds).1 ∧ created then [.arm ()] else []
  goesOn := 0 ≤ (memoryInit succeeds).1
  exit := .cancel () ::
    (freeOrder.flatMap fun p => freed ((memoryInit succeeds).2.pointers p)).map .event
  body := fun _ => []

variable {succeeds : Block → Bool} {created : Bool}

theorem sound_memoryInit :
    Sound (memory succeeds created).body (fun _ => false) (fun _ => false)
        (memory succeeds created).init ↔ (ReachesPages succeeds → succeeds .tempPage = true) := by
  have hevents : Sound (memory succeeds created).body (fun _ => false) (fun _ => false)
      ((memoryInit succeeds).2.history.map .event) ↔ Lawful (memoryInit succeeds).2.history :=
    sound_events (fun _ => rfl) [] _
  rw [memory, sound_append, ← lawful_memoryInit_iff, ← hevents]
  refine and_iff_left ?_
  split_ifs <;> simp [Sound, CodeOp.Allowed]

theorem heldAfter_memoryInit : heldAfter (fun _ => false) (memory succeeds created).init =
    fun b => held b (memoryInit succeeds).2.history := by
  have hevents : heldAfter (fun _ => false) ((memoryInit succeeds).2.history.map
      (CodeOp.event : _ → CodeOp Unit (Option Block))) =
        fun b => held b (memoryInit succeeds).2.history := heldAfter_events [] _
  rw [memory, heldAfter_append, hevents]
  split_ifs <;> rfl

theorem liveAfter_memoryInit : liveAfter (fun _ => false) (memory succeeds created).init =
    fun _ => decide (Returns succeeds ∧ created = true) := by
  rw [memory, liveAfter_append, liveAfter_events]
  simp only [nonneg_memoryInit_iff]
  split_ifs with h <;> funext c <;> simp [liveAfter, CodeOp.liveAfter, h]

theorem quiet_memoryInit :
    Quiet (memory succeeds created).init ↔ (Returns succeeds → created = false) := by
  rw [Quiet, liveAfter_memoryInit]
  simp

theorem liveAfter_procRemove (live : Unit → Bool) (c : Unit) :
    (CodeOp.cancel () : CodeOp Unit (Option Block)).liveAfter live c = false := by
  simp [CodeOp.liveAfter]

theorem sound_memory (hreturns : Returns succeeds) (htemp : succeeds .tempPage = true) :
    Sound (memory succeeds created).body (fun _ => false) (fun _ => false)
      ((memory succeeds created).init ++ (memory succeeds created).exit) := by
  refine (sound_append ..).mpr ⟨sound_memoryInit.mpr fun _ => htemp, trivial, ?_⟩
  have hsettled := (settled_of_returns hreturns htemp).1
  rw [freeMemory, Allocations.log_history] at hsettled
  rw [heldAfter_memoryInit]
  exact (sound_events (liveAfter_procRemove _) _ _).mpr (judged_append.mp hsettled).2

theorem quiet_memory :
    Quiet ((memory succeeds created).init ++ (memory succeeds created).exit) := by
  intro c
  have hevents := liveAfter_events
    ((CodeOp.cancel () : CodeOp Unit (Option Block)).liveAfter
      (liveAfter (fun _ => false) (memory succeeds created).init))
    (freeOrder.flatMap fun p => freed ((memoryInit succeeds).2.pointers p))
  rw [liveAfter_append]
  exact (congrFun hevents c).trans (liveAfter_procRemove _ c)

/-- The module of the buffer runs in order exactly if no page is used that is not there; and if
`memory_init` fails, or the registrations succeed and nobody opens a number that `cdev_add` has
made known, or they fail, no proc file is left behind and the failure is not unwound through an
error pointer. -/
theorem memory_lawful_iff (succeeds : Block → Bool) (created : Bool) (a : Answers) (opens : Bool) :
    (∀ s tr, Reaches (withCallbacks (memory succeeds created).callback)
      (.start ((memory succeeds created).module a opens)) s tr → Lawful tr) ↔
      (ReachesPages succeeds → succeeds .tempPage = true) ∧
        (Returns succeeds → if a.Registered then a.classCreate = .valid ∧
          (opens = true → a.cdevAdd ≠ 0) else created = false ∧ ¬a.UnwindsError) := by
  have hgoesOn : (memory succeeds created).goesOn = true ↔ Returns succeeds := by
    rw [← nonneg_memoryInit_iff]
    exact decide_eq_true_iff
  rw [Demo.module_lawful_iff, Demo.Safe]
  by_cases hreturns : Returns succeeds
  · by_cases hreg : a.Registered
    · rw [if_pos ⟨hgoesOn.mpr hreturns, hreg⟩]
      have hsound : Sound (memory succeeds created).body (fun _ => false) (fun _ => false)
          ((memory succeeds created).init ++ (memory succeeds created).exit) ↔
          (ReachesPages succeeds → succeeds .tempPage = true) :=
        ⟨fun h => sound_memoryInit.mp ((sound_append ..).mp h).1,
          fun h => sound_memory hreturns (h hreturns.1)⟩
      simp [hsound, quiet_memory, hreturns, hreg]
    · rw [if_neg fun h => hreg h.2, sound_memoryInit, quiet_memoryInit, hgoesOn]
      simp [hreturns, hreg]
  · rw [if_neg fun h => hreturns (hgoesOn.mp h.1), sound_memoryInit, quiet_memoryInit, hgoesOn]
    simp [hreturns]

end ProcFile

end LinuxOddsAndEnds.Ubuntu.CanonicalModule
