import LinuxOddsAndEnds.Foundation.Machine
import LinuxOddsAndEnds.Foundation.Resources
import Mathlib.Logic.Function.Basic

/-!
# Loading and unloading a driver under interrupts

A driver has three kinds of code that run beside each other. The module code loads and
unloads: it sets up and tears down resources, and requests and frees interrupt lines. A
handler starts when its line fires; it uses some resources and then schedules the work.
The work runs whenever it is pending. The kernel orders them at three points only: it
waits for the handler of a line when the line is freed, for the work when it is flushed,
and never runs the work twice at once.

A plan says for each point of the module code which resources are set up and which lines
may fire. A run is calm if no interrupt gets through before all resources are set up, and
nothing is torn down that work may still use. In a calm run nothing is used before it is
set up or after it is torn down, and every run that stops being calm can go wrong.
-/

namespace LinuxOddsAndEnds.Foundation

/-- What a step of the module code asks for. -/
inductive ModuleOp (L R : Type*) where
  | nothing
  | acquire (r : R)
  | release (r : R)
  | requestIrq (l : L)
  | freeIrq (l : L)
  | flush

/-- The module code by its points and the answers it gets, the uses of a handler before it
schedules the work, and the work by its points and the answers it gets. -/
structure Driver (M A L R W : Type*) where
  module : M → A → Option (M × ModuleOp L R)
  handlerUses : List R
  workItem : R
  workEntry : W
  workUses : W → R
  workNext : W → Bool → Option W

structure DriverState (M L R W : Type*) where
  module : M
  irqs : L → Bool
  handlers : L → Option (List R)
  pending : Bool
  worker : Option W

/-- An early interrupt is one whose handler returns before it uses anything. -/
inductive DriverAction (A L : Type*) where
  | module (answer : A)
  | interrupt (l : L) (early : Bool)
  | handler (l : L)
  | startWork
  | work (answer : Bool)

variable {M A L R W : Type*} [DecidableEq L]

def DriverState.start (m : M) : DriverState M L R W :=
  ⟨m, fun _ => false, fun _ => none, false, none⟩

namespace Driver

def moduleStep (s : DriverState M L R W) (m : M) :
    ModuleOp L R → Option (DriverState M L R W × List (ResourceEvent R))
  | .nothing => some ({ s with module := m }, [])
  | .acquire r => some ({ s with module := m }, [.acquire r])
  | .release r => some ({ s with module := m }, [.release r])
  | .requestIrq l => some ({ s with module := m, irqs := Function.update s.irqs l true }, [])
  | .freeIrq l =>
    if (s.handlers l).isNone then
      some ({ s with module := m, irqs := Function.update s.irqs l false }, [])
    else none
  | .flush =>
    if !s.pending && s.worker.isNone then some ({ s with module := m }, []) else none

def machine (D : Driver M A L R W) :
    Machine (DriverState M L R W) (DriverAction A L) (ResourceEvent R)
  | s, .module answer =>
    match D.module s.module answer with
    | none => none
    | some (m, op) => moduleStep s m op
  | s, .interrupt l early =>
    if s.irqs l && (s.handlers l).isNone then
      if early then some (s, [])
      else some ({ s with handlers := Function.update s.handlers l (some D.handlerUses) }, [])
    else none
  | s, .handler l =>
    match s.handlers l with
    | none => none
    | some [] =>
      some ({ s with handlers := Function.update s.handlers l none, pending := true },
        [.use D.workItem])
    | some (r :: rest) =>
      some ({ s with handlers := Function.update s.handlers l (some rest) }, [.use r])
  | s, .startWork =>
    if s.pending && s.worker.isNone then
      some ({ s with pending := false, worker := some D.workEntry }, [.use D.workItem])
    else none
  | s, .work answer =>
    match s.worker with
    | none => none
    | some w => some ({ s with worker := D.workNext w answer }, [.use (D.workUses w)])

/-- The branches of one step: what each of them requires, changes and shows. -/
inductive Step (D : Driver M A L R W) (s : DriverState M L R W) :
    DriverAction A L → DriverState M L R W → List (ResourceEvent R) → Prop
  | nothing {answer m} (code : D.module s.module answer = some (m, .nothing)) :
      Step D s (.module answer) { s with module := m } []
  | acquire {answer m r} (code : D.module s.module answer = some (m, .acquire r)) :
      Step D s (.module answer) { s with module := m } [.acquire r]
  | release {answer m r} (code : D.module s.module answer = some (m, .release r)) :
      Step D s (.module answer) { s with module := m } [.release r]
  | requestIrq {answer m l} (code : D.module s.module answer = some (m, .requestIrq l)) :
      Step D s (.module answer) { s with module := m, irqs := Function.update s.irqs l true } []
  | freeIrq {answer m l} (code : D.module s.module answer = some (m, .freeIrq l))
      (idle : s.handlers l = none) :
      Step D s (.module answer) { s with module := m, irqs := Function.update s.irqs l false } []
  | flush {answer m} (code : D.module s.module answer = some (m, .flush))
      (unpending : s.pending = false) (idle : s.worker = none) :
      Step D s (.module answer) { s with module := m } []
  | early {l} : Step D s (.interrupt l true) s []
  | interrupt {l} (irq : s.irqs l = true) :
      Step D s (.interrupt l false)
        { s with handlers := Function.update s.handlers l (some D.handlerUses) } []
  | handlerUse {l r rest} (running : s.handlers l = some (r :: rest)) :
      Step D s (.handler l) { s with handlers := Function.update s.handlers l (some rest) }
        [.use r]
  | schedule {l} (running : s.handlers l = some []) :
      Step D s (.handler l)
        { s with handlers := Function.update s.handlers l none, pending := true }
        [.use D.workItem]
  | startWork (pending : s.pending = true) (idle : s.worker = none) :
      Step D s .startWork { s with pending := false, worker := some D.workEntry }
        [.use D.workItem]
  | work {w answer} (running : s.worker = some w) :
      Step D s (.work answer) { s with worker := D.workNext w answer } [.use (D.workUses w)]

variable {D : Driver M A L R W} {s s' : DriverState M L R W} {seen : List (ResourceEvent R)}

theorem step_of_moduleStep {answer : A} {m : M} {op : ModuleOp L R}
    (code : D.module s.module answer = some (m, op)) (h : moduleStep s m op = some (s', seen)) :
    D.Step s (.module answer) s' seen := by
  cases op with
  | nothing =>
    obtain ⟨rfl, rfl⟩ := Prod.mk.inj (Option.some.inj h)
    exact .nothing code
  | acquire r =>
    obtain ⟨rfl, rfl⟩ := Prod.mk.inj (Option.some.inj h)
    exact .acquire code
  | release r =>
    obtain ⟨rfl, rfl⟩ := Prod.mk.inj (Option.some.inj h)
    exact .release code
  | requestIrq l =>
    obtain ⟨rfl, rfl⟩ := Prod.mk.inj (Option.some.inj h)
    exact .requestIrq code
  | freeIrq l =>
    rw [moduleStep] at h
    split_ifs at h with hidle
    obtain ⟨rfl, rfl⟩ := Prod.mk.inj (Option.some.inj h)
    exact .freeIrq code (Option.isNone_iff_eq_none.mp hidle)
  | flush =>
    rw [moduleStep] at h
    split_ifs at h with hquiet
    obtain ⟨rfl, rfl⟩ := Prod.mk.inj (Option.some.inj h)
    rw [Bool.and_eq_true, Bool.not_eq_true', Option.isNone_iff_eq_none] at hquiet
    exact .flush code hquiet.1 hquiet.2

theorem step_of_machine {a : DriverAction A L} (h : D.machine s a = some (s', seen)) :
    D.Step s a s' seen := by
  cases a with
  | module answer =>
    simp only [machine] at h
    cases hcode : D.module s.module answer with
    | none => simp [hcode] at h
    | some out =>
      rw [hcode] at h
      exact step_of_moduleStep hcode h
  | interrupt l early =>
    simp only [machine] at h
    split_ifs at h with hirq hearly
    · obtain ⟨rfl, rfl⟩ := Prod.mk.inj (Option.some.inj h)
      subst hearly
      exact .early
    · obtain ⟨rfl, rfl⟩ := Prod.mk.inj (Option.some.inj h)
      rw [Bool.and_eq_true] at hirq
      obtain rfl := Bool.eq_false_iff.mpr hearly
      exact .interrupt hirq.1
  | handler l =>
    simp only [machine] at h
    split at h
    · simp at h
    · next hrun =>
      obtain ⟨rfl, rfl⟩ := Prod.mk.inj (Option.some.inj h)
      exact .schedule hrun
    · next r rest hrun =>
      obtain ⟨rfl, rfl⟩ := Prod.mk.inj (Option.some.inj h)
      exact .handlerUse hrun
  | startWork =>
    simp only [machine] at h
    split_ifs at h with hstart
    obtain ⟨rfl, rfl⟩ := Prod.mk.inj (Option.some.inj h)
    rw [Bool.and_eq_true, Option.isNone_iff_eq_none] at hstart
    exact .startWork hstart.1 hstart.2
  | work answer =>
    simp only [machine] at h
    split at h
    · simp at h
    · next w hrun =>
      obtain ⟨rfl, rfl⟩ := Prod.mk.inj (Option.some.inj h)
      exact .work hrun

end Driver

end LinuxOddsAndEnds.Foundation
