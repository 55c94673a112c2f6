import LinuxOddsAndEnds.Oled.PipelineInvariant
import LinuxOddsAndEnds.Oled.PollWakeup

/-!
# Concurrent calls refine whole ones

The pipeline lets a read run whole while the mutex is free. With callers that take the mutex,
loop and let it go in steps of their own, between the steps of everybody else, each read still
takes effect at one point, its loop, and what a run shows of the events is what some run of the
pipeline shows.
-/

namespace LinuxOddsAndEnds.Oled.Wakeup

open Foundation CircBufferPow2

variable {ι : Type*}

def ThreadPc.locked : ThreadPc → Bool
  | .pollCheck | .pollUnlock _ | .readLoop _ _ | .readUnlock => true
  | _ => false

/-- The mutex has one holder at most, the worker or a caller. -/
structure MutexHeld (s : Callers ι) : Prop where
  holder : s.driver.eventBulkDataMtx = true →
    s.driver.worker.locked = true ∨ ∃ t, (s.thread t).locked = true
  worker : s.driver.worker.locked = true →
    s.driver.eventBulkDataMtx = true ∧ ∀ t, (s.thread t).locked = false
  thread : ∀ t, (s.thread t).locked = true →
    s.driver.eventBulkDataMtx = true ∧ ∀ t', (s.thread t').locked = true → t' = t

/-- The driver as the pipeline sees it, where no caller ever holds the mutex. -/
def whole (d : State) : State := { d with eventBulkDataMtx := d.worker.locked }

/-- What both levels show alike: polls are answered later than they look, a wake of
`IOCTL_RELEASE_POLL` comes later than its store, and a read of a wrong size takes no lock. -/
def eventView : Seen → List Seen
  | .polled _ | .woken => []
  | .read count bytesRead records =>
    if count.toNat % sizeofEventBulkData ≠ 0 ∧ records = [] then []
    else [.read count bytesRead records]
  | o => [o]

section View

variable {tr : List Seen}

theorem eventView_wrong {count : SizeT} (hcount : ¬count.toNat % sizeofEventBulkData = 0)
    (bytesRead : ℤ) : [Seen.read count bytesRead []].flatMap eventView = [] := by
  have hview : eventView (.read count bytesRead []) = [] := if_pos ⟨hcount, rfl⟩
  rw [List.flatMap_singleton, hview]

theorem eventView_cases (o : Seen) : eventView o = [o] ∨
    eventView o = [] ∧ captured [o] = [] ∧ forwarded [o] = [] ∧ dropped [o] = [] ∧
      removed [o] = [] ∧ o.atFullRing := by
  cases o with
  | polled mask => exact Or.inr ⟨rfl, rfl, rfl, rfl, rfl, trivial⟩
  | woken => exact Or.inr ⟨rfl, rfl, rfl, rfl, rfl, trivial⟩
  | read count bytesRead records =>
    by_cases hnothing : count.toNat % sizeofEventBulkData ≠ 0 ∧ records = []
    · obtain ⟨-, rfl⟩ := id hnothing
      exact Or.inr ⟨if_pos hnothing, rfl, rfl, rfl, rfl, trivial⟩
    · exact Or.inl (if_neg hnothing)
  | _ => exact Or.inl rfl

theorem projection_view {β : Type*} {f : List Seen → List β} (hnil : f [] = [])
    (happend : ∀ tr tr', f (tr ++ tr') = f tr ++ f tr')
    (hdropped : ∀ o, eventView o = [o] ∨ eventView o = [] ∧ f [o] = []) (tr : List Seen) :
    f (tr.flatMap eventView) = f tr := by
  induction tr with
  | nil => rfl
  | cons o tr ih =>
    rw [List.flatMap_cons, happend, ih, ← List.singleton_append, happend]
    rcases hdropped o with hkept | ⟨hgone, hnone⟩
    · rw [hkept]
    · rw [hgone, hnil, hnone]

theorem captured_view (tr : List Seen) : captured (tr.flatMap eventView) = captured tr :=
  projection_view rfl captured_append
    (fun o => (eventView_cases o).imp_right fun h => ⟨h.1, h.2.1⟩) tr

theorem forwarded_view (tr : List Seen) : forwarded (tr.flatMap eventView) = forwarded tr :=
  projection_view rfl forwarded_append
    (fun o => (eventView_cases o).imp_right fun h => ⟨h.1, h.2.2.1⟩) tr

theorem dropped_view (tr : List Seen) : dropped (tr.flatMap eventView) = dropped tr :=
  projection_view rfl dropped_append
    (fun o => (eventView_cases o).imp_right fun h => ⟨h.1, h.2.2.2.1⟩) tr

theorem removed_view (tr : List Seen) : removed (tr.flatMap eventView) = removed tr :=
  projection_view rfl removed_append
    (fun o => (eventView_cases o).imp_right fun h => ⟨h.1, h.2.2.2.2.1⟩) tr

theorem full_of_view (h : ∀ o ∈ tr.flatMap eventView, o.atFullRing) : ∀ o ∈ tr, o.atFullRing := by
  intro o ho
  rcases eventView_cases o with hkept | ⟨-, -, -, -, -, hfull⟩
  · exact h o (List.mem_flatMap.mpr ⟨o, ho, by rw [hkept]; exact List.mem_singleton_self o⟩)
  · exact hfull

theorem full_view (h : ∀ o ∈ tr, o.atFullRing) : ∀ o ∈ tr.flatMap eventView, o.atFullRing := by
  intro o ho
  obtain ⟨o', ho', hmem⟩ := List.mem_flatMap.mp ho
  rcases eventView_cases o' with hkept | ⟨hgone, -⟩
  · rw [hkept, List.mem_singleton] at hmem
    exact hmem ▸ h o' ho'
  · rw [hgone] at hmem
    cases hmem

end View

section Whole

variable {d d' : State} {seen : List Seen}

theorem whole_interrupt (cfg : GpioConfig) (h : Handler) (i : Interrupt) (d : State) :
    interrupt cfg h i (whole d) =
      (whole (interrupt cfg h i d).1, (interrupt cfg h i d).2) := by
  simp only [interrupt, whole]
  cases irqHandler h cfg (d.statics h) i <;> rfl

theorem interrupt_frame (cfg : GpioConfig) (h : Handler) (i : Interrupt) (d : State) :
    (interrupt cfg h i d).1.eventBulkDataMtx = d.eventBulkDataMtx ∧
      (interrupt cfg h i d).1.worker = d.worker := by
  unfold interrupt
  cases irqHandler h cfg (d.statics h) i <;> exact ⟨rfl, rfl⟩

theorem whole_afterTake (d : State) (x : CircularBufferPow2 × Outcome)
    (hpc : d.worker.locked = false) : afterTake (whole d) x = whole (afterTake d x) := by
  rcases x with ⟨r, _ | _ | _ | _⟩ <;> simp only [afterTake, whole, hpc] <;> rfl

/-- The worker's steps are the same at both levels; the pipeline finds the mutex free. -/
theorem whole_doWork (h : doWork d = some (d', seen)) :
    doWork (whole d) = some (whole d', seen) := by
  cases hpc : d.worker with
  | idle => simp [doWork, hpc] at h
  | taking pc =>
    simp only [doWork, hpc] at h
    obtain ⟨rfl, rfl⟩ := Prod.mk.inj (Option.some.inj h)
    have htake := whole_afterTake d (consume d.captureEventBuffer pc) (by rw [hpc]; rfl)
    simp only [doWork, whole, hpc] at htake ⊢
    rw [htake]
  | lock event =>
    simp only [doWork, hpc] at h
    split_ifs at h
    obtain ⟨rfl, rfl⟩ := Prod.mk.inj (Option.some.inj h)
    simp [doWork, whole, hpc, WorkerPc.locked]
  | testSpace event =>
    simp only [doWork, hpc] at h
    split_ifs at h with hroom <;> obtain ⟨rfl, rfl⟩ := Prod.mk.inj (Option.some.inj h) <;>
      simp [doWork, whole, hpc, hroom, WorkerPc.locked]
  | pushRecord event =>
    simp only [doWork, hpc] at h
    split_ifs at h with hret <;> obtain ⟨rfl, rfl⟩ := Prod.mk.inj (Option.some.inj h) <;>
      simp [doWork, whole, hpc, hret, WorkerPc.locked]
  | wake =>
    simp only [doWork, hpc] at h
    obtain ⟨rfl, rfl⟩ := Prod.mk.inj (Option.some.inj h)
    simp [doWork, whole, hpc, WorkerPc.locked]
  | unlock =>
    simp only [doWork, hpc] at h
    obtain ⟨rfl, rfl⟩ := Prod.mk.inj (Option.some.inj h)
    simp [doWork, whole, hpc, WorkerPc.locked]
  | leaving =>
    simp only [doWork, hpc] at h
    obtain ⟨rfl, rfl⟩ := Prod.mk.inj (Option.some.inj h)
    simp [doWork, whole, hpc, WorkerPc.locked]

theorem whole_read (cfg : GpioConfig) (copyToUser : ℕ → Bool) (count : SizeT)
    (hfree : d.worker.locked = false) :
    pipeline cfg (whole d) (.read copyToUser count) =
      some (whole { d with eventBulkDataBuffer :=
              (gpioOledIrqRead copyToUser count d.eventBulkDataBuffer).ring },
        [.read count (gpioOledIrqRead copyToUser count d.eventBulkDataBuffer).bytesRead
          (gpioOledIrqRead copyToUser count d.eventBulkDataBuffer).records]) := by
  have hmtx : (whole d).eventBulkDataMtx = false := hfree
  rw [pipeline, if_neg (by simp [hmtx])]
  rfl

theorem whole_ioctl (cmd : BitVec 32) (d : State) :
    gpioIrqIoctl cmd (whole d) =
      (whole (gpioIrqIoctl cmd d).1, (gpioIrqIoctl cmd d).2) ∧
    (gpioIrqIoctl cmd d).2.flatMap eventView = [] := by
  unfold gpioIrqIoctl
  split_ifs <;> exact ⟨rfl, rfl⟩

end Whole

section Mutex

variable {s s' : Callers ι} {t : ι} {pc : ThreadPc} {seen : List Seen}

theorem MutexHeld.same (h : MutexHeld s) (hthread : ∀ t, (s'.thread t).locked = (s.thread t).locked)
    (hmtx : s'.driver.eventBulkDataMtx = s.driver.eventBulkDataMtx)
    (hworker : s'.driver.worker.locked = s.driver.worker.locked) : MutexHeld s' := by
  refine ⟨?_, ?_, ?_⟩
  · simp only [hthread, hmtx, hworker]
    exact h.holder
  · simp only [hthread, hmtx, hworker]
    exact h.worker
  · simp only [hthread, hmtx]
    exact h.thread

theorem MutexHeld.free (h : MutexHeld s) (hfree : s.driver.eventBulkDataMtx = false) :
    s.driver.worker.locked = false ∧ ∀ t, (s.thread t).locked = false := by
  refine ⟨Bool.eq_false_iff.mpr fun hlocked => ?_, fun t => Bool.eq_false_iff.mpr fun hlocked => ?_⟩
  · rw [(h.worker hlocked).1] at hfree
    cases hfree
  · rw [(h.thread t hlocked).1] at hfree
    cases hfree

theorem MutexHeld.worker_free (h : MutexHeld s) (hlocked : (s.thread t).locked = true) :
    s.driver.worker.locked = false := by
  refine Bool.eq_false_iff.mpr fun hworker => ?_
  rw [(h.worker hworker).2 t] at hlocked
  cases hlocked

theorem MutexHeld.alone [DecidableEq ι]
    (hothers : ∀ t' ≠ t, (s.thread t').locked = false) (hfree : s.driver.worker.locked = false)
    (hthread : s'.thread = Function.update s.thread t pc)
    (hworker : s'.driver.worker = s.driver.worker)
    (hmtx : s'.driver.eventBulkDataMtx = pc.locked) : MutexHeld s' := by
  have hself : s'.thread t = pc := by rw [hthread, Function.update_self]
  have hrest (t' : ι) (hne : t' ≠ t) : (s'.thread t').locked = false := by
    rw [hthread, Function.update_of_ne hne]
    exact hothers t' hne
  have howner (t' : ι) (hlocked : (s'.thread t').locked = true) : t' = t := by
    by_contra hne
    rw [hrest t' hne] at hlocked
    cases hlocked
  refine ⟨fun hheld => Or.inr ⟨t, ?_⟩, fun hlocked => ?_, fun t' hlocked => ⟨?_, ?_⟩⟩
  · rw [hself, ← hmtx]
    exact hheld
  · rw [hworker, hfree] at hlocked
    cases hlocked
  · rw [howner t' hlocked, hself] at hlocked
    rw [hmtx]
    exact hlocked
  · exact fun t'' hlocked' => (howner t'' hlocked').trans (howner t' hlocked).symm

/-- The worker's `mutex_lock` waits for the callers, and theirs for the worker. -/
theorem MutexHeld.doWork (h : MutexHeld s) {d : State} (hs : doWork s.driver = some (d, seen)) :
    MutexHeld { s with driver := d } := by
  cases hpc : s.driver.worker with
  | idle => simp [Oled.doWork, hpc] at hs
  | taking pc =>
    simp only [Oled.doWork, hpc] at hs
    obtain ⟨rfl, -⟩ := Prod.mk.inj (Option.some.inj hs)
    refine h.same (fun _ => rfl) ?_ ?_ <;>
      rcases consume s.driver.captureEventBuffer pc with ⟨r, _ | _ | _ | _⟩ <;>
        simp [afterTake, hpc, WorkerPc.locked]
  | lock event =>
    simp only [Oled.doWork, hpc] at hs
    split_ifs at hs with hfree
    obtain ⟨rfl, -⟩ := Prod.mk.inj (Option.some.inj hs)
    have hnobody := (h.free (by simpa using hfree)).2
    refine ⟨fun _ => Or.inl rfl, fun _ => ⟨rfl, hnobody⟩, fun t hlocked => ?_⟩
    rw [hnobody t] at hlocked
    cases hlocked
  | testSpace event =>
    simp only [Oled.doWork, hpc] at hs
    split_ifs at hs <;> obtain ⟨rfl, -⟩ := Prod.mk.inj (Option.some.inj hs) <;>
      exact h.same (fun _ => rfl) rfl (by rw [hpc]; rfl)
  | pushRecord event =>
    simp only [Oled.doWork, hpc] at hs
    split_ifs at hs <;> obtain ⟨rfl, -⟩ := Prod.mk.inj (Option.some.inj hs) <;>
      exact h.same (fun _ => rfl) rfl (by rw [hpc]; rfl)
  | wake =>
    simp only [Oled.doWork, hpc] at hs
    obtain ⟨rfl, -⟩ := Prod.mk.inj (Option.some.inj hs)
    exact h.same (fun _ => rfl) rfl (by rw [hpc]; rfl)
  | unlock =>
    simp only [Oled.doWork, hpc] at hs
    obtain ⟨rfl, -⟩ := Prod.mk.inj (Option.some.inj hs)
    have hnobody := (h.worker (by rw [hpc]; rfl)).2
    refine ⟨by simp, by simp [WorkerPc.locked], fun t hlocked => ?_⟩
    rw [hnobody t] at hlocked
    cases hlocked
  | leaving =>
    simp only [Oled.doWork, hpc] at hs
    obtain ⟨rfl, -⟩ := Prod.mk.inj (Option.some.inj hs)
    exact h.same (fun _ => rfl) rfl (by rw [hpc]; rfl)

def ofDriver : Oled.Action → Prop
  | .interrupt _ _ | .scheduleWork | .startWork | .work => True
  | _ => False

theorem whole_event {cfg : GpioConfig} {a : Oled.Action} {d : State} (h : MutexHeld s)
    (ha : ofDriver a) (hs : pipeline cfg s.driver a = some (d, seen)) :
    MutexHeld { s with driver := d } ∧ pipeline cfg (whole s.driver) a = some (whole d, seen) := by
  cases a with
  | interrupt hd i =>
    obtain ⟨rfl, rfl⟩ := Prod.mk.inj (Option.some.inj hs)
    obtain ⟨hmtx, hworker⟩ := interrupt_frame cfg hd i s.driver
    exact ⟨h.same (fun _ => rfl) hmtx (congrArg _ hworker),
      congrArg some (whole_interrupt cfg hd i s.driver)⟩
  | scheduleWork =>
    simp only [pipeline] at hs
    split_ifs at hs with hnone
    obtain ⟨rfl, rfl⟩ := Prod.mk.inj (Option.some.inj hs)
    refine ⟨h.same (fun _ => rfl) rfl rfl, ?_⟩
    simp [pipeline, whole, hnone]
  | startWork =>
    simp only [pipeline] at hs
    split_ifs at hs with hready
    obtain ⟨rfl, rfl⟩ := Prod.mk.inj (Option.some.inj hs)
    refine ⟨h.same (fun _ => rfl) rfl (by rw [hready.2]; rfl), ?_⟩
    simp [pipeline, whole, hready, WorkerPc.locked]
  | work => exact ⟨h.doWork hs, whole_doWork hs⟩
  | read | poll | ioctl => cases ha

end Mutex

section Refinement

variable [DecidableEq ι] {s s' : Callers ι} {t : ι} {pc : ThreadPc} {seen : List Seen}

/-- What one step does to the mutex, and the run of the pipeline that shows the same. -/
def Answered (cfg : GpioConfig) (s s' : Callers ι) (seen : List Seen) : Prop :=
  MutexHeld s' ∧ ∃ seen', Reaches (pipeline cfg) (whole s.driver) (whole s'.driver) seen' ∧
    seen'.flatMap eventView = seen.flatMap eventView

omit [DecidableEq ι] in
theorem answered_of_same {cfg : GpioConfig} (hmutex : MutexHeld s')
    (hdriver : whole s'.driver = whole s.driver) (hseen : seen.flatMap eventView = []) :
    Answered cfg s s' seen := by
  refine ⟨hmutex, [], ?_, hseen.symm⟩
  rw [hdriver]
  exact .start

theorem MutexHeld.moved (h : MutexHeld s) {d : State} {registered woken : ι → Bool}
    (hpc : pc.locked = (s.thread t).locked)
    (hmtx : d.eventBulkDataMtx = s.driver.eventBulkDataMtx)
    (hworker : d.worker = s.driver.worker) :
    MutexHeld ({ s with driver := d, registered, woken }.goto t pc) := by
  refine h.same (fun t' => ?_) hmtx (congrArg _ hworker)
  dsimp only [Callers.goto]
  rcases eq_or_ne t' t with rfl | hne
  · rw [Function.update_self, hpc]
  · rw [Function.update_of_ne hne]

theorem MutexHeld.goto (h : MutexHeld s) {registered woken : ι → Bool}
    (hpc : pc.locked = (s.thread t).locked) :
    MutexHeld ({ s with registered, woken }.goto t pc) :=
  h.moved hpc rfl rfl

theorem answered_mutexLock {cfg : GpioConfig} (h : MutexHeld s) (hpc : pc.locked = true)
    (hs : mutexLock t pc s = some (s', seen)) : Answered cfg s s' seen := by
  unfold mutexLock at hs
  split_ifs at hs with hfree
  obtain ⟨rfl, rfl⟩ := Prod.mk.inj (Option.some.inj hs)
  obtain ⟨hworker, hnobody⟩ := h.free (by simpa using hfree)
  exact answered_of_same (.alone (fun t' _ => hnobody t') hworker rfl rfl hpc.symm) rfl rfl

theorem answered_mutexUnlock {cfg : GpioConfig} (h : MutexHeld s)
    (hlocked : (s.thread t).locked = true) (hpc : pc.locked = false) :
    Answered cfg s (mutexUnlock t pc s) [] := by
  have hothers (t' : ι) (hne : t' ≠ t) : (s.thread t').locked = false :=
    Bool.eq_false_iff.mpr fun hlocked' => hne ((h.thread t hlocked).2 t' hlocked')
  exact answered_of_same (.alone hothers (h.worker_free hlocked) rfl rfl hpc.symm) rfl rfl

theorem answered_threadStep {cfg : GpioConfig} (h : MutexHeld s)
    (hs : threadStep t s = some (s', seen)) : Answered cfg s s' seen := by
  cases hpc : s.thread t with
  | idle => simp [threadStep, hpc] at hs
  | pollWait =>
    simp only [threadStep, hpc] at hs
    obtain ⟨rfl, rfl⟩ := Prod.mk.inj (Option.some.inj hs)
    exact answered_of_same (h.goto (by rw [hpc]; rfl)) rfl rfl
  | pollLock =>
    simp only [threadStep, hpc] at hs
    exact answered_mutexLock h rfl hs
  | pollCheck =>
    simp only [threadStep, hpc] at hs
    obtain ⟨rfl, rfl⟩ := Prod.mk.inj (Option.some.inj hs)
    exact answered_of_same (h.goto (by rw [hpc]; rfl)) rfl rfl
  | pollUnlock mask =>
    simp only [threadStep, hpc] at hs
    obtain ⟨rfl, rfl⟩ := Prod.mk.inj (Option.some.inj hs)
    exact answered_mutexUnlock h (by rw [hpc]; rfl) rfl
  | pollReturn mask =>
    simp only [threadStep, hpc] at hs
    split_ifs at hs <;> obtain ⟨rfl, rfl⟩ := Prod.mk.inj (Option.some.inj hs) <;>
      exact answered_of_same (h.goto (by rw [hpc]; rfl)) rfl rfl
  | asleep =>
    simp only [threadStep, hpc] at hs
    split_ifs at hs
    obtain ⟨rfl, rfl⟩ := Prod.mk.inj (Option.some.inj hs)
    exact answered_of_same (h.goto (by rw [hpc]; rfl)) rfl rfl
  | readLock copyToUser count =>
    simp only [threadStep, hpc] at hs
    split_ifs at hs with hcount
    · exact answered_mutexLock h rfl hs
    · obtain ⟨rfl, rfl⟩ := Prod.mk.inj (Option.some.inj hs)
      exact answered_of_same (h.goto (by rw [hpc]; rfl)) rfl (eventView_wrong hcount _)
  | readLoop copyToUser count =>
    -- the point at which the read takes effect
    simp only [threadStep, hpc] at hs
    obtain ⟨rfl, rfl⟩ := Prod.mk.inj (Option.some.inj hs)
    have hlocked : (s.thread t).locked = true := by rw [hpc]; rfl
    have hread := whole_read cfg copyToUser count (h.worker_free hlocked)
    exact ⟨h.moved (by rw [hpc]; rfl) rfl rfl, _, Reaches.single hread, rfl⟩
  | readUnlock =>
    simp only [threadStep, hpc] at hs
    obtain ⟨rfl, rfl⟩ := Prod.mk.inj (Option.some.inj hs)
    exact answered_mutexUnlock h (by rw [hpc]; rfl) rfl
  | wakeUp =>
    simp only [threadStep, hpc] at hs
    obtain ⟨rfl, rfl⟩ := Prod.mk.inj (Option.some.inj hs)
    exact answered_of_same (h.goto (by rw [hpc]; rfl)) rfl rfl

theorem answered_enter {cfg : GpioConfig} (h : MutexHeld s) (hpc : s.thread t = .idle)
    (c : Syscall) : Answered cfg s (enter t s c) [] := by
  cases c with
  | poll => exact answered_of_same (h.goto (by rw [hpc]; rfl)) rfl rfl
  | read copyToUser count => exact answered_of_same (h.goto (by rw [hpc]; rfl)) rfl rfl
  | ioctl cmd =>
    obtain ⟨hioctl, hview⟩ := whole_ioctl cmd s.driver
    have hstep : pipeline cfg (whole s.driver) (.ioctl cmd) =
        some (whole (gpioIrqIoctl cmd s.driver).1, (gpioIrqIoctl cmd s.driver).2) :=
      congrArg some hioctl
    refine ⟨h.moved ?_ ?_ ?_, _, Reaches.single hstep, hview⟩
    · rw [hpc]
      split_ifs <;> rfl
    · unfold gpioIrqIoctl
      split_ifs <;> rfl
    · unfold gpioIrqIoctl
      split_ifs <;> rfl

omit [DecidableEq ι] in
theorem answered_onDriver {cfg : GpioConfig} {a : Oled.Action} (h : MutexHeld s)
    (ha : ofDriver a) (hs : onDriver cfg a s = some (s', seen)) : Answered cfg s s' seen := by
  unfold Wakeup.onDriver at hs
  cases hd : pipeline cfg s.driver a with
  | none => simp [hd] at hs
  | some out =>
    obtain ⟨d, seen'⟩ := out
    obtain ⟨hmutex, hstep⟩ := whole_event h ha hd
    simp only [hd] at hs
    split_ifs at hs <;> obtain ⟨rfl, rfl⟩ := Prod.mk.inj (Option.some.inj hs)
    · exact ⟨hmutex.same (fun _ => rfl) rfl rfl, _, Reaches.single hstep, rfl⟩
    · exact ⟨hmutex, _, Reaches.single hstep, rfl⟩

theorem answered_step {cfg : GpioConfig} {a : Action ι} (h : MutexHeld s)
    (hs : callers cfg s a = some (s', seen)) : Answered cfg s s' seen := by
  cases a with
  | interrupt hd i => exact answered_onDriver (a := .interrupt hd i) h trivial hs
  | scheduleWork => exact answered_onDriver (a := .scheduleWork) h trivial hs
  | startWork => exact answered_onDriver (a := .startWork) h trivial hs
  | work => exact answered_onDriver (a := .work) h trivial hs
  | call t c =>
    simp only [callers] at hs
    cases hpc : s.thread t <;> simp only [hpc, reduceCtorEq] at hs
    obtain ⟨rfl, rfl⟩ := Prod.mk.inj (Option.some.inj hs)
    exact answered_enter h hpc c
  | run t => exact answered_threadStep h hs

omit [DecidableEq ι] in
theorem mutexHeld_opened {kmalloc kmalloc' : SizeT → Option Mem} {s₀ : State}
    (hinit : gpioOledIrqInit kmalloc kmalloc' loaded = (0, s₀)) :
    MutexHeld (ι := ι) (opened s₀) ∧ whole s₀ = s₀ := by
  have hinv := inv_init hinit
  have hidle : s₀.worker = .idle := by
    simp only [gpioOledIrqInit] at hinit
    split_ifs at hinit with hcap hbulk
    · obtain ⟨-, rfl⟩ := Prod.mk.inj hinit
      rfl
    · exact absurd (Prod.mk.inj hinit).1 hbulk
    · exact absurd (Prod.mk.inj hinit).1 hcap
  have hmtx : s₀.eventBulkDataMtx = false := by rw [hinv.mtx, hidle]; rfl
  refine ⟨⟨fun hheld => ?_, fun hlocked => ?_, fun t hlocked => ?_⟩, ?_⟩
  · rw [opened, hmtx] at hheld
    cases hheld
  · rw [opened, hidle] at hlocked
    cases hlocked
  · cases hlocked
  · rw [whole, ← hinv.mtx]

/-- Each run with callers is answered by a run with whole reads. -/
theorem answered_of_reaches {cfg : GpioConfig} {kmalloc kmalloc' : SizeT → Option Mem} {s₀ : State}
    {tr : List Seen} (hinit : gpioOledIrqInit kmalloc kmalloc' loaded = (0, s₀))
    (h : Reaches (callers cfg) (opened s₀) s tr) :
    MutexHeld s ∧ ∃ tr', Reaches (pipeline cfg) s₀ (whole s.driver) tr' ∧
      tr'.flatMap eventView = tr.flatMap eventView := by
  obtain ⟨hopened, hwhole⟩ := mutexHeld_opened (ι := ι) hinit
  have hstep (s : Callers ι) (d : State) (a : Action ι) (s' : Callers ι) (seen : List Seen)
      (hR : MutexHeld s ∧ d = whole s.driver) (hs : callers cfg s a = some (s', seen)) :
      ∃ d' seen', Reaches (pipeline cfg) d d' seen' ∧ (MutexHeld s' ∧ d' = whole s'.driver) ∧
        seen'.flatMap eventView = seen.flatMap eventView := by
    obtain ⟨hmutex, rfl⟩ := hR
    obtain ⟨hmutex', seen', hreach, hview⟩ := answered_step hmutex hs
    exact ⟨_, seen', hreach, ⟨hmutex', rfl⟩, hview⟩
  obtain ⟨d, tr', hreach, ⟨hmutex, rfl⟩, hview⟩ := h.simulate hstep ⟨hopened, hwhole.symm⟩
  exact ⟨hmutex, tr', hreach, hview⟩

/-- What holds of the events and reads under any number of concurrent callers: the run of the
pipeline that takes each read at one point, and from it that no event goes missing or comes
twice. -/
structure Concurrent (cfg : GpioConfig) (s₀ : State) (s : Callers ι) (tr : List Seen) : Prop where
  mutex : MutexHeld s
  run : ∃ tr', Reaches (pipeline cfg) s₀ (whole s.driver) tr' ∧
    tr'.flatMap eventView = tr.flatMap eventView
  conserved : (captured tr).length = (size s.driver.captureEventBuffer).toNat +
    s.driver.worker.inHand.length + (size s.driver.eventBulkDataBuffer).toNat +
      (removed tr).length + (dropped tr).length
  inOrder : removed tr <+: forwarded tr
  full : ∀ o ∈ tr, o.atFullRing

/-- For any number of callers and any interleaving of their steps with the interrupts and with
`do_work`. -/
theorem concurrent_calls (cfg : GpioConfig) (kmalloc kmalloc' : SizeT → Option Mem)
    (s₀ : State) (tr : List Seen) (hinit : gpioOledIrqInit kmalloc kmalloc' loaded = (0, s₀))
    (h : Reaches (callers cfg) (opened s₀) s tr) : Concurrent cfg s₀ s tr := by
  obtain ⟨hmutex, tr', hreach, hview⟩ := answered_of_reaches hinit h
  obtain ⟨l, hi⟩ := inv_of_reaches hinit hreach
  have ha := hi.accounts
  have hcaptured : captured tr = captured tr' := by
    rw [← captured_view tr, ← hview, captured_view]
  have hdropped : dropped tr = dropped tr' := by rw [← dropped_view tr, ← hview, dropped_view]
  have hremoved : removed tr = removed tr' := by rw [← removed_view tr, ← hview, removed_view]
  have hforwarded : forwarded tr = forwarded tr' := by
    rw [← forwarded_view tr, ← hview, forwarded_view]
  refine ⟨hmutex, ⟨tr', hreach, hview⟩, ?_, ?_, full_of_view (hview ▸ full_view ha.full)⟩
  · have hsettled := ha.settled_perm.length_eq
    have hdrops : (dropped tr').length = l.dropped.length := by
      rw [ha.dropped_eq, List.length_map, Ledger.dropped]
    have hcapture := size_spec hi.capture
    have hbulk := size_spec hi.bulk
    have hhand := congrArg List.length hi.inHand
    rw [hcaptured, hremoved, hdropped, ha.captured_eq, ha.removed_eq, hdrops]
    simp only [whole, List.length_append, List.length_map] at hsettled hcapture hbulk hhand ⊢
    omega
  · rw [hremoved, hforwarded, ha.removed_eq, ha.forwarded_eq, List.map_append]
    exact List.prefix_append _ _

/-- A press is forwarded and two callers read at the same time; one of them gets the record. -/
theorem concurrent_calls_two_reads : ∃ s tr,
    exec (callers boardConfig) (opened started)
      ([Action.interrupt .gpioBtn5 default, .scheduleWork, .startWork] ++
        List.replicate 15 Action.work ++
        [Action.call true (.read (fun _ => true) 96#64),
          .call false (.read (fun _ => true) 96#64)] ++
        List.replicate 3 (Action.run true) ++ List.replicate 3 (Action.run false)) = some (s, tr) ∧
    (removed tr).length = 1 ∧ Concurrent boardConfig started s tr := by
  have hrun : exec (callers boardConfig) (opened started)
      ([Action.interrupt .gpioBtn5 default, .scheduleWork, .startWork] ++
        List.replicate 15 Action.work ++
        [Action.call true (.read (fun _ => true) 96#64),
          .call false (.read (fun _ => true) 96#64)] ++
        List.replicate 3 (Action.run true) ++ List.replicate 3 (Action.run false)) =
          some (_, _) := rfl
  exact ⟨_, _, hrun, by decide +kernel, concurrent_calls boardConfig (fun _ => some null)
    (fun _ => some null) started _ rfl (Reaches.of_exec hrun)⟩

end Refinement

end LinuxOddsAndEnds.Oled.Wakeup
