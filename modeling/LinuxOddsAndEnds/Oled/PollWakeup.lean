import LinuxOddsAndEnds.Oled.EventDelivery

/-!
# Callers that sleep in poll

The pipeline together with its callers. A system call is cut where another party
may come between: `poll` into its entry on the wait queue, the lock, the check, the
unlock and the sleep; `read` into lock, loop and unlock; `IOCTL_RELEASE_POLL` into
the store to `poll_enabled`, which takes no lock, and the wake. The kernel's share is
that an entry on the queue stays until the call returns, that a wake marks every
entry whether its owner sleeps already or not, and that a marked caller polls again.
-/

namespace LinuxOddsAndEnds.Oled.Wakeup

open Foundation CircBufferPow2

inductive ThreadPc where
  | idle
  | pollWait
  | pollLock
  | pollCheck
  | pollUnlock (mask : BitVec 32)
  | pollReturn (mask : BitVec 32)
  | asleep
  | readLock (copyToUser : ℕ → Bool) (count : SizeT)
  | readLoop (copyToUser : ℕ → Bool) (count : SizeT)
  | readUnlock
  | wakeUp

/-- The driver and its callers; `woken` marks an entry whose wake is pending. -/
structure Callers (ι : Type*) where
  driver : State
  thread : ι → ThreadPc
  registered : ι → Bool
  woken : ι → Bool

inductive Syscall where
  | poll
  | read (copyToUser : ℕ → Bool) (count : SizeT)
  | ioctl (cmd : BitVec 32)

inductive Action (ι : Type*) where
  | interrupt (h : Handler) (i : Interrupt)
  | scheduleWork
  | startWork
  | work
  | call (t : ι) (c : Syscall)
  | run (t : ι)

variable {ι : Type*}

/-- `wake_up_interruptible` on `capture_event_waitqueue`. -/
def wakeUpInterruptible (s : Callers ι) : Callers ι :=
  { s with woken := fun t => s.woken t || s.registered t }

/-- A step of the interrupt side or of `do_work`; its wake reaches the queue. -/
def onDriver (cfg : GpioConfig) (a : Oled.Action) (s : Callers ι) :
    Option (Callers ι × List Seen) :=
  match pipeline cfg s.driver a with
  | none => none
  | some (d, seen) =>
    if Seen.woken ∈ seen then some (wakeUpInterruptible { s with driver := d }, seen)
    else some ({ s with driver := d }, seen)

variable [DecidableEq ι]

def Callers.goto (s : Callers ι) (t : ι) (pc : ThreadPc) : Callers ι :=
  { s with thread := Function.update s.thread t pc }

/-- The entry of a call. `IOCTL_RELEASE_POLL` has cleared `poll_enabled` and not yet
woken anybody. -/
def enter (t : ι) (s : Callers ι) : Syscall → Callers ι
  | .poll => s.goto t .pollWait
  | .read copyToUser count => s.goto t (.readLock copyToUser count)
  | .ioctl cmd =>
    { s with driver := (gpioIrqIoctl cmd s.driver).1 }.goto t
      (if cmd = ioctlReleasePoll then .wakeUp else .idle)

def mutexLock (t : ι) (pc : ThreadPc) (s : Callers ι) : Option (Callers ι × List Seen) :=
  if s.driver.eventBulkDataMtx then none
  else some ({ s with driver := { s.driver with eventBulkDataMtx := true } }.goto t pc, [])

def mutexUnlock (t : ι) (pc : ThreadPc) (s : Callers ι) : Callers ι :=
  { s with driver := { s.driver with eventBulkDataMtx := false } }.goto t pc

def threadStep (t : ι) (s : Callers ι) : Option (Callers ι × List Seen) :=
  match s.thread t with
  | .idle => none
  | .pollWait =>
    some ({ s with registered := Function.update s.registered t true }.goto t .pollLock, [])
  | .pollLock => mutexLock t .pollCheck s
  | .pollCheck => some (s.goto t (.pollUnlock (gpioOledIrqPoll s.driver)), [])
  | .pollUnlock mask => some (mutexUnlock t (.pollReturn mask) s, [])
  | .pollReturn mask =>
    if mask = 0 then some (s.goto t .asleep, [.polled mask])
    else
      some ({ s with registered := Function.update s.registered t false
                     woken := Function.update s.woken t false }.goto t .idle, [.polled mask])
  | .asleep =>
    if s.woken t then
      some ({ s with woken := Function.update s.woken t false }.goto t .pollWait, [])
    else none
  | .readLock copyToUser count =>
    if count.toNat % sizeofEventBulkData = 0 then mutexLock t (.readLoop copyToUser count) s
    else some (s.goto t .idle, [.read count (-eperm) []])
  | .readLoop copyToUser count =>
    some ({ s with driver := { s.driver with eventBulkDataBuffer :=
            (gpioOledIrqRead copyToUser count s.driver.eventBulkDataBuffer).ring } }.goto t
              .readUnlock,
      [.read count (gpioOledIrqRead copyToUser count s.driver.eventBulkDataBuffer).bytesRead
        (gpioOledIrqRead copyToUser count s.driver.eventBulkDataBuffer).records])
  | .readUnlock => some (mutexUnlock t .idle s, [])
  | .wakeUp => some ((wakeUpInterruptible s).goto t .idle, [.woken])

def callers (cfg : GpioConfig) : Machine (Callers ι) (Action ι) Seen
  | s, .interrupt h i => onDriver cfg (.interrupt h i) s
  | s, .scheduleWork => onDriver cfg .scheduleWork s
  | s, .startWork => onDriver cfg .startWork s
  | s, .work => onDriver cfg .work s
  | s, .call t c =>
    match s.thread t with
    | .idle => some (enter t s c, [])
    | _ => none
  | s, .run t => threadStep t s

/-- No call has been made yet. -/
def opened (driver : State) : Callers ι :=
  ⟨driver, fun _ => .idle, fun _ => false, fun _ => false⟩

def ThreadPc.queued : ThreadPc → Bool
  | .pollLock | .pollCheck | .pollUnlock _ | .pollReturn _ | .asleep => true
  | _ => false

/-- The caller has found nothing and will sleep. -/
def ThreadPc.committed : ThreadPc → Bool
  | .pollUnlock mask | .pollReturn mask => mask = 0
  | .asleep => true
  | _ => false

/-- Between a push and its wake, or between the store to `poll_enabled` and its wake. -/
def MidPair (s : Callers ι) : Prop := s.driver.worker = .wake ∨ ∃ t, s.thread t = .wakeUp

/-- Each of the two reasons to answer a poll is absent, or announced by a mark, or
about to be announced. -/
structure WakeInv (s : Callers ι) : Prop where
  queued : ∀ t, (s.thread t).queued = true → s.registered t = true
  data : ∀ t, (s.thread t).committed = true →
    empty s.driver.eventBulkDataBuffer = true ∨ s.woken t = true ∨ s.driver.worker = .wake
  flag : ∀ t, (s.thread t).committed = true →
    s.driver.pollEnabled = true ∨ s.woken t = true ∨ ∃ t', s.thread t' = .wakeUp

theorem queued_of_committed {pc : ThreadPc} (h : pc.committed = true) : pc.queued = true := by
  cases pc <;> first | rfl | cases h

theorem gpioOledIrqPoll_eq_zero {d : State} (h : gpioOledIrqPoll d = 0) :
    empty d.eventBulkDataBuffer = true ∧ d.pollEnabled = true := by
  unfold gpioOledIrqPoll at h
  split_ifs at h with he hp
  · exact absurd h (by decide)
  · exact absurd h (by decide)
  · exact ⟨by simpa using he, by simpa using hp⟩

theorem front_of_empty {r : CircularBufferPow2} (h : empty r = true) : front r = none := by
  have hcnt : circCnt r.head r.tail r.capacity = 0#64 := by
    rw [empty, beq_iff_eq] at h
    rw [circCnt, h, BitVec.sub_self]
    simp
  exact if_neg (not_not_intro hcnt)

theorem gpioOledIrqRead_empty (copyToUser : ℕ → Bool) (count : SizeT) {r : CircularBufferPow2}
    (h : empty r = true) : (gpioOledIrqRead copyToUser count r).ring = r := by
  unfold gpioOledIrqRead
  split_ifs
  · cases count.toNat / sizeofEventBulkData with
    | zero => rfl
    | succ n =>
      rw [readLoop, front_of_empty h]
      split_ifs <;> rfl
  · rfl

/-- What the interrupt side and `do_work` do to the two reasons: a record appears only
together with the worker's obligation to wake, which only the wake ends. -/
structure DriverStep (d d' : State) (seen : List Seen) : Prop where
  poll : d'.pollEnabled = d.pollEnabled
  ring : d'.eventBulkDataBuffer = d.eventBulkDataBuffer ∨ d'.worker = .wake
  wake : d.worker = .wake → Seen.woken ∈ seen ∨ d'.worker = .wake

theorem driverStep_interrupt (cfg : GpioConfig) (h : Handler) (i : Interrupt) (d : State) :
    DriverStep d (interrupt cfg h i d).1 (interrupt cfg h i d).2 := by
  unfold interrupt
  cases irqHandler h cfg (d.statics h) i with
  | none => exact ⟨rfl, Or.inl rfl, Or.inr⟩
  | some out => exact ⟨rfl, Or.inl rfl, Or.inr⟩

theorem push_rejected {r : CircularBufferPow2} {src : Mem} (h : (push r src).1 ≠ 0) :
    (push r src).2 = r := by
  unfold push at h ⊢
  split_ifs at h ⊢ with hs
  · exact absurd rfl h
  · rfl

theorem driverStep_doWork {d d' : State} {seen : List Seen} (h : doWork d = some (d', seen)) :
    DriverStep d d' seen := by
  cases hpc : d.worker with
  | idle => simp [doWork, hpc] at h
  | taking pc =>
    simp only [doWork, hpc] at h
    obtain ⟨rfl, rfl⟩ := by simpa using h
    rcases consume d.captureEventBuffer pc with ⟨r, _ | _ | _ | _⟩ <;>
      exact ⟨rfl, Or.inl rfl, fun hw => by simp [hpc] at hw⟩
  | lock event =>
    simp only [doWork, hpc] at h
    split_ifs at h
    obtain ⟨rfl, rfl⟩ := by simpa using h
    exact ⟨rfl, Or.inl rfl, fun hw => by simp [hpc] at hw⟩
  | testSpace event =>
    simp only [doWork, hpc] at h
    split_ifs at h <;> obtain ⟨rfl, rfl⟩ := by simpa using h
    all_goals exact ⟨rfl, Or.inl rfl, fun hw => by simp [hpc] at hw⟩
  | pushRecord event =>
    simp only [doWork, hpc] at h
    split_ifs at h with hret <;> obtain ⟨rfl, rfl⟩ := by simpa using h
    · exact ⟨rfl, Or.inr rfl, fun _ => Or.inr rfl⟩
    · exact ⟨rfl, Or.inl (push_rejected hret), fun hw => by simp [hpc] at hw⟩
  | wake =>
    simp only [doWork, hpc] at h
    obtain ⟨rfl, rfl⟩ := by simpa using h
    exact ⟨rfl, Or.inl rfl, fun _ => Or.inl (List.mem_singleton_self _)⟩
  | unlock =>
    simp only [doWork, hpc] at h
    obtain ⟨rfl, rfl⟩ := by simpa using h
    exact ⟨rfl, Or.inl rfl, fun hw => by simp [hpc] at hw⟩
  | leaving =>
    simp only [doWork, hpc] at h
    obtain ⟨rfl, rfl⟩ := by simpa using h
    exact ⟨rfl, Or.inl rfl, fun hw => by simp [hpc] at hw⟩

section Wakes

variable {ι : Type*} {s s' : Callers ι} {seen : List Seen}

theorem WakeInv.of_woken (hq : ∀ t, (s.thread t).queued = true → s.registered t = true)
    (hw : ∀ t, (s.thread t).queued = true → s.woken t = true) : WakeInv s :=
  ⟨hq, fun t hc => Or.inr (Or.inl (hw t (queued_of_committed hc))),
    fun t hc => Or.inr (Or.inl (hw t (queued_of_committed hc)))⟩

theorem woken_of_registered (h : ∀ t, (s.thread t).queued = true → s.registered t = true) (t : ι)
    (hq : (s.thread t).queued = true) : (wakeUpInterruptible s).woken t = true := by
  simp only [wakeUpInterruptible, h t hq, Bool.or_true]

theorem WakeInv.driver (h : WakeInv s) {d : State} (hd : DriverStep s.driver d seen)
    (hseen : Seen.woken ∉ seen) : WakeInv { s with driver := d } := by
  refine ⟨h.queued, ?_, ?_⟩
  · intro t hc
    rcases h.data t hc with he | hw | hp
    · rcases hd.ring with hr | hr
      · exact Or.inl (hr ▸ he)
      · exact Or.inr (Or.inr hr)
    · exact Or.inr (Or.inl hw)
    · exact Or.inr (Or.inr ((hd.wake hp).resolve_left hseen))
  · intro t hc
    dsimp only
    rw [hd.poll]
    exact h.flag t hc

theorem WakeInv.onDriver {cfg : GpioConfig} {a : Oled.Action} (h : WakeInv s)
    (hstep : ∀ d seen, pipeline cfg s.driver a = some (d, seen) → DriverStep s.driver d seen)
    (hs : onDriver cfg a s = some (s', seen)) : WakeInv s' := by
  unfold Wakeup.onDriver at hs
  split at hs
  · simp at hs
  · next d seen' hd =>
    split_ifs at hs with hw <;> obtain ⟨rfl, rfl⟩ := by simpa using hs
    · exact .of_woken h.queued (woken_of_registered (s := { s with driver := d }) h.queued)
    · exact h.driver (hstep d _ hd) hw

end Wakes

section Steps

variable {s s' : Callers ι} {t : ι} {seen : List Seen}

/-- A step of one caller that announces nothing: it keeps an empty ring empty, touches
no other caller's entry, and its own promises hold afterwards. -/
theorem WakeInv.thread (h : WakeInv s) {pc : ThreadPc} {d : State} {registered woken : ι → Bool}
    (hpc : s.thread t ≠ .wakeUp)
    (hring : empty s.driver.eventBulkDataBuffer = true → empty d.eventBulkDataBuffer = true)
    (hpoll : d.pollEnabled = s.driver.pollEnabled) (hworker : d.worker = s.driver.worker)
    (hreg : ∀ t' ≠ t, registered t' = s.registered t') (hwoken : ∀ t' ≠ t, woken t' = s.woken t')
    (hown : pc.queued = true → registered t = true)
    (hdata : pc.committed = true → empty d.eventBulkDataBuffer = true ∨ woken t = true ∨
      d.worker = .wake)
    (hflag : pc.committed = true → d.pollEnabled = true ∨ woken t = true ∨
      ∃ t', s.thread t' = .wakeUp) :
    WakeInv ({ s with driver := d, registered := registered, woken := woken }.goto t pc) := by
  have hother : ∀ t' ≠ t, Function.update s.thread t pc t' = s.thread t' :=
    fun t' ht => Function.update_of_ne ht _ _
  have hwaker : (∃ t', s.thread t' = .wakeUp) →
      ∃ t', Function.update s.thread t pc t' = .wakeUp := by
    rintro ⟨t', ht'⟩
    have hne : t' ≠ t := by
      rintro rfl
      exact hpc ht'
    exact ⟨t', (hother t' hne).trans ht'⟩
  refine ⟨?_, ?_, ?_⟩
  · intro t'
    dsimp only [Callers.goto]
    rcases eq_or_ne t' t with rfl | hne
    · rw [Function.update_self]
      exact hown
    · rw [hother t' hne, hreg t' hne]
      exact h.queued t'
  · intro t'
    dsimp only [Callers.goto]
    rcases eq_or_ne t' t with rfl | hne
    · rw [Function.update_self]
      exact hdata
    · rw [hother t' hne, hwoken t' hne, hworker]
      intro hc
      exact (h.data t' hc).imp_left hring
  · intro t'
    dsimp only [Callers.goto]
    rcases eq_or_ne t' t with rfl | hne
    · rw [Function.update_self]
      intro hc
      exact (hflag hc).imp_right (Or.imp_right hwaker)
    · rw [hother t' hne, hwoken t' hne, hpoll]
      intro hc
      exact (h.flag t' hc).imp_right (Or.imp_right hwaker)

theorem WakeInv.move (h : WakeInv s) {pc : ThreadPc} {d : State} (hpc : s.thread t ≠ .wakeUp)
    (hring : empty s.driver.eventBulkDataBuffer = true → empty d.eventBulkDataBuffer = true)
    (hpoll : d.pollEnabled = s.driver.pollEnabled) (hworker : d.worker = s.driver.worker)
    (hq : pc.queued = true → (s.thread t).queued = true) (hc : pc.committed = false) :
    WakeInv ({ s with driver := d }.goto t pc) :=
  h.thread hpc hring hpoll hworker (fun _ _ => rfl) (fun _ _ => rfl)
    (fun hpq => h.queued t (hq hpq)) (fun h' => by simp [hc] at h') (fun h' => by simp [hc] at h')

theorem WakeInv.keep (h : WakeInv s) {pc : ThreadPc} {d : State} (hpc : s.thread t ≠ .wakeUp)
    (hring : d.eventBulkDataBuffer = s.driver.eventBulkDataBuffer)
    (hpoll : d.pollEnabled = s.driver.pollEnabled) (hworker : d.worker = s.driver.worker)
    (hq : (s.thread t).queued = true)
    (hc : pc.committed = true → (s.thread t).committed = true) :
    WakeInv ({ s with driver := d }.goto t pc) :=
  h.thread hpc (fun he => hring ▸ he) hpoll hworker (fun _ _ => rfl) (fun _ _ => rfl)
    (fun _ => h.queued t hq)
    (fun h' => by rw [hring, hworker]; exact h.data t (hc h'))
    (fun h' => by rw [hpoll]; exact h.flag t (hc h'))

theorem WakeInv.lock (h : WakeInv s) {pc : ThreadPc} (hpc : s.thread t ≠ .wakeUp)
    (hq : pc.queued = true → (s.thread t).queued = true) (hc : pc.committed = false)
    (hs : mutexLock t pc s = some (s', seen)) : WakeInv s' := by
  unfold mutexLock at hs
  split_ifs at hs
  obtain ⟨rfl, rfl⟩ := by simpa using hs
  exact h.move hpc id rfl rfl hq hc

theorem WakeInv.threadStep (h : WakeInv s) (hs : threadStep t s = some (s', seen)) :
    WakeInv s' := by
  cases hpc : s.thread t with
  | idle => simp [Wakeup.threadStep, hpc] at hs
  | pollWait =>
    simp only [Wakeup.threadStep, hpc] at hs
    obtain ⟨rfl, rfl⟩ := by simpa using hs
    exact h.thread (by simp [hpc]) id rfl rfl (fun _ ht => Function.update_of_ne ht _ _)
      (fun _ _ => rfl) (fun _ => Function.update_self _ _ _) nofun nofun
  | pollLock =>
    simp only [Wakeup.threadStep, hpc] at hs
    exact h.lock (by simp [hpc]) (fun _ => by rw [hpc]; rfl) rfl hs
  | pollCheck =>
    simp only [Wakeup.threadStep, hpc] at hs
    obtain ⟨rfl, rfl⟩ := by simpa using hs
    have hpoll : gpioOledIrqPoll s.driver = 0 → _ := gpioOledIrqPoll_eq_zero
    refine h.thread (by simp [hpc]) id rfl rfl (fun _ _ => rfl) (fun _ _ => rfl)
      (fun _ => h.queued t (by rw [hpc]; rfl)) ?_ ?_
    · intro hc
      exact Or.inl (hpoll (by simpa [ThreadPc.committed] using hc)).1
    · intro hc
      exact Or.inl (hpoll (by simpa [ThreadPc.committed] using hc)).2
  | pollUnlock mask =>
    simp only [Wakeup.threadStep, hpc] at hs
    obtain ⟨rfl, rfl⟩ := by simpa using hs
    exact h.keep (by simp [hpc]) rfl rfl rfl (by rw [hpc]; rfl) (by rw [hpc]; exact id)
  | pollReturn mask =>
    simp only [Wakeup.threadStep, hpc] at hs
    split_ifs at hs with hmask <;> obtain ⟨rfl, rfl⟩ := by simpa using hs
    · refine h.keep (by simp [hpc]) rfl rfl rfl (by rw [hpc]; rfl) ?_
      rw [hpc]
      simp [ThreadPc.committed, hmask]
    · exact h.thread (by simp [hpc]) id rfl rfl (fun _ ht => Function.update_of_ne ht _ _)
        (fun _ ht => Function.update_of_ne ht _ _) nofun nofun nofun
  | asleep =>
    simp only [Wakeup.threadStep, hpc] at hs
    split_ifs at hs
    obtain ⟨rfl, rfl⟩ := by simpa using hs
    exact h.thread (by simp [hpc]) id rfl rfl (fun _ _ => rfl)
      (fun _ ht => Function.update_of_ne ht _ _) nofun nofun nofun
  | readLock copyToUser count =>
    simp only [Wakeup.threadStep, hpc] at hs
    split_ifs at hs
    · exact h.lock (by simp [hpc]) (fun hq => by cases hq) rfl hs
    · obtain ⟨rfl, rfl⟩ := by simpa using hs
      exact h.move (by simp [hpc]) id rfl rfl nofun rfl
  | readLoop copyToUser count =>
    simp only [Wakeup.threadStep, hpc] at hs
    obtain ⟨rfl, rfl⟩ := by simpa using hs
    refine h.move (by simp [hpc]) ?_ rfl rfl nofun rfl
    intro he
    dsimp only
    rw [gpioOledIrqRead_empty _ _ he]
    exact he
  | readUnlock =>
    simp only [Wakeup.threadStep, hpc] at hs
    obtain ⟨rfl, rfl⟩ := by simpa using hs
    exact h.move (by simp [hpc]) id rfl rfl nofun rfl
  | wakeUp =>
    simp only [Wakeup.threadStep, hpc] at hs
    obtain ⟨rfl, rfl⟩ := by simpa using hs
    have hq : ∀ t', (Function.update s.thread t .idle t').queued = true →
        (s.thread t').queued = true := by
      intro t' hq
      rcases eq_or_ne t' t with rfl | hne
      · rw [Function.update_self] at hq
        cases hq
      · rwa [Function.update_of_ne hne] at hq
    exact .of_woken (fun t' hq' => h.queued t' (hq t' hq'))
      (fun t' hq' => woken_of_registered h.queued t' (hq t' hq'))

/-- The entry of a call promises nothing; the store to `poll_enabled` is covered by the
wake that follows it. -/
theorem WakeInv.enter (h : WakeInv s) (hpc : s.thread t = .idle) (c : Syscall) :
    WakeInv (enter t s c) := by
  cases c with
  | poll => exact h.move (by simp [hpc]) id rfl rfl (by simp [ThreadPc.queued]) rfl
  | read copyToUser count => exact h.move (by simp [hpc]) id rfl rfl (by simp [ThreadPc.queued]) rfl
  | ioctl cmd =>
    simp only [Wakeup.enter, gpioIrqIoctl]
    split_ifs
    · have hother : ∀ t', (Function.update s.thread t .wakeUp t').queued = true →
          Function.update s.thread t .wakeUp t' = s.thread t' := by
        intro t' hq
        rcases eq_or_ne t' t with rfl | hne
        · rw [Function.update_self] at hq
          cases hq
        · exact Function.update_of_ne hne _ _
      refine ⟨?_, ?_, ?_⟩
      · intro t' hq
        exact h.queued t' (hother t' hq ▸ hq)
      · intro t' hc
        exact h.data t' (hother t' (queued_of_committed hc) ▸ hc)
      · intro t' _
        exact Or.inr (Or.inr ⟨t, Function.update_self _ _ _⟩)
    · exact h.move (by simp [hpc]) id rfl rfl (by simp [ThreadPc.queued]) rfl

theorem WakeInv.step {cfg : GpioConfig} {a : Action ι} (h : WakeInv s)
    (hs : callers cfg s a = some (s', seen)) : WakeInv s' := by
  cases a with
  | interrupt hd i =>
    refine h.onDriver (a := .interrupt hd i) ?_ hs
    intro d seen hd'
    have hstep := driverStep_interrupt cfg hd i s.driver
    rwa [show interrupt cfg hd i s.driver = (d, seen) from Option.some.inj hd'] at hstep
  | scheduleWork =>
    refine h.onDriver (a := .scheduleWork) ?_ hs
    intro d seen hd
    simp only [pipeline] at hd
    split_ifs at hd
    obtain ⟨rfl, rfl⟩ := by simpa using hd
    exact ⟨rfl, Or.inl rfl, Or.inr⟩
  | startWork =>
    refine h.onDriver (a := .startWork) ?_ hs
    intro d seen hd
    simp only [pipeline] at hd
    split_ifs at hd with hidle
    obtain ⟨rfl, rfl⟩ := by simpa using hd
    exact ⟨rfl, Or.inl rfl, fun hw => by simp [hidle.2] at hw⟩
  | work => exact h.onDriver (a := .work) (fun _ _ hd => driverStep_doWork hd) hs
  | call t c =>
    simp only [callers] at hs
    split at hs
    · next hpc =>
      obtain ⟨rfl, rfl⟩ := by simpa using hs
      exact h.enter hpc c
    · simp at hs
  | run t => exact h.threadStep hs

end Steps

theorem wakeInv_of_reaches {cfg : GpioConfig} {driver : State} {s : Callers ι} {tr : List Seen}
    (h : Reaches (callers cfg) (opened driver) s tr) : WakeInv s := by
  induction h with
  | start => exact ⟨nofun, nofun, nofun⟩
  | next _ hs ih => exact ih.step hs

/-- No lost wake-up: outside the two pairs, a sleeping caller has nothing to wait for
that is not announced to it already. -/
theorem no_lost_wakeup (cfg : GpioConfig) (driver : State) (s : Callers ι) (tr : List Seen)
    (h : Reaches (callers cfg) (opened driver) s tr) (hpair : ¬MidPair s) (t : ι)
    (hsleep : s.thread t = .asleep) :
    (empty s.driver.eventBulkDataBuffer = true ∧ s.driver.pollEnabled = true) ∨
      s.woken t = true := by
  have hinv := wakeInv_of_reaches h
  have hc : (s.thread t).committed = true := by rw [hsleep]; rfl
  obtain ⟨hworker, hthreads⟩ := not_or.mp hpair
  rcases hinv.data t hc with he | hw | hp
  · rcases hinv.flag t hc with hf | hw | hp
    · exact Or.inl ⟨he, hf⟩
    · exact Or.inr hw
    · exact absurd hp hthreads
  · exact Or.inr hw
  · exact absurd hp hworker

/-- A caller falls asleep, then a button is pressed and `do_work` has run. -/
theorem no_lost_wakeup_press : ∃ s tr, exec (callers boardConfig) (opened started)
      ([Action.call () .poll] ++ List.replicate 5 (Action.run ()) ++
        [Action.interrupt .gpioBtn5 default, .scheduleWork, .startWork] ++
        List.replicate 15 Action.work) =
        some (s, tr) ∧ s.thread () = .asleep ∧ empty s.driver.eventBulkDataBuffer = false ∧
    ((empty s.driver.eventBulkDataBuffer = true ∧ s.driver.pollEnabled = true) ∨
      s.woken () = true) := by
  have hrun : exec (callers boardConfig) (opened started)
      ([Action.call () .poll] ++ List.replicate 5 (Action.run ()) ++
        [Action.interrupt .gpioBtn5 default, .scheduleWork, .startWork] ++
        List.replicate 15 Action.work) =
        some (_, _) := rfl
  refine ⟨_, _, hrun, rfl, by decide +kernel, ?_⟩
  refine no_lost_wakeup boardConfig started _ _ (Reaches.of_exec hrun) ?_ () rfl
  rintro (hw | ⟨t, ht⟩)
  · exact absurd hw (by decide +kernel)
  · cases ht

end LinuxOddsAndEnds.Oled.Wakeup
