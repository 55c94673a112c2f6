import LinuxOddsAndEnds.Oled.CallersRefinement
import Mathlib.Algebra.BigOperators.Group.Finset.Piecewise
import Mathlib.Algebra.Order.BigOperators.Group.Finset

/-!
# Calls come to rest

With no more interrupts and no new calls, every step of `do_work` and of the callers uses up
captured events, pending marks or a part of a call. A wake gives up to one more turn to each
caller, and it is paid for by the event or by the call that wakes.
-/

namespace LinuxOddsAndEnds.Oled.Wakeup

open Foundation CircBufferPow2

/-- What is left of a call of one of `n` callers until it returns or sleeps. -/
def ThreadPc.weight (n : ℕ) : ThreadPc → ℕ
  | .idle => 0
  | .pollWait => 6
  | .pollLock => 5
  | .pollCheck => 4
  | .pollUnlock _ => 3
  | .pollReturn _ => 2
  | .asleep => 1
  | .readLock _ _ => 3
  | .readLoop _ _ => 2
  | .readUnlock => 1
  | .wakeUp => 7 * n + 1

/-- What is left of the turn of `do_work`, its wake included. -/
def takeWeight (n : ℕ) : ConsumerPc → ℕ
  | .front => 7
  | .frontHead _ => 6
  | .copy _ => 5
  | .pop _ _ => 4
  | .popHead _ _ _ => 3
  | .popWrite _ _ _ => 2
  | .popReread _ _ => 7 * n + 13

def workerWeight (n : ℕ) : WorkerPc → ℕ
  | .idle => 0
  | .taking pc => takeWeight n pc
  | .lock _ => 7 * n + 12
  | .testSpace _ => 7 * n + 11
  | .pushRecord _ => 7 * n + 10
  | .wake => 7 * n + 9
  | .unlock => 8
  | .leaving => 1

/-- Each captured event costs the worker a turn. -/
def driverWeight (n : ℕ) (d : State) : ℕ :=
  (7 * n + 12) * (size d.captureEventBuffer).toNat + workerWeight n d.worker +
    8 * d.pending.toNat + 10 * d.unscheduled

/-- A pending wake is worth a turn of the caller. -/
def callerWeight (n : ℕ) (pc : ThreadPc) (woken : Bool) : ℕ :=
  pc.weight n + 7 * woken.toNat

section Driver

variable {d d' : State} {seen : List Seen} {l : Ledger} {tr : List Seen}

theorem driverWeight_afterTake (n : ℕ) {pc : ConsumerPc} (hi : Inv (whole d) tr l)
    (hpc : d.worker = .taking pc) :
    driverWeight n (afterTake d (consume d.captureEventBuffer pc)) < driverWeight n d := by
  have hcontents : Contents d.captureEventBuffer 3 (l.waiting.map eventBytes) := hi.capture
  have hok : ConsumerOk d.captureEventBuffer (l.waiting.map eventBytes) pc := by
    have hworker := hi.worker
    rwa [whole, hpc] at hworker
  have hspec := consume_spec hcontents hok
  have hsize := size_spec hcontents
  cases pc <;> simp only [consume] at hspec ⊢
  case frontHead tail =>
    split_ifs <;> simp only [driverWeight, afterTake, workerWeight, takeWeight, hpc] <;> omega
  case popHead ref event tail =>
    split_ifs at hspec ⊢ with hsome
    · simp only [driverWeight, afterTake, workerWeight, takeWeight, hpc]
      omega
    · exact absurd hspec.2.1 (by simp [ConsumerPc.inHand])
  case popWrite ref event tail =>
    obtain ⟨-, -, q', hq, hrest, -⟩ := hspec
    rw [hq, List.length_cons] at hsize
    simp only [driverWeight, afterTake, workerWeight, takeWeight, hpc, hsize, size_spec hrest,
      Nat.mul_succ]
    omega
  all_goals
    simp only [driverWeight, afterTake, workerWeight, takeWeight, hpc]
    omega

/-- A step of `do_work` pays for the turns that its wake gives to the callers. -/
theorem driverWeight_doWork (n : ℕ) (hi : Inv (whole d) tr l) (hs : doWork d = some (d', seen)) :
    driverWeight n d' + (if Seen.woken ∈ seen then 7 * n else 0) < driverWeight n d := by
  cases hpc : d.worker with
  | idle => simp [doWork, hpc] at hs
  | taking pc =>
    simp only [doWork, hpc] at hs
    obtain ⟨rfl, rfl⟩ := Prod.mk.inj (Option.some.inj hs)
    simpa using driverWeight_afterTake n hi hpc
  | lock event =>
    simp only [doWork, hpc] at hs
    split_ifs at hs
    obtain ⟨rfl, rfl⟩ := Prod.mk.inj (Option.some.inj hs)
    simp only [driverWeight, workerWeight, hpc, List.not_mem_nil, if_false]
    omega
  | testSpace event =>
    simp only [doWork, hpc] at hs
    split_ifs at hs <;> obtain ⟨rfl, rfl⟩ := Prod.mk.inj (Option.some.inj hs) <;>
      simp only [driverWeight, workerWeight, hpc, List.mem_singleton, List.not_mem_nil,
        reduceCtorEq, if_false] <;> omega
  | pushRecord event =>
    simp only [doWork, hpc] at hs
    split_ifs at hs <;> obtain ⟨rfl, rfl⟩ := Prod.mk.inj (Option.some.inj hs) <;>
      simp only [driverWeight, workerWeight, hpc, List.mem_singleton, reduceCtorEq, if_false] <;>
      omega
  | wake =>
    simp only [doWork, hpc] at hs
    obtain ⟨rfl, rfl⟩ := Prod.mk.inj (Option.some.inj hs)
    simp only [driverWeight, workerWeight, hpc, List.mem_singleton, if_true]
    omega
  | unlock =>
    simp only [doWork, hpc] at hs
    obtain ⟨rfl, rfl⟩ := Prod.mk.inj (Option.some.inj hs)
    simp only [driverWeight, workerWeight, takeWeight, hpc, List.not_mem_nil, if_false]
    omega
  | leaving =>
    simp only [doWork, hpc] at hs
    obtain ⟨rfl, rfl⟩ := Prod.mk.inj (Option.some.inj hs)
    simp only [driverWeight, workerWeight, hpc, List.not_mem_nil, if_false]
    omega

theorem driverWeight_event (n : ℕ) {cfg : GpioConfig} {a : Oled.Action} (hi : Inv (whole d) tr l)
    (ha : ofDriver a) (hcalm : ∀ h i, a ≠ .interrupt h i)
    (hs : pipeline cfg d a = some (d', seen)) :
    driverWeight n d' + (if Seen.woken ∈ seen then 7 * n else 0) < driverWeight n d := by
  cases a with
  | interrupt h i => exact absurd rfl (hcalm h i)
  | scheduleWork =>
    simp only [pipeline] at hs
    split_ifs at hs with hnone
    obtain ⟨rfl, rfl⟩ := Prod.mk.inj (Option.some.inj hs)
    simp only [driverWeight, List.not_mem_nil, if_false, Bool.toNat_true]
    omega
  | startWork =>
    simp only [pipeline] at hs
    split_ifs at hs with hready
    obtain ⟨rfl, rfl⟩ := Prod.mk.inj (Option.some.inj hs)
    simp only [driverWeight, workerWeight, takeWeight, hready.1, hready.2, List.not_mem_nil,
      if_false, Bool.toNat_true, Bool.toNat_false]
    omega
  | work => exact driverWeight_doWork n hi hs
  | read | poll | ioctl => cases ha

end Driver

section Calm

variable {ι : Type*} [DecidableEq ι] {s : Callers ι}

def Action.calm {ι : Type*} : Action ι → Bool
  | .interrupt _ _ | .call _ _ => false
  | _ => true

def calm (cfg : GpioConfig) : Machine (Callers ι) (Action ι) Seen :=
  (callers cfg).when fun _ a => a.calm

theorem inv_of_callers {cfg : GpioConfig} {kmalloc kmalloc' : SizeT → Option Mem} {s₀ : State}
    {tr : List Seen} (hinit : gpioOledIrqInit kmalloc kmalloc' loaded = (0, s₀))
    (h : Reaches (callers cfg) (opened s₀) s tr) :
    MutexHeld s ∧ ∃ tr' l, Inv (whole s.driver) tr' l := by
  obtain ⟨hmutex, tr', hreach, -⟩ := answered_of_reaches hinit h
  obtain ⟨l, hi⟩ := inv_of_reaches hinit hreach
  exact ⟨hmutex, tr', l, hi⟩

end Calm

section Callers

variable {ι : Type*} [Fintype ι] {s s' : Callers ι} {t : ι} {pc : ThreadPc} {seen : List Seen}

def callersWeight (thread : ι → ThreadPc) (woken : ι → Bool) : ℕ :=
  ∑ t, callerWeight (Fintype.card ι) (thread t) (woken t)

def weight (s : Callers ι) : ℕ :=
  driverWeight (Fintype.card ι) s.driver + callersWeight s.thread s.woken

theorem callersWeight_wakeUp (s : Callers ι) :
    callersWeight s.thread (wakeUpInterruptible s).woken ≤
      callersWeight s.thread s.woken + 7 * Fintype.card ι := by
  have hone (t : ι) : callerWeight (Fintype.card ι) (s.thread t) ((wakeUpInterruptible s).woken t) ≤
      callerWeight (Fintype.card ι) (s.thread t) (s.woken t) + 7 := by
    have hle := Bool.toNat_le ((wakeUpInterruptible s).woken t)
    simp only [callerWeight]
    omega
  calc callersWeight s.thread (wakeUpInterruptible s).woken
      ≤ ∑ t, (callerWeight (Fintype.card ι) (s.thread t) (s.woken t) + 7) :=
        Finset.sum_le_sum fun t _ => hone t
    _ = callersWeight s.thread s.woken + 7 * Fintype.card ι := by
        rw [Finset.sum_add_distrib, Finset.sum_const_nat fun _ _ => rfl, Finset.card_univ,
          Nat.mul_comm 7]
        rfl

variable [DecidableEq ι]

theorem callersWeight_goto {woken : ι → Bool} (hothers : ∀ t' ≠ t, woken t' = s.woken t')
    (hless : callerWeight (Fintype.card ι) pc (woken t) <
      callerWeight (Fintype.card ι) (s.thread t) (s.woken t)) :
    callersWeight (Function.update s.thread t pc) woken < callersWeight s.thread s.woken := by
  refine Finset.sum_lt_sum (fun t' _ => ?_) ⟨t, Finset.mem_univ t, ?_⟩
  · rcases eq_or_ne t' t with rfl | hne
    · rw [Function.update_self]
      exact hless.le
    · rw [Function.update_of_ne hne, hothers t' hne]
  · rwa [Function.update_self]

theorem weight_goto {d : State} {registered woken : ι → Bool}
    (hdriver : driverWeight (Fintype.card ι) d = driverWeight (Fintype.card ι) s.driver)
    (hothers : ∀ t' ≠ t, woken t' = s.woken t')
    (hless : callerWeight (Fintype.card ι) pc (woken t) <
      callerWeight (Fintype.card ι) (s.thread t) (s.woken t)) :
    weight ({ s with driver := d, registered, woken }.goto t pc) < weight s := by
  have hcallers := callersWeight_goto hothers hless
  simp only [weight, Callers.goto, hdriver]
  omega

/-- The turns that `IOCTL_RELEASE_POLL` gives are paid for by its own call. -/
theorem weight_wakeUp (hpc : s.thread t = .wakeUp) :
    weight ((wakeUpInterruptible s).goto t .idle) < weight s := by
  have hone (t' : ι) : callerWeight (Fintype.card ι) (Function.update s.thread t .idle t')
        (s.woken t') + (if t' = t then 7 * Fintype.card ι + 1 else 0) =
      callerWeight (Fintype.card ι) (s.thread t') (s.woken t') := by
    rcases eq_or_ne t' t with rfl | hne
    · rw [Function.update_self, if_pos rfl, hpc]
      simp only [callerWeight, ThreadPc.weight]
      omega
    · rw [Function.update_of_ne hne, if_neg hne, Nat.add_zero]
  have hpaid : callersWeight (Function.update s.thread t .idle) s.woken +
      (7 * Fintype.card ι + 1) = callersWeight s.thread s.woken := by
    rw [callersWeight, callersWeight, ← Finset.sum_congr rfl fun t' _ => hone t',
      Finset.sum_add_distrib, Finset.sum_ite_eq' Finset.univ t, if_pos (Finset.mem_univ t)]
  have hwake := callersWeight_wakeUp (s.goto t .idle)
  simp only [weight, Callers.goto, wakeUpInterruptible] at hwake ⊢
  omega

theorem threadStep_weight (hs : threadStep t s = some (s', seen)) : weight s' < weight s := by
  cases hpc : s.thread t with
  | idle => simp [threadStep, hpc] at hs
  | pollWait =>
    simp only [threadStep, hpc] at hs
    obtain ⟨rfl, rfl⟩ := Prod.mk.inj (Option.some.inj hs)
    refine weight_goto rfl (fun _ _ => rfl) ?_
    simp [callerWeight, ThreadPc.weight, hpc]
  | pollLock =>
    simp only [threadStep, mutexLock, hpc] at hs
    split_ifs at hs
    obtain ⟨rfl, rfl⟩ := Prod.mk.inj (Option.some.inj hs)
    refine weight_goto rfl (fun _ _ => rfl) ?_
    simp [callerWeight, ThreadPc.weight, hpc]
  | pollCheck =>
    simp only [threadStep, hpc] at hs
    obtain ⟨rfl, rfl⟩ := Prod.mk.inj (Option.some.inj hs)
    refine weight_goto rfl (fun _ _ => rfl) ?_
    simp [callerWeight, ThreadPc.weight, hpc]
  | pollUnlock mask =>
    simp only [threadStep, mutexUnlock, hpc] at hs
    obtain ⟨rfl, rfl⟩ := Prod.mk.inj (Option.some.inj hs)
    refine weight_goto rfl (fun _ _ => rfl) ?_
    simp [callerWeight, ThreadPc.weight, hpc]
  | pollReturn mask =>
    simp only [threadStep, hpc] at hs
    split_ifs at hs <;> obtain ⟨rfl, rfl⟩ := Prod.mk.inj (Option.some.inj hs)
    · refine weight_goto rfl (fun _ _ => rfl) ?_
      simp [callerWeight, ThreadPc.weight, hpc]
    · refine weight_goto rfl (fun _ hne => Function.update_of_ne hne _ _) ?_
      simp [callerWeight, ThreadPc.weight, hpc]
  | asleep =>
    simp only [threadStep, hpc] at hs
    split_ifs at hs with hwoken
    obtain ⟨rfl, rfl⟩ := Prod.mk.inj (Option.some.inj hs)
    refine weight_goto rfl (fun _ hne => Function.update_of_ne hne _ _) ?_
    simp [callerWeight, ThreadPc.weight, hpc, hwoken]
  | readLock copyToUser count =>
    simp only [threadStep, mutexLock, hpc] at hs
    split_ifs at hs <;> obtain ⟨rfl, rfl⟩ := Prod.mk.inj (Option.some.inj hs) <;>
      refine weight_goto rfl (fun _ _ => rfl) ?_ <;> simp [callerWeight, ThreadPc.weight, hpc]
  | readLoop copyToUser count =>
    simp only [threadStep, hpc] at hs
    obtain ⟨rfl, rfl⟩ := Prod.mk.inj (Option.some.inj hs)
    refine weight_goto rfl (fun _ _ => rfl) ?_
    simp [callerWeight, ThreadPc.weight, hpc]
  | readUnlock =>
    simp only [threadStep, mutexUnlock, hpc] at hs
    obtain ⟨rfl, rfl⟩ := Prod.mk.inj (Option.some.inj hs)
    refine weight_goto rfl (fun _ _ => rfl) ?_
    simp [callerWeight, ThreadPc.weight, hpc]
  | wakeUp =>
    simp only [threadStep, hpc] at hs
    obtain ⟨rfl, rfl⟩ := Prod.mk.inj (Option.some.inj hs)
    exact weight_wakeUp hpc

omit [DecidableEq ι] in
theorem weight_onDriver {cfg : GpioConfig} {a : Oled.Action} {tr : List Seen} {l : Ledger}
    (hi : Inv (whole s.driver) tr l) (ha : ofDriver a) (hcalm : ∀ h i, a ≠ .interrupt h i)
    (hs : onDriver cfg a s = some (s', seen)) : weight s' < weight s := by
  unfold onDriver at hs
  cases hd : pipeline cfg s.driver a with
  | none => simp [hd] at hs
  | some out =>
    obtain ⟨d, seen'⟩ := out
    have hless := driverWeight_event (Fintype.card ι) hi ha hcalm hd
    simp only [hd] at hs
    split_ifs at hs hless with hwoken <;> obtain ⟨rfl, rfl⟩ := Prod.mk.inj (Option.some.inj hs)
    · have hwake := callersWeight_wakeUp { s with driver := d }
      simp only [weight, wakeUpInterruptible] at hwake ⊢
      omega
    · simp only [weight]
      omega

theorem weight_decreases {cfg : GpioConfig} {kmalloc kmalloc' : SizeT → Option Mem} {s₀ : State}
    (hinit : gpioOledIrqInit kmalloc kmalloc' loaded = (0, s₀)) :
    Decreases (calm cfg) (fun s : Callers ι => ∃ tr, Reaches (callers cfg) (opened s₀) s tr)
      weight := by
  rintro s a s' seen ⟨tr, hreach⟩ hs
  obtain ⟨hcalm, hs⟩ := Machine.when_eq_some.mp hs
  refine ⟨⟨tr ++ seen, hreach.next hs⟩, ?_⟩
  obtain ⟨-, tr', l, hi⟩ := inv_of_callers hinit hreach
  cases a with
  | interrupt h i => cases hcalm
  | scheduleWork => exact weight_onDriver (a := .scheduleWork) hi trivial nofun hs
  | startWork => exact weight_onDriver (a := .startWork) hi trivial nofun hs
  | work => exact weight_onDriver (a := .work) hi trivial nofun hs
  | call t c => cases hcalm
  | run t => exact threadStep_weight hs

end Callers

section Stop

variable {ι : Type*} [DecidableEq ι] {s : Callers ι} {t : ι}

/-- A caller that does not hold the mutex and cannot go on has returned, waits for the mutex, or
sleeps unmarked. -/
theorem thread_stop (hstop : threadStep t s = none) : s.thread t = .idle ∨
    (s.thread t = .asleep ∧ s.woken t = false) ∨
      (s.driver.eventBulkDataMtx = true ∧ (s.thread t).locked = false) := by
  cases hpc : s.thread t <;> simp only [threadStep, mutexLock, hpc, reduceCtorEq] at hstop
  case idle => exact Or.inl rfl
  case pollLock =>
    split_ifs at hstop with hheld
    exact Or.inr (Or.inr ⟨hheld, rfl⟩)
  case pollReturn mask => split_ifs at hstop
  case asleep =>
    split_ifs at hstop with hwoken
    exact Or.inr (Or.inl ⟨rfl, by simpa using hwoken⟩)
  case readLock copyToUser count =>
    split_ifs at hstop with hcount hheld
    exact Or.inr (Or.inr ⟨hheld, rfl⟩)

theorem worker_stop {d : State} (hstop : doWork d = none) :
    d.worker = .idle ∨ d.eventBulkDataMtx = true ∧ d.worker.locked = false := by
  cases hpc : d.worker <;> simp only [doWork, hpc, reduceCtorEq] at hstop
  case idle => exact Or.inl rfl
  case lock event =>
    split_ifs at hstop with hheld
    exact Or.inr ⟨hheld, rfl⟩
  case testSpace event => split_ifs at hstop
  case pushRecord event => split_ifs at hstop

/-- Nothing is left to do: `do_work` has returned with the capture ring empty, the mutex is free,
and each call has returned or sleeps with nothing to report. -/
structure Settled (s : Callers ι) : Prop where
  worker : s.driver.worker = .idle
  captured : empty s.driver.captureEventBuffer = true
  mutex : s.driver.eventBulkDataMtx = false
  calls : ∀ t, s.thread t = .idle ∨ s.thread t = .asleep ∧
    empty s.driver.eventBulkDataBuffer = true ∧ s.driver.pollEnabled = true

theorem settled_of_stop {cfg : GpioConfig} {kmalloc kmalloc' : SizeT → Option Mem} {s₀ : State}
    {tr : List Seen} (hinit : gpioOledIrqInit kmalloc kmalloc' loaded = (0, s₀))
    (h : Reaches (callers cfg) (opened s₀) s tr) (hstop : ∀ a, calm cfg s a = none) :
    Settled s := by
  obtain ⟨hmutex, tr', l, hi⟩ := inv_of_callers hinit h
  have hwake := wakeInv_of_reaches h
  have hthread (t : ι) : threadStep t s = none := hstop (.run t)
  have hdriver {a : Oled.Action} (hnone : onDriver cfg a s = none) :
      pipeline cfg s.driver a = none := by
    unfold onDriver at hnone
    cases hd : pipeline cfg s.driver a with
    | none => rfl
    | some out =>
      obtain ⟨d, seen⟩ := out
      simp only [hd] at hnone
      split_ifs at hnone
  have hfree : s.driver.eventBulkDataMtx = false := by
    refine Bool.eq_false_iff.mpr fun hheld => ?_
    -- the holder could go on
    rcases hmutex.holder hheld with hlocked | ⟨t, hlocked⟩
    · rcases worker_stop (hdriver (a := .work) (hstop .work)) with hidle | ⟨-, hnot⟩
      · rw [hidle] at hlocked
        cases hlocked
      · rw [hnot] at hlocked
        cases hlocked
    · rcases thread_stop (hthread t) with hidle | ⟨hasleep, -⟩ | ⟨-, hnot⟩
      · rw [hidle] at hlocked
        cases hlocked
      · rw [hasleep] at hlocked
        cases hlocked
      · rw [hnot] at hlocked
        cases hlocked
  have hworker : s.driver.worker = .idle := by
    refine (worker_stop (hdriver (a := .work) (hstop .work))).resolve_right fun hwaits => ?_
    rw [hwaits.1] at hfree
    cases hfree
  have hcalls (t : ι) : s.thread t = .idle ∨ s.thread t = .asleep ∧ s.woken t = false := by
    rcases thread_stop (hthread t) with hidle | hasleep | ⟨hheld, -⟩
    · exact Or.inl hidle
    · exact Or.inr hasleep
    · rw [hheld] at hfree
      cases hfree
  refine ⟨hworker, ?_, hfree, fun t => ?_⟩
  · have hcontents : Contents s.driver.captureEventBuffer 3 (l.waiting.map eventBytes) := hi.capture
    rw [empty_spec hcontents, List.map_eq_nil_iff]
    by_contra hwaiting
    rcases hi.noticed hwaiting with hhandler | hpending | hlook
    · have hnone := hdriver (a := .scheduleWork) (hstop .scheduleWork)
      have hsome : s.driver.unscheduled ≠ 0 := Nat.pos_iff_ne_zero.mp hhandler
      simp [pipeline, hsome] at hnone
    · have hnone := hdriver (a := .startWork) (hstop .startWork)
      have hmarked : s.driver.pending = true := hpending
      simp [pipeline, hmarked, hworker] at hnone
    · have hidle : (whole s.driver).worker = .idle := hworker
      rw [hidle] at hlook
      cases hlook
  · rcases hcalls t with hidle | ⟨hasleep, hunmarked⟩
    · exact Or.inl hidle
    · have hcommitted : (s.thread t).committed = true := by rw [hasleep]; rfl
      refine Or.inr ⟨hasleep, ?_, ?_⟩
      · rcases hwake.data t hcommitted with hempty | hmarked | hpc
        · exact hempty
        · rw [hunmarked] at hmarked
          cases hmarked
        · rw [hworker] at hpc
          cases hpc
      · rcases hwake.flag t hcommitted with henabled | hmarked | ⟨t', hpc⟩
        · exact henabled
        · rw [hunmarked] at hmarked
          cases hmarked
        · rcases hcalls t' with hidle | ⟨hasleep', -⟩
          · rw [hidle] at hpc
            cases hpc
          · rw [hasleep'] at hpc
            cases hpc

theorem onDriver_pollEnabled {ι : Type*} {s s' : Callers ι} {cfg : GpioConfig} {a : Oled.Action}
    {seen : List Seen} (ha : ofDriver a) (hs : onDriver cfg a s = some (s', seen)) :
    s'.driver.pollEnabled = s.driver.pollEnabled := by
  have hpoll {d : State} {seen : List Seen} (hd : pipeline cfg s.driver a = some (d, seen)) :
      d.pollEnabled = s.driver.pollEnabled := by
    cases a with
    | interrupt h i =>
      obtain ⟨rfl, -⟩ := Prod.mk.inj (Option.some.inj hd)
      exact (driverStep_interrupt cfg h i s.driver).poll
    | scheduleWork =>
      simp only [pipeline] at hd
      split_ifs at hd
      obtain ⟨rfl, -⟩ := Prod.mk.inj (Option.some.inj hd)
      rfl
    | startWork =>
      simp only [pipeline] at hd
      split_ifs at hd
      obtain ⟨rfl, -⟩ := Prod.mk.inj (Option.some.inj hd)
      rfl
    | work => exact (driverStep_doWork hd).poll
    | read | poll | ioctl => cases ha
  unfold onDriver at hs
  cases hd : pipeline cfg s.driver a with
  | none => simp [hd] at hs
  | some out =>
    simp only [hd] at hs
    split_ifs at hs <;> obtain ⟨rfl, -⟩ := Prod.mk.inj (Option.some.inj hs) <;> exact hpoll hd

theorem threadStep_pollEnabled {s' : Callers ι} {seen : List Seen}
    (hs : threadStep t s = some (s', seen)) : s'.driver.pollEnabled = s.driver.pollEnabled := by
  cases hpc : s.thread t <;>
    simp only [threadStep, mutexLock, mutexUnlock, hpc, reduceCtorEq] at hs
  all_goals
    try split_ifs at hs
    all_goals
      obtain ⟨rfl, -⟩ := Prod.mk.inj (Option.some.inj hs)
      rfl

theorem pollEnabled_of_calm {cfg : GpioConfig} {s' : Callers ι} {tr : List Seen}
    (h : Reaches (calm cfg) s s' tr) : s'.driver.pollEnabled = s.driver.pollEnabled := by
  induction h with
  | start => rfl
  | @next s₁ s₂ a tr seen _ hs ih =>
    obtain ⟨hcalm, hs⟩ := Machine.when_eq_some.mp hs
    refine Eq.trans ?_ ih
    cases a with
    | interrupt h i => cases hcalm
    | scheduleWork => exact onDriver_pollEnabled (a := .scheduleWork) trivial hs
    | startWork => exact onDriver_pollEnabled (a := .startWork) trivial hs
    | work => exact onDriver_pollEnabled (a := .work) trivial hs
    | call t c => cases hcalm
    | run t => exact threadStep_pollEnabled hs

end Stop

/-- Without more interrupts and calls every run of the callers and of `do_work` is bounded and
comes to rest; once `IOCTL_RELEASE_POLL` has been called, every call returns. -/
theorem calls_settle {ι : Type*} [Fintype ι] [DecidableEq ι] (cfg : GpioConfig)
    (kmalloc kmalloc' : SizeT → Option Mem) (s₀ : State) (s : Callers ι) (tr : List Seen)
    (hinit : gpioOledIrqInit kmalloc kmalloc' loaded = (0, s₀))
    (h : Reaches (callers cfg) (opened s₀) s tr) :
    Completes (calm cfg) s (weight s) fun s' _ =>
      Settled s' ∧ (s.driver.pollEnabled = false → ∀ t, s'.thread t = .idle) := by
  refine (weight_decreases hinit).completes ⟨tr, h⟩ fun s' tr' hreach _ hstop => ?_
  have hsettled := settled_of_stop hinit (h.trans hreach.of_when) hstop
  refine ⟨hsettled, fun hreleased t => (hsettled.calls t).resolve_right ?_⟩
  rintro ⟨-, -, henabled⟩
  rw [pollEnabled_of_calm hreach, hreleased] at henabled
  cases henabled

/-- A caller is asleep when another one releases the poll. -/
theorem calls_settle_release : ∃ s tr, exec (callers boardConfig) (opened started)
      ([Action.call true .poll] ++ List.replicate 5 (Action.run true) ++
        [Action.call false (.ioctl ioctlReleasePoll)]) = some (s, tr) ∧ s.thread true = .asleep ∧
    Completes (calm boardConfig) s (weight s) fun s' _ =>
      Settled s' ∧ ∀ t, s'.thread t = .idle := by
  have hrun : exec (callers boardConfig) (opened started)
      ([Action.call true .poll] ++ List.replicate 5 (Action.run true) ++
        [Action.call false (.ioctl ioctlReleasePoll)]) = some (_, _) := rfl
  refine ⟨_, _, hrun, rfl, fun as s' tr' hmore => ?_⟩
  obtain ⟨hlength, hrest⟩ := calls_settle boardConfig (fun _ => some null) (fun _ => some null)
    started _ _ rfl (Reaches.of_exec hrun) as s' tr' hmore
  exact ⟨hlength, fun hstop => ⟨(hrest hstop).1, (hrest hstop).2 rfl⟩⟩

end LinuxOddsAndEnds.Oled.Wakeup
