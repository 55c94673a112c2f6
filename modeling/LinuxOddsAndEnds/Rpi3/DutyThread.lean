import LinuxOddsAndEnds.Ring.CircBufferMod2Refinement
import LinuxOddsAndEnds.Rpi3.KeyEntry
import LinuxOddsAndEnds.Rpi3.ReadAccounting

/-!
# The end of the duty-cycle thread

`DutyCycle::Run` waits for the driver in one of three ways and reads what it has out of the
driver's own ring, over the slot past the storage too. The destructor clears `enabled_`, lets
the driver end duty-cycle mode, which wakes whoever waits, and joins the thread.

The thread is looked at from the end of the constructor on. It is started before the members
are set, and what it does with members that are not set yet is left out.
-/

namespace LinuxOddsAndEnds.Rpi3.DutyThread

open Foundation DutyCycle KeyEntry CircBufferMod2

/-- How the thread waits, and whether `epoll_create` and `epoll_ctl` succeed for it. -/
structure Config where
  pollMode : PollMode
  epollCreate : Bool
  epollCtl : Bool

/-- Where the thread is in `Run`. At `check` it has registered with the driver. -/
inductive ThreadPc where
  | test
  | enter
  | check
  | asleep
  | read
  | exited
  deriving DecidableEq

/-- Where the thread of the key loop is: in duty-cycle mode, or in the destructor. -/
inductive MainPc where
  | running
  | ioctl
  | join
  | done
  deriving DecidableEq

/-- `woken` tells of a wake since the thread last looked at the driver. -/
structure State (a : Arch) where
  enabled : Bool
  driver : DutyCycle.State a
  eventBulkDataBuffer : CircularBufferMod2
  woken : Bool
  thread : ThreadPc
  main : MainPc

inductive Action (a : Arch) where
  | thread
  /-- The call that waits fails. -/
  | fail
  | main
  /-- The timer, or a call of the key loop. -/
  | drive (x : DutyCycle.Action a)
  | destroy
  /-- `ess_do_work` forwards a record. -/
  | event (record : Mem)

inductive Seen where
  | event (record : List Byte)
  | exited
  | joined

variable {a : Arch}

/-- The descriptor is among those that the thread waits for. -/
def Config.registered (cfg : Config) : Bool := cfg.pollMode != .epoll || cfg.epollCtl

/-- What the thread does after a call that does not wait: `poll` without a timeout, or
`epoll_wait` without an instance. -/
def Config.unblocked (cfg : Config) : Option ThreadPc :=
  match cfg.pollMode with
  | .select => none
  | .poll => some .read
  | .epoll => if cfg.epollCreate then none else some .test

def State.mask (s : State a) : BitVec 32 := gpioIrqDemoPoll (empty s.eventBulkDataBuffer) s.driver

def wakes (seen : List (DutyCycle.Seen a)) : Bool :=
  seen.any fun
    | .woken => true
    | _ => false

def State.drive (s : State a) (x : DutyCycle.Action a) : Option (State a) :=
  (DutyCycle.driver a s.driver x).map fun out =>
    { s with driver := out.1, woken := s.woken || wakes out.2 }

/-- One pass through the loop of `Run`, cut at its calls. -/
def threadStep (cfg : Config) (s : State a) : Option (State a × List Seen) :=
  match s.thread with
  | .test =>
    if s.enabled then some ({ s with thread := .enter }, [])
    else some ({ s with thread := .exited }, [.exited])
  | .enter =>
    match cfg.unblocked with
    | some pc => some ({ s with thread := pc }, [])
    | none => some ({ s with thread := .check, woken := false }, [])
  | .check =>
    some ({ s with thread := if cfg.registered && s.mask != 0 then .read else .asleep }, [])
  | .asleep =>
    if cfg.registered && s.woken then some ({ s with thread := .check, woken := false }, [])
    else none
  | .read =>
    let out := ringGpioIrqDemoRead (fun _ => true) (BitVec.ofNat 64 sizeofEventBulkData)
      s.eventBulkDataBuffer
    if out.bytesRead = sizeofEventBulkData then
      some ({ s with eventBulkDataBuffer := out.ring }, out.records.map .event)
    else some ({ s with thread := .test }, [])
  | .exited => none

/-- The thread is in the call that waits, or about to make it. -/
def ThreadPc.waits : ThreadPc → Bool
  | .enter | .check | .asleep => true
  | .test | .read | .exited => false

/-- The destructor after its first line. -/
def mainStep (s : State a) : Option (State a × List Seen) :=
  match s.main with
  | .ioctl =>
    (s.drive (.ioctl (essDutyCycleGpio a) 0)).map fun t => ({ t with main := .join }, [])
  | .join => if s.thread = .exited then some ({ s with main := .done }, [.joined]) else none
  | .running | .done => none

def dutyThread (cfg : Config) : Machine (State a) (Action a) Seen
  | s, .thread => threadStep cfg s
  | s, .fail => if s.thread.waits then some ({ s with thread := .test }, []) else none
  | s, .main => mainStep s
  | s, .drive .timer => (s.drive .timer).map (·, [])
  | s, .drive x => if s.main = .running then (s.drive x).map (·, []) else none
  | s, .destroy =>
    if s.main = .running then some ({ s with enabled := false, main := .ioctl }, []) else none
  | s, .event record =>
    let out := push s.eventBulkDataBuffer record
    if out.1 = 0 then some ({ s with eventBulkDataBuffer := out.2, woken := true }, []) else none

/-- The constructor is through. -/
def started (d : DutyCycle.State a) (ring : CircularBufferMod2) : State a :=
  ⟨true, d, ring, false, .test, .running⟩

/-- The two threads alone, their calls not failing. -/
def ofThreads (_ : State a) : Action a → Bool
  | .thread | .main => true
  | _ => false

/-- The thread can be woken where it waits, or does not come to wait again. -/
def State.joinable (cfg : Config) (s : State a) : Bool :=
  cfg.unblocked.isSome || cfg.registered || !s.thread.waits

/-- The ring of `n` slots as calls leave it, what the destructor has done, and no wake is
lost. -/
structure Ending (cfg : Config) (n : ℕ) (s : State a) : Prop where
  ring : Indexed s.eventBulkDataBuffer n
  enabled : s.main ≠ .running → s.enabled = false
  pollEnabled : s.main = .join ∨ s.main = .done → s.driver.pollEnabled = false
  exited : s.main = .done → s.thread = .exited
  woken : s.thread = .asleep → cfg.registered = true → s.mask ≠ 0 → s.woken = true
  blocked : s.thread = .check ∨ s.thread = .asleep → cfg.unblocked = none

/-- With `enabled_` cleared: what is left to do. A read takes `tail` a step nearer to `head`. -/
def State.stepsLeft (s : State a) : ℕ :=
  (match s.main with
    | .running | .ioctl => 4
    | .join => 1
    | .done => 0) +
  (match s.thread with
    | .exited => 0
    | .test => 1
    | .asleep => 2
    | .read => 2
    | .check => 3
    | .enter => 4) + 2 * s.woken.toNat + toHead s.eventBulkDataBuffer

section Parts

variable {cfg : Config} {n : ℕ} {s s' : State a} {ring : CircularBufferMod2}

/-- A read that answers a whole record has taken it with one `pop`, also where it was none. -/
theorem read_record (hread : (ringGpioIrqDemoRead (fun _ => true)
      (BitVec.ofNat 64 sizeofEventBulkData) ring).bytesRead = sizeofEventBulkData) :
    size ring ≠ 0#64 ∧ (ringGpioIrqDemoRead (fun _ => true)
      (BitVec.ofNat 64 sizeofEventBulkData) ring).ring = pop ring := by
  have hloop : ringGpioIrqDemoRead (fun _ => true) (BitVec.ofNat 64 sizeofEventBulkData) ring =
      ringReadLoop (fun _ => true) 1 0 ring := rfl
  rw [hloop, ringReadLoop] at hread ⊢
  by_cases hspace : space ring = 0#64
  · simp [hspace, sizeofEventBulkData] at hread
  · by_cases hsize : size ring = 0#64
    · simp [hspace, front, hsize, sizeofEventBulkData] at hread
    · refine ⟨hsize, ?_⟩
      simp [hspace, front, hsize, ringReadLoop]

theorem mask_ne_zero_iff (s : State a) : s.mask ≠ 0 ↔
    empty s.eventBulkDataBuffer = false ∨ s.driver.pollEnabled = false := by
  unfold State.mask gpioIrqDemoPoll
  cases empty s.eventBulkDataBuffer <;> cases s.driver.pollEnabled <;> simp [pollIn, pollHup]

theorem pollEnabled_of_driver {d d' : DutyCycle.State a} {x : DutyCycle.Action a}
    {seen : List (DutyCycle.Seen a)} (h : DutyCycle.driver a d x = some (d', seen)) :
    d'.pollEnabled = true ∨ d'.pollEnabled = d.pollEnabled ∨ wakes seen = true := by
  cases x with
  | ioctl cmd arg =>
    have hout : gpioIrqDemoIoctl d cmd arg = (d', seen) := Option.some.inj h
    unfold gpioIrqDemoIoctl at hout
    split_ifs at hout <;> obtain ⟨rfl, rfl⟩ := Prod.mk.inj hout
    · exact Or.inr (Or.inr rfl)
    · exact Or.inr (Or.inr rfl)
    · exact Or.inr (Or.inr rfl)
    · exact Or.inl rfl
    · exact Or.inr (Or.inl rfl)
  | write buff count =>
    have hout : gpioIrqDemoWrite d buff count = (d', seen) := Option.some.inj h
    unfold gpioIrqDemoWrite at hout
    split_ifs at hout <;> obtain ⟨rfl, rfl⟩ := Prod.mk.inj hout
    · exact Or.inr (Or.inl rfl)
    · exact Or.inr (Or.inl rfl)
  | timer =>
    simp only [DutyCycle.driver] at h
    split_ifs at h
    obtain ⟨rfl, rfl⟩ := Prod.mk.inj (Option.some.inj h)
    exact Or.inr (Or.inl rfl)

theorem drive_zero (s : State a) : ∃ t, s.drive (.ioctl (essDutyCycleGpio a) 0) = some t ∧
    t.driver.pollEnabled = false ∧ t.woken = true ∧
      { t with driver := s.driver, woken := s.woken } = s := by
  have hset : essDutyCycleGpio a ≠ essSetGpio := by cases a <;> decide
  have hclr : essDutyCycleGpio a ≠ essClrGpio := by cases a <;> decide
  refine ⟨_, rfl, ?_, ?_, rfl⟩ <;> simp [gpioIrqDemoIoctl, hset, hclr, wakes]

theorem mainStep_ioctl (h : s.main = .ioctl) : mainStep s ≠ none := by
  obtain ⟨t, ht, -⟩ := drive_zero s
  rw [mainStep, h, ht]
  exact Option.some_ne_none _

end Parts

section Steps

variable {cfg : Config} {n : ℕ} {s s' : State a} {x : Action a} {seen : List Seen}

theorem Ending.move (h : Ending cfg n s) (hthread : s.thread ≠ .exited) (pc : ThreadPc)
    (woken : Bool) {ring : CircularBufferMod2} (hring : Indexed ring n) (hasleep : pc ≠ .asleep)
    (hcheck : pc = .check → cfg.unblocked = none) :
    Ending cfg n { s with eventBulkDataBuffer := ring, woken := woken, thread := pc } where
  ring := hring
  enabled := h.enabled
  pollEnabled := h.pollEnabled
  exited hmain := absurd (h.exited hmain) hthread
  woken hpc := absurd hpc hasleep
  blocked hpc := hcheck (hpc.resolve_right hasleep)

theorem unblocked_cases {pc : ThreadPc} (h : cfg.unblocked = some pc) :
    pc = .read ∨ pc = .test := by
  unfold Config.unblocked at h
  cases hmode : cfg.pollMode <;> simp only [hmode, reduceCtorEq] at h
  · exact Or.inl (Option.some.inj h).symm
  · split_ifs at h
    exact Or.inr (Option.some.inj h).symm

theorem Ending.thread (h : Ending cfg n s) (hs : threadStep cfg s = some (s', seen)) :
    Ending cfg n s' := by
  unfold threadStep at hs
  cases hpc : s.thread <;> simp only [hpc, reduceCtorEq] at hs
  case test =>
    split_ifs at hs <;> obtain ⟨rfl, -⟩ := Prod.mk.inj (Option.some.inj hs)
    · exact h.move (by simp [hpc]) .enter _ h.ring (by simp) (by simp)
    · exact ⟨h.ring, h.enabled, h.pollEnabled, fun _ => rfl, by simp, by simp⟩
  case enter =>
    cases hunblocked : cfg.unblocked with
    | some pc =>
      simp only [hunblocked] at hs
      obtain ⟨rfl, -⟩ := Prod.mk.inj (Option.some.inj hs)
      rcases unblocked_cases hunblocked with rfl | rfl
      · exact h.move (by simp [hpc]) .read _ h.ring (by simp) (by simp)
      · exact h.move (by simp [hpc]) .test _ h.ring (by simp) (by simp)
    | none =>
      simp only [hunblocked] at hs
      obtain ⟨rfl, -⟩ := Prod.mk.inj (Option.some.inj hs)
      exact h.move (by simp [hpc]) .check _ h.ring (by simp) fun _ => hunblocked
  case check =>
    obtain ⟨rfl, -⟩ := Prod.mk.inj (Option.some.inj hs)
    split_ifs with hmask
    · exact h.move (by simp [hpc]) .read _ h.ring (by simp) (by simp)
    · refine ⟨h.ring, h.enabled, h.pollEnabled,
        fun hmain => absurd (h.exited hmain) (by simp [hpc]), fun _ hregistered hne => ?_,
        fun _ => h.blocked (Or.inl hpc)⟩
      have hsame : s.mask ≠ 0 := hne
      refine absurd ?_ hmask
      rw [hregistered, Bool.true_and, bne_iff_ne]
      exact hsame
  case asleep =>
    split_ifs at hs
    obtain ⟨rfl, -⟩ := Prod.mk.inj (Option.some.inj hs)
    exact h.move (by simp [hpc]) .check _ h.ring (by simp) fun _ => h.blocked (Or.inr hpc)
  case read =>
    split_ifs at hs with hread <;> obtain ⟨rfl, -⟩ := Prod.mk.inj (Option.some.inj hs)
    · have hring := h.ring.pop
      rw [← (read_record hread).2] at hring
      exact h.move (by simp [hpc]) .read s.woken hring (by simp) (by simp)
    · exact h.move (by simp [hpc]) .test _ h.ring (by simp) (by simp)

theorem Ending.drive {x : DutyCycle.Action a} (h : Ending cfg n s)
    (hmain : s.main = .running ∨ x = .timer) (hs : s.drive x = some s') : Ending cfg n s' := by
  obtain ⟨⟨d', out⟩, hdriver, rfl⟩ := Option.map_eq_some_iff.mp hs
  have hflag := pollEnabled_of_driver hdriver
  refine ⟨h.ring, h.enabled, fun hpc => ?_, h.exited, fun hpc hregistered hmask => ?_, h.blocked⟩
  · rcases hmain with hrunning | rfl
    · simp [hrunning] at hpc
    · simp only [DutyCycle.driver] at hdriver
      split_ifs at hdriver
      obtain ⟨rfl, -⟩ := Prod.mk.inj (Option.some.inj hdriver)
      exact h.pollEnabled hpc
  · rw [mask_ne_zero_iff] at hmask
    have hbefore := h.woken hpc hregistered
    rw [mask_ne_zero_iff] at hbefore
    rcases hmask with hempty | hoff
    · simp [hbefore (Or.inl hempty)]
    · rcases hflag with hon | hsame | hwakes
      · exact absurd (hon.symm.trans hoff) (by simp)
      · simp [hbefore (Or.inr (hsame.symm.trans hoff))]
      · simp [hwakes]

theorem Ending.main (h : Ending cfg n s) (hs : mainStep s = some (s', seen)) :
    Ending cfg n s' := by
  unfold mainStep at hs
  cases hmain : s.main <;> simp only [hmain, reduceCtorEq] at hs
  case ioctl =>
    obtain ⟨t, ht, hoff, hwoken, hsame⟩ := drive_zero s
    rw [ht] at hs
    obtain ⟨rfl, -⟩ := Prod.mk.inj (Option.some.inj hs)
    obtain ⟨henabled, -, hring, -, hthread, -⟩ := State.mk.inj hsame
    refine ⟨hring ▸ h.ring, fun _ => henabled.trans (h.enabled (by simp [hmain])), fun _ => hoff,
      by simp, fun _ _ _ => hwoken, fun hpc => h.blocked (hthread ▸ hpc)⟩
  case join =>
    split_ifs at hs with hexited
    obtain ⟨rfl, -⟩ := Prod.mk.inj (Option.some.inj hs)
    exact ⟨h.ring, fun _ => h.enabled (by simp [hmain]), fun _ => h.pollEnabled (Or.inl hmain),
      fun _ => hexited, h.woken, h.blocked⟩

theorem ending_started (d : DutyCycle.State a) {ring : CircularBufferMod2}
    (hring : Indexed ring n) : Ending cfg n (started d ring) :=
  ⟨hring, by simp [started], by simp [started], by simp [started], by simp [started],
    by simp [started]⟩

theorem ending_step (h : Ending cfg n s) (hs : dutyThread cfg s x = some (s', seen)) :
    Ending cfg n s' := by
  cases x with
  | thread => exact h.thread hs
  | fail =>
    simp only [dutyThread] at hs
    split_ifs at hs with hwaits
    obtain ⟨rfl, -⟩ := Prod.mk.inj (Option.some.inj hs)
    refine h.move (fun hexited => ?_) .test _ h.ring (by simp) (by simp)
    simp [hexited, ThreadPc.waits] at hwaits
  | main => exact h.main hs
  | drive x =>
    cases x with
    | timer =>
      obtain ⟨t, ht, hpair⟩ := Option.map_eq_some_iff.mp hs
      obtain ⟨rfl, -⟩ := Prod.mk.inj hpair
      exact h.drive (Or.inr rfl) ht
    | ioctl cmd arg | write buff count =>
      simp only [dutyThread] at hs
      split_ifs at hs with hmain
      obtain ⟨t, ht, hpair⟩ := Option.map_eq_some_iff.mp hs
      obtain ⟨rfl, -⟩ := Prod.mk.inj hpair
      exact h.drive (Or.inl hmain) ht
  | destroy =>
    simp only [dutyThread] at hs
    split_ifs at hs with hmain
    obtain ⟨rfl, -⟩ := Prod.mk.inj (Option.some.inj hs)
    exact ⟨h.ring, fun _ => rfl, by simp, by simp, h.woken, h.blocked⟩
  | event record =>
    simp only [dutyThread] at hs
    split_ifs at hs
    obtain ⟨rfl, -⟩ := Prod.mk.inj (Option.some.inj hs)
    exact ⟨h.ring.push record, h.enabled, h.pollEnabled, h.exited, fun _ _ _ => rfl, h.blocked⟩

end Steps

section Shutdown

variable {cfg : Config} {n : ℕ} {s s' : State a} {x : Action a} {seen tr : List Seen}

theorem thread_shutdown (h : Ending cfg n s) (henabled : s.enabled = false)
    (hs : threadStep cfg s = some (s', seen)) : s'.main = s.main ∧ s'.stepsLeft < s.stepsLeft ∧
      s'.joinable cfg = s.joinable cfg := by
  unfold threadStep at hs
  cases hpc : s.thread <;> simp only [hpc, reduceCtorEq] at hs
  case test =>
    rw [henabled, if_neg Bool.false_ne_true] at hs
    obtain ⟨rfl, -⟩ := Prod.mk.inj (Option.some.inj hs)
    exact ⟨rfl, by simp [State.stepsLeft, hpc], by simp [State.joinable, ThreadPc.waits, hpc]⟩
  case enter =>
    cases hunblocked : cfg.unblocked with
    | some pc =>
      simp only [hunblocked] at hs
      obtain ⟨rfl, -⟩ := Prod.mk.inj (Option.some.inj hs)
      refine ⟨rfl, ?_, by simp [State.joinable, hunblocked]⟩
      rcases unblocked_cases hunblocked with rfl | rfl <;> simp [State.stepsLeft, hpc]
    | none =>
      simp only [hunblocked] at hs
      obtain ⟨rfl, -⟩ := Prod.mk.inj (Option.some.inj hs)
      refine ⟨rfl, ?_, by simp [State.joinable, ThreadPc.waits, hpc]⟩
      simp only [State.stepsLeft, hpc, Bool.toNat_false]
      omega
  case check =>
    have hblocked : cfg.unblocked = none := h.blocked (Or.inl hpc)
    obtain ⟨rfl, -⟩ := Prod.mk.inj (Option.some.inj hs)
    split_ifs with hmask
    · rw [Bool.and_eq_true] at hmask
      exact ⟨rfl, by simp [State.stepsLeft, hpc], by simp [State.joinable, hmask.1]⟩
    · exact ⟨rfl, by simp [State.stepsLeft, hpc], by simp [State.joinable, ThreadPc.waits, hpc]⟩
  case asleep =>
    split_ifs at hs with hwoken
    obtain ⟨rfl, -⟩ := Prod.mk.inj (Option.some.inj hs)
    rw [Bool.and_eq_true] at hwoken
    refine ⟨rfl, ?_, by simp [State.joinable, ThreadPc.waits, hpc]⟩
    simp only [State.stepsLeft, hpc, hwoken.2, Bool.toNat_true, Bool.toNat_false]
    omega
  case read =>
    split_ifs at hs with hread <;> obtain ⟨rfl, -⟩ := Prod.mk.inj (Option.some.inj hs)
    · refine ⟨rfl, ?_, by simp [State.joinable, ThreadPc.waits, hpc]⟩
      obtain ⟨hsize, hpop⟩ := read_record hread
      have hnearer := h.ring.toHead_pop hsize
      simp only [State.stepsLeft, hpc, hpop]
      omega
    · exact ⟨rfl, by simp [State.stepsLeft, hpc], by simp [State.joinable, ThreadPc.waits, hpc]⟩

theorem main_shutdown (cfg : Config) (hs : mainStep s = some (s', seen)) : s'.main ≠ .running ∧
    s'.stepsLeft < s.stepsLeft ∧ s'.joinable cfg = s.joinable cfg := by
  unfold mainStep at hs
  cases hmain : s.main <;> simp only [hmain, reduceCtorEq] at hs
  case ioctl =>
    obtain ⟨t, ht, -, hwoken, hsame⟩ := drive_zero s
    rw [ht] at hs
    obtain ⟨rfl, -⟩ := Prod.mk.inj (Option.some.inj hs)
    obtain ⟨-, -, hring, -, hthread, -⟩ := State.mk.inj hsame
    refine ⟨by simp, ?_, by simp [State.joinable, hthread]⟩
    simp only [State.stepsLeft, hmain, hring, hthread, hwoken, Bool.toNat_true]
    omega
  case join =>
    split_ifs at hs
    obtain ⟨rfl, -⟩ := Prod.mk.inj (Option.some.inj hs)
    exact ⟨by simp, by simp [State.stepsLeft, hmain], rfl⟩

/-- The destructor has begun, and whether the thread can be joined is settled. -/
structure Destroying (cfg : Config) (n : ℕ) (joinable : Bool) (s : State a) : Prop where
  ending : Ending cfg n s
  begun : s.main ≠ .running
  joinable : s.joinable cfg = joinable

/-- In the destructor every step of the two threads uses up some of what is left. -/
theorem shutdown_decreases (b : Bool) : Decreases ((dutyThread cfg).when ofThreads)
    (Destroying (a := a) cfg n b) State.stepsLeft := by
  rintro s x s' seen ⟨hending, hbegun, hjoinable⟩ hs
  obtain ⟨hthreads, hs⟩ := Machine.when_eq_some.mp hs
  have hending' := ending_step hending hs
  cases x with
  | thread =>
    obtain ⟨hmain, hlt, hsame⟩ := thread_shutdown hending (hending.enabled hbegun) hs
    exact ⟨⟨hending', hmain ▸ hbegun, hsame.trans hjoinable⟩, hlt⟩
  | main =>
    obtain ⟨hmain, hlt, hsame⟩ := main_shutdown cfg hs
    exact ⟨⟨hending', hmain, hsame.trans hjoinable⟩, hlt⟩
  | fail | drive | destroy | event => cases hthreads

theorem threadStep_eq_none (h : threadStep cfg s = none) :
    s.thread = .exited ∨ s.thread = .asleep ∧ (cfg.registered && s.woken) = false := by
  unfold threadStep at h
  cases hpc : s.thread <;> simp only [hpc, reduceCtorEq] at h
  case exited => exact Or.inl rfl
  case asleep =>
    split_ifs at h with hwoken
    exact Or.inr ⟨rfl, Bool.eq_false_iff.mpr hwoken⟩
  case test => split_ifs at h
  case enter => cases hunblocked : cfg.unblocked <;> simp [hunblocked] at h
  case read => split_ifs at h

theorem Destroying.exited (h : Destroying cfg n true s) (hthread : threadStep cfg s = none)
    (hmain : mainStep s = none) : s.thread = .exited := by
  obtain ⟨hending, hbegun, hjoinable⟩ := h
  rcases threadStep_eq_none hthread with hexited | ⟨hasleep, hunwoken⟩
  · exact hexited
  · have hregistered : cfg.registered = true := by
      simpa [State.joinable, hending.blocked (Or.inr hasleep), hasleep, ThreadPc.waits]
        using hjoinable
    have hflag : s.driver.pollEnabled = false := by
      refine hending.pollEnabled ?_
      cases hpc : s.main with
      | running => exact absurd hpc hbegun
      | ioctl => exact absurd hmain (mainStep_ioctl hpc)
      | join => exact Or.inl rfl
      | done => exact Or.inr rfl
    have hwoken := hending.woken hasleep hregistered ((mask_ne_zero_iff s).mpr (Or.inr hflag))
    rw [hregistered, hwoken] at hunwoken
    cases hunwoken

theorem Destroying.stop {b : Bool} (h : Destroying cfg n b s)
    (hthread : threadStep cfg s = none) (hmain : mainStep s = none) :
    if b then s.main = .done ∧ s.thread = .exited else s.thread ≠ .exited := by
  cases b with
  | false =>
    rw [if_neg Bool.false_ne_true]
    intro hexited
    have hjoinable := h.joinable
    simp [State.joinable, hexited, ThreadPc.waits] at hjoinable
  | true =>
    rw [if_pos rfl]
    have hexited := h.exited hthread hmain
    refine ⟨?_, hexited⟩
    cases hpc : s.main with
    | running => exact absurd hpc h.begun
    | done => rfl
    | ioctl => exact absurd hmain (mainStep_ioctl hpc)
    | join => simp [mainStep, hpc, hexited] at hmain

theorem stop_iff (s : State a) : (∀ x, (dutyThread cfg).when ofThreads s x = none) ↔
    threadStep cfg s = none ∧ mainStep s = none := by
  constructor
  · intro h
    exact ⟨by simpa [Machine.when, ofThreads, dutyThread] using h .thread,
      by simpa [Machine.when, ofThreads, dutyThread] using h .main⟩
  · rintro ⟨hthread, hmain⟩ x
    cases x <;> simp [Machine.when, ofThreads, dutyThread, hthread, hmain]

/-- From every state of the destructor, every run of the two threads ends with the thread joined
if and only if the thread is not where it waits, or waits for the descriptor. The ring is as any
calls after its `init` have left it. -/
theorem join_returns_iff {kmalloc : SizeT → Option Mem} {r r₀ q : CircularBufferMod2}
    {elementSize numElements : SizeT} (hinit : init kmalloc r elementSize numElements = (0, r₀))
    (hpos : numElements ≠ 0#64) {calls : List CircBufferPow2.Seen}
    (hq : Reaches CircBufferMod2.ring r₀ q calls) {d : DutyCycle.State a}
    (h : Reaches (dutyThread cfg) (started d q) s tr)
    (hbegun : s.main ≠ .running) :
    Completes ((dutyThread cfg).when ofThreads) s s.stepsLeft
        (fun s' _ => s'.main = .done ∧ s'.thread = .exited) ↔
      s.joinable cfg = true := by
  have hring : Indexed q numElements.toNat := indexed_of_reaches (Indexed.init hpos hinit) hq
  have hending : Ending cfg numElements.toNat s :=
    h.invariant (I := fun s _ => Ending cfg numElements.toNat s) (ending_started d hring)
      fun _ _ _ _ _ hI hs => ending_step hI hs
  have hdestroying : Destroying cfg numElements.toNat (s.joinable cfg) s := ⟨hending, hbegun, rfl⟩
  constructor
  · intro hcompletes
    by_contra hjoinable
    obtain ⟨s', tr', hreach, hstop⟩ := (shutdown_decreases _).exists_stop s hdestroying
    obtain ⟨as, has⟩ := hreach.exists_exec
    have hend := (shutdown_decreases _).length_le hdestroying has
    have hstopped := hend.1.stop ((stop_iff s').mp hstop).1 ((stop_iff s').mp hstop).2
    rw [if_neg hjoinable] at hstopped
    exact hstopped ((hcompletes as s' tr' has).2 hstop).2
  · intro hjoinable
    rw [hjoinable] at hdestroying
    refine (shutdown_decreases true).completes hdestroying fun s' tr' _ hI hstop => ?_
    have hstopped := hI.stop ((stop_iff s').mp hstop).1 ((stop_iff s').mp hstop).2
    rwa [if_pos rfl] at hstopped

def dutyDriver : DutyCycle.State .arm :=
  (gpioIrqDemoIoctl (DutyCycle.initial 0 0) (essDutyCycleGpio .arm) 1000).1

def bulkSlots : CircularBufferMod2 := (init (fun _ => some CircBufferPow2.null) default 96 4).2

/-- An event comes while the thread sleeps, and it reads and sleeps again. -/
def eventWhileAsleep (reads : ℕ) : List (Action .arm) :=
  .event CircBufferPow2.null :: List.replicate (6 + reads) .thread

/-- Four events are read as five records, the last of them from behind the storage, and the
thread sleeps when the destructor begins. -/
theorem join_returns_asleep : ∃ s tr,
    exec (dutyThread ⟨.epoll, true, true⟩) (started dutyDriver bulkSlots)
      (List.replicate 3 Action.thread ++ (List.replicate 3 (eventWhileAsleep 1)).flatten ++
        eventWhileAsleep 2 ++ [Action.destroy]) = some (s, tr) ∧
      tr.length = 5 ∧ s.thread = .asleep ∧
      Completes ((dutyThread ⟨.epoll, true, true⟩).when ofThreads) s s.stepsLeft
        (fun s' _ => s'.main = .done ∧ s'.thread = .exited) := by
  obtain ⟨s, tr, hrun, hrecords, hasleep, hbegun, hjoinable⟩ : ∃ s tr,
      exec (dutyThread ⟨.epoll, true, true⟩) (started dutyDriver bulkSlots)
        (List.replicate 3 Action.thread ++ (List.replicate 3 (eventWhileAsleep 1)).flatten ++
          eventWhileAsleep 2 ++ [Action.destroy]) = some (s, tr) ∧
        tr.length = 5 ∧ s.thread = .asleep ∧
        s.main ≠ .running ∧ s.joinable ⟨.epoll, true, true⟩ = true := by
    decide +kernel
  have hinit : init (fun _ => some CircBufferPow2.null) default 96 4 = (0, bulkSlots) := rfl
  exact ⟨s, tr, hrun, hrecords, hasleep,
    (join_returns_iff hinit (by decide) .start (Reaches.of_exec hrun) hbegun).mpr hjoinable⟩

/-- `epoll_ctl` has failed, and the thread waits for nothing. -/
theorem never_joined : ∃ s tr,
    exec (dutyThread ⟨.epoll, true, false⟩) (started dutyDriver bulkSlots)
      (List.replicate 3 Action.thread ++ [Action.destroy, .main]) = some (s, tr) ∧ s.main = .join ∧
      threadStep ⟨.epoll, true, false⟩ s = none ∧ mainStep s = none := by
  decide +kernel

end Shutdown

end LinuxOddsAndEnds.Rpi3.DutyThread
