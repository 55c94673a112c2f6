import LinuxOddsAndEnds.Foundation.Throughout
import LinuxOddsAndEnds.Rpi3.KeyEntry

/-!
# The test client on its driver

`process_key_entry` makes its system calls one after the other, and the timer of the driver
may expire between any two of them. Once a turn of the key loop has made all its calls, the
timer, the flag of `gpio_irq_demo_poll` and the mode of the client agree. The driver keeps
what it was told when a client is killed, so the next client may start beside an armed timer.
-/

namespace LinuxOddsAndEnds.Rpi3.ClientDriver

open Foundation KeyEntry DutyCycle

/-- `calls` are the system calls that the turn has still to make. -/
structure System (a : Arch) where
  client : Locals a
  calls : List (KeyEntry.Seen a)
  driver : DutyCycle.State a

/-- `unset` is what the driver finds as the argument of a call that passes none. -/
inductive Action (a : Arch) where
  /-- A turn of the key loop with its first call. -/
  | turn (k : Turn) (unset : Long a)
  | call (unset : Long a)
  | timer
  /-- The client has quit or is killed, and is started again. -/
  | rerun

variable {a : Arch}

def buffer (g : BurstSequence) : Mem := fun i => if h : i < 10 then g[i] else 0

/-- A system call of the client. An arrow is none. -/
def perform (unset : Long a) (d : DutyCycle.State a) :
    KeyEntry.Seen a → DutyCycle.State a × List (DutyCycle.Seen a)
  | .write sequence => gpioIrqDemoWrite d (buffer sequence) 10
  | .ioctl cmd arg => gpioIrqDemoIoctl d cmd (arg.getD unset)
  | .read | .arrow _ _ => (d, [])

def ioctlRetval (d : DutyCycle.State a) (cmd : BitVec 32) (arg : Long a) : ℤ :=
  match (gpioIrqDemoIoctl d cmd arg).2.getLast? with
  | some (.ioctl _ _ retval) => retval
  | _ => 0

/-- The turn with the answers of the driver; a read of one byte never fails. -/
def answered (d : DutyCycle.State a) (c : Locals a) (k : Turn) : Turn :=
  { k with
    retval := ioctlRetval d (essDutyCycleGpio a) c.dutyCycleMsec
    gpioVal := some (if d.gpo then 1 else 0) }

def issue (unset : Long a) (s : System a) : System a × List (DutyCycle.Seen a) :=
  match s.calls with
  | [] => (s, [])
  | x :: rest =>
    ({ s with calls := rest, driver := (perform unset s.driver x).1 },
      (perform unset s.driver x).2)

def loaded (periodSec periodNsec : Long a) : System a :=
  ⟨KeyEntry.initial a, [], DutyCycle.initial periodSec periodNsec⟩

def system (a : Arch) : Machine (System a) (Action a) (DutyCycle.Seen a)
  | s, .turn k unset =>
    if s.client.running && s.calls.isEmpty then
      let out := keyEntry (answered s.driver s.client k) s.client
      some (issue unset { s with client := out.1, calls := out.2 })
    else none
  | s, .call unset => if s.calls.isEmpty then none else some (issue unset s)
  | s, .timer =>
    if s.driver.timer.isSome then some ({ s with driver := myKtFunction s.driver }, []) else none
  | s, .rerun => some ({ s with client := KeyEntry.initial a, calls := [] }, [])

def blinking (c : Locals a) : Bool :=
  c.testMode = .gpioDutyCycleMode ∧ c.dutyCycleMsec ≠ 0

/-- The interval of a timer that is started with so many milliseconds. -/
def intervalOf (msec : Long a) : ℤ :=
  if ktimeSecMax ≤ (msec.toNat / 1000 : ℕ) then ktimeMax else (msec.toNat : ℤ) * 1000000

structure Agrees (c : Locals a) (d : DutyCycle.State a) : Prop where
  object : c.dutyCycle.isSome = true ↔ c.testMode = .gpioDutyCycleMode
  quit : c.running = false → c.testMode = .gpioToggleMode
  flag : d.pollEnabled = blinking c
  timer : d.timer = if blinking c then some (intervalOf c.dutyCycleMsec) else none

/-- A client is killed, or started again, only while the driver is idle. -/
def tidy (s : System a) : Action a → Bool
  | .rerun => s.driver.timer.isNone && !s.driver.pollEnabled
  | _ => true

/-- The remaining calls end with the driver in agreement. -/
def Lands (c : Locals a) : List (KeyEntry.Seen a) → DutyCycle.State a → Prop
  | [], d => Agrees c d
  | x :: rest, d => ∀ unset, Lands c rest (perform unset d x).1

/-- The timer of the driver runs with the period that is stored. -/
def Follows (d : DutyCycle.State a) : Prop :=
  ∀ interval, d.timer = some interval → interval = d.interval

/-- Two states of the driver that differ in the level of the pin only. -/
structure SameButLevel (d d' : DutyCycle.State a) : Prop where
  flag : d.pollEnabled = d'.pollEnabled
  timer : d.timer = d'.timer
  periodSec : d.periodSec = d'.periodSec
  periodNsec : d.periodNsec = d'.periodNsec

section Calls

variable {c : Locals a} {d d' : DutyCycle.State a} {unset : Long a} {x : KeyEntry.Seen a}
  {calls : List (KeyEntry.Seen a)}

theorem SameButLevel.ioctl (h : SameButLevel d d') (cmd : BitVec 32) (arg : Long a) :
    SameButLevel (gpioIrqDemoIoctl d cmd arg).1 (gpioIrqDemoIoctl d' cmd arg).1 := by
  unfold gpioIrqDemoIoctl
  split_ifs
  · exact ⟨rfl, rfl, h.periodSec, h.periodNsec⟩
  · exact ⟨rfl, rfl, h.periodSec, h.periodNsec⟩
  · exact ⟨rfl, rfl, h.periodSec, h.periodNsec⟩
  · exact ⟨rfl, rfl, rfl, rfl⟩
  · exact h

theorem SameButLevel.write (h : SameButLevel d d') (buff : Mem) (count : Long a) :
    SameButLevel (gpioIrqDemoWrite d buff count).1 (gpioIrqDemoWrite d' buff count).1 := by
  unfold gpioIrqDemoWrite
  split_ifs
  · exact h
  · exact ⟨h.flag, rfl, h.periodSec, h.periodNsec⟩

theorem SameButLevel.perform (h : SameButLevel d d') (unset : Long a) (x : KeyEntry.Seen a) :
    SameButLevel (perform unset d x).1 (perform unset d' x).1 := by
  cases x with
  | write sequence => exact h.write _ _
  | ioctl cmd arg => exact h.ioctl _ _
  | read | arrow _ _ => exact h

theorem SameButLevel.agrees (h : SameButLevel d d') (ha : Agrees c d) : Agrees c d' where
  object := ha.object
  quit := ha.quit
  flag := h.flag ▸ ha.flag
  timer := h.timer ▸ ha.timer

theorem SameButLevel.lands (h : SameButLevel d d') (hl : Lands c calls d) : Lands c calls d' := by
  induction calls generalizing d d' with
  | nil => exact h.agrees hl
  | cons x rest ih => exact fun unset => ih (h.perform unset x) (hl unset)

theorem Follows.perform (h : Follows d) (unset : Long a) (x : KeyEntry.Seen a) :
    Follows (perform unset d x).1 := by
  cases x with
  | write sequence =>
    unfold ClientDriver.perform gpioIrqDemoWrite
    split_ifs
    · exact h
    · simp [Follows]
  | ioctl cmd arg =>
    rcases gpioIrqDemoIoctl_cases d cmd (arg.getD unset) with ⟨htimer, -⟩ | ⟨-, -, hout⟩ |
      ⟨hsame, -⟩
    · simp [Follows, ClientDriver.perform, htimer]
    · intro interval hinterval
      rw [ClientDriver.perform, hout] at hinterval ⊢
      exact (Option.some.inj hinterval).symm
    · rw [Follows, ClientDriver.perform, hsame]
      exact h
  | read | arrow _ _ => exact h

theorem sameButLevel_timer (h : Follows d) (harmed : d.timer.isSome = true) :
    SameButLevel d (myKtFunction d) := by
  obtain ⟨interval, htimer⟩ := Option.isSome_iff_exists.mp harmed
  refine ⟨rfl, ?_, rfl, rfl⟩
  rw [htimer, h interval htimer]
  rfl

theorem agrees_of_idle (hobject : c.dutyCycle.isSome = true ↔ c.testMode = .gpioDutyCycleMode)
    (hquit : c.running = false → c.testMode = .gpioToggleMode) (hblinking : blinking c = false)
    (htimer : d.timer = none) (hflag : d.pollEnabled = false) : Agrees c d where
  object := hobject
  quit := hquit
  flag := by rw [hflag, hblinking]
  timer := by simp [htimer, hblinking]

theorem Agrees.idle (h : Agrees c d) (hmode : c.testMode ≠ .gpioDutyCycleMode) :
    d.timer = none ∧ d.pollEnabled = false := by
  have hblinking : blinking c = false := by simp [blinking, hmode]
  exact ⟨by simp [h.timer, hblinking], by rw [h.flag, hblinking]⟩

end Calls

section Turns

variable {c : Locals a} {d : DutyCycle.State a} {k : Turn}

theorem ioctl_idle (d : DutyCycle.State a) {cmd : BitVec 32} {arg : Long a}
    (h : cmd = essSetGpio ∨ cmd = essClrGpio ∨ cmd = essDutyCycleGpio a ∧ arg = 0) :
    (gpioIrqDemoIoctl d cmd arg).1.timer = none ∧
      (gpioIrqDemoIoctl d cmd arg).1.pollEnabled = false := by
  unfold gpioIrqDemoIoctl
  split_ifs with h1 h2 h3 h4
  · exact ⟨rfl, rfl⟩
  · exact ⟨rfl, rfl⟩
  · exact ⟨rfl, rfl⟩
  · rcases h with h | h | h
    · exact absurd h h1
    · exact absurd h h2
    · exact absurd h.2 h4
  · rcases h with h | h | h
    · exact absurd h h1
    · exact absurd h h2
    · exact absurd h.1 h3

theorem ioctl_level_idle (d : DutyCycle.State a) {cmd : BitVec 32} (arg : Long a)
    (h : cmd = essSetGpio ∨ cmd = essClrGpio) : (gpioIrqDemoIoctl d cmd arg).1.timer = none ∧
      (gpioIrqDemoIoctl d cmd arg).1.pollEnabled = false :=
  ioctl_idle d (h.imp_right Or.inl)

theorem ioctl_duty_zero (d : DutyCycle.State a) : gpioIrqDemoIoctl d (essDutyCycleGpio a) 0 =
    ({ d with timer := none, pollEnabled := false },
      [.woken, .ioctl (essDutyCycleGpio a) 0 0]) := by
  have hset : essDutyCycleGpio a ≠ essSetGpio := by cases a <;> decide
  have hclr : essDutyCycleGpio a ≠ essClrGpio := by cases a <;> decide
  rw [gpioIrqDemoIoctl, if_neg hset, if_neg hclr, if_pos rfl, if_pos rfl]

theorem ioctlRetval_duty (d : DutyCycle.State a) (msec : Long a) :
    ioctlRetval d (essDutyCycleGpio a) msec = 0 := by
  by_cases hmsec : msec = 0
  · rw [ioctlRetval, hmsec, ioctl_duty_zero]
    rfl
  · rw [ioctlRetval, gpioIrqDemoIoctl_start d hmsec]
    rfl

/-- The request for a period brings the driver into agreement, wherever it was. -/
theorem agrees_ask (hmode : c.testMode = .gpioDutyCycleMode) (hobject : c.dutyCycle.isSome = true)
    (hrunning : c.running = true) (d : DutyCycle.State a) :
    Agrees c (gpioIrqDemoIoctl d (essDutyCycleGpio a) c.dutyCycleMsec).1 := by
  have hquit : c.running = false → c.testMode = .gpioToggleMode := by simp [hrunning]
  have hiff := iff_of_true hobject hmode
  by_cases hmsec : c.dutyCycleMsec = 0
  · obtain ⟨htimer, hflag⟩ :=
      ioctl_idle d (Or.inr (Or.inr ⟨rfl, hmsec⟩))
    exact agrees_of_idle hiff hquit (by simp [blinking, hmsec]) htimer hflag
  · have hblinking : blinking c = true := decide_eq_true ⟨hmode, hmsec⟩
    rw [gpioIrqDemoIoctl_start d hmsec]
    refine ⟨hiff, hquit, ?_, ?_⟩
    · rw [hblinking]
      rfl
    · rw [hblinking, if_pos rfl, intervalOf, ← startDutyCycle_interval d]
      rfl

theorem lands_destroyed (hobject : c.dutyCycle = none) (hmode : c.testMode ≠ .gpioDutyCycleMode)
    (hquit : c.running = false → c.testMode = .gpioToggleMode) {old : Option PollMode}
    (hidle : old = none → d.timer = none ∧ d.pollEnabled = false) :
    Lands c (destroyed old) d := by
  have hiff : c.dutyCycle.isSome = true ↔ c.testMode = .gpioDutyCycleMode := by
    simp [hobject, hmode]
  have hblinking : blinking c = false := by simp [blinking, hmode]
  cases old with
  | none => exact agrees_of_idle hiff hquit hblinking (hidle rfl).1 (hidle rfl).2
  | some _ =>
    intro unset
    obtain ⟨htimer, hflag⟩ := ioctl_idle d (Or.inr (Or.inr ⟨rfl, rfl⟩))
    exact agrees_of_idle hiff hquit hblinking htimer hflag

theorem Agrees.dutyCycle_eq_none (h : Agrees c d) (hmode : c.testMode ≠ .gpioDutyCycleMode) :
    c.dutyCycle = none := by
  rw [← Option.not_isSome_iff_eq_none]
  exact mt h.object.mp hmode

theorem lands_toggleKey (h : Agrees c d) (running : Bool) :
    Lands { (toggleKey c).1 with running } (toggleKey c).2 d := by
  unfold toggleKey
  split_ifs with hmode
  · intro unset
    exact lands_destroyed rfl (by simp) (fun _ => rfl) fun _ => ioctl_idle d (Or.inr (Or.inl rfl))
  · have htoggle : c.testMode = .gpioToggleMode := not_not.mp hmode
    exact ⟨h.object, fun _ => htoggle, h.flag, h.timer⟩

theorem lands_burstKey (h : Agrees c d) (hrunning : c.running = true) :
    Lands (burstKey c).1 (burstKey c).2 d := by
  unfold burstKey
  split_ifs
  · intro unset
    have heven : (10 : Long a).toNat % 2 = 0 := by cases a <;> decide
    refine lands_destroyed rfl (by simp) (by simp [hrunning]) fun hobject => ?_
    have hmode : c.testMode ≠ .gpioDutyCycleMode := fun hmode => by
      have hsome := h.object.mpr hmode
      rw [hobject] at hsome
      cases hsome
    have hwrite := gpioIrqDemoWrite_even d
      (buffer ((c.gpioBurstSequence.set 3 0x3F).set 7 0xFF)) heven
    exact ⟨hwrite.1, hwrite.2.trans (h.idle hmode).2⟩
  · exact h

theorem lands_dutyKey (h : Agrees c d) (hrunning : c.running = true) :
    Lands (dutyKey 0 c).1 (dutyKey 0 c).2 d := by
  by_cases hmode : c.testMode = .gpioDutyCycleMode
  · rw [dutyKey, if_neg (not_not.mpr hmode)]
    exact h
  · have hnone : c.dutyCycle = none := h.dutyCycle_eq_none hmode
    have hout : (dutyKey 0 c).2 = [.ioctl (essDutyCycleGpio a) (some c.dutyCycleMsec),
        .ioctl (essDutyCycleGpio a) (some c.dutyCycleMsec)] := by
      simp [dutyKey, hmode, hnone, destroyed]
    have hin : (dutyKey 0 c).1 = { c with
        testMode := .gpioDutyCycleMode, dutyCycle := some c.pollMode
        pollMode := c.pollMode.advance } := by
      simp [dutyKey, hmode]
    have hasked := agrees_ask (c := { c with
      testMode := .gpioDutyCycleMode, dutyCycle := some c.pollMode
      pollMode := c.pollMode.advance }) rfl rfl hrunning
    rw [hin, hout]
    exact fun unset unset' => hasked _

theorem lands_arrowKey {v : Byte} (h : Agrees c d) (hrunning : c.running = true) :
    Lands (arrowKey { k with gpioVal := some v } c).1 (arrowKey { k with gpioVal := some v } c).2
      d := by
  unfold arrowKey
  cases hadvance : Turn.advance { k with gpioVal := some v } with
  | none => exact h
  | some advanceMode =>
    cases hmode : c.testMode with
    | gpioBurstMode =>
      intro unset unset'
      have heven : (10 : Long a).toNat % 2 = 0 := by cases a <;> decide
      have hne : c.testMode ≠ .gpioDutyCycleMode := by simp [hmode]
      obtain ⟨htimer, hflag⟩ := gpioIrqDemoWrite_even d
        (buffer (adjust advanceMode c.gpioBurstSequence)) heven
      exact agrees_of_idle h.object h.quit (by simp [blinking, burstArrow, hmode]) htimer
        (hflag.trans (h.idle hne).2)
    | gpioToggleMode =>
      intro unset unset'
      have hlevel : (if v ≠ 0 then essClrGpio else essSetGpio) = essSetGpio ∨
          (if v ≠ 0 then essClrGpio else essSetGpio) = essClrGpio := by
        split_ifs <;> simp
      obtain ⟨htimer, hflag⟩ := ioctl_level_idle d unset' hlevel
      exact agrees_of_idle h.object h.quit (by simp [blinking, hmode, toggleArrow]) htimer hflag
    | gpioDutyCycleMode =>
      have hobject : (dutyArrow advanceMode c).1.dutyCycle.isSome = true := h.object.mpr hmode
      exact fun unset => agrees_ask (c := (dutyArrow advanceMode c).1) hmode hobject hrunning d

theorem lands_keyEntry (h : Agrees c d) (hrunning : c.running = true) :
    Lands (keyEntry (answered d c k) c).1 (keyEntry (answered d c k) c).2 d := by
  have hretval : (answered d c k).retval = 0 := ioctlRetval_duty d _
  unfold keyEntry
  split_ifs
  · exact lands_toggleKey h false
  · exact lands_burstKey h hrunning
  · have hsame : { (toggleKey c).1 with running := c.running } = (toggleKey c).1 := by
      unfold toggleKey
      split_ifs <;> rfl
    exact hsame ▸ lands_toggleKey h c.running
  · rw [hretval]
    exact lands_dutyKey h hrunning
  · exact lands_arrowKey h hrunning
  · exact h

end Turns

section Runs

variable {s s' : System a} {tr seen : List (DutyCycle.Seen a)}

structure Settling (s : System a) : Prop where
  lands : Lands s.client s.calls s.driver
  follows : Follows s.driver

theorem settling_loaded (periodSec periodNsec : Long a) : Settling (loaded periodSec periodNsec) :=
  ⟨⟨by simp [loaded, KeyEntry.initial], by simp [loaded, KeyEntry.initial],
      by simp [loaded, DutyCycle.initial, blinking, KeyEntry.initial],
      by simp [loaded, DutyCycle.initial, blinking, KeyEntry.initial]⟩,
    by simp [Follows, loaded, DutyCycle.initial]⟩

theorem Settling.issue (h : Settling s) (unset : Long a) : Settling (issue unset s).1 := by
  obtain ⟨hlands, hfollows⟩ := h
  unfold ClientDriver.issue
  cases hcalls : s.calls with
  | nil =>
    rw [hcalls] at hlands
    exact ⟨by rwa [hcalls], hfollows⟩
  | cons x rest =>
    rw [hcalls] at hlands
    exact ⟨hlands unset, hfollows.perform unset x⟩

theorem agrees_initial_iff (d : DutyCycle.State a) :
    Agrees (KeyEntry.initial a) d ↔ d.timer = none ∧ d.pollEnabled = false := by
  have hblinking : blinking (KeyEntry.initial a) = false := by simp [blinking, KeyEntry.initial]
  constructor
  · intro h
    exact h.idle (by simp [KeyEntry.initial])
  · rintro ⟨htimer, hflag⟩
    exact agrees_of_idle (by simp [KeyEntry.initial]) (by simp [KeyEntry.initial]) hblinking htimer
      hflag

theorem Settling.step {x : Action a} (h : Settling s) (htidy : tidy s x = true)
    (hs : system a s x = some (s', seen)) : Settling s' := by
  cases x with
  | turn k unset =>
    simp only [system] at hs
    split_ifs at hs with hready
    obtain ⟨rfl, -⟩ := Prod.mk.inj (Option.some.inj hs)
    rw [Bool.and_eq_true, List.isEmpty_iff] at hready
    have hagrees : Agrees s.client s.driver := by
      have hlands := h.lands
      rwa [hready.2] at hlands
    let out := keyEntry (answered s.driver s.client k) s.client
    have hbegun : Settling { s with client := out.1, calls := out.2 } :=
      ⟨lands_keyEntry hagrees hready.1, h.follows⟩
    exact hbegun.issue unset
  | call unset =>
    simp only [system] at hs
    split_ifs at hs
    obtain ⟨rfl, -⟩ := Prod.mk.inj (Option.some.inj hs)
    exact h.issue unset
  | timer =>
    simp only [system] at hs
    split_ifs at hs with harmed
    obtain ⟨rfl, -⟩ := Prod.mk.inj (Option.some.inj hs)
    refine ⟨(sameButLevel_timer h.follows harmed).lands h.lands, fun _ hinterval => ?_⟩
    exact (Option.some.inj hinterval).symm
  | rerun =>
    obtain ⟨rfl, -⟩ := Prod.mk.inj (Option.some.inj hs)
    have hidle : s.driver.timer = none ∧ s.driver.pollEnabled = false := by
      simpa [tidy] using htidy
    exact ⟨(agrees_initial_iff s.driver).mpr hidle, h.follows⟩

/-- Whenever no turn is under way, client and driver agree: throughout a run if and only if
each client was started beside an idle driver. -/
theorem client_driver_agree_iff (periodSec periodNsec : Long a) (as : List (Action a))
    (hrun : (exec (system a) (loaded periodSec periodNsec) as).isSome) :
    Throughout (system a) (fun s _ => s.calls = [] → Agrees s.client s.driver)
        (loaded periodSec periodNsec) as ↔
      (exec ((system a).when tidy) (loaded periodSec periodNsec) as).isSome := by
  refine throughout_iff (I := fun s _ => Settling s) ?_ ?_ ?_ (settling_loaded _ _) hrun
  · intro s tr h hcalls
    have hlands := h.lands
    rwa [hcalls] at hlands
  · exact fun s tr x s' seen h htidy hs => h.step htidy hs
  · intro s tr x s' seen _ htidy hs hagrees
    cases x with
    | rerun =>
      obtain ⟨rfl, -⟩ := Prod.mk.inj (Option.some.inj hs)
      have hidle := (agrees_initial_iff s.driver).mp (hagrees rfl)
      simp [tidy, hidle.1, hidle.2] at htidy
    | turn | call | timer => cases htidy

/-- Duty-cycle mode with an arrow and back, and a second client. -/
theorem client_driver_agree_session : Throughout (system .arm)
    (fun s _ => s.calls = [] → Agrees s.client s.driver) (loaded 0 0)
    [.turn (modeKey 100) 0, .timer, .call 0, .timer, .turn upArrow 0, .turn (modeKey 98) 0, .call 0,
      .turn (modeKey 113) 0, .rerun, .turn upArrow 0, .call 0] :=
  (client_driver_agree_iff 0 0 _ (by decide)).mpr (by decide)

/-- A client killed in duty-cycle mode leaves the timer to the next one. -/
theorem killed_beside_timer : ¬Throughout (system .arm)
    (fun s _ => s.calls = [] → Agrees s.client s.driver) (loaded 0 0)
    [.turn (modeKey 100) 0, .call 0, .rerun] := by
  intro h
  have hagrees := h.last rfl rfl
  exact absurd ((agrees_initial_iff _).mp hagrees).1 (by decide)

end Runs

def askedLevel : DutyCycle.Seen a → Option Bool
  | .level value _ => some value
  | .ioctl cmd _ _ =>
    if cmd = essSetGpio then some true else if cmd = essClrGpio then some false else none
  | _ => none

/-- The level that was last asked for; it is low after init. -/
def lastLevel (tr : List (DutyCycle.Seen a)) : Bool := (tr.filterMap askedLevel).getLast?.getD false

def quiet : KeyEntry.Seen a → Prop
  | .ioctl cmd arg => cmd = essDutyCycleGpio a → arg = some 0
  | _ => True

/-- A client is killed, or started again, only outside duty-cycle mode. -/
def outside (s : System a) : Action a → Bool
  | .rerun => s.client.testMode ≠ .gpioDutyCycleMode
  | _ => true

section Level

variable {s s' : System a} {tr seen : List (DutyCycle.Seen a)} {c : Locals a}
  {d : DutyCycle.State a} {k : Turn} {x : KeyEntry.Seen a}

theorem lastLevel_append (tr seen : List (DutyCycle.Seen a)) :
    lastLevel (tr ++ seen) = (seen.filterMap askedLevel).getLast?.getD (lastLevel tr) := by
  rw [lastLevel, lastLevel, List.filterMap_append, List.getLast?_append]
  cases (seen.filterMap askedLevel).getLast? <;> rfl

theorem filterMap_levels (pairs : List (Bool × Byte)) (n : ℕ) :
    (pairs.map (fun p : Bool × Byte => DutyCycle.Seen.level p.1 p.2) ++
      [(.wrote n : DutyCycle.Seen a)]).filterMap askedLevel = pairs.map Prod.fst := by
  induction pairs with
  | nil => rfl
  | cons p pairs ih =>
    have hp : askedLevel (.level p.1 p.2 : DutyCycle.Seen a) = some p.1 := rfl
    rw [List.map_cons, List.cons_append, List.filterMap_cons_some hp, ih, List.map_cons]

theorem write_level (d : DutyCycle.State a) (buff : Mem) (count : Long a) :
    (gpioIrqDemoWrite d buff count).1.gpo =
      ((gpioIrqDemoWrite d buff count).2.filterMap askedLevel).getLast?.getD d.gpo := by
  unfold gpioIrqDemoWrite
  split_ifs
  · rfl
  · rw [filterMap_levels]

theorem ioctl_level (d : DutyCycle.State a) (cmd : BitVec 32) (arg : Long a) :
    (gpioIrqDemoIoctl d cmd arg).1.gpo =
      ((gpioIrqDemoIoctl d cmd arg).2.filterMap askedLevel).getLast?.getD d.gpo := by
  have hset : essSetGpio ≠ essDutyCycleGpio a := by cases a <;> decide
  have hclr : essClrGpio ≠ essDutyCycleGpio a := by cases a <;> decide
  unfold gpioIrqDemoIoctl
  split_ifs with h1 h2 h3
  · simp [askedLevel, h1]
  · simp [askedLevel, h2, essSetGpio, essClrGpio]
  · simp [askedLevel, h3, hset.symm, hclr.symm]
  · simp [askedLevel, h3, hset.symm, hclr.symm, startDutyCycle]
  · simp [askedLevel, h1, h2]

theorem perform_level (unset : Long a) (d : DutyCycle.State a) (x : KeyEntry.Seen a) :
    (perform unset d x).1.gpo =
      ((perform unset d x).2.filterMap askedLevel).getLast?.getD d.gpo := by
  cases x with
  | write sequence => exact write_level d _ _
  | ioctl cmd arg => exact ioctl_level d cmd _
  | read | arrow _ _ => rfl

theorem perform_quiet (hx : quiet x) (unset : Long a) (htimer : d.timer = none) :
    (perform unset d x).1.timer = none := by
  cases x with
  | write sequence =>
    unfold perform gpioIrqDemoWrite
    split_ifs
    · exact htimer
    · rfl
  | ioctl cmd arg =>
    rcases gpioIrqDemoIoctl_cases d cmd (arg.getD unset) with ⟨hnone, -⟩ | ⟨hcmd, harg, -⟩ |
      ⟨hsame, -⟩
    · exact hnone
    · rw [hx hcmd] at harg
      exact absurd rfl harg
    · rw [perform, hsame]
      exact htimer
  | read | arrow _ _ => exact htimer

/-- The first call on the way out of duty-cycle mode. -/
def settles (x : KeyEntry.Seen a) : Prop := x = .ioctl essClrGpio none ∨ ∃ g, x = .write g

theorem perform_settles (hx : settles x) (unset : Long a) (d : DutyCycle.State a) :
    (perform unset d x).1.timer = none ∧
      ∃ value, ((perform unset d x).2.filterMap askedLevel).getLast? = some value := by
  rcases hx with rfl | ⟨g, rfl⟩
  · refine ⟨(ioctl_idle d (Or.inr (Or.inl rfl))).1, false, ?_⟩
    simp [perform, gpioIrqDemoIoctl, askedLevel, essClrGpio, essSetGpio]
  · have heven : (10 : Long a).toNat % 2 = 0 := by cases a <;> decide
    have hpairs : (10 : Long a).toNat / 2 = 5 := by cases a <;> decide
    refine ⟨(gpioIrqDemoWrite_even d _ heven).1, ?_⟩
    rw [perform, gpioIrqDemoWrite, if_neg (not_not.mpr heven)]
    dsimp only
    rw [filterMap_levels, hpairs]
    exact ⟨buffer g 8 != 0, rfl⟩

theorem quiet_level {cmd : BitVec 32} (h : cmd = essSetGpio ∨ cmd = essClrGpio) :
    quiet (.ioctl cmd none : KeyEntry.Seen a) := by
  intro hcmd
  rcases h with rfl | rfl <;> cases a <;> exact absurd hcmd (by decide)

theorem quiet_destroyed {old : Option PollMode}
    (hx : x ∈ (destroyed old : List (KeyEntry.Seen a))) :
    quiet x := by
  cases old with
  | none => cases hx
  | some _ =>
    rw [List.mem_singleton.mp hx]
    exact fun _ => rfl

theorem quiet_toggleKey (hx : x ∈ (toggleKey c).2) : quiet x := by
  unfold toggleKey at hx
  split_ifs at hx
  · rcases List.mem_cons.mp hx with rfl | hx
    · exact quiet_level (Or.inr rfl)
    · exact quiet_destroyed hx
  · cases hx

theorem quiet_burstKey (hx : x ∈ (burstKey c).2) : quiet x := by
  unfold burstKey at hx
  split_ifs at hx
  · rcases List.mem_cons.mp hx with rfl | hx
    · trivial
    · exact quiet_destroyed hx
  · cases hx

theorem quiet_arrowKey (hmode : c.testMode ≠ .gpioDutyCycleMode) (hx : x ∈ (arrowKey k c).2) :
    quiet x := by
  unfold arrowKey at hx
  cases hadvance : k.advance with
  | none => simp [hadvance] at hx
  | some advanceMode =>
    cases htest : c.testMode with
    | gpioDutyCycleMode => exact absurd htest hmode
    | gpioBurstMode =>
      simp only [hadvance, htest, burstArrow, List.mem_cons, List.not_mem_nil, or_false] at hx
      rcases hx with rfl | rfl <;> trivial
    | gpioToggleMode =>
      simp only [hadvance, htest] at hx
      cases hval : k.gpioVal with
      | none =>
        simp only [toggleArrow, hval, List.mem_singleton] at hx
        rw [hx]
        trivial
      | some v =>
        simp only [toggleArrow, hval, List.mem_cons, List.not_mem_nil, or_false] at hx
        rcases hx with rfl | rfl
        · trivial
        · refine quiet_level ?_
          split_ifs <;> simp

theorem testMode_dutyKey (retval : ℤ) (c : Locals a) :
    (dutyKey retval c).1.testMode = .gpioDutyCycleMode := by
  unfold dutyKey
  split_ifs with hmode
  · rfl
  · rfl
  · exact not_not.mp hmode

theorem testMode_arrowKey (k : Turn) (c : Locals a) : (arrowKey k c).1.testMode = c.testMode := by
  unfold arrowKey
  cases k.advance with
  | none => rfl
  | some advanceMode =>
    cases hmode : c.testMode with
    | gpioBurstMode | gpioDutyCycleMode => exact hmode
    | gpioToggleMode => cases hval : k.gpioVal <;> simp [toggleArrow, hmode]

theorem quiet_keyEntry (hmode : (keyEntry k c).1.testMode ≠ .gpioDutyCycleMode)
    (hx : x ∈ (keyEntry k c).2) : quiet x := by
  unfold keyEntry at hx hmode
  split_ifs at hx hmode
  · exact quiet_toggleKey hx
  · exact quiet_burstKey hx
  · exact quiet_toggleKey hx
  · exact absurd (testMode_dutyKey _ _) hmode
  · rw [testMode_arrowKey] at hmode
    exact quiet_arrowKey hmode hx
  · cases hx

theorem settles_toggleKey (hmode : c.testMode = .gpioDutyCycleMode) :
    ∃ x rest, (toggleKey c).2 = x :: rest ∧ settles x := by
  simp [toggleKey, hmode, settles]

theorem settles_burstKey (hmode : c.testMode = .gpioDutyCycleMode) :
    ∃ x rest, (burstKey c).2 = x :: rest ∧ settles x := by
  simp [burstKey, hmode, settles]

/-- A turn that leaves duty-cycle mode begins with a level. -/
theorem settles_keyEntry (hmode : c.testMode = .gpioDutyCycleMode)
    (hleft : (keyEntry k c).1.testMode ≠ .gpioDutyCycleMode) :
    ∃ x rest, (keyEntry k c).2 = x :: rest ∧ settles x := by
  unfold keyEntry at hleft ⊢
  split_ifs at hleft ⊢
  · exact settles_toggleKey hmode
  · exact settles_burstKey hmode
  · exact settles_toggleKey hmode
  · exact absurd (testMode_dutyKey _ _) hleft
  · rw [testMode_arrowKey] at hleft
    exact absurd hmode hleft
  · exact absurd hmode hleft

/-- Outside duty-cycle mode the pin shows what was asked for, and nothing will change it. -/
structure PinKept (s : System a) (tr : List (DutyCycle.Seen a)) : Prop where
  timer : s.client.testMode ≠ .gpioDutyCycleMode → s.driver.timer = none
  level : s.client.testMode ≠ .gpioDutyCycleMode → s.driver.gpo = lastLevel tr
  calls : s.client.testMode ≠ .gpioDutyCycleMode → ∀ x ∈ s.calls, quiet x

theorem PinKept.issue (h : PinKept s tr) (unset : Long a) :
    PinKept (issue unset s).1 (tr ++ (issue unset s).2) := by
  unfold ClientDriver.issue
  cases hcalls : s.calls with
  | nil =>
    rw [List.append_nil]
    exact h
  | cons x rest =>
    have hquiet : s.client.testMode ≠ .gpioDutyCycleMode → ∀ y ∈ x :: rest, quiet y :=
      hcalls ▸ h.calls
    refine ⟨fun hmode => ?_, fun hmode => ?_, fun hmode y hy => ?_⟩
    · exact perform_quiet (hquiet hmode x List.mem_cons_self) unset (h.timer hmode)
    · rw [lastLevel_append, perform_level, h.level hmode]
    · exact hquiet hmode y (List.mem_cons_of_mem x hy)

theorem PinKept.turn (h : PinKept s tr) (k : Turn) (unset : Long a) :
    PinKept (ClientDriver.issue unset
        { s with client := (keyEntry k s.client).1, calls := (keyEntry k s.client).2 }).1
      (tr ++ (ClientDriver.issue unset
        { s with client := (keyEntry k s.client).1, calls := (keyEntry k s.client).2 }).2) := by
  by_cases hmode : s.client.testMode = .gpioDutyCycleMode
  · by_cases hleft : (keyEntry k s.client).1.testMode = .gpioDutyCycleMode
    · have hbegun : PinKept
          { s with client := (keyEntry k s.client).1, calls := (keyEntry k s.client).2 } tr :=
        ⟨fun h => absurd hleft h, fun h => absurd hleft h, fun h => absurd hleft h⟩
      exact hbegun.issue unset
    · obtain ⟨x, rest, hcalls, hx⟩ := settles_keyEntry hmode hleft
      obtain ⟨htimer, value, hvalue⟩ := perform_settles hx unset s.driver
      have hquiet := fun y hy => quiet_keyEntry (x := y) hleft hy
      rw [hcalls] at hquiet
      unfold ClientDriver.issue
      rw [hcalls]
      refine ⟨fun _ => htimer, fun _ => ?_, fun _ y hy => hquiet y (List.mem_cons_of_mem x hy)⟩
      rw [lastLevel_append, perform_level, hvalue]
      rfl
  · have hbegun : PinKept
        { s with client := (keyEntry k s.client).1, calls := (keyEntry k s.client).2 } tr :=
      ⟨fun _ => h.timer hmode, fun _ => h.level hmode, fun hleft x hx => quiet_keyEntry hleft hx⟩
    exact hbegun.issue unset

theorem pinKept_step {x : Action a} (h : PinKept s tr) (hout : outside s x = true)
    (hs : system a s x = some (s', seen)) : PinKept s' (tr ++ seen) := by
  cases x with
  | turn k unset =>
    simp only [system] at hs
    split_ifs at hs
    obtain ⟨rfl, rfl⟩ := Prod.mk.inj (Option.some.inj hs)
    exact h.turn _ unset
  | call unset =>
    simp only [system] at hs
    split_ifs at hs
    obtain ⟨rfl, rfl⟩ := Prod.mk.inj (Option.some.inj hs)
    exact h.issue unset
  | timer =>
    simp only [system] at hs
    split_ifs at hs with harmed
    obtain ⟨rfl, rfl⟩ := Prod.mk.inj (Option.some.inj hs)
    have hduty : ¬s.client.testMode ≠ .gpioDutyCycleMode := fun hmode => by
      rw [h.timer hmode] at harmed
      cases harmed
    exact ⟨fun hm => absurd hm hduty, fun hm => absurd hm hduty, fun hm => absurd hm hduty⟩
  | rerun =>
    obtain ⟨rfl, rfl⟩ := Prod.mk.inj (Option.some.inj hs)
    have hmode : s.client.testMode ≠ .gpioDutyCycleMode := by simpa [outside] using hout
    rw [List.append_nil]
    exact ⟨fun _ => h.timer hmode, fun _ => h.level hmode, fun _ x hx => by cases hx⟩

/-- In every run in which no client is killed in duty-cycle mode, the pin shows the level last
asked for, and no timer is armed, wherever the client is in one of its other modes. -/
theorem pin_level_kept {periodSec periodNsec : Long a}
    (h : Reaches ((system a).when outside) (loaded periodSec periodNsec) s tr)
    (hmode : s.client.testMode ≠ .gpioDutyCycleMode) :
    s.driver.timer = none ∧ s.driver.gpo = lastLevel tr := by
  have hkept : PinKept s tr := by
    refine h.invariant (I := PinKept) ?_ ?_
    · exact ⟨fun _ => rfl, fun _ => rfl, fun _ x hx => by cases hx⟩
    · intro s tr x s' seen hI hs
      obtain ⟨hout, hs⟩ := Machine.when_eq_some.mp hs
      exact pinKept_step hI hout hs
  exact ⟨hkept.timer hmode, hkept.level hmode⟩

/-- Out of duty-cycle mode, and an arrow that sets the pin. -/
theorem pin_level_kept_arrow : ∃ s tr, exec ((system .arm).when outside) (loaded 0 0)
    [.turn (modeKey 100) 0, .timer, .call 0, .timer, .turn (modeKey 116) 0, .call 0,
      .turn upArrow 0, .call 0] = some (s, tr) ∧ lastLevel tr = true ∧
        s.driver.timer = none ∧ s.driver.gpo = lastLevel tr := by
  obtain ⟨s, tr, hrun, hlevel, hmode⟩ : ∃ s tr,
      exec ((system .arm).when outside) (loaded 0 0)
        [.turn (modeKey 100) 0, .timer, .call 0, .timer, .turn (modeKey 116) 0, .call 0,
          .turn upArrow 0, .call 0] = some (s, tr) ∧ lastLevel tr = true ∧
            s.client.testMode ≠ .gpioDutyCycleMode := by
    decide +kernel
  exact ⟨s, tr, hrun, hlevel, pin_level_kept (Reaches.of_exec hrun) hmode⟩

end Level

end LinuxOddsAndEnds.Rpi3.ClientDriver
