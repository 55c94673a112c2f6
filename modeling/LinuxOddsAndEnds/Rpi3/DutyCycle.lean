import LinuxOddsAndEnds.Foundation.Memory
import LinuxOddsAndEnds.Foundation.Throughout
import Mathlib.Data.Int.Notation

/-!
# Duty-cycle mode

The output pin of `gpio_irq.c`: the commands of `gpio_irq_demo_ioctl` arm and cancel the timer
that toggles it, and set the flag by which `gpio_irq_demo_poll` tells a client to wait. A
write cancels the timer too and leaves the flag as it is.
-/

namespace LinuxOddsAndEnds.Rpi3.DutyCycle

open Foundation

inductive Arch where
  | arm
  | arm64
  deriving DecidableEq

def Arch.bitsPerLong : Arch → ℕ
  | .arm => 32
  | .arm64 => 64

/-- `unsigned long`. -/
abbrev Long (a : Arch) := BitVec a.bitsPerLong

variable {a : Arch}

/-- `poll_enabled`, `my_hrt_data_` and the level of the output pin. An armed timer has the
interval, in nanoseconds, that it was last started or forwarded with. -/
structure State (a : Arch) where
  pollEnabled : Bool
  timer : Option ℤ
  periodSec : Long a
  periodNsec : Long a
  gpo : Bool

inductive Action (a : Arch) where
  | ioctl (cmd : BitVec 32) (arg : Long a)
  | write (buff : Mem) (count : Long a)
  /-- The timer expires. -/
  | timer

inductive Seen (a : Arch) where
  | woken
  | level (value : Bool) (msec : Byte)
  | ioctl (cmd : BitVec 32) (arg : Long a) (retval : ℤ)
  | wrote (retval : ℕ)

def eperm : ℤ := 1

/-- `_IO('E', 1)`. -/
def essSetGpio : BitVec 32 := 0x4501

/-- `_IO('E', 2)`. -/
def essClrGpio : BitVec 32 := 0x4502

/-- `_IOW('E', 3, unsigned long)`. -/
def essDutyCycleGpio : Arch → BitVec 32
  | .arm => 0x40044503
  | .arm64 => 0x40084503

def ktimeMax : ℤ := 9223372036854775807

def ktimeSecMax : ℤ := 9223372036

/-- `ktime_set` saturates. -/
def ktimeSet (secs nsecs : ℤ) : ℤ :=
  if ktimeSecMax ≤ secs then ktimeMax else secs * 1000000000 + nsecs

def State.interval (s : State a) : ℤ := ktimeSet s.periodSec.toInt s.periodNsec.toNat

/-- After `gpio_irq_demo_init`; `kmalloc` leaves the period as it finds it. -/
def initial (periodSec periodNsec : Long a) : State a :=
  ⟨false, none, periodSec, periodNsec, false⟩

def myKtFunction (s : State a) : State a := { s with gpo := !s.gpo, timer := some s.interval }

/-- The branch of `ESS_DUTY_CYCLE_GPIO` that starts the timer. -/
def startDutyCycle (s : State a) (arg : Long a) : State a :=
  let periodSec := arg / 1000
  let s := { s with
    periodSec := periodSec, periodNsec := (arg - periodSec * 1000) * 1000000, pollEnabled := true }
  { s with timer := some s.interval }

def gpioIrqDemoIoctl (s : State a) (cmd : BitVec 32) (arg : Long a) : State a × List (Seen a) :=
  if cmd = essSetGpio then
    ({ s with timer := none, gpo := true, pollEnabled := false }, [.woken, .ioctl cmd arg 0])
  else if cmd = essClrGpio then
    ({ s with timer := none, gpo := false, pollEnabled := false }, [.woken, .ioctl cmd arg 0])
  else if cmd = essDutyCycleGpio a then
    if arg = 0 then
      ({ s with timer := none, pollEnabled := false }, [.woken, .ioctl cmd arg 0])
    else (startDutyCycle s arg, [.ioctl cmd arg 0])
  else (s, [.ioctl cmd arg (-eperm)])

/-- The value and delay pairs of a write. -/
def levels (buff : Mem) (pairs : ℕ) : List (Bool × Byte) :=
  (List.range pairs).map fun i => (buff (2 * i) != 0, buff (2 * i + 1))

def gpioIrqDemoWrite (s : State a) (buff : Mem) (count : Long a) : State a × List (Seen a) :=
  if count.toNat % 2 ≠ 0 then (s, [.wrote 0])
  else
    let pairs := levels buff (count.toNat / 2)
    ({ s with timer := none, gpo := (pairs.map Prod.fst).getLast?.getD s.gpo },
      pairs.map (fun p => Seen.level p.1 p.2) ++ [Seen.wrote (count.toNat / 2)])

def pollIn : BitVec 32 := 0x41

def pollHup : BitVec 32 := 0x10

/-- The bits for a bulk ring that is empty or not; 0 lets the caller wait. -/
def gpioIrqDemoPoll (empty : Bool) (s : State a) : BitVec 32 :=
  if empty = false then pollIn else if s.pollEnabled = false then pollHup else 0

/-- Calls and callbacks, each run whole. -/
def driver (a : Arch) : Machine (State a) (Action a) (Seen a)
  | s, .ioctl cmd arg => some (gpioIrqDemoIoctl s cmd arg)
  | s, .write buff count => some (gpioIrqDemoWrite s buff count)
  | s, .timer => if s.timer.isSome then some (myKtFunction s, []) else none

/-- The argument of a call that asks for duty-cycle mode. -/
def Seen.dutyArg : Seen a → Option (Long a)
  | .ioctl cmd arg _ => if cmd = essDutyCycleGpio a ∧ arg ≠ 0 then some arg else none
  | _ => none

def lastDutyArg (tr : List (Seen a)) : Option (Long a) := (tr.filterMap Seen.dutyArg).getLast?

structure InMode (s : State a) (tr : List (Seen a)) : Prop where
  armed_iff : s.pollEnabled = true ↔ s.timer.isSome = true
  period : ∀ interval, s.timer = some interval →
    ∃ arg, lastDutyArg tr = some arg ∧ interval = arg.toNat * 1000000
  hangup : s.timer = none → gpioIrqDemoPoll true s = pollHup

/-- No write of pairs while the timer is armed, and no period beyond what `ktime_set` can hold. -/
def clean (s : State a) : Action a → Bool
  | .ioctl cmd arg => cmd != essDutyCycleGpio a || decide ((arg.toNat / 1000 : ℕ) < ktimeSecMax)
  | .write _ count => s.timer.isNone || count.toNat % 2 == 1
  | .timer => true

section Period

theorem toNat_periodSec (arg : Long a) : (arg / 1000).toNat = arg.toNat / 1000 := by
  rw [BitVec.toNat_udiv]
  cases a <;> rfl

theorem toInt_periodSec (arg : Long a) : (arg / 1000).toInt = (arg.toNat / 1000 : ℕ) := by
  have hlt := arg.isLt
  rw [BitVec.toInt_eq_toNat_of_lt, toNat_periodSec]
  rw [toNat_periodSec]
  cases a <;> simp only [Arch.bitsPerLong] at * <;> omega

theorem toNat_periodNsec (arg : Long a) :
    ((arg - arg / 1000 * 1000) * 1000000).toNat = arg.toNat % 1000 * 1000000 := by
  have hlt := arg.isLt
  have hsec := toNat_periodSec arg
  rw [BitVec.toNat_mul, BitVec.toNat_sub, BitVec.toNat_mul, hsec]
  cases a <;> simp [Arch.bitsPerLong] at * <;> omega

theorem startDutyCycle_interval (s : State a) (arg : Long a) : (startDutyCycle s arg).interval =
    if ktimeSecMax ≤ (arg.toNat / 1000 : ℕ) then ktimeMax else (arg.toNat : ℤ) * 1000000 := by
  simp only [startDutyCycle, State.interval, ktimeSet, toInt_periodSec, toNat_periodNsec]
  split_ifs
  · rfl
  · omega

end Period

section Steps

variable {s s' : State a} {tr seen : List (Seen a)} {cmd : BitVec 32} {arg : Long a}

theorem lastDutyArg_append_of_none (h : seen.filterMap Seen.dutyArg = []) :
    lastDutyArg (tr ++ seen) = lastDutyArg tr := by
  rw [lastDutyArg, List.filterMap_append, h, List.append_nil, lastDutyArg]

theorem lastDutyArg_concat {x : Seen a} (h : x.dutyArg = some arg) :
    lastDutyArg (tr ++ [x]) = some arg := by
  rw [lastDutyArg, List.filterMap_append, List.filterMap_cons_some h, List.filterMap_nil,
    List.getLast?_concat]

theorem gpioIrqDemoIoctl_cases (s : State a) (cmd : BitVec 32) (arg : Long a) :
    (gpioIrqDemoIoctl s cmd arg).1.timer = none ∧
        (gpioIrqDemoIoctl s cmd arg).1.pollEnabled = false ∧
          (gpioIrqDemoIoctl s cmd arg).2.filterMap Seen.dutyArg = [] ∨
      (cmd = essDutyCycleGpio a ∧ arg ≠ 0 ∧
        gpioIrqDemoIoctl s cmd arg = (startDutyCycle s arg, [.ioctl cmd arg 0])) ∨
      ((gpioIrqDemoIoctl s cmd arg).1 = s ∧
        (gpioIrqDemoIoctl s cmd arg).2.filterMap Seen.dutyArg = []) := by
  have hset : essSetGpio ≠ essDutyCycleGpio a := by cases a <;> decide
  have hclr : essClrGpio ≠ essDutyCycleGpio a := by cases a <;> decide
  unfold gpioIrqDemoIoctl
  split_ifs with h1 h2 h3 h4
  · exact Or.inl ⟨rfl, rfl, by simp [Seen.dutyArg, h1, hset]⟩
  · exact Or.inl ⟨rfl, rfl, by simp [Seen.dutyArg, h2, hclr]⟩
  · exact Or.inl ⟨rfl, rfl, by simp [Seen.dutyArg, h4]⟩
  · exact Or.inr (Or.inl ⟨h3, h4, rfl⟩)
  · exact Or.inr (Or.inr ⟨rfl, by simp [Seen.dutyArg, h3]⟩)

theorem gpioIrqDemoIoctl_start (s : State a) (harg : arg ≠ 0) :
    gpioIrqDemoIoctl s (essDutyCycleGpio a) arg =
      (startDutyCycle s arg, [.ioctl (essDutyCycleGpio a) arg 0]) := by
  have hset : essDutyCycleGpio a ≠ essSetGpio := by cases a <;> decide
  have hclr : essDutyCycleGpio a ≠ essClrGpio := by cases a <;> decide
  rw [gpioIrqDemoIoctl, if_neg hset, if_neg hclr, if_pos rfl, if_neg harg]

theorem gpioIrqDemoWrite_even (s : State a) (buff : Mem) {count : Long a}
    (heven : count.toNat % 2 = 0) :
    (gpioIrqDemoWrite s buff count).1.timer = none ∧
      (gpioIrqDemoWrite s buff count).1.pollEnabled = s.pollEnabled := by
  rw [gpioIrqDemoWrite, if_neg (not_not.mpr heven)]
  exact ⟨rfl, rfl⟩

theorem poll_hangup (h : s.pollEnabled = false) : gpioIrqDemoPoll true s = pollHup := by
  simp [gpioIrqDemoPoll, h]

/-- The mode, and an armed timer follows the period fields. -/
structure Kept (s : State a) (tr : List (Seen a)) : Prop where
  armed_iff : s.pollEnabled = true ↔ s.timer.isSome = true
  interval : ∀ interval, s.timer = some interval → interval = s.interval
  arg : s.timer.isSome = true →
    ∃ arg, lastDutyArg tr = some arg ∧ s.interval = arg.toNat * 1000000

theorem Kept.inMode (h : Kept s tr) : InMode s tr where
  armed_iff := h.armed_iff
  period interval hinterval := by
    rw [h.interval interval hinterval]
    exact h.arg (by rw [hinterval]; rfl)
  hangup hnone := by
    refine poll_hangup ?_
    rw [← Bool.not_eq_true, h.armed_iff, hnone]
    exact Bool.false_ne_true

theorem kept_initial (periodSec periodNsec : Long a) : Kept (initial periodSec periodNsec) [] :=
  ⟨by simp [initial], nofun, by simp [initial]⟩

theorem kept_of_none (htimer : s.timer = none) (hflag : s.pollEnabled = false) : Kept s tr := by
  refine ⟨by simp [htimer, hflag], fun _ h => ?_, fun h => ?_⟩
  · rw [htimer] at h
    cases h
  · rw [htimer] at h
    cases h

theorem Kept.append (h : Kept s tr) (hseen : seen.filterMap Seen.dutyArg = []) :
    Kept s (tr ++ seen) := by
  refine ⟨h.armed_iff, h.interval, fun harmed => ?_⟩
  rw [lastDutyArg_append_of_none hseen]
  exact h.arg harmed

theorem Kept.ioctl (h : Kept s tr)
    (hclean : cmd = essDutyCycleGpio a → ((arg.toNat / 1000 : ℕ) : ℤ) < ktimeSecMax) :
    Kept (gpioIrqDemoIoctl s cmd arg).1 (tr ++ (gpioIrqDemoIoctl s cmd arg).2) := by
  rcases gpioIrqDemoIoctl_cases s cmd arg with ⟨htimer, hflag, -⟩ | ⟨hcmd, harg, hout⟩ |
    ⟨hsame, hseen⟩
  · exact kept_of_none htimer hflag
  · rw [hout]
    refine ⟨iff_of_true rfl rfl, fun _ hinterval => (Option.some.inj hinterval).symm,
      fun _ => ⟨arg, ?_, ?_⟩⟩
    · exact lastDutyArg_concat (if_pos ⟨hcmd, harg⟩)
    · rw [startDutyCycle_interval, if_neg (not_le.mpr (hclean hcmd))]
  · rw [hsame]
    exact h.append hseen

theorem Kept.write {buff : Mem} {count : Long a} (h : Kept s tr)
    (hclean : s.timer = none ∨ count.toNat % 2 = 1) :
    Kept (gpioIrqDemoWrite s buff count).1 (tr ++ (gpioIrqDemoWrite s buff count).2) := by
  by_cases heven : count.toNat % 2 = 0
  · obtain ⟨htimer, hflag⟩ := gpioIrqDemoWrite_even s buff heven
    have hnone : s.timer = none := hclean.resolve_right (by omega)
    refine kept_of_none htimer ?_
    rw [hflag, ← Bool.not_eq_true, h.armed_iff, hnone]
    exact Bool.false_ne_true
  · rw [gpioIrqDemoWrite, if_pos heven]
    exact h.append rfl

theorem Kept.timer (h : Kept s tr) (harmed : s.timer.isSome = true) :
    Kept (myKtFunction s) (tr ++ []) := by
  rw [List.append_nil]
  refine ⟨?_, fun _ hinterval => (Option.some.inj hinterval).symm, fun _ => h.arg harmed⟩
  exact iff_of_true (h.armed_iff.mpr harmed) rfl

theorem kept_step {x : Action a} (h : Kept s tr) (hclean : clean s x = true)
    (hs : driver a s x = some (s', seen)) : Kept s' (tr ++ seen) := by
  cases x with
  | ioctl cmd arg =>
    obtain ⟨rfl, rfl⟩ := Prod.mk.inj (Option.some.inj hs)
    refine h.ioctl fun hcmd => ?_
    simpa [clean, hcmd] using hclean
  | write buff count =>
    obtain ⟨rfl, rfl⟩ := Prod.mk.inj (Option.some.inj hs)
    refine h.write ?_
    simpa [clean] using hclean
  | timer =>
    rw [driver] at hs
    split_ifs at hs with harmed
    obtain ⟨rfl, rfl⟩ := Prod.mk.inj (Option.some.inj hs)
    exact h.timer harmed

theorem ktimeMax_ne (n : ℕ) : ktimeMax ≠ (n : ℤ) * 1000000 := by
  rw [ktimeMax]
  omega

theorem not_inMode_step {x : Action a} (h : Kept s tr) (hclean : clean s x = false)
    (hs : driver a s x = some (s', seen)) : ¬InMode s' (tr ++ seen) := by
  intro hmode
  cases x with
  | ioctl cmd arg =>
    have hout : gpioIrqDemoIoctl s cmd arg = (s', seen) := Option.some.inj hs
    obtain ⟨rfl, hlarge⟩ : cmd = essDutyCycleGpio a ∧
        ktimeSecMax ≤ ((arg.toNat / 1000 : ℕ) : ℤ) := by
      simpa [clean] using hclean
    have harg : arg ≠ 0 := by
      rintro rfl
      simp [ktimeSecMax] at hlarge
    rw [gpioIrqDemoIoctl_start s harg] at hout
    obtain ⟨rfl, rfl⟩ := Prod.mk.inj hout
    obtain ⟨arg', -, hinterval⟩ := hmode.period _ rfl
    have hmax : (startDutyCycle s arg).interval = ktimeMax := by
      rw [startDutyCycle_interval, if_pos hlarge]
    exact ktimeMax_ne _ (hmax.symm.trans hinterval)
  | write buff count =>
    have hout : gpioIrqDemoWrite s buff count = (s', seen) := Option.some.inj hs
    obtain ⟨harmed, heven⟩ : s.timer.isSome = true ∧ count.toNat % 2 = 0 := by
      simpa [clean, Option.isSome_iff_ne_none] using hclean
    obtain ⟨htimer, hflag⟩ := gpioIrqDemoWrite_even s buff heven
    rw [hout] at htimer hflag
    have hnone := hmode.armed_iff.mp (hflag.trans (h.armed_iff.mpr harmed))
    rw [htimer] at hnone
    cases hnone
  | timer => cases hclean

/-- The flag, the timer and its period agree throughout a run if and only if no write of pairs
meets an armed timer and no period is out of range. -/
theorem duty_cycle_mode_iff (periodSec periodNsec : Long a) (as : List (Action a))
    (hrun : (exec (driver a) (initial periodSec periodNsec) as).isSome) :
    Throughout (driver a) InMode (initial periodSec periodNsec) as ↔
      (exec ((driver a).when clean) (initial periodSec periodNsec) as).isSome :=
  throughout_iff (fun _ _ h => h.inMode) (fun _ _ _ _ _ h hclean hs => kept_step h hclean hs)
    (fun _ _ _ _ _ h hclean hs => not_inMode_step h hclean hs) (kept_initial _ _) hrun

theorem duty_cycle_mode_blink : Throughout (driver .arm) InMode (initial 0 0)
    [.ioctl (essDutyCycleGpio .arm) 500, .timer, .timer, .ioctl essSetGpio 0,
      .write (fun _ => 1) 2] :=
  (duty_cycle_mode_iff 0 0 _ (by decide)).mpr (by decide)

/-- After a write of one pair the timer is cancelled and the flag is still on. -/
theorem write_keeps_flag : ¬Throughout (driver .arm) InMode (initial 0 0)
    [.ioctl (essDutyCycleGpio .arm) 500, .write (fun _ => 1) 2] := by
  intro h
  have hlast := h.last rfl
  exact absurd hlast.armed_iff (by decide)

end Steps

end LinuxOddsAndEnds.Rpi3.DutyCycle
