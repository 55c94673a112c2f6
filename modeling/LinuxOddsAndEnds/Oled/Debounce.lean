import LinuxOddsAndEnds.Foundation.Spacing
import LinuxOddsAndEnds.Oled.GpioOledIrq

/-!
# The software debounce

Without hardware debouncing a handler drops an interrupt that comes less than 20 ms after
`last_jiffy`. The rocker handler moves `last_jiffy` with every event, so its events are
spaced out. The button handlers never move it: they compare every interrupt with jiffy 0
and, once 20 ms have passed, let everything through.
-/

namespace LinuxOddsAndEnds.Oled

open Foundation

def times (is : List Interrupt) : List ℕ := is.map fun i => i.jiffies.toNat

/-- The statics that one run of the handler leaves. -/
def staticsAfter (h : Handler) (cfg : GpioConfig) (st : Statics) (i : Interrupt) : Statics :=
  match irqHandler h cfg st i with
  | some (st', _) => st'
  | none => st

/-- Which of the interrupts the handler turns into events. -/
def verdicts (h : Handler) (cfg : GpioConfig) : Statics → List Interrupt → List Bool
  | _, [] => []
  | st, i :: is => (irqHandler h cfg st i).isSome :: verdicts h cfg (staticsAfter h cfg st i) is

/-- `time_diff * 1000` stays in `long` throughout the run. -/
def MsecFits (h : Handler) (cfg : GpioConfig) : Statics → List Interrupt → Prop
  | _, [] => True
  | st, i :: is => (i.jiffies.toNat - st.lastJiffy.toNat) * 1000 < 2 ^ 63 ∧
      MsecFits h cfg (staticsAfter h cfg st i) is

def Apart (hz : BitVec 64) (a b : ℕ) : Prop := 20 * hz.toNat ≤ (b - a) * 1000

instance (hz : BitVec 64) : DecidableRel (Apart hz) := fun a b =>
  inferInstanceAs (Decidable (20 * hz.toNat ≤ (b - a) * 1000))

theorem Apart.mono {hz : BitVec 64} {a b c : ℕ} (h : Apart hz a b) (hbc : b ≤ c) :
    Apart hz a c :=
  Nat.le_trans h (Nat.mul_le_mul_right 1000 (Nat.sub_le_sub_right hbc a))

instance (hz : BitVec 64) : IsTrans ℕ (Apart hz) where
  trans a b c hab hbc := by
    rcases Nat.le_total a b with hle | hle
    · exact Nat.le_trans hbc (Nat.mul_le_mul_right 1000 (Nat.sub_le_sub_left hle c))
    · rw [Apart, Nat.sub_eq_zero_of_le hle, Nat.zero_mul] at hab
      exact Nat.le_trans hab (Nat.zero_le _)

section Filter

variable {h : Handler} {cfg : GpioConfig} {st : Statics} {i : Interrupt} {is : List Interrupt}

theorem msec_slt_iff {hz current last : BitVec 64} (hpos : 0 < hz.toNat)
    (hlt : hz.toNat < 2 ^ 63) (hle : last.toNat ≤ current.toNat)
    (hfits : (current.toNat - last.toNat) * 1000 < 2 ^ 63) :
    (((current - last) * 1000#64).sdiv hz).slt 20#64 = false ↔
      Apart hz last.toNat current.toNat := by
  have hdiff : ((current - last) * 1000#64).toNat = (current.toNat - last.toNat) * 1000 := by
    have hc := current.isLt
    have hl := last.isLt
    rw [BitVec.toNat_mul, BitVec.toNat_sub, BitVec.toNat_ofNat]
    omega
  have hx : ((current - last) * 1000#64).msb = false := by
    rw [BitVec.msb_eq_false_iff_two_mul_lt, hdiff]
    omega
  have hy : hz.msb = false := by
    rw [BitVec.msb_eq_false_iff_two_mul_lt]
    omega
  have hquot : (((current - last) * 1000#64).sdiv hz).toNat =
      (current.toNat - last.toNat) * 1000 / hz.toNat := by
    rw [BitVec.sdiv_eq, hx, hy, BitVec.udiv_eq, BitVec.toNat_udiv, hdiff]
  have hsmall : (current.toNat - last.toNat) * 1000 / hz.toNat < 2 ^ 63 :=
    (Nat.div_le_self _ _).trans_lt hfits
  rw [Apart, ← Nat.le_div_iff_mul_le hpos, ← hquot, BitVec.slt, decide_eq_false_iff_not,
    Int.not_lt, BitVec.toInt_eq_toNat_of_lt (x := 20#64) (by decide),
    BitVec.toInt_eq_toNat_of_lt (by omega), BitVec.toNat_ofNat]
  omega

theorem bounces_eq_false_iff (hsoft : cfg.gpioCanDebounce = false) (hpos : 0 < cfg.hz.toNat)
    (hlt : cfg.hz.toNat < 2 ^ 63) (hle : st.lastJiffy.toNat ≤ i.jiffies.toNat)
    (hfits : (i.jiffies.toNat - st.lastJiffy.toNat) * 1000 < 2 ^ 63) :
    bounces cfg st i = false ↔ Apart cfg.hz st.lastJiffy.toNat i.jiffies.toNat := by
  rw [bounces, hsoft, Bool.not_false, Bool.true_and]
  exact msec_slt_iff hpos hlt hle hfits

theorem irqHandler_isSome (h : Handler) (cfg : GpioConfig) (st : Statics) (i : Interrupt) :
    (irqHandler h cfg st i).isSome = !bounces cfg st i := by
  cases h with
  | gpioBtn5 =>
    rw [irqHandler, gpioBtn5IrqHandler, gpioBtnIrqHandler]
    cases bounces cfg st i <;> rfl
  | gpioBtn6 =>
    rw [irqHandler, gpioBtn6IrqHandler, gpioBtnIrqHandler]
    cases bounces cfg st i <;> rfl
  | gpioRocker =>
    rw [irqHandler, gpioRockerIrqHandler]
    cases bounces cfg st i <;> rfl

theorem lastJiffy_button (cfg : GpioConfig) (st : Statics) (i : Interrupt) (hb : h ≠ .gpioRocker) :
    (staticsAfter h cfg st i).lastJiffy = st.lastJiffy := by
  cases h with
  | gpioBtn5 =>
    rw [staticsAfter, irqHandler, gpioBtn5IrqHandler, gpioBtnIrqHandler]
    cases bounces cfg st i <;> rfl
  | gpioBtn6 =>
    rw [staticsAfter, irqHandler, gpioBtn6IrqHandler, gpioBtnIrqHandler]
    cases bounces cfg st i <;> rfl
  | gpioRocker => exact absurd rfl hb

theorem lastJiffy_rocker (st : Statics) (i : Interrupt) (hsoft : cfg.gpioCanDebounce = false) :
    (staticsAfter .gpioRocker cfg st i).lastJiffy =
      if bounces cfg st i then st.lastJiffy else i.jiffies := by
  rw [staticsAfter, irqHandler, gpioRockerIrqHandler, hsoft]
  cases bounces cfg st i <;> rfl

theorem verdicts_rocker (hsoft : cfg.gpioCanDebounce = false) (hpos : 0 < cfg.hz.toNat)
    (hlt : cfg.hz.toNat < 2 ^ 63) (hsorted : (times is).Pairwise (· ≤ ·))
    (hle : ∀ t ∈ times is, st.lastJiffy.toNat ≤ t) (hfits : MsecFits .gpioRocker cfg st is) :
    verdicts .gpioRocker cfg st is = spaced (Apart cfg.hz) st.lastJiffy.toNat (times is) := by
  induction is generalizing st with
  | nil => rfl
  | cons i is ih =>
    simp only [times, List.map_cons, List.pairwise_cons, List.forall_mem_cons] at hsorted hle
    obtain ⟨hfirst, hrest⟩ := hfits
    have hbounce := bounces_eq_false_iff hsoft hpos hlt hle.1 hfirst
    have hlast := lastJiffy_rocker st i hsoft
    rw [verdicts, irqHandler_isSome]
    simp only [times, List.map_cons, spaced]
    cases hb : bounces cfg st i with
    | true =>
      rw [hb, if_pos rfl] at hlast
      have hnot := mt hbounce.mpr (by rw [hb]; exact Bool.noConfusion)
      rw [if_neg hnot, ← hlast, ih hsorted.2 (by rw [hlast]; exact hle.2) hrest]
      rfl
    | false =>
      rw [hb, if_neg Bool.false_ne_true] at hlast
      rw [if_pos (hbounce.mp hb), ← hlast,
        ih hsorted.2 (by rw [hlast]; exact hsorted.1) hrest]
      rfl

/-- The buttons compare every interrupt with the same jiffy. -/
theorem verdicts_button (hb : h ≠ .gpioRocker) (hsoft : cfg.gpioCanDebounce = false)
    (hpos : 0 < cfg.hz.toNat) (hlt : cfg.hz.toNat < 2 ^ 63)
    (hle : ∀ t ∈ times is, st.lastJiffy.toNat ≤ t) (hfits : MsecFits h cfg st is) :
    verdicts h cfg st is =
      (times is).map fun t => decide (Apart cfg.hz st.lastJiffy.toNat t) := by
  induction is generalizing st with
  | nil => rfl
  | cons i is ih =>
    simp only [times, List.map_cons, List.forall_mem_cons] at hle
    obtain ⟨hfirst, hrest⟩ := hfits
    have hbounce := bounces_eq_false_iff hsoft hpos hlt hle.1 hfirst
    have hlast := lastJiffy_button cfg st i hb
    rw [verdicts, irqHandler_isSome, ih (by rw [hlast]; exact hle.2) hrest, hlast]
    simp only [times, List.map_cons]
    congr 1
    rw [Bool.eq_iff_iff, Bool.not_eq_true', hbounce, decide_eq_true_eq]

end Filter

section Pipeline

def interruptsOf (h : Handler) (as : List Action) : List Interrupt :=
  as.filterMap fun
    | .interrupt h' i => if h' = h then some i else none
    | _ => none

/-- What one handler pushed, whether or not the ring took it. -/
def pushedBy (h : Handler) (tr : List Seen) : List CaptureEvent :=
  tr.filterMap fun
    | .captured h' e | .rejected h' e _ => if h' = h then some e else none
    | _ => none

def eventsMade (h : Handler) (cfg : GpioConfig) : Statics → List Interrupt → List CaptureEvent
  | _, [] => []
  | st, i :: is =>
    ((irqHandler h cfg st i).map Prod.snd).toList ++ eventsMade h cfg (staticsAfter h cfg st i) is

theorem pushedBy_append (h : Handler) (tr tr' : List Seen) :
    pushedBy h (tr ++ tr') = pushedBy h tr ++ pushedBy h tr' := List.filterMap_append

theorem interrupt_handler (cfg : GpioConfig) (h h' : Handler) (i : Interrupt) (s : State) :
    (interrupt cfg h' i s).1.statics h =
        (if h' = h then staticsAfter h cfg (s.statics h) i else s.statics h) ∧
      pushedBy h (interrupt cfg h' i s).2 =
        if h' = h then ((irqHandler h cfg (s.statics h) i).map Prod.snd).toList else [] := by
  rw [interrupt]
  by_cases heq : h' = h
  · subst heq
    rw [if_pos rfl, if_pos rfl, staticsAfter]
    cases irqHandler h' cfg (s.statics h') i with
    | none => exact ⟨rfl, rfl⟩
    | some out =>
      refine ⟨Function.update_self _ _ _, ?_⟩
      dsimp only
      split_ifs <;> simp [pushedBy]
  · rw [if_neg heq, if_neg heq]
    cases irqHandler h' cfg (s.statics h') i with
    | none => exact ⟨rfl, rfl⟩
    | some out =>
      refine ⟨Function.update_of_ne (Ne.symm heq) _ _, ?_⟩
      dsimp only
      split_ifs <;> simp [pushedBy, heq]

theorem pipeline_handler {cfg : GpioConfig} {a : Action} {s s' : State} {seen : List Seen}
    (hs : pipeline cfg s a = some (s', seen)) (ha : ∀ h i, a ≠ .interrupt h i) (h : Handler) :
    s'.statics h = s.statics h ∧ pushedBy h seen = [] := by
  cases a with
  | interrupt h' i => exact absurd rfl (ha h' i)
  | work =>
    simp only [pipeline, doWork] at hs
    split at hs
    · simp at hs
    · obtain ⟨rfl, rfl⟩ := by simpa using hs
      refine ⟨?_, rfl⟩
      unfold afterTake
      split <;> rfl
    all_goals
      first
        | obtain ⟨rfl, rfl⟩ := by simpa using hs
          exact ⟨rfl, rfl⟩
        | split_ifs at hs <;> obtain ⟨rfl, rfl⟩ := by simpa using hs
          all_goals exact ⟨rfl, rfl⟩
  | _ =>
    simp only [pipeline, gpioIrqIoctl] at hs
    split_ifs at hs <;> obtain ⟨rfl, rfl⟩ := by simpa using hs
    all_goals exact ⟨rfl, rfl⟩

/-- In every run of the whole module, a handler pushes what it makes of its own
interrupts, whatever else happens between them. -/
theorem pushedBy_of_exec {cfg : GpioConfig} (h : Handler) {as : List Action} {s s' : State}
    {tr : List Seen} (hrun : exec (pipeline cfg) s as = some (s', tr)) :
    pushedBy h tr = eventsMade h cfg (s.statics h) (interruptsOf h as) := by
  induction as generalizing s tr with
  | nil =>
    obtain ⟨-, rfl⟩ := Prod.mk.inj (Option.some.inj hrun)
    rfl
  | cons a as ih =>
    obtain ⟨t, seen, rest, ha, hrest, rfl⟩ := exec_cons_eq_some hrun
    rw [pushedBy_append, ih hrest]
    by_cases hirq : ∃ h' i, a = .interrupt h' i
    · obtain ⟨h', i, rfl⟩ := hirq
      have hirq : interrupt cfg h' i s = (t, seen) := Option.some.inj ha
      have hown := interrupt_handler cfg h h' i s
      rw [hirq] at hown
      rw [hown.1, hown.2]
      by_cases heq : h' = h
      · simp [interruptsOf, eventsMade, heq]
      · simp [interruptsOf, heq]
    · simp only [not_exists] at hirq
      obtain ⟨hst, hpush⟩ := pipeline_handler ha hirq h
      rw [hst, hpush, List.nil_append]
      cases a with
      | interrupt h' i => exact absurd rfl (hirq h' i)
      | _ => rfl

theorem length_eventsMade (h : Handler) (cfg : GpioConfig) (is : List Interrupt) :
    ∀ st : Statics,
      (eventsMade h cfg st is).length = (passed (times is) (verdicts h cfg st is)).length := by
  induction is with
  | nil => exact fun _ => rfl
  | cons i is ih =>
    intro st
    have hrest := ih (staticsAfter h cfg st i)
    rw [eventsMade, verdicts, List.length_append, hrest]
    simp only [times, List.map_cons, passed]
    cases irqHandler h cfg st i with
    | none => simp
    | some out => simp [Nat.add_comm]

end Pipeline

/-- What a debounce promises: an event exactly when 20 ms have passed since the last one,
hence events that are 20 ms apart. -/
def Debounced (h : Handler) (cfg : GpioConfig) (is : List Interrupt) : Prop :=
  verdicts h cfg ⟨0, 0⟩ is = spaced (Apart cfg.hz) 0 (times is) ∧
    (passed (times is) (verdicts h cfg ⟨0, 0⟩ is)).Pairwise (Apart cfg.hz)

theorem debounced_of_eq {h : Handler} {cfg : GpioConfig} {is : List Interrupt}
    (he : verdicts h cfg ⟨0, 0⟩ is = spaced (Apart cfg.hz) 0 (times is)) : Debounced h cfg is :=
  ⟨he, he ▸ pairwise_passed_spaced 0 (times is)⟩

/-- Over any run of its interrupts, the rocker handler is debounced, and a button handler
exactly when its interrupts from 20 ms on do not bounce. -/
theorem software_debounce_iff (h : Handler) (cfg : GpioConfig)
    (hsoft : cfg.gpioCanDebounce = false) (hpos : 0 < cfg.hz.toNat) (hlt : cfg.hz.toNat < 2 ^ 63)
    (is : List Interrupt) (hsorted : (times is).Pairwise (· ≤ ·))
    (hfits : MsecFits h cfg ⟨0, 0⟩ is) :
    Debounced h cfg is ↔
      h = .gpioRocker ∨ ((times is).filter fun t => Apart cfg.hz 0 t).IsChain (Apart cfg.hz) := by
  have hle : ∀ t ∈ times is, (0#64).toNat ≤ t := fun t _ => Nat.zero_le t
  by_cases hr : h = .gpioRocker
  · subst hr
    exact iff_of_true
      (debounced_of_eq (verdicts_rocker hsoft hpos hlt hsorted hle hfits)) (Or.inl rfl)
  · have hbutton := verdicts_button hr hsoft hpos hlt hle hfits
    have hiff := spaced_eq_map_iff (Apart cfg.hz) Apart.mono 0 hsorted
    rw [or_iff_right hr, ← hiff]
    constructor
    · intro hd
      rw [← hd.1, hbutton]
      rfl
    · intro he
      exact debounced_of_eq (hbutton.trans he.symm)

/-- Jiffies of 10 ms. -/
def slowConfig : GpioConfig := ⟨false, 100#64, fun _ => 0#32⟩

def interruptAt (jiffies : BitVec 64) : Interrupt := { (default : Interrupt) with jiffies }

theorem software_debounce_rocker :
    Debounced .gpioRocker slowConfig [interruptAt 100#64, interruptAt 101#64] :=
  (software_debounce_iff .gpioRocker slowConfig rfl (by decide) (by decide)
    [interruptAt 100#64, interruptAt 101#64] (by decide)
    ⟨by decide, by decide, trivial⟩).mpr (Or.inl rfl)

/-- A button bounces after 10 ms and both interrupts become events. -/
theorem button_bounces : (times [interruptAt 100#64, interruptAt 101#64]).Pairwise (· ≤ ·) ∧
    MsecFits .gpioBtn5 slowConfig ⟨0, 0⟩ [interruptAt 100#64, interruptAt 101#64] ∧
    verdicts .gpioBtn5 slowConfig ⟨0, 0⟩ [interruptAt 100#64, interruptAt 101#64] =
      [true, true] ∧
    ¬Debounced .gpioBtn5 slowConfig [interruptAt 100#64, interruptAt 101#64] := by
  refine ⟨by decide, ⟨by decide, by decide, trivial⟩, by decide, ?_⟩
  rintro ⟨he, -⟩
  exact absurd he (by decide)

end LinuxOddsAndEnds.Oled
