import LinuxOddsAndEnds.Foundation.MaskedIndex
import LinuxOddsAndEnds.Rpi3.DutyCycle

/-!
# The key loop of the GPIO test client

`process_key_entry` of the test client `main.cpp`: the mode keys, and the arrows that adjust
the setting of the mode. A turn of the loop is one action and carries every answer that the
turn asks for. Each arrow in burst mode shows the burst sequence before and after it.
-/

namespace LinuxOddsAndEnds.Rpi3.KeyEntry

open Foundation DutyCycle

inductive TestMode where
  | gpioToggleMode
  | gpioBurstMode
  | gpioDutyCycleMode
  deriving DecidableEq

inductive PollMode where
  | select
  | poll
  | epoll
  deriving DecidableEq

/-- Value and delay pairs. -/
abbrev BurstSequence := Vector Byte 10

/-- The local variables. The object behind `duty_cycle` is known by the poll mode that it was
made with; `running` is false from key `q` on. -/
structure Locals (a : Arch) where
  dutyCycleMsec : Long a
  shortPeriodMsec : Byte
  longPeriodMsec : Byte
  gpioBurstSequence : BurstSequence
  dutyCycle : Option PollMode
  testMode : TestMode
  pollMode : PollMode
  running : Bool

/-- A turn of the key loop. `next` and `keyVal` are what `getchar` answers when it is asked
again. `advanceMode` is what the variable of that name holds before it is assigned, `retval`
what the first `ioctl` of key `d` returns and `gpioVal` what a `read` of the pin stores,
`none` if it fails. -/
structure Turn where
  ch : ℤ
  next : ℤ
  keyVal : ℤ
  advanceMode : Bool
  retval : ℤ
  gpioVal : Option Byte

/-- System calls, and the arrows in burst mode. -/
inductive Seen (a : Arch) where
  | write (sequence : BurstSequence)
  | ioctl (cmd : BitVec 32) (arg : Option (Long a))
  | read
  | arrow (before after : BurstSequence)

variable {a : Arch}

/-- The sequence as it is declared. -/
def burstSequence (shortPeriodMsec longPeriodMsec : Byte) : BurstSequence :=
  #v[0x00, shortPeriodMsec, 0xFF, shortPeriodMsec, 0x00, shortPeriodMsec, 0xFF, longPeriodMsec,
    0x00, shortPeriodMsec]

def initial (a : Arch) : Locals a where
  dutyCycleMsec := 1000
  shortPeriodMsec := 0x3F
  longPeriodMsec := 0xFF
  gpioBurstSequence := burstSequence 0x3F 0xFF
  dutyCycle := none
  testMode := .gpioToggleMode
  pollMode := .select
  running := true

/-- The destructor takes the driver out of duty-cycle mode. -/
def destroyed : Option PollMode → List (Seen a)
  | some _ => [.ioctl (essDutyCycleGpio a) (some 0)]
  | none => []

def burstKey (s : Locals a) : Locals a × List (Seen a) :=
  if s.testMode ≠ .gpioBurstMode then
    let sequence := (s.gpioBurstSequence.set 3 0x3F).set 7 0xFF
    ({ s with
        shortPeriodMsec := 0x3F, longPeriodMsec := 0xFF, gpioBurstSequence := sequence
        dutyCycle := none, testMode := .gpioBurstMode },
      .write sequence :: destroyed s.dutyCycle)
  else (s, [])

/-- Key `t`, and what is left to do after the loop. -/
def toggleKey (s : Locals a) : Locals a × List (Seen a) :=
  if s.testMode ≠ .gpioToggleMode then
    ({ s with dutyCycle := none, testMode := .gpioToggleMode },
      .ioctl essClrGpio none :: destroyed s.dutyCycle)
  else (s, [])

def PollMode.advance : PollMode → PollMode
  | .select => .poll
  | .poll => .epoll
  | .epoll => .select

/-- Key `d`. The mode changes even if the driver refuses the period. -/
def dutyKey (retval : ℤ) (s : Locals a) : Locals a × List (Seen a) :=
  let ask := Seen.ioctl (essDutyCycleGpio a) (some s.dutyCycleMsec)
  if s.testMode ≠ .gpioDutyCycleMode then
    if retval = 0 then
      ({ s with
          testMode := .gpioDutyCycleMode, dutyCycle := some s.pollMode
          pollMode := s.pollMode.advance },
        [ask, ask] ++ destroyed s.dutyCycle)
    else ({ s with testMode := .gpioDutyCycleMode }, [ask])
  else (s, [])

/-- The value of `advance_mode` at the inner `switch`, `none` if an earlier `break` leaves
the case. Without a bracket the variable is never assigned. -/
def Turn.advance (k : Turn) : Option Bool :=
  if k.next = 91 then
    if k.keyVal = 65 then some true else if k.keyVal = 66 then some false else none
  else some k.advanceMode

/-- The two high pulses become longer or shorter. The lower guard looks at the first low
pulse. -/
def adjust (advanceMode : Bool) (g : BurstSequence) : BurstSequence :=
  if advanceMode = true ∧ g[7] < 255#8 then (g.set 3 (g[3] + 1)).set 7 (g[7] + 1)
  else if advanceMode = false ∧ 1#8 < g[1] then (g.set 3 (g[3] - 1)).set 7 (g[7] - 1)
  else g

def burstArrow (advanceMode : Bool) (s : Locals a) : Locals a × List (Seen a) :=
  let sequence := adjust advanceMode s.gpioBurstSequence
  ({ s with gpioBurstSequence := sequence }, [.arrow s.gpioBurstSequence sequence, .write sequence])

def toggleArrow (gpioVal : Option Byte) (s : Locals a) : Locals a × List (Seen a) :=
  match gpioVal with
  | some v => (s, [.read, .ioctl (if v ≠ 0 then essClrGpio else essSetGpio) none])
  | none => (s, [.read])

def dutyArrow (advanceMode : Bool) (s : Locals a) : Locals a × List (Seen a) :=
  let msec :=
    if advanceMode then
      if s.dutyCycleMsec < BitVec.allOnes _ then s.dutyCycleMsec + 1 else s.dutyCycleMsec
    else if 0 < s.dutyCycleMsec then s.dutyCycleMsec - 1 else s.dutyCycleMsec
  ({ s with dutyCycleMsec := msec }, [.ioctl (essDutyCycleGpio a) (some msec)])

def arrowKey (k : Turn) (s : Locals a) : Locals a × List (Seen a) :=
  match k.advance with
  | none => (s, [])
  | some advanceMode =>
    match s.testMode with
    | .gpioBurstMode => burstArrow advanceMode s
    | .gpioToggleMode => toggleArrow k.gpioVal s
    | .gpioDutyCycleMode => dutyArrow advanceMode s

/-- A turn of the loop; key `q` leaves it. -/
def keyEntry (k : Turn) (s : Locals a) : Locals a × List (Seen a) :=
  if k.ch = 113 then ({ (toggleKey s).1 with running := false }, (toggleKey s).2)
  else if k.ch = 98 then burstKey s
  else if k.ch = 116 then toggleKey s
  else if k.ch = 100 then dutyKey k.retval s
  else if k.ch = 27 then arrowKey k s
  else (s, [])

def processKeyEntry (a : Arch) : Machine (Locals a) Turn (Seen a) := fun s k =>
  if s.running then some (keyEntry k s) else none

/-- The sequence apart from the two adjustable pulses is the declared one. -/
def OthersKept (g : BurstSequence) : Prop :=
  ∀ i (h : i < 10), i ≠ 3 → i ≠ 7 → g[i] = (burstSequence 0x3F 0xFF)[i]

/-- The two adjustable pulses are in order and in range. -/
structure InRange (g : BurstSequence) : Prop where
  low : 1 ≤ g[3].toNat
  ordered : g[3].toNat ≤ g[7].toNat
  high : g[7].toNat ≤ 255

/-- Both pulses change by the same step, without wrapping. -/
def SameStep (before after : BurstSequence) : Prop :=
  ∃ d : ℤ, (d = 1 ∨ d = -1 ∨ d = 0) ∧ (after[3].toNat : ℤ) = before[3].toNat + d ∧
    (after[7].toNat : ℤ) = before[7].toNat + d

structure BurstDelays (s : Locals a) (tr : List (Seen a)) : Prop where
  inRange : InRange s.gpioBurstSequence
  others : OthersKept s.gpioBurstSequence
  arrows : ∀ before after, .arrow before after ∈ tr → SameStep before after

def modeKey (ch : ℤ) : Turn := ⟨ch, 0, 0, false, 0, none⟩

def upArrow : Turn := ⟨27, 91, 65, false, 0, none⟩

def downArrow : Turn := ⟨27, 91, 66, false, 0, none⟩

/-- The turn is no down arrow that finds the first high pulse at its lowest in burst mode. -/
def aboveLowest (s : Locals a) (k : Turn) : Bool :=
  ¬(k.ch = 27 ∧ k.advance = some false ∧ s.testMode = .gpioBurstMode ∧
    s.gpioBurstSequence[3] ≤ 1#8)

section Sequence

variable {g : BurstSequence} {x y : Byte}

theorem set_set_first : ((g.set 3 x).set 7 y)[3] = x := by simp

theorem set_set_second : ((g.set 3 x).set 7 y)[7] = y := by simp

theorem OthersKept.set_set (h : OthersKept g) : OthersKept ((g.set 3 x).set 7 y) := by
  intro i hi h3 h7
  rw [Vector.getElem_set_ne _ _ (Ne.symm h7), Vector.getElem_set_ne _ _ (Ne.symm h3)]
  exact h i hi h3 h7

theorem adjust_cases (advanceMode : Bool) (g : BurstSequence) :
    (advanceMode = true ∧ g[7] < 255#8 ∧
        adjust advanceMode g = (g.set 3 (g[3] + 1)).set 7 (g[7] + 1)) ∨
      (advanceMode = false ∧ adjust advanceMode g = (g.set 3 (g[3] - 1)).set 7 (g[7] - 1)) ∨
      adjust advanceMode g = g := by
  unfold adjust
  split_ifs with hup hdown
  · exact Or.inl ⟨hup.1, hup.2, rfl⟩
  · exact Or.inr (Or.inl ⟨hdown.1, rfl⟩)
  · exact Or.inr (Or.inr rfl)

theorem adjust_others (advanceMode : Bool) (h : OthersKept g) :
    OthersKept (adjust advanceMode g) := by
  rcases adjust_cases advanceMode g with ⟨-, -, hout⟩ | ⟨-, hout⟩ | hout
  · rw [hout]
    exact h.set_set
  · rw [hout]
    exact h.set_set
  · rw [hout]
    exact h

theorem SameStep.refl (g : BurstSequence) : SameStep g g := ⟨0, by simp, by simp, by simp⟩

theorem inRange_set_set (hlow : 1 ≤ x.toNat) (hordered : x.toNat ≤ y.toNat) :
    InRange ((g.set 3 x).set 7 y) := by
  have hlt := y.isLt
  refine ⟨?_, ?_, ?_⟩
  · rwa [set_set_first]
  · rwa [set_set_first, set_set_second]
  · rw [set_set_second]
    omega

theorem sameStep_set_set {d : ℤ} (hd : d = 1 ∨ d = -1 ∨ d = 0)
    (h3 : (x.toNat : ℤ) = g[3].toNat + d) (h7 : (y.toNat : ℤ) = g[7].toNat + d) :
    SameStep g ((g.set 3 x).set 7 y) := by
  refine ⟨d, hd, ?_, ?_⟩
  · rwa [set_set_first]
  · rwa [set_set_second]

theorem adjust_inRange {advanceMode : Bool} (h : InRange g)
    (hlow : advanceMode = false → 1 < g[3].toNat) :
    InRange (adjust advanceMode g) ∧ SameStep g (adjust advanceMode g) := by
  have hordered := h.ordered
  rcases adjust_cases advanceMode g with ⟨-, hhigh, hout⟩ | ⟨hdown, hout⟩ | hout
  · rw [BitVec.lt_def, BitVec.toNat_ofNat] at hhigh
    have h3 : (g[3] + 1).toNat = g[3].toNat + 1 := BitVec.toNat_add_of_lt (by simp; omega)
    have h7 : (g[7] + 1).toNat = g[7].toNat + 1 := BitVec.toNat_add_of_lt (by simp; omega)
    rw [hout]
    exact ⟨inRange_set_set (by omega) (by omega),
      sameStep_set_set (Or.inl rfl) (by omega) (by omega)⟩
  · have hpos := hlow hdown
    have h3 : (g[3] - 1).toNat = g[3].toNat - 1 := toNat_sub_one (by omega)
    have h7 : (g[7] - 1).toNat = g[7].toNat - 1 := toNat_sub_one (by omega)
    rw [hout]
    exact ⟨inRange_set_set (by omega) (by omega),
      sameStep_set_set (Or.inr (Or.inl rfl)) (by omega) (by omega)⟩
  · rw [hout]
    exact ⟨h, .refl g⟩

/-- The guard of the down arrow is always open, so the lowest pulse becomes 0. -/
theorem adjust_lowest (h : InRange g) (hothers : OthersKept g) (hlow : g[3] ≤ 1#8) :
    ¬InRange (adjust false g) := by
  have hguard : g[1] = 0x3F := hothers 1 (by omega) (by omega) (by omega)
  have hone : g[3] = 1#8 := by
    have hge := h.low
    rw [BitVec.le_def, BitVec.toNat_ofNat] at hlow
    exact BitVec.eq_of_toNat_eq (by simp; omega)
  have hzero : (adjust false g)[3] = 0#8 := by simp [adjust, hguard, hone]
  intro hrange
  have hge := hrange.low
  rw [hzero] at hge
  exact absurd hge (by decide)

theorem inRange_declared : InRange (burstSequence 0x3F 0xFF) := by constructor <;> decide

theorem inRange_reset : InRange ((g.set 3 0x3F).set 7 0xFF) :=
  inRange_set_set (by decide) (by decide)

end Sequence

section Turns

variable {s s' : Locals a} {tr seen : List (Seen a)} {k : Turn}

def NoArrow (seen : List (Seen a)) : Prop := ∀ before after, .arrow before after ∉ seen

theorem NoArrow.destroyed (h : NoArrow seen) (d : Option PollMode) :
    NoArrow (seen ++ destroyed d) := by
  intro before after hmem
  rcases List.mem_append.mp hmem with hseen | hd
  · exact h before after hseen
  · cases d <;> simp [KeyEntry.destroyed] at hd

/-- What a part of the loop leaves as it is: the sequence, and the arrows seen. -/
structure LeavesSequence (s : Locals a) (out : Locals a × List (Seen a)) : Prop where
  same : out.1.gpioBurstSequence = s.gpioBurstSequence
  noArrow : NoArrow out.2

theorem toggleKey_leaves (s : Locals a) : LeavesSequence s (toggleKey s) := by
  unfold toggleKey
  split_ifs
  · have hclr : NoArrow [(.ioctl essClrGpio none : Seen a)] := by simp [NoArrow]
    exact ⟨rfl, hclr.destroyed s.dutyCycle⟩
  · exact ⟨rfl, by simp [NoArrow]⟩

theorem dutyKey_leaves (retval : ℤ) (s : Locals a) : LeavesSequence s (dutyKey retval s) := by
  unfold dutyKey
  split_ifs
  · refine ⟨rfl, NoArrow.destroyed ?_ s.dutyCycle⟩
    simp [NoArrow]
  · exact ⟨rfl, by simp [NoArrow]⟩
  · exact ⟨rfl, by simp [NoArrow]⟩

theorem burstKey_cases (s : Locals a) : LeavesSequence s (burstKey s) ∨
    ((burstKey s).1.gpioBurstSequence = (s.gpioBurstSequence.set 3 0x3F).set 7 0xFF ∧
      NoArrow (burstKey s).2) := by
  unfold burstKey
  split_ifs
  · have hwrite : NoArrow [(.write ((s.gpioBurstSequence.set 3 0x3F).set 7 0xFF) : Seen a)] := by
      simp [NoArrow]
    exact Or.inr ⟨rfl, hwrite.destroyed s.dutyCycle⟩
  · exact Or.inl ⟨rfl, by simp [NoArrow]⟩

theorem toggleArrow_leaves (gpioVal : Option Byte) (s : Locals a) :
    LeavesSequence s (toggleArrow gpioVal s) := by
  cases gpioVal <;> exact ⟨rfl, by simp [NoArrow, toggleArrow]⟩

theorem dutyArrow_leaves (advanceMode : Bool) (s : Locals a) :
    LeavesSequence s (dutyArrow advanceMode s) := ⟨rfl, by simp [NoArrow, dutyArrow]⟩

theorem arrowKey_cases (k : Turn) (s : Locals a) : LeavesSequence s (arrowKey k s) ∨
    ∃ advanceMode, k.advance = some advanceMode ∧ s.testMode = .gpioBurstMode ∧
      arrowKey k s = burstArrow advanceMode s := by
  unfold arrowKey
  cases hadvance : k.advance with
  | none => exact Or.inl ⟨rfl, by simp [NoArrow]⟩
  | some advanceMode =>
    cases hmode : s.testMode with
    | gpioBurstMode => exact Or.inr ⟨advanceMode, rfl, rfl, rfl⟩
    | gpioToggleMode => exact Or.inl (toggleArrow_leaves _ s)
    | gpioDutyCycleMode => exact Or.inl (dutyArrow_leaves _ s)

theorem keyEntry_cases (k : Turn) (s : Locals a) : LeavesSequence s (keyEntry k s) ∨
    ((keyEntry k s).1.gpioBurstSequence = (s.gpioBurstSequence.set 3 0x3F).set 7 0xFF ∧
      NoArrow (keyEntry k s).2) ∨
    ∃ advanceMode, k.ch = 27 ∧ k.advance = some advanceMode ∧ s.testMode = .gpioBurstMode ∧
      keyEntry k s = burstArrow advanceMode s := by
  unfold keyEntry
  split_ifs with h113 h98 h116 h100 h27
  · exact Or.inl ⟨(toggleKey_leaves s).same, (toggleKey_leaves s).noArrow⟩
  · exact (burstKey_cases s).imp_right Or.inl
  · exact Or.inl (toggleKey_leaves s)
  · exact Or.inl (dutyKey_leaves k.retval s)
  · rcases arrowKey_cases k s with hleaves | ⟨advanceMode, hadvance, hmode, hout⟩
    · exact Or.inl hleaves
    · exact Or.inr (Or.inr ⟨advanceMode, h27, hadvance, hmode, hout⟩)
  · exact Or.inl ⟨rfl, by simp [NoArrow]⟩

theorem burstDelays_initial : BurstDelays (initial a) [] where
  inRange := inRange_declared
  others _ _ _ _ := rfl
  arrows := by simp

theorem arrows_append (h : ∀ before after, .arrow before after ∈ tr → SameStep before after)
    (hseen : NoArrow seen) :
    ∀ before after, .arrow before after ∈ tr ++ seen → SameStep before after := by
  intro before after hmem
  rcases List.mem_append.mp hmem with hold | hnew
  · exact h before after hold
  · exact absurd hnew (hseen before after)

theorem burstArrow_delays {advanceMode : Bool} (h : BurstDelays s tr)
    (hlow : advanceMode = false → 1 < s.gpioBurstSequence[3].toNat) :
    BurstDelays (burstArrow advanceMode s).1 (tr ++ (burstArrow advanceMode s).2) := by
  obtain ⟨hrange, hstep⟩ := adjust_inRange h.inRange hlow
  refine ⟨hrange, adjust_others advanceMode h.others, ?_⟩
  intro before after hmem
  rcases List.mem_append.mp hmem with hold | hnew
  · exact h.arrows before after hold
  · obtain ⟨rfl, rfl⟩ : before = s.gpioBurstSequence ∧
        after = adjust advanceMode s.gpioBurstSequence := by simpa [burstArrow] using hnew
    exact hstep

theorem burstDelays_step (h : BurstDelays s tr) (hlow : aboveLowest s k = true)
    (hs : processKeyEntry a s k = some (s', seen)) : BurstDelays s' (tr ++ seen) := by
  unfold processKeyEntry at hs
  split_ifs at hs with hrunning
  have hout : keyEntry k s = (s', seen) := Option.some.inj hs
  rcases keyEntry_cases k s with hleaves | ⟨hreset, hseen⟩ |
    ⟨advanceMode, hch, hadvance, hmode, harrow⟩
  · rw [hout] at hleaves
    refine ⟨?_, ?_, arrows_append h.arrows hleaves.noArrow⟩
    · rw [hleaves.same]
      exact h.inRange
    · rw [hleaves.same]
      exact h.others
  · rw [hout] at hreset hseen
    refine ⟨?_, ?_, arrows_append h.arrows hseen⟩
    · rw [hreset]
      exact inRange_reset
    · rw [hreset]
      exact h.others.set_set
  · rw [harrow] at hout
    have hdelays : BurstDelays (burstArrow advanceMode s).1
        (tr ++ (burstArrow advanceMode s).2) := by
      refine burstArrow_delays h ?_
      rintro rfl
      simpa [aboveLowest, hch, hadvance, hmode, BitVec.le_def] using hlow
    rwa [hout] at hdelays

theorem not_burstDelays_step (h : BurstDelays s tr) (hlow : aboveLowest s k = false)
    (hs : processKeyEntry a s k = some (s', seen)) : ¬BurstDelays s' (tr ++ seen) := by
  unfold processKeyEntry at hs
  split_ifs at hs with hrunning
  obtain ⟨hch, hadvance, hmode, hlowest⟩ : k.ch = 27 ∧ k.advance = some false ∧
      s.testMode = .gpioBurstMode ∧ s.gpioBurstSequence[3] ≤ 1#8 := by
    simpa [aboveLowest] using hlow
  have hburst : keyEntry k s = burstArrow false s := by
    simp [keyEntry, arrowKey, hch, hadvance, hmode]
  rw [hburst] at hs
  obtain ⟨rfl, rfl⟩ := Prod.mk.inj (Option.some.inj hs)
  intro hdelays
  exact adjust_lowest h.inRange h.others hlowest hdelays.inRange

end Turns

/-- The delays of the burst sequence stay in range, and every arrow moves both by the same
step, if and only if no down arrow in burst mode finds the first high pulse at 1. -/
theorem burst_delays_iff (keys : List Turn)
    (hrun : (exec (processKeyEntry a) (initial a) keys).isSome) :
    Throughout (processKeyEntry a) BurstDelays (initial a) keys ↔
      (exec ((processKeyEntry a).when aboveLowest) (initial a) keys).isSome :=
  throughout_iff (fun _ _ h => h) (fun _ _ _ _ _ h hlow hs => burstDelays_step h hlow hs)
    (fun _ _ _ _ _ h hlow hs => not_burstDelays_step h hlow hs) burstDelays_initial hrun

/-- Burst mode with arrows both ways, then the other modes and burst mode again. -/
theorem burst_delays_modes : Throughout (processKeyEntry .arm) BurstDelays (initial .arm)
    [modeKey 98, upArrow, downArrow, downArrow, modeKey 116, modeKey 100, downArrow, modeKey 98,
      downArrow, modeKey 113] :=
  (burst_delays_iff _ (by decide)).mpr (by decide)

/-- The 64th down arrow of burst mode wraps the first high pulse to 255. -/
theorem burst_delay_wraps : ¬Throughout (processKeyEntry .arm) BurstDelays (initial .arm)
    (modeKey 98 :: List.replicate 64 downArrow) := by
  obtain ⟨s, tr, hrun, h3, h7⟩ : ∃ s tr,
      exec (processKeyEntry .arm) (initial .arm) (modeKey 98 :: List.replicate 64 downArrow) =
        some (s, tr) ∧ s.gpioBurstSequence[3] = 255#8 ∧ s.gpioBurstSequence[7] = 191#8 := by
    decide +kernel
  intro h
  have hordered := (h.last hrun).inRange.ordered
  rw [h3, h7] at hordered
  exact absurd hordered (by decide)

end LinuxOddsAndEnds.Rpi3.KeyEntry
