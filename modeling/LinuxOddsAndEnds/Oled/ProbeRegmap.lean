import LinuxOddsAndEnds.Oled.GpioLedger
import LinuxOddsAndEnds.Oled.ShowRegmap

/-!
# Probing and removing the regmap display

`ess_oled_probe` and `ess_oled_remove` of the regmap module, with the objects that each
step acquires, reads and frees; the lines are those of `gpio_oled_probe`, as its ledger has
them. Of the failures after the allocations only that of `regmap_init_i2c` is unwound, and the
unwinding and the remove both read the structure after they have freed it, so nothing goes
wrong only if the probe fails while it holds nothing.
-/

namespace LinuxOddsAndEnds.Oled.Regmap

open Foundation

inductive Object where
  | line (r : Ledger.Resource)
  | oled
  | buffer
  | regmap
  deriving DecidableEq

/-- What the kernel answers during a probe, `lines` to the calls for the seven lines.
`busFailure` is the failure of the transfers, and `freedField` what the field
`i2c_spi_regmap` reads as once the structure is freed. -/
structure ProbeAnswers where
  ofMatch : Bool
  lines : Gpio → Ledger.LineAnswers
  i2cFunc : Bool
  smbusFunc : Bool
  kmalloc : Bool
  kzalloc : Bool
  regmapInitI2c : Bool
  freedField : ℤ
  busFailure : ℕ → Option ℤ

def enomem : ℤ := 12
def enxio : ℤ := 6
def eopnotsupp : ℤ := 95

def setMemAddr : Byte := 0x20
def setSegRemap : Byte := 0xA0
def setMuxRatio : Byte := 0xA8
def setComOutDir : Byte := 0xC0
def setDispOffset : Byte := 0xD3
def setComPinCfg : Byte := 0xDA
def setDispClkDiv : Byte := 0xD5
def setPrecharge : Byte := 0xD9
def setVcomDesel : Byte := 0xDB
def setContrast : Byte := 0x81
def setEntireOn : Byte := 0xA4
def setNormInv : Byte := 0xA6
def setChargePump : Byte := 0x8D

/-- What `gpio_oled_probe` and `gpio_oled_remove` do with the lines. -/
def onLines (tr : List (ResourceEvent Ledger.Resource)) : List (ResourceEvent Object) :=
  tr.map (.map .line)

/-- `oled_data`, the bus, and what was done with the objects. -/
structure Panel where
  data : Ssd1305Data
  bus : Bus
  history : List (ResourceEvent Object)

def Panel.uses (p : Panel) (objects : List Object) : Panel :=
  { p with history := p.history ++ objects.map .use }

/-- `write_cmd` finds the regmap through the structure. -/
def writeCmd (p : Panel) (cmd : Byte) : ℤ × Panel :=
  let out := regmapWrite p.bus command cmd
  (out.1, { p with bus := out.2 }.uses [.oled, .regmap])

def writeCmdData (p : Panel) (cmd data : Byte) : ℤ × Panel :=
  if (writeCmd p cmd).1 = 0 then writeCmd (writeCmd p cmd).2 data else writeCmd p cmd

/-- The frame buffer is read if the window commands got through. -/
def showPanel (p : Panel) : ℤ × Panel :=
  let cmds := showCmds (fun b cmd => regmapWrite b command cmd) (windowCmds p.data) p.bus
  let out := showRegmap p.data p.bus
  (out.ret, { p with bus := out.bus }.uses
    (if cmds.error then [.oled, .regmap] else [.oled, .regmap, .buffer]))

/-- One statement of the probe after the regmap is there. -/
inductive Setup where
  | writeCmd (cmd : Byte)
  | writeCmdData (cmd data : Byte)
  | show
  | draw (f : Ssd1305Data → Ssd1305Data)

def Setup.run (p : Panel) : Setup → ℤ × Panel
  | .writeCmd cmd => Regmap.writeCmd p cmd
  | .writeCmdData cmd data => Regmap.writeCmdData p cmd data
  | .show => showPanel p
  | .draw f => (0, { p with data := f p.data }.uses [.oled, .buffer])

/-- Every statement that answers something negative ends the probe. -/
def runSetup : List Setup → Panel → ℤ × Panel
  | [], p => (0, p)
  | st :: rest, p => if (st.run p).1 < 0 then st.run p else runSetup rest (st.run p).2

/-- The statements in their order; `height` comes from the structure. -/
def setup (height : Byte) : List Setup :=
  [.writeCmd setDispOn, .writeCmd setDispOff, .writeCmdData setMemAddr 0x00,
    .writeCmd (setDispStartLine ||| 0x00), .writeCmd (setSegRemap ||| 0x01),
    .writeCmdData setMuxRatio (height - 1#8), .writeCmd (setComOutDir ||| 0x08),
    .writeCmdData setDispOffset 0x00,
    .writeCmdData setComPinCfg (if height = 32#8 ∨ height = 16#8 then 0x02 else 0x12),
    .writeCmdData setDispClkDiv 0x80, .writeCmdData setPrecharge 0xF1,
    .writeCmdData setVcomDesel 0x30, .writeCmdData setContrast 0xFF, .writeCmd setEntireOn,
    .writeCmd setNormInv, .writeCmdData setChargePump 0x14, .writeCmd setDispOn, .show,
    .draw (setPixel · 0 0 1), .draw (setPixel · 64 32 1), .draw (setPixel · 127 63 1), .show,
    .draw (rect · 10 10 20 10 1 1), .show, .draw (hline · 31 11 10 1), .show,
    .draw (vline · 31 11 10 1), .show]

/-- Both allocations have succeeded and the client knows the structure. -/
def allocated : List (ResourceEvent Object) :=
  [.acquire .oled, .use .oled, .acquire .buffer, .use .oled, .use .buffer, .use .oled]

/-- The panel once the regmap is there. -/
def startPanel (a : ProbeAnswers) (done : List (ResourceEvent Object)) : Panel where
  data := probeData fun _ => 0
  bus := freshBus a.busFailure
  history := done ++ [ResourceEvent.acquire Object.regmap, .use .oled]

/-- The error pointer is stored and found, the buffer and the structure are freed, the lines
are put. -/
def unwinding : List (ResourceEvent Object) :=
  [ResourceEvent.use Object.oled, .use .oled, .release .buffer, .release .oled] ++
    onLines Ledger.gpioOledRemove

/-- From `regmap_init_i2c` on. Its failure reads the answer out of the freed structure. -/
def probeRegmap (a : ProbeAnswers) (done : List (ResourceEvent Object)) :
    ℤ × List (ResourceEvent Object) :=
  if a.regmapInitI2c then
    let out := runSetup (setup 64) (startPanel a done)
    (out.1, out.2.history)
  else (a.freedField, done ++ unwinding ++ [ResourceEvent.use Object.oled])

/-- From the functionality checks on. -/
def probeClient (a : ProbeAnswers) (done : List (ResourceEvent Object)) :
    ℤ × List (ResourceEvent Object) :=
  if !a.i2cFunc then (-enxio, done)
  else if !a.smbusFunc then (-eopnotsupp, done)
  else if !a.kmalloc then (-enomem, done)
  else if !a.kzalloc then
    (-enomem, done ++ [ResourceEvent.acquire Object.oled, .use .oled, .release .oled])
  else probeRegmap a (done ++ allocated)

/-- What the probe returns and what it did with the objects. -/
def essOledProbe (a : ProbeAnswers) : ℤ × List (ResourceEvent Object) :=
  if a.ofMatch then
    if (Ledger.gpioOledProbe a.lines).1 ≠ 0 then
      (-enxio, onLines (Ledger.gpioOledProbe a.lines).2)
    else probeClient a (onLines (Ledger.gpioOledProbe a.lines).2)
  else probeClient a []

/-- The structure is freed before the regmap is found through it. -/
def essOledRemove : List (ResourceEvent Object) :=
  [ResourceEvent.use Object.oled, .release .buffer, .release .oled, .use .oled, .release .regmap] ++
    onLines Ledger.gpioOledRemove

/-- A failed probe has released what it had acquired, each object once; after a successful
one the remove does. No object is read while it is not held. -/
def Released (out : ℤ × List (ResourceEvent Object)) : Prop :=
  if out.1 = 0 then Settled (out.2 ++ essOledRemove) else Settled out.2

def ProbeAnswers.FailsEarly (a : ProbeAnswers) : Prop :=
  ¬(a.i2cFunc && a.smbusFunc && a.kmalloc && a.kzalloc)

/-- The probe fails while it holds nothing: at a line, where all that was obtained is put
again, or with no line at a functionality check or an allocation. -/
def ProbeAnswers.FailsEmptyHanded (a : ProbeAnswers) : Prop :=
  if a.ofMatch then
    (∃ pre g post, Ledger.lines = pre ++ g :: post ∧ Ledger.EvenAt a.lines pre g) ∨
      (∀ g, (a.lines g).passesBare ∧ (a.lines g).gpiodGet = false) ∧ a.FailsEarly
  else a.FailsEarly

section Panel

variable {p : Panel}

theorem writeCmd_history (cmd : Byte) :
    (writeCmd p cmd).2.history = p.history ++ [Object.oled, Object.regmap].map .use := rfl

theorem run_history (st : Setup) :
    ∃ uses : List Object, (st.run p).2.history = p.history ++ uses.map .use := by
  cases st with
  | writeCmd cmd => exact ⟨_, rfl⟩
  | writeCmdData cmd data =>
    rw [Setup.run, writeCmdData]
    split_ifs
    · refine ⟨[Object.oled, .regmap] ++ [Object.oled, .regmap], ?_⟩
      rw [writeCmd_history, writeCmd_history, List.append_assoc, List.map_append]
    · exact ⟨_, rfl⟩
  | «show» => exact ⟨_, rfl⟩
  | draw f => exact ⟨_, rfl⟩

theorem runSetup_history (l : List Setup) :
    ∃ uses : List Object, (runSetup l p).2.history = p.history ++ uses.map .use := by
  induction l generalizing p with
  | nil => exact ⟨[], by simp [runSetup]⟩
  | cons st l ih =>
    obtain ⟨uses, huses⟩ := run_history st (p := p)
    rw [runSetup]
    split_ifs
    · exact ⟨uses, huses⟩
    · obtain ⟨later, hlater⟩ := ih (p := (st.run p).2)
      refine ⟨uses ++ later, ?_⟩
      rw [hlater, huses, List.append_assoc, List.map_append]

end Panel

variable {out : ℤ × List (ResourceEvent Object)} {o : Object}

theorem not_released_of_held (hret : out.1 ≠ 0) (ho : held o out.2 = true) : ¬Released out := by
  rw [Released, if_neg hret]
  intro h
  exact Bool.false_ne_true ((h.2 o).symm.trans ho)

/-- The remove reads the structure after it has freed it. -/
theorem not_lawful_remove (tr : List (ResourceEvent Object)) : ¬Lawful (tr ++ essOledRemove) := by
  rw [essOledRemove, List.cons_append, List.cons_append, List.cons_append, List.cons_append,
    List.append_cons, List.append_cons, List.append_cons]
  apply not_lawful_of_use
  rw [held_concat]
  rfl

theorem not_lawful_unwinding (done rest : List (ResourceEvent Object)) :
    ¬Lawful (done ++ unwinding ++ ResourceEvent.use Object.oled :: rest) := by
  apply not_lawful_of_use
  rw [unwinding, ← List.append_assoc, onLines, held_append_map _ fun r => by simp,
    List.append_cons, List.append_cons, List.append_cons, held_concat]
  rfl

theorem not_released_probeRegmap (a : ProbeAnswers) (done : List (ResourceEvent Object)) :
    ¬Released (probeRegmap a (done ++ allocated)) := by
  rw [probeRegmap]
  split_ifs with hinit
  · obtain ⟨uses, huses⟩ := runSetup_history (setup 64) (p := startPanel a (done ++ allocated))
    by_cases hret : (runSetup (setup 64) (startPanel a (done ++ allocated))).1 = 0
    · rw [Released, if_pos hret]
      exact fun h => not_lawful_remove _ h.1
    · refine not_released_of_held (o := .oled) hret ?_
      dsimp only
      rw [huses, held_uses, startPanel, List.append_assoc]
      simp [allocated, held_append, ResourceEvent.holds]
  · rw [Released]
    split_ifs
    · rw [List.append_assoc]
      exact fun h => not_lawful_unwinding _ _ h.1
    · exact fun h => not_lawful_unwinding _ _ h.1

/-- Once a line is held, every failure leaks it or is followed by worse. -/
theorem not_released_of_line (a : ProbeAnswers) {done : List (ResourceEvent Object)}
    {r : Ledger.Resource} (hr : held (.line r) done = true) : ¬Released (probeClient a done) := by
  rw [probeClient]
  split_ifs
  · exact not_released_of_held (o := .line r) (show -enxio ≠ 0 by decide) hr
  · exact not_released_of_held (o := .line r) (show -eopnotsupp ≠ 0 by decide) hr
  · exact not_released_of_held (o := .line r) (show -enomem ≠ 0 by decide) hr
  · exact not_released_of_held (o := .line r) (show -enomem ≠ 0 by decide)
      (held_of_release_notMem hr (by simp))
  · exact not_released_probeRegmap a _

theorem released_probeClient_iff (a : ProbeAnswers) :
    Released (probeClient a []) ↔ a.FailsEarly := by
  have hnone : ∀ {ret : ℤ}, ret ≠ 0 → Released (ret, []) := by
    intro ret hret
    rw [Released, if_neg hret]
    exact ⟨trivial, fun _ => rfl⟩
  rw [probeClient, ProbeAnswers.FailsEarly]
  split_ifs with hi2c hsmbus hkmalloc hkzalloc
  · exact iff_of_true (hnone (by decide)) (by simp_all)
  · exact iff_of_true (hnone (by decide)) (by simp_all)
  · exact iff_of_true (hnone (by decide)) (by simp_all)
  · refine iff_of_true ?_ (by simp_all)
    rw [Released, if_neg (by decide)]
    exact ⟨by decide, fun r => by cases r <;> rfl⟩
  · exact iff_of_false (not_released_probeRegmap a _) (by simp_all)

section Lines

variable {a : ProbeAnswers}

theorem line_injective : Function.Injective Object.line := fun _ _ => Object.line.inj

theorem released_failed_iff (hret : (Ledger.gpioOledProbe a.lines).1 ≠ 0) :
    Released (-enxio, onLines (Ledger.gpioOledProbe a.lines).2) ↔
      ∃ pre g post, Ledger.lines = pre ++ g :: post ∧ Ledger.EvenAt a.lines pre g := by
  rw [← Ledger.failed_settled_iff, and_iff_right hret, Released,
    if_neg (show -enxio ≠ 0 by decide), onLines, settled_map_iff line_injective]

theorem released_passed_iff (hret : (Ledger.gpioOledProbe a.lines).1 = 0) :
    Released (probeClient a (onLines (Ledger.gpioOledProbe a.lines).2)) ↔
      (∀ g, (a.lines g).passesBare ∧ (a.lines g).gpiodGet = false) ∧ a.FailsEarly := by
  rw [← Ledger.passed_empty_iff, and_iff_right hret, Ledger.gpioOledProbe_of_zero hret]
  cases hacquired : Ledger.acquired a.lines Ledger.lines with
  | nil => exact (released_probeClient_iff a).trans (and_iff_right rfl).symm
  | cons r rest =>
    refine iff_of_false (not_released_of_line a (r := r) ?_) fun h => List.cons_ne_nil r rest h.1
    have hheld := held_acquires (r := r) [] (r :: rest)
    rw [List.nil_append] at hheld
    rw [onLines, held_map line_injective, hheld]
    simp

end Lines

/-- A probe and the remove after it release each object once, and read none that is freed,
exactly if the probe fails while it holds nothing. -/
theorem probe_releases_iff (a : ProbeAnswers) :
    Released (essOledProbe a) ↔ a.FailsEmptyHanded := by
  rw [essOledProbe, ProbeAnswers.FailsEmptyHanded]
  split_ifs with hmatch hret
  · rw [released_failed_iff hret]
    refine (or_iff_left fun hbare => hret ?_).symm
    exact ((Ledger.passed_empty_iff a.lines).mpr hbare.1).1
  · rw [released_passed_iff (not_not.mp hret)]
    refine (or_iff_right fun heven => hret ?_).symm
    exact ((Ledger.failed_settled_iff a.lines).mpr heven).1
  · exact released_probeClient_iff a

/-- The adapter lacks plain I2C, and the lines that were claimed before stay claimed. -/
theorem failed_probe_leaks : ¬Released (essOledProbe
    ⟨true, fun _ => ⟨true, 0, 1, 0⟩, false, true, true, true, true, 0, fun _ => none⟩) :=
  not_released_of_held (o := .line (.desc .button5)) (by decide) (by decide)

end LinuxOddsAndEnds.Oled.Regmap
