import LinuxOddsAndEnds.Foundation.Resources
import LinuxOddsAndEnds.Oled.I2cOledGlobal
import Mathlib.Data.List.Nodup

/-!
# The ledger of the GPIO lines

`gpio_oled_probe` with its unwinding lists, `gpio_oled_remove` and `gpio_oled_irq_exit`,
for every answer of the kernel on each of the seven lines. No unwinding list frees an
interrupt or puts the line of button 6, a line without its interrupt passes if the debounce
was set, and unloading releases each line twice.
-/

namespace LinuxOddsAndEnds.Oled.Ledger

open Foundation

inductive Resource where
  | desc (g : Gpio)
  | irq (g : Gpio)
  deriving DecidableEq

def Resource.line : Resource → Gpio
  | .desc g | .irq g => g

/-- What the kernel answers for one line: whether `gpiod_get` or `gpiod_get_index` found a
descriptor, and what the other three calls answer. -/
structure LineAnswers where
  gpiodGet : Bool
  gpiodSetDebounce : ℤ
  gpiodToIrq : ℤ
  requestIrq : ℤ

/-- The order in which probe, remove and exit walk the lines. -/
def lines : List Gpio := [.button5, .button6, .rockerD, .rockerN, .rockerS, .rockerE, .rockerW]

/-- Whether the calls for the line obtain the resource. `request_irq` is reached only with
an interrupt number. -/
def obtained (answers : Gpio → LineAnswers) : Resource → Bool
  | .desc g => (answers g).gpiodGet
  | .irq g => 0 ≤ (answers g).gpiodToIrq && (answers g).requestIrq = 0

/-- `result` of one line, and what the line acquires. The descriptor that was just obtained
is not tested, and without an interrupt number `result` is still that of the debounce. -/
def gpioOledIrq (answers : Gpio → LineAnswers) (g : Gpio) : ℤ × List Resource :=
  (if 0 ≤ (answers g).gpiodToIrq then (answers g).requestIrq else (answers g).gpiodSetDebounce,
    [.desc g, .irq g].filter (obtained answers))

/-- The lines that are put when `g` fails. -/
def unwound : Gpio → List Gpio
  | .button5 => []
  | .button6 => [.button5]
  | .rockerD => [.rockerD, .button5]
  | .rockerN => [.rockerN, .rockerD, .button5]
  | .rockerS => [.rockerS, .rockerN, .rockerD, .button5]
  | .rockerE => [.rockerE, .rockerS, .rockerN, .rockerD, .button5]
  | .rockerW => [.rockerW, .rockerE, .rockerS, .rockerN, .rockerD, .button5]

/-- The nested tests of the probe from some line on, with what the lines before acquired. -/
def probeFrom (answers : Gpio → LineAnswers) :
    List Gpio → List Resource → ℤ × List (ResourceEvent Resource)
  | [], taken => (0, taken.map .acquire)
  | g :: rest, taken =>
    let out := gpioOledIrq answers g
    if out.1 = 0 then probeFrom answers rest (taken ++ out.2)
    else (out.1, (taken ++ out.2).map .acquire ++ ((unwound g).map .desc).map .release)

def gpioOledProbe (answers : Gpio → LineAnswers) : ℤ × List (ResourceEvent Resource) :=
  probeFrom answers lines []

def gpioOledRemove : List (ResourceEvent Resource) := (lines.map .desc).map .release

/-- `gpio_free` and `free_irq`. The numbers of a line are stored once it has an interrupt
number; until then they are zero and name nothing of the line. -/
def releaseGpioResource (answers : Gpio → LineAnswers) (g : Gpio) :
    List (ResourceEvent Resource) :=
  if 0 ≤ (answers g).gpiodToIrq then [.release (.desc g), .release (.irq g)] else []

def gpioOledIrqExit (answers : Gpio → LineAnswers) : List (ResourceEvent Resource) :=
  lines.flatMap (releaseGpioResource answers)

/-- A probe that returns 0 holds everything, and unloading releases each of it once; any
other probe holds nothing when it returns. Nothing is released that is not held. -/
def LedgerKept (answers : Gpio → LineAnswers) : Prop :=
  if (gpioOledProbe answers).1 = 0 then
    (∀ r, held r (gpioOledProbe answers).2 = true) ∧
      Settled ((gpioOledProbe answers).2 ++ gpioOledRemove ++ gpioOledIrqExit answers)
  else Settled (gpioOledProbe answers).2

/-- `request_irq` fails, or there is no interrupt number and the debounce fails too. -/
def LineAnswers.fails (a : LineAnswers) : Prop :=
  0 ≤ a.gpiodToIrq ∧ a.requestIrq ≠ 0 ∨ a.gpiodToIrq < 0 ∧ a.gpiodSetDebounce ≠ 0

def LineAnswers.passesBare (a : LineAnswers) : Prop := a.gpiodToIrq < 0 ∧ a.gpiodSetDebounce = 0

/-- The probe fails at `g` after the lines `pre`, none of which has its interrupt, and puts
exactly the descriptors obtained so far. -/
structure EvenAt (answers : Gpio → LineAnswers) (pre : List Gpio) (g : Gpio) : Prop where
  fails : (answers g).fails
  before : ∀ g' ∈ pre, (answers g').passesBare
  put : ∀ g' ∈ pre ++ [g], (answers g').gpiodGet = true ↔ g' ∈ unwound g

variable {answers : Gpio → LineAnswers} {g : Gpio} {r : Resource}

def acquired (answers : Gpio → LineAnswers) (l : List Gpio) : List Resource :=
  l.flatMap fun g => (gpioOledIrq answers g).2

theorem mem_acquired {l : List Gpio} :
    r ∈ acquired answers l ↔ r.line ∈ l ∧ obtained answers r = true := by
  cases r <;> simp [acquired, gpioOledIrq, Resource.line]

theorem nodup_acquired {l : List Gpio} (hl : l.Nodup) : (acquired answers l).Nodup := by
  induction l with
  | nil => exact List.nodup_nil
  | cons g l ih =>
    obtain ⟨hnotMem, hl⟩ := List.nodup_cons.mp hl
    have hline : (gpioOledIrq answers g).2.Nodup := List.Nodup.filter (obtained answers) (by simp)
    refine List.Nodup.append hline (ih hl) ?_
    intro r hr hr'
    have hg : r.line = g := by
      have hmem := List.mem_of_mem_filter hr
      rcases List.mem_cons.mp hmem with rfl | hmem
      · rfl
      · rw [List.mem_singleton.mp hmem]
        rfl
    rw [← hg] at hnotMem
    exact hnotMem (mem_acquired.mp hr').1

theorem result_ne_zero_iff : (gpioOledIrq answers g).1 ≠ 0 ↔ (answers g).fails := by
  unfold gpioOledIrq LineAnswers.fails
  dsimp only
  split_ifs <;> omega

theorem obtained_irq_iff :
    obtained answers (.irq g) = true ↔ 0 ≤ (answers g).gpiodToIrq ∧ (answers g).requestIrq = 0 := by
  simp [obtained]

theorem result_eq_zero_iff : (gpioOledIrq answers g).1 = 0 ↔
    obtained answers (.irq g) = true ∨ (answers g).passesBare := by
  rw [obtained_irq_iff]
  unfold gpioOledIrq LineAnswers.passesBare
  dsimp only
  split_ifs <;> omega

theorem not_obtained_of_passesBare (h : (answers g).passesBare) :
    ¬obtained answers (.irq g) = true := by
  intro hirq
  have hnumber := (obtained_irq_iff.mp hirq).1
  have hnone := h.1
  omega

theorem probeFrom_of_fails {pre post : List Gpio} {taken : List Resource}
    (hpre : ∀ g' ∈ pre, (gpioOledIrq answers g').1 = 0) (hg : (gpioOledIrq answers g).1 ≠ 0) :
    probeFrom answers (pre ++ g :: post) taken = ((gpioOledIrq answers g).1,
      (taken ++ acquired answers (pre ++ [g])).map .acquire ++
        ((unwound g).map .desc).map .release) := by
  induction pre generalizing taken with
  | nil => simp [probeFrom, hg, acquired]
  | cons g' pre ih =>
    obtain ⟨hg', hpre⟩ := List.forall_mem_cons.mp hpre
    rw [List.cons_append, probeFrom, if_pos hg', ih hpre]
    simp [acquired]

theorem probeFrom_of_passes {l : List Gpio} {taken : List Resource}
    (hl : ∀ g' ∈ l, (gpioOledIrq answers g').1 = 0) :
    probeFrom answers l taken = (0, (taken ++ acquired answers l).map .acquire) := by
  induction l generalizing taken with
  | nil => simp [probeFrom, acquired]
  | cons g' l ih =>
    obtain ⟨hg', hl⟩ := List.forall_mem_cons.mp hl
    rw [probeFrom, if_pos hg', ih hl]
    simp [acquired]

theorem passes_or_fails (answers : Gpio → LineAnswers) (l : List Gpio) :
    (∀ g' ∈ l, (gpioOledIrq answers g').1 = 0) ∨
    ∃ pre g post, l = pre ++ g :: post ∧ (∀ g' ∈ pre, (gpioOledIrq answers g').1 = 0) ∧
      (gpioOledIrq answers g).1 ≠ 0 := by
  induction l with
  | nil => exact Or.inl fun g' hg' => absurd hg' List.not_mem_nil
  | cons g' l ih =>
    by_cases hg' : (gpioOledIrq answers g').1 = 0
    · rcases ih with hall | ⟨pre, g, post, rfl, hpre, hg⟩
      · exact Or.inl (List.forall_mem_cons.mpr ⟨hg', hall⟩)
      · exact Or.inr ⟨g' :: pre, g, post, rfl, List.forall_mem_cons.mpr ⟨hg', hpre⟩, hg⟩
    · exact Or.inr ⟨[], g', l, rfl, by simp, hg'⟩

theorem nodup_lines : lines.Nodup := by decide

theorem mem_of_mem_unwound {pre post : List Gpio} (h : lines = pre ++ g :: post) {g' : Gpio}
    (hg' : g' ∈ unwound g) : g' ∈ pre ++ [g] := by
  have hnodup := nodup_lines
  rw [h] at hnodup
  have hnotMem : g ∉ pre := by
    intro hmem
    exact List.disjoint_of_nodup_append hnodup hmem List.mem_cons_self
  have hidx : lines.idxOf g = pre.length := by
    rw [h, List.idxOf_append_of_notMem hnotMem, List.idxOf_cons_self, Nat.add_zero]
  have htake : lines.take (lines.idxOf g + 1) = pre ++ [g] := by
    rw [hidx, h, List.append_cons]
    exact List.take_left' (by simp)
  rw [← htake]
  clear htake hidx hnotMem hnodup h
  cases g <;> revert g' <;> decide

/-- A failure leaves the ledger even exactly if it is put as it was taken. -/
theorem settled_iff_evenAt {pre post : List Gpio} (h : lines = pre ++ g :: post)
    (hpre : ∀ g' ∈ pre, (gpioOledIrq answers g').1 = 0) (hg : (gpioOledIrq answers g).1 ≠ 0) :
    Settled ((acquired answers (pre ++ [g])).map .acquire ++
      ((unwound g).map .desc).map .release) ↔ EvenAt answers pre g := by
  have hnodup : (pre ++ [g]).Nodup := by
    have hall := nodup_lines
    rw [h, List.append_cons] at hall
    exact hall.of_append_left
  have hunwound : ((unwound g).map Resource.desc).Nodup := by cases g <;> decide
  rw [settled_iff (nodup_acquired hnodup) hunwound]
  constructor
  · intro hsame
    refine ⟨result_ne_zero_iff.mp hg, ?_, ?_⟩
    · intro g' hg'
      have hirq : obtained answers (.irq g') ≠ true := by
        intro hobtained
        have hmem := (hsame (.irq g')).mp
          (mem_acquired.mpr ⟨List.mem_append_left _ hg', hobtained⟩)
        simp at hmem
      exact (result_eq_zero_iff.mp (hpre g' hg')).resolve_left hirq
    · intro g' hg'
      have hdesc := hsame (.desc g')
      rw [mem_acquired] at hdesc
      simpa [Resource.line, obtained, hg'] using hdesc
  · intro heven r
    rw [mem_acquired]
    cases r with
    | desc g' =>
      have hput := heven.put g'
      constructor
      · rintro ⟨hmem, hget⟩
        exact List.mem_map_of_mem ((hput hmem).mp hget)
      · intro hmem
        obtain ⟨g'', hg'', hdesc⟩ := List.mem_map.mp hmem
        obtain rfl := Resource.desc.inj hdesc
        have hreached := mem_of_mem_unwound h hg''
        exact ⟨hreached, (hput hreached).mpr hg''⟩
    | irq g' =>
      refine iff_of_false ?_ (by simp)
      rintro ⟨hmem, hirq⟩
      rcases List.mem_append.mp hmem with hbefore | hlast
      · exact not_obtained_of_passesBare (heven.before g' hbefore) hirq
      · obtain rfl := List.mem_singleton.mp hlast
        exact hg (result_eq_zero_iff.mpr (Or.inl hirq))

theorem passes_of_zero (hzero : (gpioOledProbe answers).1 = 0) :
    ∀ g ∈ lines, (gpioOledIrq answers g).1 = 0 := by
  rcases passes_or_fails answers lines with hall | ⟨pre, g, post, h, hpre, hg⟩
  · exact hall
  · rw [gpioOledProbe, h, probeFrom_of_fails hpre hg] at hzero
    exact absurd hzero hg

theorem gpioOledProbe_of_zero (hzero : (gpioOledProbe answers).1 = 0) :
    (gpioOledProbe answers).2 = (acquired answers lines).map .acquire := by
  rw [gpioOledProbe, probeFrom_of_passes (passes_of_zero hzero)]
  rfl

theorem failed_settled_iff (answers : Gpio → LineAnswers) :
    (gpioOledProbe answers).1 ≠ 0 ∧ Settled (gpioOledProbe answers).2 ↔
      ∃ pre g post, lines = pre ++ g :: post ∧ EvenAt answers pre g := by
  have hfailed : ∀ {pre g post}, lines = pre ++ g :: post →
      (∀ g' ∈ pre, (gpioOledIrq answers g').1 = 0) → (gpioOledIrq answers g).1 ≠ 0 →
      ((gpioOledProbe answers).1 ≠ 0 ∧ Settled (gpioOledProbe answers).2 ↔
        EvenAt answers pre g) := by
    intro pre g post h hpre hg
    rw [gpioOledProbe, h, probeFrom_of_fails hpre hg, and_iff_right hg, List.nil_append]
    exact settled_iff_evenAt h hpre hg
  constructor
  · rintro ⟨hret, hsettled⟩
    rcases passes_or_fails answers lines with hall | ⟨pre, g, post, h, hpre, hg⟩
    · rw [gpioOledProbe, probeFrom_of_passes hall] at hret
      exact absurd rfl hret
    · exact ⟨pre, g, post, h, (hfailed h hpre hg).mp ⟨hret, hsettled⟩⟩
  · rintro ⟨pre, g, post, h, heven⟩
    have hpre : ∀ g' ∈ pre, (gpioOledIrq answers g').1 = 0 :=
      fun g' hg' => result_eq_zero_iff.mpr (Or.inr (heven.before g' hg'))
    exact (hfailed h hpre (result_ne_zero_iff.mpr heven.fails)).mpr heven

/-- A probe that returns 0 holds nothing only if every line passes without its interrupt and
without a descriptor. -/
theorem passed_empty_iff (answers : Gpio → LineAnswers) :
    (gpioOledProbe answers).1 = 0 ∧ acquired answers lines = [] ↔
      ∀ g, (answers g).passesBare ∧ (answers g).gpiodGet = false := by
  have hline : ∀ g : Gpio, g ∈ lines := by
    intro g
    cases g <;> decide
  constructor
  · rintro ⟨hzero, hnone⟩ g
    have hfree : ∀ r : Resource, r.line = g → obtained answers r ≠ true := by
      intro r hr hobtained
      have hmem := mem_acquired.mpr ⟨hr ▸ hline g, hobtained⟩
      rw [hnone] at hmem
      exact List.not_mem_nil hmem
    exact ⟨(result_eq_zero_iff.mp (passes_of_zero hzero g (hline g))).resolve_left
      (hfree (.irq g) rfl), Bool.eq_false_iff.mpr (hfree (.desc g) rfl)⟩
  · intro hbare
    constructor
    · rw [gpioOledProbe, probeFrom_of_passes fun g _ => result_eq_zero_iff.mpr (Or.inr (hbare g).1)]
    · rw [List.eq_nil_iff_forall_not_mem]
      intro r hr
      obtain ⟨-, hobtained⟩ := mem_acquired.mp hr
      cases r with
      | desc g => exact Bool.false_ne_true ((hbare g).2.symm.trans hobtained)
      | irq g => exact not_obtained_of_passesBare (hbare g).1 hobtained

/-- After a probe that returns 0 and holds all, the exit releases button 5 once more. -/
theorem not_kept_of_zero (hzero : (gpioOledProbe answers).1 = 0) : ¬LedgerKept answers := by
  rw [LedgerKept, if_pos hzero, gpioOledProbe_of_zero hzero]
  rintro ⟨hheld, hsettled⟩
  have hirq : obtained answers (.irq .button5) = true := by
    have hmem := hheld (.irq .button5)
    rw [← List.nil_append (List.map _ _), held_acquires] at hmem
    simpa using (mem_acquired.mp (by simpa using hmem)).2
  have hexit : gpioOledIrqExit answers = .release (.desc .button5) ::
      (.release (.irq .button5) ::
        (lines.tail.flatMap (releaseGpioResource answers))) := by
    rw [gpioOledIrqExit, lines, List.flatMap_cons, releaseGpioResource,
      if_pos (obtained_irq_iff.mp hirq).1]
    rfl
  rw [hexit] at hsettled
  refine not_lawful_of_release ?_ hsettled.1
  rw [gpioOledRemove, held_releases]
  simp [lines]

/-- The ledger is kept exactly if the probe fails at a line after lines without interrupts,
and the unwinding list of that line names the descriptors obtained so far. -/
theorem gpio_ledger_iff (answers : Gpio → LineAnswers) : LedgerKept answers ↔
    ∃ pre g post, lines = pre ++ g :: post ∧ EvenAt answers pre g := by
  rw [← failed_settled_iff]
  constructor
  · intro hkept
    have hret : (gpioOledProbe answers).1 ≠ 0 := fun hzero => not_kept_of_zero hzero hkept
    rw [LedgerKept, if_neg hret] at hkept
    exact ⟨hret, hkept⟩
  · rintro ⟨hret, hsettled⟩
    rw [LedgerKept, if_neg hret]
    exact hsettled

/-- Every call succeeds, and the unload releases each line twice. -/
theorem unload_releases_twice : ¬LedgerKept fun _ => ⟨true, 0, 1, 0⟩ := by
  rw [LedgerKept, if_pos (by decide)]
  rintro ⟨-, hsettled⟩
  exact absurd hsettled.1 (by decide +kernel)

/-- With a kernel whose calls fail on an error pointer, the ledger is kept only if one of
the buttons' descriptors cannot be obtained: that of button 5, or that of button 6 after
button 5 has passed without its interrupt. -/
theorem even_iff_of_errorPointer (herror : ∀ g, (answers g).gpiodGet = false →
      (answers g).gpiodToIrq < 0 ∧ (answers g).gpiodSetDebounce ≠ 0) :
    (∃ pre g post, lines = pre ++ g :: post ∧ EvenAt answers pre g) ↔
      (answers .button5).gpiodGet = false ∨ (answers .button5).passesBare ∧
        (answers .button6).gpiodGet = false := by
  have hfails : ∀ {g}, (answers g).gpiodGet = false → (answers g).fails :=
    fun hget => Or.inr (herror _ hget)
  have hget : ∀ {g}, (answers g).passesBare → (answers g).gpiodGet = true := by
    intro g hbare
    cases hg : (answers g).gpiodGet with
    | true => rfl
    | false => exact absurd hbare.2 (herror g hg).2
  constructor
  · rintro ⟨pre, g, post, h, heven⟩
    match pre, h, heven with
    | [], h, heven =>
      obtain rfl : Gpio.button5 = g := (List.cons.inj h).1
      have hput := heven.put .button5 (by simp)
      exact Or.inl (by simpa [unwound] using hput)
    | [_], h, heven =>
      obtain ⟨rfl, htail⟩ := List.cons.inj h
      obtain rfl : Gpio.button6 = g := (List.cons.inj htail).1
      have hput := heven.put .button6 (by simp)
      exact Or.inr ⟨heven.before .button5 (by simp), by simpa [unwound] using hput⟩
    | _ :: _ :: rest, h, heven =>
      obtain ⟨rfl, htail⟩ := List.cons.inj h
      obtain ⟨rfl, -⟩ := List.cons.inj htail
      have hget6 := hget (heven.before .button6 (by simp))
      have hput := (heven.put .button6 (by simp)).mp hget6
      cases g <;> simp [unwound] at hput
  · rintro (hget5 | ⟨hbare5, hget6⟩)
    · refine ⟨[], .button5, _, rfl, hfails hget5, by simp, ?_⟩
      simpa [unwound] using hget5
    · refine ⟨[.button5], .button6, _, rfl, hfails hget6, by simpa using hbare5, ?_⟩
      simp [unwound, hget hbare5, hget6]

end LinuxOddsAndEnds.Oled.Ledger
