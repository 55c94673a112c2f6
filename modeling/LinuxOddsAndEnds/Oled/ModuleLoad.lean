import LinuxOddsAndEnds.Foundation.Resources
import Mathlib.Data.Int.Notation

/-!
# Loading the OLED module

`canonical_init` of `ess_canonical_module.c` with `ess_oled_init` and `gpio_oled_irq_init`
below it, for every answer of the kernel. What `ess_oled_init` returns is not looked at,
and its registrations are undone on no path, so the load is all or nothing if every call
succeeds, or if `i2c_add_driver` fails and one of the unwound failures follows.
-/

namespace LinuxOddsAndEnds.Oled.ModuleLoad

open Foundation

inductive Registration where
  | i2cDriver
  | captureEventBuffer
  | eventBulkDataBuffer
  | chrdevRegion
  | essClass
  | essDevice
  deriving DecidableEq

/-- What a call that returns a pointer answers. The kernel reports a failure by an error
pointer; the source looks for `NULL`. -/
inductive Pointer where
  | valid
  | null
  | error
  deriving DecidableEq

/-- What the kernel answers to the calls, in their order. `init` of a ring answers 0 or an
error. -/
structure LoadAnswers where
  i2cAddDriver : ℤ
  initCaptureEventBuffer : ℤ
  initEventBulkDataBuffer : ℤ
  allocChrdevRegion : ℤ
  classCreate : Pointer
  deviceCreate : Pointer
  cdevAdd : ℤ

/-- A failure of the second ring gives the first one back. -/
def gpioOledIrqInit (a : LoadAnswers) : ℤ × List (ResourceEvent Registration) :=
  if a.initCaptureEventBuffer = 0 then
    if a.initEventBulkDataBuffer = 0 then
      (a.initEventBulkDataBuffer, [.acquire .captureEventBuffer, .acquire .eventBulkDataBuffer])
    else
      (a.initEventBulkDataBuffer, [.acquire .captureEventBuffer, .release .captureEventBuffer])
  else (a.initCaptureEventBuffer, [])

/-- `ret` is assigned the answer of a comparison, both times. -/
def essOledInit (a : LoadAnswers) : ℤ × List (ResourceEvent Registration) :=
  if a.i2cAddDriver = 0 then
    (if (gpioOledIrqInit a).1 ≠ 0 then 1 else 0, .acquire .i2cDriver :: (gpioOledIrqInit a).2)
  else (0, [])

def createdDevice (a : LoadAnswers) : List (ResourceEvent Registration) :=
  if a.deviceCreate = .valid then [.acquire .essDevice] else []

/-- `device_destroy` looks the device up by its number and does nothing if there is none. -/
def destroyedDevice (a : LoadAnswers) : List (ResourceEvent Registration) :=
  if a.deviceCreate = .valid then [.release .essDevice] else []

/-- What `canonical_init` returns and what it registers and undoes; nothing is returned if
it writes through the error pointer of `class_create`. -/
def canonicalInit (a : LoadAnswers) : Option ℤ × List (ResourceEvent Registration) :=
  let done := (essOledInit a).2
  if a.allocChrdevRegion < 0 then (some a.allocChrdevRegion, done)
  else
    match a.classCreate with
    | .null => (some (-1), done ++ [.acquire .chrdevRegion])
    | .error => (none, done ++ [.acquire .chrdevRegion])
    | .valid =>
      if a.deviceCreate = .null then
        (some (-1), done ++ [.acquire .chrdevRegion, .acquire .essClass, .release .essClass,
          .release .chrdevRegion])
      else if a.cdevAdd = -1 then
        (some (-1), done ++ [.acquire .chrdevRegion, .acquire .essClass] ++ createdDevice a ++
          destroyedDevice a ++ [.release .essClass, .release .chrdevRegion])
      else
        (some 0, done ++ [.acquire .chrdevRegion, .acquire .essClass] ++ createdDevice a)

structure LoadAnswers.AllSucceed (a : LoadAnswers) : Prop where
  i2cAddDriver : a.i2cAddDriver = 0
  initCaptureEventBuffer : a.initCaptureEventBuffer = 0
  initEventBulkDataBuffer : a.initEventBulkDataBuffer = 0
  allocChrdevRegion : 0 ≤ a.allocChrdevRegion
  classCreate : a.classCreate = .valid
  deviceCreate : a.deviceCreate = .valid
  cdevAdd : a.cdevAdd = 0

/-- The load returns 0 only if all calls succeeded, and returns something else only with
everything undone, once. -/
def AllOrNothing (a : LoadAnswers) : Prop :=
  ∃ ret, (canonicalInit a).1 = some ret ∧ (ret = 0 → a.AllSucceed) ∧
    (ret ≠ 0 → Settled (canonicalInit a).2)

/-- `i2c_add_driver` fails, and so does a call whose failure is noticed and unwound. -/
structure LoadAnswers.FailsClean (a : LoadAnswers) : Prop where
  i2cAddDriver : a.i2cAddDriver ≠ 0
  unwound : a.allocChrdevRegion < 0 ∨
    a.classCreate = .valid ∧ (a.deviceCreate = .null ∨ a.cdevAdd = -1)

variable {a : LoadAnswers}

/-- Whether `ess_oled_init` returns 0 says nothing about the driver: it does when all went
well and when `i2c_add_driver` failed. -/
theorem essOledInit_eq_zero_iff : (essOledInit a).1 = 0 ↔
    a.i2cAddDriver ≠ 0 ∨ a.initCaptureEventBuffer = 0 ∧ a.initEventBulkDataBuffer = 0 := by
  unfold essOledInit gpioOledIrqInit
  split_ifs <;> simp_all

theorem held_i2cDriver (h : a.i2cAddDriver = 0) : held .i2cDriver (canonicalInit a).2 = true := by
  have hdone : held .i2cDriver (essOledInit a).2 = true := by
    unfold essOledInit gpioOledIrqInit
    split_ifs <;> rfl
  obtain ⟨rest, hrest, hnever⟩ : ∃ rest, (canonicalInit a).2 = (essOledInit a).2 ++ rest ∧
      .release .i2cDriver ∉ rest := by
    unfold canonicalInit createdDevice destroyedDevice
    split_ifs
    · exact ⟨[], by simp⟩
    all_goals
      cases a.classCreate with
      | null | error => exact ⟨_, rfl, by simp⟩
      | valid => exact ⟨_, by simp only [List.append_assoc]; rfl, by simp⟩
  rw [hrest]
  exact held_of_release_notMem hdone hnever

/-- A failed load is settled only if it never got to the driver. -/
theorem not_settled (h : a.i2cAddDriver = 0) : ¬Settled (canonicalInit a).2 := by
  intro hs
  have hfree := hs.2 .i2cDriver
  rw [held_i2cDriver h] at hfree
  exact Bool.false_ne_true hfree.symm

theorem essOledInit_of_ne (h : a.i2cAddDriver ≠ 0) : essOledInit a = (0, []) := if_neg h

theorem settled_of_failsClean (h : a.FailsClean) : ∃ ret, (canonicalInit a).1 = some ret ∧
    ret ≠ 0 ∧ Settled (canonicalInit a).2 := by
  unfold canonicalInit
  rw [essOledInit_of_ne h.i2cAddDriver]
  by_cases halloc : a.allocChrdevRegion < 0
  · rw [if_pos halloc]
    exact ⟨_, rfl, by omega, trivial, fun _ => rfl⟩
  · obtain ⟨hclass, hlate⟩ := h.unwound.resolve_left halloc
    rw [if_neg halloc, hclass]
    by_cases hnull : a.deviceCreate = .null
    · rw [if_pos hnull]
      exact ⟨-1, rfl, by omega, by decide, fun r => by cases r <;> rfl⟩
    · rw [if_neg hnull, if_pos (hlate.resolve_left hnull)]
      refine ⟨-1, rfl, by omega, ?_⟩
      unfold createdDevice destroyedDevice
      split_ifs
      · exact ⟨by decide, fun r => by cases r <;> rfl⟩
      · exact ⟨by decide, fun r => by cases r <;> rfl⟩

theorem returns_zero (h : a.AllSucceed) : (canonicalInit a).1 = some 0 := by
  have halloc : ¬a.allocChrdevRegion < 0 := by
    have hle := h.allocChrdevRegion
    omega
  have hcdev : a.cdevAdd ≠ -1 := by
    rw [h.cdevAdd]
    omega
  unfold canonicalInit
  rw [if_neg halloc, h.classCreate, h.deviceCreate]
  exact congrArg Prod.fst (if_neg hcdev)

theorem unwound_of_settled (hdriver : a.i2cAddDriver ≠ 0) {ret : ℤ}
    (hret : (canonicalInit a).1 = some ret) (hne : ret ≠ 0)
    (hsettled : Settled (canonicalInit a).2) : a.FailsClean := by
  refine ⟨hdriver, ?_⟩
  unfold canonicalInit at hret hsettled
  rw [essOledInit_of_ne hdriver] at hret hsettled
  by_cases halloc : a.allocChrdevRegion < 0
  · exact Or.inl halloc
  · rw [if_neg halloc] at hret hsettled
    refine Or.inr ?_
    cases hclass : a.classCreate with
    | null =>
      rw [hclass] at hsettled
      exact absurd (hsettled.2 .chrdevRegion) (Bool.false_ne_true ·.symm)
    | error =>
      rw [hclass] at hret
      exact absurd hret.symm (Option.some_ne_none ret)
    | valid =>
      rw [hclass] at hret
      refine ⟨rfl, ?_⟩
      by_contra hlate
      rw [not_or] at hlate
      dsimp only at hret
      rw [if_neg hlate.1, if_neg hlate.2] at hret
      exact hne (Option.some.inj hret).symm

/-- The load is all or nothing exactly if every call succeeds, or `i2c_add_driver` fails and
so does `alloc_chrdev_region`, or after it `device_create` with `NULL` or `cdev_add` with -1. -/
theorem load_all_or_nothing_iff (a : LoadAnswers) :
    AllOrNothing a ↔ a.AllSucceed ∨ a.FailsClean := by
  constructor
  · rintro ⟨ret, hret, hzero, hfail⟩
    by_cases hr : ret = 0
    · exact Or.inl (hzero hr)
    · have hsettled := hfail hr
      have hdriver : a.i2cAddDriver ≠ 0 := fun h => not_settled h hsettled
      exact Or.inr (unwound_of_settled hdriver hret hr hsettled)
  · rintro (hall | hclean)
    · exact ⟨0, returns_zero hall, fun _ => hall, fun hne => absurd rfl hne⟩
    · obtain ⟨ret, hret, hne, hsettled⟩ := settled_of_failsClean hclean
      exact ⟨ret, hret, fun hzero => absurd hzero hne, fun _ => hsettled⟩

theorem AllOrNothing.balanced (h : AllOrNothing a) (hfail : (canonicalInit a).1 ≠ some 0)
    (r : Registration) : (canonicalInit a).2.count (.acquire r) =
      (canonicalInit a).2.count (.release r) := by
  obtain ⟨ret, hret, -, hsettled⟩ := h
  have hne : ret ≠ 0 := by
    rintro rfl
    exact hfail hret
  exact (hsettled hne).balanced r

/-- Only the second ring cannot be allocated, and the load returns 0. -/
theorem load_hides_failure : ¬AllOrNothing ⟨0, 0, -12, 0, .valid, .valid, 0⟩ := by
  rintro ⟨ret, hret, hzero, -⟩
  have hall := hzero (Option.some.inj hret).symm
  exact absurd hall.initEventBulkDataBuffer (by decide)

end LinuxOddsAndEnds.Oled.ModuleLoad
