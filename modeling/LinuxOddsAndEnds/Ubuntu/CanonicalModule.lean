import LinuxOddsAndEnds.Foundation.Callbacks
import LinuxOddsAndEnds.Oled.ModuleLoad

/-!
# Loading and unloading the demonstrations

All demonstrations share `ess_canonical_module.c`: `canonical_init` calls the demonstration and
then registers a device number, a class, a device and a `cdev`; `canonical_exit` calls the
demonstration's exit and takes the first three back. When a registration fails the module is
gone, but no path of `canonical_init` calls the exit of the demonstration, and `cdev_del` is
called nowhere. So the demonstration must have nothing armed when the load fails, and whoever
opens the device number after an unload runs code that is no longer there.
-/

namespace LinuxOddsAndEnds.Ubuntu.CanonicalModule

open Foundation Oled.ModuleLoad

/-- The open of the device number, and the callbacks of a demonstration. -/
inductive Callback (H : Type*) where
  | deviceOpen
  | demo (c : H)
  deriving DecidableEq

/-- The code and the statics of the module, what `canonical_init` registers, and what a
demonstration allocates. -/
inductive Resource (D : Type*) where
  | moduleText
  | chrdevRegion
  | essClass
  | essDevice
  | data (d : D)
  deriving DecidableEq

/-- The init of a demonstration and whether the load goes on after it, its exit, and what its
callbacks do besides running code of the module. -/
structure Demo (H D : Type*) where
  init : List (CodeOp H D)
  goesOn : Bool
  exit : List (CodeOp H D)
  body : H → List (CallbackOp D)

/-- What the kernel answers to the registrations, in their order. -/
structure Answers where
  allocChrdevRegion : ℤ
  classCreate : Pointer
  deviceCreate : Pointer
  cdevAdd : ℤ

variable {H D : Type*}

section Code

variable (H D)

abbrev Op := CodeOp (Callback H) (Resource D)

variable {H D}

def Answers.acquiredClass (a : Answers) : List (Op H D) :=
  if a.classCreate = .valid then [.event (.acquire .essClass)] else []

def Answers.acquiredDevice (a : Answers) : List (Op H D) :=
  if a.deviceCreate = .valid then [.event (.acquire .essDevice)] else []

/-- `device_destroy` looks for the device among those of the class. -/
def Answers.deviceDestroy (a : Answers) : List (Op H D) :=
  .event (.use .essClass) ::
    if a.deviceCreate = .valid then [.event (.release .essDevice)] else []

/-- `class_destroy` ignores an error pointer. -/
def Answers.classDestroy (a : Answers) : List (Op H D) :=
  if a.classCreate = .valid then [.event (.release .essClass)] else []

def unregisterChrdevRegion : Op H D := .event (.release .chrdevRegion)

/-- What `canonical_init` does after the demonstration, and whether it returns 0. From
`cdev_add` on the number can be opened, which is of interest if `opens` tells that somebody
will. -/
def Answers.register (a : Answers) (opens : Bool) : Bool × List (Op H D) :=
  if a.allocChrdevRegion < 0 then (false, [])
  else if a.classCreate = .null then (false, [.event (.acquire .chrdevRegion)])
  else if a.deviceCreate = .null then
    (false, .event (.acquire .chrdevRegion) :: a.acquiredClass ++ a.classDestroy ++
      [unregisterChrdevRegion])
  else if a.cdevAdd = -1 then
    (false, .event (.acquire .chrdevRegion) :: a.acquiredClass ++ a.acquiredDevice ++
      a.deviceDestroy ++ a.classDestroy ++ [unregisterChrdevRegion])
  else
    (true, .event (.acquire .chrdevRegion) :: a.acquiredClass ++ a.acquiredDevice ++
      if a.cdevAdd = 0 ∧ opens then [CodeOp.arm Callback.deviceOpen] else [])

/-- The end of `canonical_exit`. -/
def Answers.unregister (a : Answers) : List (Op H D) :=
  a.deviceDestroy ++ a.classDestroy ++ [unregisterChrdevRegion]

def lift (ops : List (CodeOp H D)) : List (Op H D) := ops.map (.map .demo .data)

/-- A callback begins and ends in the code of the module. -/
def Demo.callback (demo : Demo H D) : Callback H → List (CallbackOp (Resource D))
  | .deviceOpen => [.use .moduleText]
  | .demo c => .use .moduleText :: (demo.body c).map (fun
      | .use d => .use (.data d)
      | .rearm => .rearm) ++ [.use .moduleText]

/-- The life of the module from `insmod` on: it is unloaded when `canonical_init` fails, and
otherwise after `canonical_exit`. -/
def Demo.module (demo : Demo H D) (a : Answers) (opens : Bool) : List (Op H D) :=
  .event (.acquire .moduleText) :: lift demo.init ++
    (if demo.goesOn then
      (a.register opens).2 ++
        if (a.register opens : Bool × List (Op H D)).1 then lift demo.exit ++ a.unregister else []
    else []) ++ [CodeOp.event (.release Resource.moduleText)]

end Code

/-- `canonical_init` returns 0 if the demonstration let it go on. -/
def Answers.Registered (a : Answers) : Prop :=
  0 ≤ a.allocChrdevRegion ∧ a.classCreate ≠ .null ∧ a.deviceCreate ≠ .null ∧ a.cdevAdd ≠ -1

/-- The failed `cdev_add` is unwound with an error pointer for the class. -/
def Answers.UnwindsError (a : Answers) : Prop :=
  0 ≤ a.allocChrdevRegion ∧ a.classCreate = .error ∧ a.deviceCreate ≠ .null ∧ a.cdevAdd = -1

instance (a : Answers) : Decidable a.Registered := by
  unfold Answers.Registered
  infer_instance

instance (a : Answers) : Decidable a.UnwindsError := by
  unfold Answers.UnwindsError
  infer_instance

section Account

variable [DecidableEq H] [DecidableEq D]

/-- Nothing of the demonstration may be called or run after the operations. -/
def Quiet (ops : List (CodeOp H D)) : Prop := ∀ c, liveAfter (fun _ => false) ops c = false

/-- The condition under which a demonstration's module runs in order: the demonstration does by
itself, and what `canonical_init` leaves out does not matter. -/
def Demo.Safe (demo : Demo H D) (a : Answers) (opens : Bool) : Prop :=
  if demo.goesOn ∧ a.Registered then
    Sound demo.body (fun _ => false) (fun _ => false) (demo.init ++ demo.exit) ∧
      Quiet (demo.init ++ demo.exit) ∧ a.classCreate = .valid ∧ (opens = true → a.cdevAdd ≠ 0)
  else
    Sound demo.body (fun _ => false) (fun _ => false) demo.init ∧ Quiet demo.init ∧
      (demo.goesOn = true → ¬a.UnwindsError)

end Account

section Checking

variable {demo : Demo H D} {c : Callback H} {r : Resource D} {a : Answers} {opens : Bool}

@[simp]
theorem use_mem_callback : .use r ∈ demo.callback c ↔
    r = .moduleText ∨ ∃ c' d, c = .demo c' ∧ r = .data d ∧ .use d ∈ demo.body c' := by
  cases c with
  | deviceOpen => simp [Demo.callback]
  | demo c =>
    have hmem : CallbackOp.use r ∈ ((demo.body c).map fun
        | .use d => CallbackOp.use (Resource.data d)
        | .rearm => .rearm) ↔ ∃ d, r = .data d ∧ .use d ∈ demo.body c := by
      rw [List.mem_map]
      constructor
      · rintro ⟨op, hop, heq⟩
        cases op with
        | use d => exact ⟨d, (CallbackOp.use.inj heq).symm, hop⟩
        | rearm => cases heq
      · rintro ⟨d, rfl, hop⟩
        exact ⟨_, hop, rfl⟩
    rw [Demo.callback, List.cons_append, List.mem_cons, List.mem_append, hmem]
    simp only [CallbackOp.use.injEq, List.mem_singleton, Callback.demo.injEq]
    grind

variable [DecidableEq H] [DecidableEq D] {held : Resource D → Bool} {live : Callback H → Bool}

theorem sound_lift (htext : held .moduleText = true) (ops : List (CodeOp H D)) :
    Sound demo.callback held live (lift ops) ↔
      Sound demo.body (fun d => held (.data d)) (fun c => live (.demo c)) ops := by
  refine sound_mapped (fun _ _ => Callback.demo.inj) (fun _ _ => Resource.data.inj) (fun c d => ?_)
    (fun c' d hmem => ?_) (fun c r hmem hne => ?_) ops
  · simp
  · rw [use_mem_callback] at hmem
    obtain hr | ⟨c, d', rfl, -⟩ := hmem
    · cases hr
    · exact ⟨c, rfl⟩
  · rw [use_mem_callback] at hmem
    obtain rfl | ⟨c', d, -, rfl, -⟩ := hmem
    · exact htext
    · exact absurd rfl (hne d)

theorem sound_release (htext : held .moduleText = true) :
    Sound demo.callback held live [.event (.release .moduleText)] ↔ ∀ c, live c = false := by
  simp [Sound, CodeOp.Allowed, htext]

/-- The module is there and nothing is registered. -/
structure Unregistered (held : Resource D → Bool) (live : Callback H → Bool) : Prop where
  moduleText : held .moduleText = true
  chrdevRegion : held .chrdevRegion = false
  essClass : held .essClass = false
  essDevice : held .essDevice = false
  deviceOpen : live .deviceOpen = false

theorem Unregistered.after_lift (h : Unregistered held live) (ops : List (CodeOp H D)) :
    Unregistered (heldAfter held (lift ops)) (liveAfter live (lift ops)) where
  moduleText := (heldAfter_mapped_of_ne (by simp) ops).trans h.moduleText
  chrdevRegion := (heldAfter_mapped_of_ne (by simp) ops).trans h.chrdevRegion
  essClass := (heldAfter_mapped_of_ne (by simp) ops).trans h.essClass
  essDevice := (heldAfter_mapped_of_ne (by simp) ops).trans h.essDevice
  deviceOpen := (liveAfter_mapped_of_ne (by simp) ops).trans h.deviceOpen

omit [DecidableEq H] [DecidableEq D] in
theorem register_fst : (a.register opens : Bool × List (Op H D)).1 = true ↔ a.Registered := by
  unfold Answers.register Answers.Registered
  split_ifs <;> simp_all

theorem sound_register_of_not (h : Unregistered held live) (hnot : ¬a.Registered) :
    Sound demo.callback held live (a.register opens).2 ↔ ¬a.UnwindsError := by
  obtain ⟨-, hregion, hclass, hdevice, -⟩ := h
  unfold Answers.register Answers.UnwindsError
  split_ifs with halloc hnull hdnull hcdev
  · simp [Sound]
    omega
  · simp [Sound, CodeOp.Allowed, hregion, hnull]
  · cases hc : a.classCreate <;>
      simp_all [Sound, CodeOp.Allowed, CodeOp.heldAfter, ResourceEvent.holds,
        Answers.acquiredClass, Answers.classDestroy, unregisterChrdevRegion]
  · cases hc : a.classCreate <;> cases hd : a.deviceCreate <;>
      simp_all [Sound, CodeOp.Allowed, CodeOp.heldAfter, ResourceEvent.holds,
        Answers.acquiredClass, Answers.acquiredDevice, Answers.deviceDestroy,
        Answers.classDestroy, unregisterChrdevRegion]
  all_goals exact absurd ⟨by omega, hnull, hdnull, hcdev⟩ hnot

theorem after_register_of_not (live : Callback H → Bool) (opens : Bool)
    (htext : held .moduleText = true) (hnot : ¬a.Registered) :
    heldAfter held (a.register opens : Bool × List (Op H D)).2 .moduleText = true ∧
      liveAfter live (a.register opens : Bool × List (Op H D)).2 = live := by
  unfold Answers.register
  split_ifs with halloc hnull hdnull hcdev
  · exact ⟨htext, rfl⟩
  · exact ⟨by simp [heldAfter, CodeOp.heldAfter, ResourceEvent.holds, htext], rfl⟩
  · cases hc : a.classCreate <;>
      simp [heldAfter, liveAfter, CodeOp.heldAfter, CodeOp.liveAfter, ResourceEvent.holds,
        Answers.acquiredClass, Answers.classDestroy, unregisterChrdevRegion, hc, htext]
  · cases hc : a.classCreate <;> cases hd : a.deviceCreate <;>
      simp [heldAfter, liveAfter, CodeOp.heldAfter, CodeOp.liveAfter, ResourceEvent.holds,
        Answers.acquiredClass, Answers.acquiredDevice, Answers.deviceDestroy,
        Answers.classDestroy, unregisterChrdevRegion, hc, hd, htext]
  all_goals exact absurd ⟨by omega, hnull, hdnull, hcdev⟩ hnot

/-- What is registered is what the kernel gave. -/
structure RegisteredBy (a : Answers) (held : Resource D → Bool) : Prop where
  moduleText : held .moduleText = true
  chrdevRegion : held .chrdevRegion = true
  essClass : held .essClass = decide (a.classCreate = .valid)
  essDevice : held .essDevice = decide (a.deviceCreate = .valid)

omit [DecidableEq H] [DecidableEq D] in
theorem register_of (hreg : a.Registered) : (a.register opens : Bool × List (Op H D)) =
    (true, .event (.acquire .chrdevRegion) :: a.acquiredClass ++ a.acquiredDevice ++
      if a.cdevAdd = 0 ∧ opens then [CodeOp.arm Callback.deviceOpen] else []) := by
  obtain ⟨halloc, hnull, hdnull, hcdev⟩ := hreg
  rw [Answers.register, if_neg (by omega), if_neg hnull, if_neg hdnull, if_neg hcdev]

theorem sound_register_of (h : Unregistered held live) (hreg : a.Registered) :
    Sound demo.callback held live (a.register opens).2 := by
  obtain ⟨htext, hregion, hclass, hdevice, -⟩ := h
  rw [register_of hreg]
  cases hc : a.classCreate <;> cases hd : a.deviceCreate <;> split_ifs <;>
    simp [Sound, CodeOp.Allowed, CodeOp.heldAfter, ResourceEvent.holds, Answers.acquiredClass,
      Answers.acquiredDevice, hc, hd, htext, hregion, hclass, hdevice]

omit [DecidableEq H] in
theorem registeredBy_after (opens : Bool) (h : Unregistered held live) (hreg : a.Registered) :
    RegisteredBy a (heldAfter held (a.register opens : Bool × List (Op H D)).2) ∧
      ∀ d, heldAfter held (a.register opens : Bool × List (Op H D)).2 (.data d) =
        held (.data d) := by
  obtain ⟨htext, hregion, hclass, hdevice, -⟩ := h
  rw [register_of hreg]
  cases hc : a.classCreate <;> cases hd : a.deviceCreate <;> split_ifs <;>
    exact ⟨by constructor <;> simp [heldAfter, CodeOp.heldAfter, ResourceEvent.holds,
      Answers.acquiredClass, Answers.acquiredDevice, hc, hd, htext, hclass, hdevice], fun d => by
        simp [heldAfter, CodeOp.heldAfter, ResourceEvent.holds, Answers.acquiredClass,
          Answers.acquiredDevice, hc, hd]⟩

omit [DecidableEq D] in
theorem liveAfter_register (hreg : a.Registered) :
    liveAfter live (a.register opens : Bool × List (Op H D)).2 =
      if a.cdevAdd = 0 ∧ opens then Function.update live .deviceOpen true else live := by
  rw [register_of hreg]
  cases hc : a.classCreate <;> cases hd : a.deviceCreate <;> split_ifs <;>
    simp [liveAfter, CodeOp.liveAfter, Answers.acquiredClass, Answers.acquiredDevice, hc, hd]

omit [DecidableEq H] in
theorem RegisteredBy.after_lift (h : RegisteredBy a held) (ops : List (CodeOp H D)) :
    RegisteredBy a (heldAfter held (lift ops)) where
  moduleText := (heldAfter_mapped_of_ne (by simp) ops).trans h.moduleText
  chrdevRegion := (heldAfter_mapped_of_ne (by simp) ops).trans h.chrdevRegion
  essClass := (heldAfter_mapped_of_ne (by simp) ops).trans h.essClass
  essDevice := (heldAfter_mapped_of_ne (by simp) ops).trans h.essDevice

theorem sound_unregister (h : RegisteredBy a held) :
    Sound demo.callback held live a.unregister ↔ a.classCreate = .valid := by
  obtain ⟨-, hregion, hclass, hdevice⟩ := h
  unfold Answers.unregister
  cases hc : a.classCreate <;> cases hd : a.deviceCreate <;>
    simp [Sound, CodeOp.Allowed, CodeOp.heldAfter, ResourceEvent.holds, Answers.deviceDestroy,
      Answers.classDestroy, unregisterChrdevRegion, hc, hd, hregion, hclass, hdevice]

theorem after_unregister (a : Answers) (live : Callback H → Bool)
    (htext : held .moduleText = true) :
    heldAfter held (a.unregister : List (Op H D)) .moduleText = true ∧
      liveAfter live (a.unregister : List (Op H D)) = live := by
  unfold Answers.unregister
  cases hc : a.classCreate <;> cases hd : a.deviceCreate <;>
    simp [heldAfter, liveAfter, CodeOp.heldAfter, CodeOp.liveAfter, ResourceEvent.holds,
      Answers.deviceDestroy, Answers.classDestroy, unregisterChrdevRegion, hc, hd, htext]

end Checking

section Life

variable [DecidableEq H] [DecidableEq D] {demo : Demo H D} {held : Resource D → Bool}
  {live : Callback H → Bool}

omit [DecidableEq D] in
theorem quiet_lift (live : Callback H → Bool) (ops : List (CodeOp H D)) :
    (∀ c, liveAfter live (lift ops) c = false) ↔
      live .deviceOpen = false ∧ ∀ c, liveAfter (fun c => live (.demo c)) ops c = false := by
  have hopen : liveAfter live (lift ops) .deviceOpen = live .deviceOpen :=
    liveAfter_mapped_of_ne (by simp) ops
  have hdemo : ∀ c, liveAfter live (lift ops) (.demo c) =
      liveAfter (fun c => live (.demo c)) ops c :=
    congrFun (liveAfter_mapped (fun _ _ => Callback.demo.inj) ops)
  constructor
  · exact fun h => ⟨hopen ▸ h .deviceOpen, fun c => hdemo c ▸ h (.demo c)⟩
  · rintro ⟨h, hdemos⟩ (_ | c)
    · rw [hopen, h]
    · rw [hdemo, hdemos]

omit [DecidableEq H] in
theorem held_lift (held : Resource D → Bool) (ops : List (CodeOp H D)) :
    (fun d => heldAfter held (lift ops) (.data d)) = heldAfter (fun d => held (.data d)) ops :=
  heldAfter_mapped (fun _ _ => Resource.data.inj) ops

omit [DecidableEq D] in
theorem live_lift (live : Callback H → Bool) (ops : List (CodeOp H D)) :
    (fun c => liveAfter live (lift ops) (.demo c)) = liveAfter (fun c => live (.demo c)) ops :=
  liveAfter_mapped (fun _ _ => Callback.demo.inj) ops

theorem sound_unloaded (h : Unregistered held live) {a : Answers} {opens : Bool}
    (hnot : ¬a.Registered) :
    Sound demo.callback held live
        ((a.register opens).2 ++ [CodeOp.event (.release Resource.moduleText)]) ↔
      ¬a.UnwindsError ∧ ∀ c, live c = false := by
  obtain ⟨hheld, hlive⟩ := after_register_of_not live opens h.moduleText hnot
  rw [sound_append, sound_register_of_not h hnot, hlive, sound_release hheld]

theorem sound_loaded (h : Unregistered held live) {a : Answers} {opens : Bool}
    (hreg : a.Registered) :
    Sound demo.callback held live
        ((a.register opens).2 ++ (lift demo.exit ++ a.unregister) ++
          [CodeOp.event (.release Resource.moduleText)]) ↔
      Sound demo.body (fun d => held (.data d)) (fun c => live (.demo c)) demo.exit ∧
        a.classCreate = .valid ∧ (opens = true → a.cdevAdd ≠ 0) ∧
        ∀ c, liveAfter (fun c => live (.demo c)) demo.exit c = false := by
  obtain ⟨hby, hdata⟩ := registeredBy_after opens h hreg
  have hexit := hby.after_lift demo.exit
  obtain ⟨hheld, hlive⟩ := after_unregister a
    (liveAfter (liveAfter live (a.register opens).2) (lift demo.exit)) hexit.moduleText
  have hopen : (liveAfter live (a.register opens : Bool × List (Op H D)).2) .deviceOpen = false ↔
      (opens = true → a.cdevAdd ≠ 0) := by
    rw [liveAfter_register hreg]
    split_ifs with harm
    · simp [harm]
    · simp only [h.deviceOpen, true_iff]
      exact fun hopens hzero => harm ⟨hzero, hopens⟩
  have hdemo : (fun c => liveAfter live (a.register opens : Bool × List (Op H D)).2 (.demo c)) =
      fun c => live (.demo c) := by
    rw [liveAfter_register hreg]
    split_ifs
    · funext c
      exact Function.update_of_ne (by simp) ..
    · rfl
  rw [List.append_assoc, List.append_assoc, sound_append, sound_append, sound_append,
    sound_lift hby.moduleText, sound_unregister hexit, hlive, sound_release hheld, quiet_lift,
    hopen, hdemo, funext hdata]
  simp only [sound_register_of h hreg, true_and]

def inserted : Resource D → Bool
  | .moduleText => true
  | _ => false

omit [DecidableEq H] [DecidableEq D] in
theorem unregistered_inserted :
    Unregistered (inserted : Resource D → Bool) fun _ : Callback H => false :=
  ⟨rfl, rfl, rfl, rfl, rfl⟩

theorem sound_insmod (ops : List (Op H D)) :
    Sound demo.callback (fun _ => false) (fun _ => false) (.event (.acquire .moduleText) :: ops) ↔
      Sound demo.callback inserted (fun _ => false) ops := by
  have hheld : (CodeOp.event (.acquire .moduleText) : Op H D).heldAfter (fun _ => false) =
      inserted := by
    funext r
    cases r <;> simp [CodeOp.heldAfter, ResourceEvent.holds, inserted]
  rw [Sound, hheld]
  exact and_iff_right rfl

/-- Every run of a module is in order exactly if the demonstration is by itself and leaves nothing
armed when the load fails, or loads with a class of its own and nobody opens a number that
`cdev_add` has made known. -/
theorem Demo.module_lawful_iff (demo : Demo H D) (a : Answers) (opens : Bool) :
    (∀ s tr, Reaches (withCallbacks demo.callback) (.start (demo.module a opens)) s tr →
      Lawful tr) ↔ demo.Safe a opens := by
  have hinit : Unregistered (heldAfter inserted (lift demo.init : List (Op H D)))
      (liveAfter (fun _ => false) (lift demo.init : List (Op H D))) :=
    unregistered_inserted.after_lift demo.init
  rw [lawful_iff_sound, Demo.module, List.cons_append, List.cons_append, sound_insmod,
    List.append_assoc, sound_append, sound_lift (by rfl), Demo.Safe]
  by_cases hon : demo.goesOn = true
  · by_cases hreg : a.Registered
    · have hreturns : (a.register opens : Bool × List (Op H D)).1 = true := register_fst.mpr hreg
      rw [if_pos hon, if_pos hreturns, if_pos ⟨hon, hreg⟩]
      have hquiet : Quiet (demo.init ++ demo.exit) ↔ ∀ c,
          liveAfter (liveAfter (fun _ => false) demo.init) demo.exit c = false := by
        rw [Quiet, liveAfter_append]
      rw [sound_loaded hinit hreg, held_lift, live_lift, sound_append, hquiet]
      refine ⟨fun ⟨hi, he, hclass, hopens, hq⟩ => ?_, fun ⟨⟨hi, he⟩, hq, hclass, hopens⟩ => ?_⟩
      · exact ⟨⟨hi, he⟩, hq, hclass, hopens⟩
      · exact ⟨hi, he, hclass, hopens, hq⟩
    · have hreturns : ¬(a.register opens : Bool × List (Op H D)).1 = true :=
        fun h => hreg (register_fst.mp h)
      rw [if_pos hon, if_neg hreturns, List.append_nil, if_neg fun h => hreg h.2,
        sound_unloaded hinit hreg, quiet_lift]
      refine and_congr_right fun _ => ⟨fun h => ⟨h.2.2, fun _ => h.1⟩, fun h => ?_⟩
      exact ⟨h.2 hon, rfl, h.1⟩
  · rw [if_neg hon, List.nil_append, sound_release hinit.moduleText, if_neg fun h => hon h.1,
      quiet_lift]
    refine and_congr_right fun _ => ⟨fun h => ⟨h.2, fun h => absurd h hon⟩, fun h => ?_⟩
    exact ⟨rfl, h.1⟩

end Life

end LinuxOddsAndEnds.Ubuntu.CanonicalModule
