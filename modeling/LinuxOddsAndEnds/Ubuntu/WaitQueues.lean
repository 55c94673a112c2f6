import LinuxOddsAndEnds.Ubuntu.CanonicalModule

/-!
# Waiting for queued work

`wait_queues.c` in the common module: the load queues a work and sleeps until the work sets a
condition and wakes it up, or until a signal comes, which the load does not look at. Neither a
failing load nor `canonical_exit` waits for the work. So a signal lets the module go while the
work is at any of its steps, and without one the work can still be on its way out.
-/

namespace LinuxOddsAndEnds.Ubuntu.WaitQueues

open Foundation CanonicalModule

/-- The load up to the end of `wait_queues_demo`. -/
inductive DemoOp where
  | insmod
  | scheduleWork
  | waitEvent
  deriving DecidableEq

def waitQueuesDemo : List DemoOp := [.insmod, .scheduleWork, .waitEvent]

/-- The worker takes the work off its list and runs `work_queue_function`: up to `msleep`, from
there to the condition, the wake-up and the return. -/
inductive WorkOp where
  | take
  | entry
  | slept
  | setCondition
  | wakeUp
  | leave
  deriving DecidableEq

def workQueueFunction : List WorkOp := [.take, .entry, .slept, .setCondition, .wakeUp, .leave]

/-- What is left of the demonstration, of the rest of the module's life and of the work,
`wait_queue_condition`, whether the load sleeps on `wait_queue`, and whether the device number
can be opened. -/
structure State where
  demo : List DemoOp
  rest : List (Op Empty Empty)
  work : List WorkOp
  condition : Bool
  asleep : Bool
  known : Bool

inductive Action where
  | code
  | signal
  | work
  | deviceOpen
  deriving DecidableEq

def WorkOp.run (s : State) : WorkOp → State
  | .setCondition => { s with condition := true }
  | .wakeUp => { s with asleep := false }
  | .take | .entry | .slept | .leave => s

/-- Whatever runs code of the module or looks at its statics uses `moduleText`. -/
def waitQueues : Machine State Action (ResourceEvent (Resource Empty))
  | s, .code =>
    match s.demo, s.rest with
    | .insmod :: demo, _ => some ({ s with demo := demo }, [.acquire .moduleText])
    | .scheduleWork :: demo, _ =>
      some ({ s with demo := demo, work := workQueueFunction }, [.use .moduleText])
    | .waitEvent :: demo, _ =>
      if s.asleep then none
      else if s.condition then some ({ s with demo := demo }, [.use .moduleText])
      else some ({ s with asleep := true }, [.use .moduleText])
    | [], .event e :: rest => some ({ s with rest := rest }, [e])
    | [], .arm _ :: rest => some ({ s with rest := rest, known := true }, [])
    | [], .cancel _ :: rest => some ({ s with rest := rest, known := false }, [])
    | [], [] => none
  | s, .signal =>
    match s.demo with
    | .waitEvent :: demo => some ({ s with demo := demo, asleep := false }, [.use .moduleText])
    | _ => none
  | s, .work =>
    match s.work with
    | [] => none
    | op :: ops => some ({ op.run s with work := ops }, [.use .moduleText])
  | s, .deviceOpen => if s.known then some (s, [.use .moduleText]) else none

/-- What `canonical_init` does after the demonstration, `canonical_exit` if it is called, and the
end of the module. -/
def afterDemo (a : Answers) (opens : Bool) : List (Op Empty Empty) :=
  (a.register opens).2 ++
    (if (a.register opens : Bool × List (Op Empty Empty)).1 then a.unregister else []) ++
    [CodeOp.event (.release Resource.moduleText)]

def State.start (a : Answers) (opens : Bool) : State :=
  ⟨waitQueuesDemo, afterDemo a opens, [], false, false, false⟩

def unsignalled : Machine State Action (ResourceEvent (Resource Empty)) :=
  waitQueues.when fun _ action => action ≠ .signal

/-- In some run of `m` the module is gone while `left` is left of the work, which goes on with
code of the module. -/
def Outlives (m : Machine State Action (ResourceEvent (Resource Empty))) (a : Answers)
    (opens : Bool) (left : List WorkOp) : Prop :=
  ∃ s tr s', Reaches m (.start a opens) s tr ∧ s.work = left ∧ .release .moduleText ∈ tr ∧
    held .moduleText tr = false ∧ waitQueues s .work = some (s', [.use .moduleText])

section Steps

variable {s s' : State} {tr seen : List (ResourceEvent (Resource Empty))} {action : Action}
  {op : WorkOp} {ops : List WorkOp} {a : Answers} {opens : Bool} {interrupted : Prop}

theorem work_step (h : s.work = op :: ops) :
    waitQueues s .work = some ({ op.run s with work := ops }, [.use .moduleText]) := by
  simp only [waitQueues, h]

@[simp]
theorem WorkOp.run_demo (op : WorkOp) (s : State) : (op.run s).demo = s.demo := by
  cases op <;> rfl

@[simp]
theorem WorkOp.run_rest (op : WorkOp) (s : State) : (op.run s).rest = s.rest := by
  cases op <;> rfl

theorem WorkOp.run_asleep (op : WorkOp) (h : s.asleep = false) : (op.run s).asleep = false := by
  cases op <;> first | exact h | rfl

theorem WorkOp.run_condition (op : WorkOp) (s : State) :
    (op.run s).condition = true ↔ op = .setCondition ∨ s.condition = true := by
  cases op <;> simp [WorkOp.run]

/-- The work is queued once, and has only the wake-up and the return left once the condition is
set; the wait ends with the condition, if nothing interrupts it, and the module goes after it. -/
structure Inv (interrupted : Prop) (s : State) (tr : List (ResourceEvent (Resource Empty))) :
    Prop where
  demo : s.demo <:+ waitQueuesDemo
  work : s.work <:+ workQueueFunction
  early : .scheduleWork ∈ s.demo → s.work = [] ∧ s.condition = false
  late : s.condition = true → s.work <:+ [.wakeUp, .leave]
  passed : s.demo = [] → s.condition = true ∨ interrupted
  gone : s.demo ≠ [] → .release .moduleText ∉ tr

theorem inv_start (interrupted : Prop) (a : Answers) (opens : Bool) :
    Inv interrupted (.start a opens) [] where
  demo := List.suffix_rfl
  work := List.nil_suffix
  early := fun _ => ⟨rfl, rfl⟩
  late := nofun
  passed := nofun
  gone := fun _ => List.not_mem_nil

theorem Inv.stay (h : Inv interrupted s tr) (hdemo : s'.demo = s.demo) (hwork : s'.work = s.work)
    (hcondition : s'.condition = s.condition)
    (hseen : s.demo ≠ [] → .release .moduleText ∉ seen) : Inv interrupted s' (tr ++ seen) where
  demo := hdemo ▸ h.demo
  work := hwork ▸ h.work
  early := by
    rw [hdemo, hwork, hcondition]
    exact h.early
  late := by
    rw [hwork, hcondition]
    exact h.late
  passed := by
    rw [hdemo, hcondition]
    exact h.passed
  gone hmore := by
    rw [hdemo] at hmore
    rw [List.mem_append, not_or]
    exact ⟨h.gone hmore, hseen hmore⟩

theorem Inv.insmod {demo : List DemoOp} (h : Inv interrupted s tr)
    (hdemo : s.demo = .insmod :: demo) :
    Inv interrupted { s with demo := demo }
      (tr ++ [ResourceEvent.acquire Resource.moduleText]) := by
  obtain ⟨hsuffix, hwork, hearly, hlate, -, hgone⟩ := h
  rw [hdemo] at hsuffix hearly hgone
  obtain rfl : demo = [.scheduleWork, .waitEvent] := by
    simpa [waitQueuesDemo, List.suffix_cons_iff] using hsuffix
  refine ⟨(List.suffix_cons _ _).trans hsuffix, hwork, fun _ => ?_, hlate, nofun, fun _ => ?_⟩
  · exact hearly (by simp)
  · simpa using hgone (by simp)

theorem Inv.schedule {demo : List DemoOp} (h : Inv interrupted s tr)
    (hdemo : s.demo = .scheduleWork :: demo) :
    Inv interrupted { s with demo := demo, work := workQueueFunction }
      (tr ++ [ResourceEvent.use Resource.moduleText]) := by
  obtain ⟨hsuffix, -, hearly, -, -, hgone⟩ := h
  rw [hdemo] at hsuffix hearly hgone
  obtain ⟨-, hcondition⟩ := hearly List.mem_cons_self
  obtain rfl : demo = [.waitEvent] := by
    simpa [waitQueuesDemo, List.suffix_cons_iff] using hsuffix
  refine ⟨(List.suffix_cons _ _).trans hsuffix, List.suffix_rfl, by simp, ?_, nofun, fun _ => ?_⟩
  · simp [hcondition]
  · simpa using hgone (by simp)

theorem Inv.pass {demo : List DemoOp} (h : Inv interrupted s tr)
    (hdemo : s.demo = .waitEvent :: demo) (hdemo' : s'.demo = demo) (hwork : s'.work = s.work)
    (hcondition : s'.condition = s.condition) (hpass : s.condition = true ∨ interrupted) :
    Inv interrupted s' (tr ++ [ResourceEvent.use Resource.moduleText]) := by
  have hsuffix := h.demo
  rw [hdemo] at hsuffix
  obtain rfl : demo = [] := by
    simpa [waitQueuesDemo, List.suffix_cons_iff] using hsuffix
  refine ⟨by rw [hdemo']; exact List.nil_suffix, hwork ▸ h.work, by simp [hdemo'], ?_, fun _ => ?_,
    fun hmore => absurd hdemo' hmore⟩
  · rw [hwork, hcondition]
    exact h.late
  · rwa [hcondition]

theorem Inv.worked (h : Inv interrupted s tr) (hwork : s.work = op :: ops) :
    Inv interrupted { op.run s with work := ops }
      (tr ++ [ResourceEvent.use Resource.moduleText]) := by
  obtain ⟨hdemo, hsuffix, hearly, hlate, hpassed, hgone⟩ := h
  rw [hwork] at hsuffix hearly hlate
  refine ⟨?_, (List.suffix_cons op ops).trans hsuffix, fun hmem => ?_, fun hset => ?_,
    fun hdone => ?_, fun hmore => ?_⟩
  · simpa using hdemo
  · exact absurd (hearly (by simpa using hmem)).1 (by simp)
  · rcases (op.run_condition s).mp hset with rfl | hbefore
    · obtain rfl : ops = [.wakeUp, .leave] := by
        simpa [workQueueFunction, List.suffix_cons_iff] using hsuffix
      exact List.suffix_rfl
    · exact (List.suffix_cons op ops).trans (hlate hbefore)
  · exact (hpassed (by simpa using hdone)).imp_left fun hc => (op.run_condition s).mpr (Or.inr hc)
  · simpa using hgone (by simpa using hmore)

theorem Inv.step (h : Inv interrupted s tr) (hs : waitQueues s action = some (s', seen))
    (haction : action = .signal → interrupted) : Inv interrupted s' (tr ++ seen) := by
  cases action with
  | code =>
    cases hdemo : s.demo with
    | nil =>
      cases hrest : s.rest with
      | nil => simp [waitQueues, hdemo, hrest] at hs
      | cons op rest =>
        cases op <;>
          simp only [waitQueues, hdemo, hrest, Option.some.injEq, Prod.mk.injEq] at hs <;>
          obtain ⟨rfl, rfl⟩ := hs <;>
          exact h.stay hdemo.symm rfl rfl fun hmore => absurd hdemo hmore
    | cons op demo =>
      cases op with
      | insmod =>
        simp only [waitQueues, hdemo, Option.some.injEq, Prod.mk.injEq] at hs
        obtain ⟨rfl, rfl⟩ := hs
        exact h.insmod hdemo
      | scheduleWork =>
        simp only [waitQueues, hdemo, Option.some.injEq, Prod.mk.injEq] at hs
        obtain ⟨rfl, rfl⟩ := hs
        exact h.schedule hdemo
      | waitEvent =>
        simp only [waitQueues, hdemo] at hs
        split_ifs at hs with hasleep hcondition <;>
          obtain ⟨rfl, rfl⟩ := Prod.mk.inj (Option.some.inj hs)
        · exact h.pass hdemo rfl rfl rfl (Or.inl hcondition)
        · exact h.stay hdemo.symm rfl rfl (by simp)
  | signal =>
    rw [waitQueues] at hs
    split at hs
    · next demo hdemo =>
      obtain ⟨rfl, rfl⟩ := Prod.mk.inj (Option.some.inj hs)
      exact h.pass hdemo rfl rfl rfl (Or.inr (haction rfl))
    · cases hs
  | work =>
    cases hwork : s.work with
    | nil => simp [waitQueues, hwork] at hs
    | cons op ops =>
      rw [work_step hwork] at hs
      obtain ⟨rfl, rfl⟩ := Prod.mk.inj (Option.some.inj hs)
      exact h.worked hwork
  | deviceOpen =>
    rw [waitQueues] at hs
    split_ifs at hs
    obtain ⟨rfl, rfl⟩ := Prod.mk.inj (Option.some.inj hs)
    exact h.stay rfl rfl rfl (by simp)

theorem inv_of_reaches (h : Reaches waitQueues (.start a opens) s tr) : Inv True s tr :=
  h.invariant (inv_start True a opens) fun _ _ _ _ _ hI hs => hI.step hs fun _ => trivial

theorem inv_of_unsignalled (h : Reaches unsignalled (.start a opens) s tr) : Inv False s tr :=
  h.invariant (inv_start False a opens) fun _ _ _ _ _ hI hstep =>
    have hs := Machine.when_eq_some.mp hstep
    hI.step hs.2 fun hsignal => absurd hsignal (by simpa using hs.1)

end Steps

section Runs

variable {s s' : State} {tr seen : List (ResourceEvent (Resource Empty))} {action : Action}
  {op : WorkOp} {ops left : List WorkOp} {a : Answers} {opens : Bool}
  {m : Machine State Action (ResourceEvent (Resource Empty))}

theorem reaches_of_step (haction : action ≠ .signal)
    (h : waitQueues s action = some (s', seen)) : Reaches unsignalled s s' seen :=
  Reaches.single (Machine.when_eq_some.mpr ⟨decide_eq_true haction, h⟩)

theorem exists_worked (ops : List WorkOp) : ∀ {s : State}, s.work = ops ++ left →
    ∃ s' tr, Reaches unsignalled s s' tr ∧ s'.work = left ∧ s'.demo = s.demo ∧ s'.rest = s.rest ∧
      (s.asleep = false → s'.asleep = false) ∧
      (s.condition = true ∨ .setCondition ∈ ops → s'.condition = true) := by
  induction ops with
  | nil => exact fun {s} h => ⟨s, [], .start, h, rfl, rfl, id, by simp⟩
  | cons op ops ih =>
    intro s h
    have hstep := reaches_of_step (by decide) (work_step h)
    obtain ⟨s', tr, hmore, hleft, hdemo, hrest, hasleep, hcondition⟩ :=
      ih (s := { op.run s with work := ops ++ left }) rfl
    refine ⟨s', _, hstep.trans hmore, hleft, hdemo.trans (op.run_demo s),
      hrest.trans (op.run_rest s), fun hawake => hasleep (op.run_asleep hawake),
      fun hset => hcondition ?_⟩
    simp only [op.run_condition s]
    rw [List.mem_cons] at hset
    tauto

theorem exists_over (rest : List (Op Empty Empty)) : ∀ {s : State}, s.demo = [] → s.rest = rest →
    ∃ s', Reaches unsignalled s s' (rest.flatMap CodeOp.events) ∧ s'.work = s.work := by
  induction rest with
  | nil => exact fun {s} _ _ => ⟨s, .start, rfl⟩
  | cons op rest ih =>
    intro s hdemo hrest
    have hstep : ∃ s', waitQueues s .code = some (s', op.events) ∧ s'.demo = [] ∧
        s'.rest = rest ∧ s'.work = s.work := by
      cases op <;> simp only [waitQueues, hdemo, hrest] <;> exact ⟨_, rfl, rfl, rfl, rfl⟩
    obtain ⟨s₁, hs₁, hdemo₁, hrest₁, hwork₁⟩ := hstep
    obtain ⟨s', hmore, hwork⟩ := ih hdemo₁ hrest₁
    exact ⟨s', (reaches_of_step (by decide) hs₁).trans hmore, hwork.trans hwork₁⟩

theorem outlives_of_reaches (hm : ∀ {s s' : State} {tr}, Reaches unsignalled s s' tr →
      Reaches m s s' tr) (h : Reaches m (.start a opens) s tr) (hdemo : s.demo = [])
    (hrest : s.rest = afterDemo a opens) (hwork : s.work = left) (hleft : left ≠ []) :
    Outlives m a opens left := by
  obtain ⟨s', hover, hsame⟩ := exists_over _ hdemo hrest
  obtain ⟨op, ops, rfl⟩ := List.exists_cons_of_ne_nil hleft
  rw [afterDemo, List.flatMap_append] at hover
  have hreach := h.trans (hm hover)
  rw [List.flatMap_singleton, CodeOp.events, ← List.append_assoc] at hreach
  refine ⟨s', _, _, hreach, hsame.trans hwork, by simp, ?_, work_step (hsame.trans hwork)⟩
  rw [held_concat, holds_release, if_pos rfl]

theorem exists_waiting (a : Answers) (opens : Bool) (h : workQueueFunction = ops ++ left) :
    ∃ s tr, Reaches unsignalled (.start a opens) s tr ∧ s.work = left ∧ s.demo = [.waitEvent] ∧
      s.rest = afterDemo a opens ∧ s.asleep = false ∧
      (.setCondition ∈ ops → s.condition = true) := by
  have hinsmod : Reaches unsignalled (.start a opens)
      { State.start a opens with demo := [.scheduleWork, .waitEvent] }
      [.acquire .moduleText] := reaches_of_step (nofun : Action.code ≠ .signal) rfl
  have hschedule : Reaches unsignalled
      { State.start a opens with demo := [.scheduleWork, .waitEvent] }
      { State.start a opens with demo := [.waitEvent], work := workQueueFunction }
      [.use .moduleText] := reaches_of_step (nofun : Action.code ≠ .signal) rfl
  obtain ⟨s, tr, hmore, hleft, hdemo, hrest, hasleep, hcondition⟩ := exists_worked ops
    (s := { State.start a opens with demo := [.waitEvent], work := workQueueFunction }) h
  exact ⟨s, _, (hinsmod.trans hschedule).trans hmore, hleft, hdemo, hrest, hasleep rfl,
    fun hset => hcondition (Or.inr hset)⟩

/-- With a signal the module goes at any time. -/
theorem outlives_of_suffix (a : Answers) (opens : Bool) (hleft : left ≠ [])
    (h : left <:+ workQueueFunction) : Outlives waitQueues a opens left := by
  obtain ⟨ops, hops⟩ := h
  obtain ⟨s, tr, hreach, hwork, hdemo, hrest, -, -⟩ := exists_waiting a opens hops.symm
  have hsignal : waitQueues s .signal =
      some ({ s with demo := [], asleep := false }, [.use .moduleText]) := by
    simp only [waitQueues, hdemo]
  exact outlives_of_reaches Reaches.of_when (hreach.of_when.trans (Reaches.single hsignal)) rfl
    hrest hwork hleft

/-- Without one the wait may come after the condition is set. -/
theorem outlives_unsignalled_of_suffix (a : Answers) (opens : Bool) (hleft : left ≠ [])
    (h : left <:+ [.wakeUp, .leave]) : Outlives unsignalled a opens left := by
  obtain ⟨ops, hops⟩ := h
  have hsplit :
      workQueueFunction = [WorkOp.take, .entry, .slept, .setCondition] ++ ops ++ left := by
    rw [List.append_assoc, hops]
    rfl
  obtain ⟨s, tr, hreach, hwork, hdemo, hrest, hasleep, hcondition⟩ := exists_waiting a opens hsplit
  have hpass : waitQueues s .code = some ({ s with demo := [] }, [.use .moduleText]) := by
    simp only [waitQueues, hdemo, hasleep, hcondition (by simp), if_true, Bool.false_eq_true,
      if_false]
  exact outlives_of_reaches id (hreach.trans (reaches_of_step (by decide) hpass)) rfl hrest hwork
    hleft

theorem ne_nil_of_work {s s' : State} {seen : List (ResourceEvent (Resource Empty))}
    (h : waitQueues s .work = some (s', seen)) : s.work ≠ [] := by
  intro hwork
  simp [waitQueues, hwork] at h

/-- For every answer of the kernel: with a signal, the module can be gone while the work still has
any of its steps to do, all of which run code of the module; without one, exactly while it has yet
to wake up the load or to return. -/
theorem work_outlives_module_iff (a : Answers) (opens : Bool) (left : List WorkOp) :
    (Outlives waitQueues a opens left ↔ left ≠ [] ∧ left <:+ workQueueFunction) ∧
      (Outlives unsignalled a opens left ↔ left ≠ [] ∧ left <:+ [.wakeUp, .leave]) := by
  refine ⟨⟨?_, fun h => outlives_of_suffix a opens h.1 h.2⟩,
    ⟨?_, fun h => outlives_unsignalled_of_suffix a opens h.1 h.2⟩⟩
  · rintro ⟨s, tr, s', hreach, rfl, -, -, hstep⟩
    exact ⟨ne_nil_of_work hstep, (inv_of_reaches hreach).work⟩
  · rintro ⟨s, tr, s', hreach, rfl, hgone, -, hstep⟩
    have hI := inv_of_unsignalled hreach
    have hdemo : s.demo = [] := not_imp_comm.mp hI.gone (not_not_intro hgone)
    have hset : s.condition = true := (hI.passed hdemo).resolve_right id
    exact ⟨ne_nil_of_work hstep, hI.late hset⟩

end Runs

end LinuxOddsAndEnds.Ubuntu.WaitQueues
