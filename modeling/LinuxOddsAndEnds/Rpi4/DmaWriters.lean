import LinuxOddsAndEnds.Foundation.Completion
import LinuxOddsAndEnds.Rpi4.DmaMoc

/-!
# Writers that share a DMA channel

`dma_write` cut wherever it touches the channel or the completion. The device has no open
handler and `dma_write` takes no lock, so the buffers and the completion are shared by all
writers. Each of them initialises the completion before it submits, whatever the others are
waiting for. `copy_from_user` is one step, and so is the log, which stashes `rx[16]` and
restores it: what another writer could do to the buffers meanwhile is left out.
-/

namespace LinuxOddsAndEnds.Rpi4.Dma

open Foundation

/-- The next part of `dma_write`. A writer that dereferenced `NULL` is gone. -/
inductive WriterPc where
  | idle
  | prepare (c : Call)
  | initCompletion (c : Call)
  | submit (c : Call)
  | issue (c : Call)
  | wait (c : Call)
  | asleep (c : Call)
  | log (c : Call)
  | oopsed

/-- `dmaCompletion` and `waiters` are the count and the queue of `dma_completion`. A descriptor
is known by its length. -/
structure Writers (ι : Type*) where
  dev : DmaPrivateData
  dmaCompletion : ℕ
  waiters : List ι
  submitted : List ℕ
  issued : List ℕ
  writer : ι → WriterPc

inductive WriterAction (ι : Type*) where
  | write (i : ι) (c : Call)
  | step (i : ι)
  /-- The engine carries out a descriptor and calls back. -/
  | engine

inductive WriterSeen (ι : Type*) where
  | returned (i : ι) (ret : ℤ)
  | oopsed (i : ι)

variable {ι : Type*} [DecidableEq ι]

def Writers.goto (s : Writers ι) (i : ι) (pc : WriterPc) : Writers ι :=
  { s with writer := Function.update s.writer i pc }

/-- The way up to `copy_from_user`. -/
def beginWrite (s : Writers ι) (i : ι) (c : Call) : Writers ι × List (WriterSeen ι) :=
  let n := (clamped s.dev c).toNat
  let copy := copyFromUser s.dev.dataTxBuffer c.userBuf c.readable n
  let s := { s with dev := { s.dev with dataTxBuffer := copy.2 } }
  if BitVec.ofNat 32 copy.1 ≠ 0 then (s, [.returned i (-einval)]) else (s.goto i (.prepare c), [])

def writerStep (s : Writers ι) (i : ι) : Option (Writers ι × List (WriterSeen ι)) :=
  match s.writer i with
  | .idle | .asleep _ | .oopsed => none
  | .prepare c =>
    if c.descriptor then some (s.goto i (.initCompletion c), [])
    else some (s.goto i .oopsed, [.oopsed i])
  | .initCompletion c => some ({ s.goto i (.submit c) with dmaCompletion := 0, waiters := [] }, [])
  | .submit c =>
    if c.submitted then
      some ({ s.goto i (.issue c) with
        submitted := s.submitted ++ [(clamped s.dev c).toNat] }, [])
    else some (s.goto i .idle, [.returned i (-einval)])
  | .issue c =>
    some ({ s.goto i (.wait c) with submitted := [], issued := s.issued ++ s.submitted }, [])
  | .wait c =>
    if s.dmaCompletion = 0 then
      some ({ s.goto i (.asleep c) with waiters := s.waiters ++ [i] }, [])
    else some ({ s.goto i (.log c) with dmaCompletion := s.dmaCompletion - 1 }, [])
  | .log c =>
    let rx := (logReceived s.dev.dataRxBuffer).1
    some ({ s.goto i .idle with dev := { s.dev with dataRxBuffer := rx } },
      [.returned i ((clamped s.dev c).toNat : ℤ)])

def WriterPc.woken : WriterPc → WriterPc
  | .asleep c => .wait c
  | pc => pc

def dmaDoneCallback (s : Writers ι) : Writers ι :=
  match s.waiters with
  | [] => { s with dmaCompletion := s.dmaCompletion + 1 }
  | i :: rest =>
    { s.goto i (s.writer i).woken with dmaCompletion := s.dmaCompletion + 1, waiters := rest }

def engineStep (s : Writers ι) : Option (Writers ι × List (WriterSeen ι)) :=
  match s.issued with
  | [] => none
  | n :: rest =>
    let rx := memcpy s.dev.dataRxBuffer 0 s.dev.dataTxBuffer n
    some (dmaDoneCallback { s with issued := rest, dev := { s.dev with dataRxBuffer := rx } }, [])

def dmaWriters : Machine (Writers ι) (WriterAction ι) (WriterSeen ι)
  | s, .write i c => match s.writer i with | .idle => some (beginWrite s i c) | _ => none
  | s, .step i => writerStep s i
  | s, .engine => engineStep s

def probed (d : DmaPrivateData) : Writers ι := ⟨d, 0, [], [], [], fun _ => .idle⟩

def AtRest (s : Writers ι) : Prop := (∀ i, writerStep s i = none) ∧ engineStep s = none

instance [Fintype ι] (s : Writers ι) : Decidable (AtRest s) :=
  inferInstanceAs (Decidable ((∀ i, writerStep s i = none) ∧ engineStep s = none))

/-- No writer initialises the completion while a completed transfer is not yet taken or a
writer sleeps. -/
def harmless (s : Writers ι) : WriterAction ι → Bool
  | .step i =>
    match s.writer i with
    | .initCompletion _ => s.dmaCompletion == 0 && s.waiters.isEmpty
    | _ => true
  | _ => true

def WriterPc.phase : WriterPc → Phase
  | .issue _ | .wait _ => .owed
  | .asleep _ => .asleep
  | _ => .out

/-- The completion as the writers see it. -/
def Writers.completion (s : Writers ι) : Completion ι :=
  ⟨s.dmaCompletion, s.waiters, s.submitted.length + s.issued.length, fun i => (s.writer i).phase⟩

inductive CompletionStep (s : Writers ι) (a : WriterAction ι) (s' : Writers ι) : Prop
  | same (eq : s'.completion = s.completion) (ok : harmless s a = true)
  | init (eq : s'.completion = s.completion.init) (ok : harmless s a = s.completion.fresh)
  | start (i : ι) (out : s.completion.phase i = .out) (eq : s'.completion = s.completion.start i)
      (ok : harmless s a = true)
  | wait (i : ι) (owed : s.completion.phase i = .owed) (eq : s'.completion = s.completion.wait i)
      (ok : harmless s a = true)
  | complete (outstanding : s.completion.outstanding ≠ 0)
      (eq : s'.completion = s.completion.complete) (ok : harmless s a = true)

section Effects

variable {s s' : Writers ι} {i : ι} {a : WriterAction ι} {seen : List (WriterSeen ι)}

theorem phase_goto (s : Writers ι) (i : ι) (pc : WriterPc) :
    (fun j => ((s.goto i pc).writer j).phase) =
      Function.update s.completion.phase i pc.phase :=
  Function.comp_update WriterPc.phase s.writer i pc

theorem completion_goto_same {pc : WriterPc} (h : pc.phase = (s.writer i).phase) :
    (s.goto i pc).completion = s.completion := by
  have hphase := phase_goto s i pc
  rw [h] at hphase
  exact congrArg (Completion.mk _ _ _) (hphase.trans (Function.update_eq_self i _))

theorem completion_beginWrite {c : Call} (h : s.writer i = .idle) :
    (beginWrite s i c).1.completion = s.completion := by
  unfold beginWrite
  dsimp only
  split_ifs
  · rfl
  · exact completion_goto_same (by rw [h]; rfl)

theorem completion_engine (hq : Queued s.completion) (hs : engineStep s = some (s', seen)) :
    s.completion.outstanding ≠ 0 ∧ s'.completion = s.completion.complete := by
  unfold engineStep at hs
  cases hissued : s.issued with
  | nil => simp [hissued] at hs
  | cons n rest =>
    simp only [hissued] at hs
    obtain ⟨rfl, -⟩ := Prod.mk.inj (Option.some.inj hs)
    have hlength : s.completion.outstanding = s.submitted.length + rest.length + 1 := by
      simp [Writers.completion, hissued, Nat.add_assoc]
    refine ⟨by omega, ?_⟩
    unfold dmaDoneCallback Completion.complete
    rw [hlength, Nat.add_sub_cancel]
    cases hwaiters : s.waiters with
    | nil => simp [Writers.completion, hwaiters]
    | cons j others =>
      simp only [Writers.completion, hwaiters]
      have hasleep : s.completion.phase j = .asleep :=
        hq.asleep j (by simp [Writers.completion, hwaiters])
      have hwoken : (s.writer j).woken.phase = .owed := by
        cases hpc : s.writer j with
        | asleep c => rfl
        | _ => simp [Writers.completion, WriterPc.phase, hpc] at hasleep
      have hphase := phase_goto s j (s.writer j).woken
      rw [hwoken] at hphase
      exact congrArg (Completion.mk _ _ _) hphase

theorem completionStep_writer (hs : writerStep s i = some (s', seen)) :
    CompletionStep s (.step i) s' := by
  unfold writerStep at hs
  cases hpc : s.writer i <;> simp only [hpc, reduceCtorEq] at hs
  case prepare c =>
    split_ifs at hs <;> obtain ⟨rfl, -⟩ := Prod.mk.inj (Option.some.inj hs)
    · exact .same (completion_goto_same (by rw [hpc]; rfl)) (by simp [harmless, hpc])
    · exact .same (completion_goto_same (by rw [hpc]; rfl)) (by simp [harmless, hpc])
  case initCompletion c =>
    obtain ⟨rfl, -⟩ := Prod.mk.inj (Option.some.inj hs)
    have hsame : (s.goto i (.submit c)).completion = s.completion :=
      completion_goto_same (by rw [hpc]; rfl)
    exact .init (congrArg Completion.init hsame) (by simp [harmless, hpc]; rfl)
  case submit c =>
    split_ifs at hs <;> obtain ⟨rfl, -⟩ := Prod.mk.inj (Option.some.inj hs)
    · refine .start i (by simp [Writers.completion, hpc, WriterPc.phase]) ?_
        (by simp [harmless, hpc])
      have hlength : (s.submitted ++ [(clamped s.dev c).toNat]).length + s.issued.length =
          s.completion.outstanding + 1 := by
        simp only [Writers.completion, List.length_append, List.length_singleton]
        omega
      exact congr (congrArg (Completion.mk _ _) hlength) (phase_goto s i (.issue c))
    · exact .same (completion_goto_same (by rw [hpc]; rfl)) (by simp [harmless, hpc])
  case issue c =>
    obtain ⟨rfl, -⟩ := Prod.mk.inj (Option.some.inj hs)
    have hsame : (s.goto i (.wait c)).completion = s.completion :=
      completion_goto_same (by rw [hpc]; rfl)
    refine .same ?_ (by simp [harmless, hpc])
    rw [← hsame]
    simp only [Writers.completion, Writers.goto, List.length_append, List.length_nil]
    congr 1
    omega
  case wait c =>
    split_ifs at hs with hdone <;> obtain ⟨rfl, -⟩ := Prod.mk.inj (Option.some.inj hs)
    · refine .wait i (by simp [Writers.completion, hpc, WriterPc.phase]) ?_
        (by simp [harmless, hpc])
      have hzero : s.completion.done = 0 := hdone
      rw [Completion.wait, if_pos hzero]
      exact congrArg (Completion.mk _ _ _) (phase_goto s i (.asleep c))
    · refine .wait i (by simp [Writers.completion, hpc, WriterPc.phase]) ?_
        (by simp [harmless, hpc])
      have hpos : s.completion.done ≠ 0 := hdone
      rw [Completion.wait, if_neg hpos]
      exact congrArg (Completion.mk _ _ _) (phase_goto s i (.log c))
  case log c =>
    obtain ⟨rfl, -⟩ := Prod.mk.inj (Option.some.inj hs)
    have hsame : (s.goto i .idle).completion = s.completion :=
      completion_goto_same (by rw [hpc]; rfl)
    exact .same hsame (by simp [harmless, hpc])

theorem completionStep (hq : Queued s.completion) (hs : dmaWriters s a = some (s', seen)) :
    CompletionStep s a s' := by
  cases a with
  | write i c =>
    cases hpc : s.writer i <;> simp only [dmaWriters, hpc, reduceCtorEq] at hs
    have hout := Option.some.inj hs
    refine .same ?_ rfl
    rw [← completion_beginWrite (c := c) hpc, hout]
  | step i => exact completionStep_writer hs
  | engine =>
    obtain ⟨houtstanding, heq⟩ := completion_engine hq hs
    exact .complete houtstanding heq rfl

end Effects

/-- What is submitted and not yet issued has somebody who will issue it. -/
def Announced (s : Writers ι) : Prop := s.submitted ≠ [] → ∃ i c, s.writer i = .issue c

section Announcements

variable {s s' : Writers ι} {i : ι} {a : WriterAction ι} {seen : List (WriterSeen ι)}

omit [DecidableEq ι] in
theorem Announced.of_others (h : Announced s) (hi : ∀ c, s.writer i ≠ .issue c)
    (hsubmitted : s'.submitted = s.submitted) (hothers : ∀ j ≠ i, s'.writer j = s.writer j) :
    Announced s' := by
  intro hne
  obtain ⟨j, c, hj⟩ := h (hsubmitted ▸ hne)
  have hji : j ≠ i := by
    rintro rfl
    exact hi c hj
  exact ⟨j, c, (hothers j hji).trans hj⟩

theorem goto_other (pc : WriterPc) : ∀ j ≠ i, (s.goto i pc).writer j = s.writer j :=
  fun _ hj => Function.update_of_ne hj ..

theorem Announced.writer (h : Announced s) (hs : writerStep s i = some (s', seen)) :
    Announced s' := by
  unfold writerStep at hs
  cases hpc : s.writer i <;> simp only [hpc, reduceCtorEq] at hs
  case issue c =>
    obtain ⟨rfl, -⟩ := Prod.mk.inj (Option.some.inj hs)
    exact fun hne => absurd rfl hne
  case submit c =>
    split_ifs at hs <;> obtain ⟨rfl, -⟩ := Prod.mk.inj (Option.some.inj hs)
    · exact fun _ => ⟨i, c, Function.update_self ..⟩
    · exact h.of_others (by simp [hpc]) rfl (goto_other _)
  case prepare c =>
    split_ifs at hs <;> obtain ⟨rfl, -⟩ := Prod.mk.inj (Option.some.inj hs) <;>
      exact h.of_others (by simp [hpc]) rfl (goto_other _)
  case wait c =>
    split_ifs at hs <;> obtain ⟨rfl, -⟩ := Prod.mk.inj (Option.some.inj hs)
    · exact h.of_others (by simp [hpc]) rfl (goto_other (.asleep c))
    · exact h.of_others (by simp [hpc]) rfl (goto_other (.log c))
  case initCompletion c =>
    obtain ⟨rfl, -⟩ := Prod.mk.inj (Option.some.inj hs)
    exact h.of_others (by simp [hpc]) rfl (goto_other (.submit c))
  case log c =>
    obtain ⟨rfl, -⟩ := Prod.mk.inj (Option.some.inj hs)
    exact h.of_others (by simp [hpc]) rfl (goto_other .idle)

theorem Announced.beginWrite {c : Call} (h : Announced s) (hpc : s.writer i = .idle) :
    Announced (beginWrite s i c).1 := by
  unfold Dma.beginWrite
  dsimp only
  split_ifs
  · exact h
  · exact h.of_others (by simp [hpc]) rfl (goto_other (.prepare c))

theorem Announced.engine (h : Announced s) (hs : engineStep s = some (s', seen)) :
    Announced s' := by
  unfold engineStep at hs
  cases hissued : s.issued with
  | nil => simp [hissued] at hs
  | cons n rest =>
    simp only [hissued] at hs
    obtain ⟨rfl, -⟩ := Prod.mk.inj (Option.some.inj hs)
    unfold dmaDoneCallback
    cases hwaiters : s.waiters with
    | nil => exact h
    | cons j others =>
      intro hne
      obtain ⟨k, c, hk⟩ := h hne
      refine ⟨k, c, ?_⟩
      by_cases hkj : k = j
      · rw [← hkj]
        simp [Writers.goto, hk, WriterPc.woken]
      · exact (Function.update_of_ne hkj ..).trans hk

theorem announced_step (h : Announced s) (hs : dmaWriters s a = some (s', seen)) :
    Announced s' := by
  cases a with
  | write i c =>
    cases hpc : s.writer i <;> simp only [dmaWriters, hpc, reduceCtorEq] at hs
    have hout := Option.some.inj hs
    have hbegun := h.beginWrite (c := c) hpc
    rwa [hout] at hbegun
  | step i => exact h.writer hs
  | engine => exact h.engine hs

end Announcements

section Rest

variable {s s' : Writers ι} {a : WriterAction ι} {seen : List (WriterSeen ι)}

theorem queued_step (hq : Queued s.completion) (hs : dmaWriters s a = some (s', seen)) :
    Queued s'.completion := by
  cases completionStep hq hs with
  | same eq => rwa [eq]
  | init eq =>
    rw [eq]
    exact queued_init _
  | start i out eq =>
    rw [eq]
    exact hq.start (by simp [out])
  | wait i owed eq =>
    rw [eq]
    exact hq.wait (by simp [owed])
  | complete _ eq =>
    rw [eq]
    exact hq.complete

theorem AtRest.idle (h : AtRest s) (ha : Announced s) : s.completion.Idle := by
  obtain ⟨hwriters, hengine⟩ := h
  have hissue : ∀ i c, s.writer i ≠ .issue c := fun i c hpc => by
    have hstuck := hwriters i
    simp [writerStep, hpc] at hstuck
  have hsubmitted : s.submitted = [] := by
    by_contra hne
    obtain ⟨i, c, hpc⟩ := ha hne
    exact hissue i c hpc
  have hissued : s.issued = [] := by
    cases hlist : s.issued with
    | nil => rfl
    | cons n rest => simp [engineStep, hlist] at hengine
  refine ⟨by simp [Writers.completion, hsubmitted, hissued], fun i howed => ?_⟩
  cases hpc : s.writer i with
  | issue c => exact hissue i c hpc
  | wait c =>
    have hstuck := hwriters i
    rw [writerStep, hpc] at hstuck
    dsimp only at hstuck
    split_ifs at hstuck
  | _ => simp [Writers.completion, WriterPc.phase, hpc] at howed

theorem AtRest.through (h : AtRest s) {i : ι} (hout : s.completion.phase i = .out) :
    s.writer i = .idle ∨ s.writer i = .oopsed := by
  have hstuck := h.1 i
  rw [writerStep] at hstuck
  cases hpc : s.writer i with
  | idle => exact Or.inl rfl
  | oopsed => exact Or.inr rfl
  | asleep c | wait c | issue c => simp [Writers.completion, WriterPc.phase, hpc] at hout
  | initCompletion c | log c => simp [hpc] at hstuck
  | prepare c =>
    simp only [hpc] at hstuck
    split_ifs at hstuck
  | submit c =>
    simp only [hpc] at hstuck
    split_ifs at hstuck

variable [Fintype ι]

theorem balanced_step (h : Balanced s.completion) (hq : Queued s.completion)
    (hok : harmless s a = true) (hs : dmaWriters s a = some (s', seen)) :
    Balanced s'.completion := by
  cases completionStep hq hs with
  | same eq => rwa [eq]
  | init eq ok =>
    rw [eq]
    exact h.init (ok.symm.trans hok)
  | start i out eq =>
    rw [eq]
    exact h.start out
  | wait i owed eq =>
    rw [eq]
    exact h.wait owed
  | complete houtstanding eq =>
    rw [eq]
    exact h.complete hq houtstanding

theorem short_step (h : Short s.completion) (hq : Queued s.completion)
    (hs : dmaWriters s a = some (s', seen)) : Short s'.completion := by
  cases completionStep hq hs with
  | same eq => rwa [eq]
  | init eq =>
    rw [eq]
    exact h.init
  | start i out eq =>
    rw [eq]
    exact h.start out
  | wait i owed eq =>
    rw [eq]
    exact h.wait owed
  | complete houtstanding eq =>
    rw [eq]
    exact h.complete hq houtstanding

theorem short_of_harmful (h : Balanced s.completion) (hq : Queued s.completion)
    (hharm : harmless s a = false) (hs : dmaWriters s a = some (s', seen)) :
    Short s'.completion := by
  cases completionStep hq hs with
  | init eq ok =>
    rw [eq]
    exact h.short_init hq (ok.symm.trans hharm)
  | same _ ok | start _ _ _ ok | wait _ _ _ ok | complete _ _ ok =>
    rw [ok] at hharm
    cases hharm

omit [DecidableEq ι] [Fintype ι] in
theorem queued_probed (d : DmaPrivateData) : Queued (probed d : Writers ι).completion :=
  ⟨List.nodup_nil, by simp [Writers.completion, probed]⟩

omit [DecidableEq ι] in
theorem balanced_probed (d : DmaPrivateData) : Balanced (probed d : Writers ι).completion where
  count := by
    simp [Completion.missing, Writers.completion, probed, tally, WriterPc.phase, Phase.needs]
  known := by simp [Forgotten, Writers.completion, probed, WriterPc.phase]
  awake := by simp [Writers.completion, probed]

/-- No completion has been lost. -/
structure Sound (s : Writers ι) : Prop where
  queued : Queued s.completion
  balanced : Balanced s.completion
  announced : Announced s

/-- A completion has been lost. -/
structure Broken (s : Writers ι) : Prop where
  queued : Queued s.completion
  short : Short s.completion

/-- Once nobody can go on, every call has returned (or died of a missing descriptor) if and
only if no writer initialised the completion while a completed transfer was not yet taken or
another writer slept. -/
theorem writers_return_iff (d : DmaPrivateData) {as : List (WriterAction ι)}
    {tr : List (WriterSeen ι)} (hrun : exec dmaWriters (probed d) as = some (s, tr))
    (hrest : AtRest s) : (∀ i, s.writer i = .idle ∨ s.writer i = .oopsed) ↔
      (exec (dmaWriters.when harmless) (probed d) as).isSome = true := by
  have hout_iff : (∀ i, s.completion.phase i = .out) ↔
      ∀ i, s.writer i = .idle ∨ s.writer i = .oopsed := by
    refine forall_congr' fun i => ⟨hrest.through, fun hi => ?_⟩
    rcases hi with hi | hi <;> simp [Writers.completion, WriterPc.phase, hi]
  have hkeep : ∀ s a s' (seen : List (WriterSeen ι)), Sound s → harmless s a = true →
      dmaWriters s a = some (s', seen) → Sound s' := fun s a s' seen h hok hs =>
    ⟨queued_step h.queued hs, balanced_step h.balanced h.queued hok hs,
      announced_step h.announced hs⟩
  have hspoil : ∀ s a s' (seen : List (WriterSeen ι)), Sound s → harmless s a = false →
      dmaWriters s a = some (s', seen) → Broken s' := fun s a s' seen h hharm hs =>
    ⟨queued_step h.queued hs, short_of_harmful h.balanced h.queued hharm hs⟩
  have hstay : ∀ s a s' (seen : List (WriterSeen ι)), Broken s →
      dmaWriters s a = some (s', seen) → Broken s' := fun s a s' seen h hs =>
    ⟨queued_step h.queued hs, short_step h.short h.queued hs⟩
  have hcases := (exec_when_cases hkeep hspoil hstay as (probed d) hrun).2
    ⟨queued_probed d, balanced_probed d, fun hne => absurd rfl hne⟩
  rw [← hout_iff]
  rcases hcases with ⟨hsome, hsound⟩ | ⟨hnone, hbroken⟩
  · exact iff_of_true (hsound.balanced.all_out (hrest.idle hsound.announced)) hsome
  · rw [hnone]
    exact iff_of_false hbroken.short.not_all_out Bool.false_ne_true

end Rest

/-- Both writers submit before the engine has completed anything. -/
def overlapping : List (WriterAction (Fin 2)) :=
  [WriterAction.write 0 (smoothCall 4), .write 1 (smoothCall 8)] ++
    List.replicate 4 (WriterAction.step 0) ++ List.replicate 4 (WriterAction.step 1) ++
      [WriterAction.step 0, .engine, .engine, .step 1, .step 1, .step 0, .step 0]

theorem writers_return_overlapping : ∃ s tr,
    exec dmaWriters (probed (dmaProbe (some 4096))) overlapping = some (s, tr) ∧
      ∀ i, s.writer i = .idle ∨ s.writer i = .oopsed := by
  obtain ⟨s, tr, hrun, hrest⟩ : ∃ s tr,
      exec dmaWriters (probed (dmaProbe (some 4096))) overlapping = some (s, tr) ∧ AtRest s := by
    decide +kernel
  exact ⟨s, tr, hrun, (writers_return_iff _ hrun hrest).mpr (by decide +kernel)⟩

/-- The second writer initialises the completion while the first one sleeps, who then sleeps
for good. -/
theorem writer_forgotten : ∃ s tr,
    exec dmaWriters (probed (dmaProbe (some 4096)) : Writers (Fin 2))
      ([WriterAction.write 0 (smoothCall 4), .write 1 (smoothCall 8)] ++
        List.replicate 5 (WriterAction.step 0) ++ List.replicate 5 (WriterAction.step 1) ++
          [WriterAction.engine, .engine, .step 1, .step 1]) = some (s, tr) ∧
      AtRest s ∧ s.completion.phase 0 = .asleep := by
  decide +kernel

/-- The steps that are left of a call until it returns or sleeps. -/
def WriterPc.stepsLeft : WriterPc → ℕ
  | .idle | .oopsed => 0
  | .log _ | .asleep _ => 1
  | .wait _ => 2
  | .issue _ => 3
  | .submit _ => 6
  | .initCompletion _ => 7
  | .prepare _ => 8

/-- A transfer pays for itself and for the writer that it wakes. -/
def Writers.stepsLeft [Fintype ι] (s : Writers ι) : ℕ :=
  ∑ i, (s.writer i).stepsLeft + 2 * (s.submitted.length + s.issued.length)

def isNew : WriterAction ι → Bool
  | .write _ _ => true
  | _ => false

section Progress

variable [Fintype ι] {s s' : Writers ι} {i : ι} {a : WriterAction ι} {seen : List (WriterSeen ι)}

/-- One writer has moved, and what it did to the queues costs less than it saved. -/
theorem stepsLeft_lt {pc : WriterPc} (hwriter : s'.writer = Function.update s.writer i pc)
    (hcost : pc.stepsLeft + 2 * (s'.submitted.length + s'.issued.length) <
      (s.writer i).stepsLeft + 2 * (s.submitted.length + s.issued.length)) :
    s'.stepsLeft < s.stepsLeft := by
  have hsum := sum_update WriterPc.stepsLeft s.writer i pc
  rw [Writers.stepsLeft, Writers.stepsLeft, hwriter]
  omega

theorem stepsLeft_writer (hs : writerStep s i = some (s', seen)) : s'.stepsLeft < s.stepsLeft := by
  unfold writerStep at hs
  cases hpc : s.writer i <;> simp only [hpc, reduceCtorEq] at hs
  case prepare c =>
    split_ifs at hs <;> obtain ⟨rfl, -⟩ := Prod.mk.inj (Option.some.inj hs) <;>
      exact stepsLeft_lt rfl (by simp [hpc, WriterPc.stepsLeft, Writers.goto])
  case submit c =>
    split_ifs at hs <;> obtain ⟨rfl, -⟩ := Prod.mk.inj (Option.some.inj hs)
    · refine stepsLeft_lt rfl ?_
      simp only [hpc, WriterPc.stepsLeft, List.length_append, List.length_singleton,
        Writers.goto]
      omega
    · exact stepsLeft_lt rfl (by simp [hpc, WriterPc.stepsLeft, Writers.goto])
  case wait c =>
    split_ifs at hs <;> obtain ⟨rfl, -⟩ := Prod.mk.inj (Option.some.inj hs) <;>
      exact stepsLeft_lt rfl (by simp [hpc, WriterPc.stepsLeft, Writers.goto])
  case issue c =>
    obtain ⟨rfl, -⟩ := Prod.mk.inj (Option.some.inj hs)
    refine stepsLeft_lt rfl ?_
    simp only [hpc, WriterPc.stepsLeft, List.length_append, List.length_nil]
    omega
  case initCompletion c | log c =>
    obtain ⟨rfl, -⟩ := Prod.mk.inj (Option.some.inj hs)
    exact stepsLeft_lt rfl (by simp [hpc, WriterPc.stepsLeft, Writers.goto])

theorem stepsLeft_engine (hs : engineStep s = some (s', seen)) : s'.stepsLeft < s.stepsLeft := by
  unfold engineStep at hs
  cases hissued : s.issued with
  | nil => simp [hissued] at hs
  | cons n rest =>
    simp only [hissued] at hs
    obtain ⟨rfl, -⟩ := Prod.mk.inj (Option.some.inj hs)
    unfold dmaDoneCallback
    cases hwaiters : s.waiters with
    | nil =>
      simp only [Writers.stepsLeft, hissued, List.length_cons]
      omega
    | cons j others =>
      have hwoken : (s.writer j).woken.stepsLeft ≤ (s.writer j).stepsLeft + 1 := by
        cases s.writer j <;> simp [WriterPc.woken, WriterPc.stepsLeft]
      refine stepsLeft_lt (i := j) rfl ?_
      simp only [Writers.goto, hissued, List.length_cons]
      omega

theorem writers_settle : Decreases (dmaWriters.when fun _ (a : WriterAction ι) => !isNew a)
    (fun _ => True) Writers.stepsLeft := by
  intro s a s' seen _ hs
  obtain ⟨hnew, hs⟩ := Machine.when_eq_some.mp hs
  refine ⟨trivial, ?_⟩
  cases a with
  | write i c => cases hnew
  | step i => exact stepsLeft_writer hs
  | engine => exact stepsLeft_engine hs

theorem writers_come_to_rest (s : Writers ι) : ∃ s' tr,
    Reaches (dmaWriters.when fun _ (a : WriterAction ι) => !isNew a) s s' tr ∧ AtRest s' := by
  obtain ⟨s', tr, hreach, hstop⟩ := writers_settle.exists_stop s trivial
  have hwriters : ∀ i, dmaWriters s' (.step i) = none := fun i => by
    simpa [Machine.when, isNew] using hstop (.step i)
  have hengine : dmaWriters s' .engine = none := by
    simpa [Machine.when, isNew] using hstop .engine
  exact ⟨s', tr, hreach, hwriters, hengine⟩

end Progress

end LinuxOddsAndEnds.Rpi4.Dma
