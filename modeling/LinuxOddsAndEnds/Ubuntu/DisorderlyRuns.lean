import LinuxOddsAndEnds.Ubuntu.NodeLifecycle

/-!
# Runs that leave the order

After an orderly run every step that `orderly` refuses can be continued to a list
removal of a node that is not listed, or to an access to a node that has been freed.
-/

namespace LinuxOddsAndEnds.Ubuntu.WorkQueues

open Foundation

variable {numCores : ℕ} {s s' : Module} {tr seen : List Seen} {i : ℕ}

theorem not_judged_of_access {pre rest : List Seen} (hf : .freed i ∈ pre)
    (ha : .accessed i ∈ rest) : ¬Judged nodeOk (pre ++ rest) := by
  obtain ⟨before, later, rfl⟩ := List.append_of_mem ha
  intro hj
  rw [← List.append_assoc] at hj
  have hok : .freed i ∉ pre ++ before := (judged_append.mp hj).2.1
  exact hok (List.mem_append_left _ hf)

theorem reaches_callback {t : Module} (hs : doWorkDelayed i s = some (t, seen)) :
    Reaches (workQueues numCores) s t seen := by
  have hstep : workQueues numCores s (.doWorkDelayed i) = some (t, seen) := hs
  exact Reaches.single hstep

theorem reaches_exit {t : Module} (hs : exitStep s = some (t, seen)) :
    Reaches (workQueues numCores) s t seen := by
  have hstep : workQueues numCores s .exit = some (t, seen) := hs
  exact Reaches.single hstep

def SameExit (s t : Module) : Prop :=
  t.exitPc = s.exitPc ∧ t.safeIterPos = s.safeIterPos ∧ t.safeIterTemp = s.safeIterTemp

/-- The callback can be run to its `kfree` while the exit loop waits. -/
def CanFree (numCores : ℕ) (s : Module) (i : ℕ) : Prop :=
  ∃ t rest, Reaches (workQueues numCores) s t rest ∧ .freed i ∈ rest ∧ SameExit s t

theorem CanFree.before {t : Module} (h : CanFree numCores t i)
    (hs : doWorkDelayed i s = some (t, seen)) (hsame : SameExit s t) : CanFree numCores s i := by
  obtain ⟨u, rest, hu, hf, hpc, hpos, htemp⟩ := h
  obtain ⟨hpc', hpos', htemp'⟩ := hsame
  exact ⟨u, _, (reaches_callback hs).trans hu, List.mem_append_right _ hf,
    hpc.trans hpc', hpos.trans hpos', htemp.trans htemp'⟩

theorem canFree_of_free (hw : s.work i = .free) : CanFree numCores s i := by
  have hstep : doWorkDelayed i s = some (s.setWork i .idle, [.freed i]) := by
    simp only [doWorkDelayed, hw]
  exact ⟨_, _, reaches_callback hstep, by simp, rfl, rfl, rfl⟩

theorem canFree_of_del (hw : s.work i = .del) : CanFree numCores s i := by
  have hnext : CanFree numCores ((s.listDel i).setWork i .free) i := canFree_of_free (by simp)
  have hstep : doWorkDelayed i s =
      some ((s.listDel i).setWork i .free, listDelSeen s.workList i) := by
    simp only [doWorkDelayed, hw]
  exact hnext.before hstep ⟨rfl, rfl, rfl⟩

theorem canFree_of_print (hw : s.work i = .print) : CanFree numCores s i := by
  have hnext : CanFree numCores (s.setWork i .del) i := canFree_of_del (by simp)
  have hstep : doWorkDelayed i s = some (s.setWork i .del, [.accessed i]) := by
    simp only [doWorkDelayed, hw]
  exact hnext.before hstep ⟨rfl, rfl, rfl⟩

theorem canFree_of_running (hrun : (s.work i).running = true) : CanFree numCores s i := by
  cases hw : s.work i with
  | idle => simp [hw, Work.running] at hrun
  | pending => simp [hw, Work.running] at hrun
  | print => exact canFree_of_print hw
  | del => exact canFree_of_del hw
  | free => exact canFree_of_free hw

/-- The exit loop can be run to an access to the node. -/
def CanAccess (numCores : ℕ) (s : Module) (i : ℕ) : Prop :=
  ∃ t rest, Reaches (workQueues numCores) s t rest ∧ .accessed i ∈ rest

theorem canAccess_before {t : Module} (hs : exitStep s = some (t, seen))
    (h : CanAccess numCores t i) : CanAccess numCores s i := by
  obtain ⟨u, rest, hu, ha⟩ := h
  exact ⟨u, _, (reaches_exit hs).trans hu, List.mem_append_right _ ha⟩

theorem canAccess_of_step {t : Module} (hs : exitStep s = some (t, seen))
    (ha : .accessed i ∈ seen) : CanAccess numCores s i :=
  ⟨t, seen, reaches_exit hs, ha⟩

theorem canAccess_pos (hpc : s.exitPc = .cancel) (hpos : s.safeIterPos = .node i) :
    CanAccess numCores s i := by
  have hstep : exitStep s = some ((s.setWork i (if s.work i = .pending then .idle else
      s.work i)).setExit .del, [.accessed i]) := by
    simp only [exitStep, hpc, hpos]
  exact canAccess_of_step hstep (by simp)

theorem canAccess_advance (hpc : s.exitPc = .advance) (htemp : s.safeIterTemp = .node i) :
    CanAccess numCores s i := by
  have hstep : exitStep s = some (s.pointTo s.safeIterTemp,
      s.safeIterTemp.nodes.map .accessed) := by
    simp only [exitStep, hpc]
  exact canAccess_of_step hstep (by simp [htemp, Ptr.nodes])

section Cursor

variable {p : ℕ}

theorem canAccess_free (hpc : s.exitPc = .free) (hpos : s.safeIterPos = .node p)
    (htemp : s.safeIterTemp = .node i) : CanAccess numCores s i := by
  have hstep : exitStep s = some (s.setExit .advance, [.accessed p, .freed p]) := by
    simp only [exitStep, hpc, hpos]
  exact canAccess_before hstep (canAccess_advance rfl htemp)

theorem canAccess_del (hpc : s.exitPc = .del) (hpos : s.safeIterPos = .node p)
    (htemp : s.safeIterTemp = .node i) : CanAccess numCores s i := by
  have hstep : exitStep s = some ((s.listDel p).setExit .free, listDelSeen s.workList p) := by
    simp only [exitStep, hpc, hpos]
  exact canAccess_before hstep (canAccess_free rfl hpos htemp)

theorem canAccess_cancel (hpc : s.exitPc = .cancel) (hpos : s.safeIterPos = .node p)
    (htemp : s.safeIterTemp = .node i) : CanAccess numCores s i := by
  have hstep : exitStep s = some ((s.setWork p (if s.work p = .pending then .idle else
      s.work p)).setExit .del, [.accessed p]) := by
    simp only [exitStep, hpc, hpos]
  exact canAccess_before hstep (canAccess_del rfl hpos htemp)

end Cursor

theorem unsafe_of_both {pre : List Seen} (hfree : CanFree numCores s i)
    (haccess : ∀ t, SameExit s t → CanAccess numCores t i) :
    ∃ t rest, Reaches (workQueues numCores) s t rest ∧ ¬Judged nodeOk (pre ++ rest) := by
  obtain ⟨t, rest, ht, hf, hsame⟩ := hfree
  obtain ⟨u, later, hu, ha⟩ := haccess t hsame
  refine ⟨u, rest ++ later, ht.trans hu, ?_⟩
  rw [← List.append_assoc]
  exact not_judged_of_access (List.mem_append_right _ hf) ha

theorem remove_unlisted_unsafe (h : Recorded s tr) (hi : i ∉ s.workList) :
    ¬Judged nodeOk (tr ++ listDelSeen s.workList i) := by
  intro hj
  rw [listDelSeen, ← List.append_assoc] at hj
  obtain ⟨hlisted, hkept⟩ : nodeOk _ (.removed i) := (judged_append.mp hj).2.1
  exact hi ((h.onList i).mpr ⟨by simpa using hlisted, by simpa using hkept⟩)

theorem canAccess_of_pointed (h : ExitInv s tr) (hpointed : s.pointed i = true)
    (hidle : s.work i ≠ .idle) (hf : .freed i ∉ tr) {t : Module} (hsame : SameExit s t) :
    CanAccess numCores t i := by
  obtain ⟨hpc', hpos', htemp'⟩ := hsame
  simp only [Module.pointed, Bool.and_eq_true, bne_iff_ne, ne_eq, Bool.or_eq_true,
    beq_iff_eq] at hpointed
  obtain ⟨⟨hstart, hdone⟩, hptr⟩ := hpointed
  cases hpc : s.exitPc <;> simp only [ExitInv, hpc] at h
  case notStarted => exact absurd hpc hstart
  case done => exact absurd hpc hdone
  case cancel =>
    obtain ⟨p, rest, hpos, -, -⟩ := h
    rcases hptr with hi | hi
    · exact canAccess_pos (hpc'.trans hpc) (hpos'.trans hi)
    · exact canAccess_cancel (hpc'.trans hpc) (hpos'.trans hpos) (htemp'.trans hi)
  case del =>
    obtain ⟨p, rest, hpos, -, -, hwork⟩ := h
    rcases hptr with hi | hi
    · obtain rfl : p = i := by simpa [hpos] using hi
      exact absurd hwork hidle
    · exact canAccess_del (hpc'.trans hpc) (hpos'.trans hpos) (htemp'.trans hi)
  case free =>
    obtain ⟨p, hpos, -, hwork, -, -⟩ := h
    rcases hptr with hi | hi
    · obtain rfl : p = i := by simpa [hpos] using hi
      exact absurd hwork hidle
    · exact canAccess_free (hpc'.trans hpc) (hpos'.trans hpos) (htemp'.trans hi)
  case advance =>
    obtain ⟨-, p, hpos, hfreed⟩ := h
    rcases hptr with hi | hi
    · obtain rfl : p = i := by simpa [hpos] using hi
      exact absurd hfreed hf
    · exact canAccess_advance (hpc'.trans hpc) (htemp'.trans hi)

/-- Where the exit loop turns to a node whose callback runs. -/
theorem pointTo_unsafe {pre : List Seen} (h : s.undisturbed (firstPtr s.workList) = false) :
    ∃ t rest, Reaches (workQueues numCores) (s.pointTo (firstPtr s.workList)) t rest ∧
      ¬Judged nodeOk (pre ++ rest) := by
  obtain ⟨i, hmem, hrun⟩ : ∃ i, i ∈ (firstPtr s.workList).nodes ++
      (nextPtr s.workList (firstPtr s.workList)).nodes ∧ (s.work i).running = true := by
    obtain ⟨i, hmem, hrun⟩ := List.all_eq_false.mp h
    exact ⟨i, hmem, by simpa using hrun⟩
  cases hl : s.workList with
  | nil => simp [hl, firstPtr, nextPtr, Ptr.nodes] at hmem
  | cons p rest =>
    rw [hl] at hmem
    refine unsafe_of_both (i := i) (canFree_of_running hrun) ?_
    rintro t ⟨hpc, hpos, htemp⟩
    have hcancel : t.exitPc = .cancel := hpc
    rcases List.mem_append.mp hmem with hi | hi
    · exact canAccess_pos hcancel (hpos.trans (mem_nodes.mp hi))
    · have hnext : t.safeIterTemp = nextPtr (p :: rest) (firstPtr (p :: rest)) := by
        rw [htemp, Module.pointTo, hl]
      exact canAccess_cancel (p := p) hcancel hpos (hnext.trans (mem_nodes.mp hi))

theorem disorderly_unsafe {a : Action}
    (h : Reaches ((workQueues numCores).when orderly) loaded s tr) (hbad : orderly s a = false)
    (hs : workQueues numCores s a = some (s', seen)) : ∃ t rest,
      Reaches (workQueues numCores) s' t rest ∧ ¬Judged nodeOk (tr ++ seen ++ rest) := by
  have hlife := lifecycle_of_reaches h
  cases a with
  | init => cases hbad
  | doWorkDelayed i =>
    obtain ⟨hw, hi⟩ : s.work i = .del ∧ i ∉ s.workList := by simpa [orderly] using hbad
    simp only [workQueues, WorkQueues.doWorkDelayed, hw, Option.some.injEq, Prod.mk.injEq] at hs
    obtain ⟨rfl, rfl⟩ := hs
    refine ⟨_, [], .start, ?_⟩
    rw [List.append_nil]
    exact remove_unlisted_unsafe hlife.recorded hi
  | startWork i =>
    simp only [workQueues, WorkQueues.startWork] at hs
    split_ifs at hs with hpending
    obtain ⟨rfl, rfl⟩ := by simpa using hs
    rw [List.append_nil]
    have hpointed : s.pointed i = true := by simpa [orderly] using hbad
    have hstarted : s.exitPc ≠ .notStarted := by
      intro hpc
      rw [pointed_of_notStarted hpc] at hpointed
      cases hpointed
    have hinv := hlife.work i
    rw [WorkInv, hpending] at hinv
    have hi := hinv.mem (hlife.initDone hstarted)
    have hidle : s.work i ≠ .idle := by simp [hpending]
    refine unsafe_of_both (i := i) (canFree_of_print (by simp)) ?_
    intro t hsame
    exact canAccess_of_pointed hlife.exit hpointed hidle (hlife.recorded.alive hi) hsame
  | exit =>
    cases hpc : s.exitPc <;> simp only [orderly, hpc, reduceCtorEq] at hbad
    case notStarted =>
      simp only [workQueues, WorkQueues.exitStep, hpc] at hs
      split_ifs at hs
      obtain ⟨rfl, rfl⟩ := by simpa using hs
      exact pointTo_unsafe hbad
    case advance =>
      obtain ⟨hexit, -⟩ := by simpa only [ExitInv, hpc] using hlife.exit
      simp only [workQueues, WorkQueues.exitStep, hpc] at hs
      obtain ⟨rfl, rfl⟩ := by simpa using hs
      rw [hexit] at hbad ⊢
      exact pointTo_unsafe hbad

end LinuxOddsAndEnds.Ubuntu.WorkQueues
