import LinuxOddsAndEnds.Rpi4.DmaMappings
import LinuxOddsAndEnds.Rpi4.DmaWriters

/-!
# Writers one at a time

Where no call begins while another is under way, the writers of a shared channel answer what
`dma_write` answers when the same calls run whole in the order in which they began: the
completion of a call is always its own.
-/

namespace LinuxOddsAndEnds.Rpi4.Dma

open Foundation

variable {ι : Type*}

def WriterPc.through : WriterPc → Bool
  | .idle | .oopsed => true
  | _ => false

/-- A call begins only when no other one is under way. -/
def alone [Fintype ι] (s : Writers ι) : WriterAction ι → Bool
  | .write _ _ => ∀ j, (s.writer j).through = true
  | _ => true

def WriterSeen.answer : WriterSeen ι → ι × Option ℤ
  | .returned i ret => (i, some ret)
  | .oopsed i => (i, none)

def begun (as : List (WriterAction ι)) : List (ι × Call) :=
  as.filterMap fun
    | .write i c => some (i, c)
    | _ => none

/-- The transmit buffer of a call that has copied, and the receive buffer after the transfer. -/
def sentTx (d : DmaPrivateData) (c : Call) : Mem :=
  memcpy d.dataTxBuffer 0 c.userBuf (echoLength d c)

def sentRx (d : DmaPrivateData) (c : Call) : Mem :=
  memcpy d.dataRxBuffer 0 (sentTx d c) (echoLength d c)

/-- The parts of the only call under way, which found the device as `d`: where the writer is,
the completion, the channel and the receive buffer. -/
inductive Stage (d : DmaPrivateData) (i : ι) (c : Call) :
    WriterPc → ℕ → List ι → List ℕ → List ℕ → Mem → Prop
  | prepare (done : ℕ) (waiters : List ι) :
      Stage d i c (.prepare c) done waiters [] [] d.dataRxBuffer
  | initCompletion (desc : c.descriptor = true) (done : ℕ) (waiters : List ι) :
      Stage d i c (.initCompletion c) done waiters [] [] d.dataRxBuffer
  | submit (desc : c.descriptor = true) : Stage d i c (.submit c) 0 [] [] [] d.dataRxBuffer
  | issue (desc : c.descriptor = true) (sub : c.submitted = true) :
      Stage d i c (.issue c) 0 [] [echoLength d c] [] d.dataRxBuffer
  | wait (desc : c.descriptor = true) (sub : c.submitted = true) :
      Stage d i c (.wait c) 0 [] [] [echoLength d c] d.dataRxBuffer
  | asleep (desc : c.descriptor = true) (sub : c.submitted = true) :
      Stage d i c (.asleep c) 0 [i] [] [echoLength d c] d.dataRxBuffer
  | completed (desc : c.descriptor = true) (sub : c.submitted = true) :
      Stage d i c (.wait c) 1 [] [] [] (sentRx d c)
  | log (desc : c.descriptor = true) (sub : c.submitted = true) :
      Stage d i c (.log c) 0 [] [] [] (sentRx d c)

structure Between (s : Writers ι) (d : DmaPrivateData) : Prop where
  dev : s.dev = d
  submitted : s.submitted = []
  issued : s.issued = []
  through : ∀ j, (s.writer j).through = true

structure InCall (s : Writers ι) (d : DmaPrivateData) (i : ι) (c : Call) : Prop where
  readable : echoLength d c ≤ c.readable
  tx : s.dev.dataTxBuffer = sentTx d c
  size : s.dev.kmallocMmapBufferSize = d.kmallocMmapBufferSize
  others : ∀ j ≠ i, (s.writer j).through = true
  stage : Stage d i c (s.writer i) s.dmaCompletion s.waiters s.submitted s.issued
    s.dev.dataRxBuffer

/-- The writers stand where the device would between two whole calls, or within the one that
is under way. -/
inductive Serial (s : Writers ι) (d : DmaPrivateData) : List (ι × Call) → Prop
  | between : Between s d → Serial s d []
  | inCall {i : ι} {c : Call} : InCall s d i c → Serial s d [(i, c)]

section Whole

variable {d : DmaPrivateData} {c : Call}

theorem dmaWrite_fst_of_fault (h : ¬echoLength d c ≤ c.readable) : (dmaWrite d c).1 =
    { d with dataTxBuffer :=
        (copyFromUser d.dataTxBuffer c.userBuf c.readable (echoLength d c)).2 } := by
  have hretval := mt (retval_eq_zero_iff d c).mp h
  rw [dmaWrite, toNat_clamp]
  exact congrArg Prod.fst (if_pos hretval)

theorem dmaWrite_fst_of_unsubmitted (h : echoLength d c ≤ c.readable)
    (hbad : c.descriptor = false ∨ c.submitted = false) :
    (dmaWrite d c).1 = { d with dataTxBuffer := sentTx d c } := by
  rw [dmaWrite, toNat_clamp, ← echoLength, copyFromUser_complete h]
  rcases hbad with hdesc | hsub
  · simp [hdesc, sentTx]
  · cases c.descriptor <;> simp [hsub, sentTx]

end Whole

section Steps

variable {s s' : Writers ι} {d : DmaPrivateData} {i : ι} {c : Call}
  {a : WriterAction ι} {seen : List (WriterSeen ι)}

/-- A step of the call leaves it under way, or it answers and leaves what the whole call
answers and leaves. -/
inductive Answered (d : DmaPrivateData) (i : ι) (c : Call) (s' : Writers ι) :
    List (WriterSeen ι) → Prop
  | part : InCall s' d i c → Answered d i c s' []
  | whole {o : WriterSeen ι} : Between s' (dmaWrite d c).1 →
      o.answer = (i, (dmaWrite d c).2.ret) → Answered d i c s' [o]

theorem Stage.not_through {pc : WriterPc} {done : ℕ} {waiters : List ι} {submitted issued : List ℕ}
    {rx : Mem} (h : Stage d i c pc done waiters submitted issued rx) : pc.through = false := by
  cases h <;> rfl

theorem InCall.not_through (h : InCall s d i c) : (s.writer i).through = false :=
  h.stage.not_through

theorem clamped_toNat (hsize : s.dev.kmallocMmapBufferSize = d.kmallocMmapBufferSize) (c : Call) :
    (clamped s.dev c).toNat = echoLength d c := by
  rw [clamped, toNat_clamp, hsize, echoLength]

theorem InCall.goto (h : InCall s d i c) (hs' : ∀ j ≠ i, s'.writer j = s.writer j)
    (htx : s'.dev.dataTxBuffer = s.dev.dataTxBuffer)
    (hsize : s'.dev.kmallocMmapBufferSize = s.dev.kmallocMmapBufferSize)
    (hstage : Stage d i c (s'.writer i) s'.dmaCompletion s'.waiters s'.submitted s'.issued
      s'.dev.dataRxBuffer) : InCall s' d i c where
  readable := h.readable
  tx := htx.trans h.tx
  size := hsize.trans h.size
  others j hj := by
    rw [hs' j hj]
    exact h.others j hj
  stage := hstage

variable [DecidableEq ι]

theorem answered_beginWrite (h : Between s d) (i : ι) (c : Call) :
    Answered d i c (beginWrite s i c).1 (beginWrite s i c).2 := by
  have hclamped : (clamped s.dev c).toNat = echoLength d c := clamped_toNat (by rw [h.dev]) c
  unfold beginWrite
  dsimp only
  rw [hclamped, h.dev]
  by_cases hread : echoLength d c ≤ c.readable
  · have hcopy : copyFromUser d.dataTxBuffer c.userBuf c.readable (echoLength d c) =
        (0, sentTx d c) := copyFromUser_complete hread
    rw [hcopy, if_neg (by simp)]
    refine .part ⟨hread, rfl, rfl, fun j hj => ?_, ?_⟩
    · simpa [Writers.goto, Function.update_of_ne hj] using h.through j
    · simpa [Writers.goto, h.submitted, h.issued] using
        Stage.prepare (d := d) (i := i) (c := c) s.dmaCompletion s.waiters
  · have hretval : BitVec.ofNat 32
        (copyFromUser d.dataTxBuffer c.userBuf c.readable (echoLength d c)).1 ≠ 0 :=
      mt (retval_eq_zero_iff d c).mp hread
    rw [if_pos hretval]
    refine .whole ⟨?_, h.submitted, h.issued, h.through⟩ ?_
    · rw [dmaWrite_fst_of_fault hread]
    · rw [dmaWrite_of_fault hread]
      rfl

theorem InCall.between (h : InCall s d i c) (pc : WriterPc) (hpc : pc.through = true)
    (hwriter : s'.writer = Function.update s.writer i pc) {d' : DmaPrivateData} (hdev : s'.dev = d')
    (hsubmitted : s'.submitted = []) (hissued : s'.issued = []) : Between s' d' where
  dev := hdev
  submitted := hsubmitted
  issued := hissued
  through j := by
    rw [hwriter]
    by_cases hj : j = i
    · rw [hj, Function.update_self, hpc]
    · rw [Function.update_of_ne hj]
      exact h.others j hj

theorem answered_writer (h : InCall s d i c) (hs : writerStep s i = some (s', seen)) :
    Answered d i c s' seen := by
  have hclamped := clamped_toNat h.size c
  have hstage := h.stage
  have hdev : s.dev = ⟨sentTx d c, s.dev.dataRxBuffer, d.kmallocMmapBufferSize⟩ := by
    rw [← h.tx, ← h.size]
  unfold writerStep at hs
  generalize hpc : s.writer i = pc at hs hstage
  generalize hdone : s.dmaCompletion = done at hs hstage
  generalize hwaiters : s.waiters = waiters at hs hstage
  generalize hsubmitted : s.submitted = submitted at hs hstage
  generalize hissued : s.issued = issued at hs hstage
  generalize hrx : s.dev.dataRxBuffer = rx at hs hstage hdev
  cases hstage with
  | prepare =>
    dsimp only at hs
    split_ifs at hs with hdesc <;> obtain ⟨rfl, rfl⟩ := Prod.mk.inj (Option.some.inj hs)
    · refine .part (h.goto (goto_other _) rfl rfl ?_)
      simpa [Writers.goto, hsubmitted, hissued, hrx] using
        Stage.initCompletion (d := d) (i := i) (c := c) hdesc s.dmaCompletion s.waiters
    · have hbad : c.descriptor = false ∨ c.submitted = false := Or.inl (by simpa using hdesc)
      refine .whole (h.between .oopsed rfl rfl ?_ hsubmitted hissued) ?_
      · rw [dmaWrite_fst_of_unsubmitted h.readable hbad]
        exact hdev
      · rw [dmaWrite_of_unsubmitted h.readable hbad, if_neg hdesc]
        rfl
  | initCompletion hdesc =>
    obtain ⟨rfl, rfl⟩ := Prod.mk.inj (Option.some.inj hs)
    refine .part (h.goto (goto_other (.submit c)) rfl rfl ?_)
    simpa [Writers.goto, hsubmitted, hissued, hrx] using
      Stage.submit (d := d) (i := i) (c := c) hdesc
  | submit hdesc =>
    dsimp only at hs
    split_ifs at hs with hsub <;> obtain ⟨rfl, rfl⟩ := Prod.mk.inj (Option.some.inj hs)
    · refine .part (h.goto (goto_other (.issue c)) rfl rfl ?_)
      simpa [Writers.goto, hdone, hwaiters, hissued, hrx, hclamped] using
        Stage.issue (d := d) (i := i) (c := c) hdesc hsub
    · have hbad : c.descriptor = false ∨ c.submitted = false := Or.inr (by simpa using hsub)
      refine .whole (h.between .idle rfl rfl ?_ hsubmitted hissued) ?_
      · rw [dmaWrite_fst_of_unsubmitted h.readable hbad]
        exact hdev
      · rw [dmaWrite_of_unsubmitted h.readable hbad, if_pos hdesc]
        rfl
  | issue hdesc hsub =>
    obtain ⟨rfl, rfl⟩ := Prod.mk.inj (Option.some.inj hs)
    refine .part (h.goto (goto_other (.wait c)) rfl rfl ?_)
    simpa [Writers.goto, hdone, hwaiters, hrx] using
      Stage.wait (d := d) (i := i) (c := c) hdesc hsub
  | wait hdesc hsub =>
    obtain ⟨rfl, rfl⟩ := Prod.mk.inj (Option.some.inj hs)
    refine .part (h.goto (goto_other (.asleep c)) rfl rfl ?_)
    simpa [Writers.goto, hdone, hsubmitted, hissued, hrx] using
      Stage.asleep (d := d) (i := i) (c := c) hdesc hsub
  | asleep => cases hs
  | completed hdesc hsub =>
    obtain ⟨rfl, rfl⟩ := Prod.mk.inj (Option.some.inj hs)
    refine .part (h.goto (goto_other (.log c)) rfl rfl ?_)
    simpa [Writers.goto, hwaiters, hsubmitted, hissued, hrx] using
      Stage.log (d := d) (i := i) (c := c) hdesc hsub
  | log hdesc hsub =>
    obtain ⟨rfl, rfl⟩ := Prod.mk.inj (Option.some.inj hs)
    refine .whole (h.between .idle rfl rfl ?_ hsubmitted hissued) ?_
    · rw [dmaWrite_of_submitted h.readable hdesc hsub]
      simp only [logReceived_fst, hdev]
      rfl
    · rw [dmaWrite_of_submitted h.readable hdesc hsub, hclamped]
      rfl

theorem answered_engine (h : InCall s d i c) (hs : engineStep s = some (s', seen)) :
    Answered d i c s' seen := by
  have hstage := h.stage
  unfold engineStep at hs
  generalize hpc : s.writer i = pc at hstage
  generalize hdone : s.dmaCompletion = done at hstage
  generalize hwaiters : s.waiters = waiters at hstage
  generalize hsubmitted : s.submitted = submitted at hstage
  generalize hissued : s.issued = issued at hs hstage
  generalize hrx : s.dev.dataRxBuffer = rx at hs hstage
  cases hstage with
  | wait hdesc hsub =>
    obtain ⟨rfl, rfl⟩ := Prod.mk.inj (Option.some.inj hs)
    refine .part ?_
    simp only [dmaDoneCallback, hwaiters, hdone, h.tx]
    refine h.goto (fun _ _ => rfl) h.tx.symm rfl ?_
    simpa [hpc, hsubmitted, hwaiters, sentRx] using
      Stage.completed (d := d) (i := i) (c := c) hdesc hsub
  | asleep hdesc hsub =>
    obtain ⟨rfl, rfl⟩ := Prod.mk.inj (Option.some.inj hs)
    refine .part ?_
    simp only [dmaDoneCallback, hwaiters, hdone, h.tx, hpc]
    refine h.goto (goto_other (.wait c)) h.tx.symm rfl ?_
    simpa [Writers.goto, WriterPc.woken, hsubmitted, sentRx] using
      Stage.completed (d := d) (i := i) (c := c) hdesc hsub
  | prepare | initCompletion | submit | issue | completed | log => cases hs

theorem writerStep_through (h : (s.writer i).through = true) : writerStep s i = none := by
  cases hpc : s.writer i <;> simp [hpc, WriterPc.through] at h <;> simp [writerStep, hpc]

variable [Fintype ι]

/-- The call that a step belongs to: the one under way, or the one that it begins. -/
theorem serial_step {under : List (ι × Call)} (h : Serial s d under) (halone : alone s a = true)
    (hs : dmaWriters s a = some (s', seen)) :
    ∃ i c, under ++ begun [a] = [(i, c)] ∧ Answered d i c s' seen := by
  cases h with
  | between h =>
    cases a with
    | write i c =>
      cases hpc : s.writer i <;> simp only [dmaWriters, hpc, reduceCtorEq] at hs
      have hout := answered_beginWrite h i c
      rw [Option.some.inj hs] at hout
      exact ⟨i, c, rfl, hout⟩
    | step i =>
      have hnone := writerStep_through (h.through i)
      exact absurd (hnone.symm.trans hs) (by simp)
    | engine => simp [dmaWriters, engineStep, h.issued] at hs
  | @inCall i c h =>
    cases a with
    | write j c' =>
      have hthrough : ∀ j, (s.writer j).through = true := by simpa [alone] using halone
      exact absurd (hthrough i) (by simp [h.not_through])
    | step j =>
      by_cases hj : j = i
      · subst hj
        exact ⟨j, c, rfl, answered_writer h hs⟩
      · have hnone := writerStep_through (h.others j hj)
        exact absurd (hnone.symm.trans hs) (by simp)
    | engine => exact ⟨i, c, rfl, answered_engine h hs⟩

omit [DecidableEq ι] [Fintype ι] in
theorem begun_cons (a : WriterAction ι) (as : List (WriterAction ι)) :
    begun (a :: as) = begun [a] ++ begun as := List.filterMap_append (l := [a])

/-- What a run makes of the calls that have begun: the device answers them whole, all but the
one that is under way at the end. -/
theorem serial_run {as : List (WriterAction ι)} {under : List (ι × Call)} (h : Serial s d under)
    (hrun : exec (dmaWriters.when alone) s as = some (s', seen)) :
    ∃ answered rest d' outs, under ++ begun as = answered ++ rest ∧
      exec dmaDevice d (answered.map Prod.snd) = some (d', outs) ∧ Serial s' d' rest ∧
      seen.map WriterSeen.answer = (answered.map Prod.fst).zip (outs.map Outcome.ret) := by
  induction as generalizing s d under seen with
  | nil =>
    obtain ⟨rfl, rfl⟩ := Prod.mk.inj (Option.some.inj hrun)
    exact ⟨[], under, d, [], by simp [begun], rfl, h, rfl⟩
  | cons a as ih =>
    obtain ⟨t, first, later, hs, hrest, rfl⟩ := exec_cons_eq_some hrun
    obtain ⟨halone, hs⟩ := Machine.when_eq_some.mp hs
    obtain ⟨i, c, hcall, hanswered⟩ := serial_step h halone hs
    rw [begun_cons, ← List.append_assoc, hcall]
    cases hanswered with
    | part hin => exact ih (.inCall hin) hrest
    | whole hbetween hret =>
      obtain ⟨answered, rest, d', outs, hcalls, hdevice, hserial, hseen⟩ :=
        ih (.between hbetween) hrest
      refine ⟨(i, c) :: answered, rest, d', (dmaWrite d c).2 :: outs, ?_, ?_, hserial, ?_⟩
      · rw [List.nil_append] at hcalls
        rw [hcalls]
        rfl
      · have hwrite : dmaDevice d c = some ((dmaWrite d c).1, [(dmaWrite d c).2]) := rfl
        rw [List.map_cons, exec_cons hwrite, hdevice]
        rfl
      · rw [List.map_append, hseen, List.map_singleton, hret]
        rfl

/-- Where each call begins when no other is under way, the device that runs the same calls
whole, in their order, gives each writer the same answer, and between calls it is in the same
state; only the call under way at the end is not yet answered. -/
theorem serial_writes_refine {as : List (WriterAction ι)}
    (hrun : exec (dmaWriters.when alone) (probed d) as = some (s, seen)) :
    ∃ answered under d' outs, begun as = answered ++ under ∧ under.length ≤ 1 ∧
      exec dmaDevice d (answered.map Prod.snd) = some (d', outs) ∧
      seen.map WriterSeen.answer = (answered.map Prod.fst).zip (outs.map Outcome.ret) ∧
      ((∀ j, (s.writer j).through = true) → under = [] ∧ s.dev = d') := by
  have hstart : Serial (probed d : Writers ι) d [] := .between ⟨rfl, rfl, rfl, fun _ => rfl⟩
  obtain ⟨answered, under, d', outs, hcalls, hdevice, hserial, hseen⟩ := serial_run hstart hrun
  rw [List.nil_append] at hcalls
  cases hserial with
  | between h =>
    exact ⟨answered, [], d', outs, hcalls, by simp, hdevice, hseen, fun _ => ⟨rfl, h.dev⟩⟩
  | @inCall i c h =>
    refine ⟨answered, _, d', outs, hcalls, le_rfl, hdevice, hseen, fun hthrough => ?_⟩
    exact absurd (hthrough i) (by simp [h.not_through])

/-- A write that dies of a missing descriptor between two that are echoed, and a last one that
has only begun. -/
def deadBetween : List (WriterAction Bool) :=
  [WriterAction.write false (smoothCall 20)] ++ List.replicate 5 (WriterAction.step false) ++
    [WriterAction.engine, .step false, .step false] ++
      [WriterAction.write true { smoothCall 20 with descriptor := false }, .step true,
        .write false (smoothCall 8)] ++
        List.replicate 4 (WriterAction.step false) ++
          [WriterAction.engine, .step false, .step false, .write false (smoothCall 4)]

theorem serial_writes_refine_dead : ∃ s seen answered under d' outs,
    exec (dmaWriters.when alone) (probed (dmaProbe (some 4096))) deadBetween = some (s, seen) ∧
      seen.map WriterSeen.answer = [(false, some 20), (true, none), (false, some 8)] ∧
      begun deadBetween = answered ++ under ∧ under.length ≤ 1 ∧
      exec dmaDevice (dmaProbe (some 4096)) (answered.map Prod.snd) = some (d', outs) ∧
      seen.map WriterSeen.answer = (answered.map Prod.fst).zip (outs.map Outcome.ret) := by
  obtain ⟨s, seen, hrun, hseen⟩ : ∃ s seen,
      exec (dmaWriters.when alone) (probed (dmaProbe (some 4096))) deadBetween = some (s, seen) ∧
        seen.map WriterSeen.answer = [(false, some 20), (true, none), (false, some 8)] := by
    decide +kernel
  obtain ⟨answered, under, d', outs, hcalls, hunder, hdevice, hsame, -⟩ := serial_writes_refine hrun
  exact ⟨s, seen, answered, under, d', outs, hrun, hseen, hcalls, hunder, hdevice, hsame⟩

end Steps

end LinuxOddsAndEnds.Rpi4.Dma
