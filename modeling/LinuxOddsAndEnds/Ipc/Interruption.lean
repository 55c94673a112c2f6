import LinuxOddsAndEnds.Ipc.Handshake

/-!
# Access without the semaphore

A party may touch the shared record if its last semaphore call was a wait that
succeeded. The loops around `sem_wait` give up on `EINTR` and go on as if they held
the semaphore, and the writer's exit sets the state without waiting. Apart from these
two every access is covered.
-/

namespace LinuxOddsAndEnds.Ipc.SharedMem

open Foundation

@[simp] def holdingAfter (p : Party) (held : Bool) : Seen → Bool
  | .waited q => held || q = p
  | .posted q => held && q ≠ p
  | _ => held

/-- The party's last semaphore call was a wait that succeeded. -/
def holding (p : Party) (tr : List Seen) : Bool := tr.foldl (holdingAfter p) false

/-- The record is touched only by a party that holds its semaphore. -/
def accessOk (pre : List Seen) : Seen → Prop
  | .touched p => holding p pre = true
  | _ => True

instance decidableAccessOk (pre : List Seen) : ∀ o, Decidable (accessOk pre o)
  | .touched p => inferInstanceAs (Decidable (holding p pre = true))
  | .newSession | .began .. | .waited _ | .posted _ | .formatted | .published _ | .printed _
  | .shutdown => isTrue trivial

/-- No wait is interrupted and the writer does not get to its shutdown write. -/
def calm (s : Processes) : Action → Bool
  | .writerInterrupted | .readerInterrupted => false
  | .writer => s.writer != .shutdownState
  | _ => true

/-- What the trace says about holding is what the program counters say. -/
structure Excluding (s : Processes) (tr : List Seen) : Prop where
  counted : Counted s tr
  opened : s.semWrite.isSome = true
  inSession : s.writer.starting = false ∧ s.writer ≠ .shutdownPost ∧ s.writer ≠ .exited
  noShutdown : shutdowns tr = 0
  writer : holding .writer tr = s.writer.inAccess
  reader : holding .reader tr = s.reader.inAccess
  judged : Judged accessOk tr

variable {s s' : Processes} {tr seen : List Seen}

@[simp] theorem holding_append (p : Party) (tr seen : List Seen) :
    holding p (tr ++ seen) = seen.foldl (holdingAfter p) (holding p tr) := List.foldl_append ..

theorem Excluding.not_both (h : Excluding s tr) :
    ¬(s.writer.inAccess = true ∧ s.reader.inAccess = true) := by
  rintro ⟨hw, hr⟩
  have hcount := h.counted.count (by rw [h.noShutdown]; simp [semValueMax])
  rw [h.noShutdown, h.opened] at hcount
  simp only [tokens, holders, hw, hr, Bool.toNat_true] at hcount
  omega

theorem Excluding.next (h : Excluding s tr) (hcounted : Counted s' (tr ++ seen))
    (hopen : s'.semWrite.isSome = true)
    (hin : s'.writer.starting = false ∧ s'.writer ≠ .shutdownPost ∧ s'.writer ≠ .exited)
    (hno : Seen.shutdown ∉ seen) (hw : holding .writer (tr ++ seen) = s'.writer.inAccess)
    (hr : holding .reader (tr ++ seen) = s'.reader.inAccess)
    (hjudged : JudgedFrom accessOk tr seen) : Excluding s' (tr ++ seen) := by
  refine ⟨hcounted, hopen, hin, ?_, hw, hr, h.judged.append hjudged⟩
  rw [shutdowns_append, h.noShutdown, shutdowns_eq_zero hno]

theorem orderly_of_calm {a : Action} (h : Excluding s tr) (hok : calm s a = true) :
    orderly s a = true := by
  cases a with
  | writerInterrupted => cases hok
  | readerInterrupted => cases hok
  | reader => simp [orderly, h.opened]
  | _ => rfl

theorem Excluding.step {a : Action} (h : Excluding s tr) (hok : calm s a = true)
    (hs : Step s a s' seen) : Excluding s' (tr ++ seen) := by
  have hcounted := h.counted.step (orderly_of_calm h hok) hs
  have hopen := hs.isSome_semWrite h.opened
  obtain ⟨hin, hw, hr⟩ := And.intro h.inSession (And.intro h.writer h.reader)
  cases hs with
  | startWriter _ hpc => simp [hpc] at hin
  | startReader hpc => apply h.next hcounted hopen hin <;> simp_all
  | noBackingFile => apply h.next hcounted hopen hin <;> simp_all
  | quit hpc => apply h.next hcounted hopen <;> simp_all
  | key _ pc v hpc hnext =>
    obtain ⟨hacc, -, -⟩ := WriterPc.of_atKeys hpc
    obtain ⟨hacc', -, hstart'⟩ := WriterPc.of_atKeys hnext
    refine h.next hcounted hopen ⟨hstart', ?_, ?_⟩ (by simp) ?_ (by simpa using hr) trivial
    · rintro rfl
      cases hnext
    · rintro rfl
      cases hnext
    · rw [List.append_nil, hw, hacc, hacc']
  | writerInit hpc => simp [hpc] at hin
  | writerOpenSemWrite hpc => simp [hpc] at hin
  | writerOpenSemRead hpc => simp [hpc] at hin
  | writerWait n hpc => apply h.next hcounted hopen <;> simp_all [accessOk]
  | setState state running hpc => apply h.next hcounted hopen <;> simp_all [accessOk]
  | format hpc => apply h.next hcounted hopen <;> simp_all [accessOk]
  | writerPost hpc =>
    apply h.next hcounted hopen <;> cases s.writerRunning <;>
      simp_all [accessOk, WriterPc.loopHead]
  | shutdownState hpc => simp [calm, hpc] at hok
  | shutdownPost hpc => exact absurd hpc hin.2.1
  | writerInterrupted => cases hok
  | readerOpenSemRead hpc => apply h.next hcounted hopen hin <;> simp_all
  | readerOpenSemWrite hpc => apply h.next hcounted hopen hin <;> simp_all
  | readerWait n hpc => apply h.next hcounted hopen hin <;> simp_all [accessOk]
  | print hpc => apply h.next hcounted hopen hin <;> simp_all [accessOk]
  | testState hpc => apply h.next hcounted hopen hin <;> simp_all [accessOk]
  | readerPost hpc =>
    apply h.next hcounted hopen hin <;> cases s.readerRunning <;> simp_all [accessOk]
  | readerInterrupted => cases hok
  | newSession hexit => exact absurd hexit hin.2.2

theorem excluding_writerReady (d : SharedData512) : Excluding (writerReady d) [] :=
  ⟨counted_writerReady d, rfl, ⟨rfl, nofun, nofun⟩, rfl, rfl, rfl, trivial⟩

theorem excluding_of_reaches {d : SharedData512}
    (h : Reaches (sharedMem.when calm) (writerReady d) s tr) : Excluding s tr :=
  h.invariant (excluding_writerReady d) fun _ _ _ _ _ hi hs =>
    hi.step (step_of_when hs).1 (step_of_when hs).2

/-- Without interruption and before the shutdown write, every access is covered by a wait,
and the parties are never both between wait and post. -/
theorem exclusion {d : SharedData512}
    (h : Reaches (sharedMem.when calm) (writerReady d) s tr) :
    Judged accessOk tr ∧ ¬(s.writer.inAccess = true ∧ s.reader.inAccess = true) :=
  ⟨(excluding_of_reaches h).judged, (excluding_of_reaches h).not_both⟩

/-- The writer updates, the reader prints it, and `q` is pressed. -/
def updateThenQuit : List Action :=
  [Action.startReader, .reader, .reader] ++ upKey ++ List.replicate 4 Action.writer ++
    List.replicate 2 Action.reader ++ [Action.getchar 113]

theorem exclusion_updateThenQuit : ∃ s tr,
    exec (sharedMem.when calm) (writerReady ⟨7, .state0, []⟩) updateThenQuit = some (s, tr) ∧
    s.reader = .testState ∧ Judged accessOk tr ∧
      ¬(s.writer.inAccess = true ∧ s.reader.inAccess = true) := by
  obtain ⟨s, tr, hrun, hreader⟩ : ∃ s tr,
      exec (sharedMem.when calm) (writerReady ⟨7, .state0, []⟩) updateThenQuit = some (s, tr) ∧
      s.reader = .testState := by decide +kernel
  exact ⟨s, tr, hrun, hreader, exclusion (Reaches.of_exec hrun)⟩

/-- The reader's wait is interrupted while the writer has access. -/
theorem interrupted_reader_enters : ∃ s tr,
    exec sharedMem (writerReady ⟨7, .state0, []⟩)
      ([Action.startReader, .reader, .reader] ++ upKey ++
        [Action.writer, .readerInterrupted, .reader, .writer]) = some (s, tr) ∧
    ¬Judged accessOk tr ∧ s.writer.inAccess = true ∧ s.reader.inAccess = true := by
  decide +kernel

theorem not_judged_of_touched {p : Party} {pre rest : List Seen} (h : holding p pre = false) :
    ¬Judged accessOk (pre ++ .touched p :: rest) := by
  intro hj
  have htouch : holding p pre = true := (judged_append.mp hj).2.1
  rw [h] at htouch
  cases htouch

/-- Whatever `calm` refuses is an access without the semaphore, or is followed by one in
the next step of the same party. -/
theorem disturbed_unsafe {d : SharedData512}
    (h : Reaches (sharedMem.when calm) (writerReady d) s tr) {a : Action}
    (hbad : calm s a = false) (hs : sharedMem s a = some (s', seen)) :
    ¬Judged accessOk (tr ++ seen) ∨ ∃ b s'' next, sharedMem s' b = some (s'', next) ∧
      ¬Judged accessOk (tr ++ seen ++ next) := by
  have hinv := excluding_of_reaches h
  cases step_of_sharedMem hs with
  | writerInterrupted hpc =>
    have hfree : holding .writer (tr ++ []) = false := by simpa [hpc] using hinv.writer
    right
    by_cases hten : s.fileVal = 10
    · exact ⟨.writer, _, _, if_pos hten, not_judged_of_touched hfree⟩
    · exact ⟨.writer, _, _, if_neg hten, not_judged_of_touched hfree⟩
  | readerInterrupted hpc =>
    have hfree : holding .reader (tr ++ []) = false := by simpa [hpc] using hinv.reader
    right
    exact ⟨.reader, _, _, rfl, not_judged_of_touched hfree⟩
  | shutdownState hpc =>
    have hfree : holding .writer tr = false := by simpa [hpc] using hinv.writer
    exact Or.inl (not_judged_of_touched hfree)
  | _ => simp_all [calm]

end LinuxOddsAndEnds.Ipc.SharedMem
