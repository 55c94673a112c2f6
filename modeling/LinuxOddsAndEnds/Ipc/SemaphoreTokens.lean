import LinuxOddsAndEnds.Ipc.SharedMem

/-!
# The tokens behind the two semaphores

Both semaphore values and the parties between wait and post are counted together. A
wait moves a token from a semaphore to a party and the party's post moves it on to
the other semaphore, so an undisturbed run creates tokens in two places only: where
the writer creates `sem_write`, and in the post that ends every writer.
-/

namespace LinuxOddsAndEnds.Ipc.SharedMem

open Foundation

/-- Between the wait and the post. -/
@[simp] def WriterPc.inAccess : WriterPc → Bool
  | .setState | .format | .postSemRead => true
  | _ => false

@[simp] def ReaderPc.inAccess : ReaderPc → Bool
  | .print | .testState | .postSemWrite => true
  | _ => false

def holders (s : Processes) : ℕ := s.writer.inAccess.toNat + s.reader.inAccess.toNat

def tokens (s : Processes) : ℕ := s.semWrite.getD 0 + s.semRead.getD 0 + holders s

def shutdowns (tr : List Seen) : ℕ := tr.count .shutdown

@[simp] def WriterPc.beforeSemWrite : WriterPc → Bool
  | .notStarted | .init | .openSemWrite => true
  | _ => false

@[simp] def WriterPc.starting : WriterPc → Bool
  | .notStarted | .init | .openSemWrite | .openSemRead => true
  | _ => false

@[simp] def ReaderPc.beforeSemRead : ReaderPc → Bool
  | .notStarted | .openSemRead => true
  | _ => false

@[simp] def ReaderPc.starting : ReaderPc → Bool
  | .notStarted | .openSemRead | .openSemWrite => true
  | _ => false

/-- No wait is interrupted, and the reader does not create `sem_write`. -/
def orderly (s : Processes) : Action → Bool
  | .writerInterrupted | .readerInterrupted => false
  | .reader => s.reader != .openSemWrite || s.semWrite.isSome
  | _ => true

/-- Processes that are past `sem_open` have their semaphores, and tokens are created by
the first `sem_open` of `sem_write` and by shutdowns. -/
structure Counted (s : Processes) (tr : List Seen) : Prop where
  semWrite : s.semWrite.isSome ∨ (s.writer.beforeSemWrite = true ∧ s.reader.starting = true)
  semRead : s.semRead.isSome ∨ (s.writer.starting = true ∧ s.reader.beforeSemRead = true)
  count : shutdowns tr < semValueMax → tokens s = s.semWrite.isSome.toNat + shutdowns tr

@[simp] theorem shutdowns_append (tr seen : List Seen) :
    shutdowns (tr ++ seen) = shutdowns tr + shutdowns seen := List.count_append ..

theorem semPost_of_lt {n : ℕ} (h : n < semValueMax) : semPost (some n) = some (n + 1) := by
  simp [semPost, h]

@[simp] theorem isSome_semPost (sem : Option ℕ) : (semPost sem).isSome = sem.isSome := by
  cases sem <;> rfl

theorem shutdowns_eq_zero {seen : List Seen} (h : Seen.shutdown ∉ seen) : shutdowns seen = 0 :=
  List.count_eq_zero.mpr h

variable {s s' : Processes} {tr seen : List Seen}

theorem WriterPc.of_atKeys {pc : WriterPc} (h : pc.atKeys = true) :
    pc.inAccess = false ∧ pc.beforeSemWrite = false ∧ pc.starting = false := by
  cases pc <;> simp_all

theorem Step.isSome_semWrite {a : Action} (hs : Step s a s' seen) (h : s.semWrite.isSome) :
    s'.semWrite.isSome := by
  cases hs with
  | writerOpenSemWrite => rfl
  | writerWait => rfl
  | readerOpenSemWrite => rfl
  | readerPost => simpa using h
  | _ => exact h

/-- A step that shows no shutdown adds tokens only by creating `sem_write`. -/
theorem Counted.keep (h : Counted s tr)
    (hw : s'.semWrite.isSome ∨ (s'.writer.beforeSemWrite = true ∧ s'.reader.starting = true))
    (hr : s'.semRead.isSome ∨ (s'.writer.starting = true ∧ s'.reader.beforeSemRead = true))
    (hseen : Seen.shutdown ∉ seen)
    (hcount : tokens s ≤ semValueMax →
      tokens s' + s.semWrite.isSome.toNat = tokens s + s'.semWrite.isSome.toNat) :
    Counted s' (tr ++ seen) := by
  refine ⟨hw, hr, ?_⟩
  intro hlt
  rw [shutdowns_append, shutdowns_eq_zero hseen, Nat.add_zero] at hlt ⊢
  have hold := h.count hlt
  have hbound : s.semWrite.isSome.toNat ≤ 1 := Bool.toNat_le _
  have hnew := hcount (by omega)
  omega

theorem Counted.move (h : Counted s tr) (hwrite : s'.semWrite = s.semWrite)
    (hread : s'.semRead = s.semRead) (hheld : holders s' = holders s)
    (hbefore : s'.writer.beforeSemWrite = s.writer.beforeSemWrite)
    (hstarting : s'.writer.starting = s.writer.starting)
    (hbefore' : s'.reader.beforeSemRead = s.reader.beforeSemRead)
    (hstarting' : s'.reader.starting = s.reader.starting) (hseen : Seen.shutdown ∉ seen) :
    Counted s' (tr ++ seen) := by
  apply h.keep
  · rw [hwrite, hbefore, hstarting']
    exact h.semWrite
  · rw [hread, hstarting, hbefore']
    exact h.semRead
  · exact hseen
  · intro _
    rw [tokens, tokens, hwrite, hread, hheld]

theorem Counted.writerStep (h : Counted s tr) (hs : Step s .writer s' seen) :
    Counted s' (tr ++ seen) := by
  obtain ⟨hw, hr, hc⟩ := id h
  cases hs with
  | writerInit hpc => apply h.move <;> simp [holders, hpc]
  | writerOpenSemWrite hpc =>
    cases hsem : s.semWrite <;> apply h.keep <;> simp_all [tokens, holders, semOpen]
    omega
  | writerOpenSemRead hpc =>
    cases hsem : s.semRead <;> apply h.keep <;> simp_all [tokens, holders, semOpen]
  | writerWait n hpc hsem =>
    apply h.keep <;> simp_all [tokens, holders]
    omega
  | setState state running hpc => apply h.move <;> simp [holders, hpc]
  | format hpc => apply h.move <;> simp [holders, hpc]
  | writerPost hpc =>
    have hsome : s.semRead.isSome := by simpa [hpc] using hr
    obtain ⟨n, hn⟩ := Option.isSome_iff_exists.mp hsome
    have hpost : tokens s ≤ semValueMax → semPost (some n) = some (n + 1) := by
      intro hle
      apply semPost_of_lt
      simp [tokens, holders, hpc, hn] at hle
      omega
    apply h.keep
    · simp_all
    · simp_all
    · simp
    · intro hle
      cases hrun : s.writerRunning <;>
        simp [tokens, holders, hpc, hn, hpost hle, WriterPc.loopHead] <;> omega
  | shutdownState hpc => apply h.move <;> simp [holders, hpc]
  | shutdownPost hpc =>
    have hsome : s.semRead.isSome := by simpa [hpc] using hr
    obtain ⟨n, hn⟩ := Option.isSome_iff_exists.mp hsome
    refine ⟨?_, ?_, ?_⟩
    · simp_all
    · simp_all
    · intro hlt
      rw [shutdowns_append, show shutdowns [Seen.posted .writer, .shutdown] = 1 from rfl] at hlt ⊢
      have hold := hc (by omega)
      have hbound : s.semWrite.isSome.toNat ≤ 1 := Bool.toNat_le _
      simp [tokens, holders, hpc, hn] at hold
      have hpost : semPost (some n) = some (n + 1) := by
        apply semPost_of_lt
        omega
      simp [tokens, holders, hn, hpost]
      omega

theorem Counted.readerStep (h : Counted s tr) (hord : orderly s .reader = true)
    (hs : Step s .reader s' seen) : Counted s' (tr ++ seen) := by
  obtain ⟨hw, hr, -⟩ := id h
  cases hs with
  | readerOpenSemRead hpc =>
    cases hsem : s.semRead <;> apply h.keep <;> simp_all [tokens, holders, semOpen]
  | readerOpenSemWrite hpc =>
    have hsome : s.semWrite.isSome := by simpa [orderly, hpc] using hord
    obtain ⟨n, hn⟩ := Option.isSome_iff_exists.mp hsome
    apply h.keep <;> simp_all [tokens, holders, semOpen]
  | readerWait n hpc hsem =>
    apply h.keep <;> simp_all [tokens, holders]
    omega
  | print hpc => apply h.move <;> simp [holders, hpc]
  | testState hpc => apply h.move <;> simp [holders, hpc]
  | readerPost hpc =>
    have hsome : s.semWrite.isSome := by simpa [hpc] using hw
    obtain ⟨n, hn⟩ := Option.isSome_iff_exists.mp hsome
    have hpost : tokens s ≤ semValueMax → semPost (some n) = some (n + 1) := by
      intro hle
      apply semPost_of_lt
      simp [tokens, holders, hpc, hn] at hle
      omega
    apply h.keep
    · simp_all
    · simp_all
    · simp
    · intro hle
      cases hrun : s.readerRunning <;> simp [tokens, holders, hpc, hn, hpost hle] <;> omega

theorem Counted.step {a : Action} (h : Counted s tr) (hord : orderly s a = true)
    (hs : Step s a s' seen) : Counted s' (tr ++ seen) := by
  obtain ⟨hw, hr, -⟩ := id h
  cases a with
  | startWriter pid =>
    cases hs with
    | startWriter _ hpc => apply h.move <;> simp [holders, hpc]
  | startReader =>
    cases hs with
    | startReader hpc => apply h.move <;> simp [holders, hpc]
    | noBackingFile => apply h.keep <;> simp_all
  | getchar ch =>
    cases hs with
    | quit hpc => apply h.move <;> simp [holders, hpc]
    | key _ pc v hpc hnext =>
      obtain ⟨hacc, hbefore, hstart⟩ := WriterPc.of_atKeys hpc
      obtain ⟨hacc', hbefore', hstart'⟩ := WriterPc.of_atKeys hnext
      have hheld : holders { s with writer := pc, fileVal := v } = holders s := by
        rw [holders, holders, hacc, hacc']
      exact h.move rfl rfl hheld (hbefore'.trans hbefore.symm) (hstart'.trans hstart.symm) rfl rfl
        List.not_mem_nil
  | writer => exact h.writerStep hs
  | writerInterrupted => cases hord
  | reader => exact h.readerStep hord hs
  | readerInterrupted => cases hord
  | newSession =>
    cases hs with
    | newSession hwriter hreader => apply h.keep <;> simp_all [tokens, holders]

theorem counted_beforeFirstSession (backingFile : Bool) (d : SharedData512) :
    Counted (beforeFirstSession backingFile d) [] :=
  ⟨Or.inr ⟨rfl, rfl⟩, Or.inr ⟨rfl, rfl⟩, fun _ => rfl⟩

theorem counted_writerReady (d : SharedData512) : Counted (writerReady d) [] :=
  ⟨Or.inl rfl, Or.inl rfl, fun _ => rfl⟩

/-- Over any number of sessions without interruption, the tokens are the one that the
writer creates and one more for each writer that has quit. -/
theorem tokens_eq {backingFile : Bool} {d : SharedData512}
    (h : Reaches (sharedMem.when orderly) (beforeFirstSession backingFile d) s tr)
    (hmax : shutdowns tr < semValueMax) :
    tokens s = s.semWrite.isSome.toNat + shutdowns tr := by
  have hcounted : Counted s tr :=
    h.invariant (counted_beforeFirstSession backingFile d) fun _ _ _ _ _ hi hs =>
      hi.step (step_of_when hs).1 (step_of_when hs).2
  exact hcounted.count hmax

end LinuxOddsAndEnds.Ipc.SharedMem
