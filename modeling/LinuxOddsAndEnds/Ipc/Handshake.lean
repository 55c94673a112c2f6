import LinuxOddsAndEnds.Ipc.SemaphoreTokens

/-!
# One session of the handshake

As long as the writer stays in its key loop there is one token. It stands for the
single message in the buffer: the message is unread exactly while the token is in
`sem_read` or with a reader that has not printed yet. The writer therefore formats
only a message that has been read, and what it has published is what the reader has
printed and the unread message after it.
-/

namespace LinuxOddsAndEnds.Ipc.SharedMem

open Foundation

def published (tr : List Seen) : List (List Byte) :=
  tr.filterMap fun
    | .published buffer => some buffer
    | _ => none

def printed (tr : List Seen) : List (List Byte) :=
  tr.filterMap fun
    | .printed buffer => some buffer
    | _ => none

@[simp] theorem published_append (tr seen : List Seen) :
    published (tr ++ seen) = published tr ++ published seen := List.filterMap_append ..

@[simp] theorem printed_append (tr seen : List Seen) :
    printed (tr ++ seen) = printed tr ++ printed seen := List.filterMap_append ..

@[simp] theorem published_touched (p : Party) : published [.touched p] = [] := rfl

@[simp] def WriterPc.leaving : WriterPc → Bool
  | .shutdownState | .shutdownPost | .exited => true
  | _ => false

@[simp] def WriterPc.hasExited : WriterPc → Bool
  | .exited => true
  | _ => false

@[simp] def ReaderPc.printing : ReaderPc → Bool
  | .print => true
  | _ => false

/-- A step of the first session in which no wait is interrupted. -/
def undisturbed (s : Processes) : Action → Bool
  | .newSession => false
  | a => orderly s a

theorem orderly_of_undisturbed {s : Processes} {a : Action} (h : undisturbed s a = true) :
    orderly s a = true := by
  cases a with
  | newSession => cases h
  | _ => exact h

/-- Messages in the buffer that the reader will still print. -/
def unread (s : Processes) : ℕ := s.semRead.getD 0 + s.reader.printing.toNat

structure Alternating (s : Processes) (tr : List Seen) : Prop where
  counted : Counted s tr
  quits : shutdowns tr = s.writer.hasExited.toNat
  fresh : s.writer.starting = true → s.reader.inAccess = false ∧ s.semRead.getD 0 = 0
  buffered : s.writer.leaving = false →
    published tr = printed tr ++ List.replicate (unread s) s.sharedData512.buffer

variable {s s' : Processes} {tr seen : List Seen}

theorem WriterPc.key_of_atKeys {pc : WriterPc} (h : pc.atKeys = true) :
    pc.leaving = false ∧ pc.hasExited = false := by
  cases pc <;> simp_all

theorem unread_le_holders (s : Processes) : s.reader.printing.toNat ≤ s.reader.inAccess.toNat := by
  cases s.reader <;> decide

theorem Alternating.unquit (h : Alternating s tr) (hw : s.writer.leaving = false) :
    shutdowns tr = 0 := by
  rw [h.quits]
  cases hpc : s.writer <;> simp_all

theorem Alternating.tokens_le (h : Alternating s tr) (hw : s.writer.leaving = false) :
    tokens s ≤ 1 := by
  have hquit := h.unquit hw
  have hcount := h.counted.count (by rw [hquit]; simp [semValueMax])
  have hbound : s.semWrite.isSome.toNat ≤ 1 := Bool.toNat_le _
  omega

theorem Alternating.read_of_access (h : Alternating s tr) (hacc : s.writer.inAccess = true) :
    unread s = 0 := by
  have hleave : s.writer.leaving = false := by
    cases hpc : s.writer <;> simp_all
  have hle := h.tokens_le hleave
  have hprint := unread_le_holders s
  simp only [tokens, holders, hacc, Bool.toNat_true] at hle
  unfold unread
  omega

theorem Alternating.not_both (h : Alternating s tr) (hw : s.writer.leaving = false)
    (hr : s.reader.inAccess = true) : s.writer.inAccess = false := by
  have hle := h.tokens_le hw
  cases hacc : s.writer.inAccess
  · rfl
  · simp only [tokens, holders, hr, hacc, Bool.toNat_true] at hle
    omega

theorem Alternating.keep (h : Alternating s tr) (hcounted : Counted s' (tr ++ seen))
    (hpub : published seen = []) (hprint : printed seen = []) (hdown : shutdowns seen = 0)
    (hexit : s'.writer.hasExited = s.writer.hasExited)
    (hleave : s'.writer.leaving = false → s.writer.leaving = false)
    (hfresh : s'.writer.starting = true → s'.reader.inAccess = false ∧ s'.semRead.getD 0 = 0)
    (hbuf : s'.writer.leaving = false → List.replicate (unread s') s'.sharedData512.buffer =
      List.replicate (unread s) s.sharedData512.buffer) : Alternating s' (tr ++ seen) := by
  refine ⟨hcounted, ?_, hfresh, ?_⟩
  · rw [shutdowns_append, hdown, h.quits, hexit, Nat.add_zero]
  · intro hw
    rw [published_append, printed_append, hpub, hprint, List.append_nil, List.append_nil, hbuf hw]
    exact h.buffered (hleave hw)

theorem Alternating.writerStep (h : Alternating s tr) (hs : Step s .writer s' seen) :
    Alternating s' (tr ++ seen) := by
  have hcounted := h.counted.writerStep hs
  have hfresh := h.fresh
  cases hs with
  | writerInit hpc => apply h.keep hcounted rfl rfl rfl <;> simp_all [unread]
  | writerOpenSemWrite hpc => apply h.keep hcounted rfl rfl rfl <;> simp_all [unread]
  | writerOpenSemRead hpc => apply h.keep hcounted rfl rfl rfl <;> simp_all [unread, semOpen]
  | writerWait n hpc => apply h.keep hcounted rfl rfl rfl <;> simp [hpc, unread]
  | setState state running hpc => apply h.keep hcounted rfl rfl rfl <;> simp [hpc, unread]
  | format hpc =>
    have hread : unread s = 0 := h.read_of_access (by simp [hpc])
    apply h.keep hcounted rfl rfl rfl
    · simp [hpc]
    · simp [hpc]
    · simp
    · intro _
      change List.replicate (unread s) _ = _
      rw [hread]
      rfl
  | writerPost hpc =>
    have hleave : s.writer.leaving = false := by simp [hpc]
    have hread : unread s = 0 := h.read_of_access (by simp [hpc])
    have hbuf := h.buffered hleave
    rw [hread, List.replicate_zero, List.append_nil] at hbuf
    obtain ⟨n, hn⟩ : ∃ n, s.semRead = some n :=
      Option.isSome_iff_exists.mp (by simpa [hpc] using h.counted.semRead)
    have hnext : (semPost s.semRead).getD 0 + s.reader.printing.toNat = 1 := by
      simp only [unread, hn, Option.getD_some] at hread
      have hzero : n = 0 := by omega
      rw [hn, hzero, semPost_of_lt (by simp [semValueMax]), Option.getD_some]
      omega
    refine ⟨hcounted, ?_, ?_, ?_⟩
    · rw [shutdowns_append, h.unquit hleave]
      cases s.writerRunning <;> rfl
    · intro hstart
      cases hrun : s.writerRunning <;> simp [hrun, WriterPc.loopHead] at hstart
    · intro _
      rw [published_append, printed_append, hbuf]
      simp only [unread, hnext]
      simp [published, printed]
  | shutdownState hpc => apply h.keep hcounted rfl rfl rfl <;> simp [hpc]
  | shutdownPost hpc =>
    have hquits := h.quits
    exact ⟨hcounted, by simp_all [shutdowns], by simp, by simp⟩

theorem Alternating.started (h : Alternating s tr) (hr : s.reader.inAccess = true) :
    ¬s.writer.starting = true := by
  intro hstart
  have hacc := (h.fresh hstart).1
  rw [hr] at hacc
  cases hacc

theorem Alternating.readerStep (h : Alternating s tr) (hord : orderly s .reader = true)
    (hs : Step s .reader s' seen) : Alternating s' (tr ++ seen) := by
  have hcounted := h.counted.readerStep hord hs
  have hfresh := h.fresh
  cases hs with
  | readerOpenSemRead hpc => apply h.keep hcounted rfl rfl rfl <;> simp_all [unread, semOpen]
  | readerOpenSemWrite hpc => apply h.keep hcounted rfl rfl rfl <;> simp_all [unread]
  | readerWait n hpc hsem =>
    apply h.keep hcounted rfl rfl rfl
    · rfl
    · exact id
    · intro hstart
      have hzero := (hfresh hstart).2
      simp [hsem] at hzero
    · intro _
      simp [unread, hsem, hpc]
  | print hpc =>
    have hstarted := h.started (by simp [hpc])
    refine ⟨hcounted, ?_, ?_, ?_⟩
    · rw [shutdowns_append, h.quits]
      rfl
    · exact fun hstart => absurd hstart hstarted
    · intro hw
      rw [published_append, printed_append, h.buffered hw]
      simp [unread, hpc, published, printed, List.replicate_succ]
  | testState hpc =>
    have hstarted := h.started (by simp [hpc])
    apply h.keep hcounted rfl rfl rfl
    · rfl
    · exact id
    · exact fun hstart => absurd hstart hstarted
    · simp [unread, hpc]
  | readerPost hpc =>
    have hstarted := h.started (by simp [hpc])
    apply h.keep hcounted rfl rfl rfl
    · rfl
    · exact id
    · exact fun hstart => absurd hstart hstarted
    · intro _
      cases s.readerRunning <;> simp [unread, hpc]

theorem Alternating.step {a : Action} (h : Alternating s tr) (hok : undisturbed s a = true)
    (hs : Step s a s' seen) : Alternating s' (tr ++ seen) := by
  have hfresh := h.fresh
  have hcounted := h.counted.step (orderly_of_undisturbed hok) hs
  cases a with
  | startWriter pid =>
    cases hs with
    | startWriter _ hpc => apply h.keep hcounted rfl rfl rfl <;> simp_all [unread]
  | startReader =>
    cases hs with
    | startReader hpc => apply h.keep hcounted rfl rfl rfl <;> simp_all [unread]
    | noBackingFile => apply h.keep hcounted rfl rfl rfl <;> simp_all
  | getchar ch =>
    cases hs with
    | quit hpc => apply h.keep hcounted rfl rfl rfl <;> simp [hpc]
    | key _ pc v hpc hnext =>
      obtain ⟨hleave, hexit⟩ := WriterPc.key_of_atKeys hpc
      obtain ⟨-, hexit'⟩ := WriterPc.key_of_atKeys hnext
      obtain ⟨-, -, hstart⟩ := WriterPc.of_atKeys hnext
      apply h.keep hcounted rfl rfl rfl
      · exact hexit'.trans hexit.symm
      · exact fun _ => hleave
      · exact fun hc => absurd (hstart.symm.trans hc) Bool.false_ne_true
      · exact fun _ => rfl
  | writer => exact h.writerStep hs
  | writerInterrupted => cases hok
  | reader => exact h.readerStep hok hs
  | readerInterrupted => cases hok
  | newSession => cases hok

theorem alternating_writerReady (d : SharedData512) : Alternating (writerReady d) [] :=
  ⟨counted_writerReady d, rfl, nofun, fun _ => rfl⟩

/-- The step writes nothing to the shared record. -/
def LeavesRecord (s s' : Processes) (seen : List Seen) : Prop :=
  s'.sharedData512 = s.sharedData512 ∧ Seen.touched .writer ∉ seen

/-- Outside its start, its access and its exit the writer only waits, and the reader never
writes. -/
theorem Step.leavesRecord {a : Action} (hs : Step s a s' seen) (hstart : ¬s.writer.starting = true)
    (hacc : s.writer.inAccess = false) (hleave : s.writer.leaving = false) :
    LeavesRecord s s' seen := by
  cases hs with
  | writerInit hpc => simp [hpc] at hstart
  | setState _ _ hpc => simp [hpc] at hacc
  | format hpc => simp [hpc] at hacc
  | shutdownState hpc => simp [hpc] at hleave
  | _ => exact ⟨rfl, by simp⟩

/-- In the key loop of an undisturbed session the reader has printed what was published
up to at most the last message, and access is exclusive. -/
theorem handshake {d : SharedData512}
    (h : Reaches (sharedMem.when undisturbed) (writerReady d) s tr)
    (hw : s.writer.leaving = false) :
    printed tr <+: published tr ∧ (published tr).length ≤ (printed tr).length + 1 ∧
      s.semWrite.getD 0 + s.semRead.getD 0 + holders s = 1 ∧
      (s.reader.inAccess = true → s.writer.inAccess = false ∧
        ∀ a s' seen, sharedMem s a = some (s', seen) → LeavesRecord s s' seen) := by
  have hinv : Alternating s tr ∧ s.semWrite.isSome = true := by
    apply h.invariant (I := fun s tr => Alternating s tr ∧ s.semWrite.isSome = true)
    · exact ⟨alternating_writerReady d, rfl⟩
    · intro s tr a s' seen hi hs
      obtain ⟨hok, hs⟩ := step_of_when hs
      exact ⟨hi.1.step hok hs, hs.isSome_semWrite hi.2⟩
  obtain ⟨halt, hsem⟩ := hinv
  have htokens : tokens s = 1 := by
    have hquit := halt.unquit hw
    rw [halt.counted.count (by rw [hquit]; simp [semValueMax]), hsem, hquit]
    rfl
  have hbuf := halt.buffered hw
  have hprint := unread_le_holders s
  refine ⟨?_, ?_, htokens, ?_⟩
  · rw [hbuf]
    exact List.prefix_append _ _
  · rw [hbuf, List.length_append, List.length_replicate]
    simp only [tokens, holders] at htokens
    unfold unread
    omega
  · intro hr
    have hacc := halt.not_both hw hr
    refine ⟨hacc, ?_⟩
    intro a s' seen hs
    exact (step_of_sharedMem hs).leavesRecord (halt.started hr) hacc hw

def upKey : List Action := [.getchar 27, .getchar 91, .getchar 65]

/-- The reader opens the semaphores, a message is published and printed, and another one
is published. -/
def twoUpdates : List Action :=
  [Action.startReader, .reader, .reader] ++ upKey ++ List.replicate 4 Action.writer ++
    List.replicate 4 Action.reader ++ upKey ++ List.replicate 4 Action.writer

theorem handshake_twoUpdates : ∃ s tr,
    exec (sharedMem.when undisturbed) (writerReady ⟨7, .state0, []⟩) twoUpdates = some (s, tr) ∧
      printed tr = [record 7 1] ∧ published tr = [record 7 1, record 7 2] ∧
      printed tr <+: published tr ∧ (published tr).length ≤ (printed tr).length + 1 ∧
      s.semWrite.getD 0 + s.semRead.getD 0 + holders s = 1 ∧
      (s.reader.inAccess = true → s.writer.inAccess = false ∧
        ∀ a s' seen, sharedMem s a = some (s', seen) → LeavesRecord s s' seen) := by
  obtain ⟨s, tr, hrun, hpc, hprinted, hpublished⟩ : ∃ s tr,
      exec (sharedMem.when undisturbed) (writerReady ⟨7, .state0, []⟩) twoUpdates = some (s, tr) ∧
      s.writer = .getKey ∧ printed tr = [record 7 1] ∧
      published tr = [record 7 1, record 7 2] := by decide +kernel
  exact ⟨s, tr, hrun, hprinted, hpublished, handshake (Reaches.of_exec hrun) (by rw [hpc]; rfl)⟩

end LinuxOddsAndEnds.Ipc.SharedMem
