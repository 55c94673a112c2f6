import LinuxOddsAndEnds.Ipc.SharedMemKeys

/-!
# Both programs of the shared memory exit

A token passes between the two programs, and the writer leaves a second one when it goes. A
reader that creates `sem_write` before the writer does makes a session without a token: there
the first arrow leaves both programs waiting for good.
-/

namespace LinuxOddsAndEnds.Ipc.SharedMem

open Foundation
open PipeUnnamed (loopExit)

def uninterrupted : Action → Bool
  | .writerInterrupted | .readerInterrupted | .newSession => false
  | _ => true

/-- There is at most one token, until the writer leaves its own. -/
structure Opened (s : Processes) : Prop where
  semWrite : s.semWrite.isSome ∨ (s.writer.beforeSemWrite = true ∧ s.reader.starting = true)
  semRead : s.semRead.isSome ∨ (s.writer.starting = true ∧ s.reader.beforeSemRead = true)
  bound : tokens s ≤ s.semWrite.isSome.toNat + s.writer.hasExited.toNat
  fresh : s.writer.starting = true → s.reader.inAccess = false ∧ s.semRead.getD 0 = 0

section Tokens

variable {s s' : Processes} {tr seen : List Seen}

theorem Opened.tokens_le (h : Opened s) : tokens s ≤ 2 := by
  have hle := h.bound
  have hone : s.semWrite.isSome.toNat ≤ 1 := Bool.toNat_le _
  have hone' : s.writer.hasExited.toNat ≤ 1 := Bool.toNat_le _
  omega

theorem Opened.semPost_read {n : ℕ} (h : Opened s) (hn : s.semRead = some n) :
    semPost (some n) = some (n + 1) := by
  have hle := h.tokens_le
  simp only [tokens, hn, Option.getD_some] at hle
  refine semPost_of_lt (lt_of_le_of_lt ?_ (show 2 < semValueMax by decide))
  omega

theorem Opened.semPost_write {n : ℕ} (h : Opened s) (hn : s.semWrite = some n) :
    semPost (some n) = some (n + 1) := by
  have hle := h.tokens_le
  simp only [tokens, hn, Option.getD_some] at hle
  refine semPost_of_lt (lt_of_le_of_lt ?_ (show 2 < semValueMax by decide))
  omega

@[simp] theorem getD_semOpen_zero (sem : Option ℕ) : (semOpen 0 sem).getD 0 = sem.getD 0 := rfl

/-- Tokens are made where `sem_write` is created and in the writer's last post. -/
def Minted (s s' : Processes) : Prop :=
  tokens s' = tokens s ∨
    tokens s' = tokens s + 1 ∧ (s.semWrite = none ∨ s.writer = .shutdownPost)

theorem Opened.move (h : Opened s) (hwrite : s'.semWrite = s.semWrite)
    (hread : s'.semRead = s.semRead) (hwriter : s'.writer.inAccess = s.writer.inAccess)
    (hreader : s'.reader.inAccess = s.reader.inAccess)
    (hbefore : s'.writer.beforeSemWrite = s.writer.beforeSemWrite)
    (hstarting : s'.writer.starting = s.writer.starting)
    (hexited : s'.writer.hasExited = s.writer.hasExited)
    (hbefore' : s'.reader.beforeSemRead = s.reader.beforeSemRead)
    (hstarting' : s'.reader.starting = s.reader.starting) : Opened s' ∧ Minted s s' := by
  have htokens : tokens s' = tokens s := by
    rw [tokens, tokens, holders, holders, hwrite, hread, hwriter, hreader]
  refine ⟨⟨?_, ?_, ?_, ?_⟩, Or.inl htokens⟩
  · rw [hwrite, hbefore, hstarting']
    exact h.semWrite
  · rw [hread, hstarting, hbefore']
    exact h.semRead
  · rw [htokens, hwrite, hexited]
    exact h.bound
  · rw [hstarting, hreader, hread]
    exact h.fresh

theorem Opened.writerStep (h : Opened s) (hs : Step s .writer s' seen) :
    Opened s' ∧ Minted s s' := by
  obtain ⟨hw, hr, ht, hf⟩ := id h
  cases hs with
  | writerInit hpc => apply h.move <;> simp [hpc]
  | writerOpenSemWrite hpc =>
    cases hsem : s.semWrite <;> refine ⟨⟨?_, ?_, ?_, ?_⟩, ?_⟩ <;>
      simp_all [tokens, holders, semOpen, Minted]
  | writerOpenSemRead hpc =>
    cases hsem : s.semRead <;> refine ⟨⟨?_, ?_, ?_, ?_⟩, ?_⟩ <;>
      simp_all [tokens, holders, semOpen, Minted]
  | writerWait n hpc hsem =>
    refine ⟨⟨?_, ?_, ?_, ?_⟩, ?_⟩ <;> simp_all [tokens, holders, Minted]
    all_goals omega
  | setState state running hpc => apply h.move <;> simp [hpc]
  | format hpc => apply h.move <;> simp [hpc]
  | writerPost hpc =>
    have hsome : s.semRead.isSome := by simpa [hpc] using hr
    obtain ⟨n, hn⟩ := Option.isSome_iff_exists.mp hsome
    have hpost := h.semPost_read hn
    cases hrun : s.writerRunning <;> refine ⟨⟨?_, ?_, ?_, ?_⟩, ?_⟩ <;>
      simp_all [tokens, holders, Minted, WriterPc.loopHead] <;> omega
  | shutdownState hpc => apply h.move <;> simp [hpc]
  | shutdownPost hpc =>
    have hsome : s.semRead.isSome := by simpa [hpc] using hr
    obtain ⟨n, hn⟩ := Option.isSome_iff_exists.mp hsome
    have hpost := h.semPost_read hn
    refine ⟨⟨?_, ?_, ?_, ?_⟩, ?_⟩ <;> simp_all [tokens, holders, Minted] <;> omega

theorem Opened.readerStep (h : Opened s) (hs : Step s .reader s' seen) :
    Opened s' ∧ Minted s s' := by
  obtain ⟨hw, hr, ht, hf⟩ := id h
  cases hs with
  | readerOpenSemRead hpc =>
    cases hsem : s.semRead <;> refine ⟨⟨?_, ?_, ?_, ?_⟩, ?_⟩ <;>
      simp_all [tokens, holders, semOpen, Minted]
  | readerOpenSemWrite hpc =>
    cases hsem : s.semWrite <;> refine ⟨⟨?_, ?_, ?_, ?_⟩, ?_⟩ <;>
      simp_all [tokens, holders, semOpen, Minted]
    omega
  | readerWait n hpc hsem =>
    refine ⟨⟨?_, ?_, ?_, ?_⟩, ?_⟩ <;> simp_all [tokens, holders, Minted]
    all_goals omega
  | print hpc => apply h.move <;> simp [hpc]
  | testState hpc => apply h.move <;> simp [hpc]
  | readerPost hpc =>
    have hsome : s.semWrite.isSome := by simpa [hpc] using hw
    obtain ⟨n, hn⟩ := Option.isSome_iff_exists.mp hsome
    have hpost := h.semPost_write hn
    cases hrun : s.readerRunning <;> refine ⟨⟨?_, ?_, ?_, ?_⟩, ?_⟩ <;>
      simp_all [tokens, holders, Minted] <;> omega

theorem Opened.step {a : Action} (h : Opened s) (ha : uninterrupted a = true)
    (hs : Step s a s' seen) : Opened s' ∧ Minted s s' := by
  cases a with
  | startWriter pid =>
    cases hs with
    | startWriter _ hpc => apply h.move <;> simp [hpc]
  | startReader =>
    cases hs with
    | startReader hpc => apply h.move <;> simp [hpc]
    | noBackingFile => exact ⟨h, Or.inl rfl⟩
  | getchar ch =>
    cases hs with
    | quit hpc => apply h.move <;> simp [hpc]
    | key _ pc v hpc hnext =>
      obtain ⟨hacc, hbefore, hstart⟩ := WriterPc.of_atKeys hpc
      obtain ⟨hacc', hbefore', hstart'⟩ := WriterPc.of_atKeys hnext
      obtain ⟨-, hexit⟩ := WriterPc.key_of_atKeys hpc
      obtain ⟨-, hexit'⟩ := WriterPc.key_of_atKeys hnext
      exact h.move rfl rfl (hacc'.trans hacc.symm) rfl (hbefore'.trans hbefore.symm)
        (hstart'.trans hstart.symm) (hexit'.trans hexit.symm) rfl rfl
  | writer => exact h.writerStep hs
  | reader => exact h.readerStep hs
  | writerInterrupted | readerInterrupted | newSession => cases ha

theorem Minted.le (h : Minted s s') : tokens s ≤ tokens s' := by
  rcases h with he | ⟨he, -⟩ <;> omega

theorem Opened.unread_eq (h : Opened s) (hacc : s.writer.inAccess = true)
    (hexit : s.writer.hasExited = false) : unread s = 0 := by
  have hle := h.bound
  have hone : s.semWrite.isSome.toNat ≤ 1 := Bool.toNat_le _
  have hprint := unread_le_holders s
  simp only [tokens, holders, hacc, hexit, Bool.toNat_true, Bool.toNat_false] at hle
  unfold unread
  omega

theorem WriterPc.staying {pc : WriterPc} (hleave : pc.leaving = false) : pc.hasExited = false := by
  cases pc <;> simp_all

/-- A reader at its access finds the writer started and not at its own, unless it is leaving. -/
theorem Opened.not_both (h : Opened s) (hacc : s.reader.inAccess = true)
    (hleave : s.writer.leaving = false) :
    s.writer.inAccess = false ∧ s.writer.starting = false := by
  have hle := h.bound
  have hone : s.semWrite.isSome.toNat ≤ 1 := Bool.toNat_le _
  constructor
  · by_contra hin
    rw [Bool.not_eq_false] at hin
    simp only [tokens, holders, hacc, hin, WriterPc.staying hleave, Bool.toNat_true,
      Bool.toNat_false] at hle
    omega
  · by_contra hstart
    rw [Bool.not_eq_false] at hstart
    rw [(h.fresh hstart).1] at hacc
    cases hacc

end Tokens

/-- What was published is printed or unread; the writer's last post makes the last buffer unread
once more. -/
structure Relayed (s : Processes) (tr : List Seen) : Prop where
  flow : printed tr ++ List.replicate (unread s) s.sharedData512.buffer =
    published tr ++ List.replicate s.writer.hasExited.toNat s.sharedData512.buffer
  handed : published tr ≠ [] → 0 < tokens s

/-- How the end comes: the state says so, the reader sees it and stops. -/
structure Ending (s : Processes) : Prop where
  running : s.writerRunning = false → s.writer.decided = true ∨ s.writer.leaving = true
  looped : s.writer.marked = true → s.writer.leaving = false →
    s.sharedData512.state = .state2 → s.writerRunning = false
  left : s.writer = .shutdownPost ∨ s.writer = .exited → s.sharedData512.state = .state2
  stopping : s.readerRunning = false → s.writer.leaving = true ∧
    s.semRead.getD 0 ≤ s.writer.hasExited.toNat ∧ (s.reader = .postSemWrite ∨ s.reader = .exited)
  stopped : s.reader = .exited → s.readerRunning = false
  woken : s.writer = .exited → s.readerRunning = true →
    0 < s.semRead.getD 0 ∨ s.reader = .print ∨ s.reader = .testState

section Relay

variable {s s' : Processes} {tr seen : List Seen}

theorem Relayed.keep (h : Relayed s tr) (hminted : Minted s s') (hpublished : published seen = [])
    (hprinted : printed seen = []) (hexited : s'.writer.hasExited = s.writer.hasExited)
    (hunread : unread s' = unread s)
    (hbuffer : s'.sharedData512.buffer = s.sharedData512.buffer ∨
      unread s = 0 ∧ s.writer.hasExited = false) : Relayed s' (tr ++ seen) := by
  refine ⟨?_, fun hne => ?_⟩
  · rw [published_append, printed_append, hpublished, hprinted, List.append_nil, List.append_nil,
      hunread, hexited]
    rcases hbuffer with he | ⟨hzero, hstay⟩
    · rw [he]
      exact h.flow
    · have hflow := h.flow
      rw [hzero, hstay] at hflow ⊢
      exact hflow
  · rw [published_append, hpublished, List.append_nil] at hne
    exact (h.handed hne).trans_le hminted.le

theorem Relayed.posted (h : Relayed s tr) (ho : Opened s) (hpc : s.writer = .postSemRead)
    (hm : Minted s { s with semRead := semPost s.semRead, writer := .loopHead s.writerRunning }) :
    Relayed { s with semRead := semPost s.semRead, writer := .loopHead s.writerRunning }
      (tr ++ [Seen.posted .writer, .published s.sharedData512.buffer]) := by
  have hzero := ho.unread_eq (by simp [hpc]) (by simp [hpc])
  obtain ⟨n, hn⟩ : ∃ n, s.semRead = some n :=
    Option.isSome_iff_exists.mp (by simpa [hpc] using ho.semRead)
  have hnext : (semPost s.semRead).getD 0 + s.reader.printing.toNat = 1 := by
    rw [hn, ho.semPost_read hn, Option.getD_some]
    simp only [unread, hn, Option.getD_some] at hzero
    omega
  have hstay : (WriterPc.loopHead s.writerRunning).hasExited = false := by
    cases s.writerRunning <;> rfl
  have hflow := h.flow
  have held : 0 < tokens s := by simp [tokens, holders, hpc]
  refine ⟨?_, fun _ => held.trans_le hm.le⟩
  simp only [hzero, hpc, WriterPc.hasExited, Bool.toNat_false, List.replicate_zero,
    List.append_nil] at hflow
  rw [published_append, printed_append, hflow]
  simp only [unread, hnext, hstay]
  simp [published, printed]

theorem Relayed.shutdown (h : Relayed s tr) (ho : Opened s) (hpc : s.writer = .shutdownPost)
    (hm : Minted s { s with semRead := semPost s.semRead, writer := .exited }) :
    Relayed { s with semRead := semPost s.semRead, writer := .exited }
      (tr ++ [Seen.posted .writer, .shutdown]) := by
  obtain ⟨n, hn⟩ : ∃ n, s.semRead = some n :=
    Option.isSome_iff_exists.mp (by simpa [hpc] using ho.semRead)
  have hflow := h.flow
  have hnext : (semPost s.semRead).getD 0 + s.reader.printing.toNat = unread s + 1 := by
    rw [unread, hn, ho.semPost_read hn, Option.getD_some, Option.getD_some]
    omega
  refine ⟨?_, fun hne => (h.handed (by simpa [published] using hne)).trans_le hm.le⟩
  simp only [hpc, WriterPc.hasExited, Bool.toNat_false, List.replicate_zero,
    List.append_nil] at hflow
  rw [published_append, printed_append, ← hflow]
  simp only [unread, hnext]
  simp [published, printed, List.replicate_succ']

theorem Relayed.print (h : Relayed s tr) (hpc : s.reader = .print)
    (hm : Minted s { s with reader := .testState }) :
    Relayed { s with reader := .testState }
      (tr ++ [Seen.touched .reader, .printed s.sharedData512.buffer]) := by
  have hflow := h.flow
  have hnext : unread s = unread { s with reader := .testState } + 1 := by
    simp [unread, hpc]
  refine ⟨?_, fun hne => (h.handed (by simpa [published] using hne)).trans_le hm.le⟩
  rw [hnext, List.replicate_succ] at hflow
  rw [published_append, printed_append]
  simpa [published, printed] using hflow

theorem Relayed.step {a : Action} (h : Relayed s tr) (ho : Opened s)
    (ha : uninterrupted a = true) (hs : Step s a s' seen) : Relayed s' (tr ++ seen) := by
  obtain ⟨ho', hm⟩ := ho.step ha hs
  obtain ⟨hw, hr, ht, hf⟩ := id ho
  cases hs with
  | writerInterrupted | readerInterrupted | newSession => cases ha
  | startWriter _ hpc => apply h.keep hm rfl rfl <;> simp [hpc, unread]
  | startReader hpc => apply h.keep hm rfl rfl <;> simp [hpc, unread]
  | noBackingFile hpc => apply h.keep hm rfl rfl <;> simp
  | quit hpc => apply h.keep hm rfl rfl <;> simp [hpc, unread]
  | key _ pc v hpc hnext =>
    obtain ⟨-, hexit⟩ := WriterPc.key_of_atKeys hpc
    obtain ⟨-, hexit'⟩ := WriterPc.key_of_atKeys hnext
    exact h.keep hm rfl rfl (hexit'.trans hexit.symm) rfl (Or.inl rfl)
  | writerInit hpc => apply h.keep hm rfl rfl <;> simp [hpc, unread]
  | writerOpenSemWrite hpc => apply h.keep hm rfl rfl <;> simp [hpc, unread]
  | writerOpenSemRead hpc => apply h.keep hm rfl rfl <;> simp_all [unread, semOpen]
  | writerWait n hpc => apply h.keep hm rfl rfl <;> simp [hpc, unread]
  | setState state running hpc => apply h.keep hm rfl rfl <;> simp [hpc, unread]
  | format hpc =>
    have hzero := ho.unread_eq (by simp [hpc]) (by simp [hpc])
    exact h.keep hm rfl rfl (by simp [hpc]) rfl (Or.inr ⟨hzero, by simp [hpc]⟩)
  | writerPost hpc => exact h.posted ho hpc hm
  | shutdownState hpc => apply h.keep hm rfl rfl <;> simp [hpc, unread]
  | shutdownPost hpc => exact h.shutdown ho hpc hm
  | readerOpenSemRead hpc => apply h.keep hm rfl rfl <;> simp_all [unread, semOpen]
  | readerOpenSemWrite hpc => apply h.keep hm rfl rfl <;> simp_all [unread]
  | readerWait n hpc hsem => apply h.keep hm rfl rfl <;> simp [hpc, hsem, unread]
  | print hpc => exact h.print hpc hm
  | testState hpc => apply h.keep hm rfl rfl <;> simp [hpc, unread]
  | readerPost hpc =>
    apply h.keep hm rfl rfl
    · rfl
    · cases s.readerRunning <;> simp [hpc, unread]
    · exact Or.inl rfl

theorem Ending.at_keys (h : Ending s) (hkeys : s.writer.atKeys = true) :
    s.writerRunning = true := by
  by_contra hstop
  have hrun := h.running (by simpa using hstop)
  cases hpc : s.writer <;> simp_all

theorem Ending.key {pc : WriterPc} (h : Ending s) (hfrom : s.writer.atKeys = true)
    (hto : pc.atKeys = true) (v : BitVec 32) : Ending { s with writer := pc, fileVal := v } := by
  have hrun := h.at_keys hfrom
  have hnext : pc.leaving = false ∧ pc ≠ .shutdownPost ∧ pc ≠ .exited := by
    cases pc <;> simp_all
  have hold : s.writer.leaving = false ∧ s.writer.marked = true := by
    cases hpc : s.writer <;> simp_all
  have hactive : s.readerRunning ≠ false := by
    intro hr
    have hleave := (h.stopping hr).1
    rw [hold.1] at hleave
    cases hleave
  exact ⟨fun hstop => absurd (hrun.symm.trans hstop) (by simp), fun _ _ => h.looped hold.2 hold.1,
    fun hend => absurd hend (not_or.mpr hnext.2), fun hr => absurd hr hactive, h.stopped,
    fun hexit => absurd hexit hnext.2.2⟩

/-- The reader that sees the end holds the last token but the writer's own. -/
theorem Ending.tested (h : Ending s) (ho : Opened s) (hpc : s.reader = .testState) :
    Ending { s with
      readerRunning := s.readerRunning && s.sharedData512.state != .state2
      reader := .postSemWrite } := by
  have hactive : s.readerRunning = true := by
    by_contra hr
    have hreader := (h.stopping (by simpa using hr)).2.2
    simp [hpc] at hreader
  refine ⟨h.running, h.looped, h.left, fun hr => ?_, by simp, fun hexit hr => ?_⟩
  · have hstate : s.sharedData512.state = .state2 := by simpa [hactive] using hr
    have hleave : s.writer.leaving = true := by
      by_contra hstay
      rw [Bool.not_eq_true] at hstay
      obtain ⟨hacc, hstart⟩ := ho.not_both (by simp [hpc]) hstay
      have hrun := h.looped (by cases hw : s.writer <;> simp_all) hstay hstate
      have hend := h.running hrun
      cases hw : s.writer <;> simp_all
    refine ⟨hleave, ?_, Or.inl rfl⟩
    have hle := ho.bound
    have hone : s.semWrite.isSome.toNat ≤ 1 := Bool.toNat_le _
    simp only [tokens, holders, hpc, ReaderPc.inAccess, Bool.toNat_true] at hle
    change s.semRead.getD 0 ≤ s.writer.hasExited.toNat
    omega
  · have hstate := h.left (Or.inr hexit)
    simp [hstate] at hr

theorem Ending.step {a : Action} (h : Ending s) (ho : Opened s) (ha : uninterrupted a = true)
    (hs : Step s a s' seen) : Ending s' := by
  obtain ⟨hrun, hloop, hleft, hstopping, hstopped, hwoken⟩ := id h
  cases hs with
  | writerInterrupted | readerInterrupted | newSession => cases ha
  | startWriter _ hpc => constructor <;> simp_all
  | startReader hpc => constructor <;> simp_all
  | noBackingFile hpc => exact h
  | quit hpc => constructor <;> simp_all
  | key _ pc v hpc hnext => exact h.key hpc hnext v
  | writerInit hpc => constructor <;> simp_all
  | writerOpenSemWrite hpc => constructor <;> simp_all
  | writerOpenSemRead hpc => constructor <;> simp_all
  | writerWait n hpc => constructor <;> simp_all
  | setState state running hpc hset =>
    rcases hset with ⟨-, rfl, rfl⟩ | ⟨-, rfl, rfl⟩ <;> constructor <;> simp_all
  | format hpc => constructor <;> simp_all
  | writerPost hpc =>
    cases hcase : s.writerRunning <;> constructor <;> simp_all [WriterPc.loopHead]
  | shutdownState hpc => constructor <;> simp_all
  | shutdownPost hpc =>
    obtain ⟨n, hn⟩ : ∃ n, s.semRead = some n :=
      Option.isSome_iff_exists.mp (by simpa [hpc] using ho.semRead)
    refine ⟨by simp, by simp, fun _ => hleft (Or.inl hpc), fun hr => ?_, hstopped,
      fun _ _ => Or.inl ?_⟩
    · obtain ⟨-, hle, hreader⟩ := hstopping hr
      rw [hn, hpc] at hle
      refine ⟨rfl, ?_, hreader⟩
      rw [hn, ho.semPost_read hn]
      simpa using hle
    · rw [hn, ho.semPost_read hn]
      exact Nat.succ_pos n
  | readerOpenSemRead hpc => constructor <;> simp_all
  | readerOpenSemWrite hpc => constructor <;> simp_all
  | readerWait n hpc hsem => constructor <;> simp_all
  | print hpc => constructor <;> simp_all
  | testState hpc => exact h.tested ho hpc
  | readerPost hpc =>
    cases hcase : s.readerRunning <;> constructor <;> simp_all

end Relay

/-- What is left of the writer's program. The room for a record stands at the wait. -/
def WriterPc.weight : WriterPc → ℕ
  | .waitSemWrite => 15
  | .setState => 14
  | .format => 13
  | .postSemRead => 12
  | .notStarted => 11
  | .init => 10
  | .openSemWrite => 9
  | .openSemRead => 8
  | .getKey | .getBracket | .getArrow => 7
  | .shutdownState => 6
  | .shutdownPost => 5
  | .exited => 0

def ReaderPc.weight : ReaderPc → ℕ
  | .notStarted | .print => 4
  | .openSemRead | .testState => 3
  | .openSemWrite | .postSemWrite => 2
  | .waitSemRead => 1
  | .exited => 0

/-- A key costs at most a record, and a token in `sem_read` a turn of the reader. -/
def weight (t : Session) : ℕ :=
  9 * t.stdin.length + t.processes.writer.weight + t.processes.reader.weight +
    4 * t.processes.semRead.getD 0

section Weight

variable {pid : BitVec 32} {t t' : Session} {seen : List Seen}

theorem weight_atKeys {pc : WriterPc} (h : pc.atKeys = true) : 7 ≤ pc.weight ∧ pc.weight ≤ 15 := by
  cases pc <;> first | (constructor <;> decide) | cases h

theorem getD_semPost_le (sem : Option ℕ) : (semPost sem).getD 0 ≤ sem.getD 0 + 1 := by
  cases sem with
  | none => exact Nat.zero_le _
  | some n =>
    simp only [semPost, Option.map_some, Option.getD_some]
    split_ifs <;> omega

theorem key_weight {ch : ℤ} (hstdin : t.stdin = ch :: t'.stdin)
    (hs : writerKey ch t.processes = some (t'.processes, seen)) : weight t' < weight t := by
  obtain ⟨stdin, s'⟩ := t'
  simp only at hstdin hs
  cases step_writerKey hs with
  | quit hpc =>
    simp only [weight, hstdin, hpc, WriterPc.weight, List.length_cons]
    omega
  | key _ pc v hpc hnext =>
    have hold := weight_atKeys hpc
    have hnew := weight_atKeys hnext
    simp only [weight, hstdin, List.length_cons]
    omega

theorem program_weight {a : Action} (hstdin : t'.stdin = t.stdin)
    (hgetchar : ∀ ch, a ≠ .getchar ch) (hexpected : expected pid t.processes a = true)
    (hs : Step t.processes a t'.processes seen) : weight t' < weight t := by
  obtain ⟨stdin, s'⟩ := t'
  obtain rfl : stdin = t.stdin := hstdin
  simp only at hs
  have hpost := getD_semPost_le t.processes.semRead
  cases hs with
  | quit | key => exact absurd rfl (hgetchar _)
  | writerInterrupted | readerInterrupted | newSession => cases hexpected
  | noBackingFile hpc hfile =>
    rw [expected, hfile] at hexpected
    cases hexpected
  | writerPost hpc =>
    have hhead : (WriterPc.loopHead t.processes.writerRunning).weight ≤ 7 := by
      cases t.processes.writerRunning <;> decide
    simp only [weight, hpc]
    have hpc' : WriterPc.postSemRead.weight = 12 := rfl
    omega
  | readerPost hpc =>
    cases hrun : t.processes.readerRunning <;> simp [weight, hpc, ReaderPc.weight]
  | writerWait n hpc hsem => simp [weight, hpc, WriterPc.weight]
  | readerWait n hpc hsem =>
    simp only [weight, hpc, hsem, ReaderPc.weight, Option.getD_some]
    omega
  | startReader hpc hfile => simp [weight, hpc, ReaderPc.weight]
  | startWriter _ hpc | writerInit hpc | writerOpenSemWrite hpc | writerOpenSemRead hpc
  | setState _ _ hpc | format hpc | shutdownState hpc => simp [weight, hpc, WriterPc.weight]
  | shutdownPost hpc =>
    simp only [weight, hpc, WriterPc.weight]
    omega
  | readerOpenSemRead hpc | readerOpenSemWrite hpc | print hpc | testState hpc =>
    simp [weight, hpc, ReaderPc.weight]

theorem weight_decreases (pid : BitVec 32) : Decreases (keyed pid) (fun _ => True) weight := by
  intro t p t' seen _ hs
  refine ⟨trivial, ?_⟩
  rcases keyed_cases hs with ⟨ch, hstdin, hkey⟩ | ⟨hstdin, a, hgetchar, hexpected, hstep⟩
  · exact key_weight hstdin hkey
  · exact program_weight hstdin hgetchar hexpected hstep

end Weight

/-- Both programs have exited, and the reader has printed what the keys ask for; it prints the
last buffer once more if it takes the writer's last post. -/
structure Delivered (pid : BitVec 32) (keys : List ℤ) (d : SharedData512) (t : Session)
    (tr : List Seen) : Prop where
  writer : t.processes.writer = .exited
  reader : t.processes.reader = .exited
  published : published tr = requests pid keys
  printed : printed tr = requests pid keys ++
    List.replicate (1 - t.processes.semRead.getD 0) ((requests pid keys).getLastD d.buffer)

structure SessionSound (pid : BitVec 32) (keys : List ℤ) (d : SharedData512) (t : Session)
    (tr : List Seen) : Prop where
  keySound : KeySound pid keys d t tr
  opened : Opened t.processes
  relayed : Relayed t.processes tr
  ending : Ending t.processes

section Runs

variable {pid : BitVec 32} {keys : List ℤ} {backingFile : Bool} {d : SharedData512}
  {t t' : Session} {tr seen : List Seen} {p : Party}

theorem uninterrupted_of_expected {s : Processes} {a : Action} (h : expected pid s a = true) :
    uninterrupted a = true := by
  cases a <;> first | rfl | cases h

theorem keyed_step (hs : keyed pid t p = some (t', seen)) :
    ∃ a, uninterrupted a = true ∧ Step t.processes a t'.processes seen := by
  rcases keyed_cases hs with ⟨ch, -, hkey⟩ | ⟨-, a, -, hexpected, hstep⟩
  · exact ⟨.getchar ch, rfl, step_writerKey hkey⟩
  · exact ⟨a, uninterrupted_of_expected hexpected, hstep⟩

theorem sound_firstSession (pid : BitVec 32) (keys : List ℤ) (backingFile : Bool)
    (d : SharedData512) : SessionSound pid keys d (firstSession keys backingFile d) [] where
  keySound := keySound_firstSession pid keys backingFile d
  opened := ⟨Or.inr ⟨rfl, rfl⟩, Or.inr ⟨rfl, rfl⟩, Nat.le_refl _, fun _ => ⟨rfl, rfl⟩⟩
  relayed := ⟨rfl, fun hne => absurd rfl hne⟩
  ending := ⟨nofun, nofun, by simp [firstSession, beforeFirstSession], nofun, nofun, nofun⟩

theorem sound_of_reaches (h : Reaches (keyed pid) (firstSession keys backingFile d) t tr) :
    SessionSound pid keys d t tr := by
  refine h.invariant (sound_firstSession pid keys backingFile d) fun t tr p t' seen hi hs => ?_
  obtain ⟨a, ha, hstep⟩ := keyed_step hs
  exact ⟨hi.keySound.step hs, (hi.opened.step ha hstep).1, hi.relayed.step hi.opened ha hstep,
    hi.ending.step hi.opened ha hstep⟩

theorem semWait_eq_none {sem : Option ℕ} (h : semWait sem = none) : sem.getD 0 = 0 := by
  match sem with
  | none | some 0 => rfl
  | some (n + 1) => cases h

theorem writer_stop (hk : KeySound pid keys d t tr) (hkeys : loopExit .key 0 keys ≠ none)
    (hstop : keyed pid t .writer = none) :
    t.processes.writer = .exited ∨
      t.processes.writer = .waitSemWrite ∧ t.processes.semWrite.getD 0 = 0 := by
  have hended := hk.ended
  rw [Option.isSome_iff_ne_none.mpr hkeys] at hended
  cases hpc : t.processes.writer
  case exited => exact Or.inl rfl
  case waitSemWrite =>
    refine Or.inr ⟨rfl, semWait_eq_none ?_⟩
    simpa [keyed, writerNext, hpc, sharedMem, writerStep] using hstop
  case getKey | getBracket | getArrow =>
    cases hstdin : t.stdin with
    | nil => simp [ends, hpc, hstdin, loopExit] at hended
    | cons ch stdin =>
      simp only [keyed, writerNext, hpc, hstdin, sharedMem, writerKey, Option.bind_some,
        Option.map_eq_none_iff] at hstop
      split_ifs at hstop
  case setState =>
    simp only [keyed, writerNext, hpc, sharedMem, writerStep, Option.bind_some,
      Option.map_eq_none_iff] at hstop
    split_ifs at hstop
  all_goals simp [keyed, writerNext, hpc, sharedMem, writerStep, startWriter] at hstop

theorem reader_stop (hstop : keyed pid t .reader = none) :
    t.processes.reader = .exited ∨
      t.processes.reader = .waitSemRead ∧ t.processes.semRead.getD 0 = 0 ∨
      t.processes.reader = .notStarted ∧ t.processes.backingFile = false := by
  cases hpc : t.processes.reader
  case exited => exact Or.inl rfl
  case waitSemRead =>
    refine Or.inr (Or.inl ⟨rfl, semWait_eq_none ?_⟩)
    simpa [keyed, readerNext, hpc, sharedMem, readerStep] using hstop
  case notStarted =>
    refine Or.inr (Or.inr ⟨rfl, ?_⟩)
    by_contra hfile
    rw [Bool.not_eq_false] at hfile
    simp [keyed, readerNext, hpc, sharedMem, startReader, hfile] at hstop
  all_goals simp [keyed, readerNext, hpc, sharedMem, readerStep] at hstop

/-- Where neither program can go on, both have exited, unless the writer lacks a token. -/
theorem session_stop (h : SessionSound pid keys d t tr) (hkeys : loopExit .key 0 keys ≠ none)
    (htoken : requests pid keys = [] ∨ 0 < tokens t.processes)
    (hstop : ∀ p, keyed pid t p = none) :
    t.processes.writer = .exited ∧ t.processes.reader = .exited := by
  obtain ⟨hk, ho, hr, he⟩ := h
  rcases writer_stop hk hkeys (hstop .writer) with hwriter | ⟨hwriter, hwrite⟩
  · refine ⟨hwriter, ?_⟩
    rcases reader_stop (hstop .reader) with hreader | ⟨hreader, hread⟩ | ⟨-, hfile⟩
    · exact hreader
    · have hactive : t.processes.readerRunning = true := by
        by_contra hstopped
        have hpc := (he.stopping (by simpa using hstopped)).2.2
        simp [hreader] at hpc
      have hwoken := he.woken hwriter hactive
      simp [hreader, hread] at hwoken
    · rw [hk.file (by simp [hwriter])] at hfile
      cases hfile
  · have hasked : requests pid keys ≠ [] := by
      have haccount := hk.account
      simp only [pending, hwriter, List.map_cons] at haccount
      rw [← haccount]
      simp
    have hheld := htoken.resolve_left hasked
    rcases reader_stop (hstop .reader) with hreader | ⟨hreader, hread⟩ | ⟨-, hfile⟩
    · have hleave := (he.stopping (he.stopped hreader)).1
      simp [hwriter] at hleave
    · simp [tokens, holders, hwriter, hreader, hwrite, hread] at hheld
    · rw [hk.file (by simp [hwriter])] at hfile
      cases hfile

theorem delivered_of_exited (h : SessionSound pid keys d t tr)
    (hwriter : t.processes.writer = .exited) (hreader : t.processes.reader = .exited) :
    Delivered pid keys d t tr := by
  obtain ⟨hk, ho, hr, he⟩ := h
  have haccount := hk.account
  have hbuffer := hk.buffer
  have hflow := hr.flow
  have hread := (he.stopping (he.stopped hreader)).2.1
  simp only [pending, hwriter, List.map_nil, List.append_nil] at haccount
  simp only [hwriter, reduceCtorEq, if_false] at hbuffer
  refine ⟨hwriter, hreader, haccount, ?_⟩
  rw [← haccount, ← hbuffer]
  simp only [unread, hwriter, hreader, WriterPc.hasExited, ReaderPc.printing, Bool.toNat_true,
    Bool.toNat_false, Nat.add_zero] at hflow hread
  cases hleft : t.processes.semRead.getD 0 with
  | zero => simpa [hleft] using hflow
  | succ n =>
    obtain rfl : n = 0 := by omega
    rw [hleft] at hflow
    simpa using List.append_cancel_right hflow

theorem tokens_le_of_reaches (hstart : Reaches (keyed pid) (firstSession keys backingFile d) t tr)
    (hreach : Reaches (keyed pid) t t' seen) : tokens t.processes ≤ tokens t'.processes := by
  induction hreach with
  | start => exact Nat.le_refl _
  | next hrun hs ih =>
    obtain ⟨a, ha, hstep⟩ := keyed_step hs
    have hsound := sound_of_reaches (hstart.trans hrun)
    exact ih.trans (hsound.opened.step ha hstep).2.le

/-- A session without a token publishes nothing, and no step makes a token. -/
structure Starved (t : Session) : Prop where
  created : t.processes.semWrite.isSome
  empty : tokens t.processes = 0

theorem Starved.step (h : Starved t) (hsound : SessionSound pid keys d t tr)
    (hasked : requests pid keys ≠ []) (hs : keyed pid t p = some (t', seen)) : Starved t' := by
  obtain ⟨a, ha, hstep⟩ := keyed_step hs
  refine ⟨hstep.isSome_semWrite h.created, ?_⟩
  have hzero := h.empty
  rcases (hsound.opened.step ha hstep).2 with he | ⟨-, hnone | hpc⟩
  · rw [he, hzero]
  · have hcreated := h.created
    simp [hnone] at hcreated
  · -- the writer leaves only after it has published what was asked for
    have haccount := hsound.keySound.account
    simp only [pending, hpc, List.map_nil, List.append_nil] at haccount
    have hheld := hsound.relayed.handed (haccount ▸ hasked)
    omega

theorem Starved.of_reaches (h : Starved t)
    (hstart : Reaches (keyed pid) (firstSession keys backingFile d) t tr)
    (hasked : requests pid keys ≠ []) (hreach : Reaches (keyed pid) t t' seen) : Starved t' := by
  induction hreach with
  | start => exact h
  | next hrun hs ih => exact ih.step (sound_of_reaches (hstart.trans hrun)) hasked hs

theorem Starved.not_delivered (h : Starved t) (hsound : SessionSound pid keys d t tr)
    (hasked : requests pid keys ≠ []) : ¬Delivered pid keys d t tr := by
  intro hdelivered
  have hheld := hsound.relayed.handed (hdelivered.published ▸ hasked)
  rw [h.empty] at hheld
  exact absurd hheld (Nat.lt_irrefl 0)

/-- Some run makes a session without a token of it. -/
def CanStarve (pid : BitVec 32) (t : Session) : Prop :=
  ∃ t' seen, Reaches (keyed pid) t t' seen ∧ Starved t'

theorem CanStarve.before (hs : keyed pid t p = some (t', seen)) (h : CanStarve pid t') :
    CanStarve pid t := by
  obtain ⟨u, rest, hreach, hstarved⟩ := h
  exact ⟨u, seen ++ rest, (Reaches.single hs).trans hreach, hstarved⟩

theorem canStarve_openSemWrite (pid : BitVec 32) (hpc : t.processes.reader = .openSemWrite)
    (hnone : t.processes.semWrite = none) (hempty : tokens t.processes = 0) : CanStarve pid t := by
  have hs : keyed pid t .reader = some (⟨t.stdin,
      { t.processes with semWrite := some 0, reader := .waitSemRead }⟩, []) := by
    simp [keyed, readerNext, hpc, sharedMem, readerStep, hnone, semOpen]
  exact ⟨_, _, Reaches.single hs, rfl, by simpa [tokens, holders, hnone, hpc] using hempty⟩

theorem canStarve_openSemRead (pid : BitVec 32) (hpc : t.processes.reader = .openSemRead)
    (hnone : t.processes.semWrite = none) (hempty : tokens t.processes = 0) : CanStarve pid t := by
  have hs : keyed pid t .reader = some (⟨t.stdin,
      { t.processes with
        semRead := semOpen 0 t.processes.semRead
        reader := .openSemWrite }⟩, []) := by
    simp [keyed, readerNext, hpc, sharedMem, readerStep]
  refine .before hs (canStarve_openSemWrite pid rfl hnone ?_)
  simpa [tokens, holders, hpc] using hempty

theorem canStarve_of_backingFile (pid : BitVec 32) (hfile : t.processes.backingFile = true)
    (hstart : t.processes.reader.starting = true) (hnone : t.processes.semWrite = none)
    (hempty : tokens t.processes = 0) : CanStarve pid t := by
  cases hpc : t.processes.reader <;> rw [hpc] at hstart
  case notStarted =>
    have hs : keyed pid t .reader = some (⟨t.stdin,
        { t.processes with reader := .openSemRead, readerRunning := true }⟩, []) := by
      simp [keyed, readerNext, hpc, sharedMem, startReader, hfile]
    refine .before hs (canStarve_openSemRead pid rfl hnone ?_)
    simpa [tokens, holders, hpc] using hempty
  case openSemRead => exact canStarve_openSemRead pid hpc hnone hempty
  case openSemWrite => exact canStarve_openSemWrite pid hpc hnone hempty
  all_goals cases hstart

/-- Without a token the session lacks one already, or the reader may create `sem_write`. -/
theorem canStarve_of_empty (hsound : SessionSound pid keys d t tr)
    (hempty : tokens t.processes = 0) : CanStarve pid t := by
  cases hsem : t.processes.semWrite with
  | some n => exact ⟨t, [], .start, by simp [hsem], hempty⟩
  | none =>
    have hstart : t.processes.writer.beforeSemWrite = true ∧
        t.processes.reader.starting = true := by
      simpa [hsem] using hsound.opened.semWrite
    by_cases hpc : t.processes.writer = .notStarted
    · have hs : keyed pid t .writer = some (⟨t.stdin, { t.processes with
          backingFile := true, getpid := pid, writer := .init, fileVal := 0
          writerRunning := true }⟩, []) := by
        simp [keyed, writerNext, hpc, sharedMem, startWriter]
      refine .before hs (canStarve_of_backingFile pid rfl hstart.2 hsem ?_)
      simpa [tokens, holders, hpc] using hempty
    · exact canStarve_of_backingFile pid (hsound.keySound.file hpc) hstart.2 hsem hempty

/-- From any state of a session on, every run is bounded and ends with both programs exited and
everything printed, if and only if the keys end the loop and, where they ask for a record, the
writer was the one that created `sem_write`. -/
theorem session_completes_iff (pid : BitVec 32) (keys : List ℤ)
    (h : Reaches (keyed pid) (firstSession keys backingFile d) t tr) :
    Completes (keyed pid) t (weight t) (fun t' tr' => Delivered pid keys d t' (tr ++ tr')) ↔
      loopExit .key 0 keys ≠ none ∧ (requests pid keys = [] ∨ 0 < tokens t.processes) := by
  constructor
  · intro hcompletes
    constructor
    · obtain ⟨t', tr', hreach, hdelivered⟩ :=
        hcompletes.exists_stop (weight_decreases pid) trivial .start
      have hended := (sound_of_reaches (h.trans hreach)).keySound.ended
      simp only [ends, hdelivered.writer] at hended
      exact Option.isSome_iff_ne_none.mp hended.symm
    · by_contra hlacking
      obtain ⟨hasked, hheld⟩ := not_or.mp hlacking
      obtain ⟨t₁, seen, hreach, hstarved⟩ :=
        canStarve_of_empty (sound_of_reaches h) (Nat.eq_zero_of_not_pos hheld)
      obtain ⟨t', tr', hrest, hdelivered⟩ :=
        hcompletes.exists_stop (weight_decreases pid) trivial hreach
      have hrun := (h.trans hreach).trans hrest
      rw [← List.append_assoc] at hdelivered
      exact (hstarved.of_reaches (h.trans hreach) hasked hrest).not_delivered
        (sound_of_reaches hrun) hasked hdelivered
  · rintro ⟨hkeys, htoken⟩
    refine (weight_decreases pid).completes trivial fun t' tr' hreach _ hstop => ?_
    have hsound := sound_of_reaches (h.trans hreach)
    have hheld : requests pid keys = [] ∨ 0 < tokens t'.processes :=
      htoken.imp_right fun hpos => hpos.trans_le (tokens_le_of_reaches h hreach)
    obtain ⟨hwriter, hreader⟩ := session_stop hsound hkeys hheld hstop
    exact delivered_of_exited hsound hwriter hreader

/-- The writer has created both semaphores, with an up arrow and `q` to come. -/
theorem session_completes_quit : ∃ t tr,
    exec (keyed 7) (firstSession [27, 91, 65, 113] false ⟨0, .state0, []⟩)
      (List.replicate 4 .writer) = some (t, tr) ∧
    Completes (keyed 7) t (weight t) (fun t' tr' =>
      Delivered 7 [27, 91, 65, 113] ⟨0, .state0, []⟩ t' (tr ++ tr')) := by
  obtain ⟨t, tr, hrun, hheld⟩ : ∃ t tr,
      exec (keyed 7) (firstSession [27, 91, 65, 113] false ⟨0, .state0, []⟩)
        (List.replicate 4 .writer) = some (t, tr) ∧ 0 < tokens t.processes := by decide +kernel
  exact ⟨t, tr, hrun, (session_completes_iff 7 _ (Reaches.of_exec hrun)).mpr
    ⟨by decide, Or.inr hheld⟩⟩

end Runs

end LinuxOddsAndEnds.Ipc.SharedMem
