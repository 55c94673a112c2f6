import LinuxOddsAndEnds.Ipc.Handshake
import Mathlib.Data.List.DropRight

/-!
# Consecutive sessions

Every writer ends with a post of `sem_read` that no wait of `sem_write` precedes, and
the semaphores keep their values, so each later session starts with too many tokens.
Within the first session that post can only show the reader an old buffer again,
provided that there is an old buffer and that the writer is the one who creates
`sem_write`.
-/

namespace LinuxOddsAndEnds.Ipc.SharedMem

open Foundation

def thisSession (tr : List Seen) : List Seen := tr.rtakeWhile (· != .newSession)

/-- A session begins with one token, a message is overwritten after it was printed, and
nothing is printed before the session's first publication. -/
def sessionOk (pre : List Seen) : Seen → Prop
  | .began semWrite semRead => semWrite = 1 ∧ semRead = 0
  | .formatted => (published (thisSession pre)).Sublist (printed (thisSession pre))
  | .printed _ => published (thisSession pre) ≠ []
  | _ => True

instance decidableSessionOk (pre : List Seen) : ∀ o, Decidable (sessionOk pre o)
  | .began semWrite semRead => inferInstanceAs (Decidable (semWrite = 1 ∧ semRead = 0))
  | .formatted =>
    inferInstanceAs (Decidable ((published (thisSession pre)).Sublist (printed (thisSession pre))))
  | .printed _ => inferInstanceAs (Decidable (published (thisSession pre) ≠ []))
  | .newSession | .waited _ | .posted _ | .touched _ | .published _ | .shutdown => isTrue trivial

/-- A step of an undisturbed first session in which the writer is told to quit only after
it has published. -/
def quitsLater (s : Processes) : Action → Bool
  | .getchar ch => s.writer != .getKey || ch != 113 || s.sharedData512.state != .state0
  | a => undisturbed s a

/-- The writer has set `STATE_0` and is not between its wait and its exit. -/
@[simp] def WriterPc.idle : WriterPc → Bool
  | .openSemWrite | .openSemRead | .getKey | .getBracket | .getArrow | .waitSemWrite => true
  | _ => false

structure FirstSession (s : Processes) (tr : List Seen) : Prop where
  alternating : Alternating s tr
  single : Seen.newSession ∉ tr
  marked : s.writer.idle = true → s.sharedData512.state = .state0 ∨ published tr ≠ []
  left : s.writer.leaving = true → published tr ≠ []
  judged : Judged sessionOk tr

theorem thisSession_eq {tr : List Seen} (h : Seen.newSession ∉ tr) : thisSession tr = tr := by
  refine List.rtakeWhile_eq_self_iff.mpr ?_
  intro o ho
  have hne : o ≠ .newSession := by
    rintro rfl
    exact h ho
  simpa using hne

variable {s s' : Processes} {tr seen : List Seen}

theorem FirstSession.keep (h : FirstSession s tr) (halt : Alternating s' (tr ++ seen))
    (hsingle : Seen.newSession ∉ seen)
    (hmarked : s'.writer.idle = true → s'.sharedData512.state = .state0 ∨
      (s.writer.idle = true ∧ s'.sharedData512.state = s.sharedData512.state) ∨
      published (tr ++ seen) ≠ [])
    (hleft : s'.writer.leaving = true → s.writer.leaving = true ∨ published (tr ++ seen) ≠ [])
    (hjudged : JudgedFrom sessionOk tr seen) : FirstSession s' (tr ++ seen) := by
  have hmono : published tr ≠ [] → published (tr ++ seen) ≠ [] := by
    rw [published_append]
    exact fun hne => List.append_ne_nil_of_left_ne_nil hne _
  refine ⟨halt, ?_, ?_, ?_, h.judged.append hjudged⟩
  · intro hmem
    rcases List.mem_append.mp hmem with hm | hm
    · exact h.single hm
    · exact hsingle hm
  · intro hidle
    rcases hmarked hidle with hz | ⟨hi, he⟩ | hp
    · exact Or.inl hz
    · rw [he]
      exact (h.marked hi).imp_right hmono
    · exact Or.inr hp
  · intro hleave
    rcases hleft hleave with hl | hp
    · exact hmono (h.left hl)
    · exact hp

/-- When the writer has opened both semaphores, nobody has waited yet. -/
theorem FirstSession.began_ok (h : FirstSession s tr) (hpc : s.writer = .openSemRead) :
    s.semWrite.getD 0 = 1 ∧ s.semRead.getD 0 = 0 := by
  obtain ⟨hacc, hread⟩ := h.alternating.fresh (by simp [hpc])
  have hsome : s.semWrite.isSome = true := by simpa [hpc] using h.alternating.counted.semWrite
  have hquit := h.alternating.unquit (by simp [hpc])
  have hcount := h.alternating.counted.count (by rw [hquit]; simp [semValueMax])
  rw [hquit, hsome] at hcount
  rw [tokens, holders, hpc, hacc, hread] at hcount
  exact ⟨by simpa using hcount, hread⟩

theorem FirstSession.formatted_ok (h : FirstSession s tr) (hpc : s.writer = .format) (p : Party) :
    sessionOk (tr ++ [Seen.touched p]) .formatted := by
  have hbuf := h.alternating.buffered (by simp [hpc])
  rw [h.alternating.read_of_access (by simp [hpc]), List.replicate_zero, List.append_nil] at hbuf
  rw [sessionOk, thisSession_eq (by simpa using h.single)]
  simp [hbuf]

theorem FirstSession.printed_ok (h : FirstSession s tr) (hpc : s.reader = .print) (p : Party)
    (buffer : List Byte) : sessionOk (tr ++ [Seen.touched p]) (.printed buffer) := by
  rw [sessionOk, thisSession_eq (by simpa using h.single)]
  cases hleave : s.writer.leaving with
  | true => simpa using h.left hleave
  | false =>
    rw [published_append, h.alternating.buffered hleave]
    simp [unread, hpc]

theorem undisturbed_of_quitsLater {a : Action} (h : quitsLater s a = true) :
    undisturbed s a = true := by
  cases a with
  | getchar => rfl
  | _ => exact h

theorem WriterPc.idle_of_atKeys {pc : WriterPc} (h : pc.atKeys = true) : pc.idle = true := by
  cases pc <;> simp_all

theorem FirstSession.step {a : Action} (h : FirstSession s tr) (hok : quitsLater s a = true)
    (hs : Step s a s' seen) : FirstSession s' (tr ++ seen) := by
  have halt := h.alternating.step (undisturbed_of_quitsLater hok) hs
  have hmarked := h.marked
  cases hs with
  | startWriter _ hpc => apply h.keep halt <;> simp
  | startReader hpc => apply h.keep halt <;> simp +contextual
  | noBackingFile => apply h.keep halt <;> simp +contextual
  | quit hpc =>
    have hstate : s.sharedData512.state ≠ .state0 := by simpa [quitsLater, hpc] using hok
    apply h.keep halt <;> simp_all
  | key _ pc v hpc hnext =>
    have hidle := WriterPc.idle_of_atKeys hpc
    obtain ⟨hleave, -⟩ := WriterPc.key_of_atKeys hnext
    apply h.keep halt
    · simp
    · exact fun _ => Or.inr (Or.inl ⟨hidle, rfl⟩)
    · exact fun hc => absurd (hleave.symm.trans hc) Bool.false_ne_true
    · trivial
  | writerInit hpc => apply h.keep halt <;> simp [sessionOk]
  | writerOpenSemWrite hpc => apply h.keep halt <;> simp [hpc]
  | writerOpenSemRead hpc => apply h.keep halt <;> simp [sessionOk, hpc, h.began_ok hpc]
  | writerWait n hpc => apply h.keep halt <;> simp [sessionOk]
  | setState state running hpc => apply h.keep halt <;> simp [sessionOk]
  | format hpc =>
    apply h.keep halt
    · simp
    · simp
    · simp
    · exact ⟨trivial, h.formatted_ok hpc _, trivial⟩
  | writerPost hpc => apply h.keep halt <;> simp [sessionOk, published]
  | shutdownState hpc => apply h.keep halt <;> simp [sessionOk, hpc]
  | shutdownPost hpc => apply h.keep halt <;> simp [sessionOk, hpc]
  | writerInterrupted => cases hok
  | print hpc =>
    apply h.keep halt
    · simp
    · exact fun hidle => Or.inr (Or.inl ⟨hidle, rfl⟩)
    · exact Or.inl
    · exact ⟨trivial, h.printed_ok hpc _ _, trivial⟩
  | readerOpenSemRead => apply h.keep halt <;> simp +contextual
  | readerOpenSemWrite => apply h.keep halt <;> simp +contextual
  | readerWait => apply h.keep halt <;> simp +contextual [sessionOk]
  | testState => apply h.keep halt <;> simp +contextual [sessionOk]
  | readerPost => apply h.keep halt <;> simp +contextual [sessionOk]
  | readerInterrupted => cases hok
  | newSession => cases hok

theorem alternating_beforeFirstSession (backingFile : Bool) (d : SharedData512) :
    Alternating (beforeFirstSession backingFile d) [] :=
  ⟨counted_beforeFirstSession backingFile d, rfl, fun _ => ⟨rfl, rfl⟩, fun _ => rfl⟩

/-- The first session is sound if nothing interrupts a wait, the writer creates
`sem_write`, and `q` is pressed after a publication. -/
theorem first_session_sound {backingFile : Bool} {d : SharedData512}
    (h : Reaches (sharedMem.when quitsLater) (beforeFirstSession backingFile d) s tr) :
    Judged sessionOk tr := by
  have hinv : FirstSession s tr :=
    h.invariant ⟨alternating_beforeFirstSession backingFile d, nofun, nofun, nofun, trivial⟩
      fun _ _ _ _ _ hi hs => hi.step (step_of_when hs).1 (step_of_when hs).2
  exact hinv.judged

def oneMessage : List Action :=
  [Action.startWriter 7, .writer, .writer, .writer, .startReader, .reader, .reader] ++ upKey ++
    List.replicate 4 Action.writer ++ List.replicate 4 Action.reader ++
      [Action.getchar 113, .writer, .writer]

theorem first_session_sound_run : ∃ s tr,
    exec (sharedMem.when quitsLater) (beforeFirstSession false ⟨0, .state0, []⟩)
      (oneMessage ++ List.replicate 4 Action.reader) = some (s, tr) ∧
    (s.writer = .exited ∧ s.reader = .exited) ∧ Judged sessionOk tr := by
  obtain ⟨s, tr, hrun, hexited⟩ : ∃ s tr,
      exec (sharedMem.when quitsLater) (beforeFirstSession false ⟨0, .state0, []⟩)
        (oneMessage ++ List.replicate 4 Action.reader) = some (s, tr) ∧
      (s.writer = .exited ∧ s.reader = .exited) := by decide +kernel
  exact ⟨s, tr, hrun, hexited, first_session_sound (Reaches.of_exec hrun)⟩

/-- The second session begins with two tokens and its first message is never printed. -/
theorem second_message_overwrites : ∃ s tr,
    exec (sharedMem.when orderly) (beforeFirstSession false ⟨0, .state0, []⟩)
      (oneMessage ++ List.replicate 4 Action.reader ++ [Action.newSession, .startWriter 8] ++
        List.replicate 3 Action.writer ++ upKey ++ List.replicate 4 Action.writer ++ upKey ++
        List.replicate 4 Action.writer) = some (s, tr) ∧
    ¬Judged sessionOk tr ∧ .began 2 0 ∈ tr ∧
      published (thisSession tr) = [record 8 1, record 8 2] ∧ printed (thisSession tr) = [] := by
  decide +kernel

/-- A second session always begins with two tokens. -/
theorem second_session_unsound {backingFile : Bool} {d : SharedData512}
    (h : Reaches (sharedMem.when undisturbed) (beforeFirstSession backingFile d) s tr)
    (hs : newSession s = some (s', seen)) :
    ∃ w r, seen = [.newSession, .began w r] ∧ w + r = 2 ∧ ¬Judged sessionOk (tr ++ seen) := by
  have halt : Alternating s tr :=
    h.invariant (alternating_beforeFirstSession backingFile d) fun _ _ _ _ _ hi hs =>
      hi.step (step_of_when hs).1 (step_of_when hs).2
  have hstep : Step s .newSession s' seen := step_of_sharedMem hs
  cases hstep with
  | newSession hwriter hreader =>
    have hquit : shutdowns tr = 1 := by simpa [hwriter] using halt.quits
    have hsome : s.semWrite.isSome = true := by simpa [hwriter] using halt.counted.semWrite
    have hcount := halt.counted.count (by rw [hquit]; simp [semValueMax])
    rw [hquit, hsome] at hcount
    have htwo : s.semWrite.getD 0 + s.semRead.getD 0 = 2 := by
      simpa [tokens, holders, hwriter, hreader] using hcount
    refine ⟨_, _, rfl, htwo, ?_⟩
    intro hj
    have hbegan := (judged_append.mp hj).2.2.1
    simp only [sessionOk] at hbegan
    omega

end LinuxOddsAndEnds.Ipc.SharedMem
