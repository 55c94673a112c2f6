import LinuxOddsAndEnds.Foundation.History
import LinuxOddsAndEnds.Foundation.Machine
import LinuxOddsAndEnds.Ipc.Record

/-!
# Shared memory behind two named semaphores

The writer and the reader of the shared memory demonstration, one system call or
one access to the shared record per step, under any interleaving. The semaphores
and the memory outlive the processes: `sem_open` with `O_CREAT` gives an existing
semaphore back as it is, and neither process unlinks it. A session is one run of
each process; the next begins when both have exited.
-/

namespace LinuxOddsAndEnds.Ipc.SharedMem

open Foundation

inductive State where
  | state0
  | state1
  | state2
  deriving DecidableEq

/-- The shared record; `buffer` is the string that the array holds. -/
structure SharedData512 where
  pid : BitVec 32
  state : State
  buffer : List Byte

inductive WriterPc where
  | notStarted
  | init
  | openSemWrite
  | openSemRead
  | getKey
  | getBracket
  | getArrow
  | waitSemWrite
  | setState
  | format
  | postSemRead
  | shutdownState
  | shutdownPost
  | exited
  deriving DecidableEq

inductive ReaderPc where
  | notStarted
  | openSemRead
  | openSemWrite
  | waitSemRead
  | print
  | testState
  | postSemWrite
  | exited
  deriving DecidableEq

/-- Both processes and what they share; `none` is a semaphore that does not exist. -/
structure Processes where
  semWrite : Option ℕ
  semRead : Option ℕ
  backingFile : Bool
  sharedData512 : SharedData512
  getpid : BitVec 32
  writer : WriterPc
  fileVal : BitVec 32
  writerRunning : Bool
  reader : ReaderPc
  readerRunning : Bool

inductive Party where
  | writer
  | reader
  deriving DecidableEq

inductive Action where
  | startWriter (pid : BitVec 32)
  | startReader
  | getchar (ch : ℤ)
  | writer
  | writerInterrupted
  | reader
  | readerInterrupted
  | newSession

inductive Seen where
  | newSession
  | began (semWrite semRead : ℕ)
  | waited (p : Party)
  | posted (p : Party)
  | touched (p : Party)
  | formatted
  | published (buffer : List Byte)
  | printed (buffer : List Byte)
  | shutdown
  deriving DecidableEq

def semValueMax : ℕ := 2147483647

def semOpen (value : ℕ) (sem : Option ℕ) : Option ℕ := some (sem.getD value)

/-- `sem_wait`; refused while it would block. -/
def semWait : Option ℕ → Option (Option ℕ)
  | some (n + 1) => some (some n)
  | _ => none

/-- `sem_post`; its failure at the largest value is only reported. -/
def semPost (sem : Option ℕ) : Option ℕ := sem.map fun n => if n < semValueMax then n + 1 else n

/-- The test at the head of the writer's loop; if it holds, `getchar` comes next. -/
def WriterPc.loopHead (running : Bool) : WriterPc := if running then .getKey else .shutdownState

/-- The writer reads a key, or one byte of an arrow's escape sequence. -/
def writerKey (ch : ℤ) (s : Processes) : Option (Processes × List Seen) :=
  match s.writer with
  | .getKey =>
    if ch = 113 then some ({ s with writer := .shutdownState }, [])
    else if ch = 27 then some ({ s with writer := .getBracket }, [])
    else some (s, [])
  | .getBracket =>
    if ch = 91 then some ({ s with writer := .getArrow }, [])
    else some ({ s with writer := .getKey }, [])
  | .getArrow =>
    if ch = 65 then some ({ s with fileVal := s.fileVal + 1, writer := .waitSemWrite }, [])
    else if ch = 66 then some ({ s with fileVal := s.fileVal - 1, writer := .waitSemWrite }, [])
    else some ({ s with writer := .getKey }, [])
  | _ => none

def writerStep (s : Processes) : Option (Processes × List Seen) :=
  match s.writer with
  | .init =>
    some ({ s with sharedData512.pid := s.getpid, sharedData512.state := .state0
                   writer := .openSemWrite }, [.touched .writer])
  | .openSemWrite =>
    some ({ s with semWrite := semOpen 1 s.semWrite, writer := .openSemRead }, [])
  | .openSemRead =>
    some ({ s with semRead := semOpen 0 s.semRead, writer := .getKey },
      [.began (s.semWrite.getD 0) (s.semRead.getD 0)])
  | .waitSemWrite =>
    (semWait s.semWrite).map fun v =>
      ({ s with semWrite := v, writer := .setState }, [.waited .writer])
  | .setState =>
    if s.fileVal = 10 then
      some ({ s with sharedData512.state := .state2, writerRunning := false, writer := .format },
        [.touched .writer])
    else some ({ s with sharedData512.state := .state1, writer := .format }, [.touched .writer])
  | .format =>
    some ({ s with sharedData512.buffer := record s.sharedData512.pid s.fileVal
                   writer := .postSemRead }, [.touched .writer, .formatted])
  | .postSemRead =>
    some ({ s with semRead := semPost s.semRead, writer := .loopHead s.writerRunning },
      [.posted .writer, .published s.sharedData512.buffer])
  | .shutdownState =>
    some ({ s with sharedData512.state := .state2, writer := .shutdownPost }, [.touched .writer])
  | .shutdownPost =>
    some ({ s with semRead := semPost s.semRead, writer := .exited },
      [.posted .writer, .shutdown])
  | _ => none

def readerStep (s : Processes) : Option (Processes × List Seen) :=
  match s.reader with
  | .openSemRead =>
    some ({ s with semRead := semOpen 0 s.semRead, reader := .openSemWrite }, [])
  | .openSemWrite =>
    some ({ s with semWrite := semOpen 0 s.semWrite, reader := .waitSemRead }, [])
  | .waitSemRead =>
    (semWait s.semRead).map fun v =>
      ({ s with semRead := v, reader := .print }, [.waited .reader])
  | .print =>
    some ({ s with reader := .testState }, [.touched .reader, .printed s.sharedData512.buffer])
  | .testState =>
    some ({ s with readerRunning := s.readerRunning && s.sharedData512.state != .state2
                   reader := .postSemWrite }, [.touched .reader])
  | .postSemWrite =>
    some ({ s with semWrite := semPost s.semWrite
                   reader := if s.readerRunning then .waitSemRead else .exited },
      [.posted .reader])
  | _ => none

/-- `sem_wait` returns -1 with `EINTR`: the loop around it ends without the semaphore. -/
def writerInterrupted (s : Processes) : Option (Processes × List Seen) :=
  match s.writer with
  | .waitSemWrite => some ({ s with writer := .setState }, [])
  | _ => none

def readerInterrupted (s : Processes) : Option (Processes × List Seen) :=
  match s.reader with
  | .waitSemRead => some ({ s with reader := .print }, [])
  | _ => none

/-- `shm_open` with `O_CREAT`, then `mmap` and `ftruncate`. -/
def startWriter (pid : BitVec 32) (s : Processes) : Option (Processes × List Seen) :=
  match s.writer with
  | .notStarted =>
    some ({ s with backingFile := true, getpid := pid, writer := .init, fileVal := 0
                   writerRunning := true }, [])
  | _ => none

/-- `shm_open` without `O_CREAT`: without the backing file the reader gives up. -/
def startReader (s : Processes) : Option (Processes × List Seen) :=
  match s.reader with
  | .notStarted =>
    if s.backingFile then some ({ s with reader := .openSemRead, readerRunning := true }, [])
    else some (s, [])
  | _ => none

/-- Both processes are started again; what the system keeps stays as it is. -/
def newSession (s : Processes) : Option (Processes × List Seen) :=
  if s.writer = .exited ∧ s.reader = .exited then
    some ({ s with writer := .notStarted, reader := .notStarted },
      [.newSession, .began (s.semWrite.getD 0) (s.semRead.getD 0)])
  else none

def sharedMem : Machine Processes Action Seen
  | s, .startWriter pid => startWriter pid s
  | s, .startReader => startReader s
  | s, .getchar ch => writerKey ch s
  | s, .writer => writerStep s
  | s, .writerInterrupted => writerInterrupted s
  | s, .reader => readerStep s
  | s, .readerInterrupted => readerInterrupted s
  | s, .newSession => newSession s

/-- No semaphore exists; the backing file may be there already. -/
def beforeFirstSession (backingFile : Bool) (d : SharedData512) : Processes :=
  ⟨none, none, backingFile, d, 0, .notStarted, 0, true, .notStarted, true⟩

/-- The writer has created both semaphores and the reader has not opened them. -/
def writerReady (d : SharedData512) : Processes :=
  ⟨some 1, some 0, true, d, d.pid, .getKey, 0, true, .notStarted, true⟩

/-- At the head of the key loop, between the bytes of a key, or waiting to publish. -/
@[simp] def WriterPc.atKeys : WriterPc → Bool
  | .getKey | .getBracket | .getArrow | .waitSemWrite => true
  | _ => false

/-- The branches of one step of `sharedMem`; a key other than `q` only moves the writer
among its key positions. -/
inductive Step (s : Processes) : Action → Processes → List Seen → Prop where
  | startWriter (pid : BitVec 32) (hpc : s.writer = .notStarted) :
    Step s (.startWriter pid)
      { s with backingFile := true, getpid := pid, writer := .init, fileVal := 0
               writerRunning := true } []
  | startReader (hpc : s.reader = .notStarted) (hfile : s.backingFile = true) :
    Step s .startReader { s with reader := .openSemRead, readerRunning := true } []
  | noBackingFile (hpc : s.reader = .notStarted) (hfile : s.backingFile = false) :
    Step s .startReader s []
  | quit (hpc : s.writer = .getKey) :
    Step s (.getchar 113) { s with writer := .shutdownState } []
  | key (ch : ℤ) (pc : WriterPc) (v : BitVec 32) (hpc : s.writer.atKeys = true)
      (hnext : pc.atKeys = true) :
    Step s (.getchar ch) { s with writer := pc, fileVal := v } []
  | writerInit (hpc : s.writer = .init) :
    Step s .writer
      { s with sharedData512.pid := s.getpid, sharedData512.state := .state0
               writer := .openSemWrite } [.touched .writer]
  | writerOpenSemWrite (hpc : s.writer = .openSemWrite) :
    Step s .writer { s with semWrite := semOpen 1 s.semWrite, writer := .openSemRead } []
  | writerOpenSemRead (hpc : s.writer = .openSemRead) :
    Step s .writer { s with semRead := semOpen 0 s.semRead, writer := .getKey }
      [.began (s.semWrite.getD 0) (s.semRead.getD 0)]
  | writerWait (n : ℕ) (hpc : s.writer = .waitSemWrite) (hsem : s.semWrite = some (n + 1)) :
    Step s .writer { s with semWrite := some n, writer := .setState } [.waited .writer]
  | setState (state : State) (running : Bool) (hpc : s.writer = .setState)
      (hset : (s.fileVal = 10 ∧ state = .state2 ∧ running = false) ∨
        (s.fileVal ≠ 10 ∧ state = .state1 ∧ running = s.writerRunning)) :
    Step s .writer
      { s with sharedData512.state := state, writerRunning := running, writer := .format }
      [.touched .writer]
  | format (hpc : s.writer = .format) :
    Step s .writer
      { s with sharedData512.buffer := record s.sharedData512.pid s.fileVal
               writer := .postSemRead } [.touched .writer, .formatted]
  | writerPost (hpc : s.writer = .postSemRead) :
    Step s .writer
      { s with semRead := semPost s.semRead, writer := .loopHead s.writerRunning }
      [.posted .writer, .published s.sharedData512.buffer]
  | shutdownState (hpc : s.writer = .shutdownState) :
    Step s .writer { s with sharedData512.state := .state2, writer := .shutdownPost }
      [.touched .writer]
  | shutdownPost (hpc : s.writer = .shutdownPost) :
    Step s .writer { s with semRead := semPost s.semRead, writer := .exited }
      [.posted .writer, .shutdown]
  | writerInterrupted (hpc : s.writer = .waitSemWrite) :
    Step s .writerInterrupted { s with writer := .setState } []
  | readerOpenSemRead (hpc : s.reader = .openSemRead) :
    Step s .reader { s with semRead := semOpen 0 s.semRead, reader := .openSemWrite } []
  | readerOpenSemWrite (hpc : s.reader = .openSemWrite) :
    Step s .reader { s with semWrite := semOpen 0 s.semWrite, reader := .waitSemRead } []
  | readerWait (n : ℕ) (hpc : s.reader = .waitSemRead) (hsem : s.semRead = some (n + 1)) :
    Step s .reader { s with semRead := some n, reader := .print } [.waited .reader]
  | print (hpc : s.reader = .print) :
    Step s .reader { s with reader := .testState }
      [.touched .reader, .printed s.sharedData512.buffer]
  | testState (hpc : s.reader = .testState) :
    Step s .reader
      { s with readerRunning := s.readerRunning && s.sharedData512.state != .state2
               reader := .postSemWrite } [.touched .reader]
  | readerPost (hpc : s.reader = .postSemWrite) :
    Step s .reader
      { s with semWrite := semPost s.semWrite
               reader := if s.readerRunning then .waitSemRead else .exited } [.posted .reader]
  | readerInterrupted (hpc : s.reader = .waitSemRead) :
    Step s .readerInterrupted { s with reader := .print } []
  | newSession (hwriter : s.writer = .exited) (hreader : s.reader = .exited) :
    Step s .newSession { s with writer := .notStarted, reader := .notStarted }
      [.newSession, .began (s.semWrite.getD 0) (s.semRead.getD 0)]

variable {s s' : Processes} {seen : List Seen}

theorem semWait_eq_some {sem v : Option ℕ} :
    semWait sem = some v ↔ ∃ n, sem = some (n + 1) ∧ v = some n := by
  unfold semWait
  split
  · next n => simp [eq_comm]
  · next h =>
    simp only [reduceCtorEq, false_iff]
    rintro ⟨n, rfl, -⟩
    exact h n rfl

theorem step_writerKey {ch : ℤ} (h : writerKey ch s = some (s', seen)) :
    Step s (.getchar ch) s' seen := by
  cases hpc : s.writer <;> simp only [writerKey, hpc, reduceCtorEq] at h
  case getKey =>
    split_ifs at h with hq hesc <;> obtain ⟨rfl, rfl⟩ := by simpa using h
    · rw [hq]
      exact .quit hpc
    · exact .key ch .getBracket s.fileVal (by simp [hpc]) rfl
    · exact .key ch s.writer s.fileVal (by simp [hpc]) (by simp [hpc])
  case getBracket =>
    split_ifs at h <;> obtain ⟨rfl, rfl⟩ := by simpa using h
    · exact .key ch .getArrow s.fileVal (by simp [hpc]) rfl
    · exact .key ch .getKey s.fileVal (by simp [hpc]) rfl
  case getArrow =>
    split_ifs at h <;> obtain ⟨rfl, rfl⟩ := by simpa using h
    · exact .key ch .waitSemWrite (s.fileVal + 1) (by simp [hpc]) rfl
    · exact .key ch .waitSemWrite (s.fileVal - 1) (by simp [hpc]) rfl
    · exact .key ch .getKey s.fileVal (by simp [hpc]) rfl

theorem step_writerStep (h : writerStep s = some (s', seen)) : Step s .writer s' seen := by
  cases hpc : s.writer <;> simp only [writerStep, hpc, reduceCtorEq] at h
  case waitSemWrite =>
    obtain ⟨v, hv, he⟩ := Option.map_eq_some_iff.mp h
    obtain ⟨rfl, rfl⟩ := by simpa using he
    obtain ⟨n, hn, rfl⟩ := semWait_eq_some.mp hv
    exact .writerWait n hpc hn
  case setState =>
    split_ifs at h with hten <;> obtain ⟨rfl, rfl⟩ := by simpa using h
    · exact .setState .state2 false hpc (Or.inl ⟨hten, rfl, rfl⟩)
    · exact .setState .state1 s.writerRunning hpc (Or.inr ⟨hten, rfl, rfl⟩)
  all_goals obtain ⟨rfl, rfl⟩ := by simpa using h
  case init => exact .writerInit hpc
  case openSemWrite => exact .writerOpenSemWrite hpc
  case openSemRead => exact .writerOpenSemRead hpc
  case format => exact .format hpc
  case postSemRead => exact .writerPost hpc
  case shutdownState => exact .shutdownState hpc
  case shutdownPost => exact .shutdownPost hpc

theorem step_readerStep (h : readerStep s = some (s', seen)) : Step s .reader s' seen := by
  cases hpc : s.reader <;> simp only [readerStep, hpc, reduceCtorEq] at h
  case waitSemRead =>
    obtain ⟨v, hv, he⟩ := Option.map_eq_some_iff.mp h
    obtain ⟨rfl, rfl⟩ := by simpa using he
    obtain ⟨n, hn, rfl⟩ := semWait_eq_some.mp hv
    exact .readerWait n hpc hn
  all_goals obtain ⟨rfl, rfl⟩ := by simpa using h
  case openSemRead => exact .readerOpenSemRead hpc
  case openSemWrite => exact .readerOpenSemWrite hpc
  case print => exact .print hpc
  case testState => exact .testState hpc
  case postSemWrite => exact .readerPost hpc

theorem step_of_sharedMem {a : Action} (h : sharedMem s a = some (s', seen)) :
    Step s a s' seen := by
  cases a with
  | startWriter pid =>
    cases hpc : s.writer <;> simp only [sharedMem, SharedMem.startWriter, hpc, reduceCtorEq] at h
    obtain ⟨rfl, rfl⟩ := by simpa using h
    exact .startWriter pid hpc
  | startReader =>
    cases hpc : s.reader <;> simp only [sharedMem, SharedMem.startReader, hpc, reduceCtorEq] at h
    split_ifs at h with hfile <;> obtain ⟨rfl, rfl⟩ := by simpa using h
    · exact .startReader hpc hfile
    · exact .noBackingFile hpc (by simpa using hfile)
  | getchar ch => exact step_writerKey h
  | writer => exact step_writerStep h
  | writerInterrupted =>
    cases hpc : s.writer <;>
      simp only [sharedMem, SharedMem.writerInterrupted, hpc, reduceCtorEq] at h
    obtain ⟨rfl, rfl⟩ := by simpa using h
    exact .writerInterrupted hpc
  | reader => exact step_readerStep h
  | readerInterrupted =>
    cases hpc : s.reader <;>
      simp only [sharedMem, SharedMem.readerInterrupted, hpc, reduceCtorEq] at h
    obtain ⟨rfl, rfl⟩ := by simpa using h
    exact .readerInterrupted hpc
  | newSession =>
    simp only [sharedMem, SharedMem.newSession] at h
    split_ifs at h with hex
    obtain ⟨rfl, rfl⟩ := by simpa using h
    exact .newSession hex.1 hex.2

theorem step_of_when {ok : Processes → Action → Bool} {a : Action}
    (h : sharedMem.when ok s a = some (s', seen)) : ok s a = true ∧ Step s a s' seen := by
  obtain ⟨hok, h⟩ := Machine.when_eq_some.mp h
  exact ⟨hok, step_of_sharedMem h⟩

end LinuxOddsAndEnds.Ipc.SharedMem
