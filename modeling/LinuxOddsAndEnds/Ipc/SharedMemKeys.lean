import LinuxOddsAndEnds.Ipc.Handshake
import LinuxOddsAndEnds.Ipc.PipeShutdown

/-!
# The shared memory from key to key

One run of each program, with the keys fixed in advance and no signal. The keys settle which
values the writer publishes, and the value 10 is the last of them.
-/

namespace LinuxOddsAndEnds.Ipc.SharedMem

open Foundation
open PipeUnnamed (Position loopExit)

/-- Both processes and what `getchar` will return. -/
structure Session where
  stdin : List ℤ
  processes : Processes

/-- What the writer does next, and the keys after it; `getchar` waits for a key. -/
def writerNext (pid : BitVec 32) (t : Session) : Option (Action × List ℤ) :=
  match t.processes.writer with
  | .notStarted => some (.startWriter pid, t.stdin)
  | .getKey | .getBracket | .getArrow =>
    match t.stdin with
    | [] => none
    | ch :: stdin => some (.getchar ch, stdin)
  | _ => some (.writer, t.stdin)

/-- A reader that finds no backing file has changed nothing, and is started again. -/
def readerNext (s : Processes) : Option Action :=
  match s.reader with
  | .notStarted => if s.backingFile then some .startReader else none
  | _ => some .reader

def keyed (pid : BitVec 32) : Machine Session Party Seen
  | t, .writer =>
    (writerNext pid t).bind fun (a, stdin) =>
      (sharedMem t.processes a).map fun (s, seen) => (⟨stdin, s⟩, seen)
  | t, .reader =>
    (readerNext t.processes).bind fun a =>
      (sharedMem t.processes a).map fun (s, seen) => (⟨t.stdin, s⟩, seen)

/-- Before the first of the two programs is started. -/
def firstSession (keys : List ℤ) (backingFile : Bool) (d : SharedData512) : Session :=
  ⟨keys, beforeFirstSession backingFile d⟩

/-- The values that the keys ask for, from value `val` on; 10 ends the loop. -/
def requested : Position → BitVec 32 → List ℤ → List (BitVec 32)
  | _, _, [] => []
  | .key, val, ch :: keys =>
    if ch = 113 then []
    else if ch = 27 then requested .bracket val keys
    else requested .key val keys
  | .bracket, val, ch :: keys =>
    if ch = 91 then requested .arrow val keys else requested .key val keys
  | .arrow, val, ch :: keys =>
    if ch = 65 then (val + 1) :: if val + 1 = 10 then [] else requested .key (val + 1) keys
    else if ch = 66 then (val - 1) :: if val - 1 = 10 then [] else requested .key (val - 1) keys
    else requested .key val keys

def requests (pid : BitVec 32) (keys : List ℤ) : List (List Byte) :=
  (requested .key 0 keys).map (record pid)

/-- The actions of an undisturbed session. -/
def expected (pid : BitVec 32) (s : Processes) : Action → Bool
  | .startWriter pid' => pid' == pid
  | .startReader => s.backingFile
  | .getchar _ | .writer | .reader => true
  | .writerInterrupted | .readerInterrupted | .newSession => false

/-- The values that the writer will still publish. -/
def pending (t : Session) : List (BitVec 32) :=
  match t.processes.writer with
  | .notStarted | .init | .openSemWrite | .openSemRead | .getKey =>
    requested .key t.processes.fileVal t.stdin
  | .getBracket => requested .bracket t.processes.fileVal t.stdin
  | .getArrow => requested .arrow t.processes.fileVal t.stdin
  | .waitSemWrite | .setState | .format | .postSemRead =>
    t.processes.fileVal ::
      if t.processes.fileVal = 10 then [] else requested .key t.processes.fileVal t.stdin
  | .shutdownState | .shutdownPost | .exited => []

def ends (t : Session) : Bool :=
  match t.processes.writer with
  | .notStarted | .init | .openSemWrite | .openSemRead | .getKey =>
    (loopExit .key t.processes.fileVal t.stdin).isSome
  | .getBracket => (loopExit .bracket t.processes.fileVal t.stdin).isSome
  | .getArrow => (loopExit .arrow t.processes.fileVal t.stdin).isSome
  | .waitSemWrite | .setState | .format | .postSemRead =>
    t.processes.fileVal == 10 || (loopExit .key t.processes.fileVal t.stdin).isSome
  | .shutdownState | .shutdownPost | .exited => true

/-- The value has been looked at, and the record is not yet handed over. -/
@[simp] def WriterPc.decided : WriterPc → Bool
  | .format | .postSemRead => true
  | _ => false

@[simp] def WriterPc.marked : WriterPc → Bool
  | .notStarted | .init => false
  | _ => true

/-- What has been published and what is to come is what the keys ask for. -/
structure KeySound (pid : BitVec 32) (keys : List ℤ) (d : SharedData512) (t : Session)
    (tr : List Seen) : Prop where
  account : published tr ++ (pending t).map (record pid) = requests pid keys
  ended : ends t = (loopExit .key 0 keys).isSome
  begun : t.processes.writer.starting = true → t.processes.fileVal = 0
  getpid : t.processes.writer ≠ .notStarted → t.processes.getpid = pid
  stored : t.processes.writer.marked = true → t.processes.sharedData512.pid = pid
  running : t.processes.writer.leaving = false →
    t.processes.writerRunning = !(t.processes.writer.decided && t.processes.fileVal == 10)
  buffer : t.processes.sharedData512.buffer =
    if t.processes.writer = .postSemRead then record pid t.processes.fileVal
    else (published tr).getLastD d.buffer
  file : t.processes.writer ≠ .notStarted → t.processes.backingFile = true

section Cases

variable {pid : BitVec 32} {t t' : Session} {seen : List Seen}

theorem writerNext_eq_some {a : Action} {stdin : List ℤ}
    (h : writerNext pid t = some (a, stdin)) :
    (∃ ch, a = .getchar ch ∧ t.stdin = ch :: stdin) ∨
      (stdin = t.stdin ∧ (∀ ch, a ≠ .getchar ch) ∧ expected pid t.processes a = true) := by
  cases hpc : t.processes.writer <;> simp only [writerNext, hpc] at h
  case getKey | getBracket | getArrow =>
    cases hstdin : t.stdin with
    | nil => simp [hstdin] at h
    | cons ch rest =>
      simp only [hstdin, Option.some.injEq, Prod.mk.injEq] at h
      obtain ⟨rfl, rfl⟩ := h
      exact Or.inl ⟨ch, rfl, rfl⟩
  all_goals
    obtain ⟨rfl, rfl⟩ := Prod.mk.inj (Option.some.inj h)
    exact Or.inr ⟨rfl, by simp, by simp [expected]⟩

theorem readerNext_eq_some (pid : BitVec 32) {s : Processes} {a : Action}
    (h : readerNext s = some a) : (∀ ch, a ≠ .getchar ch) ∧ expected pid s a = true := by
  cases hpc : s.reader <;> simp only [readerNext, hpc] at h
  case notStarted =>
    split_ifs at h with hfile
    obtain rfl := Option.some.inj h
    exact ⟨by simp, hfile⟩
  all_goals
    obtain rfl := Option.some.inj h
    exact ⟨by simp, rfl⟩

theorem keyed_cases {p : Party} (h : keyed pid t p = some (t', seen)) :
    (∃ ch, t.stdin = ch :: t'.stdin ∧ writerKey ch t.processes = some (t'.processes, seen)) ∨
      (t'.stdin = t.stdin ∧ ∃ a, (∀ ch, a ≠ .getchar ch) ∧ expected pid t.processes a = true ∧
        Step t.processes a t'.processes seen) := by
  cases p with
  | writer =>
    obtain ⟨⟨a, stdin⟩, hnext, h⟩ := Option.bind_eq_some_iff.mp h
    obtain ⟨⟨s, seen⟩, hs, he⟩ := Option.map_eq_some_iff.mp h
    obtain ⟨rfl, rfl⟩ := Prod.mk.inj he
    rcases writerNext_eq_some hnext with ⟨ch, rfl, hstdin⟩ | ⟨rfl, hgetchar, hexpected⟩
    · exact Or.inl ⟨ch, hstdin, hs⟩
    · exact Or.inr ⟨rfl, a, hgetchar, hexpected, step_of_sharedMem hs⟩
  | reader =>
    obtain ⟨a, hnext, h⟩ := Option.bind_eq_some_iff.mp h
    obtain ⟨⟨s, seen⟩, hs, he⟩ := Option.map_eq_some_iff.mp h
    obtain ⟨rfl, rfl⟩ := Prod.mk.inj he
    obtain ⟨hgetchar, hexpected⟩ := readerNext_eq_some pid hnext
    exact Or.inr ⟨rfl, a, hgetchar, hexpected, step_of_sharedMem hs⟩

end Cases

section Keys

variable {pid : BitVec 32} {keys : List ℤ} {d : SharedData512} {t t' : Session}
  {tr seen : List Seen} {ch : ℤ}

theorem KeySound.moved (h : KeySound pid keys d t tr) (hfrom : t.processes.writer.atKeys = true)
    {stdin : List ℤ} {pc : WriterPc} {val : BitVec 32}
    (hto : pc.atKeys = true ∨ pc = .shutdownState)
    (hpending : pending ⟨stdin, { t.processes with fileVal := val, writer := pc }⟩ = pending t)
    (hends : ends ⟨stdin, { t.processes with fileVal := val, writer := pc }⟩ = ends t) :
    KeySound pid keys d ⟨stdin, { t.processes with fileVal := val, writer := pc }⟩ tr := by
  have hmarked : t.processes.writer.marked = true ∧ t.processes.writer ≠ .notStarted ∧
      t.processes.writer ≠ .postSemRead ∧ t.processes.writer.decided = false ∧
      t.processes.writer.leaving = false := by
    cases hpc : t.processes.writer <;> rw [hpc] at hfrom <;> simp_all
  obtain ⟨hmark, hstarted, hpost, hdecided, hleave⟩ := hmarked
  have hbuffer := h.buffer
  rw [if_neg hpost] at hbuffer
  have hrunning := h.running hleave
  rw [hdecided] at hrunning
  have hnext : pc.starting = false ∧ pc ≠ .postSemRead ∧ pc.decided = false := by
    rcases hto with hkeys | rfl
    · cases pc <;> simp_all
    · simp
  refine ⟨?_, hends.trans h.ended, ?_, fun _ => h.getpid hstarted, fun _ => h.stored hmark, ?_, ?_,
    fun _ => h.file hstarted⟩
  · rw [hpending]
    exact h.account
  · exact fun hstart => absurd (hnext.1.symm.trans hstart) Bool.false_ne_true
  · intro _
    change _ = !(pc.decided && _)
    rw [hnext.2.2]
    exact hrunning
  · rw [if_neg hnext.2.1]
    exact hbuffer

theorem KeySound.key (h : KeySound pid keys d t tr) (hstdin : t.stdin = ch :: t'.stdin)
    (hs : writerKey ch t.processes = some (t'.processes, seen)) :
    KeySound pid keys d t' (tr ++ seen) := by
  obtain ⟨stdin, s'⟩ := t'
  cases hpc : t.processes.writer <;> simp only [writerKey, hpc, reduceCtorEq] at hs
  case getKey =>
    split_ifs at hs with hquit hesc <;> obtain ⟨rfl, rfl⟩ := Prod.mk.inj (Option.some.inj hs)
    all_goals
      rw [List.append_nil]
      simp only at hstdin
    · refine h.moved (by simp [hpc]) (Or.inr rfl) ?_ ?_
      · simp [pending, hpc, hstdin, requested, hquit]
      · simp [ends, hpc, hstdin, loopExit, hquit]
    · refine h.moved (by simp [hpc]) (Or.inl rfl) ?_ ?_
      · simp [pending, hpc, hstdin, requested, hesc]
      · simp [ends, hpc, hstdin, loopExit, hesc]
    · have hsame : t.processes =
          { t.processes with fileVal := t.processes.fileVal, writer := .getKey } := by
        rw [← hpc]
      rw [hsame]
      refine h.moved (by simp [hpc]) (Or.inl rfl) ?_ ?_
      · simp [pending, hpc, hstdin, requested, hquit, hesc]
      · simp [ends, hpc, hstdin, loopExit, hquit, hesc]
  case getBracket =>
    split_ifs at hs with hbracket <;> obtain ⟨rfl, rfl⟩ := Prod.mk.inj (Option.some.inj hs)
    all_goals
      rw [List.append_nil]
      simp only at hstdin
      refine h.moved (by simp [hpc]) (Or.inl rfl) ?_ ?_
      · simp [pending, hpc, hstdin, requested, hbracket]
      · simp [ends, hpc, hstdin, loopExit, hbracket]
  case getArrow =>
    split_ifs at hs with hup hdown <;> obtain ⟨rfl, rfl⟩ := Prod.mk.inj (Option.some.inj hs)
    all_goals
      rw [List.append_nil]
      simp only at hstdin
      refine h.moved (by simp [hpc]) (Or.inl rfl) ?_ ?_
    · simp [pending, hpc, hstdin, requested, hup]
    · simp [ends, hpc, hstdin, loopExit, hup]
      split_ifs <;> simp_all
    · simp [pending, hpc, hstdin, requested, hdown]
    · simp [ends, hpc, hstdin, loopExit, hdown]
      split_ifs <;> simp_all
    · simp [pending, hpc, hstdin, requested, hup, hdown]
    · simp [ends, hpc, hstdin, loopExit, hup, hdown]

theorem KeySound.keep (h : KeySound pid keys d t tr) (hpublished : published seen = [])
    (hpending : pending t' = pending t) (hends : ends t' = ends t)
    (hwriter : t'.processes.writer = t.processes.writer)
    (hval : t'.processes.fileVal = t.processes.fileVal)
    (hgetpid : t'.processes.getpid = t.processes.getpid)
    (hdata : t'.processes.sharedData512 = t.processes.sharedData512)
    (hrunning : t'.processes.writerRunning = t.processes.writerRunning)
    (hfile : t'.processes.backingFile = t.processes.backingFile) :
    KeySound pid keys d t' (tr ++ seen) := by
  refine ⟨?_, hends.trans h.ended, ?_, ?_, ?_, ?_, ?_, ?_⟩
  · rw [published_append, hpublished, List.append_nil, hpending]
    exact h.account
  · rw [hwriter, hval]
    exact h.begun
  · rw [hwriter, hgetpid]
    exact h.getpid
  · rw [hwriter, hdata]
    exact h.stored
  · rw [hwriter, hrunning, hval]
    exact h.running
  · rw [hdata, hwriter, hval, published_append, hpublished, List.append_nil]
    exact h.buffer
  · rw [hwriter, hfile]
    exact h.file

theorem KeySound.posted (h : KeySound pid keys d t tr)
    (hpc : t.processes.writer = .postSemRead) :
    KeySound pid keys d ⟨t.stdin, { t.processes with
      semRead := semPost t.processes.semRead
      writer := .loopHead t.processes.writerRunning }⟩
      (tr ++ [Seen.posted .writer, .published t.processes.sharedData512.buffer]) := by
  have hnext :
      published (tr ++ [Seen.posted .writer, .published t.processes.sharedData512.buffer]) =
      published tr ++ [record pid t.processes.fileVal] := by
    have hbuffer := h.buffer
    rw [if_pos hpc] at hbuffer
    rw [published_append, hbuffer]
    rfl
  have hrunning : t.processes.writerRunning = !(t.processes.fileVal == 10) := by
    simpa [hpc] using h.running (by simp [hpc])
  have haccount := h.account
  have hended := h.ended
  simp only [pending, ends, hpc] at haccount hended
  by_cases hten : t.processes.fileVal = 10
  · have hhead : WriterPc.loopHead t.processes.writerRunning = .shutdownState := by
      simp [hrunning, hten, WriterPc.loopHead]
    rw [if_pos hten] at haccount
    rw [hhead]
    refine ⟨?_, ?_, by simp, fun _ => h.getpid (by simp [hpc]), fun _ => h.stored (by simp [hpc]),
      by simp, ?_, fun _ => h.file (by simp [hpc])⟩
    · simpa [hnext, pending] using haccount
    · simpa [hten, ends] using hended
    · simpa [hnext, hpc] using h.buffer
  · rw [beq_eq_false_iff_ne.mpr hten] at hrunning hended
    have hhead : WriterPc.loopHead t.processes.writerRunning = .getKey := by
      rw [hrunning]
      rfl
    rw [if_neg hten] at haccount
    rw [hhead]
    refine ⟨?_, ?_, by simp, fun _ => h.getpid (by simp [hpc]), fun _ => h.stored (by simp [hpc]),
      ?_, ?_, fun _ => h.file (by simp [hpc])⟩
    · simpa [hnext, pending] using haccount
    · exact hended
    · exact fun _ => hrunning
    · simpa [hnext, hpc] using h.buffer

theorem KeySound.program {a : Action} (h : KeySound pid keys d t tr)
    (hstdin : t'.stdin = t.stdin) (hgetchar : ∀ ch, a ≠ .getchar ch)
    (hexpected : expected pid t.processes a = true)
    (hs : Step t.processes a t'.processes seen) : KeySound pid keys d t' (tr ++ seen) := by
  obtain ⟨stdin, s'⟩ := t'
  obtain rfl : stdin = t.stdin := hstdin
  obtain ⟨haccount, hended, hbegun, hgetpid, hstored, hrunning, hbuffer, hfile⟩ := id h
  simp only at hs
  cases hs with
  | startReader | noBackingFile | readerOpenSemRead | readerOpenSemWrite | readerWait |
    print | testState | readerPost => exact h.keep rfl rfl rfl rfl rfl rfl rfl rfl rfl
  | quit | key => exact absurd rfl (hgetchar _)
  | writerInterrupted | readerInterrupted | newSession => cases hexpected
  | startWriter pid' hpc =>
    obtain rfl : pid' = pid := by simpa [expected] using hexpected
    constructor <;> simp_all [pending, ends]
  | writerInit hpc => constructor <;> simp_all [pending, ends]
  | writerOpenSemWrite hpc => constructor <;> simp_all [pending, ends]
  | writerOpenSemRead hpc => constructor <;> simp_all [pending, ends, published]
  | writerWait n hpc hsem => constructor <;> simp_all [pending, ends, published]
  | setState state running hpc hset =>
    rcases hset with ⟨hten, -, rfl⟩ | ⟨hten, -, rfl⟩ <;> constructor <;>
      simp_all [pending, ends]
  | format hpc => constructor <;> simp_all [pending, ends, published]
  | writerPost hpc => exact h.posted hpc
  | shutdownState hpc => constructor <;> simp_all [pending, ends]
  | shutdownPost hpc => constructor <;> simp_all [pending, ends, published]

theorem keySound_firstSession (pid : BitVec 32) (keys : List ℤ) (backingFile : Bool)
    (d : SharedData512) : KeySound pid keys d (firstSession keys backingFile d) [] :=
  ⟨rfl, rfl, fun _ => rfl, fun hstarted => absurd rfl hstarted, nofun, fun _ => rfl, rfl,
    fun hstarted => absurd rfl hstarted⟩

/-- Every step keeps what is published and to come equal to what the keys ask for. -/
theorem KeySound.step {p : Party} (h : KeySound pid keys d t tr)
    (hs : keyed pid t p = some (t', seen)) : KeySound pid keys d t' (tr ++ seen) := by
  rcases keyed_cases hs with ⟨ch, hstdin, hkey⟩ | ⟨hstdin, a, hgetchar, hexpected, hstep⟩
  · exact h.key hstdin hkey
  · exact h.program hstdin hgetchar hexpected hstep

end Keys

end LinuxOddsAndEnds.Ipc.SharedMem
