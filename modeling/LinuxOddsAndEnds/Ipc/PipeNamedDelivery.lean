import LinuxOddsAndEnds.Ipc.PipeNamed

/-!
# What the named pipe delivers

The keys settle which records the writer means to write, and a `SIGINT` cuts them off at some
point. Whatever the interleaving, the reader prints what was written, byte for byte, and comes
to the end of file after the last one.
-/

namespace LinuxOddsAndEnds.Ipc.PipeNamed

open Foundation
open PipeUnnamed (pipeCapacity Position length_record)

@[simp] def WriterPc.keyed : WriterPc → Bool
  | .getKey | .getBracket | .getArrow | .write => true
  | _ => false

/-- Behind the `open`, which has waited for the reader. -/
@[simp] def WriterPc.connected : WriterPc → Bool
  | .mkfifo | .open | .opening | .failed | .interrupted | .killed => false
  | _ => true

@[simp] def ReaderPc.connected : ReaderPc → Bool
  | .open | .failed => false
  | _ => true

/-- Behind the `open`, which has waited for the writer. -/
@[simp] def ReaderPc.passed : ReaderPc → Bool
  | .open | .opening | .failed => false
  | _ => true

@[simp] def ReaderPc.ending : ReaderPc → Bool
  | .close | .unlink | .exit | .exited => true
  | _ => false

@[simp] def ReaderPc.held : ReaderPc → List Byte
  | .print buf => [buf]
  | _ => []

theorem ending_passed {pc : ReaderPc} (hend : pc.ending = true) : pc.passed = true := by
  cases pc <;> first | rfl | cases hend

def remaining (s : Processes) : List (List Byte) :=
  match s.writer with
  | .mkfifo | .open | .opening | .disableBuffering | .signal | .getKey =>
    records s.pid .key s.val s.stdin
  | .getBracket => records s.pid .bracket s.val s.stdin
  | .getArrow => records s.pid .arrow s.val s.stdin
  | .write => record s.pid s.val :: records s.pid .key s.val s.stdin
  | _ => []

/-- The writer's side; `all` are the records that the keys ask for. -/
structure WriterSound (all : List (List Byte)) (s : Processes) (tr : List Seen) : Prop where
  account : s.writer ≠ .interrupted → written tr ++ (refused tr ++ remaining s) = all
  begun : written tr <+: all
  running : s.writer.unhandled = true ∨ s.writer.keyed = true → s.running = true
  late : refused tr ≠ [] → s.writerFd = false ∧ s.writer.unhandled = false ∧ .sigint ∈ tr
  handled : s.handler ≠ none → s.writer.unhandled = false ∧ .sigint ∈ tr
  keyed : s.writer.keyed = true → s.writerFd = true ∨ .sigint ∈ tr
  opened : s.writer = .opening ∨ s.writer = .disableBuffering ∨ s.writer = .signal →
    s.writerFd = true
  fresh : s.writer = .mkfifo ∨ s.writer = .open → s.writerCame = false
  first : s.writer = .mkfifo → s.backingFile = false
  alive : s.writer ≠ .killed ∧ s.writer ≠ .failed

/-- The reader's side, and what it shares with the writer's. -/
structure ReaderSound (s : Processes) (tr : List Seen) : Prop where
  came : s.readerCame = true ↔ s.reader.connected = true
  readerFd : s.reader.connected = true → s.reader.ending = false → s.readerFd = true
  passed : s.reader.passed = true → s.writerCame = true
  atEnd : s.reader.ending = true → s.pipe = [] ∧ s.writerFd = false
  writerFd : s.writerFd = true → s.writerCame = true
  met : s.writer.connected = true → s.writerCame = true ∧ s.readerCame = true
  flow : (written tr).flatten = printed tr ++ (s.reader.held ++ s.pipe)

section Traces

variable {tr seen : List Seen}

@[simp] theorem written_append : written (tr ++ seen) = written tr ++ written seen :=
  List.filterMap_append

@[simp] theorem refused_append : refused (tr ++ seen) = refused tr ++ refused seen :=
  List.filterMap_append

@[simp] theorem printed_append : printed (tr ++ seen) = printed tr ++ printed seen :=
  List.filterMap_append

end Traces

section Keys

variable {s s' : Processes} {all : List (List Byte)} {tr seen : List Seen} {ch : ℤ}
  {stdin : List ℤ}

theorem WriterSound.moved (h : WriterSound all s tr) (hfrom : s.writer.keyed = true)
    {pc : WriterPc} {val : BitVec 32} {running : Bool}
    (hpc : pc.keyed = true ∧ running = true ∨ pc = .terminate .close)
    (hremaining : remaining { s with stdin, val, running, writer := pc } = remaining s) :
    WriterSound all { s with stdin, val, running, writer := pc } tr := by
  have hhandled : pc.unhandled = false := by
    rcases hpc with ⟨hkeyed, -⟩ | rfl
    · cases pc <;> first | rfl | cases hkeyed
    · rfl
  have hold : s.writer ≠ .interrupted := by
    intro he
    rw [he] at hfrom
    cases hfrom
  refine ⟨fun _ => ?_, h.begun, ?_, fun hne => ?_, fun hne => ?_, fun _ => h.keyed hfrom, ?_, ?_,
    ?_, ?_⟩
  · rw [hremaining]
    exact h.account hold
  · rintro (hun | hkeyed)
    · rw [hhandled] at hun
      cases hun
    · rcases hpc with ⟨-, hrunning⟩ | rfl
      · exact hrunning
      · cases hkeyed
  · exact ⟨(h.late hne).1, hhandled, (h.late hne).2.2⟩
  · exact ⟨hhandled, (h.handled hne).2⟩
  · rintro (rfl | rfl | rfl) <;> cases hhandled
  · rintro (rfl | rfl) <;> cases hhandled
  · rintro rfl
    cases hhandled
  · constructor <;> rintro rfl <;> rcases hpc with ⟨hkeyed, -⟩ | hpc <;> contradiction

theorem loopHead_running : WriterPc.loopHead true = .getKey := rfl

theorem WriterSound.gotKey (h : WriterSound all s tr) (hpc : s.writer = .getKey)
    (hstdin : s.stdin = ch :: stdin) : WriterSound all (gotKey ch { s with stdin }) tr := by
  have hkeyed : s.writer.keyed = true := by rw [hpc]; rfl
  have hrun := h.running (Or.inr hkeyed)
  have hremaining : remaining s = records s.pid .key s.val (ch :: stdin) := by
    rw [remaining, hpc, hstdin]
  rw [records] at hremaining
  unfold PipeNamed.gotKey
  split_ifs at hremaining ⊢ with hquit hesc
  · exact h.moved hkeyed (Or.inr rfl) hremaining.symm
  · exact h.moved hkeyed (Or.inl ⟨rfl, hrun⟩) hremaining.symm
  · dsimp only
    rw [hrun, loopHead_running]
    exact h.moved hkeyed (Or.inl ⟨rfl, rfl⟩) hremaining.symm

theorem WriterSound.gotBracket (h : WriterSound all s tr) (hpc : s.writer = .getBracket)
    (hstdin : s.stdin = ch :: stdin) : WriterSound all (gotBracket ch { s with stdin }) tr := by
  have hkeyed : s.writer.keyed = true := by rw [hpc]; rfl
  have hrun := h.running (Or.inr hkeyed)
  have hremaining : remaining s = records s.pid .bracket s.val (ch :: stdin) := by
    rw [remaining, hpc, hstdin]
  rw [records] at hremaining
  unfold PipeNamed.gotBracket
  split_ifs at hremaining ⊢ with hbracket
  · exact h.moved hkeyed (Or.inl ⟨rfl, hrun⟩) hremaining.symm
  · dsimp only
    rw [hrun, loopHead_running]
    exact h.moved hkeyed (Or.inl ⟨rfl, rfl⟩) hremaining.symm

theorem WriterSound.changed {val : BitVec 32} (h : WriterSound all s tr)
    (hkeyed : s.writer.keyed = true)
    (hremaining : remaining s =
      if val = 10 then [] else record s.pid val :: records s.pid .key val stdin) :
    WriterSound all (changed val { s with stdin }) tr := by
  have hrun := h.running (Or.inr hkeyed)
  unfold PipeNamed.changed
  by_cases hten : val = 10
  · rw [if_pos hten] at hremaining
    simp only [hten, hrun]
    exact h.moved hkeyed (Or.inr rfl) hremaining.symm
  · rw [if_neg hten] at hremaining
    simp only [hrun, Bool.true_and, bne_iff_ne.mpr hten]
    exact h.moved hkeyed (Or.inl ⟨rfl, rfl⟩) hremaining.symm

theorem WriterSound.gotArrow (h : WriterSound all s tr) (hpc : s.writer = .getArrow)
    (hstdin : s.stdin = ch :: stdin) : WriterSound all (gotArrow ch { s with stdin }) tr := by
  have hkeyed : s.writer.keyed = true := by rw [hpc]; rfl
  have hrun := h.running (Or.inr hkeyed)
  have hremaining : remaining s = records s.pid .arrow s.val (ch :: stdin) := by
    rw [remaining, hpc, hstdin]
  rw [records] at hremaining
  unfold PipeNamed.gotArrow
  by_cases hup : ch = 65
  · rw [if_pos hup] at hremaining ⊢
    exact h.changed hkeyed hremaining
  · rw [if_neg hup] at hremaining ⊢
    by_cases hdown : ch = 66
    · rw [if_pos hdown] at hremaining ⊢
      exact h.changed hkeyed hremaining
    · rw [if_neg hdown] at hremaining ⊢
      dsimp only
      rw [hrun, loopHead_running]
      exact h.moved hkeyed (Or.inl ⟨rfl, rfl⟩) hremaining.symm

theorem getchar_eq_some {next : ℤ → Processes → Processes}
    (h : getchar next s = some (s', seen)) : ∃ ch stdin, s.stdin = ch :: stdin ∧
      s' = next ch { s with stdin } ∧ seen = [] := by
  unfold getchar at h
  cases hstdin : s.stdin with
  | nil => simp [hstdin] at h
  | cons ch stdin =>
    simp only [hstdin, Option.some.injEq, Prod.mk.injEq] at h
    exact ⟨ch, stdin, rfl, h.1.symm, h.2.symm⟩

/-- What a key leaves alone. -/
structure KeyFrame (s s' : Processes) : Prop where
  connected : s'.writer.connected = true
  backingFile : s'.backingFile = s.backingFile
  pipe : s'.pipe = s.pipe
  handler : s'.handler = s.handler
  writerFd : s'.writerFd = s.writerFd
  writerCame : s'.writerCame = s.writerCame
  raw : s'.raw = s.raw
  reader : s'.reader = s.reader
  readerFd : s'.readerFd = s.readerFd
  readerCame : s'.readerCame = s.readerCame

theorem connected_loopHead (running : Bool) : (WriterPc.loopHead running).connected = true := by
  cases running <;> rfl

theorem gotKey_frame (ch : ℤ) (stdin : List ℤ) (s : Processes) :
    KeyFrame s (gotKey ch { s with stdin }) := by
  unfold gotKey
  split_ifs
  · exact ⟨rfl, rfl, rfl, rfl, rfl, rfl, rfl, rfl, rfl, rfl⟩
  · exact ⟨rfl, rfl, rfl, rfl, rfl, rfl, rfl, rfl, rfl, rfl⟩
  · exact ⟨connected_loopHead _, rfl, rfl, rfl, rfl, rfl, rfl, rfl, rfl, rfl⟩

theorem gotBracket_frame (ch : ℤ) (stdin : List ℤ) (s : Processes) :
    KeyFrame s (gotBracket ch { s with stdin }) := by
  unfold gotBracket
  split_ifs
  · exact ⟨rfl, rfl, rfl, rfl, rfl, rfl, rfl, rfl, rfl, rfl⟩
  · exact ⟨connected_loopHead _, rfl, rfl, rfl, rfl, rfl, rfl, rfl, rfl, rfl⟩

theorem changed_frame (val : BitVec 32) (stdin : List ℤ) (s : Processes) :
    KeyFrame s (changed val { s with stdin }) := by
  refine ⟨?_, rfl, rfl, rfl, rfl, rfl, rfl, rfl, rfl, rfl⟩
  simp only [changed]
  split_ifs
  · rfl
  · exact connected_loopHead _

theorem gotArrow_frame (ch : ℤ) (stdin : List ℤ) (s : Processes) :
    KeyFrame s (gotArrow ch { s with stdin }) := by
  unfold gotArrow
  split_ifs
  · exact changed_frame _ stdin s
  · exact changed_frame _ stdin s
  · exact ⟨connected_loopHead _, rfl, rfl, rfl, rfl, rfl, rfl, rfl, rfl, rfl⟩

end Keys

section Steps

variable {s s' : Processes} {all : List (List Byte)} {tr seen : List Seen}

theorem ReaderSound.of_same (h : ReaderSound s tr) (hpipe : s'.pipe = s.pipe)
    (hfd : s'.writerFd = s.writerFd) (hcame : s'.writerCame = s.writerCame)
    (hreader : s'.reader = s.reader) (hreaderFd : s'.readerFd = s.readerFd)
    (hreaderCame : s'.readerCame = s.readerCame)
    (hmet : s'.writer.connected = true → s.writerCame = true ∧ s.readerCame = true) :
    ReaderSound s' tr := by
  refine ⟨?_, ?_, ?_, ?_, ?_, ?_, ?_⟩
  · rw [hreaderCame, hreader]
    exact h.came
  · rw [hreader, hreaderFd]
    exact h.readerFd
  · rw [hreader, hcame]
    exact h.passed
  · rw [hreader, hpipe, hfd]
    exact h.atEnd
  · rw [hfd, hcame]
    exact h.writerFd
  · rw [hcame, hreaderCame]
    exact hmet
  · rw [hreader, hpipe]
    exact h.flow

theorem KeyFrame.readerSound (hframe : KeyFrame s s') (h : ReaderSound s tr)
    (hkeyed : s.writer.keyed = true) : ReaderSound s' tr := by
  have hmet : s.writer.connected = true := by
    cases hpc : s.writer <;> rw [hpc] at hkeyed <;> first | rfl | cases hkeyed
  exact h.of_same hframe.pipe hframe.writerFd hframe.writerCame hframe.reader hframe.readerFd
    hframe.readerCame fun _ => h.met hmet

/-- Before the handler is installed nothing was refused and no handler runs. -/
theorem WriterSound.quiet (h : WriterSound all s tr) (hun : s.writer.unhandled = true) :
    refused tr = [] ∧ s.handler = none := by
  constructor
  · by_contra hne
    have hfalse := (h.late hne).2.1
    rw [hun] at hfalse
    cases hfalse
  · by_contra hne
    have hfalse := (h.handled hne).1
    rw [hun] at hfalse
    cases hfalse

theorem WriterSound.prepared (h : WriterSound all s tr) (hun : s.writer.unhandled = true)
    (hnext : s'.writer.unhandled = true ∨ s'.writer = .getKey) (hrun : s'.running = s.running)
    (hhandler : s'.handler = s.handler) (hremaining : remaining s' = remaining s)
    (hfd : s'.writer ≠ .open → s'.writerFd = true)
    (hcame : s'.writer = .open → s'.writerCame = false) (hfirst : s'.writer ≠ .mkfifo) :
    WriterSound all s' tr := by
  obtain ⟨hrefused, hnone⟩ := h.quiet hun
  have hold : s.writer ≠ .interrupted := by
    intro he
    rw [he] at hun
    cases hun
  refine ⟨fun _ => ?_, h.begun, fun _ => ?_, fun hne => absurd hrefused hne,
    fun hne => absurd (hhandler.trans hnone) hne, fun hkeyed => Or.inl (hfd ?_), fun hpc => hfd ?_,
    fun hpc => hcame (hpc.resolve_left hfirst), fun hpc => absurd hpc hfirst, ?_⟩
  · rw [hremaining]
    exact h.account hold
  · rw [hrun]
    exact h.running (Or.inl hun)
  · intro he
    rw [he] at hkeyed
    cases hkeyed
  · intro he
    rw [he] at hpc
    simp at hpc
  · constructor <;> intro he <;> rw [he] at hnext <;> simp [WriterPc.unhandled] at hnext

theorem refused_sound (hw : WriterSound all s tr) (hr : ReaderSound s tr)
    (hpc : s.writer = .write) (hfd : s.writerFd = false) :
    WriterSound all { s with writer := .getKey } (tr ++ [Seen.refused (record s.pid s.val)]) ∧
      ReaderSound { s with writer := .getKey } (tr ++ [Seen.refused (record s.pid s.val)]) := by
  have hkeyed : s.writer.keyed = true := by rw [hpc]; rfl
  have hrun := hw.running (Or.inr hkeyed)
  have hremaining : remaining s = record s.pid s.val :: records s.pid .key s.val s.stdin := by
    rw [remaining, hpc]
  have haccount := hw.account (by rw [hpc]; nofun)
  rw [hremaining] at haccount
  have hsigint : Seen.sigint ∈ tr := by
    rcases hw.keyed hkeyed with hopen | hsigint
    · rw [hfd] at hopen
      cases hopen
    · exact hsigint
  have hsigint' : Seen.sigint ∈ tr ++ [Seen.refused (record s.pid s.val)] :=
    List.mem_append_left _ hsigint
  refine ⟨⟨fun _ => ?_, ?_, fun _ => hrun, fun _ => ⟨hfd, rfl, hsigint'⟩,
    fun _ => ⟨rfl, hsigint'⟩, fun _ => Or.inr hsigint', nofun, nofun, nofun, nofun, nofun⟩, ?_⟩
  · rw [← haccount]
    simp [written, refused, remaining]
  · rw [written_append]
    simpa [written] using hw.begun
  · refine ⟨hr.came, hr.readerFd, hr.passed, hr.atEnd, hr.writerFd,
      fun _ => hr.met (by rw [hpc]; rfl), ?_⟩
    simpa [written, printed] using hr.flow

theorem wrote_sound (hw : WriterSound all s tr) (hr : ReaderSound s tr)
    (hpc : s.writer = .write) (hfd : s.writerFd = true) :
    WriterSound all { s with pipe := s.pipe ++ record s.pid s.val, writer := .getKey }
        (tr ++ [Seen.wrote (record s.pid s.val)]) ∧
      ReaderSound { s with pipe := s.pipe ++ record s.pid s.val, writer := .getKey }
        (tr ++ [Seen.wrote (record s.pid s.val)]) := by
  have hrun := hw.running (Or.inr (by rw [hpc]; rfl))
  have hremaining : remaining s = record s.pid s.val :: records s.pid .key s.val s.stdin := by
    rw [remaining, hpc]
  have hrefused : refused tr = [] := by
    by_contra hne
    have hclosed := (hw.late hne).1
    rw [hfd] at hclosed
    cases hclosed
  have haccount := hw.account (by rw [hpc]; nofun)
  rw [hremaining, hrefused, List.nil_append] at haccount
  have haccount' : written (tr ++ [Seen.wrote (record s.pid s.val)]) ++
      records s.pid .key s.val s.stdin = all := by
    rw [← haccount]
    simp [written]
  have hrefused' : refused (tr ++ [Seen.wrote (record s.pid s.val)]) = [] := by
    rw [refused_append, hrefused]
    rfl
  refine ⟨⟨fun _ => ?_, ⟨_, haccount'⟩, fun _ => hrun, fun hne => absurd hrefused' hne,
    fun hne => ⟨rfl, List.mem_append_left _ (hw.handled hne).2⟩, fun _ => Or.inl hfd, nofun, nofun,
    nofun, nofun, nofun⟩, ?_⟩
  · rw [hrefused', List.nil_append]
    exact haccount'
  · refine ⟨hr.came, hr.readerFd, hr.passed, fun hend => ?_, hr.writerFd,
      fun _ => hr.met (by rw [hpc]; rfl), ?_⟩
    · have hclosed := (hr.atEnd hend).2
      rw [hfd] at hclosed
      cases hclosed
    · calc
        _ = (written tr).flatten ++ record s.pid s.val := by simp [written]
        _ = printed (tr ++ [Seen.wrote (record s.pid s.val)]) ++
            (s.reader.held ++ (s.pipe ++ record s.pid s.val)) := by
          simp [hr.flow, printed]

theorem ReaderSound.reading (h : ReaderSound s tr) (hconnected : s.writer.connected = true)
    (hfd : s.writerFd = true) : s.readerFd = true := by
  refine h.readerFd (h.came.mp (h.met hconnected).2) ?_
  by_contra hend
  have hclosed := (h.atEnd (by simpa using hend)).2
  rw [hfd] at hclosed
  cases hclosed

theorem writeRecord_sound (hw : WriterSound all s tr) (hr : ReaderSound s tr)
    (hpc : s.writer = .write) (hs : writeRecord s = some (s', seen)) :
    WriterSound all s' (tr ++ seen) ∧ ReaderSound s' (tr ++ seen) := by
  have hrun := hw.running (Or.inr (by rw [hpc]; rfl))
  dsimp only [writeRecord] at hs
  rw [hrun, loopHead_running] at hs
  by_cases hfd : s.writerFd = false
  · rw [if_pos hfd] at hs
    obtain ⟨rfl, rfl⟩ := Prod.mk.inj (Option.some.inj hs)
    have hsound := refused_sound hw hr hpc hfd
    rwa [hrun] at hsound
  · rw [if_neg hfd] at hs
    rw [Bool.not_eq_false] at hfd
    have hreaderFd := hr.reading (by rw [hpc]; rfl) hfd
    rw [if_neg (by simp [hreaderFd])] at hs
    split_ifs at hs with hroom
    obtain ⟨rfl, rfl⟩ := Prod.mk.inj (Option.some.inj hs)
    have hsound := wrote_sound hw hr hpc hfd
    rwa [hrun] at hsound

theorem terminationHandler_cases (s : Processes) (pc : TerminationPc) :
    ∃ (fd file raw : Bool) (next : Option TerminationPc), terminationHandler s pc =
        ({ s with writerFd := fd, backingFile := file, raw }, next) ∧
      (fd = true → s.writerFd = true) ∧ (file = true → s.backingFile = true) ∧
      (raw = true → s.raw = true) := by
  cases pc with
  | close => exact ⟨false, s.backingFile, s.raw, some .unlink, rfl, nofun, id, id⟩
  | unlink => exact ⟨s.writerFd, false, s.raw, some .enableBuffering, rfl, id, nofun, id⟩
  | enableBuffering => exact ⟨s.writerFd, s.backingFile, false, none, rfl, id, id, nofun⟩

theorem ReaderSound.closed (h : ReaderSound s tr) {fd : Bool} (hfd : fd = true → s.writerFd = true)
    (hpipe : s'.pipe = s.pipe) (hfd' : s'.writerFd = fd) (hcame : s'.writerCame = s.writerCame)
    (hreader : s'.reader = s.reader) (hreaderFd : s'.readerFd = s.readerFd)
    (hreaderCame : s'.readerCame = s.readerCame)
    (hmet : s'.writer.connected = true → s.writer.connected = true) : ReaderSound s' tr := by
  refine ⟨?_, ?_, ?_, ?_, ?_, ?_, ?_⟩
  · rw [hreaderCame, hreader]
    exact h.came
  · rw [hreader, hreaderFd]
    exact h.readerFd
  · rw [hreader, hcame]
    exact h.passed
  · rw [hreader, hpipe, hfd']
    intro hend
    obtain ⟨hempty, hclosed⟩ := h.atEnd hend
    refine ⟨hempty, Bool.eq_false_iff.mpr fun hopen => ?_⟩
    rw [hfd hopen] at hclosed
    cases hclosed
  · rw [hfd', hcame]
    exact fun hopen => h.writerFd (hfd hopen)
  · rw [hcame, hreaderCame]
    exact fun hpc => h.met (hmet hpc)
  · rw [hreader, hpipe]
    exact h.flow

theorem handlerStep_sound {pc : TerminationPc} (hw : WriterSound all s tr) (hr : ReaderSound s tr)
    (hhandler : s.handler = some pc) :
    WriterSound all { (terminationHandler s pc).1 with handler := (terminationHandler s pc).2 } tr ∧
      ReaderSound { (terminationHandler s pc).1 with handler := (terminationHandler s pc).2 }
        tr := by
  obtain ⟨hun, hsigint⟩ := hw.handled (by rw [hhandler]; nofun)
  obtain ⟨fd, file, raw, next, hstep, hfd, -, -⟩ := terminationHandler_cases s pc
  rw [hstep]
  constructor
  · refine ⟨hw.account, hw.begun, hw.running, fun hne => ?_, fun _ => ⟨hun, hsigint⟩,
      fun _ => Or.inr hsigint, ?_, ?_, ?_, hw.alive⟩
    · refine ⟨Bool.eq_false_iff.mpr fun hopen => ?_, hun, hsigint⟩
      have hclosed := (hw.late hne).1
      rw [hfd hopen] at hclosed
      cases hclosed
    · rintro (hpc | hpc | hpc) <;> (dsimp only at hpc; rw [hpc] at hun; cases hun)
    · rintro (hpc | hpc) <;> (dsimp only at hpc; rw [hpc] at hun; cases hun)
    · intro hpc
      dsimp only at hpc
      rw [hpc] at hun
      cases hun
  · exact hr.closed hfd rfl rfl rfl rfl rfl rfl id

theorem terminate_sound {pc : TerminationPc} {next : WriterPc} (hw : WriterSound all s tr)
    (hr : ReaderSound s tr) (hpc : s.writer = .terminate pc)
    (hnext : next = .exit ∨ ∃ pc', next = .terminate pc') :
    WriterSound all { (terminationHandler s pc).1 with writer := next } tr ∧
      ReaderSound { (terminationHandler s pc).1 with writer := next } tr := by
  obtain ⟨fd, file, raw, after, hstep, hfd, -, -⟩ := terminationHandler_cases s pc
  have haccount := hw.account (by rw [hpc]; nofun)
  have hremaining : remaining s = [] := by rw [remaining, hpc]
  rw [hremaining] at haccount
  rw [hstep]
  have hquiet : next.unhandled = false ∧ next.keyed = false := by
    rcases hnext with rfl | ⟨pc', rfl⟩ <;> exact ⟨rfl, rfl⟩
  constructor
  · refine ⟨fun _ => ?_, hw.begun, ?_, fun hne => ?_, fun hne => ⟨hquiet.1, (hw.handled hne).2⟩,
      fun hkeyed => ?_, ?_, ?_, ?_, ?_⟩
    · rcases hnext with rfl | ⟨pc', rfl⟩ <;> exact haccount
    · rintro (hun | hkeyed)
      · rw [hquiet.1] at hun
        cases hun
      · rw [hquiet.2] at hkeyed
        cases hkeyed
    · refine ⟨Bool.eq_false_iff.mpr fun hopen => ?_, hquiet.1, (hw.late hne).2.2⟩
      have hclosed := (hw.late hne).1
      rw [hfd hopen] at hclosed
      cases hclosed
    · rw [hquiet.2] at hkeyed
      cases hkeyed
    · rintro (rfl | rfl | rfl) <;> cases hquiet.1
    · rintro (rfl | rfl) <;> cases hquiet.1
    · rintro rfl
      cases hquiet.1
    · rcases hnext with rfl | ⟨pc', rfl⟩ <;> exact ⟨nofun, nofun⟩
  · exact hr.closed hfd rfl rfl rfl rfl rfl rfl fun _ => by rw [hpc]; rfl

theorem mainStep_sound (hw : WriterSound all s tr) (hr : ReaderSound s tr)
    (hs : mainStep s = some (s', seen)) :
    WriterSound all s' (tr ++ seen) ∧ ReaderSound s' (tr ++ seen) := by
  cases hpc : s.writer <;> simp only [mainStep, hpc, reduceCtorEq] at hs
  case mkfifo =>
    rw [if_neg (by rw [hw.first hpc]; nofun)] at hs
    obtain ⟨rfl, rfl⟩ := Prod.mk.inj (Option.some.inj hs)
    rw [List.append_nil]
    refine ⟨hw.prepared (by rw [hpc]; rfl) (Or.inl rfl) rfl rfl ?_ (fun hne => absurd rfl hne)
      (fun _ => hw.fresh (Or.inl hpc)) nofun, hr.of_same rfl rfl rfl rfl rfl rfl nofun⟩
    simp [remaining, hpc]
  case «open» =>
    split_ifs at hs with hfile
    obtain ⟨rfl, rfl⟩ := Prod.mk.inj (Option.some.inj hs)
    rw [List.append_nil]
    have hfresh := hw.fresh (Or.inr hpc)
    refine ⟨hw.prepared (by rw [hpc]; rfl) (Or.inl rfl) rfl rfl ?_ (fun _ => rfl) nofun nofun, ?_⟩
    · simp [remaining, hpc]
    · refine ⟨hr.came, hr.readerFd, fun _ => rfl, fun hend => ?_, fun _ => rfl, nofun, hr.flow⟩
      have hwas := hr.passed (ending_passed hend)
      rw [hfresh] at hwas
      cases hwas
  case opening =>
    split_ifs at hs with hcame
    obtain ⟨rfl, rfl⟩ := Prod.mk.inj (Option.some.inj hs)
    rw [List.append_nil]
    have hfd := hw.opened (Or.inl hpc)
    refine ⟨hw.prepared (by rw [hpc]; rfl) (Or.inl rfl) rfl rfl ?_ (fun _ => hfd) nofun nofun,
      hr.of_same rfl rfl rfl rfl rfl rfl fun _ => ⟨hr.writerFd hfd, hcame⟩⟩
    simp [remaining, hpc]
  case disableBuffering =>
    obtain ⟨rfl, rfl⟩ := Prod.mk.inj (Option.some.inj hs)
    rw [List.append_nil]
    have hfd := hw.opened (Or.inr (Or.inl hpc))
    refine ⟨hw.prepared (by rw [hpc]; rfl) (Or.inl rfl) rfl rfl ?_ (fun _ => hfd) nofun nofun,
      hr.of_same rfl rfl rfl rfl rfl rfl fun _ => hr.met (by rw [hpc]; rfl)⟩
    simp [remaining, hpc]
  case signal =>
    rw [hw.running (Or.inl (by rw [hpc]; rfl)), loopHead_running] at hs
    obtain ⟨rfl, rfl⟩ := Prod.mk.inj (Option.some.inj hs)
    rw [List.append_nil]
    have hfd := hw.opened (Or.inr (Or.inr hpc))
    have hrun := hw.running (Or.inl (by rw [hpc]; rfl))
    refine ⟨hw.prepared (by rw [hpc]; rfl) (Or.inr rfl) hrun.symm rfl ?_ (fun _ => hfd) nofun nofun,
      hr.of_same rfl rfl rfl rfl rfl rfl fun _ => hr.met (by rw [hpc]; rfl)⟩
    simp [remaining, hpc]
  case getKey =>
    obtain ⟨ch, stdin, hstdin, rfl, rfl⟩ := getchar_eq_some hs
    rw [List.append_nil]
    exact ⟨hw.gotKey hpc hstdin, (gotKey_frame ch stdin s).readerSound hr (by rw [hpc]; rfl)⟩
  case getBracket =>
    obtain ⟨ch, stdin, hstdin, rfl, rfl⟩ := getchar_eq_some hs
    rw [List.append_nil]
    exact ⟨hw.gotBracket hpc hstdin,
      (gotBracket_frame ch stdin s).readerSound hr (by rw [hpc]; rfl)⟩
  case getArrow =>
    obtain ⟨ch, stdin, hstdin, rfl, rfl⟩ := getchar_eq_some hs
    rw [List.append_nil]
    exact ⟨hw.gotArrow hpc hstdin, (gotArrow_frame ch stdin s).readerSound hr (by rw [hpc]; rfl)⟩
  case write => exact writeRecord_sound hw hr hpc hs
  case terminate pc =>
    cases hstep : terminationHandler s pc with
    | mk t next =>
      rw [hstep] at hs
      cases next with
      | none =>
        obtain ⟨rfl, rfl⟩ := Prod.mk.inj (Option.some.inj hs)
        have hsound := terminate_sound hw hr hpc (Or.inl rfl)
        rw [hstep] at hsound
        rwa [List.append_nil]
      | some pc' =>
        obtain ⟨rfl, rfl⟩ := Prod.mk.inj (Option.some.inj hs)
        have hsound := terminate_sound hw hr hpc (Or.inr ⟨pc', rfl⟩)
        rw [hstep] at hsound
        rwa [List.append_nil]
  case exit =>
    obtain ⟨rfl, rfl⟩ := Prod.mk.inj (Option.some.inj hs)
    rw [List.append_nil]
    have haccount := hw.account (by rw [hpc]; nofun)
    have hrest : remaining s = [] := by rw [remaining, hpc]
    rw [hrest] at haccount
    refine ⟨⟨fun _ => haccount, hw.begun, nofun, fun hne => ⟨rfl, rfl, (hw.late hne).2.2⟩,
      fun hne => ⟨rfl, (hw.handled hne).2⟩, nofun, nofun, nofun, nofun, nofun, nofun⟩, ?_⟩
    have hnever : false = true → s.writerFd = true := nofun
    exact hr.closed hnever rfl rfl rfl rfl rfl rfl fun _ => by rw [hpc]; rfl

theorem writerStep_sound (hw : WriterSound all s tr) (hr : ReaderSound s tr)
    (hs : writerStep s = some (s', seen)) :
    WriterSound all s' (tr ++ seen) ∧ ReaderSound s' (tr ++ seen) := by
  cases hhandler : s.handler with
  | none =>
    simp only [writerStep, hhandler] at hs
    exact mainStep_sound hw hr hs
  | some pc =>
    simp only [writerStep, hhandler] at hs
    obtain ⟨rfl, rfl⟩ := Prod.mk.inj (Option.some.inj hs)
    rw [List.append_nil]
    exact handlerStep_sound hw hr hhandler

theorem WriterSound.of_reader {reader : ReaderPc} {readerFd readerCame writerCame file : Bool}
    {pipe : List Byte} (h : WriterSound all s tr) (hwritten : written seen = [])
    (hrefused : refused seen = []) (hcame : writerCame = true → s.writerCame = true)
    (hfile : file = true → s.backingFile = true) :
    WriterSound all { s with reader, readerFd, readerCame, writerCame, backingFile := file, pipe }
      (tr ++ seen) := by
  have hw : written (tr ++ seen) = written tr := by rw [written_append, hwritten, List.append_nil]
  have hr : refused (tr ++ seen) = refused tr := by rw [refused_append, hrefused, List.append_nil]
  refine ⟨?_, ?_, h.running, ?_, fun hne => ?_, fun hkeyed => ?_, h.opened, fun hfresh => ?_, ?_,
    h.alive⟩
  · rw [hw, hr]
    exact h.account
  · rw [hw]
    exact h.begun
  · rw [hr]
    exact fun hne => ⟨(h.late hne).1, (h.late hne).2.1, List.mem_append_left _ (h.late hne).2.2⟩
  · exact ⟨(h.handled hne).1, List.mem_append_left _ (h.handled hne).2⟩
  · exact (h.keyed hkeyed).imp_right (List.mem_append_left _)
  · refine Bool.eq_false_iff.mpr fun hopened => ?_
    have hnone := h.fresh hfresh
    rw [hcame hopened] at hnone
    cases hnone
  · intro hpc
    refine Bool.eq_false_iff.mpr fun hexists => ?_
    have hnone := h.first hpc
    rw [hfile hexists] at hnone
    cases hnone

theorem ReaderSound.read (h : ReaderSound s tr) (hnext : s'.reader.connected = true)
    (hending : s'.reader.ending = false) (hcame : s'.readerCame = true)
    (hfd : s'.readerFd = true) (hpassed : s'.reader.passed = true → s.writerCame = true)
    (hwriterFd : s'.writerFd = s.writerFd) (hwriterCame : s'.writerCame = s.writerCame)
    (hwriter : s'.writer = s.writer)
    (hflow : (written (tr ++ seen)).flatten = printed (tr ++ seen) ++ (s'.reader.held ++ s'.pipe)) :
    ReaderSound s' (tr ++ seen) := by
  refine ⟨⟨fun _ => hnext, fun _ => hcame⟩, fun _ _ => hfd, ?_, fun hend => ?_, ?_, ?_, hflow⟩
  · rw [hwriterCame]
    exact hpassed
  · rw [hending] at hend
    cases hend
  · rw [hwriterFd, hwriterCame]
    exact h.writerFd
  · rw [hwriter, hwriterCame]
    exact fun hconnected => ⟨(h.met hconnected).1, hcame⟩

theorem ReaderSound.end (h : ReaderSound s tr) (hconnected : s.reader.connected = true)
    (hold : s.reader.held = []) (hnext : s'.reader.ending = true)
    (hpassed : s.reader.passed = true) (hclosed : s.pipe = [] ∧ s.writerFd = false)
    (hpipe : s'.pipe = s.pipe) (hreaderCame : s'.readerCame = s.readerCame)
    (hwriterFd : s'.writerFd = s.writerFd) (hwriterCame : s'.writerCame = s.writerCame)
    (hwriter : s'.writer = s.writer) : ReaderSound s' tr := by
  have hflow := h.flow
  have hcame := h.came.mpr hconnected
  have hheld : s'.reader.held = [] := by
    cases hpc : s'.reader <;> rw [hpc] at hnext <;> first | rfl | cases hnext
  have hnext' : s'.reader.connected = true := by
    cases hpc : s'.reader <;> rw [hpc] at hnext <;> first | rfl | cases hnext
  refine ⟨⟨fun _ => hnext', fun _ => hreaderCame.trans hcame⟩, fun _ hend => ?_, fun _ => ?_,
    fun _ => ?_, ?_, ?_, ?_⟩
  · rw [hnext] at hend
    cases hend
  · rw [hwriterCame]
    exact h.passed hpassed
  · rw [hpipe, hwriterFd]
    exact hclosed
  · rw [hwriterFd, hwriterCame]
    exact h.writerFd
  · rw [hwriter, hwriterCame, hreaderCame]
    exact h.met
  · rw [hheld, hpipe, hflow, hold]

theorem readerStep_sound (hw : WriterSound all s tr) (hr : ReaderSound s tr)
    (hs : readerStep s = some (s', seen)) :
    WriterSound all s' (tr ++ seen) ∧ ReaderSound s' (tr ++ seen) := by
  have hflow := hr.flow
  cases hpc : s.reader <;> simp only [readerStep, hpc, reduceCtorEq] at hs
  case «open» =>
    rw [hpc] at hflow
    split_ifs at hs with hfile
    · obtain ⟨rfl, rfl⟩ := Prod.mk.inj (Option.some.inj hs)
      have hnever : s.readerCame ≠ true := fun hcame => by
        have hconnected := hr.came.mp hcame
        rw [hpc] at hconnected
        cases hconnected
      refine ⟨hw.of_reader rfl rfl hr.writerFd id, ?_⟩
      rw [List.append_nil]
      exact ⟨⟨fun _ => rfl, fun _ => rfl⟩, fun _ _ => rfl, nofun, nofun, id,
        fun hmet => absurd (hr.met hmet).2 hnever, hflow⟩
    · obtain ⟨rfl, rfl⟩ := Prod.mk.inj (Option.some.inj hs)
      have hcame := hr.came
      rw [hpc] at hcame
      refine ⟨hw.of_reader rfl rfl id id, ?_⟩
      rw [List.append_nil]
      exact ⟨hcame, nofun, nofun, nofun, hr.writerFd, hr.met, hflow⟩
  case opening =>
    have hconnected : s.reader.connected = true := by rw [hpc]; rfl
    have hfd := hr.readerFd hconnected (by rw [hpc]; rfl)
    rw [hpc] at hflow
    split_ifs at hs with hcame
    obtain ⟨rfl, rfl⟩ := Prod.mk.inj (Option.some.inj hs)
    refine ⟨hw.of_reader rfl rfl id id,
      hr.read rfl rfl (hr.came.mpr hconnected) hfd (fun _ => hcame) rfl rfl rfl ?_⟩
    rw [List.append_nil]
    exact hflow
  case read =>
    have hconnected : s.reader.connected = true := by rw [hpc]; rfl
    have hpassed : s.reader.passed = true := by rw [hpc]; rfl
    have hfd := hr.readerFd hconnected (by rw [hpc]; rfl)
    cases hpipe : s.pipe with
    | nil =>
      simp only [hpipe] at hs
      split_ifs at hs with hclosed
      obtain ⟨rfl, rfl⟩ := Prod.mk.inj (Option.some.inj hs)
      refine ⟨hw.of_reader rfl rfl id id, ?_⟩
      rw [List.append_nil]
      exact hr.end hconnected (by rw [hpc]; rfl) rfl hpassed ⟨hpipe, hclosed⟩ hpipe.symm
        rfl rfl rfl rfl
    | cons buf pipe =>
      rw [hpc, hpipe] at hflow
      simp only [hpipe] at hs
      obtain ⟨rfl, rfl⟩ := Prod.mk.inj (Option.some.inj hs)
      refine ⟨hw.of_reader rfl rfl id id, hr.read rfl rfl (hr.came.mpr hconnected) hfd
        (fun _ => hr.passed hpassed) rfl rfl rfl ?_⟩
      rw [List.append_nil]
      exact hflow
  case print buf =>
    have hconnected : s.reader.connected = true := by rw [hpc]; rfl
    have hfd := hr.readerFd hconnected (by rw [hpc]; rfl)
    have hpassed : s.reader.passed = true := by rw [hpc]; rfl
    rw [hpc] at hflow
    obtain ⟨rfl, rfl⟩ := Prod.mk.inj (Option.some.inj hs)
    refine ⟨hw.of_reader rfl rfl id id, hr.read rfl rfl (hr.came.mpr hconnected) hfd
      (fun _ => hr.passed hpassed) rfl rfl rfl ?_⟩
    have hwritten : written (tr ++ [Seen.printed buf]) = written tr := by simp [written]
    have hprinted : printed (tr ++ [Seen.printed buf]) = printed tr ++ [buf] := by simp [printed]
    rw [hwritten, hprinted, hflow]
    simp
  case close =>
    obtain ⟨rfl, rfl⟩ := Prod.mk.inj (Option.some.inj hs)
    refine ⟨hw.of_reader rfl rfl id id, ?_⟩
    rw [List.append_nil]
    exact hr.end (by rw [hpc]; rfl) (by rw [hpc]; rfl) rfl (by rw [hpc]; rfl)
      (hr.atEnd (by rw [hpc]; rfl)) rfl rfl rfl rfl rfl
  case unlink =>
    obtain ⟨rfl, rfl⟩ := Prod.mk.inj (Option.some.inj hs)
    refine ⟨hw.of_reader rfl rfl id nofun, ?_⟩
    rw [List.append_nil]
    exact hr.end (by rw [hpc]; rfl) (by rw [hpc]; rfl) rfl (by rw [hpc]; rfl)
      (hr.atEnd (by rw [hpc]; rfl)) rfl rfl rfl rfl rfl
  case exit =>
    obtain ⟨rfl, rfl⟩ := Prod.mk.inj (Option.some.inj hs)
    refine ⟨hw.of_reader rfl rfl id id, ?_⟩
    rw [List.append_nil]
    exact hr.end (by rw [hpc]; rfl) (by rw [hpc]; rfl) rfl (by rw [hpc]; rfl)
      (hr.atEnd (by rw [hpc]; rfl)) rfl rfl rfl rfl rfl

/-- Before the handler is installed the signal ends the writer; later it starts the handler. -/
theorem sigintStep_sound (hw : WriterSound all s tr) (hr : ReaderSound s tr)
    (hs : sigintStep s = some (s', seen)) :
    WriterSound all s' (tr ++ seen) ∧ ReaderSound s' (tr ++ seen) := by
  have hlater : Seen.sigint ∈ tr ++ [Seen.sigint] := by simp
  have hwritten : written (tr ++ [Seen.sigint]) = written tr := by simp [written]
  have hrefused : refused (tr ++ [Seen.sigint]) = refused tr := by simp [refused]
  have hprinted : printed (tr ++ [Seen.sigint]) = printed tr := by simp [printed]
  unfold sigintStep at hs
  split_ifs at hs with hgone hun hnone
  · obtain ⟨rfl, rfl⟩ := Prod.mk.inj (Option.some.inj hs)
    obtain ⟨hquiet, hidle⟩ := hw.quiet hun
    constructor
    · refine ⟨fun hne => absurd rfl hne, ?_, nofun, fun hne => absurd (hrefused.trans hquiet) hne,
        fun hne => absurd hidle hne, nofun, nofun, nofun, nofun, nofun, nofun⟩
      rw [hwritten]
      exact hw.begun
    · have hsame : ReaderSound s (tr ++ [Seen.sigint]) := by
        refine ⟨hr.came, hr.readerFd, hr.passed, hr.atEnd, hr.writerFd, hr.met, ?_⟩
        rw [hwritten, hprinted]
        exact hr.flow
      have hnever : false = true → s.writerFd = true := nofun
      exact hsame.closed hnever rfl rfl rfl rfl rfl rfl nofun
  · obtain ⟨rfl, rfl⟩ := Prod.mk.inj (Option.some.inj hs)
    rw [Bool.not_eq_true] at hun
    constructor
    · refine ⟨?_, ?_, hw.running, ?_, fun _ => ⟨hun, hlater⟩, fun _ => Or.inr hlater, hw.opened,
        hw.fresh, hw.first, hw.alive⟩
      · rw [hwritten, hrefused]
        exact hw.account
      · rw [hwritten]
        exact hw.begun
      · rw [hrefused]
        exact fun hne => ⟨(hw.late hne).1, hun, hlater⟩
    · refine ⟨hr.came, hr.readerFd, hr.passed, hr.atEnd, hr.writerFd, hr.met, ?_⟩
      rw [hwritten, hprinted]
      exact hr.flow

theorem started_sound (pid : BitVec 32) (keys : List ℤ) :
    WriterSound (records pid .key 0 keys) (started pid keys) [] ∧
      ReaderSound (started pid keys) [] :=
  ⟨⟨fun _ => rfl, List.nil_prefix, fun _ => rfl, fun h => absurd rfl h, fun h => absurd rfl h,
    nofun, nofun, fun _ => rfl, fun _ => rfl, nofun, nofun⟩,
    ⟨⟨nofun, nofun⟩, nofun, nofun, nofun, nofun, nofun, rfl⟩⟩

theorem sound_of_reaches {pid : BitVec 32} {keys : List ℤ} {s : Processes} {tr : List Seen}
    (h : Reaches pipeNamed (started pid keys) s tr) :
    WriterSound (records pid .key 0 keys) s tr ∧ ReaderSound s tr := by
  induction h with
  | start => exact started_sound pid keys
  | @next s s' a tr seen _ hs ih =>
    cases a with
    | writer => exact writerStep_sound ih.1 ih.2 hs
    | reader => exact readerStep_sound ih.1 ih.2 hs
    | sigint => exact sigintStep_sound ih.1 ih.2 hs

end Steps

section Delivery

variable {all : List (List Byte)} {s : Processes} {tr : List Seen}

/-- What the two ends show of the records `all` that the keys ask for. A signal does not end the
writer; what it writes from then on is `refused`. -/
structure Delivered (all : List (List Byte)) (s : Processes) (tr : List Seen) : Prop where
  begun : written tr <+: all
  inOrder : printed tr <+: (written tr).flatten
  complete : s.reader = .exited → printed tr = (written tr).flatten
  accounted : s.writer = .exited → written tr ++ refused tr = all
  undisturbed : .sigint ∉ tr → refused tr = []
  alive : s.writer ≠ .killed

theorem WriterSound.accounted (h : WriterSound all s tr) (hexited : s.writer = .exited) :
    written tr ++ refused tr = all := by
  have hnothing : remaining s = [] := by rw [remaining, hexited]
  have haccount := h.account (by rw [hexited]; nofun)
  rwa [hnothing, List.append_nil] at haccount

theorem ReaderSound.complete (h : ReaderSound s tr) (hend : s.reader.ending = true) :
    printed tr = (written tr).flatten := by
  have hheld : s.reader.held = [] := by
    cases hpc : s.reader <;> rw [hpc] at hend <;> first | rfl | cases hend
  rw [h.flow, hheld, (h.atEnd hend).1, List.append_nil, List.append_nil]

/-- Whatever the interleaving and whenever `SIGINT` comes, the reader prints a beginning of what
was written, all of it by the time it exits, and no record is lost without a signal. -/
theorem named_pipe_delivers (pid : BitVec 32) (keys : List ℤ)
    (h : Reaches pipeNamed (started pid keys) s tr) :
    Delivered (records pid .key 0 keys) s tr := by
  obtain ⟨hw, hr⟩ := sound_of_reaches h
  refine ⟨hw.begun, ⟨_, hr.flow.symm⟩, fun hexited => ?_, hw.accounted, fun hquiet => ?_,
    hw.alive.1⟩
  · exact hr.complete (by rw [hexited]; rfl)
  · by_contra hlost
    exact hquiet (hw.late hlost).2.2

/-- Two arrows and `q`, with a `SIGINT` in between: the second record is refused. -/
theorem named_pipe_delivers_first : ∃ s tr, Delivered [record 7 1, record 7 2] s tr ∧
    s.writer = .exited ∧ s.reader = .exited ∧ refused tr = [record 7 2] := by
  obtain ⟨s, tr, hrun, hwriter, hreader, hrefused⟩ : ∃ s tr, exec pipeNamed
      (started 7 [27, 91, 65, 27, 91, 65, 113]) (List.replicate 2 Action.writer ++
        List.replicate 2 Action.reader ++ List.replicate 7 Action.writer ++ Action.sigint ::
        List.replicate 12 Action.writer ++ List.replicate 34 Action.reader) = some (s, tr) ∧
      s.writer = .exited ∧ s.reader = .exited ∧ refused tr = [record 7 2] := by
    decide
  exact ⟨s, tr, named_pipe_delivers 7 _ (Reaches.of_exec hrun), hwriter, hreader, hrefused⟩

end Delivery

end LinuxOddsAndEnds.Ipc.PipeNamed
