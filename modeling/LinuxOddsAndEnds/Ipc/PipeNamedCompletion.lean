import LinuxOddsAndEnds.Ipc.PipeNamedDelivery

/-!
# Both ends of the named pipe exit

Without further signals every step uses up keys, bytes in the pipe or a part of one of the two
programs, so no run goes on for ever. Which states a run can stop in says when the two programs
are sure to come to their ends.
-/

namespace LinuxOddsAndEnds.Ipc.PipeNamed

open Foundation
open PipeUnnamed (pipeCapacity Position LoopExit loopExit length_record)

def TerminationPc.weight : TerminationPc → ℕ
  | .close => 3
  | .unlink => 2
  | .enableBuffering => 1

def handlerWeight (handler : Option TerminationPc) : ℕ := handler.elim 0 TerminationPc.weight

/-- What is left of the writer's program. The room for a record stands at the `write`. -/
def WriterPc.weight : WriterPc → ℕ
  | .mkfifo => 10
  | .open => 9
  | .opening => 8
  | .disableBuffering => 7
  | .signal => 6
  | .getKey | .getBracket | .getArrow => 5
  | .write => 2 * pipeCapacity + 6
  | .terminate pc => pc.weight + 1
  | .exit => 1
  | .exited | .failed | .interrupted | .killed => 0

def ReaderPc.weight : ReaderPc → ℕ
  | .open => 7
  | .opening => 6
  | .print _ => 5
  | .read => 4
  | .close => 3
  | .unlink => 2
  | .exit => 1
  | .exited | .failed => 0

/-- A byte costs the reader a `read` and a `print`, a key at most a record. -/
def weight (s : Processes) : ℕ :=
  (2 * pipeCapacity + 2) * s.stdin.length + s.writer.weight + handlerWeight s.handler +
    2 * s.pipe.length + s.reader.weight

def undisturbed : Machine Processes Action Seen := pipeNamed.when fun _ a => a != .sigint

section Weight

variable {s s' : Processes} {seen : List Seen} {a : Action}

theorem weight_loopHead (running : Bool) : (WriterPc.loopHead running).weight ≤ 5 := by
  cases running <;> decide

/-- What a key does to the writer is paid for by the key. -/
structure PaidByKey (s s' : Processes) : Prop where
  stdin : s'.stdin = s.stdin
  writer : s'.writer.weight ≤ 2 * pipeCapacity + 6

theorem PaidByKey.moved {pc : WriterPc} (h : pc.weight ≤ 5) (s : Processes) :
    PaidByKey s { s with writer := pc } := ⟨rfl, h.trans (by decide)⟩

theorem gotKey_paid (ch : ℤ) (s : Processes) : PaidByKey s (gotKey ch s) := by
  unfold gotKey
  split_ifs
  · exact .moved (by decide) s
  · exact .moved (by decide) s
  · exact .moved (weight_loopHead s.running) s

theorem gotBracket_paid (ch : ℤ) (s : Processes) : PaidByKey s (gotBracket ch s) := by
  unfold gotBracket
  split_ifs
  · exact .moved (by decide) s
  · exact .moved (weight_loopHead s.running) s

theorem changed_paid (val : BitVec 32) (s : Processes) : PaidByKey s (changed val s) := by
  refine ⟨rfl, ?_⟩
  have hloop := weight_loopHead (s.running && val != 10)
  simp only [changed]
  split_ifs
  · decide
  · omega

theorem gotArrow_paid (keyVal : ℤ) (s : Processes) : PaidByKey s (gotArrow keyVal s) := by
  unfold gotArrow
  split_ifs
  · exact changed_paid _ s
  · exact changed_paid _ s
  · exact .moved (weight_loopHead s.running) s

theorem getchar_weight {next : ℤ → Processes → Processes} (hpc : s.writer.weight = 5)
    (hframe : ∀ ch stdin, KeyFrame s (next ch { s with stdin }))
    (hpaid : ∀ ch stdin, PaidByKey { s with stdin } (next ch { s with stdin }))
    (h : getchar next s = some (s', seen)) : weight s' < weight s := by
  obtain ⟨ch, stdin, hstdin, rfl, -⟩ := getchar_eq_some h
  have hkeys := (hpaid ch stdin).stdin
  have hwriter := (hpaid ch stdin).writer
  simp only [weight, hkeys, (hframe ch stdin).pipe, (hframe ch stdin).reader,
    (hframe ch stdin).handler, hstdin, hpc, List.length_cons, Nat.mul_succ]
  omega

theorem writeRecord_weight (hpc : s.writer = .write) (h : writeRecord s = some (s', seen)) :
    weight s' < weight s := by
  have hloop := weight_loopHead s.running
  have hroom := length_record s.pid s.val
  have hwrite : s.writer.weight = 2 * pipeCapacity + 6 := by rw [hpc]; rfl
  dsimp only [writeRecord] at h
  split_ifs at h <;> obtain ⟨rfl, -⟩ := Prod.mk.inj (Option.some.inj h)
  · simp only [weight, hwrite]
    omega
  · have hkilled : WriterPc.killed.weight = 0 := rfl
    simp only [weight, hwrite, hkilled]
    omega
  · simp only [weight, hwrite, List.length_append]
    omega

theorem mainStep_weight (h : mainStep s = some (s', seen)) : weight s' < weight s := by
  have hloop := weight_loopHead s.running
  cases hpc : s.writer <;> simp only [mainStep, hpc, reduceCtorEq] at h
  case getKey =>
    exact getchar_weight (by rw [hpc]; rfl) (fun ch stdin => gotKey_frame ch stdin s)
      (fun ch stdin => gotKey_paid ch _) h
  case getBracket =>
    exact getchar_weight (by rw [hpc]; rfl) (fun ch stdin => gotBracket_frame ch stdin s)
      (fun ch stdin => gotBracket_paid ch _) h
  case getArrow =>
    exact getchar_weight (by rw [hpc]; rfl) (fun ch stdin => gotArrow_frame ch stdin s)
      (fun ch stdin => gotArrow_paid ch _) h
  case write => exact writeRecord_weight hpc h
  case terminate pc =>
    cases pc <;> obtain ⟨rfl, -⟩ := Prod.mk.inj (Option.some.inj h) <;>
      simp [weight, hpc, WriterPc.weight, TerminationPc.weight]
  all_goals
    try split_ifs at h
    all_goals
      obtain ⟨rfl, -⟩ := Prod.mk.inj (Option.some.inj h)
      simp only [weight, hpc, WriterPc.weight] at hloop ⊢
      omega

theorem writerStep_weight (h : writerStep s = some (s', seen)) : weight s' < weight s := by
  cases hhandler : s.handler with
  | none =>
    simp only [writerStep, hhandler] at h
    exact mainStep_weight h
  | some pc =>
    simp only [writerStep, hhandler] at h
    obtain ⟨rfl, -⟩ := Prod.mk.inj (Option.some.inj h)
    cases pc <;> simp [weight, hhandler, handlerWeight, TerminationPc.weight, terminationHandler]

theorem readerStep_weight (h : readerStep s = some (s', seen)) : weight s' < weight s := by
  cases hpc : s.reader <;> simp only [readerStep, hpc, reduceCtorEq] at h
  case read =>
    cases hpipe : s.pipe with
    | nil =>
      simp only [hpipe] at h
      split_ifs at h
      obtain ⟨rfl, -⟩ := Prod.mk.inj (Option.some.inj h)
      simp only [weight, hpc, hpipe, ReaderPc.weight]
      omega
    | cons buf pipe =>
      simp only [hpipe] at h
      obtain ⟨rfl, -⟩ := Prod.mk.inj (Option.some.inj h)
      simp only [weight, hpc, hpipe, ReaderPc.weight, List.length_cons]
      omega
  all_goals
    try split_ifs at h
    all_goals
      obtain ⟨rfl, -⟩ := Prod.mk.inj (Option.some.inj h)
      simp only [weight, hpc, ReaderPc.weight]
      omega

theorem weight_decreases : Decreases undisturbed (fun _ => True) weight := by
  intro s a s' seen _ hs
  refine ⟨trivial, ?_⟩
  obtain ⟨hquiet, hs⟩ := Machine.when_eq_some.mp hs
  cases a with
  | writer => exact writerStep_weight hs
  | reader => exact readerStep_weight hs
  | sigint => cases hquiet

end Weight

/-- How the keys that are left end the loop. -/
def outcome (s : Processes) : Option LoopExit :=
  match s.writer with
  | .getBracket => loopExit .bracket s.val s.stdin
  | .getArrow => loopExit .arrow s.val s.stdin
  | _ => loopExit .key s.val s.stdin

@[simp] def WriterPc.done : WriterPc → Bool
  | .terminate _ | .exit | .exited => true
  | _ => false

/-- What the writer leaves behind, and the keys that are still to come. -/
structure Tidy (out : Option LoopExit) (s : Processes) : Prop where
  toCome : s.writer.unhandled = true ∨ s.writer.keyed = true → outcome s = out
  ended : s.writer.done = true → out ≠ none
  filed : s.writer ≠ .mkfifo → s.writer ≠ .interrupted → s.reader = .open ∨ s.writer = .open →
    s.backingFile = true
  unlinked : s.writer = .terminate .enableBuffering ∨ s.writer = .exit ∨ s.writer = .exited →
    s.backingFile = false
  restored : s.writer = .exit ∨ s.writer = .exited → s.raw = false
  closed : s.writer = .exited → s.writerFd = false

section Tidy

variable {s s' : Processes} {out : Option LoopExit} {all : List (List Byte)} {tr seen : List Seen}
  {ch : ℤ} {stdin : List ℤ}

theorem keyed_connected {pc : WriterPc} (hkeyed : pc.keyed = true) : pc.connected = true := by
  cases pc <;> first | rfl | cases hkeyed

theorem connected_of_alive {pc : WriterPc} (hun : pc.unhandled = false) (hne : pc ≠ .interrupted)
    (halive : pc ≠ .killed ∧ pc ≠ .failed) : pc.connected = true := by
  cases pc <;> simp_all [WriterPc.unhandled]

theorem ReaderSound.came_first (h : ReaderSound s tr) (hconnected : s.writer.connected = true) :
    s.reader ≠ .open ∧ s.reader ≠ .failed := by
  have hreader := h.came.mp (h.met hconnected).2
  constructor <;> intro he <;> rw [he] at hreader <;> cases hreader

theorem keyed_not_done {pc : WriterPc} (hkeyed : pc.keyed = true) : pc.done = false := by
  cases pc <;> first | rfl | cases hkeyed

theorem Tidy.of_key (hr : ReaderSound s tr) (hframe : KeyFrame s s')
    (hkeyed : s.writer.keyed = true)
    (hnext : s'.writer.keyed = true ∧ outcome s' = out ∨
      s'.writer = .terminate .close ∧ out ≠ none) : Tidy out s' := by
  have hopened : s'.reader ≠ .open := by
    rw [hframe.reader]
    exact (hr.came_first (keyed_connected hkeyed)).1
  rcases hnext with ⟨hkeyed', hout⟩ | ⟨hpc, hends⟩
  · refine ⟨fun _ => hout, fun hdone => ?_, fun _ _ hopen => ?_, fun hpc => ?_, fun hpc => ?_,
      fun hpc => ?_⟩
    · rw [keyed_not_done hkeyed'] at hdone
      cases hdone
    · rw [hopen.resolve_left hopened] at hkeyed'
      cases hkeyed'
    · rcases hpc with hpc | hpc | hpc <;> (rw [hpc] at hkeyed'; cases hkeyed')
    · rcases hpc with hpc | hpc <;> (rw [hpc] at hkeyed'; cases hkeyed')
    · rw [hpc] at hkeyed'
      cases hkeyed'
  · have hfiled : ¬(s'.reader = .open ∨ s'.writer = .open) := by
      rw [hpc]
      exact not_or.mpr ⟨hopened, nofun⟩
    refine ⟨?_, fun _ => hends, fun _ _ hopen => absurd hopen hfiled, ?_, ?_, ?_⟩ <;> rw [hpc]
    all_goals nofun

theorem Tidy.gotKey (h : Tidy out s) (hr : ReaderSound s tr) (hrun : s.running = true)
    (hpc : s.writer = .getKey) (hstdin : s.stdin = ch :: stdin) :
    Tidy out (gotKey ch { s with stdin }) := by
  have hkeyed : s.writer.keyed = true := by rw [hpc]; rfl
  refine Tidy.of_key hr (gotKey_frame ch stdin s) hkeyed ?_
  have hout := h.toCome (Or.inr hkeyed)
  simp only [outcome, hpc, hstdin, loopExit] at hout
  unfold PipeNamed.gotKey
  split_ifs at hout ⊢ with hquit hesc
  · rw [← hout]
    exact Or.inr ⟨rfl, Option.some_ne_none _⟩
  · exact Or.inl ⟨rfl, hout⟩
  · dsimp only
    rw [hrun, loopHead_running]
    exact Or.inl ⟨rfl, hout⟩

theorem Tidy.gotBracket (h : Tidy out s) (hr : ReaderSound s tr) (hrun : s.running = true)
    (hpc : s.writer = .getBracket) (hstdin : s.stdin = ch :: stdin) :
    Tidy out (gotBracket ch { s with stdin }) := by
  have hkeyed : s.writer.keyed = true := by rw [hpc]; rfl
  refine Tidy.of_key hr (gotBracket_frame ch stdin s) hkeyed ?_
  have hout := h.toCome (Or.inr hkeyed)
  simp only [outcome, hpc, hstdin, loopExit] at hout
  unfold PipeNamed.gotBracket
  split_ifs at hout ⊢ with hbracket
  · exact Or.inl ⟨rfl, hout⟩
  · dsimp only
    rw [hrun, loopHead_running]
    exact Or.inl ⟨rfl, hout⟩

theorem Tidy.changed {val : BitVec 32} (hr : ReaderSound s tr) (hrun : s.running = true)
    (hkeyed : s.writer.keyed = true)
    (hout : (if val = 10 then some .released else loopExit .key val stdin) = out) :
    Tidy out (changed val { s with stdin }) := by
  refine Tidy.of_key hr (changed_frame val stdin s) hkeyed ?_
  unfold PipeNamed.changed
  by_cases hten : val = 10
  · rw [if_pos hten] at hout
    rw [← hout]
    simp only [hten, hrun]
    exact Or.inr ⟨rfl, Option.some_ne_none _⟩
  · rw [if_neg hten] at hout
    simp only [hrun, Bool.true_and, bne_iff_ne.mpr hten]
    exact Or.inl ⟨rfl, hout⟩

theorem Tidy.gotArrow (h : Tidy out s) (hr : ReaderSound s tr) (hrun : s.running = true)
    (hpc : s.writer = .getArrow) (hstdin : s.stdin = ch :: stdin) :
    Tidy out (gotArrow ch { s with stdin }) := by
  have hkeyed : s.writer.keyed = true := by rw [hpc]; rfl
  have hout := h.toCome (Or.inr hkeyed)
  simp only [outcome, hpc, hstdin, loopExit] at hout
  have hframe := gotArrow_frame ch stdin s
  unfold PipeNamed.gotArrow at hframe ⊢
  by_cases hup : ch = 65
  · rw [if_pos hup] at hout ⊢
    exact Tidy.changed hr hrun hkeyed hout
  · rw [if_neg hup] at hout hframe ⊢
    by_cases hdown : ch = 66
    · rw [if_pos hdown] at hout ⊢
      exact Tidy.changed hr hrun hkeyed hout
    · rw [if_neg hdown] at hout hframe ⊢
      refine Tidy.of_key hr hframe hkeyed ?_
      dsimp only
      rw [hrun, loopHead_running]
      exact Or.inl ⟨rfl, hout⟩

theorem started_tidy (pid : BitVec 32) (keys : List ℤ) :
    Tidy (loopExit .key 0 keys) (started pid keys) :=
  ⟨fun _ => rfl, nofun, fun hne => absurd rfl hne, nofun, nofun, nofun⟩

theorem Tidy.of_done (hdone : s'.writer.done = true) (hended : out ≠ none)
    (hopened : s'.reader ≠ .open)
    (hunlinked : s'.writer = .terminate .enableBuffering ∨ s'.writer = .exit ∨
      s'.writer = .exited → s'.backingFile = false)
    (hrestored : s'.writer = .exit ∨ s'.writer = .exited → s'.raw = false)
    (hclosed : s'.writer = .exited → s'.writerFd = false) : Tidy out s' := by
  refine ⟨fun hloop => ?_, fun _ => hended, fun _ _ hopen => ?_, hunlinked, hrestored, hclosed⟩
  · cases hpc : s'.writer <;> rw [hpc] at hdone hloop <;>
      simp [WriterPc.unhandled] at hdone hloop
  · have hpc := hopen.resolve_left hopened
    rw [hpc] at hdone
    cases hdone

theorem Tidy.onward (h : Tidy out s) (hold : s.writer.unhandled = true ∨ s.writer.keyed = true)
    (hnext : s'.writer.unhandled = true ∨ s'.writer.keyed = true)
    (hsame : outcome s' = outcome s)
    (hfiled : s'.reader = .open ∨ s'.writer = .open → s'.backingFile = true) : Tidy out s' := by
  refine ⟨fun _ => hsame.trans (h.toCome hold), fun hdone => ?_, fun _ _ => hfiled, fun hpc => ?_,
    fun hpc => ?_, fun hpc => ?_⟩
  · cases hpc : s'.writer <;> rw [hpc] at hnext hdone <;> simp [WriterPc.unhandled] at hnext hdone
  · rcases hpc with hpc | hpc | hpc <;> (rw [hpc] at hnext; simp [WriterPc.unhandled] at hnext)
  · rcases hpc with hpc | hpc <;> (rw [hpc] at hnext; simp [WriterPc.unhandled] at hnext)
  · rw [hpc] at hnext
    simp [WriterPc.unhandled] at hnext

theorem mainStep_tidy (h : Tidy out s) (hw : WriterSound all s tr) (hr : ReaderSound s tr)
    (hs : mainStep s = some (s', seen)) : Tidy out s' := by
  cases hpc : s.writer <;> simp only [mainStep, hpc, reduceCtorEq] at hs
  case mkfifo =>
    rw [if_neg (by simp [hw.first hpc])] at hs
    obtain ⟨rfl, -⟩ := Prod.mk.inj (Option.some.inj hs)
    refine h.onward (by rw [hpc]; exact Or.inl rfl) (Or.inl rfl) ?_ fun _ => rfl
    simp [outcome, hpc]
  case «open» =>
    split_ifs at hs with hfile
    obtain ⟨rfl, -⟩ := Prod.mk.inj (Option.some.inj hs)
    refine h.onward (by rw [hpc]; exact Or.inl rfl) (Or.inl rfl) ?_ fun _ => hfile
    simp [outcome, hpc]
  case opening =>
    split_ifs at hs with hcame
    obtain ⟨rfl, -⟩ := Prod.mk.inj (Option.some.inj hs)
    refine h.onward (by rw [hpc]; exact Or.inl rfl) (Or.inl rfl) ?_ fun hopen => ?_
    · simp [outcome, hpc]
    · exact h.filed (by simp [hpc]) (by simp [hpc])
        (Or.inl (hopen.resolve_right (by simp)))
  case disableBuffering =>
    obtain ⟨rfl, -⟩ := Prod.mk.inj (Option.some.inj hs)
    refine h.onward (by rw [hpc]; exact Or.inl rfl) (Or.inl rfl) ?_ fun hopen => ?_
    · simp [outcome, hpc]
    · exact h.filed (by simp [hpc]) (by simp [hpc])
        (Or.inl (hopen.resolve_right (by simp)))
  case signal =>
    rw [hw.running (Or.inl (by rw [hpc]; rfl)), loopHead_running] at hs
    obtain ⟨rfl, -⟩ := Prod.mk.inj (Option.some.inj hs)
    refine h.onward (by rw [hpc]; exact Or.inl rfl) (Or.inr rfl) ?_ fun hopen => ?_
    · simp [outcome, hpc]
    · exact h.filed (by simp [hpc]) (by simp [hpc])
        (Or.inl (hopen.resolve_right (by simp)))
  case getKey =>
    obtain ⟨ch, stdin, hstdin, rfl, -⟩ := getchar_eq_some hs
    exact h.gotKey hr (hw.running (Or.inr (by rw [hpc]; rfl))) hpc hstdin
  case getBracket =>
    obtain ⟨ch, stdin, hstdin, rfl, -⟩ := getchar_eq_some hs
    exact h.gotBracket hr (hw.running (Or.inr (by rw [hpc]; rfl))) hpc hstdin
  case getArrow =>
    obtain ⟨ch, stdin, hstdin, rfl, -⟩ := getchar_eq_some hs
    exact h.gotArrow hr (hw.running (Or.inr (by rw [hpc]; rfl))) hpc hstdin
  case write =>
    have hrun := hw.running (Or.inr (by rw [hpc]; rfl))
    have hopened : s.reader = .open → s.backingFile = true := fun hopen =>
      h.filed (by simp [hpc]) (by simp [hpc]) (Or.inl hopen)
    have hout : outcome s = loopExit .key s.val s.stdin := by rw [outcome, hpc]
    have hsound := writeRecord_sound hw hr hpc hs
    dsimp only [writeRecord] at hs
    rw [hrun, loopHead_running] at hs
    split_ifs at hs <;> obtain ⟨rfl, -⟩ := Prod.mk.inj (Option.some.inj hs)
    · exact h.onward (by rw [hpc]; exact Or.inr rfl) (Or.inr rfl) hout.symm
        fun hopen => hopened (hopen.resolve_right (by simp))
    · exact absurd rfl hsound.1.alive.1
    · exact h.onward (by rw [hpc]; exact Or.inr rfl) (Or.inr rfl) hout.symm
        fun hopen => hopened (hopen.resolve_right (by simp))
  case terminate pc =>
    have hended := h.ended (by rw [hpc]; rfl)
    have hopened := (hr.came_first (by rw [hpc]; rfl)).1
    cases pc with
    | close =>
      obtain ⟨rfl, -⟩ := Prod.mk.inj (Option.some.inj hs)
      exact Tidy.of_done rfl hended hopened (by simp) (by simp) (by simp)
    | unlink =>
      obtain ⟨rfl, -⟩ := Prod.mk.inj (Option.some.inj hs)
      exact Tidy.of_done rfl hended hopened (fun _ => rfl) (by simp) (by simp)
    | enableBuffering =>
      obtain ⟨rfl, -⟩ := Prod.mk.inj (Option.some.inj hs)
      have hunlinked := h.unlinked (Or.inl hpc)
      exact Tidy.of_done rfl hended hopened (fun _ => hunlinked) (fun _ => rfl) (by simp)
  case exit =>
    obtain ⟨rfl, -⟩ := Prod.mk.inj (Option.some.inj hs)
    have hunlinked := h.unlinked (Or.inr (Or.inl hpc))
    have hrestored := h.restored (Or.inl hpc)
    exact Tidy.of_done rfl (h.ended (by rw [hpc]; rfl)) (hr.came_first (by rw [hpc]; rfl)).1
      (fun _ => hunlinked) (fun _ => hrestored) fun _ => rfl

theorem handlerStep_tidy {pc : TerminationPc} (h : Tidy out s) (hw : WriterSound all s tr)
    (hr : ReaderSound s tr) (hhandler : s.handler = some pc) :
    Tidy out { (terminationHandler s pc).1 with handler := (terminationHandler s pc).2 } := by
  obtain ⟨hun, -⟩ := hw.handled (by rw [hhandler]; nofun)
  obtain ⟨fd, file, raw, next, hstep, hfd, hfile, hraw⟩ := terminationHandler_cases s pc
  rw [hstep]
  refine ⟨h.toCome, h.ended, fun _ hne hopen => ?_, fun hpc => ?_, fun hpc => ?_, fun hpc => ?_⟩
  · have hconnected := connected_of_alive hun hne hw.alive
    have hnot : s.writer ≠ .open := by
      intro hpc
      rw [hpc] at hun
      cases hun
    exact absurd (hopen.resolve_right hnot) (hr.came_first hconnected).1
  · refine Bool.eq_false_iff.mpr fun hstill => ?_
    have hgone := h.unlinked hpc
    rw [hfile hstill] at hgone
    cases hgone
  · refine Bool.eq_false_iff.mpr fun hstill => ?_
    have hgone := h.restored hpc
    rw [hraw hstill] at hgone
    cases hgone
  · refine Bool.eq_false_iff.mpr fun hstill => ?_
    have hgone := h.closed hpc
    rw [hfd hstill] at hgone
    cases hgone

/-- The reader takes nothing from the writer but the backing file, and that only at the end. -/
theorem Tidy.of_reader {reader : ReaderPc} {readerFd readerCame writerCame file : Bool}
    {pipe : List Byte} (h : Tidy out s) (hopen : reader ≠ .open)
    (hfile : file = true → s.backingFile = true) (hkept : s.writer = .open → file = s.backingFile) :
    Tidy out { s with reader, readerFd, readerCame, writerCame, backingFile := file, pipe } := by
  refine ⟨h.toCome, h.ended, fun hfirst hne hopened => ?_, fun hpc => ?_, h.restored, h.closed⟩
  · have hpc := hopened.resolve_left hopen
    rw [hkept hpc]
    exact h.filed hfirst hne (Or.inr hpc)
  · refine Bool.eq_false_iff.mpr fun hstill => ?_
    have hgone := h.unlinked hpc
    rw [hfile hstill] at hgone
    cases hgone

theorem readerStep_tidy (h : Tidy out s) (hw : WriterSound all s tr) (hr : ReaderSound s tr)
    (hs : readerStep s = some (s', seen)) : Tidy out s' := by
  cases hpc : s.reader <;> simp only [readerStep, hpc, reduceCtorEq] at hs
  case read =>
    cases hpipe : s.pipe with
    | nil =>
      simp only [hpipe] at hs
      split_ifs at hs
      obtain ⟨rfl, -⟩ := Prod.mk.inj (Option.some.inj hs)
      exact h.of_reader (by simp) id fun _ => rfl
    | cons buf pipe =>
      simp only [hpipe] at hs
      obtain ⟨rfl, -⟩ := Prod.mk.inj (Option.some.inj hs)
      exact h.of_reader (by simp) id fun _ => rfl
  case unlink =>
    obtain ⟨rfl, -⟩ := Prod.mk.inj (Option.some.inj hs)
    refine h.of_reader (by simp) (by simp) fun hfirst => ?_
    -- the writer has been through its `open`
    have hfresh := hw.fresh (Or.inr hfirst)
    rw [hr.passed (by rw [hpc]; rfl)] at hfresh
    cases hfresh
  all_goals
    try split_ifs at hs
    all_goals
      obtain ⟨rfl, -⟩ := Prod.mk.inj (Option.some.inj hs)
      exact h.of_reader (by simp) id fun _ => rfl

theorem sigintStep_tidy (h : Tidy out s) (hs : sigintStep s = some (s', seen)) : Tidy out s' := by
  unfold sigintStep at hs
  split_ifs at hs with hgone hun
  · obtain ⟨rfl, -⟩ := Prod.mk.inj (Option.some.inj hs)
    exact ⟨nofun, nofun, fun _ hne => absurd rfl hne, nofun, nofun, nofun⟩
  · obtain ⟨rfl, -⟩ := Prod.mk.inj (Option.some.inj hs)
    exact ⟨h.toCome, h.ended, h.filed, h.unlinked, h.restored, h.closed⟩

theorem tidy_of_reaches {pid : BitVec 32} {keys : List ℤ}
    (h : Reaches pipeNamed (started pid keys) s tr) : Tidy (loopExit .key 0 keys) s := by
  induction h with
  | start => exact started_tidy pid keys
  | @next s s' a tr seen hreach hs ih =>
    obtain ⟨hw, hr⟩ := sound_of_reaches hreach
    cases a with
    | writer =>
      cases hhandler : s.handler with
      | none =>
        simp only [pipeNamed, writerStep, hhandler] at hs
        exact mainStep_tidy ih hw hr hs
      | some pc =>
        simp only [pipeNamed, writerStep, hhandler] at hs
        obtain ⟨rfl, -⟩ := Prod.mk.inj (Option.some.inj hs)
        exact handlerStep_tidy ih hw hr hhandler
    | reader => exact readerStep_tidy ih hw hr hs
    | sigint => exact sigintStep_tidy ih hs

end Tidy

section Progress

variable {s s' : Processes} {out : Option LoopExit} {all : List (List Byte)} {tr seen : List Seen}

theorem mainStep_frame (h : mainStep s = some (s', seen)) :
    s'.writer ≠ .mkfifo ∧ s'.writer ≠ .interrupted ∧ s'.reader = s.reader := by
  have hkey {t : Processes} (hframe : KeyFrame s t) :
      t.writer ≠ .mkfifo ∧ t.writer ≠ .interrupted ∧ t.reader = s.reader := by
    have hconnected := hframe.connected
    refine ⟨fun he => ?_, fun he => ?_, hframe.reader⟩ <;> (rw [he] at hconnected; cases hconnected)
  have hloop :
      WriterPc.loopHead s.running ≠ .mkfifo ∧ WriterPc.loopHead s.running ≠ .interrupted := by
    cases s.running <;> exact ⟨by decide, by decide⟩
  cases hpc : s.writer <;> simp only [mainStep, hpc, reduceCtorEq] at h
  case getKey =>
    obtain ⟨ch, stdin, -, rfl, -⟩ := getchar_eq_some h
    exact hkey (gotKey_frame ch stdin s)
  case getBracket =>
    obtain ⟨ch, stdin, -, rfl, -⟩ := getchar_eq_some h
    exact hkey (gotBracket_frame ch stdin s)
  case getArrow =>
    obtain ⟨ch, stdin, -, rfl, -⟩ := getchar_eq_some h
    exact hkey (gotArrow_frame ch stdin s)
  case write =>
    dsimp only [writeRecord] at h
    split_ifs at h <;> obtain ⟨rfl, -⟩ := Prod.mk.inj (Option.some.inj h)
    · exact ⟨hloop.1, hloop.2, rfl⟩
    · exact ⟨by simp, by simp, rfl⟩
    · exact ⟨hloop.1, hloop.2, rfl⟩
  case signal =>
    obtain ⟨rfl, -⟩ := Prod.mk.inj (Option.some.inj h)
    exact ⟨hloop.1, hloop.2, rfl⟩
  case terminate pc =>
    cases pc <;> obtain ⟨rfl, -⟩ := Prod.mk.inj (Option.some.inj h) <;>
      exact ⟨by simp, by simp, rfl⟩
  all_goals
    try split_ifs at h
    all_goals
      obtain ⟨rfl, -⟩ := Prod.mk.inj (Option.some.inj h)
      exact ⟨by simp, by simp, rfl⟩

theorem writerStep_frame (h : writerStep s = some (s', seen)) :
    (s'.writer = .mkfifo → s.writer = .mkfifo ∧ s.handler ≠ none) ∧
      (s'.writer = .interrupted → s.writer = .interrupted) ∧ s'.reader = s.reader := by
  cases hhandler : s.handler with
  | none =>
    simp only [writerStep, hhandler] at h
    obtain ⟨hfirst, hnever, hreader⟩ := mainStep_frame h
    exact ⟨fun he => absurd he hfirst, fun he => absurd he hnever, hreader⟩
  | some pc =>
    simp only [writerStep, hhandler] at h
    obtain ⟨rfl, -⟩ := Prod.mk.inj (Option.some.inj h)
    obtain ⟨fd, file, raw, next, hstep, -⟩ := terminationHandler_cases s pc
    rw [hstep]
    exact ⟨fun he => ⟨he, Option.some_ne_none pc⟩, id, rfl⟩

theorem readerStep_writer (h : readerStep s = some (s', seen)) :
    s'.writer = s.writer ∧ s'.handler = s.handler := by
  cases hpc : s.reader <;> simp only [readerStep, hpc, reduceCtorEq] at h
  case read =>
    cases hpipe : s.pipe with
    | nil =>
      simp only [hpipe] at h
      split_ifs at h
      obtain ⟨rfl, -⟩ := Prod.mk.inj (Option.some.inj h)
      exact ⟨rfl, rfl⟩
    | cons buf pipe =>
      simp only [hpipe] at h
      obtain ⟨rfl, -⟩ := Prod.mk.inj (Option.some.inj h)
      exact ⟨rfl, rfl⟩
  all_goals
    try split_ifs at h
    all_goals
      obtain ⟨rfl, -⟩ := Prod.mk.inj (Option.some.inj h)
      exact ⟨rfl, rfl⟩

theorem early_of_reaches {pid : BitVec 32} {keys : List ℤ}
    (h : Reaches pipeNamed (started pid keys) s tr) (hpc : s.writer = .mkfifo) :
    s.reader = .open ∨ s.reader = .failed := by
  induction h with
  | start => exact Or.inl rfl
  | @next s s' a tr seen hreach hs ih =>
    obtain ⟨hw, -⟩ := sound_of_reaches hreach
    cases a with
    | writer =>
      obtain ⟨hfirst, hhandler⟩ := (writerStep_frame hs).1 hpc
      have hun := (hw.handled hhandler).1
      rw [hfirst] at hun
      cases hun
    | reader =>
      have hfirst : s.writer = .mkfifo := (readerStep_writer hs).1.symm.trans hpc
      have hnone := hw.first hfirst
      rcases ih hfirst with hreader | hreader <;>
        simp only [pipeNamed, readerStep, hreader, hnone, reduceCtorEq] at hs
      obtain ⟨rfl, -⟩ := Prod.mk.inj (Option.some.inj hs)
      exact Or.inr rfl
    | sigint =>
      simp only [pipeNamed, sigintStep] at hs
      split_ifs at hs with hgone hun
      · obtain ⟨rfl, -⟩ := Prod.mk.inj (Option.some.inj hs)
        cases hpc
      · obtain ⟨rfl, -⟩ := Prod.mk.inj (Option.some.inj hs)
        exact ih hpc

/-- The backing file is there for the reader, and no signal has ended the writer early. -/
structure Ready (s : Processes) : Prop where
  made : s.writer ≠ .mkfifo
  uninterrupted : s.writer ≠ .interrupted
  opened : s.reader ≠ .failed

theorem ready_step {a : Action} (h : Ready s) (ht : Tidy out s)
    (hs : undisturbed s a = some (s', seen)) : Ready s' := by
  obtain ⟨hquiet, hs⟩ := Machine.when_eq_some.mp hs
  cases a with
  | writer =>
    obtain ⟨hfirst, hnever, hreader⟩ := writerStep_frame hs
    refine ⟨fun he => h.made (hfirst he).1, fun he => h.uninterrupted (hnever he), ?_⟩
    rw [hreader]
    exact h.opened
  | reader =>
    have hwriter : s'.writer = s.writer := (readerStep_writer hs).1
    refine ⟨hwriter ▸ h.made, hwriter ▸ h.uninterrupted, fun hfailed => ?_⟩
    cases hpc : s.reader <;> simp only [pipeNamed, readerStep, hpc, reduceCtorEq] at hs
    case «open» =>
      rw [if_pos (ht.filed h.made h.uninterrupted (Or.inl hpc))] at hs
      obtain ⟨rfl, -⟩ := Prod.mk.inj (Option.some.inj hs)
      cases hfailed
    case read =>
      cases hpipe : s.pipe with
      | nil =>
        simp only [hpipe] at hs
        split_ifs at hs
        obtain ⟨rfl, -⟩ := Prod.mk.inj (Option.some.inj hs)
        cases hfailed
      | cons buf pipe =>
        simp only [hpipe] at hs
        obtain ⟨rfl, -⟩ := Prod.mk.inj (Option.some.inj hs)
        cases hfailed
    case opening =>
      split_ifs at hs
      obtain ⟨rfl, -⟩ := Prod.mk.inj (Option.some.inj hs)
      cases hfailed
    all_goals
      obtain ⟨rfl, -⟩ := Prod.mk.inj (Option.some.inj hs)
      cases hfailed
  | sigint => cases hquiet

theorem getchar_isSome {p : Position} {next : ℤ → Processes → Processes}
    (hout : loopExit p s.val s.stdin ≠ none) : getchar next s ≠ none := by
  cases hstdin : s.stdin with
  | nil =>
    rw [hstdin] at hout
    cases p <;> exact absurd rfl hout
  | cons ch stdin => simp [getchar, hstdin]

theorem reader_stop (hcame : s.writerCame = true) (hconnected : s.reader.connected = true)
    (hstop : readerStep s = none) :
    s.reader = .read ∧ s.pipe = [] ∧ s.writerFd = true ∨ s.reader = .exited := by
  cases hpc : s.reader <;> simp only [readerStep, hpc, hcame, reduceCtorEq, if_true] at hstop
  case «open» => rw [hpc] at hconnected; cases hconnected
  case failed => rw [hpc] at hconnected; cases hconnected
  case read =>
    cases hpipe : s.pipe with
    | nil =>
      simp only [hpipe] at hstop
      exact Or.inl ⟨rfl, rfl, by simpa using hstop⟩
    | cons buf pipe => simp [hpipe] at hstop
  case exited => exact Or.inr rfl

/-- If the keys end the loop and both ends are there, only both exits are left to stop in. -/
theorem ready_stop (h : Ready s) (hw : WriterSound all s tr) (hr : ReaderSound s tr)
    (ht : Tidy out s) (hkeys : out ≠ none) (hwriter : writerStep s = none)
    (hreader : readerStep s = none) : s.writer = .exited ∧ s.reader = .exited := by
  have hmain : mainStep s = none := by
    cases hhandler : s.handler <;> simp only [writerStep, hhandler, reduceCtorEq] at hwriter
    exact hwriter
  have hstopped (hconnected : s.writer.connected = true) :=
    reader_stop (hr.met hconnected).1 (hr.came.mp (hr.met hconnected).2) hreader
  have hout (hkeyed : s.writer.keyed = true) : outcome s ≠ none := by
    rw [ht.toCome (Or.inr hkeyed)]
    exact hkeys
  cases hpc : s.writer
  case mkfifo => exact absurd hpc h.made
  case «open» =>
    have hfile := ht.filed h.made h.uninterrupted (Or.inr hpc)
    simp [mainStep, hpc, hfile] at hmain
  case opening =>
    have hnone : s.readerCame = false := by simpa [mainStep, hpc] using hmain
    have hnot : s.reader.connected ≠ true := fun hconnected => by
      rw [hr.came.mpr hconnected] at hnone
      cases hnone
    cases hend : s.reader <;> rw [hend] at hnot
    case «open» =>
      have hfile := ht.filed h.made h.uninterrupted (Or.inl hend)
      simp [readerStep, hend, hfile] at hreader
    case failed => exact absurd hend h.opened
    all_goals exact absurd rfl hnot
  case getKey =>
    have hkey := hout (by rw [hpc]; rfl)
    simp only [outcome, hpc] at hkey
    simp only [mainStep, hpc] at hmain
    exact absurd hmain (getchar_isSome hkey)
  case getBracket =>
    have hkey := hout (by rw [hpc]; rfl)
    simp only [outcome, hpc] at hkey
    simp only [mainStep, hpc] at hmain
    exact absurd hmain (getchar_isSome hkey)
  case getArrow =>
    have hkey := hout (by rw [hpc]; rfl)
    simp only [outcome, hpc] at hkey
    simp only [mainStep, hpc] at hmain
    exact absurd hmain (getchar_isSome hkey)
  case write =>
    have hroom := length_record s.pid s.val
    rcases hstopped (by rw [hpc]; rfl) with ⟨-, hempty, -⟩ | hexited
    · by_cases hfd : s.writerFd = false <;> by_cases hrd : s.readerFd = false <;>
        simp [mainStep, writeRecord, hpc, hempty, hfd, hrd, hroom] at hmain
    · have hclosed := (hr.atEnd (by rw [hexited]; rfl)).2
      simp [mainStep, writeRecord, hpc, hclosed] at hmain
  case exited =>
    have hclosed := ht.closed hpc
    rcases hstopped (by rw [hpc]; rfl) with ⟨-, -, hfd⟩ | hexited
    · rw [hclosed] at hfd
      cases hfd
    · exact ⟨rfl, hexited⟩
  case interrupted => exact absurd hpc h.uninterrupted
  case failed => exact absurd hpc hw.alive.2
  case killed => exact absurd hpc hw.alive.1
  case terminate pc => cases pc <;> simp [mainStep, hpc, terminationHandler] at hmain
  all_goals simp [mainStep, hpc] at hmain

/-- Both programs have exited, nothing is left behind and every record is printed. -/
structure Cleaned (s : Processes) (tr : List Seen) : Prop where
  writer : s.writer = .exited
  reader : s.reader = .exited
  unlinked : s.backingFile = false
  restored : s.raw = false
  printed : printed tr = (written tr).flatten

theorem lost_of_reaches (h : Reaches undisturbed s s' tr)
    (hlost : s.reader = .failed ∨ s.writer = .interrupted) :
    s'.reader = .failed ∨ s'.writer = .interrupted := by
  induction h with
  | start => exact hlost
  | @next s₁ s₂ a tr seen _ hs ih =>
    obtain ⟨hquiet, hs⟩ := Machine.when_eq_some.mp hs
    cases a with
    | writer =>
      rcases ih with hreader | hwriter
      · exact Or.inl ((writerStep_frame hs).2.2.trans hreader)
      · cases hhandler : s₁.handler with
        | none => simp [pipeNamed, writerStep, mainStep, hhandler, hwriter] at hs
        | some pc =>
          simp only [pipeNamed, writerStep, hhandler] at hs
          obtain ⟨rfl, -⟩ := Prod.mk.inj (Option.some.inj hs)
          obtain ⟨fd, file, raw, next, hstep, -⟩ := terminationHandler_cases s₁ pc
          rw [hstep]
          exact Or.inr hwriter
    | reader =>
      rcases ih with hreader | hwriter
      · simp [pipeNamed, readerStep, hreader] at hs
      · exact Or.inr ((readerStep_writer hs).1.trans hwriter)
    | sigint => cases hquiet

theorem ready_of_reaches {pid : BitVec 32} {keys : List ℤ} {tr' : List Seen}
    (hstart : Reaches pipeNamed (started pid keys) s tr) (hready : Ready s)
    (h : Reaches undisturbed s s' tr') : Ready s' := by
  induction h with
  | start => exact hready
  | next hreach hs ih =>
    exact ready_step ih (tidy_of_reaches (hstart.trans hreach.of_when)) hs

/-- Once the signals stop, both programs are sure to exit with everything printed and cleaned up,
within `weight s` steps, if and only if the keys end the loop, the backing file was made before
the reader opened it, and no signal came before the handler was there. -/
theorem named_pipe_completes_iff (pid : BitVec 32) (keys : List ℤ)
    (h : Reaches pipeNamed (started pid keys) s tr) :
    Completes undisturbed s (weight s) (fun s' tr' => Cleaned s' (tr ++ tr')) ↔
      loopExit .key 0 keys ≠ none ∧ Ready s := by
  constructor
  · intro hcompletes
    -- a run to the end refutes every other case
    have hnot {t : Processes} {seen : List Seen} (ht : Reaches undisturbed s t seen) :
        ¬(t.reader = .failed ∨ t.writer = .interrupted) := by
      intro hlost
      obtain ⟨s', tr', hreach, hclean⟩ := hcompletes.exists_stop weight_decreases trivial ht
      rcases lost_of_reaches hreach hlost with hreader | hwriter
      · rw [hclean.reader] at hreader
        cases hreader
      · rw [hclean.writer] at hwriter
        cases hwriter
    obtain ⟨hopened, huninterrupted⟩ := not_or.mp (hnot .start)
    refine ⟨?_, fun hfirst => ?_, huninterrupted, hopened⟩
    · obtain ⟨s', tr', hreach, hclean⟩ := hcompletes.exists_stop weight_decreases trivial .start
      exact (tidy_of_reaches (h.trans hreach.of_when)).ended (by rw [hclean.writer]; rfl)
    · have hnone := (sound_of_reaches h).1.first hfirst
      have hopen := (early_of_reaches h hfirst).resolve_right hopened
      have hs : undisturbed s .reader = some ({ s with reader := .failed }, []) := by
        simp [undisturbed, Machine.when, pipeNamed, readerStep, hopen, hnone]
      exact hnot (Reaches.single hs) (Or.inl rfl)
  · rintro ⟨hkeys, hready⟩
    refine weight_decreases.completes trivial fun s' tr' hreach _ hend => ?_
    have hall := h.trans hreach.of_when
    obtain ⟨hw, hr⟩ := sound_of_reaches hall
    have ht := tidy_of_reaches hall
    obtain ⟨hwriter, hreader⟩ := ready_stop (ready_of_reaches h hready hreach) hw hr ht hkeys
      (hend .writer) (hend .reader)
    exact ⟨hwriter, hreader, ht.unlinked (Or.inr (Or.inr hwriter)), ht.restored (Or.inr hwriter),
      hr.complete (by rw [hreader]; rfl)⟩

def twoRecords : List ℤ := [27, 91, 65, 27, 91, 65, 113]

/-- The first record is on its way and the second one is to come. -/
theorem named_pipe_completes_two : ∃ s tr,
    exec pipeNamed (started 7 twoRecords)
        (.writer :: .reader :: List.replicate 8 Action.writer ++ [Action.reader]) = some (s, tr) ∧
      written tr = [record 7 1] ∧ s.stdin = [27, 91, 65, 113] ∧
    Completes undisturbed s (weight s) (fun s' tr' => Cleaned s' (tr ++ tr')) := by
  obtain ⟨s, tr, hrun, hwritten, hstdin, hmade, huninterrupted, hopened⟩ : ∃ s tr,
      exec pipeNamed (started 7 twoRecords)
          (.writer :: .reader :: List.replicate 8 Action.writer ++ [Action.reader]) = some (s, tr) ∧
        written tr = [record 7 1] ∧ s.stdin = [27, 91, 65, 113] ∧
        s.writer ≠ .mkfifo ∧ s.writer ≠ .interrupted ∧ s.reader ≠ .failed := by
    decide +kernel
  exact ⟨s, tr, hrun, hwritten, hstdin,
    (named_pipe_completes_iff 7 twoRecords (Reaches.of_exec hrun)).mpr
      ⟨by decide, hmade, huninterrupted, hopened⟩⟩

end Progress

end LinuxOddsAndEnds.Ipc.PipeNamed
