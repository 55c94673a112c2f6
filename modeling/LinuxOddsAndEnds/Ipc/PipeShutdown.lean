import LinuxOddsAndEnds.Ipc.PipeUnnamed

/-!
# How the unnamed pipe is shut down

An arrow that brings the value to 10 closes the write port before the parent waits; key `q`
only ends the loop. The keys alone settle which of the two happens, under any interleaving.
What the child prints is what the parent wrote in either case.
-/

namespace LinuxOddsAndEnds.Ipc.PipeUnnamed

open Foundation

/-- The parent waits for the child, which waits for bytes or for the end of file, and the
parent holds the write port. -/
def Stuck (s : Processes) : Prop :=
  s.parent = .wait ∧ s.child = .read ∧ s.pipe = [] ∧ s.parentWritePort = true

instance (s : Processes) : Decidable (Stuck s) :=
  inferInstanceAs (Decidable (_ ∧ _ ∧ _ ∧ _))

/-- Which of the three keys of the loop is read next. -/
inductive Position where
  | key
  | bracket
  | arrow
  deriving DecidableEq

def Position.pc : Position → ParentPc
  | .key => .getKey
  | .bracket => .getBracket
  | .arrow => .getArrow

inductive LoopExit where
  | quit
  | released
  deriving DecidableEq

/-- How the keys end the loop if the value stands at `val`: by `q`, or by an arrow to 10. -/
def loopExit : Position → BitVec 32 → List ℤ → Option LoopExit
  | _, _, [] => none
  | .key, val, ch :: keys =>
    if ch = 113 then some .quit
    else if ch = 27 then loopExit .bracket val keys
    else loopExit .key val keys
  | .bracket, val, ch :: keys =>
    if ch = 91 then loopExit .arrow val keys else loopExit .key val keys
  | .arrow, val, ch :: keys =>
    if ch = 65 then
      if val + 1 = 10 then some .released else loopExit .key (val + 1) keys
    else if ch = 66 then
      if val - 1 = 10 then some .released else loopExit .key (val - 1) keys
    else loopExit .key val keys

/-- No reachable state is stuck, and a child that has exited has printed all that was
written. -/
def ShutsDown (pid : BitVec 32) (keys : List ℤ) : Prop :=
  ∀ s tr, Reaches pipeUnnamed (forked pid keys) s tr →
    ¬Stuck s ∧ (s.child = .exited → printed tr = (written tr).flatten)

@[simp] def ParentPc.inLoop : ParentPc → Bool
  | .closeReadPort | .getKey | .getBracket | .getArrow | .write => true
  | _ => false

@[simp] def ParentPc.done : ParentPc → Bool
  | .exit | .exited => true
  | _ => false

@[simp] def ChildPc.reading : ChildPc → Bool
  | .closeWritePort | .read | .print _ => true
  | _ => false

@[simp] def ChildPc.held : ChildPc → List Byte
  | .print buf => [buf]
  | _ => []

/-- How the loop will end or has ended: what the keys say while it runs, and afterwards
whether the write port is still open. -/
def outcome (s : Processes) : Option LoopExit :=
  match s.parent with
  | .closeReadPort | .getKey | .write => loopExit .key s.val s.stdin
  | .getBracket => loopExit .bracket s.val s.stdin
  | .getArrow => loopExit .arrow s.val s.stdin
  | .wait => if s.parentWritePort then some .quit else some .released
  | _ => some .released

structure ParentSound (out : Option LoopExit) (s : Processes) : Prop where
  outcome : outcome s = out
  loop : s.parent.inLoop = true → s.parentRunning = true ∧ s.parentWritePort = true
  released : s.parent = .closeWritePort → s.parentRunning = false
  finished : s.parent.done = true → s.parentWritePort = false
  alive : s.parent ≠ .killed

/-- Every byte written is printed, held or in the pipe; end of file is seen after the last
one. -/
structure ChildSound (s : Processes) (tr : List Seen) : Prop where
  writePort : s.child ≠ .closeWritePort → s.childWritePort = false
  readPort : s.child.reading = true → s.childReadPort = true
  atEnd : s.child.reading = false → s.pipe = [] ∧ s.parentWritePort = false
  flow : (written tr).flatten = printed tr ++ (s.child.held ++ s.pipe)

section Steps

variable {s s' : Processes} {out : Option LoopExit} {tr seen : List Seen} {ch : ℤ}
  {stdin : List ℤ}

theorem getchar_eq_some {next : ℤ → Processes → Processes}
    (h : getchar next s = some (s', seen)) : ∃ ch stdin, s.stdin = ch :: stdin ∧
      s' = next ch { s with stdin } ∧ seen = [] := by
  unfold getchar at h
  split at h
  · cases h
  · next ch stdin hstdin =>
    obtain ⟨rfl, rfl⟩ := Prod.mk.inj (Option.some.inj h)
    exact ⟨ch, stdin, hstdin, rfl, rfl⟩

theorem ParentSound.again (hpc : s.parent = .loopHead s.parentRunning)
    (hrun : s.parentRunning = true) (hwrite : s.parentWritePort = true)
    (hout : loopExit .key s.val s.stdin = out) : ParentSound out s := by
  have hkey : s.parent = .getKey := by rw [hpc, hrun]; rfl
  refine ⟨?_, fun _ => ⟨hrun, hwrite⟩, ?_, ?_, ?_⟩
  · rw [PipeUnnamed.outcome, hkey]
    exact hout
  · rw [hkey]
    nofun
  · rw [hkey]
    nofun
  · rw [hkey]
    nofun

theorem ParentSound.atKey {p : Position} (h : ParentSound out s) (hpc : s.parent = p.pc) :
    s.parentRunning = true ∧ s.parentWritePort = true ∧ loopExit p s.val s.stdin = out := by
  have hout := h.outcome
  rw [PipeUnnamed.outcome, hpc] at hout
  obtain ⟨hrun, hwrite⟩ := h.loop (by rw [hpc]; cases p <;> rfl)
  refine ⟨hrun, hwrite, ?_⟩
  cases p <;> exact hout

theorem ParentSound.gotKey (h : ParentSound out s) (hpc : s.parent = .getKey)
    (hstdin : s.stdin = ch :: stdin) : ParentSound out (gotKey ch { s with stdin }) := by
  obtain ⟨hrun, hwrite, hout⟩ := h.atKey (p := .key) hpc
  rw [hstdin, loopExit] at hout
  unfold PipeUnnamed.gotKey
  split_ifs at hout ⊢ with hquit hesc
  · refine ⟨?_, nofun, nofun, nofun, nofun⟩
    simpa [PipeUnnamed.outcome, hwrite] using hout
  · exact ⟨hout, fun _ => ⟨hrun, hwrite⟩, nofun, nofun, nofun⟩
  · exact .again rfl hrun hwrite hout

theorem ParentSound.gotBracket (h : ParentSound out s) (hpc : s.parent = .getBracket)
    (hstdin : s.stdin = ch :: stdin) : ParentSound out (gotBracket ch { s with stdin }) := by
  obtain ⟨hrun, hwrite, hout⟩ := h.atKey (p := .bracket) hpc
  rw [hstdin, loopExit] at hout
  unfold PipeUnnamed.gotBracket
  split_ifs at hout ⊢ with hbracket
  · exact ⟨hout, fun _ => ⟨hrun, hwrite⟩, nofun, nofun, nofun⟩
  · exact .again rfl hrun hwrite hout

theorem ParentSound.changed {val : BitVec 32} (hrun : s.parentRunning = true)
    (hwrite : s.parentWritePort = true)
    (hout : (if val = 10 then some .released else loopExit .key val s.stdin) = out) :
    ParentSound out (changed val s) := by
  unfold PipeUnnamed.changed
  by_cases hten : val = 10
  · rw [if_pos hten] at hout
    simp only [hten, hrun]
    exact ⟨hout, nofun, fun _ => rfl, nofun, nofun⟩
  · rw [if_neg hten] at hout
    simp only [hrun, Bool.true_and, bne_iff_ne.mpr hten]
    exact ⟨hout, fun _ => ⟨rfl, hwrite⟩, nofun, nofun, nofun⟩

theorem ParentSound.gotArrow (h : ParentSound out s) (hpc : s.parent = .getArrow)
    (hstdin : s.stdin = ch :: stdin) : ParentSound out (gotArrow ch { s with stdin }) := by
  obtain ⟨hrun, hwrite, hout⟩ := h.atKey (p := .arrow) hpc
  rw [hstdin, loopExit] at hout
  unfold PipeUnnamed.gotArrow
  by_cases hup : ch = 65
  · rw [if_pos hup] at hout ⊢
    exact .changed hrun hwrite hout
  · rw [if_neg hup] at hout ⊢
    by_cases hdown : ch = 66
    · rw [if_pos hdown] at hout ⊢
      exact .changed hrun hwrite hout
    · rw [if_neg hdown] at hout ⊢
      exact .again rfl hrun hwrite hout

structure SameForChild (s s' : Processes) : Prop where
  pipe : s'.pipe = s.pipe
  child : s'.child = s.child
  childReadPort : s'.childReadPort = s.childReadPort
  childWritePort : s'.childWritePort = s.childWritePort
  parentWritePort : s'.parentWritePort = s.parentWritePort

theorem ChildSound.of_same (h : ChildSound s tr) (hsame : SameForChild s s') :
    ChildSound s' tr := by
  obtain ⟨hpipe, hchild, hread, hown, hwrite⟩ := hsame
  refine ⟨?_, ?_, ?_, ?_⟩
  · rw [hchild, hown]
    exact h.writePort
  · rw [hchild, hread]
    exact h.readPort
  · rw [hchild, hpipe, hwrite]
    exact h.atEnd
  · rw [hchild, hpipe]
    exact h.flow

theorem gotKey_same (ch : ℤ) (stdin : List ℤ) (s : Processes) :
    SameForChild s (gotKey ch { s with stdin }) := by
  unfold gotKey
  split_ifs <;> exact ⟨rfl, rfl, rfl, rfl, rfl⟩

theorem gotBracket_same (ch : ℤ) (stdin : List ℤ) (s : Processes) :
    SameForChild s (gotBracket ch { s with stdin }) := by
  unfold gotBracket
  split_ifs <;> exact ⟨rfl, rfl, rfl, rfl, rfl⟩

theorem gotArrow_same (keyVal : ℤ) (stdin : List ℤ) (s : Processes) :
    SameForChild s (gotArrow keyVal { s with stdin }) := by
  unfold gotArrow
  split_ifs <;> exact ⟨rfl, rfl, rfl, rfl, rfl⟩

theorem writeRecord_sound (hp : ParentSound out s) (hc : ChildSound s tr)
    (hpc : s.parent = .write) (hs : writeRecord s = some (s', seen)) :
    ParentSound out s' ∧ ChildSound s' (tr ++ seen) := by
  obtain ⟨hrun, hwrite⟩ := hp.loop (by rw [hpc]; rfl)
  have hreading : s.child.reading = true := by
    by_contra hnot
    have hclosed := (hc.atEnd (Bool.eq_false_iff.mpr hnot)).2
    rw [hwrite] at hclosed
    cases hclosed
  have hread := hc.readPort hreading
  have hout := hp.outcome
  rw [outcome, hpc] at hout
  unfold writeRecord at hs
  rw [if_neg (by simp [hwrite]), if_neg (by simp [hread])] at hs
  split_ifs at hs with hroom
  obtain ⟨rfl, rfl⟩ := Prod.mk.inj (Option.some.inj hs)
  refine ⟨.again rfl hrun hwrite hout, hc.writePort, hc.readPort, ?_, ?_⟩
  · intro hend
    rw [hreading] at hend
    cases hend
  · calc
      _ = (written tr).flatten ++ record s.pid s.val := by simp [written]
      _ = printed (tr ++ [.wrote (record s.pid s.val)]) ++
          (s.child.held ++ (s.pipe ++ record s.pid s.val)) := by
        simp [hc.flow, printed]

theorem parentStep_sound (hp : ParentSound out s) (hc : ChildSound s tr)
    (hs : parentStep s = some (s', seen)) : ParentSound out s' ∧ ChildSound s' (tr ++ seen) := by
  have hout := hp.outcome
  cases hpc : s.parent <;> simp only [parentStep, hpc, reduceCtorEq] at hs
  case closeReadPort =>
    obtain ⟨rfl, rfl⟩ := Prod.mk.inj (Option.some.inj hs)
    obtain ⟨hrun, hwrite⟩ := hp.loop (by rw [hpc]; rfl)
    rw [outcome, hpc] at hout
    rw [List.append_nil]
    exact ⟨.again rfl hrun hwrite hout, hc.writePort, hc.readPort, hc.atEnd, hc.flow⟩
  case getKey =>
    obtain ⟨ch, stdin, hstdin, rfl, rfl⟩ := getchar_eq_some hs
    rw [List.append_nil]
    exact ⟨hp.gotKey hpc hstdin, hc.of_same (gotKey_same ch stdin s)⟩
  case getBracket =>
    obtain ⟨ch, stdin, hstdin, rfl, rfl⟩ := getchar_eq_some hs
    rw [List.append_nil]
    exact ⟨hp.gotBracket hpc hstdin, hc.of_same (gotBracket_same ch stdin s)⟩
  case getArrow =>
    obtain ⟨ch, stdin, hstdin, rfl, rfl⟩ := getchar_eq_some hs
    rw [List.append_nil]
    exact ⟨hp.gotArrow hpc hstdin, hc.of_same (gotArrow_same ch stdin s)⟩
  case write => exact writeRecord_sound hp hc hpc hs
  case closeWritePort =>
    obtain ⟨rfl, rfl⟩ := Prod.mk.inj (Option.some.inj hs)
    rw [outcome, hpc] at hout
    rw [List.append_nil, hp.released hpc]
    refine ⟨⟨hout, nofun, nofun, nofun, nofun⟩, hc.writePort, hc.readPort, ?_, hc.flow⟩
    exact fun hend => ⟨(hc.atEnd hend).1, rfl⟩
  case wait =>
    split_ifs at hs with hexited
    obtain ⟨rfl, rfl⟩ := Prod.mk.inj (Option.some.inj hs)
    have hclosed := (hc.atEnd (by rw [hexited]; rfl)).2
    simp only [outcome, hpc, hclosed] at hout
    rw [List.append_nil]
    exact ⟨⟨hout, nofun, nofun, fun _ => hclosed, nofun⟩, hc.writePort, hc.readPort, hc.atEnd,
      hc.flow⟩
  case exit =>
    obtain ⟨rfl, rfl⟩ := Prod.mk.inj (Option.some.inj hs)
    rw [outcome, hpc] at hout
    rw [List.append_nil]
    refine ⟨⟨hout, nofun, nofun, fun _ => rfl, nofun⟩, hc.writePort, hc.readPort, ?_, hc.flow⟩
    exact fun hend => ⟨(hc.atEnd hend).1, rfl⟩

theorem ParentSound.childMoved (h : ParentSound out s) (pipe : List Byte) (child : ChildPc)
    (childReadPort childWritePort : Bool) :
    ParentSound out { s with pipe, child, childReadPort, childWritePort } :=
  ⟨h.outcome, h.loop, h.released, h.finished, h.alive⟩

theorem childStep_sound (hp : ParentSound out s) (hc : ChildSound s tr)
    (hs : childStep s = some (s', seen)) : ParentSound out s' ∧ ChildSound s' (tr ++ seen) := by
  have hflow := hc.flow
  cases hpc : s.child <;> simp only [childStep, hpc, reduceCtorEq] at hs
  case closeWritePort =>
    obtain ⟨rfl, rfl⟩ := Prod.mk.inj (Option.some.inj hs)
    rw [hpc] at hflow
    rw [List.append_nil]
    refine ⟨hp.childMoved .., fun _ => rfl, ?_, nofun, hflow⟩
    exact fun _ => hc.readPort (by rw [hpc]; rfl)
  case read =>
    have hown := hc.writePort (by rw [hpc]; nofun)
    rw [hpc] at hflow
    split at hs
    · next buf pipe hpipe =>
      obtain ⟨rfl, rfl⟩ := Prod.mk.inj (Option.some.inj hs)
      rw [hpipe] at hflow
      rw [List.append_nil]
      refine ⟨hp.childMoved .., fun _ => hown, ?_, nofun, hflow⟩
      exact fun _ => hc.readPort (by rw [hpc]; rfl)
    · next hpipe =>
      split_ifs at hs with hclosed
      obtain ⟨rfl, rfl⟩ := Prod.mk.inj (Option.some.inj hs)
      rw [List.append_nil]
      exact ⟨hp.childMoved .., fun _ => hown, nofun,
        fun _ => ⟨hpipe, hclosed.1⟩, hflow⟩
  case print buf =>
    have hown := hc.writePort (by rw [hpc]; nofun)
    obtain ⟨rfl, rfl⟩ := Prod.mk.inj (Option.some.inj hs)
    refine ⟨hp.childMoved .., fun _ => hown, ?_, nofun, ?_⟩
    · exact fun _ => hc.readPort (by rw [hpc]; rfl)
    · rw [hpc] at hflow
      simpa [written, printed] using hflow
  case closeReadPort =>
    have hown := hc.writePort (by rw [hpc]; nofun)
    obtain ⟨rfl, rfl⟩ := Prod.mk.inj (Option.some.inj hs)
    rw [hpc] at hflow
    refine ⟨hp.childMoved .., fun _ => hown, nofun, ?_, ?_⟩
    · exact fun _ => hc.atEnd (by rw [hpc]; rfl)
    · simpa [written, printed] using hflow
  case exit =>
    have hown := hc.writePort (by rw [hpc]; nofun)
    obtain ⟨rfl, rfl⟩ := Prod.mk.inj (Option.some.inj hs)
    rw [hpc] at hflow
    rw [List.append_nil]
    refine ⟨hp.childMoved .., fun _ => hown, nofun, ?_, hflow⟩
    exact fun _ => hc.atEnd (by rw [hpc]; rfl)

/-- The keys settle how the loop ends, whatever the interleaving. -/
theorem sound_of_reaches {pid : BitVec 32} {keys : List ℤ}
    (h : Reaches pipeUnnamed (forked pid keys) s tr) :
    ParentSound (loopExit .key 0 keys) s ∧ ChildSound s tr := by
  refine Reaches.invariant (I := fun s tr => ParentSound _ s ∧ ChildSound s tr) ?_ ?_ h
  · refine ⟨⟨rfl, fun _ => ⟨rfl, rfl⟩, nofun, nofun, nofun⟩, ?_, fun _ => rfl, nofun, rfl⟩
    exact fun hpc => absurd rfl hpc
  · rintro s tr party s' seen ⟨hp, hc⟩ hs
    cases party with
    | parent => exact parentStep_sound hp hc hs
    | child => exact childStep_sound hp hc hs

theorem Stuck.outcome (h : Stuck s) : outcome s = some .quit := by
  obtain ⟨hwait, -, -, hopen⟩ := h
  rw [PipeUnnamed.outcome, hwait]
  exact if_pos hopen

theorem Stuck.refused (h : Stuck s) (party : Party) : pipeUnnamed s party = none := by
  obtain ⟨hwait, hread, hpipe, hopen⟩ := h
  cases party with
  | parent => simp [pipeUnnamed, parentStep, hwait, hread]
  | child => simp [pipeUnnamed, childStep, hread, hpipe, hopen]

theorem printed_eq (h : ChildSound s tr) (hexited : s.child = .exited) :
    printed tr = (written tr).flatten := by
  have hpipe := (h.atEnd (by rw [hexited]; rfl)).1
  rw [h.flow, hexited, hpipe]
  simp

end Steps

section Quit

variable {s : Processes}

theorem length_decimal (x : BitVec 32) : (decimal x.toInt).length ≤ 11 := by
  have hlow := BitVec.le_two_mul_toInt (x := x)
  have hhigh := BitVec.two_mul_toInt_lt (x := x)
  have hdigits : (Nat.toDigits 10 x.toInt.natAbs).length ≤ 10 :=
    (Nat.length_toDigits_le_iff (by omega) (by omega)).mpr (by omega)
  unfold decimal
  split_ifs
  · rw [List.length_cons]
    omega
  · omega

theorem length_record (pid val : BitVec 32) : (record pid val).length ≤ pipeCapacity := by
  have hpid := length_decimal pid
  have hval := length_decimal val
  simp only [record, ascii, List.length_map, List.length_append, List.length_cons, List.length_nil,
    pipeCapacity]
  omega

theorem reaches_drained : ∀ (bytes : List Byte) (s : Processes), s.child = .read →
    s.pipe = bytes → Reaches pipeUnnamed s { s with pipe := [] } (bytes.map .printed) := by
  intro bytes
  induction bytes with
  | nil =>
    intro s _ hpipe
    have hsame : { s with pipe := [] } = s := by rw [← hpipe]
    rw [hsame]
    exact .start
  | cons buf bytes ih =>
    intro s hread hpipe
    have htake : pipeUnnamed s .child =
        some ({ s with pipe := bytes, child := .print buf }, []) := by
      simp [pipeUnnamed, childStep, hread, hpipe]
    have hprint : pipeUnnamed { s with pipe := bytes, child := .print buf } .child =
        some ({ s with pipe := bytes }, [.printed buf]) := by
      simp [pipeUnnamed, childStep, hread]
    exact ((Reaches.single htake).trans (Reaches.single hprint)).trans
      (ih { s with pipe := bytes } hread rfl)

/-- The parent is at a key and the child has read everything. -/
structure Waiting (p : Position) (s : Processes) : Prop where
  parent : s.parent = p.pc
  running : s.parentRunning = true
  writePort : s.parentWritePort = true
  child : s.child = .read
  readPort : s.childReadPort = true
  pipe : s.pipe = []

theorem reaches_published (hpc : s.parent = .write) (hrun : s.parentRunning = true)
    (hwrite : s.parentWritePort = true) (hchild : s.child = .read)
    (hread : s.childReadPort = true) (hpipe : s.pipe = []) :
    ∃ s' tr, Reaches pipeUnnamed s s' tr ∧ Waiting .key s' ∧ s'.stdin = s.stdin ∧
      s'.val = s.val := by
  have hroom := length_record s.pid s.val
  have hwrote : pipeUnnamed s .parent =
      some ({ s with pipe := record s.pid s.val, parent := .loopHead s.parentRunning },
        [.wrote (record s.pid s.val)]) := by
    simp [pipeUnnamed, parentStep, writeRecord, hpc, hwrite, hread, hpipe, hroom]
  refine ⟨_, _, (Reaches.single hwrote).trans (reaches_drained _ _ hchild rfl), ?_, rfl, rfl⟩
  refine ⟨?_, hrun, hwrite, hchild, hread, rfl⟩
  dsimp only
  rw [hrun]
  rfl

theorem reaches_key (next : ℤ → Processes → Processes) {ch : ℤ} {keys : List ℤ}
    (hpc : parentStep s = getchar next s) (hstdin : s.stdin = ch :: keys) :
    Reaches pipeUnnamed s (next ch { s with stdin := keys }) [] := by
  refine Reaches.single (a := .parent) ?_
  rw [pipeUnnamed, hpc, getchar, hstdin]

theorem Waiting.next {p q : Position} {pc : ParentPc} (h : Waiting p s) (stdin : List ℤ)
    (hpc : pc = q.pc) : Waiting q { s with stdin, parent := pc } :=
  ⟨hpc, h.running, h.writePort, h.child, h.readPort, h.pipe⟩

theorem Waiting.loopHead {p : Position} (h : Waiting p s) :
    ParentPc.loopHead s.parentRunning = Position.key.pc := by
  rw [h.running]
  rfl

def LeadsToStuck (s : Processes) : Prop := ∃ s' tr, Reaches pipeUnnamed s s' tr ∧ Stuck s'

theorem LeadsToStuck.of_reaches {t : Processes} {tr : List Seen} (h : Reaches pipeUnnamed s t tr)
    (ht : LeadsToStuck t) : LeadsToStuck s := by
  obtain ⟨s', tr', hreach, hstuck⟩ := ht
  exact ⟨s', tr ++ tr', h.trans hreach, hstuck⟩

theorem Waiting.changed {p : Position} {val : BitVec 32} {keys : List ℤ} (h : Waiting p s)
    (ih : ∀ t, Waiting .key t → t.stdin = keys → loopExit .key t.val keys = some .quit →
      LeadsToStuck t)
    (hquit : (if val = 10 then some LoopExit.released else loopExit .key val keys) = some .quit) :
    LeadsToStuck (changed val { s with stdin := keys }) := by
  split_ifs at hquit with hten
  · cases hquit
  · have hrun : (s.parentRunning && val != 10) = true := by
      rw [h.running, Bool.true_and, bne_iff_ne]
      exact hten
    have hchanged : PipeUnnamed.changed val { s with stdin := keys } =
        { s with stdin := keys, val, parentRunning := true, parent := .write } := by
      simp only [PipeUnnamed.changed, hrun, if_true]
    obtain ⟨t, tr, hreach, ht, hstdin, hval⟩ := reaches_published
      (s := { s with stdin := keys, val, parentRunning := true, parent := .write })
      rfl rfl h.writePort h.child h.readPort h.pipe
    rw [hchanged]
    exact .of_reaches hreach (ih t ht hstdin (by rw [hval]; exact hquit))

/-- Keys that end with `q` lead to a stuck state once the child keeps up. -/
theorem Waiting.leadsToStuck : ∀ (keys : List ℤ) (p : Position) (s : Processes), Waiting p s →
    s.stdin = keys → loopExit p s.val keys = some .quit → LeadsToStuck s := by
  intro keys
  induction keys with
  | nil =>
    intro p s _ _ hquit
    cases p <;> cases hquit
  | cons ch keys ih =>
    intro p s hw hstdin hquit
    cases p with
    | key =>
      have hkey := reaches_key gotKey (by simp [parentStep, hw.parent, Position.pc]) hstdin
      refine .of_reaches hkey ?_
      unfold gotKey
      rw [loopExit] at hquit
      split_ifs at hquit ⊢
      · exact ⟨_, _, .start, rfl, hw.child, hw.pipe, hw.writePort⟩
      · exact ih .bracket _ (hw.next keys rfl) rfl hquit
      · exact ih .key _ (hw.next keys hw.loopHead) rfl hquit
    | bracket =>
      have hkey := reaches_key gotBracket (by simp [parentStep, hw.parent, Position.pc]) hstdin
      refine .of_reaches hkey ?_
      unfold gotBracket
      rw [loopExit] at hquit
      split_ifs at hquit ⊢
      · exact ih .arrow _ (hw.next keys rfl) rfl hquit
      · exact ih .key _ (hw.next keys hw.loopHead) rfl hquit
    | arrow =>
      have hkey := reaches_key gotArrow (by simp [parentStep, hw.parent, Position.pc]) hstdin
      refine .of_reaches hkey ?_
      unfold gotArrow
      rw [loopExit] at hquit
      by_cases hup : ch = 65
      · rw [if_pos hup] at hquit ⊢
        exact hw.changed (ih .key) hquit
      · rw [if_neg hup] at hquit ⊢
        by_cases hdown : ch = 66
        · rw [if_pos hdown] at hquit ⊢
          exact hw.changed (ih .key) hquit
        · rw [if_neg hdown] at hquit ⊢
          exact ih .key _ (hw.next keys hw.loopHead) rfl hquit

theorem forked_leadsToStuck (pid : BitVec 32) {keys : List ℤ}
    (hquit : loopExit .key 0 keys = some .quit) : LeadsToStuck (forked pid keys) := by
  have hparent : Reaches pipeUnnamed (forked pid keys)
      { forked pid keys with parentReadPort := false, parent := .getKey } [] :=
    .single (a := .parent) rfl
  have hchild : Reaches pipeUnnamed
      { forked pid keys with parentReadPort := false, parent := .getKey }
      { forked pid keys with
        parentReadPort := false, parent := .getKey, childWritePort := false, child := .read } [] :=
    .single (a := .child) rfl
  refine .of_reaches (hparent.trans hchild) ?_
  exact Waiting.leadsToStuck keys .key _ ⟨rfl, rfl, rfl, rfl, rfl, rfl⟩ rfl hquit

end Quit

/-- Whatever the interleaving, the processes shut down and everything written is printed, if
and only if the keys do not end the loop with `q`. -/
theorem pipe_shutdown_iff (pid : BitVec 32) (keys : List ℤ) :
    ShutsDown pid keys ↔ loopExit .key 0 keys ≠ some .quit := by
  constructor
  · intro h hquit
    obtain ⟨s, tr, hreach, hstuck⟩ := forked_leadsToStuck pid hquit
    exact (h s tr hreach).1 hstuck
  · intro hkeys s tr hreach
    obtain ⟨hparent, hchild⟩ := sound_of_reaches hreach
    refine ⟨fun hstuck => ?_, printed_eq hchild⟩
    exact hkeys (hparent.outcome.symm.trans hstuck.outcome)

/-- Key `q` alone: both processes wait for each other. -/
theorem pipe_quit_stuck : ¬ShutsDown 7 [113] := by
  intro h
  obtain ⟨s, tr, hrun, hstuck⟩ : ∃ s tr,
      exec pipeUnnamed (forked 7 [113]) [.parent, .child, .parent] = some (s, tr) ∧ Stuck s := by
    decide
  exact (h s tr (Reaches.of_exec hrun)).1 hstuck

end LinuxOddsAndEnds.Ipc.PipeUnnamed
