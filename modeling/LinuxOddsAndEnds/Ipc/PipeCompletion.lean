import LinuxOddsAndEnds.Ipc.PipeShutdown

/-!
# Both ends of the unnamed pipe exit

Every step uses up keys, bytes in the pipe or a part of one of the two programs, so no run goes
on for ever. If the keys release the child, a run that stops has both processes exited.
-/

namespace LinuxOddsAndEnds.Ipc.PipeUnnamed

open Foundation

/-- What is left of the parent's program. The room for a record stands at the `write`. -/
def ParentPc.weight : ParentPc → ℕ
  | .closeReadPort => 2 * pipeCapacity + 5
  | .write => 2 * pipeCapacity + 4
  | .closeWritePort => 4
  | .getKey | .getBracket | .getArrow => 3
  | .wait => 2
  | .exit => 1
  | .exited | .killed => 0

def ChildPc.weight : ChildPc → ℕ
  | .closeWritePort => 5
  | .print _ => 4
  | .read => 3
  | .closeReadPort => 2
  | .exit => 1
  | .exited => 0

/-- A byte costs the child a `read` and a `print`, a key at most a record. -/
def weight (s : Processes) : ℕ :=
  (2 * pipeCapacity + 2) * s.stdin.length + s.parent.weight + 2 * s.pipe.length + s.child.weight

section Weight

variable {s s' : Processes} {seen : List Seen}

theorem weight_loopHead (parentRunning : Bool) : (ParentPc.loopHead parentRunning).weight ≤ 3 := by
  cases parentRunning <;> decide

/-- What a key does to the parent is paid for by the key. -/
structure PaidByKey (s s' : Processes) : Prop where
  stdin : s'.stdin = s.stdin
  parent : s'.parent.weight ≤ 2 * pipeCapacity + 4

theorem PaidByKey.moved {pc : ParentPc} (h : pc.weight ≤ 3) (s : Processes) :
    PaidByKey s { s with parent := pc } := ⟨rfl, h.trans (by decide)⟩

theorem gotKey_paid (ch : ℤ) (s : Processes) : PaidByKey s (gotKey ch s) := by
  unfold gotKey
  split_ifs
  · exact .moved (by decide) s
  · exact .moved (by decide) s
  · exact .moved (weight_loopHead s.parentRunning) s

theorem gotBracket_paid (ch : ℤ) (s : Processes) : PaidByKey s (gotBracket ch s) := by
  unfold gotBracket
  split_ifs
  · exact .moved (by decide) s
  · exact .moved (weight_loopHead s.parentRunning) s

theorem changed_paid (val : BitVec 32) (s : Processes) : PaidByKey s (changed val s) := by
  refine ⟨rfl, ?_⟩
  simp only [changed]
  split_ifs <;> decide

theorem gotArrow_paid (keyVal : ℤ) (s : Processes) : PaidByKey s (gotArrow keyVal s) := by
  unfold gotArrow
  split_ifs
  · exact changed_paid _ s
  · exact changed_paid _ s
  · exact .moved (weight_loopHead s.parentRunning) s

theorem getchar_weight {next : ℤ → Processes → Processes} (hpc : s.parent.weight = 3)
    (hsame : ∀ ch stdin, SameForChild s (next ch { s with stdin }))
    (hpaid : ∀ ch stdin, PaidByKey { s with stdin } (next ch { s with stdin }))
    (h : getchar next s = some (s', seen)) : weight s' < weight s := by
  obtain ⟨ch, stdin, hstdin, rfl, -⟩ := getchar_eq_some h
  have hkeys := (hpaid ch stdin).stdin
  have hparent := (hpaid ch stdin).parent
  simp only [weight, hkeys, (hsame ch stdin).pipe, (hsame ch stdin).child, hstdin, hpc,
    List.length_cons, Nat.mul_succ]
  omega

theorem writeRecord_weight (hpc : s.parent = .write) (h : writeRecord s = some (s', seen)) :
    weight s' < weight s := by
  have hloop := weight_loopHead s.parentRunning
  have hroom := length_record s.pid s.val
  have hwrite : s.parent.weight = 2 * pipeCapacity + 4 := by rw [hpc]; rfl
  dsimp only [writeRecord] at h
  split_ifs at h <;> obtain ⟨rfl, -⟩ := Prod.mk.inj (Option.some.inj h)
  · simp only [weight, hwrite]
    omega
  · have hkilled : ParentPc.killed.weight = 0 := rfl
    simp only [weight, hwrite, hkilled]
    omega
  · simp only [weight, hwrite, List.length_append]
    omega

theorem parentStep_weight (h : parentStep s = some (s', seen)) : weight s' < weight s := by
  have hloop := weight_loopHead s.parentRunning
  cases hpc : s.parent <;> simp only [parentStep, hpc, reduceCtorEq] at h
  case closeReadPort =>
    obtain ⟨rfl, -⟩ := Prod.mk.inj (Option.some.inj h)
    simp only [weight, hpc, ParentPc.weight] at hloop ⊢
    omega
  case getKey =>
    exact getchar_weight (by rw [hpc]; rfl) (fun ch stdin => gotKey_same ch stdin s)
      (fun ch stdin => gotKey_paid ch _) h
  case getBracket =>
    exact getchar_weight (by rw [hpc]; rfl) (fun ch stdin => gotBracket_same ch stdin s)
      (fun ch stdin => gotBracket_paid ch _) h
  case getArrow =>
    exact getchar_weight (by rw [hpc]; rfl) (fun ch stdin => gotArrow_same ch stdin s)
      (fun ch stdin => gotArrow_paid ch _) h
  case write => exact writeRecord_weight hpc h
  case closeWritePort =>
    obtain ⟨rfl, -⟩ := Prod.mk.inj (Option.some.inj h)
    simp only [weight, hpc, ParentPc.weight] at hloop ⊢
    omega
  case wait =>
    split_ifs at h
    obtain ⟨rfl, -⟩ := Prod.mk.inj (Option.some.inj h)
    simp only [weight, hpc, ParentPc.weight]
    omega
  case exit =>
    obtain ⟨rfl, -⟩ := Prod.mk.inj (Option.some.inj h)
    simp only [weight, hpc, ParentPc.weight]
    omega

theorem childStep_weight (h : childStep s = some (s', seen)) : weight s' < weight s := by
  cases hpc : s.child <;> simp only [childStep, hpc, reduceCtorEq] at h
  case read =>
    split at h
    · next buf pipe hpipe =>
      obtain ⟨rfl, -⟩ := Prod.mk.inj (Option.some.inj h)
      simp only [weight, hpc, hpipe, ChildPc.weight, List.length_cons]
      omega
    · split_ifs at h
      obtain ⟨rfl, -⟩ := Prod.mk.inj (Option.some.inj h)
      simp only [weight, hpc, ChildPc.weight]
      omega
  all_goals
    obtain ⟨rfl, -⟩ := Prod.mk.inj (Option.some.inj h)
    simp only [weight, hpc, ChildPc.weight]
    omega

theorem weight_decreases : Decreases pipeUnnamed (fun _ => True) weight := by
  intro s party s' seen _ hs
  refine ⟨trivial, ?_⟩
  cases party with
  | parent => exact parentStep_weight hs
  | child => exact childStep_weight hs

end Weight

section Progress

variable {s : Processes} {tr : List Seen}

theorem getchar_isSome {p : Position} {out : LoopExit} (next : ℤ → Processes → Processes)
    (hout : loopExit p s.val s.stdin = some out) : (getchar next s).isSome := by
  cases hstdin : s.stdin with
  | nil =>
    rw [hstdin] at hout
    cases p <;> cases hout
  | cons ch stdin => simp [getchar, hstdin]

theorem parent_goes_on (hp : ParentSound (some .released) s) (hwrite : s.parentWritePort = true)
    (hread : s.childReadPort = true) (hpipe : s.pipe = []) :
    s.parent = .exited ∨ (parentStep s).isSome := by
  have hout := hp.outcome
  have hroom := length_record s.pid s.val
  cases hpc : s.parent <;> rw [outcome, hpc] at hout
  case closeReadPort => simp [parentStep, hpc]
  case getKey => simp [parentStep, hpc, getchar_isSome gotKey hout]
  case getBracket => simp [parentStep, hpc, getchar_isSome gotBracket hout]
  case getArrow => simp [parentStep, hpc, getchar_isSome gotArrow hout]
  case write => simp [parentStep, writeRecord, hpc, hwrite, hread, hpipe, hroom]
  case closeWritePort => simp [parentStep, hpc]
  case wait => simp [hwrite] at hout
  case exit => simp [parentStep, hpc]
  case exited => exact Or.inl rfl
  case killed => exact absurd hpc hp.alive

theorem parent_finishes {out : Option LoopExit} (hp : ParentSound out s)
    (hwrite : s.parentWritePort = false) (hexited : s.child = .exited) :
    s.parent = .exited ∨ (parentStep s).isSome := by
  have hloop : s.parent.inLoop = false := by
    by_contra hin
    have hopen := (hp.loop (by simpa using hin)).2
    rw [hwrite] at hopen
    cases hopen
  cases hpc : s.parent <;> rw [hpc] at hloop
  case closeWritePort => simp [parentStep, hpc]
  case wait => simp [parentStep, hpc, hexited]
  case exit => simp [parentStep, hpc]
  case exited => exact Or.inl rfl
  case killed => exact absurd hpc hp.alive
  all_goals cases hloop

/-- Where neither process can go on after the keys have released the child, both have exited. -/
theorem released_stop (hp : ParentSound (some .released) s) (hc : ChildSound s tr)
    (hstop : ∀ party, pipeUnnamed s party = none) : s.parent = .exited ∧ s.child = .exited := by
  have hparent : ¬(parentStep s).isSome = true := by
    have hnone : parentStep s = none := hstop .parent
    simp [hnone]
  have hnext : childStep s = none := hstop .child
  cases hchild : s.child
  case read =>
    have hread := hc.readPort (by rw [hchild]; rfl)
    have hown := hc.writePort (by rw [hchild]; nofun)
    cases hpipe : s.pipe with
    | cons buf pipe => simp [childStep, hchild, hpipe] at hnext
    | nil =>
      have hwrite : s.parentWritePort = true := by
        simpa [childStep, hchild, hpipe, hown] using hnext
      have hexited := (parent_goes_on hp hwrite hread hpipe).resolve_right hparent
      have hclosed := hp.finished (by rw [hexited]; rfl)
      rw [hwrite] at hclosed
      cases hclosed
  case exited =>
    have hwrite := (hc.atEnd (by rw [hchild]; rfl)).2
    exact ⟨(parent_finishes hp hwrite hchild).resolve_right hparent, rfl⟩
  all_goals simp [childStep, hchild] at hnext

end Progress

/-- Every run of the two processes is bounded and ends with both exited and every byte printed if
and only if the keys take the value to 10; with `q`, or without an end, it stops before. -/
theorem pipe_completes_iff (pid : BitVec 32) (keys : List ℤ) :
    Completes pipeUnnamed (forked pid keys) (weight (forked pid keys)) (fun s tr =>
        s.parent = .exited ∧ s.child = .exited ∧ printed tr = (written tr).flatten) ↔
      loopExit .key 0 keys = some .released := by
  constructor
  · intro hcompletes
    obtain ⟨s, tr, hreach, hparent, -, -⟩ := hcompletes.exists_stop weight_decreases trivial .start
    have hout := (sound_of_reaches hreach).1.outcome
    rw [outcome, hparent] at hout
    exact hout.symm
  · intro hkeys
    refine weight_decreases.completes trivial fun s tr hreach _ hstop => ?_
    obtain ⟨hp, hc⟩ := sound_of_reaches hreach
    rw [hkeys] at hp
    obtain ⟨hparent, hchild⟩ := released_stop hp hc hstop
    exact ⟨hparent, hchild, printed_eq hc hchild⟩

end LinuxOddsAndEnds.Ipc.PipeUnnamed
