import LinuxOddsAndEnds.Ubuntu.WorkQueues
import Mathlib.Data.List.Nodup

/-!
# The life of a node

A node is listed, removed, freed and never looked at again if its callback starts
only while it is not among the pointers that the exit loop has saved and removes it
only once it is listed, and if the exit loop moves these pointers only to nodes without
a running callback. Then the exit loop always works on the first entry of the list, and
each node that has been removed has one owner who will free it.
-/

namespace LinuxOddsAndEnds.Ubuntu.WorkQueues

open Foundation

/-- A node is listed once and before it is removed, removed once, freed once and not
accessed after that. -/
def nodeOk (pre : List Seen) : Seen → Prop
  | .listed i => .listed i ∉ pre ∧ .removed i ∉ pre
  | .removed i => .listed i ∈ pre ∧ .removed i ∉ pre
  | .freed i => .freed i ∉ pre
  | .accessed i => .freed i ∉ pre

instance decidableNodeOk (pre : List Seen) : ∀ o, Decidable (nodeOk pre o)
  | .listed i => inferInstanceAs (Decidable (.listed i ∉ pre ∧ .removed i ∉ pre))
  | .removed i => inferInstanceAs (Decidable (.listed i ∈ pre ∧ .removed i ∉ pre))
  | .freed i => inferInstanceAs (Decidable (.freed i ∉ pre))
  | .accessed i => inferInstanceAs (Decidable (.freed i ∉ pre))

def Work.running : Work → Bool
  | .print | .del | .free => true
  | .idle | .pending => false

/-- The exit loop is under way and has saved a pointer to the node. -/
def Module.pointed (s : Module) (i : ℕ) : Bool :=
  s.exitPc != .notStarted && s.exitPc != .done &&
    (s.safeIterPos == .node i || s.safeIterTemp == .node i)

/-- No callback runs for the nodes that the exit loop is about to point to. -/
def Module.undisturbed (s : Module) (pos : Ptr) : Bool :=
  (pos.nodes ++ (nextPtr s.workList pos).nodes).all fun i => !(s.work i).running

/-- Callbacks start on nodes that the exit loop does not point to and remove nodes that are
listed, and the exit loop turns only to nodes without a running callback. -/
def orderly (s : Module) : Action → Bool
  | .startWork i => !s.pointed i
  | .doWorkDelayed i => s.work i != .del || i ∈ s.workList
  | .exit =>
    match s.exitPc with
    | .notStarted => s.undisturbed (firstPtr s.workList)
    | .advance => s.undisturbed s.safeIterTemp
    | _ => true
  | .init => true

/-- Nothing is left to do: the init loop is through, the exit loop has not begun or is
through, and no work is queued or running. -/
def Module.finished (numCores : ℕ) (s : Module) : Prop :=
  s.initPc = .done ∧ (s.exitPc = .notStarted ∨ s.exitPc = .done) ∧
    ∀ i < numCores, s.work i = .idle

instance (numCores : ℕ) (s : Module) : Decidable (s.finished numCores) :=
  inferInstanceAs (Decidable (s.initPc = .done ∧ (s.exitPc = .notStarted ∨ s.exitPc = .done) ∧
    ∀ i < numCores, s.work i = .idle))

/-- The list and the loop variable are what the trace says. -/
structure Recorded (s : Module) (tr : List Seen) : Prop where
  nodup : s.workList.Nodup
  listed : ∀ i, .listed i ∈ tr ↔ i < s.initIndex
  onList : ∀ i, i ∈ s.workList ↔ .listed i ∈ tr ∧ .removed i ∉ tr
  removed : ∀ i, .removed i ∈ tr → .listed i ∈ tr
  freed : ∀ i, .freed i ∈ tr → .removed i ∈ tr
  judged : Judged nodeOk tr

variable {s s' : Module} {tr seen : List Seen} {i j : ℕ}

theorem Recorded.alive (h : Recorded s tr) (hi : i ∈ s.workList) : .freed i ∉ tr :=
  fun hf => ((h.onList i).mp hi).2 (h.freed i hf)

theorem Recorded.unborn (h : Recorded s tr) (hi : s.initIndex ≤ i) : .freed i ∉ tr := by
  intro hf
  have hlt := (h.listed i).mp (h.removed i (h.freed i hf))
  omega

theorem judgedFrom_accesses {l : List ℕ} (h : ∀ j ∈ l, .freed j ∉ tr) :
    JudgedFrom nodeOk tr (l.map .accessed) := by
  induction l generalizing tr with
  | nil => trivial
  | cons a l ih =>
    refine ⟨h a List.mem_cons_self, ih ?_⟩
    intro j hj
    simpa using h j (List.mem_cons_of_mem a hj)

theorem mem_of_mem_neighbours {l : List ℕ} (h : j ∈ neighbours l i) : j ∈ l :=
  List.mem_of_mem_filter h

theorem Recorded.accesses (h : Recorded s tr) (s' : Module) (hlist : s'.workList = s.workList)
    (hindex : s'.initIndex = s.initIndex) {l : List ℕ} (hl : ∀ j ∈ l, .freed j ∉ tr) :
    Recorded s' (tr ++ l.map .accessed) := by
  refine ⟨?_, ?_, ?_, ?_, ?_, h.judged.append (judgedFrom_accesses hl)⟩
  · rw [hlist]
    exact h.nodup
  · simpa [hindex] using h.listed
  · simpa [hlist] using h.onList
  · simpa using h.removed
  · simpa using h.freed

@[simp] theorem listed_mem_listAdd (l : List ℕ) : .listed j ∈ listAddSeen l i ↔ j = i := by
  simp [listAddSeen]

@[simp] theorem removed_mem_listAdd (l : List ℕ) : .removed j ∉ listAddSeen l i := by
  simp [listAddSeen]

@[simp] theorem freed_mem_listAdd (l : List ℕ) : .freed j ∉ listAddSeen l i := by
  simp [listAddSeen]

@[simp] theorem listed_mem_listDel (l : List ℕ) : .listed j ∉ listDelSeen l i := by
  simp [listDelSeen]

@[simp] theorem removed_mem_listDel (l : List ℕ) : .removed j ∈ listDelSeen l i ↔ j = i := by
  simp [listDelSeen]

@[simp] theorem freed_mem_listDel (l : List ℕ) : .freed j ∉ listDelSeen l i := by
  simp [listDelSeen]

theorem Recorded.listAdd (h : Recorded s tr) (s' : Module)
    (hlist : s'.workList = s.initIndex :: s.workList) (hindex : s'.initIndex = s.initIndex + 1) :
    Recorded s' (tr ++ listAddSeen s.workList s.initIndex) := by
  have hnew : .listed s.initIndex ∉ tr := by
    rw [h.listed]
    omega
  have hfresh : .removed s.initIndex ∉ tr := fun hr => hnew (h.removed _ hr)
  have hjudged : JudgedFrom nodeOk tr (listAddSeen s.workList s.initIndex) := by
    refine judgedFrom_append.mpr ⟨judgedFrom_accesses ?_, ⟨?_, ?_⟩, trivial⟩
    · intro j hj
      rcases List.mem_cons.mp hj with rfl | hj
      · exact h.unborn (Nat.le_refl _)
      · exact h.alive (List.mem_of_mem_head? (by simpa using hj))
    · simpa using hnew
    · simpa using hfresh
  refine ⟨?_, ?_, ?_, ?_, ?_, h.judged.append hjudged⟩
  · rw [hlist, List.nodup_cons, h.onList]
    exact ⟨fun hc => hnew hc.1, h.nodup⟩
  · intro i
    rw [List.mem_append, listed_mem_listAdd, h.listed, hindex]
    omega
  · intro i
    rw [hlist, List.mem_cons, h.onList, List.mem_append, listed_mem_listAdd]
    by_cases hi : i = s.initIndex
    · simp [hi, hfresh]
    · simp [hi]
  · intro i hi
    exact List.mem_append_left _ (h.removed i (by simpa using hi))
  · intro i hi
    exact List.mem_append_left _ (h.freed i (by simpa using hi))

theorem Recorded.listDel (h : Recorded s tr) (s' : Module) (hi : i ∈ s.workList)
    (hlist : s'.workList = s.workList.erase i) (hindex : s'.initIndex = s.initIndex) :
    Recorded s' (tr ++ listDelSeen s.workList i) := by
  obtain ⟨hlisted, hkept⟩ := (h.onList i).mp hi
  have hjudged : JudgedFrom nodeOk tr (listDelSeen s.workList i) := by
    refine judgedFrom_append.mpr ⟨judgedFrom_accesses ?_, ⟨?_, ?_⟩, trivial⟩
    · intro j hj
      rcases List.mem_cons.mp hj with rfl | hj
      · exact h.alive hi
      · exact h.alive (mem_of_mem_neighbours hj)
    · simpa using hlisted
    · simpa using hkept
  refine ⟨?_, ?_, ?_, ?_, ?_, h.judged.append hjudged⟩
  · rw [hlist]
    exact h.nodup.erase i
  · intro j
    rw [hindex, ← h.listed]
    simp
  · intro j
    rw [hlist, h.nodup.mem_erase_iff, h.onList, List.mem_append, List.mem_append, not_or,
      removed_mem_listDel]
    constructor
    · rintro ⟨hne, hl, hr⟩
      exact ⟨Or.inl hl, hr, hne⟩
    · rintro ⟨hl, hr, hne⟩
      exact ⟨hne, by simpa using hl, hr⟩
  · intro j hj
    apply List.mem_append_left
    rcases List.mem_append.mp hj with hj | hj
    · exact h.removed j hj
    · obtain rfl : j = i := by simpa using hj
      exact hlisted
  · intro j hj
    exact List.mem_append_left _ (h.freed j (by simpa using hj))

theorem Recorded.kfree (h : Recorded s tr) (s' : Module) (hr : .removed i ∈ tr) (hf : .freed i ∉ tr)
    (hlist : s'.workList = s.workList) (hindex : s'.initIndex = s.initIndex) :
    Recorded s' (tr ++ [Seen.freed i]) := by
  refine ⟨?_, ?_, ?_, ?_, ?_, h.judged.append ⟨hf, trivial⟩⟩
  · rw [hlist]
    exact h.nodup
  · simpa [hindex] using h.listed
  · simpa [hlist] using h.onList
  · simpa using h.removed
  · intro j hj
    rcases List.mem_append.mp hj with hj | hj
    · simpa using h.freed j hj
    · obtain rfl : j = i := by simpa using hj
      simpa using hr

/-- The node is listed, or the init loop is about to list it. -/
def Module.Enlisted (s : Module) (i : ℕ) : Prop :=
  i ∈ s.workList ∨ (s.initPc = .add ∧ i = s.initIndex)

def WorkInv (s : Module) (tr : List Seen) (i : ℕ) : Prop :=
  match s.work i with
  | .idle => i ∈ s.workList → s.exitPc = .del ∧ s.safeIterPos = .node i
  | .pending => s.Enlisted i
  | .print | .del => s.Enlisted i ∧ s.pointed i = false
  | .free => .removed i ∈ tr ∧ .freed i ∉ tr ∧ s.pointed i = false

def ExitInv (s : Module) (tr : List Seen) : Prop :=
  match s.exitPc with
  | .notStarted => True
  | .cancel => ∃ p rest, s.safeIterPos = .node p ∧ s.workList = p :: rest ∧
      s.safeIterTemp = firstPtr rest
  | .del => ∃ p rest, s.safeIterPos = .node p ∧ s.workList = p :: rest ∧
      s.safeIterTemp = firstPtr rest ∧ s.work p = .idle
  | .free => ∃ p, s.safeIterPos = .node p ∧ s.safeIterTemp = firstPtr s.workList ∧
      s.work p = .idle ∧ .removed p ∈ tr ∧ .freed p ∉ tr
  | .advance => s.safeIterTemp = firstPtr s.workList ∧ ∃ p, s.safeIterPos = .node p ∧ .freed p ∈ tr
  | .done => s.workList = []

structure Lifecycle (numCores : ℕ) (s : Module) (tr : List Seen) : Prop where
  recorded : Recorded s tr
  index : s.initIndex ≤ numCores ∧ (s.initPc = .done → s.initIndex = numCores) ∧
    (s.initPc = .queue ∨ s.initPc = .add → s.initIndex < numCores)
  adding : s.initPc = .add → s.work s.initIndex ≠ .idle ∧ s.work s.initIndex ≠ .free
  initDone : s.exitPc ≠ .notStarted → s.initPc = .done
  work : ∀ i, WorkInv s tr i
  owned : ∀ i, .removed i ∈ tr → .freed i ∉ tr →
    s.work i = .free ∨ (s.exitPc = .free ∧ s.safeIterPos = .node i)
  exit : ExitInv s tr

theorem WorkInv.congr {tr' : List Seen} (h : WorkInv s tr i) (hwork : s'.work i = s.work i)
    (hlist : i ∈ s'.workList ↔ i ∈ s.workList)
    (hown : s.exitPc = .del ∧ s.safeIterPos = .node i → s'.exitPc = .del ∧ s'.safeIterPos = .node i)
    (hadd : s.initPc = .add ∧ i = s.initIndex → s'.initPc = .add ∧ i = s'.initIndex)
    (hpointed : (s.work i).running = true → s.pointed i = false → s'.pointed i = false)
    (hremoved : .removed i ∈ tr' ↔ .removed i ∈ tr) (hfreed : .freed i ∈ tr' ↔ .freed i ∈ tr) :
    WorkInv s' tr' i := by
  unfold WorkInv Module.Enlisted at h ⊢
  rw [hwork, hlist, hremoved, hfreed]
  cases hw : s.work i with
  | idle =>
    rw [hw] at h
    exact fun hi => hown (h hi)
  | pending =>
    rw [hw] at h
    exact h.imp_right hadd
  | print | del =>
    rw [hw] at h
    exact ⟨h.1.imp_right hadd, hpointed (by simp [hw, Work.running]) h.2⟩
  | free =>
    rw [hw] at h
    exact ⟨h.1, h.2.1, hpointed (by simp [hw, Work.running]) h.2.2⟩

theorem pointed_of_notStarted (h : s.exitPc = .notStarted) (i : ℕ) : s.pointed i = false := by
  simp [Module.pointed, h]

theorem exitInv_of_notStarted (h : s.exitPc = .notStarted) : ExitInv s tr := by
  unfold ExitInv
  rw [h]
  trivial

variable {numCores : ℕ}

theorem Lifecycle.exit_notStarted (h : Lifecycle numCores s tr) (hinit : s.initPc ≠ .done) :
    s.exitPc = .notStarted := by
  by_contra hexit
  exact hinit (h.initDone hexit)

theorem Lifecycle.not_removed (h : Lifecycle numCores s tr) (hi : s.initIndex ≤ i) :
    .removed i ∉ tr := by
  intro hr
  have hlt := (h.recorded.listed i).mp (h.recorded.removed i hr)
  omega

theorem Lifecycle.kept (h : Lifecycle numCores s tr) (hi : s.Enlisted i) : .removed i ∉ tr := by
  rcases hi with hi | ⟨-, rfl⟩
  · exact ((h.recorded.onList i).mp hi).2
  · exact h.not_removed (Nat.le_refl _)

theorem Module.Enlisted.mem (hi : s.Enlisted i) (hinit : s.initPc = .done) :
    i ∈ s.workList := by
  refine hi.resolve_right fun hadd => ?_
  rw [hinit] at hadd
  cases hadd.1

theorem Lifecycle.adding_ne (h : Lifecycle numCores s tr) (hi : .listed i ∈ tr) :
    s.initIndex ≠ i := by
  have hlt := (h.recorded.listed i).mp hi
  omega

theorem Lifecycle.leaveAlloc (h : Lifecycle numCores s tr) (hpc : s.initPc = .alloc) {pc : InitPc}
    (hnext : (pc = .queue ∧ s.initIndex < numCores) ∨ (pc = .done ∧ s.initIndex = numCores))
    {l : List ℕ} (hl : ∀ j ∈ l, .freed j ∉ tr) :
    Lifecycle numCores (s.setInit pc) (tr ++ l.map .accessed) := by
  have hexit := h.exit_notStarted (by simp [hpc])
  have hindex : s.initIndex ≤ numCores ∧ (pc = .done → s.initIndex = numCores) ∧
      (pc = .queue ∨ pc = .add → s.initIndex < numCores) := by
    rcases hnext with ⟨rfl, hlt⟩ | ⟨rfl, heq⟩
    · exact ⟨h.index.1, nofun, fun _ => hlt⟩
    · exact ⟨h.index.1, fun _ => heq, by simp⟩
  have hadd : pc ≠ .add := by
    rcases hnext with ⟨rfl, -⟩ | ⟨rfl, -⟩ <;> simp
  refine ⟨h.recorded.accesses (s.setInit pc) rfl rfl hl, hindex, fun hc => absurd hc hadd,
    fun hne => absurd hexit hne, ?_, ?_, exitInv_of_notStarted hexit⟩
  · intro i
    refine (h.work i).congr rfl Iff.rfl id ?_ ?_ (by simp) (by simp)
    · simp [hpc]
    · exact fun _ _ => pointed_of_notStarted hexit i
  · intro i hr hf
    exact h.owned i (by simpa using hr) (by simpa using hf)

theorem Lifecycle.initStep (h : Lifecycle numCores s tr)
    (hs : initStep numCores s = some (s', seen)) : Lifecycle numCores s' (tr ++ seen) := by
  obtain ⟨hle, -, hlt⟩ := h.index
  have hunborn := h.recorded.unborn (Nat.le_refl s.initIndex)
  cases hpc : s.initPc <;> simp only [WorkQueues.initStep, hpc, reduceCtorEq] at hs
  case alloc =>
    split_ifs at hs with hmore <;> obtain ⟨rfl, rfl⟩ := by simpa using hs
    · exact h.leaveAlloc hpc (Or.inl ⟨rfl, hmore⟩) (l := [s.initIndex]) (by simpa using hunborn)
    · have hall : s.initIndex = numCores := by omega
      exact h.leaveAlloc hpc (Or.inr ⟨rfl, hall⟩) (l := []) (by simp)
  case queue =>
    have hexit := h.exit_notStarted (by simp [hpc])
    obtain ⟨rfl, rfl⟩ := by simpa using hs
    refine ⟨?_, ⟨hle, nofun, fun _ => hlt (Or.inl hpc)⟩, fun _ => ?_,
      fun hne => absurd hexit hne, ?_, ?_, exitInv_of_notStarted hexit⟩
    · exact h.recorded.accesses ((s.setWork s.initIndex .pending).setInit .add) rfl rfl
        (l := [s.initIndex]) (by simpa using hunborn)
    · simp
    · intro i
      by_cases hi : i = s.initIndex
      · subst hi
        simp [WorkInv, Module.Enlisted]
      · refine (h.work i).congr ?_ Iff.rfl id ?_ ?_ (by simp) (by simp)
        · simp [hi]
        · simp [hpc]
        · exact fun _ _ => pointed_of_notStarted hexit i
    · intro i hr hf
      have hne : i ≠ s.initIndex := by
        rintro rfl
        exact h.not_removed (Nat.le_refl _) (by simpa using hr)
      have hown := h.owned i (by simpa using hr) (by simpa using hf)
      simpa [hne] using hown
  case add =>
    have hexit := h.exit_notStarted (by simp [hpc])
    obtain ⟨rfl, rfl⟩ := by simpa using hs
    have hnext := hlt (Or.inr hpc)
    refine ⟨h.recorded.listAdd _ rfl rfl, ⟨hnext, nofun, nofun⟩, nofun,
      fun hne => absurd hexit hne, ?_, ?_, exitInv_of_notStarted hexit⟩
    · intro i
      by_cases hi : i = s.initIndex
      · subst hi
        obtain ⟨hidle, hfree⟩ := h.adding hpc
        have hpointed : s.pointed s.initIndex = false := pointed_of_notStarted hexit s.initIndex
        unfold WorkInv
        cases hw : s.work s.initIndex with
        | idle => exact absurd hw hidle
        | pending => exact Or.inl List.mem_cons_self
        | print | del => exact ⟨Or.inl List.mem_cons_self, hpointed⟩
        | free => exact absurd hw hfree
      · refine (h.work i).congr rfl ?_ id ?_ ?_ (by simp) (by simp)
        · simp [hi]
        · exact fun hc => absurd hc.2 hi
        · exact fun _ _ => pointed_of_notStarted hexit i
    · intro i hr hf
      exact h.owned i (by simpa using hr) (by simpa using hf)

theorem firstPtr_erase {l : List ℕ} (h : firstPtr l ≠ .node i) :
    firstPtr (l.erase i) = firstPtr l := by
  cases l with
  | nil => rfl
  | cons a l =>
    have hne : a ≠ i := by
      rintro rfl
      exact h rfl
    simp [hne, firstPtr]

theorem not_pos_of_not_pointed (h : s.pointed i = false) (hstart : s.exitPc ≠ .notStarted)
    (hdone : s.exitPc ≠ .done) : s.safeIterPos ≠ .node i ∧ s.safeIterTemp ≠ .node i := by
  simpa [Module.pointed, hstart, hdone] using h

/-- A callback does not disturb the exit loop if its node is not pointed to. -/
theorem ExitInv.callback {tr' : List Seen} (h : ExitInv s tr) (hexit : s'.exitPc = s.exitPc)
    (hpos : s'.safeIterPos = s.safeIterPos) (htemp : s'.safeIterTemp = s.safeIterTemp)
    (hpointed : s.pointed i = false)
    (hlist : s'.workList = s.workList ∨ s'.workList = s.workList.erase i)
    (hwork : ∀ j, j ≠ i → s'.work j = s.work j)
    (htr : tr ⊆ tr') (hfreed : ∀ j, j ≠ i → .freed j ∉ tr → .freed j ∉ tr') : ExitInv s' tr' := by
  have hfirst : firstPtr s.workList ≠ .node i → firstPtr s'.workList = firstPtr s.workList := by
    intro hne
    rcases hlist with hl | hl
    · rw [hl]
    · rw [hl, firstPtr_erase hne]
  have hcons : ∀ p rest, s.workList = p :: rest → p ≠ i → firstPtr rest ≠ .node i →
      ∃ rest', s'.workList = p :: rest' ∧ firstPtr rest = firstPtr rest' := by
    intro p rest hl hp hrest
    rcases hlist with hl' | hl'
    · exact ⟨rest, hl'.trans hl, rfl⟩
    · refine ⟨rest.erase i, ?_, (firstPtr_erase hrest).symm⟩
      rw [hl', hl, List.erase_cons_tail (by simpa using hp)]
  unfold ExitInv at h ⊢
  rw [hexit, hpos, htemp]
  cases hpc : s.exitPc with
  | notStarted => trivial
  | cancel =>
    rw [hpc] at h
    obtain ⟨hp, ht⟩ := not_pos_of_not_pointed hpointed (by simp [hpc]) (by simp [hpc])
    obtain ⟨p, rest, hpos', hl, htemp'⟩ := h
    rw [hpos'] at hp
    obtain ⟨rest', hl', hrest⟩ := hcons p rest hl (fun he => hp (he ▸ rfl)) (htemp' ▸ ht)
    exact ⟨p, rest', hpos', hl', htemp'.trans hrest⟩
  | del =>
    rw [hpc] at h
    obtain ⟨hp, ht⟩ := not_pos_of_not_pointed hpointed (by simp [hpc]) (by simp [hpc])
    obtain ⟨p, rest, hpos', hl, htemp', hidle⟩ := h
    have hpi : p ≠ i := by
      rintro rfl
      exact hp hpos'
    obtain ⟨rest', hl', hrest⟩ := hcons p rest hl hpi (htemp' ▸ ht)
    exact ⟨p, rest', hpos', hl', htemp'.trans hrest, (hwork p hpi).trans hidle⟩
  | free =>
    rw [hpc] at h
    obtain ⟨hp, ht⟩ := not_pos_of_not_pointed hpointed (by simp [hpc]) (by simp [hpc])
    obtain ⟨p, hpos', htemp', hidle, hr, hf⟩ := h
    have hpi : p ≠ i := by
      rintro rfl
      exact hp hpos'
    exact ⟨p, hpos', htemp'.trans (hfirst (htemp' ▸ ht)).symm, (hwork p hpi).trans hidle,
      htr hr, hfreed p hpi hf⟩
  | advance =>
    rw [hpc] at h
    obtain ⟨-, ht⟩ := not_pos_of_not_pointed hpointed (by simp [hpc]) (by simp [hpc])
    obtain ⟨htemp', p, hpos', hf⟩ := h
    exact ⟨htemp'.trans (hfirst (htemp' ▸ ht)).symm, p, hpos', htr hf⟩
  | done =>
    rw [hpc] at h
    rcases hlist with hl | hl
    · rw [hl, h]
    · rw [hl, h]
      rfl

/-- The callback of a node that is not pointed to goes on to a step before its `list_del`. -/
theorem Lifecycle.progress (h : Lifecycle numCores s tr) (hi : s.Enlisted i)
    (hpointed : s.pointed i = false) {w : Work} (hw : w = .print ∨ w = .del) {l : List ℕ}
    (hl : ∀ j ∈ l, j = i) : Lifecycle numCores (s.setWork i w) (tr ++ l.map .accessed) := by
  have hrec : Recorded (s.setWork i w) (tr ++ l.map .accessed) := by
    refine h.recorded.accesses (s.setWork i w) rfl rfl ?_
    intro j hj
    rw [hl j hj]
    exact fun hf => h.kept hi (h.recorded.freed i hf)
  refine ⟨hrec, h.index, ?_, h.initDone, ?_, ?_, ?_⟩
  · intro hadd
    rw [Module.setWork_initIndex, Module.setWork_work]
    split_ifs
    · rcases hw with rfl | rfl <;> simp
    · exact h.adding hadd
  · intro j
    by_cases hj : j = i
    · subst hj
      rcases hw with rfl | rfl <;> simpa [WorkInv] using ⟨hi, hpointed⟩
    · refine (h.work j).congr ?_ Iff.rfl id id (fun _ => id) (by simp) (by simp)
      rw [Module.setWork_work, if_neg hj]
  · intro j hr hf
    have hne : j ≠ i := by
      rintro rfl
      exact h.kept hi (by simpa using hr)
    rw [Module.setWork_work, if_neg hne]
    exact h.owned j (by simpa using hr) (by simpa using hf)
  · refine h.exit.callback rfl rfl rfl hpointed (Or.inl rfl) ?_ ?_ ?_
    · intro j hj
      rw [Module.setWork_work, if_neg hj]
    · exact List.subset_append_left _ _
    · simp

theorem Lifecycle.startWork (h : Lifecycle numCores s tr)
    (hok : orderly s (.startWork i) = true) (hs : startWork i s = some (s', seen)) :
    Lifecycle numCores s' (tr ++ seen) := by
  have hpointed : s.pointed i = false := by simpa [orderly] using hok
  unfold WorkQueues.startWork at hs
  split_ifs at hs with hpending
  obtain ⟨rfl, rfl⟩ := by simpa using hs
  have hinv := h.work i
  rw [WorkInv, hpending] at hinv
  exact h.progress hinv hpointed (Or.inl rfl) (l := []) nofun

theorem Lifecycle.doWorkDelayed (h : Lifecycle numCores s tr)
    (hok : orderly s (.doWorkDelayed i) = true) (hs : doWorkDelayed i s = some (s', seen)) :
    Lifecycle numCores s' (tr ++ seen) := by
  have hinv := h.work i
  cases hw : s.work i <;> simp only [WorkQueues.doWorkDelayed, hw, reduceCtorEq] at hs <;>
    simp only [WorkInv, hw] at hinv
  case print =>
    obtain ⟨rfl, rfl⟩ := by simpa using hs
    exact h.progress hinv.1 hinv.2 (Or.inr rfl) (l := [i]) (by simp)
  case del =>
    obtain ⟨rfl, rfl⟩ := by simpa using hs
    have hi : i ∈ s.workList := by simpa [orderly, hw] using hok
    obtain ⟨-, hpointed⟩ := hinv
    refine ⟨h.recorded.listDel _ hi rfl rfl, h.index, ?_, h.initDone, ?_, ?_, ?_⟩
    · intro hadd
      simpa [h.adding_ne ((h.recorded.onList i).mp hi).1] using h.adding hadd
    · intro j
      by_cases hj : j = i
      · subst hj
        simpa [WorkInv] using ⟨h.recorded.alive hi, hpointed⟩
      · refine (h.work j).congr ?_ ?_ id id (fun _ => id) (by simp [hj]) (by simp)
        · simp [hj]
        · simp [List.mem_erase_of_ne hj]
    · intro j hr hf
      by_cases hj : j = i
      · subst hj
        exact Or.inl (by simp)
      · simpa [hj] using h.owned j (by simpa [hj] using hr) (by simpa using hf)
    · refine h.exit.callback rfl rfl rfl hpointed (Or.inr rfl) ?_ ?_ ?_
      · intro j hj
        simp [hj]
      · exact List.subset_append_left _ _
      · simp
  case free =>
    obtain ⟨rfl, rfl⟩ := by simpa using hs
    obtain ⟨hr, hf, hpointed⟩ := hinv
    refine ⟨h.recorded.kfree (s.setWork i .idle) hr hf rfl rfl, h.index, ?_, h.initDone, ?_, ?_, ?_⟩
    · intro hadd
      simpa [h.adding_ne (h.recorded.removed i hr)] using h.adding hadd
    · intro j
      by_cases hj : j = i
      · subst hj
        have hout : j ∉ s.workList := fun hc => ((h.recorded.onList j).mp hc).2 hr
        simpa [WorkInv] using fun hc => absurd hc hout
      · refine (h.work j).congr ?_ Iff.rfl id id (fun _ => id) (by simp) (by simp [hj])
        simp [hj]
    · intro j hr' hf'
      have hj : j ≠ i := by
        rintro rfl
        simp at hf'
      simpa [hj] using h.owned j (by simpa using hr') (by simpa [hj] using hf')
    · refine h.exit.callback rfl rfl rfl hpointed (Or.inl rfl) ?_ ?_ ?_
      · intro j hj
        simp [hj]
      · exact List.subset_append_left _ _
      · intro j hj hfree
        simpa [hj] using hfree

theorem mem_nodes {p : Ptr} : j ∈ p.nodes ↔ p = .node j := by
  cases p with
  | head => simp [Ptr.nodes]
  | node k => simp [Ptr.nodes, eq_comm]
  | poison => simp [Ptr.nodes]

theorem pointed_pointTo {pos : Ptr} (h : s.undisturbed pos = true)
    (hrun : (s.work j).running = true) : (s.pointTo pos).pointed j = false := by
  have hnot : ∀ p, p = pos ∨ p = nextPtr s.workList pos → p ≠ .node j := by
    intro p hp hpj
    have hmem : j ∈ pos.nodes ++ (nextPtr s.workList pos).nodes := by
      rcases hp with rfl | rfl
      · exact List.mem_append_left _ (mem_nodes.mpr hpj)
      · exact List.mem_append_right _ (mem_nodes.mpr hpj)
    have hidle := List.all_eq_true.mp h j hmem
    simp [hrun] at hidle
  simp [Module.pointed, Module.pointTo, hnot]

theorem Lifecycle.pointTo (h : Lifecycle numCores s tr) (hinit : s.initPc = .done)
    (hfrom : s.exitPc = .notStarted ∨ s.exitPc = .advance)
    (hundisturbed : s.undisturbed (firstPtr s.workList) = true) :
    Lifecycle numCores (s.pointTo (firstPtr s.workList))
      (tr ++ (firstPtr s.workList).nodes.map .accessed) := by
  have hdel : s.exitPc ≠ .del := by
    rcases hfrom with he | he <;> simp [he]
  have hfree : s.exitPc ≠ .free := by
    rcases hfrom with he | he <;> simp [he]
  refine ⟨?_, h.index, fun hadd => ?_, fun _ => hinit, ?_, ?_, ?_⟩
  · refine h.recorded.accesses (s.pointTo _) rfl rfl ?_
    intro j hj
    cases hl : s.workList with
    | nil => simp [hl, firstPtr, Ptr.nodes] at hj
    | cons p rest =>
      obtain rfl : j = p := by simpa [hl, firstPtr, Ptr.nodes] using hj
      exact h.recorded.alive (by simp [hl])
  · rw [show (s.pointTo (firstPtr s.workList)).initPc = s.initPc from rfl, hinit] at hadd
    cases hadd
  · intro j
    refine (h.work j).congr rfl Iff.rfl (fun hc => absurd hc.1 hdel) id ?_ (by simp) (by simp)
    exact fun hrun _ => pointed_pointTo hundisturbed hrun
  · intro j hr hf
    rcases h.owned j (by simpa using hr) (by simpa using hf) with hw | ⟨hc, -⟩
    · exact Or.inl hw
    · exact absurd hc hfree
  · cases hl : s.workList with
    | nil => simp [ExitInv, Module.pointTo, firstPtr, hl]
    | cons p rest => simp [ExitInv, Module.pointTo, firstPtr, nextPtr, hl]

theorem Lifecycle.cancel_pending (h : Lifecycle numCores s tr) (hpc : s.exitPc = .cancel)
    (hpos : s.safeIterPos = .node i) (hi : i ∈ s.workList) : s.work i = .pending := by
  have hinv := h.work i
  have hpointed : s.pointed i = true := by simp [Module.pointed, hpc, hpos]
  cases hw : s.work i <;> simp only [WorkInv, hw] at hinv
  · have hdel := (hinv hi).1
    rw [hpc] at hdel
    cases hdel
  · rfl
  · simp [hpointed] at hinv
  · simp [hpointed] at hinv
  · simp [hpointed] at hinv

theorem Lifecycle.exitCancel (h : Lifecycle numCores s tr) (hpc : s.exitPc = .cancel)
    (hs : exitStep s = some (s', seen)) : Lifecycle numCores s' (tr ++ seen) := by
  have hdone := h.initDone (by simp [hpc])
  obtain ⟨p, rest, hpos, hl, htemp⟩ := by simpa only [ExitInv, hpc] using h.exit
  have hp : p ∈ s.workList := by simp [hl]
  simp only [WorkQueues.exitStep, hpc, hpos, h.cancel_pending hpc hpos hp, if_true] at hs
  obtain ⟨rfl, rfl⟩ := by simpa using hs
  refine ⟨?_, h.index, fun hadd => ?_, fun _ => hdone, ?_, ?_, ?_⟩
  · exact h.recorded.accesses ((s.setWork p .idle).setExit .del) rfl rfl (l := [p])
      (by simpa using h.recorded.alive hp)
  · simp [hdone] at hadd
  · intro j
    by_cases hj : j = p
    · subst hj
      simpa [WorkInv] using fun _ => hpos
    · refine (h.work j).congr ?_ Iff.rfl ?_ id ?_ (by simp) (by simp)
      · simp [hj]
      · simp [hpc]
      · simp [Module.pointed, hpc]
  · intro j hr hf
    have hj : j ≠ p := by
      rintro rfl
      exact ((h.recorded.onList j).mp hp).2 (by simpa using hr)
    simpa [hpc, hj] using h.owned j (by simpa using hr) (by simpa using hf)
  · exact ⟨p, rest, hpos, hl, htemp, by simp⟩

theorem Lifecycle.exitDel (h : Lifecycle numCores s tr) (hpc : s.exitPc = .del)
    (hs : exitStep s = some (s', seen)) : Lifecycle numCores s' (tr ++ seen) := by
  have hdone := h.initDone (by simp [hpc])
  obtain ⟨p, rest, hpos, hl, htemp, hidle⟩ := by simpa only [ExitInv, hpc] using h.exit
  have hp : p ∈ s.workList := by simp [hl]
  simp only [WorkQueues.exitStep, hpc, hpos] at hs
  obtain ⟨rfl, rfl⟩ := by simpa using hs
  have hrest : (s.listDel p).workList = rest := by simp [hl]
  have hout : p ∉ rest := by
    have hnodup := h.recorded.nodup
    rw [hl] at hnodup
    exact (List.nodup_cons.mp hnodup).1
  refine ⟨h.recorded.listDel _ hp rfl rfl, h.index, fun hadd => ?_, fun _ => hdone, ?_, ?_, ?_⟩
  · simp [hdone] at hadd
  · intro j
    by_cases hj : j = p
    · subst hj
      simpa [WorkInv, hidle, hl] using fun hc => absurd hc hout
    · refine (h.work j).congr rfl ?_ ?_ id ?_ (by simp [hj]) (by simp)
      · simp [List.mem_erase_of_ne hj]
      · rintro ⟨-, hpos'⟩
        rw [hpos, Ptr.node.injEq] at hpos'
        exact absurd hpos'.symm hj
      · simp [Module.pointed, hpc]
  · intro j hr hf
    by_cases hj : j = p
    · subst hj
      exact Or.inr ⟨rfl, hpos⟩
    · rcases h.owned j (by simpa [hj] using hr) (by simpa using hf) with hw | ⟨hc, -⟩
      · exact Or.inl hw
      · rw [hpc] at hc
        cases hc
  · exact ⟨p, hpos, htemp.trans (by rw [Module.setExit_workList, hrest]), hidle, by simp,
      by simpa using h.recorded.alive hp⟩

theorem Lifecycle.exitFree (h : Lifecycle numCores s tr) (hpc : s.exitPc = .free)
    (hs : exitStep s = some (s', seen)) : Lifecycle numCores s' (tr ++ seen) := by
  have hdone := h.initDone (by simp [hpc])
  obtain ⟨p, hpos, htemp, hidle, hr, hf⟩ := by simpa only [ExitInv, hpc] using h.exit
  simp only [WorkQueues.exitStep, hpc, hpos] at hs
  obtain ⟨rfl, rfl⟩ := by simpa using hs
  have hout : p ∉ s.workList := fun hc => ((h.recorded.onList p).mp hc).2 hr
  have hrec : Recorded s (tr ++ [Seen.accessed p]) :=
    h.recorded.accesses s rfl rfl (l := [p]) (by simpa using hf)
  have hfree := hrec.kfree (s.setExit .advance) (i := p) (by simpa using hr) (by simpa using hf)
    rfl rfl
  refine ⟨by simpa using hfree, h.index, fun hadd => ?_, fun _ => hdone, ?_, ?_, htemp, p, hpos,
    by simp⟩
  · simp [hdone] at hadd
  · intro j
    by_cases hj : j = p
    · subst hj
      simpa [WorkInv, hidle] using fun hc => absurd hc hout
    · refine (h.work j).congr rfl Iff.rfl ?_ id ?_ (by simp) (by simp [hj])
      · simp [hpc]
      · simp [Module.pointed, hpc]
  · intro j hr' hf'
    have hj : j ≠ p := by
      rintro rfl
      simp at hf'
    rcases h.owned j (by simpa using hr') (by simpa [hj] using hf') with hw | ⟨-, hpos'⟩
    · exact Or.inl hw
    · rw [hpos, Ptr.node.injEq] at hpos'
      exact absurd hpos'.symm hj

theorem Lifecycle.exitStep (h : Lifecycle numCores s tr) (hok : orderly s .exit = true)
    (hs : exitStep s = some (s', seen)) : Lifecycle numCores s' (tr ++ seen) := by
  cases hpc : s.exitPc with
  | notStarted =>
    simp only [WorkQueues.exitStep, hpc] at hs
    split_ifs at hs with hdone
    obtain ⟨rfl, rfl⟩ := by simpa using hs
    exact h.pointTo hdone (Or.inl hpc) (by simpa [orderly, hpc] using hok)
  | cancel => exact h.exitCancel hpc hs
  | del => exact h.exitDel hpc hs
  | free => exact h.exitFree hpc hs
  | advance =>
    obtain ⟨hexit, -⟩ := by simpa only [ExitInv, hpc] using h.exit
    simp only [WorkQueues.exitStep, hpc] at hs
    obtain ⟨rfl, rfl⟩ := by simpa using hs
    have hdone := h.initDone (by simp [hpc])
    rw [hexit]
    exact h.pointTo hdone (Or.inr hpc) (by simpa [orderly, hpc, hexit] using hok)
  | done => simp [WorkQueues.exitStep, hpc] at hs

theorem Lifecycle.step {a : Action} (h : Lifecycle numCores s tr)
    (hs : (workQueues numCores).when orderly s a = some (s', seen)) :
    Lifecycle numCores s' (tr ++ seen) := by
  obtain ⟨hok, hs⟩ := Machine.when_eq_some.mp hs
  cases a with
  | init => exact h.initStep hs
  | startWork i => exact h.startWork hok hs
  | doWorkDelayed i => exact h.doWorkDelayed hok hs
  | exit => exact h.exitStep hok hs

theorem lifecycle_loaded (numCores : ℕ) : Lifecycle numCores loaded [] :=
  ⟨⟨List.nodup_nil, by simp [loaded], by simp [loaded], nofun, nofun, trivial⟩,
    ⟨Nat.zero_le _, nofun, by simp [loaded]⟩, nofun, fun hne => absurd rfl hne,
    fun _ hi => absurd hi List.not_mem_nil, nofun, trivial⟩

theorem lifecycle_of_reaches (h : Reaches ((workQueues numCores).when orderly) loaded s tr) :
    Lifecycle numCores s tr :=
  h.invariant (lifecycle_loaded numCores) fun _ _ _ _ _ hi hs => hi.step hs

theorem Lifecycle.freed_of_finished (h : Lifecycle numCores s tr) (hfin : s.finished numCores)
    (hi : i < numCores) : .listed i ∈ tr ∧ .removed i ∈ tr ∧ .freed i ∈ tr := by
  obtain ⟨hinit, hexit, hidle⟩ := hfin
  have hlisted : .listed i ∈ tr := by
    rw [h.recorded.listed, h.index.2.1 hinit]
    exact hi
  have hnotOn : i ∉ s.workList := by
    intro hon
    have hinv := h.work i
    simp only [WorkInv, hidle i hi] at hinv
    rcases hexit with he | he <;> simp [he] at hinv <;> exact hinv hon
  have hremoved : .removed i ∈ tr := by
    by_contra hr
    exact hnotOn ((h.recorded.onList i).mpr ⟨hlisted, hr⟩)
  refine ⟨hlisted, hremoved, ?_⟩
  by_contra hf
  rcases h.owned i hremoved hf with hw | ⟨hc, -⟩
  · rw [hidle i hi] at hw
    cases hw
  · rcases hexit with he | he <;> simp [he] at hc

/-- In every orderly run each node is listed before it is removed and not accessed after
it is freed; once everything is finished it has been listed, removed and freed once. -/
theorem node_lifecycle (h : Reaches ((workQueues numCores).when orderly) loaded s tr) :
    Judged nodeOk tr ∧ (s.finished numCores → ∀ i < numCores, tr.count (.listed i) = 1 ∧
      tr.count (.removed i) = 1 ∧ tr.count (.freed i) = 1) := by
  have hlife := lifecycle_of_reaches h
  have hj := hlife.recorded.judged
  refine ⟨hj, ?_⟩
  intro hfin i hi
  obtain ⟨hl, hr, hf⟩ := hlife.freed_of_finished hfin hi
  refine ⟨?_, ?_, ?_⟩
  · exact Nat.le_antisymm (hj.count_le_one fun _ ho => ho.1) (List.count_pos_iff.mpr hl)
  · exact Nat.le_antisymm (hj.count_le_one fun _ ho => ho.2) (List.count_pos_iff.mpr hr)
  · exact Nat.le_antisymm (hj.count_le_one fun _ ho => ho) (List.count_pos_iff.mpr hf)

def callback (i : ℕ) : List Action := .startWork i :: List.replicate 3 (.doWorkDelayed i)

/-- Two of four callbacks run, one of them from before its node is listed until the exit loop is
under way. -/
def fourNodes : List Action :=
  [Action.init, .init, .startWork 0, .doWorkDelayed 0] ++ List.replicate 11 Action.init ++
    callback 1 ++ [Action.exit] ++ List.replicate 2 (Action.doWorkDelayed 0) ++
      List.replicate 8 Action.exit

theorem node_lifecycle_four : ∃ s tr, exec ((workQueues 4).when orderly) loaded fourNodes =
      some (s, tr) ∧ s.finished 4 ∧ Judged nodeOk tr ∧
    (s.finished 4 → ∀ i < 4, tr.count (.listed i) = 1 ∧
      tr.count (.removed i) = 1 ∧ tr.count (.freed i) = 1) := by
  obtain ⟨s, tr, hrun, hfinished⟩ : ∃ s tr,
      exec ((workQueues 4).when orderly) loaded fourNodes = some (s, tr) ∧ s.finished 4 := by
    decide +kernel
  exact ⟨s, tr, hrun, hfinished, node_lifecycle (Reaches.of_exec hrun)⟩

/-- The first node's callback runs before the init loop lists the node. -/
theorem callback_before_list_add : ∃ s tr, exec (workQueues 1) loaded
      ([Action.init, .init] ++ callback 0 ++ [Action.init, .init]) = some (s, tr) ∧
    ¬Judged nodeOk tr := by
  decide +kernel

end LinuxOddsAndEnds.Ubuntu.WorkQueues
