import LinuxOddsAndEnds.Foundation.Resources
import Mathlib.Data.Int.Notation
import Mathlib.Data.List.Nodup
import Mathlib.Logic.Function.Basic

/-!
# Allocations of the memory module

`memory_init` and `free_memory` of `7_memory/memory.c`, for every pattern of failing
allocations. The static pointers own what they point to, and `free_memory` frees what they
own. Three things break the account: a failed `krealloc` is stored over the pointer to the
old block, the page allocations are not checked, and the pages allocated for a moment are
used unchecked.
-/

namespace LinuxOddsAndEnds.Ubuntu.Memory

open Foundation

/-- The static pointers. -/
inductive Static where
  | dataInitKernel
  | dataInitDma
  | dataInitUser
  | dataInitUserHi
  | dataInitPageKernel
  | dataInitPageZeroedKernel
  | dataInitPagesKernel
  | dataInitPagesDma
  | vmallocMem
  | vzallocMem
  | mmapKmallocInitKernel
  deriving DecidableEq

/-- The blocks: one allocated for each pointer, the one that `krealloc` makes out of the
first, and the pages of `temp_page`. -/
inductive Block where
  | allocated (p : Static)
  | reallocated
  | tempPage
  deriving DecidableEq

/-- The pointers, and what was done with the blocks. A use of `none` is a use of `NULL`. -/
structure Allocations where
  pointers : Static → Option Block
  history : List (ResourceEvent (Option Block))

def Allocations.log (s : Allocations) (events : List (ResourceEvent (Option Block))) :
    Allocations := { s with history := s.history ++ events }

def Allocations.store (s : Allocations) (p : Static) (b : Option Block) : Allocations :=
  { s with pointers := Function.update s.pointers p b }

section Fields

variable (s : Allocations) (p : Static) (b : Option Block)
  (events : List (ResourceEvent (Option Block)))

@[simp] theorem Allocations.log_pointers : (s.log events).pointers = s.pointers := rfl

@[simp] theorem Allocations.log_history : (s.log events).history = s.history ++ events := rfl

@[simp] theorem Allocations.store_history : (s.store p b).history = s.history := rfl

@[simp] theorem Allocations.store_pointers_self : (s.store p b).pointers p = b :=
  Function.update_self ..

theorem Allocations.store_pointers_of_ne {s : Allocations} {p p' : Static} {b : Option Block}
    (h : p' ≠ p) : (s.store p b).pointers p' = s.pointers p' := Function.update_of_ne h ..

end Fields

inductive Statement where
  /-- `if (!(p = alloc(..))) goto err;` -/
  | require (p : Static)
  /-- The same with `krealloc` of `data_init_kernel_`. -/
  | resize
  /-- `p = alloc(..);` -/
  | assign (p : Static)
  /-- `alloc_pages`, the two addresses, `__free_pages`. -/
  | usePages
  deriving DecidableEq

def enomem : ℤ := 12

/-- `succeeds b` tells whether the allocation of `b` does. -/
def alloc (succeeds : Block → Bool) (b : Block) : Option Block :=
  if succeeds b then some b else none

theorem isSome_alloc (succeeds : Block → Bool) (b : Block) :
    (alloc succeeds b).isSome = succeeds b := by
  cases h : succeeds b <;> simp [alloc, h]

def acquired : Option Block → List (ResourceEvent (Option Block))
  | some b => [.acquire (some b)]
  | none => []

/-- The free functions ignore `NULL` and 0. -/
def freed : Option Block → List (ResourceEvent (Option Block))
  | some b => [.release (some b)]
  | none => []

/-- Whether the statement falls through, and the state after it. A failed `krealloc` leaves the
old block. -/
def Statement.run (succeeds : Block → Bool) (s : Allocations) : Statement → Bool × Allocations
  | .require p =>
    let b := alloc succeeds (.allocated p)
    (b.isSome, (s.log (acquired b)).store p b)
  | .resize =>
    match alloc succeeds .reallocated with
    | some b =>
      (true, (s.log (freed (s.pointers .dataInitKernel) ++ acquired (some b))).store .dataInitKernel
        (some b))
    | none => (false, s.store .dataInitKernel none)
  | .assign p =>
    let b := alloc succeeds (.allocated p)
    (true, (s.log (acquired b)).store p b)
  | .usePages =>
    let b := alloc succeeds .tempPage
    (true, s.log (acquired b ++ [ResourceEvent.use b, .use b] ++ freed b))

/-- Statement after statement, up to the first that goes to `err`. -/
def runAll (succeeds : Block → Bool) : List Statement → Allocations → Bool × Allocations
  | [], s => (true, s)
  | st :: sts, s =>
    if (st.run succeeds s).1 then runAll succeeds sts (st.run succeeds s).2
    else st.run succeeds s

def slabPointers : List Static := [.dataInitDma, .dataInitUser, .dataInitUserHi]

def pagePointers : List Static :=
  [.dataInitPageKernel, .dataInitPageZeroedKernel, .dataInitPagesKernel, .dataInitPagesDma]

def lastPointers : List Static := [.vmallocMem, .vzallocMem, .mmapKmallocInitKernel]

/-- The statements before `temp_page`. -/
def firstStatements : List Statement := slabPointers.map .require ++ pagePointers.map .assign

def statements : List Statement :=
  .require .dataInitKernel :: .resize ::
    (firstStatements ++ Statement.usePages :: lastPointers.map .require)

/-- The order in which `free_memory` goes through the pointers. -/
def freeOrder : List Static :=
  [.mmapKmallocInitKernel, .dataInitPageKernel, .dataInitPageZeroedKernel, .dataInitPagesKernel,
    .dataInitPagesDma, .dataInitKernel, .dataInitDma, .dataInitUser, .dataInitUserHi, .vmallocMem,
    .vzallocMem]

def freeMemory (s : Allocations) : Allocations :=
  s.log (freeOrder.flatMap fun p => freed (s.pointers p))

/-- The statics of a module just loaded. -/
def loaded : Allocations := ⟨fun _ => none, []⟩

/-- What `memory_init` returns and leaves. The answer of `create_proc` is not looked at. -/
def memoryInit (succeeds : Block → Bool) : ℤ × Allocations :=
  let out := runAll succeeds statements loaded
  if out.1 then (0, out.2) else (-enomem, freeMemory out.2)

/-- Either 0 with every pointer at a live block, or `-ENOMEM` with every block freed once;
nothing is used while it is `NULL`. -/
def InitAllOrNothing (succeeds : Block → Bool) : Prop :=
  (memoryInit succeeds).1 = 0 ∧ Lawful (memoryInit succeeds).2.history ∧
      (∀ p, ∃ b, (memoryInit succeeds).2.pointers p = some b ∧
        held (some b) (memoryInit succeeds).2.history = true) ∨
    (memoryInit succeeds).1 = -enomem ∧ Settled (memoryInit succeeds).2.history

/-- The first `kmalloc` fails; or `krealloc` succeeds, and one of the next three allocations
fails, or `alloc_pages` succeeds and so do the four page allocations unless a later allocation
fails. -/
def CleanPattern (succeeds : Block → Bool) : Prop :=
  succeeds (.allocated .dataInitKernel) = false ∨ succeeds .reallocated = true ∧
    ((∃ p ∈ slabPointers, succeeds (.allocated p) = false) ∨ succeeds .tempPage = true ∧
      ((∀ p ∈ pagePointers, succeeds (.allocated p) = true) ∨
        ∃ p ∈ lastPointers, succeeds (.allocated p) = false))

section Running

variable {succeeds : Block → Bool} {s : Allocations} {p : Static} {b : Block}

/-- The pointer that a statement stores a block of its own to. -/
def Statement.target : Statement → Option Static
  | .require p => some p
  | .resize => none
  | .assign p => some p
  | .usePages => none

def Statement.passes (succeeds : Block → Bool) : Statement → Bool
  | .require p => succeeds (.allocated p)
  | .resize => succeeds .reallocated
  | .assign _ => true
  | .usePages => true

theorem run_fst (succeeds : Block → Bool) (s : Allocations) (st : Statement) :
    (st.run succeeds s).1 = st.passes succeeds := by
  cases st with
  | require p =>
    cases h : succeeds (.allocated p) <;> simp [Statement.run, Statement.passes, alloc, h]
  | resize => cases h : succeeds .reallocated <;> simp [Statement.run, Statement.passes, alloc, h]
  | assign p | usePages => rfl

theorem runAll_fst (succeeds : Block → Bool) (l : List Statement) (s : Allocations) :
    (runAll succeeds l s).1 = l.all (Statement.passes succeeds) := by
  induction l generalizing s with
  | nil => rfl
  | cons st l ih =>
    rw [runAll, List.all_cons, run_fst]
    cases h : st.passes succeeds with
    | true => simpa using ih _
    | false => simpa [h] using run_fst succeeds s st

theorem runAll_append (succeeds : Block → Bool) (l l' : List Statement) (s : Allocations) :
    runAll succeeds (l ++ l') s =
      if (runAll succeeds l s).1 then runAll succeeds l' (runAll succeeds l s).2
      else runAll succeeds l s := by
  induction l generalizing s with
  | nil => rfl
  | cons st l ih =>
    rw [List.cons_append, runAll, runAll]
    cases h : (st.run succeeds s).1 with
    | true => simpa using ih _
    | false => simp [h]

theorem run_history (succeeds : Block → Bool) (s : Allocations) (st : Statement) :
    ∃ more, (st.run succeeds s).2.history = s.history ++ more := by
  cases st with
  | require p => exact ⟨_, rfl⟩
  | resize =>
    unfold Statement.run
    cases alloc succeeds .reallocated with
    | none => exact ⟨[], (List.append_nil _).symm⟩
    | some b => exact ⟨_, rfl⟩
  | assign p | usePages => exact ⟨_, rfl⟩

theorem runAll_history (succeeds : Block → Bool) (l : List Statement) (s : Allocations) :
    ∃ more, (runAll succeeds l s).2.history = s.history ++ more := by
  induction l generalizing s with
  | nil => exact ⟨[], (List.append_nil _).symm⟩
  | cons st l ih =>
    obtain ⟨first, hfirst⟩ := run_history succeeds s st
    rw [runAll]
    split_ifs
    · obtain ⟨more, hmore⟩ := ih (st.run succeeds s).2
      exact ⟨first ++ more, by rw [hmore, hfirst, List.append_assoc]⟩
    · exact ⟨first, hfirst⟩

end Running

section Owning

variable {succeeds : Block → Bool} {s : Allocations} {p : Static} {b : Block}

/-- The pointer that a block is meant for. -/
def Block.owner : Block → Option Static
  | .allocated p => some p
  | .reallocated => some .dataInitKernel
  | .tempPage => none

/-- The history is lawful, and the blocks held are those that the pointers point to. -/
structure Allocations.Owned (s : Allocations) : Prop where
  lawful : Lawful s.history
  owner : ∀ p b, s.pointers p = some b → b.owner = some p
  held_iff : ∀ x, held x s.history = true ↔ ∃ p b, x = some b ∧ s.pointers p = some b

theorem owned_loaded : loaded.Owned where
  lawful := trivial
  owner := nofun
  held_iff x := by simp [loaded]

theorem Allocations.store_none (hp : s.pointers p = none) : s.store p none = s := by
  rw [Allocations.store, ← hp, Function.update_eq_self]

theorem Allocations.Owned.free (h : s.Owned) (hb : ∀ p, s.pointers p ≠ some b) :
    held (some b) s.history = false := by
  by_contra hheld
  rw [Bool.not_eq_false, h.held_iff] at hheld
  obtain ⟨p, b', hb', hp⟩ := hheld
  obtain rfl := Option.some.inj hb'
  exact hb p hp

theorem Allocations.Owned.eq_of_owner (h : s.Owned) {p' : Static} (hb : b.owner = some p)
    (hp' : s.pointers p' = some b) : p' = p :=
  Option.some.inj ((h.owner p' b hp').symm.trans hb)

theorem Allocations.Owned.store (h : s.Owned) {c : Option Block}
    {events : List (ResourceEvent (Option Block))} (howner : ∀ b, c = some b → b.owner = some p)
    (hlawful : Lawful (s.history ++ events))
    (hheld : ∀ x, held x (s.history ++ events) = true ↔
      x = c ∧ x ≠ none ∨ held x s.history = true ∧ x ≠ s.pointers p) :
    ((s.log events).store p c).Owned := by
  refine ⟨hlawful, fun p' b' hp' => ?_, fun x => ?_⟩
  · by_cases hsame : p' = p
    · subst hsame
      rw [Allocations.store_pointers_self] at hp'
      exact howner b' hp'
    · rw [Allocations.store_pointers_of_ne hsame] at hp'
      exact h.owner p' b' hp'
  · rw [Allocations.store_history, Allocations.log_history, hheld]
    constructor
    · rintro (⟨rfl, hx⟩ | ⟨hx, hne⟩)
      · obtain ⟨b, rfl⟩ := Option.ne_none_iff_exists'.mp hx
        exact ⟨p, b, rfl, Allocations.store_pointers_self ..⟩
      · obtain ⟨p', b, rfl, hp'⟩ := (h.held_iff x).mp hx
        have hother : p' ≠ p := by
          rintro rfl
          exact hne hp'.symm
        exact ⟨p', b, rfl, (Allocations.store_pointers_of_ne hother).trans hp'⟩
    · rintro ⟨p', b, rfl, hp'⟩
      by_cases hsame : p' = p
      · subst hsame
        rw [Allocations.store_pointers_self] at hp'
        exact Or.inl ⟨hp'.symm, Option.some_ne_none b⟩
      · rw [Allocations.store_pointers_of_ne hsame, Allocations.log_pointers] at hp'
        refine Or.inr ⟨(h.held_iff _).mpr ⟨p', b, rfl, hp'⟩, fun hp => ?_⟩
        exact hsame (h.eq_of_owner (h.owner p b hp.symm) hp')

theorem Allocations.Owned.held_none (h : s.Owned) : held none s.history = false := by
  by_contra hheld
  rw [Bool.not_eq_false, h.held_iff] at hheld
  obtain ⟨p, b, hb, -⟩ := hheld
  cases hb

theorem Allocations.Owned.acquire (h : s.Owned) (hp : s.pointers p = none)
    (hb : b.owner = some p) : ((s.log [.acquire (some b)]).store p (some b)).Owned := by
  have hfree : held (some b) s.history = false := by
    refine h.free fun p' hp' => ?_
    rw [h.eq_of_owner hb hp', hp] at hp'
    cases hp'
  refine h.store (fun b' hb' => ?_) (h.lawful.append ⟨hfree, trivial⟩) fun x => ?_
  · rw [← Option.some.inj hb', hb]
  · rw [held_concat, holds_acquire, hp]
    by_cases hx : some b = x
    · subst hx
      simp
    · have hnone : held x s.history = true → x ≠ none := by
        rintro hx rfl
        rw [h.held_none] at hx
        cases hx
      simpa [hx, Ne.symm hx] using hnone

theorem Allocations.Owned.release (h : s.Owned) (hp : s.pointers p = some b) :
    ((s.log [.release (some b)]).store p none).Owned := by
  have hheld : held (some b) s.history = true := (h.held_iff _).mpr ⟨p, b, rfl, hp⟩
  refine h.store (by simp) (h.lawful.append ⟨hheld, trivial⟩) fun x => ?_
  rw [held_concat, holds_release, hp]
  by_cases hx : some b = x
  · subst hx
    simp
  · simp [hx, Ne.symm hx]

theorem Allocations.Owned.borrow (h : s.Owned) (hb : b.owner = none) :
    (s.log [.acquire (some b), .use (some b), .use (some b), .release (some b)]).Owned := by
  have hfree : held (some b) s.history = false := by
    refine h.free fun p hp => ?_
    rw [h.owner p b hp] at hb
    cases hb
  have hsame : ∀ x, held x (s.history ++
      [ResourceEvent.acquire (some b), .use (some b), .use (some b), .release (some b)]) =
        held x s.history := by
    intro x
    by_cases hx : some b = x
    · subst hx
      simp [held_append, holds_release, hfree]
    · simp [held_append, holds_acquire, holds_release, hx]
  refine ⟨h.lawful.append ?_, h.owner, fun x => ?_⟩
  · simp [judgedFrom_cons, judgedFrom_nil, LawfulAfter, hfree, held_append, holds_acquire]
  · rw [Allocations.log_history, hsame, h.held_iff]
    rfl

theorem Allocations.Owned.run (h : s.Owned) {st : Statement} (hst : st ≠ .resize)
    (hfresh : ∀ p, st.target = some p → s.pointers p = none)
    (htemp : st = .usePages → succeeds .tempPage = true) : (st.run succeeds s).2.Owned := by
  cases st with
  | require p | assign p =>
    have hp := hfresh p rfl
    cases hs : succeeds (.allocated p) with
    | true => simpa [Statement.run, alloc, hs, acquired] using h.acquire hp rfl
    | false =>
      have hsame : (s.log []).store p none = s := by
        rw [Allocations.store_none (by simpa using hp), Allocations.log, List.append_nil]
      simpa [Statement.run, alloc, hs, acquired, hsame] using h
  | resize => exact absurd rfl hst
  | usePages =>
    simpa [Statement.run, alloc, htemp rfl, acquired, freed] using h.borrow (b := .tempPage) rfl

theorem run_pointers_of_ne {st : Statement} (hst : st ≠ .resize) (hp : st.target ≠ some p) :
    (st.run succeeds s).2.pointers p = s.pointers p := by
  cases st with
  | require p' | assign p' =>
    exact Allocations.store_pointers_of_ne fun he => hp (congrArg some he.symm)
  | resize => exact absurd rfl hst
  | usePages => rfl

theorem run_pointers_self {st : Statement} (hp : st.target = some p) :
    (st.run succeeds s).2.pointers p = alloc succeeds (.allocated p) := by
  cases st with
  | require p' | assign p' =>
    obtain rfl := Option.some.inj hp
    exact Allocations.store_pointers_self ..
  | resize | usePages => cases hp

end Owning

section Lists

variable {succeeds : Block → Bool} {st : Statement} {l : List Statement} {s : Allocations}
  {p : Static}

theorem targets_sublist (st : Statement) (l : List Statement) :
    (l.filterMap Statement.target).Sublist ((st :: l).filterMap Statement.target) :=
  (List.sublist_cons_self st l).filterMap _

theorem target_mem (hp : st.target = some p) : p ∈ (st :: l).filterMap Statement.target :=
  List.mem_filterMap.mpr ⟨st, List.mem_cons_self, hp⟩

theorem target_notMem (h : ((st :: l).filterMap Statement.target).Nodup)
    (hp : st.target = some p) : p ∉ l.filterMap Statement.target := by
  rw [List.filterMap_cons_some hp] at h
  exact (List.nodup_cons.mp h).1

theorem runAll_pointers_of_notMem (hl : .resize ∉ l) (hp : p ∉ l.filterMap Statement.target) :
    (runAll succeeds l s).2.pointers p = s.pointers p := by
  induction l generalizing s with
  | nil => rfl
  | cons st l ih =>
    rw [List.mem_cons, not_or] at hl
    have hstep : (st.run succeeds s).2.pointers p = s.pointers p :=
      run_pointers_of_ne (Ne.symm hl.1) fun he => hp (target_mem he)
    rw [runAll]
    split_ifs
    · rw [ih hl.2 (mt (fun hmem => (targets_sublist st l).subset hmem) hp), hstep]
    · exact hstep

/-- Each statement of the list has a pointer of its own, free before. -/
theorem runAll_owned (hl : .resize ∉ l) (hnodup : (l.filterMap Statement.target).Nodup)
    (hfresh : ∀ p ∈ l.filterMap Statement.target, s.pointers p = none)
    (htemp : .usePages ∈ l → succeeds .tempPage = true) (h : s.Owned) :
    (runAll succeeds l s).2.Owned := by
  induction l generalizing s with
  | nil => exact h
  | cons st l ih =>
    rw [List.mem_cons, not_or] at hl
    have hst : st ≠ .resize := Ne.symm hl.1
    have hstep : (st.run succeeds s).2.Owned := by
      refine h.run hst (fun p hp => hfresh p (target_mem hp)) fun he => ?_
      exact htemp (he ▸ List.mem_cons_self)
    rw [runAll]
    split_ifs
    · refine ih hl.2 (hnodup.sublist (targets_sublist st l)) (fun p hp => ?_)
        (fun hmem => htemp (List.mem_cons_of_mem _ hmem)) hstep
      rw [run_pointers_of_ne hst fun he => target_notMem hnodup he hp]
      exact hfresh p ((targets_sublist st l).subset hp)
    · exact hstep

theorem runAll_pointers (hl : .resize ∉ l) (hnodup : (l.filterMap Statement.target).Nodup)
    (hrun : (runAll succeeds l s).1 = true) (hp : p ∈ l.filterMap Statement.target) :
    (runAll succeeds l s).2.pointers p = alloc succeeds (.allocated p) := by
  induction l generalizing s with
  | nil => simp at hp
  | cons st l ih =>
    rw [List.mem_cons, not_or] at hl
    rw [runAll] at hrun ⊢
    split_ifs at hrun ⊢ with hpass
    · by_cases he : st.target = some p
      · rw [runAll_pointers_of_notMem hl.2 (target_notMem hnodup he), run_pointers_self he]
      · refine ih hl.2 (hnodup.sublist (targets_sublist st l)) hrun ?_
        obtain ⟨st', hst', he'⟩ := List.mem_filterMap.mp hp
        rcases List.mem_cons.mp hst' with rfl | hst'
        · exact absurd he' he
        · exact List.mem_filterMap.mpr ⟨st', hst', he'⟩
    · exact absurd hrun hpass

end Lists

section Freeing

variable {s : Allocations}

theorem freed_eq (b : Option Block) : freed b = (b.toList.map some).map .release := by
  cases b <;> rfl

theorem freeMemory_history (s : Allocations) : (freeMemory s).history =
    s.history ++ ((freeOrder.filterMap s.pointers).map some).map .release := by
  simp only [freeMemory, Allocations.log_history, freed_eq, List.filterMap_eq_flatMap_toList,
    List.map_flatMap]

theorem mem_freeOrder (p : Static) : p ∈ freeOrder := by cases p <;> decide

theorem Allocations.Owned.settled (h : s.Owned) : Settled (freeMemory s).history := by
  have hnodup : ((freeOrder.filterMap s.pointers).map some).Nodup := by
    refine List.Nodup.map (fun _ _ => Option.some.inj) ?_
    refine List.Nodup.filterMap (fun p p' b hp hp' => ?_) (by decide)
    exact h.eq_of_owner (h.owner p' b hp') hp
  have hmem : ∀ x, x ∈ (freeOrder.filterMap s.pointers).map some ↔ held x s.history = true := by
    intro x
    rw [h.held_iff, List.mem_map]
    constructor
    · rintro ⟨b, hb, rfl⟩
      obtain ⟨p, -, hp⟩ := List.mem_filterMap.mp hb
      exact ⟨p, b, rfl, hp⟩
    · rintro ⟨p, b, rfl, hp⟩
      exact ⟨b, List.mem_filterMap.mpr ⟨p, mem_freeOrder p, hp⟩, rfl⟩
  rw [freeMemory_history]
  refine ⟨(h.lawful.releases_iff hnodup).mpr fun x hx => (hmem x).mp hx, fun x => ?_⟩
  rw [held_releases]
  cases hx : held x s.history with
  | true => simp [(hmem x).mpr hx]
  | false => rfl

end Freeing

section Init

variable {succeeds : Block → Bool}

def laterStatements : List Statement :=
  firstStatements ++ Statement.usePages :: lastPointers.map .require

/-- The state after `krealloc` has moved the first block. -/
def resized : Allocations :=
  ((((loaded.log [.acquire (some (.allocated .dataInitKernel))]).store .dataInitKernel
    (some (.allocated .dataInitKernel))).log
      [.release (some (.allocated .dataInitKernel)), .acquire (some .reallocated)]).store
        .dataInitKernel (some .reallocated))

theorem resized_pointers_of_ne {p : Static} (h : p ≠ .dataInitKernel) :
    resized.pointers p = none := by
  simp [resized, Allocations.store_pointers_of_ne h, loaded]

theorem resized_fresh {l : List Statement}
    (hl : .dataInitKernel ∉ l.filterMap Statement.target) :
    ∀ p ∈ l.filterMap Statement.target, resized.pointers p = none :=
  fun _ hp => resized_pointers_of_ne fun he => hl (he ▸ hp)

theorem resized_owned : resized.Owned := by
  have hkmalloc := owned_loaded.acquire (p := .dataInitKernel) (b := .allocated .dataInitKernel)
    rfl rfl
  have hfree := hkmalloc.release (p := .dataInitKernel) (b := .allocated .dataInitKernel)
    (Allocations.store_pointers_self ..)
  have hkrealloc := hfree.acquire (p := .dataInitKernel) (b := .reallocated)
    (Allocations.store_pointers_self ..) rfl
  convert hkrealloc using 1
  simp [resized, Allocations.store, Allocations.log]

theorem runAll_statements (hk : succeeds (.allocated .dataInitKernel) = true)
    (hr : succeeds .reallocated = true) :
    runAll succeeds statements loaded = runAll succeeds laterStatements resized := by
  simp [statements, laterStatements, runAll, Statement.run, alloc, hk, hr, acquired, freed, resized]

theorem InitAllOrNothing.lawful (h : InitAllOrNothing succeeds) :
    Lawful (memoryInit succeeds).2.history := by
  rcases h with ⟨-, hlawful, -⟩ | ⟨-, hsettled⟩
  · exact hlawful
  · exact hsettled.1

theorem initAllOrNothing_of_err (hrun : (runAll succeeds statements loaded).1 = false)
    (h : (runAll succeeds statements loaded).2.Owned) : InitAllOrNothing succeeds := by
  have hinit : memoryInit succeeds = (-enomem, freeMemory (runAll succeeds statements loaded).2) :=
    by simp [memoryInit, hrun]
  rw [InitAllOrNothing, hinit]
  exact Or.inr ⟨rfl, h.settled⟩

theorem initAllOrNothing_iff_of_return (hrun : (runAll succeeds statements loaded).1 = true)
    (h : (runAll succeeds statements loaded).2.Owned) : InitAllOrNothing succeeds ↔
      ∀ p, ((runAll succeeds statements loaded).2.pointers p).isSome = true := by
  have hinit : memoryInit succeeds = (0, (runAll succeeds statements loaded).2) := by
    simp [memoryInit, hrun]
  rw [InitAllOrNothing, hinit]
  constructor
  · rintro (⟨-, -, hall⟩ | ⟨hret, -⟩) p
    · obtain ⟨b, hb, -⟩ := hall p
      rw [hb]
      rfl
    · exact absurd hret (by simp [enomem])
  · intro hall
    refine Or.inl ⟨rfl, h.lawful, fun p => ?_⟩
    obtain ⟨b, hb⟩ := Option.isSome_iff_exists.mp (hall p)
    exact ⟨b, hb, (h.held_iff _).mpr ⟨p, b, rfl, hb⟩⟩

theorem initAllOrNothing_of_kmalloc (hk : succeeds (.allocated .dataInitKernel) = false) :
    InitAllOrNothing succeeds := by
  have hrun : runAll succeeds statements loaded = (false, loaded) := by
    have hsame : (loaded.log []).store .dataInitKernel none = loaded :=
      Allocations.store_none rfl
    simp [statements, runAll, Statement.run, alloc, hk, acquired, hsame]
  refine initAllOrNothing_of_err ?_ ?_
  · rw [hrun]
  · rw [hrun]
    exact owned_loaded

/-- After a failed `krealloc` nothing points to the first block. -/
theorem history_of_krealloc (hk : succeeds (.allocated .dataInitKernel) = true)
    (hr : succeeds .reallocated = false) : (memoryInit succeeds).2.history =
      [.acquire (some (.allocated .dataInitKernel))] := by
  have hrun : (runAll succeeds statements loaded).1 = false := by
    simp [statements, runAll, Statement.run, alloc, hk, hr]
  have hpointers : ∀ p, (runAll succeeds statements loaded).2.pointers p = none := by
    intro p
    by_cases hp : p = .dataInitKernel
    · subst hp
      simp [statements, runAll, Statement.run, alloc, hk, hr]
    · simp [statements, runAll, Statement.run, alloc, hk, hr,
        Allocations.store_pointers_of_ne hp, loaded]
  have hnone : freeOrder.filterMap (runAll succeeds statements loaded).2.pointers = [] :=
    List.filterMap_eq_nil_iff.mpr fun p _ => hpointers p
  simp only [memoryInit, hrun, Bool.false_eq_true, if_false, freeMemory_history, hnone]
  simp [statements, runAll, Statement.run, alloc, hk, hr, acquired, loaded]

theorem not_initAllOrNothing_of_krealloc (hk : succeeds (.allocated .dataInitKernel) = true)
    (hr : succeeds .reallocated = false) : ¬InitAllOrNothing succeeds := by
  have hrun : (runAll succeeds statements loaded).1 = false := by
    simp [statements, runAll, Statement.run, alloc, hk, hr]
  have hret : (memoryInit succeeds).1 = -enomem := by simp [memoryInit, hrun]
  rintro (⟨hzero, -⟩ | ⟨-, hsettled⟩)
  · rw [hret] at hzero
    exact absurd hzero (by decide)
  · have hheld := hsettled.2 (some (.allocated .dataInitKernel))
    rw [history_of_krealloc hk hr] at hheld
    exact absurd hheld (by decide)

theorem laterStatements_owned (htemp : succeeds .tempPage = true) :
    (runAll succeeds laterStatements resized).2.Owned :=
  runAll_owned (by decide) (by decide) (resized_fresh (by decide)) (fun _ => htemp) resized_owned

theorem laterStatements_fst : (runAll succeeds laterStatements resized).1 = true ↔
    (∀ p ∈ slabPointers, succeeds (.allocated p) = true) ∧
      ∀ p ∈ lastPointers, succeeds (.allocated p) = true := by
  rw [runAll_fst]
  simp [laterStatements, firstStatements, slabPointers, pagePointers, lastPointers,
    Statement.passes, and_assoc]

theorem firstStatements_owned (succeeds : Block → Bool) :
    (runAll succeeds firstStatements resized).2.Owned :=
  runAll_owned (by decide) (by decide) (resized_fresh (by decide))
    (fun hmem => absurd hmem (by decide)) resized_owned

theorem firstStatements_fst : (runAll succeeds firstStatements resized).1 = true ↔
    ∀ p ∈ slabPointers, succeeds (.allocated p) = true := by
  rw [runAll_fst]
  simp [firstStatements, slabPointers, pagePointers, Statement.passes]

theorem initAllOrNothing_of_slab (hk : succeeds (.allocated .dataInitKernel) = true)
    (hr : succeeds .reallocated = true)
    (hslab : ∃ p ∈ slabPointers, succeeds (.allocated p) = false) :
    InitAllOrNothing succeeds := by
  have hfirst : (runAll succeeds firstStatements resized).1 = false := by
    rw [← Bool.not_eq_true, firstStatements_fst]
    intro hall
    obtain ⟨p, hp, hfail⟩ := hslab
    rw [hall p hp] at hfail
    cases hfail
  have hrun : runAll succeeds statements loaded = runAll succeeds firstStatements resized := by
    rw [runAll_statements hk hr, laterStatements, runAll_append, if_neg (by simp [hfirst])]
  refine initAllOrNothing_of_err ?_ ?_
  · rw [hrun, hfirst]
  · rw [hrun]
    exact firstStatements_owned succeeds

theorem not_lawful_of_tempPage (hk : succeeds (.allocated .dataInitKernel) = true)
    (hr : succeeds .reallocated = true)
    (hslab : ∀ p ∈ slabPointers, succeeds (.allocated p) = true)
    (htemp : succeeds .tempPage = false) : ¬Lawful (memoryInit succeeds).2.history := by
  obtain ⟨before, hbefore⟩ : ∃ s, (runAll succeeds firstStatements resized).2 = s := ⟨_, rfl⟩
  have hused : ∃ more, (runAll succeeds statements loaded).2.history =
      before.history ++ ResourceEvent.use none :: more := by
    rw [runAll_statements hk hr, laterStatements, runAll_append,
      if_pos (firstStatements_fst.mpr hslab), hbefore, runAll]
    obtain ⟨more, hmore⟩ := runAll_history succeeds (lastPointers.map .require)
      (Statement.run succeeds before .usePages).2
    refine ⟨.use none :: more, ?_⟩
    simpa [Statement.run, alloc, htemp, acquired, freed] using hmore
  have hinit : ∃ more, (memoryInit succeeds).2.history =
      before.history ++ ResourceEvent.use none :: more := by
    obtain ⟨more, hmore⟩ := hused
    cases hrun : (runAll succeeds statements loaded).1 with
    | true => exact ⟨more, by simp [memoryInit, hrun, hmore]⟩
    | false => exact ⟨_, by simp [memoryInit, hrun, freeMemory, hmore]; rfl⟩
  have hnull : held none before.history = false := by
    rw [← hbefore]
    exact (firstStatements_owned succeeds).held_none
  obtain ⟨more, hmore⟩ := hinit
  rw [hmore]
  exact not_lawful_of_use hnull

/-- The pages are there: at `err` everything is freed, and otherwise all depends on the page
allocations, which nobody checks. -/
theorem initAllOrNothing_iff_of_tempPage (hk : succeeds (.allocated .dataInitKernel) = true)
    (hr : succeeds .reallocated = true)
    (hslab : ∀ p ∈ slabPointers, succeeds (.allocated p) = true)
    (htemp : succeeds .tempPage = true) : InitAllOrNothing succeeds ↔
      (∀ p ∈ pagePointers, succeeds (.allocated p) = true) ∨
        ∃ p ∈ lastPointers, succeeds (.allocated p) = false := by
  have howned := laterStatements_owned htemp
  cases hrun : (runAll succeeds laterStatements resized).1 with
  | false =>
    have hfail : ∃ p ∈ lastPointers, succeeds (.allocated p) = false := by
      by_contra hnone
      push Not at hnone
      rw [← Bool.not_eq_true, laterStatements_fst] at hrun
      exact hrun ⟨hslab, fun p hp => by simpa using hnone p hp⟩
    rw [← runAll_statements hk hr] at hrun howned
    exact iff_of_true (initAllOrNothing_of_err hrun howned) (Or.inr hfail)
  | true =>
    have hlast := (laterStatements_fst.mp hrun).2
    have hnofail : ¬∃ p ∈ lastPointers, succeeds (.allocated p) = false := by
      rintro ⟨p, hp, hfail⟩
      rw [hlast p hp] at hfail
      cases hfail
    rw [or_iff_left hnofail]
    have hreturn : (runAll succeeds statements loaded).1 = true := by
      rw [runAll_statements hk hr, hrun]
    rw [← runAll_statements hk hr] at howned
    rw [initAllOrNothing_iff_of_return hreturn howned, runAll_statements hk hr]
    constructor
    · intro hall p hp
      have hp' : p ∈ laterStatements.filterMap Statement.target := by
        revert hp p
        decide
      have hsome := hall p
      rw [runAll_pointers (by decide) (by decide) hrun hp', isSome_alloc] at hsome
      exact hsome
    · intro hpages p
      by_cases hp : p ∈ laterStatements.filterMap Statement.target
      · rw [runAll_pointers (by decide) (by decide) hrun hp, isSome_alloc]
        have hp' : p ∈ slabPointers ∨ p ∈ pagePointers ∨ p ∈ lastPointers := by
          revert hp
          cases p <;> decide
        rcases hp' with hp' | hp' | hp'
        · exact hslab p hp'
        · exact hpages p hp'
        · exact hlast p hp'
      · obtain rfl : p = .dataInitKernel := by
          revert hp
          cases p <;> decide
        rw [runAll_pointers_of_notMem (by decide) hp]
        simp [resized]

theorem memory_init_all_or_nothing_iff (succeeds : Block → Bool) :
    InitAllOrNothing succeeds ↔ CleanPattern succeeds := by
  cases hk : succeeds (.allocated .dataInitKernel) with
  | false => exact iff_of_true (initAllOrNothing_of_kmalloc hk) (Or.inl hk)
  | true =>
    cases hr : succeeds .reallocated with
    | false =>
      refine iff_of_false (not_initAllOrNothing_of_krealloc hk hr) ?_
      simp [CleanPattern, hk, hr]
    | true =>
      by_cases hslab : ∃ p ∈ slabPointers, succeeds (.allocated p) = false
      · exact iff_of_true (initAllOrNothing_of_slab hk hr hslab) (Or.inr ⟨hr, Or.inl hslab⟩)
      · have hall : ∀ p ∈ slabPointers, succeeds (.allocated p) = true := by
          simpa using hslab
        rw [CleanPattern, hk, hr, or_iff_right hslab]
        cases htemp : succeeds .tempPage with
        | false =>
          exact iff_of_false (fun h => not_lawful_of_tempPage hk hr hall htemp h.lawful) (by simp)
        | true =>
          rw [initAllOrNothing_iff_of_tempPage hk hr hall htemp]
          simp

/-- When only `get_zeroed_page` fails, `memory_init` returns 0 without the page. -/
theorem zeroed_page_missing :
    ¬InitAllOrNothing fun b => b ≠ .allocated .dataInitPageZeroedKernel := by
  rw [initAllOrNothing_iff_of_tempPage rfl rfl (by decide) rfl]
  decide

end Init

section Lifetime

variable {succeeds : Block → Bool}

/-- `memory_init` comes to `temp_page`. -/
def ReachesPages (succeeds : Block → Bool) : Prop :=
  succeeds (.allocated .dataInitKernel) = true ∧ succeeds .reallocated = true ∧
    ∀ p ∈ slabPointers, succeeds (.allocated p) = true

/-- `memory_init` comes to its end. -/
def Returns (succeeds : Block → Bool) : Prop :=
  ReachesPages succeeds ∧ ∀ p ∈ lastPointers, succeeds (.allocated p) = true

instance : Decidable (ReachesPages succeeds) := by
  unfold ReachesPages
  infer_instance

instance : Decidable (Returns succeeds) := by
  unfold Returns
  infer_instance

theorem runAll_statements_fst :
    (runAll succeeds statements loaded).1 = true ↔ Returns succeeds := by
  rw [runAll_fst]
  simp [statements, firstStatements, slabPointers, pagePointers, lastPointers, Statement.passes,
    Returns, ReachesPages, and_assoc]

theorem nonneg_memoryInit_iff : 0 ≤ (memoryInit succeeds).1 ↔ Returns succeeds := by
  rw [← runAll_statements_fst]
  cases hrun : (runAll succeeds statements loaded).1 <;> simp [memoryInit, hrun, enomem]

theorem owned_of_reachesPages (h : ReachesPages succeeds) (htemp : succeeds .tempPage = true) :
    (runAll succeeds statements loaded).2.Owned := by
  rw [runAll_statements h.1 h.2.1]
  exact laterStatements_owned htemp

/-- The pages are used unchecked; all else that fails, fails in order. -/
theorem lawful_memoryInit_iff : Lawful (memoryInit succeeds).2.history ↔
    (ReachesPages succeeds → succeeds .tempPage = true) := by
  by_cases hpages : ReachesPages succeeds
  · obtain ⟨hk, hr, hslab⟩ := hpages
    cases htemp : succeeds .tempPage with
    | false =>
      exact iff_of_false (not_lawful_of_tempPage hk hr hslab htemp)
        fun h => absurd (h ⟨hk, hr, hslab⟩) (by simp)
    | true =>
      refine iff_of_true ?_ fun _ => rfl
      have howned := owned_of_reachesPages ⟨hk, hr, hslab⟩ htemp
      unfold memoryInit
      dsimp only
      split_ifs
      · exact howned.lawful
      · exact howned.settled.1
  · refine iff_of_true ?_ fun h => absurd h hpages
    cases hk : succeeds (.allocated .dataInitKernel) with
    | false => exact (initAllOrNothing_of_kmalloc hk).lawful
    | true =>
      cases hr : succeeds .reallocated with
      | false =>
        rw [history_of_krealloc hk hr]
        decide
      | true =>
        refine (initAllOrNothing_of_slab hk hr ?_).lawful
        by_contra hall
        exact hpages ⟨hk, hr, by simpa using hall⟩

theorem settled_of_returns (h : Returns succeeds) (htemp : succeeds .tempPage = true) :
    Settled (freeMemory (memoryInit succeeds).2).history := by
  have howned := owned_of_reachesPages h.1 htemp
  have hinit : memoryInit succeeds = (0, (runAll succeeds statements loaded).2) := by
    simp [memoryInit, runAll_statements_fst.mpr h]
  rw [hinit]
  exact howned.settled

end Lifetime

end LinuxOddsAndEnds.Ubuntu.Memory
