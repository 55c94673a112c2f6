import LinuxOddsAndEnds.Ipc.FileLock

/-!
# What a locked read finds

While a reader holds its lock nobody writes, so it reads the file as the last writer
left it. That file is the last record and whatever a longer record before it, or the
file found at the start, had beyond its end.
-/

namespace LinuxOddsAndEnds.Ipc.FileLock

open Foundation

variable {ι κ : Type*}

def updates (tr : List (Seen ι κ)) : List (ι × BitVec 32) :=
  tr.filterMap fun
    | .updated i fileVal => some (i, fileVal)
    | _ => none

def block (pid : ι → BitVec 32) (u : ι × BitVec 32) : List Byte := stored (pid u.1) u.2

/-- The characters that vary from record to record: signs and digits. -/
def width (pid : ι → BitVec 32) (u : ι × BitVec 32) : ℕ :=
  (decimal (pid u.1).toInt).length + (decimal u.2.toInt).length

/-- A read after an update finds the last record and nothing else. -/
def readsLast (pid : ι → BitVec 32) (pre : List (Seen ι κ)) : Seen ι κ → Prop
  | .readAll _ bytes => ∀ u ∈ (updates pre).getLast?, bytes = block pid u
  | _ => True

instance decidableReadsLast (pid : ι → BitVec 32) (pre : List (Seen ι κ)) :
    ∀ o, Decidable (readsLast pid pre o)
  | .readAll _ bytes =>
    inferInstanceAs (Decidable (∀ u ∈ (updates pre).getLast?, bytes = block pid u))
  | .updated _ _ => isTrue trivial

/-- At a read after an update, no record before the last one was wider, nor was the file
that the first update found longer. -/
def lastWidest (pid : ι → BitVec 32) (file : Option (List Byte)) (pre : List (Seen ι κ)) :
    Seen ι κ → Prop
  | .readAll _ _ => ∀ u ∈ (updates pre).getLast?,
      (file.getD []).length ≤ width pid u + 14 ∧ ∀ v ∈ updates pre, width pid v ≤ width pid u
  | _ => True

/-- A read finds the blocks written so far, one over the other. -/
def readsFile (pid : ι → BitVec 32) (file : Option (List Byte)) (pre : List (Seen ι κ)) :
    Seen ι κ → Prop
  | .readAll _ bytes => bytes = overwriteAll (file.getD []) ((updates pre).map (block pid))
  | _ => True

@[simp] theorem updates_append (tr seen : List (Seen ι κ)) :
    updates (tr ++ seen) = updates tr ++ updates seen := List.filterMap_append ..

theorem length_block (pid : ι → BitVec 32) (u : ι × BitVec 32) :
    (block pid u).length = width pid u + 14 := by
  simp only [block, stored, record, ascii, width, List.length_append, List.length_map,
    List.length_cons, List.length_nil]
  omega

theorem readsLast_iff_of_readsFile {pid : ι → BitVec 32} {file : Option (List Byte)}
    {pre : List (Seen ι κ)} {o : Seen ι κ} (h : readsFile pid file pre o) :
    readsLast pid pre o ↔ lastWidest pid file pre o := by
  cases o with
  | updated i fileVal => exact Iff.rfl
  | readAll k bytes =>
    simp only [readsFile] at h
    simp only [readsLast, lastWidest, h]
    apply forall_congr'
    intro u
    apply imp_congr_right
    intro hlast
    have hblock : ((updates pre).map (block pid)).getLast? = some (block pid u) := by
      rw [List.getLast?_map, Option.mem_def.mp hlast]
      rfl
    rw [overwriteAll_eq_last_iff hblock, length_block, List.forall_mem_map]
    simp only [length_block, Nat.add_le_add_iff_right]

@[simp] def WriterPc.locked : WriterPc → Bool
  | .write | .unlock => true
  | _ => false

structure Guarded (pid : ι → BitVec 32) (file : Option (List Byte)) (s : Processes ι κ)
    (tr : List (Seen ι κ)) : Prop where
  owner : ∀ i, (s.writer i).locked = true → s.writeLock = some i
  exclusive : s.writeLock ≠ none → s.readLocks = []
  reading : ∀ k bytes, s.reader k = .read bytes → k ∈ s.readLocks ∧ bytes <+: s.file.getD []
  content : s.file.getD [] = overwriteAll (file.getD []) ((updates tr).map (block pid))
  judged : Judged (readsFile pid file) tr

variable {pid : ι → BitVec 32} {file : Option (List Byte)} {s s' : Processes ι κ}
  {tr seen : List (Seen ι κ)}

theorem concat_prefix_of_getElem? {l f : List Byte} {c : Byte} (h : l <+: f)
    (hc : f[l.length]? = some c) : l ++ [c] <+: f := by
  obtain ⟨rest, rfl⟩ := h
  cases rest with
  | nil => simp at hc
  | cons b rest =>
    obtain rfl : b = c := by simpa using hc
    exact ⟨rest, by simp⟩

theorem guarded_started (pid : ι → BitVec 32) (file : Option (List Byte)) :
    Guarded pid file (started file : Processes ι κ) [] :=
  ⟨nofun, fun _ => rfl, nofun, rfl, trivial⟩

section Writers

variable [DecidableEq ι]

theorem Guarded.gotoWriter (h : Guarded pid file s tr) (i : ι) {pc : WriterPc}
    (hpc : pc.locked = true → s.writeLock = some i) : Guarded pid file (s.gotoWriter i pc) tr := by
  refine ⟨?_, h.exclusive, h.reading, h.content, h.judged⟩
  intro j hj
  by_cases hij : j = i
  · subst hij
    exact hpc (by simpa [Processes.gotoWriter] using hj)
  · exact h.owner j (by simpa [Processes.gotoWriter, hij] using hj)

theorem Guarded.writerKey {i : ι} {ch : ℤ} (h : Guarded pid file s tr)
    (hs : writerKey i ch s = some s') : Guarded pid file s' tr := by
  cases hpc : s.writer i <;> simp only [FileLock.writerKey, hpc, reduceCtorEq] at hs
  case getKey =>
    split_ifs at hs <;> obtain rfl := by simpa using hs
    · exact h.gotoWriter i nofun
    · exact h.gotoWriter i nofun
    · exact h
  case getBracket =>
    obtain rfl := by simpa using hs
    apply h.gotoWriter i
    split_ifs <;> simp
  case getArrow =>
    have hval : ∀ v, Guarded pid file (s.setVal i v) tr := fun v =>
      ⟨h.owner, h.exclusive, h.reading, h.content, h.judged⟩
    split_ifs at hs <;> obtain rfl := by simpa using hs
    · exact (hval _).gotoWriter i nofun
    · exact (hval _).gotoWriter i nofun
    · exact h.gotoWriter i nofun

theorem Guarded.writerStep {i : ι} (h : Guarded pid file s tr)
    (hs : writerStep pid i s = some (s', seen)) : Guarded pid file s' (tr ++ seen) := by
  cases hpc : s.writer i <;> simp only [FileLock.writerStep, hpc, reduceCtorEq] at hs
  case openFile =>
    obtain ⟨rfl, rfl⟩ := by simpa using hs
    have hfile : Guarded pid file { s with file := some (s.file.getD []) } tr :=
      ⟨h.owner, h.exclusive, h.reading, h.content, h.judged⟩
    rw [List.append_nil]
    exact hfile.gotoWriter i nofun
  case setLock =>
    split_ifs at hs with hfree
    obtain ⟨rfl, rfl⟩ := by simpa using hs
    have hlock : Guarded pid file { s with writeLock := some i } tr := by
      refine ⟨?_, fun _ => hfree.2, h.reading, h.content, h.judged⟩
      intro j hj
      have hother := h.owner j hj
      rw [hfree.1] at hother
      cases hother
    simpa using hlock.gotoWriter i fun _ => rfl
  case write =>
    obtain ⟨rfl, rfl⟩ := by simpa using hs
    have howner := h.owner i (by simp [hpc])
    have hnone := h.exclusive (by simp [howner])
    have hwrite : Guarded pid file
        { s with file := some (overwrite (s.file.getD []) (stored (pid i) (s.fileVal i))) }
        (tr ++ [Seen.updated i (s.fileVal i)]) := by
      refine ⟨h.owner, h.exclusive, ?_, ?_, h.judged.append ⟨trivial, trivial⟩⟩
      · intro k bytes hk
        have hmem := (h.reading k bytes hk).1
        rw [hnone] at hmem
        cases hmem
      · rw [updates_append, List.map_append, Option.getD_some, h.content]
        simp [updates, block]
    exact hwrite.gotoWriter i fun _ => howner
  case unlock =>
    obtain ⟨rfl, rfl⟩ := by simpa using hs
    have howner := h.owner i (by simp [hpc])
    rw [List.append_nil]
    refine ⟨?_, fun hne => absurd rfl hne, h.reading, h.content, h.judged⟩
    intro j hj
    by_cases hij : j = i
    · subst hij
      simp [Processes.gotoWriter] at hj
    · have hother := h.owner j (by simpa [Processes.gotoWriter, hij] using hj)
      rw [howner, Option.some.injEq] at hother
      exact absurd hother.symm hij
  case close =>
    obtain ⟨rfl, rfl⟩ := by simpa using hs
    rw [List.append_nil]
    exact h.gotoWriter i nofun

end Writers

section Readers

variable [DecidableEq κ]

theorem Guarded.gotoReader (h : Guarded pid file s tr) (k : κ) {pc : ReaderPc}
    (hpc : ∀ bytes, pc = .read bytes → k ∈ s.readLocks ∧ bytes <+: s.file.getD []) :
    Guarded pid file (s.gotoReader k pc) tr := by
  refine ⟨h.owner, h.exclusive, ?_, h.content, h.judged⟩
  intro j bytes hj
  by_cases hjk : j = k
  · subst hjk
    exact hpc bytes (by simpa [Processes.gotoReader] using hj)
  · exact h.reading j bytes (by simpa [Processes.gotoReader, hjk] using hj)

theorem Guarded.readerKey {k : κ} {ch : ℤ} (h : Guarded pid file s tr)
    (hs : readerKey k ch s = some s') : Guarded pid file s' tr := by
  cases hpc : s.reader k <;> simp only [FileLock.readerKey, hpc, reduceCtorEq] at hs
  case getKey =>
    split_ifs at hs <;> obtain rfl := by simpa using hs
    · exact h.gotoReader k nofun
    · exact h.gotoReader k nofun
    · exact h
  all_goals
    obtain rfl := by simpa using hs
    apply h.gotoReader k
    split_ifs <;> simp

theorem Guarded.readerStep {k : κ} (h : Guarded pid file s tr)
    (hs : readerStep k s = some (s', seen)) : Guarded pid file s' (tr ++ seen) := by
  cases hpc : s.reader k <;> simp only [FileLock.readerStep, hpc, reduceCtorEq] at hs
  case openFile =>
    obtain ⟨rfl, rfl⟩ := by simpa using hs
    rw [List.append_nil]
    apply h.gotoReader k
    split_ifs <;> simp
  case setLock =>
    split_ifs at hs with hfree <;> obtain ⟨rfl, rfl⟩ := by simpa using hs
    · have hlock : Guarded pid file { s with readLocks := k :: s.readLocks } tr := by
        refine ⟨h.owner, fun hne => absurd hfree hne, ?_, h.content, h.judged⟩
        intro j bytes hj
        exact (h.reading j bytes hj).imp_left (List.mem_cons_of_mem k)
      rw [List.append_nil]
      apply hlock.gotoReader k
      rintro bytes ⟨⟩
      exact ⟨List.mem_cons_self, List.nil_prefix⟩
    · rw [List.append_nil]
      exact h.gotoReader k nofun
  case read bytes =>
    obtain ⟨hmem, hpre⟩ := h.reading k bytes hpc
    split at hs
    · next c hc =>
      obtain ⟨rfl, rfl⟩ := by simpa using hs
      rw [List.append_nil]
      apply h.gotoReader k
      rintro _ ⟨⟩
      exact ⟨hmem, concat_prefix_of_getElem? hpre hc⟩
    · next hend =>
      obtain ⟨rfl, rfl⟩ := by simpa using hs
      have hall : bytes = s.file.getD [] :=
        hpre.eq_of_length_le (List.getElem?_eq_none_iff.mp hend)
      have hread : Guarded pid file s (tr ++ [Seen.readAll k bytes]) := by
        refine ⟨h.owner, h.exclusive, h.reading, ?_, h.judged.append ⟨?_, trivial⟩⟩
        · simpa [updates] using h.content
        · exact hall.trans h.content
      exact hread.gotoReader k nofun
  case close =>
    obtain ⟨rfl, rfl⟩ := by simpa using hs
    rw [List.append_nil]
    refine ⟨h.owner, ?_, ?_, h.content, h.judged⟩
    · intro hne
      have hnone := h.exclusive hne
      simp [Processes.gotoReader, hnone]
    · intro j bytes hj
      by_cases hjk : j = k
      · subst hjk
        simp [Processes.gotoReader] at hj
      · obtain ⟨hmem, hpre⟩ := h.reading j bytes (by simpa [Processes.gotoReader, hjk] using hj)
        exact ⟨List.mem_filter.mpr ⟨hmem, by simpa using hjk⟩, hpre⟩

end Readers

variable [DecidableEq ι] [DecidableEq κ]

theorem Guarded.step {a : Action ι κ} (h : Guarded pid file s tr)
    (hs : fileLock pid s a = some (s', seen)) : Guarded pid file s' (tr ++ seen) := by
  cases a with
  | writerKey i ch =>
    obtain ⟨t, ht, he⟩ := Option.map_eq_some_iff.mp hs
    obtain ⟨rfl, rfl⟩ := by simpa using he
    simpa using h.writerKey ht
  | writer i => exact h.writerStep hs
  | readerKey k ch =>
    obtain ⟨t, ht, he⟩ := Option.map_eq_some_iff.mp hs
    obtain ⟨rfl, rfl⟩ := by simpa using he
    simpa using h.readerKey ht
  | reader k => exact h.readerStep hs

theorem readsFile_of_reaches (h : Reaches (fileLock pid) (started file) s tr) :
    Judged (readsFile pid file) tr := by
  have hinv : Guarded pid file s tr :=
    h.invariant (guarded_started pid file) fun _ _ _ _ _ hi hs => hi.step hs
  exact hinv.judged

/-- In every run the reads find exactly the last record if and only if, at each read, the
last record is at least as wide as those before it and the file found at the start. -/
theorem reads_last_iff (h : Reaches (fileLock pid) (started file) s tr) :
    Judged (readsLast pid) tr ↔ Judged (lastWidest pid file) tr :=
  (readsFile_of_reaches h).congr fun _ _ => readsLast_iff_of_readsFile

/-- The up key and the whole update that follows it. -/
def update (i : ι) : List (Action ι κ) :=
  [Action.writerKey i 27, .writerKey i 91, .writerKey i 65] ++ List.replicate 5 (Action.writer i)

/-- The up key and a read of a file of `n` bytes. -/
def readFile (k : κ) (n : ℕ) : List (Action ι κ) :=
  [Action.readerKey k 27, .readerKey k 91, .readerKey k 65] ++
    List.replicate (n + 4) (Action.reader k)

/-- A writer with a short and one with a long process id. -/
def shortAndLong (b : Bool) : BitVec 32 := if b then 12345 else 7

theorem reads_last_iff_growing : ∃ s tr,
    exec (fileLock shortAndLong) (started none : Processes Bool Unit)
      (update false ++ readFile () 16 ++ update true ++ readFile () 20) = some (s, tr) ∧
    updates tr = [(false, 1), (true, 1)] ∧ Judged (readsLast shortAndLong) tr ∧
      (Judged (readsLast shortAndLong) tr ↔ Judged (lastWidest shortAndLong none) tr) := by
  obtain ⟨s, tr, hrun, hupdates, hjudged⟩ : ∃ s tr,
      exec (fileLock shortAndLong) (started none : Processes Bool Unit)
        (update false ++ readFile () 16 ++ update true ++ readFile () 20) = some (s, tr) ∧
      updates tr = [(false, 1), (true, 1)] ∧ Judged (readsLast shortAndLong) tr := by
    decide +kernel
  exact ⟨s, tr, hrun, hupdates, hjudged, reads_last_iff (Reaches.of_exec hrun)⟩

/-- A short record over a long one leaves the end of the long one behind. -/
theorem long_record_left_over : ∃ s tr,
    exec (fileLock shortAndLong) (started none : Processes Bool Unit)
      (update true ++ update false ++ readFile () 20) = some (s, tr) ∧
    ¬Judged (readsLast shortAndLong) tr ∧
      .readAll () (stored 7 1 ++ (stored 12345 1).drop 16) ∈ tr := by
  decide +kernel

end LinuxOddsAndEnds.Ipc.FileLock
