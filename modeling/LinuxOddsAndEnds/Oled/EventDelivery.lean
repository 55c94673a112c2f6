import LinuxOddsAndEnds.Oled.PipelineInvariant

/-!
# What becomes of every event

Read off the ledger: which records reads deliver and in which order, how captured
events are conserved, and that none is left behind in the capture ring. The capture
ring and the bulk ring lose events when they are full, and the gaps in the delivered
event numbers are exactly these losses.
-/

namespace LinuxOddsAndEnds.Oled

open Foundation CircBufferPow2

section Order

variable {s : State} {tr : List Seen} {l : Ledger}

theorem captured_sublist_raised (tr : List Seen) : (captured tr).Sublist (raised tr) := by
  induction tr with
  | nil => exact .slnil
  | cons o tr ih =>
    cases o with
    | captured h e => exact ih.cons_cons (h, e)
    | rejected h e stored => exact ih.cons (h, e)
    | _ => exact ih

theorem raised_perm (tr : List Seen) : (raised tr).Perm (captured tr ++ rejected tr) := by
  induction tr with
  | nil => exact .nil
  | cons o tr ih =>
    cases o with
    | captured h e => exact ih.cons (h, e)
    | rejected h e stored => exact (ih.cons (h, e)).trans List.perm_middle.symm
    | _ => exact ih

def Ledger.dropped (l : Ledger) : List Tagged := (l.settled.filter (!·.2)).map Prod.fst

theorem Accounts.settled_perm (h : Accounts tr l) :
    (l.settled.map Prod.fst).Perm (l.delivered ++ l.stored ++ l.dropped) := by
  rw [← h.settled_eq, Ledger.dropped, ← List.map_append]
  exact (List.filter_append_perm (fun x : Tagged × Bool => x.2) l.settled).symm.map _

theorem Accounts.delivered_sublist (h : Accounts tr l) :
    (l.delivered ++ l.stored).Sublist (l.settled.map Prod.fst) := by
  rw [← h.settled_eq]
  exact List.filter_sublist.map _

theorem Accounts.settled_sublist (h : Accounts tr l) :
    (l.settled.map Prod.fst).Sublist (captured tr) := by
  rw [h.captured_eq]
  exact List.sublist_append_left _ _

theorem captured_increasing (hnum : Numbered ((raised tr).map key)) :
    (captured tr).Pairwise fun p q => p.1 = q.1 → p.2.event.toNat < q.2.event.toNat :=
  (List.pairwise_map.mp hnum.pairwise).sublist (captured_sublist_raised tr)

/-- Raised events are delivered, lost, or still on their way behind the delivered ones. -/
theorem Accounts.split (h : Accounts tr l) (hnum : Numbered ((raised tr).map key)) :
    Split ((raised tr).map key) (l.delivered.map key) ((rejected tr ++ l.dropped).map key)
      ((l.stored ++ (l.inHand ++ l.waiting)).map key) := by
  have horder := captured_increasing hnum
  constructor
  · rw [← List.map_append, ← List.map_append]
    refine List.Perm.map key (List.perm_iff_count.mpr fun p => ?_)
    have hr := List.perm_iff_count.mp (raised_perm tr) p
    have hs := List.perm_iff_count.mp h.settled_perm p
    simp only [h.captured_eq, List.count_append] at hr hs ⊢
    omega
  · intro x hx y hy
    obtain ⟨p, hp, rfl⟩ := List.mem_map.mp hx
    obtain ⟨q, hq, rfl⟩ := List.mem_map.mp hy
    rcases List.mem_append.mp hq with hq | hq
    · have hsub := h.delivered_sublist.trans h.settled_sublist
      exact (List.pairwise_append.mp (horder.sublist hsub)).2.2 p hp q hq
    · have hp' := h.delivered_sublist.subset (List.mem_append_left _ hp)
      rw [h.captured_eq] at horder
      exact (List.pairwise_append.mp horder).2.2 p hp' q hq

end Order

/-- A block of 96 bytes with the event of `p` unchanged and the words `event + i`. -/
structure Carries (p : Tagged) (record : List Byte) : Prop where
  size : record.length = sizeofEventBulkData
  event : (EventBulkData.ofBytes record).captureEvent = p.2
  bulkData : ∀ i, (EventBulkData.ofBytes record).bulkData i = p.2.event + BitVec.ofNat 64 i

theorem carries_recordBytes (p : Tagged) : Carries p (recordBytes p) := by
  refine ⟨EventBulkData.length_bytes _, ?_, ?_⟩
  · rw [recordBytes, EventBulkData.ofBytes_bytes, bulkRecord]
  · intro i
    rw [recordBytes, EventBulkData.ofBytes_bytes, bulkRecord]

/-- What a run delivers and what it loses: `delivered` are the events of the records that
reads removed, `lost` the captured events that `do_work` dropped at the full bulk ring. -/
structure Delivers (tr : List Seen) (delivered lost : List Tagged) : Prop where
  subsequence : delivered.Sublist (raised tr)
  nodup : delivered.Nodup
  records : List.Forall₂ Carries delivered (removed tr)
  increasing : delivered.Pairwise fun p q => p.1 = q.1 → p.2.event.toNat < q.2.event.toNat
  lost_captured : lost.Sublist (captured tr)
  lost_dropped : lost.map eventBytes = dropped tr
  full : ∀ o ∈ tr, o.atFullRing
  missing : ∀ p ∈ delivered, ∀ n, 0 < n → n < p.2.event.toNat →
    ((p.1, n) ∉ delivered.map key ↔ (p.1, n) ∈ (rejected tr ++ lost).map key)
  counts : ∀ p ∈ delivered, countUpTo p.1 p.2.event.toNat (delivered.map key) +
    countUpTo p.1 p.2.event.toNat ((rejected tr ++ lost).map key) = p.2.event.toNat

/-- Under any schedule, reads deliver a subsequence of the raised events, each handler's
numbers increase, and the numbers missing below a delivered one are exactly those of
events lost at a full ring. -/
theorem reads_deliver (cfg : GpioConfig) (kmalloc kmalloc' : SizeT → Option Mem) (s₀ s : State)
    (tr : List Seen) (hinit : gpioOledIrqInit kmalloc kmalloc' loaded = (0, s₀))
    (h : Reaches (pipeline cfg) s₀ s tr) (hcount : (raised tr).length < 2 ^ 64) :
    ∃ delivered lost, Delivers tr delivered lost := by
  obtain ⟨l, hi⟩ := inv_of_reaches hinit h
  have ha := hi.accounts
  have hnum := hi.counted.numbered hcount
  have hsplit := ha.split hnum
  have hsub : l.delivered.Sublist (captured tr) :=
    (List.sublist_append_left _ _).trans (ha.delivered_sublist.trans ha.settled_sublist)
  have hinc := (captured_increasing hnum).sublist hsub
  refine ⟨l.delivered, l.dropped, ?_⟩
  exact {
    subsequence := hsub.trans (captured_sublist_raised tr)
    nodup := by
      refine hinc.imp ?_
      rintro p q hpq rfl
      exact Nat.lt_irrefl _ (hpq rfl)
    records := by
      rw [ha.removed_eq, List.forall₂_map_right_iff, List.forall₂_same]
      exact fun p _ => carries_recordBytes p
    increasing := hinc
    lost_captured := (List.filter_sublist.map _).trans ha.settled_sublist
    lost_dropped := ha.dropped_eq.symm
    full := ha.full
    missing := fun p hp n hn hlt => hsplit.missing_iff hnum (List.mem_map_of_mem hp) hn hlt
    counts := fun p hp => hsplit.count_add hnum (List.mem_map_of_mem hp) }

/-- A board with hardware debouncing. -/
def boardConfig : GpioConfig := ⟨true, 100, fun _ => 0⟩

def started : State := (gpioOledIrqInit (fun _ => some null) (fun _ => some null) loaded).2

/-- One press of button 5 and `steps` steps of the worker that it starts. -/
def pressAndWork (steps : ℕ) : List Action :=
  .interrupt .gpioBtn5 default :: .scheduleWork :: .startWork :: List.replicate steps .work

def press (h : Handler) : List Action := [.interrupt h default, .scheduleWork]

/-- The two buttons in turn: seven events fill the capture ring, the eighth finds it full,
and one run of the worker takes all seven. -/
def eightPresses : List Action :=
  (List.replicate 4 (press .gpioBtn5 ++ press .gpioBtn6)).flatten ++
    Action.startWork :: List.replicate 87 .work

/-- A ninth press and a read of the eight records, the last one behind the gap. -/
theorem reads_deliver_after_loss : ∃ s tr delivered lost,
    exec (pipeline boardConfig) started (eightPresses ++ press .gpioBtn6 ++
      Action.startWork :: List.replicate 15 .work ++ [Action.read (fun _ => true) 768#64]) =
        some (s, tr) ∧
    (rejected tr).length = 1 ∧ (removed tr).length = 8 ∧ Delivers tr delivered lost := by
  obtain ⟨s, tr, hrun, hraised, hrejected, hremoved⟩ : ∃ s tr,
      exec (pipeline boardConfig) started (eightPresses ++ press .gpioBtn6 ++
        Action.startWork :: List.replicate 15 .work ++ [Action.read (fun _ => true) 768#64]) =
          some (s, tr) ∧
      (raised tr).length = 9 ∧ (rejected tr).length = 1 ∧ (removed tr).length = 8 := by
    decide +kernel
  obtain ⟨delivered, lost, h⟩ := reads_deliver boardConfig (fun _ => some null) (fun _ => some null)
    started s tr rfl (Reaches.of_exec hrun) (by omega)
  exact ⟨s, tr, delivered, lost, hrun, hrejected, hremoved, h⟩

/-- Every captured event is in one of the two rings, in the worker's hand, removed by a
read, or was dropped by `do_work` when it found the bulk ring full; and events are lost at
full rings only. -/
theorem captured_conserved (cfg : GpioConfig) (kmalloc kmalloc' : SizeT → Option Mem) (s₀ s : State)
    (tr : List Seen) (hinit : gpioOledIrqInit kmalloc kmalloc' loaded = (0, s₀))
    (h : Reaches (pipeline cfg) s₀ s tr) :
    (captured tr).length = (size s.captureEventBuffer).toNat + s.worker.inHand.length +
      (size s.eventBulkDataBuffer).toNat + (removed tr).length + (dropped tr).length ∧
    ∀ o ∈ tr, o.atFullRing := by
  obtain ⟨l, hi⟩ := inv_of_reaches hinit h
  have ha := hi.accounts
  refine ⟨?_, ha.full⟩
  have hs := ha.settled_perm.length_eq
  have hd : (dropped tr).length = l.dropped.length := by
    rw [ha.dropped_eq, List.length_map, Ledger.dropped]
  rw [size_spec hi.capture, size_spec hi.bulk, ← hi.inHand, ha.captured_eq, ha.removed_eq, hd]
  simp only [List.length_append, List.length_map] at hs ⊢
  omega

/-- Sixteen presses with no read: fifteen records are stored and `do_work` drops one event. -/
theorem sixteen_presses : ∃ s tr, exec (pipeline boardConfig) started
    ((List.replicate 15 (pressAndWork 15)).flatten ++ pressAndWork 13) = some (s, tr) ∧
    rejected tr = [] ∧ (captured tr).length = 16 ∧ (dropped tr).length = 1 ∧
    (size s.captureEventBuffer).toNat + s.worker.inHand.length +
      (size s.eventBulkDataBuffer).toNat + (removed tr).length = 15 := by
  decide +kernel

theorem captured_conserved_full : ∃ s tr, exec (pipeline boardConfig) started
      ((List.replicate 15 (pressAndWork 15)).flatten ++ pressAndWork 13) = some (s, tr) ∧
    (captured tr).length = 16 ∧ (dropped tr).length = 1 ∧
    (captured tr).length = (size s.captureEventBuffer).toNat + s.worker.inHand.length +
      (size s.eventBulkDataBuffer).toNat + (removed tr).length + (dropped tr).length ∧
    ∀ o ∈ tr, o.atFullRing := by
  obtain ⟨s, tr, hrun, -, hcaptured, hdropped, -⟩ := sixteen_presses
  exact ⟨s, tr, hrun, hcaptured, hdropped, captured_conserved boardConfig (fun _ => some null)
    (fun _ => some null) started s tr rfl (Reaches.of_exec hrun)⟩

/-- After these sixteen presses one captured event is nowhere. -/
theorem captured_not_conserved : ∃ s tr,
    gpioOledIrqInit (fun _ => some null) (fun _ => some null) loaded = (0, started) ∧
    Reaches (pipeline boardConfig) started s tr ∧ rejected tr = [] ∧
    (captured tr).length = 16 ∧
    (size s.captureEventBuffer).toNat + s.worker.inHand.length +
      (size s.eventBulkDataBuffer).toNat + (removed tr).length = 15 := by
  obtain ⟨s, tr, hrun, hrejected, hcaptured, -, hcounts⟩ := sixteen_presses
  exact ⟨s, tr, rfl, Reaches.of_exec hrun, hrejected, hcaptured, hcounts⟩

/-- No event is stranded: when no handler is about to schedule the work and the work item
is neither pending nor running, nothing waits in the capture ring. -/
theorem capture_empty_when_quiescent (cfg : GpioConfig) (kmalloc kmalloc' : SizeT → Option Mem)
    (s₀ s : State) (tr : List Seen) (hinit : gpioOledIrqInit kmalloc kmalloc' loaded = (0, s₀))
    (h : Reaches (pipeline cfg) s₀ s tr) (hhandlers : s.unscheduled = 0)
    (hpending : s.pending = false) (hworker : s.worker = .idle) :
    empty s.captureEventBuffer = true := by
  obtain ⟨l, hi⟩ := inv_of_reaches hinit h
  rw [empty_spec hi.capture, List.map_eq_nil_iff]
  by_contra hne
  rcases hi.noticed hne with hu | hp | hw
  · omega
  · rw [hpending] at hp
    exact Bool.false_ne_true hp
  · rw [hworker] at hw
    exact Bool.false_ne_true hw

theorem capture_empty_after_presses : ∃ s tr,
    exec (pipeline boardConfig) started eightPresses = some (s, tr) ∧
    (captured tr).length = 7 ∧ empty s.captureEventBuffer = true := by
  obtain ⟨s, tr, hrun, hcaptured, hhandlers, hpending, hworker⟩ : ∃ s tr,
      exec (pipeline boardConfig) started eightPresses = some (s, tr) ∧
      (captured tr).length = 7 ∧ s.unscheduled = 0 ∧ s.pending = false ∧ s.worker = .idle := by
    decide +kernel
  exact ⟨s, tr, hrun, hcaptured, capture_empty_when_quiescent boardConfig (fun _ => some null)
    (fun _ => some null) started s tr rfl (Reaches.of_exec hrun) hhandlers hpending hworker⟩

end LinuxOddsAndEnds.Oled
