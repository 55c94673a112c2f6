import LinuxOddsAndEnds.Foundation.Numbering
import LinuxOddsAndEnds.Oled.GpioOledIrq

/-!
# The invariant of the event pipeline

A ledger says where every captured event is: waiting in the capture ring, in the
worker's hand, dropped, stored in the bulk ring, or delivered to a read. The ledger is
not part of the state; the invariant says that the rings, the worker's locals and the
observations of the run agree with it. Every step has its own lemma.
-/

namespace LinuxOddsAndEnds.Oled

open Foundation CircBufferPow2

/-- An event together with the handler that raised it. -/
abbrev Tagged := Handler × CaptureEvent

def key (p : Tagged) : Handler × ℕ := (p.1, p.2.event.toNat)

def eventBytes (p : Tagged) : List Byte := p.2.bytes

def recordBytes (p : Tagged) : List Byte := (bulkRecord p.2).bytes

/-- The events that the handlers handed to `push`. -/
def raised (tr : List Seen) : List Tagged :=
  tr.filterMap fun | .captured h e | .rejected h e _ => some (h, e) | _ => none

def captured (tr : List Seen) : List Tagged :=
  tr.filterMap fun | .captured h e => some (h, e) | _ => none

def rejected (tr : List Seen) : List Tagged :=
  tr.filterMap fun | .rejected h e _ => some (h, e) | _ => none

def dropped (tr : List Seen) : List (List Byte) :=
  tr.filterMap fun | .dropped event _ => some event | _ => none

def forwarded (tr : List Seen) : List (List Byte) :=
  tr.filterMap fun | .forwarded record => some record | _ => none

def removed (tr : List Seen) : List (List Byte) :=
  tr.flatMap fun | .read _ _ records => records | _ => []

section Projections

variable (tr tr' : List Seen)

@[simp] theorem raised_append : raised (tr ++ tr') = raised tr ++ raised tr' :=
  List.filterMap_append

@[simp] theorem captured_append : captured (tr ++ tr') = captured tr ++ captured tr' :=
  List.filterMap_append

@[simp] theorem dropped_append : dropped (tr ++ tr') = dropped tr ++ dropped tr' :=
  List.filterMap_append

@[simp] theorem forwarded_append : forwarded (tr ++ tr') = forwarded tr ++ forwarded tr' :=
  List.filterMap_append

@[simp] theorem removed_append : removed (tr ++ tr') = removed tr ++ removed tr' :=
  List.flatMap_append

end Projections

/-- Events are lost at a full ring only: 7 captured events or 15 records. -/
def Seen.atFullRing : Seen → Prop
  | .rejected _ _ stored => stored = 7#64
  | .dropped _ stored => stored = 15#64
  | _ => True

/-- Where the captured events are. `settled` lists the events that `do_work` has dealt
with, with `true` for a forwarded and `false` for a dropped one. -/
structure Ledger where
  settled : List (Tagged × Bool)
  inHand : List Tagged
  waiting : List Tagged
  delivered : List Tagged
  stored : List Tagged

/-- The observations of a run agree with the ledger. -/
structure Accounts (tr : List Seen) (l : Ledger) : Prop where
  captured_eq : captured tr = l.settled.map Prod.fst ++ (l.inHand ++ l.waiting)
  settled_eq : (l.settled.filter (·.2)).map Prod.fst = l.delivered ++ l.stored
  forwarded_eq : forwarded tr = (l.delivered ++ l.stored).map recordBytes
  dropped_eq : dropped tr = ((l.settled.filter (!·.2)).map Prod.fst).map eventBytes
  removed_eq : removed tr = l.delivered.map recordBytes
  full : ∀ o ∈ tr, o.atFullRing

structure Counted (statics : Handler → Statics) (tr : List Seen) : Prop where
  counter : ∀ h, (statics h).counter = BitVec.ofNat 64 (countOf h ((raised tr).map key))
  numbered : (raised tr).length < 2 ^ 64 → Numbered ((raised tr).map key)

/-- The event that the worker has released from the capture ring and not yet settled. -/
def WorkerPc.inHand : WorkerPc → List (List Byte)
  | .taking pc => pc.inHand
  | .lock event | .testSpace event | .pushRecord event => [event]
  | .idle | .wake | .unlock | .leaving => []

def WorkerPc.locked : WorkerPc → Bool
  | .testSpace _ | .pushRecord _ | .wake | .unlock => true
  | .idle | .taking _ | .lock _ | .leaving => false

/-- The worker will call `front` again, or has not looked at `head` yet. -/
def WorkerPc.willLook : WorkerPc → Bool
  | .idle | .leaving => false
  | _ => true

/-- What the worker's locals say about the rings. -/
def WorkerOk (capture : CircularBufferPow2) (waiting stored : List Tagged) : WorkerPc → Prop
  | .taking pc => ConsumerOk capture (waiting.map eventBytes) pc
  | .pushRecord _ => stored.length < 15
  | _ => True

structure Inv (s : State) (tr : List Seen) (l : Ledger) : Prop where
  capture : Contents s.captureEventBuffer 3 (l.waiting.map eventBytes)
  captureSize : s.captureEventBuffer.elementSize = 16#64
  bulk : Contents s.eventBulkDataBuffer 4 (l.stored.map recordBytes)
  bulkSize : s.eventBulkDataBuffer.elementSize = 96#64
  worker : WorkerOk s.captureEventBuffer l.waiting l.stored s.worker
  inHand : l.inHand.map eventBytes = s.worker.inHand
  mtx : s.eventBulkDataMtx = s.worker.locked
  accounts : Accounts tr l
  counted : Counted s.statics tr
  noticed : l.waiting ≠ [] → 0 < s.unscheduled ∨ s.pending = true ∨ s.worker.willLook = true

theorem irqHandler_eq_some {h : Handler} {cfg : GpioConfig} {st st' : Statics} {i : Interrupt}
    {e : CaptureEvent} (he : irqHandler h cfg st i = some (st', e)) :
    st'.counter = st.counter + 1#64 ∧ e.event = st.counter + 1#64 := by
  cases h <;> simp only [irqHandler, gpioBtn5IrqHandler, gpioBtn6IrqHandler, gpioBtnIrqHandler,
    gpioRockerIrqHandler] at he <;> split at he <;>
    simp only [Option.some.injEq, Prod.mk.injEq, reduceCtorEq] at he <;> obtain ⟨rfl, rfl⟩ := he <;>
    exact ⟨rfl, rfl⟩

/-- What a read does to the stored records: it removes the oldest ones. -/
def Removes (ring : CircularBufferPow2) (q : List (List Byte)) (out : ReadResult) : Prop :=
  ∃ q', q = out.records ++ q' ∧ Contents out.ring 4 q' ∧ out.ring.elementSize = ring.elementSize

theorem readLoop_removes (copyToUser : ℕ → Bool) : ∀ (n done : ℕ) {ring : CircularBufferPow2}
    {q : List (List Byte)}, Contents ring 4 q → Removes ring q (readLoop copyToUser n done ring)
  | 0, _, _, q, hc => ⟨q, rfl, hc, rfl⟩
  | n + 1, done, ring, q, hc => by
    unfold readLoop
    by_cases hs : space ring ≠ 0#64
    · rw [if_pos hs]
      cases q with
      | nil =>
        rw [front_nil hc]
        exact ⟨[], rfl, hc, rfl⟩
      | cons e q =>
        rw [(front_cons hc).1]
        dsimp only
        by_cases hcopy : copyToUser done = true
        · obtain ⟨q', hq, hc', hsize⟩ := readLoop_removes copyToUser n (done + 1) (pop_spec hc)
          rw [if_pos hcopy, (front_cons hc).2]
          exact ⟨q', congrArg (e :: ·) hq, hc', hsize.trans (pop_elementSize ring)⟩
        · rw [if_neg hcopy]
          exact ⟨e :: q, rfl, hc, rfl⟩
    · rw [if_neg hs]
      exact ⟨q, rfl, hc, rfl⟩

theorem gpioOledIrqRead_removes (copyToUser : ℕ → Bool) (count : SizeT) {ring : CircularBufferPow2}
    {q : List (List Byte)} (hc : Contents ring 4 q) :
    Removes ring q (gpioOledIrqRead copyToUser count ring) := by
  unfold gpioOledIrqRead
  by_cases hcount : count.toNat % sizeofEventBulkData = 0
  · rw [if_pos hcount]
    exact readLoop_removes copyToUser _ _ hc
  · rw [if_neg hcount]
    exact ⟨q, rfl, hc, rfl⟩

section Steps

variable {s : State} {tr : List Seen} {l : Ledger}

theorem Accounts.concat (h : Accounts tr l) {o : Seen} {l' : Ledger} (ho : o.atFullRing)
    (hsettled : (l'.settled.filter (·.2)).map Prod.fst = l'.delivered ++ l'.stored)
    (hcap : l.settled.map Prod.fst ++ (l.inHand ++ l.waiting) ++ captured [o] =
      l'.settled.map Prod.fst ++ (l'.inHand ++ l'.waiting))
    (hfwd : (l.delivered ++ l.stored).map recordBytes ++ forwarded [o] =
      (l'.delivered ++ l'.stored).map recordBytes)
    (hdrop : ((l.settled.filter (!·.2)).map Prod.fst).map eventBytes ++ dropped [o] =
      ((l'.settled.filter (!·.2)).map Prod.fst).map eventBytes)
    (hrem : l.delivered.map recordBytes ++ removed [o] = l'.delivered.map recordBytes) :
    Accounts (tr ++ [o]) l' := by
  refine ⟨?_, hsettled, ?_, ?_, ?_, ?_⟩
  · rw [captured_append, h.captured_eq, hcap]
  · rw [forwarded_append, h.forwarded_eq, hfwd]
  · rw [dropped_append, h.dropped_eq, hdrop]
  · rw [removed_append, h.removed_eq, hrem]
  · intro o' ho'
    rcases List.mem_append.mp ho' with h' | h'
    · exact h.full o' h'
    · rwa [List.mem_singleton.mp h']

theorem Accounts.quiet (h : Accounts tr l) {o : Seen} (ho : o.atFullRing)
    (hcap : captured [o] = []) (hfwd : forwarded [o] = []) (hdrop : dropped [o] = [])
    (hrem : removed [o] = []) : Accounts (tr ++ [o]) l :=
  h.concat ho h.settled_eq (by rw [hcap, List.append_nil]) (by rw [hfwd, List.append_nil])
    (by rw [hdrop, List.append_nil]) (by rw [hrem, List.append_nil])

theorem Counted.frame {statics : Handler → Statics} (h : Counted statics tr) {o : Seen}
    (hr : raised [o] = []) : Counted statics (tr ++ [o]) := by
  refine ⟨?_, ?_⟩
  · simpa [hr] using h.counter
  · simpa [hr] using h.numbered

theorem Counted.raise {statics : Handler → Statics} {h : Handler} {st : Statics} {e : CaptureEvent}
    {o : Seen} (hc : Counted statics tr) (hraised : raised [o] = [(h, e)])
    (hst : st.counter = (statics h).counter + 1#64)
    (he : e.event = (statics h).counter + 1#64) :
    Counted (Function.update statics h st) (tr ++ [o]) := by
  have hcount : ∀ h', countOf h' ((raised (tr ++ [o])).map key) =
      countOf h' ((raised tr).map key) + if h = h' then 1 else 0 := by
    intro h'
    rw [raised_append, hraised, List.map_append, countOf_append, List.map_singleton,
      countOf_singleton]
    rfl
  refine ⟨?_, ?_⟩
  · intro h'
    rw [hcount]
    by_cases hh : h' = h
    · subst hh
      rw [Function.update_self, if_pos rfl, hst, hc.counter, BitVec.ofNat_add]
    · rw [Function.update_of_ne hh, if_neg (Ne.symm hh), hc.counter, Nat.add_zero]
  · intro hlen
    rw [raised_append, hraised, List.length_append, List.length_singleton] at hlen
    have hnum := hc.numbered (by omega)
    have hle : countOf h ((raised tr).map key) ≤ (raised tr).length := by
      simpa [countOf] using List.countP_le_length (l := (raised tr).map key)
    have hkey : key (h, e) = (h, countOf h ((raised tr).map key) + 1) := by
      rw [key, he, hc.counter, ← BitVec.ofNat_add, BitVec.toNat_ofNat, Nat.mod_eq_of_lt (by omega)]
    rw [raised_append, hraised, List.map_append, List.map_singleton, hkey]
    exact hnum.concat h

theorem WorkerOk.extend {r r' : CircularBufferPow2} {waiting stored : List Tagged} {pc : WorkerPc}
    (h : WorkerOk r waiting stored pc) (htail : r'.tail = r.tail)
    (hsize : r'.elementSize = r.elementSize) (more : List Tagged) :
    WorkerOk r' (waiting ++ more) stored pc := by
  cases pc with
  | taking pc =>
    have hx := ConsumerOk.extend h htail hsize (more.map eventBytes)
    rwa [← List.map_append] at hx
  | pushRecord event => exact h
  | _ => trivial

theorem push_tail (r : CircularBufferPow2) (src : Mem) : (push r src).2.tail = r.tail := by
  unfold push
  split_ifs <;> rfl

/-- An interrupt appends to what waits, or is rejected by the full capture ring. -/
theorem inv_interrupt (h : Inv s tr l) (cfg : GpioConfig) (hd : Handler) (i : Interrupt) :
    ∃ l', Inv (interrupt cfg hd i s).1 (tr ++ (interrupt cfg hd i s).2) l' := by
  unfold interrupt
  cases hirq : irqHandler hd cfg (s.statics hd) i with
  | none => exact ⟨l, by simpa using h⟩
  | some out =>
    obtain ⟨st, e⟩ := out
    obtain ⟨hst, he⟩ := irqHandler_eq_some hirq
    have hload : load (ofBytes e.bytes) 0 s.captureEventBuffer.elementSize.toNat = e.bytes := by
      rw [h.captureSize]
      exact load_ofBytes_of_length e.length_bytes
    have hspec := push_spec h.capture (ofBytes e.bytes)
    have hsize := push_elementSize s.captureEventBuffer (ofBytes e.bytes)
    have htail := push_tail s.captureEventBuffer (ofBytes e.bytes)
    have ha := h.accounts
    dsimp only
    by_cases hroom : (l.waiting.map eventBytes).length + 1 < 2 ^ 3
    · obtain ⟨hres, hcont⟩ := hspec.1 hroom
      rw [hload] at hcont
      rw [if_pos hres]
      refine ⟨{ l with waiting := l.waiting ++ [(hd, e)] }, ?_⟩
      exact { h with
        capture := by simpa [eventBytes] using hcont
        captureSize := hsize.trans h.captureSize
        worker := h.worker.extend htail hsize _
        accounts := ha.concat trivial ha.settled_eq (by simp [captured]) (List.append_nil _)
          (List.append_nil _) (List.append_nil _)
        counted := h.counted.raise rfl hst he
        noticed := fun _ => Or.inl (Nat.succ_pos _) }
    · have hres := hspec.2 hroom
      have hne : (push s.captureEventBuffer (ofBytes e.bytes)).1 ≠ 0 := by simp [hres]
      have hfull : size s.captureEventBuffer = 7#64 := by
        apply BitVec.eq_of_toNat_eq
        have hlen := h.capture.length_lt
        rw [size_spec h.capture, BitVec.toNat_ofNat]
        omega
      rw [if_neg hne, hres]
      refine ⟨l, ?_⟩
      exact { h with
        accounts := ha.quiet hfull rfl rfl rfl rfl
        counted := h.counted.raise rfl hst he
        noticed := fun _ => Or.inl (Nat.succ_pos _) }

theorem inv_afterTake (h : Inv s tr l) {pc : ConsumerPc} (hpc : s.worker = .taking pc) :
    ∃ l', Inv (afterTake s (consume s.captureEventBuffer pc)) tr l' := by
  have hw := h.worker
  have hhand := h.inHand
  have hmtx := h.mtx
  rw [hpc] at hw hhand hmtx
  have hspec := consume_spec h.capture hw
  rcases hout : consume s.captureEventBuffer pc with
    ⟨r, pc' | ⟨pc', event⟩ | _ | ⟨ref, event, adv⟩⟩ <;> rw [hout] at hspec
  · obtain ⟨rfl, hok, hfrom, hto⟩ := hspec
    exact ⟨l, { h with
      worker := hok
      inHand := hhand.trans (hfrom.trans hto.symm)
      mtx := hmtx
      noticed := fun _ => Or.inr (Or.inr rfl) }⟩
  · obtain ⟨hfrom, hto, q', hq, hcont, hok, hr⟩ := hspec
    obtain ⟨p, waiting, hl, hp, hq'⟩ := List.map_eq_cons_iff.mp hq
    have hempty : l.inHand = [] := List.map_eq_nil_iff.mp (hhand.trans hfrom)
    have hcap := h.accounts.captured_eq
    rw [hl, hempty] at hcap
    subst hq'
    have hsize : r.elementSize = s.captureEventBuffer.elementSize := by rw [hr]
    exact ⟨{ l with inHand := [p], waiting := waiting }, { h with
      capture := hcont
      captureSize := hsize.trans h.captureSize
      worker := hok
      inHand := by simp only [afterTake, WorkerPc.inHand, hto, List.map_singleton, hp]
      mtx := hmtx
      accounts := { h.accounts with captured_eq := hcap }
      noticed := fun _ => Or.inr (Or.inr rfl) }⟩
  · obtain ⟨rfl, hq, hfrom⟩ := hspec
    have hempty : l.waiting = [] := List.map_eq_nil_iff.mp hq
    exact ⟨l, { h with
      worker := trivial
      inHand := hhand.trans hfrom
      mtx := hmtx
      noticed := fun hne => absurd hempty hne }⟩
  · obtain ⟨rfl, hfrom, -⟩ := hspec
    exact ⟨l, { h with
      worker := trivial
      inHand := hhand.trans hfrom
      mtx := hmtx
      noticed := fun _ => Or.inr (Or.inr rfl) }⟩

theorem Accounts.drop (h : Accounts tr l) {p : Tagged} (hp : l.inHand = [p]) :
    Accounts (tr ++ [Seen.dropped (eventBytes p) 15#64])
      { l with settled := l.settled ++ [(p, false)], inHand := [] } :=
  h.concat rfl (by simp [h.settled_eq]) (by simp [captured, hp]) (List.append_nil _)
    (by simp [dropped]) (List.append_nil _)

theorem Accounts.forward (h : Accounts tr l) {p : Tagged} (hp : l.inHand = [p]) :
    Accounts (tr ++ [Seen.forwarded (recordBytes p)])
      { l with settled := l.settled ++ [(p, true)], inHand := [], stored := l.stored ++ [p] } :=
  h.concat trivial (by simp [h.settled_eq]) (by simp [captured, hp]) (by simp [forwarded])
    (by simp [dropped]) (List.append_nil _)

theorem Accounts.deliver (h : Accounts tr l) {done rest : List Tagged}
    (hl : l.stored = done ++ rest) (count : SizeT) (bytesRead : ℤ) :
    Accounts (tr ++ [Seen.read count bytesRead (done.map recordBytes)])
      { l with delivered := l.delivered ++ done, stored := rest } :=
  h.concat trivial (by simp [h.settled_eq, hl]) (List.append_nil _) (by simp [forwarded, hl])
    (List.append_nil _) (by simp [removed])

theorem Inv.stored_lt (h : Inv s tr l) (hroom : space s.eventBulkDataBuffer ≠ 0#64) :
    l.stored.length < 15 := by
  have hne : (space s.eventBulkDataBuffer).toNat ≠ 0 := fun h0 => hroom (BitVec.eq_of_toNat_eq h0)
  have hspace := space_spec h.bulk
  rw [List.length_map] at hspace
  omega

theorem Inv.bulk_full (h : Inv s tr l) (hfull : space s.eventBulkDataBuffer = 0#64) :
    size s.eventBulkDataBuffer = 15#64 := by
  apply BitVec.eq_of_toNat_eq
  have hlt := h.bulk.length_lt
  have hspace := space_spec h.bulk
  rw [hfull, BitVec.toNat_ofNat] at hspace
  rw [size_spec h.bulk, BitVec.toNat_ofNat]
  omega

/-- The worker pushes with the mutex held after it found room, so its `push` succeeds. -/
theorem Inv.push_record (h : Inv s tr l) {p : Tagged} (hroom : l.stored.length < 15) :
    (push s.eventBulkDataBuffer (ofBytes (recordBytes p))).1 = 0 ∧
      Contents (push s.eventBulkDataBuffer (ofBytes (recordBytes p))).2 4
        ((l.stored ++ [p]).map recordBytes) := by
  have hload : load (ofBytes (recordBytes p)) 0 s.eventBulkDataBuffer.elementSize.toNat =
      recordBytes p := by
    rw [h.bulkSize]
    exact load_ofBytes_of_length (bulkRecord p.2).length_bytes
  have hlen : (l.stored.map recordBytes).length + 1 < 2 ^ 4 := by
    rw [List.length_map]
    omega
  have hspec := (push_spec h.bulk (ofBytes (recordBytes p))).1 hlen
  rwa [hload, ← List.map_singleton, ← List.map_append] at hspec

theorem inv_doWork (h : Inv s tr l) {s' : State} {seen : List Seen}
    (hs : doWork s = some (s', seen)) : ∃ l', Inv s' (tr ++ seen) l' := by
  have hw := h.worker
  have hhand := h.inHand
  have hmtx := h.mtx
  unfold doWork at hs
  split at hs <;> rename_i hpc <;> rw [hpc] at hw hhand hmtx
  · simp at hs
  · obtain ⟨rfl, rfl⟩ := by simpa using hs
    rw [List.append_nil]
    exact inv_afterTake h hpc
  · next event =>
    split_ifs at hs
    obtain ⟨rfl, rfl⟩ := by simpa using hs
    rw [List.append_nil]
    exact ⟨l, { h with worker := trivial, inHand := hhand, mtx := rfl,
                        noticed := fun _ => Or.inr (Or.inr rfl) }⟩
  · next event =>
    obtain ⟨p, hp, rfl⟩ := List.map_eq_singleton_iff.mp hhand
    split_ifs at hs with hroom <;> obtain ⟨rfl, rfl⟩ := by simpa using hs
    · rw [List.append_nil]
      exact ⟨l, { h with worker := h.stored_lt hroom, inHand := hhand, mtx := hmtx,
                          noticed := fun _ => Or.inr (Or.inr rfl) }⟩
    · rw [h.bulk_full (not_not.mp hroom)]
      exact ⟨{ l with settled := l.settled ++ [(p, false)], inHand := [] },
        { h with worker := trivial, inHand := rfl, mtx := hmtx, accounts := h.accounts.drop hp,
                 counted := h.counted.frame rfl, noticed := fun _ => Or.inr (Or.inr rfl) }⟩
  · next event =>
    obtain ⟨p, hp, rfl⟩ := List.map_eq_singleton_iff.mp hhand
    obtain ⟨hres, hcont⟩ := h.push_record (p := p) hw
    have hsize := push_elementSize s.eventBulkDataBuffer (ofBytes (recordBytes p))
    have hrec : (bulkRecord (.ofBytes (eventBytes p))).bytes = recordBytes p := by
      rw [eventBytes, CaptureEvent.ofBytes_bytes, recordBytes]
    simp only [hrec, if_pos hres] at hs
    obtain ⟨rfl, rfl⟩ := by simpa using hs
    exact ⟨{ l with settled := l.settled ++ [(p, true)], inHand := [], stored := l.stored ++ [p] },
      { h with bulk := hcont, bulkSize := hsize.trans h.bulkSize, worker := trivial,
               inHand := rfl, mtx := hmtx, accounts := h.accounts.forward hp,
               counted := h.counted.frame rfl, noticed := fun _ => Or.inr (Or.inr rfl) }⟩
  · obtain ⟨rfl, rfl⟩ := by simpa using hs
    exact ⟨l, { h with worker := trivial, inHand := hhand, mtx := hmtx,
                        accounts := h.accounts.quiet trivial rfl rfl rfl rfl,
                        counted := h.counted.frame rfl,
                        noticed := fun _ => Or.inr (Or.inr rfl) }⟩
  · obtain ⟨rfl, rfl⟩ := by simpa using hs
    rw [List.append_nil]
    exact ⟨l, { h with worker := trivial, inHand := hhand, mtx := rfl,
                        noticed := fun _ => Or.inr (Or.inr rfl) }⟩
  · obtain ⟨rfl, rfl⟩ := by simpa using hs
    rw [List.append_nil]
    refine ⟨l, { h with worker := trivial, inHand := hhand, mtx := hmtx, noticed := ?_ }⟩
    have hn := h.noticed
    rwa [hpc] at hn

theorem inv_read (h : Inv s tr l) (copyToUser : ℕ → Bool) (count : SizeT) :
    ∃ l', Inv
      { s with
        eventBulkDataBuffer := (gpioOledIrqRead copyToUser count s.eventBulkDataBuffer).ring }
      (tr ++ [Seen.read count (gpioOledIrqRead copyToUser count s.eventBulkDataBuffer).bytesRead
        (gpioOledIrqRead copyToUser count s.eventBulkDataBuffer).records]) l' := by
  obtain ⟨q', hq, hcont, hsize⟩ := gpioOledIrqRead_removes copyToUser count h.bulk
  obtain ⟨done, rest, hl, hdone, rfl⟩ := List.map_eq_append_iff.mp hq
  have hworker : ∀ {pc : WorkerPc}, WorkerOk s.captureEventBuffer l.waiting l.stored pc →
      WorkerOk s.captureEventBuffer l.waiting rest pc := by
    intro pc hpc
    cases pc with
    | pushRecord event =>
      simp only [WorkerOk, hl, List.length_append] at hpc ⊢
      omega
    | taking pc => exact hpc
    | _ => trivial
  rw [← hdone]
  exact ⟨{ l with delivered := l.delivered ++ done, stored := rest },
    { h with bulk := hcont, bulkSize := hsize.trans h.bulkSize, worker := hworker h.worker,
             accounts := h.accounts.deliver hl count _, counted := h.counted.frame rfl }⟩

theorem inv_step (cfg : GpioConfig) (h : Inv s tr l) (a : Action) {s' : State} {seen : List Seen}
    (hs : pipeline cfg s a = some (s', seen)) : ∃ l', Inv s' (tr ++ seen) l' := by
  cases a with
  | interrupt hd i =>
    have he : interrupt cfg hd i s = (s', seen) := Option.some.inj hs
    have hi := inv_interrupt h cfg hd i
    rwa [he] at hi
  | scheduleWork =>
    simp only [pipeline] at hs
    split_ifs at hs
    obtain ⟨rfl, rfl⟩ := by simpa using hs
    rw [List.append_nil]
    exact ⟨l, { h with noticed := fun _ => Or.inr (Or.inl rfl) }⟩
  | startWork =>
    simp only [pipeline] at hs
    split_ifs at hs with hp
    obtain ⟨rfl, rfl⟩ := by simpa using hs
    rw [List.append_nil]
    have hhand := h.inHand
    have hmtx := h.mtx
    rw [hp.2] at hhand hmtx
    exact ⟨l, { h with worker := trivial, inHand := hhand, mtx := hmtx,
                       noticed := fun _ => Or.inr (Or.inr rfl) }⟩
  | work => exact inv_doWork h hs
  | read copyToUser count =>
    simp only [pipeline] at hs
    split_ifs at hs
    obtain ⟨rfl, rfl⟩ := by simpa using hs
    exact inv_read h copyToUser count
  | poll =>
    simp only [pipeline] at hs
    split_ifs at hs
    obtain ⟨rfl, rfl⟩ := by simpa using hs
    exact ⟨l, { h with accounts := h.accounts.quiet trivial rfl rfl rfl rfl
                       counted := h.counted.frame rfl }⟩
  | ioctl cmd =>
    simp only [pipeline, gpioIrqIoctl] at hs
    split_ifs at hs
    · obtain ⟨rfl, rfl⟩ := by simpa using hs
      exact ⟨l, { h with accounts := h.accounts.quiet trivial rfl rfl rfl rfl
                         counted := h.counted.frame rfl }⟩
    · obtain ⟨rfl, rfl⟩ := by simpa using hs
      rw [List.append_nil]
      exact ⟨l, h⟩

end Steps

theorem init_of_eq_zero {kmalloc : SizeT → Option Mem} {r : CircularBufferPow2} {k : ℕ}
    {elementSize numElements : SizeT} (hpow : numElements.toNat = 2 ^ k) (hk : k ≤ 31)
    (hbytes : 2 ^ k * elementSize.toNat < 2 ^ 64)
    (h : (init kmalloc r elementSize numElements).1 = 0) :
    Contents (init kmalloc r elementSize numElements).2 k [] ∧
      (init kmalloc r elementSize numElements).2.elementSize = elementSize := by
  cases hblock : kmalloc (numElements * elementSize) with
  | some block =>
    obtain ⟨r', he, hc⟩ := init_spec r hpow hk hbytes hblock
    rwa [he]
  | none =>
    simp only [init, hblock] at h
    split_ifs at h <;> simp [enomem] at h

theorem inv_init {kmalloc kmalloc' : SizeT → Option Mem} {s₀ : State}
    (h : gpioOledIrqInit kmalloc kmalloc' loaded = (0, s₀)) : Inv s₀ [] ⟨[], [], [], [], []⟩ := by
  simp only [gpioOledIrqInit] at h
  split_ifs at h with hcap hbulk
  · obtain ⟨hc, hcs⟩ := init_of_eq_zero (k := 3) (by decide) (by decide) (by decide) hcap
    obtain ⟨hb, hbs⟩ := init_of_eq_zero (k := 4) (by decide) (by decide) (by decide) hbulk
    obtain ⟨-, rfl⟩ := Prod.mk.inj h
    exact { capture := hc, captureSize := hcs, bulk := hb, bulkSize := hbs, worker := trivial,
            inHand := rfl, mtx := rfl, accounts := ⟨rfl, rfl, rfl, rfl, rfl, by simp⟩,
            counted := ⟨fun _ => rfl, fun _ => .nil⟩, noticed := fun hne => absurd rfl hne }
  · exact absurd (Prod.mk.inj h).1 hbulk
  · exact absurd (Prod.mk.inj h).1 hcap

theorem inv_of_reaches {cfg : GpioConfig} {kmalloc kmalloc' : SizeT → Option Mem} {s₀ s : State}
    {tr : List Seen} (hinit : gpioOledIrqInit kmalloc kmalloc' loaded = (0, s₀))
    (h : Reaches (pipeline cfg) s₀ s tr) : ∃ l, Inv s tr l :=
  Reaches.invariant (I := fun s tr => ∃ l, Inv s tr l) ⟨_, inv_init hinit⟩
    (fun _ _ a _ _ ⟨_, hi⟩ hs => inv_step cfg hi a hs) h

end LinuxOddsAndEnds.Oled
