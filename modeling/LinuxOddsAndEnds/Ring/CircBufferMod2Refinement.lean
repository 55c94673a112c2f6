import LinuxOddsAndEnds.Ring.CircBufferMod2Contents
import LinuxOddsAndEnds.Ring.CircBufferPow2Refinement

/-!
# Where the even-capacity ring is a first-in first-out queue

`agrees` lists, call by call, the positions of `head` and `tail` at which the source
does what a queue of `capacity - 1` elements does. A sequence of calls that stays
within these positions cannot be told from a run of that queue. The first call
outside them shows something else, or works on the slot past the storage.
-/

namespace LinuxOddsAndEnds.CircBufferMod2

open Foundation
open CircBufferPow2 (Call Seen fifo accepted left fifo_order null)

/-- The slot that `pop` releases. With `tail` past the last slot and `head` at the first one
nothing is stored, and `pop` only moves `tail`. -/
def released (r : CircularBufferMod2) : Option ℕ :=
  if r.tail = r.capacity ∧ r.head = 0#64 then none else front r

/-- The source under a sequence of calls, seen as the power-of-two ring is. -/
def ring : Machine CircularBufferMod2 Call Seen
  | r, .push src =>
    let out := push r src
    some (out.2, if out.1 = 0 then [.accepted (load src 0 r.elementSize.toNat), .code out.1]
      else [.code out.1])
  | r, .front => some (r, [.bytes ((front r).map (element r))])
  | r, .pop => some (pop r, (released r).toList.map fun ref => .left (element r ref))
  | r, .clear => some (clear r, [])
  | r, .size => some (r, [.count (size r).toNat])
  | r, .space => some (r, [.count (space r).toNat])
  | r, .empty => some (r, [.flag (empty r)])

/-- The slot that a call answers or releases is one of the storage. -/
def inside (r : CircularBufferMod2) : Call → Bool
  | .front => size r = 0#64 ∨ r.tail.toNat < r.capacity.toNat
  | .pop => released r = none ∨ r.tail.toNat < r.capacity.toNat
  | _ => true

/-- The positions of `head` and `tail` at which a call does what a queue does. -/
def agrees (r : CircularBufferMod2) : Call → Bool
  | .push _ => ¬(r.tail = 0#64 ∧ r.head + 1#64 = r.capacity)
  | .front => r.tail ≠ r.capacity
  | .pop => r.tail = r.capacity → r.head = 0#64
  | .clear => true
  | .size => r.tail.toNat ≤ r.head.toNat
  | .space => r.head.toNat < r.tail.toNat
  | .empty => ¬(r.tail = r.capacity ∧ r.head = 0#64)

theorem indexed_of_reaches {n : ℕ} {r r' : CircularBufferMod2} {tr : List Seen}
    (h : Indexed r n) (hreach : Reaches ring r r' tr) : Indexed r' n := by
  refine hreach.invariant (I := fun r _ => Indexed r n) h ?_
  intro r tr c r' seen h hs
  cases c <;> obtain ⟨rfl, -⟩ := Prod.mk.inj (Option.some.inj hs)
  case push src => exact h.push src
  case pop => exact h.pop
  case clear => exact h.clear
  all_goals exact h

section Simulation

variable {n s : ℕ} {r : CircularBufferMod2} {q : BoundedFifo (List Byte) (n - 1)}

/-- The ring and the ideal queue store the same elements of `s` bytes. -/
def SameQueue (r : CircularBufferMod2) (q : BoundedFifo (List Byte) (n - 1)) : Prop :=
  Contents r n q.items ∧ r.elementSize.toNat = s

theorem SameQueue.tail_lt (h : SameQueue (s := s) r q) (ht : r.tail ≠ r.capacity) :
    r.tail.toNat < n := by
  apply Nat.lt_of_le_of_ne h.1.tail_le
  intro he
  apply ht
  rw [BitVec.toNat_eq, h.1.capacity, he]

theorem SameQueue.push (h : SameQueue (s := s) r q) (src : Mem)
    (hok : ¬(r.tail = 0#64 ∧ r.head + 1#64 = r.capacity)) :
    ∃ r' q' seen, ring r (.push src) = some (r', seen) ∧
      fifo s q (.push src) = some (q', seen) ∧ SameQueue (s := s) r' q' := by
  obtain ⟨hc, rfl⟩ := h
  have hl := hc.length_eq
  have hh := hc.head_lt
  have ht := hc.tail_le
  by_cases hfull : r.head.toNat + 1 = r.tail.toNat
  · have hq : q.push (load src 0 r.elementSize.toNat) = none := by
      rw [BoundedFifo.push_eq_none]
      split_ifs at hl <;> omega
    refine ⟨r, q, [.code (-1)], ?_, ?_, hc, rfl⟩
    · simp [ring, push_full hc src hfull]
    · simp [fifo, hq]
  · have hroom : q.items.length + 1 < n := by
      rw [BitVec.toNat_eq, BitVec.toNat_eq, hc.toNat_head_succ, hc.capacity] at hok
      simp only [BitVec.toNat_ofNat, Nat.zero_mod] at hok
      split_ifs at hl <;> omega
    obtain ⟨q', hq'⟩ : ∃ q', q.push (load src 0 r.elementSize.toNat) = some q' := by
      apply Option.ne_none_iff_exists'.mp
      rw [Ne, BoundedFifo.push_eq_none]
      omega
    obtain ⟨hret, hc'⟩ := hc.push_room src hroom
    refine ⟨_, q', _, rfl, ?_, ?_, ?_⟩
    · simp only [fifo, hq', hret, if_true]
    · rw [(BoundedFifo.push_eq_some.mp hq').2]
      exact hc'
    · rw [push_elementSize]

theorem SameQueue.pop (h : SameQueue (s := s) r q) (ht : r.tail ≠ r.capacity) :
    (front r).map (element r) = q.front ∧ SameQueue (s := s) (pop r) q.pop := by
  have hlt := h.tail_lt ht
  obtain ⟨hc, rfl⟩ := h
  refine ⟨?_, pop_spec hc hlt, by rw [pop_elementSize]⟩
  cases hq : q.items with
  | nil =>
    rw [hq] at hc
    simp [front_nil hc hlt, BoundedFifo.front, hq]
  | cons e rest =>
    rw [hq] at hc
    obtain ⟨hf, he⟩ := front_cons hc hlt
    simp [hf, he, BoundedFifo.front, hq]

/-- Past the last slot, with `head` at the first one, `pop` brings `tail` back to an empty
ring. -/
theorem SameQueue.pop_pastEnd (h : SameQueue (s := s) r q) (ht : r.tail = r.capacity)
    (hz : r.head = 0#64) :
    q.front = none ∧ SameQueue (s := s) (CircBufferMod2.pop r) q.pop := by
  obtain ⟨hc, rfl⟩ := h
  have htail : r.tail.toNat = n := by rw [ht, hc.capacity]
  have hhead : r.head.toNat = 0 := by rw [hz]; rfl
  have hq : q.items = [] := by
    have hl := hc.length_eq
    rw [if_neg (by have := hc.head_lt; omega)] at hl
    exact List.length_eq_zero_iff.mp (by omega)
  have hsize : size r ≠ 0#64 := by
    rw [hc.size_ne_zero]
    have hlt := hc.head_lt
    omega
  refine ⟨by rw [BoundedFifo.front, hq]; rfl, ?_, by rw [pop_elementSize]⟩
  rw [BoundedFifo.items_pop, hq, CircBufferMod2.pop, if_pos hsize, if_pos ht]
  exact { hc with tail_le := Nat.zero_le _, length_lt := (Nat.zero_le _).trans_lt hc.head_lt,
                  head_eq := by simp [hhead, place], slots := by simp }

theorem sameQueue_agrees (r : CircularBufferMod2) (q : BoundedFifo (List Byte) (n - 1)) (c : Call)
    (h : SameQueue (s := s) r q) (hok : agrees r c = true) : inside r c = true ∧
      ∃ r' q' seen, ring r c = some (r', seen) ∧ fifo s q c = some (q', seen) ∧
        SameQueue (s := s) r' q' := by
  have hc := h.1
  have hl := hc.length_eq
  have hin : r.tail ≠ r.capacity → size r = 0#64 ∨ r.tail.toNat < r.capacity.toNat := by
    intro ht
    rw [hc.capacity]
    exact Or.inr (h.tail_lt ht)
  cases c with
  | push src => exact ⟨rfl, h.push src (not_and_or.mpr (by simpa [agrees] using hok))⟩
  | front =>
    have ht : r.tail ≠ r.capacity := by simpa [agrees] using hok
    exact ⟨by simpa [inside] using hin ht, r, q, _, rfl, by simp [fifo, (h.pop ht).1], h⟩
  | pop =>
    by_cases ht : r.tail = r.capacity
    · have hz : r.head = 0#64 := by simpa [agrees, ht] using hok
      obtain ⟨hfront, hsame⟩ := h.pop_pastEnd ht hz
      have hnone : released r = none := if_pos ⟨ht, hz⟩
      refine ⟨by simp [inside, hnone], pop r, q.pop, _, rfl, ?_, hsame⟩
      simp only [fifo, hfront, hnone]
      rfl
    · have hreleased : released r = front r := if_neg fun hpast => ht hpast.1
      refine ⟨?_, pop r, q.pop, _, rfl, ?_, (h.pop ht).2⟩
      · simpa [inside] using Or.inr ((hc.capacity ▸ h.tail_lt ht : _ < r.capacity.toNat))
      · simp only [fifo, ← (h.pop ht).1, hreleased]
        cases front r <;> rfl
  | clear => exact ⟨rfl, clear r, .empty, [], rfl, rfl, clear_spec hc, h.2⟩
  | size =>
    have hle : r.tail.toNat ≤ r.head.toNat := by simpa [agrees] using hok
    rw [if_pos hle] at hl
    exact ⟨rfl, r, q, _, rfl, by simp [fifo, hc.toNat_size, hle, hl], h⟩
  | space =>
    have hlt : r.head.toNat < r.tail.toNat := by simpa [agrees] using hok
    have hroom : n - 1 - q.items.length = r.tail.toNat - (r.head.toNat + 1) := by
      rw [if_neg (by omega)] at hl
      have htail := hc.tail_le
      omega
    exact ⟨rfl, r, q, _, rfl, by simp [fifo, hc.toNat_space, hlt, BoundedFifo.space, hroom], h⟩
  | empty =>
    have he : empty r = q.items.isEmpty := by
      rw [Bool.eq_iff_iff, empty, beq_iff_eq, List.isEmpty_iff, ← List.length_eq_zero_iff,
        BitVec.toNat_eq]
      have hne : ¬(r.tail.toNat = n ∧ r.head.toNat = 0) := by
        intro hbad
        have hz : r.head = 0#64 := BitVec.eq_of_toNat_eq hbad.2
        have ht : r.tail = r.capacity := by rw [BitVec.toNat_eq, hc.capacity, hbad.1]
        simp [agrees, hz, ht] at hok
      have htail := hc.tail_le
      have hhead := hc.head_lt
      split_ifs at hl <;> omega
    exact ⟨rfl, r, q, _, rfl, by simp [fifo, he], h⟩

theorem sameQueue_differs (r : CircularBufferMod2) (q : BoundedFifo (List Byte) (n - 1)) (c : Call)
    (h : SameQueue (s := s) r q) (hbad : agrees r c = false) (hin : inside r c = true) :
    ∃ r' q' x y seen seen', ring r c = some (r', x :: seen) ∧
      fifo s q c = some (q', y :: seen') ∧ x ≠ y := by
  obtain ⟨hc, rfl⟩ := h
  have hl := hc.length_eq
  have hh := hc.head_lt
  have ht := hc.tail_le
  have hn := hc.capacity_lt
  have hpast : r.tail = r.capacity → ¬(size r = 0#64 ∨ r.tail.toNat < r.capacity.toNat) := by
    intro he
    rw [he, not_or]
    refine ⟨?_, by omega⟩
    rw [← Ne, hc.size_ne_zero, he, hc.capacity]
    omega
  cases c with
  | push src =>
    obtain ⟨hz, hcap⟩ : r.tail = 0#64 ∧ r.head + 1#64 = r.capacity := by simpa [agrees] using hbad
    have hlast : r.head.toNat + 1 = n := by rw [← hc.toNat_head_succ, hcap, hc.capacity]
    have hs : space r ≠ 0#64 := by
      rw [hc.space_ne_zero, hz]
      simp
    have hq : q.push (load src 0 r.elementSize.toNat) = none := by
      rw [BoundedFifo.push_eq_none]
      rw [hz] at hl
      simp only [BitVec.toNat_ofNat, Nat.zero_mod, Nat.zero_le, if_true] at hl
      omega
    refine ⟨(push r src).2, q, .accepted (load src 0 r.elementSize.toNat), .code (-1), [.code 0],
      [], ?_, ?_, ?_⟩
    · simp [ring, push, hs]
    · simp [fifo, hq]
    · simp
  | front => exact absurd (by simpa [inside] using hin) (hpast (by simpa [agrees] using hbad))
  | pop =>
    obtain ⟨hend, hz⟩ : r.tail = r.capacity ∧ r.head ≠ 0#64 := by simpa [agrees] using hbad
    have hreleased : released r = front r := if_neg fun hpast => hz hpast.2
    have hsize : front r = none → size r = 0#64 := by
      intro hnone
      by_contra hne
      rw [front, if_pos hne] at hnone
      exact Option.some_ne_none _ hnone
    refine absurd ?_ (hpast hend)
    have hslot : released r = none ∨ r.tail.toNat < r.capacity.toNat := by simpa [inside] using hin
    rw [hreleased] at hslot
    exact hslot.imp_left hsize
  | clear => simp [agrees] at hbad
  | size =>
    have hlt : ¬r.tail.toNat ≤ r.head.toNat := by simpa [agrees] using hbad
    refine ⟨r, q, .count (size r).toNat, .count q.items.length, [], [], rfl, rfl, ?_⟩
    rw [if_neg hlt] at hl
    rw [Ne, Seen.count.injEq, hc.toNat_size, if_neg hlt]
    omega
  | space =>
    have hle : ¬r.head.toNat < r.tail.toNat := by simpa [agrees] using hbad
    refine ⟨r, q, .count (space r).toNat, .count q.space, [], [], rfl, rfl, ?_⟩
    rw [if_pos (by omega)] at hl
    rw [Ne, Seen.count.injEq, hc.toNat_space, if_neg hle, BoundedFifo.space]
    omega
  | empty =>
    obtain ⟨hcap, hz⟩ : r.tail = r.capacity ∧ r.head = 0#64 := by simpa [agrees] using hbad
    have htail : r.tail.toNat = n := by rw [hcap, hc.capacity]
    have hhead : r.head.toNat = 0 := by rw [hz]; rfl
    refine ⟨r, q, .flag (empty r), .flag q.items.isEmpty, [], [], rfl, rfl, ?_⟩
    rw [if_neg (by omega)] at hl
    have hq : q.items = [] := List.length_eq_zero_iff.mp (by omega)
    have hne : r.head ≠ r.tail := by
      rw [Ne, BitVec.toNat_eq]
      omega
    simp [empty, hq, hne]

end Simulation

/-- The calls show what an ideal queue of `bound` elements shows, and each element
answered or released is one of the storage. -/
def Refines (r : CircularBufferMod2) (bound : ℕ) (calls : List Call) : Prop :=
  ∃ r' q tr, exec (ring.when inside) r calls = some (r', tr) ∧
    exec (fifo r.elementSize.toNat) (.empty : BoundedFifo (List Byte) bound) calls = some (q, tr) ∧
    Contents r' (bound + 1) q.items ∧ (left tr ++ q.items).Sublist (accepted tr)

/-- After a successful `init` a sequence of calls refines the queue of
`numElements - 1` elements exactly when each of its calls is made at a position
where the source agrees with a queue. -/
theorem refines_iff (kmalloc : SizeT → Option Mem) (r : CircularBufferMod2)
    (elementSize numElements : SizeT) (block : Mem) (calls : List Call)
    (hpos : numElements ≠ 0#64) (heven : numElements.toNat % 2 = 0)
    (hbytes : numElements.toNat * elementSize.toNat < 2 ^ 64)
    (hblock : kmalloc (numElements * elementSize) = some block) :
    ∃ r₀, init kmalloc r elementSize numElements = (0, r₀) ∧
      (Refines r₀ (numElements.toNat - 1) calls ↔ (exec (ring.when agrees) r₀ calls).isSome) := by
  obtain ⟨r₀, hinit, hc, rfl⟩ := init_spec r hpos heven hbytes hblock
  have hn : numElements.toNat - 1 + 1 = numElements.toNat := by
    have hlen := hc.length_lt
    simp only [List.length_nil] at hlen
    omega
  have h₀ : SameQueue (n := numElements.toNat) (s := r₀.elementSize.toNat) r₀ .empty := ⟨hc, rfl⟩
  refine ⟨r₀, hinit, ?_, ?_⟩
  · rintro ⟨r', q, tr, hr, hq, -, -⟩
    exact exec_when_of_same_trace sameQueue_agrees sameQueue_differs calls r₀ .empty r' q tr h₀ hr
      hq
  · intro hok
    obtain ⟨r', q, tr, hr, hq, h'⟩ :=
      exec_of_simulation_when sameQueue_agrees calls r₀ .empty h₀ hok
    refine ⟨r', q, tr, hr, hq, ?_, fifo_order (Reaches.of_exec hq)⟩
    rw [hn]
    exact h'.1

/-- Once around a ring of four slots: `tail` goes past the last slot, one more `pop` brings it
back, and two elements follow. -/
def onceAround : List Call :=
  (List.replicate 3 [Call.push null, .size, .front, .pop]).flatten ++
    [Call.push null, .space, .front, .pop, .pop, .empty, .push null, .push null, .size, .front,
      .pop]

theorem refines_iff_four : ∃ r₀, init (fun _ => some null) default 4#64 4#64 = (0, r₀) ∧
    Refines r₀ 3 onceAround := by
  obtain ⟨r₀, hinit, hiff⟩ := refines_iff (fun _ => some null) default 4#64 4#64 null onceAround
    (by decide) (by decide) (by decide) rfl
  obtain rfl := (Prod.mk.inj hinit).2
  exact ⟨_, hinit, hiff.mpr (by decide)⟩

/-- Two pushes into a ring of two slots are both accepted. -/
theorem not_refines : ¬∀ (kmalloc : SizeT → Option Mem) (r : CircularBufferMod2)
    (elementSize numElements : SizeT) (block : Mem) (calls : List Call), numElements ≠ 0#64 →
    numElements.toNat % 2 = 0 → numElements.toNat * elementSize.toNat < 2 ^ 64 →
    kmalloc (numElements * elementSize) = some block →
    ∃ r₀, init kmalloc r elementSize numElements = (0, r₀) ∧
      Refines r₀ (numElements.toNat - 1) calls := by
  intro h
  obtain ⟨r₀, hinit, r', q, tr, hr, hq, -, -⟩ := h (fun _ => some null) default 4#64 2#64 null
    [.push null, .push null] (by decide) (by decide) (by decide) rfl
  obtain rfl := (Prod.mk.inj hinit).2
  have hring := congrArg (Option.map Prod.snd) hr
  have hfifo := congrArg (Option.map Prod.snd) hq
  have hne : ((exec (ring.when inside)
      (init (fun _ => some null) default 4#64 2#64).2 [.push null, .push null]).map Prod.snd) ≠
    (exec (fifo 4) (.empty : BoundedFifo (List Byte) 1) [.push null, .push null]).map Prod.snd := by
    decide
  exact hne (hring.trans hfifo.symm)

end LinuxOddsAndEnds.CircBufferMod2
