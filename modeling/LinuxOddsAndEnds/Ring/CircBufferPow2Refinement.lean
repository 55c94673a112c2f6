import LinuxOddsAndEnds.Foundation.BoundedFifo
import LinuxOddsAndEnds.Foundation.Machine
import LinuxOddsAndEnds.Ring.CircBufferPow2Contents

/-!
# The ring refines a bounded first-in first-out queue

A client drives the ring through its calls. `ring` shows what the source returns
for each call, `fifo` what an ideal queue of `capacity - 1` elements returns; the
two show the same on every sequence of calls. Elements are compared byte for byte.
-/

namespace LinuxOddsAndEnds.CircBufferPow2

open Foundation

/-- A call on the ring; the element of a `push` is the memory behind its pointer. -/
inductive Call where
  | push (element : Mem)
  | front
  | pop
  | clear
  | size
  | space
  | empty

/-- Returned values, and the elements that enter and leave the ring. -/
inductive Seen where
  | code (ret : ℤ)
  | bytes (element : Option (List Byte))
  | count (n : ℕ)
  | flag (b : Bool)
  | accepted (element : List Byte)
  | left (element : List Byte)
  deriving DecidableEq, Repr

/-- The source under a sequence of calls. A `push` that returns `0` accepts its
element; what leaves at a `pop` are the bytes that `front` shows just before it. -/
def ring : Machine CircularBufferPow2 Call Seen
  | r, .push src =>
    let out := push r src
    some (out.2, if out.1 = 0 then [.accepted (load src 0 r.elementSize.toNat), .code out.1]
      else [.code out.1])
  | r, .front => some (r, [.bytes ((front r).map (element r))])
  | r, .pop => some (pop r, (front r).toList.map fun ref => .left (element r ref))
  | r, .clear => some (clear r, [])
  | r, .size => some (r, [.count (size r).toNat])
  | r, .space => some (r, [.count (space r).toNat])
  | r, .empty => some (r, [.flag (empty r)])

/-- The ideal queue of `elementSize`-byte elements under the same calls. -/
def fifo (elementSize : ℕ) {bound : ℕ} : Machine (BoundedFifo (List Byte) bound) Call Seen
  | q, .push src =>
    match q.push (load src 0 elementSize) with
    | some q' => some (q', [.accepted (load src 0 elementSize), .code 0])
    | none => some (q, [.code (-1)])
  | q, .front => some (q, [.bytes q.front])
  | q, .pop => some (q.pop, q.front.toList.map .left)
  | _, .clear => some (.empty, [])
  | q, .size => some (q, [.count q.items.length])
  | q, .space => some (q, [.count q.space])
  | q, .empty => some (q, [.flag q.items.isEmpty])

def accepted (tr : List Seen) : List (List Byte) :=
  tr.filterMap fun | .accepted e => some e | _ => none

def left (tr : List Seen) : List (List Byte) :=
  tr.filterMap fun | .left e => some e | _ => none

section Simulation

variable {k s : ℕ}

/-- The ring and the ideal queue store the same elements of `s` bytes. -/
def SameQueue (r : CircularBufferPow2) (q : BoundedFifo (List Byte) (2 ^ k - 1)) : Prop :=
  Contents r k q.items ∧ r.elementSize.toNat = s

theorem sameQueue_push {r : CircularBufferPow2} {q : BoundedFifo (List Byte) (2 ^ k - 1)}
    (h : SameQueue (s := s) r q) (src : Mem) : ∃ r' q' seen, ring r (.push src) = some (r', seen) ∧
      fifo s q (.push src) = some (q', seen) ∧ SameQueue (s := s) r' q' := by
  obtain ⟨hc, rfl⟩ := h
  have hp := push_spec hc src
  have hpos := Nat.two_pow_pos k
  by_cases hroom : q.items.length + 1 < 2 ^ k
  · obtain ⟨hret, hc'⟩ := hp.1 hroom
    obtain ⟨q', hq'⟩ : ∃ q', q.push (load src 0 r.elementSize.toNat) = some q' := by
      apply Option.ne_none_iff_exists'.mp
      rw [Ne, BoundedFifo.push_eq_none]
      omega
    refine ⟨_, q', _, rfl, ?_, ?_, ?_⟩
    · simp only [fifo, hq', hret, if_true]
    · rw [(BoundedFifo.push_eq_some.mp hq').2]
      exact hc'
    · rw [push_elementSize]
  · have hfull : q.push (load src 0 r.elementSize.toNat) = none := by
      rw [BoundedFifo.push_eq_none]
      have hlen := hc.length_lt
      omega
    refine ⟨r, q, [.code (-1)], ?_, ?_, hc, rfl⟩
    · simp [ring, hp.2 hroom]
    · simp [fifo, hfull]

theorem sameQueue_pop {r : CircularBufferPow2} {q : BoundedFifo (List Byte) (2 ^ k - 1)}
    (h : SameQueue (s := s) r q) : (front r).map (element r) = q.front ∧
      SameQueue (s := s) (pop r) q.pop := by
  obtain ⟨hc, rfl⟩ := h
  refine ⟨?_, pop_spec hc, by rw [pop_elementSize]⟩
  cases hq : q.items with
  | nil =>
    rw [hq] at hc
    simp [front_nil hc, BoundedFifo.front, hq]
  | cons e rest =>
    rw [hq] at hc
    obtain ⟨hf, he⟩ := front_cons hc
    simp [hf, he, BoundedFifo.front, hq]

theorem sameQueue_step (r : CircularBufferPow2) (q : BoundedFifo (List Byte) (2 ^ k - 1)) (c : Call)
    (h : SameQueue (s := s) r q) : ∃ r' q' seen, ring r c = some (r', seen) ∧
      fifo s q c = some (q', seen) ∧ SameQueue (s := s) r' q' := by
  have hc := h.1
  cases c with
  | push src => exact sameQueue_push h src
  | front => exact ⟨r, q, _, rfl, by simp [fifo, (sameQueue_pop h).1], h⟩
  | pop =>
    refine ⟨pop r, q.pop, _, rfl, ?_, (sameQueue_pop h).2⟩
    simp only [fifo, ← (sameQueue_pop h).1]
    cases front r <;> rfl
  | clear => exact ⟨clear r, .empty, [], rfl, rfl, clear_spec hc, h.2⟩
  | size => exact ⟨r, q, _, rfl, by simp [fifo, size_spec hc], h⟩
  | space => exact ⟨r, q, _, rfl, by simp [fifo, space_spec hc, BoundedFifo.space], h⟩
  | empty =>
    have he : empty r = q.items.isEmpty := by
      rw [Bool.eq_iff_iff, empty_spec hc, List.isEmpty_iff]
    exact ⟨r, q, _, rfl, by simp [fifo, he], h⟩

/-- In an ideal queue elements leave in push order, each at most once, and before
everything still stored; `clear` is the only way to lose one. -/
theorem fifo_order {bound : ℕ} {q : BoundedFifo (List Byte) bound} {tr : List Seen}
    (h : Reaches (fifo s) (.empty : BoundedFifo (List Byte) bound) q tr) :
    (left tr ++ q.items).Sublist (accepted tr) := by
  refine Reaches.invariant (I := fun q tr => (left tr ++ q.items).Sublist (accepted tr)) ?_ ?_ h
  · simp [left, accepted]
  · intro q tr c q' seen ih hs
    cases c with
    | push src =>
      simp only [fifo] at hs
      split at hs
      · next p hp =>
        obtain ⟨rfl, rfl⟩ := by simpa using hs
        have hsub := ih.append (List.Sublist.refl [load src 0 s])
        simpa [(BoundedFifo.push_eq_some.mp hp).2, accepted, left] using hsub
      · obtain ⟨rfl, rfl⟩ := by simpa using hs
        simpa [accepted, left] using ih
    | pop =>
      obtain ⟨rfl, rfl⟩ := by simpa [fifo] using hs
      cases hq : q.items with
      | nil => simpa [accepted, left, BoundedFifo.front, hq] using ih
      | cons e rest => simpa [accepted, left, BoundedFifo.front, hq] using ih
    | clear =>
      obtain ⟨rfl, rfl⟩ := by simpa [fifo] using hs
      have hsub := (List.sublist_append_left (left tr) q.items).trans ih
      simpa [accepted, left] using hsub
    | front | size | space | empty =>
      obtain ⟨rfl, rfl⟩ := by simpa [fifo] using hs
      simpa [accepted, left] using ih

end Simulation

/-- For every element size and every power of two that fits the `int` indices,
`init` succeeds and from then on no sequence of calls tells the ring from an ideal
queue of `2 ^ k - 1` elements. -/
theorem ring_refines_fifo (kmalloc : SizeT → Option Mem) (r : CircularBufferPow2)
    (elementSize numElements : SizeT) (block : Mem) (k : ℕ) (calls : List Call)
    (hpow : numElements.toNat = 2 ^ k) (hint : k ≤ 31)
    (hbytes : numElements.toNat * elementSize.toNat < 2 ^ 64)
    (hblock : kmalloc (numElements * elementSize) = some block) :
    ∃ r₀ r' q tr, init kmalloc r elementSize numElements = (0, r₀) ∧
      exec ring r₀ calls = some (r', tr) ∧
      exec (fifo elementSize.toNat) (.empty : BoundedFifo (List Byte) (2 ^ k - 1)) calls =
        some (q, tr) ∧
      Contents r' k q.items ∧ (left tr ++ q.items).Sublist (accepted tr) := by
  rw [hpow] at hbytes
  obtain ⟨r₀, hinit, hc, hsize⟩ := init_spec r hpow hint hbytes hblock
  have h₀ : SameQueue (k := k) (s := elementSize.toNat) r₀ .empty := ⟨hc, by rw [hsize]⟩
  obtain ⟨r', q, tr, hr, hq, h'⟩ := exec_of_simulation sameQueue_step calls r₀ .empty h₀
  exact ⟨r₀, r', q, tr, hinit, hr, hq, h'.1, fifo_order (Reaches.of_exec hq)⟩

/-- Two pushes into a ring of two slots, then a `front` and a `pop`. -/
theorem ring_refines_fifo_two :
    ∃ r₀ r' q tr, init (fun _ => some null) default 16#64 2#64 = (0, r₀) ∧
      exec ring r₀ [.push null, .push null, .front, .pop] = some (r', tr) ∧
      exec (fifo 16) (.empty : BoundedFifo (List Byte) (2 ^ 1 - 1))
        [.push null, .push null, .front, .pop] = some (q, tr) ∧
      Contents r' 1 q.items ∧ (left tr ++ q.items).Sublist (accepted tr) :=
  ring_refines_fifo (fun _ => some null) default 16#64 2#64 null 1 _ rfl (by decide) (by decide) rfl

end LinuxOddsAndEnds.CircBufferPow2
