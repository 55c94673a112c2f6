import LinuxOddsAndEnds.Foundation.Throughout
import LinuxOddsAndEnds.Ring.CircBufferMod2Refinement

/-!
# Which slots the even-capacity ring touches

Over any sequence of calls `head` counts the accepted pushes modulo the capacity, and
`tail` counts the pops that took something modulo the capacity and one more. So `push`
keeps to the storage, and `front` leaves it between the pop that moves `tail` past the
last slot and the next one.
-/

namespace LinuxOddsAndEnds.CircBufferMod2

open Foundation
open CircBufferPow2 (Call null)

/-- The slots that calls write and answer, and what resets or moves the indices. -/
inductive SlotSeen where
  | copied (slot : BitVec 64)
  | answered (slot : BitVec 64)
  | released
  | cleared
  deriving DecidableEq

/-- The source under a sequence of calls, seen by the slots. -/
def slots : Machine CircularBufferMod2 Call SlotSeen
  | r, .push src => some ((push r src).2, if (push r src).1 = 0 then [.copied r.head] else [])
  | r, .front => some (r, if (front r).isSome then [.answered r.tail] else [])
  | r, .pop => some (pop r, if size r ≠ 0#64 then [.released] else [])
  | r, .clear => some (clear r, [.cleared])
  | r, .size => some (r, [])
  | r, .space => some (r, [])
  | r, .empty => some (r, [])

/-- The elements copied, and the elements released, since the indices were reset. -/
def countAfter (counts : ℕ × ℕ) : SlotSeen → ℕ × ℕ
  | .copied _ => (counts.1 + 1, counts.2)
  | .answered _ => counts
  | .released => (counts.1, counts.2 + 1)
  | .cleared => (0, 0)

def copies (tr : List SlotSeen) : ℕ := (tr.foldl countAfter (0, 0)).1

def releases (tr : List SlotSeen) : ℕ := (tr.foldl countAfter (0, 0)).2

/-- The index, an `int64_t`, is one of `n` slots. -/
def InStorage (n : ℕ) (slot : BitVec 64) : Prop := 0 ≤ slot.toInt ∧ slot.toInt < n

def SlotInside (n : ℕ) (_ : List SlotSeen) : SlotSeen → Prop
  | .copied slot => InStorage n slot
  | .answered slot => InStorage n slot
  | .released => True
  | .cleared => True

/-- The slot answered is asked for at a turn at which `tail` stands in the storage. Where the
capacity exceeds `int64_t`, both indices must also be short of its end. -/
def TurnInside (n : ℕ) (pre : List SlotSeen) : SlotSeen → Prop
  | .copied _ => copies pre % n < 2 ^ 63
  | .answered _ => releases pre % (n + 1) < min n (2 ^ 63)
  | .released => True
  | .cleared => True

instance (n : ℕ) (slot : BitVec 64) : Decidable (InStorage n slot) :=
  inferInstanceAs (Decidable (_ ∧ _))

instance (n : ℕ) (pre : List SlotSeen) : ∀ o, Decidable (SlotInside n pre o)
  | .copied slot | .answered slot => inferInstanceAs (Decidable (InStorage n slot))
  | .released | .cleared => isTrue trivial

instance (n : ℕ) (pre : List SlotSeen) : ∀ o, Decidable (TurnInside n pre o)
  | .copied _ | .answered _ => inferInstanceAs (Decidable (_ < _))
  | .released | .cleared => isTrue trivial

/-- Every slot is the one that the counts tell. -/
def SlotCounted (n : ℕ) (pre : List SlotSeen) : SlotSeen → Prop
  | .copied slot => slot.toNat = copies pre % n
  | .answered slot => slot.toNat = releases pre % (n + 1)
  | .released => True
  | .cleared => True

section Counting

variable {n : ℕ} {r r' : CircularBufferMod2} {tr seen : List SlotSeen}

@[simp] theorem copies_concat (tr : List SlotSeen) (o : SlotSeen) :
    copies (tr ++ [o]) = (countAfter (copies tr, releases tr) o).1 := by
  rw [copies, List.foldl_append]
  rfl

@[simp] theorem releases_concat (tr : List SlotSeen) (o : SlotSeen) :
    releases (tr ++ [o]) = (countAfter (copies tr, releases tr) o).2 := by
  rw [releases, List.foldl_append]
  rfl

/-- The fields of the ring after a history, and the history itself. -/
structure Counts (n : ℕ) (r : CircularBufferMod2) (tr : List SlotSeen) : Prop where
  capacity : r.capacity.toNat = n
  mask : r.size = 0#64
  pos : 0 < n
  head_eq : r.head.toNat = copies tr % n
  tail_eq : r.tail.toNat = releases tr % (n + 1)
  counted : Judged (SlotCounted n) tr

namespace Counts

theorem capacity_lt (h : Counts n r tr) : n < 2 ^ 64 := by
  rw [← h.capacity]
  exact r.capacity.isLt

theorem toNat_head_next (h : Counts n r tr) :
    (if r.head + 1#64 = r.capacity then 0#64 else r.head + 1#64).toNat = (copies tr + 1) % n := by
  have hhead : r.head.toNat < n := h.head_eq ▸ Nat.mod_lt _ h.pos
  have hcap := h.capacity_lt
  have hsucc : (r.head + 1#64).toNat = r.head.toNat + 1 := by
    rw [BitVec.toNat_add, BitVec.toNat_ofNat]
    omega
  rw [succ_mod_eq _ h.pos, ← h.head_eq]
  simp only [apply_ite BitVec.toNat, BitVec.toNat_eq, hsucc, h.capacity, BitVec.toNat_ofNat,
    Nat.zero_mod]

/-- A wrap one step later counts modulo one more. -/
theorem toNat_tail_next (h : Counts n r tr) :
    (if r.tail = r.capacity then 0#64 else r.tail + 1#64).toNat = (releases tr + 1) % (n + 1) := by
  have htail : r.tail.toNat < n + 1 := h.tail_eq ▸ Nat.mod_lt _ n.succ_pos
  have hcap := h.capacity_lt
  rw [succ_mod_eq _ n.succ_pos, ← h.tail_eq]
  simp only [apply_ite BitVec.toNat, BitVec.toNat_eq, h.capacity, BitVec.toNat_add,
    BitVec.toNat_ofNat]
  split_ifs <;> omega

theorem step {c : Call} (h : Counts n r tr) (hs : slots r c = some (r', seen)) :
    Counts n r' (tr ++ seen) := by
  cases c with
  | push src =>
    obtain ⟨rfl, rfl⟩ := Prod.mk.inj (Option.some.inj hs)
    by_cases hspace : space r = 0#64
    · have hpush : push r src = (-1, r) := if_neg (not_not.mpr hspace)
      simpa [hpush] using h
    · simp only [push, if_pos (show space r ≠ 0#64 from hspace), if_true]
      exact { h with
        head_eq := by rw [h.toNat_head_next, copies_concat, countAfter]
        tail_eq := by rw [releases_concat, countAfter, h.tail_eq]
        counted := h.counted.append ⟨h.head_eq, trivial⟩ }
  | front =>
    obtain ⟨rfl, rfl⟩ := Prod.mk.inj (Option.some.inj hs)
    split_ifs
    · exact { h with
        head_eq := by rw [copies_concat, countAfter, h.head_eq]
        tail_eq := by rw [releases_concat, countAfter, h.tail_eq]
        counted := h.counted.append ⟨h.tail_eq, trivial⟩ }
    · rwa [List.append_nil]
  | pop =>
    obtain ⟨rfl, rfl⟩ := Prod.mk.inj (Option.some.inj hs)
    by_cases hsize : size r = 0#64
    · simpa [pop, hsize] using h
    · have htail := h.toNat_tail_next
      rw [pop, if_pos hsize, if_pos hsize]
      exact { h with
        head_eq := by rw [copies_concat, countAfter, h.head_eq]
        tail_eq := by rw [htail, releases_concat, countAfter]
        counted := h.counted.append ⟨trivial, trivial⟩ }
  | clear =>
    obtain ⟨rfl, rfl⟩ := Prod.mk.inj (Option.some.inj hs)
    exact { h with
      head_eq := by rw [copies_concat, countAfter, Nat.zero_mod]; rfl
      tail_eq := by rw [releases_concat, countAfter, Nat.zero_mod]; rfl
      counted := h.counted.append ⟨trivial, trivial⟩ }
  | size | space | empty =>
    obtain ⟨rfl, rfl⟩ := Prod.mk.inj (Option.some.inj hs)
    rwa [List.append_nil]

end Counts

theorem inStorage_iff {slot : BitVec 64} : InStorage n slot ↔ slot.toNat < min n (2 ^ 63) := by
  have hslot := slot.isLt
  rw [InStorage, BitVec.toInt_eq_toNat_cond]
  split_ifs <;> omega

/-- Where the slots follow the counts, the counts tell whether they lie inside. -/
theorem slotInside_iff_turnInside (hn : 0 < n) {pre : List SlotSeen} {o : SlotSeen}
    (h : SlotCounted n pre o) : SlotInside n pre o ↔ TurnInside n pre o := by
  cases o with
  | copied slot =>
    have hslot : slot.toNat = copies pre % n := h
    have hlt := Nat.mod_lt (copies pre) hn
    rw [SlotInside, TurnInside, inStorage_iff, hslot, lt_min_iff, and_iff_right hlt]
  | answered slot =>
    have hslot : slot.toNat = releases pre % (n + 1) := h
    rw [SlotInside, TurnInside, inStorage_iff, hslot]
  | released | cleared => exact Iff.rfl

end Counting

/-- From a successful `init` on, all slots written and answered lie in the storage exactly if
every `front` that answers comes when the elements popped since the last reset, modulo the
capacity and one more, are fewer than the capacity. -/
theorem slots_inside_iff (kmalloc : SizeT → Option Mem) (r : CircularBufferMod2)
    (elementSize numElements : SizeT) (hpos : numElements ≠ 0#64)
    (hinit : (init kmalloc r elementSize numElements).1 = 0) (calls : List Call) :
    Throughout slots (fun _ tr => Judged (SlotInside numElements.toNat) tr)
        (init kmalloc r elementSize numElements).2 calls ↔
      Throughout slots (fun _ tr => Judged (TurnInside numElements.toNat) tr)
        (init kmalloc r elementSize numElements).2 calls := by
  have hn : 0 < numElements.toNat := by
    rw [Nat.pos_iff_ne_zero]
    exact fun hz => hpos (BitVec.eq_of_toNat_eq hz)
  have hstart : Counts numElements.toNat (init kmalloc r elementSize numElements).2 [] := by
    unfold init at hinit ⊢
    split_ifs at hinit ⊢ with hodd
    · cases hinit
    · cases hblock : kmalloc (numElements * elementSize) with
      | none =>
        rw [hblock] at hinit
        cases hinit
      | some block => exact ⟨rfl, rfl, hn, (Nat.zero_mod _).symm, (Nat.zero_mod _).symm, trivial⟩
  have hcounted : ∀ part r' tr, exec slots (init kmalloc r elementSize numElements).2 part =
      some (r', tr) → Judged (SlotCounted numElements.toNat) tr := by
    intro part r' tr hrun
    have hcounts := (Reaches.of_exec hrun).invariant hstart fun _ _ _ _ _ h hs => h.step hs
    exact hcounts.counted
  refine forall_congr' fun part => forall_congr' fun _ => forall_congr' fun r' => ?_
  refine forall_congr' fun tr => forall_congr' fun hrun => ?_
  exact (hcounted part r' tr hrun).congr fun pre o h => slotInside_iff_turnInside hn h

def twoSlots : CircularBufferMod2 := (init (fun _ => some null) default 8#64 2#64).2

/-- One element goes through both slots. -/
theorem slots_inside_once :
    Throughout slots (fun _ tr => Judged (SlotInside 2) tr) twoSlots
      [.push null, .front, .pop, .push null, .front] := by
  refine (slots_inside_iff (fun _ => some null) default 8#64 2#64 (by decide) rfl
    [.push null, .front, .pop, .push null, .front]).mpr ?_
  have hrun : exec slots twoSlots [.push null, .front, .pop, .push null, .front] =
      some (_, [.copied 0, .answered 0, .released, .copied 1, .answered 1]) := rfl
  exact (throughout_judged_iff hrun).mpr (by decide)

/-- After two elements `front` answers the slot behind the storage. -/
theorem front_past_storage :
    ¬Throughout slots (fun _ tr => Judged (SlotInside 2) tr) twoSlots
      [.push null, .pop, .push null, .pop, .front] := by
  have hrun : exec slots twoSlots [.push null, .pop, .push null, .pop, .front] =
      some (_, [.copied 0, .released, .copied 1, .released, .answered 2]) := rfl
  rw [throughout_judged_iff hrun]
  decide

end LinuxOddsAndEnds.CircBufferMod2
