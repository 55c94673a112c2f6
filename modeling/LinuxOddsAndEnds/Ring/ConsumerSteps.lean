import LinuxOddsAndEnds.Ring.CircBufferPow2Contents

/-!
# The consuming side, one access at a time

`do_work` takes an element by `front`, a `memcpy` through the returned pointer and
`pop`. Here each read of `head` or `tail`, the copy and the store to `tail` is a step
of its own, with the locals of the source as parameters of the program point, so that
a producer may run between any two of them.
-/

namespace LinuxOddsAndEnds.CircBufferPow2

open Foundation

/-- Where the consumer is; `ref` is the pointer that `front` returned and `event`
the local copy. -/
inductive ConsumerPc where
  | front
  | frontHead (tail : CInt)
  | copy (ref : ℕ)
  | pop (ref : ℕ) (event : List Byte)
  | popHead (ref : ℕ) (event : List Byte) (tail : CInt)
  | popWrite (ref : ℕ) (event : List Byte) (tail : CInt)
  | popReread (ref : ℕ) (event : List Byte)
  deriving DecidableEq

/-- How a step ends: at another point, at another point after the store to `tail`, with
`NULL` from `front`, or with the whole element taken. `advanced` is `false` when `pop`
found the ring empty. -/
inductive Outcome where
  | at (pc : ConsumerPc)
  | released (pc : ConsumerPc) (event : List Byte)
  | null
  | taken (ref : ℕ) (event : List Byte) (advanced : Bool)

/-- One step of `front`, the copy, or `pop`. -/
def consume (r : CircularBufferPow2) : ConsumerPc → CircularBufferPow2 × Outcome
  | .front => (r, .at (.frontHead r.tail))
  | .frontHead tail =>
    if circCnt r.head tail r.capacity ≠ 0#64 then (r, .at (.copy (slotOffset r tail)))
    else (r, .null)
  | .copy ref => (r, .at (.pop ref (element r ref)))
  | .pop ref event => (r, .at (.popHead ref event r.tail))
  | .popHead ref event tail =>
    if circCnt r.head tail r.capacity ≠ 0#64 then (r, .at (.popWrite ref event tail))
    else (r, .taken ref event false)
  | .popWrite ref event tail =>
    ({ r with tail := nextIndex tail r.capacity }, .released (.popReread ref event) event)
  | .popReread ref event => (r, .taken ref event true)

/-- The slot that the consumer holds: `front` returned it and `pop` did not release it yet. -/
def ConsumerPc.held : ConsumerPc → Option ℕ
  | .copy ref | .pop ref _ | .popHead ref _ _ | .popWrite ref _ _ => some ref
  | .front | .frontHead _ | .popReread _ _ => none

/-- The element that is released and not yet handed on. -/
def ConsumerPc.inHand : ConsumerPc → List (List Byte)
  | .popReread _ event => [event]
  | .front | .frontHead _ | .copy _ | .pop _ _ | .popHead _ _ _ | .popWrite _ _ _ => []

/-- What the consumer's locals say about the stored elements. A stale `head` does not
occur, and the local `tail` is current since only the consumer stores to it. -/
def ConsumerOk (r : CircularBufferPow2) (q : List (List Byte)) : ConsumerPc → Prop
  | .front | .popReread _ _ => True
  | .frontHead tail => tail = r.tail
  | .copy ref => q ≠ [] ∧ ref = slotOffset r r.tail
  | .pop ref event => q.head? = some event ∧ ref = slotOffset r r.tail
  | .popHead ref event tail | .popWrite ref event tail =>
    q.head? = some event ∧ ref = slotOffset r r.tail ∧ tail = r.tail

theorem ConsumerOk.held_eq {r : CircularBufferPow2} {q : List (List Byte)} {pc : ConsumerPc}
    {ref : ℕ} (h : ConsumerOk r q pc) (hr : pc.held = some ref) :
    q ≠ [] ∧ ref = slotOffset r r.tail := by
  have hne : ∀ {event}, q.head? = some event → q ≠ [] := by
    rintro event he rfl
    simp at he
  cases pc with
  | front | frontHead | popReread => simp [ConsumerPc.held] at hr
  | copy r' =>
    obtain rfl := by simpa [ConsumerPc.held] using hr
    exact h
  | pop r' event =>
    obtain rfl := by simpa [ConsumerPc.held] using hr
    exact ⟨hne h.1, h.2⟩
  | popHead r' event tail | popWrite r' event tail =>
    obtain rfl := by simpa [ConsumerPc.held] using hr
    exact ⟨hne h.1, h.2.1⟩

/-- A producer may copy, publish and move on at any point: it keeps `tail` and extends
the queue at its end. -/
theorem ConsumerOk.extend {r r' : CircularBufferPow2} {q : List (List Byte)} {pc : ConsumerPc}
    (h : ConsumerOk r q pc) (htail : r'.tail = r.tail) (hsize : r'.elementSize = r.elementSize)
    (more : List (List Byte)) : ConsumerOk r' (q ++ more) pc := by
  have hslot : slotOffset r' r.tail = slotOffset r r.tail := by simp [slotOffset, hsize]
  cases pc with
  | front | popReread => trivial
  | frontHead tail => exact h.trans htail.symm
  | copy ref => simp [ConsumerOk, htail, hslot, h.1, h.2]
  | pop ref event => simp [ConsumerOk, htail, hslot, h.1, h.2]
  | popHead ref event tail | popWrite ref event tail =>
    simp [ConsumerOk, htail, hslot, h.1, h.2.1, h.2.2]

theorem ConsumerOk.frame {r r' : CircularBufferPow2} {q : List (List Byte)} {pc : ConsumerPc}
    (h : ConsumerOk r q pc) (htail : r'.tail = r.tail) (hsize : r'.elementSize = r.elementSize) :
    ConsumerOk r' q pc := by
  simpa using h.extend htail hsize []

/-- What one step of the consumer does to the ring, to what it stores and to the
element in the consumer's hand. -/
theorem consume_spec {r : CircularBufferPow2} {k : ℕ} {q : List (List Byte)} {pc : ConsumerPc}
    (hc : Contents r k q) (h : ConsumerOk r q pc) :
    match consume r pc with
    | (r', .at pc') => r' = r ∧ ConsumerOk r q pc' ∧ pc.inHand = [] ∧ pc'.inHand = []
    | (r', .released pc' event) => pc.inHand = [] ∧ pc'.inHand = [event] ∧
        ∃ q', q = event :: q' ∧ Contents r' k q' ∧ ConsumerOk r' q' pc' ∧
          r' = { r with tail := r'.tail }
    | (r', .null) => r' = r ∧ q = [] ∧ pc.inHand = []
    | (r', .taken _ event advanced) => r' = r ∧ pc.inHand = [event] ∧ advanced = true := by
  cases pc with
  | front => exact ⟨rfl, rfl, rfl, rfl⟩
  | frontHead tail =>
    obtain rfl : tail = r.tail := h
    simp only [consume]
    by_cases hq : q = []
    · have hz := mt hc.circCnt_ne_zero.mp (not_not.mpr hq)
      simp only [if_neg hz, true_and]
      exact ⟨hq, rfl⟩
    · simp only [if_pos (hc.circCnt_ne_zero.mpr hq), true_and]
      exact ⟨⟨hq, rfl⟩, rfl, rfl⟩
  | copy ref =>
    obtain ⟨hq, rfl⟩ := h
    obtain ⟨e, q, rfl⟩ := List.exists_cons_of_ne_nil hq
    exact ⟨rfl, ⟨by simp [hc.oldest], rfl⟩, rfl, rfl⟩
  | pop ref event => exact ⟨rfl, ⟨h.1, h.2, rfl⟩, rfl, rfl⟩
  | popHead ref event tail =>
    obtain ⟨he, href, rfl⟩ := h
    have hq : q ≠ [] := by
      rintro rfl
      simp at he
    simp only [consume, if_pos (hc.circCnt_ne_zero.mpr hq), true_and]
    exact ⟨⟨he, href, rfl⟩, rfl, rfl⟩
  | popWrite ref event tail =>
    obtain ⟨he, -, rfl⟩ := h
    obtain ⟨q', rfl⟩ : ∃ q', q = event :: q' := by
      cases q with
      | nil => simp at he
      | cons e q' => exact ⟨q', by simpa using he⟩
    exact ⟨rfl, rfl, q', rfl, hc.advance, trivial, rfl⟩
  | popReread ref event => exact ⟨rfl, rfl, rfl⟩

def consumeTimes : ℕ → CircularBufferPow2 → ConsumerPc → CircularBufferPow2 × Outcome
  | 0, r, pc => (r, .at pc)
  | n + 1, r, pc =>
    match consume r pc with
    | (r', .at pc') | (r', .released pc' _) => consumeTimes n r' pc'
    | out => out

theorem consumeTimes_front (r : CircularBufferPow2) :
    consumeTimes 2 r .front =
      match front r with
      | some ref => (r, .at (.copy ref))
      | none => (r, .null) := by
  by_cases h : circCnt r.head r.tail r.capacity ≠ 0#64
  · simp [consumeTimes, consume, front, h]
  · simp only [not_not] at h
    simp [consumeTimes, consume, front, h]

theorem consumeTimes_pop (r : CircularBufferPow2) (ref : ℕ) (event : List Byte) :
    (consumeTimes 4 r (.pop ref event)).1 = pop r := by
  by_cases h : circCnt r.head r.tail r.capacity ≠ 0#64
  · simp [consumeTimes, consume, pop, h]
  · simp only [not_not] at h
    simp [consumeTimes, consume, pop, h]

end LinuxOddsAndEnds.CircBufferPow2
