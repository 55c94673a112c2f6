import LinuxOddsAndEnds.Foundation.Machine
import LinuxOddsAndEnds.Ring.ConsumerSteps

/-!
# One producer and one consumer without a lock

The interrupt handler pushes while the worker repeats `front`, the copy and `pop`.
Every read of `head` or `tail`, every store to them and every element copy is one
step, and the steps of the two parties interleave in any order. The producer alone
stores to `head` and the consumer alone to `tail`, so each party's copy of its own
index is current and its view of the other one errs on the safe side.
-/

namespace LinuxOddsAndEnds.CircBufferPow2.Spsc

open Foundation

/-- Where a `push` of the element behind `src` is. -/
inductive ProducerPc where
  | idle
  | readHead (src : Mem)
  | readTail (src : Mem) (head : CInt)
  | copy (src : Mem) (head : CInt)
  | writeHead (src : Mem) (head : CInt)
  | reread

structure State where
  ring : CircularBufferPow2
  producer : ProducerPc
  consumer : ConsumerPc

inductive Move where
  | call (src : Mem)
  | produce
  | consume

/-- A push is `accepted` when it has read `tail` and found room, and `published` by the
store to `head`; an element is `consumed`, in the copy the consumer made, by the store to
`tail`. `popEmpty` is a `pop` that found nothing to release. -/
inductive Seen where
  | accepted (element : List Byte)
  | rejected
  | published (element : List Byte)
  | consumed (element : List Byte)
  | popEmpty
  deriving DecidableEq

def produce (r : CircularBufferPow2) : ProducerPc → CircularBufferPow2 × ProducerPc × List Seen
  | .idle => (r, .idle, [])
  | .readHead src => (r, .readTail src r.head, [])
  | .readTail src head =>
    if 1#64 ≤ circSpace head r.tail r.capacity then
      (r, .copy src head, [.accepted (load src 0 r.elementSize.toNat)])
    else (r, .idle, [.rejected])
  | .copy src head =>
    ({ r with buffer := memcpy r.buffer (slotOffset r head) src r.elementSize.toNat },
      .writeHead src head, [])
  | .writeHead src head =>
    ({ r with head := nextIndex head r.capacity }, .reread,
      [.published (load src 0 r.elementSize.toNat)])
  | .reread => (r, .idle, [])

theorem produce_push (r : CircularBufferPow2) (src : Mem) :
    (fun x : CircularBufferPow2 × ProducerPc => ((produce x.1 x.2).1, (produce x.1 x.2).2.1))^[5]
      (r, .readHead src) = ((push r src).2, .idle) := by
  by_cases h : 1#64 ≤ circSpace r.head r.tail r.capacity
  · simp [produce, push, h]
  · simp [produce, push, h]

/-- The consumer starts over after `NULL` and after each element. -/
def afterConsume : CircularBufferPow2 × Outcome → CircularBufferPow2 × ConsumerPc × List Seen
  | (r, .at pc) => (r, pc, [])
  | (r, .released pc event) => (r, pc, [.consumed event])
  | (r, .null) => (r, .front, [])
  | (r, .taken _ _ advanced) => (r, .front, if advanced then [] else [.popEmpty])

def spsc : Machine State Move Seen
  | s, .call src =>
    match s.producer with
    | .idle => some ({ s with producer := .readHead src }, [])
    | _ => none
  | s, .produce =>
    let out := produce s.ring s.producer
    some ({ s with ring := out.1, producer := out.2.1 }, out.2.2)
  | s, .consume =>
    let out := afterConsume (CircBufferPow2.consume s.ring s.consumer)
    some ({ s with ring := out.1, consumer := out.2.1 }, out.2.2)

def accepted (tr : List Seen) : List (List Byte) :=
  tr.filterMap fun | .accepted e => some e | _ => none

def published (tr : List Seen) : List (List Byte) :=
  tr.filterMap fun | .published e => some e | _ => none

def consumed (tr : List Seen) : List (List Byte) :=
  tr.filterMap fun | .consumed e => some e | _ => none

@[simp] theorem published_append (tr tr' : List Seen) :
    published (tr ++ tr') = published tr ++ published tr' := List.filterMap_append

@[simp] theorem consumed_append (tr tr' : List Seen) :
    consumed (tr ++ tr') = consumed tr ++ consumed tr' := List.filterMap_append

def ProducerPc.inFlight (s : ℕ) : ProducerPc → List (List Byte)
  | .copy src _ | .writeHead src _ => [load src 0 s]
  | .idle | .readHead _ | .readTail _ _ | .reread => []

/-- What the producer's locals say about the ring. -/
def ProducerOk (r : CircularBufferPow2) (k : ℕ) (q : List (List Byte)) : ProducerPc → Prop
  | .idle | .readHead _ | .reread => True
  | .readTail _ head => head = r.head
  | .copy _ head => head = r.head ∧ q.length + 1 < 2 ^ k
  | .writeHead src head => head = r.head ∧ q.length + 1 < 2 ^ k ∧
      load r.buffer (slotOffset r r.head) r.elementSize.toNat = load src 0 r.elementSize.toNat

theorem ProducerOk.release {r : CircularBufferPow2} {k : ℕ} {e : List Byte} {q : List (List Byte)}
    {pc : ProducerPc} (h : ProducerOk r k (e :: q) pc) (tail : CInt) :
    ProducerOk { r with tail := tail } k q pc := by
  cases pc with
  | idle | readHead | reread => trivial
  | readTail src head => exact h
  | copy src head =>
    obtain ⟨hh, hq⟩ := h
    exact ⟨hh, by simp only [List.length_cons] at hq; omega⟩
  | writeHead src head =>
    obtain ⟨hh, hq, hl⟩ := h
    exact ⟨hh, by simp only [List.length_cons] at hq; omega, hl⟩

/-- The protocol invariant: `q` is what the ring stores. -/
structure Inv (k : ℕ) (s : State) (tr : List Seen) (q : List (List Byte)) : Prop where
  contents : Contents s.ring k q
  producer : ProducerOk s.ring k q s.producer
  consumer : ConsumerOk s.ring q s.consumer
  published_eq : published tr = consumed tr ++ q
  accepted_eq : accepted tr = published tr ++ s.producer.inFlight s.ring.elementSize.toNat
  pops : Seen.popEmpty ∉ tr

variable {k : ℕ} {s : State} {tr : List Seen} {q : List (List Byte)}

theorem inv_produce (h : Inv k s tr q) : ∃ q', Inv k
    { s with ring := (produce s.ring s.producer).1, producer := (produce s.ring s.producer).2.1 }
    (tr ++ (produce s.ring s.producer).2.2) q' := by
  obtain ⟨r, pc, cpc⟩ := s
  obtain ⟨hc, hp, hk, hpub, hacc, hpops⟩ := h
  cases pc with
  | idle => exact ⟨q, hc, hp, hk, by simpa [produce] using hpub, by simpa [produce] using hacc,
      by simpa [produce] using hpops⟩
  | readHead src => exact ⟨q, hc, rfl, hk, by simpa [produce] using hpub,
      by simpa [produce, ProducerPc.inFlight] using hacc, by simpa [produce] using hpops⟩
  | readTail src head =>
    obtain rfl : head = r.head := hp
    simp only [produce]
    split_ifs with hroom
    · exact ⟨q, hc, ⟨rfl, hc.circSpace_pos.mp hroom⟩, hk,
        by simpa [published, consumed] using hpub,
        by simpa [accepted, published, ProducerPc.inFlight] using hacc, by simpa using hpops⟩
    · exact ⟨q, hc, trivial, hk, by simpa [published, consumed] using hpub,
        by simpa [accepted, published, ProducerPc.inFlight] using hacc, by simpa using hpops⟩
  | copy src head =>
    obtain ⟨hh, hroom⟩ := hp
    obtain rfl : head = r.head := hh
    exact ⟨q, hc.copy src, ⟨rfl, hroom, load_memcpy_same _ _ _ _⟩, hk.frame rfl rfl,
      by simpa [produce] using hpub, by simpa [produce, ProducerPc.inFlight] using hacc,
      by simpa [produce] using hpops⟩
  | writeHead src head =>
    obtain ⟨hh, hroom, hl⟩ := hp
    obtain rfl : head = r.head := hh
    refine ⟨q ++ [load src 0 r.elementSize.toNat], hc.publish hroom hl, trivial,
      hk.extend rfl rfl _, ?_, ?_, ?_⟩
    · rw [published_append, consumed_append, hpub]
      simp [produce, published, consumed]
    · simpa [produce, accepted, published, ProducerPc.inFlight] using hacc
    · simpa [produce] using hpops
  | reread => exact ⟨q, hc, trivial, hk, by simpa [produce] using hpub,
      by simpa [produce, ProducerPc.inFlight] using hacc, by simpa [produce] using hpops⟩

theorem inv_consume (h : Inv k s tr q) : ∃ q', Inv k
    { s with ring := (afterConsume (consume s.ring s.consumer)).1
             consumer := (afterConsume (consume s.ring s.consumer)).2.1 }
    (tr ++ (afterConsume (consume s.ring s.consumer)).2.2) q' := by
  obtain ⟨r, pc, cpc⟩ := s
  obtain ⟨hc, hp, hk, hpub, hacc, hpops⟩ := h
  have hspec := consume_spec hc hk
  dsimp only
  rcases hout : consume r cpc with ⟨r', _ | _ | _ | _⟩ <;> rw [hout] at hspec
  · obtain ⟨rfl, hk', -⟩ := hspec
    exact ⟨q, hc, hp, hk', by simpa [afterConsume] using hpub, by simpa [afterConsume] using hacc,
      by simpa [afterConsume] using hpops⟩
  · obtain ⟨-, -, q', rfl, hc', hk', hr⟩ := hspec
    refine ⟨q', hc', ?_, hk', ?_, ?_, ?_⟩
    · rw [hr]
      exact hp.release _
    · simpa [afterConsume, published, consumed] using hpub
    · rw [hr]
      simpa [afterConsume, accepted, published] using hacc
    · simpa [afterConsume] using hpops
  · obtain ⟨rfl, -⟩ := hspec
    exact ⟨q, hc, hp, trivial, by simpa [afterConsume] using hpub,
      by simpa [afterConsume] using hacc, by simpa [afterConsume] using hpops⟩
  · obtain ⟨rfl, -, rfl⟩ := hspec
    exact ⟨q, hc, hp, trivial, by simpa [afterConsume] using hpub,
      by simpa [afterConsume] using hacc, by simpa [afterConsume] using hpops⟩

theorem inv_of_reaches {r : CircularBufferPow2} (hr : Contents r k [])
    (h : Reaches spsc ⟨r, .idle, .front⟩ s tr) : ∃ q, Inv k s tr q := by
  refine Reaches.invariant (I := fun s tr => ∃ q, Inv k s tr q) ?_ ?_ h
  · exact ⟨[], hr, trivial, trivial, rfl, rfl, by simp⟩
  · rintro s tr a s' seen ⟨q, hi⟩ hs
    cases a with
    | call src =>
      simp only [spsc] at hs
      split at hs
      · next hpc =>
        obtain ⟨rfl, rfl⟩ := by simpa using hs
        have hacc := hi.accepted_eq
        rw [hpc] at hacc
        rw [List.append_nil]
        exact ⟨q, { hi with producer := trivial, accepted_eq := hacc }⟩
      · simp at hs
    | produce =>
      obtain ⟨rfl, rfl⟩ := by simpa [spsc] using hs
      exact inv_produce hi
    | consume =>
      obtain ⟨rfl, rfl⟩ := by simpa [spsc] using hs
      exact inv_consume hi

theorem rejected_full {s' : State} {seen : List Seen} (h : Inv k s tr q)
    (hs : spsc s .produce = some (s', seen)) (hr : Seen.rejected ∈ seen) :
    (accepted tr).length = (consumed tr).length + (2 ^ k - 1) := by
  obtain ⟨r, pc, cpc⟩ := s
  obtain ⟨-, rfl⟩ := by simpa [spsc] using hs
  cases pc with
  | readTail src head =>
    obtain rfl : head = r.head := h.producer
    simp only [produce] at hr
    split_ifs at hr with hroom
    · simp at hr
    · have hfull := mt h.contents.circSpace_pos.mpr hroom
      have hlt := h.contents.length_lt
      have hacc := h.accepted_eq
      simp only [ProducerPc.inFlight, List.append_nil, h.published_eq] at hacc
      rw [hacc, List.length_append]
      omega
  | idle | readHead | copy | writeHead | reread => simp [produce] at hr

/-- Whatever the interleaving: the consumer has taken a prefix of what was published,
hence of what was accepted; the producer never copies into the slot that the consumer
holds; every `pop` after a non-`NULL` `front` advances; and a push is rejected only when
`2 ^ k - 1` accepted elements were unpopped as it read `tail`. -/
theorem spsc_safe (kmalloc : SizeT → Option Mem) (r : CircularBufferPow2)
    (elementSize numElements : SizeT) (block : Mem) (k : ℕ) (s : State) (tr : List Seen)
    (hpow : numElements.toNat = 2 ^ k) (hint : k ≤ 31)
    (hbytes : numElements.toNat * elementSize.toNat < 2 ^ 64)
    (hblock : kmalloc (numElements * elementSize) = some block)
    (h : Reaches spsc ⟨(init kmalloc r elementSize numElements).2, .idle, .front⟩ s tr) :
    consumed tr <+: published tr ∧ published tr <+: accepted tr ∧
      (∀ ref src head, s.consumer.held = some ref → s.producer = .copy src head →
        head ≠ s.ring.tail ∧
          (ref + s.ring.elementSize.toNat ≤ slotOffset s.ring head ∨
            slotOffset s.ring head + s.ring.elementSize.toNat ≤ ref)) ∧
      Seen.popEmpty ∉ tr ∧
      (∀ s' seen, spsc s .produce = some (s', seen) → Seen.rejected ∈ seen →
        (accepted tr).length = (consumed tr).length + (2 ^ k - 1)) := by
  rw [hpow] at hbytes
  obtain ⟨r₀, hinit, hc₀, -⟩ := init_spec r hpow hint hbytes hblock
  rw [hinit] at h
  obtain ⟨q, hi⟩ := inv_of_reaches hc₀ h
  refine ⟨⟨q, hi.published_eq.symm⟩, ⟨_, hi.accepted_eq.symm⟩, ?_, hi.pops, ?_⟩
  · intro ref src head href hpc
    obtain ⟨hq, rfl⟩ := hi.consumer.held_eq href
    have hp := hi.producer
    rw [hpc] at hp
    obtain ⟨rfl, -⟩ := hp
    have hne := hi.contents.head_slot_ne hq
    refine ⟨fun he => hne (congrArg BitVec.toNat he), ?_⟩
    rw [hi.contents.slotOffset_eq hi.contents.head_lt,
      hi.contents.slotOffset_eq hi.contents.tail_lt]
    exact slot_disjoint (Ne.symm hne)
  · intro s' seen hs hr
    exact rejected_full hi hs hr

def pushOf (e : Byte) : List Move := .call (fun _ => e) :: List.replicate 5 .produce

/-- In a ring of four slots the consumer holds the first of three elements during two pushes.
It releases it, a fourth element fills the ring, and a fifth is rejected. -/
theorem spsc_safe_four :
    (∃ s tr src ref,
      exec spsc ⟨(init (fun _ => some null) default 1#64 4#64).2, .idle, .front⟩
        (pushOf 1 ++ List.replicate 2 Move.consume ++ pushOf 2 ++
          [Move.call (fun _ => 3), .produce, .produce]) = some (s, tr) ∧
      s.consumer.held = some ref ∧ s.producer = .copy src 2#32 ∧ 2#32 ≠ s.ring.tail) ∧
    ∃ s tr,
      exec spsc ⟨(init (fun _ => some null) default 1#64 4#64).2, .idle, .front⟩
        (pushOf 1 ++ List.replicate 2 Move.consume ++ pushOf 2 ++ pushOf 3 ++
          List.replicate 5 Move.consume ++ pushOf 4 ++ [Move.call (fun _ => 5), .produce]) =
            some (s, tr) ∧
      consumed tr = [[1]] ∧ consumed tr <+: published tr ∧
      accepted tr = [[1], [2], [3], [4]] ∧ published tr <+: accepted tr ∧
      Seen.popEmpty ∉ tr ∧
      ∃ s', spsc s .produce = some (s', [.rejected]) ∧
        (accepted tr).length = (consumed tr).length + (2 ^ 2 - 1) := by
  constructor
  · have hrun : exec spsc ⟨(init (fun _ => some null) default 1#64 4#64).2, .idle, .front⟩
        (pushOf 1 ++ List.replicate 2 Move.consume ++ pushOf 2 ++
          [Move.call (fun _ => 3), .produce, .produce]) = some (_, _) := rfl
    have h := spsc_safe (fun _ => some null) default 1#64 4#64 null 2 _ _ rfl (by decide)
      (by decide) rfl (Reaches.of_exec hrun)
    exact ⟨_, _, _, _, hrun, rfl, rfl, (h.2.2.1 _ _ _ rfl rfl).1⟩
  · have hrun : exec spsc ⟨(init (fun _ => some null) default 1#64 4#64).2, .idle, .front⟩
        (pushOf 1 ++ List.replicate 2 Move.consume ++ pushOf 2 ++ pushOf 3 ++
          List.replicate 5 Move.consume ++ pushOf 4 ++ [Move.call (fun _ => 5), .produce]) =
            some (_, _) := rfl
    have h := spsc_safe (fun _ => some null) default 1#64 4#64 null 2 _ _ rfl (by decide)
      (by decide) rfl (Reaches.of_exec hrun)
    exact ⟨_, _, hrun, rfl, h.1, rfl, h.2.1, h.2.2.2.1, _, rfl,
      h.2.2.2.2 _ _ rfl (List.mem_singleton_self _)⟩

end LinuxOddsAndEnds.CircBufferPow2.Spsc
