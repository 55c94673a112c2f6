import LinuxOddsAndEnds.Oled.ReadAccounting
import LinuxOddsAndEnds.Ring.CircBufferMod2Contents
import LinuxOddsAndEnds.Rpi3.GpioIrq

/-!
# Accounting of reads, on either board

`gpio_irq_demo_read` over the ring that the module really uses. Its loop is that of
`gpio_oled_irq_read`, and it fails in the same way. The ring adds a failure of its own:
`pop` lets `tail` stand past the last slot, and a read that gets there copies bytes
behind the storage as a record, and then removes none.
-/

namespace LinuxOddsAndEnds.Rpi3

open Foundation CircBufferMod2

structure ReadResult where
  bytesRead : ℤ
  records : List (List Byte)
  ring : CircularBufferMod2

/-- The loop of `gpio_irq_demo_read`, with what is left of `count` and what was read so
far in records. -/
def ringReadLoop (copyToUser : ℕ → Bool) : ℕ → ℕ → CircularBufferMod2 → ReadResult
  | 0, done, ring => ⟨sizeofEventBulkData * done, [], ring⟩
  | left + 1, done, ring =>
    if space ring ≠ 0#64 then
      match front ring with
      | some ref =>
        if copyToUser done then
          let rest := ringReadLoop copyToUser left (done + 1) (pop ring)
          { rest with records := element ring ref :: rest.records }
        else ⟨-1, [], ring⟩
      | none => ⟨-1, [], ring⟩
    else ⟨sizeofEventBulkData * done, [], ring⟩

/-- `gpio_irq_demo_read` over its ring; a read of one byte answers the level of the pin. -/
def ringGpioIrqDemoRead (copyToUser : ℕ → Bool) (count : SizeT) (ring : CircularBufferMod2) :
    ReadResult :=
  if count = 1#64 then ⟨1, [], ring⟩
  else if count.toNat % sizeofEventBulkData = 0 then
    ringReadLoop copyToUser (count.toNat / sizeofEventBulkData) 0 ring
  else ⟨-1, [], ring⟩

/-- The bulk ring as the loop sees it. -/
def bulkRing : Drainable CircularBufferMod2 (List Byte) where
  ready ring := decide (space ring ≠ 0#64)
  front ring := (front ring).map (element ring)
  pop := pop

/-- `tail` is `b` removals away from the end of the storage. -/
def StoresBeforeEnd (n b : ℕ) (ring : CircularBufferMod2) (q : List (List Byte)) : Prop :=
  Contents ring n q ∧ ring.tail.toNat + b = n

theorem bulkRing_viewed (n : ℕ) : Viewed bulkRing (StoresBeforeEnd n) where
  front := by
    rintro b ring q ⟨h, htail⟩
    have ht : ring.tail.toNat < n := by omega
    cases q with
    | nil => simp [bulkRing, front_nil h ht]
    | cons e q => simp [bulkRing, (front_cons h ht).1, (front_cons h ht).2]
  pop := by
    rintro b ring e q ⟨h, htail⟩
    have ht : ring.tail.toNat < n := by omega
    have hc := h.capacity_lt
    have hsize : size ring ≠ 0#64 := by
      rw [h.size_ne_zero, Ne, h.head_eq_tail ht]
      simp
    have hend : ring.tail ≠ ring.capacity := by
      intro he
      rw [BitVec.toNat_eq, h.capacity] at he
      omega
    refine ⟨pop_spec h ht, ?_⟩
    simp only [bulkRing, pop, if_pos hsize, if_neg hend]
    rw [BitVec.toNat_add, BitVec.toNat_ofNat]
    omega
  ready := by
    rintro b ring e q ⟨h, htail⟩
    have ht : ring.tail.toNat < n := by omega
    have hc := h.capacity_lt
    have hne : ring.head.toNat ≠ ring.tail.toNat := by
      rw [Ne, h.head_eq_tail ht]
      simp
    have hend : ring.tail ≠ ring.capacity := by
      intro he
      rw [BitVec.toNat_eq, h.capacity] at he
      omega
    have hpop : pop ring = { ring with tail := ring.tail + 1#64 } := by
      rw [pop, if_pos (h.size_ne_zero.mpr hne), if_neg hend]
    simp only [bulkRing, decide_eq_true_eq]
    rw [(pop_spec h ht).space_ne_zero, hpop]
    dsimp only
    rw [BitVec.toNat_add, BitVec.toNat_ofNat]
    omega

theorem ringReadLoop_eq_drain (copyToUser : ℕ → Bool) (n : ℕ) :
    ∀ (done : ℕ) (ring : CircularBufferMod2), ringReadLoop copyToUser n done ring =
      ⟨answerOf sizeofEventBulkData (-1) (bulkRing.drain copyToUser n done ring) done,
        (bulkRing.drain copyToUser n done ring).records,
        (bulkRing.drain copyToUser n done ring).rest⟩ := by
  induction n with
  | zero =>
    intro done ring
    simp [ringReadLoop, Drainable.drain, answerOf]
  | succ n ih =>
    intro done ring
    rw [ringReadLoop, Drainable.drain]
    by_cases hspace : space ring = 0#64
    · simp [hspace, bulkRing, answerOf]
    · cases hfront : front ring with
      | none => simp [hspace, hfront, bulkRing, answerOf]
      | some ref =>
        by_cases hcopy : copyToUser done = true
        · have hready : bulkRing.ready ring = true := by simp [bulkRing, hspace]
          have hrecord : bulkRing.front ring = some (element ring ref) := by
            simp [bulkRing, hfront]
          simp only [hready, hrecord, hcopy, if_true, if_pos hspace, ih]
          rw [answerOf_cons]
          rfl
        · simp [hspace, hfront, hcopy, bulkRing, answerOf]

section PastTheEnd

variable {ring : CircularBufferMod2} {n : ℕ} {q q' : List (List Byte)}

theorem length_unique (h : Contents ring n q) (h' : Contents ring n q') :
    q.length = q'.length := by
  rw [h.length_eq, h'.length_eq]

theorem head_eq_length (h : Contents ring n q) (ht : ring.tail.toNat = n) :
    ring.head.toNat = q.length := by
  rw [h.head_eq, place, if_neg (by omega), ht, Nat.add_sub_cancel_left]

/-- With `tail` past the last slot the ring always looks as if it stored a record. -/
theorem front_pastEnd (h : Contents ring n q) (ht : ring.tail.toNat = n) :
    front ring = some (slotOffset ring ring.tail) := by
  have hsize : size ring ≠ 0#64 := by
    rw [h.size_ne_zero, head_eq_length h ht, ht]
    exact Nat.ne_of_lt h.length_lt
  exact if_pos hsize

theorem pop_pastEnd (h : Contents ring n q) (ht : ring.tail.toNat = n) :
    StoresBeforeEnd n n (pop ring) q := by
  have hsize : size ring ≠ 0#64 := by
    rw [h.size_ne_zero, head_eq_length h ht, ht]
    exact Nat.ne_of_lt h.length_lt
  have hend : ring.tail = ring.capacity := by
    rw [BitVec.toNat_eq, h.capacity, ht]
  rw [pop, if_pos hsize, if_pos hend]
  refine ⟨{ h with tail_le := Nat.zero_le _, head_eq := ?_, slots := ?_ }, Nat.zero_add n⟩
  · dsimp only
    rw [head_eq_length h ht, BitVec.toNat_ofNat, Nat.zero_mod, place, if_pos, Nat.zero_add]
    rw [Nat.zero_add]
    exact h.length_lt
  · intro i hi
    have hin := hi.trans h.length_lt
    have hslot := h.slots i hi
    rw [ht, place, if_neg (by omega), Nat.add_sub_cancel_left] at hslot
    dsimp only
    rw [BitVec.toNat_ofNat, Nat.zero_mod, place, if_pos (by omega), Nat.zero_add]
    exact hslot

/-- A loop that goes on past the end copies one record more than it removes. -/
theorem drain_pastEnd (h : Contents ring n q) (ht : ring.tail.toNat = n)
    {copyToUser : ℕ → Bool} {done : ℕ} (hspace : space ring ≠ 0#64)
    (hcopy : copyToUser done = true) (m : ℕ) :
    ∃ r ≤ q.length, (bulkRing.drain copyToUser (m + 1) done ring).records.length = r + 1 ∧
      Contents (bulkRing.drain copyToUser (m + 1) done ring).rest n (q.drop r) := by
  have hstores := pop_pastEnd h ht
  obtain ⟨r, hd⟩ := (bulkRing_viewed n).drain copyToUser m (done + 1) n (pop ring) q
    hstores (Or.inr h.length_lt)
  have hready : bulkRing.ready ring = true := by simp [bulkRing, hspace]
  have hrecord : bulkRing.front ring = some (element ring (slotOffset ring ring.tail)) := by
    simp [bulkRing, front_pastEnd h ht]
  rw [drain_accepted hready hrecord hcopy]
  exact ⟨r, hd.le_stored, congrArg (· + 1) hd.length_records, hd.rest.1⟩

theorem not_accounted_of_extra {out : Drained CircularBufferMod2 (List Byte)} {width : ℕ}
    {answer : ℤ} (hrest : Contents out.rest n q')
    (hlen : out.records.length + q'.length = q.length + 1) :
    ¬Accounted (fun ring q => Contents ring n q) width q answer out.records out.rest := by
  rintro ⟨r, hr, hrec, hstores, -, -⟩
  have hsame := length_unique hstores hrest
  rw [hrec, List.length_take, Nat.min_eq_left hr] at hlen
  rw [List.length_drop] at hsame
  omega

theorem accounted_pastEnd_iff (h : Contents ring n q) (ht : ring.tail.toNat = n)
    (copyToUser : ℕ → Bool) (m width : ℕ) :
    Accounted (fun ring q => Contents ring n q) width q
        (answerOf width (-1) (bulkRing.drain copyToUser (m + 1) 0 ring) 0)
        (bulkRing.drain copyToUser (m + 1) 0 ring).records
        (bulkRing.drain copyToUser (m + 1) 0 ring).rest ↔
      bulkRing.ready ring = false ∨ bulkRing.front ring = none ∨ copyToUser 0 = false := by
  have hrecord : bulkRing.front ring = some (element ring (slotOffset ring ring.tail)) := by
    simp [bulkRing, front_pastEnd h ht]
  cases hready : bulkRing.ready ring with
  | false =>
    rw [drain_unready hready]
    exact iff_of_true (Accounted.of_none _ _ h) (Or.inl rfl)
  | true =>
    cases hcopy : copyToUser 0 with
    | false =>
      rw [drain_refused hready hrecord hcopy]
      exact iff_of_true (Accounted.of_none _ _ h) (Or.inr (Or.inr rfl))
    | true =>
      have hspace : space ring ≠ 0#64 := by simpa [bulkRing] using hready
      obtain ⟨r, hr, hlen, hrest⟩ := drain_pastEnd h ht hspace hcopy m
      refine iff_of_false (not_accounted_of_extra hrest ?_) (by simp [hrecord])
      rw [hlen, List.length_drop]
      omega

theorem accounted_beyondEnd_iff {b : ℕ} (h : StoresBeforeEnd n b ring q) (hb : b ≤ q.length)
    (copyToUser : ℕ → Bool) (m width : ℕ) :
    Accounted (fun ring q => Contents ring n q) width q
        (answerOf width (-1) (bulkRing.drain copyToUser (b + (m + 1)) 0 ring) 0)
        (bulkRing.drain copyToUser (b + (m + 1)) 0 ring).records
        (bulkRing.drain copyToUser (b + (m + 1)) 0 ring).rest ↔
      bulkRing.ready ring = false ∨ bulkRing.front ring = none ∨ copyToUser 0 = false := by
  rcases Nat.eq_zero_or_pos b with rfl | hpos
  · rw [Nat.zero_add]
    exact accounted_pastEnd_iff h.1 h.2 copyToUser m width
  · have hv := bulkRing_viewed n
    obtain ⟨r, hd⟩ := hv.drain copyToUser b 0 b ring q h (Or.inl le_rfl)
    have hzero := hd.eq_zero_iff hv h (Or.inl le_rfl) hpos
    rw [Drainable.drain_add]
    split_ifs with hsat
    · -- the first part takes all records up to the last slot
      have hrb := hd.satisfied hsat
      subst hrb
      have hrest := hd.rest
      rw [Nat.sub_self] at hrest
      have hlen := hd.length_records
      have hhead := head_eq_length hrest.1 hrest.2
      have hroom := h.1.length_lt
      rw [List.length_drop] at hhead
      have hspace : space (bulkRing.drain copyToUser r 0 ring).rest ≠ 0#64 := by
        rw [hrest.1.space_ne_zero]
        have htail := hrest.2
        omega
      refine iff_of_false ?_ (fun hfail => absurd (hzero.mpr hfail) (Nat.ne_of_gt hpos))
      have hready : bulkRing.ready (bulkRing.drain copyToUser r 0 ring).rest = true :=
        decide_eq_true hspace
      cases hcopy : copyToUser (0 + r) with
      | false =>
        have hrecord := front_pastEnd hrest.1 hrest.2
        rw [drain_refused hready (congrArg (Option.map _) hrecord) hcopy]
        refine not_accounted_of_error (show (-1 : ℤ) < 0 by decide) ?_
        simpa only [List.append_nil, ← List.length_pos_iff, hlen] using hpos
      | true =>
        obtain ⟨r', hr', hlen', hrest'⟩ := drain_pastEnd hrest.1 hrest.2 hspace hcopy m
        refine not_accounted_of_extra hrest' ?_
        rw [List.length_append, hlen, hlen', List.length_drop, List.length_drop]
        rw [List.length_drop] at hr'
        omega
    · rw [hd.accounted_iff (fun hs => hs.1) (by decide), ← hzero]
      have hrb := mt hd.satisfied_iff.mpr hsat
      exact or_iff_left hrb

end PastTheEnd

/-- A read is accounted for exactly when nothing is read, or all that was asked for without
going past the end of the storage. -/
theorem ringGpioIrqDemoRead_accounted_iff {ring : CircularBufferMod2} {n : ℕ}
    {q : List (List Byte)} (h : Contents ring n q) (copyToUser : ℕ → Bool) {count : SizeT}
    (hcount : count ≠ 1#64) :
    Accounted (fun ring q => Contents ring n q) sizeofEventBulkData q
        (ringGpioIrqDemoRead copyToUser count ring).bytesRead
        (ringGpioIrqDemoRead copyToUser count ring).records
        (ringGpioIrqDemoRead copyToUser count ring).ring ↔
      count.toNat % sizeofEventBulkData ≠ 0 ∨ space ring = 0#64 ∨ front ring = none ∨
        copyToUser 0 = false ∨ (count.toNat / sizeofEventBulkData ≤ q.length ∧
          ring.tail.toNat + count.toNat / sizeofEventBulkData ≤ n ∧
          ∀ i < count.toNat / sizeofEventBulkData, copyToUser i = true) := by
  rw [ringGpioIrqDemoRead, if_neg hcount]
  split_ifs with hwhole
  · rw [ringReadLoop_eq_drain]
    obtain ⟨b, hb⟩ := Nat.exists_eq_add_of_le h.tail_le
    have hstores : StoresBeforeEnd n b ring q := ⟨h, hb.symm⟩
    have hready : bulkRing.ready ring = false ↔ space ring = 0#64 := by simp [bulkRing]
    have hfront : bulkRing.front ring = none ↔ front ring = none := by simp [bulkRing]
    have hv := bulkRing_viewed n
    generalize count.toNat / sizeofEventBulkData = m
    by_cases hin : m ≤ b ∨ q.length < b
    · obtain ⟨r, hd⟩ := hv.drain copyToUser m 0 b ring q hstores hin
      rw [hd.accounted_iff (fun hs => hs.1) (by decide), hd.none_or_all_iff hv hstores hin,
        hready, hfront]
      have hend : m ≤ q.length → ring.tail.toNat + m ≤ n := by omega
      have hall : (m ≤ q.length ∧ ∀ i < m, copyToUser i = true) ↔
          m ≤ q.length ∧ ring.tail.toNat + m ≤ n ∧ ∀ i < m, copyToUser i = true :=
        ⟨fun hm => ⟨hm.1, hend hm.1, hm.2⟩, fun hm => ⟨hm.1, hm.2.2⟩⟩
      rw [hall]
      simp [hwhole]
    · simp only [not_or, Nat.not_le, Nat.not_lt] at hin
      obtain ⟨m, rfl⟩ := Nat.exists_eq_add_of_lt hin.1
      rw [Nat.add_assoc, accounted_beyondEnd_iff hstores hin.2, hready, hfront]
      have hend : ¬ring.tail.toNat + (b + (m + 1)) ≤ n := by omega
      simp [hwhole, hend]
  · exact iff_of_true (Accounted.of_none _ _ h) (Or.inl hwhole)

/-- Both reads, for all contents of the ring, counts and outcomes of the copies. -/
theorem read_accounting_iff (copyToUser : ℕ → Bool) (count : SizeT) :
    (∀ (ring : CircBufferPow2.CircularBufferPow2) (k : ℕ) (q : List (List Byte)),
      CircBufferPow2.Contents ring k q →
      (Accounted (fun ring q => CircBufferPow2.Contents ring k q) Oled.sizeofEventBulkData q
          (Oled.gpioOledIrqRead copyToUser count ring).bytesRead
          (Oled.gpioOledIrqRead copyToUser count ring).records
          (Oled.gpioOledIrqRead copyToUser count ring).ring ↔
        count.toNat % Oled.sizeofEventBulkData ≠ 0 ∨ CircBufferPow2.space ring = 0#64 ∨
          CircBufferPow2.front ring = none ∨ copyToUser 0 = false ∨
          (count.toNat / Oled.sizeofEventBulkData ≤ q.length ∧
            ∀ i < count.toNat / Oled.sizeofEventBulkData, copyToUser i = true))) ∧
    (∀ (ring : CircularBufferMod2) (n : ℕ) (q : List (List Byte)),
      Contents ring n q → count ≠ 1#64 →
      (Accounted (fun ring q => Contents ring n q) sizeofEventBulkData q
          (ringGpioIrqDemoRead copyToUser count ring).bytesRead
          (ringGpioIrqDemoRead copyToUser count ring).records
          (ringGpioIrqDemoRead copyToUser count ring).ring ↔
        count.toNat % sizeofEventBulkData ≠ 0 ∨ space ring = 0#64 ∨ front ring = none ∨
          copyToUser 0 = false ∨ (count.toNat / sizeofEventBulkData ≤ q.length ∧
            ring.tail.toNat + count.toNat / sizeofEventBulkData ≤ n ∧
            ∀ i < count.toNat / sizeofEventBulkData, copyToUser i = true))) := by
  constructor
  · intro ring k q h
    exact Oled.gpioOledIrqRead_accounted_iff h copyToUser count
  · intro ring n q h hcount
    exact ringGpioIrqDemoRead_accounted_iff h copyToUser hcount

section Rings

variable {k : ℕ}

/-- Storage whose records are numbered. -/
def numbered : Mem := fun a => BitVec.ofNat 8 (a / 96)

/-- The rings of the two boards with `k` records in sixteen slots. -/
def pow2Records (k : ℕ) : CircBufferPow2.CircularBufferPow2 :=
  ⟨numbered, 96#64, 16#64, 0#64, 0#64, BitVec.ofNat 32 k, 0#32⟩

def mod2Records (k : ℕ) : CircularBufferMod2 :=
  ⟨numbered, 96#64, 16#64, 0#64, 0#64, BitVec.ofNat 64 k, 0#64⟩

def numberedRecords (k : ℕ) : List (List Byte) :=
  (List.range k).map fun i => List.replicate 96 (BitVec.ofNat 8 i)

@[simp]
theorem length_numberedRecords (k : ℕ) : (numberedRecords k).length = k := by
  simp [numberedRecords]

theorem load_numbered (i : ℕ) :
    load numbered (i * 96) 96 = List.replicate 96 (BitVec.ofNat 8 i) := by
  refine List.eq_replicate_iff.mpr ⟨by simp [load], fun b hb => ?_⟩
  simp only [load, List.mem_map, List.mem_range] at hb
  obtain ⟨j, hj, rfl⟩ := hb
  have hdiv : (i * 96 + j) / 96 = i := by omega
  rw [numbered, hdiv]

theorem pow2Records_contents (hk : k < 16) :
    CircBufferPow2.Contents (pow2Records k) 4 (numberedRecords k) where
  capacity := rfl
  index := by decide
  bytes := by simp [pow2Records]
  tail_lt := by simp [pow2Records]
  length_lt := by simpa using hk
  head_eq := by
    have hlt : k < 4294967296 := by omega
    simp [pow2Records, Nat.mod_eq_of_lt hk, hlt]
  slots := by
    intro i hi
    rw [length_numberedRecords] at hi
    have hslot : (0 + i) % 2 ^ 4 = i := by omega
    simp only [numberedRecords, List.getElem_map, List.getElem_range]
    exact (congrArg (fun slot => load numbered (slot * 96) 96) hslot).trans
      (load_numbered i)

theorem mod2Records_contents (hk : k < 16) : Contents (mod2Records k) 16 (numberedRecords k) where
  capacity := rfl
  mask := rfl
  bytes := by simp [mod2Records]
  tail_le := by simp [mod2Records]
  length_lt := by simpa using hk
  head_eq := by
    have hlt : k < 18446744073709551616 := by omega
    simp [mod2Records, place, hk, hlt]
  slots := by
    intro i hi
    rw [length_numberedRecords] at hi
    have hslot : place 16 0 i = i := by simp [place]; omega
    simp only [numberedRecords, List.getElem_map, List.getElem_range]
    exact (congrArg (fun slot => load numbered (slot * 96) 96) hslot).trans
      (load_numbered i)

end Rings

/-- Two of three records are read. -/
theorem read_accounting_two :
    (Oled.gpioOledIrqRead (fun _ => true) 192#64 (pow2Records 3)).bytesRead = 192 ∧
      Accounted (fun ring q => CircBufferPow2.Contents ring 4 q) 96 (numberedRecords 3)
        (Oled.gpioOledIrqRead (fun _ => true) 192#64 (pow2Records 3)).bytesRead
        (Oled.gpioOledIrqRead (fun _ => true) 192#64 (pow2Records 3)).records
        (Oled.gpioOledIrqRead (fun _ => true) 192#64 (pow2Records 3)).ring ∧
      (ringGpioIrqDemoRead (fun _ => true) 192#64 (mod2Records 3)).bytesRead = 192 ∧
      Accounted (fun ring q => Contents ring 16 q) 96 (numberedRecords 3)
        (ringGpioIrqDemoRead (fun _ => true) 192#64 (mod2Records 3)).bytesRead
        (ringGpioIrqDemoRead (fun _ => true) 192#64 (mod2Records 3)).records
        (ringGpioIrqDemoRead (fun _ => true) 192#64 (mod2Records 3)).ring :=
  ⟨by decide +kernel,
    ((read_accounting_iff (fun _ => true) 192#64).1 _ 4 _
      (pow2Records_contents (by decide))).mpr (by decide),
    by decide +kernel,
    ((read_accounting_iff (fun _ => true) 192#64).2 _ 16 _
      (mod2Records_contents (by decide)) (by decide)).mpr (by decide)⟩

/-- Two records asked for and one stored: it is copied and removed, and the read fails. -/
theorem read_loses_record :
    (CircBufferPow2.Contents (pow2Records 1) 4 (numberedRecords 1) ∧
      (Oled.gpioOledIrqRead (fun _ => true) 192#64 (pow2Records 1)).records =
        numberedRecords 1 ∧
      (Oled.gpioOledIrqRead (fun _ => true) 192#64 (pow2Records 1)).bytesRead = -1 ∧
      ¬Accounted (fun ring q => CircBufferPow2.Contents ring 4 q) 96 (numberedRecords 1)
        (Oled.gpioOledIrqRead (fun _ => true) 192#64 (pow2Records 1)).bytesRead
        (Oled.gpioOledIrqRead (fun _ => true) 192#64 (pow2Records 1)).records
        (Oled.gpioOledIrqRead (fun _ => true) 192#64 (pow2Records 1)).ring) ∧
    (Contents (mod2Records 1) 16 (numberedRecords 1) ∧
      (ringGpioIrqDemoRead (fun _ => true) 192#64 (mod2Records 1)).records =
        numberedRecords 1 ∧
      (ringGpioIrqDemoRead (fun _ => true) 192#64 (mod2Records 1)).bytesRead = -1 ∧
      ¬Accounted (fun ring q => Contents ring 16 q) 96 (numberedRecords 1)
        (ringGpioIrqDemoRead (fun _ => true) 192#64 (mod2Records 1)).bytesRead
        (ringGpioIrqDemoRead (fun _ => true) 192#64 (mod2Records 1)).records
        (ringGpioIrqDemoRead (fun _ => true) 192#64 (mod2Records 1)).ring) := by
  have holed : (Oled.gpioOledIrqRead (fun _ => true) 192#64 (pow2Records 1)).records =
      numberedRecords 1 := by decide +kernel
  have hrpi : (ringGpioIrqDemoRead (fun _ => true) 192#64 (mod2Records 1)).records =
      numberedRecords 1 := by decide +kernel
  refine ⟨⟨pow2Records_contents (by decide), holed, by decide +kernel, ?_⟩,
    ⟨mod2Records_contents (by decide), hrpi, by decide +kernel, ?_⟩⟩
  · exact not_accounted_of_error (by decide +kernel) (holed ▸ List.cons_ne_nil _ _)
  · exact not_accounted_of_error (by decide +kernel) (hrpi ▸ List.cons_ne_nil _ _)

end LinuxOddsAndEnds.Rpi3
