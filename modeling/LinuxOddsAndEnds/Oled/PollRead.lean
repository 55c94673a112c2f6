import LinuxOddsAndEnds.Oled.EventDelivery

/-!
# Agreement of poll and read

`poll` asks `empty` and the loop of `read` asks `space`. The loop tests whether another
record would fit where it means to test whether one is stored, so the two disagree
exactly when the bulk ring is full, and nothing but a read could ever make room again.
-/

namespace LinuxOddsAndEnds.Oled

open Foundation CircBufferPow2

def readOne (s : State) : ReadResult :=
  gpioOledIrqRead (fun _ => true) (BitVec.ofNat 64 sizeofEventBulkData) s.eventBulkDataBuffer

def isRead : State → Action → Bool
  | _, .read _ _ => true
  | _, _ => false

/-- What user space relies on: after `POLLIN` a read of one record returns it and takes it
off the ring, otherwise it returns none, and stored records can be read. -/
structure PollReadAgree (cfg : GpioConfig) (s : State) : Prop where
  reported : gpioOledIrqPoll s = pollin ||| pollrdnorm →
    (readOne s).bytesRead = sizeofEventBulkData ∧ (readOne s).records.length = 1 ∧
      (size (readOne s).ring).toNat + 1 = (size s.eventBulkDataBuffer).toNat
  unreported : gpioOledIrqPoll s ≠ pollin ||| pollrdnorm → (readOne s).records = []
  readable : empty s.eventBulkDataBuffer = false →
    ∃ s' tr, Reaches ((pipeline cfg).when isRead) s s' tr ∧ removed tr ≠ []

/-- `do_work` leaves a second place free in the bulk ring when it pushes. -/
def keepsRoom : State → Action → Bool
  | s, .work =>
    match s.worker with
    | .pushRecord _ => (size s.eventBulkDataBuffer).toNat < 14
    | _ => true
  | _, _ => true

section OneRead

variable {s : State} {q : List (List Byte)}

theorem poll_eq_pollin_iff (s : State) :
    gpioOledIrqPoll s = pollin ||| pollrdnorm ↔ empty s.eventBulkDataBuffer = false := by
  unfold gpioOledIrqPoll
  cases empty s.eventBulkDataBuffer
  · simp
  · cases s.pollEnabled <;> decide

theorem readOne_eq (s : State) :
    readOne s = readLoop (fun _ => true) 1 0 s.eventBulkDataBuffer := rfl

theorem readOne_nil (h : Contents s.eventBulkDataBuffer 4 []) : (readOne s).records = [] := by
  rw [readOne_eq, readLoop, front_nil h]
  split_ifs <;> rfl

theorem readOne_cons {e : List Byte} (h : Contents s.eventBulkDataBuffer 4 (e :: q))
    (hroom : q.length < 14) :
    readOne s = ⟨sizeofEventBulkData, [e], pop s.eventBulkDataBuffer⟩ := by
  have hspace : space s.eventBulkDataBuffer ≠ 0#64 := by
    intro h0
    have hspace := space_spec h
    rw [h0, List.length_cons, BitVec.toNat_ofNat] at hspace
    omega
  rw [readOne_eq, readLoop, if_pos hspace, (front_cons h).1]
  simp only [if_true, (front_cons h).2, readLoop]
  norm_num

theorem readOne_step {cfg : GpioConfig} (hmtx : s.eventBulkDataMtx = false) :
    (pipeline cfg).when isRead s (.read (fun _ => true) (BitVec.ofNat 64 sizeofEventBulkData)) =
      some ({ s with eventBulkDataBuffer := (readOne s).ring },
        [.read (BitVec.ofNat 64 sizeofEventBulkData) (readOne s).bytesRead
          (readOne s).records]) := by
  refine Machine.when_eq_some.mpr ⟨rfl, ?_⟩
  simp only [pipeline, hmtx]
  rfl

theorem readOne_full (h : space s.eventBulkDataBuffer = 0#64) :
    readOne s = ⟨0, [], s.eventBulkDataBuffer⟩ := by
  rw [readOne_eq, readLoop, if_neg (not_not.mpr h)]
  rfl

/-- At a full ring every read of whole records answers zero and takes nothing. -/
theorem read_full (h : space s.eventBulkDataBuffer = 0#64) (copyToUser : ℕ → Bool) (count : SizeT) :
    (gpioOledIrqRead copyToUser count s.eventBulkDataBuffer).records = [] ∧
      (gpioOledIrqRead copyToUser count s.eventBulkDataBuffer).ring = s.eventBulkDataBuffer := by
  unfold gpioOledIrqRead
  split_ifs
  · cases count.toNat / sizeofEventBulkData with
    | zero => exact ⟨rfl, rfl⟩
    | succ n =>
      rw [readLoop, if_neg (not_not.mpr h)]
      exact ⟨rfl, rfl⟩
  · exact ⟨rfl, rfl⟩

theorem reads_full {cfg : GpioConfig} {s' : State} {tr : List Seen}
    (hfull : space s.eventBulkDataBuffer = 0#64)
    (h : Reaches ((pipeline cfg).when isRead) s s' tr) : removed tr = [] := by
  have hinv : s'.eventBulkDataBuffer = s.eventBulkDataBuffer ∧ removed tr = [] := by
    refine Reaches.invariant (I := fun s' tr =>
      s'.eventBulkDataBuffer = s.eventBulkDataBuffer ∧ removed tr = []) ⟨rfl, rfl⟩ ?_ h
    rintro t tr a t' seen ⟨hbulk, hrem⟩ hs
    obtain ⟨hread, hs⟩ := Machine.when_eq_some.mp hs
    cases a with
    | read copyToUser count =>
      simp only [pipeline] at hs
      split_ifs at hs
      obtain ⟨rfl, rfl⟩ := by simpa using hs
      rw [← hbulk] at hfull
      obtain ⟨hr, hring⟩ := read_full hfull copyToUser count
      refine ⟨hring.trans hbulk, ?_⟩
      rw [removed_append, hrem, hr]
      rfl
    | _ => exact absurd hread Bool.false_ne_true
  exact hinv.2

end OneRead

section Agreement

variable {cfg : GpioConfig} {s : State} {tr : List Seen} {l : Ledger}

theorem agree_of_room (h : Inv s tr l) (hmtx : s.eventBulkDataMtx = false)
    (hroom : l.stored.length < 15) : PollReadAgree cfg s := by
  have hb := h.bulk
  cases hl : l.stored with
  | nil =>
    rw [hl, List.map_nil] at hb
    have hempty := (empty_spec hb).mpr rfl
    have hpoll := mt (poll_eq_pollin_iff s).mp (by rw [hempty]; decide)
    exact ⟨fun hp => absurd hp hpoll, fun _ => readOne_nil hb, fun he => by simp [hempty] at he⟩
  | cons p rest =>
    rw [hl, List.length_cons] at hroom
    rw [hl, List.map_cons] at hb
    have hone := readOne_cons hb (by rw [List.length_map]; omega)
    have hne : empty s.eventBulkDataBuffer = false := by
      rw [← Bool.not_eq_true, empty_spec hb]
      exact List.cons_ne_nil _ _
    refine ⟨fun _ => ?_, fun hp => absurd ((poll_eq_pollin_iff s).mpr hne) hp, fun _ => ?_⟩
    · rw [hone]
      exact ⟨rfl, rfl, by rw [size_spec (pop_spec hb), size_spec hb]; rfl⟩
    · refine ⟨_, _, Reaches.single (readOne_step hmtx), ?_⟩
      rw [hone]
      exact List.cons_ne_nil _ _

theorem not_agree_of_full (h : Inv s tr l) (hfull : l.stored.length = 15) :
    ¬PollReadAgree cfg s := by
  intro ha
  have hspace : space s.eventBulkDataBuffer = 0#64 := by
    apply BitVec.eq_of_toNat_eq
    rw [space_spec h.bulk, List.length_map, hfull]
    rfl
  have hne : empty s.eventBulkDataBuffer = false := by
    rw [← Bool.not_eq_true, empty_spec h.bulk, List.map_eq_nil_iff, ← List.length_eq_zero_iff]
    omega
  obtain ⟨s', tr', hreads, hrem⟩ := ha.readable hne
  exact hrem (reads_full hspace hreads)

theorem forwarded_step {a : Action} {s' : State} {seen : List Seen}
    (hs : pipeline cfg s a = some (s', seen)) :
    forwarded seen = [] ∨
      (a = .work ∧ (∃ event, s.worker = .pushRecord event) ∧ (forwarded seen).length = 1) := by
  cases a with
  | interrupt hd i =>
    have he : interrupt cfg hd i s = (s', seen) := Option.some.inj hs
    refine Or.inl ?_
    unfold interrupt at he
    cases hirq : irqHandler hd cfg (s.statics hd) i with
    | none =>
      rw [hirq] at he
      obtain ⟨-, rfl⟩ := Prod.mk.inj he
      rfl
    | some out =>
      rw [hirq] at he
      obtain ⟨-, rfl⟩ := Prod.mk.inj he
      split_ifs <;> rfl
  | work =>
    simp only [pipeline, doWork] at hs
    split at hs <;> rename_i hpc
    · simp at hs
    · obtain ⟨rfl, rfl⟩ := by simpa using hs
      exact Or.inl rfl
    · split_ifs at hs
      obtain ⟨rfl, rfl⟩ := by simpa using hs
      exact Or.inl rfl
    · split_ifs at hs <;> obtain ⟨rfl, rfl⟩ := by simpa using hs
      · exact Or.inl rfl
      · exact Or.inl rfl
    · split_ifs at hs <;> obtain ⟨rfl, rfl⟩ := by simpa using hs
      · exact Or.inr ⟨rfl, ⟨_, hpc⟩, rfl⟩
      · exact Or.inl rfl
    all_goals
      obtain ⟨rfl, rfl⟩ := by simpa using hs
      exact Or.inl rfl
  | _ =>
    simp only [pipeline, gpioIrqIoctl] at hs
    split_ifs at hs <;> obtain ⟨rfl, rfl⟩ := by simpa using hs
    all_goals exact Or.inl rfl

theorem Inv.stored_length (h : Inv s tr l) :
    (removed tr).length + l.stored.length = (forwarded tr).length := by
  rw [h.accounts.removed_eq, h.accounts.forwarded_eq, List.length_map, List.length_map,
    List.length_append]

theorem room_of_reaches {kmalloc kmalloc' : SizeT → Option Mem} {s₀ : State}
    (hinit : gpioOledIrqInit kmalloc kmalloc' loaded = (0, s₀))
    (h : Reaches ((pipeline cfg).when keepsRoom) s₀ s tr) :
    ∃ l, Inv s tr l ∧ l.stored.length < 15 := by
  refine Reaches.invariant (I := fun s tr => ∃ l, Inv s tr l ∧ l.stored.length < 15)
    ⟨_, inv_init hinit, by decide⟩ ?_ h
  rintro s tr a s' seen ⟨l, hi, hroom⟩ hs
  obtain ⟨hkeep, hs⟩ := Machine.when_eq_some.mp hs
  obtain ⟨l', hi'⟩ := inv_step cfg hi a hs
  have hlen := hi.stored_length
  have hlen' := hi'.stored_length
  rw [removed_append, forwarded_append, List.length_append, List.length_append] at hlen'
  refine ⟨l', hi', ?_⟩
  rcases forwarded_step hs with hnone | ⟨rfl, ⟨event, hpc⟩, hone⟩
  · rw [hnone, List.length_nil] at hlen'
    omega
  · simp only [keepsRoom, hpc, decide_eq_true_eq, size_spec hi.bulk, List.length_map] at hkeep
    omega

end Agreement

/-- In every reachable state with the mutex free, poll and read agree exactly when the
bulk ring stores fewer than 15 records; and they agree throughout every run in which
`do_work` pushes only while a second place is free. -/
theorem poll_read_agree_iff (cfg : GpioConfig) (kmalloc kmalloc' : SizeT → Option Mem) (s₀ : State)
    (hinit : gpioOledIrqInit kmalloc kmalloc' loaded = (0, s₀)) :
    (∀ s tr, Reaches (pipeline cfg) s₀ s tr → s.eventBulkDataMtx = false →
      (PollReadAgree cfg s ↔ (size s.eventBulkDataBuffer).toNat < 15)) ∧
    (∀ s tr, Reaches ((pipeline cfg).when keepsRoom) s₀ s tr → s.eventBulkDataMtx = false →
      PollReadAgree cfg s) := by
  constructor
  · intro s tr h hmtx
    obtain ⟨l, hi⟩ := inv_of_reaches hinit h
    have hlt := hi.bulk.length_lt
    rw [size_spec hi.bulk, List.length_map] at *
    constructor
    · intro ha
      by_contra hfull
      exact not_agree_of_full hi (by omega) ha
    · exact agree_of_room hi hmtx
  · intro s tr h hmtx
    obtain ⟨l, hi, hroom⟩ := room_of_reaches hinit h
    exact agree_of_room hi hmtx hroom

theorem fifteen_presses : ∃ s tr, exec (pipeline boardConfig) started
    (List.replicate 15 (pressAndWork 15)).flatten = some (s, tr) ∧
    s.eventBulkDataMtx = false ∧ gpioOledIrqPoll s = pollin ||| pollrdnorm ∧
    space s.eventBulkDataBuffer = 0#64 ∧ (size s.eventBulkDataBuffer).toNat = 15 := by
  decide +kernel

/-- Two presses leave room: poll reports data and a read returns it. After fifteen the two
disagree. -/
theorem poll_read_agree_two :
    (∃ s tr, exec ((pipeline boardConfig).when keepsRoom) started
        (pressAndWork 15 ++ pressAndWork 15) = some (s, tr) ∧
      gpioOledIrqPoll s = pollin ||| pollrdnorm ∧ (readOne s).bytesRead = 96 ∧
      PollReadAgree boardConfig s) ∧
    ∃ s tr, Reaches (pipeline boardConfig) started s tr ∧ ¬PollReadAgree boardConfig s := by
  have hiff := poll_read_agree_iff boardConfig (fun _ => some null) (fun _ => some null) started rfl
  constructor
  · obtain ⟨s, tr, hrun, hmtx, hpoll, hread⟩ : ∃ s tr,
        exec ((pipeline boardConfig).when keepsRoom) started
          (pressAndWork 15 ++ pressAndWork 15) = some (s, tr) ∧
        s.eventBulkDataMtx = false ∧ gpioOledIrqPoll s = pollin ||| pollrdnorm ∧
        (readOne s).bytesRead = 96 := by decide +kernel
    exact ⟨s, tr, hrun, hpoll, hread, hiff.2 s tr (Reaches.of_exec hrun) hmtx⟩
  · obtain ⟨s, tr, hrun, hmtx, -, -, hsize⟩ := fifteen_presses
    have h := Reaches.of_exec hrun
    exact ⟨s, tr, h, fun hagree => by have := (hiff.1 s tr h hmtx).mp hagree; omega⟩

/-- Fifteen presses and no read: poll reports data, a read of one record returns nothing,
and no sequence of reads ever gets a record out. -/
theorem full_ring_unreadable : ∃ s tr, Reaches (pipeline boardConfig) started s tr ∧
    s.eventBulkDataMtx = false ∧ gpioOledIrqPoll s = pollin ||| pollrdnorm ∧
    (readOne s).bytesRead = 0 ∧ (readOne s).records = [] ∧
    ∀ s' tr', Reaches ((pipeline boardConfig).when isRead) s s' tr' → removed tr' = [] := by
  obtain ⟨s, tr, hrun, hmtx, hpoll, hspace, -⟩ := fifteen_presses
  exact ⟨s, tr, Reaches.of_exec hrun, hmtx, hpoll, by rw [readOne_full hspace],
    by rw [readOne_full hspace], fun _ _ h => reads_full hspace h⟩

end LinuxOddsAndEnds.Oled
