import LinuxOddsAndEnds.Foundation.Machine
import LinuxOddsAndEnds.Oled.Painting
import Mathlib.Data.Fintype.Defs
import Mathlib.Tactic.IntervalCases

/-!
# Concurrent callers on the display bus

Several threads call `ess_oled_write` and `ess_oled_ioctl` at once. No lock lies on the
way from the call to the bus, so after its drawing a call makes its transactions one by
one between those of the others. The display follows what it is sent with a small
automaton: it accepts exactly the sequences that begin with whole updates.
-/

namespace LinuxOddsAndEnds.Oled.Interleaving

open Foundation

/-- What a call does to the display. -/
inductive Reaction where
  | none
  | register (cmd : Byte)
  | draw (f : Ssd1305Data → Ssd1305Data)

def Reaction.run (o : EssSsd1305Oled) : Reaction → EssSsd1305Oled
  | .none => o
  | .register cmd => Oled.register o cmd
  | .draw f => drawAndShow o f

def react1 (buff : Mem) : Reaction :=
  if buff 0 = cmdDisableSeqNum then .register setDispOff
  else if buff 0 = cmdEnableSeqNum then .register setDispOn
  else if buff 0 = cmdFillBufferSeqNum then .draw fun d => fill d 1#8
  else if buff 0 = cmdClearBufferSeqNum then .draw fun d => fill d 0#8
  else .none

def react3 (buff : Mem) : Reaction :=
  if buff 0 = cmdSetPixel then .draw fun d => setPixel d (buff 1) (buff 2) 1#8 else .none

def react4 (buff : Mem) : Reaction :=
  if buff 0 = cmdHLine then .draw fun d => hline d (buff 1) (buff 2) (buff 3) 1#8
  else if buff 0 = cmdVLine then .draw fun d => vline d (buff 1) (buff 2) (buff 3) 1#8
  else .none

def react5 (buff : Mem) : Reaction :=
  if buff 0 = cmdRectFill then
    .draw fun d => rect d (buff 1) (buff 2) (buff 3) (buff 4) 1#8 1#8
  else if buff 0 = cmdRectClear then
    .draw fun d => rect d (buff 1) (buff 2) (buff 3) (buff 4) 0#8 1#8
  else .none

def reactWrite (copyFromUser : Bool) (count : SizeT) (buff : Mem) : Reaction :=
  if copyFromUser = false then .none
  else if count = 1#64 then react1 buff
  else if count = 3#64 then react3 buff
  else if count = 4#64 then react4 buff
  else if count = 5#64 then react5 buff
  else .none

def reactIoctl (cmd : BitVec 32) : Reaction :=
  if cmd = ioctlDisable then .register setDispOff
  else if cmd = ioctlEnable then .register setDispOn
  else if cmd = ioctlFillBuffer then .draw fun d => fill d 1#8
  else if cmd = ioctlClearBuffer then .draw fun d => fill d 0#8
  else .none

def reaction : UserCall → Reaction
  | .write copyFromUser count buff => reactWrite copyFromUser count buff
  | .ioctl cmd => reactIoctl cmd

theorem run_eq_reaction (o : EssSsd1305Oled) (u : UserCall) : u.run o = (reaction u).run o := by
  have h1 : ∀ buff : Mem, write1 (fun _ => buff) o = (react1 buff).run o := by
    intro buff
    unfold write1 react1
    split_ifs <;> rfl
  have h3 : ∀ buff : Mem, write3 (fun _ => buff) o = (react3 buff).run o := by
    intro buff
    unfold write3 react3
    split_ifs <;> rfl
  have h4 : ∀ buff : Mem, write4 (fun _ => buff) o = (react4 buff).run o := by
    intro buff
    unfold write4 react4
    split_ifs <;> rfl
  have h5 : ∀ buff : Mem, write5 (fun _ => buff) o = (react5 buff).run o := by
    intro buff
    unfold write5 react5
    split_ifs <;> rfl
  cases u with
  | write copyFromUser count buff =>
    cases copyFromUser with
    | false =>
      simp only [UserCall.run, essOledWrite, reaction, reactWrite, Bool.false_eq_true, if_false]
      split_ifs <;> rfl
    | true =>
      simp only [UserCall.run, essOledWrite, reaction, reactWrite, Bool.true_eq_false, if_true,
        if_false]
      split_ifs
      · exact h1 buff
      · exact h3 buff
      · exact h4 buff
      · exact h5 buff
      · rfl
  | ioctl cmd =>
    simp only [UserCall.run, essOledIoctl, reaction, reactIoctl]
    split_ifs <;> rfl

theorem writeCmds_sent (cmds : List Byte) {c : I2cClient} (hok : ∀ n, 0 ≤ c.results n) :
    (writeCmds cmds c).1 = 0 ∧ (writeCmds cmds c).2.results = c.results ∧
      (writeCmds cmds c).2.sent = c.sent ++ cmds.map (.smbusByteData command) := by
  induction cmds generalizing c with
  | nil => exact ⟨rfl, rfl, (List.append_nil _).symm⟩
  | cons cmd cmds ih =>
    have hret : ¬(writeCmd c cmd).1 < 0 := not_lt.mpr (hok c.sent.length)
    obtain ⟨hzero, hres, hsent⟩ := ih (c := (writeCmd c cmd).2) hok
    rw [writeCmds, if_neg hret]
    refine ⟨hzero, hres, ?_⟩
    rw [hsent, writeCmd, I2cClient.transfer, List.append_assoc]
    rfl

theorem displayShow_sent {o : EssSsd1305Oled} (hok : ∀ n, 0 ≤ o.client.results n) :
    (displayShow o).2.client.sent = o.client.sent ++
      ((windowCmds o.oledData).map (.smbusByteData command) ++
        [Transaction.masterSend (load o.oledData.buffer 0 (frameLen o.oledData))]) := by
  obtain ⟨hzero, -, hsent⟩ := writeCmds_sent (windowCmds o.oledData) hok
  have hret : ¬(writeCmds (windowCmds o.oledData) o.client).1 < 0 := by
    rw [hzero]
    exact lt_irrefl 0
  rw [displayShow_eq o.client o.oledData, if_neg hret]
  simp only [I2cClient.transfer, hsent, List.append_assoc]

/-- Where a call is: `showing k` has made `k` transactions of `show`. -/
inductive CallPc where
  | idle
  | registering (cmd : Byte)
  | showing (k : ℕ)
  deriving DecidableEq

/-- The frame that all callers draw on, and the callers. -/
structure Display (ι : Type*) where
  data : Ssd1305Data
  pc : ι → CallPc

inductive Action (ι : Type*) where
  | call (c : ι) (u : UserCall)
  | transfer (c : ι)

section Machine

variable {ι : Type*} [DecidableEq ι]

def Display.goto (s : Display ι) (c : ι) (pc : CallPc) : Display ι :=
  { s with pc := Function.update s.pc c pc }

def start (s : Display ι) (c : ι) : Reaction → Display ι
  | .none => s
  | .register cmd => s.goto c (.registering cmd)
  | .draw f => { s with data := f s.data }.goto c (.showing 0)

/-- Calls on the display, with every transaction successful. The frame is sent as it is at
that moment. -/
def display : Machine (Display ι) (Action ι) (ι × Transaction)
  | s, .call c u =>
    match s.pc c with
    | .idle => some (start s c (reaction u), [])
    | _ => none
  | s, .transfer c =>
    match s.pc c with
    | .idle => none
    | .registering cmd => some (s.goto c .idle, [(c, .smbusByteData command cmd)])
    | .showing k =>
      match (windowCmds s.data)[k]? with
      | some cmd => some (s.goto c (.showing (k + 1)), [(c, .smbusByteData command cmd)])
      | none => some (s.goto c .idle, [(c, .masterSend (load s.data.buffer 0 (frameLen s.data)))])

end Machine

/-- The display after probe, with no call under way. -/
def probedDisplay {ι : Type*} (block : Mem) : Display ι := ⟨probeData block, fun _ => .idle⟩

def window : List Byte := [setColAddr, 0, 127, setPageAddr, 0, 7]

/-- One update as the display should see it. -/
inductive Update where
  | show (frame : List Byte)
  | register (on : Bool)

def Update.transactions : Update → List Transaction
  | .show frame => window.map (.smbusByteData command) ++ [Transaction.masterSend frame]
  | .register on => [.smbusByteData command (if on then setDispOn else setDispOff)]

/-- A concatenation of whole updates. -/
def IsWhole (l : List Transaction) : Prop :=
  ∃ us : List Update, l = us.flatMap Update.transactions

def IsWholePrefix (l : List Transaction) : Prop := ∃ rest, IsWhole (l ++ rest)

/-- The display has seen `k` transactions of a `show`. -/
def follow (k : ℕ) : Transaction → Option ℕ
  | .smbusByteData reg cmd =>
    if reg = command ∧ k = 0 ∧ (cmd = setDispOn ∨ cmd = setDispOff) then some 0
    else if reg = command ∧ window[k]? = some cmd then some (k + 1)
    else none
  | .masterSend _ => if k = 6 then some 0 else none

section Parsing

theorem follow_window {k : ℕ} (hk : k < 6) :
    follow k (.smbusByteData command window[k]) = some (k + 1) := by
  interval_cases k <;> rfl

theorem isWhole_of_follow : ∀ (l : List Transaction) (k : ℕ), l.foldlM follow k = some 0 →
    IsWhole ((window.take k).map (.smbusByteData command) ++ l) := by
  intro l
  induction l with
  | nil =>
    intro k hk
    obtain rfl : k = 0 := by simpa using hk
    exact ⟨[], rfl⟩
  | cons t l ih =>
    intro k hk
    rw [List.foldlM_cons] at hk
    obtain ⟨k', hnext, hrest⟩ := Option.bind_eq_some_iff.mp hk
    obtain ⟨us, hus⟩ := ih k' hrest
    cases t with
    | smbusByteData reg cmd =>
      simp only [follow] at hnext
      split_ifs at hnext with hon hcmd
      · obtain ⟨rfl, rfl, hcode⟩ := hon
        obtain rfl := Option.some.inj hnext
        rcases hcode with rfl | rfl
        · exact ⟨.register true :: us, congrArg (_ :: ·) hus⟩
        · exact ⟨.register false :: us, congrArg (_ :: ·) hus⟩
      · obtain ⟨rfl, hget⟩ := hcmd
        obtain rfl := Option.some.inj hnext
        refine ⟨us, ?_⟩
        rw [List.take_add_one, hget] at hus
        simpa using hus
    | masterSend frame =>
      simp only [follow] at hnext
      split_ifs at hnext with hsix
      subst hsix
      obtain rfl := Option.some.inj hnext
      refine ⟨.show frame :: us, ?_⟩
      rw [List.flatMap_cons, ← hus]
      rfl

theorem follow_update (u : Update) : u.transactions.foldlM follow 0 = some 0 := by
  cases u with
  | «show» frame => rfl
  | register on => cases on <;> rfl

/-- The automaton accepts exactly the concatenations of whole updates. -/
theorem isWhole_iff (l : List Transaction) : IsWhole l ↔ l.foldlM follow 0 = some 0 := by
  constructor
  · rintro ⟨us, rfl⟩
    induction us with
    | nil => rfl
    | cons u us ih =>
      rw [List.flatMap_cons, List.foldlM_append, follow_update]
      exact ih
  · exact isWhole_of_follow l 0

theorem follow_le_six : ∀ (l : List Transaction) (j k : ℕ), j ≤ 6 → l.foldlM follow j = some k →
    k ≤ 6 := by
  intro l
  induction l with
  | nil =>
    intro j k hj hk
    obtain rfl : j = k := by simpa using hk
    exact hj
  | cons t l ih =>
    intro j k hj hk
    rw [List.foldlM_cons] at hk
    obtain ⟨j', hnext, hrest⟩ := Option.bind_eq_some_iff.mp hk
    refine ih j' k ?_ hrest
    cases t with
    | smbusByteData reg cmd =>
      simp only [follow] at hnext
      split_ifs at hnext with hon hcmd
      · obtain rfl := Option.some.inj hnext
        omega
      · obtain rfl := Option.some.inj hnext
        have hlt := (List.getElem?_eq_some_iff.mp hcmd.2).1
        have hlen : window.length = 6 := rfl
        omega
    | masterSend frame =>
      simp only [follow] at hnext
      split_ifs at hnext
      obtain rfl := Option.some.inj hnext
      omega

theorem isWholePrefix_iff (l : List Transaction) :
    IsWholePrefix l ↔ (l.foldlM follow 0).isSome := by
  constructor
  · rintro ⟨rest, hwhole⟩
    rw [isWhole_iff, List.foldlM_append] at hwhole
    obtain ⟨k, hk, -⟩ := Option.bind_eq_some_iff.mp hwhole
    rw [hk]
    rfl
  · intro h
    obtain ⟨k, hk⟩ := Option.isSome_iff_exists.mp h
    have hle := follow_le_six l 0 k (Nat.zero_le _) hk
    have hrest : ∃ rest : List Transaction, rest.foldlM follow k = some 0 := by
      rcases Nat.eq_zero_or_pos k with rfl | hpos
      · exact ⟨[], rfl⟩
      · refine ⟨(window.drop k).map (.smbusByteData command) ++ [Transaction.masterSend []], ?_⟩
        interval_cases k <;> rfl
    obtain ⟨rest, hrest⟩ := hrest
    refine ⟨rest, ?_⟩
    rw [isWhole_iff, List.foldlM_append, hk]
    exact hrest

end Parsing

section Geometry

def size (d : Ssd1305Data) : Byte × Byte := (d.pages, d.width)

theorem size_fillLoop (v : Byte) (n : ℕ) (d : Ssd1305Data) : size (fillLoop v n d) = size d := by
  induction n with
  | zero => rfl
  | succ n ih => exact ih

theorem size_fillRow (index offset : ℕ) (color : Byte) (w : ℕ) (d : Ssd1305Data) :
    size (fillRow index offset color w d) = size d := by
  induction w with
  | zero => rfl
  | succ w ih => exact ih

theorem size_fillRect (d : Ssd1305Data) (x y w h color : Byte) :
    size (fillRect d x y w h color) = size d := by
  unfold fillRect
  induction h.toNat generalizing d y with
  | zero => rfl
  | succ n ih => rw [fillRows, ih, size_fillRow]

theorem size_rect (d : Ssd1305Data) (x y w h color fill : Byte) :
    size (rect d x y w h color fill) = size d := by
  unfold rect
  dsimp only
  split_ifs <;> simp only [size_fillRect]

/-- Registers are the two power commands, and drawing keeps the geometry. -/
def Reaction.Good : Reaction → Prop
  | .none => True
  | .register cmd => cmd = setDispOn ∨ cmd = setDispOff
  | .draw f => ∀ d, size (f d) = size d

theorem good_fill (color : Byte) : (Reaction.draw fun d => fill d color).Good :=
  fun _ => size_fillLoop _ _ _

theorem good_rect (x y w h color : Byte) : (Reaction.draw fun d => rect d x y w h color 1#8).Good :=
  fun d => size_rect d x y w h color 1#8

theorem good_reactWrite (copyFromUser : Bool) (count : SizeT) (buff : Mem) :
    (reactWrite copyFromUser count buff).Good := by
  have h1 : (react1 buff).Good := by
    unfold react1
    split_ifs
    · exact Or.inr rfl
    · exact Or.inl rfl
    · exact good_fill _
    · exact good_fill _
    · trivial
  have h3 : (react3 buff).Good := by
    unfold react3
    split_ifs
    · exact fun _ => rfl
    · trivial
  have h4 : (react4 buff).Good := by
    unfold react4
    split_ifs
    · exact good_rect _ _ _ _ _
    · exact good_rect _ _ _ _ _
    · trivial
  have h5 : (react5 buff).Good := by
    unfold react5
    split_ifs
    · exact good_rect _ _ _ _ _
    · exact good_rect _ _ _ _ _
    · trivial
  unfold reactWrite
  split_ifs
  · trivial
  · exact h1
  · exact h3
  · exact h4
  · exact h5
  · trivial

theorem good_reaction (u : UserCall) : (reaction u).Good := by
  cases u with
  | write copyFromUser count buff => exact good_reactWrite copyFromUser count buff
  | ioctl cmd =>
    simp only [reaction, reactIoctl]
    split_ifs
    · exact Or.inr rfl
    · exact Or.inl rfl
    · exact good_fill _
    · exact good_fill _
    · trivial

end Geometry

/-- How much of a `show` the call has sent; a call with none of it or all of it is not in the
middle of an update. -/
def CallPc.position : CallPc → ℕ
  | .showing k => k
  | _ => 0

def sentBy {ι : Type*} [DecidableEq ι] (c : ι) (tr : List (ι × Transaction)) : List Transaction :=
  (tr.filter fun o => o.1 = c).map Prod.snd

/-- No call makes its first transaction while another is in the middle of an update. -/
def serial {ι : Type*} [DecidableEq ι] [Fintype ι] (s : Display ι) : Action ι → Bool
  | .call _ _ => true
  | .transfer c => (s.pc c).position ≠ 0 ∨ ∀ c', c' ≠ c → (s.pc c').position = 0

section Positions

variable {ι : Type*} {s s' : Display ι} {c : ι}

/-- The probed geometry and the positions that a call can have. -/
structure Valid (s : Display ι) : Prop where
  geometry : size s.data = (8#8, 128#8)
  register : ∀ c cmd, s.pc c = .registering cmd → cmd = setDispOn ∨ cmd = setDispOff
  showing : ∀ c k, s.pc c = .showing k → k ≤ 6

theorem Valid.windowCmds (h : Valid s) : windowCmds s.data = window := by
  obtain ⟨hp, hw⟩ := Prod.mk.inj h.geometry
  rw [Oled.windowCmds, hp, hw]
  rfl

/-- A transaction moves its caller on as the display follows it. -/
structure TransferSpec (s : Display ι) (c : ι) (s' : Display ι) (t : Transaction) : Prop where
  valid : Valid s'
  follows : follow (s.pc c).position t = some (s'.pc c).position
  others : ∀ c' ≠ c, s'.pc c' = s.pc c'
  first : (s.pc c).position = 0 → ∀ k, 1 ≤ k → k ≤ 6 → follow k t = none

/-- At most one caller is in the middle of an update, and the display is where it is. -/
def Turn (s : Display ι) (k : ℕ) : Prop :=
  ∃ o : Option ι, (∀ c, o = some c → (s.pc c).position = k) ∧ (o = none → k = 0) ∧
    ∀ c, o ≠ some c → (s.pc c).position = 0

theorem Turn.congr {k : ℕ} (h : Turn s k) (hpos : ∀ c, (s'.pc c).position = (s.pc c).position) :
    Turn s' k := by
  obtain ⟨o, ho, hnone, hrest⟩ := h
  refine ⟨o, ?_, hnone, ?_⟩
  · intro c hc
    rw [hpos, ho c hc]
  · intro c hc
    rw [hpos, hrest c hc]

theorem Turn.moved {t : Transaction} (h : ∀ c' ≠ c, (s.pc c').position = 0)
    (ht : TransferSpec s c s' t) : Turn s' (s'.pc c).position := by
  refine ⟨some c, ?_, nofun, ?_⟩
  · rintro _ ⟨rfl⟩
    rfl
  · intro c' hc'
    have hne : c' ≠ c := fun he => hc' (congrArg some he.symm)
    rw [ht.others c' hne, h c' hne]

theorem valid_probedDisplay (block : Mem) : Valid (probedDisplay block : Display ι) :=
  ⟨rfl, nofun, nofun⟩

theorem turn_probedDisplay (block : Mem) : Turn (probedDisplay block : Display ι) 0 :=
  ⟨none, nofun, fun _ => rfl, fun _ _ => rfl⟩

end Positions

section Runs

variable {ι : Type*} [DecidableEq ι] {s s' : Display ι} {c : ι}

theorem Valid.goto (h : Valid s) {d : Ssd1305Data} {pc : CallPc} (hd : size d = size s.data)
    (hreg : ∀ cmd, pc = .registering cmd → cmd = setDispOn ∨ cmd = setDispOff)
    (hshow : ∀ k, pc = .showing k → k ≤ 6) : Valid ({ s with data := d }.goto c pc) := by
  refine ⟨hd.trans h.geometry, ?_, ?_⟩
  · intro c' cmd hc
    dsimp only [Display.goto] at hc
    rcases eq_or_ne c' c with rfl | hne
    · rw [Function.update_self] at hc
      exact hreg cmd hc
    · rw [Function.update_of_ne hne] at hc
      exact h.register c' cmd hc
  · intro c' k hc
    dsimp only [Display.goto] at hc
    rcases eq_or_ne c' c with rfl | hne
    · rw [Function.update_self] at hc
      exact hshow k hc
    · rw [Function.update_of_ne hne] at hc
      exact h.showing c' k hc

theorem start_spec (h : Valid s) (hc : s.pc c = .idle) (u : UserCall) :
    Valid (start s c (reaction u)) ∧
      ∀ c', ((start s c (reaction u)).pc c').position = (s.pc c').position := by
  have hgood := good_reaction u
  have hpos : ∀ pc : CallPc, pc.position = 0 → ∀ c',
      (Function.update s.pc c pc c').position = (s.pc c').position := by
    intro pc hpc c'
    rcases eq_or_ne c' c with rfl | hne
    · rw [Function.update_self, hpc, hc]
      rfl
    · rw [Function.update_of_ne hne]
  cases hr : reaction u with
  | none => exact ⟨h, fun _ => rfl⟩
  | register cmd =>
    rw [hr] at hgood
    refine ⟨h.goto rfl ?_ nofun, hpos _ rfl⟩
    rintro _ ⟨rfl⟩
    exact hgood
  | draw f =>
    rw [hr] at hgood
    refine ⟨h.goto (hgood s.data) nofun ?_, hpos _ rfl⟩
    rintro _ ⟨rfl⟩
    exact Nat.zero_le 6

theorem follow_first {cmd : Byte} (hcmd : cmd = setDispOn ∨ cmd = setDispOff ∨ cmd = setColAddr)
    {k : ℕ} (hk : 1 ≤ k) (hk6 : k ≤ 6) : follow k (.smbusByteData command cmd) = none := by
  rcases hcmd with rfl | rfl | rfl <;> interval_cases k <;> rfl

theorem transfer_spec (h : Valid s) {seen : List (ι × Transaction)}
    (hs : display s (.transfer c) = some (s', seen)) :
    ∃ t, seen = [(c, t)] ∧ TransferSpec s c s' t := by
  have hother : ∀ (pc : CallPc) (c' : ι), c' ≠ c → (s.goto c pc).pc c' = s.pc c' :=
    fun _ _ hne => Function.update_of_ne hne _ _
  have hself : ∀ pc : CallPc, (s.goto c pc).pc c = pc := fun _ => Function.update_self _ _ _
  cases hpc : s.pc c with
  | idle => simp [display, hpc] at hs
  | registering cmd =>
    simp only [display, hpc] at hs
    obtain ⟨rfl, rfl⟩ := by simpa using hs
    have hcmd := h.register c cmd hpc
    refine ⟨_, rfl, h.goto rfl nofun nofun, ?_, hother _, ?_⟩
    · rw [hself, hpc]
      rcases hcmd with rfl | rfl <;> rfl
    · intro _ k hk hk6
      exact follow_first (hcmd.imp_right Or.inl) hk hk6
  | showing k =>
    have hk := h.showing c k hpc
    simp only [display, hpc, h.windowCmds] at hs
    cases hget : window[k]? with
    | some cmd =>
      simp only [hget] at hs
      obtain ⟨rfl, rfl⟩ := by simpa using hs
      obtain ⟨hlt, rfl⟩ := List.getElem?_eq_some_iff.mp hget
      have hlt6 : k < 6 := hlt
      refine ⟨_, rfl, h.goto rfl nofun ?_, ?_, hother _, ?_⟩
      · rintro _ ⟨rfl⟩
        exact hlt6
      · rw [hself, hpc]
        exact follow_window hlt6
      · intro hzero j hj hj6
        rw [hpc] at hzero
        obtain rfl : k = 0 := hzero
        exact follow_first (Or.inr (Or.inr rfl)) hj hj6
    | none =>
      simp only [hget] at hs
      obtain ⟨rfl, rfl⟩ := by simpa using hs
      have hsix : k = 6 := by
        have hlen : window.length = 6 := rfl
        have hend := List.getElem?_eq_none_iff.mp hget
        omega
      subst hsix
      refine ⟨_, rfl, h.goto rfl nofun nofun, ?_, hother _, ?_⟩
      · rw [hself, hpc]
        rfl
      · intro hzero
        rw [hpc] at hzero
        cases hzero

theorem call_spec (h : Valid s) {u : UserCall} {seen : List (ι × Transaction)}
    (hs : display s (.call c u) = some (s', seen)) : seen = [] ∧ Valid s' ∧
      ∀ c', (s'.pc c').position = (s.pc c').position := by
  simp only [display] at hs
  split at hs
  · next hpc =>
    obtain ⟨rfl, rfl⟩ := by simpa using hs
    exact ⟨rfl, start_spec h hpc u⟩
  · simp at hs

/-- Whatever the others do, one caller's transactions are whole updates in order. -/
theorem sentBy_follows (c : ι) : ∀ (as : List (Action ι)) (s s' : Display ι)
    (tr : List (ι × Transaction)), Valid s → exec display s as = some (s', tr) →
    (sentBy c tr).foldlM follow (s.pc c).position = some (s'.pc c).position := by
  intro as
  induction as with
  | nil =>
    intro s s' tr _ h
    obtain ⟨rfl, rfl⟩ := by simpa [exec] using h
    rfl
  | cons a as ih =>
    intro s s' tr hv h
    obtain ⟨s₁, seen, rest, hs, hrest, rfl⟩ := exec_cons_eq_some h
    cases a with
    | call c' u =>
      obtain ⟨rfl, hv₁, hpos⟩ := call_spec hv hs
      rw [← hpos c]
      exact ih s₁ s' rest hv₁ hrest
    | transfer c' =>
      obtain ⟨t, rfl, ht⟩ := transfer_spec hv hs
      have hnext := ih s₁ s' rest ht.valid hrest
      rcases eq_or_ne c' c with rfl | hne
      · have hsent : sentBy c' ([(c', t)] ++ rest) = t :: sentBy c' rest := by simp [sentBy]
        rw [hsent, List.foldlM_cons, ht.follows]
        exact hnext
      · have hsent : sentBy c ([(c', t)] ++ rest) = sentBy c rest := by simp [sentBy, hne]
        rw [hsent, ← ht.others c hne.symm]
        exact hnext

variable [Fintype ι]

/-- A transaction that keeps the callers apart is followed; any other one is not. -/
theorem Turn.transfer {k : ℕ} {t : Transaction} (hv : Valid s) (h : Turn s k)
    (ht : TransferSpec s c s' t) :
    (serial s (.transfer c) = true → follow k t = some (s'.pc c).position ∧
      Turn s' (s'.pc c).position) ∧
    (serial s (.transfer c) = false → follow k t = none) := by
  obtain ⟨o, ho, hnone, hrest⟩ := h
  constructor
  · intro hok
    have hothers : k = (s.pc c).position ∧ ∀ c' ≠ c, (s.pc c').position = 0 := by
      rcases (of_decide_eq_true hok : _ ∨ _) with hmid | hquiet
      · have hc : o = some c := by
          by_contra hne
          exact hmid (hrest c hne)
        refine ⟨(ho c hc).symm, ?_⟩
        intro c' hne
        exact hrest c' (fun he => hne (Option.some.inj (he.symm.trans hc)))
      · refine ⟨?_, hquiet⟩
        rcases o with _ | c₀
        · rw [hnone rfl, hrest c nofun]
        · rcases eq_or_ne c₀ c with rfl | hne
          · exact (ho c₀ rfl).symm
          · rw [← ho c₀ rfl, hquiet c₀ hne, hrest c (fun he => hne (Option.some.inj he))]
    rw [hothers.1]
    exact ⟨ht.follows, .moved hothers.2 ht⟩
  · intro hbad
    obtain ⟨hzero, c', hne, hmid⟩ : (s.pc c).position = 0 ∧
        ∃ c', c' ≠ c ∧ (s.pc c').position ≠ 0 := by
      have hn : ¬((s.pc c).position ≠ 0 ∨ ∀ c', c' ≠ c → (s.pc c').position = 0) :=
        of_decide_eq_false hbad
      push Not at hn
      exact hn
    have hc' : o = some c' := by
      by_contra hno
      exact hmid (hrest c' hno)
    have hk := ho c' hc'
    have hk6 : k ≤ 6 := by
      rw [← hk]
      cases hpc : s.pc c' with
      | showing j => exact hv.showing c' j hpc
      | idle => exact Nat.zero_le 6
      | registering cmd => exact Nat.zero_le 6
    exact ht.first hzero k (by omega) hk6

/-- The display follows a run exactly as long as the callers keep out of each other's
updates. -/
theorem serial_iff_follows : ∀ (as : List (Action ι)) (s s' : Display ι) (k : ℕ)
    (tr : List (ι × Transaction)), Valid s → Turn s k → exec display s as = some (s', tr) →
    ((exec (display.when serial) s as).isSome ↔ ((tr.map Prod.snd).foldlM follow k).isSome) ∧
    ∀ k', (tr.map Prod.snd).foldlM follow k = some k' → Turn s' k' := by
  intro as
  induction as with
  | nil =>
    intro s s' k tr _ ht h
    obtain ⟨rfl, rfl⟩ := by simpa [exec] using h
    refine ⟨by simp [exec], ?_⟩
    intro k' hk
    obtain rfl : k = k' := by simpa using hk
    exact ht
  | cons a as ih =>
    intro s s' k tr hv hturn h
    obtain ⟨s₁, seen, rest, hs, hrest, rfl⟩ := exec_cons_eq_some h
    cases a with
    | call c u =>
      obtain ⟨rfl, hv₁, hpos⟩ := call_spec hv hs
      have hnext := ih s₁ s' k rest hv₁ (hturn.congr hpos) hrest
      simpa [exec, Machine.when, serial, hs] using hnext
    | transfer c =>
      obtain ⟨t, rfl, ht⟩ := transfer_spec hv hs
      obtain ⟨hgood, hbad⟩ := hturn.transfer hv ht
      cases hok : serial s (.transfer c) with
      | true =>
        obtain ⟨hfollow, hturn₁⟩ := hgood hok
        have hnext := ih s₁ s' _ rest ht.valid hturn₁ hrest
        simpa [exec, Machine.when, hok, hs, List.foldlM_cons, hfollow] using hnext
      | false =>
        have hnone := hbad hok
        simp [exec, Machine.when, hok, List.foldlM_cons, hnone]

end Runs

section Updates

variable {ι : Type*} [DecidableEq ι] [Fintype ι]

/-- Each caller's transactions are whole updates in order. All callers' transactions together
begin with whole updates exactly when no call makes its first transaction while another is in
the middle of an update; when all calls have returned, they then are whole updates. -/
theorem updates_whole_iff_serial (block : Mem) (as : List (Action ι)) (s : Display ι)
    (tr : List (ι × Transaction)) (h : exec display (probedDisplay block) as = some (s, tr)) :
    (∀ c, IsWholePrefix (sentBy c tr) ∧ (s.pc c = .idle → IsWhole (sentBy c tr))) ∧
      (IsWholePrefix (tr.map Prod.snd) ↔
        (exec (display.when serial) (probedDisplay block) as).isSome) ∧
      ((∀ c, s.pc c = .idle) → (IsWhole (tr.map Prod.snd) ↔
        (exec (display.when serial) (probedDisplay block) as).isSome)) := by
  obtain ⟨hiff, hturn⟩ := serial_iff_follows as _ s 0 tr (valid_probedDisplay block)
    (turn_probedDisplay block) h
  refine ⟨?_, ?_, ?_⟩
  · intro c
    have hc := sentBy_follows c as _ s tr (valid_probedDisplay block) h
    have hstart : ((probedDisplay block : Display ι).pc c).position = 0 := rfl
    rw [hstart] at hc
    refine ⟨?_, ?_⟩
    · rw [isWholePrefix_iff, hc]
      rfl
    · intro hidle
      rw [isWhole_iff, hc, hidle]
      rfl
  · rw [isWholePrefix_iff, hiff]
  · intro hidle
    rw [isWhole_iff, hiff]
    constructor
    · intro hzero
      rw [hzero]
      rfl
    · intro hsome
      obtain ⟨k, hk⟩ := Option.isSome_iff_exists.mp hsome
      obtain ⟨o, ho, hnone, -⟩ := hturn k hk
      rcases o with _ | c
      · rw [hk, hnone rfl]
      · rw [hk, ← ho c rfl, hidle c]
        rfl

/-- A caller that fills the display and another that turns it off, one after the other. -/
def twoCallers : List (Action Bool) :=
  [Action.call false (.ioctl ioctlFillBuffer)] ++ List.replicate 7 (Action.transfer false) ++
    [Action.call true (.ioctl ioctlDisable), .transfer true]

theorem updates_whole_two : ∃ s tr,
    exec display (probedDisplay (fun _ => 0)) twoCallers = some (s, tr) ∧ tr.length = 8 ∧
      (∀ c, IsWholePrefix (sentBy c tr)) ∧ IsWhole (tr.map Prod.snd) := by
  obtain ⟨s, tr, hrun, hlength, hidle, hserial⟩ : ∃ s tr,
      exec display (probedDisplay (fun _ => 0)) twoCallers = some (s, tr) ∧ tr.length = 8 ∧
        (∀ c, s.pc c = .idle) ∧
        (exec (display.when serial) (probedDisplay (fun _ => 0)) twoCallers).isSome := by
    decide +kernel
  obtain ⟨hown, -, hall⟩ := updates_whole_iff_serial (fun _ => 0) twoCallers s tr hrun
  exact ⟨s, tr, hrun, hlength, fun c => (hown c).1, (hall hidle).mpr hserial⟩

/-- One caller fills the display and another clears it; all of the second update comes after
the first command of the first one. -/
theorem updates_mixed : ¬∀ (block : Mem) (as : List (Action Bool)) (s : Display Bool)
    (tr : List (Bool × Transaction)), exec display (probedDisplay block) as = some (s, tr) →
    (∀ c, s.pc c = .idle) → IsWhole (tr.map Prod.snd) := by
  intro h
  obtain ⟨s, tr, hrun, hidle, hmixed⟩ : ∃ s tr, exec display (probedDisplay (fun _ => 0))
      ([Action.call false (.ioctl ioctlFillBuffer), .call true (.ioctl ioctlClearBuffer),
        .transfer false] ++ List.replicate 7 (Action.transfer true) ++
        List.replicate 6 (Action.transfer false)) = some (s, tr) ∧ (∀ c, s.pc c = .idle) ∧
      (tr.map Prod.snd).foldlM follow 0 ≠ some 0 := by decide +kernel
  exact hmixed ((isWhole_iff _).mp (h _ _ s tr hrun hidle))

end Updates

end LinuxOddsAndEnds.Oled.Interleaving
