import LinuxOddsAndEnds.Oled.Drawing
import LinuxOddsAndEnds.Oled.I2cOled

/-!
# Commands as strokes

Each command from user space is a stroke of the painter's model, clipped to the screen,
or leaves the frame alone. The one command that the source does not clip is the pixel
command, which is a stroke as long as its coordinates lie on the screen.
-/

namespace LinuxOddsAndEnds.Oled

open Foundation

/-- A call of the character device with the memory behind the user pointer. -/
inductive UserCall where
  | write (copyFromUser : Bool) (count : SizeT) (buff : Mem)
  | ioctl (cmd : BitVec 32)

def UserCall.run (o : EssSsd1305Oled) : UserCall → EssSsd1305Oled
  | .write copyFromUser count buff => (essOledWrite copyFromUser (fun _ => buff) count o).2
  | .ioctl cmd => (essOledIoctl cmd o).2

section Strokes

variable (screen : Set (ℕ × ℕ))

def stroke1 (buff : Mem) : Option (Stroke (ℕ × ℕ) Bool) :=
  if buff 0 = cmdDisableSeqNum then none
  else if buff 0 = cmdEnableSeqNum then none
  else if buff 0 = cmdFillBufferSeqNum then some ⟨screen, true⟩
  else if buff 0 = cmdClearBufferSeqNum then some ⟨screen, false⟩
  else none

def stroke3 (buff : Mem) : Option (Stroke (ℕ × ℕ) Bool) :=
  if buff 0 = cmdSetPixel then some ⟨{((buff 1).toNat, (buff 2).toNat)} ∩ screen, true⟩
  else none

def stroke4 (buff : Mem) : Option (Stroke (ℕ × ℕ) Bool) :=
  if buff 0 = cmdHLine then
    some ⟨box (buff 1).toNat (buff 2).toNat (buff 3).toNat 1 ∩ screen, true⟩
  else if buff 0 = cmdVLine then
    some ⟨box (buff 1).toNat (buff 2).toNat 1 (buff 3).toNat ∩ screen, true⟩
  else none

def stroke5 (buff : Mem) : Option (Stroke (ℕ × ℕ) Bool) :=
  if buff 0 = cmdRectFill then
    some ⟨box (buff 1).toNat (buff 2).toNat (buff 3).toNat (buff 4).toNat ∩ screen, true⟩
  else if buff 0 = cmdRectClear then
    some ⟨box (buff 1).toNat (buff 2).toNat (buff 3).toNat (buff 4).toNat ∩ screen, false⟩
  else none

/-- The stroke of a write: what its bytes ask for, clipped to the screen. Other lengths
and codes ask for nothing. -/
def writeStroke (count : SizeT) (buff : Mem) : Option (Stroke (ℕ × ℕ) Bool) :=
  if count = 1#64 then stroke1 screen buff
  else if count = 3#64 then stroke3 screen buff
  else if count = 4#64 then stroke4 screen buff
  else if count = 5#64 then stroke5 screen buff
  else none

def ioctlStroke (cmd : BitVec 32) : Option (Stroke (ℕ × ℕ) Bool) :=
  if cmd = ioctlDisable then none
  else if cmd = ioctlEnable then none
  else if cmd = ioctlFillBuffer then some ⟨screen, true⟩
  else if cmd = ioctlClearBuffer then some ⟨screen, false⟩
  else none

def UserCall.stroke : UserCall → Option (Stroke (ℕ × ℕ) Bool)
  | .write copyFromUser count buff => if copyFromUser then writeStroke screen count buff else none
  | .ioctl cmd => ioctlStroke screen cmd

end Strokes

section Bus

variable (o : EssSsd1305Oled)

@[simp] theorem oledData_displayShow : (displayShow o).2.oledData = o.oledData := by
  unfold displayShow
  dsimp only
  split_ifs <;> rfl

@[simp] theorem oledData_drawAndShow (draw : Ssd1305Data → Ssd1305Data) :
    (drawAndShow o draw).oledData = draw o.oledData := by
  rw [drawAndShow, oledData_displayShow]

end Bus

/-- `d'` is `d` after the stroke, as far as the screen goes. -/
def Follows (d d' : Ssd1305Data) : Option (Stroke (ℕ × ℕ) Bool) → Prop
  | none => d' = d
  | some s => ∃ shape, Paints d d' shape s.color ∧ ∀ p ∈ screen d, p ∈ s.shape ↔ p ∈ shape

section Commands

variable {o : EssSsd1305Oled}

theorem follows_fill (hg : Geometry o.oledData) (color : Byte) :
    Follows o.oledData (drawAndShow o fun d => fill d color).oledData
      (some ⟨screen o.oledData, decide (color ≠ 0#8)⟩) := by
  rw [oledData_drawAndShow]
  refine ⟨_, fill_paints o.oledData color, fun p hp => ?_⟩
  rw [Geometry] at hg
  simp only [screen, Set.mem_ofPred_eq] at hp ⊢
  omega

theorem follows_rect (hg : Geometry o.oledData) (x y w h color : Byte) :
    Follows o.oledData (drawAndShow o fun d => rect d x y w h color 1#8).oledData
      (some ⟨box x.toNat y.toNat w.toNat h.toNat ∩ screen o.oledData, decide (color ≠ 0#8)⟩) := by
  rw [oledData_drawAndShow]
  exact ⟨_, rect_paints hg x y w h color, fun _ _ => Iff.rfl⟩

theorem follows_setPixel (hg : Geometry o.oledData) {x y : Byte} (hx : x < o.oledData.width)
    (hy : y < o.oledData.height) :
    Follows o.oledData (drawAndShow o fun d => setPixel d x y 1#8).oledData
      (some ⟨{(x.toNat, y.toNat)} ∩ screen o.oledData, true⟩) := by
  rw [oledData_drawAndShow]
  exact ⟨_, setPixel_paints hg hx hy 1#8, fun p hp => and_iff_left hp⟩

def PixelOnScreen (d : Ssd1305Data) (count : SizeT) (buff : Mem) : Prop :=
  count = 3#64 → buff 0 = cmdSetPixel → buff 1 < d.width ∧ buff 2 < d.height

theorem write1_follows (hg : Geometry o.oledData) (buff : Mem) :
    Follows o.oledData (write1 (fun _ => buff) o).oledData (stroke1 (screen o.oledData) buff) := by
  unfold write1 stroke1
  split_ifs
  · rfl
  · rfl
  · exact follows_fill hg 1#8
  · exact follows_fill hg 0#8
  · rfl

theorem write3_follows (hg : Geometry o.oledData) {buff : Mem}
    (hpix : buff 0 = cmdSetPixel → buff 1 < o.oledData.width ∧ buff 2 < o.oledData.height) :
    Follows o.oledData (write3 (fun _ => buff) o).oledData (stroke3 (screen o.oledData) buff) := by
  unfold write3 stroke3
  split_ifs with h
  · exact follows_setPixel hg (hpix h).1 (hpix h).2
  · rfl

theorem write4_follows (hg : Geometry o.oledData) (buff : Mem) :
    Follows o.oledData (write4 (fun _ => buff) o).oledData (stroke4 (screen o.oledData) buff) := by
  unfold write4 stroke4
  split_ifs
  · exact follows_rect hg _ _ _ 1#8 1#8
  · exact follows_rect hg _ _ 1#8 _ 1#8
  · rfl

theorem write5_follows (hg : Geometry o.oledData) (buff : Mem) :
    Follows o.oledData (write5 (fun _ => buff) o).oledData (stroke5 (screen o.oledData) buff) := by
  unfold write5 stroke5
  split_ifs
  · exact follows_rect hg _ _ _ _ 1#8
  · exact follows_rect hg _ _ _ _ 0#8
  · rfl

theorem essOledWrite_follows (hg : Geometry o.oledData) (copyFromUser : Bool) (count : SizeT)
    (buff : Mem) (hpix : copyFromUser = true → PixelOnScreen o.oledData count buff) :
    Follows o.oledData (essOledWrite copyFromUser (fun _ => buff) count o).2.oledData
      (if copyFromUser then writeStroke (screen o.oledData) count buff else none) := by
  unfold essOledWrite writeStroke
  split_ifs
  · exact write1_follows hg buff
  · rfl
  · exact write3_follows hg (hpix ‹_› ‹_›)
  · rfl
  · exact write4_follows hg buff
  · rfl
  · exact write5_follows hg buff
  · rfl
  · rfl
  · rfl

theorem essOledIoctl_follows (hg : Geometry o.oledData) (cmd : BitVec 32) :
    Follows o.oledData (essOledIoctl cmd o).2.oledData (ioctlStroke (screen o.oledData) cmd) := by
  unfold essOledIoctl ioctlStroke
  split_ifs
  · rfl
  · rfl
  · exact follows_fill hg 1#8
  · exact follows_fill hg 0#8
  · rfl
  · rfl

/-- The call has left everything alone, written one register, or drawn and shown. -/
def Reacts (o o' : EssSsd1305Oled) : Prop :=
  o' = o ∨ (∃ cmd, o' = register o cmd) ∨ ∃ draw, o' = drawAndShow o draw

theorem Reacts.none (o : EssSsd1305Oled) : Reacts o o := Or.inl rfl

theorem Reacts.register (o : EssSsd1305Oled) (cmd : Byte) : Reacts o (register o cmd) :=
  Or.inr (Or.inl ⟨cmd, rfl⟩)

theorem Reacts.draw (o : EssSsd1305Oled) (draw : Ssd1305Data → Ssd1305Data) :
    Reacts o (drawAndShow o draw) := Or.inr (Or.inr ⟨draw, rfl⟩)

theorem write1_reacts (buff : ℕ → Mem) : Reacts o (write1 buff o) := by
  unfold write1
  split_ifs
  · exact .register o _
  · exact .register o _
  · exact .draw o _
  · exact .draw o _
  · exact .none o

theorem write3_reacts (buff : ℕ → Mem) : Reacts o (write3 buff o) := by
  unfold write3
  split_ifs
  · exact .draw o _
  · exact .none o

theorem write4_reacts (buff : ℕ → Mem) : Reacts o (write4 buff o) := by
  unfold write4
  split_ifs
  · exact .draw o _
  · exact .draw o _
  · exact .none o

theorem write5_reacts (buff : ℕ → Mem) : Reacts o (write5 buff o) := by
  unfold write5
  split_ifs
  · exact .draw o _
  · exact .draw o _
  · exact .none o

theorem essOledWrite_reacts (copyFromUser : Bool) (buff : ℕ → Mem) (count : SizeT) :
    Reacts o (essOledWrite copyFromUser buff count o).2 := by
  unfold essOledWrite
  split_ifs
  · exact write1_reacts buff
  · exact .none o
  · exact write3_reacts buff
  · exact .none o
  · exact write4_reacts buff
  · exact .none o
  · exact write5_reacts buff
  · exact .none o
  · exact .none o

theorem essOledIoctl_reacts (cmd : BitVec 32) : Reacts o (essOledIoctl cmd o).2 := by
  unfold essOledIoctl
  split_ifs
  · exact .register o _
  · exact .register o _
  · exact .draw o _
  · exact .draw o _
  · exact .none o
  · exact .none o

theorem run_reacts (c : UserCall) : Reacts o (c.run o) := by
  cases c with
  | write copyFromUser count buff => exact essOledWrite_reacts copyFromUser _ count
  | ioctl cmd => exact essOledIoctl_reacts cmd

end Commands

section Transfers

def SendsBlocks (n : ℕ) (c : I2cClient) : Prop :=
  ∀ bytes, Transaction.masterSend bytes ∈ c.sent → bytes.length = n

variable {n : ℕ} {c : I2cClient}

theorem SendsBlocks.transfer (h : SendsBlocks n c) {t : Transaction}
    (ht : ∀ bytes, t = .masterSend bytes → bytes.length = n) : SendsBlocks n (c.transfer t).2 := by
  intro bytes hb
  rcases List.mem_append.mp hb with hb | hb
  · exact h bytes hb
  · exact ht bytes (List.mem_singleton.mp hb).symm

theorem SendsBlocks.writeCmd (h : SendsBlocks n c) (cmd : Byte) :
    SendsBlocks n (writeCmd c cmd).2 :=
  h.transfer fun _ he => Transaction.noConfusion he

theorem SendsBlocks.writeCmds (h : SendsBlocks n c) (cmds : List Byte) :
    SendsBlocks n (writeCmds cmds c).2 := by
  induction cmds generalizing c with
  | nil => exact h
  | cons cmd cmds ih =>
    unfold Oled.writeCmds
    dsimp only
    split_ifs
    · exact h.writeCmd cmd
    · exact ih (h.writeCmd cmd)

theorem SendsBlocks.displayShow {o : EssSsd1305Oled} (h : SendsBlocks n o.client)
    (hn : n = o.oledData.pages.toNat * o.oledData.width.toNat + 1) :
    SendsBlocks n (displayShow o).2.client := by
  unfold Oled.displayShow
  dsimp only
  split_ifs
  · exact h.writeCmds _
  · refine (h.writeCmds _).transfer fun bytes he => ?_
    rw [← Transaction.masterSend.inj he, length_load, hn]

theorem SendsBlocks.run {o : EssSsd1305Oled} (h : SendsBlocks n o.client) (call : UserCall)
    (hn : n = (call.run o).oledData.pages.toNat * (call.run o).oledData.width.toNat + 1) :
    SendsBlocks n (call.run o).client := by
  rcases run_reacts (o := o) call with he | ⟨cmd, he⟩ | ⟨draw, he⟩ <;> rw [he] at hn ⊢
  · exact h
  · exact h.writeCmd cmd
  · rw [oledData_drawAndShow] at hn
    exact SendsBlocks.displayShow (o := { o with oledData := draw o.oledData }) h hn

end Transfers

/-- The display as probed: 128 columns, 64 rows in 8 pages, the prefix byte, and only
indices of the 1025 bytes used so far. -/
structure Probed (o : EssSsd1305Oled) : Prop where
  height : o.oledData.height = 64#8
  pages : o.oledData.pages = 8#8
  width : o.oledData.width = 128#8
  prefixByte : o.oledData.buffer 0 = 0x40#8
  touched : ∀ i ∈ o.oledData.touched, 1 ≤ i ∧ i < 1025
  sent : SendsBlocks 1025 o.client

/-- A pixel command keeps to 128 columns and 64 rows. -/
def UserCall.PixelOnScreen : UserCall → Prop
  | .write _ count buff => count = 3#64 → buff 0 = cmdSetPixel → buff 1 < 128#8 ∧ buff 2 < 64#8
  | .ioctl _ => True

def probedScreen : Set (ℕ × ℕ) := {p | p.1 < 128 ∧ p.2 < 64}

section Probed

variable {o : EssSsd1305Oled}

theorem probed_probe (results : ℕ → ℤ) (block : Mem) :
    Probed ⟨⟨results, []⟩, probeData block⟩ := by
  refine ⟨rfl, rfl, rfl, ?_, fun i hi => ?_, fun bytes hb => ?_⟩
  · exact Function.update_self 0 0x40#8 block
  · exact absurd hi List.not_mem_nil
  · exact absurd hb List.not_mem_nil

theorem Probed.geometry (h : Probed o) : Geometry o.oledData := by
  rw [Geometry, h.pages, h.height]
  rfl

theorem Probed.screen_eq (h : Probed o) : screen o.oledData = probedScreen := by
  rw [screen, h.width, h.height]
  rfl

theorem Probed.follows (h : Probed o) {c : UserCall} (hc : c.PixelOnScreen) :
    Follows o.oledData (c.run o).oledData (c.stroke probedScreen) := by
  rw [← h.screen_eq]
  cases c with
  | write copyFromUser count buff =>
    refine essOledWrite_follows h.geometry copyFromUser count buff fun _ hcount hcode => ?_
    rw [h.width, h.height]
    exact hc hcount hcode
  | ioctl cmd => exact essOledIoctl_follows h.geometry cmd

theorem Probed.run (h : Probed o) {c : UserCall} (hc : c.PixelOnScreen) : Probed (c.run o) := by
  have hf := h.follows hc
  cases hs : c.stroke probedScreen with
  | none =>
    rw [hs] at hf
    have hd : (c.run o).oledData = o.oledData := hf
    have hsent : SendsBlocks 1025 (c.run o).client := by
      refine h.sent.run c ?_
      rw [hd, h.pages, h.width]
      rfl
    exact ⟨hd ▸ h.height, hd ▸ h.pages, hd ▸ h.width, hd ▸ h.prefixByte, hd ▸ h.touched, hsent⟩
  | some s =>
    rw [hs] at hf
    obtain ⟨shape, hp, -⟩ := hf
    refine ⟨hp.height.trans h.height, hp.pages.trans h.pages, hp.width.trans h.width,
      hp.prefixByte.trans h.prefixByte, ?_, h.sent.run c ?_⟩
    · obtain ⟨new, ht, hnew⟩ := hp.touched
      intro i hi
      rw [ht] at hi
      rcases List.mem_append.mp hi with hi | hi
      · exact h.touched i hi
      · obtain ⟨hpos, hle⟩ := hnew i hi
        rw [h.pages, h.width] at hle
        exact ⟨hpos, Nat.lt_succ_of_le hle⟩
    · rw [hp.pages, hp.width, h.pages, h.width]
      rfl

theorem Probed.foldl (h : Probed o) {calls : List UserCall} (hpix : ∀ c ∈ calls, c.PixelOnScreen) :
    Probed (calls.foldl UserCall.run o) := by
  induction calls generalizing o with
  | nil => exact h
  | cons c calls ih =>
    refine ih (h.run (hpix c List.mem_cons_self)) ?_
    intro c' hc'
    exact hpix c' (List.mem_cons_of_mem c hc')

theorem Probed.pixel_run (h : Probed o) {c : UserCall} (hc : c.PixelOnScreen) {p : ℕ × ℕ}
    (hp : p ∈ probedScreen) :
    pixel (c.run o).oledData p = paint (pixel o.oledData) (c.stroke probedScreen).toList p := by
  have hf := h.follows hc
  cases hs : c.stroke probedScreen with
  | none =>
    rw [hs] at hf
    exact congrArg (pixel · p) hf
  | some s =>
    rw [hs] at hf
    obtain ⟨shape, hpaints, hshape⟩ := hf
    have hw : p.1 < o.oledData.width.toNat := by
      rw [h.width]
      exact hp.1
    rw [h.screen_eq] at hshape
    by_cases hmem : p ∈ s.shape
    · rw [hpaints.inside p ((hshape p hp).mp hmem) hw]
      exact (Stroke.apply_of_mem hmem _).symm
    · rw [hpaints.outside p (fun hx => hmem ((hshape p hp).mpr hx)) hw]
      exact (Stroke.apply_of_notMem hmem _).symm

theorem Probed.unchanged (h : Probed o) {c : UserCall} (hc : c.stroke probedScreen = none) :
    (c.run o).oledData = o.oledData := by
  cases c with
  | write copyFromUser count buff =>
    have hnone : (if copyFromUser then writeStroke probedScreen count buff else none) = none := hc
    have hf := essOledWrite_follows h.geometry copyFromUser count buff fun hcopy hcount hcode => by
      simp [writeStroke, stroke3, hcopy, hcount, hcode] at hnone
    rwa [h.screen_eq, hnone] at hf
  | ioctl cmd =>
    have hnone : ioctlStroke probedScreen cmd = none := hc
    have hf := essOledIoctl_follows h.geometry cmd
    rwa [h.screen_eq, hnone] at hf

end Probed

/-- The painter's model: whatever calls user space makes and whatever the bus answers, as
long as pixel commands stay on the screen, the prefix byte survives, only the buffer is
touched, and each pixel shows the last command over it. -/
theorem display_shows_last_stroke (results : ℕ → ℤ) (block : Mem) (calls : List UserCall)
    (hpix : ∀ c ∈ calls, c.PixelOnScreen) :
    let o : EssSsd1305Oled := ⟨⟨results, []⟩, probeData block⟩
    let o' := calls.foldl UserCall.run o
    o'.oledData.buffer 0 = 0x40#8 ∧
      (∀ i ∈ o'.oledData.touched, 1 ≤ i ∧ i < 1025) ∧
      (∀ bytes, Transaction.masterSend bytes ∈ o'.client.sent → bytes.length = 1025) ∧
      (∀ i j : Byte, i.toNat < 128 → j.toNat < 64 →
        getPixel o'.oledData i j =
          match lastOver (i.toNat, j.toNat) (calls.filterMap (UserCall.stroke probedScreen)) with
          | some s => s.color.toNat
          | none => getPixel o.oledData i j) ∧
      (∀ c : UserCall, c.stroke probedScreen = none → (c.run o').oledData = o'.oledData) := by
  intro o o'
  have ho : Probed o := probed_probe results block
  have hstep : ∀ (o : EssSsd1305Oled) (c : UserCall) (p : ℕ × ℕ), Probed o → c.PixelOnScreen →
      p ∈ probedScreen → pixel (UserCall.run o c).oledData p =
        paint (pixel o.oledData) (c.stroke probedScreen).toList p :=
    fun _ _ _ h hc hp => h.pixel_run hc hp
  have hkeep : ∀ (o : EssSsd1305Oled) (c : UserCall), Probed o → c.PixelOnScreen →
      Probed (c.run o) := fun _ _ h hc => h.run hc
  obtain ⟨h, hview⟩ := view_foldl (fun o => pixel o.oledData) UserCall.run
    (UserCall.stroke probedScreen) hkeep hstep calls o ho hpix
  refine ⟨h.prefixByte, h.touched, h.sent, ?_, ?_⟩
  · intro i j hi hj
    rw [getPixel_eq, getPixel_eq, hview _ ⟨hi, hj⟩, paint_eq_lastOver]
    cases lastOver (i.toNat, j.toNat) (calls.filterMap (UserCall.stroke probedScreen)) <;> rfl
  · exact fun c hc => h.unchanged hc

/-- A full display with one pixel command on it. -/
theorem display_shows_last_stroke_pixel :
    getPixel ([UserCall.write true 1#64 (ofBytes [0x04]),
      UserCall.write true 3#64 (ofBytes [0x05, 3, 4])].foldl UserCall.run
        ⟨⟨fun _ => 0, []⟩, probeData fun _ => 0⟩).oledData 3 4 = 1 := by
  have h := (display_shows_last_stroke (fun _ => 0) (fun _ => 0)
    [.write true 1#64 (ofBytes [0x04]), .write true 3#64 (ofBytes [0x05, 3, 4])] (by
      intro c hc
      simp only [List.mem_cons, List.not_mem_nil, or_false] at hc
      rcases hc with rfl | rfl <;> simp [UserCall.PixelOnScreen, ofBytes])).2.2.2.1 3 4
    (by decide) (by decide)
  have hmem : ((3, 4) : ℕ × ℕ) ∈ ({(3, 4)} ∩ probedScreen : Set (ℕ × ℕ)) :=
    ⟨rfl, by decide, by decide⟩
  have hlast : lastOver (3, 4) [⟨probedScreen, false⟩, ⟨{(3, 4)} ∩ probedScreen, true⟩] =
      some ⟨{(3, 4)} ∩ probedScreen, true⟩ :=
    lastOver_concat_of_mem (s := ⟨{(3, 4)} ∩ probedScreen, true⟩) hmem [⟨probedScreen, false⟩]
  rw [h]
  change (match lastOver (3, 4) [⟨probedScreen, false⟩, ⟨{(3, 4)} ∩ probedScreen, true⟩] with
    | some s => s.color.toNat
    | none => _) = 1
  rw [hlast]
  rfl

end LinuxOddsAndEnds.Oled
