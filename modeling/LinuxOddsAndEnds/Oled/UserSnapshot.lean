import LinuxOddsAndEnds.Oled.BusInterleaving
import LinuxOddsAndEnds.Oled.CommandSafety
import LinuxOddsAndEnds.Oled.ProbeRegmap

/-!
# Which bytes decide a write command

`ess_oled_write` copies the command out of user memory and then goes on to read it through
the user pointer, byte by byte. Another thread may store to that memory in between, so what
the write does is decided by what the later accesses find. The two modules share the text
of the function; they differ in how a command and the frame get onto the bus.
-/

namespace LinuxOddsAndEnds.Oled

open Foundation
open Interleaving (Reaction reactWrite react1 react3 react4 react5)

/-- What the accesses of one write find: the one that asks for the byte at offset `i` is the
`i`-th of them. -/
def seenThrough (buff : ℕ → Mem) : Mem := fun i => buff i i

@[simp] theorem seenThrough_const (b : Mem) : seenThrough (fun _ => b) = b := rfl

/-- Whatever the later accesses find, the outcome is the one of the copied bytes. -/
def CopyDecides {δ : Type*} (write : (ℕ → Mem) → δ) (copied : Mem) : Prop :=
  ∀ later, write later = write fun _ => copied

/-- The outcome is the one of the copied bytes if the first `n` bytes do not change. -/
def UnchangedDecides {δ : Type*} (write : (ℕ → Mem) → δ) (n : ℕ) (copied : Mem) : Prop :=
  ∀ later, (∀ i < n, seenThrough later i = copied i) → write later = write fun _ => copied

namespace Regmap

/-- What a command does to the display of the regmap module. -/
def Panel.react (p : Panel) : Reaction → Panel
  | .none => p
  | .register cmd => (writeCmd p cmd).2
  | .draw f => (showPanel ((Setup.draw f).run p).2).2

/-- `ess_oled_write` of the regmap module. -/
def essOledWrite (copyFromUser : Bool) (buff : ℕ → Mem) (count : SizeT) (p : Panel) :
    SizeT × Panel :=
  (count, p.react (reactWrite copyFromUser count (seenThrough buff)))

end Regmap

section Decoding

variable {count : SizeT} {b b' : Mem}

theorem reactWrite_congr {copyFromUser : Bool} (h : ∀ i < count.toNat, b i = b' i) :
    reactWrite copyFromUser count b = reactWrite copyFromUser count b' := by
  unfold reactWrite
  split_ifs with _ h1 h3 h4 h5
  · rfl
  · have hlen : count.toNat = 1 := by rw [h1]; rfl
    simp only [react1, h 0 (by omega)]
  · have hlen : count.toNat = 3 := by rw [h3]; rfl
    simp only [react3, h 0 (by omega), h 1 (by omega), h 2 (by omega)]
  · have hlen : count.toNat = 4 := by rw [h4]; rfl
    simp only [react4, h 0 (by omega), h 1 (by omega), h 2 (by omega), h 3 (by omega)]
  · have hlen : count.toNat = 5 := by rw [h5]; rfl
    simp only [react5, h 0 (by omega), h 1 (by omega), h 2 (by omega), h 3 (by omega),
      h 4 (by omega)]
  · rfl

/-- For each of the four lengths there are bytes that say nothing and bytes that are a
command. -/
theorem exists_reaction (hcount : count = 1#64 ∨ count = 3#64 ∨ count = 4#64 ∨ count = 5#64) :
    (∃ b, reactWrite true count b = .none) ∧ ∃ b, reactWrite true count b ≠ .none := by
  rcases hcount with rfl | rfl | rfl | rfl
  · exact ⟨⟨fun _ => 0, rfl⟩, fun _ => cmdDisableSeqNum, nofun⟩
  · exact ⟨⟨fun _ => 0, rfl⟩, fun _ => cmdSetPixel, nofun⟩
  · exact ⟨⟨fun _ => 0, rfl⟩, fun _ => cmdHLine, nofun⟩
  · exact ⟨⟨fun _ => 0, rfl⟩, fun _ => cmdRectFill, nofun⟩

end Decoding

section Decision

variable {δ : Type*} {react : Reaction → δ} {write : (ℕ → Mem) → δ} {copyFromUser : Bool}
  {count : SizeT}

theorem unchangedDecides
    (hwrite : ∀ buff, write buff = react (reactWrite copyFromUser count (seenThrough buff)))
    (copied : Mem) : UnchangedDecides write count.toNat copied := by
  intro later hsame
  rw [hwrite, hwrite]
  exact congrArg react (reactWrite_congr hsame)

/-- If a command can be told from none by its outcome, the copy decides only when it fails. -/
theorem copyDecides_iff
    (hwrite : ∀ buff, write buff = react (reactWrite copyFromUser count (seenThrough buff)))
    (hacts : ∀ r, r ≠ .none → react r ≠ react .none)
    (hcount : count = 1#64 ∨ count = 3#64 ∨ count = 4#64 ∨ count = 5#64) (copied : Mem) :
    CopyDecides write copied ↔ copyFromUser = false := by
  cases copyFromUser with
  | false =>
    refine iff_of_true ?_ rfl
    intro later
    rw [hwrite, hwrite, reactWrite, reactWrite, if_pos rfl, if_pos rfl]
  | true =>
    refine iff_of_false ?_ (by decide)
    intro h
    obtain ⟨⟨idle, hidle⟩, busy, hbusy⟩ := exists_reaction hcount
    have hsame : write (fun _ => idle) = write fun _ => busy :=
      (h fun _ => idle).trans (h fun _ => busy).symm
    rw [hwrite, hwrite, seenThrough_const, seenThrough_const, hidle] at hsame
    exact hacts _ hbusy hsame.symm

end Decision

section Outcomes

variable {o : EssSsd1305Oled}

theorem essOledWrite_eq_react (copyFromUser : Bool) (buff : ℕ → Mem) (count : SizeT) :
    (essOledWrite copyFromUser buff count o).2 =
      (reactWrite copyFromUser count (seenThrough buff)).run o :=
  Interleaving.run_eq_reaction o (.write copyFromUser count (seenThrough buff))

theorem length_writeCmds (cmds : List Byte) (c : I2cClient) :
    c.sent.length ≤ (writeCmds cmds c).2.sent.length := by
  induction cmds generalizing c with
  | nil => exact le_rfl
  | cons cmd cmds ih =>
    have hfirst : c.sent.length ≤ (writeCmd c cmd).2.sent.length := by
      simp [writeCmd, I2cClient.transfer]
    rw [writeCmds]
    split_ifs
    · exact hfirst
    · exact hfirst.trans (ih _)

theorem length_displayShow (o : EssSsd1305Oled) :
    o.client.sent.length < (displayShow o).2.client.sent.length := by
  have hfirst : o.client.sent.length <
      (writeCmds (windowCmds o.oledData) o.client).2.sent.length := by
    have hone : o.client.sent.length < (writeCmd o.client setColAddr).2.sent.length := by
      simp [writeCmd, I2cClient.transfer]
    rw [windowCmds, writeCmds]
    split_ifs
    · exact hone
    · exact hone.trans_le (length_writeCmds _ _)
  obtain ⟨c, d⟩ := o
  rw [displayShow_eq]
  split_ifs
  · exact hfirst
  · refine hfirst.trans ?_
    simp [I2cClient.transfer]

theorem run_ne {r : Reaction} (hr : r ≠ .none) : r.run o ≠ Reaction.none.run o := by
  have hsent : o.client.sent.length < (r.run o).client.sent.length := by
    cases r with
    | none => exact absurd rfl hr
    | register cmd => simp [Reaction.run, register, writeCmd, I2cClient.transfer]
    | draw f => exact length_displayShow { o with oledData := f o.oledData }
  intro h
  rw [h] at hsent
  exact lt_irrefl _ hsent

end Outcomes

namespace Regmap

theorem length_showCmds (cmds : List Byte) (b : Bus) :
    b.transfers.length ≤ (showCmds sendCmd cmds b).bus.transfers.length := by
  induction cmds generalizing b with
  | nil => exact le_rfl
  | cons cmd cmds ih =>
    have hfirst : b.transfers.length ≤ (sendCmd b cmd).2.transfers.length := by
      simp [sendCmd, Bus.send]
    rw [showCmds]
    split_ifs
    · exact hfirst
    · exact hfirst.trans (ih _)

theorem length_showRegmap (d : Ssd1305Data) (b : Bus) :
    b.transfers.length < (showRegmap d b).bus.transfers.length := by
  have hfirst : b.transfers.length <
      (showCmds sendCmd (windowCmds d) b).bus.transfers.length := by
    have hone : b.transfers.length < (sendCmd b setColAddr).2.transfers.length := by
      simp [sendCmd, Bus.send]
    rw [windowCmds, showCmds]
    split_ifs
    · exact hone
    · exact hone.trans_le (length_showCmds _ _)
  change _ < (showWith sendCmd _ d b).bus.transfers.length
  rw [showWith]
  split_ifs
  · exact hfirst
  · refine hfirst.trans ?_
    simp [checkLen, regmapBulkWrite, Bus.sendFrom, Bus.send]

theorem react_ne {p : Panel} {r : Reaction} (hr : r ≠ .none) : p.react r ≠ p.react .none := by
  have hsent : p.bus.transfers.length < (p.react r).bus.transfers.length := by
    cases r with
    | none => exact absurd rfl hr
    | register cmd => simp [Panel.react, writeCmd, regmapWrite, Bus.send, Panel.uses]
    | draw f => exact length_showRegmap (f p.data) p.bus
  intro h
  rw [h] at hsent
  exact lt_irrefl _ hsent

end Regmap

/-- In both modules and for each length of a command, the copied bytes decide what a write
does only if the copy fails; otherwise the write follows the bytes found later, and does
what the copy decides while these are the copied ones. -/
theorem copy_decides_iff (count : SizeT)
    (hcount : count = 1#64 ∨ count = 3#64 ∨ count = 4#64 ∨ count = 5#64) (copyFromUser : Bool)
    (copied : Mem) :
    (∀ o : EssSsd1305Oled,
      (CopyDecides (fun buff => (essOledWrite copyFromUser buff count o).2) copied ↔
        copyFromUser = false) ∧
      UnchangedDecides (fun buff => (essOledWrite copyFromUser buff count o).2) count.toNat
        copied) ∧
    ∀ p : Regmap.Panel,
      (CopyDecides (fun buff => (Regmap.essOledWrite copyFromUser buff count p).2) copied ↔
        copyFromUser = false) ∧
      UnchangedDecides (fun buff => (Regmap.essOledWrite copyFromUser buff count p).2) count.toNat
        copied := by
  constructor
  · intro o
    have hwrite := fun buff => essOledWrite_eq_react (o := o) copyFromUser buff count
    exact ⟨copyDecides_iff hwrite (fun _ => run_ne) hcount copied, unchangedDecides hwrite copied⟩
  · intro p
    have hwrite : ∀ buff, (Regmap.essOledWrite copyFromUser buff count p).2 =
        p.react (reactWrite copyFromUser count (seenThrough buff)) := fun _ => rfl
    exact ⟨copyDecides_iff hwrite (fun _ => Regmap.react_ne) hcount copied,
      unchangedDecides hwrite copied⟩

/-- A write of one byte whose copy fails is decided. -/
theorem copy_decides_failed :
    CopyDecides (fun buff => (essOledWrite false buff 1#64 blankDisplay).2) (ofBytes [0x01]) :=
  ((copy_decides_iff 1#64 (Or.inl rfl) false (ofBytes [0x01])).1 blankDisplay).1.mpr rfl

/-- The copied byte is no command; by the time it is looked at it switches the display off. -/
theorem stored_after_copy :
    ¬CopyDecides (fun buff => (essOledWrite true buff 1#64 blankDisplay).2) (ofBytes [0x00]) := by
  intro h
  have hsent := congrArg (fun o => o.client.sent) (h fun _ => ofBytes [0x01])
  have hoff : (essOledWrite true (fun _ => ofBytes [0x01]) 1#64 blankDisplay).2.client.sent =
      [.smbusByteData command setDispOff] := by decide
  have hidle : (essOledWrite true (fun _ => ofBytes [0x00]) 1#64 blankDisplay).2.client.sent = [] :=
    by decide
  exact List.cons_ne_nil _ _ (hoff.symm.trans (hsent.trans hidle))

end LinuxOddsAndEnds.Oled
