import LinuxOddsAndEnds.Oled.I2cOled

/-!
# The two versions of show

`show` of the plain module and of the regmap module differ in the calls that carry a
command and the frame. Both are run here on a bus that keeps the bytes of each transfer
and the bytes of the frame buffer that were read. The plain calls send what they are
given and answer the number of bytes; the regmap calls send a register and what they are
given and answer zero.
-/

namespace LinuxOddsAndEnds.Oled.Regmap

open Foundation

/-- `failure n` is what the `n`-th transfer answers when it fails. -/
structure Bus where
  failure : ℕ → Option ℤ
  transfers : List (List Byte)
  reads : List ℕ

/-- One transfer, which answers `ret` when it succeeds. -/
def Bus.send (b : Bus) (bytes : List Byte) (ret : ℤ) : ℤ × Bus :=
  ((b.failure b.transfers.length).getD ret, { b with transfers := b.transfers ++ [bytes] })

/-- A transfer of `n` bytes of the frame buffer from offset `off` on, behind other bytes. -/
def Bus.sendFrom (b : Bus) (front : List Byte) (buffer : Mem) (off n : ℕ) (ret : ℤ) : ℤ × Bus :=
  { b with reads := b.reads ++ (List.range n).map (off + ·) }.send (front ++ load buffer off n) ret

def i2cSmbusWriteByteData (b : Bus) (command value : Byte) : ℤ × Bus := b.send [command, value] 0

def i2cMasterSend (b : Bus) (buffer : Mem) (count : ℕ) : ℤ × Bus :=
  b.sendFrom [] buffer 0 count count

def regmapWrite (b : Bus) (reg value : Byte) : ℤ × Bus := b.send [reg, value] 0

def regmapBulkWrite (b : Bus) (reg : Byte) (buffer : Mem) (off count : ℕ) : ℤ × Bus :=
  b.sendFrom [reg] buffer off count 0

/-- What `show` returns and whether it went through one of its error branches. -/
structure ShowResult where
  ret : ℤ
  error : Bool
  bus : Bus

/-- The six commands of the window, each with its own error branch. -/
def showCmds (writeCmd : Bus → Byte → ℤ × Bus) : List Byte → Bus → ShowResult
  | [], b => ⟨0, false, b⟩
  | cmd :: cmds, b =>
    if (writeCmd b cmd).1 < 0 then ⟨(writeCmd b cmd).1, true, (writeCmd b cmd).2⟩
    else showCmds writeCmd cmds (writeCmd b cmd).2

/-- The last branch: the answer is compared with `len`. -/
def checkLen (d : Ssd1305Data) (out : ℤ × Bus) : ShowResult := ⟨out.1, out.1 ≠ frameLen d, out.2⟩

/-- The body that both versions share. -/
def showWith (writeCmd : Bus → Byte → ℤ × Bus) (sendFrame : Bus → ℕ → ℤ × Bus) (d : Ssd1305Data)
    (b : Bus) : ShowResult :=
  if (showCmds writeCmd (windowCmds d) b).error then showCmds writeCmd (windowCmds d) b
  else checkLen d (sendFrame (showCmds writeCmd (windowCmds d) b).bus (frameLen d))

def setDispStartLine : Byte := 0x40

def showI2c (d : Ssd1305Data) : Bus → ShowResult :=
  showWith (fun b cmd => i2cSmbusWriteByteData b command cmd)
    (fun b len => i2cMasterSend b d.buffer len) d

def showRegmap (d : Ssd1305Data) : Bus → ShowResult :=
  showWith (fun b cmd => regmapWrite b command cmd)
    (fun b len => regmapBulkWrite b setDispStartLine d.buffer 1 len) d

def freshBus (failure : ℕ → Option ℤ) : Bus := ⟨failure, [], []⟩

/-- With all calls succeeding the versions send the same: the window commands, then the
prefix and the frame. -/
def SameStream (d : Ssd1305Data) : Prop :=
  (showRegmap d (freshBus fun _ => none)).bus.transfers =
      (windowCmds d).map (fun cmd => [command, cmd]) ++
        [setDispStartLine :: load d.buffer 1 (d.pages.toNat * d.width.toNat)] ∧
    (showRegmap d (freshBus fun _ => none)).bus.transfers =
      (showI2c d (freshBus fun _ => none)).bus.transfers

/-- With all calls succeeding a version reads only bytes of the frame buffer. -/
def ReadsInside (version : Ssd1305Data → Bus → ShowResult) (d : Ssd1305Data) : Prop :=
  ∀ i ∈ (version d (freshBus fun _ => none)).bus.reads, i < frameLen d

/-- A version takes an error branch exactly when one of its transfers failed. -/
def ErrorsExact (version : Ssd1305Data → Bus → ShowResult) (d : Ssd1305Data) : Prop :=
  ∀ failure : ℕ → Option ℤ, (∀ n e, failure n = some e → e < 0) →
    ((version d (freshBus failure)).error = true ↔
      ∃ n < (version d (freshBus failure)).bus.transfers.length, (failure n).isSome)

section Commands

variable {failure : ℕ → Option ℤ}

/-- The two calls that carry a command do the same. -/
def sendCmd (b : Bus) (cmd : Byte) : ℤ × Bus := b.send [command, cmd] 0

theorem showCmds_spec (hneg : ∀ n e, failure n = some e → e < 0) : ∀ (cmds : List Byte) (b : Bus),
    b.failure = failure →
    ((showCmds sendCmd cmds b).error = false ∧ (showCmds sendCmd cmds b).bus =
        { b with transfers := b.transfers ++ cmds.map fun cmd => [command, cmd] } ∧
      ∀ n, b.transfers.length ≤ n → n < b.transfers.length + cmds.length → failure n = none) ∨
    ((showCmds sendCmd cmds b).error = true ∧
      ∃ n < (showCmds sendCmd cmds b).bus.transfers.length, (failure n).isSome) := by
  intro cmds
  induction cmds with
  | nil =>
    intro b _
    refine Or.inl ⟨rfl, by simp [showCmds], ?_⟩
    intro n hle hlt
    rw [List.length_nil] at hlt
    omega
  | cons cmd cmds ih =>
    intro b hb
    cases hf : failure b.transfers.length with
    | some e =>
      have hret : (sendCmd b cmd).1 < 0 := by
        simpa [sendCmd, Bus.send, hb, hf] using hneg _ e hf
      refine Or.inr ?_
      simp only [showCmds, if_pos hret, true_and]
      refine ⟨b.transfers.length, ?_, by rw [hf]; rfl⟩
      simp [sendCmd, Bus.send]
    | none =>
      have hret : ¬(sendCmd b cmd).1 < 0 := by simp [sendCmd, Bus.send, hb, hf]
      simp only [showCmds, if_neg hret]
      rcases ih (sendCmd b cmd).2 hb with ⟨he, hbus, hnone⟩ | hfail
      · refine Or.inl ⟨he, ?_, ?_⟩
        · rw [hbus]
          simp [sendCmd, Bus.send]
        · intro n hle hlt
          rcases Nat.eq_or_lt_of_le hle with rfl | hgt
          · exact hf
          · refine hnone n ?_ ?_
            · simp only [sendCmd, Bus.send, List.length_append, List.length_singleton]
              omega
            · simp only [sendCmd, Bus.send, List.length_append, List.length_singleton]
              rw [List.length_cons] at hlt
              omega
      · exact Or.inr hfail

theorem showCmds_quiet (d : Ssd1305Data) :
    (showCmds sendCmd (windowCmds d) (freshBus fun _ => none)).error = false ∧
      (showCmds sendCmd (windowCmds d) (freshBus fun _ => none)).bus =
        ⟨fun _ => none, (windowCmds d).map fun cmd => [command, cmd], []⟩ := by
  have hneg : ∀ (n : ℕ) (e : ℤ), (none : Option ℤ) = some e → e < 0 := fun _ _ h => by cases h
  rcases showCmds_spec hneg (windowCmds d) (freshBus fun _ => none) rfl with
    ⟨he, hbus, -⟩ | ⟨-, n, -, hn⟩
  · exact ⟨he, hbus⟩
  · cases hn

theorem showWith_quiet (sendFrame : Bus → ℕ → ℤ × Bus) (d : Ssd1305Data) :
    showWith sendCmd sendFrame d (freshBus fun _ => none) =
      checkLen d (sendFrame ⟨fun _ => none, (windowCmds d).map fun cmd => [command, cmd], []⟩
        (frameLen d)) := by
  obtain ⟨he, hbus⟩ := showCmds_quiet d
  rw [showWith, he, hbus]
  rfl

end Commands

theorem showI2c_quiet (d : Ssd1305Data) : showI2c d (freshBus fun _ => none) =
    ⟨frameLen d, false, ⟨fun _ => none, (windowCmds d).map (fun cmd => [command, cmd]) ++
      [load d.buffer 0 (frameLen d)], (List.range (frameLen d)).map (0 + ·)⟩⟩ := by
  have h := showWith_quiet (fun b len => i2cMasterSend b d.buffer len) d
  refine h.trans ?_
  simp [checkLen, i2cMasterSend, Bus.sendFrom, Bus.send]

theorem showRegmap_quiet (d : Ssd1305Data) : showRegmap d (freshBus fun _ => none) =
    ⟨0, true, ⟨fun _ => none, (windowCmds d).map (fun cmd => [command, cmd]) ++
      [setDispStartLine :: load d.buffer 1 (frameLen d)],
      (List.range (frameLen d)).map (1 + ·)⟩⟩ := by
  have h := showWith_quiet (fun b len => regmapBulkWrite b setDispStartLine d.buffer 1 len) d
  refine h.trans ?_
  have hne : (0 : ℤ) ≠ frameLen d := by
    rw [frameLen]
    omega
  simp [checkLen, regmapBulkWrite, Bus.sendFrom, Bus.send, hne]

theorem readsInside_showI2c (d : Ssd1305Data) : ReadsInside showI2c d := by
  intro i hi
  rw [showI2c_quiet] at hi
  simpa using hi

theorem showI2c_transfers (d : Ssd1305Data) (hpre : d.buffer 0 = setDispStartLine) :
    (showI2c d (freshBus fun _ => none)).bus.transfers =
      (windowCmds d).map (fun cmd => [command, cmd]) ++
        [setDispStartLine :: load d.buffer 1 (d.pages.toNat * d.width.toNat)] := by
  rw [showI2c_quiet, frameLen, load_succ, hpre]

theorem errorsExact_showI2c (d : Ssd1305Data) : ErrorsExact showI2c d := by
  intro failure hneg
  change (showWith sendCmd _ d _).error = true ↔
    ∃ n < (showWith sendCmd _ d _).bus.transfers.length, (failure n).isSome
  rcases showCmds_spec hneg (windowCmds d) (freshBus failure) rfl with
    ⟨he, hbus, hnone⟩ | ⟨he, hfail⟩
  · rw [showWith, he, hbus]
    simp only [Bool.false_eq_true, if_false, checkLen, i2cMasterSend, Bus.sendFrom, Bus.send,
      freshBus, windowCmds, List.map_cons, List.map_nil, List.nil_append, List.length_append,
      List.length_cons, List.length_nil, decide_eq_true_eq]
    have hsix : ∀ n < 6, failure n = none := fun n hn => hnone n (Nat.zero_le n) hn
    cases hlast : failure 6 with
    | some e =>
      have he := hneg 6 e hlast
      have hne : e ≠ (frameLen d : ℤ) := by omega
      simp only [Option.getD_some, hne, ne_eq, not_false_eq_true, true_iff]
      exact ⟨6, by omega, by rw [hlast]; rfl⟩
    | none =>
      simp only [Option.getD_none, ne_eq, not_true_eq_false, false_iff]
      rintro ⟨n, hn, hsome⟩
      rcases Nat.lt_or_ge n 6 with hlt | hge
      · rw [hsix n hlt] at hsome
        cases hsome
      · obtain rfl : n = 6 := by omega
        rw [hlast] at hsome
        cases hsome
  · rw [showWith, he, if_pos rfl, he]
    simpa using hfail

theorem not_sameStream (d : Ssd1305Data) : ¬SameStream d := by
  rintro ⟨hstream, -⟩
  rw [showRegmap_quiet] at hstream
  have hlast := List.append_cancel_left hstream
  have hlen := congrArg List.length (List.cons.inj (List.cons.inj hlast).1).2
  rw [length_load, length_load, frameLen] at hlen
  omega

theorem not_readsInside (d : Ssd1305Data) : ¬ReadsInside showRegmap d := by
  intro h
  have hlast : frameLen d ∈ (showRegmap d (freshBus fun _ => none)).bus.reads := by
    rw [showRegmap_quiet]
    refine List.mem_map.mpr ⟨frameLen d - 1, ?_, ?_⟩
    · rw [List.mem_range, frameLen]
      omega
    · rw [frameLen]
      omega
  exact absurd (h _ hlast) (lt_irrefl _)

theorem not_errorsExact (d : Ssd1305Data) : ¬ErrorsExact showRegmap d := by
  intro h
  have hiff := h (fun _ => none) (fun _ _ he => by cases he)
  rw [showRegmap_quiet] at hiff
  obtain ⟨n, -, hn⟩ := hiff.mp rfl
  cases hn

/-- For no geometry and no frame does the regmap version send the stream of the plain one,
keep to the frame buffer, or tell a failed transfer from a successful one; the plain
version does the last two always. -/
theorem regmap_show_never (d : Ssd1305Data) :
    ¬SameStream d ∧ ¬ReadsInside showRegmap d ∧ ¬ErrorsExact showRegmap d ∧
      ReadsInside showI2c d ∧ ErrorsExact showI2c d :=
  ⟨not_sameStream d, not_readsInside d, not_errorsExact d, readsInside_showI2c d,
    errorsExact_showI2c d⟩

/-- The blank frame as probed. -/
theorem regmap_show_differs : ¬∀ d : Ssd1305Data, d.buffer 0 = setDispStartLine →
    SameStream d ∧ ReadsInside showRegmap d ∧ ReadsInside showI2c d ∧ ErrorsExact showRegmap d ∧
      ErrorsExact showI2c d := by
  intro h
  exact not_sameStream (probeData fun _ => 0) (h (probeData fun _ => 0) rfl).1

/-- The bytes that a transaction of the plain module puts on the wire. -/
def wire : Transaction → List Byte
  | .smbusByteData command value => [command, value]
  | .masterSend bytes => bytes

theorem writeCmds_eq {failure : ℕ → Option ℤ} : ∀ (cmds : List Byte) (c : I2cClient) (b : Bus),
    b.failure = failure → c.sent.map wire = b.transfers →
    (∀ n < c.sent.length + cmds.length, c.results n = (failure n).getD 0) →
    (writeCmds cmds c).1 = (showCmds sendCmd cmds b).ret ∧
      ((writeCmds cmds c).1 < 0 ↔ (showCmds sendCmd cmds b).error = true) ∧
      (writeCmds cmds c).2.sent.map wire = (showCmds sendCmd cmds b).bus.transfers ∧
      (writeCmds cmds c).2.results = c.results ∧
      (showCmds sendCmd cmds b).bus.failure = failure := by
  intro cmds
  induction cmds with
  | nil =>
    intro c b hb hsent _
    exact ⟨rfl, by simp [writeCmds, showCmds], hsent, rfl, hb⟩
  | cons cmd cmds ih =>
    intro c b hb hsent hres
    have hlen : b.transfers.length = c.sent.length := by rw [← hsent, List.length_map]
    have hret : (writeCmd c cmd).1 = (sendCmd b cmd).1 := by
      simp only [writeCmd, I2cClient.transfer, sendCmd, Bus.send, hb, hlen]
      exact hres _ (by rw [List.length_cons]; omega)
    have hnext : (writeCmd c cmd).2.sent.map wire = (sendCmd b cmd).2.transfers := by
      simp only [writeCmd, I2cClient.transfer, sendCmd, Bus.send, List.map_append, hsent,
        List.map_singleton, wire]
    by_cases hneg : (sendCmd b cmd).1 < 0
    · rw [writeCmds, showCmds, if_pos hneg, hret, if_pos hneg]
      exact ⟨hret, by rw [hret]; simpa using hneg, hnext, rfl, hb⟩
    · rw [writeCmds, showCmds, if_neg hneg, hret, if_neg hneg]
      refine ih _ _ hb hnext ?_
      intro n hn
      refine hres n ?_
      simp only [writeCmd, I2cClient.transfer, List.length_append, List.length_singleton] at hn
      rw [List.length_cons]
      omega

/-- The plain version is the `show` that the drawing commands run: it answers the same and
puts the same bytes on the wire. -/
theorem showI2c_eq_displayShow (d : Ssd1305Data) {failure : ℕ → Option ℤ}
    (hneg : ∀ n e, failure n = some e → e < 0) {c : I2cClient} (hnew : c.sent = [])
    (hres : ∀ n, c.results n = (failure n).getD (if n = 6 then frameLen d else 0)) :
    (displayShow ⟨c, d⟩).1 = (showI2c d (freshBus failure)).ret ∧
      (displayShow ⟨c, d⟩).2.client.sent.map wire =
        (showI2c d (freshBus failure)).bus.transfers := by
  change _ = (showWith sendCmd _ d _).ret ∧ _ = (showWith sendCmd _ d _).bus.transfers
  have hcmds : ∀ n < c.sent.length + (windowCmds d).length, c.results n = (failure n).getD 0 := by
    intro n hn
    have hlen : (windowCmds d).length = 6 := rfl
    rw [hnew, List.length_nil] at hn
    rw [hres, if_neg (by omega)]
  obtain ⟨hret, herr, hsent, hresults, -⟩ :=
    writeCmds_eq (windowCmds d) c (freshBus failure) rfl (by rw [hnew]; rfl) hcmds
  rw [displayShow_eq, showWith]
  rcases showCmds_spec hneg (windowCmds d) (freshBus failure) rfl with ⟨he, hbus, -⟩ | ⟨he, -⟩
  · rw [he] at herr ⊢
    have hok : ¬(writeCmds (windowCmds d) c).1 < 0 := fun h => Bool.false_ne_true (herr.mp h)
    have hsix : (writeCmds (windowCmds d) c).2.sent.length = 6 := by
      rw [← List.length_map (f := wire), hsent, hbus]
      rfl
    rw [if_neg hok]
    simp only [Bool.false_eq_true, if_false, I2cClient.transfer, checkLen, i2cMasterSend,
      Bus.sendFrom, Bus.send, List.map_append, hsent, hresults, hres, hsix, hbus]
    exact ⟨rfl, rfl⟩
  · rw [if_pos (herr.mpr he), if_pos he]
    exact ⟨hret, hsent⟩

end LinuxOddsAndEnds.Oled.Regmap
