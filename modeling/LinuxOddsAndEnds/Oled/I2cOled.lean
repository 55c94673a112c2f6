import LinuxOddsAndEnds.Oled.FrameBuffer
import LinuxOddsAndEnds.Oled.I2cOledGlobal

/-!
# Commands from user space to the display

`show`, `ess_oled_write` and `ess_oled_ioctl` of `i2c_oled.c`. The bus answers each
transaction with an arbitrary `int`; what was handed to it is kept in order. User memory
is read through the user pointer at every use, as the source does.
-/

namespace LinuxOddsAndEnds.Oled

open Foundation

inductive Transaction where
  | smbusByteData (command value : Byte)
  | masterSend (bytes : List Byte)
  deriving DecidableEq

/-- `results n` is the answer to the `n`-th transaction. -/
structure I2cClient where
  results : ℕ → ℤ
  sent : List Transaction

def I2cClient.transfer (c : I2cClient) (t : Transaction) : ℤ × I2cClient :=
  (c.results c.sent.length, { c with sent := c.sent ++ [t] })

def command : Byte := 0x80

/-- `i2c_smbus_write_byte_data(client, COMMAND, cmd)`. -/
def writeCmd (c : I2cClient) (cmd : Byte) : ℤ × I2cClient := c.transfer (.smbusByteData command cmd)

/-- Command bytes one after the other, up to the first negative answer. -/
def writeCmds : List Byte → I2cClient → ℤ × I2cClient
  | [], c => (0, c)
  | cmd :: cmds, c =>
    let out := writeCmd c cmd
    if out.1 < 0 then out else writeCmds cmds out.2

structure EssSsd1305Oled where
  client : I2cClient
  oledData : Ssd1305Data

def setColAddr : Byte := 0x21
def setPageAddr : Byte := 0x22
def setDispOff : Byte := 0xAE
def setDispOn : Byte := 0xAF

/-- The six window commands and then the buffer with its prefix byte. -/
def displayShow (o : EssSsd1305Oled) : ℤ × EssSsd1305Oled :=
  let d := o.oledData
  let out := writeCmds [setColAddr, 0, d.width - 1#8, setPageAddr, 0, d.pages - 1#8] o.client
  if out.1 < 0 then (out.1, { o with client := out.2 })
  else
    let len := d.pages.toNat * d.width.toNat + 1
    let out := out.2.transfer (.masterSend (load d.buffer 0 len))
    (out.1, { o with client := out.2 })

def windowCmds (d : Ssd1305Data) : List Byte :=
  [setColAddr, 0, d.width - 1#8, setPageAddr, 0, d.pages - 1#8]

/-- `len`, the size of the frame buffer with its prefix byte. -/
def frameLen (d : Ssd1305Data) : ℕ := d.pages.toNat * d.width.toNat + 1

theorem displayShow_eq (c : I2cClient) (d : Ssd1305Data) : displayShow ⟨c, d⟩ =
    if (writeCmds (windowCmds d) c).1 < 0 then
      ((writeCmds (windowCmds d) c).1, ⟨(writeCmds (windowCmds d) c).2, d⟩)
    else
      (((writeCmds (windowCmds d) c).2.transfer (.masterSend (load d.buffer 0 (frameLen d)))).1,
        ⟨((writeCmds (windowCmds d) c).2.transfer (.masterSend (load d.buffer 0 (frameLen d)))).2,
          d⟩) := rfl

/-- A drawing function followed by `show`, whose result is only logged. -/
def drawAndShow (o : EssSsd1305Oled) (draw : Ssd1305Data → Ssd1305Data) : EssSsd1305Oled :=
  (displayShow { o with oledData := draw o.oledData }).2

/-- A register write, whose result is only logged. -/
def register (o : EssSsd1305Oled) (cmd : Byte) : EssSsd1305Oled :=
  { o with client := (writeCmd o.client cmd).2 }

def write1 (buff : ℕ → Mem) (o : EssSsd1305Oled) : EssSsd1305Oled :=
  if buff 0 0 = cmdDisableSeqNum then register o setDispOff
  else if buff 0 0 = cmdEnableSeqNum then register o setDispOn
  else if buff 0 0 = cmdFillBufferSeqNum then drawAndShow o fun d => fill d 1#8
  else if buff 0 0 = cmdClearBufferSeqNum then drawAndShow o fun d => fill d 0#8
  else o

def write3 (buff : ℕ → Mem) (o : EssSsd1305Oled) : EssSsd1305Oled :=
  if buff 0 0 = cmdSetPixel then drawAndShow o fun d => setPixel d (buff 1 1) (buff 2 2) 1#8
  else o

def write4 (buff : ℕ → Mem) (o : EssSsd1305Oled) : EssSsd1305Oled :=
  if buff 0 0 = cmdHLine then
    drawAndShow o fun d => hline d (buff 1 1) (buff 2 2) (buff 3 3) 1#8
  else if buff 0 0 = cmdVLine then
    drawAndShow o fun d => vline d (buff 1 1) (buff 2 2) (buff 3 3) 1#8
  else o

def write5 (buff : ℕ → Mem) (o : EssSsd1305Oled) : EssSsd1305Oled :=
  if buff 0 0 = cmdRectFill then
    drawAndShow o fun d => rect d (buff 1 1) (buff 2 2) (buff 3 3) (buff 4 4) 1#8 1#8
  else if buff 0 0 = cmdRectClear then
    drawAndShow o fun d => rect d (buff 1 1) (buff 2 2) (buff 3 3) (buff 4 4) 0#8 1#8
  else o

/-- The copy that `copy_from_user` makes is not looked at, but when it fails the write
ends there. Every path returns `count`. -/
def essOledWrite (copyFromUser : Bool) (buff : ℕ → Mem) (count : SizeT) (o : EssSsd1305Oled) :
    SizeT × EssSsd1305Oled :=
  if count = 1#64 then (count, if copyFromUser then write1 buff o else o)
  else if count = 3#64 then (count, if copyFromUser then write3 buff o else o)
  else if count = 4#64 then (count, if copyFromUser then write4 buff o else o)
  else if count = 5#64 then (count, if copyFromUser then write5 buff o else o)
  else (count, o)

/-- `IOCTL_RELEASE_POLL` goes on to `gpio_irq_ioctl`, which leaves the display alone. -/
def essOledIoctl (cmd : BitVec 32) (o : EssSsd1305Oled) : ℤ × EssSsd1305Oled :=
  if cmd = ioctlDisable then (0, register o setDispOff)
  else if cmd = ioctlEnable then (0, register o setDispOn)
  else if cmd = ioctlFillBuffer then (0, drawAndShow o fun d => fill d 1#8)
  else if cmd = ioctlClearBuffer then (0, drawAndShow o fun d => fill d 0#8)
  else if cmd = ioctlReleasePoll then (0, o)
  else (-eperm, o)

end LinuxOddsAndEnds.Oled
