import LinuxOddsAndEnds.Foundation.Memory
import Mathlib.Data.Int.Notation

/-!
# Commands and records shared with user space

`i2c_oled_global.h`: the command codes, and `struct CaptureEvent` and
`struct EventBulkData` as byte blocks. The compiler leaves four bytes between
`button_num` and `event`; they are part of `sizeof` and every `memcpy` moves them, so
they are a field here.
-/

namespace LinuxOddsAndEnds.Oled

open Foundation

def cmdDisableSeqNum : Byte := 0x01
def cmdEnableSeqNum : Byte := 0x02
def cmdFillBufferSeqNum : Byte := 0x03
def cmdClearBufferSeqNum : Byte := 0x04
def cmdReleasePollSeqNum : Byte := 0x05
def cmdSetPixel : Byte := 0x05
def cmdHLine : Byte := 0x07
def cmdVLine : Byte := 0x08
def cmdRectFill : Byte := 0x09
def cmdRectClear : Byte := 0x0A

/-- `_IO(ESS_MAGIC, nr)`. -/
def essIo (nr : Byte) : BitVec 32 := 0x4500#32 ||| nr.setWidth 32

def ioctlDisable : BitVec 32 := essIo cmdDisableSeqNum
def ioctlEnable : BitVec 32 := essIo cmdEnableSeqNum
def ioctlFillBuffer : BitVec 32 := essIo cmdFillBufferSeqNum
def ioctlClearBuffer : BitVec 32 := essIo cmdClearBufferSeqNum
def ioctlReleasePoll : BitVec 32 := essIo cmdReleasePollSeqNum

def eperm : ℤ := 1

inductive Gpio where
  | button5
  | button6
  | rockerD
  | rockerN
  | rockerS
  | rockerE
  | rockerW
  deriving DecidableEq

def Gpio.code : Gpio → BitVec 32
  | .button5 => 0
  | .button6 => 1
  | .rockerD => 2
  | .rockerN => 3
  | .rockerS => 4
  | .rockerE => 5
  | .rockerW => 6

@[ext] structure CaptureEvent where
  buttonNum : BitVec 32
  padding : BitVec 32
  event : BitVec 64
  deriving DecidableEq, Inhabited

def CaptureEvent.bytes (e : CaptureEvent) : List Byte :=
  leBytes 4 e.buttonNum.toNat ++ (leBytes 4 e.padding.toNat ++ leBytes 8 e.event.toNat)

def CaptureEvent.ofBytes (l : List Byte) : CaptureEvent where
  buttonNum := BitVec.ofNat 32 (ofLe (l.take 4))
  padding := BitVec.ofNat 32 (ofLe ((l.drop 4).take 4))
  event := BitVec.ofNat 64 (ofLe (l.drop 8))

/-- The ten words are `bulk_data`. -/
structure EventBulkData where
  captureEvent : CaptureEvent
  bulkData : Fin 10 → BitVec 64

def EventBulkData.bytes (d : EventBulkData) : List Byte :=
  d.captureEvent.bytes ++ (List.ofFn d.bulkData).flatMap fun w => leBytes 8 w.toNat

/-- The structure that user space finds in a block of 96 bytes. -/
def EventBulkData.ofBytes (l : List Byte) : EventBulkData where
  captureEvent := .ofBytes (l.take 16)
  bulkData i := BitVec.ofNat 64 (ofLe ((l.drop (16 + 8 * i)).take 8))

/-- What `do_work` builds from a captured event: the event and the words `event + idx`. -/
def bulkRecord (e : CaptureEvent) : EventBulkData where
  captureEvent := e
  bulkData idx := e.event + BitVec.ofNat 64 idx

def sizeofCaptureEvent : ℕ := 16

def sizeofEventBulkData : ℕ := 96

@[simp] theorem CaptureEvent.length_bytes (e : CaptureEvent) :
    e.bytes.length = sizeofCaptureEvent := by
  simp [CaptureEvent.bytes, sizeofCaptureEvent]

@[simp] theorem EventBulkData.length_bytes (d : EventBulkData) :
    d.bytes.length = sizeofEventBulkData := by
  simp [EventBulkData.bytes, sizeofCaptureEvent, sizeofEventBulkData]

@[simp] theorem CaptureEvent.ofBytes_bytes (e : CaptureEvent) : ofBytes e.bytes = e := by
  have h4 : e.bytes.take 4 = leBytes 4 e.buttonNum.toNat := List.take_left' (length_leBytes _ _)
  have hdrop : e.bytes.drop 4 = leBytes 4 e.padding.toNat ++ leBytes 8 e.event.toNat :=
    List.drop_left' (length_leBytes _ _)
  have h8 : e.bytes.drop 8 = leBytes 8 e.event.toNat := by
    rw [← List.drop_drop (i := 4) (j := 4), hdrop, List.drop_left' (length_leBytes _ _)]
  simp only [ofBytes, h4, h8, hdrop, List.take_left' (length_leBytes 4 _),
    ofNat_ofLe_leBytes (n := 4) rfl, ofNat_ofLe_leBytes (n := 8) rfl]

theorem EventBulkData.ofBytes_bytes (d : EventBulkData) : ofBytes d.bytes = d := by
  obtain ⟨e, w⟩ := d
  have h16 : (EventBulkData.bytes ⟨e, w⟩).take 16 = e.bytes := List.take_left' e.length_bytes
  have hdrop : (EventBulkData.bytes ⟨e, w⟩).drop 16 =
      (List.ofFn w).flatMap fun w => leBytes 8 w.toNat := List.drop_left' e.length_bytes
  simp only [ofBytes, h16, CaptureEvent.ofBytes_bytes, EventBulkData.mk.injEq, true_and]
  funext i
  have hi : (i : ℕ) < (List.ofFn w).length := by simp
  have hlen : ∀ w : BitVec 64, (leBytes 8 w.toNat).length = 8 := fun w => length_leBytes 8 w.toNat
  rw [← List.drop_drop, hdrop, take_drop_flatMap hlen _ _ hi, ofNat_ofLe_leBytes (n := 8) rfl,
    List.getElem_ofFn]

end LinuxOddsAndEnds.Oled
