import LinuxOddsAndEnds.Foundation.Machine
import LinuxOddsAndEnds.Foundation.Text
import LinuxOddsAndEnds.Ipc.Record
import LinuxOddsAndEnds.Ubuntu.MemoryMmap
import Mathlib.Logic.Function.Basic
import Mathlib.Tactic.Simps.Basic

/-!
# The clients of the memory module

`main.cpp` of `7_memory` on top of `memory.c`. A client opens the device, which takes the
mutex, reads the size of the buffer from the text of the proc file, maps that many bytes and
then edits them key by key; a `close`, or the end of the process, gives the mutex back. Any
number of clients runs at once, one system call or one access to the buffer at a time, and any
of them can be killed at any time.
-/

namespace LinuxOddsAndEnds.Ubuntu.MemoryClient

open Foundation Memory

def ebusy : ℤ := 16

/-- `memory_open` and the mutex it leaves. -/
def memoryOpen (locked : Bool) : ℤ × Bool := if locked then (-ebusy, true) else (0, true)

def memoryClose : Bool := false

section ProcFile

def sizeText : List Char := ['s', 'i', 'z', 'e', ' ', '=', ' ']

/-- The bytes `proc_memory_read` copies to a buffer of `count` bytes, and the position after
them. -/
def procMemoryRead (pageShift ppos count : ℕ) : List Char × ℕ :=
  if 0 < ppos ∨ count < 256 then ([], ppos)
  else
    let buf := sizeText ++ Ipc.decimal (kmallocMmpBufferSize pageShift).toInt ++ ['\n'] ++
      ['b', 'l', 'a', 'a', ' ', '=', ' ', '.', '.', '.', '\n']
    (buf, buf.length)

/-- What a `filebuf` asks for at once. -/
def filebufSize : ℕ := 8191

/-- Two reads: the second one is at the end of the file. -/
def procText (pageShift : ℕ) : List Char :=
  let first := procMemoryRead pageShift 0 filebufSize
  first.1 ++ (procMemoryRead pageShift first.2 filebufSize).1

/-- `none` is an exception. -/
def stoi (text : List Char) : Option ℤ :=
  (readInt text).bind fun n => if -2 ^ 31 ≤ n ∧ n < 2 ^ 31 then some n else none

/-- The loop over the lines of the proc file, which looks for `size = ` at the beginning. -/
def parseSize : ℤ → List (List Char) → Option ℤ
  | size, [] => some size
  | size, line :: rest =>
    if sizeText.isPrefixOf line then
      (stoi (line.drop sizeText.length)).bind fun n => parseSize n rest
    else parseSize size rest

end ProcFile

section Mapping

/-- The buffer begins with a page. -/
structure PageBuffer (pageShift : ℕ) extends KmallocBuffer pageShift where
  aligned : 2 ^ pageShift ∣ (start - pageOffset).toNat

/-- The physical address of the buffer. -/
def PageBuffer.base {pageShift : ℕ} (b : PageBuffer pageShift) : ℕ :=
  (b.start - b.pageOffset).toNat

/-- The number of bytes in the buffer. -/
abbrev bufferSize (pageShift : ℕ) : ℕ := (kmallocMmpBufferSize pageShift).toNat

/-- The area that the kernel makes of `mmap(0, size, PROT_READ | PROT_WRITE, MAP_SHARED, fd, 0)`:
whole pages from the beginning of the file. -/
def mmapRequest (pageShift : ℕ) (size : ℤ) (vma : VmAreaStruct) : Bool :=
  vma.vmPgoff = 0#64 ∧ vma.vmFlags &&& vmWrite ≠ 0#64 ∧ vma.vmFlags &&& vmShared ≠ 0#64 ∧
    vma.vmEnd.toNat - vma.vmStart.toNat =
      (size.toNat + 2 ^ pageShift - 1) / 2 ^ pageShift * 2 ^ pageShift

/-- The physical address of a byte of the mapping. -/
def translate (pageShift : ℕ) (r : Remap) (offset : ℕ) : Option ℕ :=
  ((r.frames pageShift)[offset / 2 ^ pageShift]?).map fun frame =>
    frame * 2 ^ pageShift + offset % 2 ^ pageShift

end Mapping

/-- The system call, the `getchar` or the access that comes next. -/
inductive Pc where
  | openDevice
  | readProc
  | mmap
  | key
  | escape
  | bracket
  | dump (i : ℕ)
  | munmap
  | close
  | exited
  deriving DecidableEq

def Pc.holds : Pc → Bool
  | .openDevice | .exited => false
  | _ => true

/-- The statics of the client, with `none` for `MAP_FAILED`, and the line that `cout` holds. -/
structure Client where
  pc : Pc
  mmapBufferSize : ℤ
  kernelBuff : Option Remap
  fillVal : Byte
  fillOffset : ℕ
  line : List Char

def Client.started : Client := ⟨.openDevice, -1, none, 0, 0, []⟩

@[simps]
def Client.goTo (p : Client) (pc : Pc) : Client := { p with pc := pc }

/-- `mmap_mutex_`, the physical memory and the clients. -/
structure State (C : Type*) where
  locked : Bool
  memory : ℕ → Byte
  client : C → Client

inductive Action (C : Type*) where
  | start (c : C)
  | openDevice (c : C)
  | readProc (c : C) (isOpen : Bool)
  | mmap (c : C) (area : Option (VmAreaStruct × ℤ))
  | getchar (c : C) (ch : ℤ)
  | load (c : C)
  | munmap (c : C)
  | close (c : C)
  | kill (c : C)

/-- What the clients print and what they run into. -/
inductive Seen (C : Type*) where
  | opened (c : C)
  | busy (c : C)
  | size (c : C) (n : ℤ)
  | line (c : C) (text : List Char)
  | faulted (c : C)
  | closed (c : C)
  deriving DecidableEq

def showHex (n : ℕ) : List Char := Nat.toDigits 16 n

/-- `hex<<unsigned(c)` of a `char`, which has a sign. -/
def showChar (c : Byte) : List Char := showHex (c.signExtend 32).toNat

variable {C : Type*} [DecidableEq C] {pageShift : ℕ}

def State.setClient (s : State C) (c : C) (p : Client) : State C :=
  { s with client := Function.update s.client c p }

/-- The access of a client to `kernel_buff_[offset]`; without a page there it is killed. -/
def access (pageShift : ℕ) (s : State C) (c : C) (offset : ℕ)
    (next : ℕ → State C × List (Seen C)) : State C × List (Seen C) :=
  match (s.client c).kernelBuff.bind fun r => translate pageShift r offset with
  | none => (s.setClient c ((s.client c).goTo .close), [.faulted c])
  | some p => next p

/-- `kernel_buff_[fill_offset_] = fill_val_`, the new offset and the line about it. -/
def fill (pageShift : ℕ) (s : State C) (c : C) (offset : ℕ) : State C × List (Seen C) :=
  access pageShift s c (s.client c).fillOffset fun p =>
    (State.setClient { s with memory := Function.update s.memory p (s.client c).fillVal } c
        { s.client c with pc := .key, fillOffset := offset },
      [.line c (showHex offset ++ ':' :: showHex (s.client c).fillVal.toNat)])

/-- `fill_val_` changes, with a line about it. -/
def setVal (s : State C) (c : C) (v : Byte) : State C × List (Seen C) :=
  (s.setClient c { s.client c with pc := .key, fillVal := v }, [.line c (showHex v.toNat)])

/-- The third character of an arrow key. -/
def arrow (pageShift : ℕ) (s : State C) (c : C) (ch : ℤ) : State C × List (Seen C) :=
  let p := s.client c
  if ch = 66 then
    if p.fillOffset ≠ 0 then fill pageShift s c (p.fillOffset - 1)
    else (s.setClient c (p.goTo .key), [])
  else if ch = 65 then
    if p.fillOffset < (p.mmapBufferSize - 1).toNat then fill pageShift s c (p.fillOffset + 1)
    else (s.setClient c (p.goTo .key), [])
  else if ch = 67 then setVal s c (p.fillVal + 1)
  else if ch = 68 then setVal s c (p.fillVal - 1)
  else (s.setClient c (p.goTo .key), [])

/-- The character is read in `process_key_entry`. -/
def getchar (pageShift : ℕ) (s : State C) (c : C) (ch : ℤ) : Option (State C × List (Seen C)) :=
  let p := s.client c
  match p.pc with
  | .key =>
    if ch = 113 then some (s.setClient c (p.goTo .munmap), [])
    else if ch = 100 then some (s.setClient c { p with pc := .dump 0, line := [] }, [])
    else if ch = 27 then some (s.setClient c (p.goTo .escape), [])
    else some (s, [])
  | .escape => some (s.setClient c (p.goTo (if ch = 91 then .bracket else .key)), [])
  | .bracket => some (arrow pageShift s c ch)
  | _ => none

/-- The loop of `d`: sixteen bytes and the end of the line. -/
def loadNext (pageShift : ℕ) (s : State C) (c : C) : Option (State C × List (Seen C)) :=
  let p := s.client c
  match p.pc with
  | .dump i =>
    if i < 16 then
      some (access pageShift s c i fun a =>
        (s.setClient c { p with pc := .dump (i + 1), line := p.line ++ showChar (s.memory a) }, []))
    else some (s.setClient c (p.goTo .key), [.line c p.line])
  | _ => none

def memoryClients (b : PageBuffer pageShift) : Machine (State C) (Action C) (Seen C)
  | s, .start c =>
    if (s.client c).pc = .exited then some (s.setClient c .started, []) else none
  | s, .openDevice c =>
    if (s.client c).pc = .openDevice then
      let out := memoryOpen s.locked
      if out.1 = 0 then
        some (State.setClient { s with locked := out.2 } c ((s.client c).goTo .readProc),
          [.opened c])
      else some (s.setClient c ((s.client c).goTo .exited), [.busy c])
    else none
  | s, .readProc c isOpen =>
    if (s.client c).pc = .readProc then
      if isOpen then
        match parseSize (s.client c).mmapBufferSize (lines (procText pageShift)) with
        | none => some (s.setClient c ((s.client c).goTo .close), [])
        | some n =>
          some (s.setClient c
            { s.client c with pc := if 0 < n then .mmap else .close, mmapBufferSize := n },
            [.size c n])
      else some (s.setClient c ((s.client c).goTo .close), [])
    else none
  | s, .mmap c area =>
    if (s.client c).pc = .mmap then
      match area with
      | none => some (s.setClient c { s.client c with pc := .key, kernelBuff := none }, [])
      | some (vma, answer) =>
        if mmapRequest pageShift (s.client c).mmapBufferSize vma then
          let out := memoryMmap b.toKmallocBuffer (fun _ => answer) vma
          some (s.setClient c { s.client c with
            pc := .key, kernelBuff := if out.ret = 0 then out.remap else none }, [])
        else none
    else none
  | s, .getchar c ch => getchar pageShift s c ch
  | s, .load c => loadNext pageShift s c
  | s, .munmap c =>
    if (s.client c).pc = .munmap then
      some (s.setClient c { s.client c with pc := .close, kernelBuff := none }, [])
    else none
  | s, .close c =>
    if (s.client c).pc = .close then
      some (State.setClient { s with locked := memoryClose } c ((s.client c).goTo .exited),
        [.closed c])
    else none
  | s, .kill c =>
    match (s.client c).pc with
    | .exited => none
    | .openDevice => some (s.setClient c ((s.client c).goTo .exited), [])
    | _ => some (s.setClient c ((s.client c).goTo .close), [])

/-- The module just loaded over some memory, with the clients just started. -/
def started (memory : ℕ → Byte) : State C := ⟨false, memory, fun _ => .started⟩

end LinuxOddsAndEnds.Ubuntu.MemoryClient
