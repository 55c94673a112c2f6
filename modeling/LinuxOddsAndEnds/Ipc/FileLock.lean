import LinuxOddsAndEnds.Foundation.History
import LinuxOddsAndEnds.Foundation.Machine
import LinuxOddsAndEnds.Foundation.Overwrite
import LinuxOddsAndEnds.Ipc.Record
import Mathlib.Logic.Function.Basic

/-!
# A record behind file locks

Any number of writers and readers of `ipc_file.lock`, one system call per step. The
locks are the kernel's: a write lock excludes every other lock and makes other
writers wait, a read lock excludes write locks, and a lock that cannot be had at once
fails the reader's call. A writer opens the file without `O_TRUNC`.
-/

namespace LinuxOddsAndEnds.Ipc.FileLock

open Foundation

/-- The next step of a process; the first three wait for a byte of an arrow key. -/
inductive WriterPc where
  | getKey
  | getBracket
  | getArrow
  | openFile
  | setLock
  | write
  | unlock
  | close
  | exited
  deriving DecidableEq

/-- `bytes` have been read, one at a time. -/
inductive ReaderPc where
  | getKey
  | getBracket
  | getArrow
  | openFile
  | setLock
  | read (bytes : List Byte)
  | close
  | exited
  deriving DecidableEq

structure Processes (ι κ : Type*) where
  file : Option (List Byte)
  writeLock : Option ι
  readLocks : List κ
  writer : ι → WriterPc
  fileVal : ι → BitVec 32
  reader : κ → ReaderPc

inductive Action (ι κ : Type*) where
  | writerKey (i : ι) (ch : ℤ)
  | writer (i : ι)
  | readerKey (k : κ) (ch : ℤ)
  | reader (k : κ)

inductive Seen (ι κ : Type*) where
  | updated (i : ι) (fileVal : BitVec 32)
  | readAll (k : κ) (bytes : List Byte)
  deriving DecidableEq

variable {ι κ : Type*} [DecidableEq ι] [DecidableEq κ]

/-- What a writer writes: the record and its NUL. -/
def stored (pid fileVal : BitVec 32) : List Byte := record pid fileVal ++ [0]

def Processes.gotoWriter (s : Processes ι κ) (i : ι) (pc : WriterPc) : Processes ι κ :=
  { s with writer := Function.update s.writer i pc }

def Processes.gotoReader (s : Processes ι κ) (k : κ) (pc : ReaderPc) : Processes ι κ :=
  { s with reader := Function.update s.reader k pc }

def Processes.setVal (s : Processes ι κ) (i : ι) (v : BitVec 32) : Processes ι κ :=
  { s with fileVal := Function.update s.fileVal i v }

def writerKey (i : ι) (ch : ℤ) (s : Processes ι κ) : Option (Processes ι κ) :=
  match s.writer i with
  | .getKey =>
    if ch = 113 then some (s.gotoWriter i .exited)
    else if ch = 27 then some (s.gotoWriter i .getBracket)
    else some s
  | .getBracket => some (s.gotoWriter i (if ch = 91 then .getArrow else .getKey))
  | .getArrow =>
    if ch = 65 then some ((s.setVal i (s.fileVal i + 1)).gotoWriter i .openFile)
    else if ch = 66 then some ((s.setVal i (s.fileVal i - 1)).gotoWriter i .openFile)
    else some (s.gotoWriter i .getKey)
  | _ => none

def readerKey (k : κ) (ch : ℤ) (s : Processes ι κ) : Option (Processes ι κ) :=
  match s.reader k with
  | .getKey =>
    if ch = 113 then some (s.gotoReader k .exited)
    else if ch = 27 then some (s.gotoReader k .getBracket)
    else some s
  | .getBracket => some (s.gotoReader k (if ch = 91 then .getArrow else .getKey))
  | .getArrow =>
    some (s.gotoReader k (if ch ≠ 65 ∧ ch ≠ 66 then .getKey else .openFile))
  | _ => none

/-- `F_SETLKW` with a write lock waits; closing the file would also drop the lock. -/
def writerStep (pid : ι → BitVec 32) (i : ι) (s : Processes ι κ) :
    Option (Processes ι κ × List (Seen ι κ)) :=
  match s.writer i with
  | .openFile => some ({ s with file := some (s.file.getD []) }.gotoWriter i .setLock, [])
  | .setLock =>
    if s.writeLock = none ∧ s.readLocks = [] then
      some ({ s with writeLock := some i }.gotoWriter i .write, [])
    else none
  | .write =>
    let file := overwrite (s.file.getD []) (stored (pid i) (s.fileVal i))
    some ({ s with file := some file }.gotoWriter i .unlock, [.updated i (s.fileVal i)])
  | .unlock => some ({ s with writeLock := none }.gotoWriter i .close, [])
  | .close => some (s.gotoWriter i .getKey, [])
  | _ => none

/-- `F_SETLK` with a read lock fails at once against a write lock; `read` is called until
it returns 0; closing the file drops the lock. -/
def readerStep (k : κ) (s : Processes ι κ) : Option (Processes ι κ × List (Seen ι κ)) :=
  match s.reader k with
  | .openFile => some (s.gotoReader k (if s.file = none then .getKey else .setLock), [])
  | .setLock =>
    if s.writeLock = none then
      some ({ s with readLocks := k :: s.readLocks }.gotoReader k (.read []), [])
    else some (s.gotoReader k .close, [])
  | .read bytes =>
    match (s.file.getD [])[bytes.length]? with
    | some c => some (s.gotoReader k (.read (bytes ++ [c])), [])
    | none => some (s.gotoReader k .close, [.readAll k bytes])
  | .close =>
    some ({ s with readLocks := s.readLocks.filter (· ≠ k) }.gotoReader k .getKey, [])
  | _ => none

def fileLock (pid : ι → BitVec 32) : Machine (Processes ι κ) (Action ι κ) (Seen ι κ)
  | s, .writerKey i ch => (writerKey i ch s).map fun t => (t, [])
  | s, .writer i => writerStep pid i s
  | s, .readerKey k ch => (readerKey k ch s).map fun t => (t, [])
  | s, .reader k => readerStep k s

/-- No process has opened the file, which earlier runs may have left behind. -/
def started (file : Option (List Byte)) : Processes ι κ :=
  ⟨file, none, [], fun _ => .getKey, fun _ => 0, fun _ => .getKey⟩

end LinuxOddsAndEnds.Ipc.FileLock
