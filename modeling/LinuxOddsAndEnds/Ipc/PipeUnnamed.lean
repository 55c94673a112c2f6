import LinuxOddsAndEnds.Foundation.Machine
import LinuxOddsAndEnds.Ipc.Record

/-!
# The unnamed pipe between parent and child

Both processes of `pipe_unnamed.cpp` after the `fork`, one system call per step, under any
interleaving. What the parent reads from the terminal is fixed in advance. A `write` of a
record is shorter than `PIPE_BUF`, so it waits until the whole record fits.
-/

namespace LinuxOddsAndEnds.Ipc.PipeUnnamed

open Foundation

/-- The next step of the parent; `killed` is its end by `SIGPIPE`. -/
inductive ParentPc where
  | closeReadPort
  | getKey
  | getBracket
  | getArrow
  | write
  | closeWritePort
  | wait
  | exit
  | exited
  | killed
  deriving DecidableEq

inductive ChildPc where
  | closeWritePort
  | read
  | print (buf : Byte)
  | closeReadPort
  | exit
  | exited
  deriving DecidableEq

/-- Both processes, the bytes in the pipe and what `getchar` will return. A port of a process
is true while it is open. -/
structure Processes where
  stdin : List ℤ
  pipe : List Byte
  pid : BitVec 32
  parent : ParentPc
  parentReadPort : Bool
  parentWritePort : Bool
  parentRunning : Bool
  val : BitVec 32
  child : ChildPc
  childReadPort : Bool
  childWritePort : Bool

inductive Party where
  | parent
  | child
  deriving DecidableEq

inductive Seen where
  | wrote (text : List Byte)
  | printed (buf : Byte)
  | childExit
  deriving DecidableEq

/-- The bytes that a pipe holds at most. -/
def pipeCapacity : ℕ := 65536

/-- The test at the head of the loop; if it holds, `getchar` comes next. -/
def ParentPc.loopHead (parentRunning : Bool) : ParentPc := if parentRunning then .getKey else .wait

/-- After the `fork`: each process has both ports. -/
def forked (pid : BitVec 32) (stdin : List ℤ) : Processes where
  stdin
  pipe := []
  pid
  parent := .closeReadPort
  parentReadPort := true
  parentWritePort := true
  parentRunning := true
  val := 0
  child := .closeWritePort
  childReadPort := true
  childWritePort := true

def getchar (next : ℤ → Processes → Processes) (s : Processes) :
    Option (Processes × List Seen) :=
  match s.stdin with
  | [] => none
  | ch :: stdin => some (next ch { s with stdin }, [])

def gotKey (ch : ℤ) (s : Processes) : Processes :=
  if ch = 113 then { s with parent := .wait }
  else if ch = 27 then { s with parent := .getBracket }
  else { s with parent := .loopHead s.parentRunning }

def gotBracket (ch : ℤ) (s : Processes) : Processes :=
  if ch = 91 then { s with parent := .getArrow }
  else { s with parent := .loopHead s.parentRunning }

/-- An arrow has changed the value; at 10 the reader is released. -/
def changed (val : BitVec 32) (s : Processes) : Processes :=
  let parentRunning := s.parentRunning && val != 10
  { s with val, parentRunning, parent := if parentRunning then .write else .closeWritePort }

def gotArrow (keyVal : ℤ) (s : Processes) : Processes :=
  if keyVal = 65 then changed (s.val + 1) s
  else if keyVal = 66 then changed (s.val - 1) s
  else { s with parent := .loopHead s.parentRunning }

/-- The record goes into the pipe. The error of a closed port is ignored; without a reader the
signal ends the process. -/
def writeRecord (s : Processes) : Option (Processes × List Seen) :=
  let text := record s.pid s.val
  if s.parentWritePort = false then some ({ s with parent := .loopHead s.parentRunning }, [])
  else if s.parentReadPort = false ∧ s.childReadPort = false then
    some ({ s with parent := .killed }, [])
  else if s.pipe.length + text.length ≤ pipeCapacity then
    some ({ s with pipe := s.pipe ++ text, parent := .loopHead s.parentRunning }, [.wrote text])
  else none

def parentStep (s : Processes) : Option (Processes × List Seen) :=
  match s.parent with
  | .closeReadPort =>
    some ({ s with parentReadPort := false, parent := .loopHead s.parentRunning }, [])
  | .getKey => getchar gotKey s
  | .getBracket => getchar gotBracket s
  | .getArrow => getchar gotArrow s
  | .write => writeRecord s
  | .closeWritePort =>
    some ({ s with parentWritePort := false, parent := .loopHead s.parentRunning }, [])
  | .wait => if s.child = .exited then some ({ s with parent := .exit }, []) else none
  | .exit => some ({ s with parentWritePort := false, parent := .exited }, [])
  | .exited | .killed => none

/-- `read` answers end of file once the pipe is empty and no write port is open. -/
def childStep (s : Processes) : Option (Processes × List Seen) :=
  match s.child with
  | .closeWritePort => some ({ s with childWritePort := false, child := .read }, [])
  | .read =>
    match s.pipe with
    | buf :: pipe => some ({ s with pipe, child := .print buf }, [])
    | [] =>
      if s.parentWritePort = false ∧ s.childWritePort = false then
        some ({ s with child := .closeReadPort }, [])
      else none
  | .print buf => some ({ s with child := .read }, [.printed buf])
  | .closeReadPort => some ({ s with childReadPort := false, child := .exit }, [.childExit])
  | .exit => some ({ s with child := .exited }, [])
  | .exited => none

def pipeUnnamed : Machine Processes Party Seen
  | s, .parent => parentStep s
  | s, .child => childStep s

def written (tr : List Seen) : List (List Byte) :=
  tr.filterMap fun | .wrote text => some text | _ => none

def printed (tr : List Seen) : List Byte :=
  tr.filterMap fun | .printed buf => some buf | _ => none

end LinuxOddsAndEnds.Ipc.PipeUnnamed
