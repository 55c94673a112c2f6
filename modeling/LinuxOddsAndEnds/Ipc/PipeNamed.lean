import LinuxOddsAndEnds.Ipc.PipeShutdown

/-!
# The named pipe between writer and reader

Both programs of `pipe/named`, one system call per step, under any interleaving and with
`SIGINT` sent to the writer at any time. An `open` of either end registers and then waits
for the other end to be opened. The handler runs in between the calls of the writer, which
goes on where it was.
-/

namespace LinuxOddsAndEnds.Ipc.PipeNamed

open Foundation
open PipeUnnamed (pipeCapacity Position LoopExit loopExit)

/-- The next step of `termination_handler`. -/
inductive TerminationPc where
  | close
  | unlink
  | enableBuffering
  deriving DecidableEq

/-- The next step of the writer; `interrupted` is its end by `SIGINT` and `killed` by
`SIGPIPE`. -/
inductive WriterPc where
  | mkfifo
  | open
  | opening
  | disableBuffering
  | signal
  | getKey
  | getBracket
  | getArrow
  | write
  | terminate (pc : TerminationPc)
  | exit
  | exited
  | failed
  | interrupted
  | killed
  deriving DecidableEq

inductive ReaderPc where
  | open
  | opening
  | read
  | print (buf : Byte)
  | close
  | unlink
  | exit
  | exited
  | failed
  deriving DecidableEq

/-- Both processes. `handler` is the step of a handler that `SIGINT` started, `raw` tells that
the terminal neither buffers nor echoes, `readerCame` that the reader has opened its end, and
`writerCame` that the writer has, and had it open at the reader's `open` or came later. -/
structure Processes where
  stdin : List ℤ
  backingFile : Bool
  pipe : List Byte
  pid : BitVec 32
  writer : WriterPc
  handler : Option TerminationPc
  writerFd : Bool
  writerCame : Bool
  raw : Bool
  running : Bool
  val : BitVec 32
  reader : ReaderPc
  readerFd : Bool
  readerCame : Bool

inductive Action where
  | writer
  | reader
  | sigint
  deriving DecidableEq

/-- `refused` is a `write` to the closed descriptor. -/
inductive Seen where
  | wrote (text : List Byte)
  | refused (text : List Byte)
  | printed (buf : Byte)
  | sigint
  deriving DecidableEq

def started (pid : BitVec 32) (stdin : List ℤ) : Processes where
  stdin
  backingFile := false
  pipe := []
  pid
  writer := .mkfifo
  handler := none
  writerFd := false
  writerCame := false
  raw := false
  running := true
  val := 0
  reader := .open
  readerFd := false
  readerCame := false

/-- The test at the head of the loop; if it holds, `getchar` comes next. -/
def WriterPc.loopHead (running : Bool) : WriterPc := if running then .getKey else .terminate .close

def getchar (next : ℤ → Processes → Processes) (s : Processes) :
    Option (Processes × List Seen) :=
  match s.stdin with
  | [] => none
  | ch :: stdin => some (next ch { s with stdin }, [])

def gotKey (ch : ℤ) (s : Processes) : Processes :=
  if ch = 113 then { s with writer := .terminate .close }
  else if ch = 27 then { s with writer := .getBracket }
  else { s with writer := .loopHead s.running }

def gotBracket (ch : ℤ) (s : Processes) : Processes :=
  if ch = 91 then { s with writer := .getArrow } else { s with writer := .loopHead s.running }

/-- An arrow has changed the value; 10 ends the loop. -/
def changed (val : BitVec 32) (s : Processes) : Processes :=
  let running := s.running && val != 10
  { s with val, running, writer := if running then .write else .loopHead running }

def gotArrow (keyVal : ℤ) (s : Processes) : Processes :=
  if keyVal = 65 then changed (s.val + 1) s
  else if keyVal = 66 then changed (s.val - 1) s
  else { s with writer := .loopHead s.running }

/-- The errors of a closed descriptor are ignored; without a reader `SIGPIPE` ends the process. -/
def writeRecord (s : Processes) : Option (Processes × List Seen) :=
  let text := record s.pid s.val
  if s.writerFd = false then
    some ({ s with writer := .loopHead s.running }, [.refused text])
  else if s.readerFd = false then some ({ s with writer := .killed, writerFd := false }, [])
  else if s.pipe.length + text.length ≤ pipeCapacity then
    some ({ s with pipe := s.pipe ++ text, writer := .loopHead s.running }, [.wrote text])
  else none

/-- What a step of `termination_handler` does, and the step after it. -/
def terminationHandler (s : Processes) : TerminationPc → Processes × Option TerminationPc
  | .close => ({ s with writerFd := false }, some .unlink)
  | .unlink => ({ s with backingFile := false }, some .enableBuffering)
  | .enableBuffering => ({ s with raw := false }, none)

def mainStep (s : Processes) : Option (Processes × List Seen) :=
  match s.writer with
  | .mkfifo =>
    if s.backingFile then some ({ s with writer := .failed }, [])
    else some ({ s with backingFile := true, writer := .open }, [])
  | .open =>
    -- `O_CREAT` finds the file that `mkfifo` made
    if s.backingFile then
      some ({ s with writerFd := true, writerCame := true, writer := .opening }, [])
    else none
  | .opening => if s.readerCame then some ({ s with writer := .disableBuffering }, []) else none
  | .disableBuffering => some ({ s with raw := true, writer := .signal }, [])
  | .signal => some ({ s with writer := .loopHead s.running }, [])
  | .getKey => getchar gotKey s
  | .getBracket => getchar gotBracket s
  | .getArrow => getchar gotArrow s
  | .write => writeRecord s
  | .terminate pc =>
    match terminationHandler s pc with
    | (t, some pc) => some ({ t with writer := .terminate pc }, [])
    | (t, none) => some ({ t with writer := .exit }, [])
  | .exit => some ({ s with writerFd := false, writer := .exited }, [])
  | .exited | .failed | .interrupted | .killed => none

/-- A running handler comes first. -/
def writerStep (s : Processes) : Option (Processes × List Seen) :=
  match s.handler with
  | some pc =>
    some ({ (terminationHandler s pc).1 with handler := (terminationHandler s pc).2 }, [])
  | none => mainStep s

/-- `read` answers end of file once the pipe is empty and the writer has closed it. -/
def readerStep (s : Processes) : Option (Processes × List Seen) :=
  match s.reader with
  | .open =>
    if s.backingFile then
      some ({ s with
        readerFd := true, readerCame := true, writerCame := s.writerFd, reader := .opening }, [])
    else some ({ s with reader := .failed }, [])
  | .opening => if s.writerCame then some ({ s with reader := .read }, []) else none
  | .read =>
    match s.pipe with
    | buf :: pipe => some ({ s with pipe, reader := .print buf }, [])
    | [] => if s.writerFd = false then some ({ s with reader := .close }, []) else none
  | .print buf => some ({ s with reader := .read }, [.printed buf])
  | .close => some ({ s with readerFd := false, reader := .unlink }, [])
  | .unlink => some ({ s with backingFile := false, reader := .exit }, [])
  | .exit => some ({ s with reader := .exited }, [])
  | .exited | .failed => none

/-- Before `signal` the default action ends the process. -/
def WriterPc.unhandled : WriterPc → Bool
  | .mkfifo | .open | .opening | .disableBuffering | .signal => true
  | _ => false

def WriterPc.gone : WriterPc → Bool
  | .exited | .failed | .interrupted | .killed => true
  | _ => false

/-- `SIGINT` is blocked while its handler runs. -/
def sigintStep (s : Processes) : Option (Processes × List Seen) :=
  if s.writer.gone then none
  else if s.writer.unhandled then
    some ({ s with writer := .interrupted, writerFd := false }, [.sigint])
  else if s.handler = none then some ({ s with handler := some .close }, [.sigint])
  else none

def pipeNamed : Machine Processes Action Seen
  | s, .writer => writerStep s
  | s, .reader => readerStep s
  | s, .sigint => sigintStep s

def written (tr : List Seen) : List (List Byte) :=
  tr.filterMap fun | .wrote text => some text | _ => none

/-- The records that it meant to write after the handler had closed the descriptor. -/
def refused (tr : List Seen) : List (List Byte) :=
  tr.filterMap fun | .refused text => some text | _ => none

def printed (tr : List Seen) : List Byte :=
  tr.filterMap fun | .printed buf => some buf | _ => none

/-- The records that the keys ask for, from value `val` on. -/
def records (pid : BitVec 32) : Position → BitVec 32 → List ℤ → List (List Byte)
  | _, _, [] => []
  | .key, val, ch :: keys =>
    if ch = 113 then []
    else if ch = 27 then records pid .bracket val keys
    else records pid .key val keys
  | .bracket, val, ch :: keys =>
    if ch = 91 then records pid .arrow val keys else records pid .key val keys
  | .arrow, val, ch :: keys =>
    if ch = 65 then
      if val + 1 = 10 then [] else record pid (val + 1) :: records pid .key (val + 1) keys
    else if ch = 66 then
      if val - 1 = 10 then [] else record pid (val - 1) :: records pid .key (val - 1) keys
    else records pid .key val keys

end LinuxOddsAndEnds.Ipc.PipeNamed
