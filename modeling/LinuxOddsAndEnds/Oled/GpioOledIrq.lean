import LinuxOddsAndEnds.Foundation.Machine
import LinuxOddsAndEnds.Oled.I2cOledGlobal
import LinuxOddsAndEnds.Ring.ConsumerSteps
import Mathlib.Logic.Function.Basic

/-!
# The event pipeline of the OLED module

`gpio_oled_irq.c` from the interrupt handlers to `read` and `poll`. A handler runs
whole up to its `push`; `schedule_work` is a step of its own. `do_work` advances by
one access of the capture ring or one operation of the guarded block at a time, and
any interrupt may fall between two of its steps. `read` and `poll` run whole while
they hold the mutex, since only its holder looks at the bulk ring.
-/

namespace LinuxOddsAndEnds.Oled

open Foundation CircBufferPow2

def pollin : BitVec 32 := 0x0001
def pollrdnorm : BitVec 32 := 0x0040
def pollhup : BitVec 32 := 0x0010

inductive Handler where
  | gpioBtn5
  | gpioBtn6
  | gpioRocker
  deriving DecidableEq

/-- What `probe` leaves behind: whether the lines debounce in hardware, `HZ`, and the
interrupt number of each line. -/
structure GpioConfig where
  gpioCanDebounce : Bool
  hz : BitVec 64
  gpioIrqNumber : Gpio → BitVec 32

/-- The `static` locals of one handler. -/
structure Statics where
  counter : BitVec 64
  lastJiffy : BitVec 64
  deriving DecidableEq

/-- One interrupt: its number, `jiffies`, and what the uninitialised locals
`capture_event` and `current_jiffy` happen to hold. -/
structure Interrupt where
  irq : BitVec 32
  jiffies : BitVec 64
  captureEvent : CaptureEvent
  currentJiffy : BitVec 64
  deriving Inhabited

/-- `time_diff * 1000 / HZ` in `long`. -/
def msec (cfg : GpioConfig) (currentJiffy lastJiffy : BitVec 64) : BitVec 64 :=
  ((currentJiffy - lastJiffy) * 1000#64).sdiv cfg.hz

/-- The early return of every handler. -/
def bounces (cfg : GpioConfig) (st : Statics) (i : Interrupt) : Bool :=
  !cfg.gpioCanDebounce && (msec cfg i.jiffies st.lastJiffy).slt 20#64

/-- The two button handlers up to `push`: the statics they leave and the event they
push, or `none` when they return early. -/
def gpioBtnIrqHandler (button : Gpio) (cfg : GpioConfig) (st : Statics) (i : Interrupt) :
    Option (Statics × CaptureEvent) :=
  if bounces cfg st i then none
  else
    some ({ st with counter := st.counter + 1#64 },
      { i.captureEvent with buttonNum := button.code, event := st.counter + 1#64 })

def gpioBtn5IrqHandler := gpioBtnIrqHandler .button5

def gpioBtn6IrqHandler := gpioBtnIrqHandler .button6

/-- The first rocker line with the interrupt's number; none leaves `button_num` unset. -/
def rockerButton (cfg : GpioConfig) (i : Interrupt) : BitVec 32 :=
  if i.irq = cfg.gpioIrqNumber .rockerD then Gpio.rockerD.code
  else if i.irq = cfg.gpioIrqNumber .rockerN then Gpio.rockerN.code
  else if i.irq = cfg.gpioIrqNumber .rockerS then Gpio.rockerS.code
  else if i.irq = cfg.gpioIrqNumber .rockerE then Gpio.rockerE.code
  else if i.irq = cfg.gpioIrqNumber .rockerW then Gpio.rockerW.code
  else i.captureEvent.buttonNum

/-- The rocker alone moves `last_jiffy`; with hardware debouncing `current_jiffy` was
never set. -/
def gpioRockerIrqHandler (cfg : GpioConfig) (st : Statics) (i : Interrupt) :
    Option (Statics × CaptureEvent) :=
  if bounces cfg st i then none
  else
    some ({ counter := st.counter + 1#64
            lastJiffy := if cfg.gpioCanDebounce then i.currentJiffy else i.jiffies },
      { i.captureEvent with buttonNum := rockerButton cfg i, event := st.counter + 1#64 })

def irqHandler : Handler → GpioConfig → Statics → Interrupt → Option (Statics × CaptureEvent)
  | .gpioBtn5 => gpioBtn5IrqHandler
  | .gpioBtn6 => gpioBtn6IrqHandler
  | .gpioRocker => gpioRockerIrqHandler

/-- Where `do_work` is. After `front` has answered a pointer the test
`NULL != capture_event_ref` succeeds, so only the copied event is carried on; `leaving`
lies between the last `front` and the return. -/
inductive WorkerPc where
  | idle
  | taking (pc : ConsumerPc)
  | lock (event : List Byte)
  | testSpace (event : List Byte)
  | pushRecord (event : List Byte)
  | wake
  | unlock
  | leaving
  deriving DecidableEq

/-- `ESSWorkStructWrapper` with the handlers' statics, the handlers between `push` and
`schedule_work`, the pending mark of the work item and the worker. -/
structure State where
  captureEventBuffer : CircularBufferPow2
  pollEnabled : Bool
  eventBulkDataBuffer : CircularBufferPow2
  eventBulkDataMtx : Bool
  statics : Handler → Statics
  unscheduled : ℕ
  pending : Bool
  worker : WorkerPc

/-- What a run shows. A rejected or dropped event comes with the number of elements
that the full ring stored. -/
inductive Seen where
  | captured (h : Handler) (e : CaptureEvent)
  | rejected (h : Handler) (e : CaptureEvent) (stored : SizeT)
  | dropped (event : List Byte) (stored : SizeT)
  | forwarded (record : List Byte)
  | woken
  | read (count : SizeT) (bytesRead : ℤ) (records : List (List Byte))
  | polled (mask : BitVec 32)
  deriving DecidableEq

/-- The module as loaded: static storage is zero. -/
def loaded : State where
  captureEventBuffer := ⟨null, 0, 0, 0, 0, 0, 0⟩
  pollEnabled := false
  eventBulkDataBuffer := ⟨null, 0, 0, 0, 0, 0, 0⟩
  eventBulkDataMtx := false
  statics _ := ⟨0, 0⟩
  unscheduled := 0
  pending := false
  worker := .idle

/-- The two allocations may answer differently. A failure of the second one frees the first
ring, which nothing uses from then on. -/
def gpioOledIrqInit (kmalloc kmalloc' : SizeT → Option Mem) (s : State) : ℤ × State :=
  let capture := init kmalloc s.captureEventBuffer (BitVec.ofNat 64 sizeofCaptureEvent) 0x08
  if capture.1 = 0 then
    let bulk := init kmalloc' s.eventBulkDataBuffer (BitVec.ofNat 64 sizeofEventBulkData) 0x10
    if bulk.1 = 0 then
      (bulk.1, { s with captureEventBuffer := capture.2, eventBulkDataBuffer := bulk.2
                        pollEnabled := true, eventBulkDataMtx := false })
    else (bulk.1, { s with captureEventBuffer := capture.2, eventBulkDataBuffer := bulk.2 })
  else (capture.1, { s with captureEventBuffer := capture.2 })

/-- The interrupt up to and including `push`, whose result the handlers ignore. -/
def interrupt (cfg : GpioConfig) (h : Handler) (i : Interrupt) (s : State) : State × List Seen :=
  match irqHandler h cfg (s.statics h) i with
  | none => (s, [])
  | some (st, e) =>
    let out := push s.captureEventBuffer (ofBytes e.bytes)
    ({ s with statics := Function.update s.statics h st, captureEventBuffer := out.2
              unscheduled := s.unscheduled + 1 },
      [if out.1 = 0 then .captured h e else .rejected h e (size s.captureEventBuffer)])

def afterTake (s : State) : CircularBufferPow2 × Outcome → State
  | (r, .at pc) | (r, .released pc _) => { s with captureEventBuffer := r, worker := .taking pc }
  | (r, .null) => { s with captureEventBuffer := r, worker := .leaving }
  | (r, .taken _ event _) => { s with captureEventBuffer := r, worker := .lock event }

def doWork (s : State) : Option (State × List Seen) :=
  match s.worker with
  | .idle => none
  | .taking pc => some (afterTake s (consume s.captureEventBuffer pc), [])
  | .lock event =>
    if s.eventBulkDataMtx then none
    else some ({ s with eventBulkDataMtx := true, worker := .testSpace event }, [])
  | .testSpace event =>
    if space s.eventBulkDataBuffer ≠ 0#64 then some ({ s with worker := .pushRecord event }, [])
    else some ({ s with worker := .unlock }, [.dropped event (size s.eventBulkDataBuffer)])
  | .pushRecord event =>
    let record := (bulkRecord (.ofBytes event)).bytes
    let out := push s.eventBulkDataBuffer (ofBytes record)
    if out.1 = 0 then
      some ({ s with eventBulkDataBuffer := out.2, worker := .wake }, [.forwarded record])
    else
      some ({ s with eventBulkDataBuffer := out.2, worker := .unlock },
        [.dropped event (size s.eventBulkDataBuffer)])
  | .wake => some ({ s with worker := .unlock }, [.woken])
  | .unlock => some ({ s with eventBulkDataMtx := false, worker := .taking .front }, [])
  | .leaving => some ({ s with worker := .idle }, [])

/-- What a read answers, the records it removed, and the ring it leaves. The removed
records are also what arrived in the user buffer, at consecutive places. -/
structure ReadResult where
  bytesRead : ℤ
  records : List (List Byte)
  ring : CircularBufferPow2

/-- The loop of `gpio_oled_irq_read`: `n` is what is left of `count` and `done` what was
read so far, in records. `copyToUser i` tells whether the `i`-th copy succeeds. -/
def readLoop (copyToUser : ℕ → Bool) : ℕ → ℕ → CircularBufferPow2 → ReadResult
  | 0, done, ring => ⟨sizeofEventBulkData * done, [], ring⟩
  | n + 1, done, ring =>
    if space ring ≠ 0#64 then
      match front ring with
      | some ref =>
        if copyToUser done then
          let rest := readLoop copyToUser n (done + 1) (pop ring)
          { rest with records := element ring ref :: rest.records }
        else ⟨-eperm, [], ring⟩
      | none => ⟨-eperm, [], ring⟩
    else ⟨sizeofEventBulkData * done, [], ring⟩

def gpioOledIrqRead (copyToUser : ℕ → Bool) (count : SizeT) (ring : CircularBufferPow2) :
    ReadResult :=
  if count.toNat % sizeofEventBulkData = 0 then
    readLoop copyToUser (count.toNat / sizeofEventBulkData) 0 ring
  else ⟨-eperm, [], ring⟩

/-- The mask of `gpio_oled_irq_poll` once it holds the mutex. -/
def gpioOledIrqPoll (s : State) : BitVec 32 :=
  if !empty s.eventBulkDataBuffer then pollin ||| pollrdnorm
  else if s.pollEnabled = false then pollhup
  else 0

def gpioIrqIoctl (cmd : BitVec 32) (s : State) : State × List Seen :=
  if cmd = ioctlReleasePoll then ({ s with pollEnabled := false }, [.woken]) else (s, [])

inductive Action where
  | interrupt (h : Handler) (i : Interrupt)
  | scheduleWork
  | startWork
  | work
  | read (copyToUser : ℕ → Bool) (count : SizeT)
  | poll
  | ioctl (cmd : BitVec 32)

/-- The whole module. `schedule_work` sets the pending mark; the kernel clears it and
starts `do_work` when the previous run has returned. -/
def pipeline (cfg : GpioConfig) : Machine State Action Seen
  | s, .interrupt h i => some (interrupt cfg h i s)
  | s, .scheduleWork =>
    if s.unscheduled = 0 then none
    else some ({ s with unscheduled := s.unscheduled - 1, pending := true }, [])
  | s, .startWork =>
    if s.pending ∧ s.worker = .idle then
      some ({ s with pending := false, worker := .taking .front }, [])
    else none
  | s, .work => doWork s
  | s, .read copyToUser count =>
    if s.eventBulkDataMtx then none
    else
      let out := gpioOledIrqRead copyToUser count s.eventBulkDataBuffer
      some ({ s with eventBulkDataBuffer := out.ring }, [.read count out.bytesRead out.records])
  | s, .poll => if s.eventBulkDataMtx then none else some (s, [.polled (gpioOledIrqPoll s)])
  | s, .ioctl cmd => some (gpioIrqIoctl cmd s)

end LinuxOddsAndEnds.Oled
