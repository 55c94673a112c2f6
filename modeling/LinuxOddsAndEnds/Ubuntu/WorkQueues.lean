import LinuxOddsAndEnds.Foundation.History
import LinuxOddsAndEnds.Foundation.Machine
import Mathlib.Logic.Function.Basic
import Mathlib.Tactic.Simps.Basic

/-!
# Delayed work and its list

The nodes that the init loop allocates, queues and lists, the callbacks that remove
and free them, and the exit loop that cancels, removes and frees what is listed. Each
party takes one list or allocator call at a time and nothing orders the parties; a
callback may start any time after its work was queued. Both modules, with the single
threaded queue and with the managed one, run this code.
-/

namespace LinuxOddsAndEnds.Ubuntu.WorkQueues

open Foundation

inductive InitPc where
  | alloc
  | queue
  | add
  | done
  deriving DecidableEq

/-- A node's work: with its timer or on the queue, or at a step of `do_work_delayed`. -/
inductive Work where
  | idle
  | pending
  | print
  | del
  | free
  deriving DecidableEq

inductive ExitPc where
  | notStarted
  | cancel
  | del
  | free
  | advance
  | done
  deriving DecidableEq

/-- What a list pointer points to; `poison` is the link of a node that is not listed. -/
inductive Ptr where
  | head
  | node (i : ℕ)
  | poison
  deriving DecidableEq

structure Module where
  workList : List ℕ
  initPc : InitPc
  initIndex : ℕ
  work : ℕ → Work
  exitPc : ExitPc
  safeIterPos : Ptr
  safeIterTemp : Ptr

inductive Action where
  | init
  | startWork (i : ℕ)
  | doWorkDelayed (i : ℕ)
  | exit

inductive Seen where
  | listed (i : ℕ)
  | removed (i : ℕ)
  | freed (i : ℕ)
  | accessed (i : ℕ)
  deriving DecidableEq

def Ptr.nodes : Ptr → List ℕ
  | .node i => [i]
  | _ => []

def firstPtr : List ℕ → Ptr
  | [] => .head
  | i :: _ => .node i

/-- `pos->next`. -/
def nextPtr (workList : List ℕ) : Ptr → Ptr
  | .head => firstPtr workList
  | .node i =>
    match workList.dropWhile (· != i) with
    | [] => .poison
    | _ :: rest => firstPtr rest
  | .poison => .poison

/-- The listed nodes whose links `list_del` rewrites. -/
def neighbours (workList : List ℕ) (i : ℕ) : List ℕ :=
  workList.filter fun j =>
    nextPtr workList (.node i) = .node j ∨ nextPtr workList (.node j) = .node i

/-- The accesses of `list_add(&node->list, &work_list_)`. -/
def listAddSeen (workList : List ℕ) (i : ℕ) : List Seen :=
  (i :: workList.head?.toList).map .accessed ++ [Seen.listed i]

/-- The accesses of `list_del(&node->list)`. -/
def listDelSeen (workList : List ℕ) (i : ℕ) : List Seen :=
  (i :: neighbours workList i).map .accessed ++ [Seen.removed i]

@[simps workList initPc initIndex exitPc safeIterPos safeIterTemp]
def Module.setWork (s : Module) (i : ℕ) (w : Work) : Module :=
  { s with work := Function.update s.work i w }

@[simps]
def Module.setInit (s : Module) (pc : InitPc) : Module := { s with initPc := pc }

@[simps]
def Module.setExit (s : Module) (pc : ExitPc) : Module := { s with exitPc := pc }

@[simps]
def Module.listDel (s : Module) (i : ℕ) : Module := { s with workList := s.workList.erase i }

@[simp] theorem Module.setWork_work (s : Module) (i j : ℕ) (w : Work) :
    (s.setWork i w).work j = if j = i then w else s.work j := Function.update_apply ..

/-- `workqueues_init` and `cmwq_init`. -/
def initStep (numCores : ℕ) (s : Module) : Option (Module × List Seen) :=
  match s.initPc with
  | .alloc =>
    if s.initIndex < numCores then
      some (s.setInit .queue, [.accessed s.initIndex])
    else some (s.setInit .done, [])
  | .queue =>
    some ((s.setWork s.initIndex .pending).setInit .add, [.accessed s.initIndex])
  | .add =>
    some ({ s with workList := s.initIndex :: s.workList, initPc := .alloc
                   initIndex := s.initIndex + 1 }, listAddSeen s.workList s.initIndex)
  | .done => none

/-- A worker takes the node's work and calls `do_work_delayed`. -/
def startWork (i : ℕ) (s : Module) : Option (Module × List Seen) :=
  if s.work i = .pending then some (s.setWork i .print, []) else none

def doWorkDelayed (i : ℕ) (s : Module) : Option (Module × List Seen) :=
  match s.work i with
  | .print => some (s.setWork i .del, [.accessed i])
  | .del =>
    some ((s.listDel i).setWork i .free, listDelSeen s.workList i)
  | .free => some (s.setWork i .idle, [.freed i])
  | _ => none

/-- The assignments `pos = ..; temp = pos->next` and the test of `list_for_each_safe`. -/
def Module.pointTo (s : Module) (pos : Ptr) : Module :=
  { s with safeIterPos := pos, safeIterTemp := nextPtr s.workList pos
           exitPc := if pos = .head then .done else .cancel }

/-- `workqueues_exit` and `cmwq_exit`, up to the flush of the queue. -/
def exitStep (s : Module) : Option (Module × List Seen) :=
  match s.exitPc, s.safeIterPos with
  | .notStarted, _ =>
    if s.initPc = .done then
      some (s.pointTo (firstPtr s.workList), (firstPtr s.workList).nodes.map .accessed)
    else none
  | .cancel, .node i =>
    some ((s.setWork i (if s.work i = .pending then .idle else s.work i)).setExit .del,
      [.accessed i])
  | .del, .node i =>
    some ((s.listDel i).setExit .free, listDelSeen s.workList i)
  | .free, .node i => some (s.setExit .advance, [.accessed i, .freed i])
  | .advance, _ => some (s.pointTo s.safeIterTemp, s.safeIterTemp.nodes.map .accessed)
  | _, _ => none

def workQueues (numCores : ℕ) : Machine Module Action Seen
  | s, .init => initStep numCores s
  | s, .startWork i => startWork i s
  | s, .doWorkDelayed i => doWorkDelayed i s
  | s, .exit => exitStep s

def loaded : Module := ⟨[], .alloc, 0, fun _ => .idle, .notStarted, .head, .head⟩

end LinuxOddsAndEnds.Ubuntu.WorkQueues
