import Firebird.Library.Ring
import Mathlib.Data.Set.Insert

/-!
# The queues of the lock table

The self-relative queues of `lock/lock.cpp` with the recovery fields of the secondary header, one
memory write after the other.  A process may die between two writes of `insert_tail`, of `remove_que`
or of the recovery that `acquire_shmem` runs; the next process to acquire the table finds what was
written.  The consistency checks of `remove_que` are compiled into development builds only.
-/

namespace Firebird
namespace SelfRelativeQueue

open LinkedRing

/-- `SRQ_PTR`: an offset in the shared memory, 0 for none. -/
abbrev Ptr := Nat

/-- The links of every `srq` and the recovery fields `shb_remove_node`, `shb_insert_que` and
`shb_insert_prior`. -/
structure Memory extends Links Ptr where
  removeNode : Ptr
  insertQue : Ptr
  insertPrior : Ptr

namespace Memory

/-- `node->srq_forward = value`. -/
def setForward (memory : Memory) (node value : Ptr) : Memory :=
  { memory with forward := Function.update memory.forward node value }

/-- `node->srq_backward = value`. -/
def setBackward (memory : Memory) (node value : Ptr) : Memory :=
  { memory with backward := Function.update memory.backward node value }

end Memory

/-- A routine as the writes it makes, each of which may read what the earlier ones wrote. -/
abbrev Routine := List (Memory → Memory)

/-- The memory after the writes of a routine. -/
def perform (routine : Routine) (memory : Memory) : Memory :=
  routine.foldl (fun memory write => write memory) memory

/-- `LockManager::insert_tail`. -/
def insertTail (lockSrq node : Ptr) : Routine :=
  [ fun memory => { memory with insertQue := lockSrq },
    fun memory => { memory with insertPrior := memory.backward lockSrq },
    fun memory => memory.setForward node lockSrq,
    fun memory => memory.setBackward node (memory.backward lockSrq),
    fun memory => memory.setForward (memory.backward lockSrq) node,
    fun memory => memory.setBackward lockSrq node,
    fun memory => { memory with insertQue := 0 },
    fun memory => { memory with insertPrior := 0 } ]

/-- `LockManager::remove_que`. -/
def removeQue (node : Ptr) : Routine :=
  [ fun memory => { memory with removeNode := node },
    fun memory => memory.setBackward (memory.forward node) (memory.backward node),
    fun memory => memory.setForward (memory.backward node) (memory.forward node),
    fun memory => { memory with removeNode := 0 },
    -- `SRQ_INIT` assigns from right to left
    fun memory => memory.setBackward node node,
    fun memory => memory.setForward node node ]

/-- The branch of `acquire_shmem` that takes an interrupted insertion back. -/
def undoInsert : Routine :=
  [ fun memory => memory.setBackward memory.insertQue memory.insertPrior,
    fun memory => memory.setForward memory.insertPrior memory.insertQue,
    fun memory => { memory with insertQue := 0 },
    fun memory => { memory with insertPrior := 0 } ]

/-- The unfinished work that `acquire_shmem` finishes after a prior owner. -/
def recovery (memory : Memory) : Routine :=
  if memory.removeNode ≠ 0 then removeQue memory.removeNode
  else if memory.insertQue ≠ 0 ∧ memory.insertPrior ≠ 0 then undoInsert
  else []

/-- The shared memory with the owner marked in it. -/
structure Table where
  memory : Memory
  /-- `lhb_active_owner`: 0 when the table is released, negative for `DUMMY_OWNER`. -/
  activeOwner : Int
  /-- A living process holds the mutex. -/
  held : Bool
  /-- The nodes whose last removal was interrupted. -/
  interrupted : List Ptr

/-- What the processes do; a number is the count of writes after which the process dies. -/
inductive Event where
  | acquire (owner : Int) (died : Option Nat)
  | insertTail (lockSrq node : Ptr) (died : Option Nat)
  | removeQue (node : Ptr) (died : Option Nat)
  | release
  deriving DecidableEq, Repr

/-- The writes a process makes before it dies. -/
def reached (routine : Routine) : Option Nat → Routine
  | none => routine
  | some count => routine.take count

namespace Table

/-- `acquire_shmem` marks its owner and looks for unfinished work of a prior owner above 0. -/
def acquire (table : Table) (owner : Int) (died : Option Nat) : Table :=
  let work := if table.activeOwner > 0 then recovery table.memory else []
  { table with
    memory := perform (reached work died) table.memory
    activeOwner := owner
    held := died.isNone }

/-- The table after an event. -/
def step (table : Table) : Event → Table
  | .acquire owner died => table.acquire owner died
  | .insertTail lockSrq node died =>
      { table with
        memory := perform (reached (SelfRelativeQueue.insertTail lockSrq node) died) table.memory
        held := died.isNone
        interrupted := table.interrupted.filter (· ≠ node) }
  | .removeQue node died =>
      { table with
        memory := perform (reached (SelfRelativeQueue.removeQue node) died) table.memory
        held := died.isNone
        interrupted := if died.isNone then table.interrupted else node :: table.interrupted }
  | .release => { table with activeOwner := 0, held := false }

/-- The table after a sequence of events. -/
def run (table : Table) (events : List Event) : Table := events.foldl step table

end Table

/-- The node is found from the head of a queue by following the forward links. -/
def OnQueue (heads : Set Ptr) (memory : Memory) (node : Ptr) : Prop :=
  ∃ head ∈ heads, ∃ count, memory.forward^[count] head = node

/-- What the callers in the lock manager keep to: the table is acquired before it is changed, only
nodes outside the queues are inserted, and a removed node is on a queue or its last removal was
interrupted. -/
def Legal (heads : Set Ptr) (table : Table) : Event → Prop
  | .acquire owner _ => table.held = false ∧ owner ≠ 0
  | .insertTail lockSrq node _ =>
      table.held = true ∧ lockSrq ∈ heads ∧ node ≠ 0 ∧ ¬ OnQueue heads table.memory node
  | .removeQue node _ =>
      table.held = true ∧ node ∉ heads ∧ node ≠ 0 ∧
        (OnQueue heads table.memory node ∨ node ∈ table.interrupted)
  | .release => table.held = true

/-- A condition that every event of a sequence meets in the table it happens in. -/
def Throughout (condition : Table → Event → Prop) : Table → List Event → Prop
  | _, [] => True
  | table, event :: events =>
      condition table event ∧ Throughout condition (table.step event) events

/-- The members of every queue in their order. -/
abbrev Contents := Ptr → List Ptr

namespace Contents

/-- A node added at the tail of a queue. -/
def append (contents : Contents) (head node : Ptr) : Contents :=
  Function.update contents head (contents head ++ [node])

/-- A node taken out of the queue it is on, if it is on one. -/
def remove (contents : Contents) (node : Ptr) : Contents :=
  fun head => (contents head).erase node

/-- What an event may do to the queues: an interrupted operation happens or does not, and nothing
else changes them. -/
def Explains (before : Contents) : Event → Contents → Prop
  | .acquire _ _, after => after = before
  | .insertTail lockSrq node died, after =>
      after = before.append lockSrq node ∨ died.isSome ∧ after = before
  | .removeQue node died, after => after = before.remove node ∨ died.isSome ∧ after = before
  | .release, after => after = before

/-- What a sequence of events may do to the queues. -/
def Explained : Contents → List Event → Contents → Prop
  | before, [], after => after = before
  | before, event :: events, after =>
      ∃ between, Explains before event between ∧ Explained between events after

end Contents

/-- The links form well-formed queues with these members. -/
def Holds (heads : Set Ptr) (links : Links Ptr) (contents : Contents) : Prop :=
  Rings heads links contents ∧ ∀ node, InRings heads contents node → node ≠ 0

/-- A table with well-formed queues on which no operation has been interrupted. -/
structure Sound (heads : Set Ptr) (table : Table) (contents : Contents) : Prop where
  holds : Holds heads table.memory.toLinks contents
  removeNode : table.memory.removeNode = 0
  insertQue : table.memory.insertQue = 0
  insertPrior : table.memory.insertPrior = 0
  held : table.held = false
  interrupted : table.interrupted = []

/-- After every sequence of operations and deaths, a process that has acquired the table finds every
queue well formed, with the members that the sequence explains. -/
def QueuesRecovered : Prop :=
  ∀ (heads : Set Ptr) (table : Table) (contents : Contents) (events : List Event),
    Sound heads table contents → Throughout (Legal heads) table events →
      (table.run events).held = true →
        ∃ after, contents.Explained events after ∧
          Holds heads (table.run events).memory.toLinks after

end SelfRelativeQueue
end Firebird
