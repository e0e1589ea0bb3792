import MappingRobot.Library.PrioritySet
import MappingRobot.Library.RingBuffer
import MappingRobot.Os

/-!
# The kernel

The part of uC/OS-II that the program rests on: the ready list and the scheduler of `os_core.c`,
the message queues of `os_q.c`, the delays of `os_time.c`. What stands between
`OS_ENTER_CRITICAL` and `OS_EXIT_CRITICAL` is one step, and so is a call of `OS_Sched`, which is a
critical section too. `Call` says where in a service a task has been left: an interrupt can come
between a critical section and the `OS_Sched` after it, and a task that `OS_Sched` has switched
away from comes back behind it.

A task is known by its priority, as in `OSTCBPrioTbl`, and a queue by an index. The priority sets
are two-level bitmaps (`OSRdyGrp` and `OSRdyTbl`, `OSEventGrp` and `OSEventTbl`), the storage of a
queue is a ring. The tasks and the queues are all created before `OSStart`.
-/

namespace MappingRobot

/-! ### Constants and tables -/

/-- `OS_LOWEST_PRIO` -/
def osLowestPrio : ℕ := 20

/-- `OS_RDY_TBL_SIZE` and `OS_EVENT_TBL_SIZE` -/
def osRdyTblSize : ℕ := osLowestPrio / 8 + 1

instance : NeZero osRdyTblSize :=
  ⟨by decide⟩

/-- A priority, for which the tables have a bit. -/
abbrev Prio := Fin (8 * osRdyTblSize)

/-- A set of tasks as the kernel keeps it: a byte for the group and a table of bytes. -/
abbrev PrioTbl := PrioritySet 8 osRdyTblSize

/-- `OS_TASK_IDLE_PRIO` -/
def osTaskIdlePrio : Prio := ⟨osLowestPrio, by decide⟩

/-- `OS_ERR_PEND_ISR` -/
def osErrPendIsr : BitVec 8 := 2

/-- `OS_ERR_TIMEOUT` -/
def osErrTimeout : BitVec 8 := 10

/-- `OS_ERR_PEND_LOCKED` -/
def osErrPendLocked : BitVec 8 := 13

/-- `OS_ERR_PEND_ABORT` -/
def osErrPendAbort : BitVec 8 := 14

/-- `OS_STAT_RDY` -/
def osStatRdy : BitVec 8 := 0x00

/-- `OS_STAT_Q` -/
def osStatQ : BitVec 8 := 0x04

/-- `OS_STAT_SUSPEND` -/
def osStatSuspend : BitVec 8 := 0x08

/-- `OS_STAT_PEND_ANY`: the bits of semaphores, mailboxes, queues, mutexes and flags. -/
def osStatPendAny : BitVec 8 := 0x01 ||| 0x02 ||| osStatQ ||| 0x10 ||| 0x20

/-- `OS_STAT_PEND_OK`, `OS_STAT_PEND_TO` and `OS_STAT_PEND_ABORT` -/
inductive StatPend
  | pendOk
  | pendTo
  | pendAbort
deriving DecidableEq

/-- `OSUnMapTbl` -/
def osUnMapTbl : List ℕ := [
  0, 0, 1, 0, 2, 0, 1, 0, 3, 0, 1, 0, 2, 0, 1, 0,
  4, 0, 1, 0, 2, 0, 1, 0, 3, 0, 1, 0, 2, 0, 1, 0,
  5, 0, 1, 0, 2, 0, 1, 0, 3, 0, 1, 0, 2, 0, 1, 0,
  4, 0, 1, 0, 2, 0, 1, 0, 3, 0, 1, 0, 2, 0, 1, 0,
  6, 0, 1, 0, 2, 0, 1, 0, 3, 0, 1, 0, 2, 0, 1, 0,
  4, 0, 1, 0, 2, 0, 1, 0, 3, 0, 1, 0, 2, 0, 1, 0,
  5, 0, 1, 0, 2, 0, 1, 0, 3, 0, 1, 0, 2, 0, 1, 0,
  4, 0, 1, 0, 2, 0, 1, 0, 3, 0, 1, 0, 2, 0, 1, 0,
  7, 0, 1, 0, 2, 0, 1, 0, 3, 0, 1, 0, 2, 0, 1, 0,
  4, 0, 1, 0, 2, 0, 1, 0, 3, 0, 1, 0, 2, 0, 1, 0,
  5, 0, 1, 0, 2, 0, 1, 0, 3, 0, 1, 0, 2, 0, 1, 0,
  4, 0, 1, 0, 2, 0, 1, 0, 3, 0, 1, 0, 2, 0, 1, 0,
  6, 0, 1, 0, 2, 0, 1, 0, 3, 0, 1, 0, 2, 0, 1, 0,
  4, 0, 1, 0, 2, 0, 1, 0, 3, 0, 1, 0, 2, 0, 1, 0,
  5, 0, 1, 0, 2, 0, 1, 0, 3, 0, 1, 0, 2, 0, 1, 0,
  4, 0, 1, 0, 2, 0, 1, 0, 3, 0, 1, 0, 2, 0, 1, 0]

/-- A lookup in `OSUnMapTbl`. -/
def osUnMap (b : BitVec 8) : ℕ :=
  osUnMapTbl.getD b.toNat 0

theorem osUnMap_eq_lowestBit (b : BitVec 8) : osUnMap b = b.lowestBit := by
  revert b
  decide +kernel

/-- The priority of the first task of a set: its row from the group, its place from the row. -/
def PrioTbl.highest (s : PrioTbl) : Prio :=
  let y : Fin osRdyTblSize :=
    ⟨osUnMap s.group, by rw [osUnMap_eq_lowestBit]; exact s.leastRow.2⟩
  ⟨((y : ℕ) <<< 3) + osUnMap (s.table y), by
    have hy := y.2
    have hx := BitVec.lowestBit_lt (b := s.table y) (by decide)
    rw [osUnMap_eq_lowestBit, Nat.shiftLeft_eq]
    omega⟩

theorem PrioTbl.highest_eq_least (s : PrioTbl) : s.highest = s.least := by
  have hy : (⟨osUnMap s.group, by rw [osUnMap_eq_lowestBit]; exact s.leastRow.2⟩ :
      Fin osRdyTblSize) = s.leastRow := Fin.ext (osUnMap_eq_lowestBit _)
  refine Fin.ext ?_
  change (osUnMap s.group <<< 3) + osUnMap (s.table ⟨osUnMap s.group, _⟩) =
    8 * s.leastRow + (s.table s.leastRow).lowestBit
  rw [hy, osUnMap_eq_lowestBit, osUnMap_eq_lowestBit, Nat.shiftLeft_eq, Nat.mul_comm]
  rfl

/-! ### The state -/

/-- What is set up before `OSStart`: the queues, and the tasks on `OSTCBList` before the idle
task, which was created first and so comes last. -/
structure Config (ι : Type) where
  /-- `OSQSize` of each queue. -/
  osQSize : ι → ℕ
  osTCBList : List Prio
  osQSize_pos : ∀ i, 0 < osQSize i
  nodup : osTCBList.Nodup
  idle_not_mem : osTaskIdlePrio ∉ osTCBList

/-- The task has been created. -/
def Config.Created {ι : Type} (C : Config ι) (p : Prio) : Prop :=
  p ∈ C.osTCBList ∨ p = osTaskIdlePrio

instance {ι : Type} (C : Config ι) (p : Prio) : Decidable (C.Created p) :=
  inferInstanceAs (Decidable (_ ∨ _))

/-- Where in the kernel a task is. -/
inductive Call (ι : Type)
  /-- In its own code. -/
  | user
  /-- At the `OS_Sched` that ends a service. -/
  | sched
  /-- At the `OS_Sched` of `OSQPend`. -/
  | schedPend (i : ι)
  /-- Behind the `OS_Sched` of `OSQPend`. -/
  | resume (i : ι)
deriving DecidableEq

/-- The queue for which the task is in `OSQPend`, where it has given way. -/
def Call.queue {ι : Type} : Call ι → Option ι
  | .user | .sched => none
  | .schedPend i | .resume i => some i

/-- The task is in `OSQPend` for a queue, and has given way. -/
def Call.PendsOn {ι : Type} (c : Call ι) (i : ι) : Prop :=
  c.queue = some i

theorem Call.PendsOn.unique {ι : Type} {c : Call ι} {i j : ι} (hi : c.PendsOn i)
    (hj : c.PendsOn j) : i = j :=
  Option.some.inj (hi.symm.trans hj)

@[simp]
theorem Call.not_pendsOn_user {ι : Type} (i : ι) : ¬ (Call.user : Call ι).PendsOn i :=
  nofun

@[simp]
theorem Call.not_pendsOn_sched {ι : Type} (i : ι) : ¬ (Call.sched : Call ι).PendsOn i :=
  nofun

@[simp]
theorem Call.pendsOn_schedPend_iff {ι : Type} {i j : ι} :
    (Call.schedPend i).PendsOn j ↔ i = j :=
  Option.some_inj

@[simp]
theorem Call.pendsOn_resume_iff {ι : Type} {i j : ι} : (Call.resume i).PendsOn j ↔ i = j :=
  Option.some_inj

/-- `OS_TCB` -/
structure OsTcb (ι α : Type) where
  osTCBEventPtr : Option ι
  osTCBMsg : α
  osTCBDly : BitVec 16
  osTCBStat : BitVec 8
  osTCBStatPend : StatPend

/-- `OS_TCBInit` -/
def OsTcb.init {ι α : Type} (null : α) : OsTcb ι α :=
  ⟨none, null, 0#16, osStatRdy, .pendOk⟩

/-- What a tick does to a TCB whose delay it ends. -/
def OsTcb.endDelay {ι α : Type} (t : OsTcb ι α) : OsTcb ι α :=
  if t.osTCBStat &&& osStatPendAny ≠ osStatRdy then
    { t with
      osTCBDly := 0#16
      osTCBStat := t.osTCBStat &&& ~~~osStatPendAny
      osTCBStatPend := .pendTo }
  else
    { t with osTCBDly := 0#16, osTCBStatPend := .pendOk }

/-- `OS_EVENT` of a queue, with its `OS_Q`. -/
structure OsEvent (α : Type) (size : ℕ) where
  /-- `OSEventGrp` and `OSEventTbl` -/
  wait : PrioTbl
  osQ : RingBuffer α size

/-- The globals of the kernel, and where in it each task is. -/
structure Kernel {ι : Type} (C : Config ι) (α : Type) where
  /-- `OSRdyGrp` and `OSRdyTbl` -/
  osRdy : PrioTbl
  /-- `OSTCBPrioTbl` -/
  tcb : Prio → OsTcb ι α
  event : (i : ι) → OsEvent α (C.osQSize i)
  osPrioCur : Prio
  osPrioHighRdy : Prio
  osIntNesting : BitVec 8
  osLockNesting : BitVec 8
  call : Prio → Call ι

namespace Kernel

variable {ι α : Type} [DecidableEq ι] {C : Config ι}

/-- Change the TCB of a task. -/
def setTcb (k : Kernel C α) (p : Prio) (t : OsTcb ι α) : Kernel C α :=
  { k with tcb := Function.update k.tcb p t }

/-- Change the wait list of a queue. -/
def setWait (k : Kernel C α) (i : ι) (wait : PrioTbl) : Kernel C α :=
  { k with event := Function.update k.event i { k.event i with wait } }

/-- Change the storage of a queue. -/
def setQ (k : Kernel C α) (i : ι) (osQ : RingBuffer α (C.osQSize i)) : Kernel C α :=
  { k with event := Function.update k.event i { k.event i with osQ } }

/-- The running task goes to a place in the kernel. -/
def goto (k : Kernel C α) (c : Call ι) : Kernel C α :=
  { k with call := Function.update k.call k.osPrioCur c }

/-! ### Scheduling -/

/-- `OS_SchedNew` -/
def osSchedNew (k : Kernel C α) : Kernel C α :=
  { k with osPrioHighRdy := k.osRdy.highest }

/-- `OSCtxSw` and `OSIntCtxSw` -/
def osCtxSw (k : Kernel C α) : Kernel C α :=
  { k with osPrioCur := k.osPrioHighRdy }

/-- `OS_Sched` -/
def osSched (k : Kernel C α) : Kernel C α :=
  if k.osIntNesting = 0#8 then
    if k.osLockNesting = 0#8 then
      let k := k.osSchedNew
      if k.osPrioHighRdy ≠ k.osPrioCur then k.osCtxSw else k
    else
      k
  else
    k

/-- A service that the caller ends with `OS_Sched`, which does nothing in an interrupt. -/
def callSched (k : Kernel C α) (c : Call ι) : Kernel C α :=
  if k.osIntNesting = 0#8 then k.goto c else k.osSched

/-- `OSIntEnter` -/
def osIntEnter (k : Kernel C α) : Kernel C α :=
  if k.osIntNesting.toNat < 255 then { k with osIntNesting := k.osIntNesting + 1#8 } else k

/-- `OSIntExit` -/
def osIntExit (k : Kernel C α) : Kernel C α :=
  let k := if k.osIntNesting.toNat > 0 then { k with osIntNesting := k.osIntNesting - 1#8 } else k
  if k.osIntNesting = 0#8 then
    if k.osLockNesting = 0#8 then
      let k := k.osSchedNew
      if k.osPrioHighRdy ≠ k.osPrioCur then k.osCtxSw else k
    else
      k
  else
    k

/-- `OSSchedLock` -/
def osSchedLock (k : Kernel C α) : Kernel C α :=
  if k.osIntNesting = 0#8 then
    if k.osLockNesting.toNat < 255 then { k with osLockNesting := k.osLockNesting + 1#8 } else k
  else
    k

/-- `OSSchedUnlock` -/
def osSchedUnlock (k : Kernel C α) : Kernel C α :=
  if k.osLockNesting.toNat > 0 then
    let k := { k with osLockNesting := k.osLockNesting - 1#8 }
    if k.osLockNesting = 0#8 then
      if k.osIntNesting = 0#8 then k.callSched .sched else k
    else
      k
  else
    k

/-! ### Wait lists -/

/-- `OS_EventTaskWait` -/
def osEventTaskWait (k : Kernel C α) (i : ι) : Kernel C α :=
  let k := k.setTcb k.osPrioCur { k.tcb k.osPrioCur with osTCBEventPtr := some i }
  let k := k.setWait i ((k.event i).wait.insert k.osPrioCur)
  { k with osRdy := k.osRdy.remove k.osPrioCur }

/-- `OS_EventTaskRemove` -/
def osEventTaskRemove (k : Kernel C α) (p : Prio) (i : ι) : Kernel C α :=
  k.setWait i ((k.event i).wait.remove p)

/-- `OS_EventTaskRdy` -/
def osEventTaskRdy (k : Kernel C α) (i : ι) (msg : α) (msk : BitVec 8) (pendStat : StatPend) :
    Kernel C α :=
  let prio := (k.event i).wait.highest
  let tcb := { k.tcb prio with
    osTCBDly := 0#16
    osTCBMsg := msg
    osTCBStat := (k.tcb prio).osTCBStat &&& ~~~msk
    osTCBStatPend := pendStat }
  let k := k.setTcb prio tcb
  let k :=
    if tcb.osTCBStat &&& osStatSuspend = osStatRdy then { k with osRdy := k.osRdy.insert prio }
    else k
  k.osEventTaskRemove prio i

/-! ### Queues -/

/-- `OSQPost` -/
def osQPost (k : Kernel C α) (i : ι) (msg : α) : BitVec 8 × Kernel C α :=
  if (k.event i).wait.group ≠ 0#8 then
    (osErrNone, (k.osEventTaskRdy i msg osStatQ .pendOk).callSched .sched)
  else if h : (k.event i).osQ.count < C.osQSize i then
    (osErrNone, k.setQ i ((k.event i).osQ.pushBack msg h))
  else
    (osErrQFull, k)

/-- How the first critical section of `OSQPend` ends. -/
inductive Pended (α : Type)
  /-- It is left with an error. -/
  | error (err : BitVec 8)
  /-- It takes a message from the queue. -/
  | message (msg : α)
  /-- The task waits. -/
  | waits

/-- `OSQPend`, as far as its `OS_Sched`. -/
def osQPend (k : Kernel C α) (i : ι) (timeout : BitVec 16) : Pended α × Kernel C α :=
  if k.osIntNesting.toNat > 0 then
    (.error osErrPendIsr, k)
  else if k.osLockNesting.toNat > 0 then
    (.error osErrPendLocked, k)
  else if h : 0 < (k.event i).osQ.count then
    (.message (k.event i).osQ.head, k.setQ i ((k.event i).osQ.popFront h))
  else
    let k := k.setTcb k.osPrioCur { k.tcb k.osPrioCur with
      osTCBStat := (k.tcb k.osPrioCur).osTCBStat ||| osStatQ
      osTCBStatPend := .pendOk
      osTCBDly := timeout }
    (.waits, (k.osEventTaskWait i).goto (.schedPend i))

/-- `OSQPend` from its `OS_Sched` on: what it returns, `null` being the null pointer, and the
error. -/
def osQPendReturn (k : Kernel C α) (i : ι) (null : α) : α × BitVec 8 × Kernel C α :=
  let (msg, err, k) :=
    match (k.tcb k.osPrioCur).osTCBStatPend with
    | .pendOk => ((k.tcb k.osPrioCur).osTCBMsg, osErrNone, k)
    | .pendAbort => (null, osErrPendAbort, k)
    | .pendTo => (null, osErrTimeout, k.osEventTaskRemove k.osPrioCur i)
  let k := k.setTcb k.osPrioCur { k.tcb k.osPrioCur with
    osTCBStat := osStatRdy
    osTCBStatPend := .pendOk
    osTCBEventPtr := none
    osTCBMsg := null }
  (msg, err, k.goto .user)

/-! ### Time -/

/-- `OSTimeDly` -/
def osTimeDly (k : Kernel C α) (ticks : BitVec 16) : Kernel C α :=
  if k.osIntNesting.toNat > 0 then
    k
  else if ticks.toNat > 0 then
    let k := { k with osRdy := k.osRdy.remove k.osPrioCur }
    let k := k.setTcb k.osPrioCur { k.tcb k.osPrioCur with osTCBDly := ticks }
    k.callSched .sched
  else
    k

/-- A turn of the loop of `OSTimeTick`. -/
def tickTask (k : Kernel C α) (p : Prio) : Kernel C α :=
  let t := k.tcb p
  if t.osTCBDly ≠ 0#16 then
    if t.osTCBDly - 1#16 = 0#16 then
      let t := OsTcb.endDelay t
      let k := k.setTcb p t
      if t.osTCBStat &&& osStatSuspend = osStatRdy then { k with osRdy := k.osRdy.insert p } else k
    else
      k.setTcb p { t with osTCBDly := t.osTCBDly - 1#16 }
  else
    k

/-- `OSTimeTick` -/
def osTimeTick (k : Kernel C α) : Kernel C α :=
  C.osTCBList.foldl tickTask k

/-! ### The start -/

/-- `OSStart`, after the tasks and the queues have been created. -/
def osStart (C : Config ι) (null : α) : Kernel C α :=
  let osRdy : PrioTbl := C.osTCBList.foldr (fun p s ↦ s.insert p)
    ((PrioritySet.empty (by decide)).insert osTaskIdlePrio)
  { osRdy
    tcb := fun _ ↦ .init null
    event := fun i ↦ ⟨.empty (by decide), .ofSlots (fun _ ↦ null) (C.osQSize_pos i)⟩
    osPrioCur := osRdy.highest
    osPrioHighRdy := osRdy.highest
    osIntNesting := 0#8
    osLockNesting := 0#8
    call := fun _ ↦ .user }

end Kernel

end MappingRobot
