import MappingRobot.Kernel.Pending
import MappingRobot.Kernel.Timing
import MappingRobot.System

/-!
# The program on the kernel

`main` and its tasks over the kernel itself: the queues are the rings of `os_q.c`, the processor
runs the task that the scheduler has chosen, the interrupts go through `OSIntEnter` and `OSIntExit`,
and a tick is a call of `OSTimeTick`. What a task does between two services is what it does in
`System`; its calls of `OSQPend`, `OSQPost` and `OSTimeDly` are calls of the kernel. The statistics
task and the idle task are there too.

`System` has none of this: there a queue is a list with the task behind it, a timeout and the end of
a delay are events of their own, and the priorities are a condition on events.
-/

namespace MappingRobot

open LabelledRun Kernel

/-! ### The tasks and the queues -/

/-- The queues that `initBluetooth` creates. -/
inductive QueueId
  | sendQueue
  | receiveQueue
  | byteQueue
deriving DecidableEq

/-- The task that pends on a queue. -/
def QueueId.task : QueueId → Task
  | .sendQueue => .sendTask
  | .receiveQueue => .task2
  | .byteQueue => .receiveTask

/-- The priority of a task. -/
def Task.prio (t : Task) : Prio :=
  ⟨t.priority, by cases t <;> decide⟩

/-- `OS_TASK_STAT_PRIO` -/
def osTaskStatPrio : Prio := ⟨osLowestPrio - 1, by decide⟩

/-- What `main` has set up when it calls `OSStart`. A task is put at the front of `OSTCBList`, and
`OSInit` has created the statistics task. -/
def mainConfig : Config QueueId where
  osQSize
    | .sendQueue => sendQueueLength
    | .receiveQueue => receiveQueueLength
    | .byteQueue => byteQueueLength
  osTCBList := [Task.task2.prio, Task.task1.prio, Task.receiveTask.prio, Task.sendTask.prio,
    osTaskStatPrio]
  osQSize_pos i := by cases i <;> decide
  nodup := by decide
  idle_not_mem := by decide

/-! ### The machine -/

/-- The kernel, and the program on it. A message is an address. -/
structure Machine (σ : Type) where
  kernel : Kernel mainConfig ℕ
  /-- The memory, the ports, and where in its own code each task is. The queues have no messages
  here: those are in the kernel. -/
  sys : Sys σ

/-- What can happen to the machine. -/
inductive MachineEvent
  /-- The processor goes on with the running task. -/
  | cpu (mallocOk : Bool)
  /-- An interrupt begins. -/
  | intEnter
  /-- `bluetoothIRQ`, in an interrupt. -/
  | irq (read : Byte)
  /-- `OSTimeTick`, in an interrupt. -/
  | tick
  /-- An interrupt ends. -/
  | intExit
deriving DecidableEq

/-- A task goes on with what `OSQPend` has returned. Only `task2` and `receiveTask` look at the
error; the others, and `task2` after an error that is not a timeout, go on to dereference the null
pointer. -/
def Sys.pended {σ : Type} (s : Sys σ) (i : QueueId) (msg : ℕ) (err : BitVec 8) : Sys σ :=
  match i with
  | .byteQueue =>
    let byte : Byte := (BitVec.ofNat 32 msg).setWidth 8
    if err = osErrNone then
      { s with byteQueue := s.byteQueue.goto (.got byte) }
    else
      { s with
        leds := { s.leds.taken byte with charRecv := 0 }.write
        byteQueue := s.byteQueue.goto .pend }
  | .sendQueue =>
    if err = osErrNone then { s with sendQueue := s.sendQueue.goto (.got msg) }
    else { s with undefined := true }
  | .receiveQueue =>
    if err = osErrTimeout then { s with receiveQueue := s.receiveQueue.goto .timedOut }
    else if err = osErrNone then { s with receiveQueue := s.receiveQueue.goto (.got msg) }
    else { s with undefined := true }

/-- The delay of `OS_TaskStat`, `2 * OS_TICKS_PER_SEC / 10`. -/
def statDelay : BitVec 16 := 200

/-- The number of ticks of an event. -/
def MachineEvent.ticks : MachineEvent → ℕ
  | .tick => 1
  | .cpu _ | .intEnter | .irq _ | .intExit => 0

namespace Machine

variable {σ : Type}

/-- The start of multitasking. -/
def init (slave : σ) : Machine σ :=
  ⟨osStart mainConfig 0, .init slave⟩

/-- Go on with the outcome of a step, if it is defined. -/
def orUndefined (c : Machine σ) (outcome : Option (Machine σ)) : Machine σ :=
  outcome.getD { c with sys := { c.sys with undefined := true } }

/-- The running task calls `OSQPend`. -/
def pend (c : Machine σ) (i : QueueId) (timeout : BitVec 16) : Machine σ :=
  match c.kernel.osQPend i timeout with
  | (.error err, kernel) => ⟨kernel, c.sys.pended i 0 err⟩
  | (.message msg, kernel) => ⟨kernel, c.sys.pended i msg osErrNone⟩
  | (.waits, kernel) => ⟨kernel, c.sys⟩

/-- The running task returns from an `OSQPend` in which it has waited. -/
def pendReturn (c : Machine σ) (i : QueueId) : Machine σ :=
  let (msg, err, kernel) := c.kernel.osQPendReturn i 0
  ⟨kernel, c.sys.pended i msg err⟩

/-- `receiveTask` goes on from a program point. -/
def receiveTask (mallocOk : Bool) (c : Machine σ) : ReceivePc → Option (Machine σ)
  | .pend => some (c.pend .byteQueue 0#16)
  | .post p => do
    let sys ← receiveTaskStep mallocOk c.sys (.post p)
    some ⟨(c.kernel.osQPost .receiveQueue p).2, { sys with receiveQueue := c.sys.receiveQueue }⟩
  | pc => (receiveTaskStep mallocOk c.sys pc).map fun sys ↦ ⟨c.kernel, sys⟩

/-- `sendTask` goes on from a program point. -/
def sendTask (c : Machine σ) : SendPc → Option (Machine σ)
  | .pend => some (c.pend .sendQueue 0#16)
  | pc => (sendTaskStep c.sys pc).map fun sys ↦ ⟨c.kernel, sys⟩

/-- `task2` goes on from a program point. -/
def task2 (c : Machine σ) : Task2Pc → Option (Machine σ)
  | .pend => some (c.pend .receiveQueue (BitVec.ofNat 16 btCmdTimeout))
  | pc => (task2Step c.sys pc).map fun sys ↦ ⟨c.kernel, sys⟩

/-- `task1` goes on from a program point. Its `OSTimeDlyHMSM` is one call of `OSTimeDly`. -/
def task1 (S : Slave σ) (mallocOk : Bool) (c : Machine σ) : Task1Pc → Option (Machine σ)
  | .delayed => some ⟨c.kernel.osTimeDly (BitVec.ofNat 16 readDelay), { c.sys with task1 := .read }⟩
  | .post p => some ⟨(c.kernel.osQPost .sendQueue p).2, { c.sys with task1 := .rotate }⟩
  | pc => (task1Step S mallocOk c.sys pc).map fun sys ↦ ⟨c.kernel, sys⟩

example : osTimeDlyHmsm 0 0 0 0 (BitVec.ofNat 16 readDelay) =
    (osErrNone, [BitVec.ofNat 16 readDelay]) := by
  decide

/-- The running task goes on in its own code. The statistics task delays itself for ever, as
nothing calls `OSStatInit`. -/
def runTask (S : Slave σ) (mallocOk : Bool) (c : Machine σ) : Machine σ :=
  if c.kernel.osPrioCur = Task.receiveTask.prio then
    match c.sys.byteQueue.task with
    | .running pc => c.orUndefined (c.receiveTask mallocOk pc)
    | .waiting | .expired | .posted _ => c
  else if c.kernel.osPrioCur = Task.sendTask.prio then
    match c.sys.sendQueue.task with
    | .running pc => c.orUndefined (c.sendTask pc)
    | .waiting | .expired | .posted _ => c
  else if c.kernel.osPrioCur = Task.task2.prio then
    match c.sys.receiveQueue.task with
    | .running pc => c.orUndefined (c.task2 pc)
    | .waiting | .expired | .posted _ => c
  else if c.kernel.osPrioCur = Task.task1.prio then
    c.orUndefined (c.task1 S mallocOk c.sys.task1)
  else if c.kernel.osPrioCur = osTaskStatPrio then
    { c with kernel := c.kernel.osTimeDly statDelay }
  else
    c

/-- The processor goes on with the running task, which may be in its own code, at an `OS_Sched`, or
behind that of `OSQPend`. -/
def cpu (S : Slave σ) (mallocOk : Bool) (c : Machine σ) : Option (Machine σ) :=
  match c.kernel.call c.kernel.osPrioCur with
  | .user => some (c.runTask S mallocOk)
  | .sched | .schedPend _ => c.kernel.throughSched.map fun kernel ↦ { c with kernel }
  | .resume i => some (c.pendReturn i)

/-- `bluetoothIRQ` -/
def irq (read : Byte) (c : Machine σ) : Machine σ :=
  if read.toInt = -1 then
    c
  else
    ⟨(c.kernel.osQPost .byteQueue (read.signExtend 32).toNat).2,
      { c.sys with leds := c.sys.leds.received read }⟩

/-- One step of the machine. -/
def step (S : Slave σ) (c : Machine σ) (e : MachineEvent) : Option (Machine σ) :=
  if c.sys.undefined then none else
  match e with
  | .cpu mallocOk => if c.kernel.osIntNesting = 0#8 then c.cpu S mallocOk else none
  | .intEnter => some { c with kernel := c.kernel.osIntEnter }
  | .irq read => if c.kernel.osIntNesting ≠ 0#8 then some (c.irq read) else none
  | .tick =>
    if c.kernel.osIntNesting ≠ 0#8 then some { c with kernel := c.kernel.osTimeTick } else none
  | .intExit =>
    if c.kernel.osIntNesting ≠ 0#8 then some { c with kernel := c.kernel.osIntExit } else none

/-- A step, as a relation. -/
def Step (S : Slave σ) (c : Machine σ) (e : MachineEvent) (c' : Machine σ) : Prop :=
  c.step S e = some c'

/-! ### What a step does to the kernel -/

variable {S : Slave σ} {c c' : Machine σ} {mallocOk : Bool}

theorem receiveTask_of_ne {pc : ReceivePc} (hpend : pc ≠ .pend) (hpost : ∀ p, pc ≠ .post p) :
    c.receiveTask mallocOk pc =
      (receiveTaskStep mallocOk c.sys pc).map fun sys ↦ ⟨c.kernel, sys⟩ := by
  cases pc with
  | pend => exact absurd rfl hpend
  | post p => exact absurd rfl (hpost p)
  | got | mallocBuf | mallocData | fill => rfl

theorem sendTask_of_ne {pc : SendPc} (hpend : pc ≠ .pend) :
    c.sendTask pc = (sendTaskStep c.sys pc).map fun sys ↦ ⟨c.kernel, sys⟩ := by
  cases pc with
  | pend => exact absurd rfl hpend
  | got | count | header | sending | freeData | freeBuf => rfl

theorem task2_of_ne {pc : Task2Pc} (hpend : pc ≠ .pend) :
    c.task2 pc = (task2Step c.sys pc).map fun sys ↦ ⟨c.kernel, sys⟩ := by
  cases pc with
  | pend => exact absurd rfl hpend
  | got | handle | freeData | freeBuf | timedOut => rfl

theorem task1_of_ne {pc : Task1Pc} (hdelayed : pc ≠ .delayed) (hpost : ∀ p, pc ≠ .post p) :
    c.task1 S mallocOk pc =
      (task1Step S mallocOk c.sys pc).map fun sys ↦ ⟨c.kernel, sys⟩ := by
  cases pc with
  | delayed => exact absurd rfl hdelayed
  | post p => exact absurd rfl (hpost p)
  | start | poll | read | mallocBuf | mallocData | fill | load | count | rotate => rfl

/-- What the program does to the kernel in one go: nothing, or one service. A post to `receiveQueue`
is of a packet that is new. -/
def Calls (c c' : Machine σ) : Prop :=
  c'.kernel = c.kernel ∨ ∃ a : Action QueueId ℕ, Kernel.Step 0 c.kernel a c'.kernel ∧
    a.ticks = 0 ∧ (a.PostsTo .receiveQueue → c'.sys.log.posted ≠ c.sys.log.posted)

theorem calls_map {o : Option (Sys σ)} :
    c.Calls (c.orUndefined (o.map fun sys ↦ ⟨c.kernel, sys⟩)) := by
  cases o <;> exact Or.inl rfl

theorem kernel_pend (i : QueueId) (timeout : BitVec 16) :
    (c.pend i timeout).kernel = (c.kernel.osQPend i timeout).2 := by
  unfold pend
  split <;> rename_i heq <;> rw [heq]

theorem calls_pend (huser : c.kernel.AtUser) (hidle : c.kernel.osPrioCur ≠ osTaskIdlePrio)
    (i : QueueId) (timeout : BitVec 16) : c.Calls (c.pend i timeout) := by
  refine Or.inr ⟨.pend i timeout, ?_, rfl, False.elim⟩
  rw [kernel_pend]
  simp [Kernel.Step, Kernel.step, huser, hidle]

theorem calls_receiveTask (huser : c.kernel.AtUser)
    (hidle : c.kernel.osPrioCur ≠ osTaskIdlePrio) (pc : ReceivePc) :
    c.Calls (c.orUndefined (c.receiveTask mallocOk pc)) := by
  cases pc with
  | pend => exact calls_pend huser hidle _ _
  | post p =>
    cases hpacket : c.sys.heap.packet p with
    | none =>
      refine Or.inl ?_
      simp [orUndefined, receiveTask, receiveTaskStep, hpacket]
    | some packet =>
      have hpost : c.orUndefined (c.receiveTask mallocOk (.post p)) =
          ⟨(c.kernel.osQPost .receiveQueue p).2, { c.sys with
            log := { c.sys.log with posted := c.sys.log.posted ++ [packet] }
            byteQueue := c.sys.byteQueue.goto .pend }⟩ := by
        simp [orUndefined, receiveTask, receiveTaskStep, hpacket]
      rw [hpost]
      exact Or.inr ⟨.post .receiveQueue p, by simp [Kernel.Step, Kernel.step, huser], rfl,
        fun _ ↦ by simp⟩
  | got | mallocBuf | mallocData | fill =>
    rw [receiveTask_of_ne (by simp) (by simp)]
    exact calls_map

theorem calls_sendTask (huser : c.kernel.AtUser)
    (hidle : c.kernel.osPrioCur ≠ osTaskIdlePrio) (pc : SendPc) :
    c.Calls (c.orUndefined (c.sendTask pc)) := by
  cases pc with
  | pend => exact calls_pend huser hidle _ _
  | got | count | header | sending | freeData | freeBuf =>
    rw [sendTask_of_ne (by simp)]
    exact calls_map

theorem calls_task2 (huser : c.kernel.AtUser)
    (hidle : c.kernel.osPrioCur ≠ osTaskIdlePrio) (pc : Task2Pc) :
    c.Calls (c.orUndefined (c.task2 pc)) := by
  cases pc with
  | pend => exact calls_pend huser hidle _ _
  | got | handle | freeData | freeBuf | timedOut =>
    rw [task2_of_ne (by simp)]
    exact calls_map

theorem calls_task1 (huser : c.kernel.AtUser)
    (hidle : c.kernel.osPrioCur ≠ osTaskIdlePrio) (pc : Task1Pc) :
    c.Calls (c.orUndefined (c.task1 S mallocOk pc)) := by
  cases pc with
  | delayed =>
    refine Or.inr ⟨.dly (BitVec.ofNat 16 readDelay), ?_, rfl, False.elim⟩
    simp [Kernel.Step, Kernel.step, huser, hidle, orUndefined, task1]
  | post p =>
    refine Or.inr ⟨.post .sendQueue p, ?_, rfl, ?_⟩
    · simp [Kernel.Step, Kernel.step, huser, orUndefined, task1]
    · simp [Action.PostsTo]
  | start | poll | read | mallocBuf | mallocData | fill | load | count | rotate =>
    rw [task1_of_ne (by simp) (by simp)]
    exact calls_map

theorem calls_runTask (huser : c.kernel.AtUser) : c.Calls (c.runTask S mallocOk) := by
  have hidle : ∀ {p : Prio}, c.kernel.osPrioCur = p → p ≠ osTaskIdlePrio →
      c.kernel.osPrioCur ≠ osTaskIdlePrio := fun hcur hne ↦ hcur ▸ hne
  unfold runTask
  split_ifs with h1 h2 h3 h4 h5
  · cases c.sys.byteQueue.task with
    | running pc => exact calls_receiveTask huser (hidle h1 (by decide)) pc
    | waiting | expired | posted => exact Or.inl rfl
  · cases c.sys.sendQueue.task with
    | running pc => exact calls_sendTask huser (hidle h2 (by decide)) pc
    | waiting | expired | posted => exact Or.inl rfl
  · cases c.sys.receiveQueue.task with
    | running pc => exact calls_task2 huser (hidle h3 (by decide)) pc
    | waiting | expired | posted => exact Or.inl rfl
  · exact calls_task1 huser (hidle h4 (by decide)) _
  · have hne := hidle h5 (by decide)
    refine Or.inr ⟨.dly statDelay, ?_, rfl, False.elim⟩
    simp [Kernel.Step, Kernel.step, huser, hne]
  · exact Or.inl rfl

theorem calls_cpu (hint : c.kernel.osIntNesting = 0#8) (h : c.cpu S mallocOk = some c') :
    c.Calls c' := by
  unfold cpu at h
  cases hcall : c.kernel.call c.kernel.osPrioCur with
  | user =>
    obtain rfl : c.runTask S mallocOk = c' := by simpa [hcall] using h
    exact calls_runTask ⟨hint, hcall⟩
  | resume i =>
    obtain rfl : c.pendReturn i = c' := by simpa [hcall] using h
    refine Or.inr ⟨.resume, ?_, rfl, False.elim⟩
    simp [Kernel.Step, Kernel.step, hint, throughPend, hcall, pendReturn]
  | sched | schedPend =>
    obtain ⟨k', hk', rfl⟩ : ∃ k', c.kernel.throughSched = some k' ∧ ⟨k', c.sys⟩ = c' := by
      simpa [hcall] using h
    exact Or.inr ⟨.sched, by simp [Kernel.Step, Kernel.step, hint, hk'], rfl, False.elim⟩

/-- **A step of the machine is a step of the kernel**, or leaves the kernel alone. A packet that
goes into `receiveQueue` is a new one. -/
theorem Step.kernel {e : MachineEvent} (h : Machine.Step S c e c') :
    (c'.kernel = c.kernel ∧ e.ticks = 0) ∨
      ∃ a : Action QueueId ℕ, Kernel.Step 0 c.kernel a c'.kernel ∧ a.ticks = e.ticks ∧
        (a.PostsTo .receiveQueue → c'.sys.log.posted ≠ c.sys.log.posted) := by
  unfold Machine.Step Machine.step at h
  by_cases hundefined : c.sys.undefined = true
  · rw [if_pos hundefined] at h
    cases h
  rw [if_neg hundefined] at h
  cases e with
  | cpu mallocOk =>
    simp only at h
    split_ifs at h with hint
    rcases calls_cpu hint h with hsame | hcalls
    · exact Or.inl ⟨hsame, rfl⟩
    · exact Or.inr hcalls
  | intEnter =>
    obtain rfl := Option.some.inj h
    exact Or.inr ⟨.intEnter, rfl, rfl, False.elim⟩
  | irq read =>
    simp only at h
    split_ifs at h with hint
    obtain rfl := Option.some.inj h
    unfold irq
    split_ifs
    · exact Or.inl ⟨rfl, rfl⟩
    · refine Or.inr ⟨.isrPost .byteQueue (read.signExtend 32).toNat, ?_, rfl, ?_⟩
      · simp [Kernel.Step, Kernel.step, hint]
      · simp [Action.PostsTo]
  | tick =>
    simp only at h
    split_ifs at h with hint
    have htick : Kernel.Step 0 c.kernel .tick c.kernel.osTimeTick := step_tick hint
    generalize c.kernel.osTimeTick = k' at htick h
    obtain rfl := Option.some.inj h
    exact Or.inr ⟨.tick, htick, rfl, False.elim⟩
  | intExit =>
    simp only at h
    split_ifs at h with hint
    obtain rfl := Option.some.inj h
    exact Or.inr ⟨.intExit, if_pos hint, rfl, False.elim⟩

end Machine

end MappingRobot
