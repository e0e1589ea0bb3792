import Mathlib.Data.Fintype.Basic
import MappingRobot.Heap
import MappingRobot.Lidar
import MappingRobot.Motor
import MappingRobot.Os
import MappingRobot.Send

/-!
# The system

The Bluetooth interrupt and the four tasks that `main` creates, over the three queues, the heap and
the ports. A task is at a program point; a step takes it to the next one. The program points
separate whatever another task or the interrupt could come between: a call of the operating
system, an access to the heap or to a global, a byte written to the UART. Only what is private
to a task is done in one step, such as the transfers on the I2C bus.

`step s e` is `none` when `e` cannot happen in `s`: the task waits. A step whose effect C does not
define sets `undefined`, after which nothing happens. A `malloc` may fail, which the event says;
the tasks do not look at what `malloc` returns, and the next thing they do is to store through it.

What the program does to the outside is kept in `Log`: the words written to the two drivers,
the bytes written to `TXDATA`, and by value the packets that `receiveTask` has posted. Text
printed and the waits for the UART to become ready are left out.
-/

namespace MappingRobot

/-! ### The debug LEDs -/

/-- The globals shown on the debug LEDs, and the byte last written to them. -/
structure Leds where
  charInter : Byte
  charRecv : Byte
  curCommand : Byte
  currentCommand : Byte
  sendCount : Byte
  port : Byte
deriving DecidableEq

namespace Leds

/-- The globals at the start of the program. -/
def init : Leds :=
  ⟨0, 0, 0, 0, 0, 0⟩

/-- Write the LEDs. -/
def write (l : Leds) : Leds :=
  { l with port := l.charInter ||| l.charRecv ||| l.curCommand ||| l.sendCount <<< 4 }

/-- The mark of a byte: `mark` for the letter of a motion, in lower case only. -/
def markOf (mark byte : Byte) : Byte :=
  if byte ∈ [btCmdForward, btCmdBackward, btCmdLeft, btCmdRight] then mark else 0

/-- `bluetoothIRQ` has received a byte. -/
def received (l : Leds) (byte : Byte) : Leds :=
  if byte ≠ startByte ∧ byte ≠ endByte then
    { l with charInter := markOf 0x1 byte }.write
  else
    l

/-- `receiveTask` has taken a byte. -/
def taken (l : Leds) (byte : Byte) : Leds :=
  if byte ≠ startByte ∧ byte ≠ endByte then
    { l with charRecv := markOf 0x2 byte }.write
  else
    l

/-- `task2` has taken a packet that begins with a byte. -/
def command (l : Leds) (byte : Byte) : Leds :=
  { l with currentCommand := markOf 0x04 byte, curCommand := markOf 0x04 byte }.write

/-- `task2` has timed out. -/
def timedOut (l : Leds) : Leds :=
  { l with curCommand := 0 }.write

end Leds

/-! ### Program points -/

/-- Where `receiveTask` is. -/
inductive ReceivePc
  /-- At `OSQPend(byteQueue, 0, &err)`. -/
  | pend
  /-- It has a byte. -/
  | got (byte : Byte)
  /-- At the `malloc` of the `LenBuffer`. -/
  | mallocBuf
  /-- At the `malloc` of the data block. -/
  | mallocData (p : ℕ)
  /-- At `memset`, `mRead` and `pb.isStarted = 0`. -/
  | fill (p : ℕ)
  /-- At `OSQPost(receiveQueue, buf)`. -/
  | post (p : ℕ)

/-- Where `sendTask` is. -/
inductive SendPc
  /-- At `OSQPend(sendQueue, 0, &err)`. -/
  | pend
  /-- At the load of `sendCount`. -/
  | got (p : ℕ)
  /-- At the store of `sendCount`, of which it has loaded `count`. -/
  | count (p : ℕ) (count : Byte)
  /-- At `memmove` and the stores of the header. -/
  | header (p : ℕ)
  /-- Within the calls of `send`: the bytes of this one not yet written, and how many calls are
  to come after it. -/
  | sending (p : ℕ) (copies : ℕ) (out : List Byte)
  /-- At `free(buf->buf)`. -/
  | freeData (p : ℕ)
  /-- At `free(buf)`. -/
  | freeBuf (p : ℕ)

/-- Where `task2` is. -/
inductive Task2Pc
  /-- At `OSQPend(receiveQueue, BT_CMD_TIMEOUT, &err)`. -/
  | pend
  /-- It has a packet. -/
  | got (p : ℕ)
  /-- In the loop over the bytes of a packet. -/
  | handle (p : ℕ) (i : ℕ)
  /-- At `free(slice->buf)`. -/
  | freeData (p : ℕ)
  /-- At `free(slice)`. -/
  | freeBuf (p : ℕ)
  /-- `err` is `OS_ERR_TIMEOUT`. -/
  | timedOut

/-- Where `task1` is. -/
inductive Task1Pc
  /-- At `dc_driver_write(0)`. -/
  | start
  /-- At `lidar_read`. -/
  | poll
  /-- In `OSTimeDlyHMSM` of `lidar_read`. -/
  | delayed
  /-- At `read_registers` of `lidar_read`. -/
  | read
  /-- At the `malloc` of the `LenBuffer`. -/
  | mallocBuf (range : BitVec 16)
  /-- At the `malloc` of the data block. -/
  | mallocData (range : BitVec 16) (p : ℕ)
  /-- At the stores of the data, the length and the data pointer. -/
  | fill (range : BitVec 16) (p b : ℕ)
  /-- At the load of `sendCount`. -/
  | load (p : ℕ)
  /-- At the store of `sendCount`, of which it has loaded `count`. -/
  | count (p : ℕ) (count : Byte)
  /-- At `OSQPost(sendQueue, buff)`. -/
  | post (p : ℕ)
  /-- At the write to the stepper driver. -/
  | rotate

/-! ### The state -/

/-- `BYTE_QUEUE_LENGTH` -/
def byteQueueLength : ℕ := 256

/-- `RECEIVE_QUEUE_LENGTH` -/
def receiveQueueLength : ℕ := 10

/-- `SEND_QUEUE_LENGTH` -/
def sendQueueLength : ℕ := 10

/-- `totalSteps` of `task1` -/
def totalSteps : ℤ := 90

/-- Why a word was written to the DC driver. -/
inductive Cause
  /-- `task1` starts. -/
  | start
  /-- `task2` handles a byte of a packet. -/
  | command
  /-- `task2` has timed out. -/
  | timeout
deriving DecidableEq

/-- What the program has done to the outside. -/
structure Log where
  /-- The words written to the DC driver. -/
  dcDriver : List (Cause × BitVec 32)
  /-- The words written to the stepper driver. -/
  stepper : List (BitVec 32)
  /-- The bytes written to `TXDATA`. -/
  txData : List Byte
  /-- The packets that `receiveTask` has posted, whether or not there was room for them. -/
  posted : List Packet
deriving DecidableEq

/-- The state of the system, with a slave in a state of type `σ` on the I2C bus. A message in
`byteQueue` is a pointer that a byte has been cast to. -/
structure Sys (σ : Type) where
  heap : Heap
  byteQueue : PendQueue (BitVec 32) byteQueueLength ReceivePc
  /-- `pb` of `receiveTask` -/
  pb : PacketBuffer
  receiveQueue : PendQueue ℕ receiveQueueLength Task2Pc
  motors : Motors
  sendQueue : PendQueue ℕ sendQueueLength SendPc
  /-- `packetId` of `sendTask` -/
  packetId : Byte
  task1 : Task1Pc
  /-- `steps` of `task1` -/
  steps : ℤ
  /-- `direction` of `task1` -/
  direction : ℤ
  bus : Bus σ
  leds : Leds
  log : Log
  /-- Something has been done that C does not define. -/
  undefined : Bool

/-- What can happen next. -/
inductive Event
  /-- The UART interrupts with a byte. -/
  | irq (byte : Byte)
  /-- `receiveTask` goes on. -/
  | receiveTask (mallocOk : Bool)
  /-- `sendTask` goes on. -/
  | sendTask
  /-- `task2` goes on. -/
  | task2
  /-- `task1` goes on. -/
  | task1 (mallocOk : Bool)
  /-- A tick ends the wait of `task2`. -/
  | timeout
  /-- A tick ends the delay of `task1`. -/
  | wake
deriving DecidableEq

/-- The start of multitasking. -/
def Sys.init {σ : Type} (slave : σ) : Sys σ where
  heap := .empty
  byteQueue := .create byteQueueLength .pend
  pb := .init
  receiveQueue := .create receiveQueueLength .pend
  motors := ⟨0, 0⟩
  sendQueue := .create sendQueueLength .pend
  packetId := 4
  task1 := .start
  steps := totalSteps
  direction := 2
  bus := .reset slave
  leds := .init
  log := ⟨[], [], [], []⟩
  undefined := false

/-! ### The interrupt and the tasks -/

section

variable {σ : Type}

/-- Go on with the outcome of a step, if it is defined. -/
def Sys.orUndefined (s : Sys σ) (outcome : Option (Sys σ)) : Sys σ :=
  outcome.getD { s with undefined := true }

/-- `bluetoothIRQ`. The byte read is a signed `char`. -/
def bluetoothIrq (read : Byte) (s : Sys σ) : Sys σ :=
  if read.toInt = -1 then
    s
  else
    { s with
      leds := s.leds.received read
      byteQueue := (s.byteQueue.osqPost (read.signExtend 32)).2 }

/-- A step of `receiveTask` from a program point. -/
def receiveTaskStep (mallocOk : Bool) (s : Sys σ) : ReceivePc → Option (Sys σ)
  | .pend => some { s with byteQueue := s.byteQueue.osqPend fun m ↦ .got (m.setWidth 8) }
  | .got byte => do
    let s := { s with leds := s.leds.taken byte }
    match ← takeByte osErrNone byte s.pb with
    | .nextByte pb => some { s with pb, byteQueue := s.byteQueue.goto .pend }
    | .endOfFrame => some { s with byteQueue := s.byteQueue.goto .mallocBuf }
  | .mallocBuf =>
    if mallocOk then
      let (p, heap) := s.heap.mallocLenBuffer
      some { s with heap, byteQueue := s.byteQueue.goto (.mallocData p) }
    else
      none
  | .mallocData p => do
    if mallocOk then
      let (b, heap) := s.heap.mallocBlock bufSize
      let heap ← heap.setLenBuffer p ⟨b, 0⟩
      some { s with heap, byteQueue := s.byteQueue.goto (.fill p) }
    else
      none
  | .fill p => do
    let (pb, packet) ← finishPacket s.pb
    let heap ← s.heap.setPacket p packet
    some { s with heap, pb, byteQueue := s.byteQueue.goto (.post p) }
  | .post p => do
    let packet ← s.heap.packet p
    some { s with
      receiveQueue := (s.receiveQueue.osqPost p).2
      log := { s.log with posted := s.log.posted ++ [packet] }
      byteQueue := s.byteQueue.goto .pend }

/-- A step of `sendTask` from a program point. -/
def sendTaskStep (s : Sys σ) : SendPc → Option (Sys σ)
  | .pend => some { s with sendQueue := s.sendQueue.osqPend .got }
  | .got p => some { s with sendQueue := s.sendQueue.goto (.count p s.leds.sendCount) }
  | .count p count =>
    some { s with
      leds := { s.leds with sendCount := count - 1 }.write
      sendQueue := s.sendQueue.goto (.header p) }
  | .header p => do
    let packet ← s.heap.packet p
    let packet ← insertHeader s.packetId packet
    let heap ← s.heap.setPacket p packet
    some { s with
      heap
      packetId := s.packetId + 1
      sendQueue := s.sendQueue.goto (.sending p 3 []) }
  | .sending p copies (byte :: out) =>
    some { s with
      log := { s.log with txData := s.log.txData ++ [byte] }
      sendQueue := s.sendQueue.goto (.sending p copies out) }
  | .sending p (copies + 1) [] => do
    let packet ← s.heap.packet p
    let out ← send packet
    some { s with sendQueue := s.sendQueue.goto (.sending p copies out) }
  | .sending p 0 [] => some { s with sendQueue := s.sendQueue.goto (.freeData p) }
  | .freeData p => do
    let heap ← s.heap.freeData p
    some { s with heap, sendQueue := s.sendQueue.goto (.freeBuf p) }
  | .freeBuf p => do
    let heap ← s.heap.freeLenBuffer p
    some { s with heap, sendQueue := s.sendQueue.goto .pend }

/-- `handle_bluetooth_input`, called by `task2`. -/
def Sys.handleBluetoothInput (s : Sys σ) (cause : Cause) (c : Byte) : Sys σ :=
  let (motors, word) := MappingRobot.handleBluetoothInput c s.motors
  { s with
    motors
    log := { s.log with dcDriver := s.log.dcDriver ++ word.toList.map fun w ↦ (cause, w) } }

/-- A step of `task2` from a program point. -/
def task2Step (s : Sys σ) : Task2Pc → Option (Sys σ)
  | .pend => some { s with receiveQueue := s.receiveQueue.osqPend .got }
  | .got p => do
    let slice ← s.heap.packet p
    if slice.len > 0 then
      let first ← loadAt slice.buf 0
      some { s with
        leds := s.leds.command first
        receiveQueue := s.receiveQueue.goto (.handle p 0) }
    else
      some { s with receiveQueue := s.receiveQueue.goto (.handle p 0) }
  | .handle p i => do
    let slice ← s.heap.packet p
    if i < slice.len then
      let c ← loadAt slice.buf i
      let s := s.handleBluetoothInput .command c
      some { s with receiveQueue := s.receiveQueue.goto (.handle p (i + 1)) }
    else
      some { s with receiveQueue := s.receiveQueue.goto (.freeData p) }
  | .freeData p => do
    let heap ← s.heap.freeData p
    some { s with heap, receiveQueue := s.receiveQueue.goto (.freeBuf p) }
  | .freeBuf p => do
    let heap ← s.heap.freeLenBuffer p
    some { s with heap, receiveQueue := s.receiveQueue.goto .pend }
  | .timedOut =>
    let s := s.handleBluetoothInput .timeout btCmdStop
    some { s with
      leds := s.leds.timedOut
      receiveQueue := s.receiveQueue.goto .pend }

/-- The two data bytes of a range. -/
def rangeBytes (range : BitVec 16) : List Byte :=
  [(range &&& 0x00FF).setWidth 8, ((range &&& 0xFF00) >>> 8).setWidth 8]

/-- A step of `task1` from a program point. The delay between the poll and the read ends with
an event of its own. -/
def task1Step (S : Slave σ) (mallocOk : Bool) (s : Sys σ) : Task1Pc → Option (Sys σ)
  | .start =>
    some { s with
      log := { s.log with dcDriver := s.log.dcDriver ++ [(.start, 0)] }
      task1 := .poll }
  | .poll => do
    let (ok, bus) ← sendCommand S lidarCommandPoll s.bus
    some { s with bus, task1 := if ok then .delayed else .mallocBuf 0 }
  | .delayed => some s
  | .read => do
    let (range, bus) ← readRegisters S s.bus
    some { s with bus, task1 := .mallocBuf (BitVec.ofNat 16 range) }
  | .mallocBuf range =>
    if mallocOk then
      let (p, heap) := s.heap.mallocLenBuffer
      some { s with heap, task1 := .mallocData range p }
    else
      none
  | .mallocData range p =>
    if mallocOk then
      let (b, heap) := s.heap.mallocBlock 10
      some { s with heap, task1 := .fill range p b }
    else
      none
  | .fill range p b => do
    let buffData ← s.heap.blocks.load b
    let heap ← s.heap.setBlock b (rangeBytes range ++ buffData.drop 2)
    let heap ← heap.setLenBuffer p ⟨b, 2⟩
    some { s with heap, task1 := .load p }
  | .load p => some { s with task1 := .count p s.leds.sendCount }
  | .count p count =>
    some { s with leds := { s.leds with sendCount := count + 1 }, task1 := .post p }
  | .post p =>
    some { s with sendQueue := (s.sendQueue.osqPost p).2, task1 := .rotate }
  | .rotate =>
    some { s with
      log := { s.log with stepper := s.log.stepper ++ [BitVec.ofInt 32 s.direction] }
      steps := if s.steps = 0 then totalSteps else s.steps - 1
      direction := if s.steps = 0 then -s.direction else s.direction
      task1 := .poll }

/-! ### Steps of the system -/

/-- One step of the system: the interrupt, a tick, or a task that is ready and goes on. A task
that `OSQPost` or `OSTimeTick` has made ready first returns from `OSQPend`. -/
def step (S : Slave σ) (s : Sys σ) (e : Event) : Option (Sys σ) :=
  if s.undefined then none else
  match e with
  | .irq byte => some (bluetoothIrq byte s)
  | .receiveTask mallocOk =>
    match s.byteQueue.task with
    | .waiting | .expired => none
    | .posted m => some { s with byteQueue := s.byteQueue.goto (.got (m.setWidth 8)) }
    | .running pc => some (s.orUndefined (receiveTaskStep mallocOk s pc))
  | .sendTask =>
    match s.sendQueue.task with
    | .waiting | .expired => none
    | .posted p => some { s with sendQueue := s.sendQueue.goto (.got p) }
    | .running pc => some (s.orUndefined (sendTaskStep s pc))
  | .task2 =>
    match s.receiveQueue.task with
    | .waiting => none
    | .expired => some { s with receiveQueue := s.receiveQueue.goto .timedOut }
    | .posted p => some { s with receiveQueue := s.receiveQueue.goto (.got p) }
    | .running pc => some (s.orUndefined (task2Step s pc))
  | .task1 mallocOk =>
    match s.task1 with
    | .delayed => none
    | pc => some (s.orUndefined (task1Step S mallocOk s pc))
  | .timeout =>
    if s.receiveQueue.task.isBlocked then some { s with receiveQueue := s.receiveQueue.expire }
    else none
  | .wake =>
    match s.task1 with
    | .delayed => some { s with task1 := .read }
    | _ => none

/-! ### Priorities -/

/-- A task. -/
inductive Task
  | receiveTask
  | sendTask
  | task2
  | task1
deriving DecidableEq

instance : Fintype Task :=
  ⟨{.receiveTask, .sendTask, .task2, .task1}, fun t ↦ by cases t <;> simp⟩

/-- `TASK1_PRIORITY` to `TASK4_PRIORITY`: the smaller goes first. -/
def Task.priority : Task → ℕ
  | .receiveTask => 1
  | .sendTask => 2
  | .task2 => 3
  | .task1 => 4

/-- The task is ready to run. -/
def Sys.ready (s : Sys σ) : Task → Bool
  | .receiveTask => !s.byteQueue.task.isBlocked
  | .sendTask => !s.sendQueue.task.isBlocked
  | .task2 => !s.receiveQueue.task.isBlocked
  | .task1 => match s.task1 with
    | .delayed => false
    | _ => true

/-- The task whose step an event is. -/
def Event.task : Event → Option Task
  | .receiveTask _ => some .receiveTask
  | .sendTask => some .sendTask
  | .task2 => some .task2
  | .task1 _ => some .task1
  | .irq _ | .timeout | .wake => none

/-- The scheduler lets the event happen: no task that is ready goes before its task. -/
def Sys.Allows (s : Sys σ) (e : Event) : Prop :=
  ∀ t, e.task = some t → ∀ t', s.ready t' = true → t.priority ≤ t'.priority

instance (s : Sys σ) (e : Event) : Decidable (s.Allows e) :=
  inferInstanceAs (Decidable (∀ t, e.task = some t → ∀ t', s.ready t' = true → _))

/-- A step in any order of the tasks. -/
def Step (S : Slave σ) (s : Sys σ) (e : Event) (s' : Sys σ) : Prop :=
  step S s e = some s'

/-- A step in an order that the priorities allow. -/
def PrioritisedStep (S : Slave σ) (s : Sys σ) (e : Event) (s' : Sys σ) : Prop :=
  Step S s e s' ∧ s.Allows e

/-- One step, if the priorities allow it. -/
def prioritisedStep (S : Slave σ) (s : Sys σ) (e : Event) : Option (Sys σ) :=
  if s.Allows e then step S s e else none

theorem prioritisedStep_eq_some_iff {S : Slave σ} {s s' : Sys σ} {e : Event} :
    prioritisedStep S s e = some s' ↔ PrioritisedStep S s e s' := by
  unfold prioritisedStep PrioritisedStep Step
  split_ifs with h <;> simp [h]

/-! ### What an event does -/

variable {S : Slave σ} {s s' : Sys σ}

/-- A property of the state after a step, whether or not the step is defined. -/
theorem Sys.of_orUndefined {P : Sys σ → Prop} {outcome : Option (Sys σ)}
    (hnone : P { s with undefined := true }) (hsome : ∀ t, outcome = some t → P t) :
    P (s.orUndefined outcome) := by
  cases outcome with
  | none => exact hnone
  | some t => exact hsome t rfl

/-- A step is taken from a state in which nothing undefined has happened. -/
theorem Step.defined {e : Event} (h : Step S s e s') : s.undefined = false := by
  unfold Step step at h
  by_contra hne
  rw [if_pos (by simpa using hne)] at h
  cases h

theorem Step.irq {read : Byte} (h : Step S s (.irq read) s') : s' = bluetoothIrq read s := by
  have hdef := h.defined
  unfold Step step at h
  rw [if_neg (by simp [hdef])] at h
  exact (Option.some.inj h).symm

theorem Step.receiveTask {mallocOk : Bool} (h : Step S s (.receiveTask mallocOk) s') :
    (∃ m, s.byteQueue.task = .posted m ∧
        s' = { s with byteQueue := s.byteQueue.goto (.got (m.setWidth 8)) }) ∨
      (∃ pc, s.byteQueue.task = .running pc ∧
        s' = s.orUndefined (receiveTaskStep mallocOk s pc)) := by
  have hdef := h.defined
  unfold Step step at h
  rw [if_neg (by simp [hdef])] at h
  cases hpc : s.byteQueue.task with
  | waiting => simp [hpc] at h
  | expired => simp [hpc] at h
  | posted m => exact Or.inl ⟨m, rfl, by simpa [hpc, eq_comm] using h⟩
  | running pc => exact Or.inr ⟨pc, rfl, by simpa [hpc, eq_comm] using h⟩

theorem Step.sendTask (h : Step S s .sendTask s') :
    (∃ p, s.sendQueue.task = .posted p ∧
        s' = { s with sendQueue := s.sendQueue.goto (.got p) }) ∨
      (∃ pc, s.sendQueue.task = .running pc ∧ s' = s.orUndefined (sendTaskStep s pc)) := by
  have hdef := h.defined
  unfold Step step at h
  rw [if_neg (by simp [hdef])] at h
  cases hpc : s.sendQueue.task with
  | waiting => simp [hpc] at h
  | expired => simp [hpc] at h
  | posted p => exact Or.inl ⟨p, rfl, by simpa [hpc, eq_comm] using h⟩
  | running pc => exact Or.inr ⟨pc, rfl, by simpa [hpc, eq_comm] using h⟩

theorem Step.task2 (h : Step S s .task2 s') :
    (s.receiveQueue.task = .expired ∧
        s' = { s with receiveQueue := s.receiveQueue.goto .timedOut }) ∨
      (∃ p, s.receiveQueue.task = .posted p ∧
        s' = { s with receiveQueue := s.receiveQueue.goto (.got p) }) ∨
      (∃ pc, s.receiveQueue.task = .running pc ∧ s' = s.orUndefined (task2Step s pc)) := by
  have hdef := h.defined
  unfold Step step at h
  rw [if_neg (by simp [hdef])] at h
  cases hpc : s.receiveQueue.task with
  | waiting => simp [hpc] at h
  | expired => exact Or.inl ⟨rfl, by simpa [hpc, eq_comm] using h⟩
  | posted p => exact Or.inr (Or.inl ⟨p, rfl, by simpa [hpc, eq_comm] using h⟩)
  | running pc => exact Or.inr (Or.inr ⟨pc, rfl, by simpa [hpc, eq_comm] using h⟩)

theorem Step.task1 {mallocOk : Bool} (h : Step S s (.task1 mallocOk) s') :
    s.task1 ≠ .delayed ∧ s' = s.orUndefined (task1Step S mallocOk s s.task1) := by
  have hdef := h.defined
  unfold Step step at h
  rw [if_neg (by simp [hdef])] at h
  cases hpc : s.task1 <;> simp_all

theorem Step.timeout (h : Step S s .timeout s') :
    s.receiveQueue.task.isBlocked = true ∧
      s' = { s with receiveQueue := s.receiveQueue.expire } := by
  have hdef := h.defined
  unfold Step step at h
  rw [if_neg (by simp [hdef])] at h
  by_cases hblocked : s.receiveQueue.task.isBlocked = true
  · exact ⟨hblocked, by simpa [hblocked, eq_comm] using h⟩
  · simp [hblocked] at h

theorem Step.wake (h : Step S s .wake s') :
    s.task1 = .delayed ∧ s' = { s with task1 := .read } := by
  have hdef := h.defined
  unfold Step step at h
  rw [if_neg (by simp [hdef])] at h
  cases hpc : s.task1 <;> simp_all

end

end MappingRobot
