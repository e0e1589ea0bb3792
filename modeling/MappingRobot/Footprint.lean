import MappingRobot.System

/-!
# What a step leaves alone

The state falls into four parts, one for each task: what `receiveTask` receives into and has
posted, the packets and commands of `task2`, the packets and output of `sendTask`, and the bus and
the stepper of `task1`. The heap and the LEDs are shared.

A step of a task leaves the parts of the other tasks alone, except that a post goes into the part
of the task behind the queue. What it does to the packets of the others is a matter of who owns
them. All of this is read off the fields that a task writes to at all (`receiveTaskStep_frame`
and its likes).
-/

namespace MappingRobot

variable {σ : Type}

/-- The words written to the DC driver for bytes of packets. -/
def Sys.commandWords (s : Sys σ) : List (BitVec 32) :=
  s.log.dcDriver.filterMap fun w ↦ if w.1 = .command then some w.2 else none

/-- The part of `receiveTask` is the same. -/
structure Sys.SameReceive (s t : Sys σ) : Prop where
  byteQueue : t.byteQueue = s.byteQueue
  pb : t.pb = s.pb
  posted : t.log.posted = s.log.posted

/-- The part of `task2` is the same. -/
structure Sys.SameCommand (s t : Sys σ) : Prop where
  receiveQueue : t.receiveQueue = s.receiveQueue
  commandWords : t.commandWords = s.commandWords

/-- The part of `sendTask` is the same. -/
structure Sys.SameSend (s t : Sys σ) : Prop where
  sendQueue : t.sendQueue = s.sendQueue
  packetId : t.packetId = s.packetId
  txData : t.log.txData = s.log.txData

/-- The part of `task1` is the same. -/
structure Sys.SameRange (s t : Sys σ) : Prop where
  task1 : t.task1 = s.task1
  bus : t.bus = s.bus
  stepper : t.log.stepper = s.log.stepper

variable {s t : Sys σ}

/-! ### What a task writes to -/

theorem Leds.sendCount_taken (l : Leds) (byte : Byte) :
    (l.taken byte).sendCount = l.sendCount := by
  unfold Leds.taken
  split_ifs <;> rfl

/-- All that `receiveTask` writes to. It leaves `sendCount` alone, and posts at a post only. -/
theorem receiveTaskStep_frame {mallocOk : Bool} {pc : ReceivePc}
    (h : receiveTaskStep mallocOk s pc = some t) :
    t = { s with
        heap := t.heap, byteQueue := t.byteQueue, pb := t.pb, receiveQueue := t.receiveQueue,
        leds := t.leds, log := { s.log with posted := t.log.posted } } ∧
      t.leds.sendCount = s.leds.sendCount ∧
      ((∀ p, pc ≠ .post p) →
        t.receiveQueue = s.receiveQueue ∧ t.log.posted = s.log.posted) := by
  cases pc with
  | pend =>
    obtain rfl := Option.some.inj h
    exact ⟨rfl, rfl, fun _ ↦ ⟨rfl, rfl⟩⟩
  | got byte =>
    obtain ⟨result, -, h⟩ := Option.bind_eq_some_iff.1 h
    cases result with
    | nextByte pb | endOfFrame =>
      obtain rfl := Option.some.inj h
      exact ⟨rfl, s.leds.sendCount_taken byte, fun _ ↦ ⟨rfl, rfl⟩⟩
  | mallocBuf =>
    simp only [receiveTaskStep] at h
    split_ifs at h
    obtain rfl := Option.some.inj h
    exact ⟨rfl, rfl, fun _ ↦ ⟨rfl, rfl⟩⟩
  | mallocData p =>
    simp only [receiveTaskStep] at h
    split_ifs at h
    obtain ⟨heap, -, h⟩ := Option.bind_eq_some_iff.1 h
    obtain rfl := Option.some.inj h
    exact ⟨rfl, rfl, fun _ ↦ ⟨rfl, rfl⟩⟩
  | fill p =>
    obtain ⟨result, -, h⟩ := Option.bind_eq_some_iff.1 h
    obtain ⟨heap, -, h⟩ := Option.bind_eq_some_iff.1 h
    obtain rfl := Option.some.inj h
    exact ⟨rfl, rfl, fun _ ↦ ⟨rfl, rfl⟩⟩
  | post p =>
    obtain ⟨packet, -, h⟩ := Option.bind_eq_some_iff.1 h
    obtain rfl := Option.some.inj h
    exact ⟨rfl, rfl, fun hpost ↦ absurd rfl (hpost p)⟩

/-- All that `sendTask` writes to. -/
theorem sendTaskStep_frame {pc : SendPc} (h : sendTaskStep s pc = some t) :
    t = { s with
      heap := t.heap, sendQueue := t.sendQueue, packetId := t.packetId, leds := t.leds,
      log := { s.log with txData := t.log.txData } } := by
  cases pc with
  | pend | got p | count p count =>
    obtain rfl := Option.some.inj h
    rfl
  | header p =>
    obtain ⟨packet, -, h⟩ := Option.bind_eq_some_iff.1 h
    obtain ⟨packet', -, h⟩ := Option.bind_eq_some_iff.1 h
    obtain ⟨heap, -, h⟩ := Option.bind_eq_some_iff.1 h
    obtain rfl := Option.some.inj h
    rfl
  | sending p copies out =>
    match copies, out with
    | copies, byte :: out =>
      obtain rfl := Option.some.inj h
      rfl
    | 0, [] =>
      obtain rfl := Option.some.inj h
      rfl
    | copies + 1, [] =>
      obtain ⟨packet, -, h⟩ := Option.bind_eq_some_iff.1 h
      obtain ⟨out, -, h⟩ := Option.bind_eq_some_iff.1 h
      obtain rfl := Option.some.inj h
      rfl
  | freeData p | freeBuf p =>
    obtain ⟨heap, -, h⟩ := Option.bind_eq_some_iff.1 h
    obtain rfl := Option.some.inj h
    rfl

/-- All that `task2` writes to. It leaves `sendCount` alone. -/
theorem task2Step_frame {pc : Task2Pc} (h : task2Step s pc = some t) :
    t = { s with
        heap := t.heap, receiveQueue := t.receiveQueue, motors := t.motors, leds := t.leds,
        log := { s.log with dcDriver := t.log.dcDriver } } ∧
      t.leds.sendCount = s.leds.sendCount := by
  cases pc with
  | got p =>
    obtain ⟨slice, -, h⟩ := Option.bind_eq_some_iff.1 h
    split_ifs at h
    · obtain ⟨first, -, h⟩ := Option.bind_eq_some_iff.1 h
      obtain rfl := Option.some.inj h
      exact ⟨rfl, rfl⟩
    · obtain rfl := Option.some.inj h
      exact ⟨rfl, rfl⟩
  | handle p i =>
    obtain ⟨slice, -, h⟩ := Option.bind_eq_some_iff.1 h
    split_ifs at h
    · obtain ⟨c, -, h⟩ := Option.bind_eq_some_iff.1 h
      obtain rfl := Option.some.inj h
      exact ⟨rfl, rfl⟩
    · obtain rfl := Option.some.inj h
      exact ⟨rfl, rfl⟩
  | freeData p | freeBuf p =>
    obtain ⟨heap, -, h⟩ := Option.bind_eq_some_iff.1 h
    obtain rfl := Option.some.inj h
    exact ⟨rfl, rfl⟩
  | pend | timedOut =>
    obtain rfl := Option.some.inj h
    exact ⟨rfl, rfl⟩

/-- All that `task1` writes to. It posts at a post only, and changes the sweep of the stepper at
the end of an iteration only. -/
theorem task1Step_frame {S : Slave σ} {mallocOk : Bool} {pc : Task1Pc}
    (h : task1Step S mallocOk s pc = some t) :
    t = { s with
        heap := t.heap, sendQueue := t.sendQueue, task1 := t.task1, steps := t.steps,
        direction := t.direction, bus := t.bus, leds := t.leds,
        log := { s.log with dcDriver := t.log.dcDriver, stepper := t.log.stepper } } ∧
      t.commandWords = s.commandWords ∧
      ((∀ p, pc ≠ .post p) → t.sendQueue = s.sendQueue) ∧
      (pc ≠ .rotate → t.steps = s.steps ∧ t.direction = s.direction ∧
        t.log.stepper = s.log.stepper) := by
  cases pc with
  | start =>
    obtain rfl := Option.some.inj h
    exact ⟨rfl, by simp [Sys.commandWords], fun _ ↦ rfl, fun _ ↦ ⟨rfl, rfl, rfl⟩⟩
  | poll | read =>
    obtain ⟨result, -, h⟩ := Option.bind_eq_some_iff.1 h
    obtain rfl := Option.some.inj h
    exact ⟨rfl, rfl, fun _ ↦ rfl, fun _ ↦ ⟨rfl, rfl, rfl⟩⟩
  | mallocBuf range | mallocData range p =>
    simp only [task1Step] at h
    split_ifs at h
    obtain rfl := Option.some.inj h
    exact ⟨rfl, rfl, fun _ ↦ rfl, fun _ ↦ ⟨rfl, rfl, rfl⟩⟩
  | fill range p b =>
    obtain ⟨buffData, -, h⟩ := Option.bind_eq_some_iff.1 h
    obtain ⟨heap, -, h⟩ := Option.bind_eq_some_iff.1 h
    obtain ⟨heap', -, h⟩ := Option.bind_eq_some_iff.1 h
    obtain rfl := Option.some.inj h
    exact ⟨rfl, rfl, fun _ ↦ rfl, fun _ ↦ ⟨rfl, rfl, rfl⟩⟩
  | delayed | load p | count p count =>
    obtain rfl := Option.some.inj h
    exact ⟨rfl, rfl, fun _ ↦ rfl, fun _ ↦ ⟨rfl, rfl, rfl⟩⟩
  | post p =>
    obtain rfl := Option.some.inj h
    exact ⟨rfl, rfl, fun hpost ↦ absurd rfl (hpost p), fun _ ↦ ⟨rfl, rfl, rfl⟩⟩
  | rotate =>
    obtain rfl := Option.some.inj h
    exact ⟨rfl, rfl, fun _ ↦ rfl, fun hrotate ↦ absurd rfl hrotate⟩

/-! ### The parts -/

/-- `receiveTask` leaves the parts of `sendTask` and `task1` alone, and touches that of `task2` by
a post only. -/
theorem receiveTaskStep_footprint {mallocOk : Bool} {pc : ReceivePc}
    (h : receiveTaskStep mallocOk s pc = some t) :
    s.SameSend t ∧ s.SameRange t ∧
      ((∀ p, pc ≠ .post p) → s.SameCommand t ∧ t.log.posted = s.log.posted) := by
  obtain ⟨hframe, -, hlocal⟩ := receiveTaskStep_frame h
  refine ⟨?_, ?_, fun hpost ↦ ?_⟩
  · rw [hframe]
    exact ⟨rfl, rfl, rfl⟩
  · rw [hframe]
    exact ⟨rfl, rfl, rfl⟩
  · obtain ⟨hqueue, hposted⟩ := hlocal hpost
    refine ⟨⟨hqueue, ?_⟩, hposted⟩
    rw [hframe]
    rfl

/-- `sendTask` leaves the parts of the others alone. -/
theorem sendTaskStep_footprint {pc : SendPc} (h : sendTaskStep s pc = some t) :
    s.SameReceive t ∧ s.SameCommand t ∧ s.SameRange t := by
  rw [sendTaskStep_frame h]
  exact ⟨⟨rfl, rfl, rfl⟩, ⟨rfl, rfl⟩, ⟨rfl, rfl, rfl⟩⟩

/-- `task2` leaves the parts of the others alone. -/
theorem task2Step_footprint {pc : Task2Pc} (h : task2Step s pc = some t) :
    s.SameReceive t ∧ s.SameSend t ∧ s.SameRange t := by
  rw [(task2Step_frame h).1]
  exact ⟨⟨rfl, rfl, rfl⟩, ⟨rfl, rfl, rfl⟩, ⟨rfl, rfl, rfl⟩⟩

/-- `task1` leaves the parts of `receiveTask` and `task2` alone, and touches that of `sendTask` by
a post only. -/
theorem task1Step_footprint {S : Slave σ} {mallocOk : Bool} {pc : Task1Pc}
    (h : task1Step S mallocOk s pc = some t) :
    s.SameReceive t ∧ s.SameCommand t ∧ ((∀ p, pc ≠ .post p) → s.SameSend t) := by
  obtain ⟨hframe, hwords, hlocal, -⟩ := task1Step_frame h
  refine ⟨?_, ⟨?_, hwords⟩, fun hpost ↦ ⟨hlocal hpost, ?_, ?_⟩⟩ <;> rw [hframe]
  exact ⟨rfl, rfl, rfl⟩

end MappingRobot
