import MappingRobot.Kernel.Program
import MappingRobot.Ranging

/-!
# The program on the kernel refines the system

**Every run of the machine is a run of `System`** in the order of the priorities
(`refines_of_run`), so that what is shown of those runs holds of the program on its kernel.

`Refines` relates the two states. The memory and the ports are the same, a queue and its task are
what `Represents` reads off the kernel, and `task1` is delayed as long as its TCB has ticks to go.
Each event of the machine comes to a few events of `System`: a step of a task to the step of the
same name, a tick to the end of a wait and of a delay, and what the scheduler does to nothing. That
the order of the priorities is kept is the invariant of the kernel (`Refines.allows`).

A step in which a task calls no service looks at neither the queues nor the other tasks (`Local`),
and so is the same on both sides.
-/

namespace MappingRobot

open LabelledRun Kernel

variable {σ κ : Type} {m : Sys σ}

/-! ### Steps that call no service -/

/-- The memory and the ports of one state, with the queues and the tasks of another. -/
def Sys.over (m s : Sys σ) : Sys σ :=
  { m with
    byteQueue := s.byteQueue
    receiveQueue := s.receiveQueue
    sendQueue := s.sendQueue
    task1 := s.task1 }

/-- The step neither reads nor writes the queues and the tasks, but for where its task goes. -/
def Local (go : Sys σ → κ → Sys σ) (step : Sys σ → Option (Sys σ)) (m : Sys σ) : Prop :=
  ∃ out : Option (Sys σ × κ), ∀ s, step (m.over s) = out.map fun r ↦ r.1.over (go s r.2)

theorem receiveTaskStep_local {mallocOk : Bool} {pc : ReceivePc} (hpend : pc ≠ .pend)
    (hpost : ∀ p, pc ≠ .post p) :
    Local (fun s pc ↦ { s with byteQueue := s.byteQueue.goto pc })
      (fun s ↦ receiveTaskStep mallocOk s pc) m := by
  cases pc with
  | pend => exact absurd rfl hpend
  | got byte =>
    cases htake : takeByte osErrNone byte m.pb with
    | none => exact ⟨none, fun s ↦ by simp [receiveTaskStep, Sys.over, htake]⟩
    | some r =>
      cases r with
      | nextByte pb =>
        exact ⟨some ({ m with leds := m.leds.taken byte, pb }, .pend), fun s ↦ by
          simp [receiveTaskStep, Sys.over, htake]⟩
      | endOfFrame =>
        exact ⟨some ({ m with leds := m.leds.taken byte }, .mallocBuf), fun s ↦ by
          simp [receiveTaskStep, Sys.over, htake]⟩
  | mallocBuf =>
    cases mallocOk with
    | false => exact ⟨none, fun _ ↦ rfl⟩
    | true =>
      exact ⟨some ({ m with heap := m.heap.mallocLenBuffer.2 },
        .mallocData m.heap.mallocLenBuffer.1), fun _ ↦ rfl⟩
  | mallocData p =>
    cases mallocOk with
    | false => exact ⟨none, fun _ ↦ rfl⟩
    | true =>
      refine ⟨((m.heap.mallocBlock bufSize).2.setLenBuffer p
        ⟨(m.heap.mallocBlock bufSize).1, 0⟩).map fun heap ↦ ({ m with heap }, .fill p), fun s ↦ ?_⟩
      cases hset : (m.heap.mallocBlock bufSize).2.setLenBuffer p
        ⟨(m.heap.mallocBlock bufSize).1, 0⟩ <;> simp [receiveTaskStep, Sys.over, hset]
  | fill p =>
    cases hfinish : finishPacket m.pb with
    | none => exact ⟨none, fun s ↦ by simp [receiveTaskStep, Sys.over, hfinish]⟩
    | some r =>
      refine ⟨(m.heap.setPacket p r.2).map fun heap ↦ ({ m with heap, pb := r.1 }, .post p),
        fun s ↦ ?_⟩
      cases hset : m.heap.setPacket p r.2 <;> simp [receiveTaskStep, Sys.over, hfinish, hset]
  | post p => exact absurd rfl (hpost p)


theorem sendTaskStep_local {pc : SendPc} (hpend : pc ≠ .pend) :
    Local (fun s pc ↦ { s with sendQueue := s.sendQueue.goto pc })
      (fun s ↦ sendTaskStep s pc) m := by
  cases pc with
  | pend => exact absurd rfl hpend
  | got p => exact ⟨some (m, .count p m.leds.sendCount), fun _ ↦ rfl⟩
  | count p count =>
    exact ⟨some ({ m with leds := { m.leds with sendCount := count - 1 }.write }, .header p),
      fun _ ↦ rfl⟩
  | header p =>
    cases hpacket : m.heap.packet p with
    | none => exact ⟨none, fun s ↦ by simp [sendTaskStep, Sys.over, hpacket]⟩
    | some packet =>
      cases hheader : insertHeader m.packetId packet with
      | none => exact ⟨none, fun s ↦ by simp [sendTaskStep, Sys.over, hpacket, hheader]⟩
      | some packet' =>
        refine ⟨(m.heap.setPacket p packet').map fun heap ↦
          ({ m with heap, packetId := m.packetId + 1 }, .sending p 3 []), fun s ↦ ?_⟩
        cases hset : m.heap.setPacket p packet' <;>
          simp [sendTaskStep, Sys.over, hpacket, hheader, hset]
  | sending p copies out =>
    cases out with
    | cons byte out =>
      exact ⟨some ({ m with log := { m.log with txData := m.log.txData ++ [byte] } },
        .sending p copies out), fun _ ↦ by simp only [sendTaskStep]; rfl⟩
    | nil =>
      cases copies with
      | zero => exact ⟨some (m, .freeData p), fun _ ↦ rfl⟩
      | succ copies =>
        refine ⟨((m.heap.packet p).bind send).map fun out ↦ (m, .sending p copies out),
          fun s ↦ ?_⟩
        cases hpacket : m.heap.packet p with
        | none => simp [sendTaskStep, Sys.over, hpacket]
        | some packet => cases hsend : send packet <;> simp [sendTaskStep, Sys.over, hpacket, hsend]
  | freeData p =>
    refine ⟨(m.heap.freeData p).map fun heap ↦ ({ m with heap }, .freeBuf p), fun s ↦ ?_⟩
    cases hfree : m.heap.freeData p <;> simp [sendTaskStep, Sys.over, hfree]
  | freeBuf p =>
    refine ⟨(m.heap.freeLenBuffer p).map fun heap ↦ ({ m with heap }, .pend), fun s ↦ ?_⟩
    cases hfree : m.heap.freeLenBuffer p <;> simp [sendTaskStep, Sys.over, hfree]

theorem task2Step_local {pc : Task2Pc} (hpend : pc ≠ .pend) :
    Local (fun s pc ↦ { s with receiveQueue := s.receiveQueue.goto pc })
      (fun s ↦ task2Step s pc) m := by
  cases pc with
  | pend => exact absurd rfl hpend
  | got p =>
    cases hslice : m.heap.packet p with
    | none => exact ⟨none, fun s ↦ by simp [task2Step, Sys.over, hslice]⟩
    | some slice =>
      by_cases hlen : slice.len > 0
      · refine ⟨(loadAt slice.buf 0).map fun first ↦
          ({ m with leds := m.leds.command first }, .handle p 0), fun s ↦ ?_⟩
        cases hload : loadAt slice.buf 0 <;> simp [task2Step, Sys.over, hslice, hlen, hload]
      · exact ⟨some (m, .handle p 0), fun s ↦ by simp [task2Step, Sys.over, hslice, hlen]⟩
  | handle p i =>
    cases hslice : m.heap.packet p with
    | none => exact ⟨none, fun s ↦ by simp [task2Step, Sys.over, hslice]⟩
    | some slice =>
      by_cases hlen : i < slice.len
      · refine ⟨(loadAt slice.buf i).map fun c ↦
          (m.handleBluetoothInput .command c, .handle p (i + 1)), fun s ↦ ?_⟩
        cases hload : loadAt slice.buf i <;>
          simp [task2Step, Sys.over, Sys.handleBluetoothInput, hslice, hlen, hload]
      · exact ⟨some (m, .freeData p), fun s ↦ by simp [task2Step, Sys.over, hslice, hlen]⟩
  | freeData p =>
    refine ⟨(m.heap.freeData p).map fun heap ↦ ({ m with heap }, .freeBuf p), fun s ↦ ?_⟩
    cases hfree : m.heap.freeData p <;> simp [task2Step, Sys.over, hfree]
  | freeBuf p =>
    refine ⟨(m.heap.freeLenBuffer p).map fun heap ↦ ({ m with heap }, .pend), fun s ↦ ?_⟩
    cases hfree : m.heap.freeLenBuffer p <;> simp [task2Step, Sys.over, hfree]
  | timedOut =>
    exact ⟨some ({ m.handleBluetoothInput .timeout btCmdStop with leds := m.leds.timedOut },
      .pend), fun _ ↦ rfl⟩

theorem task1Step_local {S : Slave σ} {mallocOk : Bool} {pc : Task1Pc} (hdelayed : pc ≠ .delayed)
    (hpost : ∀ p, pc ≠ .post p) :
    Local (fun s pc ↦ { s with task1 := pc }) (fun s ↦ task1Step S mallocOk s pc) m := by
  cases pc with
  | start =>
    exact ⟨some ({ m with log := { m.log with dcDriver := m.log.dcDriver ++ [(.start, 0)] } },
      .poll), fun _ ↦ rfl⟩
  | poll =>
    refine ⟨(sendCommand S lidarCommandPoll m.bus).map fun r ↦
      ({ m with bus := r.2 }, if r.1 then .delayed else .mallocBuf 0), fun s ↦ ?_⟩
    cases hsend : sendCommand S lidarCommandPoll m.bus <;> simp [task1Step, Sys.over, hsend]
  | delayed => exact absurd rfl hdelayed
  | read =>
    refine ⟨(readRegisters S m.bus).map fun r ↦
      ({ m with bus := r.2 }, .mallocBuf (BitVec.ofNat 16 r.1)), fun s ↦ ?_⟩
    cases hread : readRegisters S m.bus <;> simp [task1Step, Sys.over, hread]
  | mallocBuf range =>
    cases mallocOk with
    | false => exact ⟨none, fun _ ↦ rfl⟩
    | true =>
      exact ⟨some ({ m with heap := m.heap.mallocLenBuffer.2 },
        .mallocData range m.heap.mallocLenBuffer.1), fun _ ↦ rfl⟩
  | mallocData range p =>
    cases mallocOk with
    | false => exact ⟨none, fun _ ↦ rfl⟩
    | true =>
      exact ⟨some ({ m with heap := (m.heap.mallocBlock 10).2 },
        .fill range p (m.heap.mallocBlock 10).1), fun _ ↦ rfl⟩
  | fill range p b =>
    refine ⟨((m.heap.blocks.load b).bind fun buffData ↦
      (m.heap.setBlock b (rangeBytes range ++ buffData.drop 2)).bind fun heap ↦
        heap.setLenBuffer p ⟨b, 2⟩).map fun heap ↦ ({ m with heap }, .load p), fun s ↦ ?_⟩
    cases hload : m.heap.blocks.load b with
    | none => simp [task1Step, Sys.over, hload]
    | some buffData =>
      cases hset : m.heap.setBlock b (rangeBytes range ++ buffData.drop 2) with
      | none => simp [task1Step, Sys.over, hload, hset]
      | some heap =>
        cases hlen : heap.setLenBuffer p ⟨b, 2⟩ <;>
          simp [task1Step, Sys.over, hload, hset, hlen]
  | load p => exact ⟨some (m, .count p m.leds.sendCount), fun _ ↦ rfl⟩
  | count p count =>
    exact ⟨some ({ m with leds := { m.leds with sendCount := count + 1 } }, .post p),
      fun _ ↦ rfl⟩
  | post p => exact absurd rfl (hpost p)
  | rotate =>
    exact ⟨some ({ m with
      log := { m.log with stepper := m.log.stepper ++ [BitVec.ofInt 32 m.direction] }
      steps := if m.steps = 0 then totalSteps else m.steps - 1
      direction := if m.steps = 0 then -m.direction else m.direction }, .poll), fun _ ↦ rfl⟩


/-! ### Who waits for what -/

theorem QueueId.prio_inj {i j : QueueId} : i.task.prio = j.task.prio ↔ i = j := by
  cases i <;> cases j <;> decide

theorem QueueId.prio_mem (i : QueueId) : i.task.prio ∈ mainConfig.osTCBList := by
  cases i <;> decide

theorem QueueId.task1_ne (i : QueueId) : Task.task1.prio ≠ i.task.prio := by
  cases i <;> decide

/-- Nothing times the wait of the task. -/
def Untimed (t : OsTcb QueueId ℕ) : Prop :=
  t.osTCBDly = 0#16 ∧ t.osTCBStatPend ≠ .pendTo

/-- The tasks pend on their own queues only, and only `task2` with a timeout; a task on a queue is
never delayed. Nothing locks the scheduler. -/
structure Assigned (k : Kernel mainConfig ℕ) : Prop where
  unlocked : k.osLockNesting = 0#8
  pends : ∀ p i, (k.call p).PendsOn i → p = i.task.prio
  untimed : ∀ i : QueueId, i ≠ .receiveQueue → Untimed (k.tcb i.task.prio)
  dly : ∀ i : QueueId, (k.call i.task.prio).queue = none →
    (k.tcb i.task.prio).osTCBDly = 0#16

namespace Assigned

variable {k k' : Kernel mainConfig ℕ} {i : QueueId}

theorem congr (h : Assigned k) (hlock : k'.osLockNesting = k.osLockNesting)
    (hcall : ∀ p, (k'.call p).queue = (k.call p).queue)
    (htcb : ∀ j : QueueId, k'.tcb j.task.prio = k.tcb j.task.prio) : Assigned k' where
  unlocked := by rw [hlock, h.unlocked]
  pends p i hi := h.pends p i ((hcall p).symm.trans hi)
  untimed i hi := by
    rw [htcb]
    exact h.untimed i hi
  dly i hnone := by
    rw [htcb]
    exact h.dly i ((hcall _).symm.trans hnone)

theorem dedicated (h : Assigned k) (i : QueueId) : Dedicated k i i.task.prio := by
  intro p' j hj
  rw [h.pends p' j hj, QueueId.prio_inj]

theorem task1_not_pendsOn (h : Assigned k) (i : QueueId) :
    ¬ (k.call Task.task1.prio).PendsOn i :=
  fun hi ↦ i.task1_ne (h.pends _ _ hi)

/-- Only the task of the queue is changed by a post. -/
theorem tcb_osQPost (h : Assigned k) (hk : Consistent k) (i : QueueId) (msg : ℕ) {p : Prio}
    (hp : p ≠ i.task.prio) : (k.osQPost i msg).2.tcb p = k.tcb p := by
  rcases hk.osQPost_cases i msg with ⟨hwait, heq⟩ | ⟨-, hroom, heq⟩ | ⟨-, -, heq⟩ <;> rw [heq]
  · rw [tcb_callSched, hk.highest_eq (h.dedicated i) hwait, tcb_give_of_ne hp]
  · rfl

theorem osQPost (h : Assigned k) (hk : Consistent k) (i : QueueId) (msg : ℕ)
    (hcall : k.osIntNesting = 0#8 → (k.call k.osPrioCur).queue = none) :
    Assigned (k.osQPost i msg).2 := by
  rcases hk.osQPost_cases i msg with ⟨hwait, heq⟩ | ⟨-, hroom, heq⟩ | ⟨-, -, heq⟩ <;> rw [heq]
  · have hpends := (hk.mem_wait.1 (highest_mem_wait hwait)).1
    have hqueue := queue_callSched (k := k.give i (k.event i).wait.highest msg) hcall
    rw [hk.highest_eq (h.dedicated i) hwait] at hpends hqueue ⊢
    have htcb : ∀ j : QueueId, j ≠ i → (k.give i i.task.prio msg).tcb j.task.prio =
        k.tcb j.task.prio := fun j hne ↦ tcb_give_of_ne fun heq ↦ hne (QueueId.prio_inj.1 heq)
    exact {
      unlocked := by
        unfold Kernel.callSched
        split_ifs
        · exact h.unlocked
        · rw [(osSched_frame _).2.2.2.2.2]
          exact h.unlocked
      pends := fun p j hj ↦ h.pends p j ((hqueue p).symm.trans hj)
      untimed := fun j hj ↦ by
        rw [tcb_callSched]
        rcases eq_or_ne j i with rfl | hne
        · simp [Untimed]
        · rw [htcb j hne]
          exact h.untimed j hj
      dly := fun j hnone ↦ by
        rw [tcb_callSched]
        rcases eq_or_ne j i with rfl | hne
        · simp
        · rw [htcb j hne]
          exact h.dly j ((hqueue _).symm.trans hnone) }
  · exact h.congr rfl (fun _ ↦ rfl) fun _ ↦ rfl
  · exact h

theorem osQPend (h : Assigned k) (hk : Consistent k) (hcur : k.osPrioCur = i.task.prio)
    (huser : k.call k.osPrioCur = .user) {timeout : BitVec 16}
    (htimeout : i ≠ .receiveQueue → timeout = 0#16) : Assigned (k.osQPend i timeout).2 := by
  rcases hk.osQPend_cases i timeout huser with ⟨err, heq⟩ | ⟨-, hcount, heq⟩ | ⟨-, -, heq⟩ <;>
    rw [heq]
  · exact h
  · exact h.congr rfl (fun _ ↦ rfl) fun _ ↦ rfl
  · have htcb : ∀ j : QueueId, j ≠ i → (k.await i timeout).tcb j.task.prio =
        k.tcb j.task.prio := fun j hne ↦ tcb_await_of_ne fun heq ↦
      hne (QueueId.prio_inj.1 (heq.trans hcur))
    exact {
      unlocked := h.unlocked
      pends := fun p j hj ↦ by
        rcases eq_or_ne p k.osPrioCur with rfl | hne
        · rw [call_await_self, Call.pendsOn_schedPend_iff] at hj
          rw [hcur, hj]
        · rw [call_await_of_ne hne] at hj
          exact h.pends p j hj
      untimed := fun j hj ↦ by
        rcases eq_or_ne j i with rfl | hne
        · rw [← hcur, tcb_await_self]
          simp [Untimed, htimeout hj]
        · rw [htcb j hne]
          exact h.untimed j hj
      dly := fun j hnone ↦ by
        rcases eq_or_ne j i with rfl | hne
        · rw [← hcur, call_await_self] at hnone
          cases hnone
        · rw [htcb j hne]
          rw [call_await_of_ne fun heq ↦ hne (QueueId.prio_inj.1 (heq.trans hcur))] at hnone
          exact h.dly j hnone }

theorem osQPendReturn (h : Assigned k) (hk : Consistent k)
    (hcall : k.call k.osPrioCur = .resume i) (hready : k.osPrioCur ∈ k.osRdy) :
    Assigned (k.osQPendReturn i 0).2.2 := by
  have hdly := (hk.mem_osRdy.1 hready).2.2
  rw [hk.osQPendReturn_eq 0 hcall hready]
  exact {
    unlocked := h.unlocked
    pends := fun p j hj ↦ by
      rcases eq_or_ne p k.osPrioCur with rfl | hne
      · simp at hj
      · rw [call_leave_of_ne hne] at hj
        exact h.pends p j hj
    untimed := fun j hj ↦ by
      rcases eq_or_ne j.task.prio k.osPrioCur with heq | hne
      · rw [heq]
        simp [leave, setWait, Untimed, hdly]
      · rw [tcb_leave_of_ne hne]
        exact h.untimed j hj
    dly := fun j hnone ↦ by
      rcases eq_or_ne j.task.prio k.osPrioCur with heq | hne
      · rw [heq]
        simp [leave, setWait, hdly]
      · rw [tcb_leave_of_ne hne]
        rw [call_leave_of_ne hne] at hnone
        exact h.dly j hnone }

/-- A task that takes no messages delays itself. -/
theorem osTimeDly (h : Assigned k) (huser : k.AtUser)
    (hcur : ∀ j : QueueId, j.task.prio ≠ k.osPrioCur) (ticks : BitVec 16) :
    Assigned (k.osTimeDly ticks) := by
  rcases eq_or_ne ticks 0#16 with rfl | hne
  · rwa [osTimeDly_of_not (Or.inr rfl)]
  · rw [osTimeDly_eq huser.1 hne]
    refine h.congr rfl (fun p ↦ ?_) fun j ↦ ?_
    · rw [queue_goto]
      · rfl
      · simp [setTcb, huser.2, Call.queue]
    · simp [setTcb, goto, hcur j]

theorem osTimeTick (h : Assigned k) (hk : Consistent k) : Assigned k.osTimeTick := by
  obtain ⟨-, hcall, -, hlock, -⟩ := osTimeTick_frame k
  have hsame : ∀ i : QueueId, (k.tcb i.task.prio).osTCBDly = 0#16 →
      k.osTimeTick.tcb i.task.prio = k.tcb i.task.prio := fun i hzero ↦ by
    rcases hk.osTimeTick_cases i.prio_mem with ⟨-, heq⟩ | ⟨hne, -⟩ | ⟨hone, -⟩
    · exact heq
    · exact absurd hzero hne
    · simp [hzero] at hone
  exact {
    unlocked := by rw [hlock, h.unlocked]
    pends := by
      rw [hcall]
      exact h.pends
    untimed := fun i hi ↦ by
      rw [hsame i (h.untimed i hi).1]
      exact h.untimed i hi
    dly := fun i hnone ↦ by
      rw [hcall] at hnone
      rw [hsame i (h.dly i hnone)]
      exact h.dly i hnone }

end Assigned

theorem assigned_osStart : Assigned (osStart mainConfig 0) where
  unlocked := rfl
  pends p i hi := by simp [osStart] at hi
  untimed i _ := by simp [osStart, OsTcb.init, Untimed]
  dly _ _ := rfl


/-! ### The queues of both -/

section

variable {β : Type} {f : ℕ → β} {k k' : Kernel mainConfig ℕ} {i : QueueId}
  {m q : PendQueue β (mainConfig.osQSize i) κ}

/-- The queue `q` has the messages in the kernel, and its task is where the kernel says or, in its
own code, where `m` says. -/
def Follows (k : Kernel mainConfig ℕ) (i : QueueId) (f : ℕ → β)
    (m q : PendQueue β (mainConfig.osQSize i) κ) : Prop :=
  ∃ pc, m.task = .running pc ∧ k.Represents i i.task.prio f pc q

/-- What a service does that is called on a queue: the other queues and `task1` are left alone. -/
structure Serves (k k' : Kernel mainConfig ℕ) (i : QueueId) : Prop where
  scheduled : Scheduled k'
  assigned : Assigned k'
  others : ∀ j : QueueId, j ≠ i → ∀ {β κ : Type} {f : ℕ → β} {pc : κ}
    {q : PendQueue β (mainConfig.osQSize j) κ}, k.Represents j j.task.prio f pc q →
      k'.Represents j j.task.prio f pc q
  task1 : k'.tcb Task.task1.prio = k.tcb Task.task1.prio

namespace Follows

theorem imp (h : Follows k i f m q) {q' : PendQueue β (mainConfig.osQSize i) κ}
    (hstep : ∀ pc, k.Represents i i.task.prio f pc q → k'.Represents i i.task.prio f pc q') :
    Follows k' i f m q' := by
  obtain ⟨pc, hpc, hq⟩ := h
  exact ⟨pc, hpc, hstep pc hq⟩

/-- The task goes to a place in its own code. -/
theorem goto (h : Follows k i f m q) (hnone : (k.call i.task.prio).queue = none) (pc : κ) :
    Follows k i f (m.goto pc) (q.goto pc) := by
  obtain ⟨_, -, hq⟩ := h
  exact ⟨pc, rfl, hq.entries, (pending_of_queue_eq_none hnone).symm⟩

/-- In its own code, the task is at the same place. -/
theorem running (h : Follows k i f m q) (hnone : (k.call i.task.prio).queue = none) :
    ∃ pc, m.task = .running pc ∧ q.task = .running pc := by
  obtain ⟨pc, hpc, hq⟩ := h
  exact ⟨pc, hpc, hq.task.trans (pending_of_queue_eq_none hnone)⟩

/-- A task that is not blocked is ready. -/
theorem mem_osRdy (h : Follows k i f m q) (hk : Consistent k) (ha : Assigned k)
    (hblocked : q.task.isBlocked = false) : i.task.prio ∈ k.osRdy := by
  obtain ⟨pc, -, hq⟩ := h
  refine hk.mem_osRdy.2 ⟨Or.inl i.prio_mem, ?_⟩
  by_cases hnone : (k.call i.task.prio).queue = none
  · exact ⟨(hk.of_not_pendsOn fun j hj ↦ by simp [Call.PendsOn, hnone] at hj).1,
      ha.dly i hnone⟩
  obtain ⟨j, hj⟩ := Option.ne_none_iff_exists'.1 hnone
  have hstat : (k.tcb i.task.prio).osTCBStat ≠ osStatQ := fun hstat ↦ by
    rw [hq.task, pending_of_pendsOn hj, if_pos hstat] at hblocked
    cases hblocked
  have hrdy := (hk.task i.task.prio).stat.resolve_right fun hwaits ↦ hstat hwaits.1
  exact ⟨hrdy, (hk.task i.task.prio).dly_eq_zero j hj hrdy⟩

/-- Only `task2` waits with a timeout. -/
theorem not_expired (h : Follows k i f m q) (ha : Assigned k) (hi : i ≠ .receiveQueue) :
    q.task ≠ .expired := by
  obtain ⟨pc, -, hq⟩ := h
  have huntimed := (ha.untimed i hi).2
  rw [hq.task]
  unfold pending
  split_ifs <;> simp

/-- A pend. -/
theorem osQPend (h : Follows k i f m q) (hk : Consistent k) (hcur : k.osPrioCur = i.task.prio)
    (huser : k.AtUser) (hlock : k.osLockNesting = 0#8) (timeout : BitVec 16) (got : β → κ) :
    (∃ msg k', k.osQPend i timeout = (.message msg, k') ∧
        Follows k' i f (m.goto (got (f msg))) (q.osqPend got)) ∨
      (∃ k', k.osQPend i timeout = (.waits, k') ∧ Follows k' i f m (q.osqPend got)) := by
  obtain ⟨pc, hpc, hq⟩ := h
  rcases hq.osQPend hk hcur huser hlock timeout got with ⟨msg, k', heq, hq'⟩ | ⟨k', heq, hq'⟩
  · exact Or.inl ⟨msg, k', heq, _, rfl, hq'⟩
  · exact Or.inr ⟨k', heq, pc, hpc, hq'⟩

/-- A return from a pend. -/
theorem osQPendReturn (h : Follows k i f m q) (hk : Consistent k)
    (hcur : k.osPrioCur = i.task.prio) (hcall : k.call k.osPrioCur = .resume i)
    (hready : k.osPrioCur ∈ k.osRdy) (pc : κ) :
    ((q.task = .expired ∧ (k.osQPendReturn i 0).2.1 = osErrTimeout) ∨
      (q.task = .posted (f (k.osQPendReturn i 0).1) ∧
        (k.osQPendReturn i 0).2.1 = osErrNone)) ∧
      Follows (k.osQPendReturn i 0).2.2 i f (m.goto pc) (q.goto pc) := by
  obtain ⟨_, -, hq⟩ := h
  have hcall' : k.call i.task.prio = .resume i := hcur ▸ hcall
  obtain ⟨hreturn, hq'⟩ := hq.osQPendReturn hk hcur hcall' (hcur ▸ hready) 0 pc
  exact ⟨hreturn, pc, rfl, hq'⟩

end Follows

end

/-! ### The services -/

namespace Serves

variable {k : Kernel mainConfig ℕ} {i : QueueId}

theorem refl (hk : Scheduled k) (ha : Assigned k) (i : QueueId) : Serves k k i :=
  ⟨hk, ha, fun _ _ _ _ _ _ _ hq ↦ hq, rfl⟩

theorem osQPost (hk : Scheduled k) (ha : Assigned k) (i : QueueId) (msg : ℕ)
    (hcall : k.osIntNesting = 0#8 → k.call k.osPrioCur = .user) :
    Serves k (k.osQPost i msg).2 i := by
  have hnone : k.osIntNesting = 0#8 → (k.call k.osPrioCur).queue = none := fun hint ↦ by
    rw [hcall hint]
    rfl
  exact {
    scheduled := hk.osQPost i msg hcall
    assigned := ha.osQPost hk.consistent i msg hnone
    others := fun j hne _ _ _ _ _ hq ↦
      hq.osQPost_of_ne hk.consistent (ha.dedicated j) hne msg hnone
    task1 := ha.tcb_osQPost hk.consistent i msg i.task1_ne }

theorem osQPend (hk : Scheduled k) (ha : Assigned k) (huser : k.AtUser)
    (hcur : k.osPrioCur = i.task.prio) {timeout : BitVec 16}
    (htimeout : i ≠ .receiveQueue → timeout = 0#16) : Serves k (k.osQPend i timeout).2 i where
  scheduled := hk.osQPend i timeout huser fun hidle ↦ by
    have := hcur.symm.trans hidle
    cases i <;> exact absurd this (by decide)
  assigned := ha.osQPend hk.consistent hcur huser.2 htimeout
  others j hne _ _ _ _ _ hq := hq.osQPend_of_ne hk.consistent
    (fun heq ↦ hne (QueueId.prio_inj.1 (heq.symm.trans hcur))) huser.2 hne timeout
  task1 := by
    rcases hk.consistent.osQPend_cases i timeout huser.2 with
      ⟨err, heq⟩ | ⟨-, hcount, heq⟩ | ⟨-, -, heq⟩ <;> rw [heq]
    · rfl
    · exact tcb_await_of_ne fun heq ↦ i.task1_ne (heq.trans hcur)

theorem osQPendReturn (hk : Scheduled k) (ha : Assigned k) (hint : k.osIntNesting = 0#8)
    (hcur : k.osPrioCur = i.task.prio) (hcall : k.call k.osPrioCur = .resume i) :
    Serves k (k.osQPendReturn i 0).2.2 i where
  scheduled := hk.osQPendReturn hint hcall
  assigned := ha.osQPendReturn hk.consistent hcall (hk.mem_osRdy_of_resume hint hcall)
  others j hne _ _ _ _ _ hq := hq.osQPendReturn_of_ne hk.consistent
    (fun heq ↦ hne (QueueId.prio_inj.1 (heq.symm.trans hcur))) hcall
    (hk.mem_osRdy_of_resume hint hcall) 0
  task1 := by
    rw [hk.consistent.osQPendReturn_eq 0 hcall (hk.mem_osRdy_of_resume hint hcall)]
    exact tcb_leave_of_ne fun heq ↦ i.task1_ne (heq.trans hcur)

end Serves


/-! ### The relation -/

/-- The events of `System` that an event of the machine comes to. -/
def MachineEvent.events : MachineEvent → List (List Event)
  | .cpu mallocOk =>
    [[], [.receiveTask mallocOk], [.sendTask], [.task2], [.task1 mallocOk]]
  | .irq read => [[.irq read]]
  | .tick => [[], [.timeout], [.wake], [.timeout, .wake]]
  | .intEnter | .intExit => [[]]

/-- The state of `System` that the machine is in. A delay of `task1` is kept in its TCB. -/
structure Refines (c : Machine σ) (s : Sys σ) : Prop where
  scheduled : Scheduled c.kernel
  assigned : Assigned c.kernel
  memory : s = c.sys.over s
  byteQueue : Follows c.kernel .byteQueue (BitVec.ofNat 32) c.sys.byteQueue s.byteQueue
  sendQueue : Follows c.kernel .sendQueue id c.sys.sendQueue s.sendQueue
  receiveQueue : Follows c.kernel .receiveQueue id c.sys.receiveQueue s.receiveQueue
  task1 : s.task1 =
    if (c.kernel.tcb Task.task1.prio).osTCBDly = 0#16 then c.sys.task1 else .delayed
  delayed : (c.kernel.tcb Task.task1.prio).osTCBDly ≠ 0#16 → c.sys.task1 = .read

/-- From `s`, the events of `System` that an event of the machine comes to lead to the state that
the machine is in after it. -/
def Matched (S : Slave σ) (s : Sys σ) (e : MachineEvent) (c' : Machine σ) : Prop :=
  ∃ fs s', fs ∈ e.events ∧ Run (PrioritisedStep S) s fs s' ∧ Refines c' s'

theorem matched_of_nil {S : Slave σ} {s : Sys σ} {e : MachineEvent} {c' : Machine σ}
    (he : [] ∈ e.events) (h : Refines c' s) : Matched S s e c' :=
  ⟨[], s, he, .nil s, h⟩

theorem matched_of_step {S : Slave σ} {s s' : Sys σ} {e : MachineEvent} {c' : Machine σ}
    {f : Event} (he : [f] ∈ e.events) (hstep : PrioritisedStep S s f s') (h : Refines c' s') :
    Matched S s e c' :=
  ⟨[f], s', he, .snoc (.nil s) hstep, h⟩

namespace Refines

variable {S : Slave σ} {c : Machine σ} {s : Sys σ} {k' : Kernel mainConfig ℕ}

theorem undefined_eq (h : Refines c s) : s.undefined = c.sys.undefined := by
  rw [h.memory]
  rfl

/-! #### Parts of the relation -/

/-- What the tasks do to the memory and the ports. -/
theorem withMemory (h : Refines c s) (m : Sys σ) : Refines ⟨c.kernel, m.over c.sys⟩ (m.over s) :=
  { h with memory := rfl }

theorem withByteQueue (h : Refines c s) (hserves : Serves c.kernel k' .byteQueue)
    {m q : PendQueue (BitVec 32) byteQueueLength ReceivePc}
    (hq : Follows k' .byteQueue (BitVec.ofNat 32) m q) :
    Refines ⟨k', { c.sys with byteQueue := m }⟩ { s with byteQueue := q } where
  scheduled := hserves.scheduled
  assigned := hserves.assigned
  memory := by rw [h.memory]; rfl
  byteQueue := hq
  sendQueue := h.sendQueue.imp fun _ ↦ hserves.others .sendQueue (by decide)
  receiveQueue := h.receiveQueue.imp fun _ ↦ hserves.others .receiveQueue (by decide)
  task1 := by
    rw [hserves.task1]
    exact h.task1
  delayed := by
    rw [hserves.task1]
    exact h.delayed

theorem withSendQueue (h : Refines c s) (hserves : Serves c.kernel k' .sendQueue)
    {m q : PendQueue ℕ sendQueueLength SendPc} (hq : Follows k' .sendQueue id m q) :
    Refines ⟨k', { c.sys with sendQueue := m }⟩ { s with sendQueue := q } where
  scheduled := hserves.scheduled
  assigned := hserves.assigned
  memory := by rw [h.memory]; rfl
  byteQueue := h.byteQueue.imp fun _ ↦ hserves.others .byteQueue (by decide)
  sendQueue := hq
  receiveQueue := h.receiveQueue.imp fun _ ↦ hserves.others .receiveQueue (by decide)
  task1 := by
    rw [hserves.task1]
    exact h.task1
  delayed := by
    rw [hserves.task1]
    exact h.delayed

theorem withReceiveQueue (h : Refines c s) (hserves : Serves c.kernel k' .receiveQueue)
    {m q : PendQueue ℕ receiveQueueLength Task2Pc} (hq : Follows k' .receiveQueue id m q) :
    Refines ⟨k', { c.sys with receiveQueue := m }⟩ { s with receiveQueue := q } where
  scheduled := hserves.scheduled
  assigned := hserves.assigned
  memory := by rw [h.memory]; rfl
  byteQueue := h.byteQueue.imp fun _ ↦ hserves.others .byteQueue (by decide)
  sendQueue := h.sendQueue.imp fun _ ↦ hserves.others .sendQueue (by decide)
  receiveQueue := hq
  task1 := by
    rw [hserves.task1]
    exact h.task1
  delayed := by
    rw [hserves.task1]
    exact h.delayed

/-- `task1` goes on, when it is not delayed. -/
theorem withTask1 (h : Refines c s) (hdly : (c.kernel.tcb Task.task1.prio).osTCBDly = 0#16)
    (pc : Task1Pc) : Refines ⟨c.kernel, { c.sys with task1 := pc }⟩ { s with task1 := pc } :=
  { h with
    memory := by rw [h.memory]; rfl
    task1 := (if_pos hdly).symm
    delayed := fun hne ↦ absurd hdly hne }

/-- A step of the kernel that changes nothing of the queues and their tasks. -/
theorem congr (h : Refines c s) (hscheduled : Scheduled k')
    (hosQ : ∀ i, (k'.event i).osQ = (c.kernel.event i).osQ)
    (hcall : ∀ p, (k'.call p).queue = (c.kernel.call p).queue)
    (htcb : ∀ p, k'.tcb p = c.kernel.tcb p)
    (hlock : k'.osLockNesting = c.kernel.osLockNesting) : Refines ⟨k', c.sys⟩ s where
  scheduled := hscheduled
  assigned := h.assigned.congr hlock hcall fun _ ↦ htcb _
  memory := h.memory
  byteQueue := h.byteQueue.imp fun _ hq ↦ hq.congr (hosQ _) (hcall _) (htcb _)
  sendQueue := h.sendQueue.imp fun _ hq ↦ hq.congr (hosQ _) (hcall _) (htcb _)
  receiveQueue := h.receiveQueue.imp fun _ hq ↦ hq.congr (hosQ _) (hcall _) (htcb _)
  task1 := by
    rw [htcb]
    exact h.task1
  delayed := by
    rw [htcb]
    exact h.delayed

/-- Something that C does not define. -/
theorem undefined (h : Refines c s) :
    Refines ⟨c.kernel, { c.sys with undefined := true }⟩ { s with undefined := true } :=
  { h with memory := by rw [h.memory]; rfl }

/-! #### The order of the priorities -/

/-- A task that `System` takes to be ready is on the ready list. -/
theorem mem_osRdy (h : Refines c s) {t : Task} (ht : s.ready t = true) :
    t.prio ∈ c.kernel.osRdy := by
  have hk := h.scheduled.consistent
  cases t with
  | receiveTask => exact h.byteQueue.mem_osRdy hk h.assigned (by simpa [Sys.ready] using ht)
  | sendTask => exact h.sendQueue.mem_osRdy hk h.assigned (by simpa [Sys.ready] using ht)
  | task2 => exact h.receiveQueue.mem_osRdy hk h.assigned (by simpa [Sys.ready] using ht)
  | task1 =>
    have hdly : (c.kernel.tcb Task.task1.prio).osTCBDly = 0#16 := by
      by_contra hne
      simp [Sys.ready, h.task1, hne] at ht
    exact hk.mem_osRdy.2 ⟨Or.inl (by decide),
      (hk.of_not_pendsOn h.assigned.task1_not_pendsOn).1, hdly⟩

/-- **The scheduler keeps to the priorities of `System`.** -/
theorem allows (h : Refines c s) (hint : c.kernel.osIntNesting = 0#8)
    (hpassed : (c.kernel.call c.kernel.osPrioCur).Passed) {t : Task} {e : Event}
    (hcur : c.kernel.osPrioCur = t.prio) (he : e.task = some t) : s.Allows e := by
  intro t₀ ht₀ t' hready
  obtain rfl : t₀ = t := Option.some.inj (ht₀.symm.trans he)
  have hle := (h.scheduled.isLeast hint h.assigned.unlocked hpassed).2 (h.mem_osRdy hready)
  rw [hcur] at hle
  exact hle

end Refines

/-! ### The events -/

namespace Refines

variable {S : Slave σ} {c c' : Machine σ} {s : Sys σ}

/-- A step of a task that calls no service. -/
theorem of_local (h : Refines c s) {go : Sys σ → κ → Sys σ} {step : Sys σ → Option (Sys σ)}
    (hlocal : Local go step c.sys) (hgo : ∀ pc, Refines ⟨c.kernel, go c.sys pc⟩ (go s pc)) :
    Refines (c.orUndefined ((step c.sys).map fun sys ↦ ⟨c.kernel, sys⟩))
      (s.orUndefined (step s)) := by
  obtain ⟨out, hout⟩ := hlocal
  have hc : step c.sys = _ := hout c.sys
  have hs : step s = _ := (congrArg step h.memory).trans (hout s)
  rw [hc, hs]
  cases out with
  | none => exact h.undefined
  | some r => exact (hgo r.2).withMemory r.1

theorem queue_eq_none {k : Kernel mainConfig ℕ} (huser : k.AtUser) {p : Prio}
    (hcur : k.osPrioCur = p) : (k.call p).queue = none := by
  rw [← hcur, huser.2]
  rfl

theorem gotoByteQueue (h : Refines c s)
    (hnone : (c.kernel.call Task.receiveTask.prio).queue = none) (pc : ReceivePc) :
    Refines ⟨c.kernel, { c.sys with byteQueue := c.sys.byteQueue.goto pc }⟩
      { s with byteQueue := s.byteQueue.goto pc } :=
  h.withByteQueue (.refl h.scheduled h.assigned _) (h.byteQueue.goto hnone pc)

theorem gotoSendQueue (h : Refines c s)
    (hnone : (c.kernel.call Task.sendTask.prio).queue = none) (pc : SendPc) :
    Refines ⟨c.kernel, { c.sys with sendQueue := c.sys.sendQueue.goto pc }⟩
      { s with sendQueue := s.sendQueue.goto pc } :=
  h.withSendQueue (.refl h.scheduled h.assigned _) (h.sendQueue.goto hnone pc)

theorem gotoReceiveQueue (h : Refines c s)
    (hnone : (c.kernel.call Task.task2.prio).queue = none) (pc : Task2Pc) :
    Refines ⟨c.kernel, { c.sys with receiveQueue := c.sys.receiveQueue.goto pc }⟩
      { s with receiveQueue := s.receiveQueue.goto pc } :=
  h.withReceiveQueue (.refl h.scheduled h.assigned _) (h.receiveQueue.goto hnone pc)

/-! #### `receiveTask` -/

theorem pendByteQueue (h : Refines c s) (huser : c.kernel.AtUser)
    (hcur : c.kernel.osPrioCur = Task.receiveTask.prio) :
    Refines (c.pend .byteQueue 0#16)
      { s with byteQueue := s.byteQueue.osqPend fun m ↦ .got (m.setWidth 8) } := by
  have hserves : Serves c.kernel (c.kernel.osQPend .byteQueue 0#16).2 .byteQueue :=
    .osQPend (i := .byteQueue) h.scheduled h.assigned huser hcur fun _ ↦ rfl
  rcases h.byteQueue.osQPend h.scheduled.consistent hcur huser h.assigned.unlocked 0#16
    (fun m ↦ .got (m.setWidth 8)) with ⟨msg, k', heq, hq⟩ | ⟨k', heq, hq⟩
  all_goals
    rw [heq] at hserves
    rw [Machine.pend, heq]
    exact h.withByteQueue hserves hq

theorem postReceiveQueue (h : Refines c s) (huser : c.kernel.AtUser)
    (hcur : c.kernel.osPrioCur = Task.receiveTask.prio) (mallocOk : Bool) (p : ℕ) :
    Refines (c.orUndefined (c.receiveTask mallocOk (.post p)))
      (s.orUndefined (receiveTaskStep mallocOk s (.post p))) := by
  have hs : receiveTaskStep mallocOk s (.post p) =
      receiveTaskStep mallocOk (c.sys.over s) (.post p) :=
    congrArg (fun s ↦ receiveTaskStep mallocOk s (.post p)) h.memory
  have hnone := queue_eq_none huser hcur
  rw [hs]
  cases hpacket : c.sys.heap.packet p with
  | none =>
    have hc : c.receiveTask mallocOk (.post p) = none := by
      simp [Machine.receiveTask, receiveTaskStep, hpacket]
    have hs : receiveTaskStep mallocOk (c.sys.over s) (.post p) = none := by
      simp [receiveTaskStep, Sys.over, hpacket]
    rw [hc, hs]
    exact h.undefined
  | some packet =>
    have hc : c.receiveTask mallocOk (.post p) = some
        ⟨(c.kernel.osQPost .receiveQueue p).2, { c.sys with
          log := { c.sys.log with posted := c.sys.log.posted ++ [packet] }
          byteQueue := c.sys.byteQueue.goto .pend }⟩ := by
      simp [Machine.receiveTask, receiveTaskStep, hpacket]
    have hs : receiveTaskStep mallocOk (c.sys.over s) (.post p) = some { c.sys.over s with
        receiveQueue := (s.receiveQueue.osqPost p).2
        log := { c.sys.log with posted := c.sys.log.posted ++ [packet] }
        byteQueue := s.byteQueue.goto .pend } := by
      simp [receiveTaskStep, Sys.over, hpacket]
    rw [hc, hs]
    have hq : Follows (c.kernel.osQPost .receiveQueue p).2 .receiveQueue id c.sys.receiveQueue
        (s.receiveQueue.osqPost p).2 :=
      h.receiveQueue.imp fun _ hq ↦ (hq.osQPost h.scheduled.consistent
        (h.assigned.dedicated _) p fun _ ↦ queue_eq_none huser rfl).2
    exact ((h.gotoByteQueue hnone .pend).withReceiveQueue
      (.osQPost h.scheduled h.assigned _ p fun _ ↦ huser.2) hq).withMemory
        { c.sys with log := { c.sys.log with posted := c.sys.log.posted ++ [packet] } }

theorem receiveTask (h : Refines c s) (hdef : c.sys.undefined = false) (huser : c.kernel.AtUser)
    (hcur : c.kernel.osPrioCur = Task.receiveTask.prio) (mallocOk : Bool) :
    Matched S s (.cpu mallocOk) (c.runTask S mallocOk) := by
  have hnone := queue_eq_none huser hcur
  obtain ⟨pc, hm, hq⟩ := h.byteQueue.running hnone
  have hrun : c.runTask S mallocOk = c.orUndefined (c.receiveTask mallocOk pc) := by
    simp [Machine.runTask, hcur, hm]
  have hstep : Step S s (.receiveTask mallocOk)
      (s.orUndefined (receiveTaskStep mallocOk s pc)) := by
    simp [Step, step, h.undefined_eq, hdef, hq]
  rw [hrun]
  refine matched_of_step (by simp [MachineEvent.events])
    ⟨hstep, h.allows huser.1 (Or.inl huser.2) hcur rfl⟩ ?_
  by_cases hpend : pc = .pend
  · subst hpend
    exact h.pendByteQueue huser hcur
  by_cases hpost : ∃ p, pc = .post p
  · obtain ⟨p, rfl⟩ := hpost
    exact h.postReceiveQueue huser hcur mallocOk p
  have hnot : ∀ p, pc ≠ .post p := fun p hp ↦ hpost ⟨p, hp⟩
  rw [Machine.receiveTask_of_ne hpend hnot]
  exact h.of_local (receiveTaskStep_local hpend hnot) (h.gotoByteQueue hnone)

/-! #### `sendTask` -/

theorem pendSendQueue (h : Refines c s) (huser : c.kernel.AtUser)
    (hcur : c.kernel.osPrioCur = Task.sendTask.prio) :
    Refines (c.pend .sendQueue 0#16)
      { s with sendQueue := s.sendQueue.osqPend .got } := by
  have hserves : Serves c.kernel (c.kernel.osQPend .sendQueue 0#16).2 .sendQueue :=
    .osQPend (i := .sendQueue) h.scheduled h.assigned huser hcur fun _ ↦ rfl
  rcases h.sendQueue.osQPend h.scheduled.consistent hcur huser h.assigned.unlocked 0#16
    SendPc.got with ⟨msg, k', heq, hq⟩ | ⟨k', heq, hq⟩
  all_goals
    rw [heq] at hserves
    rw [Machine.pend, heq]
    exact h.withSendQueue hserves hq

theorem sendTask (h : Refines c s) (hdef : c.sys.undefined = false) (huser : c.kernel.AtUser)
    (hcur : c.kernel.osPrioCur = Task.sendTask.prio) (mallocOk : Bool) :
    Matched S s (.cpu mallocOk) (c.runTask S mallocOk) := by
  have hnone := queue_eq_none huser hcur
  obtain ⟨pc, hm, hq⟩ := h.sendQueue.running hnone
  have hrun : c.runTask S mallocOk = c.orUndefined (c.sendTask pc) := by
    have hne : Task.sendTask.prio ≠ Task.receiveTask.prio := by decide
    simp [Machine.runTask, hcur, hm, hne]
  have hstep : Step S s .sendTask (s.orUndefined (sendTaskStep s pc)) := by
    simp [Step, step, h.undefined_eq, hdef, hq]
  rw [hrun]
  refine matched_of_step (by simp [MachineEvent.events])
    ⟨hstep, h.allows huser.1 (Or.inl huser.2) hcur rfl⟩ ?_
  by_cases hpend : pc = .pend
  · subst hpend
    exact h.pendSendQueue huser hcur
  · rw [Machine.sendTask_of_ne hpend]
    exact h.of_local (sendTaskStep_local hpend) (h.gotoSendQueue hnone)

/-! #### `task2` -/

theorem pendReceiveQueue (h : Refines c s) (huser : c.kernel.AtUser)
    (hcur : c.kernel.osPrioCur = Task.task2.prio) :
    Refines (c.pend .receiveQueue (BitVec.ofNat 16 btCmdTimeout))
      { s with receiveQueue := s.receiveQueue.osqPend .got } := by
  have hserves : Serves c.kernel
      (c.kernel.osQPend .receiveQueue (BitVec.ofNat 16 btCmdTimeout)).2 .receiveQueue :=
    .osQPend (i := .receiveQueue) h.scheduled h.assigned huser hcur fun hne ↦ absurd rfl hne
  rcases h.receiveQueue.osQPend h.scheduled.consistent hcur huser h.assigned.unlocked
    (BitVec.ofNat 16 btCmdTimeout) Task2Pc.got with ⟨msg, k', heq, hq⟩ | ⟨k', heq, hq⟩
  all_goals
    rw [heq] at hserves
    rw [Machine.pend, heq]
    exact h.withReceiveQueue hserves hq

theorem task2 (h : Refines c s) (hdef : c.sys.undefined = false) (huser : c.kernel.AtUser)
    (hcur : c.kernel.osPrioCur = Task.task2.prio) (mallocOk : Bool) :
    Matched S s (.cpu mallocOk) (c.runTask S mallocOk) := by
  have hnone := queue_eq_none huser hcur
  obtain ⟨pc, hm, hq⟩ := h.receiveQueue.running hnone
  have hrun : c.runTask S mallocOk = c.orUndefined (c.task2 pc) := by
    have hne : Task.task2.prio ≠ Task.receiveTask.prio := by decide
    have hne' : Task.task2.prio ≠ Task.sendTask.prio := by decide
    simp [Machine.runTask, hcur, hm, hne, hne']
  have hstep : Step S s .task2 (s.orUndefined (task2Step s pc)) := by
    simp [Step, step, h.undefined_eq, hdef, hq]
  rw [hrun]
  refine matched_of_step (by simp [MachineEvent.events])
    ⟨hstep, h.allows huser.1 (Or.inl huser.2) hcur rfl⟩ ?_
  by_cases hpend : pc = .pend
  · subst hpend
    exact h.pendReceiveQueue huser hcur
  · rw [Machine.task2_of_ne hpend]
    exact h.of_local (task2Step_local hpend) (h.gotoReceiveQueue hnone)

end Refines


namespace Refines

variable {S : Slave σ} {c : Machine σ} {s : Sys σ}

/-! #### `task1` and the statistics task -/

/-- A task that takes no messages delays itself. -/
theorem osTimeDly (h : Refines c s) (huser : c.kernel.AtUser)
    (hcur : ∀ j : QueueId, j.task.prio ≠ c.kernel.osPrioCur)
    (hidle : c.kernel.osPrioCur ≠ osTaskIdlePrio) (ticks : BitVec 16) {m : Sys σ}
    (hm : m = { c.sys with task1 := m.task1 })
    (htask1 : s.task1 = if ((c.kernel.osTimeDly ticks).tcb Task.task1.prio).osTCBDly = 0#16 then
      m.task1 else .delayed)
    (hdelayed : ((c.kernel.osTimeDly ticks).tcb Task.task1.prio).osTCBDly ≠ 0#16 →
      m.task1 = .read) : Refines ⟨c.kernel.osTimeDly ticks, m⟩ s := by
  have hqueue : ∀ j : QueueId, ∀ {β κ : Type} {f : ℕ → β} {pc : κ}
      {q : PendQueue β (mainConfig.osQSize j) κ}, c.kernel.Represents j j.task.prio f pc q →
        (c.kernel.osTimeDly ticks).Represents j j.task.prio f pc q := by
    intro j β κ f pc q hq
    rcases eq_or_ne ticks 0#16 with rfl | hne
    · rwa [osTimeDly_of_not (Or.inr rfl)]
    · rw [osTimeDly_eq huser.1 hne]
      exact hq.congr rfl (by simp [Kernel.goto, setTcb, hcur j])
        (by simp [Kernel.goto, setTcb, hcur j])
  exact {
    scheduled := h.scheduled.osTimeDly ticks huser hidle
    assigned := h.assigned.osTimeDly huser hcur ticks
    memory := by
      rw [hm, h.memory]
      rfl
    byteQueue := by
      rw [hm]
      exact h.byteQueue.imp fun _ ↦ hqueue .byteQueue
    sendQueue := by
      rw [hm]
      exact h.sendQueue.imp fun _ ↦ hqueue .sendQueue
    receiveQueue := by
      rw [hm]
      exact h.receiveQueue.imp fun _ ↦ hqueue .receiveQueue
    task1 := htask1
    delayed := hdelayed }

theorem task1_dly (h : Refines c s) (huser : c.kernel.AtUser)
    (hcur : c.kernel.osPrioCur = Task.task1.prio) :
    (c.kernel.tcb Task.task1.prio).osTCBDly = 0#16 := by
  rw [← hcur]
  exact (h.scheduled.consistent.mem_osRdy.1
    (h.scheduled.mem_osRdy huser.1 h.assigned.unlocked (Or.inl huser.2))).2.2

/-- `task1` delays itself: in `System` it has done so already. -/
theorem delayTask1 (h : Refines c s) (huser : c.kernel.AtUser)
    (hcur : c.kernel.osPrioCur = Task.task1.prio) (hpc : c.sys.task1 = .delayed) :
    Refines ⟨c.kernel.osTimeDly (BitVec.ofNat 16 readDelay), { c.sys with task1 := .read }⟩ s := by
  have hdly : ((c.kernel.osTimeDly (BitVec.ofNat 16 readDelay)).tcb Task.task1.prio).osTCBDly =
      BitVec.ofNat 16 readDelay := by
    rw [osTimeDly_eq huser.1 (by decide), ← hcur]
    simp [Kernel.goto, setTcb]
  have hne : BitVec.ofNat 16 readDelay ≠ 0#16 := by decide
  refine h.osTimeDly huser (fun j ↦ ?_) ?_ _ rfl ?_ fun _ ↦ rfl
  · rw [hcur]
    exact j.task1_ne.symm
  · rw [hcur]
    decide
  · rw [h.task1, if_pos (h.task1_dly huser hcur), hpc, hdly, if_neg hne]

theorem postSendQueue (h : Refines c s) (huser : c.kernel.AtUser)
    (hcur : c.kernel.osPrioCur = Task.task1.prio) (p : ℕ) :
    Refines ⟨(c.kernel.osQPost .sendQueue p).2, { c.sys with task1 := .rotate }⟩
      { s with sendQueue := (s.sendQueue.osqPost p).2, task1 := .rotate } := by
  have hq : Follows (c.kernel.osQPost .sendQueue p).2 .sendQueue id c.sys.sendQueue
      (s.sendQueue.osqPost p).2 :=
    h.sendQueue.imp fun _ hq ↦ (hq.osQPost h.scheduled.consistent (h.assigned.dedicated _) p
      fun _ ↦ queue_eq_none huser rfl).2
  exact (h.withTask1 (h.task1_dly huser hcur) .rotate).withSendQueue
    (.osQPost h.scheduled h.assigned _ p fun _ ↦ huser.2) hq

theorem task1Step (h : Refines c s) (hdef : c.sys.undefined = false) (huser : c.kernel.AtUser)
    (hcur : c.kernel.osPrioCur = Task.task1.prio) (mallocOk : Bool) :
    Matched S s (.cpu mallocOk) (c.runTask S mallocOk) := by
  have hdly := h.task1_dly huser hcur
  have hsame : s.task1 = c.sys.task1 := by rw [h.task1, if_pos hdly]
  have hrun : c.runTask S mallocOk = c.orUndefined (c.task1 S mallocOk c.sys.task1) := by
    have hne : Task.task1.prio ≠ Task.receiveTask.prio := by decide
    have hne' : Task.task1.prio ≠ Task.sendTask.prio := by decide
    have hne'' : Task.task1.prio ≠ Task.task2.prio := by decide
    simp [Machine.runTask, hcur, hne, hne', hne'']
  rw [hrun]
  by_cases hdelayed : c.sys.task1 = .delayed
  · rw [hdelayed]
    exact matched_of_nil (by simp [MachineEvent.events]) (h.delayTask1 huser hcur hdelayed)
  have hstep : Step S s (.task1 mallocOk)
      (s.orUndefined (MappingRobot.task1Step S mallocOk s c.sys.task1)) := by
    cases hpc : c.sys.task1 <;> simp_all [Step, step, h.undefined_eq]
  refine matched_of_step (by simp [MachineEvent.events])
    ⟨hstep, h.allows huser.1 (Or.inl huser.2) hcur rfl⟩ ?_
  by_cases hpost : ∃ p, c.sys.task1 = .post p
  · obtain ⟨p, hp⟩ := hpost
    rw [hp]
    exact h.postSendQueue huser hcur p
  have hnot : ∀ p, c.sys.task1 ≠ .post p := fun p hp ↦ hpost ⟨p, hp⟩
  rw [Machine.task1_of_ne hdelayed hnot]
  exact h.of_local (task1Step_local hdelayed hnot) (h.withTask1 hdly)

/-- The statistics task, the idle task, and any other. -/
theorem otherTask (h : Refines c s) (huser : c.kernel.AtUser)
    (hcur : ∀ t : Task, c.kernel.osPrioCur ≠ t.prio) (mallocOk : Bool) :
    Matched S s (.cpu mallocOk) (c.runTask S mallocOk) := by
  refine matched_of_nil (by simp [MachineEvent.events]) ?_
  by_cases hstat : c.kernel.osPrioCur = osTaskStatPrio
  · have hrun : c.runTask S mallocOk = ⟨c.kernel.osTimeDly statDelay, c.sys⟩ := by
      simp only [Machine.runTask, hcur, if_false]
      rw [if_pos hstat]
    have htcb : (c.kernel.osTimeDly statDelay).tcb Task.task1.prio =
        c.kernel.tcb Task.task1.prio := by
      rw [osTimeDly_eq huser.1 (by decide)]
      simp [Kernel.goto, setTcb, (hcur _).symm]
    rw [hrun]
    refine h.osTimeDly huser (fun j ↦ (hcur _).symm) ?_ _ rfl ?_ ?_
    · rw [hstat]
      decide
    · rw [htcb]
      exact h.task1
    · rw [htcb]
      exact h.delayed
  · have hrun : c.runTask S mallocOk = c := by
      simp only [Machine.runTask, hcur, hstat, if_false]
    rwa [hrun]

theorem runTask (h : Refines c s) (hdef : c.sys.undefined = false) (huser : c.kernel.AtUser)
    (mallocOk : Bool) : Matched S s (.cpu mallocOk) (c.runTask S mallocOk) := by
  by_cases hcur : ∃ t : Task, c.kernel.osPrioCur = t.prio
  · obtain ⟨t, ht⟩ := hcur
    cases t with
    | receiveTask => exact h.receiveTask hdef huser ht mallocOk
    | sendTask => exact h.sendTask hdef huser ht mallocOk
    | task2 => exact h.task2 hdef huser ht mallocOk
    | task1 => exact h.task1Step hdef huser ht mallocOk
  · exact h.otherTask huser (fun t ht ↦ hcur ⟨t, ht⟩) mallocOk

/-! #### The return from a pend -/

theorem pendReturn (h : Refines c s) (hdef : c.sys.undefined = false)
    (hint : c.kernel.osIntNesting = 0#8) {i : QueueId}
    (hcall : c.kernel.call c.kernel.osPrioCur = .resume i) (mallocOk : Bool) :
    Matched S s (.cpu mallocOk) (c.pendReturn i) := by
  have hcur : c.kernel.osPrioCur = i.task.prio :=
    h.assigned.pends _ _ (by simp [hcall])
  have hready := h.scheduled.mem_osRdy_of_resume hint hcall
  have hserves := Serves.osQPendReturn h.scheduled h.assigned hint hcur hcall
  have hallows : ∀ {e : Event}, e.task = some i.task → s.Allows e :=
    h.allows hint (Or.inr ⟨i, hcall⟩) hcur
  have hne : osErrTimeout ≠ osErrNone := by decide
  rw [Machine.pendReturn]
  cases i with
  | byteQueue =>
    have hreturn := fun pc ↦ h.byteQueue.osQPendReturn h.scheduled.consistent hcur hcall hready pc
    generalize c.kernel.osQPendReturn .byteQueue 0 = r at hserves hreturn ⊢
    obtain ⟨msg, err, k'⟩ := r
    rcases (hreturn .pend).1 with ⟨hexpired, -⟩ | ⟨hposted, herr⟩
    · exact absurd hexpired (h.byteQueue.not_expired h.assigned (by decide))
    obtain rfl : err = osErrNone := herr
    have hstep : Step S s (.receiveTask mallocOk) { s with
        byteQueue := s.byteQueue.goto (.got ((BitVec.ofNat 32 msg).setWidth 8)) } := by
      simp [Step, step, h.undefined_eq, hdef, show s.byteQueue.task = _ from hposted]
    exact matched_of_step (by simp [MachineEvent.events]) ⟨hstep, hallows rfl⟩
      (h.withByteQueue hserves (hreturn _).2)
  | sendQueue =>
    have hreturn := fun pc ↦ h.sendQueue.osQPendReturn h.scheduled.consistent hcur hcall hready pc
    generalize c.kernel.osQPendReturn .sendQueue 0 = r at hserves hreturn ⊢
    obtain ⟨msg, err, k'⟩ := r
    rcases (hreturn .pend).1 with ⟨hexpired, -⟩ | ⟨hposted, herr⟩
    · exact absurd hexpired (h.sendQueue.not_expired h.assigned (by decide))
    obtain rfl : err = osErrNone := herr
    have hstep : Step S s .sendTask { s with sendQueue := s.sendQueue.goto (.got msg) } := by
      simp [Step, step, h.undefined_eq, hdef, show s.sendQueue.task = _ from hposted]
    exact matched_of_step (by simp [MachineEvent.events]) ⟨hstep, hallows rfl⟩
      (h.withSendQueue hserves (hreturn _).2)
  | receiveQueue =>
    have hreturn := fun pc ↦
      h.receiveQueue.osQPendReturn h.scheduled.consistent hcur hcall hready pc
    generalize c.kernel.osQPendReturn .receiveQueue 0 = r at hserves hreturn ⊢
    obtain ⟨msg, err, k'⟩ := r
    rcases (hreturn .pend).1 with ⟨hexpired, herr⟩ | ⟨hposted, herr⟩
    · obtain rfl : err = osErrTimeout := herr
      have hstep : Step S s .task2 { s with receiveQueue := s.receiveQueue.goto .timedOut } := by
        simp [Step, step, h.undefined_eq, hdef, show s.receiveQueue.task = _ from hexpired]
      exact matched_of_step (by simp [MachineEvent.events]) ⟨hstep, hallows rfl⟩
        (h.withReceiveQueue hserves (hreturn _).2)
    · obtain rfl : err = osErrNone := herr
      have hstep : Step S s .task2 { s with
          receiveQueue := s.receiveQueue.goto (.got msg) } := by
        simp [Step, step, h.undefined_eq, hdef, show s.receiveQueue.task = _ from hposted]
      exact matched_of_step (by simp [MachineEvent.events]) ⟨hstep, hallows rfl⟩
        (h.withReceiveQueue hserves (hreturn _).2)

end Refines


namespace Refines

variable {S : Slave σ} {c c' : Machine σ} {s : Sys σ}

/-! #### The processor and the interrupts -/

theorem cpu (h : Refines c s) (hdef : c.sys.undefined = false)
    (hint : c.kernel.osIntNesting = 0#8) {mallocOk : Bool}
    (hstep : c.cpu S mallocOk = some c') : Matched S s (.cpu mallocOk) c' := by
  unfold Machine.cpu at hstep
  cases hcall : c.kernel.call c.kernel.osPrioCur with
  | user =>
    obtain rfl : c.runTask S mallocOk = c' := by simpa [hcall] using hstep
    exact h.runTask hdef ⟨hint, hcall⟩ mallocOk
  | resume i =>
    obtain rfl : c.pendReturn i = c' := by simpa [hcall] using hstep
    exact h.pendReturn hdef hint hcall mallocOk
  | sched | schedPend =>
    obtain ⟨k', hk', rfl⟩ : ∃ k', c.kernel.throughSched = some k' ∧ ⟨k', c.sys⟩ = c' := by
      simpa [hcall] using hstep
    obtain ⟨htcb, hevent, hqueue, hlock⟩ := throughSched_frame hk'
    refine matched_of_nil (by simp [MachineEvent.events])
      (h.congr (h.scheduled.throughSched hk') (fun i ↦ ?_) hqueue (fun p ↦ ?_) hlock)
    · rw [hevent]
    · rw [htcb]

theorem irq (h : Refines c s) (hdef : c.sys.undefined = false)
    (hint : c.kernel.osIntNesting ≠ 0#8) (read : Byte) :
    Matched S s (.irq read) (c.irq read) := by
  have hstep : PrioritisedStep S s (.irq read) (bluetoothIrq read s) :=
    ⟨by simp [Step, step, h.undefined_eq, hdef], fun t ht ↦ by cases ht⟩
  refine matched_of_step (by simp [MachineEvent.events]) hstep ?_
  unfold Machine.irq bluetoothIrq
  split_ifs with hread
  · exact h
  have hmsg : BitVec.ofNat 32 (read.signExtend 32).toNat = read.signExtend 32 := by
    rw [BitVec.ofNat_toNat, BitVec.setWidth_eq]
  have hq : Follows (c.kernel.osQPost .byteQueue (read.signExtend 32).toNat).2 .byteQueue
      (BitVec.ofNat 32) c.sys.byteQueue (s.byteQueue.osqPost (read.signExtend 32)).2 := by
    refine h.byteQueue.imp fun _ hq ↦ ?_
    have hpost := (hq.osQPost h.scheduled.consistent (h.assigned.dedicated _)
      (read.signExtend 32).toNat fun hzero ↦ absurd hzero hint).2
    rwa [hmsg] at hpost
  have hserves := Serves.osQPost h.scheduled h.assigned .byteQueue (read.signExtend 32).toNat
    fun hzero ↦ absurd hzero hint
  have hs : { s with
      leds := s.leds.received read
      byteQueue := (s.byteQueue.osqPost (read.signExtend 32)).2 } =
      { c.sys with leds := c.sys.leds.received read }.over
        { s with byteQueue := (s.byteQueue.osqPost (read.signExtend 32)).2 } :=
    congrArg (fun s' : Sys σ ↦ { s' with
      leds := s'.leds.received read
      byteQueue := (s.byteQueue.osqPost (read.signExtend 32)).2 }) h.memory
  rw [hs]
  exact (h.withByteQueue hserves hq).withMemory { c.sys with leds := c.sys.leds.received read }

/-- A tick and a task whose wait nothing times. -/
theorem osTimeTick_untimed (h : Refines c s) {i : QueueId} (hi : i ≠ .receiveQueue) {β : Type}
    {f : ℕ → β} {m q : PendQueue β (mainConfig.osQSize i) κ} (hq : Follows c.kernel i f m q) :
    Follows c.kernel.osTimeTick i f m q := by
  obtain ⟨-, hcall, -, -, hevent⟩ := osTimeTick_frame c.kernel
  have hzero := (h.assigned.untimed i hi).1
  have htcb : c.kernel.osTimeTick.tcb i.task.prio = c.kernel.tcb i.task.prio := by
    rcases h.scheduled.consistent.osTimeTick_cases i.prio_mem with
      ⟨-, heq⟩ | ⟨hne, -⟩ | ⟨hone, -⟩
    · exact heq
    · exact absurd hzero hne
    · simp [hzero] at hone
  exact hq.imp fun _ hq ↦ hq.congr (by rw [hevent]) (by rw [hcall]) htcb

/-- A tick and `task2`: its wait may end. -/
theorem osTimeTick_task2 (h : Refines c s) :
    Follows c.kernel.osTimeTick .receiveQueue id c.sys.receiveQueue s.receiveQueue ∨
      (s.receiveQueue.task.isBlocked = true ∧
        Follows c.kernel.osTimeTick .receiveQueue id c.sys.receiveQueue
          s.receiveQueue.expire) := by
  obtain ⟨pc, hpc, hq⟩ := h.receiveQueue
  rcases hq.osTimeTick h.scheduled.consistent QueueId.receiveQueue.prio_mem with
    hq' | ⟨hblocked, hq'⟩
  · exact Or.inl ⟨pc, hpc, hq'⟩
  · exact Or.inr ⟨hblocked, pc, hpc, hq'⟩

/-- A tick and `task1`: its delay may end. -/
theorem osTimeTick_task1 (h : Refines c s) : ∃ pc,
    (pc = s.task1 ∨ (s.task1 = .delayed ∧ pc = .read)) ∧
    (pc = if (c.kernel.osTimeTick.tcb Task.task1.prio).osTCBDly = 0#16 then c.sys.task1
      else .delayed) ∧
    ((c.kernel.osTimeTick.tcb Task.task1.prio).osTCBDly ≠ 0#16 → c.sys.task1 = .read) := by
  have hmem : Task.task1.prio ∈ mainConfig.osTCBList := by decide
  rcases h.scheduled.consistent.osTimeTick_cases hmem with
    ⟨-, heq⟩ | ⟨hzero, hone, heq⟩ | ⟨hone, -, heq⟩ <;> rw [heq]
  · exact ⟨_, Or.inl rfl, h.task1, h.delayed⟩
  · have hsub := sub_one_ne_zero hone
    refine ⟨.delayed, Or.inl ?_, (if_neg hsub).symm, fun _ ↦ h.delayed hzero⟩
    rw [h.task1, if_neg hzero]
  · have hzero : (c.kernel.tcb Task.task1.prio).osTCBDly ≠ 0#16 := by simp [hone]
    refine ⟨.read, Or.inr ⟨?_, rfl⟩, ?_, fun hne ↦ absurd rfl hne⟩
    · rw [h.task1, if_neg hzero]
    · rw [if_pos rfl, h.delayed hzero]

/-- A tick and the rest of the state. -/
theorem osTimeTick (h : Refines c s) (hint : c.kernel.osIntNesting ≠ 0#8)
    {q : PendQueue ℕ receiveQueueLength Task2Pc} {pc : Task1Pc}
    (hq : Follows c.kernel.osTimeTick .receiveQueue id c.sys.receiveQueue q)
    (hpc : pc = if (c.kernel.osTimeTick.tcb Task.task1.prio).osTCBDly = 0#16 then c.sys.task1
      else .delayed)
    (hdelayed : (c.kernel.osTimeTick.tcb Task.task1.prio).osTCBDly ≠ 0#16 →
      c.sys.task1 = .read) :
    Refines ⟨c.kernel.osTimeTick, c.sys⟩ { s with receiveQueue := q, task1 := pc } := by
  have hscheduled := h.scheduled.osTimeTick hint
  have hassigned := h.assigned.osTimeTick h.scheduled.consistent
  have hbyteQueue := h.osTimeTick_untimed (by decide) h.byteQueue
  have hsendQueue := h.osTimeTick_untimed (by decide) h.sendQueue
  generalize c.kernel.osTimeTick = k' at *
  exact {
    scheduled := hscheduled
    assigned := hassigned
    memory := by rw [h.memory]; rfl
    byteQueue := hbyteQueue
    sendQueue := hsendQueue
    receiveQueue := hq
    task1 := hpc
    delayed := hdelayed }

/-- **A tick** ends the wait of `task2`, or the delay of `task1`, or both, or neither. -/
theorem tick (h : Refines c s) (hdef : c.sys.undefined = false)
    (hint : c.kernel.osIntNesting ≠ 0#8) :
    Matched S s .tick { c with kernel := c.kernel.osTimeTick } := by
  have hdefined : s.undefined = false := h.undefined_eq.trans hdef
  obtain ⟨pc, hpc, htask1, hdelayed⟩ := h.osTimeTick_task1
  have hwake : ∀ q, s.task1 = .delayed → PrioritisedStep S { s with receiveQueue := q } .wake
      { s with receiveQueue := q, task1 := .read } :=
    fun q hs ↦ ⟨by simp [Step, MappingRobot.step, hdefined, hs], fun t ht ↦ by cases ht⟩
  rcases h.osTimeTick_task2 with hq | ⟨hblocked, hq⟩
  · have hafter := h.osTimeTick hint hq htask1 hdelayed
    rcases hpc with rfl | ⟨hs, rfl⟩
    · exact matched_of_nil (by simp [MachineEvent.events]) hafter
    · exact matched_of_step (by simp [MachineEvent.events]) (hwake _ hs) hafter
  · have hafter := h.osTimeTick hint hq htask1 hdelayed
    have htimeout : PrioritisedStep S s .timeout
        { s with receiveQueue := s.receiveQueue.expire } :=
      ⟨by simp [Step, MappingRobot.step, hdefined, hblocked], fun t ht ↦ by cases ht⟩
    rcases hpc with rfl | ⟨hs, rfl⟩
    · exact matched_of_step (by simp [MachineEvent.events]) htimeout hafter
    · exact ⟨[.timeout, .wake], _, by simp [MachineEvent.events],
        .snoc (.snoc (.nil s) htimeout) (hwake _ hs), hafter⟩

theorem intEnter (h : Refines c s) :
    Refines { c with kernel := c.kernel.osIntEnter } s := by
  have hframe : c.kernel.osIntEnter.event = c.kernel.event ∧
      c.kernel.osIntEnter.call = c.kernel.call ∧ c.kernel.osIntEnter.tcb = c.kernel.tcb ∧
      c.kernel.osIntEnter.osLockNesting = c.kernel.osLockNesting := by
    unfold Kernel.osIntEnter
    split_ifs <;> exact ⟨rfl, rfl, rfl, rfl⟩
  obtain ⟨hevent, hcall, htcb, hlock⟩ := hframe
  exact h.congr h.scheduled.osIntEnter (fun i ↦ by rw [hevent]) (fun p ↦ by rw [hcall])
    (fun p ↦ by rw [htcb]) hlock

theorem intExit (h : Refines c s) (hint : c.kernel.osIntNesting ≠ 0#8) :
    Refines { c with kernel := c.kernel.osIntExit } s := by
  have hscheduled := h.scheduled.osIntExit hint
  obtain ⟨-, htcb, hevent, hcall, -, hlock⟩ :=
    osSched_frame { c.kernel with osIntNesting := c.kernel.osIntNesting - 1#8 }
  rw [osIntExit_eq hint] at hscheduled ⊢
  exact h.congr hscheduled (fun i ↦ by rw [hevent]) (fun p ↦ by rw [hcall])
    (fun p ↦ by rw [htcb]) hlock

/-- **Every event of the machine comes to events of `System`.** -/
theorem step {e : MachineEvent} (h : Refines c s) (hstep : Machine.Step S c e c') :
    Matched S s e c' := by
  unfold Machine.Step Machine.step at hstep
  by_cases hundefined : c.sys.undefined = true
  · rw [if_pos hundefined] at hstep
    cases hstep
  rw [if_neg hundefined] at hstep
  have hdef : c.sys.undefined = false := by simpa using hundefined
  cases e with
  | cpu mallocOk =>
    simp only at hstep
    split_ifs at hstep with hint
    exact h.cpu hdef hint hstep
  | intEnter =>
    obtain rfl := Option.some.inj hstep
    exact matched_of_nil (by simp [MachineEvent.events]) h.intEnter
  | irq read =>
    simp only at hstep
    split_ifs at hstep with hint
    obtain rfl := Option.some.inj hstep
    exact h.irq hdef hint read
  | tick =>
    simp only at hstep
    split_ifs at hstep with hint
    obtain rfl := Option.some.inj hstep
    exact h.tick hdef hint
  | intExit =>
    simp only at hstep
    split_ifs at hstep with hint
    obtain rfl := Option.some.inj hstep
    exact matched_of_nil (by simp [MachineEvent.events]) (h.intExit hint)

end Refines

theorem refines_init (slave : σ) : Refines (.init slave) (.init slave) where
  scheduled := scheduled_osStart mainConfig 0
  assigned := assigned_osStart
  memory := rfl
  byteQueue := ⟨.pend, rfl, rfl, rfl⟩
  sendQueue := ⟨.pend, rfl, rfl, rfl⟩
  receiveQueue := ⟨.pend, rfl, rfl, rfl⟩
  task1 := rfl
  delayed hne := absurd rfl hne

/-- **The kernel keeps what `System` takes for granted.** Every run of the program on the kernel,
under any interrupts, comes event by event to a run of `System` in the order of the priorities,
which leads to the same memory and ports, the same messages in the queues, and the same places of
the tasks. -/
theorem refines_of_run {S : Slave σ} {slave : σ} {es : List MachineEvent} {c : Machine σ}
    (h : Run (Machine.Step S) (.init slave) es c) :
    ∃ fss s, List.Forall₂ (fun e fs ↦ fs ∈ e.events) es fss ∧
      Run (PrioritisedStep S) (.init slave) fss.flatten s ∧ Refines c s :=
  h.simulates (refines_init slave) fun _ _ _ _ hrel hstep ↦ hrel.step hstep

/-- A START byte that interrupts `task1`, with a tick in the same interrupt, and `receiveTask` after
it. -/
def startInterrupt : List MachineEvent :=
  List.replicate 6 (.cpu true) ++ [.intEnter, .irq startByte, .tick, .intExit] ++
    List.replicate 4 (.cpu true)

theorem refines_of_run_startInterrupt : ∃ fss s,
    List.Forall₂ (fun e fs ↦ fs ∈ e.events) startInterrupt fss ∧
      Run (PrioritisedStep Slave.absent) (.init ()) fss.flatten s ∧ s.pb.isStarted = true := by
  have heval : ((startInterrupt.foldlM (Machine.step Slave.absent) (.init ())).map fun c ↦
      c.sys.pb.isStarted) = some true := by
    decide +kernel
  obtain ⟨c, hc, hstarted⟩ := Option.map_eq_some_iff.1 heval
  obtain ⟨fss, s, hevents, hrun, hrefines⟩ := refines_of_run (run_foldlM_iff.2 hc)
  refine ⟨fss, s, hevents, hrun, ?_⟩
  rw [hrefines.memory]
  exact hstarted

/-- What has been sent in a run of `System` has been sent on the kernel. -/
theorem Refines.txData_isPrefix {S : Slave σ} {slave : σ} {c : Machine σ} {s : Sys σ}
    (h : Refines c s) (hranging : s.Ranging S slave) :
    c.sys.log.txData <+: reports S slave (c.sys.log.stepper.length + 1) := by
  have hlog : c.sys.log = s.log := by
    rw [h.memory]
    rfl
  rw [hlog]
  refine hranging.reports.txData_isPrefix.trans (reports_mono ?_)
  unfold Sys.posts
  split <;> omega

/-- **What is sent on the kernel.** Under any interrupts, the bytes written to the UART are at every
moment the beginning of the reports of the iterations of `task1`, in order. -/
theorem txData_of_machine_run {S : Slave σ} {slave : σ} {es : List MachineEvent} {c : Machine σ}
    (h : Run (Machine.Step S) (.init slave) es c) :
    c.sys.log.txData <+: reports S slave (c.sys.log.stepper.length + 1) := by
  obtain ⟨_, s, -, hrun, hrefines⟩ := h.simulates (refines_init slave)
    fun _ _ _ _ hrel hstep ↦ hrel.step hstep
  exact hrefines.txData_isPrefix (ranging_of_run hrun)

/-- The first range, with no device on the bus. -/
theorem txData_of_machine_run_absent : ∃ c,
    Run (Machine.Step Slave.absent) (.init ()) (List.replicate 80 (.cpu true)) c ∧
      24 ≤ c.sys.log.txData.length ∧
      c.sys.log.txData <+: reports Slave.absent () (c.sys.log.stepper.length + 1) := by
  have heval : (((List.replicate 80 (.cpu true)).foldlM (Machine.step Slave.absent)
      (.init ())).map fun c ↦ decide (24 ≤ c.sys.log.txData.length)) = some true := by
    decide +kernel
  obtain ⟨c, hc, hlen⟩ := Option.map_eq_some_iff.1 heval
  have hrun := run_foldlM_iff.2 hc
  exact ⟨c, hrun, of_decide_eq_true hlen, txData_of_machine_run hrun⟩

end MappingRobot
