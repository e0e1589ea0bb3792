import MappingRobot.Library.ClockDivider

/-!
# The system timer

`niosII_system_timer`: a counter that runs down from the period in its registers and starts again,
and a flag `timeout_occurred` that is set when it has come to 0 and cleared by a write to the status
register. A write in the clock of a timeout takes precedence, and the timeout is lost.

While it runs and nobody writes the period or the control register, the counter is a clock divider
(`Runs.clockEdge`), and all that is left to say is what becomes of the flag.
-/

namespace MappingRobot

open ClockDivider

/-- The registers of the timer. -/
structure SystemTimer where
  /-- `internal_counter` -/
  internalCounter : BitVec 32
  /-- `force_reload` -/
  forceReload : Bool
  /-- `counter_is_running` -/
  counterIsRunning : Bool
  /-- `delayed_unxcounter_is_zeroxx0` -/
  delayedCounterIsZero : Bool
  /-- `timeout_occurred` -/
  timeoutOccurred : Bool
  /-- `control_register` -/
  controlRegister : BitVec 4
  /-- `period_l_register` -/
  periodLRegister : BitVec 16
  /-- `period_h_register` -/
  periodHRegister : BitVec 16
  /-- `counter_snapshot` -/
  counterSnapshot : BitVec 32
  /-- `readdata` -/
  readdata : BitVec 16
deriving DecidableEq

/-- The bus in one clock. -/
structure TimerInput where
  /-- `address` -/
  address : BitVec 3
  /-- `chipselect` -/
  chipselect : Bool
  /-- `write_n` -/
  writeN : Bool
  /-- `writedata` -/
  writedata : BitVec 16

namespace TimerInput

/-- `status_wr_strobe` -/
def statusWrStrobe (i : TimerInput) : Bool :=
  i.chipselect && !i.writeN && i.address == 0#3

/-- `control_wr_strobe` -/
def controlWrStrobe (i : TimerInput) : Bool :=
  i.chipselect && !i.writeN && i.address == 1#3

/-- `period_l_wr_strobe` -/
def periodLWrStrobe (i : TimerInput) : Bool :=
  i.chipselect && !i.writeN && i.address == 2#3

/-- `period_h_wr_strobe` -/
def periodHWrStrobe (i : TimerInput) : Bool :=
  i.chipselect && !i.writeN && i.address == 3#3

/-- `snap_strobe` -/
def snapStrobe (i : TimerInput) : Bool :=
  i.chipselect && !i.writeN && i.address == 4#3 || i.chipselect && !i.writeN && i.address == 5#3

/-- `start_strobe` -/
def startStrobe (i : TimerInput) : Bool :=
  i.writedata.getLsbD 2 && i.controlWrStrobe

/-- `stop_strobe` -/
def stopStrobe (i : TimerInput) : Bool :=
  i.writedata.getLsbD 3 && i.controlWrStrobe

end TimerInput

namespace SystemTimer

/-- `reset_n` -/
def reset : SystemTimer where
  internalCounter := 0xC34F
  forceReload := false
  counterIsRunning := false
  delayedCounterIsZero := false
  timeoutOccurred := false
  controlRegister := 0#4
  periodLRegister := 49999#16
  periodHRegister := 0#16
  counterSnapshot := 0#32
  readdata := 0#16

/-- `counter_is_zero` -/
def counterIsZero (t : SystemTimer) : Bool :=
  t.internalCounter == 0#32

/-- `counter_load_value` -/
def counterLoadValue (t : SystemTimer) : BitVec 32 :=
  t.periodHRegister ++ t.periodLRegister

/-- `do_stop_counter`, with `control_continuous` -/
def doStopCounter (t : SystemTimer) (i : TimerInput) : Bool :=
  i.stopStrobe || t.forceReload || t.counterIsZero && !t.controlRegister.getLsbD 1

/-- `timeout_event` -/
def timeoutEvent (t : SystemTimer) : Bool :=
  t.counterIsZero && !t.delayedCounterIsZero

/-- `irq`, with `control_interrupt_enable` -/
def irq (t : SystemTimer) : Bool :=
  t.timeoutOccurred && t.controlRegister.getLsbD 0

/-- `read_mux_out` -/
def readMuxOut (t : SystemTimer) (address : BitVec 3) : BitVec 16 :=
  (if address = 2#3 then t.periodLRegister else 0#16) |||
    (if address = 3#3 then t.periodHRegister else 0#16) |||
    (if address = 4#3 then t.counterSnapshot.extractLsb' 0 16 else 0#16) |||
    (if address = 5#3 then t.counterSnapshot.extractLsb' 16 16 else 0#16) |||
    (if address = 1#3 then t.controlRegister.setWidth 16 else 0#16) |||
    (if address = 0#3 then
      (BitVec.ofBool t.counterIsRunning ++ BitVec.ofBool t.timeoutOccurred).setWidth 16
    else 0#16)

/-- One rising clock edge. -/
def clockEdge (t : SystemTimer) (i : TimerInput) : SystemTimer where
  internalCounter :=
    if t.counterIsRunning || t.forceReload then
      if t.counterIsZero || t.forceReload then t.counterLoadValue else t.internalCounter - 1#32
    else
      t.internalCounter
  forceReload := i.periodHWrStrobe || i.periodLWrStrobe
  counterIsRunning :=
    if i.startStrobe then true else if t.doStopCounter i then false else t.counterIsRunning
  delayedCounterIsZero := t.counterIsZero
  timeoutOccurred :=
    if i.statusWrStrobe then false else if t.timeoutEvent then true else t.timeoutOccurred
  controlRegister := if i.controlWrStrobe then i.writedata.setWidth 4 else t.controlRegister
  periodLRegister := if i.periodLWrStrobe then i.writedata else t.periodLRegister
  periodHRegister := if i.periodHWrStrobe then i.writedata else t.periodHRegister
  counterSnapshot := if i.snapStrobe then t.internalCounter else t.counterSnapshot
  readdata := t.readMuxOut i.address

/-! ### The running timer -/

/-- The timer has been running for `k` clocks, with the period that it is reset to. -/
structure Runs (k : ℕ) (t : SystemTimer) : Prop where
  counter : t.internalCounter = countdown 49999#32 k
  reload : t.forceReload = false
  running : t.counterIsRunning = true
  delayed : t.delayedCounterIsZero = true → t.counterIsZero = false
  control : t.controlRegister = 0x7#4
  load : t.counterLoadValue = 49999#32

/-- A clock in which neither the period nor the control register is written. -/
structure LeavesRunning (i : TimerInput) : Prop where
  control : i.controlWrStrobe = false
  periodL : i.periodLWrStrobe = false
  periodH : i.periodHWrStrobe = false

variable {k : ℕ} {t : SystemTimer} {i : TimerInput}

theorem Runs.timeoutEvent (h : t.Runs k) : t.timeoutEvent = t.counterIsZero := by
  unfold SystemTimer.timeoutEvent
  cases hdelayed : t.delayedCounterIsZero with
  | false => simp
  | true => simp [h.delayed hdelayed]

theorem Runs.irq (h : t.Runs k) : t.irq = t.timeoutOccurred := by
  simp [SystemTimer.irq, h.control]

/-- **A clock** of the running timer. -/
theorem Runs.clockEdge (h : t.Runs k) (hi : LeavesRunning i) : (t.clockEdge i).Runs (k + 1) where
  counter := by
    have hzero : t.counterIsZero = (countdown 49999#32 k == 0#32) := by
      rw [counterIsZero, h.counter]
    rw [← (countdown_succ 49999#32 k).1, ClockDivider.tick]
    simp [SystemTimer.clockEdge, h.running, h.reload, hzero, h.load, h.counter]
  reload := by simp [SystemTimer.clockEdge, hi.periodL, hi.periodH]
  running := by
    simp [SystemTimer.clockEdge, TimerInput.startStrobe, doStopCounter, TimerInput.stopStrobe,
      hi.control, h.reload, h.control, h.running]
  delayed hzero := by
    have hloaded : (t.clockEdge i).internalCounter = 49999#32 := by
      simp [SystemTimer.clockEdge, h.running, show t.counterIsZero = true from hzero, h.load]
    simp [counterIsZero, hloaded]
  control := by simp [SystemTimer.clockEdge, hi.control, h.control]
  load := by
    have hload := h.load
    simpa [SystemTimer.clockEdge, counterLoadValue, hi.periodL, hi.periodH] using hload

/-- The timeouts of a clock of the running timer. -/
theorem Runs.rounds (h : t.Runs k) :
    (k + 1) / 50000 = k / 50000 + (if t.timeoutEvent = true then 1 else 0) ∧
      (k + 1) % 50000 = if t.timeoutEvent = true then 0 else k % 50000 + 1 := by
  have hevent : t.timeoutEvent = true ↔ countdown 49999#32 k = 0#32 := by
    rw [h.timeoutEvent, counterIsZero, h.counter, beq_iff_eq]
  have hperiod : (49999#32).toNat + 1 = 50000 := rfl
  have hrounds := (countdown_succ 49999#32 k).2
  rw [hperiod] at hrounds
  simpa only [hevent] using hrounds

end SystemTimer

end MappingRobot
