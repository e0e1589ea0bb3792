import MappingRobot.Uart.Overrun
import MappingRobot.Uart.Transmitter

/-!
# The UART on the bus

`niosII_system_uart_bluetooth`: the transmitter, the receiver, and
`niosII_system_uart_bluetooth_regs`, through which the processor sees them. What is read of a
register is there in the clock after it was selected.

`dataavailable` and `readyfordata`, which nothing is connected to, are left out. The status bits
that the source ties to 0, `parity_error` among them, are there for the places of the others in the
word.
-/

namespace MappingRobot

/-- The UART: `tx_data` is with the transmitter. -/
structure Uart where
  tx : UartTx
  rx : UartRx
  /-- `control_reg` -/
  controlReg : BitVec 10
  /-- `irq` -/
  irq : Bool
  /-- `readdata` -/
  readdata : BitVec 16
deriving DecidableEq

/-- The bus and the line in one clock. -/
structure UartInput where
  /-- `begintransfer` -/
  begintransfer : Bool
  /-- `chipselect` -/
  chipselect : Bool
  /-- `read_n` -/
  readN : Bool
  /-- `write_n` -/
  writeN : Bool
  /-- `address` -/
  address : BitVec 3
  /-- `writedata` -/
  writedata : BitVec 16
  /-- `sync_rxd` -/
  syncRxd : Bool
deriving DecidableEq

/-- `divisor_constant`, for 115200 baud at 50 MHz. -/
def divisorConstant : BitVec 9 := 434#9

namespace UartInput

/-- `rx_rd_strobe` -/
def rxRdStrobe (i : UartInput) : Bool :=
  i.chipselect && !i.readN && i.address == 0#3

/-- `tx_wr_strobe` -/
def txWrStrobe (i : UartInput) : Bool :=
  i.chipselect && !i.writeN && i.address == 1#3

/-- `status_wr_strobe` -/
def statusWrStrobe (i : UartInput) : Bool :=
  i.chipselect && !i.writeN && i.address == 2#3

/-- `control_wr_strobe` -/
def controlWrStrobe (i : UartInput) : Bool :=
  i.chipselect && !i.writeN && i.address == 3#3

end UartInput

namespace Uart

/-- `reset_n` -/
def reset : Uart where
  tx := .reset
  rx := .reset
  controlReg := 0#10
  irq := false
  readdata := 0#16

/-- `any_error` -/
def anyError (u : Uart) : Bool :=
  u.tx.txOverrun || u.rx.rxOverrun || u.rx.framingError || u.rx.breakDetect

/-- `status_reg` -/
def statusReg (u : Uart) : BitVec 13 :=
  BitVec.ofBoolListBE [false, false, false, false, u.anyError, u.rx.rxCharReady, u.tx.txReady,
    u.tx.txShiftEmpty, u.tx.txOverrun, u.rx.rxOverrun, u.rx.breakDetect, u.rx.framingError, false]

/-- `selected_read_data` -/
def selectedReadData (u : Uart) (address : BitVec 3) : BitVec 16 :=
  (if address = 0#3 then u.rx.rxData.setWidth 16 else 0#16) |||
    (if address = 1#3 then u.tx.txData.setWidth 16 else 0#16) |||
    (if address = 2#3 then u.statusReg.setWidth 16 else 0#16) |||
    (if address = 3#3 then u.controlReg.setWidth 16 else 0#16)

/-- `qualified_irq` -/
def qualifiedIrq (u : Uart) : Bool :=
  (u.controlReg.getLsbD 8 && u.anyError) || (u.controlReg.getLsbD 5 && u.tx.txShiftEmpty) ||
    (u.controlReg.getLsbD 4 && u.tx.txOverrun) || (u.controlReg.getLsbD 3 && u.rx.rxOverrun) ||
    (u.controlReg.getLsbD 2 && u.rx.breakDetect) ||
    (u.controlReg.getLsbD 1 && u.rx.framingError) ||
    (u.controlReg.getLsbD 7 && u.rx.rxCharReady) || (u.controlReg.getLsbD 6 && u.tx.txReady)

/-- What the transmitter is asked. -/
def txInput (u : Uart) (i : UartInput) : UartTxInput where
  begintransfer := i.begintransfer
  txWrStrobe := i.txWrStrobe
  statusWrStrobe := i.statusWrStrobe
  doForceBreak := u.controlReg.getLsbD 9
  writedata := i.writedata.setWidth 8

/-- What the receiver is asked. -/
def rxInput (i : UartInput) : UartRxInput where
  begintransfer := i.begintransfer
  rxRdStrobe := i.rxRdStrobe
  statusWrStrobe := i.statusWrStrobe
  syncRxd := i.syncRxd

/-- One rising clock edge. -/
def clockEdge (u : Uart) (i : UartInput) : Uart where
  tx := u.tx.clockEdge divisorConstant (u.txInput i)
  rx := u.rx.clockEdge divisorConstant (rxInput i)
  controlReg := if i.controlWrStrobe then i.writedata.setWidth 10 else u.controlReg
  irq := u.qualifiedIrq
  readdata := u.selectedReadData i.address

/-- `ALTERA_AVALON_UART_STATUS_TRDY_MSK` -/
def trdyMsk : BitVec 16 := 0x40

/-- `ALTERA_AVALON_UART_STATUS_RRDY_MSK` -/
def rrdyMsk : BitVec 16 := 0x80

theorem and_mask_ne_zero_iff {x : BitVec 16} {j : ℕ} (hj : j < 16) :
    x &&& BitVec.twoPow 16 j ≠ 0#16 ↔ x.getLsbD j = true := by
  rw [BitVec.and_twoPow]
  split_ifs with hbit
  · simp only [hbit, iff_true]
    intro hzero
    have := congrArg (BitVec.getLsbD · j) hzero
    simp [hj] at this
  · simp [hbit]

theorem selectedReadData_status (u : Uart) :
    u.selectedReadData 2#3 = u.statusReg.setWidth 16 := by
  simp [selectedReadData]

/-- `TRDY`, as it is read. -/
theorem status_trdy (u : Uart) :
    u.selectedReadData 2#3 &&& trdyMsk ≠ 0#16 ↔ u.tx.txReady = true := by
  have hbit : u.statusReg.getLsbD 6 = u.tx.txReady := BitVec.getLsbD_ofBoolListBE.trans rfl
  rw [show trdyMsk = BitVec.twoPow 16 6 from rfl, and_mask_ne_zero_iff (by decide),
    selectedReadData_status, BitVec.getLsbD_setWidth, hbit]
  rfl

/-- `RRDY`, as it is read. -/
theorem status_rrdy (u : Uart) :
    u.selectedReadData 2#3 &&& rrdyMsk ≠ 0#16 ↔ u.rx.rxCharReady = true := by
  have hbit : u.statusReg.getLsbD 7 = u.rx.rxCharReady := BitVec.getLsbD_ofBoolListBE.trans rfl
  rw [show rrdyMsk = BitVec.twoPow 16 7 from rfl, and_mask_ne_zero_iff (by decide),
    selectedReadData_status, BitVec.getLsbD_setWidth, hbit]
  rfl

end Uart

end MappingRobot
