import MappingRobot.Library.ByteBus
import MappingRobot.PacketBuffer

/-!
# The I2C ports and the bus behind them

`I2C.c` drives the bus through two parallel ports of the system. `I2C_SCL` is an output: its data
register reads back what was written. `I2C_SDA` is bidirectional: a direction register, a data
register, and a data read that returns the level of the line. `Port` holds these registers.

A `Slave` is anything that watches the port operations, one by one, and decides the level of
SDA while the master does not drive it. Nothing else is assumed of it, so that a run over all
slaves is a run over all acknowledgement patterns and all data. The bus keeps the start and
stop conditions seen on its lines in `issued`.
-/

namespace MappingRobot

/-- One operation on the ports, or a wait of `CLK_DELAY_TIME`. -/
inductive PortOp
  /-- `SDA_DIR_IN` and `SDA_DIR_OUT` -/
  | sdaDir (out : Bool)
  /-- `SDA_LOW` and `SDA_HIGH` -/
  | sdaData (level : Bool)
  /-- `SCL_LOW` and `SCL_HIGH` -/
  | sclData (level : Bool)
  /-- `SCL_READ` -/
  | sclRead
  /-- `SDA_READ` -/
  | sdaRead
  /-- `SCL_DELAY` -/
  | sclDelay
deriving DecidableEq

/-- The registers of the two ports. -/
structure Port where
  /-- `data_dir` of `I2C_SDA`: the master drives SDA -/
  sdaDir : Bool
  /-- `data_out` of `I2C_SDA` -/
  sdaOut : Bool
  /-- `data_out` of `I2C_SCL` -/
  sclOut : Bool
deriving DecidableEq

namespace Port

/-- The registers after reset. -/
def reset : Port :=
  ⟨false, false, false⟩

/-- What a port operation does to the registers. -/
def write (p : Port) : PortOp → Port
  | .sdaDir out => { p with sdaDir := out }
  | .sdaData level => { p with sdaOut := level }
  | .sclData level => { p with sclOut := level }
  | .sclRead | .sdaRead | .sclDelay => p

end Port

/-- A slave: it watches the port operations and drives SDA when the master does not. -/
structure Slave (σ : Type) where
  observe : σ → PortOp → σ
  /-- The level of SDA, as far as the slave is concerned: `true` when it lets the line go. -/
  sda : σ → Bool

/-- The conditions that a change of SDA makes while SCL is high. -/
inductive Condition
  | start
  | stop
deriving DecidableEq

/-- The bus: the master's registers, the slave, and the conditions issued since reset. -/
structure Bus (σ : Type) where
  port : Port
  slave : σ
  issued : List Condition

namespace Bus

variable {σ : Type} (S : Slave σ)

/-- The level of the SDA line. -/
def sda (b : Bus σ) : Bool :=
  if b.port.sdaDir then b.port.sdaOut else S.sda b.slave

/-- The condition, if any, in going from one state of the lines to another. -/
def condition (scl sda scl' sda' : Bool) : List Condition :=
  if scl && scl' then
    if sda && !sda' then [.start] else if !sda && sda' then [.stop] else []
  else
    []

/-- One port operation. -/
def apply (b : Bus σ) (op : PortOp) : Bus σ :=
  let b' : Bus σ := { b with port := b.port.write op, slave := S.observe b.slave op }
  { b' with issued :=
      b.issued ++ condition b.port.sclOut (b.sda S) b'.port.sclOut (b'.sda S) }

/-- A sequence of port operations. -/
def after (b : Bus σ) (ops : List PortOp) : Bus σ :=
  ops.foldl (apply S) b

/-- `SDA_READ`: the level of the line. -/
def sdaRead (b : Bus σ) : Bool × Bus σ :=
  (b.sda S, b.after S [.sdaRead])

/-- `while (SCL_READ(clk_base) == 0);` A poll reads the data register of the port, which only
this task writes: if it reads `0` once it does so forever, and the loop never ends. -/
def sclWait (b : Bus σ) : Option (Bus σ) :=
  if b.port.sclOut then some (b.after S [.sclRead]) else none

variable {S}

@[simp]
theorem after_nil (b : Bus σ) : b.after S [] = b :=
  rfl

theorem after_cons (b : Bus σ) (op : PortOp) (ops : List PortOp) :
    b.after S (op :: ops) = (b.apply S op).after S ops :=
  rfl

theorem after_append (b : Bus σ) (ops ops' : List PortOp) :
    b.after S (ops ++ ops') = (b.after S ops).after S ops' :=
  List.foldl_append

/-- The registers after a sequence of operations do not depend on the slave. -/
theorem after_port (b : Bus σ) (ops : List PortOp) :
    (b.after S ops).port = ops.foldl Port.write b.port := by
  induction ops generalizing b with
  | nil => rfl
  | cons op ops ih => rw [after_cons, ih]; rfl

/-- The slave after a sequence of operations does not depend on the registers. -/
theorem after_slave (b : Bus σ) (ops : List PortOp) :
    (b.after S ops).slave = ops.foldl S.observe b.slave := by
  induction ops generalizing b with
  | nil => rfl
  | cons op ops ih => rw [after_cons, ih]; rfl

theorem sclWait_of_high {b : Bus σ} (h : b.port.sclOut = true) :
    b.sclWait S = some (b.after S [.sclRead]) :=
  if_pos h

/-- The master has released the bus: it drives both lines high, and the last condition on the
bus was a stop. -/
structure Released (b : Bus σ) : Prop where
  port_eq : b.port = ⟨true, true, true⟩
  last_stop : b.issued.getLast? = some .stop

end Bus

end MappingRobot
