import MappingRobot.I2C.Master
import MappingRobot.Library.TwoWire

/-!
# The wires of the bus

What is on the two lines while the master carries its port operations out. SDA is driven by the
master or by the slave. SCL is driven by the master, and a slave may hold it low for some time
after it has been released (`Stretcher`); a slave of `Bus` is one that never does (`Slave.prompt`).

The operations that the master has carried out are recorded by a slave that watches them
(`Slave.recorded`). Each call of a function of `I2C.c` carries out operations of its own
(`portOps`), whatever the slave does, and `exchange_recorded` says that what a register
transfer leaves in the record are those of the calls it has made.
-/

namespace MappingRobot

variable {σ : Type}

/-! ### Slaves that hold SCL low -/

/-- A slave that may hold SCL low. -/
structure Stretcher (σ : Type) extends Slave σ where
  /-- For how many polls SCL is held low after it has been released: in the state right after. -/
  hold : σ → ℕ

/-- A slave that never holds SCL low. -/
def Slave.prompt (S : Slave σ) : Stretcher σ :=
  { S with hold := fun _ ↦ 0 }

/-- The registers of the ports, and what is behind them. -/
structure Wires (σ : Type) where
  port : Port
  slave : σ
  /-- For how many more polls SCL is held low. -/
  left : ℕ

namespace Wires

variable (S : Stretcher σ)

/-- One port operation. -/
def apply (w : Wires σ) (op : PortOp) : Wires σ where
  port := w.port.write op
  slave := S.observe w.slave op
  left := match op with
    | .sclData true => if w.port.sclOut then w.left else S.hold (S.observe w.slave op)
    | .sclData false => 0
    | .sclRead => w.left - 1
    | .sdaDir _ | .sdaData _ | .sdaRead | .sclDelay => w.left

/-- A sequence of port operations. -/
def after (w : Wires σ) (ops : List PortOp) : Wires σ :=
  ops.foldl (apply S) w

/-- The level of SCL. -/
def scl (w : Wires σ) : Bool :=
  w.port.sclOut && w.left == 0

/-- The level of SDA. -/
def sda (w : Wires σ) : Bool :=
  if w.port.sdaDir then w.port.sdaOut else S.sda w.slave

/-- What a listener sees during a sequence of port operations. -/
def listen (w : Wires σ) (m : Sampler) : List PortOp → Sampler
  | [] => m
  | op :: ops =>
    let w' := w.apply S op
    listen w' (m.next w.scl (w.sda S) w'.scl (w'.sda S)) ops

/-- Every operation of a sequence satisfies `P`, a relation between the wires before and after. -/
def Along (P : Wires σ → PortOp → Wires σ → Prop) (w : Wires σ) : List PortOp → Prop
  | [] => True
  | op :: ops => P w op (w.apply S op) ∧ Along P (w.apply S op) ops

/-- The slave changes SDA only while SCL is low, whatever the master does. -/
def Steady (w : Wires σ) : Prop :=
  ∀ pre op, (w.after S (pre ++ [op])).scl = true →
    S.sda (w.after S (pre ++ [op])).slave = S.sda (w.after S pre).slave

variable {S} {w : Wires σ} {P : Wires σ → PortOp → Wires σ → Prop} {ops ops' : List PortOp}
  {m : Sampler}

/-! ### Sequences of operations -/

@[simp]
theorem after_nil (w : Wires σ) : w.after S [] = w :=
  rfl

theorem after_cons (w : Wires σ) (op : PortOp) (ops : List PortOp) :
    w.after S (op :: ops) = (w.apply S op).after S ops :=
  rfl

theorem after_append (w : Wires σ) (ops ops' : List PortOp) :
    w.after S (ops ++ ops') = (w.after S ops).after S ops' :=
  List.foldl_append

theorem after_port (w : Wires σ) (ops : List PortOp) :
    (w.after S ops).port = ops.foldl Port.write w.port := by
  induction ops generalizing w with
  | nil => rfl
  | cons op ops ih =>
    rw [after_cons, ih]
    rfl

theorem after_slave (w : Wires σ) (ops : List PortOp) :
    (w.after S ops).slave = S.watch w.slave ops := by
  induction ops generalizing w with
  | nil => rfl
  | cons op ops ih =>
    rw [after_cons, ih]
    rfl

/-- A line that is not held is as the master drives it. -/
theorem scl_of_left (h : w.left = 0) : w.scl = w.port.sclOut := by
  rw [scl, h]
  exact Bool.and_true _

theorem listen_append (w : Wires σ) (m : Sampler) (ops ops' : List PortOp) :
    w.listen S m (ops ++ ops') = (w.after S ops).listen S (w.listen S m ops) ops' := by
  induction ops generalizing w m with
  | nil => rfl
  | cons op ops ih => exact ih _ _

theorem along_append :
    w.Along S P (ops ++ ops') ↔ w.Along S P ops ∧ (w.after S ops).Along S P ops' := by
  induction ops generalizing w with
  | nil => exact ⟨fun h ↦ ⟨trivial, h⟩, And.right⟩
  | cons op ops ih => exact (and_congr_right fun _ ↦ ih).trans and_assoc.symm

/-! ### Steady slaves -/

theorem Steady.after (h : w.Steady S) (ops : List PortOp) : (w.after S ops).Steady S := by
  intro pre op
  rw [← after_append, ← after_append, ← List.append_assoc]
  exact h (ops ++ pre) op

theorem Steady.apply (h : w.Steady S) (op : PortOp) : (w.apply S op).Steady S :=
  h.after [op]

/-- A steady slave leaves SDA alone in an operation after which SCL is high. -/
theorem Steady.sda_eq (h : w.Steady S) {op : PortOp} (hscl : (w.apply S op).scl = true) :
    S.sda (w.apply S op).slave = S.sda w.slave :=
  h [] op hscl

end Wires

/-! ### The operations of a call -/

/-- The operations of `i2c_start`. -/
def startOps : List PortOp :=
  [.sdaDir true, .sdaData true, .sclData true, .sclDelay, .sdaData false, .sclDelay,
    .sclData false, .sclDelay]

/-- The operations of `i2c_stop`. -/
def stopOps : List PortOp :=
  [.sdaDir true, .sdaData false, .sclData true, .sclDelay, .sdaData true, .sclDelay]

/-- The operations of the first `n` rounds of the loop of `i2c_read`. -/
def pulseOps : ℕ → List PortOp
  | 0 => []
  | n + 1 => [.sclData true, .sclRead, .sclDelay, .sdaRead, .sclData false, .sclDelay] ++ pulseOps n

/-- The operations of `i2c_read`. -/
def readOps (bAck : Bool) : List PortOp :=
  [.sdaDir false, .sclData false, .sclDelay] ++ pulseOps 8 ++
    [.sclData false, .sdaDir true, .sdaData (!bAck), .sclData true, .sclRead, .sclDelay,
      .sclData false, .sclDelay, .sdaData false, .sclDelay]

/-- The operations of the call that makes an action. -/
def portOps : BusAction → List PortOp
  | .start => startOps
  | .stop => stopOps
  | .write byte => Slave.writeOps byte ++ [.sdaRead, .sclData false, .sclDelay]
  | .read bAck => readOps bAck

namespace Slave

variable (S : Slave σ)

theorem watch_append (s : σ) (ops ops' : List PortOp) :
    S.watch s (ops ++ ops') = S.watch (S.watch s ops) ops' :=
  List.foldl_append

theorem shiftOut_slave (n : ℕ) (data : Byte) (s : σ) :
    (S.shiftOut n data s).2 = S.watch s (pulseOps n) := by
  induction n generalizing data s with
  | zero => rfl
  | succ n ih =>
    rw [shiftOut, ih, pulseOps, watch_append]
    rfl

/-- The slave watches the operations of a byte write. -/
theorem bytewise_write_slave (s : σ) (byte : Byte) :
    (S.bytewise.write s byte).2 = S.watch s (portOps (.write byte)) :=
  (S.watch_append s (writeOps byte) _).symm

/-- The slave watches the operations of a byte read. -/
theorem bytewise_read_slave (s : σ) (bAck : Bool) :
    (S.bytewise.read s bAck).2 = S.watch s (portOps (.read bAck)) := by
  rw [portOps, readOps, watch_append, watch_append, ← S.shiftOut_slave 8 0]
  rfl

/-- **What the slave watches of an exchange** are the operations of the calls made. -/
theorem exchange_slave (s : σ) (plan : List BusAction) :
    (S.bytewise.exchange s plan).slave =
      S.watch s ((S.bytewise.performed s plan).flatMap portOps) := by
  induction plan generalizing s with
  | nil => rfl
  | cons action plan ih =>
    cases action with
    | start | stop =>
      simp only [ByteSlave.performed_start, ByteSlave.performed_stop, List.flatMap_cons,
        watch_append]
      exact ih _
    | write byte =>
      cases h : (S.bytewise.write s byte).1 with
      | true =>
        rw [ByteSlave.performed_write_of_ack _ h, List.flatMap_cons, watch_append,
          ← bytewise_write_slave, ByteSlave.exchange_write_of_ack _ h, ih]
      | false =>
        rw [ByteSlave.performed_write_of_refused _ h, List.flatMap_cons, watch_append,
          ← bytewise_write_slave, ByteSlave.exchange_write_of_refused _ h]
        rfl
    | read bAck =>
      rw [ByteSlave.performed_read, List.flatMap_cons, watch_append, ← bytewise_read_slave, ← ih]
      rfl

/-- What calls show, call by call. -/
theorem shows_cons (s : σ) (a : BusAction) (calls : List BusAction) :
    S.bytewise.shows s (a :: calls) =
      S.bytewise.shows s [a] ++ S.bytewise.shows (S.watch s (portOps a)) calls := by
  cases a with
  | start | stop => rfl
  | write byte => rw [← bytewise_write_slave]; rfl
  | read bAck => rw [← bytewise_read_slave]; rfl

/-! ### Recording -/

/-- The slave with a record of the operations it has watched. -/
def recorded : Slave (σ × List PortOp) where
  observe s op := (S.observe s.1 op, s.2 ++ [op])
  sda s := S.sda s.1

@[simp]
theorem watch_recorded (s : σ) (record ops : List PortOp) :
    S.recorded.watch (s, record) ops = (S.watch s ops, record ++ ops) := by
  induction ops generalizing s record with
  | nil => rw [List.append_nil]; rfl
  | cons op ops ih =>
    show S.recorded.watch (S.observe s op, record ++ [op]) ops = _
    rw [ih, List.append_assoc]
    rfl

theorem shiftOut_recorded (n : ℕ) (data : Byte) (s : σ) (record : List PortOp) :
    (S.recorded.shiftOut n data (s, record)).1 = (S.shiftOut n data s).1 := by
  induction n generalizing data s record with
  | zero => rfl
  | succ n ih =>
    rw [shiftOut, shiftOut]
    simp only [watch_recorded]
    exact ih _ _ _

/-- A recorded slave answers as it does without the record. -/
theorem bytewise_recorded (s : σ) (record : List PortOp) (byte : Byte) (bAck : Bool) :
    S.recorded.bytewise.write (s, record) byte = ((S.bytewise.write s byte).1,
        (S.bytewise.write s byte).2, record ++ portOps (.write byte)) ∧
      S.recorded.bytewise.read (s, record) bAck = ((S.bytewise.read s bAck).1,
        (S.bytewise.read s bAck).2, record ++ portOps (.read bAck)) := by
  refine ⟨Prod.ext ?_ ?_, Prod.ext ?_ ?_⟩
  · show (!S.recorded.sda (S.recorded.watch (s, record) (writeOps byte))) = _
    rw [watch_recorded]
    rfl
  · rw [bytewise_write_slave, watch_recorded, bytewise_write_slave]
  · show (S.recorded.shiftOut 8 0 (S.recorded.watch (s, record) _)).1 = _
    rw [watch_recorded, shiftOut_recorded]
    rfl
  · rw [bytewise_read_slave, watch_recorded, bytewise_read_slave]

/-- A recorded slave shows what it shows without the record. -/
theorem shows_recorded (s : σ) (record : List PortOp) (calls : List BusAction) :
    S.recorded.bytewise.shows (s, record) calls = S.bytewise.shows s calls := by
  induction calls generalizing s record with
  | nil => rfl
  | cons a calls ih =>
    have hcall : S.recorded.bytewise.shows (s, record) [a] = S.bytewise.shows s [a] := by
      cases a with
      | start | stop => rfl
      | write byte => rw [ByteSlave.shows_write, (S.bytewise_recorded s record byte true).1]; rfl
      | read bAck => rw [ByteSlave.shows_read, (S.bytewise_recorded s record 0 bAck).2]; rfl
    rw [S.recorded.shows_cons, hcall, watch_recorded, ih, ← S.shows_cons]

/-- An exchange with a recorded slave goes as it does without the record, and adds the operations
of the calls made. -/
theorem exchange_recorded (s : σ) (record : List PortOp) (plan : List BusAction) :
    S.recorded.bytewise.exchange (s, record) plan =
      ⟨(S.bytewise.exchange s plan).acked, (S.bytewise.exchange s plan).bytes,
        (S.bytewise.exchange s plan).slave,
        record ++ (S.bytewise.performed s plan).flatMap portOps⟩ := by
  induction plan generalizing s record with
  | nil =>
    show Exchange.mk true [] (s, record) = ⟨true, [], s, record ++ []⟩
    rw [List.append_nil]
  | cons action plan ih =>
    cases action with
    | start | stop =>
      simp only [ByteSlave.performed_start, ByteSlave.performed_stop, List.flatMap_cons]
      rw [← List.append_assoc]
      refine Eq.trans ?_ (ih _ _)
      show S.recorded.bytewise.exchange (S.recorded.watch (s, record) _) plan = _
      rw [watch_recorded]
      rfl
    | write byte =>
      obtain ⟨hwrite, -⟩ := S.bytewise_recorded s record byte true
      cases h : (S.bytewise.write s byte).1 with
      | true =>
        rw [ByteSlave.exchange_write_of_ack _ (by rw [hwrite, h]), hwrite, ih,
          ByteSlave.exchange_write_of_ack _ h, ByteSlave.performed_write_of_ack _ h,
          List.flatMap_cons, ← List.append_assoc]
      | false =>
        rw [ByteSlave.exchange_write_of_refused _ (by rw [hwrite, h]), hwrite,
          ByteSlave.exchange_write_of_refused _ h, ByteSlave.performed_write_of_refused _ h,
          List.flatMap_singleton]
    | read bAck =>
      obtain ⟨-, hread⟩ := S.bytewise_recorded s record 0 bAck
      rw [ByteSlave.performed_read, List.flatMap_cons, ← List.append_assoc,
        ByteSlave.exchange_read, hread, ih]
      rfl

end Slave

end MappingRobot
