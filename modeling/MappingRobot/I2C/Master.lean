import MappingRobot.I2C.Bus

/-!
# The bit-banged I2C master

The functions of `I2C.c`, in the order of port operations of the source. Each loop that waits
for SCL to read high comes right after SCL has been driven high, and the port reads back what
was written: so every function returns, whatever the slave does, and each `_spec` theorem says
so with its result.

The results are stated at the level of bytes. A slave that watches port operations is a slave
at the level of bytes (`Slave.bytewise`): `write`, for instance, watches the operations with
which `i2cWrite` shifts a byte out, and its acknowledgement is the level of SDA at the read
that ends them. `i2cReadFromDeviceRegister` and `i2cWriteToDeviceRegister` then carry out a
plan of byte transfers up to the first refusal.
-/

namespace MappingRobot

variable {σ : Type} (S : Slave σ)

/-! ### The source -/

/-- `i2c_start` -/
def i2cStart (b : Bus σ) : Bus σ :=
  b.after S [.sdaDir true, .sdaData true, .sclData true, .sclDelay, .sdaData false, .sclDelay,
    .sclData false, .sclDelay]

/-- `i2c_stop` -/
def i2cStop (b : Bus σ) : Bus σ :=
  b.after S [.sdaDir true, .sdaData false, .sclData true, .sclDelay, .sdaData true, .sclDelay]

/-- The loop of `i2c_write` with `n` rounds to go. -/
def i2cWriteBits (data : Byte) : ℕ → Byte → Bus σ → Option (Bus σ)
  | 0, _, b => some b
  | n + 1, mask, b => do
    let b := b.after S [.sclData false, .sdaData (data &&& mask != 0)]
    let mask := mask >>> 1
    let b := b.after S [.sclData true]
    let b ← b.sclWait S
    let b := b.after S [.sclDelay, .sclData false, .sclDelay]
    i2cWriteBits data n mask b

/-- `i2c_write`: TRUE if the device acknowledges. -/
def i2cWrite (data : Byte) (b : Bus σ) : Option (Bool × Bus σ) := do
  let b := b.after S [.sdaDir true]
  let b ← i2cWriteBits S data 8 0x80 b
  let b := b.after S [.sdaDir false, .sclData true]
  let b ← b.sclWait S
  let b := b.after S [.sclDelay]
  let (level, b) := b.sdaRead S
  let bAck := !level
  let b := b.after S [.sclData false, .sclDelay]
  some (bAck, b)

/-- The loop of `i2c_read` with `n` rounds to go. -/
def i2cReadBits : ℕ → Byte → Bus σ → Option (Byte × Bus σ)
  | 0, data, b => some (data, b)
  | n + 1, data, b => do
    let data := data <<< 1
    let b := b.after S [.sclData true]
    let b ← b.sclWait S
    let b := b.after S [.sclDelay]
    let (level, b) := b.sdaRead S
    let data := if level then data ||| 0x01 else data
    let b := b.after S [.sclData false, .sclDelay]
    i2cReadBits n data b

/-- `i2c_read`: the byte read, acknowledged if `bAck`. -/
def i2cRead (bAck : Bool) (b : Bus σ) : Option (Byte × Bus σ) := do
  let b := b.after S [.sdaDir false, .sclData false, .sclDelay]
  let (data, b) ← i2cReadBits S 8 0 b
  let b := b.after S [.sclData false, .sdaDir true, .sdaData (!bAck), .sclData true]
  let b ← b.sclWait S
  let b := b.after S [.sclDelay, .sclData false, .sclDelay, .sdaData false, .sclDelay]
  some (data, b)

/-- `i2c_selectAddress` -/
def i2cSelectAddress (address : Byte) (b : Bus σ) : Option (Bool × Bus σ) :=
  i2cWrite S address b

/-- The loop of `I2C_WriteToDeviceRegister` over the data still to be written. -/
def i2cWriteLoop : List Byte → Bus σ → Option (Bool × Bus σ)
  | [], b => some (true, b)
  | data :: rest, b => do
    let (bSuccess, b) ← i2cWrite S data b
    if bSuccess then i2cWriteLoop rest b else some (false, b)

/-- `I2C_WriteToDeviceRegister` -/
def i2cWriteToDeviceRegister (deviceAddr controlAddr : Byte) (data : List Byte) (b : Bus σ) :
    Option (Bool × Bus σ) := do
  let (ok, b) ← i2cSelectAddress S deviceAddr b
  if !ok then some (false, b) else
  let (ok, b) ← i2cSelectAddress S controlAddr b
  if !ok then some (false, b) else
  i2cWriteLoop S data b

/-- The loop of `I2C_ReadFromDeviceRegister` with `n` bytes to go: the bytes stored to `pBuf`. -/
def i2cReadLoop (endRead : Bool) : ℕ → Bus σ → Option (List Byte × Bus σ)
  | 0, b => some ([], b)
  | n + 1, b => do
    let (data, b) ← i2cRead S (if n = 0 then !endRead else true) b
    let (rest, b) ← i2cReadLoop endRead n b
    some (data :: rest, b)

/-- `I2C_ReadFromDeviceRegister`: its result and the bytes it has stored to `pBuf`. -/
def i2cReadFromDeviceRegister (deviceAddr controlAddr : Byte) (len : ℕ) (endRead : Bool)
    (b : Bus σ) : Option (Bool × List Byte × Bus σ) := do
  let (ok, b) ← i2cSelectAddress S deviceAddr b
  if !ok then some (false, [], b) else
  let (ok, b) ← i2cSelectAddress S controlAddr b
  if !ok then some (false, [], b) else
  let b := i2cStart S b
  let (ok, b) ← i2cSelectAddress S (deviceAddr ||| 1) b
  if !ok then some (false, [], b) else
  let (data, b) ← i2cReadLoop S endRead len b
  some (true, data, b)

/-! ### The slave at the level of bytes -/

namespace Slave

/-- The slave after it has watched a sequence of port operations. -/
def watch (s : σ) (ops : List PortOp) : σ :=
  ops.foldl S.observe s

/-- The operations that shift out the last `n` bits of a byte, from the bit in `mask` on. -/
def bitOps (data : Byte) : ℕ → Byte → List PortOp
  | 0, _ => []
  | n + 1, mask =>
    [.sclData false, .sdaData (data &&& mask != 0), .sclData true, .sclRead, .sclDelay,
      .sclData false, .sclDelay] ++ bitOps data n (mask >>> 1)

/-- The operations of a byte write up to the read of the acknowledgement. -/
def writeOps (data : Byte) : List PortOp :=
  [.sdaDir true] ++ bitOps data 8 0x80 ++ [.sdaDir false, .sclData true, .sclRead, .sclDelay]

/-- The bits that the slave puts on SDA at the next `n` clock pulses, shifted into `data`. -/
def shiftOut : ℕ → Byte → σ → Byte × σ
  | 0, data, s => (data, s)
  | n + 1, data, s =>
    let s := S.watch s [.sclData true, .sclRead, .sclDelay]
    let data := if S.sda s then data <<< 1 ||| 0x01 else data <<< 1
    shiftOut n data (S.watch s [.sdaRead, .sclData false, .sclDelay])

/-- The slave at the level of bytes. -/
def bytewise : ByteSlave σ where
  start s := S.watch s [.sdaDir true, .sdaData true, .sclData true, .sclDelay, .sdaData false,
    .sclDelay, .sclData false, .sclDelay]
  stop s := S.watch s [.sdaDir true, .sdaData false, .sclData true, .sclDelay, .sdaData true,
    .sclDelay]
  write s data :=
    let s := S.watch s (writeOps data)
    (!S.sda s, S.watch s [.sdaRead, .sclData false, .sclDelay])
  read s bAck :=
    let r := S.shiftOut 8 0 (S.watch s [.sdaDir false, .sclData false, .sclDelay])
    (r.1, S.watch r.2 [.sclData false, .sdaDir true, .sdaData (!bAck), .sclData true, .sclRead,
      .sclDelay, .sclData false, .sclDelay, .sdaData false, .sclDelay])

end Slave

/-! ### Byte transfers -/

variable {S}

theorem i2cStart_slave (b : Bus σ) : (i2cStart S b).slave = S.bytewise.start b.slave :=
  b.after_slave _

theorem i2cStop_slave (b : Bus σ) : (i2cStop S b).slave = S.bytewise.stop b.slave :=
  b.after_slave _

/-- A stop releases the bus, if SCL was low before. -/
theorem i2cStop_released {b : Bus σ} (h : b.port.sclOut = false) : (i2cStop S b).Released := by
  constructor
  · rw [i2cStop, Bus.after_port]; rfl
  · simp [i2cStop, Bus.after, Bus.apply, Bus.condition, Bus.sda, Port.write, h]

/-- The bit loop shifts out exactly its bits. -/
theorem i2cWriteBits_eq (data : Byte) (n : ℕ) (mask : Byte) (b : Bus σ) :
    i2cWriteBits S data n mask b = some (b.after S (Slave.bitOps data n mask)) := by
  induction n generalizing mask b with
  | zero => rfl
  | succ n ih =>
    have hhigh : ((b.after S [.sclData false, .sdaData (data &&& mask != 0)]).after S
        [.sclData true]).port.sclOut = true := by
      rw [Bus.after_port]; rfl
    rw [i2cWriteBits, Bus.sclWait_of_high hhigh, Option.bind_eq_bind, Option.bind_some, ih,
      Slave.bitOps, Bus.after_append]
    simp only [← Bus.after_append]
    rfl

/-- **A byte write.** It returns what the slave answers, and leaves SCL low. -/
theorem i2cWrite_spec (data : Byte) (b : Bus σ) :
    ∃ b', i2cWrite S data b = some ((S.bytewise.write b.slave data).1, b') ∧
      b'.slave = (S.bytewise.write b.slave data).2 ∧ b'.port.sclOut = false := by
  set b₁ := ((b.after S [.sdaDir true]).after S (Slave.bitOps data 8 0x80)).after S
    [.sdaDir false, .sclData true] with hb₁
  have hhigh : b₁.port.sclOut = true := by rw [hb₁, Bus.after_port]; rfl
  set b₂ := (b₁.after S [.sclRead]).after S [.sclDelay] with hb₂
  have hops : b₂ = b.after S (Slave.writeOps data) := by
    rw [hb₂, hb₁]
    simp only [← Bus.after_append, Slave.writeOps, List.append_assoc, List.cons_append,
      List.nil_append]
  have hslave : b₂.slave = S.watch b.slave (Slave.writeOps data) := by
    rw [hops, Bus.after_slave]; rfl
  have hin : b₂.port.sdaDir = false := by
    rw [hb₂, Bus.after_port, Bus.after_port, hb₁, Bus.after_port]; rfl
  have hlevel : b₂.sda S = S.sda (S.watch b.slave (Slave.writeOps data)) := by
    rw [Bus.sda, hin, hslave]; rfl
  refine ⟨(b₂.after S [.sdaRead]).after S [.sclData false, .sclDelay], ?_, ?_, ?_⟩
  · rw [i2cWrite, i2cWriteBits_eq, Option.bind_eq_bind, Option.bind_some]
    simp only [← hb₁, Bus.sclWait_of_high hhigh, Option.bind_some, ← hb₂, Bus.sdaRead, hlevel]
    rfl
  · rw [Bus.after_slave, Bus.after_slave, hslave]; rfl
  · rw [Bus.after_port]; rfl

/-- The bit loop of a read shifts in what the slave shifts out. -/
theorem i2cReadBits_spec (n : ℕ) (data : Byte) (b : Bus σ) (hin : b.port.sdaDir = false) :
    ∃ b', i2cReadBits S n data b = some ((S.shiftOut n data b.slave).1, b') ∧
      b'.slave = (S.shiftOut n data b.slave).2 := by
  induction n generalizing data b with
  | zero => exact ⟨b, rfl, rfl⟩
  | succ n ih =>
    have hhigh : (b.after S [.sclData true]).port.sclOut = true := by rw [Bus.after_port]; rfl
    set b₁ := ((b.after S [.sclData true]).after S [.sclRead]).after S [.sclDelay] with hb₁
    have hslave : b₁.slave = S.watch b.slave [.sclData true, .sclRead, .sclDelay] := by
      rw [hb₁, Bus.after_slave, Bus.after_slave, Bus.after_slave]; rfl
    -- the master has let go of SDA, so that the level read is the one the slave drives
    have hlevel : b₁.sda S = S.sda (S.watch b.slave [.sclData true, .sclRead, .sclDelay]) := by
      have hdir : b₁.port.sdaDir = false := by
        rw [hb₁, Bus.after_port, Bus.after_port, Bus.after_port]; exact hin
      rw [Bus.sda, hdir, hslave]; rfl
    set b₂ := (b₁.after S [.sdaRead]).after S [.sclData false, .sclDelay] with hb₂
    have hin₂ : b₂.port.sdaDir = false := by
      rw [hb₂, hb₁]; simp only [Bus.after_port]; exact hin
    have hslave₂ : b₂.slave = S.watch b₁.slave [.sdaRead, .sclData false, .sclDelay] := by
      rw [hb₂, Bus.after_slave, Bus.after_slave]; rfl
    obtain ⟨b', hread, hb'⟩ :=
      ih (if b₁.sda S then data <<< 1 ||| 0x01 else data <<< 1) b₂ hin₂
    refine ⟨b', ?_, ?_⟩
    · rw [i2cReadBits, Bus.sclWait_of_high hhigh, Option.bind_eq_bind, Option.bind_some]
      simp only [Bus.sdaRead, ← hb₁, ← hb₂]
      rw [hread, Slave.shiftOut, hslave₂, hlevel, hslave]
    · rw [hb', Slave.shiftOut, hslave₂, hlevel, hslave]

/-- **A byte read.** It returns what the slave shifts out, and leaves SCL low. -/
theorem i2cRead_spec (bAck : Bool) (b : Bus σ) :
    ∃ b', i2cRead S bAck b = some ((S.bytewise.read b.slave bAck).1, b') ∧
      b'.slave = (S.bytewise.read b.slave bAck).2 ∧ b'.port.sclOut = false := by
  set b₁ := b.after S [.sdaDir false, .sclData false, .sclDelay] with hb₁
  have hin : b₁.port.sdaDir = false := by rw [hb₁, Bus.after_port]; rfl
  have hslave₁ : b₁.slave = S.watch b.slave [.sdaDir false, .sclData false, .sclDelay] := by
    rw [hb₁, Bus.after_slave]; rfl
  obtain ⟨b₂, hread, hslave₂⟩ := i2cReadBits_spec (S := S) 8 0 b₁ hin
  set b₃ := b₂.after S [.sclData false, .sdaDir true, .sdaData (!bAck), .sclData true] with hb₃
  have hhigh : b₃.port.sclOut = true := by rw [hb₃, Bus.after_port]; rfl
  refine ⟨(b₃.after S [.sclRead]).after S [.sclDelay, .sclData false, .sclDelay, .sdaData false,
    .sclDelay], ?_, ?_, ?_⟩
  · rw [i2cRead, ← hb₁, hread, Option.bind_eq_bind, Option.bind_some]
    simp only [← hb₃]
    rw [Bus.sclWait_of_high hhigh, hslave₁]
    rfl
  · rw [Bus.after_slave, Bus.after_slave, hb₃, Bus.after_slave, hslave₂, hslave₁]; rfl
  · rw [Bus.after_port]; rfl

/-- **An address selected.** What comes after it in a function goes on with the answer. -/
theorem i2cSelectAddress_spec (address : Byte) (b : Bus σ) :
    ∃ b', (∀ {α : Type} (f : Bool × Bus σ → Option α), (i2cSelectAddress S address b).bind f =
        f ((S.bytewise.write b.slave address).1, b')) ∧
      b'.slave = (S.bytewise.write b.slave address).2 ∧ b'.port.sclOut = false := by
  obtain ⟨b', hwrite, hslave, hscl⟩ := i2cWrite_spec (S := S) address b
  refine ⟨b', fun f ↦ ?_, hslave, hscl⟩
  rw [i2cSelectAddress, hwrite, Option.bind_some]

/-! ### Register transfers -/

/-- A master function has carried out a plan: its result is that nothing was refused, the slave
is where the plan took it, and SCL is low. -/
def CarriesOut (S : Slave σ) (b : Bus σ) (plan : List BusAction) (ok : Bool) (bytes : List Byte)
    (b' : Bus σ) : Prop :=
  S.bytewise.exchange b.slave plan = ⟨ok, bytes, b'.slave⟩ ∧ b'.port.sclOut = false

/-- The plan of a register write. -/
def writePlan (deviceAddr controlAddr : Byte) (data : List Byte) : List BusAction :=
  .write deviceAddr :: .write controlAddr :: data.map .write

/-- The plan of the reads of a register read: every byte but the last one is acknowledged, and
the last one unless the read ends. -/
def readsPlan (endRead : Bool) : ℕ → List BusAction
  | 0 => []
  | n + 1 => .read (if n = 0 then !endRead else true) :: readsPlan endRead n

/-- The plan of a register read. -/
def readPlan (deviceAddr controlAddr : Byte) (len : ℕ) (endRead : Bool) : List BusAction :=
  .write deviceAddr :: .write controlAddr :: .start :: .write (deviceAddr ||| 1) ::
    readsPlan endRead len

theorem i2cWriteLoop_spec (data : List Byte) (b : Bus σ) (h : b.port.sclOut = false) :
    ∃ ok b', i2cWriteLoop S data b = some (ok, b') ∧
      CarriesOut S b (data.map .write) ok [] b' := by
  induction data generalizing b with
  | nil => exact ⟨true, b, rfl, rfl, h⟩
  | cons byte data ih =>
    obtain ⟨b₁, hwrite, hslave, hscl⟩ := i2cWrite_spec (S := S) byte b
    rw [i2cWriteLoop, hwrite, List.map_cons]
    cases hack : (S.bytewise.write b.slave byte).1 with
    | true =>
      obtain ⟨ok, b', hloop, hplan, hscl'⟩ := ih b₁ hscl
      refine ⟨ok, b', hloop, ?_, hscl'⟩
      rw [ByteSlave.exchange_write_of_ack _ hack, ← hslave, hplan]
    | false =>
      refine ⟨false, b₁, rfl, ?_, hscl⟩
      rw [ByteSlave.exchange_write_of_refused _ hack, hslave]

/-- **A register write** carries out its plan. -/
theorem i2cWriteToDeviceRegister_spec (deviceAddr controlAddr : Byte) (data : List Byte)
    (b : Bus σ) :
    ∃ ok b', i2cWriteToDeviceRegister S deviceAddr controlAddr data b = some (ok, b') ∧
      CarriesOut S b (writePlan deviceAddr controlAddr data) ok [] b' := by
  obtain ⟨b₁, hselect₁, hslave₁, hscl₁⟩ := i2cSelectAddress_spec (S := S) deviceAddr b
  rw [i2cWriteToDeviceRegister, Option.bind_eq_bind, hselect₁, writePlan]
  cases hack₁ : (S.bytewise.write b.slave deviceAddr).1 with
  | false =>
    refine ⟨false, b₁, rfl, ?_, hscl₁⟩
    rw [ByteSlave.exchange_write_of_refused _ hack₁, hslave₁]
  | true =>
    obtain ⟨b₂, hselect₂, hslave₂, hscl₂⟩ := i2cSelectAddress_spec (S := S) controlAddr b₁
    simp only [Bool.not_true, Bool.false_eq_true, if_false, hselect₂]
    cases hack₂ : (S.bytewise.write b₁.slave controlAddr).1 with
    | false =>
      refine ⟨false, b₂, rfl, ?_, hscl₂⟩
      rw [ByteSlave.exchange_write_of_ack _ hack₁, ← hslave₁,
        ByteSlave.exchange_write_of_refused _ hack₂, hslave₂]
    | true =>
      obtain ⟨ok, b', hloop, hplan, hscl'⟩ := i2cWriteLoop_spec (S := S) data b₂ hscl₂
      refine ⟨ok, b', hloop, ?_, hscl'⟩
      rw [ByteSlave.exchange_write_of_ack _ hack₁, ← hslave₁,
        ByteSlave.exchange_write_of_ack _ hack₂, ← hslave₂, hplan]

theorem i2cReadLoop_spec (endRead : Bool) (n : ℕ) (b : Bus σ) (h : b.port.sclOut = false) :
    ∃ bytes b', i2cReadLoop S endRead n b = some (bytes, b') ∧
      CarriesOut S b (readsPlan endRead n) true bytes b' := by
  induction n generalizing b with
  | zero => exact ⟨[], b, rfl, rfl, h⟩
  | succ n ih =>
    obtain ⟨b₁, hread, hslave, hscl⟩ :=
      i2cRead_spec (S := S) (if n = 0 then !endRead else true) b
    obtain ⟨bytes, b', hloop, hplan, hscl'⟩ := ih b₁ hscl
    refine ⟨(S.bytewise.read b.slave (if n = 0 then !endRead else true)).1 :: bytes, b', ?_, ?_,
      hscl'⟩
    · rw [i2cReadLoop, hread]
      simp only [Option.bind_eq_bind, Option.bind_some, hloop]
    · rw [readsPlan, ByteSlave.exchange_read, ← hslave, hplan]

/-- **A register read** carries out its plan, and the bytes it stores are those the slave shifts
out. -/
theorem i2cReadFromDeviceRegister_spec (deviceAddr controlAddr : Byte) (len : ℕ) (endRead : Bool)
    (b : Bus σ) :
    ∃ ok bytes b', i2cReadFromDeviceRegister S deviceAddr controlAddr len endRead b =
        some (ok, bytes, b') ∧
      CarriesOut S b (readPlan deviceAddr controlAddr len endRead) ok bytes b' := by
  -- each of the three addresses may be refused, and then the function returns at once
  obtain ⟨b₁, hselect₁, hslave₁, hscl₁⟩ := i2cSelectAddress_spec (S := S) deviceAddr b
  rw [i2cReadFromDeviceRegister, Option.bind_eq_bind, hselect₁, readPlan]
  cases hack₁ : (S.bytewise.write b.slave deviceAddr).1 with
  | false =>
    refine ⟨false, [], b₁, rfl, ?_, hscl₁⟩
    rw [ByteSlave.exchange_write_of_refused _ hack₁, hslave₁]
  | true =>
    obtain ⟨b₂, hselect₂, hslave₂, hscl₂⟩ := i2cSelectAddress_spec (S := S) controlAddr b₁
    simp only [Bool.not_true, Bool.false_eq_true, if_false, hselect₂]
    cases hack₂ : (S.bytewise.write b₁.slave controlAddr).1 with
    | false =>
      refine ⟨false, [], b₂, rfl, ?_, hscl₂⟩
      rw [ByteSlave.exchange_write_of_ack _ hack₁, ← hslave₁,
        ByteSlave.exchange_write_of_refused _ hack₂, hslave₂]
    | true =>
      -- both addresses are acknowledged: a repeated start turns the transfer round
      have hslave₃ : (i2cStart S b₂).slave = S.bytewise.start b₂.slave := i2cStart_slave b₂
      obtain ⟨b₄, hselect₄, hslave₄, hscl₄⟩ :=
        i2cSelectAddress_spec (S := S) (deviceAddr ||| 1) (i2cStart S b₂)
      have hplan₃ : S.bytewise.exchange b.slave (readPlan deviceAddr controlAddr len endRead) =
          S.bytewise.exchange (i2cStart S b₂).slave
            (.write (deviceAddr ||| 1) :: readsPlan endRead len) := by
        rw [readPlan, ByteSlave.exchange_write_of_ack _ hack₁, ← hslave₁,
          ByteSlave.exchange_write_of_ack _ hack₂, ← hslave₂, ByteSlave.exchange_start, hslave₃]
      simp only [Bool.not_true, Bool.false_eq_true, if_false, hselect₄]
      cases hack₄ : (S.bytewise.write (i2cStart S b₂).slave (deviceAddr ||| 1)).1 with
      | false =>
        refine ⟨false, [], b₄, rfl, ?_, hscl₄⟩
        rw [← readPlan, hplan₃, ByteSlave.exchange_write_of_refused _ hack₄, hslave₄]
      | true =>
        obtain ⟨bytes, b', hloop, hplan, hscl'⟩ := i2cReadLoop_spec (S := S) endRead len b₄ hscl₄
        refine ⟨true, bytes, b', ?_, ?_, hscl'⟩
        · simp only [Bool.not_true, Bool.false_eq_true, if_false, hloop]
          rfl
        · rw [← readPlan, hplan₃, ByteSlave.exchange_write_of_ack _ hack₄, ← hslave₄, hplan]

end MappingRobot
