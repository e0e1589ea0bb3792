import MappingRobot.I2C.Master
import MappingRobot.Library.Run

/-!
# The LIDAR

The operations of `LIDAR.c` over the bit-banged master. Each is a transaction or several of them
with the one slave on the bus, and each returns whatever that slave does.

`send_command` and `lidar_test_address` issue a stop condition on every path. `read_registers`
issues one only after each of its two register reads has been acknowledged: its two failure
exits leave the transaction open, with SCL held low. `lidar_read_fast` goes on to a fresh start
condition after such a failure, so what it leaves behind depends on its last attempt only.

The waits of `OSTimeDlyHMSM` do not touch the ports.
-/

namespace MappingRobot

variable {σ : Type} (S : Slave σ)

/-! ### The source -/

/-- `LIDAR_I2C_ADDRESS` -/
def lidarI2cAddress : Byte := 0xc4

/-- `LIDAR_REGISTER_COMMAND` -/
def lidarRegisterCommand : Byte := 0x00

/-- `LIDAR_REGISTER_UPPER` -/
def lidarRegisterUpper : Byte := 0x0f

/-- `LIDAR_REGISTER_LOWER` -/
def lidarRegisterLower : Byte := 0x10

/-- `LIDAR_COMMAND_POLL` -/
def lidarCommandPoll : Byte := 0x04

/-- `READ_DELAY` -/
def readDelay : ℕ := 20

/-- `lidar_test_address` -/
def lidarTestAddress (b : Bus σ) : Option (Bool × Bus σ) := do
  let b := i2cStart S b
  let (status, b) ← i2cSelectAddress S lidarI2cAddress b
  let b := i2cStop S b
  some (status, b)

/-- `send_command` -/
def sendCommand (command : Byte) (b : Bus σ) : Option (Bool × Bus σ) := do
  let b := i2cStart S b
  let (status, b) ← i2cWriteToDeviceRegister S lidarI2cAddress lidarRegisterCommand [command] b
  let b := i2cStop S b
  some (status, b)

/-- `read_registers`: the range, or `0` if a register read fails. -/
def readRegisters (b : Bus σ) : Option (ℕ × Bus σ) := do
  let b := i2cStart S b
  let (ok, data, b) ← i2cReadFromDeviceRegister S lidarI2cAddress lidarRegisterUpper 1 true b
  let upper := data.headD 0
  if ok then
    let b := i2cStop S b
    let b := i2cStart S b
    let (ok, data, b) ← i2cReadFromDeviceRegister S lidarI2cAddress lidarRegisterLower 1 true b
    let lower := data.headD 0
    if !ok then some (0, b) else
    let b := i2cStop S b
    let range := (upper.toNat <<< 8) + lower.toNat
    some (range, b)
  else
    some (0, b)

/-- `lidar_read` -/
def lidarRead (b : Bus σ) : Option (ℕ × Bus σ) := do
  let (ok, b) ← sendCommand S lidarCommandPoll b
  if ok then readRegisters S b else some (0, b)

/-- The loop of `lidar_read_fast` with `n` rounds to go. -/
def lidarReadFastLoop : ℕ → ℕ → Bus σ → Option (ℕ × Bus σ)
  | 0, result, b => some (result, b)
  | n + 1, result, b =>
    if result ≠ 0 then
      some (result, b)
    else do
      let (result, b) ← readRegisters S b
      lidarReadFastLoop n result b

/-- `lidar_read_fast` -/
def lidarReadFast (b : Bus σ) : Option (ℕ × Bus σ) :=
  lidarReadFastLoop S readDelay 0 b

/-! ### Transactions -/

/-- The plan of a poll, up to its stop condition. -/
def pollPlan (command : Byte) : List BusAction :=
  .start :: writePlan lidarI2cAddress lidarRegisterCommand [command]

/-- The plan of `read_registers`, up to its second stop condition. -/
def registersPlan : List BusAction :=
  .start :: readPlan lidarI2cAddress lidarRegisterUpper 1 true ++
    .stop :: .start :: readPlan lidarI2cAddress lidarRegisterLower 1 true

/-- The range in the two register bytes, most significant first. -/
def rangeOf : List Byte → ℕ
  | [upper, lower] => 256 * upper.toNat + lower.toNat
  | _ => 0

variable {S}

/-- With SCL low the bus is not released. -/
theorem Bus.not_released_of_scl_low {b : Bus σ} (h : b.port.sclOut = false) : ¬ b.Released := by
  intro hreleased
  rw [hreleased.port_eq] at h
  cases h

theorem lidarTestAddress_spec (b : Bus σ) :
    ∃ ok b', lidarTestAddress S b = some (ok, b') ∧ b'.Released := by
  obtain ⟨b₁, hwrite, -, hscl⟩ := i2cWrite_spec (S := S) lidarI2cAddress (i2cStart S b)
  refine ⟨(S.bytewise.write (i2cStart S b).slave lidarI2cAddress).1, i2cStop S b₁, ?_,
    i2cStop_released hscl⟩
  rw [lidarTestAddress, i2cSelectAddress, hwrite]
  rfl

/-- **A command** is acknowledged exactly when its plan is, and releases the bus. -/
theorem sendCommand_spec (command : Byte) (b : Bus σ) :
    ∃ b', sendCommand S command b =
        some ((S.bytewise.exchange b.slave (pollPlan command)).acked, b') ∧
      b'.slave = S.bytewise.stop (S.bytewise.exchange b.slave (pollPlan command)).slave ∧
      b'.Released := by
  obtain ⟨ok, b₁, hwrite, hplan, hscl⟩ := i2cWriteToDeviceRegister_spec (S := S) lidarI2cAddress
    lidarRegisterCommand [command] (i2cStart S b)
  rw [i2cStart_slave, ← ByteSlave.exchange_start] at hplan
  refine ⟨i2cStop S b₁, ?_, ?_, i2cStop_released hscl⟩
  · rw [sendCommand, hwrite, pollPlan, hplan]
    rfl
  · rw [i2cStop_slave, pollPlan, hplan]

/-- A register read that is acknowledged stores one byte. -/
theorem bytes_of_readPlan {s s' : σ} {deviceAddr controlAddr : Byte} {bytes : List Byte}
    (h : S.bytewise.exchange s (readPlan deviceAddr controlAddr 1 true) = ⟨true, bytes, s'⟩) :
    ∃ byte, bytes = [byte] := by
  have hacked : (S.bytewise.exchange s (readPlan deviceAddr controlAddr 1 true)).acked = true := by
    rw [h]
  have hlen := S.bytewise.length_bytes_of_acked hacked
  rw [h] at hlen
  exact List.length_eq_one_iff.1 hlen

/-- **Reading the registers** yields the range in the two bytes the slave shifts out if the
whole plan is acknowledged, and `0` otherwise; and it releases the bus in the first case
only. -/
theorem readRegisters_spec (b : Bus σ) :
    ∃ b', readRegisters S b =
        some (if (S.bytewise.exchange b.slave registersPlan).acked then
          rangeOf (S.bytewise.exchange b.slave registersPlan).bytes else 0, b') ∧
      b'.slave = (if (S.bytewise.exchange b.slave registersPlan).acked then
        S.bytewise.stop (S.bytewise.exchange b.slave registersPlan).slave
        else (S.bytewise.exchange b.slave registersPlan).slave) ∧
      (b'.Released ↔ (S.bytewise.exchange b.slave registersPlan).acked = true) := by
  obtain ⟨ok, data, b₁, hread, hplan, hscl⟩ := i2cReadFromDeviceRegister_spec (S := S)
    lidarI2cAddress lidarRegisterUpper 1 true (i2cStart S b)
  rw [i2cStart_slave, ← ByteSlave.exchange_start] at hplan
  cases ok with
  | false =>
    -- the function returns without `I2C_Stop`, and SCL stays low
    have hall : S.bytewise.exchange b.slave registersPlan = ⟨false, data, b₁.slave⟩ := by
      rw [registersPlan, ByteSlave.exchange_append_of_refused _ (by rw [hplan]), hplan]
    refine ⟨b₁, ?_, ?_, ?_⟩
    · rw [readRegisters, hread, hall]
      rfl
    · rw [hall]
      rfl
    · rw [hall]
      simpa using Bus.not_released_of_scl_low hscl
  | true =>
    obtain ⟨upper, rfl⟩ := bytes_of_readPlan hplan
    -- the upper byte is there; the second transaction decides
    set b₂ := i2cStart S (i2cStop S b₁) with hb₂
    obtain ⟨ok, data, b₃, hread', hplan', hscl'⟩ := i2cReadFromDeviceRegister_spec (S := S)
      lidarI2cAddress lidarRegisterLower 1 true b₂
    have hall : S.bytewise.exchange b.slave registersPlan =
        ⟨ok, upper :: data, b₃.slave⟩ := by
      rw [hb₂, i2cStart_slave, i2cStop_slave, ← ByteSlave.exchange_start,
        ← ByteSlave.exchange_stop] at hplan'
      rw [registersPlan, ByteSlave.exchange_append_of_acked _ (by rw [hplan]), hplan, hplan']
      rfl
    have hstep : readRegisters S b =
        if !ok then some (0, b₃)
        else some ((upper.toNat <<< 8) + (data.headD 0).toNat, i2cStop S b₃) := by
      rw [readRegisters, hread]
      simp only [Option.bind_eq_bind, Option.bind_some, if_true, ← hb₂, hread']
      rfl
    cases ok with
    | false =>
      refine ⟨b₃, ?_, ?_, ?_⟩
      · rw [hstep, hall]
        rfl
      · rw [hall]
        rfl
      · rw [hall]
        simpa using Bus.not_released_of_scl_low hscl'
    | true =>
      obtain ⟨lower, rfl⟩ := bytes_of_readPlan hplan'
      refine ⟨i2cStop S b₃, ?_, ?_, ?_⟩
      · rw [hstep, hall]
        simp [rangeOf, Nat.shiftLeft_eq, Nat.mul_comm]
      · rw [hall, i2cStop_slave]
        rfl
      · rw [hall]
        simpa using i2cStop_released hscl'

/-- A read of the registers that is acknowledged reads two bytes. -/
theorem bytes_of_registersPlan {s : σ} (h : (S.bytewise.exchange s registersPlan).acked = true) :
    ∃ upper lower, (S.bytewise.exchange s registersPlan).bytes = [upper, lower] := by
  have hlen := S.bytewise.length_bytes_of_acked h
  exact List.length_eq_two.1 hlen

theorem rangeOf_eq_zero_iff (upper lower : Byte) :
    rangeOf [upper, lower] = 0 ↔ [upper, lower] = [0, 0] := by
  simp [rangeOf, ← BitVec.toNat_inj]

/-! ### The operations -/

/-- A LIDAR operation. -/
inductive LidarOp
  | read
  | readFast
  | testAddress
deriving DecidableEq

/-- Carry an operation out, for its effect on the bus. -/
def LidarOp.run (S : Slave σ) (b : Bus σ) : LidarOp → Option (Bus σ)
  | .read => (lidarRead S b).map Prod.snd
  | .readFast => (lidarReadFast S b).map Prod.snd
  | .testAddress => (lidarTestAddress S b).map Prod.snd

/-- The bus after reset. -/
def Bus.reset (s : σ) : Bus σ :=
  ⟨.reset, s, []⟩

/-- A sequence of operations from reset on. -/
def lidarRun (S : Slave σ) (s : σ) (ops : List LidarOp) : Option (Bus σ) :=
  ops.foldlM (LidarOp.run S) (.reset s)

/-- Of `lidar_read_fast` with `n` reads to go after the next one: the slave acknowledges all of
the last read made. That is the first one that is acknowledged and not all zero, or, if there
is none, the last one allowed. -/
def LastReadAcked (S : Slave σ) : ℕ → σ → Prop
  | 0, s => (S.bytewise.exchange s registersPlan).acked = true
  | n + 1, s =>
    ((S.bytewise.exchange s registersPlan).acked = true ∧
      (S.bytewise.exchange s registersPlan).bytes ≠ [0, 0]) ∨
    LastReadAcked S n
      (if (S.bytewise.exchange s registersPlan).acked then
        S.bytewise.stop (S.bytewise.exchange s registersPlan).slave
      else (S.bytewise.exchange s registersPlan).slave)

/-- The slave refuses none of the bytes after which the operation gives up without a stop: those
of the register reads, once the poll has been acknowledged, and for `lidar_read_fast` those of
the last read it makes. -/
def LidarOp.Answered (S : Slave σ) (s : σ) : LidarOp → Prop
  | .read =>
    (S.bytewise.exchange s (pollPlan lidarCommandPoll)).acked = true →
      (S.bytewise.exchange
        (S.bytewise.stop (S.bytewise.exchange s (pollPlan lidarCommandPoll)).slave)
        registersPlan).acked = true
  | .readFast => LastReadAcked S (readDelay - 1) s
  | .testAddress => True

theorem lidarRead_released_iff (b : Bus σ) :
    ∃ r b', lidarRead S b = some (r, b') ∧ (b'.Released ↔ LidarOp.Answered S b.slave .read) := by
  obtain ⟨b₁, hpoll, hslave, hreleased⟩ := sendCommand_spec (S := S) lidarCommandPoll b
  rw [lidarRead, hpoll, LidarOp.Answered]
  cases hack : (S.bytewise.exchange b.slave (pollPlan lidarCommandPoll)).acked with
  | false => exact ⟨0, b₁, rfl, by simpa using hreleased⟩
  | true =>
    obtain ⟨b₂, hread, -, hiff⟩ := readRegisters_spec (S := S) b₁
    refine ⟨_, b₂, hread, ?_⟩
    rw [hiff, hslave]
    simp

/-- Once a result is there, the loop of `lidar_read_fast` ends. -/
theorem lidarReadFastLoop_of_ne_zero {result : ℕ} (h : result ≠ 0) (n : ℕ) (b : Bus σ) :
    lidarReadFastLoop S n result b = some (result, b) := by
  cases n with
  | zero => rfl
  | succ n => rw [lidarReadFastLoop, if_pos h]

/-- The loop of `lidar_read_fast` leaves the bus as its last read does. -/
theorem lidarReadFastLoop_released_iff (n : ℕ) (b : Bus σ) :
    ∃ r b', lidarReadFastLoop S (n + 1) 0 b = some (r, b') ∧
      (b'.Released ↔ LastReadAcked S n b.slave) := by
  -- a read that yields `0`, refused or not, is followed by another one
  induction n generalizing b with
  | zero =>
    obtain ⟨b₁, hread, -, hiff⟩ := readRegisters_spec (S := S) b
    have hstep : lidarReadFastLoop S (0 + 1) 0 b = readRegisters S b := by
      rw [lidarReadFastLoop, if_neg (by simp), hread]
      rfl
    exact ⟨_, b₁, hstep.trans hread, hiff⟩
  | succ n ih =>
    obtain ⟨b₁, hread, hslave, hiff⟩ := readRegisters_spec (S := S) b
    have hstep : lidarReadFastLoop S (n + 1 + 1) 0 b = lidarReadFastLoop S (n + 1)
        (if (S.bytewise.exchange b.slave registersPlan).acked then
          rangeOf (S.bytewise.exchange b.slave registersPlan).bytes else 0) b₁ := by
      rw [lidarReadFastLoop, if_neg (by simp), hread]
      rfl
    rw [hstep, LastReadAcked, ← hslave]
    cases hack : (S.bytewise.exchange b.slave registersPlan).acked with
    | false => simpa using ih b₁
    | true =>
      obtain ⟨upper, lower, hbytes⟩ := bytes_of_registersPlan hack
      rw [hack] at hiff
      by_cases hzero : rangeOf [upper, lower] = 0
      · rw [hbytes, (rangeOf_eq_zero_iff upper lower).1 hzero]
        simpa [rangeOf] using ih b₁
      · have hne : [upper, lower] ≠ [0, 0] := mt (rangeOf_eq_zero_iff upper lower).2 hzero
        refine ⟨rangeOf [upper, lower], b₁, ?_, ?_⟩
        · rw [if_pos rfl, hbytes]
          exact lidarReadFastLoop_of_ne_zero hzero _ b₁
        · exact iff_of_true (hiff.2 rfl) (Or.inl ⟨rfl, by rwa [hbytes]⟩)

/-- Every operation returns, whatever the slave does, and releases the bus exactly when it has
been answered. -/
theorem LidarOp.run_released_iff (op : LidarOp) (b : Bus σ) :
    ∃ b', op.run S b = some b' ∧ (b'.Released ↔ op.Answered S b.slave) := by
  cases op with
  | read =>
    obtain ⟨r, b', hrun, hiff⟩ := lidarRead_released_iff (S := S) b
    exact ⟨b', by rw [run, hrun]; rfl, hiff⟩
  | readFast =>
    obtain ⟨r, b', hrun, hiff⟩ := lidarReadFastLoop_released_iff (S := S) (readDelay - 1) b
    exact ⟨b', by rw [run, lidarReadFast, show readDelay = readDelay - 1 + 1 from rfl, hrun]; rfl,
      hiff⟩
  | testAddress =>
    obtain ⟨ok, b', hrun, hreleased⟩ := lidarTestAddress_spec (S := S) b
    exact ⟨b', by rw [run, hrun]; rfl, by simpa [Answered] using hreleased⟩

/-- Every sequence of operations returns. -/
theorem lidarRun_isSome (s : σ) (ops : List LidarOp) : ∃ b, lidarRun S s ops = some b := by
  induction ops using List.reverseRecOn with
  | nil => exact ⟨_, rfl⟩
  | append_singleton ops op ih =>
    obtain ⟨b, hb⟩ := ih
    obtain ⟨b', hb', -⟩ := LidarOp.run_released_iff (S := S) op b
    exact ⟨b', by rw [lidarRun, List.foldlM_append, ← lidarRun, hb]; simpa using hb'⟩

/-- **When the bus is released.** For every slave, every operation of a run returns with the
bus released exactly when the slave answers every operation: when it refuses no byte of a
register read after which the operation gives up. -/
theorem released_iff_answered (S : Slave σ) (s : σ) (ops : List LidarOp) :
    (∀ pre op, pre ++ [op] <+: ops →
        ∃ b, lidarRun S s (pre ++ [op]) = some b ∧ b.Released) ↔
      ∀ pre op b, pre ++ [op] <+: ops → lidarRun S s pre = some b → op.Answered S b.slave := by
  have hsnoc : ∀ pre op b, lidarRun S s pre = some b →
      lidarRun S s (pre ++ [op]) = op.run S b := by
    intro pre op b hb
    unfold lidarRun at hb ⊢
    rw [List.foldlM_append, hb]
    simp
  constructor
  · intro h pre op b hpre hb
    obtain ⟨b', hb', hreleased⟩ := h pre op hpre
    obtain ⟨b'', hrun, hiff⟩ := LidarOp.run_released_iff (S := S) op b
    rw [hsnoc pre op b hb, hrun] at hb'
    obtain rfl := Option.some.inj hb'
    exact hiff.1 hreleased
  · intro h pre op hpre
    obtain ⟨b, hb⟩ := lidarRun_isSome (S := S) s pre
    obtain ⟨b', hrun, hiff⟩ := LidarOp.run_released_iff (S := S) op b
    exact ⟨b', by rw [hsnoc pre op b hb, hrun], hiff.2 (h pre op b hpre hb)⟩

/-- A slave that never answers: SDA is high whenever the master lets it go. -/
def Slave.absent : Slave Unit where
  observe s _ := s
  sda _ := true

/-- With no sensor on the bus, `lidar_read_fast` returns with its last transaction open: SCL is
low, and no stop condition has been issued. -/
theorem not_released_of_absent :
    ¬ ∃ b, lidarRun .absent () [.readFast] = some b ∧ b.Released := by
  rintro ⟨b, hb, hreleased⟩
  have hport : (lidarRun .absent () [.readFast]).map (fun b ↦ (b.port.sclOut)) = some false := by
    decide +kernel
  rw [hb] at hport
  simp [hreleased.port_eq] at hport

end MappingRobot
