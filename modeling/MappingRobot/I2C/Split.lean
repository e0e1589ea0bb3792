import MappingRobot.I2C.Registers

/-!
# Transfers in parts

`I2C_WriteMore` and `I2C_ReadMore` continue a transfer that `I2C_WriteToDevice` or
`I2C_ReadFromDevice` has begun. `transfer_split` says that a transfer in two parts is the transfer
of all its bytes: the port operations, the result and what is stored are the same, for every slave
and at every point, as long as the first part of a read does not end it and the second is not empty.

The loops are those of the register transfers. Here a read is modelled with the buffer it stores to,
since it is the caller who says where the second part of it goes.
-/

namespace MappingRobot

open Function (update)

variable {σ : Type} (S : Slave σ)

/-! ### The source -/

/-- `I2C_WriteToDevice` -/
def i2cWriteToDevice (deviceAddr : Byte) (data : List Byte) (b : Bus σ) :
    Option (Bool × Bus σ) := do
  let (ok, b) ← i2cSelectAddress S deviceAddr b
  if !ok then some (false, b) else
  i2cWriteLoop S data b

/-- `I2C_WriteMore` -/
def i2cWriteMore (data : List Byte) (b : Bus σ) : Option (Bool × Bus σ) :=
  i2cWriteLoop S data b

/-- The loop of `I2C_ReadFromDevice` and `I2C_ReadMore`, at round `i` with `n` rounds to go. -/
def i2cReadRounds (len : ℕ) (endRead : Bool) :
    ℕ → ℕ → ℕ → (ℕ → Byte) → Bus σ → Option ((ℕ → Byte) × Bus σ)
  | 0, _, _, memory, b => some (memory, b)
  | n + 1, i, pBuf, memory, b =>
    if i = len - 1 then do
      let (data, b) ← i2cRead S (!endRead) b
      i2cReadRounds len endRead n (i + 1) pBuf (update memory pBuf data) b
    else do
      let (data, b) ← i2cRead S true b
      i2cReadRounds len endRead n (i + 1) (pBuf + 1) (update memory pBuf data) b

/-- `I2C_ReadFromDevice` -/
def i2cReadFromDevice (deviceAddr : Byte) (pBuf len : ℕ) (endRead : Bool) (memory : ℕ → Byte)
    (b : Bus σ) : Option (Bool × (ℕ → Byte) × Bus σ) := do
  let (ok, b) ← i2cSelectAddress S (deviceAddr ||| 1) b
  if !ok then some (false, memory, b) else
  let (memory, b) ← i2cReadRounds S len endRead len 0 pBuf memory b
  some (true, memory, b)

/-- `I2C_ReadMore` -/
def i2cReadMore (pBuf len : ℕ) (endRead : Bool) (memory : ℕ → Byte) (b : Bus σ) :
    Option ((ℕ → Byte) × Bus σ) :=
  i2cReadRounds S len endRead len 0 pBuf memory b

/-! ### In two parts -/

/-- `I2C_WriteToDevice`, and `I2C_WriteMore` if it returns TRUE. -/
def writeInParts (deviceAddr : Byte) (data more : List Byte) (b : Bus σ) :
    Option (Bool × Bus σ) := do
  let (ok, b) ← i2cWriteToDevice S deviceAddr data b
  if ok then i2cWriteMore S more b else some (false, b)

/-- `I2C_ReadFromDevice` without an end, and `I2C_ReadMore` if it returns TRUE. -/
def readInParts (deviceAddr : Byte) (pBuf len more : ℕ) (endRead : Bool) (memory : ℕ → Byte)
    (b : Bus σ) : Option (Bool × (ℕ → Byte) × Bus σ) := do
  let (ok, memory, b) ← i2cReadFromDevice S deviceAddr pBuf len false memory b
  if ok then
    let (memory, b) ← i2cReadMore S (pBuf + len) more endRead memory b
    some (true, memory, b)
  else
    some (false, memory, b)

variable {S}

/-- The data that is written may be cut anywhere. -/
theorem i2cWriteLoop_append (data more : List Byte) (b : Bus σ) :
    i2cWriteLoop S (data ++ more) b = (i2cWriteLoop S data b).bind fun r ↦
      if r.1 then i2cWriteLoop S more r.2 else some (false, r.2) := by
  induction data generalizing b with
  | nil => rfl
  | cons byte data ih =>
    obtain ⟨b₁, hwrite, -⟩ := i2cWrite_spec (S := S) byte b
    rw [List.cons_append, i2cWriteLoop, i2cWriteLoop, hwrite]
    cases hack : (S.bytewise.write b.slave byte).1 with
    | true => exact ih b₁
    | false => rfl

/-- **A write in two parts** is the write of all the data. -/
theorem i2cWriteToDevice_append (deviceAddr : Byte) (data more : List Byte) (b : Bus σ) :
    ∃ r, i2cWriteToDevice S deviceAddr (data ++ more) b = some r ∧
      writeInParts S deviceAddr data more b = some r := by
  obtain ⟨b₁, hwrite, -, hscl⟩ := i2cWrite_spec (S := S) deviceAddr b
  rw [writeInParts, i2cWriteToDevice, i2cWriteToDevice, i2cSelectAddress, hwrite]
  cases hack : (S.bytewise.write b.slave deviceAddr).1 with
  | true =>
    obtain ⟨ok, b', hloop, -⟩ := i2cWriteLoop_spec (S := S) (data ++ more) b₁ hscl
    exact ⟨(ok, b'), hloop, (i2cWriteLoop_append data more b₁).symm.trans hloop⟩
  | false => exact ⟨(false, b₁), rfl, rfl⟩

/-- A loop of reads returns, with as many bytes as it says. -/
theorem exists_i2cReadLoop (endRead : Bool) (n : ℕ) (b : Bus σ) :
    ∃ bytes b', i2cReadLoop S endRead n b = some (bytes, b') ∧ bytes.length = n := by
  induction n generalizing b with
  | zero => exact ⟨[], b, rfl, rfl⟩
  | succ n ih =>
    obtain ⟨b₁, hread, -⟩ := i2cRead_spec (S := S) (if n = 0 then !endRead else true) b
    obtain ⟨bytes, b', hloop, hlength⟩ := ih b₁
    rw [i2cReadLoop, hread]
    simp only [Option.bind_eq_bind, Option.bind_some, hloop]
    exact ⟨_, b', rfl, congrArg Nat.succ hlength⟩

/-- The bytes that are read may be cut anywhere but after the last one. -/
theorem i2cReadLoop_add (endRead : Bool) {len more : ℕ} (hmore : 1 ≤ more) {b b₁ b' : Bus σ}
    {bytes bytes' : List Byte} (hfirst : i2cReadLoop S false len b = some (bytes, b₁))
    (hsecond : i2cReadLoop S endRead more b₁ = some (bytes', b')) :
    i2cReadLoop S endRead (len + more) b = some (bytes ++ bytes', b') := by
  induction len generalizing b bytes with
  | zero =>
    obtain ⟨rfl, rfl⟩ := Prod.mk.inj (Option.some.inj hfirst)
    rw [Nat.zero_add]
    exact hsecond
  | succ len ih =>
    -- no byte of the first part is the last one of the transfer
    have hack : (if len + more = 0 then !endRead else true) = true := if_neg (by omega)
    have hack' : (if len = 0 then !false else true) = true := by split_ifs <;> rfl
    obtain ⟨b₂, hread, -⟩ := i2cRead_spec (S := S) true b
    obtain ⟨rest, b₁', hrest, -⟩ := exists_i2cReadLoop (S := S) false len b₂
    rw [i2cReadLoop, hack', hread] at hfirst
    simp only [Option.bind_eq_bind, Option.bind_some, hrest] at hfirst
    obtain ⟨rfl, rfl⟩ := Prod.mk.inj (Option.some.inj hfirst)
    rw [Nat.succ_add, i2cReadLoop, hack, hread]
    simp only [Option.bind_eq_bind, Option.bind_some, ih hrest]
    rfl

/-! ### What is stored -/

/-- Bytes stored from an address on. -/
def stored (memory : ℕ → Byte) : ℕ → List Byte → ℕ → Byte
  | _, [] => memory
  | p, byte :: bytes => stored (update memory p byte) (p + 1) bytes

theorem stored_append (memory : ℕ → Byte) (p : ℕ) (bytes more : List Byte) :
    stored memory p (bytes ++ more) = stored (stored memory p bytes) (p + bytes.length) more := by
  induction bytes generalizing memory p with
  | nil => rfl
  | cons byte bytes ih =>
    rw [List.cons_append, stored, ih, Nat.add_assoc, Nat.add_comm 1]
    rfl

/-- The rounds to go store the bytes that the loop reads. -/
theorem i2cReadRounds_eq (endRead : Bool) {len i n : ℕ} (hlen : i + n = len) (pBuf : ℕ)
    (memory : ℕ → Byte) (b : Bus σ) :
    i2cReadRounds S len endRead n i pBuf memory b =
      (i2cReadLoop S endRead n b).map fun r ↦ (stored memory pBuf r.1, r.2) := by
  induction n generalizing i pBuf memory b with
  | zero => rfl
  | succ n ih =>
    rw [i2cReadRounds, i2cReadLoop]
    by_cases hlast : n = 0
    · subst hlast
      obtain ⟨b₁, hread, -⟩ := i2cRead_spec (S := S) (!endRead) b
      rw [if_pos (show i = len - 1 by omega), if_pos rfl, hread]
      rfl
    · obtain ⟨b₁, hread, -⟩ := i2cRead_spec (S := S) true b
      obtain ⟨bytes, b', hloop, -⟩ := exists_i2cReadLoop (S := S) endRead n b₁
      rw [if_neg (show i ≠ len - 1 by omega), if_neg hlast, hread]
      simp only [Option.bind_eq_bind, Option.bind_some, ih (show i + 1 + n = len by omega), hloop]
      rfl

/-- **A read in two parts** is the read of all the bytes. -/
theorem i2cReadFromDevice_add (deviceAddr : Byte) (pBuf len : ℕ) {more : ℕ} (hmore : 1 ≤ more)
    (endRead : Bool) (memory : ℕ → Byte) (b : Bus σ) :
    ∃ r, i2cReadFromDevice S deviceAddr pBuf (len + more) endRead memory b = some r ∧
      readInParts S deviceAddr pBuf len more endRead memory b = some r := by
  obtain ⟨b₁, hwrite, -⟩ := i2cWrite_spec (S := S) (deviceAddr ||| 1) b
  rw [readInParts, i2cReadFromDevice, i2cReadFromDevice, i2cSelectAddress, hwrite]
  cases hack : (S.bytewise.write b.slave (deviceAddr ||| 1)).1 with
  | true =>
    obtain ⟨bytes, b₂, hfirst, hlength⟩ := exists_i2cReadLoop (S := S) false len b₁
    obtain ⟨bytes', b', hsecond, -⟩ := exists_i2cReadLoop (S := S) endRead more b₂
    refine ⟨(true, stored memory pBuf (bytes ++ bytes'), b'), ?_, ?_⟩
    · simp only [Option.bind_eq_bind, Option.bind_some, Bool.not_true, Bool.false_eq_true, if_false,
        i2cReadRounds_eq endRead (Nat.zero_add _), i2cReadLoop_add endRead hmore hfirst hsecond]
      rfl
    · simp only [Option.bind_eq_bind, Option.bind_some, Bool.not_true, Bool.false_eq_true, if_false,
        i2cReadMore, i2cReadRounds_eq endRead (Nat.zero_add _),
        i2cReadRounds_eq false (Nat.zero_add _), hfirst, Option.map_some, if_true, hsecond,
        stored_append, hlength]
  | false => exact ⟨(false, memory, b₁), rfl, rfl⟩

/-- **Splitting a transfer changes nothing.** The slave is watched, so that equal results are equal
sequences of port operations too. -/
theorem transfer_split (S : Slave σ) (deviceAddr : Byte) (b : Bus (σ × List PortOp)) :
    (∀ (pBuf len more : ℕ) (endRead : Bool) (memory : ℕ → Byte), 1 ≤ more →
      ∃ r, i2cReadFromDevice S.recorded deviceAddr pBuf (len + more) endRead memory b = some r ∧
        readInParts S.recorded deviceAddr pBuf len more endRead memory b = some r) ∧
      ∀ data more : List Byte,
        ∃ r, i2cWriteToDevice S.recorded deviceAddr (data ++ more) b = some r ∧
          writeInParts S.recorded deviceAddr data more b = some r := by
  exact ⟨fun pBuf len more endRead memory hmore ↦
    i2cReadFromDevice_add deviceAddr pBuf len hmore endRead memory b, fun data more ↦
    i2cWriteToDevice_append deviceAddr data more b⟩

theorem transfer_split_alternating :
    (∃ r, i2cReadFromDevice Slave.alternating.recorded 0xc4 0 (2 + 1) true (fun _ ↦ 0)
          (.reset (false, [])) = some r ∧
        readInParts Slave.alternating.recorded 0xc4 0 2 1 true (fun _ ↦ 0) (.reset (false, [])) =
          some r) ∧
      ∃ r, i2cWriteToDevice Slave.alternating.recorded 0xc4 ([0x01] ++ [0x02])
          (.reset (false, [])) = some r ∧
        writeInParts Slave.alternating.recorded 0xc4 [0x01] [0x02] (.reset (false, [])) = some r :=
  (transfer_split Slave.alternating 0xc4 (.reset (false, []))).imp
    (fun hread ↦ hread 0 2 1 true (fun _ ↦ 0) (by decide)) fun hwrite ↦ hwrite [0x01] [0x02]

end MappingRobot
