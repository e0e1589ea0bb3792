import MappingRobot.Receive

/-!
# The motors and the command packets

`handle_bluetooth_input` of `main.c` turns a command letter, in either case, into a word for the
DC driver; any other byte leaves the motors alone. `task2` applies it to the bytes of a packet
in order. `motorWord` says which word, if any, a byte stands for, and
`SoundPacket.handlePacket_eq` that a packet writes the words of its body.
-/

namespace MappingRobot

/-- `MOTORA_CW` -/
def motoraCw : BitVec 32 := 0x2

/-- `MOTORA_CCW` -/
def motoraCcw : BitVec 32 := 0x3

/-- `MOTORB_CW` -/
def motorbCw : BitVec 32 := 0x8

/-- `MOTORB_CCW` -/
def motorbCcw : BitVec 32 := 0xC

/-- `MOTORA_STOP` -/
def motoraStop : BitVec 32 := 0

/-- `MOTORB_STOP` -/
def motorbStop : BitVec 32 := 0

/-- `BT_CMD_FORWARD`, `'f'` -/
def btCmdForward : Byte := 0x66

/-- `BT_CMD_BACKWARD`, `'b'` -/
def btCmdBackward : Byte := 0x62

/-- `BT_CMD_RIGHT`, `'r'` -/
def btCmdRight : Byte := 0x72

/-- `BT_CMD_LEFT`, `'l'` -/
def btCmdLeft : Byte := 0x6c

/-- `BT_CMD_STOP`, `'s'` -/
def btCmdStop : Byte := 0x73

/-- `BT_CMD_TIMEOUT`, in clock ticks -/
def btCmdTimeout : ℕ := 1000

/-- The globals `motora` and `motorb`. -/
structure Motors where
  motora : BitVec 32
  motorb : BitVec 32
deriving DecidableEq

/-- Set both motors, and write them to the DC driver. -/
def drive (motora motorb : BitVec 32) : Motors × Option (BitVec 32) :=
  (⟨motora, motorb⟩, some (motora ||| motorb))

/-- `handle_bluetooth_input`: the motors, and the word written to the DC driver, if any. -/
def handleBluetoothInput (c : Byte) (m : Motors) : Motors × Option (BitVec 32) :=
  let c := c ||| 0x20
  if c = btCmdForward then drive motoraCw motorbCw
  else if c = btCmdBackward then drive motoraCcw motorbCcw
  else if c = btCmdLeft then drive motoraCw motorbCcw
  else if c = btCmdRight then drive motoraCcw motorbCw
  else if c = btCmdStop then drive motoraStop motorbStop
  else (m, none)

/-- The loop of `task2` over the bytes of a packet from index `i` on, with `n` rounds to go: the
motors, and the words written to the DC driver. -/
def handleLoop (slice : Packet) (i : ℕ) (m : Motors) : ℕ → Option (Motors × List (BitVec 32))
  | 0 => some (m, [])
  | n + 1 => do
    let c ← loadAt slice.buf i
    let (m, word) := handleBluetoothInput c m
    let (m, words) ← handleLoop slice (i + 1) m n
    some (m, word.toList ++ words)

/-- What `task2` does with a packet. -/
def handlePacket (slice : Packet) (m : Motors) : Option (Motors × List (BitVec 32)) :=
  handleLoop slice 0 m slice.len.toNat

/-! ### Words of bytes and of packets -/

/-- The word that a byte stands for, if it is a command letter. -/
def motorWord (c : Byte) : Option (BitVec 32) :=
  if c ||| 0x20 = btCmdForward then some 0xA
  else if c ||| 0x20 = btCmdBackward then some 0xF
  else if c ||| 0x20 = btCmdLeft then some 0xE
  else if c ||| 0x20 = btCmdRight then some 0xB
  else if c ||| 0x20 = btCmdStop then some 0
  else none

/-- A byte is handled by writing its word; the globals do not matter. -/
theorem handleBluetoothInput_snd (c : Byte) (m : Motors) :
    (handleBluetoothInput c m).2 = motorWord c := by
  simp only [handleBluetoothInput, motorWord]
  split_ifs <;> rfl

@[simp]
theorem motorWord_btCmdStop : motorWord btCmdStop = some 0 := by
  decide

/-- A packet whose length lies within its block. -/
structure SoundPacket extends Packet where
  len_nonneg : 0 ≤ len
  len_le : len ≤ buf.length

/-- The packet that holds a payload and nothing else is sound. -/
def SoundPacket.ofPayload (payload : List Byte) : SoundPacket where
  buf := payload
  len := payload.length
  len_nonneg := by omega
  len_le := le_refl _

/-- The loop of `task2` writes the words of the bytes it goes through. -/
theorem handleLoop_eq (slice : Packet) (n i : ℕ) (m : Motors) (h : i + n ≤ slice.buf.length) :
    ∃ m', handleLoop slice i m n =
      some (m', ((slice.buf.drop i).take n).filterMap motorWord) := by
  induction n generalizing i m with
  | zero => exact ⟨m, by simp [handleLoop]⟩
  | succ n ih =>
    have hload : loadAt slice.buf i = some slice.buf[i] := loadAt_of_lt (by omega)
    obtain ⟨m', hrest⟩ := ih (i + 1) (handleBluetoothInput slice.buf[i] m).1 (by omega)
    refine ⟨m', ?_⟩
    rw [handleLoop, hload, List.drop_eq_getElem_cons (show i < slice.buf.length by omega),
      List.take_succ_cons, List.filterMap_cons, ← handleBluetoothInput_snd slice.buf[i] m]
    simp only [Option.bind_eq_bind, Option.bind_some, hrest]
    cases (handleBluetoothInput slice.buf[i] m).2 <;> rfl

/-- **A packet** writes the words of its body, in order. -/
theorem SoundPacket.handlePacket_eq (p : SoundPacket) (m : Motors) :
    ∃ m', handlePacket p.toPacket m = some (m', p.body.filterMap motorWord) := by
  have hlen := p.len_le
  obtain ⟨m', h⟩ := handleLoop_eq p.toPacket p.len.toNat 0 m (by omega)
  exact ⟨m', by rw [handlePacket, h, List.drop_zero, Packet.body]⟩

end MappingRobot
