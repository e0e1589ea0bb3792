import MappingRobot.Library.Stuffing
import MappingRobot.Receive

/-!
# The send format

`send` of `bluetooth_helpers.c` writes a packet to the UART: a START byte, the data bytes with
an ESCAPE byte before each START, END or ESCAPE among them, and an END byte. The waits for the
transmitter to become ready are left out: they decide when a byte is written, not which.

`send_eq` identifies what is written as the stuffed frame of the packet's data, and
`send_selfDelimiting` is what that buys: a reader who knows the escape rule can tell any two
sequences of payloads apart.
-/

namespace MappingRobot

/-- `ESCAPE_BYTE` -/
def escapeByte : Byte := 0x4

/-- The bytes that `send` escapes. -/
def IsSpecial (byte : Byte) : Prop :=
  byte = startByte ∨ byte = endByte ∨ byte = escapeByte

instance : DecidablePred IsSpecial := fun byte ↦
  inferInstanceAs (Decidable (byte = startByte ∨ byte = endByte ∨ byte = escapeByte))

/-- The loop of `send` from index `nextByte` on, with `n` bytes to go: what it writes to
`TXDATA`. -/
def sendLoop (buf : List Byte) (nextByte : ℤ) : ℕ → Option (List Byte)
  | 0 => some []
  | n + 1 => do
    let byte ← loadAt buf nextByte
    let rest ← sendLoop buf (nextByte + 1) n
    some ((if IsSpecial byte then [escapeByte, byte] else [byte]) ++ rest)

/-- `send`: the bytes it writes to `TXDATA`. -/
def send (data : Packet) : Option (List Byte) := do
  let body ← sendLoop data.buf 0 data.len.toNat
  some (startByte :: (body ++ [endByte]))

/-- The frame of a payload. -/
def frame (payload : List Byte) : List Byte :=
  stuffedFrame IsSpecial escapeByte startByte endByte payload

theorem sendLoop_eq (buf : List Byte) :
    ∀ n i : ℕ, i + n ≤ buf.length →
      sendLoop buf i n = some (stuffed IsSpecial escapeByte ((buf.drop i).take n)) := by
  intro n
  induction n with
  | zero => intro i _; simp [sendLoop]
  | succ n ih =>
    intro i hi
    have hload : loadAt buf i = some buf[i] := loadAt_of_lt (by omega)
    have hrest : sendLoop buf ((i : ℤ) + 1) n =
        some (stuffed IsSpecial escapeByte ((buf.drop (i + 1)).take n)) :=
      ih (i + 1) (by omega)
    rw [sendLoop, hload, Option.bind_eq_bind, Option.bind_some, hrest,
      List.drop_eq_getElem_cons (show i < buf.length by omega), List.take_succ_cons, stuffed_cons]
    rfl

/-- `send` writes the frame of the packet's data, if the data lies in the packet's block. -/
theorem send_eq {p : Packet} (hlen : p.len.toNat ≤ p.buf.length) :
    send p = some (frame p.body) := by
  have hloop := sendLoop_eq p.buf p.len.toNat 0 (by omega)
  rw [List.drop_zero] at hloop
  rw [send, Nat.cast_zero.symm, hloop]
  rfl

/-- The packet that holds a payload and nothing else. -/
def Packet.ofPayload (payload : List Byte) : Packet :=
  ⟨payload, payload.length⟩

theorem send_ofPayload (payload : List Byte) :
    send (.ofPayload payload) = some (frame payload) := by
  rw [send_eq (by simp [Packet.ofPayload])]
  simp [Packet.ofPayload, Packet.body]

/-- What `send` writes for a sequence of payloads. -/
def sendAll (payloads : List (List Byte)) : Option (List Byte) :=
  (payloads.mapM fun payload ↦ send (.ofPayload payload)).map List.flatten

theorem sendAll_eq (payloads : List (List Byte)) :
    sendAll payloads = some (payloads.flatMap frame) := by
  have hmap : payloads.mapM (fun payload ↦ send (.ofPayload payload)) =
      some (payloads.map frame) := by
    induction payloads with
    | nil => rfl
    | cons payload payloads ih =>
      rw [List.mapM_cons, send_ofPayload, Option.bind_eq_bind, Option.bind_some, ih]
      rfl
  rw [sendAll, hmap, Option.map_some, List.flatMap_def]

theorem frame_selfDelimiting : SelfDelimiting frame := by
  show SelfDelimiting (stuffedFrame IsSpecial escapeByte startByte endByte)
  exact stuffedFrame_selfDelimiting IsSpecial escapeByte startByte (Or.inr (Or.inl rfl))
    (Or.inr (Or.inr rfl)) (by decide)

/-- **The send format is self-delimiting.** Every sequence of payloads is sent, two sequences
whose frames concatenate to the same bytes are equal, and no frame is a proper prefix of
another. -/
theorem send_selfDelimiting :
    (∀ payloads, (sendAll payloads).isSome) ∧
      (∀ payloads payloads', sendAll payloads = sendAll payloads' → payloads = payloads') ∧
      ∀ payload payload' f f', send (.ofPayload payload) = some f →
        send (.ofPayload payload') = some f' → f <+: f' → f = f' := by
  refine ⟨fun payloads ↦ by simp [sendAll_eq], fun payloads payloads' h ↦ ?_,
    fun payload payload' f f' hf hf' hpre ↦ ?_⟩
  · have : Nontrivial (List Byte) := ⟨[], [startByte], by decide⟩
    rw [sendAll_eq, sendAll_eq, Option.some_inj] at h
    exact frame_selfDelimiting.flatMap_injective h
  · rw [send_ofPayload, Option.some_inj] at hf hf'
    subst hf hf'
    rw [frame_selfDelimiting.eq_of_isPrefix hpre]

/-- Delimiters inside of bodies: `[START]`, `[]` and `[ESCAPE, START]`, `[]` are told apart. -/
theorem send_selfDelimiting_example :
    sendAll [[startByte], []] ≠ sendAll [[escapeByte, startByte], []] := fun h ↦
  absurd (send_selfDelimiting.2.1 _ _ h) (by decide)

/-! ### The header -/

/-- The header that `sendTask` puts before the data of a packet: an id, and the length. The data
is moved up by two bytes within its block. -/
def insertHeader (packetId : Byte) (p : Packet) : Option Packet :=
  if 0 ≤ p.len ∧ p.len + 2 ≤ p.buf.length then
    let moved := p.buf.take 2 ++ p.buf.take p.len.toNat ++ p.buf.drop (p.len.toNat + 2)
    some ⟨(moved.set 0 packetId).set 1 (BitVec.ofInt 8 p.len), p.len + 2⟩
  else
    none

/-- The header goes before the data, and the packet keeps its block. -/
theorem insertHeader_eq (packetId : Byte) {p : Packet} (hnonneg : 0 ≤ p.len)
    (hle : p.len + 2 ≤ p.buf.length) :
    ∃ p', insertHeader packetId p = some p' ∧ p'.buf.length = p.buf.length ∧
      p'.len = p.len + 2 ∧ p'.body = packetId :: BitVec.ofInt 8 p.len :: p.body := by
  obtain ⟨buf, len⟩ := p
  obtain ⟨n, rfl⟩ := Int.eq_ofNat_of_zero_le hnonneg
  obtain ⟨first, second, rest, rfl⟩ : ∃ first second rest, buf = first :: second :: rest := by
    match buf, hle with
    | first :: second :: rest, _ => exact ⟨first, second, rest, rfl⟩
    | [], hle => simp at hle; omega
    | [_], hle => simp at hle; omega
  refine ⟨_, if_pos ⟨hnonneg, hle⟩, ?_, rfl, ?_⟩
  · simp at hle ⊢
    omega
  · have hbody : ((n : ℤ) + 2).toNat = n + 2 := by omega
    simp only [Packet.body, hbody, Int.toNat_natCast]
    simp only [List.length_cons] at hle
    simp only [List.take_succ_cons, List.take_zero, List.cons_append, List.nil_append,
      List.set_cons_zero, List.set_cons_succ, List.cons.injEq, true_and]
    rw [List.take_append_of_le_length (by simp; omega), List.take_take, Nat.min_self]

end MappingRobot
