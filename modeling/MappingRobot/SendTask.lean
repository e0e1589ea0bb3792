import MappingRobot.Library.Repetition
import MappingRobot.SendQueue

/-!
# Ids and repetition

`sendTask` of `bluetooth_helpers.c` puts a header before the data of each packet it takes, an id
and the length, and sends the packet three times. The id counts packets modulo 256. Whoever listens
may miss frames: what the ids are good for is to drop the repetitions, and this works as long as no
255 packets in a row are missed entirely (`ids_survive_loss`).
-/

namespace MappingRobot

open Repetition

/-- `packetId` of `sendTask` before the first packet. -/
def firstPacketId : Byte := 4

/-- One pass through the loop of `sendTask` with the packet it has taken: what each `send`
writes. -/
def sendTaskPass (packetId : Byte) (buf : Packet) : Option (List (List Byte)) := do
  let buf ← insertHeader packetId buf
  let first ← send buf
  let second ← send buf
  let third ← send buf
  some [first, second, third]

/-- The loop of `sendTask` over the packets that `OSQPend` gives it. -/
def sendTask (packetId : Byte) : List Packet → Option (List (List Byte))
  | [] => some []
  | buf :: bufs => do
    let frames ← sendTaskPass packetId buf
    let rest ← sendTask (packetId + 1) bufs
    some (frames ++ rest)

/-- A packet that `sendTask` can put its header into, and whose length fits the length byte. -/
structure Packet.Sendable (p : Packet) : Prop where
  nonneg : 0 ≤ p.len
  le : p.len ≤ 255
  room : p.len + 2 ≤ p.buf.length

/-- The body of the frame of a packet. -/
def headed (packetId : Byte) (p : Packet) : List Byte :=
  packetId :: BitVec.ofInt 8 p.len :: p.body

/-- The body that a listener reads from a frame. -/
def frameBody (f : List Byte) : List Byte :=
  readFrame escapeByte f

/-- The id that a listener reads from a frame. -/
def frameId (f : List Byte) : Option Byte :=
  (frameBody f).head?

/-- The length byte of a packet of at most 255 bytes is its length. -/
theorem Packet.toNat_length (p : Packet) (hnonneg : 0 ≤ p.len) (hle : p.len ≤ 255) :
    ((BitVec.ofInt 8 p.len).toNat : ℤ) = p.len := by
  rw [BitVec.toNat_ofInt, Int.toNat_of_nonneg (Int.emod_nonneg _ (by decide))]
  exact Int.emod_eq_of_lt hnonneg (by omega)

theorem frameBody_frame (body : List Byte) : frameBody (frame body) = body :=
  readFrame_stuffedFrame escapeByte startByte endByte (Or.inr (Or.inr rfl)) body

/-! ### What is sent -/

/-- The three frames of a packet are the same. -/
theorem sendTaskPass_eq (packetId : Byte) {p : Packet} (hp : p.Sendable) :
    sendTaskPass packetId p = some (List.replicate 3 (frame (headed packetId p))) := by
  obtain ⟨p', hinsert, hbuf, hlen, hbody⟩ := insertHeader_eq packetId hp.nonneg hp.room
  have hsend : send p' = some (frame (headed packetId p)) := by
    have := hp.nonneg
    have := hp.room
    rw [send_eq (by omega), hbody]
    rfl
  rw [sendTaskPass]
  simp only [hinsert, hsend, Option.bind_eq_bind, Option.bind_some]
  rfl

/-- Frame `i` is a copy of packet `i / 3`, and the id counts the packets. -/
theorem sendTask_eq (packetId : Byte) {packets : List Packet}
    (hpackets : ∀ p ∈ packets, p.Sendable) :
    ∃ frames, sendTask packetId packets = some frames ∧ frames.length = 3 * packets.length ∧
      ∀ i < frames.length, ∃ p, packets[i / 3]? = some p ∧
        frames[i]? = some (frame (headed (packetId + BitVec.ofNat 8 (i / 3)) p)) := by
  induction packets generalizing packetId with
  | nil => exact ⟨[], rfl, rfl, by simp⟩
  | cons p packets ih =>
    obtain ⟨frames, hframes, hlen, hget⟩ := ih (packetId + 1) fun q hq ↦ hpackets q (by simp [hq])
    refine ⟨List.replicate 3 (frame (headed packetId p)) ++ frames, ?_, ?_, fun i hi ↦ ?_⟩
    · rw [sendTask, sendTaskPass_eq packetId (hpackets p (by simp)), hframes]
      rfl
    · simp only [List.length_append, List.length_replicate, List.length_cons, hlen]
      omega
    · by_cases hfirst : i < 3
      · refine ⟨p, ?_, ?_⟩
        · rw [Nat.div_eq_of_lt hfirst]
          rfl
        · rw [List.getElem?_append_left (by simpa using hfirst),
            List.getElem?_replicate_of_lt hfirst, Nat.div_eq_of_lt hfirst]
          simp
      · rw [List.length_append, List.length_replicate] at hi
        obtain ⟨q, hq, hframe⟩ := hget (i - 3) (by omega)
        have hdiv : i / 3 = (i - 3) / 3 + 1 := by omega
        refine ⟨q, ?_, ?_⟩
        · rw [hdiv, List.getElem?_cons_succ, hq]
        · rw [List.getElem?_append_right (by simp; omega), List.length_replicate, hframe, hdiv]
          congr 3
          rw [BitVec.ofNat_add, BitVec.add_comm (BitVec.ofNat 8 _), ← BitVec.add_assoc]
          rfl

/-! ### What is heard -/

/-- The frames that are not lost, each with its number among those sent. -/
def survivors (lost : ℕ → Bool) (frames : List (List Byte)) : List (List Byte × ℕ) :=
  frames.zipIdx.filter fun f ↦ !lost f.2

theorem map_snd_survivors {lost : ℕ → Bool} {frames : List (List Byte)} {n : ℕ}
    (hlen : frames.length = 3 * n) : (survivors lost frames).map Prod.snd = heard 3 n lost := by
  have hrange : List.range (3 * n) = frames.zipIdx.map Prod.snd := by
    rw [List.zipIdx_map_snd, hlen, List.range_eq_range']
  rw [heard, hrange, List.filter_map]
  rfl

theorem getElem?_of_mem_survivors {lost : ℕ → Bool} {frames : List (List Byte)}
    {f : List Byte × ℕ} (h : f ∈ survivors lost frames) : frames[f.2]? = some f.1 :=
  List.mem_zipIdx_iff_getElem?.1 (List.mem_of_mem_filter h)

/-- Ids tell packets apart that are less than 256 apart. -/
theorem packetId_inj {packetId : Byte} {k k' : ℕ} (hle : k ≤ k') (hreach : k' ≤ k + 255)
    (h : packetId + BitVec.ofNat 8 k = packetId + BitVec.ofNat 8 k') : k = k' := by
  have hsame := congrArg BitVec.toNat (BitVec.add_right_inj packetId |>.1 h)
  rw [BitVec.toNat_ofNat, BitVec.toNat_ofNat] at hsame
  omega

/-- **Packet ids survive repetition and loss.** Whatever frames are lost, if no 255 packets in a
row lose all three of theirs: neighbours among the frames heard have the same id exactly when they
are copies of the same packet, each has the id, the length and the data of its packet for a body,
and the first frames of the runs of equal ids are copies of the packets that come through, each
once and in order. -/
theorem ids_survive_loss {packets : List Packet} (hpackets : ∀ p ∈ packets, p.Sendable)
    {lost : ℕ → Bool} (hloss : NoBlackout 3 packets.length 255 lost) :
    ∃ frames, sendTask firstPacketId packets = some frames ∧
      (survivors lost frames).IsChain
        (fun f g ↦ frameId f.1 = frameId g.1 ↔ f.2 / 3 = g.2 / 3) ∧
      (∀ f ∈ survivors lost frames, ∃ p packetId length, packets[f.2 / 3]? = some p ∧
        frameBody f.1 = packetId :: length :: p.body ∧ frameId f.1 = some packetId ∧
        (length.toNat : ℤ) = p.len ∧ p.body.length = length.toNat) ∧
      (runHeads (fun f ↦ frameId f.1) (survivors lost frames)).map (fun f ↦ f.2 / 3) =
        (List.range packets.length).filter (ComesThrough 3 lost ·) := by
  obtain ⟨frames, hframes, hlen, hget⟩ := sendTask_eq firstPacketId hpackets
  have hsent : ∀ f ∈ survivors lost frames, ∃ p, packets[f.2 / 3]? = some p ∧
      frameBody f.1 = headed (firstPacketId + BitVec.ofNat 8 (f.2 / 3)) p := by
    intro f hf
    have hf := getElem?_of_mem_survivors hf
    obtain ⟨p, hp, hframe⟩ := hget f.2 (List.getElem?_eq_some_iff.1 hf).1
    exact ⟨p, hp, by rw [Option.some.inj (hf.symm.trans hframe), frameBody_frame]⟩
  have hid : ∀ f ∈ survivors lost frames,
      frameId f.1 = some (firstPacketId + BitVec.ofNat 8 (f.2 / 3)) := by
    intro f hf
    obtain ⟨p, -, hbody⟩ := hsent f hf
    rw [frameId, hbody]
    rfl
  have hchain : (survivors lost frames).IsChain
      (fun f g ↦ frameId f.1 = frameId g.1 ↔ f.2 / 3 = g.2 / 3) := by
    have hheard := isChain_heard_label
      (fun k ↦ (some (firstPacketId + BitVec.ofNat 8 k) : Option Byte))
      (by decide) hloss fun k k' hle hreach h ↦ packetId_inj hle hreach (Option.some.inj h)
    rw [← map_snd_survivors hlen, List.isChain_map] at hheard
    refine hheard.imp_of_mem_imp fun f g hf hg hfg ↦ ?_
    rw [hid f hf, hid g hg]
    exact hfg
  obtain ⟨hsorted, hdedup⟩ := dedup_heard packets.length lost (show 0 < 3 by decide)
  have hitems : (survivors lost frames).map (fun f ↦ f.2 / 3) =
      (heard 3 packets.length lost).map (· / 3) := by
    rw [← map_snd_survivors hlen, List.map_map]
    rfl
  refine ⟨frames, hframes, hchain, fun f hf ↦ ?_, ?_⟩
  · obtain ⟨p, hp, hbody⟩ := hsent f hf
    obtain ⟨hnonneg, hle, hroom⟩ := hpackets p (List.mem_of_getElem? hp)
    have hlength := p.toNat_length hnonneg hle
    refine ⟨p, _, _, hp, hbody, hid f hf, hlength, ?_⟩
    rw [Packet.body, List.length_take]
    omega
  · rw [map_runHeads hchain (hitems ▸ hsorted), hitems, hdedup]

/-- Three hundred packets, of each of which the first copy is lost: they are all heard. -/
theorem ids_survive_loss_wrap :
    ∃ frames, sendTask firstPacketId (List.replicate 300 ⟨[7, 8, 0, 0], 2⟩) = some frames ∧
      (runHeads (fun f ↦ frameId f.1) (survivors (fun i ↦ i % 3 = 0) frames)).map
        (fun f ↦ f.2 / 3) = List.range 300 := by
  have hthrough : ∀ item, ComesThrough 3 (fun i ↦ i % 3 = 0) item :=
    fun item ↦ ⟨1, by decide, by simp⟩
  have hpackets : ∀ p ∈ List.replicate 300 (⟨[7, 8, 0, 0], 2⟩ : Packet), p.Sendable := by
    intro p hp
    obtain rfl := List.eq_of_mem_replicate hp
    exact ⟨by decide, by decide, by decide⟩
  have hloss : NoBlackout 3 (List.replicate 300 (⟨[7, 8, 0, 0], 2⟩ : Packet)).length 255
      (fun i ↦ i % 3 = 0) := fun item _ ↦ ⟨item, le_rfl, by omega, hthrough item⟩
  obtain ⟨frames, hframes, -, -, hheads⟩ := ids_survive_loss hpackets hloss
  refine ⟨frames, hframes, hheads.trans ?_⟩
  rw [List.length_replicate, List.filter_eq_self]
  exact fun item _ ↦ decide_eq_true (hthrough item)

/-! ### The task in the system -/

/-- One packet more. -/
theorem sendTask_concat {packetId : Byte} {packets : List Packet} {p : Packet}
    {frames last : List (List Byte)} (h : sendTask packetId packets = some frames)
    (hlast : sendTaskPass (packetId + BitVec.ofNat 8 packets.length) p = some last) :
    sendTask packetId (packets ++ [p]) = some (frames ++ last) := by
  induction packets generalizing packetId frames with
  | nil =>
    obtain rfl : frames = [] := by simpa [sendTask, eq_comm] using h
    rw [List.length_nil, BitVec.add_zero] at hlast
    simp [sendTask, hlast]
  | cons q packets ih =>
    obtain ⟨first, hfirst, h⟩ := Option.bind_eq_some_iff.1 h
    obtain ⟨rest, hrest, h⟩ := Option.bind_eq_some_iff.1 h
    obtain rfl : first ++ rest = frames := Option.some.inj h
    have hcount : packetId + BitVec.ofNat 8 (q :: packets).length =
        packetId + 1 + BitVec.ofNat 8 packets.length := by
      rw [List.length_cons, BitVec.ofNat_add, BitVec.add_comm (BitVec.ofNat 8 _),
        ← BitVec.add_assoc]
      rfl
    rw [hcount] at hlast
    rw [List.cons_append, sendTask, hfirst, ih hrest hlast, List.append_assoc]
    rfl

/-- What the system writes to the UART for the readings of `task1` is what the loop of `sendTask`
sends for the packets that hold them. -/
theorem sendTask_readings {σ : Type} (S : Slave σ) (slave : σ) {packets : List Packet}
    (hpackets : ∀ p ∈ packets, p.len = 2 ∧ 4 ≤ p.buf.length)
    (hreadings : packets.map Packet.body = readings S slave packets.length) :
    ∃ frames, sendTask firstPacketId packets = some frames ∧
      frames.flatten = reports S slave packets.length := by
  induction packets using List.reverseRecOn with
  | nil => exact ⟨[], rfl, rfl⟩
  | append_singleton packets p ih =>
    rw [List.length_append, List.length_singleton, readings_succ, List.map_append] at hreadings
    obtain ⟨hbefore, hbody⟩ := List.append_inj' hreadings rfl
    obtain ⟨frames, hframes, hflat⟩ := ih (fun q hq ↦ hpackets q (by simp [hq])) hbefore
    obtain ⟨hlen, hroom⟩ := hpackets p (by simp)
    have hlast := sendTaskPass_eq (firstPacketId + BitVec.ofNat 8 packets.length) (p := p)
      ⟨by omega, by omega, by omega⟩
    have hheaded : headed (firstPacketId + BitVec.ofNat 8 packets.length) p =
        reportBody S slave packets.length := by
      rw [headed, reportBody_eq, List.singleton_inj.1 hbody, hlen, BitVec.ofNat_add]
      rfl
    refine ⟨_, sendTask_concat hframes hlast, ?_⟩
    rw [List.flatten_append, hflat, hheaded, List.length_append, List.length_singleton,
      reports_succ]
    rfl

end MappingRobot
