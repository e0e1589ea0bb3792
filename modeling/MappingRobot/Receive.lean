import MappingRobot.Library.Delimited
import MappingRobot.PacketBuffer

/-!
# The receive task

`receiveTask` of `bluetooth_helpers.c` takes bytes from `byteQueue` one by one and posts one
packet for each frame. `takeByte` is one pass through its loop up to the point where an END
byte makes it allocate a packet, and `finishPacket` fills the packet; the concurrent system
takes them as separate steps, and `receiveByte` composes them for the task on its own.

The state after a stream is determined by the stream's last-start-before-stop reading
(`Delimited.openBody`, `Delimited.bodies`): the buffer holds the open body, the packets posted
are the bodies so far. `takeByte_of_tracks` says this of one byte and `receiveTask_tracks` of a
whole stream. Both stop short of the byte that `pushChar` stores outside of its array: from
there on the buffer is `none`.
-/

namespace MappingRobot

open Delimited

/-- `START_BYTE` -/
def startByte : Byte := 0x2

/-- `END_BYTE` -/
def endByte : Byte := 0x3

/-- `OS_NO_ERR` -/
def osNoErr : BitVec 8 := 0

theorem startByte_ne_endByte : startByte ≠ endByte := by decide

/-- The content of a posted `LenBuffer`: its data block and its length. -/
structure Packet where
  /-- The bytes of the data block. -/
  buf : List Byte
  /-- The number of them that are data. -/
  len : ℤ
deriving DecidableEq

/-- The data bytes of a packet. -/
def Packet.body (p : Packet) : List Byte :=
  p.buf.take p.len.toNat

/-- What a pass through the loop of `receiveTask` comes to with its byte. -/
inductive Taken
  /-- The byte has been dealt with. -/
  | nextByte (pb : PacketBuffer)
  /-- The byte ended an open frame: a packet is to be allocated. -/
  | endOfFrame

/-- One pass through the loop of `receiveTask`, up to the first `malloc`. The result of
`pushChar` is not looked at. -/
def takeByte (err : BitVec 8) (byte : Byte) (pb : PacketBuffer) : Option Taken :=
  if err ≠ osNoErr then
    some (.nextByte pb)
  else if byte = startByte then
    some (.nextByte { pb.clear with isStarted := true })
  else if byte = endByte then
    if pb.isStarted then some .endOfFrame else some (.nextByte pb)
  else if pb.isStarted then
    (pb.pushChar byte).map fun r ↦ .nextByte r.2
  else
    some (.nextByte pb)

/-- Filling an allocated packet: the block is cleared, the buffer is read into it, and the frame
is closed. -/
def finishPacket (pb : PacketBuffer) : Option (PacketBuffer × Packet) := do
  let (len, buf) ← pb.mRead (List.replicate bufSize 0)
  some ({ pb with isStarted := false }, ⟨buf, len⟩)

/-- One pass through the loop of `receiveTask`, with the packet it posts. -/
def receiveByte (err : BitVec 8) (byte : Byte) (pb : PacketBuffer) :
    Option (PacketBuffer × Option Packet) := do
  match ← takeByte err byte pb with
  | .nextByte pb => some (pb, none)
  | .endOfFrame => (finishPacket pb).map fun r ↦ (r.1, some r.2)

/-- The receive task between two bytes: its buffer, and what it has posted to `receiveQueue`.
The buffer is `none` once an access has gone outside of its array. -/
structure Receiver where
  pb : Option PacketBuffer
  posted : List Packet
deriving DecidableEq

/-- The task takes one more byte from `byteQueue`. -/
def Receiver.take (r : Receiver) (byte : Byte) : Receiver :=
  match r.pb with
  | none => r
  | some pb =>
    match receiveByte osNoErr byte pb with
    | none => { r with pb := none }
    | some (pb, packet) => ⟨some pb, r.posted ++ packet.toList⟩

/-- The task after it has taken `stream`, started from `init`. -/
def receiveTask (stream : List Byte) : Receiver :=
  stream.foldl Receiver.take ⟨some .init, []⟩

@[simp]
theorem receiveTask_nil : receiveTask [] = ⟨some .init, []⟩ :=
  rfl

theorem receiveTask_snoc (stream : List Byte) (byte : Byte) :
    receiveTask (stream ++ [byte]) = (receiveTask stream).take byte := by
  rw [receiveTask, List.foldl_append]
  rfl

theorem eq_endByte_of_endOfFrame {err byte : Byte} {pb : PacketBuffer}
    (h : takeByte err byte pb = some .endOfFrame) : byte = endByte := by
  unfold takeByte at h
  split_ifs at h <;> simp_all

/-- A byte that ends no frame posts nothing. -/
theorem Receiver.take_of_nextByte {pb pb' : PacketBuffer} {byte : Byte} (posted : List Packet)
    (h : takeByte osNoErr byte pb = some (.nextByte pb')) :
    Receiver.take ⟨some pb, posted⟩ byte = ⟨some pb', posted⟩ := by
  simp [Receiver.take, receiveByte, h]

/-- A byte that ends a frame posts one packet. -/
theorem Receiver.take_of_endOfFrame {pb pb' : PacketBuffer} {byte : Byte} {packet : Packet}
    (posted : List Packet) (h : takeByte osNoErr byte pb = some .endOfFrame)
    (hfinish : finishPacket pb = some (pb', packet)) :
    Receiver.take ⟨some pb, posted⟩ byte = ⟨some pb', posted ++ [packet]⟩ := by
  simp [Receiver.take, receiveByte, h, hfinish]

/-! ### One byte -/

/-- The buffer reflects the open body of the stream taken so far. -/
def Tracks (pb : PacketBuffer) : Option (List Byte) → Prop
  | none => pb.isStarted = false ∧ ∃ body, pb.Holds body
  | some body => pb.isStarted = true ∧ pb.Holds body

theorem Tracks.inBounds {pb : PacketBuffer} :
    ∀ {frame : Option (List Byte)}, Tracks pb frame → pb.InBounds
  | none, ⟨_, _, h⟩ => h.inBounds
  | some _, ⟨_, h⟩ => h.inBounds

theorem tracks_init : Tracks .init none :=
  ⟨rfl, [], PacketBuffer.holds_init⟩

theorem Tracks.isStarted_eq {pb : PacketBuffer} :
    ∀ {frame : Option (List Byte)}, Tracks pb frame → pb.isStarted = frame.isSome
  | none, h => h.1
  | some _, h => h.1

/-- Taking one byte, in terms of the stream: an END byte of an open frame asks for a packet,
every other byte leaves the buffer tracking the longer stream, and the one exception is a byte
for a frame that fills the buffer. -/
theorem takeByte_of_tracks {pb : PacketBuffer} {stream : List Byte}
    (h : Tracks pb (openBody startByte endByte stream)) (byte : Byte) :
    (byte = endByte ∧ (openBody startByte endByte stream).isSome ∧
      takeByte osNoErr byte pb = some .endOfFrame) ∨
    (∃ pb', takeByte osNoErr byte pb = some (.nextByte pb') ∧
      Tracks pb' (openBody startByte endByte (stream ++ [byte])) ∧
      bodies startByte endByte (stream ++ [byte]) = bodies startByte endByte stream) ∨
    (byte ≠ startByte ∧ byte ≠ endByte ∧ takeByte osNoErr byte pb = none ∧
      ∃ body, openBody startByte endByte stream = some body ∧ body.length = bufSize) := by
  rcases eq_or_ne byte startByte with rfl | hstart
  · refine Or.inr (Or.inl ⟨{ pb.clear with isStarted := true }, ?_, ?_, ?_⟩)
    · simp [takeByte]
    · rw [openBody_snoc_start startByte_ne_endByte]
      exact ⟨rfl, rfl, rfl, rfl, by simp, by simp⟩
    · exact bodies_snoc_of_ne startByte_ne_endByte stream
  rcases eq_or_ne byte endByte with rfl | hend
  · rcases hframe : openBody startByte endByte stream with - | body
    · -- an END outside of a frame is ignored
      rw [hframe] at h
      refine Or.inr (Or.inl ⟨pb, ?_, ?_, ?_⟩)
      · simp [takeByte, hstart, h.1]
      · rw [openBody_snoc_stop]; exact h
      · rw [bodies_snoc_stop, hframe]; simp
    · rw [hframe] at h
      exact Or.inl ⟨rfl, rfl, by simp [takeByte, hstart, h.1]⟩
  -- an ordinary byte: what becomes of it depends on whether a frame is open, and on its room
  have hframe := openBody_snoc_of_ne hstart hend stream
  have hbodies : bodies startByte endByte (stream ++ [byte]) = bodies startByte endByte stream :=
    bodies_snoc_of_ne hend stream
  rcases hopen : openBody startByte endByte stream with - | body
  · rw [hopen] at h hframe
    refine Or.inr (Or.inl ⟨pb, by simp [takeByte, hstart, hend, h.1], ?_, hbodies⟩)
    rw [hframe]
    exact h
  · rw [hopen] at h hframe
    rcases h.2.length_le.lt_or_eq with hroom | hfull
    · obtain ⟨pb', hpush, hholds, hflag⟩ := h.2.pushChar hroom byte
      refine Or.inr (Or.inl ⟨pb', by simp [takeByte, hstart, hend, h.1, hpush], ?_, hbodies⟩)
      rw [hframe]
      exact ⟨hflag.trans h.1, hholds⟩
    · -- the check of `pushChar` misses the full array, and the store goes behind it
      refine Or.inr (Or.inr ⟨hstart, hend, ?_, body, rfl, hfull⟩)
      simp [takeByte, hstart, hend, h.1, PacketBuffer.pushChar_of_holds_full h.2 hfull]

/-- Filling the packet of an open frame closes the frame and delivers its body, at the front of
a block of `BUF_SIZE` bytes. -/
theorem finishPacket_of_tracks {pb : PacketBuffer} {body : List Byte}
    (h : Tracks pb (some body)) :
    ∃ pb' packet, finishPacket pb = some (pb', packet) ∧ Tracks pb' none ∧
      packet.body = body ∧ packet.len = body.length ∧ packet.buf.length = bufSize := by
  have hread := h.2.mRead (List.length_replicate (n := bufSize) (a := (0 : Byte)))
  have hle := h.2.length_le
  refine ⟨{ pb with isStarted := false }, ⟨_, _⟩, by rw [finishPacket, hread]; rfl,
    ⟨rfl, body, ⟨h.2.1, h.2.2, h.2.3, h.2.4, h.2.5⟩⟩, ?_, rfl, ?_⟩
  · simp [Packet.body]
  · simp; omega

/-! ### A whole stream -/

/-- What the task has posted is the list of `bodies`, each in a block of `BUF_SIZE` bytes with
its length. -/
def Delivers (posted : List Packet) (bodies : List (List Byte)) : Prop :=
  posted.map Packet.body = bodies ∧
    ∀ p ∈ posted, p.len = p.body.length ∧ p.buf.length = bufSize ∧ p.body.length ≤ bufSize

theorem Delivers.snoc {posted : List Packet} {bodies : List (List Byte)} {p : Packet}
    {body : List Byte} (h : Delivers posted bodies) (hbody : p.body = body)
    (hlen : p.len = body.length) (hbuf : p.buf.length = bufSize) (hle : body.length ≤ bufSize) :
    Delivers (posted ++ [p]) (bodies ++ [body]) := by
  refine ⟨by simp [h.1, hbody], fun q hq ↦ ?_⟩
  rcases List.mem_append.1 hq with hq | hq
  · exact h.2 q hq
  · obtain rfl := List.mem_singleton.1 hq
    rw [hbody]
    exact ⟨hlen, hbuf, hle⟩

/-- One more byte for a task whose buffer tracks its stream: it goes on tracking and delivering,
or the open body has outgrown the buffer and nothing is delivered by the byte. -/
theorem Receiver.take_of_tracks {r : Receiver} {pb : PacketBuffer} {stream : List Byte}
    (hpb : r.pb = some pb) (htracks : Tracks pb (openBody startByte endByte stream))
    (hposted : Delivers r.posted (bodies startByte endByte stream)) (byte : Byte) :
    Delivers (r.take byte).posted (bodies startByte endByte (stream ++ [byte])) ∧
      ((∃ pb', (r.take byte).pb = some pb' ∧
          Tracks pb' (openBody startByte endByte (stream ++ [byte]))) ∨
        ((r.take byte).pb = none ∧ ∃ body,
          openBody startByte endByte (stream ++ [byte]) = some body ∧ bufSize < body.length)) := by
  rcases takeByte_of_tracks htracks byte with
    ⟨rfl, hsome, htake⟩ | ⟨pb', htake, htracks', hbodies⟩ |
      ⟨hstart, hend, htake, body, hopen, hfull⟩
  · obtain ⟨body, hopen⟩ := Option.isSome_iff_exists.1 hsome
    rw [hopen] at htracks
    obtain ⟨pb', packet, hfinish, htracks', hbody, hlen, hbuf⟩ := finishPacket_of_tracks htracks
    have hstep : r.take endByte = ⟨some pb', r.posted ++ [packet]⟩ := by
      obtain ⟨_, posted⟩ := r
      obtain rfl := hpb
      exact Receiver.take_of_endOfFrame posted htake hfinish
    rw [hstep, bodies_snoc_stop, openBody_snoc_stop, hopen]
    exact ⟨hposted.snoc hbody hlen hbuf htracks.2.length_le, Or.inl ⟨pb', rfl, htracks'⟩⟩
  · have hstep : r.take byte = ⟨some pb', r.posted⟩ := by
      obtain ⟨_, posted⟩ := r
      obtain rfl := hpb
      exact Receiver.take_of_nextByte posted htake
    rw [hstep, hbodies]
    exact ⟨hposted, Or.inl ⟨pb', rfl, htracks'⟩⟩
  · have hstep : r.take byte = ⟨none, r.posted⟩ := by
      simp [Receiver.take, hpb, receiveByte, htake]
    rw [hstep, bodies_snoc_of_ne hend, openBody_snoc_of_ne hstart hend, hopen]
    exact ⟨hposted, Or.inr ⟨rfl, body ++ [byte], rfl, by simp; omega⟩⟩

/-- A byte takes back no packet. -/
theorem Receiver.posted_take_mono (r : Receiver) (byte : Byte) :
    r.posted <+: (r.take byte).posted := by
  unfold Receiver.take
  split
  · exact List.prefix_refl _
  · split
    · exact List.prefix_refl _
    · exact List.prefix_append _ _

/-- What the task has posted for a prefix it never takes back. -/
theorem posted_mono {pre stream : List Byte} (h : pre <+: stream) :
    (receiveTask pre).posted <+: (receiveTask stream).posted := by
  obtain ⟨rest, rfl⟩ := h
  induction rest using List.reverseRecOn with
  | nil => rw [List.append_nil]
  | append_singleton rest byte ih =>
    rw [← List.append_assoc, receiveTask_snoc]
    exact ih.trans (Receiver.posted_take_mono _ _)

/-- An access outside of an array is never undone. -/
theorem pb_isSome_mono {pre stream : List Byte} (h : pre <+: stream)
    (hsome : (receiveTask stream).pb.isSome) : (receiveTask pre).pb.isSome := by
  obtain ⟨rest, rfl⟩ := h
  induction rest using List.reverseRecOn with
  | nil => rwa [List.append_nil] at hsome
  | append_singleton rest byte ih =>
    refine ih ?_
    rw [← List.append_assoc, receiveTask_snoc] at hsome
    by_contra hnone
    rw [Option.not_isSome_iff_eq_none] at hnone
    simp [Receiver.take, hnone] at hsome

/-- As long as no access has gone outside of its array, the buffer tracks the stream. -/
theorem receiveTask_of_pb_eq_some {stream : List Byte} {pb : PacketBuffer}
    (h : (receiveTask stream).pb = some pb) :
    Tracks pb (openBody startByte endByte stream) ∧
      Delivers (receiveTask stream).posted (bodies startByte endByte stream) := by
  induction stream using List.reverseRecOn generalizing pb with
  | nil =>
    obtain rfl : PacketBuffer.init = pb := by simpa using h
    exact ⟨by simpa using tracks_init, by simp [Delivers]⟩
  | append_singleton stream byte ih =>
    rw [receiveTask_snoc] at h ⊢
    rcases hpb : (receiveTask stream).pb with - | pb₀
    · simp [Receiver.take, hpb] at h
    obtain ⟨htracks, hposted⟩ := ih hpb
    obtain ⟨hdelivers, ⟨pb', hpb', htracks'⟩ | ⟨hnone, -⟩⟩ :=
      Receiver.take_of_tracks hpb htracks hposted byte
    · rw [h] at hpb'
      obtain rfl := Option.some.inj hpb'
      exact ⟨htracks', hdelivers⟩
    · rw [h] at hnone
      cases hnone

/-- The task after a stream whose ended frames fit into the buffer: it has posted their bodies,
and its buffer tracks the open body unless that one has outgrown it. -/
theorem receiveTask_tracks (stream : List Byte)
    (hframes : FramesBounded startByte endByte bufSize stream) :
    Delivers (receiveTask stream).posted (bodies startByte endByte stream) ∧
      ((∃ pb, (receiveTask stream).pb = some pb ∧
          Tracks pb (openBody startByte endByte stream)) ∨
        ((receiveTask stream).pb = none ∧
          ∃ body, openBody startByte endByte stream = some body ∧ bufSize < body.length)) := by
  induction stream using List.reverseRecOn with
  | nil => exact ⟨by simp [Delivers], Or.inl ⟨.init, rfl, by simpa using tracks_init⟩⟩
  | append_singleton stream byte ih =>
    obtain ⟨hposted, htracks⟩ := ih (hframes.mono (List.prefix_append _ _))
    rw [receiveTask_snoc]
    rcases htracks with ⟨pb, hpb, htracks⟩ | ⟨hpb, body, hopen, hlong⟩
    · exact Receiver.take_of_tracks hpb htracks hposted byte
    · -- the frame that is too long is the last one: a delimiter would violate the bound
      have hbound := (framesBounded_iff startByte_ne_endByte).1 hframes stream body byte
        (List.prefix_refl _)
      have hstart : byte ≠ startByte := fun hb ↦ absurd (hbound (Or.inl hb) hopen) (by omega)
      have hend : byte ≠ endByte := fun hb ↦ absurd (hbound (Or.inr hb) hopen) (by omega)
      have hstep : (receiveTask stream).take byte = receiveTask stream := by
        simp [Receiver.take, hpb]
      rw [hstep, bodies_snoc_of_ne hend, openBody_snoc_of_ne hstart hend, hopen]
      exact ⟨hposted, Or.inr ⟨hpb, body ++ [byte], rfl, by simp; omega⟩⟩

/-- All accesses have stayed inside of their arrays exactly when every open body fitted into
the buffer. -/
theorem pb_isSome_iff_openBounded (stream : List Byte) :
    (∀ pre, pre <+: stream → (receiveTask pre).pb.isSome) ↔
      OpenBounded startByte endByte bufSize stream := by
  constructor
  · intro h
    refine (openBounded_iff startByte_ne_endByte).2 fun pre body hpre hbody ↦ ?_
    obtain ⟨pb, hpb⟩ := Option.isSome_iff_exists.1 (h pre hpre)
    have htracks := (receiveTask_of_pb_eq_some hpb).1
    rw [hbody] at htracks
    exact htracks.2.length_le
  · intro h pre hpre
    have hpre' := h.mono hpre
    rcases (receiveTask_tracks pre hpre'.framesBounded).2 with
      ⟨pb, hpb, -⟩ | ⟨-, body, hopen, hlong⟩
    · simp [hpb]
    · exact absurd ((openBounded_iff startByte_ne_endByte).1 hpre' pre body (List.prefix_refl _)
        hopen) (by omega)

/-! ### Safety of the buffer -/

/-- The buffer is safe on a stream: after every prefix all accesses have stayed inside of their
arrays, the bookkeeping is within its bounds, every packet has been read into a block of
`BUF_SIZE` bytes, a byte there is no room for is refused without a trace, and so each packet is
its frame's body cut to `BUF_SIZE` bytes. -/
def BufferSafe (stream : List Byte) : Prop :=
  ∀ pre, pre <+: stream → ∃ pb, (receiveTask pre).pb = some pb ∧ pb.InBounds ∧
    (∀ p ∈ (receiveTask pre).posted, p.buf.length = bufSize ∧ 0 ≤ p.len ∧ p.len ≤ bufSize) ∧
    (∀ byte, pre ++ [byte] <+: stream → byte ≠ startByte → byte ≠ endByte →
      pb.isStarted = true → pb.myLen = bufSize → pb.pushChar byte = some (false, pb)) ∧
    (receiveTask pre).posted.map Packet.body =
      (bodies startByte endByte pre).map (List.take bufSize)

/-- **When the packet buffer is safe.** Exactly on the streams in which no START byte is followed
by more than `BUF_SIZE` bytes without a delimiter: the first byte too many is not refused but
stored behind the array. -/
theorem bufferSafe_iff_openBounded (stream : List Byte) :
    BufferSafe stream ↔ OpenBounded startByte endByte bufSize stream := by
  rw [← pb_isSome_iff_openBounded]
  constructor
  · intro h pre hpre
    obtain ⟨pb, hpb, -⟩ := h pre hpre
    simp [hpb]
  · intro h pre hpre
    obtain ⟨pb, hpb⟩ := Option.isSome_iff_exists.1 (h pre hpre)
    obtain ⟨htracks, hbodies, hposted⟩ := receiveTask_of_pb_eq_some hpb
    refine ⟨pb, hpb, htracks.inBounds, fun p hp ↦ ?_,
      fun byte hbyte hstart hend hflag hfull ↦ ?_, ?_⟩
    · obtain ⟨hlen, hbuf, hle⟩ := hposted p hp
      exact ⟨hbuf, by omega, by omega⟩
    · -- a byte for a full buffer would take the task outside of the array
      rw [htracks.isStarted_eq] at hflag
      obtain ⟨body, hopen⟩ := Option.isSome_iff_exists.1 hflag
      have hholds : pb.Holds body := by rw [hopen] at htracks; exact htracks.2
      have hlong : body.length = bufSize := by
        have := hholds.len_eq
        omega
      have hbound :=
        (openBounded_iff startByte_ne_endByte).1 ((pb_isSome_iff_openBounded stream).1 h)
        (pre ++ [byte]) (body ++ [byte]) hbyte (by rw [openBody_snoc_of_ne hstart hend, hopen]; rfl)
      simp only [List.length_append, List.length_singleton] at hbound
      omega
    · rw [← hbodies, List.map_map]
      refine List.map_congr_left fun p hp ↦ ?_
      rw [Function.comp_apply, List.take_of_length_le (hposted p hp).2.2]

/-- The buffer is not safe on every stream: a frame of `BUF_SIZE + 1` bytes `'f'` makes
`pushChar` store outside of the array. -/
theorem not_bufferSafe_of_long_frame :
    ¬ BufferSafe (startByte :: List.replicate (bufSize + 1) 0x66) := by
  intro h
  obtain ⟨pb, hpb, -⟩ := h _ (List.prefix_refl _)
  have hnone : (receiveTask (startByte :: List.replicate (bufSize + 1) 0x66)).pb = none := by
    decide +kernel
  rw [hnone] at hpb
  cases hpb

/-! ### Recognition of frames -/

/-- **Frame recognition and resynchronisation.** On a stream whose ended frames fit into the
buffer, the packets posted are exactly the bodies of the stream in order, each with its length;
so well-formed frames are delivered unchanged after any garbage. -/
theorem receiveTask_posts_bodies (stream : List Byte)
    (hframes : FramesBounded startByte endByte bufSize stream) :
    (receiveTask stream).posted.map (fun p ↦ (p.body, p.len)) =
        (bodies startByte endByte stream).map (fun body ↦ (body, (body.length : ℤ))) ∧
      ∀ garbage frames, (∀ body ∈ frames, ∀ byte ∈ body, byte ≠ startByte ∧ byte ≠ endByte) →
        stream = garbage ++ frames.flatMap (fun body ↦ startByte :: (body ++ [endByte])) →
        (receiveTask stream).posted.map Packet.body =
          (receiveTask garbage).posted.map Packet.body ++ frames := by
  obtain ⟨⟨hbodies, hposted⟩, -⟩ := receiveTask_tracks stream hframes
  refine ⟨?_, ?_⟩
  · rw [← hbodies, List.map_map]
    refine List.map_congr_left fun p hp ↦ ?_
    rw [Function.comp_apply, (hposted p hp).1]
  · rintro garbage frames hfree rfl
    obtain ⟨⟨hgarbage, -⟩, -⟩ :=
      receiveTask_tracks garbage (hframes.mono (List.prefix_append _ _))
    rw [hbodies, hgarbage, bodies_append_frames startByte_ne_endByte garbage hfree]

/-- A stray END, a frame abandoned by a second START, a byte outside of any frame: one packet,
and it contains the zero byte. -/
theorem receiveTask_posts_bodies_example :
    (receiveTask [endByte, startByte, 0x66, startByte, 0x00, 0x73, endByte, 0x62, endByte]).posted.map
        (fun p ↦ (p.body, p.len)) = [([0x00, 0x73], 2)] := by
  have h : FramesBounded startByte endByte bufSize
      [endByte, startByte, 0x66, startByte, 0x00, 0x73, endByte, 0x62, endByte] := by
    intro pre body d post hs _ _
    have := congrArg List.length hs
    simp only [List.length_cons, List.length_append, List.length_nil] at this
    unfold bufSize
    omega
  rw [(receiveTask_posts_bodies _ h).1]
  decide +kernel

end MappingRobot
