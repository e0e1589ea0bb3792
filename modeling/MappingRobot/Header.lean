import MappingRobot.SendTask

/-!
# Room for the header

`sendTask` moves the data of a packet up by two bytes within its block and takes for granted that
the block has the room. Whether it has is decided by who made the packet: `task1` allocates ten
bytes for two, but `receiveTask` allocates `BUF_SIZE` bytes for up to `BUF_SIZE`, and `echoTask`
passes its packets on as they are.
-/

namespace MappingRobot

open Delimited

/-! ### The producers -/

/-- The packets that are put on `sendQueue`. -/
inductive Produced : Packet → Prop
  /-- `task1` stores a range into its block of ten bytes. -/
  | task1 (range : BitVec 16) (buffData : List Byte) (hsize : buffData.length = 10) :
    Produced ⟨rangeBytes range ++ buffData.drop 2, 2⟩
  /-- `echoTask` passes on what `receiveTask` has made out of a frame. -/
  | echoTask (stream : List Byte) (packet : Packet)
    (hposted : packet ∈ (receiveTask stream).posted) : Produced packet

/-- The states of `sendQueue`, with packets by value. -/
inductive Filled {κ : Type} : PendQueue Packet sendQueueLength κ → Prop
  | create (pc : κ) : Filled (.create sendQueueLength pc)
  /-- `OSQPost(sendQueue, packet)` of a producer. -/
  | post {q : PendQueue Packet sendQueueLength κ} (hq : Filled q) {packet : Packet}
    (hpacket : Produced packet) : Filled (q.osqPost packet).2
  /-- `OSQPend(sendQueue, 0, &err)` of `sendTask`. -/
  | pend {q : PendQueue Packet sendQueueLength κ} (hq : Filled q) (got : Packet → κ) :
    Filled (q.osqPend got)
  /-- `sendTask` goes on. -/
  | goto {q : PendQueue Packet sendQueueLength κ} (hq : Filled q) (pc : κ) : Filled (q.goto pc)

/-- The header goes into the block of the packet, and the frame sent has the id, the number of the
bytes to come, and the data of the packet for a body. -/
def HeaderFits (p : Packet) : Prop :=
  ∀ packetId, ∃ p' out length, insertHeader packetId p = some p' ∧
    p'.buf.length = p.buf.length ∧ send p' = some out ∧
    frameBody out = packetId :: length :: p.body ∧ length.toNat = p.body.length

/-! ### What is on the queue -/

variable {κ : Type} {q : PendQueue Packet sendQueueLength κ} {p : Packet}

/-- A packet on the queue has been put there. -/
theorem Filled.produced (hq : Filled q) (hp : p ∈ q.content) : Produced p := by
  induction hq with
  | create pc => simp [PendQueue.content, PendQueue.create, Pending.message] at hp
  | @post q hq packet hpacket ih =>
    by_cases hfull : q.IsFull
    · rw [PendQueue.osqPost_of_isFull hfull] at hp
      exact ih hp
    · rw [(PendQueue.osqPost_of_not_isFull hfull packet).2.1] at hp
      rcases List.mem_append.1 hp with hp | hp
      · exact ih hp
      · exact List.mem_singleton.1 hp ▸ hpacket
  | @pend q hq got ih =>
    rcases q.osqPend_cases got with ⟨m, entries, hcons, htask, hentries⟩ | ⟨-, htask, hentries⟩
    · rw [PendQueue.content_of_running htask, hentries] at hp
      exact ih (List.mem_append_right _ (hcons ▸ List.mem_cons_of_mem m hp))
    · rw [PendQueue.content, htask, hentries] at hp
      cases hp
  | @goto q hq pc ih => exact ih (List.mem_append_right _ hp)

/-- A packet of `receiveTask` has a block of `BUF_SIZE` bytes. -/
theorem exists_delivers (stream : List Byte) :
    ∃ bodies, Delivers (receiveTask stream).posted bodies := by
  induction stream using List.reverseRecOn with
  | nil => exact ⟨[], rfl, by simp⟩
  | append_singleton stream byte ih =>
    cases hpb : (receiveTask stream).pb with
    | none =>
      rw [receiveTask_snoc, show (receiveTask stream).take byte = receiveTask stream by
        simp [Receiver.take, hpb]]
      exact ih
    | some pb =>
      obtain ⟨htracks, hposted⟩ := receiveTask_of_pb_eq_some hpb
      rw [receiveTask_snoc]
      exact ⟨_, (Receiver.take_of_tracks hpb htracks hposted byte).1⟩

/-- `task1` makes a packet that is one of its kind. -/
theorem produced_of_task1Step {σ : Type} {S : Slave σ} {mallocOk : Bool} {s t : Sys σ}
    {range : BitVec 16} {p b : ℕ} {buffData : List Byte}
    (hload : s.heap.blocks.load b = some buffData) (hsize : buffData.length = 10)
    (hstep : task1Step S mallocOk s (.fill range p b) = some t) :
    ∃ packet, t.heap.packet p = some packet ∧ Produced packet := by
  obtain ⟨buffData', hload', hstep⟩ := Option.bind_eq_some_iff.1 hstep
  obtain ⟨heap, hblock, hstep⟩ := Option.bind_eq_some_iff.1 hstep
  obtain ⟨heap', hbuffer, hstep⟩ := Option.bind_eq_some_iff.1 hstep
  obtain rfl := Option.some.inj hstep
  obtain rfl := Option.some.inj (hload.symm.trans hload')
  exact ⟨_, Heap.packet_of_setLenBuffer hbuffer (Heap.load_of_setBlock hblock),
    .task1 range buffData hsize⟩

/-! ### Who leaves room -/

/-- The header fits if the block has two bytes to spare and the length fits into a byte. -/
theorem Packet.Sendable.headerFits (h : p.Sendable) : HeaderFits p := by
  intro packetId
  obtain ⟨p', hinsert, hbuf, hlen, hbody⟩ := insertHeader_eq packetId h.nonneg h.room
  have hnonneg := h.nonneg
  have hle := h.le
  have hroom := h.room
  refine ⟨p', frame (headed packetId p), BitVec.ofInt 8 p.len, hinsert, hbuf, ?_,
    frameBody_frame _, ?_⟩
  · rw [send_eq (by omega), hbody]
    rfl
  · have hlength : ((BitVec.ofInt 8 p.len).toNat : ℤ) = p.len := p.toNat_length hnonneg hle
    rw [Packet.body, List.length_take]
    omega

/-- It does not fit if the block has no two bytes to spare. -/
theorem HeaderFits.room (h : HeaderFits p) : p.len + 2 ≤ p.buf.length := by
  obtain ⟨p', -, -, hinsert, -⟩ := h 0
  unfold insertHeader at hinsert
  split_ifs at hinsert with hroom
  exact hroom.2

/-- **Room for the header**: every packet that gets onto `sendQueue` has it, unless it is one of
`receiveTask` whose frame has more than `BUF_SIZE - 2` bytes. -/
theorem headerFits_iff (hq : Filled q) (hp : p ∈ q.content) :
    HeaderFits p ↔ p.body.length + 2 ≤ bufSize := by
  cases hq.produced hp with
  | task1 range buffData hsize =>
    refine ⟨fun _ ↦ ?_, fun _ ↦ Packet.Sendable.headerFits ⟨by simp, by simp, ?_⟩⟩
    · rw [Packet.body]
      simp [rangeBytes, bufSize]
    · simp [rangeBytes, hsize]
  | echoTask stream packet hposted =>
    obtain ⟨bodies, -, hshape⟩ := exists_delivers stream
    obtain ⟨hlen, hbuf, -⟩ := hshape p hposted
    constructor
    · intro hfits
      have := hfits.room
      omega
    · intro hshort
      have hsize : bufSize = 256 := rfl
      exact Packet.Sendable.headerFits ⟨by omega, by omega, by omega⟩

/-- The range `0x0102` in a block of ten bytes. -/
theorem headerFits_iff_range :
    HeaderFits ⟨[2, 1, 0, 0, 0, 0, 0, 0, 0, 0], 2⟩ ↔
      (⟨[2, 1, 0, 0, 0, 0, 0, 0, 0, 0], 2⟩ : Packet).body.length + 2 ≤ bufSize :=
  headerFits_iff (q := ((PendQueue.create sendQueueLength ()).osqPost _).2)
    ((Filled.create ()).post (.task1 0x0102 (List.replicate 10 0) rfl))
    (List.mem_singleton_self _)

/-- A frame of 255 bytes that `echoTask` passes on: two bytes of data and header go past the end
of its block of 256. -/
theorem not_headerFits_of_echo :
    ¬ ∀ q : PendQueue Packet sendQueueLength Unit, Filled q → ∀ p ∈ q.content, HeaderFits p := by
  intro h
  let body : List Byte := List.replicate 255 0x66
  have hfree : ∀ byte ∈ body, byte ≠ startByte ∧ byte ≠ endByte := by
    intro byte hbyte
    obtain rfl := List.eq_of_mem_replicate hbyte
    decide
  have hstream : bodies startByte endByte
      ([] ++ [body].flatMap fun body ↦ startByte :: (body ++ [endByte])) = [body] := by
    rw [bodies_append_frames startByte_ne_endByte [] (by simpa using hfree), bodies_nil,
      List.nil_append]
  have hbound : FramesBounded startByte endByte bufSize
      ([] ++ [body].flatMap fun body ↦ startByte :: (body ++ [endByte])) := by
    intro pre inner d post hs _ _
    have hlen := congrArg List.length hs
    simp only [body, List.flatMap_cons, List.flatMap_nil, List.nil_append, List.append_nil,
      List.length_cons, List.length_append, List.length_nil, List.length_replicate] at hlen
    show inner.length ≤ 256
    omega
  obtain ⟨⟨hbodies, hshape⟩, -⟩ := receiveTask_tracks _ hbound
  rw [hstream] at hbodies
  obtain ⟨p, hp, hbody⟩ := List.map_eq_singleton_iff.1 hbodies
  obtain ⟨hlen, hbuf, -⟩ := hshape p (hp ▸ List.mem_singleton_self p)
  have hfits := h _ ((Filled.create ()).post (.echoTask _ p (hp ▸ List.mem_singleton_self p))) p
    (List.mem_singleton_self p)
  have hroom := hfits.room
  rw [hlen, hbuf, hbody, List.length_replicate] at hroom
  exact absurd hroom (by decide)

end MappingRobot
