import Mathlib.Logic.Function.Iterate
import MappingRobot.Footprint
import MappingRobot.Ownership

/-!
# From the LIDAR to the UART

What `task1` measures and `sendTask` writes. An iteration of `task1` polls the LIDAR, reads its
two registers, and posts a packet with the range; `sendTask` puts a header before the range and
writes the frame three times.

`rangeFrom` and `slaveAfter` say what an iteration does with the slave on the bus, `report` says
what the iteration has to put on the UART, and `Sys.Ranging` is the invariant: where `task1` is
determines how far the measurement has come, and where `sendTask` is determines how much of the
last report has been written. The priorities are what keeps the reports apart. `sendTask` goes
before `task1`, so that `task1` gets to its next step only when the last report is complete.
-/

namespace MappingRobot

open LabelledRun

variable {σ : Type}

/-! ### An iteration of `task1` -/

section

variable (S : Slave σ)

/-- The plan of a measurement: the poll, and the read of both registers. -/
def rangePlan : List BusAction :=
  pollPlan lidarCommandPoll ++ .stop :: registersPlan

/-- The range measured from a slave: that in the two bytes it shifts out, if it acknowledges every
byte of the plan, and `0` otherwise. -/
def rangeFrom (x : σ) : ℕ :=
  let e := S.bytewise.exchange x rangePlan
  if e.acked then rangeOf e.bytes else 0

/-- The slave after a measurement. A register read that is refused ends without a stop
condition. -/
def slaveAfter (x : σ) : σ :=
  let poll := S.bytewise.exchange x (pollPlan lidarCommandPoll)
  if poll.acked then
    let read := S.bytewise.exchange (S.bytewise.stop poll.slave) registersPlan
    if read.acked then S.bytewise.stop read.slave else read.slave
  else
    S.bytewise.stop poll.slave

/-- The body of the frame for iteration `k`: the header, and the range, least significant byte
first. -/
def reportBody (slave : σ) (k : ℕ) : List Byte :=
  let r := rangeFrom S ((slaveAfter S)^[k] slave)
  [BitVec.ofNat 8 (4 + k), 2, BitVec.ofNat 8 (r % 256), BitVec.ofNat 8 (r / 256)]

/-- What is written for iteration `k`: three copies of its frame. -/
def report (slave : σ) (k : ℕ) : List Byte :=
  (List.replicate 3 (frame (reportBody S slave k))).flatten

/-- What is written for the first `n` iterations. -/
def reports (slave : σ) (n : ℕ) : List Byte :=
  (List.range n).flatMap (report S slave)

end

section

variable {S : Slave σ}

/-- A poll that is refused is a range of `0`. -/
theorem rangeFrom_of_refused {x : σ}
    (h : (S.bytewise.exchange x (pollPlan lidarCommandPoll)).acked = false) :
    rangeFrom S x = 0 ∧
      slaveAfter S x =
        S.bytewise.stop (S.bytewise.exchange x (pollPlan lidarCommandPoll)).slave := by
  constructor
  · simp [rangeFrom, rangePlan, S.bytewise.exchange_append_of_refused h, h]
  · simp [slaveAfter, h]

/-- After a poll that is acknowledged, the range is that of the registers. -/
theorem rangeFrom_of_acked {x y : σ}
    (h : (S.bytewise.exchange x (pollPlan lidarCommandPoll)).acked = true)
    (hy : y = S.bytewise.stop (S.bytewise.exchange x (pollPlan lidarCommandPoll)).slave) :
    rangeFrom S x = (if (S.bytewise.exchange y registersPlan).acked then
        rangeOf (S.bytewise.exchange y registersPlan).bytes else 0) ∧
      slaveAfter S x = if (S.bytewise.exchange y registersPlan).acked then
        S.bytewise.stop (S.bytewise.exchange y registersPlan).slave
        else (S.bytewise.exchange y registersPlan).slave := by
  subst hy
  have hnil : (S.bytewise.exchange x (pollPlan lidarCommandPoll)).bytes = [] :=
    List.length_eq_zero_iff.1 (S.bytewise.length_bytes_of_acked h)
  constructor
  · simp [rangeFrom, rangePlan, S.bytewise.exchange_append_of_acked h, hnil]
  · simp [slaveAfter, h]

/-- **`lidar_read`** returns the range measured. -/
theorem lidarRead_spec (b : Bus σ) :
    ∃ b', lidarRead S b = some (rangeFrom S b.slave, b') ∧ b'.slave = slaveAfter S b.slave := by
  obtain ⟨b₁, hsend, hslave, -⟩ := sendCommand_spec (S := S) lidarCommandPoll b
  cases hack : (S.bytewise.exchange b.slave (pollPlan lidarCommandPoll)).acked with
  | false =>
    obtain ⟨hrange, hafter⟩ := rangeFrom_of_refused hack
    exact ⟨b₁, by simp [lidarRead, hsend, hack, hrange], hslave.trans hafter.symm⟩
  | true =>
    obtain ⟨hrange, hafter⟩ := rangeFrom_of_acked hack hslave
    obtain ⟨b₂, hread, hslave₂, -⟩ := readRegisters_spec (S := S) b₁
    exact ⟨b₂, by simp [lidarRead, hsend, hack, hrange, hread], hslave₂.trans hafter.symm⟩

end

/-- The two bytes of a range, least significant first. -/
theorem rangeBytes_ofNat (r : ℕ) :
    rangeBytes (BitVec.ofNat 16 r) = [BitVec.ofNat 8 (r % 256), BitVec.ofNat 8 (r / 256)] := by
  have hlow : r % 256 &&& 255 = r % 256 := by
    rw [Nat.and_two_pow_sub_one_eq_mod _ 8, Nat.mod_mod]
  have hhigh : (r % 65536 &&& 65280) >>> 8 = r / 256 % 256 := by
    rw [Nat.shiftRight_and_distrib, Nat.shiftRight_eq_div_pow,
      show 65280 >>> 8 = 2 ^ 8 - 1 from rfl, Nat.and_two_pow_sub_one_eq_mod]
    omega
  rw [rangeBytes, List.cons.injEq, List.cons.injEq, ← BitVec.toNat_inj, ← BitVec.toNat_inj]
  simp [hlow, hhigh]

theorem reports_succ (S : Slave σ) (slave : σ) (n : ℕ) :
    reports S slave (n + 1) = reports S slave n ++ report S slave n := by
  rw [reports, List.range_succ, List.flatMap_append, List.flatMap_singleton]
  rfl

/-! ### The invariant -/

/-- How far `task1` has come with a measurement that it began on the slave `x`. -/
def Task1Pc.Measures (S : Slave σ) (x : σ) (h : Heap) (current : σ) : Task1Pc → Prop
  | .start | .poll => current = x
  | .delayed | .read =>
    (S.bytewise.exchange x (pollPlan lidarCommandPoll)).acked = true ∧
      current = S.bytewise.stop (S.bytewise.exchange x (pollPlan lidarCommandPoll)).slave
  | .mallocBuf range | .mallocData range _ | .fill range _ _ =>
    range = BitVec.ofNat 16 (rangeFrom S x) ∧ current = slaveAfter S x
  | .load p | .count p _ | .post p =>
    h.body p = rangeBytes (BitVec.ofNat 16 (rangeFrom S x)) ∧ current = slaveAfter S x
  | .rotate => current = slaveAfter S x

/-- The data that iteration `m` posts. -/
def postedData (S : Slave σ) (slave : σ) (m : ℕ) : List Byte :=
  rangeBytes (BitVec.ofNat 16 (rangeFrom S ((slaveAfter S)^[m] slave)))

/-- The reports of `m` iterations have been written, and nothing else. -/
structure Sys.Sent (S : Slave σ) (slave : σ) (m : ℕ) (s : Sys σ) : Prop where
  txData : s.log.txData = reports S slave m
  packetId : s.packetId = BitVec.ofNat 8 (4 + m)

/-- How far `sendTask` has come with the reports of `n` iterations. -/
def SendPc.Reports (S : Slave σ) (slave : σ) (n : ℕ) (s : Sys σ) : SendPc → Prop
  | .pend | .freeData _ | .freeBuf _ => s.Sent S slave n
  | .got p | .count p _ | .header p =>
    ∃ m, n = m + 1 ∧ s.Sent S slave m ∧ s.heap.body p = postedData S slave m
  | .sending p copies out =>
    ∃ m, n = m + 1 ∧ s.packetId = BitVec.ofNat 8 (4 + n) ∧
      s.heap.body p = reportBody S slave m ∧
      s.log.txData ++ out ++ (List.replicate copies (frame (reportBody S slave m))).flatten =
        reports S slave n

/-- How far `sendTask` has come, waiting or running. Its wait has no timeout. -/
def Pending.Reports (S : Slave σ) (slave : σ) (n : ℕ) (s : Sys σ) : Pending ℕ SendPc → Prop
  | .waiting => s.Sent S slave n
  | .expired => False
  | .posted p => SendPc.Reports S slave n s (.got p)
  | .running pc => pc.Reports S slave n s

/-- The iterations that have posted their packet. The others than the one under way have turned
the stepper. -/
def Sys.posts (s : Sys σ) : ℕ :=
  match s.task1 with
  | .rotate => s.log.stepper.length + 1
  | _ => s.log.stepper.length

/-- The invariant of the measurements and their reports. -/
structure Sys.Ranging (S : Slave σ) (slave : σ) (s : Sys σ) : Prop where
  entries_eq : s.sendQueue.entries = []
  measures : s.task1.Measures S ((slaveAfter S)^[s.log.stepper.length] slave) s.heap s.bus.slave
  reports : s.sendQueue.task.Reports S slave s.posts s
  /-- While `sendTask` is at work, `task1` has not started or has just posted. -/
  turns : s.sendQueue.task = .waiting ∨ s.task1 = .start ∨ s.task1 = .rotate

theorem ranging_init (S : Slave σ) (slave : σ) : (Sys.init slave).Ranging S slave where
  entries_eq := rfl
  measures := rfl
  reports := ⟨rfl, rfl⟩
  turns := Or.inr (Or.inl rfl)

section

variable {S : Slave σ} {slave : σ} {s t : Sys σ} {L : Multiset Ref} {n : ℕ}

/-! ### Steps off the send side -/

/-- The packet that `task1` has made stays the same. -/
theorem Task1Pc.Measures.of_sameOn {x current : σ} {h h' : Heap} {pc : Task1Pc}
    (hm : pc.Measures S x h current) (hsame : h.SameOn h' pc.refs) :
    pc.Measures S x h' current := by
  cases pc with
  | load p | count p count | post p =>
    exact ⟨(hsame.body (Multiset.mem_singleton_self _)).trans hm.1, hm.2⟩
  | start | poll | delayed | read | mallocBuf range | mallocData range p | fill range p b
  | rotate =>
    exact hm

/-- What `sendTask` has come to is seen in its packet, its counter and its output. -/
theorem SendPc.Reports.of_sameOn (pc : SendPc) (hr : pc.Reports S slave n s)
    (hsame : s.heap.SameOn t.heap pc.refs) (hid : t.packetId = s.packetId)
    (htx : t.log.txData = s.log.txData) : pc.Reports S slave n t := by
  have hsent : ∀ m, s.Sent S slave m → t.Sent S slave m := fun m hm ↦
    ⟨htx.trans hm.txData, hid.trans hm.packetId⟩
  cases pc with
  | pend | freeData p | freeBuf p => exact hsent n hr
  | got p | count p count | header p =>
    obtain ⟨m, hn, hm, hbody⟩ := hr
    exact ⟨m, hn, hsent m hm, (hsame.body (Multiset.mem_singleton_self _)).trans hbody⟩
  | sending p copies out =>
    obtain ⟨m, hn, hm, hbody, hout⟩ := hr
    exact ⟨m, hn, hid.trans hm, (hsame.body (Multiset.mem_singleton_self _)).trans hbody,
      htx ▸ hout⟩

theorem Pending.Reports.of_sameOn {task : Pending ℕ SendPc} (hr : task.Reports S slave n s)
    (hsame : s.heap.SameOn t.heap (task.refs .headroom SendPc.refs))
    (hid : t.packetId = s.packetId) (htx : t.log.txData = s.log.txData) :
    task.Reports S slave n t := by
  cases task with
  | waiting => exact ⟨htx.trans hr.txData, hid.trans hr.packetId⟩
  | expired => exact hr
  | posted p => exact SendPc.Reports.of_sameOn (.got p) hr hsame hid htx
  | running pc => exact SendPc.Reports.of_sameOn pc hr hsame hid htx

/-- A step that leaves alone what `sendTask` and `task1` work on. -/
theorem Sys.Ranging.of_same (h : s.Ranging S slave)
    (hsame : s.heap.SameOn t.heap (s.sendRefs + s.task1.refs)) (hsend : s.SameSend t)
    (hrange : s.SameRange t) : t.Ranging S slave where
  entries_eq := by rw [hsend.sendQueue]; exact h.entries_eq
  measures := by
    rw [hrange.task1, hrange.stepper, hrange.bus]
    exact h.measures.of_sameOn (hsame.mono fun r hr ↦ by simp [hr])
  reports := by
    rw [hsend.sendQueue, Sys.posts, hrange.task1, hrange.stepper]
    exact h.reports.of_sameOn (hsame.mono fun r hr ↦ by simp [Sys.sendRefs, PendQueue.refs, hr])
      hsend.packetId hsend.txData
  turns := by rw [hsend.sendQueue, hrange.task1]; exact h.turns

/-! ### Steps of `sendTask` -/

theorem reportBody_eq (S : Slave σ) (slave : σ) (m : ℕ) :
    reportBody S slave m = BitVec.ofNat 8 (4 + m) :: 2 :: postedData S slave m := by
  rw [postedData, rangeBytes_ofNat]
  rfl

/-- The header makes the body of the report out of the data posted. -/
theorem insertHeader_posted {m : ℕ} {packet packet' : Packet}
    (hfits : PacketKind.headroom.Fits packet) (hbody : packet.body = postedData S slave m)
    (hinsert : insertHeader (BitVec.ofNat 8 (4 + m)) packet = some packet') :
    packet'.body = reportBody S slave m := by
  have htwo : packet.len = 2 := by
    have hlen := congrArg List.length hbody
    simp only [Packet.body, List.length_take, postedData, rangeBytes, List.length_cons,
      List.length_nil] at hlen
    have := hfits.1
    have := hfits.2
    omega
  obtain ⟨p, hp, -, -, hbody'⟩ := insertHeader_eq (BitVec.ofNat 8 (4 + m)) hfits.1 hfits.2
  obtain rfl := Option.some.inj (hinsert.symm.trans hp)
  rw [hbody', hbody, htwo, reportBody_eq]
  rfl

/-- **A step of `sendTask`** goes on with the report of the packet it has. -/
theorem sendTaskStep_reports {pc : SendPc} (hgood : ∀ r ∈ pc.refs, r.Good s.heap)
    (hentries : s.sendQueue.entries = []) (hr : pc.Reports S slave n s)
    (hstep : sendTaskStep s pc = some t) :
    t.sendQueue.entries = [] ∧ t.sendQueue.task.Reports S slave n t := by
  cases pc with
  | pend =>
    obtain rfl := Option.some.inj hstep
    rcases s.sendQueue.osqPend_cases .got with ⟨p, entries, hcons, -, -⟩ | ⟨-, htask, hnil⟩
    · -- `task1` posts only when `sendTask` waits, so that the queue holds nothing
      rw [hentries] at hcons
      cases hcons
    · refine ⟨hnil, ?_⟩
      rw [htask]
      exact ⟨hr.txData, hr.packetId⟩
  | got p | count p count =>
    obtain ⟨m, hn, hsent, hbody⟩ := hr
    obtain rfl := Option.some.inj hstep
    exact ⟨hentries, m, hn, ⟨hsent.txData, hsent.packetId⟩, hbody⟩
  | header p =>
    obtain ⟨m, rfl, hsent, hbody⟩ := hr
    obtain ⟨packet, hpacket, hstep⟩ := Option.bind_eq_some_iff.1 hstep
    obtain ⟨packet', hinsert, hstep⟩ := Option.bind_eq_some_iff.1 hstep
    obtain ⟨heap, hset, hstep⟩ := Option.bind_eq_some_iff.1 hstep
    obtain rfl := Option.some.inj hstep
    obtain ⟨q, hq, hfits⟩ := hgood _ (Multiset.mem_singleton_self _)
    obtain rfl := Option.some.inj (hpacket.symm.trans hq)
    rw [Heap.body_of_packet hpacket] at hbody
    rw [hsent.packetId] at hinsert
    refine ⟨hentries, m, rfl, ?_, ?_, ?_⟩
    · show s.packetId + 1 = _
      rw [hsent.packetId, ← add_assoc 4 m 1]
      exact (BitVec.ofNat_add (4 + m) 1).symm
    · rw [Heap.body_of_packet (Heap.packet_of_setPacket hset)]
      exact insertHeader_posted hfits hbody hinsert
    · show s.log.txData ++ [] ++ report S slave m = _
      rw [List.append_nil, hsent.txData, reports_succ]
  | sending p copies out =>
    obtain ⟨m, rfl, hid, hbody, hout⟩ := hr
    cases out with
    | cons byte out =>
      obtain rfl := Option.some.inj hstep
      refine ⟨hentries, m, rfl, hid, hbody, ?_⟩
      rw [← hout]
      simp
    | nil =>
      cases copies with
      | zero =>
        obtain rfl := Option.some.inj hstep
        refine ⟨hentries, ?_, hid⟩
        simpa using hout
      | succ copies =>
        obtain ⟨packet, hpacket, hstep⟩ := Option.bind_eq_some_iff.1 hstep
        obtain ⟨out, hsend, hstep⟩ := Option.bind_eq_some_iff.1 hstep
        obtain rfl := Option.some.inj hstep
        obtain ⟨q, hq, -, hle⟩ := hgood _ (Multiset.mem_singleton_self _)
        obtain rfl := Option.some.inj (hpacket.symm.trans hq)
        have hbody' : packet.body = reportBody S slave m := by
          rw [← hbody, Heap.body_of_packet hpacket]
        rw [send_eq (by omega), Option.some_inj, hbody'] at hsend
        refine ⟨hentries, m, rfl, hid, hbody, ?_⟩
        rw [← hout, ← hsend, List.replicate_succ, List.flatten_cons]
        simp
  | freeData p | freeBuf p =>
    obtain ⟨heap, -, hstep⟩ := Option.bind_eq_some_iff.1 hstep
    obtain rfl := Option.some.inj hstep
    exact ⟨hentries, hr.txData, hr.packetId⟩

/-- The invariant after a step of `sendTask`. -/
theorem sendTaskStep_ranging (hinv : s.Inv L) (h : s.Ranging S slave) {pc : SendPc}
    (hpc : s.sendQueue.task = .running pc) (hstep : sendTaskStep s pc = some t)
    (hsame : s.heap.SameOn t.heap (s.sendQueue.slots .headroom + s.exceptSend + L)) :
    t.Ranging S slave := by
  obtain ⟨-, -, hrange⟩ := sendTaskStep_footprint hstep
  have hgood := hinv.good_of_send hpc
  have hreports := h.reports
  rw [hpc] at hreports
  obtain ⟨hentries, hreports'⟩ := sendTaskStep_reports hgood h.entries_eq hreports hstep
  refine ⟨hentries, ?_, ?_, Or.inr ?_⟩
  · rw [hrange.task1, hrange.stepper, hrange.bus]
    exact h.measures.of_sameOn (hsame.mono fun r hr ↦ by simp [Sys.exceptSend, hr])
  · rw [Sys.posts, hrange.task1, hrange.stepper]
    exact hreports'
  · rw [hrange.task1]
    exact h.turns.resolve_left (by simp [hpc])

/-! ### Steps of `task1` -/

/-- A step of `task1` that neither posts nor ends the iteration. -/
theorem Sys.Ranging.of_task1 (h : s.Ranging S slave) (hwait : s.sendQueue.task = .waiting)
    (hsend : s.SameSend t) (hstepper : t.log.stepper = s.log.stepper) (hposts : t.posts = s.posts)
    (hm : t.task1.Measures S ((slaveAfter S)^[s.log.stepper.length] slave) t.heap t.bus.slave) :
    t.Ranging S slave where
  entries_eq := by rw [hsend.sendQueue]; exact h.entries_eq
  measures := by rw [hstepper]; exact hm
  reports := by
    have hreports := h.reports
    rw [hwait] at hreports
    rw [hsend.sendQueue, hwait, hposts]
    exact ⟨hsend.txData.trans hreports.txData, hsend.packetId.trans hreports.packetId⟩
  turns := Or.inl (by rw [hsend.sendQueue, hwait])

/-- **A step of `task1`**, taken while `sendTask` waits, goes on with the measurement, posts it, or
ends the iteration. -/
theorem task1Step_ranging (h : s.Ranging S slave) (hwait : s.sendQueue.task = .waiting)
    {mallocOk : Bool} (hstep : task1Step S mallocOk s s.task1 = some t) : t.Ranging S slave := by
  have hm := h.measures
  have hreports := h.reports
  have hsend := (task1Step_footprint hstep).2.2
  rw [hwait] at hreports
  cases hpc : s.task1 with
  | start =>
    rw [hpc] at hm hstep hsend
    obtain rfl := Option.some.inj hstep
    exact h.of_task1 hwait (hsend (by simp)) rfl (by simp [Sys.posts, hpc]) hm
  | poll =>
    rw [hpc] at hm hstep hsend
    obtain ⟨b, hcommand, hslave, -⟩ := sendCommand_spec (S := S) lidarCommandPoll s.bus
    rw [show s.bus.slave = _ from hm] at hcommand hslave
    simp only [task1Step, hcommand, Option.bind_eq_bind, Option.bind_some, Option.some_inj] at hstep
    obtain rfl := hstep
    refine h.of_task1 hwait (hsend (by simp)) rfl ?_ ?_
    · rw [Sys.posts, Sys.posts, hpc]
      split_ifs <;> rfl
    · show Task1Pc.Measures S _ s.heap b.slave (if _ then _ else _)
      split_ifs with hack
      · exact ⟨hack, hslave⟩
      · obtain ⟨hrange, hafter⟩ := rangeFrom_of_refused (Bool.eq_false_iff.2 hack)
        exact ⟨by rw [hrange]; rfl, hslave.trans hafter.symm⟩
  | delayed =>
    rw [hpc] at hstep
    obtain rfl := Option.some.inj hstep
    exact h
  | read =>
    rw [hpc] at hm hstep hsend
    obtain ⟨hack, hslave⟩ := hm
    obtain ⟨hrange, hafter⟩ := rangeFrom_of_acked hack hslave
    obtain ⟨b, hread, hslave', -⟩ := readRegisters_spec (S := S) s.bus
    simp only [task1Step, hread, Option.bind_eq_bind, Option.bind_some, Option.some_inj] at hstep
    obtain rfl := hstep
    refine h.of_task1 hwait (hsend (by simp)) rfl (by simp [Sys.posts, hpc]) ?_
    exact ⟨by rw [hrange], hslave'.trans hafter.symm⟩
  | mallocBuf range | mallocData range p =>
    rw [hpc] at hm hstep hsend
    simp only [task1Step] at hstep
    split_ifs at hstep
    obtain rfl := Option.some.inj hstep
    exact h.of_task1 hwait (hsend (by simp)) rfl (by simp [Sys.posts, hpc]) hm
  | fill range p b =>
    rw [hpc] at hm hstep hsend
    obtain ⟨rfl, hslave⟩ := hm
    obtain ⟨old, -, hstep⟩ := Option.bind_eq_some_iff.1 hstep
    obtain ⟨heap, hblock, hstep⟩ := Option.bind_eq_some_iff.1 hstep
    obtain ⟨heap', hbuffer, hstep⟩ := Option.bind_eq_some_iff.1 hstep
    obtain rfl := Option.some.inj hstep
    refine h.of_task1 hwait (hsend (by simp)) rfl (by simp [Sys.posts, hpc]) ⟨?_, hslave⟩
    rw [Heap.body_of_packet (Heap.packet_of_setLenBuffer hbuffer (Heap.load_of_setBlock hblock))]
    rfl
  | load p | count p count =>
    rw [hpc] at hm hstep hsend
    obtain rfl := Option.some.inj hstep
    exact h.of_task1 hwait (hsend (by simp)) rfl (by simp [Sys.posts, hpc]) hm
  | post p =>
    rw [hpc] at hm hstep
    obtain rfl := Option.some.inj hstep
    have hfull : ¬ s.sendQueue.IsFull := by simp [PendQueue.IsFull, hwait, Pending.onWaitList]
    obtain ⟨-, -, ⟨-, htask, hentries⟩ | ⟨hbusy, -⟩⟩ := PendQueue.osqPost_of_not_isFull hfull p
    · rw [Sys.posts, hpc] at hreports
      refine ⟨hentries, hm.2, ?_, Or.inr (Or.inr rfl)⟩
      rw [htask]
      exact ⟨s.log.stepper.length, rfl, ⟨hreports.txData, hreports.packetId⟩, hm.1⟩
    · rw [hwait] at hbusy
      cases hbusy
  | rotate =>
    rw [hpc] at hm hstep
    obtain rfl := Option.some.inj hstep
    rw [Sys.posts, hpc] at hreports
    have hlen : (s.log.stepper ++ [BitVec.ofInt 32 s.direction]).length =
        s.log.stepper.length + 1 := by
      simp
    refine ⟨h.entries_eq, ?_, ?_, Or.inl hwait⟩
    · rw [hlen, Function.iterate_succ_apply']
      exact hm
    · rw [Sys.posts, hlen, hwait]
      exact ⟨hreports.txData, hreports.packetId⟩

/-! ### Steps of the system -/

/-- `task1` goes on only while `sendTask` waits. -/
theorem Sys.Allows.sendTask_waiting {mallocOk : Bool} (h : s.Allows (.task1 mallocOk)) :
    s.sendQueue.task = .waiting := by
  by_contra hne
  have hready : s.ready .sendTask = true := by
    simpa [Sys.ready, Bool.eq_false_iff, Pending.isBlocked_iff] using hne
  exact absurd (h .task1 rfl .sendTask hready) (by decide)

/-- **One step** keeps the invariant, if `task1` goes on only while `sendTask` waits. -/
theorem step_ranging_of_waiting {e : Event} (hinv : s.Inv L) (h : s.Ranging S slave)
    (hstep : Step S s e t)
    (hturn : ∀ mallocOk, e = .task1 mallocOk → s.sendQueue.task = .waiting) :
    t.Ranging S slave := by
  have hundefined : Sys.Ranging S slave { s with undefined := true } :=
    h.of_same (.refl _ _) ⟨rfl, rfl, rfl⟩ ⟨rfl, rfl, rfl⟩
  cases e with
  | irq byte =>
    obtain rfl := hstep.irq
    unfold bluetoothIrq
    split_ifs
    · exact h
    · exact h.of_same (.refl _ _) ⟨rfl, rfl, rfl⟩ ⟨rfl, rfl, rfl⟩
  | receiveTask mallocOk =>
    rcases hstep.receiveTask with ⟨m, -, rfl⟩ | ⟨pc, hpc, rfl⟩
    · exact h.of_same (.refl _ _) ⟨rfl, rfl, rfl⟩ ⟨rfl, rfl, rfl⟩
    by_cases hfails : s.Fails (.receiveTask mallocOk)
    · rw [Sys.orUndefined, receiveTaskStep_of_fails hinv hpc hfails]
      exact hundefined
    · obtain ⟨t, ht, -, -, hsame⟩ := receiveTaskStep_of_inv hinv hpc hfails
      obtain ⟨hsend, hrange, -⟩ := receiveTaskStep_footprint ht
      rw [Sys.orUndefined, ht]
      exact h.of_same (hsame.mono fun r hr ↦ by
        rw [Multiset.mem_add] at hr
        simp only [Sys.exceptReceive, Multiset.mem_add]
        tauto) hsend hrange
  | sendTask =>
    rcases hstep.sendTask with ⟨p, hpc, rfl⟩ | ⟨pc, hpc, rfl⟩
    · have hreports := h.reports
      rw [hpc] at hreports
      refine ⟨h.entries_eq, h.measures, ?_, Or.inr (h.turns.resolve_left (by simp [hpc]))⟩
      exact SendPc.Reports.of_sameOn (.got p) hreports (.refl _ _) rfl rfl
    · obtain ⟨t, ht, -, -, hsame⟩ := sendTaskStep_of_inv hinv hpc
      rw [Sys.orUndefined, ht]
      exact sendTaskStep_ranging hinv h hpc ht hsame
  | task2 =>
    rcases hstep.task2 with ⟨-, rfl⟩ | ⟨p, -, rfl⟩ | ⟨pc, hpc, rfl⟩
    · exact h.of_same (.refl _ _) ⟨rfl, rfl, rfl⟩ ⟨rfl, rfl, rfl⟩
    · exact h.of_same (.refl _ _) ⟨rfl, rfl, rfl⟩ ⟨rfl, rfl, rfl⟩
    · obtain ⟨t, ht, -, -, hsame⟩ := task2Step_of_inv hinv hpc
      obtain ⟨-, hsend, hrange⟩ := task2Step_footprint ht
      rw [Sys.orUndefined, ht]
      exact h.of_same (hsame.mono fun r hr ↦ by
        rw [Multiset.mem_add] at hr
        simp only [Sys.exceptTask2, Multiset.mem_add]
        tauto) hsend hrange
  | task1 mallocOk =>
    obtain ⟨-, rfl⟩ := hstep.task1
    cases hout : task1Step S mallocOk s s.task1 with
    | none => exact hundefined
    | some t => exact task1Step_ranging h (hturn mallocOk rfl) hout
  | timeout =>
    obtain ⟨-, rfl⟩ := hstep.timeout
    exact h.of_same (.refl _ _) ⟨rfl, rfl, rfl⟩ ⟨rfl, rfl, rfl⟩
  | wake =>
    obtain ⟨hpc, rfl⟩ := hstep.wake
    have hm := h.measures
    have hreports := h.reports
    have hturns := h.turns
    rw [hpc] at hm hturns
    rw [Sys.posts, hpc] at hreports
    exact ⟨h.entries_eq, hm, hreports.of_sameOn (.refl _ _) rfl rfl,
      Or.inl (hturns.resolve_right (by simp))⟩

/-- One step keeps the invariant, in an order that the priorities allow. -/
theorem step_ranging {e : Event} (hinv : s.Inv L) (h : s.Ranging S slave)
    (hstep : PrioritisedStep S s e t) : t.Ranging S slave := by
  refine step_ranging_of_waiting hinv h hstep.1 fun mallocOk he ↦ ?_
  subst he
  exact hstep.2.sendTask_waiting

/-- The invariant holds in every state of every run that the priorities allow. -/
theorem ranging_of_run {events : List Event}
    (hrun : Run (PrioritisedStep S) (.init slave) events s) : s.Ranging S slave := by
  induction hrun with
  | nil => exact ranging_init S slave
  | snoc hrun hstep ih =>
    obtain ⟨L, hinv⟩ := exists_inv_of_run (hrun.mono fun _ _ _ h ↦ h.1)
    exact step_ranging hinv ih hstep

/-! ### What is on the UART -/

theorem reports_mono {m n : ℕ} (h : m ≤ n) : reports S slave m <+: reports S slave n := by
  induction n, h using Nat.le_induction with
  | base => exact List.prefix_refl _
  | succ n _ ih =>
    rw [reports_succ]
    exact ih.trans (List.prefix_append _ _)

/-- What has been written is the beginning of the reports. -/
theorem Pending.Reports.txData_isPrefix {task : Pending ℕ SendPc} (h : task.Reports S slave n s) :
    s.log.txData <+: reports S slave n := by
  have hsent : ∀ {m}, s.Sent S slave m → m ≤ n → s.log.txData <+: reports S slave n :=
    fun hm hle ↦ hm.txData ▸ reports_mono hle
  cases task with
  | waiting => exact hsent h le_rfl
  | expired => exact h.elim
  | posted p =>
    obtain ⟨m, rfl, hm, -⟩ := h
    exact hsent hm (Nat.le_succ m)
  | running pc =>
    cases pc with
    | pend | freeData p | freeBuf p => exact hsent h le_rfl
    | got p | count p count | header p =>
      obtain ⟨m, rfl, hm, -⟩ := h
      exact hsent hm (Nat.le_succ m)
    | sending p copies out =>
      obtain ⟨m, rfl, -, -, hout⟩ := h
      rw [List.append_assoc] at hout
      exact ⟨_, hout⟩

/-! ### The next iteration comes -/

/-- Nothing undefined has happened, and `receiveTask` and `task2` wait. -/
structure Sys.Quiet (s : Sys σ) : Prop where
  bytes : s.byteQueue.task = .waiting
  commands : s.receiveQueue.task = .waiting
  defined : s.undefined = false

/-- How many steps `sendTask` can take before it waits, at most. A frame is at most twice as long
as its body, up to the delimiters. -/
def SendPc.work (h : Heap) : SendPc → ℕ
  | .pend => 1
  | .freeBuf _ => 2
  | .freeData _ => 3
  | .sending p copies out => 4 + out.length + copies * (2 * (h.body p).length + 3)
  | .header p => 5 + 3 * (2 * (h.body p).length + 7)
  | .count p _ => 6 + 3 * (2 * (h.body p).length + 7)
  | .got p => 7 + 3 * (2 * (h.body p).length + 7)

/-- How many steps `sendTask` can take before it waits, if no packet comes. -/
def Sys.sendWork (s : Sys σ) : ℕ :=
  match s.sendQueue.task with
  | .waiting | .expired => 0
  | .posted p => 8 + 3 * (2 * (s.heap.body p).length + 7)
  | .running pc => pc.work s.heap

theorem Sys.sendWork_of_running {pc : SendPc} (h : s.sendQueue.task = .running pc) :
    s.sendWork = pc.work s.heap := by
  rw [sendWork, h]

theorem length_frame_le (body : List Byte) : (frame body).length ≤ 2 * body.length + 2 := by
  have hlen := length_stuffed IsSpecial escapeByte body
  have hcount := List.countP_le_length (p := (IsSpecial ·)) (l := body)
  simp only [frame, stuffedFrame, List.length_cons, List.length_append, List.length_nil]
  omega

/-- A step of `sendTask` leaves it less to do. -/
theorem sendTaskStep_work {pc : SendPc} (hgood : ∀ r ∈ pc.refs, r.Good s.heap)
    (hentries : s.sendQueue.entries = []) (hstep : sendTaskStep s pc = some t) :
    t.sendWork < pc.work s.heap := by
  cases pc with
  | pend =>
    obtain rfl := Option.some.inj hstep
    rcases s.sendQueue.osqPend_cases .got with ⟨p, entries, hcons, -, -⟩ | ⟨-, htask, -⟩
    · rw [hentries] at hcons
      cases hcons
    · rw [Sys.sendWork, htask]
      show 0 < 1
      omega
  | got p =>
    obtain rfl := Option.some.inj hstep
    show 6 + 3 * (2 * (s.heap.body p).length + 7) < 7 + 3 * (2 * (s.heap.body p).length + 7)
    omega
  | count p count =>
    obtain rfl := Option.some.inj hstep
    show 5 + 3 * (2 * (s.heap.body p).length + 7) < 6 + 3 * (2 * (s.heap.body p).length + 7)
    omega
  | header p =>
    obtain ⟨packet, hpacket, hstep⟩ := Option.bind_eq_some_iff.1 hstep
    obtain ⟨packet', hinsert, hstep⟩ := Option.bind_eq_some_iff.1 hstep
    obtain ⟨heap, hset, hstep⟩ := Option.bind_eq_some_iff.1 hstep
    obtain rfl := Option.some.inj hstep
    obtain ⟨q, hq, hnonneg, hle⟩ := hgood _ (Multiset.mem_singleton_self _)
    obtain rfl := Option.some.inj (hpacket.symm.trans hq)
    obtain ⟨p', hp', -, -, hbody⟩ := insertHeader_eq s.packetId hnonneg hle
    obtain rfl := Option.some.inj (hinsert.symm.trans hp')
    have hnew := Heap.body_of_packet (Heap.packet_of_setPacket hset)
    have hold := Heap.body_of_packet hpacket
    rw [Sys.sendWork_of_running rfl, SendPc.work, SendPc.work, hold]
    show 4 + 0 + 3 * (2 * (heap.body p).length + 3) < _
    rw [hnew, hbody, List.length_cons, List.length_cons]
    omega
  | sending p copies out =>
    cases out with
    | cons byte out =>
      obtain rfl := Option.some.inj hstep
      rw [Sys.sendWork_of_running rfl, SendPc.work, SendPc.work, List.length_cons]
      show 4 + out.length + copies * (2 * (s.heap.body p).length + 3) < _
      omega
    | nil =>
      cases copies with
      | zero =>
        obtain rfl := Option.some.inj hstep
        rw [Sys.sendWork_of_running rfl, SendPc.work, SendPc.work]
        omega
      | succ copies =>
        obtain ⟨packet, hpacket, hstep⟩ := Option.bind_eq_some_iff.1 hstep
        obtain ⟨out, hsend, hstep⟩ := Option.bind_eq_some_iff.1 hstep
        obtain rfl := Option.some.inj hstep
        obtain ⟨q, hq, -, hle⟩ := hgood _ (Multiset.mem_singleton_self _)
        obtain rfl := Option.some.inj (hpacket.symm.trans hq)
        have hbody := Heap.body_of_packet hpacket
        rw [send_eq (by omega), Option.some_inj, ← hbody] at hsend
        have hlen := length_frame_le (s.heap.body p)
        rw [Sys.sendWork_of_running rfl, SendPc.work, SendPc.work, ← hsend, List.length_nil,
          Nat.add_mul, Nat.one_mul]
        show 4 + (frame (s.heap.body p)).length + copies * (2 * (s.heap.body p).length + 3) < _
        omega
  | freeData p | freeBuf p =>
    obtain ⟨heap, -, hstep⟩ := Option.bind_eq_some_iff.1 hstep
    obtain rfl := Option.some.inj hstep
    rw [Sys.sendWork_of_running rfl, SendPc.work, SendPc.work]
    omega

/-- While `receiveTask` waits, `sendTask` may go on. -/
theorem Sys.Quiet.allows_sendTask (h : s.Quiet) : s.Allows .sendTask := by
  rintro _ ⟨⟩ (_ | _ | _ | _) hready
  · simp [Sys.ready, h.bytes, Pending.isBlocked] at hready
  all_goals decide

/-- While all others wait, `task1` may go on. -/
theorem Sys.Quiet.allows_task1 (h : s.Quiet) (hwait : s.sendQueue.task = .waiting)
    (mallocOk : Bool) : s.Allows (.task1 mallocOk) := by
  rintro _ ⟨⟩ (_ | _ | _ | _) hready
  · simp [Sys.ready, h.bytes, Pending.isBlocked] at hready
  · simp [Sys.ready, hwait, Pending.isBlocked] at hready
  · simp [Sys.ready, h.commands, Pending.isBlocked] at hready
  · decide

/-- When `sendTask` is let run, it comes to wait. -/
theorem sendTask_drains {before : List Event}
    (hbefore : Run (PrioritisedStep S) (.init slave) before s) (hquiet : s.Quiet) :
    ∃ k t, Run (PrioritisedStep S) s (List.replicate k .sendTask) t ∧ t.Quiet ∧
      t.sendQueue.task = .waiting ∧ s.SameRange t := by
  -- on the work left to `sendTask`, which every one of its steps makes less
  induction hwork : s.sendWork using Nat.strong_induction_on generalizing s before with
  | _ work ih =>
  have hgo : ∀ u, Step S s .sendTask u → u.Quiet → s.SameRange u → u.sendWork < s.sendWork →
      ∃ k t, Run (PrioritisedStep S) s (List.replicate k .sendTask) t ∧ t.Quiet ∧
        t.sendQueue.task = .waiting ∧ s.SameRange t := by
    intro u hstep hquiet₁ hsame hless
    have hstep : PrioritisedStep S s .sendTask u := ⟨hstep, hquiet.allows_sendTask⟩
    obtain ⟨k, t, hrun, hquiet₂, hwait, hsame'⟩ :=
      ih _ (hwork ▸ hless) (hbefore.snoc hstep) hquiet₁ rfl
    exact ⟨k + 1, t, run_cons_iff.2 ⟨u, hstep, hrun⟩, hquiet₂, hwait,
      hsame'.task1.trans hsame.task1, hsame'.bus.trans hsame.bus,
      hsame'.stepper.trans hsame.stepper⟩
  cases htask : s.sendQueue.task with
  | waiting => exact ⟨0, s, .nil s, hquiet, htask, rfl, rfl, rfl⟩
  | expired =>
    have hreports := (ranging_of_run hbefore).reports
    rw [htask] at hreports
    exact hreports.elim
  | posted p =>
    refine hgo { s with sendQueue := s.sendQueue.goto (.got p) } ?_
      ⟨hquiet.bytes, hquiet.commands, hquiet.defined⟩ ⟨rfl, rfl, rfl⟩ ?_
    · simp [Step, step, hquiet.defined, htask]
    · rw [Sys.sendWork_of_running rfl, Sys.sendWork, htask]
      show 7 + 3 * (2 * (s.heap.body p).length + 7) < 8 + 3 * (2 * (s.heap.body p).length + 7)
      omega
  | running pc =>
    obtain ⟨L, hinv⟩ := exists_inv_of_run (hbefore.mono fun _ _ _ h ↦ h.1)
    obtain ⟨u, hu, hundef, -, -⟩ := sendTaskStep_of_inv hinv htask
    obtain ⟨hreceive, hcommand, hrange⟩ := sendTaskStep_footprint hu
    refine hgo u ?_ ⟨by rw [hreceive.byteQueue, hquiet.bytes],
      by rw [hcommand.receiveQueue, hquiet.commands], hundef.trans hquiet.defined⟩ hrange ?_
    · simp [Step, step, hquiet.defined, htask, Sys.orUndefined, hu]
    · rw [Sys.sendWork_of_running htask]
      exact sendTaskStep_work (hinv.good_of_send htask) (ranging_of_run hbefore).entries_eq hu

/-- How many steps `task1` is away from the end of its iteration, at most. -/
def Task1Pc.work : Task1Pc → ℕ
  | .start => 10
  | .poll => 9
  | .delayed => 8
  | .read => 7
  | .mallocBuf _ => 6
  | .mallocData _ _ => 5
  | .fill _ _ _ => 4
  | .load _ => 3
  | .count _ _ => 2
  | .post _ => 1
  | .rotate => 0

/-- A step of `task1` takes it closer to the end of its iteration, or ends it. -/
theorem task1Step_work {mallocOk : Bool} {pc : Task1Pc} (hpc : pc ≠ .delayed)
    (hstep : task1Step S mallocOk s pc = some t) :
    (t.task1.work < pc.work ∧ t.log.stepper = s.log.stepper) ∨
      (pc = .rotate ∧ t.task1 = .poll ∧ t.log.stepper.length = s.log.stepper.length + 1) := by
  cases pc with
  | start | load p | count p count | post p =>
    obtain rfl := Option.some.inj hstep
    exact Or.inl ⟨by simp [Task1Pc.work], rfl⟩
  | poll =>
    obtain ⟨⟨ok, bus⟩, -, hstep⟩ := Option.bind_eq_some_iff.1 hstep
    obtain rfl := Option.some.inj hstep
    cases ok <;> exact Or.inl ⟨by simp [Task1Pc.work], rfl⟩
  | delayed => exact absurd rfl hpc
  | read =>
    obtain ⟨⟨range, bus⟩, -, hstep⟩ := Option.bind_eq_some_iff.1 hstep
    obtain rfl := Option.some.inj hstep
    exact Or.inl ⟨by simp [Task1Pc.work], rfl⟩
  | mallocBuf range | mallocData range p =>
    simp only [task1Step] at hstep
    split_ifs at hstep
    obtain rfl := Option.some.inj hstep
    exact Or.inl ⟨by simp [Task1Pc.work], rfl⟩
  | fill range p b =>
    obtain ⟨buffData, -, hstep⟩ := Option.bind_eq_some_iff.1 hstep
    obtain ⟨heap, -, hstep⟩ := Option.bind_eq_some_iff.1 hstep
    obtain ⟨heap', -, hstep⟩ := Option.bind_eq_some_iff.1 hstep
    obtain rfl := Option.some.inj hstep
    exact Or.inl ⟨by simp [Task1Pc.work], rfl⟩
  | rotate =>
    obtain rfl := Option.some.inj hstep
    exact Or.inr ⟨rfl, rfl, by simp⟩

/-- `task1` can go on when all others wait and `malloc` does not fail. -/
theorem exists_task1_step {before : List Event}
    (hbefore : Run (PrioritisedStep S) (.init slave) before s) (hquiet : s.Quiet)
    (hwait : s.sendQueue.task = .waiting) :
    ∃ e t, PrioritisedStep S s e t ∧ e.MallocOk ∧ t.Quiet ∧
      ((t.task1.work < s.task1.work ∧ t.log.stepper = s.log.stepper) ∨
        (t.task1 = .poll ∧ t.log.stepper.length = s.log.stepper.length + 1)) := by
  -- in `OSTimeDlyHMSM` it is the clock that lets the task go on
  by_cases hdelayed : s.task1 = .delayed
  · refine ⟨.wake, { s with task1 := .read }, ⟨?_, fun _ h ↦ by cases h⟩, trivial,
      ⟨hquiet.bytes, hquiet.commands, hquiet.defined⟩, Or.inl ⟨?_, rfl⟩⟩
    · simp [Step, step, hquiet.defined, hdelayed]
    · simp [hdelayed, Task1Pc.work]
  obtain ⟨L, hinv⟩ := exists_inv_of_run (hbefore.mono fun _ _ _ h ↦ h.1)
  have hok : ¬ s.Fails (.task1 true) := by
    simp only [Sys.Fails]
    split <;> simp
  obtain ⟨t, ht, hundef, -, -⟩ := task1Step_of_inv S hinv hok
  obtain ⟨hreceive, hcommand, -⟩ := task1Step_footprint ht
  refine ⟨.task1 true, t, ⟨?_, hquiet.allows_task1 hwait true⟩, rfl,
    ⟨by rw [hreceive.byteQueue, hquiet.bytes], by rw [hcommand.receiveQueue, hquiet.commands],
      hundef.trans hquiet.defined⟩, (task1Step_work hdelayed ht).imp_right And.right⟩
  unfold Step step
  rw [if_neg (by simp [hquiet.defined])]
  cases hpc : s.task1 with
  | delayed => exact absurd hpc hdelayed
  | _ =>
    rw [hpc] at ht
    simp [Sys.orUndefined, ht]

/-- **An iteration comes to its end** when the tasks are let run and `malloc` does not fail. -/
theorem exists_iteration {before : List Event}
    (hbefore : Run (PrioritisedStep S) (.init slave) before s) (hquiet : s.Quiet) :
    ∃ events t, Run (PrioritisedStep S) s events t ∧ (∀ e ∈ events, e.MallocOk) ∧ t.Quiet ∧
      t.task1 = .poll ∧ t.log.stepper.length = s.log.stepper.length + 1 := by
  -- on the steps that `task1` is away from the end; before each of them `sendTask` is drained
  induction hwork : s.task1.work using Nat.strong_induction_on generalizing s before with
  | _ work ih =>
  obtain ⟨k, u, hdrain, hquiet₁, hwait, hsame⟩ := sendTask_drains hbefore hquiet
  obtain ⟨e, v, hstep, hmalloc, hquiet₂, hcases⟩ :=
    exists_task1_step (hbefore.append hdrain) hquiet₁ hwait
  rw [hsame.task1, hsame.stepper] at hcases
  have hrun := hdrain.snoc hstep
  have hmallocs : ∀ e' ∈ List.replicate k Event.sendTask ++ [e], e'.MallocOk := by
    intro e' he'
    rcases List.mem_append.1 he' with he' | he'
    · obtain rfl := List.eq_of_mem_replicate he'
      trivial
    · exact (List.mem_singleton.1 he') ▸ hmalloc
  rcases hcases with ⟨hless, hstepper⟩ | ⟨hpoll, hlen⟩
  · obtain ⟨events, t, hrun₂, hmallocs₂, hquiet₃, hpoll, hlen⟩ :=
      ih _ (hwork ▸ hless) (hbefore.append hrun) hquiet₂ rfl
    refine ⟨_, t, hrun.append hrun₂, fun e' he' ↦ ?_, hquiet₃, hpoll, by rw [hlen, hstepper]⟩
    exact (List.mem_append.1 he').elim (hmallocs e') (hmallocs₂ e')
  · exact ⟨_, v, hrun, hmallocs, hquiet₂, hpoll, hlen⟩

end

/-- Any number of iterations can be run through. -/
theorem exists_iterations (S : Slave σ) (slave : σ) (n : ℕ) :
    ∃ events t, Run (PrioritisedStep S) (.init slave) events t ∧ (∀ e ∈ events, e.MallocOk) ∧
      t.Quiet ∧ t.task1 = .poll ∧ t.log.stepper.length = n := by
  induction n with
  | zero =>
    -- the tasks pend on their queues, and `task1` gets to its first poll
    have hstart : ([.receiveTask true, .sendTask, .task2, .task1 true] : List Event).foldlM
        (prioritisedStep S) (.init slave) = some _ := rfl
    refine ⟨_, _, (run_foldlM_iff.2 hstart).mono fun _ _ _ ↦ prioritisedStep_eq_some_iff.1, ?_,
      ⟨rfl, rfl, rfl⟩, rfl, rfl⟩
    simp [Event.MallocOk]
  | succ n ih =>
    obtain ⟨before, s, hbefore, hmallocs, hquiet, -, hlen⟩ := ih
    obtain ⟨events, t, hrun, hmallocs', hquiet', hpoll, hlen'⟩ := exists_iteration hbefore hquiet
    refine ⟨_, t, hbefore.append hrun, fun e he ↦ ?_, hquiet', hpoll, by rw [hlen', hlen]⟩
    exact (List.mem_append.1 he).elim (hmallocs e) (hmallocs' e)

/-- **Range reporting.** In every run that the priorities allow, what has been written to the UART
is at every moment the beginning of the reports of the iterations in order, and all of those of
the iterations that are over when `task1` begins the next one; and any number of iterations can
come to pass. A report is three copies of the frame of the id, the number two and the range, which
is made of both register bytes if every byte of the poll and of the two reads is acknowledged, and
is `0` otherwise. -/
theorem ranges_reported (S : Slave σ) (slave : σ) :
    (∀ events s, Run (PrioritisedStep S) (.init slave) events s →
      s.log.txData <+: reports S slave (s.log.stepper.length + 1) ∧
        (s.task1 = .poll → s.log.txData = reports S slave s.log.stepper.length)) ∧
      (∀ n, ∃ events s, Run (PrioritisedStep S) (.init slave) events s ∧
        (∀ e ∈ events, e.MallocOk) ∧ s.undefined = false ∧ s.task1 = .poll ∧
        s.log.stepper.length = n) ∧
      ∀ x, ((S.bytewise.exchange x rangePlan).acked = true → ∃ upper lower,
          (S.bytewise.exchange x rangePlan).bytes = [upper, lower] ∧
            rangeFrom S x = 256 * upper.toNat + lower.toNat) ∧
        ((S.bytewise.exchange x rangePlan).acked = false → rangeFrom S x = 0) := by
  refine ⟨fun events s hrun ↦ ?_, fun n ↦ ?_, fun x ↦ ⟨fun hacked ↦ ?_, fun hrefused ↦ ?_⟩⟩
  · -- the invariant, read off at any moment and at the beginning of an iteration
    have hranging := ranging_of_run hrun
    refine ⟨hranging.reports.txData_isPrefix.trans (reports_mono ?_), fun hpoll ↦ ?_⟩
    · unfold Sys.posts
      split <;> omega
    · have hreports := hranging.reports
      rw [hranging.turns.resolve_right (by simp [hpoll]), Sys.posts, hpoll] at hreports
      exact hreports.txData
  · obtain ⟨events, s, hrun, hmallocs, hquiet, hpoll, hlen⟩ := exists_iterations S slave n
    exact ⟨events, s, hrun, hmallocs, hquiet.defined, hpoll, hlen⟩
  · obtain ⟨upper, lower, hbytes⟩ := List.length_eq_two.1 (S.bytewise.length_bytes_of_acked hacked)
    exact ⟨upper, lower, hbytes, by simp [rangeFrom, hacked, hbytes, rangeOf]⟩
  · simp [rangeFrom, hrefused]

/-- Two iterations with no device on the bus: a range of `0` each, under the ids 4 and 5, with the
id and the length escaped. -/
theorem ranges_reported_absent :
    ∃ events s, Run (PrioritisedStep Slave.absent) (.init ()) events s ∧
      s.log.txData = (List.replicate 3 [2, 4, 4, 4, 2, 0, 0, 3]).flatten ++
        (List.replicate 3 [2, 5, 4, 2, 0, 0, 3]).flatten := by
  obtain ⟨hreports, hexists, -⟩ := ranges_reported Slave.absent ()
  obtain ⟨events, s, hrun, -, -, hpoll, hlen⟩ := hexists 2
  refine ⟨events, s, hrun, ?_⟩
  rw [(hreports events s hrun).2 hpoll, hlen]
  decide +kernel

end MappingRobot
