import Mathlib.Algebra.Order.Group.Multiset
import Mathlib.Tactic.Abel
import MappingRobot.Library.Run
import MappingRobot.System

/-!
# Who owns a packet

Every `LenBuffer` and every data block is held by a task or lies in a queue slot until it is
freed: `Sys.refs` says what each task has a hold of at each of its program points. The invariant
`Sys.Inv` puts the ledger of the heap on these references, up to a multiset of references
`leaked` that nobody has a hold of any more, and says that the buffer of `receiveTask` is in
order.

A step is undefined exactly when a byte comes for a full frame or `malloc` fails (`Sys.Fails`).
Otherwise it keeps the invariant, leaves alone what its task does not hold, and adds to
`leaked` only by a post to a full queue (`Sys.lost`). So the system accounts for all its
packets exactly as long as none of this happens (`accounted_iff`).
-/

namespace MappingRobot

open Delimited LabelledRun

/-! ### References of the tasks and of the queues -/

/-- What `receiveTask` has a hold of. -/
def ReceivePc.refs : ReceivePc → Multiset Ref
  | .pend | .got _ | .mallocBuf => 0
  | .mallocData p => {.shell p}
  | .fill p => {.packet p (.blank bufSize)}
  | .post p => {.packet p .readable}

/-- `receiveTask` is making a packet of an open frame. -/
def ReceivePc.isFraming : ReceivePc → Bool
  | .mallocBuf | .mallocData _ | .fill _ => true
  | .pend | .got _ | .post _ => false

/-- What `sendTask` has a hold of. -/
def SendPc.refs : SendPc → Multiset Ref
  | .pend => 0
  | .got p | .count p _ | .header p => {.packet p .headroom}
  | .sending p _ _ | .freeData p => {.packet p .readable}
  | .freeBuf p => {.shell p}

/-- What `task2` has a hold of. -/
def Task2Pc.refs : Task2Pc → Multiset Ref
  | .pend | .timedOut => 0
  | .got p | .handle p _ | .freeData p => {.packet p .readable}
  | .freeBuf p => {.shell p}

/-- What `task1` has a hold of. -/
def Task1Pc.refs : Task1Pc → Multiset Ref
  | .start | .poll | .delayed | .read | .mallocBuf _ | .rotate => 0
  | .mallocData _ p => {.shell p}
  | .fill _ p b => {.shell p, .block b 10}
  | .load p | .count p _ | .post p => {.packet p .headroom}

/-- What a task that pends on a queue of packets has a hold of, in its TCB or at its program
point. -/
def Pending.refs {κ : Type} (kind : PacketKind) (own : κ → Multiset Ref) :
    Pending ℕ κ → Multiset Ref
  | .waiting | .expired => 0
  | .posted p => {.packet p kind}
  | .running pc => own pc

/-- What `receiveTask` has a hold of. A message in its TCB is a byte, not a packet. -/
def Pending.receiveRefs {α : Type} : Pending α ReceivePc → Multiset Ref
  | .waiting | .expired | .posted _ => 0
  | .running pc => pc.refs

/-- The packets in the slots of a queue. -/
def PendQueue.slots {κ : Type} {size : ℕ} (kind : PacketKind) (q : PendQueue ℕ size κ) :
    Multiset Ref :=
  (q.entries.map fun p ↦ Ref.packet p kind : List Ref)

/-! ### Queue operations and references -/

section

variable {κ : Type} {size : ℕ} {kind : PacketKind} {own : κ → Multiset Ref}

/-- The references of a queue with its task. -/
def PendQueue.refs (kind : PacketKind) (own : κ → Multiset Ref) (q : PendQueue ℕ size κ) :
    Multiset Ref :=
  q.task.refs kind own + q.slots kind

/-- A post that is not refused moves its packet to the queue or to the task behind it. -/
theorem PendQueue.refs_osqPost {q : PendQueue ℕ size κ} (h : ¬ q.IsFull) (p : ℕ) :
    (q.osqPost p).2.refs kind own = .packet p kind ::ₘ q.refs kind own := by
  obtain ⟨-, -, ⟨hwait, htask, hentries⟩ | ⟨-, htask, hentries⟩⟩ := osqPost_of_not_isFull h p
  · have hnil := q.entries_eq_nil hwait
    have hnone : q.task.refs kind own = 0 := by
      cases ht : q.task <;> simp_all [Pending.onWaitList, Pending.refs]
    rw [refs, refs, htask, slots, slots, hentries, hnil, hnone]
    rfl
  · rw [refs, refs, htask, slots, slots, hentries, List.map_append, ← Multiset.coe_add,
      List.map_singleton, Multiset.coe_singleton, ← add_assoc, Multiset.add_comm _ {_},
      Multiset.singleton_add]

/-- A pend moves the oldest packet to the task. -/
theorem PendQueue.refs_osqPend (q : PendQueue ℕ size κ) (got : ℕ → κ) {pc : κ}
    (hpc : q.task = .running pc) (hown : own pc = 0) (hgot : ∀ p, own (got p) = {.packet p kind}) :
    (q.osqPend got).refs kind own = q.refs kind own := by
  rcases q.osqPend_cases got with ⟨p, entries, hentries, htask, hentries'⟩ | ⟨hnil, htask, hnil'⟩
  · simp [refs, slots, htask, hpc, hentries, hentries', Pending.refs, hown, hgot]
  · simp [refs, slots, htask, hpc, hnil, hnil', Pending.refs, hown]

theorem PendQueue.refs_of_running {q : PendQueue ℕ size κ} {pc : κ} (h : q.task = .running pc) :
    q.refs kind own = own pc + q.slots kind := by
  rw [refs, h, Pending.refs]

end

namespace Sys

variable {σ : Type}

/-- What the tasks have a hold of. -/
def held (s : Sys σ) : Multiset Ref :=
  s.byteQueue.task.receiveRefs + s.receiveQueue.task.refs .readable Task2Pc.refs +
    s.sendQueue.task.refs .headroom SendPc.refs + s.task1.refs

/-- What is in queue slots. -/
def queued (s : Sys σ) : Multiset Ref :=
  s.receiveQueue.slots .readable + s.sendQueue.slots .headroom

/-- What `receiveTask` has a hold of. -/
def receiveRefs (s : Sys σ) : Multiset Ref :=
  s.byteQueue.task.receiveRefs

/-- What `task2` has a hold of, and what is in its queue. -/
def task2Refs (s : Sys σ) : Multiset Ref :=
  s.receiveQueue.refs .readable Task2Pc.refs

/-- What `sendTask` has a hold of, and what is in its queue. -/
def sendRefs (s : Sys σ) : Multiset Ref :=
  s.sendQueue.refs .headroom SendPc.refs

/-- All references to the heap. -/
def refs (s : Sys σ) : Multiset Ref :=
  s.receiveRefs + s.task2Refs + s.sendRefs + s.task1.refs

theorem held_add_queued (s : Sys σ) : s.held + s.queued = s.refs := by
  simp only [held, queued, refs, receiveRefs, task2Refs, sendRefs, PendQueue.refs]
  abel

/-- The invariant: the ledger of the heap, with the references that have been lost, and the
buffer of `receiveTask`. -/
structure Inv (s : Sys σ) (leaked : Multiset Ref) : Prop where
  owned : s.heap.Owned (s.refs + leaked)
  tracks : ∃ stream, Tracks s.pb (openBody startByte endByte stream)
  /-- While `receiveTask` makes a packet, its frame is open. -/
  started : ∀ pc, s.byteQueue.task = .running pc → pc.isFraming = true → s.pb.isStarted = true

/-! ### What can go wrong -/

/-- The step is not defined: a byte comes for a frame that fills the buffer, or `malloc`
fails. -/
def Fails (s : Sys σ) : Event → Prop
  | .receiveTask mallocOk =>
    match s.byteQueue.task with
    | .running (.got byte) =>
      byte ≠ startByte ∧ byte ≠ endByte ∧ s.pb.isStarted = true ∧ s.pb.myLen = bufSize
    | .running .mallocBuf | .running (.mallocData _) => mallocOk = false
    | _ => False
  | .task1 mallocOk =>
    match s.task1 with
    | .mallocBuf _ | .mallocData _ _ => mallocOk = false
    | _ => False
  | _ => False

/-- The step calls `malloc`, which fails. -/
def MallocFails (s : Sys σ) : Event → Prop
  | .receiveTask mallocOk =>
    match s.byteQueue.task with
    | .running .mallocBuf | .running (.mallocData _) => mallocOk = false
    | _ => False
  | .task1 mallocOk =>
    match s.task1 with
    | .mallocBuf _ | .mallocData _ _ => mallocOk = false
    | _ => False
  | _ => False

/-- The packet that the step posts to a full queue, if it does. -/
def lost (s : Sys σ) : Event → Multiset Ref
  | .receiveTask _ =>
    match s.byteQueue.task with
    | .running (.post p) => if s.receiveQueue.IsFull then {.packet p .readable} else 0
    | _ => 0
  | .task1 _ =>
    match s.task1 with
    | .post p => if s.sendQueue.IsFull then {.packet p .headroom} else 0
    | _ => 0
  | _ => 0

end Sys

/-- A `malloc` that the event makes succeeds. -/
def Event.MallocOk : Event → Prop
  | .receiveTask mallocOk | .task1 mallocOk => mallocOk = true
  | _ => True

/-! ### Steps of the tasks -/

section

variable {σ : Type} {s : Sys σ} {L : Multiset Ref}

theorem Sys.MallocFails.fails {e : Event} (h : s.MallocFails e) : s.Fails e := by
  cases e with
  | receiveTask mallocOk =>
    simp only [Sys.MallocFails] at h
    simp only [Sys.Fails]
    split at h <;> simp_all
  | task1 mallocOk => exact h
  | irq byte | sendTask | task2 | timeout | wake => exact h

theorem Event.MallocOk.not_mallocFails {e : Event} (h : e.MallocOk) : ¬ s.MallocFails e := by
  cases e with
  | receiveTask mallocOk | task1 mallocOk =>
    obtain rfl : mallocOk = true := h
    simp only [Sys.MallocFails]
    split <;> simp
  | irq byte | sendTask | task2 | timeout | wake => exact id

theorem Sys.Inv.good (h : s.Inv L) {r : Ref} (hr : r ∈ s.refs + L) : r.Good s.heap :=
  h.owned.good r hr

/-- What everybody but `receiveTask` has a hold of. -/
def Sys.exceptReceive (s : Sys σ) : Multiset Ref :=
  s.task2Refs + s.sendRefs + s.task1.refs

theorem Sys.refs_eq_receive (s : Sys σ) : s.refs = s.receiveRefs + s.exceptReceive := by
  simp only [refs, exceptReceive]
  abel

theorem Sys.receiveRefs_of_running {pc : ReceivePc} (h : s.byteQueue.task = .running pc) :
    s.receiveRefs = pc.refs := by
  rw [receiveRefs, h, Pending.receiveRefs]

/-- The receive side of the invariant, for a state that `receiveTask` has moved to. -/
theorem Sys.Inv.of_receive {s' : Sys σ} {pc : ReceivePc} (hpc : s'.byteQueue.task = .running pc)
    (howned : s'.heap.Owned (pc.refs + (s'.exceptReceive + L)))
    (htracks : ∃ stream, Tracks s'.pb (openBody startByte endByte stream))
    (hstarted : pc.isFraming = true → s'.pb.isStarted = true) : s'.Inv L where
  owned := by rwa [refs_eq_receive, receiveRefs_of_running hpc, add_assoc]
  tracks := htracks
  started pc' hpc' hframing := by
    rw [hpc, Pending.running.injEq] at hpc'
    exact hstarted (hpc' ▸ hframing)

/-- **A step of `receiveTask`** keeps the invariant and leaves alone what the others hold,
unless it fails. -/
theorem receiveTaskStep_of_inv (h : s.Inv L) {pc : ReceivePc}
    (hpc : s.byteQueue.task = .running pc) {mallocOk : Bool}
    (hok : ¬ s.Fails (.receiveTask mallocOk)) :
    ∃ s', receiveTaskStep mallocOk s pc = some s' ∧ s'.undefined = s.undefined ∧
      s'.Inv (s.lost (.receiveTask mallocOk) + L) ∧
      s.heap.SameOn s'.heap (s.exceptReceive + L) := by
  simp only [Sys.Fails, hpc] at hok
  simp only [Sys.lost, hpc]
  -- the references are split into those of the task and the rest, which the heap rules frame
  have howned : s.heap.Owned (pc.refs + (s.exceptReceive + L)) := by
    rw [← add_assoc, ← Sys.receiveRefs_of_running hpc, ← Sys.refs_eq_receive]
    exact h.owned
  obtain ⟨stream, htracks⟩ := h.tracks
  have hstarted := h.started pc hpc
  cases pc with
  | pend =>
    refine ⟨_, rfl, rfl, ?_, .refl _ _⟩
    rw [Multiset.zero_add]
    rcases s.byteQueue.osqPend_cases fun m ↦ ReceivePc.got (m.setWidth 8) with
      ⟨m, entries, -, htask, -⟩ | ⟨-, htask, -⟩
    · exact .of_receive htask howned ⟨stream, htracks⟩ (by simp [ReceivePc.isFraming])
    · refine ⟨?_, ⟨stream, htracks⟩, fun pc hpc ↦ ?_⟩
      · rw [Sys.refs_eq_receive, Sys.receiveRefs, htask, Pending.receiveRefs, add_assoc]
        exact howned
      · rw [htask] at hpc
        cases hpc
  | got byte =>
    rw [Multiset.zero_add]
    rcases takeByte_of_tracks htracks byte with
      ⟨rfl, hsome, htake⟩ | ⟨pb, htake, htracks', -⟩ | ⟨hstart, hend, -, body, hopen, hfull⟩
    · refine ⟨{ s with
          leds := s.leds.taken endByte
          byteQueue := s.byteQueue.goto .mallocBuf }, ?_, rfl,
        .of_receive rfl howned ⟨stream, htracks⟩ fun _ ↦ htracks.isStarted_eq.trans hsome,
        .refl _ _⟩
      simp only [receiveTaskStep]
      rw [show osErrNone = osNoErr from rfl, htake]
      rfl
    · refine ⟨{ s with
          leds := s.leds.taken byte
          pb := pb
          byteQueue := s.byteQueue.goto .pend }, ?_, rfl,
        .of_receive rfl howned ⟨stream ++ [byte], htracks'⟩ (by simp [ReceivePc.isFraming]),
        .refl _ _⟩
      simp only [receiveTaskStep]
      rw [show osErrNone = osNoErr from rfl, htake]
      rfl
    · -- a byte for a full frame is excluded
      rw [hopen] at htracks
      exact absurd ⟨hstart, hend, htracks.1, by rw [htracks.2.len_eq, hfull]⟩ hok
  | mallocBuf =>
    rw [Multiset.zero_add]
    have hmalloc : mallocOk = true := by simpa using hok
    obtain ⟨howned', hsame⟩ := Heap.Owned.mallocLenBuffer howned
    refine ⟨{ s with
        heap := s.heap.mallocLenBuffer.2
        byteQueue := s.byteQueue.goto (.mallocData s.heap.mallocLenBuffer.1) }, ?_, rfl,
      .of_receive rfl ?_ ⟨stream, htracks⟩ fun _ ↦ hstarted rfl, ?_⟩
    · rw [receiveTaskStep, if_pos hmalloc]
    · rwa [ReceivePc.refs, Multiset.zero_add] at howned'
    · rwa [ReceivePc.refs, Multiset.zero_add] at hsame
  | mallocData p =>
    rw [Multiset.zero_add]
    have hmalloc : mallocOk = true := by simpa using hok
    obtain ⟨howned₁, hsame₁⟩ := Heap.Owned.mallocBlock howned bufSize
    rw [ReceivePc.refs, Multiset.singleton_add] at howned₁ hsame₁
    rw [Multiset.cons_swap] at howned₁
    obtain ⟨buf, hload, hlen⟩ := howned₁.good (.block (s.heap.mallocBlock bufSize).1 bufSize)
      (by simp)
    obtain ⟨h', hset, howned₂, hsame₂, -⟩ :=
      howned₁.setLenBuffer (k := .blank bufSize) hload (show PacketKind.Fits ⟨buf, 0⟩ _ from hlen)
    refine ⟨{ s with
        heap := h'
        byteQueue := s.byteQueue.goto (.fill p) }, ?_, rfl,
      .of_receive rfl howned₂ ⟨stream, htracks⟩ fun _ ↦ hstarted rfl, ?_⟩
    · simp [receiveTaskStep, hmalloc, hset]
    · exact hsame₁.tail.trans hsame₂
  | fill p =>
    rw [Multiset.zero_add]
    obtain ⟨body, hopen⟩ :=
      Option.isSome_iff_exists.1 (htracks.isStarted_eq.symm.trans (hstarted rfl))
    rw [hopen] at htracks
    obtain ⟨pb, packet, hfinish, htracks', hbody, hlen, hbuf⟩ := finishPacket_of_tracks htracks
    rw [ReceivePc.refs, Multiset.singleton_add] at howned
    obtain ⟨old, hold, hsize⟩ := howned.good _ (Multiset.mem_cons_self _ _)
    -- what `mRead` returns is the length of the open body, and so within the block
    have hfits : PacketKind.readable.Fits packet := by
      have := htracks.2.length_le
      exact ⟨by omega, by omega⟩
    obtain ⟨h', hset, howned', hsame, -⟩ := howned.setPacket hold (hbuf.trans hsize.symm) hfits
    refine ⟨{ s with
        heap := h'
        pb := pb
        byteQueue := s.byteQueue.goto (.post p) }, ?_, rfl,
      .of_receive rfl howned' ⟨[], by simpa using htracks'⟩ (by simp [ReceivePc.isFraming]), hsame⟩
    simp [receiveTaskStep, hfinish, hset]
  | post p =>
    rw [ReceivePc.refs, Multiset.singleton_add] at howned
    obtain ⟨packet, hpacket, -⟩ := howned.good _ (Multiset.mem_cons_self _ _)
    refine ⟨{ s with
        receiveQueue := (s.receiveQueue.osqPost p).2
        log := { s.log with posted := s.log.posted ++ [packet] }
        byteQueue := s.byteQueue.goto .pend }, by simp [receiveTaskStep, hpacket], rfl,
      .of_receive rfl ?_ ⟨stream, htracks⟩ (by simp [ReceivePc.isFraming]), .refl _ _⟩
    rw [ReceivePc.refs, Multiset.zero_add]
    show s.heap.Owned (Sys.exceptReceive _ +
      ((if s.receiveQueue.IsFull then {.packet p .readable} else 0) + L))
    by_cases hfull : s.receiveQueue.IsFull
    · -- the post is refused, and nobody has a hold of the packet any more
      rw [if_pos hfull, Multiset.singleton_add, Multiset.add_cons]
      simp only [PendQueue.osqPost_of_isFull hfull]
      exact howned
    · rw [if_neg hfull, Multiset.zero_add]
      simpa [Sys.exceptReceive, Sys.task2Refs, Sys.sendRefs, PendQueue.refs_osqPost hfull]
        using howned

/-! ### The other tasks -/

/-- What everybody but `task2` and its queue has a hold of. -/
def Sys.exceptTask2 (s : Sys σ) : Multiset Ref :=
  s.receiveRefs + s.sendRefs + s.task1.refs

/-- What everybody but `sendTask` and its queue has a hold of. -/
def Sys.exceptSend (s : Sys σ) : Multiset Ref :=
  s.receiveRefs + s.task2Refs + s.task1.refs

/-- What everybody but `task1` has a hold of. -/
def Sys.exceptTask1 (s : Sys σ) : Multiset Ref :=
  s.receiveRefs + s.task2Refs + s.sendRefs

theorem Sys.refs_eq_task2 (s : Sys σ) : s.refs = s.task2Refs + s.exceptTask2 := by
  simp only [refs, exceptTask2]
  abel

theorem Sys.refs_eq_send (s : Sys σ) : s.refs = s.sendRefs + s.exceptSend := by
  simp only [refs, exceptSend]
  abel

theorem Sys.refs_eq_task1 (s : Sys σ) : s.refs = s.task1.refs + s.exceptTask1 := by
  simp only [refs, exceptTask1]
  abel

/-- The side of `task2` of the invariant, for a state that it has moved to. -/
theorem Sys.Inv.of_task2 {s' : Sys σ} {pc : Task2Pc} (h : s.Inv L)
    (hpc : s'.receiveQueue.task = .running pc)
    (howned : s'.heap.Owned (pc.refs + (s'.receiveQueue.slots .readable + s'.exceptTask2 + L)))
    (hpb : s'.pb = s.pb) (hbytes : s'.byteQueue = s.byteQueue) : s'.Inv L where
  owned := by
    rwa [refs_eq_task2, task2Refs, PendQueue.refs_of_running hpc, add_assoc, add_assoc,
      ← add_assoc _ _ L]
  tracks := hpb ▸ h.tracks
  started := hpb ▸ hbytes ▸ h.started

/-- **A step of `task2`** keeps the invariant and leaves alone what the others hold and what is
in its queue. -/
theorem task2Step_of_inv (h : s.Inv L) {pc : Task2Pc} (hpc : s.receiveQueue.task = .running pc) :
    ∃ s', task2Step s pc = some s' ∧ s'.undefined = s.undefined ∧ s'.Inv L ∧
      s.heap.SameOn s'.heap (s.receiveQueue.slots .readable + s.exceptTask2 + L) := by
  have howned : s.heap.Owned
      (pc.refs + (s.receiveQueue.slots .readable + s.exceptTask2 + L)) := by
    rw [← add_assoc, ← add_assoc, ← PendQueue.refs_of_running hpc, ← Sys.task2Refs,
      ← Sys.refs_eq_task2]
    exact h.owned
  cases pc with
  | pend =>
    refine ⟨{ s with receiveQueue := s.receiveQueue.osqPend .got }, rfl, rfl,
      ⟨?_, h.tracks, h.started⟩, .refl _ _⟩
    rw [Sys.refs_eq_task2, Sys.task2Refs, s.receiveQueue.refs_osqPend .got hpc rfl fun _ ↦ rfl]
    exact (Sys.refs_eq_task2 s) ▸ h.owned
  | got p =>
    obtain ⟨slice, hslice, -, hle⟩ := howned.good (.packet p .readable) (by simp [Task2Pc.refs])
    by_cases hlen : slice.len > 0
    · have hfirst : loadAt slice.buf 0 = some slice.buf[0] :=
        loadAt_of_lt (i := 0) (by omega)
      refine ⟨{ s with
          leds := s.leds.command slice.buf[0]
          receiveQueue := s.receiveQueue.goto (.handle p 0) }, ?_, rfl,
        h.of_task2 rfl howned rfl rfl, .refl _ _⟩
      simp [task2Step, hslice, hlen, hfirst]
    · refine ⟨{ s with receiveQueue := s.receiveQueue.goto (.handle p 0) }, ?_, rfl,
        h.of_task2 rfl howned rfl rfl, .refl _ _⟩
      simp [task2Step, hslice, hlen]
  | handle p i =>
    obtain ⟨slice, hslice, -, hle⟩ := howned.good (.packet p .readable) (by simp [Task2Pc.refs])
    by_cases hlen : (i : ℤ) < slice.len
    · have hlt : i < slice.buf.length := by omega
      refine ⟨{ s.handleBluetoothInput .command slice.buf[i] with
          receiveQueue := s.receiveQueue.goto (.handle p (i + 1)) }, ?_, rfl,
        h.of_task2 rfl howned rfl rfl, .refl _ _⟩
      simp only [task2Step, hslice, loadAt_of_lt hlt, Option.bind_eq_bind, Option.bind_some,
        if_pos hlen]
      rfl
    · refine ⟨{ s with receiveQueue := s.receiveQueue.goto (.freeData p) }, ?_, rfl,
        h.of_task2 rfl howned rfl rfl, .refl _ _⟩
      simp [task2Step, hslice, hlen]
  | freeData p =>
    rw [Task2Pc.refs, Multiset.singleton_add] at howned
    obtain ⟨h', hfree, howned', hsame⟩ := howned.freeData
    exact ⟨{ s with heap := h', receiveQueue := s.receiveQueue.goto (.freeBuf p) },
      by simp [task2Step, hfree], rfl, h.of_task2 rfl howned' rfl rfl, hsame⟩
  | freeBuf p =>
    rw [Task2Pc.refs, Multiset.singleton_add] at howned
    obtain ⟨h', hfree, howned', hsame⟩ := howned.freeLenBuffer
    refine ⟨{ s with heap := h', receiveQueue := s.receiveQueue.goto .pend },
      by simp [task2Step, hfree], rfl, h.of_task2 rfl ?_ rfl rfl, hsame⟩
    rw [Task2Pc.refs, Multiset.zero_add]
    exact howned'
  | timedOut =>
    exact ⟨{ s.handleBluetoothInput .timeout btCmdStop with
        leds := s.leds.timedOut
        receiveQueue := s.receiveQueue.goto .pend }, rfl, rfl, h.of_task2 rfl howned rfl rfl,
      .refl _ _⟩

/-- What `sendTask` has a hold of at its program point is good. -/
theorem Sys.Inv.good_of_send (h : s.Inv L) {pc : SendPc} (hpc : s.sendQueue.task = .running pc) :
    ∀ r ∈ pc.refs, r.Good s.heap := fun r hr ↦
  h.good (by simp [refs_eq_send, sendRefs, PendQueue.refs_of_running hpc, hr])

/-- The side of `sendTask` of the invariant, for a state that it has moved to. -/
theorem Sys.Inv.of_send {s' : Sys σ} {pc : SendPc} (h : s.Inv L)
    (hpc : s'.sendQueue.task = .running pc)
    (howned : s'.heap.Owned (pc.refs + (s'.sendQueue.slots .headroom + s'.exceptSend + L)))
    (hpb : s'.pb = s.pb) (hbytes : s'.byteQueue = s.byteQueue) : s'.Inv L where
  owned := by
    rwa [refs_eq_send, sendRefs, PendQueue.refs_of_running hpc, add_assoc, add_assoc,
      ← add_assoc _ _ L]
  tracks := hpb ▸ h.tracks
  started := hpb ▸ hbytes ▸ h.started

/-- **A step of `sendTask`** keeps the invariant and leaves alone what the others hold and what
is in its queue. -/
theorem sendTaskStep_of_inv (h : s.Inv L) {pc : SendPc} (hpc : s.sendQueue.task = .running pc) :
    ∃ s', sendTaskStep s pc = some s' ∧ s'.undefined = s.undefined ∧ s'.Inv L ∧
      s.heap.SameOn s'.heap (s.sendQueue.slots .headroom + s.exceptSend + L) := by
  have howned : s.heap.Owned (pc.refs + (s.sendQueue.slots .headroom + s.exceptSend + L)) := by
    rw [← add_assoc, ← add_assoc, ← PendQueue.refs_of_running hpc, ← Sys.sendRefs,
      ← Sys.refs_eq_send]
    exact h.owned
  cases pc with
  | pend =>
    refine ⟨{ s with sendQueue := s.sendQueue.osqPend .got }, rfl, rfl,
      ⟨?_, h.tracks, h.started⟩, .refl _ _⟩
    rw [Sys.refs_eq_send, Sys.sendRefs, s.sendQueue.refs_osqPend .got hpc rfl fun _ ↦ rfl]
    exact (Sys.refs_eq_send s) ▸ h.owned
  | got p => exact ⟨_, rfl, rfl, h.of_send rfl howned rfl rfl, .refl _ _⟩
  | count p count => exact ⟨_, rfl, rfl, h.of_send rfl howned rfl rfl, .refl _ _⟩
  | header p =>
    rw [SendPc.refs, Multiset.singleton_add] at howned
    obtain ⟨packet, hpacket, hnonneg, hle⟩ := howned.good _ (Multiset.mem_cons_self _ _)
    obtain ⟨packet', hinsert, hsize, hlen, -⟩ := insertHeader_eq s.packetId hnonneg hle
    have hfits : PacketKind.readable.Fits packet' := ⟨by omega, by omega⟩
    obtain ⟨h', hset, howned', hsame, -⟩ := howned.setPacket hpacket hsize hfits
    exact ⟨{ s with
        heap := h'
        packetId := s.packetId + 1
        sendQueue := s.sendQueue.goto (.sending p 3 []) },
      by simp [sendTaskStep, hpacket, hinsert, hset], rfl, h.of_send rfl howned' rfl rfl, hsame⟩
  | sending p copies out =>
    match copies, out with
    | copies, byte :: out => exact ⟨_, rfl, rfl, h.of_send rfl howned rfl rfl, .refl _ _⟩
    | 0, [] => exact ⟨_, rfl, rfl, h.of_send rfl howned rfl rfl, .refl _ _⟩
    | copies + 1, [] =>
      obtain ⟨packet, hpacket, hnonneg, hle⟩ :=
        howned.good (.packet p .readable) (by simp [SendPc.refs])
      have hsend : send packet = some (frame packet.body) := send_eq (by omega)
      exact ⟨{ s with sendQueue := s.sendQueue.goto (.sending p copies (frame packet.body)) },
        by simp [sendTaskStep, hpacket, hsend], rfl, h.of_send rfl howned rfl rfl, .refl _ _⟩
  | freeData p =>
    rw [SendPc.refs, Multiset.singleton_add] at howned
    obtain ⟨h', hfree, howned', hsame⟩ := howned.freeData
    exact ⟨{ s with heap := h', sendQueue := s.sendQueue.goto (.freeBuf p) },
      by simp [sendTaskStep, hfree], rfl, h.of_send rfl howned' rfl rfl, hsame⟩
  | freeBuf p =>
    rw [SendPc.refs, Multiset.singleton_add] at howned
    obtain ⟨h', hfree, howned', hsame⟩ := howned.freeLenBuffer
    refine ⟨{ s with heap := h', sendQueue := s.sendQueue.goto .pend },
      by simp [sendTaskStep, hfree], rfl, h.of_send rfl ?_ rfl rfl, hsame⟩
    rw [SendPc.refs, Multiset.zero_add]
    exact howned'

/-- The side of `task1` of the invariant, for a state that it has moved to. -/
theorem Sys.Inv.of_task1 {s' : Sys σ} {L' : Multiset Ref} (h : s.Inv L)
    (howned : s'.heap.Owned (s'.task1.refs + (s'.exceptTask1 + L')))
    (hpb : s'.pb = s.pb) (hbytes : s'.byteQueue = s.byteQueue) : s'.Inv L' where
  owned := by rwa [refs_eq_task1, add_assoc]
  tracks := hpb ▸ h.tracks
  started := hpb ▸ hbytes ▸ h.started

/-- **A step of `task1`** keeps the invariant and leaves alone what the others hold, unless it
fails. -/
theorem task1Step_of_inv (S : Slave σ) (h : s.Inv L) {mallocOk : Bool}
    (hok : ¬ s.Fails (.task1 mallocOk)) :
    ∃ s', task1Step S mallocOk s s.task1 = some s' ∧ s'.undefined = s.undefined ∧
      s'.Inv (s.lost (.task1 mallocOk) + L) ∧
      s.heap.SameOn s'.heap (s.exceptTask1 + L) := by
  have howned : s.heap.Owned (s.task1.refs + (s.exceptTask1 + L)) := by
    rw [← add_assoc, ← Sys.refs_eq_task1]
    exact h.owned
  simp only [Sys.Fails] at hok
  simp only [Sys.lost]
  cases hpc : s.task1 with
  | start =>
    rw [hpc] at howned
    rw [Multiset.zero_add]
    exact ⟨_, rfl, rfl, h.of_task1 howned rfl rfl, .refl _ _⟩
  | poll =>
    rw [hpc] at howned
    rw [Multiset.zero_add]
    obtain ⟨bus, hsend, -, -⟩ := sendCommand_spec (S := S) lidarCommandPoll s.bus
    cases hack : (S.bytewise.exchange s.bus.slave (pollPlan lidarCommandPoll)).acked with
    | true =>
      exact ⟨{ s with bus, task1 := .delayed }, by simp [task1Step, hsend, hack], rfl,
        h.of_task1 howned rfl rfl, .refl _ _⟩
    | false =>
      exact ⟨{ s with bus, task1 := .mallocBuf 0 }, by simp [task1Step, hsend, hack], rfl,
        h.of_task1 howned rfl rfl, .refl _ _⟩
  | delayed =>
    rw [Multiset.zero_add]
    exact ⟨s, rfl, rfl, h, .refl _ _⟩
  | read =>
    rw [hpc] at howned
    rw [Multiset.zero_add]
    obtain ⟨range, bus, hread⟩ : ∃ range bus, readRegisters S s.bus = some (range, bus) := by
      obtain ⟨bus, hread, -, -⟩ := readRegisters_spec (S := S) s.bus
      exact ⟨_, bus, hread⟩
    exact ⟨{ s with bus, task1 := .mallocBuf (BitVec.ofNat 16 range) },
      by simp only [task1Step, hread, Option.bind_eq_bind, Option.bind_some], rfl,
      h.of_task1 howned rfl rfl, .refl _ _⟩
  | mallocBuf range =>
    rw [hpc] at howned hok
    rw [Multiset.zero_add]
    have hmalloc : mallocOk = true := by simpa using hok
    obtain ⟨howned', hsame⟩ := howned.mallocLenBuffer
    rw [Task1Pc.refs, Multiset.zero_add] at howned' hsame
    refine ⟨{ s with
        heap := s.heap.mallocLenBuffer.2
        task1 := .mallocData range s.heap.mallocLenBuffer.1 }, ?_, rfl,
      h.of_task1 howned' rfl rfl, hsame⟩
    rw [task1Step, if_pos hmalloc]
  | mallocData range p =>
    rw [hpc] at howned hok
    rw [Multiset.zero_add]
    have hmalloc : mallocOk = true := by simpa using hok
    obtain ⟨howned', hsame⟩ := howned.mallocBlock 10
    rw [Task1Pc.refs, Multiset.singleton_add] at howned' hsame
    refine ⟨{ s with
        heap := (s.heap.mallocBlock 10).2
        task1 := .fill range p (s.heap.mallocBlock 10).1 }, ?_, rfl,
      h.of_task1 ?_ rfl rfl, hsame.tail⟩
    · rw [task1Step, if_pos hmalloc]
    · rw [Multiset.cons_swap] at howned'
      rw [Task1Pc.refs, Multiset.insert_eq_cons, Multiset.cons_add, Multiset.singleton_add]
      exact howned'
  | fill range p b =>
    rw [hpc] at howned
    rw [Multiset.zero_add]
    have howned₁ : s.heap.Owned (.block b 10 ::ₘ .shell p ::ₘ (s.exceptTask1 + L)) := by
      rw [Multiset.cons_swap]
      simpa [Task1Pc.refs] using howned
    obtain ⟨old, hold, hsize⟩ := howned₁.good _ (Multiset.mem_cons_self _ _)
    have hbuf : (rangeBytes range ++ old.drop 2).length = 10 := by
      simp [rangeBytes, hsize]
    obtain ⟨h₁, hset₁, howned₂, hsame₁, hload⟩ := howned₁.setBlock hbuf
    rw [Multiset.cons_swap] at howned₂
    -- two of the ten bytes are data, which leaves the room for the header
    have hfits : PacketKind.headroom.Fits ⟨rangeBytes range ++ old.drop 2, 2⟩ :=
      ⟨by simp, by rw [hbuf]; simp⟩
    obtain ⟨h₂, hset₂, howned₃, hsame₂, -⟩ := howned₂.setLenBuffer hload hfits
    refine ⟨{ s with heap := h₂, task1 := .load p }, ?_, rfl, h.of_task1 howned₃ rfl rfl,
      hsame₁.tail.trans hsame₂⟩
    simp [task1Step, hold, hset₁, hset₂]
  | load p =>
    rw [hpc] at howned
    rw [Multiset.zero_add]
    exact ⟨_, rfl, rfl, h.of_task1 howned rfl rfl, .refl _ _⟩
  | count p count =>
    rw [hpc] at howned
    rw [Multiset.zero_add]
    exact ⟨_, rfl, rfl, h.of_task1 howned rfl rfl, .refl _ _⟩
  | post p =>
    rw [hpc, Task1Pc.refs, Multiset.singleton_add] at howned
    refine ⟨{ s with sendQueue := (s.sendQueue.osqPost p).2, task1 := .rotate }, rfl, rfl,
      h.of_task1 ?_ rfl rfl, .refl _ _⟩
    rw [Task1Pc.refs, Multiset.zero_add]
    show s.heap.Owned (Sys.exceptTask1 _ +
      ((if s.sendQueue.IsFull then {.packet p .headroom} else 0) + L))
    by_cases hfull : s.sendQueue.IsFull
    · -- the post is refused, and nobody has a hold of the packet any more
      rw [if_pos hfull, Multiset.singleton_add, Multiset.add_cons]
      simp only [PendQueue.osqPost_of_isFull hfull]
      exact howned
    · rw [if_neg hfull, Multiset.zero_add]
      simpa [Sys.exceptTask1, Sys.task2Refs, Sys.sendRefs, Sys.receiveRefs,
        PendQueue.refs_osqPost hfull] using howned
  | rotate =>
    rw [hpc] at howned
    rw [Multiset.zero_add]
    exact ⟨_, rfl, rfl, h.of_task1 howned rfl rfl, .refl _ _⟩

/-! ### Steps of the system -/

/-- A post to `byteQueue` moves no packet. -/
theorem bluetoothIrq_of_inv (h : s.Inv L) (read : Byte) :
    (bluetoothIrq read s).undefined = s.undefined ∧ (bluetoothIrq read s).Inv L ∧
      (bluetoothIrq read s).heap = s.heap := by
  unfold bluetoothIrq
  split_ifs with hdrop
  · exact ⟨rfl, h, rfl⟩
  refine ⟨rfl, ?_, rfl⟩
  by_cases hfull : s.byteQueue.IsFull
  · rw [PendQueue.osqPost_of_isFull hfull]
    exact ⟨h.owned, h.tracks, h.started⟩
  · obtain ⟨-, -, ⟨hwait, htask, -⟩ | ⟨-, htask, -⟩⟩ :=
      PendQueue.osqPost_of_not_isFull hfull (read.signExtend 32)
    · have hnone : s.receiveRefs = 0 := by
        rw [Sys.receiveRefs]
        cases ht : s.byteQueue.task <;> simp_all [Pending.onWaitList, Pending.receiveRefs]
      refine ⟨?_, h.tracks, fun pc hpc ↦ ?_⟩
      · have howned := h.owned
        rw [Sys.refs_eq_receive, hnone] at howned
        rw [Sys.refs_eq_receive, Sys.receiveRefs, htask]
        exact howned
      · rw [htask] at hpc
        cases hpc
    · refine ⟨?_, h.tracks, fun pc hpc ↦ h.started pc (htask ▸ hpc)⟩
      have howned := h.owned
      rw [Sys.refs_eq_receive] at howned ⊢
      rw [Sys.receiveRefs, htask]
      exact howned

/-- A step of `receiveTask` that fails is not defined. -/
theorem receiveTaskStep_of_fails (h : s.Inv L) {pc : ReceivePc}
    (hpc : s.byteQueue.task = .running pc) {mallocOk : Bool}
    (hfails : s.Fails (.receiveTask mallocOk)) : receiveTaskStep mallocOk s pc = none := by
  simp only [Sys.Fails, hpc] at hfails
  cases pc with
  | got byte =>
    obtain ⟨hstart, hend, hflag, hfull⟩ := hfails
    obtain ⟨stream, htracks⟩ := h.tracks
    obtain ⟨body, hopen⟩ := Option.isSome_iff_exists.1 (htracks.isStarted_eq.symm.trans hflag)
    rw [hopen] at htracks
    have hlen : body.length = bufSize := by
      have := htracks.2.len_eq
      omega
    have hpush := PacketBuffer.pushChar_of_holds_full htracks.2 hlen byte
    simp [receiveTaskStep, takeByte, osErrNone, osNoErr, hstart, hend, hflag, hpush]
  | mallocBuf => simp [receiveTaskStep, hfails]
  | mallocData p => simp [receiveTaskStep, hfails]
  | pend | fill p | post p => exact hfails.elim

/-- A step of `task1` that fails is not defined. -/
theorem task1Step_of_fails (S : Slave σ) {mallocOk : Bool} (hfails : s.Fails (.task1 mallocOk)) :
    task1Step S mallocOk s s.task1 = none := by
  simp only [Sys.Fails] at hfails
  cases hpc : s.task1 with
  | mallocBuf range => simp [hpc] at hfails; simp [task1Step, hfails]
  | mallocData range p => simp [hpc] at hfails; simp [task1Step, hfails]
  | _ => simp [hpc] at hfails

/-- **One step.** It is undefined exactly when it fails; otherwise it keeps the invariant, and
loses the packet that it posts to a full queue, if it does. -/
theorem step_of_inv {S : Slave σ} (h : s.Inv L) {e : Event} {s' : Sys σ} (hstep : Step S s e s') :
    (s.Fails e → s' = { s with undefined := true }) ∧
      (¬ s.Fails e → s'.undefined = false ∧ s'.Inv (s.lost e + L)) := by
  have hdef := hstep.defined
  cases e with
  | irq byte =>
    obtain rfl := hstep.irq
    obtain ⟨hundef, hinv, -⟩ := bluetoothIrq_of_inv h byte
    exact ⟨False.elim, fun _ ↦ ⟨hundef.trans hdef, (Multiset.zero_add L).symm ▸ hinv⟩⟩
  | receiveTask mallocOk =>
    rcases hstep.receiveTask with ⟨m, hpc, rfl⟩ | ⟨pc, hpc, rfl⟩
    · -- the byte that a post has handed over is picked up
      simp only [Sys.Fails, Sys.lost, hpc, Multiset.zero_add]
      refine ⟨False.elim, fun _ ↦ ⟨hdef,
        .of_receive rfl ?_ h.tracks (by simp [ReceivePc.isFraming])⟩⟩
      have howned := h.owned
      rw [Sys.refs_eq_receive, Sys.receiveRefs, hpc, add_assoc] at howned
      exact howned
    · refine ⟨fun hfails ↦ ?_, fun hok ↦ ?_⟩
      · rw [Sys.orUndefined, receiveTaskStep_of_fails h hpc hfails]
        rfl
      · obtain ⟨t, ht, hundef, hinv, -⟩ := receiveTaskStep_of_inv h hpc hok
        rw [Sys.orUndefined, ht]
        exact ⟨hundef.trans hdef, hinv⟩
  | sendTask =>
    refine ⟨False.elim, fun _ ↦ ?_⟩
    show s'.undefined = false ∧ s'.Inv (0 + L)
    rw [Multiset.zero_add]
    rcases hstep.sendTask with ⟨p, hpc, rfl⟩ | ⟨pc, hpc, rfl⟩
    · refine ⟨hdef, ⟨?_, h.tracks, h.started⟩⟩
      have howned := h.owned
      rw [Sys.refs_eq_send, Sys.sendRefs, PendQueue.refs, hpc] at howned
      rw [Sys.refs_eq_send]
      exact howned
    · obtain ⟨t, ht, hundef, hinv, -⟩ := sendTaskStep_of_inv h hpc
      rw [Sys.orUndefined, ht]
      exact ⟨hundef.trans hdef, hinv⟩
  | task2 =>
    refine ⟨False.elim, fun _ ↦ ?_⟩
    show s'.undefined = false ∧ s'.Inv (0 + L)
    rw [Multiset.zero_add]
    rcases hstep.task2 with ⟨hpc, rfl⟩ | ⟨p, hpc, rfl⟩ | ⟨pc, hpc, rfl⟩
    · refine ⟨hdef, ⟨?_, h.tracks, h.started⟩⟩
      have howned := h.owned
      rw [Sys.refs_eq_task2, Sys.task2Refs, PendQueue.refs, hpc] at howned
      rw [Sys.refs_eq_task2]
      exact howned
    · refine ⟨hdef, ⟨?_, h.tracks, h.started⟩⟩
      have howned := h.owned
      rw [Sys.refs_eq_task2, Sys.task2Refs, PendQueue.refs, hpc] at howned
      rw [Sys.refs_eq_task2]
      exact howned
    · obtain ⟨t, ht, hundef, hinv, -⟩ := task2Step_of_inv h hpc
      rw [Sys.orUndefined, ht]
      exact ⟨hundef.trans hdef, hinv⟩
  | task1 mallocOk =>
    obtain ⟨-, rfl⟩ := hstep.task1
    refine ⟨fun hfails ↦ ?_, fun hok ↦ ?_⟩
    · rw [Sys.orUndefined, task1Step_of_fails S hfails]
      rfl
    · obtain ⟨t, ht, hundef, hinv, -⟩ := task1Step_of_inv S h hok
      rw [Sys.orUndefined, ht]
      exact ⟨hundef.trans hdef, hinv⟩
  | timeout =>
    obtain ⟨hblocked, rfl⟩ := hstep.timeout
    refine ⟨False.elim, fun _ ↦ ⟨hdef, ?_⟩⟩
    show Sys.Inv _ (0 + L)
    rw [Multiset.zero_add]
    obtain ⟨htask, hentries⟩ := PendQueue.expire_of_isBlocked hblocked
    have hwait := Pending.isBlocked_iff.1 hblocked
    refine ⟨?_, h.tracks, h.started⟩
    have howned := h.owned
    rw [Sys.refs_eq_task2, Sys.task2Refs, PendQueue.refs, hwait] at howned
    rw [Sys.refs_eq_task2, Sys.task2Refs, PendQueue.refs, PendQueue.slots, htask, hentries]
    exact howned
  | wake =>
    obtain ⟨hpc, rfl⟩ := hstep.wake
    refine ⟨False.elim, fun _ ↦ ⟨hdef, ?_⟩⟩
    show Sys.Inv _ (0 + L)
    rw [Multiset.zero_add]
    refine ⟨?_, h.tracks, h.started⟩
    have howned := h.owned
    rw [Sys.refs_eq_task1, hpc] at howned
    rw [Sys.refs_eq_task1]
    exact howned

theorem inv_init (slave : σ) : (Sys.init slave).Inv 0 where
  owned := Heap.owned_empty
  tracks := ⟨[], by simpa [Sys.init] using tracks_init⟩
  started pc hpc hframing := by
    obtain rfl : ReceivePc.pend = pc := Pending.running.inj hpc
    cases hframing

/-- Some ownership holds after a step. -/
theorem Sys.Inv.exists_of_step {S : Slave σ} (h : s.Inv L) {e : Event} {s' : Sys σ}
    (hstep : Step S s e s') : ∃ L', s'.Inv L' := by
  obtain ⟨hundef, hkeeps⟩ := step_of_inv h hstep
  by_cases hfails : s.Fails e
  · -- after a step that is undefined the state is the old one, and the run ends
    rw [hundef hfails]
    exact ⟨L, h.owned, h.tracks, h.started⟩
  · exact ⟨_, (hkeeps hfails).2⟩

/-- The invariant holds in every state of every run, with the references lost so far. -/
theorem exists_inv_of_run {S : Slave σ} {slave : σ} {events : List Event}
    (hrun : Run (Step S) (.init slave) events s) : ∃ L, s.Inv L :=
  hrun.invariant (I := fun s ↦ ∃ L, s.Inv L) ⟨0, inv_init slave⟩
    fun _ _ _ ⟨_, hinv⟩ hstep ↦ hinv.exists_of_step hstep

/-! ### Accounting for every packet -/

/-- Every `LenBuffer` and every data block that has been allocated is held by one task, lies in
one queue slot, or has been freed once. -/
structure Sys.Accounted (s : Sys σ) : Prop where
  lenBuffers : ∀ p < s.heap.lenBuffers.next,
    (s.held.bind Ref.lenIds).count p + (s.queued.bind Ref.lenIds).count p +
      s.heap.lenBuffers.freed.count p = 1
  blocks : ∀ b < s.heap.blocks.next,
    (s.held.bind (Ref.dataIds s.heap)).count b + (s.queued.bind (Ref.dataIds s.heap)).count b +
      s.heap.blocks.freed.count b = 1

theorem Sys.Inv.accounted (h : s.Inv 0) : s.Accounted := by
  have howned := h.owned
  rw [add_zero, ← Sys.held_add_queued] at howned
  have hlens := howned.lenBuffers
  have hblocks := howned.blocks
  rw [Multiset.add_bind] at hlens hblocks
  constructor
  · intro p hp
    have hcount := hlens.count_add_count hp
    rwa [Multiset.count_add] at hcount
  · intro b hb
    have hcount := hblocks.count_add_count hb
    rwa [Multiset.count_add] at hcount

/-- A lost packet is in no place. -/
theorem Sys.Inv.not_accounted {p : ℕ} {k : PacketKind} (h : s.Inv (.packet p k ::ₘ L)) :
    ¬ s.Accounted := by
  intro hacc
  have hlens := h.owned.lenBuffers
  rw [Multiset.add_cons, Multiset.cons_bind, Ref.lenIds, Multiset.singleton_add] at hlens
  have hlt : p < s.heap.lenBuffers.next := hlens.lt_next (Multiset.mem_cons_self _ _)
  have hall := hlens.count_add_count hlt
  have hone := hacc.lenBuffers p hlt
  rw [Multiset.count_cons_self, Multiset.add_bind, Multiset.count_add] at hall
  rw [← Multiset.count_add, ← Multiset.add_bind, Sys.held_add_queued] at hone
  -- the lost reference is counted once more than the places and the freed ones have it
  omega

/-- A step loses at most one packet. -/
theorem Sys.lost_eq (s : Sys σ) (e : Event) :
    s.lost e = 0 ∨ ∃ p k, s.lost e = {Ref.packet p k} := by
  unfold Sys.lost
  split
  · split
    · split_ifs
      · exact Or.inr ⟨_, _, rfl⟩
      · exact Or.inl rfl
    · exact Or.inl rfl
  · split
    · split_ifs
      · exact Or.inr ⟨_, _, rfl⟩
      · exact Or.inl rfl
    · exact Or.inl rfl
  · exact Or.inl rfl

/-- **Packet ownership.** In every run that the priorities allow, every state is defined and
accounts for every `LenBuffer` and every data block, exactly when no step of the run posts
a packet to a full queue, takes a byte for a full frame, or has its `malloc` fail. -/
theorem accounted_iff (S : Slave σ) (slave : σ) (events : List Event) :
    StatesAlong (PrioritisedStep S) (fun s ↦ s.undefined = false ∧ s.Accounted) (.init slave)
        events ↔
      StepsAlong (PrioritisedStep S) (fun s e ↦ ¬ s.Fails e ∧ s.lost e = 0) (.init slave)
        events := by
  refine statesAlong_iff_stepsAlong (I := fun s ↦ s.Inv 0)
    ⟨rfl, (inv_init slave).accounted⟩ (inv_init slave) ?_
  rintro s e s' hinv - ⟨hstep, -⟩
  obtain ⟨hundef, hkeeps⟩ := step_of_inv hinv hstep
  by_cases hfails : s.Fails e
  · have hundefined : s'.undefined = true := by rw [hundef hfails]
    simp [hfails, hundefined]
  obtain ⟨hdef, hinv'⟩ := hkeeps hfails
  rw [add_zero] at hinv'
  rcases s.lost_eq e with hlost | ⟨p, k, hlost⟩
  · rw [hlost] at hinv'
    simp [hfails, hlost, hdef, hinv'.accounted, hinv']
  · rw [hlost, ← Multiset.cons_zero] at hinv'
    simp [hfails, hlost, hinv'.not_accounted]

end

/-- Twelve empty frames that `receiveTask` takes while `task2` does not get to run. -/
def twelveFrames : List Event :=
  [.receiveTask true, .sendTask, .task2] ++
    (List.replicate 12 (.irq startByte :: List.replicate 3 (.receiveTask true) ++
      .irq endByte :: List.replicate 7 (.receiveTask true))).flatten

/-- The last of twelve empty frames is lost: the first packet is handed to `task2`, ten lie in
its queue, and nobody has a hold of the `LenBuffer` and the block of the twelfth. -/
theorem not_accounted_of_twelveFrames :
    ¬ StatesAlong (PrioritisedStep Slave.absent) (fun s ↦ s.undefined = false ∧ s.Accounted)
      (.init ()) twelveFrames := by
  intro h
  have heval : ((twelveFrames.foldlM (prioritisedStep Slave.absent) (.init ())).map fun s ↦
      decide (11 < s.heap.lenBuffers.next ∧ (s.held.bind Ref.lenIds).count 11 +
        (s.queued.bind Ref.lenIds).count 11 + s.heap.lenBuffers.freed.count 11 = 0)) =
      some true := by
    decide +kernel
  obtain ⟨s, hrun, hs⟩ := Option.map_eq_some_iff.1 heval
  obtain ⟨hlt, hzero⟩ := of_decide_eq_true hs
  have hrun : Run (PrioritisedStep Slave.absent) (.init ()) twelveFrames s :=
    (run_foldlM_iff.2 hrun).mono fun _ _ _ ↦ prioritisedStep_eq_some_iff.1
  have hone := (h (List.prefix_refl _) hrun).2.lenBuffers 11 hlt
  omega

end MappingRobot
