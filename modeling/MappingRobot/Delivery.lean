import MappingRobot.Footprint
import MappingRobot.Ownership

/-!
# From the UART to the motors

What becomes of a byte between `bluetoothIRQ` and the DC driver. In every state of every run, and
in whatever order the tasks run, the bytes received are those that `receiveTask` has taken and
those still on their way to it, and what it has posted is what the function `receiveTask` posts for
the bytes taken (`Sys.Receives`). The words that `task2` has written, followed by those of the
packets on their way to it, are the words of the packets posted (`Sys.Handles`). The only thing
that is lost is a byte or a packet that is posted to a full queue.

So the words written are, at every moment, a prefix of one sequence that the received stream
determines, and all of it once the queues are empty and the tasks wait (`words_delivered`).
-/

namespace MappingRobot

open Delimited LabelledRun

/-! ### What is on its way -/

/-- The byte that an event receives. -/
def Event.received : Event → Option Byte
  | .irq byte => some byte
  | _ => none

/-- The bytes received in a run. -/
def received (events : List Event) : List Byte :=
  events.filterMap Event.received

/-- `bluetoothIRQ` posts the byte: it is not `-1` as a `char`. -/
def IsKept (byte : Byte) : Bool :=
  byte.toInt != -1

/-- The bytes that `bluetoothIRQ` posts. -/
def kept (stream : List Byte) : List Byte :=
  stream.filter IsKept

/-- The words of the command letters in a sequence of bodies. -/
def wordsOf (bodies : List (List Byte)) : List (BitVec 32) :=
  bodies.flatten.filterMap motorWord

/-- The byte that `receiveTask` has taken from its queue and not dealt with. -/
def ReceivePc.inFlight : ReceivePc → List Byte
  | .got byte => [byte]
  | .mallocBuf | .mallocData _ | .fill _ => [endByte]
  | .pend | .post _ => []

/-- The packet that `receiveTask` has made and not posted. -/
def ReceivePc.unposted (h : Heap) : ReceivePc → List Packet
  | .post p => (h.packet p).toList
  | .pend | .got _ | .mallocBuf | .mallocData _ | .fill _ => []

/-- The bytes that `task2` has yet to handle of its packet. -/
def Task2Pc.unhandled (h : Heap) : Task2Pc → List (List Byte)
  | .got p => [h.body p]
  | .handle p i => [(h.body p).drop i]
  | .pend | .freeData _ | .freeBuf _ | .timedOut => []

/-- What is at the program point of a task. -/
def Pending.atPc {α κ β : Type} (f : κ → List β) : Pending α κ → List β
  | .running pc => f pc
  | .waiting | .expired | .posted _ => []

namespace Sys

variable {σ : Type}

/-- The bytes kept that `receiveTask` has not dealt with. -/
def inFlight (s : Sys σ) : List Byte :=
  s.byteQueue.task.atPc ReceivePc.inFlight ++ s.byteQueue.content.map (·.setWidth 8)

/-- The packet that `receiveTask` has made and not posted. -/
def unposted (s : Sys σ) : List Packet :=
  s.byteQueue.task.atPc (ReceivePc.unposted s.heap)

/-- What `task2` has yet to handle of the packets posted. -/
def unhandled (s : Sys σ) : List (List Byte) :=
  s.receiveQueue.task.atPc (Task2Pc.unhandled s.heap) ++ s.receiveQueue.content.map s.heap.body

/-- `receiveTask` has dealt with everything received. -/
structure ReceiverIdle (s : Sys σ) : Prop where
  inFlight : s.inFlight = []
  unposted : s.unposted = []

/-- Nothing is on its way any more: the queues are empty, and the tasks behind them are through
with what they took. -/
structure Drained (s : Sys σ) : Prop extends ReceiverIdle s where
  unhandled : s.unhandled = []

/-- The step posts a byte or a packet of the receive side to a full queue. -/
def refuses (s : Sys σ) : Event → Bool
  | .irq byte => IsKept byte && decide s.byteQueue.IsFull
  | .receiveTask _ =>
    match s.byteQueue.task with
    | .running (.post _) => decide s.receiveQueue.IsFull
    | _ => false
  | _ => false

/-- What the step puts into `byteQueue`. -/
def accepted (s : Sys σ) : Event → List Byte
  | .irq byte => if IsKept byte && !decide s.byteQueue.IsFull then [byte] else []
  | _ => []

/-- The state accounts for a stream of bytes put into `byteQueue`, of which `receiveTask` has dealt
with `taken`. -/
structure Receives (s : Sys σ) (stream taken : List Byte) : Prop where
  stream_eq : stream = taken ++ s.inFlight
  receiver_eq : receiveTask taken = ⟨some s.pb, s.log.posted ++ s.unposted⟩

/-- The words written and those of the packets on their way to `task2` are the words of the packets
posted. -/
def Handles (s : Sys σ) : Prop :=
  s.commandWords ++ wordsOf s.unhandled = wordsOf (s.log.posted.map Packet.body)

end Sys

/-- A post that is not refused leaves alone what its task is doing. -/
theorem PendQueue.atPc_osqPost {α κ β : Type} {size : ℕ} {q : PendQueue α size κ}
    (h : ¬ q.IsFull) (m : α) (f : κ → List β) : (q.osqPost m).2.task.atPc f = q.task.atPc f := by
  obtain ⟨-, -, ⟨hwait, htask, -⟩ | ⟨-, htask, -⟩⟩ := osqPost_of_not_isFull h m
  · rw [htask]
    cases ht : q.task with
    | running pc =>
      rw [ht] at hwait
      cases hwait
    | waiting | expired | posted m' => rfl
  · rw [htask]

theorem wordsOf_append (bodies bodies' : List (List Byte)) :
    wordsOf (bodies ++ bodies') = wordsOf bodies ++ wordsOf bodies' := by
  simp [wordsOf]

theorem wordsOf_cons (body : List Byte) (bodies : List (List Byte)) :
    wordsOf (body :: bodies) = body.filterMap motorWord ++ wordsOf bodies := by
  simp [wordsOf]

theorem wordsOf_mono {bodies bodies' : List (List Byte)} (h : bodies <+: bodies') :
    wordsOf bodies <+: wordsOf bodies' := by
  obtain ⟨rest, rfl⟩ := h
  rw [wordsOf_append]
  exact List.prefix_append _ _

/-- The byte survives its way through a pointer. -/
theorem setWidth_signExtend (byte : Byte) : (byte.signExtend 32).setWidth 8 = byte := by
  ext i hi
  rw [BitVec.getElem_setWidth, BitVec.getLsbD_signExtend]
  simp [hi, show i < 32 by omega]

section

variable {σ : Type} {s t : Sys σ} {L : Multiset Ref} {stream taken : List Byte}

/-! ### Steps that move nothing -/

theorem mem_task2Refs_of_mem_content {p : ℕ} (hp : p ∈ s.receiveQueue.content) :
    Ref.packet p .readable ∈ s.task2Refs := by
  rw [Sys.task2Refs, PendQueue.refs, Multiset.mem_add]
  rcases List.mem_append.1 hp with hp | hp
  · cases htask : s.receiveQueue.task with
    | posted m =>
      rw [htask, Pending.message, List.mem_singleton] at hp
      exact Or.inl (by simp [Pending.refs, hp])
    | _ => simp [htask, Pending.message] at hp
  · exact Or.inr (by simpa [PendQueue.slots] using hp)

theorem Sys.unhandled_eq (s : Sys σ) {task : Pending ℕ Task2Pc} (h : s.receiveQueue.task = task) :
    s.unhandled = task.atPc (Task2Pc.unhandled s.heap) ++
      (task.message ++ s.receiveQueue.entries).map s.heap.body := by
  rw [unhandled, PendQueue.content, h]

/-- The packets on their way to `task2` stay the same if what it has a hold of does. -/
theorem unhandled_of_sameOn (hsame : s.heap.SameOn t.heap s.task2Refs)
    (hqueue : t.receiveQueue = s.receiveQueue) : t.unhandled = s.unhandled := by
  rw [Sys.unhandled, Sys.unhandled, hqueue]
  congr 1
  · cases htask : s.receiveQueue.task with
    | running pc =>
      have hmem : ∀ r ∈ pc.refs, r ∈ s.task2Refs := by
        intro r hr
        rw [Sys.task2Refs, PendQueue.refs_of_running htask]
        exact Multiset.mem_add.2 (Or.inl hr)
      cases pc <;> simp only [Pending.atPc, Task2Pc.unhandled]
      all_goals rw [hsame.body (hmem _ (Multiset.mem_singleton_self _))]
    | _ => rfl
  · exact List.map_congr_left fun p hp ↦ hsame.body (mem_task2Refs_of_mem_content hp)

/-- The packet that `receiveTask` has made stays the same if what it has a hold of does. -/
theorem unposted_of_sameOn (hsame : s.heap.SameOn t.heap s.receiveRefs)
    (htask : t.byteQueue = s.byteQueue) : t.unposted = s.unposted := by
  rw [Sys.unposted, Sys.unposted, htask]
  cases hpc : s.byteQueue.task with
  | running pc =>
    cases pc with
    | post p =>
      have hmem : Ref.packet p .readable ∈ s.receiveRefs := by
        simp [Sys.receiveRefs_of_running hpc, ReceivePc.refs]
      simp only [Pending.atPc, ReceivePc.unposted]
      rw [hsame.packet hmem]
    | _ => rfl
  | _ => rfl

/-- A step that leaves alone what `receiveTask` works on. -/
theorem Sys.Receives.of_same (h : s.Receives stream taken)
    (hsame : s.heap.SameOn t.heap s.receiveRefs) (hreceive : s.SameReceive t) :
    t.Receives stream taken where
  stream_eq := by rw [Sys.inFlight, hreceive.byteQueue]; exact h.stream_eq
  receiver_eq := by
    rw [hreceive.pb, hreceive.posted, unposted_of_sameOn hsame hreceive.byteQueue]
    exact h.receiver_eq

/-- A step that keeps the words written and those yet to be written together. -/
theorem Sys.Handles.of_same (h : s.Handles) (hposted : t.log.posted = s.log.posted)
    (hwords : t.commandWords ++ wordsOf t.unhandled = s.commandWords ++ wordsOf s.unhandled) :
    t.Handles := by
  rw [Sys.Handles, hwords, hposted]
  exact h

/-- A step that leaves alone what `task2` works on. -/
theorem Sys.Handles.of_sameCommand (h : s.Handles) (hsame : s.heap.SameOn t.heap s.task2Refs)
    (hcommand : s.SameCommand t) (hposted : t.log.posted = s.log.posted) : t.Handles :=
  h.of_same hposted (by
    rw [hcommand.commandWords, unhandled_of_sameOn hsame hcommand.receiveQueue])

/-! ### Steps of the receive side -/

/-- **The interrupt** puts a byte on its way that it keeps and that there is room for. -/
theorem bluetoothIrq_receives (h : s.Receives stream taken) (byte : Byte) :
    (bluetoothIrq byte s).Receives (stream ++ s.accepted (.irq byte)) taken := by
  unfold bluetoothIrq
  simp only [Sys.accepted]
  by_cases hkept : IsKept byte = true
  · have hne : byte.toInt ≠ -1 := by simpa [IsKept] using hkept
    rw [if_neg hne]
    by_cases hfull : s.byteQueue.IsFull
    · simp only [PendQueue.osqPost_of_isFull hfull, hfull, decide_true, Bool.not_true,
        Bool.and_false, Bool.false_eq_true, if_false, List.append_nil]
      exact ⟨h.stream_eq, h.receiver_eq⟩
    rw [if_pos (by simp [hkept, hfull])]
    obtain ⟨-, hcontent, -⟩ := PendQueue.osqPost_of_not_isFull hfull (byte.signExtend 32)
    refine ⟨?_, ?_⟩
    · rw [Sys.inFlight, hcontent, PendQueue.atPc_osqPost hfull, List.map_append, h.stream_eq,
        Sys.inFlight]
      simp [setWidth_signExtend]
    · rw [Sys.unposted, PendQueue.atPc_osqPost hfull]
      exact h.receiver_eq
  · have heq : byte.toInt = -1 := by simpa [IsKept] using hkept
    rw [if_pos heq, if_neg (by simp [hkept]), List.append_nil]
    exact h

/-- **A step of `receiveTask`** deals with one byte, or makes or posts one packet. -/
theorem receiveTaskStep_receives (hinv : s.Inv L) (h : s.Receives stream taken) {mallocOk : Bool}
    {pc : ReceivePc} (hpc : s.byteQueue.task = .running pc)
    (hstep : receiveTaskStep mallocOk s pc = some t) : ∃ taken', t.Receives stream taken' := by
  have hstream := h.stream_eq
  have hreceiver := h.receiver_eq
  rw [Sys.inFlight, PendQueue.content_of_running hpc, hpc, Pending.atPc] at hstream
  rw [Sys.unposted, hpc, Pending.atPc] at hreceiver
  cases pc with
  | pend =>
    obtain rfl := Option.some.inj hstep
    rcases s.byteQueue.osqPend_cases fun m ↦ ReceivePc.got (m.setWidth 8) with
      ⟨m, entries, hentries, htask, hentries'⟩ | ⟨hnil, htask, hnil'⟩
    · refine ⟨taken, ?_, ?_⟩
      · rw [Sys.inFlight, PendQueue.content_of_running htask, htask, hentries', hstream, hentries]
        rfl
      · rw [Sys.unposted, htask]
        exact hreceiver
    · refine ⟨taken, ?_, ?_⟩
      · rw [Sys.inFlight, PendQueue.content, htask, hnil', hstream, hnil]
        rfl
      · rw [Sys.unposted, htask]
        exact hreceiver
  | got byte =>
    simp only [receiveTaskStep] at hstep
    cases htake : takeByte osErrNone byte s.pb with
    | none =>
      rw [htake] at hstep
      cases hstep
    | some result =>
      rw [htake] at hstep
      cases result with
      | endOfFrame =>
        obtain rfl := Option.some.inj hstep
        obtain rfl := eq_endByte_of_endOfFrame htake
        exact ⟨taken, hstream, hreceiver⟩
      | nextByte pb =>
        obtain rfl := Option.some.inj hstep
        refine ⟨taken ++ [byte], ?_, ?_⟩
        · rw [hstream, List.append_assoc]
          rfl
        · rw [receiveTask_snoc, hreceiver]
          exact Receiver.take_of_nextByte _ htake
  | mallocBuf =>
    simp only [receiveTaskStep] at hstep
    split_ifs at hstep
    obtain rfl := Option.some.inj hstep
    exact ⟨taken, hstream, hreceiver⟩
  | mallocData p =>
    simp only [receiveTaskStep] at hstep
    split_ifs at hstep
    obtain ⟨heap, -, hstep⟩ := Option.bind_eq_some_iff.1 hstep
    obtain rfl := Option.some.inj hstep
    exact ⟨taken, hstream, hreceiver⟩
  | fill p =>
    obtain ⟨⟨pb, packet⟩, hfinish, hstep⟩ := Option.bind_eq_some_iff.1 hstep
    obtain ⟨heap, hset, hstep⟩ := Option.bind_eq_some_iff.1 hstep
    obtain rfl := Option.some.inj hstep
    -- the END byte counts as taken only now, when its packet has been filled
    have hstarted := hinv.started _ hpc rfl
    have htake : takeByte osNoErr endByte s.pb = some .endOfFrame := by
      simp [takeByte, startByte_ne_endByte.symm, hstarted]
    refine ⟨taken ++ [endByte], ?_, ?_⟩
    · rw [hstream, List.append_assoc]
      rfl
    · have hpacket : heap.packet p = some packet := Heap.packet_of_setPacket hset
      rw [receiveTask_snoc, hreceiver]
      simp only [ReceivePc.unposted, List.append_nil]
      rw [Receiver.take_of_endOfFrame _ htake hfinish]
      simp [Sys.unposted, Pending.atPc, ReceivePc.unposted, hpacket]
  | post p =>
    obtain ⟨packet, hpacket, hstep⟩ := Option.bind_eq_some_iff.1 hstep
    obtain rfl := Option.some.inj hstep
    refine ⟨taken, hstream, ?_⟩
    rw [hreceiver]
    simp [Sys.unposted, Pending.atPc, ReceivePc.unposted, hpacket]

/-- A packet that `receiveTask` posts and that is not refused is on its way to `task2`. -/
theorem receiveTaskStep_handles (h : s.Handles) {mallocOk : Bool} {pc : ReceivePc}
    (hpc : s.byteQueue.task = .running pc) (hroom : ¬ s.refuses (.receiveTask mallocOk))
    (hstep : receiveTaskStep mallocOk s pc = some t)
    (hsame : s.heap.SameOn t.heap (s.exceptReceive + L)) : t.Handles := by
  -- only the post moves a body from one side of the equation to the other
  have hlocal := (receiveTaskStep_footprint hstep).2.2
  cases pc with
  | post p =>
    have hfull : ¬ s.receiveQueue.IsFull := by
      intro hfull
      apply hroom
      simp only [Sys.refuses, hpc]
      exact decide_eq_true hfull
    obtain ⟨packet, hpacket, hstep⟩ := Option.bind_eq_some_iff.1 hstep
    obtain rfl := Option.some.inj hstep
    obtain ⟨-, hcontent, -⟩ := PendQueue.osqPost_of_not_isFull hfull p
    have hbody := Heap.body_of_packet hpacket
    simp only [Sys.Handles, Sys.unhandled, PendQueue.atPc_osqPost hfull, hcontent, List.map_append,
      List.map_singleton, wordsOf_append, hbody] at h ⊢
    rw [← h]
    simp [Sys.commandWords]
  | pend | got byte | mallocBuf | mallocData p | fill p =>
    obtain ⟨hcommand, hposted⟩ := hlocal (by simp)
    exact h.of_sameCommand (hsame.mono fun r hr ↦ by simp [Sys.exceptReceive, hr]) hcommand hposted

theorem commandWords_handle (s : Sys σ) (c : Byte) :
    (s.handleBluetoothInput .command c).commandWords =
      s.commandWords ++ (motorWord c).toList := by
  simp only [Sys.handleBluetoothInput, Sys.commandWords, handleBluetoothInput_snd]
  cases motorWord c <;> simp

theorem commandWords_handle_timeout (s : Sys σ) (c : Byte) :
    (s.handleBluetoothInput .timeout c).commandWords = s.commandWords := by
  simp only [Sys.handleBluetoothInput, Sys.commandWords, handleBluetoothInput_snd]
  cases motorWord c <;> simp

/-- One byte of a packet, or the end of it. -/
theorem Packet.drop_body (slice : Packet) (i : ℕ) :
    slice.body.drop i = if (i : ℤ) < slice.len then
      (loadAt slice.buf i).toList ++ slice.body.drop (i + 1) else [] := by
  split_ifs with hlt
  · rw [loadAt_natCast]
    by_cases hi : i < slice.body.length
    · have hget : slice.buf[i]? = some slice.body[i] := by
        rw [← List.getElem?_eq_getElem hi, Packet.body, List.getElem?_take_of_lt (by omega)]
      rw [hget, List.drop_eq_getElem_cons hi]
      rfl
    · have hlen : slice.buf.length ≤ i := by
        simp only [Packet.body, List.length_take] at hi
        omega
      rw [List.getElem?_eq_none hlen, List.drop_eq_nil_of_le (by omega),
        List.drop_eq_nil_of_le (by omega)]
      rfl
  · refine List.drop_eq_nil_of_le ?_
    simp only [Packet.body, List.length_take]
    omega

/-- **A step of `task2`** writes the word of a byte, and leaves the others to come. -/
theorem task2Step_handles (h : s.Handles) {pc : Task2Pc}
    (hpc : s.receiveQueue.task = .running pc) (hstep : task2Step s pc = some t)
    (hsame : s.heap.SameOn t.heap (s.receiveQueue.slots .readable + s.exceptTask2 + L)) :
    t.Handles := by
  have hslots : s.receiveQueue.entries.map t.heap.body =
      s.receiveQueue.entries.map s.heap.body := by
    refine List.map_congr_left fun p hp ↦ ?_
    have hmem : Ref.packet p .readable ∈ s.receiveQueue.slots .readable := by
      simpa [PendQueue.slots] using hp
    exact hsame.body (k := .readable) (by simp [hmem])
  have hunhandled :
      s.unhandled = pc.unhandled s.heap ++ s.receiveQueue.entries.map s.heap.body := by
    rw [Sys.unhandled, PendQueue.content_of_running hpc, hpc, Pending.atPc]
  cases pc with
  | pend =>
    obtain rfl := Option.some.inj hstep
    refine h.of_same rfl ?_
    rcases s.receiveQueue.osqPend_cases .got with
      ⟨p, entries, hentries, htask, hentries'⟩ | ⟨hnil, htask, hnil'⟩
    · rw [hunhandled, Sys.unhandled, PendQueue.content_of_running htask, htask, hentries', hentries]
      rfl
    · rw [hunhandled, Sys.unhandled, PendQueue.content, htask, hnil', hnil]
      rfl
  | got p =>
    obtain ⟨slice, -, hstep⟩ := Option.bind_eq_some_iff.1 hstep
    split_ifs at hstep
    · obtain ⟨first, -, hstep⟩ := Option.bind_eq_some_iff.1 hstep
      obtain rfl := Option.some.inj hstep
      refine h.of_same rfl ?_
      rw [hunhandled]
      rfl
    · obtain rfl := Option.some.inj hstep
      refine h.of_same rfl ?_
      rw [hunhandled]
      rfl
  | handle p i =>
    obtain ⟨slice, hslice, hstep⟩ := Option.bind_eq_some_iff.1 hstep
    have hbody := Heap.body_of_packet hslice
    have hdrop := Packet.drop_body slice i
    split_ifs at hstep hdrop with hlt
    · obtain ⟨c, hc, hstep⟩ := Option.bind_eq_some_iff.1 hstep
      obtain rfl := Option.some.inj hstep
      refine h.of_same rfl ?_
      rw [hunhandled]
      show (s.handleBluetoothInput .command c).commandWords ++
          wordsOf ([(s.heap.body p).drop (i + 1)] ++ s.receiveQueue.entries.map s.heap.body) =
        s.commandWords ++
          wordsOf ([(s.heap.body p).drop i] ++ s.receiveQueue.entries.map s.heap.body)
      have hword : [c].filterMap motorWord = (motorWord c).toList := by
        cases hc : motorWord c <;> simp [hc]
      rw [commandWords_handle, hbody, hdrop, hc, Option.toList_some]
      simp only [List.cons_append, List.nil_append, wordsOf_cons, List.append_assoc]
      rw [← List.singleton_append, List.filterMap_append, hword, List.append_assoc]
    · obtain rfl := Option.some.inj hstep
      refine h.of_same rfl ?_
      rw [hunhandled]
      show s.commandWords ++ wordsOf ([] ++ s.receiveQueue.entries.map s.heap.body) =
        s.commandWords ++
          wordsOf ([(s.heap.body p).drop i] ++ s.receiveQueue.entries.map s.heap.body)
      rw [hbody, hdrop]
      rfl
  | freeData p =>
    obtain ⟨heap, -, hstep⟩ := Option.bind_eq_some_iff.1 hstep
    obtain rfl := Option.some.inj hstep
    refine h.of_same rfl ?_
    rw [hunhandled, ← hslots]
    rfl
  | freeBuf p =>
    obtain ⟨heap, -, hstep⟩ := Option.bind_eq_some_iff.1 hstep
    obtain rfl := Option.some.inj hstep
    refine h.of_same rfl ?_
    rw [hunhandled, ← hslots]
    rfl
  | timedOut =>
    obtain rfl := Option.some.inj hstep
    refine h.of_same rfl ?_
    rw [hunhandled]
    exact congrArg (· ++ wordsOf (s.receiveQueue.entries.map s.heap.body))
      (commandWords_handle_timeout s btCmdStop)

/-! ### Whole runs -/

theorem kept_received_append (events events' : List Event) :
    kept (received (events ++ events')) = kept (received events) ++ kept (received events') := by
  simp [received, kept]

/-- A byte that is not refused is accepted if it is kept. -/
theorem Sys.accepted_of_not_refuses {e : Event} (hroom : ¬ s.refuses e) :
    s.accepted e = kept (received [e]) := by
  cases e with
  | irq byte =>
    have hfilter : kept (received [.irq byte]) = if IsKept byte then [byte] else [] := by
      simp [kept, received, Event.received, List.filter_singleton]
    simp only [Sys.refuses, Bool.and_eq_true, decide_eq_true_eq, not_and] at hroom
    rw [hfilter, Sys.accepted]
    by_cases hkept : IsKept byte = true
    · simp [hkept, hroom hkept]
    · simp [hkept]
  | _ => rfl

/-- **One step** keeps account of the bytes put into `byteQueue`. -/
theorem step_receives {S : Slave σ} {e : Event} (hinv : s.Inv L) (h : s.Receives stream taken)
    (hstep : Step S s e t) : ∃ taken', t.Receives (stream ++ s.accepted e) taken' := by
  have hundefined : Sys.Receives { s with undefined := true } stream taken :=
    ⟨h.stream_eq, h.receiver_eq⟩
  cases e with
  | irq byte =>
    obtain rfl := hstep.irq
    exact ⟨taken, bluetoothIrq_receives h byte⟩
  | receiveTask mallocOk =>
    rw [show s.accepted _ = [] from rfl, List.append_nil]
    rcases hstep.receiveTask with ⟨m, hpc, rfl⟩ | ⟨pc, hpc, rfl⟩
    · have hstream := h.stream_eq
      have hreceiver := h.receiver_eq
      rw [Sys.inFlight, PendQueue.content, hpc] at hstream
      rw [Sys.unposted, hpc] at hreceiver
      exact ⟨taken, hstream, hreceiver⟩
    · cases hout : receiveTaskStep mallocOk s pc with
      | none => exact ⟨taken, hundefined⟩
      | some t => exact receiveTaskStep_receives hinv h hpc hout
  | sendTask =>
    rw [show s.accepted _ = [] from rfl, List.append_nil]
    refine ⟨taken, ?_⟩
    rcases hstep.sendTask with ⟨p, -, rfl⟩ | ⟨pc, hpc, rfl⟩
    · exact h.of_same (.refl _ _) ⟨rfl, rfl, rfl⟩
    · obtain ⟨t, ht, -, -, hsame⟩ := sendTaskStep_of_inv hinv hpc
      rw [Sys.orUndefined, ht]
      exact h.of_same (hsame.mono fun r hr ↦ by simp [Sys.exceptSend, hr])
        (sendTaskStep_footprint ht).1
  | task2 =>
    rw [show s.accepted _ = [] from rfl, List.append_nil]
    refine ⟨taken, ?_⟩
    rcases hstep.task2 with ⟨-, rfl⟩ | ⟨p, -, rfl⟩ | ⟨pc, hpc, rfl⟩
    · exact h.of_same (.refl _ _) ⟨rfl, rfl, rfl⟩
    · exact h.of_same (.refl _ _) ⟨rfl, rfl, rfl⟩
    · obtain ⟨t, ht, -, -, hsame⟩ := task2Step_of_inv hinv hpc
      rw [Sys.orUndefined, ht]
      exact h.of_same (hsame.mono fun r hr ↦ by simp [Sys.exceptTask2, hr])
        (task2Step_footprint ht).1
  | task1 mallocOk =>
    rw [show s.accepted _ = [] from rfl, List.append_nil]
    refine ⟨taken, ?_⟩
    obtain ⟨-, rfl⟩ := hstep.task1
    -- an undefined step changes nothing that is accounted for
    by_cases hfails : s.Fails (.task1 mallocOk)
    · rw [Sys.orUndefined, task1Step_of_fails S hfails]
      exact hundefined
    · obtain ⟨t, ht, -, -, hsame⟩ := task1Step_of_inv S hinv hfails
      rw [Sys.orUndefined, ht]
      exact h.of_same (hsame.mono fun r hr ↦ by simp [Sys.exceptTask1, hr])
        (task1Step_footprint ht).1
  | timeout =>
    rw [show s.accepted _ = [] from rfl, List.append_nil]
    obtain ⟨-, rfl⟩ := hstep.timeout
    exact ⟨taken, h.of_same (.refl _ _) ⟨rfl, rfl, rfl⟩⟩
  | wake =>
    rw [show s.accepted _ = [] from rfl, List.append_nil]
    obtain ⟨-, rfl⟩ := hstep.wake
    exact ⟨taken, h.of_same (.refl _ _) ⟨rfl, rfl, rfl⟩⟩

/-- **One step** keeps account of the words, unless it refuses a packet. -/
theorem step_handles {S : Slave σ} {e : Event} (hinv : s.Inv L) (h : s.Handles)
    (hstep : Step S s e t) (hroom : ¬ s.refuses e) : t.Handles := by
  cases e with
  | irq byte =>
    obtain rfl := hstep.irq
    unfold bluetoothIrq
    split_ifs
    · exact h
    · exact h
  | receiveTask mallocOk =>
    rcases hstep.receiveTask with ⟨m, -, rfl⟩ | ⟨pc, hpc, rfl⟩
    · exact h
    by_cases hfails : s.Fails (.receiveTask mallocOk)
    · rw [Sys.orUndefined, receiveTaskStep_of_fails hinv hpc hfails]
      exact h
    · obtain ⟨t, ht, -, -, hsame⟩ := receiveTaskStep_of_inv hinv hpc hfails
      rw [Sys.orUndefined, ht]
      exact receiveTaskStep_handles h hpc hroom ht hsame
  | sendTask =>
    rcases hstep.sendTask with ⟨p, -, rfl⟩ | ⟨pc, hpc, rfl⟩
    · exact h
    · obtain ⟨t, ht, -, -, hsame⟩ := sendTaskStep_of_inv hinv hpc
      obtain ⟨hreceive, hcommand, -⟩ := sendTaskStep_footprint ht
      rw [Sys.orUndefined, ht]
      exact h.of_sameCommand (hsame.mono fun r hr ↦ by simp [Sys.exceptSend, hr]) hcommand
        hreceive.posted
  | task2 =>
    rcases hstep.task2 with ⟨hpc, rfl⟩ | ⟨p, hpc, rfl⟩ | ⟨pc, hpc, rfl⟩
    · refine h.of_same rfl ?_
      rw [s.unhandled_eq hpc]
      rfl
    · refine h.of_same rfl ?_
      rw [s.unhandled_eq hpc]
      rfl
    · obtain ⟨t, ht, -, -, hsame⟩ := task2Step_of_inv hinv hpc
      rw [Sys.orUndefined, ht]
      exact task2Step_handles h hpc ht hsame
  | task1 mallocOk =>
    obtain ⟨-, rfl⟩ := hstep.task1
    by_cases hfails : s.Fails (.task1 mallocOk)
    · rw [Sys.orUndefined, task1Step_of_fails S hfails]
      exact h
    · obtain ⟨t, ht, -, -, hsame⟩ := task1Step_of_inv S hinv hfails
      obtain ⟨hreceive, hcommand, -⟩ := task1Step_footprint ht
      rw [Sys.orUndefined, ht]
      exact h.of_sameCommand (hsame.mono fun r hr ↦ by simp [Sys.exceptTask1, hr]) hcommand
        hreceive.posted
  | timeout =>
    obtain ⟨hblocked, rfl⟩ := hstep.timeout
    obtain ⟨htask, hentries⟩ := PendQueue.expire_of_isBlocked hblocked
    have hwait := Pending.isBlocked_iff.1 hblocked
    refine h.of_same rfl ?_
    rw [s.unhandled_eq hwait, Sys.unhandled, PendQueue.content, htask, hentries]
    rfl
  | wake =>
    obtain ⟨-, rfl⟩ := hstep.wake
    exact h

/-- In every state of every run, the state accounts for some stream put into `byteQueue`. -/
theorem exists_receives_of_run {S : Slave σ} {slave : σ} {events : List Event}
    (hrun : Run (Step S) (.init slave) events s) : ∃ stream taken, s.Receives stream taken := by
  induction hrun with
  | nil => exact ⟨[], [], rfl, rfl⟩
  | snoc hrun hstep ih =>
    obtain ⟨stream, taken, hreceives⟩ := ih
    obtain ⟨L, hinv⟩ := exists_inv_of_run hrun
    obtain ⟨taken', hreceives'⟩ := step_receives hinv hreceives hstep
    exact ⟨_, taken', hreceives'⟩

/-- A run in which no byte is refused puts the bytes kept into `byteQueue`. -/
theorem receives_of_run {S : Slave σ} {slave : σ} {before events : List Event} {s₀ : Sys σ}
    (hbefore : Run (Step S) (.init slave) before s₀) (hreceives : s₀.Receives stream taken)
    (hrun : Run (Step S) s₀ events s)
    (hroom : StepsAlong (Step S) (fun s e ↦ ¬ s.refuses e) s₀ events) :
    ∃ taken', s.Receives (stream ++ kept (received events)) taken' := by
  induction hrun with
  | nil => exact ⟨taken, by simpa [received, kept] using hreceives⟩
  | snoc hrun hstep ih =>
    obtain ⟨taken', hreceives'⟩ :=
      ih fun _ _ _ _ hpre ↦ hroom (hpre.trans (List.prefix_append _ _))
    obtain ⟨L, hinv⟩ := exists_inv_of_run (hbefore.append hrun)
    rw [kept_received_append, ← List.append_assoc,
      ← Sys.accepted_of_not_refuses (hroom (List.prefix_refl _) hrun hstep)]
    exact step_receives hinv hreceives' hstep

/-- A run in which no packet is refused keeps account of the words. -/
theorem handles_of_run {S : Slave σ} {slave : σ} {before events : List Event} {s₀ : Sys σ}
    (hbefore : Run (Step S) (.init slave) before s₀) (hhandles : s₀.Handles)
    (hrun : Run (Step S) s₀ events s)
    (hroom : StepsAlong (Step S) (fun s e ↦ ¬ s.refuses e) s₀ events) : s.Handles := by
  induction hrun with
  | nil => exact hhandles
  | snoc hrun hstep ih =>
    obtain ⟨L, hinv⟩ := exists_inv_of_run (hbefore.append hrun)
    exact step_handles hinv (ih fun _ _ _ _ hpre ↦ hroom (hpre.trans (List.prefix_append _ _)))
      hstep (hroom (List.prefix_refl _) hrun hstep)

/-- What has been posted are the bodies of what `receiveTask` has taken. -/
theorem Sys.Receives.bodies_eq (h : s.Receives stream taken) :
    (s.log.posted ++ s.unposted).map Packet.body = bodies startByte endByte taken := by
  have hpb : (receiveTask taken).pb = some s.pb := by rw [h.receiver_eq]
  have hposted := (receiveTask_of_pb_eq_some hpb).2.1
  rwa [h.receiver_eq] at hposted

/-- Dropping bytes that are neither delimiters nor letters does not change the words of a
stream. -/
theorem wordsOf_bodies_kept (stream : List Byte) :
    wordsOf (bodies startByte endByte (kept stream)) =
      wordsOf (bodies startByte endByte stream) := by
  have hword : ∀ byte : Byte, IsKept byte = false → motorWord byte = none := by decide
  rw [kept, bodies_filter startByte_ne_endByte (by decide) (by decide), wordsOf, wordsOf,
    ← List.filter_flatten, List.filterMap_filter]
  refine List.filterMap_congr fun byte _ ↦ ?_
  cases hkept : IsKept byte with
  | true => simp
  | false => simp [hword byte hkept]

/-- The words written are the first of the words of the stream received. -/
theorem Sys.Receives.commandWords_isPrefix (h : s.Receives (kept stream) taken)
    (hhandles : s.Handles) : s.commandWords <+: wordsOf (bodies startByte endByte stream) := by
  calc s.commandWords <+: wordsOf (s.log.posted.map Packet.body) :=
        hhandles ▸ List.prefix_append _ _
    _ <+: wordsOf (bodies startByte endByte taken) := by
        rw [← h.bodies_eq, List.map_append]
        exact wordsOf_mono (List.prefix_append _ _)
    _ <+: wordsOf (bodies startByte endByte (kept stream)) :=
        wordsOf_mono (bodies_mono ⟨s.inFlight, h.stream_eq.symm⟩)
    _ = wordsOf (bodies startByte endByte stream) := wordsOf_bodies_kept _

/-- `receiveTask` is on the wait list: everything received has been dealt with. -/
theorem receiverIdle_of_onWaitList (h : s.byteQueue.task.onWaitList = true) : s.ReceiverIdle := by
  have hnil := s.byteQueue.entries_eq_nil h
  constructor
  · cases ht : s.byteQueue.task <;>
      simp_all [Sys.inFlight, PendQueue.content, Pending.atPc, Pending.message, Pending.onWaitList]
  · cases ht : s.byteQueue.task <;> simp_all [Sys.unposted, Pending.atPc, Pending.onWaitList]

/-- The tasks of the receive side wait: everything received has been dealt with. -/
theorem drained_of_isBlocked (hreceive : s.byteQueue.task.isBlocked = true)
    (htask2 : s.receiveQueue.task.isBlocked = true) : s.Drained := by
  refine ⟨receiverIdle_of_onWaitList (Pending.onWaitList_of_isBlocked hreceive), ?_⟩
  have hwait := Pending.isBlocked_iff.1 htask2
  have hnil := s.receiveQueue.entries_eq_nil (Pending.onWaitList_of_isBlocked htask2)
  simp [s.unhandled_eq hwait, hnil, Pending.atPc, Pending.message]

/-- A byte for a frame that fills the buffer makes the open frame of the stream too long. -/
theorem Sys.Receives.not_full {byte : Byte} (h : s.Receives stream taken)
    (hpc : s.byteQueue.task = .running (.got byte))
    (hbound : OpenBounded startByte endByte bufSize stream) (hstart : byte ≠ startByte)
    (hend : byte ≠ endByte) (hflag : s.pb.isStarted = true) : s.pb.myLen ≠ bufSize := by
  intro hfull
  have hpb : (receiveTask taken).pb = some s.pb := by rw [h.receiver_eq]
  have htracks := (receiveTask_of_pb_eq_some hpb).1
  obtain ⟨body, hopen⟩ := Option.isSome_iff_exists.1 (htracks.isStarted_eq.symm.trans hflag)
  rw [hopen] at htracks
  have hlen := htracks.2.len_eq
  have hpre : taken ++ [byte] <+: stream := by
    rw [h.stream_eq, Sys.inFlight, hpc]
    exact ⟨_, List.append_assoc _ _ _⟩
  have hopen' : openBody startByte endByte (taken ++ [byte]) = some (body ++ [byte]) := by
    rw [openBody_snoc_of_ne hstart hend, hopen]
    rfl
  have hle := (openBounded_iff startByte_ne_endByte).1 hbound _ _ hpre hopen'
  rw [List.length_append, List.length_singleton] at hle
  omega

/-- As long as the open bodies fit into the buffer, only a failing `malloc` is undefined. -/
theorem Sys.Receives.not_fails {e : Event} (h : s.Receives stream taken)
    (hbound : OpenBounded startByte endByte bufSize stream) (hmalloc : ¬ s.MallocFails e) :
    ¬ s.Fails e := by
  intro hfails
  cases e with
  | receiveTask mallocOk =>
    simp only [Sys.MallocFails] at hmalloc
    simp only [Sys.Fails] at hfails
    split at hfails
    · rename_i byte hpc
      obtain ⟨hstart, hend, hflag, hfull⟩ := hfails
      exact h.not_full hpc hbound hstart hend hflag hfull
    all_goals simp_all
  | task1 mallocOk => exact hmalloc hfails
  | irq byte | sendTask | task2 | timeout | wake => exact hfails

/-- As long as the frames received fit into the buffer and `malloc` does not fail, nothing
undefined happens. -/
theorem not_undefined_of_run {S : Slave σ} {slave : σ} {before events : List Event} {s₀ : Sys σ}
    (hbefore : Run (Step S) (.init slave) before s₀) (hreceives : s₀.Receives stream taken)
    (hdef : s₀.undefined = false) (hrun : Run (Step S) s₀ events s)
    (hroom : StepsAlong (Step S) (fun s e ↦ ¬ s.refuses e) s₀ events)
    (hbound : OpenBounded startByte endByte bufSize (stream ++ kept (received events)))
    (hmalloc : StepsAlong (Step S) (fun s e ↦ ¬ s.MallocFails e) s₀ events) :
    s.undefined = false := by
  -- no induction: the state before the last step is accounted for by the run lemma
  cases hrun with
  | nil => exact hdef
  | @snoc t s events e hrun hstep =>
    obtain ⟨L, hinv⟩ := exists_inv_of_run (hbefore.append hrun)
    obtain ⟨taken', hreceives'⟩ := receives_of_run hbefore hreceives hrun
      fun _ _ _ _ hpre ↦ hroom (hpre.trans (List.prefix_append _ _))
    rw [kept_received_append, ← List.append_assoc] at hbound
    exact ((step_of_inv hinv hstep).2 (hreceives'.not_fails (hbound.mono (List.prefix_append _ _))
      (hmalloc (List.prefix_refl _) hrun hstep))).1

/-- **Delivery of commands.** In every run in which no byte and no packet of the receive side is
refused, in whatever order the interrupt and the tasks come, the words written to the DC driver
for bytes of packets are a prefix of the words of the stream that is received, and all of
them once everything received has been dealt with. Nothing undefined happens as long as `malloc`
does not fail. -/
theorem words_delivered (S : Slave σ) (slave : σ) {stream : List Byte} {events : List Event}
    (hbound : OpenBounded startByte endByte bufSize stream)
    (hreceived : received events <+: stream) (hrun : Run (Step S) (.init slave) events s)
    (hroom : StepsAlong (Step S) (fun s e ↦ ¬ s.refuses e) (.init slave) events) :
    s.commandWords <+: wordsOf (bodies startByte endByte stream) ∧
      (received events = stream → s.Drained →
        s.commandWords = wordsOf (bodies startByte endByte stream)) ∧
      ((∀ e ∈ events, e.MallocOk) → s.undefined = false) := by
  have hinit : (Sys.init slave).Receives [] [] := ⟨rfl, rfl⟩
  obtain ⟨taken, hreceives⟩ := receives_of_run (.nil _) hinit hrun hroom
  rw [List.nil_append] at hreceives
  have hwords := handles_of_run (.nil _) rfl hrun hroom
  have hbodies := hreceives.bodies_eq
  refine ⟨?_, ?_, fun hmalloc ↦ ?_⟩
  · exact (hreceives.commandWords_isPrefix hwords).trans (wordsOf_mono (bodies_mono hreceived))
  · rintro rfl ⟨⟨hflight, hunposted⟩, hunhandled⟩
    rw [Sys.Handles, hunhandled, show wordsOf [] = [] from rfl, List.append_nil] at hwords
    have hstream := hreceives.stream_eq
    rw [hflight, List.append_nil] at hstream
    rw [hunposted, List.append_nil, ← hstream] at hbodies
    rw [hwords, hbodies, wordsOf_bodies_kept]
  · refine not_undefined_of_run (.nil _) hinit rfl hrun hroom ?_ fun pre e _ _ hpre _ _ ↦ ?_
    · exact (hbound.mono hreceived).filter startByte_ne_endByte (by decide) (by decide)
    · exact (hmalloc e (hpre.subset (by simp))).not_mallocFails

end

/-- A frame with the letter `'f'`, and enough steps of the tasks to deal with it. -/
def forwardFrame : List Event :=
  [.irq startByte, .irq btCmdForward, .irq endByte] ++ List.replicate 11 (.receiveTask true) ++
    List.replicate 7 .task2

theorem words_delivered_forwardFrame :
    ∃ s, Run (Step Slave.absent) (.init ()) forwardFrame s ∧ s.Drained ∧
      s.commandWords = [0xA] := by
  have heval : ((forwardFrame.foldlM (checked (step Slave.absent) fun s e ↦ !s.refuses e)
      (.init ())).map fun s ↦ s.byteQueue.task.isBlocked && s.receiveQueue.task.isBlocked) =
        some true := by
    decide +kernel
  obtain ⟨s, hchecked, hblocked⟩ := Option.map_eq_some_iff.1 heval
  rw [Bool.and_eq_true] at hblocked
  obtain ⟨hrun, hroom⟩ := run_of_checked hchecked
  have hdrained := drained_of_isBlocked hblocked.1 hblocked.2
  have hbound : OpenBounded startByte endByte bufSize (received forwardFrame) := by
    intro pre body post hstream _
    have hlen := congrArg List.length hstream
    rw [show (received forwardFrame).length = 3 from rfl] at hlen
    simp only [List.length_append, List.length_cons] at hlen
    unfold bufSize
    omega
  refine ⟨s, hrun, hdrained, ?_⟩
  rw [(words_delivered Slave.absent () hbound (List.prefix_refl _) hrun
    fun _ _ _ _ hpre hrun' hstep ↦ by simpa using hroom hpre hrun' hstep).2.1 rfl hdrained]
  decide +kernel

end MappingRobot
