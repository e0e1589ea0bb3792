import MappingRobot.Delivery

/-!
# Sending and receiving the same payload

`send` and `receiveTask` speak the same frame format only in part: both know START and END, but
nobody takes out the ESCAPE bytes that `send` puts in, an escaped START or END is a START or END
to `receiveTask`, and `bluetoothIRQ` takes the byte `0xFF` for the absence of one.

So a payload comes back as it was sent exactly when it contains none of these four bytes
(`returns_iff`). For the frame format on its own this is `bodies_kept_frame_iff`; that it is
what the system does in whatever order its tasks run is `receives_of_run`.
-/

namespace MappingRobot

open Delimited LabelledRun

/-- The byte has no meaning in the frame format, and `bluetoothIRQ` does not drop it. -/
def IsPlain (byte : Byte) : Prop :=
  ¬ IsSpecial byte ∧ IsKept byte = true

instance : DecidablePred IsPlain := fun byte ↦
  inferInstanceAs (Decidable (¬ IsSpecial byte ∧ IsKept byte = true))

/-! ### The frame of a payload, read back -/

theorem isKept_escapeByte : IsKept escapeByte = true := by decide

/-- What comes through of a frame. -/
theorem kept_frame (payload : List Byte) :
    kept (frame payload) =
      startByte :: (kept (stuffed IsSpecial escapeByte payload) ++ [endByte]) := by
  have hstart : IsKept startByte = true := by decide
  have hend : IsKept endByte = true := by decide
  simp [kept, frame, stuffedFrame, List.filter_append, hstart, hend]

theorem kept_frame_of_plain {payload : List Byte} (hplain : ∀ byte ∈ payload, IsPlain byte) :
    kept (frame payload) = startByte :: (payload ++ [endByte]) := by
  rw [kept_frame, stuffed_of_forall_not IsSpecial escapeByte fun byte hbyte ↦ (hplain byte hbyte).1,
    kept, List.filter_eq_self.2 fun byte hbyte ↦ (hplain byte hbyte).2]

theorem not_delimiter_of_plain {byte : Byte} (h : IsPlain byte) :
    byte ≠ startByte ∧ byte ≠ endByte :=
  ⟨fun hstart ↦ h.1 (Or.inl hstart), fun hend ↦ h.1 (Or.inr (Or.inl hend))⟩

/-- The frame of a payload adds that payload, and nothing else, to the bodies of a stream exactly
when all bytes of the payload are plain. -/
theorem bodies_kept_frame_iff (stream payload : List Byte) :
    bodies startByte endByte (stream ++ kept (frame payload)) =
        bodies startByte endByte stream ++ [payload] ↔
      ∀ byte ∈ payload, IsPlain byte := by
  constructor
  · intro h
    -- a body has no delimiters, so that the payload can only have ESCAPE bytes added
    have hfree : ∀ byte ∈ payload, byte ≠ startByte ∧ byte ≠ endByte :=
      not_delimiter_of_mem_bodies startByte_ne_endByte (by rw [h]; simp)
    have hstuffed : ∀ byte ∈ kept (stuffed IsSpecial escapeByte payload),
        byte ≠ startByte ∧ byte ≠ endByte := by
      intro byte hbyte
      rcases eq_or_mem_of_mem_stuffed IsSpecial escapeByte (List.mem_of_mem_filter hbyte) with
        rfl | hbyte
      · decide
      · exact hfree byte hbyte
    rw [kept_frame, bodies_frame startByte_ne_endByte stream hstuffed, List.append_cancel_left_eq,
      List.cons.injEq] at h
    have hkept : ∀ byte ∈ payload, IsKept byte = true := by
      intro byte hbyte
      rw [← h.1] at hbyte
      exact List.of_mem_filter hbyte
    have hall : kept (stuffed IsSpecial escapeByte payload) =
        stuffed IsSpecial escapeByte payload := by
      refine List.filter_eq_self.2 fun byte hbyte ↦ ?_
      rcases eq_or_mem_of_mem_stuffed IsSpecial escapeByte hbyte with rfl | hbyte
      · exact isKept_escapeByte
      · exact hkept byte hbyte
    -- what has come through unchanged has not grown, and so nothing has been escaped
    have hlen := length_stuffed IsSpecial escapeByte payload
    rw [← hall, h.1, Nat.left_eq_add, List.countP_eq_zero] at hlen
    exact fun byte hbyte ↦ ⟨by simpa using hlen byte hbyte, hkept byte hbyte⟩
  · intro hplain
    rw [kept_frame_of_plain hplain, bodies_frame startByte_ne_endByte stream
      fun byte hbyte ↦ not_delimiter_of_plain (hplain byte hbyte)]

/-! ### The system gives a payload back -/

section

variable {σ : Type} {s s₀ : Sys σ} {stream taken : List Byte}

/-- The payload has come back between two states: `receiveTask` has posted one packet, which has
the length and the bytes of the payload. -/
def Sys.Returns (s₀ s : Sys σ) (payload : List Byte) : Prop :=
  s.undefined = false ∧ ∃ p : Packet, s.log.posted = s₀.log.posted ++ [p] ∧ p.body = payload ∧
    p.len = payload.length

/-- What has been posted between two states in which `receiveTask` is idle, in terms of the
frame format. -/
theorem Sys.Receives.returns_iff {taken' payload : List Byte} (h₀ : s₀.Receives stream taken)
    (h : s.Receives (stream ++ kept (frame payload)) taken') (hidle₀ : s₀.ReceiverIdle)
    (hidle : s.ReceiverIdle) :
    s₀.Returns s payload ↔ s.undefined = false ∧ ∀ byte ∈ payload, IsPlain byte := by
  obtain ⟨hstream₀, hreceiver₀⟩ := h₀
  obtain ⟨hstream, hreceiver⟩ := h
  rw [hidle₀.inFlight, List.append_nil] at hstream₀
  rw [hidle.inFlight, List.append_nil] at hstream
  rw [hidle₀.unposted, List.append_nil, ← hstream₀] at hreceiver₀
  rw [hidle.unposted, List.append_nil, ← hstream] at hreceiver
  have hpb₀ : (receiveTask stream).pb = some s₀.pb := by rw [hreceiver₀]
  have hpb : (receiveTask (stream ++ kept (frame payload))).pb = some s.pb := by rw [hreceiver]
  obtain ⟨-, hbodies₀, -⟩ := receiveTask_of_pb_eq_some hpb₀
  obtain ⟨-, hbodies, hlens⟩ := receiveTask_of_pb_eq_some hpb
  obtain ⟨more, hmore⟩ := posted_mono (List.prefix_append stream (kept (frame payload)))
  simp only [hreceiver₀, hreceiver] at hmore hbodies₀ hbodies hlens
  -- both states are idle, so that what each has posted is all of its stream
  rw [← bodies_kept_frame_iff stream, ← hbodies, ← hbodies₀, Sys.Returns, ← hmore,
    List.map_append, List.append_cancel_left_eq]
  refine and_congr_right fun _ ↦ ?_
  simp only [List.append_cancel_left_eq]
  constructor
  · rintro ⟨p, rfl, hbody, -⟩
    rw [List.map_singleton, hbody]
  · intro hmap
    obtain ⟨p, rfl, hbody⟩ := List.map_eq_singleton_iff.1 hmap
    have hlen := (hlens p (by rw [← hmore]; simp)).1
    exact ⟨p, rfl, hbody, by rw [hlen, hbody]⟩

/-! ### `receiveTask` comes to an end -/

/-- How many steps `receiveTask` can take from a program point before it pends, counting that
one. -/
def ReceivePc.work : ReceivePc → ℕ
  | .pend => 1
  | .post _ => 2
  | .fill _ => 3
  | .mallocData _ => 4
  | .mallocBuf => 5
  | .got _ => 6

/-- How many steps `receiveTask` can take before it waits, if no byte comes. -/
def Sys.receiveWork (s : Sys σ) : ℕ :=
  6 * s.byteQueue.entries.length + match s.byteQueue.task with
    | .waiting | .expired => 0
    | .posted _ => 7
    | .running pc => pc.work

theorem Sys.receiveWork_of_running {pc : ReceivePc} (h : s.byteQueue.task = .running pc) :
    s.receiveWork = 6 * s.byteQueue.entries.length + pc.work := by
  rw [receiveWork, h]

/-- A step of `receiveTask` leaves it less to do. -/
theorem receiveTaskStep_work {mallocOk : Bool} {pc : ReceivePc} {t : Sys σ}
    (hpc : s.byteQueue.task = .running pc) (hstep : receiveTaskStep mallocOk s pc = some t) :
    t.receiveWork < s.receiveWork := by
  rw [Sys.receiveWork_of_running hpc]
  cases pc with
  | pend =>
    obtain rfl := Option.some.inj hstep
    rcases s.byteQueue.osqPend_cases fun m ↦ ReceivePc.got (m.setWidth 8) with
      ⟨m, entries, hentries, htask, hentries'⟩ | ⟨hnil, htask, hnil'⟩
    · rw [Sys.receiveWork_of_running htask, hentries, hentries', List.length_cons, ReceivePc.work,
        ReceivePc.work]
      omega
    · rw [Sys.receiveWork, htask, hnil, hnil']
      decide
  | got byte =>
    obtain ⟨result, -, hstep⟩ := Option.bind_eq_some_iff.1 hstep
    cases result with
    | nextByte pb =>
      obtain rfl := Option.some.inj hstep
      show 6 * s.byteQueue.entries.length + 1 < 6 * s.byteQueue.entries.length + 6
      omega
    | endOfFrame =>
      obtain rfl := Option.some.inj hstep
      show 6 * s.byteQueue.entries.length + 5 < 6 * s.byteQueue.entries.length + 6
      omega
  | mallocBuf =>
    simp only [receiveTaskStep] at hstep
    split_ifs at hstep
    obtain rfl := Option.some.inj hstep
    show 6 * s.byteQueue.entries.length + 4 < 6 * s.byteQueue.entries.length + 5
    omega
  | mallocData p =>
    simp only [receiveTaskStep] at hstep
    split_ifs at hstep
    obtain ⟨heap, -, hstep⟩ := Option.bind_eq_some_iff.1 hstep
    obtain rfl := Option.some.inj hstep
    show 6 * s.byteQueue.entries.length + 3 < 6 * s.byteQueue.entries.length + 4
    omega
  | fill p =>
    obtain ⟨result, -, hstep⟩ := Option.bind_eq_some_iff.1 hstep
    obtain ⟨heap, -, hstep⟩ := Option.bind_eq_some_iff.1 hstep
    obtain rfl := Option.some.inj hstep
    show 6 * s.byteQueue.entries.length + 2 < 6 * s.byteQueue.entries.length + 3
    omega
  | post p =>
    obtain ⟨packet, -, hstep⟩ := Option.bind_eq_some_iff.1 hstep
    obtain rfl := Option.some.inj hstep
    show 6 * s.byteQueue.entries.length + 1 < 6 * s.byteQueue.entries.length + 2
    omega

/-- When `receiveTask` is let run, it gets through with everything received, unless it does
something undefined. -/
theorem exists_receiverIdle (S : Slave σ) (s : Sys σ) :
    ∃ n t, Run (Step S) s (List.replicate n (.receiveTask true)) t ∧
      (t.undefined = true ∨ t.ReceiverIdle) := by
  -- on the work left: `task2` and the interrupt are not let run, so that nothing is added to it
  induction hwork : s.receiveWork using Nat.strong_induction_on generalizing s with
  | _ work ih =>
  cases hdef : s.undefined with
  | true => exact ⟨0, s, .nil s, Or.inl hdef⟩
  | false =>
    have hgo : ∀ t, Step S s (.receiveTask true) t →
        (t.undefined = true ∨ t.receiveWork < s.receiveWork) →
        ∃ n t, Run (Step S) s (List.replicate n (.receiveTask true)) t ∧
          (t.undefined = true ∨ t.ReceiverIdle) := by
      rintro t hstep (hundef | hless)
      · exact ⟨1, t, .snoc (.nil s) hstep, Or.inl hundef⟩
      · obtain ⟨n, u, hrun, hend⟩ := ih _ (hwork ▸ hless) t rfl
        exact ⟨n + 1, u, run_cons_iff.2 ⟨t, hstep, hrun⟩, hend⟩
    cases htask : s.byteQueue.task with
    | waiting | expired =>
      exact ⟨0, s, .nil s, Or.inr (receiverIdle_of_onWaitList (by rw [htask]; rfl))⟩
    | posted m =>
      refine hgo { s with byteQueue := s.byteQueue.goto (.got (m.setWidth 8)) } ?_ (Or.inr ?_)
      · simp [Step, step, hdef, htask]
      · rw [Sys.receiveWork, Sys.receiveWork, htask]
        show 6 * s.byteQueue.entries.length + 6 < 6 * s.byteQueue.entries.length + 7
        omega
    | running pc =>
      refine hgo (s.orUndefined (receiveTaskStep true s pc)) (by simp [Step, step, hdef, htask]) ?_
      cases hout : receiveTaskStep true s pc with
      | none => exact Or.inl rfl
      | some t => exact Or.inr (receiveTaskStep_work htask hout)

/-! ### Whole runs -/

/-- A run that ends well has not failed on its way. -/
theorem not_fails_of_run {S : Slave σ} {slave : σ} {before events : List Event}
    (hbefore : Run (Step S) (.init slave) before s₀) (hrun : Run (Step S) s₀ events s)
    (hdef : s.undefined = false) :
    StepsAlong (Step S) (fun s e ↦ ¬ s.Fails e) s₀ events := by
  rintro pre e t u ⟨post, rfl⟩ hpre hstep hfails
  obtain ⟨L, hinv⟩ := exists_inv_of_run (hbefore.append hpre)
  have hundef : u.undefined = true := by rw [(step_of_inv hinv hstep).1 hfails]
  obtain ⟨v, hv, hrest⟩ := run_append_iff.1 hrun
  obtain rfl := run_unique (hpre.snoc hstep) hv
  cases post with
  | nil =>
    obtain rfl := run_nil_iff.1 hrest
    rw [hundef] at hdef
    cases hdef
  | cons e' post =>
    -- nothing happens after something undefined
    obtain ⟨w, hnext, -⟩ := run_cons_iff.1 hrest
    rw [hnext.defined] at hundef
    cases hundef

/-- **The round trip.** Let the bytes that `send` writes for a payload of at most `BUF_SIZE` bytes
arrive when `receiveTask` has dealt with everything before, whether or not a frame is open, and
let no post be refused until it has dealt with them too, which it comes to. Then it has posted one
packet, with the length and the bytes of the payload, exactly when all bytes of the payload are
plain and no `malloc` has failed meanwhile. -/
theorem payload_returns_iff (S : Slave σ) (slave : σ) {before events : List Event}
    {payload : List Byte} (hlen : payload.length ≤ bufSize)
    (hbefore : Run (Step S) (.init slave) before s₀) (hidle₀ : s₀.ReceiverIdle)
    (hrun : Run (Step S) s₀ events s)
    (hroom : StepsAlong (Step S) (fun s e ↦ ¬ s.refuses e) s₀ events)
    (hsent : send (.ofPayload payload) = some (received events)) :
    (∃ n t, Run (Step S) s (List.replicate n (.receiveTask true)) t ∧
        (t.undefined = true ∨ t.ReceiverIdle)) ∧
      (s.undefined = true ∨ s.ReceiverIdle →
        (s₀.Returns s payload ↔ (∀ byte ∈ payload, IsPlain byte) ∧
          StepsAlong (Step S) (fun s e ↦ ¬ s.MallocFails e) s₀ events)) := by
  refine ⟨exists_receiverIdle S s, fun hend ↦ ?_⟩
  rw [send_ofPayload, Option.some_inj] at hsent
  obtain ⟨stream, taken, h₀⟩ := exists_receives_of_run hbefore
  obtain ⟨taken', h⟩ := receives_of_run hbefore h₀ hrun hroom
  constructor
  · rintro ⟨hdef, hposted⟩
    have hidle : s.ReceiverIdle := hend.resolve_left (by simp [hdef])
    refine ⟨?_, fun _ _ _ _ hpre hrun' hstep hmalloc ↦
      not_fails_of_run hbefore hrun hdef hpre hrun' hstep hmalloc.fails⟩
    rw [← hsent] at h
    exact ((h₀.returns_iff h hidle₀ hidle).1 ⟨hdef, hposted⟩).2
  · rintro ⟨hplain, hmalloc⟩
    -- the run is not empty, since a frame has its delimiters
    have hdef₀ : s₀.undefined = false := by
      cases events with
      | nil => cases hsent
      | cons e events =>
        obtain ⟨t, hstep, -⟩ := run_cons_iff.1 hrun
        exact hstep.defined
    have hbound : OpenBounded startByte endByte bufSize (stream ++ kept (received events)) := by
      have hpb : (receiveTask stream).pb.isSome := by
        have hstream := h₀.stream_eq
        rw [hidle₀.inFlight, List.append_nil] at hstream
        rw [hstream, h₀.receiver_eq]
        rfl
      rw [← hsent, kept_frame_of_plain hplain]
      exact ((pb_isSome_iff_openBounded stream).1 fun pre hpre ↦
        pb_isSome_mono hpre hpb).append_frame startByte_ne_endByte
          (fun byte hbyte ↦ not_delimiter_of_plain (hplain byte hbyte)) hlen
    have hdef := not_undefined_of_run hbefore h₀ hdef₀ hrun hroom hbound hmalloc
    have hidle : s.ReceiverIdle := hend.resolve_left (by simp [hdef])
    rw [← hsent] at h
    exact (h₀.returns_iff h hidle₀ hidle).2 ⟨hdef, hplain⟩

end

/-- The frame of a payload arrives, and `receiveTask` gets enough steps to deal with it. -/
def arrival (payload : List Byte) (steps : ℕ) : List Event :=
  (frame payload).map .irq ++ List.replicate steps (.receiveTask true)

theorem mallocOk_of_mem_arrival {payload : List Byte} {steps : ℕ} {e : Event}
    (h : e ∈ arrival payload steps) : e.MallocOk := by
  rcases List.mem_append.1 h with h | h
  · obtain ⟨byte, -, rfl⟩ := List.mem_map.1 h
    trivial
  · obtain rfl := List.eq_of_mem_replicate h
    rfl

theorem payload_returns_zero_f :
    ∃ s, Run (Step Slave.absent) (.init ()) (arrival [0x00, 0x66] 13) s ∧
      (Sys.init ()).Returns s [0x00, 0x66] := by
  have heval : (((arrival [0x00, 0x66] 13).foldlM
      (checked (step Slave.absent) fun s e ↦ !s.refuses e) (.init ())).map fun s ↦
        s.byteQueue.task.onWaitList) = some true := by
    decide +kernel
  obtain ⟨s, hchecked, hwait⟩ := Option.map_eq_some_iff.1 heval
  obtain ⟨hrun, hroom⟩ := run_of_checked hchecked
  refine ⟨s, hrun, ?_⟩
  refine ((payload_returns_iff Slave.absent () (by decide) (.nil _) ⟨rfl, rfl⟩ hrun
    (fun _ _ _ _ hpre hrun' hstep ↦ by simpa using hroom hpre hrun' hstep) rfl).2
      (Or.inr (receiverIdle_of_onWaitList hwait))).2 ⟨by decide, ?_⟩
  exact fun _ _ _ _ hpre _ _ ↦ (mallocOk_of_mem_arrival (hpre.subset (by simp))).not_mallocFails

/-- A payload of one ESCAPE byte does not come back: the packet posted has two. -/
theorem not_returns_of_escape :
    ∃ s, Run (Step Slave.absent) (.init ()) (arrival [escapeByte] 13) s ∧
      StepsAlong (Step Slave.absent) (fun s e ↦ ¬ s.refuses e) (.init ())
        (arrival [escapeByte] 13) ∧
      send (.ofPayload [escapeByte]) = some (received (arrival [escapeByte] 13)) ∧
      s.ReceiverIdle ∧ s.undefined = false ∧ ¬ (Sys.init ()).Returns s [escapeByte] := by
  have heval : (((arrival [escapeByte] 13).foldlM
      (checked (step Slave.absent) fun s e ↦ !s.refuses e) (.init ())).map fun s ↦
        s.byteQueue.task.onWaitList && !s.undefined &&
          decide (s.log.posted.map Packet.body = [[escapeByte, escapeByte]])) = some true := by
    decide +kernel
  obtain ⟨s, hchecked, hs⟩ := Option.map_eq_some_iff.1 heval
  simp only [Bool.and_eq_true, Bool.not_eq_true', decide_eq_true_eq] at hs
  obtain ⟨⟨hwait, hdef⟩, hbodies⟩ := hs
  obtain ⟨hrun, hroom⟩ := run_of_checked hchecked
  refine ⟨s, hrun, fun _ _ _ _ hpre hrun' hstep ↦ by simpa using hroom hpre hrun' hstep, rfl,
    receiverIdle_of_onWaitList hwait, hdef, ?_⟩
  rintro ⟨-, p, hposted, hbody, -⟩
  rw [hposted, List.map_append, List.map_singleton, hbody] at hbodies
  exact absurd hbodies (by decide)

end MappingRobot
