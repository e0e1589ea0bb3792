import MappingRobot.I2C.Sampling

/-!
# Register transfers on the lines

What a listener sees of `I2C_WriteToDeviceRegister` and `I2C_ReadFromDeviceRegister` after a start:
the bytes of the transfer, each with its acknowledgement, up to the first one that the slave
refuses. `register_transfers_sampled` is about any slave that changes SDA only while SCL is low,
and any listener, who knows the lines only and not the calls.
-/

namespace MappingRobot

variable {σ : Type}

/-- A transfer is seen as a whole, or else up to the first byte that is refused. -/
def SeenUntilRefused (whole : List Seen) (ok : Bool) (seen : List Seen) : Prop :=
  if ok then
    seen = whole
  else
    ∃ sent byte rest, whole = sent ++ .byte byte true :: rest ∧ seen = sent ++ [.byte byte false]

/-- The bytes of a register write. -/
def writeSeen (deviceAddr controlAddr : Byte) (data : List Byte) : List Seen :=
  (deviceAddr :: controlAddr :: data).map (.byte · true)

/-- The addresses of a register read. -/
def addressSeen (deviceAddr controlAddr : Byte) : List Seen :=
  [.byte deviceAddr true, .byte controlAddr true, .start, .byte (deviceAddr ||| 1) true]

/-- The bytes of a read: all are acknowledged, but the last one if the read ends. -/
def readSeen (endRead : Bool) (bytes : List Byte) : List Seen :=
  bytes.dropLast.map (.byte · true) ++ (bytes.getLast?.map (.byte · (!endRead))).toList

/-! ### Plans -/

/-- The plan of the addresses of a register read. -/
def addressPlan (deviceAddr controlAddr : Byte) : List BusAction :=
  [.write deviceAddr, .write controlAddr, .start, .write (deviceAddr ||| 1)]

theorem readPlan_eq (deviceAddr controlAddr : Byte) (len : ℕ) (endRead : Bool) :
    readPlan deviceAddr controlAddr len endRead =
      addressPlan deviceAddr controlAddr ++ readsPlan endRead len :=
  rfl

theorem showsAcked_writes (data bytes : List Byte) :
    ByteSlave.showsAcked (data.map .write) bytes = data.map (.byte · true) := by
  induction data with
  | nil => rfl
  | cons byte data ih => exact congrArg _ ih

theorem showsAcked_writePlan (deviceAddr controlAddr : Byte) (data bytes : List Byte) :
    ByteSlave.showsAcked (writePlan deviceAddr controlAddr data) bytes =
      writeSeen deviceAddr controlAddr data :=
  showsAcked_writes (deviceAddr :: controlAddr :: data) bytes

theorem showsAcked_readsPlan (endRead : Bool) (bytes : List Byte) :
    ByteSlave.showsAcked (readsPlan endRead bytes.length) bytes = readSeen endRead bytes := by
  induction bytes with
  | nil => rfl
  | cons byte bytes ih =>
    rw [List.length_cons, readsPlan, ByteSlave.showsAcked, List.tail_cons, ih]
    cases bytes with
    | nil => rfl
    | cons byte' bytes => rfl

theorem countP_readsPlan (endRead : Bool) (n : ℕ) :
    (readsPlan endRead n).countP BusAction.isRead = n := by
  induction n with
  | zero => rfl
  | succ n ih => rw [readsPlan, List.countP_cons_of_pos rfl, ih]

theorem stop_notMem_readsPlan (endRead : Bool) (n : ℕ) : .stop ∉ readsPlan endRead n := by
  induction n with
  | zero => exact List.not_mem_nil
  | succ n ih => exact List.not_mem_cons_of_ne_of_not_mem nofun ih

/-- Reads are not refused. -/
theorem acked_readsPlan (S : Slave σ) (s : σ) (endRead : Bool) (n : ℕ) :
    (S.bytewise.exchange s (readsPlan endRead n)).acked = true := by
  induction n generalizing s with
  | zero => rfl
  | succ n ih => exact ih _

/-- A plan that is refused is seen up to the byte refused. -/
theorem seenUntilRefused_of_refused (S : Slave σ) {s : σ} {plan : List BusAction}
    (h : (S.bytewise.exchange s plan).acked = false) :
    SeenUntilRefused (ByteSlave.showsAcked plan (S.bytewise.exchange s plan).bytes) false
      (S.bytewise.shows s (S.bytewise.performed s plan)) := by
  obtain ⟨sent, byte, rest, hplan, hshows⟩ := S.bytewise.shows_of_refused h
  have hwhole := ByteSlave.showsAcked_append sent (.write byte :: rest)
    (S.bytewise.exchange s plan).bytes
  rw [← hplan] at hwhole
  exact ⟨_, byte, _, hwhole, hshows⟩

/-- A register write is seen until it is refused. -/
theorem writePlan_seen (S : Slave σ) (s : σ) (deviceAddr controlAddr : Byte) (data : List Byte) :
    SeenUntilRefused (writeSeen deviceAddr controlAddr data)
      (S.bytewise.exchange s (writePlan deviceAddr controlAddr data)).acked
      (S.bytewise.shows s
        (S.bytewise.performed s (writePlan deviceAddr controlAddr data))) := by
  rw [← showsAcked_writePlan deviceAddr controlAddr data
    (S.bytewise.exchange s (writePlan deviceAddr controlAddr data)).bytes]
  cases h : (S.bytewise.exchange s (writePlan deviceAddr controlAddr data)).acked with
  | true => exact S.bytewise.shows_of_acked h
  | false => exact seenUntilRefused_of_refused S h

/-- A register read is seen until one of its addresses is refused, or else with the bytes read. -/
theorem readPlan_seen (S : Slave σ) (s : σ) (deviceAddr controlAddr : Byte) (len : ℕ)
    (endRead : Bool) {ok : Bool} {bytes : List Byte} {s' : σ}
    (h : S.bytewise.exchange s (readPlan deviceAddr controlAddr len endRead) = ⟨ok, bytes, s'⟩) :
    bytes.length = (if ok then len else 0) ∧
      ∃ addresses, SeenUntilRefused (addressSeen deviceAddr controlAddr) ok addresses ∧
        S.bytewise.shows s (S.bytewise.performed s (readPlan deviceAddr controlAddr len endRead)) =
          addresses ++ readSeen endRead bytes := by
  rw [readPlan_eq] at h ⊢
  cases hack : (S.bytewise.exchange s (addressPlan deviceAddr controlAddr)).acked with
  | true =>
    have hacked : (S.bytewise.exchange s
        (addressPlan deviceAddr controlAddr ++ readsPlan endRead len)).acked = true := by
      rw [ByteSlave.exchange_append_of_acked _ hack]
      exact acked_readsPlan S _ endRead len
    have hlength := ByteSlave.length_bytes_of_acked _ hacked
    have hshows := ByteSlave.shows_of_acked _ hacked
    rw [h, List.countP_append, countP_readsPlan] at hlength
    rw [h] at hacked hshows
    obtain rfl : ok = true := hacked
    obtain rfl : bytes.length = len := hlength.trans (Nat.zero_add len)
    refine ⟨rfl, addressSeen deviceAddr controlAddr, rfl, ?_⟩
    rw [hshows, ByteSlave.showsAcked_append, ← showsAcked_readsPlan]
    rfl
  | false =>
    rw [ByteSlave.exchange_append_of_refused _ hack] at h
    have hlength := ByteSlave.length_bytes_le S.bytewise s (addressPlan deviceAddr controlAddr)
    have hseen := seenUntilRefused_of_refused S hack
    rw [h] at hack hlength hseen
    obtain rfl : ok = false := hack
    obtain rfl : bytes = [] := List.eq_nil_of_length_eq_zero (Nat.le_zero.1 hlength)
    refine ⟨rfl, _, hseen, ?_⟩
    rw [ByteSlave.performed_append_of_refused _ (by rw [h])]
    exact (List.append_nil _).symm

/-! ### Transfers after a start -/

/-- A start is seen, whatever the lines have been left in. -/
theorem listen_start (S : Slave σ) {w : Wires σ} (hsteady : w.Steady S.prompt)
    (hleft : w.left = 0) (m : Sampler) :
    ∃ before, w.listen S.prompt m startOps = ⟨[], before ++ [.start]⟩ := by
  have hsplit : startOps = [.sdaDir true, .sdaData true, .sclData true, .sclDelay] ++
    [.sdaData false] ++ [.sclDelay] ++ [.sclData false, .sclDelay] := rfl
  refine ⟨(w.listen S.prompt m [.sdaDir true, .sdaData true, .sclData true, .sclDelay]).seen, ?_⟩
  set w₁ := w.after S.prompt [.sdaDir true, .sdaData true, .sclData true, .sclDelay] with hw₁
  set w₂ := w₁.apply S.prompt (.sdaData false) with hw₂
  have hleft₁ : w₁.left = 0 := Wires.left_prompt hleft _
  have hleft₂ : w₂.left = 0 := Wires.left_prompt hleft₁ [.sdaData false]
  have hhigh₁ : w₁.scl = true := Wires.scl_of_left hleft₁
  have hhigh₂ : w₂.scl = true := Wires.scl_of_left hleft₂
  have hfall : ∀ m, w₁.listen S.prompt m [.sdaData false] = ⟨[], m.seen ++ [.start]⟩ := by
    intro m
    show m.next w₁.scl true w₂.scl false = _
    rw [hhigh₁, hhigh₂, Sampler.next_start]
  have hwait : ∀ m, w₂.listen S.prompt m [.sclDelay] = m := fun m ↦
    Wires.listen_high ((hsteady.after _).apply _) hhigh₂ hhigh₂ fun _ ↦ ⟨rfl, rfl⟩
  set w₃ := w₂.apply S.prompt .sclDelay with hw₃
  have hlow : ∀ m, w₃.listen S.prompt m [.sclData false, .sclDelay] = m := fun m ↦
    Wires.listen_fall (by simp)
  rw [hsplit, Wires.listen_append, Wires.listen_append, Wires.listen_append, hfall]
  exact (congrArg (Wires.listen S.prompt _ · _) (hwait _)).trans (hlow _)

/-- What is seen of a plan that a master function carries out after a start. -/
theorem listen_carriesOut (S : Slave σ) {p : Port} {s : σ} {issued : List Condition}
    (hsteady : (Wires.mk p s 0).Steady S.prompt) {m : Sampler} {before : List Seen}
    (hstart : (Wires.mk p s 0).listen S.prompt m startOps = ⟨[], before ++ [.start]⟩)
    {plan : List BusAction} (hplan : .stop ∉ plan) {ok : Bool} {bytes : List Byte}
    {b' : Bus (σ × List PortOp)}
    (hcarries : CarriesOut S.recorded (i2cStart S.recorded ⟨p, (s, []), issued⟩) plan ok bytes b') :
    ∃ s₁ s', S.bytewise.exchange s₁ plan = ⟨ok, bytes, s'⟩ ∧
      ((Wires.mk p s 0).listen S.prompt m b'.slave.2).seen =
        before ++ .start :: S.bytewise.shows s₁ (S.bytewise.performed s₁ plan) := by
  set s₁ := S.watch s startOps with hs₁
  have hslave : (i2cStart S.recorded ⟨p, (s, []), issued⟩).slave = (s₁, startOps) :=
    (i2cStart_slave _).trans (S.watch_recorded s [] startOps)
  obtain ⟨hexchange, -⟩ := hcarries
  rw [hslave, Slave.exchange_recorded] at hexchange
  obtain ⟨hacked, hbytes, hslave'⟩ := (Exchange.mk.injEq _ _ _ _ _ _).mp hexchange
  have horder : InOrder false (S.bytewise.performed s₁ plan) :=
    (inOrder_of_no_stop hplan).isPrefix (ByteSlave.performed_isPrefix _ s₁ plan)
  have hport : ((Wires.mk p s 0).after S.prompt startOps).port.At false := rfl
  have hw₁ : ((Wires.mk p s 0).after S.prompt startOps).slave = s₁ := Wires.after_slave _ _
  refine ⟨s₁, (S.bytewise.exchange s₁ plan).slave, ?_, ?_⟩
  · rw [← hacked, ← hbytes]
  · rw [← hslave', Wires.listen_append, hstart,
      Wires.listen_calls (hsteady.after _) (Wires.left_prompt rfl _) hport horder rfl, hw₁,
      List.append_assoc]
    rfl

/-- **Register transfers are what is seen on the lines.** For every slave that changes SDA only
while SCL is low, what a listener sees of a register write after the start are the bytes of the
transfer up to the first one refused, and the write returns TRUE iff none is; of a register read
it sees the addresses in the same way, and then the bytes that the read returns, acknowledged but
for the last one if the read ends. -/
theorem register_transfers_sampled (S : Slave σ) (p : Port) (s : σ) (issued : List Condition)
    (m : Sampler) (hsteady : (Wires.mk p s 0).Steady S.prompt) :
    ∃ before, (Wires.mk p s 0).listen S.prompt m startOps = ⟨[], before ++ [.start]⟩ ∧
      (∀ deviceAddr controlAddr data, ∃ ok b' seen,
        i2cWriteToDeviceRegister S.recorded deviceAddr controlAddr data
            (i2cStart S.recorded ⟨p, (s, []), issued⟩) = some (ok, b') ∧
          ((Wires.mk p s 0).listen S.prompt m b'.slave.2).seen = before ++ .start :: seen ∧
          SeenUntilRefused (writeSeen deviceAddr controlAddr data) ok seen) ∧
      ∀ deviceAddr controlAddr len endRead, ∃ ok bytes b' addresses,
        i2cReadFromDeviceRegister S.recorded deviceAddr controlAddr len endRead
            (i2cStart S.recorded ⟨p, (s, []), issued⟩) = some (ok, bytes, b') ∧
          bytes.length = (if ok then len else 0) ∧
          ((Wires.mk p s 0).listen S.prompt m b'.slave.2).seen =
            before ++ .start :: addresses ++ readSeen endRead bytes ∧
          SeenUntilRefused (addressSeen deviceAddr controlAddr) ok addresses := by
  obtain ⟨before, hstart⟩ := listen_start S hsteady rfl m
  refine ⟨before, hstart, fun deviceAddr controlAddr data ↦ ?_,
    fun deviceAddr controlAddr len endRead ↦ ?_⟩
  · obtain ⟨ok, b', hwrite, hcarries⟩ := i2cWriteToDeviceRegister_spec (S := S.recorded) deviceAddr
      controlAddr data (i2cStart S.recorded ⟨p, (s, []), issued⟩)
    have hplan : .stop ∉ writePlan deviceAddr controlAddr data := by
      simp [writePlan]
    obtain ⟨s₁, s', hexchange, hseen⟩ := listen_carriesOut S hsteady hstart hplan hcarries
    refine ⟨ok, b', _, hwrite, hseen, ?_⟩
    have := writePlan_seen S s₁ deviceAddr controlAddr data
    rwa [hexchange] at this
  · obtain ⟨ok, bytes, b', hread, hcarries⟩ := i2cReadFromDeviceRegister_spec (S := S.recorded)
      deviceAddr controlAddr len endRead (i2cStart S.recorded ⟨p, (s, []), issued⟩)
    have hplan : .stop ∉ readPlan deviceAddr controlAddr len endRead := by
      simp [readPlan, stop_notMem_readsPlan]
    obtain ⟨s₁, s', hexchange, hseen⟩ := listen_carriesOut S hsteady hstart hplan hcarries
    obtain ⟨hlength, addresses, huntil, hshows⟩ :=
      readPlan_seen S s₁ deviceAddr controlAddr len endRead hexchange
    refine ⟨ok, bytes, b', addresses, hread, hlength, ?_, huntil⟩
    rw [hseen, hshows, ← List.cons_append, ← List.append_assoc]

theorem register_transfers_sampled_alternating :
    ∃ before, (Wires.reset true).listen Slave.alternating.prompt .fresh startOps =
        ⟨[], before ++ [.start]⟩ ∧
      (∃ ok b' seen, i2cWriteToDeviceRegister Slave.alternating.recorded 0xc4 0x00 [0x04]
            (i2cStart Slave.alternating.recorded (.reset (true, []))) = some (ok, b') ∧
          ((Wires.reset true).listen Slave.alternating.prompt .fresh b'.slave.2).seen =
            before ++ .start :: seen ∧
          SeenUntilRefused (writeSeen 0xc4 0x00 [0x04]) ok seen) ∧
      ∃ ok bytes b' addresses, i2cReadFromDeviceRegister Slave.alternating.recorded 0xc4 0x0f 2 true
            (i2cStart Slave.alternating.recorded (.reset (true, []))) = some (ok, bytes, b') ∧
          bytes.length = (if ok then 2 else 0) ∧
          ((Wires.reset true).listen Slave.alternating.prompt .fresh b'.slave.2).seen =
            before ++ .start :: addresses ++ readSeen true bytes ∧
          SeenUntilRefused (addressSeen 0xc4 0x0f) ok addresses :=
  (register_transfers_sampled Slave.alternating .reset true [] .fresh
    (Slave.alternating_steady _)).imp fun _ ⟨hstart, hwrite, hread⟩ ↦
      ⟨hstart, hwrite 0xc4 0x00 [0x04], hread 0xc4 0x0f 2 true⟩

end MappingRobot
