import MappingRobot.I2C.Wires
import MappingRobot.Lidar

/-!
# Line discipline

A change of SDA while SCL is high is a start or a stop condition to whoever listens, so that the
master must not make one by accident. The functions of `I2C.c` rely for this on the state that the
lines have been left in: `Port.At` says what each of them assumes and leaves, and `InOrder` that
each finds what it assumes. `disciplined_of_inOrder` is the consequence for any calls in order, and
`line_discipline` for the operations of the LIDAR from reset on, which make their calls in order
whatever the slave answers.
-/

namespace MappingRobot

variable {σ : Type}

/-! ### What the calls assume and leave -/

/-- The registers between calls: both lines are driven high, or SCL is driven low. -/
def Port.At (p : Port) (idle : Bool) : Prop :=
  if idle then p = ⟨true, true, true⟩ else p.sclOut = false

theorem Port.at_reset : Port.reset.At false :=
  rfl

/-- Nothing but a start is called with SCL high. -/
theorem Port.At.sclOut_of_ne_start {p : Port} {idle : Bool} (h : p.At idle) {a : BusAction}
    (hstart : idle = true → a = .start) (ha : a ≠ .start) : p.sclOut = false := by
  cases idle with
  | true => exact absurd (hstart rfl) ha
  | false => exact h

/-- A call leaves the registers as the next one assumes them. -/
theorem port_at_portOps (a : BusAction) (p : Port) :
    ((portOps a).foldl Port.write p).At a.idleAfter := by
  cases a with
  | start | stop => rfl
  | write byte =>
    rw [portOps, List.foldl_append]
    rfl
  | read bAck =>
    rw [portOps, readOps, List.foldl_append]
    rfl

/-- The registers after a sequence of calls. -/
theorem port_at_flatMap {idle : Bool} {p : Port} (h : p.At idle) (calls : List BusAction) :
    ((calls.flatMap portOps).foldl Port.write p).At (idleAfter idle calls) := by
  rcases List.eq_nil_or_concat' calls with rfl | ⟨calls, a, rfl⟩
  · exact h
  · rw [List.flatMap_append, List.foldl_append, List.flatMap_singleton, idleAfter_concat]
    exact port_at_portOps a _

/-- The bit loop of `i2c_write` leaves SCL low and the direction of SDA as it is. -/
theorem port_bitOps (data : Byte) (n : ℕ) (mask : Byte) {p : Port} (h : p.sclOut = false) :
    ((Slave.bitOps data n mask).foldl Port.write p).sclOut = false ∧
      ((Slave.bitOps data n mask).foldl Port.write p).sdaDir = p.sdaDir := by
  induction n generalizing mask p with
  | zero => exact ⟨h, rfl⟩
  | succ n ih =>
    rw [Slave.bitOps, List.foldl_append]
    exact ih (mask >>> 1) rfl

namespace Wires

variable (S : Stretcher σ)

/-- If SCL is high after the operation, neither the level nor the direction of SDA has changed. -/
def Undisturbed (w : Wires σ) (_ : PortOp) (w' : Wires σ) : Prop :=
  w'.scl = true → w'.sda S = w.sda S ∧ w'.port.sdaDir = w.port.sdaDir

/-- SDA goes to a level in one operation while SCL is high, and stays the same while SCL is high in
the operations before and after. -/
structure ChangesOnce (w : Wires σ) (pre : List PortOp) (level : Bool) (post : List PortOp) :
    Prop where
  before : w.Along S (Undisturbed S) pre
  scl : (w.after S pre).scl = true ∧ ((w.after S pre).apply S (.sdaData level)).scl = true
  sda : (w.after S pre).sda S = !level ∧ ((w.after S pre).apply S (.sdaData level)).sda S = level
  sdaDir : ((w.after S pre).apply S (.sdaData level)).port.sdaDir = (w.after S pre).port.sdaDir
  after : ((w.after S pre).apply S (.sdaData level)).Along S (Undisturbed S) post

/-- A call changes SDA while SCL is high where it is meant to: `i2c_start` lets it fall once, and
`i2c_stop` lets it rise once. -/
def Disciplined (w : Wires σ) : BusAction → Prop
  | .start => w.ChangesOnce S [.sdaDir true, .sdaData true, .sclData true, .sclDelay] false
      [.sclDelay, .sclData false, .sclDelay]
  | .stop =>
    w.ChangesOnce S [.sdaDir true, .sdaData false, .sclData true, .sclDelay] true [.sclDelay]
  | .write byte => w.Along S (Undisturbed S) (portOps (.write byte))
  | .read bAck => w.Along S (Undisturbed S) (portOps (.read bAck))

/-- Neither of the registers of SDA has changed, if SCL is driven high after the operation. -/
def Quiet (w : Wires σ) (_ : PortOp) (w' : Wires σ) : Prop :=
  w'.port.sclOut = true → w'.port.sdaOut = w.port.sdaOut ∧ w'.port.sdaDir = w.port.sdaDir

variable {S} {w : Wires σ} {ops : List PortOp}

/-- A steady slave does not disturb what the master leaves alone. -/
theorem Quiet.undisturbed (hsteady : w.Steady S) {op : PortOp}
    (h : w.Quiet op (w.apply S op)) : w.Undisturbed S op (w.apply S op) := by
  intro hscl
  obtain ⟨hout, hdir⟩ := h (Bool.and_eq_true_iff.1 hscl).1
  refine ⟨?_, hdir⟩
  rw [sda, sda, hdir, hout, hsteady.sda_eq hscl]

theorem undisturbed_of_quiet (hsteady : w.Steady S) (h : w.Along S Quiet ops) :
    w.Along S (Undisturbed S) ops := by
  induction ops generalizing w with
  | nil => trivial
  | cons op ops ih => exact ⟨h.1.undisturbed hsteady, ih (hsteady.apply op) h.2⟩

/-! ### Call by call -/

/-- The registers after a call are as the next one assumes them. -/
theorem at_after (w : Wires σ) (a : BusAction) : (w.after S (portOps a)).port.At a.idleAfter := by
  rw [after_port]
  exact port_at_portOps a w.port

/-- The bit loop of `i2c_write` changes SDA while SCL is low. -/
theorem quiet_bitOps (data : Byte) (n : ℕ) (mask : Byte) (hscl : w.port.sclOut = false) :
    w.Along S Quiet (Slave.bitOps data n mask) := by
  induction n generalizing mask w with
  | zero => trivial
  | succ n ih =>
    refine along_append.2 ⟨?_, ih _ (by rw [after_port]; rfl)⟩
    simp [Along, Quiet, apply, Port.write]

/-- The pulses of `i2c_read` leave SDA alone. -/
theorem quiet_pulseOps (n : ℕ) : w.Along S Quiet (pulseOps n) := by
  induction n generalizing w with
  | zero => trivial
  | succ n ih =>
    refine along_append.2 ⟨?_, ih⟩
    simp [Along, Quiet, apply, Port.write]

/-- `i2c_write` and `i2c_read` change SDA while SCL is low. -/
theorem quiet_transfer {a : BusAction} (hstart : a ≠ .start) (hstop : a ≠ .stop)
    (hscl : w.port.sclOut = false) : w.Along S Quiet (portOps a) := by
  cases a with
  | start => exact absurd rfl hstart
  | stop => exact absurd rfl hstop
  | write byte =>
    have hlow : (w.after S ([.sdaDir true] ++ Slave.bitOps byte 8 0x80)).port.sclOut = false := by
      rw [after_port, List.foldl_append]
      exact (port_bitOps byte 8 0x80 hscl).1
    refine along_append.2 ⟨along_append.2 ⟨along_append.2 ⟨?_, ?_⟩, ?_⟩, ?_⟩
    · simp [Along, Quiet, apply, Port.write, hscl]
    · exact quiet_bitOps byte 8 0x80 hscl
    · generalize w.after S ([.sdaDir true] ++ Slave.bitOps byte 8 0x80) = w' at hlow ⊢
      simp [Along, Quiet, apply, Port.write, hlow]
    · simp [Along, Quiet, apply, Port.write]
  | read bAck =>
    refine along_append.2 ⟨along_append.2 ⟨?_, quiet_pulseOps 8⟩, ?_⟩
    · simp [Along, Quiet, apply, Port.write, hscl]
    · simp [Along, Quiet, apply, Port.write]

/-- SCL follows its register if the slave never holds it. -/
theorem left_prompt {S : Slave σ} {w : Wires σ} (h : w.left = 0) (ops : List PortOp) :
    (w.after S.prompt ops).left = 0 := by
  induction ops generalizing w with
  | nil => exact h
  | cons op ops ih =>
    refine ih ?_
    cases op with
    | sclData level => cases level <;> simp [apply, h, Slave.prompt]
    | sdaDir _ | sdaData _ | sclRead | sdaRead | sclDelay => simp [apply, h]

/-- **Every call is disciplined** if it finds the lines as it assumes them. -/
theorem disciplined_portOps {S : Slave σ} {w : Wires σ} (hsteady : w.Steady S.prompt)
    (hleft : w.left = 0) {a : BusAction} {idle : Bool} (hport : w.port.At idle)
    (hstart : idle = true → a = .start) : w.Disciplined S.prompt a := by
  have hquiet : ∀ {w : Wires σ} {ops}, w.Steady S.prompt → w.Along S.prompt Quiet ops →
      w.Along S.prompt (Undisturbed S.prompt) ops := fun h ↦ undisturbed_of_quiet h
  cases a with
  | write byte | read bAck =>
    exact hquiet hsteady (quiet_transfer (by simp) (by simp)
      (hport.sclOut_of_ne_start hstart (by simp)))
  | stop =>
    have hscl := hport.sclOut_of_ne_start hstart (by simp)
    refine ⟨hquiet hsteady ?_, ?_, ?_, ?_, hquiet ((hsteady.after _).apply _) ?_⟩
    · simp [Along, Quiet, apply, Port.write, hscl]
    · simp [after, apply, Port.write, scl, hscl, Slave.prompt]
    · simp [after, apply, Port.write, sda]
    · simp [apply, Port.write]
    · simp [Along, Quiet, apply, Port.write]
  | start =>
    have hlines : w.port.sclOut = false ∨ w.port = ⟨true, true, true⟩ := by
      cases idle with
      | true => exact Or.inr hport
      | false => exact Or.inl hport
    refine ⟨hquiet hsteady ?_, ?_, ?_, ?_, hquiet ((hsteady.after _).apply _) ?_⟩
    · rcases hlines with hscl | hidle
      · simp [Along, Quiet, apply, Port.write, hscl]
      · simp [Along, Quiet, apply, Port.write, hidle]
    · simp [after, apply, Port.write, scl, hleft, Slave.prompt]
    · simp [after, apply, Port.write, sda]
    · simp [apply, Port.write]
    · simp [Along, Quiet, apply, Port.write]

/-- **Every call of a sequence in order is disciplined.** -/
theorem disciplined_of_inOrder {S : Slave σ} {w : Wires σ} (hsteady : w.Steady S.prompt)
    (hleft : w.left = 0) {idle : Bool} (hport : w.port.At idle) {calls : List BusAction}
    (hcalls : InOrder idle calls) {pre post : List BusAction} {a : BusAction}
    (hsplit : calls = pre ++ a :: post) :
    (w.after S.prompt (pre.flatMap portOps)).Disciplined S.prompt a := by
  subst hsplit
  refine disciplined_portOps (hsteady.after _) (left_prompt hleft _) ?_
    (inOrder_append.1 hcalls).2.1
  rw [after_port]
  exact port_at_flatMap hport pre

end Wires

/-! ### The calls of the LIDAR operations -/

section

variable {S : Slave σ} {b : Bus (σ × List PortOp)}

/-- An operation has made calls, in order wherever it began. -/
def MakesCalls (b b' : Bus (σ × List PortOp)) : Prop :=
  ∃ calls, b'.slave.2 = b.slave.2 ++ calls.flatMap portOps ∧ ∀ idle, InOrder idle calls

theorem MakesCalls.append {b b' b'' : Bus (σ × List PortOp)} (h : MakesCalls b b')
    (h' : MakesCalls b' b'') : MakesCalls b b'' := by
  obtain ⟨calls, hcalls, horder⟩ := h
  obtain ⟨calls', hcalls', horder'⟩ := h'
  refine ⟨calls ++ calls', ?_, fun idle ↦ inOrder_append.2 ⟨horder idle, horder' _⟩⟩
  rw [hcalls', hcalls, List.flatMap_append, List.append_assoc]

/-- A watched sequence of operations is added to the record. -/
theorem record_watch (x : σ × List PortOp) (ops : List PortOp) :
    (S.recorded.watch x ops).2 = x.2 ++ ops := by
  rw [show x = (x.1, x.2) from rfl, Slave.watch_recorded]

theorem record_exchange (x : σ × List PortOp) (plan : List BusAction) :
    (S.recorded.bytewise.exchange x plan).slave.2 =
      x.2 ++ (S.recorded.bytewise.performed x plan).flatMap portOps := by
  rw [Slave.exchange_slave, record_watch]

/-- A plan that begins with a start is carried out in order, wherever it begins. -/
theorem inOrder_performed (x : σ × List PortOp) {plan : List BusAction}
    (hplan : ∀ idle, InOrder idle plan) (idle : Bool) :
    InOrder idle (S.recorded.bytewise.performed x plan) :=
  (hplan idle).isPrefix (ByteSlave.performed_isPrefix _ x plan)

theorem lidarTestAddress_makesCalls :
    ∃ ok b', lidarTestAddress S.recorded b = some (ok, b') ∧ MakesCalls b b' := by
  obtain ⟨b₁, hwrite, hslave, -⟩ :=
    i2cWrite_spec (S := S.recorded) lidarI2cAddress (i2cStart S.recorded b)
  refine ⟨_, i2cStop S.recorded b₁, by rw [lidarTestAddress, i2cSelectAddress, hwrite]; rfl,
    [.start, .write lidarI2cAddress, .stop], ?_, fun idle ↦ by simp [InOrder, BusAction.idleAfter]⟩
  rw [i2cStop, Bus.after_slave, hslave, Slave.bytewise_write_slave, i2cStart, Bus.after_slave]
  show (S.recorded.watch (S.recorded.watch (S.recorded.watch _ startOps) _) stopOps).2 = _
  rw [record_watch, record_watch, record_watch, List.append_assoc, List.append_assoc]
  rfl

theorem sendCommand_makesCalls (command : Byte) :
    ∃ ok b', sendCommand S.recorded command b = some (ok, b') ∧ MakesCalls b b' := by
  obtain ⟨b', hsend, hslave, -⟩ := sendCommand_spec (S := S.recorded) command b
  have hplan : ∀ idle, InOrder idle (pollPlan command) := fun idle ↦ by
    simp [pollPlan, writePlan, InOrder, BusAction.idleAfter]
  refine ⟨_, b', hsend, S.recorded.bytewise.performed b.slave (pollPlan command) ++ [.stop], ?_,
    fun idle ↦ inOrder_append.2 ⟨inOrder_performed _ hplan idle, ?_⟩⟩
  · rw [hslave, List.flatMap_append, ← List.append_assoc, ← record_exchange]
    exact record_watch _ stopOps
  · rw [ByteSlave.idleAfter_performed _ _ rfl]
    simp [InOrder]

theorem readRegisters_makesCalls :
    ∃ range b', readRegisters S.recorded b = some (range, b') ∧ MakesCalls b b' := by
  obtain ⟨b', hread, hslave, -⟩ := readRegisters_spec (S := S.recorded) b
  have hplan : ∀ idle, InOrder idle registersPlan := fun idle ↦ by
    simp [registersPlan, readPlan, readsPlan, InOrder, BusAction.idleAfter]
  have hperformed := inOrder_performed (S := S) b.slave hplan
  cases hacked : (S.recorded.bytewise.exchange b.slave registersPlan).acked with
  | false =>
    -- the transaction stays open, and the next operation begins with a repeated start
    refine ⟨_, b', hread, _, ?_, hperformed⟩
    rw [hslave, hacked, if_neg (by decide), record_exchange]
  | true =>
    refine ⟨_, b', hread, S.recorded.bytewise.performed b.slave registersPlan ++ [.stop], ?_,
      fun idle ↦ inOrder_append.2 ⟨hperformed idle, ?_⟩⟩
    · rw [hslave, hacked, if_pos rfl, List.flatMap_append, ← List.append_assoc, ← record_exchange]
      exact record_watch _ stopOps
    · rw [ByteSlave.idleAfter_performed _ _ rfl]
      simp [InOrder]

theorem lidarReadFastLoop_makesCalls (n result : ℕ) :
    ∃ range b', lidarReadFastLoop S.recorded n result b = some (range, b') ∧ MakesCalls b b' := by
  induction n generalizing result b with
  | zero => exact ⟨result, b, rfl, [], (List.append_nil _).symm, fun _ ↦ trivial⟩
  | succ n ih =>
    by_cases hresult : result ≠ 0
    · exact ⟨result, b, lidarReadFastLoop_of_ne_zero hresult _ _, [], (List.append_nil _).symm,
        fun _ ↦ trivial⟩
    · obtain ⟨range, b₁, hread, hcalls⟩ := readRegisters_makesCalls (S := S) (b := b)
      obtain ⟨range', b', hloop, hcalls'⟩ := ih (b := b₁) range
      refine ⟨range', b', ?_, hcalls.append hcalls'⟩
      rw [lidarReadFastLoop, if_neg hresult, hread]
      exact hloop

/-- Every operation of the LIDAR makes its calls in order, wherever it begins. -/
theorem LidarOp.run_makesCalls (op : LidarOp) :
    ∃ b', op.run S.recorded b = some b' ∧ MakesCalls b b' := by
  cases op with
  | testAddress =>
    obtain ⟨ok, b', hrun, hcalls⟩ := lidarTestAddress_makesCalls (S := S) (b := b)
    exact ⟨b', by rw [run, hrun]; rfl, hcalls⟩
  | readFast =>
    obtain ⟨range, b', hrun, hcalls⟩ := lidarReadFastLoop_makesCalls (S := S) (b := b) readDelay 0
    exact ⟨b', by rw [run, lidarReadFast, hrun]; rfl, hcalls⟩
  | read =>
    obtain ⟨ok, b₁, hsend, hcalls⟩ := sendCommand_makesCalls (S := S) (b := b) lidarCommandPoll
    cases ok with
    | false => exact ⟨b₁, by rw [run, lidarRead, hsend]; rfl, hcalls⟩
    | true =>
      obtain ⟨range, b', hread, hcalls'⟩ := readRegisters_makesCalls (S := S) (b := b₁)
      refine ⟨b', ?_, hcalls.append hcalls'⟩
      rw [run, lidarRead, hsend]
      simp only [Option.bind_eq_bind, Option.bind_some, if_true, hread, Option.map_some]

end

/-- A run of LIDAR operations from reset makes calls in order. -/
theorem lidarRun_makesCalls (S : Slave σ) (s : σ) (ops : List LidarOp) :
    ∃ b, lidarRun S.recorded (s, []) ops = some b ∧ MakesCalls (.reset (s, [])) b := by
  induction ops using List.reverseRecOn with
  | nil => exact ⟨_, rfl, [], rfl, fun _ ↦ trivial⟩
  | append_singleton ops op ih =>
    obtain ⟨b, hb, hcalls⟩ := ih
    obtain ⟨b', hrun, hcalls'⟩ := op.run_makesCalls (S := S) (b := b)
    refine ⟨b', ?_, hcalls.append hcalls'⟩
    rw [lidarRun, List.foldlM_append, ← lidarRun, hb]
    simpa using hrun

/-- A slave that changes SDA at every fall of SCL. -/
def Slave.alternating : Slave Bool where
  observe level op := if op = .sclData false then !level else level
  sda level := level

theorem Slave.alternating_steady (w : Wires Bool) : w.Steady alternating.prompt := by
  intro pre op hscl
  rw [Wires.after_append] at hscl ⊢
  by_cases hop : op = .sclData false
  · subst hop
    cases hscl
  · exact if_neg hop

/-- The wires after reset. -/
def Wires.reset (s : σ) : Wires σ :=
  ⟨.reset, s, 0⟩

/-- **Line discipline.** In every sequence of LIDAR operations from reset on, against every slave
that changes SDA only while SCL is low, the port operations are those of calls of `i2c_start`,
`i2c_stop`, `i2c_write` and `i2c_read`, and while SCL is high neither the level nor the direction
of SDA changes in any of them, but for the one fall in `i2c_start` and the one rise in
`i2c_stop`. -/
theorem line_discipline (S : Slave σ) (s : σ) (hsteady : (Wires.reset s).Steady S.prompt)
    (ops : List LidarOp) :
    ∃ b calls, lidarRun S.recorded (s, []) ops = some b ∧ b.slave.2 = calls.flatMap portOps ∧
      ∀ pre a post, calls = pre ++ a :: post →
        ((Wires.reset s).after S.prompt (pre.flatMap portOps)).Disciplined S.prompt a := by
  obtain ⟨b, hrun, calls, hcalls, horder⟩ := lidarRun_makesCalls S s ops
  exact ⟨b, calls, hrun, hcalls, fun pre a post hsplit ↦
    Wires.disciplined_of_inOrder hsteady rfl Port.at_reset (horder false) hsplit⟩

theorem line_discipline_alternating :
    ∃ b calls, lidarRun Slave.alternating.recorded (true, []) [.readFast, .read, .testAddress] =
        some b ∧ b.slave.2 = calls.flatMap portOps ∧
      ∀ pre a post, calls = pre ++ a :: post →
        ((Wires.reset true).after Slave.alternating.prompt (pre.flatMap portOps)).Disciplined
          Slave.alternating.prompt a :=
  line_discipline Slave.alternating true (Slave.alternating_steady _)
    [.readFast, .read, .testAddress]

end MappingRobot
