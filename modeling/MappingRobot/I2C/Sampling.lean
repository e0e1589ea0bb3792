import MappingRobot.I2C.Discipline

/-!
# What a listener sees of a transfer

A listener on the lines, who samples SDA at the rises of SCL, against the functions of `I2C.c`: for
each call of `i2c_write` it sees the byte written with the slave's answer, and for each call of
`i2c_read` the byte that the call returns with the master's (`listen_write`, `listen_read`). It is
enough for this that the slave is steady, and holds SCL for at most one poll after each release.

`register_transfers_sampled` puts the calls together to the transfers of registers.
-/

namespace MappingRobot

variable {σ : Type}

namespace Wires

/-- A release of SCL is held for at most one poll. -/
def Brief (w : Wires σ) (op : PortOp) (w' : Wires σ) : Prop :=
  op = .sclData true → w.port.sclOut = false → w'.left ≤ 1

/-- SCL is low after the operation. -/
def Low (_ : Wires σ) (_ : PortOp) (w' : Wires σ) : Prop :=
  w'.scl = false

/-- SCL is released and polled. -/
def riseOps : List PortOp :=
  [.sclData true, .sclRead, .sclDelay]

variable {S : Stretcher σ} {w : Wires σ} {m : Sampler} {ops : List PortOp}

/-! ### Clock pulses -/

/-- Nothing is seen while SCL stays low. -/
theorem listen_low (h : w.Along S Low ops) : w.listen S m ops = m := by
  induction ops generalizing w m with
  | nil => rfl
  | cons op ops ih =>
    obtain ⟨hlow, hrest⟩ := h
    replace hlow : (w.apply S op).scl = false := hlow
    rw [listen, hlow]
    exact ih hrest

/-- Nothing is seen while the master holds SCL low. -/
theorem listen_held (hscl : w.port.sclOut = false) (hheld : .sclData true ∉ ops) :
    w.listen S m ops = m := by
  refine listen_low ?_
  induction ops generalizing w with
  | nil => trivial
  | cons op ops ih =>
    obtain ⟨hop, hheld⟩ := not_or.1 (List.mem_cons.not.1 hheld)
    have hport : (w.apply S op).port.sclOut = false := by
      cases op with
      | sclData level =>
        show level = false
        simpa using hop
      | sdaDir _ | sdaData _ | sclRead | sdaRead | sclDelay => exact hscl
    refine ⟨?_, ih hport hheld⟩
    rw [Low, scl, hport, Bool.false_and]

/-- Nothing is seen from a fall of SCL to its next release. -/
theorem listen_fall (hheld : .sclData true ∉ ops) :
    w.listen S m (.sclData false :: ops) = m :=
  listen_held (w := w.apply S (.sclData false)) rfl hheld

/-- Nothing is seen of an operation that leaves SCL high and the registers of SDA alone. -/
theorem listen_high (hsteady : w.Steady S) {op : PortOp} (hscl : w.scl = true)
    (hscl' : (w.apply S op).scl = true) (hquiet : w.Quiet op (w.apply S op)) :
    w.listen S m [op] = m := by
  show m.next w.scl (w.sda S) (w.apply S op).scl ((w.apply S op).sda S) = m
  rw [hscl, hscl']
  exact m.next_high_of_eq (hquiet.undisturbed hsteady hscl').1

/-- After a release that is held for at most one poll, SCL is high. -/
theorem scl_after_rise (hscl : w.port.sclOut = false)
    (hbrief : w.Along S Brief riseOps) : (w.after S riseOps).scl = true := by
  have hheld := hbrief.1 rfl hscl
  simp [apply, hscl] at hheld
  simp [riseOps, after, apply, scl, Port.write, hscl]
  omega

/-- **A release of SCL** that is held for at most one poll shows the level of SDA once. -/
theorem listen_rise (hsteady : w.Steady S) (hscl : w.port.sclOut = false)
    (hbrief : w.Along S Brief riseOps) :
    w.listen S m riseOps = m.next false false true ((w.after S riseOps).sda S) := by
  set w₁ := w.apply S (.sclData true) with hw₁
  set w₂ := w₁.apply S .sclRead with hw₂
  set w₃ := w₂.apply S .sclDelay with hw₃
  have hall : w.listen S m riseOps =
      ((m.next w.scl (w.sda S) w₁.scl (w₁.sda S)).next w₁.scl (w₁.sda S) w₂.scl (w₂.sda S)).next
        w₂.scl (w₂.sda S) w₃.scl (w₃.sda S) := rfl
  have hlow : w.scl = false := by rw [scl, hscl]; rfl
  have hheld : w₁.left ≤ 1 := hbrief.1 rfl hscl
  have hleft : w₂.left = 0 := by
    show w₁.left - 1 = 0
    omega
  have hhigh₂ : w₂.scl = true := by
    show (true && w₂.left == 0) = true
    rw [hleft]
    rfl
  have hhigh₃ : w₃.scl = true := hhigh₂
  have hlevel : w₃.sda S = w₂.sda S :=
    (Quiet.undisturbed ((hsteady.apply _).apply _) (fun _ ↦ ⟨rfl, rfl⟩) hhigh₃).1
  rw [hall, hlow, hhigh₂, hhigh₃, Sampler.next_high_of_eq _ hlevel,
    show (w.after S riseOps).sda S = w₂.sda S from hlevel]
  cases hnow : w₁.scl with
  | true =>
    -- SCL rises at once
    have hlevel₁ : w₂.sda S = w₁.sda S :=
      (Quiet.undisturbed (hsteady.apply _) (fun _ ↦ ⟨rfl, rfl⟩) hhigh₂).1
    rw [Sampler.next_high_of_eq _ hlevel₁, hlevel₁]
    rfl
  | false =>
    -- SCL rises with the poll
    rw [Sampler.next_low]
    rfl

/-- A release while a byte is being shifted shows a bit of it. -/
theorem listen_rise_bit (hsteady : w.Steady S) (hscl : w.port.sclOut = false)
    (hbrief : w.Along S Brief riseOps) (hbits : m.bits.length < 8) :
    w.listen S m riseOps = ⟨m.bits ++ [(w.after S riseOps).sda S], m.seen⟩ := by
  rw [listen_rise hsteady hscl hbrief, m.next_rise _ _ hbits]

/-! ### A byte written -/

/-- The bits of a byte that the loop of `i2c_write` shifts out, from the bit in `mask` on. -/
def maskBits (data : Byte) : ℕ → Byte → List Bool
  | 0, _ => []
  | n + 1, mask => (data &&& mask != 0) :: maskBits data n (mask >>> 1)

theorem maskBits_succ (data : Byte) (n : ℕ) (mask : Byte) :
    maskBits data (n + 1) mask = (data &&& mask != 0) :: maskBits data n (mask >>> 1) :=
  rfl

theorem ofBits_maskBits (data : Byte) : ofBits (maskBits data 8 0x80) = data := by
  revert data
  decide +kernel

theorem length_maskBits (data : Byte) (n : ℕ) (mask : Byte) :
    (maskBits data n mask).length = n := by
  induction n generalizing mask with
  | zero => rfl
  | succ n ih => rw [maskBits_succ, List.length_cons, ih]

/-- The bit loop of `i2c_write` shows its bits. -/
theorem listen_bitOps (data : Byte) (n : ℕ) (mask : Byte) (hsteady : w.Steady S)
    (hscl : w.port.sclOut = false) (hdir : w.port.sdaDir = true)
    (hbrief : w.Along S Brief (Slave.bitOps data n mask)) (hbits : m.bits.length + n ≤ 8) :
    w.listen S m (Slave.bitOps data n mask) = ⟨m.bits ++ maskBits data n mask, m.seen⟩ := by
  induction n generalizing mask w m with
  | zero =>
    exact congrArg (Sampler.mk · m.seen) (List.append_nil m.bits).symm
  | succ n ih =>
    have hsplit : Slave.bitOps data (n + 1) mask =
        [.sclData false, .sdaData (data &&& mask != 0)] ++ riseOps ++ [.sclData false, .sclDelay] ++
          Slave.bitOps data n (mask >>> 1) := rfl
    rw [hsplit] at hbrief ⊢
    obtain ⟨hbrief, hrest⟩ := along_append.1 hbrief
    obtain ⟨⟨-, hrise⟩, -⟩ := (along_append.1 hbrief).imp_left along_append.1
    set w₁ := w.after S [.sclData false, .sdaData (data &&& mask != 0)] with hw₁
    have hlevel : (w₁.after S riseOps).sda S = (data &&& mask != 0) := by
      simp [hw₁, riseOps, after, apply, sda, Port.write, hdir]
    have hset : w.listen S m [.sclData false, .sdaData (data &&& mask != 0)] = m :=
      listen_fall (by simp)
    have hbit : w₁.listen S m riseOps = ⟨m.bits ++ [data &&& mask != 0], m.seen⟩ := by
      rw [listen_rise_bit (hsteady.after _) rfl hrise (by omega), hlevel]
    have hfall : ∀ m, (w.after S ([.sclData false, .sdaData (data &&& mask != 0)] ++
        riseOps)).listen S m [.sclData false, .sclDelay] = m := fun m ↦
      listen_fall (by simp)
    rw [listen_append, listen_append, listen_append, hset, hbit, hfall,
      ih (mask >>> 1) (hsteady.after _) ?_ ?_ hrest ?_, maskBits_succ, List.append_assoc]
    · rfl
    · rw [after_port, List.foldl_append]
      rfl
    · rw [after_port]
      exact hdir
    · rw [List.length_append, List.length_singleton]
      omega

/-- The operations of `i2c_write` after its bit loop. -/
def ackOps : List PortOp :=
  [.sdaDir false] ++ riseOps ++ [.sdaRead] ++ [.sclData false, .sclDelay]

/-- The acknowledgement that `i2c_write` asks for is the level at which the slave holds SDA. -/
theorem listen_ackOps (hsteady : w.Steady S) (hscl : w.port.sclOut = false)
    (hbrief : w.Along S Brief ackOps) (hbits : m.bits.length = 8) :
    w.listen S m ackOps = ⟨[], m.seen ++
      [.byte (ofBits m.bits) (!S.sda (S.watch w.slave ([.sdaDir false] ++ riseOps)))]⟩ := by
  obtain ⟨⟨⟨-, hrise⟩, -⟩, -⟩ := (along_append.1 hbrief).imp_left fun h ↦
    (along_append.1 h).imp_left along_append.1
  set w₁ := w.after S [.sdaDir false] with hw₁
  have hscl₁ : w₁.port.sclOut = false := hscl
  have hhigh : (w₁.after S riseOps).scl = true := scl_after_rise hscl₁ hrise
  have hanswer : (w₁.after S riseOps).sda S =
      S.sda (S.watch w.slave ([.sdaDir false] ++ riseOps)) := rfl
  have hturn : w.listen S m [.sdaDir false] = m :=
    listen_held hscl (by simp)
  have hread : ∀ m, (w.after S ([.sdaDir false] ++ riseOps)).listen S m [.sdaRead] = m := fun m ↦
    listen_high (hsteady.after _) hhigh hhigh fun _ ↦ ⟨rfl, rfl⟩
  have hfall : ∀ m, (w.after S ([.sdaDir false] ++ riseOps ++ [.sdaRead])).listen S m
      [.sclData false, .sclDelay] = m := fun m ↦
    listen_fall (by simp)
  rw [ackOps, listen_append, listen_append, listen_append, hturn,
    listen_rise (hsteady.after _) hscl₁ hrise, Sampler.next_rise_ack _ _ _ hbits, hread, hfall,
    ← hw₁, hanswer]

theorem portOps_write (byte : Byte) :
    portOps (.write byte) = [.sdaDir true] ++ Slave.bitOps byte 8 0x80 ++ ackOps := by
  simp only [portOps, Slave.writeOps, ackOps, riseOps, List.append_assoc, List.cons_append,
    List.nil_append]

/-- **`i2c_write`** shows the byte with the slave's answer. -/
theorem listen_write (byte : Byte) (hsteady : w.Steady S) (hscl : w.port.sclOut = false)
    (hbrief : w.Along S Brief (portOps (.write byte))) (hbits : m.bits = []) :
    w.listen S m (portOps (.write byte)) =
      ⟨[], m.seen ++ [.byte byte (S.bytewise.write w.slave byte).1]⟩ := by
  have hanswer : S.bytewise.write w.slave byte =
      (!S.sda (S.watch (S.watch w.slave ([.sdaDir true] ++ Slave.bitOps byte 8 0x80))
        ([.sdaDir false] ++ riseOps)), S.watch w.slave (portOps (.write byte))) := by
    rw [← Slave.watch_append, ← Slave.bytewise_write_slave]
    rfl
  rw [portOps_write] at hbrief ⊢
  obtain ⟨⟨-, hloop⟩, hack⟩ := (along_append.1 hbrief).imp_left along_append.1
  have hfirst : w.listen S m [.sdaDir true] = m :=
    listen_held hscl (by simp)
  have hbitsShown : (w.after S [.sdaDir true]).listen S m (Slave.bitOps byte 8 0x80) =
      ⟨maskBits byte 8 0x80, m.seen⟩ := by
    rw [listen_bitOps byte 8 0x80 (w := w.after S [.sdaDir true]) (hsteady.after _) hscl rfl hloop
      (by rw [hbits]; decide), hbits, List.nil_append]
  have hport : (w.after S ([.sdaDir true] ++ Slave.bitOps byte 8 0x80)).port.sclOut = false := by
    rw [after_port, List.foldl_append]
    exact (port_bitOps byte 8 0x80 hscl).1
  rw [listen_append, listen_append, hfirst, hbitsShown,
    listen_ackOps (hsteady.after _) hport hack (length_maskBits byte 8 0x80), ofBits_maskBits,
    after_slave, hanswer]

/-! ### A byte read -/

/-- The pulses of `i2c_read` show the bits that the call shifts in. -/
theorem listen_pulseOps (n : ℕ) (hsteady : w.Steady S) (hscl : w.port.sclOut = false)
    (hdir : w.port.sdaDir = false) (hbrief : w.Along S Brief (pulseOps n))
    (hbits : m.bits.length + n ≤ 8) :
    ∃ bits, w.listen S m (pulseOps n) = ⟨bits, m.seen⟩ ∧ bits.length = m.bits.length + n ∧
      ofBits bits = (S.shiftOut n (ofBits m.bits) w.slave).1 := by
  induction n generalizing w m with
  | zero => exact ⟨m.bits, rfl, rfl, rfl⟩
  | succ n ih =>
    have hsplit : pulseOps (n + 1) =
        riseOps ++ [.sdaRead] ++ [.sclData false, .sclDelay] ++ pulseOps n := rfl
    rw [hsplit] at hbrief ⊢
    obtain ⟨⟨⟨hrise, -⟩, -⟩, hrest⟩ := (along_append.1 hbrief).imp_left fun h ↦
      (along_append.1 h).imp_left along_append.1
    have hhigh : (w.after S riseOps).scl = true := scl_after_rise hscl hrise
    -- the master has let go of SDA, so that the level shown is the one the slave drives
    have hlevel : (w.after S riseOps).sda S =
        S.sda (S.watch w.slave [.sclData true, .sclRead, .sclDelay]) := by
      show (if w.port.sdaDir then w.port.sdaOut else _) = _
      rw [hdir]
      rfl
    have hread : ∀ m, (w.after S riseOps).listen S m [.sdaRead] = m := fun m ↦
      listen_high (hsteady.after _) hhigh hhigh fun _ ↦ ⟨rfl, rfl⟩
    have hfall : ∀ m, (w.after S (riseOps ++ [.sdaRead])).listen S m
        [.sclData false, .sclDelay] = m := fun m ↦
      listen_fall (by simp)
    set w' := w.after S (riseOps ++ [.sdaRead] ++ [.sclData false, .sclDelay]) with hw'
    have hdir' : w'.port.sdaDir = false := by
      rw [hw', after_port]
      exact hdir
    have hbits' : (m.bits ++ [(w.after S riseOps).sda S]).length + n ≤ 8 := by
      rw [List.length_append, List.length_singleton]
      omega
    obtain ⟨bits, hlisten, hlength, hdata⟩ := ih
      (m := ⟨m.bits ++ [(w.after S riseOps).sda S], m.seen⟩) (hsteady.after _) rfl hdir' hrest
      hbits'
    refine ⟨bits, ?_, ?_, ?_⟩
    · rw [listen_append, listen_append, listen_append,
        listen_rise_bit hsteady hscl hrise (by omega), hread, hfall, hlisten]
    · rw [hlength, List.length_append, List.length_singleton]
      omega
    · rw [hdata, Slave.shiftOut, ofBits_concat, hlevel]
      rfl

/-- The operations of `i2c_read` after its bit loop. -/
def replyOps (bAck : Bool) : List PortOp :=
  [.sclData false, .sdaDir true, .sdaData (!bAck)] ++ riseOps ++
    [.sclData false, .sclDelay, .sdaData false, .sclDelay]

/-- The acknowledgement that `i2c_read` gives. -/
theorem listen_replyOps (bAck : Bool) (hsteady : w.Steady S)
    (hbrief : w.Along S Brief (replyOps bAck)) (hbits : m.bits.length = 8) :
    w.listen S m (replyOps bAck) = ⟨[], m.seen ++ [.byte (ofBits m.bits) bAck]⟩ := by
  obtain ⟨⟨-, hrise⟩, -⟩ := (along_append.1 hbrief).imp_left along_append.1
  set w₁ := w.after S [.sclData false, .sdaDir true, .sdaData (!bAck)] with hw₁
  have hlevel : (w₁.after S riseOps).sda S = !bAck := rfl
  have hset : w.listen S m [.sclData false, .sdaDir true, .sdaData (!bAck)] = m :=
    listen_fall (by simp)
  have hfall : ∀ m, (w.after S ([.sclData false, .sdaDir true, .sdaData (!bAck)] ++
      riseOps)).listen S m [.sclData false, .sclDelay, .sdaData false, .sclDelay] = m := fun m ↦
    listen_fall (by simp)
  rw [replyOps, listen_append, listen_append, hset, ← hw₁,
    listen_rise (hsteady.after _) rfl hrise, Sampler.next_rise_ack _ _ _ hbits, hfall, hlevel,
    Bool.not_not]

/-- **`i2c_read`** shows the byte it returns with the master's answer. -/
theorem listen_read (bAck : Bool) (hsteady : w.Steady S) (hscl : w.port.sclOut = false)
    (hbrief : w.Along S Brief (portOps (.read bAck))) (hbits : m.bits = []) :
    w.listen S m (portOps (.read bAck)) =
      ⟨[], m.seen ++ [.byte (S.bytewise.read w.slave bAck).1 bAck]⟩ := by
  have hsplit : portOps (.read bAck) =
      [.sdaDir false, .sclData false, .sclDelay] ++ pulseOps 8 ++ replyOps bAck := rfl
  rw [hsplit] at hbrief ⊢
  obtain ⟨⟨-, hpulses⟩, hreply⟩ := (along_append.1 hbrief).imp_left along_append.1
  set w₁ := w.after S [.sdaDir false, .sclData false, .sclDelay] with hw₁
  have hfirst : w.listen S m [.sdaDir false, .sclData false, .sclDelay] = m :=
    listen_held hscl (by simp)
  obtain ⟨bits, hlisten, hlength, hdata⟩ := listen_pulseOps (w := w₁) (m := m) 8
    (hsteady.after _) rfl rfl hpulses (by rw [hbits]; decide)
  have hbyte : (S.bytewise.read w.slave bAck).1 = ofBits bits := by
    rw [hdata, hbits]
    rfl
  rw [hbits, List.length_nil] at hlength
  rw [listen_append, listen_append, hfirst, ← hw₁, hlisten,
    listen_replyOps bAck (hsteady.after _) hreply hlength, hbyte]

/-! ### Conditions -/

/-- **`i2c_start`** shows a start condition, if SCL is not held low. -/
theorem listen_startOps {idle : Bool} (hport : w.port.At idle) (hbits : m.bits.length < 8) :
    w.listen S m startOps =
      if (w.after S [.sdaDir true, .sdaData true, .sclData true]).scl then
        ⟨[], m.seen ++ [.start]⟩ else m := by
  set level := (w.after S [.sdaDir true, .sdaData true, .sclData true]).scl with hlevel
  cases idle with
  | false =>
    -- SCL rises, or is held low to the end
    have hscl : w.port.sclOut = false := hport
    have hlisten : w.listen S m startOps =
        (m.next false true level true).next level true level false := by
      simp [hlevel, startOps, listen, after, apply, scl, sda, Port.write, hscl]
    rw [hlisten]
    cases level with
    | true =>
      rw [m.next_rise _ _ hbits, Sampler.next_start]
      rfl
    | false => rfl
  | true =>
    have hidle : w.port = ⟨true, true, true⟩ := hport
    have hlisten : w.listen S m startOps = m.next level true level false := by
      simp [hlevel, startOps, listen, after, apply, scl, sda, Port.write, hidle]
    rw [hlisten]
    cases level <;> rfl

/-- **`i2c_stop`** shows a stop condition, if SCL is not held low. -/
theorem listen_stopOps (hscl : w.port.sclOut = false) (hbits : m.bits.length < 8) :
    w.listen S m stopOps =
      if (w.after S [.sdaDir true, .sdaData false, .sclData true]).scl then
        ⟨[], m.seen ++ [.stop]⟩ else m := by
  set level := (w.after S [.sdaDir true, .sdaData false, .sclData true]).scl with hlevel
  have hlisten : w.listen S m stopOps =
      (m.next false false level false).next level false level true := by
    simp [hlevel, stopOps, listen, after, apply, scl, sda, Port.write, hscl]
  rw [hlisten]
  cases level with
  | true =>
    rw [m.next_rise _ _ hbits, Sampler.next_stop]
    rfl
  | false => rfl

/-! ### Calls -/

section

variable {S : Slave σ}

/-- A slave that never holds SCL is brief. -/
theorem brief_prompt (ops : List PortOp) : w.Along S.prompt Brief ops := by
  induction ops generalizing w with
  | nil => trivial
  | cons op ops ih =>
    refine ⟨?_, ih⟩
    rintro rfl hscl
    simp [apply, hscl, Slave.prompt]

/-- A call shows what it does to the slave. -/
theorem listen_portOps (hsteady : w.Steady S.prompt) (hleft : w.left = 0) {idle : Bool}
    (hport : w.port.At idle) {a : BusAction} (hstart : idle = true → a = .start)
    (hbits : m.bits = []) :
    w.listen S.prompt m (portOps a) = ⟨[], m.seen ++ S.bytewise.shows w.slave [a]⟩ := by
  have hbits' : m.bits.length < 8 := by
    rw [hbits]
    decide
  cases a with
  | start =>
    have hhigh : (w.after S.prompt [.sdaDir true, .sdaData true, .sclData true]).scl = true := by
      rw [scl, left_prompt hleft]
      rfl
    exact (listen_startOps hport hbits').trans (if_pos hhigh)
  | stop =>
    have hhigh : (w.after S.prompt [.sdaDir true, .sdaData false, .sclData true]).scl = true := by
      rw [scl, left_prompt hleft]
      rfl
    exact (listen_stopOps (hport.sclOut_of_ne_start hstart (by simp)) hbits').trans (if_pos hhigh)
  | write byte =>
    have hscl := hport.sclOut_of_ne_start hstart (by simp)
    exact listen_write byte hsteady hscl (brief_prompt _) hbits
  | read bAck =>
    have hscl := hport.sclOut_of_ne_start hstart (by simp)
    exact listen_read bAck hsteady hscl (brief_prompt _) hbits

/-- **Calls in order** show what they do to the slave. -/
theorem listen_calls {calls : List BusAction} (hsteady : w.Steady S.prompt) (hleft : w.left = 0)
    {idle : Bool} (hport : w.port.At idle) (horder : InOrder idle calls) (hbits : m.bits = []) :
    w.listen S.prompt m (calls.flatMap portOps) =
      ⟨[], m.seen ++ S.bytewise.shows w.slave calls⟩ := by
  induction calls generalizing w m idle with
  | nil =>
    rw [← hbits]
    exact congrArg (Sampler.mk m.bits) (List.append_nil _).symm
  | cons a calls ih =>
    obtain ⟨hstart, hrest⟩ := horder
    have hslave : (w.after S.prompt (portOps a)).slave = S.watch w.slave (portOps a) :=
      after_slave w _
    rw [List.flatMap_cons, listen_append, listen_portOps hsteady hleft hport hstart hbits,
      ih (hsteady.after _) (left_prompt hleft _) (at_after w a) hrest rfl,
      Slave.shows_cons S w.slave a calls,
      hslave, List.append_assoc]

end

end Wires

end MappingRobot
