import MappingRobot.I2C.Sampling

/-!
# Clock stretching

A slave may hold SCL low after the master has released it, and the loops of `i2c_write` and
`i2c_read` that poll SCL are there to wait for it. They poll the port of SCL, which reads back what
has been written to it, and not the line: so they never wait, and what they give a slave is the time
of one poll. `stretching_honoured_iff` says that this is the condition, for any sequence of calls:
the master keeps to the line if and only if no release of SCL in a byte transfer is held for more
than one poll.
-/

namespace MappingRobot

variable {σ : Type}

/-! ### Sequences of calls -/

section

variable (S : Slave σ)

/-- A call, with the byte it transfers and the acknowledgement of it. -/
def i2cCall (a : BusAction) (b : Bus σ) : Option (Option (Byte × Bool) × Bus σ) :=
  match a with
  | .start => some (none, i2cStart S b)
  | .stop => some (none, i2cStop S b)
  | .write byte => do
    let (bAck, b) ← i2cWrite S byte b
    some (some (byte, bAck), b)
  | .read bAck => do
    let (data, b) ← i2cRead S bAck b
    some (some (data, bAck), b)

/-- Calls one after the other, with the bytes they transfer. -/
def i2cCalls : List BusAction → Bus σ → Option (List (Byte × Bool) × Bus σ)
  | [], b => some ([], b)
  | a :: calls, b => do
    let (transfer, b) ← i2cCall S a b
    let (transfers, b) ← i2cCalls calls b
    some (transfer.toList ++ transfers, b)

variable {S}

/-- A call transfers the byte that it shows, and carries out its operations. -/
theorem i2cCall_spec (a : BusAction) (b : Bus σ) :
    ∃ transfer b', i2cCall S a b = some (transfer, b') ∧
      transfer.toList = bytesSeen (S.bytewise.shows b.slave [a]) ∧
      b'.slave = S.watch b.slave (portOps a) := by
  cases a with
  | start => exact ⟨none, _, rfl, rfl, i2cStart_slave b⟩
  | stop => exact ⟨none, _, rfl, rfl, i2cStop_slave b⟩
  | write byte =>
    obtain ⟨b', hwrite, hslave, -⟩ := i2cWrite_spec (S := S) byte b
    refine ⟨_, b', by rw [i2cCall, hwrite]; rfl, rfl, ?_⟩
    rw [hslave, Slave.bytewise_write_slave]
  | read bAck =>
    obtain ⟨b', hread, hslave, -⟩ := i2cRead_spec (S := S) bAck b
    refine ⟨_, b', by rw [i2cCall, hread]; rfl, rfl, ?_⟩
    rw [hslave, Slave.bytewise_read_slave]

/-- **Calls** return, with the bytes that they show. -/
theorem i2cCalls_spec (calls : List BusAction) (b : Bus σ) :
    ∃ b', i2cCalls S calls b = some (bytesSeen (S.bytewise.shows b.slave calls), b') ∧
      b'.slave = S.watch b.slave (calls.flatMap portOps) := by
  induction calls generalizing b with
  | nil => exact ⟨b, rfl, rfl⟩
  | cons a calls ih =>
    obtain ⟨transfer, b₁, hcall, htransfer, hslave₁⟩ := i2cCall_spec (S := S) a b
    obtain ⟨b', hcalls, hslave⟩ := ih b₁
    refine ⟨b', ?_, ?_⟩
    · rw [i2cCalls, hcall, Slave.shows_cons, bytesSeen_append, ← htransfer, ← hslave₁]
      simp only [Option.bind_eq_bind, Option.bind_some, hcalls]
    · rw [hslave, hslave₁, List.flatMap_cons, Slave.watch_append]

end

namespace Wires

variable (S : Stretcher σ)

/-- While SCL is released, SDA is sampled and SCL is driven low only when SCL has gone high. -/
def Clocked (w : Wires σ) (op : PortOp) (_ : Wires σ) : Prop :=
  w.port.sclOut = true → op = .sdaRead ∨ op = .sclData false → w.scl = true

/-- Every operation of the byte transfers in a sequence of calls satisfies `P`. -/
def AlongTransfers (P : Wires σ → PortOp → Wires σ → Prop) : Wires σ → List BusAction → Prop
  | _, [] => True
  | w, a :: calls =>
    (a.isByte = true → w.Along S P (portOps a)) ∧ AlongTransfers P (w.after S (portOps a)) calls

/-- Release SCL, poll it, do something while it is high, and drive it low. -/
def pulse (ops : List PortOp) : List PortOp :=
  riseOps ++ ops ++ [.sclData false, .sclDelay]

variable {S} {w : Wires σ} {m : Sampler} {ops ops' : List PortOp}

/-! ### Pulse by pulse -/

theorem clocked_append (h : w.Along S Clocked ops ↔ w.Along S Brief ops)
    (h' : (w.after S ops).Along S Clocked ops' ↔ (w.after S ops).Along S Brief ops') :
    w.Along S Clocked (ops ++ ops') ↔ w.Along S Brief (ops ++ ops') := by
  rw [along_append, along_append]
  exact and_congr h h'

/-- While SCL is driven low there is nothing to keep to. -/
theorem clocked_low (ops : List PortOp) (hscl : w.port.sclOut = false)
    (hops : .sclData true ∉ ops) :
    w.Along S Clocked ops ↔ w.Along S Brief ops := by
  induction ops generalizing w with
  | nil => exact Iff.rfl
  | cons op ops ih =>
    obtain ⟨hop, hrest⟩ := List.ne_and_not_mem_of_not_mem_cons hops
    have hclocked : w.Clocked op (w.apply S op) := fun hhigh ↦ by
      rw [hscl] at hhigh
      cases hhigh
    have hbrief : w.Brief op (w.apply S op) := fun hrelease ↦ absurd hrelease.symm hop
    have hscl' : (w.apply S op).port.sclOut = false := by
      cases op with
      | sclData level =>
        cases level with
        | true => exact absurd rfl hop
        | false => rfl
      | sdaDir _ | sdaData _ | sclRead | sdaRead | sclDelay => exact hscl
    exact and_congr (iff_of_true hclocked hbrief) (ih hscl' hrest)

/-- **A pulse** keeps to the line iff its release is held for at most one poll. -/
theorem clocked_pulse (ops : List PortOp) (hscl : w.port.sclOut = false)
    (hops : ops = [] ∨ ops = [.sdaRead]) :
    w.Along S Clocked (pulse ops) ↔ w.Along S Brief (pulse ops) := by
  rcases hops with rfl | rfl
  all_goals
    simp [pulse, riseOps, Along, Clocked, Brief, apply, scl, Port.write, hscl]
    omega

/-! ### Call by call -/

theorem clocked_bitOps (data : Byte) (n : ℕ) (mask : Byte) (hscl : w.port.sclOut = false) :
    w.Along S Clocked (Slave.bitOps data n mask) ↔ w.Along S Brief (Slave.bitOps data n mask) := by
  induction n generalizing mask w with
  | zero => exact Iff.rfl
  | succ n ih =>
    have hset := clocked_low (S := S) [.sclData false, .sdaData (data &&& mask != 0)] hscl (by simp)
    exact clocked_append (clocked_append hset (clocked_pulse [] rfl (Or.inl rfl)))
      (ih (mask >>> 1) rfl)

theorem port_pulseOps (n : ℕ) {p : Port} (h : p.sclOut = false) :
    ((pulseOps n).foldl Port.write p).sclOut = false := by
  induction n generalizing p with
  | zero => exact h
  | succ n ih => exact ih rfl

theorem clocked_pulseOps (n : ℕ) (hscl : w.port.sclOut = false) :
    w.Along S Clocked (pulseOps n) ↔ w.Along S Brief (pulseOps n) := by
  induction n generalizing w with
  | zero => exact Iff.rfl
  | succ n ih => exact clocked_append (clocked_pulse [.sdaRead] hscl (Or.inr rfl)) (ih rfl)

/-- A byte transfer keeps to the line iff its releases are held for at most one poll. -/
theorem clocked_portOps {a : BusAction} (ha : a.isByte = true) (hscl : w.port.sclOut = false) :
    w.Along S Clocked (portOps a) ↔ w.Along S Brief (portOps a) := by
  cases a with
  | start | stop => cases ha
  | write byte =>
    have hloop := clocked_bitOps (S := S) (w := w.after S [.sdaDir true]) byte 8 0x80 hscl
    have hport : (w.after S ([.sdaDir true] ++ Slave.bitOps byte 8 0x80)).port.sclOut = false := by
      rw [after_port, List.foldl_append]
      exact (port_bitOps byte 8 0x80 hscl).1
    have hack : ∀ w : Wires σ, w.port.sclOut = false →
        (w.Along S Clocked ackOps ↔ w.Along S Brief ackOps) := by
      intro w hscl
      rw [show ackOps = [.sdaDir false] ++ pulse [.sdaRead] from rfl]
      exact clocked_append (clocked_low _ hscl (by simp)) (clocked_pulse _ hscl (Or.inr rfl))
    rw [portOps_write]
    exact clocked_append (clocked_append (clocked_low _ hscl (by simp)) hloop) (hack _ hport)
  | read bAck =>
    have hsplit : portOps (.read bAck) =
      [.sdaDir false, .sclData false, .sclDelay] ++ pulseOps 8 ++
        ([.sclData false, .sdaDir true, .sdaData (!bAck)] ++ pulse [] ++
          [.sdaData false, .sclDelay]) := rfl
    have hfirst := clocked_low (S := S) [.sdaDir false, .sclData false, .sclDelay] hscl (by simp)
    have hreply : ∀ w : Wires σ, w.port.sclOut = false →
        (w.Along S Clocked ([.sclData false, .sdaDir true, .sdaData (!bAck)] ++ pulse [] ++
            [.sdaData false, .sclDelay]) ↔
          w.Along S Brief ([.sclData false, .sdaDir true, .sdaData (!bAck)] ++ pulse [] ++
            [.sdaData false, .sclDelay])) := fun w hscl ↦
      clocked_append
        (clocked_append (clocked_low _ hscl (by simp)) (clocked_pulse [] rfl (Or.inl rfl)))
        (clocked_low _ rfl (by simp))
    have hport : (w.after S ([.sdaDir false, .sclData false, .sclDelay] ++
        pulseOps 8)).port.sclOut = false := by
      rw [after_port, List.foldl_append]
      exact port_pulseOps 8 rfl
    rw [hsplit]
    exact clocked_append (clocked_append hfirst (clocked_pulseOps 8 rfl)) (hreply _ hport)

/-! ### Sequences of calls -/

theorem alongTransfers_clocked_iff {idle : Bool} (hport : w.port.At idle) {calls : List BusAction}
    (horder : InOrder idle calls) :
    w.AlongTransfers S Clocked calls ↔ w.AlongTransfers S Brief calls := by
  induction calls generalizing w idle with
  | nil => exact Iff.rfl
  | cons a calls ih =>
    obtain ⟨hstart, hrest⟩ := horder
    refine and_congr (forall_congr' fun ha ↦ clocked_portOps ha ?_) (ih (at_after w a) hrest)
    exact hport.sclOut_of_ne_start hstart fun hne ↦ by simp [hne, BusAction.isByte] at ha

/-- A call shows the byte that it transfers, and no other. -/
theorem listen_call (hsteady : w.Steady S) {idle : Bool} (hport : w.port.At idle) {a : BusAction}
    (hstart : idle = true → a = .start) (hbrief : a.isByte = true → w.Along S Brief (portOps a))
    (hbits : m.bits = []) :
    ∃ seen, w.listen S m (portOps a) = ⟨[], m.seen ++ seen⟩ ∧
      bytesSeen seen = bytesSeen (S.bytewise.shows w.slave [a]) := by
  have hbits' : m.bits.length < 8 := by
    rw [hbits]
    decide
  have hsame : m = ⟨[], m.seen ++ []⟩ := by rw [← hbits, List.append_nil]
  cases a with
  | start =>
    by_cases hhigh : (w.after S [.sdaDir true, .sdaData true, .sclData true]).scl = true
    · exact ⟨[.start], (listen_startOps hport hbits').trans (if_pos hhigh), rfl⟩
    · exact ⟨[], ((listen_startOps hport hbits').trans (if_neg hhigh)).trans hsame, rfl⟩
  | stop =>
    have hscl := hport.sclOut_of_ne_start hstart (by simp)
    by_cases hhigh : (w.after S [.sdaDir true, .sdaData false, .sclData true]).scl = true
    · exact ⟨[.stop], (listen_stopOps hscl hbits').trans (if_pos hhigh), rfl⟩
    · exact ⟨[], ((listen_stopOps hscl hbits').trans (if_neg hhigh)).trans hsame, rfl⟩
  | write byte =>
    have hscl := hport.sclOut_of_ne_start hstart (by simp)
    exact ⟨_, listen_write byte hsteady hscl (hbrief rfl) hbits, rfl⟩
  | read bAck =>
    have hscl := hport.sclOut_of_ne_start hstart (by simp)
    exact ⟨_, listen_read bAck hsteady hscl (hbrief rfl) hbits, rfl⟩

/-- The bytes that are seen of calls are those that are transferred. -/
theorem listen_transfers {calls : List BusAction} (hsteady : w.Steady S) {idle : Bool}
    (hport : w.port.At idle) (horder : InOrder idle calls)
    (hbrief : w.AlongTransfers S Brief calls) (hbits : m.bits = []) :
    bytesSeen (w.listen S m (calls.flatMap portOps)).seen =
      bytesSeen m.seen ++ bytesSeen (S.bytewise.shows w.slave calls) := by
  induction calls generalizing w m idle with
  | nil => exact (List.append_nil _).symm
  | cons a calls ih =>
    obtain ⟨hstart, hrest⟩ := horder
    obtain ⟨hcall, hcalls⟩ := hbrief
    obtain ⟨seen, hlisten, hseen⟩ := listen_call hsteady hport hstart hcall hbits
    rw [List.flatMap_cons, listen_append, hlisten,
      ih (hsteady.after _) (at_after w a) hrest hcalls rfl,
      Slave.shows_cons S.toSlave w.slave a calls, after_slave, bytesSeen_append, bytesSeen_append,
      hseen, List.append_assoc]

end Wires

/-- **Clock stretching is honoured** in a sequence of calls from reset: the byte transfers sample
SDA and end a clock pulse only when SCL has gone high, and each byte transferred is the one seen on
the lines, if the slave changes SDA only while SCL is low. -/
structure Honoured (S : Stretcher σ) (s : σ) (calls : List BusAction) : Prop where
  clocked : (Wires.reset s).AlongTransfers S Wires.Clocked calls
  transferred : (Wires.reset s).Steady S → ∃ transfers b,
    i2cCalls S.recorded calls (.reset (s, [])) = some (transfers, b) ∧
      bytesSeen ((Wires.reset s).listen S .fresh b.slave.2).seen = transfers

/-- **Clock stretching is honoured iff no release of SCL in a byte transfer is held for more than
one poll.** The calls are made in order, as `i2c_write` and `i2c_read` assume; they return, and
carry out the operations that the condition and the property are about. -/
theorem stretching_honoured_iff (S : Stretcher σ) (s : σ) {calls : List BusAction}
    (horder : InOrder false calls) :
    (∃ transfers b, i2cCalls S.recorded calls (.reset (s, [])) = some (transfers, b) ∧
      b.slave.2 = calls.flatMap portOps) ∧
      (Honoured S s calls ↔ (Wires.reset s).AlongTransfers S Wires.Brief calls) := by
  obtain ⟨b, hcalls, hslave⟩ := i2cCalls_spec (S := S.recorded) calls (.reset (s, []))
  have hrecord : b.slave.2 = calls.flatMap portOps := by
    rw [hslave]
    exact congrArg Prod.snd (S.watch_recorded s [] _)
  have hiff := Wires.alongTransfers_clocked_iff (S := S) (w := .reset s) Port.at_reset horder
  refine ⟨⟨_, b, hcalls, hrecord⟩, fun h ↦ hiff.1 h.clocked, fun h ↦ ⟨hiff.2 h, fun hsteady ↦ ?_⟩⟩
  refine ⟨_, b, hcalls, ?_⟩
  rw [hrecord, Wires.listen_transfers hsteady Port.at_reset horder h rfl]
  exact congrArg bytesSeen (S.shows_recorded s [] calls).symm

/-- A slave that keeps SDA low, and holds SCL for the same number of polls after each release. -/
def Stretcher.slow (polls : ℕ) : Stretcher Unit where
  observe s _ := s
  sda _ := false
  hold _ := polls

theorem stretching_honoured_iff_slow :
    (∃ transfers b, i2cCalls (Stretcher.slow 1).recorded [.start, .write 0xc4, .read false, .stop]
        (.reset ((), [])) = some (transfers, b) ∧
      b.slave.2 = [.start, .write 0xc4, .read false, .stop].flatMap portOps) ∧
      (Honoured (.slow 1) () [.start, .write 0xc4, .read false, .stop] ↔
        (Wires.reset ()).AlongTransfers (.slow 1) Wires.Brief
          [.start, .write 0xc4, .read false, .stop]) :=
  stretching_honoured_iff (.slow 1) () (by decide)

/-- A slave that holds SCL for two polls sees nothing of a byte that the master takes for
acknowledged. -/
theorem not_honoured_of_two_polls :
    ¬ Honoured (.slow 2) () [.start, .write 0xc4] ∧
      ∃ b, i2cCalls (Stretcher.slow 2).recorded [.start, .write 0xc4] (.reset ((), [])) =
          some ([(0xc4, true)], b) ∧
        bytesSeen ((Wires.reset ()).listen (.slow 2) .fresh b.slave.2).seen = [] := by
  refine ⟨fun h ↦ ?_, ?_⟩
  · have hfirst := (h.clocked.2.1 rfl).2.2.2.2.2.2.1
    cases hfirst rfl (Or.inr rfl)
  · exact ⟨_, rfl, rfl⟩

end MappingRobot
