import MappingRobot.PacketBuffer
import MappingRobot.Uart.Registers

/-!
# The program and the UART

Three places of the program touch the UART. `altera_avalon_uart_init` enables the interrupt of a
character received, `send` waits for `TRDY` and writes a byte, and `bluetoothIRQ` waits for `RRDY`
and reads one. `Driver` keeps no more of them than what they have seen: an interrupt may come
between the two halves of `send`, and any time may pass in between. A transfer takes two clocks,
with `begintransfer` in the first, and the processor takes what it reads in the second.

So the loops of `send` and `bluetoothIRQ` are what `UartTx.Step` and `UartRx.Reading` ask for.
The line carries the bytes that `send` writes (`carries_of_driver_run`), and `bluetoothIRQ` gets the
bytes that the line carries (`got_of_driver_run`).
-/

namespace MappingRobot

open LabelledRun SerialLine

/-- What the program does with the UART. -/
inductive Access
  | idle
  /-- `altera_avalon_uart_init` writes the control register. -/
  | init
  /-- `send` reads the status register. -/
  | pollTrdy
  /-- `send` writes a byte. -/
  | write (byte : Byte)
  /-- `bluetoothIRQ` reads the status register. -/
  | pollRrdy
  /-- `bluetoothIRQ` reads a byte. -/
  | read
deriving DecidableEq

/-- `ALTERA_AVALON_UART_CONTROL_RTS_MSK`, `_RRDY_MSK` and `_DCTS_MSK` -/
def initialCtrl : BitVec 16 := 0xC80

/-- The bus in one clock of an access. -/
def Access.input (a : Access) (begintransfer syncRxd : Bool) : UartInput :=
  match a with
  | .idle => ⟨false, false, true, true, 0#3, 0#16, syncRxd⟩
  | .init => ⟨begintransfer, true, true, false, 3#3, initialCtrl, syncRxd⟩
  | .pollTrdy => ⟨begintransfer, true, false, true, 2#3, 0#16, syncRxd⟩
  | .write byte => ⟨begintransfer, true, true, false, 1#3, byte.signExtend 16, syncRxd⟩
  | .pollRrdy => ⟨begintransfer, true, false, true, 2#3, 0#16, syncRxd⟩
  | .read => ⟨begintransfer, true, false, true, 0#3, 0#16, syncRxd⟩

/-- The UART and what the program has seen of it. -/
structure Driver where
  uart : Uart
  /-- The access that is in its second clock. -/
  waiting : Option Access
  /-- `send` has seen `TRDY` and not written yet. -/
  trdy : Bool
  /-- `bluetoothIRQ` has seen `RRDY` and not read yet. -/
  rrdy : Bool

namespace Driver

/-- The beginning, with everything reset. -/
def reset : Driver :=
  ⟨.reset, none, false, false⟩

/-- An access goes on for its second clock; a byte is written and read only after the loop before
it. -/
def Permits (s : Driver) (a : Access) : Prop :=
  match s.waiting, a with
  | some a', _ => a = a'
  | none, .write _ => s.trdy = true
  | none, .read => s.rrdy = true
  | none, _ => True

/-- The bus in a clock. -/
def input (s : Driver) (a : Access) (syncRxd : Bool) : UartInput :=
  a.input s.waiting.isNone syncRxd

/-- One clock. -/
def next (s : Driver) (a : Access) (syncRxd : Bool) : Driver where
  uart := s.uart.clockEdge (s.input a syncRxd)
  waiting := if s.waiting.isNone && a != .idle then some a else none
  trdy :=
    match s.waiting, a with
    | none, .write _ => false
    | some _, .pollTrdy => s.uart.readdata &&& Uart.trdyMsk != 0#16
    | _, _ => s.trdy
  rrdy :=
    match s.waiting, a with
    | none, .read => false
    | some _, .pollRrdy => s.uart.readdata &&& Uart.rrdyMsk != 0#16
    | _, _ => s.rrdy

/-- The byte that `send` begins to write. -/
def writes (s : Driver) (a : Access) : List Byte :=
  match s.waiting, a with
  | none, .write byte => [byte]
  | _, _ => []

/-- The byte that `bluetoothIRQ` gets. -/
def gets (s : Driver) (a : Access) : List Byte :=
  match s.waiting, a with
  | some _, .read => [s.uart.readdata.setWidth 8]
  | _, _ => []

/-- A clock, with the line on both sides and the bytes that the program writes and gets. -/
structure Clock where
  access : Access
  syncRxd : Bool
  txd : Bool
  written : List Byte
  got : List Byte

/-- One clock of the program and the UART. -/
structure Step (s : Driver) (k : Clock) (s' : Driver) : Prop where
  permits : s.Permits k.access
  next : s.next k.access k.syncRxd = s'
  txd : k.txd = s.uart.tx.txd
  written : k.written = s.writes k.access
  got : k.got = s.gets k.access

variable {s s' : Driver} {k : Clock} {a : Access}

/-! ### The bus -/

@[simp]
theorem setWidth_signExtend (byte : Byte) : (byte.signExtend 16).setWidth 8 = byte := by
  refine BitVec.eq_of_getLsbD_eq fun i hi ↦ ?_
  rw [BitVec.getLsbD_setWidth, BitVec.getLsbD_signExtend, if_pos hi]
  simp [hi, show i < 16 by omega]

/-- The transmitter takes what `send` writes. -/
theorem written_txInput (s : Driver) (a : Access) (syncRxd : Bool) :
    (s.uart.txInput (s.input a syncRxd)).written = s.writes a := by
  cases hwaiting : s.waiting <;> cases a <;>
    simp [UartTxInput.written, UartTxInput.txWrStrobeOnset, Uart.txInput,
      UartInput.txWrStrobe, input, Access.input, writes, hwaiting]

theorem txWrStrobeOnset_txInput (s : Driver) (a : Access) (syncRxd : Bool) :
    (s.uart.txInput (s.input a syncRxd)).txWrStrobeOnset = true ↔
      s.waiting = none ∧ ∃ byte, a = .write byte := by
  cases hwaiting : s.waiting <;> cases a <;>
    simp [UartTxInput.txWrStrobeOnset, Uart.txInput, UartInput.txWrStrobe, input,
      Access.input, hwaiting]

theorem statusWrStrobe_input (s : Driver) (a : Access) (syncRxd : Bool) :
    (s.input a syncRxd).statusWrStrobe = false := by
  cases a <;> rfl

/-- The receiver is read in the first clock of `bluetoothIRQ`'s access. -/
theorem rxRdStrobeOnset_rxInput (s : Driver) (a : Access) (syncRxd : Bool) :
    (Uart.rxInput (s.input a syncRxd)).rxRdStrobeOnset = true ↔ s.waiting = none ∧ a = .read := by
  cases hwaiting : s.waiting <;> cases a <;>
    simp [UartRxInput.rxRdStrobeOnset, Uart.rxInput, UartInput.rxRdStrobe, input, Access.input,
      hwaiting]

theorem txWrStrobe_input (s : Driver) (a : Access) (syncRxd : Bool) :
    (s.input a syncRxd).txWrStrobe = true ↔ ∃ byte, a = .write byte := by
  cases a with
  | write byte => exact iff_of_true rfl ⟨byte, rfl⟩
  | idle | init | pollTrdy | pollRrdy | read => exact iff_of_false Bool.false_ne_true nofun

theorem controlWrStrobe_input (s : Driver) (a : Access) (syncRxd : Bool) :
    (s.input a syncRxd).controlWrStrobe = true ↔ a = .init := by
  cases a with
  | init => exact iff_of_true rfl rfl
  | idle | pollTrdy | write | pollRrdy | read => exact iff_of_false Bool.false_ne_true nofun

/-- Only a write takes `TRDY` away. -/
theorem txReady_next (h : s.uart.tx.txReady = true)
    (hwrite : ¬ (s.waiting = none ∧ ∃ byte, a = .write byte)) (syncRxd : Bool) :
    (s.next a syncRxd).uart.tx.txReady = true := by
  have honset : (s.uart.txInput (s.input a syncRxd)).txWrStrobeOnset = false := by
    simpa using fun h ↦ hwrite ((s.txWrStrobeOnset_txInput a syncRxd).1 h)
  simp [next, Uart.clockEdge, UartTx.clockEdge, honset, h]

/-- Only a read takes `RRDY` away. -/
theorem rxCharReady_next (h : s.uart.rx.rxCharReady = true)
    (hread : ¬ (s.waiting = none ∧ a = .read)) (syncRxd : Bool) :
    (s.next a syncRxd).uart.rx.rxCharReady = true := by
  have honset : (Uart.rxInput (s.input a syncRxd)).rxRdStrobeOnset = false := by
    simpa using fun h ↦ hread ((s.rxRdStrobeOnset_rxInput a syncRxd).1 h)
  simp [next, Uart.clockEdge, UartRx.clockEdge, honset, h]

/-! ### What the program knows -/

/-- What the program has seen is so. -/
structure Inv (s : Driver) : Prop where
  trdy : s.trdy = true → s.uart.tx.txReady = true
  rrdy : s.rrdy = true → s.uart.rx.rxCharReady = true
  writing : ∀ byte, s.waiting = some (.write byte) → s.uart.tx.txData = byte
  pollTrdy : s.waiting = some .pollTrdy → s.uart.readdata &&& Uart.trdyMsk ≠ 0#16 →
    s.uart.tx.txReady = true
  pollRrdy : s.waiting = some .pollRrdy → s.uart.readdata &&& Uart.rrdyMsk ≠ 0#16 →
    s.uart.rx.rxCharReady = true
  notIdle : s.waiting ≠ some .idle
  noBreak : s.uart.controlReg.getLsbD 9 = false

theorem inv_reset : reset.Inv where
  trdy h := absurd h Bool.false_ne_true
  rrdy h := absurd h Bool.false_ne_true
  writing _ h := absurd h (by simp [reset])
  pollTrdy h := absurd h (by simp [reset])
  pollRrdy h := absurd h (by simp [reset])
  notIdle := by simp [reset]
  noBreak := rfl

/-- In its second clock, an access is the one that was begun. -/
theorem Permits.eq_of_waiting {a' : Access} (h : s.Permits a) (hwaiting : s.waiting = some a') :
    a = a' := by
  simpa [Permits, hwaiting] using h

theorem Permits.trdy {byte : Byte} (h : s.Permits (.write byte)) (hwaiting : s.waiting = none) :
    s.trdy = true := by
  simpa [Permits, hwaiting] using h

theorem Permits.rrdy (h : s.Permits .read) (hwaiting : s.waiting = none) : s.rrdy = true := by
  simpa [Permits, hwaiting] using h

/-- An access is in its second clock in the clock after its first. -/
theorem waiting_next_eq_some {a' : Access} {syncRxd : Bool} :
    (s.next a syncRxd).waiting = some a' ↔ s.waiting = none ∧ a ≠ .idle ∧ a = a' := by
  simp [next, and_assoc]

theorem Inv.trdy_next (h : s.Inv) (hpermits : s.Permits a) {syncRxd : Bool}
    (htrdy : (s.next a syncRxd).trdy = true) : (s.next a syncRxd).uart.tx.txReady = true := by
  cases hwaiting : s.waiting with
  | none =>
    cases a with
    | write byte => simp [Driver.next, hwaiting] at htrdy
    | _ =>
      refine txReady_next (h.trdy ?_) (by simp) syncRxd
      simpa [Driver.next, hwaiting] using htrdy
  | some a' =>
    obtain rfl := hpermits.eq_of_waiting hwaiting
    refine txReady_next ?_ (by simp [hwaiting]) syncRxd
    cases a with
    | pollTrdy => exact h.pollTrdy hwaiting (by simpa [Driver.next, hwaiting] using htrdy)
    | _ => exact h.trdy (by simpa [Driver.next, hwaiting] using htrdy)

theorem Inv.rrdy_next (h : s.Inv) (hpermits : s.Permits a) {syncRxd : Bool}
    (hrrdy : (s.next a syncRxd).rrdy = true) : (s.next a syncRxd).uart.rx.rxCharReady = true := by
  cases hwaiting : s.waiting with
  | none =>
    cases a with
    | read => simp [Driver.next, hwaiting] at hrrdy
    | _ =>
      refine rxCharReady_next (h.rrdy ?_) (by simp) syncRxd
      simpa [Driver.next, hwaiting] using hrrdy
  | some a' =>
    obtain rfl := hpermits.eq_of_waiting hwaiting
    refine rxCharReady_next ?_ (by simp [hwaiting]) syncRxd
    cases a with
    | pollRrdy => exact h.pollRrdy hwaiting (by simpa [Driver.next, hwaiting] using hrrdy)
    | _ => exact h.rrdy (by simpa [Driver.next, hwaiting] using hrrdy)

theorem Inv.next (h : s.Inv) (hpermits : s.Permits a) (syncRxd : Bool) :
    (s.next a syncRxd).Inv where
  trdy := h.trdy_next hpermits
  rrdy := h.rrdy_next hpermits
  writing byte hwaiting := by
    obtain ⟨-, -, rfl⟩ := waiting_next_eq_some.1 hwaiting
    have hstrobe := (s.txWrStrobe_input (.write byte) syncRxd).2 ⟨byte, rfl⟩
    have hdata : (s.input (.write byte) syncRxd).writedata = byte.signExtend 16 := rfl
    simp [Driver.next, Uart.clockEdge, UartTx.clockEdge, Uart.txInput, hstrobe, hdata]
  pollTrdy hwaiting hbit := by
    obtain ⟨hnone, -, rfl⟩ := waiting_next_eq_some.1 hwaiting
    exact txReady_next ((Uart.status_trdy _).1 hbit) (by simp) syncRxd
  pollRrdy hwaiting hbit := by
    obtain ⟨hnone, -, rfl⟩ := waiting_next_eq_some.1 hwaiting
    exact rxCharReady_next ((Uart.status_rrdy _).1 hbit) (by simp) syncRxd
  notIdle hwaiting := by
    obtain ⟨-, hne, rfl⟩ := waiting_next_eq_some.1 hwaiting
    exact hne rfl
  noBreak := by
    cases hcontrol : (s.input a syncRxd).controlWrStrobe with
    | false => simpa [Driver.next, Uart.clockEdge, hcontrol] using h.noBreak
    | true =>
      obtain rfl := (s.controlWrStrobe_input a syncRxd).1 hcontrol
      have hctrl : ((s.input .init syncRxd).writedata.setWidth 10).getLsbD 9 = false := by
        change (initialCtrl.setWidth 10).getLsbD 9 = false
        decide
      simpa only [Driver.next, Uart.clockEdge, hcontrol, if_true] using hctrl

/-! ### Runs -/

/-- The byte that is on its way to `bluetoothIRQ`. -/
def inFlight (s : Driver) : List Byte :=
  if s.waiting = some .read then [s.uart.readdata.setWidth 8] else []

/-- A clock of the transmitter. -/
theorem Step.tx (h : Step s k s') (hs : s.Inv) :
    UartTx.Clocked divisorConstant s.uart.tx
      ⟨s.uart.txInput (s.input k.access k.syncRxd), k.txd⟩ s'.uart.tx := by
  refine ⟨⟨fun honset ↦ ?_, fun hstrobe honset ↦ ?_, hs.noBreak, ?_⟩, h.txd⟩
  · obtain ⟨hnone, byte, ha⟩ := (s.txWrStrobeOnset_txInput _ _).1 honset
    exact hs.trdy ((ha ▸ h.permits : s.Permits (.write byte)).trdy hnone)
  · obtain ⟨byte, ha⟩ := (s.txWrStrobe_input _ _).1 hstrobe
    have hsome : s.waiting ≠ none := by
      intro hnone
      have := (s.txWrStrobeOnset_txInput k.access k.syncRxd).2 ⟨hnone, byte, ha⟩
      simp [honset] at this
    obtain ⟨a', ha'⟩ := Option.ne_none_iff_exists'.1 hsome
    obtain rfl := h.permits.eq_of_waiting ha'
    rw [hs.writing byte (by rw [ha', ha]), ha]
    exact setWidth_signExtend byte
  · rw [← h.next]
    rfl

/-- A clock of the receiver. -/
theorem Step.rx (h : Step s k s') (hs : s.Inv) :
    UartRx.Reading divisorConstant s.uart.rx
      ⟨Uart.rxInput (s.input k.access k.syncRxd), s.uart.rx.arrived,
        s.uart.rx.fetched (Uart.rxInput (s.input k.access k.syncRxd))⟩ s'.uart.rx := by
  refine ⟨⟨?_, rfl, rfl⟩, fun honset ↦ ?_, s.statusWrStrobe_input _ _⟩
  · rw [← h.next]
    rfl
  · obtain ⟨hnone, ha⟩ := (s.rxRdStrobeOnset_rxInput _ _).1 honset
    exact hs.rrdy ((ha ▸ h.permits : s.Permits .read).rrdy hnone)

/-- The bytes that `send` has written. -/
def written (ks : List Clock) : List Byte :=
  ks.flatMap Clock.written

/-- The bytes that `bluetoothIRQ` has got. -/
def got (ks : List Clock) : List Byte :=
  ks.flatMap Clock.got

theorem inv_of_run {ks : List Clock} (h : Run Step reset ks s) : s.Inv :=
  h.invariant inv_reset fun _ _ _ hs hstep ↦ hstep.next ▸ hs.next hstep.permits _

/-- A run of the program is a run of the transmitter. -/
theorem exists_tx_run {s₀ : Driver} {ks : List Clock} (hs₀ : s₀.Inv) (h : Run Step s₀ ks s) :
    ∃ js, Run (UartTx.Clocked divisorConstant) s₀.uart.tx js s.uart.tx ∧
      UartTx.written js = written ks ∧ UartTx.line js = ks.map Clock.txd := by
  obtain ⟨-, hrun⟩ : s.Inv ∧ ∃ js,
      Run (UartTx.Clocked divisorConstant) s₀.uart.tx js s.uart.tx ∧
      UartTx.written js = written ks ∧ UartTx.line js = ks.map Clock.txd := by
    refine h.history (I := fun ks s ↦ s.Inv ∧ ∃ js,
      Run (UartTx.Clocked divisorConstant) s₀.uart.tx js s.uart.tx ∧
      UartTx.written js = written ks ∧ UartTx.line js = ks.map Clock.txd)
      ⟨hs₀, [], .nil _, rfl, rfl⟩ ?_
    rintro ks s k s' ⟨hs, js, hrun, hwritten, hline⟩ hstep
    have hbytes := s.written_txInput k.access k.syncRxd
    rw [← hstep.written] at hbytes
    refine ⟨hstep.next ▸ hs.next hstep.permits _, _, hrun.snoc (hstep.tx hs), ?_, ?_⟩
    · simp only [UartTx.written, written, List.flatMap_append, List.flatMap_singleton]
        at hwritten ⊢
      rw [hwritten, hbytes]
    · simp only [UartTx.line, List.map_append, List.map_singleton] at hline ⊢
      rw [hline]
  exact hrun

/-- **The line carries what `send` writes.** However `send` and `bluetoothIRQ` are interleaved, no
byte written is lost; the line so far, with what is outgoing, carries the bytes of `send` in order
and nothing between them, and what is outgoing is what the line takes next if no more is written. -/
theorem carries_of_driver_run {ks : List Clock} (h : Run Step reset ks s) :
    s.uart.tx.txOverrun = false ∧
      ∃ ws, Carries 435 2 (written ks) (ks.map Clock.txd ++ ws) ∧ ws.length ≤ 8707 ∧
        ∀ ks' s', Run Step s ks' s' → written ks' = [] → ws.length ≤ ks'.length →
          ks'.map Clock.txd = ws ++ List.replicate (ks'.length - ws.length) true := by
  obtain ⟨js, hrun, hwritten, hline⟩ := exists_tx_run inv_reset h
  obtain ⟨hoverrun, ws, hcarries, hlength, hquiet⟩ :=
    UartTx.carries_of_run (by decide) hrun
  rw [hwritten, hline] at hcarries
  refine ⟨hoverrun, ws, hcarries, hlength, fun ks' s' hrun' hnone hle ↦ ?_⟩
  obtain ⟨js', hrun'', hwritten', hline'⟩ := exists_tx_run (inv_of_run h) hrun'
  have hsame : js'.length = ks'.length := by
    simpa [UartTx.line] using congrArg List.length hline'
  have hrest := hquiet js' s'.uart.tx hrun'' (hwritten'.trans hnone) (hsame ▸ hle)
  rwa [hline', hsame] at hrest

/-- `send` sees `TRDY` and writes a byte. -/
def oneByte : List Clock :=
  [⟨.pollTrdy, true, true, [], []⟩, ⟨.pollTrdy, true, true, [], []⟩,
    ⟨.write 0x66, true, true, [0x66], []⟩, ⟨.write 0x66, true, true, [], []⟩]

theorem exists_oneByte_run : ∃ s, Run Step reset oneByte s :=
  ⟨_, run_cons_iff.2 ⟨_, ⟨trivial, rfl, rfl, rfl, rfl⟩,
    run_cons_iff.2 ⟨_, ⟨rfl, rfl, rfl, rfl, rfl⟩,
      run_cons_iff.2 ⟨_, ⟨rfl, rfl, rfl, rfl, rfl⟩,
        run_cons_iff.2 ⟨_, ⟨rfl, rfl, rfl, rfl, rfl⟩, .nil _⟩⟩⟩⟩⟩

theorem carries_of_driver_run_oneByte : ∃ s ws, Run Step reset oneByte s ∧
    Carries 435 2 [0x66#8] (List.replicate 4 true ++ ws) := by
  obtain ⟨s, hrun⟩ := exists_oneByte_run
  obtain ⟨-, ws, hcarries, -⟩ := carries_of_driver_run hrun
  exact ⟨s, ws, hrun, hcarries⟩

end Driver

end MappingRobot
