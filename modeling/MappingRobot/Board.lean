import MappingRobot.DcDriver
import MappingRobot.Stepper.Travel
import MappingRobot.Timer.Driver
import MappingRobot.Uart.Driver

/-!
# The board

The machine and the devices around it, clock by clock: the system timer, the Bluetooth UART and the
two drivers. The parts have modules of their own; here they share a clock, and what one of them puts
out another one takes.

A step of the program takes many clocks. It is counted to the one in which it ends, and if it writes
to a device, that is the clock in which the device has the word. Nothing else is said about how long
it takes. The timer is started before `OSStart`, and until then a tick does not reach the kernel.
`main` registers `bluetoothIRQ` right before it; a byte that is received between the two is left
out.
-/

namespace MappingRobot

open LabelledRun

/-- The machine and the devices. -/
structure Board (σ : Type) where
  /-- `OSRunning` -/
  osRunning : Bool
  machine : Machine σ
  clock : SystemClock
  uart : Driver
  dcDriver : DcDriver
  stepper : Stepper

/-- The byte that `bluetoothIRQ` has read in a step. -/
def MachineEvent.read : MachineEvent → Option Byte
  | .irq byte => some byte
  | _ => none

/-- What happens in a clock. -/
structure BoardClock where
  /-- `main` calls `OSStart`. -/
  osStart : Bool
  /-- The step of the program that ends. -/
  event : Option MachineEvent
  timer : TimerAccess
  uart : Driver.Clock
  dcDriver : DcInput
  stepper : Avalon

/-- The byte that `bluetoothIRQ` has read in a clock. -/
def BoardClock.irqByte (k : BoardClock) : Option Byte :=
  k.event.bind MachineEvent.read

namespace Driver

/-- No access goes on, and there is room for a byte. -/
structure AtRest (s : Driver) : Prop where
  waiting : s.waiting = none
  txReady : s.uart.tx.txReady = true

theorem AtRest.idle {s : Driver} (h : s.AtRest) : (s.next .idle true).AtRest :=
  ⟨by simp [next], txReady_next h.txReady (by simp) true⟩

end Driver

/-- Between `l` and `l'` the bytes have been put out, and the word of the DC driver's input. -/
structure Log.Puts (l l' : Log) (bytes : List Byte) (i : DcInput) : Prop where
  txData : l'.txData = l.txData ++ bytes
  dcDriver : l'.dcDriver.map Prod.snd = l.dcDriver.map Prod.snd ++ i.word.toList
  stepper : l'.stepper = l.stepper

theorem Log.Puts.of_eq {l l' : Log} (h : l' = l) : l.Puts l' [] ⟨false, false, 0⟩ := by
  subst h
  exact ⟨(List.append_nil _).symm, (List.append_nil _).symm, rfl⟩

namespace Board

variable {σ : Type}

/-- Power-up. -/
def powerUp (slave : σ) : Board σ where
  osRunning := false
  machine := .init slave
  clock := .reset
  uart := .reset
  dcDriver := .powerUp
  stepper := .powerUp

/-- One clock. -/
structure Step (S : Slave σ) (b : Board σ) (k : BoardClock) (b' : Board σ) : Prop where
  osRunning : b'.osRunning = (b.osRunning || k.osStart)
  /-- `alt_sys_init` has been there before `main`. -/
  osStart : k.osStart = true → b.clock.pc ≠ .init
  machine : Run (Machine.Step S) b.machine k.event.toList b'.machine
  running : b.osRunning = false → k.event = none
  clock : SystemClock.Step b.clock k.timer b'.clock
  /-- `alt_tick` is the tick of the kernel. -/
  tick : b.osRunning = true → (k.timer = .tick ↔ k.event = some .tick)
  uart : Driver.Step b.uart k.uart b'.uart
  txData : b'.machine.sys.log.txData = b.machine.sys.log.txData ++ k.uart.written
  rxData : k.uart.got = k.irqByte.toList
  dcDriver : b.dcDriver.clockEdge k.dcDriver = b'.dcDriver
  dcWord : b'.machine.sys.log.dcDriver.map Prod.snd =
    b.machine.sys.log.dcDriver.map Prod.snd ++ k.dcDriver.word.toList
  stepper : b.stepper.clockEdge k.stepper = b'.stepper
  stepperWord : b'.machine.sys.log.stepper = b.machine.sys.log.stepper ++ k.stepper.count.toList

/-- The steps of the program. -/
def events (ks : List BoardClock) : List MachineEvent :=
  ks.flatMap fun k ↦ k.event.toList

variable {S : Slave σ} {b b' : Board σ} {k : BoardClock} {ks : List BoardClock}

/-! ### The parts of a run -/

theorem machine_run (h : Run (Step S) b ks b') :
    Run (Machine.Step S) b.machine (events ks) b'.machine :=
  h.project machine _ fun _ _ _ hstep ↦ hstep.machine

theorem clock_run (h : Run (Step S) b ks b') :
    Run SystemClock.Step b.clock (ks.map BoardClock.timer) b'.clock :=
  h.projectMap clock _ fun _ _ _ hstep ↦ hstep.clock

theorem uart_run (h : Run (Step S) b ks b') :
    Run Driver.Step b.uart (ks.map BoardClock.uart) b'.uart :=
  h.projectMap uart _ fun _ _ _ hstep ↦ hstep.uart

/-- The UART takes what `send` writes. -/
theorem txData_eq (h : Run (Step S) b ks b') :
    b'.machine.sys.log.txData =
      b.machine.sys.log.txData ++ Driver.written (ks.map BoardClock.uart) := by
  rw [Driver.written, List.flatMap_map]
  exact h.log_eq fun _ _ _ hstep ↦ hstep.txData

/-- The DC driver takes what the program writes to it. -/
theorem dcWords_eq (h : Run (Step S) b ks b') :
    b'.machine.sys.log.dcDriver.map Prod.snd =
      b.machine.sys.log.dcDriver.map Prod.snd ++
        ks.flatMap fun k ↦ k.dcDriver.word.toList := by
  let log : Board σ → List (BitVec 32) := fun b ↦ b.machine.sys.log.dcDriver.map Prod.snd
  have hlog : log b' = log b ++ ks.flatMap fun k ↦ k.dcDriver.word.toList :=
    h.log_eq fun _ _ _ hstep ↦ hstep.dcWord
  exact hlog

/-! ### The clock of the kernel -/

/-- Nothing happens to the machine before `OSStart`, which comes after the start of the timer. -/
theorem started_of_run {slave : σ} (h : Run (Step S) (powerUp slave) ks b) :
    (b.osRunning = false → b.machine = .init slave) ∧
      (b.clock.pc ≠ .init → .init ∈ ks.map BoardClock.timer) ∧
      (b.osRunning = true → .init ∈ ks.map BoardClock.timer) := by
  refine h.history (I := fun ks b ↦ (b.osRunning = false → b.machine = .init slave) ∧
    (b.clock.pc ≠ .init → .init ∈ ks.map BoardClock.timer) ∧
    (b.osRunning = true → .init ∈ ks.map BoardClock.timer))
    ⟨fun _ ↦ rfl, fun hpc ↦ absurd rfl hpc, fun hrunning ↦ absurd hrunning Bool.false_ne_true⟩ ?_
  rintro ks b k b' ⟨hmachine, hinit, hstarted⟩ hstep
  rw [List.map_append, List.mem_append]
  refine ⟨fun hrunning ↦ ?_, fun hpc ↦ ?_, fun hrunning ↦ Or.inl ?_⟩
  · have hbefore : b.osRunning = false := by
      have := hstep.osRunning
      rw [hrunning] at this
      simpa using (Bool.or_eq_false_iff.1 this.symm).1
    have hrun := hstep.machine
    rw [hstep.running hbefore] at hrun
    rw [← run_nil_iff.1 hrun]
    exact hmachine hbefore
  · by_cases hpc' : b.clock.pc = .init
    · -- the driver leaves its beginning by the start
      refine Or.inr (List.mem_singleton.2 ?_)
      have hpermits := hstep.clock.permits
      rw [← hstep.clock.next] at hpc
      unfold SystemClock.Permits at hpermits
      cases htimer : k.timer <;> simp_all [SystemClock.next, SystemClockPc.next]
    · exact Or.inl (hinit hpc')
  · rcases Bool.or_eq_true_iff.1 (hstep.osRunning.symm.trans hrunning) with hbefore | hstart
    · exact hstarted hbefore
    · exact hinit (hstep.osStart hstart)

/-- The ticks of the kernel are those of the timer. -/
theorem ticks_eq (h : Run (Step S) b ks b') (hrunning : b.osRunning = true) :
    b'.osRunning = true ∧ ticks (events ks) = SystemClock.ticks (ks.map BoardClock.timer) := by
  refine h.history (I := fun ks b' ↦ b'.osRunning = true ∧
    ticks (events ks) = SystemClock.ticks (ks.map BoardClock.timer)) ⟨hrunning, rfl⟩ ?_
  rintro ks b k b' ⟨hrunning, hticks⟩ hstep
  have hone : ticks k.event.toList = SystemClock.ticks [k.timer] := by
    have htick := hstep.tick hrunning
    by_cases hevent : k.event = some .tick
    · rw [hevent, htick.2 hevent]
      rfl
    · have htimer : k.timer ≠ .tick := fun htimer ↦ hevent (htick.1 htimer)
      have hzero : ∀ e, k.event = some e → e.ticks = 0 := by
        rintro (_ | _ | _ | _ | _) he <;> first | rfl | exact absurd he hevent
      have hnone : SystemClock.ticks [k.timer] = 0 := by simp [SystemClock.ticks, htimer]
      rw [hnone]
      cases he : k.event with
      | none => rfl
      | some e => simp [ticks, hzero e he]
  refine ⟨by rw [hstep.osRunning, hrunning, Bool.true_or], ?_⟩
  rw [List.map_append, SystemClock.ticks_append, ← hticks, List.map_singleton, ← hone]
  simp [ticks, events]

/-! ### Runs that start from power-up -/

/-- A clock in which the program puts out a byte and a word at most, and gets nothing. -/
theorem exists_step (osStart : Bool) (access : Access) {e : Option MachineEvent} {a : TimerAccess}
    {i : DcInput} {c : Machine σ} {t : SystemClock}
    (hmachine : Run (Machine.Step S) b.machine e.toList c)
    (hputs : b.machine.sys.log.Puts c.sys.log (b.uart.writes access) i)
    (hirq : ∀ byte, e ≠ some (.irq byte)) (hrunning : b.osRunning = false → e = none)
    (hstart : osStart = true → b.clock.pc ≠ .init) (hclock : SystemClock.Step b.clock a t)
    (htick : b.osRunning = true → (a = .tick ↔ e = some .tick)) (hpermits : b.uart.Permits access)
    (hgets : b.uart.gets access = []) :
    ∃ k b', Step S b k b' ∧ k.timer = a ∧ b'.osRunning = (b.osRunning || osStart) ∧
      b'.machine = c ∧ b'.clock = t ∧ b'.uart = b.uart.next access true := by
  have hbyte : e.bind MachineEvent.read = none := by
    rcases e with _ | _ | _ | byte | _ | _ <;> first | rfl | exact absurd rfl (hirq byte)
  refine ⟨⟨osStart, e, a, ⟨access, true, b.uart.uart.tx.txd, b.uart.writes access, []⟩, i,
    ⟨false, 0, 0⟩⟩, ⟨b.osRunning || osStart, c, t, b.uart.next access true, _, _⟩,
    ⟨rfl, hstart, hmachine, hrunning, hclock, htick, ⟨hpermits, rfl, rfl, rfl, hgets.symm⟩,
      hputs.txData, ?_, rfl, hputs.dcDriver, rfl, ?_⟩, rfl, rfl, rfl, rfl, rfl⟩
  · rw [BoardClock.irqByte, hbyte]
    rfl
  · rw [hputs.stepper]
    exact (List.append_nil _).symm

/-- A clock in which the UART is left alone. -/
theorem exists_step_idle (osStart : Bool) {e : Option MachineEvent} {a : TimerAccess} {i : DcInput}
    {c : Machine σ} {t : SystemClock} (hrest : b.uart.AtRest)
    (hmachine : Run (Machine.Step S) b.machine e.toList c)
    (hputs : b.machine.sys.log.Puts c.sys.log [] i) (hirq : ∀ byte, e ≠ some (.irq byte))
    (hrunning : b.osRunning = false → e = none) (hstart : osStart = true → b.clock.pc ≠ .init)
    (hclock : SystemClock.Step b.clock a t)
    (htick : b.osRunning = true → (a = .tick ↔ e = some .tick)) :
    ∃ k b', Step S b k b' ∧ k.timer = a ∧ b'.osRunning = (b.osRunning || osStart) ∧
      b'.machine = c ∧ b'.clock = t ∧ b'.uart.AtRest := by
  have hwrites : b.uart.writes .idle = [] := by simp [Driver.writes, hrest.waiting]
  obtain ⟨k, b', hstep, hk, hosRunning, hc, ht, huart⟩ :=
    exists_step osStart .idle hmachine (hwrites ▸ hputs) hirq hrunning hstart hclock
      htick (by simp [Driver.Permits, hrest.waiting]) (by simp [Driver.gets, hrest.waiting])
  exact ⟨k, b', hstep, hk, hosRunning, hc, ht, huart ▸ hrest.idle⟩

/-- `alt_sys_init` starts the timer, and `main` the kernel. -/
theorem exists_start (S : Slave σ) (slave : σ) : ∃ ks b, Run (Step S) (powerUp slave) ks b ∧
    ks.map BoardClock.timer = [.init, .idle] ∧ b.osRunning = true ∧ b.clock.pc = .out ∧
      b.machine = .init slave ∧ b.uart.AtRest := by
  obtain ⟨k, b, hstep, hk, hstopped, hmachine, hclock, hrest⟩ :=
    exists_step_idle (S := S) (b := powerUp slave) (e := none) (a := .init) false ⟨rfl, rfl⟩
      (.nil _) (.of_eq rfl) (by simp) (fun _ ↦ rfl) (by simp) ⟨rfl, rfl⟩
      (fun h ↦ absurd h Bool.false_ne_true)
  have hpc : b.clock.pc = .out := by
    rw [hclock]
    rfl
  obtain ⟨k', b', hstep', hk', hrunning, hmachine', hclock', hrest'⟩ :=
    exists_step_idle (S := S) (e := none) (a := .idle) true hrest (.nil _) (.of_eq rfl)
      (by simp) (fun _ ↦ rfl) (fun _ ↦ by simp [hpc]) ⟨by simp [SystemClock.Permits, hpc], rfl⟩
      (by simp [hstopped, powerUp])
  refine ⟨[k, k'], b', run_cons_iff.2 ⟨b, hstep, run_cons_iff.2 ⟨b', hstep', .nil b'⟩⟩,
    by simp [hk, hk'], by rw [hrunning, Bool.or_true], ?_, hmachine'.trans hmachine, hrest'⟩
  rw [hclock']
  exact hpc

/-- The program takes steps that put out words for the DC driver at most, while the timer and the
UART are left alone. -/
theorem exists_run_of_events {es : List MachineEvent} {c : Machine σ}
    (hrunning : b.osRunning = true) (hpc : b.clock.pc = .out) (hrest : b.uart.AtRest)
    (hes : Run (fun c e c' ↦ Machine.Step S c e c' ∧ ∃ i, c.sys.log.Puts c'.sys.log [] i)
      b.machine es c)
    (hquiet : ∀ e ∈ es, e ≠ .tick ∧ ∀ byte, e ≠ .irq byte) :
    ∃ ks b', Run (Step S) b ks b' ∧ ks.map BoardClock.timer = List.replicate es.length .idle ∧
      b'.osRunning = true ∧ b'.clock.pc = .out ∧ b'.machine = c ∧ b'.uart.AtRest := by
  induction hes with
  | nil => exact ⟨[], b, .nil b, rfl, hrunning, hpc, rfl, hrest⟩
  | @snoc c es c' e _ hstep ih =>
    obtain ⟨ks, b', hrun, htimer, hrunning', hpc', rfl, hrest'⟩ :=
      ih fun e he ↦ hquiet e (List.mem_append_left _ he)
    obtain ⟨hmachine, i, hputs⟩ := hstep
    obtain ⟨htick, hirq⟩ := hquiet e (List.mem_append_right _ (List.mem_singleton_self e))
    obtain ⟨k, b'', hstep', hk, hosRunning, rfl, hclock, hrest''⟩ :=
      exists_step_idle (e := some e) (a := .idle) false hrest' (.snoc (.nil _) hmachine) hputs
        (by simpa using hirq) (by simp [hrunning']) (by simp)
        ⟨by simp [SystemClock.Permits, hpc'], rfl⟩ (by simp [htick])
    refine ⟨ks ++ [k], b'', hrun.snoc hstep', ?_, by rw [hosRunning, hrunning', Bool.true_or], ?_,
      rfl, hrest''⟩
    · rw [List.map_append, htimer, List.map_singleton, hk, List.length_append,
        List.length_singleton, List.replicate_succ']
    · rw [hclock]
      exact hpc'

end Board

end MappingRobot
