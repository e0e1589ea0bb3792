import MappingRobot.Board

/-!
# The reports on the line

What leaves the board by the Bluetooth line is the beginning of the reports of the iterations of
`task1`, whatever the interrupts, the clocks that the program takes and the accesses to the UART in
between: `sendTask` writes nothing else, `send` waits for the room, and the transmitter sends what
is written, in order and with nothing between the bytes. What is written last is on its way for 8707
clocks at most.
-/

namespace MappingRobot

open LabelledRun SerialLine

namespace Driver

variable {s : Driver}

/-- `send` finds room, when there is. -/
theorem AtRest.poll (h : s.AtRest) : (s.next .pollTrdy true).Permits .pollTrdy ∧
    ((s.next .pollTrdy true).next .pollTrdy true).waiting = none ∧
      ((s.next .pollTrdy true).next .pollTrdy true).trdy = true := by
  have hwaiting : (s.next .pollTrdy true).waiting = some .pollTrdy :=
    waiting_next_eq_some.2 ⟨h.waiting, by simp, rfl⟩
  have hbit : (s.next .pollTrdy true).uart.readdata &&& Uart.trdyMsk ≠ 0#16 :=
    (Uart.status_trdy s.uart).2 h.txReady
  generalize s.next .pollTrdy true = t at hwaiting hbit ⊢
  refine ⟨by simp [Permits, hwaiting], by simp [next, hwaiting], ?_⟩
  simpa [next, hwaiting] using hbit

end Driver

namespace Board

variable {σ : Type} {S : Slave σ} {b : Board σ} {ks : List BoardClock}

/-- **The reports on the line.** The bytes written are the beginning of the reports; the line so
far, with what is outgoing, carries them in order and nothing between them, and what is outgoing is
what the line takes next if no more is written. -/
theorem reports_of_board_run {slave : σ} (h : Run (Step S) (powerUp slave) ks b) :
    b.machine.sys.log.txData <+: reports S slave (b.machine.sys.log.stepper.length + 1) ∧
      b.uart.uart.tx.txOverrun = false ∧
      ∃ ws, Carries 435 2 b.machine.sys.log.txData (ks.map (fun k ↦ k.uart.txd) ++ ws) ∧
        ws.length ≤ 8707 ∧ ∀ ks' b', Run (Step S) b ks' b' →
          b'.machine.sys.log.txData = b.machine.sys.log.txData → ws.length ≤ ks'.length →
            ks'.map (fun k ↦ k.uart.txd) = ws ++ List.replicate (ks'.length - ws.length) true := by
  obtain ⟨_, s, -, hrun, hrefines⟩ := (machine_run h).simulates (refines_init slave)
    fun _ _ _ _ hrel hstep ↦ hrel.step hstep
  refine ⟨hrefines.txData_isPrefix (ranging_of_run hrun), ?_⟩
  obtain ⟨js, htx, hwritten, hline⟩ := Driver.exists_tx_run Driver.inv_reset (uart_run h)
  obtain ⟨hoverrun, ws, hcarries, hlength, hquiet⟩ := UartTx.carries_of_run (by decide) htx
  have htxData : b.machine.sys.log.txData = Driver.written (ks.map BoardClock.uart) := txData_eq h
  rw [hwritten, hline, ← htxData, List.map_map] at hcarries
  refine ⟨hoverrun, ws, hcarries, hlength, fun ks' b' hrun' hsame hle ↦ ?_⟩
  have hnone : Driver.written (ks'.map BoardClock.uart) = [] := by
    have htxData' := txData_eq hrun'
    rw [hsame] at htxData'
    exact List.self_eq_append_right.1 htxData'
  obtain ⟨js', htx', hwritten', hline'⟩ :=
    Driver.exists_tx_run (Driver.inv_of_run (uart_run h)) (uart_run hrun')
  have hlength' : js'.length = ks'.length := by
    simpa [UartTx.line] using congrArg List.length hline'
  have hrest := hquiet js' b'.uart.uart.tx htx' (hwritten'.trans hnone) (hlength' ▸ hle)
  rwa [hline', hlength', List.map_map] at hrest

/-- A clock of an access to the status. -/
theorem exists_step_poll (hpc : b.clock.pc = .out) (hpermits : b.uart.Permits .pollTrdy) :
    ∃ k b', Step S b k b' ∧ b'.osRunning = b.osRunning ∧ b'.machine = b.machine ∧
      b'.clock.pc = .out ∧ b'.uart = b.uart.next .pollTrdy true := by
  have hwrites : b.uart.writes .pollTrdy = [] := by
    cases hwaiting : b.uart.waiting <;> simp [Driver.writes, hwaiting]
  have hgets : b.uart.gets .pollTrdy = [] := by
    cases hwaiting : b.uart.waiting <;> simp [Driver.gets, hwaiting]
  have hputs : b.machine.sys.log.Puts b.machine.sys.log (b.uart.writes .pollTrdy)
      ⟨false, false, 0⟩ := by
    rw [hwrites]
    exact .of_eq rfl
  obtain ⟨k, b', hstep, -, hrunning, hmachine, hclock, huart⟩ :=
    exists_step (S := S) (e := none) (a := .idle) false .pollTrdy (.nil _) hputs (by simp)
      (fun _ ↦ rfl) (by simp) ⟨by simp [SystemClock.Permits, hpc], rfl⟩ (by simp) hpermits hgets
  refine ⟨k, b', hstep, by rw [hrunning, Bool.or_false], hmachine, ?_, huart⟩
  rw [hclock]
  exact hpc

/-- `send` polls `TRDY`, and writes a byte. -/
theorem exists_run_of_write {mallocOk : Bool} {byte : Byte} {c : Machine σ}
    (hrunning : b.osRunning = true) (hpc : b.clock.pc = .out) (hrest : b.uart.AtRest)
    (hstep : Machine.Step S b.machine (.cpu mallocOk) c)
    (hputs : b.machine.sys.log.Puts c.sys.log [byte] ⟨false, false, 0⟩) :
    ∃ ks b', Run (Step S) b ks b' ∧ b'.machine = c := by
  obtain ⟨hpermits, hwaiting, htrdy⟩ := hrest.poll
  obtain ⟨k₁, b₁, hstep₁, hrunning₁, hmachine₁, hpc₁, huart₁⟩ :=
    exists_step_poll (S := S) hpc (by simp [Driver.Permits, hrest.waiting])
  obtain ⟨k₂, b₂, hstep₂, hrunning₂, hmachine₂, hpc₂, huart₂⟩ :=
    exists_step_poll (S := S) hpc₁ (huart₁ ▸ hpermits)
  rw [huart₁] at huart₂
  rw [← huart₂] at hwaiting htrdy
  rw [← hmachine₁, ← hmachine₂] at hstep hputs
  have hbyte : b₂.uart.writes (.write byte) = [byte] := by simp [Driver.writes, hwaiting]
  obtain ⟨k₃, b₃, hstep₃, -, -, hmachine₃, -⟩ :=
    exists_step (e := some (.cpu mallocOk)) (a := .idle) false (.write byte)
      (.snoc (.nil _) hstep) (hbyte.symm ▸ hputs) (by simp)
      (by simp [hrunning₂, hrunning₁, hrunning]) (by simp)
      ⟨by simp [SystemClock.Permits, hpc₂], rfl⟩ (by simp)
      (by simp [Driver.Permits, hwaiting, htrdy]) (by simp [Driver.gets, hwaiting])
  exact ⟨[k₁, k₂, k₃], b₃, run_cons_iff.2 ⟨b₁, hstep₁, run_cons_iff.2 ⟨b₂, hstep₂,
    run_cons_iff.2 ⟨b₃, hstep₃, .nil b₃⟩⟩⟩, hmachine₃⟩

/-- The first byte of the first report. -/
theorem reports_of_board_run_first : ∃ ks b ws, Run (Step Slave.absent) (powerUp ()) ks b ∧
    b.machine.sys.log.txData = [startByte] ∧
      Carries 435 2 [startByte] (ks.map (fun k ↦ k.uart.txd) ++ ws) := by
  have heval : (((List.replicate 20 (.cpu true)).foldlM (checked (Machine.step Slave.absent)
      fun c e ↦ decide ((Machine.step Slave.absent c e).map (·.sys.log) = some c.sys.log ∨
        (Machine.step Slave.absent c e).map (·.sys.log) =
          some { c.sys.log with dcDriver := c.sys.log.dcDriver ++ [(.start, 0)] }))
      (.init ())).map fun c ↦
    decide (c.sys.log.txData = [] ∧ (Machine.step Slave.absent c (.cpu true)).map (·.sys.log) =
      some { c.sys.log with txData := c.sys.log.txData ++ [startByte] })) = some true := by
    decide +kernel
  obtain ⟨c, hc, hstate⟩ := Option.map_eq_some_iff.1 heval
  obtain ⟨hempty, hwrite⟩ := of_decide_eq_true hstate
  obtain ⟨c', hlast, hlog⟩ := Option.map_eq_some_iff.1 hwrite
  have hquiet : Run (fun c e c' ↦ Machine.Step Slave.absent c e c' ∧
      ∃ i, c.sys.log.Puts c'.sys.log [] i) (.init ()) (List.replicate 20 (.cpu true)) c := by
    refine (run_foldlM_iff.2 hc).mono fun c e c' hstep ↦ ?_
    obtain ⟨hlog, hstep⟩ := step_of_checked hstep
    have hputs : c'.sys.log = c.sys.log ∨
        c'.sys.log = { c.sys.log with dcDriver := c.sys.log.dcDriver ++ [(.start, 0)] } := by
      simpa [hstep] using hlog
    rcases hputs with hsame | hword
    · exact ⟨hstep, _, .of_eq hsame⟩
    · refine ⟨hstep, ⟨false, true, 0⟩, ?_, ?_, ?_⟩ <;> simp [hword, DcInput.word]
  obtain ⟨ks, b, hstart, -, hrunning, hpc, hmachine, hrest⟩ := exists_start Slave.absent ()
  rw [← hmachine] at hquiet
  obtain ⟨ks', b₀, hrun, -, hrunning₀, hpc₀, rfl, hrest₀⟩ :=
    exists_run_of_events hrunning hpc hrest hquiet (by simp)
  have hputs : b₀.machine.sys.log.Puts c'.sys.log [startByte] ⟨false, false, 0⟩ :=
    ⟨by rw [hlog], by simp [hlog, DcInput.word], by rw [hlog]⟩
  obtain ⟨ks'', b', hrun', rfl⟩ := exists_run_of_write hrunning₀ hpc₀ hrest₀ hlast hputs
  have hboard := (hstart.append hrun).append hrun'
  have hbytes : b'.machine.sys.log.txData = [startByte] := by
    rw [hlog, hempty]
    rfl
  obtain ⟨-, -, ws, hcarries, -⟩ := reports_of_board_run hboard
  exact ⟨_, b', ws, hboard, hbytes, hbytes ▸ hcarries⟩

end Board

end MappingRobot
