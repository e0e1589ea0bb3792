import MappingRobot.Board

/-!
# The dead-man stop on the board

`task2` waits for a packet for `BT_CMD_TIMEOUT` ticks, and a tick is 50000 clocks. From a wait with
`n` ticks to go, as long as no packet is posted, it waits on for `n - 3` times 50000 clocks,
whatever else happens; and if no timeout of the timer has been missed, after `n + 2` times 50000
clocks its wait has timed out with the stop as its next word, or both motors have braked
(`deadMan_of_board_run`). At 50 MHz that is a second, give or take three milliseconds.

What can be missing or too many are the round that has begun and the ticks that are pending, at both
ends of the wait (`SystemClock.ticks_bounds`).
-/

namespace MappingRobot

open LabelledRun Kernel

namespace Board

variable {σ : Type} {S : Slave σ} {b b' : Board σ} {ks : List BoardClock} {n : ℕ}

/-- Some clock ends with both motors braking. -/
def Brakes (S : Slave σ) (b : Board σ) (ks : List BoardClock) : Prop :=
  ∃ pre post b', ks = pre ++ post ∧ Run (Step S) b pre b' ∧ b'.dcDriver.motora = .brake ∧
    b'.dcDriver.motorb = .brake

/-- The stop reaches the motors. -/
theorem brakes_of_stoppedSince {s : Sys σ} (h : Run (Step S) b ks b')
    (hrefines : Refines b'.machine s) (hstopped : s.StoppedSince b.machine.sys.log.dcDriver) :
    Brakes S b ks := by
  obtain ⟨l, hl, hmem⟩ := hstopped
  have hwords := dcWords_eq h
  rw [← hrefines.log_eq, hl, List.map_append] at hwords
  have hzero : 0 ∈ ks.flatMap fun k ↦ k.dcDriver.word.toList := by
    rw [← List.append_cancel_left hwords]
    exact List.mem_map_of_mem hmem
  obtain ⟨k, hk, hword⟩ := List.mem_flatMap.1 hzero
  obtain ⟨pre, post, rfl⟩ := List.append_of_mem hk
  obtain ⟨c, hpre, hpost⟩ := run_append_iff.1 h
  obtain ⟨c', hstep, -⟩ := run_cons_iff.1 hpost
  have hwrite : k.dcDriver.write = true ∧ k.dcDriver.writedata = 0 := by
    simpa [DcInput.word] using hword
  refine ⟨pre ++ [k], post, c', by simp, hpre.snoc hstep, ?_, ?_⟩ <;> rw [← hstep.dcDriver] <;>
    simp [DcDriver.clockEdge, hwrite] <;> rfl

/-- **The dead-man stop on the board.** -/
theorem deadMan_of_board_run {slave : σ} {ks' : List BoardClock}
    (hbefore : Run (Step S) (powerUp slave) ks b)
    (hasleep : Asleep b.machine.kernel Task.task2.prio (some .receiveQueue) n) (hn : n ≠ 0)
    (hrun : Run (Step S) b ks' b')
    (hposted : b'.machine.sys.log.posted = b.machine.sys.log.posted) :
    ∃ s, Refines b'.machine s ∧
      (ks'.length < 50000 * (n - 3) → s.receiveQueue.task = .waiting) ∧
      (SystemClock.reset.missed ((ks ++ ks').map BoardClock.timer) = 0 →
        50000 * (n + 2) ≤ ks'.length → s.Overdue ∨ Brakes S b ks') := by
  obtain ⟨hidle, -, hstarted⟩ := started_of_run hbefore
  have hrunning : b.osRunning = true := by
    by_contra hrunning
    have hdly := hasleep.dly
    rw [hidle (by simpa using hrunning)] at hdly
    exact hn hdly.symm
  obtain ⟨-, s₀, -, -, h₀⟩ := (machine_run hbefore).simulates (refines_init slave)
    fun _ _ _ _ hrel hstep ↦ hrel.step hstep
  obtain ⟨s, h, -, hs⟩ := h₀.run_asleep hasleep hn (machine_run hrun)
  obtain ⟨hwaiting, hover⟩ := hs hposted
  obtain ⟨hle, hge⟩ :=
    SystemClock.ticks_bounds (clock_run hbefore) (hstarted hrunning) (clock_run hrun)
  rw [← (ticks_eq hrun hrunning).2, List.length_map] at hle hge
  refine ⟨s, h, fun hlt ↦ ?_, fun hmissed hlength ↦ ?_⟩
  · have hticks : ticks (events ks') < n := by omega
    exact h.waiting (hwaiting hticks) (by omega)
  · rw [List.map_append] at hmissed
    have hticks := hge hmissed
    refine (hover (by omega)).imp id fun hstopped ↦ brakes_of_stoppedSince hrun h hstopped

/-! ### A second without a packet -/

/-- In an interrupt the processor serves the timer. -/
theorem exists_run_of_clock (hrunning : b.osRunning = true) (hrest : b.uart.AtRest)
    {as : List TimerAccess} {t : SystemClock} (has : Run SystemClock.Step b.clock as t)
    (hint : b.machine.kernel.osIntNesting ≠ 0#8) (hdef : b.machine.sys.undefined = false) :
    ∃ ks b', Run (Step S) b ks b' ∧ ks.map BoardClock.timer = as ∧ b'.osRunning = true ∧
      b'.uart.AtRest ∧ b'.clock = t ∧ b'.machine.kernel.osIntNesting ≠ 0#8 ∧
      b'.machine.sys = b.machine.sys := by
  induction has with
  | nil => exact ⟨[], b, .nil b, rfl, hrunning, hrest, rfl, hint, rfl⟩
  | @snoc t u as a has hstep ih =>
    obtain ⟨ks, b', hrun, htimer, hrunning', hrest', rfl, hint', hsys⟩ := ih
    obtain ⟨e, c, hmachine, hirq, htick, hsys', hint''⟩ :
        ∃ (e : Option MachineEvent) (c : Machine σ),
          Run (Machine.Step S) b'.machine e.toList c ∧ (∀ byte, e ≠ some (.irq byte)) ∧
            (a = .tick ↔ e = some .tick) ∧ c.sys = b'.machine.sys ∧
            c.kernel.osIntNesting ≠ 0#8 := by
      by_cases ha : a = .tick
      · refine ⟨some .tick, { b'.machine with kernel := b'.machine.kernel.osTimeTick }, ?_, by simp,
          by simp [ha], rfl, ?_⟩
        · refine .snoc (.nil _) ?_
          simp [Machine.Step, Machine.step, hint', hsys, hdef]
        · rwa [(osTimeTick_frame b'.machine.kernel).2.2.1]
      · exact ⟨none, b'.machine, .nil _, by simp, by simp [ha], rfl, hint'⟩
    obtain ⟨k, b'', hstep', hk, hosRunning, rfl, rfl, hrest''⟩ :=
      exists_step_idle false hrest' hmachine (.of_eq (by rw [hsys'])) hirq (by simp [hrunning'])
        (by simp) hstep fun _ ↦ htick
    refine ⟨ks ++ [k], b'', hrun.snoc hstep', ?_, ?_, hrest'', rfl, hint'', hsys'.trans hsys⟩
    · rw [List.map_append, htimer, List.map_singleton, hk]
    · rw [hosRunning, hrunning', Bool.true_or]

/-- The timer and then the kernel are started, and the program gets to its first interrupt. -/
theorem exists_firstInterrupt : ∃ ks b, Run (Step Slave.absent) (powerUp ()) ks b ∧
    ks.map BoardClock.timer = .init :: List.replicate 8 .idle ∧ b.osRunning = true ∧
      b.clock.pc = .out ∧ b.uart.AtRest ∧
      Asleep b.machine.kernel Task.task2.prio (some .receiveQueue) btCmdTimeout ∧
      b.machine.kernel.osIntNesting ≠ 0#8 ∧ b.machine.sys.undefined = false := by
  have heval : ((firstInterrupt.foldlM (checked (Machine.step Slave.absent) fun c e ↦
      decide ((Machine.step Slave.absent c e).map (·.sys.log) = some c.sys.log))
      (.init ())).map fun c ↦
    decide ((c.kernel.tcb Task.task2.prio).osTCBDly.toNat = btCmdTimeout ∧
      (c.kernel.call Task.task2.prio).queue = some .receiveQueue ∧
      Task.task2.prio ≠ c.kernel.osPrioCur ∧ c.kernel.osIntNesting ≠ 0#8 ∧
      c.sys.undefined = false)) = some true := by
    decide +kernel
  obtain ⟨c, hc, hstate⟩ := Option.map_eq_some_iff.1 heval
  obtain ⟨hdly, hqueue, hcur, hint, hdef⟩ := of_decide_eq_true hstate
  have hquiet : Run (fun c e c' ↦ Machine.Step Slave.absent c e c' ∧
      ∃ i, c.sys.log.Puts c'.sys.log [] i) (.init ()) firstInterrupt c := by
    refine (run_foldlM_iff.2 hc).mono fun c e c' hstep ↦ ?_
    obtain ⟨hlog, hstep⟩ := step_of_checked hstep
    have hsame : c'.sys.log = c.sys.log := by simpa [hstep] using hlog
    exact ⟨hstep, _, Log.Puts.of_eq hsame⟩
  obtain ⟨ks, b, hstart, htimer, hrunning, hpc, hmachine, hrest⟩ := exists_start Slave.absent ()
  rw [← hmachine] at hquiet
  obtain ⟨ks', b', hrun, htimer', hrunning', hpc', rfl, hrest'⟩ :=
    exists_run_of_events hrunning hpc hrest hquiet (by simp [firstInterrupt])
  refine ⟨ks ++ ks', b', hstart.append hrun, ?_, hrunning', hpc', hrest',
    ⟨hdly, Or.inl (by decide), hqueue, Or.inl hcur⟩, hint, hdef⟩
  rw [List.map_append, htimer, htimer']
  rfl

/-- A second in an interrupt, in which the processor does nothing but serve the timer. -/
theorem deadMan_of_board_run_firstInterrupt : ∃ ks b ks' b' s,
    Run (Step Slave.absent) (powerUp ()) ks b ∧ Run (Step Slave.absent) b ks' b' ∧
      ks'.length = 50000 * (btCmdTimeout + 2) ∧ Refines b'.machine s ∧
      (s.Overdue ∨ Brakes Slave.absent b ks') := by
  obtain ⟨ks, b, hbefore, htimer, hrunning, hpc, hrest, hasleep, hint, hdef⟩ :=
    exists_firstInterrupt
  have hclock : Run SystemClock.Step .reset (.init :: List.replicate 8 .idle) b.clock :=
    htimer ▸ clock_run hbefore
  obtain ⟨t, hinit, hidle⟩ := run_cons_iff.1 hclock
  obtain rfl := hinit.next
  obtain ⟨hstarted, haccount⟩ := SystemClock.started_init.account hidle
  have hzero : (SystemClock.reset.next .init).pending = 0 := rfl
  rw [hzero, List.length_replicate] at haccount
  obtain ⟨t, hrounds, -, -, -, hmissed⟩ :=
    hstarted.exists_rounds hpc (by omega) (by simp) (by simp) (btCmdTimeout + 2)
  obtain ⟨ks', b', hrun, htimer', -, -, -, -, hsys⟩ :=
    exists_run_of_clock hrunning hrest hrounds hint hdef
  have hlength : ks'.length = 50000 * (btCmdTimeout + 2) := by
    rw [← List.length_map BoardClock.timer, htimer', SystemClock.length_rounds]
  have hnone : SystemClock.reset.missed ((ks ++ ks').map BoardClock.timer) = 0 := by
    rw [List.map_append, htimer, htimer', SystemClock.missed_append hclock, hmissed,
      SystemClock.missed, show SystemClock.reset.misses = false from rfl]
    simp only [Bool.toNat_false]
    omega
  obtain ⟨s, hs, -, hover⟩ := deadMan_of_board_run hbefore hasleep (by decide) hrun (by rw [hsys])
  exact ⟨ks, b, ks', b', s, hbefore, hrun, hlength, hs, hover hnone hlength.ge⟩

end Board

end MappingRobot
