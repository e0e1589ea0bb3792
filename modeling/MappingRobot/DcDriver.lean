import MappingRobot.Kernel.DeadMan

/-!
# The DC driver

`dc_driver.vhd`: an Avalon slave that latches a state for each motor from the lowest four bits of the
last word written, and puts it on the inputs of the bridge. The upper half of the word that is read
back counts the writes. The address is not looked at, and the enables of the bridge are tied to 1.

`main.c` calls clockwise what the driver calls counterclockwise, for both motors alike. What matters
to the robot is kept: it goes forward and back with both motors in one direction, and turns with
them in opposite ones. `motors_of_machine_run` says that of every word that the program writes.
-/

namespace MappingRobot

open LabelledRun

/-- `MOTOR_STATE` -/
inductive MotorState
  | cw
  | ccw
  | brake
deriving DecidableEq

/-- The state that two bits of a word stand for. -/
def MotorState.ofBits (bits : BitVec 2) : MotorState :=
  match bits with
  | 0b11#2 => .cw
  | 0b10#2 => .ccw
  | _ => .brake

/-- The two inputs of a bridge, `in1` and `in2`. -/
def MotorState.output : MotorState → Bool × Bool
  | .cw => (false, true)
  | .ccw => (true, false)
  | .brake => (false, false)

/-- The registers of the DC driver. `readdata` has no value before the first read. -/
structure DcDriver where
  /-- `count` -/
  count : BitVec 32
  /-- `motora` -/
  motora : MotorState
  /-- `motorb` -/
  motorb : MotorState
  /-- `readdata` -/
  readdata : Option (BitVec 32)
deriving DecidableEq

/-- The Avalon inputs on one clock edge. -/
structure DcInput where
  read : Bool
  write : Bool
  writedata : BitVec 32

/-- The word written on a clock edge. -/
def DcInput.word (i : DcInput) : Option (BitVec 32) :=
  if i.write then some i.writedata else none

/-- The outputs to the bridge. -/
structure DcOutput where
  cPwma : Bool
  cPwmb : Bool
  cAin1 : Bool
  cAin2 : Bool
  cBin1 : Bool
  cBin2 : Bool
  cStby : Bool
deriving DecidableEq

namespace DcDriver

/-- The power-up values of the signals. -/
def powerUp : DcDriver where
  count := 0x22348765
  motora := .brake
  motorb := .brake
  readdata := none

/-- One rising clock edge. -/
def clockEdge (d : DcDriver) (i : DcInput) : DcDriver where
  count :=
    if i.write then (d.count.extractLsb' 16 16 + 1) ++ d.count.extractLsb' 0 16 else d.count
  motora := if i.write then .ofBits (i.writedata.extractLsb' 0 2) else d.motora
  motorb := if i.write then .ofBits (i.writedata.extractLsb' 2 2) else d.motorb
  readdata := if i.read then some d.count else d.readdata

/-- The outputs, which follow the motor states. -/
def output (d : DcDriver) : DcOutput where
  cPwma := true
  cPwmb := true
  cAin1 := d.motora.output.1
  cAin2 := d.motora.output.2
  cBin1 := d.motorb.output.1
  cBin2 := d.motorb.output.2
  cStby := true

/-- A sequence of clock edges. -/
def run (d : DcDriver) (inputs : List DcInput) : DcDriver :=
  inputs.foldl clockEdge d

/-- The states of the motors that a word stands for. -/
def states (word : BitVec 32) : MotorState × MotorState :=
  (.ofBits (word.extractLsb' 0 2), .ofBits (word.extractLsb' 2 2))

@[simp]
theorem run_concat (d : DcDriver) (inputs : List DcInput) (i : DcInput) :
    d.run (inputs ++ [i]) = (d.run inputs).clockEdge i := by
  simp [run]

/-- The motors follow the last word. -/
theorem motors_run (d : DcDriver) (inputs : List DcInput) :
    ((d.run inputs).motora, (d.run inputs).motorb) =
      ((inputs.filterMap DcInput.word).getLast?).elim (d.motora, d.motorb) states := by
  induction inputs using List.reverseRecOn with
  | nil => rfl
  | append_singleton inputs i ih =>
    rw [run_concat, List.filterMap_append]
    cases hwrite : i.write with
    | false => simpa [clockEdge, DcInput.word, hwrite] using ih
    | true => simp [clockEdge, DcInput.word, hwrite, states]

/-- The upper half of the count is of the words written. -/
theorem count_run (inputs : List DcInput) :
    (powerUp.run inputs).count =
      BitVec.ofNat 16 (0x2234 + (inputs.filterMap DcInput.word).length) ++ 0x8765#16 := by
  induction inputs using List.reverseRecOn with
  | nil => rfl
  | append_singleton inputs i ih =>
    rw [run_concat, List.filterMap_append]
    cases hwrite : i.write with
    | false => simpa [clockEdge, DcInput.word, hwrite] using ih
    | true =>
      simp only [clockEdge, hwrite, ih, BitVec.extractLsb'_append_eq_left,
        BitVec.extractLsb'_append_eq_right, if_true]
      simp [DcInput.word, hwrite, ← Nat.add_assoc, BitVec.ofNat_add]

end DcDriver

/-! ### The words of the program -/

/-- What is written to the DC driver for a cause. -/
def Cause.Writes : Cause → BitVec 32 → Prop
  | .command, word => ∃ c, motorWord c = some word
  | .start, word => word = 0
  | .timeout, word => word = 0

variable {σ : Type} {S : Slave σ} {s t : Sys σ} {e : Event}

/-- Every word has been written for a cause. -/
def Sys.SoundWords (s : Sys σ) : Prop :=
  ∀ w ∈ s.log.dcDriver, w.1.Writes w.2

theorem Sys.SoundWords.of_eq (h : s.SoundWords) (heq : t.log.dcDriver = s.log.dcDriver) :
    t.SoundWords := by
  unfold Sys.SoundWords
  rwa [heq]

/-- `handle_bluetooth_input` writes the word of the letter, if it is one. -/
theorem Sys.SoundWords.handle (h : s.SoundWords) {cause : Cause} {c : Byte}
    (hcause : ∀ word, motorWord c = some word → cause.Writes word) :
    (s.handleBluetoothInput cause c).SoundWords := by
  intro w hw
  simp only [Sys.handleBluetoothInput, handleBluetoothInput_snd, List.mem_append, List.mem_map,
    Option.mem_toList] at hw
  rcases hw with hw | ⟨word, hword, rfl⟩
  · exact h w hw
  · exact hcause word hword

theorem task2Step_soundWords {pc : Task2Pc} (h : s.SoundWords) (hstep : task2Step s pc = some t) :
    t.SoundWords := by
  cases pc with
  | handle p i =>
    obtain ⟨slice, -, hstep⟩ := Option.bind_eq_some_iff.1 hstep
    split_ifs at hstep
    · obtain ⟨c, -, hstep⟩ := Option.bind_eq_some_iff.1 hstep
      obtain rfl := Option.some.inj hstep
      have hcommand : (s.handleBluetoothInput .command c).SoundWords :=
        h.handle fun word hword ↦ ⟨c, hword⟩
      exact hcommand.of_eq rfl
    · obtain rfl := Option.some.inj hstep
      exact h.of_eq rfl
  | timedOut =>
    obtain rfl := Option.some.inj hstep
    have hstop : (s.handleBluetoothInput .timeout btCmdStop).SoundWords :=
      h.handle fun word hword ↦ (Option.some.inj (motorWord_btCmdStop.symm.trans hword)).symm
    exact hstop.of_eq rfl
  | got p =>
    obtain ⟨slice, -, hstep⟩ := Option.bind_eq_some_iff.1 hstep
    split_ifs at hstep
    · obtain ⟨first, -, hstep⟩ := Option.bind_eq_some_iff.1 hstep
      obtain rfl := Option.some.inj hstep
      exact h.of_eq rfl
    · obtain rfl := Option.some.inj hstep
      exact h.of_eq rfl
  | freeData p | freeBuf p =>
    obtain ⟨heap, -, hstep⟩ := Option.bind_eq_some_iff.1 hstep
    obtain rfl := Option.some.inj hstep
    exact h.of_eq rfl
  | pend =>
    obtain rfl := Option.some.inj hstep
    exact h.of_eq rfl

theorem task1Step_soundWords {mallocOk : Bool} {pc : Task1Pc} (h : s.SoundWords)
    (hstep : task1Step S mallocOk s pc = some t) : t.SoundWords := by
  by_cases hstart : pc = .start
  · subst hstart
    obtain rfl := Option.some.inj hstep
    intro w hw
    rcases List.mem_append.1 hw with hw | hw
    · exact h w hw
    · obtain rfl := List.mem_singleton.1 hw
      rfl
  · exact h.of_eq (task1Step_dcDriver hstart hstep)

theorem Step.soundWords (hstep : Step S s e t) (h : s.SoundWords) : t.SoundWords := by
  have hundefined : Sys.SoundWords { s with undefined := true } := h.of_eq rfl
  cases e with
  | irq byte =>
    rw [hstep.irq]
    unfold bluetoothIrq
    split_ifs <;> exact h.of_eq rfl
  | receiveTask mallocOk =>
    rcases hstep.receiveTask with ⟨m, -, rfl⟩ | ⟨pc, -, rfl⟩
    · exact h.of_eq rfl
    · refine Sys.of_orUndefined hundefined fun t ht ↦ h.of_eq ?_
      rw [(receiveTaskStep_frame ht).1]
  | sendTask =>
    rcases hstep.sendTask with ⟨p, -, rfl⟩ | ⟨pc, -, rfl⟩
    · exact h.of_eq rfl
    · refine Sys.of_orUndefined hundefined fun t ht ↦ h.of_eq ?_
      rw [sendTaskStep_frame ht]
  | task2 =>
    rcases hstep.task2 with ⟨-, rfl⟩ | ⟨p, -, rfl⟩ | ⟨pc, -, rfl⟩
    · exact h.of_eq rfl
    · exact h.of_eq rfl
    · exact Sys.of_orUndefined hundefined fun _ ↦ task2Step_soundWords h
  | task1 mallocOk =>
    rw [hstep.task1.2]
    exact Sys.of_orUndefined hundefined fun _ ↦ task1Step_soundWords h
  | timeout =>
    rw [hstep.timeout.2]
    exact h.of_eq rfl
  | wake =>
    rw [hstep.wake.2]
    exact h.of_eq rfl

theorem soundWords_of_run {slave : σ} {events : List Event}
    (h : Run (Step S) (.init slave) events s) : s.SoundWords :=
  h.invariant (fun _ hw ↦ absurd hw List.not_mem_nil) fun _ _ _ hs hstep ↦ hstep.soundWords hs

/-! ### The motors -/

/-- The states of the motors for a command letter, in either case. -/
def steering (c : Byte) : Option (MotorState × MotorState) :=
  if c ||| 0x20 = btCmdForward then some (.ccw, .ccw)
  else if c ||| 0x20 = btCmdBackward then some (.cw, .cw)
  else if c ||| 0x20 = btCmdLeft then some (.ccw, .cw)
  else if c ||| 0x20 = btCmdRight then some (.cw, .ccw)
  else if c ||| 0x20 = btCmdStop then some (.brake, .brake)
  else none

/-- The driver decodes the word of a letter. -/
theorem map_states_motorWord (c : Byte) : (motorWord c).map DcDriver.states = steering c := by
  unfold motorWord steering
  split_ifs <;> rfl

/-- Both motors turn or both brake. -/
theorem brake_iff_of_steering {c : Byte} {motors : MotorState × MotorState}
    (h : steering c = some motors) : motors.1 = .brake ↔ motors.2 = .brake := by
  unfold steering at h
  split_ifs at h <;> obtain rfl := Option.some.inj h <;> decide

/-- **The motors do what the program says.** In every run of the program on the kernel, under any
interrupts and for any timing of the bus, the motors are in the states of the last letter handled,
or brake if they have been stopped since; so both turn or both brake; and the words can be counted
at the driver. -/
theorem motors_of_machine_run {slave : σ} {es : List MachineEvent} {c : Machine σ}
    {inputs : List DcInput} (h : Run (Machine.Step S) (.init slave) es c)
    (hwords : inputs.filterMap DcInput.word = c.sys.log.dcDriver.map Prod.snd) :
    let d := DcDriver.powerUp.run inputs
    (∀ word, c.sys.log.dcDriver.getLast? = some (.command, word) →
      ∃ letter, motorWord letter = some word ∧ steering letter = some (d.motora, d.motorb)) ∧
      ((∀ word, c.sys.log.dcDriver.getLast? ≠ some (.command, word)) →
        d.motora = .brake ∧ d.motorb = .brake) ∧
      (d.motora = .brake ↔ d.motorb = .brake) ∧
      d.count.extractLsb' 16 16 = BitVec.ofNat 16 (0x2234 + c.sys.log.dcDriver.length) := by
  intro d
  obtain ⟨_, s, -, hrun, hrefines⟩ := h.simulates (refines_init slave)
    fun _ _ _ _ hrel hstep ↦ hrel.step hstep
  have hsound := soundWords_of_run (hrun.mono fun _ _ _ hstep ↦ hstep.1)
  rw [Sys.SoundWords, hrefines.log_eq] at hsound
  have hmotors : (d.motora, d.motorb) =
      ((c.sys.log.dcDriver.map Prod.snd).getLast?).elim (.brake, .brake) DcDriver.states := by
    rw [← hwords]
    exact DcDriver.motors_run .powerUp inputs
  have hcount : d.count.extractLsb' 16 16 =
      BitVec.ofNat 16 (0x2234 + c.sys.log.dcDriver.length) := by
    rw [DcDriver.count_run, hwords, List.length_map, BitVec.extractLsb'_append_eq_left]
  rw [List.getLast?_map] at hmotors
  have hcommand : ∀ word, c.sys.log.dcDriver.getLast? = some (.command, word) →
      ∃ letter, motorWord letter = some word ∧ steering letter = some (d.motora, d.motorb) := by
    intro word hlast
    obtain ⟨letter, hletter⟩ : ∃ letter, motorWord letter = some word :=
      hsound _ (List.mem_of_getLast? hlast)
    refine ⟨letter, hletter, ?_⟩
    rw [← map_states_motorWord, hletter, hmotors, hlast]
    rfl
  have hstopped : (∀ word, c.sys.log.dcDriver.getLast? ≠ some (.command, word)) →
      (d.motora, d.motorb) = (.brake, .brake) := by
    intro hne
    cases hlast : c.sys.log.dcDriver.getLast? with
    | none => simpa [hlast] using hmotors
    | some w =>
      obtain ⟨cause, word⟩ := w
      have hwrites : cause.Writes word := hsound _ (List.mem_of_getLast? hlast)
      rw [hmotors, hlast]
      cases cause with
      | command => exact absurd hlast (hne word)
      | start | timeout =>
        obtain rfl : word = 0 := hwrites
        decide
  refine ⟨hcommand, fun hne ↦ Prod.mk.inj (hstopped hne), ?_, hcount⟩
  by_cases hlast : ∃ word, c.sys.log.dcDriver.getLast? = some (.command, word)
  · obtain ⟨word, hlast⟩ := hlast
    obtain ⟨letter, -, hsteering⟩ := hcommand word hlast
    exact brake_iff_of_steering hsteering
  · obtain ⟨ha, hb⟩ := Prod.mk.inj (hstopped fun word hword ↦ hlast ⟨word, hword⟩)
    rw [ha, hb]

/-- A frame with the letter for forward, byte by byte. -/
def forwardBytes : List MachineEvent :=
  List.replicate 7 (.cpu true) ++ [.intEnter, .irq startByte, .intExit] ++
    List.replicate 5 (.cpu true) ++ [.intEnter, .irq btCmdForward, .intExit] ++
    List.replicate 5 (.cpu true) ++ [.intEnter, .irq endByte, .intExit] ++
    List.replicate 18 (.cpu true)

theorem motors_of_machine_run_forward : ∃ c inputs,
    Run (Machine.Step Slave.absent) (.init ()) forwardBytes c ∧
      (DcDriver.powerUp.run inputs).motora = .ccw ∧
      (DcDriver.powerUp.run inputs).motorb = .ccw := by
  have heval : ((forwardBytes.foldlM (Machine.step Slave.absent) (.init ())).map fun c ↦
      c.sys.log.dcDriver) = some [(.start, 0), (.command, 0xA)] := by
    decide +kernel
  obtain ⟨c, hc, hlog⟩ := Option.map_eq_some_iff.1 heval
  have hrun := run_foldlM_iff.2 hc
  have hwords : [⟨false, true, 0⟩, ⟨true, true, 0xA⟩].filterMap DcInput.word =
      c.sys.log.dcDriver.map Prod.snd := by
    rw [hlog]
    rfl
  obtain ⟨hcommand, -⟩ := motors_of_machine_run hrun hwords
  obtain ⟨letter, hletter, hsteering⟩ := hcommand 0xA (by rw [hlog]; rfl)
  rw [← map_states_motorWord, hletter] at hsteering
  obtain ⟨ha, hb⟩ := Prod.mk.inj (Option.some.inj hsteering)
  exact ⟨c, _, hrun, ha.symm, hb.symm⟩

end MappingRobot
