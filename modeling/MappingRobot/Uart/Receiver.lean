import MappingRobot.Library.ClockDivider
import MappingRobot.Library.SerialLine
import MappingRobot.Library.Transducer

/-!
# The receiver of the UART

`niosII_system_uart_bluetooth_rx`, from the synchronised line `sync_rxd` on: it samples the line
every `baud_divisor + 1` clocks, and every edge of the line puts the next sample off to half of that
after it. A falling edge at rest fills the shift register with ones; its lowest bit says that a
character is on the way, and has become the start bit when the stop bit has been sampled. The two
registers that delay `sync_rxd`, for the edges and for the falling edges, are one here.

What the source computes from a signal is found cell by cell. A cell of the line is sampled once,
and the moment of it drifts from cell to cell without an edge, by as much as the cells are too long
or too short: `Middle` says by how much at most. So the receiver reads every line whose cells are
near enough to its own (`arrivals_of_carries`).
-/

namespace MappingRobot

open ClockDivider LabelledRun SerialLine

/-- The registers of the receiver. -/
structure UartRx where
  /-- `baud_clk_en` -/
  baudClkEn : Bool
  /-- `baud_rate_counter` -/
  baudRateCounter : BitVec 9
  /-- `break_detect` -/
  breakDetect : Bool
  /-- `delayed_unxrx_in_processxx3` -/
  delayedRxInProcess : Bool
  /-- `delayed_unxsync_rxdxx1` and `delayed_unxsync_rxdxx2` -/
  delayedSyncRxd : Bool
  /-- `do_start_rx` -/
  doStartRx : Bool
  /-- `framing_error` -/
  framingError : Bool
  /-- `rx_char_ready` -/
  rxCharReady : Bool
  /-- `rx_data` -/
  rxData : BitVec 8
  /-- `rx_overrun` -/
  rxOverrun : Bool
  /-- `rxd_shift_reg` -/
  rxdShiftReg : BitVec 10
deriving DecidableEq

/-- The line and what the receiver is asked in one clock. -/
structure UartRxInput where
  /-- `begintransfer` -/
  begintransfer : Bool
  /-- `rx_rd_strobe` -/
  rxRdStrobe : Bool
  /-- `status_wr_strobe` -/
  statusWrStrobe : Bool
  /-- `sync_rxd` -/
  syncRxd : Bool
deriving DecidableEq

/-- `rx_rd_strobe_onset` -/
def UartRxInput.rxRdStrobeOnset (i : UartRxInput) : Bool :=
  i.rxRdStrobe && i.begintransfer

/-- A bit comes into the shift register at the top. -/
def shiftIn (c : Bool) (reg : BitVec 10) : BitVec 10 :=
  BitVec.cons c (reg.extractLsb' 1 9)

theorem getLsbD_shiftIn (c : Bool) (reg : BitVec 10) (j : ℕ) :
    (shiftIn c reg).getLsbD j = if j = 9 then c else reg.getLsbD (j + 1) := by
  rw [shiftIn, BitVec.getLsbD_cons]
  split_ifs with hj
  · rfl
  · rw [BitVec.getLsbD_extractLsb', Nat.add_comm]
    rcases Nat.lt_or_gt_of_ne hj with hlt | hgt
    · simp [hlt]
    · rw [BitVec.getLsbD_of_ge reg (j + 1) (by omega), Bool.and_false]

/-- What some samples leave in the shift register. -/
def shiftedIn (cs : List Bool) : BitVec 10 :=
  cs.foldl (fun reg c ↦ shiftIn c reg) (BitVec.allOnes 10)

theorem shiftedIn_snoc (cs : List Bool) (c : Bool) :
    shiftedIn (cs ++ [c]) = shiftIn c (shiftedIn cs) := by
  simp [shiftedIn]

/-- The samples stand at the top, and the ones that are left below them. -/
theorem getLsbD_shiftedIn (cs : List Bool) (j : ℕ) :
    (shiftedIn cs).getLsbD j =
      if j + cs.length < 10 then true else cs.getD (j + cs.length - 10) false := by
  induction cs using List.reverseRecOn generalizing j with
  | nil =>
    rw [shiftedIn, List.foldl_nil, BitVec.getLsbD_allOnes]
    simp
  | append_singleton cs c ih =>
    rw [shiftedIn_snoc, getLsbD_shiftIn, ih, List.length_append, List.length_singleton]
    simp only [List.getD_eq_getElem?_getD]
    rcases Nat.lt_trichotomy j 9 with hlt | rfl | hgt
    · rw [if_neg hlt.ne, Nat.add_right_comm, Nat.add_assoc]
      split_ifs with h
      · rfl
      · rw [List.getElem?_append_left (by omega)]
    · rw [if_pos rfl, if_neg (by omega), show 9 + (cs.length + 1) - 10 = cs.length by omega,
        List.getElem?_concat_length, Option.getD_some]
    · rw [if_neg hgt.ne', if_neg (by omega), if_neg (by omega),
        List.getElem?_eq_none (by omega), List.getElem?_eq_none (by simp; omega)]

namespace UartRx

/-- `reset_n` -/
def reset : UartRx where
  baudClkEn := false
  baudRateCounter := 0#9
  breakDetect := false
  delayedRxInProcess := false
  delayedSyncRxd := false
  doStartRx := false
  framingError := false
  rxCharReady := false
  rxData := 0#8
  rxOverrun := false
  rxdShiftReg := 0#10

/-- `rx_in_process` -/
def rxInProcess (r : UartRx) : Bool :=
  r.rxdShiftReg.getLsbD 0

/-- `got_new_char` -/
def gotNewChar (r : UartRx) : Bool :=
  !r.rxInProcess && r.delayedRxInProcess

/-- `raw_data_in` -/
def rawDataIn (r : UartRx) : BitVec 8 :=
  r.rxdShiftReg.extractLsb' 1 8

/-- `stop_bit` -/
def stopBit (r : UartRx) : Bool :=
  r.rxdShiftReg.getLsbD 9

/-- `is_break` -/
def isBreak (r : UartRx) : Bool :=
  r.rxdShiftReg == 0#10

/-- `is_framing_error` -/
def isFramingError (r : UartRx) : Bool :=
  !r.stopBit && !r.isBreak

/-- `rxd_edge` -/
def rxdEdge (r : UartRx) (syncRxd : Bool) : Bool :=
  syncRxd != r.delayedSyncRxd

/-- `rxd_falling` -/
def rxdFalling (r : UartRx) (syncRxd : Bool) : Bool :=
  !syncRxd && r.delayedSyncRxd

/-- `baud_load_value`, with `half_bit_cell_divisor` after an edge. -/
def baudLoadValue (D : BitVec 9) (edge : Bool) : BitVec 9 :=
  if edge then (D.extractLsb' 1 8).setWidth 9 else D

/-- `sample_enable` -/
def sampleEnable (r : UartRx) : Bool :=
  r.baudClkEn && r.rxInProcess

/-- One rising clock edge, with the divisor `D`. -/
def clockEdge (D : BitVec 9) (r : UartRx) (i : UartRxInput) : UartRx where
  baudClkEn := if r.rxdEdge i.syncRxd then false else r.baudRateCounter == 0#9
  baudRateCounter :=
    if r.baudRateCounter = 0#9 ∨ r.rxdEdge i.syncRxd then baudLoadValue D (r.rxdEdge i.syncRxd)
    else r.baudRateCounter - 1
  breakDetect :=
    if i.statusWrStrobe then false
    else if r.gotNewChar && r.isBreak then true
    else r.breakDetect
  delayedRxInProcess := r.rxInProcess
  delayedSyncRxd := i.syncRxd
  doStartRx := !r.rxInProcess && r.rxdFalling i.syncRxd
  framingError :=
    if i.statusWrStrobe then false
    else if r.gotNewChar && r.isFramingError then true
    else r.framingError
  rxCharReady :=
    if i.rxRdStrobeOnset then false
    else if r.gotNewChar then true
    else r.rxCharReady
  rxData := if r.gotNewChar then r.rawDataIn else r.rxData
  rxOverrun :=
    if i.statusWrStrobe then false
    else if r.gotNewChar && r.rxCharReady then true
    else r.rxOverrun
  rxdShiftReg :=
    if r.doStartRx then BitVec.allOnes 10
    else if r.sampleEnable then shiftIn i.syncRxd r.rxdShiftReg
    else r.rxdShiftReg

/-- The character that a clock finds in the shift register. -/
def arrived (r : UartRx) : List (BitVec 8) :=
  if r.gotNewChar then [r.rawDataIn] else []

/-- The character that a read in a clock gets. -/
def fetched (r : UartRx) (i : UartRxInput) : List (BitVec 8) :=
  if i.rxRdStrobeOnset then [r.rxData] else []

/-- The character that is there to be read. -/
def pending (r : UartRx) : List (BitVec 8) :=
  if r.rxCharReady then [r.rxData] else []

/-- A clock, with the characters that arrive and are read in it. -/
structure Clock where
  input : UartRxInput
  arrived : List (BitVec 8)
  fetched : List (BitVec 8)

/-- One clock of the receiver on the line. -/
def Clocked (D : BitVec 9) (r : UartRx) (k : Clock) (r' : UartRx) : Prop :=
  clockEdge D r k.input = r' ∧ k.arrived = r.arrived ∧ k.fetched = r.fetched k.input

/-- What the receiver makes of a signal. -/
abbrev Receives (D : BitVec 9) (P : UartRx → Prop) (ws : List Bool) (bs : List (BitVec 8))
    (Q : UartRx → Prop) : Prop :=
  Translates (Clocked D) (fun k ↦ k.input.syncRxd) Clock.arrived P ws bs Q

variable {r r' : UartRx} {i : UartRxInput} {D : BitVec 9} {c d : Bool} {S : BitVec 10}
  {e n : ℕ}

/-! ### One clock -/

/-- No character has arrived with an error. -/
def Sound (r : UartRx) : Prop :=
  r.framingError = false ∧ r.breakDetect = false

/-- Nothing is on the way, and the line is at rest. -/
structure Waiting (r : UartRx) : Prop where
  inProcess : r.rxInProcess = false
  delayed : r.delayedRxInProcess = false
  doStart : r.doStartRx = false
  line : r.delayedSyncRxd = true
  sound : r.Sound

/-- The line has just fallen. -/
structure Starting (D : BitVec 9) (r : UartRx) : Prop where
  inProcess : r.rxInProcess = false
  delayed : r.delayedRxInProcess = false
  doStart : r.doStartRx = true
  line : r.delayedSyncRxd = false
  due : Due D r.baudRateCounter r.baudClkEn ((D.toNat / 2) + 1)
  sound : r.Sound

/-- A character is on the way, with `reg` in the shift register, the line was at `c` in the last
clock, and the next sample is due in `n` clocks. -/
structure Sampling (D : BitVec 9) (c : Bool) (reg : BitVec 10) (n : ℕ) (r : UartRx) : Prop where
  shiftReg : r.rxdShiftReg = reg
  inProcess : r.rxInProcess = true
  doStart : r.doStartRx = false
  line : r.delayedSyncRxd = c
  due : Due D r.baudRateCounter r.baudClkEn n
  sound : r.Sound

/-- The stop bit has just been sampled. -/
structure Done (reg : BitVec 10) (r : UartRx) : Prop where
  shiftReg : r.rxdShiftReg = reg
  inProcess : r.rxInProcess = false
  delayed : r.delayedRxInProcess = true
  stop : r.stopBit = true
  doStart : r.doStartRx = false
  line : r.delayedSyncRxd = true
  sound : r.Sound

theorem Sound.step (h : r.Sound) (hstop : r.gotNewChar = true → r.stopBit = true) :
    (clockEdge D r i).Sound := by
  have hgood : r.gotNewChar = true → r.isFramingError = false ∧ r.isBreak = false := by
    intro hgot
    have hbit := hstop hgot
    refine ⟨by simp [isFramingError, hbit], ?_⟩
    by_contra hbreak
    simp only [isBreak, Bool.not_eq_false, beq_iff_eq] at hbreak
    simp [stopBit, hbreak] at hbit
  obtain ⟨hframing, hbreak⟩ := h
  cases hgot : r.gotNewChar with
  | false => simp [Sound, clockEdge, hgot, hframing, hbreak]
  | true => simp [Sound, clockEdge, hgot, hgood hgot, hframing, hbreak]

theorem toNat_half (D : BitVec 9) : ((D.extractLsb' 1 8).setWidth 9).toNat = D.toNat / 2 := by
  have hlt := D.isLt
  simp [Nat.shiftRight_eq_div_pow]
  omega

/-- Without an edge the next sample comes nearer. -/
theorem due_of_level (h : Due D r.baudRateCounter r.baudClkEn n) (hD : D ≠ 0#9)
    (hlevel : r.delayedSyncRxd = i.syncRxd) :
    Due D (clockEdge D r i).baudRateCounter (clockEdge D r i).baudClkEn
      (if n = 0 then D.toNat else n - 1) := by
  simpa [clockEdge, rxdEdge, hlevel, baudLoadValue, ClockDivider.tick] using h.tick hD

/-- An edge puts the next sample off. -/
theorem due_of_edge (hedge : r.delayedSyncRxd ≠ i.syncRxd) :
    Due D (clockEdge D r i).baudRateCounter (clockEdge D r i).baudClkEn (D.toNat / 2 + 1) := by
  have hload := due_load D ((D.extractLsb' 1 8).setWidth 9)
  rw [toNat_half] at hload
  simpa [clockEdge, rxdEdge, hedge.symm, baudLoadValue] using hload

/-- Without a sample the shift register stays. -/
theorem shiftReg_of_no_sample (hstart : r.doStartRx = false) (hsample : r.sampleEnable = false) :
    (clockEdge D r i).rxdShiftReg = r.rxdShiftReg := by
  simp [clockEdge, hstart, hsample]

/-- A sample shifts the line in. -/
theorem shiftReg_of_sample (hstart : r.doStartRx = false) (hsample : r.sampleEnable = true) :
    (clockEdge D r i).rxdShiftReg = shiftIn i.syncRxd r.rxdShiftReg := by
  simp [clockEdge, hstart, hsample]

theorem rxInProcess_congr (h : r'.rxdShiftReg = r.rxdShiftReg) :
    r'.rxInProcess = r.rxInProcess := by
  rw [rxInProcess, h, rxInProcess]

theorem Sampling.gotNewChar (h : Sampling D c S n r) : r.gotNewChar = false := by
  simp [UartRx.gotNewChar, h.inProcess]

/-- The line rests. -/
theorem receives_idle : Receives D Waiting [true] [] Waiting := by
  refine translates_singleton fun r k r' h hk htrue ↦ ?_
  obtain ⟨rfl, harrived, -⟩ := hk
  have hgot : r.gotNewChar = false := by simp [UartRx.gotNewChar, h.delayed]
  have hreg := shiftReg_of_no_sample (i := k.input) (D := D) h.doStart
    (by simp [sampleEnable, h.inProcess])
  exact ⟨by rw [harrived, arrived, hgot]; rfl, (rxInProcess_congr hreg).trans h.inProcess,
    h.inProcess, by simp [clockEdge, rxdFalling, htrue], htrue, h.sound.step (by simp [hgot])⟩

/-- The line falls. -/
theorem receives_fall : Receives D Waiting [false] [] (Starting D) := by
  refine translates_singleton fun r k r' h hk hfalse ↦ ?_
  obtain ⟨rfl, harrived, -⟩ := hk
  have hgot : r.gotNewChar = false := by simp [UartRx.gotNewChar, h.delayed]
  have hreg := shiftReg_of_no_sample (i := k.input) (D := D) h.doStart
    (by simp [sampleEnable, h.inProcess])
  exact ⟨by rw [harrived, arrived, hgot]; rfl, (rxInProcess_congr hreg).trans h.inProcess,
    h.inProcess, by simp [clockEdge, rxdFalling, hfalse, h.inProcess, h.line], hfalse,
    due_of_edge (by simp [h.line, hfalse]), h.sound.step (by simp [hgot])⟩

/-- The shift register is filled with ones. -/
theorem receives_start (hD : D ≠ 0#9) :
    Receives D (Starting D) [false] [] (Sampling D false (BitVec.allOnes 10) (D.toNat / 2)) := by
  refine translates_singleton fun r k r' h hk hfalse ↦ ?_
  obtain ⟨rfl, harrived, -⟩ := hk
  have hgot : r.gotNewChar = false := by simp [UartRx.gotNewChar, h.delayed]
  have hreg : (clockEdge D r k.input).rxdShiftReg = BitVec.allOnes 10 := by
    simp [clockEdge, h.doStart]
  have hdue := due_of_level (i := k.input) h.due hD (h.line.trans hfalse.symm)
  exact ⟨by rw [harrived, arrived, hgot]; rfl, hreg, by rw [rxInProcess, hreg]; rfl,
    by simp [clockEdge, rxdFalling, h.line], hfalse, by simpa using hdue,
    h.sound.step (by simp [hgot])⟩

/-- A clock between two samples. -/
theorem receives_level (hD : D ≠ 0#9) :
    Receives D (Sampling D c S (n + 1)) [c] [] (Sampling D c S n) := by
  refine translates_singleton fun r k r' h hk hc ↦ ?_
  obtain ⟨rfl, harrived, -⟩ := hk
  have hreg := shiftReg_of_no_sample (i := k.input) (D := D) h.doStart
    (by simp [sampleEnable, h.due.1])
  have hdue := due_of_level (i := k.input) h.due hD (h.line.trans hc.symm)
  exact ⟨by rw [harrived, arrived, h.gotNewChar]; rfl, hreg.trans h.shiftReg,
    (rxInProcess_congr hreg).trans h.inProcess, by simp [clockEdge, h.inProcess], hc,
    by simpa using hdue, h.sound.step (by simp [h.gotNewChar])⟩

/-- An edge between two samples. -/
theorem receives_edge (hne : d ≠ c) :
    Receives D (Sampling D d S (n + 1)) [c] [] (Sampling D c S (D.toNat / 2 + 1)) := by
  refine translates_singleton fun r k r' h hk hc ↦ ?_
  obtain ⟨rfl, harrived, -⟩ := hk
  have hreg := shiftReg_of_no_sample (i := k.input) (D := D) h.doStart
    (by simp [sampleEnable, h.due.1])
  exact ⟨by rw [harrived, arrived, h.gotNewChar]; rfl, hreg.trans h.shiftReg,
    (rxInProcess_congr hreg).trans h.inProcess, by simp [clockEdge, h.inProcess], hc,
    due_of_edge (by rw [h.line, hc]; exact hne), h.sound.step (by simp [h.gotNewChar])⟩

/-- A sample before the last. -/
theorem receives_sample (hD : D ≠ 0#9) (hbit : S.getLsbD 1 = true) :
    Receives D (Sampling D c S 0) [c] [] (Sampling D c (shiftIn c S) D.toNat) := by
  refine translates_singleton fun r k r' h hk hc ↦ ?_
  obtain ⟨rfl, harrived, -⟩ := hk
  have hreg := shiftReg_of_sample (i := k.input) (D := D) h.doStart
    (by simp [sampleEnable, h.due.1, h.inProcess])
  rw [h.shiftReg, hc] at hreg
  have hdue := due_of_level (i := k.input) h.due hD (h.line.trans hc.symm)
  exact ⟨by rw [harrived, arrived, h.gotNewChar]; rfl, hreg,
    by rw [rxInProcess, hreg, getLsbD_shiftIn]; simpa using hbit,
    by simp [clockEdge, h.inProcess], hc, by simpa using hdue,
    h.sound.step (by simp [h.gotNewChar])⟩

/-- The sample of the stop bit. -/
theorem receives_stop (hbit : S.getLsbD 1 = false) :
    Receives D (Sampling D true S 0) [true] [] (Done (shiftIn true S)) := by
  refine translates_singleton fun r k r' h hk hc ↦ ?_
  obtain ⟨rfl, harrived, -⟩ := hk
  have hreg := shiftReg_of_sample (i := k.input) (D := D) h.doStart
    (by simp [sampleEnable, h.due.1, h.inProcess])
  rw [h.shiftReg, hc] at hreg
  exact ⟨by rw [harrived, arrived, h.gotNewChar]; rfl, hreg,
    by rw [rxInProcess, hreg, getLsbD_shiftIn]; simpa using hbit, h.inProcess,
    by rw [stopBit, hreg, getLsbD_shiftIn]; rfl,
    by simp [clockEdge, h.inProcess], hc, h.sound.step (by simp [h.gotNewChar])⟩

/-- The character arrives. -/
theorem receives_char : Receives D (Done S) [true] [S.extractLsb' 1 8] Waiting := by
  refine translates_singleton fun r k r' h hk htrue ↦ ?_
  obtain ⟨rfl, harrived, -⟩ := hk
  have hgot : r.gotNewChar = true := by simp [UartRx.gotNewChar, h.inProcess, h.delayed]
  have hreg := shiftReg_of_no_sample (i := k.input) (D := D) h.doStart
    (by simp [sampleEnable, h.inProcess])
  exact ⟨by rw [harrived, arrived, hgot, ← h.shiftReg]; rfl,
    (rxInProcess_congr hreg).trans h.inProcess, h.inProcess,
    by simp [clockEdge, rxdFalling, htrue], htrue, h.sound.step fun _ ↦ h.stop⟩

/-! ### One cell -/

theorem receives_levels (hD : D ≠ 0#9) (n m : ℕ) :
    Receives D (Sampling D c S (n + m)) (List.replicate n c) [] (Sampling D c S m) := by
  induction n with
  | zero => simpa using translates_nil
  | succ n ih =>
    rw [Nat.add_right_comm]
    exact (receives_level hD).append ih

/-- A level with one sample in it. -/
theorem receives_one_sample {m : ℕ} (hD : D ≠ 0#9) (hbit : S.getLsbD 1 = true) (hlt : m < n)
    (hle : n ≤ m + (D.toNat + 1)) :
    Receives D (Sampling D c S m) (List.replicate n c) []
      (Sampling D c (shiftIn c S) (m + (D.toNat + 1) - n)) := by
  have hsplit : List.replicate n c =
      List.replicate m c ++ [c] ++ List.replicate (n - (m + 1)) c := by
    rw [← List.replicate_succ', List.replicate_append_replicate]
    congr 1
    omega
  have hafter := receives_levels (c := c) (S := shiftIn c S) hD (n - (m + 1))
    (m + (D.toNat + 1) - n)
  rw [show n - (m + 1) + (m + (D.toNat + 1) - n) = D.toNat by omega] at hafter
  rw [hsplit]
  exact ((receives_levels hD m 0).append (receives_sample hD hbit)).append hafter

/-- The samples `cs` of a character are there. The next sample is due half a cell after the
beginning of the cell that comes next, or has drifted from there with every cell so far. -/
def Middle (D : BitVec 9) (e : ℕ) (cs : List Bool) (r : UartRx) : Prop :=
  ∃ c n, Sampling D c (shiftedIn cs) n r ∧ D.toNat / 2 + 2 ≤ n + cs.length * e ∧
    n ≤ D.toNat / 2 + 2 + cs.length * e

/-- The first clock of a cell, with an edge or without. -/
theorem receives_first {m : ℕ} (hD : D ≠ 0#9) (hm : m ≠ 0) :
    Receives D (Sampling D d S m) [c] []
      fun r ↦ ∃ m', Sampling D c S m' r ∧ (m' + 1 = m ∨ m' = D.toNat / 2 + 1) := by
  obtain ⟨m, rfl⟩ := Nat.exists_eq_succ_of_ne_zero hm
  by_cases hne : d = c
  · subst hne
    exact (receives_level hD).mono (fun _ h ↦ h) fun r h ↦ ⟨m, h, .inl rfl⟩
  · exact (receives_edge hne).mono (fun _ h ↦ h) fun r h ↦ ⟨_, h, .inr rfl⟩

variable {cs : List Bool}

/-- The start bit. -/
theorem receives_startBit (hwide : D.toNat / 2 + 10 * e + 3 ≤ D.toNat)
    (hshort : D.toNat + 1 ≤ n + e) (hlong : n ≤ D.toNat + 1 + e) :
    Receives D Waiting (List.replicate n false) [] (Middle D e [false]) := by
  have hD : D ≠ 0#9 := by
    rintro rfl
    simp at hwide
  have hsplit : List.replicate n false = [false] ++ [false] ++ List.replicate (n - 2) false := by
    obtain ⟨m, rfl⟩ := Nat.exists_eq_add_of_le (show 2 ≤ n by omega)
    rw [Nat.add_sub_cancel_left, Nat.add_comm]
    rfl
  have hsample := receives_one_sample (c := false) (S := shiftedIn []) (n := n - 2)
    (m := D.toNat / 2) hD (by decide) (by omega) (by omega)
  rw [hsplit]
  refine ((receives_fall.append (receives_start hD)).append hsample).mono (fun _ h ↦ h)
    fun r h ↦ ⟨false, _, h, ?_, ?_⟩
  all_goals
    rw [List.length_singleton, Nat.one_mul]
    omega

/-- A cell between the start bit and the stop bit. -/
theorem receives_cell (hwide : D.toNat / 2 + 10 * e + 3 ≤ D.toNat) (hcs : cs.length ≤ 8)
    (hshort : D.toNat + 1 ≤ n + e) (hlong : n ≤ D.toNat + 1 + e) :
    Receives D (Middle D e cs) (List.replicate n c) [] (Middle D e (cs ++ [c])) := by
  have hD : D ≠ 0#9 := by
    rintro rfl
    simp at hwide
  have hdrift := Nat.mul_le_mul_right e hcs
  have hbit : (shiftedIn cs).getLsbD 1 = true := by
    rw [getLsbD_shiftedIn, if_pos (by omega)]
  have hsplit : List.replicate n c = [c] ++ List.replicate (n - 1) c := by
    obtain ⟨m, rfl⟩ := Nat.exists_eq_add_of_le (show 1 ≤ n by omega)
    rw [Nat.add_sub_cancel_left, Nat.add_comm]
    rfl
  rintro r ks r' ⟨d, m, hr, hlow, hhigh⟩ hrun hline
  have hrest : Receives D (fun r ↦ ∃ m', Sampling D c (shiftedIn cs) m' r ∧
      (m' + 1 = m ∨ m' = D.toNat / 2 + 1)) (List.replicate (n - 1) c) []
      (Middle D e (cs ++ [c])) := by
    rintro r ks r' ⟨m', hr, hm'⟩ hrun hline
    obtain ⟨harrived, hr'⟩ := receives_one_sample hD hbit (by omega) (by omega) r ks r' hr hrun
      hline
    rw [← shiftedIn_snoc] at hr'
    refine ⟨harrived, c, _, hr', ?_, ?_⟩
    all_goals
      rw [List.length_append, List.length_singleton, Nat.succ_mul]
      omega
  rw [hsplit] at hline
  exact (receives_first hD (by omega)).append hrest r ks r' hr hrun hline

/-- The stop bit: the character arrives in it. -/
theorem receives_stopBit (hwide : D.toNat / 2 + 10 * e + 3 ≤ D.toNat) (hcs : cs.length = 9)
    (hstart : cs.getD 0 false = false) (hshort : D.toNat + 1 ≤ n + e) :
    Receives D (Middle D e cs) (List.replicate n true)
      [(shiftedIn (cs ++ [true])).extractLsb' 1 8] Waiting := by
  have hD : D ≠ 0#9 := by
    rintro rfl
    simp at hwide
  have hbit : (shiftedIn cs).getLsbD 1 = false := by
    rw [getLsbD_shiftedIn, if_neg (by omega), hcs]
    exact hstart
  rintro r ks r' ⟨d, m, hr, hlow, hhigh⟩ hrun hline
  rw [hcs] at hlow hhigh
  obtain ⟨n, rfl⟩ := Nat.exists_eq_add_of_le' (show 1 ≤ n by omega)
  have hrest : Receives D (fun r ↦ ∃ m', Sampling D true (shiftedIn cs) m' r ∧
      (m' + 1 = m ∨ m' = D.toNat / 2 + 1)) (List.replicate n true)
      [(shiftedIn (cs ++ [true])).extractLsb' 1 8] Waiting := by
    rintro r ks r' ⟨m', hr, hm'⟩ hrun hline
    obtain ⟨k, rfl⟩ := Nat.exists_eq_add_of_le (show m' + 2 ≤ n by omega)
    have hlevels := (((receives_levels (c := true) (S := shiftedIn cs) hD m' 0).append
      (receives_stop hbit)).append receives_char).append (receives_idle.replicate k)
    rw [← shiftedIn_snoc, ← List.replicate_succ', ← List.replicate_succ',
      List.replicate_append_replicate] at hlevels
    exact hlevels r ks r' hr hrun hline
  exact (receives_first hD (by omega)).append hrest r ks r' hr hrun hline

/-! ### Whole signals -/

/-- Some cells of a frame. -/
theorem receives_cells {ws : List Bool} (seen : List Bool)
    (hwide : D.toNat / 2 + 10 * e + 3 ≤ D.toNat) (h : Timed (D.toNat + 1) e cs ws)
    (hcs : seen.length + cs.length ≤ 9) :
    Receives D (Middle D e seen) ws [] (Middle D e (seen ++ cs)) := by
  induction h generalizing seen with
  | nil => simpa using translates_nil
  | @cons c cs ws k hshort hlong h ih =>
    rw [List.length_cons] at hcs
    have hrest := ih (seen ++ [c]) (by simp; omega)
    rw [List.append_assoc] at hrest
    exact (receives_cell hwide (by omega) hshort hlong).append hrest

/-- The frame of a byte. -/
theorem receives_frame {b : BitVec 8} {ws : List Bool}
    (hwide : D.toNat / 2 + 10 * e + 3 ≤ D.toNat) (h : Timed (D.toNat + 1) e (cells b) ws) :
    Receives D Waiting ws [b] Waiting := by
  obtain ⟨k, vs, hshort, hlong, hrest, rfl⟩ := h.exists_of_cons
  obtain ⟨us, us', hdata, hstop, rfl⟩ := hrest.exists_of_append
  obtain ⟨m, vs', hshort', -, hnil, rfl⟩ := hstop.exists_of_cons
  cases hnil
  have hbyte : (shiftedIn (cells b)).extractLsb' 1 8 = b := by
    refine BitVec.eq_of_getLsbD_eq fun j hj ↦ ?_
    rw [BitVec.getLsbD_extractLsb', getLsbD_shiftedIn, length_cells, Nat.add_comm 1 j,
      if_neg (by omega), Nat.add_sub_cancel, getD_cells_succ, if_pos hj]
    simp [hj]
  have hstart := receives_startBit (e := e) hwide hshort hlong
  have hmiddle := receives_cells [false] hwide hdata (by simp)
  have hend : Receives D (Middle D e (false :: List.ofFn fun i : Fin 8 ↦ b.getLsbD i))
      (List.replicate m true) [(shiftedIn (cells b)).extractLsb' 1 8] Waiting :=
    receives_stopBit hwide (by simp) rfl hshort'
  rw [hbyte] at hend
  rw [List.append_nil]
  exact hstart.append (hmiddle.append hend)

/-- What a line carries. -/
theorem receives_carries {bs : List (BitVec 8)} {ws : List Bool}
    (hwide : D.toNat / 2 + 10 * e + 3 ≤ D.toNat) (h : Carries (D.toNat + 1) e bs ws) :
    Receives D Waiting ws bs Waiting := by
  induction h with
  | nil => exact translates_nil
  | idle _ ih => simpa using ih.append receives_idle
  | frame _ hb ih => exact ih.append (receives_frame hwide hb)

/-- The line has to be at rest for a clock after the reset. -/
theorem receives_reset : Receives D (· = reset) [true] [] Waiting := by
  refine translates_singleton fun r k r' h hk htrue ↦ ?_
  obtain rfl := h
  obtain ⟨rfl, harrived, -⟩ := hk
  have hreg := shiftReg_of_no_sample (i := k.input) (D := D) (r := reset) rfl rfl
  exact ⟨harrived, rxInProcess_congr hreg, rfl, by simp [clockEdge, rxdFalling, htrue], htrue,
    Sound.step ⟨rfl, rfl⟩ fun h ↦ absurd h (by decide)⟩

/-- A clock in which a character is read only if one is there, and the errors are not cleared. -/
structure Reading (D : BitVec 9) (r : UartRx) (k : Clock) (r' : UartRx) : Prop where
  clocked : Clocked D r k r'
  ready : k.input.rxRdStrobeOnset = true → r.rxCharReady = true
  status : k.input.statusWrStrobe = false

/-- A run on any line, with nothing read. -/
theorem exists_run_line (D : BitVec 9) (r : UartRx) (ws : List Bool) :
    ∃ ks r', Run (Reading D) r ks r' ∧ ks.flatMap Clock.fetched = [] ∧
      ks.map (fun k ↦ k.input.syncRxd) = ws := by
  induction ws generalizing r with
  | nil => exact ⟨[], r, .nil r, rfl, rfl⟩
  | cons w ws ih =>
    obtain ⟨ks, r', hrun, hnone, hks⟩ := ih (clockEdge D r ⟨false, false, false, w⟩)
    exact ⟨⟨⟨false, false, false, w⟩, r.arrived, []⟩ :: ks, r',
      run_cons_iff.2 ⟨_, ⟨⟨rfl, rfl, rfl⟩, fun h ↦ absurd h Bool.false_ne_true, rfl⟩, hrun⟩,
      hnone, by rw [List.map_cons, hks]⟩

/-- From the reset, with the line at rest for a clock. -/
theorem receives_line {bs : List (BitVec 8)} {ws : List Bool}
    (hwide : D.toNat / 2 + 10 * e + 3 ≤ D.toNat) (h : Carries (D.toNat + 1) e bs ws) :
    Receives D (· = reset) (true :: ws) bs Waiting :=
  receives_reset.append (receives_carries hwide h)

/-- **The receiver reads what the line carries**, and no error: every byte arrives once and in
order, whatever is read or written meanwhile. The cells of the line may be `e` clocks longer or
shorter than those of the receiver, each of them anew. -/
theorem arrivals_of_carries {bs : List (BitVec 8)} {ws : List Bool} {ks : List Clock}
    (hwide : D.toNat / 2 + 10 * e + 3 ≤ D.toNat) (h : Carries (D.toNat + 1) e bs ws)
    (hrun : Run (Clocked D) reset ks r)
    (hline : ks.map (fun k ↦ k.input.syncRxd) = true :: ws) :
    ks.flatMap Clock.arrived = bs ∧ r.framingError = false ∧ r.breakDetect = false := by
  obtain ⟨harrived, hwaiting⟩ := receives_line hwide h reset ks r rfl hrun hline
  exact ⟨harrived, hwaiting.sound⟩

/-- Three characters whose cells are as much too short as they may be, with the divisor of the
source. -/
theorem arrivals_of_carries_short : ∃ ks r, Run (Clocked 434#9) reset ks r ∧
    ks.flatMap Clock.arrived = [0x66#8, 0x00#8, 0xFF#8] ∧ r.framingError = false := by
  have hshort : ∀ b : BitVec 8, Timed 435 21 (cells b)
      ((cells b).flatMap fun c ↦ List.replicate 414 c) := by
    intro b
    induction cells b with
    | nil => exact .nil
    | cons c cs ih => exact .cons (by decide) (by decide) ih
  have hcarries := ((Carries.nil.frame (hshort 0x66#8)).frame (hshort 0x00#8)).frame (hshort 0xFF#8)
  obtain ⟨ks, r, hrun, -, hline⟩ := exists_run_line 434#9 reset (true :: _)
  have hclocked : Run (Clocked 434#9) reset ks r := hrun.mono fun _ _ _ h ↦ h.clocked
  obtain ⟨harrived, hframing, -⟩ := arrivals_of_carries (D := 434#9) (e := 21) (by decide)
    hcarries hclocked hline
  exact ⟨ks, r, hclocked, harrived, hframing⟩

end UartRx

end MappingRobot
