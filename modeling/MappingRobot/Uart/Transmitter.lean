import MappingRobot.Library.ClockDivider
import MappingRobot.Library.Run
import MappingRobot.Library.SerialLine

/-!
# The transmitter of the UART

`niosII_system_uart_bluetooth_tx`: a holding register in front of a shift register of ten bits,
which goes out with its lowest bit first, one bit each `baud_divisor + 1` clocks. Every register
reads its inputs from before the clock edge. The enable `clk_en` of the source is tied to 1 and left
out. The holding register, `tx_data`, stands at the bus side in the source; it is kept here, with
the transmitter that it feeds.

What the transmitter has yet to put on the line is a signal of its own, `Outgoing`: each clock takes
its first tick off, and a write adds a frame at its end. So the line so far and what is outgoing
carry the bytes written, if no byte is written before the transmitter is ready for it. A start bit
is two clocks longer than the other bits, since the counter is loaded twice.
-/

namespace MappingRobot

open ClockDivider LabelledRun SerialLine

/-- The registers of the transmitter. -/
structure UartTx where
  /-- `baud_clk_en` -/
  baudClkEn : Bool
  /-- `baud_rate_counter` -/
  baudRateCounter : BitVec 9
  /-- `do_load_shifter` -/
  doLoadShifter : Bool
  /-- `pre_txd` -/
  preTxd : Bool
  /-- `tx_overrun` -/
  txOverrun : Bool
  /-- `tx_ready` -/
  txReady : Bool
  /-- `tx_shift_empty` -/
  txShiftEmpty : Bool
  /-- `txd` -/
  txd : Bool
  /-- `tx_shift_register_contents` -/
  txShiftRegister : BitVec 10
  /-- `tx_data` -/
  txData : BitVec 8
deriving DecidableEq

/-- What the transmitter is asked in one clock. -/
structure UartTxInput where
  /-- `begintransfer` -/
  begintransfer : Bool
  /-- `tx_wr_strobe` -/
  txWrStrobe : Bool
  /-- `status_wr_strobe` -/
  statusWrStrobe : Bool
  /-- `do_force_break` -/
  doForceBreak : Bool
  /-- `writedata[7 : 0]` -/
  writedata : BitVec 8
deriving DecidableEq

/-- `tx_wr_strobe_onset` -/
def UartTxInput.txWrStrobeOnset (i : UartTxInput) : Bool :=
  i.txWrStrobe && i.begintransfer

/-- The byte that is written in a clock. -/
def UartTxInput.written (i : UartTxInput) : List (BitVec 8) :=
  if i.txWrStrobeOnset then [i.writedata] else []

namespace UartTx

/-- `reset_n` -/
def reset : UartTx where
  baudClkEn := false
  baudRateCounter := 0#9
  doLoadShifter := false
  preTxd := true
  txOverrun := false
  txReady := true
  txShiftEmpty := true
  txd := true
  txShiftRegister := 0#10
  txData := 0#8

/-- `tx_load_val`: the stop bit, the byte and the start bit. -/
def txLoadVal (t : UartTx) : BitVec 10 :=
  BitVec.cons true (t.txData ++ 0#1)

/-- `shift_done` -/
def shiftDone (t : UartTx) : Bool :=
  t.txShiftRegister == 0#10

/-- `do_shift` -/
def doShift (t : UartTx) : Bool :=
  t.baudClkEn && !t.shiftDone && !t.doLoadShifter

/-- One rising clock edge, with the divisor `D`. -/
def clockEdge (D : BitVec 9) (t : UartTx) (i : UartTxInput) : UartTx where
  baudClkEn := t.baudRateCounter == 0#9
  baudRateCounter :=
    if t.baudRateCounter = 0#9 ∨ t.doLoadShifter then D else t.baudRateCounter - 1
  doLoadShifter := !t.txReady && t.shiftDone
  preTxd := if t.shiftDone then t.preTxd else t.txShiftRegister.getLsbD 0
  txOverrun :=
    if i.statusWrStrobe then false
    else if !t.txReady && i.txWrStrobeOnset then true
    else t.txOverrun
  txReady :=
    if i.txWrStrobeOnset then false
    else if t.doLoadShifter then true
    else t.txReady
  txShiftEmpty := t.txReady && t.shiftDone
  txd := t.preTxd && !i.doForceBreak
  txShiftRegister :=
    if t.doLoadShifter then t.txLoadVal
    else if t.doShift then t.txShiftRegister >>> 1
    else t.txShiftRegister
  txData := if i.txWrStrobe then i.writedata else t.txData

variable {t t' : UartTx} {i : UartTxInput} {D : BitVec 9} {c : Bool} {cs : List Bool}

/-! ### The shift register -/

/-- The bits that the shift register has yet to send, the last of them a stop bit. -/
structure Holds (r : BitVec 10) (cs : List Bool) : Prop where
  bits (j : ℕ) : r.getLsbD j = cs.getD j false
  stop : cs = [] ∨ cs.getLast? = some true

theorem Holds.eq_zero_iff {r : BitVec 10} (h : Holds r cs) : r = 0#10 ↔ cs = [] := by
  constructor
  · rintro rfl
    refine h.stop.resolve_right fun hlast ↦ ?_
    have hbit := h.bits (cs.length - 1)
    rw [List.getLast?_eq_getElem?] at hlast
    rw [List.getD_eq_getElem?_getD, hlast] at hbit
    simp at hbit
  · rintro rfl
    exact BitVec.eq_of_getLsbD_eq fun j _ ↦ by simpa using h.bits j

theorem Holds.head {r : BitVec 10} (h : Holds r (c :: cs)) : r.getLsbD 0 = c :=
  h.bits 0

theorem Holds.tail {r : BitVec 10} (h : Holds r (c :: cs)) : Holds (r >>> 1) cs := by
  refine ⟨fun j ↦ ?_, ?_⟩
  · rw [BitVec.getLsbD_ushiftRight, h.bits, Nat.add_comm]
    rfl
  · cases cs with
    | nil => exact .inl rfl
    | cons c' cs => exact .inr (by simpa using h.stop)

theorem Holds.eq_true {r : BitVec 10} (h : Holds r [c]) : c = true := by
  simpa using h.stop

theorem holds_txLoadVal (t : UartTx) : Holds t.txLoadVal (cells t.txData) := by
  refine ⟨fun j ↦ ?_, .inr (by simp [cells])⟩
  rw [txLoadVal, BitVec.getLsbD_cons, BitVec.getLsbD_append]
  rcases j with _ | j
  · simp [cells]
  · rw [getD_cells_succ]
    rcases Nat.lt_trichotomy j 8 with hlt | rfl | hlt
    · simp [hlt, show ¬ j + 1 = 9 by omega]
    · simp
    · simp [show ¬ j + 1 = 9 by omega, show ¬ j < 8 by omega, hlt.ne',
        BitVec.getLsbD_of_ge t.txData j hlt.le]

/-! ### What is outgoing -/

/-- The signal of some cells, each for `D + 1` clocks. -/
def spread (D : BitVec 9) (cs : List Bool) : List Bool :=
  cs.flatMap fun c ↦ List.replicate (D.toNat + 1) c

/-- The signal of a byte: its start bit is two clocks longer than the other cells. -/
def signal (D : BitVec 9) (b : BitVec 8) : List Bool :=
  [false, false] ++ spread D (cells b)

/-- The signal of the byte that waits in the holding register, and of the two clocks that it takes
to load it. -/
def held (D : BitVec 9) (t : UartTx) : List Bool :=
  if t.txReady then [] else [true, true] ++ signal D t.txData

/-- The transmitter has yet to give the signal `ws` to `pre_txd`. -/
inductive Ahead (D : BitVec 9) (t : UartTx) : List Bool → Prop
  /-- The shift register is empty. -/
  | rest (hshift : Holds t.txShiftRegister []) (hload : t.doLoadShifter = false)
      (hpre : t.preTxd = true) : Ahead D t (held D t)
  /-- The first clock of `do_load_shifter`. -/
  | load (hshift : Holds t.txShiftRegister []) (hload : t.doLoadShifter = true)
      (hready : t.txReady = false) (hpre : t.preTxd = true) :
      Ahead D t (true :: signal D t.txData)
  /-- The second clock of `do_load_shifter`. -/
  | loaded (hshift : t.txShiftRegister = t.txLoadVal) (hload : t.doLoadShifter = true)
      (hready : t.txReady = true) (hcounter : t.baudRateCounter = D) :
      Ahead D t (signal D t.txData)
  /-- The shift register goes out, and its lowest bit goes on for `n` clocks after this one. -/
  | shifting {c : Bool} {cs : List Bool} {n : ℕ} (hshift : Holds t.txShiftRegister (c :: cs))
      (hload : t.doLoadShifter = false) (hdue : Due D t.baudRateCounter t.baudClkEn n)
      (hle : n ≤ D.toNat + 1) : Ahead D t (List.replicate (n + 1) c ++ spread D cs ++ held D t)

/-- One clock: a byte is written only when the transmitter is ready, the bus holds a byte that it
goes on writing, and no break is forced. -/
structure Step (D : BitVec 9) (t : UartTx) (i : UartTxInput) (t' : UartTx) :
    Prop where
  ready : i.txWrStrobeOnset = true → t.txReady = true
  held : i.txWrStrobe = true → i.txWrStrobeOnset = false → i.writedata = t.txData
  noBreak : i.doForceBreak = false
  eq : clockEdge D t i = t'

/-- The signal that a clock adds at the end of what is outgoing. -/
def added (D : BitVec 9) (i : UartTxInput) : List Bool :=
  i.written.flatMap fun b ↦ [true, true] ++ signal D b

theorem Step.held_eq (h : Step D t i t') (hload : t.doLoadShifter = false ∨ t.txReady = true) :
    UartTx.held D t' = UartTx.held D t ++ added D i := by
  obtain ⟨hready, hheld, -, rfl⟩ := h
  unfold UartTx.held added UartTxInput.written clockEdge
  cases honset : i.txWrStrobeOnset
  · cases hstrobe : i.txWrStrobe
    · rcases hload with hload | hload <;> simp [hload]
    · rcases hload with hload | hload <;> simp [hload, hheld hstrobe honset]
  · have hstrobe : i.txWrStrobe = true := by
      simp only [UartTxInput.txWrStrobeOnset, Bool.and_eq_true] at honset
      exact honset.1
    simp [hready honset, hstrobe]

theorem Step.onset_eq_false (h : Step D t i t') (hready : t.txReady = false) :
    i.txWrStrobeOnset = false := by
  by_contra honset
  have := h.ready (by simpa using honset)
  simp [hready] at this

theorem Step.txOverrun_eq_false (h : Step D t i t') (hoverrun : t.txOverrun = false) :
    t'.txOverrun = false := by
  rw [← h.eq, clockEdge]
  dsimp only
  split_ifs with hstatus honset
  · rfl
  · simp only [Bool.and_eq_true, Bool.not_eq_true'] at honset
    exact absurd honset.2 (by simp [h.onset_eq_false honset.1])
  · exact hoverrun

theorem Step.txData_eq (h : Step D t i t') (honset : i.txWrStrobeOnset = false) :
    t'.txData = t.txData := by
  rw [← h.eq, clockEdge]
  dsimp only
  split_ifs with hstrobe
  · exact h.held hstrobe honset
  · rfl

theorem added_of_onset_eq_false (D : BitVec 9) (honset : i.txWrStrobeOnset = false) :
    added D i = [] := by
  simp [added, UartTxInput.written, honset]

theorem Holds.shiftDone (h : Holds t.txShiftRegister cs) : t.shiftDone = cs.isEmpty := by
  rw [UartTx.shiftDone, Bool.eq_iff_iff, List.isEmpty_iff, beq_iff_eq, h.eq_zero_iff]

/-- With nothing in the shift register, the register and the line stay as they are. -/
theorem clockEdge_of_done (hshift : Holds t.txShiftRegister []) (hpre : t.preTxd = true)
    (hload : t.doLoadShifter = false) :
    Holds (clockEdge D t i).txShiftRegister [] ∧ (clockEdge D t i).preTxd = true := by
  have hdone := hshift.shiftDone
  simp only [clockEdge, hload, hdone, doShift]
  simpa using ⟨hshift, hpre⟩

/-- What a clock takes off and adds. -/
theorem Ahead.step {as : List Bool} (h : Ahead D t as) (hD : D ≠ 0#9) (hstep : Step D t i t') :
    ∃ as', Ahead D t' as' ∧
      t'.preTxd :: as' = (if as = [] then [true] else as) ++ added D i := by
  have heq := hstep.eq
  cases h with
  | rest hshift hload hpre =>
    obtain ⟨hshift', hpre'⟩ := clockEdge_of_done (i := i) (D := D) hshift hpre hload
    rw [heq] at hshift' hpre'
    have hload' : t'.doLoadShifter = !t.txReady := by
      simp [← heq, clockEdge, hshift.shiftDone]
    cases hready : t.txReady with
    | true =>
      refine ⟨_, .rest hshift' (by rw [hload', hready]; rfl) hpre', ?_⟩
      rw [hstep.held_eq (.inl hload), hpre']
      simp [UartTx.held, hready]
    | false =>
      have honset := hstep.onset_eq_false hready
      have hready' : t'.txReady = false := by
        simp [← heq, clockEdge, honset, hload, hready]
      refine ⟨_, .load hshift' (by rw [hload', hready]; rfl) hready' hpre', ?_⟩
      rw [hstep.txData_eq honset, hpre', added_of_onset_eq_false D honset]
      simp [UartTx.held, hready]
  | load hshift hload hready hpre =>
    have honset := hstep.onset_eq_false hready
    have hdata := hstep.txData_eq honset
    have hpre' : t'.preTxd = true := by
      simp [← heq, clockEdge, hshift.shiftDone, hpre]
    refine ⟨_, .loaded ?_ ?_ ?_ ?_, ?_⟩
    · have hval : t'.txLoadVal = t.txLoadVal := by rw [txLoadVal, hdata, txLoadVal]
      rw [hval, ← heq]
      simp [clockEdge, hload]
    · simp [← heq, clockEdge, hshift.shiftDone, hready]
    · simp [← heq, clockEdge, honset, hload]
    · simp [← heq, clockEdge, hload]
    · rw [hdata, hpre', added_of_onset_eq_false D honset]
      simp
  | loaded hshift hload hready hcounter =>
    have hholds : Holds t.txShiftRegister (cells t.txData) := hshift ▸ holds_txLoadVal t
    have hshift' : t'.txShiftRegister = t.txShiftRegister := by
      simp [← heq, clockEdge, hload, hshift]
    have hdue : Due D t'.baudRateCounter t'.baudClkEn (D.toNat + 1) := by
      have hzero : (D == 0#9) = false := by simpa using hD
      simpa [← heq, clockEdge, hload, hcounter, hzero] using due_load D D
    have hpre' : t'.preTxd = false := by
      simpa [← heq, clockEdge, hholds.shiftDone, cells] using hholds.head
    refine ⟨_, .shifting (hshift' ▸ hholds) ?_ hdue le_rfl, ?_⟩
    · simp [← heq, clockEdge, hready]
    · rw [hpre', hstep.held_eq (.inr hready)]
      simp [signal, cells, spread, UartTx.held, hready, List.replicate_succ]
  | @shifting c cs n hshift hload hdue hle =>
    have hpre' : t'.preTxd = c := by
      simpa [← heq, clockEdge, hshift.shiftDone] using hshift.head
    have hload' : t'.doLoadShifter = false := by
      simp [← heq, clockEdge, hshift.shiftDone]
    have hdue' : Due D t'.baudRateCounter t'.baudClkEn (if n = 0 then D.toNat else n - 1) := by
      simpa [← heq, clockEdge, hload, ClockDivider.tick] using hdue.tick hD
    cases n with
    | zero =>
      have hshift' : Holds t'.txShiftRegister cs := by
        simpa [← heq, clockEdge, hload, doShift, hdue.1, hshift.shiftDone] using hshift.tail
      cases cs with
      | nil =>
        refine ⟨_, .rest hshift' hload' (hpre'.trans hshift.eq_true), ?_⟩
        rw [hpre', hstep.held_eq (.inl hload)]
        simp [spread]
      | cons c' cs =>
        refine ⟨_, .shifting hshift' hload' hdue' (by simp), ?_⟩
        rw [hpre', hstep.held_eq (.inl hload)]
        simp [spread]
    | succ n =>
      have hshift' : Holds t'.txShiftRegister (c :: cs) := by
        simpa [← heq, clockEdge, hload, doShift, hdue.1] using hshift
      refine ⟨_, .shifting hshift' hload' hdue' (by simp; omega), ?_⟩
      rw [hpre', hstep.held_eq (.inl hload)]
      simp [List.replicate_succ]

/-! ### The line -/

@[simp]
theorem length_spread (D : BitVec 9) (cs : List Bool) :
    (spread D cs).length = cs.length * (D.toNat + 1) := by
  simp [spread]

@[simp]
theorem length_signal (D : BitVec 9) (b : BitVec 8) :
    (signal D b).length = 10 * (D.toNat + 1) + 2 := by
  simp [signal]

theorem length_held_le (D : BitVec 9) (t : UartTx) :
    (held D t).length ≤ 10 * (D.toNat + 1) + 4 := by
  unfold held
  split
  · simp
  · simp

theorem Holds.length_le {r : BitVec 10} (h : Holds r (c :: cs)) : cs.length ≤ 9 := by
  have hlast := h.stop.resolve_left (by simp)
  rw [List.getLast?_eq_getElem?, List.length_cons, Nat.add_sub_cancel] at hlast
  have hbit := h.bits cs.length
  rw [List.getD_eq_getElem?_getD, hlast] at hbit
  exact Nat.le_of_lt_succ (BitVec.lt_of_getLsbD hbit)

theorem Ahead.length_le {as : List Bool} (h : Ahead D t as) :
    as.length ≤ 20 * (D.toNat + 1) + 5 := by
  have hheld := length_held_le D t
  cases h with
  | rest => omega
  | load =>
    rw [List.length_cons, length_signal]
    omega
  | loaded =>
    rw [length_signal]
    omega
  | shifting hshift _ _ hle =>
    have hlength := Nat.mul_le_mul_right (D.toNat + 1) hshift.length_le
    simp only [List.length_append, List.length_replicate, length_spread]
    omega

theorem timed_signal (D : BitVec 9) (b : BitVec 8) :
    Timed (D.toNat + 1) 2 (cells b) (signal D b) := by
  have hcells : signal D b = List.replicate (D.toNat + 3) false ++
      spread D ((List.ofFn fun i : Fin 8 ↦ b.getLsbD i) ++ [true]) := by
    simp [signal, cells, spread, List.replicate_succ]
  rw [hcells]
  exact .cons (by omega) (by omega) (.exact _ 2 _)

/-- What a clock adds carries what it writes. -/
theorem carries_added {bs : List (BitVec 8)} {ws : List Bool}
    (h : Carries (D.toNat + 1) 2 bs ws) (i : UartTxInput) :
    Carries (D.toNat + 1) 2 (bs ++ i.written) (ws ++ added D i) := by
  unfold UartTx.added UartTxInput.written
  split_ifs
  · simpa using (h.replicate 2).frame (timed_signal D i.writedata)
  · simpa using h

/-- A clock, with the level of the line in it. -/
structure Clock where
  input : UartTxInput
  txd : Bool

/-- One clock of the transmitter on the line. -/
def Clocked (D : BitVec 9) (t : UartTx) (k : Clock) (t' : UartTx) : Prop :=
  Step D t k.input t' ∧ k.txd = t.txd

/-- The bytes written. -/
def written (ks : List Clock) : List (BitVec 8) :=
  ks.flatMap fun k ↦ k.input.written

/-- The signal on the line. -/
def line (ks : List Clock) : List Bool :=
  ks.map Clock.txd

/-- What is outgoing. -/
def Outgoing (D : BitVec 9) (t : UartTx) (ws : List Bool) : Prop :=
  ∃ as, Ahead D t as ∧ ws = t.txd :: t.preTxd :: as

theorem Outgoing.length_le {ws : List Bool} (h : Outgoing D t ws) :
    ws.length ≤ 20 * (D.toNat + 1) + 7 := by
  obtain ⟨as, has, rfl⟩ := h
  have hle := has.length_le
  simpa using hle

/-- The line is as long as the run. -/
@[simp]
theorem length_line (ks : List Clock) : (line ks).length = ks.length :=
  List.length_map _

theorem outgoing_reset (D : BitVec 9) : Outgoing D reset [true, true] := by
  have hshift : Holds reset.txShiftRegister [] := ⟨fun j ↦ by simp [reset], .inl rfl⟩
  exact ⟨_, .rest hshift rfl rfl, rfl⟩

theorem Outgoing.step {k : Clock} {ws : List Bool} (h : Outgoing D t ws) (hD : D ≠ 0#9)
    (hk : Clocked D t k t') : ∃ ws', Outgoing D t' ws' ∧
      k.txd :: ws' = ws ++ (if ws.length ≤ 2 then [true] else []) ++ added D k.input := by
  obtain ⟨as, has, rfl⟩ := h
  obtain ⟨hstep, htxd⟩ := hk
  obtain ⟨as', has', heq⟩ := has.step hD hstep
  have htxd' : t'.txd = t.preTxd := by
    simp [← hstep.eq, clockEdge, hstep.noBreak]
  refine ⟨_, ⟨as', has', rfl⟩, ?_⟩
  rw [htxd, htxd', heq]
  cases as <;> simp

/-- What is outgoing goes out, and the line rests after it. -/
theorem Outgoing.quiet {ks : List Clock} {ws : List Bool} (h : Outgoing D t ws) (hD : D ≠ 0#9)
    (hrun : Run (Clocked D) t ks t') (hquiet : written ks = []) (hlength : ws.length ≤ ks.length) :
    line ks = ws ++ List.replicate (ks.length - ws.length) true := by
  have hall : written ks = [] → ∃ ws' n, Outgoing D t' ws' ∧
      line ks ++ ws' = ws ++ List.replicate n true := by
    refine hrun.history (I := fun ks t' ↦ written ks = [] → ∃ ws' n, Outgoing D t' ws' ∧
      line ks ++ ws' = ws ++ List.replicate n true) (fun _ ↦ ⟨ws, 0, h, by simp [line]⟩) ?_
    rintro ks t k u ih hk hquiet
    obtain ⟨hbefore, hnone⟩ : written ks = [] ∧ k.input.written = [] := by
      simpa [written] using hquiet
    obtain ⟨ws', n, hout, heq⟩ := ih hbefore
    obtain ⟨ws'', hout', hstep⟩ := hout.step hD hk
    rw [added, hnone, List.flatMap_nil, List.append_nil] at hstep
    refine ⟨ws'', n + if ws'.length ≤ 2 then 1 else 0, hout', ?_⟩
    calc line (ks ++ [k]) ++ ws'' = line ks ++ (k.txd :: ws'') := by simp [line]
      _ = ws ++ List.replicate n true ++ if ws'.length ≤ 2 then [true] else [] := by
          rw [hstep, ← List.append_assoc, heq]
      _ = _ := by
          rw [List.replicate_add, List.append_assoc]
          split_ifs <;> rfl
  obtain ⟨ws', n, -, heq⟩ := hall hquiet
  have htake := congrArg (List.take ks.length) heq
  rw [← length_line ks, List.take_left, List.take_append,
    List.take_of_length_le (by simpa using hlength), List.take_replicate] at htake
  have hmin := congrArg List.length htake
  rw [List.length_append, List.length_replicate] at hmin
  rw [htake, ← length_line ks]
  congr 2
  omega

/-- **The line carries what is written.** In every run in which no byte is written before the
transmitter is ready, none is lost; the line so far, with what is outgoing after it, carries the
bytes written, in this order and with nothing between them, and what is outgoing is what the line
takes next if no more is written. -/
theorem carries_of_run {ks : List Clock} (hD : D ≠ 0#9) (h : Run (Clocked D) reset ks t) :
    t.txOverrun = false ∧ ∃ ws, Carries (D.toNat + 1) 2 (written ks) (line ks ++ ws) ∧
      ws.length ≤ 20 * (D.toNat + 1) + 7 ∧
        ∀ ks' t', Run (Clocked D) t ks' t' → written ks' = [] → ws.length ≤ ks'.length →
          line ks' = ws ++ List.replicate (ks'.length - ws.length) true := by
  obtain ⟨hoverrun, ws, hout, hcarries⟩ : t.txOverrun = false ∧ ∃ ws, Outgoing D t ws ∧
      Carries (D.toNat + 1) 2 (written ks) (line ks ++ ws) := by
    refine h.history (I := fun ks t ↦ t.txOverrun = false ∧ ∃ ws, Outgoing D t ws ∧
      Carries (D.toNat + 1) 2 (written ks) (line ks ++ ws))
      ⟨rfl, _, outgoing_reset D, Carries.nil.replicate 2⟩ ?_
    rintro ks t k u ⟨hoverrun, ws, hout, hcarries⟩ hk
    obtain ⟨ws', hout', hstep⟩ := hout.step hD hk
    refine ⟨hk.1.txOverrun_eq_false hoverrun, ws', hout', ?_⟩
    have hline : line (ks ++ [k]) ++ ws' =
        line ks ++ ws ++ (if ws.length ≤ 2 then [true] else []) ++ added D k.input :=
      calc line (ks ++ [k]) ++ ws' = line ks ++ (k.txd :: ws') := by simp [line]
        _ = _ := by rw [hstep, ← List.append_assoc, ← List.append_assoc]
    have hwritten : written (ks ++ [k]) = written ks ++ k.input.written := by simp [written]
    rw [hline, hwritten]
    refine carries_added ?_ k.input
    split_ifs
    · exact hcarries.idle
    · simpa using hcarries
  exact ⟨hoverrun, ws, hcarries, hout.length_le, fun _ _ hrun hquiet ↦ hout.quiet hD hrun hquiet⟩

end UartTx

end MappingRobot
