import MappingRobot.Uart.Receiver

/-!
# Overruns

The receiver keeps one character. One that arrives before the last has been read takes its place,
and `rx_overrun` is set. `fetched_of_run` says that this is the only way to lose a character, and
that it is always flagged; `no_overrun_of_run` how much time there is.

For that, nothing is known of the line. A character takes ten samples, and between two samples are
at least `leastCell` clocks, since an edge puts the next one off by that much. `Far D m r` counts
them down: no character arrives in the next `m` clocks.
-/

namespace MappingRobot

open ClockDivider LabelledRun SerialLine

namespace UartRx

variable {r r' : UartRx} {i : UartRxInput} {D : BitVec 9} {n : ℕ}

/-! ### The characters read -/

/-- What a clock does to the characters read and to be read. -/
theorem Reading.step {k : Clock} (h : Reading D r k r') :
    if r.gotNewChar && r.rxCharReady then
      r'.rxOverrun = true ∧ (k.fetched ++ r'.pending).length = 1 ∧ r.pending.length = 1 ∧
        k.arrived.length = 1
    else r'.rxOverrun = r.rxOverrun ∧ k.fetched ++ r'.pending = r.pending ++ k.arrived := by
  obtain ⟨⟨rfl, harrived, hfetched⟩, hready, hstatus⟩ := h
  rw [harrived, hfetched]
  cases hgot : r.gotNewChar <;> cases hchar : r.rxCharReady <;>
    cases honset : k.input.rxRdStrobeOnset <;>
    simp_all [clockEdge, fetched, arrived, pending]

/-- Half a cell, and the two clocks that an edge costs: the least time between two samples. -/
def leastCell (D : BitVec 9) : ℕ :=
  D.toNat / 2 + 2

/-- No character arrives in the next `m` clocks, whatever the line does. -/
inductive Far (D : BitVec 9) (m : ℕ) (r : UartRx) : Prop
  | now (hm : m = 0)
  /-- Nothing is on the way. -/
  | rest (hin : r.rxInProcess = false) (hdelayed : r.delayedRxInProcess = false)
      (hstart : r.doStartRx = false) (hm : m ≤ 10 * leastCell D + 1)
  /-- The line has just fallen. -/
  | start {n : ℕ} (hin : r.rxInProcess = false) (hdelayed : r.delayedRxInProcess = false)
      (hstart : r.doStartRx = true) (hline : r.delayedSyncRxd = false)
      (hdue : Due D r.baudRateCounter r.baudClkEn n) (hn : D.toNat / 2 + 1 ≤ n)
      (hm : m ≤ 10 * leastCell D)
  /-- At least `z + 1` samples are to be taken yet. -/
  | busy {n z : ℕ} (hones : ∀ j ≤ z, r.rxdShiftReg.getLsbD j = true) (hstart : r.doStartRx = false)
      (hdue : Due D r.baudRateCounter r.baudClkEn n)
      (hm : m ≤ min n (D.toNat / 2 + 1) + z * leastCell D + 1)

theorem Far.anti {m m' : ℕ} (h : Far D m r) (hle : m' ≤ m) : Far D m' r := by
  cases h with
  | now hm => exact .now (by omega)
  | rest hin hdelayed hstart hm => exact .rest hin hdelayed hstart (hle.trans hm)
  | start hin hdelayed hstart hline hdue hn hm =>
    exact .start hin hdelayed hstart hline hdue hn (hle.trans hm)
  | busy hones hstart hdue hm => exact .busy hones hstart hdue (hle.trans hm)

theorem Far.gotNewChar {m : ℕ} (h : Far D (m + 1) r) : r.gotNewChar = false := by
  cases h with
  | now hm => exact absurd hm (Nat.succ_ne_zero m)
  | rest _ hdelayed => simp [UartRx.gotNewChar, hdelayed]
  | start _ hdelayed => simp [UartRx.gotNewChar, hdelayed]
  | busy hones => simp [UartRx.gotNewChar, rxInProcess, hones 0 (Nat.zero_le _)]

/-- The time to the next sample, a clock later. -/
theorem exists_due_next (hdue : Due D r.baudRateCounter r.baudClkEn n) (hD : D ≠ 0#9)
    (i : UartRxInput) :
    ∃ n', Due D (clockEdge D r i).baudRateCounter (clockEdge D r i).baudClkEn n' ∧
      (n' = (if n = 0 then D.toNat else n - 1) ∨ n' = D.toNat / 2 + 1) := by
  by_cases hlevel : r.delayedSyncRxd = i.syncRxd
  · exact ⟨_, due_of_level hdue hD hlevel, .inl rfl⟩
  · exact ⟨_, due_of_edge hlevel, .inr rfl⟩

/-- With nothing in the shift register, a character takes all its samples yet. -/
theorem far_of_empty (hin : r.rxInProcess = false) (hstart : r.doStartRx = false)
    (i : UartRxInput) : Far D (10 * leastCell D) (clockEdge D r i) := by
  have hreg := shiftReg_of_no_sample (i := i) (D := D) hstart (by simp [sampleEnable, hin])
  have hin' := (rxInProcess_congr hreg).trans hin
  cases hfall : r.rxdFalling i.syncRxd with
  | false => exact .rest hin' hin (by simp [clockEdge, hfall]) (Nat.le_succ _)
  | true =>
    simp only [rxdFalling, Bool.and_eq_true, Bool.not_eq_true'] at hfall
    exact .start hin' hin (by simp [clockEdge, hin, rxdFalling, hfall]) hfall.1
      (due_of_edge (by simp [hfall])) le_rfl le_rfl

theorem Far.step {m : ℕ} (h : Far D (m + 1) r) (hD : 2 ≤ D.toNat) (i : UartRxInput) :
    Far D m (clockEdge D r i) := by
  have hne : D ≠ 0#9 := by
    rintro rfl
    simp at hD
  cases h with
  | now hm => exact absurd hm (Nat.succ_ne_zero m)
  | rest hin hdelayed hstart hm => exact (far_of_empty hin hstart i).anti (by omega)
  | @start n hin hdelayed hstart hline hdue hn hm =>
    obtain ⟨n', hdue', hn'⟩ := exists_due_next hdue hne i
    have hreg : (clockEdge D r i).rxdShiftReg = BitVec.allOnes 10 := by simp [clockEdge, hstart]
    refine .busy (z := 9) (fun j hj ↦ ?_) (by simp [clockEdge, rxdFalling, hline]) hdue' ?_
    · rw [hreg, BitVec.getLsbD_allOnes]
      simpa using Nat.lt_succ_of_le hj
    · rw [if_neg (by omega)] at hn'
      unfold leastCell at hm ⊢
      omega
  | @busy n z hones hstart hdue hm =>
    obtain ⟨n', hdue', hn'⟩ := exists_due_next hdue hne i
    have hin : r.rxInProcess = true := hones 0 (Nat.zero_le _)
    have hstart' : (clockEdge D r i).doStartRx = false := by simp [clockEdge, hin]
    cases n with
    | succ n =>
      have hreg := shiftReg_of_no_sample (i := i) (D := D) hstart (by simp [sampleEnable, hdue.1])
      rw [if_neg (Nat.succ_ne_zero n)] at hn'
      refine .busy (z := z) (fun j hj ↦ by rw [hreg]; exact hones j hj) hstart' hdue' ?_
      omega
    | zero =>
      have hreg := shiftReg_of_sample (i := i) (D := D) hstart
        (by simp [sampleEnable, hdue.1, hin])
      cases z with
      | zero => exact .now (by omega)
      | succ z =>
        rw [if_pos rfl] at hn'
        refine .busy (z := z) (fun j hj ↦ ?_) hstart' hdue' ?_
        · have hone := hones (j + 1) (Nat.succ_le_succ hj)
          rw [hreg, getLsbD_shiftIn, if_neg ?_, hone]
          rintro rfl
          exact absurd (BitVec.lt_of_getLsbD hone) (by omega)
        · rw [Nat.succ_mul] at hm
          unfold leastCell at hm ⊢
          omega

/-- Every character is read within `m` clocks. -/
def Prompt (D : BitVec 9) (m : ℕ) (ks : List Clock) : Prop :=
  ∀ before during after r, ks = before ++ during ++ after → Run (Reading D) reset before r →
    r.rxCharReady = true → during.length = m → ∃ k ∈ during, k.input.rxRdStrobeOnset = true

theorem Prompt.of_append {m : ℕ} {ks ks' : List Clock} (h : Prompt D m (ks ++ ks')) :
    Prompt D m ks := by
  rintro before during after r rfl hrun hready hlength
  exact h before during (after ++ ks') r (by simp) hrun hready hlength

/-- A character has been there for the clocks `during`, and none comes before it has to be read. -/
structure Unread (D : BitVec 9) (ks : List Clock) (r : UartRx) (before during : List Clock)
    (r₀ : UartRx) : Prop where
  split : ks = before ++ during
  run : Run (Reading D) reset before r₀
  ready : r₀.rxCharReady = true
  unread : ∀ k ∈ during, k.input.rxRdStrobeOnset = false
  length_lt : during.length < 10 * leastCell D
  far : Far D (10 * leastCell D - during.length) r

theorem Unread.gotNewChar {ks before during : List Clock} {r₀ : UartRx}
    (h : Unread D ks r before during r₀) : r.gotNewChar = false := by
  obtain ⟨m, hm⟩ := Nat.exists_eq_succ_of_ne_zero (Nat.sub_ne_zero_of_lt h.length_lt)
  exact Far.gotNewChar (hm ▸ h.far)

/-- A character that is not read in a clock has to be read in one of the next. -/
theorem Unread.step {ks before during : List Clock} {k : Clock} {r₀ : UartRx}
    (h : Unread D ks r before during r₀) (hD : 2 ≤ D.toNat) (hk : Reading D r k r')
    (hread : k.input.rxRdStrobeOnset = false) (hprompt : Prompt D (10 * leastCell D) (ks ++ [k])) :
    Unread D (ks ++ [k]) r' before (during ++ [k]) r₀ where
  split := by rw [h.split, List.append_assoc]
  run := h.run
  ready := h.ready
  unread j hj := by
    rcases List.mem_append.1 hj with hj | hj
    · exact h.unread j hj
    · rwa [List.mem_singleton.1 hj]
  length_lt := by
    refine lt_of_le_of_ne ?_ fun hlength ↦ ?_
    · rw [List.length_append, List.length_singleton]
      exact h.length_lt
    · obtain ⟨j, hj, honset⟩ := hprompt before (during ++ [k]) [] r₀
        (by rw [h.split, List.append_nil, List.append_assoc]) h.run h.ready hlength
      rcases List.mem_append.1 hj with hj | hj
      · simp [h.unread j hj] at honset
      · simp [List.mem_singleton.1 hj, hread] at honset
  far := by
    have hlt := h.length_lt
    rw [← hk.clocked.1, List.length_append, List.length_singleton]
    refine Far.step ?_ hD k.input
    rw [show 10 * leastCell D - (during.length + 1) + 1 = 10 * leastCell D - during.length by omega]
    exact h.far

end UartRx

end MappingRobot
