import Mathlib.Algebra.BigOperators.Group.List.Basic
import MappingRobot.Library.Run
import MappingRobot.Timer.Registers

/-!
# The system clock

`alt_avalon_timer_sc_init` starts the timer, and `alt_avalon_timer_sc_irq` serves it: called by
`alt_irq_handler` on an interrupt, it clears the flag, reads the control register back, and calls
`alt_tick`, which is a tick of the kernel. A write to the timer takes one clock and a read two; any
time may pass in between.

`pending` counts what has timed out and not yet become a tick: the flag, and a handler that has
cleared it. A timeout that finds the flag set is missed. Nothing else is (`Step.account`), so the
ticks never run ahead of the clock, and if every flag is cleared before the next timeout they do not
fall behind (`ticks_of_run`).
-/

namespace MappingRobot

open LabelledRun SystemTimer

/-- What the processor does for the timer in a clock. -/
inductive TimerAccess
  | idle
  /-- `alt_avalon_timer_sc_init` writes the control register. -/
  | init
  /-- `alt_irq_handler` finds the interrupt pending and calls `alt_avalon_timer_sc_irq`. -/
  | enter
  /-- `alt_avalon_timer_sc_irq` writes the status register. -/
  | clear
  /-- `alt_avalon_timer_sc_irq` reads the control register. -/
  | read
  /-- `alt_avalon_timer_sc_irq` calls `alt_tick`. -/
  | tick
deriving DecidableEq

/-- `ALTERA_AVALON_TIMER_CONTROL_ITO_MSK`, `_CONT_MSK` and `_START_MSK` -/
def timerControl : BitVec 16 := 0x7

/-- The bus in a clock. -/
def TimerAccess.input : TimerAccess → TimerInput
  | .idle | .enter | .tick => ⟨0#3, false, true, 0#16⟩
  | .init => ⟨1#3, true, false, timerControl⟩
  | .clear => ⟨0#3, true, false, 0#16⟩
  | .read => ⟨1#3, true, true, 0#16⟩

/-- Where in the driver the processor is. -/
inductive SystemClockPc
  /-- Before `alt_avalon_timer_sc_init`. -/
  | init
  /-- Outside. -/
  | out
  /-- At the write of the status register. -/
  | clear
  /-- At the read of the control register. -/
  | read
  /-- In the second clock of the read. -/
  | reading
  /-- At the call of `alt_tick`. -/
  | tick
deriving DecidableEq

/-- Where an access leads. -/
def SystemClockPc.next (pc : SystemClockPc) : TimerAccess → SystemClockPc
  | .idle => pc
  | .init | .tick => .out
  | .enter => .clear
  | .clear => .read
  | .read => if pc = .read then .reading else .tick

/-- The timer and its driver. -/
structure SystemClock where
  timer : SystemTimer
  pc : SystemClockPc

namespace SystemClock

/-- The beginning, with the timer reset. -/
def reset : SystemClock :=
  ⟨.reset, .init⟩

/-- What can be done in a clock: go on with the driver, or wait. A transfer is not interrupted. -/
def Permits (s : SystemClock) (a : TimerAccess) : Prop :=
  match s.pc, a with
  | .reading, a => a = .read
  | _, .idle => True
  | .init, a => a = .init
  | .out, a => a = .enter ∧ s.timer.irq = true
  | .clear, a => a = .clear
  | .read, a => a = .read
  | .tick, a => a = .tick

/-- One clock. -/
def next (s : SystemClock) (a : TimerAccess) : SystemClock :=
  ⟨s.timer.clockEdge a.input, s.pc.next a⟩

/-- One clock in which the processor does what it can. -/
structure Step (s : SystemClock) (a : TimerAccess) (s' : SystemClock) : Prop where
  permits : s.Permits a
  next : s.next a = s'

/-- The handler has cleared the flag and not called `alt_tick` yet. -/
def owes (s : SystemClock) : Bool :=
  s.pc = .read ∨ s.pc = .reading ∨ s.pc = .tick

/-- What has timed out and not become a tick yet. -/
def pending (s : SystemClock) : ℕ :=
  s.timer.timeoutOccurred.toNat + s.owes.toNat

/-- A timeout finds the flag set. -/
def misses (s : SystemClock) : Bool :=
  s.timer.timeoutEvent && s.timer.timeoutOccurred

/-- The timeouts missed in a sequence of clocks. -/
def missed (s : SystemClock) : List TimerAccess → ℕ
  | [] => 0
  | a :: as => s.misses.toNat + (s.next a).missed as

/-- The ticks in a sequence of clocks. -/
def ticks (as : List TimerAccess) : ℕ :=
  as.count .tick

/-- The timer has been running for `k` clocks. -/
structure Started (k : ℕ) (s : SystemClock) : Prop where
  runs : s.timer.Runs k
  pc : s.pc ≠ .init
  flag : s.pc = .clear → s.timer.timeoutOccurred = true

variable {s s' : SystemClock} {a : TimerAccess} {as : List TimerAccess} {k : ℕ}

/-! ### One clock -/

theorem pending_le (s : SystemClock) : s.pending ≤ 2 := by
  have hflag := Bool.toNat_le s.timer.timeoutOccurred
  have howes := Bool.toNat_le s.owes
  unfold pending
  omega

/-- Only the start writes the registers that the timer runs by. -/
theorem leavesRunning_input (h : a ≠ .init) : LeavesRunning a.input := by
  cases a <;> first | exact absurd rfl h | exact ⟨rfl, rfl, rfl⟩

theorem statusWrStrobe_input (a : TimerAccess) :
    a.input.statusWrStrobe = decide (a = .clear) := by
  cases a <;> rfl

/-- The flag, a clock later. -/
theorem timeoutOccurred_next (s : SystemClock) (a : TimerAccess) :
    (s.next a).timer.timeoutOccurred =
      if a = .clear then false else s.timer.timeoutEvent || s.timer.timeoutOccurred := by
  simp only [next, clockEdge, statusWrStrobe_input]
  by_cases h : a = .clear
  · simp [h]
  · cases hevent : s.timer.timeoutEvent <;> simp [h]

/-- What the driver does in a clock. -/
theorem Started.cases_of_permits (h : s.Started k) (hpermits : s.Permits a) :
    (a = .idle ∧ s.pc ≠ .reading) ∨ (s.pc = .out ∧ a = .enter ∧ s.timer.timeoutOccurred = true) ∨
      (s.pc = .clear ∧ a = .clear) ∨ (s.pc = .read ∧ a = .read) ∨ (s.pc = .reading ∧ a = .read) ∨
      (s.pc = .tick ∧ a = .tick) := by
  have hne := h.pc
  have hirq := h.runs.irq
  unfold Permits at hpermits
  cases hpc : s.pc <;> cases a <;> simp_all

/-- What the handler owes: it clears a flag, and calls `alt_tick` for it. -/
theorem Started.owes_next (h : s.Started k) (hpermits : s.Permits a) :
    (s.next a).owes.toNat + ticks [a] = s.owes.toNat + if a = .clear then 1 else 0 := by
  rcases h.cases_of_permits hpermits with
    ⟨rfl, -⟩ | ⟨hpc, rfl, -⟩ | ⟨hpc, rfl⟩ | ⟨hpc, rfl⟩ | ⟨hpc, rfl⟩ | ⟨hpc, rfl⟩
  · rfl
  all_goals simp [owes, next, SystemClockPc.next, ticks, hpc]

theorem toNat_or_add_toNat_and (b c : Bool) :
    (b || c).toNat + (b && c).toNat = b.toNat + c.toNat := by
  cases b <;> cases c <;> rfl

/-- **A clock moves what is pending on**: a timeout is added unless it is missed, and a tick is
taken away. -/
theorem Started.step (h : s.Started k) (hstep : Step s a s') :
    s'.Started (k + 1) ∧
      ticks [a] + s'.pending + s.misses.toNat = s.pending + s.timer.timeoutEvent.toNat := by
  obtain ⟨hpermits, rfl⟩ := hstep
  have hcases := h.cases_of_permits hpermits
  have hinit : a ≠ .init := by
    rintro rfl
    simp at hcases
  have hruns := h.runs.clockEdge (leavesRunning_input hinit)
  have hflag := s.timeoutOccurred_next a
  have howes := h.owes_next hpermits
  refine ⟨⟨hruns, ?_, fun hpc ↦ ?_⟩, ?_⟩
  · rcases hcases with ⟨rfl, -⟩ | ⟨-, rfl, -⟩ | ⟨-, rfl⟩ | ⟨hpc, rfl⟩ | ⟨hpc, rfl⟩ | ⟨-, rfl⟩
    · exact h.pc
    all_goals simp [next, SystemClockPc.next, *]
  · -- the handler is entered with the flag set, and it stays set
    rw [hflag]
    rcases hcases with ⟨rfl, -⟩ | ⟨-, rfl, hset⟩ | ⟨-, rfl⟩ | ⟨hread, rfl⟩ | ⟨hread, rfl⟩ | ⟨-, rfl⟩
    · simp [h.flag hpc]
    · simp [hset]
    all_goals simp [next, SystemClockPc.next, *] at hpc
  · unfold pending misses
    rw [hflag]
    by_cases hclear : a = .clear
    · subst hclear
      have hset : s.timer.timeoutOccurred = true := h.flag (by simpa using hcases)
      rw [if_pos rfl] at howes
      simp only [hset, if_true, Bool.and_true, Bool.toNat_true, Bool.toNat_false]
      omega
    · have hbits := toNat_or_add_toNat_and s.timer.timeoutEvent s.timer.timeoutOccurred
      rw [if_neg hclear] at howes ⊢
      omega

/-! ### Runs -/

theorem ticks_append (as as' : List TimerAccess) : ticks (as ++ as') = ticks as + ticks as' :=
  List.count_append

theorem ticks_cons (a : TimerAccess) (as : List TimerAccess) :
    ticks (a :: as) = ticks [a] + ticks as :=
  ticks_append [a] as

/-- **The account of the ticks**: what has timed out has become a tick, is pending, or has been
missed. -/
theorem Started.account (h : s.Started k) (hrun : Run Step s as s') :
    s'.Started (k + as.length) ∧
      ticks as + s'.pending + s.missed as + k / 50000 =
        s.pending + (k + as.length) / 50000 := by
  induction as generalizing s k with
  | nil =>
    obtain rfl := run_nil_iff.1 hrun
    exact ⟨h, by simp [ticks, missed]⟩
  | cons a as ih =>
    obtain ⟨t, hstep, hrest⟩ := run_cons_iff.1 hrun
    obtain ⟨hstarted, hmoves⟩ := h.step hstep
    obtain ⟨hstarted', haccount⟩ := ih hstarted hrest
    have hrounds := h.runs.rounds.1
    have hlength : k + (a :: as).length = k + 1 + as.length := by
      rw [List.length_cons]
      omega
    rw [hlength, ticks_cons, missed, hstep.next]
    refine ⟨hstarted', ?_⟩
    cases hevent : s.timer.timeoutEvent <;> simp only [hevent, if_true, Bool.false_eq_true,
      if_false, Bool.toNat_true, Bool.toNat_false] at hrounds hmoves <;> omega

/-! ### The start -/

/-- The driver starts the timer. -/
theorem started_init : (reset.next .init).Started 0 :=
  ⟨⟨rfl, rfl, rfl, fun h ↦ absurd h (by decide), rfl, rfl⟩, by decide, fun h ↦ absurd h (by decide)⟩

/-- Before the start nothing happens. -/
theorem eq_reset_of_run (h : Run Step reset as s) (hpc : s.pc = .init) :
    s = reset ∧ ∀ a ∈ as, a = .idle := by
  have hall : s.pc = .init → s = reset ∧ ∀ a ∈ as, a = .idle := by
    refine h.history (I := fun as s ↦ s.pc = .init → s = reset ∧ ∀ a ∈ as, a = .idle)
      (fun _ ↦ ⟨rfl, fun a ha ↦ absurd ha List.not_mem_nil⟩) ?_
    rintro as t a u ih ⟨hpermits, rfl⟩ hinit
    have ha : a = .idle ∧ t.pc = .init := by
      cases a with
      | idle => exact ⟨rfl, hinit⟩
      | read =>
        simp only [next, SystemClockPc.next] at hinit
        split_ifs at hinit
      | init | enter | clear | tick => exact absurd hinit (by simp [next, SystemClockPc.next])
    obtain ⟨rfl, hidle⟩ := ih ha.2
    obtain ⟨rfl, -⟩ := ha
    refine ⟨rfl, fun b hb ↦ ?_⟩
    rcases List.mem_append.1 hb with hb | hb
    · exact hidle b hb
    · exact List.mem_singleton.1 hb
  exact hall hpc

/-! ### Flags cleared in time -/

/-- Every flag is cleared before the next timeout. -/
def Prompt (as : List TimerAccess) : Prop :=
  ∀ before during after t, as = before ++ during ++ after → Run Step reset before t →
    t.timer.timeoutOccurred = true → during.length = 49999 → .clear ∈ during

theorem Prompt.of_append {as as' : List TimerAccess} (h : Prompt (as ++ as')) : Prompt as := by
  rintro before during after t rfl hrun hset hlength
  exact h before during (after ++ as') t (by simp) hrun hset hlength

/-- The flag has been set for the clocks `during`, since the last timeout. -/
structure Unserved (as : List TimerAccess) (k : ℕ) (before during : List TimerAccess)
    (t : SystemClock) : Prop where
  split : as = before ++ during
  run : Run Step reset before t
  set : t.timer.timeoutOccurred = true
  unserved : .clear ∉ during
  length : during.length = k % 50000

theorem Unserved.misses {before during : List TimerAccess} {t : SystemClock}
    (h : Unserved as k before during t) (hs : s.Started k) (hprompt : Prompt as) :
    s.misses = false := by
  have hevent : s.timer.timeoutEvent = false := by
    by_contra hevent
    have hrounds := hs.runs.rounds.2
    rw [if_pos (by simpa using hevent)] at hrounds
    have hlength : during.length = 49999 := by
      have := h.length
      omega
    exact h.unserved (hprompt before during [] t (by rw [h.split, List.append_nil]) h.run h.set
      hlength)
  rw [SystemClock.misses, hevent, Bool.false_and]

theorem missed_append (hrun : Run Step s as s') (as' : List TimerAccess) :
    s.missed (as ++ as') = s.missed as + s'.missed as' := by
  induction as generalizing s with
  | nil =>
    obtain rfl := run_nil_iff.1 hrun
    simp [missed]
  | cons b as ih =>
    obtain ⟨t, hstep, hrest⟩ := run_cons_iff.1 hrun
    rw [List.cons_append, missed, missed, hstep.next, ih hrest, Nat.add_assoc]

theorem missed_concat (hrun : Run Step s as s') (a : TimerAccess) :
    s.missed (as ++ [a]) = s.missed as + s'.misses.toNat := by
  rw [missed_append hrun, missed, missed, Nat.add_zero]

/-- No timeout is missed if every flag is cleared in time. -/
theorem missed_eq_zero {before : List TimerAccess} {u : SystemClock}
    (hbefore : Run Step reset before u) (hu : u.Started 0) (hclear : u.timer.timeoutOccurred = false)
    (hrun : Run Step u as s) (hprompt : Prompt (before ++ as)) : u.missed as = 0 := by
  have hall : s.Started as.length ∧ Run Step u as s ∧ (Prompt (before ++ as) →
      u.missed as = 0 ∧ (s.timer.timeoutOccurred = true →
        ∃ before' during t, Unserved (before ++ as) as.length before' during t)) := by
    refine hrun.history (I := fun as s ↦ s.Started as.length ∧ Run Step u as s ∧
      (Prompt (before ++ as) → u.missed as = 0 ∧ (s.timer.timeoutOccurred = true →
        ∃ before' during t, Unserved (before ++ as) as.length before' during t)))
      ⟨hu, .nil u, fun _ ↦ ⟨rfl, fun h ↦ absurd h (by simp [hclear])⟩⟩ ?_
    rintro as s a s' ⟨hs, hrun, ih⟩ hstep
    have hrun' := hrun.snoc hstep
    have hlength : (as ++ [a]).length = as.length + 1 := by simp
    rw [hlength]
    refine ⟨(hs.step hstep).1, hrun', fun hprompt ↦ ?_⟩
    rw [← List.append_assoc] at hprompt ⊢
    obtain ⟨hmissed, hunserved⟩ := ih hprompt.of_append
    have hmisses : s.misses = false := by
      cases hset : s.timer.timeoutOccurred with
      | false => rw [misses, hset, Bool.and_false]
      | true =>
        obtain ⟨before', during, t, h⟩ := hunserved hset
        exact h.misses hs hprompt.of_append
    refine ⟨by rw [missed_concat hrun, hmissed, hmisses]; rfl, fun hset' ↦ ?_⟩
    have hflag := s.timeoutOccurred_next a
    rw [hstep.next, hset'] at hflag
    have hne : a ≠ .clear := by
      rintro rfl
      simp at hflag
    rw [if_neg hne] at hflag
    have hmod := hs.runs.rounds.2
    cases hevent : s.timer.timeoutEvent with
    | true =>
      rw [hevent, if_pos rfl] at hmod
      refine ⟨before ++ as ++ [a], [], s', (List.append_nil _).symm, ?_, hset',
        List.not_mem_nil, hmod.symm⟩
      exact (hbefore.append hrun).snoc hstep
    | false =>
      rw [hevent, if_neg Bool.false_ne_true] at hmod
      rw [hevent, Bool.false_or] at hflag
      obtain ⟨before', during, t, h⟩ := hunserved hflag.symm
      refine ⟨before', during ++ [a], t, ?_, h.run, h.set, ?_, ?_⟩
      · rw [h.split, List.append_assoc]
      · simp [h.unserved, Ne.symm hne]
      · rw [List.length_append, h.length, hmod, List.length_singleton]
  exact (hall.2.2 hprompt).1

/-- A run that has started the timer has left it alone before. -/
theorem ticks_of_start {before after : List TimerAccess}
    (h : Run Step reset (before ++ .init :: after) s) :
    Run Step reset (before ++ [.init]) (reset.next .init) ∧ Run Step (reset.next .init) after s ∧
      ticks (before ++ .init :: after) = ticks after := by
  obtain ⟨t, hbefore, hafter⟩ := run_append_iff.1 h
  obtain ⟨u, hstart, hrun⟩ := run_cons_iff.1 hafter
  have hpc : t.pc = .init := by
    have hpermits := hstart.permits
    unfold Permits at hpermits
    cases hpc : t.pc <;> simp [hpc] at hpermits ⊢
  obtain ⟨rfl, hidle⟩ := eq_reset_of_run hbefore hpc
  obtain rfl := hstart.next
  have hnone : ticks before = 0 := by
    refine List.count_eq_zero.2 fun hmem ↦ ?_
    simpa using hidle _ hmem
  refine ⟨hbefore.snoc hstart, hrun, ?_⟩
  rw [ticks_append, ticks_cons, hnone]
  simp [ticks]

/-- **The ticks and the clock.** In every run from the reset of the timer, the ticks never run ahead
of the clocks since the timer was started, one for 50000; and if every flag is cleared before the
next timeout, every timeout has become a tick or is pending, of which there are at most two. -/
theorem ticks_of_run {before after : List TimerAccess}
    (h : Run Step reset (before ++ .init :: after) s) :
    ticks (before ++ .init :: after) + s.pending ≤ after.length / 50000 ∧
      (Prompt (before ++ .init :: after) →
        ticks (before ++ .init :: after) + s.pending = after.length / 50000) ∧
      s.pending ≤ 2 := by
  obtain ⟨hstart, hrun, hticks⟩ := ticks_of_start h
  have hzero : (reset.next .init).pending = 0 := rfl
  have haccount := (started_init.account hrun).2
  rw [hzero, Nat.zero_add, Nat.zero_add, Nat.zero_div] at haccount
  rw [hticks]
  refine ⟨by omega, fun hprompt ↦ ?_, s.pending_le⟩
  have hmissed := missed_eq_zero hstart started_init rfl hrun (by simpa using hprompt)
  omega

/-- The ticks of a part of a run, from any moment after the start. -/
theorem ticks_bounds {as' : List TimerAccess} (h : Run Step reset as s) (hinit : .init ∈ as)
    (hrun : Run Step s as' s') :
    ticks as' ≤ as'.length / 50000 + 3 ∧
      (reset.missed (as ++ as') = 0 → as'.length / 50000 ≤ ticks as' + 2) := by
  obtain ⟨before, after, rfl⟩ := List.append_of_mem hinit
  obtain ⟨-, hafter, -⟩ := ticks_of_start h
  obtain ⟨hs, -⟩ := started_init.account hafter
  have haccount := (hs.account hrun).2
  have hle := s.pending_le
  have hle' := s'.pending_le
  refine ⟨by omega, fun hnone ↦ ?_⟩
  rw [missed_append h] at hnone
  omega

/-! ### Rounds -/

/-- The processor can leave the timer alone. -/
theorem Started.exists_idle (h : s.Started k) (hpc : s.pc = .out) (n : ℕ) :
    ∃ s', Run Step s (List.replicate n .idle) s' ∧ s'.Started (k + n) ∧ s'.pc = .out ∧
      (s'.timer.timeoutOccurred = false → s.missed (List.replicate n .idle) = 0) := by
  induction n with
  | zero => exact ⟨s, .nil s, h, hpc, fun _ ↦ rfl⟩
  | succ n ih =>
    obtain ⟨t, hrun, ht, hpct, hmissed⟩ := ih
    have hstep : Step t .idle (t.next .idle) := ⟨by simp [Permits, hpct], rfl⟩
    rw [List.replicate_succ']
    refine ⟨_, hrun.snoc hstep, (ht.step hstep).1, hpct, fun hflag ↦ ?_⟩
    rw [timeoutOccurred_next, if_neg (by decide), Bool.or_eq_false_iff] at hflag
    rw [missed_concat hrun, hmissed hflag.2, misses, hflag.1, Bool.false_and]
    rfl

/-- What the handler does for one timeout. -/
def service : List TimerAccess :=
  [.enter, .clear, .read, .read, .tick]

/-- The handler takes an interrupt through to its tick. -/
theorem Started.exists_service (h : s.Started k) (hpc : s.pc = .out)
    (hset : s.timer.timeoutOccurred = true) : ∃ s', Run Step s service s' ∧ s'.pc = .out := by
  have henter : Step s .enter (s.next .enter) := ⟨by simp [Permits, hpc, h.runs.irq, hset], rfl⟩
  refine ⟨_, run_cons_iff.2 ⟨_, henter, run_cons_iff.2 ⟨_, ⟨?_, rfl⟩, run_cons_iff.2 ⟨_, ⟨?_, rfl⟩,
    run_cons_iff.2 ⟨_, ⟨?_, rfl⟩, run_cons_iff.2 ⟨_, ⟨?_, rfl⟩, .nil _⟩⟩⟩⟩⟩, ?_⟩
  all_goals simp [Permits, next, SystemClockPc.next]

/-- A round in which the timeout is served at once. -/
def round (n : ℕ) : List TimerAccess :=
  List.replicate n .idle ++ service

theorem length_round (n : ℕ) : (round n).length = n + 5 := by
  rw [round, List.length_append, List.length_replicate]
  rfl

theorem ticks_round (n : ℕ) : ticks (round n) = 1 := by
  have hidle : ticks (List.replicate n .idle) = 0 :=
    List.count_eq_zero.2 fun h ↦ absurd (List.eq_of_mem_replicate h) (by decide)
  rw [round, ticks_append, hidle]
  rfl

/-- The timer goes through a round, of which nothing is missed and nothing is pending. -/
theorem Started.exists_round {n : ℕ} (h : s.Started k) (hpc : s.pc = .out) (hpending : s.pending = 0)
    (hone : (k + n) / 50000 = k / 50000 + 1) (hshort : (k + n + 5) / 50000 = k / 50000 + 1) :
    ∃ s', Run Step s (round n) s' ∧ s'.Started (k + (n + 5)) ∧ s'.pc = .out ∧ s'.pending = 0 ∧
      s.missed (round n) = 0 := by
  obtain ⟨t, hidle, ht, hpct, hmissed⟩ := h.exists_idle hpc n
  have howes : t.owes = false := by simp [owes, hpct]
  have hset : t.timer.timeoutOccurred = true := by
    by_contra hflag
    rw [Bool.not_eq_true] at hflag
    have haccount := (h.account hidle).2
    have hnone : t.pending = 0 := by simp [pending, hflag, howes]
    rw [hmissed hflag, hpending, hnone, List.length_replicate, ticks,
      List.count_eq_zero.2 fun h ↦ absurd (List.eq_of_mem_replicate h) (by decide)] at haccount
    omega
  obtain ⟨s', hservice, hpc'⟩ := ht.exists_service hpct hset
  have hrun : Run Step s (round n) s' := hidle.append hservice
  obtain ⟨hs', haccount⟩ := h.account hrun
  rw [ticks_round, hpending, length_round, ← Nat.add_assoc, hshort] at haccount
  rw [length_round] at hs'
  exact ⟨s', hrun, hs', hpc', by omega, by omega⟩

/-- Rounds of 50000 clocks. -/
def rounds (m : ℕ) : List TimerAccess :=
  (List.replicate m (round 49995)).flatten

theorem rounds_succ (m : ℕ) : rounds (m + 1) = rounds m ++ round 49995 := by
  rw [rounds, List.replicate_succ', List.flatten_append, List.flatten_singleton]
  rfl

theorem length_rounds (m : ℕ) : (rounds m).length = 50000 * m := by
  induction m with
  | zero => rfl
  | succ m ih =>
    rw [rounds_succ, List.length_append, ih, length_round]
    omega

theorem Started.exists_rounds (h : s.Started k) (hpc : s.pc = .out) (hpending : s.pending = 0)
    (hlow : 5 ≤ k % 50000) (hhigh : k % 50000 < 49995) (m : ℕ) :
    ∃ s', Run Step s (rounds m) s' ∧ s'.Started (k + 50000 * m) ∧ s'.pc = .out ∧
      s'.pending = 0 ∧ s.missed (rounds m) = 0 := by
  induction m with
  | zero => exact ⟨s, .nil s, h, hpc, hpending, rfl⟩
  | succ m ih =>
    obtain ⟨t, hrun, ht, hpct, hpendingt, hmissed⟩ := ih
    obtain ⟨s', hround, hs', hpc', hpending', hmissed'⟩ :=
      ht.exists_round hpct hpendingt (n := 49995) (by omega) (by omega)
    rw [rounds_succ]
    refine ⟨s', hrun.append hround, ?_, hpc', hpending', ?_⟩
    · rwa [show k + 50000 * (m + 1) = k + 50000 * m + (49995 + 5) by omega]
    · rw [missed_append hrun, hmissed, hmissed']

/-- There is only one timeout in a short run. -/
theorem prompt_of_length_lt (h : as.length < 99999) : Prompt (.init :: as) := by
  intro before during after t hsplit hrun hset hlength
  exfalso
  cases before with
  | nil =>
    obtain rfl := run_nil_iff.1 hrun
    exact Bool.false_ne_true hset
  | cons a before =>
    rw [List.cons_append, List.cons_append] at hsplit
    obtain ⟨rfl, rfl⟩ := List.cons.inj hsplit
    have hbound : t.pending ≤ before.length / 50000 := by
      obtain ⟨u, hstart, hrest⟩ := run_cons_iff.1 hrun
      obtain rfl := hstart.next
      have haccount := (started_init.account hrest).2
      rw [show (reset.next .init).pending = 0 from rfl] at haccount
      omega
    rw [pending, hset, Bool.toNat_true] at hbound
    rw [List.length_append, List.length_append] at h
    omega

/-- The first tick. -/
theorem ticks_of_run_first : ∃ s, Run Step reset ([] ++ .init :: round 50000) s ∧
    ticks ([] ++ .init :: round 50000) + s.pending = 1 := by
  obtain ⟨s, hround, -⟩ := started_init.exists_round (n := 50000) rfl rfl rfl rfl
  have hrun : Run Step reset ([] ++ .init :: round 50000) s :=
    run_cons_iff.2 ⟨_, ⟨rfl, rfl⟩, hround⟩
  have hprompt : Prompt ([] ++ .init :: round 50000) :=
    prompt_of_length_lt (by rw [length_round]; decide)
  refine ⟨s, hrun, ((ticks_of_run hrun).2.1 hprompt).trans ?_⟩
  rw [length_round]

end SystemClock

end MappingRobot
