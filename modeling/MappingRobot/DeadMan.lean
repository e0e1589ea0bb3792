import Mathlib.Data.List.DropRight
import MappingRobot.Motor

/-!
# The dead-man stop

`task2` on its own, with the clock: it waits for a packet in `OSQPend` for at most
`BT_CMD_TIMEOUT` ticks, and stops the motors when that time is over. An event is a tick spent
waiting, or a packet of any content.

The wait starts afresh with every packet, whether the packet contains a command letter or not.
So a packet without a letter puts the stop off: the motors stop in time exactly when no such
packet falls between the ticks of the time allowed (`inTime_iff_undisturbed`).
-/

namespace MappingRobot

/-- What happens to `task2`. -/
inductive Task2Event
  /-- A clock tick is spent waiting in `OSQPend`. -/
  | tick
  /-- `OSQPend` returns a packet. -/
  | packet (slice : SoundPacket)

/-- `task2` in `OSQPend`. -/
structure Task2 where
  motors : Motors
  /-- The words written to the DC driver. -/
  written : List (BitVec 32)
  /-- The ticks spent in this call of `OSQPend`. -/
  waited : ℕ

namespace Task2

/-- The start of the task. -/
def init : Task2 :=
  ⟨⟨0, 0⟩, [], 0⟩

/-- One event. A wait of `BT_CMD_TIMEOUT` ticks ends with `OS_ERR_TIMEOUT`. -/
def step (t : Task2) : Task2Event → Option Task2
  | .tick =>
    if t.waited + 1 = btCmdTimeout then
      let (motors, word) := handleBluetoothInput btCmdStop t.motors
      some ⟨motors, t.written ++ word.toList, 0⟩
    else
      some { t with waited := t.waited + 1 }
  | .packet slice => do
    let (motors, words) ← handlePacket slice.toPacket t.motors
    some ⟨motors, t.written ++ words, 0⟩

/-- The task after a sequence of events. -/
def run (events : List Task2Event) : Option Task2 :=
  events.foldlM step init

/-- The last word written to the DC driver is a moving one. -/
def Moving (t : Task2) : Prop :=
  ∃ word, t.written.getLast? = some word ∧ word ≠ 0

end Task2

/-! ### Counting ticks -/

/-- The packet contains a command letter. -/
def SoundPacket.HasLetter (p : SoundPacket) : Prop :=
  ∃ c ∈ p.body, (motorWord c).isSome

instance (p : SoundPacket) : Decidable p.HasLetter :=
  inferInstanceAs (Decidable (∃ c ∈ p.body, _))

/-- The last command letter of the packet is there and is not a stop. -/
def SoundPacket.LeavesMoving (p : SoundPacket) : Prop :=
  ∃ word, (p.body.filterMap motorWord).getLast? = some word ∧ word ≠ 0

namespace Task2Event

/-- The event is a tick. -/
def isTick : Task2Event → Bool
  | .tick => true
  | .packet _ => false

/-- The event is a packet with a command letter. -/
def hasLetter : Task2Event → Bool
  | .tick => false
  | .packet p => p.HasLetter

/-- The number of ticks among the events. -/
def ticks (events : List Task2Event) : ℕ :=
  events.countP isTick

/-- The number of ticks since the last packet with a command letter. -/
def ticksSince (events : List Task2Event) : ℕ :=
  ticks (events.rtakeWhile fun e ↦ !e.hasLetter)

/-- The number of ticks since the last packet. -/
def trailing (events : List Task2Event) : ℕ :=
  (events.rtakeWhile isTick).length

theorem rtakeWhile_append_cons {α : Type*} {p : α → Bool} {x : α} (h : ¬ p x) (l m : List α) :
    (l ++ x :: m).rtakeWhile p = m.rtakeWhile p := by
  induction m using List.reverseRecOn with
  | nil => simp [h]
  | append_singleton m y ih =>
    rw [← List.cons_append, ← List.append_assoc, List.rtakeWhile_concat, List.rtakeWhile_concat, ih]

/-- After a packet with a letter and then none, the ticks since are those that follow it. -/
theorem ticksSince_eq {p : SoundPacket} (hp : p.HasLetter) (pre : List Task2Event)
    {mid : List Task2Event} (hmid : ∀ e ∈ mid, e.hasLetter = false) :
    ticksSince (pre ++ .packet p :: mid) = ticks mid := by
  rw [ticksSince, rtakeWhile_append_cons (by simpa [hasLetter] using hp),
    List.rtakeWhile_eq_self_iff.2 fun e he ↦ by simp [hmid e he]]

/-- Nothing before a packet counts for the ticks since the last one. -/
theorem trailing_append_packet (pre : List Task2Event) (p : SoundPacket) (mid : List Task2Event) :
    trailing (pre ++ .packet p :: mid) = trailing mid := by
  rw [trailing, rtakeWhile_append_cons (by simp [isTick]), trailing]

@[simp]
theorem trailing_concat_tick (events : List Task2Event) :
    trailing (events ++ [.tick]) = trailing events + 1 := by
  rw [trailing, List.rtakeWhile_concat_pos _ _ _ rfl, List.length_append]
  rfl

@[simp]
theorem trailing_concat_packet (events : List Task2Event) (p : SoundPacket) :
    trailing (events ++ [.packet p]) = 0 := by
  simp [trailing, isTick]

/-- The ticks since the last packet are at most all ticks. -/
theorem trailing_le_ticks (events : List Task2Event) : trailing events ≤ ticks events := by
  have hall : (events.rtakeWhile isTick).countP isTick = (events.rtakeWhile isTick).length :=
    List.countP_eq_length.2 fun e he ↦ List.mem_rtakeWhile_imp he
  rw [trailing, ← hall, ticks]
  exact List.Sublist.countP_le (List.IsSuffix.sublist (List.rtakeWhile_suffix _ _))

@[simp]
theorem ticks_concat_tick (events : List Task2Event) :
    ticks (events ++ [.tick]) = ticks events + 1 := by
  simp [ticks, isTick]

@[simp]
theorem ticks_concat_packet (events : List Task2Event) (p : SoundPacket) :
    ticks (events ++ [.packet p]) = ticks events := by
  simp [ticks, isTick]

@[simp]
theorem ticksSince_concat_tick (events : List Task2Event) :
    ticksSince (events ++ [.tick]) = ticksSince events + 1 := by
  simp [ticksSince, ticks, isTick, hasLetter]

theorem ticksSince_concat_packet (events : List Task2Event) (p : SoundPacket) :
    ticksSince (events ++ [.packet p]) = if p.HasLetter then 0 else ticksSince events := by
  rw [ticksSince, List.rtakeWhile_concat]
  by_cases hp : p.HasLetter
  · simp [hasLetter, hp, ticks]
  · simp [hasLetter, hp, ticks, ticksSince, isTick]

end Task2Event

open Task2Event

/-! ### One event -/

theorem SoundPacket.LeavesMoving.hasLetter {p : SoundPacket} (h : p.LeavesMoving) :
    p.HasLetter := by
  obtain ⟨word, hword, -⟩ := h
  obtain ⟨c, hc, hcw⟩ := List.mem_filterMap.1 (List.mem_of_getLast? hword)
  exact ⟨c, hc, by simp [hcw]⟩

theorem SoundPacket.filterMap_eq_nil {p : SoundPacket} (h : ¬ p.HasLetter) :
    p.body.filterMap motorWord = [] := by
  refine List.filterMap_eq_nil_iff.2 fun c hc ↦ ?_
  by_contra hne
  exact h ⟨c, hc, Option.isSome_iff_ne_none.2 hne⟩

namespace Task2

/-- A tick, in terms of the words written: the last tick of the time allowed writes a stop, and
any other writes nothing. -/
theorem step_tick (t : Task2) : ∃ u, t.step .tick = some u ∧
    (if t.waited + 1 = btCmdTimeout then u.written = t.written ++ [0] ∧ u.waited = 0
    else u.written = t.written ∧ u.waited = t.waited + 1) := by
  rw [step]
  split_ifs with h
  · refine ⟨⟨(handleBluetoothInput btCmdStop t.motors).1,
      t.written ++ (handleBluetoothInput btCmdStop t.motors).2.toList, 0⟩, rfl, ?_, rfl⟩
    simp [handleBluetoothInput_snd]
  · exact ⟨_, rfl, rfl, rfl⟩

/-- A packet, in terms of the words written: it writes those of its body, and the wait starts
afresh. -/
theorem step_packet (t : Task2) (p : SoundPacket) : ∃ u, t.step (.packet p) = some u ∧
    u.written = t.written ++ p.body.filterMap motorWord ∧ u.waited = 0 := by
  obtain ⟨m, hm⟩ := p.handlePacket_eq t.motors
  exact ⟨_, by rw [step, hm]; rfl, rfl, rfl⟩

theorem moving_of_packet {t u : Task2} {p : SoundPacket}
    (h : u.written = t.written ++ p.body.filterMap motorWord) :
    u.Moving ↔ p.LeavesMoving ∨ (¬ p.HasLetter ∧ t.Moving) := by
  by_cases hp : p.HasLetter
  · obtain ⟨c, hc, hword⟩ := hp
    obtain ⟨word, hword⟩ := Option.isSome_iff_exists.1 hword
    have hne : p.body.filterMap motorWord ≠ [] :=
      List.ne_nil_of_mem (List.mem_filterMap.2 ⟨c, hc, hword⟩)
    have hp : p.HasLetter := ⟨c, hc, by simp [hword]⟩
    simp [Moving, SoundPacket.LeavesMoving, h, hp, List.getLast?_append_of_ne_nil _ hne]
  · have hnil := p.filterMap_eq_nil hp
    simp [Moving, SoundPacket.LeavesMoving, h, hp, hnil]

theorem moving_of_tick {t u : Task2}
    (h : if t.waited + 1 = btCmdTimeout then u.written = t.written ++ [0] ∧ u.waited = 0
      else u.written = t.written ∧ u.waited = t.waited + 1) :
    u.Moving ↔ t.Moving ∧ t.waited + 1 ≠ btCmdTimeout := by
  split_ifs at h with hlast
  · simp [Moving, h.1, hlast]
  · simp [Moving, h.1, hlast]

/-! ### Whole runs -/

@[simp]
theorem run_nil : run [] = some init :=
  rfl

theorem run_concat {events : List Task2Event} {t : Task2} (h : run events = some t)
    (e : Task2Event) : run (events ++ [e]) = t.step e := by
  rw [run, List.foldlM_append, ← run, h]
  simp

/-- The task never gets stuck, and has waited for the ticks since the last packet, modulo the
time allowed. -/
theorem run_waited (events : List Task2Event) :
    ∃ t, run events = some t ∧ t.waited = trailing events % btCmdTimeout := by
  induction events using List.reverseRecOn with
  | nil => exact ⟨init, rfl, by simp [init, trailing]⟩
  | append_singleton events e ih =>
    obtain ⟨t, ht, hwaited⟩ := ih
    cases e with
    | packet p =>
      obtain ⟨u, hu, -, hu'⟩ := t.step_packet p
      exact ⟨u, by rw [run_concat ht, hu], by simp [hu']⟩
    | tick =>
      obtain ⟨u, hu, hu'⟩ := t.step_tick
      refine ⟨u, by rw [run_concat ht, hu], ?_⟩
      -- the wait counts up to the timeout, and then the loop pends afresh
      rw [trailing_concat_tick]
      unfold btCmdTimeout at hwaited hu' ⊢
      split_ifs at hu' with hlast
      · rw [hu'.2]; omega
      · rw [hu'.2]; omega

/-- The motors are moving because of the last packet with a letter. -/
theorem moving_decompose {events : List Task2Event} {t : Task2} (h : run events = some t)
    (hmoving : t.Moving) :
    ∃ pre p mid, events = pre ++ .packet p :: mid ∧ p.LeavesMoving ∧
      ∀ e ∈ mid, e.hasLetter = false := by
  induction events using List.reverseRecOn generalizing t with
  | nil =>
    obtain rfl : init = t := by simpa using h
    obtain ⟨word, hword, -⟩ := hmoving
    cases hword
  | append_singleton events e ih =>
    obtain ⟨s, hs, -⟩ := run_waited events
    rw [run_concat hs] at h
    -- an event without a letter only prolongs what there was before
    have hextend : s.Moving → e.hasLetter = false → ∃ pre p mid,
        events ++ [e] = pre ++ .packet p :: mid ∧ p.LeavesMoving ∧
          ∀ e ∈ mid, e.hasLetter = false := by
      intro hmoving he
      obtain ⟨pre, p, mid, rfl, hp, hmid⟩ := ih hs hmoving
      refine ⟨pre, p, mid ++ [e], by simp, hp, fun e' he' ↦ ?_⟩
      rcases List.mem_append.1 he' with he' | he'
      · exact hmid e' he'
      · rw [List.mem_singleton.1 he', he]
    cases e with
    | tick =>
      obtain ⟨u, hu, hu'⟩ := s.step_tick
      obtain rfl : u = t := Option.some.inj (hu.symm.trans h)
      exact hextend ((moving_of_tick hu').1 hmoving).1 rfl
    | packet q =>
      obtain ⟨u, hu, hu', -⟩ := s.step_packet q
      obtain rfl : u = t := Option.some.inj (hu.symm.trans h)
      rcases (moving_of_packet hu').1 hmoving with hq | ⟨hq, hmoving⟩
      · exact ⟨events, q, [], rfl, hq, by simp⟩
      · exact hextend hmoving (by simp [hasLetter, hq])

end Task2

/-! ### The stop in time -/

/-- In every state of a run, if the last word written is a moving one then fewer than
`BT_CMD_TIMEOUT` ticks have been spent waiting since the last packet with a command letter. -/
def InTime (events : List Task2Event) : Prop :=
  ∀ pre, pre <+: events →
    ∃ t, Task2.run pre = some t ∧ (t.Moving → ticksSince pre < btCmdTimeout)

/-- Whenever a packet leaves the motors moving and no command letter comes in the time allowed,
no packet comes between the ticks of that time. -/
def Undisturbed (events : List Task2Event) : Prop :=
  ∀ pre p mid, pre ++ .packet p :: mid ++ [.tick] <+: events → p.LeavesMoving →
    (∀ e ∈ mid, e.hasLetter = false) → ticks mid + 1 = btCmdTimeout → trailing mid = ticks mid

/-- Within the time allowed a moving packet keeps the motors moving. -/
theorem Task2.moving_of_leavesMoving (pre : List Task2Event) {p : SoundPacket}
    (hp : p.LeavesMoving) {mid : List Task2Event} (hmid : ∀ e ∈ mid, e.hasLetter = false)
    (hticks : ticks mid < btCmdTimeout) {t : Task2}
    (ht : Task2.run (pre ++ .packet p :: mid) = some t) : t.Moving := by
  induction mid using List.reverseRecOn generalizing t with
  | nil =>
    obtain ⟨s, hs, -⟩ := run_waited pre
    obtain ⟨u, hu, hu', -⟩ := s.step_packet p
    rw [run_concat hs, hu] at ht
    obtain rfl := Option.some.inj ht
    exact (moving_of_packet hu').2 (Or.inl hp)
  | append_singleton mid e ih =>
    obtain ⟨s, hs, hwaited⟩ := run_waited (pre ++ .packet p :: mid)
    rw [← List.cons_append, ← List.append_assoc, run_concat hs] at ht
    have hmid' : ∀ e ∈ mid, e.hasLetter = false := fun e he ↦ hmid e (by simp [he])
    cases e with
    | tick =>
      rw [ticks_concat_tick] at hticks
      obtain ⟨u, hu, hu'⟩ := s.step_tick
      obtain rfl : u = t := Option.some.inj (hu.symm.trans ht)
      refine (moving_of_tick hu').2 ⟨ih hmid' (by omega) hs, ?_⟩
      -- the wait has not begun before the packet
      rw [hwaited, trailing_append_packet]
      have := trailing_le_ticks mid
      rw [Nat.mod_eq_of_lt (by omega)]
      omega
    | packet q =>
      rw [ticks_concat_packet] at hticks
      obtain ⟨u, hu, hu', -⟩ := s.step_packet q
      obtain rfl : u = t := Option.some.inj (hu.symm.trans ht)
      have hq := hmid (.packet q) (by simp)
      exact (moving_of_packet hu').2 (Or.inr ⟨by simpa [hasLetter] using hq, ih hmid' hticks hs⟩)

/-- **When the motors stop in time.** Exactly in the runs in which, after a packet that leaves
the motors moving, no packet without a command letter falls between the ticks of the time
allowed. -/
theorem inTime_iff_undisturbed (events : List Task2Event) :
    InTime events ↔ Undisturbed events := by
  constructor
  · intro h pre p mid hpre hp hmid hticks
    obtain ⟨s, hs, hwaited⟩ := Task2.run_waited (pre ++ .packet p :: mid)
    have hmoving := Task2.moving_of_leavesMoving pre hp hmid (by omega) hs
    obtain ⟨t, ht, htime⟩ := h _ hpre
    rw [Task2.run_concat hs] at ht
    obtain ⟨u, hu, hu'⟩ := s.step_tick
    obtain rfl : u = t := Option.some.inj (hu.symm.trans ht)
    rw [ticksSince_concat_tick, ticksSince_eq hp.hasLetter pre hmid] at htime
    -- otherwise this tick would stop nothing, and the motors would move for too long
    have hlast : s.waited + 1 = btCmdTimeout := by
      by_contra hne
      have := htime ((Task2.moving_of_tick hu').2 ⟨hmoving, hne⟩)
      omega
    rw [hwaited, trailing_append_packet] at hlast
    have := trailing_le_ticks mid
    rw [Nat.mod_eq_of_lt (by omega)] at hlast
    omega
  · intro h pre hpre
    induction pre using List.reverseRecOn with
    | nil =>
      exact ⟨.init, rfl, fun _ ↦ by simp [ticksSince, ticks, btCmdTimeout]⟩
    | append_singleton pre e ih =>
      obtain ⟨s, hs, htime⟩ := ih ((List.prefix_append _ _).trans hpre)
      obtain ⟨s', hs', hwaited⟩ := Task2.run_waited pre
      obtain rfl : s = s' := Option.some.inj (hs.symm.trans hs')
      cases e with
      | packet q =>
        obtain ⟨u, hu, hu', -⟩ := s.step_packet q
        refine ⟨u, by rw [Task2.run_concat hs, hu], fun hmoving ↦ ?_⟩
        rw [ticksSince_concat_packet]
        split_ifs with hq
        · simp [btCmdTimeout]
        · rcases (Task2.moving_of_packet hu').1 hmoving with hq' | ⟨-, hmoving⟩
          · exact absurd hq'.hasLetter hq
          · exact htime hmoving
      | tick =>
        obtain ⟨u, hu, hu'⟩ := s.step_tick
        refine ⟨u, by rw [Task2.run_concat hs, hu], fun hmoving ↦ ?_⟩
        obtain ⟨hmoving, hlast⟩ := (Task2.moving_of_tick hu').1 hmoving
        have hlt := htime hmoving
        rw [ticksSince_concat_tick]
        by_contra hge
        -- the time is over with this tick, and the task has not noticed
        obtain ⟨pre', p, mid, rfl, hp, hmid⟩ := Task2.moving_decompose hs hmoving
        rw [ticksSince_eq hp.hasLetter pre' hmid] at hlt hge
        have htrailing := h pre' p mid hpre hp hmid (by omega)
        rw [trailing_append_packet, htrailing, Nat.mod_eq_of_lt hlt] at hwaited
        omega

/-- The motors do not always stop in time: a forward command, and then an empty packet in the
middle of the time allowed. -/
theorem not_inTime_of_empty_packet :
    ¬ InTime (.packet (.ofPayload [btCmdForward]) :: List.replicate 500 .tick ++
      .packet (.ofPayload []) :: List.replicate 500 .tick) := by
  intro h
  obtain ⟨t, ht, htime⟩ := h _ (List.prefix_refl _)
  have hlast : (Task2.run (.packet (.ofPayload [btCmdForward]) :: List.replicate 500 .tick ++
      .packet (.ofPayload []) :: List.replicate 500 .tick)).map (·.written.getLast?) =
      some (some 0xA) := by
    decide +kernel
  rw [ht, Option.map_some, Option.some.injEq] at hlast
  exact absurd (htime ⟨0xA, hlast, by decide⟩) (by decide +kernel)

end MappingRobot
