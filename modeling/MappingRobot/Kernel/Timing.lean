import MappingRobot.Kernel.Schedule

/-!
# Delays and timeouts

A task that has delayed itself, or that waits with a timeout, sleeps until its ticks have gone by:
no other task and no interrupt can change its TCB, except that a post to the queue it waits for
ends its wait. `Asleep` carries the number of ticks still to go through a run.

Only a task that has locked the scheduler before it delays itself goes on running, and is not
asleep; with the scheduler not locked it is gone after its next `OS_Sched`.
-/

namespace MappingRobot

open LabelledRun

namespace Kernel

variable {ι α : Type} {C : Config ι} {k k' : Kernel C α} {null : α} {p : Prio}

/-- The task has `n` ticks to sleep, in `OSQPend` for the queue `q` or in `OSTimeDly`. In `OSQPend`
no ticks are no end. -/
structure Asleep (k : Kernel C α) (p : Prio) (q : Option ι) (n : ℕ) : Prop where
  dly : (k.tcb p).osTCBDly.toNat = n
  waits : n ≠ 0 ∨ (k.tcb p).osTCBStat = osStatQ
  queue : (k.call p).queue = q
  gone : p ≠ k.osPrioCur ∨ (k.osLockNesting = 0#8 ∧ ¬ (k.call k.osPrioCur).Passed)

/-- The action posts to the queue. -/
def Action.PostsTo (i : ι) : Action ι α → Prop
  | .post j _ | .isrPost j _ => j = i
  | .pend .. | .dly _ | .lock | .unlock | .sched | .resume | .intEnter | .tick | .intExit => False

/-- The number of ticks of an action. -/
def Action.ticks : Action ι α → ℕ
  | .tick => 1
  | _ => 0

namespace Asleep

variable {q : Option ι} {n : ℕ}

theorem dly_eq_zero_iff (h : Asleep k p q n) : (k.tcb p).osTCBDly = 0#16 ↔ n = 0 := by
  rw [← h.dly, ← BitVec.toNat_inj]
  rfl

theorem not_mem_osRdy (h : Asleep k p q n) (hk : Consistent k) : p ∉ k.osRdy := by
  intro hp
  obtain ⟨-, hstat, hdly⟩ := hk.mem_osRdy.1 hp
  rcases h.waits with hn | hq
  · exact hn (h.dly_eq_zero_iff.1 hdly)
  · rw [hstat] at hq
    exact absurd hq (by decide)

/-- A task that is asleep is not the first ready one. -/
theorem ne_highest (h : Asleep k p q n) (hk : Consistent k) : p ≠ k.osRdy.highest := by
  rintro rfl
  exact h.not_mem_osRdy hk hk.isLeast_highest.1

/-- A task that is asleep does not run. -/
theorem ne_cur (h : Asleep k p q n) (hpassed : (k.call k.osPrioCur).Passed) :
    p ≠ k.osPrioCur :=
  h.gone.resolve_right fun hnot ↦ hnot.2 hpassed

/-- A step that changes nothing for the task, and after which it is not the running one. -/
theorem congr (h : Asleep k p q n) (htcb : k'.tcb p = k.tcb p)
    (hqueue : (k'.call p).queue = (k.call p).queue)
    (hgone : p ≠ k'.osPrioCur ∨ (k'.osLockNesting = 0#8 ∧ ¬ (k'.call k'.osPrioCur).Passed)) :
    Asleep k' p q n where
  dly := by rw [htcb, h.dly]
  waits := by rw [htcb]; exact h.waits
  queue := by rw [hqueue, h.queue]
  gone := hgone

/-- `OS_Sched` does not choose the task. -/
theorem osSched (h : Asleep k p q n) (hk : Consistent k) : Asleep k.osSched p q n := by
  obtain ⟨-, htcb, -, hcall, -, hlock⟩ := osSched_frame k
  refine h.congr (by rw [htcb]) (by rw [hcall]) ?_
  by_cases hzero : k.osIntNesting = 0#8 ∧ k.osLockNesting = 0#8
  · rw [osSched_eq hzero.1 hzero.2]
    exact Or.inl (h.ne_highest hk)
  · rw [osSched_of_not hzero]
    exact h.gone

/-- Another task goes to `OS_Sched`, or an interrupt calls it. -/
theorem callSched (h : Asleep k p q n) (hne : k.osIntNesting = 0#8 → p ≠ k.osPrioCur) :
    Asleep (k.callSched .sched) p q n := by
  unfold Kernel.callSched
  split_ifs with hint
  · have hcur := hne hint
    exact h.congr rfl (by simp [goto, hcur]) (Or.inl hcur)
  · rwa [osSched_of_osIntNesting hint]

/-- The task itself goes through `OS_Sched`, or another one does. -/
theorem throughSched (h : Asleep k p q n) (hk : Consistent k) (hint : k.osIntNesting = 0#8)
    (hstep : k.throughSched = some k') : Asleep k' p q n := by
  obtain ⟨htcb, -, hqueue, -⟩ := throughSched_frame hstep
  refine h.congr (by rw [htcb]) (hqueue p) (Or.inl ?_)
  have hcur : ∀ c : Call ι, p ≠ ((k.goto c).osSched).osPrioCur := by
    intro c
    by_cases hlock : k.osLockNesting = 0#8
    · rw [osSched_eq (k := k.goto c) hint hlock]
      exact h.ne_highest hk
    · rw [osSched_of_not (k := k.goto c) fun hzero ↦ hlock hzero.2]
      exact h.gone.resolve_right fun hnot ↦ hlock hnot.1
  unfold Kernel.throughSched at hstep
  cases hcall : k.call k.osPrioCur <;> simp only [hcall, reduceCtorEq] at hstep
  · exact Option.some.inj hstep ▸ hcur _
  · exact Option.some.inj hstep ▸ hcur _

/-- A tick that is not the last. -/
theorem osTimeTick (h : Asleep k p q n) (hk : Consistent k) (hp : p ∈ C.osTCBList)
    (hn : n ≠ 0 → 1 < n) : Asleep k.osTimeTick p q (n - 1) := by
  obtain ⟨hcur, hcall, -, hlock, -⟩ := osTimeTick_frame k
  have hgone : p ≠ k.osTimeTick.osPrioCur ∨ (k.osTimeTick.osLockNesting = 0#8 ∧
      ¬ (k.osTimeTick.call k.osTimeTick.osPrioCur).Passed) := by
    rw [hcur, hcall, hlock]
    exact h.gone
  have hdly := h.dly
  rcases hk.osTimeTick_cases hp with ⟨hzero, heq⟩ | ⟨hzero, -, heq⟩ | ⟨hone, -⟩
  · obtain rfl : n = 0 := h.dly_eq_zero_iff.1 hzero
    exact h.congr heq (by rw [hcall]) hgone
  · have hpos : n ≠ 0 := fun hn ↦ hzero (h.dly_eq_zero_iff.2 hn)
    have hlt := hn hpos
    refine ⟨?_, Or.inl (by omega), by rw [hcall, h.queue], hgone⟩
    rw [heq]
    change ((k.tcb p).osTCBDly - 1#16).toNat = n - 1
    bv_omega
  · rw [hone] at hdly
    have hlt := hn (by simp at hdly; omega)
    simp at hdly
    omega

/-- The last tick makes the task ready; if it was in `OSQPend`, its wait has timed out. -/
theorem osTimeTick_one (h : Asleep k p q 1) (hk : Consistent k) (hp : p ∈ C.osTCBList) :
    p ∈ k.osTimeTick.osRdy ∧ (q ≠ none → (k.osTimeTick.tcb p).osTCBStatPend = .pendTo) := by
  have hone : (k.tcb p).osTCBDly = 1#16 := BitVec.eq_of_toNat_eq h.dly
  have hdly : (k.tcb p).osTCBDly ≠ 0#16 := by simp [hone]
  rcases hk.osTimeTick_cases hp with ⟨hzero, -⟩ | ⟨-, hne, -⟩ | ⟨-, hready, heq⟩
  · exact absurd hzero hdly
  · exact absurd hone hne
  · refine ⟨hready, fun hq ↦ ?_⟩
    obtain ⟨i, hi⟩ := Option.ne_none_iff_exists'.1 hq
    have hstat : (k.tcb p).osTCBStat = osStatQ := by
      rcases (hk.task p).stat with hstat | ⟨hstat, -⟩
      · exact absurd ((hk.task p).dly_eq_zero i (h.queue.trans hi) hstat) hdly
      · exact hstat
    simp [heq, hstat]

variable [DecidableEq ι]

theorem osQPost (h : Asleep k p q n) (hk : Consistent k) {i : ι} (msg : α) (hi : q ≠ some i)
    (hne : k.osIntNesting = 0#8 → p ≠ k.osPrioCur) : Asleep (k.osQPost i msg).2 p q n := by
  rcases hk.osQPost_cases i msg with ⟨hwait, heq⟩ | ⟨-, hroom, heq⟩ | ⟨-, -, heq⟩
  · rw [heq]
    have hother : p ≠ (k.event i).wait.highest := by
      rintro rfl
      exact hi (h.queue.symm.trans (hk.mem_wait.1 (highest_mem_wait hwait)).1)
    have hgive : Asleep (k.give i (k.event i).wait.highest msg) p q n :=
      h.congr (tcb_give_of_ne hother) rfl h.gone
    exact hgive.callSched hne
  · rw [heq]
    exact h.congr rfl rfl h.gone
  · rw [heq]
    exact h

/-- **A task that is asleep** stays so through every step that is neither its last tick nor a post
to the queue it waits for, and has a tick less to go after a tick. -/
theorem step (h : Asleep k p q n) (hk : Scheduled k) (hp : p ∈ C.osTCBList) {a : Action ι α}
    (hstep : Step null k a k') (hticks : n ≠ 0 → a.ticks < n)
    (hpost : ∀ i, q = some i → ¬ a.PostsTo i) :
    Asleep k' p q (n - a.ticks) := by
  cases a with
  | post i msg =>
    obtain ⟨huser, rfl⟩ := hstep.post
    exact h.osQPost hk.consistent msg (fun hi ↦ hpost i hi rfl) fun _ ↦ h.ne_cur (Or.inl huser.2)
  | isrPost i msg =>
    obtain ⟨hint, rfl⟩ := hstep.isrPost
    exact h.osQPost hk.consistent msg (fun hi ↦ hpost i hi rfl) fun hzero ↦ absurd hzero hint
  | pend i timeout =>
    obtain ⟨⟨huser, -⟩, rfl⟩ := hstep.pend
    have hne := h.ne_cur (Or.inl huser.2)
    rcases hk.consistent.osQPend_cases i timeout huser.2 with
      ⟨err, heq⟩ | ⟨-, hcount, heq⟩ | ⟨-, -, heq⟩ <;> rw [heq]
    · exact h
    · exact h.congr rfl rfl h.gone
    · exact h.congr (tcb_await_of_ne hne) (by rw [call_await_of_ne hne]) (Or.inl hne)
  | dly ticks =>
    obtain ⟨⟨huser, -⟩, rfl⟩ := hstep.dly
    have hne := h.ne_cur (Or.inl huser.2)
    rcases eq_or_ne ticks 0#16 with rfl | hzero
    · rw [osTimeDly_of_not (Or.inr rfl)]
      exact h
    · rw [osTimeDly_eq huser.1 hzero]
      exact h.congr (by simp [goto, setTcb, hne]) (by simp [goto, setTcb, hne]) (Or.inl hne)
  | lock =>
    obtain ⟨huser, rfl⟩ := hstep.lock
    have hne := h.ne_cur (Or.inl huser.2)
    unfold Kernel.osSchedLock
    split_ifs <;> exact h.congr rfl rfl (Or.inl hne)
  | unlock =>
    obtain ⟨huser, rfl⟩ := hstep.unlock
    have hne := h.ne_cur (Or.inl huser.2)
    unfold Kernel.osSchedUnlock
    dsimp only
    split_ifs
    · have hunlock : Asleep { k with osLockNesting := k.osLockNesting - 1#8 } p q n :=
        h.congr rfl rfl (Or.inl hne)
      exact hunlock.callSched fun _ ↦ hne
    all_goals exact h.congr rfl rfl (Or.inl hne)
  | sched => exact h.throughSched hk.consistent hstep.sched.1 hstep.sched.2
  | resume =>
    obtain ⟨i, hint, hcall, rfl⟩ := hstep.resume
    have hne := h.ne_cur (Or.inr ⟨i, hcall⟩)
    rw [hk.consistent.osQPendReturn_eq null hcall (hk.mem_osRdy_of_resume hint hcall)]
    exact h.congr (tcb_leave_of_ne hne) (by rw [call_leave_of_ne hne]) (Or.inl hne)
  | intEnter =>
    obtain rfl := Option.some.inj hstep
    unfold Kernel.osIntEnter
    split_ifs <;> exact h.congr rfl rfl h.gone
  | tick =>
    obtain ⟨-, rfl⟩ := hstep.tick
    exact h.osTimeTick hk.consistent hp hticks
  | intExit =>
    obtain ⟨hint, rfl⟩ := hstep.intExit
    rw [osIntExit_eq hint]
    have hconsistent : Consistent { k with osIntNesting := k.osIntNesting - 1#8 } :=
      hk.consistent.congr rfl rfl rfl fun _ _ ↦ Iff.rfl
    have hexit : Asleep { k with osIntNesting := k.osIntNesting - 1#8 } p q n :=
      h.congr rfl rfl h.gone
    exact hexit.osSched hconsistent

/-- A run in which the task goes on sleeping. -/
theorem run (h : Asleep k p q n) (hk : Scheduled k) (hp : p ∈ C.osTCBList)
    {as : List (Action ι α)} (hrun : Run (Step null) k as k')
    (hticks : n ≠ 0 → (as.map Action.ticks).sum < n)
    (hpost : ∀ i, q = some i → ∀ a ∈ as, ¬ a.PostsTo i) :
    Scheduled k' ∧ Asleep k' p q (n - (as.map Action.ticks).sum) := by
  revert hticks hpost
  refine hrun.history (I := fun as k' ↦ (n ≠ 0 → (as.map Action.ticks).sum < n) →
    (∀ i, q = some i → ∀ a ∈ as, ¬ a.PostsTo i) →
      Scheduled k' ∧ Asleep k' p q (n - (as.map Action.ticks).sum)) (fun _ _ ↦ ⟨hk, h⟩) ?_
  intro as k₁ a k₂ ih hstep hticks hpost
  simp only [List.map_append, List.map_cons, List.map_nil, List.sum_append, List.sum_cons,
    List.sum_nil] at hticks ⊢
  obtain ⟨hk₁, h₁⟩ := ih (fun hn ↦ by have := hticks hn; omega)
    fun i hi b hb ↦ hpost i hi b (List.mem_append_left _ hb)
  have h₂ := h₁.step hk₁ hp hstep (fun hn ↦ by have := hticks (by omega); omega)
    fun i hi ↦ hpost i hi a (by simp)
  exact ⟨hk₁.step hstep, by rwa [Nat.sub_sub] at h₂⟩

end Asleep

/-- A task on the list of TCBs, if it is not the idle task. -/
theorem Scheduled.cur_mem_osTCBList (h : Scheduled k) (huser : k.AtUser)
    (hlock : k.osLockNesting = 0#8) (hidle : k.osPrioCur ≠ osTaskIdlePrio) :
    k.osPrioCur ∈ C.osTCBList :=
  (h.consistent.mem_osRdy.1 (h.mem_osRdy huser.1 hlock (Or.inl huser.2))).1.resolve_right hidle

section

variable [DecidableEq ι]

/-- **A delay lasts as many ticks as it says.** A task calls `OSTimeDly` with the scheduler not
locked. Whatever the other tasks and the interrupts do, it is not ready before that many ticks
have come, and it is when they have. -/
theorem delay_of_run {before as : List (Action ι α)} {k₀ k₁ k₂ k₃ : Kernel C α}
    {ticks : BitVec 16} (hbefore : Run (Step null) (osStart C null) before k₀)
    (hlock : k₀.osLockNesting = 0#8) (hdly : Step null k₀ (.dly ticks) k₁) (hne : ticks ≠ 0#16)
    (hrun : Run (Step null) k₁ as k₂) :
    ((as.map Action.ticks).sum < ticks.toNat → k₀.osPrioCur ∉ k₂.osRdy) ∧
      ((as.map Action.ticks).sum + 1 = ticks.toNat → Step null k₂ .tick k₃ →
        k₀.osPrioCur ∈ k₃.osRdy) := by
  have hk₀ := scheduled_of_run hbefore
  obtain ⟨⟨huser, hidle⟩, heq⟩ := hdly.dly
  have hmem := hk₀.cur_mem_osTCBList huser hlock hidle
  have hpos : ticks.toNat ≠ 0 := fun h ↦ hne (BitVec.eq_of_toNat_eq h)
  have hasleep : Asleep k₁ k₀.osPrioCur none ticks.toNat := by
    have hcall : k₁.call k₀.osPrioCur = .sched := by
      rw [heq, osTimeDly_eq huser.1 hne]
      exact Function.update_self _ _ _
    have htcb : (k₁.tcb k₀.osPrioCur).osTCBDly = ticks := by
      rw [heq, osTimeDly_eq huser.1 hne]
      simp [goto, setTcb]
    have hcur : k₁.osPrioCur = k₀.osPrioCur ∧ k₁.osLockNesting = 0#8 := by
      rw [heq, osTimeDly_eq huser.1 hne]
      exact ⟨rfl, hlock⟩
    refine ⟨by rw [htcb], Or.inl hpos, by rw [hcall]; rfl, Or.inr ⟨hcur.2, ?_⟩⟩
    rw [hcur.1, hcall]
    simp [Call.Passed]
  have hk₁ := hk₀.step hdly
  refine ⟨fun hlt ↦ ?_, fun hlast htick ↦ ?_⟩
  · obtain ⟨hk₂, hasleep₂⟩ := hasleep.run hk₁ hmem hrun (fun _ ↦ hlt) (by simp)
    exact hasleep₂.not_mem_osRdy hk₂.consistent
  · obtain ⟨hk₂, hasleep₂⟩ := hasleep.run hk₁ hmem hrun (fun _ ↦ by omega) (by simp)
    rw [show ticks.toNat - (as.map Action.ticks).sum = 1 by omega] at hasleep₂
    obtain ⟨-, rfl⟩ := htick.tick
    exact (hasleep₂.osTimeTick_one hk₂.consistent hmem).1

/-- A delay of two ticks. -/
theorem delay_of_run_two : ∃ k₁ k₂ k₃ : Kernel pairConfig ℕ,
    Step 0 (osStart pairConfig 0) (.dly 2#16) k₁ ∧
      Run (Step 0) k₁ [.sched, .intEnter, .tick] k₂ ∧ Step 0 k₂ .tick k₃ ∧
      ⟨5, by decide⟩ ∈ k₃.osRdy := by
  have heval : ((do
      let k₁ ← (osStart pairConfig 0).step 0 (.dly 2#16)
      let k₂ ← [.sched, .intEnter, .tick].foldlM (step 0) k₁
      let k₃ ← k₂.step 0 .tick
      some (k₁, k₂, k₃)) : Option _).isSome = true := by
    decide +kernel
  obtain ⟨⟨k₁, k₂, k₃⟩, heq⟩ := Option.isSome_iff_exists.1 heval
  obtain ⟨k₁', h₁, heq⟩ := Option.bind_eq_some_iff.1 heq
  obtain ⟨k₂', h₂, heq⟩ := Option.bind_eq_some_iff.1 heq
  obtain ⟨k₃', h₃, heq⟩ := Option.bind_eq_some_iff.1 heq
  cases heq
  exact ⟨k₁, k₂, k₃, h₁, run_foldlM_iff.2 h₂, h₃, (delay_of_run (.nil _) rfl h₁ (by decide)
    (run_foldlM_iff.2 h₂)).2 rfl h₃⟩

/-- **A timeout is kept.** A task calls `OSQPend` and has to wait. As long as nothing is posted to
the queue, the task is not ready before the ticks of its timeout have come, for ever if that is 0,
and when they have come it is ready, with its wait timed out. -/
theorem timeout_of_run {before as : List (Action ι α)} {k₀ k₁ k₂ k₃ : Kernel C α} {i : ι}
    {timeout : BitVec 16} (hbefore : Run (Step null) (osStart C null) before k₀)
    (hpend : Step null k₀ (.pend i timeout) k₁) (hwaits : (k₁.call k₀.osPrioCur).PendsOn i)
    (hrun : Run (Step null) k₁ as k₂) (hpost : ∀ a ∈ as, ¬ a.PostsTo i) :
    ((timeout ≠ 0#16 → (as.map Action.ticks).sum < timeout.toNat) →
        k₀.osPrioCur ∉ k₂.osRdy) ∧
      ((as.map Action.ticks).sum + 1 = timeout.toNat → Step null k₂ .tick k₃ →
        k₀.osPrioCur ∈ k₃.osRdy ∧ (k₃.tcb k₀.osPrioCur).osTCBStatPend = .pendTo) := by
  have hk₀ := scheduled_of_run hbefore
  have hk₁ := hk₀.step hpend
  obtain ⟨⟨huser, hidle⟩, heq⟩ := hpend.pend
  obtain ⟨hlock, hawait⟩ : k₀.osLockNesting = 0#8 ∧ k₁ = k₀.await i timeout := by
    rcases hk₀.consistent.osQPend_cases i timeout huser.2 with
      ⟨err, hcase⟩ | ⟨-, hcount, hcase⟩ | ⟨hlock, -, hcase⟩ <;> rw [hcase] at heq
    · simp [heq, huser.2] at hwaits
    · simp [heq, setQ, huser.2] at hwaits
    · exact ⟨hlock, heq⟩
  have hmem := hk₀.cur_mem_osTCBList huser hlock hidle
  have hasleep : Asleep k₁ k₀.osPrioCur (some i) timeout.toNat := by
    have hcall : k₁.call k₀.osPrioCur = .schedPend i := hawait ▸ call_await_self
    have hcur : k₁.osPrioCur = k₀.osPrioCur ∧ k₁.osLockNesting = 0#8 := hawait ▸ ⟨rfl, hlock⟩
    refine ⟨by rw [hawait, tcb_await_self], Or.inr (by rw [hawait, tcb_await_self]),
      hwaits, Or.inr ⟨hcur.2, ?_⟩⟩
    rw [hcur.1, hcall]
    simp [Call.Passed]
  have hquiet : ∀ j, some i = some j → ∀ a ∈ as, ¬ a.PostsTo j := by
    rintro j hj
    exact Option.some.inj hj ▸ hpost
  refine ⟨fun hlt ↦ ?_, fun hlast htick ↦ ?_⟩
  · obtain ⟨hk₂, hasleep₂⟩ := hasleep.run hk₁ hmem hrun
      (fun hn ↦ hlt fun hzero ↦ hn (by simp [hzero])) hquiet
    exact hasleep₂.not_mem_osRdy hk₂.consistent
  · obtain ⟨hk₂, hasleep₂⟩ := hasleep.run hk₁ hmem hrun (fun _ ↦ by omega) hquiet
    rw [show timeout.toNat - (as.map Action.ticks).sum = 1 by omega] at hasleep₂
    obtain ⟨-, rfl⟩ := htick.tick
    obtain ⟨hready, hpendTo⟩ := hasleep₂.osTimeTick_one hk₂.consistent hmem
    exact ⟨hready, hpendTo (by simp)⟩

/-- A wait of a tick for a queue to which nothing is posted. -/
theorem timeout_of_run_one : ∃ k₁ k₂ k₃ : Kernel pairConfig ℕ,
    Step 0 (osStart pairConfig 0) (.pend () 1#16) k₁ ∧
      Run (Step 0) k₁ [.sched, .dly 9#16, .intEnter] k₂ ∧ Step 0 k₂ .tick k₃ ∧
      ⟨5, by decide⟩ ∈ k₃.osRdy ∧ (k₃.tcb ⟨5, by decide⟩).osTCBStatPend = .pendTo := by
  have heval : ((do
      let k₁ ← (osStart pairConfig 0).step 0 (.pend () 1#16)
      let k₂ ← [.sched, .dly 9#16, .intEnter].foldlM (step 0) k₁
      let k₃ ← k₂.step 0 .tick
      if (k₁.call (osStart pairConfig 0).osPrioCur).queue = some () then some (k₁, k₂, k₃)
      else none) : Option _).isSome = true := by
    decide +kernel
  obtain ⟨⟨k₁, k₂, k₃⟩, heq⟩ := Option.isSome_iff_exists.1 heval
  obtain ⟨k₁', h₁, heq⟩ := Option.bind_eq_some_iff.1 heq
  obtain ⟨k₂', h₂, heq⟩ := Option.bind_eq_some_iff.1 heq
  obtain ⟨k₃', h₃, heq⟩ := Option.bind_eq_some_iff.1 heq
  split_ifs at heq with hwaits
  cases heq
  exact ⟨k₁, k₂, k₃, h₁, run_foldlM_iff.2 h₂, h₃, (timeout_of_run (.nil _) h₁ hwaits
    (run_foldlM_iff.2 h₂) (by simp [Action.PostsTo])).2 rfl h₃⟩

end

/-! ### `OSTimeDlyHMSM` -/

/-- `OS_TICKS_PER_SEC` -/
def osTicksPerSec : BitVec 32 := 1000

/-- `OS_ERR_TIME_INVALID_MINUTES` -/
def osErrTimeInvalidMinutes : BitVec 8 := 81

/-- `OS_ERR_TIME_INVALID_SECONDS` -/
def osErrTimeInvalidSeconds : BitVec 8 := 82

/-- `OS_ERR_TIME_INVALID_MS` -/
def osErrTimeInvalidMs : BitVec 8 := 83

/-- `OS_ERR_TIME_ZERO_DLY` -/
def osErrTimeZeroDly : BitVec 8 := 84

/-- `OS_ERR_TIME_DLY_ISR` -/
def osErrTimeDlyIsr : BitVec 8 := 85

/-- `OSTimeDlyHMSM`: the error, and the ticks of its calls of `OSTimeDly`. -/
def osTimeDlyHmsm (osIntNesting hours minutes seconds : BitVec 8) (ms : BitVec 16) :
    BitVec 8 × List (BitVec 16) :=
  if osIntNesting.toNat > 0 then (osErrTimeDlyIsr, [])
  else if hours = 0 ∧ minutes = 0 ∧ seconds = 0 ∧ ms = 0 then (osErrTimeZeroDly, [])
  else if minutes.toNat > 59 then (osErrTimeInvalidMinutes, [])
  else if seconds.toNat > 59 then (osErrTimeInvalidSeconds, [])
  else if ms.toNat > 999 then (osErrTimeInvalidMs, [])
  else
    let ticks : BitVec 32 :=
      (hours.setWidth 32 * 3600 + minutes.setWidth 32 * 60 + seconds.setWidth 32) * osTicksPerSec
        + osTicksPerSec * (ms.setWidth 32 + 500 / osTicksPerSec) / 1000
    let loops : BitVec 16 := (ticks >>> 16).setWidth 16
    let ticks := ticks &&& 0xFFFF
    (osErrNone, ticks.setWidth 16 :: (List.replicate loops.toNat [32768, 32768]).flatten)

/-- The ticks that `OSTimeDlyHMSM` computes do not overflow. -/
theorem toNat_ticks {hours minutes seconds : BitVec 8} {ms : BitVec 16} (hmin : minutes.toNat ≤ 59)
    (hsec : seconds.toNat ≤ 59) (hms : ms.toNat ≤ 999) :
    ((hours.setWidth 32 * 3600 + minutes.setWidth 32 * 60 + seconds.setWidth 32) * osTicksPerSec
      + osTicksPerSec * (ms.setWidth 32 + 500 / osTicksPerSec) / 1000).toNat =
    ((hours.toNat * 60 + minutes.toNat) * 60 + seconds.toNat) * 1000 + ms.toNat := by
  have hh := hours.isLt
  simp (disch := omega) only [osTicksPerSec, BitVec.toNat_add, BitVec.toNat_mul,
    BitVec.toNat_udiv, BitVec.toNat_setWidth, BitVec.ofNat_eq_ofNat, BitVec.toNat_ofNat,
    Nat.reducePow, Nat.reduceDiv, Nat.add_zero, Nat.mod_eq_of_lt]
  omega

/-- **The calls of `OSTimeDly` make up the time asked for**, one tick for each millisecond. -/
theorem sum_osTimeDlyHmsm {hours minutes seconds : BitVec 8} {ms : BitVec 16}
    (hmin : minutes.toNat ≤ 59) (hsec : seconds.toNat ≤ 59) (hms : ms.toNat ≤ 999)
    (hne : ¬ (hours = 0 ∧ minutes = 0 ∧ seconds = 0 ∧ ms = 0)) :
    (osTimeDlyHmsm 0 hours minutes seconds ms).1 = osErrNone ∧
      ((osTimeDlyHmsm 0 hours minutes seconds ms).2.map BitVec.toNat).sum =
        ((hours.toNat * 60 + minutes.toNat) * 60 + seconds.toNat) * 1000 + ms.toNat := by
  have hticks := @toNat_ticks hours _ _ _ hmin hsec hms
  have hh := hours.isLt
  unfold osTimeDlyHmsm
  rw [if_neg (by decide), if_neg hne, if_neg (by omega), if_neg (by omega), if_neg (by omega)]
  refine ⟨rfl, ?_⟩
  dsimp only
  generalize (hours.setWidth 32 * 3600 + minutes.setWidth 32 * 60 + seconds.setWidth 32) *
    osTicksPerSec + osTicksPerSec * (ms.setWidth 32 + 500 / osTicksPerSec) / 1000 = ticks at hticks
  have hlow : ((ticks &&& 0xFFFF).setWidth 16).toNat = ticks.toNat % 2 ^ 16 := by
    rw [BitVec.toNat_setWidth, BitVec.toNat_and]
    exact (congrArg (· % 2 ^ 16) (Nat.and_two_pow_sub_one_eq_mod ticks.toNat 16)).trans
      (Nat.mod_mod _ _)
  have hhigh : ((ticks >>> 16).setWidth 16).toNat = ticks.toNat / 2 ^ 16 := by
    rw [BitVec.toNat_setWidth, BitVec.toNat_ushiftRight, Nat.shiftRight_eq_div_pow]
    omega
  have hloops : ∀ n : ℕ, (((List.replicate n [32768, 32768]).flatten : List (BitVec 16)).map
      BitVec.toNat).sum = n * 2 ^ 16 := by
    intro n
    induction n with
    | zero => rfl
    | succ n ih =>
      rw [List.replicate_succ, List.flatten_cons, List.map_append, List.sum_append, ih]
      simp
      omega
  rw [List.map_cons, List.sum_cons, hlow, hhigh, hloops, ← hticks]
  omega

/-- A delay of more than `0xFFFF` ticks. -/
theorem sum_osTimeDlyHmsm_minutes :
    ((osTimeDlyHmsm 0 0 1 5 537).2.map BitVec.toNat).sum = 65537 :=
  (sum_osTimeDlyHmsm (by decide) (by decide) (by decide) (by decide)).2

end Kernel

end MappingRobot
