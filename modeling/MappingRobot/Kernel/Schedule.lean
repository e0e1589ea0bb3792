import MappingRobot.Kernel.Consistent
import MappingRobot.Library.Run

/-!
# Which task runs

The kernel under any tasks and any interrupts. In its own code a task may call any service at any
time, and the interrupts come when they like, nested or not, and post what they like; an action
that a task takes is one of the running task. `Scheduled` is the invariant of all this: the
tables agree, and outside interrupts, unless the scheduler is locked or the running task is about
to call `OS_Sched`, the running task is the first on the ready list.
-/

namespace MappingRobot

open LabelledRun

/-- The task has passed the `OS_Sched` of its last service. -/
def Call.Passed {ι : Type} (c : Call ι) : Prop :=
  c = .user ∨ ∃ i, c = .resume i

namespace Kernel

variable {ι α : Type} {C : Config ι} {k k' : Kernel C α}

/-- **The invariant of the kernel.** -/
structure Scheduled (k : Kernel C α) : Prop where
  consistent : Consistent k
  isLeast : k.osIntNesting = 0#8 → k.osLockNesting = 0#8 → (k.call k.osPrioCur).Passed →
    IsLeast {p | p ∈ k.osRdy} k.osPrioCur
  locked : k.osLockNesting ≠ 0#8 → k.call k.osPrioCur = .user ∨ k.call k.osPrioCur = .sched

/-- The running task is in its own code, and no interrupt is being served. -/
def AtUser (k : Kernel C α) : Prop :=
  k.osIntNesting = 0#8 ∧ k.call k.osPrioCur = .user

instance [DecidableEq ι] (k : Kernel C α) : Decidable k.AtUser :=
  inferInstanceAs (Decidable (_ ∧ _))

/-! ### What scheduling changes -/

/-- `OS_Sched` outside interrupts, with the scheduler not locked. -/
theorem osSched_eq (hint : k.osIntNesting = 0#8) (hlock : k.osLockNesting = 0#8) :
    k.osSched = { k with osPrioHighRdy := k.osRdy.highest, osPrioCur := k.osRdy.highest } := by
  by_cases hcur : k.osRdy.highest = k.osPrioCur
  · simp [osSched, osSchedNew, hint, hlock, hcur]
  · simp [osSched, osSchedNew, osCtxSw, hint, hlock, hcur]

theorem osSched_of_not (h : ¬ (k.osIntNesting = 0#8 ∧ k.osLockNesting = 0#8)) :
    k.osSched = k := by
  unfold osSched
  split_ifs with hint hlock
  · exact absurd ⟨hint, hlock⟩ h
  · rfl
  · rfl

/-- What `OS_Sched` leaves alone. -/
theorem osSched_frame (k : Kernel C α) : k.osSched.osRdy = k.osRdy ∧ k.osSched.tcb = k.tcb ∧
    k.osSched.event = k.event ∧ k.osSched.call = k.call ∧
      k.osSched.osIntNesting = k.osIntNesting ∧ k.osSched.osLockNesting = k.osLockNesting := by
  unfold osSched osSchedNew osCtxSw
  dsimp only
  split_ifs <;> exact ⟨rfl, rfl, rfl, rfl, rfl, rfl⟩

/-- `OSIntExit` leaves one level of interrupts, and then does what `OS_Sched` does. -/
theorem osIntExit_eq (h : k.osIntNesting ≠ 0#8) :
    k.osIntExit = osSched { k with osIntNesting := k.osIntNesting - 1#8 } := by
  have hpos : k.osIntNesting.toNat > 0 := by
    by_contra hzero
    exact h (BitVec.eq_of_toNat_eq (by simpa using hzero))
  unfold osIntExit osSched
  rw [if_pos hpos]

/-- **After `OS_Sched` the first ready task runs**, whatever ran before. -/
theorem Consistent.scheduled_osSched (h : Consistent k)
    (hlocked : k.osLockNesting ≠ 0#8 →
      k.call k.osPrioCur = .user ∨ k.call k.osPrioCur = .sched) : Scheduled k.osSched := by
  by_cases hzero : k.osIntNesting = 0#8 ∧ k.osLockNesting = 0#8
  · rw [osSched_eq hzero.1 hzero.2]
    exact {
      consistent := h.congr rfl rfl rfl fun _ _ ↦ Iff.rfl
      isLeast := fun _ _ _ ↦ h.isLeast_highest
      locked := fun hlock ↦ absurd hzero.2 hlock }
  · rw [osSched_of_not hzero]
    exact {
      consistent := h
      isLeast := fun hint hlock ↦ absurd ⟨hint, hlock⟩ hzero
      locked := hlocked }

/-- A critical section after which the running task is where it was, with the same tasks ready. -/
theorem Scheduled.congr (h : Scheduled k) (hconsistent : Consistent k')
    (hrdy : k'.osRdy = k.osRdy) (hcur : k'.osPrioCur = k.osPrioCur) (hcall : k'.call = k.call)
    (hint : k'.osIntNesting = k.osIntNesting) (hlock : k'.osLockNesting = k.osLockNesting) :
    Scheduled k' where
  consistent := hconsistent
  isLeast := by
    rw [hrdy, hcur, hcall, hint, hlock]
    exact h.isLeast
  locked := by
    rw [hcur, hcall, hlock]
    exact h.locked

/-- A critical section after which the running task is about to call `OS_Sched`. -/
theorem Consistent.scheduled_goto_sched (h : Consistent k)
    (hcall : ∀ i, ¬ (k.call k.osPrioCur).PendsOn i) : Scheduled (k.goto .sched) where
  consistent := h.goto fun i ↦ by simp [hcall]
  isLeast _ _ hpassed := by
    rcases hpassed with heq | ⟨i, heq⟩ <;> simp [Kernel.goto] at heq
  locked _ := Or.inr (by simp [Kernel.goto])

theorem Consistent.scheduled_callSched (h : Consistent k)
    (hcall : k.osIntNesting = 0#8 → ∀ i, ¬ (k.call k.osPrioCur).PendsOn i)
    (hlocked : k.osLockNesting ≠ 0#8 →
      k.call k.osPrioCur = .user ∨ k.call k.osPrioCur = .sched) :
    Scheduled (k.callSched .sched) := by
  unfold Kernel.callSched
  split_ifs with hint
  · exact h.scheduled_goto_sched (hcall hint)
  · exact h.scheduled_osSched hlocked

/-! ### Steps -/

/-- What can happen to the kernel. -/
inductive Action (ι α : Type)
  /-- The running task calls `OSQPost`. -/
  | post (i : ι) (msg : α)
  /-- The running task calls `OSQPend`. -/
  | pend (i : ι) (timeout : BitVec 16)
  /-- The running task calls `OSTimeDly`. -/
  | dly (ticks : BitVec 16)
  /-- The running task calls `OSSchedLock`. -/
  | lock
  /-- The running task calls `OSSchedUnlock`. -/
  | unlock
  /-- The running task goes through the `OS_Sched` it has come to. -/
  | sched
  /-- The running task returns from `OSQPend`. -/
  | resume
  /-- An interrupt begins. -/
  | intEnter
  /-- An interrupt calls `OSQPost`. -/
  | isrPost (i : ι) (msg : α)
  /-- An interrupt calls `OSTimeTick`. -/
  | tick
  /-- An interrupt ends. -/
  | intExit

/-- The running task goes through `OS_Sched`. -/
def throughSched (k : Kernel C α) : Option (Kernel C α) :=
  match k.call k.osPrioCur with
  | .sched => some (k.goto .user).osSched
  | .schedPend i => some (k.goto (.resume i)).osSched
  | .user | .resume _ => none

/-! ### Each service keeps the invariant -/

/-- A task that has passed its last `OS_Sched`, and is in its own code, is ready. -/
theorem Scheduled.mem_osRdy (h : Scheduled k) (hint : k.osIntNesting = 0#8)
    (hlock : k.osLockNesting = 0#8) (hpassed : (k.call k.osPrioCur).Passed) :
    k.osPrioCur ∈ k.osRdy :=
  (h.isLeast hint hlock hpassed).1

/-- A task that returns from `OSQPend` has not locked the scheduler. -/
theorem Scheduled.osLockNesting_of_resume (h : Scheduled k) {i : ι}
    (hcall : k.call k.osPrioCur = .resume i) : k.osLockNesting = 0#8 := by
  by_contra hlock
  rcases h.locked hlock with heq | heq <;> simp [hcall] at heq

theorem Scheduled.mem_osRdy_of_resume (h : Scheduled k) {i : ι} (hint : k.osIntNesting = 0#8)
    (hcall : k.call k.osPrioCur = .resume i) : k.osPrioCur ∈ k.osRdy :=
  h.mem_osRdy hint (h.osLockNesting_of_resume hcall) (Or.inr ⟨i, hcall⟩)

theorem Scheduled.osTimeDly (h : Scheduled k) (ticks : BitVec 16) (huser : k.AtUser)
    (hidle : k.osPrioCur ≠ osTaskIdlePrio) : Scheduled (k.osTimeDly ticks) := by
  have hconsistent := h.consistent.osTimeDly ticks fun _ ↦ ⟨huser.2, hidle⟩
  rcases eq_or_ne ticks 0#16 with rfl | hne
  · rwa [osTimeDly_of_not (Or.inr rfl)]
  · rw [osTimeDly_eq huser.1 hne] at hconsistent ⊢
    exact {
      consistent := hconsistent
      isLeast := fun _ _ hpassed ↦ by
        rcases hpassed with heq | ⟨j, heq⟩ <;> simp [setTcb, goto] at heq
      locked := fun _ ↦ Or.inr (by simp [setTcb, goto]) }

theorem Scheduled.osSchedLock (h : Scheduled k) (huser : k.AtUser) : Scheduled k.osSchedLock := by
  unfold Kernel.osSchedLock
  split_ifs with hint hlock
  · exact {
      consistent := h.consistent.congr rfl rfl rfl fun _ _ ↦ Iff.rfl
      isLeast := fun _ hzero ↦ by
        have : k.osLockNesting + 1#8 ≠ 0#8 := by bv_omega
        exact absurd hzero this
      locked := fun _ ↦ Or.inl huser.2 }
  · exact h
  · exact h

theorem Scheduled.osSchedUnlock (h : Scheduled k) (huser : k.AtUser) :
    Scheduled k.osSchedUnlock := by
  have hpends : ∀ j, ¬ (k.call k.osPrioCur).PendsOn j := by simp [huser.2]
  have hconsistent : Consistent { k with osLockNesting := k.osLockNesting - 1#8 } :=
    h.consistent.congr rfl rfl rfl fun _ _ ↦ Iff.rfl
  unfold Kernel.osSchedUnlock
  dsimp only
  split_ifs with hlock hzero hint
  · exact hconsistent.scheduled_callSched (fun _ ↦ hpends) fun _ ↦ Or.inl huser.2
  · exact absurd huser.1 hint
  · exact {
      consistent := hconsistent
      isLeast := fun _ hlock ↦ absurd hlock hzero
      locked := fun _ ↦ Or.inl huser.2 }
  · exact h

theorem Scheduled.osIntEnter (h : Scheduled k) : Scheduled k.osIntEnter := by
  unfold Kernel.osIntEnter
  split_ifs with hlt
  · exact {
      consistent := h.consistent.congr rfl rfl rfl fun _ _ ↦ Iff.rfl
      isLeast := fun hzero ↦ by
        have : k.osIntNesting + 1#8 ≠ 0#8 := by bv_omega
        exact absurd hzero this
      locked := h.locked }
  · exact h

/-- What `OSTimeTick` leaves alone. -/
theorem osTimeTick_frame (k : Kernel C α) : k.osTimeTick.osPrioCur = k.osPrioCur ∧
    k.osTimeTick.call = k.call ∧ k.osTimeTick.osIntNesting = k.osIntNesting ∧
      k.osTimeTick.osLockNesting = k.osLockNesting ∧ k.osTimeTick.event = k.event := by
  refine C.osTCBList.foldlRecOn (motive := fun k' : Kernel C α ↦ k'.osPrioCur = k.osPrioCur ∧
    k'.call = k.call ∧ k'.osIntNesting = k.osIntNesting ∧ k'.osLockNesting = k.osLockNesting ∧
      k'.event = k.event) _ ⟨rfl, rfl, rfl, rfl, rfl⟩ fun k' h q _ ↦ ?_
  rw [← h.1, ← h.2.1, ← h.2.2.1, ← h.2.2.2.1, ← h.2.2.2.2]
  unfold tickTask
  dsimp only
  split_ifs <;> exact ⟨rfl, rfl, rfl, rfl, rfl⟩

theorem Scheduled.osTimeTick (h : Scheduled k) (hint : k.osIntNesting ≠ 0#8) :
    Scheduled k.osTimeTick := by
  obtain ⟨hcur, hcall, hnesting, hlock, -⟩ := osTimeTick_frame k
  exact {
    consistent := h.consistent.osTimeTick
    isLeast := fun hzero ↦ absurd (hnesting ▸ hzero) hint
    locked := by
      rw [hcur, hcall, hlock]
      exact h.locked }

theorem Scheduled.osIntExit (h : Scheduled k) (hint : k.osIntNesting ≠ 0#8) :
    Scheduled k.osIntExit := by
  have hconsistent : Consistent { k with osIntNesting := k.osIntNesting - 1#8 } :=
    h.consistent.congr rfl rfl rfl fun _ _ ↦ Iff.rfl
  rw [osIntExit_eq hint]
  exact hconsistent.scheduled_osSched h.locked

theorem queue_goto {c : Call ι} (hc : c.queue = (k.call k.osPrioCur).queue) (p : Prio) :
    ((k.goto c).call p).queue = (k.call p).queue := by
  rcases eq_or_ne p k.osPrioCur with rfl | hne
  · simp [goto, hc]
  · simp [goto, hne]

section

variable (k : Kernel C α) (c : Call ι)

@[simp] theorem tcb_callSched : (k.callSched c).tcb = k.tcb := by
  unfold callSched osSched osSchedNew osCtxSw
  dsimp only
  split_ifs <;> rfl

@[simp] theorem event_callSched : (k.callSched c).event = k.event := by
  unfold callSched osSched osSchedNew osCtxSw
  dsimp only
  split_ifs <;> rfl

end

theorem queue_callSched (hcall : k.osIntNesting = 0#8 → (k.call k.osPrioCur).queue = none)
    (p : Prio) : ((k.callSched .sched).call p).queue = (k.call p).queue := by
  unfold callSched
  split_ifs with hint
  · rcases eq_or_ne p k.osPrioCur with rfl | hne
    · simp only [Kernel.goto, Function.update_self, hcall hint]
      rfl
    · simp [Kernel.goto, hne]
  · rw [osSched_of_osIntNesting hint]

/-- What going through `OS_Sched` leaves alone. -/
theorem throughSched_frame {k' : Kernel C α} (hstep : k.throughSched = some k') :
    k'.tcb = k.tcb ∧ k'.event = k.event ∧ (∀ p, (k'.call p).queue = (k.call p).queue) ∧
      k'.osLockNesting = k.osLockNesting := by
  unfold Kernel.throughSched at hstep
  cases hcall : k.call k.osPrioCur with
  | sched =>
    obtain rfl : (k.goto .user).osSched = k' := by simpa [hcall] using hstep
    obtain ⟨-, htcb, hevent, hsame, -, hlock⟩ := osSched_frame (k.goto .user)
    refine ⟨htcb, hevent, fun p ↦ ?_, hlock⟩
    rw [hsame, queue_goto (by rw [hcall]; rfl)]
  | schedPend i =>
    obtain rfl : (k.goto (.resume i)).osSched = k' := by simpa [hcall] using hstep
    obtain ⟨-, htcb, hevent, hsame, -, hlock⟩ := osSched_frame (k.goto (.resume i))
    refine ⟨htcb, hevent, fun p ↦ ?_, hlock⟩
    rw [hsame, queue_goto (by rw [hcall]; rfl)]
  | user => simp [hcall] at hstep
  | resume i => simp [hcall] at hstep

/-- A task that has come to an `OS_Sched` goes through it. -/
theorem Scheduled.throughSched {k' : Kernel C α} (h : Scheduled k)
    (hstep : k.throughSched = some k') : Scheduled k' := by
  unfold Kernel.throughSched at hstep
  cases hcall : k.call k.osPrioCur with
  | sched =>
    obtain rfl : (k.goto .user).osSched = k' := by simpa [hcall] using hstep
    refine (h.consistent.goto fun i ↦ ?_).scheduled_osSched fun _ ↦ Or.inl ?_
    · simp [hcall]
    · simp [goto]
  | schedPend i =>
    obtain rfl : (k.goto (.resume i)).osSched = k' := by simpa [hcall] using hstep
    refine (h.consistent.goto fun j ↦ ?_).scheduled_osSched fun hne ↦ ?_
    · simp [hcall]
    · rcases h.locked hne with heq | heq <;> simp [hcall] at heq
  | user => simp [hcall] at hstep
  | resume i => simp [hcall] at hstep

theorem scheduled_osStart (C : Config ι) (null : α) : Scheduled (osStart C null) where
  consistent := consistent_osStart C null
  isLeast _ _ _ := (consistent_osStart C null).isLeast_highest
  locked hlock := absurd rfl hlock

/-! ### The queues -/

variable [DecidableEq ι] {null : α}

theorem Scheduled.osQPost (h : Scheduled k) (i : ι) (msg : α)
    (hcall : k.osIntNesting = 0#8 → k.call k.osPrioCur = .user) :
    Scheduled (k.osQPost i msg).2 := by
  have hpends : k.osIntNesting = 0#8 → ∀ i, ¬ (k.call k.osPrioCur).PendsOn i := fun hint ↦ by
    simp [hcall hint]
  rcases h.consistent.osQPost_cases i msg with ⟨hwait, heq⟩ | ⟨hwait, hroom, heq⟩ | ⟨-, -, heq⟩ <;>
    rw [heq]
  · exact (h.consistent.give msg hwait).scheduled_callSched hpends h.locked
  · exact h.congr (h.consistent.setQ (group_eq_zero_iff.1 hwait) _) rfl rfl rfl rfl rfl
  · exact h

theorem Scheduled.osQPend (h : Scheduled k) (i : ι) (timeout : BitVec 16) (huser : k.AtUser)
    (hidle : k.osPrioCur ≠ osTaskIdlePrio) : Scheduled (k.osQPend i timeout).2 := by
  have hpends : ∀ j, ¬ (k.call k.osPrioCur).PendsOn j := by simp [huser.2]
  rcases h.consistent.osQPend_cases i timeout huser.2 with
    ⟨err, heq⟩ | ⟨-, hcount, heq⟩ | ⟨hlock, hcount, heq⟩ <;> rw [heq]
  · exact h
  · have hnone : ∀ p, p ∉ (k.event i).wait := fun p hp ↦ by
      have := h.consistent.count_eq_zero p i hp
      omega
    exact h.congr (h.consistent.setQ hnone _) rfl rfl rfl rfl rfl
  · have hready := h.mem_osRdy huser.1 hlock (Or.inl huser.2)
    exact {
      consistent := h.consistent.await timeout hpends hready hidle hcount
      isLeast := fun _ _ hpassed ↦ by
        rcases hpassed with heq | ⟨j, heq⟩ <;> simp [await, setWait] at heq
      locked := fun hne ↦ absurd hlock hne }

theorem Scheduled.osQPendReturn (h : Scheduled k) {i : ι} (hint : k.osIntNesting = 0#8)
    (hcall : k.call k.osPrioCur = .resume i) : Scheduled (k.osQPendReturn i null).2.2 := by
  have hlock := h.osLockNesting_of_resume hcall
  have hpassed : (k.call k.osPrioCur).Passed := Or.inr ⟨i, hcall⟩
  have hready := h.mem_osRdy hint hlock hpassed
  have hconsistent := h.consistent.osQPendReturn null hcall hready
  rw [h.consistent.osQPendReturn_eq null hcall hready] at hconsistent ⊢
  exact {
    consistent := hconsistent
    isLeast := fun _ _ _ ↦ h.isLeast hint hlock hpassed
    locked := fun hne ↦ absurd hlock hne }

/-! ### Runs -/

/-- The running task returns from `OSQPend`. -/
def throughPend (null : α) (k : Kernel C α) : Option (Kernel C α) :=
  match k.call k.osPrioCur with
  | .resume i => some (k.osQPendReturn i null).2.2
  | .user | .sched | .schedPend _ => none

/-- One step, `none` where it cannot be taken. The idle task neither pends nor delays itself. -/
def step (null : α) (k : Kernel C α) : Action ι α → Option (Kernel C α)
  | .post i msg => if k.AtUser then some (k.osQPost i msg).2 else none
  | .pend i timeout =>
    if k.AtUser ∧ k.osPrioCur ≠ osTaskIdlePrio then some (k.osQPend i timeout).2 else none
  | .dly ticks =>
    if k.AtUser ∧ k.osPrioCur ≠ osTaskIdlePrio then some (k.osTimeDly ticks) else none
  | .lock => if k.AtUser then some k.osSchedLock else none
  | .unlock => if k.AtUser then some k.osSchedUnlock else none
  | .sched => if k.osIntNesting = 0#8 then k.throughSched else none
  | .resume => if k.osIntNesting = 0#8 then k.throughPend null else none
  | .intEnter => some k.osIntEnter
  | .isrPost i msg => if k.osIntNesting ≠ 0#8 then some (k.osQPost i msg).2 else none
  | .tick => if k.osIntNesting ≠ 0#8 then some k.osTimeTick else none
  | .intExit => if k.osIntNesting ≠ 0#8 then some k.osIntExit else none

/-- A step, as a relation. -/
def Step (null : α) (k : Kernel C α) (a : Action ι α) (k' : Kernel C α) : Prop :=
  k.step null a = some k'

theorem Step.post {i : ι} {msg : α} (h : Step null k (.post i msg) k') :
    k.AtUser ∧ k' = (k.osQPost i msg).2 := by
  obtain ⟨hguard, hk'⟩ := Option.ite_none_right_eq_some.1 h
  exact ⟨hguard, (Option.some.inj hk').symm⟩

theorem Step.pend {i : ι} {timeout : BitVec 16} (h : Step null k (.pend i timeout) k') :
    (k.AtUser ∧ k.osPrioCur ≠ osTaskIdlePrio) ∧ k' = (k.osQPend i timeout).2 := by
  obtain ⟨hguard, hk'⟩ := Option.ite_none_right_eq_some.1 h
  exact ⟨hguard, (Option.some.inj hk').symm⟩

theorem Step.dly {ticks : BitVec 16} (h : Step null k (.dly ticks) k') :
    (k.AtUser ∧ k.osPrioCur ≠ osTaskIdlePrio) ∧ k' = k.osTimeDly ticks := by
  obtain ⟨hguard, hk'⟩ := Option.ite_none_right_eq_some.1 h
  exact ⟨hguard, (Option.some.inj hk').symm⟩

theorem Step.lock (h : Step null k .lock k') :
    k.AtUser ∧ k' = k.osSchedLock := by
  obtain ⟨hguard, hk'⟩ := Option.ite_none_right_eq_some.1 h
  exact ⟨hguard, (Option.some.inj hk').symm⟩

theorem Step.unlock (h : Step null k .unlock k') :
    k.AtUser ∧ k' = k.osSchedUnlock := by
  obtain ⟨hguard, hk'⟩ := Option.ite_none_right_eq_some.1 h
  exact ⟨hguard, (Option.some.inj hk').symm⟩

theorem Step.isrPost {i : ι} {msg : α} (h : Step null k (.isrPost i msg) k') :
    k.osIntNesting ≠ 0#8 ∧ k' = (k.osQPost i msg).2 := by
  obtain ⟨hguard, hk'⟩ := Option.ite_none_right_eq_some.1 h
  exact ⟨hguard, (Option.some.inj hk').symm⟩

theorem Step.tick (h : Step null k .tick k') :
    k.osIntNesting ≠ 0#8 ∧ k' = k.osTimeTick := by
  obtain ⟨hguard, hk'⟩ := Option.ite_none_right_eq_some.1 h
  exact ⟨hguard, (Option.some.inj hk').symm⟩

theorem step_tick (hint : k.osIntNesting ≠ 0#8) : Step null k .tick k.osTimeTick :=
  if_pos hint

theorem Step.intExit (h : Step null k .intExit k') :
    k.osIntNesting ≠ 0#8 ∧ k' = k.osIntExit := by
  obtain ⟨hguard, hk'⟩ := Option.ite_none_right_eq_some.1 h
  exact ⟨hguard, (Option.some.inj hk').symm⟩

theorem Step.sched (h : Step null k .sched k') :
    k.osIntNesting = 0#8 ∧ k.throughSched = some k' :=
  Option.ite_none_right_eq_some.1 h

theorem Step.resume (h : Step null k .resume k') : ∃ i, k.osIntNesting = 0#8 ∧
    k.call k.osPrioCur = .resume i ∧ k' = (k.osQPendReturn i null).2.2 := by
  obtain ⟨hint, hthrough⟩ := Option.ite_none_right_eq_some.1 h
  unfold throughPend at hthrough
  cases hcall : k.call k.osPrioCur <;> simp only [hcall, reduceCtorEq] at hthrough
  exact ⟨_, hint, rfl, (Option.some.inj hthrough).symm⟩

/-- **Every step keeps the invariant.** -/
theorem Scheduled.step (h : Scheduled k) {a : Action ι α} (hstep : Step null k a k') :
    Scheduled k' := by
  cases a with
  | post i msg =>
    obtain ⟨huser, rfl⟩ := hstep.post
    exact h.osQPost i msg fun _ ↦ huser.2
  | pend i timeout =>
    obtain ⟨⟨huser, hidle⟩, rfl⟩ := hstep.pend
    exact h.osQPend i timeout huser hidle
  | dly ticks =>
    obtain ⟨⟨huser, hidle⟩, rfl⟩ := hstep.dly
    exact h.osTimeDly ticks huser hidle
  | lock =>
    obtain ⟨huser, rfl⟩ := hstep.lock
    exact h.osSchedLock huser
  | unlock =>
    obtain ⟨huser, rfl⟩ := hstep.unlock
    exact h.osSchedUnlock huser
  | sched => exact h.throughSched hstep.sched.2
  | resume =>
    obtain ⟨i, hint, hcall, rfl⟩ := hstep.resume
    exact h.osQPendReturn hint hcall
  | intEnter => exact Option.some.inj hstep ▸ h.osIntEnter
  | isrPost i msg =>
    obtain ⟨hint, rfl⟩ := hstep.isrPost
    exact h.osQPost i msg fun hzero ↦ absurd hzero hint
  | tick =>
    obtain ⟨hint, rfl⟩ := hstep.tick
    exact h.osTimeTick hint
  | intExit =>
    obtain ⟨hint, rfl⟩ := hstep.intExit
    exact h.osIntExit hint

/-- The invariant holds in every run. -/
theorem scheduled_of_run {as : List (Action ι α)} (h : Run (Step null) (osStart C null) as k) :
    Scheduled k :=
  h.invariant (scheduled_osStart C null) fun _ _ _ hscheduled ↦ hscheduled.step

/-- **Strict priorities.** In every run of any tasks under any interrupts, as long as no interrupt
is served, the scheduler is not locked and the running task is not about to call `OS_Sched`, the
running task neither waits nor is delayed, and every created task that would go before it waits for
a queue in which there is nothing, or has ticks of a delay to go. -/
theorem strict_priorities_of_run {as : List (Action ι α)}
    (h : Run (Step null) (osStart C null) as k) (hint : k.osIntNesting = 0#8)
    (hlock : k.osLockNesting = 0#8) (hpassed : (k.call k.osPrioCur).Passed) :
    (C.Created k.osPrioCur ∧ (k.tcb k.osPrioCur).osTCBStat = osStatRdy ∧
      (k.tcb k.osPrioCur).osTCBDly = 0#16) ∧
      ∀ p, C.Created p → p < k.osPrioCur →
        (∃ i, p ∈ (k.event i).wait ∧ (k.event i).osQ.contents = []) ∨
          (k.tcb p).osTCBDly ≠ 0#16 := by
  have hscheduled := scheduled_of_run h
  have hleast := hscheduled.isLeast hint hlock hpassed
  refine ⟨hscheduled.consistent.mem_osRdy.1 hleast.1, fun p hp hlt ↦ ?_⟩
  exact hscheduled.consistent.waits_of_not_mem_osRdy hp fun hready ↦
    absurd (hleast.2 hready) (Fin.not_le.2 hlt)

/-- Two tasks and a queue. -/
def pairConfig : Config Unit where
  osQSize _ := 2
  osTCBList := [⟨5, by decide⟩, ⟨6, by decide⟩]
  osQSize_pos _ := by decide
  nodup := by decide
  idle_not_mem := by decide

/-- The second task runs when the first one waits. -/
theorem strict_priorities_of_run_pair : ∃ k : Kernel pairConfig ℕ,
    Run (Step 0) (osStart pairConfig 0) [.pend () 0#16, .sched] k ∧
      k.osPrioCur = ⟨6, by decide⟩ ∧ ((∃ i, ⟨5, by decide⟩ ∈ (k.event i).wait ∧
        (k.event i).osQ.contents = []) ∨ (k.tcb ⟨5, by decide⟩).osTCBDly ≠ 0#16) := by
  have heval : ((([.pend () 0#16, .sched] : List (Action Unit ℕ)).foldlM (step 0)
      (osStart pairConfig 0)).map fun k ↦ decide (k.osIntNesting = 0#8 ∧ k.osLockNesting = 0#8 ∧
        k.call k.osPrioCur = .user ∧ k.osPrioCur = ⟨6, by decide⟩)) = some true := by
    decide +kernel
  obtain ⟨k, hk, hstate⟩ := Option.map_eq_some_iff.1 heval
  obtain ⟨hint, hlock, hcall, hcur⟩ := of_decide_eq_true hstate
  have hrun := run_foldlM_iff.2 hk
  refine ⟨k, hrun, hcur, ?_⟩
  refine (strict_priorities_of_run hrun hint hlock (Or.inl hcall)).2 _ (Or.inl (by decide)) ?_
  rw [hcur]
  decide

end Kernel

end MappingRobot
