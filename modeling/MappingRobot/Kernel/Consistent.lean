import MappingRobot.Kernel

/-!
# The tables of the kernel agree

The kernel keeps what it knows of a task in several places: a bit in the ready list, a bit in the
wait list of a queue, the status, the pend status and the delay in the TCB. `Consistent` says how
they agree, and this module shows that every critical section keeps it. It does not look at which
task runs.

A task whose wait has timed out is ready and still on the wait list, until it runs. A task that a
post has taken from the wait list is ready, with the message in its TCB.

Each critical section of a task changes what is kept of one task, so that there is one thing to
show of it: `Consistent.of_task`.
-/

namespace MappingRobot

namespace Kernel

variable {ι α : Type} {C : Config ι} {k : Kernel C α}

/-- What the kernel keeps of a task agrees. -/
structure TaskConsistent (k : Kernel C α) (p : Prio) : Prop where
  mem_osRdy : p ∈ k.osRdy ↔
    C.Created p ∧ (k.tcb p).osTCBStat = osStatRdy ∧ (k.tcb p).osTCBDly = 0#16
  stat : (k.tcb p).osTCBStat = osStatRdy ∨
    ((k.tcb p).osTCBStat = osStatQ ∧ ∃ i, (k.call p).PendsOn i)
  mem_wait : ∀ i, p ∈ (k.event i).wait ↔ (k.call p).PendsOn i ∧
    ((k.tcb p).osTCBStat = osStatQ ∨ (k.tcb p).osTCBStatPend = .pendTo)
  created : ∀ i, (k.call p).PendsOn i → C.Created p
  dly_eq_zero : ∀ i, (k.call p).PendsOn i → (k.tcb p).osTCBStat = osStatRdy →
    (k.tcb p).osTCBDly = 0#16
  not_abort : ∀ i, (k.call p).PendsOn i → (k.tcb p).osTCBStatPend ≠ .pendAbort

/-- The ready list, the wait lists and the TCBs agree, a queue on which a task waits is empty, and
the idle task neither waits nor is delayed. -/
structure Consistent (k : Kernel C α) : Prop where
  task : ∀ p, TaskConsistent k p
  count_eq_zero : ∀ p i, p ∈ (k.event i).wait → (k.event i).osQ.count = 0
  idle_call : ∀ i, ¬ (k.call osTaskIdlePrio).PendsOn i
  idle_dly : (k.tcb osTaskIdlePrio).osTCBDly = 0#16

/-- What is kept of a task is the same in both states. -/
structure SameTask (k k' : Kernel C α) (p : Prio) : Prop where
  mem_osRdy : p ∈ k'.osRdy ↔ p ∈ k.osRdy
  tcb : k'.tcb p = k.tcb p
  call : ∀ i, (k'.call p).PendsOn i ↔ (k.call p).PendsOn i
  mem_wait : ∀ i, p ∈ (k'.event i).wait ↔ p ∈ (k.event i).wait

/-! ### Small facts -/

theorem TaskConsistent.congr {k' : Kernel C α} {p : Prio} (h : TaskConsistent k p)
    (hsame : SameTask k k' p) : TaskConsistent k' p := by
  obtain ⟨hrdy, htcb, hcall, hwait⟩ := hsame
  obtain ⟨h1, h2, h3, h4, h5, h6⟩ := h
  constructor <;> simp only [hrdy, htcb, hcall, hwait] <;> assumption

/-- **A critical section that changes what is kept of one task** has to leave it consistent,
and the queues empty on which tasks wait. -/
theorem Consistent.of_task {k' : Kernel C α} (h : Consistent k) {q : Prio}
    (hidle : q ≠ osTaskIdlePrio) (hsame : ∀ p, p ≠ q → SameTask k k' p)
    (htask : TaskConsistent k' q)
    (hcount : ∀ p i, p ∈ (k'.event i).wait → (k'.event i).osQ.count = 0) : Consistent k' where
  task p := by
    rcases eq_or_ne p q with rfl | hne
    · exact htask
    · exact (h.task p).congr (hsame p hne)
  count_eq_zero := hcount
  idle_call i := by
    rw [(hsame _ hidle.symm).call]
    exact h.idle_call i
  idle_dly := by
    rw [(hsame _ hidle.symm).tcb]
    exact h.idle_dly

/-- A step that changes nothing of what is kept of the tasks. -/
theorem Consistent.congr {k' : Kernel C α} (h : Consistent k) (hrdy : k'.osRdy = k.osRdy)
    (htcb : k'.tcb = k.tcb) (hevent : k'.event = k.event)
    (hcall : ∀ p i, (k'.call p).PendsOn i ↔ (k.call p).PendsOn i) : Consistent k' where
  task p := (h.task p).congr ⟨by rw [hrdy], by rw [htcb], hcall p, by simp [hevent]⟩
  count_eq_zero p i := by
    rw [hevent]
    exact h.count_eq_zero p i
  idle_call i := by
    rw [hcall]
    exact h.idle_call i
  idle_dly := by
    rw [htcb]
    exact h.idle_dly

theorem Consistent.mem_osRdy (h : Consistent k) {p : Prio} : p ∈ k.osRdy ↔
    C.Created p ∧ (k.tcb p).osTCBStat = osStatRdy ∧ (k.tcb p).osTCBDly = 0#16 :=
  (h.task p).mem_osRdy

theorem Consistent.mem_wait (h : Consistent k) {p : Prio} {i : ι} :
    p ∈ (k.event i).wait ↔ (k.call p).PendsOn i ∧
      ((k.tcb p).osTCBStat = osStatQ ∨ (k.tcb p).osTCBStatPend = .pendTo) :=
  (h.task p).mem_wait i

theorem Consistent.ne_idle (h : Consistent k) {p : Prio} {i : ι} (hp : (k.call p).PendsOn i) :
    p ≠ osTaskIdlePrio :=
  fun heq ↦ h.idle_call i (heq ▸ hp)

/-- A task is on one wait list at most. -/
theorem Consistent.eq_of_mem_wait (h : Consistent k) {p : Prio} {i j : ι}
    (hi : (k.call p).PendsOn i) (hj : p ∈ (k.event j).wait) : j = i :=
  (h.mem_wait.1 hj).1.unique hi

/-- A task in its own code, or at the `OS_Sched` of a service other than `OSQPend`. -/
theorem Consistent.of_not_pendsOn (h : Consistent k) {p : Prio}
    (hp : ∀ i, ¬ (k.call p).PendsOn i) :
    (k.tcb p).osTCBStat = osStatRdy ∧ ∀ i, p ∉ (k.event i).wait := by
  constructor
  · rcases (h.task p).stat with hstat | ⟨-, i, hi⟩
    · exact hstat
    · exact absurd hi (hp i)
  · intro i hmem
    exact hp i (h.mem_wait.1 hmem).1

theorem Consistent.idle_mem_osRdy (h : Consistent k) : osTaskIdlePrio ∈ k.osRdy :=
  h.mem_osRdy.2 ⟨Or.inr rfl, (h.of_not_pendsOn h.idle_call).1, h.idle_dly⟩

/-- **The ready list is never empty, and `OS_SchedNew` finds the first task on it.** -/
theorem Consistent.isLeast_highest (h : Consistent k) :
    IsLeast {p | p ∈ k.osRdy} k.osRdy.highest := by
  rw [PrioTbl.highest_eq_least]
  exact PrioritySet.isLeast_least ⟨_, h.idle_mem_osRdy⟩

/-- A created task that is not ready waits for an empty queue, or has a delay to go. -/
theorem Consistent.waits_of_not_mem_osRdy (h : Consistent k) {p : Prio} (hp : C.Created p)
    (hready : p ∉ k.osRdy) :
    (∃ i, p ∈ (k.event i).wait ∧ (k.event i).osQ.contents = []) ∨
      (k.tcb p).osTCBDly ≠ 0#16 := by
  by_cases hdly : (k.tcb p).osTCBDly = 0#16
  · rcases (h.task p).stat with hstat | ⟨hstat, i, hi⟩
    · exact absurd (h.mem_osRdy.2 ⟨hp, hstat, hdly⟩) hready
    · have hwait : p ∈ (k.event i).wait := h.mem_wait.2 ⟨hi, Or.inl hstat⟩
      exact Or.inl ⟨i, hwait, RingBuffer.contents_eq_nil_iff.2 (h.count_eq_zero p i hwait)⟩
  · exact Or.inr hdly

theorem group_eq_zero_iff {i : ι} :
    (k.event i).wait.group = 0#8 ↔ ∀ p, p ∉ (k.event i).wait := by
  rw [← not_iff_not, not_forall_not]
  exact PrioritySet.group_ne_zero_iff

theorem highest_mem_wait {i : ι} (hwait : (k.event i).wait.group ≠ 0#8) :
    (k.event i).wait.highest ∈ (k.event i).wait := by
  rw [PrioTbl.highest_eq_least]
  exact PrioritySet.least_mem (PrioritySet.group_ne_zero_iff.1 hwait)

theorem osSched_of_osIntNesting (h : k.osIntNesting ≠ 0#8) : k.osSched = k :=
  if_neg h

/-- A task that goes on within its service, or between its own code and `OS_Sched`. -/
theorem Consistent.goto (h : Consistent k) {c : Call ι}
    (hc : ∀ i, c.PendsOn i ↔ (k.call k.osPrioCur).PendsOn i) : Consistent (k.goto c) := by
  refine h.congr rfl rfl rfl fun p i ↦ ?_
  rcases eq_or_ne p k.osPrioCur with rfl | hne
  · simp [Kernel.goto, hc]
  · simp [Kernel.goto, hne]

theorem Consistent.callSched (h : Consistent k)
    (hcall : k.osIntNesting = 0#8 → ∀ i, ¬ (k.call k.osPrioCur).PendsOn i) :
    Consistent (k.callSched .sched) := by
  unfold Kernel.callSched
  split_ifs with hnesting
  · exact h.goto fun i ↦ by simp [hcall hnesting]
  · rwa [osSched_of_osIntNesting hnesting]

/-! ### `OSTimeDly` and `OSTimeTick` -/

/-- `OSTimeDly` by a task, for some ticks. -/
theorem osTimeDly_eq (hint : k.osIntNesting = 0#8) {ticks : BitVec 16} (hne : ticks ≠ 0#16) :
    k.osTimeDly ticks = (({ k with osRdy := k.osRdy.remove k.osPrioCur } : Kernel C α).setTcb
      k.osPrioCur { k.tcb k.osPrioCur with osTCBDly := ticks }).goto .sched := by
  have hpos : ticks.toNat > 0 := by
    by_contra hzero
    exact hne (BitVec.eq_of_toNat_eq (by simpa using hzero))
  simp [Kernel.osTimeDly, hint, hpos, Kernel.callSched, setTcb]

/-- `OSTimeDly` for no ticks, or in an interrupt. -/
theorem osTimeDly_of_not {ticks : BitVec 16} (h : k.osIntNesting ≠ 0#8 ∨ ticks = 0#16) :
    k.osTimeDly ticks = k := by
  unfold Kernel.osTimeDly
  split_ifs with hint hticks
  · rfl
  · rcases h with hne | rfl
    · exact absurd (BitVec.eq_of_toNat_eq (by simpa using hint)) hne
    · simp at hticks
  · rfl

theorem Consistent.osTimeDly (h : Consistent k) (ticks : BitVec 16)
    (hcall : k.osIntNesting = 0#8 → k.call k.osPrioCur = .user ∧ k.osPrioCur ≠ osTaskIdlePrio) :
    Consistent (k.osTimeDly ticks) := by
  by_cases hnot : k.osIntNesting ≠ 0#8 ∨ ticks = 0#16
  · rwa [osTimeDly_of_not hnot]
  obtain ⟨hint, hne⟩ : k.osIntNesting = 0#8 ∧ ticks ≠ 0#16 := by simpa using hnot
  obtain ⟨huser, hidle⟩ := hcall hint
  rw [osTimeDly_eq hint hne]
  refine Consistent.goto (h.of_task hidle (fun p hp ↦ ?_) ?_ ?_) fun i ↦ by simp [setTcb, huser]
  · constructor <;> simp [setTcb, hp]
  · obtain ⟨hrdy, hstat, hwait, hcreated, hdly, habort⟩ := h.task k.osPrioCur
    have hout := (h.of_not_pendsOn (p := k.osPrioCur) (by simp [huser])).2
    constructor
    case stat => simpa [setTcb, huser] using hstat
    all_goals simp [setTcb, huser, hne, hout]
  · exact h.count_eq_zero

theorem sub_one_ne_zero {d : BitVec 16} (h : d ≠ 1#16) : d - 1#16 ≠ 0#16 :=
  fun h' ↦ h (by bv_omega)

/-- A turn of the loop of `OSTimeTick`: nothing, a tick less to wait, or the end of the wait. -/
theorem Consistent.tickTask_cases (h : Consistent k) (q : Prio) :
    ((k.tcb q).osTCBDly = 0#16 ∧ k.tickTask q = k) ∨
    ((k.tcb q).osTCBDly ≠ 0#16 ∧ (k.tcb q).osTCBDly ≠ 1#16 ∧
      k.tickTask q = k.setTcb q { k.tcb q with osTCBDly := (k.tcb q).osTCBDly - 1#16 }) ∨
    ((k.tcb q).osTCBDly = 1#16 ∧
      k.tickTask q = { k with
        osRdy := k.osRdy.insert q
        tcb := Function.update k.tcb q { k.tcb q with
          osTCBDly := 0#16
          osTCBStat := osStatRdy
          osTCBStatPend :=
            if (k.tcb q).osTCBStat = osStatQ then .pendTo else .pendOk } }) := by
  rcases eq_or_ne (k.tcb q).osTCBDly 0#16 with hzero | hzero
  · exact Or.inl ⟨hzero, by simp [tickTask, hzero]⟩
  · refine Or.inr ?_
    rcases eq_or_ne (k.tcb q).osTCBDly 1#16 with hone | hone
    · refine Or.inr ⟨hone, ?_⟩
      rcases (h.task q).stat with hstat | ⟨hstat, -⟩
      · simp [tickTask, hone, hstat, OsTcb.endDelay, setTcb, osStatRdy, osStatQ, osStatPendAny,
          osStatSuspend]
      · simp [tickTask, hone, hstat, OsTcb.endDelay, setTcb, osStatRdy, osStatQ, osStatPendAny,
          osStatSuspend]
    · have hsub : (k.tcb q).osTCBDly - 1#16 ≠ 0#16 := sub_one_ne_zero hone
      exact Or.inl ⟨hzero, hone, by simp [tickTask, hzero, hsub]⟩

/-- What is kept of the other tasks stays as it is. -/
theorem Consistent.sameTask_tickTask (h : Consistent k) {p q : Prio} (hne : p ≠ q) :
    SameTask k (k.tickTask q) p := by
  rcases h.tickTask_cases q with ⟨-, heq⟩ | ⟨-, -, heq⟩ | ⟨-, heq⟩ <;> rw [heq] <;>
    constructor <;> simp [setTcb, hne]

theorem event_tickTask (k : Kernel C α) (q : Prio) : (k.tickTask q).event = k.event := by
  unfold tickTask
  dsimp only
  split_ifs <;> rfl

theorem Consistent.tickTask (h : Consistent k) {q : Prio} (hq : q ∈ C.osTCBList) :
    Consistent (k.tickTask q) := by
  have hidle : q ≠ osTaskIdlePrio := fun heq ↦ C.idle_not_mem (heq ▸ hq)
  have hcreated : C.Created q := Or.inl hq
  refine h.of_task hidle (fun p hne ↦ h.sameTask_tickTask hne) ?_ fun p i hp ↦ ?_
  · obtain ⟨hrdy, hstat, hwait, -, hdly, habort⟩ := h.task q
    rcases h.tickTask_cases q with ⟨-, heq⟩ | ⟨hzero, hone, heq⟩ | ⟨hone, heq⟩
    · rw [heq]
      exact h.task q
    · have hsub : (k.tcb q).osTCBDly - 1#16 ≠ 0#16 := sub_one_ne_zero hone
      rw [heq]
      constructor <;> simp only [setTcb, Function.update_self]
      · rw [hrdy]
        simp [hzero, hsub]
      · exact hstat
      · exact hwait
      · exact fun _ _ ↦ hcreated
      · exact fun i hi hrdy ↦ absurd (hdly i hi hrdy) hzero
      · exact habort
    · rw [heq]
      constructor <;> simp only [Function.update_self]
      · simp [hcreated]
      · simp
      · intro i
        rcases hstat with hstat | ⟨hstat, -⟩
        · have hnot : ∀ j, ¬ (k.call q).PendsOn j := fun j hj ↦ by
            have := hdly j hj hstat
            simp [hone] at this
          simp [hwait, hnot]
        · simp [hwait, hstat, osStatRdy, osStatQ]
      · exact fun _ _ ↦ hcreated
      · simp
      · intro i _
        split_ifs <;> simp
  · rw [event_tickTask] at hp ⊢
    exact h.count_eq_zero p i hp

theorem Consistent.osTimeTick (h : Consistent k) : Consistent k.osTimeTick :=
  C.osTCBList.foldlRecOn _ h fun _ h _ hq ↦ h.tickTask hq

theorem SameTask.trans {k' k'' : Kernel C α} {p : Prio} (h : SameTask k k' p)
    (h' : SameTask k' k'' p) : SameTask k k'' p where
  mem_osRdy := h'.mem_osRdy.trans h.mem_osRdy
  tcb := h'.tcb.trans h.tcb
  call i := (h'.call i).trans (h.call i)
  mem_wait i := (h'.mem_wait i).trans (h.mem_wait i)

/-- The turns of the loop of `OSTimeTick` for other tasks. -/
theorem Consistent.foldl_tickTask (h : Consistent k) {l : List Prio} {p : Prio}
    (hl : l ⊆ C.osTCBList) (hp : p ∉ l) :
    Consistent (l.foldl Kernel.tickTask k) ∧ SameTask k (l.foldl Kernel.tickTask k) p :=
  l.foldlRecOn (motive := fun k' : Kernel C α ↦ Consistent k' ∧ SameTask k k' p) _
    ⟨h, ⟨Iff.rfl, rfl, fun _ ↦ Iff.rfl, fun _ ↦ Iff.rfl⟩⟩ fun _ ⟨h, hsame⟩ _ hq ↦
      ⟨h.tickTask (hl hq), hsame.trans (h.sameTask_tickTask fun heq ↦ hp (heq ▸ hq))⟩

/-- What `OSTimeTick` does to a task is what its turn of the loop does. -/
theorem Consistent.osTimeTick_cases (h : Consistent k) {p : Prio} (hp : p ∈ C.osTCBList) :
    ((k.tcb p).osTCBDly = 0#16 ∧ k.osTimeTick.tcb p = k.tcb p) ∨
    ((k.tcb p).osTCBDly ≠ 0#16 ∧ (k.tcb p).osTCBDly ≠ 1#16 ∧
      k.osTimeTick.tcb p = { k.tcb p with osTCBDly := (k.tcb p).osTCBDly - 1#16 }) ∨
    ((k.tcb p).osTCBDly = 1#16 ∧ p ∈ k.osTimeTick.osRdy ∧
      k.osTimeTick.tcb p = { k.tcb p with
        osTCBDly := 0#16
        osTCBStat := osStatRdy
        osTCBStatPend := if (k.tcb p).osTCBStat = osStatQ then .pendTo else .pendOk }) := by
  obtain ⟨before, after, hlist⟩ := List.append_of_mem hp
  have hnodup := C.nodup
  rw [hlist, List.nodup_append] at hnodup
  have hbefore : p ∉ before := fun hmem ↦ hnodup.2.2 p hmem p List.mem_cons_self rfl
  have hafter : p ∉ after := (List.nodup_cons.1 hnodup.2.1).1
  -- the turns before that of the task and those after it leave the task alone
  obtain ⟨h₁, hsame₁⟩ := h.foldl_tickTask (l := before)
    (fun q hq ↦ by rw [hlist]; exact List.mem_append_left _ hq) hbefore
  obtain ⟨-, hsame₂⟩ := (h₁.tickTask hp).foldl_tickTask (l := after)
    (fun q hq ↦ by rw [hlist]; exact List.mem_append_right _ (List.mem_cons_of_mem _ hq)) hafter
  have htick : k.osTimeTick =
      after.foldl Kernel.tickTask ((before.foldl Kernel.tickTask k).tickTask p) := by
    unfold Kernel.osTimeTick
    rw [hlist, List.foldl_append, List.foldl_cons]
  rw [htick, hsame₂.tcb, hsame₂.mem_osRdy, ← hsame₁.tcb]
  rcases h₁.tickTask_cases p with ⟨hdly, heq⟩ | ⟨hzero, hone, heq⟩ | ⟨hone, heq⟩
  · exact Or.inl ⟨hdly, by rw [heq]⟩
  · exact Or.inr (Or.inl ⟨hzero, hone, by rw [heq]; simp [setTcb]⟩)
  · exact Or.inr (Or.inr ⟨hone, by rw [heq]; simp, by rw [heq]; simp⟩)

/-! ### The start -/

theorem mem_foldr_insert {l : List Prio} {s : PrioTbl} {p : Prio} :
    p ∈ l.foldr (fun p s ↦ s.insert p) s ↔ p ∈ l ∨ p ∈ s := by
  induction l with
  | nil => simp
  | cons q l ih => simp [ih, or_assoc]

theorem consistent_osStart (C : Config ι) (null : α) : Consistent (osStart C null) where
  task p := by
    constructor <;> simp [osStart, OsTcb.init, Config.Created, mem_foldr_insert, osStatRdy,
      osStatQ]
  count_eq_zero p i := by simp [osStart]
  idle_call i := by simp [osStart]
  idle_dly := rfl

/-! ### Wait lists and queues -/

variable [DecidableEq ι]

theorem mem_setWait {i j : ι} {wait : PrioTbl} {p : Prio} :
    p ∈ ((k.setWait i wait).event j).wait ↔
      (j = i ∧ p ∈ wait) ∨ (j ≠ i ∧ p ∈ (k.event j).wait) := by
  rcases eq_or_ne j i with rfl | hne
  · simp [setWait]
  · simp [setWait, hne]

/-- Taking a task from a wait list leaves the others where they are. -/
theorem mem_setWait_remove_of_ne {i j : ι} {p q : Prio} (hne : p ≠ q) :
    p ∈ ((k.setWait i ((k.event i).wait.remove q)).event j).wait ↔ p ∈ (k.event j).wait := by
  rw [mem_setWait, PrioritySet.mem_remove]
  rcases eq_or_ne j i with rfl | hji
  · simp [hne]
  · simp [hji]

/-- Putting a task on a wait list leaves the others where they are. -/
theorem mem_setWait_insert_of_ne {i j : ι} {p q : Prio} (hne : p ≠ q) :
    p ∈ ((k.setWait i ((k.event i).wait.insert q)).event j).wait ↔ p ∈ (k.event j).wait := by
  rw [mem_setWait, PrioritySet.mem_insert]
  rcases eq_or_ne j i with rfl | hji
  · simp [hne]
  · simp [hji]

@[simp]
theorem osQ_setWait (i j : ι) (wait : PrioTbl) :
    ((k.setWait i wait).event j).osQ = (k.event j).osQ := by
  rcases eq_or_ne j i with rfl | hne
  · simp [setWait]
  · simp [setWait, hne]

@[simp]
theorem wait_setQ (i j : ι) (osQ : RingBuffer α (C.osQSize i)) :
    ((k.setQ i osQ).event j).wait = (k.event j).wait := by
  rcases eq_or_ne j i with rfl | hne
  · simp [setQ]
  · simp [setQ, hne]

@[simp]
theorem osQ_setQ_self (i : ι) (osQ : RingBuffer α (C.osQSize i)) :
    ((k.setQ i osQ).event i).osQ = osQ := by
  simp [setQ]

theorem osQ_setQ_of_ne {i j : ι} (hne : j ≠ i) (osQ : RingBuffer α (C.osQSize i)) :
    ((k.setQ i osQ).event j).osQ = (k.event j).osQ := by
  simp [setQ, hne]

/-- A queue on which no task waits may be given any storage. -/
theorem Consistent.setQ (h : Consistent k) {i : ι} (hnone : ∀ p, p ∉ (k.event i).wait)
    (osQ : RingBuffer α (C.osQSize i)) : Consistent (k.setQ i osQ) where
  task p := (h.task p).congr ⟨Iff.rfl, rfl, fun _ ↦ Iff.rfl, fun j ↦ by rw [wait_setQ]⟩
  count_eq_zero p j hp := by
    rw [wait_setQ] at hp
    have hne : j ≠ i := by
      rintro rfl
      exact hnone p hp
    rw [osQ_setQ_of_ne hne]
    exact h.count_eq_zero p j hp
  idle_call := h.idle_call
  idle_dly := h.idle_dly

/-! ### The three updates of a wait -/

/-- A task on the wait list of a queue is given a message. -/
def give (k : Kernel C α) (i : ι) (q : Prio) (msg : α) : Kernel C α :=
  ({ k with
    osRdy := k.osRdy.insert q
    tcb := Function.update k.tcb q { k.tcb q with
      osTCBDly := 0#16
      osTCBMsg := msg
      osTCBStat := osStatRdy
      osTCBStatPend := .pendOk } } : Kernel C α).setWait i ((k.event i).wait.remove q)

/-- The running task goes on the wait list of a queue. -/
def await (k : Kernel C α) (i : ι) (timeout : BitVec 16) : Kernel C α :=
  ({ k with
    osRdy := k.osRdy.remove k.osPrioCur
    tcb := Function.update k.tcb k.osPrioCur { k.tcb k.osPrioCur with
      osTCBEventPtr := some i
      osTCBStat := osStatQ
      osTCBStatPend := .pendOk
      osTCBDly := timeout }
    call := Function.update k.call k.osPrioCur (.schedPend i) } : Kernel C α).setWait i
      ((k.event i).wait.insert k.osPrioCur)

/-- The running task leaves `OSQPend`. -/
def leave (k : Kernel C α) (i : ι) (null : α) : Kernel C α :=
  ({ k with
    tcb := Function.update k.tcb k.osPrioCur { k.tcb k.osPrioCur with
      osTCBEventPtr := none
      osTCBMsg := null
      osTCBStat := osStatRdy
      osTCBStatPend := .pendOk }
    call := Function.update k.call k.osPrioCur .user } : Kernel C α).setWait i
      ((k.event i).wait.remove k.osPrioCur)

section

variable {i : ι} {p q : Prio} {msg null : α} {timeout : BitVec 16}

@[simp]
theorem tcb_give_self : (k.give i q msg).tcb q = { k.tcb q with
    osTCBDly := 0#16
    osTCBMsg := msg
    osTCBStat := osStatRdy
    osTCBStatPend := .pendOk } :=
  Function.update_self _ _ _

theorem tcb_give_of_ne (hne : p ≠ q) : (k.give i q msg).tcb p = k.tcb p :=
  Function.update_of_ne hne _ _

@[simp]
theorem tcb_await_self : (k.await i timeout).tcb k.osPrioCur = { k.tcb k.osPrioCur with
    osTCBEventPtr := some i
    osTCBStat := osStatQ
    osTCBStatPend := .pendOk
    osTCBDly := timeout } :=
  Function.update_self _ _ _

theorem tcb_await_of_ne (hne : p ≠ k.osPrioCur) : (k.await i timeout).tcb p = k.tcb p :=
  Function.update_of_ne hne _ _

@[simp]
theorem call_await_self : (k.await i timeout).call k.osPrioCur = .schedPend i :=
  Function.update_self _ _ _

theorem call_await_of_ne (hne : p ≠ k.osPrioCur) : (k.await i timeout).call p = k.call p :=
  Function.update_of_ne hne _ _

theorem tcb_leave_of_ne (hne : p ≠ k.osPrioCur) : (k.leave i null).tcb p = k.tcb p :=
  Function.update_of_ne hne _ _

@[simp]
theorem call_leave_self : (k.leave i null).call k.osPrioCur = .user :=
  Function.update_self _ _ _

theorem call_leave_of_ne (hne : p ≠ k.osPrioCur) : (k.leave i null).call p = k.call p :=
  Function.update_of_ne hne _ _

end

@[simp]
theorem osQ_give (i j : ι) (q : Prio) (msg : α) :
    ((k.give i q msg).event j).osQ = (k.event j).osQ :=
  osQ_setWait i j _

@[simp]
theorem osQ_await (i j : ι) (timeout : BitVec 16) :
    ((k.await i timeout).event j).osQ = (k.event j).osQ :=
  osQ_setWait i j _

@[simp]
theorem osQ_leave (i j : ι) (null : α) : ((k.leave i null).event j).osQ = (k.event j).osQ :=
  osQ_setWait i j _

/-! ### `OSQPost` -/

/-- `OS_EventTaskRdy` for a post: the first task on the wait list is given the message, is made
ready, and is taken from the list. -/
theorem Consistent.osEventTaskRdy_eq (h : Consistent k) (i : ι) (msg : α) :
    k.osEventTaskRdy i msg osStatQ .pendOk =
      k.give i (k.event i).wait.highest msg := by
  have hstat : (k.tcb (k.event i).wait.highest).osTCBStat &&& ~~~osStatQ = osStatRdy := by
    rcases (h.task (k.event i).wait.highest).stat with hrdy | ⟨hq, -⟩
    · rw [hrdy]
      decide
    · rw [hq]
      decide
  have hready : osStatRdy &&& osStatSuspend = osStatRdy := by decide
  simp only [Kernel.give, osEventTaskRdy, osEventTaskRemove, setTcb, hstat, hready, if_true]

theorem Consistent.give (h : Consistent k) {i : ι} (msg : α)
    (hwait : (k.event i).wait.group ≠ 0#8) :
    Consistent (k.give i (k.event i).wait.highest msg) := by
  have hpends := (h.mem_wait.1 (highest_mem_wait hwait)).1
  generalize (k.event i).wait.highest = q at hpends
  unfold Kernel.give
  refine h.of_task (h.ne_idle hpends) (fun p hne ↦ ?_) ?_ fun p j hp ↦ ?_
  · constructor
    case mem_wait => exact fun _ ↦ mem_setWait_remove_of_ne hne
    all_goals simp [setWait, hne]
  · constructor
    case mem_wait =>
      intro j
      have hnot : j ≠ i → q ∉ (k.event j).wait := fun hji hmem ↦
        hji (h.eq_of_mem_wait hpends hmem)
      rw [mem_setWait, PrioritySet.mem_remove]
      simpa [setWait, osStatRdy, osStatQ] using hnot
    all_goals simp [setWait, (h.task q).created _ hpends]
  · rw [osQ_setWait]
    rcases mem_setWait.1 hp with ⟨rfl, hp⟩ | ⟨-, hp⟩
    · exact h.count_eq_zero p j (PrioritySet.mem_remove.1 hp).2
    · exact h.count_eq_zero p j hp

/-- `OSQPost` gives the message to the first task that waits, or stores it, or refuses it. -/
theorem Consistent.osQPost_cases (h : Consistent k) (i : ι) (msg : α) :
    ((k.event i).wait.group ≠ 0#8 ∧ k.osQPost i msg =
      (osErrNone, (k.give i (k.event i).wait.highest msg).callSched .sched)) ∨
    ((k.event i).wait.group = 0#8 ∧ ∃ hroom : (k.event i).osQ.count < C.osQSize i,
      k.osQPost i msg = (osErrNone, k.setQ i ((k.event i).osQ.pushBack msg hroom))) ∨
    ((k.event i).wait.group = 0#8 ∧ (k.event i).osQ.count = C.osQSize i ∧
      k.osQPost i msg = (osErrQFull, k)) := by
  by_cases hwait : (k.event i).wait.group = 0#8
  · by_cases hroom : (k.event i).osQ.count < C.osQSize i
    · exact Or.inr (Or.inl ⟨hwait, hroom, by simp [Kernel.osQPost, hwait, hroom]⟩)
    · have hle := (k.event i).osQ.count_le
      exact Or.inr (Or.inr ⟨hwait, by omega, by simp [Kernel.osQPost, hwait, hroom]⟩)
  · refine Or.inl ⟨hwait, ?_⟩
    rw [← h.osEventTaskRdy_eq]
    simp [Kernel.osQPost, hwait]

theorem Consistent.osQPost (h : Consistent k) (i : ι) (msg : α)
    (hcall : k.osIntNesting = 0#8 → ∀ i, ¬ (k.call k.osPrioCur).PendsOn i) :
    Consistent (k.osQPost i msg).2 := by
  rcases h.osQPost_cases i msg with ⟨hwait, heq⟩ | ⟨hwait, hroom, heq⟩ | ⟨-, -, heq⟩ <;> rw [heq]
  · exact (h.give msg hwait).callSched hcall
  · exact h.setQ (group_eq_zero_iff.1 hwait) _
  · exact h

/-! ### `OSQPend` -/

/-- The running task begins to wait for a queue. -/
theorem wait_eq (hstat : (k.tcb k.osPrioCur).osTCBStat = osStatRdy) (i : ι)
    (timeout : BitVec 16) :
    ((k.setTcb k.osPrioCur { k.tcb k.osPrioCur with
      osTCBStat := (k.tcb k.osPrioCur).osTCBStat ||| osStatQ
      osTCBStatPend := .pendOk
      osTCBDly := timeout }).osEventTaskWait i).goto (.schedPend i) =
    k.await i timeout := by
  have hor : osStatRdy ||| osStatQ = osStatQ := by decide
  simp [await, Kernel.goto, osEventTaskWait, setWait, setTcb, hstat, hor]

/-- The running task begins to wait for a queue in which there is nothing. -/
theorem Consistent.await (h : Consistent k) {i : ι} (timeout : BitVec 16)
    (hcall : ∀ j, ¬ (k.call k.osPrioCur).PendsOn j) (hready : k.osPrioCur ∈ k.osRdy)
    (hidle : k.osPrioCur ≠ osTaskIdlePrio) (hempty : (k.event i).osQ.count = 0) :
    Consistent (k.await i timeout) := by
  unfold Kernel.await
  have hcreated := (h.mem_osRdy.1 hready).1
  have hnowait := (h.of_not_pendsOn hcall).2
  generalize k.osPrioCur = q at *
  refine h.of_task hidle (fun p hne ↦ ?_) ?_ fun p j hp ↦ ?_
  · constructor
    case mem_wait => exact fun _ ↦ mem_setWait_insert_of_ne hne
    all_goals simp [setWait, hne]
  · constructor
    case mem_wait =>
      intro j
      rw [mem_setWait, PrioritySet.mem_insert]
      simp [setWait, hnowait, eq_comm]
    all_goals simp [setWait, hcreated, osStatRdy, osStatQ]
  · rw [osQ_setWait]
    rcases mem_setWait.1 hp with ⟨rfl, -⟩ | ⟨-, hp⟩
    · exact hempty
    · exact h.count_eq_zero p j hp

/-- `OSQPend` has an error, or takes a message, or waits. -/
theorem Consistent.osQPend_cases (h : Consistent k) (i : ι) (timeout : BitVec 16)
    (hcall : k.call k.osPrioCur = .user) :
    (∃ err, k.osQPend i timeout = (.error err, k)) ∨
    (k.osLockNesting = 0#8 ∧ ∃ hcount : 0 < (k.event i).osQ.count, k.osQPend i timeout =
      (.message (k.event i).osQ.head, k.setQ i ((k.event i).osQ.popFront hcount))) ∨
    (k.osLockNesting = 0#8 ∧ (k.event i).osQ.count = 0 ∧
      k.osQPend i timeout = (.waits, k.await i timeout)) := by
  have hstat := (h.of_not_pendsOn (p := k.osPrioCur) (by simp [hcall])).1
  unfold Kernel.osQPend
  split_ifs with hint hlock hcount
  · exact Or.inl ⟨_, rfl⟩
  · exact Or.inl ⟨_, rfl⟩
  · exact Or.inr (Or.inl ⟨BitVec.eq_of_toNat_eq (by simpa using hlock), hcount, rfl⟩)
  · refine Or.inr (Or.inr ⟨BitVec.eq_of_toNat_eq (by simpa using hlock), by omega, ?_⟩)
    rw [← wait_eq hstat]

/-- The running task returns from `OSQPend`: it has left the wait list, or leaves it now. -/
theorem Consistent.osQPendReturn_eq (h : Consistent k) {i : ι} (null : α)
    (hcall : k.call k.osPrioCur = .resume i) (hready : k.osPrioCur ∈ k.osRdy) :
    k.osQPendReturn i null =
      (if (k.tcb k.osPrioCur).osTCBStatPend = .pendTo then null
          else (k.tcb k.osPrioCur).osTCBMsg,
        if (k.tcb k.osPrioCur).osTCBStatPend = .pendTo then osErrTimeout else osErrNone,
        k.leave i null) := by
  have hpends : (k.call k.osPrioCur).PendsOn i := by simp [hcall]
  have hstat := (h.mem_osRdy.1 hready).2.1
  cases hpend : (k.tcb k.osPrioCur).osTCBStatPend with
  | pendOk =>
    have hout : k.osPrioCur ∉ (k.event i).wait := fun hmem ↦ by
      have := (h.mem_wait.1 hmem).2
      simp [hstat, hpend, osStatRdy, osStatQ] at this
    have hremove : (k.event i).wait.remove k.osPrioCur = (k.event i).wait :=
      PrioritySet.ext fun p ↦ by
        rw [PrioritySet.mem_remove]
        exact ⟨And.right, fun hp ↦ ⟨fun hpq ↦ hout (hpq ▸ hp), hp⟩⟩
    simp [leave, hremove, Kernel.osQPendReturn, hpend, setTcb, Kernel.goto, setWait]
  | pendTo =>
    simp [leave, Kernel.osQPendReturn, hpend, setTcb, Kernel.goto, setWait, osEventTaskRemove]
  | pendAbort => exact absurd hpend ((h.task _).not_abort _ hpends)

theorem Consistent.osQPendReturn (h : Consistent k) {i : ι} (null : α)
    (hcall : k.call k.osPrioCur = .resume i) (hready : k.osPrioCur ∈ k.osRdy) :
    Consistent (k.osQPendReturn i null).2.2 := by
  have hpends : (k.call k.osPrioCur).PendsOn i := by simp [hcall]
  rw [h.osQPendReturn_eq null hcall hready]
  obtain ⟨hcreated, hstat, hdly⟩ := h.mem_osRdy.1 hready
  unfold leave
  clear hcall
  generalize k.osPrioCur = q at *
  refine h.of_task (h.ne_idle hpends) (fun p hne ↦ ?_) ?_ fun p j hp ↦ ?_
  · constructor
    case mem_wait => exact fun _ ↦ mem_setWait_remove_of_ne hne
    all_goals simp [setWait, hne]
  · constructor
    case mem_wait =>
      intro j
      have hnot : j ≠ i → q ∉ (k.event j).wait := fun hji hmem ↦
        hji (h.eq_of_mem_wait hpends hmem)
      rw [mem_setWait, PrioritySet.mem_remove]
      simpa [setWait] using hnot
    all_goals simp [setWait, hcreated, hdly, hready]
  · rw [osQ_setWait]
    rcases mem_setWait.1 hp with ⟨rfl, hp⟩ | ⟨-, hp⟩
    · exact h.count_eq_zero p j (PrioritySet.mem_remove.1 hp).2
    · exact h.count_eq_zero p j hp

end Kernel

end MappingRobot
