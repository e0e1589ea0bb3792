import MappingRobot.Kernel.Schedule

/-!
# The queues of the kernel are message queues

`PendQueue` is a queue together with the one task that pends on it. This module shows that the
kernel keeps such queues: `Represents` reads one off the ring, the wait list and the TCB, and
every service does to what it reads what the operation of `PendQueue` of the same name does. The
queue and the task have to be dedicated to each other, nothing is assumed of the other tasks.

The messages of the kernel are all of one type; `f` is how the task reads them.
-/

namespace MappingRobot

namespace Kernel

variable {ι α β κ : Type} {C : Config ι} {k k' : Kernel C α} {i : ι} {p : Prio} {f : α → β}
  {pc : κ} {q : PendQueue β (C.osQSize i) κ}

/-- What a task that pends is doing; `pc` is where it is in its own code. -/
def pending (k : Kernel C α) (p : Prio) (f : α → β) (pc : κ) : Pending β κ :=
  if (k.call p).queue.isNone then .running pc
  else if (k.tcb p).osTCBStat = osStatQ then .waiting
  else if (k.tcb p).osTCBStatPend = .pendTo then .expired
  else .posted (f (k.tcb p).osTCBMsg)

/-- The kernel has the messages of the queue and the state of its task. -/
structure Represents (k : Kernel C α) (i : ι) (p : Prio) (f : α → β) (pc : κ)
    (q : PendQueue β (C.osQSize i) κ) : Prop where
  entries : q.entries = (k.event i).osQ.contents.map f
  task : q.task = k.pending p f pc

/-- The task pends on no other queue, and no other task on the queue. -/
def Dedicated (k : Kernel C α) (i : ι) (p : Prio) : Prop :=
  ∀ p' j, (k.call p').PendsOn j → (p' = p ↔ j = i)

/-! ### What the task is doing -/

theorem pending_of_queue_eq_none (h : (k.call p).queue = none) :
    k.pending p f pc = .running pc := by
  simp [pending, h]

/-- The task is waiting, has timed out, or has been given a message. -/
theorem pending_of_pendsOn (h : (k.call p).PendsOn i) : k.pending p f pc =
    if (k.tcb p).osTCBStat = osStatQ then .waiting
    else if (k.tcb p).osTCBStatPend = .pendTo then .expired
    else .posted (f (k.tcb p).osTCBMsg) := by
  have hsome : (k.call p).queue.isNone = false := by
    rw [show (k.call p).queue = some i from h]
    rfl
  rw [pending, hsome]
  rfl

theorem pending_congr (hcall : (k'.call p).queue = (k.call p).queue) (htcb : k'.tcb p = k.tcb p) :
    k'.pending p f pc = k.pending p f pc := by
  unfold pending
  rw [hcall, htcb]

/-- A step that changes neither the queue nor what is kept of the task. -/
theorem Represents.congr (h : Represents k i p f pc q)
    (hosQ : (k'.event i).osQ = (k.event i).osQ) (hcall : (k'.call p).queue = (k.call p).queue)
    (htcb : k'.tcb p = k.tcb p) : Represents k' i p f pc q :=
  ⟨by rw [hosQ, h.entries], by rw [pending_congr hcall htcb, h.task]⟩

/-- The task is on the wait list of the queue, or no task is. -/
theorem Consistent.onWaitList_pending (h : Consistent k) (hd : Dedicated k i p) :
    (k.pending p f pc).onWaitList = true ↔ (k.event i).wait.group ≠ 0#8 := by
  rw [PrioritySet.group_ne_zero_iff]
  constructor
  · intro hlist
    refine ⟨p, h.mem_wait.2 ?_⟩
    unfold pending at hlist
    split_ifs at hlist with hnone hstat hpend
    · simp [Pending.onWaitList] at hlist
    all_goals
      obtain ⟨j, hj⟩ := Option.ne_none_iff_exists'.1 (by simpa using hnone)
      obtain rfl : j = i := (hd p j hj).1 rfl
    · exact ⟨hj, Or.inl hstat⟩
    · exact ⟨hj, Or.inr hpend⟩
    · simp [Pending.onWaitList] at hlist
  · rintro ⟨p', hp'⟩
    obtain ⟨hpends, hwait⟩ := h.mem_wait.1 hp'
    obtain rfl : p' = p := (hd p' i hpends).2 rfl
    rw [pending_of_pendsOn hpends]
    split_ifs with hstat hpend
    · rfl
    · rfl
    · exact absurd hwait (by simp [hstat, hpend])

/-- The first task on the wait list is the one that pends on the queue. -/
theorem Consistent.highest_eq (h : Consistent k) (hd : Dedicated k i p)
    (hwait : (k.event i).wait.group ≠ 0#8) : (k.event i).wait.highest = p :=
  (hd _ i (h.mem_wait.1 (highest_mem_wait hwait)).1).2 rfl

/-! ### `OSQPost` -/

variable [DecidableEq ι]

/-- **`OSQPost` is the post of the message queue**, and has its error. -/
theorem Represents.osQPost (h : Represents k i p f pc q) (hk : Consistent k)
    (hd : Dedicated k i p) (msg : α)
    (hcall : k.osIntNesting = 0#8 → (k.call k.osPrioCur).queue = none) :
    (k.osQPost i msg).1 = (q.osqPost (f msg)).1 ∧
      Represents (k.osQPost i msg).2 i p f pc (q.osqPost (f msg)).2 := by
  have hlist : q.task.onWaitList = true ↔ (k.event i).wait.group ≠ 0#8 := by
    rw [h.task]
    exact hk.onWaitList_pending hd
  have hlength : q.entries.length = (k.event i).osQ.count := by
    rw [h.entries, List.length_map, RingBuffer.length_contents]
  rcases hk.osQPost_cases i msg with ⟨hwait, heq⟩ | ⟨hwait, hroom, heq⟩ | ⟨hwait, hfull, heq⟩
  · have hp := hk.highest_eq hd hwait
    have hpends := (hk.mem_wait.1 (highest_mem_wait hwait)).1
    rw [hp] at heq hpends
    rw [heq, PendQueue.osqPost, dif_pos (hlist.2 hwait)]
    refine ⟨rfl, by rw [event_callSched, osQ_give, h.entries], ?_⟩
    have hqueue := queue_callSched (k := k.give i p msg) hcall p
    rw [pending_of_pendsOn (i := i) (hqueue.trans hpends)]
    simp [osStatRdy, osStatQ]
  · have hout : ¬ q.task.onWaitList = true := fun htrue ↦ hlist.1 htrue hwait
    rw [heq, PendQueue.osqPost, dif_neg hout, dif_pos (by omega)]
    exact ⟨rfl, by simp [h.entries, RingBuffer.contents_pushBack],
      h.task.trans (pending_congr rfl rfl).symm⟩
  · have hout : ¬ q.task.onWaitList = true := fun htrue ↦ hlist.1 htrue hwait
    rw [heq, PendQueue.osqPost, dif_neg hout, dif_neg (by omega)]
    exact ⟨rfl, h⟩

/-- A post to another queue leaves this one alone. -/
theorem Represents.osQPost_of_ne (h : Represents k i p f pc q) (hk : Consistent k)
    (hd : Dedicated k i p) {j : ι} (hne : i ≠ j) (msg : α)
    (hcall : k.osIntNesting = 0#8 → (k.call k.osPrioCur).queue = none) :
    Represents (k.osQPost j msg).2 i p f pc q := by
  rcases hk.osQPost_cases j msg with ⟨hwait, heq⟩ | ⟨-, hroom, heq⟩ | ⟨-, -, heq⟩ <;> rw [heq]
  · have hother : p ≠ (k.event j).wait.highest := fun hp ↦ hne <|
      ((hd _ j (hk.mem_wait.1 (highest_mem_wait hwait)).1).1 hp.symm).symm
    refine h.congr ?_ ?_ ?_
    · rw [event_callSched, osQ_give]
    · exact queue_callSched (k := k.give j (k.event j).wait.highest msg) hcall p
    · rw [tcb_callSched, tcb_give_of_ne hother]
  · exact h.congr (osQ_setQ_of_ne hne _) rfl rfl
  · exact h

/-! ### `OSQPend` -/

/-- **`OSQPend` is the pend of the message queue.** It takes the oldest message, with which the task
goes on, or the task waits. -/
theorem Represents.osQPend (h : Represents k i p f pc q) (hk : Consistent k)
    (hcur : k.osPrioCur = p) (huser : k.AtUser) (hlock : k.osLockNesting = 0#8)
    (timeout : BitVec 16) (got : β → κ) :
    (∃ msg k', k.osQPend i timeout = (.message msg, k') ∧
        Represents k' i p f (got (f msg)) (q.osqPend got)) ∨
      (∃ k', k.osQPend i timeout = (.waits, k') ∧ Represents k' i p f pc (q.osqPend got)) := by
  have hnone : (k.call p).queue = none := by
    rw [← hcur, huser.2]
    rfl
  by_cases hcount : 0 < (k.event i).osQ.count
  · refine Or.inl ⟨(k.event i).osQ.head, k.setQ i ((k.event i).osQ.popFront hcount), ?_, ?_⟩
    · simp [Kernel.osQPend, huser.1, hlock, hcount]
    · have hentries := h.entries
      rw [RingBuffer.contents_eq_cons _ hcount, List.map_cons] at hentries
      rcases q.osqPend_cases got with ⟨m, rest, hq, htask, hrest⟩ | ⟨hq, -⟩
      · obtain ⟨rfl, rfl⟩ := List.cons.inj (hq.symm.trans hentries)
        refine ⟨by rw [hrest, osQ_setQ_self], ?_⟩
        rw [htask]
        exact (pending_of_queue_eq_none hnone).symm
      · simp [hq] at hentries
  · refine Or.inr ⟨k.await i timeout, ?_, ?_⟩
    · rw [← wait_eq (hk.of_not_pendsOn (by simp [huser.2])).1]
      simp [Kernel.osQPend, huser.1, hlock, hcount]
    · have hnil : (k.event i).osQ.contents = [] := RingBuffer.contents_eq_nil_iff.2 (by omega)
      rcases q.osqPend_cases got with ⟨m, rest, hq, -⟩ | ⟨-, htask, hrest⟩
      · simp [h.entries, hnil] at hq
      · refine ⟨by rw [hrest, osQ_await, hnil, List.map_nil], ?_⟩
        subst hcur
        rw [htask, pending_of_pendsOn (i := i) (by simp)]
        simp

/-- Another task pends on another queue. -/
theorem Represents.osQPend_of_ne (h : Represents k i p f pc q) (hk : Consistent k)
    (hcur : k.osPrioCur ≠ p) (hcall : k.call k.osPrioCur = .user) {j : ι} (hne : i ≠ j)
    (timeout : BitVec 16) : Represents (k.osQPend j timeout).2 i p f pc q := by
  rcases hk.osQPend_cases j timeout hcall with ⟨err, heq⟩ | ⟨-, hcount, heq⟩ | ⟨-, -, heq⟩ <;>
    rw [heq]
  · exact h
  · exact h.congr (osQ_setQ_of_ne hne _) rfl rfl
  · exact h.congr (osQ_await _ _ _) (by rw [call_await_of_ne hcur.symm])
      (tcb_await_of_ne hcur.symm)

/-- **A return from `OSQPend`.** The task returns with the message it has been given, or with the
error of a timeout, and goes on. -/
theorem Represents.osQPendReturn (h : Represents k i p f pc q) (hk : Consistent k)
    (hcur : k.osPrioCur = p) (hcall : k.call p = .resume i) (hready : p ∈ k.osRdy) (null : α)
    (pc' : κ) :
    ((q.task = .expired ∧ (k.osQPendReturn i null).2.1 = osErrTimeout) ∨
      (q.task = .posted (f (k.osQPendReturn i null).1) ∧
        (k.osQPendReturn i null).2.1 = osErrNone)) ∧
      Represents (k.osQPendReturn i null).2.2 i p f pc' (q.goto pc') := by
  subst hcur
  have hstat := (hk.mem_osRdy.1 hready).2.1
  have hne : osStatRdy ≠ osStatQ := by decide
  rw [hk.osQPendReturn_eq null hcall hready, h.task,
    pending_of_pendsOn (i := i) (by simp [hcall]), hstat, if_neg hne]
  refine ⟨?_, by simp [h.entries], ?_⟩
  · by_cases hpend : (k.tcb k.osPrioCur).osTCBStatPend = .pendTo
    · exact Or.inl ⟨if_pos hpend, if_pos hpend⟩
    · simp only [if_neg hpend, and_self, or_true]
  · rw [PendQueue.task_goto, pending_of_queue_eq_none]
    simp [Call.queue]

/-- Another task returns from `OSQPend`. -/
theorem Represents.osQPendReturn_of_ne (h : Represents k i p f pc q) (hk : Consistent k)
    (hcur : k.osPrioCur ≠ p) {j : ι} (hcall : k.call k.osPrioCur = .resume j)
    (hready : k.osPrioCur ∈ k.osRdy) (null : α) :
    Represents (k.osQPendReturn j null).2.2 i p f pc q := by
  rw [hk.osQPendReturn_eq null hcall hready]
  exact h.congr (osQ_leave _ _ _) (by rw [call_leave_of_ne hcur.symm])
    (tcb_leave_of_ne hcur.symm)

/-! ### `OSTimeTick` -/

omit [DecidableEq ι] in
/-- **A tick ends the wait of the task**, or changes nothing. -/
theorem Represents.osTimeTick (h : Represents k i p f pc q) (hk : Consistent k)
    (hp : p ∈ C.osTCBList) :
    Represents k.osTimeTick i p f pc q ∨
      (q.task.isBlocked = true ∧ Represents k.osTimeTick i p f pc q.expire) := by
  obtain ⟨-, hcall, -, -, hevent⟩ := osTimeTick_frame k
  by_cases hnone : (k.call p).queue = none
  · refine Or.inl ⟨by rw [hevent, h.entries], ?_⟩
    rw [h.task, pending_of_queue_eq_none hnone, pending_of_queue_eq_none (by rw [hcall, hnone])]
  obtain ⟨j, hj⟩ := Option.ne_none_iff_exists'.1 hnone
  have hj' : (k.osTimeTick.call p).PendsOn j := by rwa [hcall]
  have htask := h.task
  rw [pending_of_pendsOn hj] at htask
  rcases hk.osTimeTick_cases hp with ⟨-, heq⟩ | ⟨-, -, heq⟩ | ⟨hone, -, heq⟩
  · exact Or.inl (h.congr (by rw [hevent]) (by rw [hcall]) heq)
  · refine Or.inl ⟨by rw [hevent, h.entries], ?_⟩
    rw [htask, pending_of_pendsOn hj', heq]
  · have hstat : (k.tcb p).osTCBStat = osStatQ := by
      rcases (hk.task p).stat with hstat | ⟨hstat, -⟩
      · have := (hk.task p).dly_eq_zero j hj hstat
        simp [hone] at this
      · exact hstat
    rw [if_pos hstat] at htask
    have hblocked : q.task.isBlocked = true := Pending.isBlocked_iff.2 htask
    obtain ⟨hexpired, hsame⟩ := PendQueue.expire_of_isBlocked hblocked
    refine Or.inr ⟨hblocked, by rw [hsame, hevent, h.entries], ?_⟩
    rw [hexpired, pending_of_pendsOn hj', heq]
    simp [hstat, osStatRdy, osStatQ]

end Kernel

end MappingRobot
