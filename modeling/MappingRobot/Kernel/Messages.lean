import MappingRobot.Kernel.Schedule

/-!
# What becomes of a message

A message that `OSQPost` accepts goes to the first task on the wait list, or into the queue, from
where a later `OSQPend` takes it. Either way it is given to a task at once or in its turn, and the
task has it when `OSQPend` returns. `Transfer` names these three moments, and each step of the
kernel is labelled with the transfers it makes.

Two stocks carry the argument, both of them added to at the end and taken from at the front: what is
in a queue, and what a task has been given and has not yet returned with (`held`).
-/

namespace MappingRobot

open LabelledRun

namespace Kernel

/-- A moment in the life of a message. -/
inductive Transfer (ι α : Type)
  /-- `OSQPost` accepts the message for a queue. -/
  | posted (i : ι) (msg : α)
  /-- The message leaves the queue for a task. -/
  | given (i : ι) (p : Prio) (msg : α)
  /-- `OSQPend` returns the message to the task. -/
  | returned (p : Prio) (msg : α)

variable {ι α : Type} {C : Config ι} {k k' : Kernel C α} {null : α}

namespace Transfer

variable [DecidableEq ι]

/-- The messages accepted for a queue. -/
def postedFor (i : ι) : Transfer ι α → Option α
  | .posted j msg => if j = i then some msg else none
  | .given .. | .returned .. => none

/-- The messages given away from a queue. -/
def givenFrom (i : ι) : Transfer ι α → Option α
  | .given j _ msg => if j = i then some msg else none
  | .posted .. | .returned .. => none

/-- The messages given to a task. -/
def givenTo (p : Prio) : Transfer ι α → Option α
  | .given _ q msg => if q = p then some msg else none
  | .posted .. | .returned .. => none

/-- The messages returned to a task. -/
def returnedTo (p : Prio) : Transfer ι α → Option α
  | .returned q msg => if q = p then some msg else none
  | .posted .. | .given .. => none

end Transfer

/-- What a task has been given by a post and has not returned with. -/
def held (k : Kernel C α) (p : Prio) : List α :=
  if (k.call p).queue.isSome ∧ (k.tcb p).osTCBStat = osStatRdy ∧
      (k.tcb p).osTCBStatPend = .pendOk then
    [(k.tcb p).osTCBMsg]
  else
    []

/-- A task on the wait list, and so nothing in the queue. -/
theorem Consistent.contents_eq_nil (h : Consistent k) {i : ι}
    (hwait : (k.event i).wait.group ≠ 0#8) : (k.event i).osQ.contents = [] :=
  RingBuffer.contents_eq_nil_iff.2 (h.count_eq_zero _ i (highest_mem_wait hwait))

theorem held_congr {p : Prio} (hcall : (k'.call p).queue = (k.call p).queue)
    (htcb : k'.tcb p = k.tcb p) : k'.held p = k.held p := by
  unfold held
  rw [hcall, htcb]

/-- A task on a wait list has been given nothing. -/
theorem Consistent.held_eq_nil (h : Consistent k) {p : Prio} {i : ι}
    (hp : p ∈ (k.event i).wait) : k.held p = [] := by
  unfold held
  rw [if_neg]
  rintro ⟨-, hstat, hpend⟩
  rcases (h.mem_wait.1 hp).2 with hq | hto
  · rw [hstat] at hq
    exact absurd hq (by decide)
  · simp [hpend] at hto

theorem held_of_queue_eq_none {p : Prio} (hcall : (k.call p).queue = none) : k.held p = [] := by
  simp [held, hcall]

/-- A turn of the loop of `OSTimeTick` gives no task a message. -/
theorem Consistent.held_tickTask (h : Consistent k) (q p : Prio) :
    (k.tickTask q).held p = k.held p := by
  rcases eq_or_ne p q with rfl | hne
  · rcases h.tickTask_cases p with ⟨-, heq⟩ | ⟨-, -, heq⟩ | ⟨hone, heq⟩
    · rw [heq]
    · rw [heq]
      simp [held, setTcb]
    · rw [heq]
      rcases (h.task p).stat with hstat | ⟨hstat, -⟩
      · have hnone : (k.call p).queue = none := by
          by_contra hsome
          obtain ⟨i, hi⟩ := Option.ne_none_iff_exists'.1 hsome
          have := (h.task p).dly_eq_zero i hi hstat
          simp [hone] at this
        simp [held, hnone]
      · simp [held, hstat, osStatRdy, osStatQ]
  · refine held_congr ?_ (h.sameTask_tickTask hne).tcb
    unfold Kernel.tickTask
    dsimp only
    split_ifs <;> rfl

theorem Consistent.held_osTimeTick (h : Consistent k) (p : Prio) :
    k.osTimeTick.held p = k.held p :=
  (C.osTCBList.foldlRecOn
    (motive := fun k' : Kernel C α ↦ Consistent k' ∧ k'.held p = k.held p) _ ⟨h, rfl⟩
    fun _ ⟨h, hheld⟩ q hq ↦ ⟨h.tickTask hq, (h.held_tickTask q p).trans hheld⟩).2

variable [DecidableEq ι]

/-- The transfers of a call of `OSQPost`. -/
def postTransfers (k : Kernel C α) (i : ι) (msg : α) : List (Transfer ι α) :=
  if (k.osQPost i msg).1 = osErrNone then
    .posted i msg ::
      if (k.event i).wait.group ≠ 0#8 then [.given i (k.event i).wait.highest msg] else []
  else
    []

/-- The transfers of a call of `OSQPend` that does not wait. -/
def pendTransfers (k : Kernel C α) (i : ι) (timeout : BitVec 16) : List (Transfer ι α) :=
  match (k.osQPend i timeout).1 with
  | .message msg => [.given i k.osPrioCur msg, .returned k.osPrioCur msg]
  | .error _ | .waits => []

/-- The transfers of a return from `OSQPend` after a wait. -/
def returnTransfers (null : α) (k : Kernel C α) : List (Transfer ι α) :=
  match k.call k.osPrioCur with
  | .resume i =>
    if (k.osQPendReturn i null).2.1 = osErrNone then
      [.returned k.osPrioCur (k.osQPendReturn i null).1]
    else
      []
  | .user | .sched | .schedPend _ => []

/-- The transfers of a step. -/
def transfers (null : α) (k : Kernel C α) : Action ι α → List (Transfer ι α)
  | .post i msg | .isrPost i msg => k.postTransfers i msg
  | .pend i timeout => k.pendTransfers i timeout
  | .resume => k.returnTransfers null
  | .dly _ | .lock | .unlock | .sched | .intEnter | .tick | .intExit => []

/-- A step, labelled with its transfers. -/
def Moves (null : α) (k : Kernel C α) (ts : List (Transfer ι α)) (k' : Kernel C α) : Prop :=
  ∃ a, Step null k a k' ∧ ts = transfers null k a

/-! ### The queues -/

theorem Consistent.contents_osQPost (h : Consistent k) (i : ι) (msg : α) (j : ι) :
    (k.event j).osQ.contents ++ (k.postTransfers i msg).filterMap (Transfer.postedFor j) =
      (k.postTransfers i msg).filterMap (Transfer.givenFrom j) ++
        ((k.osQPost i msg).2.event j).osQ.contents := by
  have hfull : osErrQFull ≠ osErrNone := by decide
  rcases h.osQPost_cases i msg with ⟨hwait, heq⟩ | ⟨hwait, hroom, heq⟩ | ⟨hwait, -, heq⟩
  · have hnil := h.contents_eq_nil hwait
    rw [postTransfers, heq, if_pos rfl, if_pos hwait, event_callSched, osQ_give]
    rcases eq_or_ne i j with rfl | hne
    · simp [List.filterMap_cons, Transfer.postedFor, Transfer.givenFrom, hnil]
    · simp [List.filterMap_cons, Transfer.postedFor, Transfer.givenFrom, hne]
  · rw [postTransfers, heq, if_pos rfl, if_neg (not_not.2 hwait)]
    rcases eq_or_ne i j with rfl | hne
    · simp [List.filterMap_cons, Transfer.postedFor, Transfer.givenFrom,
        RingBuffer.contents_pushBack]
    · simp [List.filterMap_cons, Transfer.postedFor, Transfer.givenFrom, hne,
        osQ_setQ_of_ne hne.symm]
  · simp [postTransfers, heq, hfull]

theorem Consistent.contents_osQPend (h : Consistent k) (i : ι) (timeout : BitVec 16) (j : ι)
    (hcall : k.call k.osPrioCur = .user) :
    (k.event j).osQ.contents ++ (k.pendTransfers i timeout).filterMap (Transfer.postedFor j) =
      (k.pendTransfers i timeout).filterMap (Transfer.givenFrom j) ++
        ((k.osQPend i timeout).2.event j).osQ.contents := by
  unfold pendTransfers
  rcases h.osQPend_cases i timeout hcall with ⟨err, heq⟩ | ⟨-, hcount, heq⟩ | ⟨-, -, heq⟩
  · simp [heq]
  · rw [heq]
    rcases eq_or_ne i j with rfl | hne
    · simp [List.filterMap_cons, Transfer.givenFrom, Transfer.postedFor,
        ← RingBuffer.contents_eq_cons]
    · simp [List.filterMap_cons, Transfer.givenFrom, Transfer.postedFor, hne,
        osQ_setQ_of_ne hne.symm]
  · simp [heq]

/-! ### The tasks -/

/-- A post gives the first task that waits the message, and the others nothing. -/
theorem Consistent.held_osQPost (h : Consistent k) (i : ι) (msg : α) (p : Prio)
    (hcall : k.osIntNesting = 0#8 → (k.call k.osPrioCur).queue = none) :
    k.held p ++ (k.postTransfers i msg).filterMap (Transfer.givenTo p) =
      (k.postTransfers i msg).filterMap (Transfer.returnedTo p) ++ (k.osQPost i msg).2.held p := by
  have hfull : osErrQFull ≠ osErrNone := by decide
  rcases h.osQPost_cases i msg with ⟨hwait, heq⟩ | ⟨hwait, hroom, heq⟩ | ⟨hwait, -, heq⟩
  · have hfirst := highest_mem_wait hwait
    have hpends := (h.mem_wait.1 hfirst).1
    have hqueue := queue_callSched (k := k.give i (k.event i).wait.highest msg) hcall
    rw [postTransfers, heq, if_pos rfl, if_pos hwait]
    rcases eq_or_ne (k.event i).wait.highest p with rfl | hne
    · have hsome : (((k.give i (k.event i).wait.highest msg).callSched .sched).call
          (k.event i).wait.highest).queue = some i := (hqueue _).trans hpends
      rw [h.held_eq_nil hfirst, held, hsome]
      simp [List.filterMap_cons, Transfer.givenTo, Transfer.returnedTo]
    · rw [held_congr (k := k) (hqueue p) (by simp [tcb_give_of_ne hne.symm])]
      simp [List.filterMap_cons, Transfer.givenTo, Transfer.returnedTo, hne]
  · have hheld : (k.setQ i ((k.event i).osQ.pushBack msg hroom)).held p = k.held p :=
      held_congr rfl rfl
    rw [postTransfers, heq, if_pos rfl, if_neg (not_not.2 hwait), hheld]
    simp [List.filterMap_cons, Transfer.givenTo, Transfer.returnedTo]
  · simp [postTransfers, heq, hfull]

/-- A pend that does not wait is given a message and returns with it. -/
theorem Consistent.held_osQPend (h : Consistent k) (i : ι) (timeout : BitVec 16) (p : Prio)
    (hcall : k.call k.osPrioCur = .user) :
    k.held p ++ (k.pendTransfers i timeout).filterMap (Transfer.givenTo p) =
      (k.pendTransfers i timeout).filterMap (Transfer.returnedTo p) ++
        (k.osQPend i timeout).2.held p := by
  have hnone : (k.call k.osPrioCur).queue = none := by
    rw [hcall]
    rfl
  unfold pendTransfers
  rcases h.osQPend_cases i timeout hcall with ⟨err, heq⟩ | ⟨-, hcount, heq⟩ | ⟨-, -, heq⟩
  · simp [heq]
  · have hheld : (k.setQ i ((k.event i).osQ.popFront hcount)).held p = k.held p :=
      held_congr rfl rfl
    rw [heq]
    rcases eq_or_ne k.osPrioCur p with rfl | hne
    · simp [List.filterMap_cons, Transfer.givenTo, Transfer.returnedTo, hheld,
        held_of_queue_eq_none hnone]
    · simp [List.filterMap_cons, Transfer.givenTo, Transfer.returnedTo, hheld, hne]
  · rw [heq]
    rcases eq_or_ne k.osPrioCur p with rfl | hne
    · have hnil : (k.await i timeout).held k.osPrioCur = [] := by
        simp [held, osStatRdy, osStatQ]
      simp [held_of_queue_eq_none hnone, hnil]
    · have hheld : (k.await i timeout).held p = k.held p :=
        held_congr (by rw [call_await_of_ne hne.symm]) (tcb_await_of_ne hne.symm)
      simp [hheld]

/-- A return from `OSQPend` returns with what the task has been given. -/
theorem Consistent.returnTransfers_eq (h : Consistent k) {i : ι} (null : α)
    (hcall : k.call k.osPrioCur = .resume i) (hready : k.osPrioCur ∈ k.osRdy) :
    k.returnTransfers null = (k.held k.osPrioCur).map (.returned k.osPrioCur) := by
  have htimeout : osErrTimeout ≠ osErrNone := by decide
  have hstat := (h.mem_osRdy.1 hready).2.1
  have heq : k.returnTransfers null =
      if (k.osQPendReturn i null).2.1 = osErrNone then
        [.returned k.osPrioCur (k.osQPendReturn i null).1]
      else
        [] := by
    rw [returnTransfers, hcall]
  rw [heq, h.osQPendReturn_eq null hcall hready]
  cases hpend : (k.tcb k.osPrioCur).osTCBStatPend with
  | pendOk => simp [held, hcall, Call.queue, hstat, hpend]
  | pendTo => simp [held, hpend, htimeout]
  | pendAbort => exact absurd hpend ((h.task k.osPrioCur).not_abort i (by simp [hcall]))

theorem Consistent.held_osQPendReturn (h : Consistent k) {i : ι} (null : α) (p : Prio)
    (hcall : k.call k.osPrioCur = .resume i) (hready : k.osPrioCur ∈ k.osRdy) :
    k.held p = (k.returnTransfers null).filterMap (Transfer.returnedTo p) ++
      (k.osQPendReturn i null).2.2.held p := by
  rw [h.returnTransfers_eq null hcall hready, h.osQPendReturn_eq null hcall hready,
    List.filterMap_map]
  rcases eq_or_ne k.osPrioCur p with rfl | hne
  · have hnil : (k.leave i null).held k.osPrioCur = [] :=
      held_of_queue_eq_none (by rw [call_leave_self]; rfl)
    have hself : Transfer.returnedTo k.osPrioCur ∘ Transfer.returned (ι := ι) k.osPrioCur =
        (some : α → Option α) := funext fun _ ↦ if_pos rfl
    rw [hnil, hself, List.filterMap_some, List.append_nil]
  · have hheld : (k.leave i null).held p = k.held p :=
      held_congr (by rw [call_leave_of_ne hne.symm]) (tcb_leave_of_ne hne.symm)
    have hother : Transfer.returnedTo p ∘ Transfer.returned (ι := ι) k.osPrioCur =
        fun _ : α ↦ none := funext fun _ ↦ if_neg hne
    rw [hheld, hother, List.filterMap_none, List.nil_append]

/-! ### The steps -/

/-- The actions in which no message is moved. -/
def Action.IsSilent : Action ι α → Prop
  | .dly _ | .lock | .unlock | .sched | .intEnter | .tick | .intExit => True
  | .post .. | .pend .. | .resume | .isrPost .. => False

theorem Scheduled.silent (h : Scheduled k) {a : Action ι α} (ha : a.IsSilent)
    (hstep : Step null k a k') : k'.event = k.event ∧ ∀ p, k'.held p = k.held p := by
  cases a with
  | dly ticks =>
    obtain ⟨⟨⟨hint, huser⟩, -⟩, rfl⟩ := hstep.dly
    have hnone : (k.call k.osPrioCur).queue = none := by
      rw [huser]
      rfl
    rcases eq_or_ne ticks 0#16 with rfl | hne
    · rw [osTimeDly_of_not (Or.inr rfl)]
      exact ⟨rfl, fun _ ↦ rfl⟩
    · rw [osTimeDly_eq hint hne]
      refine ⟨rfl, fun p ↦ ?_⟩
      have hqueue := queue_goto (k := ({ k with osRdy := k.osRdy.remove k.osPrioCur } :
        Kernel C α).setTcb k.osPrioCur { k.tcb k.osPrioCur with osTCBDly := ticks })
        (c := .sched) hnone.symm p
      rcases eq_or_ne p k.osPrioCur with rfl | hcur
      · rw [held_of_queue_eq_none hnone, held_of_queue_eq_none (hqueue.trans hnone)]
      · exact held_congr hqueue (by simp [goto, setTcb, hcur])
  | lock =>
    obtain ⟨-, rfl⟩ := hstep.lock
    unfold Kernel.osSchedLock
    split_ifs <;> exact ⟨rfl, fun _ ↦ rfl⟩
  | unlock =>
    obtain ⟨⟨-, huser⟩, rfl⟩ := hstep.unlock
    unfold Kernel.osSchedUnlock
    dsimp only
    split_ifs
    · refine ⟨event_callSched _ _, fun p ↦ held_congr (queue_callSched (fun _ ↦ ?_) p) ?_⟩
      · change (k.call k.osPrioCur).queue = none
        rw [huser]
        rfl
      · simp
    all_goals exact ⟨rfl, fun _ ↦ rfl⟩
  | sched =>
    obtain ⟨htcb, hevent, hqueue, -⟩ := throughSched_frame hstep.sched.2
    exact ⟨hevent, fun p ↦ held_congr (hqueue p) (by rw [htcb])⟩
  | intEnter =>
    obtain rfl := Option.some.inj hstep
    unfold Kernel.osIntEnter
    split_ifs <;> exact ⟨rfl, fun _ ↦ rfl⟩
  | tick =>
    obtain ⟨-, rfl⟩ := hstep.tick
    exact ⟨(osTimeTick_frame k).2.2.2.2, h.consistent.held_osTimeTick⟩
  | intExit =>
    obtain ⟨hint, rfl⟩ := hstep.intExit
    obtain ⟨-, htcb, hevent, hcall, -⟩ :=
      osSched_frame { k with osIntNesting := k.osIntNesting - 1#8 }
    rw [osIntExit_eq hint]
    exact ⟨hevent, fun p ↦ held_congr (by rw [hcall]) (by rw [htcb])⟩
  | _ => exact ha.elim

theorem transfers_of_isSilent {a : Action ι α} (ha : a.IsSilent) : transfers null k a = [] := by
  cases a <;> first | rfl | exact ha.elim

/-- **What goes through a queue.** A step adds at the end of a queue the messages accepted, and
takes from its front those given away. -/
theorem Scheduled.queue_flow (h : Scheduled k) {a : Action ι α} (hstep : Step null k a k')
    (i : ι) :
    (k.event i).osQ.contents ++ (transfers null k a).filterMap (Transfer.postedFor i) =
      (transfers null k a).filterMap (Transfer.givenFrom i) ++ (k'.event i).osQ.contents := by
  by_cases ha : a.IsSilent
  · rw [transfers_of_isSilent ha, (h.silent ha hstep).1]
    simp
  cases a <;> first | exact absurd trivial ha | skip
  case resume =>
    obtain ⟨j, hint, hcall, rfl⟩ := hstep.resume
    have hready := h.mem_osRdy_of_resume hint hcall
    rw [transfers, h.consistent.returnTransfers_eq null hcall hready,
      h.consistent.osQPendReturn_eq null hcall hready, osQ_leave, List.filterMap_map,
      List.filterMap_map]
    simp [Function.comp_def, Transfer.postedFor, Transfer.givenFrom]
  case post j msg =>
    obtain ⟨-, rfl⟩ := hstep.post
    exact h.consistent.contents_osQPost j msg i
  case isrPost j msg =>
    obtain ⟨-, rfl⟩ := hstep.isrPost
    exact h.consistent.contents_osQPost j msg i
  case pend j timeout =>
    obtain ⟨⟨huser, -⟩, rfl⟩ := hstep.pend
    exact h.consistent.contents_osQPend j timeout i huser.2

/-- **What goes through a task.** A step gives the task messages, and lets it return with those it
has been given. -/
theorem Scheduled.held_flow (h : Scheduled k) {a : Action ι α} (hstep : Step null k a k')
    (p : Prio) :
    k.held p ++ (transfers null k a).filterMap (Transfer.givenTo p) =
      (transfers null k a).filterMap (Transfer.returnedTo p) ++ k'.held p := by
  by_cases ha : a.IsSilent
  · rw [transfers_of_isSilent ha, (h.silent ha hstep).2]
    simp
  cases a <;> first | exact absurd trivial ha | skip
  case resume =>
    obtain ⟨j, hint, hcall, rfl⟩ := hstep.resume
    have hready := h.mem_osRdy_of_resume hint hcall
    have hgiven : (k.returnTransfers null).filterMap (Transfer.givenTo p) = [] := by
      rw [h.consistent.returnTransfers_eq null hcall hready, List.filterMap_map]
      simp [Function.comp_def, Transfer.givenTo]
    rw [transfers, hgiven, List.append_nil]
    exact h.consistent.held_osQPendReturn null p hcall hready
  case post j msg =>
    obtain ⟨huser, rfl⟩ := hstep.post
    exact h.consistent.held_osQPost j msg p fun _ ↦ by
      rw [huser.2]
      rfl
  case isrPost j msg =>
    obtain ⟨hint, rfl⟩ := hstep.isrPost
    exact h.consistent.held_osQPost j msg p fun hzero ↦ absurd hzero hint
  case pend j timeout =>
    obtain ⟨⟨huser, -⟩, rfl⟩ := hstep.pend
    exact h.consistent.held_osQPend j timeout p huser.2

/-- The transfers of a run, in order. -/
def transfersAlong (null : α) (k : Kernel C α) : List (Action ι α) → List (Transfer ι α)
  | [] => []
  | a :: as => transfers null k a ++
    match k.step null a with
    | some k' => transfersAlong null k' as
    | none => []

/-- A run makes its transfers. -/
theorem exists_moves {as : List (Action ι α)} (h : Run (Step null) k as k') :
    ∃ tss, Run (Moves null) k tss k' ∧ tss.flatten = transfersAlong null k as := by
  induction as generalizing k with
  | nil => exact ⟨[], run_nil_iff.2 (run_nil_iff.1 h), rfl⟩
  | cons a as ih =>
    obtain ⟨t, hstep, hrest⟩ := run_cons_iff.1 h
    obtain ⟨tss, hrun, hflatten⟩ := ih hrest
    refine ⟨transfers null k a :: tss, run_cons_iff.2 ⟨t, ⟨a, hstep, rfl⟩, hrun⟩, ?_⟩
    rw [transfersAlong, show k.step null a = some t from hstep, List.flatten_cons, hflatten]

/-- The queue `i` as a stock of messages. -/
theorem queue_of_moves {tss : List (List (Transfer ι α))}
    (h : Run (Moves null) (osStart C null) tss k) (i : ι) :
    tss.flatten.filterMap (Transfer.postedFor i) =
      tss.flatten.filterMap (Transfer.givenFrom i) ++ (k.event i).osQ.contents := by
  have hmoves : ∀ (k : Kernel C α) (ts : List (Transfer ι α)) (k' : Kernel C α),
      Scheduled k → Moves null k ts k' → Scheduled k' ∧
        (k.event i).osQ.contents ++ ts.filterMap (Transfer.postedFor i) =
          ts.filterMap (Transfer.givenFrom i) ++ (k'.event i).osQ.contents := by
    rintro k ts k' hk ⟨a, hstep, rfl⟩
    exact ⟨hk.step hstep, hk.queue_flow hstep i⟩
  have hflow := h.fifo (scheduled_osStart C null) hmoves
  have hnil : ((osStart C null).event i).osQ.contents = [] := by simp [osStart]
  rw [List.filterMap_flatten, List.filterMap_flatten, ← List.flatMap_def, ← List.flatMap_def]
  rwa [hnil, List.nil_append] at hflow

/-- What the task `p` has been given as a stock of messages. -/
theorem held_of_moves {tss : List (List (Transfer ι α))}
    (h : Run (Moves null) (osStart C null) tss k) (p : Prio) :
    tss.flatten.filterMap (Transfer.givenTo p) =
      tss.flatten.filterMap (Transfer.returnedTo p) ++ k.held p := by
  have hmoves : ∀ (k : Kernel C α) (ts : List (Transfer ι α)) (k' : Kernel C α),
      Scheduled k → Moves null k ts k' → Scheduled k' ∧
        k.held p ++ ts.filterMap (Transfer.givenTo p) =
          ts.filterMap (Transfer.returnedTo p) ++ k'.held p := by
    rintro k ts k' hk ⟨a, hstep, rfl⟩
    exact ⟨hk.step hstep, hk.held_flow hstep p⟩
  have hflow := h.fifo (scheduled_osStart C null) hmoves
  have hnil : (osStart C null).held p = [] := held_of_queue_eq_none rfl
  rw [List.filterMap_flatten, List.filterMap_flatten, ← List.flatMap_def, ← List.flatMap_def]
  rwa [hnil, List.nil_append] at hflow

/-- **No message is lost, doubled or overtaken.** In every run of any tasks under any interrupts,
the messages accepted for a queue are those given away from it and then those still in it, in this
order; and the messages given to a task are those that `OSQPend` has returned to it and then the one
it has yet to return with. -/
theorem messages_of_run {as : List (Action ι α)} (h : Run (Step null) (osStart C null) as k) :
    (∀ i, (transfersAlong null (osStart C null) as).filterMap (Transfer.postedFor i) =
        (transfersAlong null (osStart C null) as).filterMap (Transfer.givenFrom i) ++
          (k.event i).osQ.contents) ∧
      ∀ p, (transfersAlong null (osStart C null) as).filterMap (Transfer.givenTo p) =
        (transfersAlong null (osStart C null) as).filterMap (Transfer.returnedTo p) ++
          k.held p := by
  obtain ⟨tss, hmoves, hflatten⟩ := exists_moves h
  rw [← hflatten]
  exact ⟨queue_of_moves hmoves, held_of_moves hmoves⟩

/-- A task waits, a second one posts a message for it, and it posts another before it waits
again. -/
def handOver : List (Action Unit ℕ) :=
  [.pend () 0#16, .sched, .post () 7, .sched, .resume, .post () 8]

theorem messages_of_run_handOver : ∃ k : Kernel pairConfig ℕ,
    Run (Step 0) (osStart pairConfig 0) handOver k ∧
      (transfersAlong 0 (osStart pairConfig 0) handOver).filterMap (Transfer.postedFor ()) =
        (transfersAlong 0 (osStart pairConfig 0) handOver).filterMap (Transfer.givenFrom ()) ++
          [8] := by
  have heval : ((handOver.foldlM (step 0) (osStart pairConfig 0)).map fun k ↦
      (k.event ()).osQ.contents) = some [8] := by
    decide +kernel
  obtain ⟨k, hk, hcontents⟩ := Option.map_eq_some_iff.1 heval
  have hrun := run_foldlM_iff.2 hk
  refine ⟨k, hrun, ?_⟩
  rw [← hcontents]
  exact (messages_of_run hrun).1 ()

end Kernel

end MappingRobot
