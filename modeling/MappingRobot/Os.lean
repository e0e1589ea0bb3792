import Mathlib.Data.List.Basic

/-!
# Message queues

The message queues of `os_q.c`. Each queue of the program is pended on by one task, so that a
queue is kept together with what that task is doing: waiting in `OSQPend`, made ready by
`OSQPost` with its message in its TCB, or at a program point of its own. A wait that has timed
out makes the task ready, but `OSTimeTick` leaves it on the wait list until it runs: a post that
comes first still hands its message over.

`OSQPost` hands its message to a task on the wait list, appends it, or refuses it when the
queue is full. A queue with a task on its wait list is empty, which is a field of `PendQueue`
and is kept by every operation. `content` is what the task will still be given, in this order.
-/

namespace MappingRobot

/-- `OS_ERR_NONE` -/
def osErrNone : BitVec 8 := 0

/-- `OS_ERR_Q_FULL` -/
def osErrQFull : BitVec 8 := 30

/-- What the task that pends on a queue is doing. -/
inductive Pending (α κ : Type)
  /-- It waits in `OSQPend`. -/
  | waiting
  /-- Its wait has timed out, and it has not run since. -/
  | expired
  /-- `OSQPost` has put a message into its TCB, and it has not run since. -/
  | posted (message : α)
  /-- It is at a program point of its own. -/
  | running (pc : κ)

namespace Pending

variable {α κ : Type}

/-- The task is on the wait list of the queue. -/
def onWaitList : Pending α κ → Bool
  | .waiting | .expired => true
  | .posted _ | .running _ => false

/-- The task is not ready to run. -/
def isBlocked : Pending α κ → Bool
  | .waiting => true
  | .expired | .posted _ | .running _ => false

/-- The message in the TCB. -/
def message : Pending α κ → List α
  | .posted m => [m]
  | .waiting | .expired | .running _ => []

theorem isBlocked_iff {task : Pending α κ} : task.isBlocked = true ↔ task = .waiting := by
  cases task <;> simp [isBlocked]

theorem onWaitList_of_isBlocked {task : Pending α κ} (h : task.isBlocked = true) :
    task.onWaitList = true := by
  rw [isBlocked_iff.1 h]
  rfl

end Pending

/-- A queue of at most `size` messages, with the task that pends on it. -/
structure PendQueue (α : Type) (size : ℕ) (κ : Type) where
  /-- The messages in the queue, oldest first. -/
  entries : List α
  task : Pending α κ
  length_le : entries.length ≤ size
  entries_eq_nil : task.onWaitList = true → entries = []

namespace PendQueue

variable {α κ : Type} {size : ℕ}

/-- `OSQCreate`, and the task at its first program point. -/
def create (size : ℕ) (pc : κ) : PendQueue α size κ where
  entries := []
  task := .running pc
  length_le := by simp
  entries_eq_nil _ := rfl

/-- `OSQPost` -/
def osqPost (q : PendQueue α size κ) (m : α) : BitVec 8 × PendQueue α size κ :=
  if hwait : q.task.onWaitList = true then
    (osErrNone, { q with task := .posted m, entries_eq_nil := by simp [Pending.onWaitList] })
  else if hroom : q.entries.length < size then
    (osErrNone, { q with
      entries := q.entries ++ [m]
      length_le := by rw [List.length_append]; exact hroom
      entries_eq_nil := fun h ↦ absurd h hwait })
  else
    (osErrQFull, q)

/-- `OSQPend`: the task takes the oldest message and goes on from `got`, or waits. -/
def osqPend (q : PendQueue α size κ) (got : α → κ) : PendQueue α size κ :=
  match h : q.entries with
  | m :: entries =>
    { entries
      task := .running (got m)
      length_le := by have := q.length_le; simp_all; omega
      entries_eq_nil := by simp [Pending.onWaitList] }
  | [] =>
    { q with task := .waiting, entries_eq_nil := fun _ ↦ h }

/-- The task goes to a program point. -/
def goto (q : PendQueue α size κ) (pc : κ) : PendQueue α size κ :=
  { q with task := .running pc, entries_eq_nil := by simp [Pending.onWaitList] }

/-- `OSTimeTick` ends the wait of the task. -/
def expire (q : PendQueue α size κ) : PendQueue α size κ :=
  if h : q.task.isBlocked then
    { q with
      task := .expired
      entries_eq_nil := fun _ ↦ q.entries_eq_nil (Pending.onWaitList_of_isBlocked h) }
  else
    q

/-- What the task will still be given: the message in its TCB and those in the queue. -/
def content (q : PendQueue α size κ) : List α :=
  q.task.message ++ q.entries

/-- A post would be refused. -/
def IsFull (q : PendQueue α size κ) : Prop :=
  q.task.onWaitList = false ∧ q.entries.length = size

instance (q : PendQueue α size κ) : Decidable q.IsFull :=
  inferInstanceAs (Decidable (_ ∧ _))

/-! ### The operations, in terms of the task and the messages -/

@[simp]
theorem entries_goto (q : PendQueue α size κ) (pc : κ) : (q.goto pc).entries = q.entries :=
  rfl

@[simp]
theorem task_goto (q : PendQueue α size κ) (pc : κ) : (q.goto pc).task = .running pc :=
  rfl

theorem content_of_running {q : PendQueue α size κ} {pc : κ} (h : q.task = .running pc) :
    q.content = q.entries := by
  rw [content, h]
  rfl

/-- A post that is not refused adds its message at the end, and does not move a running task. -/
theorem osqPost_of_not_isFull {q : PendQueue α size κ} (h : ¬ q.IsFull) (m : α) :
    (q.osqPost m).1 = osErrNone ∧ (q.osqPost m).2.content = q.content ++ [m] ∧
      ((q.task.onWaitList = true ∧ (q.osqPost m).2.task = .posted m ∧
          (q.osqPost m).2.entries = []) ∨
        (q.task.onWaitList = false ∧ (q.osqPost m).2.task = q.task ∧
          (q.osqPost m).2.entries = q.entries ++ [m])) := by
  by_cases hwait : q.task.onWaitList = true
  · have hnil := q.entries_eq_nil hwait
    have hmessage : q.task.message = [] := by
      cases ht : q.task <;> simp_all [Pending.onWaitList, Pending.message]
    rw [osqPost, dif_pos hwait]
    refine ⟨rfl, ?_, Or.inl ⟨hwait, rfl, hnil⟩⟩
    simp only [content, hnil, hmessage]
    rfl
  · have hroom : q.entries.length < size := by
      have := q.length_le
      unfold IsFull at h
      simp_all
      omega
    rw [osqPost, dif_neg hwait, dif_pos hroom]
    simp [content, Bool.eq_false_iff.2 hwait]

/-- A post to a full queue is refused and changes nothing. -/
theorem osqPost_of_isFull {q : PendQueue α size κ} (h : q.IsFull) (m : α) :
    q.osqPost m = (osErrQFull, q) := by
  have hfull := h.2
  rw [osqPost, dif_neg (by simp [h.1]), dif_neg (by omega)]

/-- A pend takes the oldest message, or finds none and waits. -/
theorem osqPend_cases (q : PendQueue α size κ) (got : α → κ) :
    (∃ m entries, q.entries = m :: entries ∧ (q.osqPend got).task = .running (got m) ∧
        (q.osqPend got).entries = entries) ∨
      (q.entries = [] ∧ (q.osqPend got).task = .waiting ∧ (q.osqPend got).entries = []) := by
  unfold osqPend
  split
  · rename_i m entries h
    exact Or.inl ⟨m, entries, h, rfl, rfl⟩
  · rename_i h
    exact Or.inr ⟨h, rfl, h⟩

/-- A timeout changes nothing but a wait. -/
theorem expire_of_isBlocked {q : PendQueue α size κ} (h : q.task.isBlocked = true) :
    q.expire.task = .expired ∧ q.expire.entries = q.entries := by
  rw [expire, dif_pos h]
  exact ⟨rfl, rfl⟩

end PendQueue

end MappingRobot
