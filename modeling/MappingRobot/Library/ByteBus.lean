import Mathlib.Data.List.Basic

/-!
# A two-wire bus at the level of bytes

What a master and a slave of a two-wire bus do to each other, a byte at a time: the master
issues start and stop conditions, writes bytes that the slave acknowledges or refuses, and
reads bytes that it acknowledges or not. A slave is a state machine with one operation for each
of these (`ByteSlave`); nothing is said about what it does.

A master's plan is a list of `BusAction`s. `exchange` carries a plan out up to and including the
first byte that is refused: this is the early exit that masters have on a refused byte, and it
is how a plan composes (`exchange_append`). `performed` is the part of the plan that is carried
out, and `InOrder` says of a sequence of actions that an idle bus is not used before a start.
-/

/-- One thing a master does on the bus. -/
inductive BusAction
  | start
  | stop
  /-- Write a byte. -/
  | write (byte : BitVec 8)
  /-- Read a byte and acknowledge it or not. -/
  | read (ack : Bool)
deriving DecidableEq

/-- A byte is read. -/
def BusAction.isRead : BusAction → Bool
  | .read _ => true
  | .start | .stop | .write _ => false

/-- A byte is transferred, in whichever direction. -/
def BusAction.isByte : BusAction → Bool
  | .write _ | .read _ => true
  | .start | .stop => false

/-- A slave at the level of bytes. -/
structure ByteSlave (σ : Type*) where
  /-- A start condition is seen. -/
  start : σ → σ
  /-- A stop condition is seen. -/
  stop : σ → σ
  /-- A byte is written to the slave: whether it acknowledges it. -/
  write : σ → BitVec 8 → Bool × σ
  /-- A byte is read from the slave, and acknowledged or not. -/
  read : σ → Bool → BitVec 8 × σ

/-- How an exchange went. -/
structure Exchange (σ : Type*) where
  /-- No byte was refused. -/
  acked : Bool
  /-- The bytes read. -/
  bytes : List (BitVec 8)
  /-- The slave afterwards. -/
  slave : σ

namespace ByteSlave

variable {σ : Type*} (D : ByteSlave σ)

/-- Carry a plan out, up to and including the first byte that is refused. -/
def exchange : σ → List BusAction → Exchange σ
  | s, [] => ⟨true, [], s⟩
  | s, .start :: plan => exchange (D.start s) plan
  | s, .stop :: plan => exchange (D.stop s) plan
  | s, .write byte :: plan =>
    if (D.write s byte).1 then exchange (D.write s byte).2 plan
    else ⟨false, [], (D.write s byte).2⟩
  | s, .read ack :: plan =>
    let e := exchange (D.read s ack).2 plan
    { e with bytes := (D.read s ack).1 :: e.bytes }

@[simp]
theorem exchange_nil (s : σ) : D.exchange s [] = ⟨true, [], s⟩ :=
  rfl

@[simp]
theorem exchange_start (s : σ) (plan : List BusAction) :
    D.exchange s (.start :: plan) = D.exchange (D.start s) plan :=
  rfl

@[simp]
theorem exchange_stop (s : σ) (plan : List BusAction) :
    D.exchange s (.stop :: plan) = D.exchange (D.stop s) plan :=
  rfl

theorem exchange_write_of_ack {s : σ} {byte : BitVec 8} (h : (D.write s byte).1 = true)
    (plan : List BusAction) :
    D.exchange s (.write byte :: plan) = D.exchange (D.write s byte).2 plan :=
  if_pos h

theorem exchange_write_of_refused {s : σ} {byte : BitVec 8} (h : (D.write s byte).1 = false)
    (plan : List BusAction) :
    D.exchange s (.write byte :: plan) = ⟨false, [], (D.write s byte).2⟩ :=
  if_neg (by simp [h])

/-- A byte read is the first of the bytes read. -/
theorem exchange_read (s : σ) (ack : Bool) (plan : List BusAction) :
    D.exchange s (.read ack :: plan) =
      { D.exchange (D.read s ack).2 plan with
        bytes := (D.read s ack).1 :: (D.exchange (D.read s ack).2 plan).bytes } :=
  rfl

/-- A plan in two parts: the second is carried out if nothing of the first was refused. -/
theorem exchange_append (s : σ) (plan plan' : List BusAction) :
    D.exchange s (plan ++ plan') =
      if (D.exchange s plan).acked then
        { D.exchange (D.exchange s plan).slave plan' with
          bytes := (D.exchange s plan).bytes ++ (D.exchange (D.exchange s plan).slave plan').bytes }
      else D.exchange s plan := by
  induction plan generalizing s with
  | nil => rfl
  | cons action plan ih =>
    cases action with
    | start => exact ih _
    | stop => exact ih _
    | write byte =>
      rw [List.cons_append]
      cases h : (D.write s byte).1 with
      | true => simp only [D.exchange_write_of_ack h, ih]
      | false => simp [D.exchange_write_of_refused h]
    | read ack =>
      rw [List.cons_append, exchange_read, ih, exchange_read]
      split_ifs <;> simp_all

theorem exchange_append_of_acked {s : σ} {plan : List BusAction}
    (h : (D.exchange s plan).acked = true) (plan' : List BusAction) :
    D.exchange s (plan ++ plan') =
      { D.exchange (D.exchange s plan).slave plan' with
        bytes := (D.exchange s plan).bytes ++
          (D.exchange (D.exchange s plan).slave plan').bytes } := by
  rw [exchange_append, if_pos h]

theorem exchange_append_of_refused {s : σ} {plan : List BusAction}
    (h : (D.exchange s plan).acked = false) (plan' : List BusAction) :
    D.exchange s (plan ++ plan') = D.exchange s plan := by
  rw [exchange_append, if_neg (by simp [h])]

/-- A plan that nothing of is refused reads as many bytes as it says. -/
theorem length_bytes_of_acked {s : σ} {plan : List BusAction}
    (h : (D.exchange s plan).acked = true) :
    (D.exchange s plan).bytes.length = plan.countP BusAction.isRead := by
  induction plan generalizing s with
  | nil => rfl
  | cons action plan ih =>
    cases action with
    | start | stop => exact ih h
    | write byte =>
      cases hw : (D.write s byte).1 with
      | true =>
        rw [D.exchange_write_of_ack hw] at h ⊢
        exact ih h
      | false =>
        rw [D.exchange_write_of_refused hw] at h
        cases h
    | read ack =>
      rw [List.countP_cons_of_pos rfl, exchange_read, List.length_cons, ih h]

/-- No plan reads more bytes than it says. -/
theorem length_bytes_le (s : σ) (plan : List BusAction) :
    (D.exchange s plan).bytes.length ≤ plan.countP BusAction.isRead := by
  induction plan generalizing s with
  | nil => exact Nat.le_refl _
  | cons action plan ih =>
    cases action with
    | start | stop => exact ih _
    | write byte =>
      cases h : (D.write s byte).1 with
      | true =>
        rw [D.exchange_write_of_ack h]
        exact ih _
      | false =>
        rw [D.exchange_write_of_refused h]
        exact Nat.zero_le _
    | read ack =>
      rw [List.countP_cons_of_pos rfl]
      exact Nat.succ_le_succ (ih _)

/-! ### What is carried out of a plan -/

/-- The part of a plan that is carried out. -/
def performed : σ → List BusAction → List BusAction
  | _, [] => []
  | s, .start :: plan => .start :: performed (D.start s) plan
  | s, .stop :: plan => .stop :: performed (D.stop s) plan
  | s, .write byte :: plan =>
    .write byte :: if (D.write s byte).1 then performed (D.write s byte).2 plan else []
  | s, .read ack :: plan => .read ack :: performed (D.read s ack).2 plan

@[simp]
theorem performed_start (s : σ) (plan : List BusAction) :
    D.performed s (.start :: plan) = .start :: D.performed (D.start s) plan :=
  rfl

@[simp]
theorem performed_stop (s : σ) (plan : List BusAction) :
    D.performed s (.stop :: plan) = .stop :: D.performed (D.stop s) plan :=
  rfl

@[simp]
theorem performed_read (s : σ) (ack : Bool) (plan : List BusAction) :
    D.performed s (.read ack :: plan) = .read ack :: D.performed (D.read s ack).2 plan :=
  rfl

theorem performed_write_of_ack {s : σ} {byte : BitVec 8} (h : (D.write s byte).1 = true)
    (plan : List BusAction) :
    D.performed s (.write byte :: plan) = .write byte :: D.performed (D.write s byte).2 plan :=
  congrArg _ (if_pos h)

theorem performed_write_of_refused {s : σ} {byte : BitVec 8} (h : (D.write s byte).1 = false)
    (plan : List BusAction) : D.performed s (.write byte :: plan) = [.write byte] :=
  congrArg _ (if_neg (by simp [h]))

/-- It is the plan up to a point. -/
theorem performed_isPrefix (s : σ) (plan : List BusAction) : D.performed s plan <+: plan := by
  induction plan generalizing s with
  | nil => exact List.prefix_refl _
  | cons action plan ih =>
    cases action with
    | start | stop | read ack => exact List.prefix_cons_inj _ |>.2 (ih _)
    | write byte =>
      refine List.prefix_cons_inj _ |>.2 ?_
      split_ifs
      · exact ih _
      · exact List.nil_prefix

theorem performed_of_acked {s : σ} {plan : List BusAction}
    (h : (D.exchange s plan).acked = true) : D.performed s plan = plan := by
  induction plan generalizing s with
  | nil => rfl
  | cons action plan ih =>
    cases action with
    | start | stop | read ack => exact congrArg _ (ih h)
    | write byte =>
      cases hw : (D.write s byte).1 with
      | true =>
        rw [D.exchange_write_of_ack hw] at h
        rw [D.performed_write_of_ack hw, ih h]
      | false =>
        rw [D.exchange_write_of_refused hw] at h
        cases h

/-- A plan that is refused has been carried out up to the byte refused. -/
theorem performed_of_refused {s : σ} {plan : List BusAction}
    (h : (D.exchange s plan).acked = false) :
    ∃ sent byte rest, plan = sent ++ .write byte :: rest ∧
      D.performed s plan = sent ++ [.write byte] := by
  induction plan generalizing s with
  | nil => cases h
  | cons action plan ih =>
    cases action with
    | start | stop | read ack =>
      obtain ⟨sent, byte, rest, rfl, hsent⟩ := ih h
      exact ⟨_ :: sent, byte, rest, rfl, congrArg _ hsent⟩
    | write byte =>
      cases hw : (D.write s byte).1 with
      | true =>
        rw [D.exchange_write_of_ack hw] at h
        obtain ⟨sent, byte', rest, rfl, hsent⟩ := ih h
        refine ⟨.write byte :: sent, byte', rest, rfl, ?_⟩
        rw [D.performed_write_of_ack hw, hsent]
        rfl
      | false => exact ⟨[], byte, plan, rfl, D.performed_write_of_refused hw plan⟩

/-- Nothing is carried out after a plan that is refused. -/
theorem performed_append_of_refused {s : σ} {plan : List BusAction}
    (h : (D.exchange s plan).acked = false) (plan' : List BusAction) :
    D.performed s (plan ++ plan') = D.performed s plan := by
  induction plan generalizing s with
  | nil => cases h
  | cons action plan ih =>
    cases action with
    | start | stop | read ack => exact congrArg (List.cons _) (ih h)
    | write byte =>
      cases hw : (D.write s byte).1 with
      | true =>
        rw [D.exchange_write_of_ack hw] at h
        rw [List.cons_append, D.performed_write_of_ack hw, D.performed_write_of_ack hw, ih h]
      | false =>
        rw [List.cons_append, D.performed_write_of_refused hw, D.performed_write_of_refused hw]

end ByteSlave

/-! ### Transactions in order -/

/-- The bus is idle after an action: both lines are high. -/
def BusAction.idleAfter : BusAction → Bool
  | .stop => true
  | .start | .write _ | .read _ => false

/-- A sequence of actions in which nothing but a start is done on an idle bus. -/
def InOrder : Bool → List BusAction → Prop
  | _, [] => True
  | idle, a :: actions => (idle = true → a = .start) ∧ InOrder a.idleAfter actions

instance decidableInOrder : (idle : Bool) → (actions : List BusAction) →
    Decidable (InOrder idle actions)
  | _, [] => inferInstanceAs (Decidable True)
  | _, a :: actions =>
    have := decidableInOrder a.idleAfter actions
    inferInstanceAs (Decidable (_ ∧ _))

/-- Whether the bus is idle after a sequence of actions. -/
def idleAfter (idle : Bool) (actions : List BusAction) : Bool :=
  (actions.getLast?.map BusAction.idleAfter).getD idle

theorem inOrder_append {idle : Bool} {actions actions' : List BusAction} :
    InOrder idle (actions ++ actions') ↔
      InOrder idle actions ∧ InOrder (idleAfter idle actions) actions' := by
  induction actions generalizing idle with
  | nil => simp [InOrder, idleAfter]
  | cons a actions ih =>
    have hlast : idleAfter idle (a :: actions) = idleAfter a.idleAfter actions := by
      cases actions <;> simp [idleAfter, List.getLast?_cons]
    rw [List.cons_append, InOrder, InOrder, ih, hlast, and_assoc]

theorem InOrder.isPrefix {idle : Bool} {actions actions' : List BusAction}
    (h : InOrder idle actions') (hpre : actions <+: actions') : InOrder idle actions := by
  obtain ⟨rest, rfl⟩ := hpre
  exact (inOrder_append.1 h).1

/-- Without a stop the bus does not get idle. -/
theorem inOrder_of_no_stop {actions : List BusAction} (h : .stop ∉ actions) :
    InOrder false actions := by
  induction actions with
  | nil => trivial
  | cons a actions ih =>
    obtain ⟨hstop, hrest⟩ := List.ne_and_not_mem_of_not_mem_cons h
    refine ⟨nofun, ?_⟩
    cases a with
    | stop => exact absurd rfl hstop
    | start | write byte | read ack => exact ih hrest

theorem idleAfter_concat (idle : Bool) (actions : List BusAction) (a : BusAction) :
    idleAfter idle (actions ++ [a]) = a.idleAfter := by
  rw [idleAfter, List.getLast?_concat]
  rfl

/-- What is carried out of a plan that does not end with a stop leaves the bus busy. -/
theorem ByteSlave.idleAfter_performed {σ : Type*} (D : ByteSlave σ) (s : σ)
    {plan : List BusAction} {idle : Bool} (hbusy : idleAfter idle plan = false) :
    idleAfter idle (D.performed s plan) = false := by
  cases h : (D.exchange s plan).acked with
  | true => rw [D.performed_of_acked h, hbusy]
  | false =>
    obtain ⟨sent, byte, rest, -, hsent⟩ := D.performed_of_refused h
    rw [hsent, idleAfter_concat]
    rfl
