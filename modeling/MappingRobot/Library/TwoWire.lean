import MappingRobot.Library.ByteBus

/-!
# A two-wire bus at the level of lines

What can be seen on the two lines of the bus, the clock SCL and the data SDA, by a listener that
knows nothing of master and slave (`Sampler`): a fall of SDA while SCL is high is a start condition,
a rise a stop condition; and at each rise of SCL a bit is sampled, of which eight are a byte, most
significant bit first, and the ninth its acknowledgement, which is low if the byte is acknowledged.
-/

/-- What is seen on the lines. -/
inductive Seen
  | start
  | stop
  /-- A byte, acknowledged or not. -/
  | byte (data : BitVec 8) (ack : Bool)
deriving DecidableEq

/-- The bytes seen, with their acknowledgements. -/
def bytesSeen (seen : List Seen) : List (BitVec 8 × Bool) :=
  seen.filterMap fun
    | .byte data ack => some (data, ack)
    | .start | .stop => none

theorem bytesSeen_append (seen seen' : List Seen) :
    bytesSeen (seen ++ seen') = bytesSeen seen ++ bytesSeen seen' :=
  List.filterMap_append

/-- A byte from its bits, the most significant first. -/
def ofBits (bits : List Bool) : BitVec 8 :=
  bits.foldl (fun data bit ↦ if bit then data <<< 1 ||| 1 else data <<< 1) 0

theorem ofBits_concat (bits : List Bool) (bit : Bool) :
    ofBits (bits ++ [bit]) = if bit then ofBits bits <<< 1 ||| 1 else ofBits bits <<< 1 := by
  rw [ofBits, List.foldl_append]
  rfl

/-- A listener on the lines. -/
structure Sampler where
  /-- The bits sampled since the last condition or the last byte. -/
  bits : List Bool
  seen : List Seen
deriving DecidableEq

namespace Sampler

/-- Nothing has been seen. -/
def fresh : Sampler :=
  ⟨[], []⟩

/-- The levels of SCL and SDA go from `scl` and `sda` to `scl'` and `sda'`. -/
def next (m : Sampler) (scl sda scl' sda' : Bool) : Sampler :=
  if scl' then
    if scl then
      if sda && !sda' then ⟨[], m.seen ++ [.start]⟩
      else if !sda && sda' then ⟨[], m.seen ++ [.stop]⟩
      else m
    else if m.bits.length = 8 then ⟨[], m.seen ++ [.byte (ofBits m.bits) (!sda')]⟩
    else ⟨m.bits ++ [sda'], m.seen⟩
  else
    m

variable (m : Sampler) {sda sda' : Bool}

/-- Nothing is seen as long as SCL is low. -/
@[simp]
theorem next_low (scl sda sda' : Bool) : m.next scl sda false sda' = m :=
  rfl

/-- Nothing is seen as long as SCL is high and SDA does not change. -/
theorem next_high_of_eq (h : sda' = sda) : m.next true sda true sda' = m := by
  subst h
  cases sda' <;> rfl

/-- Nothing is seen as long as neither line changes. -/
@[simp]
theorem next_self (scl sda : Bool) : m.next scl sda scl sda = m := by
  cases scl with
  | true => exact m.next_high_of_eq rfl
  | false => exact m.next_low _ _ _

/-- A bit is sampled. -/
theorem next_rise (sda sda' : Bool) (h : m.bits.length < 8) :
    m.next false sda true sda' = ⟨m.bits ++ [sda'], m.seen⟩ := by
  rw [next, if_pos rfl, if_neg (by decide), if_neg (by omega)]

/-- The acknowledgement of a byte is sampled. -/
theorem next_rise_ack (sda sda' : Bool) (h : m.bits.length = 8) :
    m.next false sda true sda' = ⟨[], m.seen ++ [.byte (ofBits m.bits) (!sda')]⟩ := by
  rw [next, if_pos rfl, if_neg (by decide), if_pos h]

theorem next_start : m.next true true true false = ⟨[], m.seen ++ [.start]⟩ :=
  rfl

theorem next_stop : m.next true false true true = ⟨[], m.seen ++ [.stop]⟩ :=
  rfl

end Sampler

namespace ByteSlave

variable {σ : Type*} (D : ByteSlave σ)

/-- What a listener sees of actions carried out one after the other, whatever is refused. -/
def shows : σ → List BusAction → List Seen
  | _, [] => []
  | s, .start :: actions => .start :: shows (D.start s) actions
  | s, .stop :: actions => .stop :: shows (D.stop s) actions
  | s, .write byte :: actions =>
    .byte byte (D.write s byte).1 :: shows (D.write s byte).2 actions
  | s, .read ack :: actions => .byte (D.read s ack).1 ack :: shows (D.read s ack).2 actions

/-- What a listener sees of a plan of which nothing is refused, with the bytes read. -/
def showsAcked : List BusAction → List (BitVec 8) → List Seen
  | [], _ => []
  | .start :: plan, bytes => .start :: showsAcked plan bytes
  | .stop :: plan, bytes => .stop :: showsAcked plan bytes
  | .write byte :: plan, bytes => .byte byte true :: showsAcked plan bytes
  | .read ack :: plan, bytes => .byte (bytes.headD 0) ack :: showsAcked plan bytes.tail

theorem shows_write (s : σ) (byte : BitVec 8) (actions : List BusAction) :
    D.shows s (.write byte :: actions) =
      .byte byte (D.write s byte).1 :: D.shows (D.write s byte).2 actions :=
  rfl

theorem shows_read (s : σ) (ack : Bool) (actions : List BusAction) :
    D.shows s (.read ack :: actions) =
      .byte (D.read s ack).1 ack :: D.shows (D.read s ack).2 actions :=
  rfl

theorem showsAcked_write (byte : BitVec 8) (plan : List BusAction) (bytes : List (BitVec 8)) :
    showsAcked (.write byte :: plan) bytes = .byte byte true :: showsAcked plan bytes :=
  rfl

theorem showsAcked_read (ack : Bool) (plan : List BusAction) (bytes : List (BitVec 8)) :
    showsAcked (.read ack :: plan) bytes =
      .byte (bytes.headD 0) ack :: showsAcked plan bytes.tail :=
  rfl

theorem showsAcked_append (plan plan' : List BusAction) (bytes : List (BitVec 8)) :
    showsAcked (plan ++ plan') bytes = showsAcked plan bytes ++
      showsAcked plan' (bytes.drop (plan.countP BusAction.isRead)) := by
  induction plan generalizing bytes with
  | nil => rfl
  | cons action plan ih =>
    cases action with
    | start | stop | write byte => exact congrArg _ (ih bytes)
    | read ack =>
      rw [List.cons_append, showsAcked_read, showsAcked_read, ih, List.cons_append,
        List.countP_cons_of_pos rfl, List.drop_tail]

theorem shows_of_acked {s : σ} {plan : List BusAction} (h : (D.exchange s plan).acked = true) :
    D.shows s (D.performed s plan) = showsAcked plan (D.exchange s plan).bytes := by
  induction plan generalizing s with
  | nil => rfl
  | cons action plan ih =>
    cases action with
    | start | stop | read ack => exact congrArg _ (ih h)
    | write byte =>
      cases hw : (D.write s byte).1 with
      | true =>
        rw [D.exchange_write_of_ack hw] at h ⊢
        rw [D.performed_write_of_ack hw, shows_write, hw, showsAcked_write, ih h]
      | false =>
        rw [D.exchange_write_of_refused hw] at h
        cases h

/-- Of a plan that is refused, a listener sees it up to the byte refused. -/
theorem shows_of_refused {s : σ} {plan : List BusAction}
    (h : (D.exchange s plan).acked = false) :
    ∃ sent byte rest, plan = sent ++ .write byte :: rest ∧
      D.shows s (D.performed s plan) =
        showsAcked sent (D.exchange s plan).bytes ++ [.byte byte false] := by
  induction plan generalizing s with
  | nil => cases h
  | cons action plan ih =>
    cases action with
    | start | stop | read ack =>
      obtain ⟨sent, byte, rest, rfl, hshows⟩ := ih h
      exact ⟨_ :: sent, byte, rest, rfl, congrArg _ hshows⟩
    | write byte =>
      cases hw : (D.write s byte).1 with
      | true =>
        rw [D.exchange_write_of_ack hw] at h ⊢
        obtain ⟨sent, byte', rest, rfl, hshows⟩ := ih h
        refine ⟨.write byte :: sent, byte', rest, rfl, ?_⟩
        rw [D.performed_write_of_ack hw, shows_write, hw, hshows]
        rfl
      | false =>
        refine ⟨[], byte, plan, rfl, ?_⟩
        rw [D.performed_write_of_refused hw, shows_write, hw]
        rfl

end ByteSlave
