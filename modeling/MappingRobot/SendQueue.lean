import Mathlib.Data.Set.Defs
import MappingRobot.Ranging

/-!
# The send queue never backs up

`task1` looks neither at what `OSQPost` returns nor at who else changes `sendCount`. That both do
well is owed to the priorities: `task1` runs only when `sendTask` cannot, and `sendTask` cannot run
only when it waits for a packet. It does not matter for this what `receiveTask` and `task2` are
doing, so that here they, and `task1`, may be suspended at any moment (`SuspendedStep`), as by a
device driver or by the C library.

`Traffic` records what goes through the queue and its counter in a run; `Sys.Counts` is the
invariant that ties the record to the state.
-/

namespace MappingRobot

open LabelledRun

variable {σ : Type}

/-! ### Suspended tasks -/

/-- The scheduler lets the event happen while some tasks are suspended: its task is not, and no
other task that is ready and not suspended goes before it. -/
def Sys.AllowsBut (s : Sys σ) (suspended : Set Task) (e : Event) : Prop :=
  ∀ t, e.task = some t → t ∉ suspended ∧
    ∀ t', s.ready t' = true → t' ∉ suspended → t.priority ≤ t'.priority

/-- What has gone through `sendQueue` and its counter. -/
structure Traffic where
  /-- How often `task1` has counted a packet up. -/
  announced : ℕ
  /-- How often `sendTask` has counted a packet down. -/
  counted : ℕ
  /-- What `OSQPost` has returned to `task1`. -/
  statuses : List (BitVec 8)
  /-- The data of the packets that `task1` has posted. -/
  posted : List (List Byte)
  /-- The data of the packets that `OSQPend` has given to `sendTask`. -/
  taken : List (List Byte)

/-- Nothing has gone through. -/
def Traffic.none : Traffic :=
  ⟨0, 0, [], [], []⟩

/-- The record of an event that happens in a state. -/
def Traffic.next (g : Traffic) (s : Sys σ) : Event → Traffic
  | .task1 _ =>
    match s.task1 with
    | .count _ _ => { g with announced := g.announced + 1 }
    | .post p =>
      { g with
        statuses := g.statuses ++ [(s.sendQueue.osqPost p).1]
        posted := g.posted ++ [s.heap.body p] }
    | _ => g
  | .sendTask =>
    match s.sendQueue.task with
    | .posted p => { g with taken := g.taken ++ [s.heap.body p] }
    | .running .pend => { g with taken := g.taken ++ (s.sendQueue.entries.take 1).map s.heap.body }
    | .running (.count _ _) => { g with counted := g.counted + 1 }
    | _ => g
  | .irq _ | .receiveTask _ | .task2 | .timeout | .wake => g

/-- A step with tasks suspended, among which `sendTask` is not: it waits in `OSQPend` only. -/
def SuspendedStep (S : Slave σ) (x : Sys σ × Traffic) (e : Event × Set Task)
    (y : Sys σ × Traffic) : Prop :=
  Step S x.1 e.1 y.1 ∧ Task.sendTask ∉ e.2 ∧ x.1.AllowsBut e.2 e.1 ∧ y.2 = x.2.next x.1 e.1

/-- The data of the first `n` readings. -/
def readings (S : Slave σ) (slave : σ) (n : ℕ) : List (List Byte) :=
  (List.range n).map (postedData S slave)

theorem readings_succ (S : Slave σ) (slave : σ) (n : ℕ) :
    readings S slave (n + 1) = readings S slave n ++ [postedData S slave n] := by
  rw [readings, List.range_succ, List.map_append]
  rfl

/-! ### The invariant -/

/-- `sendTask` has been given a packet, or will be, that it has not counted yet. -/
def Pending.uncounted {α : Type} : Pending α SendPc → ℕ
  | .posted _ | .running (.got _) | .running (.count _ _) => 1
  | _ => 0

/-- `task1` has counted a packet that it has not posted yet. -/
def Task1Pc.uncounted : Task1Pc → ℕ
  | .post _ => 1
  | _ => 0

/-- The packets that have been counted up and not down. -/
def Sys.uncounted (s : Sys σ) : ℕ :=
  s.sendQueue.task.uncounted + s.task1.uncounted

/-- The record agrees with the state. -/
structure Sys.Counts (S : Slave σ) (slave : σ) (s : Sys σ) (g : Traffic) : Prop where
  statuses : ∀ status ∈ g.statuses, status = osErrNone
  posted : g.posted = readings S slave s.posts
  taken : g.taken = readings S slave (s.posts - s.sendQueue.task.message.length)
  announced : g.announced = g.counted + s.uncounted
  length_taken : g.taken.length = g.counted +
    (s.sendQueue.task.uncounted - s.sendQueue.task.message.length)
  sendCount : s.leds.sendCount = BitVec.ofNat 8 s.uncounted
  /-- What `sendTask` has loaded is still what is in `sendCount`. -/
  sendTask_loaded : ∀ p count, s.sendQueue.task = .running (.count p count) →
    count = s.leds.sendCount
  /-- What `task1` has loaded is still what is in `sendCount`. -/
  task1_loaded : ∀ p count, s.task1 = .count p count → count = s.leds.sendCount

theorem counts_init (S : Slave σ) (slave : σ) : (Sys.init slave).Counts S slave .none where
  statuses := by simp [Traffic.none]
  posted := rfl
  taken := rfl
  announced := rfl
  length_taken := rfl
  sendCount := rfl
  sendTask_loaded := by simp [Sys.init, PendQueue.create]
  task1_loaded := by simp [Sys.init]

variable {S : Slave σ} {slave : σ} {s t : Sys σ} {g : Traffic} {L : Multiset Ref}

/-- A step that leaves the queue, the counter and `task1` alone. -/
theorem Sys.Counts.of_same (h : s.Counts S slave g) (hqueue : t.sendQueue = s.sendQueue)
    (hcount : t.leds.sendCount = s.leds.sendCount) (htask1 : t.task1 = s.task1)
    (hstepper : t.log.stepper = s.log.stepper) : t.Counts S slave g := by
  have hposts : t.posts = s.posts := by rw [Sys.posts, Sys.posts, htask1, hstepper]
  have huncounted : t.uncounted = s.uncounted := by
    rw [Sys.uncounted, Sys.uncounted, hqueue, htask1]
  refine ⟨h.statuses, ?_, ?_, ?_, ?_, ?_, ?_, ?_⟩
  · rw [hposts, h.posted]
  · rw [hposts, hqueue, h.taken]
  · rw [huncounted, h.announced]
  · rw [hqueue, h.length_taken]
  · rw [hcount, huncounted, h.sendCount]
  · rw [hqueue, hcount]
    exact h.sendTask_loaded
  · rw [htask1, hcount]
    exact h.task1_loaded

/-! ### The counter -/

theorem Leds.sendCount_received (l : Leds) (byte : Byte) :
    (l.received byte).sendCount = l.sendCount := by
  unfold Leds.received
  split_ifs <;> rfl

/-! ### Steps of `sendTask` -/

/-- While `sendTask` is at work, `task1` has nothing counted and not posted, and has loaded
nothing. -/
theorem Sys.Ranging.task1_away (h : s.Ranging S slave) (hbusy : s.sendQueue.task ≠ .waiting) :
    s.task1.uncounted = 0 ∧ ∀ p count, s.task1 ≠ .count p count := by
  rcases h.turns.resolve_left hbusy with hpc | hpc <;> rw [hpc] <;> exact ⟨rfl, by simp⟩

/-- `sendTask` goes on with no packet taken and none counted. -/
theorem Sys.Counts.of_sendTask (h : s.Counts S slave g) (hrange : s.SameRange t)
    (hcount : t.leds.sendCount = s.leds.sendCount)
    (hmessage : t.sendQueue.task.message = s.sendQueue.task.message)
    (huncounted : t.sendQueue.task.uncounted = s.sendQueue.task.uncounted)
    (hloaded : ∀ p count, t.sendQueue.task = .running (.count p count) →
      count = t.leds.sendCount) : t.Counts S slave g := by
  have hposts : t.posts = s.posts := by rw [Sys.posts, Sys.posts, hrange.task1, hrange.stepper]
  have hsum : t.uncounted = s.uncounted := by
    rw [Sys.uncounted, Sys.uncounted, huncounted, hrange.task1]
  refine ⟨h.statuses, ?_, ?_, ?_, ?_, ?_, hloaded, ?_⟩
  · rw [hposts, h.posted]
  · rw [hposts, hmessage, h.taken]
  · rw [hsum, h.announced]
  · rw [huncounted, hmessage, h.length_taken]
  · rw [hcount, hsum, h.sendCount]
  · rw [hrange.task1, hcount]
    exact h.task1_loaded

/-- `sendTask` counts the packet down that it has taken. -/
theorem Sys.Counts.countDown (hranging : s.Ranging S slave) (h : s.Counts S slave g) {p : ℕ}
    {count : BitVec 8} (hpc : s.sendQueue.task = .running (.count p count)) :
    Sys.Counts S slave { s with
      leds := { s.leds with sendCount := count - 1 }.write
      sendQueue := s.sendQueue.goto (.header p) } { g with counted := g.counted + 1 } := by
  obtain ⟨haway, hfree⟩ := hranging.task1_away (by simp [hpc])
  have hone : s.uncounted = 1 := by
    rw [Sys.uncounted, hpc, haway]
    rfl
  have hzero : Sys.uncounted { s with
      leds := { s.leds with sendCount := count - 1 }.write
      sendQueue := s.sendQueue.goto (.header p) } = 0 := by
    show 0 + s.task1.uncounted = 0
    rw [haway]
  have hannounced := h.announced
  have hlength := h.length_taken
  have htaken := h.taken
  rw [hpc] at hlength htaken
  rw [hone] at hannounced
  refine ⟨h.statuses, h.posted, htaken, ?_, hlength, ?_, by simp, ?_⟩
  · rw [hannounced, hzero]
  · rw [hzero]
    show count - 1 = 0
    rw [h.sendTask_loaded p count hpc, h.sendCount, hone]
    rfl
  · exact fun q count' hq ↦ absurd hq (hfree q count')

/-- `sendTask` records a packet only when it takes it or counts it. -/
theorem Traffic.next_sendTask (g : Traffic) {pc : SendPc} (hpc : s.sendQueue.task = .running pc)
    (hpend : pc ≠ .pend) (hcount : ∀ p count, pc ≠ .count p count) :
    g.next s .sendTask = g := by
  cases pc with
  | pend => exact absurd rfl hpend
  | count p count => exact absurd rfl (hcount p count)
  | got _ | header _ | sending _ _ _ | freeData _ | freeBuf _ => simp [next, hpc]

/-- **A step of `sendTask`** takes the packet, counts it down, or leaves both alone. -/
theorem sendTaskStep_counts (hranging : s.Ranging S slave) (h : s.Counts S slave g) {pc : SendPc}
    (hpc : s.sendQueue.task = .running pc) (hstep : sendTaskStep s pc = some t) :
    t.Counts S slave (g.next s .sendTask) := by
  obtain ⟨-, -, hrange⟩ := sendTaskStep_footprint hstep
  have hsame : ∀ pc', t.sendQueue.task = .running pc' → t.leds.sendCount = s.leds.sendCount →
      (Pending.running pc' : Pending ℕ SendPc).uncounted = s.sendQueue.task.uncounted →
      (∀ p count, pc' = .count p count → count = t.leds.sendCount) → t.Counts S slave g := by
    intro pc' hpc' hcount huncounted hloaded
    refine h.of_sendTask hrange hcount (by rw [hpc, hpc']; rfl) (by rw [hpc', huncounted]) ?_
    intro p count hcountPc
    rw [hpc', Pending.running.injEq] at hcountPc
    exact hloaded p count hcountPc
  cases pc with
  | pend =>
    obtain rfl := Option.some.inj hstep
    have hg : g.next s .sendTask = g := by
      simp [Traffic.next, hpc, hranging.entries_eq]
    rcases s.sendQueue.osqPend_cases .got with ⟨p, entries, hcons, -, -⟩ | ⟨-, htask, -⟩
    · rw [hranging.entries_eq] at hcons
      cases hcons
    · rw [hg]
      refine h.of_sendTask hrange rfl ?_ ?_ ?_ <;> rw [show _ = _ from htask]
      · rw [hpc]
        rfl
      · rw [hpc]
        rfl
      · simp
  | got p =>
    obtain rfl := Option.some.inj hstep
    rw [g.next_sendTask hpc (by simp) (by simp)]
    refine hsame _ rfl rfl (by rw [hpc]; rfl) fun q count hq ↦ ?_
    rw [SendPc.count.injEq] at hq
    exact hq.2.symm
  | count p count =>
    obtain rfl := Option.some.inj hstep
    rw [show g.next s .sendTask = { g with counted := g.counted + 1 } by simp [Traffic.next, hpc]]
    exact h.countDown hranging hpc
  | header p =>
    obtain ⟨packet, -, hstep⟩ := Option.bind_eq_some_iff.1 hstep
    obtain ⟨packet', -, hstep⟩ := Option.bind_eq_some_iff.1 hstep
    obtain ⟨heap, -, hstep⟩ := Option.bind_eq_some_iff.1 hstep
    obtain rfl := Option.some.inj hstep
    rw [g.next_sendTask hpc (by simp) (by simp)]
    exact hsame _ rfl rfl (by rw [hpc]; rfl) (by simp)
  | sending p copies out =>
    rw [g.next_sendTask hpc (by simp) (by simp)]
    cases out with
    | cons byte out =>
      obtain rfl := Option.some.inj hstep
      exact hsame _ rfl rfl (by rw [hpc]; rfl) (by simp)
    | nil =>
      cases copies with
      | zero =>
        obtain rfl := Option.some.inj hstep
        exact hsame _ rfl rfl (by rw [hpc]; rfl) (by simp)
      | succ copies =>
        obtain ⟨packet, -, hstep⟩ := Option.bind_eq_some_iff.1 hstep
        obtain ⟨out, -, hstep⟩ := Option.bind_eq_some_iff.1 hstep
        obtain rfl := Option.some.inj hstep
        exact hsame _ rfl rfl (by rw [hpc]; rfl) (by simp)
  | freeData p | freeBuf p =>
    obtain ⟨heap, -, hstep⟩ := Option.bind_eq_some_iff.1 hstep
    obtain rfl := Option.some.inj hstep
    rw [g.next_sendTask hpc (by simp) (by simp)]
    exact hsame _ rfl rfl (by rw [hpc]; rfl) (by simp)

/-- `sendTask` runs on with the packet that `OSQPost` has put into its TCB. -/
theorem Sys.Counts.take (hranging : s.Ranging S slave) (h : s.Counts S slave g) {p : ℕ}
    (hpc : s.sendQueue.task = .posted p) :
    Sys.Counts S slave { s with sendQueue := s.sendQueue.goto (.got p) } (g.next s .sendTask) := by
  obtain ⟨haway, hfree⟩ := hranging.task1_away (by simp [hpc])
  have hg : g.next s .sendTask = { g with taken := g.taken ++ [s.heap.body p] } := by
    simp [Traffic.next, hpc]
  have hreports := hranging.reports
  have htaken := h.taken
  have hlength := h.length_taken
  have hannounced := h.announced
  have hcount := h.sendCount
  rw [hpc] at hreports htaken hlength
  rw [Sys.uncounted, hpc] at hannounced hcount
  obtain ⟨m, hm, -, hbody⟩ := hreports
  replace htaken : g.taken = readings S slave (s.posts - 1) := htaken
  rw [hm, Nat.add_sub_cancel] at htaken
  rw [hg]
  refine ⟨h.statuses, h.posted, ?_, hannounced, ?_, hcount, by simp, ?_⟩
  · show g.taken ++ [s.heap.body p] = readings S slave s.posts
    rw [htaken, hbody, hm, readings_succ]
  · show (g.taken ++ [s.heap.body p]).length = g.counted + 1
    rw [List.length_append, hlength]
    rfl
  · exact fun q count hq ↦ absurd hq (hfree q count)

/-! ### Steps of `task1` -/

/-- `task1` goes on while `sendTask` waits, with no packet counted and none posted. -/
theorem Sys.Counts.of_task1 (h : s.Counts S slave g) (hwait : s.sendQueue.task = .waiting)
    (hqueue : t.sendQueue = s.sendQueue) (hcount : t.leds.sendCount = s.leds.sendCount)
    (hposts : t.posts = s.posts) (huncounted : t.task1.uncounted = s.task1.uncounted)
    (hloaded : ∀ p count, t.task1 = .count p count → count = t.leds.sendCount) :
    t.Counts S slave g := by
  have hsum : t.uncounted = s.uncounted := by
    rw [Sys.uncounted, Sys.uncounted, hqueue, huncounted]
  refine ⟨h.statuses, ?_, ?_, ?_, ?_, ?_, ?_, hloaded⟩
  · rw [hposts, h.posted]
  · rw [hposts, hqueue, h.taken]
  · rw [hsum, h.announced]
  · rw [hqueue, h.length_taken]
  · rw [hcount, hsum, h.sendCount]
  · simp [hqueue, hwait]

/-- `task1` counts a packet up. -/
theorem Sys.Counts.countUp (h : s.Counts S slave g) (hwait : s.sendQueue.task = .waiting) {p : ℕ}
    {count : BitVec 8} (hpc : s.task1 = .count p count) :
    Sys.Counts S slave { s with leds := { s.leds with sendCount := count + 1 }, task1 := .post p }
      { g with announced := g.announced + 1 } := by
  have hzero : s.uncounted = 0 := by
    rw [Sys.uncounted, hwait, hpc]
    rfl
  have hone : Sys.uncounted { s with
      leds := { s.leds with sendCount := count + 1 }, task1 := .post p } = 1 := by
    rw [Sys.uncounted, hwait]
    rfl
  have hposts : Sys.posts { s with
      leds := { s.leds with sendCount := count + 1 }, task1 := .post p } = s.posts := by
    simp [Sys.posts, hpc]
  have hannounced := h.announced
  have hcount := h.sendCount
  rw [hzero] at hannounced hcount
  refine ⟨h.statuses, ?_, ?_, ?_, h.length_taken, ?_, by simp [hwait], by simp⟩
  · rw [hposts]
    exact h.posted
  · rw [hposts]
    exact h.taken
  · rw [hone, hannounced]
  · rw [hone]
    show count + 1 = 1
    rw [h.task1_loaded p count hpc, hcount]
    rfl

/-- `task1` posts the packet that it has counted up, and `OSQPost` gives it to `sendTask`. -/
theorem Sys.Counts.post (hranging : s.Ranging S slave) (h : s.Counts S slave g)
    (hwait : s.sendQueue.task = .waiting) {p : ℕ} (hpc : s.task1 = .post p) :
    Sys.Counts S slave { s with sendQueue := (s.sendQueue.osqPost p).2, task1 := .rotate }
      { g with
        statuses := g.statuses ++ [(s.sendQueue.osqPost p).1]
        posted := g.posted ++ [s.heap.body p] } := by
  have hfull : ¬ s.sendQueue.IsFull := by simp [PendQueue.IsFull, hwait, Pending.onWaitList]
  obtain ⟨hok, -, ⟨-, htask, -⟩ | ⟨hbusy, -⟩⟩ := PendQueue.osqPost_of_not_isFull hfull p
  · have hmeasures := hranging.measures
    have hannounced := h.announced
    have hlength := h.length_taken
    have hcount := h.sendCount
    have htaken := h.taken
    have hposts : s.posts = s.log.stepper.length := by simp [Sys.posts, hpc]
    rw [hpc] at hmeasures
    rw [hwait] at hlength htaken
    rw [Sys.uncounted, hwait, hpc] at hannounced hcount
    refine ⟨?_, ?_, ?_, ?_, ?_, ?_, ?_, by simp⟩
    · intro status hstatus
      rcases List.mem_append.1 hstatus with hstatus | hstatus
      · exact h.statuses status hstatus
      · exact (List.mem_singleton.1 hstatus).trans hok
    · show g.posted ++ [s.heap.body p] = readings S slave (s.log.stepper.length + 1)
      rw [h.posted, hposts, readings_succ, hmeasures.1]
      rfl
    · rw [htask, htaken, hposts]
      rfl
    · rw [Sys.uncounted, htask, hannounced]
      rfl
    · rw [htask]
      exact hlength
    · rw [Sys.uncounted, htask]
      exact hcount
    · simp [htask]
  · rw [hwait] at hbusy
    cases hbusy

/-- `task1` records a packet only when it counts or posts it. -/
theorem Traffic.next_task1 (g : Traffic) (mallocOk : Bool)
    (hcount : ∀ p count, s.task1 ≠ .count p count) (hpost : ∀ p, s.task1 ≠ .post p) :
    g.next s (.task1 mallocOk) = g := by
  cases hpc : s.task1 with
  | count p count => exact absurd hpc (hcount p count)
  | post p => exact absurd hpc (hpost p)
  | start | poll | delayed | read | mallocBuf _ | mallocData _ _ | fill _ _ _ | load _ | rotate =>
    simp [next, hpc]

/-- **A step of `task1`**, taken while `sendTask` waits, counts a packet up, posts it, or leaves the
queue and the counter alone. -/
theorem task1Step_counts (hranging : s.Ranging S slave) (h : s.Counts S slave g)
    (hwait : s.sendQueue.task = .waiting) {mallocOk : Bool}
    (hstep : task1Step S mallocOk s s.task1 = some t) :
    t.Counts S slave (g.next s (.task1 mallocOk)) := by
  cases hpc : s.task1 with
  | start | delayed =>
    rw [hpc] at hstep
    obtain rfl := Option.some.inj hstep
    rw [g.next_task1 mallocOk (by simp [hpc]) (by simp [hpc])]
    exact h.of_task1 hwait rfl rfl (by simp [Sys.posts, hpc]) (by simp [hpc, Task1Pc.uncounted])
      (by simp [hpc])
  | poll =>
    rw [hpc] at hstep
    obtain ⟨⟨ok, bus⟩, -, hstep⟩ := Option.bind_eq_some_iff.1 hstep
    obtain rfl := Option.some.inj hstep
    rw [g.next_task1 mallocOk (by simp [hpc]) (by simp [hpc])]
    cases ok <;> exact h.of_task1 hwait rfl rfl (by simp [Sys.posts, hpc])
      (by simp [hpc, Task1Pc.uncounted]) (by simp)
  | read =>
    rw [hpc] at hstep
    obtain ⟨⟨range, bus⟩, -, hstep⟩ := Option.bind_eq_some_iff.1 hstep
    obtain rfl := Option.some.inj hstep
    rw [g.next_task1 mallocOk (by simp [hpc]) (by simp [hpc])]
    exact h.of_task1 hwait rfl rfl (by simp [Sys.posts, hpc]) (by simp [hpc, Task1Pc.uncounted])
      (by simp)
  | mallocBuf range | mallocData range p =>
    rw [hpc] at hstep
    simp only [task1Step] at hstep
    split_ifs at hstep
    obtain rfl := Option.some.inj hstep
    rw [g.next_task1 mallocOk (by simp [hpc]) (by simp [hpc])]
    exact h.of_task1 hwait rfl rfl (by simp [Sys.posts, hpc]) (by simp [hpc, Task1Pc.uncounted])
      (by simp)
  | fill range p b =>
    rw [hpc] at hstep
    obtain ⟨old, -, hstep⟩ := Option.bind_eq_some_iff.1 hstep
    obtain ⟨heap, -, hstep⟩ := Option.bind_eq_some_iff.1 hstep
    obtain ⟨heap', -, hstep⟩ := Option.bind_eq_some_iff.1 hstep
    obtain rfl := Option.some.inj hstep
    rw [g.next_task1 mallocOk (by simp [hpc]) (by simp [hpc])]
    exact h.of_task1 hwait rfl rfl (by simp [Sys.posts, hpc]) (by simp [hpc, Task1Pc.uncounted])
      (by simp)
  | load p =>
    rw [hpc] at hstep
    obtain rfl := Option.some.inj hstep
    rw [g.next_task1 mallocOk (by simp [hpc]) (by simp [hpc])]
    refine h.of_task1 hwait rfl rfl (by simp [Sys.posts, hpc]) (by simp [hpc, Task1Pc.uncounted])
      fun q count hq ↦ ?_
    rw [Task1Pc.count.injEq] at hq
    exact hq.2.symm
  | count p count =>
    rw [hpc] at hstep
    obtain rfl := Option.some.inj hstep
    rw [show g.next s (.task1 mallocOk) = { g with announced := g.announced + 1 } by
      simp [Traffic.next, hpc]]
    exact h.countUp hwait hpc
  | post p =>
    rw [hpc] at hstep
    obtain rfl := Option.some.inj hstep
    rw [show g.next s (.task1 mallocOk) = { g with
        statuses := g.statuses ++ [(s.sendQueue.osqPost p).1]
        posted := g.posted ++ [s.heap.body p] } by simp [Traffic.next, hpc]]
    exact h.post hranging hwait hpc
  | rotate =>
    rw [hpc] at hstep
    obtain rfl := Option.some.inj hstep
    rw [g.next_task1 mallocOk (by simp [hpc]) (by simp [hpc])]
    exact h.of_task1 hwait rfl rfl (by simp [Sys.posts, hpc]) (by simp [hpc, Task1Pc.uncounted])
      (by simp)

/-! ### Steps of the system -/

/-- `task1` goes on only while `sendTask` waits, whoever else is suspended. -/
theorem Sys.AllowsBut.sendTask_waiting {suspended : Set Task} {mallocOk : Bool}
    (h : s.AllowsBut suspended (.task1 mallocOk)) (hsend : Task.sendTask ∉ suspended) :
    s.sendQueue.task = .waiting := by
  by_contra hne
  have hready : s.ready .sendTask = true := by
    simpa [Sys.ready, Bool.eq_false_iff, Pending.isBlocked_iff] using hne
  exact absurd ((h .task1 rfl).2 .sendTask hready hsend) (by decide)

/-- **One step** keeps record and state in agreement. -/
theorem step_counts {e : Event} (hinv : s.Inv L) (hranging : s.Ranging S slave)
    (h : s.Counts S slave g) (hstep : Step S s e t)
    (hturn : ∀ mallocOk, e = .task1 mallocOk → s.sendQueue.task = .waiting) :
    t.Counts S slave (g.next s e) := by
  have hundefined : ∀ {g}, s.Counts S slave g → Sys.Counts S slave { s with undefined := true } g :=
    fun h ↦ h.of_same rfl rfl rfl rfl
  cases e with
  | irq byte =>
    obtain rfl := hstep.irq
    unfold bluetoothIrq
    split_ifs
    · exact h
    · exact h.of_same rfl (s.leds.sendCount_received byte) rfl rfl
  | receiveTask mallocOk =>
    rcases hstep.receiveTask with ⟨m, -, rfl⟩ | ⟨pc, hpc, rfl⟩
    · exact h.of_same rfl rfl rfl rfl
    cases hout : receiveTaskStep mallocOk s pc with
    | none => exact hundefined h
    | some t =>
      obtain ⟨hsend, hrange, -⟩ := receiveTaskStep_footprint hout
      exact h.of_same hsend.sendQueue ((receiveTaskStep_frame hout).2.1) hrange.task1 hrange.stepper
  | sendTask =>
    rcases hstep.sendTask with ⟨p, hpc, rfl⟩ | ⟨pc, hpc, rfl⟩
    · exact h.take hranging hpc
    · obtain ⟨t, ht, -, -, -⟩ := sendTaskStep_of_inv hinv hpc
      rw [Sys.orUndefined, ht]
      exact sendTaskStep_counts hranging h hpc ht
  | task2 =>
    rcases hstep.task2 with ⟨-, rfl⟩ | ⟨p, -, rfl⟩ | ⟨pc, hpc, rfl⟩
    · exact h.of_same rfl rfl rfl rfl
    · exact h.of_same rfl rfl rfl rfl
    · obtain ⟨t, ht, -, -, -⟩ := task2Step_of_inv hinv hpc
      obtain ⟨-, hsend, hrange⟩ := task2Step_footprint ht
      rw [Sys.orUndefined, ht]
      exact h.of_same hsend.sendQueue ((task2Step_frame ht).2) hrange.task1 hrange.stepper
  | task1 mallocOk =>
    obtain ⟨-, rfl⟩ := hstep.task1
    cases hout : task1Step S mallocOk s s.task1 with
    | none =>
      have hg : g.next s (.task1 mallocOk) = g := by
        cases hpc : s.task1 <;> simp [Traffic.next, hpc]
        all_goals rw [hpc] at hout; cases hout
      rw [hg]
      exact hundefined h
    | some t => exact task1Step_counts hranging h (hturn mallocOk rfl) hout
  | timeout =>
    obtain ⟨-, rfl⟩ := hstep.timeout
    exact h.of_same rfl rfl rfl rfl
  | wake =>
    obtain ⟨hpc, rfl⟩ := hstep.wake
    have hwait := hranging.turns.resolve_right (by simp [hpc])
    exact h.of_task1 hwait rfl rfl (by simp [Sys.posts, hpc]) (by simp [hpc, Task1Pc.uncounted])
      (by simp)

/-- The invariants hold in every state of every run with tasks suspended. -/
theorem counts_of_run {events : List (Event × Set Task)} {x : Sys σ × Traffic}
    (hrun : Run (SuspendedStep S) (.init slave, .none) events x) :
    (∃ L, x.1.Inv L) ∧ x.1.Ranging S slave ∧ x.1.Counts S slave x.2 := by
  refine hrun.invariant (I := fun x ↦ (∃ L, x.1.Inv L) ∧ x.1.Ranging S slave ∧
    x.1.Counts S slave x.2) ⟨⟨0, inv_init slave⟩, ranging_init S slave, counts_init S slave⟩ ?_
  rintro ⟨s, g⟩ ⟨e, suspended⟩ ⟨t, g'⟩ ⟨⟨L, hinv⟩, hranging, hcounts⟩ ⟨hstep, hsend, hallows, rfl⟩
  have hturn : ∀ mallocOk, e = .task1 mallocOk → s.sendQueue.task = .waiting := by
    rintro mallocOk rfl
    exact hallows.sendTask_waiting hsend
  exact ⟨hinv.exists_of_step hstep, step_ranging_of_waiting hinv hranging hstep hturn,
    step_counts hinv hranging hcounts hstep hturn⟩

/-! ### The queue and its counter -/

/-- What `OSQPost` has put into the TCB is the last reading posted. -/
theorem Sys.Ranging.readings_posts (h : s.Ranging S slave) :
    s.sendQueue.task.message.length ≤ s.posts ∧
      readings S slave s.posts = readings S slave (s.posts - s.sendQueue.task.message.length) ++
        s.sendQueue.task.message.map s.heap.body := by
  have hreports := h.reports
  cases htask : s.sendQueue.task with
  | posted p =>
    rw [htask] at hreports
    obtain ⟨m, hm, -, hbody⟩ := hreports
    show 1 ≤ s.posts ∧ readings S slave s.posts =
      readings S slave (s.posts - 1) ++ [s.heap.body p]
    rw [hm, Nat.add_sub_cancel, readings_succ, hbody]
    exact ⟨Nat.succ_pos m, rfl⟩
  | waiting | expired | running pc =>
    exact ⟨Nat.zero_le _, (List.append_nil _).symm⟩

/-- At most one packet is counted up and not down. -/
theorem Sys.Ranging.uncounted_le (h : s.Ranging S slave) : s.uncounted ≤ 1 := by
  have hle : s.sendQueue.task.uncounted ≤ 1 ∧ s.task1.uncounted ≤ 1 := by
    unfold Pending.uncounted Task1Pc.uncounted
    constructor <;> split <;> omega
  rw [Sys.uncounted]
  by_cases hwait : s.sendQueue.task = .waiting
  · rw [hwait, show (Pending.waiting : Pending ℕ SendPc).uncounted = 0 from rfl]
    omega
  · rw [(h.task1_away hwait).1]
    omega

/-- **The send queue never backs up.** In every run in which a task goes on only if no other of
higher priority is ready, where any tasks but `sendTask` may be suspended at any moment:
`sendTask` waits whenever `task1` posts, the queue never stores a packet, no post is refused, the
readings are posted in order and taken in order with at most one of them on its way, and
`sendCount` is the number of packets that have been counted up and not down, which is `0` or `1`.
A packet is counted up right before it is posted and down right after it is taken. -/
theorem sendQueue_never_backs_up (S : Slave σ) (slave : σ) {events : List (Event × Set Task)}
    {s : Sys σ} {g : Traffic} (hrun : Run (SuspendedStep S) (.init slave, .none) events (s, g)) :
    (∀ p, s.task1 = .post p → s.sendQueue.task = .waiting) ∧
      s.sendQueue.entries = [] ∧
      (∀ status ∈ g.statuses, status = osErrNone) ∧
      g.posted = readings S slave s.posts ∧
      g.posted = g.taken ++ s.sendQueue.task.message.map s.heap.body ∧
      g.announced = g.posted.length + s.task1.uncounted ∧
      g.taken.length + s.sendQueue.task.message.length =
        g.counted + s.sendQueue.task.uncounted ∧
      g.counted ≤ g.announced ∧ g.announced ≤ g.counted + 1 ∧
      s.leds.sendCount = BitVec.ofNat 8 (g.announced - g.counted) := by
  obtain ⟨-, hranging, hcounts⟩ := counts_of_run hrun
  replace hranging : s.Ranging S slave := hranging
  replace hcounts : s.Counts S slave g := hcounts
  obtain ⟨hle, hsplit⟩ := hranging.readings_posts
  have hone := hranging.uncounted_le
  have hannounced := hcounts.announced
  have hlength := hcounts.length_taken
  have hposted : g.posted.length = s.posts := by
    rw [hcounts.posted, readings, List.length_map, List.length_range]
  have htaken : g.taken.length = s.posts - s.sendQueue.task.message.length := by
    rw [hcounts.taken, readings, List.length_map, List.length_range]
  have hmessage : s.sendQueue.task.message.length ≤ s.sendQueue.task.uncounted := by
    cases s.sendQueue.task <;> simp [Pending.message, Pending.uncounted]
  have huncounted : s.uncounted = s.sendQueue.task.uncounted + s.task1.uncounted := rfl
  refine ⟨fun p hp ↦ hranging.turns.resolve_right (by simp [hp]), hranging.entries_eq,
    hcounts.statuses, hcounts.posted, ?_, by omega, by omega, by omega, by omega, ?_⟩
  · rw [hcounts.posted, hcounts.taken, hsplit]
  · rw [hcounts.sendCount, hannounced, Nat.add_sub_cancel_left]

/-- A run in an order that the priorities allow, with no task suspended. -/
theorem exists_suspended_of_run {events : List Event}
    (hrun : Run (PrioritisedStep S) (.init slave) events s) :
    ∃ g, Run (SuspendedStep S) (.init slave, .none) (events.map fun e ↦ (e, ∅)) (s, g) := by
  induction hrun with
  | nil => exact ⟨.none, .nil _⟩
  | snoc hrun hstep ih =>
    obtain ⟨g, hg⟩ := ih
    rw [List.map_append]
    exact ⟨_, hg.snoc ⟨hstep.1, id, fun t ht ↦ ⟨id, fun t' hready _ ↦ hstep.2 t ht t' hready⟩, rfl⟩⟩

/-- Two iterations with no device on the bus: two readings of `0` are posted. -/
theorem sendQueue_never_backs_up_absent :
    ∃ events, ∃ x : Sys Unit × Traffic,
      Run (SuspendedStep Slave.absent) (.init (), .none) events x ∧
        x.2.posted = [[0, 0], [0, 0]] ∧ x.1.sendQueue.entries = [] := by
  obtain ⟨events, s, hrun, -, -, hpoll, hlen⟩ := exists_iterations Slave.absent () 2
  obtain ⟨g, hg⟩ := exists_suspended_of_run hrun
  obtain ⟨-, hentries, -, hposted, -⟩ := sendQueue_never_backs_up Slave.absent () hg
  refine ⟨_, (s, g), hg, ?_, hentries⟩
  rw [show s.posts = 2 by rw [Sys.posts, hpoll, hlen]] at hposted
  rw [hposted]
  decide +kernel

end MappingRobot
