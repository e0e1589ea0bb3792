import Mathlib.Data.BitVec
import Mathlib.Data.List.Infix
import Mathlib.Data.List.OfFn

/-!
# Serial lines

An asynchronous serial line is high at rest. A word goes over it as a frame of cells: a low start
bit, the bits of the word with the lowest first, and a high stop bit. A signal is the list of the
levels of the line, one for each tick of a clock, and `Carries n e bs ws` says that the signal `ws`
carries the words `bs`, each of its cells for `n` ticks, give or take `e`. No two cells need be of
one length, and the line may rest for any time after a frame.

Nothing here knows what drives the line or what listens to it.
-/

namespace SerialLine

variable {w n e : ℕ} {b : BitVec w} {bs : List (BitVec w)} {cs ws vs : List Bool}

/-! ### Frames -/

/-- The cells of the frame of a word. -/
def cells (b : BitVec w) : List Bool :=
  false :: ((List.ofFn fun i : Fin w ↦ b.getLsbD i) ++ [true])

@[simp]
theorem length_cells : (cells b).length = w + 2 := by
  simp [cells]

theorem getD_cells_succ (b : BitVec w) (j : ℕ) :
    (cells b).getD (j + 1) false = if j < w then b.getLsbD j else decide (j = w) := by
  rw [cells, List.getD_cons_succ, List.getD_eq_getElem?_getD, List.getElem?_append,
    List.length_ofFn]
  split_ifs with hj
  · simp [hj]
  · rcases Nat.eq_or_lt_of_le (Nat.le_of_not_lt hj) with rfl | hlt
    · simp
    · rw [List.getElem?_eq_none (by simp; omega)]
      simp [hlt.ne']

/-- The signal takes the cells one after the other. -/
inductive Timed (n e : ℕ) : List Bool → List Bool → Prop
  | nil : Timed n e [] []
  | cons {c : Bool} {cs ws : List Bool} {k : ℕ} (hshort : n ≤ k + e) (hlong : k ≤ n + e)
      (h : Timed n e cs ws) : Timed n e (c :: cs) (List.replicate k c ++ ws)

theorem Timed.exists_of_cons {c : Bool} (h : Timed n e (c :: cs) ws) :
    ∃ k vs, n ≤ k + e ∧ k ≤ n + e ∧ Timed n e cs vs ∧ ws = List.replicate k c ++ vs := by
  cases h with
  | cons hshort hlong h => exact ⟨_, _, hshort, hlong, h, rfl⟩

/-- The signal of some cells and then some more. -/
theorem Timed.exists_of_append {cs' : List Bool} (h : Timed n e (cs ++ cs') ws) :
    ∃ vs vs', Timed n e cs vs ∧ Timed n e cs' vs' ∧ ws = vs ++ vs' := by
  induction cs generalizing ws with
  | nil => exact ⟨[], ws, .nil, h, rfl⟩
  | cons c cs ih =>
    obtain ⟨k, us, hshort, hlong, hrest, rfl⟩ := h.exists_of_cons
    obtain ⟨vs, vs', hvs, hvs', rfl⟩ := ih hrest
    exact ⟨_, vs', .cons hshort hlong hvs, hvs', (List.append_assoc _ _ _).symm⟩

/-- Cells of exactly `n` ticks. -/
theorem Timed.exact (n e : ℕ) (cs : List Bool) :
    Timed n e cs (cs.flatMap fun c ↦ List.replicate n c) := by
  induction cs with
  | nil => exact .nil
  | cons c cs ih => exact .cons (by omega) (by omega) ih

/-! ### Signals -/

/-- The signal carries the words. -/
inductive Carries (n e : ℕ) : List (BitVec w) → List Bool → Prop
  | nil : Carries n e [] []
  | idle {bs : List (BitVec w)} {ws : List Bool} (h : Carries n e bs ws) :
      Carries n e bs (ws ++ [true])
  | frame {bs : List (BitVec w)} {ws vs : List Bool} {b : BitVec w} (h : Carries n e bs ws)
      (hb : Timed n e (cells b) vs) : Carries n e (bs ++ [b]) (ws ++ vs)

theorem Carries.replicate (h : Carries n e bs ws) (k : ℕ) :
    Carries n e bs (ws ++ List.replicate k true) := by
  induction k with
  | zero => simpa using h
  | succ k ih =>
    rw [List.replicate_succ', ← List.append_assoc]
    exact ih.idle

/-- Two signals, one after the other. -/
theorem Carries.append {bs' : List (BitVec w)} {ws' : List Bool} (h : Carries n e bs ws)
    (h' : Carries n e bs' ws') : Carries n e (bs ++ bs') (ws ++ ws') := by
  induction h' with
  | nil => simpa using h
  | idle _ ih =>
    rw [← List.append_assoc]
    exact ih.idle
  | frame _ hb ih =>
    rw [← List.append_assoc, ← List.append_assoc]
    exact ih.frame hb

end SerialLine
