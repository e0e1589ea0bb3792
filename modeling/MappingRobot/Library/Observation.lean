import Mathlib.Data.List.Basic

/-!
# Telling states apart

A machine with operations that may be undefined, and what a user of it gets to see: the results of
the operations (`outcomes`). Two states are indistinguishable if no sequence of operations has
different outcomes on them, where being undefined is an outcome.

States are told apart by experiment: `Indistinguishable.step` carries out one operation on both
sides at a time, with the same result.
-/

namespace Observation

variable {σ ω ρ : Type*}

/-- The results of a sequence of operations, if all of them are defined. -/
def outcomes (step : σ → ω → Option (ρ × σ)) : σ → List ω → Option (List ρ)
  | _, [] => some []
  | s, op :: ops => (step s op).bind fun r ↦ (outcomes step r.2 ops).map (r.1 :: ·)

/-- No sequence of operations tells the states apart. -/
def Indistinguishable (step : σ → ω → Option (ρ × σ)) (s t : σ) : Prop :=
  ∀ ops, outcomes step s ops = outcomes step t ops

variable {act : σ → ω → Option (ρ × σ)} {s s' t : σ} {op : ω} {r : ρ}

theorem outcomes_cons (h : act s op = some (r, s')) (ops : List ω) :
    outcomes act s (op :: ops) = (outcomes act s' ops).map (r :: ·) := by
  rw [outcomes, h, Option.bind_some]

/-- An operation defined in one of two indistinguishable states is defined in the other, has the
same result, and leads to indistinguishable states. -/
theorem Indistinguishable.step (h : Indistinguishable act s t)
    (hs : act s op = some (r, s')) :
    ∃ t', act t op = some (r, t') ∧ Indistinguishable act s' t' := by
  have hone := h [op]
  rw [outcomes_cons hs] at hone
  cases ht : act t op with
  | none => simp [outcomes, ht] at hone
  | some result =>
    obtain ⟨r', t'⟩ := result
    rw [outcomes_cons ht] at hone
    obtain rfl : r = r' := by simpa [outcomes] using hone
    refine ⟨t', rfl, fun ops ↦ ?_⟩
    have hmore := h (op :: ops)
    rw [outcomes_cons hs, outcomes_cons ht] at hmore
    exact Option.map_injective (List.cons_injective) hmore

end Observation
