import MappingRobot.Library.Run

/-!
# Machines that read and write

A machine whose steps read a symbol each and may write some. `Translates P xs ys Q` is a triple:
from every state in `P`, every run that reads `xs` writes `ys` and ends in `Q`. Triples compose
along the word read, so what a machine does with a long word follows from what it does with the
parts of it.
-/

namespace LabelledRun

variable {σ ε α β : Type*} {R : σ → ε → σ → Prop} {reads : ε → α} {writes : ε → List β}
variable {P P' Q Q' T : σ → Prop} {xs xs' : List α} {ys ys' : List β} {x : α}

/-- Every run from `P` that reads `xs` writes `ys` and ends in `Q`. -/
def Translates (R : σ → ε → σ → Prop) (reads : ε → α) (writes : ε → List β) (P : σ → Prop)
    (xs : List α) (ys : List β) (Q : σ → Prop) : Prop :=
  ∀ s es t, P s → Run R s es t → es.map reads = xs → es.flatMap writes = ys ∧ Q t

theorem translates_nil : Translates R reads writes P [] [] P := by
  rintro s es t hs hrun hxs
  obtain rfl := List.map_eq_nil_iff.1 hxs
  obtain rfl := run_nil_iff.1 hrun
  exact ⟨rfl, hs⟩

/-- One step. -/
theorem translates_singleton
    (h : ∀ s e t, P s → R s e t → reads e = x → writes e = ys ∧ Q t) :
    Translates R reads writes P [x] ys Q := by
  rintro s es t hs hrun hxs
  obtain ⟨e, rfl, hx⟩ := List.map_eq_singleton_iff.1 hxs
  obtain ⟨u, hstep, hnil⟩ := run_cons_iff.1 hrun
  obtain rfl := run_nil_iff.1 hnil
  simpa using h s e u hs hstep hx

/-- One word after the other. -/
theorem Translates.append (h : Translates R reads writes P xs ys Q)
    (h' : Translates R reads writes Q xs' ys' T) :
    Translates R reads writes P (xs ++ xs') (ys ++ ys') T := by
  rintro s es t hs hrun hxs
  obtain ⟨es₁, es₂, rfl, h₁, h₂⟩ := List.map_eq_append_iff.1 hxs
  obtain ⟨u, hrun₁, hrun₂⟩ := run_append_iff.1 hrun
  obtain ⟨hys, hu⟩ := h s es₁ u hs hrun₁ h₁
  obtain ⟨hys', ht⟩ := h' u es₂ t hu hrun₂ h₂
  exact ⟨by rw [List.flatMap_append, hys, hys'], ht⟩

theorem Translates.mono (h : Translates R reads writes P xs ys Q) (hP : ∀ s, P' s → P s)
    (hQ : ∀ s, Q s → Q' s) : Translates R reads writes P' xs ys Q' := by
  rintro s es t hs hrun hxs
  obtain ⟨hys, ht⟩ := h s es t (hP s hs) hrun hxs
  exact ⟨hys, hQ t ht⟩

/-- What one symbol keeps and writes nothing for, any number of them keeps. -/
theorem Translates.replicate (h : Translates R reads writes P [x] [] P) (n : ℕ) :
    Translates R reads writes P (List.replicate n x) [] P := by
  induction n with
  | zero => exact translates_nil
  | succ n ih => exact h.append ih

end LabelledRun
