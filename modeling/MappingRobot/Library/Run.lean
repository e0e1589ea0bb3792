import Mathlib.Data.List.Basic
import Mathlib.Data.List.Forall2
import Mathlib.Data.List.Infix

/-!
# Runs of a labelled step relation

The induction substrate for every machine of this development: a step relation
`R s e t` between states, labelled by the event that causes the step, and its finite runs
`Run R s es t`. Nothing here knows what a state or an event is.

Runs grow **at the end** (`Run.snoc`), because the facts proved about them are about the
events seen so far: `Run.history` carries a relation between the event list and the state
through a run, and `Run.invariant` is its case without history.

## The exact-condition rule

`statesAlong_iff_stepsAlong` turns one step lemma into an equivalence about whole runs: if a
step from a good state leads to a good state **exactly when** it meets a condition on the
state before it and its event, then all states of a run are good exactly when all its steps
meet the condition. An auxiliary invariant may be assumed of the good states.

Functional machines are runs of their graph: `run_foldl_iff` for total step functions and
`run_foldlM_iff` for guarded ones, so concrete runs are checked by evaluation.
-/

namespace LabelledRun

variable {σ ε : Type*}

/-- A finite run of the step relation `R`: the events it takes, oldest first. -/
inductive Run (R : σ → ε → σ → Prop) : σ → List ε → σ → Prop
  | nil (s : σ) : Run R s [] s
  | snoc {s t u : σ} {es : List ε} {e : ε} (hrun : Run R s es t) (hstep : R t e u) :
      Run R s (es ++ [e]) u

variable {R : σ → ε → σ → Prop} {s t u : σ} {e : ε} {es : List ε}

/-! ### Taking runs apart -/

@[simp]
theorem run_nil_iff : Run R s [] t ↔ s = t := by
  constructor
  · intro h
    generalize hes : ([] : List ε) = es at h
    cases h with
    | nil => rfl
    | snoc _ _ => simp at hes
  · rintro rfl
    exact .nil s

theorem run_snoc_iff : Run R s (es ++ [e]) u ↔ ∃ t, Run R s es t ∧ R t e u := by
  constructor
  · intro h
    generalize hes : es ++ [e] = es' at h
    cases h with
    | nil => simp at hes
    | snoc hrun hstep =>
      obtain ⟨rfl, he⟩ := List.append_inj' hes rfl
      obtain rfl : e = _ := by simpa using he
      exact ⟨_, hrun, hstep⟩
  · rintro ⟨t, hrun, hstep⟩
    exact .snoc hrun hstep

/-- Two runs that meet compose. -/
theorem Run.append {es' : List ε} (h : Run R s es t) (h' : Run R t es' u) :
    Run R s (es ++ es') u := by
  induction h' with
  | nil => simpa using h
  | snoc _ hstep ih =>
    rw [← List.append_assoc]
    exact .snoc ih hstep

/-- A run splits at every point of its event list. -/
theorem run_append_iff {es' : List ε} :
    Run R s (es ++ es') u ↔ ∃ t, Run R s es t ∧ Run R t es' u := by
  refine ⟨fun h ↦ ?_, fun ⟨_, h, h'⟩ ↦ h.append h'⟩
  induction es' using List.reverseRecOn generalizing u with
  | nil => exact ⟨u, by simpa using h, .nil u⟩
  | append_singleton es' e ih =>
    rw [← List.append_assoc] at h
    obtain ⟨v, hv, hstep⟩ := run_snoc_iff.1 h
    obtain ⟨t, ht, hrest⟩ := ih hv
    exact ⟨t, ht, .snoc hrest hstep⟩

theorem run_cons_iff : Run R s (e :: es) u ↔ ∃ t, R s e t ∧ Run R t es u := by
  rw [← List.singleton_append, run_append_iff]
  constructor
  · rintro ⟨t, h, hrest⟩
    rw [← List.nil_append [e]] at h
    obtain ⟨s', hs', hstep⟩ := run_snoc_iff.1 h
    obtain rfl := run_nil_iff.1 hs'
    exact ⟨t, hstep, hrest⟩
  · rintro ⟨t, hstep, hrest⟩
    exact ⟨t, .snoc (.nil s) hstep, hrest⟩

/-! ### Invariants -/

/-- A relation between the events so far and the state, kept by every step, holds of the
whole run. -/
theorem Run.history {I : List ε → σ → Prop} (h : Run R s es t) (hinit : I [] s)
    (hstep : ∀ es t e u, I es t → R t e u → I (es ++ [e]) u) : I es t := by
  induction h with
  | nil => exact hinit
  | snoc _ hR ih => exact hstep _ _ _ _ ih hR

/-- A property kept by every step holds at the end of a run it held at the start of. -/
theorem Run.invariant {I : σ → Prop} (h : Run R s es t) (hinit : I s)
    (hstep : ∀ t e u, I t → R t e u → I u) : I t :=
  h.history (I := fun _ ↦ I) hinit fun _ ↦ hstep

/-- A run of a finer relation is a run of a coarser one. -/
theorem Run.mono {R' : σ → ε → σ → Prop} (h : Run R s es t)
    (hR : ∀ t e u, R t e u → R' t e u) : Run R' s es t := by
  induction h with
  | nil => exact .nil _
  | snoc _ hstep ih => exact .snoc ih (hR _ _ _ hstep)

/-- **Projection to a component.** If every step of a system is a run of a component, so is every
run. -/
theorem Run.project {τ ε' : Type*} {R' : τ → ε' → τ → Prop} (f : σ → τ) (g : ε → List ε')
    (h : Run R s es t) (hstep : ∀ t e u, R t e u → Run R' (f t) (g e) (f u)) :
    Run R' (f s) (es.flatMap g) (f t) := by
  induction h with
  | nil => exact .nil _
  | snoc _ hR ih =>
    rw [List.flatMap_append, List.flatMap_singleton]
    exact ih.append (hstep _ _ _ hR)

/-- A run of a component that takes one step in each of the system's. -/
theorem Run.projectMap {τ ε' : Type*} {R' : τ → ε' → τ → Prop} (f : σ → τ) (g : ε → ε')
    (h : Run R s es t) (hstep : ∀ t e u, R t e u → R' (f t) (g e) (f u)) :
    Run R' (f s) (es.map g) (f t) := by
  rw [← List.flatMap_pure_eq_map]
  refine h.project f (fun e ↦ [g e]) fun t e u hR ↦ ?_
  exact .snoc (.nil _) (hstep t e u hR)

/-- **A log** to which every step adds what it says. -/
theorem Run.log_eq {α : Type*} {log : σ → List α} {out : ε → List α} (h : Run R s es t)
    (hstep : ∀ t e u, R t e u → log u = log t ++ out e) : log t = log s ++ es.flatMap out := by
  induction h with
  | nil => simp
  | snoc _ hR ih => rw [hstep _ _ _ hR, ih, List.append_assoc, List.flatMap_append,
      List.flatMap_singleton]

/-- **A stock that is added to at the end and taken from at the front.** If every step moves what
it adds and takes in this order, so does the whole run. -/
theorem Run.fifo {α : Type*} {I : σ → Prop} {stock : σ → List α} {into out : ε → List α}
    (h : Run R s es t) (hinit : I s)
    (hstep : ∀ t e u, I t → R t e u → I u ∧ stock t ++ into e = out e ++ stock u) :
    stock s ++ es.flatMap into = es.flatMap out ++ stock t := by
  have hboth : I t ∧ stock s ++ es.flatMap into = es.flatMap out ++ stock t := by
    refine h.history (I := fun es t ↦ I t ∧
      stock s ++ es.flatMap into = es.flatMap out ++ stock t) ⟨hinit, by simp⟩ ?_
    rintro es t e u ⟨hI, hflow⟩ hR
    obtain ⟨hI', hmove⟩ := hstep t e u hI hR
    refine ⟨hI', ?_⟩
    simp only [List.flatMap_append, List.flatMap_singleton]
    rw [← List.append_assoc, hflow, List.append_assoc, hmove, List.append_assoc]
  exact hboth.2

/-- **Forward simulation.** If every step from a state is matched, event by event, by a run of
another machine from every related state, then every run is. `L` says which events match one. -/
theorem Run.simulates {τ ε' : Type*} {R' : τ → ε' → τ → Prop} {Rel : σ → τ → Prop}
    {L : ε → List ε' → Prop} {s' : τ} (h : Run R s es t) (hinit : Rel s s')
    (hstep : ∀ t e u t', Rel t t' → R t e u → ∃ fs u', L e fs ∧ Run R' t' fs u' ∧ Rel u u') :
    ∃ fss t', List.Forall₂ L es fss ∧ Run R' s' fss.flatten t' ∧ Rel t t' := by
  induction h with
  | nil => exact ⟨[], s', .nil, .nil s', hinit⟩
  | snoc _ hR ih =>
    obtain ⟨fss, t', hL, hrun, hrel⟩ := ih
    obtain ⟨fs, u', hfs, hrun', hrel'⟩ := hstep _ _ _ _ hrel hR
    refine ⟨fss ++ [fs], u', List.rel_append hL (.cons hfs .nil), ?_, hrel'⟩
    rw [List.flatten_append, List.flatten_singleton]
    exact hrun.append hrun'

/-! ### Conditions along a run -/

/-- Every state that a run over a prefix of `es` reaches satisfies `P`. -/
def StatesAlong (R : σ → ε → σ → Prop) (P : σ → Prop) (s : σ) (es : List ε) : Prop :=
  ∀ ⦃pre t⦄, pre <+: es → Run R s pre t → P t

/-- Every step taken along `es` meets `c`, a condition on the state before it and its event. -/
def StepsAlong (R : σ → ε → σ → Prop) (c : σ → ε → Prop) (s : σ) (es : List ε) : Prop :=
  ∀ ⦃pre e t u⦄, pre ++ [e] <+: es → Run R s pre t → R t e u → c t e

/-- The exact-condition rule, with an auxiliary invariant `I` of the good states. -/
theorem statesAlong_iff_stepsAlong {P I : σ → Prop} {c : σ → ε → Prop} (hP : P s) (hI : I s)
    (hstep : ∀ t e u, I t → P t → R t e u → (P u ↔ c t e) ∧ (P u → I u)) :
    StatesAlong R P s es ↔ StepsAlong R c s es := by
  constructor
  · intro h pre e t u hpre hrun hR
    have hgood : ∀ {pre t}, Run R s pre t → pre <+: es → P t ∧ I t := by
      intro pre t hrun
      induction hrun with
      | nil => exact fun _ ↦ ⟨hP, hI⟩
      | snoc hrun hR ih =>
        intro hpre
        obtain ⟨hPt, hIt⟩ := ih ((List.prefix_append _ _).trans hpre)
        have hPu := h hpre (.snoc hrun hR)
        exact ⟨hPu, (hstep _ _ _ hIt hPt hR).2 hPu⟩
    obtain ⟨hPt, hIt⟩ := hgood hrun ((List.prefix_append _ _).trans hpre)
    exact (hstep t e u hIt hPt hR).1.1 (h hpre (.snoc hrun hR))
  · intro h pre t hpre hrun
    suffices hgood : P t ∧ I t from hgood.1
    induction hrun with
    | nil => exact ⟨hP, hI⟩
    | snoc hrun hR ih =>
      obtain ⟨hPt, hIt⟩ := ih ((List.prefix_append _ _).trans hpre)
      have hPu := (hstep _ _ _ hIt hPt hR).1.2 (h hpre hrun hR)
      exact ⟨hPu, (hstep _ _ _ hIt hPt hR).2 hPu⟩

/-! ### Functional machines -/

/-- The runs of a total step function are its folds. -/
theorem run_foldl_iff {f : σ → ε → σ} :
    Run (fun s e t ↦ f s e = t) s es t ↔ es.foldl f s = t := by
  induction es generalizing s with
  | nil => simp
  | cons e es ih => simp [run_cons_iff, ih]

/-- The runs of a guarded step function are its monadic folds. -/
theorem run_foldlM_iff {step : σ → ε → Option σ} :
    Run (fun s e t ↦ step s e = some t) s es t ↔ es.foldlM step s = some t := by
  induction es generalizing s with
  | nil => simp [pure]
  | cons e es ih => simp [run_cons_iff, ih, Option.bind_eq_some_iff]

/-- A guarded step function leaves a run no choice. -/
theorem run_unique {step : σ → ε → Option σ} (h : Run (fun s e t ↦ step s e = some t) s es t)
    (h' : Run (fun s e t ↦ step s e = some t) s es u) : t = u :=
  Option.some.inj ((run_foldlM_iff.1 h).symm.trans (run_foldlM_iff.1 h'))

/-- A guarded step function that checks a condition before every step. -/
def checked (step : σ → ε → Option σ) (c : σ → ε → Bool) (s : σ) (e : ε) : Option σ :=
  if c s e then step s e else none

theorem step_of_checked {step : σ → ε → Option σ} {c : σ → ε → Bool}
    (h : checked step c s e = some t) : c s e = true ∧ step s e = some t := by
  unfold checked at h
  split_ifs at h with hc
  exact ⟨hc, h⟩

/-- A run with checks is a run in which every step meets the condition. -/
theorem run_of_checked {step : σ → ε → Option σ} {c : σ → ε → Bool}
    (h : es.foldlM (checked step c) s = some t) :
    Run (fun s e t ↦ step s e = some t) s es t ∧
      StepsAlong (fun s e t ↦ step s e = some t) (fun s e ↦ c s e = true) s es := by
  have hchecked := run_foldlM_iff.2 h
  have hrun : Run (fun s e t ↦ step s e = some t) s es t :=
    hchecked.mono fun _ _ _ hstep ↦ (step_of_checked hstep).2
  refine ⟨hrun, fun pre e u v ⟨post, hpre⟩ hrun' _ ↦ ?_⟩
  rw [← hpre, run_append_iff] at hchecked
  obtain ⟨w, hchecked, -⟩ := hchecked
  obtain ⟨u', hu', hlast⟩ := run_snoc_iff.1 hchecked
  have hsame : u = u' :=
    run_unique hrun' (hu'.mono fun _ _ _ hstep ↦ (step_of_checked hstep).2)
  exact hsame ▸ (step_of_checked hlast).1

end LabelledRun
