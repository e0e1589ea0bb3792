import Mathlib.Data.List.Destutter
import Mathlib.Data.List.Perm.Basic
import Mathlib.Data.List.Sort

/-!
# Repetition under cyclic labels

A sender transmits each of `n` items `copies` times in a row, under a label that repeats from item
to item only after a while, and some transmissions are lost. A receiver who keeps the first of each
run of equal labels (`runHeads`) has every item that came through once and in order, as long as the
labels tell items apart whose distance is at most `reach`, and no `reach` consecutive items lose all
of their copies (`NoBlackout`).

Transmissions are numbered from `0`, and transmission `i` is a copy of item `i / copies`.
-/

namespace Repetition

variable {α κ : Type*}

/-- The first of each run of equal labels. -/
def runHeads [DecidableEq κ] (label : α → κ) (l : List α) : List α :=
  l.destutter fun a b ↦ label a ≠ label b

/-- The transmissions that are not lost. -/
def heard (copies n : ℕ) (lost : ℕ → Bool) : List ℕ :=
  (List.range (copies * n)).filter fun i ↦ !lost i

/-- A copy of the item is heard. -/
def ComesThrough (copies : ℕ) (lost : ℕ → Bool) (item : ℕ) : Prop :=
  ∃ copy < copies, lost (copies * item + copy) = false

instance (copies : ℕ) (lost : ℕ → Bool) : DecidablePred (ComesThrough copies lost) :=
  fun item ↦ inferInstanceAs (Decidable (∃ copy < copies, lost (copies * item + copy) = false))

/-- Of any `reach` consecutive items, one comes through. -/
def NoBlackout (copies n reach : ℕ) (lost : ℕ → Bool) : Prop :=
  ∀ item, item + reach ≤ n → ∃ item', item ≤ item' ∧ item' < item + reach ∧
    ComesThrough copies lost item'

/-! ### Run heads -/

/-- Where neighbours have equal labels exactly when they have equal tags, in either order of the
tags, dropping by label is dropping by tag. The induction keeps the last element that was kept
next to the last one looked at: they agree in both. -/
theorem destutter'_eq_of_isChain [DecidableEq κ] {label : α → κ} {tag : α → ℕ} {kept last : α}
    {l : List α}
    (hchain : (last :: l).IsChain fun a b ↦ label a = label b ↔ tag a = tag b)
    (hlabel : label kept = label last) (htag : tag kept = tag last) :
    l.destutter' (fun a b ↦ label a ≠ label b) kept =
      l.destutter' (fun a b ↦ tag a ≠ tag b) kept := by
  induction l generalizing kept last with
  | nil => rfl
  | cons b l ih =>
    obtain ⟨hb, hchain⟩ := List.isChain_cons_cons.1 hchain
    by_cases hsame : tag last = tag b
    · have hdrop : label kept = label b := hlabel.trans (hb.2 hsame)
      rw [List.destutter'_cons_neg (R := fun a b ↦ label a ≠ label b) l (not_not.2 hdrop),
        List.destutter'_cons_neg (R := fun a b ↦ tag a ≠ tag b) l (not_not.2 (htag.trans hsame))]
      exact ih hchain hdrop (htag.trans hsame)
    · have hkeep : label kept ≠ label b := fun h ↦ hsame (hb.1 (hlabel.symm.trans h))
      have hkeep' : tag kept ≠ tag b := fun h ↦ hsame (htag.symm.trans h)
      rw [List.destutter'_cons_pos (R := fun a b ↦ label a ≠ label b) l hkeep,
        List.destutter'_cons_pos (R := fun a b ↦ tag a ≠ tag b) l hkeep', ih hchain rfl rfl]

/-- The run heads have the tags of the list, each once. -/
theorem map_runHeads [DecidableEq κ] {label : α → κ} {tag : α → ℕ} {l : List α}
    (hchain : l.IsChain fun a b ↦ label a = label b ↔ tag a = tag b)
    (hsorted : (l.map tag).Pairwise (· ≤ ·)) :
    (runHeads label l).map tag = (l.map tag).dedup := by
  have hheads : runHeads label l = l.destutter fun a b ↦ tag a ≠ tag b := by
    cases l with
    | nil => rfl
    | cons a l => exact destutter'_eq_of_isChain hchain rfl rfl
  have hmap : (l.destutter fun a b ↦ tag a ≠ tag b).map tag = (l.map tag).destutter (· ≠ ·) :=
    List.map_destutter fun _ _ _ _ ↦ Iff.rfl
  rw [hheads, hmap, hsorted.destutter_eq_dedup]

/-! ### What is heard -/

variable {copies n reach : ℕ} {lost : ℕ → Bool}

theorem mem_heard {i : ℕ} : i ∈ heard copies n lost ↔ i < copies * n ∧ lost i = false := by
  simp [heard]

/-- Between neighbours among the numbers that pass a test, no number does. -/
theorem isChain_filter_range' (p : ℕ → Bool) (s n : ℕ) :
    ((List.range' s n).filter p).IsChain fun i j ↦
      i < j ∧ ∀ k, i < k → k < j → p k = false := by
  induction n generalizing s with
  | zero => exact .nil
  | succ n ih =>
    rw [List.range'_succ, List.filter_cons]
    split_ifs with hs
    · refine List.isChain_cons.2 ⟨fun j hj ↦ ?_, ih (s + 1)⟩
      rw [List.head?_filter, Option.mem_def, List.find?_range'_eq_some] at hj
      obtain ⟨-, hmem, hnone⟩ := hj
      have := List.mem_range'_1.1 hmem
      exact ⟨by omega, fun k hsk hkj ↦ by simpa using hnone k (by omega) hkj⟩
    · exact ih (s + 1)

/-- Neighbours among what is heard are copies of items at most `reach` apart. -/
theorem isChain_heard (hcopies : 0 < copies) (hloss : NoBlackout copies n reach lost) :
    (heard copies n lost).IsChain fun i j ↦
      i / copies ≤ j / copies ∧ j / copies ≤ i / copies + reach := by
  have hchain := isChain_filter_range' (fun i ↦ !lost i) 0 (copies * n)
  rw [← List.range_eq_range'] at hchain
  refine hchain.imp_of_mem_imp fun i j hi hj ⟨hij, hbetween⟩ ↦
    ⟨Nat.div_le_div_right hij.le, ?_⟩
  by_contra hfar
  have hjn : j / copies < n := Nat.div_lt_of_lt_mul (mem_heard.1 hj).1
  -- an item in the gap comes through, and a copy of it would be between the neighbours
  obtain ⟨item, hlo, hhi, copy, hcopy, hheard⟩ := hloss (i / copies + 1) (by omega)
  have hafter : i < copies * item + copy := by
    have := Nat.lt_mul_div_succ i hcopies
    have := Nat.mul_le_mul_left copies hlo
    omega
  have hbefore : copies * item + copy < j := by
    have := Nat.mul_div_le j copies
    have := Nat.mul_le_mul_left copies (show item + 1 ≤ j / copies by omega)
    rw [Nat.mul_add, Nat.mul_one] at this
    omega
  have := hbetween _ hafter hbefore
  simp [hheard] at this

/-- **Neighbours have equal labels exactly when they are copies of one item**, if the labels tell
items apart that are at most `reach` apart. -/
theorem isChain_heard_label (label : ℕ → κ) (hcopies : 0 < copies)
    (hloss : NoBlackout copies n reach lost)
    (hlabel : ∀ item item', item ≤ item' → item' ≤ item + reach → label item = label item' →
      item = item') :
    (heard copies n lost).IsChain fun i j ↦
      label (i / copies) = label (j / copies) ↔ i / copies = j / copies :=
  (isChain_heard hcopies hloss).imp fun _ _ ⟨hle, hreach⟩ ↦
    ⟨hlabel _ _ hle hreach, congrArg label⟩

variable (n lost) in
/-- The items of what is heard are, each once, the items that come through in order. -/
theorem dedup_heard (hcopies : 0 < copies) :
    ((heard copies n lost).map (· / copies)).Pairwise (· ≤ ·) ∧
      ((heard copies n lost).map (· / copies)).dedup =
        (List.range n).filter (ComesThrough copies lost ·) := by
  have hsorted : ((heard copies n lost).map (· / copies)).Pairwise (· ≤ ·) := by
    refine List.Pairwise.map _ (fun i j hij ↦ Nat.div_le_div_right (c := copies) hij) ?_
    exact (List.pairwise_le_range (n := copies * n)).filter _
  refine ⟨hsorted, List.Perm.eq_of_pairwise' (hsorted.sublist (List.dedup_sublist _))
    (List.pairwise_le_range.filter _) ?_⟩
  refine (List.perm_ext_iff_of_nodup (List.nodup_dedup _) (List.nodup_range.filter _)).2
    fun item ↦ ?_
  simp only [List.mem_dedup, List.mem_map, mem_heard, List.mem_filter, List.mem_range,
    decide_eq_true_eq]
  constructor
  · rintro ⟨i, ⟨hi, hheard⟩, rfl⟩
    refine ⟨Nat.div_lt_of_lt_mul hi, i % copies, Nat.mod_lt _ hcopies, ?_⟩
    rw [Nat.div_add_mod, hheard]
  · rintro ⟨hitem, copy, hcopy, hheard⟩
    refine ⟨copies * item + copy, ⟨?_, hheard⟩, ?_⟩
    · have := Nat.mul_le_mul_left copies (show item + 1 ≤ n from hitem)
      rw [Nat.mul_add, Nat.mul_one] at this
      omega
    · rw [Nat.mul_add_div hcopies, Nat.div_eq_of_lt hcopy, Nat.add_zero]

end Repetition
