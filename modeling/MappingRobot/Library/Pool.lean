import Mathlib.Data.List.Basic
import Mathlib.Data.Multiset.Range
import Mathlib.Data.Multiset.ZeroCons

/-!
# Allocation pools

A pool gives out cells and takes them back. Cells have ids, which are given out once: a freed id
does not come back, so that what happened to a cell can be told from its id. A pool remembers
the ids freed. Loading from, storing to or freeing a cell that is not live has no result.

`Pool.Owned P ids` is the ledger: every id ever given out is either in the multiset `ids` of
references or has been freed, once in all, and what is referenced is live. Each operation moves
one id (`Owned.malloc`, `Owned.free`) or none (`Owned.store`), and leaves every other cell
alone.
-/

/-- A pool of cells. -/
structure Pool (α : Type*) where
  /-- The cell of each id given out: `none` once it is freed. -/
  cells : List (Option α)
  /-- The ids freed. -/
  freed : List ℕ
deriving DecidableEq

namespace Pool

variable {α : Type*} {P P' : Pool α} {ids : Multiset ℕ} {p q : ℕ}

/-- The pool that has not given out anything. -/
def empty : Pool α :=
  ⟨[], []⟩

/-- The next id. -/
def next (P : Pool α) : ℕ :=
  P.cells.length

/-- The content of a cell, if it is live. -/
def load (P : Pool α) (p : ℕ) : Option α :=
  P.cells[p]?.join

/-- Give out a cell. -/
def malloc (P : Pool α) (v : α) : ℕ × Pool α :=
  (P.next, ⟨P.cells ++ [some v], P.freed⟩)

/-- Store to a live cell. -/
def store (P : Pool α) (p : ℕ) (v : α) : Option (Pool α) :=
  if (P.load p).isSome then some ⟨P.cells.set p (some v), P.freed⟩ else none

/-- Take a live cell back. -/
def free (P : Pool α) (p : ℕ) : Option (Pool α) :=
  if (P.load p).isSome then some ⟨P.cells.set p none, P.freed ++ [p]⟩ else none

/-! ### Loading after an operation -/

theorem lt_next_of_load (h : (P.load p).isSome) : p < P.next := by
  by_contra hge
  rw [load, List.getElem?_eq_none (Nat.le_of_not_lt hge)] at h
  cases h

theorem load_malloc_self (v : α) : (P.malloc v).2.load (P.malloc v).1 = some v := by
  simp [load, malloc, next]

theorem load_malloc_of_lt (v : α) (h : p < P.next) : (P.malloc v).2.load p = P.load p := by
  simp [load, malloc, List.getElem?_append_left (show p < P.cells.length from h)]

theorem load_store_self {v : α} (h : P.store p v = some P') : P'.load p = some v := by
  unfold store at h
  split_ifs at h with hlive
  obtain rfl := Option.some.inj h
  have hlt : p < P.cells.length := lt_next_of_load hlive
  simp [load, List.getElem?_set_self hlt]

theorem load_store_of_ne {v : α} (h : P.store p v = some P') (hne : q ≠ p) :
    P'.load q = P.load q := by
  unfold store at h
  split_ifs at h
  obtain rfl := Option.some.inj h
  simp [load, List.getElem?_set_ne hne.symm]

theorem load_free_of_ne (h : P.free p = some P') (hne : q ≠ p) : P'.load q = P.load q := by
  unfold free at h
  split_ifs at h
  obtain rfl := Option.some.inj h
  simp [load, List.getElem?_set_ne hne.symm]

/-! ### The ledger -/

/-- The references `ids` and the ids freed are together the ids given out, each once, and every
reference is to a live cell. -/
structure Owned (P : Pool α) (ids : Multiset ℕ) : Prop where
  add_freed : ids + (P.freed : Multiset ℕ) = Multiset.range P.next
  live : ∀ p ∈ ids, (P.load p).isSome

theorem owned_empty : (empty : Pool α).Owned 0 :=
  ⟨rfl, by simp⟩

namespace Owned

theorem nodup (h : P.Owned ids) : ids.Nodup :=
  Multiset.nodup_of_le (h.add_freed ▸ Multiset.le_add_right _ _) (Multiset.nodup_range P.next)

theorem lt_next (h : P.Owned ids) (hp : p ∈ ids) : p < P.next :=
  lt_next_of_load (h.live p hp)

theorem ne_of_mem (h : P.Owned (p ::ₘ ids)) (hq : q ∈ ids) : q ≠ p := by
  rintro rfl
  exact (Multiset.nodup_cons.1 h.nodup).1 hq

/-- Every id given out is in one place. -/
theorem count_add_count (h : P.Owned ids) (hp : p < P.next) :
    ids.count p + P.freed.count p = 1 := by
  have hcount := congrArg (Multiset.count p) h.add_freed
  rwa [Multiset.count_add, Multiset.coe_count, Multiset.count_eq_one_of_mem
    (Multiset.nodup_range _) (Multiset.mem_range.2 hp)] at hcount

/-- **A cell given out** is one more reference. -/
theorem malloc (h : P.Owned ids) (v : α) :
    (P.malloc v).2.Owned ((P.malloc v).1 ::ₘ ids) ∧
      ∀ q ∈ ids, (P.malloc v).2.load q = P.load q := by
  have hsame : ∀ q ∈ ids, (P.malloc v).2.load q = P.load q :=
    fun q hq ↦ load_malloc_of_lt v (h.lt_next hq)
  refine ⟨⟨?_, fun q hq ↦ ?_⟩, hsame⟩
  · have hnext : (P.malloc v).2.next = P.next + 1 := by simp [Pool.malloc, next]
    rw [hnext, Multiset.range_succ, ← h.add_freed, Multiset.cons_add]
    rfl
  · rcases Multiset.mem_cons.1 hq with rfl | hq
    · rw [load_malloc_self]; rfl
    · rw [hsame q hq]; exact h.live q hq

/-- **A store** to a referenced cell changes this cell only. -/
theorem store (h : P.Owned (p ::ₘ ids)) (v : α) :
    ∃ P', P.store p v = some P' ∧ P'.Owned (p ::ₘ ids) ∧ P'.load p = some v ∧
      ∀ q ∈ ids, P'.load q = P.load q := by
  have hlive := h.live p (Multiset.mem_cons_self _ _)
  have hstore : P.store p v = some ⟨P.cells.set p (some v), P.freed⟩ := if_pos hlive
  have hsame : ∀ q ∈ ids, (⟨P.cells.set p (some v), P.freed⟩ : Pool α).load q = P.load q :=
    fun q hq ↦ load_store_of_ne hstore (h.ne_of_mem hq)
  refine ⟨_, hstore, ⟨?_, fun q hq ↦ ?_⟩, load_store_self hstore, hsame⟩
  · simpa [next] using h.add_freed
  · rcases Multiset.mem_cons.1 hq with rfl | hq'
    · rw [load_store_self hstore]; rfl
    · rw [hsame q hq']; exact h.live q hq

/-- **A cell taken back** is no longer referenced. -/
theorem free (h : P.Owned (p ::ₘ ids)) :
    ∃ P', P.free p = some P' ∧ P'.Owned ids ∧ ∀ q ∈ ids, P'.load q = P.load q := by
  have hlive := h.live p (Multiset.mem_cons_self _ _)
  have hfree : P.free p = some ⟨P.cells.set p none, P.freed ++ [p]⟩ := if_pos hlive
  have hsame : ∀ q ∈ ids, (⟨P.cells.set p none, P.freed ++ [p]⟩ : Pool α).load q = P.load q :=
    fun q hq ↦ load_free_of_ne hfree (h.ne_of_mem hq)
  refine ⟨_, hfree, ⟨?_, fun q hq ↦ ?_⟩, hsame⟩
  · have hledger := h.add_freed
    rw [Multiset.cons_add, ← Multiset.add_cons] at hledger
    rw [← Multiset.coe_add, Multiset.coe_singleton, Multiset.add_comm (P.freed : Multiset ℕ),
      Multiset.singleton_add, hledger]
    simp [next]
  · rw [hsame q hq]; exact h.live q (Multiset.mem_cons_of_mem hq)

end Owned

end Pool
