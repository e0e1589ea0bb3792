import Mathlib.Data.List.Basic
import Mathlib.Data.Nat.ModEq
import Mathlib.Logic.Function.Basic

/-!
# Ring buffers

A queue kept in an array of fixed size: the position of the oldest entry, the position after the
newest, each of which goes back to the start of the array at its end, and the number of entries.
That the three agree is a field of `RingBuffer`. A slot that holds no entry may hold anything.

`contents` is the queue as a list, oldest first, and each operation is the operation on lists.
-/

/-- A ring buffer over an array of `size` slots. -/
structure RingBuffer (α : Type) (size : ℕ) where
  slots : Fin size → α
  /-- The slot of the oldest entry. -/
  front : Fin size
  /-- The slot for the next entry. -/
  back : Fin size
  /-- The number of entries. -/
  count : ℕ
  count_le : count ≤ size
  back_eq : (back : ℕ) = (front + count) % size

namespace RingBuffer

variable {α : Type} {size : ℕ}

/-! ### Positions -/

/-- The position after one, around the end. -/
def next (i : Fin size) : Fin size :=
  if h : i + 1 = size then ⟨0, by omega⟩ else ⟨i + 1, by omega⟩

/-- The position `k` after one. -/
def shift (i : Fin size) (k : ℕ) : Fin size :=
  ⟨(i + k) % size, Nat.mod_lt _ i.pos⟩

theorem next_val (i : Fin size) : (next i : ℕ) = (i + 1) % size := by
  unfold next
  split_ifs with h
  · rw [h, Nat.mod_self]
  · exact (Nat.mod_eq_of_lt (by omega)).symm

theorem shift_zero (i : Fin size) : shift i 0 = i :=
  Fin.ext (Nat.mod_eq_of_lt i.2)

theorem shift_next (i : Fin size) (k : ℕ) : shift (next i) k = shift i (k + 1) := by
  refine Fin.ext ?_
  change ((next i : ℕ) + k) % size = (i + (k + 1)) % size
  rw [next_val, Nat.mod_add_mod, Nat.add_assoc, Nat.add_comm 1 k]

/-- Two positions fewer than `size` apart are different. -/
theorem shift_ne_shift {i : Fin size} {j k : ℕ} (hj : j < k) (hk : k < size + j) :
    shift i j ≠ shift i k := by
  intro h
  have hmod : (i + j) % size = (i + k) % size := congrArg Fin.val h
  have hdvd := (Nat.modEq_iff_dvd' (by omega : (i : ℕ) + j ≤ i + k)).1 hmod
  have hle := Nat.le_of_dvd (by omega) hdvd
  omega

/-! ### The operations -/

/-- The entries, oldest first. -/
def contents (r : RingBuffer α size) : List α :=
  (List.range r.count).map fun i ↦ r.slots (shift r.front i)

@[simp]
theorem length_contents (r : RingBuffer α size) : r.contents.length = r.count := by
  simp [contents]

theorem back_eq_shift (r : RingBuffer α size) : r.back = shift r.front r.count :=
  Fin.ext r.back_eq

/-- An empty ring over an array. -/
def ofSlots (slots : Fin size → α) (h : 0 < size) : RingBuffer α size where
  slots
  front := ⟨0, h⟩
  back := ⟨0, h⟩
  count := 0
  count_le := Nat.zero_le _
  back_eq := (Nat.zero_mod _).symm

@[simp]
theorem contents_ofSlots (slots : Fin size → α) (h : 0 < size) : (ofSlots slots h).contents = [] :=
  rfl

/-- Add an entry at the end. -/
def pushBack (r : RingBuffer α size) (a : α) (h : r.count < size) : RingBuffer α size where
  slots := Function.update r.slots r.back a
  front := r.front
  back := next r.back
  count := r.count + 1
  count_le := h
  back_eq := by rw [next_val, r.back_eq, Nat.mod_add_mod, Nat.add_assoc]

/-- The oldest entry. -/
def head (r : RingBuffer α size) : α :=
  r.slots r.front

/-- Take the oldest entry away. -/
def popFront (r : RingBuffer α size) (h : 0 < r.count) : RingBuffer α size where
  slots := r.slots
  front := next r.front
  back := r.back
  count := r.count - 1
  count_le := le_trans (Nat.sub_le _ _) r.count_le
  back_eq := by
    rw [next_val, Nat.mod_add_mod, r.back_eq, Nat.add_assoc, Nat.add_sub_cancel' h]

/-- **Adding at the end of the ring is adding at the end of the list.** -/
theorem contents_pushBack (r : RingBuffer α size) (a : α) (h : r.count < size) :
    (r.pushBack a h).contents = r.contents ++ [a] := by
  have hold : ∀ i ∈ List.range r.count,
      Function.update r.slots r.back a (shift r.front i) = r.slots (shift r.front i) := by
    intro i hi
    have hi : i < r.count := List.mem_range.1 hi
    rw [r.back_eq_shift, Function.update_of_ne (shift_ne_shift hi (by omega))]
  have hnew : Function.update r.slots r.back a (shift r.front r.count) = a := by
    rw [← r.back_eq_shift, Function.update_self]
  change (List.range (r.count + 1)).map
    (fun i ↦ Function.update r.slots r.back a (shift r.front i)) = _
  rw [List.range_succ, List.map_append, List.map_congr_left hold, List.map_singleton, hnew]
  rfl

/-- **Taking from the front of the ring is taking the head of the list.** -/
theorem contents_eq_cons (r : RingBuffer α size) (h : 0 < r.count) :
    r.contents = r.head :: (r.popFront h).contents := by
  have hcount : r.count = (r.count - 1) + 1 := by omega
  change (List.range r.count).map _ = _
  rw [hcount, List.range_succ_eq_map, List.map_cons, List.map_map, shift_zero]
  refine congrArg _ (List.map_congr_left fun i _ ↦ ?_)
  change r.slots (shift r.front (i + 1)) = r.slots (shift (next r.front) i)
  rw [shift_next]

theorem contents_eq_nil_iff {r : RingBuffer α size} : r.contents = [] ↔ r.count = 0 := by
  rw [← List.length_eq_zero_iff, length_contents]

end RingBuffer
