import Mathlib.Algebra.BigOperators.Group.List.Basic
import Mathlib.Algebra.Group.Nat.Even

/-!
# Back and forth

A walk of equal steps that turns round after every `len` of them. `alternating` lists its first
`n` steps, and `zigzag` counts how far from its start they lead. Nothing here knows what makes
the walk turn.

All the arithmetic is in `succ_div_mod`: the next index continues its block of `len` or begins
the next one. `sum_alternating` says that the walk does not drift: the sum of its steps is
`zigzag` of them, which never leaves `[0, len]`.
-/

namespace Alternation

variable {α β : Type*}

/-- Step `k` of the walk: `a` in the even blocks of `len`, and back in the odd ones. -/
def heading [Neg α] (len : ℕ) (a : α) (k : ℕ) : α :=
  if Even (k / len) then a else -a

/-- The first `n` steps of the walk. -/
def alternating [Neg α] (len : ℕ) (a : α) (n : ℕ) : List α :=
  (List.range n).map (heading len a)

/-- How many steps away from its start the walk is after `n` of them. -/
def zigzag (len n : ℕ) : ℕ :=
  if Even (n / len) then n % len else len - n % len

/-! ### Blocks -/

/-- The next index continues the block or begins the next one. -/
theorem succ_div_mod {len : ℕ} (hlen : 0 < len) (n : ℕ) :
    (n % len + 1 < len ∧ (n + 1) / len = n / len ∧ (n + 1) % len = n % len + 1) ∨
      (n % len + 1 = len ∧ (n + 1) / len = n / len + 1 ∧ (n + 1) % len = 0) := by
  have hsplit := Nat.mod_add_div n len
  rcases Nat.lt_or_ge (n % len + 1) len with hlt | hge
  · exact Or.inl ⟨hlt, (Nat.div_mod_unique hlen).2 ⟨by omega, hlt⟩⟩
  · have heq : n % len + 1 = len := Nat.le_antisymm (Nat.mod_lt n hlen) hge
    refine Or.inr ⟨heq, (Nat.div_mod_unique hlen).2 ⟨?_, hlen⟩⟩
    rw [Nat.mul_add, Nat.mul_one]
    omega

/-! ### The steps -/

section

variable [Neg α] {len : ℕ} {a : α}

theorem heading_of_lt {k : ℕ} (h : k < len) : heading len a k = a := by
  rw [heading, Nat.div_eq_of_lt h, if_pos Even.zero]

/-- The walk has turned once. -/
theorem heading_self (hlen : 0 < len) : heading len a len = -a := by
  rw [heading, Nat.div_self hlen, if_neg Nat.not_even_one]

theorem alternating_succ (n : ℕ) :
    alternating len a (n + 1) = alternating len a n ++ [heading len a n] := by
  rw [alternating, List.range_succ, List.map_append]
  rfl

theorem getElem?_alternating {k n : ℕ} (h : k < n) :
    (alternating len a n)[k]? = some (heading len a k) := by
  simp [alternating, h]

/-- The beginning of a walk is a walk. -/
theorem eq_alternating_of_isPrefix {n : ℕ} {l : List α} (h : l <+: alternating len a n) :
    l = alternating len a l.length := by
  have hle : l.length ≤ n := by simpa [alternating] using h.length_le
  have htake := List.prefix_iff_eq_take.1 h
  rw [alternating, ← List.map_take, List.take_range, Nat.min_eq_left hle] at htake
  exact htake

/-- The walk goes straight before it turns. -/
theorem alternating_of_le {n : ℕ} (h : n ≤ len) :
    alternating len a n = List.replicate n a := by
  refine List.eq_replicate_iff.2 ⟨by simp [alternating], fun b hb ↦ ?_⟩
  obtain ⟨k, hk, rfl⟩ := List.mem_map.1 hb
  exact heading_of_lt ((List.mem_range.1 hk).trans_le h)

/-- A function that keeps opposites opposite takes walks to walks. -/
theorem map_heading [Neg β] {f : α → β} (hf : f (-a) = -f a) (k : ℕ) :
    f (heading len a k) = heading len (f a) k := by
  rw [heading, apply_ite f, hf, heading]

theorem map_alternating [Neg β] {f : α → β} (hf : f (-a) = -f a) (n : ℕ) :
    (alternating len a n).map f = alternating len (f a) n := by
  rw [alternating, List.map_map]
  exact List.map_congr_left fun k _ ↦ map_heading hf k

end

/-- The walk turns exactly at the beginning of a block. -/
theorem heading_succ [InvolutiveNeg α] {len : ℕ} (hlen : 0 < len) (a : α) (k : ℕ) :
    heading len a (k + 1) = if k % len + 1 = len then -heading len a k else heading len a k := by
  rcases succ_div_mod hlen k with ⟨hlt, hdiv, -⟩ | ⟨hend, hdiv, -⟩
  · rw [if_neg hlt.ne, heading, hdiv, heading]
  · rw [if_pos hend, heading, hdiv, heading]
    by_cases heven : Even (k / len)
    · rw [if_neg (Nat.even_add_one.not.2 (not_not.2 heven)), if_pos heven]
    · rw [if_pos (Nat.even_add_one.2 heven), if_neg heven, neg_neg]

/-! ### The distance -/

/-- One step leads away from the start in an even block, and back in an odd one. -/
theorem zigzag_succ {len : ℕ} (hlen : 0 < len) (n : ℕ) :
    if Even (n / len) then zigzag len (n + 1) = zigzag len n + 1
    else zigzag len (n + 1) + 1 = zigzag len n := by
  have hmod := Nat.mod_lt n hlen
  rcases succ_div_mod hlen n with ⟨hlt, hdiv, hrest⟩ | ⟨hend, hdiv, hrest⟩
  · simp only [zigzag, hdiv, hrest]
    split_ifs <;> omega
  · simp only [zigzag, hdiv, hrest, Nat.even_add_one, ite_not]
    split_ifs <;> omega

theorem zigzag_le {len : ℕ} (hlen : 0 < len) (n : ℕ) : zigzag len n ≤ len := by
  have := Nat.mod_lt n hlen
  unfold zigzag
  split_ifs <;> omega

/-- The walk is back where it started whenever it has gone both ways equally often. -/
theorem zigzag_of_dvd {len n : ℕ} (h : 2 * len ∣ n) : zigzag len n = 0 := by
  obtain ⟨m, rfl⟩ := h
  rcases Nat.eq_zero_or_pos len with rfl | hlen
  · simp [zigzag]
  · rw [show 2 * len * m = len * (2 * m) by rw [Nat.mul_comm 2 len, Nat.mul_assoc], zigzag,
      Nat.mul_div_cancel_left _ hlen, if_pos ⟨m, Nat.two_mul m⟩, Nat.mul_mod_right]

/-- **No drift**: the steps add up to the distance in the first direction. -/
theorem sum_alternating [AddGroup α] {len : ℕ} (hlen : 0 < len) (a : α) (n : ℕ) :
    (alternating len a n).sum = zigzag len n • a := by
  induction n with
  | zero => simp [alternating, zigzag]
  | succ n ih =>
    have hstep := zigzag_succ hlen n
    rw [alternating_succ, List.sum_append, List.sum_singleton, ih, heading]
    split_ifs at hstep ⊢ with heven
    · rw [hstep, succ_nsmul]
    · rw [← hstep, succ_nsmul, add_neg_cancel_right]

end Alternation
