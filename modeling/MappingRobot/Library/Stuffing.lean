import Mathlib.InformationTheory.Coding.UniquelyDecodable
import Mathlib.Data.List.Infix
import Mathlib.Logic.Nontrivial.Basic

/-!
# Self-delimiting encodings and byte stuffing

An encoding of values as strings is **self-delimiting** when a codeword can be cut off the
front of any string that begins with one, in one way only. Sequences of values are then
recovered from the concatenation of their codewords (`SelfDelimiting.flatMap_injective`), and
no codeword is a proper prefix of another (`SelfDelimiting.eq_of_isPrefix`).

**Byte stuffing** is the encoding `stuffedFrame`: a start symbol, the body with an escape
symbol before each special symbol, and a stop symbol. The special symbol itself stays in the
body behind its escape, so delimiters do occur there, and a reader has to know which symbols
are escaped. `stuffedFrame_selfDelimiting` says the knowledge is there to be had as soon as
the stop and the escape symbol are special and differ.
-/

variable {α β : Type*}

/-! ### Self-delimiting encodings -/

/-- A codeword at the front of a string determines its value and the rest of the string. -/
def SelfDelimiting (encode : β → List α) : Prop :=
  ∀ ⦃x y : β⦄ ⦃s t : List α⦄, encode x ++ s = encode y ++ t → x = y ∧ s = t

namespace SelfDelimiting

variable {encode : β → List α} (h : SelfDelimiting encode)

include h

theorem injective : Function.Injective encode := fun x y hxy ↦
  (@h x y [] [] (by rw [hxy])).1

/-- No codeword is a proper prefix of another. -/
theorem eq_of_isPrefix {x y : β} (hxy : encode x <+: encode y) : x = y := by
  obtain ⟨s, hs⟩ := hxy
  exact (@h x y s [] (by rw [hs, List.append_nil])).1

/-- With two values to tell apart, no codeword is empty. -/
theorem ne_nil [Nontrivial β] (x : β) : encode x ≠ [] := by
  intro hx
  obtain ⟨y, hy⟩ := exists_ne x
  exact hy (@h x y (encode y) [] (by rw [hx, List.nil_append, List.append_nil])).1.symm

/-- The codewords are a uniquely decodable code. -/
theorem uniquelyDecodable [Nontrivial β] :
    InformationTheory.UniquelyDecodable (Set.range encode) := by
  intro L₁
  induction L₁ with
  | nil =>
    intro L₂ _ hL₂ hflat
    cases L₂ with
    | nil => rfl
    | cons w L₂ =>
      obtain ⟨y, rfl⟩ := hL₂ w (by simp)
      exact absurd (List.append_eq_nil_iff.1 hflat.symm).1 (h.ne_nil y)
  | cons v L₁ ih =>
    intro L₂ hL₁ hL₂ hflat
    obtain ⟨x, rfl⟩ := hL₁ v (by simp)
    cases L₂ with
    | nil => exact absurd (List.append_eq_nil_iff.1 hflat).1 (h.ne_nil x)
    | cons w L₂ =>
      obtain ⟨y, rfl⟩ := hL₂ w (by simp)
      obtain ⟨rfl, hrest⟩ := h hflat
      rw [ih L₂ (fun u hu ↦ hL₁ u (by simp [hu])) (fun u hu ↦ hL₂ u (by simp [hu])) hrest]

/-- Sequences of values are recovered from their concatenated codewords. -/
theorem flatMap_injective [Nontrivial β] :
    Function.Injective fun xs : List β ↦ xs.flatMap encode := by
  intro xs ys hxy
  have hmap : xs.map encode = ys.map encode := by
    refine h.uniquelyDecodable _ _ ?_ ?_ ?_
    · simp only [List.mem_map, Set.mem_range]
      rintro w ⟨x, -, rfl⟩
      exact ⟨x, rfl⟩
    · simp only [List.mem_map, Set.mem_range]
      rintro w ⟨y, -, rfl⟩
      exact ⟨y, rfl⟩
    · simpa only [List.flatMap_def] using hxy
  exact List.map_injective_iff.2 h.injective hmap

end SelfDelimiting

/-! ### Byte stuffing -/

section Stuffing

variable (special : α → Prop) [DecidablePred special] (escape : α)

/-- The body with `escape` put before every special symbol. -/
def stuffed (body : List α) : List α :=
  body.flatMap fun a ↦ if special a then [escape, a] else [a]

@[simp]
theorem stuffed_nil : stuffed special escape [] = [] :=
  rfl

theorem stuffed_cons (a : α) (body : List α) :
    stuffed special escape (a :: body) =
      (if special a then [escape, a] else [a]) ++ stuffed special escape body :=
  rfl

/-- A body without special symbols is sent as it is. -/
theorem stuffed_of_forall_not {body : List α} (h : ∀ a ∈ body, ¬ special a) :
    stuffed special escape body = body := by
  induction body with
  | nil => rfl
  | cons a body ih =>
    rw [stuffed_cons, if_neg (h a (by simp)), ih fun b hb ↦ h b (by simp [hb])]
    rfl

/-- Stuffing adds one symbol for each special one. -/
theorem length_stuffed (body : List α) :
    (stuffed special escape body).length = body.length + body.countP (special ·) := by
  induction body with
  | nil => rfl
  | cons a body ih =>
    rw [stuffed_cons, List.length_append, ih, List.countP_cons, List.length_cons]
    by_cases ha : special a <;> simp [ha] <;> omega

/-- Stuffing brings in no symbol but `escape`. -/
theorem eq_or_mem_of_mem_stuffed {a : α} {body : List α}
    (h : a ∈ stuffed special escape body) : a = escape ∨ a ∈ body := by
  obtain ⟨b, hb, ha⟩ := List.mem_flatMap.1 h
  split at ha
  · rcases List.mem_cons.1 ha with rfl | ha
    · exact Or.inl rfl
    · obtain rfl := List.mem_singleton.1 ha
      exact Or.inr hb
  · obtain rfl := List.mem_singleton.1 ha
    exact Or.inr hb

variable {special escape}

/-- A stuffed body followed by an unescaped stop symbol is read in one way only: the
induction is over both bodies in parallel, and at each symbol an escape decides which of
the two readings is under way. -/
theorem stuffed_append_stop_inj {stop : α} (hstop : special stop) (hesc : special escape)
    (hne : stop ≠ escape) :
    ∀ {l l' s t : List α},
      stuffed special escape l ++ stop :: s = stuffed special escape l' ++ stop :: t →
        l = l' ∧ s = t := by
  intro l
  induction l with
  | nil =>
    intro l' s t heq
    cases l' with
    | nil => exact ⟨rfl, by simpa using heq⟩
    | cons b l' =>
      rw [stuffed_cons] at heq
      by_cases hb : special b
      · simp [hb, hne] at heq
      · have hsb : stop = b := by simpa [hb] using (List.cons.inj (by simpa [hb] using heq)).1
        exact absurd (hsb ▸ hstop) hb
  | cons a l ih =>
    intro l' s t heq
    rw [stuffed_cons] at heq
    cases l' with
    | nil =>
      by_cases ha : special a
      · simp [ha, hne.symm] at heq
      · have has : a = stop := by simpa [ha] using (List.cons.inj (by simpa [ha] using heq)).1
        exact absurd (has ▸ hstop) ha
    | cons b l' =>
      rw [stuffed_cons] at heq
      by_cases ha : special a <;> by_cases hb : special b <;>
        simp only [ha, hb, if_true, if_false, List.cons_append, List.nil_append,
          List.cons.injEq] at heq
      · obtain ⟨-, rfl, hrest⟩ := heq
        obtain ⟨rfl, hst⟩ := ih hrest
        exact ⟨rfl, hst⟩
      · exact absurd (heq.1 ▸ hesc) hb
      · exact absurd (heq.1 ▸ hesc) ha
      · obtain ⟨rfl, hrest⟩ := heq
        obtain ⟨rfl, hst⟩ := ih hrest
        exact ⟨rfl, hst⟩

variable (special escape)

/-- A whole frame: start symbol, stuffed body, stop symbol. -/
def stuffedFrame (start stop : α) (body : List α) : List α :=
  start :: (stuffed special escape body ++ [stop])

theorem stuffedFrame_selfDelimiting (start : α) {stop : α} (hstop : special stop)
    (hesc : special escape) (hne : stop ≠ escape) :
    SelfDelimiting (stuffedFrame special escape start stop) := by
  intro l l' s t heq
  simp only [stuffedFrame, List.cons_append, List.append_assoc, List.cons.injEq, true_and,
    List.nil_append] at heq
  exact stuffed_append_stop_inj hstop hesc hne heq

/-! ### Reading a frame -/

/-- The reading of a stuffed body: a symbol behind an escape symbol is taken as it is. -/
def unstuffed [DecidableEq α] : List α → List α
  | [] => []
  | [a] => [a]
  | a :: b :: l => if a = escape then b :: unstuffed l else a :: unstuffed (b :: l)

variable {special}

theorem unstuffed_cons_of_ne [DecidableEq α] {a : α} (h : a ≠ escape) (l : List α) :
    unstuffed escape (a :: l) = a :: unstuffed escape l := by
  cases l with
  | nil => rfl
  | cons b l => rw [unstuffed, if_neg h]

/-- A reader who knows the escape symbol recovers the body. -/
theorem unstuffed_stuffed [DecidableEq α] (hesc : special escape) (body : List α) :
    unstuffed escape (stuffed special escape body) = body := by
  induction body with
  | nil => rfl
  | cons a body ih =>
    rw [stuffed_cons]
    split_ifs with ha
    · show unstuffed escape (escape :: a :: stuffed special escape body) = _
      rw [unstuffed, if_pos rfl, ih]
    · have hne : a ≠ escape := fun h ↦ ha (h ▸ hesc)
      show unstuffed escape (a :: stuffed special escape body) = _
      rw [unstuffed_cons_of_ne escape hne, ih]

/-- The body read from a frame. -/
def readFrame [DecidableEq α] (f : List α) : List α :=
  unstuffed escape f.tail.dropLast

theorem readFrame_stuffedFrame [DecidableEq α] (start stop : α) (hesc : special escape)
    (body : List α) :
    readFrame escape (stuffedFrame special escape start stop body) = body := by
  rw [readFrame, stuffedFrame, List.tail_cons, List.dropLast_concat,
    unstuffed_stuffed escape hesc]

end Stuffing
