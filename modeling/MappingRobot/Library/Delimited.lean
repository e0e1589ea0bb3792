import Mathlib.Data.List.DropRight
import Mathlib.Data.List.Infix

/-!
# The last-start-before-stop reading of a symbol stream

A stream over an alphabet with a start and a stop symbol carries one body for each stop
symbol that has a start symbol after the previous stop symbol: the symbols between the
**last** such start and that stop. `bodies` says so declaratively, by splitting the stream
at the stop symbols. `openBody` is what the symbols after the last stop have collected so
far.

The snoc equations (`bodies_snoc_stop`, `openBody_snoc_start`, ...) are the interface of
this reading to a machine that takes the stream symbol by symbol: a machine whose state
tracks `openBody` and which emits it at each stop symbol emits `bodies`.

`openBody_eq_some_iff` reads an open body off the stream itself, and `OpenBounded` and
`FramesBounded` state two bounds on the symbols after a start: on every open body, and on
the bodies that a later start or stop ends.
-/

namespace Delimited

variable {α : Type*} [DecidableEq α]

/-- The symbols after the last `a`, when there is one. -/
def afterLast (a : α) (l : List α) : Option (List α) :=
  if a ∈ l then some (l.rtakeWhile (· ≠ a)) else none

variable (start stop : α)

/-- What has been collected of a body that no stop symbol has ended yet. -/
def openBody (stream : List α) : Option (List α) :=
  afterLast start ((stream.splitOn stop).getLast (List.splitOn_ne_nil stop stream))

/-- The bodies of a stream, in order: one for each stop symbol with a start symbol after the
previous stop symbol. -/
def bodies (stream : List α) : List (List α) :=
  (stream.splitOn stop).dropLast.filterMap (afterLast start)

/-! ### Symbol by symbol -/

@[simp]
theorem afterLast_nil (a : α) : afterLast a [] = none := by
  simp [afterLast]

theorem afterLast_snoc_self (a : α) (l : List α) : afterLast a (l ++ [a]) = some [] := by
  simp [afterLast, List.rtakeWhile_concat_neg]

theorem afterLast_snoc_of_ne {a b : α} (h : b ≠ a) (l : List α) :
    afterLast a (l ++ [b]) = (afterLast a l).map (· ++ [b]) := by
  have hmem : a ∈ l ++ [b] ↔ a ∈ l := by simp [h.symm]
  by_cases ha : a ∈ l
  · simp [afterLast, ha, List.rtakeWhile_concat_pos, h]
  · simp [afterLast, ha, hmem]

/-- Splitting a stream extended by an ordinary symbol extends the last piece. -/
theorem splitOn_snoc_of_ne {b : α} (h : b ≠ stop) (l : List α) :
    (l ++ [b]).splitOn stop = (l.splitOn stop).dropLast ++
      [(l.splitOn stop).getLast (List.splitOn_ne_nil stop l) ++ [b]] := by
  by_cases hl : stop ∈ l.reverse
  · obtain ⟨r, p, hrp, hr⟩ := List.eq_append_cons_of_mem hl
    obtain rfl : l = p.reverse ++ stop :: r.reverse := by
      rw [← l.reverse_reverse, hrp]; simp
    have hr' : stop ∉ r.reverse := by simpa using hr
    have hb : stop ∉ r.reverse ++ [b] := by simp [hr, h.symm]
    simp only [List.append_assoc, List.cons_append]
    rw [List.splitOn_append_cons_self]
    simp [List.splitOn_append_cons_self, List.splitOn_eq_singleton hr',
      List.splitOn_eq_singleton hb]
  · have hl' : stop ∉ l := by simpa using hl
    have hb : stop ∉ l ++ [b] := by simp [hl', h.symm]
    simp [List.splitOn_eq_singleton hl', List.splitOn_eq_singleton hb]

@[simp]
theorem bodies_nil : bodies start stop [] = [] := by
  simp [bodies]

@[simp]
theorem openBody_nil : openBody start stop [] = none := by
  simp [openBody]

theorem bodies_snoc_stop (l : List α) :
    bodies start stop (l ++ [stop]) = bodies start stop l ++ (openBody start stop l).toList := by
  obtain ⟨segs, seg, hseg⟩ : ∃ segs seg, l.splitOn stop = segs ++ [seg] :=
    ⟨_, _, (List.dropLast_append_getLast (List.splitOn_ne_nil stop l)).symm⟩
  have hsplit : (l ++ [stop]).splitOn stop = (segs ++ [seg]) ++ [[]] := by
    rw [List.splitOn_append_cons_self, hseg]; simp
  rw [bodies, hsplit, List.dropLast_concat, List.filterMap_append]
  simp only [bodies, openBody, hseg, List.dropLast_concat, List.getLast_append_singleton]
  cases hafter : afterLast start seg <;> simp [hafter]

theorem openBody_snoc_stop (l : List α) : openBody start stop (l ++ [stop]) = none := by
  have hsplit : (l ++ [stop]).splitOn stop = l.splitOn stop ++ [[]] := by
    rw [List.splitOn_append_cons_self]; simp
  simp [openBody, hsplit]

variable {start stop}

theorem bodies_snoc_of_ne {b : α} (h : b ≠ stop) (l : List α) :
    bodies start stop (l ++ [b]) = bodies start stop l := by
  rw [bodies, splitOn_snoc_of_ne stop h, List.dropLast_concat, bodies]

theorem openBody_snoc_start (h : start ≠ stop) (l : List α) :
    openBody start stop (l ++ [start]) = some [] := by
  simp only [openBody, splitOn_snoc_of_ne stop h, List.getLast_append_singleton]
  exact afterLast_snoc_self _ _

theorem openBody_snoc_of_ne {b : α} (h : b ≠ start) (h' : b ≠ stop) (l : List α) :
    openBody start stop (l ++ [b]) = (openBody start stop l).map (· ++ [b]) := by
  simp only [openBody, splitOn_snoc_of_ne stop h', List.getLast_append_singleton]
  exact afterLast_snoc_of_ne h _

/-! ### Reading an open body off the stream -/

omit [DecidableEq α] in
/-- Where the last symbol of `pre ++ a :: body` stands: it is `a`, or it ends `body`. -/
private theorem snoc_eq_append_cons {l pre body : List α} {a b : α}
    (h : l ++ [b] = pre ++ a :: body) :
    (body = [] ∧ b = a) ∨ ∃ body', body = body' ++ [b] ∧ l = pre ++ a :: body' := by
  rcases List.eq_nil_or_concat' body with rfl | ⟨body', c, rfl⟩
  · exact Or.inl ⟨rfl, by simpa using (List.append_inj' h rfl).2⟩
  · rw [← List.cons_append, ← List.append_assoc] at h
    obtain ⟨hl, hbc⟩ := List.append_inj' h rfl
    obtain rfl : b = c := by simpa using hbc
    exact Or.inr ⟨body', rfl, hl⟩

/-- A stream is collecting `body` exactly when its last start symbol is followed by `body`
and no delimiter. -/
theorem openBody_eq_some_iff (h : start ≠ stop) {stream body : List α} :
    openBody start stop stream = some body ↔
      (∃ pre, stream = pre ++ start :: body) ∧ ∀ a ∈ body, a ≠ start ∧ a ≠ stop := by
  induction stream using List.reverseRecOn generalizing body with
  | nil => simp
  | append_singleton l b ih =>
    rcases eq_or_ne b stop with rfl | hstop
    · rw [openBody_snoc_stop]
      refine ⟨fun hnone ↦ by simp at hnone, ?_⟩
      rintro ⟨⟨pre, hpre⟩, hbody⟩
      rcases snoc_eq_append_cons hpre with ⟨-, hb⟩ | ⟨body', rfl, -⟩
      · exact absurd hb h.symm
      · exact absurd rfl (hbody b (by simp)).2
    rcases eq_or_ne b start with rfl | hstart
    · rw [openBody_snoc_start h]
      constructor
      · rintro ⟨⟩
        exact ⟨⟨l, rfl⟩, by simp⟩
      · rintro ⟨⟨pre, hpre⟩, hbody⟩
        rcases snoc_eq_append_cons hpre with ⟨rfl, -⟩ | ⟨body', rfl, -⟩
        · rfl
        · exact absurd rfl (hbody b (by simp)).1
    · rw [openBody_snoc_of_ne hstart hstop]
      constructor
      · intro hmap
        obtain ⟨body', hbody', rfl⟩ := Option.map_eq_some_iff.1 hmap
        obtain ⟨⟨pre, rfl⟩, hfree⟩ := ih.1 hbody'
        refine ⟨⟨pre, by simp⟩, fun a ha ↦ ?_⟩
        rcases List.mem_append.1 ha with ha | ha
        · exact hfree a ha
        · obtain rfl := List.mem_singleton.1 ha
          exact ⟨hstart, hstop⟩
      · rintro ⟨⟨pre, hpre⟩, hbody⟩
        rcases snoc_eq_append_cons hpre with ⟨-, hb⟩ | ⟨body', rfl, rfl⟩
        · exact absurd hb hstart
        · rw [ih.2 ⟨⟨pre, rfl⟩, fun a ha ↦ hbody a (by simp [ha])⟩]
          rfl

theorem openBody_start_append (h : start ≠ stop) (pre : List α) {body : List α}
    (hbody : ∀ a ∈ body, a ≠ start ∧ a ≠ stop) :
    openBody start stop (pre ++ start :: body) = some body :=
  (openBody_eq_some_iff h).2 ⟨⟨pre, rfl⟩, hbody⟩

/-- Collecting a body without delimiters emits nothing. -/
theorem bodies_start_append (h : start ≠ stop) (pre : List α) {body : List α}
    (hbody : ∀ a ∈ body, a ≠ start ∧ a ≠ stop) :
    bodies start stop (pre ++ start :: body) = bodies start stop pre := by
  induction body using List.reverseRecOn with
  | nil => exact bodies_snoc_of_ne h pre
  | append_singleton body b ih =>
    rw [← List.cons_append, ← List.append_assoc, bodies_snoc_of_ne (hbody b (by simp)).2,
      ih fun a ha ↦ hbody a (by simp [ha])]

/-- A well-formed frame contributes its body whatever stands before it, and nothing of it
stays open: the reading resynchronises at every start symbol. -/
theorem bodies_frame (h : start ≠ stop) (pre : List α) {body : List α}
    (hbody : ∀ a ∈ body, a ≠ start ∧ a ≠ stop) :
    bodies start stop (pre ++ start :: (body ++ [stop])) = bodies start stop pre ++ [body] := by
  rw [← List.cons_append, ← List.append_assoc, bodies_snoc_stop, bodies_start_append h pre hbody,
    openBody_start_append h pre hbody, Option.toList_some]

/-- Well-formed frames after any prefix contribute their bodies in order. -/
theorem bodies_append_frames (h : start ≠ stop) (pre : List α) {frames : List (List α)}
    (hframes : ∀ body ∈ frames, ∀ a ∈ body, a ≠ start ∧ a ≠ stop) :
    bodies start stop (pre ++ frames.flatMap fun body ↦ start :: (body ++ [stop])) =
      bodies start stop pre ++ frames := by
  induction frames generalizing pre with
  | nil => simp
  | cons body frames ih =>
    rw [List.flatMap_cons, ← List.append_assoc, ih _ fun b hb ↦ hframes b (by simp [hb]),
      bodies_frame h pre (hframes body (by simp)), List.append_assoc, List.singleton_append]

/-- The reading is monotone: what a prefix has emitted is never taken back. -/
theorem bodies_mono {l l' : List α} (h : l <+: l') :
    bodies start stop l <+: bodies start stop l' := by
  obtain ⟨r, rfl⟩ := h
  induction r using List.reverseRecOn with
  | nil => simp
  | append_singleton r b ih =>
    rw [← List.append_assoc]
    refine ih.trans ?_
    rcases eq_or_ne b stop with rfl | hb
    · rw [bodies_snoc_stop]
      exact List.prefix_append _ _
    · rw [bodies_snoc_of_ne hb]

/-- No emitted body contains a delimiter. -/
theorem not_delimiter_of_mem_bodies (h : start ≠ stop) {stream body : List α}
    (hbody : body ∈ bodies start stop stream) : ∀ a ∈ body, a ≠ start ∧ a ≠ stop := by
  induction stream using List.reverseRecOn with
  | nil => simp at hbody
  | append_singleton l b ih =>
    rcases eq_or_ne b stop with rfl | hb
    · rw [bodies_snoc_stop, List.mem_append, Option.mem_toList] at hbody
      rcases hbody with hbody | hbody
      · exact ih hbody
      · exact ((openBody_eq_some_iff h).1 hbody).2
    · rw [bodies_snoc_of_ne hb] at hbody
      exact ih hbody

/-! ### Dropping ordinary symbols -/

/-- Dropping symbols that are no delimiters drops them from what is being collected. -/
theorem openBody_filter (h : start ≠ stop) {p : α → Bool} (hstart : p start) (hstop : p stop)
    (l : List α) :
    openBody start stop (l.filter p) = (openBody start stop l).map (List.filter p) := by
  induction l using List.reverseRecOn with
  | nil => simp
  | append_singleton l b ih =>
    rw [List.filter_append]
    rcases eq_or_ne b stop with rfl | hb
    · simp [hstop, openBody_snoc_stop]
    rcases eq_or_ne b start with rfl | hb'
    · simp [hstart, openBody_snoc_start h]
    rw [openBody_snoc_of_ne hb' hb, Option.map_map]
    cases hp : p b
    · simp only [List.filter_cons, hp, List.filter_nil, List.append_nil, ih, Bool.false_eq_true,
        if_false]
      cases openBody start stop l <;> simp [hp]
    · simp only [List.filter_cons, hp, List.filter_nil, if_true, openBody_snoc_of_ne hb' hb, ih]
      cases openBody start stop l <;> simp [hp]

/-- Dropping symbols that are no delimiters drops them from the emitted bodies. -/
theorem bodies_filter (h : start ≠ stop) {p : α → Bool} (hstart : p start) (hstop : p stop)
    (l : List α) :
    bodies start stop (l.filter p) = (bodies start stop l).map (List.filter p) := by
  induction l using List.reverseRecOn with
  | nil => simp
  | append_singleton l b ih =>
    rw [List.filter_append]
    rcases eq_or_ne b stop with rfl | hb
    · have hfilter : [b].filter p = [b] := by simp [hstop]
      rw [hfilter, bodies_snoc_stop, bodies_snoc_stop, List.map_append, ih,
        openBody_filter h hstart hstop]
      cases openBody start b l <;> rfl
    · rw [bodies_snoc_of_ne hb, ← ih]
      cases hp : p b
      · simp [hp]
      · simp [hp, bodies_snoc_of_ne hb]

/-! ### Bounded frames -/

variable (start stop) in
/-- After every start symbol at most `n` symbols that are no delimiters follow. -/
def OpenBounded (n : ℕ) (stream : List α) : Prop :=
  ∀ pre body post, stream = pre ++ start :: (body ++ post) →
    (∀ a ∈ body, a ≠ start ∧ a ≠ stop) → body.length ≤ n

variable (start stop) in
/-- Between a start symbol and the next start or stop symbol at most `n` symbols lie. -/
def FramesBounded (n : ℕ) (stream : List α) : Prop :=
  ∀ pre body d post, stream = pre ++ start :: (body ++ d :: post) →
    (∀ a ∈ body, a ≠ start ∧ a ≠ stop) → d = start ∨ d = stop → body.length ≤ n

/-- The bound on open bodies, in terms of the prefixes of the stream. -/
theorem openBounded_iff (h : start ≠ stop) {n : ℕ} {stream : List α} :
    OpenBounded start stop n stream ↔
      ∀ pre body, pre <+: stream → openBody start stop pre = some body → body.length ≤ n := by
  constructor
  · rintro hbound pre body ⟨post, rfl⟩ hbody
    obtain ⟨⟨pre, rfl⟩, hfree⟩ := (openBody_eq_some_iff h).1 hbody
    exact hbound pre body post (by simp) hfree
  · rintro hbound pre body post rfl hfree
    exact hbound (pre ++ start :: body) body ⟨post, by simp⟩ (openBody_start_append h pre hfree)

/-- The bound on ended bodies, in terms of the prefixes of the stream. -/
theorem framesBounded_iff (h : start ≠ stop) {n : ℕ} {stream : List α} :
    FramesBounded start stop n stream ↔
      ∀ pre body d, pre ++ [d] <+: stream → d = start ∨ d = stop →
        openBody start stop pre = some body → body.length ≤ n := by
  constructor
  · rintro hbound pre body d ⟨post, rfl⟩ hd hbody
    obtain ⟨⟨pre, rfl⟩, hfree⟩ := (openBody_eq_some_iff h).1 hbody
    exact hbound pre body d post (by simp) hfree hd
  · rintro hbound pre body d post rfl hfree hd
    exact hbound (pre ++ start :: body) body d ⟨post, by simp⟩ hd
      (openBody_start_append h pre hfree)

omit [DecidableEq α] in
theorem OpenBounded.framesBounded {n : ℕ} {stream : List α} (h : OpenBounded start stop n stream) :
    FramesBounded start stop n stream := fun pre body d post hs hfree _ ↦
  h pre body (d :: post) hs hfree

omit [DecidableEq α] in
theorem OpenBounded.mono {n : ℕ} {stream stream' : List α}
    (h : OpenBounded start stop n stream') (hpre : stream <+: stream') :
    OpenBounded start stop n stream := by
  obtain ⟨r, rfl⟩ := hpre
  rintro pre body post rfl hfree
  exact h pre body (post ++ r) (by simp) hfree

omit [DecidableEq α] in
theorem FramesBounded.mono {n : ℕ} {stream stream' : List α}
    (h : FramesBounded start stop n stream') (hpre : stream <+: stream') :
    FramesBounded start stop n stream := by
  obtain ⟨r, rfl⟩ := hpre
  rintro pre body d post rfl hfree hd
  exact h pre body d (post ++ r) (by simp) hfree hd

/-- A frame whose body is within the bound keeps it. -/
theorem OpenBounded.append_frame (h : start ≠ stop) {n : ℕ} {stream body : List α}
    (hbound : OpenBounded start stop n stream) (hbody : ∀ a ∈ body, a ≠ start ∧ a ≠ stop)
    (hlen : body.length ≤ n) : OpenBounded start stop n (stream ++ start :: (body ++ [stop])) := by
  rw [openBounded_iff h] at hbound ⊢
  intro pre found hpre hfound
  rw [← List.cons_append, ← List.append_assoc, List.prefix_concat_iff] at hpre
  rcases hpre with rfl | hpre
  · rw [openBody_snoc_stop] at hfound
    cases hfound
  induction body using List.reverseRecOn with
  | nil =>
    rcases List.prefix_concat_iff.1 hpre with rfl | hpre
    · rw [openBody_snoc_start h, Option.some_inj] at hfound
      exact hfound ▸ Nat.zero_le n
    · exact hbound pre found hpre hfound
  | append_singleton body b ih =>
    rw [← List.cons_append, ← List.append_assoc, List.prefix_concat_iff] at hpre
    rcases hpre with rfl | hpre
    · rw [List.append_assoc, List.cons_append, openBody_start_append h _ hbody,
        Option.some_inj] at hfound
      exact hfound ▸ hlen
    · exact ih (fun a ha ↦ hbody a (by simp [ha])) ((by simp : body.length ≤ _).trans hlen) hpre

/-- Leaving out symbols other than the delimiters keeps the bound. -/
theorem OpenBounded.filter (h : start ≠ stop) {n : ℕ} {stream : List α} {p : α → Bool}
    (hstart : p start) (hstop : p stop) (hbound : OpenBounded start stop n stream) :
    OpenBounded start stop n (stream.filter p) := by
  refine (openBounded_iff h).2 fun pre body hpre hbody ↦ ?_
  obtain ⟨post, hpost⟩ := hpre
  obtain ⟨pre', post', rfl, rfl, -⟩ := List.filter_eq_append_iff.1 hpost.symm
  rw [openBody_filter h hstart hstop, Option.map_eq_some_iff] at hbody
  obtain ⟨body', hbody', rfl⟩ := hbody
  exact (List.length_filter_le _ _).trans
    ((openBounded_iff h).1 hbound pre' body' (List.prefix_append _ _) hbody')

end Delimited
