import MappingRobot.Library.Observation
import MappingRobot.Library.Run
import MappingRobot.PacketBuffer

/-!
# Pushing a block of bytes

`push` of `packet_buffer.c` puts a block of bytes into the buffer at once. It leaves `myEnd` at the
index of the last byte it has stored, and `pushChar` at the index after that: so what comes next
overwrites that byte. For an empty block there is no such index, and `push` stores the value of a
variable that it has never set.

`pushAgrees_iff` draws the conclusion: `push` agrees with a sequence of `pushChar` on no block that
there is room for. The experiments that show it are one `mRead`, or one more `pushChar` and an
`mRead`.
-/

namespace MappingRobot

open Observation LabelledRun

namespace PacketBuffer

/-! ### The source -/

/-- `a[index] = c` in `myBuf`. -/
def storeBuf (pb : PacketBuffer) (index : ℤ) (c : Byte) : Option PacketBuffer :=
  if h : 0 ≤ index ∧ index < bufSize then
    some { pb with myBuf := pb.myBuf.set index.toNat c (by omega) }
  else
    none

/-- The loop of `push` from `i` on, with `n` rounds to go. `index` has no value before the first
round. -/
def pushLoop (inBuf : List Byte) :
    ℕ → ℤ → Option ℤ → PacketBuffer → Option (Option ℤ × PacketBuffer)
  | 0, _, index, pb => some (index, pb)
  | n + 1, i, _, pb => do
    let index := (pb.myEnd + i).tmod bufSize
    let c ← loadAt inBuf i
    let pb ← pb.storeBuf index c
    pushLoop inBuf n (i + 1) (some index) pb

/-- `push`: append `len` bytes and return TRUE, or return FALSE. -/
def push (pb : PacketBuffer) (inBuf : List Byte) (len : ℤ) : Option (Bool × PacketBuffer) :=
  if pb.myLen + len > bufSize then
    some (false, pb)
  else do
    let (index, pb) ← pushLoop inBuf len.toNat 0 none pb
    let index ← index
    some (true, { pb with myEnd := index, myLen := pb.myLen + len })

/-! ### The buffer as its user sees it -/

/-- A call of the buffer's functions. -/
inductive Call
  | push (inBuf : List Byte) (len : ℤ)
  | pushChar (c : Byte)
  | mRead (outBuf : List Byte)
  | clear

/-- What a call hands back. -/
inductive Result
  /-- TRUE or FALSE. -/
  | status (ok : Bool)
  /-- A length, and what is then in `outBuf`. -/
  | read (len : ℤ) (outBuf : List Byte)
  | cleared

/-- Carry a call out. -/
def call (pb : PacketBuffer) : Call → Option (Result × PacketBuffer)
  | .push inBuf len => (pb.push inBuf len).map fun r ↦ (.status r.1, r.2)
  | .pushChar c => (pb.pushChar c).map fun r ↦ (.status r.1, r.2)
  | .mRead outBuf => (pb.mRead outBuf).map fun r ↦ (.read r.1 r.2, pb)
  | .clear => some (.cleared, pb.clear)

/-- The buffer has come about from `init` by calls. -/
def Reachable (pb : PacketBuffer) : Prop :=
  ∃ calls, Run (fun pb c pb' ↦ ∃ r, call pb c = some (r, pb')) init calls pb

/-- Push a block byte by byte, whatever `pushChar` returns. -/
def pushChars (pb : PacketBuffer) (inBuf : List Byte) : Option PacketBuffer :=
  inBuf.foldlM (fun pb c ↦ (pb.pushChar c).map Prod.snd) pb

/-- `push` does what it should with a block: it returns TRUE and nobody can tell the buffer from
the one after pushing byte by byte, or there is no room, and it returns FALSE and leaves the
buffer alone. -/
def PushAgrees (pb : PacketBuffer) (inBuf : List Byte) : Prop :=
  if pb.myLen + inBuf.length ≤ bufSize then
    ∃ pb₁ pb₂, pb.push inBuf inBuf.length = some (true, pb₁) ∧ pb.pushChars inBuf = some pb₂ ∧
      Indistinguishable call pb₁ pb₂
  else
    pb.push inBuf inBuf.length = some (false, pb)

/-! ### What `push` leaves behind -/

/-- Everything but the array. -/
structure SameFields (pb pb' : PacketBuffer) : Prop where
  myStart : pb'.myStart = pb.myStart
  myEnd : pb'.myEnd = pb.myEnd
  myLen : pb'.myLen = pb.myLen

theorem storeBuf_fields {pb pb' : PacketBuffer} {index : ℤ} {c : Byte}
    (h : pb.storeBuf index c = some pb') : pb.SameFields pb' := by
  unfold storeBuf at h
  split_ifs at h
  obtain rfl := Option.some.inj h
  exact ⟨rfl, rfl, rfl⟩

theorem pushLoop_fields {inBuf : List Byte} {n : ℕ} {i : ℤ} {index index' : Option ℤ}
    {pb pb' : PacketBuffer} (h : pushLoop inBuf n i index pb = some (index', pb')) :
    pb.SameFields pb' ∧
      index' = if n = 0 then index else some ((pb.myEnd + i + n - 1).tmod bufSize) := by
  induction n generalizing i index pb with
  | zero =>
    obtain ⟨rfl, rfl⟩ : index = index' ∧ pb = pb' := by simpa [pushLoop] using h
    exact ⟨⟨rfl, rfl, rfl⟩, rfl⟩
  | succ n ih =>
    obtain ⟨c, -, h⟩ := Option.bind_eq_some_iff.1 h
    obtain ⟨pb₁, hstore, h⟩ := Option.bind_eq_some_iff.1 h
    obtain ⟨hstart, hend, hlen⟩ := storeBuf_fields hstore
    obtain ⟨⟨hstart', hend', hlen'⟩, hindex⟩ := ih h
    refine ⟨⟨hstart'.trans hstart, hend'.trans hend, hlen'.trans hlen⟩, ?_⟩
    have hlast : pb.myEnd + i + (n + 1 : ℕ) - 1 = pb.myEnd + i + n := by omega
    rw [hindex, hend, if_neg (Nat.succ_ne_zero n), hlast]
    split_ifs with hn
    · rw [hn, Nat.cast_zero, add_zero]
    · rw [show pb.myEnd + (i + 1) + n - 1 = pb.myEnd + i + n by omega]

/-- A block that `push` takes is not empty, and `myEnd` is left at the index of its last byte. -/
theorem push_taken {pb pb' : PacketBuffer} {inBuf : List Byte} {len : ℤ}
    (h : pb.push inBuf len = some (true, pb')) :
    0 < len ∧ pb'.myStart = pb.myStart ∧ pb'.myEnd = (pb.myEnd + len - 1).tmod bufSize ∧
      pb'.myLen = pb.myLen + len := by
  unfold push at h
  split_ifs at h with hroom
  · simp at h
  · obtain ⟨⟨index, pb₁⟩, hloop, h⟩ := Option.bind_eq_some_iff.1 h
    obtain ⟨last, hlast, h⟩ := Option.bind_eq_some_iff.1 h
    obtain rfl : { pb₁ with myEnd := last, myLen := pb₁.myLen + len } = pb' := by simpa using h
    obtain ⟨⟨hstart, -, hlen⟩, hindex⟩ := pushLoop_fields hloop
    obtain rfl : index = some last := hlast
    split_ifs at hindex with hn
    have hpos : 0 < len := by omega
    have hlast : last = (pb.myEnd + 0 + len.toNat - 1).tmod bufSize := Option.some.inj hindex
    rw [Int.toNat_of_nonneg hpos.le, add_zero] at hlast
    exact ⟨hpos, hstart, hlast, by rw [← hlen]⟩

/-- Without room, `push` returns FALSE and leaves the buffer alone. -/
theorem push_refused {pb : PacketBuffer} {inBuf : List Byte} {len : ℤ}
    (h : bufSize < pb.myLen + len) : pb.push inBuf len = some (false, pb) := by
  rw [push, if_pos h]

/-! ### The states that come about -/

/-- The bookkeeping of every buffer that comes about: nothing ever moves `myStart`. -/
structure FromStart (pb : PacketBuffer) : Prop where
  start_eq : pb.myStart = 0
  end_nonneg : 0 ≤ pb.myEnd
  end_le_len : pb.myEnd ≤ pb.myLen
  end_le : pb.myEnd ≤ bufSize

theorem fromStart_init : init.FromStart :=
  ⟨rfl, le_refl _, le_refl _, by decide⟩

theorem FromStart.pushChar {pb pb' : PacketBuffer} {c : Byte} {ok : Bool} (h : pb.FromStart)
    (hpush : pb.pushChar c = some (ok, pb')) : pb'.FromStart := by
  obtain ⟨hstart, hend, hlen, hle⟩ := h
  unfold PacketBuffer.pushChar at hpush
  split_ifs at hpush with hfull hroom
  · obtain rfl : pb = pb' := by simpa using congrArg (Option.map Prod.snd) hpush
    exact ⟨hstart, hend, hlen, hle⟩
  · obtain rfl := (Prod.mk.inj (Option.some.inj hpush)).2
    exact ⟨hstart, by show 0 ≤ pb.myEnd + 1; omega,
      by show pb.myEnd + 1 ≤ pb.myLen + 1; omega, by show pb.myEnd + 1 ≤ (bufSize : ℤ); omega⟩

theorem FromStart.push {pb pb' : PacketBuffer} {inBuf : List Byte} {len : ℤ} {ok : Bool}
    (h : pb.FromStart) (hpush : pb.push inBuf len = some (ok, pb')) : pb'.FromStart := by
  obtain ⟨hstart, hend, hlen, hle⟩ := h
  cases ok with
  | false =>
    unfold PacketBuffer.push at hpush
    split_ifs at hpush
    · obtain rfl : pb = pb' := by simpa using congrArg (Option.map Prod.snd) hpush
      exact ⟨hstart, hend, hlen, hle⟩
    · simp [Option.bind_eq_some_iff] at hpush
  | true =>
    obtain ⟨hpos, hstart', hend', hlen'⟩ := push_taken hpush
    have hnum : 0 ≤ pb.myEnd + len - 1 := by omega
    have hsize : (bufSize : ℤ) = 256 := rfl
    rw [Int.tmod_eq_emod_of_nonneg hnum, hsize] at hend'
    exact ⟨hstart'.trans hstart, by omega, by omega, by omega⟩

theorem Reachable.fromStart {pb : PacketBuffer} (h : Reachable pb) : pb.FromStart := by
  obtain ⟨calls, hrun⟩ := h
  refine hrun.invariant fromStart_init fun pb c pb' hpb ⟨r, hcall⟩ ↦ ?_
  cases c with
  | push inBuf len =>
    obtain ⟨⟨ok, pb₁⟩, hpush, heq⟩ := Option.map_eq_some_iff.1 hcall
    obtain rfl := (Prod.mk.inj heq).2
    exact hpb.push hpush
  | pushChar c =>
    obtain ⟨⟨ok, pb₁⟩, hpush, heq⟩ := Option.map_eq_some_iff.1 hcall
    obtain rfl := (Prod.mk.inj heq).2
    exact hpb.pushChar hpush
  | mRead outBuf =>
    obtain ⟨r, hread, heq⟩ := Option.map_eq_some_iff.1 hcall
    obtain rfl := (Prod.mk.inj heq).2
    exact hpb
  | clear =>
    obtain rfl := (Prod.mk.inj (Option.some.inj hcall)).2
    exact ⟨rfl, le_refl _, le_refl _, by show (0 : ℤ) ≤ (bufSize : ℤ); decide⟩

/-! ### Telling the two apart -/

/-- The loop of `mRead` from the start of the array: every byte it copies is the one at its own
index, modulo `BUF_SIZE`. -/
theorem mReadLoop_getElem {pb : PacketBuffer} (hstart : pb.myStart = 0) (n i : ℕ)
    (outBuf : List Byte) (hout : i + n ≤ outBuf.length) :
    ∃ out, pb.mReadLoop outBuf i n = some out ∧
      ∀ j, out[j]? =
        if i ≤ j ∧ j < i + n then pb.myBuf.toList[j % bufSize]? else outBuf[j]? := by
  induction n generalizing i outBuf with
  | zero => exact ⟨outBuf, rfl, fun j ↦ by rw [if_neg (by omega)]⟩
  | succ n ih =>
    have hindex : (pb.myStart + (i : ℤ)).tmod bufSize = (i % bufSize : ℕ) := by
      rw [hstart, zero_add, Int.tmod_eq_emod_of_nonneg (by omega)]
      rfl
    have hlt : i % bufSize < pb.myBuf.toList.length := by
      rw [Vector.length_toList]
      exact Nat.mod_lt _ (by decide)
    have hstore : storeAt outBuf (i : ℤ) pb.myBuf.toList[i % bufSize] =
        some (outBuf.set i pb.myBuf.toList[i % bufSize]) := by
      rw [storeAt, if_pos ⟨by omega, by omega⟩, Int.toNat_natCast]
    obtain ⟨out, hloop, hget⟩ := ih (i + 1) (outBuf.set i pb.myBuf.toList[i % bufSize])
      (by rw [List.length_set]; omega)
    refine ⟨out, ?_, fun j ↦ ?_⟩
    · rw [PacketBuffer.mReadLoop]
      simp only [hindex, loadAt_of_lt hlt, hstore, Option.bind_eq_bind, Option.bind_some]
      exact hloop
    · rw [hget j, List.getElem?_set]
      by_cases hij : i = j
      · subst hij
        rw [if_neg (by omega), if_pos rfl, if_pos (by omega), if_pos (by omega),
          List.getElem?_eq_getElem hlt]
      · rw [if_neg hij]
        split_ifs with hin hin' hin'
        · rfl
        · omega
        · omega
        · rfl

theorem call_pushChar {pb pb' : PacketBuffer} {c : Byte} {ok : Bool}
    (h : pb.pushChar c = some (ok, pb')) : pb.call (.pushChar c) = some (.status ok, pb') := by
  rw [call, h, Option.map_some]

/-- Indistinguishable buffers have the same length, and the same bytes at every index below it. -/
theorem readback {pb pb' : PacketBuffer} (h : Indistinguishable call pb pb')
    (hstart : pb.myStart = 0) (hstart' : pb'.myStart = 0) :
    pb.myLen = pb'.myLen ∧
      ∀ j < pb.myLen.toNat, pb.myBuf.toList[j % bufSize]? = pb'.myBuf.toList[j % bufSize]? := by
  let room := pb.myLen.toNat + pb'.myLen.toNat
  have hroom : (List.replicate room (0 : Byte)).length = room := List.length_replicate
  obtain ⟨out, hloop, hout⟩ := mReadLoop_getElem hstart pb.myLen.toNat 0
    (List.replicate room 0) (by omega)
  obtain ⟨out', hloop', hout'⟩ := mReadLoop_getElem hstart' pb'.myLen.toNat 0
    (List.replicate room 0) (by omega)
  have hread : pb.call (.mRead (List.replicate room 0)) = some (.read pb.myLen out, pb) := by
    show (pb.mRead _).map _ = _
    rw [PacketBuffer.mRead, show (0 : ℤ) = (0 : ℕ) from rfl, hloop]
    rfl
  have hread' : pb'.call (.mRead (List.replicate room 0)) =
      some (.read pb'.myLen out', pb') := by
    show (pb'.mRead _).map _ = _
    rw [PacketBuffer.mRead, show (0 : ℤ) = (0 : ℕ) from rfl, hloop']
    rfl
  obtain ⟨_, hsame, -⟩ := h.step hread
  obtain ⟨hlen, rfl⟩ : pb'.myLen = pb.myLen ∧ out' = out := by
    rw [hread'] at hsame
    simpa using congrArg (Option.map Prod.fst) hsame
  refine ⟨hlen.symm, fun j hj ↦ ?_⟩
  have hget := hout j
  rw [hout' j, hlen, if_pos (by omega), if_pos (by omega)] at hget
  exact hget.symm

/-- Once `pushChar` refuses, it refuses every byte. -/
theorem pushChars_of_refused {pb : PacketBuffer}
    (h : pb.myStart = pb.myEnd ∧ pb.myLen > 0) (inBuf : List Byte) :
    pb.pushChars inBuf = some pb := by
  induction inBuf with
  | nil => rfl
  | cons c inBuf ih =>
    rw [pushChars, List.foldlM_cons, pushChar, if_pos h]
    exact ih

/-- A `pushChar` that stores its byte. -/
theorem pushChar_of_room {pb : PacketBuffer} (hstart : pb.myStart = 0)
    (hopen : pb.myEnd ≠ 0 ∨ pb.myLen ≤ 0) {e : ℕ} (hend : pb.myEnd = e) (he : e < bufSize)
    (c : Byte) :
    pb.pushChar c = some (true, { pb with
      myBuf := pb.myBuf.set e c
      myEnd := pb.myEnd + 1
      myLen := pb.myLen + 1 }) := by
  have hnat : pb.myEnd.toNat = e := by omega
  rw [pushChar, if_neg (by omega), dif_pos (by omega)]
  simp only [hnat]

/-- Pushing byte by byte, while there is room, leaves `myEnd` one past the last byte. -/
theorem pushChars_of_room (pb : PacketBuffer) (inBuf : List Byte) (c : Byte) {e : ℕ}
    (hstart : pb.myStart = 0) (hend : pb.myEnd = e) (hopen : e ≠ 0 ∨ pb.myLen = 0)
    (hlen : 0 ≤ pb.myLen) (hroom : e + inBuf.length < bufSize) :
    ∃ pb', pb.pushChars (inBuf ++ [c]) = some pb' ∧ pb'.myStart = 0 ∧
      pb'.myEnd = (e + inBuf.length + 1 : ℕ) ∧
      pb'.myLen = pb.myLen + (inBuf ++ [c]).length ∧
      pb'.myBuf.toList[e + inBuf.length]? = some c := by
  induction inBuf generalizing pb e with
  | nil =>
    rw [List.length_nil, add_zero] at hroom
    have hpush := pushChar_of_room hstart (by omega) hend hroom c
    have hstored : (pb.myBuf.set e c).toList[e]? = some c := by simp [hroom]
    refine ⟨{ pb with
      myBuf := pb.myBuf.set e c
      myEnd := pb.myEnd + 1
      myLen := pb.myLen + 1 }, ?_, hstart, ?_, rfl, hstored⟩
    · rw [pushChars, List.nil_append, List.foldlM_cons, hpush]
      rfl
    · show pb.myEnd + 1 = _
      rw [List.length_nil]
      omega
  | cons d inBuf ih =>
    rw [List.length_cons] at hroom
    have hpush := pushChar_of_room hstart (by omega) hend (by omega) d
    obtain ⟨pb', hpushes, hstart', hend', hlen', hlast⟩ := ih { pb with
      myBuf := pb.myBuf.set e d
      myEnd := pb.myEnd + 1
      myLen := pb.myLen + 1 } (e := e + 1) hstart (by show pb.myEnd + 1 = _; omega)
      (by omega) (by show 0 ≤ pb.myLen + 1; omega) (by omega)
    refine ⟨pb', ?_, hstart', ?_, ?_, ?_⟩
    · rw [pushChars, List.cons_append, List.foldlM_cons, hpush]
      exact hpushes
    · rw [hend', List.length_cons]
      omega
    · rw [hlen', List.cons_append, List.length_cons (a := d)]
      push_cast
      omega
    · rw [List.length_cons, ← hlast]
      congr 1
      omega

/-- After `push`, one byte overwrites the last byte of the block: the buffer is told apart from the
one that `pushChar` leaves. -/
theorem not_indistinguishable_of_behind {pb pb' : PacketBuffer} {e : ℕ} {last : Byte}
    (hstart : pb.myStart = 0) (hend : pb.myEnd = e) (hstart' : pb'.myStart = 0)
    (hend' : pb'.myEnd = (e + 1 : ℕ)) (hlen : pb.myLen = pb'.myLen) (hle : e < pb.myLen)
    (he : e < bufSize) (hlast : pb'.myBuf.toList[e]? = some last) :
    ¬ Indistinguishable call pb pb' := by
  intro h
  by_cases hfirst : e = 0
  · -- `myEnd` is where an empty buffer has it, so the next byte is refused
    have hrefused : pb.pushChar 0 = some (false, pb) := by
      rw [pushChar, if_pos (by omega)]
    have hone : e + 1 < bufSize := by
      rw [hfirst]
      decide
    have hpush := call_pushChar (pushChar_of_room hstart' (by omega) hend' hone 0)
    obtain ⟨_, hsame, -⟩ := h.step (call_pushChar hrefused)
    rw [hpush] at hsame
    simp at hsame
  · have hpush := call_pushChar (pushChar_of_room hstart (by omega) hend he (last + 1))
    obtain ⟨pb₂, hsame, hafter⟩ := h.step hpush
    by_cases hroom : e + 1 < bufSize
    · have hpush' := call_pushChar (pushChar_of_room hstart' (by omega) hend' hroom (last + 1))
      obtain rfl := (Prod.mk.inj (Option.some.inj (hpush'.symm.trans hsame))).2
      have hback := (readback hafter hstart hstart').2 e
        (by show e < (pb.myLen + 1).toNat; omega)
      have hkept : (pb'.myBuf.set (e + 1) (last + 1)).toList[e]? = some last := by
        rw [Vector.toList_set, List.getElem?_set_ne (by omega), hlast]
      have hover : (pb.myBuf.set e (last + 1)).toList[e]? = some (last + 1) := by simp [he]
      rw [Nat.mod_eq_of_lt he, hkept, hover] at hback
      have hcarry : (last.toNat + 1) % 256 = last.toNat :=
        congrArg BitVec.toNat (Option.some.inj hback)
      omega
    · have hnone : pb'.pushChar (last + 1) = none := by
        rw [pushChar, if_neg (by omega), dif_neg (by omega)]
      rw [call, hnone] at hsame
      simp at hsame

/-! ### When the two agree -/

/-- `push` does with a block what it should exactly when there is no room for the block. -/
theorem pushAgrees_iff {pb : PacketBuffer} (hpb : Reachable pb) (inBuf : List Byte) :
    PushAgrees pb inBuf ↔ bufSize < pb.myLen + inBuf.length := by
  obtain ⟨hstart, hnonneg, hlen, hle⟩ := hpb.fromStart
  constructor
  · intro h
    by_contra hroom
    rw [PushAgrees, if_pos (by omega)] at h
    obtain ⟨pb₁, pb₂, hpush, hpushes, hsame⟩ := h
    obtain ⟨hpos, hstart₁, hend₁, hlen₁⟩ := push_taken hpush
    rw [hstart] at hstart₁
    obtain ⟨e, hend⟩ := Int.eq_ofNat_of_zero_le hnonneg
    by_cases hopen : e ≠ 0 ∨ pb.myLen = 0
    · obtain ⟨front, last, rfl⟩ : ∃ front last, inBuf = front ++ [last] :=
        ⟨_, _, (List.dropLast_append_getLast (List.ne_nil_of_length_pos (by omega))).symm⟩
      rw [List.length_append, List.length_singleton] at *
      obtain ⟨pb₂', hpushes', hstart₂, hend₂, hlen₂, hlast⟩ := pushChars_of_room pb
        front last hstart hend hopen (by omega) (by omega : e + front.length < bufSize)
      obtain rfl := Option.some.inj (hpushes'.symm.trans hpushes)
      rw [List.length_append, List.length_singleton] at hlen₂
      refine not_indistinguishable_of_behind hstart₁ (e := e + front.length) ?_ hstart₂ hend₂
        (hlen₁.trans hlen₂.symm) (by omega) (by omega) hlast hsame
      rw [hend₁, Int.tmod_eq_of_lt (by omega) (by omega), hend]
      omega
    · -- `pushChar` takes no byte of the block here, and `push` counts all of them
      have hrefused : pb.pushChars inBuf = some pb := pushChars_of_refused (by omega) inBuf
      obtain rfl := Option.some.inj (hrefused.symm.trans hpushes)
      have := (readback hsame hstart₁ hstart).1
      omega
  · intro h
    rw [PushAgrees, if_neg (by omega)]
    exact push_refused h

/-- A full block from the state after `init`: there is no room for one byte more. -/
theorem pushAgrees_iff_init :
    PushAgrees init (List.replicate 257 0x66) ↔
      (bufSize : ℤ) < init.myLen + (List.replicate 257 (0x66 : Byte)).length :=
  pushAgrees_iff ⟨[], .nil _⟩ _

/-- The byte `f` pushed as a block of one to an empty buffer: the next `pushChar` is refused, and
it would not be after a `pushChar` of `f`. -/
theorem not_pushAgrees_of_single :
    ¬ ∀ pb, Reachable pb → ∀ inBuf, PushAgrees pb inBuf := by
  intro h
  obtain ⟨pb₁, pb₂, hpush, hpushes, hsame⟩ : ∃ pb₁ pb₂, init.push [0x66] 1 = some (true, pb₁) ∧
      init.pushChars [0x66] = some pb₂ ∧ Indistinguishable call pb₁ pb₂ :=
    h init ⟨[], .nil _⟩ [0x66]
  obtain ⟨-, hstart₁, hend₁, hlen₁⟩ := push_taken hpush
  obtain ⟨pb₂', hpushes', hstart₂, hend₂, hlen₂, hlast⟩ := pushChars_of_room init [] 0x66
    (e := 0) rfl rfl (.inr rfl) (le_refl _) (by decide)
  obtain rfl := Option.some.inj (hpushes'.symm.trans hpushes)
  exact not_indistinguishable_of_behind (e := 0) hstart₁ hend₁ hstart₂ hend₂
    (hlen₁.trans hlen₂.symm) (by rw [hlen₁]; decide) (by decide) hlast hsame

end PacketBuffer

end MappingRobot
