import Mathlib.Algebra.Order.Ring.Int
import Mathlib.Data.List.Basic
import Mathlib.Tactic.Common

/-!
# The packet buffer

The `PacketBuffer` of `packet_buffer.c`, in which `receiveTask` assembles the frame it is
receiving: a `char` array of `BUF_SIZE` bytes with an index of its first byte, an index of its
end, a length and the `isStarted` flag.

Array accesses are checked here: an access outside of the array it indexes has no defined
result in C, and the operation that makes it is `none`. So `pushChar pb c = some r` says that
the one index `pushChar` uses lies inside of `myBuf`, and `mRead pb outBuf = some r` says it of
every index into `myBuf` and `outBuf`.

The full test of `pushChar` compares `myStart` with `myEnd`, but `myEnd` is only ever
incremented: it reads `BUF_SIZE`, not `0`, when the array is full. `pushChar_of_holds_full`
records what becomes of the next `pushChar`.
-/

namespace MappingRobot

/-- A C `char`. It is signed on the target; the comparisons in the code that depend on this are
made on `BitVec.toInt`. -/
abbrev Byte := BitVec 8

/-- `BUF_SIZE`, the size of the packet buffer and of the data block of a received packet. -/
def bufSize : ℕ := 256

/-- `a[index]`: undefined outside of the array. -/
def loadAt (a : List Byte) (index : ℤ) : Option Byte :=
  if 0 ≤ index then a[index.toNat]? else none

/-- `a[index] = c`: undefined outside of the array. -/
def storeAt (a : List Byte) (index : ℤ) (c : Byte) : Option (List Byte) :=
  if 0 ≤ index ∧ index < a.length then some (a.set index.toNat c) else none

theorem loadAt_natCast (a : List Byte) (i : ℕ) : loadAt a i = a[i]? := by
  rw [loadAt, if_pos (by omega), Int.toNat_natCast]

theorem loadAt_of_lt {a : List Byte} {i : ℕ} (h : i < a.length) : loadAt a i = some a[i] := by
  rw [loadAt_natCast, List.getElem?_eq_getElem h]

/-- The packet buffer. The array type keeps its size. -/
structure PacketBuffer where
  /-- The bytes collected. -/
  myBuf : Vector Byte bufSize
  /-- Index of the first byte. -/
  myStart : ℤ
  /-- Index of the next byte to write. -/
  myEnd : ℤ
  /-- Number of bytes collected. -/
  myLen : ℤ
  /-- A START byte has been seen and no END byte since. -/
  isStarted : Bool
deriving DecidableEq

namespace PacketBuffer

/-- `init`: an empty buffer of zero bytes, outside of any frame. -/
def init : PacketBuffer where
  myBuf := Vector.replicate bufSize 0
  myStart := 0
  myEnd := 0
  myLen := 0
  isStarted := false

/-- `clear`: forget the bytes collected. -/
def clear (pb : PacketBuffer) : PacketBuffer :=
  { pb with myLen := 0, myStart := 0, myEnd := 0 }

/-- `pushChar`: append one byte and return TRUE, or return FALSE. -/
def pushChar (pb : PacketBuffer) (c : Byte) : Option (Bool × PacketBuffer) :=
  if pb.myStart = pb.myEnd ∧ pb.myLen > 0 then
    some (false, pb)
  else if h : 0 ≤ pb.myEnd ∧ pb.myEnd < bufSize then
    some (true, { pb with
      myBuf := pb.myBuf.set pb.myEnd.toNat c (by omega)
      myEnd := pb.myEnd + 1
      myLen := pb.myLen + 1 })
  else
    none

/-- The loop of `mRead` from index `i` on, with `n` rounds to go. -/
def mReadLoop (pb : PacketBuffer) (outBuf : List Byte) (i : ℤ) : ℕ → Option (List Byte)
  | 0 => some outBuf
  | n + 1 => do
    let index := (pb.myStart + i).tmod bufSize
    let c ← loadAt pb.myBuf.toList index
    let outBuf ← storeAt outBuf i c
    mReadLoop pb outBuf (i + 1) n

/-- `mRead`: copy the bytes collected to `outBuf` and return their number. -/
def mRead (pb : PacketBuffer) (outBuf : List Byte) : Option (ℤ × List Byte) := do
  let outBuf ← mReadLoop pb outBuf 0 pb.myLen.toNat
  some (pb.myLen, outBuf)

/-! ### The content of a buffer -/

/-- The bounds on the bookkeeping fields. -/
structure InBounds (pb : PacketBuffer) : Prop where
  start_nonneg : 0 ≤ pb.myStart
  start_le_end : pb.myStart ≤ pb.myEnd
  end_le : pb.myEnd ≤ bufSize
  len_nonneg : 0 ≤ pb.myLen
  len_le : pb.myLen ≤ bufSize

/-- The buffer has collected exactly `body`, from index `0` on. -/
structure Holds (pb : PacketBuffer) (body : List Byte) : Prop where
  start_eq : pb.myStart = 0
  end_eq : pb.myEnd = body.length
  len_eq : pb.myLen = body.length
  length_le : body.length ≤ bufSize
  take_eq : pb.myBuf.toList.take body.length = body

theorem Holds.inBounds {pb : PacketBuffer} {body : List Byte} (h : pb.Holds body) :
    pb.InBounds := by
  have hle : (body.length : ℤ) ≤ bufSize := by exact_mod_cast h.length_le
  refine ⟨?_, ?_, ?_, ?_, ?_⟩ <;> simp only [h.start_eq, h.end_eq, h.len_eq] <;> omega

theorem holds_init : init.Holds [] :=
  ⟨rfl, rfl, rfl, by simp, by simp⟩

/-- With room left, `pushChar` appends its byte. -/
theorem Holds.pushChar {pb : PacketBuffer} {body : List Byte} (h : pb.Holds body)
    (hroom : body.length < bufSize) (c : Byte) :
    ∃ pb', pb.pushChar c = some (true, pb') ∧ pb'.Holds (body ++ [c]) ∧
      pb'.isStarted = pb.isStarted := by
  have hfull : ¬ (pb.myStart = pb.myEnd ∧ pb.myLen > 0) := by
    rw [h.start_eq, h.end_eq, h.len_eq]; omega
  have hend : 0 ≤ pb.myEnd ∧ pb.myEnd < bufSize := by
    rw [h.end_eq]; omega
  have hnat : pb.myEnd.toNat = body.length := by rw [h.end_eq]; rfl
  have hlen : body.length < pb.myBuf.toList.length := by simpa using hroom
  refine ⟨{ pb with
    myBuf := pb.myBuf.set pb.myEnd.toNat c (by omega)
    myEnd := pb.myEnd + 1
    myLen := pb.myLen + 1 }, ?_, ⟨h.start_eq, ?_, ?_, ?_, ?_⟩, rfl⟩
  · rw [PacketBuffer.pushChar, if_neg hfull, dif_pos hend]
  · simp [h.end_eq]
  · simp [h.len_eq]
  · rw [List.length_append]; exact hroom
  · simp only [Vector.toList_set, hnat, List.length_append, List.length_singleton]
    rw [List.take_succ_eq_append_getElem (by simpa using hroom), List.take_set_of_le (le_refl _),
      h.take_eq, List.getElem_set_self]

/-- With no room left, `pushChar` does not refuse its byte: it stores outside of `myBuf`. -/
theorem pushChar_of_holds_full {pb : PacketBuffer} {body : List Byte} (h : pb.Holds body)
    (hfull : body.length = bufSize) (c : Byte) : pb.pushChar c = none := by
  have hstart : ¬ (pb.myStart = pb.myEnd ∧ pb.myLen > 0) := by
    rw [h.start_eq, h.end_eq, h.len_eq]; omega
  have hend : ¬ (0 ≤ pb.myEnd ∧ pb.myEnd < bufSize) := by
    rw [h.end_eq]; omega
  rw [PacketBuffer.pushChar, if_neg hstart, dif_neg hend]

/-- The loop of `mRead` after `i` rounds: the first `i` bytes have been copied. -/
theorem Holds.mReadLoop {pb : PacketBuffer} {body outBuf : List Byte} (h : pb.Holds body)
    (hout : outBuf.length = bufSize) :
    ∀ n i : ℕ, i + n = body.length →
      pb.mReadLoop (body.take i ++ outBuf.drop i) i n =
        some (body ++ outBuf.drop body.length) := by
  intro n
  induction n with
  | zero =>
    intro i hi
    obtain rfl : i = body.length := by omega
    rw [PacketBuffer.mReadLoop, List.take_length]
  | succ n ih =>
    intro i hi
    have hlt : i < body.length := by omega
    have hle := h.length_le
    have hmod : (pb.myStart + (i : ℤ)).tmod bufSize = i := by
      rw [h.start_eq, zero_add]
      exact Int.tmod_eq_of_lt (by omega) (by omega)
    have hload : loadAt pb.myBuf.toList (i : ℤ) = some body[i] := by
      have hget : pb.myBuf.toList[i]? = body[i]? := by
        conv_rhs => rw [← h.take_eq]
        rw [List.getElem?_take_of_lt hlt]
      rw [loadAt_natCast, hget, List.getElem?_eq_getElem hlt]
    have hlen : (body.take i ++ outBuf.drop i).length = bufSize := by simp; omega
    have hstore : storeAt (body.take i ++ outBuf.drop i) (i : ℤ) body[i] =
        some (body.take (i + 1) ++ outBuf.drop (i + 1)) := by
      have hdrop : outBuf.drop i = outBuf[i] :: outBuf.drop (i + 1) :=
        List.drop_eq_getElem_cons (by omega)
      have htake : (body.take i).length = i := by simp; omega
      rw [storeAt, if_pos ⟨by omega, by rw [hlen]; omega⟩, Int.toNat_natCast, hdrop,
        List.set_append_right _ _ htake.le, htake, Nat.sub_self, List.set_cons_zero,
        List.take_succ_eq_append_getElem hlt, List.append_assoc, List.singleton_append]
    rw [PacketBuffer.mReadLoop]
    simp only [hmod, hload, hstore, Option.bind_eq_bind, Option.bind_some]
    exact ih (i + 1) (by omega)

/-- `mRead` copies the body to the front of `outBuf`. -/
theorem Holds.mRead {pb : PacketBuffer} {body outBuf : List Byte} (h : pb.Holds body)
    (hout : outBuf.length = bufSize) :
    pb.mRead outBuf = some ((body.length : ℤ), body ++ outBuf.drop body.length) := by
  have hloop := h.mReadLoop hout body.length 0 (by omega)
  rw [PacketBuffer.mRead, h.len_eq, Int.toNat_natCast]
  simp only [List.take_zero, List.drop_zero, List.nil_append] at hloop
  simp only [Nat.cast_zero] at hloop
  rw [hloop]
  rfl

end PacketBuffer

end MappingRobot
