import Mathlib.Data.Multiset.Bind
import MappingRobot.Library.Pool
import MappingRobot.Receive

/-!
# The heap of packets

A packet on the heap is a `LenBuffer` that points to a data block; the two are allocated and freed
one after the other. The heap is a pool of `LenBuffer`s and a pool of data blocks, and a load,
store or free that C does not define is `none`.

A `Ref` is what a task or a queue slot has a hold of: a whole packet, a `LenBuffer` without
a block, or a block on its own. `Heap.Owned h refs` is the ledger of the two pools, with what is
known of each packet: `blank` while it is being filled, `headroom` as long as two more bytes fit
into its block, `readable` when its length lies within its block. Each heap operation of the
tasks has one rule, about the reference it works on and any others, which it leaves alone.
-/

namespace MappingRobot

/-- A `LenBuffer`: the id of its data block, and the length of the data. -/
structure LenBuffer where
  buf : ℕ
  len : ℤ
deriving DecidableEq

/-- The heap. -/
structure Heap where
  lenBuffers : Pool LenBuffer
  blocks : Pool (List Byte)
deriving DecidableEq

namespace Heap

/-- The heap on which nothing has been allocated. -/
def empty : Heap :=
  ⟨.empty, .empty⟩

/-- `malloc(sizeof(LenBuffer))`. The fields are not set; no task reads them before it sets
them. -/
def mallocLenBuffer (h : Heap) : ℕ × Heap :=
  let (p, lenBuffers) := h.lenBuffers.malloc ⟨0, 0⟩
  (p, { h with lenBuffers })

/-- `malloc(size)` of a data block. The bytes are not set; no task reads a byte before it sets
it. -/
def mallocBlock (h : Heap) (size : ℕ) : ℕ × Heap :=
  let (b, blocks) := h.blocks.malloc (List.replicate size 0)
  (b, { h with blocks })

/-- The packet at `p`, by value. -/
def packet (h : Heap) (p : ℕ) : Option Packet := do
  let buffer ← h.lenBuffers.load p
  let buf ← h.blocks.load buffer.buf
  some ⟨buf, buffer.len⟩

/-- Set the fields of `p`. -/
def setLenBuffer (h : Heap) (p : ℕ) (buffer : LenBuffer) : Option Heap := do
  let lenBuffers ← h.lenBuffers.store p buffer
  some { h with lenBuffers }

/-- Overwrite a block with as many bytes as it has. -/
def setBlock (h : Heap) (b : ℕ) (buf : List Byte) : Option Heap := do
  let old ← h.blocks.load b
  if old.length = buf.length then
    let blocks ← h.blocks.store b buf
    some { h with blocks }
  else
    none

/-- Overwrite the data and the length of the packet at `p`. -/
def setPacket (h : Heap) (p : ℕ) (packet : Packet) : Option Heap := do
  let buffer ← h.lenBuffers.load p
  let h ← h.setBlock buffer.buf packet.buf
  h.setLenBuffer p { buffer with len := packet.len }

/-- `free(p->buf)` -/
def freeData (h : Heap) (p : ℕ) : Option Heap := do
  let buffer ← h.lenBuffers.load p
  let blocks ← h.blocks.free buffer.buf
  some { h with blocks }

/-- `free(p)` -/
def freeLenBuffer (h : Heap) (p : ℕ) : Option Heap := do
  let lenBuffers ← h.lenBuffers.free p
  some { h with lenBuffers }

/-- The data of the packet at `p`. -/
def body (h : Heap) (p : ℕ) : List Byte :=
  ((h.packet p).map Packet.body).getD []

theorem body_of_packet {h : Heap} {p : ℕ} {packet : Packet} (hpacket : h.packet p = some packet) :
    h.body p = packet.body := by
  rw [body, hpacket]
  rfl

/-- A block that has been written can be read back. -/
theorem load_of_setBlock {h h' : Heap} {b : ℕ} {buf : List Byte}
    (hset : h.setBlock b buf = some h') : h'.blocks.load b = some buf := by
  obtain ⟨old, -, hset⟩ := Option.bind_eq_some_iff.1 hset
  split_ifs at hset
  obtain ⟨blocks, hblocks, hset⟩ := Option.bind_eq_some_iff.1 hset
  obtain rfl := Option.some.inj hset
  exact Pool.load_store_self hblocks

/-- A packet that has been made of a block can be read back. -/
theorem packet_of_setLenBuffer {h h' : Heap} {p b : ℕ} {len : ℤ} {buf : List Byte}
    (hset : h.setLenBuffer p ⟨b, len⟩ = some h') (hload : h.blocks.load b = some buf) :
    h'.packet p = some ⟨buf, len⟩ := by
  obtain ⟨lenBuffers, hlens, hset⟩ := Option.bind_eq_some_iff.1 hset
  obtain rfl := Option.some.inj hset
  simp [Heap.packet, Pool.load_store_self hlens, hload]

/-- A packet that has been written can be read back. -/
theorem packet_of_setPacket {h h' : Heap} {p : ℕ} {packet : Packet}
    (hset : h.setPacket p packet = some h') : h'.packet p = some packet := by
  obtain ⟨buffer, -, hset⟩ := Option.bind_eq_some_iff.1 hset
  obtain ⟨h₁, hblock, hset⟩ := Option.bind_eq_some_iff.1 hset
  exact packet_of_setLenBuffer hset (load_of_setBlock hblock)

end Heap

/-! ### References -/

/-- What is known of a packet. -/
inductive PacketKind
  /-- It has a block of `size` bytes. -/
  | blank (size : ℕ)
  /-- Two more bytes than its data fit into its block. -/
  | headroom
  /-- Its data lies within its block. -/
  | readable
deriving DecidableEq

/-- A packet is of a kind. -/
def PacketKind.Fits (packet : Packet) : PacketKind → Prop
  | .blank size => packet.buf.length = size
  | .headroom => 0 ≤ packet.len ∧ packet.len + 2 ≤ packet.buf.length
  | .readable => 0 ≤ packet.len ∧ packet.len ≤ packet.buf.length

/-- What a task or a queue slot has a hold of. -/
inductive Ref
  /-- A `LenBuffer` without a data block. -/
  | shell (p : ℕ)
  /-- A data block of `size` bytes on its own. -/
  | block (b : ℕ) (size : ℕ)
  /-- A packet: a `LenBuffer` and its data block. -/
  | packet (p : ℕ) (kind : PacketKind)
deriving DecidableEq

namespace Ref

/-- The `LenBuffer` of a reference. -/
def lenIds : Ref → Multiset ℕ
  | .shell p | .packet p _ => {p}
  | .block _ _ => 0

/-- The data block of a reference. -/
def dataIds (h : Heap) : Ref → Multiset ℕ
  | .shell _ => 0
  | .block b _ => {b}
  | .packet p _ => ((h.lenBuffers.load p).map LenBuffer.buf).toList

/-- What is known of a reference is so. -/
def Good (h : Heap) : Ref → Prop
  | .shell _ => True
  | .block b size => ∃ buf, h.blocks.load b = some buf ∧ buf.length = size
  | .packet p kind => ∃ packet, h.packet p = some packet ∧ kind.Fits packet

end Ref

namespace Heap

/-- The ledger: every `LenBuffer` and every data block is referenced or freed, once in all, and
every reference is good. -/
structure Owned (h : Heap) (refs : Multiset Ref) : Prop where
  lenBuffers : h.lenBuffers.Owned (refs.bind Ref.lenIds)
  blocks : h.blocks.Owned (refs.bind (Ref.dataIds h))
  good : ∀ r ∈ refs, r.Good h

/-- Two heaps agree on what is referenced. -/
structure SameOn (h h' : Heap) (refs : Multiset Ref) : Prop where
  lenBuffers : ∀ p ∈ refs.bind Ref.lenIds, h'.lenBuffers.load p = h.lenBuffers.load p
  blocks : ∀ b ∈ refs.bind (Ref.dataIds h), h'.blocks.load b = h.blocks.load b

theorem owned_empty : empty.Owned 0 :=
  ⟨Pool.owned_empty, Pool.owned_empty, by simp⟩

variable {h h' h'' : Heap} {R : Multiset Ref} {p b : ℕ}

namespace SameOn

theorem refl (h : Heap) (R : Multiset Ref) : h.SameOn h R :=
  ⟨fun _ _ ↦ rfl, fun _ _ ↦ rfl⟩

theorem load_lenBuffer (hs : h.SameOn h' R) {k : PacketKind} (hr : Ref.packet p k ∈ R) :
    h'.lenBuffers.load p = h.lenBuffers.load p :=
  hs.lenBuffers p (Multiset.mem_bind.2 ⟨_, hr, Multiset.mem_singleton_self p⟩)

/-- The same data blocks are referenced. -/
theorem dataIds (hs : h.SameOn h' R) : R.bind (Ref.dataIds h') = R.bind (Ref.dataIds h) := by
  refine Multiset.bind_congr fun r hr ↦ ?_
  cases r with
  | shell p => rfl
  | block b size => rfl
  | packet p kind => rw [Ref.dataIds, Ref.dataIds, hs.load_lenBuffer hr]

/-- Packets referenced are the same by value. -/
theorem packet (hs : h.SameOn h' R) {k : PacketKind} (hr : Ref.packet p k ∈ R) :
    h'.packet p = h.packet p := by
  rw [Heap.packet, Heap.packet, hs.load_lenBuffer hr]
  cases hload : h.lenBuffers.load p with
  | none => rfl
  | some buffer =>
    have hmem : buffer.buf ∈ R.bind (Ref.dataIds h) :=
      Multiset.mem_bind.2 ⟨_, hr, by simp [Ref.dataIds, hload]⟩
    simp only [Option.bind_eq_bind, Option.bind_some, hs.blocks _ hmem]

theorem body (hs : h.SameOn h' R) {k : PacketKind} (hr : Ref.packet p k ∈ R) :
    h'.body p = h.body p := by
  rw [Heap.body, Heap.body, hs.packet hr]

theorem good (hs : h.SameOn h' R) {r : Ref} (hr : r ∈ R) (hgood : r.Good h) : r.Good h' := by
  cases r with
  | shell p => trivial
  | block b size =>
    have hmem : b ∈ R.bind (Ref.dataIds h) :=
      Multiset.mem_bind.2 ⟨_, hr, Multiset.mem_singleton_self b⟩
    rw [Ref.Good, hs.blocks b hmem]
    exact hgood
  | packet p kind =>
    rw [Ref.Good, hs.packet hr]
    exact hgood

theorem mono {R' : Multiset Ref} (hs : h.SameOn h' R) (hsub : R' ⊆ R) : h.SameOn h' R' := by
  constructor
  · intro p hp
    obtain ⟨r, hr, hp⟩ := Multiset.mem_bind.1 hp
    exact hs.lenBuffers p (Multiset.mem_bind.2 ⟨r, hsub hr, hp⟩)
  · intro b hb
    obtain ⟨r, hr, hb⟩ := Multiset.mem_bind.1 hb
    exact hs.blocks b (Multiset.mem_bind.2 ⟨r, hsub hr, hb⟩)

theorem tail {r : Ref} (hs : h.SameOn h' (r ::ₘ R)) : h.SameOn h' R :=
  hs.mono (Multiset.subset_cons R r)

theorem trans (hs : h.SameOn h' R) (hs' : h'.SameOn h'' R) : h.SameOn h'' R :=
  ⟨fun p hp ↦ (hs'.lenBuffers p hp).trans (hs.lenBuffers p hp),
    fun b hb ↦ (hs'.blocks b (hs.dataIds ▸ hb)).trans (hs.blocks b hb)⟩

end SameOn

namespace Owned

/-- The ledger does not look at the rest of the references more closely than at their ids: it
is enough that the two pools are owned and the references touched are good. -/
theorem of_sameOn {A : Multiset Ref} (hsame : h.SameOn h' R) (hgood : ∀ r ∈ R, r.Good h)
    (hlen : h'.lenBuffers.Owned (A.bind Ref.lenIds + R.bind Ref.lenIds))
    (hdata : h'.blocks.Owned (A.bind (Ref.dataIds h') + R.bind (Ref.dataIds h)))
    (hA : ∀ r ∈ A, r.Good h') : h'.Owned (A + R) where
  lenBuffers := by rwa [Multiset.add_bind]
  blocks := by rwa [Multiset.add_bind, hsame.dataIds]
  good r hr := (Multiset.mem_add.1 hr).elim (hA r) fun hr ↦ hsame.good hr (hgood r hr)

theorem good_tail {r₀ : Ref} (ho : h.Owned (r₀ ::ₘ R)) : ∀ r ∈ R, r.Good h :=
  fun r hr ↦ ho.good r (Multiset.mem_cons_of_mem hr)

/-- **Allocating a `LenBuffer`.** -/
theorem mallocLenBuffer (ho : h.Owned R) :
    h.mallocLenBuffer.2.Owned (.shell h.mallocLenBuffer.1 ::ₘ R) ∧
      h.SameOn h.mallocLenBuffer.2 R := by
  obtain ⟨howned, hload⟩ := ho.lenBuffers.malloc ⟨0, 0⟩
  have hsame : h.SameOn h.mallocLenBuffer.2 R := ⟨hload, fun _ _ ↦ rfl⟩
  refine ⟨?_, hsame⟩
  rw [← Multiset.singleton_add]
  refine of_sameOn hsame ho.good ?_ ?_ ?_
  · simpa [Ref.lenIds, Heap.mallocLenBuffer] using howned
  · simpa [Ref.dataIds, Heap.mallocLenBuffer] using ho.blocks
  · simp [Ref.Good]

/-- **Allocating a data block.** -/
theorem mallocBlock (ho : h.Owned R) (size : ℕ) :
    (h.mallocBlock size).2.Owned (.block (h.mallocBlock size).1 size ::ₘ R) ∧
      h.SameOn (h.mallocBlock size).2 R := by
  obtain ⟨howned, hload⟩ := ho.blocks.malloc (List.replicate size 0)
  have hsame : h.SameOn (h.mallocBlock size).2 R := ⟨fun _ _ ↦ rfl, hload⟩
  refine ⟨?_, hsame⟩
  rw [← Multiset.singleton_add]
  refine of_sameOn hsame ho.good ?_ ?_ ?_
  · simpa [Ref.lenIds, Heap.mallocBlock] using ho.lenBuffers
  · simpa [Ref.dataIds, Heap.mallocBlock] using howned
  · have hload : (h.mallocBlock size).2.blocks.load (h.mallocBlock size).1 =
        some (List.replicate size 0) := Pool.load_malloc_self _
    simpa [Ref.Good] using ⟨_, hload, List.length_replicate⟩

/-- **Writing a data block** that is not yet part of a packet. -/
theorem setBlock {size : ℕ} (ho : h.Owned (.block b size ::ₘ R)) {buf : List Byte}
    (hbuf : buf.length = size) :
    ∃ h', h.setBlock b buf = some h' ∧ h'.Owned (.block b size ::ₘ R) ∧ h.SameOn h' R ∧
      h'.blocks.load b = some buf := by
  obtain ⟨old, hold, hlen⟩ := ho.good _ (Multiset.mem_cons_self _ _)
  have hblocks := ho.blocks
  rw [Multiset.cons_bind, Ref.dataIds, Multiset.singleton_add] at hblocks
  obtain ⟨blocks, hstore, howned, hself, hload⟩ := hblocks.store buf
  have hsame : h.SameOn { h with blocks } R := ⟨fun _ _ ↦ rfl, hload⟩
  refine ⟨{ h with blocks }, ?_, ?_, hsame, hself⟩
  · simp [Heap.setBlock, hold, hlen, hbuf, hstore]
  · rw [← Multiset.singleton_add]
    refine of_sameOn hsame ho.good_tail ?_ ?_ ?_
    · simpa [Ref.lenIds] using ho.lenBuffers
    · simpa [Ref.dataIds] using howned
    · simpa [Ref.Good] using ⟨buf, hself, hbuf⟩

/-- **Making a packet** of a `LenBuffer` and a block. -/
theorem setLenBuffer {size : ℕ} (ho : h.Owned (.shell p ::ₘ .block b size ::ₘ R)) {buf : List Byte}
    (hbuf : h.blocks.load b = some buf) {len : ℤ} {k : PacketKind} (hk : k.Fits ⟨buf, len⟩) :
    ∃ h', h.setLenBuffer p ⟨b, len⟩ = some h' ∧ h'.Owned (.packet p k ::ₘ R) ∧ h.SameOn h' R ∧
      h'.packet p = some ⟨buf, len⟩ := by
  have hlens := ho.lenBuffers
  have hblocks := ho.blocks
  simp only [Multiset.cons_bind, Ref.lenIds, Ref.dataIds, Multiset.zero_add,
    Multiset.singleton_add] at hlens hblocks
  obtain ⟨lenBuffers, hstore, howned, hself, hload⟩ := hlens.store ⟨b, len⟩
  have hsame : h.SameOn { h with lenBuffers } R := ⟨hload, fun _ _ ↦ rfl⟩
  have hpacket : ({ h with lenBuffers } : Heap).packet p = some ⟨buf, len⟩ := by
    simp [Heap.packet, hself, hbuf]
  refine ⟨{ h with lenBuffers }, by simp [Heap.setLenBuffer, hstore], ?_, hsame, hpacket⟩
  rw [← Multiset.singleton_add]
  refine of_sameOn hsame (fun r hr ↦ ho.good r (by simp [hr])) ?_ ?_ ?_
  · simpa [Ref.lenIds] using howned
  · simpa [Ref.dataIds, hself] using hblocks
  · simpa [Ref.Good] using ⟨_, hpacket, hk⟩

/-- **Writing a packet.** -/
theorem setPacket {k k' : PacketKind} (ho : h.Owned (.packet p k ::ₘ R)) {old packet : Packet}
    (hold : h.packet p = some old) (hlen : packet.buf.length = old.buf.length)
    (hk : k'.Fits packet) :
    ∃ h', h.setPacket p packet = some h' ∧ h'.Owned (.packet p k' ::ₘ R) ∧ h.SameOn h' R ∧
      h'.packet p = some packet := by
  obtain ⟨buffer, hbuffer, hbuf⟩ : ∃ buffer, h.lenBuffers.load p = some buffer ∧
      h.blocks.load buffer.buf = some old.buf := by
    unfold Heap.packet at hold
    obtain ⟨buffer, hbuffer, hold⟩ := Option.bind_eq_some_iff.1 hold
    obtain ⟨buf, hbuf, hold⟩ := Option.bind_eq_some_iff.1 hold
    obtain rfl := Option.some.inj hold
    exact ⟨buffer, hbuffer, hbuf⟩
  have hlens := ho.lenBuffers
  have hblocks := ho.blocks
  simp only [Multiset.cons_bind, Ref.lenIds, Ref.dataIds, hbuffer, Option.map_some,
    Option.toList_some, Multiset.coe_singleton, Multiset.singleton_add] at hlens hblocks
  obtain ⟨blocks, hstore, howned, hself, hload⟩ := hblocks.store packet.buf
  obtain ⟨lenBuffers, hstore', howned', hself', hload'⟩ :=
    hlens.store { buffer with len := packet.len }
  have hsame : h.SameOn ⟨lenBuffers, blocks⟩ R := ⟨hload', hload⟩
  have hpacket : (⟨lenBuffers, blocks⟩ : Heap).packet p = some packet := by
    simp [Heap.packet, hself, hself']
  refine ⟨⟨lenBuffers, blocks⟩, ?_, ?_, hsame, hpacket⟩
  · simp [Heap.setPacket, Heap.setBlock, Heap.setLenBuffer, hbuffer, hbuf, hlen, hstore, hstore']
  · rw [← Multiset.singleton_add]
    refine of_sameOn hsame ho.good_tail ?_ ?_ ?_
    · simpa [Ref.lenIds] using howned'
    · simpa [Ref.dataIds, hself'] using howned
    · simpa [Ref.Good] using ⟨_, hpacket, hk⟩

/-- **Freeing the data** of a packet. -/
theorem freeData {k : PacketKind} (ho : h.Owned (.packet p k ::ₘ R)) :
    ∃ h', h.freeData p = some h' ∧ h'.Owned (.shell p ::ₘ R) ∧ h.SameOn h' R := by
  obtain ⟨old, hold, -⟩ := ho.good _ (Multiset.mem_cons_self _ _)
  obtain ⟨buffer, hbuffer, -⟩ := Option.bind_eq_some_iff.1 hold
  have hlens := ho.lenBuffers
  have hblocks := ho.blocks
  simp only [Multiset.cons_bind, Ref.lenIds, Ref.dataIds, hbuffer, Option.map_some,
    Option.toList_some, Multiset.coe_singleton, Multiset.singleton_add] at hlens hblocks
  obtain ⟨blocks, hfree, howned, hload⟩ := hblocks.free
  have hsame : h.SameOn { h with blocks } R := ⟨fun _ _ ↦ rfl, hload⟩
  refine ⟨{ h with blocks }, by simp [Heap.freeData, hbuffer, hfree], ?_, hsame⟩
  rw [← Multiset.singleton_add]
  refine of_sameOn hsame ho.good_tail ?_ ?_ ?_
  · simpa [Ref.lenIds] using hlens
  · simpa [Ref.dataIds] using howned
  · simp [Ref.Good]

/-- **Freeing a `LenBuffer`** whose data has been freed. -/
theorem freeLenBuffer (ho : h.Owned (.shell p ::ₘ R)) :
    ∃ h', h.freeLenBuffer p = some h' ∧ h'.Owned R ∧ h.SameOn h' R := by
  have hlens := ho.lenBuffers
  have hblocks := ho.blocks
  simp only [Multiset.cons_bind, Ref.lenIds, Ref.dataIds, Multiset.zero_add,
    Multiset.singleton_add] at hlens hblocks
  obtain ⟨lenBuffers, hfree, howned, hload⟩ := hlens.free
  have hsame : h.SameOn { h with lenBuffers } R := ⟨hload, fun _ _ ↦ rfl⟩
  refine ⟨{ h with lenBuffers }, by simp [Heap.freeLenBuffer, hfree], ?_, hsame⟩
  rw [← Multiset.zero_add R]
  refine of_sameOn hsame ho.good_tail ?_ ?_ (by simp)
  · simpa using howned
  · simpa using hblocks

end Owned

end Heap

end MappingRobot
