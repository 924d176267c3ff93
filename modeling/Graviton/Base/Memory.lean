import Graviton.Utility.MemoryUtility

/-!
# `Memory`: tracked allocations

The constructor of `libs/base/memory.cpp` and the getters of `memory.h` it feeds. The block
`new u8_t[adjustedLength]` returns is a parameter: any address the allocator may choose
(`Memory.Allocated`).

* `aligned_offset`: where the aligned object starts in a block of low memory.
* `aligned_backed_iff`: exactly when the aligned object lies inside its allocation.
-/

open MemoryUtility

inductive MemoryFeature
  | none
  | aligned
  deriving DecidableEq, Repr

def MemoryFeature.mask : MemoryFeature → BitVec 32
  | .none => 0
  | .aligned => 1 <<< 1

/-- `Memory::header_t`'s component. -/
structure Memory where
  requestedLength : BitVec 32
  adjustedLength : BitVec 32
  features : BitVec 32
  object : BitVec 64
  index : BitVec 32
  deriving DecidableEq, Repr

namespace Memory

/-- `Memory::Memory(name, length, isAligned)`: `index` is the incremented `s_index`, `object`
the address `new[]` returns. -/
def new (index length : BitVec 32) (isAligned : Bool) (object : BitVec 64) : Memory where
  requestedLength := length
  adjustedLength := if isAligned then memAlignRoundedUpExtra length else length
  features := if isAligned then MemoryFeature.aligned.mask else MemoryFeature.none.mask
  object := object
  index := index

def getLength (m : Memory) : BitVec 32 := m.requestedLength

def getAllocatedLength (m : Memory) : BitVec 32 := m.adjustedLength

def isAligned (m : Memory) : Bool := m.features &&& MemoryFeature.aligned.mask != 0

def getObject (m : Memory) : BitVec 64 := m.object

def getObjectAligned (m : Memory) : BitVec 64 := memAlignPointer m.getObject

def getIndex (m : Memory) : BitVec 32 := m.index

/-- What `new[]` promises of the block it returns: aligned for every fundamental type, and
inside the address space. -/
structure Allocated (m : Memory) : Prop where
  align : m.getObject.toNat % 16 = 0
  fits : m.getObject.toNat + m.getAllocatedLength.toNat ≤ 2 ^ 64

/-- The aligned object of the requested length lies inside the allocated block. -/
structure Backed (m : Memory) : Prop where
  aligned : m.getObjectAligned.toNat % 64 = 0
  start : m.getObject.toNat ≤ m.getObjectAligned.toNat
  stop : m.getObjectAligned.toNat + m.getLength.toNat ≤
    m.getObject.toNat + m.getAllocatedLength.toNat

/-- The bytes between the start of the block and the next multiple of 64. -/
def pad (m : Memory) : Nat := (64 - m.getObject.toNat % 64) % 64

/-- The rounding wraps for the last 128 lengths; below them the block has room for the length
rounded down to 64 and two blocks. -/
theorem allocated_of_lt (index n : BitVec 32) (p : BitVec 64) (h : n.toNat + 128 < 2 ^ 32) :
    (new index n true p).getAllocatedLength.toNat = n.toNat - n.toNat % 64 + 128 :=
  memAlignRoundedUpExtra_of_lt h

/-- In the last 128 lengths at most one block is allocated. -/
theorem allocated_of_ge (index n : BitVec 32) (p : BitVec 64) (h : 2 ^ 32 ≤ n.toNat + 128) :
    (new index n true p).getAllocatedLength.toNat ≤ 64 := memAlignRoundedUpExtra_of_ge h

/-- In the first 4 GiB the aligned object starts one block past the padding. -/
theorem aligned_offset (m : Memory) (h : m.getObject.toNat + 127 < 2 ^ 32) :
    m.getObjectAligned.toNat = m.getObject.toNat + m.pad + 64 := by
  rw [getObjectAligned, memAlignPointer_toNat, Nat.mod_eq_of_lt h, pad]
  omega

/-- Past the first 4 GiB the mask takes the aligned object below the block. -/
theorem aligned_lt (m : Memory) (h : 2 ^ 32 ≤ m.getObject.toNat + 127) :
    m.getObjectAligned.toNat < m.getObject.toNat := by
  rw [getObjectAligned, memAlignPointer_toNat]
  omega

/-- **When the aligned object is backed by its allocation**: the length is not among the last
128 (the rounding does not wrap), the block is in the first 4 GiB (the mask keeps the address),
and the padding and the length's remainder fit one block. -/
theorem aligned_backed_iff (index n : BitVec 32) (p : BitVec 64) :
    (new index n true p).Backed ↔
      n.toNat + 128 < 2 ^ 32 ∧ p.toNat + 127 < 2 ^ 32 ∧
        (64 - p.toNat % 64) % 64 + n.toNat % 64 ≤ 64 := by
  have hobj : (new index n true p).getObject = p := rfl
  have hlen : (new index n true p).getLength = n := rfl
  have hpad : (new index n true p).pad = (64 - p.toNat % 64) % 64 := rfl
  have hp := p.isLt
  constructor
  · rintro ⟨-, hstart, hstop⟩
    rw [hobj] at hstart
    rw [hobj, hlen] at hstop
    have hlow : p.toNat + 127 < 2 ^ 32 := by
      by_contra hc
      have := aligned_lt (new index n true p) (by rw [hobj]; omega)
      rw [hobj] at this
      omega
    have hn : n.toNat + 128 < 2 ^ 32 := by
      by_contra hc
      have := allocated_of_ge index n p (by omega)
      omega
    refine ⟨hn, hlow, ?_⟩
    rw [aligned_offset _ (by rw [hobj]; exact hlow), allocated_of_lt index n p hn, hobj,
      hpad] at hstop
    omega
  · rintro ⟨hn, hlow, hfit⟩
    have hoff := aligned_offset (new index n true p) (by rw [hobj]; exact hlow)
    rw [hobj, hpad] at hoff
    refine ⟨by rw [hoff]; omega, by rw [hoff, hobj]; omega, ?_⟩
    rw [hoff, hobj, hlen, allocated_of_lt index n p hn]
    omega

/-- A block at the address a 64-bit heap hands out: the mask clears the high half of the
pointer. -/
theorem aligned_not_backed :
    (new 1 100 true 0x00005555557692c0).Allocated ∧
      ¬ (new 1 100 true 0x00005555557692c0).Backed := by
  refine ⟨⟨by decide, by decide⟩, fun h => ?_⟩
  exact absurd h.start (by decide)

end Memory
