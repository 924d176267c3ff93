import Graviton.Lib.Word

/-!
# `MemoryUtility`: alignment and byte swapping

The functions of `libs/utility/memoryutility.h` on the fixed-width integers they take. Every
one of them is a pure function; `Osi.IsBigEndianMachine()` is the host's byte order, a
parameter here.

* `memAlignRoundup_toNat`, `memAlignPointer_toNat`: the masks as arithmetic.
* `roundedUpExtra_iff`: when a size is rounded up as the comments say.
* `checkAndSwap_network`: a swapped word lies in memory in network order, whatever its width
  (`swapsBytes_of_reversesBytes`).
-/

namespace MemoryUtility

open Lib

/-! ## Alignment -/

/-- `Constant::MemAlignSize`, as the `u32_t` it is cast to. -/
def memAlignSize : BitVec 32 := 64

def memAlignRoundup (desiredSize : BitVec 32) : BitVec 32 :=
  (desiredSize + memAlignSize) &&& ~~~(memAlignSize - 1)

/-- `MemAlignPointer`: the sum is a `u64_t`, the mask is complemented as a `u32_t` and then
widened, so its high half is zero. -/
def memAlignPointer (object : BitVec 64) : BitVec 64 :=
  (object + (memAlignSize * 2).setWidth 64 - 1) &&& (~~~(memAlignSize - 1)).setWidth 64

def memAlignRoundedUpExtra (desiredSize : BitVec 32) : BitVec 32 :=
  memAlignRoundup desiredSize + memAlignSize

theorem memAlignRoundup_toNat (d : BitVec 32) :
    (memAlignRoundup d).toNat = 64 * ((d.toNat + 64) % 2 ^ 32 / 64) := by
  have hm : (~~~(memAlignSize - 1)).toNat = (2 ^ (32 - 6) - 1) * 2 ^ 6 := by decide
  rw [memAlignRoundup, BitVec.toNat_and, hm, and_high_mask _ (by decide), BitVec.toNat_add]
  simp [memAlignSize]

theorem memAlignRoundedUpExtra_toNat (d : BitVec 32) :
    (memAlignRoundedUpExtra d).toNat = (64 * ((d.toNat + 64) % 2 ^ 32 / 64) + 64) % 2 ^ 32 := by
  rw [memAlignRoundedUpExtra, BitVec.toNat_add, memAlignRoundup_toNat]
  rfl

/-- The rounding wraps for the last 128 sizes; below them the size is rounded down, and two blocks
are added. -/
theorem memAlignRoundedUpExtra_of_lt {d : BitVec 32} (h : d.toNat + 128 < 2 ^ 32) :
    (memAlignRoundedUpExtra d).toNat = d.toNat - d.toNat % 64 + 128 := by
  rw [memAlignRoundedUpExtra_toNat, Nat.mod_eq_of_lt (by omega), Nat.mod_eq_of_lt (by omega)]
  omega

/-- For the last 128 sizes the result is one block at most. -/
theorem memAlignRoundedUpExtra_of_ge {d : BitVec 32} (h : 2 ^ 32 ≤ d.toNat + 128) :
    (memAlignRoundedUpExtra d).toNat ≤ 64 := by
  have hd := d.isLt
  rw [memAlignRoundedUpExtra_toNat]
  omega

/-- The size the comments promise: that of the rounded up value and one extra block, where it is
a `u32_t`, and at all events enough. -/
structure RoundedUpExtra (desiredSize : BitVec 32) : Prop where
  exact : ∀ m, IsLeast {m | 64 ∣ m ∧ desiredSize.toNat ≤ m} m → m + 64 < 2 ^ 32 →
    (memAlignRoundedUpExtra desiredSize).toNat = m + 64
  enough : desiredSize.toNat ≤ (memAlignRoundedUpExtra desiredSize).toNat

/-- **When the size is the promised one**: a multiple of 64 gets a block too many, and the last
128 sizes wrap. -/
theorem roundedUpExtra_iff (d : BitVec 32) :
    RoundedUpExtra d ↔ ¬ 64 ∣ d.toNat ∧ d.toNat + 128 < 2 ^ 32 := by
  have hleast := isLeast_mul_ceilDiv (show 0 < 64 by decide) d.toNat
  constructor
  · rintro ⟨hexact, henough⟩
    have hlt : d.toNat + 128 < 2 ^ 32 := by
      by_contra hge
      have := memAlignRoundedUpExtra_of_ge (d := d) (by omega)
      omega
    refine ⟨fun hd => ?_, hlt⟩
    have hm := hexact d.toNat ⟨⟨hd, Nat.le_refl _⟩, fun m hm => hm.2⟩ (by omega)
    rw [memAlignRoundedUpExtra_of_lt hlt] at hm
    omega
  · rintro ⟨hd, hlt⟩
    rw [Nat.dvd_iff_mod_eq_zero] at hd
    have hval := memAlignRoundedUpExtra_of_lt hlt
    refine ⟨fun m hm _ => ?_, by omega⟩
    rw [hval, hm.unique hleast, Nat.ceilDiv_eq_add_pred_div]
    omega

/-- One block too many for a multiple of 64, and nothing for a size of nearly 4 GiB. -/
theorem not_roundedUpExtra : memAlignRoundedUpExtra 64 = 192 ∧ ¬ RoundedUpExtra 64 ∧
    memAlignRoundedUpExtra 0xffffff81 = 0 ∧ ¬ RoundedUpExtra 0xffffff81 := by
  have hmul : memAlignRoundedUpExtra 64 = 192 := by decide
  have hwrap : memAlignRoundedUpExtra 0xffffff81 = 0 := by decide
  refine ⟨hmul, fun h => ?_, hwrap, fun h => ?_⟩
  · have hm := h.exact 64 ⟨by decide, fun m hm => hm.2⟩ (by decide)
    rw [hmul] at hm
    cases hm
  · have hm := h.enough
    rw [hwrap] at hm
    exact absurd hm (by decide)

/-- The widened mask keeps no bit above the 32nd: the result is the rounded address modulo
`2 ^ 32`. -/
theorem memAlignPointer_toNat (p : BitVec 64) :
    (memAlignPointer p).toNat = 64 * ((p.toNat + 127) % 2 ^ 32 / 64) := by
  have hm : ((~~~(memAlignSize - 1)).setWidth 64).toNat = (2 ^ (32 - 6) - 1) * 2 ^ 6 := by decide
  have hs : (p + (memAlignSize * 2).setWidth 64 - 1).toNat = (p.toNat + 127) % 2 ^ 64 := by
    rw [show (memAlignSize * 2).setWidth 64 = 128#64 by decide, BitVec.toNat_sub,
      BitVec.toNat_add, show (128#64).toNat = 128 from rfl, show (1 : BitVec 64).toNat = 1 from rfl]
    omega
  rw [memAlignPointer, BitVec.toNat_and, hm, and_high_mask _ (by decide), hs]
  omega

/-! ## Byte swapping: one definition for each overload of `Swap` and `CheckAndSwap`

A `u16_t` is promoted to an `int`, and the masks of the last overload are signed; no term leaves
the width it is given, so neither is seen in the result. -/

def swap16 (value : BitVec 16) : BitVec 16 :=
  ((value &&& 0xff) <<< 8) ||| ((value >>> 8) &&& 0xff)

def swap32 (value : BitVec 32) : BitVec 32 :=
  ((value &&& 0xff) <<< 24)
    ||| ((value >>> 24) &&& 0xff)
    ||| ((value &&& 0xff00) <<< 8)
    ||| ((value >>> 8) &&& 0xff00)

def swap64 (value : BitVec 64) : BitVec 64 :=
  ((value &&& 0xff) <<< 56)
    ||| ((value >>> 56) &&& 0xff)
    ||| ((value &&& 0xff00) <<< 40)
    ||| ((value >>> 40) &&& 0xff00)
    ||| ((value &&& 0xff0000) <<< 24)
    ||| ((value >>> 24) &&& 0xff0000)
    ||| ((value &&& 0xff000000) <<< 8)
    ||| ((value >>> 8) &&& 0xff000000)

/-- `OsInterface::IsBigEndianMachine`, of the host `o`. -/
def isBigEndianMachine (o : Order) : Bool := o = .big

def checkAndSwap8 (value : BitVec 8) : BitVec 8 := value

def checkAndSwap16 (o : Order) (value : BitVec 16) : BitVec 16 :=
  if isBigEndianMachine o then value else swap16 value

def checkAndSwap32 (o : Order) (value : BitVec 32) : BitVec 32 :=
  if isBigEndianMachine o then value else swap32 value

def checkAndSwap64 (o : Order) (value : BitVec 64) : BitVec 64 :=
  if isBigEndianMachine o then value else swap64 value

/-- `m_bigEndian`, as the constructor of `OsInterface` finds it: the first byte in memory of the
test word is its most significant one. -/
def bigEndian (o : Order) : Bool := (o.bytes 4 (0x01020304 : BitVec 32))[0]? = some 0x01

/-- The test tells the two byte orders apart. -/
theorem isBigEndianMachine_eq (o : Order) : isBigEndianMachine o = bigEndian o := by
  cases o <;> decide

/-! ### The bytes of a swapped word

Each byte is the masked and shifted byte at the other end, all other terms being zero there. -/

theorem and_ff (b : Byte) : b &&& 255#8 = b := BitVec.and_allOnes (w := 8)

theorem swap16_reversesBytes : ReversesBytes 2 swap16 := by
  intro v k hk
  interval_cases k
  all_goals
    simp (disch := decide) only [swap16, byteAt_or, byteAt_and, byteAt_shiftLeft,
      byteAt_ushiftRight]
    simp [byteAt, and_ff]

theorem swap32_reversesBytes : ReversesBytes 4 swap32 := by
  intro v k hk
  interval_cases k
  all_goals
    simp (disch := decide) only [swap32, byteAt_or, byteAt_and, byteAt_shiftLeft,
      byteAt_ushiftRight]
    simp [byteAt, and_ff]

theorem swap64_reversesBytes : ReversesBytes 8 swap64 := by
  intro v k hk
  interval_cases k
  all_goals
    simp (disch := decide) only [swap64, byteAt_or, byteAt_and, byteAt_shiftLeft,
      byteAt_ushiftRight]
    simp [byteAt, and_ff]

/-- What `Swap` and `CheckAndSwap` do to a value of `n` bytes on the host `o`. -/
structure SwapsBytes (o : Order) {w : Nat} (n : Nat) (swap checkAndSwap : BitVec w → BitVec w)
    (value : BitVec w) : Prop where
  network : o.bytes n (checkAndSwap value) = beBytes n value
  twice : checkAndSwap (checkAndSwap value) = value
  reversed : o.bytes n (swap value) = (o.bytes n value).reverse

/-- One argument for the three widths. -/
theorem swapsBytes_of_reversesBytes (o : Order) {w n : Nat} {swap : BitVec w → BitVec w}
    (h : ReversesBytes n swap) (hw : w ≤ 8 * n) (value : BitVec w) :
    SwapsBytes o n swap (fun v => if isBigEndianMachine o then v else swap v) value := by
  cases o with
  | little => exact ⟨h.leBytes_eq value, h.involutive hw value, h.bytes_eq .little value⟩
  | big => exact ⟨rfl, rfl, h.bytes_eq .big value⟩

theorem swapsBytes16 (o : Order) (v : BitVec 16) : SwapsBytes o 2 swap16 (checkAndSwap16 o) v :=
  swapsBytes_of_reversesBytes o swap16_reversesBytes (by decide) v

theorem swapsBytes32 (o : Order) (v : BitVec 32) : SwapsBytes o 4 swap32 (checkAndSwap32 o) v :=
  swapsBytes_of_reversesBytes o swap32_reversesBytes (by decide) v

theorem swapsBytes64 (o : Order) (v : BitVec 64) : SwapsBytes o 8 swap64 (checkAndSwap64 o) v :=
  swapsBytes_of_reversesBytes o swap64_reversesBytes (by decide) v

/-- **Byte swapping implements network order**, for every width and either byte order of the
host, as the constructor's test finds it. -/
theorem checkAndSwap_network (o : Order) : isBigEndianMachine o = bigEndian o ∧
    (∀ v, SwapsBytes o 2 swap16 (checkAndSwap16 o) v) ∧
    (∀ v, SwapsBytes o 4 swap32 (checkAndSwap32 o) v) ∧
    ∀ v, SwapsBytes o 8 swap64 (checkAndSwap64 o) v :=
  ⟨isBigEndianMachine_eq o, swapsBytes16 o, swapsBytes32 o, swapsBytes64 o⟩

@[simp] theorem bytes_checkAndSwap8 (o : Order) (v : BitVec 8) :
    o.bytes 1 (checkAndSwap8 v) = beBytes 1 v := by
  cases o <;> rfl

@[simp] theorem bytes_checkAndSwap16 (o : Order) (v : BitVec 16) :
    o.bytes 2 (checkAndSwap16 o v) = beBytes 2 v := (swapsBytes16 o v).network

@[simp] theorem bytes_checkAndSwap32 (o : Order) (v : BitVec 32) :
    o.bytes 4 (checkAndSwap32 o v) = beBytes 4 v := (swapsBytes32 o v).network

@[simp] theorem bytes_checkAndSwap64 (o : Order) (v : BitVec 64) :
    o.bytes 8 (checkAndSwap64 o v) = beBytes 8 v := (swapsBytes64 o v).network

@[simp] theorem swap16_swap16 (v : BitVec 16) : swap16 (swap16 v) = v :=
  swap16_reversesBytes.involutive (by decide) v

/-- A word in network order, loaded by the host and swapped, is the word. -/
theorem checkAndSwap16_load (o : Order) (v : BitVec 16) :
    checkAndSwap16 o (BitVec.ofNat 16 (o.load (beBytes 2 v))) = v := by
  have hl : o.load (beBytes 2 v) = (checkAndSwap16 o v).toNat := by
    rw [← bytes_checkAndSwap16 o v]
    exact o.load_bytes _ (by decide)
  rw [hl, BitVec.ofNat_toNat, BitVec.setWidth_eq]
  exact (swapsBytes16 o v).twice

end MemoryUtility
